/-!
# Signed words

Amounts are integers that fit a signed word. A `Word` names the width, `Word.Holds` says which
integers fit, and the two ways back into the range are `Word.clamp`, which stops at the bounds,
and `Word.wrap`, which drops the high bits.
-/

namespace Allotment

/-- A signed two's complement word, by its width in bits. -/
inductive Word where
  | word32
  | word64
deriving DecidableEq, Repr

namespace Word

/-- The least integer of the word. -/
def least : Word → Int
  | word32 => -2147483648
  | word64 => -9223372036854775808

/-- The greatest integer of the word. -/
def greatest : Word → Int
  | word32 => 2147483647
  | word64 => 9223372036854775807

/-- The number of integers of the word. -/
def modulus : Word → Nat
  | word32 => 4294967296
  | word64 => 18446744073709551616

/-- The word holds the integer: it lies between the bounds, bounds included. -/
def Holds (w : Word) (x : Int) : Prop :=
  w.least ≤ x ∧ x ≤ w.greatest

instance (w : Word) (x : Int) : Decidable (w.Holds x) :=
  inferInstanceAs (Decidable (_ ∧ _))

/-- The integer of the word nearest to `x`. -/
def clamp (w : Word) (x : Int) : Int :=
  max w.least (min w.greatest x)

/-- The integer of the word that has the same low bits as `x`. -/
def wrap (w : Word) (x : Int) : Int :=
  Int.bmod x w.modulus

variable {w : Word} {x y : Int}

theorem holds_zero : w.Holds 0 := by
  cases w <;> decide

theorem holds_greatest : w.Holds w.greatest := by
  cases w <;> decide

theorem least_eq (w : Word) : w.least = -w.greatest - 1 := by
  cases w <;> rfl

theorem greatest_pos (w : Word) : 0 < w.greatest := by
  cases w <;> decide

theorem holds_clamp : w.Holds (w.clamp x) := by
  cases w <;> simp only [Holds, clamp, least, greatest] <;> omega

theorem holds_wrap : w.Holds (w.wrap x) := by
  cases w <;> simp only [Holds, wrap, least, greatest, modulus, Int.bmod] <;> omega

theorem clamp_eq_self (h : w.Holds x) : w.clamp x = x := by
  simp only [Holds] at h
  simp only [clamp]
  omega

theorem wrap_eq_self (h : w.Holds x) : w.wrap x = x := by
  cases w <;> simp only [Holds, least, greatest] at h <;>
    simp only [wrap, modulus, Int.bmod] <;> omega

/-- An integer may be wrapped before it is added to another one. -/
theorem wrap_add_wrap : w.wrap (x + w.wrap y) = w.wrap (x + y) :=
  Int.add_bmod_bmod

theorem clamp_le_clamp (h : x ≤ y) : w.clamp x ≤ w.clamp y := by
  simp only [clamp]
  omega

/-- Clamping moves an integer only if the word cannot hold it. -/
theorem clamp_eq_self_iff : w.clamp x = x ↔ w.Holds x := by
  constructor
  · intro h
    exact h ▸ holds_clamp
  · exact clamp_eq_self

/-! ### Clamping what is not negative -/

theorem clamp_eq_self_of_le (hx : 0 ≤ x) (hle : x ≤ w.greatest) : w.clamp x = x := by
  have hleast := w.least_eq
  have hgreatest := w.greatest_pos
  exact clamp_eq_self ⟨by omega, hle⟩

theorem clamp_eq_zero_iff : w.clamp x = 0 ↔ x = 0 := by
  have hleast := w.least_eq
  have hgreatest := w.greatest_pos
  simp only [clamp]
  omega

/-- A bound below the greatest integer of the word is passed by the clamped integer if it is passed
at all. -/
theorem lt_clamp_iff (hx : 0 ≤ x) (hy : w.greatest < x → y < w.greatest) :
    y < w.clamp x ↔ y < x := by
  have hleast := w.least_eq
  have hgreatest := w.greatest_pos
  simp only [clamp]
  omega

/-- What was cut off by an addition is missing once the addition has been taken back. -/
theorem clamp_clamp_add_sub (hx : w.Holds x) (hy : 0 ≤ y) (hle : y ≤ w.greatest) :
    w.clamp (w.clamp (x + y) - y) = min x (w.greatest - y) := by
  have hleast := w.least_eq
  simp only [Holds] at hx
  simp only [clamp]
  omega

theorem clamp_add_clamp (hx : 0 ≤ x) (hy : 0 ≤ y) : w.clamp (x + w.clamp y) = w.clamp (x + y) := by
  have hleast := w.least_eq
  have hgreatest := w.greatest_pos
  simp only [clamp]
  omega

end Word

end Allotment
