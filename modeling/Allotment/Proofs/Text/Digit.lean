import Allotment.Text.Blank
import Allotment.Text.Numeral

/-!
# Digits and blanks

No digit of any script is a blank, so a numeral that has been written is a word of its own, and it
reads back.
-/

namespace Allotment.Text

theorem exists_zero_of_isDigit {c : Char} (h : isDigit c = true) :
    ∃ z ∈ zeros, z ≤ c.toNat ∧ c.toNat ≤ z + 9 := by
  rw [isDigit, Bool.or_eq_true] at h
  rcases h with h | h
  · rw [Char.isDigit_iff_toNat] at h
    exact ⟨48, by decide, h⟩
  · simpa using h

theorem not_isBlank_of_isDigit {c : Char} (h : isDigit c = true) : isBlank c = false := by
  obtain ⟨z, hz, hle, hge⟩ := exists_zero_of_isDigit h
  -- the digits of each script lie between two groups of blanks
  have hbetween : ∀ z ∈ zeros, 0x20 < z ∧ z + 9 < 0x85 ∨ 0xA0 < z ∧ z + 9 < 0x1680 ∨
      0x1680 < z ∧ z + 9 < 0x2000 ∨ 0x3000 < z := by decide
  have hgap := hbetween z hz
  rw [Bool.eq_false_iff]
  intro hblank
  simp only [isBlank, Bool.or_eq_true, Bool.and_eq_true, decide_eq_true_eq, beq_iff_eq] at hblank
  omega

theorem not_isDigit_of_isBlank {c : Char} (h : isBlank c = true) : isDigit c = false := by
  rw [Bool.eq_false_iff]
  intro hdigit
  rw [not_isBlank_of_isDigit hdigit] at h
  contradiction

theorem ne_of_isBlank {b x : Char} (hb : isBlank b = true) (hx : isBlank x = false) : b ≠ x := by
  rintro rfl
  rw [hx] at hb
  contradiction

/-! ## Numerals that have been written -/

theorem isDigit_of_mem_toDigits {n : Nat} {c : Char} (h : c ∈ Nat.toDigits 10 n) :
    isDigit c = true := by
  rw [isDigit, Numeral.isDigit_of_mem_toDigits h, Bool.true_or]

theorem not_isBlank_of_mem_toDigits {n : Nat} {c : Char} (h : c ∈ Nat.toDigits 10 n) :
    isBlank c = false :=
  not_isBlank_of_isDigit (isDigit_of_mem_toDigits h)

theorem Numeral.ofText?_toDigits {greatest n : Nat} (h : n ≤ greatest) :
    ofText? greatest (Nat.toDigits 10 n) = some n := by
  have hread := ofDigits?_toDigits h
  cases hdigits : Nat.toDigits 10 n with
  | nil => exact absurd hdigits Nat.toDigits_ne_nil
  | cons c cs =>
      have hc : c.isDigit = true := Numeral.isDigit_of_mem_toDigits (hdigits ▸ List.mem_cons_self)
      have hsign : c ≠ '+' := by
        rintro rfl
        contradiction
      rw [ofText?, ← hdigits]
      · exact hread
      · grind

end Allotment.Text
