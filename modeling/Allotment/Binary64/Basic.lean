import Allotment.Word

/-!
# Binary floating point, read off the bits

A double is a sign, an exponent field of eleven bits and a fraction of 52 bits. Everything here is
computed from these fields in exact integer arithmetic:

* `Binary64.orderKey` orders all doubles in one line, `-0.0` just below `0.0`;
* `Binary64.scaled` is the value of a finite double in units of `2 ^ -1074`;
* `Binary64.toInt` rounds to an integer that a given word holds.
-/

namespace Allotment

namespace Binary64

/-- The sign, the exponent field and the fraction as one natural number. -/
def word (x : Float) : Nat :=
  x.toBits.toNat

def negative (x : Float) : Bool :=
  0x8000000000000000 ≤ word x

def exponentField (x : Float) : Nat :=
  word x / 0x10000000000000 % 0x800

def fraction (x : Float) : Nat :=
  word x % 0x10000000000000

/-- What the fields of a double stand for. -/
inductive Kind where
  | finite
  | infinite
  | notNumber
deriving DecidableEq, Repr

/-- The all-ones exponent field is set aside for infinities and for what is no number. -/
def kind (x : Float) : Kind :=
  if exponentField x = 0x7FF then
    if fraction x = 0 then .infinite else .notNumber
  else
    .finite

/-- The integer significand of a finite double: its absolute value is
`significand * 2 ^ exponent`. -/
def significand (x : Float) : Nat :=
  if exponentField x = 0 then fraction x else 0x10000000000000 + fraction x

/-- The exponent that goes with `significand`, counted up from the least one, `-1074`. -/
def exponentAboveLeast (x : Float) : Nat :=
  exponentField x - 1

/-- The value of a finite double in units of `2 ^ -1074`. -/
def scaled (x : Float) : Int :=
  let magnitude : Nat := significand x * Nat.pow 2 (exponentAboveLeast x)
  if negative x then -magnitude else magnitude

/-- The place of a double in the total order of doubles: the bits themselves for a clear sign,
counted down from `-1` for a set one. -/
def orderKey (x : Float) : Int :=
  if negative x then 0x7FFFFFFFFFFFFFFF - (word x : Int) else word x

/-- The total order of doubles by sign and magnitude. -/
def compare (x y : Float) : Ordering :=
  Ord.compare (orderKey x) (orderKey y)

/-- The greatest double, above all finite ones. -/
def infinity : Float :=
  Float.ofBits 0x7FF0000000000000

/-- The direction in which a number between two integers is rounded. -/
inductive Rounding where
  | towardZero
  | down
  | up
deriving DecidableEq, Repr

def Rounding.divide (mode : Rounding) (a b : Int) : Int :=
  match mode with
  | .towardZero => a.tdiv b
  | .down => a.fdiv b
  | .up => -((-a).fdiv b)

/-- The integer of the word that lies nearest to the rounded double. What is no number becomes
zero. -/
def toInt (w : Word) (mode : Rounding) (x : Float) : Int :=
  match kind x with
  | .finite => w.clamp (mode.divide (scaled x) (Nat.pow 2 1074))
  | .infinite => if negative x then w.least else w.greatest
  | .notNumber => 0

theorem toInt_holds (w : Word) (mode : Rounding) (x : Float) : w.Holds (toInt w mode x) := by
  unfold toInt
  split
  · exact Word.holds_clamp
  · split
    · cases w <;> decide
    · exact Word.holds_greatest
  · exact Word.holds_zero

theorem word_lt (x : Float) : word x < 0x10000000000000000 :=
  x.toBits.toNat_lt

/-- Two doubles in the same place of the total order have the same bits. -/
theorem toBits_eq_of_orderKey_eq {x y : Float} (h : orderKey x = orderKey y) :
    x.toBits = y.toBits := by
  have hx := word_lt x
  have hy := word_lt y
  simp only [orderKey, negative, decide_eq_true_eq] at h
  have : word x = word y := by
    split at h <;> split at h <;> omega
  exact UInt64.toNat_inj.1 this

/-- No two doubles share a place in the total order. -/
theorem eq_of_orderKey_eq {x y : Float} (h : orderKey x = orderKey y) : x = y := by
  have hbits := toBits_eq_of_orderKey_eq h
  obtain ⟨⟨a, ha⟩⟩ := x
  obtain ⟨⟨b, hb⟩⟩ := y
  obtain rfl : a = b := hbits
  rfl

instance : Std.TransCmp compare :=
  inferInstanceAs (Std.TransCmp (compareOn orderKey))

end Binary64

end Allotment
