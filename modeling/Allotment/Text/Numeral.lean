/-!
# Decimal numerals

`isDigit` is the Unicode property of decimal digits, in which each script has ten digits in a row.
A numeral, however, is read only if its digits are those from `0` to `9`. `ofDigits?` reads a run
of digits and `ofText?` allows one plus sign before it; both refuse a number above a given bound.
-/

namespace Allotment.Text

/-- The zeros of all scripts, each followed by its digits up to nine. -/
def zeros : List Nat :=
  [48, 1632, 1776, 1984, 2406, 2534, 2662, 2790, 2918, 3046, 3174, 3302, 3430, 3558, 3664, 3792,
    3872, 4160, 4240, 6112, 6160, 6470, 6608, 6784, 6800, 6992, 7088, 7232, 7248, 42528, 43216,
    43264, 43472, 43504, 43600, 44016, 65296, 66720, 68912, 68928, 69734, 69872, 69942, 70096,
    70384, 70736, 70864, 71248, 71360, 71376, 71386, 71472, 71904, 72016, 72688, 72784, 73040,
    73120, 73552, 90416, 92768, 92864, 93008, 93552, 118000, 120782, 120792, 120802, 120812,
    120822, 123200, 123632, 124144, 124401, 125264, 130032]

/-- The decimal digits of any script. -/
def isDigit (c : Char) : Bool :=
  c.isDigit || zeros.any fun z => z ≤ c.toNat && c.toNat ≤ z + 9

namespace Numeral

/-- The number that a run of digits writes, if it is at most `greatest`. -/
def ofDigits? (greatest : Nat) (cs : List Char) : Option Nat :=
  if cs ≠ [] ∧ cs.all Char.isDigit then
    let n := Nat.ofDigitChars 10 cs 0
    if n ≤ greatest then some n else none
  else
    none

/-- The number that digits write, with or without a plus sign before them. -/
def ofText? (greatest : Nat) : List Char → Option Nat
  | '+' :: cs => ofDigits? greatest cs
  | cs => ofDigits? greatest cs

/-- The greatest number of 32 bits. -/
def greatest32 : Nat := 4294967295

/-- The greatest number of 63 bits, which is the greatest one that a signed word of 64 bits
holds. -/
def greatest63 : Nat := 9223372036854775807

/-- The greatest number of 64 bits. -/
def greatest64 : Nat := 18446744073709551615

theorem ofDigits?_eq_some_iff {greatest n : Nat} {cs : List Char} :
    ofDigits? greatest cs = some n ↔
      cs ≠ [] ∧ cs.all Char.isDigit ∧ Nat.ofDigitChars 10 cs 0 = n ∧ n ≤ greatest := by
  simp only [ofDigits?]
  split
  · split <;> grind
  · grind

theorem le_of_ofDigits? {greatest n : Nat} {cs : List Char}
    (h : ofDigits? greatest cs = some n) : n ≤ greatest :=
  (ofDigits?_eq_some_iff.1 h).2.2.2

theorem isDigit_of_mem_toDigits {n : Nat} {c : Char} (h : c ∈ Nat.toDigits 10 n) :
    c.isDigit = true :=
  Nat.isDigit_of_mem_toDigits (by decide) (by decide) h

/-- What is written in decimal reads back. -/
theorem ofDigits?_toDigits {greatest n : Nat} (h : n ≤ greatest) :
    ofDigits? greatest (Nat.toDigits 10 n) = some n := by
  rw [ofDigits?_eq_some_iff]
  refine ⟨Nat.toDigits_ne_nil, ?_, Nat.ofDigitChars_toDigits (by decide) (by decide), h⟩
  exact List.all_eq_true.2 fun c hc => isDigit_of_mem_toDigits hc

end Numeral

end Allotment.Text
