import Allotment.Binary64.Basic

/-!
# Doubles in decimal

A `Decimal` is a numeral in which a double can be written. `Binary64.shortest` picks one with the
fewest digits among those that are nearer to the double than to any other, and of these the one
nearest to it, the greater one if two are equally near. `Binary64.ofDecimal` goes back: it is the
double nearest to a numeral.

## Implementation notes

Numerals with the same exponent lie on a grid, and only the two neighbours of the double on a grid
can be nearest to it. The search goes from a grid that is too coarse to finer ones and ends at the
latest on the grid that holds the double itself.
-/

namespace Allotment

/-- The number `digits * 10 ^ exponent`. -/
structure Decimal where
  digits : Nat
  exponent : Int
deriving DecidableEq, Repr

/-- Positional notation: no exponent, and no point in a whole number. -/
def Decimal.text (d : Decimal) : String :=
  let ds := Nat.toDigits 10 d.digits
  if 0 ≤ d.exponent then
    String.ofList (ds ++ List.replicate d.exponent.toNat '0')
  else
    let places := (-d.exponent).toNat
    let ds := List.replicate (places + 1 - ds.length) '0' ++ ds
    let whole := ds.length - places
    String.ofList (ds.take whole ++ '.' :: ds.drop whole)

namespace Binary64

/-- The numbers that are rounded to a positive double: those from `low` to `high`, with the double
itself at `mid`, all in units of `2 ^ exponent`. -/
structure Basin where
  low : Nat
  mid : Nat
  high : Nat
  exponent : Int
  /-- The bounds are rounded to the double too. -/
  closed : Bool

/-- The numbers that are rounded to the absolute value of a finite double. Its neighbour below is
half as far away as the one above if the fraction is zero and the exponent can go down. -/
def basin (x : Float) : Basin :=
  let m := significand x
  { low := if fraction x = 0 ∧ 1 < exponentField x then 4 * m - 1 else 4 * m - 2
    mid := 4 * m
    high := 4 * m + 2
    exponent := (exponentAboveLeast x : Int) - 1076
    closed := m % 2 == 0 }

namespace Basin

/-- The number of units `k`, on a common scale on which it and the multiples of `10 ^ g` are
whole. -/
def units (b : Basin) (g : Int) (k : Nat) : Nat :=
  k * Nat.pow 2 b.exponent.toNat * Nat.pow 10 (-g).toNat

/-- The multiple `c` of `10 ^ g` on the same scale. -/
def tens (b : Basin) (g : Int) (c : Nat) : Nat :=
  c * Nat.pow 10 g.toNat * Nat.pow 2 (-b.exponent).toNat

/-- The number `c * 10 ^ g` is rounded to the double. -/
def Holds (b : Basin) (g : Int) (c : Nat) : Prop :=
  if b.closed then b.units g b.low ≤ b.tens g c ∧ b.tens g c ≤ b.units g b.high
  else b.units g b.low < b.tens g c ∧ b.tens g c < b.units g b.high

instance (b : Basin) (g : Int) (c : Nat) : Decidable (b.Holds g c) := by
  unfold Holds
  infer_instance

/-- The greatest multiple of `10 ^ g` that is not above the double. -/
def floor (b : Basin) (g : Int) : Nat :=
  b.units g b.mid / b.tens g 1

/-- The multiple of `10 ^ g` that is rounded to the double and nearest to it. -/
def nearest? (b : Basin) (g : Int) : Option Nat :=
  let c := b.floor g
  let below := b.units g b.mid - b.tens g c
  let above := b.tens g (c + 1) - b.units g b.mid
  if b.Holds g c ∧ (b.Holds g (c + 1) → below < above) then some c
  else if b.Holds g (c + 1) then some (c + 1)
  else none

/-- The exponent of the grid on which the search begins; all multiples of the next greater power
of ten are above the numbers that are rounded to the double. The quotient is just above the
logarithm of two. -/
def coarsest (b : Basin) : Int :=
  (Nat.log2 b.high + 1 + b.exponent) * 30103 / 100000 + 1

/-- Searches from the grid of `10 ^ g` on through at most so many finer ones. -/
def search (b : Basin) (g : Int) : Nat → Decimal
  | 0 => ⟨b.floor g, g⟩
  | n + 1 =>
    match b.nearest? g with
    | some c => ⟨c, g⟩
    | none => search b (g - 1) n

end Basin

/-- The shortest numeral of the absolute value of a finite double. -/
def shortest (x : Float) : Decimal :=
  let b := basin x
  b.search b.coarsest (b.coarsest - min b.exponent 0).toNat

def text (x : Float) : String :=
  let sign := if negative x then "-" else ""
  match kind x with
  | .notNumber => "NaN"
  | .infinite => sign ++ "inf"
  | .finite => sign ++ if significand x = 0 then "0" else (shortest x).text

/-- The double nearest to a numeral. Numerals that are far out of range are not computed with. -/
def ofDecimal (isNegative : Bool) (d : Decimal) : Float :=
  let size := Nat.log2 d.digits / 3 + d.exponent
  let x :=
    if d.digits = 0 ∨ size < -1000 then 0
    else if 2000 < size then infinity
    else Float.ofScientific d.digits (d.exponent < 0) d.exponent.natAbs
  if isNegative then -x else x

def notNumber : Float :=
  Float.ofBits 0x7FF8000000000000

end Binary64

end Allotment
