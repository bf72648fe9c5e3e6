import Allotment.Text.OctetClass
import Allotment.Text.Radix

/-!
# Numbers with a fraction, in print

A `Floating` is a number as a printing command holds it: rounded to so many binary digits. It is
read off a numeral and written with a given number of digits, both in exact arithmetic.
-/

namespace Allotment.Tool

open Text (Octets Radix.value Radix.split)

/-- A number as a printing command holds it. -/
inductive Floating where
  /-- A quotient of natural numbers with a sign. -/
  | finite (isNegative : Bool) (num den : Nat)
  | infinite (isNegative : Bool)
  | notNumber (isNegative : Bool)
deriving Repr

namespace Floating

/-- How many binary digits a number has, and the bounds of the exponent of the last one. -/
structure Precision where
  bits : Nat
  least : Int
  greatest : Int

def double : Precision := ⟨53, -1074, 971⟩

def extended : Precision := ⟨64, -16445, 16320⟩

/-- The quotient, rounded to the nearest natural number and to an even one in the middle. -/
def divide (a b : Nat) : Nat :=
  let q := a / b
  let r := 2 * (a % b)
  if r < b ∨ r = b ∧ q % 2 = 0 then q else q + 1

/-- The quotient `a / b` times a power of the base, as a quotient. -/
def scale (base : Nat) (e : Int) (a b : Nat) : Nat × Nat :=
  (a * Nat.pow base e.toNat, b * Nat.pow base (-e).toNat)

def round (p : Precision) (isNegative : Bool) (a b : Nat) : Floating :=
  if a = 0 ∨ b = 0 then finite isNegative 0 1
  else
    let guess : Int := (Nat.log2 a : Int) - Nat.log2 b - p.bits
    let significand (e : Int) : Nat := let (a, b) := scale 2 (-e) a b; divide a b
    let isTooLong (e : Int) : Bool := Nat.pow 2 p.bits ≤ significand e
    let e := if isTooLong guess then if isTooLong (guess + 1) then guess + 2 else guess + 1
      else guess
    let e := max e p.least
    if p.greatest < e then infinite isNegative
    else
      let (num, den) := scale 2 e (significand e) 1
      finite isNegative num den

/-! ### Reading -/

/-- The exponent after the given letter, and what follows; zero if there is none. -/
def exponent (letter : Char) (cs : Octets) : Int × Octets :=
  match cs with
  | c :: rest =>
    if c.toLower = letter then
      let (isNegative, digits) := match rest with
        | '-' :: ds => (true, ds)
        | '+' :: ds => (false, ds)
        | ds => (false, ds)
      let (ds, after) := Radix.split 10 digits
      if ds.isEmpty then (0, cs)
      else
        let e : Int := min (Radix.value 10 ds) 100000
        (if isNegative then -e else e, after)
    else (0, cs)
  | [] => (0, cs)

/-- Digits with or without a point and an exponent, and what follows. -/
def digits? (p : Precision) (isNegative isHex : Bool) (cs : Octets) :
    Option (Floating × Octets) :=
  let base := if isHex then 16 else 10
  let (whole, rest) := Radix.split base cs
  let (fraction, rest) := match rest with
    | '.' :: ds => Radix.split base ds
    | _ => ([], rest)
  if whole.isEmpty ∧ fraction.isEmpty then none
  else
    let (e, rest) := exponent (if isHex then 'p' else 'e') rest
    let n := Radix.value base (whole ++ fraction)
    let size := (whole.length : Int) + e
    if n ≠ 0 ∧ 20000 < size then some (infinite isNegative, rest)
    else if size < -20000 then some (finite isNegative 0 1, rest)
    else
      let (a, b) := scale (if isHex then 2 else 10) e n (Nat.pow base fraction.length)
      some (round p isNegative a b, rest)

def beginsWith (w : String) (cs : Octets) : Bool :=
  w.toList.isPrefixOf (cs.map Char.toLower)

def read? (p : Precision) (cs : Octets) : Option (Floating × Octets) :=
  let cs := cs.dropWhile Octets.isSpace
  let (isNegative, cs) := match cs with
    | '-' :: cs => (true, cs)
    | '+' :: cs => (false, cs)
    | cs => (false, cs)
  if beginsWith "infinity" cs then some (infinite isNegative, cs.drop 8)
  else if beginsWith "inf" cs then some (infinite isNegative, cs.drop 3)
  else if beginsWith "nan" cs then some (notNumber isNegative, cs.drop 3)
  else if beginsWith "0x" cs then
    (digits? p isNegative true (cs.drop 2)).or (digits? p isNegative false cs)
  else digits? p isNegative false cs

/-! ### Writing -/

def pointed (places : Nat) (showPoint : Bool) (n : Nat) : Octets :=
  let ds := Nat.toDigits 10 n
  let ds := List.replicate (places + 1 - ds.length) '0' ++ ds
  let whole := ds.length - places
  ds.take whole ++ (if places = 0 ∧ ¬showPoint then [] else '.' :: ds.drop whole)

def positional (places : Nat) (showPoint : Bool) (num den : Nat) : Octets :=
  pointed places showPoint (divide (num * Nat.pow 10 places) den)

/-- The digits of a number, of which there are `places + 1`, and the exponent of the first one. -/
def leading (places : Nat) (num den : Nat) : Nat × Int :=
  if num = 0 then (0, 0)
  else
    let guess : Int := (Nat.toDigits 10 num).length - (Nat.toDigits 10 den).length
    let (a, b) := scale 10 (-guess) num den
    let e := if b ≤ a then guess else guess - 1
    let (a, b) := scale 10 (places - e) num den
    let n := divide a b
    if Nat.pow 10 (places + 1) ≤ n then (n / 10, e + 1) else (n, e)

def exponentText (e : Int) : Octets :=
  let ds := Nat.toDigits 10 e.natAbs
  ['e', if e < 0 then '-' else '+'] ++ List.replicate (2 - ds.length) '0' ++ ds

/-- With one digit before the point, so many after it, and an exponent. -/
def scientific (places : Nat) (showPoint : Bool) (num den : Nat) : Octets :=
  let (n, e) := leading places num den
  pointed places showPoint n ++ exponentText e

def trimmed (cs : Octets) : Octets :=
  if '.' ∈ cs then ((cs.reverse.dropWhile (· == '0')).dropWhile (· == '.')).reverse else cs

/-- With so many digits in all, without an exponent if that is near zero. -/
def general (count : Nat) (keepZeros : Bool) (num den : Nat) : Octets :=
  let count := max count 1
  let (n, e) := leading (count - 1) num den
  let trim (cs : Octets) : Octets := if keepZeros then cs else trimmed cs
  if -4 ≤ e ∧ e < count then
    trim (positional ((count : Int) - 1 - e).toNat keepZeros num den)
  else trim (pointed (count - 1) keepZeros n) ++ exponentText e

/-- The digits of the absolute value in the style of the given letter: `f`, `e` or `g`. -/
def magnitude (style : Char) (places : Nat) (alternate : Bool) : Floating → Octets
  | finite _ num den =>
    if style = 'f' then positional places alternate num den
    else if style = 'e' then scientific places alternate num den
    else general places alternate num den
  | infinite _ => "inf".toList
  | notNumber _ => "nan".toList

def isNegative : Floating → Bool
  | finite n _ _ => n
  | infinite n => n
  | notNumber n => n

def isFinite : Floating → Bool
  | finite _ _ _ => true
  | _ => false

end Floating

end Allotment.Tool
