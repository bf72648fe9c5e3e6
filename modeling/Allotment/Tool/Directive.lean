import Allotment.Tool.Floating

/-!
# Directives of a format

A `Directive` tells how one value is printed: its width and precision and the marks that come
before them.
-/

namespace Allotment.Tool

open Text (Octets)

/-- How a value is printed, but for its kind. -/
structure Directive where
  /-- Blanks follow the value rather than precede it. -/
  leftAligned : Bool := false
  /-- A number that is not negative has a plus sign. -/
  plus : Bool := false
  /-- A number that is not negative has a blank for its sign. -/
  blank : Bool := false
  /-- The base is shown, and a point is always there. -/
  alternate : Bool := false
  zeros : Bool := false
  /-- Digits are grouped where that is the custom, which it is not here. -/
  grouped : Bool := false
  width : Nat := 0
  precision : Option Nat := none
deriving Repr

namespace Directive

def mark (d : Directive) : Char → Directive
  | '-' => { d with leftAligned := true }
  | '+' => { d with plus := true }
  | ' ' => { d with blank := true }
  | '#' => { d with alternate := true }
  | '0' => { d with zeros := true }
  | '\'' => { d with grouped := true }
  | _ => d

def isMark (c : Char) : Bool :=
  c ∈ ['-', '+', ' ', '#', '0']

def fill (d : Directive) (cs : Octets) : Octets :=
  let blanks := List.replicate (d.width - cs.length) ' '
  if d.leftAligned then cs ++ blanks else blanks ++ cs

/-- Fills the width of a number, with zeros after its sign if `mayZero` holds. -/
def fillNumber (d : Directive) (mayZero : Bool) (sign digits : Octets) : Octets :=
  if d.zeros ∧ mayZero ∧ ¬d.leftAligned then
    sign ++ List.replicate (d.width - sign.length - digits.length) '0' ++ digits
  else d.fill (sign ++ digits)

def sign (d : Directive) (isNegative : Bool) : Octets :=
  if isNegative then ['-'] else if d.plus then ['+'] else if d.blank then [' '] else []

def text (d : Directive) (cs : Octets) : Octets :=
  d.fill (match d.precision with
    | some n => cs.take n
    | none => cs)

/-- The digits of a number, as many as the precision asks for. A zero has none if it asks for
none. -/
def digits (d : Directive) (base n : Nat) : Octets :=
  match d.precision with
  | some 0 => if n = 0 then [] else Nat.toDigits base n
  | some p =>
    let ds := Nat.toDigits base n
    List.replicate (p - ds.length) '0' ++ ds
  | none => Nat.toDigits base n

def signed (d : Directive) (n : Int) : Octets :=
  d.fillNumber d.precision.isNone (d.sign (n < 0)) (d.digits 10 n.natAbs)

def unsigned (d : Directive) (kind : Char) (n : Nat) : Octets :=
  let base := if kind = 'u' then 10 else if kind = 'o' then 8 else 16
  let ds := d.digits base n
  let ds := if kind = 'o' ∧ d.alternate ∧ ds.head? ≠ some '0' then '0' :: ds else ds
  let lead := if base = 16 ∧ d.alternate ∧ n ≠ 0 then ['0', 'x'] else []
  let cs := d.fillNumber d.precision.isNone lead ds
  if kind = 'X' then cs.map Char.toUpper else cs

def floating (d : Directive) (style : Char) (x : Floating) : Octets :=
  let ds := x.magnitude style.toLower (d.precision.getD 6) d.alternate
  let cs := d.fillNumber x.isFinite (d.sign x.isNegative) ds
  if style.isUpper then cs.map Char.toUpper else cs

end Directive

end Allotment.Tool
