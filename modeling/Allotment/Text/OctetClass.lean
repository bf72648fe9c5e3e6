import Allotment.Text.Octets

/-!
# Classes of octets

The classes that patterns and sets of octets can name. All of them hold octets of seven bits only.
-/

namespace Allotment.Text.Octets

def isSpace (c : Char) : Bool :=
  c ∈ [' ', '\t', '\n', '\x0b', '\x0c', '\r']

def isBlank (c : Char) : Bool :=
  c == ' ' || c == '\t'

def class? (name : String) : Option (Char → Bool) :=
  match name with
  | "alpha" => some Char.isAlpha
  | "digit" => some Char.isDigit
  | "alnum" => some Char.isAlphanum
  | "upper" => some Char.isUpper
  | "lower" => some Char.isLower
  | "space" => some isSpace
  | "blank" => some isBlank
  | "punct" => some fun c => 0x21 ≤ c.toNat && c.toNat < 0x7F && !c.isAlphanum
  | "xdigit" => some fun c => c.isDigit || 'a' ≤ c && c ≤ 'f' || 'A' ≤ c && c ≤ 'F'
  | "cntrl" => some fun c => c.toNat < 0x20 || c.toNat = 0x7F
  | "print" => some fun c => 0x20 ≤ c.toNat && c.toNat < 0x7F
  | "graph" => some fun c => 0x21 ≤ c.toNat && c.toNat < 0x7F
  | _ => none

end Allotment.Text.Octets
