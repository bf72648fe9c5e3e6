import Allotment.Text.Octets

/-!
# Numerals of any base

Digits of a base up to 36, the first of them decimal and the others letters of either case.
`Radix.natural?` reads a numeral that shows its base by how it begins.
-/

namespace Allotment.Text.Radix

/-- The value of a digit; 36 for what is no digit of any base. -/
def digit (c : Char) : Nat :=
  if c.isDigit then c.toNat - '0'.toNat
  else if c.isUpper then c.toNat - 'A'.toNat + 10
  else if c.isLower then c.toNat - 'a'.toNat + 10
  else 36

def isDigit (base : Nat) (c : Char) : Bool :=
  digit c < base

def value (base : Nat) (ds : Octets) : Nat :=
  ds.foldl (fun n c => n * base + digit c) 0

/-- The digits of a base at the beginning of a text, and what follows. -/
def split (base : Nat) (cs : Octets) : Octets × Octets :=
  (cs.takeWhile (isDigit base), cs.dropWhile (isDigit base))

/-- At most so many digits of a base at the beginning of a text, and what follows. -/
def splitAtMost (n base : Nat) (cs : Octets) : Octets × Octets :=
  let ds := (cs.take n).takeWhile (isDigit base)
  (ds, cs.drop ds.length)

/-- The number at the beginning of a text, and what follows. -/
def read? (base : Nat) (cs : Octets) : Option (Nat × Octets) :=
  let (ds, rest) := split base cs
  if ds.isEmpty then none else some (value base ds, rest)

/-- The number at the beginning of a text, and what follows: hexadecimal after `0x`, octal after
a zero, and decimal otherwise. -/
def natural? (cs : Octets) : Option (Nat × Octets) :=
  match cs with
  | '0' :: x :: rest =>
    if x = 'x' ∨ x = 'X' then (read? 16 rest).or (some (0, x :: rest))
    else read? 8 cs
  | _ => read? 10 cs

theorem split_append {base : Nat} {cs : Octets} :
    (split base cs).1 ++ (split base cs).2 = cs := by
  simp [split, List.takeWhile_append_dropWhile]

end Allotment.Text.Radix
