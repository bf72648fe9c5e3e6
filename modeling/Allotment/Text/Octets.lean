import Allotment.Text.Lines

/-!
# Octets

The arguments and the output of a command are sequences of bytes, which need not be UTF-8. They are
kept as lists of characters, each of which stands for the byte of its number, so that a byte of
seven bits looks like the character that it writes.
-/

namespace Allotment.Text

abbrev Octets := List Char

instance : LawfulBEq Octets := inferInstance

instance : LawfulBEq (Option Octets) := inferInstance

namespace Octets

def ofByte (b : UInt8) : Char :=
  Char.ofNat b.toNat

def ofString (s : String) : Octets :=
  s.toUTF8.toList.map ofByte

def bytes (o : Octets) : List UInt8 :=
  o.map fun c => UInt8.ofNat c.toNat

def ofNat (n : Nat) : Octets :=
  Nat.toDigits 10 n

def ofInt (n : Int) : Octets :=
  if n < 0 then '-' :: ofNat n.natAbs else ofNat n.natAbs

/-- The UTF-8 bytes of the character with the given number; nothing if there is none. -/
def ofCodePoint (n : Nat) : Octets :=
  if n.isValidChar then ofString (String.singleton (Char.ofNat n)) else []

/-- The pieces between the separators; one piece if there is no separator. -/
def splitOn (separator : Char) : Octets → List Octets
  | [] => [[]]
  | c :: cs =>
    match splitOn separator cs with
    | [] => [[c]]
    | piece :: pieces =>
      if c = separator then [] :: piece :: pieces else (c :: piece) :: pieces

/-- The lines, each with its end; the last one may lack it. -/
def rawLines (o : Octets) : List Octets :=
  piecesAfter (· == '\n') o

def withoutNewline (line : Octets) : Octets :=
  if line.getLast? = some '\n' then line.dropLast else line

def lines (o : Octets) : List Octets :=
  (rawLines o).map withoutNewline

def unlines (ls : List Octets) : Octets :=
  ls.flatMap (· ++ ['\n'])

/-- The octets in groups of one character each, if they are UTF-8; an octet that is not stands by
itself. -/
def characters : (fuel : Nat) → Octets → List Octets
  | 0, o => o.map ([·])
  | _, [] => []
  | fuel + 1, c :: cs =>
    let width := if c.toNat < 0xC2 then 1 else if c.toNat < 0xE0 then 2
      else if c.toNat < 0xF0 then 3 else if c.toNat < 0xF5 then 4 else 1
    let more := cs.take (width - 1)
    if more.length = width - 1 ∧ more.all fun d => d.toNat / 0x40 = 2 then
      (c :: more) :: characters fuel (cs.drop (width - 1))
    else [c] :: characters fuel cs

def isNameStart (c : Char) : Bool :=
  c.isAlpha || c == '_'

def isNameChar (c : Char) : Bool :=
  c.isAlphanum || c == '_'

def isName : Octets → Bool
  | [] => false
  | c :: cs => isNameStart c && cs.all isNameChar

theorem length_bytes {o : Octets} : o.bytes.length = o.length := by
  simp [bytes]

end Octets

end Allotment.Text
