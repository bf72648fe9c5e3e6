import Allotment.Text.Radix

/-!
# Escapes

A backslash in text that is printed stands, with what follows it, for an octet or a character. Each
printing command has its own `Escapes`.
-/

namespace Allotment.Tool

open Text (Octets)
open Text.Radix (splitAtMost)

/-- The escapes that a command knows besides those of single letters. -/
structure Escapes where
  /-- How many octal digits follow a backslash at most. -/
  octal : Nat := 0
  /-- How many octal digits follow a backslash and a zero at most; they may all be missing. -/
  afterZero : Nat := 0
  /-- Hexadecimal digits follow the letter `x`. -/
  hex : Bool := false
  /-- It is a fault if these digits are missing. -/
  strict : Bool := false
  /-- Hexadecimal digits of a character follow the letters `u` and `U`. -/
  unicode : Bool := false
  /-- The letter `e` stands for the escape character. -/
  escape : Bool := false
  /-- A quote may stand after a backslash. -/
  quote : Bool := false
  /-- The letter `c` ends all output. -/
  stop : Bool := false

namespace Escapes

def letter? : Char → Option Char
  | 'a' => some '\x07'
  | 'b' => some '\x08'
  | 'f' => some '\x0c'
  | 'n' => some '\n'
  | 'r' => some '\r'
  | 't' => some '\t'
  | 'v' => some '\x0b'
  | '\\' => some '\\'
  | _ => none

/-- How printing comes to an end before its text does. -/
inductive Halt where
  | stopped
  /-- An escape cannot be understood. -/
  | failed (message : String)
deriving DecidableEq, Repr

/-- What an escape comes to: what it stands for and what follows, or the end of printing. -/
inductive Step where
  | goOn (octets rest : Octets)
  | halt (h : Halt)

/-- The escape that follows a backslash. What is no escape stands for itself. -/
def step (e : Escapes) : Octets → Step
  | [] => .goOn ['\\'] []
  | c :: cs =>
    if e.stop ∧ c = 'c' then .halt .stopped
    else if let some d := letter? c then .goOn [d] cs
    else if e.escape ∧ c = 'e' then .goOn ['\x1b'] cs
    else if e.quote ∧ c = '"' then .goOn ['"'] cs
    else if c = '0' ∧ 0 < e.afterZero then
      let (ds, rest) := splitAtMost e.afterZero 8 cs
      .goOn [Char.ofNat (Text.Radix.value 8 ds % 256)] rest
    else if Text.Radix.isDigit 8 c ∧ 0 < e.octal then
      let (ds, rest) := splitAtMost e.octal 8 (c :: cs)
      .goOn [Char.ofNat (Text.Radix.value 8 ds % 256)] rest
    else if e.hex ∧ c = 'x' then
      let (ds, rest) := splitAtMost 2 16 cs
      if ¬ds.isEmpty then .goOn [Char.ofNat (Text.Radix.value 16 ds)] rest
      else if e.strict then .halt (.failed noDigits)
      else .goOn ['\\', 'x'] cs
    else if e.unicode ∧ (c = 'u' ∨ c = 'U') then
      let count := if c = 'u' then 4 else 8
      let (ds, rest) := splitAtMost count 16 cs
      let octets := Octets.ofCodePoint (Text.Radix.value 16 ds)
      if ds.length < count then .halt (.failed noDigits)
      else if octets.isEmpty then
        .halt (.failed ("invalid universal character name \\" ++ String.ofList (c :: ds)))
      else .goOn octets rest
    else .goOn ['\\', c] cs
where
  /-- What is told if an escape lacks its digits. -/
  noDigits : String :=
    "missing hexadecimal number in escape"

def expand (e : Escapes) (cs : Octets) : Octets × Option Halt :=
  go (cs.length + 1) cs
where
  /-- Goes on with the text that is left. -/
  go : (n : Nat) → Octets → Octets × Option Halt
    | 0, _ => ([], none)
    | _, [] => ([], none)
    | n + 1, '\\' :: cs =>
      match e.step cs with
      | .halt h => ([], some h)
      | .goOn out rest =>
        let (text, h) := go n rest
        (out ++ text, h)
    | n + 1, c :: cs =>
      let (text, h) := go n cs
      (c :: text, h)

def shellText : Escapes :=
  { octal := 3, afterZero := 3, escape := true, stop := true }

def shellFormat : Escapes :=
  { octal := 3, escape := true }

/-- The escapes in text that the command for printing text prints if it is asked to. -/
def echoText : Escapes :=
  { octal := 3, afterZero := 3, hex := true, escape := true, stop := true }

def format : Escapes :=
  { octal := 3, hex := true, strict := true, unicode := true, escape := true, quote := true,
    stop := true }

def argument : Escapes :=
  { format with afterZero := 3 }

end Escapes

end Allotment.Tool
