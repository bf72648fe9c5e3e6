import Allotment.Tool.Basic
import Allotment.Tool.Escape

/-!
# Printing arguments

The arguments are printed on one line with blanks between them. The shell replaces escapes in all of
them; the command does so only if it is asked to.
-/

namespace Allotment.Tool

open Text (Octets)

namespace Echo

def joined (args : List Octets) : Octets :=
  [' '].intercalate args

/-- Prints a text with a line end, unless it has none or an escape ends all output. -/
def line (escapes : Option Escapes) (isOpen : Bool) (cs : Octets) : Outcome :=
  let (text, halt) := match escapes with
    | some e => e.expand cs
    | none => (cs, none)
  { output := if isOpen ∨ halt.isSome then text else text ++ ['\n'] }

/-- Some arguments at the beginning are options: those with a hyphen and letters of these three. -/
def isOption : Octets → Bool
  | '-' :: c :: cs => (c :: cs).all fun d => d ∈ ['n', 'e', 'E']
  | _ => false

def command : Tool := fun s =>
  let letters := (s.args.takeWhile isOption).flatten.filter (· != '-')
  let replaces := (letters.filter (· != 'n')).getLast? = some 'e'
  line (if replaces then some .echoText else none) (letters.contains 'n')
    (joined (s.args.dropWhile isOption))

def shell : Tool := fun s =>
  let isOpen := s.args.head? = some ['-', 'n']
  line (some .shellText) isOpen (joined (if isOpen then s.args.tail else s.args))

end Echo

end Allotment.Tool
