import Allotment.Text.Blank
import Allotment.Text.Numeral
import Allotment.Text.Reader

/-!
# Process rows

A process row of a status listing names a device, a process on it, the context in which the process
uses the device, the program, and the memory in use:

`|    1   N/A  N/A     31337    C+G   /opt/app/bin/worker     2048MiB |`

The bars and the two columns after the device may be missing. The name of the program is free text,
which may look like any of the other columns. So a row is read from both ends: `Row.lead` takes the
columns before the name off the left end, `Row.lastMemory` takes the memory off the right end, and
the name is what is left between them.
-/

namespace Allotment.Status

open Text (Reader isBlank isDigit Numeral.ofDigits? Numeral.greatest32 Numeral.greatest63)
open Text.Reader

/-- In what way a process uses a device. -/
inductive Context where
  | compute
  | graphics
  | both
deriving DecidableEq, Repr

def Context.mark : Context → String
  | compute => "C"
  | graphics => "G"
  | both => "C+G"

def Context.name : Context → String
  | compute => "Compute"
  | graphics => "Graphics"
  | both => "ComputeGraphics"

/-- A process that uses a device. -/
structure Row where
  device : Nat
  process : Nat
  context : Context
  program : String
  /-- The memory in use, in MiB. -/
  memory : Int
deriving DecidableEq, Repr

def gap : Reader Unit := do
  let _ ← run1 isBlank

def space : Reader Unit := do
  let _ ← run isBlank

namespace Row

/-- The columns of a process row as they are written. -/
structure Cells where
  device : List Char
  process : List Char
  context : Context
  program : List Char
  memory : List Char
deriving DecidableEq, Repr

def bar : Reader Unit := do
  let _ ← optional (char '|')

/-- A column that is not available or a number, and the gap after it. -/
def instanceColumn : Reader Unit := do
  literal "N/A" <|> do let _ ← run1 isDigit
  gap

/-- The mark of a context; the long mark is tried first. -/
def contextMark : Reader Context := do
  let mark (c : Context) : Reader Context := do
    literal c.mark
    return c
  mark .both <|> mark .compute <|> mark .graphics

/-- The columns before the name: the device, the process and the context. -/
def lead : Reader (List Char × List Char × Context) := do
  bar
  space
  let device ← run1 isDigit
  gap
  let _ ← optional (instanceColumn *> instanceColumn)
  let process ← run1 isDigit
  gap
  return (device, process, ← contextMark)

/-- The memory and what follows it in a row, read from the right. -/
def lastMemory : Reader (List Char) := do
  space
  bar
  space
  literal "BiM"
  let _ ← optional (satisfying isBlank)
  return (← run1 isDigit).reverse

def trim (cs : List Char) : List Char :=
  ((cs.dropWhile isBlank).reverse.dropWhile isBlank).reverse

/-- The name between two gaps, which must not go on in another line. Between the two ends of a row
without anything but blanks, the last blank that may be one is the name. -/
def programBetween? (cs : List Char) : Option (List Char) :=
  if trim cs = [] then
    ((cs.drop 1).dropLast.reverse.find? (· ≠ '\n')).map fun c => [c]
  else if cs.head?.any isBlank ∧ cs.getLast?.any isBlank ∧ '\n' ∉ trim cs then
    some (trim cs)
  else
    none

def cells? (line : List Char) : Option Cells := do
  let ((device, process, context), rest) ← lead line
  let (memory, between) ← lastMemory rest.reverse
  return { device, process, context, program := ← programBetween? between.reverse, memory }

/-- Reads a process row. A row with a number that is out of range says nothing. -/
def ofLine? (line : String) : Option Row := do
  let c ← cells? line.toList
  return {
    device := ← Numeral.ofDigits? Numeral.greatest32 c.device
    process := ← Numeral.ofDigits? Numeral.greatest32 c.process
    context := c.context
    program := String.ofList c.program
    memory := ← Numeral.ofDigits? Numeral.greatest63 c.memory }

end Row

end Allotment.Status
