import Allotment.Status.Row
import Allotment.Text.Matcher

/-!
# The pattern of process rows

`Row.pattern` says column by column what a process row looks like:

`^\|?\s*(\d+)\s+(?:(?:N/A|\d+)\s+(?:N/A|\d+)\s+)?(\d+)\s+(C\+G|C|G)\s+(.+?)\s+(\d+)\s?MiB\s*\|?\s*$`

A line may match it in several ways, for the name may be anything that stays in one line.
-/

namespace Allotment.Status.Row

open Text (Matcher isBlank isDigit)
open Text.Matcher

namespace Pattern

def gap : Matcher Unit := do
  let _ ← greedy1 isBlank

def space : Matcher Unit := do
  let _ ← greedy isBlank

def bar : Matcher Unit := do
  let _ ← perhaps (one (· == '|'))

/-- A column that is not available or a number, and the gap after it. -/
def instanceColumn : Matcher Unit := do
  literal "N/A" <|> do let _ ← greedy1 isDigit
  gap

def contextMark : Matcher Context := do
  let mark (c : Context) : Matcher Context := do
    literal c.mark
    return c
  mark .both <|> mark .compute <|> mark .graphics

/-- The process and the context, behind the given device. -/
def processColumns (device : List Char) : Matcher (List Char × List Char × Context) := do
  let process ← greedy1 isDigit
  gap
  return (device, process, ← contextMark)

/-- The columns before the name. -/
def lead : Matcher (List Char × List Char × Context) := do
  bar
  space
  let device ← greedy1 isDigit
  gap
  let _ ← perhaps (instanceColumn *> instanceColumn)
  processColumns device

/-- The memory and what stands around it up to the end of the row. -/
def ending : Matcher (List Char) := do
  gap
  let memory ← greedy1 isDigit
  let _ ← perhaps (one isBlank)
  literal "MiB"
  space
  bar
  space
  atEnd
  return memory

def afterName (program : List Char) : Matcher (List Char × List Char) := do
  return (program, ← ending)

def naming : Matcher (List Char × List Char) := do
  let program ← lazy1 (· != '\n')
  afterName program

def trail : Matcher (List Char × List Char) := do
  gap
  naming

end Pattern

/-- The columns of a process row. -/
def pattern : Matcher Cells := do
  let (device, process, context) ← Pattern.lead
  let (program, memory) ← Pattern.trail
  return { device, process, context, program, memory }

end Allotment.Status.Row
