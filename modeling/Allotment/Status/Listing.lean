import Allotment.Status.Row
import Allotment.Text.Lines

/-!
# Status listings

A status listing is read line by line. A line may be a process row, may hold the memory figures of
a device, and may hold the utilization of a device; one line can hold both figures. Devices are not
named: the figures of each kind belong to the devices in the order in which they stand.
-/

namespace Allotment.Status

open Text (Reader isBlank isDigit Numeral.ofDigits? Numeral.greatest32 Numeral.greatest63)
open Text.Reader

/-- The memory of a device in MiB. -/
structure MemoryFigures where
  used : Int
  total : Int
deriving DecidableEq, Repr

/-- The unit of memory, with at most one blank before it. -/
def mebibytes : Reader Unit := do
  let _ ← optional (satisfying isBlank)
  literal "MiB"

/-- The digits of memory figures, as in ` 23MiB / 12287MiB`. -/
def memoryDigits : Reader (List Char × List Char) := do
  let _ ← satisfying isBlank
  let used ← run1 isDigit
  mebibytes
  space
  let _ ← char '/'
  space
  let total ← run1 isDigit
  mebibytes
  return (used, total)

/-- The memory figures of a line. Only the first place of their form counts. -/
def MemoryFigures.ofLine? (line : String) : Option MemoryFigures := do
  let (used, total) ← search memoryDigits line.toList
  return {
    used := ← Numeral.ofDigits? Numeral.greatest63 used
    total := ← Numeral.ofDigits? Numeral.greatest63 total }

/-- The digits of a utilization, as in ` 3%      Default`. -/
def utilizationDigits : Reader (List Char) := do
  let _ ← satisfying isBlank
  let percent ← run1 isDigit
  let _ ← optional (satisfying isBlank)
  let _ ← char '%'
  gap
  literal "Default"
  return percent

/-- The utilization in a line, in percent. Only the first place of its form counts. -/
def utilization? (line : String) : Option Nat := do
  Numeral.ofDigits? Numeral.greatest32 (← search utilizationDigits line.toList)

/-- What a status listing says. -/
structure Listing where
  rows : List Row
  memory : List MemoryFigures
  utilization : List Nat
deriving DecidableEq, Repr

namespace Listing

/-- Reads the lines of a listing; a line of no known form says nothing. -/
def ofLines (lines : List String) : Listing where
  rows := lines.filterMap Row.ofLine?
  memory := lines.filterMap MemoryFigures.ofLine?
  utilization := lines.filterMap utilization?

/-- The number of devices of which there is some figure. -/
def deviceCount (l : Listing) : Nat :=
  max l.memory.length l.utilization.length

end Listing

end Allotment.Status
