import Std.Data.ExtTreeMap
import Allotment.Device.Gauge
import Allotment.Ancestry.Basic
import Allotment.Status.Listing

/-!
# Surveys

A `Survey` is what is known of all devices and of the processes on them at one time. It is taken
from a status listing. Device `n` has the `n`-th memory figures and the `n`-th utilization of the
listing. Two things do not come from the listing alone: the total memory of a device is the one
that was seen first, and the memory of a process counts for its ancestors as well.
-/

namespace Allotment

open Status (Listing Row)

/-- The total memory of the devices, as it was seen first. -/
abbrev Totals := Std.ExtTreeMap Nat Int

/-- The devices and the processes on them at one time. -/
structure Survey where
  /-- Counts the surveys, from one on; zero before the first. -/
  tick : Nat
  /-- Whether a listing has been read for it. -/
  taken : Bool
  /-- The state of the devices, by number. -/
  gauges : List Gauge
  /-- The memory in use by process, in MiB, that of its descendants included. -/
  processMemory : Std.ExtTreeMap Nat Int

namespace Survey

def unknown : Survey where
  tick := 0
  taken := false
  gauges := []
  processMemory := ∅

/-- Takes down the totals of the devices that are seen for the first time. -/
def addTotals (totals : Totals) (l : Listing) : Totals :=
  l.memory.zipIdx.foldl (fun totals (figures, device) =>
    totals.insertIfNew device figures.total) totals

/-- The state of one device. Without memory figures nothing is in use, and without utilization the
device is idle. -/
def gauge (totals : Totals) (l : Listing) (device : Nat) : Gauge :=
  .ofUsed (totals.getD device 0) ((l.memory[device]?.map (·.used)).getD 0)
    (l.utilization[device]?.getD 0)

def addMemory (m : Std.ExtTreeMap Nat Int) (process : Nat) (memory : Int) :
    Std.ExtTreeMap Nat Int :=
  m.insert process (Word.word64.wrap (m.getD process 0 + memory))

/-- Adds the memory of a row to its process and to the ancestors of that. -/
def addRow (tree : Ancestry.Tree) (depth : Nat) (m : Std.ExtTreeMap Nat Int) (r : Row) :
    Std.ExtTreeMap Nat Int :=
  (r.process :: tree.ancestors r.process depth).foldl (fun m p => addMemory m p r.memory) m

/-- The survey of a listing, by the totals known after it. Memory goes to at most `depth`
ancestors. -/
def ofListing (tick : Nat) (l : Listing) (totals : Totals) (tree : Ancestry.Tree) (depth : Nat) :
    Survey where
  tick := tick
  taken := true
  gauges := (List.range l.deviceCount).map (gauge totals l)
  processMemory := l.rows.foldl (addRow tree depth) ∅

/-! ### Questions -/

def statuses (s : Survey) : List DeviceStatus :=
  s.gauges.zipIdx.map fun (g, device) => g.status device

/-- The memory in use by a process and its descendants. -/
def memoryOfProcess (s : Survey) (process : Nat) : Int :=
  s.processMemory.getD process 0

def memoryOfDevice (s : Survey) (device : Nat) : Int :=
  (s.gauges[device]?.map (·.used)).getD 0

def utilization? (s : Survey) (device : Nat) : Option Nat :=
  s.gauges[device]?.map (·.utilization)

theorem getD_addMemory {m : Std.ExtTreeMap Nat Int} {process other : Nat} {memory : Int} :
    (addMemory m process memory).getD other 0 =
      if process = other then Word.word64.wrap (m.getD process 0 + memory)
      else m.getD other 0 := by
  simp [addMemory, Std.ExtTreeMap.getD_insert]

@[simp] theorem length_gauges_ofListing {tick : Nat} {l : Listing} {totals : Totals}
    {tree : Ancestry.Tree} {depth : Nat} :
    (ofListing tick l totals tree depth).gauges.length = l.deviceCount := by
  simp [ofListing]

theorem getElem?_gauges_ofListing {tick : Nat} {l : Listing} {totals : Totals}
    {tree : Ancestry.Tree} {depth device : Nat} (h : device < l.deviceCount) :
    (ofListing tick l totals tree depth).gauges[device]? = some (gauge totals l device) := by
  simp [ofListing, h]

end Survey

end Allotment
