import Allotment.Survey

/-!
# Devices by position

The figures of a line go to devices by position: the memory to the device with as many memory
figures before it, and the utilization to the one with as many utilizations before it. These are the
same device as long as the two kinds of figures come in pairs.
-/

namespace Allotment.Survey

open Status (Listing MemoryFigures)

variable {before after : List String} {line : String} {figures : MemoryFigures}
  {percent tick depth : Nat} {totals : Totals} {tree : Ancestry.Tree} {l : Listing}

/-- How many lines tell the memory of a device. -/
def memoryLines (lines : List String) : Nat :=
  lines.countP fun line => (MemoryFigures.ofLine? line).isSome

/-- How many lines tell the utilization of a device. -/
def utilizationLines (lines : List String) : Nat :=
  lines.countP fun line => (Status.utilization? line).isSome

/-- What a line says comes after all that is said before it. -/
theorem getElem?_filterMap_of_line {α : Type} {f : String → Option α} {a : α}
    (h : f line = some a) :
    ((before ++ line :: after).filterMap f)[before.countP fun line => (f line).isSome]? =
      some a := by
  rw [List.filterMap_append, List.filterMap_cons_some h, ← List.length_filterMap_eq_countP]
  simp

theorem used_of_getElem?_memory {device : Nat} (h : l.memory[device]? = some figures) :
    (ofListing tick l totals tree depth).gauges[device]?.map (·.used) = some figures.used := by
  obtain ⟨hlt, -⟩ := List.getElem?_eq_some_iff.1 h
  have hdevice : device < l.deviceCount := Nat.lt_of_lt_of_le hlt (Nat.le_max_left _ _)
  simp [getElem?_gauges_ofListing hdevice, gauge, Gauge.ofUsed, h]

theorem utilization_of_getElem?_utilization {device : Nat}
    (h : l.utilization[device]? = some percent) :
    (ofListing tick l totals tree depth).gauges[device]?.map (·.utilization) =
      some (min percent 100) := by
  obtain ⟨hlt, -⟩ := List.getElem?_eq_some_iff.1 h
  have hdevice : device < l.deviceCount := Nat.lt_of_lt_of_le hlt (Nat.le_max_right _ _)
  simp [getElem?_gauges_ofListing hdevice, gauge, Gauge.ofUsed, h]

/-- A line with both figures tells each of them of the device with as many such figures before it,
which is one device if there are as many of both. -/
theorem line_tells_devices_by_position (before after : List String) (line : String)
    (figures : MemoryFigures) (percent : Nat) (hmemory : MemoryFigures.ofLine? line = some figures)
    (hpercent : Status.utilization? line = some percent) (tick : Nat) (totals : Totals)
    (tree : Ancestry.Tree) (depth : Nat) :
    let s := ofListing tick (.ofLines (before ++ line :: after)) totals tree depth
    s.gauges[memoryLines before]?.map (·.used) = some figures.used ∧
      s.gauges[utilizationLines before]?.map (·.utilization) = some (min percent 100) ∧
      (memoryLines before = utilizationLines before → ∃ g, s.gauges[memoryLines before]? = some g ∧
        g.used = figures.used ∧ g.utilization = min percent 100) ∧
      ((∀ earlier ∈ before,
          ((MemoryFigures.ofLine? earlier).isSome ↔ (Status.utilization? earlier).isSome)) →
        memoryLines before = utilizationLines before) := by
  intro s
  have hused : s.gauges[memoryLines before]?.map (·.used) = some figures.used :=
    used_of_getElem?_memory (getElem?_filterMap_of_line hmemory)
  have hbusy : s.gauges[utilizationLines before]?.map (·.utilization) = some (min percent 100) :=
    utilization_of_getElem?_utilization (getElem?_filterMap_of_line hpercent)
  refine ⟨hused, hbusy, fun hsame => ?_, fun hpairs => ?_⟩
  · rw [← hsame] at hbusy
    obtain ⟨g, hg, hgused⟩ := Option.map_eq_some_iff.1 hused
    refine ⟨g, hg, hgused, ?_⟩
    rw [hg] at hbusy
    exact Option.some.inj hbusy
  · exact List.countP_congr hpairs

namespace Sample

/-- A device whose utilization is not told. -/
def silentDevice : String :=
  "| 5MiB / 99MiB | N/A Default |"

/-- A device of which both figures are told. -/
def busyDevice : String :=
  "| 6MiB / 99MiB | 47% Default |"

end Sample

theorem busy_device_tells_two_devices :
    let l := Listing.ofLines [Sample.silentDevice, Sample.busyDevice]
    let s := ofListing 1 l ∅ (fun _ => none) 8
    MemoryFigures.ofLine? Sample.busyDevice = some ⟨6, 99⟩ ∧
      Status.utilization? Sample.busyDevice = some 47 ∧
      s.gauges[1]?.map Gauge.used = some 6 ∧ s.gauges[0]?.map Gauge.utilization = some 47 := by
  have hmemory : MemoryFigures.ofLine? Sample.busyDevice = some ⟨6, 99⟩ := by decide +kernel
  have hpercent : Status.utilization? Sample.busyDevice = some 47 := by decide +kernel
  have hmemoryLines : memoryLines [Sample.silentDevice] = 1 := by decide +kernel
  have hutilizationLines : utilizationLines [Sample.silentDevice] = 0 := by decide +kernel
  have htold := line_tells_devices_by_position [Sample.silentDevice] [] Sample.busyDevice
    ⟨6, 99⟩ 47 hmemory hpercent 1 ∅ (fun _ => none) 8
  rw [hmemoryLines, hutilizationLines] at htold
  exact ⟨hmemory, hpercent, htold.1, htold.2.1⟩

/-- After a device that tells its memory only, a device that tells both figures has its utilization
put down to the device before it, and no device has both. -/
theorem silent_device_takes_utilization :
    let l := Listing.ofLines [Sample.silentDevice, Sample.busyDevice]
    MemoryFigures.ofLine? Sample.busyDevice = some ⟨6, 99⟩ ∧
      Status.utilization? Sample.busyDevice = some 47 ∧
      ∀ g ∈ (ofListing 1 l (addTotals ∅ l) (fun _ => none) 8).gauges,
        ¬(g.used = 6 ∧ g.utilization = 47) := by
  decide +kernel

end Allotment.Survey
