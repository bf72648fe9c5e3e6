import Allotment.Survey
import Allotment.Proofs.Status.Figures

/-!
# Process rows and devices

A process row may tell of a device only through the name of its program. Rows with other names can
be put in and left out of a listing without any change to what is known of the devices.
-/

namespace Allotment

namespace Status

variable {line : String} {lines lines' : List String} {r : Row}

/-- The name of the program does not look like figures. -/
def Row.isPlain (r : Row) : Bool :=
  (MemoryFigures.ofLine? r.nameAndMemory).isNone && (utilization? (" " ++ r.program)).isNone

/-- The line is a process row with a name that does not look like figures. -/
def isPlainRow (line : String) : Bool :=
  (Row.ofLine? line).any (·.isPlain)

theorem none_of_isPlainRow (h : isPlainRow line) :
    MemoryFigures.ofLine? line = none ∧ utilization? line = none := by
  obtain ⟨r, hr, hplain⟩ := (Option.any_eq_true _ _).1 h
  rw [Row.isPlain, Bool.and_eq_true, Option.isNone_iff_eq_none, Option.isNone_iff_eq_none]
    at hplain
  rw [Row.memoryFigures_of_row hr, Row.utilization_of_row hr]
  exact hplain

theorem memoryFigures_of_name (h : Row.ofLine? line = some r) (hslash : '/' ∉ r.program.toList) :
    MemoryFigures.ofLine? line = none := by
  obtain ⟨c, n, -, -, hmemory, -⟩ := Row.exists_cells?_of_ofLine? h
  have hdigits : '/' ∉ Nat.toDigits 10 n := by
    intro hmem
    have hdigit := Text.Numeral.isDigit_of_mem_toDigits hmem
    revert hdigit
    decide
  have hnone : '/' ∉ r.nameAndMemory.toList := by
    simp [Row.nameAndMemory, hslash, hmemory, toString, Int.repr, hdigits]
  rw [Row.memoryFigures_of_row h, MemoryFigures.ofLine?_eq, search_memoryDigits_of_not_mem hnone]
  rfl

theorem utilization_of_name (h : Row.ofLine? line = some r) (hsign : '%' ∉ r.program.toList) :
    utilization? line = none := by
  have hnone : '%' ∉ (" " ++ r.program).toList := by
    simp [hsign]
  rw [Row.utilization_of_row h, utilization?, search_utilizationDigits_of_not_mem hnone]
  rfl

/-! ## Listings -/

theorem filterMap_of_plain {α : Type} {f : String → Option α}
    (hf : ∀ line, isPlainRow line → f line = none)
    (hlines : lines.filter (!isPlainRow ·) = lines'.filter (!isPlainRow ·)) :
    lines.filterMap f = lines'.filterMap f := by
  have hleft : ∀ ls : List String, ls.filterMap f = (ls.filter (!isPlainRow ·)).filterMap f := by
    intro ls
    rw [List.filterMap_filter]
    refine List.filterMap_congr fun line _ => ?_
    by_cases hline : isPlainRow line
    · simp [hline, hf line hline]
    · simp [hline]
  rw [hleft lines, hleft lines', hlines]

theorem memory_of_plain
    (hlines : lines.filter (!isPlainRow ·) = lines'.filter (!isPlainRow ·)) :
    (Listing.ofLines lines).memory = (Listing.ofLines lines').memory :=
  filterMap_of_plain (fun _ h => (none_of_isPlainRow h).1) hlines

theorem utilization_of_plain
    (hlines : lines.filter (!isPlainRow ·) = lines'.filter (!isPlainRow ·)) :
    (Listing.ofLines lines).utilization = (Listing.ofLines lines').utilization :=
  filterMap_of_plain (fun _ h => (none_of_isPlainRow h).2) hlines

end Status

namespace Survey

open Status (Listing MemoryFigures Row isPlainRow)

variable {l l' : Listing} {totals : Totals} {tree : Ancestry.Tree} {tick depth : Nat}

theorem gauges_congr (hmemory : l.memory = l'.memory)
    (hutilization : l.utilization = l'.utilization) :
    (ofListing tick l (addTotals totals l) tree depth).gauges =
      (ofListing tick l' (addTotals totals l') tree depth).gauges := by
  have htotals : addTotals totals l = addTotals totals l' := by
    rw [addTotals, addTotals, hmemory]
  have hcount : l.deviceCount = l'.deviceCount := by
    rw [Listing.deviceCount, Listing.deviceCount, hmemory, hutilization]
  have hgauge : ∀ device,
      gauge (addTotals totals l') l device = gauge (addTotals totals l') l' device := by
    intro device
    rw [gauge, gauge, hmemory, hutilization]
  rw [ofListing, ofListing, htotals, hcount]
  exact List.map_congr_left fun device _ => hgauge device

/-- A process row tells of devices what its name tells, where the memory of the row may end a
figure. -/
theorem rows_tell_devices_by_name :
    (∀ (line : String) (r : Row), Row.ofLine? line = some r →
      MemoryFigures.ofLine? line = MemoryFigures.ofLine? r.nameAndMemory ∧
        Status.utilization? line = Status.utilization? (" " ++ r.program) ∧
        ('/' ∉ r.program.toList → MemoryFigures.ofLine? line = none) ∧
        ('%' ∉ r.program.toList → Status.utilization? line = none)) ∧
    ∀ lines lines' : List String,
      lines.filter (!isPlainRow ·) = lines'.filter (!isPlainRow ·) →
      let l := Listing.ofLines lines
      let l' := Listing.ofLines lines'
      l.memory = l'.memory ∧ l.utilization = l'.utilization ∧ l.deviceCount = l'.deviceCount ∧
        ∀ (tick : Nat) (totals : Totals) (tree : Ancestry.Tree) (depth : Nat) (required : Int),
          let s := ofListing tick l (addTotals totals l) tree depth
          let s' := ofListing tick l' (addTotals totals l') tree depth
          s.gauges = s'.gauges ∧
            DeviceStatus.choose? s.statuses required =
              DeviceStatus.choose? s'.statuses required := by
  refine ⟨fun line r hr => ⟨Row.memoryFigures_of_row hr, Row.utilization_of_row hr,
    Status.memoryFigures_of_name hr, Status.utilization_of_name hr⟩, ?_⟩
  intro lines lines' hlines l l'
  have hmemory : l.memory = l'.memory := Status.memory_of_plain hlines
  have hutilization : l.utilization = l'.utilization := Status.utilization_of_plain hlines
  refine ⟨hmemory, hutilization, ?_, fun tick totals tree depth required => ?_⟩
  · rw [Listing.deviceCount, Listing.deviceCount, hmemory, hutilization]
  · have hgauges : (ofListing tick l (addTotals totals l) tree depth).gauges =
        (ofListing tick l' (addTotals totals l') tree depth).gauges :=
      gauges_congr hmemory hutilization
    refine ⟨hgauges, ?_⟩
    rw [statuses, statuses, hgauges]

namespace Sample

/-- A process whose program has slashes in its name. -/
def server : String :=
  "| 0 42 G /usr/bin/X 21MiB |"

/-- A process whose program is named like the memory of a device. -/
def impostor : String :=
  "| 0 1 C x 5MiB / 6MiB 7MiB |"

end Sample

theorem server_tells_no_device :
    Row.ofLine? Sample.server = some ⟨0, 42, .graphics, "/usr/bin/X", 21⟩ ∧
      isPlainRow Sample.server ∧
      Status.utilization? Sample.server = none ∧
      (Listing.ofLines [Sample.server, Sample.impostor]).memory =
        (Listing.ofLines [Sample.impostor]).memory := by
  have hrow : Row.ofLine? Sample.server = some ⟨0, 42, .graphics, "/usr/bin/X", 21⟩ := by
    decide +kernel
  have hplain : isPlainRow Sample.server := by decide +kernel
  exact ⟨hrow, hplain, (rows_tell_devices_by_name.1 Sample.server _ hrow).2.2.2 (by decide),
    (rows_tell_devices_by_name.2 [Sample.server, Sample.impostor] [Sample.impostor]
      (by simp [hplain])).1⟩

/-- With its name a program puts in a device that is not there. -/
theorem impostor_adds_device :
    Row.ofLine? Sample.impostor = some ⟨0, 1, .compute, "x 5MiB / 6MiB", 7⟩ ∧
      MemoryFigures.ofLine? Sample.impostor = some ⟨5, 6⟩ ∧
      (Listing.ofLines []).deviceCount = 0 ∧
      (Listing.ofLines [Sample.impostor]).deviceCount = 1 := by
  decide +kernel

end Survey

end Allotment
