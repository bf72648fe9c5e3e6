import Allotment.Proofs.Watch.Run

/-!
# Totals are captured once

The total memory of a device is the one of its first memory figures in a run, whatever later
listings tell of it and however often the device goes away and comes back. Figures that were read
off a listing are not negative, so what is free is the plain difference.
-/

namespace Allotment

open Status (Listing MemoryFigures)
open Text (Numeral.ofDigits? Numeral.le_of_ofDigits?)

variable {ε : Type} {script : Script ε} {ls ms : List Listing} {l : Listing} {f : MemoryFigures}
  {tree : Ancestry.Tree} {depth m n d : Nat} {total : Int} {totals : Totals} {g : Gauge}
  {line : String} {lines : List String}

/-! ## Figures that a listing can tell -/

namespace Status

/-- Amounts that are written without a sign and fit a word. -/
structure MemoryFigures.Written (f : MemoryFigures) : Prop where
  used_nonneg : 0 ≤ f.used
  used_le : f.used ≤ Word.word64.greatest
  total_nonneg : 0 ≤ f.total
  total_le : f.total ≤ Word.word64.greatest

theorem MemoryFigures.written_of_ofLine? (h : ofLine? line = some f) : f.Written := by
  obtain ⟨⟨used, total⟩, -, h⟩ := Option.bind_eq_some_iff.1 h
  obtain ⟨u, hu, h⟩ := Option.bind_eq_some_iff.1 h
  obtain ⟨t, ht, h⟩ := Option.bind_eq_some_iff.1 h
  obtain rfl := Option.some.inj h
  have hule := Numeral.le_of_ofDigits? hu
  have htle := Numeral.le_of_ofDigits? ht
  simp only [Text.Numeral.greatest63] at hule htle
  constructor <;> simp only [Word.greatest] <;> omega

theorem Listing.written_of_mem (h : f ∈ (ofLines lines).memory) : f.Written := by
  obtain ⟨line, -, hline⟩ := List.mem_filterMap.1 h
  exact MemoryFigures.written_of_ofLine? hline

end Status

theorem Script.written_of_mem_listings (hl : l ∈ script.listings n) (hf : f ∈ l.memory) :
    f.Written := by
  obtain ⟨i, -, hi⟩ := List.mem_filterMap.1 hl
  obtain ⟨lines, -, rfl⟩ := Option.map_eq_some_iff.1 hi
  exact Listing.written_of_mem hf

/-- A script does not take back what it has told. -/
theorem Script.listings_prefix (h : m ≤ n) : script.listings m <+: script.listings n := by
  obtain ⟨k, rfl⟩ := Nat.exists_eq_add_of_le h
  unfold listings
  rw [List.range_add, List.filterMap_append]
  exact List.prefix_append _ _

namespace Survey

/-! ## The first total -/

/-- The total of the first memory figures that a device has in listings. -/
def firstTotal? (ls : List Listing) (device : Nat) : Option Int :=
  ls.findSome? fun l => l.memory[device]?.map (·.total)

theorem firstTotal?_append :
    firstTotal? (ls ++ ms) d = (firstTotal? ls d).or (firstTotal? ms d) := by
  rw [firstTotal?, List.findSome?_append]
  rfl

theorem getElem?_totalsOf : (totalsOf ls)[d]? = firstTotal? ls d := by
  induction ls using List.reverseRecOn with
  | nil => simp [totalsOf, firstTotal?]
  | append_singleton ls l ih =>
      rw [totalsOf_append_singleton, getElem?_addTotals, ih, firstTotal?_append]
      simp [firstTotal?]

theorem firstTotal?_of_prefix (hms : ls <+: ms) (h : firstTotal? ls d = some total) :
    firstTotal? ms d = some total := by
  obtain ⟨later, rfl⟩ := hms
  rw [firstTotal?_append, h, Option.some_or]

theorem exists_of_firstTotal? (h : firstTotal? ls d = some total) :
    ∃ l ∈ ls, ∃ f ∈ l.memory, f.total = total := by
  obtain ⟨l, hl, h⟩ := List.exists_of_findSome?_eq_some h
  obtain ⟨f, hf, rfl⟩ := Option.map_eq_some_iff.1 h
  exact ⟨l, hl, f, List.mem_of_getElem? hf, rfl⟩

theorem firstTotal?_eq_none (h : ∀ l ∈ ls, l.memory.length ≤ d) : firstTotal? ls d = none := by
  refine List.findSome?_eq_none_iff.2 fun l hl => ?_
  rw [List.getElem?_eq_none (h l hl), Option.map_none]

/-! ## What is read off a device -/

theorem device_statuses {s : Survey} :
    s.statuses.map (·.device) = List.range s.gauges.length := by
  have hdevice : ((·.device) ∘ fun (x : Gauge × Nat) => x.1.status x.2) = Prod.snd := rfl
  rw [statuses, List.map_map, hdevice, List.zipIdx_map_snd, List.range_eq_range']

theorem getElem?_gauges_ofListings : (ofListings tree depth ls).gauges[d]? = some g ↔
    ∃ l, ls.getLast? = some l ∧ d < l.deviceCount ∧ gauge (totalsOf ls) l d = g := by
  unfold ofListings
  cases hl : ls.getLast? with
  | none => simp [unknown]
  | some l =>
      change (ofListing ls.length l (totalsOf ls) tree depth).gauges[d]? = some g ↔ _
      by_cases hd : d < l.deviceCount
      · rw [getElem?_gauges_ofListing hd]
        simp [hd]
      · have hlength : (ofListing ls.length l (totalsOf ls) tree depth).gauges.length ≤ d := by
          rw [length_gauges_ofListing]
          exact Nat.le_of_not_lt hd
        rw [List.getElem?_eq_none hlength]
        simp [hd]

/-- What is free of written figures needs no more than a word. -/
theorem free_gauge (hl : l ∈ ls) (hwritten : ∀ l ∈ ls, ∀ f ∈ l.memory, f.Written) :
    (gauge (totalsOf ls) l d).free =
      (gauge (totalsOf ls) l d).total - (gauge (totalsOf ls) l d).used := by
  have hused : 0 ≤ (gauge (totalsOf ls) l d).used ∧
      (gauge (totalsOf ls) l d).used ≤ Word.word64.greatest := by
    simp only [gauge, Gauge.ofUsed]
    cases hf : l.memory[d]? with
    | none => simp [Word.greatest]
    | some f =>
        have hw := hwritten l hl f (List.mem_of_getElem? hf)
        exact ⟨hw.used_nonneg, hw.used_le⟩
  have htotal : 0 ≤ (gauge (totalsOf ls) l d).total ∧
      (gauge (totalsOf ls) l d).total ≤ Word.word64.greatest := by
    simp only [gauge, Gauge.ofUsed, Std.ExtTreeMap.getD_eq_getD_getElem?, getElem?_totalsOf]
    cases ht : firstTotal? ls d with
    | none => simp [Word.greatest]
    | some total =>
        obtain ⟨k, hk, f, hf, rfl⟩ := exists_of_firstTotal? ht
        have hw := hwritten k hk f hf
        exact ⟨hw.total_nonneg, hw.total_le⟩
  apply Word.wrap_eq_self
  show Word.word64.Holds ((gauge (totalsOf ls) l d).total - (gauge (totalsOf ls) l d).used)
  have hleast := Word.word64.least_eq
  unfold Word.Holds
  omega

end Survey

namespace Session

open Survey (firstTotal?)

/-- **The total of a device is captured once**, from its first memory figures; the rest is read off
the latest listing. -/
theorem totals_are_captured_once (tree : Ancestry.Tree) (depth capacity : Nat) (script : Script ε)
    (requests : List Request) :
    let s := ((Session.new (.new tree depth capacity) script).play requests).2
    let ls := script.listings s.queries
    (ls = [] → s.watch.survey.gauges = []) ∧
      (∀ latest, ls.getLast? = some latest →
        s.watch.survey.statuses.map (·.device) =
            List.range (max latest.memory.length latest.utilization.length) ∧
          ∀ device g, s.watch.survey.gauges[device]? = some g →
            g.total = (firstTotal? ls device).getD 0 ∧
              ((∀ l ∈ ls, l.memory.length ≤ device) → g.total = 0) ∧
              g.used = (latest.memory[device]?.map (·.used)).getD 0 ∧
              g.free = g.total - g.used ∧
              g.utilization = min (latest.utilization[device]?.getD 0) 100) ∧
      ∀ device total, firstTotal? ls device = some total → ∀ later g,
        (s.play later).2.watch.survey.gauges[device]? = some g → g.total = total := by
  intro s ls
  have hs : s.Follows tree depth script := follows_new.play
  refine ⟨fun hnil => ?_, fun latest hlatest => ⟨?_, fun device g hg => ?_⟩,
    fun device total htotal later g hg => ?_⟩
  · rw [hs.survey_eq, show script.listings s.queries = [] from hnil]
    rfl
  · rw [Survey.device_statuses, hs.survey_eq, Survey.ofListings,
      show (script.listings s.queries).getLast? = some latest from hlatest,
      Survey.length_gauges_ofListing]
    rfl
  · rw [hs.survey_eq, Survey.getElem?_gauges_ofListings] at hg
    obtain ⟨l, hl, -, rfl⟩ := hg
    obtain rfl : l = latest := Option.some.inj (hl.symm.trans hlatest)
    have hfirst : (Survey.gauge (Survey.totalsOf ls) l device).total =
        (firstTotal? ls device).getD 0 := by
      rw [← Survey.getElem?_totalsOf, ← Std.ExtTreeMap.getD_eq_getD_getElem?]
      rfl
    refine ⟨hfirst, fun hnone => ?_, rfl, ?_, rfl⟩
    · rw [hfirst, Survey.firstTotal?_eq_none hnone, Option.getD_none]
    · exact Survey.free_gauge (List.mem_of_getLast? hl)
        fun _ hl _ hf => Script.written_of_mem_listings hl hf
  · have hlater : (s.play later).2.Follows tree depth script := hs.play
    rw [hlater.survey_eq, Survey.getElem?_gauges_ofListings] at hg
    obtain ⟨l, -, -, rfl⟩ := hg
    have hqueries : (s.play later).2.queries = s.queries + later.countP Request.isSample :=
      queries_play
    have hle : s.queries ≤ (s.play later).2.queries := by omega
    have hfirst : firstTotal? (script.listings (s.play later).2.queries) device = some total :=
      Survey.firstTotal?_of_prefix (Script.listings_prefix hle) htotal
    rw [← Survey.getElem?_totalsOf] at hfirst
    change (Survey.totalsOf _).getD device 0 = total
    rw [Std.ExtTreeMap.getD_eq_getD_getElem?, hfirst, Option.getD_some]

namespace Sample

/-- A device is known by its utilization only, then a query fails, and then the device tells one
total and later another. -/
def answers : Script String :=
  .ofList (.ok ["| 5% Default |"])
    [.error "not found", .ok ["| 5MiB / 99MiB | 7% Default |", "| 1MiB / 50MiB |"],
      .ok ["| 6MiB / 11MiB |"]]

abbrev opened : Session String :=
  .new (.new (fun _ => none) 8 4) answers

end Sample

theorem Sample.listings_answers : answers.listings 4 =
    [⟨[], [], [5]⟩, ⟨[], [⟨5, 99⟩, ⟨1, 50⟩], [7]⟩, ⟨[], [⟨6, 11⟩], []⟩] := by
  decide +kernel

theorem sample_totals_are_captured_once :
    let s := (Sample.opened.play [.sample, .sample, .sample]).2
    firstTotal? (Sample.answers.listings s.queries) 0 = some 99 ∧
      ∃ g, (s.play [.start ⟨0, "train"⟩ "worker", .sample]).2.watch.survey.gauges[0]? = some g ∧
        g.total = 99 ∧ g.used = 6 := by
  have htotals := totals_are_captured_once (fun _ => none) 8 4 Sample.answers
    [.sample, .sample, .sample]
  have hfollows : ∀ later, ((Sample.opened.play [.sample, .sample, .sample]).2.play later).2.Follows
      (fun _ => none) 8 Sample.answers := fun _ => follows_new.play.play
  have hqueries : (Sample.opened.play [.sample, .sample, .sample]).2.queries = 3 := queries_play
  generalize (Sample.opened.play [.sample, .sample, .sample]).2 = s at htotals hfollows hqueries ⊢
  have hfirst : firstTotal? (Sample.answers.listings s.queries) 0 = some 99 := by
    rw [hqueries]
    decide +kernel
  have hlater : (s.play [.start ⟨0, "train"⟩ "worker", .sample]).2.queries = 4 := by
    rw [queries_play, hqueries]
    rfl
  have hg : (s.play [.start ⟨0, "train"⟩ "worker", .sample]).2.watch.survey.gauges[0]? =
      some ⟨99, 6, 93, 0⟩ := by
    rw [(hfollows _).survey_eq, hlater, Sample.listings_answers]
    decide +kernel
  exact ⟨hfirst, _, hg, htotals.2.2 0 99 hfirst _ _ hg, rfl⟩

end Session

end Allotment
