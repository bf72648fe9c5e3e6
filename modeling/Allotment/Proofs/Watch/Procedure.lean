import Mathlib.Data.List.Induction
import Allotment.Watch.Procedure

/-!
# Sampling comes to what the watch takes

The procedure writes the totals of new devices while it reads off the others, and it writes the
other parts of the watch one after another. A query that succeeded leaves the watch that has taken
its lines all the same, and one that failed leaves the watch as it was.
-/

namespace Allotment

open Status (Listing MemoryFigures)

variable {ε : Type} {totals : Totals} {l : Listing} {w : Watch} {d n device : Nat}

namespace Survey

/-! ## Totals -/

theorem getElem?_insertIfNew {total : Int} : (totals.insertIfNew device total)[d]? =
    totals[d]?.or (if d = device then some total else none) := by
  rw [Std.ExtTreeMap.getElem?_insertIfNew]
  by_cases hd : d = device
  · subst hd
    by_cases hmem : d ∈ totals <;> simp [hmem]
  · have hne : compare device d ≠ .eq := by
      rw [ne_eq, Nat.compare_eq_eq]
      exact Ne.symm hd
    simp [hne, hd]

/-- The totals that a listing leaves: what was known stays, and the rest is read off it. -/
theorem getElem?_addTotals :
    (addTotals totals l)[d]? = totals[d]?.or (l.memory[d]?.map (·.total)) := by
  have hfold : ∀ figures : List MemoryFigures,
      (figures.zipIdx.foldl (fun totals x => totals.insertIfNew x.2 x.1.total) totals)[d]? =
        totals[d]?.or (figures[d]?.map (·.total)) := by
    intro figures
    induction figures using List.reverseRecOn with
    | nil => simp
    | append_singleton figures f ih =>
        rw [List.zipIdx_append, List.foldl_append]
        simp only [List.zipIdx_cons, List.zipIdx_nil, List.foldl_cons, List.foldl_nil, Nat.zero_add]
        rw [getElem?_insertIfNew, ih, Option.or_assoc]
        congr 1
        rw [List.getElem?_append]
        by_cases hd : d < figures.length
        · simp [hd]
        · have hlast : [f][d - figures.length]? = if d = figures.length then some f else none := by
            rw [List.getElem?_singleton]
            have hiff : d - figures.length = 0 ↔ d = figures.length := by omega
            simp only [hiff]
          simp only [hd, if_false, hlast, List.getElem?_eq_none (Nat.le_of_not_lt hd)]
          split <;> rfl
  exact hfold l.memory

/-- The totals when the first `n` devices have been seen. -/
def addFirst (totals : Totals) (l : Listing) (n : Nat) : Totals :=
  addTotals totals { l with memory := l.memory.take n }

theorem addFirst_zero : addFirst totals l 0 = totals := by
  rw [addFirst, addTotals, List.take_zero, List.zipIdx_nil, List.foldl_nil]

theorem addFirst_deviceCount : addFirst totals l l.deviceCount = addTotals totals l := by
  have hall : l.memory.take l.deviceCount = l.memory :=
    List.take_of_length_le (Nat.le_max_left _ _)
  rw [addFirst, hall]

theorem getElem?_addFirst : (addFirst totals l n)[d]? =
    totals[d]?.or (if d < n then l.memory[d]?.map (·.total) else none) := by
  rw [addFirst, getElem?_addTotals, List.getElem?_take]
  split <;> rfl

theorem addFirst_succ : addFirst totals l (n + 1) =
    match l.memory[n]? with
    | some figures => (addFirst totals l n).insertIfNew n figures.total
    | none => addFirst totals l n := by
  apply Std.ExtTreeMap.ext_getElem?
  intro d
  cases hn : l.memory[n]? with
  | none =>
      rw [getElem?_addFirst, getElem?_addFirst]
      congr 1
      by_cases hd : d = n
      · simp [hd, hn]
      · have hiff : d < n + 1 ↔ d < n := by omega
        simp only [hiff]
  | some figures =>
      rw [getElem?_insertIfNew, getElem?_addFirst, getElem?_addFirst, Option.or_assoc]
      congr 1
      by_cases hd : d = n
      · subst hd
        simp [hn]
      · have hiff : d < n + 1 ↔ d < n := by omega
        simp [hiff, hd]

/-- Devices seen later do not change what is read off a device. -/
theorem gauge_addFirst (hd : d < n) :
    gauge (addFirst totals l n) l d = gauge (addTotals totals l) l d := by
  have htotal : (addFirst totals l n).getD d 0 = (addTotals totals l).getD d 0 := by
    rw [Std.ExtTreeMap.getD_eq_getD_getElem?, Std.ExtTreeMap.getD_eq_getD_getElem?,
      getElem?_addFirst, getElem?_addTotals, if_pos hd]
  rw [gauge, gauge, htotal]

end Survey

namespace Watch

open EStateM (Result)

namespace Procedure

/-! ## Building a survey -/

theorem run_observe : (observe l n : Procedure ε Gauge).run
      { w with totals := Survey.addFirst totals l n } =
    .ok (Survey.gauge (Survey.addFirst totals l (n + 1)) l n)
      { w with totals := Survey.addFirst totals l (n + 1) } := by
  rw [Survey.addFirst_succ]
  unfold observe Survey.gauge
  cases hn : l.memory[n]? <;> rfl

theorem run_observeAll : ((List.range n).mapM (observe l) : Procedure ε (List Gauge)).run
      { w with totals := totals } =
    .ok ((List.range n).map (Survey.gauge (Survey.addFirst totals l n) l))
      { w with totals := Survey.addFirst totals l n } := by
  induction n with
  | zero =>
      rw [Survey.addFirst_zero]
      rfl
  | succ n ih =>
      have hearlier : (List.range n).map (Survey.gauge (Survey.addFirst totals l (n + 1)) l) =
          (List.range n).map (Survey.gauge (Survey.addFirst totals l n) l) := by
        refine List.map_congr_left fun d hd => ?_
        have hlt : d < n := List.mem_range.1 hd
        rw [Survey.gauge_addFirst hlt, Survey.gauge_addFirst (Nat.lt_succ_of_lt hlt)]
      rw [List.range_succ, List.mapM_append, List.map_append, hearlier]
      simp only [List.mapM_cons, List.mapM_nil, EStateM.run_bind, ih, run_observe]
      rfl

theorem run_build {tick : Nat} : (build tick l : Procedure ε Survey).run w =
    .ok (.ofListing tick l (Survey.addTotals w.totals l) w.tree w.depth)
      { w with totals := Survey.addTotals w.totals l } := by
  have hall : ((List.range l.deviceCount).mapM (observe l) : Procedure ε (List Gauge)).run w =
      .ok ((List.range l.deviceCount).map (Survey.gauge (Survey.addTotals w.totals l) l))
        { w with totals := Survey.addTotals w.totals l } := by
    rw [← Survey.addFirst_deviceCount]
    exact run_observeAll
  unfold build
  rw [EStateM.run_bind, hall]
  rfl

/-! ## The parts of the watch -/

theorem run_note {s : Survey} : (note s : Procedure ε Unit).run w =
    .ok () { w with tally := seeGauges w.tally s.gauges } := by
  unfold note seeGauges
  generalize s.gauges.zipIdx = gauges
  induction gauges generalizing w with
  | nil => rfl
  | cons x gauges ih =>
      exact ih (w := { w with tally := w.tally.seeOn x.2 x.1.utilization })

theorem run_sample_ok {lines : List String} : (sample (.ok lines) : Procedure ε Survey).run w =
    .ok (w.take lines).survey (w.take lines) := by
  unfold sample receive count
  simp only [EStateM.run_bind, EStateM.run_pure, EStateM.run_modify, EStateM.run_get, run_build,
    publish, run_note]
  rfl

theorem run_sample_error {e : ε} : (sample (.error e) : Procedure ε Survey).run w = .error e w :=
  rfl

end Procedure

/-! ## What is left of a query -/

theorem sample_ok {lines : List String} :
    w.sample (.ok lines : Except ε (List String)) = (.ok (w.take lines).survey, w.take lines) := by
  rw [sample, Procedure.run_sample_ok]

/-- A query that failed changes nothing. -/
theorem sample_error {e : ε} : w.sample (.error e) = (.error e, w) := by
  rw [sample, Procedure.run_sample_error]

end Watch

end Allotment
