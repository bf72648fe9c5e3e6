import Allotment.Proofs.Device.Placement
import Allotment.Proofs.Watch.Totals

/-!
# Sampling is atomic

A session counts the queries that succeeded, and numbers their surveys by that. A query that failed
leaves everything but the number of queries as it was. One that succeeded puts its survey in force,
and all that it does to the applications is to raise the greatest utilization of those on the
devices of the survey.
-/

namespace Allotment

open Usage (App Tally)

variable {ε : Type} {t : Tally} {app : App} {gauges : List Gauge} {g : Gauge}

namespace Watch

/-! ## What a survey does to the tally -/

/-- The tally differs at most in greatest utilizations: those of the applications on the devices
are raised to what the gauges tell. -/
structure Raises (gauges : List Gauge) (t t' : Tally) : Prop where
  finished : t'.finished = t.finished
  capacity : t'.capacity = t.capacity
  active : ∀ app : App, t'.active[app]? = t.active[app]?.map fun a =>
    ⟨a.containers, a.least,
      max a.greatest ((gauges[app.device]?.map (·.utilization)).getD 0)⟩

theorem seeGauges_append_singleton :
    seeGauges t (gauges ++ [g]) = (seeGauges t gauges).seeOn gauges.length g.utilization := by
  rw [seeGauges, List.zipIdx_append, List.foldl_append]
  simp only [List.zipIdx_cons, List.zipIdx_nil, List.foldl_cons, List.foldl_nil, Nat.zero_add]
  rfl

theorem finished_seeGauges : (seeGauges t gauges).finished = t.finished := by
  induction gauges using List.reverseRecOn with
  | nil => rfl
  | append_singleton gauges g ih =>
      rw [seeGauges_append_singleton]
      exact ih

theorem capacity_seeGauges : (seeGauges t gauges).capacity = t.capacity := by
  induction gauges using List.reverseRecOn with
  | nil => rfl
  | append_singleton gauges g ih =>
      rw [seeGauges_append_singleton]
      exact ih

/-- An application takes note of its own device. -/
theorem getElem?_active_seeGauges : (seeGauges t gauges).active[app]? =
    t.active[app]?.map fun a => (gauges[app.device]?.map (·.utilization)).elim a a.see := by
  induction gauges using List.reverseRecOn with
  | nil => simp [seeGauges]
  | append_singleton gauges g ih =>
      rw [seeGauges_append_singleton, Tally.seeOn, Std.ExtTreeMap.getElem?_map, ih,
        Option.map_map, List.getElem?_append]
      congr 1
      funext a
      rcases Nat.lt_trichotomy app.device gauges.length with hlt | heq | hgt
      · have hne : app.device ≠ gauges.length := Nat.ne_of_lt hlt
        simp [hlt, hne]
      · simp [heq]
      · have hne : app.device ≠ gauges.length := Nat.ne_of_gt hgt
        have hnot : ¬app.device < gauges.length := Nat.not_lt_of_gt hgt
        have hpos : app.device - gauges.length ≠ 0 := Nat.sub_ne_zero_of_lt hgt
        simp [hnot, hne, hpos]

theorem raises_seeGauges : Raises gauges t (seeGauges t gauges) where
  finished := finished_seeGauges
  capacity := capacity_seeGauges
  active app := by
    rw [getElem?_active_seeGauges]
    congr 1
    funext a
    cases gauges[app.device]? with
    | none => simp
    | some g => rfl

end Watch

namespace Survey

variable {ls others : List Status.Listing} {tree : Ancestry.Tree} {depth : Nat} {s : Survey}

/-- Of the listings before the last one a survey depends on their number and on first totals. -/
theorem ofListings_eq_of_firstTotal? (hlast : others.getLast? = ls.getLast?)
    (hlength : others.length = ls.length)
    (htotals : ∀ d, firstTotal? others d = firstTotal? ls d) :
    ofListings tree depth others = ofListings tree depth ls := by
  have hsame : totalsOf others = totalsOf ls :=
    Std.ExtTreeMap.ext_getElem? fun d => by rw [getElem?_totalsOf, getElem?_totalsOf, htotals]
  simp only [ofListings, hlast, hlength, hsame]

theorem statuses_eq_mapIdx :
    s.statuses = s.gauges.mapIdx fun device g => ⟨device, g.utilization, g.free⟩ := by
  rw [statuses, List.mapIdx_eq_zipIdx_map]
  rfl

theorem distinct_statuses : DeviceStatus.Distinct s.statuses := by
  unfold DeviceStatus.Distinct
  rw [device_statuses]
  exact List.nodup_range

end Survey

namespace Session

open DeviceStatus (IsFirst roomy choose? exists_choose?)

variable {s : Session ε} {x : Request} {xs : List Request} {lines : List String} {e : ε}
  {script : Script ε} {tree : Ancestry.Tree} {depth : Nat}

/-! ## The surveys that queries bring -/

/-- A request brings a new survey into the watch, or changes nothing in it but the tally. -/
theorem handle_cases (s : Session ε) (x : Request) :
    ((s.handle x).1.survey? = none ∧ ∃ tally, (s.handle x).2.watch = { s.watch with tally }) ∨
      ∃ lines, (s.handle x).1.survey? = some (s.watch.take lines).survey ∧
        (s.handle x).2.watch = s.watch.take lines := by
  by_cases hx : x = .sample
  · subst hx
    cases hanswer : s.script s.queries with
    | ok lines =>
        right
        rw [handle, sample_of_ok hanswer]
        exact ⟨lines, rfl, rfl⟩
    | error e =>
        left
        rw [handle, sample_of_error hanswer]
        exact ⟨rfl, s.watch.tally, rfl⟩
  · left
    obtain ⟨hnone, tally, hs⟩ := handle_of_ne_sample (s := s) hx
    exact ⟨hnone, tally, by rw [hs]⟩

/-- The surveys that the queries among the requests have brought. -/
def surveys (s : Session ε) (xs : List Request) : List Survey :=
  (s.play xs).1.filterMap Response.survey?

theorem surveys_cons : s.surveys (x :: xs) =
    (s.handle x).1.survey?.toList ++ (s.handle x).2.surveys xs := by
  unfold surveys
  rw [play]
  cases h : (s.handle x).1.survey? with
  | none => rw [List.filterMap_cons_none h, Option.toList_none, List.nil_append]
  | some survey => rw [List.filterMap_cons_some h, Option.toList_some, List.singleton_append]

/-- The surveys are numbered on, and the last one is in force. -/
theorem surveys_play (s : Session ε) (xs : List Request) :
    (s.surveys xs).map (·.tick) = List.range' (s.watch.ticks + 1) (s.surveys xs).length ∧
      (s.play xs).2.watch.ticks = s.watch.ticks + (s.surveys xs).length ∧
      (s.play xs).2.watch.survey = (s.surveys xs).getLast?.getD s.watch.survey := by
  induction xs generalizing s with
  | nil => exact ⟨rfl, rfl, rfl⟩
  | cons x xs ih =>
      obtain ⟨hnumbers, hticks, hlast⟩ := ih (s.handle x).2
      have hplay : (s.play (x :: xs)).2 = ((s.handle x).2.play xs).2 := rfl
      rw [surveys_cons, hplay, hticks, hlast]
      rcases handle_cases s x with ⟨hnone, tally, hs⟩ | ⟨lines, hsome, hs⟩
      · rw [hs] at hnumbers ⊢
        rw [hnone, Option.toList_none, List.nil_append]
        exact ⟨hnumbers, rfl, rfl⟩
      · have htaken : (s.handle x).2.watch.ticks = s.watch.ticks + 1 := by
          rw [hs]
          rfl
        rw [htaken] at hnumbers ⊢
        rw [hsome, Option.toList_some, List.singleton_append, List.map_cons, hnumbers,
          List.length_cons, List.range'_succ, hs]
        refine ⟨rfl, by omega, ?_⟩
        rw [List.getLast?_cons, Option.getD_some]

/-- Questions about devices and processes are answered from the fields of the survey `v`, and
asking changes nothing. -/
structure Answers (s : Session ε) (v : Survey) : Prop where
  survey : s.handle (.ask .survey) = (.told (.survey v), s)
  tick : s.handle (.ask .tick) = (.told (.tick v.tick), s)
  statuses : s.handle (.ask .statuses) =
    (.told (.statuses (v.gauges.mapIdx fun device g => ⟨device, g.utilization, g.free⟩)), s)
  memoryOfProcess : ∀ process, s.handle (.ask (.memoryOfProcess process)) =
    (.told (.memory (v.processMemory[process]?.getD 0)), s)
  memoryOfDevice : ∀ device, s.handle (.ask (.memoryOfDevice device)) =
    (.told (.memory ((v.gauges[device]?.map (·.used)).getD 0)), s)
  noChoice : v.gauges = [] → ∀ required,
    s.handle (.ask (.choice required)) = (.told (.choice none), s)
  /-- The least utilized device of those with enough free memory, or of all if there are none. -/
  choice : v.gauges ≠ [] → ∀ required,
    let l := v.gauges.mapIdx fun device g => ⟨device, g.utilization, g.free⟩
    ∃ first, s.handle (.ask (.choice required)) = (.told (.choice (some first.device)), s) ∧
      ((∃ t ∈ l, required ≤ t.free) ∧ IsFirst (roomy l required) first ∨
        (¬∃ t ∈ l, required ≤ t.free) ∧ IsFirst l first)

theorem answers (s : Session ε) : s.Answers s.watch.survey where
  survey := rfl
  tick := rfl
  statuses := by rw [← Survey.statuses_eq_mapIdx, handle, Survey.reply]
  memoryOfProcess process := by
    rw [handle, Survey.reply, Survey.memoryOfProcess, Std.ExtTreeMap.getD_eq_getD_getElem?]
  memoryOfDevice _ := rfl
  noChoice hnone required := by
    rw [handle, Survey.reply, Survey.statuses, hnone]
    rfl
  choice hsome required := by
    obtain ⟨t, ht⟩ := List.exists_mem_of_ne_nil s.watch.survey.statuses
      (by simpa [Survey.statuses] using hsome)
    obtain ⟨first, hfirst⟩ := exists_choose? required ht
    rw [← Survey.statuses_eq_mapIdx, handle, Survey.reply, hfirst]
    exact ⟨first, rfl, Survey.distinct_statuses.isFirst_choose? hfirst⟩

/-- **Sampling is atomic.** Questions about devices and processes are answered from the last survey,
a query that fails changes nothing that can be asked for, and one that succeeds otherwise only
raises greatest utilizations. -/
theorem samples_are_atomic (tree : Ancestry.Tree) (depth capacity : Nat) (script : Script ε)
    (requests : List Request) :
    let opened := Session.new (.new tree depth capacity) script
    let s := (opened.play requests).2
    let taken := opened.surveys requests
    let latest := taken.getLast?.getD .unknown
    let ls := script.listings s.queries
    s.queries = requests.countP Request.isSample ∧
      s.watch.tick = taken.length ∧ ls.length = taken.length ∧
      taken.map (·.tick) = List.range' 1 taken.length ∧
      s.Answers latest ∧
      (∀ others, others.getLast? = ls.getLast? → others.length = ls.length →
        (∀ device, Survey.firstTotal? others device = Survey.firstTotal? ls device) →
        latest = .ofListings tree depth others) ∧
      (∀ e, script s.queries = .error e →
        s.handle .sample = (.sampled (.error e), { s with queries := s.queries + 1 })) ∧
      ∀ lines, script s.queries = .ok lines →
        let s' := (s.handle .sample).2
        let next := Survey.ofListings tree depth (ls ++ [.ofLines lines])
        (s.handle .sample).1 = .sampled (.ok next) ∧ next.tick = taken.length + 1 ∧
          s'.Answers next ∧ Watch.Raises next.gauges s.watch.tally s'.watch.tally := by
  intro opened s taken latest ls
  have hs : s.Follows tree depth script := follows_new.play
  obtain ⟨hnumbers, hticks, hlast⟩ := surveys_play opened requests
  have hcount : s.watch.ticks = taken.length := hticks.trans (Nat.zero_add _)
  have hlength : ls.length = taken.length := hs.knows.ticks.symm.trans hcount
  have hlatest : s.watch.survey = latest := hlast
  refine ⟨queries_play.trans (Nat.zero_add _), hs.knows.tick_eq.trans hlength, hlength, hnumbers,
    hlatest ▸ s.answers, fun others hlast hlength htotals => ?_, fun e he => ?_,
    fun lines hlines => ?_⟩
  · rw [← hlatest, hs.survey_eq, Survey.ofListings_eq_of_firstTotal? hlast hlength htotals]
  · rw [handle, sample_of_error (by rw [hs.script_eq, he])]
  · intro s' next
    have hsample : s.handle .sample = (.sampled (.ok (s.watch.take lines).survey),
        { s with watch := s.watch.take lines, queries := s.queries + 1 }) := by
      rw [handle, sample_of_ok (by rw [hs.script_eq, hlines])]
    have hs' : s' = { s with watch := s.watch.take lines, queries := s.queries + 1 } :=
      congrArg Prod.snd hsample
    have hnext : (s.watch.take lines).survey = next := by
      rw [hs.knows.take.survey]
      change Survey.ofListings s.watch.tree s.watch.depth _ = _
      rw [hs.tree_eq, hs.depth_eq]
    have htick : next.tick = taken.length + 1 := by
      rw [Survey.tick_ofListings, List.length_append, hlength, List.length_singleton]
    have hanswers : s'.Answers s'.watch.survey := s'.answers
    rw [hs'] at hanswers ⊢
    rw [hsample, hnext]
    refine ⟨rfl, htick, hnext ▸ hanswers, ?_⟩
    rw [← hnext]
    exact Watch.raises_seeGauges

/-- The second query fails. The third one tells what is in use on the second device and raises the
greatest utilization of the application on the first. -/
theorem sample_samples_are_atomic :
    let app : App := ⟨0, "train"⟩
    let s := (Sample.opened.play [.sample, .start app "worker"]).2
    let s' := (Sample.opened.play [.sample, .start app "worker", .sample]).2
    let s'' := (s'.handle .sample).2
    s.handle .sample = (.sampled (.error "not found"), { s with queries := s.queries + 1 }) ∧
      s'.watch.tally.active[app]?.map (·.greatest) = some 5 ∧
      s''.handle (.ask (.memoryOfDevice 1)) = (.told (.memory 1), s'') ∧
      s''.watch.tally.active[app]?.map (·.greatest) = some 7 := by
  intro app
  obtain ⟨hqueries, -, -, -, -, -, hfails, -⟩ :=
    samples_are_atomic (fun _ => none) 8 4 Sample.answers [.sample, .start app "worker"]
  obtain ⟨hqueries', -, -, -, -, -, -, hsucceeds⟩ :=
    samples_are_atomic (fun _ => none) 8 4 Sample.answers [.sample, .start app "worker", .sample]
  have hgreatest : (Sample.opened.play
      [.sample, .start app "worker", .sample]).2.watch.tally.active[app]?.map (·.greatest) =
        some 5 := by
    decide +kernel
  generalize (Sample.opened.play [.sample, .start app "worker"]).2 = s at *
  generalize (Sample.opened.play [.sample, .start app "worker", .sample]).2 = s' at *
  have hfailed : s.handle .sample =
      (.sampled (.error "not found"), { s with queries := s.queries + 1 }) := by
    refine hfails _ ?_
    rw [hqueries]
    rfl
  have hmade : s'.queries = 2 := hqueries'
  rw [hmade] at hsucceeds
  obtain ⟨-, -, hanswers, hraises⟩ :=
    hsucceeds ["| 5MiB / 99MiB | 7% Default |", "| 1MiB / 50MiB |"] rfl
  have hgauges : (Survey.ofListings (fun _ => none) 8 (Sample.answers.listings 2 ++
      [.ofLines ["| 5MiB / 99MiB | 7% Default |", "| 1MiB / 50MiB |"]])).gauges =
        [⟨99, 5, 94, 7⟩, ⟨50, 1, 49, 0⟩] := by
    decide +kernel
  have htold := hanswers.memoryOfDevice 1
  have hraised := hraises.active app
  rw [hgauges] at htold hraised
  obtain ⟨a, ha, hfive⟩ := Option.map_eq_some_iff.1 hgreatest
  rw [ha] at hraised
  refine ⟨hfailed, hgreatest, htold, ?_⟩
  rw [hraised]
  simp [hfive, app]

end Session

end Allotment
