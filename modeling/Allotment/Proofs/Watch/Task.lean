import Allotment.Watch.Task
import Allotment.Proofs.Watch.Schedule
import Allotment.Proofs.Watch.Totals

/-!
# Loops keep their schedule

A task that has its turns whenever there is something to do ends up where `Session.advance` does:
it has made one query at once and one at the end of every period, whatever came of them. When it is
cancelled it makes no other query.
-/

namespace Allotment

namespace Session

variable {ε : Type} {s t : Session ε} {l : Loop} {now ms elapsed period : Nat}
  {advances : List Nat} {cancelled : Bool}

/-! ## The turns of a task -/

/-- The hold on a loop has nothing to do with what the loop does. -/
theorem catchUp_with_loop {loop : Option Loop} :
    catchUp l now { s with loop } =
      ((catchUp l now s).1, { (catchUp l now s).2 with loop }) := by
  induction l, s using catchUp.induct now with
  | case1 l s hdue ih =>
      have hmade : ({ s with loop } : Session ε).sampleInLoop = { s.sampleInLoop with loop } := rfl
      rw [catchUp.eq_def l now s, catchUp.eq_def l now { s with loop }, if_pos hdue, if_pos hdue,
        hmade]
      exact ih
  | case2 l s hdue =>
      rw [catchUp.eq_def l now s, catchUp.eq_def l now { s with loop }, if_neg hdue, if_neg hdue]

theorem advance_turn (hloop : s.loop = some l) (hunheeded : s.unheeded = [])
    (hdue : l.due = s.now) : (s.turn l).advance ms = s.advance ms := by
  have hfirst : l.due ≤ s.now + ms := by omega
  have hnext : catchUp l (s.now + ms) { s with now := s.now + ms } =
      catchUp { l with due := s.now + l.period } (s.now + ms)
        ({ s with now := s.now + ms } : Session ε).sampleInLoop := by
    rw [catchUp, if_pos hfirst, hdue]
  rw [advance_of_catchUp hloop hunheeded hnext, advance_of_catchUp (s := s.turn l) rfl hunheeded
    (catchUp_with_loop (s := ({ s with now := s.now + ms } : Session ε).sampleInLoop))]
  rfl

theorem idle_iff (hloop : s.loop = some l) :
    s.Idle cancelled ms ↔ cancelled = false ∧ s.now < l.due ∧ s.now + ms ≤ l.due := by
  simp [Idle, hloop]

theorem idle_of_none (hloop : s.loop = none) : s.Idle cancelled ms := by
  simp [Idle, hloop]

/-- Whatever the task does, the session ends up in one way. -/
theorem Course.eq_advance (h : s.Course false ms t) (hloop : s.loop = some l)
    (hunheeded : s.unheeded = []) (hle : s.now ≤ l.due) : t = s.advance ms := by
  induction h generalizing l with
  | @queries s t l' ms hl hdue h ih =>
      obtain rfl : l' = l := Option.some.inj (hl.symm.trans hloop)
      have hnow : l'.due = s.now := Nat.le_antisymm hdue hle
      rw [← advance_turn hloop hunheeded hnow]
      exact ih rfl hunheeded (Nat.le_add_right _ _)
  | ends hcancelled => cases hcancelled
  | @waits s t d ms hidle h ih =>
      obtain ⟨-, -, hwait⟩ := (idle_iff hloop).1 hidle
      rw [ih hloop hunheeded hwait, advance_of_catchUp hloop hunheeded rfl,
        advance_of_catchUp (s := { s with now := s.now + d }) hloop hunheeded rfl,
        Nat.add_assoc]
  | @rests s hidle =>
      obtain ⟨-, hlate, -⟩ := (idle_iff hloop).1 hidle
      rw [advance_of_catchUp hloop hunheeded (catchUp_of_lt hlate)]
      cases s
      cases hloop
      cases hunheeded
      rfl

/-- A task that was on time when there was nothing to do is on time when there is. -/
theorem Course.exists_of_le (hidle : ∀ (s : Session ε) (l : Loop), s.loop = some l →
    s.now < l.due → ∃ t, s.Course false ms t) (hloop : s.loop = some l) (hle : s.now ≤ l.due) :
    ∃ t, s.Course false ms t := by
  rcases Nat.lt_or_eq_of_le hle with hlt | heq
  · exact hidle s l hloop hlt
  · obtain ⟨t, h⟩ := hidle (s.turn l) _ rfl (Nat.lt_add_of_pos_right l.period_pos)
    exact ⟨t, .queries hloop (Nat.le_of_eq heq.symm) h⟩

theorem Course.exists_of_lt (hloop : s.loop = some l) (hlt : s.now < l.due) :
    ∃ t, s.Course false ms t := by
  induction ms generalizing s l with
  | zero => exact ⟨s, .rests ((idle_iff hloop).2 ⟨rfl, hlt, Nat.le_of_lt hlt⟩)⟩
  | succ ms ih =>
      have hwait : s.Idle false 1 := (idle_iff hloop).2 ⟨rfl, hlt, hlt⟩
      obtain ⟨t, h⟩ := exists_of_le (s := { s with now := s.now + 1 }) (fun _ _ => ih) hloop hlt
      exact ⟨t, Nat.add_comm 1 ms ▸ .waits hwait h⟩

theorem course_iff (hloop : s.loop = some l) (hunheeded : s.unheeded = []) (hle : s.now ≤ l.due) :
    s.Course false ms t ↔ t = s.advance ms := by
  refine ⟨fun h => h.eq_advance hloop hunheeded hle, fun ht => ?_⟩
  obtain ⟨u, h⟩ : ∃ u, s.Course false ms u :=
    Course.exists_of_le (fun _ _ => Course.exists_of_lt) hloop hle
  rw [ht, ← h.eq_advance hloop hunheeded hle]
  exact h

/-! ## A cancelled task -/

theorem course_iff_of_none (hloop : s.loop = none) :
    s.Course cancelled ms t ↔ t = { s with now := s.now + ms } := by
  constructor
  · intro h
    induction h with
    | queries hl => simp [hloop] at hl
    | ends _ hl => simp [hloop] at hl
    | waits _ _ ih => rw [ih hloop, Nat.add_assoc]
    | rests => rfl
  · intro ht
    subst ht
    have hrests : Course cancelled { s with now := s.now + ms } 0 { s with now := s.now + ms } :=
      .rests (idle_of_none hloop)
    exact .waits (idle_of_none hloop) hrests

theorem course_cancelled_iff (hloop : s.loop = some l) (hlt : s.now < l.due) :
    s.Course true ms t ↔ t = { s with now := s.now + ms, loop := none } := by
  have hended : Course true { s with loop := none } ms t ↔
      t = { s with now := s.now + ms, loop := none } := course_iff_of_none rfl
  rw [← hended]
  refine ⟨fun h => ?_, fun h => .ends rfl hloop h⟩
  cases h with
  | queries hl hdue =>
      obtain rfl := Option.some.inj (hl.symm.trans hloop)
      exact absurd hdue (Nat.not_le_of_gt hlt)
  | ends _ _ h => exact h
  | waits hidle => simp [idle_iff hloop] at hidle
  | rests hidle => simp [idle_iff hloop] at hidle

/-- When a tick and the cancellation have both happened, the task may attend to the tick first. -/
theorem course_cancelled_due_iff (hloop : s.loop = some l) (hdue : l.due ≤ s.now) :
    s.Course true ms t ↔ t = { s with now := s.now + ms, loop := none } ∨
      t = { s.sampleInLoop with now := s.now + ms, loop := none } := by
  have hended : Course true { s with loop := none } ms t ↔
      t = { s with now := s.now + ms, loop := none } := course_iff_of_none rfl
  have hturned : (s.turn l).Course true ms t ↔
      t = { s.sampleInLoop with now := s.now + ms, loop := none } :=
    course_cancelled_iff (s := s.turn l) rfl (Nat.lt_add_of_pos_right l.period_pos)
  rw [← hended, ← hturned]
  constructor
  · intro h
    cases h with
    | queries hl _ h =>
        obtain rfl := Option.some.inj (hl.symm.trans hloop)
        exact .inr h
    | ends _ _ h => exact .inl h
    | waits hidle => simp [idle_iff hloop] at hidle
    | rests hidle => simp [idle_iff hloop] at hidle
  · rintro (h | h)
    · exact .ends rfl hloop h
    · exact .queries hloop hdue h

theorem passing_iff_of_none (hloop : s.loop = none) :
    s.Passing cancelled advances t ↔ t = { s with now := s.now + advances.sum } := by
  induction advances generalizing s with
  | nil => exact course_iff_of_none hloop
  | cons ms advances ih =>
      rw [Passing, List.sum_cons, ← Nat.add_assoc]
      simp only [course_iff_of_none hloop, exists_eq_left]
      exact ih hloop

theorem passing_cancelled_iff (hloop : s.loop = some l) (hlt : s.now < l.due) :
    s.Passing true advances t ↔ t = { s with now := s.now + advances.sum, loop := none } := by
  cases advances with
  | nil => exact course_cancelled_iff hloop hlt
  | cons ms advances =>
      rw [Passing, List.sum_cons, ← Nat.add_assoc]
      simp only [course_cancelled_iff hloop hlt, exists_eq_left]
      exact passing_iff_of_none rfl

theorem passing_cancelled_due_iff (hloop : s.loop = some l) (hdue : l.due ≤ s.now) :
    s.Passing true advances t ↔ t = { s with now := s.now + advances.sum, loop := none } ∨
      t = { s.sampleInLoop with now := s.now + advances.sum, loop := none } := by
  cases advances with
  | nil => exact course_cancelled_due_iff hloop hdue
  | cons ms advances =>
      rw [Passing, List.sum_cons, ← Nat.add_assoc]
      simp only [course_cancelled_due_iff hloop hdue, or_and_right, exists_or, exists_eq_left]
      exact or_congr (passing_iff_of_none rfl) (passing_iff_of_none rfl)

theorem foldl_advance_of_none (hloop : s.loop = none) (hunheeded : s.unheeded = []) :
    advances.foldl advance s = { s with now := s.now + advances.sum } := by
  induction advances generalizing s with
  | nil => rfl
  | cons ms advances ih =>
      have hadvance : s.advance ms = { s with now := s.now + ms } := by
        cases s
        cases hloop
        cases hunheeded
        rfl
      rw [List.foldl_cons, hadvance, ih (s := { s with now := s.now + ms }) hloop hunheeded,
        List.sum_cons, Nat.add_assoc]

/-! ## The schedule -/

theorem now_running_lt {hpos : 0 < period} : (s.running period elapsed hpos).now <
    s.now + (elapsed / period + 1) * period := by
  rw [Nat.mul_comm]
  exact Nat.add_lt_add_left (Nat.lt_mul_div_succ elapsed hpos) s.now

theorem course_running_iff {hpos : 0 < period} : (s.running period elapsed hpos).Course false ms t ↔
    t = s.running period (elapsed + ms) hpos := by
  rw [course_iff rfl rfl (Nat.le_of_lt now_running_lt), advance_running]

theorem passing_running_iff {hpos : 0 < period} :
    (s.running period elapsed hpos).Passing false advances t ↔
      t = s.running period (elapsed + advances.sum) hpos := by
  induction advances generalizing elapsed with
  | nil => exact course_running_iff
  | cons ms advances ih =>
      rw [Passing, List.sum_cons, ← Nat.add_assoc]
      simp only [course_running_iff, exists_eq_left]
      exact ih

/-- A task that was just started has its first turn at once. -/
theorem course_launch_iff {interval : Nat} (hunheeded : s.unheeded = []) :
    (s.launch interval).Course false ms t ↔
      t = s.running (max interval 1) ms (Nat.le_max_right interval 1) := by
  let l : Loop := ⟨max interval 1, s.now, Nat.le_max_right interval 1⟩
  have hloop : (s.launch interval).loop = some l := rfl
  have hturn : (s.launch interval).turn l = s.running l.period 0 l.period_pos := by
    simp only [running, Nat.zero_div, Nat.zero_add, Nat.one_mul, Nat.add_zero, ← hunheeded]
    rfl
  rw [course_iff hloop hunheeded (Nat.le_refl _), ← advance_turn hloop hunheeded rfl, hturn,
    advance_running, Nat.zero_add]

theorem passing_launch_iff {interval : Nat} (hunheeded : s.unheeded = []) :
    (s.launch interval).Passing false advances t ↔
      t = s.running (max interval 1) advances.sum (Nat.le_max_right interval 1) := by
  cases advances with
  | nil => exact course_launch_iff hunheeded
  | cons ms advances =>
      rw [Passing, List.sum_cons]
      simp only [course_launch_iff hunheeded, exists_eq_left]
      exact passing_running_iff

theorem queries_sampleTimes {n : Nat} : (s.sampleTimes n).queries = s.queries + n := by
  rw [← play_replicate_sample, queries_play, List.countP_replicate]
  rfl

theorem tick_sampleTimes {script : Script ε} {tree : Ancestry.Tree} {depth n : Nat}
    (hs : s.Follows tree depth script) : (s.sampleTimes n).watch.tick =
      s.watch.tick + (List.range n).countP fun i => (script (s.queries + i)).isOk := by
  have hlater : (s.sampleTimes n).Follows tree depth script := by
    rw [← play_replicate_sample]
    exact hs.play
  rw [hlater.knows.tick_eq, hs.knows.tick_eq, queries_sampleTimes, Script.length_listings_add]

/-- **Loops keep their schedule**, however the time passes and whatever comes of their queries.
After the cancellation a query is made at most if a tick is due already. -/
theorem loop_keeps_schedule (tree : Ancestry.Tree) (depth capacity : Nat) (script : Script ε)
    (requests : List Request) (interval : Nat) (advances later : List Nat) :
    let s := ((Session.new (.new tree depth capacity) script).play requests).2
    let period := max interval 1
    let n := advances.sum / period + 1
    let t := advances.foldl advance (s.startLoop interval)
    let ended := later.foldl advance t.endLoop
    (∀ u, (s.launch interval).Passing false advances u ↔ u = t) ∧
      t.queries = s.queries + n ∧
      t.watch.tick =
        s.watch.tick + ((List.range n).countP fun i => (script (s.queries + i)).isOk) ∧
      t.watch = (s.play (List.replicate n .sample)).2.watch ∧
      (∃ l, t.loop = some l ∧ l.period = period ∧ l.due = s.now + n * period) ∧
      (∀ advances' : List Nat, advances'.sum = advances.sum →
        advances'.foldl advance (s.startLoop interval) = t) ∧
      (∀ u, t.Passing true later u ↔ u = ended) ∧
      ended = { t with now := t.now + later.sum, loop := none } ∧
      (∀ u, (s.launch interval).Passing true later u ↔
        u = { s with now := s.now + later.sum, loop := none } ∨
          u = { s.sampleInLoop with now := s.now + later.sum, loop := none }) ∧
      ∀ u, ({ t with now := s.now + n * period } : Session ε).Passing true later u ↔
        u = { t with now := s.now + n * period + later.sum, loop := none } ∨
          u = { t.sampleInLoop with now := s.now + n * period + later.sum, loop := none } := by
  intro s period n t ended
  have hs : s.Follows tree depth script := follows_new.play
  have hrun : ∀ as : List Nat, as.foldl advance (s.startLoop interval) =
      s.running period as.sum (Nat.le_max_right interval 1) := by
    intro as
    rw [startLoop_eq_running hs.loop_eq hs.unheeded_eq, foldl_advance_running, Nat.zero_add]
  have ht : t = s.running period advances.sum (Nat.le_max_right interval 1) := hrun advances
  have hended : ended = { t with now := t.now + later.sum, loop := none } :=
    foldl_advance_of_none (s := t.endLoop) rfl (by rw [ht]; rfl)
  refine ⟨fun u => ?_, ?_, ?_, ?_, ?_, fun as has => ?_, fun u => ?_, hended,
    fun u => ?_, fun u => ?_⟩
  · rw [passing_launch_iff hs.unheeded_eq, ht]
  · rw [ht]
    exact queries_sampleTimes
  · rw [ht]
    exact tick_sampleTimes hs
  · rw [ht, play_replicate_sample]
    rfl
  · rw [ht]
    exact ⟨_, rfl, rfl, rfl⟩
  · rw [hrun, has, ht]
  · rw [hended, ht]
    exact passing_cancelled_iff rfl now_running_lt
  · exact passing_cancelled_due_iff (s := s.launch interval) rfl (Nat.le_refl _)
  · rw [ht]
    exact passing_cancelled_due_iff
      (s := { s.running period advances.sum _ with now := s.now + n * period }) rfl (Nat.le_refl _)

/-- Of two queries in seven milliseconds the second one fails. -/
theorem sample_loop_keeps_schedule :
    let t := [3, 4].foldl advance (Sample.opened.startLoop 5)
    t.queries = 2 ∧ t.watch.tick = 1 ∧ (∃ l, t.loop = some l ∧ l.due = 10) ∧
      [7].foldl advance (Sample.opened.startLoop 5) = t ∧
      [9].foldl advance t.endLoop = { t with now := t.now + 9, loop := none } := by
  obtain ⟨-, hqueries, htick, -, ⟨l, hloop, -, hdue⟩, hparts, -, hended, -⟩ :=
    loop_keeps_schedule (fun _ => none) 8 4 Sample.answers [] 5 [3, 4] [9]
  have hseven := hparts [7] rfl
  intro t
  change t.queries = 0 + 2 at hqueries
  change t.watch.tick = 0 + (List.range 2).countP (fun i => (Sample.answers (0 + i)).isOk) at htick
  change [7].foldl advance (Sample.opened.startLoop 5) = t at hseven
  change t.loop = some l at hloop
  change l.due = 10 at hdue
  change [9].foldl advance t.endLoop = { t with now := t.now + 9, loop := none } at hended
  generalize t = t at *
  exact ⟨hqueries, htick.trans (by decide), ⟨l, hloop, hdue⟩, hseven, hended⟩

end Session

end Allotment
