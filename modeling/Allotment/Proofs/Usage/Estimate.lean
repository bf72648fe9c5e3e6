import Mathlib.Data.List.Perm.Subperm
import Allotment.Proofs.Usage.Run

/-!
# The estimate is a function of the trace

A tally keeps entries, sets of containers and a queue that drops its oldest member. What it tells of
an application is nevertheless a matter of the trace alone: of the spell in which the application
runs, or of its last one and of who has finished after it. Whatever has happened to other
applications makes a difference only when they push a finished one out.
-/

namespace Allotment.Usage

variable {app other : App} {c : String} {a : Active} {e : Event} {t : Tally} {f : Finished}
  {es ended after : List Event} {capacity : Nat}

/-- What is to be told of an application after a trace, if so many finished ones are kept: nothing
unless it was ever started; the rise of its spell, divided among its containers, while it runs; the
whole rise of its last spell until as many others as are kept have finished later; then nothing. -/
inductive Estimate (capacity : Nat) (app : App) : List Event → Nat → Prop where
  | unknown {es : List Event} : NeverStarted es app → Estimate capacity app es 0
  | running (s : Spell app) {containers : List String} :
      containers.Nodup → (∀ c, c ∈ containers ↔ Watched s.window app c) →
      Estimate capacity app s.trace (s.rise / containers.length)
  | kept (p : Past app) :
      ¬Crowded capacity p.ended p.after → Estimate capacity app p.trace p.spell.rise
  | dropped (p : Past app) :
      Crowded capacity p.ended p.after → Estimate capacity app p.trace 0

namespace Tally

/-! ## While it runs -/

/-- The entry of an application has the levels of its spell. -/
theorem exists_entry_of_since (s : Spell app) {since : List Event} (hsince : since <+: s.since) :
    ∃ a, (ofTrace capacity
        (s.before ++ .start app s.container s.utilization :: since)).active[app]? = some a ∧
      a.least = s.utilization ∧
      a.greatest = (since.filterMap (Event.seenOn? app.device)).foldl max s.utilization := by
  induction since using List.reverseRecOn with
  | nil =>
      have hnone : (ofTrace capacity s.before).active[app]? = none := by
        have hidle := mt (isActive_ofTrace capacity).1 s.idle
        rwa [isActive_iff, ← Option.isSome_iff_exists, Option.not_isSome_iff_eq_none] at hidle
      rw [ofTrace_append_singleton, getElem?_active_apply, hnone]
      simp [App.next, Active.start]
  | append_singleton since e ih =>
      obtain ⟨a, ha, hleast, hgreatest⟩ :=
        ih ((List.prefix_append since [e]).trans hsince)
      have hruns : Runs ((s.before ++ .start app s.container s.utilization :: since) ++ [e])
          app := by
        rw [List.append_assoc, runs_append_of_idle s.idle]
        exact s.runs (since ++ [e]) hsince
      obtain ⟨b, hb⟩ := isActive_iff.1 ((isActive_ofTrace capacity).2 hruns)
      have hnext : app.next (some a) e = some b := by
        rw [← hb, ofTrace_append_singleton, getElem?_active_apply, ha]
      obtain ⟨hleast', hgreatest'⟩ := levels_next hnext
      refine ⟨b, ?_, hleast'.trans hleast, ?_⟩
      · rw [← hb, List.append_assoc, List.cons_append]
      · rw [hgreatest', hgreatest, List.filterMap_append, List.foldl_append]
        cases hseen : e.seenOn? app.device <;> simp [hseen]

theorem exists_entry (capacity : Nat) (s : Spell app) :
    ∃ a, (ofTrace capacity s.trace).active[app]? = some a ∧
    a.least = s.utilization ∧ a.greatest = s.peak :=
  exists_entry_of_since s (List.prefix_refl s.since)

theorem nodup_toList (s : Std.ExtTreeSet String) : s.toList.Nodup := by
  apply Std.ExtTreeSet.distinct_toList.imp
  rintro c d hne rfl
  exact hne Std.ReflCmp.compare_self

theorem size_eq_length {containers : List String} {s : Std.ExtTreeSet String}
    (hnodup : containers.Nodup) (hmem : ∀ c, c ∈ containers ↔ c ∈ s) :
    s.size = containers.length := by
  rw [← Std.ExtTreeSet.length_toList]
  apply List.Perm.length_eq
  rw [List.perm_ext_iff_of_nodup (nodup_toList s) hnodup]
  intro c
  rw [Std.ExtTreeSet.mem_toList, hmem]

theorem utilization_of_spell (s : Spell app) {containers : List String}
    (hnodup : containers.Nodup) (hmem : ∀ c, c ∈ containers ↔ Watched s.window app c) :
    (ofTrace capacity s.trace).utilization app = s.rise / containers.length := by
  obtain ⟨a, ha, hleast, hgreatest⟩ := exists_entry capacity s
  have hsame : ∀ c, c ∈ containers ↔ c ∈ a.containers := by
    intro c
    rw [hmem, ← s.watched_trace, ← holds_ofTrace capacity, ha, holds_some]
  have hsize : a.containers.size = containers.length := size_eq_length hnodup hsame
  have hpos : 0 < containers.length := by
    obtain ⟨c, hc⟩ := s.runs_trace
    exact List.length_pos_of_mem ((hmem c).2 (s.watched_trace.1 hc))
  rw [utilization_of_active ha, Active.share, Active.spread, hleast, hgreatest, hsize,
    Nat.max_eq_left hpos]
  rfl

/-! ## After it has finished -/

/-- The finished application is kept, and those behind it are those that have finished since. -/
def Kept (t : Tally) (f : Finished) (ended after : List Event) : Prop :=
  ∃ before later, t.finished = before ++ f :: later ∧
    ∀ other, other ∈ later.map (·.app) ↔ FinishedSince ended after other

/-- There is no room left, and all that are kept have finished since. -/
def Taken (t : Tally) (ended after : List Event) : Prop :=
  t.finished.length = t.capacity ∧ ∀ f ∈ t.finished, FinishedSince ended after f.app

theorem Kept.mem (h : t.Kept f ended after) : f ∈ t.finished := by
  obtain ⟨before, later, hfinished, _⟩ := h
  rw [hfinished]
  exact List.mem_append_right before List.mem_cons_self

theorem Coherent.not_full (h : t.Coherent) (hkept : t.Kept f ended after) :
    ¬Full t.capacity ended after := by
  obtain ⟨before, later, hfinished, hlater⟩ := hkept
  rintro ⟨others, hnodup, hmany, hothers⟩
  have hfew : others.length ≤ (later.map (·.app)).length :=
    (List.subperm_of_subset hnodup fun other hother =>
      (hlater other).2 (hothers other hother)).length_le
  have hroom := h.bounded
  simp only [hfinished, List.length_append, List.length_cons, List.length_map] at hroom hfew
  omega

theorem not_full_of_kept (hkept : (ofTrace capacity es).Kept f ended after) :
    ¬Full capacity ended after := by
  have hroom := coherent_ofTrace.not_full hkept
  rwa [capacity_ofTrace] at hroom

theorem Coherent.full (h : t.Coherent) (htaken : t.Taken ended after) :
    Full t.capacity ended after := by
  refine ⟨t.finished.map (·.app), h.once, ?_, fun other hother => ?_⟩
  · rw [List.length_map]
    exact Nat.le_of_eq htaken.1.symm
  · obtain ⟨f, hf, rfl⟩ := List.mem_map.1 hother
    exact htaken.2 f hf

/-- A finished application that is not started stays, unless it is pushed out. -/
theorem kept_or_taken (hkept : (ofTrace capacity (ended ++ after)).Kept f ended after)
    (he : ∀ c utilization, e ≠ .start f.app c utilization) :
    (ofTrace capacity (ended ++ after ++ [e])).Kept f ended (after ++ [e]) ∨
      (ofTrace capacity (ended ++ after ++ [e])).Taken ended (after ++ [e]) ∧
        f.app ∉ (ofTrace capacity (ended ++ after ++ [e])).finished.map (·.app) := by
  obtain ⟨before, later, hfinished, hlater⟩ := hkept
  have hmoves := moves_apply (ofTrace capacity (ended ++ after)) e
  rw [← ofTrace_append_singleton] at hmoves
  obtain ⟨later', hbehind, hplace⟩ := coherent_ofTrace.behind_of_moves hmoves he hfinished
  have hlater' : ∀ other, other ∈ later'.map (·.app) ↔
      FinishedSince ended (after ++ [e]) other := by
    intro other
    rw [hbehind, finishedSince_append_singleton, ← hlater, isActive_ofTrace, isActive_ofTrace]
  rcases hplace with ⟨before', hfinished'⟩ | ⟨hfinished', hfull, hgone⟩
  · exact .inl ⟨before', later', hfinished', hlater'⟩
  · unfold Taken
    rw [hfinished', hfull, capacity_ofTrace, capacity_ofTrace]
    exact .inr ⟨⟨rfl, fun g hg => (hlater' g.app).1 (List.mem_map_of_mem hg)⟩, hgone⟩

theorem NeverStarted.gone (h : NeverStarted es app) :
    app ∉ (ofTrace capacity es).finished.map (·.app) := by
  induction es using List.reverseRecOn with
  | nil => exact List.not_mem_nil
  | append_singleton es e ih =>
      have hearlier : NeverStarted es app :=
        fun c utilization hmem => h c utilization (List.mem_append_left [e] hmem)
      rw [ofTrace_append_singleton]
      exact gone_apply (ih hearlier) (mt (isActive_ofTrace _).1 hearlier.not_runs)

/-- At the end of its spell an application is kept if any are kept. -/
theorem kept_or_taken_of_ends (capacity : Nat) (s : Spell app) (hends : s.Ends c) :
    (ofTrace capacity (s.trace ++ [Event.stop app c])).Kept ⟨app, s.rise⟩
        (s.trace ++ [Event.stop app c]) [] ∨
      (ofTrace capacity (s.trace ++ [Event.stop app c])).Taken (s.trace ++ [Event.stop app c]) [] ∧
        app ∉ (ofTrace capacity (s.trace ++ [Event.stop app c])).finished.map (·.app) := by
  obtain ⟨a, ha, hleast, hgreatest⟩ := exists_entry capacity s
  have hspread : a.spread = s.rise := by
    rw [Active.spread, hleast, hgreatest]
    rfl
  have hbefore : (ofTrace capacity s.trace).isActive app = true := isActive_iff.2 ⟨a, ha⟩
  have hafter : ¬(ofTrace capacity (s.trace ++ [Event.stop app c])).isActive app = true :=
    mt (isActive_ofTrace _).1 hends.not_runs
  have hmoves := moves_apply (ofTrace capacity s.trace) (.stop app c)
  rw [← ofTrace_append_singleton] at hmoves
  cases hmoves with
  | stays _ hactive _ =>
      rw [hactive] at hafter
      exact absurd hbefore hafter
  | ends hb _ hfinished =>
      obtain rfl := Option.some.inj (ha.symm.trans hb)
      rw [hspread] at hfinished
      by_cases hroom : 0 < capacity
      · left
        have hplace : 0 < (ofTrace capacity s.trace).capacity := by rwa [capacity_ofTrace]
        obtain ⟨before, hkeep⟩ := exists_keep_eq ⟨app, s.rise⟩ hplace
        refine ⟨before, [], hfinished.trans hkeep, fun other => ?_⟩
        simp only [List.map_nil, List.not_mem_nil, false_iff]
        exact not_finishedSince_nil
      · right
        have hnone : (ofTrace capacity (s.trace ++ [Event.stop app c])).finished = [] := by
          apply List.eq_nil_of_length_eq_zero
          rw [Nat.eq_zero_of_not_pos hroom]
          exact Nat.le_zero.1 length_finished_ofTrace_le
        refine ⟨⟨?_, ?_⟩, ?_⟩
        · rw [hnone, capacity_ofTrace]
          exact (Nat.eq_zero_of_not_pos hroom).symm
        · rw [hnone]
          exact fun f hf => absurd hf List.not_mem_nil
        · rw [hnone]
          exact List.not_mem_nil

/-- After its spell an application is kept until the places are taken by others. -/
theorem kept_or_taken_since (capacity : Nat) (p : Past app) :
    (ofTrace capacity p.trace).Kept ⟨app, p.spell.rise⟩ p.ended p.after ∧
        ¬Crowded capacity p.ended p.after ∨
      (∃ moment, moment <+: p.after ∧
          (ofTrace capacity (p.ended ++ moment)).Taken p.ended moment) ∧
        app ∉ (ofTrace capacity p.trace).finished.map (·.app) := by
  obtain ⟨s, c, after, hends, hunstarted⟩ := p
  unfold Past.trace Past.ended
  dsimp only
  -- on what comes after the spell; `Kept` carries it, for it says who stands behind the application
  -- and so when the queue is full of those
  induction after using List.reverseRecOn with
  | nil =>
      rw [List.append_nil]
      rcases kept_or_taken_of_ends capacity s hends with hkept | ⟨htaken, hgone⟩
      · refine .inl ⟨hkept, ?_⟩
        rintro ⟨moment, hmoment, hfull⟩
        rw [List.prefix_nil.1 hmoment] at hfull
        exact not_full_of_kept hkept hfull
      · refine .inr ⟨⟨[], List.prefix_refl [], ?_⟩, hgone⟩
        rwa [List.append_nil]
  | append_singleton after e ih =>
      have hearlier : NeverStarted after app :=
        fun d utilization hmem => hunstarted d utilization (List.mem_append_left [e] hmem)
      have he : ∀ d utilization, e ≠ .start app d utilization := by
        rintro d utilization rfl
        exact hunstarted d utilization (by simp)
      have hidle : ¬Runs (s.trace ++ [Event.stop app c] ++ after) app := by
        rw [runs_append_of_idle hends.not_runs]
        exact hearlier.not_runs
      rcases ih hearlier with ⟨hkept, hcalm⟩ | ⟨⟨moment, hmoment, htaken⟩, hgone⟩
      · have hstep := kept_or_taken hkept he
        rw [List.append_assoc] at hstep
        rcases hstep with hkept' | ⟨htaken, hgone⟩
        · refine .inl ⟨hkept', ?_⟩
          rw [crowded_append_singleton]
          exact not_or.2 ⟨hcalm, not_full_of_kept hkept'⟩
        · exact .inr ⟨⟨after ++ [e], List.prefix_refl _, htaken⟩, hgone⟩
      · refine .inr ⟨⟨moment, hmoment.trans (List.prefix_append after [e]), htaken⟩, ?_⟩
        rw [← List.append_assoc, ofTrace_append_singleton]
        exact gone_apply hgone (mt (isActive_ofTrace _).1 hidle)

theorem crowded_of_taken {moment : List Event} (hmoment : moment <+: after)
    (htaken : (ofTrace capacity (ended ++ moment)).Taken ended moment) :
    Crowded capacity ended after := by
  have hfull := coherent_ofTrace.full htaken
  rw [capacity_ofTrace] at hfull
  exact ⟨moment, hmoment, hfull⟩

/-- A finished application is dropped when as many as are kept have finished since, and these are
then kept in its place. -/
theorem crowded_iff_taken (p : Past app) : Crowded capacity p.ended p.after ↔
    ∃ moment, moment <+: p.after ∧
      (ofTrace capacity (p.ended ++ moment)).Taken p.ended moment := by
  constructor
  · intro hcrowded
    rcases kept_or_taken_since capacity p with ⟨_, hcalm⟩ | ⟨htaken, _⟩
    · exact absurd hcrowded hcalm
    · exact htaken
  · rintro ⟨moment, hmoment, htaken⟩
    exact crowded_of_taken hmoment htaken

/-- After its spell an application is kept until others crowd it out. -/
theorem kept_of_not_crowded (p : Past app) (hcalm : ¬Crowded capacity p.ended p.after) :
    (ofTrace capacity p.trace).Kept ⟨app, p.spell.rise⟩ p.ended p.after := by
  rcases kept_or_taken_since capacity p with ⟨hkept, _⟩ | ⟨htaken, _⟩
  · exact hkept
  · exact absurd ((crowded_iff_taken p).2 htaken) hcalm

theorem gone_of_crowded (p : Past app) (hcrowded : Crowded capacity p.ended p.after) :
    app ∉ (ofTrace capacity p.trace).finished.map (·.app) := by
  rcases kept_or_taken_since capacity p with ⟨_, hcalm⟩ | ⟨_, hgone⟩
  · exact absurd hcrowded hcalm
  · exact hgone

/-! ## The estimate -/

theorem utilization_of_estimate {x : Nat} (h : Estimate capacity app es x) :
    (ofTrace capacity es).utilization app = x := by
  cases h with
  | unknown hnever =>
      exact utilization_of_unknown (mt (isActive_ofTrace _).1 hnever.not_runs)
        (NeverStarted.gone hnever)
  | running s hnodup hmem => exact utilization_of_spell s hnodup hmem
  | kept p hcalm =>
      exact coherent_ofTrace.utilization_of_mem (kept_of_not_crowded p hcalm).mem
  | dropped p hcrowded =>
      exact utilization_of_unknown (mt (isActive_ofTrace _).1 p.not_runs)
        (gone_of_crowded p hcrowded)

theorem exists_estimate (capacity : Nat) (es : List Event) (app : App) :
    ∃ x, Estimate capacity app es x := by
  rcases exists_standing es app with hnever | ⟨s, rfl⟩ | ⟨p, rfl⟩
  · exact ⟨0, .unknown hnever⟩
  · obtain ⟨a, ha, _⟩ := exists_entry capacity s
    refine ⟨_, .running s (nodup_toList a.containers) fun c => ?_⟩
    rw [Std.ExtTreeSet.mem_toList, ← s.watched_trace, ← holds_ofTrace capacity, ha, holds_some]
  · by_cases hcrowded : Crowded capacity p.ended p.after
    · exact ⟨0, .dropped p hcrowded⟩
    · exact ⟨p.spell.rise, .kept p hcrowded⟩

theorem mem_finished_iff : app ∈ (ofTrace capacity es).finished.map (·.app) ↔
    ∃ p : Past app, p.trace = es ∧ ¬Crowded capacity p.ended p.after := by
  constructor
  · intro hmem
    rcases exists_standing es app with hnever | ⟨s, rfl⟩ | ⟨p, rfl⟩
    · exact absurd hmem (NeverStarted.gone hnever)
    · have hactive := (isActive_ofTrace capacity).2 s.runs_trace
      exact absurd hmem (coherent_ofTrace.not_mem_finished hactive)
    · exact ⟨p, rfl, fun hcrowded => gone_of_crowded p hcrowded hmem⟩
  · rintro ⟨p, rfl, hcalm⟩
    exact List.mem_map_of_mem (kept_of_not_crowded p hcalm).mem

end Tally

/-! ## Events of other applications -/

/-- The event starts or stops the application, or tells of the utilization of its device. -/
def Event.concerns (app : App) : Event → Bool
  | .start k _ _ | .stop k _ => k = app
  | .see _ => true
  | .seeOn device _ => app.device = device

/-- What is left of a trace without the other applications and the other devices. -/
def own (app : App) (es : List Event) : List Event :=
  es.filter (Event.concerns app)

theorem own_append_of_concerns (he : e.concerns app = true) :
    own app (es ++ [e]) = own app es ++ [e] := by
  rw [own, List.filter_append, List.filter_singleton, he, own]
  rfl

theorem own_append_of_not_concerns (he : ¬e.concerns app = true) :
    own app (es ++ [e]) = own app es := by
  rw [own, List.filter_append, List.filter_singleton, eq_false_of_ne_true he, own]
  exact List.append_nil _

theorem next_of_not_concerns {entry : Option Active} (he : ¬e.concerns app = true) :
    app.next entry e = entry := by
  cases e <;> simp_all [Event.concerns, App.next]

theorem NeverStarted.own (h : NeverStarted es app) : NeverStarted (own app es) app :=
  fun c utilization hmem => h c utilization (List.mem_filter.1 hmem).1

namespace Tally

/-- The entry of an application depends on the events that concern it. -/
theorem getElem?_active_own :
    (ofTrace capacity (own app es)).active[app]? = (ofTrace capacity es).active[app]? := by
  induction es using List.reverseRecOn with
  | nil => rfl
  | append_singleton es e ih =>
      rw [ofTrace_append_singleton, getElem?_active_apply, ← ih]
      by_cases he : e.concerns app = true
      · rw [own_append_of_concerns he, ofTrace_append_singleton, getElem?_active_apply]
      · rw [own_append_of_not_concerns he, next_of_not_concerns he]

theorem isActive_own :
    (ofTrace capacity (own app es)).isActive app = (ofTrace capacity es).isActive app := by
  rw [Bool.eq_iff_iff, isActive_iff, isActive_iff, getElem?_active_own]

/-- A finished application stays on whatever concerns it, unless it is started. -/
theorem Coherent.mem_finished_apply_of_concerns (h : t.Coherent) (hf : f ∈ t.finished)
    (he : e.concerns f.app = true) (hidle : ¬(t.apply e).isActive f.app = true) :
    f ∈ (t.apply e).finished := by
  cases moves_apply t e with
  | starts hactive _ =>
      obtain rfl := of_decide_eq_true he
      exact absurd ((hactive _).2 (.inl rfl)) hidle
  | ends ha _ _ =>
      obtain rfl := of_decide_eq_true he
      exact absurd (isActive_iff.2 ⟨_, ha⟩) (h.apart f hf)
  | stays _ _ hfinished => rwa [hfinished]

/-- An application that ends comes in with its spread if there is room. -/
theorem mem_finished_apply_stop (ha : t.active[app]? = some a) (hroom : 0 < t.capacity)
    (hidle : ¬(t.apply (.stop app c)).isActive app = true) :
    ⟨app, a.spread⟩ ∈ (t.apply (.stop app c)).finished := by
  cases moves_apply t (.stop app c) with
  | stays _ hactive _ =>
      rw [hactive] at hidle
      exact absurd (isActive_iff.2 ⟨a, ha⟩) hidle
  | ends hb _ hfinished =>
      obtain rfl := Option.some.inj (ha.symm.trans hb)
      obtain ⟨before, hkeep⟩ := exists_keep_eq ⟨app, a.spread⟩ hroom
      rw [hfinished, hkeep]
      exact List.mem_append_right before List.mem_cons_self

/-- An application that is kept is kept with the same spread without the others. -/
theorem mem_finished_own (hf : f ∈ (ofTrace capacity es).finished) :
    f ∈ (ofTrace capacity (own f.app es)).finished := by
  induction es using List.reverseRecOn with
  | nil => exact hf
  | append_singleton es e ih =>
      have hroom : 0 < capacity :=
        Nat.lt_of_lt_of_le (List.length_pos_of_mem hf) length_finished_ofTrace_le
      have hidle := coherent_ofTrace.apart f hf
      rw [← isActive_own] at hidle
      rw [ofTrace_append_singleton] at hf
      -- it was kept before the event, or it is the event that ends it
      by_cases he : e.concerns f.app = true
      · rw [own_append_of_concerns he, ofTrace_append_singleton] at hidle ⊢
        rcases mem_finished_apply hf with hf' | ⟨c, a, rfl, ha, hspread⟩
        · exact coherent_ofTrace.mem_finished_apply_of_concerns (ih hf') he hidle
        · rw [hspread]
          apply mem_finished_apply_stop _ _ hidle
          · rw [getElem?_active_own, ha]
          · rwa [capacity_ofTrace]
      · rw [own_append_of_not_concerns he]
        rcases mem_finished_apply hf with hf' | ⟨c, a, rfl, _, _⟩
        · exact ih hf'
        · exact absurd (decide_eq_true rfl) he

/-- Other applications change what is told of one only by crowding it out. -/
theorem utilization_own_or_crowded :
    (ofTrace capacity (own app es)).utilization app = (ofTrace capacity es).utilization app ∨
      ∃ p : Past app, p.trace = es ∧ Crowded capacity p.ended p.after := by
  rcases exists_standing es app with hnever | ⟨s, rfl⟩ | ⟨p, rfl⟩
  · left
    rw [utilization_of_estimate (.unknown hnever), utilization_of_estimate (.unknown hnever.own)]
  · left
    obtain ⟨a, ha, _⟩ := exists_entry capacity s
    rw [utilization_of_active ha, utilization_of_active (getElem?_active_own.trans ha)]
  · by_cases hcrowded : Crowded capacity p.ended p.after
    · exact .inr ⟨p, rfl, hcrowded⟩
    · left
      have hmem := (kept_of_not_crowded p hcrowded).mem
      have htold := coherent_ofTrace.utilization_of_mem hmem
      have hown := coherent_ofTrace.utilization_of_mem (mem_finished_own hmem)
      exact hown.trans htold.symm

/-! ## All of it -/

/-- **The estimate follows the trace.** What is told of an application depends on its own events,
and on others only when they crowd it out. -/
theorem estimate_follows_trace (capacity : Nat) (es : List Event) (app : App) :
    let t := ofTrace capacity es
    (t.isActive app = true ↔ Runs es app) ∧
      (∀ x, t.utilization app = x ↔ Estimate capacity app es x) ∧
      (app ∈ t.finished.map (·.app) ↔
        ∃ p : Past app, p.trace = es ∧ ¬Crowded capacity p.ended p.after) ∧
      (∀ p : Past app, Crowded capacity p.ended p.after ↔ ∃ moment, moment <+: p.after ∧
        (ofTrace capacity (p.ended ++ moment)).Taken p.ended moment) ∧
      (ofTrace capacity (own app es)).isActive app = t.isActive app ∧
      ((ofTrace capacity (own app es)).utilization app = t.utilization app ∨
        ∃ p : Past app, p.trace = es ∧ Crowded capacity p.ended p.after) := by
  refine ⟨isActive_ofTrace capacity, fun x => ⟨?_, utilization_of_estimate⟩, mem_finished_iff,
    crowded_iff_taken, isActive_own, utilization_own_or_crowded⟩
  rintro rfl
  obtain ⟨x, hx⟩ := exists_estimate capacity es app
  rwa [utilization_of_estimate hx]

end Tally

end Allotment.Usage
