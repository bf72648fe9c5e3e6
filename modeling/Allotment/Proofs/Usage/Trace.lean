import Mathlib.Data.List.Induction
import Allotment.Usage.Tally

/-!
# Traces

A trace is the list of all that a tally has been told, the oldest first. What there is to know about
an application can be read off it: which containers are watched, when the application has come up,
how high the utilization has gone since, and which applications have finished after it. Nothing here
says how a tally keeps this.
-/

namespace Allotment.Usage

/-- What a tally is told. -/
inductive Event where
  | start (app : App) (container : String) (utilization : Nat)
  | stop (app : App) (container : String)
  | see (utilization : Nat)
  | seeOn (device utilization : Nat)

variable {app : App} {container c : String} {before es : List Event} {e : Event}

/-! ## Watched containers -/

/-- The container has been started, and has not been stopped since. -/
def Watched (es : List Event) (app : App) (container : String) : Prop :=
  ∃ before utilization after, es = before ++ .start app container utilization :: after ∧
    .stop app container ∉ after

/-- A container of the application is watched. -/
def Runs (es : List Event) (app : App) : Prop :=
  ∃ container, Watched es app container

def NeverStarted (es : List Event) (app : App) : Prop :=
  ∀ container utilization, .start app container utilization ∉ es

theorem not_watched_nil : ¬Watched [] app c := by
  rintro ⟨before, utilization, after, hes, _⟩
  simp at hes

/-- What one more event does to a container. -/
theorem watched_append_singleton :
    Watched (es ++ [e]) app c ↔
      (∃ utilization, e = .start app c utilization) ∨ Watched es app c ∧ e ≠ .stop app c := by
  constructor
  · rintro ⟨before, utilization, after, hes, hafter⟩
    rcases List.eq_nil_or_concat after with rfl | ⟨after, last, rfl⟩
    · obtain ⟨_, hlast⟩ := List.append_inj' hes rfl
      exact .inl ⟨utilization, List.head_eq_of_cons_eq hlast⟩
    · rw [List.concat_eq_append] at hes hafter
      have hsplit : es ++ [e] = (before ++ .start app c utilization :: after) ++ [last] := by
        rw [hes, List.append_assoc, List.cons_append]
      obtain ⟨hearlier, hlast⟩ := List.append_inj' hsplit rfl
      obtain rfl := List.head_eq_of_cons_eq hlast
      obtain ⟨hafter, hne⟩ := not_or.1 (mt List.mem_append.2 hafter)
      refine .inr ⟨⟨before, utilization, after, hearlier, hafter⟩, ?_⟩
      rintro rfl
      exact hne List.mem_cons_self
  · rintro (⟨utilization, rfl⟩ | ⟨⟨before, utilization, after, rfl, hafter⟩, hne⟩)
    · exact ⟨es, utilization, [], rfl, List.not_mem_nil⟩
    · refine ⟨before, utilization, after ++ [e], by simp, ?_⟩
      simp [hafter, Ne.symm hne]

theorem watched_append : Watched (before ++ es) app c ↔
    Watched es app c ∨ Watched before app c ∧ .stop app c ∉ es := by
  induction es using List.reverseRecOn with
  | nil => simp [not_watched_nil]
  | append_singleton es e ih =>
      rw [← List.append_assoc, watched_append_singleton, watched_append_singleton, ih,
        List.mem_append, List.mem_singleton, or_and_right, and_assoc, or_assoc, not_or, ne_comm]

/-- Of a trace that goes on from where the application did not run, only the rest counts. -/
theorem watched_append_of_idle (hidle : ¬Runs before app) :
    Watched (before ++ es) app c ↔ Watched es app c := by
  rw [watched_append]
  exact or_iff_left fun h => hidle ⟨c, h.1⟩

theorem runs_append_of_idle (hidle : ¬Runs before app) : Runs (before ++ es) app ↔ Runs es app :=
  exists_congr fun _ => watched_append_of_idle hidle

theorem NeverStarted.not_runs (h : NeverStarted es app) : ¬Runs es app := by
  rintro ⟨c, before, utilization, after, rfl, _⟩
  exact h c utilization (by simp)

theorem runs_start {utilization : Nat} : Runs (es ++ [Event.start app c utilization]) app :=
  ⟨c, watched_append_singleton.2 (.inl ⟨utilization, rfl⟩)⟩

/-- Only a stop brings an application down. -/
theorem exists_eq_stop_of_not_runs (hruns : Runs es app) (hidle : ¬Runs (es ++ [e]) app) :
    ∃ c, e = .stop app c := by
  obtain ⟨c, hc⟩ := hruns
  by_contra hstop
  exact hidle ⟨c, watched_append_singleton.2 (.inr ⟨hc, fun h => hstop ⟨c, h⟩⟩)⟩

theorem neverStarted_append_singleton (h : NeverStarted es app)
    (he : ∀ c utilization, e ≠ .start app c utilization) : NeverStarted (es ++ [e]) app := by
  intro c utilization hmem
  rcases List.mem_append.1 hmem with hmem | hmem
  · exact h c utilization hmem
  · exact he c utilization (List.mem_singleton.1 hmem).symm

/-! ## Spells -/

/-- The utilization that is seen on a device. -/
def Event.seenOn? (device : Nat) : Event → Option Nat
  | .see utilization => some utilization
  | .seeOn d utilization => if d = device then some utilization else none
  | .start _ _ _ | .stop _ _ => none

/-- A time during which an application runs. It begins when a container is started while none is
watched, and since then there has always been one. -/
structure Spell (app : App) where
  before : List Event
  container : String
  utilization : Nat
  since : List Event
  idle : ¬Runs before app
  runs : ∀ moment, moment <+: since → Runs (.start app container utilization :: moment) app

namespace Spell

/-- The trace from the beginning of the spell on. -/
def window (s : Spell app) : List Event :=
  .start app s.container s.utilization :: s.since

def trace (s : Spell app) : List Event :=
  s.before ++ s.window

/-- The greatest utilization of the device, from that at which the spell has begun on. -/
def peak (s : Spell app) : Nat :=
  (s.since.filterMap (Event.seenOn? app.device)).foldl max s.utilization

/-- How far the utilization has risen since the spell has begun. -/
def rise (s : Spell app) : Nat :=
  s.peak - s.utilization

/-- The spell ends when the container is stopped. -/
def Ends (s : Spell app) (container : String) : Prop :=
  ¬Runs (s.window ++ [.stop app container]) app

theorem runs_trace (s : Spell app) : Runs s.trace app :=
  (runs_append_of_idle s.idle).2 (s.runs s.since (List.prefix_refl s.since))

theorem watched_trace (s : Spell app) : Watched s.trace app c ↔ Watched s.window app c :=
  watched_append_of_idle s.idle

theorem Ends.not_runs {s : Spell app} (h : s.Ends container) :
    ¬Runs (s.trace ++ [Event.stop app container]) app := by
  rw [trace, List.append_assoc, runs_append_of_idle s.idle]
  exact h

/-- The spell that a start begins. -/
def begin (before : List Event) (container : String) (utilization : Nat) (idle : ¬Runs before app) :
    Spell app where
  before := before
  container := container
  utilization := utilization
  since := []
  idle := idle
  runs moment hmoment := by
    rw [List.prefix_nil.1 hmoment]
    change Runs ([] ++ [.start app container utilization]) app
    exact runs_start

/-- The spell goes on. -/
def extend (s : Spell app) (e : Event) (runs : Runs (s.window ++ [e]) app) : Spell app where
  before := s.before
  container := s.container
  utilization := s.utilization
  since := s.since ++ [e]
  idle := s.idle
  runs moment hmoment := by
    rcases List.prefix_concat_iff.1 hmoment with rfl | hmoment
    · exact runs
    · exact s.runs moment hmoment

end Spell

/-- The application has had a spell that has ended, and has not been started since. -/
structure Past (app : App) where
  spell : Spell app
  container : String
  after : List Event
  ends : spell.Ends container
  unstarted : NeverStarted after app

namespace Past

/-- The trace up to the end of the spell. -/
def ended (p : Past app) : List Event :=
  p.spell.trace ++ [.stop app p.container]

def trace (p : Past app) : List Event :=
  p.ended ++ p.after

theorem not_runs (p : Past app) : ¬Runs p.trace app := by
  have hended : ¬Runs p.ended app := p.ends.not_runs
  rw [trace, runs_append_of_idle hended]
  exact p.unstarted.not_runs

end Past

/-- An application has never been started, runs, or has run. -/
theorem exists_standing (es : List Event) (app : App) :
    NeverStarted es app ∨ (∃ s : Spell app, s.trace = es) ∨ ∃ p : Past app, p.trace = es := by
  induction es using List.reverseRecOn with
  | nil => exact .inl fun _ _ => List.not_mem_nil
  | append_singleton es e ih =>
      by_cases hruns : Runs es app
      · -- the spell goes on, or the event ends it
        obtain ⟨s, rfl⟩ : ∃ s : Spell app, s.trace = es := by
          rcases ih with hnever | hspell | ⟨p, rfl⟩
          · exact absurd hruns hnever.not_runs
          · exact hspell
          · exact absurd hruns p.not_runs
        by_cases hnext : Runs (s.window ++ [e]) app
        · refine .inr (.inl ⟨s.extend e hnext, ?_⟩)
          simp [Spell.trace, Spell.window, Spell.extend]
        · have hidle : ¬Runs (s.trace ++ [e]) app := by
            rwa [Spell.trace, List.append_assoc, runs_append_of_idle s.idle]
          obtain ⟨c, rfl⟩ := exists_eq_stop_of_not_runs hruns hidle
          refine .inr (.inr ⟨⟨s, c, [], hnext, fun _ _ => List.not_mem_nil⟩, ?_⟩)
          exact List.append_nil _
      · by_cases hstart : ∃ c utilization, e = .start app c utilization
        · obtain ⟨c, utilization, rfl⟩ := hstart
          exact .inr (.inl ⟨.begin es c utilization hruns, rfl⟩)
        · have he : ∀ c utilization, e ≠ .start app c utilization :=
            fun c utilization h => hstart ⟨c, utilization, h⟩
          rcases ih with hnever | ⟨s, rfl⟩ | ⟨p, rfl⟩
          · exact .inl (neverStarted_append_singleton hnever he)
          · exact absurd s.runs_trace hruns
          · refine .inr (.inr ⟨{ p with
              after := p.after ++ [e]
              unstarted := neverStarted_append_singleton p.unstarted he }, ?_⟩)
            simp [Past.trace, Past.ended]

/-! ## Who has finished later -/

variable {ended after : List Event} {capacity : Nat}

/-- After `ended` the application has still run, or run again, and does not run any more. -/
def FinishedSince (ended after : List Event) (app : App) : Prop :=
  ¬Runs (ended ++ after) app ∧ ∃ moment, moment <+: after ∧ Runs (ended ++ moment) app

/-- As many applications as can be kept have finished since. -/
def Full (capacity : Nat) (ended after : List Event) : Prop :=
  ∃ others : List App, others.Nodup ∧ capacity ≤ others.length ∧
    ∀ other ∈ others, FinishedSince ended after other

/-- At some moment as many applications as can be kept have finished since. -/
def Crowded (capacity : Nat) (ended after : List Event) : Prop :=
  ∃ moment, moment <+: after ∧ Full capacity ended moment

theorem not_finishedSince_nil : ¬FinishedSince ended [] app := by
  rintro ⟨hidle, moment, hmoment, hruns⟩
  rw [List.prefix_nil.1 hmoment] at hruns
  exact hidle hruns

theorem finishedSince_append_singleton : FinishedSince ended (after ++ [e]) app ↔
    ¬Runs (ended ++ after ++ [e]) app ∧
      (Runs (ended ++ after) app ∨ FinishedSince ended after app) := by
  unfold FinishedSince
  rw [← List.append_assoc]
  refine and_congr_right fun hidle => ?_
  constructor
  · rintro ⟨moment, hmoment, hruns⟩
    rcases List.prefix_concat_iff.1 hmoment with rfl | hmoment
    · rw [← List.append_assoc] at hruns
      exact absurd hruns hidle
    · exact (em (Runs (ended ++ after) app)).imp_right fun h => ⟨h, moment, hmoment, hruns⟩
  · rintro (hruns | ⟨_, moment, hmoment, hruns⟩)
    · exact ⟨after, List.prefix_append after [e], hruns⟩
    · exact ⟨moment, hmoment.trans (List.prefix_append after [e]), hruns⟩

theorem crowded_append_singleton : Crowded capacity ended (after ++ [e]) ↔
    Crowded capacity ended after ∨ Full capacity ended (after ++ [e]) := by
  constructor
  · rintro ⟨moment, hmoment, hfull⟩
    rcases List.prefix_concat_iff.1 hmoment with rfl | hmoment
    · exact .inr hfull
    · exact .inl ⟨moment, hmoment, hfull⟩
  · rintro (⟨moment, hmoment, hfull⟩ | hfull)
    · exact ⟨moment, hmoment.trans (List.prefix_append after [e]), hfull⟩
    · exact ⟨after ++ [e], List.prefix_refl _, hfull⟩

end Allotment.Usage
