import Mathlib.Data.List.Infix
import Mathlib.Data.String.Basic
import Allotment.Proofs.Usage.Estimate

/-!
# What a tally lists

The queue of finished applications is in the order in which they have finished, nobody is listed
twice, and the list says of each application what the questions about it are answered with.
-/

namespace Allotment.Usage

variable {app : App} {t : Tally} {f g : Finished} {es : List Event} {capacity : Nat}

/-! ## The order of the queue -/

/-- The last spell of the one has ended before the last one of the other. -/
def FinishedBefore (es : List Event) (app other : App) : Prop :=
  ∃ p : Past app, p.trace = es ∧ FinishedSince p.ended p.after other

/-- At the latest when its last spell ends, an application has run for the last time. -/
theorem Past.length_lt_of_runs (p : Past app) {moment : List Event} (hmoment : moment <+: p.trace)
    (hruns : Runs moment app) : moment.length < p.ended.length := by
  by_contra hlong
  obtain ⟨rest, rfl⟩ : p.ended <+: moment :=
    List.prefix_of_prefix_length_le (List.prefix_append p.ended p.after) hmoment
      (Nat.le_of_not_lt hlong)
  have hrest : rest <+: p.after := (List.prefix_append_right_inj p.ended).1 hmoment
  have hunstarted : NeverStarted rest app :=
    fun c utilization hmem => p.unstarted c utilization (hrest.subset hmem)
  exact hunstarted.not_runs ((runs_append_of_idle p.ends.not_runs).1 hruns)

theorem FinishedBefore.asymm {other : App} (h : FinishedBefore es app other) :
    ¬FinishedBefore es other app := by
  obtain ⟨p, rfl, _, moment, hmoment, hruns⟩ := h
  rintro ⟨q, hq, _, moment', hmoment', hruns'⟩
  have hother : p.ended ++ moment <+: q.trace := by
    rw [hq]
    exact (List.prefix_append_right_inj p.ended).2 hmoment
  have happ : q.ended ++ moment' <+: p.trace := by
    rw [← hq]
    exact (List.prefix_append_right_inj q.ended).2 hmoment'
  have hbefore := q.length_lt_of_runs hother hruns
  have hafter := p.length_lt_of_runs happ hruns'
  rw [List.length_append] at hbefore hafter
  omega

namespace Tally

/-- Whoever stands behind a finished application has finished after it. -/
theorem finishedBefore_of_eq_append {before later : List Finished}
    (hfinished : (ofTrace capacity es).finished = before ++ f :: later) (hg : g ∈ later) :
    FinishedBefore es f.app g.app := by
  have hf : f ∈ (ofTrace capacity es).finished := by
    rw [hfinished]
    exact List.mem_append_right before List.mem_cons_self
  obtain ⟨p, rfl, hcalm⟩ := mem_finished_iff.1 (List.mem_map_of_mem hf)
  have hkept := kept_of_not_crowded p hcalm
  have honce : ((ofTrace capacity p.trace).finished.map (·.app)).Nodup := coherent_ofTrace.once
  have hsame : f = ⟨f.app, p.spell.rise⟩ := List.inj_on_of_nodup_map honce hf hkept.mem rfl
  rw [← hsame] at hkept
  obtain ⟨before', later', hsplit, hlater⟩ := hkept
  -- the queue splits at it in one way, so the same stand behind it
  have hnot : f ∉ before' ∧ f ∉ later' := by
    have hnodup := honce.of_map
    rw [hsplit, List.nodup_middle, List.nodup_cons] at hnodup
    exact not_or.1 (mt List.mem_append.2 hnodup.1)
  rw [hfinished] at hsplit
  obtain ⟨_, _, rfl⟩ := (List.append_cons_inj_of_notMem hnot.1 hnot.2).1 hsplit.symm
  exact ⟨p, rfl, (hlater g.app).1 (List.mem_map_of_mem hg)⟩

theorem pairwise_finished :
    (ofTrace capacity es).finished.Pairwise fun f g => FinishedBefore es f.app g.app := by
  have hsuffix : ∀ rest, rest <:+ (ofTrace capacity es).finished →
      rest.Pairwise fun f g => FinishedBefore es f.app g.app := by
    intro rest
    induction rest with
    | nil => exact fun _ => .nil
    | cons f rest ih =>
        intro hrest
        refine List.pairwise_cons.2 ⟨fun g hg => ?_, ih ((List.suffix_cons f rest).trans hrest)⟩
        obtain ⟨before, hfinished⟩ := hrest
        exact finishedBefore_of_eq_append hfinished.symm hg
  exact hsuffix _ (List.suffix_refl _)

end Tally

/-! ## The list -/

theorem App.compare_eq_lt {a b : App} : a.compare b = .lt ↔
    a.device < b.device ∨ a.device = b.device ∧ a.name < b.name := by
  rw [App.compare, compareLex, Ordering.then_eq_lt, compareOn, compareOn, Nat.compare_eq_lt,
    Nat.compare_eq_eq, compare_lt_iff_lt]

/-- The application of a line. -/
def App.ofUsage (u : AppUsage) : App :=
  ⟨u.device, u.application⟩

namespace Tally

theorem map_ofUsage_history : t.history.map App.ofUsage =
    t.active.toList.map Prod.fst ++ t.finished.map (·.app) := by
  rw [history, List.map_append, List.map_map, List.map_map]
  rfl

theorem mem_keys_iff : app ∈ t.active.toList.map Prod.fst ↔ t.isActive app = true := by
  rw [isActive_iff]
  constructor
  · intro hmem
    obtain ⟨⟨k, a⟩, hk, rfl⟩ := List.mem_map.1 hmem
    exact ⟨a, Std.ExtTreeMap.mem_toList_iff_getElem?_eq_some.1 hk⟩
  · rintro ⟨a, ha⟩
    exact List.mem_map.2 ⟨(app, a), Std.ExtTreeMap.mem_toList_iff_getElem?_eq_some.2 ha, rfl⟩

theorem pairwise_keys :
    (t.active.toList.map Prod.fst).Pairwise fun a b => App.compare a b = .lt := by
  rw [List.pairwise_map]
  exact Std.ExtTreeMap.ordered_keys_toList

theorem Coherent.nodup_history (h : t.Coherent) : (t.history.map App.ofUsage).Nodup := by
  rw [map_ofUsage_history, List.nodup_append']
  refine ⟨?_, h.once, ?_⟩
  · apply pairwise_keys.imp
    rintro a b hlt rfl
    have heq : App.compare a a = .eq := Std.ReflCmp.compare_self
    simp [heq] at hlt
  · intro app hactive hfinished
    exact h.not_mem_finished (mem_keys_iff.1 hactive) hfinished

theorem mem_history_iff : app ∈ t.history.map App.ofUsage ↔
    t.isActive app = true ∨ app ∈ t.finished.map (·.app) := by
  rw [map_ofUsage_history, List.mem_append, mem_keys_iff]

/-- A line agrees with what the questions about its application are answered with. -/
theorem Coherent.agrees_of_mem_history (h : t.Coherent) {u : AppUsage} (hu : u ∈ t.history) :
    u.utilization = t.utilization (.ofUsage u) ∧
      (0 < u.containers ↔ t.isActive (.ofUsage u) = true) := by
  rcases List.mem_append.1 hu with hu | hu
  · obtain ⟨⟨app, a⟩, hmem, rfl⟩ := List.mem_map.1 hu
    have ha : t.active[app]? = some a := Std.ExtTreeMap.mem_toList_iff_getElem?_eq_some.1 hmem
    refine ⟨(utilization_of_active ha).symm, iff_of_true ?_ (isActive_iff.2 ⟨a, ha⟩)⟩
    obtain ⟨c, hc⟩ := (h.sound app a ha).populated
    change 0 < a.containers.size
    rw [← Std.ExtTreeSet.length_toList]
    exact List.length_pos_of_mem (Std.ExtTreeSet.mem_toList.2 hc)
  · obtain ⟨f, hf, rfl⟩ := List.mem_map.1 hu
    exact ⟨(h.utilization_of_mem hf).symm, iff_of_false (Nat.lt_irrefl 0) (h.apart f hf)⟩

/-- **The history lists everyone who is known once**: the active ones by device and name, then the
finished ones, the oldest first, as the questions tell of them. -/
theorem history_lists_known (capacity : Nat) (es : List Event) :
    let t := ofTrace capacity es
    (∀ (app : App) (a : Active), t.active[app]? = some a →
        (∃ c, c ∈ a.containers) ∧ a.least ≤ a.greatest) ∧
      t.finished.length ≤ capacity ∧
      t.finished.Pairwise (fun f g =>
        FinishedBefore es f.app g.app ∧ ¬FinishedBefore es g.app f.app) ∧
      (t.finished.map (·.app)).Nodup ∧
      (∀ f ∈ t.finished, ¬t.isActive f.app = true) ∧
      (t.history.map App.ofUsage).Nodup ∧
      (∀ app, app ∈ t.history.map App.ofUsage ↔
        t.isActive app = true ∨ app ∈ t.finished.map (·.app)) ∧
      (∃ up down, t.history = up ++ down ∧
        (∀ u ∈ up, t.isActive (.ofUsage u) = true) ∧
        (up.Pairwise fun u v =>
          u.device < v.device ∨ u.device = v.device ∧ u.application < v.application) ∧
        down.map App.ofUsage = t.finished.map (·.app)) ∧
      ∀ u ∈ t.history, u.utilization = t.utilization (.ofUsage u) ∧
        (0 < u.containers ↔ t.isActive (.ofUsage u) = true) := by
  intro t
  have hcoherent : t.Coherent := coherent_ofTrace
  refine ⟨fun app a ha => ?_, length_finished_ofTrace_le,
    pairwise_finished.imp fun hbefore => ⟨hbefore, hbefore.asymm⟩, hcoherent.once,
    hcoherent.apart, hcoherent.nodup_history, fun _ => mem_history_iff, ⟨_, _, rfl, ?_, ?_, ?_⟩,
    fun _ => hcoherent.agrees_of_mem_history⟩
  · obtain ⟨hpopulated, hordered⟩ := hcoherent.sound app a ha
    exact ⟨hpopulated, hordered⟩
  · intro u hu
    obtain ⟨⟨app, a⟩, hmem, rfl⟩ := List.mem_map.1 hu
    exact mem_keys_iff.1 (List.mem_map.2 ⟨(app, a), hmem, rfl⟩)
  · rw [List.pairwise_map]
    apply Std.ExtTreeMap.ordered_keys_toList.imp
    intro x y hlt
    exact App.compare_eq_lt.1 hlt
  · rw [List.map_map]
    rfl

end Tally

end Allotment.Usage
