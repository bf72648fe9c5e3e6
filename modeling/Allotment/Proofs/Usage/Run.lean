import Allotment.Proofs.Usage.Entry

/-!
# Runs of a tally

An event changes the finished applications in one of three ways: one of them starts again, one more
comes in at the end and the oldest may go, or they stay. From this, and from what it does to the
entries, follows what every run keeps: entries with containers, a bounded number of finished
applications, and nobody in two places.
-/

namespace Allotment.Usage

variable {app other : App} {c : String} {e : Event} {t : Tally} {es : List Event} {capacity : Nat}
  {f : Finished}

/-! ## Finished applications -/

namespace Tally

/-- The finished applications that are kept when one more comes in. -/
def keep (t : Tally) (f : Finished) : List Finished :=
  (t.finished ++ [f]).drop ((t.finished ++ [f]).length - t.capacity)

/-- What an event does to the finished applications: one of them starts again, one more comes in, or
they stay. -/
inductive Moves (t : Tally) : Event → Tally → Prop where
  | starts {app : App} {c : String} {utilization : Nat} {t' : Tally} :
      (∀ other, t'.isActive other = true ↔ app = other ∨ t.isActive other = true) →
      t'.finished = t.finished.filter (fun f => f.app ≠ app) →
      Moves t (.start app c utilization) t'
  | ends {app : App} {c : String} {a : Active} {t' : Tally} :
      t.active[app]? = some a →
      (∀ other, t'.isActive other = true ↔ app ≠ other ∧ t.isActive other = true) →
      t'.finished = t.keep ⟨app, a.spread⟩ →
      Moves t (.stop app c) t'
  | stays {e : Event} {t' : Tally} :
      (∀ app c utilization, e ≠ .start app c utilization) →
      (∀ other, t'.isActive other = t.isActive other) →
      t'.finished = t.finished →
      Moves t e t'

theorem isActive_iff : t.isActive app = true ↔ ∃ a, t.active[app]? = some a := by
  rw [isActive, Std.ExtTreeMap.contains_eq_isSome_getElem?, Option.isSome_iff_exists]

theorem moves_apply (t : Tally) (e : Event) : t.Moves e (t.apply e) := by
  cases e with
  | start k c utilization => exact .starts (fun _ => isActive_start) rfl
  | stop k c =>
      rcases t.stop?_cases k c with ⟨hstop, _⟩ | ⟨a, ha, _, hlast⟩
      · have hsame : t.apply (.stop k c) = t := by simp [apply, hstop]
        rw [hsame]
        exact .stays (by simp) (fun _ => rfl) rfl
      · rcases hlast with ⟨_, hstop⟩ | ⟨_, hstop⟩
        · simp only [apply, hstop, Option.getD_some]
          refine .stays (by simp) (fun other => ?_) rfl
          have hk : t.active.contains k = true := isActive_iff.2 ⟨a, ha⟩
          by_cases hother : k = other
          · subst hother
            simp [isActive, hk]
          · simp [isActive, Std.ExtTreeMap.contains_insert, hother]
        · simp only [apply, hstop, Option.getD_some]
          exact .ends ha (fun _ => isActive_finish) rfl
  | see utilization => exact .stays (by simp) (fun _ => isActive_see) rfl
  | seeOn device utilization => exact .stays (by simp) (fun _ => isActive_seeOn) rfl

theorem capacity_apply (t : Tally) (e : Event) : (t.apply e).capacity = t.capacity := by
  cases e with
  | stop k c =>
      rcases t.stop?_cases k c with ⟨hstop, _⟩ | ⟨a, _, _, ⟨_, hstop⟩ | ⟨_, hstop⟩⟩
      · simp [apply, hstop]
      · simp [apply, hstop]
      · simp [apply, hstop, finish]
  | start k c utilization => rfl
  | see utilization => rfl
  | seeOn device utilization => rfl

/-- Whoever comes in last is kept if anyone is. -/
theorem exists_keep_eq (f : Finished) (hroom : 0 < t.capacity) :
    ∃ before, t.keep f = before ++ [f] := by
  refine ⟨t.finished.drop ((t.finished ++ [f]).length - t.capacity), ?_⟩
  apply List.drop_append_of_le_length
  rw [List.length_append, List.length_singleton]
  omega

theorem keep_sublist {f : Finished} : (t.keep f).Sublist (t.finished ++ [f]) :=
  List.drop_sublist _ _

theorem length_keep_le {f : Finished} : (t.keep f).length ≤ t.capacity := by
  rw [keep, List.length_drop]
  omega

/-- Nobody is in two places, and there is no more than there is room for. -/
structure Coherent (t : Tally) : Prop where
  sound : ∀ (app : App) (a : Active), t.active[app]? = some a → a.Sound
  bounded : t.finished.length ≤ t.capacity
  apart : ∀ f ∈ t.finished, ¬t.isActive f.app = true
  once : (t.finished.map (·.app)).Nodup

theorem coherent_empty : (empty capacity).Coherent where
  sound app a ha := by simp [empty] at ha
  bounded := Nat.zero_le capacity
  apart _ hf := absurd hf List.not_mem_nil
  once := List.nodup_nil

theorem Coherent.not_mem_finished (h : t.Coherent) (hactive : t.isActive app = true) :
    app ∉ t.finished.map (·.app) := by
  intro hmem
  obtain ⟨f, hf, rfl⟩ := List.mem_map.1 hmem
  exact h.apart f hf hactive

/-- An application that ends is not among the finished ones yet. -/
theorem Coherent.nodup_append (h : t.Coherent) (hactive : t.isActive app = true) (spread : Nat) :
    ((t.finished ++ [(⟨app, spread⟩ : Finished)]).map (·.app)).Nodup := by
  rw [List.map_append, List.map_singleton, ← List.concat_eq_append]
  exact List.Nodup.concat (h.not_mem_finished hactive) h.once

theorem Coherent.bounded_of_moves (h : t.Coherent) {t' : Tally} (hm : t.Moves e t') :
    t'.finished.length ≤ t.capacity := by
  cases hm with
  | starts _ hfinished =>
      rw [hfinished]
      exact Nat.le_trans (List.length_filter_le _ _) h.bounded
  | ends _ _ hfinished =>
      rw [hfinished]
      exact length_keep_le
  | stays _ _ hfinished =>
      rw [hfinished]
      exact h.bounded

theorem Coherent.apart_of_moves (h : t.Coherent) {t' : Tally} (hm : t.Moves e t') :
    ∀ f ∈ t'.finished, ¬t'.isActive f.app = true := by
  intro f hf
  cases hm with
  | starts hactive hfinished =>
      rw [hfinished, List.mem_filter] at hf
      rw [hactive]
      rintro (hsame | hruns)
      · simp [hsame] at hf
      · exact h.apart f hf.1 hruns
  | ends ha hactive hfinished =>
      rw [hfinished] at hf
      rw [hactive]
      rintro ⟨hne, hruns⟩
      rcases List.mem_append.1 (keep_sublist.subset hf) with hf | hf
      · exact h.apart f hf hruns
      · obtain rfl := List.mem_singleton.1 hf
        exact hne rfl
  | stays _ hactive hfinished =>
      rw [hfinished] at hf
      rw [hactive]
      exact h.apart f hf

theorem Coherent.once_of_moves (h : t.Coherent) {t' : Tally} (hm : t.Moves e t') :
    (t'.finished.map (·.app)).Nodup := by
  cases hm with
  | starts _ hfinished =>
      rw [hfinished]
      exact h.once.sublist (List.filter_sublist.map _)
  | ends ha _ hfinished =>
      rw [hfinished]
      exact (h.nodup_append (isActive_iff.2 ⟨_, ha⟩) _).sublist (keep_sublist.map _)
  | stays _ _ hfinished =>
      rw [hfinished]
      exact h.once

theorem Coherent.apply (h : t.Coherent) (e : Event) : (t.apply e).Coherent where
  sound app b hb := by
    rw [getElem?_active_apply] at hb
    exact sound_next (h.sound app) hb
  bounded := by
    rw [capacity_apply]
    exact h.bounded_of_moves (moves_apply t e)
  apart := h.apart_of_moves (moves_apply t e)
  once := h.once_of_moves (moves_apply t e)

/-! ## Who stands behind whom -/

/-- Whoever comes in behind a finished application leaves it room, or pushes it out when the queue
is full of those behind it. -/
theorem Coherent.keep_cases (h : t.Coherent) (g : Finished) {before later : List Finished}
    (hfinished : t.finished = before ++ f :: later) :
    (∃ before', t.keep g = before' ++ f :: (later ++ [g])) ∨
      t.keep g = later ++ [g] ∧ (later ++ [g]).length = t.capacity := by
  have hbounded := h.bounded
  have hqueue : t.finished ++ [g] = before ++ f :: (later ++ [g]) := by
    rw [hfinished, List.append_assoc, List.cons_append]
  rw [hfinished] at hbounded
  unfold keep
  rw [hqueue]
  simp only [List.length_append, List.length_cons, List.length_nil] at hbounded ⊢
  by_cases hroom : later.length + 1 < t.capacity
  · left
    refine ⟨before.drop (before.length + (later.length + 1 + 1) - t.capacity), ?_⟩
    apply List.drop_append_of_le_length
    omega
  · right
    have hbefore : before = [] := List.eq_nil_of_length_eq_zero (by omega)
    subst hbefore
    have hone : 0 + (later.length + 1 + 1) - t.capacity = 1 := by omega
    refine ⟨?_, by omega⟩
    rw [List.length_nil, hone, List.nil_append, List.drop_one, List.tail_cons]

theorem mem_map_app_filter {later : List Finished} {k : App} :
    other ∈ (later.filter fun g => g.app ≠ k).map (·.app) ↔
      k ≠ other ∧ other ∈ later.map (·.app) := by
  constructor
  · intro hother
    obtain ⟨g, hg, rfl⟩ := List.mem_map.1 hother
    obtain ⟨hg, hne⟩ := List.mem_filter.1 hg
    exact ⟨Ne.symm (of_decide_eq_true hne), List.mem_map_of_mem hg⟩
  · rintro ⟨hne, hother⟩
    obtain ⟨g, hg, rfl⟩ := List.mem_map.1 hother
    exact List.mem_map.2 ⟨g, List.mem_filter.2 ⟨hg, decide_eq_true (Ne.symm hne)⟩, rfl⟩

/-- An event brings in behind a finished application whoever ends by it, and takes away whoever
starts by it. The application itself stays, unless the queue is full of those behind it. -/
theorem Coherent.behind_of_moves (h : t.Coherent) {t' : Tally} (hm : t.Moves e t')
    (he : ∀ c utilization, e ≠ .start f.app c utilization) {before later : List Finished}
    (hfinished : t.finished = before ++ f :: later) :
    ∃ later', (∀ other, other ∈ later'.map (·.app) ↔
        ¬t'.isActive other = true ∧ (t.isActive other = true ∨ other ∈ later.map (·.app))) ∧
      ((∃ before', t'.finished = before' ++ f :: later') ∨
        t'.finished = later' ∧ later'.length = t.capacity ∧ f.app ∉ later'.map (·.app)) := by
  have hidle : ∀ other ∈ later.map (·.app), ¬t.isActive other = true := by
    intro other hother hactive
    apply h.not_mem_finished hactive
    rw [hfinished, List.map_append, List.map_cons]
    exact List.mem_append_right _ (List.mem_cons_of_mem _ hother)
  cases hm with
  | @starts k c utilization _ hactive hfinished' =>
      refine ⟨later.filter fun g => g.app ≠ k, fun other => ?_,
        .inl ⟨before.filter fun g => g.app ≠ k, ?_⟩⟩
      · have hother := hidle other
        rw [mem_map_app_filter, hactive]
        tauto
      · have hne : f.app ≠ k := by
          rintro rfl
          exact he c utilization rfl
        rw [hfinished', hfinished, List.filter_append, List.filter_cons_of_pos]
        exact decide_eq_true hne
  | @ends k c a _ ha hactive hfinished' =>
      have hk : t.isActive k = true := isActive_iff.2 ⟨a, ha⟩
      refine ⟨later ++ [⟨k, a.spread⟩], fun other => ?_, ?_⟩
      · have hother := hidle other
        rw [hactive, List.map_append, List.map_singleton, List.mem_append, List.mem_singleton]
        by_cases hsame : k = other
        · subst hsame
          simp [hk]
        · have hne : ¬other = k := Ne.symm hsame
          tauto
      · rw [hfinished']
        refine (h.keep_cases ⟨k, a.spread⟩ hfinished).imp_right fun ⟨hkeep, hfull⟩ => ?_
        have hnodup := h.nodup_append hk a.spread
        rw [hfinished, List.append_assoc, List.cons_append, List.map_append, List.map_cons]
          at hnodup
        exact ⟨hkeep, hfull, (List.nodup_cons.1 (List.nodup_append.1 hnodup).2.1).1⟩
  | stays _ hactive hfinished' =>
      refine ⟨later, fun other => ?_, .inl ⟨before, hfinished'.trans hfinished⟩⟩
      have hother := hidle other
      rw [hactive]
      tauto

/-- Whoever is among the finished applications after an event was there before, or ends. -/
theorem mem_finished_apply (hf : f ∈ (t.apply e).finished) : f ∈ t.finished ∨
    ∃ c a, e = .stop f.app c ∧ t.active[f.app]? = some a ∧ f = ⟨f.app, a.spread⟩ := by
  cases moves_apply t e with
  | starts _ hfinished =>
      rw [hfinished] at hf
      exact .inl (List.mem_filter.1 hf).1
  | ends ha _ hfinished =>
      rw [hfinished] at hf
      rcases List.mem_append.1 (keep_sublist.subset hf) with hf | hf
      · exact .inl hf
      · obtain rfl := List.mem_singleton.1 hf
        exact .inr ⟨_, _, rfl, ha, rfl⟩
  | stays _ _ hfinished =>
      rw [hfinished] at hf
      exact .inl hf

/-- Whoever is not among the finished applications gets there only by running. -/
theorem gone_apply (hgone : app ∉ t.finished.map (·.app)) (hidle : ¬t.isActive app = true) :
    app ∉ (t.apply e).finished.map (·.app) := by
  intro hmem
  obtain ⟨f, hf, rfl⟩ := List.mem_map.1 hmem
  rcases mem_finished_apply hf with hf | ⟨c, a, _, ha, _⟩
  · exact hgone (List.mem_map_of_mem hf)
  · exact hidle (isActive_iff.2 ⟨a, ha⟩)

/-! ## What every run keeps -/

theorem coherent_ofTrace : (ofTrace capacity es).Coherent := by
  induction es using List.reverseRecOn with
  | nil => exact coherent_empty
  | append_singleton es e ih =>
      rw [ofTrace_append_singleton]
      exact ih.apply e

theorem capacity_ofTrace : (ofTrace capacity es).capacity = capacity := by
  induction es using List.reverseRecOn with
  | nil => rfl
  | append_singleton es e ih => rw [ofTrace_append_singleton, capacity_apply, ih]

theorem length_finished_ofTrace_le : (ofTrace capacity es).finished.length ≤ capacity := by
  have hbounded := (coherent_ofTrace : (ofTrace capacity es).Coherent).bounded
  rwa [capacity_ofTrace] at hbounded

/-- The containers of the entry of an application are those that are watched. -/
theorem holds_ofTrace (capacity : Nat) :
    Holds (ofTrace capacity es).active[app]? c ↔ Watched es app c := by
  induction es using List.reverseRecOn with
  | nil => simp [ofTrace, empty, Holds, not_watched_nil]
  | append_singleton es e ih =>
      rw [ofTrace_append_singleton, getElem?_active_apply, holds_next, watched_append_singleton, ih]

theorem isActive_ofTrace (capacity : Nat) :
    (ofTrace capacity es).isActive app = true ↔ Runs es app := by
  rw [isActive_iff]
  constructor
  · rintro ⟨a, ha⟩
    obtain ⟨c, hc⟩ := (coherent_ofTrace.sound app a ha).populated
    exact ⟨c, (holds_ofTrace capacity).1 ⟨a, ha, hc⟩⟩
  · rintro ⟨c, hc⟩
    obtain ⟨a, ha, _⟩ := (holds_ofTrace capacity).2 hc
    exact ⟨a, ha⟩

/-! ## What is told of an application -/

theorem utilization_of_active (ha : t.active[app]? = some a) : t.utilization app = a.share := by
  rw [utilization, ha]

theorem utilization_of_idle (hidle : ¬t.isActive app = true) : t.utilization app =
    ((t.finished.reverse.find? fun f => f.app = app).map (·.spread)).getD 0 := by
  have hnone : t.active[app]? = none := by
    rwa [isActive_iff, ← Option.isSome_iff_exists, Option.not_isSome_iff_eq_none] at hidle
  rw [utilization, hnone]

/-- Of a finished application its whole spread is told. -/
theorem Coherent.utilization_of_mem (h : t.Coherent) {f : Finished} (hf : f ∈ t.finished) :
    t.utilization f.app = f.spread := by
  have hfound : (t.finished.reverse.find? fun g => g.app = f.app) = some f := by
    cases hfind : t.finished.reverse.find? fun g => g.app = f.app with
    | none =>
        have hnone := List.find?_eq_none.1 hfind f (List.mem_reverse.2 hf)
        simp at hnone
    | some g =>
        have happ : g.app = f.app := by simpa using List.find?_some hfind
        have hg : g ∈ t.finished := List.mem_reverse.1 (List.mem_of_find?_eq_some hfind)
        rw [List.inj_on_of_nodup_map h.once hg hf happ]
  rw [utilization_of_idle (h.apart f hf), hfound]
  rfl

theorem utilization_of_unknown (hidle : ¬t.isActive app = true)
    (hgone : app ∉ t.finished.map (·.app)) : t.utilization app = 0 := by
  have hnone : (t.finished.reverse.find? fun f => f.app = app) = none := by
    rw [List.find?_eq_none]
    intro f hf happ
    rw [decide_eq_true_eq] at happ
    exact hgone (List.mem_map.2 ⟨f, List.mem_reverse.1 hf, happ⟩)
  rw [utilization_of_idle hidle, hnone]
  rfl

end Tally

end Allotment.Usage
