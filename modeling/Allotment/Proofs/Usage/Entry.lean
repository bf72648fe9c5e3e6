import Mathlib.Data.List.Nodup
import Allotment.Proofs.Usage.Trace

/-!
# Entries of a tally

An event changes the entry of an application in a way that depends on that entry alone. Its
containers are the watched ones, it is dropped when there are none left, and it keeps the
utilization with which it has begun.
-/

namespace Allotment.Usage

variable {app : App} {c : String} {a b : Active} {e : Event} {t : Tally} {es : List Event}
  {capacity : Nat} {entry : Option Active}

/-! ## Entries -/

/-- What is left of an entry without the container: nothing without containers. -/
def Active.drop? (a : Active) (c : String) : Option Active :=
  if c ∈ a.containers then
    if (a.containers.erase c).isEmpty then none
    else some { a with containers := a.containers.erase c }
  else some a

/-- The entry of an application after an event, from what it was before. -/
def App.next (app : App) (entry : Option Active) : Event → Option Active
  | .start k c utilization =>
    if k = app then
      let a := entry.getD (.start utilization)
      some { a with containers := a.containers.insert c }
    else entry
  | .stop k c =>
    if k = app then entry.bind (·.drop? c) else entry
  | .see utilization => entry.map (·.see utilization)
  | .seeOn device utilization =>
    if app.device = device then entry.map (·.see utilization) else entry

/-- What stopping a container comes to. -/
theorem Tally.stop?_cases (t : Tally) (app : App) (c : String) :
    t.stop? app c = none ∧ (∀ a, t.active[app]? = some a → c ∉ a.containers) ∨
    ∃ a, t.active[app]? = some a ∧ c ∈ a.containers ∧
      ((a.containers.erase c).isEmpty = false ∧ t.stop? app c = some { t with
          active := t.active.insert app { a with containers := a.containers.erase c } } ∨
        (a.containers.erase c).isEmpty = true ∧
          t.stop? app c = some (t.finish app { a with containers := a.containers.erase c })) := by
  unfold Tally.stop?
  cases hentry : t.active[app]? with
  | none => exact .inl ⟨rfl, by simp⟩
  | some a =>
      rw [Option.bind_eq_bind, Option.bind_some]
      by_cases hc : c ∈ a.containers
      · rw [if_pos (Std.ExtTreeSet.contains_iff_mem.2 hc)]
        refine .inr ⟨a, rfl, hc, ?_⟩
        cases hlast : (a.containers.erase c).isEmpty with
        | true => exact .inr ⟨rfl, if_pos hlast⟩
        | false => exact .inl ⟨rfl, if_neg (ne_true_of_eq_false hlast)⟩
      · rw [if_neg (mt Std.ExtTreeSet.contains_iff_mem.1 hc)]
        refine .inl ⟨rfl, fun b hb => ?_⟩
        obtain rfl := Option.some.inj hb
        exact hc

namespace Tally

/-- The tally after an event. -/
def apply (t : Tally) : Event → Tally
  | .start app container utilization => (t.start app container utilization).2
  | .stop app container => (t.stop? app container).getD t
  | .see utilization => t.see utilization
  | .seeOn device utilization => t.seeOn device utilization

/-- The tally after a trace, if it keeps so many finished applications. -/
def ofTrace (capacity : Nat) (es : List Event) : Tally :=
  es.foldl apply (empty capacity)

theorem ofTrace_append_singleton :
    ofTrace capacity (es ++ [e]) = (ofTrace capacity es).apply e := by
  simp [ofTrace]

theorem getElem?_active_apply : (t.apply e).active[app]? = app.next t.active[app]? e := by
  cases e with
  | start k c utilization =>
      simp only [apply, start, App.next, Std.ExtTreeMap.getElem?_insert,
        Std.LawfulEqCmp.compare_eq_iff_eq]
      split
      · next hk => rw [hk, Std.ExtTreeMap.getD_eq_getD_getElem?]
      · rfl
  | stop k c =>
      rcases t.stop?_cases k c with ⟨hstop, hnot⟩ | ⟨a, ha, hc, hlast⟩
      · simp only [apply, hstop, App.next, Option.getD_none]
        split
        · next hk =>
          subst hk
          cases ha : t.active[k]? with
          | none => rfl
          | some a => simp [Active.drop?, hnot a ha]
        · rfl
      · rcases hlast with ⟨hlast, hstop⟩ | ⟨hlast, hstop⟩
        · simp only [apply, hstop, App.next, Option.getD_some, Std.ExtTreeMap.getElem?_insert,
            Std.LawfulEqCmp.compare_eq_iff_eq]
          split
          · next hk =>
            subst hk
            simp only [ha, Option.bind_some, Active.drop?, if_pos hc, hlast, Bool.false_eq_true,
              if_false]
          · rfl
        · simp only [apply, hstop, App.next, Option.getD_some, finish,
            Std.ExtTreeMap.getElem?_erase, Std.LawfulEqCmp.compare_eq_iff_eq]
          split
          · next hk =>
            subst hk
            simp only [ha, Option.bind_some, Active.drop?, if_pos hc, hlast, if_true]
          · rfl
  | see utilization => simp [apply, see, App.next, Std.ExtTreeMap.getElem?_map]
  | seeOn device utilization =>
      simp only [apply, seeOn, App.next, Std.ExtTreeMap.getElem?_map]
      split
      · rfl
      · simp

end Tally

/-! ## What an entry tells -/

theorem isEmpty_iff_forall_not_mem {s : Std.ExtTreeSet String} :
    s.isEmpty = true ↔ ∀ c, c ∉ s := by
  rw [Std.ExtTreeSet.isEmpty_iff]
  constructor
  · rintro rfl c
    exact Std.ExtTreeSet.not_mem_empty
  · intro h
    exact Std.ExtTreeSet.eq_empty_iff_forall_not_mem.2 h

/-- The entry has the container. -/
def Holds (entry : Option Active) (c : String) : Prop :=
  ∃ a, entry = some a ∧ c ∈ a.containers

theorem holds_some : Holds (some a) c ↔ c ∈ a.containers := by
  simp [Holds]

theorem holds_drop? {d : String} : Holds (a.drop? d) c ↔ c ∈ a.containers ∧ d ≠ c := by
  have herase : c ∈ a.containers.erase d ↔ d ≠ c ∧ c ∈ a.containers := by
    simp [Std.ExtTreeSet.mem_erase]
  unfold Active.drop?
  split
  · cases hlast : (a.containers.erase d).isEmpty with
    | true =>
        have hnone := isEmpty_iff_forall_not_mem.1 hlast c
        rw [herase] at hnone
        simp only [if_true, Holds, reduceCtorEq, false_and, exists_false, false_iff]
        exact fun h => hnone ⟨h.2, h.1⟩
    | false =>
        rw [if_neg Bool.false_ne_true, holds_some, herase]
        exact and_comm
  · next hd =>
    rw [holds_some]
    refine ⟨fun hc => ⟨hc, ?_⟩, And.left⟩
    rintro rfl
    exact hd hc

/-- The containers of an entry are those that are watched. -/
theorem holds_next : Holds (app.next entry e) c ↔
    (∃ utilization, e = .start app c utilization) ∨ Holds entry c ∧ e ≠ .stop app c := by
  cases e with
  | start k d utilization =>
      by_cases hk : k = app
      · subst hk
        cases entry with
        | none => simp [Holds, App.next, Active.start]
        | some a => simp [Holds, App.next]
      · simp [App.next, hk]
  | stop k d =>
      by_cases hk : k = app
      · subst hk
        cases entry with
        | none => simp [Holds, App.next]
        | some a => simp [App.next, holds_drop?, holds_some]
      · simp [App.next, hk]
  | see utilization => cases entry <;> simp [Holds, App.next, Active.see]
  | seeOn device utilization =>
      cases entry with
      | none => simp [Holds, App.next]
      | some a =>
          simp only [App.next]
          split <;> simp [Holds, Active.see]

/-- An entry has a container, and has not seen less than where it has begun. -/
structure Active.Sound (a : Active) : Prop where
  populated : ∃ c, c ∈ a.containers
  ordered : a.least ≤ a.greatest

theorem sound_next (h : ∀ a, entry = some a → a.Sound) (hb : app.next entry e = some b) :
    b.Sound := by
  cases e with
  | start k d utilization =>
      simp only [App.next] at hb
      split at hb
      · obtain rfl := Option.some.inj hb
        refine ⟨⟨d, Std.ExtTreeSet.mem_insert_self⟩, ?_⟩
        cases entry with
        | none => exact Nat.le_refl utilization
        | some a => exact (h a rfl).ordered
      · exact h b hb
  | stop k d =>
      simp only [App.next] at hb
      split at hb
      · obtain ⟨a, ha, hdrop⟩ := Option.bind_eq_some_iff.1 hb
        unfold Active.drop? at hdrop
        split_ifs at hdrop with hd hlast
        · obtain rfl := Option.some.inj hdrop
          rw [isEmpty_iff_forall_not_mem] at hlast
          push Not at hlast
          exact ⟨hlast, (h a ha).ordered⟩
        · obtain rfl := Option.some.inj hdrop
          exact h a ha
      · exact h b hb
  | see utilization =>
      obtain ⟨a, ha, rfl⟩ := Option.map_eq_some_iff.1 hb
      exact ⟨(h a ha).populated, Nat.le_trans (h a ha).ordered (Nat.le_max_left _ _)⟩
  | seeOn device utilization =>
      simp only [App.next] at hb
      split at hb
      · obtain ⟨a, ha, rfl⟩ := Option.map_eq_some_iff.1 hb
        exact ⟨(h a ha).populated, Nat.le_trans (h a ha).ordered (Nat.le_max_left _ _)⟩
      · exact h b hb

/-- As long as an application stays, it keeps where it has begun, and the utilization of its device
is noted. -/
theorem levels_next (hb : app.next (some a) e = some b) :
    b.least = a.least ∧ b.greatest = ((e.seenOn? app.device).toList.foldl max a.greatest) := by
  cases e with
  | start k d utilization =>
      simp only [App.next] at hb
      split at hb <;> obtain rfl := Option.some.inj hb <;> exact ⟨rfl, rfl⟩
  | stop k d =>
      simp only [App.next] at hb
      split at hb
      · rw [Option.bind_some, Active.drop?] at hb
        split_ifs at hb <;> obtain rfl := Option.some.inj hb <;> exact ⟨rfl, rfl⟩
      · obtain rfl := Option.some.inj hb
        exact ⟨rfl, rfl⟩
  | see utilization =>
      obtain rfl := Option.some.inj hb
      exact ⟨rfl, rfl⟩
  | seeOn device utilization =>
      simp only [App.next, eq_comm (a := app.device)] at hb
      simp only [Event.seenOn?]
      split_ifs at hb ⊢ <;> obtain rfl := Option.some.inj hb <;> exact ⟨rfl, rfl⟩

end Allotment.Usage
