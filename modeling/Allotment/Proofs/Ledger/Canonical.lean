import Allotment.Proofs.Ledger.Balance

/-!
# Ledgers in canonical form

Every ledger that can be reached keeps its books in canonical form, whatever its capacity and
whatever it was asked: the profiles store no zero, and no user without demand is put down. So a
ledger is known by its terms, its reservations and the demands of its buckets; and where the books
are balanced, the terms and the reservations are enough, and nothing else of the history of a ledger
is left in it.
-/

namespace Allotment.Ledger

open Demand (Profile Step)

variable {l m : Ledger} {r : Reservation} {p : Profile} {user u : String}
  {byUser : Std.ExtTreeMap String Profile}

/-- The books hold no zero and no user without demand. -/
structure Canonical (l : Ledger) : Prop where
  total : l.total.Reduced
  user : ∀ user, (l.userDemand user).Reduced
  needed : ∀ user : String, l.byUser[user]? ≠ some ∅

/-! ## Striking and adding keep the form -/

theorem getElem?_setUserDemand :
    (setUserDemand byUser user p)[u]? =
      if user = u then (if p.isEmpty then none else some p) else byUser[u]? := by
  unfold setUserDemand
  by_cases hp : p.isEmpty
  · by_cases hu : user = u
    · simp [hp, hu]
    · simp [hp, hu, Std.ExtTreeMap.getElem?_erase]
  · by_cases hu : user = u
    · simp [hp, hu]
    · simp [hp, hu, Std.ExtTreeMap.getElem?_insert]

theorem setUserDemand_ne_some_empty (h : ∀ u : String, byUser[u]? ≠ some ∅) :
    (setUserDemand byUser user p)[u]? ≠ some ∅ := by
  rw [getElem?_setUserDemand]
  split
  · split
    · simp
    · next hp =>
      intro hsome
      exact hp (Profile.isEmpty_iff.2 (Option.some.inj hsome))
  · exact h u

theorem canonical_empty {terms : Terms} : (empty terms).Canonical where
  total := Profile.reduced_empty
  user user := by
    have hnone : (empty terms).userDemand user = ∅ := by simp [userDemand, empty]
    rw [hnone]
    exact Profile.reduced_empty
  needed user := by simp [empty]

theorem Canonical.strike (h : l.Canonical) : (l.strike r).Canonical where
  total := h.total.sub
  user user := by
    rw [userDemand_strike]
    split
    · exact (h.user user).sub
    · exact h.user user
  needed _ := setUserDemand_ne_some_empty h.needed

theorem Canonical.of_add (h : l.Canonical) (hadd : l.add r = .ok m) : m.Canonical := by
  obtain ⟨_, _, henter⟩ := add_eq_ok_iff.1 hadd
  refine ⟨?_, fun user => ?_, fun user => ?_⟩
  · rw [total_of_add hadd]
    exact h.total.add
  · rw [userDemand_of_add hadd]
    split
    · exact (h.user user).add
    · exact h.user user
  · rw [(enter_eq_ok_iff.1 henter).2]
    exact setUserDemand_ne_some_empty h.needed

/-- Every ledger that can be reached is in canonical form. -/
theorem Reachable.canonical (h : l.Reachable) : l.Canonical :=
  h.of_strike_of_add (fun _ => canonical_empty) (fun _ _ hl _ => hl.strike)
    fun _ _ _ hl hadd => hl.of_add hadd

/-! ## What a ledger is known by -/

theorem Canonical.getElem?_byUser (h : l.Canonical) :
    l.byUser[user]? =
      if (l.userDemand user).isEmpty then none else some (l.userDemand user) := by
  have hneeded := h.needed user
  unfold userDemand
  rw [Std.ExtTreeMap.getD_eq_getD_getElem?]
  cases hp : l.byUser[user]? with
  | none =>
      have hnone : (∅ : Profile).isEmpty = true := Profile.isEmpty_iff.2 rfl
      rw [Option.getD_none, if_pos hnone]
  | some p =>
      rw [Option.getD_some, if_neg]
      intro hempty
      exact hneeded (by rw [hp, Profile.isEmpty_iff.1 hempty])

/-- Ledgers in canonical form are known by their terms, their reservations and their demands. -/
theorem Canonical.eq_of_demand (hl : l.Canonical) (hm : m.Canonical) (hterms : m.terms = l.terms)
    (hget : ∀ id, m.get? id = l.get? id) (htotal : m.total = l.total)
    (huser : ∀ user, m.userDemand user = l.userDemand user) : m = l := by
  have hreservations : m.reservations = l.reservations := Std.ExtTreeMap.ext_getElem? hget
  have hbyUser : m.byUser = l.byUser := by
    apply Std.ExtTreeMap.ext_getElem?
    intro user
    rw [hm.getElem?_byUser, hl.getElem?_byUser, huser]
  cases l
  cases m
  simp_all

/-- The same reservations are found under the same identifiers. -/
theorem get?_eq_of_perm (hl : l.Keyed) (hm : m.Keyed) (hperm : m.admitted.Perm l.admitted)
    (id : ReservationId) : m.get? id = l.get? id := by
  have hget : ∀ {k : Ledger}, k.Keyed → ∀ r, k.get? id = some r ↔ r ∈ k.admitted ∧ r.id = id := by
    intro k hk r
    constructor
    · intro h
      exact ⟨mem_admitted_iff.2 ⟨id, h⟩, hk id r h⟩
    · rintro ⟨h, rfl⟩
      exact hk.mem_admitted_iff.1 h
  apply Option.ext
  intro r
  rw [hget hm, hget hl, hperm.mem_iff]

/-- Timely ledgers of the same terms with the same reservations are the same, whatever their
histories. -/
theorem Timely.eq_of_perm (hl : l.Timely) (hm : m.Timely) (hbounded : l.terms.Bounded)
    (hterms : m.terms = l.terms) (hperm : m.admitted.Perm l.admitted) : m = l := by
  have hlbooks := hl.balanced hbounded
  have hmbooks := hm.balanced (hterms ▸ hbounded)
  apply hl.reachable.canonical.eq_of_demand hm.reachable.canonical hterms
  · exact get?_eq_of_perm hl.reachable.keyed hm.reachable.keyed hperm
  · exact (hterms ▸ hmbooks.total).eq_of_perm hlbooks.total hperm
  · intro user
    exact (hterms ▸ hmbooks.user user).eq_of_perm (hlbooks.user user) (hperm.filter _)

end Allotment.Ledger
