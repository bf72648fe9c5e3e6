import Allotment.Proofs.Ledger.Balance

/-!
# Exact accounting

The total and the demand of each user are never worked out anew: every operation patches them. In
every timely ledger they nevertheless tell the exact sums of the profiles of the reservations that
are admitted now, whatever else its history. Reservations that are not in time escape the rule, so
their sums may be cut off, and what is cut off is missing later.
-/

namespace Allotment.Ledger

open Demand (Interval Step Profile)
open Reservation (totalPeak)

variable {l m : Ledger} {r : Reservation} {rs : List Reservation} {user : String} {s : Step}
  {d : Dimension} {t : Int}

/-! ## Sums over users -/

/-- The sum, in one dimension, of what the profiles of the reservations tell of an instant. -/
def toldAt (s : Step) (rs : List Reservation) (d : Dimension) (t : Int) : Int :=
  (rs.map fun r => ((r.profile s).demandAt s t).get d).sum

theorem toldAt_cons :
    toldAt s (r :: rs) d t = ((r.profile s).demandAt s t).get d + toldAt s rs d t :=
  List.sum_cons

theorem sum_map_ite_eq {users : List String} (hnodup : users.Nodup) (huser : user ∈ users)
    (f : String → Int) (c : Int) :
    (users.map fun u => if user = u then c + f u else f u).sum = c + (users.map f).sum := by
  induction users with
  | nil => simp at huser
  | cons u users ih =>
      obtain ⟨hnot, hnodup⟩ := List.nodup_cons.1 hnodup
      rw [List.map_cons, List.map_cons, List.sum_cons, List.sum_cons]
      rcases List.mem_cons.1 huser with rfl | hmem
      · have hrest : (users.map fun u => if user = u then c + f u else f u) = users.map f := by
          apply List.map_congr_left
          intro u hu
          rw [if_neg]
          rintro rfl
          exact hnot hu
        rw [if_pos rfl, hrest]
        omega
      · have hne : user ≠ u := by
          rintro rfl
          exact hnot hmem
        rw [if_neg hne, ih hnodup hmem]
        omega

/-- The sums of the users add up to the sum of all. -/
theorem sum_toldAt_filter {users : List String} (hnodup : users.Nodup)
    (husers : ∀ r ∈ rs, r.user ∈ users) :
    (users.map fun user => toldAt s (rs.filter fun r => r.user = user) d t).sum =
      toldAt s rs d t := by
  induction rs with
  | nil => simp [toldAt]
  | cons r rs ih =>
      have hstep : (fun user => toldAt s ((r :: rs).filter fun r => r.user = user) d t) =
          fun user => if r.user = user then
            ((r.profile s).demandAt s t).get d + toldAt s (rs.filter fun r => r.user = user) d t
          else toldAt s (rs.filter fun r => r.user = user) d t := by
        funext user
        rw [List.filter_cons]
        by_cases huser : r.user = user
        · rw [if_pos (by simpa using huser), if_pos huser, toldAt_cons]
        · rw [if_neg (by simpa using huser), if_neg huser]
      rw [hstep, sum_map_ite_eq hnodup (husers r List.mem_cons_self), toldAt_cons,
        ih fun x hx => husers x (List.mem_cons_of_mem r hx)]

/-! ## What the books tell -/

/-- A book of faithful reservations tells what their profiles tell together, wherever the instant
is read. -/
theorem toldAt_eq {p : Profile} {limit : Resource} (h : Book s p rs limit)
    (hvalid : ∀ r ∈ rs, r.Valid) (htime : ∀ r ∈ rs, r.InTime s)
    (hfaithful : ∀ r ∈ rs, r.Faithful) : toldAt s rs d t = (p.demandAt s t).get d := by
  unfold toldAt Profile.demandAt
  by_cases hb : s.ms ∣ s.align t
  · rw [h.exact _ d hb, totalPeak]
    congr 1
    apply List.map_congr_left
    intro r hr
    exact (hvalid r hr).get_profile_of_faithful (htime r hr) (hfaithful r hr) hb
  · rw [h.canonical.get_of_not_dvd hb, Resource.get_zero]
    apply List.sum_eq_zero
    intro v hv
    obtain ⟨r, hr, rfl⟩ := List.mem_map.1 hv
    rw [(hvalid r hr).get_profile_of_not_dvd (htime r hr) hb, Resource.get_zero]

theorem Balanced.get_demandAt (h : l.Balanced) :
    (l.demandAt t).get d = toldAt l.terms.step l.admitted d t :=
  (toldAt_eq h.total h.valid h.inTime h.faithful).symm

theorem Balanced.get_userDemandAt (h : l.Balanced) :
    (l.userDemandAt user t).get d = toldAt l.terms.step (l.ownedBy user) d t :=
  (toldAt_eq (h.user user) h.valid_ownedBy (fun r hr => h.inTime r (List.mem_filter.1 hr).1)
    fun r hr => h.faithful r (List.mem_filter.1 hr).1).symm

/-- The same reservations are admitted in some order. -/
theorem admitted_perm_of_mem_iff (hl : l.Keyed) (hm : m.Keyed)
    (hsame : ∀ r, r ∈ m.admitted ↔ r ∈ l.admitted) : m.admitted.Perm l.admitted :=
  (List.perm_ext_iff_of_nodup hm.nodup_admitted hl.nodup_admitted).2 hsame

theorem toldAt_perm {others : List Reservation} (h : rs.Perm others) :
    toldAt s rs d t = toldAt s others d t :=
  (h.map _).sum_eq

/-- **Exact accounting.** In a timely ledger the total tells the exact sum of the profiles of the
admitted reservations, and the demand of a user that of the user's own. -/
theorem books_are_exact (h : l.Timely) (hbounded : l.terms.Bounded) :
    (∀ t d, (l.demandAt t).get d = toldAt l.terms.step l.admitted d t) ∧
    (∀ user t d, (l.userDemandAt user t).get d =
      toldAt l.terms.step (l.admitted.filter fun r => r.user = user) d t) ∧
    (∀ users : List String, users.Nodup → (∀ r ∈ l.admitted, r.user ∈ users) → ∀ t d,
      (users.map fun user => (l.userDemandAt user t).get d).sum = (l.demandAt t).get d) ∧
    (∀ user t, (∀ r ∈ l.admitted, r.user = user →
      (r.profile l.terms.step).demandAt l.terms.step t = 0) → l.userDemandAt user t = 0) ∧
    ∀ m : Ledger, m.Timely → m.terms.Bounded → m.terms.step = l.terms.step →
      (∀ r, r ∈ m.admitted ↔ r ∈ l.admitted) →
      ∀ t, m.demandAt t = l.demandAt t ∧ ∀ user, m.userDemandAt user t = l.userDemandAt user t := by
  have hl := h.balanced hbounded
  refine ⟨fun t d => hl.get_demandAt, fun user t d => hl.get_userDemandAt, ?_, ?_, ?_⟩
  · intro users hnodup husers t d
    simp only [hl.get_userDemandAt, hl.get_demandAt]
    exact sum_toldAt_filter hnodup husers
  · intro user t hnone
    apply Resource.ext_get
    intro d
    rw [hl.get_userDemandAt, Resource.get_zero]
    apply List.sum_eq_zero
    intro v hv
    obtain ⟨r, hr, rfl⟩ := List.mem_map.1 hv
    obtain ⟨hr, huser⟩ := List.mem_filter.1 hr
    rw [hnone r hr (by simpa using huser), Resource.get_zero]
  · intro m htimely hmbounded hstep hsame t
    have hm := htimely.balanced hmbounded
    have hperm := admitted_perm_of_mem_iff h.reachable.keyed htimely.reachable.keyed hsame
    constructor
    · apply Resource.ext_get
      intro d
      rw [hm.get_demandAt, hl.get_demandAt, hstep, toldAt_perm hperm]
    · intro user
      apply Resource.ext_get
      intro d
      rw [hm.get_userDemandAt, hl.get_userDemandAt, hstep]
      exact toldAt_perm (hperm.filter _)

/-- The users add up to the total, and the ledger that took the same two reservations on in the
other order tells the same. -/
theorem sample_books_are_exact :
    (Sample.ledger.demandAt 25).get .memory = 100 ∧
    (∀ t d, (["u1", "u2"].map fun user => (Sample.ledger.userDemandAt user t).get d).sum =
      (Sample.ledger.demandAt t).get d) ∧
    ∀ t, ((empty Sample.terms).run [.add Sample.filling, .add Sample.misaligned]).demandAt t =
      Sample.ledger.demandAt t := by
  obtain ⟨_, _, husers, _, hsame⟩ := books_are_exact Sample.timely_ledger Sample.bounded_ledger
  refine ⟨by decide +kernel, ?_, fun t => ?_⟩
  · exact husers ["u1", "u2"] (by decide) (by decide +kernel)
  · have hkeyed : (empty Sample.terms).Keyed := keyed_empty
    have hterms := hkeyed.terms_run [.add Sample.filling, .add Sample.misaligned]
    refine (hsame _ (Timely.run (.opened Sample.open?_terms) (by decide)) ?_ ?_ ?_ t).1
    · rw [hterms]
      exact Sample.bounded_terms
    · rw [hterms, Sample.terms_ledger]
      rfl
    · intro r
      rfl

namespace Sample

/-- Asked for all cores twice, at a time of which the rule reads no point. -/
def cutOff : Ledger :=
  (empty terms).run [
    .add (early ⟨1⟩ ⟨0, 10⟩ (.ofAmounts 0 Dimension.cpu.word.greatest 0)),
    .add (early ⟨2⟩ ⟨0, 10⟩ (.ofAmounts 0 Dimension.cpu.word.greatest 0))]

end Sample

/-- Both are taken on, and the total tells half of what their profiles tell. -/
theorem cut_off_books_are_inexact :
    Sample.cutOff.Reachable ∧ Sample.cutOff.terms.Bounded ∧ Sample.cutOff.size = 2 ∧
      (Sample.cutOff.demandAt 0).get .cpu = Dimension.cpu.word.greatest ∧
      toldAt Sample.cutOff.terms.step Sample.cutOff.admitted .cpu 0 =
        2 * Dimension.cpu.word.greatest := by
  refine ⟨Reachable.run (.opened Sample.open?_terms) _, ?_, by decide +kernel, by decide +kernel,
    by decide +kernel⟩
  rw [Sample.cutOff, keyed_empty.terms_run]
  exact Sample.bounded_terms

end Allotment.Ledger
