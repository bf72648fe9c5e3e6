import Allotment.Proofs.Ledger.Dimension

/-!
# Removing what was added

A reservation that has just been added can be removed again, under any capacity and either rule, and
the reservations are then those from before. So are the demands that the words could hold along with
the demand of the reservation. Where they could not, the sum stood at the greatest amount, and what
is left is the greatest amount less the demand: what was cut off does not come back. In a dimension
in which the capacity is below the greatest amount the words hold every sum that a timely ledger
takes on in time, and nothing is lost.
-/

namespace Allotment.Ledger

open Demand (Profile Step)
open Reservation (totalPeak)

variable {l m : Ledger} {r : Reservation} {p : Profile} {s : Step} {d : Dimension}
  {user : String} {t b : Int}

/-! ## The books after both steps -/

theorem get_demandAt_add_sub :
    ((p + r.profile s - r.profile s).demandAt s t).get d =
      min ((p.demandAt s t).get d) (d.word.greatest - ((r.profile s).demandAt s t).get d) := by
  unfold Profile.demandAt
  rw [Profile.get_sub, Profile.get_add, Resource.get_add_sub Reservation.profile_nonneg]

theorem terms_strike_of_add (hadd : l.add r = .ok m) : (m.strike r).terms = l.terms := by
  change m.terms = l.terms
  exact terms_of_add hadd

theorem get_demandAt_strike_of_add (hadd : l.add r = .ok m) :
    ((m.strike r).demandAt t).get d = min ((l.demandAt t).get d)
      (d.word.greatest - ((r.profile l.terms.step).demandAt l.terms.step t).get d) := by
  have htotal : (m.strike r).total =
      l.total + r.profile l.terms.step - r.profile l.terms.step := by
    rw [← total_of_add hadd, ← terms_of_add hadd]
    rfl
  unfold demandAt
  rw [htotal, terms_strike_of_add hadd, get_demandAt_add_sub]

theorem get_userDemandAt_strike_of_add (hadd : l.add r = .ok m) :
    ((m.strike r).userDemandAt r.user t).get d = min ((l.userDemandAt r.user t).get d)
      (d.word.greatest - ((r.profile l.terms.step).demandAt l.terms.step t).get d) := by
  unfold userDemandAt
  rw [userDemand_strike, if_pos rfl, userDemand_of_add hadd, if_pos rfl,
    terms_strike_of_add hadd, terms_of_add hadd, get_demandAt_add_sub]

theorem userDemandAt_strike_of_add (hadd : l.add r = .ok m) (hother : user ≠ r.user) :
    (m.strike r).userDemandAt user t = l.userDemandAt user t := by
  unfold userDemandAt
  rw [userDemand_strike, if_neg hother.symm, userDemand_of_add hadd, if_neg hother.symm,
    terms_strike_of_add hadd]

/-! ## Where nothing is cut off -/

theorem ExactIn.user_le_total (h : l.ExactIn d) :
    ((l.userDemand user).get b).get d ≤ (l.total.get b).get d := by
  by_cases hb : l.terms.step.ms ∣ b
  · rw [(h.user user).exact b hb, h.total.exact b hb]
    exact totalPeak_ownedBy_le h.valid
  · rw [(h.user user).zero b hb, h.total.zero b hb]

section Timely

variable (h : l.Timely) (htime : r.InTime l.terms.step) (hadd : l.add r = .ok m)

include h htime hadd

/-- Where the capacity is bounded, the words hold what was there along with what is taken on. -/
theorem Timely.get_demandAt_add_le (hbounded : l.terms.capacity.get d < d.word.greatest) :
    (l.demandAt t).get d + ((r.profile l.terms.step).demandAt l.terms.step t).get d ≤
      d.word.greatest := by
  have hexact := h.exactIn hbounded
  have hcanonical := h.reachable.canonical
  obtain ⟨_, hr⟩ := checkProposal_eq_ok_iff.1 (add_eq_ok_iff.1 hadd).1
  have hloads := hexact.load_le_of_add hcanonical hbounded htime hadd
  unfold demandAt Profile.demandAt
  by_cases hb : l.terms.step.ms ∣ l.terms.step.align t
  · have hle := hexact.totalPeak_le_of_add hcanonical hbounded htime hadd hb
    rw [Reservation.totalPeak_cons] at hle
    rw [hexact.total.exact _ hb, hr.get_profile_of_le htime hloads hb]
    omega
  · rw [hexact.total.zero _ hb, hr.get_profile_of_not_dvd htime hb, Resource.get_zero]
    exact d.word.greatest_pos.le

theorem Timely.get_strike_of_add (hbounded : l.terms.capacity.get d < d.word.greatest) :
    ((m.strike r).demandAt t).get d = (l.demandAt t).get d ∧
      ∀ user, ((m.strike r).userDemandAt user t).get d = (l.userDemandAt user t).get d := by
  have hle := h.get_demandAt_add_le (t := t) htime hadd hbounded
  refine ⟨?_, fun user => ?_⟩
  · rw [get_demandAt_strike_of_add hadd]
    omega
  · by_cases howner : user = r.user
    · -- what a user needs is part of the total, and fits along with it
      have huser : (l.userDemandAt user t).get d ≤ (l.demandAt t).get d :=
        (h.exactIn hbounded).user_le_total
      subst howner
      rw [get_userDemandAt_strike_of_add hadd]
      omega
    · rw [userDemandAt_strike_of_add hadd howner]

/-- Under a bounded capacity the two steps lead back to the very same ledger. -/
theorem Timely.strike_eq_of_add (hbounded : l.terms.Bounded) : m.strike r = l := by
  have htimely : (m.strike r).Timely := by
    have hstep : (m.apply (.remove r.id r.user)).Timely := (h.of_add htime hadd).step trivial
    rwa [apply_remove (get?_self_of_add hadd) rfl] at hstep
  apply h.eq_of_perm htimely hbounded (terms_strike_of_add hadd)
  rw [admitted_strike_of_add hadd]

end Timely

/-! ## Removing undoes adding up to what was cut off -/

/-- **Removing what was just added** brings the reservations back, and of each demand what the word
has held; all demands are as before where the capacity is below the greatest amounts and the times
do not overflow. -/
theorem remove_undoes_add (hadd : l.add r = .ok m) :
    ∃ k, m.remove r.id r.user = .ok (r, k) ∧ (∀ id, k.get? id = l.get? id) ∧
      (∀ t d, (k.demandAt t).get d = min ((l.demandAt t).get d)
        (d.word.greatest - ((r.profile l.terms.step).demandAt l.terms.step t).get d)) ∧
      (∀ t d, (k.userDemandAt r.user t).get d = min ((l.userDemandAt r.user t).get d)
        (d.word.greatest - ((r.profile l.terms.step).demandAt l.terms.step t).get d)) ∧
      (∀ user, user ≠ r.user → ∀ t, k.userDemandAt user t = l.userDemandAt user t) ∧
      (l.Timely → r.InTime l.terms.step →
        (∀ d, l.terms.capacity.get d < d.word.greatest → ∀ t,
          (k.demandAt t).get d = (l.demandAt t).get d ∧
            ∀ user, (k.userDemandAt user t).get d = (l.userDemandAt user t).get d) ∧
        (l.terms.Bounded → k = l)) := by
  refine ⟨m.strike r, remove_eq_ok (get?_self_of_add hadd) rfl, fun id => ?_, fun t d => ?_,
    fun t d => ?_, fun user hother t => ?_, fun h htime => ⟨fun d hbounded t => ?_, ?_⟩⟩
  · exact congrArg (fun reservations => reservations[id]?) (reservations_strike_of_add hadd)
  · exact get_demandAt_strike_of_add hadd
  · exact get_userDemandAt_strike_of_add hadd
  · exact userDemandAt_strike_of_add hadd hother
  · exact h.get_strike_of_add htime hadd hbounded
  · exact h.strike_eq_of_add htime hadd

namespace Sample

/-- Bounded in cores alone: no amount of memory is too much. -/
def lopsidedTerms : Terms :=
  { terms with capacity := .ofAmounts Dimension.memory.word.greatest 10 10 }

/-- Asks for as much memory as can be told. -/
def everything : Reservation :=
  ⟨⟨1⟩, "u1", "dedicated", ⟨0, 10⟩,
    .ofList [(⟨0, 10⟩, .ofAmounts Dimension.memory.word.greatest 1 0)]⟩

/-- The least that can be asked for beside `everything`. -/
def trifle : Reservation :=
  ⟨⟨2⟩, "u2", "dedicated", ⟨0, 10⟩, .ofList [(⟨0, 10⟩, .ofAmounts 1 1 0)]⟩

def lopsided : Ledger :=
  (empty lopsidedTerms).run [.add everything]

theorem timely_lopsided : lopsided.Timely :=
  Timely.run (.opened (rfl : open? "dedicated" 10
    (.ofAmounts Dimension.memory.word.greatest 10 10) .noOverCommit = .ok _)) (by decide)

end Sample

/-- Cores and the demand of `u1` are as before once `trifle` has come and gone, although no word
holds the memory of both reservations. -/
theorem sample_remove_undoes_add :
    ∃ m k, Sample.lopsided.add Sample.trifle = .ok m ∧
      m.remove ⟨2⟩ "u2" = .ok (Sample.trifle, k) ∧
      (∀ t, (k.demandAt t).get .cpu = (Sample.lopsided.demandAt t).get .cpu) ∧
      ∀ t, k.userDemandAt "u1" t = Sample.lopsided.userDemandAt "u1" t := by
  obtain ⟨m, hm⟩ := exists_eq_ok_of_isOk (x := Sample.lopsided.add Sample.trifle)
    (by decide +kernel)
  obtain ⟨k, hremove, _, _, _, hothers, htimely⟩ := remove_undoes_add hm
  have hbounded := (htimely Sample.timely_lopsided (by decide +kernel)).1
  exact ⟨m, k, hm, hremove, fun t => (hbounded .cpu (by decide +kernel) t).1,
    hothers "u1" (by decide)⟩

/-- Once `trifle` has come and gone, the total tells less memory than `everything` alone asks for,
and than it told before. -/
theorem removing_trifle_loses_memory :
    Sample.lopsided.Reachable ∧
    ∃ m k, Sample.lopsided.add Sample.trifle = .ok m ∧
      m.remove Sample.trifle.id Sample.trifle.user = .ok (Sample.trifle, k) ∧
      (Sample.lopsided.demandAt 0).get .memory = Dimension.memory.word.greatest ∧
      (k.demandAt 0).get .memory = Dimension.memory.word.greatest - 1 := by
  obtain ⟨m, hm⟩ := exists_eq_ok_of_isOk (x := Sample.lopsided.add Sample.trifle)
    (by decide +kernel)
  have hbefore : (Sample.lopsided.demandAt 0).get .memory = Dimension.memory.word.greatest := by
    decide +kernel
  have hdemand : ((Sample.trifle.profile Sample.lopsided.terms.step).demandAt
      Sample.lopsided.terms.step 0).get .memory = 1 := by
    decide +kernel
  refine ⟨Sample.timely_lopsided.reachable, m, m.strike Sample.trifle, hm,
    remove_eq_ok (get?_self_of_add hm) rfl, hbefore, ?_⟩
  rw [get_demandAt_strike_of_add hm, hbefore, hdemand]
  omega

end Allotment.Ledger
