import Allotment.Proofs.Ledger.Canonical

/-!
# One dimension of a ledger

A capacity may be bounded in one dimension and not in another. In a dimension in which it is below
the greatest amount, the books of every timely ledger tell the exact sums, although sums may be cut
off in the other dimensions. For the first bucket in which the word cannot hold the
sum would be seen by the admission rule: it stands there with the greatest amount.
-/

namespace Allotment.Ledger

open Demand (Profile Step)
open Reservation (totalPeak)

variable {l m : Ledger} {r : Reservation} {d : Dimension} {b : Int}

/-- In one dimension the books tell the exact sums, and the words hold the loads of each
reservation. -/
structure ExactIn (l : Ledger) (d : Dimension) : Prop where
  valid : ∀ r ∈ l.admitted, r.Valid
  inTime : ∀ r ∈ l.admitted, r.InTime l.terms.step
  holds : ∀ r ∈ l.admitted, ∀ t, r.load d t ≤ d.word.greatest
  total : Tells l.terms.step l.total l.admitted d
  user : ∀ user, Tells l.terms.step (l.userDemand user) (l.ownedBy user) d

theorem exactIn_empty {terms : Terms} : (empty terms).ExactIn d := by
  have hnone : (empty terms).admitted = [] := by simp [admitted, empty]
  have hdemand : ∀ user, (empty terms).userDemand user = ∅ := by simp [userDemand, empty]
  have htells : Tells terms.step ∅ [] d := ⟨fun b _ => by simp [totalPeak], fun b _ => by simp⟩
  refine ⟨by simp [hnone], by simp [hnone], by simp [hnone], ?_, fun user => ?_⟩
  · rw [hnone]
    exact htells
  · rw [ownedBy, hnone, hdemand]
    exact htells

theorem ExactIn.strike (h : l.ExactIn d) (hr : l.get? r.id = some r) : (l.strike r).ExactIn d := by
  have hperm := admitted_perm_cons_strike hr
  have hmem : r ∈ l.admitted := hperm.mem_iff.2 List.mem_cons_self
  have hrest : ∀ x ∈ (l.strike r).admitted, x ∈ l.admitted := fun _ => mem_admitted_of_strike
  have hvalid : ∀ x ∈ (l.strike r).admitted, x.Valid := fun x hx => h.valid x (hrest x hx)
  refine ⟨hvalid, fun x hx => h.inTime x (hrest x hx), fun x hx => h.holds x (hrest x hx), ?_, ?_⟩
  · exact (h.total.perm hperm).sub (h.valid r hmem) (h.inTime r hmem) hvalid (h.holds r hmem)
  · refine forall_user_of_strike (R := (Tells l.terms.step · · d)) Tells.perm h.user hr
      fun hown => ?_
    exact hown.sub (h.valid r hmem) (h.inTime r hmem)
      (fun x hx => hvalid x (List.mem_filter.1 hx).1) (h.holds r hmem)

/-! ## What has been added fits the word -/

/-- The candidate of the total stands with the greatest amount in the first bucket in which the word
cannot hold the sum. -/
theorem ExactIn.get_add_of_first_overflow (h : l.ExactIn d) (hr : r.Valid)
    (htime : r.InTime l.terms.step) (hb : l.terms.step.ms ∣ b)
    (hover : d.word.greatest < totalPeak l.terms.step (r :: l.admitted) d b)
    (hbefore : ∀ c < b, l.terms.step.ms ∣ c →
      totalPeak l.terms.step (r :: l.admitted) d c ≤ d.word.greatest) :
    ((l.total + r.profile l.terms.step).get b).get d = d.word.greatest := by
  have hload : ∀ t < b, r.load d t ≤ d.word.greatest := by
    intro t ht
    exact Tells.load_le_greatest h.valid
      (hbefore _ (Int.lt_of_le_of_lt Step.floor_le ht) Step.dvd_floor)
  have hleast := d.word.least_eq
  have hgreatest := d.word.greatest_pos
  rw [h.total.get_add hr htime h.valid hb hload]
  simp only [Word.clamp]
  omega

theorem ExactIn.within_window_of_overflow (h : l.ExactIn d) (hr : r.Valid)
    (hb : l.terms.step.ms ∣ b)
    (hover : d.word.greatest < totalPeak l.terms.step (r :: l.admitted) d b) :
    l.terms.step.floor r.window.start ≤ b ∧ b < r.window.stop := by
  have hword := (Resource.holds_get (l.total.get b) d).2
  rw [h.total.exact b hb] at hword
  rw [Reservation.totalPeak_cons] at hover
  exact hr.within_window_of_peak_ne_zero hb (by omega : r.peak l.terms.step d b ≠ 0)

section Adding

variable (h : l.ExactIn d) (hcanonical : l.Canonical)
  (hbounded : l.terms.capacity.get d < d.word.greatest) (htime : r.InTime l.terms.step)
  (hadd : l.add r = .ok m)

include h hcanonical hbounded htime hadd

/-- Where the capacity is bounded, the words hold the sum of the peaks of all reservations and of
what is taken on beside them. -/
theorem ExactIn.totalPeak_le_of_add (hb : l.terms.step.ms ∣ b) :
    totalPeak l.terms.step (r :: l.admitted) d b ≤ d.word.greatest := by
  obtain ⟨hcheck, _, henter⟩ := add_eq_ok_iff.1 hadd
  obtain ⟨_, hr⟩ := checkProposal_eq_ok_iff.1 hcheck
  have hnone := (enter_eq_ok_iff.1 henter).1
  rw [AdmissionRule.violation?_eq, Option.or_eq_none_iff] at hnone
  have hfits := (AdmissionRule.overrun?_eq_none_iff hcanonical.total.add).1 hnone.1
  by_contra hover
  -- the rule would have objected to the first bucket in which the word cannot hold the sum
  obtain ⟨c, ⟨hc, hover⟩, hfirst⟩ := Int.exists_least_of_bdd
    (P := fun c => l.terms.step.ms ∣ c ∧
      d.word.greatest < totalPeak l.terms.step (r :: l.admitted) d c)
    ⟨_, fun c hc => (h.within_window_of_overflow hr hc.1 hc.2).1⟩ ⟨b, hb, Int.not_le.1 hover⟩
  have hbefore : ∀ e < c, l.terms.step.ms ∣ e →
      totalPeak l.terms.step (r :: l.admitted) d e ≤ d.word.greatest := by
    intro e he hdvd
    by_contra hgt
    exact Int.not_le.2 he (hfirst e ⟨hdvd, Int.not_le.1 hgt⟩)
  have hcandidate := h.get_add_of_first_overflow hr htime hc hover hbefore
  obtain ⟨hstart, hstop⟩ := h.within_window_of_overflow hr hc hover
  rw [← hr.align_start htime] at hstart
  refine hfits c hstart hstop ⟨fun hzero => ?_, fun hle => ?_⟩
  · have hgreatest := d.word.greatest_pos
    rw [hzero, Resource.get_zero] at hcandidate
    omega
  · have hle := hle d
    rw [hcandidate] at hle
    omega

theorem ExactIn.load_le_of_add (t : Int) : r.load d t ≤ d.word.greatest :=
  Tells.load_le_greatest h.valid
    (h.totalPeak_le_of_add hcanonical hbounded htime hadd Step.dvd_floor)

theorem ExactIn.of_add : m.ExactIn d := by
  obtain ⟨_, hr⟩ := checkProposal_eq_ok_iff.1 (add_eq_ok_iff.1 hadd).1
  have hsum := fun b (hb : l.terms.step.ms ∣ b) =>
    h.totalPeak_le_of_add hcanonical hbounded htime hadd hb
  have hrholds := h.load_le_of_add hcanonical hbounded htime hadd
  refine ⟨forall_mem_admitted_of_add hadd hr h.valid, ?_,
    forall_mem_admitted_of_add hadd hrholds h.holds, ?_, ?_⟩
  · rw [terms_of_add hadd]
    exact forall_mem_admitted_of_add hadd htime h.inTime
  · rw [terms_of_add hadd, total_of_add hadd]
    exact (h.total.add hr htime h.valid hsum).perm (admitted_perm_of_add hadd).symm
  · rw [terms_of_add hadd]
    refine forall_user_of_add (R := (Tells l.terms.step · · d)) Tells.perm h.user hadd
      fun hown => ?_
    refine hown.add hr htime (fun x hx => h.valid x (List.mem_filter.1 hx).1) fun b hb => ?_
    have hle : totalPeak l.terms.step (l.ownedBy r.user) d b ≤
        totalPeak l.terms.step l.admitted d b := totalPeak_ownedBy_le h.valid
    have hall := hsum b hb
    rw [Reservation.totalPeak_cons] at hall ⊢
    omega

end Adding

/-- The books of a timely ledger are exact in the dimensions in which the capacity is bounded. -/
theorem Timely.exactIn (h : l.Timely) (hbounded : l.terms.capacity.get d < d.word.greatest) :
    l.ExactIn d := by
  refine (Timely.of_strike_of_add
    (P := fun l => l.Canonical ∧ (l.terms.capacity.get d < d.word.greatest → l.ExactIn d))
    ?_ ?_ ?_ h).2 hbounded
  · intro terms
    exact ⟨canonical_empty, fun _ => exactIn_empty⟩
  · rintro l r ⟨hcanonical, hl⟩ hr
    exact ⟨hcanonical.strike, fun hbounded => (hl hbounded).strike hr⟩
  · rintro l r m htime ⟨hcanonical, hl⟩ hadd
    refine ⟨hcanonical.of_add hadd, fun hbounded => ?_⟩
    rw [terms_of_add hadd] at hbounded
    exact (hl hbounded).of_add hcanonical hbounded htime hadd

end Allotment.Ledger
