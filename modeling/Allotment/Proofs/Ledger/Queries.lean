import Allotment.Proofs.Demand.Alignment
import Allotment.Proofs.Ledger.Balance
import Allotment.Proofs.Reservation.Shortfall

/-!
# Questions agree

The phase of a reservation and the list of the active ones are read off the windows, the demand of a
reservation off its intervals, and the total off the profile that is kept along. All the same they
answer alike: the active reservations, one after another, ask for just what all admitted ones ask
for, and the total is never less than that, and no more if nothing begins or ceases inside of a
bucket. The last is so of timely ledgers: the profile of a reservation that is not in time may leave
out what the reservation asks for.
-/

namespace Allotment

open Demand (Interval Step Aligned)

namespace Reservation

variable {r : Reservation} {rs : List Reservation} {s : Step} {d : Dimension} {t : Int}

/-- Earlier start, or the same start and the smaller identifier. -/
def Precedes (a b : Reservation) : Prop :=
  a.window.start < b.window.start ∨ a.window.start = b.window.start ∧ a.id.bits < b.id.bits

theorem sum_demandAt (hvalid : ∀ r ∈ rs, r.Valid) (hfaithful : ∀ r ∈ rs, r.Faithful) :
    (rs.map fun r => (r.demandAt t).get d).sum = totalLoad rs d t := by
  unfold totalLoad
  congr 1
  apply List.map_congr_left
  intro r hr
  exact (hvalid r hr).get_demandAt_of_faithful (hfaithful r hr)

/-- Reservations that are not active ask for nothing. -/
theorem totalLoad_filter_active (hvalid : ∀ r ∈ rs, r.Valid) :
    totalLoad (rs.filter fun r => r.IsActive t) d t = totalLoad rs d t := by
  induction rs with
  | nil => rfl
  | cons r rs ih =>
      obtain ⟨hr, hrs⟩ := List.forall_mem_cons.1 hvalid
      have ih := ih hrs
      unfold totalLoad at ih ⊢
      by_cases hactive : r.IsActive t
      · simp only [List.filter_cons, hactive, decide_true, if_true, List.map_cons, List.sum_cons,
          ih]
      · have hnone : r.load d t = 0 := by
          by_contra hload
          exact hactive (hr.mem_window_of_load_ne_zero hload)
        simp only [List.filter_cons, hactive, decide_false, Bool.false_eq_true, if_false,
          List.map_cons, List.sum_cons, hnone, ih, Int.zero_add]

theorem totalLoad_perm {others : List Reservation} (h : rs.Perm others) :
    totalLoad rs d t = totalLoad others d t :=
  (h.map _).sum_eq

/-- If all demands are aligned, the reservations peak at what they ask for at every instant. -/
theorem totalPeak_of_aligned (h : ∀ r ∈ rs, Aligned s r.demands.toList) :
    totalPeak s rs d (s.floor t) = totalLoad rs d t := by
  unfold totalPeak totalLoad
  congr 1
  apply List.map_congr_left
  intro r hr
  exact (h r hr).peak_eq Step.dvd_floor Step.mem_bucket_floor

end Reservation

namespace Ledger

open Reservation (Precedes totalLoad totalPeak)

variable {l : Ledger} {r : Reservation} {d : Dimension} {t : Int}

/-! ## The active reservations -/

theorem activeAt_perm : (l.activeAt t).Perm (l.admitted.filter fun r => r.IsActive t) :=
  List.mergeSort_perm _ _

theorem phase?_eq_active_iff (h : l.get? r.id = some r) :
    l.phase? r.id t = some .active ↔ r.IsActive t := by
  rw [phase?, h, Option.map_some, Option.some_inj, Reservation.phase_eq_active_iff]

theorem Keyed.mem_activeAt_iff (h : l.Keyed) :
    r ∈ l.activeAt t ↔ l.get? r.id = some r ∧ l.phase? r.id t = some .active := by
  rw [activeAt_perm.mem_iff, List.mem_filter, h.mem_admitted_iff, decide_eq_true_iff]
  exact and_congr_right fun hr => (phase?_eq_active_iff hr).symm

theorem startsBefore_iff {a b : Reservation} :
    startsBefore a b ↔ a.window.start < b.window.start ∨
      a.window.start = b.window.start ∧ a.id.bits ≤ b.id.bits := by
  unfold startsBefore compareLex
  rw [Ordering.isLE_then_iff_or, Ordering.isLE_iff_eq_lt_or_eq_eq]
  simp only [compareOn, compare_lt_iff_lt, compare_eq_iff_eq, ReservationId.compare]
  rw [BitVec.le_def, Nat.le_iff_lt_or_eq]

theorem precedes_of_startsBefore {a b : Reservation} (h : startsBefore a b) (hid : a.id ≠ b.id) :
    Precedes a b := by
  refine (startsBefore_iff.1 h).imp_right fun ⟨hstart, hle⟩ => ⟨hstart, ?_⟩
  have hbits : a.id.bits ≠ b.id.bits := fun heq => hid (congrArg ReservationId.mk heq)
  exact BitVec.lt_of_le_ne hle hbits

theorem pairwise_startsBefore : (l.activeAt t).Pairwise (startsBefore · ·) := by
  apply List.pairwise_mergeSort
  · intro a b c hab hbc
    rw [startsBefore_iff, BitVec.le_def] at hab hbc ⊢
    omega
  · intro a b
    rw [Bool.or_eq_true, startsBefore_iff, startsBefore_iff, BitVec.le_def, BitVec.le_def]
    omega

/-- No two reservations share an identifier, so none of them are level. -/
theorem Keyed.pairwise_activeAt (h : l.Keyed) : (l.activeAt t).Pairwise Precedes := by
  have hids : (l.activeAt t).Pairwise fun a b => a.id ≠ b.id :=
    activeAt_perm.symm.pairwise (h.pairwise_admitted.filter _) fun hne => hne.symm
  exact pairwise_startsBefore.imp₂ (fun _ _ => precedes_of_startsBefore) hids

/-! ## What the active reservations ask for -/

theorem Balanced.sum_activeAt (h : l.Balanced) :
    ((l.activeAt t).map fun r => (r.demandAt t).get d).sum = totalLoad l.admitted d t := by
  have hmem : ∀ r ∈ l.activeAt t, r ∈ l.admitted := fun r hr =>
    (List.mem_filter.1 (activeAt_perm.mem_iff.1 hr)).1
  rw [Reservation.sum_demandAt (fun r hr => h.valid r (hmem r hr))
    fun r hr => h.faithful r (hmem r hr), Reservation.totalLoad_perm activeAt_perm,
    Reservation.totalLoad_filter_active h.valid]

/-- The total tells of an instant what the reservations need in its bucket. -/
theorem Balanced.get_demandAt_eq_totalPeak (h : l.Balanced) (ht : Word.word64.Holds t) :
    (l.demandAt t).get d = totalPeak l.terms.step l.admitted d (l.terms.step.floor t) := by
  unfold Ledger.demandAt
  rw [Demand.Profile.demandAt_eq_get_floor h.total.canonical.aligned ht]
  exact h.total.exact _ d Step.dvd_floor

theorem Balanced.totalLoad_le_demandAt (h : l.Balanced) (ht : Word.word64.Holds t) :
    totalLoad l.admitted d t ≤ (l.demandAt t).get d := by
  rw [h.get_demandAt_eq_totalPeak ht]
  exact Reservation.totalLoad_le_totalPeak Step.mem_bucket_floor

theorem Balanced.demandAt_of_aligned (h : l.Balanced) (ht : Word.word64.Holds t)
    (haligned : ∀ r ∈ l.admitted, Aligned l.terms.step r.demands.toList) :
    (l.demandAt t).get d = totalLoad l.admitted d t := by
  rw [h.get_demandAt_eq_totalPeak ht]
  exact Reservation.totalPeak_of_aligned haligned

/-- **Questions agree.** What the active reservations of a timely ledger ask for adds up to what all
ask for, and the total tells no less, and just that if all intervals are aligned. -/
theorem questions_agree (h : l.Timely) (hbounded : l.terms.Bounded) (t : Int)
    (ht : Word.word64.Holds t) :
    (l.activeAt t).Nodup ∧
    (∀ r, r ∈ l.activeAt t ↔ l.get? r.id = some r ∧ l.phase? r.id t = some .active) ∧
    (l.activeAt t).Pairwise Precedes ∧
    (∀ d, ((l.activeAt t).map fun r => (r.demandAt t).get d).sum = totalLoad l.admitted d t ∧
      ((l.activeAt t).map fun r => (r.demandAt t).get d).sum ≤ (l.demandAt t).get d) ∧
    ((∀ r ∈ l.admitted, Aligned l.terms.step r.demands.toList) →
      ∀ d, ((l.activeAt t).map fun r => (r.demandAt t).get d).sum = (l.demandAt t).get d) := by
  have hl := h.balanced hbounded
  have hkeyed := h.reachable.keyed
  refine ⟨?_, fun r => hkeyed.mem_activeAt_iff, hkeyed.pairwise_activeAt, fun d => ?_, ?_⟩
  · exact activeAt_perm.nodup_iff.2 (hkeyed.nodup_admitted.filter _)
  · exact ⟨hl.sum_activeAt, hl.sum_activeAt ▸ hl.totalLoad_le_demandAt ht⟩
  · intro haligned d
    rw [hl.sum_activeAt, hl.demandAt_of_aligned ht haligned]

/-- Inside of a bucket in which a demand ceases the total of the sample ledger tells more than is
asked for. Of the aligned reservation alone it tells just that. -/
theorem sample_questions_agree :
    ((Sample.ledger.activeAt 17).map fun r => (r.demandAt 17).get .memory).sum = 40 ∧
    (Sample.ledger.demandAt 17).get .memory = 100 ∧
    (∃ r ∈ Sample.ledger.activeAt 17, r.id = Sample.misaligned.id) ∧
    ∀ t, Word.word64.Holds t → ∀ d,
      ((((empty Sample.terms).run [.add Sample.filling]).activeAt t).map
        fun r => (r.demandAt t).get d).sum =
      (((empty Sample.terms).run [.add Sample.filling]).demandAt t).get d := by
  obtain ⟨_, hmem, _, hsum, _⟩ :=
    questions_agree Sample.timely_ledger Sample.bounded_ledger 17 (by decide)
  refine ⟨?_, by decide +kernel, ?_, fun t ht => ?_⟩
  · rw [(hsum .memory).1]
    decide +kernel
  · have hsome : (Sample.ledger.get? Sample.misaligned.id).isSome := by decide +kernel
    have hactive : Sample.ledger.phase? Sample.misaligned.id 17 = some .active := by
      decide +kernel
    obtain ⟨r, hr⟩ := Option.isSome_iff_exists.1 hsome
    have hid := Sample.reachable_ledger.keyed _ r hr
    rw [← hid] at hr hactive
    exact ⟨r, (hmem r).2 ⟨hr, hactive⟩, hid⟩
  · have htimely : ((empty Sample.terms).run [.add Sample.filling]).Timely :=
      Timely.run (.opened Sample.open?_terms) (by decide)
    have hterms : ((empty Sample.terms).run [.add Sample.filling]).terms = Sample.terms :=
      keyed_empty.terms_run _
    have haligned : ∀ r ∈ ((empty Sample.terms).run [.add Sample.filling]).admitted,
        Aligned Sample.terms.step r.demands.toList := by
      decide +kernel
    exact (questions_agree htimely (hterms ▸ Sample.bounded_terms) t ht).2.2.2.2
      (hterms ▸ haligned)

namespace Sample

/-- Took on what asks for memory from the least instant on. -/
def sinceEver : Ledger :=
  (empty terms).run [.add (early ⟨1⟩ ⟨Word.word64.least, 10⟩ (.ofAmounts 60 1 0))]

end Sample

/-- The reservation is active at zero and asks for memory, but the total tells nothing. -/
theorem total_misses_early :
    Sample.sinceEver.Reachable ∧ Sample.sinceEver.terms.Bounded ∧
      ((Sample.sinceEver.activeAt 0).map fun r => (r.demandAt 0).get .memory).sum = 60 ∧
      (Sample.sinceEver.demandAt 0).get .memory = 0 := by
  refine ⟨Reachable.run (.opened Sample.open?_terms) _, ?_, by decide +kernel, by decide +kernel⟩
  rw [Sample.sinceEver, keyed_empty.terms_run]
  exact Sample.bounded_terms

end Ledger

end Allotment
