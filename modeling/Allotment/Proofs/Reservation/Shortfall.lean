import Allotment.Proofs.Reservation.Load

/-!
# Where profiles fall short

A profile stands in for the demand of a reservation, so it should tell no less than the demand at
any instant. In each dimension it does so until the demands have once passed the word: what was cut
off is not there to be subtracted when demands cease, and from the next bucket on the profile may
tell too little. It never tells more than the greatest demand of the bucket.
-/

namespace Allotment

open Demand (Interval Step Profile)

variable {d : Dimension}

/-- A sum of what is not negative is cut off at most once, at the end. -/
theorem Resource.get_sum {l : List Resource} (h : ∀ r ∈ l, 0 ≤ r) :
    (Resource.sum l).get d = d.word.clamp ((l.map fun r => r.get d).sum) := by
  induction l using List.reverseRecOn with
  | nil => simp [Resource.sum, Word.clamp_eq_self Word.holds_zero]
  | append_singleton l r ih =>
      have hl : ∀ x ∈ l, 0 ≤ x := fun x hx => h x (by simp [hx])
      have hr : 0 ≤ r.get d := Resource.get_nonneg (h r (by simp)) d
      have hsum : 0 ≤ (l.map fun r => r.get d).sum := by
        apply List.sum_nonneg
        intro v hv
        obtain ⟨x, hx, rfl⟩ := List.mem_map.1 hv
        exact Resource.get_nonneg (hl x hx) d
      have hlast : Resource.sum (l ++ [r]) = r + Resource.sum l := by
        rw [Resource.add_comm]
        simp [Resource.sum, List.foldl_append]
      rw [hlast, Resource.get_add, ih hl, Word.clamp_add_clamp hr hsum, List.map_append,
        List.sum_append, Int.add_comm]
      simp

namespace Reservation

variable {r : Reservation} {s : Step} {t : Int}

/-- The demand at an instant is the load, up to the greatest amount of the word. -/
theorem Valid.get_demandAt (h : r.Valid) :
    (r.demandAt t).get d = d.word.clamp (r.load d t) := by
  unfold Reservation.demandAt
  rw [Resource.get_sum]
  · rw [List.map_map]
    rfl
  · intro x hx
    obtain ⟨y, hy, rfl⟩ := List.mem_map.1 hx
    exact h.demands_nonneg y (List.mem_filter.1 hy).1

/-- The words hold what a faithful reservation asks for, so nothing of its demand is cut off. -/
theorem Valid.get_demandAt_of_faithful (h : r.Valid) (hfaithful : r.Faithful) :
    (r.demandAt t).get d = r.load d t := by
  rw [h.get_demandAt]
  exact Word.clamp_eq_self_of_le h.load_nonneg (hfaithful d t)

/-- **Profiles tell the demand until it passes the word**, and never more than the greatest load of
a bucket. -/
theorem profile_tells_demand_until_overflow (h : r.Valid) (htime : r.InTime s) (d : Dimension)
    (t : Int) (ht : Word.word64.Holds t) :
    ((∀ u < s.floor t, r.load d u ≤ d.word.greatest) →
      (r.demandAt t).get d ≤ ((r.profile s).demandAt s t).get d) ∧
    ((r.profile s).demandAt s t).get d ≤ d.word.clamp (r.peak s d (s.floor t)) := by
  rw [Profile.demandAt_eq_get_floor (fun _ => h.starts_of_mem_profile htime) ht]
  constructor
  · intro hbefore
    rw [h.get_demandAt, h.get_profile htime Step.dvd_floor hbefore]
    exact Word.clamp_le_clamp (load_le_peak Step.mem_bucket_floor)
  · exact Demand.get_ofIntervals_le (h.demands_inTime htime) h.demands_nonneg Step.dvd_floor

namespace Sample

/-- Asks twice for all memory, and for a core each time; one of the two demands ceases first. -/
def twice : Reservation :=
  ⟨⟨1⟩, "u1", "dedicated", ⟨0, 20⟩,
    .ofList [(⟨0, 10⟩, .ofAmounts Dimension.memory.word.greatest 1 0),
      (⟨0, 20⟩, .ofAmounts Dimension.memory.word.greatest 1 0)]⟩

end Sample

/-- The cores that are still asked for once the first demand has ceased are told. -/
theorem twice_tells_cores :
    (Sample.twice.demandAt 15).get .cpu = 1 ∧
      (Sample.twice.demandAt 15).get .cpu ≤
        ((Sample.twice.profile ⟨10, by decide⟩).demandAt ⟨10, by decide⟩ 15).get .cpu := by
  have hvalid : Sample.twice.Valid := by decide +kernel
  have hdemands : Sample.twice.demands.toList =
      [(⟨0, 10⟩, .ofAmounts Dimension.memory.word.greatest 1 0),
        (⟨0, 20⟩, .ofAmounts Dimension.memory.word.greatest 1 0)] := by
    decide +kernel
  have htime : Sample.twice.InTime ⟨10, by decide⟩ := by decide
  refine ⟨by decide +kernel,
    (profile_tells_demand_until_overflow hvalid htime .cpu 15 (by decide)).1 ?_⟩
  intro u _
  simp only [load, hdemands, Demand.load, Demand.amount_cons, Demand.amount_nil]
  split_ifs <;> decide

/-- Of the memory that is asked for at the same instant the profile tells nothing: both demands
began as one amount, and the first has taken it away. -/
theorem twice_falls_short :
    Sample.twice.Valid ∧ (15 : Int) ∈ Sample.twice.window ∧
      (Sample.twice.demandAt 15).get .memory = Dimension.memory.word.greatest ∧
      ((Sample.twice.profile ⟨10, by decide⟩).demandAt ⟨10, by decide⟩ 15).get .memory = 0 ∧
      ¬Sample.twice.demandAt 15 ≤
        (Sample.twice.profile ⟨10, by decide⟩).demandAt ⟨10, by decide⟩ 15 := by
  decide +kernel

end Reservation

end Allotment
