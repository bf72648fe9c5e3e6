import Allotment.Proofs.Demand.Sampling

/-!
# Aligned demands

A bucket keeps the greatest load of its instants. If all demands begin and cease at the starts of
buckets, the load does not move inside of a bucket, so the peak is the load at every instant and
sampling loses nothing.
-/

namespace Allotment.Demand

variable {demands : List (Interval × Resource)} {d : Dimension} {s : Step} {t b c : Int}

/-- All demands begin and cease at the starts of buckets. -/
def Aligned (s : Step) (demands : List (Interval × Resource)) : Prop :=
  ∀ x ∈ demands, s.ms ∣ x.1.start ∧ s.ms ∣ x.1.stop

instance (s : Step) (demands : List (Interval × Resource)) : Decidable (Aligned s demands) :=
  inferInstanceAs (Decidable (∀ x ∈ demands, _))

/-- No start of a bucket lies between the start of a bucket and an instant of it. -/
theorem Step.le_iff_of_mem (hb : s.ms ∣ b) (ht : t ∈ s.bucket b) (hc : s.ms ∣ c) :
    c ≤ t ↔ c ≤ b := by
  have hnext : c ≤ b ↔ c < b + s.ms := by
    simpa only [floor_of_dvd hc] using floor_le_iff (t := c) hb
  obtain ⟨hstart, hstop⟩ := mem_bucket_iff.1 ht
  constructor
  · exact fun hle => hnext.2 (Int.lt_of_le_of_lt hle hstop)
  · exact fun hle => Int.le_trans hle hstart

theorem Aligned.mem_iff (h : Aligned s demands) (hb : s.ms ∣ b) (ht : t ∈ s.bucket b)
    {x : Interval × Resource} (hx : x ∈ demands) : t ∈ x.1 ↔ b ∈ x.1 := by
  obtain ⟨hstart, hstop⟩ := h x hx
  rw [Interval.mem_iff, Interval.mem_iff, Step.le_iff_of_mem hb ht hstart, ← Int.not_le,
    Step.le_iff_of_mem hb ht hstop, Int.not_le]

/-- The load stays what it is at the start of the bucket. -/
theorem Aligned.load_eq (h : Aligned s demands) (hb : s.ms ∣ b) (ht : t ∈ s.bucket b) :
    load demands d t = load demands d b := by
  unfold load amount
  congr 2
  apply List.filter_congr
  intro x hx
  simp only [h.mem_iff hb ht hx]

theorem Aligned.peak_eq (h : Aligned s demands) (hb : s.ms ∣ b) (ht : t ∈ s.bucket b) :
    peak s demands d b = load demands d t := by
  obtain ⟨u, hu, hpeak⟩ := exists_load_eq_peak s demands d b
  rw [← hpeak, h.load_eq hb hu, h.load_eq hb ht]

end Allotment.Demand
