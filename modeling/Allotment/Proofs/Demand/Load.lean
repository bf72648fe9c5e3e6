import Mathlib.Algebra.Order.BigOperators.Group.List
import Mathlib.Algebra.Order.Group.Int
import Mathlib.Data.Finset.Lattice.Fold
import Mathlib.Data.Int.Interval
import Allotment.Demand.Profile
import Allotment.Proofs.Demand.Bucket

/-!
# Loads and peaks

What a list of demands asks for, in integers that no word bounds. The load at an instant is the sum
of the demands whose intervals hold the instant, and the peak of a bucket is the greatest load in
it. Nothing here looks at how a profile is computed: loads and peaks are what profiles are measured
against.
-/

namespace Allotment.Demand

variable {demands : List (Interval × Resource)} {d : Dimension} {s : Step} {t b : Int}

/-! ## Amounts of the demands whose intervals pass a test -/

/-- The exact sum, in one dimension, of the demands whose intervals pass the test. -/
def amount (demands : List (Interval × Resource)) (d : Dimension) (test : Interval → Bool) : Int :=
  ((demands.filter fun x => test x.1).map fun x => x.2.get d).sum

/-- What is asked for at an instant. -/
def load (demands : List (Interval × Resource)) (d : Dimension) (t : Int) : Int :=
  amount demands d fun i => t ∈ i

/-- What begins to be asked for at an instant. -/
def arriving (demands : List (Interval × Resource)) (d : Dimension) (t : Int) : Int :=
  amount demands d fun i => ¬i.IsEmpty ∧ i.start = t

/-- What ceases to be asked for at an instant. -/
def leaving (demands : List (Interval × Resource)) (d : Dimension) (t : Int) : Int :=
  amount demands d fun i => ¬i.IsEmpty ∧ i.stop = t

@[simp] theorem amount_nil {test : Interval → Bool} : amount [] d test = 0 := rfl

theorem amount_cons {x : Interval × Resource} {test : Interval → Bool} :
    amount (x :: demands) d test = (if test x.1 then x.2.get d else 0) + amount demands d test := by
  unfold amount
  by_cases h : test x.1
  · simp [h]
  · simp [h]

theorem amount_perm {others : List (Interval × Resource)} {test : Interval → Bool}
    (h : demands.Perm others) : amount demands d test = amount others d test :=
  ((h.filter _).map _).sum_eq

theorem load_cons {x : Interval × Resource} :
    load (x :: demands) d t = (if t ∈ x.1 then x.2.get d else 0) + load demands d t := by
  simp [load, amount_cons]

theorem amount_nonneg {test : Interval → Bool} (h : ∀ x ∈ demands, 0 ≤ x.2) :
    0 ≤ amount demands d test := by
  apply List.sum_nonneg
  intro v hv
  obtain ⟨x, hx, rfl⟩ := List.mem_map.1 hv
  simpa using h x (List.mem_filter.1 hx).1 d

theorem load_nonneg (h : ∀ x ∈ demands, 0 ≤ x.2) : 0 ≤ load demands d t :=
  amount_nonneg h

/-- A demand is part of the load at the instants of its interval. -/
theorem get_le_load {x : Interval × Resource} (h : ∀ x ∈ demands, 0 ≤ x.2) (hx : x ∈ demands)
    (ht : t ∈ x.1) : x.2.get d ≤ load demands d t := by
  apply List.single_le_sum
  · intro v hv
    obtain ⟨y, hy, rfl⟩ := List.mem_map.1 hv
    simpa using h y (List.mem_filter.1 hy).1 d
  · exact List.mem_map.2 ⟨x, List.mem_filter.2 ⟨hx, by simpa using ht⟩, rfl⟩

theorem exists_of_load_ne_zero (h : load demands d t ≠ 0) :
    ∃ x ∈ demands, x.2 ≠ 0 ∧ t ∈ x.1 := by
  by_contra hnone
  apply h
  apply List.sum_eq_zero
  intro v hv
  obtain ⟨x, hx, rfl⟩ := List.mem_map.1 hv
  obtain ⟨hx, ht⟩ := List.mem_filter.1 hx
  by_cases hzero : x.2 = 0
  · simp [hzero]
  · exact absurd ⟨x, hx, hzero, by simpa using ht⟩ hnone

/-! ## From one instant to the next -/

/-- The load moves by what begins and what ceases. -/
theorem load_eq_load_pred :
    load demands d t = load demands d (t - 1) + arriving demands d t - leaving demands d t := by
  induction demands with
  | nil => simp [load, arriving, leaving]
  | cons x demands ih =>
      have hx : (if t ∈ x.1 then x.2.get d else 0) = (if t - 1 ∈ x.1 then x.2.get d else 0) +
          (if ¬x.1.IsEmpty ∧ x.1.start = t then x.2.get d else 0) -
          (if ¬x.1.IsEmpty ∧ x.1.stop = t then x.2.get d else 0) := by
        simp only [Interval.mem_iff, Interval.IsEmpty]
        split_ifs <;> omega
      simp only [arriving, leaving, amount_cons, decide_eq_true_eq] at ih ⊢
      rw [load_cons, load_cons, hx, ih]
      omega

/-- What ceases at an instant was asked for just before. -/
theorem leaving_le_load_pred (h : ∀ x ∈ demands, 0 ≤ x.2) :
    leaving demands d t ≤ load demands d (t - 1) := by
  induction demands with
  | nil => simp [load, leaving]
  | cons x demands ih =>
      have hx : 0 ≤ x.2.get d := by simpa using h x List.mem_cons_self d
      have ih := ih fun y hy => h y (List.mem_cons_of_mem x hy)
      have hstep : (if ¬x.1.IsEmpty ∧ x.1.stop = t then x.2.get d else 0) ≤
          (if t - 1 ∈ x.1 then x.2.get d else 0) := by
        simp only [Interval.mem_iff, Interval.IsEmpty]
        split_ifs <;> omega
      simp only [leaving, amount_cons, decide_eq_true_eq] at ih ⊢
      rw [load_cons]
      omega

/-- Demands begin somewhere. -/
theorem exists_le_start (demands : List (Interval × Resource)) :
    ∃ m, ∀ x ∈ demands, m ≤ x.1.start := by
  induction demands with
  | nil => exact ⟨0, by simp⟩
  | cons x demands ih =>
      obtain ⟨m, hm⟩ := ih
      refine ⟨min m x.1.start, ?_⟩
      intro y hy
      rcases List.mem_cons.1 hy with rfl | hy
      · omega
      · have := hm y hy
        omega

/-! ## Peaks -/

theorem Step.toNat_ne_zero (s : Step) : s.ms.toNat ≠ 0 := by
  have hpos := s.pos
  omega

/-- The greatest load in the bucket that starts at `b`. -/
def peak (s : Step) (demands : List (Interval × Resource)) (d : Dimension) (b : Int) : Int :=
  (Finset.range s.ms.toNat).sup' (Finset.nonempty_range_iff.2 s.toNat_ne_zero) fun k =>
    load demands d (b + k)

theorem load_le_peak (ht : t ∈ s.bucket b) : load demands d t ≤ peak s demands d b := by
  obtain ⟨hstart, hstop⟩ := mem_bucket_iff.1 ht
  have hk : (t - b).toNat ∈ Finset.range s.ms.toNat := by
    rw [Finset.mem_range]
    omega
  have hle := Finset.le_sup' (fun k : Nat => load demands d (b + k)) hk
  have ht : b + (t - b) = t := by omega
  rwa [Int.toNat_of_nonneg (Int.sub_nonneg.2 hstart), ht] at hle

theorem exists_load_eq_peak (s : Step) (demands : List (Interval × Resource)) (d : Dimension)
    (b : Int) : ∃ t ∈ s.bucket b, load demands d t = peak s demands d b := by
  obtain ⟨k, hk, h⟩ := Finset.exists_mem_eq_sup' (Finset.nonempty_range_iff.2 s.toNat_ne_zero)
    fun k : Nat => load demands d (b + k)
  rw [Finset.mem_range] at hk
  exact ⟨b + k, mem_bucket_iff.2 (by omega), h.symm⟩

theorem peak_nonneg (h : ∀ x ∈ demands, 0 ≤ x.2) : 0 ≤ peak s demands d b := by
  obtain ⟨t, _, ht⟩ := exists_load_eq_peak s demands d b
  exact ht ▸ load_nonneg h

theorem isGreatest_peak :
    IsGreatest {v | ∃ t ∈ s.bucket b, v = load demands d t} (peak s demands d b) := by
  constructor
  · obtain ⟨t, ht, h⟩ := exists_load_eq_peak s demands d b
    exact ⟨t, ht, h.symm⟩
  · rintro v ⟨t, ht, rfl⟩
    exact load_le_peak ht

theorem peak_perm {others : List (Interval × Resource)} (h : demands.Perm others) :
    peak s demands d b = peak s others d b := by
  unfold peak
  congr 1
  funext k
  exact amount_perm h

end Allotment.Demand
