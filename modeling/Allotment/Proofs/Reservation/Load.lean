import Allotment.Proofs.Demand.Sampling
import Allotment.Reservation.Basic

/-!
# Loads of reservations

What reservations ask for, one by one and together, in integers that no word bounds. A reservation
without defect asks for nothing below zero and for nothing outside of its window. It is in time if
the word holds the first bucket of its window, and faithful if the words hold its own load; then its
profile tells its peaks.
-/

namespace Allotment

open Demand (Interval Step Profile)

namespace Reservation

variable {r : Reservation} {rs others : List Reservation} {s : Step} {d : Dimension} {t b : Int}

/-! ## One reservation -/

/-- What the reservation asks for at an instant. -/
def load (r : Reservation) (d : Dimension) (t : Int) : Int :=
  Demand.load r.demands.toList d t

/-- The greatest load of the reservation in the bucket that starts at `b`. -/
def peak (r : Reservation) (s : Step) (d : Dimension) (b : Int) : Int :=
  Demand.peak s r.demands.toList d b

/-- The words can hold every load of the reservation. -/
def Faithful (r : Reservation) : Prop :=
  ∀ d t, r.load d t ≤ d.word.greatest

/-- The word holds the start of the first bucket of the window, and the end of the window. -/
def InTime (s : Step) (r : Reservation) : Prop :=
  s.Reaches r.window

instance : Decidable (r.InTime s) :=
  inferInstanceAs (Decidable (s.Reaches _))

theorem demandDefect?_eq_none_iff {i : Interval} {demand : Resource} :
    r.demandDefect? i demand = none ↔ ¬i.IsEmpty ∧ i ≤ r.window ∧ 0 ≤ demand := by
  unfold demandDefect?
  by_cases hempty : i.IsEmpty
  · simp [hempty]
  · by_cases hinside : i ≤ r.window
    · simp [hempty, hinside]
    · simp [hempty, hinside]

/-- What a reservation without defect is like. -/
theorem valid_iff :
    r.Valid ↔ r.user ≠ "" ∧ ¬r.window.IsEmpty ∧
      ∀ x ∈ r.demands.toList, ¬x.1.IsEmpty ∧ x.1 ≤ r.window ∧ 0 ≤ x.2 := by
  unfold Valid defect?
  by_cases huser : r.user = ""
  · simp [huser]
  · by_cases hwindow : r.window.IsEmpty
    · simp [huser, hwindow]
    · simp only [String.isEmpty_iff, huser, hwindow, if_false, List.findSome?_eq_none_iff,
        demandDefect?_eq_none_iff]
      simp [huser]

/-- Every demand of a reservation without defect is in order. -/
theorem Valid.demand (h : r.Valid) {x : Interval × Resource} (hx : x ∈ r.demands.toList) :
    ¬x.1.IsEmpty ∧ x.1 ≤ r.window ∧ 0 ≤ x.2 :=
  (valid_iff.1 h).2.2 x hx

theorem Valid.demands_nonneg (h : r.Valid) : ∀ x ∈ r.demands.toList, 0 ≤ x.2 :=
  fun _ hx => (h.demand hx).2.2

theorem Valid.load_nonneg (h : r.Valid) : 0 ≤ r.load d t :=
  Demand.load_nonneg h.demands_nonneg

theorem Valid.peak_nonneg (h : r.Valid) : 0 ≤ r.peak s d b :=
  Demand.peak_nonneg h.demands_nonneg

theorem load_le_peak (ht : t ∈ s.bucket b) : r.load d t ≤ r.peak s d b :=
  Demand.load_le_peak ht

theorem Valid.demands_inTime (h : r.Valid) (htime : r.InTime s) :
    ∀ x ∈ r.demands.toList, s.Reaches x.1 :=
  fun _ hx => htime.mono (h.demand hx).2.1

theorem Valid.align_start (h : r.Valid) (htime : r.InTime s) :
    s.align r.window.start = s.floor r.window.start := by
  have hwindow : ¬r.window.stop ≤ r.window.start := (valid_iff.1 h).2.1
  exact Step.align_eq_floor (htime.aligns (Int.le_refl _) (by omega))

/-- A reservation without defect asks for nothing outside of its window. -/
theorem Valid.mem_window_of_load_ne_zero (h : r.Valid) (hload : r.load d t ≠ 0) :
    t ∈ r.window := by
  obtain ⟨x, hx, _, htx⟩ := Demand.exists_of_load_ne_zero hload
  have hinside := (h.demand hx).2.1
  exact ⟨Int.le_trans hinside.1 htx.1, Int.lt_of_lt_of_le htx.2 hinside.2⟩

/-- Only buckets that meet the window have a peak. -/
theorem Valid.within_window_of_peak_ne_zero (h : r.Valid) (hb : s.ms ∣ b)
    (hpeak : r.peak s d b ≠ 0) : s.floor r.window.start ≤ b ∧ b < r.window.stop := by
  obtain ⟨t, ht, hload⟩ := Demand.exists_load_eq_peak s r.demands.toList d b
  have hmem : t ∈ r.window := by
    apply h.mem_window_of_load_ne_zero (d := d)
    unfold load
    rwa [hload]
  exact ⟨(Step.floor_le_iff hb).2 (Int.lt_of_le_of_lt hmem.1 ht.2),
    Int.lt_of_le_of_lt ht.1 hmem.2⟩

section InTime

variable (h : r.Valid) (htime : r.InTime s)

include h htime

/-- The profile tells the peak of a bucket, up to the greatest amount of the word, if the word holds
all loads before the bucket. -/
theorem Valid.get_profile (hb : s.ms ∣ b) (hbefore : ∀ t < b, r.load d t ≤ d.word.greatest) :
    ((r.profile s).get b).get d = d.word.clamp (r.peak s d b) :=
  Demand.get_ofIntervals (h.demands_inTime htime) h.demands_nonneg hb hbefore

theorem Valid.get_profile_of_le (hle : ∀ t, r.load d t ≤ d.word.greatest) (hb : s.ms ∣ b) :
    ((r.profile s).get b).get d = r.peak s d b := by
  have hholds : ∀ t, d.word.Holds (r.load d t) := by
    intro t
    have hleast := d.word.least_eq
    have hgreatest := d.word.greatest_pos
    have hnonneg := h.load_nonneg (d := d) (t := t)
    exact ⟨by omega, hle t⟩
  exact Demand.get_ofIntervals_of_holds (h.demands_inTime htime) h.demands_nonneg hholds hb

theorem Valid.get_profile_of_faithful (hfaithful : r.Faithful) (hb : s.ms ∣ b) :
    ((r.profile s).get b).get d = r.peak s d b :=
  h.get_profile_of_le htime (hfaithful d) hb

theorem Valid.starts_of_mem_profile (hmem : b ∈ (r.profile s).points) : s.Starts b :=
  Demand.starts_of_mem_ofIntervals (h.demands_inTime htime) hmem

theorem Valid.get_profile_of_not_dvd (hb : ¬s.ms ∣ b) : (r.profile s).get b = 0 :=
  Profile.get_of_not_dvd (fun _ => h.starts_of_mem_profile htime) hb

end InTime

/-- A profile asks for nothing below zero, whatever the reservation asks for and when. -/
theorem profile_nonneg : 0 ≤ (r.profile s).get b := by
  intro d
  rw [Resource.get_zero]
  exact Demand.get_ofIntervals_nonneg

/-! ## Many reservations -/

/-- What the reservations ask for together at an instant. -/
def totalLoad (rs : List Reservation) (d : Dimension) (t : Int) : Int :=
  (rs.map fun r => r.load d t).sum

/-- The sum of the peaks of the reservations in the bucket that starts at `b`. -/
def totalPeak (s : Step) (rs : List Reservation) (d : Dimension) (b : Int) : Int :=
  (rs.map fun r => r.peak s d b).sum

theorem totalPeak_cons : totalPeak s (r :: rs) d b = r.peak s d b + totalPeak s rs d b :=
  List.sum_cons

theorem totalPeak_perm (h : rs.Perm others) : totalPeak s rs d b = totalPeak s others d b :=
  (h.map _).sum_eq

theorem totalPeak_nonneg (h : ∀ r ∈ rs, r.Valid) : 0 ≤ totalPeak s rs d b := by
  apply List.sum_nonneg
  intro v hv
  obtain ⟨r, hr, rfl⟩ := List.mem_map.1 hv
  exact (h r hr).peak_nonneg

theorem totalLoad_nonneg (h : ∀ r ∈ rs, r.Valid) : 0 ≤ totalLoad rs d t := by
  apply List.sum_nonneg
  intro v hv
  obtain ⟨r, hr, rfl⟩ := List.mem_map.1 hv
  exact (h r hr).load_nonneg

theorem totalLoad_le_totalPeak (ht : t ∈ s.bucket b) : totalLoad rs d t ≤ totalPeak s rs d b :=
  List.sum_le_sum fun _ _ => load_le_peak ht

/-- Some of the reservations peak no higher than all of them. -/
theorem totalPeak_le_of_subperm (hsome : rs.Subperm others) (h : ∀ r ∈ others, r.Valid) :
    totalPeak s rs d b ≤ totalPeak s others d b := by
  obtain ⟨kept, hkept, hsub⟩ := hsome
  rw [← totalPeak_perm hkept]
  apply (hsub.map fun r => r.peak s d b).sum_le_sum
  intro v hv
  obtain ⟨r, hr, rfl⟩ := List.mem_map.1 hv
  exact (h r hr).peak_nonneg

end Reservation

end Allotment
