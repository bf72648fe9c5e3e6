import Mathlib.Algebra.Order.Ring.Int
import Mathlib.Data.Nat.Prime.Basic
import Allotment.Demand.Interval

/-!
# Buckets

Buckets start at the multiples of the step. Where the word holds the start of a bucket, aligning an
instant of the bucket finds it. The bucket that holds the least instant may start below the word;
what aligning then comes to is no multiple of the step, since a step that divides the number of
words divides the least instant too.
-/

namespace Allotment.Demand

variable {s : Step} {t u b : Int} {i j : Interval}

theorem mem_bucket_iff : t ∈ s.bucket b ↔ b ≤ t ∧ t < b + s.ms :=
  Iff.rfl

namespace Step

/-- A bucket starts at `b`, and the word holds its start. -/
def Starts (s : Step) (b : Int) : Prop :=
  s.ms ∣ b ∧ Word.word64.Holds b

/-- The word holds the start of the bucket that holds the instant. -/
def Aligns (s : Step) (t : Int) : Prop :=
  Word.word64.Holds (s.floor t)

/-- The word holds the start of the first bucket of the interval, and its end. -/
def Reaches (s : Step) (i : Interval) : Prop :=
  Word.word64.least ≤ s.floor i.start ∧ i.stop ≤ Word.word64.greatest

instance : Decidable (s.Starts b) :=
  inferInstanceAs (Decidable (_ ∧ _))

instance : Decidable (s.Aligns t) :=
  inferInstanceAs (Decidable (Word.Holds _ _))

instance : Decidable (s.Reaches i) :=
  inferInstanceAs (Decidable (_ ∧ _))

/-! ## The start of a bucket -/

theorem dvd_floor : s.ms ∣ s.floor t :=
  Dvd.intro_left (t / s.ms) rfl

theorem floor_of_dvd (hb : s.ms ∣ b) : s.floor b = b :=
  Int.ediv_mul_cancel hb

/-- Buckets are told apart by multiples of the step. -/
theorem floor_le_iff (hb : s.ms ∣ b) : s.floor t ≤ b ↔ t < b + s.ms := by
  obtain ⟨k, rfl⟩ := hb
  have hstep : s.ms * k + s.ms = (k + 1) * s.ms := by
    rw [Int.add_mul, Int.one_mul, Int.mul_comm]
  rw [hstep, ← Int.ediv_lt_iff_lt_mul s.pos, Int.lt_add_one_iff, floor, Int.mul_comm s.ms]
  exact Int.mul_le_mul_iff_of_pos_right s.pos

theorem floor_le_floor (h : t ≤ u) : s.floor t ≤ s.floor u :=
  (floor_le_iff dvd_floor).2 (Int.lt_of_le_of_lt h lt_floor_add)

theorem floor_eq_of_mem (hb : s.ms ∣ b) (ht : t ∈ s.bucket b) : s.floor t = b := by
  obtain ⟨hle, hlt⟩ := mem_bucket_iff.1 ht
  apply Int.le_antisymm ((floor_le_iff hb).2 hlt)
  rw [← floor_of_dvd hb]
  exact floor_le_floor hle

/-! ## Where aligning finds it -/

theorem align_eq_floor (h : s.Aligns t) : s.align t = s.floor t :=
  Word.wrap_eq_self h

theorem Starts.aligns (h : s.Starts b) : s.Aligns b := by
  unfold Aligns
  rw [floor_of_dvd h.1]
  exact h.2

theorem Starts.align_eq (h : s.Starts b) : s.align b = b := by
  rw [align_eq_floor h.aligns, floor_of_dvd h.1]

theorem Reaches.mono (h : s.Reaches j) (hle : i ≤ j) : s.Reaches i :=
  ⟨Int.le_trans h.1 (floor_le_floor hle.1), Int.le_trans hle.2 h.2⟩

theorem Reaches.aligns (h : s.Reaches i) (hstart : i.start ≤ t) (hstop : t ≤ i.stop) :
    s.Aligns t :=
  ⟨Int.le_trans h.1 (floor_le_floor hstart),
    Int.le_trans floor_le (Int.le_trans hstop h.2)⟩

/-- A step that divides the number of words is a power of two, and smaller than half of them. -/
theorem dvd_least (h : s.ms ∣ (Word.word64.modulus : Int)) : s.ms ∣ Word.word64.least := by
  obtain ⟨n, hn⟩ := Int.eq_ofNat_of_zero_le s.pos.le
  have hmodulus : Word.word64.modulus = 2 ^ 64 := rfl
  have hleast : Word.word64.least = -((2 ^ 63 : Nat) : Int) := rfl
  rw [hn, Int.natCast_dvd_natCast, hmodulus, Nat.dvd_prime_pow Nat.prime_two] at h
  obtain ⟨k, _, hk⟩ := h
  have hlt : 2 ^ k < 2 ^ 63 := by
    have hstep := s.le_greatest
    rw [hn, hk] at hstep
    simp only [Word.greatest] at hstep
    omega
  have hexp : k < 63 := (Nat.pow_lt_pow_iff_right (by decide)).1 hlt
  rw [hn, hk, hleast, Int.dvd_neg, Int.natCast_dvd_natCast]
  exact Nat.pow_dvd_pow 2 hexp.le

/-- Where aligning leaves the bucket, it does not find the start of another one. -/
theorem not_dvd_align (ht : Word.word64.Holds t) (h : ¬s.Aligns t) : ¬s.ms ∣ s.align t := by
  have hle := floor_le (s := s) (t := t)
  have hlt := lt_floor_add (s := s) (t := t)
  have hstep := s.le_greatest
  have hunder : s.floor t < Word.word64.least := by
    by_contra hge
    exact h ⟨Int.not_lt.1 hge, Int.le_trans hle ht.2⟩
  have hwrap : s.align t = s.floor t + Word.word64.modulus := by
    simp only [Word.Holds, Word.least, Word.greatest] at ht hstep hunder
    simp only [align, Word.wrap, Word.modulus, Int.bmod]
    omega
  intro hdvd
  rw [hwrap, Int.dvd_add_right dvd_floor] at hdvd
  -- otherwise a bucket would start at the least instant, and this one no earlier
  have hleast : s.floor Word.word64.least ≤ s.floor t := floor_le_floor ht.1
  rw [floor_of_dvd (dvd_least hdvd)] at hleast
  omega

/-! ## The buckets of an interval -/

theorem lt_stop_of_mem_buckets (h : b ∈ s.buckets i) : b < i.stop := by
  simp only [buckets, List.mem_map, List.mem_range, Int.lt_toNat] at h
  obtain ⟨k, hk, rfl⟩ := h
  rw [← Int.add_one_le_iff, Int.le_ediv_iff_mul_le s.pos, Int.add_mul, Int.one_mul] at hk
  omega

/-- Some instant of the bucket is in the interval if each begins before the other ends. -/
theorem exists_mem_bucket_iff (hi : i.start < i.stop) :
    (∃ t ∈ s.bucket b, t ∈ i) ↔ i.start < b + s.ms ∧ b < i.stop := by
  have hpos := s.pos
  constructor
  · rintro ⟨t, ht, hti⟩
    exact ⟨Int.lt_of_le_of_lt hti.1 ht.2, Int.lt_of_le_of_lt ht.1 hti.2⟩
  · rintro ⟨hstart, hstop⟩
    exact ⟨max b i.start, mem_bucket_iff.2 (by omega), Interval.mem_iff.2 (by omega)⟩

theorem mem_buckets (hi : i.start < i.stop) (halign : s.Aligns i.start) :
    b ∈ s.buckets i ↔ s.ms ∣ b ∧ ∃ t ∈ s.bucket b, t ∈ i := by
  rw [exists_mem_bucket_iff hi]
  constructor
  · intro h
    have hstop := lt_stop_of_mem_buckets h
    simp only [buckets, align_eq_floor halign, List.mem_map, List.mem_range] at h
    obtain ⟨k, _, rfl⟩ := h
    have hdvd : s.ms ∣ s.floor i.start + k * s.ms := Int.dvd_add dvd_floor (Dvd.intro_left _ rfl)
    refine ⟨hdvd, (floor_le_iff hdvd).1 ?_, hstop⟩
    have := Int.mul_nonneg (Int.natCast_nonneg k) s.pos.le
    omega
  · rintro ⟨hdvd, hstart, hstop⟩
    have hle : s.floor i.start ≤ b := (floor_le_iff hdvd).2 hstart
    obtain ⟨k, hk⟩ : s.ms ∣ b - s.floor i.start := Int.dvd_sub hdvd dvd_floor
    have hk0 : 0 ≤ k := by
      by_contra hneg
      have := Int.mul_neg_of_pos_of_neg s.pos (Int.not_le.1 hneg)
      omega
    simp only [buckets, align_eq_floor halign, List.mem_map, List.mem_range, Int.lt_toNat]
    refine ⟨k.toNat, ?_, ?_⟩
    · rw [← Int.add_one_le_iff, Int.le_ediv_iff_mul_le s.pos, Int.add_mul, Int.one_mul,
        Int.toNat_of_nonneg hk0, Int.mul_comm]
      omega
    · rw [Int.toNat_of_nonneg hk0, Int.mul_comm]
      omega

end Step

end Allotment.Demand
