import Allotment.Proofs.Binary64.NearestEven
import Allotment.Proofs.Binary64.Quotient

/-!
# Rounding a significand

While a significand is shifted to its exponent, two bits stand for the digits that it loses: the
first of them, and whether any behind it is set. They tell on which side of the middle between two
integers the number lies, so in the end the significand is the nearest integer to the number in
units of its last place.
-/

namespace Allotment.Binary64

open Float.Model (Format UnpackedFloat totalExponent)
open Float.Model.UnpackedFloat

variable {em : ExtendedMantissa} {x : ℚ} {s : Sign} {m num den : ℕ} {e : ℤ} {acc : Accuracy}

/-! ## Lost digits -/

/-- A significand with two bits for the lost digits, read as the number that it was cut off from. -/
structure Reads (em : ExtendedMantissa) (x : ℚ) : Prop where
  floor : ⌊x⌋ = em.mantissa
  roundBit : em.roundBit ↔ 1 / 2 ≤ Int.fract x
  stickyBit : em.stickyBit ↔ Int.fract x ≠ 0 ∧ Int.fract x ≠ 1 / 2

theorem floor_half : ⌊x / 2⌋ = ⌊x⌋ / 2 := by
  exact_mod_cast Int.floor_div_natCast x 2

theorem fract_half : Int.fract (x / 2) = (Int.fract x + (⌊x⌋ % 2 : ℤ)) / 2 := by
  have hsplit : (⌊x⌋ : ℚ) = 2 * (⌊x⌋ / 2 : ℤ) + (⌊x⌋ % 2 : ℤ) := by
    exact_mod_cast (Int.mul_ediv_add_emod ⌊x⌋ 2).symm
  unfold Int.fract
  rw [floor_half]
  linarith

theorem Reads.lost_iff (h : Reads em x) : em.roundBit || em.stickyBit ↔ Int.fract x ≠ 0 := by
  rw [Bool.or_eq_true, h.roundBit, h.stickyBit]
  constructor
  · intro hlost hzero
    rcases hlost with hhalf | hbehind
    · linarith
    · exact hbehind.1 hzero
  · intro hne
    by_cases hhalf : 1 / 2 ≤ Int.fract x
    · exact .inl hhalf
    · exact .inr ⟨hne, fun htie => hhalf htie.ge⟩

/-- The last digit becomes the first of the lost ones. -/
theorem Reads.shiftRightOne (h : Reads em x) : Reads em.shiftRightOne (x / 2) := by
  have hfract := Int.fract_nonneg x
  have hlt := Int.fract_lt_one x
  have hmantissa : ⌊x⌋ % 2 = (em.mantissa % 2 : ℕ) := by
    rw [h.floor]
    rfl
  constructor
  · rw [floor_half, h.floor]
    rfl
  · simp only [ExtendedMantissa.shiftRightOne, bne_iff_ne]
    rw [fract_half, hmantissa]
    rcases Nat.mod_two_eq_zero_or_one em.mantissa with heven | hodd
    · rw [heven]
      norm_num
      linarith
    · rw [hodd]
      norm_num
      linarith
  · simp only [ExtendedMantissa.shiftRightOne]
    rw [h.lost_iff, fract_half, hmantissa]
    rcases Nat.mod_two_eq_zero_or_one em.mantissa with heven | hodd
    · rw [heven]
      push_cast
      constructor
      · intro hne
        exact ⟨fun hzero => hne (by linarith), fun htie => by linarith⟩
      · intro hboth hzero
        exact hboth.1 (by linarith)
    · rw [hodd]
      push_cast
      constructor
      · intro hne
        exact ⟨fun hzero => by linarith, fun htie => hne (by linarith)⟩
      · intro hboth hzero
        exact hboth.2 (by linarith)

theorem Reads.shiftRight (h : Reads em x) (k : ℕ) : Reads (em >>> k) (x / 2 ^ k) := by
  change Reads (Nat.repeat ExtendedMantissa.shiftRightOne k em) _
  induction k with
  | zero => simpa [Nat.repeat] using h
  | succ k ih =>
      rw [pow_succ, ← div_div]
      exact ih.shiftRightOne

theorem Reads.roundedMantissa (h : Reads em x) : (em.roundedMantissa : ℤ) = nearestEven x := by
  obtain ⟨mantissa, roundBit, stickyBit⟩ := em
  have hfloor := h.floor
  have hround := h.roundBit
  have hsticky := h.stickyBit
  unfold nearestEven
  rw [hfloor]
  cases roundBit with
  | false =>
      have hdown : Int.fract x < 1 / 2 := by simpa using hround
      rw [if_pos hdown]
      cases stickyBit <;> rfl
  | true =>
      have hhalf : 1 / 2 ≤ Int.fract x := hround.1 rfl
      rw [if_neg hhalf.not_gt]
      cases stickyBit with
      | false =>
          have hpos : Int.fract x ≠ 0 := by linarith
          have htie : Int.fract x = 1 / 2 := by
            by_contra hne
            exact absurd (hsticky.2 ⟨hpos, hne⟩) (by simp)
          rw [if_pos htie]
          rfl
      | true =>
          rw [if_neg (hsticky.1 rfl).2]
          rfl

theorem reads_exact : Reads (.ofMantissaAndAccuracy m .exact) m := by
  constructor <;> simp [ExtendedMantissa.ofMantissaAndAccuracy]

theorem reads_of_remainder (hden : 0 < den) {first behind : Bool}
    (hfirst : first ↔ den ≤ 2 * (num % den))
    (hbehind : behind ↔ num % den ≠ 0 ∧ 2 * (num % den) ≠ den) :
    Reads ⟨num / den, first, behind⟩ ((num : ℚ) / den) := by
  have hdenq : (0 : ℚ) < den := by exact_mod_cast hden
  have hfract : Int.fract ((num : ℚ) / den) = (num % den : ℕ) / (den : ℚ) :=
    Int.fract_div_natCast_eq_div_natCast_mod
  constructor
  · exact Rat.floor_natCast_div_natCast num den
  · rw [hfirst, hfract, div_le_div_iff₀ two_pos hdenq, one_mul, mul_comm 2]
    exact_mod_cast Iff.rfl
  · rw [hbehind, hfract]
    apply and_congr
    · simp only [ne_eq, div_eq_zero_iff, hdenq.ne', or_false, Nat.cast_eq_zero]
    · rw [ne_eq, ne_eq, div_eq_div_iff hdenq.ne' two_ne_zero, one_mul, mul_comm 2]
      exact_mod_cast Iff.rfl

/-- The remainder of a division tells about all digits behind the point of the quotient. -/
theorem reads_fraction (hden : 0 < den) :
    Reads (.ofMantissaAndAccuracy (num / den) (accuracyOfFraction (num % den) den))
      ((num : ℚ) / den) := by
  unfold accuracyOfFraction
  split
  · rename_i hexact
    exact reads_of_remainder hden (by simp; omega) (by simp; omega)
  · rename_i hrest
    rcases hside : Ord.compare (2 * (num % den)) den with _ | _ | _
    · have hless := compare_lt_iff_lt.1 hside
      exact reads_of_remainder hden (by simp; omega) (by simp; omega)
    · have htie := compare_eq_iff_eq.1 hside
      exact reads_of_remainder hden (by simp; omega) (by simp; omega)
    · have hmore := compare_gt_iff_gt.1 hside
      exact reads_of_remainder hden (by simp; omega) (by simp; omega)

/-! ## Rounding to units of the last place -/

variable {hm : 0 < m}

/-- A significand of 53 digits that is a number rounded. -/
structure IsRounded (m : ℕ) (e : ℤ) (x : ℚ) : Prop where
  le : 2 ^ 52 ≤ m
  lt : m < 2 ^ 53
  le_exponent : lastPlace x ≤ e
  exponent_le : e ≤ lastPlace x + 1
  value : (m : ℚ) * 2 ^ e = rounded x
  place : (e + 1074) * 2 ^ 52 + m = place x

theorem Reads.bounds (hreads : Reads (.ofMantissaAndAccuracy m acc) (x / 2 ^ e)) :
    (m : ℚ) * 2 ^ e ≤ x ∧ x < (m + 1) * 2 ^ e := by
  have hfloor : ⌊x / 2 ^ e⌋ = (m : ℤ) := by
    rw [hreads.floor]
    unfold ExtendedMantissa.ofMantissaAndAccuracy
    split <;> rfl
  obtain ⟨hle, hlt⟩ := Int.floor_eq_iff.1 hfloor
  rw [le_div_iff₀ (two_zpow_pos e)] at hle
  rw [div_lt_iff₀ (two_zpow_pos e)] at hlt
  exact ⟨by exact_mod_cast hle, by exact_mod_cast hlt⟩

theorem Reads.log_eq (hm : m ≠ 0) (hreads : Reads (.ofMantissaAndAccuracy m acc) (x / 2 ^ e)) :
    Int.log 2 x = m.log2 + e := by
  obtain ⟨hle, hlt⟩ := hreads.bounds
  have hlow : (2 : ℚ) ^ m.log2 ≤ m := by
    exact_mod_cast Nat.log2_self_le hm
  have hhigh : (m : ℚ) + 1 ≤ 2 ^ (m.log2 + 1) := by
    exact_mod_cast Nat.lt_log2_self
  apply log_eq_of_le_of_lt
  · calc
      (2 : ℚ) ^ ((m.log2 : ℤ) + e) = 2 ^ m.log2 * 2 ^ e := by
        rw [zpow_add₀ two_ne_zero, zpow_natCast]
      _ ≤ m * 2 ^ e := mul_le_mul_of_nonneg_right hlow (two_zpow_pos e).le
      _ ≤ x := hle
  · calc
      x < (m + 1) * 2 ^ e := hlt
      _ ≤ 2 ^ (m.log2 + 1) * 2 ^ e := mul_le_mul_of_nonneg_right hhigh (two_zpow_pos e).le
      _ = 2 ^ ((m.log2 : ℤ) + e + 1) := by
        rw [← zpow_natCast, ← zpow_add₀ two_ne_zero]
        congr 1
        push_cast
        ring

/-- Rounding finds the unit of the double next to the number, also where all digits lie to the right
of it. -/
theorem Reads.targetExponent_eq (hx : 0 < x) (he : e ≤ unitPlace x)
    (hreads : Reads (.ofMantissaAndAccuracy m acc) (x / 2 ^ e)) :
    Format.binary64.targetExponent (totalExponent m e) = unitPlace x := by
  unfold unitPlace lastPlace at he ⊢
  simp only [Format.targetExponent, totalExponent, Format.mantissaBits, Format.minExponent]
  by_cases hm : m = 0
  · have hlt : x < 2 ^ e := by simpa [hm] using hreads.bounds.2
    have hlog : Int.log 2 x < e := (Int.lt_zpow_iff_log_lt one_lt_two hx).1 hlt
    rw [hm, Nat.log2_zero]
    omega
  · have hlog := hreads.log_eq hm
    omega

/-- A number that is known by digits to the right of its unit is shifted to the unit. -/
theorem shiftToTargetExponent_reads (hx : 0 < x) (he : e ≤ unitPlace x)
    (hreads : Reads (.ofMantissaAndAccuracy m acc) (x / 2 ^ e)) :
    ∃ em, shiftToTargetExponent Format.binary64 m e acc = (em, unitPlace x) ∧
      Reads em (x / 2 ^ unitPlace x) := by
  have htarget := hreads.targetExponent_eq hx he
  have hexp : e + (unitPlace x - e).toNat = unitPlace x := by omega
  have hscale : x / 2 ^ e / 2 ^ (unitPlace x - e).toNat = x / 2 ^ unitPlace x := by
    rw [div_div, ← zpow_natCast, ← zpow_add₀ two_ne_zero, hexp]
  refine ⟨_, ?_, hscale ▸ hreads.shiftRight (unitPlace x - e).toNat⟩
  unfold shiftToTargetExponent shiftToExponent
  rw [htarget]
  simp only [hexp]

/-- A significand that was rounded up to one digit more moves the exponent by one. -/
theorem shiftToTargetExponent_carry (hm : 0 < m) (hle : -1074 < e → 2 ^ 52 ≤ m) (hge : m ≤ 2 ^ 53)
    (he : -1074 ≤ e) :
    ∃ m' k, shiftToTargetExponent Format.binary64 m e .exact = (⟨m', false, false⟩, e + (k : ℕ)) ∧
      m = m' * 2 ^ k ∧ Rounded m' (e + (k : ℕ)) ∧ (k = 0 ∧ m' < 2 ^ 53 ∨ k = 1 ∧ m' = 2 ^ 52) := by
  by_cases hlt : m < 2 ^ 53
  · have hrounded : Rounded m e := by
      by_cases hfull : 2 ^ 52 ≤ m
      · exact rounded_of_normal hfull hlt he
      · obtain rfl : e = -1074 := by omega
        exact rounded_of_least (by omega) hm
    exact ⟨m, 0, by simpa using shiftToTargetExponent_of_rounded hm hrounded, by simp,
      by simpa using hrounded, .inl ⟨rfl, hlt⟩⟩
  · have hcarry : m = 2 ^ 52 * 2 ^ 1 := by omega
    have hrounded : Rounded (2 ^ 52) (e + (1 : ℕ)) :=
      rounded_of_normal le_rfl (by norm_num) (by omega)
    have hagain := shiftToTargetExponent_zeros (by norm_num) hrounded 1
    rw [← hcarry, add_sub_cancel_right] at hagain
    exact ⟨2 ^ 52, 1, hagain, hcarry, hrounded, .inr ⟨rfl, rfl⟩⟩

/-- A positive number is rounded to zero or to a significand in units of the double next to it,
unless a carry has made the unit greater by one digit. -/
theorem roundWithAccuracy_cases (hx : 0 < x) (he : e ≤ unitPlace x)
    (hreads : Reads (.ofMantissaAndAccuracy m acc) (x / 2 ^ e)) :
    (doubleUnits x = 0 ∧ roundWithAccuracy Format.binary64 s m e acc = .zero s) ∨
      ∃ (m' k : ℕ) (hm' : 0 < m'),
        doubleUnits x = (m' * 2 ^ k : ℕ) ∧ (k = 0 ∧ m' < 2 ^ 53 ∨ k = 1 ∧ m' = 2 ^ 52) ∧
          Rounded m' (unitPlace x + k) ∧
          roundWithAccuracy Format.binary64 s m e acc = .finite s m' (unitPlace x + k) hm' := by
  obtain ⟨em, hshift, hem⟩ := shiftToTargetExponent_reads hx he hreads
  have hunits : (em.roundedMantissa : ℤ) = doubleUnits x := hem.roundedMantissa
  have hleast : -1074 ≤ unitPlace x := le_max_right _ _
  have hfull := le_doubleUnits hx
  have hle := doubleUnits_le hx
  rcases Nat.eq_zero_or_pos em.roundedMantissa with hzero | hpos
  · have hplace : unitPlace x = -1074 := by omega
    have hagain : shiftToTargetExponent Format.binary64 0 (-1074) .exact =
        (⟨0, false, false⟩, -1074) := rfl
    refine .inl ⟨by omega, ?_⟩
    unfold roundWithAccuracy
    simp only [hshift, hzero, hplace, hagain, dite_true]
  · obtain ⟨m', k, hagain, hzeros, hrounded, hcarry⟩ :=
      shiftToTargetExponent_carry hpos (by omega) (by omega) hleast
    have hm' : 0 < m' := Nat.pos_of_mul_pos_right (hzeros ▸ hpos)
    refine .inr ⟨m', k, hm', by rw [← hunits, hzeros], hcarry, hrounded, ?_⟩
    unfold roundWithAccuracy
    simp only [hshift, hagain, hm'.ne', dite_false]

theorem exists_isRounded (hx : 0 < x) (he : e ≤ lastPlace x) (hleast : -1074 ≤ lastPlace x)
    (hreads : Reads (.ofMantissaAndAccuracy m acc) (x / 2 ^ e)) :
    ∃ (m' : ℕ) (e' : ℤ) (hm' : 0 < m'), IsRounded m' e' x ∧
      roundWithAccuracy Format.binary64 s m e acc = .finite s m' e' hm' := by
  have hplace := unitPlace_of_normal hleast
  have hunits := doubleUnits_of_normal hleast
  have hle := le_units hx
  rcases roundWithAccuracy_cases (s := s) hx (he.trans_eq hplace.symm) hreads with
    ⟨hzero, _⟩ | ⟨m', k, hm', hzeros, hcarry, _, hround⟩
  · omega
  · rw [hplace] at hround
    rw [hunits] at hzeros
    refine ⟨m', lastPlace x + k, hm', ?_, hround⟩
    constructor
    · rcases hcarry with ⟨rfl, _⟩ | ⟨_, rfl⟩ <;> omega
    · rcases hcarry with ⟨_, hlt⟩ | ⟨_, rfl⟩ <;> omega
    · omega
    · omega
    · unfold rounded
      rw [hzeros, zpow_add₀ two_ne_zero, zpow_natCast]
      push_cast
      ring
    · unfold place
      rcases hcarry with ⟨rfl, _⟩ | ⟨rfl, rfl⟩ <;> omega

end Allotment.Binary64
