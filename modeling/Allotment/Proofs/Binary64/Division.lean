import Allotment.Proofs.Binary64.Order

/-!
# Division of what is not negative

A double divided by a positive finite one may be too small for a significand of full length, too
small for any, or too great for a finite double. It is nevertheless in the place of the quotient in
the total order of doubles, those of what overflows level with infinity, so a greater double has a
quotient that is not further down.
-/

namespace Allotment.Binary64

open Float.Model (Format UnpackedFloat totalExponent)
open Float.Model.UnpackedFloat

variable {x y z : Float} {v : ℚ} {m n : ℕ} {e f : ℤ} {acc : Accuracy}

/-! ## The place of a number -/

theorem orderKey_pack_rounded (hm : 0 < m) (hrounded : Rounded m e) :
    orderKey (.ofModel (.pack (.finite .positive m e hm))) =
      min ((e + 1074) * 2 ^ 52 + m) (0x7FF * 2 ^ 52) := by
  have hleast := (hrounded.bounds hm).1
  have hword : (word (.ofModel (.pack (.finite .positive m e hm))) : ℤ) = _ :=
    toNat_pack_rounded (s := .positive) hm hrounded
  simp [Sign.toBitVec] at hword
  simp [orderKey, negative]
  omega

theorem orderKey_round (hv : 0 < v) (he : e ≤ unitPlace v)
    (hreads : Reads (.ofMantissaAndAccuracy m acc) (v / 2 ^ e)) :
    orderKey (.ofModel (.pack (roundWithAccuracy Format.binary64 .positive m e acc))) =
      position v := by
  rcases roundWithAccuracy_cases (s := .positive) hv he hreads with
    ⟨hzero, hround⟩ | ⟨m', k, hm', hzeros, hcarry, hrounded, hround⟩
  · have hleast : -1074 ≤ unitPlace v := le_max_right _ _
    have hfull := le_doubleUnits hv
    have hplace : unitPlace v = -1074 := by omega
    rw [hround, position, hzero, hplace]
    rfl
  · rw [hround, orderKey_pack_rounded hm' hrounded, position, hzeros]
    rcases hcarry with ⟨rfl, _⟩ | ⟨rfl, rfl⟩
    · simp
    · congr 1
      push_cast
      ring

/-- A positive double is in its own place. -/
theorem orderKey_of_finite {hm : 0 < m} (h : x.toModel.unpack = .finite .positive m e hm) :
    orderKey x = position (m * 2 ^ e) := by
  have hrounded : Rounded m e := rounded_of_unpack h
  have hunit : e ≤ unitPlace (m * 2 ^ e) := by
    have hlog := reads_significand (e := e).log_eq hm.ne'
    simp only [Rounded, Format.targetExponent, totalExponent, Format.mantissaBits,
      Format.minExponent] at hrounded
    unfold unitPlace lastPlace
    omega
  have hround := round_zeros (s := .positive) hm hrounded 0
  simp only [pow_zero, mul_one, Nat.cast_zero, sub_zero] at hround
  rw [← pack_unpack_toModel x, h, ← hround]
  exact orderKey_round (significand_pos hm e) hunit reads_significand

theorem orderKey_div {hm : 0 < m} {hn : 0 < n} (hx : x.toModel.unpack = .finite .positive m e hm)
    (hz : z.toModel.unpack = .finite .positive n f hn) :
    orderKey (x / z) = position (m * 2 ^ e / (n * 2 ^ f)) := by
  obtain ⟨digits, exponent, acc, hcore, hexponent, hreads⟩ := divCore_reads hm hn e f
  change orderKey (.ofModel (.pack (UnpackedFloat.div Format.binary64 x.toModel.unpack
    z.toModel.unpack))) = _
  rw [hx, hz]
  simp only [UnpackedFloat.div, hcore]
  exact orderKey_round (div_pos (significand_pos hm e) (significand_pos hn f)) hexponent hreads

/-! ## Doubles that are not negative -/

/-- A double that is zero, a positive number or infinite. -/
structure Nonnegative (x : Float) : Prop where
  nonneg : 0 ≤ orderKey x
  le : orderKey x ≤ orderKey infinity

theorem orderKey_infinity : orderKey infinity = 0x7FF * 2 ^ 52 := by
  decide +kernel

theorem orderKey_of_finite_negative {hm : 0 < m}
    (h : x.toModel.unpack = .finite .negative m e hm) : orderKey x < 0 := by
  have hrounded : Rounded m e := rounded_of_unpack h
  have hleast := (hrounded.bounds hm).1
  have hword : (word (.ofModel (.pack (.finite .negative m e hm))) : ℤ) = _ :=
    toNat_pack_rounded (s := .negative) hm hrounded
  rw [← h, pack_unpack_toModel] at hword
  simp [Sign.toBitVec] at hword
  simp [orderKey, negative]
  omega

theorem Nonnegative.cases (h : Nonnegative x) :
    x = 0.0 ∨ (∃ m e hm, x.toModel.unpack = .finite .positive m e hm) ∨ x = infinity := by
  obtain ⟨hnonneg, hle⟩ := h
  rcases hunpack : x.toModel.unpack with sign | _ | sign | ⟨sign, m, e, hm⟩
  case finite =>
    cases sign with
    | positive => exact .inr (.inl ⟨m, e, hm, rfl⟩)
    | negative => exact absurd hnonneg (orderKey_of_finite_negative hunpack).not_ge
  -- there is only one double of each other kind and sign
  all_goals
    rw [← pack_unpack_toModel x, hunpack] at hnonneg hle ⊢
  case notANumber => exact absurd hle (by decide +kernel)
  case zero =>
    cases sign with
    | positive => exact .inl rfl
    | negative => exact absurd hnonneg (by decide +kernel)
  case infinity =>
    cases sign with
    | positive => exact .inr (.inr rfl)
    | negative => exact absurd hnonneg (by decide +kernel)

theorem nonnegative_zero : Nonnegative 0.0 :=
  ⟨by decide +kernel, by decide +kernel⟩

theorem nonnegative_infinity : Nonnegative infinity :=
  ⟨by decide +kernel, le_rfl⟩

theorem nonnegative_one : Nonnegative 1.0 :=
  ⟨by decide +kernel, by decide +kernel⟩

theorem nonnegative_of_position {v : ℚ} (hv : 0 < v) (h : orderKey x = position v) :
    Nonnegative x := by
  refine ⟨h ▸ position_nonneg hv, ?_⟩
  rw [h, orderKey_infinity]
  exact position_le

/-- A positive finite double is above zero and below infinity. -/
theorem orderKey_of_finite_bounds {hm : 0 < m} (h : x.toModel.unpack = .finite .positive m e hm) :
    orderKey 0.0 < orderKey x ∧ orderKey x < orderKey infinity := by
  have hx := nonnegative_of_position (significand_pos hm e) (orderKey_of_finite h)
  constructor
  · refine lt_of_le_of_ne hx.nonneg fun hkey => ?_
    rw [← eq_of_orderKey_eq hkey] at h
    contradiction
  · refine lt_of_le_of_ne hx.le fun hkey => ?_
    rw [eq_of_orderKey_eq hkey] at h
    contradiction

section Divisor

variable {hn : 0 < n} (hz : z.toModel.unpack = .finite .positive n f hn)

include hz

theorem zero_div_finite : 0.0 / z = 0.0 := by
  have hzero : (0.0 : Float).toModel.unpack = .zero .positive := rfl
  change Float.ofModel (.pack (UnpackedFloat.div Format.binary64 (0.0 : Float).toModel.unpack
    z.toModel.unpack)) = 0.0
  rw [hz, hzero]
  rfl

theorem infinity_div_finite : infinity / z = infinity := by
  have hinfinity : infinity.toModel.unpack = .infinity .positive := rfl
  change Float.ofModel (.pack (UnpackedFloat.div Format.binary64 infinity.toModel.unpack
    z.toModel.unpack)) = infinity
  rw [hz, hinfinity]
  rfl

theorem nonnegative_div (hx : Nonnegative x) : Nonnegative (x / z) := by
  rcases hx.cases with rfl | ⟨m, e, hm, hunpack⟩ | rfl
  · rw [zero_div_finite hz]
    exact nonnegative_zero
  · exact nonnegative_of_position (div_pos (significand_pos hm e) (significand_pos hn f))
      (orderKey_div hunpack hz)
  · rw [infinity_div_finite hz]
    exact nonnegative_infinity

/-- Of two doubles that are not negative, the greater has the quotient further up in the order. -/
theorem orderKey_div_mono (hx : Nonnegative x) (hy : Nonnegative y)
    (hxy : orderKey x ≤ orderKey y) : orderKey (x / z) ≤ orderKey (y / z) := by
  rcases hy.cases with rfl | ⟨m', e', hm', hunpack'⟩ | rfl
  · have hzero : x = 0.0 := eq_of_orderKey_eq (le_antisymm hxy hx.nonneg)
    rw [hzero]
  · rcases hx.cases with rfl | ⟨m, e, hm, hunpack⟩ | rfl
    · rw [zero_div_finite hz]
      exact (nonnegative_div hz hy).nonneg
    · -- a double is in the place of its value, so the greater value is the greater double's
      have hvalue : (m : ℚ) * 2 ^ e ≤ m' * 2 ^ e' := by
        by_contra hless
        have hmono := position_mono (significand_pos hm' e') (not_le.1 hless).le
        rw [← orderKey_of_finite hunpack, ← orderKey_of_finite hunpack'] at hmono
        obtain rfl : x = y := eq_of_orderKey_eq (le_antisymm hxy hmono)
        rw [hunpack] at hunpack'
        cases hunpack'
        exact hless le_rfl
      rw [orderKey_div hunpack hz, orderKey_div hunpack' hz]
      exact position_mono (div_pos (significand_pos hm e) (significand_pos hn f))
        (div_le_div_of_nonneg_right hvalue (significand_pos hn f).le)
    · exact absurd hxy (orderKey_of_finite_bounds hunpack').2.not_ge
  · rw [infinity_div_finite hz]
    exact (nonnegative_div hz hx).le

end Divisor

/-! ## Comparison of doubles that are not negative -/

theorem lt_iff_unpack : x < y ↔ UnpackedFloat.lt x.toModel.unpack y.toModel.unpack :=
  decide_eq_true_iff

theorem le_iff_unpack : x ≤ y ↔ UnpackedFloat.le x.toModel.unpack y.toModel.unpack :=
  decide_eq_true_iff

theorem orderKey_of_finite_eq {hm : 0 < m} (h : x.toModel.unpack = .finite .positive m e hm) :
    orderKey x = (e + 1074) * 2 ^ 52 + m := by
  have hkey := orderKey_pack_rounded hm (rounded_of_unpack h)
  have hlt := (orderKey_of_finite_bounds h).2
  rw [← h, pack_unpack_toModel] at hkey
  rw [orderKey_infinity] at hlt
  omega

theorem finite_lt_iff {hm : 0 < m} {hn : 0 < n}
    (hx : x.toModel.unpack = .finite .positive m e hm)
    (hy : y.toModel.unpack = .finite .positive n f hn) : x < y ↔ orderKey x < orderKey y := by
  obtain ⟨hleast, hmlt, hmle⟩ := Rounded.bounds hm (rounded_of_unpack hx)
  obtain ⟨hleast', hnlt, hnle⟩ := Rounded.bounds hn (rounded_of_unpack hy)
  rw [lt_iff_unpack, hx, hy, orderKey_of_finite_eq hx, orderKey_of_finite_eq hy]
  simp only [UnpackedFloat.lt, UnpackedFloat.compare, beq_iff_eq, Option.some.injEq,
    Ordering.then_eq_lt, compare_lt_iff_lt, compare_eq_iff_eq]
  omega

/-- Where neither double is negative, the comparison of numbers is that in the total order. -/
theorem lt_iff_orderKey_lt (hx : Nonnegative x) (hy : Nonnegative y) :
    x < y ↔ orderKey x < orderKey y := by
  rcases hx.cases with rfl | ⟨m, e, hm, hunpack⟩ | rfl
  · rcases hy.cases with rfl | ⟨n, f, hn, hunpack'⟩ | rfl
    · decide +kernel
    · refine iff_of_true (lt_iff_unpack.2 ?_) (orderKey_of_finite_bounds hunpack').1
      rw [hunpack']
      rfl
    · decide +kernel
  · rcases hy.cases with rfl | ⟨n, f, hn, hunpack'⟩ | rfl
    · refine iff_of_false ?_ (orderKey_of_finite_bounds hunpack).1.not_gt
      rw [lt_iff_unpack, hunpack]
      exact Bool.false_ne_true
    · exact finite_lt_iff hunpack hunpack'
    · refine iff_of_true (lt_iff_unpack.2 ?_) (orderKey_of_finite_bounds hunpack).2
      rw [hunpack]
      rfl
  · refine iff_of_false ?_ hy.le.not_gt
    rw [lt_iff_unpack]
    rcases hy.cases with rfl | ⟨n, f, hn, hunpack'⟩ | rfl
    · exact Bool.false_ne_true
    · rw [hunpack']
      exact Bool.false_ne_true
    · exact Bool.false_ne_true

/-! ## Positive finite doubles -/

theorem exists_unpack_of_positive (hpos : 0.0 < z) (hfinite : kind z = .finite) :
    ∃ n f hn, z.toModel.unpack = .finite .positive n f hn := by
  have hlt := lt_iff_unpack.1 hpos
  rcases hunpack : z.toModel.unpack with sign | _ | sign | ⟨sign, n, f, hn⟩
  case infinity =>
    rw [← pack_unpack_toModel z, hunpack] at hfinite
    cases sign <;> exact absurd hfinite (by decide +kernel)
  all_goals
    rw [hunpack] at hlt
  case finite =>
    cases sign with
    | positive => exact ⟨n, f, hn, rfl⟩
    | negative => contradiction
  all_goals contradiction

theorem not_le_zero {hn : 0 < n} (hz : z.toModel.unpack = .finite .positive n f hn) :
    ¬z ≤ 0.0 := by
  rw [le_iff_unpack, hz]
  exact Bool.false_ne_true

/-! ## Integers -/

section Integer

variable {a b : ℤ}

theorem exists_unpack_ofInt (hpos : 0 < a) (hlt : a < 2 ^ 64) :
    ∃ m e hm, (Float.ofInt a).toModel.unpack = .finite .positive m e hm := by
  obtain ⟨m, e, hm, -, -, hunpack⟩ := exists_unpack (stands_ofInt_of_pos hpos hlt)
  exact ⟨m, e, hm, hunpack⟩

theorem orderKey_ofInt_of_pos (hpos : 0 < a) (hlt : a < 2 ^ 64) :
    orderKey (Float.ofInt a) = place a :=
  orderKey_of_positive (stands_ofInt_of_pos hpos hlt)

theorem place_lt_infinity (hrange : InRange v) : place v < orderKey infinity := by
  have hmost := hrange.most
  have hunits := units_le (x := v)
  rw [orderKey_infinity]
  unfold place
  omega

theorem nonnegative_ofInt (hnonneg : 0 ≤ a) (hlt : a < 2 ^ 64) : Nonnegative (Float.ofInt a) := by
  rcases hnonneg.eq_or_lt with rfl | hpos
  · exact nonnegative_zero
  · have hrange := (stands_ofInt_of_pos hpos hlt).1
    have hkey := orderKey_ofInt_of_pos hpos hlt
    exact ⟨hkey ▸ (place_bounds hrange).1.le, hkey ▸ (place_lt_infinity hrange).le⟩

theorem orderKey_ofInt_mono (hnonneg : 0 ≤ a) (hab : a ≤ b) (hlt : b < 2 ^ 64) :
    orderKey (Float.ofInt a) ≤ orderKey (Float.ofInt b) := by
  rcases hnonneg.eq_or_lt with rfl | hpos
  · exact (nonnegative_ofInt hab hlt).nonneg
  · rw [orderKey_ofInt_of_pos hpos (hab.trans_lt hlt),
      orderKey_ofInt_of_pos (hpos.trans_le hab) hlt]
    exact place_mono (by exact_mod_cast hpos) (by exact_mod_cast hab)

end Integer

end Allotment.Binary64
