import Allotment.Proofs.Binary64.Packing
import Allotment.Proofs.Binary64.Significand

/-!
# The order of quotients

An integer that 64 bits hold becomes the double next to it, and a quotient of two such doubles is
the double next to the quotient of their values. None of these numbers is near the ends of the
range of doubles, so the place of the result in the total order of doubles follows from the exact
quotient alone: the greater of two integers over the same positive total is not further down.
-/

namespace Allotment.Binary64

open Float.Model (Format UnpackedFloat totalExponent)
open Float.Model.UnpackedFloat

variable {x y : Float} {v w : ℚ} {s t : Sign} {m n : ℕ} {e f a b : ℤ}

/-! ## Doubles that are rounded numbers -/

/-- A number well within the range of normal doubles. -/
structure InRange (v : ℚ) : Prop where
  pos : 0 < v
  least : -1074 ≤ lastPlace v
  most : lastPlace v ≤ 970

/-- The double is the number rounded, with the sign. -/
def Stands (x : Float) (s : Sign) (v : ℚ) : Prop :=
  InRange v ∧ ∃ m e hm, IsRounded m e v ∧ x = .ofModel (.pack (.finite s m e hm))

theorem IsRounded.exponent_bounds (h : IsRounded m e v) (hrange : InRange v) :
    -1074 ≤ e ∧ e ≤ 971 := by
  have hle := h.le_exponent
  have hge := h.exponent_le
  have hleast := hrange.least
  have hmost := hrange.most
  omega

theorem exists_unpack (h : Stands x s v) :
    ∃ m e hm, IsRounded m e v ∧ Rounded m e ∧ x.toModel.unpack = .finite s m e hm := by
  obtain ⟨hrange, m, e, hm, hrounded, rfl⟩ := h
  obtain ⟨hleast, hmost⟩ := hrounded.exponent_bounds hrange
  exact ⟨m, e, hm, hrounded, rounded_of_normal hrounded.le hrounded.lt hleast,
    unpack_pack_finite hm hrounded.le hrounded.lt hleast hmost⟩

/-- Exact arithmetic that is rounded in the end. -/
theorem stands_of_reads {acc : Accuracy} (hrange : InRange v) (he : e ≤ lastPlace v)
    (hreads : Reads (.ofMantissaAndAccuracy m acc) (v / 2 ^ e)) :
    Stands (.ofModel (.pack (roundWithAccuracy Format.binary64 s m e acc))) s v := by
  obtain ⟨m', e', hm', hrounded, hround⟩ :=
    exists_isRounded (s := s) hrange.pos he hrange.least hreads
  rw [hround]
  exact ⟨hrange, m', e', hm', hrounded, rfl⟩

theorem word_of_stands (h : Stands x s v) :
    (word x : ℤ) = s.toBitVec.toNat * 2 ^ 63 + place v := by
  obtain ⟨hrange, m, e, hm, hrounded, rfl⟩ := h
  obtain ⟨hleast, hmost⟩ := hrounded.exponent_bounds hrange
  rw [← hrounded.place, ← toNat_pack_finite hm hrounded.le hrounded.lt hleast hmost]
  rfl

theorem place_bounds (hrange : InRange v) : 0 < place v ∧ place v < 2 ^ 63 := by
  have hle := le_units hrange.pos
  have hge := units_le (x := v)
  have hleast := hrange.least
  have hmost := hrange.most
  unfold place
  omega

theorem orderKey_of_positive (h : Stands x .positive v) : orderKey x = place v := by
  have hword := word_of_stands h
  have hbounds := place_bounds h.1
  simp [Sign.toBitVec] at hword
  simp [orderKey, negative]
  omega

theorem orderKey_of_negative (h : Stands x .negative v) : orderKey x = -1 - place v := by
  have hword := word_of_stands h
  have hbounds := place_bounds h.1
  simp [Sign.toBitVec] at hword
  simp [orderKey, negative]
  omega

theorem stands_neg (h : Stands x s v) : Stands (-x) (-s) v := by
  obtain ⟨m, e, hm, hrounded, _, hunpack⟩ := exists_unpack h
  refine ⟨h.1, m, e, hm, hrounded, ?_⟩
  change Float.ofModel (.pack (x.toModel.unpack.neg)) = _
  rw [hunpack]
  rfl

theorem stands_mul_one (h : Stands x s v) : Stands (x * 1.0) s v := by
  obtain ⟨m, e, hm, hrounded, hexact, hunpack⟩ := exists_unpack h
  refine ⟨h.1, m, e, hm, hrounded, ?_⟩
  change Float.ofModel (.pack (UnpackedFloat.mul Format.binary64 x.toModel.unpack
    (1.0 : Float).toModel.unpack)) = _
  rw [hunpack, unpack_one]
  have hsign : s * Sign.positive = s := by cases s <;> rfl
  have hzeros := round_zeros (s := s) hm hexact 52
  simp only [UnpackedFloat.mul, hsign]
  exact congrArg (fun u => Float.ofModel (.pack u)) hzeros

/-! ## Quotients -/

theorem reads_significand : Reads (.ofMantissaAndAccuracy m .exact) ((m : ℚ) * 2 ^ e / 2 ^ e) := by
  rw [mul_div_cancel_right₀ _ (two_zpow_pos e).ne']
  exact reads_exact

theorem significand_pos (hm : 0 < m) (e : ℤ) : 0 < (m : ℚ) * 2 ^ e :=
  mul_pos (by exact_mod_cast hm) (two_zpow_pos e)

theorem sub_one_le_log_div (hv : 0 < v) (hw : 0 < w) :
    Int.log 2 v - Int.log 2 w - 1 ≤ Int.log 2 (v / w) := by
  apply (Int.zpow_le_iff_le_log one_lt_two (div_pos hv hw)).1
  rw [le_div_iff₀ hw]
  calc
    (2 : ℚ) ^ (Int.log 2 v - Int.log 2 w - 1) * w
        ≤ 2 ^ (Int.log 2 v - Int.log 2 w - 1) * 2 ^ (Int.log 2 w + 1) := by
      gcongr
      exact (Int.lt_zpow_succ_log_self (by norm_num) w).le
    _ = 2 ^ Int.log 2 v := by
      rw [← zpow_add₀ two_ne_zero]
      congr 1
      ring
    _ ≤ v := Int.zpow_log_le_self (by norm_num) hv

/-- The significands are divided after the first was extended by zeros. -/
theorem reads_div (hn : 0 < n) {target : ℤ} {k : ℕ} (hexp : target + k = e - f) :
    Reads (.ofMantissaAndAccuracy (m <<< k / n) (accuracyOfFraction (m <<< k % n) n))
      ((m : ℚ) * 2 ^ e / (n * 2 ^ f) / 2 ^ target) := by
  have hsplit : (2 : ℚ) ^ e = 2 ^ k * 2 ^ f * 2 ^ target := by
    rw [← zpow_natCast, ← zpow_add₀ two_ne_zero, ← zpow_add₀ two_ne_zero]
    congr 1
    omega
  have hquotient : (m : ℚ) * 2 ^ e / (n * 2 ^ f) / 2 ^ target = ((m <<< k : ℕ) : ℚ) / n := by
    rw [hsplit, Nat.shiftLeft_eq]
    push_cast
    field_simp
  rw [hquotient]
  exact reads_fraction hn

/-- A division gives all digits of the double next to the quotient, and tells about those behind. -/
theorem divCore_reads (hm : 0 < m) (hn : 0 < n) (e f : ℤ) :
    ∃ digits exponent acc, divCore Format.binary64 m e n f = (digits, exponent, acc) ∧
      exponent ≤ unitPlace ((m : ℚ) * 2 ^ e / (n * 2 ^ f)) ∧
      Reads (.ofMantissaAndAccuracy digits acc) ((m : ℚ) * 2 ^ e / (n * 2 ^ f) / 2 ^ exponent) := by
  have hlow := sub_one_le_log_div (significand_pos hm e) (significand_pos hn f)
  rw [reads_significand.log_eq hm.ne', reads_significand.log_eq hn.ne'] at hlow
  refine ⟨_, _, _, rfl, ?_, reads_div hn (by omega)⟩
  unfold unitPlace lastPlace
  simp only [Format.targetExponent, totalExponent, Format.mantissaBits, Format.minExponent]
  omega

theorem stands_div (hx : Stands x s v) (hy : Stands y t w)
    (hrange : InRange (rounded v / rounded w)) :
    Stands (x / y) (s / t) (rounded v / rounded w) := by
  obtain ⟨m, e, hm, hrounded, -, hunpack⟩ := exists_unpack hx
  obtain ⟨n, f, hn, hrounded', -, hunpack'⟩ := exists_unpack hy
  obtain ⟨digits, exponent, acc, hcore, hexponent, hreads⟩ := divCore_reads hm hn e f
  rw [hrounded.value, hrounded'.value] at hexponent hreads
  rw [unitPlace_of_normal hrange.least] at hexponent
  change Stands (.ofModel (.pack (UnpackedFloat.div Format.binary64 x.toModel.unpack
    y.toModel.unpack))) _ _
  rw [hunpack, hunpack']
  simp only [UnpackedFloat.div, hcore]
  exact stands_of_reads hrange hexponent hreads

/-! ## Integers -/

theorem inRange_of_bounds (hlow : (2 : ℚ) ^ (-64 : ℤ) ≤ v) (hhigh : v < 2 ^ (65 : ℤ)) :
    InRange v := by
  have hpos : 0 < v := (two_zpow_pos _).trans_le hlow
  have hlog : -64 ≤ Int.log 2 v := (Int.zpow_le_iff_le_log one_lt_two hpos).1 hlow
  have hlog' : Int.log 2 v < 65 := (Int.lt_zpow_iff_log_lt one_lt_two hpos).1 hhigh
  refine ⟨hpos, ?_, ?_⟩ <;> unfold lastPlace <;> omega

theorem lastPlace_natCast : lastPlace n = n.log2 - 52 := by
  rw [lastPlace, Int.log_natCast, Nat.log2_eq_log_two]

theorem inRange_natCast (hpos : 0 < n) (hlt : n < 2 ^ 64) : InRange n := by
  have hlog : n.log2 < 64 := (Nat.log2_lt hpos.ne').2 hlt
  refine ⟨by exact_mod_cast hpos, ?_, ?_⟩ <;> rw [lastPlace_natCast] <;> omega

theorem reads_zeros (k : ℕ) :
    Reads (.ofMantissaAndAccuracy (n * 2 ^ k) .exact) ((n : ℚ) / 2 ^ (-k : ℤ)) := by
  have hscale : (n : ℚ) / 2 ^ (-k : ℤ) = (n * 2 ^ k : ℕ) := by
    rw [zpow_neg, div_inv_eq_mul, zpow_natCast]
    push_cast
    rfl
  rw [hscale]
  exact reads_exact

theorem stands_toFloat (hpos : 0 < n) (hlt : n < 2 ^ 64) :
    Stands n.toUInt64.toFloat .positive n := by
  have hword : n.toUInt64.toNat = n := Nat.mod_eq_of_lt hlt
  have hsign : Ord.compare (n : ℤ) 0 = .gt := compare_gt_iff_gt.2 (by omega)
  change Stands (.ofModel (.pack (UnpackedFloat.normalize Format.binary64 n.toUInt64.toNat 0
    .positive))) _ _
  rw [hword]
  unfold UnpackedFloat.normalize
  rw [hsign]
  simp only [UnpackedFloat.round, decreaseExponent, Int.toNat_natCast, zero_sub, Nat.shiftLeft_eq]
  apply stands_of_reads (inRange_natCast hpos hlt)
  · rw [lastPlace_natCast]
    simp only [Format.targetExponent, totalExponent, Format.mantissaBits, Format.minExponent]
    omega
  · exact reads_zeros _

theorem stands_ofNat (hpos : 0 < n) (hlt : n < 2 ^ 64) : Stands (Float.ofNat n) .positive n := by
  unfold Float.ofNat
  change Stands (Float.ofScientific n false 0) _ _
  unfold Float.ofScientific
  split
  · exact stands_mul_one (stands_toFloat hpos hlt)
  · change Stands (.ofModel (.pack (ofScientific Format.binary64 n 0))) _ _
    have hrange : (0 : ℤ) < 2 ^ Format.binary64.exponentBits := by decide
    unfold ofScientific
    rw [dif_neg hpos.ne', if_neg (by omega), if_neg (by omega), if_pos le_rfl]
    simp only [UnpackedFloat.mul]
    apply stands_of_reads (inRange_natCast hpos hlt)
    · rw [lastPlace_natCast]
      simp only [Format.mantissaBits]
      omega
    · have := reads_zeros (n := n) 53
      simpa [Format.mantissaBits, Nat.shiftLeft_eq] using this

theorem stands_ofInt_of_pos (hpos : 0 < a) (hlt : a < 2 ^ 64) :
    Stands (Float.ofInt a) .positive a := by
  cases a with
  | ofNat n => exact stands_ofNat (n := n) (by simpa using hpos) (by simpa using hlt)
  | negSucc n => omega

theorem stands_ofInt_of_neg (hneg : a < 0) (hlt : -2 ^ 64 < a) :
    Stands (Float.ofInt a) .negative (-a) := by
  cases a with
  | ofNat n => exact absurd hneg (by simp)
  | negSucc n =>
      have habs : -((Int.negSucc n : ℤ) : ℚ) = (n + 1 : ℕ) := by
        rw [Int.cast_negSucc, neg_neg]
      rw [habs]
      have hstands : Stands (Float.ofNat (n + 1)) .positive (n + 1 : ℕ) :=
        stands_ofNat (by omega) (by omega)
      have hneg : Float.ofInt (.negSucc n) = -Float.ofNat (n + 1) := by
        unfold Float.ofInt
        rfl
      have hsign : -Sign.positive = .negative := rfl
      rw [hneg, ← hsign]
      exact stands_neg hstands

theorem orderKey_zero_div (hpos : 0 < b) (hlt : b < 2 ^ 64) :
    orderKey (Float.ofInt 0 / Float.ofInt b) = 0 := by
  obtain ⟨m, e, hm, -, -, hunpack⟩ := exists_unpack (stands_ofInt_of_pos hpos hlt)
  have hzero : (Float.ofInt 0).toModel.unpack = .zero .positive := rfl
  change orderKey (.ofModel (.pack (UnpackedFloat.div Format.binary64 (Float.ofInt 0).toModel.unpack
    (Float.ofInt b).toModel.unpack))) = 0
  rw [hunpack, hzero]
  rfl

theorem one_le_rounded (hv : 1 ≤ v) : 1 ≤ rounded v := by
  have hlog : 0 ≤ Int.log 2 v := (Int.zpow_le_iff_le_log one_lt_two (by linarith)).1 (by simpa)
  calc
    (1 : ℚ) ≤ 2 ^ Int.log 2 v := one_le_zpow₀ (by norm_num) hlog
    _ ≤ rounded v := zpow_log_le_rounded (by linarith)

theorem rounded_le (hv : 0 < v) (hlt : v < 2 ^ (64 : ℤ)) : rounded v ≤ 2 ^ (64 : ℤ) := by
  have hlog : Int.log 2 v < 64 := (Int.lt_zpow_iff_log_lt one_lt_two hv).1 hlt
  calc
    rounded v ≤ 2 ^ (Int.log 2 v + 1) := rounded_le_zpow_log
    _ ≤ 2 ^ (64 : ℤ) := zpow_le_zpow_right₀ (by norm_num) (by omega)

theorem inRange_div (hv : 1 ≤ v) (hvlt : v < 2 ^ (64 : ℤ)) (hw : 1 ≤ w) (hwlt : w < 2 ^ (64 : ℤ)) :
    InRange (rounded v / rounded w) := by
  have hvlow := one_le_rounded hv
  have hwlow := one_le_rounded hw
  have hvhigh := rounded_le (by linarith) hvlt
  have hwhigh := rounded_le (by linarith) hwlt
  apply inRange_of_bounds
  · rw [le_div_iff₀ (by linarith), zpow_neg, inv_mul_le_iff₀ (two_zpow_pos _)]
    exact hwhigh.trans (le_mul_of_one_le_right (two_zpow_pos _).le hvlow)
  · rw [div_lt_iff₀ (by linarith)]
    calc
      rounded v ≤ 2 ^ (64 : ℤ) := hvhigh
      _ < 2 ^ (65 : ℤ) := zpow_lt_zpow_right₀ one_lt_two (by norm_num)
      _ ≤ 2 ^ (65 : ℤ) * rounded w := le_mul_of_one_le_right (two_zpow_pos _).le hwlow

/-! ## Quotients by a positive integer -/

section Quotient

variable {total : ℤ} (htotal : 0 < total) (htotalLt : total < 2 ^ 64)

include htotal htotalLt

theorem inRange_quotient (hpos : 0 < a) (hlt : a < 2 ^ 64) :
    InRange (rounded a / rounded total) :=
  inRange_div (by exact_mod_cast hpos) (by exact_mod_cast hlt) (by exact_mod_cast htotal)
    (by exact_mod_cast htotalLt)

theorem orderKey_quotient_of_pos (hpos : 0 < a) (hlt : a < 2 ^ 64) :
    orderKey (Float.ofInt a / Float.ofInt total) = place (rounded a / rounded total) := by
  have hdiv := stands_div (stands_ofInt_of_pos hpos hlt) (stands_ofInt_of_pos htotal htotalLt)
    (inRange_quotient htotal htotalLt hpos hlt)
  have hsign : Sign.positive / Sign.positive = .positive := rfl
  rw [hsign] at hdiv
  exact orderKey_of_positive hdiv

theorem orderKey_quotient_of_neg (hneg : a < 0) (hlt : -2 ^ 64 < a) :
    orderKey (Float.ofInt a / Float.ofInt total) =
      -1 - place (rounded (-a : ℤ) / rounded total) := by
  have hrange := inRange_quotient htotal htotalLt (a := -a) (by omega) (by omega)
  have hstands := stands_ofInt_of_neg hneg hlt
  rw [← Int.cast_neg] at hstands
  have hdiv := stands_div hstands (stands_ofInt_of_pos htotal htotalLt) hrange
  have hsign : Sign.negative / Sign.positive = .negative := rfl
  rw [hsign] at hdiv
  exact orderKey_of_negative hdiv

theorem place_quotient_mono (hpos : 0 < a) (hab : a ≤ b) (hlt : b < 2 ^ 64) :
    place (rounded a / rounded total) ≤ place (rounded b / rounded total) := by
  have hrange := inRange_quotient htotal htotalLt hpos (hab.trans_lt hlt)
  have htotalPos : 0 ≤ rounded (total : ℚ) :=
    zero_le_one.trans (one_le_rounded (by exact_mod_cast htotal))
  have hrounded : rounded (a : ℚ) ≤ rounded b :=
    rounded_mono (by exact_mod_cast hpos) (by exact_mod_cast hab)
  exact place_mono hrange.pos (div_le_div_of_nonneg_right hrounded htotalPos)

/-- The greater of two integers has the quotient further up in the order of doubles. -/
theorem orderKey_quotient_mono (hab : a ≤ b) (halt : -2 ^ 64 < a) (hblt : b < 2 ^ 64) :
    orderKey (Float.ofInt a / Float.ofInt total) ≤
      orderKey (Float.ofInt b / Float.ofInt total) := by
  have hplace {c : ℤ} (hpos : 0 < c) (hlt : c < 2 ^ 64) :=
    (place_bounds (inRange_quotient htotal htotalLt hpos hlt)).1
  rcases lt_trichotomy a 0 with hneg | rfl | hpos
  · have hbelow := hplace (c := -a) (by omega) (by omega)
    rw [orderKey_quotient_of_neg htotal htotalLt hneg halt]
    rcases lt_trichotomy b 0 with hbneg | rfl | hbpos
    · have hmono := place_quotient_mono htotal htotalLt (a := -b) (b := -a) (by omega) (by omega)
        (by omega)
      rw [orderKey_quotient_of_neg htotal htotalLt hbneg (by omega)]
      omega
    · rw [orderKey_zero_div htotal htotalLt]
      omega
    · have habove := hplace hbpos hblt
      rw [orderKey_quotient_of_pos htotal htotalLt hbpos hblt]
      omega
  · rw [orderKey_zero_div htotal htotalLt]
    rcases hab.eq_or_lt with rfl | hbpos
    · rw [orderKey_zero_div htotal htotalLt]
    · rw [orderKey_quotient_of_pos htotal htotalLt hbpos hblt]
      exact (hplace hbpos hblt).le
  · have hbpos : 0 < b := by omega
    rw [orderKey_quotient_of_pos htotal htotalLt hpos (by omega),
      orderKey_quotient_of_pos htotal htotalLt hbpos hblt]
    exact place_quotient_mono htotal htotalLt hpos hab hblt

end Quotient

end Allotment.Binary64
