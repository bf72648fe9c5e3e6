import Allotment.Proofs.Binary64.Quotient

/-!
# The fields of a double

The bits of a double are its sign, its exponent field and its fraction one after another. Read as an
integer, they therefore count the significands from the least exponent up. The significand and the
exponent of a normal double are read back from them; smaller doubles have the same bits as their
significands, and what is too great for a double has those of infinity.
-/

namespace Allotment.Binary64

open Float.Model (Format)
open Float.Model.UnpackedFloat

variable {s : Sign} {m : ℕ} {e : ℤ}

theorem toNat_packComponents (s : Sign) (exponent : BitVec 11) (mantissa : BitVec 52) :
    (packComponents Format.binary64 s exponent mantissa).toNat =
      s.toBitVec.toNat * 2 ^ 63 + exponent.toNat * 2 ^ 52 + mantissa.toNat := by
  unfold packComponents
  rw [BitVec.toNat_append, BitVec.toNat_append, ← Nat.shiftLeft_add_eq_or_of_lt exponent.isLt,
    ← Nat.shiftLeft_add_eq_or_of_lt mantissa.isLt, Nat.shiftLeft_eq, Nat.shiftLeft_eq]
  ring

theorem unpackSign_packComponents (s : Sign) (exponent : BitVec 11) (mantissa : BitVec 52) :
    unpackSign (packComponents Format.binary64 s exponent mantissa) = s.toBitVec := by
  apply BitVec.eq_of_toNat_eq
  have hword := toNat_packComponents s exponent mantissa
  have hexponent := exponent.isLt
  have hmantissa := mantissa.isLt
  have hsign := s.toBitVec.isLt
  unfold unpackSign
  rw [BitVec.toNat_cast, BitVec.extractLsb_toNat, hword, Nat.shiftRight_eq_div_pow]
  simp
  omega

theorem ofBitVec_toBitVec (s : Sign) : Sign.ofBitVec s.toBitVec = s := by
  cases s <;> rfl

section Normal

variable (hm : 0 < m) (hle : 2 ^ 52 ≤ m) (hlt : m < 2 ^ 53) (hleast : -1074 ≤ e) (hmost : e ≤ 971)

include hle hlt hleast hmost

theorem pack_finite : pack Format.binary64 (.finite s m e hm) =
    packComponents Format.binary64 s (BitVec.ofNat 11 (e + 1075).toNat) (BitVec.ofNat 52 m) := by
  have hlog : m.log2 = 52 := (Nat.log2_eq_iff (by omega)).2 ⟨hle, hlt⟩
  have hbiased : (e + (1023 : ℕ) + (52 : ℕ)).toNat = (e + 1075).toNat := by
    omega
  have hbias : Format.binary64.exponentBias = 1023 := rfl
  unfold pack
  simp only [hlog, hbias, hbiased]
  rw [if_neg (by omega), if_pos (by rfl)]

theorem toNat_pack_finite : ((pack Format.binary64 (.finite s m e hm)).toNat : ℤ) =
    s.toBitVec.toNat * 2 ^ 63 + ((e + 1074) * 2 ^ 52 + m) := by
  rw [pack_finite hm hle hlt hleast hmost, toNat_packComponents, BitVec.toNat_ofNat,
    BitVec.toNat_ofNat]
  omega

theorem unpack_pack_finite :
    unpack Format.binary64 (pack Format.binary64 (.finite s m e hm)) = .finite s m e hm := by
  rw [pack_finite hm hle hlt hleast hmost, unpack.eq_1]
  simp only [unpackMantissa_packComponents, unpackExponent_packComponents,
    unpackSign_packComponents, ofBitVec_toBitVec]
  have hones : BitVec.ofNat 11 (e + 1075).toNat ≠ -1#11 := by
    intro h
    have := congrArg BitVec.toNat h
    simp at this
    omega
  have hzero : BitVec.ofNat 11 (e + 1075).toNat ≠ 0#11 := by
    intro h
    have := congrArg BitVec.toNat h
    simp at this
    omega
  have hmantissa : (1#1 ++ BitVec.ofNat 52 m).toNat = m := by
    rw [toNat_leading, BitVec.toNat_ofNat]
    omega
  have hexponent :
      ((BitVec.ofNat 11 (e + 1075).toNat).toNat : ℤ) - ((1023 : ℕ) + (52 : ℕ)) = e := by
    rw [BitVec.toNat_ofNat]
    omega
  have hbias : Format.binary64.exponentBias = 1023 := rfl
  rw [if_neg hones, if_neg hzero]
  simp only [hmantissa, hbias, hexponent]

end Normal

/-! ## Doubles of any size -/

theorem Rounded.bounds (hm : 0 < m) (hrounded : Rounded m e) :
    -1074 ≤ e ∧ m < 2 ^ 53 ∧ (-1074 < e → 2 ^ 52 ≤ m) := by
  simp only [Rounded, Format.targetExponent, Float.Model.totalExponent, Format.mantissaBits,
    Format.minExponent] at hrounded
  refine ⟨by omega, (Nat.log2_lt hm.ne').1 (by omega), fun h => ?_⟩
  exact (Nat.le_log2 hm.ne').1 (by omega)

theorem toNat_pack_infinity : ((pack Format.binary64 (.infinity s)).toNat : ℤ) =
    s.toBitVec.toNat * 2 ^ 63 + 0x7FF * 2 ^ 52 := by
  change ((packComponents Format.binary64 s (-1#11) 0).toNat : ℤ) = _
  rw [toNat_packComponents]
  simp

theorem toNat_pack_rounded (hm : 0 < m) (hrounded : Rounded m e) :
    ((pack Format.binary64 (.finite s m e hm)).toNat : ℤ) =
      s.toBitVec.toNat * 2 ^ 63 + min ((e + 1074) * 2 ^ 52 + m) (0x7FF * 2 ^ 52) := by
  obtain ⟨hleast, hlt, hfull⟩ := hrounded.bounds hm
  have hbias : Format.binary64.exponentBias = 1023 := rfl
  by_cases hmost : e ≤ 971
  · rw [min_eq_left (by omega)]
    by_cases hle : 2 ^ 52 ≤ m
    · exact toNat_pack_finite hm hle hlt hleast hmost
    · -- less than any normal double
      have hlog : m.log2 < 52 := (Nat.log2_lt hm.ne').2 (by omega)
      unfold pack
      simp only [hbias, Format.mantissaBits]
      rw [if_neg (by omega), if_neg (by omega), toNat_packComponents, BitVec.toNat_ofNat,
        BitVec.toNat_ofNat]
      omega
  · have hinfinite :
        pack Format.binary64 (.finite s m e hm) = pack Format.binary64 (.infinity s) := by
      unfold pack
      simp only [hbias]
      exact if_pos (by omega)
    rw [hinfinite, toNat_pack_infinity, min_eq_right (by omega)]

end Allotment.Binary64
