import Mathlib
import Allotment.Binary64.Basic

/-!
# Doubles over one

A double over one is the double itself. For a finite double the exact quotient is written with more
digits than a significand has, and rounding takes the additional zeros away again.
-/

namespace Allotment.Binary64

open Float.Model (Format UnpackedFloat totalExponent)
open Float.Model.UnpackedFloat

variable {s : Sign} {m : Nat} {e : Int}

/-! ## Zeros at the end of a significand -/

theorem shiftRight_zeros (m k : Nat) :
    (⟨m * 2 ^ k, false, false⟩ : ExtendedMantissa) >>> k = ⟨m, false, false⟩ := by
  change Nat.repeat ExtendedMantissa.shiftRightOne k _ = _
  induction k generalizing m with
  | zero => simp [Nat.repeat]
  | succ k ih =>
      have hsplit : m * 2 ^ (k + 1) = m * 2 * 2 ^ k := by ring
      rw [hsplit, Nat.repeat, ih]
      simp [ExtendedMantissa.shiftRightOne]

theorem log2_zeros (hm : 0 < m) (k : Nat) : (m * 2 ^ k).log2 = m.log2 + k := by
  induction k with
  | zero => simp
  | succ k ih =>
      have hsplit : m * 2 ^ (k + 1) = 2 * (m * 2 ^ k) := by ring
      have hne : m * 2 ^ k ≠ 0 := by positivity
      rw [hsplit, Nat.log2_two_mul hne, ih]
      rfl

theorem totalExponent_zeros (hm : 0 < m) (k : Nat) :
    totalExponent (m * 2 ^ k) (e - k) = totalExponent m e := by
  simp only [totalExponent, log2_zeros hm]
  push_cast
  ring

/-- A significand with the exponent that rounding gives it. -/
def Rounded (m : Nat) (e : Int) : Prop :=
  Format.binary64.targetExponent (totalExponent m e) = e

theorem shiftToTargetExponent_zeros (hm : 0 < m) (hrounded : Rounded m e) (k : Nat) :
    shiftToTargetExponent Format.binary64 (m * 2 ^ k) (e - k) .exact = (⟨m, false, false⟩, e) := by
  have hshift : (e - (e - k)).toNat = k := by omega
  have hback : e - k + k = e := by omega
  unfold shiftToTargetExponent shiftToExponent
  rw [totalExponent_zeros hm, hrounded]
  simp only [hshift, hback, ExtendedMantissa.ofMantissaAndAccuracy, shiftRight_zeros]

theorem shiftToTargetExponent_of_rounded (hm : 0 < m) (hrounded : Rounded m e) :
    shiftToTargetExponent Format.binary64 m e .exact = (⟨m, false, false⟩, e) := by
  simpa using shiftToTargetExponent_zeros hm hrounded 0

/-- Rounding takes away the zeros that a rounded significand was extended by. -/
theorem round_zeros (hm : 0 < m) (hrounded : Rounded m e) (k : Nat) :
    roundWithAccuracy Format.binary64 s (m * 2 ^ k) (e - k) .exact = .finite s m e hm := by
  unfold roundWithAccuracy
  simp only [shiftToTargetExponent_zeros hm hrounded, ExtendedMantissa.roundedMantissa,
    ExtendedMantissa.accuracy, Accuracy.roundToNearestEven,
    shiftToTargetExponent_of_rounded hm hrounded, hm.ne', dite_false]

/-! ## The quotient -/

theorem rounded_of_least (hlt : m < 2 ^ 52) (hm : 0 < m) : Rounded m (-1074) := by
  have hlog : m.log2 < 52 := (Nat.log2_lt hm.ne').2 hlt
  simp only [Rounded, Format.targetExponent, totalExponent, Format.mantissaBits, Format.minExponent]
  omega

theorem rounded_of_normal (hle : 2 ^ 52 ≤ m) (hlt : m < 2 ^ 53) (he : -1074 ≤ e) : Rounded m e := by
  have hlog : m.log2 = 52 := (Nat.log2_eq_iff (by omega)).2 ⟨hle, hlt⟩
  simp only [Rounded, Format.targetExponent, totalExponent, hlog, Format.mantissaBits,
    Format.minExponent]
  omega

theorem toNat_leading (fraction : BitVec 52) :
    (1#1 ++ fraction).toNat = 2 ^ 52 + fraction.toNat := by
  rw [BitVec.toNat_append, Nat.shiftLeft_eq, Nat.or_comm]
  exact (Nat.or_two_pow_eq_add_of_lt fraction.isLt).trans (Nat.add_comm _ _)

/-- The fields of a finite double hold a significand as long as its exponent allows. -/
theorem rounded_of_unpack {b : BitVec Format.binary64.numBits} {hm : 0 < m}
    (h : unpack Format.binary64 b = .finite s m e hm) : Rounded m e := by
  have hmantissa : (unpackMantissa b).toNat < 2 ^ 52 := (unpackMantissa b).isLt
  rw [unpack.eq_1] at h
  split at h
  · -- infinite or no number
    split at h <;> cases h
  split at h
  · split at h
    · -- a zero
      cases h
    · -- less than any normal double
      rename_i hzero _
      cases h
      rw [hzero]
      exact rounded_of_least hmantissa hm
  · -- normal, with a leading digit that the fields leave out
    rename_i hexponent
    cases h
    have hpos : (unpackExponent b).toNat ≠ 0 := fun h => hexponent (BitVec.eq_of_toNat_eq h)
    rw [toNat_leading (unpackMantissa b)]
    refine rounded_of_normal (by omega) (by omega) ?_
    change -1074 ≤ ((unpackExponent b).toNat : Int) - (1023 + 52)
    omega

theorem divCore_one (hrounded : Rounded m e) :
    ∃ k : Nat, divCore Format.binary64 m e (2 ^ 52) (-52) = (m * 2 ^ k, e - k, .exact) := by
  have htotal : totalExponent (2 ^ 52) (-52) = 1 := by decide +kernel
  -- one digit more than the significand has, unless the exponent cannot be less
  have hle : Format.binary64.targetExponent (totalExponent m e - 1) ≤ e := by
    unfold Rounded at hrounded
    unfold Format.targetExponent at hrounded ⊢
    omega
  obtain ⟨k, hk⟩ := Int.eq_ofNat_of_zero_le (Int.sub_nonneg_of_le hle)
  have htarget : Format.binary64.targetExponent (totalExponent m e - 1) = e - k := by omega
  have hmin : min (e - -52) (e - k) = e - k := by omega
  have hshift : (e - -52 - (e - k)).toNat = k + 52 := by omega
  have hsplit : m <<< (k + 52) = m * 2 ^ k * 2 ^ 52 := by
    rw [Nat.shiftLeft_eq, pow_add, mul_assoc]
  refine ⟨k, ?_⟩
  unfold divCore
  rw [htotal, htarget]
  simp only [hmin, hshift, hsplit]
  rw [Nat.mul_div_cancel _ (by decide), Nat.mul_mod_left]
  rfl

theorem unpack_one : (1.0 : Float).toModel.unpack = .finite .positive (2 ^ 52) (-52) (by decide) :=
  rfl

theorem div_one_of_unpack {u : UnpackedFloat} {b : BitVec Format.binary64.numBits}
    (h : unpack Format.binary64 b = u) :
    UnpackedFloat.div Format.binary64 u (.finite .positive (2 ^ 52) (-52) (by decide)) = u := by
  have hsign (s : Sign) : s / Sign.positive = s := by cases s <;> rfl
  cases u with
  | infinity s => simp only [UnpackedFloat.div, hsign]
  | notANumber => rfl
  | zero s => simp only [UnpackedFloat.div, hsign]
  | finite s m e hm =>
      have hrounded : Rounded m e := rounded_of_unpack h
      obtain ⟨k, hk⟩ := divCore_one hrounded
      simp only [UnpackedFloat.div, hk, hsign]
      exact round_zeros hm hrounded k

theorem pack_unpack_toModel (x : Float) : Float.ofModel (.pack x.toModel.unpack) = x := by
  apply Float.toBits_inj.1
  change UInt64.ofBitVec (pack Format.binary64 (unpack Format.binary64 x.toModel.toBits.toBitVec)) =
    x.toModel.toBits
  rw [pack_unpack_of_valid x.toModel.valid]

/-- A double over one is the double itself. -/
theorem div_one (x : Float) : x / 1.0 = x := by
  have hunpack : unpack Format.binary64 x.toModel.toBits.toBitVec = x.toModel.unpack := rfl
  calc
    x / 1.0 = Float.ofModel (.pack (UnpackedFloat.div Format.binary64 x.toModel.unpack
        (1.0 : Float).toModel.unpack)) := rfl
    _ = Float.ofModel (.pack x.toModel.unpack) := by rw [unpack_one, div_one_of_unpack hunpack]
    _ = x := pack_unpack_toModel x

end Allotment.Binary64
