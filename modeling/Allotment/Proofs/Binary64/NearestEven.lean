import Mathlib.Algebra.Order.Floor.Ring
import Mathlib.Data.Int.Log
import Mathlib.Data.Rat.Floor
import Mathlib.Tactic.Linarith
import Mathlib.Tactic.NormNum
import Mathlib.Tactic.Positivity
import Mathlib.Tactic.Ring

/-!
# Rounding to 53 binary digits

A positive number is rounded to 53 binary digits by writing it in units of its last place and
taking the nearest integer, of two the even one. The greater of two numbers has the greater last
place, or the same one and at least as many units; so rounding keeps the order of numbers, and so
does the place of the rounded number among the bit patterns of positive doubles.

Doubles have neither units below the least one nor finite numbers of any size. A number is
therefore written with less than 53 digits if its last place is too small, and becomes infinite if
it is too great. This keeps the order as well.
-/

namespace Allotment.Binary64

/-! ## The nearest integer -/

/-- The integer nearest to a number; of two that are as near, the even one. -/
def nearestEven (x : ℚ) : ℤ :=
  if Int.fract x < 1 / 2 then ⌊x⌋
  else if Int.fract x = 1 / 2 then ⌊x⌋ + ⌊x⌋ % 2
  else ⌊x⌋ + 1

variable {x y : ℚ} {n : ℤ}

theorem floor_le_nearestEven : ⌊x⌋ ≤ nearestEven x := by
  unfold nearestEven
  split
  · omega
  · split <;> omega

theorem nearestEven_le_floor_add_one : nearestEven x ≤ ⌊x⌋ + 1 := by
  unfold nearestEven
  split
  · omega
  · split <;> omega

theorem nearestEven_of_tie (h : Int.fract x = 1 / 2) : nearestEven x = ⌊x⌋ + ⌊x⌋ % 2 := by
  simp [nearestEven, h]

theorem nearestEven_of_gt (h : 1 / 2 < Int.fract x) : nearestEven x = ⌊x⌋ + 1 := by
  unfold nearestEven
  rw [if_neg h.not_gt, if_neg h.ne']

theorem nearestEven_mono (h : x ≤ y) : nearestEven x ≤ nearestEven y := by
  have hfloor : ⌊x⌋ ≤ ⌊y⌋ := Int.floor_mono h
  have hx := nearestEven_le_floor_add_one (x := x)
  have hy := floor_le_nearestEven (x := y)
  by_cases hlt : ⌊x⌋ < ⌊y⌋
  · omega
  · have hsame : ⌊x⌋ = ⌊y⌋ := by omega
    have hfract : Int.fract x ≤ Int.fract y := by
      unfold Int.fract
      rw [hsame]
      linarith
    rcases lt_trichotomy (Int.fract x) (1 / 2) with hdown | htie | hup
    · have hxfloor : nearestEven x = ⌊x⌋ := if_pos hdown
      omega
    · rcases (htie ▸ hfract).eq_or_lt with hytie | hyup
      · rw [nearestEven_of_tie htie, nearestEven_of_tie hytie.symm, hsame]
      · rw [nearestEven_of_gt hyup]
        omega
    · rw [nearestEven_of_gt (hup.trans_le hfract)]
      omega

theorem le_nearestEven (h : (n : ℚ) ≤ x) : n ≤ nearestEven x :=
  (Int.le_floor.2 h).trans floor_le_nearestEven

theorem nearestEven_le (h : x < n) : nearestEven x ≤ n := by
  have hfloor : ⌊x⌋ < n := Int.floor_lt.2 h
  have hnearest := nearestEven_le_floor_add_one (x := x)
  omega

/-! ## Units of the last place -/

/-- The exponent of the unit in which a number has 53 binary digits. -/
def lastPlace (x : ℚ) : ℤ :=
  Int.log 2 x - 52

/-- The number in units of its last place, rounded. -/
def units (x : ℚ) : ℤ :=
  nearestEven (x / 2 ^ lastPlace x)

/-- The number rounded to 53 binary digits. -/
def rounded (x : ℚ) : ℚ :=
  units x * 2 ^ lastPlace x

/-- The bits of the double next to a number, read as an integer. -/
def place (x : ℚ) : ℤ :=
  (lastPlace x + 1074) * 2 ^ 52 + units x

theorem two_zpow_pos (e : ℤ) : (0 : ℚ) < 2 ^ e :=
  zpow_pos (by norm_num) e

theorem log_eq_of_le_of_lt (hle : (2 : ℚ) ^ n ≤ x) (hlt : x < 2 ^ (n + 1)) :
    Int.log 2 x = n := by
  have hx : 0 < x := (two_zpow_pos n).trans_le hle
  have hlow : n ≤ Int.log 2 x := (Int.zpow_le_iff_le_log one_lt_two hx).1 hle
  have hhigh : Int.log 2 x < n + 1 := (Int.lt_zpow_iff_log_lt one_lt_two hx).1 hlt
  omega

theorem le_div_two_zpow (hx : 0 < x) : (2 : ℚ) ^ 52 ≤ x / 2 ^ lastPlace x := by
  rw [le_div_iff₀ (two_zpow_pos _), ← zpow_natCast, ← zpow_add₀ (by norm_num)]
  have hexp : ((52 : ℕ) : ℤ) + lastPlace x = Int.log 2 x := by
    unfold lastPlace
    omega
  rw [hexp]
  exact Int.zpow_log_le_self (by norm_num) hx

theorem div_two_zpow_lt : x / 2 ^ lastPlace x < (2 : ℚ) ^ 53 := by
  rw [div_lt_iff₀ (two_zpow_pos _), ← zpow_natCast, ← zpow_add₀ (by norm_num)]
  have hexp : ((53 : ℕ) : ℤ) + lastPlace x = Int.log 2 x + 1 := by
    unfold lastPlace
    omega
  rw [hexp]
  exact Int.lt_zpow_succ_log_self (by norm_num) x

theorem le_units (hx : 0 < x) : 2 ^ 52 ≤ units x := by
  apply le_nearestEven
  exact_mod_cast le_div_two_zpow hx

theorem units_le : units x ≤ 2 ^ 53 := by
  apply nearestEven_le
  exact_mod_cast div_two_zpow_lt

/-! ## Rounding keeps the order -/

theorem lastPlace_mono (hx : 0 < x) (h : x ≤ y) : lastPlace x ≤ lastPlace y :=
  Int.sub_le_sub_right (Int.log_mono_right hx h) 52

theorem units_mono (h : x ≤ y) (hplace : lastPlace x = lastPlace y) : units x ≤ units y := by
  unfold units
  rw [hplace]
  exact nearestEven_mono (div_le_div_of_nonneg_right h (two_zpow_pos _).le)

theorem place_mono (hx : 0 < x) (h : x ≤ y) : place x ≤ place y := by
  have hlast := lastPlace_mono hx h
  unfold place
  by_cases hsame : lastPlace x = lastPlace y
  · have hunits := units_mono h hsame
    omega
  · have hleft := units_le (x := x)
    have hright := le_units (hx.trans_le h)
    omega

theorem rounded_mono (hx : 0 < x) (h : x ≤ y) : rounded x ≤ rounded y := by
  have hlast := lastPlace_mono hx h
  by_cases hsame : lastPlace x = lastPlace y
  · have hunits : (units x : ℚ) ≤ units y := by
      exact_mod_cast units_mono h hsame
    unfold rounded
    rw [hsame]
    exact mul_le_mul_of_nonneg_right hunits (two_zpow_pos _).le
  · have hleft : (units x : ℚ) ≤ 2 ^ 53 := by
      exact_mod_cast units_le (x := x)
    have hright : (2 : ℚ) ^ 52 ≤ units y := by
      exact_mod_cast le_units (hx.trans_le h)
    have hunit : (2 : ℚ) ^ (lastPlace x + 1) ≤ 2 ^ lastPlace y :=
      zpow_le_zpow_right₀ (by norm_num) (by omega)
    calc
      rounded x ≤ 2 ^ 53 * 2 ^ lastPlace x :=
        mul_le_mul_of_nonneg_right hleft (two_zpow_pos _).le
      _ = 2 ^ 52 * 2 ^ (lastPlace x + 1) := by
        rw [zpow_add_one₀ (by norm_num)]
        ring
      _ ≤ 2 ^ 52 * 2 ^ lastPlace y := mul_le_mul_of_nonneg_left hunit (by norm_num)
      _ ≤ rounded y := mul_le_mul_of_nonneg_right hright (two_zpow_pos _).le

theorem zpow_log_le_rounded (hx : 0 < x) : (2 : ℚ) ^ Int.log 2 x ≤ rounded x := by
  have hunits : (2 : ℚ) ^ 52 ≤ units x := by
    exact_mod_cast le_units hx
  have hexp : Int.log 2 x = (52 : ℕ) + lastPlace x := by
    unfold lastPlace
    omega
  rw [hexp, zpow_add₀ (by norm_num), zpow_natCast]
  exact mul_le_mul_of_nonneg_right hunits (two_zpow_pos _).le

theorem rounded_le_zpow_log : rounded x ≤ (2 : ℚ) ^ (Int.log 2 x + 1) := by
  have hunits : (units x : ℚ) ≤ 2 ^ 53 := by
    exact_mod_cast units_le (x := x)
  have hexp : Int.log 2 x + 1 = (53 : ℕ) + lastPlace x := by
    unfold lastPlace
    omega
  rw [hexp, zpow_add₀ (by norm_num), zpow_natCast]
  exact mul_le_mul_of_nonneg_right hunits (two_zpow_pos _).le

/-! ## Rounding to a double -/

/-- The exponent of the unit in which the double next to a number is written. -/
def unitPlace (x : ℚ) : ℤ :=
  max (lastPlace x) (-1074)

/-- The number in units of the double next to it, rounded. -/
def doubleUnits (x : ℚ) : ℤ :=
  nearestEven (x / 2 ^ unitPlace x)

/-- The bits of the double next to a positive number, be it infinite, read as an integer. -/
def position (x : ℚ) : ℤ :=
  min ((unitPlace x + 1074) * 2 ^ 52 + doubleUnits x) (0x7FF * 2 ^ 52)

theorem unitPlace_of_normal (h : -1074 ≤ lastPlace x) : unitPlace x = lastPlace x :=
  max_eq_left h

theorem doubleUnits_of_normal (h : -1074 ≤ lastPlace x) : doubleUnits x = units x := by
  rw [doubleUnits, unitPlace_of_normal h, units]

theorem doubleUnits_nonneg (hx : 0 < x) : 0 ≤ doubleUnits x :=
  le_nearestEven (by exact_mod_cast (div_pos hx (two_zpow_pos _)).le)

theorem doubleUnits_le (hx : 0 < x) : doubleUnits x ≤ 2 ^ 53 := by
  apply nearestEven_le
  have hunit : (2 : ℚ) ^ lastPlace x ≤ 2 ^ unitPlace x :=
    zpow_le_zpow_right₀ (by norm_num) (le_max_left _ _)
  calc
    x / 2 ^ unitPlace x ≤ x / 2 ^ lastPlace x :=
      div_le_div_of_nonneg_left hx.le (two_zpow_pos _) hunit
    _ < (2 ^ 53 : ℤ) := by exact_mod_cast div_two_zpow_lt

/-- A number above the least unit has all its digits. -/
theorem le_doubleUnits (hx : 0 < x) (h : -1074 < unitPlace x) : 2 ^ 52 ≤ doubleUnits x := by
  have hnormal : -1074 ≤ lastPlace x := by
    unfold unitPlace at h
    omega
  rw [doubleUnits_of_normal hnormal]
  exact le_units hx

theorem position_mono (hx : 0 < x) (h : x ≤ y) : position x ≤ position y := by
  have hunit : unitPlace x ≤ unitPlace y := max_le_max_right _ (lastPlace_mono hx h)
  apply min_le_min_right
  by_cases hsame : unitPlace x = unitPlace y
  · have hunits : doubleUnits x ≤ doubleUnits y := by
      unfold doubleUnits
      rw [hsame]
      exact nearestEven_mono (div_le_div_of_nonneg_right h (two_zpow_pos _).le)
    omega
  · have hleast : -1074 ≤ unitPlace x := le_max_right _ _
    have hleft := doubleUnits_le hx
    have hright := le_doubleUnits (hx.trans_le h) (by omega)
    omega

theorem position_nonneg (hx : 0 < x) : 0 ≤ position x := by
  have hunit : -1074 ≤ unitPlace x := le_max_right _ _
  have hunits := doubleUnits_nonneg hx
  unfold position
  omega

theorem position_le : position x ≤ 0x7FF * 2 ^ 52 :=
  min_le_right _ _

end Allotment.Binary64
