import Mathlib.Data.Int.Log
import Mathlib.Data.Rat.Floor

/-!
# Rounding to a number of bits

Arithmetic of a binary floating-point format is exact arithmetic whose result
is rounded to the nearest value with so many significant bits, the one with the
even significand if there are two.  The exponent is not bounded here.
-/

namespace GrpcMtk.Rounding

/-- The nearest integer, the even one if there are two. -/
def roundEven (value : ℚ) : ℤ :=
  if Int.fract value < 1 / 2 then ⌊value⌋
  else if 1 / 2 < Int.fract value then ⌊value⌋ + 1
  else ⌊value⌋ + ⌊value⌋ % 2

/-- The exponent of the last of the significant bits of a value. -/
def lastExponent (bits : ℕ) (value : ℚ) : ℤ := Int.log 2 |value| + 1 - bits

/-- The nearest value with so many significant bits. -/
def roundTo (bits : ℕ) (value : ℚ) : ℚ :=
  roundEven (value / 2 ^ lastExponent bits value) *
    2 ^ lastExponent bits value

@[simp]
theorem roundEven_intCast (value : ℤ) : roundEven value = value := by
  rw [roundEven, Int.fract_intCast, if_pos (by norm_num), Int.floor_intCast]

theorem two_zpow_pos (exponent : ℤ) : (0 : ℚ) < 2 ^ exponent :=
  zpow_pos two_pos exponent

/-- The last significant bit of a value does not stand before that of a
significand that is short enough. -/
theorem lastExponent_le {bits : ℕ} {significand : ℤ} (exponent : ℤ)
    (hnonzero : significand ≠ 0) (hshort : |significand| < 2 ^ bits) :
    lastExponent bits (significand * 2 ^ exponent) ≤ exponent := by
  have hpositive := two_zpow_pos exponent
  have hvalue : 0 < |(significand : ℚ) * 2 ^ exponent| :=
    abs_pos.mpr (mul_ne_zero (Int.cast_ne_zero.mpr hnonzero) hpositive.ne')
  have hbound : |(significand : ℚ) * 2 ^ exponent| <
      ((2 : ℕ) : ℚ) ^ (bits + exponent) := by
    rw [abs_mul, abs_of_pos hpositive, Nat.cast_ofNat,
      zpow_add₀ two_ne_zero, zpow_natCast]
    apply mul_lt_mul_of_pos_right _ hpositive
    exact_mod_cast hshort
  have hlog := (Int.lt_zpow_iff_log_lt one_lt_two hvalue).mp hbound
  rw [lastExponent]
  omega

/-- A value with few enough significant bits is not changed. -/
theorem roundTo_of_short {bits : ℕ} {significand : ℤ} (exponent : ℤ)
    (hshort : |significand| < 2 ^ bits) :
    roundTo bits (significand * 2 ^ exponent) =
      significand * 2 ^ exponent := by
  by_cases hzero : significand = 0
  · rw [hzero, Int.cast_zero, zero_mul, roundTo, zero_div, ← Int.cast_zero,
      roundEven_intCast, Int.cast_zero, zero_mul]
  · obtain ⟨shift, hshift⟩ := Int.le.dest (lastExponent_le exponent hzero hshort)
    rw [roundTo]
    generalize lastExponent bits (significand * 2 ^ exponent) = last at hshift
    have hlast := (two_zpow_pos last).ne'
    have hinteger : (significand : ℚ) * 2 ^ exponent / 2 ^ last =
        ((significand * 2 ^ shift : ℤ) : ℚ) := by
      rw [← hshift, zpow_add₀ two_ne_zero, zpow_natCast, mul_left_comm,
        mul_div_cancel_left₀ _ hlast]
      push_cast
      rfl
    rw [hinteger, roundEven_intCast, ← hinteger, div_mul_cancel₀ _ hlast]

theorem roundTo_natCast {bits value : ℕ} (hshort : value < 2 ^ bits) :
    roundTo bits value = value := by
  have hvalue := @roundTo_of_short bits value 0 (by
    rw [Nat.abs_cast]
    exact_mod_cast hshort)
  rwa [zpow_zero, mul_one, Int.cast_natCast] at hvalue

end GrpcMtk.Rounding
