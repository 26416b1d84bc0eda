import RSpark.Rounding

/- Rounding towards zero: the integer that a finite float is cut to. -/
namespace BinaryRounding
open Float.Model Float.Model.UnpackedFloat

/-- The number without the places behind its point. -/
def towardZero (q : ℚ) : ℤ := if 0 ≤ q then ⌊q⌋ else ⌈q⌉

theorem towardZero_neg (q : ℚ) : towardZero (-q) = -towardZero q := by
  rcases lt_trichotomy q 0 with below | rfl | above
  · rw [towardZero, towardZero, if_pos (by linarith), if_neg (by linarith), Int.floor_neg]
  · rw [neg_zero]
    rfl
  · rw [towardZero, towardZero, if_neg (by linarith), if_pos above.le, Int.ceil_neg]

@[simp] theorem towardZero_intCast (n : ℤ) : towardZero n = n := by
  rw [towardZero]
  split
  · exact Int.floor_intCast n
  · exact Int.ceil_intCast n

theorem floor_shiftRight (m k : ℕ) :
    (((ExtendedMantissa.ofMantissaAndAccuracy m .exact) >>> k).mantissa : ℤ) =
      ⌊(m : ℚ) / 2 ^ k⌋ := by
  have stands : Stands (ExtendedMantissa.ofMantissaAndAccuracy m .exact) (m : ℚ) :=
    stands_ofMantissaAndAccuracy (sub_self _)
  obtain ⟨low, high⟩ := accurate_bounds (stands_shiftRight stands k)
  symm
  rw [Int.floor_eq_iff]
  push_cast
  exact ⟨by linarith, by linarith⟩

theorem roundToInt_positive (m : ℕ) (e : ℤ) :
    roundToInt .positive m e = towardZero ((m : ℚ) * 2 ^ e) := by
  have unit : (0 : ℚ) < 2 ^ e := by positivity
  have shifted : roundToInt .positive m e = ((ExtendedMantissa.ofMantissaAndAccuracy
      (m <<< (e - 0).toNat) .exact >>> (0 - (e - (e - 0).toNat)).toNat).mantissa : ℤ) := rfl
  rw [shifted, floor_shiftRight, towardZero, if_pos (by positivity)]
  congr 1
  rw [Nat.shiftLeft_eq]
  push_cast
  rw [mul_div_assoc, ← zpow_natCast, ← zpow_natCast, ← zpow_sub₀ two_ne_zero]
  congr 2
  omega

theorem roundToInt_eq (sign : Sign) (m : ℕ) (e : ℤ) :
    roundToInt sign m e = towardZero ((sign.apply m : ℤ) * 2 ^ e) := by
  cases sign with
  | positive => exact roundToInt_positive m e
  | negative =>
    have negative : roundToInt .negative m e = -roundToInt .positive m e := rfl
    have size : ((Sign.negative.apply m : ℤ) : ℚ) = -m := Int.cast_neg (m : ℤ)
    rw [negative, roundToInt_positive, ← towardZero_neg, size, neg_mul]

end BinaryRounding
