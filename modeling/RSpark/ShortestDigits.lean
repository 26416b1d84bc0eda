import Mathlib.Algebra.Order.Field.Power
import Mathlib.Data.Rat.Cast.Order
import Mathlib.Tactic.Linarith
import Mathlib.Tactic.Positivity
import Mathlib.Tactic.Ring
import RSpark.FloatText

/- The search for the shortest numeral: where the point stands, what stripping zeros keeps, and
   why the search stops at digits that read back. -/
namespace RSparkShortest
open FloatText

section Point
variable {num den : ℕ}

theorem leadingZeros_bounds (fuel : ℕ) (proper : num < den) (enough : den ≤ num * 10 ^ (fuel + 1)) :
    num * 10 ^ leadingZeros fuel num den < den ∧
      den ≤ num * 10 ^ (leadingZeros fuel num den + 1) := by
  induction fuel generalizing num with
  | zero =>
    rw [leadingZeros, pow_zero, Nat.mul_one]
    exact ⟨proper, enough⟩
  | succ fuel ih =>
    rw [leadingZeros]
    split
    · rename_i tenth
      rw [pow_zero, Nat.mul_one, Nat.zero_add, pow_one, Nat.mul_comm num]
      exact ⟨proper, tenth⟩
    · rename_i less
      have shift (k : ℕ) : num * 10 ^ (k + 1) = 10 * num * 10 ^ k := by ring
      have later := @ih (10 * num) (by omega) (by rwa [← shift])
      rw [← shift, ← shift] at later
      exact later

theorem length_toDigits_bounds {n : ℕ} (pos : 0 < n) :
    10 ^ ((Nat.toDigits 10 n).length - 1) ≤ n ∧ n < 10 ^ (Nat.toDigits 10 n).length := by
  have some : 0 < (Nat.toDigits 10 n).length := Nat.length_toDigits_pos
  refine ⟨?_, (Nat.length_toDigits_le_iff (by decide) some).mp (le_refl _)⟩
  by_cases one : (Nat.toDigits 10 n).length = 1
  · rw [one]
    exact pos
  · by_contra above
    have shorter := (Nat.length_toDigits_le_iff (b := 10) (n := n)
      (k := (Nat.toDigits 10 n).length - 1) (by decide) (by omega)).mpr (not_le.mp above)
    omega

theorem pointPosition_bounds (pos : 0 < num) (posDen : 0 < den)
    (enough : den ≤ num * 10 ^ (400 + 1)) :
    (10 : ℚ) ^ (pointPosition num den - 1) ≤ num / den ∧
      (num : ℚ) / den < 10 ^ pointPosition num den := by
  have posDen' : (0 : ℚ) < den := by exact_mod_cast posDen
  unfold pointPosition
  split
  · rename_i whole
    obtain ⟨low, high⟩ := length_toDigits_bounds (Nat.div_pos whole posDen)
    have some : 0 < (Nat.toDigits 10 (num / den)).length := Nat.length_toDigits_pos
    rw [← Nat.cast_pred some, zpow_natCast, zpow_natCast, le_div_iff₀ posDen',
      div_lt_iff₀ posDen']
    constructor
    · exact_mod_cast (Nat.le_div_iff_mul_le posDen).mp low
    · exact_mod_cast (Nat.div_lt_iff_lt_mul posDen).mp high
  · rename_i proper
    obtain ⟨high, low⟩ := leadingZeros_bounds 400 (not_le.mp proper) enough
    have shifted : -(leadingZeros 400 num den : ℤ) - 1 =
        -((leadingZeros 400 num den + 1 : ℕ) : ℤ) := by
      push_cast
      ring
    rw [shifted, zpow_neg, zpow_neg, zpow_natCast, zpow_natCast, inv_le_iff_one_le_mul₀
      (by positivity), lt_inv_comm₀ (by positivity) (by positivity), inv_div,
      lt_div_iff₀ (by exact_mod_cast pos), div_mul_eq_mul_div, one_le_div₀ posDen']
    constructor
    · exact_mod_cast low
    · rw [mul_comm]
      exact_mod_cast high

end Point

section Digits

theorem stripZeros_keeps (fuel digits : ℕ) (exponent : ℤ) :
    ∃ k ≤ fuel, (stripZeros fuel digits exponent).2 = exponent + k ∧
      digits = (stripZeros fuel digits exponent).1 * 10 ^ k := by
  induction fuel generalizing digits exponent with
  | zero => exact ⟨0, le_refl 0, (add_zero exponent).symm, (Nat.mul_one digits).symm⟩
  | succ fuel ih =>
    rw [stripZeros]
    split
    · rename_i tens
      obtain ⟨k, few, shifted, same⟩ := ih (digits / 10) (exponent + 1)
      refine ⟨k + 1, by omega, by rw [shifted]; push_cast; ring, ?_⟩
      rw [pow_succ, ← Nat.mul_assoc, ← same]
      omega
    · exact ⟨0, Nat.zero_le _, (add_zero exponent).symm, (Nat.mul_one digits).symm⟩

variable {readsBack : ℕ → ℤ → Bool} {num den : ℕ} {p : ℤ}

def cutOff (num den : ℕ) (p : ℤ) (count : ℕ) : ℕ :=
  num * 10 ^ ((count : ℤ) - p).toNat / (den * 10 ^ (-((count : ℤ) - p)).toNat)

/-- Where the digits cut off or their successor read back in the end, the search stops at digits
    that read back. -/
theorem shortest_reads (fuel count : ℕ)
    (last : ∃ n ∈ [cutOff num den p (count + fuel), cutOff num den p (count + fuel) + 1],
      readsBack n (-((count + fuel : ℕ) - p)) = true) :
    ∃ count' n, count ≤ count' ∧ count' ≤ count + fuel ∧ readsBack n (-((count' : ℤ) - p)) = true ∧
      shortest readsBack num den p (fuel + 1) count = stripZeros 20 n (-((count' : ℤ) - p)) := by
  induction fuel generalizing count with
  | zero =>
    have here : readsBack (cutOff num den p count) (-((count : ℤ) - p)) = true ∨
        readsBack (cutOff num den p count + 1) (-((count : ℤ) - p)) = true := by
      simpa using last
    rw [cutOff] at here
    simp only [shortest]
    split
    · rename_i low
      exact ⟨count, _, le_refl _, le_refl _, low.1, rfl⟩
    · rename_i notLow
      split
      · rename_i high
        exact ⟨count, _, le_refl _, le_refl _, high, rfl⟩
      · rename_i notHigh
        exact absurd ⟨here.resolve_right notHigh, Or.inl notHigh⟩ notLow
  | succ fuel ih =>
    rw [shortest]
    split
    · rename_i low
      exact ⟨count, _, le_refl _, by omega, low.1, rfl⟩
    · split
      · rename_i high
        exact ⟨count, _, le_refl _, by omega, high, rfl⟩
      · rw [show count + (fuel + 1) = count + 1 + fuel by omega] at last ⊢
        obtain ⟨count', n, least, most, reads, found⟩ := ih (count + 1) last
        exact ⟨count', n, by omega, most, reads, found⟩

theorem quotient_near (num : ℕ) (posDen : 0 < den) :
    ∃ n ∈ [num / den, num / den + 1], |(n : ℚ) - num / den| ≤ 1 / 2 := by
  have pos : (0 : ℚ) < den := by exact_mod_cast posDen
  have divided : (num : ℚ) = den * (num / den : ℕ) + (num % den : ℕ) := by
    exact_mod_cast (Nat.div_add_mod num den).symm
  have rest : (num : ℚ) / den = (num / den : ℕ) + (num % den : ℕ) / den := by
    rw [div_eq_iff pos.ne', add_mul, div_mul_cancel₀ _ pos.ne']
    linarith
  have low : (0 : ℚ) ≤ (num % den : ℕ) / den := by positivity
  have high : ((num % den : ℕ) : ℚ) / den ≤ 1 :=
    (div_le_one pos).mpr (by exact_mod_cast (Nat.mod_lt num posDen).le)
  by_cases half : ((num % den : ℕ) : ℚ) / den ≤ 1 / 2
  · refine ⟨num / den, List.mem_cons_self, ?_⟩
    rw [abs_le]
    exact ⟨by linarith, by linarith⟩
  · refine ⟨num / den + 1, List.mem_cons_of_mem _ List.mem_cons_self, ?_⟩
    push_cast
    rw [abs_le]
    exact ⟨by linarith, by linarith⟩

theorem scaled_value (num : ℕ) (posDen : 0 < den) (scale : ℤ) :
    (num : ℚ) / den = ((num * 10 ^ scale.toNat : ℕ) : ℚ) / (den * 10 ^ (-scale).toNat : ℕ) *
      10 ^ (-scale) := by
  have pos : (0 : ℚ) < den := by exact_mod_cast posDen
  have powers : (10 : ℚ) ^ scale.toNat * 10 ^ (-scale) = 10 ^ (-scale).toNat := by
    rw [← zpow_natCast, ← zpow_natCast, ← zpow_add₀ (by norm_num)]
    congr 1
    omega
  push_cast
  rw [div_mul_eq_mul_div, div_eq_div_iff pos.ne' (by positivity), mul_assoc (num : ℚ), powers]
  ring

theorem cutOff_near (num : ℕ) (p : ℤ) (posDen : 0 < den) (count : ℕ) :
    ∃ n ∈ [cutOff num den p count, cutOff num den p count + 1],
      |(n : ℚ) * 10 ^ (-((count : ℤ) - p)) - num / den| ≤ 10 ^ (-((count : ℤ) - p)) / 2 := by
  have unit : (0 : ℚ) < 10 ^ (-((count : ℤ) - p)) := by positivity
  have pos : 0 < den * 10 ^ (-((count : ℤ) - p)).toNat :=
    Nat.mul_pos posDen (Nat.pow_pos (by decide))
  obtain ⟨n, mem, close⟩ := quotient_near (num * 10 ^ ((count : ℤ) - p).toNat) pos
  refine ⟨n, mem, ?_⟩
  rw [scaled_value num posDen ((count : ℤ) - p), ← sub_mul, abs_mul, abs_of_pos unit]
  nlinarith

end Digits

end RSparkShortest
