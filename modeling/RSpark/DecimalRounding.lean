import RSpark.Rounding

/- Decimal numerals in a binary format: what is computed for digits and an exponent of ten is
   the rounding of the number that they denote. -/
namespace BinaryRounding
open Float.Model Float.Model.UnpackedFloat

section Numerals
variable {spec : Format} {m d : ℕ} {e : ℤ}

theorem accurate_fraction {num den : ℕ} (proper : num < den) :
    Accurate (accuracyOfFraction num den) (num / den) := by
  have pos : (0 : ℚ) < den := by exact_mod_cast (Nat.zero_le num).trans_lt proper
  unfold accuracyOfFraction
  split
  · rename_i zero
    simp [Accurate, zero]
  · rename_i some
    have above : (0 : ℚ) < num := by exact_mod_cast Nat.pos_of_ne_zero some
    have below : (num : ℚ) < den := by exact_mod_cast proper
    cases order : compare (2 * num) den with
    | lt =>
      have half : (2 : ℚ) * num < den := by exact_mod_cast Nat.compare_eq_lt.mp order
      refine ⟨div_pos above pos, ?_⟩
      rw [div_lt_iff₀ pos]
      linarith
    | eq =>
      have half : (2 : ℚ) * num = den := by exact_mod_cast Nat.compare_eq_eq.mp order
      show (num : ℚ) / den = 1 / 2
      rw [div_eq_iff pos.ne']
      linarith
    | gt =>
      have half : (den : ℚ) < 2 * num := by exact_mod_cast Nat.compare_eq_gt.mp order
      refine ⟨?_, ?_⟩
      · rw [lt_div_iff₀ pos]
        linarith
      · rw [div_lt_one pos]
        exact below

theorem lastPlace_ge {q : ℚ} {k : ℤ} (pos : 0 < q) (low : (2 : ℚ) ^ k ≤ q) :
    spec.targetExponent (k + 1) ≤ lastPlace spec q := by
  have log := (Int.zpow_le_iff_le_log (b := 2) one_lt_two pos).mp low
  rw [lastPlace, Format.targetExponent, Format.targetExponent]
  omega

theorem quotient_accurate (num : ℕ) {den : ℕ} (pos : 0 < den) :
    Accurate (accuracyOfFraction (num % den) den) ((num : ℚ) / den - (num / den : ℕ)) := by
  have divided : (num : ℚ) = den * (num / den : ℕ) + (num % den : ℕ) := by
    exact_mod_cast (Nat.div_add_mod num den).symm
  have rest : (num : ℚ) / den - (num / den : ℕ) = (num % den : ℕ) / den := by
    have some : (den : ℚ) ≠ 0 := by exact_mod_cast pos.ne'
    rw [eq_div_iff some, sub_mul, div_mul_cancel₀ _ some]
    linarith
  rw [rest]
  exact accurate_fraction (Nat.mod_lt num pos)

theorem quotient_low (posM : 0 < m) (posD : 0 < d) :
    (2 : ℚ) ^ ((m.log2 : ℤ) - d.log2 - 1) ≤ m / d := by
  have below : (2 : ℚ) ^ m.log2 ≤ m := by exact_mod_cast Nat.log2_self_le posM.ne'
  have above : (d : ℚ) ≤ 2 ^ (d.log2 + 1) := by exact_mod_cast Nat.lt_log2_self.le
  have pos : (0 : ℚ) < d := by exact_mod_cast posD
  rw [show (m.log2 : ℤ) - d.log2 - 1 = m.log2 - (d.log2 + 1 : ℕ) by push_cast; ring,
    zpow_sub₀ two_ne_zero, zpow_natCast, zpow_natCast]
  exact div_le_div₀ (by positivity) below pos above

/-- A division computes enough places, and the rest tells the accuracy. -/
theorem divCore_gives (posM : 0 < m) (posD : 0 < d) :
    Gives spec (divCore spec m 0 d 0).1 (divCore spec m 0 d 0).2.1
      (divCore spec m 0 d 0).2.2 (m / d) := by
  have pos : (0 : ℚ) < m / d := div_pos (by exact_mod_cast posM) (by exact_mod_cast posD)
  obtain ⟨target, known⟩ : ∃ target, target = min ((0 : ℤ) - 0)
      (spec.targetExponent (totalExponent m 0 - totalExponent d 0)) := ⟨_, rfl⟩
  have core : divCore spec m 0 d 0 = (m <<< (0 - 0 - target).toNat / d, target,
      accuracyOfFraction (m <<< (0 - 0 - target).toNat % d) d) := by
    rw [known]
    rfl
  have scale : (2 : ℚ) ^ target = (2 ^ (0 - 0 - target).toNat)⁻¹ := by
    rw [← zpow_natCast, ← zpow_neg]
    congr 1
    omega
  rw [core]
  refine ⟨pos, ?_, ?_⟩
  · have shifted : (m : ℚ) / d / 2 ^ target = (m <<< (0 - 0 - target).toNat : ℕ) / d := by
      rw [scale, div_inv_eq_mul, Nat.shiftLeft_eq]
      push_cast
      ring
    rw [shifted]
    exact quotient_accurate _ posD
  · have places : spec.targetExponent ((m.log2 : ℤ) - d.log2 - 1 + 1) ≤ lastPlace spec (m / d) :=
      lastPlace_ge pos (quotient_low posM posD)
    have fewer : target ≤ spec.targetExponent (totalExponent m 0 - totalExponent d 0) :=
      known ▸ min_le_right _ _
    simp only [Format.targetExponent, totalExponent] at places fewer
    show target ≤ lastPlace spec (m / d)
    omega

theorem rounding_of_gives {q : ℚ} {n : ℕ} {acc : Accuracy} (given : Gives spec n e acc q)
    (sign : Sign) : Rounding spec sign q (roundWithAccuracy spec sign n e acc) :=
  roundWithAccuracy_eq given sign

theorem scientific_rounding (pos : 0 < m) (low : -((2 ^ spec.exponentBits : ℤ) + m.log2) ≤ e)
    (high : e ≤ 2 ^ spec.exponentBits) :
    Rounding spec .positive (m * 10 ^ e) (UnpackedFloat.ofScientific spec m e) := by
  rw [UnpackedFloat.ofScientific, dif_neg pos.ne', if_neg (by omega), if_neg (by omega)]
  split
  · rename_i natural
    refine rounding_of_gives ⟨?_, ?_, ?_⟩ (Sign.positive * Sign.positive)
    · positivity
    · have power : (10 : ℚ) ^ e = 10 ^ e.toNat := by
        rw [← zpow_natCast, Int.toNat_of_nonneg natural]
      show (m : ℚ) * 10 ^ e / 2 ^ (-(spec.mantissaBits : ℤ) + 0) -
        (m <<< spec.mantissaBits * 10 ^ e.toNat : ℕ) = 0
      rw [power, add_zero, zpow_neg, zpow_natCast, div_inv_eq_mul, Nat.shiftLeft_eq]
      push_cast
      ring
    · have some : (1 : ℚ) ≤ m := by exact_mod_cast pos
      have large : (1 : ℚ) ≤ 10 ^ e := one_le_zpow₀ (by norm_num) natural
      have places : spec.targetExponent (0 + 1) ≤ lastPlace spec (m * 10 ^ e) :=
        lastPlace_ge (by positivity) (by rw [zpow_zero]; nlinarith)
      rw [Format.targetExponent] at places
      omega
  · rename_i negative
    have quotient : (m : ℚ) * 10 ^ e = m / (10 ^ (-e).toNat : ℕ) := by
      push_cast
      rw [← zpow_natCast, Int.toNat_of_nonneg (by omega), zpow_neg, div_inv_eq_mul]
    rw [quotient]
    exact rounding_of_gives (divCore_gives pos (Nat.pow_pos (by decide))) _

def Computed (spec : Format) (e : ℤ) : Prop :=
  -(2 ^ spec.exponentBits : ℤ) ≤ e ∧ e ≤ 2 ^ spec.exponentBits

theorem computed_rounding (pos : 0 < m) (computed : Computed spec e) :
    Rounding spec .positive (m * 10 ^ e) (UnpackedFloat.ofScientific spec m e) := by
  have low := computed.1
  exact scientific_rounding pos (by omega) computed.2

theorem scientific_same {m' : ℕ} {e' : ℤ} (pos : 0 < m) (computed : Computed spec e)
    (pos' : 0 < m') (computed' : Computed spec e') (same : (m : ℚ) * 10 ^ e = m' * 10 ^ e') :
    UnpackedFloat.ofScientific spec m e = UnpackedFloat.ofScientific spec m' e' := by
  have rounding := computed_rounding pos computed
  rw [same] at rounding
  exact rounding_unique rounding (computed_rounding pos' computed')

end Numerals

end BinaryRounding
