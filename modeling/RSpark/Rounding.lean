import Mathlib

/- Rounding of positive rationals to a binary floating point format: whatever mantissa and
   accuracy a number is given by, its rounding is the nearest mantissa at the exponent of its
   last place, a tie going to the even one. -/
namespace BinaryRounding
open Float.Model Float.Model.UnpackedFloat

section Nearest

def RoundsTo (x : ℚ) (n : ℕ) : Prop := |x - n| < 1 / 2 ∨ |x - n| = 1 / 2 ∧ n % 2 = 0

theorem roundsTo_unique {x : ℚ} {n n' : ℕ} (h : RoundsTo x n) (h' : RoundsTo x n') : n = n' := by
  have close : |x - n| ≤ 1 / 2 := h.elim le_of_lt fun tie => tie.1.le
  have close' : |x - n'| ≤ 1 / 2 := h'.elim le_of_lt fun tie => tie.1.le
  rw [abs_le] at close close'
  have above : (n : ℚ) ≤ n' + 1 := by linarith
  have below : (n' : ℚ) ≤ n + 1 := by linarith
  have above' : n ≤ n' + 1 := by exact_mod_cast above
  have below' : n' ≤ n + 1 := by exact_mod_cast below
  -- neighbours are both nearest only to the point halfway, and only one of them is even
  by_contra differ
  rcases (by omega : n = n' + 1 ∨ n' = n + 1) with rfl | rfl
  · push_cast at close
    have half : x - n' = 1 / 2 := by linarith
    rcases h with near | ⟨_, even⟩
    · rw [abs_lt] at near
      push_cast at near
      linarith
    · rcases h' with near | ⟨_, even'⟩
      · rw [half] at near
        norm_num at near
      · omega
  · push_cast at close'
    have half : x - n = 1 / 2 := by linarith
    rcases h' with near | ⟨_, even⟩
    · rw [abs_lt] at near
      push_cast at near
      linarith
    · rcases h with near | ⟨_, even'⟩
      · rw [half] at near
        norm_num at near
      · omega

end Nearest

section Mantissas

def Accurate : Accuracy → ℚ → Prop
  | .exact, f => f = 0
  | .inexact .lt, f => 0 < f ∧ f < 1 / 2
  | .inexact .eq, f => f = 1 / 2
  | .inexact .gt, f => 1 / 2 < f ∧ f < 1

def Stands (em : ExtendedMantissa) (x : ℚ) : Prop := Accurate em.accuracy (x - em.mantissa)

theorem stands_ofMantissaAndAccuracy {m : ℕ} {acc : Accuracy} {x : ℚ}
    (accurate : Accurate acc (x - m)) : Stands (.ofMantissaAndAccuracy m acc) x := by
  cases acc with
  | exact => exact accurate
  | inexact o => cases o <;> exact accurate

theorem stands_shiftRightOne {em : ExtendedMantissa} {x : ℚ} (stands : Stands em x) :
    Stands em.shiftRightOne (x / 2) := by
  obtain ⟨m, r, s⟩ := em
  have split : (m : ℚ) = 2 * (m / 2 : ℕ) + (m % 2 : ℕ) := by
    exact_mod_cast (Nat.div_add_mod m 2).symm
  rcases Nat.mod_two_eq_zero_or_one m with even | odd
  · rw [even, Nat.cast_zero] at split
    cases r <;> cases s <;>
      simp only [Stands, Accurate, ExtendedMantissa.accuracy, ExtendedMantissa.shiftRightOne,
        even] at stands ⊢
    · show x / 2 - (m / 2 : ℕ) = 0
      linarith
    · exact ⟨by linarith, by linarith⟩
    · exact ⟨by linarith, by linarith⟩
    · exact ⟨by linarith, by linarith⟩
  · rw [odd, Nat.cast_one] at split
    cases r <;> cases s <;>
      simp only [Stands, Accurate, ExtendedMantissa.accuracy, ExtendedMantissa.shiftRightOne,
        odd] at stands ⊢
    · show x / 2 - (m / 2 : ℕ) = 1 / 2
      linarith
    · exact ⟨by linarith, by linarith⟩
    · exact ⟨by linarith, by linarith⟩
    · exact ⟨by linarith, by linarith⟩

theorem stands_shiftRight {em : ExtendedMantissa} {x : ℚ} (stands : Stands em x) (k : ℕ) :
    Stands (em >>> k) (x / 2 ^ k) := by
  induction k with
  | zero =>
    rw [pow_zero, div_one]
    exact stands
  | succ k ih =>
    rw [pow_succ, ← div_div]
    exact stands_shiftRightOne ih

theorem roundsTo_roundedMantissa {em : ExtendedMantissa} {x : ℚ} (stands : Stands em x) :
    RoundsTo x em.roundedMantissa := by
  obtain ⟨m, r, s⟩ := em
  cases r <;> cases s <;>
    simp only [Stands, Accurate, ExtendedMantissa.accuracy] at stands
  · left
    show |x - m| < 1 / 2
    rw [stands, abs_zero]
    norm_num
  · left
    show |x - m| < 1 / 2
    rw [abs_of_pos stands.1]
    exact stands.2
  · show RoundsTo x (m + m % 2)
    rcases Nat.mod_two_eq_zero_or_one m with even | odd
    · rw [even]
      exact Or.inr ⟨by rw [Nat.add_zero, stands]; norm_num, by omega⟩
    · rw [odd]
      refine Or.inr ⟨?_, by omega⟩
      have below : x - (m + 1 : ℕ) = -(1 / 2) := by
        push_cast
        linarith
      rw [below]
      norm_num
  · left
    show |x - (m + 1 : ℕ)| < 1 / 2
    push_cast
    rw [abs_lt]
    exact ⟨by linarith, by linarith⟩

end Mantissas

section Formats
variable {spec : Format} {q : ℚ} {m n : ℕ} {e : ℤ} {acc : Accuracy}

def lastPlace (spec : Format) (q : ℚ) : ℤ := spec.targetExponent (Int.log 2 q + 1)

def settle (spec : Format) (sign : Sign) (n : ℕ) (e : ℤ) : UnpackedFloat :=
  if zero : n = 0 then .zero sign
  else if n = 2 ^ spec.mantissaBits then
    .finite sign (2 ^ (spec.mantissaBits - 1)) (e + 1) (Nat.two_pow_pos _)
  else .finite sign n e (Nat.pos_of_ne_zero zero)

/-- A mantissa with its accuracy gives a positive number, at an exponent not above that of its
    last place. -/
structure Gives (spec : Format) (m : ℕ) (e : ℤ) (acc : Accuracy) (q : ℚ) : Prop where
  pos : 0 < q
  accurate : Accurate acc (q / 2 ^ e - m)
  fine : e ≤ lastPlace spec q

theorem accurate_bounds {f : ℚ} (accurate : Accurate acc f) : 0 ≤ f ∧ f < 1 := by
  unfold Accurate at accurate
  split at accurate
  · rw [accurate]
    exact ⟨le_refl 0, one_pos⟩
  · exact ⟨accurate.1.le, by linarith⟩
  · rw [accurate]
    norm_num
  · exact ⟨by linarith, accurate.2⟩

theorem Gives.bounds (given : Gives spec m e acc q) :
    (m : ℚ) * 2 ^ e ≤ q ∧ q < (m + 1) * 2 ^ e := by
  obtain ⟨low, high⟩ := accurate_bounds given.accurate
  have unit : (0 : ℚ) < 2 ^ e := by positivity
  constructor
  · rw [← le_div_iff₀ unit]
    linarith
  · rw [← div_lt_iff₀ unit]
    linarith

theorem log_eq {k : ℤ} (low : (2 : ℚ) ^ k ≤ q) (high : q < 2 ^ (k + 1)) : Int.log 2 q = k := by
  have pos : 0 < q := lt_of_lt_of_le (by positivity) low
  have le := (Int.zpow_le_iff_le_log (b := 2) one_lt_two pos).mp low
  have lt := (Int.lt_zpow_iff_log_lt (b := 2) one_lt_two pos).mp high
  omega

theorem mantissaBits_pos (spec : Format) : 0 < spec.mantissaBits := by
  show 0 < 1 + spec.mantissaBitsWithoutImplicit
  omega

theorem Gives.target (given : Gives spec m e acc q) :
    spec.targetExponent (totalExponent m e) = lastPlace spec q := by
  obtain ⟨low, high⟩ := given.bounds
  have bits := mantissaBits_pos spec
  have unit : (0 : ℚ) < 2 ^ e := by positivity
  by_cases zero : m = 0
  · subst zero
    have small : q < 2 ^ e := by simpa using high
    have log := (Int.lt_zpow_iff_log_lt (b := 2) one_lt_two given.pos).mp small
    have fine := given.fine
    simp only [lastPlace, Format.targetExponent, totalExponent, Nat.log2_zero] at fine ⊢
    omega
  · have below : (2 : ℚ) ^ m.log2 ≤ m := by exact_mod_cast Nat.log2_self_le zero
    have above : (m : ℚ) + 1 ≤ 2 ^ (m.log2 + 1) := by exact_mod_cast Nat.lt_log2_self
    have log : Int.log 2 q = m.log2 + e := by
      refine log_eq ?_ ?_
      · rw [zpow_add₀ two_ne_zero, zpow_natCast]
        exact (mul_le_mul_of_nonneg_right below unit.le).trans low
      · rw [show (m.log2 : ℤ) + e + 1 = (m.log2 + 1 : ℕ) + e by push_cast; ring,
          zpow_add₀ two_ne_zero, zpow_natCast]
        exact high.trans_le (mul_le_mul_of_nonneg_right above unit.le)
    rw [lastPlace, log, totalExponent]
    congr 1
    ring

theorem lastPlace_ge_min (spec : Format) (q : ℚ) : spec.minExponent ≤ lastPlace spec q :=
  le_max_right _ _

theorem lt_of_lastPlace (pos : 0 < q) : q / 2 ^ lastPlace spec q < 2 ^ spec.mantissaBits := by
  have unit : (0 : ℚ) < 2 ^ lastPlace spec q := by positivity
  rw [div_lt_iff₀ unit, ← zpow_natCast, ← zpow_add₀ two_ne_zero,
    ← Nat.cast_two, Int.lt_zpow_iff_log_lt one_lt_two pos]
  have le : Int.log 2 q + 1 - spec.mantissaBits ≤ lastPlace spec q := le_max_left _ _
  omega

theorem roundsTo_le {x : ℚ} (rounds : RoundsTo x n) {bound : ℕ} (lt : x < bound) : n ≤ bound := by
  have close : |x - n| ≤ 1 / 2 := rounds.elim le_of_lt fun tie => tie.1.le
  rw [abs_le] at close
  have below : (n : ℚ) < bound + 1 := by linarith
  exact Nat.lt_succ_iff.mp (by exact_mod_cast below)

theorem shift_again (fits : n ≤ 2 ^ spec.mantissaBits) (floor : spec.minExponent ≤ e) :
    shiftToTargetExponent spec n e .exact =
      if n = 2 ^ spec.mantissaBits then
        (⟨2 ^ (spec.mantissaBits - 1), false, false⟩, e + 1)
      else (⟨n, false, false⟩, e) := by
  have bits := mantissaBits_pos spec
  rw [shiftToTargetExponent, shiftToExponent]
  split
  · rename_i full
    have target : spec.targetExponent (totalExponent n e) = e + 1 := by
      rw [full, totalExponent, Nat.log2_two_pow, Format.targetExponent]
      omega
    have one : (e + 1 - e).toNat = 1 := by omega
    have halved : (2 ^ spec.mantissaBits : ℕ) = 2 * 2 ^ (spec.mantissaBits - 1) := by
      rw [← pow_succ']
      congr 1
      omega
    rw [target, one, full, halved]
    show (ExtendedMantissa.mk (2 * 2 ^ (spec.mantissaBits - 1) / 2)
      (2 * 2 ^ (spec.mantissaBits - 1) % 2 != 0) false, e + 1) = _
    rw [Nat.mul_div_cancel_left _ two_pos, Nat.mul_mod_right]
    rfl
  · rename_i short
    have places : n.log2 + 1 ≤ spec.mantissaBits := by
      by_cases zero : n = 0
      · rw [zero, Nat.log2_zero]
        omega
      · exact (Nat.log2_lt zero).mpr (by omega)
    have target : (spec.targetExponent (totalExponent n e) - e).toNat = 0 := by
      rw [totalExponent, Format.targetExponent]
      omega
    rw [target]
    exact congrArg (Prod.mk _) (add_zero e)

theorem settle_again (sign : Sign) (fits : n ≤ 2 ^ spec.mantissaBits)
    (floor : spec.minExponent ≤ e) :
    (if zero : (shiftToTargetExponent spec n e .exact).1.mantissa = 0 then .zero sign
      else .finite sign (shiftToTargetExponent spec n e .exact).1.mantissa
        (shiftToTargetExponent spec n e .exact).2 (Nat.pos_of_ne_zero zero)) =
      settle spec sign n e := by
  by_cases full : n = 2 ^ spec.mantissaBits
  · have some : n ≠ 0 := full ▸ (Nat.two_pow_pos _).ne'
    have half : 2 ^ (spec.mantissaBits - 1) ≠ 0 := (Nat.two_pow_pos _).ne'
    simp only [settle, shift_again fits floor, if_pos full, dif_neg some, dif_neg half]
  · simp only [settle, shift_again fits floor, if_neg full]

theorem roundWithAccuracy_eq (given : Gives spec m e acc q) (sign : Sign) :
    ∃ n, RoundsTo (q / 2 ^ lastPlace spec q) n ∧
      roundWithAccuracy spec sign m e acc = settle spec sign n (lastPlace spec q) := by
  have amount : e + ((lastPlace spec q - e).toNat : ℤ) = lastPlace spec q := by
    have fine := given.fine
    omega
  have stands : Stands (ExtendedMantissa.ofMantissaAndAccuracy m acc >>>
      (lastPlace spec q - e).toNat) (q / 2 ^ lastPlace spec q) := by
    have shifted := stands_shiftRight (stands_ofMantissaAndAccuracy given.accurate)
      (lastPlace spec q - e).toNat
    rwa [div_div, ← zpow_natCast, ← zpow_add₀ two_ne_zero, amount] at shifted
  have first : shiftToTargetExponent spec m e acc =
      (ExtendedMantissa.ofMantissaAndAccuracy m acc >>> (lastPlace spec q - e).toNat,
        lastPlace spec q) := by
    rw [shiftToTargetExponent, given.target, shiftToExponent, amount]
  have rounds := roundsTo_roundedMantissa stands
  have fits : _ ≤ 2 ^ spec.mantissaBits :=
    roundsTo_le rounds (by exact_mod_cast lt_of_lastPlace given.pos)
  refine ⟨_, rounds, ?_⟩
  rw [roundWithAccuracy, first]
  exact settle_again sign fits (lastPlace_ge_min spec q)

def Rounding (spec : Format) (sign : Sign) (q : ℚ) (u : UnpackedFloat) : Prop :=
  ∃ n, RoundsTo (q / 2 ^ lastPlace spec q) n ∧ u = settle spec sign n (lastPlace spec q)

theorem rounding_unique {sign : Sign} {u u' : UnpackedFloat} (h : Rounding spec sign q u)
    (h' : Rounding spec sign q u') : u = u' := by
  obtain ⟨n, rounds, rfl⟩ := h
  obtain ⟨n', rounds', rfl⟩ := h'
  rw [roundsTo_unique rounds rounds']

structure Canonical (spec : Format) (m : ℕ) (e : ℤ) : Prop where
  pos : 0 < m
  short : m < 2 ^ spec.mantissaBits
  floor : spec.minExponent ≤ e
  full : 2 ^ (spec.mantissaBits - 1) ≤ m ∨ e = spec.minExponent

theorem lastPlace_eq {k : ℤ} (low : (2 : ℚ) ^ (spec.mantissaBits - 1 + k : ℤ) ≤ q)
    (high : q < 2 ^ (spec.mantissaBits + k : ℤ)) (floor : spec.minExponent ≤ k) :
    lastPlace spec q = k := by
  have log : Int.log 2 q = spec.mantissaBits - 1 + k := by
    refine log_eq low ?_
    rwa [show (spec.mantissaBits : ℤ) - 1 + k + 1 = spec.mantissaBits + k by ring]
  rw [lastPlace, log, Format.targetExponent]
  omega

theorem lastPlace_least (pos : 0 < q)
    (high : q < 2 ^ (spec.mantissaBits + spec.minExponent : ℤ)) :
    lastPlace spec q = spec.minExponent := by
  have log := (Int.lt_zpow_iff_log_lt (b := 2) one_lt_two pos).mp high
  rw [lastPlace, Format.targetExponent]
  omega

theorem full_value (spec : Format) (e : ℤ) :
    (2 : ℚ) ^ (spec.mantissaBits - 1 + e : ℤ) = (2 ^ (spec.mantissaBits - 1) : ℕ) * 2 ^ e := by
  rw [zpow_add₀ two_ne_zero, ← Nat.cast_pred (mantissaBits_pos spec), zpow_natCast]
  push_cast
  rfl

theorem rounding_inside (canonical : Canonical spec m e) (sign : Sign)
    (place : lastPlace spec q = e) (near : |q - m * 2 ^ e| < 2 ^ e / 2) :
    Rounding spec sign q (.finite sign m e canonical.pos) := by
  have unit : (0 : ℚ) < 2 ^ e := by positivity
  rw [abs_lt] at near
  refine ⟨m, Or.inl ?_, ?_⟩
  · rw [place, abs_lt]
    constructor
    · rw [lt_sub_iff_add_lt, lt_div_iff₀ unit]
      linarith
    · rw [sub_lt_iff_lt_add, div_lt_iff₀ unit]
      linarith
  · rw [place, settle, dif_neg canonical.pos.ne', if_neg canonical.short.ne]

theorem rounding_below (canonical : Canonical spec m e) (sign : Sign)
    (boundary : m = 2 ^ (spec.mantissaBits - 1)) (place : lastPlace spec q = e - 1)
    (small : q < m * 2 ^ e) (close : m * 2 ^ e - q < 2 ^ e / 4) :
    Rounding spec sign q (.finite sign m e canonical.pos) := by
  have bits := mantissaBits_pos spec
  have unit : (0 : ℚ) < 2 ^ e := by positivity
  have half : (2 : ℚ) ^ (e - 1) = 2 ^ e / 2 := zpow_sub_one₀ two_ne_zero e
  have twice : 2 ^ spec.mantissaBits = 2 * m := by
    rw [boundary, ← pow_succ']
    congr 1
    omega
  refine ⟨2 ^ spec.mantissaBits, Or.inl ?_, ?_⟩
  · rw [place, half, twice, abs_lt]
    push_cast
    constructor
    · rw [lt_sub_iff_add_lt, lt_div_iff₀ (by linarith)]
      linarith
    · rw [sub_lt_iff_lt_add, div_lt_iff₀ (by linarith)]
      linarith
  · have full : (2 ^ spec.mantissaBits : ℕ) ≠ 0 := (Nat.two_pow_pos _).ne'
    simp only [place, settle, dif_neg full, if_true, boundary, sub_add_cancel]

/-- A number rounds to every float that it is nearer to than half the last place; below a power
    of two the places are half as wide. -/
theorem rounding_near (canonical : Canonical spec m e) (sign : Sign)
    (near : |q - m * 2 ^ e| < 2 ^ e / 2)
    (below : m = 2 ^ (spec.mantissaBits - 1) → m * 2 ^ e - q < 2 ^ e / 4) :
    Rounding spec sign q (.finite sign m e canonical.pos) := by
  have unit : (0 : ℚ) < 2 ^ e := by positivity
  have some : (1 : ℚ) ≤ m := by exact_mod_cast canonical.pos
  have short : (m : ℚ) + 1 ≤ 2 ^ spec.mantissaBits := by exact_mod_cast canonical.short
  obtain ⟨least, most⟩ := abs_lt.mp near
  have pos : 0 < q := by nlinarith
  have high : q < 2 ^ (spec.mantissaBits + e : ℤ) := by
    rw [zpow_add₀ two_ne_zero, zpow_natCast]
    nlinarith
  by_cases low : (2 : ℚ) ^ (spec.mantissaBits - 1 + e : ℤ) ≤ q
  · exact rounding_inside canonical sign (lastPlace_eq low high canonical.floor) near
  by_cases floor : e = spec.minExponent
  · subst floor
    exact rounding_inside canonical sign (lastPlace_least pos high) near
  -- nearer to the least full mantissa than to any other, from below
  have atLeast := canonical.full.resolve_right floor
  rw [full_value, not_le] at low
  have boundary : m = 2 ^ (spec.mantissaBits - 1) := by
    by_contra other
    have above : ((2 ^ (spec.mantissaBits - 1) : ℕ) : ℚ) + 1 ≤ m := by
      exact_mod_cast Nat.lt_of_le_of_ne atLeast (Ne.symm other)
    nlinarith
  have close := below boundary
  rw [← boundary] at low
  refine rounding_below canonical sign boundary (lastPlace_eq ?_ ?_ ?_) low close
  · have half : (2 : ℚ) ^ (e - 1) = 2 ^ e / 2 := zpow_sub_one₀ two_ne_zero e
    rw [full_value, ← boundary, half]
    nlinarith
  · rw [show (spec.mantissaBits : ℤ) + (e - 1) = spec.mantissaBits - 1 + e by ring, full_value,
      ← boundary]
    exact low
  · have least := canonical.floor
    omega

end Formats

end BinaryRounding
