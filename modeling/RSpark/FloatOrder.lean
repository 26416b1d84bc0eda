import RSpark.Comparators
import RSpark.FloatFields

/- The order of floats by sign, exponent and mantissa, and rounding as a monotone map into it. -/
namespace BinaryRounding
open Float.Model Float.Model.UnpackedFloat Comparators

section Ranks

/-- The side of zero, the exponent and the mantissa, the last two negated below zero. -/
def rank : UnpackedFloat → ℤ × ℤ × ℤ
  | .infinity .negative => (-2, 0, 0)
  | .finite .negative m e _ => (-1, -e, -m)
  | .finite .positive m e _ => (1, e, m)
  | .infinity .positive => (2, 0, 0)
  | _ => (0, 0, 0)

def rankCompare (u v : UnpackedFloat) : Ordering :=
  (compare (rank u).1 (rank v).1).then
    ((compare (rank u).2.1 (rank v).2.1).then (compare (rank u).2.2 (rank v).2.2))

theorem rankCompare_preorderOn : PreorderOn rankCompare fun _ => True := by
  have by' (f : UnpackedFloat → ℤ) : PreorderOn (fun u v => compare (f u) (f v)) fun _ => True :=
    (preorderOn_compare fun _ : ℤ => True).comap f
  exact (by' fun u => (rank u).1).andThen
    ((by' fun u => (rank u).2.1).andThen (by' fun u => (rank u).2.2))

theorem compare_neg (a b : ℤ) : compare (-a) (-b) = compare b a := by
  rcases lt_trichotomy a b with less | rfl | less
  · rw [compare_gt_iff_gt.mpr less, compare_gt_iff_gt.mpr (neg_lt_neg less)]
  · rw [compare_eq_iff_eq.mpr rfl, compare_eq_iff_eq.mpr rfl]
  · rw [compare_lt_iff_lt.mpr less, compare_lt_iff_lt.mpr (neg_lt_neg less)]

theorem compare_of_isNaN {u v : UnpackedFloat} (none' : u.isNaN = true ∨ v.isNaN = true) :
    u.compare v = none := by
  rcases none' with left | right
  · cases u <;> first | rfl | cases left
  · cases v <;> first | (cases u <;> rfl) | cases right

theorem compare_eq_rank {u v : UnpackedFloat} (left : u.isNaN = false) (right : v.isNaN = false) :
    u.compare v = some (rankCompare u v) := by
  cases u with
  | notANumber => cases left
  | infinity s =>
    cases v with
    | notANumber => cases right
    | infinity s' => cases s <;> cases s' <;> rfl
    | zero s' => cases s <;> rfl
    | finite s' m' e' pos' => cases s <;> cases s' <;> rfl
  | zero s =>
    cases v with
    | notANumber => cases right
    | infinity s' => cases s' <;> rfl
    | zero s' => rfl
    | finite s' m' e' pos' => cases s' <;> rfl
  | finite s m e pos =>
    cases v with
    | notANumber => cases right
    | infinity s' => cases s <;> cases s' <;> rfl
    | zero s' => cases s <;> rfl
    | finite s' m' e' pos' =>
      have naturals : compare m m' = compare (m : ℤ) (m' : ℤ) := by
        rcases lt_trichotomy m m' with less | rfl | less
        · rw [compare_lt_iff_lt.mpr less, compare_lt_iff_lt.mpr (Int.ofNat_lt.mpr less)]
        · rw [compare_eq_iff_eq.mpr rfl, compare_eq_iff_eq.mpr rfl]
        · rw [compare_gt_iff_gt.mpr less, compare_gt_iff_gt.mpr (Int.ofNat_lt.mpr less)]
      cases s <;> cases s'
      · show some ((compare e e').then (compare m m')).swap =
          some ((compare (-e) (-e')).then (compare (-(m : ℤ)) (-(m' : ℤ))))
        rw [compare_neg, compare_neg, Ordering.swap_then, naturals, Int.compare_swap,
          Int.compare_swap]
      · rfl
      · rfl
      · show some ((compare e e').then (compare m m')) =
          some ((compare e e').then (compare (m : ℤ) (m' : ℤ)))
        rw [naturals]

end Ranks

section Monotone
variable {spec : Format} {q q' : ℚ}

theorem roundsTo_mono {x y : ℚ} {m n : ℕ} (le : x ≤ y) (h : RoundsTo x m) (h' : RoundsTo y n) :
    m ≤ n := by
  have close : |x - m| ≤ 1 / 2 := h.elim le_of_lt fun tie => tie.1.le
  have close' : |y - n| ≤ 1 / 2 := h'.elim le_of_lt fun tie => tie.1.le
  by_contra above
  -- only the point halfway between neighbours could round to both
  have next : (n : ℚ) + 1 ≤ m := by exact_mod_cast not_le.mp above
  rw [abs_le] at close close'
  have same : x = y := by linarith
  subst same
  exact above (roundsTo_unique h h').le

theorem roundsTo_self (n : ℕ) : RoundsTo n n := by
  left
  rw [sub_self, abs_zero]
  norm_num

theorem lastPlace_mono (spec : Format) (pos : 0 < q) (le : q ≤ q') :
    lastPlace spec q ≤ lastPlace spec q' := by
  have log : Int.log 2 q ≤ Int.log 2 q' := Int.log_mono_right pos le
  simp only [lastPlace, Format.targetExponent]
  omega

theorem full_of_lastPlace (pos : 0 < q) (above : spec.minExponent < lastPlace spec q) :
    ((2 ^ (spec.mantissaBits - 1) : ℕ) : ℚ) ≤ q / 2 ^ lastPlace spec q := by
  have bits := mantissaBits_pos spec
  have unit : (0 : ℚ) < 2 ^ lastPlace spec q := by positivity
  have log : Int.log 2 q = spec.mantissaBits - 1 + lastPlace spec q := by
    simp only [lastPlace, Format.targetExponent] at above ⊢
    omega
  rw [le_div_iff₀ unit, ← full_value, ← log]
  exact Int.zpow_log_le_self one_lt_two pos

theorem rank_settle (spec : Format) {n : ℕ} (e : ℤ) (some' : 0 < n) :
    rank (settle spec .positive n e) =
      if n = 2 ^ spec.mantissaBits then (1, e + 1, ((2 ^ (spec.mantissaBits - 1) : ℕ) : ℤ))
      else (1, e, (n : ℤ)) := by
  rw [settle, dif_neg some'.ne']
  split <;> rfl

theorem rankCompare_le {u v : UnpackedFloat} {e e' m m' : ℤ} (left : rank u = (1, e, m))
    (right : rank v = (1, e', m')) (le : e < e' ∨ e = e' ∧ m ≤ m') : rankCompare u v ≠ .gt := by
  rw [rankCompare, left, right]
  rcases le with less | ⟨rfl, atMost⟩
  · simp only [compare_lt_iff_lt.mpr less, compare_eq_iff_eq.mpr, Ordering.then]
    exact Ordering.noConfusion
  · simp only [compare_eq_iff_eq.mpr, Ordering.then]
    intro greater
    exact absurd (compare_gt_iff_gt.mp greater) (not_lt.mpr atMost)

theorem full_bounds {n : ℕ} (pos : 0 < q) (above : spec.minExponent < lastPlace spec q)
    (rounds : RoundsTo (q / 2 ^ lastPlace spec q) n) :
    2 ^ (spec.mantissaBits - 1) ≤ n ∧ n ≤ 2 ^ spec.mantissaBits := by
  constructor
  · exact roundsTo_mono (full_of_lastPlace pos above) (roundsTo_self _) rounds
  · exact roundsTo_le rounds (by exact_mod_cast lt_of_lastPlace pos)

theorem rounding_mono {u u' : UnpackedFloat} (pos : 0 < q) (le : q ≤ q')
    (above : spec.minExponent < lastPlace spec q) (h : Rounding spec .positive q u)
    (h' : Rounding spec .positive q' u') : rankCompare u u' ≠ .gt := by
  obtain ⟨n, rounds, rfl⟩ := h
  obtain ⟨n', rounds', rfl⟩ := h'
  have pos' := pos.trans_le le
  have places := lastPlace_mono spec pos le
  have above' := above.trans_le places
  obtain ⟨full, fits⟩ := full_bounds pos above rounds
  obtain ⟨full', fits'⟩ := full_bounds pos' above' rounds'
  have some' : 0 < n := (Nat.two_pow_pos _).trans_le full
  have some'' : 0 < n' := (Nat.two_pow_pos _).trans_le full'
  have rank' := rank_settle spec (lastPlace spec q) some'
  have rank'' := rank_settle spec (lastPlace spec q') some''
  have whole : (2 ^ (spec.mantissaBits - 1) : ℕ) ≤ 2 ^ spec.mantissaBits :=
    Nat.pow_le_pow_right two_pos (Nat.sub_le _ _)
  rcases places.lt_or_eq with less | same
  · split at rank'
    · split at rank''
      · exact rankCompare_le rank' rank'' (Or.inl (by omega))
      · refine rankCompare_le rank' rank'' ?_
        rcases (Int.add_one_le_of_lt less).lt_or_eq with less' | same'
        · exact Or.inl less'
        · exact Or.inr ⟨same', by exact_mod_cast full'⟩
    · split at rank''
      · exact rankCompare_le rank' rank'' (Or.inl (by omega))
      · exact rankCompare_le rank' rank'' (Or.inl less)
  · have mantissas : n ≤ n' := by
      refine roundsTo_mono ?_ rounds rounds'
      rw [same]
      exact div_le_div_of_nonneg_right le (by positivity)
    split at rank'
    · rename_i isFull
      rw [if_pos (by omega)] at rank''
      exact rankCompare_le rank' rank'' (Or.inr ⟨by rw [same], le_refl _⟩)
    · split at rank''
      · exact rankCompare_le rank' rank'' (Or.inl (by omega))
      · exact rankCompare_le rank' rank'' (Or.inr ⟨same, by exact_mod_cast mantissas⟩)

end Monotone

section Integers
variable {spec : Format}

theorem unpack_pack_full (sign : Sign) {m : ℕ} {e : ℤ} (pos : 0 < m)
    (full : 2 ^ (spec.mantissaBits - 1) ≤ m) (short : m < 2 ^ spec.mantissaBits)
    (floor : spec.minExponent ≤ e)
    (ceiling : e + spec.exponentBias + spec.mantissaBitsWithoutImplicit + 1 <
      2 ^ spec.exponentBits) :
    unpack spec (UnpackedFloat.pack spec (.finite sign m e pos)) = .finite sign m e pos := by
  have bits : spec.mantissaBits = spec.mantissaBitsWithoutImplicit + 1 := Nat.add_comm _ _
  have least := minExponent_fields spec
  have log : m.log2 = spec.mantissaBits - 1 := by
    rw [Nat.log2_eq_iff pos.ne', Nat.sub_add_cancel (mantissaBits_pos spec)]
    exact ⟨full, short⟩
  obtain ⟨biased, here⟩ : ∃ biased : ℕ,
      e + spec.exponentBias + spec.mantissaBitsWithoutImplicit = (biased : ℤ) :=
    Int.eq_ofNat_of_zero_le (by omega)
  have small : biased + 1 < 2 ^ spec.exponentBits := by
    rw [here] at ceiling
    exact_mod_cast ceiling
  have stored : (BitVec.ofNat spec.exponentBits biased).toNat = biased :=
    Nat.mod_eq_of_lt (by omega)
  have finite : ¬ BitVec.ofNat spec.exponentBits biased = -1#_ := by
    intro last
    have all := congrArg BitVec.toNat last
    rw [stored, BitVec.neg_one_eq_allOnes, BitVec.toNat_allOnes] at all
    omega
  have normal : ¬ BitVec.ofNat spec.exponentBits biased = 0#_ := by
    intro zero
    have none := congrArg BitVec.toNat zero
    rw [stored, BitVec.toNat_zero] at none
    omega
  have mantissa : (1#1 ++ BitVec.ofNat spec.mantissaBitsWithoutImplicit m).toNat = m := by
    rw [bits, Nat.add_sub_cancel] at full
    rw [bits, pow_succ'] at short
    rw [toNat_leading, BitVec.toNat_ofNat, Nat.mod_eq_sub_mod full,
      Nat.mod_eq_of_lt (by omega), Nat.add_sub_cancel' full]
  rw [UnpackedFloat.pack, here, Int.toNat_natCast, if_neg (by omega), if_pos (by rw [log]; omega),
    unpack_packComponents, ofFields, if_neg finite, if_neg normal]
  simp only [mantissa, stored]
  congr 1
  omega

structure Room (spec : Format) (bits : ℕ) : Prop where
  wide : 1 < spec.exponentBits
  low : spec.minExponent < 1 - spec.mantissaBits
  high : bits + spec.exponentBias + 1 < 2 ^ spec.exponentBits

theorem log_natural {n : ℕ} : Int.log 2 (n : ℚ) = n.log2 := by
  rw [Int.log_natCast, Nat.log2_eq_log_two]

theorem round_natural {n : ℕ} (pos : 0 < n) :
    ∃ k, RoundsTo ((n : ℚ) / 2 ^ lastPlace spec n) k ∧
      ∀ sign, round spec sign n 0 = settle spec sign k (lastPlace spec n) := by
  have place : spec.targetExponent (totalExponent n 0) = lastPlace spec n := by
    rw [lastPlace, log_natural, totalExponent, add_zero]
  have given : Gives spec (n <<< (0 - lastPlace spec n).toNat)
      (0 - (0 - lastPlace spec n).toNat) .exact n := by
    refine ⟨by exact_mod_cast pos, ?_, by omega⟩
    show (n : ℚ) / 2 ^ (0 - ((0 - lastPlace spec n).toNat : ℤ)) -
      (n <<< (0 - lastPlace spec n).toNat : ℕ) = 0
    rw [zero_sub, zpow_neg, zpow_natCast, div_inv_eq_mul, Nat.shiftLeft_eq]
    push_cast
    exact sub_self _
  have same (sign : Sign) : round spec sign n 0 = roundWithAccuracy spec sign
      (n <<< (0 - lastPlace spec n).toNat) (0 - (0 - lastPlace spec n).toNat) .exact := by
    simp only [UnpackedFloat.round, decreaseExponent, place]
  obtain ⟨k, rounds, _⟩ := roundWithAccuracy_eq given .positive
  refine ⟨k, rounds, fun sign => ?_⟩
  obtain ⟨k', rounds', settled⟩ := roundWithAccuracy_eq given sign
  rw [same, settled, roundsTo_unique rounds' rounds]

theorem natural_above {bits n : ℕ} (room : Room spec bits) (pos : 0 < n) (short : n < 2 ^ bits) :
    spec.minExponent < lastPlace spec n ∧ lastPlace spec n ≤ bits - spec.mantissaBits := by
  have low := room.low
  have log : n.log2 < bits := (Nat.log2_lt pos.ne').mpr short
  rw [lastPlace, log_natural, Format.targetExponent]
  omega

theorem settle_full {k : ℕ} (full : 2 ^ (spec.mantissaBits - 1) ≤ k)
    (fits : k ≤ 2 ^ spec.mantissaBits) (e : ℤ) :
    ∃ m e' pos, 2 ^ (spec.mantissaBits - 1) ≤ m ∧ m < 2 ^ spec.mantissaBits ∧ e ≤ e' ∧
      e' ≤ e + 1 ∧ ∀ sign, settle spec sign k e = .finite sign m e' pos := by
  have some' : 0 < k := (Nat.two_pow_pos _).trans_le full
  have bits := mantissaBits_pos spec
  by_cases carried : k = 2 ^ spec.mantissaBits
  · refine ⟨2 ^ (spec.mantissaBits - 1), e + 1, Nat.two_pow_pos _, le_rfl,
      Nat.pow_lt_pow_right one_lt_two (by omega), by omega, le_rfl, fun sign => ?_⟩
    rw [settle, dif_neg some'.ne', if_pos carried]
  · refine ⟨k, e, some', full, lt_of_le_of_ne fits carried, le_rfl, by omega, fun sign => ?_⟩
    rw [settle, dif_neg some'.ne', if_neg carried]

theorem unpack_pack_round {bits n : ℕ} (room : Room spec bits) (pos : 0 < n)
    (short : n < 2 ^ bits) :
    ∃ m e pos', Rounding spec .positive n (.finite .positive m e pos') ∧
      ∀ sign, unpack spec (UnpackedFloat.pack spec (round spec sign n 0)) =
        .finite sign m e pos' := by
  obtain ⟨k, rounds, settled⟩ := @round_natural spec n pos
  obtain ⟨above, below⟩ := natural_above room pos short
  have high : (bits : ℤ) + spec.exponentBias + 1 < 2 ^ spec.exponentBits := by
    exact_mod_cast room.high
  have width : (spec.mantissaBits : ℤ) = spec.mantissaBitsWithoutImplicit + 1 := by
    rw [Format.mantissaBits, Nat.cast_add, add_comm]
    rfl
  have positive : (0 : ℚ) < n := by exact_mod_cast pos
  obtain ⟨full, fits⟩ := full_bounds positive above rounds
  obtain ⟨m, e, pos', fullM, shortM, least, most, result⟩ :=
    settle_full full fits (lastPlace spec n)
  refine ⟨m, e, pos', ⟨k, rounds, (result .positive).symm⟩, fun sign => ?_⟩
  rw [settled, result]
  exact unpack_pack_full sign pos' fullM shortM (by omega) (by omega)

def storedInt (spec : Format) (v : ℤ) : UnpackedFloat :=
  unpack spec (UnpackedFloat.pack spec (UnpackedFloat.ofInt spec v))

inductive SignedRounding (spec : Format) (v : ℤ) : UnpackedFloat → Prop where
  | zero (none : v = 0) : SignedRounding spec v (.zero .positive)
  | positive {m : ℕ} {e : ℤ} {pos : 0 < m} (above : 0 < v)
      (rounds : Rounding spec .positive v.natAbs (.finite .positive m e pos)) :
      SignedRounding spec v (.finite .positive m e pos)
  | negative {m : ℕ} {e : ℤ} {pos : 0 < m} (below : v < 0)
      (rounds : Rounding spec .positive v.natAbs (.finite .positive m e pos)) :
      SignedRounding spec v (.finite .negative m e pos)

theorem SignedRounding.isNaN {v : ℤ} {u : UnpackedFloat} (rounding : SignedRounding spec v u) :
    u.isNaN = false := by
  cases rounding <;> rfl

theorem storedInt_rounding {bits : ℕ} (room : Room spec bits) {v : ℤ}
    (short : v.natAbs < 2 ^ bits) : SignedRounding spec v (storedInt spec v) := by
  rcases lt_trichotomy v 0 with below | rfl | above
  · obtain ⟨m, e, pos, rounds, packed⟩ :=
      unpack_pack_round room (Int.natAbs_pos.mpr below.ne) short
    have size : (-v).toNat = v.natAbs := by omega
    rw [storedInt, UnpackedFloat.ofInt, UnpackedFloat.normalize, compare_lt_iff_lt.mpr below]
    show SignedRounding spec v (unpack spec (UnpackedFloat.pack spec (round spec .negative _ 0)))
    rw [size, packed]
    exact .negative below rounds
  · show SignedRounding spec 0 (unpack spec (packComponents spec .positive 0#_ 0#_))
    rw [unpack_packComponents, ofFields_zero room.wide]
    exact .zero rfl
  · obtain ⟨m, e, pos, rounds, packed⟩ :=
      unpack_pack_round room (Int.natAbs_pos.mpr above.ne') short
    have size : v.toNat = v.natAbs := by omega
    rw [storedInt, UnpackedFloat.ofInt, UnpackedFloat.normalize, compare_gt_iff_gt.mpr above]
    show SignedRounding spec v (unpack spec (UnpackedFloat.pack spec (round spec .positive _ 0)))
    rw [size, packed]
    exact .positive above rounds

theorem rankCompare_negative {m m' : ℕ} {e e' : ℤ} (pos : 0 < m) (pos' : 0 < m') :
    rankCompare (.finite .negative m e pos) (.finite .negative m' e' pos') =
      rankCompare (.finite .positive m' e' pos') (.finite .positive m e pos) := by
  show (compare (-e) (-e')).then (compare (-(m : ℤ)) (-(m' : ℤ))) =
    (compare e' e).then (compare (m' : ℤ) m)
  rw [compare_neg, compare_neg]

theorem storedInt_mono {bits : ℕ} (room : Room spec bits) {v w : ℤ} (le : v ≤ w)
    (short : v.natAbs < 2 ^ bits) (short' : w.natAbs < 2 ^ bits) :
    rankCompare (storedInt spec v) (storedInt spec w) ≠ .gt := by
  have mono {i j : ℤ} {u u' : UnpackedFloat} (some' : i ≠ 0) (atMost : i.natAbs ≤ j.natAbs)
      (short : i.natAbs < 2 ^ bits) (rounds : Rounding spec .positive i.natAbs u)
      (rounds' : Rounding spec .positive j.natAbs u') : rankCompare u u' ≠ .gt := by
    have pos := Int.natAbs_pos.mpr some'
    exact rounding_mono (by exact_mod_cast pos) (by exact_mod_cast atMost)
      (natural_above room pos short).1 rounds rounds'
  have rounding := storedInt_rounding room short
  have rounding' := storedInt_rounding room short'
  generalize storedInt spec v = u at rounding
  generalize storedInt spec w = u' at rounding'
  cases rounding with
  | zero none =>
    cases rounding' with
    | zero none' => exact Ordering.noConfusion
    | positive above' rounds' => exact Ordering.noConfusion
    | negative below' rounds' => omega
  | positive above rounds =>
    cases rounding' with
    | zero none' => omega
    | positive above' rounds' => exact mono above.ne' (by omega) short rounds rounds'
    | negative below' rounds' => omega
  | negative below rounds =>
    cases rounding' with
    | zero none' => exact Ordering.noConfusion
    | positive above' rounds' => exact Ordering.noConfusion
    | negative below' rounds' =>
      rw [rankCompare_negative]
      exact mono below'.ne (by omega) short' rounds' rounds

end Integers

end BinaryRounding
