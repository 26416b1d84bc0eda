import RSpark.DecimalRounding
import RSpark.FloatFields
import RSpark.PositionalText
import RSpark.ShortestDigits

/- Floating point texts read back: what is printed is the shortest numeral that reads back to the
   same bits, seventeen digits always do, and the reader finds that numeral in the text. -/
namespace RSparkFloatTexts
open Float.Model Float.Model.UnpackedFloat BinaryRounding FloatText RSparkPositionalText
open RSparkShortest

section Search
variable {spec : Format} {m : ℕ} {e : ℤ} {pos : 0 < m} {exponent : BitVec spec.exponentBits}
  {mantissa : BitVec spec.mantissaBitsWithoutImplicit}

/-- Seventeen digits tell the mantissas of the format apart, and the exponents of ten that they
    need are computed. -/
structure Roomy (spec : Format) : Prop where
  wide : 1 < spec.exponentBits
  precise : 2 ^ spec.mantissaBits < 10 ^ 16
  deep : spec.mantissaBits + 20 ≤ 2 ^ (spec.exponentBits - 1)
  shallow : 2 ^ (spec.exponentBits - 1) + spec.mantissaBits ≤ 1200

theorem roomy_binary64 : Roomy .binary64 := by
  constructor <;> decide

theorem roomy_binary32 : Roomy .binary32 := by
  constructor <;> decide

def point (m : ℕ) (e : ℤ) : ℤ := pointPosition (m * 2 ^ e.toNat) (2 ^ (-e).toNat)

theorem fraction_value (m : ℕ) (e : ℤ) :
    ((m * 2 ^ e.toNat : ℕ) : ℚ) / (2 ^ (-e).toNat : ℕ) = m * 2 ^ e := by
  have power : (2 : ℚ) ^ e * 2 ^ (-e).toNat = 2 ^ e.toNat := by
    rw [← zpow_natCast, ← zpow_natCast, ← zpow_add₀ two_ne_zero]
    congr 1
    omega
  push_cast
  rw [div_eq_iff (by positivity), mul_assoc, power]

theorem exponents (roomy : Roomy spec) :
    (2 : ℤ) ^ spec.exponentBits = 2 * 2 ^ (spec.exponentBits - 1) ∧
      (spec.exponentBias : ℤ) = 2 ^ (spec.exponentBits - 1) - 1 := by
  have wide := roomy.wide
  constructor
  · rw [← pow_succ']
    congr 1
    omega
  · rw [Format.exponentBias, Nat.cast_sub Nat.one_le_two_pow]
    push_cast
    rfl

theorem point_bounds (roomy : Roomy spec) (canonical : Canonical spec m e) :
    (10 : ℚ) ^ (point m e - 1) ≤ m * 2 ^ e ∧ (m : ℚ) * 2 ^ e < 10 ^ point m e := by
  rw [← fraction_value]
  refine pointPosition_bounds (Nat.mul_pos canonical.pos (Nat.two_pow_pos _)) (Nat.two_pow_pos _) ?_
  have shallow : (2 : ℤ) ^ (spec.exponentBits - 1) + spec.mantissaBits ≤ 1200 := by
    exact_mod_cast roomy.shallow
  have floor := canonical.floor
  rw [Format.minExponent] at floor
  have power (k : ℕ) : 2 ^ (3 * k) ≤ 10 ^ k := by
    rw [Nat.pow_mul]
    exact Nat.pow_le_pow_left (by decide) k
  calc 2 ^ (-e).toNat ≤ 2 ^ (3 * (400 + 1)) := Nat.pow_le_pow_right two_pos (by omega)
    _ ≤ 10 ^ (400 + 1) := power _
    _ ≤ m * 2 ^ e.toNat * 10 ^ (400 + 1) :=
      Nat.le_mul_of_pos_left _ (Nat.mul_pos canonical.pos (Nat.two_pow_pos _))

theorem point_range (roomy : Roomy spec) (canonical : Canonical spec m e)
    (ceiling : e + spec.mantissaBits + spec.exponentBias < 2 ^ spec.exponentBits) :
    spec.minExponent < point m e ∧ point m e + spec.exponentBias ≤ 2 ^ spec.exponentBits := by
  obtain ⟨low, high⟩ := point_bounds roomy canonical
  obtain ⟨twice, bias⟩ := exponents roomy
  have deep : (spec.mantissaBits : ℤ) + 20 ≤ 2 ^ (spec.exponentBits - 1) := by
    exact_mod_cast roomy.deep
  have unit : (0 : ℚ) < 2 ^ e := by positivity
  have some : (1 : ℚ) ≤ m := by exact_mod_cast canonical.pos
  have short : (m : ℚ) < 2 ^ spec.mantissaBits := by exact_mod_cast canonical.short
  constructor
  · by_contra below
    have negative : point m e ≤ 0 := by
      have least : spec.minExponent = 3 - 2 ^ (spec.exponentBits - 1) - spec.mantissaBits := rfl
      omega
    have fives : (5 : ℚ) ^ point m e ≤ 1 := zpow_le_one_of_nonpos₀ (by norm_num) negative
    have twos : (2 : ℚ) ^ point m e ≤ 2 ^ e :=
      zpow_le_zpow_right₀ one_le_two ((not_lt.mp below).trans canonical.floor)
    have tens : (10 : ℚ) ^ point m e = 2 ^ point m e * 5 ^ point m e := by
      rw [← mul_zpow]
      norm_num
    have positive : (0 : ℚ) < 2 ^ point m e := by positivity
    rw [tens] at high
    nlinarith
  · by_contra above
    have natural : 0 ≤ point m e - 1 := by omega
    have fives : (1 : ℚ) ≤ 5 ^ (point m e - 1) := one_le_zpow₀ (by norm_num) natural
    have twos : (2 : ℚ) ^ ((spec.mantissaBits : ℤ) + e) ≤ 2 ^ (point m e - 1) :=
      zpow_le_zpow_right₀ one_le_two (by omega)
    have tens : (10 : ℚ) ^ (point m e - 1) = 2 ^ (point m e - 1) * 5 ^ (point m e - 1) := by
      rw [← mul_zpow]
      norm_num
    have positive : (0 : ℚ) < 2 ^ (point m e - 1) := by positivity
    rw [zpow_add₀ two_ne_zero, zpow_natCast] at twos
    rw [tens] at low
    nlinarith

theorem seventeen_round (roomy : Roomy spec) (canonical : Canonical spec m e) {q : ℚ}
    (near : |q - m * 2 ^ e| ≤ 10 ^ (-((17 : ℤ) - point m e)) / 2) :
    Rounding spec .positive q (.finite .positive m e canonical.pos) := by
  obtain ⟨low, -⟩ := point_bounds roomy canonical
  have unit : (0 : ℚ) < 2 ^ e := by positivity
  have short : (m : ℚ) < 2 ^ spec.mantissaBits := by exact_mod_cast canonical.short
  have precise : (2 : ℚ) ^ spec.mantissaBits < 10 ^ 16 := by exact_mod_cast roomy.precise
  have place : (10 : ℚ) ^ (point m e - 1) = 10 ^ (-((17 : ℤ) - point m e)) * 10 ^ 16 := by
    rw [← zpow_natCast, ← zpow_add₀ (by norm_num)]
    congr 1
    push_cast
    ring
  rw [place] at low
  have digit : (10 : ℚ) ^ (-((17 : ℤ) - point m e)) * 10 ^ 16 < 2 ^ e * 10 ^ 16 := by nlinarith
  have small : (10 : ℚ) ^ (-((17 : ℤ) - point m e)) < 2 ^ e := by linarith
  refine rounding_near canonical .positive (near.trans_lt (by linarith)) ?_
  intro boundary
  have half : (2 : ℚ) * m = 2 ^ spec.mantissaBits := by
    have bits := mantissaBits_pos spec
    rw [boundary]
    push_cast
    rw [← pow_succ']
    congr 1
    omega
  have quarter : (10 : ℚ) ^ (-((17 : ℤ) - point m e)) * 10 ^ 16 < 2 ^ e / 2 * 10 ^ 16 := by
    nlinarith
  rw [abs_le] at near
  linarith

theorem computed_digits (roomy : Roomy spec) (canonical : Canonical spec m e)
    (ceiling : e + spec.mantissaBits + spec.exponentBias < 2 ^ spec.exponentBits) {count k : ℕ}
    (least : 1 ≤ count) (most : count ≤ 17) (few : k ≤ 20) :
    Computed spec (-((count : ℤ) - point m e) + k) := by
  obtain ⟨low, high⟩ := point_range roomy canonical ceiling
  obtain ⟨twice, bias⟩ := exponents roomy
  have deep : (spec.mantissaBits : ℤ) + 20 ≤ 2 ^ (spec.exponentBits - 1) := by
    exact_mod_cast roomy.deep
  rw [Format.minExponent] at low
  constructor <;> omega

theorem spelled_value (digits : ℕ) (exponent : ℤ) :
    ((spelled digits exponent).1 : ℚ) * 10 ^ (spelled digits exponent).2 =
      digits * 10 ^ exponent := by
  unfold spelled
  split
  · rename_i natural
    push_cast
    rw [mul_one, ← zpow_natCast, Int.toNat_of_nonneg natural]
  · rfl

theorem spelled_pos {digits : ℕ} (some : 0 < digits) (exponent : ℤ) :
    0 < (spelled digits exponent).1 := by
  unfold spelled
  split
  · exact Nat.mul_pos some (Nat.pow_pos (by decide))
  · exact some

theorem spelled_computed {digits : ℕ} {exponent : ℤ} (computed : Computed spec exponent) :
    Computed spec (spelled digits exponent).2 := by
  unfold spelled
  split
  · constructor
    · exact neg_nonpos.mpr (by positivity)
    · positivity
  · exact computed

theorem seventeen_pos (roomy : Roomy spec) (canonical : Canonical spec m e) {n : ℕ}
    (near : |(n : ℚ) * 10 ^ (-((17 : ℤ) - point m e)) - m * 2 ^ e| ≤
      10 ^ (-((17 : ℤ) - point m e)) / 2) : 0 < n := by
  obtain ⟨low, -⟩ := point_bounds roomy canonical
  have unit : (0 : ℚ) < 10 ^ (-((17 : ℤ) - point m e)) := by positivity
  have wider : (10 : ℚ) ^ (-((17 : ℤ) - point m e)) ≤ 10 ^ (point m e - 1) :=
    zpow_le_zpow_right₀ (by norm_num) (by omega)
  refine Nat.pos_of_ne_zero ?_
  rintro rfl
  rw [Nat.cast_zero, zero_mul, abs_le] at near
  linarith

theorem digits_pos (roomy : Roomy spec) (stored : Stored spec m e pos exponent mantissa)
    {n : ℕ} {e' : ℤ} (packs : UnpackedFloat.pack spec (UnpackedFloat.ofScientific spec n e') =
      packComponents spec .positive exponent mantissa) : 0 < n := by
  refine Nat.pos_of_ne_zero ?_
  rintro rfl
  have unpacked := congrArg (unpack spec) packs
  have zero : UnpackedFloat.pack spec (UnpackedFloat.ofScientific spec 0 e') =
      packComponents spec .positive 0#_ 0#_ := rfl
  rw [zero, unpack_packComponents, unpack_packComponents, ofFields_zero roomy.wide,
    stored.unpacks] at unpacked
  cases unpacked

theorem seventeen_read (roomy : Roomy spec) (stored : Stored spec m e pos exponent mantissa) :
    ∃ n ∈ [cutOff (m * 2 ^ e.toNat) (2 ^ (-e).toNat) (point m e) (1 + 16),
      cutOff (m * 2 ^ e.toNat) (2 ^ (-e).toNat) (point m e) (1 + 16) + 1],
        UnpackedFloat.pack spec (UnpackedFloat.ofScientific spec n
          (-((1 + 16 : ℕ) - point m e))) = packComponents spec .positive exponent mantissa := by
  obtain ⟨n, mem, near⟩ :=
    cutOff_near (m * 2 ^ e.toNat) (point m e) (Nat.two_pow_pos (-e).toNat) (1 + 16)
  rw [fraction_value] at near
  have computed : Computed spec (-(((1 + 16 : ℕ) : ℤ) - point m e) + (0 : ℕ)) :=
    computed_digits roomy stored.canonical stored.ceiling (by decide) (by decide) (by decide)
  rw [Nat.cast_zero, add_zero] at computed
  have rounding := computed_rounding (seventeen_pos roomy stored.canonical near) computed
  refine ⟨n, mem, ?_⟩
  rw [rounding_unique rounding (seventeen_round roomy stored.canonical near),
    stored.packs roomy.wide]

theorem shortest_packs (roomy : Roomy spec) (stored : Stored spec m e pos exponent mantissa)
    {readsBack : ℕ → ℤ → Bool} (reads : ∀ digits e', readsBack digits e' = true ↔
      UnpackedFloat.pack spec (UnpackedFloat.ofScientific spec digits e') =
        packComponents spec .positive exponent mantissa)
    {found : ℕ × ℤ} (search : found =
      shortest readsBack (m * 2 ^ e.toNat) (2 ^ (-e).toNat) (point m e) 17 1) :
    UnpackedFloat.pack spec (UnpackedFloat.ofScientific spec (spelled found.1 found.2).1
      (spelled found.1 found.2).2) = packComponents spec .positive exponent mantissa := by
  obtain ⟨last, mem, packs⟩ := seventeen_read roomy stored
  obtain ⟨count, n, least, most, back, same⟩ :=
    shortest_reads 16 1 ⟨last, mem, (reads _ _).mpr packs⟩
  obtain ⟨k, few, shifted, stripped⟩ := stripZeros_keeps 20 n (-((count : ℤ) - point m e))
  rw [← same, ← search] at shifted stripped
  rw [reads] at back
  have some := digits_pos roomy stored back
  have some' : 0 < found.1 := by
    refine Nat.pos_of_ne_zero ?_
    intro none
    rw [none, Nat.zero_mul] at stripped
    omega
  have range (k : ℕ) (few : k ≤ 20) :=
    computed_digits roomy stored.canonical stored.ceiling least most few
  have computed : Computed spec (-((count : ℤ) - point m e)) := by
    have plain := range 0 (by decide)
    rwa [Nat.cast_zero, add_zero] at plain
  -- the zeros that were stripped and the point only move the number's places
  have value : ((spelled found.1 found.2).1 : ℚ) * 10 ^ (spelled found.1 found.2).2 =
      n * 10 ^ (-((count : ℤ) - point m e)) := by
    rw [spelled_value, shifted, stripped, zpow_add₀ (by norm_num), zpow_natCast]
    push_cast
    ring
  rw [scientific_same (spelled_pos some' _) (spelled_computed (shifted ▸ range k few)) some
    computed value]
  exact back

end Search

section Texts
variable {spec : Format}

def negative : Sign → Bool
  | .positive => false
  | .negative => true

theorem print_finite {sign : Sign} {m : ℕ} {e : ℤ} {pos : 0 < m} {readsBack : ℕ → ℤ → Bool}
    {found : ℕ × ℤ} (search : found =
      shortest readsBack (m * 2 ^ e.toNat) (2 ^ (-e).toNat) (point m e) 17 1) :
    printUnpacked readsBack (.finite sign m e pos) =
      String.ofList (if negative sign then '-' :: positional found.1 found.2
        else positional found.1 found.2) := by
  subst search
  cases sign <;> rfl

theorem finite_reads (roomy : Roomy spec) {b : BitVec spec.numBits} {sign : Sign} {m : ℕ} {e : ℤ}
    {pos : 0 < m} (number : unpack spec b = .finite sign m e pos) {readsBack : ℕ → ℤ → Bool}
    (reads : ∀ digits e', readsBack digits e' = true ↔
      UnpackedFloat.pack spec (UnpackedFloat.ofScientific spec digits e') =
        b &&& BitVec.ofNat _ (2 ^ (spec.exponentBits + spec.mantissaBitsWithoutImplicit) - 1)) :
    ∃ digits exponent, readNumeral (printUnpacked readsBack (.finite sign m e pos)) =
        some (.decimal (negative sign) digits exponent) ∧
      (if negative sign then UnpackedFloat.pack spec (unpack spec (UnpackedFloat.pack spec
          (UnpackedFloat.ofScientific spec digits exponent))).neg
        else UnpackedFloat.pack spec (UnpackedFloat.ofScientific spec digits exponent)) = b := by
  have whole := packComponents_unpackSign_unpackExponent_unpackMantissa b
  rw [unpack_eq] at number
  obtain ⟨rfl, stored⟩ := ofFields_finite roomy.wide number
  simp only [← packComponents_positive] at reads
  obtain ⟨found, search⟩ : ∃ f, f =
    shortest readsBack (m * 2 ^ e.toNat) (2 ^ (-e).toNat) (point m e) 17 1 := ⟨_, rfl⟩
  have packs := shortest_packs roomy stored reads search
  rw [print_finite search]
  refine ⟨_, _, readNumeral_positional _ found.1 found.2, ?_⟩
  generalize Sign.ofBitVec (unpackSign b) = sign at whole
  rw [packs, unpack_packComponents, stored.unpacks]
  cases sign with
  | positive => exact whole
  | negative => exact (stored.packs roomy.wide .negative).trans whole

theorem parse64_print64 (x : Float) : parse64 (print64 x) = some x := by
  have packed : Float.ofModel (.pack x.toModel.unpack) = x := Float.ofBits_toBits x
  unfold print64
  cases number : x.toModel.unpack with
  | notANumber =>
    rw [← packed, number]
    rfl
  | infinity sign =>
    rw [← packed, number]
    cases sign <;> rfl
  | zero sign =>
    rw [← packed, number]
    cases sign <;> rfl
  | finite sign m e pos =>
    have reads (d : ℕ) (e' : ℤ) :
        decide ((scientific64 d e').toBits = x.toBits &&& 0x7fffffffffffffff) = true ↔
          UnpackedFloat.pack .binary64 (UnpackedFloat.ofScientific .binary64 d e') =
            x.toBits.toBitVec &&& BitVec.ofNat _ (2 ^ (11 + 52) - 1) := by
      rw [decide_eq_true_iff, ← UInt64.toBitVec_inj]
      rfl
    obtain ⟨digits, exponent, read, packs⟩ := finite_reads roomy_binary64 number reads
    rw [parse64, read]
    refine congrArg some (Float.toBits_inj.mp (UInt64.toBitVec_inj.mp ?_))
    generalize negative sign = minus at packs
    cases minus
    · exact packs
    · exact packs

theorem parse32_print32 (x : Float32) : parse32 (print32 x) = some x := by
  have packed : Float32.ofModel (.pack x.toModel.unpack) = x := Float32.ofBits_toBits x
  unfold print32
  cases number : x.toModel.unpack with
  | notANumber =>
    rw [← packed, number]
    rfl
  | infinity sign =>
    rw [← packed, number]
    cases sign <;> rfl
  | zero sign =>
    rw [← packed, number]
    cases sign <;> rfl
  | finite sign m e pos =>
    have reads (d : ℕ) (e' : ℤ) :
        decide ((scientific32 d e').toBits = x.toBits &&& 0x7fffffff) = true ↔
          UnpackedFloat.pack .binary32 (UnpackedFloat.ofScientific .binary32 d e') =
            x.toBits.toBitVec &&& BitVec.ofNat _ (2 ^ (8 + 23) - 1) := by
      rw [decide_eq_true_iff, ← UInt32.toBitVec_inj]
      rfl
    obtain ⟨digits, exponent, read, packs⟩ := finite_reads roomy_binary32 number reads
    rw [parse32, read]
    refine congrArg some (Float32.toBits_inj.mp (UInt32.toBitVec_inj.mp ?_))
    generalize negative sign = minus at packs
    cases minus
    · exact packs
    · exact packs

theorem print64_inj {x y : Float} (same : print64 x = print64 y) : x = y := by
  refine Option.some.inj ?_
  rw [← parse64_print64 x, same, parse64_print64]

theorem print32_inj {x y : Float32} (same : print32 x = print32 y) : x = y := by
  refine Option.some.inj ?_
  rw [← parse32_print32 x, same, parse32_print32]

end Texts

end RSparkFloatTexts
