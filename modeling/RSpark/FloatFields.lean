import RSpark.Rounding

/- The fields of a packed binary float: a float unpacks to its canonical form, which packs to
   the same fields under any sign. -/
namespace BinaryRounding
open Float.Model Float.Model.UnpackedFloat

section Fields
variable {spec : Format}

def ofFields (spec : Format) (sign : Sign) (exponent : BitVec spec.exponentBits)
    (mantissa : BitVec spec.mantissaBitsWithoutImplicit) : UnpackedFloat :=
  if exponent = -1#_ then
    if mantissa = 0#_ then .infinity sign else .notANumber
  else if exponent = 0#_ then
    if some : mantissa = 0#_ then .zero sign
    else .finite sign mantissa.toNat
      ((exponent.toNat : ℤ) - (spec.exponentBias + spec.mantissaBitsWithoutImplicit) + 1)
      (by simpa [BitVec.toNat_pos, BitVec.pos_iff_ne_zero] using some)
  else .finite sign (1#1 ++ mantissa).toNat
    ((exponent.toNat : ℤ) - (spec.exponentBias + spec.mantissaBitsWithoutImplicit)) (by simp)

theorem unpack_eq (b : BitVec spec.numBits) :
    unpack spec b = ofFields spec (Sign.ofBitVec (unpackSign b)) (unpackExponent b)
      (unpackMantissa b) := rfl

theorem unpack_packComponents (sign : Sign) (exponent : BitVec spec.exponentBits)
    (mantissa : BitVec spec.mantissaBitsWithoutImplicit) :
    unpack spec (packComponents spec sign exponent mantissa) =
      ofFields spec sign exponent mantissa := by
  rw [unpack_eq, unpackSign_packComponents, Sign.ofBitVec_toBitVec, unpackExponent_packComponents,
    unpackMantissa_packComponents]

theorem packComponents_positive (b : BitVec spec.numBits) :
    packComponents spec .positive (unpackExponent b) (unpackMantissa b) =
      b &&& BitVec.ofNat _ (2 ^ (spec.exponentBits + spec.mantissaBitsWithoutImplicit) - 1) := by
  have bits := spec.hm
  have bits' := spec.he
  ext i inside
  have mask : (BitVec.ofNat spec.numBits
      (2 ^ (spec.exponentBits + spec.mantissaBitsWithoutImplicit) - 1))[i] =
        decide (i < spec.exponentBits + spec.mantissaBitsWithoutImplicit) := by
    rw [← BitVec.getLsbD_eq_getElem, BitVec.getLsbD_ofNat, Nat.testBit_two_pow_sub_one,
      decide_eq_true inside, Bool.true_and]
  rw [BitVec.getElem_and, mask]
  simp only [packComponents, BitVec.getElem_append, unpackExponent, unpackMantissa]
  split
  · rename_i low
    rw [decide_eq_true (by omega)]
    simp [BitVec.getLsbD_eq_getElem inside]
  · split
    · rename_i high middle
      have place : spec.mantissaBitsWithoutImplicit + (i - spec.mantissaBitsWithoutImplicit) = i :=
        by omega
      rw [decide_eq_true (by omega)]
      simp [place, BitVec.getLsbD_eq_getElem inside]
    · rename_i high higher
      rw [decide_eq_false (by omega)]
      simp [Sign.toBitVec]

theorem toNat_leading {width : ℕ} (mantissa : BitVec width) :
    (1#1 ++ mantissa).toNat = 2 ^ width + mantissa.toNat := by
  rw [BitVec.toNat_append, ← Nat.shiftLeft_add_eq_or_of_lt mantissa.isLt]
  simp [Nat.shiftLeft_eq]

theorem minExponent_fields (spec : Format) :
    spec.minExponent = 1 - ((spec.exponentBias : ℤ) + spec.mantissaBitsWithoutImplicit) := by
  have bias : ((spec.exponentBias : ℕ) : ℤ) = 2 ^ (spec.exponentBits - 1) - 1 := by
    rw [Format.exponentBias, Nat.cast_sub Nat.one_le_two_pow]
    push_cast
    rfl
  rw [Format.minExponent, bias, Format.mantissaBits]
  push_cast
  ring

theorem exponent_lt {exponent : BitVec spec.exponentBits} (finite : ¬ exponent = -1#_) :
    exponent.toNat + 1 < 2 ^ spec.exponentBits := by
  have bound := exponent.isLt
  by_contra last
  refine finite (BitVec.eq_of_toNat_eq ?_)
  rw [BitVec.neg_one_eq_allOnes, BitVec.toNat_allOnes]
  omega

theorem exponent_pos {exponent : BitVec spec.exponentBits} (normal : ¬ exponent = 0#_) :
    0 < exponent.toNat := by
  rw [BitVec.toNat_pos, BitVec.pos_iff_ne_zero]
  exact normal

structure Stored (spec : Format) (m : ℕ) (e : ℤ) (pos : 0 < m)
    (exponent : BitVec spec.exponentBits) (mantissa : BitVec spec.mantissaBitsWithoutImplicit) :
    Prop where
  canonical : Canonical spec m e
  ceiling : e + spec.mantissaBits + spec.exponentBias < 2 ^ spec.exponentBits
  unpacks : ∀ sign, ofFields spec sign exponent mantissa = .finite sign m e pos

theorem normal_fields {exponent : BitVec spec.exponentBits} (finite : ¬ exponent = -1#_)
    (normal : ¬ exponent = 0#_) (mantissa : BitVec spec.mantissaBitsWithoutImplicit)
    (pos : 0 < (1#1 ++ mantissa).toNat) :
    Stored spec (1#1 ++ mantissa).toNat
      ((exponent.toNat : ℤ) - (spec.exponentBias + spec.mantissaBitsWithoutImplicit)) pos
      exponent mantissa := by
  have small := exponent_lt finite
  have small' : (exponent.toNat : ℤ) + 1 < 2 ^ spec.exponentBits := by exact_mod_cast small
  have one := exponent_pos normal
  have below := mantissa.isLt
  have leading := toNat_leading mantissa
  have twice : 2 ^ (spec.mantissaBitsWithoutImplicit + 1) =
      2 * 2 ^ spec.mantissaBitsWithoutImplicit := pow_succ' _ _
  have bits : spec.mantissaBits = spec.mantissaBitsWithoutImplicit + 1 := Nat.add_comm _ _
  refine ⟨⟨pos, ?_, ?_, ?_⟩, ?_, ?_⟩
  · rw [bits]
    omega
  · rw [minExponent_fields]
    omega
  · rw [bits]
    exact Or.inl (by rw [Nat.add_sub_cancel]; omega)
  · rw [bits]
    omega
  · intro sign
    rw [ofFields, if_neg finite, if_neg normal]

theorem zero_not_last (wide : 1 < spec.exponentBits) :
    ¬ BitVec.ofNat spec.exponentBits 0 = -1#_ := by
  have room : 2 ^ 2 ≤ 2 ^ spec.exponentBits := Nat.pow_le_pow_right two_pos wide
  intro same
  have last := congrArg BitVec.toNat same
  rw [BitVec.neg_one_eq_allOnes, BitVec.toNat_allOnes, BitVec.toNat_zero] at last
  omega

theorem denormal_fields (wide : 1 < spec.exponentBits)
    {mantissa : BitVec spec.mantissaBitsWithoutImplicit} (some : ¬ mantissa = 0#_)
    (pos : 0 < mantissa.toNat) :
    Stored spec mantissa.toNat (((BitVec.ofNat spec.exponentBits 0).toNat : ℤ) -
      (spec.exponentBias + spec.mantissaBitsWithoutImplicit) + 1) pos 0#_ mantissa := by
  have below := mantissa.isLt
  have least : ((BitVec.ofNat spec.exponentBits 0).toNat : ℤ) -
      (spec.exponentBias + spec.mantissaBitsWithoutImplicit) + 1 = spec.minExponent := by
    rw [minExponent_fields, BitVec.toNat_zero, Nat.cast_zero]
    ring
  have twice : 2 ^ (spec.mantissaBitsWithoutImplicit + 1) =
      2 * 2 ^ spec.mantissaBitsWithoutImplicit := pow_succ' _ _
  have bits : spec.mantissaBits = spec.mantissaBitsWithoutImplicit + 1 := Nat.add_comm _ _
  have room : 2 ^ 2 ≤ 2 ^ spec.exponentBits := Nat.pow_le_pow_right two_pos wide
  have room' : (4 : ℤ) ≤ 2 ^ spec.exponentBits := by exact_mod_cast room
  refine ⟨⟨pos, ?_, least.ge, Or.inr least⟩, ?_, ?_⟩
  · rw [bits]
    omega
  · rw [least, minExponent_fields, bits]
    omega
  · intro sign
    rw [ofFields, if_neg (zero_not_last wide), if_pos rfl, dif_neg some]

theorem ofFields_zero (wide : 1 < spec.exponentBits) (sign : Sign) :
    ofFields spec sign 0#_ 0#_ = .zero sign := by
  rw [ofFields, if_neg (zero_not_last wide), if_pos rfl, dif_pos rfl]

theorem ofFields_finite (wide : 1 < spec.exponentBits) {sign sign' : Sign}
    {exponent : BitVec spec.exponentBits} {mantissa : BitVec spec.mantissaBitsWithoutImplicit}
    {m : ℕ} {e : ℤ} {pos : 0 < m}
    (fields : ofFields spec sign exponent mantissa = .finite sign' m e pos) :
    sign' = sign ∧ Stored spec m e pos exponent mantissa := by
  unfold ofFields at fields
  split at fields
  · split at fields <;> cases fields
  · rename_i finite
    split at fields
    · rename_i denormal
      subst denormal
      split at fields
      · cases fields
      · rename_i some
        cases fields
        exact ⟨rfl, denormal_fields wide some pos⟩
    · rename_i normal
      cases fields
      exact ⟨rfl, normal_fields finite normal mantissa pos⟩

theorem Stored.packs (wide : 1 < spec.exponentBits) {m : ℕ} {e : ℤ} {pos : 0 < m}
    {exponent : BitVec spec.exponentBits} {mantissa : BitVec spec.mantissaBitsWithoutImplicit}
    (stored : Stored spec m e pos exponent mantissa) (sign : Sign) :
    UnpackedFloat.pack spec (.finite sign m e pos) =
      packComponents spec sign exponent mantissa := by
  have valid : spec.Valid (packComponents spec sign exponent mantissa) := by
    refine ⟨fun last some => ?_⟩
    rw [unpackExponent_packComponents] at last
    rw [unpackMantissa_packComponents] at some
    have finite := stored.unpacks sign
    rw [ofFields, if_pos last, if_neg some] at finite
    cases finite
  rw [← stored.unpacks sign, ← unpack_packComponents, pack_unpack_of_valid valid wide]

end Fields

end BinaryRounding
