import RSpark.ValueTexts

/- Positional numerals read back: the reader finds the digits before and after the point, and
   they denote the number that was written. -/
namespace RSparkPositionalText
open FloatText RSparkValueTexts

section Positional

/-- What the digits of a positional numeral spell: nothing stands after the point unless the
    exponent is negative. -/
def spelled (digits : Nat) (exponent : Int) : Nat × Int :=
  if 0 ≤ exponent then (digits * 10 ^ exponent.toNat, 0) else (digits, exponent)

theorem digit_of_mem {n : Nat} {c : Char} (mem : c ∈ Nat.toDigits 10 n) : c.isDigit = true :=
  Nat.isDigit_of_mem_toDigits (by decide) (by decide) mem

theorem digit_of_mem_zeros {k : Nat} {c : Char} (mem : c ∈ List.replicate k '0') :
    c.isDigit = true := by
  rw [List.eq_of_mem_replicate mem]
  rfl

theorem takeDigits_all {ds : List Char} (digits : ∀ c ∈ ds, c.isDigit = true)
    (value count : Nat) :
    takeDigits ds value count = (Nat.ofDigitChars 10 ds value, count + ds.length, []) := by
  have stops : ∀ c ∈ ([] : List Char).head?, c.isDigit = false := by simp
  have read := takeDigits_append digits stops value count
  rwa [List.append_nil] at read

theorem takeDigits_point {ds rest : List Char} (digits : ∀ c ∈ ds, c.isDigit = true) :
    takeDigits (ds ++ '.' :: rest) 0 0 = (Nat.ofDigitChars 10 ds 0, ds.length, '.' :: rest) := by
  rw [takeDigits_append digits (by simp), Nat.zero_add]

theorem readDecimal_whole (negative : Bool) {ds : List Char} (some' : ds ≠ [])
    (digits : ∀ c ∈ ds, c.isDigit = true) :
    readDecimal negative ds = some (.decimal negative (Nat.ofDigitChars 10 ds 0) 0) := by
  have length := List.length_pos_iff.mpr some'
  simp only [readDecimal, takeDigits_all digits, Nat.zero_add, Nat.add_zero]
  rw [if_neg (by omega)]
  rfl

theorem readDecimal_point (negative : Bool) {whole frac : List Char} (some' : whole ≠ [])
    (digits : ∀ c ∈ whole, c.isDigit = true) (digits' : ∀ c ∈ frac, c.isDigit = true) :
    readDecimal negative (whole ++ '.' :: frac) =
      some (.decimal negative (Nat.ofDigitChars 10 (whole ++ frac) 0) (-(frac.length : Int))) := by
  have length := List.length_pos_iff.mpr some'
  simp only [readDecimal, takeDigits_point digits, takeDigits_all digits', Nat.zero_add,
    ← Nat.ofDigitChars_append]
  rw [if_neg (by omega)]
  simp [readExponent]

theorem readDecimal_positional (negative : Bool) (digits : Nat) (exponent : Int) :
    readDecimal negative (positional digits exponent) =
      some (.decimal negative (spelled digits exponent).1 (spelled digits exponent).2) := by
  have read := Nat.ofDigitChars_ten_toDigits (n := digits)
  unfold positional spelled
  simp only
  split
  · rename_i natural
    rw [readDecimal_whole negative (by simp [Nat.toDigits_ne_nil])]
    · rw [Nat.ofDigitChars_append, read, Nat.ofDigitChars_replicate_zero, Nat.mul_comm]
    · intro c mem
      exact (List.mem_append.mp mem).elim digit_of_mem digit_of_mem_zeros
  · rename_i negativeExponent
    split
    · rename_i short
      rw [readDecimal_point negative _ fun c mem => digit_of_mem (List.mem_of_mem_take mem)]
      · rw [List.take_append_drop, read, List.length_drop]
        congr 3
        omega
      · exact fun c mem => digit_of_mem (List.mem_of_mem_drop mem)
      · intro nothing
        have none := congrArg List.length nothing
        simp only [List.length_take, List.length_nil] at none
        omega
    · rename_i long
      have text : '0' :: '.' :: List.replicate ((-exponent).toNat - (Nat.toDigits 10 digits).length)
          '0' ++ Nat.toDigits 10 digits = ['0'] ++ '.' :: (List.replicate ((-exponent).toNat -
            (Nat.toDigits 10 digits).length) '0' ++ Nat.toDigits 10 digits) := rfl
      rw [text, readDecimal_point negative (by simp)]
      · have zero : Nat.ofDigitChars 10 ['0'] 0 = 0 := rfl
        rw [Nat.ofDigitChars_append, zero, Nat.ofDigitChars_append,
          Nat.ofDigitChars_replicate_zero, Nat.mul_zero, read, List.length_append,
          List.length_replicate]
        congr 3
        omega
      · simp
      · intro c mem
        exact (List.mem_append.mp mem).elim digit_of_mem_zeros digit_of_mem

theorem positional_head (digits : Nat) (exponent : Int) :
    ∃ c cs, positional digits exponent = c :: cs ∧ c.isDigit = true := by
  obtain ⟨c, cs, text⟩ := List.exists_cons_of_ne_nil (Nat.toDigits_ne_nil (n := digits) (b := 10))
  have digit : c.isDigit = true := digit_of_mem (n := digits) (text ▸ List.mem_cons_self)
  unfold positional
  simp only [text]
  split
  · exact ⟨c, _, rfl, digit⟩
  · split
    · rename_i short
      have some : (c :: cs).length - (-exponent).toNat ≠ 0 := by omega
      obtain ⟨k, count⟩ := Nat.exists_eq_succ_of_ne_zero some
      rw [count]
      exact ⟨c, _, rfl, digit⟩
    · exact ⟨'0', _, rfl, rfl⟩

end Positional

section Words

theorem toLower_digit {c : Char} (digit : c.isDigit = true) : c.toLower = c := by
  have range := Char.isDigit_iff_toNat.mp digit
  unfold Char.toLower
  rw [dif_neg]
  intro upper
  have low : 65 ≤ c.toNat := upper.1
  have high : c.toNat ≤ 57 := range.2
  omega

theorem readNumeral_decimal {s : String} {negative : Bool} {c : Char} {cs : List Char}
    (sign : takeSign s.toList = (negative, c :: cs)) (digit : c.isDigit = true) :
    readNumeral s = readDecimal negative (c :: cs) := by
  have lower : lowerAscii (c :: cs) = c :: lowerAscii cs := by
    rw [lowerAscii, List.map_cons, toLower_digit digit]
    rfl
  have differs (d : Char) (ds : List Char) (letter : d.isDigit = false) :
      ¬ c :: lowerAscii cs = d :: ds := by
    intro same
    rw [(List.cons.inj same).1, letter] at digit
    cases digit
  have infinity : ¬ (c :: lowerAscii cs = "inf".toList ∨ c :: lowerAscii cs = "infinity".toList) :=
    not_or.mpr ⟨differs 'i' _ rfl, differs 'i' _ rfl⟩
  have nan : ¬ c :: lowerAscii cs = "nan".toList := differs 'n' _ rfl
  simp only [readNumeral, sign, lower, if_neg infinity, if_neg nan]

theorem readNumeral_positional (negative : Bool) (digits : Nat) (exponent : Int) :
    readNumeral (String.ofList (if negative then '-' :: positional digits exponent
      else positional digits exponent)) =
        some (.decimal negative (spelled digits exponent).1 (spelled digits exponent).2) := by
  obtain ⟨c, cs, text, digit⟩ := positional_head digits exponent
  rw [← readDecimal_positional, text]
  cases negative with
  | false =>
    refine readNumeral_decimal ?_ digit
    rw [String.toList_ofList]
    exact takeSign_digit cs digit
  | true =>
    refine readNumeral_decimal ?_ digit
    rw [String.toList_ofList]
    rfl

end Words

end RSparkPositionalText
