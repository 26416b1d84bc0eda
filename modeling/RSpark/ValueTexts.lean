import Mathlib.Data.List.Basic
import RSpark.Value

/- The texts of values: an integer reads back from its text, so on values of one type other
   than a floating point type the text tells the value. -/
namespace RSparkValueTexts
open FloatText RSparkValue

section Digits

theorem takeDigits_append {ds rest : List Char} (digits : ∀ c ∈ ds, c.isDigit = true)
    (stops : ∀ c ∈ rest.head?, c.isDigit = false) (value count : Nat) :
    takeDigits (ds ++ rest) value count =
      (Nat.ofDigitChars 10 ds value, count + ds.length, rest) := by
  induction ds generalizing value count with
  | nil =>
    cases rest with
    | nil => rfl
    | cons c cs => simp [takeDigits, stops c rfl]
  | cons c cs ih =>
    obtain ⟨here, later⟩ := List.forall_mem_cons.mp digits
    rw [List.cons_append, takeDigits, if_pos here, ih later, Nat.ofDigitChars_cons,
      List.length_cons, Nat.add_assoc, Nat.add_comm 1]
    rfl

theorem takeDigits_toDigits (n : Nat) {rest : List Char}
    (stops : ∀ c ∈ rest.head?, c.isDigit = false) :
    takeDigits (Nat.toDigits 10 n ++ rest) 0 0 = (n, (Nat.toDigits 10 n).length, rest) := by
  rw [takeDigits_append (fun c => Nat.isDigit_of_mem_toDigits (by decide) (by decide)) stops,
    Nat.ofDigitChars_ten_toDigits, Nat.zero_add]

theorem takeSign_digit {c : Char} (cs : List Char) (digit : c.isDigit = true) :
    takeSign (c :: cs) = (false, c :: cs) := by
  unfold takeSign
  split
  · rename_i same
    obtain ⟨rfl, _⟩ := List.cons.inj same
    cases digit
  · rename_i same
    obtain ⟨rfl, _⟩ := List.cons.inj same
    cases digit
  · rfl

theorem takeSign_toDigits (n : Nat) (rest : List Char) :
    takeSign (Nat.toDigits 10 n ++ rest) = (false, Nat.toDigits 10 n ++ rest) := by
  cases digits : Nat.toDigits 10 n with
  | nil => exact absurd digits Nat.toDigits_ne_nil
  | cons c cs =>
    refine takeSign_digit (cs ++ rest) ?_
    exact Nat.isDigit_of_mem_toDigits (by decide) (by decide) (digits ▸ List.mem_cons_self)

end Digits

section Integers

theorem toList_int (i : Int) :
    (toString i).toList = if 0 ≤ i then Nat.toDigits 10 i.toNat
      else '-' :: Nat.toDigits 10 (-i).toNat := by
  cases i with
  | ofNat n => exact Nat.toList_repr
  | negSucc n =>
    show ("-" ++ Nat.repr (n + 1)).toList = _
    rw [if_neg (by omega), String.toList_append, Nat.toList_repr]
    rfl

theorem takeDigits_whole (n : Nat) :
    ∃ count, takeDigits (Nat.toDigits 10 n) 0 0 = (n, count + 1, []) := by
  have stops : ∀ c ∈ ([] : List Char).head?, c.isDigit = false := by simp
  have read := takeDigits_toDigits n stops
  have some : 0 < (Nat.toDigits 10 n).length := Nat.length_toDigits_pos
  rw [List.append_nil] at read
  exact ⟨(Nat.toDigits 10 n).length - 1, by rw [read]; congr; omega⟩

theorem parseInt_text {low high i : Int} (inside : low ≤ i ∧ i ≤ high) :
    parseInt low high (toString i) = some i := by
  unfold parseInt
  rw [toList_int]
  by_cases natural : 0 ≤ i
  · obtain ⟨count, read⟩ := takeDigits_whole i.toNat
    have unsigned := takeSign_toDigits i.toNat []
    rw [List.append_nil] at unsigned
    simp only [if_pos natural, unsigned, read, Int.toNat_of_nonneg natural,
      Bool.false_eq_true, if_false, if_pos inside]
  · obtain ⟨count, read⟩ := takeDigits_whole (-i).toNat
    have signed (cs : List Char) : takeSign ('-' :: cs) = (true, cs) := rfl
    have same : -((-i).toNat : Int) = i := by omega
    simp only [if_neg natural, signed, read, same, if_true, if_pos inside]

theorem int_text_inj {i j : Int} (same : toString i = toString j) : i = j := by
  have back (k : Int) (low : min i j ≤ k) (high : k ≤ max i j) :
      parseInt (min i j) (max i j) (toString k) = some k := parseInt_text ⟨low, high⟩
  refine Option.some.inj ?_
  rw [← back i (by omega) (by omega), same, back j (by omega) (by omega)]

theorem int_text_not_word {i : Int} {word : String} (wordy : parseInt i i word = none) :
    toString i ≠ word := by
  intro same
  rw [← same, parseInt_text ⟨Int.le_refl i, Int.le_refl i⟩] at wordy
  cases wordy

end Integers

section Words

def floating : Value → Bool
  | .float32 _ | .float64 _ => true
  | _ => false

theorem text_inj {v w : Value} (sameType : v.dataTypeName = w.dataTypeName)
    (exact' : floating v = false) (same : v.castToString = w.castToString) : v = w := by
  cases v <;> cases w <;> simp only [Value.dataTypeName, String.reduceEq] at sameType
  case null => rfl
  case boolean a b =>
    cases a <;> cases b <;> first | rfl | exact absurd same (by decide)
  case int32 a b => rw [Int32.toInt_inj.mp (int_text_inj same)]
  case int64 a b => rw [Int64.toInt_inj.mp (int_text_inj same)]
  case float32 a b => cases exact'
  case float64 a b => cases exact'
  case string a b => exact congrArg Value.string same

end Words

end RSparkValueTexts
