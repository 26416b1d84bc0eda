import RSpark.ColumnTypes
import RSpark.FlowOutput

/- The types that the CSV reader detects, against the values that it then reads. -/
namespace RSparkCsvTypes
open RSparkValue RSparkBatch RSparkPlanner RSparkValueKinds RSparkColumnTypes RSparkCsvSource
open RSparkFlowOutput FloatText

section Words

theorem toLower_cases (c : Char) : c.toLower = c ∨ (65 ≤ c.toNat ∧ 97 ≤ c.toLower.toNat) := by
  unfold Char.toLower
  split
  · rename_i upper
    right
    have low : 65 ≤ c.val.toNat := upper.1
    have high : c.val.toNat ≤ 90 := upper.2
    have lower : (c.val + ('a'.val - 'A'.val)).toNat = c.val.toNat + 32 := by
      have step : ('a'.val - 'A'.val).toNat = 32 := by decide
      rw [UInt32.toNat_add, step]
      omega
    refine ⟨low, ?_⟩
    show 97 ≤ (c.val + ('a'.val - 'A'.val)).toNat
    omega
  · exact Or.inl rfl

theorem letter_of_lower {c : Char} (letter : 65 ≤ c.toLower.toNat) : 65 ≤ c.toNat := by
  rcases toLower_cases c with same | ⟨upper, _⟩
  · rwa [same] at letter
  · exact upper

theorem eq_of_lower {c d : Char} (spelled : c.toLower = d) (below : d.toNat < 97) : c = d := by
  rcases toLower_cases c with same | ⟨_, lower⟩
  · exact same.symm.trans spelled
  · rw [spelled] at lower
    omega

theorem lowerAscii_eq_cons {cs word : List Char} {first : Char}
    (spelled : lowerAscii cs = first :: word) :
    ∃ c rest, cs = c :: rest ∧ c.toLower = first ∧ lowerAscii rest = word := by
  cases cs with
  | nil => exact nomatch spelled
  | cons c rest =>
    obtain ⟨head, tail⟩ := List.cons.inj spelled
    exact ⟨c, rest, rfl, head, tail⟩

theorem takeSign_letter {c : Char} (letter : 65 ≤ c.toNat) (rest : List Char) :
    takeSign (c :: rest) = (false, c :: rest) := by
  unfold takeSign
  split
  · rename_i same
    obtain ⟨rfl, _⟩ := List.cons.inj same
    exact absurd letter (by decide)
  · rename_i same
    obtain ⟨rfl, _⟩ := List.cons.inj same
    exact absurd letter (by decide)
  · rfl

theorem takeDigits_letter {c : Char} (letter : 65 ≤ c.toNat) (rest : List Char)
    (value count : Nat) : takeDigits (c :: rest) value count = (value, count, c :: rest) := by
  refine if_neg fun digit => ?_
  have small : c.toNat ≤ 57 := by
    simp only [Char.isDigit, Bool.and_eq_true, decide_eq_true_eq] at digit
    exact digit.2
  omega

theorem readNumeral_word {cs word : List Char} {first : Char}
    (spelled : lowerAscii cs = first :: word) (letter : 65 ≤ first.toNat)
    (other : first :: word ∉ ["inf".toList, "infinity".toList, "nan".toList]) :
    readNumeral (String.ofList cs) = none := by
  obtain ⟨c, rest, rfl, rfl, _⟩ := lowerAscii_eq_cons spelled
  have here := letter_of_lower letter
  simp only [List.mem_cons, List.not_mem_nil, or_false, not_or] at other
  rw [readNumeral, String.toList_ofList, takeSign_letter here]
  simp only [spelled, other, or_self, if_false]
  have point : c ≠ '.' := by
    rintro rfl
    exact absurd here (by decide)
  simp only [readDecimal, takeDigits_letter here]
  split
  · rename_i same
    exact absurd (List.cons.inj same).1 point
  · rfl

theorem parse64_of_parseI64 {s : String} {v : Int64} (read : parseI64 s = some v) :
    ∃ f, parse64 s = some f := by
  obtain ⟨n, parsed, _⟩ := Option.map_eq_some_iff.mp read
  have some' : ∃ numeral, readNumeral s = some numeral := by
    simp only [readNumeral]
    unfold parseInt at parsed
    generalize takeSign s.toList = signed at parsed ⊢
    obtain ⟨negative, cs⟩ := signed
    simp only at parsed ⊢
    split
    · exact ⟨_, rfl⟩
    · split
      · exact ⟨_, rfl⟩
      · split at parsed
        · cases parsed
        · rename_i value count shown digits
          simp only [readDecimal, digits]
          rw [if_neg (by simpa using shown)]
          exact ⟨_, rfl⟩
        · cases parsed
  obtain ⟨numeral, parsed⟩ := some'
  rw [parse64, parsed]
  exact ⟨_, rfl⟩

end Words

section Cells

def Blank (raw : List Char) : Prop :=
  trimChars raw = [] ∨ eqIgnoreAsciiCase (trimChars raw) "null" = true

def SpellsNone (raw : List Char) : Prop := eqIgnoreAsciiCase (trimChars raw) "none" = true

def SpellsBoolean (raw : List Char) : Prop :=
  eqIgnoreAsciiCase (trimChars raw) "true" = true ∨
    eqIgnoreAsciiCase (trimChars raw) "false" = true

def SpellsNumber (raw : List Char) : Prop :=
  (parse64 (String.ofList (trimChars raw))).isSome = true

def SpellsBit (raw : List Char) : Prop := trimChars raw = ['0'] ∨ trimChars raw = ['1']

def PlainText (raw : List Char) : Prop :=
  ¬ Blank raw ∧ ¬ SpellsNone raw ∧ ¬ SpellsBoolean raw ∧ ¬ SpellsNumber raw

instance (raw : List Char) : Decidable (Blank raw) := inferInstanceAs (Decidable (_ ∨ _))
instance (raw : List Char) : Decidable (SpellsNone raw) := inferInstanceAs (Decidable (_ = _))
instance (raw : List Char) : Decidable (SpellsBoolean raw) := inferInstanceAs (Decidable (_ ∨ _))
instance (raw : List Char) : Decidable (SpellsNumber raw) := inferInstanceAs (Decidable (_ = _))
instance (raw : List Char) : Decidable (SpellsBit raw) := inferInstanceAs (Decidable (_ ∨ _))
instance (raw : List Char) : Decidable (PlainText raw) :=
  inferInstanceAs (Decidable (_ ∧ _ ∧ _ ∧ _))

theorem cell_cases (raw : List Char) :
    Blank raw ∨ SpellsNone raw ∨ SpellsBoolean raw ∨ SpellsNumber raw ∨ PlainText raw := by
  unfold PlainText
  tauto

variable {raw : List Char}

theorem lower_eq {word : String} (spelled : eqIgnoreAsciiCase (trimChars raw) word = true) :
    lowerAscii (trimChars raw) = lowerAscii word.toList := of_decide_eq_true spelled

theorem spells_eq {word : String} (lower : lowerAscii (trimChars raw) = lowerAscii word.toList)
    (other : String) : eqIgnoreAsciiCase (trimChars raw) other =
      decide (lowerAscii word.toList = lowerAscii other.toList) := by
  rw [eqIgnoreAsciiCase, lower]

theorem shown_of_lower {first : Char} {word : List Char}
    (lower : lowerAscii (trimChars raw) = first :: word) : (trimChars raw).isEmpty = false := by
  obtain ⟨c, rest, same, _⟩ := lowerAscii_eq_cons lower
  rw [same]
  rfl

theorem not_number_of_lower {first : Char} {word : List Char}
    (lower : lowerAscii (trimChars raw) = first :: word) (letter : 65 ≤ first.toNat)
    (other : first :: word ∉ ["inf".toList, "infinity".toList, "nan".toList]) :
    ¬ SpellsNumber raw := by
  rw [SpellsNumber, parse64, readNumeral_word lower letter other]
  exact Bool.false_ne_true

theorem number_not_blank (number : SpellsNumber raw) : ¬ Blank raw := by
  rintro (empty | spelled)
  · rw [SpellsNumber, empty] at number
    exact absurd number (by decide)
  · exact not_number_of_lower (lower_eq spelled) (by decide) (by decide) number

theorem number_not_none (number : SpellsNumber raw) : ¬ SpellsNone raw := fun spelled =>
  not_number_of_lower (lower_eq spelled) (by decide) (by decide) number

theorem number_not_boolean (number : SpellsNumber raw) : ¬ SpellsBoolean raw := by
  rintro (spelled | spelled) <;>
    exact not_number_of_lower (lower_eq spelled) (by decide) (by decide) number

theorem word_not_blank {word : String} (spelled : eqIgnoreAsciiCase (trimChars raw) word = true)
    (some' : lowerAscii word.toList ≠ [])
    (other : lowerAscii word.toList ≠ lowerAscii "null".toList) : ¬ Blank raw := by
  have lower := lower_eq spelled
  rintro (empty | null)
  · rw [empty] at lower
    exact some' lower.symm
  · exact other (lower.symm.trans (lower_eq null))

theorem none_not_blank (spelled : SpellsNone raw) : ¬ Blank raw :=
  word_not_blank spelled (by decide) (by decide)

theorem boolean_not_blank (spelled : SpellsBoolean raw) : ¬ Blank raw := by
  rcases spelled with yes | no
  · exact word_not_blank yes (by decide) (by decide)
  · exact word_not_blank no (by decide) (by decide)

theorem parse_blank (blank : Blank raw) : parseCsvValue raw = .null := by
  rcases blank with empty | spelled
  · simp [parseCsvValue, empty]
  · simp [parseCsvValue, spelled]

theorem parse_none (spelled : SpellsNone raw) : parseCsvValue raw = .null := by
  simp [parseCsvValue, show eqIgnoreAsciiCase (trimChars raw) "none" = true from spelled]

theorem parse_boolean (spelled : SpellsBoolean raw) : ∃ b, parseCsvValue raw = .boolean b := by
  rcases spelled with yes | no
  · have lower := lower_eq yes
    refine ⟨true, ?_⟩
    simp only [parseCsvValue, shown_of_lower lower, spells_eq lower]
    rfl
  · have lower := lower_eq no
    refine ⟨false, ?_⟩
    simp only [parseCsvValue, shown_of_lower lower, spells_eq lower]
    rfl

theorem parse_wordless (shown : ¬ Blank raw) (some' : ¬ SpellsNone raw)
    (other : ¬ SpellsBoolean raw) : parseCsvValue raw =
      match parseI64 (String.ofList (trimChars raw)) with
      | some v => .int64 v
      | none =>
          match parse64 (String.ofList (trimChars raw)) with
          | some v => .float64 v
          | none => .string (String.ofList (trimChars raw)) := by
  obtain ⟨filled, notNull⟩ := not_or.mp shown
  obtain ⟨notTrue, notFalse⟩ := not_or.mp other
  have valued : ¬ ((trimChars raw).isEmpty || eqIgnoreAsciiCase (trimChars raw) "null" ||
      eqIgnoreAsciiCase (trimChars raw) "none") = true := by
    rw [Bool.or_eq_true, Bool.or_eq_true, List.isEmpty_iff, not_or, not_or]
    exact ⟨⟨filled, notNull⟩, some'⟩
  exact (if_neg valued).trans ((if_neg notTrue).trans (if_neg notFalse))

theorem parse_number (number : SpellsNumber raw) :
    (∃ v, parseCsvValue raw = .int64 v ∧
      parseI64 (String.ofList (trimChars raw)) = some v) ∨
    ∃ v, parseCsvValue raw = .float64 v := by
  rw [parse_wordless (number_not_blank number) (number_not_none number)
    (number_not_boolean number)]
  obtain ⟨f, read⟩ := Option.isSome_iff_exists.mp number
  rw [read]
  cases parseI64 (String.ofList (trimChars raw)) with
  | some v => exact Or.inl ⟨v, rfl, rfl⟩
  | none => exact Or.inr ⟨f, rfl⟩

theorem parse_text (text : PlainText raw) :
    parseCsvValue raw = .string (String.ofList (trimChars raw)) := by
  obtain ⟨shown, some', other, numberless⟩ := text
  rw [parse_wordless shown some' other]
  have none' : parse64 (String.ofList (trimChars raw)) = none := by
    simpa [SpellsNumber] using numberless
  cases read : parseI64 (String.ofList (trimChars raw)) with
  | none => rw [none']
  | some v =>
    obtain ⟨f, read'⟩ := parse64_of_parseI64 read
    exact nomatch none'.symm.trans read'

theorem coerce_blank (blank : Blank raw) (type : DataType) : coerceValue raw type = .null := by
  rcases blank with empty | spelled
  · simp [coerceValue, empty]
  · simp [coerceValue, spelled]

theorem coerce_shown (shown : ¬ Blank raw) (type : DataType) :
    coerceValue raw type =
      match type with
      | .boolean => orText .boolean (trimChars raw) (coerceBoolean (trimChars raw))
      | .int64 => orText .int64 (trimChars raw) (parseI64 (String.ofList (trimChars raw)))
      | .int32 => orText .int32 (trimChars raw) (parseI32 (String.ofList (trimChars raw)))
      | .float64 => orText .float64 (trimChars raw) (parse64 (String.ofList (trimChars raw)))
      | .float32 => orText .float32 (trimChars raw) (parse32 (String.ofList (trimChars raw)))
      | _ => .string (String.ofList (trimChars raw)) := by
  obtain ⟨filled, notNull⟩ := not_or.mp shown
  refine if_neg ?_
  rw [Bool.or_eq_true, List.isEmpty_iff, not_or]
  exact ⟨filled, notNull⟩

theorem coerce_string (raw : List Char) : Fits .string (coerceValue raw .string) := by
  by_cases blank : Blank raw
  · rw [coerce_blank blank]
    exact fits_null _
  · rw [coerce_shown blank]
    exact fun _ => rfl

theorem coerce_int64 (shown : ¬ Blank raw) : Fits .int64 (coerceValue raw .int64) ↔
    (parseI64 (String.ofList (trimChars raw))).isSome = true := by
  rw [coerce_shown shown]
  exact fits_parsed (fun _ => rfl) (by decide) _ _

theorem coerce_float64 (shown : ¬ Blank raw) :
    Fits .float64 (coerceValue raw .float64) ↔ SpellsNumber raw := by
  rw [coerce_shown shown]
  exact fits_parsed (fun _ => rfl) (by decide) _ _

theorem coerce_boolean (shown : ¬ Blank raw) : Fits .boolean (coerceValue raw .boolean) ↔
    (coerceBoolean (trimChars raw)).isSome = true := by
  rw [coerce_shown shown]
  exact fits_parsed (fun _ => rfl) (by decide) _ _

theorem coerceBoolean_isSome (cs : List Char) : (coerceBoolean cs).isSome = true ↔
    String.ofList (lowerAscii cs) ∈
      ["true", "t", "1", "yes", "y", "false", "f", "0", "no", "n"] := by
  unfold coerceBoolean
  split
  · rename_i yes
    simp only [List.mem_cons, List.not_mem_nil, or_false] at yes ⊢
    simp only [Option.isSome_some, true_iff]
    tauto
  · split
    · rename_i no
      simp only [List.mem_cons, List.not_mem_nil, or_false] at no ⊢
      simp only [Option.isSome_some, true_iff]
      tauto
    · rename_i notYes notNo
      simp only [List.mem_cons, List.not_mem_nil, or_false] at notYes notNo ⊢
      simp only [Option.isSome_none, Bool.false_eq_true, false_iff]
      tauto

theorem boolean_fits (spelled : SpellsBoolean raw) :
    (coerceBoolean (trimChars raw)).isSome = true := by
  rw [coerceBoolean_isSome]
  rcases spelled with yes | no
  · rw [lower_eq yes]
    decide
  · rw [lower_eq no]
    decide

theorem none_never_fits (spelled : SpellsNone raw) :
    ¬ (coerceBoolean (trimChars raw)).isSome = true := by
  rw [coerceBoolean_isSome, lower_eq spelled]
  decide

theorem number_fits (number : SpellsNumber raw) :
    (coerceBoolean (trimChars raw)).isSome = true ↔ SpellsBit raw := by
  rw [coerceBoolean_isSome]
  constructor
  · intro mem
    have single {d : Char} (lower : lowerAscii (trimChars raw) = [d]) (below : d.toNat < 97) :
        trimChars raw = [d] := by
      obtain ⟨c, rest, same, here, none'⟩ := lowerAscii_eq_cons lower
      obtain rfl := List.map_eq_nil_iff.mp none'
      rw [same, eq_of_lower here below]
    have word {first : Char} {rest : List Char}
        (spelled : String.ofList (lowerAscii (trimChars raw)) = String.ofList (first :: rest))
        (letter : 65 ≤ first.toNat)
        (other : first :: rest ∉ ["inf".toList, "infinity".toList, "nan".toList]) : False :=
      not_number_of_lower (String.ofList_injective spelled) letter other number
    simp only [List.mem_cons, List.not_mem_nil, or_false] at mem
    rcases mem with h | h | h | h | h | h | h | h | h | h
    · exact (word h (by decide) (by decide)).elim
    · exact (word h (by decide) (by decide)).elim
    · exact Or.inr (single (String.ofList_injective h) (by decide))
    · exact (word h (by decide) (by decide)).elim
    · exact (word h (by decide) (by decide)).elim
    · exact (word h (by decide) (by decide)).elim
    · exact (word h (by decide) (by decide)).elim
    · exact Or.inl (single (String.ofList_injective h) (by decide))
    · exact (word h (by decide) (by decide)).elim
    · exact (word h (by decide) (by decide)).elim
  · rintro (zero | one)
    · rw [zero]
      decide
    · rw [one]
      decide

end Cells

section Columns

def fitsFloat : Value → Bool
  | .null | .int64 _ | .float64 _ => true
  | _ => false

def fitsBool : Value → Bool
  | .null | .int64 _ | .float64 _ | .boolean _ => true
  | _ => false

theorem note_eq (scan : ColumnScan) (v : Value) : scan.note v =
    ⟨scan.allInt && intOrNull v, scan.allFloat && fitsFloat v, scan.allBool && fitsBool v,
      scan.anyValue || !v.isNull⟩ := by
  cases v <;> simp [ColumnScan.note, intOrNull, fitsFloat, fitsBool, Value.isNull]

theorem foldl_note (scan : ColumnScan) (vs : List Value) : vs.foldl ColumnScan.note scan =
    ⟨scan.allInt && vs.all intOrNull, scan.allFloat && vs.all fitsFloat,
      scan.allBool && vs.all fitsBool, scan.anyValue || vs.any (!·.isNull)⟩ := by
  induction vs generalizing scan with
  | nil => simp
  | cons v vs ih => simp [ih, note_eq, Bool.and_assoc, Bool.or_assoc]

def columnType (cells : List (List Char)) : DataType :=
  ((cells.map parseCsvValue).foldl ColumnScan.note ⟨true, true, true, false⟩).dataType

theorem columnType_eq (cells : List (List Char)) : columnType cells =
    if cells.all (fun raw => (parseCsvValue raw).isNull) then .string
    else if cells.all (fun raw => intOrNull (parseCsvValue raw)) then .int64
    else if cells.all (fun raw => fitsFloat (parseCsvValue raw)) then .float64
    else if cells.all (fun raw => fitsBool (parseCsvValue raw)) then .boolean
    else .string := by
  have any : (cells.any fun raw => !(parseCsvValue raw).isNull) =
      !cells.all fun raw => (parseCsvValue raw).isNull := by
    rw [List.not_all_eq_any_not]
  simp only [columnType, foldl_note, ColumnScan.dataType, List.all_map, List.any_map,
    Function.comp_def, any, Bool.true_and, Bool.false_or, Bool.not_not]

variable {cells : List (List Char)}

theorem not_all_of (test : Value → Bool) {raw : List Char} (mem : raw ∈ cells)
    (fails : test (parseCsvValue raw) = false) :
    ¬ cells.all (fun raw => test (parseCsvValue raw)) = true := by
  intro all
  have here := List.all_eq_true.mp all raw mem
  rw [fails] at here
  exact nomatch here

theorem type_of_text (text : ∃ raw ∈ cells, PlainText raw) : columnType cells = .string := by
  obtain ⟨raw, mem, text⟩ := text
  have read := parse_text text
  rw [columnType_eq, if_neg (not_all_of Value.isNull mem (by rw [read]; rfl)),
    if_neg (not_all_of intOrNull mem (by rw [read]; rfl)),
    if_neg (not_all_of fitsFloat mem (by rw [read]; rfl)),
    if_neg (not_all_of fitsBool mem (by rw [read]; rfl))]

theorem parse_valueless {raw : List Char} (valueless : Blank raw ∨ SpellsNone raw) :
    parseCsvValue raw = .null := by
  rcases valueless with blank | spelled
  · exact parse_blank blank
  · exact parse_none spelled

theorem number_noted {raw : List Char} (number : SpellsNumber raw) :
    (parseCsvValue raw).isNull = false ∧ fitsFloat (parseCsvValue raw) = true ∧
      fitsBool (parseCsvValue raw) = true := by
  rcases parse_number number with ⟨v, read, _⟩ | ⟨v, read⟩
  · rw [read]
    exact ⟨rfl, rfl, rfl⟩
  · rw [read]
    exact ⟨rfl, rfl, rfl⟩

theorem type_of_nothing (nothing : ∀ raw ∈ cells, Blank raw ∨ SpellsNone raw) :
    columnType cells = .string := by
  have all : cells.all (fun raw => (parseCsvValue raw).isNull) = true := by
    refine List.all_eq_true.mpr fun raw mem => ?_
    rw [parse_valueless (nothing raw mem)]
    rfl
  rw [columnType_eq, if_pos all]

/-- Truth values make a column boolean whatever numbers stand among them. -/
theorem type_of_boolean (textless : ∀ raw ∈ cells, ¬ PlainText raw)
    (boolean : ∃ raw ∈ cells, SpellsBoolean raw) : columnType cells = .boolean := by
  obtain ⟨raw, mem, spelled⟩ := boolean
  obtain ⟨b, read⟩ := parse_boolean spelled
  have all : cells.all (fun raw => fitsBool (parseCsvValue raw)) = true := by
    refine List.all_eq_true.mpr fun other inside => ?_
    rcases cell_cases other with blank | spelled | spelled | number | text
    · rw [parse_blank blank]
      rfl
    · rw [parse_none spelled]
      rfl
    · obtain ⟨b, read⟩ := parse_boolean spelled
      rw [read]
      rfl
    · exact (number_noted number).2.2
    · exact absurd text (textless other inside)
  rw [columnType_eq, if_neg (not_all_of Value.isNull mem (by rw [read]; rfl)),
    if_neg (not_all_of intOrNull mem (by rw [read]; rfl)),
    if_neg (not_all_of fitsFloat mem (by rw [read]; rfl)), if_pos all]

theorem type_of_numbers (wordless : ∀ raw ∈ cells, Blank raw ∨ SpellsNone raw ∨ SpellsNumber raw)
    (number : ∃ raw ∈ cells, SpellsNumber raw) :
    (columnType cells = .int64 ∧ ∀ raw ∈ cells, SpellsNumber raw →
      (parseI64 (String.ofList (trimChars raw))).isSome = true) ∨
    columnType cells = .float64 := by
  obtain ⟨raw, mem, number⟩ := number
  have shown : ¬ cells.all (fun raw => (parseCsvValue raw).isNull) = true :=
    not_all_of Value.isNull mem (number_noted number).1
  have floats : cells.all (fun raw => fitsFloat (parseCsvValue raw)) = true := by
    refine List.all_eq_true.mpr fun other inside => ?_
    rcases wordless other inside with blank | spelled | number
    · rw [parse_blank blank]
      rfl
    · rw [parse_none spelled]
      rfl
    · exact (number_noted number).2.1
  rw [columnType_eq, if_neg shown, if_pos floats]
  by_cases ints : cells.all (fun raw => intOrNull (parseCsvValue raw)) = true
  · rw [if_pos ints]
    refine Or.inl ⟨rfl, fun other inside number => ?_⟩
    have here := List.all_eq_true.mp ints other inside
    rcases parse_number number with ⟨v, _, read⟩ | ⟨v, read⟩
    · rw [read]
      rfl
    · rw [read] at here
      exact nomatch here
  · rw [if_neg ints]
    exact Or.inr rfl

/-- The column has plain text, or shows no value, or never spells "none" and has no number but
    0 and 1 beside truth values. -/
def Agreeing (cells : List (List Char)) : Prop :=
  (∃ raw ∈ cells, PlainText raw) ∨ (∀ raw ∈ cells, Blank raw ∨ SpellsNone raw) ∨
    ((∀ raw ∈ cells, ¬ SpellsNone raw) ∧ ((∃ raw ∈ cells, SpellsBoolean raw) →
      ∀ raw ∈ cells, SpellsNumber raw → SpellsBit raw))

instance (cells : List (List Char)) : Decidable (Agreeing cells) :=
  inferInstanceAs (Decidable (_ ∨ _ ∨ (_ ∧ (_ → _))))

theorem blank_fits_iff (blank : Blank raw) (type : DataType) :
    Fits type (coerceValue raw type) ↔ ¬ SpellsNone raw := by
  rw [coerce_blank blank]
  exact ⟨fun _ spelled => none_not_blank spelled blank, fun _ => fits_null _⟩

/-- Where there are no words a column fits its type when no cell spells "none". -/
theorem numbers_fit_iff
    (wordless : ∀ raw ∈ cells, Blank raw ∨ SpellsNone raw ∨ SpellsNumber raw)
    (number : ∃ raw ∈ cells, SpellsNumber raw) :
    (∀ raw ∈ cells, Fits (columnType cells) (coerceValue raw (columnType cells))) ↔
      ∀ raw ∈ cells, ¬ SpellsNone raw := by
  rcases type_of_numbers wordless number with ⟨type, ints⟩ | type
  · rw [type]
    refine forall₂_congr fun raw mem => ?_
    rcases wordless raw mem with blank | spelled | number
    · exact blank_fits_iff blank _
    · rw [coerce_int64 (none_not_blank spelled)]
      refine ⟨fun fits _ => ?_, fun never => absurd spelled never⟩
      obtain ⟨v, read⟩ := Option.isSome_iff_exists.mp fits
      obtain ⟨f, read'⟩ := parse64_of_parseI64 read
      exact number_not_none (Option.isSome_iff_exists.mpr ⟨f, read'⟩) spelled
    · rw [coerce_int64 (number_not_blank number)]
      exact ⟨fun _ => number_not_none number, fun _ => ints raw mem number⟩
  · rw [type]
    refine forall₂_congr fun raw mem => ?_
    rcases wordless raw mem with blank | spelled | number
    · exact blank_fits_iff blank _
    · rw [coerce_float64 (none_not_blank spelled)]
      exact ⟨fun fits _ => number_not_none fits spelled, fun never => absurd spelled never⟩
    · rw [coerce_float64 (number_not_blank number)]
      exact ⟨fun _ => number_not_none number, fun _ => number⟩

theorem booleans_fit_iff (textless : ∀ raw ∈ cells, ¬ PlainText raw) :
    (∀ raw ∈ cells, Fits .boolean (coerceValue raw .boolean)) ↔
      (∀ raw ∈ cells, ¬ SpellsNone raw) ∧ ∀ raw ∈ cells, SpellsNumber raw → SpellsBit raw := by
  rw [← forall₂_and]
  refine forall₂_congr fun raw mem => ?_
  rcases cell_cases raw with blank | spelled | spelled | number | text
  · rw [coerce_blank blank]
    exact ⟨fun _ => ⟨fun spelled => none_not_blank spelled blank,
      fun number => absurd blank (number_not_blank number)⟩, fun _ => fits_null _⟩
  · rw [coerce_boolean (none_not_blank spelled)]
    exact ⟨fun fits => absurd fits (none_never_fits spelled), fun both => absurd spelled both.1⟩
  · rw [coerce_boolean (boolean_not_blank spelled)]
    refine ⟨fun _ => ⟨fun other => ?_, fun number => absurd spelled (number_not_boolean number)⟩,
      fun _ => boolean_fits spelled⟩
    exact none_never_fits other (boolean_fits spelled)
  · rw [coerce_boolean (number_not_blank number), number_fits number]
    exact ⟨fun bit => ⟨number_not_none number, fun _ => bit⟩, fun both => both.2 number⟩
  · exact absurd text (textless raw mem)

theorem column_fits_iff (cells : List (List Char)) :
    (∀ raw ∈ cells, Fits (columnType cells) (coerceValue raw (columnType cells))) ↔
      Agreeing cells := by
  by_cases text : ∃ raw ∈ cells, PlainText raw
  · rw [type_of_text text]
    exact ⟨fun _ => Or.inl text, fun _ raw _ => coerce_string raw⟩
  by_cases nothing : ∀ raw ∈ cells, Blank raw ∨ SpellsNone raw
  · rw [type_of_nothing nothing]
    exact ⟨fun _ => Or.inr (Or.inl nothing), fun _ raw _ => coerce_string raw⟩
  have textless : ∀ raw ∈ cells, ¬ PlainText raw := fun raw mem plain => text ⟨raw, mem, plain⟩
  have rest : Agreeing cells ↔ (∀ raw ∈ cells, ¬ SpellsNone raw) ∧
      ((∃ raw ∈ cells, SpellsBoolean raw) → ∀ raw ∈ cells, SpellsNumber raw → SpellsBit raw) := by
    rw [Agreeing, or_iff_right text, or_iff_right nothing]
  rw [rest]
  by_cases boolean : ∃ raw ∈ cells, SpellsBoolean raw
  · rw [type_of_boolean textless boolean, booleans_fit_iff textless]
    simp only [boolean, true_implies]
  · have wordless : ∀ raw ∈ cells, Blank raw ∨ SpellsNone raw ∨ SpellsNumber raw := by
      intro raw mem
      rcases cell_cases raw with blank | spelled | spelled | number | plain
      · exact Or.inl blank
      · exact Or.inr (Or.inl spelled)
      · exact absurd ⟨raw, mem, spelled⟩ boolean
      · exact Or.inr (Or.inr number)
      · exact absurd plain (textless raw mem)
    have number : ∃ raw ∈ cells, SpellsNumber raw := by
      by_contra numberless
      refine nothing fun raw mem => ?_
      rcases wordless raw mem with blank | spelled | number
      · exact Or.inl blank
      · exact Or.inr spelled
      · exact absurd ⟨raw, mem, number⟩ numberless
    rw [numbers_fit_iff wordless number]
    exact ⟨fun never => ⟨never, fun some' => absurd some' boolean⟩, And.left⟩

theorem inferColumn_eq (all : List (List (List Char))) (i : Nat) :
    inferColumn (all.map fun row => row.map parseCsvValue) i =
      columnType (all.map fun row => row[i]?.getD []) := by
  have cell (row : List (List Char)) : (row.map parseCsvValue)[i]?.getD .null =
      parseCsvValue (row[i]?.getD []) := by
    rw [List.getElem?_map]
    cases row[i]? with
    | none => rfl
    | some raw => rfl
  simp only [inferColumn, columnType, List.foldl_map, cell]

end Columns

section Scan
variable [CsvCrate]

def column (text : List Char) (i : Nat) : List (List Char) :=
  (rows text).map fun row => row[i]?.getD []

theorem inferred_fields {text : List Char} (some' : rows text ≠ []) :
    (inferSchemaFromReader text).fields = ((headers text).zip
      ((List.range (headers text).length).map fun i => columnType (column text i))).map
        fun (h, t) => Field.new (String.ofList h) t := by
  have filled : ¬ ((rows text).map fun row => row.map parseCsvValue).isEmpty = true := by
    simpa using some'
  simp only [inferSchemaFromReader, if_neg filled, inferColumns]
  congr 3
  exact funext fun i => inferColumn_eq (rows text) i

theorem inferred_field {text : List Char} (some' : rows text ≠ []) {i : Nat}
    (inside : i < (headers text).length) :
    (inferSchemaFromReader text).fields[i]? =
      some (.new (String.ofList (headers text)[i]) (columnType (column text i))) := by
  rw [inferred_fields some']
  simp [inside]

theorem rows_length {text : List Char} {row : List (List Char)} (mem : row ∈ rows text) :
    row.length = (headers text).length := by
  have same := List.all_eq_true.mp List.all_takeWhile row mem
  exact of_decide_eq_true same

theorem row_typed_iff {text : List Char} {row : List (List Char)} (mem : row ∈ rows text) :
    (∀ p ∈ (coerceRow (inferSchemaFromReader text) row).values.zip
        (inferSchemaFromReader text).fields, Fits p.2.dataType p.1) ↔
      ∀ i < (headers text).length, Fits (columnType (column text i))
        (coerceValue (row[i]?.getD []) (columnType (column text i))) := by
  have some' : rows text ≠ [] := List.ne_nil_of_mem mem
  have width := rows_length mem
  have count : (inferSchemaFromReader text).fields.length = (headers text).length := by
    rw [inferred_fields some']
    simp
  constructor
  · intro typed i inside
    have here : i < row.length := by omega
    have field := inferred_field some' inside
    refine typed (coerceValue (row[i]?.getD []) (columnType (column text i)),
      .new (String.ofList (headers text)[i]) (columnType (column text i))) ?_
    refine List.mem_iff_getElem?.mpr ⟨i, ?_⟩
    simp [coerceRow, List.getElem?_zip_eq_some, field, here, Field.new]
  · intro typed p inside
    obtain ⟨i, at'⟩ := List.mem_iff_getElem?.mp inside
    obtain ⟨value, field⟩ := List.getElem?_zip_eq_some.mp at'
    have bound : i < (headers text).length := by
      have := (List.getElem?_eq_some_iff.mp field).1
      omega
    have known := inferred_field some' bound
    rw [field, Option.some.injEq] at known
    have here : i < row.length := by omega
    have shown := typed i bound
    simp only [coerceRow, List.getElem?_map, Option.map_eq_some_iff] at value
    obtain ⟨⟨raw, f⟩, paired, same⟩ := value
    obtain ⟨cell, field'⟩ := List.getElem?_zip_eq_some.mp paired
    obtain rfl := Option.some.inj (field'.symm.trans field)
    rw [known] at same ⊢
    rw [cell] at shown
    rw [← same]
    exact shown

/-- What a scan with a detected schema returns is typed as detected exactly when the cells of
    every column agree. -/
theorem detected_types_hold_iff (text : List Char) (b : RecordBatch)
    (scanned : scanReader text none = .ok b) :
    Typed b b.schema ↔ ∀ i < (headers text).length, Agreeing (column text i) := by
  obtain ⟨_, formed⟩ := check_bind_eq_ok.mp scanned
  obtain ⟨rfl, _⟩ := fromRecords_eq_ok.mp formed
  simp only [Typed, Option.getD_none, List.forall_mem_map]
  have each : (∀ row ∈ rows text, ∀ p ∈ (coerceRow (inferSchemaFromReader text) row).values.zip
      (inferSchemaFromReader text).fields, p.1 ≠ .null → kind p.1 = some p.2.dataType) ↔
      ∀ row ∈ rows text, ∀ i < (headers text).length, Fits (columnType (column text i))
        (coerceValue (row[i]?.getD []) (columnType (column text i))) :=
    forall₂_congr fun row mem => row_typed_iff mem
  rw [each]
  constructor
  · intro typed i inside
    rw [← column_fits_iff]
    intro raw mem
    obtain ⟨row, here, rfl⟩ := List.mem_map.mp mem
    exact typed row here i inside
  · intro agree row mem i inside
    exact (column_fits_iff _).mpr (agree i inside) _ (List.mem_map_of_mem mem)

end Scan

section Witness

def bits : List Char := "on\ntrue\n0\n".toList

theorem bits_agree : ∃ b, @scanReader lineReader bits none = .ok b ∧ Typed b b.schema := by
  refine ⟨_, rfl, (@detected_types_hold_iff lineReader bits _ rfl).mpr ?_⟩
  intro i inside
  have first : i = 0 := by
    have count : (@headers lineReader bits).length = 1 := by decide
    omega
  subst first
  decide

/-- A number beside the word "none" makes a column of integers with a text in it. -/
theorem none_among_integers : ¬ ∀ (text : List Char) (b : RecordBatch),
    @scanReader lineReader text none = .ok b → Typed b b.schema := by
  intro claim
  have typed := claim "n\n1\nnone\n".toList _ rfl
  have second := typed ⟨[.string "none"]⟩ (by decide) (.string "none", .new "n" .int64) (by decide)
  exact absurd (second (by decide)) (by decide)

end Witness

end RSparkCsvTypes
