import RSpark.CsvTypes
import RSpark.FloatRoundTrip
import RSpark.JsonWriter

/- Batches written as CSV, by `write_csv` into its file and by `render_csv` for the store, and what
   a scan under the schema of the batch gives back. Numbers, truth values and NULL come back; a
   text does if the reader neither trims it nor takes it for NULL. -/
namespace RSparkCsvRoundTrip
open RSparkValue RSparkBatch RSparkPlanner RSparkCsvSource RSparkCsvTypes RSparkFlowOutput
open RSparkJsonWriter RSparkPositionalText RSparkValueTexts RSparkFloatTexts FloatText

section Trim

def Visible (cs : List Char) : Prop := ∀ c ∈ cs, isWhitespace c = false

instance (cs : List Char) : Decidable (Visible cs) :=
  decidable_of_iff (cs.all fun c => !isWhitespace c) (by simp [Visible])

theorem visible_append {cs ds : List Char} (first : Visible cs) (second : Visible ds) :
    Visible (cs ++ ds) := by
  intro c inside
  rcases List.mem_append.mp inside with here | there
  · exact first c here
  · exact second c there

theorem dropWhile_visible {cs : List Char} (visible : Visible cs) :
    cs.dropWhile isWhitespace = cs := by
  cases cs with
  | nil => rfl
  | cons c cs =>
    apply List.dropWhile_cons_of_neg
    rw [visible c List.mem_cons_self]
    exact Bool.false_ne_true

theorem trimChars_visible {cs : List Char} (visible : Visible cs) : trimChars cs = cs := by
  have turned : Visible cs.reverse := fun c inside => visible c (List.mem_reverse.mp inside)
  rw [trimChars, dropWhile_visible visible, dropWhile_visible turned, List.reverse_reverse]

theorem visible_of_digits {cs : List Char} (digits : ∀ c ∈ cs, c.isDigit = true) : Visible cs := by
  intro c inside
  obtain ⟨low, high⟩ := Char.isDigit_iff_toNat.mp (digits c inside)
  have low : 48 ≤ c.toNat := low
  have high : c.toNat ≤ 57 := high
  unfold isWhitespace
  simp only [List.mem_cons, List.not_mem_nil, or_false, decide_eq_false_iff_not]
  omega

theorem int_visible (i : Int) : Visible (toString i).toList := by
  rw [toList_int]
  split
  · exact visible_of_digits fun _ => digit_of_mem
  · apply @visible_append ['-']
    · decide
    · exact visible_of_digits fun _ => digit_of_mem

theorem positional_visible (digits : Nat) (exponent : Int) :
    Visible (positional digits exponent) := by
  have zeros (k : Nat) : Visible (List.replicate k '0') :=
    visible_of_digits fun _ => digit_of_mem_zeros
  have shown : Visible (Nat.toDigits 10 digits) := visible_of_digits fun _ => digit_of_mem
  have point : Visible ['.'] := by decide
  unfold positional
  dsimp only
  split
  · exact visible_append shown (zeros _)
  · split
    · apply visible_append
      · exact fun c inside => shown c (List.mem_of_mem_take inside)
      · apply visible_append point
        exact fun c inside => shown c (List.mem_of_mem_drop inside)
    · apply visible_append _ shown
      apply @visible_append ['0', '.']
      · decide
      · exact zeros _

theorem unpacked_visible (readsBack : Nat → Int → Bool) (unpacked : Float.Model.UnpackedFloat) :
    Visible (printUnpacked readsBack unpacked).toList := by
  cases unpacked with
  | notANumber =>
    show Visible "NaN".toList
    decide
  | infinity sign =>
    cases sign with
    | positive =>
      show Visible "inf".toList
      decide
    | negative =>
      show Visible "-inf".toList
      decide
  | zero sign =>
    cases sign with
    | positive =>
      show Visible "0".toList
      decide
    | negative =>
      show Visible "-0".toList
      decide
  | finite sign m e pos =>
    rw [print_finite rfl, String.toList_ofList]
    split
    · apply @visible_append ['-']
      · decide
      · exact positional_visible _ _
    · exact positional_visible _ _

end Trim

section Cells

/-- A text that the reader neither trims nor takes for NULL. -/
def Kept (s : String) : Prop := trimChars s.toList = s.toList ∧ ¬ Blank s.toList

instance (s : String) : Decidable (Kept s) := inferInstanceAs (Decidable (_ ∧ _))

theorem number_read {text : String} {f : Float} (visible : Visible text.toList)
    (read : parse64 text = some f) : trimChars text.toList = text.toList ∧ ¬ Blank text.toList := by
  have trimmed := trimChars_visible visible
  refine ⟨trimmed, number_not_blank ?_⟩
  rw [SpellsNumber, trimmed, String.ofList_toList, read]
  rfl

theorem coerce_int64_text (i : Int64) :
    coerceValue (valueToCsvString (.int64 i)).toList .int64 = .int64 i := by
  have text : valueToCsvString (.int64 i) = toString i.toInt := rfl
  have read : parseI64 (toString i.toInt) = some i := by
    have low := Int64.le_toInt i
    have high := Int64.toInt_lt i
    rw [parseI64, parseInt_text (by omega), Option.map_some, Int64.ofInt_toInt]
  obtain ⟨f, number⟩ := parse64_of_parseI64 read
  obtain ⟨trimmed, shown⟩ := number_read (int_visible i.toInt) number
  rw [text, coerce_shown shown, trimmed, String.ofList_toList, read]
  rfl

theorem coerce_float64_text (f : Float) :
    coerceValue (valueToCsvString (.float64 f)).toList .float64 = .float64 f := by
  have text : valueToCsvString (.float64 f) = print64 f := rfl
  have visible : Visible (print64 f).toList := unpacked_visible _ _
  obtain ⟨trimmed, shown⟩ := number_read visible (parse64_print64 f)
  rw [text, coerce_shown shown, trimmed, String.ofList_toList, parse64_print64]
  rfl

theorem coerce_string_text (s : String) :
    coerceValue (valueToCsvString (.string s)).toList .string = .string s ↔ Kept s := by
  have text : valueToCsvString (.string s) = s := rfl
  rw [text]
  by_cases blank : Blank s.toList
  · rw [coerce_blank blank]
    constructor
    · intro same
      cases same
    · intro kept
      exact absurd blank kept.2
  · rw [coerce_shown blank, Value.string.injEq, ← String.toList_inj, String.toList_ofList]
    exact (and_iff_left blank).symm

theorem coerce_text_iff {type : DataType} {v : Value} (held : Held type v) :
    coerceValue (valueToCsvString v).toList type = v ↔ ∀ s, v = .string s → Kept s := by
  cases held with
  | null =>
    have back := @coerce_blank [] (.inl rfl) type
    exact iff_of_true back (fun s same => by cases same)
  | boolean b =>
    have back : coerceValue (valueToCsvString (.boolean b)).toList .boolean = .boolean b := by
      cases b <;> decide
    exact iff_of_true back (fun s same => by cases same)
  | int64 i => exact iff_of_true (coerce_int64_text i) (fun s same => by cases same)
  | float64 f => exact iff_of_true (coerce_float64_text f) (fun s same => by cases same)
  | string s =>
    rw [coerce_string_text]
    constructor
    · intro kept t same
      rw [← Value.string.inj same]
      exact kept
    · intro kept
      exact kept s rfl

theorem coerceCells_text_iff {fields : List Field} {values : List Value}
    (length : values.length = fields.length)
    (held : ∀ p ∈ fields.zip values, Held p.1.dataType p.2) :
    (((values.map valueToCsvString).map String.toList).zip fields).map
        (fun p => coerceValue p.1 p.2.dataType) = values ↔
      ∀ s, .string s ∈ values → Kept s := by
  induction values generalizing fields with
  | nil => exact iff_of_true rfl (fun _ inside => by cases inside)
  | cons v values ih =>
    cases fields with
    | nil => cases length
    | cons f fields =>
      obtain ⟨first, others⟩ := List.forall_mem_cons.mp held
      have rest := ih (Nat.succ.inj length) others
      rw [List.map_cons, List.map_cons, List.zip_cons_cons, List.map_cons, List.cons.injEq, rest,
        coerce_text_iff first]
      constructor
      · intro both s inside
        rcases List.mem_cons.mp inside with same | inside
        · exact both.1 s same.symm
        · exact both.2 s inside
      · intro all
        constructor
        · intro s same
          exact all s (same ▸ List.mem_cons_self)
        · intro s inside
          exact all s (List.mem_cons_of_mem _ inside)

end Cells

section Rows

def texts (rows : List (List String)) : List (List (List Char)) :=
  rows.map fun row => row.map String.toList

def writtenRows (b : RecordBatch) : List (List String) :=
  b.records.map fun record => record.values.map valueToCsvString

theorem writtenRows_length {b : RecordBatch} (valid : b.Valid) :
    ∀ row ∈ writtenRows b, row.length = b.schema.fieldNames.length := by
  intro row inside
  obtain ⟨record, listed, rfl⟩ := List.mem_map.mp inside
  rw [List.length_map, (valid record listed).1, Schema.fieldNames, List.length_map]
  rfl

theorem rows_read_iff {b : RecordBatch} (valid : b.Valid)
    (held : ∀ record ∈ b.records, RowHeld b.schema record) :
    (texts (writtenRows b)).map (coerceRow b.schema) = b.records ↔
      ∀ record ∈ b.records, ∀ s, .string s ∈ record.values → Kept s := by
  rw [texts, writtenRows, List.map_map, List.map_map]
  conv_lhs => rhs; rw [← List.map_id b.records]
  rw [List.map_inj_left]
  apply forall₂_congr
  intro record listed
  rw [← coerceCells_text_iff (valid record listed).1 (held record listed)]
  unfold coerceRow
  exact Record.mk.injEq _ _ ▸ Iff.rfl

theorem fromRecords_same_iff {b : RecordBatch} (valid : b.Valid) (records : List Record) :
    RecordBatch.fromRecords b.schema records = .ok b ↔ records = b.records := by
  constructor
  · intro formed
    obtain ⟨same, _⟩ := fromRecords_eq_ok.mp formed
    rw [same]
  · intro same
    rw [same]
    exact fromRecords_of_valid valid

end Rows

section Scan
variable [CsvCrate] {text : List Char} {schema : Schema} {written : List (List String)}

theorem scan_under_header {read : List (List Char)}
    (streamed : CsvCrate.records (stripMark text) = read :: texts written)
    (lengths : ∀ row ∈ written, row.length = read.length) :
    scanReader text (some schema) =
      RecordBatch.fromRecords schema ((texts written).map (coerceRow schema)) := by
  have first : headers text = read := by
    rw [headers, streamed]
    rfl
  have all : rows text = texts written := by
    rw [rows, streamed, List.tail_cons, first]
    apply List.takeWhile_eq_self_iff.mpr
    intro row inside
    obtain ⟨cells, listed, rfl⟩ := List.mem_map.mp inside
    rw [List.length_map]
    exact decide_eq_true (lengths cells listed)
  have ends : rowsEnd text = .ok () := by
    rw [rowsEnd, all, streamed]
    exact if_pos rfl
  rw [scanReader, ends, all]
  rfl

/-- Where the first record is taken for the header a table without records alone comes back. -/
theorem scan_headless_iff {b : RecordBatch} (valid : b.Valid)
    (streamed : CsvCrate.records (stripMark text) = texts (writtenRows b)) :
    scanReader text (some b.schema) = .ok b ↔ b.records = [] := by
  have short : (rows text).length ≤ b.records.length - 1 := by
    have within : (rows text).length ≤ (texts (writtenRows b)).tail.length := by
      rw [rows, streamed]
      exact (List.takeWhile_prefix _).length_le
    rwa [List.length_tail, texts, writtenRows, List.length_map, List.length_map] at within
  constructor
  · intro scanned
    obtain ⟨_, formed⟩ := check_bind_eq_ok.mp scanned
    have same := congrArg List.length ((fromRecords_same_iff valid _).mp formed)
    rw [List.length_map] at same
    apply List.eq_nil_of_length_eq_zero
    omega
  · intro empty
    have nothing : rows text = [] := by
      apply List.eq_nil_of_length_eq_zero
      rw [empty] at short
      exact Nat.le_zero.mp short
    have ends : rowsEnd text = .ok () := by
      rw [rowsEnd, nothing, streamed, writtenRows, empty]
      rfl
    rw [scanReader, ends, nothing]
    exact (fromRecords_same_iff valid []).mpr empty.symm

end Scan

section RoundTrip
variable [CsvCrate] [Outside]

def table (header : List String) (rows : List (List String)) : List Char :=
  Outside.csvRecord header ++ rows.flatMap Outside.csvRecord

/-- The name that is nothing but a byte order mark. -/
def markName : String := "\ufeff"

/-- The foreign quoting round trip: the cells under the header are read as they were written. A
    lone mark is taken off the start of the text, and the line it leaves empty is skipped. -/
def ReadsTable (header : List String) (rows : List (List String)) : Prop :=
  header ≠ [] → (∀ row ∈ rows, row.length = header.length) →
    if header = [markName] then CsvCrate.records (stripMark (table header rows)) = texts rows
    else ∃ read, read.length = header.length ∧
      CsvCrate.records (stripMark (table header rows)) = read :: texts rows

omit [CsvCrate] in
theorem renderCsv_table (b : RecordBatch) :
    renderCsv b = table b.schema.fieldNames (writtenRows b) := by
  rw [renderCsv, table, writtenRows, List.flatMap_map]

/-- A batch written as CSV is scanned as it was, under its schema, exactly if the reader keeps each
    of its texts and does not take its first record for the header. -/
theorem scan_renderCsv_iff (b : RecordBatch) (valid : b.Valid) (some' : b.schema.fields ≠ [])
    (held : ∀ record ∈ b.records, RowHeld b.schema record)
    (law : ReadsTable b.schema.fieldNames (writtenRows b)) :
    scanReader (renderCsv b) (some b.schema) = .ok b ↔
      (∀ record ∈ b.records, ∀ s, .string s ∈ record.values → Kept s) ∧
        (b.schema.fieldNames = [markName] → b.records = []) := by
  have lengths := writtenRows_length valid
  have named : b.schema.fieldNames ≠ [] := fun none => some' (List.map_eq_nil_iff.mp none)
  have streamed := law named lengths
  rw [renderCsv_table]
  split at streamed
  · rename_i marked
    rw [scan_headless_iff valid streamed]
    constructor
    · intro empty
      rw [empty]
      exact ⟨fun _ listed => absurd listed List.not_mem_nil, fun _ => rfl⟩
    · intro both
      exact both.2 marked
  · rename_i unmarked
    obtain ⟨read, width, streamed⟩ := streamed
    rw [scan_under_header streamed (by rw [width]; exact lengths), fromRecords_same_iff valid,
      rows_read_iff valid held]
    exact (and_iff_left fun marked => absurd marked unmarked).symm

end RoundTrip

section Witness

theorem seas_read : @ReadsTable lineReader noOutside seasSchema.fieldNames (writtenRows seas) := by
  intro _ _
  rw [if_neg (by decide)]
  exact ⟨["name".toList, "year".toList, "deep".toList], rfl, rfl⟩

theorem seas_back :
    @scanReader lineReader (@renderCsv noOutside seas) (some seasSchema) = .ok seas := by
  apply (@scan_renderCsv_iff lineReader noOutside seas (by decide) (by decide) seas_held
    seas_read).mpr
  constructor
  · intro record listed s inside
    rw [List.mem_singleton.mp listed] at inside
    rcases List.mem_cons.mp inside with same | inside
    · rw [Value.string.inj same]
      decide
    · exact absurd inside (by simp)
  · intro marked
    exact absurd marked (by decide)

def indented : RecordBatch := ⟨⟨[.new "name" .string]⟩, [⟨[.string " x"]⟩]⟩

/-- The space is not read back. -/
theorem space_not_back :
    ¬ ∀ b : RecordBatch, b.Valid → b.schema.fields ≠ [] → b.schema.fieldNames.Nodup →
      (∀ record ∈ b.records, RowHeld b.schema record) →
      @ReadsTable lineReader noOutside b.schema.fieldNames (writtenRows b) →
      @scanReader lineReader (@renderCsv noOutside b) (some b.schema) = .ok b := by
  intro claim
  have held : ∀ record ∈ indented.records, RowHeld indented.schema record := by
    intro record listed p inside
    rw [List.mem_singleton.mp listed] at inside
    rw [List.mem_singleton.mp inside]
    exact .string " x"
  have read : @ReadsTable lineReader noOutside ["name"] (writtenRows indented) := by
    intro _ _
    rw [if_neg (by decide)]
    exact ⟨["name".toList], rfl, rfl⟩
  have back := claim indented (by decide) (by decide) (by decide) held read
  exact absurd back (by decide)

end Witness

end RSparkCsvRoundTrip
