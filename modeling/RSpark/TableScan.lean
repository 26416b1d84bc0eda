import RSpark.CsvSource
import RSpark.Writer

/- What the CSV reader makes of a text table. -/
namespace RSparkTableScan
open RSparkValue RSparkBatch RSparkPlanner RSparkCsvSource RSparkWriter

section Cells

theorem dashes_text (n : Nat) : trimChars (dashes n) = dashes n := by
  have kept (m : Nat) : (dashes m).dropWhile isWhitespace = dashes m := by
    cases m with
    | zero => rfl
    | succ m => exact List.dropWhile_cons_of_neg (by decide)
  have turned : (dashes n).reverse = dashes n := List.reverse_replicate ..
  rw [trimChars, kept, turned, kept, turned]

theorem takeDigits_dashes (n value count : Nat) :
    FloatText.takeDigits (dashes n) value count = (value, count, dashes n) := by
  cases n with
  | zero => rfl
  | succ n => rfl

theorem dashes_sign (n : Nat) :
    FloatText.takeSign (String.ofList (dashes (n + 1))).toList = (true, dashes n) := by
  rw [String.toList_ofList]
  rfl

theorem dashes_ne (n : Nat) {c : Char} {word : List Char} (other : c ≠ '-') :
    dashes n ≠ c :: word := by
  cases n with
  | zero => exact fun same => nomatch same
  | succ n =>
    intro same
    have first : '-' = c := (List.cons.inj same).1
    exact other first.symm

theorem lowerAscii_dashes (n : Nat) : FloatText.lowerAscii (dashes n) = dashes n := by
  rw [FloatText.lowerAscii, dashes, List.map_replicate]
  rfl

theorem parseInt_dashes (low high : Int) (n : Nat) :
    parseInt low high (String.ofList (dashes (n + 1))) = none := by
  rw [parseInt, dashes_sign]
  simp only [takeDigits_dashes]

theorem readNumeral_dashes (n : Nat) :
    FloatText.readNumeral (String.ofList (dashes (n + 1))) = none := by
  have word {c : Char} {rest : List Char} (other : c ≠ '-') :
      FloatText.lowerAscii (dashes n) ≠ c :: rest := by
    rw [lowerAscii_dashes]
    exact dashes_ne n other
  have inf : FloatText.lowerAscii (dashes n) ≠ "inf".toList := word (by decide)
  have infinity : FloatText.lowerAscii (dashes n) ≠ "infinity".toList := word (by decide)
  have nan : FloatText.lowerAscii (dashes n) ≠ "nan".toList := word (by decide)
  have decimal : FloatText.readDecimal true (dashes n) = none := by
    cases n with
    | zero => rfl
    | succ n => rfl
  rw [FloatText.readNumeral, dashes_sign]
  simp only [inf, infinity, nan, or_self, if_false, decimal]

theorem coerceBoolean_dashes (n : Nat) : coerceBoolean (dashes (n + 1)) = none := by
  have other {c : Char} {word : List Char} (ne : c ≠ '-') :
      String.ofList (FloatText.lowerAscii (dashes (n + 1))) ≠ String.ofList (c :: word) := by
    intro same
    rw [lowerAscii_dashes] at same
    exact dashes_ne _ ne (String.ofList_injective same)
  have yes : String.ofList (FloatText.lowerAscii (dashes (n + 1))) ∉
      ["true", "t", "1", "yes", "y"] := by
    simp only [List.mem_cons, List.not_mem_nil, or_false, not_or]
    exact ⟨other (by decide), other (by decide), other (by decide), other (by decide),
      other (by decide)⟩
  have no : String.ofList (FloatText.lowerAscii (dashes (n + 1))) ∉
      ["false", "f", "0", "no", "n"] := by
    simp only [List.mem_cons, List.not_mem_nil, or_false, not_or]
    exact ⟨other (by decide), other (by decide), other (by decide), other (by decide),
      other (by decide)⟩
  rw [coerceBoolean, if_neg yes, if_neg no]

theorem coerceValue_dashes (n : Nat) (dataType : DataType) :
    coerceValue (dashes (n + 1)) dataType = .string (String.ofList (dashes (n + 1))) := by
  have word : eqIgnoreAsciiCase (dashes (n + 1)) "null" = false := by
    rw [eqIgnoreAsciiCase, lowerAscii_dashes]
    exact decide_eq_false (dashes_ne _ (by decide))
  have shown : (dashes (n + 1)).isEmpty = false := rfl
  simp only [coerceValue, dashes_text, word, shown]
  cases dataType <;>
    simp [orText, coerceBoolean_dashes, parseI64, parseI32, parseInt_dashes, FloatText.parse64,
      FloatText.parse32, readNumeral_dashes]

end Cells

section Lines

def PlainChar (c : Char) : Prop := c ≠ '"' ∧ c ≠ '\n' ∧ c.toNat ≠ 13

instance (c : Char) : Decidable (PlainChar c) := inferInstanceAs (Decidable (_ ∧ _))

/-- Names without quotes, line ends and byte order marks. -/
def PlainNames (schema : Schema) : Prop :=
  ∀ name ∈ schema.fieldNames, ∀ c ∈ name.toList, PlainChar c ∧ c.toNat ≠ 0xfeff

theorem digit_plain {c : Char} (digit : c.isDigit = true) :
    PlainChar c ∧ c ≠ ',' ∧ c.toNat ≠ 0xfeff := by
  have range : 48 ≤ c.toNat ∧ c.toNat ≤ 57 := by
    simpa [Char.isDigit, UInt32.le_iff_toNat_le] using digit
  have other {d : Char} (outside : d.toNat < 48) : c ≠ d := by
    rintro rfl
    omega
  refine ⟨⟨other (by decide), other (by decide), ?_⟩, other (by decide), ?_⟩ <;> omega

theorem countLine_plain {count : Nat} {c : Char} (mem : c ∈ countLine count) :
    PlainChar c ∧ c ≠ ',' ∧ c.toNat ≠ 0xfeff := by
  rcases mem_countLine mem with digit | word
  · exact digit_plain digit
  · have known : c = '(' ∨ c = ' ' ∨ c = 'r' ∨ c = 'o' ∨ c = 'w' ∨ c = 's' ∨ c = ')' := by
      simpa using word
    rcases known with rfl | rfl | rfl | rfl | rfl | rfl | rfl <;> decide

theorem countLine_ne_nil (count : Nat) : countLine count ≠ [] := by
  simp [countLine]

theorem dashLine_plain {widths : List Nat} {c : Char} (mem : c ∈ dashLine widths) :
    PlainChar c ∧ c ≠ ',' := by
  rcases mem_dashLine mem with rfl | rfl <;> decide

theorem headerLine_plain {widths : List Nat} {schema : Schema} (plain : PlainNames schema)
    {c : Char} (mem : c ∈ headerLine widths schema) : PlainChar c ∧ c.toNat ≠ 0xfeff := by
  rcases mem_headerLine mem with rfl | rfl | ⟨name, named, inside⟩
  · decide
  · decide
  · exact plain name named c inside

theorem splitOn_single {line : List Char} (whole : ∀ c ∈ line, c ≠ ',') :
    line.splitOn ',' = [line] := by
  have absent : ',' ∉ line := fun mem => whole ',' mem rfl
  have parts : [line] = _ :=
    (List.splitOn_intercalate ',' (by simpa using absent) (List.cons_ne_nil line [])).symm
  simpa using parts.symm

theorem stripMark_of_ne {text : List Char} (unmarked : ∀ c ∈ text.head?, c.toNat ≠ 0xfeff) :
    stripMark text = text := by
  cases text with
  | nil => rfl
  | cons c text => exact if_neg (unmarked c rfl)

theorem countLine_unmarked (count : Nat) (text : List Char) :
    stripMark (countLine count ++ text) = countLine count ++ text := by
  refine stripMark_of_ne fun c first => ?_
  rw [List.head?_append_of_ne_nil _ (countLine_ne_nil count)] at first
  exact (countLine_plain (List.mem_of_mem_head? first)).2.2

theorem single_field {schema : Schema} {cell : List Char} (some' : schema.fields ≠ [])
    (valid : (coerceRow schema [cell]).Valid schema) : ∃ field, schema.fields = [field] := by
  have width := valid.1
  cases fields : schema.fields with
  | nil => exact absurd fields some'
  | cons field rest =>
    rw [coerceRow, Schema.fieldCount, fields] at width
    have none' : rest.length = 0 := by simpa using width.symm
    obtain rfl := List.length_eq_zero_iff.mp none'
    exact ⟨field, rfl⟩

end Lines

section Scan
variable [CsvCrate]

theorem records_line (law : LineReader) {line text : List Char} (shown : line ≠ [])
    (plain : ∀ c ∈ line, PlainChar c ∧ c ≠ ',') :
    CsvCrate.records (line ++ '\n' :: text) = [line] :: CsvCrate.records text := by
  rw [law.line line text ⟨shown, fun c mem => (plain c mem).1⟩]
  rw [splitOn_single fun c mem => (plain c mem).2]

theorem records_countLine (law : LineReader) (count : Nat) :
    CsvCrate.records (countLine count ++ ['\n']) = [[countLine count]] := by
  have plain : ∀ c ∈ countLine count, PlainChar c ∧ c ≠ ',' :=
    fun c mem => ⟨(countLine_plain mem).1, (countLine_plain mem).2.1⟩
  rw [records_line law (countLine_ne_nil count) plain, law.nothing]

theorem scan_header_only {text : List Char} (schema : Schema) (header : List (List Char))
    (read : CsvCrate.records (stripMark text) = [header]) :
    scanReader text (some schema) = .ok (RecordBatch.new schema) := by
  have none' : rows text = [] := by rw [rows, read]; rfl
  have ends : rowsEnd text = .ok () := by rw [rowsEnd, none', read]; rfl
  rw [scanReader, ends, none']
  rfl

theorem scan_empty (law : LineReader) {batch : RecordBatch} (empty : batch.records = []) :
    scanReader (renderTable batch) (some batch.schema) = .ok (RecordBatch.new batch.schema) := by
  have text : renderTable batch = countLine 0 ++ ['\n'] := by
    simp [renderTable, RecordBatch.isEmpty, empty]
  refine scan_header_only _ [countLine 0] ?_
  rw [text, countLine_unmarked, records_countLine law]

theorem scan_eq_ok {text : List Char} {schema : Schema} {out : RecordBatch}
    (read : scanReader text (some schema) = .ok out) :
    out.records = (CsvCrate.records (stripMark text)).tail.map (coerceRow schema) ∧
      ∀ row ∈ (CsvCrate.records (stripMark text)).tail, (coerceRow schema row).Valid schema := by
  unfold scanReader at read
  rw [check_bind_eq_ok] at read
  obtain ⟨ends, formed⟩ := read
  have all : rows text = (CsvCrate.records (stripMark text)).tail := by
    unfold rowsEnd at ends
    split at ends
    · rename_i same
      exact (List.takeWhile_prefix _).eq_of_length same
    · exact nomatch ends
  rw [all, Option.getD_some] at formed
  obtain ⟨rfl, valid⟩ := fromRecords_eq_ok.mp formed
  exact ⟨rfl, fun row mem => valid _ (List.mem_map_of_mem mem)⟩

theorem records_blank (law : LineReader) {widths : List Nat} {records : List Record}
    (blank : ∀ r ∈ records, rowLine widths r = []) (last : List Char) :
    CsvCrate.records (rowLines widths records last) = CsvCrate.records last := by
  induction records with
  | nil => rfl
  | cons r rest ih =>
    rw [rowLines, blank r List.mem_cons_self, List.nil_append, law.blank]
    exact ih fun r mem => blank r (List.mem_cons_of_mem _ mem)

theorem rows_not_read (law : LineReader) {width : Nat} {schema : Schema} {last : List Char}
    (single : coerceRow schema [dashes (width + 1)] =
      ⟨[.string (String.ofList (dashes (width + 1)))]⟩) (records : List Record) :
    records ≠ ([dashes (width + 1)] ::
      CsvCrate.records (rowLines [width + 1] records last)).map (coerceRow schema) := by
  induction records with
  | nil => exact fun same => nomatch same
  | cons r rest ih =>
    intro same
    obtain ⟨first, later⟩ := List.cons.inj same
    have line : rowLine [width + 1] r = dashes (width + 1) := by
      rw [first, single]
      simp [rowLine, renderedRow, cellText, join, padRight, dashes]
    have plain : ∀ c ∈ dashes (width + 1), PlainChar c ∧ c ≠ ',' := by
      intro c mem
      rw [List.eq_of_mem_replicate mem]
      decide
    rw [rowLines, line, records_line law (by simp [dashes]) plain] at later
    exact ih later

theorem records_narrow (law : LineReader) {batch : RecordBatch} (valid : batch.Valid)
    (shown : batch.records ≠ []) (narrow : dashLine (columnWidths batch) = []) :
    CsvCrate.records (stripMark (renderTable batch)) = [[countLine batch.len]] := by
  have header : headerLine (columnWidths batch) batch.schema = [] := by
    have same := headerLine_length (columnWidths_header batch)
    rw [narrow] at same
    exact List.length_eq_zero_iff.mp same
  have blank : ∀ r ∈ batch.records, rowLine (columnWidths batch) r = [] := by
    intro r mem
    have same := rowLine_length (columnWidths_row valid mem)
    rw [narrow] at same
    exact List.length_eq_zero_iff.mp same
  have text : renderTable batch = '\n' :: '\n' ::
      rowLines (columnWidths batch) batch.records (countLine batch.len ++ ['\n']) := by
    have filled : batch.isEmpty = false := by simpa [RecordBatch.isEmpty] using shown
    simp only [renderTable, filled, header, narrow, List.nil_append]
    rfl
  have unmarked : stripMark (renderTable batch) = renderTable batch := by
    rw [text]
    exact stripMark_of_ne fun c first => by
      obtain rfl := Option.some.inj first
      decide
  rw [unmarked, text, law.blank, law.blank, records_blank law blank, records_countLine law]

theorem records_wide (law : LineReader) {batch : RecordBatch} (plain : PlainNames batch.schema)
    (shown : batch.records ≠ []) (wide : dashLine (columnWidths batch) ≠ []) :
    (CsvCrate.records (stripMark (renderTable batch))).tail =
      [dashLine (columnWidths batch)] :: CsvCrate.records
        (rowLines (columnWidths batch) batch.records (countLine batch.len ++ ['\n'])) := by
  have header : headerLine (columnWidths batch) batch.schema ≠ [] := by
    intro empty
    have same := headerLine_length (columnWidths_header batch)
    rw [empty] at same
    exact wide (List.length_eq_zero_iff.mp same.symm)
  have text : renderTable batch = headerLine (columnWidths batch) batch.schema ++
      '\n' :: (dashLine (columnWidths batch) ++ '\n' ::
        rowLines (columnWidths batch) batch.records (countLine batch.len ++ ['\n'])) := by
    have filled : batch.isEmpty = false := by simpa [RecordBatch.isEmpty] using shown
    simp only [renderTable, filled, List.append_assoc, List.cons_append]
    rfl
  have unmarked : stripMark (renderTable batch) = renderTable batch := by
    refine stripMark_of_ne fun c first => ?_
    rw [text, List.head?_append_of_ne_nil _ header] at first
    exact (headerLine_plain plain (List.mem_of_mem_head? first)).2
  rw [unmarked, text, law.line _ _ ⟨header, fun c mem => (headerLine_plain plain mem).1⟩,
    List.tail_cons, records_line law wide fun c mem => dashLine_plain mem]

theorem scan_rows (law : LineReader) {batch out : RecordBatch} (valid : batch.Valid)
    (plain : PlainNames batch.schema) (shown : batch.records ≠ [])
    (read : scanReader (renderTable batch) (some batch.schema) = .ok out) :
    out.records ≠ batch.records := by
  intro same
  obtain ⟨rows, each⟩ := scan_eq_ok read
  rw [same] at rows
  by_cases narrow : dashLine (columnWidths batch) = []
  · rw [records_narrow law valid shown narrow] at rows
    exact shown rows
  · rw [records_wide law plain shown narrow] at rows each
    have fits := (columnWidths_header batch).length_eq
    have columns : batch.schema.fields ≠ [] := by
      intro none'
      rw [Schema.fieldNames, none', List.map_nil, List.length_nil] at fits
      rw [List.length_eq_zero_iff.mp fits] at narrow
      exact narrow rfl
    obtain ⟨field, only⟩ := single_field columns (each _ List.mem_cons_self)
    rw [Schema.fieldNames, only, List.map_singleton, List.length_singleton] at fits
    obtain ⟨width, widths⟩ := List.length_eq_one_iff.mp fits
    have line : dashLine [width] = dashes width := by simp [dashLine, join]
    rw [widths, line] at narrow rows
    cases width with
    | zero => exact narrow rfl
    | succ width =>
      refine rows_not_read law ?_ batch.records rows
      rw [coerceRow, only]
      simp [coerceValue_dashes]

end Scan

end RSparkTableScan
