import RSpark.CsvTypes

/- A CSV file scanned under a schema of the caller's. The header is read past: each row is zipped
   with the fields from the left, whatever the columns are called. -/
namespace RSparkCsvHeader
open RSparkValue RSparkBatch RSparkCsvSource RSparkCsvTypes RSparkFlowOutput

theorem coerceRow_value {schema : Schema} {row : List (List Char)} {i : Nat} {f : Field}
    (field : schema.fields[i]? = some f) : (coerceRow schema row).values[i]? =
      (row[i]?).map fun raw => coerceValue raw f.dataType := by
  rw [coerceRow, List.getElem?_map, List.zip_eq_zipWith, List.getElem?_zipWith, field]
  cases row[i]? with
  | none => rfl
  | some raw => rfl

theorem cell_present {schema : Schema} {row : List (List Char)}
    (valid : (coerceRow schema row).Valid schema) {i : Nat} {f : Field}
    (field : schema.fields[i]? = some f) : ∃ raw, row[i]? = some raw := by
  have width : (row.zip schema.fields).length = schema.fields.length := by
    have same := valid.1
    rw [coerceRow, List.length_map] at same
    exact same
  rw [List.length_zip] at width
  have inside := (List.getElem?_eq_some_iff.mp field).1
  exact ⟨_, List.getElem?_eq_getElem (by omega)⟩

section Scan
variable [CsvCrate]

structure Named (text : List Char) (schema : Schema) (i p : Nat) (f : Field) : Prop where
  field : schema.fields[i]? = some f
  header : (headers text)[p]? = some f.name.toList

/-- In every record the value of a field is that of the cell under the header of its name. -/
def ByName (text : List Char) (b : RecordBatch) : Prop :=
  List.Forall₂ (fun (record : Record) row => ∀ i p f, Named text b.schema i p f →
    record.values[i]? = (row[p]?).map fun raw => coerceValue raw f.dataType) b.records (rows text)

def CellsAgree (text : List Char) (schema : Schema) : Prop :=
  ∀ row ∈ rows text, ∀ i p f raw raw', Named text schema i p f →
    row[i]? = some raw → row[p]? = some raw' →
      coerceValue raw f.dataType = coerceValue raw' f.dataType

def InPlace (text : List Char) (schema : Schema) : Prop :=
  ∀ i p f, Named text schema i p f → i = p

theorem header_present {text : List Char} {row : List (List Char)} (mem : row ∈ rows text)
    {p : Nat} {name : List Char} (header : (headers text)[p]? = some name) :
    ∃ raw, row[p]? = some raw := by
  have width := rows_length mem
  have inside := (List.getElem?_eq_some_iff.mp header).1
  exact ⟨_, List.getElem?_eq_getElem (by omega)⟩

/-- What is delivered under a name is the cell under that header exactly if in every row the cell
    at the field's place reads alike, so always if the fields stand where the header has them. -/
theorem by_name_iff (text : List Char) (schema : Schema) (b : RecordBatch)
    (scanned : scanReader text (some schema) = .ok b) :
    (ByName text b ↔ CellsAgree text schema) ∧ (InPlace text schema → ByName text b) := by
  obtain ⟨_, formed⟩ := check_bind_eq_ok.mp scanned
  obtain ⟨rfl, valid⟩ := fromRecords_eq_ok.mp formed
  rw [Option.getD_some] at valid
  have both : ByName text ⟨schema, (rows text).map (coerceRow schema)⟩ ↔
      CellsAgree text schema := by
    unfold ByName CellsAgree
    rw [List.forall₂_map_left_iff, List.forall₂_same]
    apply forall₂_congr
    intro row mem
    have fits := valid _ (List.mem_map_of_mem mem)
    constructor
    · intro delivered i p f raw raw' named here there
      have same := delivered i p f named
      rw [coerceRow_value named.field, here, there] at same
      exact Option.some.inj same
    · intro agree i p f named
      obtain ⟨raw, here⟩ := cell_present fits named.field
      obtain ⟨raw', there⟩ := header_present mem named.header
      rw [coerceRow_value named.field, here, there]
      exact congrArg some (agree i p f raw raw' named here there)
  refine ⟨both, fun placed => both.mpr ?_⟩
  intro row _ i p f raw raw' named here there
  rw [placed i p f named] at here
  rw [Option.some.inj (here.symm.trans there)]

end Scan

/-- A file whose columns are `id` and `name`. -/
def people : List Char := "id,name\n1,ann\n".toList

def nameFirst : Schema := ⟨[.new "name" .string, .new "id" .int64]⟩

theorem id_by_name : ∃ b, @scanReader lineReader people (some idsSchema) = .ok b ∧
    (@ByName lineReader people b ↔ @CellsAgree lineReader people idsSchema) ∧
    (@InPlace lineReader people idsSchema → @ByName lineReader people b) :=
  ⟨_, rfl, @by_name_iff lineReader people idsSchema _ rfl⟩

/-- Under a schema that has the columns the other way round `1` is delivered as the name. -/
theorem columns_exchanged :
    ¬ ∀ (text : List Char) (schema : Schema) (b : RecordBatch), (@headers lineReader text).Nodup →
      (∀ f ∈ schema.fields, f.name.toList ∈ @headers lineReader text) →
      @scanReader lineReader text (some schema) = .ok b → @ByName lineReader text b := by
  intro claim
  have delivered := claim people nameFirst _ (by decide) (by decide) rfl
  cases delivered with
  | cons first _ =>
    have value := first 0 1 (.new "name" .string) (@Named.mk lineReader _ _ _ _ _ rfl rfl)
    exact absurd value (by decide)

end RSparkCsvHeader
