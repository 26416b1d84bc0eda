import RSpark.JsonSource
import RSpark.OrderedMap
import RSpark.UnionSchema

/- Batches written as JSON lines, one object for each record, and what a scan of those lines under
   the schema of the batch gives back. -/
namespace RSparkJsonWriter
open RSparkValue RSparkBatch RSparkNdjson RSparkJsonSource RSparkUnionSchema FloatText

section Write

/-- An integer that is not negative is kept as one without a sign. -/
def numberFromI64 (i : Int64) : JsonNumber :=
  if i.toInt < 0 then .negInt i else .posInt i.toUInt64

def jsonFromF64 (f : Float) : JsonValue := if f.isFinite then .number (.float f) else .null

def valueToJson : Value → JsonValue
  | .null => .null
  | .boolean b => .bool b
  | .int32 i => .number (numberFromI64 (i32AsI64 i))
  | .int64 i => .number (numberFromI64 i)
  | .float32 f => jsonFromF64 (widen f)
  | .float64 f => jsonFromF64 f
  | .string s => .string s

/-- The members of an object stand in the order of their keys; a key inserted again takes the
    place of the first. -/
abbrev JsonMap := OrderedMap String JsonValue

def insertAll (obj : JsonMap) (members : List (Field × Value)) : JsonMap :=
  members.foldl (fun obj (field, value) => obj.insert field.name (valueToJson value)) obj

def recordObject (schema : Schema) (record : Record) : JsonMap :=
  insertAll .empty (schema.fields.zip record.values)

def utf8 (text : String) : List UInt8 := text.toUTF8.toList

variable [SerdeJson]

def objectLine (map : Row) : List UInt8 := utf8 (SerdeJson.toString (.object map)) ++ utf8 "\n"

/-- The bytes that `write_json` leaves in its file, and `render_json` returns. -/
def renderJson (batch : RecordBatch) : List UInt8 :=
  batch.records.flatMap fun record => objectLine (recordObject batch.schema record).entries

end Write

section Members

theorem get_insertAll_other {members : List (Field × Value)} {key : String}
    (absent : key ∉ members.map fun p => p.1.name) (obj : JsonMap) :
    (insertAll obj members).get key = obj.get key := by
  induction members generalizing obj with
  | nil => rfl
  | cons p members ih =>
    obtain ⟨other, later⟩ := List.ne_and_not_mem_of_not_mem_cons absent
    rw [insertAll, List.foldl_cons]
    exact (ih later _).trans (OrderedMap.get_insert_other obj other _)

theorem get_insertAll {members : List (Field × Value)}
    (distinct : (members.map fun p => p.1.name).Nodup) {p : Field × Value} (inside : p ∈ members)
    (obj : JsonMap) : (insertAll obj members).get p.1.name = some (valueToJson p.2) := by
  induction members generalizing obj with
  | nil => cases inside
  | cons q members ih =>
    obtain ⟨apart, rest⟩ := List.nodup_cons.mp distinct
    rw [insertAll, List.foldl_cons]
    rcases List.mem_cons.mp inside with rfl | later
    · exact (get_insertAll_other apart _).trans (OrderedMap.get_insert_self obj _ _)
    · exact ih rest later _

theorem entries_nodup (obj : JsonMap) : (keysOf obj.entries).Nodup := by
  rw [keysOf, List.Nodup, List.pairwise_map]
  exact obj.ascending.imp ne_of_lt

theorem get_written {schema : Schema} {record : Record} (distinct : schema.fieldNames.Nodup)
    (valid : record.Valid schema) {map : Row}
    (read : map.Perm (recordObject schema record).entries) {p : Field × Value}
    (inside : p ∈ schema.fields.zip record.values) :
    Row.get map p.1.name = some (valueToJson p.2) := by
  have once : (keysOf map).Nodup := (read.map Prod.fst).nodup_iff.mpr (entries_nodup _)
  have names : ((schema.fields.zip record.values).map fun p => p.1.name) = schema.fieldNames := by
    have fields : (schema.fields.zip record.values).map Prod.fst = schema.fields :=
      List.map_fst_zip (Nat.le_of_eq valid.1.symm)
    rw [Schema.fieldNames, ← fields, List.map_map, fields]
    rfl
  apply get_of_mem once
  rw [read.mem_iff, ← OrderedMap.get_eq_some_iff]
  apply get_insertAll _ inside
  rw [names]
  exact distinct

end Members

section Decode

inductive Held : DataType → Value → Prop where
  | null {type : DataType} : Held type .null
  | boolean (b : Bool) : Held .boolean (.boolean b)
  | int64 (i : Int64) : Held .int64 (.int64 i)
  | float64 (f : Float) (finite : f.isFinite = true) : Held .float64 (.float64 f)
  | string (s : String) : Held .string (.string s)

def RowHeld (schema : Schema) (record : Record) : Prop :=
  ∀ p ∈ schema.fields.zip record.values, Held p.1.dataType p.2

theorem ofNat_toUInt64 (i : Int64) : Int64.ofNat i.toUInt64.toNat = i := by
  have same : (Int64.ofNat i.toUInt64.toNat).toUInt64 = i.toUInt64 := by simp
  rw [← Int64.toInt64_toUInt64 (Int64.ofNat _), same, Int64.toInt64_toUInt64]

theorem asI64_numberFromI64 (i : Int64) : (numberFromI64 i).asI64 = some i := by
  unfold numberFromI64
  split
  · rfl
  · rename_i notNegative
    have below : i.toUInt64.toNat < 9223372036854775808 := by
      have bound := Int64.toInt_lt i
      rw [Int64.toNat_toUInt64_of_le (by rw [Int64.le_iff_toInt_le]; simpa using notNegative),
        Int64.toNatClampNeg]
      omega
    rw [JsonNumber.asI64, if_pos below, ofNat_toUInt64]

variable [SerdeJson]

theorem jsonToValue_valueToJson {type : DataType} {v : Value} (held : Held type v) :
    jsonToValue (valueToJson v) type = v := by
  cases held with
  | null => rfl
  | boolean b => rfl
  | int64 i =>
    rw [valueToJson, jsonToValue, asI64_numberFromI64]
  | float64 f finite =>
    rw [valueToJson, jsonFromF64, if_pos finite]
    rfl
  | string s => rfl

theorem objectRow_written {schema : Schema} {record : Record} (distinct : schema.fieldNames.Nodup)
    (valid : record.Valid schema) (held : RowHeld schema record) {map : Row}
    (read : map.Perm (recordObject schema record).entries) : objectRow schema map = record := by
  have each : schema.fields.map (fun field =>
      jsonToValue ((Row.get map field.name).getD .null) field.dataType) = record.values := by
    have fields : (schema.fields.zip record.values).map Prod.fst = schema.fields :=
      List.map_fst_zip (Nat.le_of_eq valid.1.symm)
    have values : (schema.fields.zip record.values).map Prod.snd = record.values :=
      List.map_snd_zip (Nat.le_of_eq valid.1)
    conv_lhs => rw [← fields]
    conv_rhs => rw [← values]
    rw [List.map_map]
    apply List.map_congr_left
    intro p inside
    rw [Function.comp, get_written distinct valid read inside]
    exact jsonToValue_valueToJson (held p inside)
  exact congrArg Record.mk each

end Decode

section RoundTrip
variable [SerdeJson]

theorem readRecords_objects (schema : Schema) (maps : List Row) :
    readRecords schema (maps.map fun map => .ok (.object map)) =
      .ok (maps.map (objectRow schema)) := by
  induction maps with
  | nil => rfl
  | cons map maps ih =>
    rw [List.map_cons, readRecords, ih]
    rfl

def writtenObjects (b : RecordBatch) : List Row :=
  b.records.map fun record => (recordObject b.schema record).entries

theorem renderJson_lines (b : RecordBatch) :
    renderJson b = (writtenObjects b).flatMap objectLine := by
  rw [renderJson, writtenObjects, List.flatMap_map]

theorem objectRows_written {schema : Schema} {records : List Record}
    (distinct : schema.fieldNames.Nodup)
    (good : ∀ record ∈ records, record.Valid schema ∧ RowHeld schema record) {read : List Row}
    (members : List.Forall₂ List.Perm read
      (records.map fun record => (recordObject schema record).entries)) :
    read.map (objectRow schema) = records := by
  rw [List.forall₂_map_right_iff] at members
  induction members with
  | nil => rfl
  | cons first _ ih =>
    obtain ⟨⟨valid, held⟩, rest⟩ := List.forall_mem_cons.mp good
    rw [List.map_cons, objectRow_written distinct valid held first, ih rest]

variable [JsonStream]

/-- The foreign text round trip: the lines of these objects are read as the objects, each with
    its members in some order. -/
def ReadsLines (maps : List Row) : Prop :=
  ∃ read, List.Forall₂ List.Perm read maps ∧
    JsonStream.values (maps.flatMap objectLine) = read.map fun map => .ok (.object map)

/-- A batch written as JSON lines is scanned as it was, under its schema. -/
theorem scan_renderJson (b : RecordBatch) (valid : b.Valid) (distinct : b.schema.fieldNames.Nodup)
    (held : ∀ record ∈ b.records, RowHeld b.schema record) (law : ReadsLines (writtenObjects b)) :
    scanReader (renderJson b) (some b.schema) = .ok b := by
  obtain ⟨read, members, streamed⟩ := law
  have records : read.map (objectRow b.schema) = b.records :=
    objectRows_written distinct (fun r mem => ⟨valid r mem, held r mem⟩) members
  rw [scanReader, scanWith, renderJson_lines, streamed, readRecords_objects, ok_bind, records]
  exact fromRecords_of_valid valid

end RoundTrip

section Witness

@[reducible] def onePrinter (text : String) : SerdeJson :=
  ⟨fun _ => .error "expected value", fun _ => text⟩

@[reducible] def oneStream (text : String) (map : Row) : JsonStream where
  values bytes := if bytes = utf8 text ++ utf8 "\n" then [.ok (.object map)] else []

theorem one_reads (text : String) (map : Row) :
    @ReadsLines (onePrinter text) (oneStream text map) [map] :=
  ⟨[map], .cons (List.Perm.refl map) .nil, if_pos (List.append_nil _)⟩

def seasText : String := "\x7b\"deep\":true,\"name\":\"Aral\",\"year\":-3\x7d"

def aral : Row := [("deep", .bool true), ("name", .string "Aral"), ("year", .number (.negInt (-3)))]

def seasSchema : Schema := ⟨[.new "name" .string, .new "year" .int64, .new "deep" .boolean]⟩

def seas : RecordBatch := ⟨seasSchema, [⟨[.string "Aral", .int64 (-3), .boolean true]⟩]⟩

theorem seas_held : ∀ record ∈ seas.records, RowHeld seasSchema record := by
  intro record listed p inside
  rw [List.mem_singleton.mp listed] at inside
  rcases List.mem_cons.mp inside with rfl | inside
  · exact .string "Aral"
  · rcases List.mem_cons.mp inside with rfl | inside
    · exact .int64 (-3)
    · rw [List.mem_singleton.mp inside]
      exact .boolean true

theorem seas_scanned :
    @scanReader (onePrinter seasText) (oneStream seasText aral)
      (@renderJson (onePrinter seasText) seas) (some seasSchema) = .ok seas :=
  @scan_renderJson (onePrinter seasText) (oneStream seasText aral) seas (by decide) (by decide)
    seas_held (one_reads seasText aral)

end Witness

end RSparkJsonWriter
