import Mathlib.Tactic.Common
import RSpark.Value

/- Schemas, records and record batches. Schema equality is the derived one. -/
namespace RSparkBatch
open RSparkValue

inductive DataType where
  | boolean | int32 | int64 | float32 | float64 | string | date | timestamp | null
  deriving DecidableEq, Repr

structure Field where
  name : String
  dataType : DataType
  nullable : Bool
  deriving DecidableEq, Repr

def Field.new (name : String) (dataType : DataType) : Field := ⟨name, dataType, true⟩
def Field.notNull (name : String) (dataType : DataType) : Field := ⟨name, dataType, false⟩

structure Schema where
  fields : List Field
  deriving DecidableEq, Repr

def Schema.empty : Schema := ⟨[]⟩
def Schema.fieldNames (s : Schema) : List String := s.fields.map Field.name
def Schema.fieldCount (s : Schema) : Nat := s.fields.length
def Schema.field (s : Schema) (name : String) : Option Field :=
  s.fields.find? (·.name = name)
def Schema.indexOf (s : Schema) (name : String) : Option Nat :=
  s.fields.findIdx? (·.name = name)

theorem indexOf_field {schema : Schema} {name : String} {i : Nat}
    (h : schema.indexOf name = some i) :
    ∃ f, schema.fields[i]? = some f ∧ f.name = name ∧ schema.field name = some f := by
  obtain ⟨bound, named, first⟩ := List.findIdx?_eq_some_iff_getElem.mp h
  have here : schema.fields[i].name = name := by simpa using named
  refine ⟨schema.fields[i], List.getElem?_eq_getElem bound, here, ?_⟩
  refine List.find?_eq_some_iff_getElem.mpr ⟨named, i, bound, rfl, fun j before => ?_⟩
  simpa using first j before

theorem indexOf_lt {schema : Schema} {name : String} {i : Nat}
    (h : schema.indexOf name = some i) : i < schema.fieldCount :=
  (List.findIdx?_eq_some_iff_getElem.mp h).1

theorem indexOf_of_mem {schema : Schema} {name : String} (known : name ∈ schema.fieldNames) :
    ∃ i, schema.indexOf name = some i := by
  obtain ⟨f, mem, same⟩ := List.mem_map.mp known
  refine Option.isSome_iff_exists.mp ?_
  rw [Schema.indexOf, List.findIdx?_isSome, List.any_eq_true]
  exact ⟨f, mem, by simpa using same⟩

theorem mem_of_indexOf {schema : Schema} {name : String} {i : Nat}
    (h : schema.indexOf name = some i) : name ∈ schema.fieldNames := by
  obtain ⟨f, here, same, _⟩ := indexOf_field h
  exact List.mem_map.mpr ⟨f, List.mem_of_getElem? here, same⟩

theorem indexOf_inj {schema : Schema} {x y : String} {i : Nat}
    (hx : schema.indexOf x = some i) (hy : schema.indexOf y = some i) : x = y := by
  obtain ⟨f, fieldX, nameX, _⟩ := indexOf_field hx
  obtain ⟨g, fieldY, nameY, _⟩ := indexOf_field hy
  obtain rfl := Option.some.inj (fieldX.symm.trans fieldY)
  exact nameX.symm.trans nameY

structure Record where
  values : List Value
  deriving DecidableEq

def Record.get (r : Record) (index : Nat) : Option Value := r.values[index]?

/-- `record.get(idx).cloned().unwrap_or(Value::Null)` -/
def Record.getOrNull (r : Record) (index : Nat) : Value := (r.get index).getD .null

def validateFields (idx : Nat) : List Value → List Field → Result Unit
  | value :: values, field :: fields =>
      if value.isNull ∧ ¬ field.nullable then
        err (.schema s!"field '{field.name}' at index {idx} is null but declared not null")
      else validateFields (idx + 1) values fields
  | _, _ => .ok ()

def Record.validate (r : Record) (schema : Schema) : Result Unit :=
  if r.values.length ≠ schema.fieldCount then
    err (.schema s!"record has {r.values.length} fields but schema expects {schema.fieldCount}")
  else validateFields 0 r.values schema.fields

/-- One value for each field, and no NULL in a field declared not null. -/
def Record.Valid (r : Record) (schema : Schema) : Prop :=
  r.values.length = schema.fieldCount ∧
    ∀ p ∈ r.values.zip schema.fields, p.1.isNull = true → p.2.nullable = true

instance (r : Record) (schema : Schema) : Decidable (r.Valid schema) :=
  inferInstanceAs (Decidable (_ ∧ _))

theorem validateFields_eq_ok (idx : Nat) (values : List Value) (fields : List Field) :
    validateFields idx values fields = .ok () ↔
      ∀ p ∈ values.zip fields, p.1.isNull = true → p.2.nullable = true := by
  induction values generalizing idx fields with
  | nil => simp [validateFields]
  | cons value values ih =>
    cases fields with
    | nil => simp [validateFields]
    | cons field fields =>
      unfold validateFields
      split
      · rename_i bad
        simp only [err_ne_ok, List.zip_cons_cons, List.mem_cons, forall_eq_or_imp, false_iff]
        intro fits
        exact bad.2 (fits.1 bad.1)
      · rename_i good
        rw [ih]
        simp only [List.zip_cons_cons, List.mem_cons, forall_eq_or_imp]
        have head : value.isNull = true → field.nullable = true := by
          intro isNull
          by_contra notNullable
          exact good ⟨isNull, notNullable⟩
        exact ⟨fun tail => ⟨head, tail⟩, And.right⟩

theorem validate_eq_ok (r : Record) (schema : Schema) :
    r.validate schema = .ok () ↔ r.Valid schema := by
  unfold Record.validate Record.Valid
  split
  · rename_i ne; simp [ne]
  · rename_i eq
    rw [validateFields_eq_ok]
    exact ⟨fun h => ⟨not_not.mp eq, h⟩, And.right⟩

structure RecordBatch where
  schema : Schema
  records : List Record
  deriving DecidableEq

def RecordBatch.new (schema : Schema) : RecordBatch := ⟨schema, []⟩
def RecordBatch.len (b : RecordBatch) : Nat := b.records.length
def RecordBatch.isEmpty (b : RecordBatch) : Bool := b.records.isEmpty

def validateAll (schema : Schema) : List Record → Result Unit
  | [] => .ok ()
  | r :: rs => do
      r.validate schema
      validateAll schema rs

def RecordBatch.fromRecords (schema : Schema) (records : List Record) : Result RecordBatch := do
  validateAll schema records
  .ok ⟨schema, records⟩

def RecordBatch.push (b : RecordBatch) (record : Record) : Result RecordBatch := do
  record.validate b.schema
  .ok ⟨b.schema, b.records ++ [record]⟩

/-- Compares schemas only: the appended records are not validated again. -/
def RecordBatch.extend (b other : RecordBatch) : Result RecordBatch :=
  if b.schema ≠ other.schema then
    err (.schema "cannot extend RecordBatch with mismatched schema")
  else .ok ⟨b.schema, b.records ++ other.records⟩

def RecordBatch.Valid (b : RecordBatch) : Prop := ∀ r ∈ b.records, r.Valid b.schema

instance (b : RecordBatch) : Decidable b.Valid :=
  inferInstanceAs (Decidable (∀ r ∈ b.records, r.Valid b.schema))

theorem validateAll_eq_ok (schema : Schema) (records : List Record) :
    validateAll schema records = .ok () ↔ ∀ r ∈ records, r.Valid schema := by
  induction records with
  | nil => simp [validateAll]
  | cons r rs ih =>
    simp only [validateAll, check_bind_eq_ok, List.mem_cons, forall_eq_or_imp, ih, validate_eq_ok]

theorem fromRecords_eq_ok {schema : Schema} {records : List Record} {b : RecordBatch} :
    RecordBatch.fromRecords schema records = .ok b ↔
      b = ⟨schema, records⟩ ∧ ∀ r ∈ records, r.Valid schema := by
  simp only [RecordBatch.fromRecords, check_bind_eq_ok, validateAll_eq_ok, Except.ok.injEq]
  exact ⟨fun ⟨valid, same⟩ => ⟨same.symm, valid⟩, fun ⟨same, valid⟩ => ⟨valid, same.symm⟩⟩

theorem new_valid (schema : Schema) : (RecordBatch.new schema).Valid := by
  simp [RecordBatch.Valid, RecordBatch.new]

theorem fromRecords_valid {schema : Schema} {records : List Record} {b : RecordBatch}
    (h : RecordBatch.fromRecords schema records = .ok b) : b.schema = schema ∧ b.Valid := by
  obtain ⟨rfl, valid⟩ := fromRecords_eq_ok.mp h
  exact ⟨rfl, valid⟩

theorem fromRecords_of_valid {schema : Schema} {records : List Record}
    (valid : ∀ r ∈ records, r.Valid schema) :
    RecordBatch.fromRecords schema records = .ok ⟨schema, records⟩ :=
  fromRecords_eq_ok.mpr ⟨rfl, valid⟩

theorem fromRecords_twice (schema : Schema) (records : List Record) :
    (do let b ← RecordBatch.fromRecords schema records
        RecordBatch.fromRecords schema b.records) = RecordBatch.fromRecords schema records := by
  cases built : RecordBatch.fromRecords schema records with
  | error e => rfl
  | ok b =>
    obtain ⟨rfl, _⟩ := fromRecords_eq_ok.mp built
    exact built

theorem extend_eq_ok {b other c : RecordBatch} :
    b.extend other = .ok c ↔
      b.schema = other.schema ∧ c = ⟨b.schema, b.records ++ other.records⟩ := by
  unfold RecordBatch.extend
  split
  · rename_i ne; simp [ne]
  · rename_i eq
    simp only [Except.ok.injEq]
    exact ⟨fun h => ⟨not_not.mp eq, h.symm⟩, fun h => h.2.symm⟩

theorem extend_valid {b other c : RecordBatch} (h : b.extend other = .ok c)
    (hb : b.Valid) (ho : other.Valid) : c.schema = b.schema ∧ c.Valid := by
  obtain ⟨same, rfl⟩ := extend_eq_ok.mp h
  refine ⟨rfl, fun r mem => ?_⟩
  rcases List.mem_append.mp mem with left | right
  · exact hb r left
  · show r.Valid b.schema
    rw [same]
    exact ho r right

end RSparkBatch
