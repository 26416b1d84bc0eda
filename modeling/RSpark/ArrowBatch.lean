import Mathlib.Data.List.GetD
import RSpark.Listing
import RSpark.ValueKinds

/- The columnar boundary: batches turned into Arrow arrays by one builder for each column, and
   read back cell by cell. -/
namespace RSparkArrowBatch
open RSparkValue RSparkBatch RSparkValueKinds FloatText

section Crate

inductive NativeType where
  | boolean | int32 | int64 | float32 | float64 | utf8
  deriving DecidableEq, Repr

abbrev NativeType.Carrier : NativeType → Type
  | .boolean => Bool
  | .int32 => Int32
  | .int64 => Int64
  | .float32 => Float32
  | .float64 => Float
  | .utf8 => String

inductive ArrowDataType where
  | boolean | int32 | int64 | float32 | float64 | utf8 | largeUtf8 | null
  | other (debug : String)
  deriving DecidableEq, Repr

def ArrowDataType.debug : ArrowDataType → String
  | .boolean => "Boolean"
  | .int32 => "Int32"
  | .int64 => "Int64"
  | .float32 => "Float32"
  | .float64 => "Float64"
  | .utf8 => "Utf8"
  | .largeUtf8 => "LargeUtf8"
  | .null => "Null"
  | .other debug => debug

structure ArrowField where
  name : String
  dataType : ArrowDataType
  nullable : Bool
  deriving DecidableEq, Repr

abbrev ArrowSchema := List ArrowField

/-- The foreign arrays, their builders and the batches made of them. -/
class ArrowCrate where
  Builder : NativeType → Type
  builder (t : NativeType) : Builder t
  appendValue {t : NativeType} : Builder t → t.Carrier → Builder t
  appendNull {t : NativeType} : Builder t → Builder t
  Native : NativeType → Type
  finish {t : NativeType} : Builder t → Native t
  value {t : NativeType} : Native t → Nat → t.Carrier
  Array : Type
  array {t : NativeType} : Native t → Array
  downcast (t : NativeType) : Array → Option (Native t)
  nullArray : Nat → Array
  dataType : Array → ArrowDataType
  len : Array → Nat
  isNull : Array → Nat → Bool
  ArrowRecordBatch : Type
  tryNew : ArrowSchema → List Array → Except String ArrowRecordBatch
  schema : ArrowRecordBatch → ArrowSchema
  columns : ArrowRecordBatch → List Array
  numRows : ArrowRecordBatch → Nat

def NativeType.arrow : NativeType → ArrowDataType
  | .boolean => .boolean
  | .int32 => .int32
  | .int64 => .int64
  | .float32 => .float32
  | .float64 => .float64
  | .utf8 => .utf8

variable [ArrowCrate]

def Holds {t : NativeType} (a : ArrowCrate.Native t) (cells : List (Option t.Carrier)) : Prop :=
  ArrowCrate.len (ArrowCrate.array a) = cells.length ∧ ∀ i cell, cells[i]? = some cell →
    ArrowCrate.isNull (ArrowCrate.array a) i = cell.isNone ∧
      ∀ v ∈ cell, ArrowCrate.value a i = v

def appendOption {t : NativeType} (b : ArrowCrate.Builder t) :
    Option t.Carrier → ArrowCrate.Builder t
  | some v => ArrowCrate.appendValue b v
  | none => ArrowCrate.appendNull b

/-- What a record batch can be made of: columns of one length and of the types of the fields,
    and without nulls where the field takes none. -/
structure Acceptable (schema : ArrowSchema) (columns : List ArrowCrate.Array) : Prop where
  some' : columns ≠ []
  count : columns.length = schema.length
  types : ∀ p ∈ schema.zip columns, ArrowCrate.dataType p.2 = p.1.dataType
  lengths : ∀ c ∈ columns, ∀ d ∈ columns, ArrowCrate.len c = ArrowCrate.len d
  nulls : ∀ p ∈ schema.zip columns, p.1.nullable = false →
    ∀ i < ArrowCrate.len p.2, ArrowCrate.isNull p.2 i = false

/-- What is relied on of the crate: builders and arrays keep what is appended, and batches are
    made of acceptable columns. -/
structure ArrowLaws : Prop where
  stores : ∀ {t : NativeType} (cells : List (Option t.Carrier)),
    Holds (ArrowCrate.finish (cells.foldl appendOption (ArrowCrate.builder t))) cells
  downcasts : ∀ {t : NativeType} (a : ArrowCrate.Native t),
    ArrowCrate.downcast t (ArrowCrate.array a) = some a
  typed : ∀ {t : NativeType} (a : ArrowCrate.Native t),
    ArrowCrate.dataType (ArrowCrate.array a) = t.arrow
  nullTyped : ∀ n, ArrowCrate.dataType (ArrowCrate.nullArray n) = .null
  nullLen : ∀ n, ArrowCrate.len (ArrowCrate.nullArray n) = n
  accepts : ∀ (schema : ArrowSchema) (columns : List ArrowCrate.Array),
    (∃ rb, ArrowCrate.tryNew schema columns = .ok rb) ↔ Acceptable schema columns
  made : ∀ (schema : ArrowSchema) (columns : List ArrowCrate.Array) (rb),
    ArrowCrate.tryNew schema columns = .ok rb → ArrowCrate.schema rb = schema ∧
      ArrowCrate.columns rb = columns ∧
        ∀ c ∈ columns, ArrowCrate.numRows rb = ArrowCrate.len c

end Crate

section Builders

def storedAs {α : Type} (own : Value → Option α) (cast : Value → α) (v : Value) : Option α :=
  match own v with
  | some a => some a
  | none => if v.isNull then none else some (cast v)

def boolBuilder : Value → Option Bool :=
  storedAs (fun | .boolean b => some b | _ => none) fun other => other.castToBool.getD false

def i32Builder : Value → Option Int32 :=
  storedAs (fun | .int32 i => some i | _ => none)
    fun other => (i64TryI32 (other.castToI64.getD 0)).getD 0

def i64Builder : Value → Option Int64 :=
  storedAs (fun | .int64 i => some i | _ => none) fun other => other.castToI64.getD 0

def f32Builder : Value → Option Float32 :=
  storedAs (fun | .float32 f => some f | _ => none)
    fun other => narrow (other.castToF64.getD (scientific64 0 0))

def f64Builder : Value → Option Float :=
  storedAs (fun | .float64 f => some f | _ => none)
    fun other => other.castToF64.getD (scientific64 0 0)

def strBuilder : Value → Option String :=
  storedAs (fun | .string s => some s | _ => none) fun other => other.castToString

def stored : (t : NativeType) → Value → Option t.Carrier
  | .boolean => boolBuilder
  | .int32 => i32Builder
  | .int64 => i64Builder
  | .float32 => f32Builder
  | .float64 => f64Builder
  | .utf8 => strBuilder

/-- The type of the builder of a column. A column of NULLs has none. -/
def nativeType : DataType → Option NativeType
  | .boolean => some .boolean
  | .int32 => some .int32
  | .int64 => some .int64
  | .float32 => some .float32
  | .float64 => some .float64
  | .string | .date | .timestamp => some .utf8
  | .null => none

variable [ArrowCrate]

inductive ArrayBuilder where
  | native (t : NativeType) (b : ArrowCrate.Builder t)
  | nullColumn

def ArrayBuilder.appendValue : ArrayBuilder → Value → ArrayBuilder
  | .native t b, v => .native t (appendOption b (stored t v))
  -- always null; nothing to track
  | .nullColumn, _ => .nullColumn

def ArrayBuilder.finish : ArrayBuilder → ArrowCrate.Array
  | .native _ b => ArrowCrate.array (ArrowCrate.finish b)
  | .nullColumn => ArrowCrate.nullArray 0

def makeBuilder (field : Field) : ArrayBuilder :=
  match nativeType field.dataType with
  | some t => .native t (ArrowCrate.builder t)
  | none => .nullColumn

end Builders

section Conversion

def arrowType : DataType → ArrowDataType
  | .boolean => .boolean
  | .int32 => .int32
  | .int64 => .int64
  | .float32 => .float32
  | .float64 => .float64
  | .string | .date | .timestamp => .utf8
  | .null => .null

def arrowSchemaFromCore (schema : Schema) : ArrowSchema :=
  schema.fields.map fun f => ⟨f.name, arrowType f.dataType, f.nullable⟩

def coreType : ArrowDataType → DataType
  | .boolean => .boolean
  | .int32 => .int32
  | .int64 => .int64
  | .float32 => .float32
  | .float64 => .float64
  | .utf8 | .largeUtf8 => .string
  | _ => .string

variable [ArrowCrate]

def appendRecord : List ArrayBuilder → List Value → Result (List ArrayBuilder)
  | builders, [] => .ok builders
  | builder :: builders, value :: values => do
      let rest ← appendRecord builders values
      .ok (builder.appendValue value :: rest)
  | [], _ :: _ => abort "index out of bounds"

def appendRecords (builders : List ArrayBuilder) : List Record → Result (List ArrayBuilder)
  | [] => .ok builders
  | record :: rest => do
      let builders ← appendRecord builders record.values
      appendRecords builders rest

def arrowFromCore (batch : RecordBatch) : Result ArrowCrate.ArrowRecordBatch := do
  let builders ← appendRecords (batch.schema.fields.map makeBuilder) batch.records
  match ArrowCrate.tryNew (arrowSchemaFromCore batch.schema) (builders.map ArrayBuilder.finish) with
  | .ok rb => .ok rb
  | .error e => err (.execution s!"arrow RecordBatch build failed: {e}")

def coreSchema (batch : ArrowCrate.ArrowRecordBatch) : Schema :=
  ⟨(ArrowCrate.schema batch).map fun f => ⟨f.name, coreType f.dataType, f.nullable⟩⟩

def NativeType.wrap : (t : NativeType) → t.Carrier → Value
  | .boolean => .boolean
  | .int32 => .int32
  | .int64 => .int64
  | .float32 => .float32
  | .float64 => .float64
  | .utf8 => .string

def readAs (t : NativeType) (missing : Fault) (col : ArrowCrate.Array) (row : Nat) : Result Value :=
  match ArrowCrate.downcast t col with
  | some arr => .ok (t.wrap (ArrowCrate.value arr row))
  | none => .error missing

def downcastFailed (array : String) : Fault :=
  .error (.execution s!"arrow downcast to {array} failed")

def valueAt (col : ArrowCrate.Array) (row : Nat) : Result Value :=
  if ArrowCrate.isNull col row then .ok .null
  else
    match ArrowCrate.dataType col with
    | .boolean => readAs .boolean (downcastFailed "BooleanArray") col row
    | .int32 => readAs .int32 (downcastFailed "Int32Array") col row
    | .int64 => readAs .int64 (downcastFailed "Int64Array") col row
    | .float32 => readAs .float32 (.abort "primitive array") col row
    | .float64 => readAs .float64 (.abort "primitive array") col row
    | .utf8 => readAs .utf8 (downcastFailed "StringArray") col row
    | .null => .ok .null
    | other => err (.execution s!"unsupported arrow type in value_at: {other.debug}")

def rowAt (columns : List ArrowCrate.Array) (row : Nat) : Result Record := do
  let values ← columns.mapM fun col => valueAt col row
  .ok ⟨values⟩

def arrowToCore (batch : ArrowCrate.ArrowRecordBatch) : Result RecordBatch := do
  let records ← (List.range (ArrowCrate.numRows batch)).mapM (rowAt (ArrowCrate.columns batch))
  RecordBatch.fromRecords (coreSchema batch) records

end Conversion

section Columns

def readOption (t : NativeType) : Option t.Carrier → Value
  | some c => t.wrap c
  | none => .null

def readCell (type : DataType) (v : Value) : Value :=
  match nativeType type with
  | some t => readOption t (stored t v)
  | none => .null

variable [ArrowCrate]

def columnArray (type : DataType) (vs : List Value) : ArrowCrate.Array :=
  match nativeType type with
  | some t => ArrowCrate.array
      (ArrowCrate.finish ((vs.map (stored t)).foldl appendOption (ArrowCrate.builder t)))
  | none => ArrowCrate.nullArray 0

theorem foldl_native (t : NativeType) (b : ArrowCrate.Builder t) (vs : List Value) :
    vs.foldl ArrayBuilder.appendValue (.native t b) =
      .native t ((vs.map (stored t)).foldl appendOption b) := by
  induction vs generalizing b with
  | nil => rfl
  | cons v vs ih => exact ih _

theorem foldl_nullColumn (vs : List Value) :
    vs.foldl ArrayBuilder.appendValue .nullColumn = .nullColumn := by
  induction vs with
  | nil => rfl
  | cons v vs ih => exact ih

theorem finish_foldl (field : Field) (vs : List Value) :
    (vs.foldl ArrayBuilder.appendValue (makeBuilder field)).finish =
      columnArray field.dataType vs := by
  unfold makeBuilder columnArray
  cases nativeType field.dataType with
  | some t => exact congrArg ArrayBuilder.finish (foldl_native t _ vs)
  | none => exact congrArg ArrayBuilder.finish (foldl_nullColumn vs)

theorem appendRecord_eq {builders : List ArrayBuilder} {values : List Value}
    (width : values.length = builders.length) :
    appendRecord builders values = .ok (List.zipWith ArrayBuilder.appendValue builders values) := by
  induction builders generalizing values with
  | nil =>
    obtain rfl := List.length_eq_zero_iff.mp width
    rfl
  | cons builder builders ih =>
    cases values with
    | nil => exact nomatch width
    | cons value values =>
      rw [appendRecord, ih (Nat.succ.inj width)]
      rfl

theorem appendRecords_eq {builders : List ArrayBuilder} {records : List Record}
    (wide : ∀ r ∈ records, r.values.length = builders.length) :
    appendRecords builders records =
      .ok ((records.map Record.values).foldl (List.zipWith ArrayBuilder.appendValue) builders) := by
  induction records generalizing builders with
  | nil => rfl
  | cons r rest ih =>
    have width := wide r List.mem_cons_self
    rw [appendRecords, appendRecord_eq width, ok_bind, ih fun other mem => ?_]
    · rfl
    · rw [wide other (List.mem_cons_of_mem _ mem), List.length_zipWith, width, Nat.min_self]

def columnValues (b : RecordBatch) (i : Nat) : List Value := b.records.map (·.getOrNull i)

def arrowColumns (b : RecordBatch) : List ArrowCrate.Array :=
  b.schema.fields.mapIdx fun i f => columnArray f.dataType (columnValues b i)

theorem arrowFromCore_eq {b : RecordBatch} (valid : b.Valid) : arrowFromCore b =
    match ArrowCrate.tryNew (arrowSchemaFromCore b.schema) (arrowColumns b) with
    | .ok rb => .ok rb
    | .error e => err (.execution s!"arrow RecordBatch build failed: {e}") := by
  have wide : ∀ r ∈ b.records, r.values.length = (b.schema.fields.map makeBuilder).length := by
    intro r mem
    rw [List.length_map]
    exact (valid r mem).1
  have same : ((b.records.map Record.values).foldl (List.zipWith ArrayBuilder.appendValue)
      (b.schema.fields.map makeBuilder)).map ArrayBuilder.finish = arrowColumns b := by
    rw [Listing.foldl_zipWith _ .null _ _ (by simpa using wide)]
    refine List.ext_getElem (by simp [arrowColumns]) fun i _ _ => ?_
    simp only [List.getElem_map, List.getElem_mapIdx, List.map_map, arrowColumns]
    exact finish_foldl _ _
  rw [arrowFromCore, appendRecords_eq wide, ok_bind, same]

end Columns

section Reading
variable [ArrowCrate]

def Reads (c : ArrowCrate.Array) (vs : List Value) : Prop :=
  ArrowCrate.len c = vs.length ∧ ∀ i v, vs[i]? = some v → valueAt c i = .ok v

theorem holds_reads (laws : ArrowLaws) {t : NativeType} {a : ArrowCrate.Native t}
    {cells : List (Option t.Carrier)} (holds : Holds a cells) :
    Reads (ArrowCrate.array a) (cells.map (readOption t)) := by
  refine ⟨by rw [List.length_map]; exact holds.1, fun i v at' => ?_⟩
  rw [List.getElem?_map, Option.map_eq_some_iff] at at'
  obtain ⟨cell, here, rfl⟩ := at'
  obtain ⟨isNull, value⟩ := holds.2 i cell here
  cases cell with
  | none => simp only [valueAt, isNull, Option.isNone_none, if_true, readOption]
  | some c =>
    have read (missing : Fault) :
        readAs t missing (ArrowCrate.array a) i = .ok (t.wrap c) := by
      simp only [readAs, laws.downcasts, value c rfl]
    simp only [valueAt, isNull, Option.isNone_some, Bool.false_eq_true, if_false, laws.typed]
    cases t <;> exact read _

theorem column_reads (laws : ArrowLaws) {type : DataType} {t : NativeType}
    (native : nativeType type = some t) (vs : List Value) :
    Reads (columnArray type vs) (vs.map (readCell type)) := by
  have same : vs.map (readCell type) = (vs.map (stored t)).map (readOption t) := by
    rw [List.map_map]
    refine List.map_congr_left fun v _ => ?_
    rw [readCell, native]
    rfl
  rw [columnArray, native, same]
  exact holds_reads laws (laws.stores _)

theorem arrowToCore_eq {rb : ArrowCrate.ArrowRecordBatch} {vss : List (List Value)}
    (each : List.Forall₂ Reads (ArrowCrate.columns rb) vss)
    (rows : ∀ c ∈ ArrowCrate.columns rb, ArrowCrate.numRows rb = ArrowCrate.len c) :
    arrowToCore rb = RecordBatch.fromRecords (coreSchema rb)
      ((List.range (ArrowCrate.numRows rb)).map fun row =>
        ⟨vss.map fun vs => vs[row]?.getD .null⟩) := by
  have row (i : Nat) (inside : i < ArrowCrate.numRows rb) :
      rowAt (ArrowCrate.columns rb) i = .ok ⟨vss.map fun vs => vs[i]?.getD .null⟩ := by
    have read : (ArrowCrate.columns rb).mapM (fun c => valueAt c i) =
        .ok (vss.map fun vs => vs[i]?.getD .null) := by
      rw [Listing.mapM_eq_ok, List.forall₂_map_right_iff]
      refine List.forall₂_iff_zip.mpr ⟨each.length_eq, fun {c vs} mem => ?_⟩
      obtain ⟨length, reads⟩ := (List.forall₂_iff_zip.mp each).2 mem
      have bound : i < vs.length := by
        rw [← length, ← rows c (List.of_mem_zip mem).1]
        exact inside
      rw [List.getElem?_eq_getElem bound]
      exact reads i _ (List.getElem?_eq_getElem bound)
    rw [rowAt, read]
    rfl
  have all : (List.range (ArrowCrate.numRows rb)).mapM (rowAt (ArrowCrate.columns rb)) =
      .ok ((List.range (ArrowCrate.numRows rb)).map fun row =>
        ⟨vss.map fun vs => vs[row]?.getD .null⟩) := by
    rw [Listing.mapM_eq_ok, List.forall₂_map_right_iff, List.forall₂_same]
    exact fun i mem => row i (List.mem_range.mp mem)
  rw [arrowToCore, all]
  rfl

end Reading

end RSparkArrowBatch
