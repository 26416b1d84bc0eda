import RSpark.ArrowBatch
import RSpark.ColumnTypes

/- Which batches come back from their columns as they were. -/
namespace RSparkArrowRoundTrip
open RSparkValue RSparkBatch RSparkValueKinds RSparkColumnTypes RSparkArrowBatch

section Cells

def keptType : DataType → DataType
  | .date | .timestamp => .string
  | type => type

theorem stored_isNone (t : NativeType) (v : Value) : (stored t v).isNone = v.isNull := by
  cases t <;> cases v <;> rfl

theorem readCell_of_fits {type : DataType} {v : Value} (fits : Fits (keptType type) v) :
    readCell type v = v := by
  by_cases null : v = .null
  · subst null
    cases type <;> rfl
  · have same := fits null
    cases v with
    | null => exact absurd rfl null
    | _ =>
      have own := Option.some.inj same
      cases type <;> first | rfl | exact nomatch own

theorem readCell_fits (type : DataType) (v : Value) : Fits (keptType type) (readCell type v) := by
  have wrapped (t : NativeType) (c : Option t.Carrier) (native : nativeType type = some t) :
      Fits (keptType type) (readOption t c) := by
    cases c with
    | none => exact fits_null _
    | some c =>
      intro _
      cases type <;> first | (obtain rfl := Option.some.inj native; rfl) | exact nomatch native
  unfold readCell
  cases native : nativeType type with
  | some t => exact wrapped t _ native
  | none => exact fits_null _

theorem readCell_eq_iff (type : DataType) (v : Value) :
    readCell type v = v ↔ Fits (keptType type) v :=
  ⟨fun same => same ▸ readCell_fits type v, readCell_of_fits⟩

end Cells

section Batches

def Native (f : Field) : Prop := nativeType f.dataType ≠ none

instance (f : Field) : Decidable (Native f) := inferInstanceAs (Decidable (_ ≠ _))

/-- The columns of rows have one length: all have builders, or none has. -/
def OneLength (b : RecordBatch) : Prop :=
  b.records = [] ∨ (∀ f ∈ b.schema.fields, Native f) ∨ ∀ f ∈ b.schema.fields, ¬ Native f

def readRow (schema : Schema) (r : Record) : Record :=
  ⟨List.zipWith (fun (f : Field) v => readCell f.dataType v) schema.fields r.values⟩

def coreField (f : Field) : Field := ⟨f.name, coreType (arrowType f.dataType), f.nullable⟩

theorem readRow_eq_iff {schema : Schema} {r : Record} (valid : r.Valid schema) :
    readRow schema r = r ↔ ∀ p ∈ r.values.zip schema.fields, Fits (keptType p.2.dataType) p.1 := by
  obtain ⟨values⟩ := r
  obtain ⟨fields⟩ := schema
  have width : values.length = fields.length := valid.1
  clear valid
  rw [readRow, Record.mk.injEq]
  simp only
  induction fields generalizing values with
  | nil =>
    obtain rfl := List.length_eq_zero_iff.mp width
    simp
  | cons f fields ih =>
    cases values with
    | nil => exact nomatch width
    | cons v values =>
      simp only [List.zipWith_cons_cons, List.cons.injEq, List.zip_cons_cons, List.mem_cons,
        forall_eq_or_imp, readCell_eq_iff, ih values (Nat.succ.inj width)]

@[simp] theorem columnValues_length (b : RecordBatch) (i : Nat) :
    (columnValues b i).length = b.records.length := List.length_map _

variable {b : RecordBatch}

theorem column_shown (valid : b.Valid) {i : Nat} {f : Field}
    (here : b.schema.fields[i]? = some f) (strict : f.nullable = false) {v : Value}
    (mem : v ∈ columnValues b i) : v.isNull = false := by
  obtain ⟨r, inside, rfl⟩ := List.mem_map.mp mem
  obtain ⟨width, shown⟩ := valid r inside
  have bound : i < r.values.length := by
    rw [width]
    exact (List.getElem?_eq_some_iff.mp here).1
  have value : r.values[i]? = some (r.getOrNull i) := by
    rw [Record.getOrNull, Record.get, List.getElem?_eq_getElem bound]
    rfl
  have pair := shown (r.getOrNull i, f)
    (List.mem_iff_getElem?.mpr ⟨i, List.getElem?_zip_eq_some.mpr ⟨value, here⟩⟩)
  rw [strict] at pair
  exact Bool.eq_false_iff.mpr fun null => absurd (pair null) Bool.false_ne_true

variable [ArrowCrate]

theorem columnArray_len (laws : ArrowLaws) (type : DataType) (vs : List Value) :
    ArrowCrate.len (columnArray type vs) = if nativeType type ≠ none then vs.length else 0 := by
  cases native : nativeType type with
  | some t =>
    have reads := (column_reads laws native vs).1
    rw [reads, List.length_map]
    rfl
  | none =>
    rw [columnArray, native]
    exact laws.nullLen 0

theorem columnArray_type (laws : ArrowLaws) (type : DataType) (vs : List Value) :
    ArrowCrate.dataType (columnArray type vs) = arrowType type := by
  unfold columnArray
  cases type <;> first | exact laws.typed _ | exact laws.nullTyped 0

theorem arrowColumns_getElem? (i : Nat) : (arrowColumns b)[i]? =
    b.schema.fields[i]?.map fun f => columnArray f.dataType (columnValues b i) := by
  rw [arrowColumns, List.getElem?_mapIdx]

theorem mem_arrowColumns {c : ArrowCrate.Array} (mem : c ∈ arrowColumns b) :
    ∃ i f, b.schema.fields[i]? = some f ∧ c = columnArray f.dataType (columnValues b i) := by
  obtain ⟨i, at'⟩ := List.mem_iff_getElem?.mp mem
  rw [arrowColumns_getElem?, Option.map_eq_some_iff] at at'
  obtain ⟨f, here, rfl⟩ := at'
  exact ⟨i, f, here, rfl⟩

theorem arrowColumns_mem {i : Nat} {f : Field} (here : b.schema.fields[i]? = some f) :
    columnArray f.dataType (columnValues b i) ∈ arrowColumns b := by
  refine List.mem_iff_getElem?.mpr ⟨i, ?_⟩
  rw [arrowColumns_getElem?, here]
  rfl

theorem column_pair {p : ArrowField × ArrowCrate.Array}
    (mem : p ∈ (arrowSchemaFromCore b.schema).zip (arrowColumns b)) :
    ∃ i f, b.schema.fields[i]? = some f ∧ p.1 = ⟨f.name, arrowType f.dataType, f.nullable⟩ ∧
      p.2 = columnArray f.dataType (columnValues b i) := by
  obtain ⟨i, at'⟩ := List.mem_iff_getElem?.mp mem
  obtain ⟨field, column⟩ := List.getElem?_zip_eq_some.mp at'
  rw [arrowSchemaFromCore, List.getElem?_map, Option.map_eq_some_iff] at field
  obtain ⟨f, here, same⟩ := field
  rw [arrowColumns_getElem?, here, Option.map_some, Option.some.injEq] at column
  exact ⟨i, f, here, same.symm, column.symm⟩

theorem columns_acceptable (laws : ArrowLaws) (valid : b.Valid) :
    Acceptable (arrowSchemaFromCore b.schema) (arrowColumns b) ↔
      b.schema.fields ≠ [] ∧ OneLength b := by
  have len (i : Nat) (f : Field) :
      ArrowCrate.len (columnArray f.dataType (columnValues b i)) =
        if Native f then b.records.length else 0 := by
    rw [columnArray_len laws, columnValues_length]
    rfl
  constructor
  · rintro ⟨some', _, _, lengths, _⟩
    refine ⟨fun none' => some' (by rw [arrowColumns, none']; rfl), ?_⟩
    by_contra uneven
    simp only [OneLength, not_or, not_forall, not_not] at uneven
    obtain ⟨rows, ⟨f, memF, nullTyped⟩, g, memG, native⟩ := uneven
    obtain ⟨i, hereF⟩ := List.mem_iff_getElem?.mp memF
    obtain ⟨j, hereG⟩ := List.mem_iff_getElem?.mp memG
    have same := lengths _ (arrowColumns_mem hereF) _ (arrowColumns_mem hereG)
    rw [len, len, if_neg nullTyped, if_pos native] at same
    exact rows (List.length_eq_zero_iff.mp same.symm)
  · rintro ⟨some', uniform⟩
    refine ⟨fun none' => some' ?_, ?_, fun p mem => ?_, fun c memC d memD => ?_, ?_⟩
    · have count : (arrowColumns b).length = b.schema.fields.length := List.length_mapIdx
      rw [none'] at count
      exact List.length_eq_zero_iff.mp count.symm
    · simp [arrowColumns, arrowSchemaFromCore]
    · obtain ⟨i, f, _, field, column⟩ := column_pair mem
      rw [field, column]
      exact columnArray_type laws _ _
    · obtain ⟨i, f, hereF, rfl⟩ := mem_arrowColumns memC
      obtain ⟨j, g, hereG, rfl⟩ := mem_arrowColumns memD
      have memF := List.mem_of_getElem? hereF
      have memG := List.mem_of_getElem? hereG
      rw [len, len]
      rcases uniform with none' | all | never
      · simp [none']
      · rw [if_pos (all f memF), if_pos (all g memG)]
      · rw [if_neg (never f memF), if_neg (never g memG)]
    · intro p mem strict i inside
      obtain ⟨j, f, here, field, column⟩ := column_pair mem
      rw [field] at strict
      rw [column] at inside ⊢
      cases native : nativeType f.dataType with
      | none =>
        rw [len, if_neg (fun other => other native)] at inside
        exact absurd inside (Nat.not_lt_zero i)
      | some t =>
        have holds := laws.stores ((columnValues b j).map (stored t))
        rw [columnArray, native] at inside ⊢
        rw [holds.1] at inside
        have cell := holds.2 i _ (List.getElem?_eq_getElem inside)
        rw [cell.1, List.getElem_map, stored_isNone]
        exact column_shown valid here strict (List.getElem_mem _)

end Batches

section Back

theorem readCell_isNull {type : DataType} (native : nativeType type ≠ none) (v : Value) :
    (readCell type v).isNull = v.isNull := by
  obtain ⟨t, native⟩ := Option.ne_none_iff_exists'.mp native
  rw [readCell, native, ← stored_isNone t v]
  simp only
  cases stored t v with
  | none => rfl
  | some c => cases t <;> rfl

theorem readRow_valid {schema : Schema} {r : Record} (valid : r.Valid schema)
    (native : ∀ f ∈ schema.fields, Native f) :
    (readRow schema r).Valid ⟨schema.fields.map coreField⟩ := by
  obtain ⟨width, shown⟩ := valid
  have length : r.values.length = schema.fields.length := width
  refine ⟨by simp [readRow, Schema.fieldCount, length], fun p mem null => ?_⟩
  obtain ⟨i, at'⟩ := List.mem_iff_getElem?.mp mem
  obtain ⟨value, field⟩ := List.getElem?_zip_eq_some.mp at'
  rw [List.getElem?_map, Option.map_eq_some_iff] at field
  obtain ⟨f, here, same⟩ := field
  obtain ⟨g, v, there, cell, read⟩ := List.getElem?_zipWith_eq_some.mp value
  obtain rfl := Option.some.inj (there.symm.trans here)
  rw [← read, readCell_isNull (native g (List.mem_of_getElem? here))] at null
  rw [← same]
  exact shown (v, g) (List.mem_iff_getElem?.mpr ⟨i, List.getElem?_zip_eq_some.mpr ⟨cell, here⟩⟩)
    null

variable [ArrowCrate] {b : RecordBatch} {rb : ArrowCrate.ArrowRecordBatch}

theorem from_core_made (laws : ArrowLaws) (valid : b.Valid) (ran : arrowFromCore b = .ok rb) :
    (b.schema.fields ≠ [] ∧ OneLength b) ∧
      ArrowCrate.schema rb = arrowSchemaFromCore b.schema ∧ ArrowCrate.columns rb = arrowColumns b ∧
        ∀ c ∈ arrowColumns b, ArrowCrate.numRows rb = ArrowCrate.len c := by
  rw [arrowFromCore_eq valid] at ran
  split at ran
  · rename_i made built
    obtain rfl := Except.ok.inj ran
    exact ⟨(columns_acceptable laws valid).mp ((laws.accepts _ _).mp ⟨_, built⟩),
      laws.made _ _ _ built⟩
  · exact nomatch ran

theorem from_core_ok (laws : ArrowLaws) (valid : b.Valid) (some' : b.schema.fields ≠ [])
    (even : OneLength b) : ∃ rb, arrowFromCore b = .ok rb := by
  obtain ⟨rb, built⟩ :=
    (laws.accepts _ _).mpr ((columns_acceptable laws valid).mpr ⟨some', even⟩)
  exact ⟨rb, by rw [arrowFromCore_eq valid, built]⟩

theorem coreSchema_eq (schema : ArrowCrate.schema rb = arrowSchemaFromCore b.schema) :
    coreSchema rb = ⟨b.schema.fields.map coreField⟩ := by
  rw [coreSchema, schema, arrowSchemaFromCore, List.map_map]
  rfl

def readColumns (b : RecordBatch) : List (List Value) :=
  b.schema.fields.mapIdx fun i f => (columnValues b i).map (readCell f.dataType)

theorem rows_back (valid : b.Valid) (native : ∀ f ∈ b.schema.fields, Native f)
    (schema : ArrowCrate.schema rb = arrowSchemaFromCore b.schema)
    (reads : List.Forall₂ Reads (ArrowCrate.columns rb) (readColumns b))
    (rows : ∀ c ∈ ArrowCrate.columns rb, ArrowCrate.numRows rb = ArrowCrate.len c)
    (count : ArrowCrate.numRows rb = b.records.length) :
    arrowToCore rb = .ok ⟨⟨b.schema.fields.map coreField⟩, b.records.map (readRow b.schema)⟩ := by
  have records : ((List.range (ArrowCrate.numRows rb)).map fun row =>
      (⟨(readColumns b).map fun vs => vs[row]?.getD .null⟩ : Record)) =
        b.records.map (readRow b.schema) := by
    rw [count]
    refine List.ext_getElem (by simp) fun row low high => ?_
    have inside : row < b.records.length := by simpa using high
    have width : (b.records[row]).values.length = b.schema.fields.length :=
      (valid _ (List.getElem_mem inside)).1
    simp only [List.getElem_map, List.getElem_range, readRow, Record.mk.injEq]
    refine List.ext_getElem (by simp [readColumns, width]) fun i low high => ?_
    have bound : i < (b.records[row]).values.length := by
      simp at high
      omega
    simp [readColumns, columnValues, Record.getOrNull, Record.get, inside, bound]
  rw [arrowToCore_eq reads rows, coreSchema_eq schema, records]
  refine fromRecords_of_valid fun r mem => ?_
  obtain ⟨old, inside, rfl⟩ := List.mem_map.mp mem
  exact readRow_valid (valid old inside) native

theorem arrowColumns_read (laws : ArrowLaws) (native : ∀ f ∈ b.schema.fields, Native f) :
    List.Forall₂ Reads (arrowColumns b) (readColumns b) := by
  rw [List.forall₂_iff_get]
  refine ⟨by simp [arrowColumns, readColumns], fun i low high => ?_⟩
  simp only [arrowColumns, readColumns, List.get_eq_getElem, List.getElem_mapIdx]
  have inside : i < b.schema.fields.length := by simpa [readColumns] using high
  obtain ⟨t, found⟩ := Option.ne_none_iff_exists'.mp (native _ (List.getElem_mem inside))
  exact column_reads laws found _

theorem native_count (laws : ArrowLaws) (valid : b.Valid) (ran : arrowFromCore b = .ok rb)
    (native : ∀ f ∈ b.schema.fields, Native f) : ArrowCrate.numRows rb = b.records.length := by
  obtain ⟨⟨some', _⟩, _, _, rows⟩ := from_core_made laws valid ran
  obtain ⟨f, fields, same⟩ := List.exists_cons_of_ne_nil some'
  have first : b.schema.fields[0]? = some f := by rw [same]; rfl
  have kept : nativeType f.dataType ≠ none := native f (List.mem_of_getElem? first)
  rw [rows _ (arrowColumns_mem first), columnArray_len laws, if_pos kept,
    columnValues_length]

theorem back_native (laws : ArrowLaws) (valid : b.Valid) (ran : arrowFromCore b = .ok rb)
    (native : ∀ f ∈ b.schema.fields, Native f) :
    arrowToCore rb = .ok ⟨⟨b.schema.fields.map coreField⟩, b.records.map (readRow b.schema)⟩ := by
  obtain ⟨_, schema, columns, rows⟩ := from_core_made laws valid ran
  exact rows_back valid native schema (columns ▸ arrowColumns_read laws native)
    (fun c mem => rows c (columns ▸ mem)) (native_count laws valid ran native)

theorem no_rows_back (schema : ArrowCrate.schema rb = arrowSchemaFromCore b.schema)
    (empty : ArrowCrate.numRows rb = 0) :
    arrowToCore rb = .ok ⟨⟨b.schema.fields.map coreField⟩, []⟩ := by
  rw [arrowToCore, empty, coreSchema_eq schema]
  rfl

/-- A column of NULLs has no length, and no row comes back beside it. -/
theorem back_null (laws : ArrowLaws) (valid : b.Valid) (ran : arrowFromCore b = .ok rb)
    (nullTyped : ∃ f ∈ b.schema.fields, ¬ Native f) :
    arrowToCore rb = .ok ⟨⟨b.schema.fields.map coreField⟩, []⟩ := by
  obtain ⟨_, schema, _, rows⟩ := from_core_made laws valid ran
  obtain ⟨f, mem, none'⟩ := nullTyped
  obtain ⟨i, here⟩ := List.mem_iff_getElem?.mp mem
  have empty : ArrowCrate.numRows rb = 0 := by
    rw [rows _ (arrowColumns_mem here), columnArray_len laws]
    exact if_neg none'
  exact no_rows_back schema empty

end Back

section Laws

def plainTypes : List DataType := [.boolean, .int32, .int64, .float32, .float64, .string]

def OwnVariants (b : RecordBatch) : Prop :=
  ∀ r ∈ b.records, ∀ p ∈ r.values.zip b.schema.fields, Fits (keptType p.2.dataType) p.1

theorem rows_kept_iff {b : RecordBatch} (valid : b.Valid) :
    b.records.map (readRow b.schema) = b.records ↔ OwnVariants b := by
  have each : b.records.map (readRow b.schema) = b.records ↔
      ∀ r ∈ b.records, readRow b.schema r = r := by
    nth_rewrite 2 [← List.map_id b.records]
    exact List.map_inj_left
  rw [each]
  exact forall₂_congr fun r mem => readRow_eq_iff (valid r mem)

instance (b : RecordBatch) : Decidable (OwnVariants b) :=
  inferInstanceAs (Decidable (∀ r ∈ _, ∀ p ∈ _, _))

variable [ArrowCrate]

/-- A batch of values of the six plain types is the same after it was columns. -/
theorem arrow_round_trip (laws : ArrowLaws) (b : RecordBatch) (valid : b.Valid)
    (some' : b.schema.fields ≠ []) (plain : ∀ f ∈ b.schema.fields, f.dataType ∈ plainTypes)
    (typed : Typed b b.schema) : ∃ a, arrowFromCore b = .ok a ∧ arrowToCore a = .ok b := by
  have kept (f : Field) (mem : f ∈ b.schema.fields) :
      Native f ∧ keptType f.dataType = f.dataType ∧ coreField f = f := by
    have type := plain f mem
    obtain ⟨name, dataType, nullable⟩ := f
    simp only [plainTypes, List.mem_cons, List.not_mem_nil, or_false] at type
    rcases type with rfl | rfl | rfl | rfl | rfl | rfl <;> exact ⟨nofun, rfl, rfl⟩
  have native (f : Field) (mem : f ∈ b.schema.fields) : Native f := (kept f mem).1
  obtain ⟨a, made⟩ := from_core_ok laws valid some' (Or.inr (Or.inl native))
  have fields : b.schema.fields.map coreField = b.schema.fields :=
    (List.map_congr_left fun f mem => (kept f mem).2.2).trans (List.map_id _)
  have rows : b.records.map (readRow b.schema) = b.records := by
    rw [rows_kept_iff valid]
    intro r mem p inside
    rw [(kept p.2 (List.of_mem_zip inside).2).2.1]
    exact typed r mem p inside
  refine ⟨a, made, ?_⟩
  rw [back_native laws valid made native, fields, rows]

/-- No table of columns: there is none, or one of NULLs stands beside another over rows. -/
def Refused (b : RecordBatch) : Prop := b.schema.fields = [] ∨ ¬ OneLength b

/-- What a conversion to columns accepts comes back with the same values exactly if it has no
    rows, or no column of NULLs and only values of the variants that its builders keep. -/
theorem values_kept_iff (laws : ArrowLaws) (b : RecordBatch) (valid : b.Valid) :
    (∀ a, arrowFromCore b = .ok a → ∃ c, arrowToCore a = .ok c ∧ c.records = b.records) ↔
      Refused b ∨ b.records = [] ∨ ((∀ f ∈ b.schema.fields, Native f) ∧ OwnVariants b) := by
  constructor
  · intro same
    by_cases refused : Refused b
    · exact Or.inl refused
    obtain ⟨some', even⟩ := not_or.mp refused
    obtain ⟨a, made⟩ := from_core_ok laws valid some' (not_not.mp even)
    obtain ⟨c, back, rows⟩ := same a made
    by_cases native : ∀ f ∈ b.schema.fields, Native f
    · rw [back_native laws valid made native] at back
      obtain rfl := Except.ok.inj back
      exact Or.inr (Or.inr ⟨native, (rows_kept_iff valid).mp rows⟩)
    · simp only [not_forall] at native
      obtain ⟨f, mem, none'⟩ := native
      rw [back_null laws valid made ⟨f, mem, none'⟩] at back
      obtain rfl := Except.ok.inj back
      exact Or.inr (Or.inl rows.symm)
  · intro kept a made
    obtain ⟨some', even⟩ := (from_core_made laws valid made).1
    by_cases native : ∀ f ∈ b.schema.fields, Native f
    · refine ⟨_, back_native laws valid made native, (?_ : List.map _ _ = _)⟩
      rcases kept with refused | none' | ⟨_, own⟩
      · exact (refused.elim some' fun uneven => uneven even).elim
      · rw [none']
        rfl
      · exact (rows_kept_iff valid).mpr own
    · simp only [not_forall] at native
      obtain ⟨f, mem, none'⟩ := native
      refine ⟨_, back_null laws valid made ⟨f, mem, none'⟩, ?_⟩
      rcases kept with refused | empty | ⟨all, _⟩
      · exact (refused.elim some' fun uneven => uneven even).elim
      · exact empty.symm
      · exact absurd (all f mem) none'

end Laws

section Witness

inductive ListArray where
  | native (t : NativeType) (cells : List (Option t.Carrier))
  | nulls (n : Nat)

def NativeType.zero : (t : NativeType) → t.Carrier
  | .boolean => false
  | .int32 => 0
  | .int64 => 0
  | .float32 => FloatText.scientific32 0 0
  | .float64 => FloatText.scientific64 0 0
  | .utf8 => ""

def ListArray.dataType : ListArray → ArrowDataType
  | .native t _ => t.arrow
  | .nulls _ => .null

def ListArray.len : ListArray → Nat
  | .native _ cells => cells.length
  | .nulls n => n

def ListArray.isNull : ListArray → Nat → Bool
  | .native _ cells, i => (cells[i]?.getD none).isNone
  | .nulls _, _ => false

def ListArray.downcast (t : NativeType) : ListArray → Option (List (Option t.Carrier))
  | .native t' cells => if same : t' = t then some (same ▸ cells) else none
  | .nulls _ => none

structure ListBatch where
  schema : ArrowSchema
  columns : List ListArray

def listAcceptable (schema : ArrowSchema) (columns : List ListArray) : Bool :=
  !columns.isEmpty && columns.length = schema.length &&
    (schema.zip columns).all (fun p => p.2.dataType = p.1.dataType) &&
    columns.all (fun c => columns.all fun d => c.len = d.len) &&
    (schema.zip columns).all fun p =>
      p.1.nullable || (List.range p.2.len).all fun i => !p.2.isNull i

@[reducible] def listArrow : ArrowCrate where
  Builder t := List (Option t.Carrier)
  builder _ := []
  appendValue b v := b ++ [some v]
  appendNull b := b ++ [none]
  Native t := List (Option t.Carrier)
  finish b := b
  value {t} a i := (a[i]?.getD none).getD (NativeType.zero t)
  Array := ListArray
  array {t} a := .native t a
  downcast := ListArray.downcast
  nullArray := .nulls
  dataType := ListArray.dataType
  len := ListArray.len
  isNull := ListArray.isNull
  ArrowRecordBatch := ListBatch
  tryNew schema columns :=
    if listAcceptable schema columns then .ok ⟨schema, columns⟩
    else .error "Invalid argument error: all columns in a record batch must have the same length"
  schema := ListBatch.schema
  columns := ListBatch.columns
  numRows rb := (rb.columns.head?.map ListArray.len).getD 0

theorem appendOption_list {t : NativeType} (b : List (Option t.Carrier))
    (c : Option t.Carrier) : @appendOption listArrow t b c = b ++ [c] := by
  cases c <;> rfl

theorem stores_list {t : NativeType} (cells held : List (Option t.Carrier)) :
    cells.foldl (@appendOption listArrow t) held = held ++ cells := by
  induction cells generalizing held with
  | nil => exact (List.append_nil held).symm
  | cons c cells ih => rw [List.foldl_cons, ih, appendOption_list, List.append_assoc]; rfl

theorem listAcceptable_iff (schema : ArrowSchema) (columns : List ListArray) :
    listAcceptable schema columns = true ↔ @Acceptable listArrow schema columns := by
  have nulls (p : ArrowField × ListArray) :
      (p.1.nullable || (List.range p.2.len).all fun i => !p.2.isNull i) = true ↔
        (p.1.nullable = false → ∀ i < p.2.len, p.2.isNull i = false) := by
    cases p.1.nullable <;> simp
  simp only [listAcceptable, Bool.and_eq_true, Bool.not_eq_true', List.isEmpty_eq_false_iff,
    decide_eq_true_eq, List.all_eq_true, nulls]
  constructor
  · rintro ⟨⟨⟨⟨some', count⟩, types⟩, lengths⟩, strict⟩
    exact @Acceptable.mk listArrow schema columns some' count types lengths strict
  · intro good
    exact ⟨⟨⟨⟨@Acceptable.some' listArrow _ _ good, @Acceptable.count listArrow _ _ good⟩,
      @Acceptable.types listArrow _ _ good⟩, @Acceptable.lengths listArrow _ _ good⟩,
      @Acceptable.nulls listArrow _ _ good⟩

theorem holds_list {t : NativeType} (cells : List (Option t.Carrier)) :
    @Holds listArrow t cells cells := by
  refine ⟨rfl, fun i cell here => ⟨?_, fun v mem => ?_⟩⟩
  · show (cells[i]?.getD none).isNone = cell.isNone
    rw [here]
    rfl
  · show (cells[i]?.getD none).getD (NativeType.zero t) = v
    rw [here, Option.getD_some, Option.mem_def.mp mem]
    rfl

theorem listArrow_laws : @ArrowLaws listArrow := by
  refine @ArrowLaws.mk listArrow ?_ ?_ ?_ ?_ ?_ ?_ ?_
  · intro t cells
    have all : cells.foldl (@appendOption listArrow t) [] = cells := stores_list cells []
    show @Holds listArrow t (cells.foldl (@appendOption listArrow t) []) cells
    rw [all]
    exact holds_list cells
  · intro t a
    exact dif_pos rfl
  · exact fun a => rfl
  · exact fun n => rfl
  · exact fun n => rfl
  · intro schema columns
    rw [← listAcceptable_iff]
    by_cases good : listAcceptable schema columns = true
    · exact iff_of_true ⟨⟨schema, columns⟩, if_pos good⟩ good
    · refine iff_of_false (fun ⟨rb, made⟩ => ?_) good
      exact nomatch (if_neg good).symm.trans made
  · intro schema columns rb made
    by_cases good : listAcceptable schema columns = true
    · obtain rfl := Except.ok.inj ((if_pos good).symm.trans made)
      have lengths := @Acceptable.lengths listArrow _ _
        ((listAcceptable_iff schema columns).mp good)
      refine ⟨rfl, rfl, fun c mem => ?_⟩
      obtain ⟨d, rest, same⟩ := List.exists_cons_of_ne_nil (List.ne_nil_of_mem mem)
      have first : d ∈ columns := by rw [same]; exact List.mem_cons_self
      show (columns.head?.map ListArray.len).getD 0 = c.len
      rw [same]
      exact lengths d first c mem
    · exact nomatch (if_neg good).symm.trans made

def namesSchema : Schema := ⟨[.notNull "id" .int64, .new "name" .string]⟩

def names : RecordBatch :=
  ⟨namesSchema, [⟨[.int64 1, .string "ant"]⟩, ⟨[.int64 2, .null]⟩]⟩

theorem names_round_trip :
    ∃ a, @arrowFromCore listArrow names = .ok a ∧ @arrowToCore listArrow a = .ok names :=
  @arrow_round_trip listArrow listArrow_laws names (by decide) (by decide) (by decide)
    (by unfold Typed; decide)

def nameColumns : ListBatch :=
  ⟨[⟨"id", .int64, false⟩, ⟨"name", .utf8, true⟩],
    [.native .int64 [some 1, some 2], .native .utf8 [some "ant", none]]⟩

theorem names_kept :
    ∃ c, @arrowToCore listArrow nameColumns = .ok c ∧ c.records = names.records :=
  (@values_kept_iff listArrow listArrow_laws names (by decide)).mpr
    (Or.inr (Or.inr ⟨by decide, by decide⟩)) nameColumns rfl

def wordIds : RecordBatch := ⟨⟨[.new "id" .int64]⟩, [⟨[.string "abc"]⟩]⟩

def wordColumns : ListBatch := ⟨[⟨"id", .int64, true⟩], [.native .int64 [some 0]]⟩

/-- The word comes back as zero. -/
theorem word_becomes_zero : ¬ ∀ (b : RecordBatch) (a : ListBatch), b.Valid →
    @arrowFromCore listArrow b = .ok a →
      ∃ c, @arrowToCore listArrow a = .ok c ∧ c.records = b.records := by
  intro claim
  obtain ⟨c, back, same⟩ := claim wordIds wordColumns (by decide) rfl
  have zero : @arrowToCore listArrow wordColumns =
      .ok ⟨⟨[.new "id" .int64]⟩, [⟨[.int64 0]⟩]⟩ := rfl
  obtain rfl := Except.ok.inj (zero.symm.trans back)
  exact absurd same (by decide)

end Witness

end RSparkArrowRoundTrip
