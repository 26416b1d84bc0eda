import RSpark.Clauses
import RSpark.JoinLaw
import RSpark.NestedJoin

/- What joining two batches on the names they share computes, and when the join of all left
   records can be built. -/
namespace RSparkJoinRows
open RSparkValue RSparkBatch RSparkPlan RSparkOperators RSparkPlanner RSparkClauses RSparkJoinLaw
open NestedJoin

section Reference

def agrees (left right : RecordBatch) (l r : Record) : Bool :=
  (left.schema.fieldNames.filter (· ∈ right.schema.fieldNames)).all fun name =>
    (cell left l name).partialEq (cell right r name)

def ownFields (left right : Schema) : List Field :=
  right.fields.filter (·.name ∉ left.fieldNames)

def ownValues (left right : Schema) (r : Record) : List Value :=
  ((right.fields.zip r.values).filter fun p => p.1.name ∉ left.fieldNames).map Prod.snd

def outputRow (left right : Schema) : Record × Option Record → Record
  | (l, some r) => ⟨l.values ++ ownValues left right r⟩
  | (l, none) => ⟨l.values ++ (ownFields left right).map fun _ => .null⟩

def innerRows (left right : RecordBatch) : List Record :=
  (inner (agrees left right) left.records right.records).map fun p =>
    outputRow left.schema right.schema (p.1, some p.2)

def leftRows (left right : RecordBatch) : List Record :=
  (leftOuter (agrees left right) left.records right.records).map
    (outputRow left.schema right.schema)

end Reference

section Rows
variable {left right : RecordBatch} {l r : Record}

theorem pairHolds_shared {name : String} (inLeft : name ∈ left.schema.fieldNames)
    (inRight : name ∈ right.schema.fieldNames) :
    pairHolds left.schema right.schema l r (name, name) =
      (cell left l name).partialEq (cell right r name) := by
  obtain ⟨i, foundL⟩ := indexOf_of_mem inLeft
  obtain ⟨j, foundR⟩ := indexOf_of_mem inRight
  simp only [pairHolds, cell, foundL, foundR, Option.map_some, Option.getD_some]

theorem joinCond_eq_agrees (left right : RecordBatch) (l r : Record) :
    joinCond left.schema right.schema (joinPairs left.schema right.schema) l r =
      agrees left right l r := by
  rw [Bool.eq_iff_iff, joinCond, agrees, List.all_eq_true, List.all_eq_true]
  constructor
  · intro holds name mem
    obtain ⟨inLeft, inRight⟩ := List.mem_filter.mp mem
    have shared := of_decide_eq_true inRight
    rw [← pairHolds_shared inLeft shared]
    exact holds _ (mem_joinPairs.mpr ⟨name, rfl, inLeft, shared⟩)
  · intro holds p mem
    obtain ⟨name, rfl, inLeft, inRight⟩ := mem_joinPairs.mp mem
    rw [pairHolds_shared inLeft inRight]
    exact holds name (List.mem_filter.mpr ⟨inLeft, by simpa using inRight⟩)

theorem kept_eq_ownFields (sA sB : Schema) :
    sB.fields.filter (keptRightField (joinPairs sA sB)) = ownFields sA sB := by
  refine List.filter_congr fun f inB => ?_
  rw [Bool.eq_iff_iff]
  constructor
  · intro kept
    simpa using mem_leftNames_of_not_kept inB kept
  · intro foreign
    have absent : ∀ p ∈ joinPairs sA sB, p.1 ≠ f.name := by
      intro p mem same
      obtain ⟨name, rfl, inA, _⟩ := mem_joinPairs.mp mem
      obtain rfl : name = f.name := same
      exact of_decide_eq_true foreign inA
    simpa [keptRightField] using fun a b mem => absent (a, b) mem

theorem values_eq_keptValue {schema : Schema} (distinct : schema.fieldNames.Nodup)
    (valid : r.Valid schema) : r.values = schema.fields.map (keptValue schema r) := by
  refine List.ext_getElem (by rw [List.length_map]; exact valid.1) fun i low high => ?_
  have width : r.values.length = schema.fields.length := valid.1
  have bound : i < schema.fields.length := width ▸ low
  have known : schema.fields[i].name ∈ schema.fieldNames :=
    List.mem_map_of_mem (List.getElem_mem bound)
  obtain ⟨j, found⟩ := indexOf_of_mem known
  obtain ⟨f, there, same, _⟩ := indexOf_field found
  obtain ⟨boundJ, rfl⟩ := List.getElem?_eq_some_iff.mp there
  have inside : i < schema.fieldNames.length := by simpa [Schema.fieldNames] using bound
  have insideJ : j < schema.fieldNames.length := by simpa [Schema.fieldNames] using boundJ
  have same' : schema.fieldNames[j] = schema.fieldNames[i] := by
    simpa [Schema.fieldNames] using same
  have place : j = i := (List.Nodup.getElem_inj_iff distinct).mp same'
  subst place
  simp [keptValue, found, Record.getOrNull, Record.get, List.getElem?_eq_getElem low]

theorem ownValues_eq {sA sB : Schema} (distinct : sB.fieldNames.Nodup) (valid : r.Valid sB) :
    ownValues sA sB r = (ownFields sA sB).map (keptValue sB r) := by
  have zipped : sB.fields.zip r.values = sB.fields.map fun f => (f, keptValue sB r f) := by
    conv_lhs => rw [values_eq_keptValue distinct valid]
    simpa using List.zip_map' (f := id) (g := keptValue sB r) (l := sB.fields)
  rw [ownValues, zipped, List.filter_map, List.map_map]
  rfl

theorem joinedRow_eq_output (distinct : right.schema.fieldNames.Nodup)
    (valid : r.Valid right.schema) :
    joinedRow right.schema (joinPairs left.schema right.schema) l r =
      outputRow left.schema right.schema (l, some r) := by
  rw [joinedRow_eq, outputRow, kept_eq_ownFields, ownValues_eq distinct valid]

theorem paddedRow_eq_output (l : Record) :
    paddedRow right.schema (joinPairs left.schema right.schema) l =
      outputRow left.schema right.schema (l, none) := by
  rw [paddedRow, outputRow, kept_eq_ownFields]

end Rows

section Loops
variable (left right : RecordBatch) (pairs : List (String × String))

def builtRow (right : Schema) (pairs : List (String × String)) : Record × Option Record → Record
  | (l, some r) => joinedRow right pairs l r
  | (l, none) => paddedRow right pairs l

theorem joinRowsOf_left (l : Record) :
    joinRowsOf left right pairs .left l =
      (pairedOrAlone l (partners (joinCond left.schema right.schema pairs) right.records l)).map
        (builtRow right.schema pairs) := by
  rw [joinRowsOf, partners]
  simp only [and_true]
  cases right.records.filter (joinCond left.schema right.schema pairs l) with
  | nil => rfl
  | cons r rest =>
    rw [if_neg (by simp), pairedOrAlone, List.map_map]
    rfl

theorem joinBatches_left :
    joinBatches left right pairs .left =
      RecordBatch.fromRecords (joinSchema left.schema right.schema pairs)
        ((leftOuter (joinCond left.schema right.schema pairs) left.records right.records).map
          (builtRow right.schema pairs)) := by
  have rows : left.records.flatMap (joinRowsOf left right pairs .left) =
      (leftOuter (joinCond left.schema right.schema pairs) left.records right.records).map
        (builtRow right.schema pairs) := by
    rw [leftOuter, List.map_flatMap]
    exact List.flatMap_congr fun l _ => joinRowsOf_left left right pairs l
  rw [joinBatches, if_neg (by simp), rows]

theorem joinBatches_inner :
    joinBatches left right pairs .inner =
      RecordBatch.fromRecords (joinSchema left.schema right.schema pairs)
        ((inner (joinCond left.schema right.schema pairs) left.records right.records).map
          fun p => builtRow right.schema pairs (p.1, some p.2)) := by
  have rows : left.records.flatMap (joinRowsOf left right pairs .inner) =
      (inner (joinCond left.schema right.schema pairs) left.records right.records).map
        fun p => builtRow right.schema pairs (p.1, some p.2) := by
    rw [inner_eq_flatMap, List.map_flatMap]
    refine List.flatMap_congr fun l _ => ?_
    rw [joinRowsOf, if_neg (by simp), List.map_map]
    rfl
  rw [joinBatches, if_neg (by simp), rows]

end Loops

section Law
variable {left right : RecordBatch}

theorem joinCond_agrees (left right : RecordBatch) :
    joinCond left.schema right.schema (joinPairs left.schema right.schema) =
      agrees left right := by
  funext l r
  exact joinCond_eq_agrees left right l r

theorem builtRow_eq_output (distinct : right.schema.fieldNames.Nodup) (valid : right.Valid)
    {p : Record × Option Record} (known : ∀ r ∈ p.2, r ∈ right.records) :
    builtRow right.schema (joinPairs left.schema right.schema) p =
      outputRow left.schema right.schema p := by
  obtain ⟨l, o⟩ := p
  cases o with
  | none => exact paddedRow_eq_output l
  | some r => exact joinedRow_eq_output distinct (valid r (known r rfl))

theorem partner_known {m : Record → Record → Bool} {p : Record × Option Record}
    (mem : p ∈ leftOuter m left.records right.records) : ∀ r ∈ p.2, r ∈ right.records := by
  obtain ⟨_, ⟨r, known, _, same⟩ | ⟨_, alone⟩⟩ := (mem_leftOuter m).mp mem
  · intro r' inside
    rw [same] at inside
    obtain rfl := Option.some.inj inside
    exact known
  · intro r' inside
    rw [alone] at inside
    cases inside

theorem innerRows_sublist (left right : RecordBatch) :
    (innerRows left right).Sublist (leftRows left right) := by
  have matched : innerRows left right =
      ((leftOuter (agrees left right) left.records right.records).filter (·.2.isSome)).map
        (outputRow left.schema right.schema) := by
    rw [leftOuter_matched, List.map_map]
    rfl
  rw [matched, leftRows]
  exact List.filter_sublist.map _

theorem outputRow_left (validL : left.Valid) {p : Record × Option Record}
    (mem : p ∈ leftOuter (agrees left right) left.records right.records) :
    (outputRow left.schema right.schema p).values.take left.schema.fieldCount = p.1.values := by
  have width : p.1.values.length = left.schema.fieldCount :=
    (validL p.1 ((mem_leftOuter _).mp mem).1).1
  obtain ⟨l, o⟩ := p
  cases o with
  | none => exact List.take_left' width
  | some r => exact List.take_left' width

theorem outputRow_valid (validL : left.Valid) (validR : right.Valid)
    (distinct : right.schema.fieldNames.Nodup)
    (nullable : ∀ f ∈ right.schema.fields, f.nullable = true)
    {p : Record × Option Record}
    (mem : p ∈ leftOuter (agrees left right) left.records right.records) :
    (outputRow left.schema right.schema p).Valid
      (joinSchema left.schema right.schema (joinPairs left.schema right.schema)) := by
  have valid := validL p.1 ((mem_leftOuter _).mp mem).1
  have known := partner_known mem
  obtain ⟨l, o⟩ := p
  cases o with
  | none =>
    rw [outputRow, ← kept_eq_ownFields]
    exact (extended_valid_iff valid _).mpr fun f inB _ _ => nullable f inB
  | some r =>
    rw [outputRow, ownValues_eq distinct (validR r (known r rfl)), ← kept_eq_ownFields]
    exact (extended_valid_iff valid _).mpr fun f inB _ _ => nullable f inB

/-- A join on the shared names: the rows of the records that agree, and for LEFT a padded row
    in the place of each record without a partner. Each left record is there as often as it has
    partners, and once if it has none. -/
theorem join_batches_rows (left right : RecordBatch) (validL : left.Valid) (validR : right.Valid)
    (distinct : right.schema.fieldNames.Nodup)
    (nullable : ∀ f ∈ right.schema.fields, f.nullable = true) :
    ∃ schema, buildJoinSchema left.schema right.schema
        (joinPairs left.schema right.schema) = .ok schema ∧
      schema.fields = left.schema.fields ++ ownFields left.schema right.schema ∧
      joinBatches left right (joinPairs left.schema right.schema) .inner =
        .ok ⟨schema, innerRows left right⟩ ∧
      joinBatches left right (joinPairs left.schema right.schema) .left =
        .ok ⟨schema, leftRows left right⟩ ∧
      (innerRows left right).Sublist (leftRows left right) ∧
      (leftRows left right).map (fun row => row.values.take left.schema.fieldCount) =
        left.records.flatMap fun l => List.replicate
          (max 1 (partners (agrees left right) right.records l).length) l.values := by
  have valid : ∀ row ∈ leftRows left right, row.Valid
      (joinSchema left.schema right.schema (joinPairs left.schema right.schema)) := by
    intro row mem
    obtain ⟨p, inside, rfl⟩ := List.mem_map.mp mem
    exact outputRow_valid validL validR distinct nullable inside
  refine ⟨_, rfl, ?_, ?_, ?_, innerRows_sublist left right, ?_⟩
  · rw [joinSchema, kept_eq_ownFields]
  · have rows : (inner (agrees left right) left.records right.records).map (fun p =>
        builtRow right.schema (joinPairs left.schema right.schema) (p.1, some p.2)) =
        innerRows left right := by
      refine List.map_congr_left fun p mem => builtRow_eq_output distinct validR ?_
      intro r same
      obtain rfl := Option.some.inj same
      exact (List.mem_product.mp (List.mem_of_mem_filter mem)).2
    rw [joinBatches_inner, joinCond_agrees, rows]
    exact fromRecords_of_valid fun row mem =>
      valid row ((innerRows_sublist left right).subset mem)
  · have rows : (leftOuter (agrees left right) left.records right.records).map
        (builtRow right.schema (joinPairs left.schema right.schema)) = leftRows left right :=
      List.map_congr_left fun p mem => builtRow_eq_output distinct validR (partner_known mem)
    rw [joinBatches_left, joinCond_agrees, rows]
    exact fromRecords_of_valid valid
  · have lefts := congrArg (List.map Record.values)
      (leftOuter_lefts (agrees left right) left.records right.records)
    rw [List.map_map, List.map_flatMap] at lefts
    simp only [List.map_replicate] at lefts
    rw [leftRows, List.map_map, ← lefts]
    exact List.map_congr_left fun p mem => outputRow_left validL mem

end Law

section Padding

/-- Where a left record has no partner, the columns that it lacks take NULL. A column that repeats
    a name takes the values of the first column of that name, NULLs included. -/
structure TakesNulls (left right : RecordBatch) (pairs : List (String × String)) : Prop where
  alone : ∀ l ∈ left.records,
    (∀ r ∈ right.records, joinCond left.schema right.schema pairs l r = false) →
    ∀ f ∈ right.schema.fields, keptRightField pairs f = true → f.nullable = true
  repeated : ∀ l ∈ left.records, ∀ r ∈ right.records,
    joinCond left.schema right.schema pairs l r = true →
    ∀ f ∈ right.schema.fields, keptRightField pairs f = true →
      (cell right r f.name).isNull = true → f.nullable = true

theorem keptValue_eq_cell (right : RecordBatch) (r : Record) (f : Field) :
    keptValue right.schema r f = cell right r f.name := by
  rw [keptValue, cell]
  cases right.schema.indexOf f.name with
  | none => rfl
  | some j => rfl

/-- The join of all left records is built exactly if no NULL meets a column that takes none. -/
theorem left_join_built_iff (left right : RecordBatch) (pairs : List (String × String))
    (validL : left.Valid) :
    (joinBatches left right pairs .left).isOk = true ↔ TakesNulls left right pairs := by
  have built : (joinBatches left right pairs .left).isOk = true ↔
      ∀ p ∈ leftOuter (joinCond left.schema right.schema pairs) left.records right.records,
        (builtRow right.schema pairs p).Valid (joinSchema left.schema right.schema pairs) := by
    rw [joinBatches_left, Listing.isOk_iff]
    simp only [fromRecords_eq_ok, exists_eq_left, List.forall_mem_map]
  rw [built]
  constructor
  · intro valid
    constructor
    · intro l inLeft lonely f inRight kept
      have row := valid (l, none) ((mem_leftOuter _).mpr ⟨inLeft, Or.inr ⟨lonely, rfl⟩⟩)
      exact (extended_valid_iff (validL l inLeft) _).mp row f inRight kept rfl
    · intro l inLeft r inRight' holds f inRight kept isNull
      have row := valid (l, some r)
        ((mem_leftOuter _).mpr ⟨inLeft, Or.inl ⟨r, inRight', holds, rfl⟩⟩)
      rw [builtRow, joinedRow_eq] at row
      refine (extended_valid_iff (validL l inLeft) _).mp row f inRight kept ?_
      rw [keptValue_eq_cell]
      exact isNull
  · rintro takes ⟨l, o⟩ mem
    obtain ⟨inLeft, ⟨r, inRight', holds, rfl⟩ | ⟨lonely, rfl⟩⟩ := (mem_leftOuter _).mp mem
    · rw [builtRow, joinedRow_eq]
      refine (extended_valid_iff (validL l inLeft) _).mpr fun f inRight kept isNull => ?_
      rw [keptValue_eq_cell] at isNull
      exact takes.repeated l inLeft r inRight' holds f inRight kept isNull
    · exact (extended_valid_iff (validL l inLeft) _).mpr fun f inRight kept _ =>
        takes.alone l inLeft lonely f inRight kept

end Padding

section Witness

def members : RecordBatch :=
  ⟨⟨[.notNull "id" .int64, .new "name" .string]⟩,
    [⟨[.int64 1, .string "ann"]⟩, ⟨[.int64 2, .string "bob"]⟩]⟩

def homes (town : Field) : RecordBatch :=
  ⟨⟨[.new "id" .int64, town]⟩,
    [⟨[.int64 1, .string "oslo"]⟩, ⟨[.int64 3, .string "rome"]⟩]⟩

theorem members_joined :
    ∃ schema, joinBatches members (homes (.new "town" .string))
        (joinPairs members.schema (homes (.new "town" .string)).schema) .left =
      .ok ⟨schema, [⟨[.int64 1, .string "ann", .string "oslo"]⟩,
        ⟨[.int64 2, .string "bob", .null]⟩]⟩ := by
  obtain ⟨schema, _, _, _, joined, _⟩ := join_batches_rows members
    (homes (.new "town" .string)) (by decide) (by decide) (by decide) (by decide)
  refine ⟨schema, joined.trans ?_⟩
  have rows : leftRows members (homes (.new "town" .string)) =
      [⟨[.int64 1, .string "ann", .string "oslo"]⟩, ⟨[.int64 2, .string "bob", .null]⟩] := by
    decide
  rw [rows]

theorem members_padded :
    (joinBatches members (homes (.new "town" .string)) [("id", "id")] .left).isOk = true := by
  refine (left_join_built_iff members (homes (.new "town" .string)) [("id", "id")]
    (by decide)).mpr ⟨?_, ?_⟩
  · intro l _ _
    decide
  · intro l _ r _ _ f mem _ _
    have nullable : ∀ f ∈ (homes (.new "town" .string)).schema.fields, f.nullable = true := by
      decide
    exact nullable f mem

/-- The town of a member without one is NULL, which the column does not take. -/
theorem unknown_town_refused :
    ¬ ∀ (left right : RecordBatch) (pairs : List (String × String)), left.Valid → right.Valid →
      (joinBatches left right pairs .left).isOk = true := by
  intro claim
  have ran := claim members (homes (.notNull "town" .string)) [("id", "id")] (by decide)
    (by decide)
  exact absurd ran (by decide)

end Witness

end RSparkJoinRows
