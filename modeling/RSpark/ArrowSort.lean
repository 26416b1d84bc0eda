import RSpark.ArrowRoundTrip

/- Sorting by one column of integers: the columnar kernel against the sort of rows. -/
namespace RSparkArrowSort
open RSparkValue RSparkBatch RSparkExpr RSparkPlan RSparkOperators RSparkValueKinds
open RSparkArrowBatch RSparkArrowRoundTrip

section Crate

structure SortOptions where
  descending : Bool
  nullsFirst : Bool
  deriving DecidableEq, Repr

/-- The foreign kernels: the order in which a column's rows are to be taken, and the taking. -/
class ArrowKernels [ArrowCrate] where
  sortToIndices : ArrowCrate.Array → SortOptions → Except String (List Nat)
  takeRecordBatch : ArrowCrate.ArrowRecordBatch → List Nat →
    Except String ArrowCrate.ArrowRecordBatch

/-- The order of the options: where NULLs stand, and in which direction integers go. -/
def InOrder (opts : SortOptions) : Option Int64 → Option Int64 → Prop
  | none, none => True
  | none, some _ => opts.nullsFirst = true
  | some _, none => opts.nullsFirst = false
  | some a, some b => if opts.descending then b.toInt ≤ a.toInt else a.toInt ≤ b.toInt

variable [ArrowCrate]

structure Taken (indices : List Nat) (c taken : ArrowCrate.Array) : Prop where
  len : ArrowCrate.len taken = indices.length
  type : ArrowCrate.dataType taken = ArrowCrate.dataType c
  isNull : ∀ k i, indices[k]? = some i → ArrowCrate.isNull taken k = ArrowCrate.isNull c i
  value : ∀ k i, indices[k]? = some i → ∀ t,
    (ArrowCrate.downcast t taken).map (ArrowCrate.value · k) =
      (ArrowCrate.downcast t c).map (ArrowCrate.value · i)

/-- What is relied on of the kernels: a column of integers is ordered as the options say, and
    rows are taken from all columns. -/
structure KernelLaws [ArrowKernels] : Prop where
  sorts : ∀ (a : ArrowCrate.Native .int64) (cells : List (Option Int64)), Holds a cells →
    ∀ opts, ∃ indices, ArrowKernels.sortToIndices (ArrowCrate.array a) opts = .ok indices ∧
      indices.Perm (List.range cells.length) ∧
        (indices.map fun i => cells[i]?.join).Pairwise (InOrder opts)
  takes : ∀ (rb : ArrowCrate.ArrowRecordBatch) (indices : List Nat),
    (∀ i ∈ indices, i < ArrowCrate.numRows rb) →
      ∃ out, ArrowKernels.takeRecordBatch rb indices = .ok out ∧
        ArrowCrate.schema out = ArrowCrate.schema rb ∧
        ArrowCrate.numRows out = indices.length ∧
        List.Forall₂ (Taken indices) (ArrowCrate.columns rb) (ArrowCrate.columns out)

variable [ArrowKernels]

def sortByColumn (batch : ArrowCrate.ArrowRecordBatch) (colIdx : Nat) (ascending : Bool) :
    Result ArrowCrate.ArrowRecordBatch :=
  match (ArrowCrate.columns batch)[colIdx]? with
  | none =>
      let cols := (ArrowCrate.columns batch).length
      err (.execution s!"sort column index {colIdx} out of range (cols={cols})")
  | some col =>
      match ArrowKernels.sortToIndices col ⟨!ascending, true⟩ with
      | .error e => err (.execution s!"arrow sort_to_indices: {e}")
      | .ok indices =>
          match ArrowKernels.takeRecordBatch batch indices with
          | .error e => err (.execution s!"arrow take_record_batch (sort): {e}")
          | .ok out => .ok out

def columnarSort (batch : RecordBatch) (colIdx : Nat) (ascending : Bool) : Result RecordBatch := do
  let columns ← arrowFromCore batch
  let sorted ← sortByColumn columns colIdx ascending
  arrowToCore sorted

end Crate

section Taking

theorem valueAt_taken [ArrowCrate] {indices : List Nat} {c taken : ArrowCrate.Array}
    (of : Taken indices c taken) {k i : Nat} (here : indices[k]? = some i) :
    valueAt taken k = valueAt c i := by
  have read (t : NativeType) (missing : Fault) :
      readAs t missing taken k = readAs t missing c i := by
    have same := of.value k i here t
    unfold readAs
    cases old : ArrowCrate.downcast t c with
    | none =>
      rw [old, Option.map_none, Option.map_eq_none_iff] at same
      rw [same]
    | some a =>
      rw [old, Option.map_some, Option.map_eq_some_iff] at same
      obtain ⟨b, cast, value⟩ := same
      rw [cast]
      simp only [value]
  simp only [valueAt, of.isNull k i here, of.type, read]

def picked (indices : List Nat) (vs : List Value) : List Value :=
  indices.map fun i => vs[i]?.getD .null

theorem reads_taken [ArrowCrate] {indices : List Nat} {c taken : ArrowCrate.Array}
    (of : Taken indices c taken) {vs : List Value} (reads : Reads c vs)
    (inside : ∀ i ∈ indices, i < vs.length) : Reads taken (picked indices vs) := by
  refine ⟨by rw [of.len, picked, List.length_map], fun k v at' => ?_⟩
  rw [picked, List.getElem?_map, Option.map_eq_some_iff] at at'
  obtain ⟨i, here, same⟩ := at'
  have bound := inside i (List.mem_of_getElem? here)
  rw [List.getElem?_eq_getElem bound, Option.getD_some] at same
  rw [valueAt_taken of here, reads.2 i v (by rw [List.getElem?_eq_getElem bound, same])]

theorem all_reads_taken [ArrowCrate] {indices : List Nat} {cs takens : List ArrowCrate.Array}
    {vss : List (List Value)} (each : List.Forall₂ (Taken indices) cs takens)
    (reads : List.Forall₂ Reads cs vss) (inside : ∀ vs ∈ vss, ∀ k ∈ indices, k < vs.length) :
    List.Forall₂ Reads takens (vss.map (picked indices)) := by
  induction each generalizing vss with
  | nil =>
    cases reads
    exact List.Forall₂.nil
  | cons first _ ih =>
    cases reads with
    | cons read later =>
      exact List.Forall₂.cons (reads_taken first read (inside _ List.mem_cons_self))
        (ih later fun vs mem => inside vs (List.mem_cons_of_mem _ mem))

theorem picked_map {indices : List Nat} {vs : List Value} (inside : ∀ k ∈ indices, k < vs.length)
    (g : Value → Value) : (picked indices vs).map g = picked indices (vs.map g) := by
  simp only [picked, List.map_map]
  refine List.map_congr_left fun k mem => ?_
  have bound := inside k mem
  simp [bound]

end Taking

section Columns
variable {b : RecordBatch} {i : Nat} {f : Field}

def keyCells (b : RecordBatch) (i : Nat) : List (Option Int64) := (columnValues b i).map i64Builder

theorem keyCells_length (b : RecordBatch) (i : Nat) : (keyCells b i).length = b.records.length := by
  rw [keyCells, List.length_map, columnValues_length]

def pickedBatch (indices : List Nat) (b : RecordBatch) : RecordBatch :=
  ⟨b.schema, indices.map fun k => b.records[k]?.getD ⟨[]⟩⟩

theorem pickedBatch_values {indices : List Nat} (inside : ∀ k ∈ indices, k < b.records.length)
    (j : Nat) : columnValues (pickedBatch indices b) j = picked indices (columnValues b j) := by
  simp only [columnValues, pickedBatch, picked, List.map_map]
  refine List.map_congr_left fun k mem => ?_
  have bound := inside k mem
  simp [bound]

theorem pickedBatch_valid {indices : List Nat} (inside : ∀ k ∈ indices, k < b.records.length)
    (valid : b.Valid) : (pickedBatch indices b).Valid := by
  intro r mem
  obtain ⟨k, here, rfl⟩ := List.mem_map.mp mem
  have bound := inside k here
  rw [List.getElem?_eq_getElem bound, Option.getD_some]
  exact valid _ (List.getElem_mem bound)

theorem pickedBatch_columns {indices : List Nat} (inside : ∀ k ∈ indices, k < b.records.length) :
    readColumns (pickedBatch indices b) = (readColumns b).map (picked indices) := by
  refine List.ext_getElem (by simp [readColumns, pickedBatch]) fun j low high => ?_
  simp only [readColumns, List.getElem_map, List.getElem_mapIdx, pickedBatch_values inside]
  exact picked_map (fun k mem => by simpa using inside k mem) _

variable [ArrowCrate] {a : ArrowCrate.ArrowRecordBatch}

theorem picked_back (laws : ArrowLaws) (valid : b.Valid)
    (native : ∀ f ∈ b.schema.fields, Native f) (made : arrowFromCore b = .ok a)
    {indices : List Nat} (inside : ∀ k ∈ indices, k < b.records.length)
    {out : ArrowCrate.ArrowRecordBatch} (schema : ArrowCrate.schema out = ArrowCrate.schema a)
    (size : ArrowCrate.numRows out = indices.length)
    (each : List.Forall₂ (Taken indices) (ArrowCrate.columns a) (ArrowCrate.columns out)) :
    arrowToCore out = .ok ⟨⟨b.schema.fields.map coreField⟩,
      (pickedBatch indices b).records.map (readRow b.schema)⟩ := by
  obtain ⟨_, schema', columns, rows⟩ := from_core_made laws valid made
  have reads : List.Forall₂ Reads (ArrowCrate.columns out)
      (readColumns (pickedBatch indices b)) := by
    rw [pickedBatch_columns inside]
    refine all_reads_taken each (columns ▸ arrowColumns_read laws native) fun vs mem k inner => ?_
    obtain ⟨j, at'⟩ := List.mem_iff_getElem?.mp mem
    rw [readColumns, List.getElem?_mapIdx, Option.map_eq_some_iff] at at'
    obtain ⟨g, _, rfl⟩ := at'
    simpa using inside k inner
  have heights : ∀ c ∈ ArrowCrate.columns out, ArrowCrate.numRows out = ArrowCrate.len c := by
    intro c mem
    obtain ⟨old, _, taken⟩ := Listing.forall₂_mem each c mem
    rw [size, taken.len]
  exact rows_back (b := pickedBatch indices b) (pickedBatch_valid inside valid) native
    (schema.trans schema') reads heights (by rw [size, pickedBatch, List.length_map])

variable [ArrowKernels]

theorem sorted_columns (laws : ArrowLaws) (kernels : KernelLaws) (valid : b.Valid)
    (made : arrowFromCore b = .ok a) (here : b.schema.fields[i]? = some f)
    (type : f.dataType = .int64) (ascending : Bool) : ∃ indices out,
      sortByColumn a i ascending = .ok out ∧ indices.Perm (List.range b.records.length) ∧
      (indices.map fun k => (keyCells b i)[k]?.join).Pairwise (InOrder ⟨!ascending, true⟩) ∧
      ArrowCrate.schema out = ArrowCrate.schema a ∧
      ArrowCrate.numRows out = indices.length ∧
      List.Forall₂ (Taken indices) (ArrowCrate.columns a) (ArrowCrate.columns out) := by
  obtain ⟨_, _, columns, rows⟩ := from_core_made laws valid made
  have native : nativeType f.dataType = some .int64 := by rw [type]; rfl
  have column : (ArrowCrate.columns a)[i]? = some (ArrowCrate.array (ArrowCrate.finish
      ((keyCells b i).foldl appendOption (ArrowCrate.builder .int64)))) := by
    rw [columns, arrowColumns_getElem?, here, Option.map_some, columnArray, native]
    rfl
  obtain ⟨indices, sorted, perm, inOrder⟩ :=
    kernels.sorts _ (keyCells b i) (laws.stores _) ⟨!ascending, true⟩
  rw [keyCells_length] at perm
  have height : ArrowCrate.numRows a = b.records.length := by
    have kept : nativeType f.dataType ≠ none := native ▸ Option.some_ne_none _
    rw [rows _ (arrowColumns_mem here), columnArray_len laws, if_pos kept, columnValues_length]
  obtain ⟨out, taken, schema, size, each⟩ := kernels.takes a indices fun k mem => by
    rw [height]
    exact List.mem_range.mp (perm.mem_iff.mp mem)
  refine ⟨indices, out, ?_, perm, inOrder, schema, size, each⟩
  rw [sortByColumn, column]
  simp only [sorted, taken]

theorem columnarSort_eq (laws : ArrowLaws) (kernels : KernelLaws) (valid : b.Valid)
    (here : b.schema.fields[i]? = some f) (type : f.dataType = .int64)
    (kept : b.records = [] ∨ ∀ f ∈ b.schema.fields, Native f) (ascending : Bool) :
    ∃ indices, indices.Perm (List.range b.records.length) ∧
      (indices.map fun k => (keyCells b i)[k]?.join).Pairwise (InOrder ⟨!ascending, true⟩) ∧
      columnarSort b i ascending = .ok ⟨⟨b.schema.fields.map coreField⟩,
        (pickedBatch indices b).records.map (readRow b.schema)⟩ := by
  have some' : b.schema.fields ≠ [] := List.ne_nil_of_mem (List.mem_of_getElem? here)
  obtain ⟨a, made⟩ := from_core_ok laws valid some' (kept.imp_right Or.inl)
  obtain ⟨indices, out, sorted, perm, inOrder, schema, size, each⟩ :=
    sorted_columns laws kernels valid made here type ascending
  obtain ⟨_, schema', _, _⟩ := from_core_made laws valid made
  have named : ArrowCrate.schema out = arrowSchemaFromCore b.schema := schema.trans schema'
  have inside : ∀ k ∈ indices, k < b.records.length :=
    fun k mem => List.mem_range.mp (perm.mem_iff.mp mem)
  refine ⟨indices, perm, inOrder, ?_⟩
  rw [columnarSort, made, ok_bind, sorted, ok_bind]
  rcases kept with empty | native
  · have none' : indices = [] := by
      rw [empty] at perm
      exact List.perm_nil.mp perm
    rw [none'] at size ⊢
    exact no_rows_back named size
  · exact picked_back laws valid native made inside schema size each

end Columns

section Rows

def Before : Option Int64 → Option Int64 → Prop
  | none, _ => True
  | some _, none => False
  | some a, some b => a.toInt ≤ b.toInt

def Ranked (ascending : Bool) (x y : Option Int64) : Prop :=
  if ascending then Before x y else Before y x

instance : (x y : Option Int64) → Decidable (Before x y)
  | none, _ => .isTrue trivial
  | some _, none => .isFalse id
  | some a, some b => inferInstanceAs (Decidable (a.toInt ≤ b.toInt))

instance (ascending : Bool) : DecidableRel (Ranked ascending) := fun x y =>
  inferInstanceAs (Decidable (if ascending = true then Before x y else Before y x))

theorem before_total (x y : Option Int64) : Before x y ∨ Before y x := by
  cases x with
  | none => exact Or.inl trivial
  | some a =>
    cases y with
    | none => exact Or.inr trivial
    | some b => exact Int.le_total a.toInt b.toInt

theorem before_trans {x y z : Option Int64} (xy : Before x y) (yz : Before y z) : Before x z := by
  cases x with
  | none => trivial
  | some a =>
    cases y with
    | none => exact xy.elim
    | some b =>
      cases z with
      | none => exact yz.elim
      | some c => exact Int.le_trans xy yz

instance (ascending : Bool) : Std.Total (Ranked ascending) where
  total x y := by
    cases ascending with
    | true => exact before_total x y
    | false => exact before_total y x

instance (ascending : Bool) : IsTrans (Option Int64) (Ranked ascending) where
  trans x y z xy yz := by
    cases ascending with
    | true => exact before_trans xy yz
    | false => exact before_trans yz xy

theorem fits_cases {v : Value} (fits : Fits .int64 v) : v = .null ∨ ∃ i, v = .int64 i := by
  cases v with
  | null => exact Or.inl rfl
  | int64 i => exact Or.inr ⟨i, rfl⟩
  | _ => exact nomatch fits nofun

theorem compareKey_iff {v w : Value} (left : Fits .int64 v) (right : Fits .int64 w)
    (ascending : Bool) : compareKey ascending v w ≠ .gt ↔
      Ranked ascending (i64Builder v) (i64Builder w) := by
  rcases fits_cases left with rfl | ⟨x, rfl⟩ <;> rcases fits_cases right with rfl | ⟨y, rfl⟩
  · cases ascending <;> exact iff_of_true nofun trivial
  · cases ascending with
    | true => exact iff_of_true nofun trivial
    | false => exact iff_of_false (fun ne => ne rfl) id
  · cases ascending with
    | true => exact iff_of_false (fun ne => ne rfl) id
    | false => exact iff_of_true nofun trivial
  · cases ascending with
    | true => exact Int.compare_ne_gt
    | false =>
      show (compare x.toInt y.toInt).swap ≠ .gt ↔ y.toInt ≤ x.toInt
      rw [Int.compare_swap]
      exact Int.compare_ne_gt

variable {b : RecordBatch} {i : Nat}

/-- `ORDER BY name`, in one direction or the other. -/
def byKey (name : String) (ascending : Bool) : List SortExpr := [⟨.column name, ascending⟩]

theorem compareKeys_one (name : String) (ascending : Bool) (v w : Value) :
    compareKeys (byKey name ascending) [v] [w] = compareKey ascending v w := by
  simp only [compareKeys, byKey]
  cases compareKey ascending v w <;> rfl

def rankedRows (b : RecordBatch) (i : Nat) (name : String) (ascending : Bool) :
    List (Record × List Value) :=
  sortBy (fun p q => compareKeys (byKey name ascending) p.2 q.2)
    (b.records.map fun r => (r, [r.getOrNull i]))

theorem ranked_keys (name : String) (ascending : Bool) :
    ((rankedRows b i name ascending).map fun p => p.1.getOrNull i).Perm (columnValues b i) := by
  have all := ((List.perm_insertionSort (fun p q : Record × List Value =>
    compareKeys (byKey name ascending) p.2 q.2 ≠ .gt)
      (b.records.map fun r => (r, [r.getOrNull i]))).map fun p => p.1.getOrNull i)
  rw [List.map_map] at all
  exact all

theorem ranked_pairwise (fits : ∀ v ∈ columnValues b i, Fits .int64 v) (name : String)
    (ascending : Bool) :
    ((rankedRows b i name ascending).map fun p => i64Builder (p.1.getOrNull i)).Pairwise
      (Ranked ascending) := by
  have moved : (rankedRows b i name ascending).map (fun p => i64Builder (p.1.getOrNull i)) =
      ((b.records.map fun r => (r, [r.getOrNull i])).map
        fun p => i64Builder (p.1.getOrNull i)).insertionSort (Ranked ascending) := by
    refine List.map_insertionSort _ _ _ _ fun p memP q memQ => ?_
    obtain ⟨r, inside, rfl⟩ := List.mem_map.mp memP
    obtain ⟨s, inside', rfl⟩ := List.mem_map.mp memQ
    show compareKeys (byKey name ascending) [_] [_] ≠ .gt ↔ _
    rw [compareKeys_one, compareKey_iff (fits _ (List.mem_map_of_mem inside))
      (fits _ (List.mem_map_of_mem inside'))]
  rw [moved]
  exact List.pairwise_insertionSort _ _

theorem sortBatch_eq [Regex] {name : String} (valid : b.Valid)
    (named : b.schema.indexOf name = some i) (ascending : Bool) :
    sortBatch b (byKey name ascending) = .ok ⟨b.schema, (rankedRows b i name ascending).map Prod.fst⟩ := by
  have keyed (records : List Record) : keyedRecords (byKey name ascending) b records =
      .ok (records.map fun r => (r, [r.getOrNull i])) := by
    induction records with
    | nil => rfl
    | cons r rest ih =>
      have key : evalAll r b ((byKey name ascending).map SortExpr.expr) =
          .ok [r.getOrNull i] := by
        simp only [byKey, List.map_cons, List.map_nil, evalAll, Expr.eval, named]
        rfl
      rw [keyedRecords, key, ok_bind, ih]
      rfl
  rw [sortBatch, keyed, ok_bind]
  refine fromRecords_of_valid fun r mem => ?_
  obtain ⟨p, ranked, rfl⟩ := List.mem_map.mp mem
  obtain ⟨r, inside, rfl⟩ := List.mem_map.mp ((List.perm_insertionSort _ _).mem_iff.mp ranked)
  exact valid r inside

end Rows

section Agreement

theorem inOrder_antisymm {opts : SortOptions} {x y : Option Int64} (xy : InOrder opts x y)
    (yx : InOrder opts y x) : x = y := by
  cases x with
  | none =>
    cases y with
    | none => rfl
    | some b => exact nomatch (show opts.nullsFirst = true from xy).symm.trans yx
  | some a =>
    cases y with
    | none => exact nomatch (show opts.nullsFirst = true from yx).symm.trans xy
    | some b =>
      have both : a.toInt ≤ b.toInt ∧ b.toInt ≤ a.toInt := by
        simp only [InOrder] at xy yx
        split at xy
        · rename_i down
          rw [if_pos down] at yx
          exact ⟨yx, xy⟩
        · rename_i up
          rw [if_neg up] at yx
          exact ⟨xy, yx⟩
      rw [Int64.toInt_inj.mp (Int.le_antisymm both.1 both.2)]

/-- Ascending, both sorts put NULLs first. Descending, they agree where there is nothing to put
    before anything else. -/
def SameOrder (ascending : Bool) (keys : List Value) : Prop :=
  ascending = true ∨ (∀ v ∈ keys, v ≠ .null) ∨ ∀ v ∈ keys, v = .null

theorem integers_inOrder (ascending : Bool) (x y : Int64) :
    InOrder ⟨!ascending, true⟩ (some x) (some y) ↔ Ranked ascending (some x) (some y) := by
  cases ascending <;> simp [InOrder, Ranked, Before]

theorem inOrder_of_ranked {ascending : Bool} {keys : List Value} (same : SameOrder ascending keys)
    {v w : Value} (memV : v ∈ keys) (memW : w ∈ keys) (fitsV : Fits .int64 v)
    (fitsW : Fits .int64 w) (ranked : Ranked ascending (i64Builder v) (i64Builder w)) :
    InOrder ⟨!ascending, true⟩ (i64Builder v) (i64Builder w) := by
  rcases fits_cases fitsV with rfl | ⟨x, rfl⟩ <;> rcases fits_cases fitsW with rfl | ⟨y, rfl⟩
  · trivial
  · rfl
  · rcases same with rfl | shown | null
    · exact ranked.elim
    · exact absurd rfl (shown .null memW)
    · exact nomatch null _ memV
  · have own (z : Int64) : i64Builder (.int64 z) = some z := rfl
    rw [own, own] at ranked ⊢
    exact (integers_inOrder ascending x y).mpr ranked

theorem mixed_differs {cells : List (Option Int64)} {a : Int64} (null : none ∈ cells)
    (shown : some a ∈ cells) (inOrder : cells.Pairwise (InOrder ⟨true, true⟩)) :
    ¬ cells.Pairwise (Ranked false) := by
  intro ranked
  obtain ⟨i, low, atNull⟩ := List.mem_iff_getElem.mp null
  obtain ⟨j, high, atShown⟩ := List.mem_iff_getElem.mp shown
  rcases Nat.lt_trichotomy i j with before | same | after
  · have placed := List.pairwise_iff_getElem.mp ranked i j low high before
    rw [atNull, atShown] at placed
    exact placed
  · subst same
    exact nomatch atNull.symm.trans atShown
  · have placed := List.pairwise_iff_getElem.mp inOrder j i high low after
    rw [atNull, atShown] at placed
    exact nomatch placed

variable {b : RecordBatch} {i : Nat} {f : Field}

theorem i64_read (c : Option Int64) : i64Builder (readOption .int64 c) = c := by
  cases c <;> rfl

theorem read_i64 {v : Value} (fits : Fits .int64 v) :
    readOption .int64 (i64Builder v) = v :=
  have kept : Fits (keptType .int64) v := fits
  readCell_of_fits kept

theorem readRow_key {r : Record} (valid : r.Valid b.schema) (here : b.schema.fields[i]? = some f)
    (type : f.dataType = .int64) : (readRow b.schema r).getOrNull i =
      readOption .int64 (i64Builder (r.getOrNull i)) := by
  have bound : i < r.values.length := by
    rw [valid.1]
    exact (List.getElem?_eq_some_iff.mp here).1
  have cell : r.values[i]? = some r.values[i] := List.getElem?_eq_getElem bound
  simp only [readRow, Record.getOrNull, Record.get, List.getElem?_zipWith, here, cell, type]
  rfl

theorem picked_keys (valid : b.Valid) (here : b.schema.fields[i]? = some f)
    (type : f.dataType = .int64) {indices : List Nat}
    (inside : ∀ k ∈ indices, k < b.records.length) (schema : Schema) :
    columnValues ⟨schema, (pickedBatch indices b).records.map (readRow b.schema)⟩ i =
      (indices.map fun k => (keyCells b i)[k]?.join).map (readOption .int64) := by
  simp only [columnValues, pickedBatch, List.map_map]
  refine List.map_congr_left fun k mem => ?_
  have bound := inside k mem
  have row := readRow_key (valid _ (List.getElem_mem bound)) here type
  simp [bound, keyCells, columnValues, row]

theorem picked_perm {cells : List (Option Int64)} {indices : List Nat}
    (perm : indices.Perm (List.range cells.length)) :
    (indices.map fun k => cells[k]?.join).Perm cells := by
  have all : (List.range cells.length).map (fun k => cells[k]?.join) = cells := by
    refine List.ext_getElem (by simp) fun k low high => ?_
    simp [high]
  have moved := perm.map fun k => cells[k]?.join
  rwa [all] at moved

theorem not_sameOrder {ascending : Bool} {keys : List Value} (mixed : ¬ SameOrder ascending keys) :
    ascending = false ∧ .null ∈ keys ∧ ∃ v ∈ keys, v ≠ .null := by
  simp only [SameOrder, not_or, not_forall, not_not, Bool.not_eq_true] at mixed
  obtain ⟨down, ⟨v, mem, rfl⟩, w, memW, shown⟩ := mixed
  exact ⟨down, mem, w, memW, shown⟩

theorem rowKeys_eq (b : RecordBatch) (i : Nat) (name : String) (ascending : Bool) :
    columnValues ⟨b.schema, (rankedRows b i name ascending).map Prod.fst⟩ i =
      (rankedRows b i name ascending).map fun p => p.1.getOrNull i := by
  rw [columnValues, List.map_map]
  rfl

theorem rowKeys_read (fits : ∀ v ∈ columnValues b i, Fits .int64 v) (name : String)
    (ascending : Bool) : (rankedRows b i name ascending).map (fun p => p.1.getOrNull i) =
      ((rankedRows b i name ascending).map fun p => i64Builder (p.1.getOrNull i)).map
        (readOption .int64) := by
  rw [List.map_map]
  refine List.map_congr_left fun p mem => ?_
  have inside := (ranked_keys name ascending).mem_iff.mp (List.mem_map_of_mem mem)
  exact (read_i64 (fits _ inside)).symm

theorem ranked_inOrder (fits : ∀ v ∈ columnValues b i, Fits .int64 v) (name : String)
    {ascending : Bool} (same : SameOrder ascending (columnValues b i)) :
    ((rankedRows b i name ascending).map fun p => i64Builder (p.1.getOrNull i)).Pairwise
      (InOrder ⟨!ascending, true⟩) := by
  refine List.pairwise_map.mpr ?_
  refine (List.pairwise_map.mp (ranked_pairwise fits name ascending)).imp_of_mem
    fun {p q} memP memQ ranked => ?_
  have keyP := (ranked_keys name ascending).mem_iff.mp (List.mem_map_of_mem memP)
  have keyQ := (ranked_keys name ascending).mem_iff.mp (List.mem_map_of_mem memQ)
  exact inOrder_of_ranked same keyP keyQ (fits _ keyP) (fits _ keyQ) ranked

theorem keyCells_perm (b : RecordBatch) (i : Nat) (name : String) (ascending : Bool) :
    (keyCells b i).Perm
      ((rankedRows b i name ascending).map fun p => i64Builder (p.1.getOrNull i)) := by
  have keys := ((ranked_keys (b := b) (i := i) name ascending).map i64Builder).symm
  rwa [List.map_map] at keys

/-- What both sorts have in common: equal keys are integers and NULLs, and not both of them where
    the sort is descending. -/
theorem equal_keys {name : String} {ascending : Bool} {cells : List (Option Int64)}
    (perm : cells.Perm (keyCells b i)) (inOrder : cells.Pairwise (InOrder ⟨!ascending, true⟩))
    (same : cells.map (readOption .int64) =
      (rankedRows b i name ascending).map fun p => p.1.getOrNull i) :
    (∀ v ∈ columnValues b i, Fits .int64 v) ∧ SameOrder ascending (columnValues b i) := by
  have fits : ∀ v ∈ columnValues b i, Fits .int64 v := by
    intro v mem
    have ranked := (ranked_keys name ascending).mem_iff.mpr mem
    rw [← same] at ranked
    obtain ⟨cell, _, rfl⟩ := List.mem_map.mp ranked
    cases cell with
    | none => exact fits_null _
    | some x => exact fun _ => rfl
  refine ⟨fits, ?_⟩
  by_contra mixed
  obtain ⟨rfl, null, w, memW, shown⟩ := not_sameOrder mixed
  have both : cells = (rankedRows b i name false).map fun p => i64Builder (p.1.getOrNull i) := by
    have read := congrArg (List.map i64Builder) same
    simp only [List.map_map, Function.comp_def, i64_read, List.map_id'] at read
    exact read
  have ranked := ranked_pairwise fits name false
  rw [← both] at ranked
  obtain rfl | ⟨x, rfl⟩ := fits_cases (fits w memW)
  · exact shown rfl
  · exact mixed_differs (perm.mem_iff.mpr (List.mem_map_of_mem null))
      (perm.mem_iff.mpr (List.mem_map_of_mem memW)) inOrder ranked

theorem columns_kept [ArrowCrate] (laws : ArrowLaws) (valid : b.Valid)
    (here : b.schema.fields[i]? = some f) (type : f.dataType = .int64)
    {a : ArrowCrate.ArrowRecordBatch} (made : arrowFromCore b = .ok a) :
    b.records = [] ∨ ∀ g ∈ b.schema.fields, Native g := by
  rcases (from_core_made laws valid made).1.2 with empty | all | never
  · exact Or.inl empty
  · exact Or.inr all
  · refine absurd ?_ (never f (List.mem_of_getElem? here))
    rw [Native, type]
    exact nofun

theorem columnar_keys [ArrowCrate] [ArrowKernels] (laws : ArrowLaws) (kernels : KernelLaws)
    (valid : b.Valid) (here : b.schema.fields[i]? = some f) (type : f.dataType = .int64)
    (kept : b.records = [] ∨ ∀ g ∈ b.schema.fields, Native g) (ascending : Bool) :
    ∃ (cells : List (Option Int64)) (c : RecordBatch), cells.Perm (keyCells b i) ∧
      cells.Pairwise (InOrder ⟨!ascending, true⟩) ∧ columnarSort b i ascending = .ok c ∧
        columnValues c i = cells.map (readOption .int64) := by
  obtain ⟨indices, perm, inOrder, ran⟩ :=
    columnarSort_eq laws kernels valid here type kept ascending
  have inside : ∀ k ∈ indices, k < b.records.length :=
    fun k mem => List.mem_range.mp (perm.mem_iff.mp mem)
  exact ⟨_, _, picked_perm (perm.trans (by rw [keyCells_length])), inOrder, ran,
    picked_keys valid here type inside _⟩

variable [ArrowCrate] [ArrowKernels] [Regex]

/-- The columnar sort of a column of integers gives the keys of the row-wise sort exactly if no
    column of NULLs stands beside rows, all keys are integers and NULLs, and a descending sort
    has not both. -/
theorem sorts_agree_iff (laws : ArrowLaws) (kernels : KernelLaws) (b : RecordBatch)
    (valid : b.Valid) (name : String) (i : Nat) (named : b.schema.indexOf name = some i)
    (f : Field) (here : b.schema.fields[i]? = some f) (type : f.dataType = .int64)
    (ascending : Bool) :
    (∃ c d, columnarSort b i ascending = .ok c ∧ sortBatch b (byKey name ascending) = .ok d ∧
      columnValues c i = columnValues d i) ↔
    (b.records = [] ∨ ∀ g ∈ b.schema.fields, Native g) ∧
      (∀ v ∈ columnValues b i, Fits .int64 v) ∧ SameOrder ascending (columnValues b i) := by
  constructor
  · rintro ⟨c, d, ranC, ranD, same⟩
    obtain ⟨a, made, _⟩ := bind_eq_ok.mp ranC
    have kept := columns_kept laws valid here type made
    obtain ⟨cells, c', perm, inOrder, ranC', keys⟩ :=
      columnar_keys laws kernels valid here type kept ascending
    obtain rfl := Except.ok.inj (ranC.symm.trans ranC')
    obtain rfl := Except.ok.inj (ranD.symm.trans (sortBatch_eq valid named ascending))
    rw [keys, rowKeys_eq] at same
    exact ⟨kept, equal_keys perm inOrder same⟩
  · rintro ⟨kept, fits, same⟩
    obtain ⟨cells, c, perm, inOrder, ran, keys⟩ :=
      columnar_keys laws kernels valid here type kept ascending
    refine ⟨c, _, ran, sortBatch_eq valid named ascending, ?_⟩
    rw [keys, rowKeys_eq, rowKeys_read fits]
    have both := (perm.trans (keyCells_perm b i name ascending)).eq_of_pairwise
      (fun _ _ _ _ => inOrder_antisymm) inOrder (ranked_inOrder fits name same)
    rw [both]

end Agreement

section Witness

instance (opts : SortOptions) : DecidableRel (InOrder opts)
  | none, none => .isTrue trivial
  | none, some _ => inferInstanceAs (Decidable (opts.nullsFirst = true))
  | some _, none => inferInstanceAs (Decidable (opts.nullsFirst = false))
  | some a, some b =>
      inferInstanceAs (Decidable (if opts.descending then b.toInt ≤ a.toInt else a.toInt ≤ b.toInt))

theorem inOrder_total (opts : SortOptions) (x y : Option Int64) :
    InOrder opts x y ∨ InOrder opts y x := by
  obtain ⟨descending, nullsFirst⟩ := opts
  cases x <;> cases y <;> cases descending <;> cases nullsFirst <;> simp [InOrder] <;> omega

theorem inOrder_trans {opts : SortOptions} {x y z : Option Int64} (xy : InOrder opts x y)
    (yz : InOrder opts y z) : InOrder opts x z := by
  obtain ⟨descending, nullsFirst⟩ := opts
  cases x <;> cases y <;> cases z <;> cases descending <;> cases nullsFirst <;>
    simp_all [InOrder] <;> omega

def entriesInOrder (opts : SortOptions) (cells : List (Option Int64)) (i j : Nat) : Prop :=
  InOrder opts cells[i]?.join cells[j]?.join

instance (opts : SortOptions) (cells : List (Option Int64)) :
    DecidableRel (entriesInOrder opts cells) := fun _ _ => inferInstanceAs (Decidable (InOrder ..))

instance (opts : SortOptions) (cells : List (Option Int64)) :
    Std.Total (entriesInOrder opts cells) := ⟨fun _ _ => inOrder_total opts _ _⟩

instance (opts : SortOptions) (cells : List (Option Int64)) :
    IsTrans Nat (entriesInOrder opts cells) := ⟨fun _ _ _ => inOrder_trans⟩

def ListArray.take (indices : List Nat) : ListArray → ListArray
  | .native t cells => .native t (indices.map fun i => cells[i]?.join)
  | .nulls _ => .nulls indices.length

@[reducible] def listKernels : @ArrowKernels listArrow :=
  @ArrowKernels.mk listArrow
    (fun
      | .native .int64 cells, opts =>
          .ok ((List.range cells.length).insertionSort (entriesInOrder opts cells))
      | _, _ => .error "Sort not supported for data type")
    (fun rb indices => .ok ⟨rb.schema, rb.columns.map (ListArray.take indices)⟩)

theorem listKernels_sorts (cells : List (Option Int64)) (opts : SortOptions) :
    ((List.range cells.length).insertionSort (entriesInOrder opts cells)).Perm
        (List.range cells.length) ∧
      (((List.range cells.length).insertionSort (entriesInOrder opts cells)).map
        fun i => cells[i]?.join).Pairwise (InOrder opts) := by
  refine ⟨List.perm_insertionSort _ _, List.pairwise_map.mpr ?_⟩
  exact List.pairwise_insertionSort (entriesInOrder opts cells) _

theorem taken_entry {t : NativeType} {indices : List Nat} {k i : Nat}
    (here : indices[k]? = some i) (cells : List (Option t.Carrier)) :
    (indices.map fun i => cells[i]?.join)[k]?.getD none = cells[i]?.getD none := by
  rw [List.getElem?_map, here, Option.map_some, Option.getD_some]
  cases cells[i]? <;> rfl

theorem taken_list (indices : List Nat) (c : ListArray) :
    @Taken listArrow indices c (ListArray.take indices c) := by
  cases c with
  | nulls n =>
    exact @Taken.mk listArrow indices _ _ rfl rfl (fun _ _ _ => rfl) fun _ _ _ _ => rfl
  | native t cells =>
    refine @Taken.mk listArrow indices _ _ (List.length_map _) rfl
      (fun k i here => congrArg Option.isNone (taken_entry here cells)) fun k i here t' => ?_
    show (ListArray.downcast t' (.native t _)).map _ = (ListArray.downcast t' (.native t _)).map _
    unfold ListArray.downcast
    by_cases same : t = t'
    · subst same
      simp only [dif_pos, Option.map_some]
      exact congrArg (fun c => some (Option.getD c (NativeType.zero t))) (taken_entry here cells)
    · simp only [dif_neg same, Option.map_none]

theorem list_of_holds {t : NativeType} {a cells : List (Option t.Carrier)}
    (holds : @Holds listArrow t a cells) : a = cells := by
  obtain ⟨length, entries⟩ := holds
  refine List.ext_getElem length fun i low high => ?_
  have here : a[i]? = some a[i] := List.getElem?_eq_getElem low
  obtain ⟨isNull, value⟩ := entries i cells[i] (List.getElem?_eq_getElem high)
  have isNull' : a[i].isNone = cells[i].isNone := by
    have same : (a[i]?.getD none).isNone = cells[i].isNone := isNull
    rwa [here] at same
  have value' : ∀ v ∈ cells[i], a[i].getD (NativeType.zero t) = v := by
    intro v mem
    have same : (a[i]?.getD none).getD (NativeType.zero t) = v := value v mem
    rwa [here] at same
  cases old : a[i] with
  | none =>
    rw [old] at isNull'
    exact (Option.isNone_iff_eq_none.mp isNull'.symm).symm
  | some v =>
    rw [old] at isNull' value'
    obtain ⟨w, same⟩ := Option.isSome_iff_exists.mp (Option.isNone_eq_false_iff.mp isNull'.symm)
    rw [same]
    exact congrArg some (value' w same)

theorem list_taken (rb : ListBatch) (indices : List Nat)
    (inside : ∀ i ∈ indices, i < @ArrowCrate.numRows listArrow rb) :
    @ArrowCrate.numRows listArrow ⟨rb.schema, rb.columns.map (ListArray.take indices)⟩ =
        indices.length ∧
      List.Forall₂ (@Taken listArrow indices) rb.columns
        (rb.columns.map (ListArray.take indices)) := by
  constructor
  · show ((rb.columns.map (ListArray.take indices)).head?.map ListArray.len).getD 0 = _
    cases columns : rb.columns with
    | nil =>
      have none' (i : Nat) (mem : i ∈ indices) : i < 0 := by
        have low := inside i mem
        rwa [show @ArrowCrate.numRows listArrow rb = 0 by
          show (rb.columns.head?.map ListArray.len).getD 0 = 0
          rw [columns]
          rfl] at low
      cases indices with
      | nil => rfl
      | cons i rest => exact absurd (none' i List.mem_cons_self) (Nat.not_lt_zero i)
    | cons c rest =>
      exact @Taken.len listArrow indices c _ (taken_list indices c)
  · rw [List.forall₂_map_right_iff, List.forall₂_same]
    exact fun c _ => taken_list indices c

theorem listKernels_laws : @KernelLaws listArrow listKernels := by
  refine @KernelLaws.mk listArrow listKernels ?_ ?_
  · intro a cells holds opts
    obtain rfl := list_of_holds holds
    obtain ⟨perm, inOrder⟩ := listKernels_sorts a opts
    exact ⟨_, rfl, perm, inOrder⟩
  · intro rb indices inside
    obtain ⟨size, each⟩ := list_taken rb indices inside
    exact ⟨⟨rb.schema, rb.columns.map (ListArray.take indices)⟩, rfl, rfl, size, each⟩

def agesSchema : Schema := ⟨[.new "age" .int64]⟩

def ages (given : List (Option Int64)) : RecordBatch :=
  ⟨agesSchema, given.map fun age => ⟨[readOption .int64 age]⟩⟩

theorem known_ages_agree : ∃ c d,
    @columnarSort listArrow listKernels (ages [some 3, none, some 1]) 0 true = .ok c ∧
      @sortBatch noRegex (ages [some 3, none, some 1]) (byKey "age" true) = .ok d ∧
        columnValues c 0 = columnValues d 0 :=
  (@sorts_agree_iff listArrow listKernels noRegex listArrow_laws listKernels_laws
    (ages [some 3, none, some 1]) (by decide) "age" 0 rfl (.new "age" .int64) rfl rfl true).mpr
      ⟨Or.inr (by decide), by decide, Or.inl rfl⟩

/-- Descending, the columnar sort puts a NULL first and the row-wise sort puts it last. -/
theorem null_placed_apart : ¬ ∀ (b : RecordBatch) (name : String) (i : Nat) (ascending : Bool),
    b.Valid → b.schema.indexOf name = some i → b.schema.fields[i]? = some (.new name .int64) →
    (∀ v ∈ columnValues b i, Fits .int64 v) → ∃ c d,
      @columnarSort listArrow listKernels b i ascending = .ok c ∧
      @sortBatch noRegex b (byKey name ascending) = .ok d ∧
        columnValues c i = columnValues d i := by
  intro claim
  obtain ⟨c, d, ranC, ranD, same⟩ := claim (ages [some 1, none]) "age" 0 false (by decide) rfl
    rfl (by decide)
  have columns : @columnarSort listArrow listKernels (ages [some 1, none]) 0 false =
      .ok (ages [none, some 1]) := rfl
  have rows : @sortBatch noRegex (ages [some 1, none]) (byKey "age" false) =
      .ok (ages [some 1, none]) := rfl
  obtain rfl := Except.ok.inj (ranC.symm.trans columns)
  obtain rfl := Except.ok.inj (ranD.symm.trans rows)
  exact absurd same (by decide)

end Witness

end RSparkArrowSort
