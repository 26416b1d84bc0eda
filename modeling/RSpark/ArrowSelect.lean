import RSpark.ArrowSort
import RSpark.Executor

/- Filters and limits on columns, against the filter of rows and the limit of rows. -/
namespace RSparkArrowSelect
open RSparkValue RSparkBatch RSparkExpr RSparkOperators RSparkExecutor
open RSparkArrowBatch RSparkArrowRoundTrip RSparkArrowSort

section Crate

/-- The foreign kernel that keeps the rows of a mask, and what it is given. -/
class ArrowFilters [ArrowCrate] where
  booleans : List Bool → ArrowCrate.Native .boolean
  filterRecordBatch : ArrowCrate.ArrowRecordBatch → ArrowCrate.Native .boolean →
    Except String ArrowCrate.ArrowRecordBatch
  newEmpty : ArrowSchema → ArrowCrate.ArrowRecordBatch

def trueAt (mask : List (Option Bool)) : List Nat :=
  (List.range mask.length).filter fun i => mask[i]? = some (some true)

/-- What is relied on: the rows of a mask are those at which it is true, and an empty batch has
    its schema and no rows. -/
structure FilterLaws [ArrowCrate] [ArrowFilters] : Prop where
  holds : ∀ values, Holds (ArrowFilters.booleans values) (values.map some)
  filters : ∀ (rb : ArrowCrate.ArrowRecordBatch) (mask : ArrowCrate.Native .boolean) cells,
    Holds mask cells → cells.length = ArrowCrate.numRows rb →
      ∃ out, ArrowFilters.filterRecordBatch rb mask = .ok out ∧
        ArrowCrate.schema out = ArrowCrate.schema rb ∧
        ArrowCrate.numRows out = (trueAt cells).length ∧
        List.Forall₂ (Taken (trueAt cells)) (ArrowCrate.columns rb) (ArrowCrate.columns out)
  empties : ∀ schema, ArrowCrate.schema (ArrowFilters.newEmpty schema) = schema ∧
    ArrowCrate.numRows (ArrowFilters.newEmpty schema) = 0

variable [ArrowCrate] [ArrowKernels] [ArrowFilters]

def filter (batch : ArrowCrate.ArrowRecordBatch) (mask : ArrowCrate.Native .boolean) :
    Result ArrowCrate.ArrowRecordBatch :=
  let len := ArrowCrate.len (ArrowCrate.array mask)
  let rows := ArrowCrate.numRows batch
  if len ≠ rows then err (.execution s!"filter mask length {len} != batch rows {rows}")
  else
    match ArrowFilters.filterRecordBatch batch mask with
    | .error e => err (.execution s!"arrow filter_record_batch: {e}")
    | .ok out => .ok out

def filterVia (batch : ArrowCrate.ArrowRecordBatch) (predicate : Nat → Result Bool) :
    Result ArrowCrate.ArrowRecordBatch := do
  let values ← (List.range (ArrowCrate.numRows batch)).mapM predicate
  filter batch (ArrowFilters.booleans values)

def limit (batch : ArrowCrate.ArrowRecordBatch) (n : Nat) : Result ArrowCrate.ArrowRecordBatch :=
  let n := min n (ArrowCrate.numRows batch)
  if n = 0 then .ok (ArrowFilters.newEmpty (ArrowCrate.schema batch))
  else
    match ArrowKernels.takeRecordBatch batch (List.range (n % 2 ^ 32)) with
    | .error e => err (.execution s!"arrow take_record_batch: {e}")
    | .ok out => .ok out

def columnarFilter (batch : RecordBatch) (predicate : Nat → Result Bool) : Result RecordBatch := do
  let columns ← arrowFromCore batch
  let filtered ← filterVia columns predicate
  arrowToCore filtered

def columnarLimit (batch : RecordBatch) (n : Nat) : Result RecordBatch := do
  let columns ← arrowFromCore batch
  let limited ← limit columns n
  arrowToCore limited

end Crate

section Rows

def keepRows (predicate : Nat → Result Bool) : Nat → List Record → Result (List Record)
  | _, [] => .ok []
  | i, record :: rest => do
      let keep ← predicate i
      let kept ← keepRows predicate (i + 1) rest
      .ok (if keep then record :: kept else kept)

def filterRows (predicate : Nat → Result Bool) (batch : RecordBatch) : Result RecordBatch := do
  let records ← keepRows predicate 0 batch.records
  RecordBatch.fromRecords batch.schema records

def predicateAt [Regex] (predicate : Expr) (batch : RecordBatch) (i : Nat) : Result Bool :=
  evalPredicate predicate (batch.records[i]?.getD ⟨[]⟩) batch

theorem applyFilter_eq [Regex] (predicate : Expr) (batch : RecordBatch) :
    applyFilter predicate batch.schema batch = filterRows (predicateAt predicate batch) batch := by
  have rows (front rest : List Record) (whole : batch.records = front ++ rest) :
      filterRecords predicate batch rest =
        keepRows (predicateAt predicate batch) front.length rest := by
    induction rest generalizing front with
    | nil => rfl
    | cons record rest ih =>
      have later := ih (front ++ [record]) (by rw [whole, List.append_assoc]; rfl)
      rw [List.length_append, List.length_singleton] at later
      have here : batch.records[front.length]?.getD ⟨[]⟩ = record := by
        rw [whole, List.getElem?_append_right (Nat.le_refl _), Nat.sub_self]
        rfl
      rw [filterRecords, keepRows, later, predicateAt, here]
  rw [applyFilter, filterRows, rows [] batch.records rfl]
  rfl

def kept (values : List Bool) (records : List Record) : List Record :=
  ((values.zip records).filter Prod.fst).map Prod.snd

theorem keepRows_eq (predicate : Nat → Result Bool) (i : Nat) (records : List Record) :
    keepRows predicate i records =
      ((List.range' i records.length).mapM predicate >>= fun values =>
        .ok (kept values records)) := by
  induction records generalizing i with
  | nil => rfl
  | cons record rest ih =>
    rw [keepRows, List.length_cons, List.range'_succ, List.mapM_cons, ih]
    cases predicate i with
    | error e => rfl
    | ok keep =>
      cases (List.range' (i + 1) rest.length).mapM predicate with
      | error e => rfl
      | ok values => cases keep <;> rfl

theorem rows_at_true {values : List Bool} {records : List Record}
    (same : values.length = records.length) :
    (trueAt (values.map some)).map (fun k => records[k]?.getD ⟨[]⟩) = kept values records := by
  have pairs : values.zip records =
      (List.range records.length).map fun i => (values[i]?.getD false, records[i]?.getD ⟨[]⟩) := by
    refine List.ext_getElem (by simp [same]) fun i low high => ?_
    have inside : i < records.length := by simpa using high
    simp [inside, same ▸ inside]
  rw [kept, pairs, trueAt, List.filter_map, List.map_map, List.length_map, same]
  refine congrArg _ (List.filter_congr fun i mem => ?_)
  have inside : i < values.length := same ▸ List.mem_range.mp mem
  simp [inside]

end Rows

section Back

def declared (b : RecordBatch) : RecordBatch := ⟨⟨b.schema.fields.map coreField⟩, b.records⟩

/-- Dates, timestamps and columns of NULLs are declared as strings. -/
theorem coreField_eq (f : Field) : coreField f =
    if f.dataType ∈ [.date, .timestamp, .null] then ⟨f.name, .string, f.nullable⟩ else f := by
  obtain ⟨name, dataType, nullable⟩ := f
  cases dataType <;> rfl

theorem ownVariants_of_typed {b : RecordBatch} (typed : RSparkColumnTypes.Typed b b.schema) :
    OwnVariants b := by
  intro r mem p inside shown
  have type := typed r mem p inside shown
  obtain ⟨v, _, dataType, _⟩ := p
  dsimp only at shown type ⊢
  cases v with
  | null => exact absurd rfl shown
  | _ =>
    have own := Option.some.inj type
    cases dataType <;> first | exact type | exact nomatch own

def Columnar (b : RecordBatch) : Prop := b.records = [] ∨ ∀ f ∈ b.schema.fields, Native f

instance (b : RecordBatch) : Decidable (Columnar b) := inferInstanceAs (Decidable (_ ∨ _))

variable [ArrowCrate] {b : RecordBatch} {a : ArrowCrate.ArrowRecordBatch}

theorem made_count (laws : ArrowLaws) (valid : b.Valid) (columnar : Columnar b)
    (made : arrowFromCore b = .ok a) : ArrowCrate.numRows a = b.records.length := by
  rcases columnar with empty | native
  · obtain ⟨⟨some', _⟩, _, _, rows⟩ := from_core_made laws valid made
    obtain ⟨f, fields, same⟩ := List.exists_cons_of_ne_nil some'
    have first : b.schema.fields[0]? = some f := by rw [same]; rfl
    rw [rows _ (arrowColumns_mem first), columnArray_len laws, columnValues_length, empty]
    split <;> rfl
  · exact native_count laws valid made native

theorem taken_back (laws : ArrowLaws) (valid : b.Valid) (columnar : Columnar b)
    (own : OwnVariants b) (made : arrowFromCore b = .ok a) {indices : List Nat}
    (inside : ∀ k ∈ indices, k < b.records.length) {out : ArrowCrate.ArrowRecordBatch}
    (schema : ArrowCrate.schema out = ArrowCrate.schema a)
    (size : ArrowCrate.numRows out = indices.length)
    (each : List.Forall₂ (Taken indices) (ArrowCrate.columns a) (ArrowCrate.columns out)) :
    arrowToCore out = .ok (declared (pickedBatch indices b)) := by
  rcases columnar with empty | native
  · have none' : indices = [] := by
      refine List.eq_nil_iff_forall_not_mem.mpr fun k mem => ?_
      have low := inside k mem
      rw [empty] at low
      exact absurd low (Nat.not_lt_zero k)
    rw [none'] at size ⊢
    exact no_rows_back (schema.trans (from_core_made laws valid made).2.1) size
  · have same : (pickedBatch indices b).records.map (readRow b.schema) =
        (pickedBatch indices b).records := by
      refine (List.map_congr_left fun r mem => ?_).trans (List.map_id _)
      obtain ⟨k, here, rfl⟩ := List.mem_map.mp mem
      have bound := inside k here
      rw [List.getElem?_eq_getElem bound, Option.getD_some]
      have row := List.getElem_mem bound
      exact (readRow_eq_iff (valid _ row)).mpr (own _ row)
    rw [picked_back laws valid native made inside schema size each, same]
    rfl

omit [ArrowCrate] in
theorem picked_range {m : Nat} (low : m ≤ b.records.length) :
    pickedBatch (List.range m) b = ⟨b.schema, b.records.take m⟩ := by
  rw [pickedBatch, RecordBatch.mk.injEq]
  refine ⟨rfl, List.ext_getElem (by simp [low]) fun i short _ => ?_⟩
  have bound : i < b.records.length := by
    simp at short
    omega
  simp [bound]

variable [ArrowFilters]

theorem columnarFilter_eq (laws : ArrowLaws) (filters : FilterLaws) (valid : b.Valid)
    (some' : b.schema.fields ≠ []) (columnar : Columnar b) (own : OwnVariants b)
    (predicate : Nat → Result Bool) :
    columnarFilter b predicate = (filterRows predicate b).map declared := by
  obtain ⟨a, made⟩ := from_core_ok laws valid some' (columnar.imp_right Or.inl)
  have count := made_count laws valid columnar made
  rw [columnarFilter, made, ok_bind, filterVia, filterRows, keepRows_eq, count,
    List.range_eq_range']
  cases asked : (List.range' 0 b.records.length).mapM predicate with
  | error e => rfl
  | ok values =>
    have same : values.length = b.records.length := by
      rw [← (Listing.mapM_eq_ok.mp asked).length_eq, List.length_range']
    have holds := filters.holds values
    obtain ⟨out, filtered, schema, size, each⟩ :=
      filters.filters a _ _ holds (by rw [List.length_map, same, count])
    have inside : ∀ k ∈ trueAt (values.map some), k < b.records.length := by
      intro k mem
      have low := List.mem_range.mp (List.mem_filter.mp mem).1
      rwa [List.length_map, same] at low
    have mask : ArrowCrate.len (ArrowCrate.array (ArrowFilters.booleans values)) =
        ArrowCrate.numRows a := by
      rw [holds.1, List.length_map, same, count]
    have ran : filter a (ArrowFilters.booleans values) = .ok out := by
      simp [filter, mask, filtered]
    have rows : pickedBatch (trueAt (values.map some)) b =
        ⟨b.schema, kept values b.records⟩ := by
      rw [pickedBatch, rows_at_true same]
    have good : ∀ r ∈ kept values b.records, r.Valid b.schema := by
      have picked := pickedBatch_valid inside valid
      rwa [rows] at picked
    rw [ok_bind, ok_bind, ran, ok_bind,
      taken_back laws valid columnar own made inside schema size each, rows, ok_bind,
      fromRecords_of_valid good]
    rfl

variable [ArrowKernels]

theorem columnarLimit_eq (laws : ArrowLaws) (kernels : KernelLaws) (filters : FilterLaws)
    (valid : b.Valid) (some' : b.schema.fields ≠ []) (small : b.records.length < 2 ^ 32)
    (columnar : Columnar b) (own : OwnVariants b) (n : Nat) :
    columnarLimit b n = (limitBatch b n).map declared := by
  obtain ⟨a, made⟩ := from_core_ok laws valid some' (columnar.imp_right Or.inl)
  have count := made_count laws valid columnar made
  have limited : limitBatch b n = .ok ⟨b.schema, b.records.take n⟩ :=
    fromRecords_of_valid fun r mem => valid r (List.mem_of_mem_take mem)
  rw [columnarLimit, made, ok_bind, limit, count, limited]
  by_cases none' : min n b.records.length = 0
  · have rows : b.records.take n = [] := by
      rw [List.take_eq_nil_iff]
      rcases Nat.min_eq_zero_iff.mp none' with zero | zero
      · exact Or.inl zero
      · exact Or.inr (List.length_eq_zero_iff.mp zero)
    obtain ⟨schema, size⟩ := filters.empties (ArrowCrate.schema a)
    rw [if_pos none', ok_bind, rows,
      no_rows_back (schema.trans (from_core_made laws valid made).2.1) size]
    rfl
  · have low : min n b.records.length ≤ b.records.length := Nat.min_le_right ..
    have bits : min n b.records.length % 2 ^ 32 = min n b.records.length :=
      Nat.mod_eq_of_lt (low.trans_lt small)
    have inside : ∀ k ∈ List.range (min n b.records.length), k < b.records.length :=
      fun k mem => (List.mem_range.mp mem).trans_le low
    obtain ⟨out, taken, schema, size, each⟩ :=
      kernels.takes a _ fun k mem => (inside k mem).trans_eq count.symm
    rw [if_neg none', bits, taken, ok_bind,
      taken_back laws valid columnar own made inside schema size each, picked_range low,
      ← List.take_eq_take_min]
    rfl

end Back

section Agreement

theorem mapM_first (predicate : Nat → Result Bool) {start n row : Nat} {e : Fault}
    (above : start ≤ row) (inside : row < start + n) (fails : predicate row = .error e) :
    ∃ first e', first ≤ row ∧ (∀ i, start ≤ i → i < first → ∃ v, predicate i = .ok v) ∧
      predicate first = .error e' ∧ (List.range' start n).mapM predicate = .error e' := by
  induction n generalizing start with
  | zero => omega
  | succ n ih =>
    rw [List.range'_succ, List.mapM_cons]
    cases here : predicate start with
    | error e' =>
      exact ⟨start, e', above, fun i low high => absurd low (by omega), here, rfl⟩
    | ok v =>
      have later : start ≠ row := by
        rintro rfl
        exact nomatch here.symm.trans fails
      have above : start + 1 ≤ row := by omega
      have inside : row < start + 1 + n := by omega
      obtain ⟨first, e', before, good, found, ran⟩ := ih above inside
      refine ⟨first, e', before, fun i low high => ?_, found, ?_⟩
      · rcases Nat.eq_or_lt_of_le low with rfl | low
        · exact ⟨v, here⟩
        · exact good i low high
      · rw [ran]
        rfl

variable [ArrowCrate] [ArrowKernels] [ArrowFilters] [Regex]

/-- Filters and limits by columns give what those by rows give, with dates and timestamps declared
    as strings, and a predicate that fails on a row makes the filter fail with its first error. -/
theorem columnar_operators_agree (laws : ArrowLaws) (kernels : KernelLaws) (filters : FilterLaws)
    (b : RecordBatch) (valid : b.Valid) (some' : b.schema.fields ≠ [])
    (small : b.records.length < 2 ^ 32) (columnar : Columnar b) (own : OwnVariants b) :
    (∀ predicate, columnarFilter b predicate = (filterRows predicate b).map declared) ∧
      (∀ predicate, columnarFilter b (predicateAt predicate b) =
        (applyFilter predicate b.schema b).map declared) ∧
      (∀ n, columnarLimit b n = (limitBatch b n).map declared) ∧
      ∀ a predicate row e, row < ArrowCrate.numRows a → predicate row = .error e →
        ∃ first e', first ≤ row ∧ (∀ i < first, ∃ v, predicate i = .ok v) ∧
          predicate first = .error e' ∧ filterVia a predicate = .error e' := by
  refine ⟨columnarFilter_eq laws filters valid some' columnar own, fun predicate => ?_,
    columnarLimit_eq laws kernels filters valid some' small columnar own,
    fun a predicate row e inside fails => ?_⟩
  · rw [applyFilter_eq]
    exact columnarFilter_eq laws filters valid some' columnar own _
  · obtain ⟨first, e', before, good, found, ran⟩ :=
      mapM_first predicate (n := ArrowCrate.numRows a) (Nat.zero_le row) (by omega) fails
    refine ⟨first, e', before, fun i low => good i (Nat.zero_le i) low, found, ?_⟩
    rw [filterVia, List.range_eq_range', ran]
    rfl

end Agreement

section Witness

@[reducible] def listFilters : @ArrowFilters listArrow :=
  @ArrowFilters.mk listArrow (fun values => values.map some)
    (fun rb mask => .ok ⟨rb.schema, rb.columns.map (ListArray.take (trueAt mask))⟩)
    fun schema => ⟨schema, []⟩

theorem listFilters_laws : @FilterLaws listArrow listFilters := by
  refine @FilterLaws.mk listArrow listFilters (fun values => ?_) ?_ fun schema => ⟨rfl, rfl⟩
  · exact holds_list (t := .boolean) (values.map some)
  · intro rb mask cells holds rows
    obtain rfl := list_of_holds holds
    obtain ⟨size, each⟩ := list_taken rb (trueAt mask) fun i mem => by
      rw [← rows]
      exact List.mem_range.mp (List.mem_filter.mp mem).1
    exact ⟨⟨rb.schema, rb.columns.map (ListArray.take (trueAt mask))⟩, rfl, rfl, size, each⟩

theorem first_name_kept : @columnarLimit listArrow listKernels listFilters names 1 =
    (limitBatch names 1).map declared :=
  (@columnar_operators_agree listArrow listKernels listFilters noRegex listArrow_laws
    listKernels_laws listFilters_laws names (by decide) (by decide) (by decide)
    (Or.inr (by decide)) (by decide)).2.2.1 1

def unknownDay : RecordBatch := ⟨⟨[.new "day" .date]⟩, [⟨[.null]⟩]⟩

/-- A column of dates is declared as a column of strings. -/
theorem dates_declared_strings : ¬ ∀ (b : RecordBatch) (predicate : Nat → Result Bool),
    b.Valid → b.schema.fields ≠ [] → RSparkColumnTypes.Typed b b.schema →
    b.records.length < 2 ^ 32 →
      @columnarFilter listArrow listFilters b predicate = filterRows predicate b := by
  intro claim
  have same := claim unknownDay (fun _ => .ok true) (by decide) (by decide)
    (by unfold RSparkColumnTypes.Typed; decide) (by decide)
  have columns : @columnarFilter listArrow listFilters unknownDay (fun _ => .ok true) =
      .ok ⟨⟨[.new "day" .string]⟩, [⟨[.null]⟩]⟩ := rfl
  have rows : filterRows (fun _ => .ok true) unknownDay = .ok unknownDay := rfl
  have schemas := congrArg RecordBatch.schema (Except.ok.inj (columns.symm.trans (same.trans rows)))
  exact absurd schemas (by decide)

end Witness

end RSparkArrowSelect
