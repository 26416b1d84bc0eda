import Mathlib.Algebra.GroupWithZero.Nat
import RSpark.ScalarItems

/- The rows of an aggregation whose evaluations all succeed: one for each text of group values,
   and in it the counts of the records with that text. -/
namespace RSparkGroupRows
open RSparkValue RSparkBatch RSparkExpr RSparkPlan RSparkOperators RSparkGrouping RSparkClauses
open RSparkHavingRewrite RSparkGroupedRows RSparkScalarItems Listing
open RSparkClauseLaw (people)

section Fibers

theorem sum_fibers {α β : Type} [DecidableEq β] {f : α → β} {labels : List β}
    (distinct : labels.Nodup) {l : List α} (covers : ∀ a ∈ l, f a ∈ labels) :
    (labels.map fun c => (l.filter (f · = c)).length).sum = l.length := by
  induction labels generalizing l with
  | nil =>
    cases l with
    | nil => rfl
    | cons a rest => exact nomatch covers a List.mem_cons_self
  | cons c rest ih =>
    obtain ⟨absent, later⟩ := List.nodup_cons.mp distinct
    have inside : ∀ a ∈ l.filter (f · ≠ c), f a ∈ rest := by
      intro a mem
      obtain ⟨listed, other⟩ := List.mem_filter.mp mem
      exact (List.mem_cons.mp (covers a listed)).resolve_left (of_decide_eq_true other)
    have same : rest.map (fun c' => ((l.filter (f · ≠ c)).filter (f · = c')).length) =
        rest.map fun c' => (l.filter (f · = c')).length := by
      refine List.map_congr_left fun c' mem => ?_
      rw [List.filter_filter]
      congr 1
      refine List.filter_congr fun a _ => ?_
      by_cases here : f a = c'
      · have other : f a ≠ c := fun same => absent (same ▸ here ▸ mem)
        simp [here, here ▸ other]
      · simp [here]
    have split := List.length_eq_length_filter_add (l := l) (fun a => f a = c)
    have rest' := ih later inside
    rw [same] at rest'
    rw [List.map_cons, List.sum_cons, rest', split]
    simp

end Fibers

section Rows
variable [Regex]

/-- The group expressions and the arguments of the aggregates have values on every record. -/
structure Evaluates (keys aggs : List Expr) (b : RecordBatch) : Prop where
  keys : ∀ r ∈ b.records, (evalAll r b keys).isOk = true
  args : ∀ r ∈ b.records, ∀ e ∈ aggs, ∀ call ∈ aggregateArg e, (call.1.eval r b).isOk = true

instance (keys aggs : List Expr) (b : RecordBatch) : Decidable (Evaluates keys aggs b) :=
  decidable_of_iff ((∀ r ∈ b.records, (evalAll r b keys).isOk = true) ∧
      ∀ r ∈ b.records, ∀ e ∈ aggs, ∀ call ∈ aggregateArg e, (call.1.eval r b).isOk = true)
    ⟨fun h => ⟨h.1, h.2⟩, fun h => ⟨h.keys, h.args⟩⟩

def groupTexts (keys : List Expr) (b : RecordBatch) : List (List String) :=
  (firsts (b.records.map (groupText keys b))).insertionSort (· ≤ ·)

def rowOf (aggs : List Expr) (b : RecordBatch) (g : Group) : Record :=
  ⟨g.key ++ aggs.map (held b g.rows)⟩

variable {keys aggs : List Expr} {b : RecordBatch}

theorem row_of_summary {text : List String} {state : GroupState}
    (summary : Summarizes keys aggs b (b.records.filter (groupText keys b · = text)) state) :
    state.row = rowOf aggs b (groupOf keys b text) := by
  obtain ⟨r, first, key⟩ := summary.first
  obtain ⟨acc, accumulated, folded⟩ := summary.accumulators
  have same : (groupOf keys b text).key = groupKey keys b r := by
    simp only [groupOf, first, Option.map_some, Option.getD_some]
  rw [GroupState.row, accumulated, key, rowOf, same, List.map_map]
  congr 2
  exact List.map_congr_left fun e listed => (held_of_accumulate (folded e listed)).symm

theorem aggregateBatch_eq (evaluates : Evaluates keys aggs b) (schema : Schema) :
    aggregateBatch keys aggs b schema =
      RecordBatch.fromRecords schema ((groupsBy keys b).map (rowOf aggs b)) := by
  obtain ⟨groups, gathered⟩ := isOk_iff.mp
    (aggregateRecords_total .empty evaluates.keys evaluates.args)
  obtain ⟨_, summaries⟩ := aggregateRecords_entries gathered
  have rows : groups.values.map GroupState.row = (groupsBy keys b).map (rowOf aggs b) := by
    rw [groupsBy, ← aggregateRecords_texts gathered, List.map_map, List.map_map]
    show (groups.entries.map Prod.snd).map GroupState.row = _
    rw [List.map_map]
    exact List.map_congr_left fun entry listed =>
      row_of_summary (summaries entry.1 entry.2 listed)
  rw [aggregateBatch, gathered, ok_bind, rows]

theorem mem_groupTexts {text : List String} :
    text ∈ groupTexts keys b ↔ ∃ r ∈ b.records, groupText keys b r = text := by
  rw [groupTexts, List.mem_insertionSort, mem_firsts, List.mem_map]

theorem groupTexts_ascending (keys : List Expr) (b : RecordBatch) :
    (groupTexts keys b).Pairwise (· < ·) := by
  have sorted := List.pairwise_insertionSort (· ≤ ·)
    (firsts (b.records.map (groupText keys b)))
  have distinct : (groupTexts keys b).Nodup :=
    (List.perm_insertionSort _ _).nodup_iff.mpr (firsts_nodup _)
  exact sorted.imp₂ (fun _ _ le ne => lt_of_le_of_ne le ne) distinct

theorem groupsBy_eq (keys : List Expr) (b : RecordBatch) :
    groupsBy keys b = (groupTexts keys b).map (groupOf keys b) := rfl

theorem groupOf_first {text : List String} (occurs : text ∈ groupTexts keys b) :
    ∃ r, b.records.find? (groupText keys b · = text) = some r ∧
      (groupOf keys b text).key = groupKey keys b r := by
  obtain ⟨r, mem, same⟩ := mem_groupTexts.mp occurs
  cases first : b.records.find? (groupText keys b · = text) with
  | none => exact absurd (decide_eq_true same) (List.find?_eq_none.mp first r mem)
  | some r₀ =>
    refine ⟨r₀, rfl, ?_⟩
    simp only [groupOf, List.head?_filter, first, Option.map_some, Option.getD_some]

theorem groupOf_width (evaluates : Evaluates keys aggs b) {text : List String}
    (occurs : text ∈ groupTexts keys b) : (groupOf keys b text).key.length = keys.length := by
  obtain ⟨r, first, key⟩ := groupOf_first occurs
  obtain ⟨values, evaluated⟩ :=
    isOk_iff.mp (evaluates.keys r (List.mem_of_find?_eq_some first))
  rw [key, groupKey, evaluated]
  exact evalAll_length evaluated

theorem rows_valid (evaluates : Evaluates keys aggs b) :
    ∀ row ∈ (groupsBy keys b).map (rowOf aggs b),
      row.Valid ⟨keys.map aggregateField ++ aggs.map aggregateField⟩ := by
  intro row mem
  obtain ⟨g, grouped, rfl⟩ := List.mem_map.mp mem
  obtain ⟨text, occurs, rfl⟩ := List.mem_map.mp grouped
  constructor
  · simp [rowOf, Schema.fieldCount, groupOf_width evaluates occurs]
  · rintro ⟨v, f⟩ inside _
    rcases List.mem_append.mp (List.of_mem_zip inside).2 with key | agg
    · obtain ⟨e, _, rfl⟩ := List.mem_map.mp key
      rfl
    · obtain ⟨e, _, rfl⟩ := List.mem_map.mp agg
      rfl

theorem aggregateBatch_ok (evaluates : Evaluates keys aggs b) {schema : Schema}
    (built : buildAggregateSchema keys aggs = .ok schema) :
    aggregateBatch keys aggs b schema =
      .ok ⟨schema, (groupsBy keys b).map (rowOf aggs b)⟩ := by
  obtain rfl := Except.ok.inj built
  rw [aggregateBatch_eq evaluates]
  exact fromRecords_of_valid (rows_valid evaluates)

end Rows

section Results

theorem foldl_count (args : List Value) (some : ∀ v ∈ args, v.isNull = false) (n : Nat) :
    args.foldl (fun acc v => acc.update v false) (Accumulator.count n) =
      .count (n + args.length) := by
  induction args generalizing n with
  | nil => rfl
  | cons v rest ih =>
    obtain ⟨here, later⟩ := List.forall_mem_cons.mp some
    rw [List.foldl_cons, Accumulator.update, here, if_neg (by simp), ih later, List.length_cons,
      Nat.add_assoc, Nat.add_comm 1]

variable [Regex] {b : RecordBatch} {rows : List Record}

def resultOf (e : Expr) (args : List Value) : Value :=
  (args.foldl (fun acc v => acc.update v false) (newAccumulator e)).finish

theorem held_eq {e arg : Expr} {distinct : Bool} (called : aggregateArg e = some (arg, distinct))
    (evaluated : ∀ r ∈ rows, (arg.eval r b).isOk = true) :
    held b rows e = resultOf e (rows.map fun r => valueAt b r arg) := by
  have each : ∀ r ∈ rows, ∀ acc, feed b e acc r = .ok (acc.update (valueAt b r arg) false) := by
    intro r mem acc
    obtain ⟨v, value⟩ := isOk_iff.mp (evaluated r mem)
    simp only [feed, called, valueAt, value, answer]
    rfl
  have folded (start : Accumulator) : rows.foldlM (feed b e) start =
      .ok ((rows.map fun r => valueAt b r arg).foldl (fun acc v => acc.update v false) start) := by
    clear evaluated
    induction rows generalizing start with
    | nil => rfl
    | cons r rest ih =>
      rw [List.foldlM_cons, each r List.mem_cons_self start]
      exact ih (fun r' mem => each r' (List.mem_cons_of_mem r mem)) _
  exact held_of_accumulate (folded _)

end Results

section Counts
variable [Regex] {keys aggs : List Expr} {b : RecordBatch}

/-- COUNT( * ) and COUNT(1), with or without an alias. -/
def CountsRecords (e : Expr) : Prop :=
  ∃ distinct, callOf e = some ⟨.count, .literal (.int 1), distinct⟩

theorem held_count {e : Expr} (counts : CountsRecords e) (rows : List Record) :
    held b rows e = .int64 (Int64.ofNat rows.length) := by
  obtain ⟨distinct, called⟩ := counts
  obtain ⟨argument, start⟩ := fed_of_call called
  rw [held_eq argument fun r _ => rfl, resultOf, start]
  show (List.foldl _ (Accumulator.count 0) _).finish = _
  rw [foldl_count _ (fun v mem => ?_)]
  · simp [Accumulator.finish]
  · obtain ⟨r, _, rfl⟩ := List.mem_map.mp mem
    rfl

/-- The row of the records with one text: it starts with the values of the first of them, and its
    counts are how many they are. -/
structure RowFor (keys aggs : List Expr) (b : RecordBatch) (text : List String) (row : Record) :
    Prop where
  width : row.values.length = keys.length + aggs.length
  first : ∃ r, b.records.find? (groupText keys b · = text) = some r ∧
    evalAll r b keys = .ok (row.values.take keys.length)
  counts : ∀ i e, aggs[i]? = some e → CountsRecords e → row.values[keys.length + i]? =
    some (.int64 (Int64.ofNat (b.records.filter (groupText keys b · = text)).length))

theorem rowFor_text (evaluates : Evaluates keys aggs b) {text : List String}
    (occurs : text ∈ groupTexts keys b) :
    RowFor keys aggs b text (rowOf aggs b (groupOf keys b text)) := by
  have width := groupOf_width evaluates occurs
  refine ⟨by simp [rowOf, width], ?_, ?_⟩
  · obtain ⟨r, first, key⟩ := groupOf_first occurs
    obtain ⟨values, evaluated⟩ :=
      isOk_iff.mp (evaluates.keys r (List.mem_of_find?_eq_some first))
    refine ⟨r, first, ?_⟩
    rw [rowOf, List.take_left' width, key, groupKey, evaluated]
    rfl
  · intro i e listed counts
    have place : (rowOf aggs b (groupOf keys b text)).values[keys.length + i]? =
        (aggs[i]?).map (held b (groupOf keys b text).rows) := by
      rw [rowOf, List.getElem?_append_right (by omega), width, Nat.add_sub_cancel_left,
        List.getElem?_map]
    rw [place, listed, Option.map_some, held_count counts]
    rfl

/-- An aggregation has one row for each text of group values, in ascending order; every record
    is counted in exactly one of them. -/
theorem one_row_per_text (keys aggs : List Expr) (b : RecordBatch)
    (evaluates : Evaluates keys aggs b) :
    ∃ texts rows, texts.Pairwise (· < ·) ∧
      (∀ text, text ∈ texts ↔ ∃ r ∈ b.records, groupText keys b r = text) ∧
      (∀ schema, aggregateBatch keys aggs b schema = RecordBatch.fromRecords schema rows) ∧
      (∀ schema, buildAggregateSchema keys aggs = .ok schema →
        aggregateBatch keys aggs b schema = .ok ⟨schema, rows⟩) ∧
      List.Forall₂ (RowFor keys aggs b) texts rows ∧
      (texts.map fun text => (b.records.filter (groupText keys b · = text)).length).sum =
        b.records.length := by
  refine ⟨groupTexts keys b, (groupsBy keys b).map (rowOf aggs b), groupTexts_ascending keys b,
    fun text => mem_groupTexts, aggregateBatch_eq evaluates,
    fun schema built => aggregateBatch_ok evaluates built, ?_, ?_⟩
  · rw [groupsBy_eq, List.map_map, List.forall₂_map_right_iff]
    exact List.forall₂_same.mpr fun text occurs => rowFor_text evaluates occurs
  · have distinct : (groupTexts keys b).Nodup := (groupTexts_ascending keys b).imp ne_of_lt
    exact sum_fibers distinct fun r mem => mem_groupTexts.mpr ⟨r, mem, rfl⟩

end Counts

section Witness

def rowCount : Expr := .aggregate .count (.literal (.int 1)) false

theorem cities_counted :
    ∃ texts rows, texts.Pairwise (· < ·) ∧
      List.Forall₂ (@RowFor noRegex [.column "city"] [rowCount] people) texts rows ∧
      (texts.map fun text => (people.records.filter
        (@groupText noRegex [.column "city"] people · = text)).length).sum = 5 := by
  obtain ⟨texts, rows, ascending, _, _, _, each, counted⟩ :=
    @one_row_per_text noRegex [.column "city"] [rowCount] people (by decide)
  exact ⟨texts, rows, ascending, each, counted⟩

end Witness

end RSparkGroupRows
