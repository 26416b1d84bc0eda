import Mathlib.Data.List.Zip
import RSpark.SchemaFit
import RSpark.ValueKinds

/- The types that plans declare for their columns, against the values that come to stand there.
   Which kinds of values can come to stand in a column is followed from the tables through
   every node of a plan. -/
namespace RSparkColumnTypes
open RSparkValue RSparkBatch RSparkExpr RSparkPlan RSparkOperators RSparkExecutor
open RSparkSchemaContract RSparkSchemaFit RSparkStages RSparkValueKinds

section Nodes

/-- What can stand in a column of a type; for some types there are no values. -/
def typeKinds : DataType → List DataType
  | .date | .timestamp | .null => []
  | t => [t]

theorem kind_of_type {v : Value} {t : DataType} (same : kind v = some t) : t ∈ typeKinds t := by
  cases v with
  | null => exact nomatch same
  | _ =>
    obtain rfl := Option.some.inj same
    exact List.mem_singleton_self _

def schemaKinds (schema : Schema) : RowKinds := schema.fields.map fun f => typeKinds f.dataType

def itemKinds (schema : Schema) (kinds : RowKinds) : Expr → RowKinds
  | .star => kinds
  | .aggregate func arg distinct =>
      [namedKinds schema kinds (Expr.aggregate func arg distinct).displayName]
  | .aliased (.aggregate _ _ _) name => [namedKinds schema kinds name]
  | .aliased inner _ => [exprKinds schema kinds inner]
  | expr => [exprKinds schema kinds expr]

/-- What is not an aggregate call itself is counted, and never fed. -/
def callKinds (schema : Schema) (kinds : RowKinds) : Expr → List DataType
  | .aggregate func arg _ => functionKinds func (exprKinds schema kinds arg)
  | .aliased (.aggregate func arg _) _ => functionKinds func (exprKinds schema kinds arg)
  | _ => [.int64]

def keptKinds (right : Schema) (kinds : RowKinds) (on : List (String × String)) : RowKinds :=
  (right.fields.filter (keptRightField on)).map fun f => namedKinds right kinds f.name

/-- Kinds that do not fit the number of columns are those of a batch without rows. -/
def mergeKinds (count : Nat) (kinds merged : RowKinds) : RowKinds :=
  if kinds.length = count then List.zipWith (· ++ ·) kinds merged else merged

mutual
/-- The kinds of values that can come to stand in the columns of a plan's result. -/
def columnKinds : LogicalPlan → RowKinds
  | .scan _ _ _ schema => schemaKinds schema
  | .empty => []
  | .project input expressions _ =>
      expressions.flatMap (itemKinds input.outputSchema (columnKinds input))
  | .filter input _ _ => columnKinds input
  | .aggregate input groupExprs aggregateExprs _ =>
      groupExprs.map (exprKinds input.outputSchema (columnKinds input)) ++
        aggregateExprs.map (callKinds input.outputSchema (columnKinds input))
  | .sort input _ _ => columnKinds input
  | .limit input _ _ => columnKinds input
  | .distinct input _ => columnKinds input
  | .join left right on _ _ =>
      columnKinds left ++ keptKinds right.outputSchema (columnKinds right) on
  | .union inputs schema => mergedKinds schema.fieldCount inputs

def mergedKinds (count : Nat) : List LogicalPlan → RowKinds
  | [] => List.replicate count []
  | input :: rest => mergeKinds count (columnKinds input) (mergedKinds count rest)
end

end Nodes

section Operators
variable [Regex] {batch : RecordBatch} {kinds : RowKinds}

def RowsOf (kinds : RowKinds) (records : List Record) : Prop :=
  ∀ r ∈ records, HasKinds kinds r.values

theorem project_values_kinds {record : Record} (has : HasKinds kinds record.values) {expr : Expr}
    {values : List Value} (projected : projectValues record batch expr = .ok values) :
    HasKinds (itemKinds batch.schema kinds expr) values := by
  have looked {name : String} {v : Value} (found : lookupByName name record batch = .ok v) :
      OfKinds (namedKinds batch.schema kinds name) v := by
    obtain ⟨i, at', same⟩ := bind_eq_ok.mp found
    obtain rfl := Except.ok.inj same
    exact named_kinds has (orError_eq_ok.mp at')
  cases expr with
  | star =>
    obtain rfl := Except.ok.inj projected
    exact has
  | aggregate func arg distinct =>
    obtain ⟨v, found, same⟩ := bind_eq_ok.mp projected
    obtain rfl := Except.ok.inj same
    exact .cons (looked found) .nil
  | aliased inner name =>
    cases inner with
    | aggregate func arg distinct =>
      obtain ⟨v, found, same⟩ := bind_eq_ok.mp projected
      obtain rfl := Except.ok.inj same
      exact .cons (looked found) .nil
    | _ =>
      obtain ⟨v, ran, same⟩ := bind_eq_ok.mp projected
      obtain rfl := Except.ok.inj same
      exact .cons (eval_kinds has ran) .nil
  | _ =>
    obtain ⟨v, ran, same⟩ := bind_eq_ok.mp projected
    obtain rfl := Except.ok.inj same
    exact .cons (eval_kinds has ran) .nil

theorem project_all_kinds {record : Record} (has : HasKinds kinds record.values)
    {exprs : List Expr} {values : List Value}
    (projected : projectAll record batch exprs = .ok values) :
    HasKinds (exprs.flatMap (itemKinds batch.schema kinds)) values := by
  induction exprs generalizing values with
  | nil =>
    obtain rfl := Except.ok.inj projected
    exact .nil
  | cons expr rest ih =>
    obtain ⟨first, here, projected⟩ := bind_eq_ok.mp projected
    obtain ⟨later, there, projected⟩ := bind_eq_ok.mp projected
    obtain rfl := Except.ok.inj projected
    exact List.rel_append (project_values_kinds has here) (ih there)

theorem evalAll_kinds {record : Record} (has : HasKinds kinds record.values) {exprs : List Expr}
    {values : List Value} (evaluated : evalAll record batch exprs = .ok values) :
    HasKinds (exprs.map (exprKinds batch.schema kinds)) values := by
  rw [RSparkGrouping.evalAll_eq] at evaluated
  rw [HasKinds, List.forall₂_map_left_iff]
  exact (Listing.mapM_eq_ok.mp evaluated).imp fun e v ran => eval_kinds has ran

end Operators

section Groups
open RSparkGrouping

theorem fed_call {e : Expr} {arg : Expr} {distinct : Bool}
    (called : aggregateArg e = some (arg, distinct)) : ∃ func,
    newAccumulator e = .new func ∧ ∀ schema kinds,
      callKinds schema kinds e = functionKinds func (exprKinds schema kinds arg) := by
  unfold aggregateArg at called
  split at called
  · rename_i func a d
    obtain ⟨rfl, rfl⟩ := Prod.mk.inj (Option.some.inj called)
    exact ⟨func, rfl, fun _ _ => rfl⟩
  · rename_i func a d name
    obtain ⟨rfl, rfl⟩ := Prod.mk.inj (Option.some.inj called)
    exact ⟨func, rfl, fun _ _ => rfl⟩
  · exact nomatch called

theorem unfed_item {e : Expr} (called : aggregateArg e = none) :
    newAccumulator e = .count 0 ∧ ∀ schema kinds, callKinds schema kinds e = [.int64] := by
  unfold aggregateArg at called
  split at called
  · exact nomatch called
  · exact nomatch called
  · rename_i notCall notNamed
    constructor
    · unfold newAccumulator
      split
      · exact absurd rfl (notCall _ _ _)
      · exact absurd rfl (notNamed _ _ _ _)
      · rfl
    · intro schema kinds
      unfold callKinds
      split
      · exact absurd rfl (notCall _ _ _)
      · exact absurd rfl (notNamed _ _ _ _)
      · rfl

variable [Regex] {batch : RecordBatch} {kinds : RowKinds}

theorem accumulate_kinds {rows : List Record} (has : RowsOf kinds rows) {e : Expr}
    {acc : Accumulator} (folded : accumulate batch e rows = .ok acc) :
    OfKinds (callKinds batch.schema kinds e) acc.finish := by
  unfold accumulate at folded
  cases called : aggregateArg e with
  | none =>
    obtain ⟨start, same⟩ := unfed_item called
    have kept : rows.foldlM (feed batch e) (newAccumulator e) = .ok (newAccumulator e) := by
      have unfed (acc : Accumulator) (r : Record) : feed batch e acc r = .ok acc := by
        simp only [feed, called]
      clear folded has
      induction rows with
      | nil => rfl
      | cons r rest ih => rw [List.foldlM_cons, unfed, ok_bind, ih]
    obtain rfl := Except.ok.inj (kept.symm.trans folded)
    rw [start, same]
    exact ofKinds_int64 (by simp) _
  | some call =>
    obtain ⟨arg, distinct⟩ := call
    obtain ⟨func, start, same⟩ := fed_call called
    rw [start] at folded
    rw [same]
    have gathers := gathers_new (exprKinds batch.schema kinds arg) func
    generalize Accumulator.new func = first at folded gathers
    refine gathers_finish ?_
    induction rows generalizing first with
    | nil =>
      obtain rfl := Except.ok.inj folded
      exact gathers
    | cons r rest ih =>
      rw [List.foldlM_cons] at folded
      obtain ⟨next, fed, folded⟩ := bind_eq_ok.mp folded
      simp only [feed, called] at fed
      obtain ⟨value, ran, fed⟩ := bind_eq_ok.mp fed
      obtain rfl := Except.ok.inj fed
      refine ih (fun r mem => has r (List.mem_cons_of_mem _ mem)) _ folded ?_
      exact gathers_update gathers (eval_kinds (has r List.mem_cons_self) ran) distinct

theorem group_kinds {groupExprs aggregateExprs : List Expr} {groups : Groups}
    (has : RowsOf kinds batch.records)
    (gathered : aggregateRecords groupExprs aggregateExprs batch .empty batch.records =
      .ok groups) : RowsOf (groupExprs.map (exprKinds batch.schema kinds) ++
        aggregateExprs.map (callKinds batch.schema kinds)) (groups.values.map GroupState.row) := by
  intro row mem
  obtain ⟨state, stored, rfl⟩ := List.mem_map.mp mem
  obtain ⟨⟨text, state⟩, entry, rfl⟩ := List.mem_map.mp stored
  have summary := (aggregateRecords_entries gathered).2 text state entry
  obtain ⟨r, first, grouped⟩ := summary.first
  obtain ⟨acc, accumulated, folded⟩ := summary.accumulators
  have inside := List.mem_of_mem_head? first
  have evaluated := summary.evaluated r inside
  refine List.rel_append ?_ ?_
  · rw [grouped]
    exact evalAll_kinds (has r (List.mem_of_mem_filter inside)) evaluated
  · rw [accumulated, List.forall₂_map_left_iff, List.map_map, List.forall₂_map_right_iff,
      List.forall₂_same]
    intro e listed
    exact accumulate_kinds (fun r mem => has r (List.mem_of_mem_filter mem)) (folded e listed)

end Groups

section Joins
open RSparkJoinLaw
variable {kinds kindsR : RowKinds}

theorem joined_kinds {right : Schema} {on : List (String × String)} {l r : Record}
    (has : HasKinds kinds l.values) (has' : HasKinds kindsR r.values) :
    HasKinds (kinds ++ keptKinds right kindsR on) (joinedRow right on l r).values := by
  rw [joinedRow_eq]
  refine List.rel_append has ?_
  rw [keptKinds, List.forall₂_map_left_iff, List.forall₂_map_right_iff, List.forall₂_same]
  intro f listed
  obtain ⟨j, found⟩ := indexOf_of_mem (List.mem_map_of_mem (List.mem_of_mem_filter listed))
  simp only [keptValue, found]
  exact named_kinds has' found

theorem padded_kinds {right : Schema} {on : List (String × String)} {l : Record}
    (has : HasKinds kinds l.values) :
    HasKinds (kinds ++ keptKinds right kindsR on) (paddedRow right on l).values := by
  refine List.rel_append has ?_
  rw [keptKinds, List.forall₂_map_left_iff, List.forall₂_map_right_iff, List.forall₂_same]
  intro f _
  exact ofKinds_null _

theorem joinRows_kinds {left right : RecordBatch} {on : List (String × String)} {how : JoinType}
    (has : RowsOf kinds left.records) (has' : RowsOf kindsR right.records) :
    RowsOf (kinds ++ keptKinds right.schema kindsR on)
      (left.records.flatMap (joinRowsOf left right on how)) := by
  intro row mem
  obtain ⟨l, listed, mem⟩ := List.mem_flatMap.mp mem
  simp only [joinRowsOf] at mem
  split at mem
  · obtain rfl := List.mem_singleton.mp mem
    exact padded_kinds (has l listed)
  · obtain ⟨r, matched, rfl⟩ := List.mem_map.mp mem
    exact joined_kinds (has l listed) (has' r (List.mem_of_mem_filter matched))

end Joins

section Unions

theorem mergedKinds_length (count : Nat) (inputs : List LogicalPlan) :
    (mergedKinds count inputs).length = count := by
  induction inputs with
  | nil => simp [mergedKinds]
  | cons input rest ih =>
    rw [mergedKinds, mergeKinds]
    split
    · rename_i same
      rw [List.length_zipWith, same, ih, Nat.min_self]
    · exact ih

theorem zipWith_left {kinds merged : RowKinds} {values : List Value}
    (same : merged.length = kinds.length) (has : HasKinds kinds values) :
    HasKinds (List.zipWith (· ++ ·) kinds merged) values := by
  induction has generalizing merged with
  | nil => exact .nil
  | cons first _ ih =>
    cases merged with
    | nil => exact absurd same (by simp)
    | cons ks merged =>
      exact .cons (first.mono fun k mem => List.mem_append_left _ mem) (ih (by simpa using same))

theorem zipWith_right {kinds merged : RowKinds} {values : List Value}
    (same : kinds.length = merged.length) (has : HasKinds merged values) :
    HasKinds (List.zipWith (· ++ ·) kinds merged) values := by
  induction has generalizing kinds with
  | nil =>
    obtain rfl := List.length_eq_zero_iff.mp same
    exact .nil
  | cons first _ ih =>
    cases kinds with
    | nil => exact absurd same (by simp)
    | cons ks kinds =>
      exact .cons (first.mono fun k mem => List.mem_append_right _ mem) (ih (by simpa using same))

theorem merge_kinds {count : Nat} {kinds merged : RowKinds} {values : List Value}
    (wide : merged.length = count) (width : values.length = count) :
    (HasKinds kinds values → HasKinds (mergeKinds count kinds merged) values) ∧
      (HasKinds merged values → HasKinds (mergeKinds count kinds merged) values) := by
  unfold mergeKinds
  constructor
  · intro has
    have same : kinds.length = count := has.length_eq.trans width
    rw [if_pos same]
    exact zipWith_left (wide.trans same.symm) has
  · intro has
    split
    · rename_i same
      exact zipWith_right (same.trans wide.symm) has
    · exact has

end Unions

section Plans

/-- Each value of a batch that is not NULL is of its field's type. -/
def Typed (b : RecordBatch) (schema : Schema) : Prop :=
  ∀ r ∈ b.records, ∀ p ∈ r.values.zip schema.fields, p.1 ≠ .null → kind p.1 = some p.2.dataType

def SourcesTyped (ctx : ExecutionContext) (requests : List ScanRequest) : Prop :=
  SourcesConform ctx requests ∧ ∀ r ∈ requests, ∀ b,
    scanSource ctx r.path r.source r.schema = .ok b → Typed b r.schema

theorem sourcesTyped_append {ctx : ExecutionContext} {xs ys : List ScanRequest}
    (typed : SourcesTyped ctx (xs ++ ys)) : SourcesTyped ctx xs ∧ SourcesTyped ctx ys := by
  obtain ⟨honest, shown⟩ := typed
  obtain ⟨here, later⟩ := sources_append honest
  constructor
  · exact ⟨here, fun r mem => shown r (List.mem_append_left ys mem)⟩
  · exact ⟨later, fun r mem => shown r (List.mem_append_right xs mem)⟩

theorem rows_of_typed {b : RecordBatch} {schema : Schema} (conforms : Conforms b schema)
    (typed : Typed b schema) : RowsOf (schemaKinds schema) b.records := by
  intro r mem
  obtain ⟨rfl, valid⟩ := conforms
  have width : r.values.length = b.schema.fields.length := (valid r mem).1
  rw [HasKinds, schemaKinds, List.forall₂_map_left_iff, List.forall₂_iff_zip]
  refine ⟨width.symm, fun {f v} inside k same => ?_⟩
  have swapped : (v, f) ∈ r.values.zip b.schema.fields := by
    rw [← List.zip_swap]
    exact List.mem_map_of_mem inside
  have shown : v ≠ .null := by
    rintro rfl
    exact nomatch same
  have type := typed r mem (v, f) swapped shown
  obtain rfl := Option.some.inj (same.symm.trans type)
  exact kind_of_type same

theorem applyLimit_kinds {count : Nat} {schema : Schema} {batch b : RecordBatch}
    {kinds : RowKinds} (has : RowsOf kinds batch.records)
    (ran : applyLimit count schema batch = .ok b) : RowsOf kinds b.records := by
  obtain ⟨limited, limit, built⟩ := bind_eq_ok.mp ran
  obtain ⟨rfl, _⟩ := fromRecords_eq_ok.mp built
  obtain ⟨rfl, _⟩ := fromRecords_eq_ok.mp limit
  intro r mem
  exact has r (List.mem_of_mem_take mem)

theorem applyJoin_kinds {left : Schema} {on : List (String × String)} {how : JoinType}
    {schema : Schema} {batch b right : RecordBatch} {kinds kindsR : RowKinds}
    (has : RowsOf kinds batch.records) (has' : RowsOf kindsR right.records)
    (ran : applyJoin left on how schema batch (.ok right) = .ok b) :
    RowsOf (kinds ++ keptKinds right.schema kindsR on) b.records := by
  obtain ⟨leftBatch, extended, ran⟩ := bind_eq_ok.mp ran
  obtain ⟨rightBatch, same, ran⟩ := bind_eq_ok.mp ran
  obtain rfl := Except.ok.inj same
  obtain ⟨joined, join, built⟩ := bind_eq_ok.mp ran
  obtain ⟨rfl, _⟩ := fromRecords_eq_ok.mp built
  have rows : leftBatch.records = batch.records := by
    obtain ⟨_, rfl⟩ := extend_eq_ok.mp extended
    rfl
  unfold joinBatches at join
  split at join
  · exact nomatch join
  · obtain ⟨rfl, _⟩ := fromRecords_eq_ok.mp join
    exact joinRows_kinds (rows ▸ has) has'

variable [Regex]

theorem applyProject_kinds {expressions : List Expr} {schema : Schema} {batch b : RecordBatch}
    {kinds : RowKinds} (has : RowsOf kinds batch.records)
    (ran : applyProject expressions schema batch = .ok b) :
    RowsOf (expressions.flatMap (itemKinds batch.schema kinds)) b.records := by
  intro row mem
  obtain ⟨r, listed, found⟩ := Listing.forall₂_mem (applyProject_rows ran).2 row mem
  exact project_all_kinds (has r listed) found

theorem applyFilter_kinds {predicate : Expr} {schema : Schema} {batch b : RecordBatch}
    {kinds : RowKinds} (has : RowsOf kinds batch.records)
    (ran : applyFilter predicate schema batch = .ok b) : RowsOf kinds b.records := by
  obtain ⟨kept, filtered, built⟩ := bind_eq_ok.mp ran
  obtain ⟨rfl, _⟩ := fromRecords_eq_ok.mp built
  intro r mem
  exact has r (mem_filterRecords filtered r mem)

theorem applySort_kinds {order : List SortExpr} {schema : Schema} {batch b : RecordBatch}
    {kinds : RowKinds} (has : RowsOf kinds batch.records)
    (ran : applySort order schema batch = .ok b) : RowsOf kinds b.records := by
  obtain ⟨sorted, sort, built⟩ := bind_eq_ok.mp ran
  obtain ⟨rfl, _⟩ := fromRecords_eq_ok.mp built
  obtain ⟨indexed, keyed, built⟩ := bind_eq_ok.mp sort
  obtain ⟨rfl, _⟩ := fromRecords_eq_ok.mp built
  intro r mem
  obtain ⟨pair, inside, rfl⟩ := List.mem_map.mp mem
  have listed := (List.perm_insertionSort _ indexed).mem_iff.mp inside
  exact has _ (keyedRecords_fst keyed ▸ List.mem_map_of_mem listed)

theorem applyAggregate_kinds {groupExprs aggregateExprs : List Expr} {schema : Schema}
    {batch b : RecordBatch} {kinds : RowKinds} (has : RowsOf kinds batch.records)
    (ran : aggregateBatch groupExprs aggregateExprs batch schema = .ok b) :
    RowsOf (groupExprs.map (exprKinds batch.schema kinds) ++
      aggregateExprs.map (callKinds batch.schema kinds)) b.records := by
  obtain ⟨groups, gathered, built⟩ := bind_eq_ok.mp ran
  obtain ⟨rfl, _⟩ := fromRecords_eq_ok.mp built
  exact group_kinds has gathered

mutual
theorem execute_kinds (ctx : ExecutionContext) :
    (plan : LogicalPlan) → SourcesTyped ctx plan.scans → ∀ b, execute ctx plan = .ok b →
      RowsOf (columnKinds plan) b.records
  | .scan name path source schema, typed, b, ran => by
    obtain ⟨batch, read, ran⟩ := bind_eq_ok.mp ran
    obtain rfl := Except.ok.inj ran
    have asked : (⟨path, source, schema⟩ : ScanRequest) ∈
        (LogicalPlan.scan name path source schema).scans := List.mem_singleton_self _
    split
    · intro r mem
      exact nomatch mem
    · exact rows_of_typed (typed.1 _ asked batch read) (typed.2 _ asked batch read)
  | .empty, _, b, ran => by
    obtain rfl := Except.ok.inj ran
    intro r mem
    exact nomatch mem
  | .project input _ _, typed, b, ran => by
    obtain ⟨batch, below, ran⟩ := bind_eq_ok.mp ran
    have same := (execute_conforms_tree ctx input typed.1 batch below).1
    rw [columnKinds, ← same]
    exact applyProject_kinds (execute_kinds ctx input typed batch below) ran
  | .filter input _ _, typed, b, ran => by
    obtain ⟨batch, below, ran⟩ := bind_eq_ok.mp ran
    exact applyFilter_kinds (execute_kinds ctx input typed batch below) ran
  | .aggregate input _ _ _, typed, b, ran => by
    obtain ⟨batch, below, ran⟩ := bind_eq_ok.mp ran
    have same := (execute_conforms_tree ctx input typed.1 batch below).1
    rw [columnKinds, ← same]
    exact applyAggregate_kinds (execute_kinds ctx input typed batch below) ran
  | .sort input _ _, typed, b, ran => by
    obtain ⟨batch, below, ran⟩ := bind_eq_ok.mp ran
    exact applySort_kinds (execute_kinds ctx input typed batch below) ran
  | .limit input _ _, typed, b, ran => by
    obtain ⟨batch, below, ran⟩ := bind_eq_ok.mp ran
    exact applyLimit_kinds (execute_kinds ctx input typed batch below) ran
  | .distinct input _, typed, b, ran => by
    obtain ⟨batch, below, built⟩ := bind_eq_ok.mp ran
    obtain ⟨rfl, _⟩ := fromRecords_eq_ok.mp built
    have has := execute_kinds ctx input typed batch below
    intro r mem
    exact has r (mem_distinctRecords r mem)
  | .join left right _ _ _, typed, b, ran => by
    obtain ⟨typedLeft, typedRight⟩ := sourcesTyped_append typed
    obtain ⟨batch, below, ran⟩ := bind_eq_ok.mp ran
    cases below' : execute ctx right with
    | error e =>
      rw [below'] at ran
      obtain ⟨_, _, ran⟩ := bind_eq_ok.mp ran
      exact nomatch ran
    | ok batch' =>
      have same := (execute_conforms_tree ctx right typedRight.1 batch' below').1
      rw [below'] at ran
      rw [columnKinds, ← same]
      exact applyJoin_kinds (execute_kinds ctx left typedLeft batch below)
        (execute_kinds ctx right typedRight batch' below') ran
  | .union [] _, _, b, ran => by
    obtain rfl := Except.ok.inj ran
    intro r mem
    exact nomatch mem
  | .union (first :: rest) schema, typed, b, ran => by
    obtain ⟨_, _, ran⟩ := bind_eq_ok.mp ran
    intro r mem
    rcases executeUnion_kinds ctx (first :: rest) typed schema.fieldCount
      (RecordBatch.new schema) rfl b ran r mem with listed | of
    · exact nomatch listed
    · exact of

theorem executeUnion_kinds (ctx : ExecutionContext) :
    (inputs : List LogicalPlan) → SourcesTyped ctx (scansOfAll inputs) → ∀ count combined,
      combined.schema.fieldCount = count → ∀ b, executeUnion ctx inputs combined = .ok b →
      ∀ r ∈ b.records, r ∈ combined.records ∨ HasKinds (mergedKinds count inputs) r.values
  | [], _, _, combined, _, b, ran => by
    obtain rfl := Except.ok.inj ran
    intro r mem
    exact .inl mem
  | input :: rest, typed, count, combined, width, b, ran => by
    have both : SourcesTyped ctx (input.scans ++ scansOfAll rest) := typed
    obtain ⟨here, later⟩ := sourcesTyped_append both
    obtain ⟨one, below, ran⟩ := bind_eq_ok.mp ran
    obtain ⟨more, extended, ran⟩ := bind_eq_ok.mp ran
    obtain ⟨same, rfl⟩ := extend_eq_ok.mp extended
    have wide := mergedKinds_length count rest
    have has := execute_kinds ctx input here one below
    have valid := (execute_conforms_tree ctx input here.1 one below).2
    intro r mem
    rcases executeUnion_kinds ctx rest later count
      ⟨combined.schema, combined.records ++ one.records⟩ width b ran r mem with listed | of
    · rcases List.mem_append.mp listed with old | new
      · exact .inl old
      · have fits : r.values.length = count := by
          rw [← width, same]
          exact (valid r new).1
        exact .inr ((merge_kinds wide fits).1 (has r new))
    · exact .inr ((merge_kinds wide (of.length_eq.symm.trans wide)).2 of)
end

end Plans

section Declared

/-- Whatever can come to stand in a column is of the type the plan declares for it. -/
def DeclaredKinds (plan : LogicalPlan) : Prop :=
  ∀ p ∈ (columnKinds plan).zip plan.outputSchema.fields, ∀ k ∈ p.1, k = p.2.dataType

instance (plan : LogicalPlan) : Decidable (DeclaredKinds plan) :=
  inferInstanceAs (Decidable (∀ p ∈ _, ∀ k ∈ Prod.fst p, k = _))

theorem of_declared {kinds : RowKinds} {fields : List Field} {values : List Value}
    (has : HasKinds kinds values) (declared : ∀ p ∈ kinds.zip fields, ∀ k ∈ p.1, k = p.2.dataType) :
    ∀ p ∈ values.zip fields, p.1 ≠ .null → kind p.1 = some p.2.dataType := by
  induction has generalizing fields with
  | nil => exact fun p mem => nomatch mem
  | @cons ks v _ _ first _ ih =>
    cases fields with
    | nil => exact fun p mem => nomatch mem
    | cons f fields =>
      intro p mem shown
      rcases List.mem_cons.mp mem with rfl | mem
      · cases same : kind v with
        | none => exact absurd (kind_eq_none.mp same) shown
        | some k =>
          rw [declared (ks, f) List.mem_cons_self k (first k same)]
      · exact ih (fun p mem => declared p (List.mem_cons_of_mem _ mem)) p mem shown

variable [Regex]

/-- Over typed tables the values of a result are of the types its plan declares, where only
    values of these types can come to stand in its columns. -/
theorem declared_types_hold (ctx : ExecutionContext) (plan : LogicalPlan)
    (declared : DeclaredKinds plan) (typed : SourcesTyped ctx plan.scans) (b : RecordBatch)
    (ran : execute ctx plan = .ok b) : Typed b plan.outputSchema :=
  fun r mem => of_declared (execute_kinds ctx plan typed b ran r mem) declared

end Declared

section Columns

/-- The columns that `SELECT` names, each declared as a string. -/
def selectColumns (names : List String) (input : LogicalPlan) : LogicalPlan :=
  .project input (names.map .column)
    ⟨(names.map .column).flatMap (projectFields input.outputSchema)⟩

theorem selected_fields (names : List String) (input : LogicalPlan) :
    (selectColumns names input).outputSchema.fields = names.map fun n => Field.new n .string := by
  show (names.map Expr.column).flatMap (projectFields input.outputSchema) = _
  induction names with
  | nil => rfl
  | cons name rest ih => rw [List.map_cons, List.flatMap_cons, ih]; rfl

variable [Regex] {batch : RecordBatch}

theorem columns_read {r : Record} {names : List String} {values : List Value}
    (projected : projectAll r batch (names.map .column) = .ok values) :
    List.Forall₂ (fun name v => ∃ i, batch.schema.indexOf name = some i ∧ v = r.getOrNull i)
      names values := by
  induction names generalizing values with
  | nil =>
    obtain rfl := Except.ok.inj projected
    exact .nil
  | cons name rest ih =>
    obtain ⟨first, here, projected⟩ := bind_eq_ok.mp projected
    obtain ⟨later, there, projected⟩ := bind_eq_ok.mp projected
    obtain rfl := Except.ok.inj projected
    obtain ⟨v, evaluated, here⟩ := bind_eq_ok.mp here
    obtain rfl := Except.ok.inj here
    obtain ⟨i, found, evaluated⟩ := bind_eq_ok.mp evaluated
    obtain rfl := Except.ok.inj evaluated
    exact .cons ⟨i, orError_eq_ok.mp found, rfl⟩ (ih there)

theorem typed_row_iff {r : Record} {names : List String} {values : List Value}
    (projected : projectAll r batch (names.map .column) = .ok values) :
    (∀ p ∈ values.zip (names.map fun n => Field.new n .string),
      p.1 ≠ .null → kind p.1 = some p.2.dataType) ↔
    ∀ name ∈ names, ∀ i, batch.schema.indexOf name = some i →
      OfKinds [.string] (r.getOrNull i) := by
  have read := columns_read projected
  clear projected
  induction read with
  | nil => exact ⟨fun _ name mem => (nomatch mem), fun _ p mem => (nomatch mem)⟩
  | @cons name v _ _ first _ ih =>
    obtain ⟨i, found, rfl⟩ := first
    rw [List.map_cons, List.zip_cons_cons, List.forall_mem_cons, List.forall_mem_cons]
    refine and_congr ?_ ih
    constructor
    · intro shown j found' k same
      obtain rfl := Option.some.inj (found.symm.trans found')
      have shown' : r.getOrNull i ≠ .null := fun isNull => by
        rw [kind_eq_none.mpr isNull] at same
        exact nomatch same
      obtain rfl := Option.some.inj (same.symm.trans (shown shown'))
      exact List.mem_singleton_self _
    · intro of shown
      cases same : kind (r.getOrNull i) with
      | none => exact absurd (kind_eq_none.mp same) shown
      | some k =>
        obtain rfl := List.mem_singleton.mp (of i found k same)
        rfl

theorem selected_typed_iff {ctx : ExecutionContext} {names : List String} {input : LogicalPlan}
    {b : RecordBatch} (below : execute ctx input = .ok batch)
    (ran : execute ctx (selectColumns names input) = .ok b) :
    Typed b (selectColumns names input).outputSchema ↔
      ∀ r ∈ batch.records, ∀ name ∈ names, ∀ i, batch.schema.indexOf name = some i →
        OfKinds [.string] (r.getOrNull i) := by
  obtain ⟨batch', same, ran⟩ := bind_eq_ok.mp ran
  obtain rfl := Except.ok.inj (below.symm.trans same)
  obtain ⟨_, each⟩ := applyProject_rows ran
  rw [Typed, selected_fields]
  exact Listing.forall₂_forall_iff each fun r row => typed_row_iff

end Columns

section Witness
open RSparkSqlAst RSparkPlanner

/-- `SELECT column FROM table` -/
def columnQuery (column table : String) : Query :=
  .mk false (.select ⟨none, [.unnamedExpr (.identifier ⟨column⟩)], [tableNamed table], none,
    .expressions [], none⟩) none none none

def columnPlan (column table : String) (schema : Schema) : LogicalPlan :=
  selectColumns [column] (.scan table table "csv" schema)

def textSchema : Schema := ⟨[.new "n" .string]⟩

def answering (b : RecordBatch) : ExecutionContext := ⟨⟨fun _ => some ⟨fun _ _ => .ok b⟩⟩⟩

theorem answering_typed (table : String) {b : RecordBatch} (valid : b.Valid)
    (typed : Typed b b.schema) : SourcesTyped (answering b) [⟨table, "csv", b.schema⟩] := by
  constructor
  · intro r mem b' read
    obtain rfl := List.mem_singleton.mp mem
    obtain rfl := Except.ok.inj read
    exact ⟨rfl, valid⟩
  · intro r mem b' read
    obtain rfl := List.mem_singleton.mp mem
    obtain rfl := Except.ok.inj read
    exact typed

theorem text_column_holds :
    @planQuery noParser (pairCatalog textSchema) (columnQuery "n" "b") =
      .ok (columnPlan "n" "b" textSchema) ∧
    Typed ⟨textSchema, [⟨[.string "ann"]⟩, ⟨[.null]⟩]⟩
      (columnPlan "n" "b" textSchema).outputSchema := by
  have typed := answering_typed "b" (b := ⟨textSchema, [⟨[.string "ann"]⟩, ⟨[.null]⟩]⟩)
    (by decide) (by simp [Typed, textSchema, Field.new, kind])
  exact ⟨rfl, @declared_types_hold noRegex _ (columnPlan "n" "b" textSchema) (by decide) typed _ rfl⟩

/-- `x` is declared as a string, and what comes back is an integer. -/
theorem integer_column_mistyped :
    ¬ ∀ (catalog : Catalog) (query : Query) (plan : LogicalPlan) (ctx : ExecutionContext),
      @planQuery noParser catalog query = .ok plan → SourcesTyped ctx plan.scans →
      ∀ b, @execute noRegex ctx plan = .ok b → Typed b plan.outputSchema := by
  intro claim
  have typed := answering_typed "a" (b := ⟨leftSchema, [⟨[.int64 1]⟩]⟩)
    (by decide) (by simp [Typed, leftSchema, Field.new, kind])
  have ran : @execute noRegex (answering ⟨leftSchema, [⟨[.int64 1]⟩]⟩)
      (columnPlan "x" "a" leftSchema) = .ok ⟨⟨[.new "x" .string]⟩, [⟨[.int64 1]⟩]⟩ := rfl
  have shown := claim (pairCatalog leftSchema) (columnQuery "x" "a") _ _ rfl typed _ ran
    ⟨[.int64 1]⟩ List.mem_cons_self (.int64 1, .new "x" .string) List.mem_cons_self (by simp)
  exact nomatch shown

end Witness

end RSparkColumnTypes
