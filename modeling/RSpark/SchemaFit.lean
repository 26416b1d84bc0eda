import RSpark.Grouping
import RSpark.JoinLaw
import RSpark.SchemaContract
import RSpark.Stages

/- The schemas that the planner builds fit the rows that the executor builds. The executor is
   compared with one that builds the same rows and never checks them. -/
namespace RSparkSchemaFit
open RSparkValue RSparkBatch RSparkExpr RSparkPlan RSparkOperators RSparkExecutor RSparkSqlAst
open RSparkExprBuilder RSparkPlanner RSparkSchemaContract RSparkStages

section Unchecked
variable [Regex]

def projectRows (expressions : List Expr) (batch : RecordBatch) : List Record → Result (List Record)
  | [] => .ok []
  | record :: rest => do
      let values ← projectAll record batch expressions
      .ok (⟨values⟩ :: (← projectRows expressions batch rest))

def uncheckedProject (expressions : List Expr) (schema : Schema) (batch : RecordBatch) :
    Result RecordBatch :=
  if expressions.any isStar ∧ expressions.length = 1 then .ok ⟨schema, batch.records⟩
  else do .ok ⟨schema, ← projectRows expressions batch batch.records⟩

def uncheckedFilter (predicate : Expr) (schema : Schema) (batch : RecordBatch) :
    Result RecordBatch := do
  .ok ⟨schema, ← filterRecords predicate batch batch.records⟩

def uncheckedAggregate (groupExprs aggregateExprs : List Expr) (schema : Schema)
    (batch : RecordBatch) : Result RecordBatch := do
  let groups ← aggregateRecords groupExprs aggregateExprs batch .empty batch.records
  .ok ⟨schema, groups.values.map GroupState.row⟩

def uncheckedSort (order : List SortExpr) (schema : Schema) (batch : RecordBatch) :
    Result RecordBatch := do
  let indexed ← keyedRecords order batch batch.records
  .ok ⟨schema, (sortBy (fun a b => compareKeys order a.2 b.2) indexed).map Prod.fst⟩

def uncheckedJoin (leftSchema : Schema) (on : List (String × String)) (how : JoinType)
    (schema : Schema) (batch : RecordBatch) (executedRight : Result RecordBatch) :
    Result RecordBatch := do
  let rightBatch ← executedRight
  if how = .right ∨ how = .full then err (.execution s!"{how.debugName} join not implemented")
  else
    .ok ⟨schema, batch.records.flatMap (joinRowsOf ⟨leftSchema, batch.records⟩ rightBatch on how)⟩

mutual
/-- Execution without the checks of width, of nullability and of schemas. -/
def runUnchecked (ctx : ExecutionContext) : LogicalPlan → Result RecordBatch
  | .scan _ path source schema => do
      let batch ← scanSource ctx path source schema
      .ok (if batch.isEmpty then RecordBatch.new schema else batch)
  | .empty => .ok (RecordBatch.new Schema.empty)
  | .project input expressions schema => do
      uncheckedProject expressions schema (← runUnchecked ctx input)
  | .filter input predicate schema => do
      uncheckedFilter predicate schema (← runUnchecked ctx input)
  | .aggregate input groupExprs aggregateExprs schema => do
      uncheckedAggregate groupExprs aggregateExprs schema (← runUnchecked ctx input)
  | .sort input order schema => do uncheckedSort order schema (← runUnchecked ctx input)
  | .limit input count schema => do
      .ok ⟨schema, (← runUnchecked ctx input).records.take count⟩
  | .join left right on how schema => do
      uncheckedJoin left.outputSchema on how schema (← runUnchecked ctx left)
        (runUnchecked ctx right)
  | .union inputs schema => do
      .ok ⟨schema, ← uncheckedUnion ctx inputs⟩
  | .distinct input schema => do
      .ok ⟨schema, distinctRecords [] (← runUnchecked ctx input).records⟩

def uncheckedUnion (ctx : ExecutionContext) : List LogicalPlan → Result (List Record)
  | [] => .ok []
  | input :: rest => do
      let b ← runUnchecked ctx input
      .ok (b.records ++ (← uncheckedUnion ctx rest))
end

end Unchecked

section Shapes

inductive FromTables : LogicalPlan → Prop where
  | scan (name path source : String) (schema : Schema) :
      FromTables (.scan name path source schema)
  | join {left : LogicalPlan} (tables : FromTables left) (name path source : String)
      (right : Schema) : FromTables (.join left (.scan name path source right)
        (joinPairs left.outputSchema right) .inner
        (joinSchema left.outputSchema right (joinPairs left.outputSchema right)))

/-- Plans whose nodes carry the schemas that are built for them; of unions nothing is said. -/
inductive Planned : LogicalPlan → Prop where
  | empty : Planned .empty
  | tables {plan : LogicalPlan} (from' : FromTables plan) : Planned plan
  | project {input : LogicalPlan} (shape : Planned input) (expressions : List Expr) :
      Planned (.project input expressions
        ⟨expressions.flatMap (projectFields input.outputSchema)⟩)
  | filter {input : LogicalPlan} (shape : Planned input) (predicate : Expr) :
      Planned (.filter input predicate input.outputSchema)
  | aggregate {input : LogicalPlan} (shape : Planned input) (groupExprs aggregateExprs : List Expr) :
      Planned (.aggregate input groupExprs aggregateExprs
        ⟨groupExprs.map aggregateField ++ aggregateExprs.map aggregateField⟩)
  | sort {input : LogicalPlan} (shape : Planned input) (order : List SortExpr) :
      Planned (.sort input order input.outputSchema)
  | limit {input : LogicalPlan} (shape : Planned input) (count : Nat) :
      Planned (.limit input count input.outputSchema)
  | distinct {input : LogicalPlan} (shape : Planned input) :
      Planned (.distinct input input.outputSchema)
  | union (inputs : List LogicalPlan) (schema : Schema) : Planned (.union inputs schema)

theorem buildTableScan_scan {name : String} {alias' : Option String} {catalog : Catalog}
    {plan : LogicalPlan} (built : buildTableScan name alias' catalog = .ok plan) :
    ∃ path source schema, plan = .scan name path source schema := by
  obtain ⟨⟨path, source⟩, _, built⟩ := bind_eq_ok.mp built
  obtain ⟨schema, _, built⟩ := bind_eq_ok.mp built
  exact ⟨path, source, schema, (Except.ok.inj built).symm⟩

theorem joinTables_from {catalog : Catalog} {tables : List (String × Option String)}
    {plan joined : LogicalPlan} (from' : FromTables plan)
    (built : joinTables catalog plan tables = .ok joined) : FromTables joined := by
  induction tables generalizing plan with
  | nil =>
    obtain rfl := Except.ok.inj built
    exact from'
  | cons table tables ih =>
    obtain ⟨right, scan, built⟩ := bind_eq_ok.mp built
    obtain ⟨path, source, schema, rfl⟩ := buildTableScan_scan scan
    exact ih (.join from' table.1 path source schema) built

theorem buildFromClause_planned {catalog : Catalog} {tables : List (String × Option String)}
    {plan : LogicalPlan} (built : buildFromClause tables catalog = .ok plan) : Planned plan := by
  cases tables with
  | nil =>
    obtain rfl := Except.ok.inj built
    exact .empty
  | cons table tables =>
    obtain ⟨first, scan, built⟩ := bind_eq_ok.mp built
    obtain ⟨path, source, schema, rfl⟩ := buildTableScan_scan scan
    exact .tables (joinTables_from (.scan table.1 path source schema) built)

theorem filtered_planned {input plan : LogicalPlan} (shape : Planned input)
    (filtered : Filtered input plan) : Planned plan := by
  cases filtered with
  | same => exact shape
  | filter predicate => exact shape.filter predicate

theorem shaped_planned {projections groupExprs : List Expr} {input plan : LogicalPlan}
    (shape : Planned input) (shaped : Shaped projections groupExprs input plan) :
    Planned plan := by
  cases shaped with
  | grouped _ having =>
    apply filtered_planned _ having
    exact (shape.aggregate _ _).project projections
  | distinct => exact (shape.project projections).distinct
  | plain => exact shape.project projections

theorem planSelect_planned {select : Select} {catalog : Catalog} {plan : LogicalPlan}
    (built : planSelect select catalog = .ok plan) : Planned plan := by
  obtain ⟨tables, source, input, projections, groupExprs, _, clause, filtered, shaped⟩ :=
    planSelect_shaped built
  apply shaped_planned _ shaped
  apply filtered_planned _ filtered
  exact buildFromClause_planned clause

theorem planSort_planned {input : LogicalPlan} (shape : Planned input) (order : List SortExpr) :
    Planned (planSort order input) := by
  unfold planSort
  split
  · exact shape
  · exact shape.sort order

theorem planLimit_planned [SqlParser] {limit : Option SqlExpr} {input plan : LogicalPlan}
    (shape : Planned input) (built : planLimit limit input = .ok plan) : Planned plan := by
  cases limit with
  | none =>
    obtain rfl := Except.ok.inj built
    exact shape
  | some clause =>
    obtain ⟨count, _, built⟩ := bind_eq_ok.mp built
    obtain rfl := Except.ok.inj built
    exact shape.limit count

mutual
theorem planQuery_planned [SqlParser] {catalog : Catalog} :
    (query : Query) → ∀ {plan}, planQuery catalog query = .ok plan → Planned plan
  | .mk withClause body orderBy limit offset, plan, built => by
    simp only [planQuery] at built
    split at built
    · exact nomatch built
    · obtain ⟨inner, set, built⟩ := bind_eq_ok.mp built
      obtain ⟨keys, _, built⟩ := bind_eq_ok.mp built
      exact planLimit_planned (planSort_planned (planSetExpr_planned body set) keys) built

theorem planSetExpr_planned [SqlParser] {catalog : Catalog} :
    (body : SetExpr) → ∀ {plan}, planSetExpr catalog body = .ok plan → Planned plan
  | .select select, plan, built => planSelect_planned built
  | .query query, plan, built => planQuery_planned query built
  | .setOperation .union _ left right, plan, built => by
    obtain ⟨l, _, built⟩ := bind_eq_ok.mp built
    obtain ⟨r, _, built⟩ := bind_eq_ok.mp built
    obtain rfl := Except.ok.inj built
    exact .union _ _
  | .setOperation (.other _) _ _ _, plan, built => nomatch built
  | .other _, plan, built => nomatch built
end

end Shapes

section Rows
variable {schema : Schema}

theorem fromRecords_subset {records kept : List Record}
    (valid : ∀ r ∈ records, r.Valid schema) (subset : ∀ r ∈ kept, r ∈ records) :
    RecordBatch.fromRecords schema kept = .ok ⟨schema, kept⟩ :=
  fromRecords_of_valid fun r mem => valid r (subset r mem)

def Open (fields : List Field) : Prop := ∀ f ∈ fields, f.nullable = true

theorem valid_append {left right : List Value} {fields fields' : List Field}
    (first : (⟨left⟩ : Record).Valid ⟨fields⟩) (second : (⟨right⟩ : Record).Valid ⟨fields'⟩) :
    (⟨left ++ right⟩ : Record).Valid ⟨fields ++ fields'⟩ := by
  have count : left.length = fields.length := first.1
  have count' : right.length = fields'.length := second.1
  refine ⟨by simp [Schema.fieldCount, count, count'], ?_⟩
  rw [List.zip_append count]
  intro p mem isNull
  rcases List.mem_append.mp mem with here | there
  · exact first.2 p here isNull
  · exact second.2 p there isNull

theorem valid_open {values : List Value} {fields : List Field}
    (count : values.length = fields.length) (nullable : Open fields) :
    (⟨values⟩ : Record).Valid ⟨fields⟩ :=
  ⟨count, fun _ mem _ => nullable _ (List.of_mem_zip mem).2⟩

variable [Regex]

theorem projectValues_valid {record : Record} {batch : RecordBatch} {expr : Expr}
    {values : List Value} (valid : record.Valid batch.schema)
    (projected : projectValues record batch expr = .ok values) :
    (⟨values⟩ : Record).Valid ⟨projectFields batch.schema expr⟩ := by
  have single (e : Expr) (v : Value) :
      (⟨[v]⟩ : Record).Valid ⟨[Field.new e.displayName (inferDataType e)]⟩ := by
    refine valid_open rfl fun f mem => ?_
    rw [List.mem_singleton.mp mem]
    rfl
  cases expr with
  | star =>
    obtain rfl := Except.ok.inj projected
    exact valid
  | aliased inner name =>
    cases inner with
    | aggregate func arg distinct =>
      obtain ⟨v, _, same⟩ := bind_eq_ok.mp projected
      obtain rfl := Except.ok.inj same
      exact single _ v
    | _ =>
      obtain ⟨v, _, same⟩ := bind_eq_ok.mp projected
      obtain rfl := Except.ok.inj same
      exact single _ v
  | _ =>
    obtain ⟨v, _, same⟩ := bind_eq_ok.mp projected
    obtain rfl := Except.ok.inj same
    exact single _ v

theorem projectAll_valid {record : Record} {batch : RecordBatch} {exprs : List Expr}
    {values : List Value} (valid : record.Valid batch.schema)
    (projected : projectAll record batch exprs = .ok values) :
    (⟨values⟩ : Record).Valid ⟨exprs.flatMap (projectFields batch.schema)⟩ := by
  induction exprs generalizing values with
  | nil =>
    obtain rfl := Except.ok.inj projected
    exact ⟨rfl, fun p mem => nomatch mem⟩
  | cons expr rest ih =>
    obtain ⟨first, here, projected⟩ := bind_eq_ok.mp projected
    obtain ⟨later, there, projected⟩ := bind_eq_ok.mp projected
    obtain rfl := Except.ok.inj projected
    exact valid_append (projectValues_valid valid here) (ih there)

end Rows

section Operators
variable {schema : Schema} {batch : RecordBatch}

theorem applyLimit_fits (conforms : Conforms batch schema) (count : Nat) :
    applyLimit count schema batch = .ok ⟨schema, batch.records.take count⟩ := by
  obtain ⟨rfl, valid⟩ := conforms
  have built : RecordBatch.fromRecords batch.schema (batch.records.take count) = _ :=
    fromRecords_subset valid fun r mem => List.mem_of_mem_take mem
  rw [applyLimit, limitBatch, built, ok_bind, built]

theorem applyDistinct_fits (conforms : Conforms batch schema) :
    applyDistinct schema batch = .ok ⟨schema, distinctRecords [] batch.records⟩ := by
  obtain ⟨rfl, valid⟩ := conforms
  exact fromRecords_subset valid mem_distinctRecords

/-- Every kept column of the right side that takes no NULL is found first under its name among
    columns that take none either. -/
def KeepsNulls (right : Schema) (on : List (String × String)) : Prop :=
  ∀ f ∈ right.fields, keptRightField on f = true → ∀ g, right.field f.name = some g →
    g.nullable = true → f.nullable = true

theorem aggregateField_open (exprs : List Expr) : Open (exprs.map aggregateField) := by
  intro f mem
  obtain ⟨e, _, rfl⟩ := List.mem_map.mp mem
  rfl

theorem joinRows_valid {left right : RecordBatch} {on : List (String × String)}
    (keeps : KeepsNulls right.schema on) (validL : left.Valid) (validR : right.Valid) :
    ∀ row ∈ left.records.flatMap (joinRowsOf left right on .inner),
      row.Valid (joinSchema left.schema right.schema on) := by
  intro row mem
  obtain ⟨l, listed, mem⟩ := List.mem_flatMap.mp mem
  rw [joinRowsOf, if_neg (by simp)] at mem
  obtain ⟨r, matched, rfl⟩ := List.mem_map.mp mem
  exact RSparkJoinLaw.joinedRow_valid keeps (validL l listed)
    (validR r (List.mem_of_mem_filter matched))

theorem applyJoin_fits {leftSchema : Schema} {right : RecordBatch} {on : List (String × String)}
    (conforms : Conforms batch leftSchema) (conforms' : Conforms right schema)
    (keeps : KeepsNulls schema on) :
    applyJoin leftSchema on .inner (joinSchema leftSchema schema on) batch (.ok right) =
      uncheckedJoin leftSchema on .inner (joinSchema leftSchema schema on) batch (.ok right) := by
  obtain ⟨rfl, valid⟩ := conforms
  obtain ⟨rfl, valid'⟩ := conforms'
  have extended : (RecordBatch.new batch.schema).extend batch = .ok batch :=
    extend_eq_ok.mpr ⟨rfl, rfl⟩
  have rows := joinRows_valid keeps valid valid'
  simp only [applyJoin, uncheckedJoin, extended, ok_bind, joinBatches, reduceCtorEq, or_self,
    if_false, fromRecords_of_valid rows]

variable [Regex]

theorem applyFilter_fits (conforms : Conforms batch schema) (predicate : Expr) :
    applyFilter predicate schema batch = uncheckedFilter predicate schema batch := by
  obtain ⟨rfl, valid⟩ := conforms
  unfold applyFilter uncheckedFilter
  cases filtered : filterRecords predicate batch batch.records with
  | error e => rfl
  | ok kept => exact fromRecords_subset valid (mem_filterRecords filtered)

theorem applySort_fits (conforms : Conforms batch schema) (order : List SortExpr) :
    applySort order schema batch = uncheckedSort order schema batch := by
  obtain ⟨rfl, valid⟩ := conforms
  unfold applySort uncheckedSort sortBatch
  cases keyed : keyedRecords order batch batch.records with
  | error e => rfl
  | ok indexed =>
    have listed : ∀ r ∈ (sortBy (fun a b => compareKeys order a.2 b.2) indexed).map Prod.fst,
        r ∈ batch.records := by
      intro r mem
      obtain ⟨pair, sorted, rfl⟩ := List.mem_map.mp mem
      have inside := (List.perm_insertionSort _ indexed).mem_iff.mp sorted
      exact keyedRecords_fst keyed ▸ List.mem_map_of_mem inside
    simp only [ok_bind, fromRecords_subset valid listed]

theorem projectRecords_fits (expressions : List Expr) {records : List Record}
    (valid : ∀ r ∈ records, r.Valid batch.schema) :
    projectRecords expressions batch ⟨expressions.flatMap (projectFields batch.schema)⟩ records =
      projectRows expressions batch records := by
  induction records with
  | nil => rfl
  | cons r rest ih =>
    have later := ih fun r mem => valid r (List.mem_cons_of_mem _ mem)
    rw [projectRecords, projectRows, later, projectRecord]
    cases projected : projectAll r batch expressions with
    | error e => rfl
    | ok values =>
      have fits := projectAll_valid (valid r List.mem_cons_self) projected
      simp only [ok_bind, (validate_eq_ok _ _).mpr fits]

theorem mem_projectRows {expressions : List Expr} {records rows : List Record}
    (projected : projectRows expressions batch records = .ok rows) :
    ∀ row ∈ rows, ∃ r ∈ records, projectAll r batch expressions = .ok row.values := by
  induction records generalizing rows with
  | nil =>
    obtain rfl := Except.ok.inj projected
    intro row mem
    exact nomatch mem
  | cons r rest ih =>
    obtain ⟨values, here, projected⟩ := bind_eq_ok.mp projected
    obtain ⟨later, there, projected⟩ := bind_eq_ok.mp projected
    obtain rfl := Except.ok.inj projected
    intro row mem
    rcases List.mem_cons.mp mem with rfl | mem
    · exact ⟨r, List.mem_cons_self, here⟩
    · obtain ⟨r', listed, found⟩ := ih there row mem
      exact ⟨r', List.mem_cons_of_mem _ listed, found⟩

theorem applyProject_fits (conforms : Conforms batch schema) (expressions : List Expr) :
    applyProject expressions ⟨expressions.flatMap (projectFields schema)⟩ batch =
      uncheckedProject expressions ⟨expressions.flatMap (projectFields schema)⟩ batch := by
  obtain ⟨rfl, valid⟩ := conforms
  unfold applyProject uncheckedProject
  split
  · rename_i star
    obtain rfl := single_star star
    refine fromRecords_of_valid fun r mem => ?_
    simpa [projectFields] using valid r mem
  · rw [projectRecords_fits expressions valid]
    cases projected : projectRows expressions batch batch.records with
    | error e => rfl
    | ok rows =>
      refine fromRecords_of_valid fun row mem => ?_
      obtain ⟨r, listed, found⟩ := mem_projectRows projected row mem
      exact projectAll_valid (valid r listed) found

theorem aggregateBatch_fits (groupExprs aggregateExprs : List Expr) :
    aggregateBatch groupExprs aggregateExprs batch
        ⟨groupExprs.map aggregateField ++ aggregateExprs.map aggregateField⟩ =
      uncheckedAggregate groupExprs aggregateExprs
        ⟨groupExprs.map aggregateField ++ aggregateExprs.map aggregateField⟩ batch := by
  unfold aggregateBatch uncheckedAggregate
  cases gathered : aggregateRecords groupExprs aggregateExprs batch .empty batch.records with
  | error e => rfl
  | ok groups =>
    refine fromRecords_of_valid fun row mem => ?_
    obtain ⟨state, stored, rfl⟩ := List.mem_map.mp mem
    obtain ⟨⟨text, state⟩, entry, rfl⟩ := List.mem_map.mp stored
    have summary := (RSparkGrouping.aggregateRecords_entries gathered).2 text state entry
    obtain ⟨r, first, grouped⟩ := summary.first
    obtain ⟨acc, accumulated, _⟩ := summary.accumulators
    have evaluated := summary.evaluated r (List.mem_of_mem_head? first)
    refine valid_append (valid_open ?_ (aggregateField_open _))
      (valid_open ?_ (aggregateField_open _))
    · rw [grouped, RSparkGrouping.evalAll_length evaluated, List.length_map]
    · simp [accumulated]

end Operators

section Nodes

def UnionFree (plan : LogicalPlan) : Prop :=
  ∀ inputs schema, LogicalPlan.union inputs schema ∉ nodes plan

/-- At every join the right side keeps its columns without NULL free of NULL. -/
def JoinsKeepNulls (plan : LogicalPlan) : Prop :=
  ∀ left right on how schema, LogicalPlan.join left right on how schema ∈ nodes plan →
    KeepsNulls right.outputSchema on

structure Inside (node plan : LogicalPlan) : Prop where
  below : ∀ n ∈ nodes node, n ∈ nodes plan
  scans : ∀ r ∈ node.scans, r ∈ plan.scans

theorem inside_self (plan : LogicalPlan) : Inside plan plan :=
  ⟨fun _ mem => mem, fun _ mem => mem⟩

theorem Inside.trans {a b c : LogicalPlan} (first : Inside a b) (second : Inside b c) :
    Inside a c :=
  ⟨fun n mem => second.below n (first.below n mem),
    fun r mem => second.scans r (first.scans r mem)⟩

theorem from_node {plan : LogicalPlan} (from' : FromTables plan) {node : LogicalPlan}
    (mem : node ∈ nodes plan) : FromTables node ∧ Inside node plan := by
  induction from' with
  | scan name path source schema =>
    obtain rfl := List.mem_singleton.mp mem
    exact ⟨.scan name path source schema, inside_self _⟩
  | join tables name path source right ih =>
    rcases List.mem_cons.mp mem with rfl | mem
    · exact ⟨.join tables name path source right, inside_self _⟩
    · rcases List.mem_append.mp mem with left | scan
      · obtain ⟨shape, inside⟩ := ih left
        refine ⟨shape, inside.trans ⟨fun n mem => ?_, fun r mem => ?_⟩⟩
        · exact List.mem_cons_of_mem _ (List.mem_append_left _ mem)
        · exact List.mem_append_left _ mem
      · obtain rfl := List.mem_singleton.mp scan
        refine ⟨.scan name path source right, ⟨fun n mem => ?_, fun r mem => ?_⟩⟩
        · exact List.mem_cons_of_mem _ (List.mem_append_right _ mem)
        · exact List.mem_append_right _ mem

theorem planned_node {plan : LogicalPlan} (shape : Planned plan) (free : UnionFree plan)
    {node : LogicalPlan} (mem : node ∈ nodes plan) : Planned node ∧ Inside node plan := by
  have step {input plan : LogicalPlan} (below : nodes plan = plan :: nodes input)
      (scans : plan.scans = input.scans) (shape : Planned plan) (free : UnionFree plan)
      (ih : UnionFree input → node ∈ nodes input → Planned node ∧ Inside node input)
      (mem : node ∈ nodes plan) : Planned node ∧ Inside node plan := by
    rw [below] at mem
    rcases List.mem_cons.mp mem with rfl | mem
    · exact ⟨shape, inside_self _⟩
    · have deeper (n : LogicalPlan) (mem : n ∈ nodes input) : n ∈ nodes plan := by
        rw [below]
        exact List.mem_cons_of_mem _ mem
      obtain ⟨planned, inside⟩ := ih (fun i s mem => free i s (deeper _ mem)) mem
      exact ⟨planned, inside.trans ⟨deeper, fun r mem => scans ▸ mem⟩⟩
  induction shape with
  | empty =>
    obtain rfl := List.mem_singleton.mp mem
    exact ⟨.empty, inside_self _⟩
  | tables from' =>
    obtain ⟨shape, inside⟩ := from_node from' mem
    exact ⟨.tables shape, inside⟩
  | project shape expressions ih => exact step rfl rfl (shape.project expressions) free ih mem
  | filter shape predicate ih => exact step rfl rfl (shape.filter predicate) free ih mem
  | aggregate shape groups calls ih => exact step rfl rfl (shape.aggregate groups calls) free ih mem
  | sort shape order ih => exact step rfl rfl (shape.sort order) free ih mem
  | limit shape count ih => exact step rfl rfl (shape.limit count) free ih mem
  | distinct shape ih => exact step rfl rfl shape.distinct free ih mem
  | union inputs schema => exact absurd List.mem_cons_self (free inputs schema)

end Nodes

section Fit

theorem bind_same {x : Result RecordBatch} {f g : RecordBatch → Result RecordBatch}
    (same : ∀ b, x = .ok b → f b = g b) : (x >>= f) = (x >>= g) := by
  cases ran : x with
  | error e => rfl
  | ok b => exact same b ran

variable [Regex] {ctx : ExecutionContext}

theorem from_unchecked {plan : LogicalPlan} (from' : FromTables plan)
    (keeps : JoinsKeepNulls plan) (honest : SourcesConform ctx plan.scans) :
    execute ctx plan = runUnchecked ctx plan := by
  induction from' with
  | scan name path source schema => rfl
  | @join left tables name path source right ih =>
    obtain ⟨honestLeft, honestRight⟩ := sources_append honest
    have below : JoinsKeepNulls left := fun l r on how schema mem =>
      keeps l r on how schema (List.mem_cons_of_mem _ (List.mem_append_left _ mem))
    have here : KeepsNulls right _ := keeps _ _ _ _ _ List.mem_cons_self
    have same := ih below honestLeft
    rw [execute, runUnchecked, ← same]
    refine bind_same fun b ran => ?_
    have conforms := execute_conforms_tree ctx left honestLeft b ran
    show applyJoin _ _ _ _ _ (execute ctx (.scan name path source right)) =
      uncheckedJoin _ _ _ _ _ (execute ctx (.scan name path source right))
    cases ran' : execute ctx (.scan name path source right) with
    | error e =>
      have extended : (RecordBatch.new left.outputSchema).extend b = .ok b := by
        rw [← conforms.1]
        exact extend_eq_ok.mpr ⟨rfl, rfl⟩
      simp only [applyJoin, uncheckedJoin, extended, ok_bind, error_bind]
    | ok b' =>
      have conforms' := execute_conforms_tree ctx (.scan name path source right) honestRight b' ran'
      exact applyJoin_fits conforms conforms' here

theorem execute_unchecked {plan : LogicalPlan} (shape : Planned plan) (free : UnionFree plan)
    (keeps : JoinsKeepNulls plan) (honest : SourcesConform ctx plan.scans) :
    execute ctx plan = runUnchecked ctx plan := by
  have step {input : LogicalPlan} {f g : RecordBatch → Result RecordBatch}
      (honest : SourcesConform ctx input.scans)
      (same : execute ctx input = runUnchecked ctx input)
      (fits : ∀ b, Conforms b input.outputSchema → f b = g b) :
      (execute ctx input >>= f) = (runUnchecked ctx input >>= g) := by
    rw [← same]
    exact bind_same fun b ran => fits b (execute_conforms_tree ctx input honest b ran)
  have deeper {input plan : LogicalPlan} (below : nodes plan = plan :: nodes input)
      (free : UnionFree plan) (keeps : JoinsKeepNulls plan) :
      UnionFree input ∧ JoinsKeepNulls input := by
    constructor
    · intro i s mem
      exact free i s (below ▸ List.mem_cons_of_mem _ mem)
    · intro l r on how s mem
      exact keeps l r on how s (below ▸ List.mem_cons_of_mem _ mem)
  induction shape with
  | empty => rfl
  | tables from' => exact from_unchecked from' keeps honest
  | project shape expressions ih =>
    obtain ⟨free, keeps⟩ := deeper rfl free keeps
    exact step honest (ih free keeps honest) fun b conforms => applyProject_fits conforms _
  | filter shape predicate ih =>
    obtain ⟨free, keeps⟩ := deeper rfl free keeps
    exact step honest (ih free keeps honest) fun b conforms => applyFilter_fits conforms _
  | aggregate shape groups calls ih =>
    obtain ⟨free, keeps⟩ := deeper rfl free keeps
    exact step honest (ih free keeps honest) fun b _ => aggregateBatch_fits _ _
  | sort shape order ih =>
    obtain ⟨free, keeps⟩ := deeper rfl free keeps
    exact step honest (ih free keeps honest) fun b conforms => applySort_fits conforms _
  | limit shape count ih =>
    obtain ⟨free, keeps⟩ := deeper rfl free keeps
    exact step honest (ih free keeps honest) fun b conforms => applyLimit_fits conforms _
  | distinct shape ih =>
    obtain ⟨free, keeps⟩ := deeper rfl free keeps
    exact step honest (ih free keeps honest) fun b conforms => applyDistinct_fits conforms
  | union inputs schema => exact absurd List.mem_cons_self (free inputs schema)

end Fit

section Misfit
open RSparkJoinLaw

theorem from_names {plan : LogicalPlan} (from' : FromTables plan) :
    ∀ r ∈ plan.scans, ∀ name ∈ r.schema.fieldNames, name ∈ plan.outputSchema.fieldNames := by
  induction from' with
  | scan name path source schema =>
    intro r mem
    obtain rfl := List.mem_singleton.mp mem
    intro name known
    exact known
  | @join left tables name path source right ih =>
    intro r mem column known
    simp only [LogicalPlan.outputSchema, Schema.fieldNames, joinSchema, List.map_append,
      List.mem_append]
    rcases List.mem_append.mp mem with mem | mem
    · exact Or.inl (ih r mem column known)
    · obtain rfl := List.mem_singleton.mp mem
      obtain ⟨f, listed, rfl⟩ := List.mem_map.mp known
      by_cases kept : keptRightField (joinPairs left.outputSchema right) f = true
      · exact Or.inr (List.mem_map_of_mem (List.mem_filter.mpr ⟨listed, kept⟩))
      · simp only [keptRightField, Bool.not_eq_true', Bool.not_eq_false, List.any_eq_true,
          decide_eq_true_eq] at kept
        obtain ⟨pair, mem, same⟩ := kept
        obtain ⟨shared, rfl, known, _⟩ := mem_joinPairs.mp mem
        exact Or.inl (same ▸ known)

theorem kept_new {left : LogicalPlan} (from' : FromTables left) {path source : String}
    {right : Schema} {f : Field} (listed : f ∈ right.fields)
    (kept : keptRightField (joinPairs left.outputSchema right) f = true) :
    (⟨path, source, right⟩ : ScanRequest) ∉ left.scans := by
  intro scanned
  have named : f.name ∈ right.fieldNames := List.mem_map_of_mem listed
  exact mem_leftNames_of_not_kept listed kept (from_names from' _ scanned f.name named)

def zeroOr (null : Bool) : Value := if null then .null else .int64 0

/-- Every source answers one row of zeros, but for a NULL in one column of one table. -/
def nullContext (request : ScanRequest) (i : Nat) : ExecutionContext :=
  ⟨⟨fun source => some ⟨fun path schema =>
    .ok ⟨schema.getD Schema.empty, [recordOf (schema.getD Schema.empty) fun k =>
      zeroOr (decide ((⟨path, source, schema.getD Schema.empty⟩ : ScanRequest) = request ∧
        k = i))]⟩⟩⟩⟩

theorem nullContext_scan (request r : ScanRequest) (i : Nat) :
    scanSource (nullContext request i) r.path r.source r.schema =
      .ok ⟨r.schema, [recordOf r.schema fun k => zeroOr (decide (r = request ∧ k = i))]⟩ := rfl

theorem nullContext_conforms {r : ScanRequest} {i : Nat}
    (nullable : nullableAt r.schema i = true) (requests : List ScanRequest) :
    SourcesConform (nullContext r i) requests := by
  intro r' _ b scanned
  rw [nullContext_scan] at scanned
  obtain rfl := Except.ok.inj scanned
  refine ⟨rfl, fun record mem => ?_⟩
  obtain rfl := List.mem_singleton.mp mem
  refine recordOf_valid _ _ fun k isNull => ?_
  by_cases here : r' = r ∧ k = i
  · obtain ⟨rfl, rfl⟩ := here
    exact nullable
  · simp [zeroOr, here, Value.isNull] at isNull

def zeros (schema : Schema) : Record := recordOf schema fun _ => .int64 0

theorem zeros_joined {left right : Schema} {on : List (String × String)} :
    joinedRow right on (zeros left) (zeros right) = zeros (joinSchema left right on) := by
  have value : ∀ f ∈ right.fields.filter (keptRightField on),
      keptValue right (zeros right) f = .int64 0 := by
    intro f mem
    obtain ⟨j, found⟩ := indexOf_of_mem (List.mem_map_of_mem (List.mem_of_mem_filter mem))
    simp only [keptValue, found]
    exact recordOf_get (indexOf_lt found) _
  rw [joinedRow_eq, List.map_congr_left value]
  simp [zeros, recordOf, joinSchema, Schema.fieldCount, List.map_const',
    List.replicate_append_replicate]

theorem zeros_match {left right : Schema} {v : Nat → Value}
    (zero : ∀ name ∈ left.fieldNames, ∀ j, right.indexOf name = some j → v j = .int64 0) :
    joinCond left right (joinPairs left right) (zeros left) (recordOf right v) = true := by
  refine List.all_eq_true.mpr fun pair mem => ?_
  obtain ⟨name, rfl, known, known'⟩ := mem_joinPairs.mp mem
  obtain ⟨i, found⟩ := indexOf_of_mem known
  obtain ⟨j, found'⟩ := indexOf_of_mem known'
  have here : (zeros left).getOrNull i = .int64 0 := recordOf_get (indexOf_lt found) _
  have there : (recordOf right v).getOrNull j = .int64 0 := by
    rw [recordOf_get (indexOf_lt found'), zero name known j found']
  simp only [pairHolds, found, found', here, there]
  decide

variable [Regex]

theorem unchecked_scan {ctx : ExecutionContext} {name path source : String} {schema : Schema}
    {r : Record} (scanned : scanSource ctx path source schema = .ok ⟨schema, [r]⟩) :
    runUnchecked ctx (.scan name path source schema) = .ok ⟨schema, [r]⟩ := by
  rw [runUnchecked, scanned]
  rfl

theorem unchecked_join {ctx : ExecutionContext} {left : LogicalPlan} {path source : String}
    {right : Schema} {l r : Record} (name : String) (schema : Schema)
    (ranLeft : runUnchecked ctx left = .ok ⟨left.outputSchema, [l]⟩)
    (ranRight : runUnchecked ctx (.scan name path source right) = .ok ⟨right, [r]⟩)
    (holds : joinCond left.outputSchema right (joinPairs left.outputSchema right) l r = true) :
    runUnchecked ctx (.join left (.scan name path source right)
      (joinPairs left.outputSchema right) .inner schema) =
      .ok ⟨schema, [joinedRow right (joinPairs left.outputSchema right) l r]⟩ := by
  rw [runUnchecked, ranLeft, ok_bind, ranRight]
  simp [uncheckedJoin, joinRowsOf, holds]

theorem unchecked_zeros {plan : LogicalPlan} (from' : FromTables plan) {request : ScanRequest}
    (absent : request ∉ plan.scans) (i : Nat) :
    runUnchecked (nullContext request i) plan =
      .ok ⟨plan.outputSchema, [zeros plan.outputSchema]⟩ := by
  have scan {name path source : String} {schema : Schema}
      (other : (⟨path, source, schema⟩ : ScanRequest) ≠ request) :
      runUnchecked (nullContext request i) (.scan name path source schema) =
        .ok ⟨schema, [zeros schema]⟩ := by
    refine unchecked_scan ?_
    have scanned := nullContext_scan request ⟨path, source, schema⟩ i
    simp only [other, zeroOr, false_and, decide_false] at scanned
    exact scanned
  induction from' with
  | scan name path source schema =>
    exact scan fun same => absent (List.mem_singleton.mpr same.symm)
  | @join left tables name path source right ih =>
    obtain ⟨absentLeft, absentRight⟩ := not_or.mp (mt List.mem_append.mpr absent)
    have other : (⟨path, source, right⟩ : ScanRequest) ≠ request :=
      fun same => absentRight (List.mem_singleton.mpr same.symm)
    rw [unchecked_join name _ (ih absentLeft) (scan other) (zeros_match fun _ _ _ _ => rfl),
      zeros_joined]
    rfl

theorem keeps_of_fits {left : LogicalPlan} (from' : FromTables left) (name path source : String)
    {right : Schema} (fits : ∀ i b, nullableAt right i = true →
      runUnchecked (nullContext ⟨path, source, right⟩ i)
        (.join left (.scan name path source right) (joinPairs left.outputSchema right) .inner
          (joinSchema left.outputSchema right (joinPairs left.outputSchema right))) = .ok b →
      b.Valid) : KeepsNulls right (joinPairs left.outputSchema right) := by
  intro f listed kept g first nullable
  obtain ⟨i, found⟩ := indexOf_of_mem (List.mem_map_of_mem (f := Field.name) listed)
  obtain ⟨g', place, _, first'⟩ := indexOf_field found
  obtain rfl := Option.some.inj (first.symm.trans first')
  have column : nullableAt right i = true := by simp [nullableAt, place, nullable]
  have absent : (⟨path, source, right⟩ : ScanRequest) ∉ left.scans := kept_new from' listed kept
  have ranLeft := unchecked_zeros from' absent i
  have scanned : scanSource (nullContext ⟨path, source, right⟩ i) path source right =
      .ok ⟨right, [recordOf right fun k => zeroOr (decide (k = i))]⟩ := by
    have answered := nullContext_scan ⟨path, source, right⟩ ⟨path, source, right⟩ i
    simpa only [true_and] using answered
  have other (column : String) (known : column ∈ left.outputSchema.fieldNames) (j : Nat)
      (at' : right.indexOf column = some j) : j ≠ i := by
    rintro rfl
    obtain rfl := indexOf_inj at' found
    exact mem_leftNames_of_not_kept listed kept known
  have holds : joinCond left.outputSchema right (joinPairs left.outputSchema right)
      (zeros left.outputSchema) (recordOf right fun k => zeroOr (decide (k = i))) = true :=
    zeros_match fun name known j at' => by simp [zeroOr, other name known j at']
  have joined := unchecked_join name (joinSchema left.outputSchema right
    (joinPairs left.outputSchema right)) ranLeft (unchecked_scan scanned) holds
  have valid := fits i _ column joined _ List.mem_cons_self
  -- the value of the column is the NULL
  have value : keptValue right (recordOf right fun k => zeroOr (decide (k = i))) f = .null := by
    simp only [keptValue, found]
    rw [recordOf_get (indexOf_lt found)]
    simp [zeroOr]
  have widths : (zeros left.outputSchema).values.length = left.outputSchema.fields.length := by
    simp [zeros, recordOf, Schema.fieldCount]
  rw [joinedRow_eq] at valid
  refine valid.2 (.null, f) ?_ rfl
  have zipped (v : Field → Value) (fields : List Field) :
      (fields.map v).zip fields = fields.map fun f => (v f, f) := by
    simpa using List.zip_map' (f := v) (g := id) (l := fields)
  rw [joinSchema, List.zip_append widths, zipped, ← value]
  exact List.mem_append_right _ (List.mem_map.mpr ⟨f, List.mem_filter.mpr ⟨listed, kept⟩, rfl⟩)

end Misfit

section Result
variable [Regex] [SqlParser]

/-- At every node that builds its rows, the checks pass and the node answers those rows. -/
def ChecksPass (ctx : ExecutionContext) (plan : LogicalPlan) : Prop :=
  ∀ node ∈ nodes plan, ∀ b, runUnchecked ctx node = .ok b → execute ctx node = .ok b

/-- The plan of a query without UNION never fails a check of width, of nullability or of
    schemas, exactly if its joins keep what takes no NULL. -/
theorem checks_pass_iff (catalog : Catalog) (query : Query) (plan : LogicalPlan)
    (planned : planQuery catalog query = .ok plan) (free : UnionFree plan) :
    (∀ ctx, SourcesConform ctx plan.scans → ChecksPass ctx plan) ↔ JoinsKeepNulls plan := by
  have shape := planQuery_planned query planned
  constructor
  · intro passes left right on how schema mem
    obtain ⟨node, inside⟩ := planned_node shape free mem
    cases node with
    | tables from' =>
      cases from' with
      | join tables name path source right =>
        refine keeps_of_fits tables name path source ?_
        intro i b nullable ran
        have honest := nullContext_conforms (r := ⟨path, source, right⟩) nullable
        have executed := passes _ (honest plan.scans) _ mem b ran
        have conforms := execute_conforms_tree _ _ (honest _) b executed
        exact conforms.2
  · intro keeps ctx honest node mem b ran
    obtain ⟨shape', inside⟩ := planned_node shape free mem
    rw [execute_unchecked shape' (fun i s mem => free i s (inside.below _ mem))
      (fun l r on how s mem => keeps l r on how s (inside.below _ mem))
      (fun r mem => honest r (inside.scans r mem))]
    exact ran

end Result

section Witness

theorem keepsNulls_of_nodup {right : Schema} (distinct : right.fieldNames.Nodup)
    (on : List (String × String)) : KeepsNulls right on := by
  intro f listed _ g first nullable
  have found := List.mem_of_find?_eq_some first
  have named : g.name = f.name := by simpa using List.find?_some first
  obtain rfl := List.inj_on_of_nodup_map distinct found listed named
  exact nullable

def tableNamed (name : String) : TableWithJoins := ⟨.table ⟨[⟨name⟩], name⟩ none, []⟩

/-- `SELECT * FROM a, b` -/
def pairQuery : Query :=
  .mk false (.select ⟨none, [.wildcard], [tableNamed "a", tableNamed "b"], none,
    .expressions [], none⟩) none none none

def leftSchema : Schema := ⟨[.new "x" .int64]⟩

def pairCatalog (b : Schema) : Catalog where
  tableSchema name := .ok (if name = "a" then leftSchema else b)
  tableLocation name := .ok (name, "csv")

def pairJoin (b : Schema) : LogicalPlan :=
  .join (.scan "a" "a" "csv" leftSchema) (.scan "b" "b" "csv" b) (joinPairs leftSchema b) .inner
    (joinSchema leftSchema b (joinPairs leftSchema b))

def pairPlan (b : Schema) : LogicalPlan :=
  .project (pairJoin b) [.star] ⟨[Expr.star].flatMap (projectFields (pairJoin b).outputSchema)⟩

theorem pair_planned (b : Schema) :
    @planQuery noParser (pairCatalog b) pairQuery = .ok (pairPlan b) := rfl

theorem pair_unionFree (b : Schema) : UnionFree (pairPlan b) := by
  intro inputs schema mem
  simp [pairPlan, pairJoin, nodes] at mem

def plainSchema : Schema := ⟨[.notNull "n" .int64]⟩

/-- A NULL comes from the left table, and the plain one has none. -/
def leftNull : ExecutionContext := nullContext ⟨"a", "csv", leftSchema⟩ 0

theorem plain_checks_pass : @ChecksPass noRegex leftNull (pairPlan plainSchema) := by
  refine (@checks_pass_iff noRegex noParser (pairCatalog plainSchema) pairQuery
    (pairPlan plainSchema) (pair_planned plainSchema) (pair_unionFree plainSchema)).mpr ?_
    leftNull (nullContext_conforms rfl _)
  intro left right on how schema mem
  have joined : right = .scan "b" "b" "csv" plainSchema := by
    simp only [pairPlan, pairJoin, nodes, List.mem_cons, List.mem_append, List.not_mem_nil,
      or_false, LogicalPlan.join.injEq, reduceCtorEq, false_or] at mem
    exact mem.2.1
  subst joined
  exact keepsNulls_of_nodup (by decide) on

/-- The second of two columns named `n` takes no NULL, the first does. -/
def repeatedSchema : Schema := ⟨[.new "n" .int64, .notNull "n" .int64]⟩

/-- The first column is read for both, and its NULL fails the check of the second. -/
theorem repeated_name_fails :
    ¬ ∀ (catalog : Catalog) (query : Query) (plan : LogicalPlan) (ctx : ExecutionContext),
      @planQuery noParser catalog query = .ok plan → UnionFree plan →
      SourcesConform ctx plan.scans →
      ∀ b, @runUnchecked noRegex ctx plan = .ok b → @execute noRegex ctx plan = .ok b := by
  intro claim
  have honest := nullContext_conforms (r := ⟨"b", "csv", repeatedSchema⟩) (i := 0) rfl
    (pairPlan repeatedSchema).scans
  have built : @runUnchecked noRegex (nullContext ⟨"b", "csv", repeatedSchema⟩ 0)
      (pairPlan repeatedSchema) = .ok ⟨⟨[.new "x" .int64, .new "n" .int64, .notNull "n" .int64]⟩,
        [⟨[.int64 0, .null, .null]⟩]⟩ := rfl
  have ran := claim _ pairQuery _ _ (pair_planned repeatedSchema) (pair_unionFree repeatedSchema)
    honest _ built
  have failed : @execute noRegex (nullContext ⟨"b", "csv", repeatedSchema⟩ 0)
      (pairPlan repeatedSchema) =
        err (.schema "field 'n' at index 2 is null but declared not null") := rfl
  exact nomatch failed.symm.trans ran

end Witness

end RSparkSchemaFit
