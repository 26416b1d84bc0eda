import RSpark.GroupedRows
import RSpark.SchemaContract
import RSpark.Stages

/- The three plan shapes of a single-table query against the pipeline of its clauses: the
   clauses that a shape reads are carried out, the others are dropped. -/
namespace RSparkClauseLaw
open RSparkValue RSparkBatch RSparkExpr RSparkPlan RSparkOperators RSparkExecutor RSparkSqlAst
open RSparkExprBuilder RSparkPlanner RSparkSchemaContract RSparkHavingAgreement RSparkHavingRewrite
open RSparkClauses RSparkGroupedRows RSparkStages Listing

section Shapes

/-- What the planner honours: no OFFSET, no place for NULL, HAVING only beside aggregates or
    GROUP BY, and DISTINCT only without them. -/
def honoured (c : Clauses) : Clauses where
  distinct := c.distinct && !c.aggregates
  items := c.items
  selection := c.selection
  groupBy := c.groupBy
  having := if c.aggregates then c.having else none
  orderBy := c.orderBy.map fun k => ⟨k.key, none⟩
  limit := c.limit
  offset := 0

def optional {α : Type} (node : α → LogicalPlan → LogicalPlan) (clause : Option α)
    (input : LogicalPlan) : LogicalPlan :=
  clause.elim input fun a => node a input

def whereNode (w : Expr) (input : LogicalPlan) : LogicalPlan := .filter input w input.outputSchema

def aggregateNode (c : Clauses) (input : LogicalPlan) : LogicalPlan :=
  .aggregate input (c.groupBy.map .column) (fedItems c.items)
    ⟨(c.groupBy.map Expr.column).map aggregateField ++ (fedItems c.items).map aggregateField⟩

def projectNode (items : List Expr) (input : LogicalPlan) : LogicalPlan :=
  .project input items ⟨items.flatMap (projectFields input.outputSchema)⟩

def havingNode (items : List Expr) (h : Expr) (input : LogicalPlan) : LogicalPlan :=
  .filter input (rewriteHaving items h) input.outputSchema

def distinctNode (input : LogicalPlan) : LogicalPlan := .distinct input input.outputSchema

def limitNode (n : Nat) (input : LogicalPlan) : LogicalPlan := .limit input n input.outputSchema

def selected (c : Clauses) (scan : LogicalPlan) : LogicalPlan :=
  let input := optional whereNode c.selection scan
  if c.aggregates then
    optional (havingNode c.items) c.having (projectNode c.items (aggregateNode c input))
  else if c.distinct then distinctNode (projectNode c.items input)
  else projectNode c.items input

def planOf (c : Clauses) (scan : LogicalPlan) : LogicalPlan :=
  optional limitNode c.limit (planSort (c.orderBy.map OrderKey.key) (selected c scan))

theorem aggregates_iff {items groupExprs : List Expr} {c : Clauses} (same : c.items = items)
    (keys : groupExprs = c.groupBy.map .column) :
    (¬ (items.filter Expr.containsAggregate).isEmpty ∨ ¬ groupExprs.isEmpty) ↔
      c.aggregates = true := by
  subst same keys
  simp [Clauses.aggregates, List.isEmpty_iff, List.filter_eq_nil_iff]

theorem built_columns {es : List SqlExpr} {exprs : List Expr} {names : List String}
    (built : buildExprs es = .ok exprs) (read : es.mapM readColumn = .ok names) :
    exprs = names.map .column := by
  induction es generalizing exprs names with
  | nil =>
    obtain rfl := Except.ok.inj built
    obtain rfl := Except.ok.inj read
    rfl
  | cons e rest ih =>
    obtain ⟨first, here, built⟩ := bind_eq_ok.mp built
    obtain ⟨later, there, built⟩ := bind_eq_ok.mp built
    obtain rfl := Except.ok.inj built
    rw [List.mapM_cons] at read
    obtain ⟨name, column, read⟩ := bind_eq_ok.mp read
    obtain ⟨names', columns, read⟩ := bind_eq_ok.mp read
    obtain rfl := Except.ok.inj read
    obtain ⟨e', same, column⟩ := bind_eq_ok.mp column
    obtain rfl := Except.ok.inj (here.symm.trans same)
    rw [ih there columns]
    split at column
    · obtain rfl := Except.ok.inj column
      rfl
    · exact nomatch column

theorem optional_eq {α : Type} {read : SqlExpr → Result α} {clause : Option SqlExpr}
    {a : Option α} (known : readOption read clause = .ok a)
    {node : α → LogicalPlan → LogicalPlan} {input plan : LogicalPlan}
    (planned : (clause.elim (.ok input) fun e => read e >>= fun a => .ok (node a input)) =
      .ok plan) : plan = optional node a input := by
  cases clause with
  | none =>
    obtain rfl := Except.ok.inj known
    exact (Except.ok.inj planned).symm
  | some e =>
    obtain ⟨a', built, known⟩ := bind_eq_ok.mp known
    obtain rfl := Except.ok.inj known
    obtain ⟨a, built', planned⟩ := bind_eq_ok.mp planned
    obtain rfl := Except.ok.inj (built.symm.trans built')
    exact (Except.ok.inj planned).symm

theorem planWhere_eq (selection : Option SqlExpr) (input : LogicalPlan) :
    planWhere selection input =
      selection.elim (.ok input) fun e => buildExpr e >>= fun w => .ok (whereNode w input) := by
  cases selection with
  | none => rfl
  | some e => rfl

theorem planHaving_eq (having : Option SqlExpr) (items : List Expr) (input : LogicalPlan) :
    planHaving having items input =
      having.elim (.ok input) fun e => buildExpr e >>= fun h => .ok (havingNode items h input) := by
  cases having with
  | none => rfl
  | some e => rfl

theorem planLimit_eq [SqlParser] (limit : Option SqlExpr) (input : LogicalPlan) :
    planLimit limit input =
      limit.elim (.ok input) fun e => evalLimit e >>= fun n => .ok (limitNode n input) := by
  cases limit with
  | none => rfl
  | some e => rfl

theorem distinct_read {distinct : Option Distinct} {d : Bool}
    (read : readDistinct distinct = .ok d) : distinct.isSome = d := by
  unfold readDistinct at read
  split at read
  · exact Except.ok.inj read
  · exact Except.ok.inj read
  · exact nomatch read

theorem planSelectShape_eq {select : Select} {groupExprs : List Expr} {c : Clauses}
    {scan plan : LogicalPlan} (distinct : readDistinct select.distinct = .ok c.distinct)
    (keys : groupExprs = c.groupBy.map .column)
    (having : readOption buildExpr select.having = .ok c.having)
    (planned : planSelectShape select c.items groupExprs (optional whereNode c.selection scan) =
      .ok plan) : plan = selected c scan := by
  unfold planSelectShape at planned
  simp only [selected]
  rw [distinct_read distinct] at planned
  by_cases aggregates : c.aggregates = true
  · rw [if_pos ((aggregates_iff rfl keys).mpr aggregates)] at planned
    rw [if_pos aggregates]
    obtain ⟨agg, aggregated, planned⟩ := bind_eq_ok.mp planned
    obtain ⟨projected, project, planned⟩ := bind_eq_ok.mp planned
    obtain rfl := Except.ok.inj aggregated
    obtain rfl := Except.ok.inj project
    subst keys
    rw [planHaving_eq] at planned
    exact optional_eq having planned
  · rw [if_neg (mt (aggregates_iff rfl keys).mp aggregates)] at planned
    rw [if_neg aggregates]
    split at planned
    · rename_i flag
      rw [if_pos flag]
      obtain ⟨projected, project, planned⟩ := bind_eq_ok.mp planned
      obtain rfl := Except.ok.inj project
      exact (Except.ok.inj planned).symm
    · rename_i flag
      rw [if_neg flag]
      exact (Except.ok.inj planned).symm

theorem from_single {catalog : Catalog} {name : String} {alias' : Option String}
    {plan : LogicalPlan} (planned : buildFromClause [(name, alias')] catalog = .ok plan) :
    ∃ path source schema, catalog.tableLocation name = .ok (path, source) ∧
      catalog.tableSchema name = .ok schema ∧ plan = .scan name path source schema := by
  obtain ⟨scan, built, same⟩ := bind_eq_ok.mp planned
  obtain rfl := Except.ok.inj same
  obtain ⟨⟨path, source⟩, located, built⟩ := bind_eq_ok.mp built
  obtain ⟨schema, described, built⟩ := bind_eq_ok.mp built
  exact ⟨path, source, schema, located, described, (Except.ok.inj built).symm⟩

theorem planQuery_eq [SqlParser] {catalog : Catalog} {query : Query} {name : String} {c : Clauses}
    {plan : LogicalPlan} (read : clausesOf query = .ok (name, c))
    (planned : planQuery catalog query = .ok plan) :
    ∃ path source schema, catalog.tableLocation name = .ok (path, source) ∧
      catalog.tableSchema name = .ok schema ∧ plan = planOf c (.scan name path source schema) := by
  unfold clausesOf at read
  split at read
  · rename_i distinct projection table alias' selection groupBy having orderBy limit offset
    obtain ⟨d, readD, read⟩ := bind_eq_ok.mp read
    obtain ⟨items, readItems, read⟩ := bind_eq_ok.mp read
    obtain ⟨w, readW, read⟩ := bind_eq_ok.mp read
    obtain ⟨names, readG, read⟩ := bind_eq_ok.mp read
    obtain ⟨h, readH, read⟩ := bind_eq_ok.mp read
    obtain ⟨keys, readO, read⟩ := bind_eq_ok.mp read
    obtain ⟨n, readL, read⟩ := bind_eq_ok.mp read
    obtain ⟨m, _, read⟩ := bind_eq_ok.mp read
    obtain ⟨rfl, rfl⟩ := Prod.mk.inj (Except.ok.inj read)
    clear read
    simp only [planQuery, Bool.false_eq_true, if_false] at planned
    obtain ⟨body, plannedB, planned⟩ := bind_eq_ok.mp planned
    obtain ⟨keys', builtO, planned⟩ := bind_eq_ok.mp planned
    obtain rfl := Except.ok.inj ((readOrderKeys_built readO).symm.trans builtO)
    rw [planLimit_eq] at planned
    obtain rfl := optional_eq readL planned
    rw [planSetExpr] at plannedB
    obtain ⟨tables, from', plannedB⟩ := bind_eq_ok.mp plannedB
    obtain rfl := Except.ok.inj from'
    obtain ⟨scan, scanned, plannedB⟩ := bind_eq_ok.mp plannedB
    obtain ⟨path, source, schema, located, described, rfl⟩ := from_single scanned
    obtain ⟨kept, where', plannedB⟩ := bind_eq_ok.mp plannedB
    rw [planWhere_eq] at where'
    obtain rfl := optional_eq readW where'
    obtain ⟨items', builtI, plannedB⟩ := bind_eq_ok.mp plannedB
    obtain rfl := Except.ok.inj (readItems.symm.trans builtI)
    obtain ⟨groupExprs, builtG, plannedB⟩ := bind_eq_ok.mp plannedB
    have shape := planSelectShape_eq (c := ⟨d, items, w, names, h, keys, n, m.getD 0⟩) readD
      (built_columns builtG readG) readH plannedB
    subst shape
    exact ⟨path, source, schema, located, described, rfl⟩
  · exact nomatch read

end Shapes

section Rows
variable [Regex] {ctx : ExecutionContext} {table : RecordBatch} {c : Clauses} {scan : LogicalPlan}

theorem predicate_isTrue {w : Expr} (scalar : containsAggregate w = false) {r : Record}
    {b : Bool} (ran : evalPredicate w r table = .ok b) : b = isTrue (w.eval r table) := by
  rw [evalPredicate, scalar] at ran
  obtain ⟨v, evaluated, result⟩ := bind_eq_ok.mp ran
  rw [evaluated]
  exact predicateResult_isTrue result

theorem where_rows (scanned : execute ctx scan = .ok table)
    (same : table.schema = scan.outputSchema)
    (scalar : ∀ w ∈ c.selection, containsAggregate w = false) {b : RecordBatch}
    (ran : execute ctx (optional whereNode c.selection scan) = .ok b) :
    b.schema = table.schema ∧ b.records = c.kept table := by
  unfold Clauses.kept
  cases selection : c.selection with
  | none =>
    rw [selection] at ran
    obtain rfl := Except.ok.inj (scanned.symm.trans ran)
    exact ⟨rfl, rfl⟩
  | some w =>
    rw [selection] at ran
    obtain ⟨input, below, ran⟩ := bind_eq_ok.mp ran
    obtain rfl := Except.ok.inj (scanned.symm.trans below)
    obtain ⟨kept, filtered, built⟩ := bind_eq_ok.mp ran
    obtain ⟨rfl, _⟩ := fromRecords_eq_ok.mp built
    obtain ⟨each, rfl⟩ := filterRecords_eq filtered
    refine ⟨same.symm, List.filter_congr fun r mem => ?_⟩
    exact predicate_isTrue (scalar w selection) (each r mem)

theorem row_of_values {b : RecordBatch} (same : b.schema = table.schema) {items : List Expr}
    (scalar : ∀ item ∈ items, item.containsAggregate = false) {r : Record} {values : List Value}
    (projected : projectAll r b items = .ok values) :
    (rowScope table r).row items = .ok ⟨values⟩ := by
  rw [projectAll_eq] at projected
  obtain ⟨blocks, each, flat⟩ := bind_eq_ok.mp projected
  obtain rfl := Except.ok.inj flat
  have means := mapM_mono (g := (rowScope table r).item) (fun item listed values found => ?_) each
  · rw [Scope.row, means]
    rfl
  · by_cases star : item = .star
    · subst star
      exact found
    · have called : callOf item = none := by
        have none' := scalar item listed
        unfold callOf
        split
        · cases none'
        · cases none'
        · rfl
      rw [projectValues_scalar called star] at found
      rw [scope_item star]
      show (meaning (fun name => (Expr.column name).eval r table)
        (fun func arg distinct => (Expr.aggregate func arg distinct).eval r table) item >>= _) = _
      rw [meaning_row, ← eval_congr (congrArg Schema.fieldNames same)]
      exact found

end Rows

section Groups
variable {b table : RecordBatch} {groupBy : List String} {items : List Expr}

theorem itemNames_congr (same : b.schema = table.schema) : itemNames b = itemNames table := by
  funext item
  cases item with
  | star => exact congrArg Schema.fieldNames same
  | _ => rfl

theorem readsGroups_congr (same : b.schema = table.schema)
    (reads : ReadsGroups table groupBy items) :
    ReadsGroups b groupBy items where
  star := same ▸ reads.star
  calls := reads.calls
  columns := reads.columns
  repeats := reads.repeats

theorem readsHaving_congr (same : b.schema = table.schema) {predicate : Expr}
    (reads : ReadsHaving table groupBy items predicate) :
    ReadsHaving b groupBy items predicate where
  self := reads.self
  columns := itemNames_congr same ▸ reads.columns
  calls := itemNames_congr same ▸ reads.calls

theorem aggregate_names (groupBy : List String) (calls : List Expr) :
    (⟨(groupBy.map Expr.column).map aggregateField ++ calls.map aggregateField⟩ :
      Schema).fieldNames = groupBy ++ calls.map Expr.displayName := by
  simp [Schema.fieldNames, aggregateField, Field.new, Expr.displayName, Function.comp_def]

variable [Regex]

theorem groupScope_congr (same : b.schema = table.schema) (g : Group) :
    groupScope b groupBy g = groupScope table groupBy g := by
  have aggregates : aggregateOf b g.rows = aggregateOf table g.rows := by
    funext func arg distinct
    simp only [aggregateOf, eval_congr (congrArg Schema.fieldNames same)]
  simp only [groupScope, aggregates, same]

theorem having_congr (same : b.schema = table.schema) (s : Scope) (predicate : Expr) :
    s.having b items predicate = s.having table items predicate := by
  have columns : s.havingColumn b items = s.havingColumn table items := by
    funext name
    simp only [Scope.havingColumn, itemNames_congr same]
  rw [Scope.having, Scope.having, columns]

/-- A projected row against the scope of its group: the row, and whether HAVING keeps it. -/
structure RowOf (table output : RecordBatch) (groupBy : List String) (items : List Expr)
    (s : Scope) (row : Record) : Prop where
  values : s.row items = .ok row
  having : ∀ h, ReadsHaving table groupBy items h → ∀ k,
    evalPredicate (rewriteHaving items h) row output = .ok k → k = s.having table items h

theorem grouped_rows {rows : List Record} {a output : RecordBatch}
    (same : b.schema = table.schema) (kept : b.records = rows)
    (apart : KeysApart table groupBy rows) (shown : groupBy = [] → rows ≠ [])
    (reads : ReadsGroups table groupBy items)
    (ran : aggregateBatch (groupBy.map .column) (fedItems items) b
      ⟨(groupBy.map Expr.column).map aggregateField ++ (fedItems items).map aggregateField⟩ = .ok a)
    (projected : applyProject items ⟨items.flatMap (projectFields ⟨(groupBy.map
      Expr.column).map aggregateField ++ (fedItems items).map aggregateField⟩)⟩ a = .ok output) :
    output.schema.fieldNames = items.flatMap (itemNames table) ∧
      List.Forall₂ (RowOf table output groupBy items)
        ((groupsOf table groupBy rows).map (groupScope table groupBy)) output.records := by
  obtain ⟨schema, records⟩ := b
  obtain rfl : schema = table.schema := same
  obtain rfl : records = rows := kept
  have same : (⟨table.schema, records⟩ : RecordBatch).schema = table.schema := rfl
  have readsB := readsGroups_congr same reads
  have groups := groups_hold ran apart shown
  have schemaA : a.schema = _ := (aggregateBatch_conforms ran).1
  obtain ⟨schemaO, each⟩ := applyProject_rows projected
  have named : a.schema.fieldNames = groupBy ++ (fedItems items).map Expr.displayName := by
    rw [schemaA, aggregate_names]
  have labelled : output.schema.fieldNames =
      items.flatMap (itemNames ⟨table.schema, records⟩) := by
    rw [schemaO, ← schemaA]
    exact projected_names named readsB
  constructor
  · exact labelled
  · rw [List.forall₂_map_left_iff]
    refine (forall₂_through groups each).imp fun g row between => ?_
    obtain ⟨ρ, holds, values⟩ := between
    have of : GroupRow ⟨table.schema, records⟩ a groupBy items g ρ := ⟨holds, named, readsB⟩
    rw [← groupScope_congr same g]
    constructor
    · exact projectAll_means of values
    · intro h readsH k ran
      have readsHB := readsHaving_congr same readsH
      rw [← having_congr same]
      exact having_means of values readsHB labelled ran

end Groups

section Selection
variable [Regex] {ctx : ExecutionContext} {table : RecordBatch} {c : Clauses} {scan : LogicalPlan}

/-- Names are looked up where they stand, keys and rows are told apart by their texts, and an
    aggregate without GROUP BY has a row. -/
structure Plain (c : Clauses) (table : RecordBatch) : Prop where
  selection : ∀ w ∈ c.selection, containsAggregate w = false
  keys : c.aggregates = true → KeysApart table c.groupBy (c.kept table)
  shown : c.aggregates = true → c.groupBy = [] → c.kept table ≠ []
  groups : c.aggregates = true → ReadsGroups table c.groupBy c.items
  having : c.aggregates = true → ∀ h ∈ c.having, ReadsHaving table c.groupBy c.items h
  distinct : (honoured c).distinct = true → ∀ rows, (honoured c).projected table = .ok rows →
    ∀ a ∈ rows, ∀ b ∈ rows, distinctKey a = distinctKey b → a = b

theorem project_schema {items : List Expr} {input : LogicalPlan} {b : RecordBatch}
    (ran : execute ctx (projectNode items input) = .ok b) :
    b.schema = (projectNode items input).outputSchema := by
  obtain ⟨_, _, built⟩ := bind_eq_ok.mp ran
  exact (applyProject_rows built).1

theorem aggregate_scopes (aggregates : c.aggregates = true) :
    (honoured c).scopes table =
      (groupsOf table c.groupBy (c.kept table)).map (groupScope table c.groupBy) := by
  have grouped : (honoured c).grouped = true := by
    rw [Clauses.grouped, show (honoured c).aggregates = true from aggregates, Bool.true_or]
  rw [Clauses.scopes, if_pos grouped]
  rfl

theorem aggregate_rows (plain : Plain c table) (aggregates : c.aggregates = true)
    (scanned : execute ctx scan = .ok table) (same : table.schema = scan.outputSchema)
    {output : RecordBatch}
    (ran : execute ctx (projectNode c.items
      (aggregateNode c (optional whereNode c.selection scan))) = .ok output) :
    output.schema.fieldNames = c.items.flatMap (itemNames table) ∧
      List.Forall₂ (RowOf table output c.groupBy c.items) ((honoured c).scopes table)
        output.records := by
  obtain ⟨a, grouped, projected⟩ := bind_eq_ok.mp ran
  obtain ⟨input, kept, grouped⟩ := bind_eq_ok.mp grouped
  obtain ⟨schema, records⟩ := where_rows scanned same plain.selection kept
  rw [aggregate_scopes aggregates]
  exact grouped_rows schema records (plain.keys aggregates) (plain.shown aggregates)
    (plain.groups aggregates) grouped projected

theorem having_rows (plain : Plain c table) (aggregates : c.aggregates = true) {h : Expr}
    (clause : c.having = some h) {output : RecordBatch}
    (each : List.Forall₂ (RowOf table output c.groupBy c.items) ((honoured c).scopes table)
      output.records)
    (evaluated : ∀ r ∈ output.records, evalPredicate (rewriteHaving c.items h) r output =
      .ok (keeps (rewriteHaving c.items h) output r)) :
    List.Forall₂ (fun s row => s.row c.items = .ok row)
      (((honoured c).scopes table).filter ((honoured c).passes table))
      (output.records.filter (keeps (rewriteHaving c.items h) output)) := by
  have having : (honoured c).having = some h := (if_pos aggregates).trans clause
  have decides : Relator.LiftFun (fun s row => s ∈ (honoured c).scopes table ∧
      row ∈ output.records ∧ RowOf table output c.groupBy c.items s row) (· ↔ ·)
      (fun s => (honoured c).passes table s = true)
      (fun row => keeps (rewriteHaving c.items h) output row = true) := by
    intro s row inside
    obtain ⟨_, listed, of⟩ := inside
    have kept := of.having h (plain.having aggregates h clause) _ (evaluated row listed)
    show (honoured c).passes table s = true ↔ keeps (rewriteHaving c.items h) output row = true
    rw [kept, Clauses.passes, having]
    exact Iff.rfl
  exact (List.rel_filter decides (forall₂_inside each)).imp fun s row inside => inside.2.2.values

theorem aggregate_shape (plain : Plain c table) (aggregates : c.aggregates = true)
    (scanned : execute ctx scan = .ok table) (same : table.schema = scan.outputSchema)
    {b : RecordBatch}
    (ran : execute ctx (optional (havingNode c.items) c.having
      (projectNode c.items (aggregateNode c (optional whereNode c.selection scan)))) = .ok b) :
    b.schema.fieldNames = c.items.flatMap (itemNames table) ∧
      (honoured c).projected table = .ok b.records := by
  unfold Clauses.projected
  cases clause : c.having with
  | none =>
    rw [clause] at ran
    obtain ⟨names, each⟩ := aggregate_rows plain aggregates scanned same ran
    have having : (honoured c).having = none := (if_pos aggregates).trans clause
    have all : ((honoured c).scopes table).filter ((honoured c).passes table) =
        (honoured c).scopes table := by
      rw [List.filter_eq_self]
      intro s _
      rw [Clauses.passes, having]
    rw [all]
    exact ⟨names, mapM_eq_ok.mpr (each.imp fun s row of => of.values)⟩
  | some h =>
    rw [clause] at ran
    obtain ⟨output, below, ran⟩ := bind_eq_ok.mp ran
    obtain ⟨kept, filtered, built⟩ := bind_eq_ok.mp ran
    obtain ⟨rfl, _⟩ := fromRecords_eq_ok.mp built
    obtain ⟨evaluated, rfl⟩ := filterRecords_eq filtered
    obtain ⟨names, each⟩ := aggregate_rows plain aggregates scanned same below
    have schema := project_schema below
    exact ⟨schema ▸ names, mapM_eq_ok.mpr (having_rows plain aggregates clause each evaluated)⟩

theorem plain_shape (plain : Plain c table) (scalar : ¬ c.aggregates = true)
    (scanned : execute ctx scan = .ok table) (same : table.schema = scan.outputSchema)
    {b : RecordBatch}
    (ran : execute ctx (projectNode c.items (optional whereNode c.selection scan)) = .ok b) :
    b.schema.fieldNames = c.items.flatMap (itemNames table) ∧
      (honoured c).projected table = .ok b.records := by
  obtain ⟨input, kept, projected⟩ := bind_eq_ok.mp ran
  obtain ⟨schema, records⟩ := where_rows scanned same plain.selection kept
  obtain ⟨schemaB, each⟩ := applyProject_rows projected
  have unfed : ∀ item ∈ c.items, item.containsAggregate = false := by
    intro item listed
    by_contra fed
    exact scalar (by simp [Clauses.aggregates]; exact .inl ⟨item, listed, by simpa using fed⟩)
  have having : (honoured c).having = none := if_neg scalar
  have scopes : ((honoured c).scopes table).filter ((honoured c).passes table) =
      (c.kept table).map (rowScope table) := by
    have single : ¬ (honoured c).grouped = true := by
      rw [Clauses.grouped, having, show (honoured c).aggregates = c.aggregates from rfl]
      simpa using scalar
    rw [Clauses.scopes, if_neg single, List.filter_eq_self.mpr]
    · rfl
    · intro s _
      rw [Clauses.passes, having]
  constructor
  · have below : (optional whereNode c.selection scan).outputSchema = table.schema := by
      rw [same]
      cases c.selection with
      | none => rfl
      | some w => rfl
    rw [schemaB, below, output_names]
  · rw [Clauses.projected, scopes, mapM_eq_ok, List.forall₂_map_left_iff, ← records]
    exact each.imp fun r row found => row_of_values schema unfed found

theorem selected_rows (plain : Plain c table) (scanned : execute ctx scan = .ok table)
    (same : table.schema = scan.outputSchema) {b : RecordBatch}
    (ran : execute ctx (selected c scan) = .ok b) :
    b.schema.fieldNames = c.items.flatMap (itemNames table) ∧
      ∃ rows, (honoured c).projected table = .ok rows ∧
        b.records = if (honoured c).distinct then firsts rows else rows := by
  simp only [selected] at ran
  have once : (honoured c).distinct = (c.distinct && !c.aggregates) := rfl
  split at ran
  · rename_i aggregates
    obtain ⟨names, projected⟩ := aggregate_shape plain aggregates scanned same ran
    refine ⟨names, b.records, projected, ?_⟩
    rw [once, aggregates, Bool.not_true, Bool.and_false, if_neg (by simp)]
  · rename_i scalar
    rw [Bool.not_eq_true] at scalar
    rw [scalar, Bool.not_false, Bool.and_true] at once
    split at ran
    · rename_i distinct
      obtain ⟨input, below, built⟩ := bind_eq_ok.mp ran
      obtain ⟨names, projected⟩ := plain_shape plain (by simp [scalar]) scanned same below
      obtain ⟨rfl, _⟩ := fromRecords_eq_ok.mp built
      refine ⟨project_schema below ▸ names, input.records, projected, ?_⟩
      rw [once, if_pos distinct]
      exact distinctRecords_eq (plain.distinct (once.trans distinct) _ projected)
    · rename_i all
      obtain ⟨names, projected⟩ := plain_shape plain (by simp [scalar]) scanned same ran
      refine ⟨names, b.records, projected, ?_⟩
      rw [once, if_neg all]

end Selection

section Order
variable [Regex] {ctx : ExecutionContext} {table input : RecordBatch} {c : Clauses}
variable {plan : LogicalPlan}

theorem keys_eq (order : List SortExpr)
    (names : input.schema.fieldNames = c.items.flatMap (itemNames table)) :
    keyedRecords order input input.records =
      input.records.mapM (withKeys order ⟨c.outputSchema table, input.records⟩) := by
  have labelled : input.schema.fieldNames = (c.outputSchema table).fieldNames := by
    rw [names, Clauses.outputSchema, output_names]
  rw [keyedRecords_eq]
  congr 1
  funext r
  rw [withKeys, RSparkGrouping.evalAll_eq, mapM_map]
  congr 2
  funext key
  exact eval_congr labelled key.expr

omit [Regex] in
theorem compareOrder_honoured (order : List OrderKey) (as bs : List Value) :
    compareOrder (order.map fun k => ⟨k.key, none⟩) as bs =
      compareKeys (order.map OrderKey.key) as bs := by
  induction order generalizing as bs with
  | nil => cases as <;> cases bs <;> rfl
  | cons key order ih =>
    cases as with
    | nil => rfl
    | cons a as =>
      cases bs with
      | nil => rfl
      | cons b bs =>
        rw [List.map_cons, List.map_cons, compareOrder, compareKeys, ih]
        rfl

theorem sort_rows {b : RecordBatch}
    (ran : execute ctx (planSort (c.orderBy.map OrderKey.key) plan) = .ok b) :
    ∃ input, execute ctx plan = .ok input ∧
      (input.schema.fieldNames = c.items.flatMap (itemNames table) →
        (honoured c).sorted table input.records = .ok b.records) := by
  have keys : (honoured c).orderBy.map OrderKey.key = c.orderBy.map OrderKey.key := by
    simp [honoured]
  have compare : (fun a b : Record × List Value => compareOrder (honoured c).orderBy a.2 b.2) =
      fun a b => compareKeys (c.orderBy.map OrderKey.key) a.2 b.2 := by
    funext a b
    exact compareOrder_honoured c.orderBy a.2 b.2
  have empty : (honoured c).orderBy = [] ↔ c.orderBy = [] := List.map_eq_nil_iff
  unfold Clauses.sorted
  rw [keys, compare]
  simp only [empty]
  unfold planSort at ran
  by_cases unordered : c.orderBy = []
  · rw [if_pos (by simp [unordered])] at ran
    refine ⟨b, ran, fun _ => ?_⟩
    rw [if_pos unordered]
  · rw [if_neg (by simpa using unordered)] at ran
    obtain ⟨input, below, ran⟩ := bind_eq_ok.mp ran
    obtain ⟨sorted, sort, built⟩ := bind_eq_ok.mp ran
    obtain ⟨rfl, _⟩ := fromRecords_eq_ok.mp built
    obtain ⟨keyed, found, built⟩ := bind_eq_ok.mp sort
    obtain ⟨rfl, _⟩ := fromRecords_eq_ok.mp built
    refine ⟨input, below, fun names => ?_⟩
    have labels : (honoured c).outputSchema table = c.outputSchema table := rfl
    rw [if_neg unordered, labels, ← keys_eq _ names, found]
    rfl

theorem limit_rows {b : RecordBatch} (ran : execute ctx (optional limitNode c.limit plan) = .ok b) :
    ∃ input, execute ctx plan = .ok input ∧ (honoured c).window input.records = b.records := by
  unfold Clauses.window
  rw [show (honoured c).limit = c.limit from rfl]
  cases limit : c.limit with
  | none =>
    rw [limit] at ran
    exact ⟨b, ran, rfl⟩
  | some n =>
    rw [limit] at ran
    obtain ⟨input, below, ran⟩ := bind_eq_ok.mp ran
    obtain ⟨limited, take, built⟩ := bind_eq_ok.mp ran
    obtain ⟨rfl, _⟩ := fromRecords_eq_ok.mp built
    obtain ⟨rfl, _⟩ := fromRecords_eq_ok.mp take
    exact ⟨input, below, rfl⟩

theorem plan_rows {scan : LogicalPlan} (plain : Plain c table)
    (scanned : execute ctx scan = .ok table) (same : table.schema = scan.outputSchema)
    {b : RecordBatch} (ran : execute ctx (planOf c scan) = .ok b) :
    (honoured c).reference table = .ok b.records := by
  obtain ⟨ordered, below, window⟩ := limit_rows ran
  obtain ⟨chosen, below, sorted⟩ := sort_rows below
  obtain ⟨names, rows, projected, once⟩ := selected_rows plain scanned same below
  have order : (honoured c).sorted table chosen.records = .ok ordered.records := sorted names
  rw [Clauses.reference, projected, ok_bind, ← once, ← window]
  show ((honoured c).sorted table chosen.records >>= fun rows =>
    .ok ((honoured c).window rows)) = _
  rw [order]
  rfl

end Order

section Result

theorem planOf_honoured (c : Clauses) (scan : LogicalPlan) :
    planOf (honoured c) scan = planOf c scan := by
  have same : (honoured c).aggregates = c.aggregates := rfl
  have body : selected (honoured c) scan = selected c scan := by
    unfold selected
    rw [same]
    by_cases aggregates : c.aggregates = true
    · have having : (honoured c).having = c.having := if_pos aggregates
      rw [if_pos aggregates, if_pos aggregates, having]
      rfl
    · have once : (honoured c).distinct = c.distinct := by simp [honoured, aggregates]
      rw [if_neg aggregates, if_neg aggregates, once]
      rfl
  have keys : (honoured c).orderBy.map OrderKey.key = c.orderBy.map OrderKey.key := by
    simp [honoured]
  rw [planOf, planOf, body, keys]
  rfl

variable [Regex] [SqlParser]

/-- The result of a query is the pipeline of its clauses exactly if the clauses that the planner
    does not honour change nothing in it. -/
theorem clauses_carried_out_iff (ctx : ExecutionContext) (catalog : Catalog) (query : Query)
    (name path source : String) (schema : Schema) (c : Clauses) (plan : LogicalPlan)
    (table out : RecordBatch) (read : clausesOf query = .ok (name, c))
    (planned : planQuery catalog query = .ok plan)
    (located : catalog.tableLocation name = .ok (path, source))
    (described : catalog.tableSchema name = .ok schema)
    (scanned : scanSource ctx path source schema = .ok table) (conforms : table.schema = schema)
    (plain : Plain c table) (ran : execute ctx plan = .ok out) :
    c.reference table = .ok out.records ↔ c.reference table = (honoured c).reference table := by
  obtain ⟨path', source', schema', located', described', rfl⟩ := planQuery_eq read planned
  obtain ⟨rfl, rfl⟩ := Prod.mk.inj (Except.ok.inj (located.symm.trans located'))
  obtain rfl := Except.ok.inj (described.symm.trans described')
  have answered : execute ctx (.scan name path source schema) = .ok table := by
    rw [execute, scanned, ok_bind]
    split
    · rename_i empty
      rw [← conforms, RecordBatch.new, ← List.isEmpty_iff.mp empty]
    · rfl
  rw [plan_rows plain answered conforms ran]

end Result

section Witness

def peopleSchema : Schema := ⟨[.new "name" .string, .new "city" .string]⟩

def people : RecordBatch :=
  ⟨peopleSchema, [⟨[.string "ann", .string "oslo"]⟩, ⟨[.string "bob", .string "rome"]⟩,
    ⟨[.string "cat", .string "oslo"]⟩, ⟨[.string "dan", .string "rome"]⟩,
    ⟨[.string "eve", .string "kiev"]⟩]⟩

def peopleCatalog : Catalog where
  tableSchema _ := .ok peopleSchema
  tableLocation name := .ok (name, "csv")

def peopleContext : ExecutionContext := ⟨⟨fun _ => some ⟨fun _ _ => .ok people⟩⟩⟩

def peopleScan : LogicalPlan := .scan "people" "people" "csv" peopleSchema

def column (name : String) : SqlExpr := .identifier ⟨name⟩

def countNames : SqlExpr :=
  .function ⟨[⟨"COUNT"⟩], "COUNT"⟩ (.list [.unnamed (.expr (column "name"))] false)

/-- `SELECT city, COUNT(name) AS n FROM people WHERE name IS NOT NULL GROUP BY city
    HAVING COUNT(name) > 1 ORDER BY city DESC LIMIT 1` -/
def crowdedQuery : Query :=
  .mk false (.select ⟨none, [.unnamedExpr (column "city"), .exprWithAlias countNames ⟨"n"⟩],
      [⟨.table ⟨[⟨"people"⟩], "people"⟩ none, []⟩], some (.isNotNull (column "name")),
      .expressions [column "city"], some (.binaryOp countNames .gt (.value (.number "1")))⟩)
    (some [⟨column "city", some false, none⟩]) (some (.value (.number "1"))) none

def nameCount : Expr := .aggregate .count (.column "name") false

def crowded : Clauses where
  distinct := false
  items := [.column "city", .aliased nameCount "n"]
  selection := some (.isNotNull (.column "name"))
  groupBy := ["city"]
  having := some (.binary .gt nameCount (.literal (.int 1)))
  orderBy := [⟨⟨.column "city", false⟩, none⟩]
  limit := some 1
  offset := 0

theorem crowded_plain : @Plain noRegex crowded people := by
  refine @Plain.mk noRegex _ _ ?selection ?keys ?shown ?groups ?having ?distinct
  case selection => decide
  case keys =>
    intro _
    decide
  case shown =>
    intro _
    decide
  case groups =>
    intro _
    constructor
    case star => decide
    case calls => decide
    case columns => decide
    case repeats => decide
  case having =>
    intro _ h clause
    obtain rfl := Option.some.inj clause
    constructor
    case self => decide
    case columns => decide
    case calls => decide
  case distinct => exact nofun

theorem crowded_carried_out :
    @Clauses.reference noRegex crowded people = .ok [⟨[.string "rome", .int64 2]⟩] := by
  have ran : @execute noRegex peopleContext (planOf crowded peopleScan) =
      .ok ⟨⟨[.new "city" .string, .new "n" .int64]⟩, [⟨[.string "rome", .int64 2]⟩]⟩ := rfl
  exact (@clauses_carried_out_iff noRegex noParser peopleContext peopleCatalog crowdedQuery
    "people" "people" "csv" peopleSchema crowded (planOf crowded peopleScan) people _ rfl rfl rfl
    rfl rfl rfl crowded_plain ran).mpr rfl

/-- `SELECT name FROM people OFFSET 4` -/
def lastQuery : Query :=
  .mk false (.select ⟨none, [.unnamedExpr (column "name")],
      [⟨.table ⟨[⟨"people"⟩], "people"⟩ none, []⟩], none, .expressions [], none⟩)
    none none (some (.value (.number "4")))

def last : Clauses := ⟨false, [.column "name"], none, [], none, [], none, 4⟩

/-- No row is skipped. -/
theorem offset_not_carried_out :
    ¬ ∀ (ctx : ExecutionContext) (catalog : Catalog) (query : Query) (name path source : String)
      (schema : Schema) (c : Clauses) (plan : LogicalPlan) (table out : RecordBatch),
      @clausesOf noParser query = .ok (name, c) → @planQuery noParser catalog query = .ok plan →
      catalog.tableLocation name = .ok (path, source) → catalog.tableSchema name = .ok schema →
      scanSource ctx path source schema = .ok table → Conforms table schema →
      @execute noRegex ctx plan = .ok out → @Clauses.reference noRegex c table = .ok out.records := by
  intro claim
  have ran : @execute noRegex peopleContext (planOf last peopleScan) =
      .ok ⟨⟨[.new "name" .string]⟩, [⟨[.string "ann"]⟩, ⟨[.string "bob"]⟩, ⟨[.string "cat"]⟩,
        ⟨[.string "dan"]⟩, ⟨[.string "eve"]⟩]⟩ := rfl
  have all := claim peopleContext peopleCatalog lastQuery "people" "people" "csv" peopleSchema last
    (planOf last peopleScan) people _ rfl rfl rfl rfl rfl (by decide) ran
  have one : @Clauses.reference noRegex last people = .ok [⟨[.string "eve"]⟩] := rfl
  rw [one] at all
  exact nomatch all

end Witness

end RSparkClauseLaw
