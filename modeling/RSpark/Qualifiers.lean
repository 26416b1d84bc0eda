import RSpark.NaturalRows
import RSpark.ResultColumns
import RSpark.ScalarItems

/- Qualified wildcards and columns in queries over a FROM list. The planner drops the qualifiers,
   so they are right where the bare name, or all the columns that there are, happen to be meant. -/
namespace RSparkQualifiers
open RSparkValue RSparkBatch RSparkExpr RSparkPlan RSparkOperators RSparkExecutor RSparkSqlAst
open RSparkExprBuilder RSparkPlanner RSparkSchemaContract RSparkStages RSparkSchemaFit
open RSparkJoinLaw RSparkJoinRows RSparkNaturalRows RSparkGroupedRows Listing
open RSparkClauses (Group)
open RSparkClauseLaw (projectNode havingNode)
open RSparkScalarItems (groupsBy rowNames_eq groups_stand readsKeys eval_byName byName_eval
  group_first group_of_row having_runs)
open RSparkGrouping (aggregateRecords_entries)
open RSparkHavingRewrite (eval_stripAlias)
open RSparkResultColumns

section Reference

def Aggregated (projections groupExprs : List Expr) : Prop :=
  ¬ (fedItems projections).isEmpty ∨ ¬ groupExprs.isEmpty

instance (projections groupExprs : List Expr) : Decidable (Aggregated projections groupExprs) :=
  inferInstanceAs (Decidable (_ ∨ _))

def groupColumns (projections groupExprs : List Expr) : Schema :=
  ⟨groupExprs.map aggregateField ++ (fedItems projections).map aggregateField⟩

def readColumns (tables : List FromTable) (projections groupExprs : List Expr) : Schema :=
  if Aggregated projections groupExprs then groupColumns projections groupExprs
  else naturalColumns tables

/-- An item of a SELECT list, and what is built of the items around it and of the grouping. -/
structure Listed (select : Select) (item : SelectItem) (pre post groupExprs : List Expr) :
    Prop where
  placed : ∃ before after, select.projection = before ++ item :: after ∧
    buildSelectItems before = .ok pre ∧ buildSelectItems after = .ok post
  grouped : buildExprs (groupByExprs select.groupBy) = .ok groupExprs

/-- Between the columns of the items around it stand the columns of a table of that name. -/
def WildcardRight (tables : List FromTable) (name : ObjectName) (read : Schema)
    (pre post : List Expr) (plan : LogicalPlan) : Prop :=
  ∃ t ∈ tables, t.scope.answersTo name.parts = true ∧ plan.outputSchema.fields =
    pre.flatMap (projectFields read) ++ t.schema.fields ++ post.flatMap (projectFields read)

def Offered (tables : List FromTable) (qualifier : List Ident) (column : Ident) : Prop :=
  ∃ t ∈ tables, t.scope.answersTo qualifier = true ∧ column.value ∈ t.schema.fieldNames

def columnItem (parts : List Ident) : Option Ident → SelectItem
  | none => .unnamedExpr (.compoundIdentifier parts)
  | some alias' => .exprWithAlias (.compoundIdentifier parts) alias'

variable [Regex]

/-- In a row of the FROM list the reference has the value that the chosen row of each table of
    that name holds in its column. -/
def Evaluates (b : RecordBatch) (e : Expr) (qualifier : List Ident) (column : Ident)
    (record : Record) (chosen : Choice) : Prop :=
  ∀ p ∈ chosen, p.1.scope.answersTo qualifier = true → ∀ w, held p.1 p.2 column.value = some w →
    ∃ v, e.eval record b = .ok v ∧ SameValue v w

def Rejected (ctx : ExecutionContext) (catalog : Catalog) (select : Select) : Prop :=
  ∀ plan out, planSelect select catalog = .ok plan → execute ctx plan ≠ .ok out

def Projects (ctx : ExecutionContext) (catalog : Catalog) (select : Select) (b : RecordBatch) :
    Prop :=
  ∃ scanned filtered, fromPlan catalog select.from' = .ok scanned ∧
    planWhere select.selection scanned = .ok filtered ∧ execute ctx filtered = .ok b

/-- In the row of a group the reference has the value that the chosen row of each table of that
    name holds in its column, for a row of FROM in the group. -/
def ShowsGroup (tables : List FromTable) (a : RecordBatch) (e : Expr) (qualifier : List Ident)
    (column : Ident) (g : Group) (row : Record) : Prop :=
  ∀ v, e.eval row a = .ok v →
    ∃ r ∈ g.rows, ∃ chosen, (r, chosen) ∈ (naturalBatch tables).records.zip (naturalRows tables) ∧
      ∀ p ∈ chosen, p.1.scope.answersTo qualifier = true →
        ∀ w, held p.1 p.2 column.value = some w → SameValue v w

structure ColumnRight (ctx : ExecutionContext) (catalog : Catalog) (tables : List FromTable)
    (qualifier : List Ident) (column : Ident) (select : Select) (es groupExprs : List Expr) :
    Prop where
  evaluated : ∀ plan b, fromPlan catalog select.from' = .ok plan → execute ctx plan = .ok b →
    ∃ e, buildExpr (.compoundIdentifier (qualifier ++ [column])) = .ok e ∧
      List.Forall₂ (Evaluates b e qualifier column) b.records (naturalRows tables)
  grouped : Aggregated es groupExprs → ¬ Rejected ctx catalog select →
    ∀ b a, Projects ctx catalog select b →
      aggregateBatch groupExprs (fedItems es) b (groupColumns es groupExprs) = .ok a →
      ∃ e, buildExpr (.compoundIdentifier (qualifier ++ [column])) = .ok e ∧
        List.Forall₂ (ShowsGroup tables a e qualifier column) (groupsBy groupExprs b) a.records
  strayRejected : ¬ Offered tables qualifier column → Rejected ctx catalog select

/-- The query without one of its items and without HAVING. -/
def Select.without (select : Select) (before after : List SelectItem) : Select :=
  { select with projection := before ++ after, having := none }

/-- HAVING is no predicate, or has no truth value on a row that it is asked about. -/
def HavingFails (ctx : ExecutionContext) (catalog : Catalog) (select : Select)
    (es groupExprs : List Expr) : Prop :=
  Aggregated es groupExprs ∧ ∃ clause ∈ select.having, ∀ h, buildExpr clause = .ok h →
    ∃ plan out, planSelect { select with having := none } catalog = .ok plan ∧
      execute ctx plan = .ok out ∧ ∃ row ∈ out.records,
        (evalPredicate (rewriteHaving es h) row out).isOk = false

/-- Where the query groups, the first expression that is read under the name is the column. -/
def ReadAsColumn (es groupExprs : List Expr) (column : Ident) : Prop :=
  Aggregated es groupExprs →
    (groupExprs ++ fedItems es).find? (·.displayName = column.value) = some (.column column.value)

-- SELECT COUNT(*) AS user, orders.user shows the count for the column.
example : ¬ ReadAsColumn [.aliased (.aggregate .count .star false) "user", .column "user"] []
    (ident "user") := by
  intro read
  exact absurd (read (by decide)) (by decide)

def ReadAlone (es groupExprs : List Expr) (column : Ident) : Prop :=
  Aggregated es groupExprs → ∀ e ∈ groupExprs ++ fedItems es, e.displayName = column.value →
    e = .column column.value

def Passes (selection : Option SqlExpr) (record : Record) (b : RecordBatch) : Prop :=
  match selection with
  | none => True
  | some clause => ∃ predicate, buildExpr clause = .ok predicate ∧
      evalPredicate predicate record b = .ok true

def SomePasses (tables : List FromTable) (select : Select) : Prop :=
  ∃ record ∈ (naturalBatch tables).records,
    Passes select.selection record (naturalBatch tables)

/-- The reference is of a table of FROM, and read as its column where there is anything to read; or
    the query is rejected, for it or for another part. -/
def ReferenceSound (ctx : ExecutionContext) (catalog : Catalog) (tables : List FromTable)
    (select : Select) (before after : List SelectItem) (es groupExprs : List Expr)
    (qualifier : List Ident) (column : Ident) : Prop :=
  Offered tables qualifier column ∧
      (ReadAsColumn es groupExprs column ∨ ¬ SomePasses tables select) ∨
    column.value ∉ (readColumns tables es groupExprs).fieldNames ∧ SomePasses tables select ∨
    Rejected ctx catalog (Select.without select before after) ∨
    HavingFails ctx catalog select es groupExprs

/-- In a row of FROM the reference has the value of the column, and no value if there is no such
    column. -/
structure ReadRight (tables : List FromTable) (b : RecordBatch) (e : Expr)
    (qualifier : List Ident) (column : Ident) (record : Record) (chosen : Choice) : Prop where
  value : Evaluates b e qualifier column record chosen
  stray : ¬ Offered tables qualifier column → ∀ v, e.eval record b ≠ .ok v

def Returns (ctx : ExecutionContext) (catalog : Catalog) (select : Select) (out : RecordBatch) :
    Prop :=
  ∃ plan, planSelect select catalog = .ok plan ∧ execute ctx plan = .ok out

/-- The rows that ORDER BY is read over, or those that HAVING is. -/
def AskedOver (ctx : ExecutionContext) (catalog : Catalog) (select : Select) (out : RecordBatch) :
    Prop :=
  Returns ctx catalog select out ∨ Returns ctx catalog { select with having := none } out

/-- The row of the result shows a row of FROM: that row, or the row of its group, was put through
    the SELECT list. -/
def ComesFrom (es groupExprs : List Expr) (b a : RecordBatch) (r row : Record) : Prop :=
  if Aggregated es groupExprs then
    ∃ x g, (x, g) ∈ a.records.zip (groupsBy groupExprs b) ∧ r ∈ g.rows ∧
      projectAll x a es = .ok row.values
  else r ∈ b.records ∧ projectAll r b es = .ok row.values

/-- In a row of the result the reference has the value that the chosen row of each table of that
    name holds in its column, for a row of FROM that it shows. -/
def ShowsResult (tables : List FromTable) (es groupExprs : List Expr) (b a out : RecordBatch)
    (e : Expr) (qualifier : List Ident) (column : Ident) (row : Record) : Prop :=
  ∀ v, e.eval row out = .ok v → ∃ r, ComesFrom es groupExprs b a r row ∧
    ∃ chosen, (r, chosen) ∈ (naturalBatch tables).records.zip (naturalRows tables) ∧
      ∀ p ∈ chosen, p.1.scope.answersTo qualifier = true →
        ∀ w, held p.1 p.2 column.value = some w → SameValue v w

structure ResultRight (tables : List FromTable) (es groupExprs : List Expr)
    (b a out : RecordBatch) (e : Expr) (qualifier : List Ident) (column : Ident) : Prop where
  shown : ∀ row ∈ out.records, ShowsResult tables es groupExprs b a out e qualifier column row
  stray : ¬ Offered tables qualifier column → ∃ row ∈ out.records, ∀ v, e.eval row out ≠ .ok v

/-- The reference is of a table of FROM, and the first item printed as its column is that column,
    where there is a row to read; or no item is printed so, and the evaluation fails on a row. -/
def ResultSound (tables : List FromTable) (es groupExprs : List Expr) (out : RecordBatch)
    (qualifier : List Ident) (column : Ident) : Prop :=
  Offered tables qualifier column ∧ (out.records = [] ∨ ReadAsColumn es groupExprs column ∧
      ∀ item ∈ es.find? (column.value ∈ printed (readColumns tables es groupExprs) ·),
        Plain column.value item) ∨
    column.value ∉ es.flatMap (printed (readColumns tables es groupExprs)) ∧ out.records ≠ []

def PrintedAlone (tables : List FromTable) (es groupExprs : List Expr) (column : Ident) : Prop :=
  ReadAlone es groupExprs column ∧ ∀ item ∈ es,
    column.value ∈ printed (readColumns tables es groupExprs) item → Plain column.value item

-- SELECT id AS user FROM orders ORDER BY orders.user sorts by the id.
example : ¬ ∀ item ∈ [Expr.aliased (.column "id") "user"].find? ("user" ∈ printed ⟨[]⟩ ·),
    Plain "user" item := by
  intro read
  exact absurd (read _ rfl) (by decide)

end Reference

section Lists

theorem buildSelectItems_append {before after : List SelectItem} {es : List Expr} :
    buildSelectItems (before ++ after) = .ok es ↔ ∃ pre post,
      buildSelectItems before = .ok pre ∧ buildSelectItems after = .ok post ∧ es = pre ++ post := by
  induction before generalizing es with
  | nil => simp [buildSelectItems]
  | cons item before ih =>
    rw [List.cons_append, buildSelectItems, buildSelectItems]
    constructor
    · intro built
      obtain ⟨e, here, built⟩ := bind_eq_ok.mp built
      obtain ⟨rest, there, same⟩ := bind_eq_ok.mp built
      obtain ⟨pre, post, first, second, rfl⟩ := ih.mp there
      refine ⟨e :: pre, post, ?_, second, (Except.ok.inj same).symm⟩
      rw [here, ok_bind, first]
      rfl
    · intro parts
      obtain ⟨pre', post, built, second, rfl⟩ := parts
      obtain ⟨e, here, built⟩ := bind_eq_ok.mp built
      obtain ⟨pre, first, same⟩ := bind_eq_ok.mp built
      obtain rfl := Except.ok.inj same
      rw [here, ok_bind, ih.mpr ⟨pre, post, first, second, rfl⟩]
      rfl

theorem buildSelectItems_around {before after : List SelectItem} {item : SelectItem} {e : Expr}
    (built : buildSelectItem item = .ok e) {es : List Expr} :
    buildSelectItems (before ++ item :: after) = .ok es ↔ ∃ pre post,
      buildSelectItems before = .ok pre ∧ buildSelectItems after = .ok post ∧
        es = pre ++ e :: post := by
  rw [buildSelectItems_append]
  apply exists_congr
  intro pre
  rw [buildSelectItems, built, ok_bind]
  constructor
  · intro parts
    obtain ⟨later, first, second, rfl⟩ := parts
    obtain ⟨post, there, same⟩ := bind_eq_ok.mp second
    obtain rfl := Except.ok.inj same
    exact ⟨post, first, there, rfl⟩
  · intro parts
    obtain ⟨post, first, second, rfl⟩ := parts
    refine ⟨e :: post, first, ?_, rfl⟩
    rw [second]
    rfl

theorem shaped_columns {projections groupExprs : List Expr} {input plan : LogicalPlan}
    {tables : List FromTable} (columns : input.outputSchema = naturalColumns tables)
    (shaped : Shaped projections groupExprs input plan) :
    plan.outputSchema.fields =
      projections.flatMap (projectFields (readColumns tables projections groupExprs)) := by
  unfold readColumns
  cases shaped with
  | grouped grouped having =>
    have aggregated : Aggregated projections groupExprs := grouped
    rw [filtered_schema having, if_pos aggregated]
    rfl
  | distinct plain =>
    have scalar : ¬ Aggregated projections groupExprs := plain
    rw [if_neg scalar, ← columns]
    rfl
  | plain plain =>
    have scalar : ¬ Aggregated projections groupExprs := plain
    rw [if_neg scalar, ← columns]
    rfl

theorem planSelect_columns {ctx : ExecutionContext} {catalog : Catalog} {select : Select}
    {tables : List FromTable} (list : FromList ctx catalog select.from' tables)
    {plan : LogicalPlan} (planned : planSelect select catalog = .ok plan)
    {projections groupExprs : List Expr}
    (listed : buildSelectExpressions select = .ok projections)
    (grouped : buildExprs (groupByExprs select.groupBy) = .ok groupExprs) :
    plan.outputSchema.fields =
      projections.flatMap (projectFields (readColumns tables projections groupExprs)) := by
  obtain ⟨tablesPlan, fromPlanned, columns, _⟩ := @fromPlan_runs noRegex _ _ _ _ list
  rw [planSelect_from, fromPlanned, ok_bind] at planned
  obtain ⟨filtered, where', planned⟩ := bind_eq_ok.mp planned
  rw [listed, grouped, ok_bind, ok_bind] at planned
  apply shaped_columns _ (planSelectShape_shaped planned)
  exact (filtered_schema (planWhere_filtered where')).trans columns

/-- A qualified wildcard is right exactly if a table of that name has the very columns that the
    list is read over. -/
theorem wildcard_iff {ctx : ExecutionContext} {catalog : Catalog} {select : Select}
    {tables : List FromTable} (list : FromList ctx catalog select.from' tables)
    {name : ObjectName} {pre post groupExprs : List Expr}
    (listed : Listed select (.qualifiedWildcard name) pre post groupExprs) {plan : LogicalPlan}
    (planned : planSelect select catalog = .ok plan) {read : Schema}
    (reads : read = readColumns tables (pre ++ .star :: post) groupExprs) :
    WildcardRight tables name read pre post plan ↔
      ∃ t ∈ tables, t.scope.answersTo name.parts = true ∧ read.fields = t.schema.fields := by
  obtain ⟨before, after, items, first, second⟩ := listed.placed
  have built : buildSelectExpressions select = .ok (pre ++ .star :: post) := by
    rw [buildSelectExpressions, items]
    exact (buildSelectItems_around rfl).mpr ⟨pre, post, first, second, rfl⟩
  have columns := planSelect_columns list planned built listed.grouped
  rw [← reads, List.flatMap_append, List.flatMap_cons, ← List.append_assoc] at columns
  unfold WildcardRight
  rw [columns]
  simp only [List.append_left_inj, List.append_right_inj, projectFields]

end Lists

section Evaluation
variable [Regex] {ctx : ExecutionContext} {catalog : Catalog} {tables : List FromTable}

omit [Regex] in
theorem buildExpr_reference (qualifier : List Ident) (column : Ident) :
    buildExpr (.compoundIdentifier (qualifier ++ [column])) = .ok (.column column.value) := by
  rw [buildExpr, List.getLast?_append]
  rfl

theorem eval_column {b : RecordBatch} {record : Record} {name : String} {v : Value} :
    (Expr.column name).eval record b = .ok v ↔
      (b.schema.indexOf name).map record.getOrNull = some v := by
  rw [Expr.eval]
  cases b.schema.indexOf name with
  | none => simp [orError, columnNotFound]
  | some i => simp [orError]

theorem evaluates_column {b : RecordBatch} {record : Record} {chosen : Choice}
    (reads : Reads b.schema record chosen) (qualifier : List Ident) (column : Ident) :
    Evaluates b (.column column.value) qualifier column record chosen := by
  intro p inside _ w here
  obtain ⟨v, first, same⟩ := reads.consistent column.value p inside w here
  refine ⟨v, ?_, same⟩
  rw [eval_column, reads.lookup]
  exact first

/-- A column of a table of FROM is read right, whatever the tables and their order: the first
    table with the name was joined on it. -/
theorem reference_evaluated {from' : List TableWithJoins}
    (list : FromList ctx catalog from' tables) (qualifier : List Ident) (column : Ident)
    {plan : LogicalPlan} (planned : fromPlan catalog from' = .ok plan) {b : RecordBatch}
    (ran : execute ctx plan = .ok b) :
    ∃ e, buildExpr (.compoundIdentifier (qualifier ++ [column])) = .ok e ∧
      List.Forall₂ (Evaluates b e qualifier column) b.records (naturalRows tables) := by
  obtain ⟨plan', planned', _, runs⟩ := fromPlan_runs list
  obtain rfl := Except.ok.inj (planned.symm.trans planned')
  obtain ⟨rfl, _⟩ := runs b ran
  refine ⟨_, buildExpr_reference qualifier column, ?_⟩
  have rows := naturalBatch_rows (stored_valid list)
  rw [← naturalBatch_schema] at rows
  exact rows.imp fun record chosen reads => evaluates_column reads qualifier column

/-- In WHERE, in a group key and in a call, a reference is read over FROM, and is right on a row
    unless another table's column is taken for one that is not there. -/
theorem read_right_iff {from' : List TableWithJoins}
    (list : FromList ctx catalog from' tables) (qualifier : List Ident) (column : Ident)
    {plan : LogicalPlan} (planned : fromPlan catalog from' = .ok plan) {b : RecordBatch}
    (ran : execute ctx plan = .ok b) :
    ∃ e, buildExpr (.compoundIdentifier (qualifier ++ [column])) = .ok e ∧
      List.Forall₂ (fun record chosen => ReadRight tables b e qualifier column record chosen ↔
        Offered tables qualifier column ∨ column.value ∉ (naturalColumns tables).fieldNames)
        b.records (naturalRows tables) := by
  obtain ⟨plan', planned', _, runs⟩ := fromPlan_runs list
  obtain rfl := Except.ok.inj (planned.symm.trans planned')
  obtain ⟨rfl, _⟩ := runs b ran
  refine ⟨_, buildExpr_reference qualifier column, ?_⟩
  have rows := naturalBatch_rows (stored_valid list)
  rw [← naturalBatch_schema] at rows ⊢
  refine rows.imp fun record chosen reads => ?_
  rw [← column_reads_iff record, or_iff_not_imp_left, not_exists]
  constructor
  · intro right
    exact right.stray
  · intro stray
    exact ⟨evaluates_column reads qualifier column, stray⟩

end Evaluation

section Projection
variable [Regex]

theorem projectAll_ok_iff {record : Record} {b : RecordBatch} {es : List Expr} :
    (∃ values, projectAll record b es = .ok values) ↔
      ∀ e ∈ es, ∃ values, projectValues record b e = .ok values := by
  induction es with
  | nil => exact iff_of_true ⟨[], rfl⟩ (fun _ inside => absurd inside List.not_mem_nil)
  | cons e es ih =>
    rw [List.forall_mem_cons, ← ih]
    constructor
    · intro whole
      obtain ⟨values, projected⟩ := whole
      obtain ⟨first, here, projected⟩ := bind_eq_ok.mp projected
      obtain ⟨later, there, _⟩ := bind_eq_ok.mp projected
      exact ⟨⟨first, here⟩, ⟨later, there⟩⟩
    · intro parts
      obtain ⟨⟨first, here⟩, ⟨later, there⟩⟩ := parts
      refine ⟨first ++ later, ?_⟩
      rw [projectAll, here, ok_bind, there]
      rfl

theorem projectAll_around {record : Record} {b : RecordBatch} {pre post : List Expr} {e : Expr} :
    (∃ values, projectAll record b (pre ++ e :: post) = .ok values) ↔
      (∃ values, projectAll record b (pre ++ post) = .ok values) ∧
        ∃ values, projectValues record b e = .ok values := by
  rw [projectAll_ok_iff, projectAll_ok_iff, List.forall_mem_append, List.forall_mem_append,
    List.forall_mem_cons]
  tauto

theorem projectRows_total {es : List Expr} {b : RecordBatch} {records : List Record}
    (each : ∀ r ∈ records, ∃ values, projectAll r b es = .ok values) :
    ∃ rows, projectRows es b records = .ok rows := by
  induction records with
  | nil => exact ⟨[], rfl⟩
  | cons r rest ih =>
    obtain ⟨first, later⟩ := List.forall_mem_cons.mp each
    obtain ⟨values, here⟩ := first
    obtain ⟨rows, there⟩ := ih later
    refine ⟨⟨values⟩ :: rows, ?_⟩
    rw [projectRows, here, ok_bind, there]
    rfl

theorem applyProject_ok_iff {schema : Schema} {b : RecordBatch} (conforms : Conforms b schema)
    (es : List Expr) :
    (∃ out, applyProject es ⟨es.flatMap (projectFields schema)⟩ b = .ok out) ↔
      ∀ r ∈ b.records, ∃ values, projectAll r b es = .ok values := by
  constructor
  · intro whole r inside
    obtain ⟨out, ran⟩ := whole
    have rows := List.Forall₂.flip (applyProject_rows ran).2
    obtain ⟨row, _, projected⟩ := Listing.forall₂_mem rows r inside
    exact ⟨row.values, projected⟩
  · intro each
    rw [applyProject_fits conforms, uncheckedProject]
    split
    · exact ⟨_, rfl⟩
    · obtain ⟨rows, projected⟩ := projectRows_total each
      exact ⟨_, by rw [projected]; rfl⟩

end Projection

section Rejection
variable [Regex] {ctx : ExecutionContext} {catalog : Catalog} {tables : List FromTable}
  {select : Select} {es groupExprs : List Expr}

theorem keyed_of_aggregate {b a : RecordBatch} {aggregateExprs : List Expr} {schema : Schema}
    (ran : aggregateBatch groupExprs aggregateExprs b schema = .ok a) :
    ∀ r ∈ b.records, (RSparkOperators.evalAll r b groupExprs).isOk = true := by
  obtain ⟨groups, gathered, _⟩ := bind_eq_ok.mp ran
  obtain ⟨texts, summaries⟩ := aggregateRecords_entries gathered
  intro r mem
  obtain ⟨⟨text, state⟩, listed, same⟩ := List.mem_map.mp
    ((texts _).mpr (List.mem_map_of_mem mem))
  have inside : r ∈ b.records.filter (RSparkGrouping.groupText groupExprs b · = text) :=
    List.mem_filter.mpr ⟨mem, decide_eq_true same.symm⟩
  exact isOk_iff.mpr ⟨_, (summaries text state listed).evaluated r inside⟩

theorem projects_rows (list : FromList ctx catalog select.from' tables) {b : RecordBatch}
    (projects : Projects ctx catalog select b) :
    b.Valid ∧ b.schema = naturalColumns tables ∧ ∀ r, r ∈ b.records ↔
      r ∈ (naturalBatch tables).records ∧ Passes select.selection r (naturalBatch tables) := by
  obtain ⟨scanned, filtered, planned, where', ran⟩ := projects
  obtain ⟨scanned', planned', columns, runs⟩ := fromPlan_runs list
  obtain rfl := Except.ok.inj (planned.symm.trans planned')
  cases selection : select.selection with
  | none =>
    rw [selection] at where'
    obtain rfl := Except.ok.inj where'
    obtain ⟨rfl, valid⟩ := runs b ran
    exact ⟨valid, naturalBatch_schema tables, fun r => (and_iff_left trivial).symm⟩
  | some clause =>
    rw [selection] at where'
    obtain ⟨predicate, built, same⟩ := bind_eq_ok.mp where'
    obtain rfl := Except.ok.inj same
    rw [execute] at ran
    obtain ⟨all, executed, ran⟩ := bind_eq_ok.mp ran
    obtain ⟨rfl, _⟩ := runs all executed
    obtain ⟨kept, keeping, formed⟩ := bind_eq_ok.mp ran
    obtain ⟨rfl, valid⟩ := fromRecords_eq_ok.mp formed
    obtain ⟨each, rfl⟩ := filterRecords_eq keeping
    refine ⟨valid, columns, ?_⟩
    intro r
    rw [List.mem_filter]
    apply and_congr_right
    intro inside
    constructor
    · intro keep
      refine ⟨predicate, built, ?_⟩
      rw [each r inside, keep]
    · intro passes
      obtain ⟨predicate', built', holds⟩ := passes
      obtain rfl := Except.ok.inj (built.symm.trans built')
      exact Except.ok.inj ((each r inside).symm.trans holds)

def ListBatch (es groupExprs : List Expr) (b a : RecordBatch) : Prop :=
  if Aggregated es groupExprs then
    aggregateBatch groupExprs (fedItems es) b (groupColumns es groupExprs) = .ok a
  else a = b

def listPlan (select : Select) (es groupExprs : List Expr) (input : LogicalPlan) : LogicalPlan :=
  if Aggregated es groupExprs then
    projectNode es (.aggregate input groupExprs (fedItems es) (groupColumns es groupExprs))
  else if select.distinct.isSome then
    .distinct (projectNode es input) (projectNode es input).outputSchema
  else projectNode es input

omit [Regex] in
theorem planSelectShape_having (select : Select) (es groupExprs : List Expr)
    (input : LogicalPlan) :
    planSelectShape select es groupExprs input =
      if Aggregated es groupExprs then
        planHaving select.having es (listPlan select es groupExprs input)
      else .ok (listPlan select es groupExprs input) := by
  unfold planSelectShape listPlan
  dsimp only
  by_cases aggregated : Aggregated es groupExprs
  · have raw : ¬ (es.filter Expr.containsAggregate).isEmpty ∨ ¬ groupExprs.isEmpty := aggregated
    rw [if_pos raw, if_pos aggregated, if_pos aggregated]
    rfl
  · have raw : ¬ (¬ (es.filter Expr.containsAggregate).isEmpty ∨ ¬ groupExprs.isEmpty) :=
      aggregated
    rw [if_neg raw, if_neg aggregated, if_neg aggregated]
    split
    · rfl
    · rfl

omit [Regex] in
theorem planSelectShape_list (unfiltered : Aggregated es groupExprs → select.having = none)
    (input : LogicalPlan) :
    planSelectShape select es groupExprs input = .ok (listPlan select es groupExprs input) := by
  rw [planSelectShape_having]
  split
  · rename_i aggregated
    rw [unfiltered aggregated]
    rfl
  · rfl

omit [Regex] in
theorem aggregated_congr {es' : List Expr} (fed : fedItems es = fedItems es') :
    Aggregated es groupExprs ↔ Aggregated es' groupExprs := by
  rw [Aggregated, Aggregated, fed]

theorem listBatch_congr {es' : List Expr} (fed : fedItems es = fedItems es')
    {b a : RecordBatch} : ListBatch es groupExprs b a ↔ ListBatch es' groupExprs b a := by
  have columns : groupColumns es groupExprs = groupColumns es' groupExprs := by
    rw [groupColumns, groupColumns, fed]
  simp only [ListBatch, aggregated_congr fed, fed, columns]

theorem listBatch_runs {input : LogicalPlan} {b : RecordBatch} (ran : execute ctx input = .ok b)
    (conforms : Conforms b input.outputSchema) :
    (∃ out, execute ctx (listPlan select es groupExprs input) = .ok out) ↔
      ∃ a, ListBatch es groupExprs b a ∧
        ∀ r ∈ a.records, ∃ values, projectAll r a es = .ok values := by
  unfold listPlan ListBatch
  split
  · rw [projectNode, execute, execute, ran, ok_bind]
    constructor
    · rintro ⟨out, whole⟩
      obtain ⟨a, aggregated, projected⟩ := bind_eq_ok.mp whole
      exact ⟨a, aggregated, (applyProject_ok_iff (aggregateBatch_conforms aggregated) es).mp
        ⟨out, projected⟩⟩
    · rintro ⟨a, aggregated, each⟩
      rw [aggregated]
      exact (applyProject_ok_iff (aggregateBatch_conforms aggregated) es).mpr each
  · have plain := applyProject_ok_iff conforms es
    have alone : (∃ a, a = b ∧ ∀ r ∈ a.records, ∃ values, projectAll r a es = .ok values) ↔
        ∀ r ∈ b.records, ∃ values, projectAll r b es = .ok values := by
      rw [exists_eq_left]
    rw [alone, ← plain]
    split
    · rw [execute, projectNode, execute, ran, ok_bind]
      constructor
      · rintro ⟨out, distinct⟩
        obtain ⟨rows, done, _⟩ := bind_eq_ok.mp distinct
        exact ⟨rows, done⟩
      · rintro ⟨rows, done⟩
        rw [done, ok_bind]
        exact ⟨_, applyDistinct_fits (applyProject_conforms done)⟩
    · rw [projectNode, execute, ran, ok_bind]

theorem listBatch_rows {b a : RecordBatch} (listed : ListBatch es groupExprs b a)
    (columns : b.schema = naturalColumns tables) :
    a.schema = readColumns tables es groupExprs ∧
      ((∃ row, row ∈ a.records) ↔ ∃ r, r ∈ b.records) := by
  unfold ListBatch at listed
  unfold readColumns
  split at listed
  · rename_i aggregated
    rw [if_pos aggregated, (aggregateBatch_conforms listed).1]
    have stand := groups_stand listed
    refine ⟨rfl, fun ⟨row, mem⟩ => ?_, fun ⟨r, mem⟩ => ?_⟩
    · obtain ⟨g, grouped, _⟩ := forall₂_mem stand row mem
      obtain ⟨r, inside, _⟩ := group_first (keyed_of_aggregate listed) grouped
      exact ⟨r, inside⟩
    · obtain ⟨g, grouped, _⟩ := group_of_row groupExprs mem
      obtain ⟨row, inside, _⟩ := forall₂_mem stand.flip g grouped
      exact ⟨row, inside⟩
  · rename_i scalar
    obtain rfl := listed
    rw [if_neg scalar, columns]
    exact ⟨rfl, Iff.rfl⟩

theorem filtered_conforms (list : FromList ctx catalog select.from' tables)
    {scanned filtered : LogicalPlan} {b : RecordBatch}
    (from' : fromPlan catalog select.from' = .ok scanned)
    (where' : planWhere select.selection scanned = .ok filtered)
    (ran : execute ctx filtered = .ok b) : Conforms b filtered.outputSchema := by
  obtain ⟨valid, columns, _⟩ := projects_rows list ⟨scanned, filtered, from', where', ran⟩
  obtain ⟨scanned', from'', shown, _⟩ := fromPlan_runs list
  obtain rfl := Except.ok.inj (from'.symm.trans from'')
  have same := filtered_schema (planWhere_filtered where')
  exact ⟨columns.trans (shown.symm.trans same.symm), valid⟩

omit [Regex] in
theorem planSelect_read {scanned filtered : LogicalPlan}
    (from' : fromPlan catalog select.from' = .ok scanned)
    (where' : planWhere select.selection scanned = .ok filtered)
    (listed : buildSelectItems select.projection = .ok es)
    (grouped : buildExprs (groupByExprs select.groupBy) = .ok groupExprs) :
    planSelect select catalog = planSelectShape select es groupExprs filtered := by
  rw [planSelect_from, from', ok_bind, where', ok_bind, buildSelectExpressions, listed, ok_bind,
    grouped, ok_bind]

theorem executes_below {input : LogicalPlan} {out : RecordBatch}
    (ran : execute ctx (listPlan select es groupExprs input) = .ok out) :
    ∃ b, execute ctx input = .ok b := by
  unfold listPlan projectNode at ran
  split at ran
  · rw [execute, execute] at ran
    obtain ⟨_, ran, _⟩ := bind_eq_ok.mp ran
    obtain ⟨b, ran, _⟩ := bind_eq_ok.mp ran
    exact ⟨b, ran⟩
  · split at ran
    · rw [execute, execute] at ran
      obtain ⟨_, ran, _⟩ := bind_eq_ok.mp ran
      obtain ⟨b, ran, _⟩ := bind_eq_ok.mp ran
      exact ⟨b, ran⟩
    · rw [execute] at ran
      obtain ⟨b, ran, _⟩ := bind_eq_ok.mp ran
      exact ⟨b, ran⟩

/-- A query without HAVING is rejected exactly if whatever its SELECT list is projected from has a
    row for which some item has no value. -/
theorem rejected_iff (list : FromList ctx catalog select.from' tables)
    (listed : buildSelectItems select.projection = .ok es)
    (grouped : buildExprs (groupByExprs select.groupBy) = .ok groupExprs)
    (unfiltered : Aggregated es groupExprs → select.having = none) :
    Rejected ctx catalog select ↔ ∀ b a, Projects ctx catalog select b →
      ListBatch es groupExprs b a →
      ¬ ∀ r ∈ a.records, ∃ values, projectAll r a es = .ok values := by
  constructor
  · intro rejected b a projects listBatch each
    obtain ⟨scanned, filtered, from', where', ran⟩ := projects
    have conforms := filtered_conforms list from' where' ran
    have runs : ∃ out, execute ctx (listPlan select es groupExprs filtered) = .ok out :=
      (listBatch_runs ran conforms).mpr ⟨a, listBatch, each⟩
    obtain ⟨out, executed⟩ := runs
    refine rejected _ out ?_ executed
    rw [planSelect_read from' where' listed grouped]
    exact planSelectShape_list unfiltered filtered
  · intro stuck plan out planned executed
    have built := planned
    rw [planSelect_from] at built
    obtain ⟨scanned, from', built⟩ := bind_eq_ok.mp built
    obtain ⟨filtered, where', built⟩ := bind_eq_ok.mp built
    have shape := (planSelect_read from' where' listed grouped).trans
      (planSelectShape_list unfiltered filtered)
    obtain rfl := Except.ok.inj (planned.symm.trans shape)
    obtain ⟨b, ran⟩ := executes_below executed
    have conforms := filtered_conforms list from' where' ran
    obtain ⟨a, listBatch, each⟩ := (listBatch_runs ran conforms).mp ⟨out, executed⟩
    exact stuck b a ⟨scanned, filtered, from', where', ran⟩ listBatch each

omit [Regex] in
theorem planned_having (listed : buildSelectItems select.projection = .ok es)
    (grouped : buildExprs (groupByExprs select.groupBy) = .ok groupExprs)
    {plan : LogicalPlan} :
    planSelect select catalog = .ok plan ↔ ∃ below,
      planSelect { select with having := none } catalog = .ok below ∧
        if Aggregated es groupExprs then planHaving select.having es below = .ok plan
        else below = plan := by
  have whole : planSelect select catalog =
      (planSelect { select with having := none } catalog >>= fun below =>
        if Aggregated es groupExprs then planHaving select.having es below else .ok below) := by
    have list : listPlan { select with having := none } es groupExprs =
        listPlan select es groupExprs := rfl
    simp only [planSelect_from, buildSelectExpressions, listed, grouped, ok_bind, bind_assoc,
      planSelectShape_having, list]
    congr 1
    funext scanned
    congr 1
    funext filtered
    split
    · rfl
    · rfl
  rw [whole, bind_eq_ok]
  refine exists_congr fun below => and_congr_right fun _ => ?_
  split
  · exact Iff.rfl
  · exact ⟨Except.ok.inj, congrArg Except.ok⟩

theorem listPlan_conforms {catalog : Catalog} (listed : buildSelectItems select.projection = .ok es)
    (grouped : buildExprs (groupByExprs select.groupBy) = .ok groupExprs)
    (aggregated : Aggregated es groupExprs) {below : LogicalPlan}
    (planned : planSelect { select with having := none } catalog = .ok below) {out : RecordBatch}
    (ran : execute ctx below = .ok out) : Conforms out below.outputSchema := by
  rw [planSelect_from] at planned
  obtain ⟨scanned, from', planned⟩ := bind_eq_ok.mp planned
  obtain ⟨filtered, where', planned⟩ := bind_eq_ok.mp planned
  rw [buildSelectExpressions, listed, ok_bind, grouped, ok_bind, planSelectShape_list fun _ => rfl]
    at planned
  obtain rfl := Except.ok.inj planned
  rw [listPlan, if_pos aggregated] at ran ⊢
  obtain ⟨a, _, projected⟩ := bind_eq_ok.mp ran
  exact applyProject_conforms projected

omit [Regex] in
theorem planned_filtered (listed : buildSelectItems select.projection = .ok es)
    (grouped : buildExprs (groupByExprs select.groupBy) = .ok groupExprs)
    (aggregated : Aggregated es groupExprs) {c : SqlExpr} (clause : select.having = some c)
    {plan : LogicalPlan} :
    planSelect select catalog = .ok plan ↔ ∃ below,
      planSelect { select with having := none } catalog = .ok below ∧
        ∃ h, buildExpr c = .ok h ∧ plan = havingNode es h below := by
  rw [planned_having listed grouped, clause]
  refine exists_congr fun below => and_congr_right fun _ => ?_
  rw [if_pos aggregated, RSparkClauseLaw.planHaving_eq, Option.elim_some, bind_eq_ok]
  exact exists_congr fun h => and_congr_right fun _ => ⟨fun same =>
    (Except.ok.inj same).symm, fun same => congrArg Except.ok same.symm⟩

/-- HAVING runs over a result exactly if it has a truth value on each of its rows. -/
theorem having_run_iff (listed : buildSelectItems select.projection = .ok es)
    (grouped : buildExprs (groupByExprs select.groupBy) = .ok groupExprs)
    (aggregated : Aggregated es groupExprs) {below : LogicalPlan} {out : RecordBatch}
    (planned : planSelect { select with having := none } catalog = .ok below)
    (ran : execute ctx below = .ok out) (h : Expr) :
    (∃ kept, execute ctx (havingNode es h below) = .ok kept) ↔
      ∀ row ∈ out.records, (evalPredicate (rewriteHaving es h) row out).isOk = true := by
  have conforms := listPlan_conforms listed grouped aggregated planned ran
  have each := (having_runs (q := ⟨below, es, groupExprs, some h, [], none⟩) conforms ran).1
  rw [← isOk_iff]
  refine each.trans ⟨fun all => all h rfl, fun all h' same => ?_⟩
  obtain rfl := Option.some.inj same
  exact all

theorem rejected_having_iff (listed : buildSelectItems select.projection = .ok es)
    (grouped : buildExprs (groupByExprs select.groupBy) = .ok groupExprs) :
    Rejected ctx catalog select ↔ Rejected ctx catalog { select with having := none } ∨
      HavingFails ctx catalog select es groupExprs := by
  by_cases aggregated : Aggregated es groupExprs
  · cases clause : select.having with
    | none =>
      have same : { select with having := none } = select := by rw [← clause]
      have never : ¬ HavingFails ctx catalog select es groupExprs := by
        rintro ⟨_, clause', mem, _⟩
        rw [clause] at mem
        cases mem
      rw [same, or_iff_left never]
    | some c =>
      have planned {plan : LogicalPlan} : planSelect select catalog = .ok plan ↔ ∃ below,
          planSelect { select with having := none } catalog = .ok below ∧
            ∃ h, buildExpr c = .ok h ∧ plan = havingNode es h below :=
        planned_filtered listed grouped aggregated clause
      constructor
      · intro rejected
        by_cases unfiltered : Rejected ctx catalog { select with having := none }
        · exact Or.inl unfiltered
        · simp only [Rejected, not_forall, not_not] at unfiltered
          obtain ⟨below, out, from', ran⟩ := unfiltered
          refine Or.inr ⟨aggregated, c, clause, fun h built => ⟨below, out, from', ran, ?_⟩⟩
          by_contra all
          simp only [not_exists, not_and, Bool.not_eq_false] at all
          obtain ⟨kept, done⟩ := (having_run_iff listed grouped aggregated from' ran h).mpr all
          exact rejected _ kept (planned.mpr ⟨below, from', h, built, rfl⟩) done
      · rintro (unfiltered | ⟨_, c', same, fails⟩) plan kept planned' done
        · obtain ⟨below, from', h, _, rfl⟩ := planned.mp planned'
          obtain ⟨out, ran, _⟩ := bind_eq_ok.mp done
          exact unfiltered below out from' ran
        · obtain rfl := Option.some.inj (clause.symm.trans same)
          obtain ⟨below, from', h, built, rfl⟩ := planned.mp planned'
          obtain ⟨below', out, from'', ran, row, mem, stuck⟩ := fails h built
          obtain rfl := Except.ok.inj (from'.symm.trans from'')
          have truth :=
            (having_run_iff listed grouped aggregated from' ran h).mp ⟨kept, done⟩ row mem
          rw [stuck] at truth
          cases truth
  · have same {plan : LogicalPlan} : planSelect select catalog = .ok plan ↔
        planSelect { select with having := none } catalog = .ok plan := by
      rw [planned_having listed grouped]
      simp only [if_neg aggregated, exists_eq_right]
    have never : ¬ HavingFails ctx catalog select es groupExprs := fun fails => aggregated fails.1
    rw [or_iff_left never]
    simp only [Rejected, same]

theorem columnItem_built (qualifier : List Ident) (column : Ident) (alias' : Option Ident) :
    ∃ e, buildSelectItem (columnItem (qualifier ++ [column]) alias') = .ok e ∧
      e.containsAggregate = false ∧
      ∀ r b, (∃ values, projectValues r b e = .ok values) ↔
        column.value ∈ b.schema.fieldNames := by
  have value (r : Record) (b : RecordBatch) :
      (∃ values, (do .ok [← (Expr.column column.value).eval r b] : Result (List Value)) =
        .ok values) ↔ column.value ∈ b.schema.fieldNames := by
    constructor
    · intro found
      obtain ⟨values, found⟩ := found
      obtain ⟨v, evaluated, _⟩ := bind_eq_ok.mp found
      obtain ⟨i, here, _⟩ := Option.map_eq_some_iff.mp (eval_column.mp evaluated)
      exact mem_of_indexOf here
    · intro known
      obtain ⟨i, here⟩ := indexOf_of_mem known
      have evaluated : (Expr.column column.value).eval r b = .ok (r.getOrNull i) := by
        rw [eval_column, here]
        rfl
      exact ⟨[r.getOrNull i], by rw [evaluated]; rfl⟩
  cases alias' with
  | none => exact ⟨.column column.value, buildExpr_reference qualifier column, rfl, value⟩
  | some name =>
    refine ⟨.aliased (.column column.value) name.value, ?_, rfl, value⟩
    rw [columnItem, buildSelectItem, buildExpr_reference]
    rfl

/-- A qualified column makes a query rejected that was not so without it exactly if its name is no
    column that the SELECT list is read over and some row reaches the SELECT list. -/
theorem rejected_around_iff (list : FromList ctx catalog select.from' tables)
    {qualifier : List Ident} {column : Ident} {alias' : Option Ident}
    {before after : List SelectItem} {pre post : List Expr} {e : Expr}
    (items : select.projection = before ++ columnItem (qualifier ++ [column]) alias' :: after)
    (first : buildSelectItems before = .ok pre) (second : buildSelectItems after = .ok post)
    (grouped : buildExprs (groupByExprs select.groupBy) = .ok groupExprs)
    (built : buildSelectItem (columnItem (qualifier ++ [column]) alias') = .ok e) :
    Rejected ctx catalog { select with having := none } ↔
      Rejected ctx catalog (Select.without select before after) ∨
      column.value ∉ (readColumns tables (pre ++ e :: post) groupExprs).fieldNames ∧
        ∃ record ∈ (naturalBatch tables).records,
          Passes select.selection record (naturalBatch tables) := by
  obtain ⟨e', built', scalar, value⟩ := columnItem_built qualifier column alias'
  obtain rfl := Except.ok.inj (built.symm.trans built')
  have fed : fedItems (pre ++ e :: post) = fedItems (pre ++ post) := by
    simp [fedItems, scalar]
  have same (b a : RecordBatch) : ListBatch (pre ++ e :: post) groupExprs b a ↔
      ListBatch (pre ++ post) groupExprs b a := listBatch_congr fed
  have around : buildSelectItems select.projection = .ok (pre ++ e :: post) := by
    rw [items]
    exact (buildSelectItems_around built).mpr ⟨pre, post, first, second, rfl⟩
  have rest : buildSelectItems (before ++ after) = .ok (pre ++ post) :=
    buildSelectItems_append.mpr ⟨pre, post, first, second, rfl⟩
  have whole (r : Record) (a : RecordBatch) :
      (∃ values, projectAll r a (pre ++ e :: post) = .ok values) ↔
        (∃ values, projectAll r a (pre ++ post) = .ok values) ∧
          column.value ∈ a.schema.fieldNames := by
    rw [projectAll_around, value]
  have list₀ : FromList ctx catalog ({ select with having := none } : Select).from' tables := list
  have list₁ : FromList ctx catalog (Select.without select before after).from' tables := list
  rw [rejected_iff list₀ around grouped fun _ => rfl, rejected_iff list₁ rest grouped fun _ => rfl]
  constructor
  · intro stuck
    by_cases others : ∀ b a, Projects ctx catalog select b →
        ListBatch (pre ++ post) groupExprs b a →
        ¬ ∀ r ∈ a.records, ∃ values, projectAll r a (pre ++ post) = .ok values
    · exact Or.inl others
    · apply Or.inr
      push Not at others
      obtain ⟨b, a, projects, listBatch, each⟩ := others
      obtain ⟨_, columns, rows⟩ := projects_rows list projects
      obtain ⟨names, some'⟩ := listBatch_rows ((same b a).mpr listBatch) columns
      obtain ⟨r, inside, none'⟩ : ∃ r ∈ a.records,
          ¬ ∃ values, projectAll r a (pre ++ e :: post) = .ok values := by
        by_contra all
        push Not at all
        exact stuck b a projects ((same b a).mpr listBatch) all
      obtain ⟨r', mem⟩ := some'.mp ⟨r, inside⟩
      refine ⟨fun known => none' ?_, r', (rows r').mp mem⟩
      rw [whole, names]
      exact ⟨each r inside, known⟩
  · rintro (others | ⟨nowhere, r, passing⟩) b a projects listBatch each
    · exact others b a projects ((same b a).mp listBatch) fun r inside =>
        ((whole r a).mp (each r inside)).1
    · obtain ⟨_, columns, rows⟩ := projects_rows list projects
      obtain ⟨names, some'⟩ := listBatch_rows listBatch columns
      obtain ⟨row, inside⟩ := some'.mpr ⟨r, (rows r).mpr passing⟩
      exact nowhere (names ▸ ((whole row a).mp (each row inside)).2)

end Rejection

section Groups
variable [Regex] {ctx : ExecutionContext} {catalog : Catalog} {tables : List FromTable}
  {select : Select} {es groupExprs : List Expr}

omit [Regex] in
theorem groupColumns_names (es groupExprs : List Expr) :
    (groupColumns es groupExprs).fieldNames = (groupExprs ++ fedItems es).map Expr.displayName := by
  rw [groupColumns, rowNames_eq, List.map_append]
  rfl

omit [Regex] in
theorem read_alone {column : Ident} (alone : ReadAlone es groupExprs column)
    (known : column.value ∈ (readColumns tables es groupExprs).fieldNames) :
    ReadAsColumn es groupExprs column := by
  intro aggregated
  rw [readColumns, if_pos aggregated, groupColumns_names] at known
  obtain ⟨e, listed, named⟩ := List.mem_map.mp known
  cases first : (groupExprs ++ fedItems es).find? (·.displayName = column.value) with
  | none => exact absurd (decide_eq_true named) (List.find?_eq_none.mp first e listed)
  | some e =>
    rw [alone aggregated e (List.mem_of_find?_eq_some first)
      (by simpa using List.find?_some first)]

omit [Regex] in
theorem key_of_read {name : String}
    (read : (groupExprs ++ fedItems es).find? (·.displayName = name) = some (.column name)) :
    groupExprs.find? (·.displayName = name) = some (.column name) := by
  rw [List.find?_append, Option.or_eq_some_iff] at read
  rcases read with key | ⟨_, item⟩
  · exact key
  · exact absurd (List.mem_filter.mp (List.mem_of_find?_eq_some item)).2 Bool.false_ne_true

omit [Regex] in
theorem choice_of_row (list : FromList ctx catalog select.from' tables) {r : Record}
    (mem : r ∈ (naturalBatch tables).records) :
    ∃ chosen, (r, chosen) ∈ (naturalBatch tables).records.zip (naturalRows tables) ∧
      Reads (naturalColumns tables) r chosen :=
  forall₂_paired (naturalBatch_rows (stored_valid list)) r mem

theorem shows_group (list : FromList ctx catalog select.from' tables) {b a : RecordBatch}
    (projects : Projects ctx catalog select b)
    (ran : aggregateBatch groupExprs (fedItems es) b (groupColumns es groupExprs) = .ok a)
    (qualifier : List Ident) {column : Ident}
    (read : (groupExprs ++ fedItems es).find? (·.displayName = column.value) =
      some (.column column.value)) :
    List.Forall₂ (ShowsGroup tables a (.column column.value) qualifier column)
      (groupsBy groupExprs b) a.records := by
  have named : a.schema.fieldNames = RSparkScalarItems.rowNames groupExprs es := by
    rw [(aggregateBatch_conforms ran).1, groupColumns, rowNames_eq]
  refine (forall₂_inside (groups_stand ran)).imp fun g row inside v shows' => ?_
  obtain ⟨grouped, _, stands⟩ := inside
  obtain ⟨r, mem, of⟩ := group_first (keyed_of_aggregate ran) grouped
  have reads : readsKeys groupExprs b r (.column column.value) = true :=
    decide_eq_true (key_of_read read)
  rw [eval_byName stands named, byName_eval of reads] at shows'
  obtain ⟨_, columns, rows⟩ := projects_rows list projects
  obtain ⟨chosen, paired, found⟩ := choice_of_row list ((rows r).mp mem).1
  refine ⟨r, List.mem_of_mem_head? of.first, chosen, paired, fun p listed named' w here => ?_⟩
  obtain ⟨v', evaluated, same⟩ :=
    evaluates_column (columns ▸ found) qualifier column p listed named' w here
  obtain rfl := Except.ok.inj (shows'.symm.trans evaluated)
  exact same

theorem shows_none {b a : RecordBatch} (empty : ∀ r, r ∉ b.records)
    (ran : aggregateBatch groupExprs (fedItems es) b (groupColumns es groupExprs) = .ok a)
    {R : Group → Record → Prop} : List.Forall₂ R (groupsBy groupExprs b) a.records := by
  have stand := groups_stand ran
  have none' : groupsBy groupExprs b = [] := by
    refine List.eq_nil_iff_forall_not_mem.mpr fun g grouped => ?_
    obtain ⟨r, mem, _⟩ := group_first (keyed_of_aggregate ran) grouped
    exact empty r mem
  rw [none'] at stand ⊢
  rw [List.forall₂_nil_left_iff.mp stand]
  exact .nil

end Groups

section Results
variable [Regex] {ctx : ExecutionContext} {catalog : Catalog} {tables : List FromTable}
  {select : Select} {es groupExprs : List Expr} {b a out : RecordBatch}

theorem listBatch_valid (listBatch : ListBatch es groupExprs b a) (valid : b.Valid) : a.Valid := by
  unfold ListBatch at listBatch
  split at listBatch
  · exact (aggregateBatch_conforms listBatch).2
  · exact listBatch ▸ valid

theorem listPlan_result {input : LogicalPlan} (ran : execute ctx input = .ok b)
    (conforms : Conforms b input.outputSchema) (listBatch : ListBatch es groupExprs b a)
    (whole : execute ctx (listPlan select es groupExprs input) = .ok out) : ResultOf es a out := by
  unfold listPlan projectNode at whole
  unfold ListBatch at listBatch
  split at whole
  · rename_i aggregated
    rw [if_pos aggregated] at listBatch
    rw [execute, execute, ran, ok_bind, listBatch, ok_bind] at whole
    have columns : a.schema = groupColumns es groupExprs := (aggregateBatch_conforms listBatch).1
    rw [LogicalPlan.outputSchema, ← columns] at whole
    exact resultOf_project whole
  · rename_i scalar
    rw [if_neg scalar] at listBatch
    obtain rfl := listBatch
    rw [← conforms.1] at whole
    split at whole
    · rw [execute, execute, ran, ok_bind] at whole
      obtain ⟨rows, projected, distinct⟩ := bind_eq_ok.mp whole
      obtain ⟨rfl, _⟩ := fromRecords_eq_ok.mp distinct
      have result := resultOf_project projected
      exact result.fewer (applyProject_conforms projected).1.symm fun row mem =>
        mem_distinctRecords row mem
    · rw [execute, ran, ok_bind] at whole
      exact resultOf_project whole

/-- HAVING takes rows of the SELECT list away and leaves the others as they are. -/
theorem asked_result (list : FromList ctx catalog select.from' tables)
    (listed : buildSelectItems select.projection = .ok es)
    (grouped : buildExprs (groupByExprs select.groupBy) = .ok groupExprs)
    (asked : AskedOver ctx catalog select out) (projects : Projects ctx catalog select b)
    (listBatch : ListBatch es groupExprs b a) : ResultOf es a out := by
  obtain ⟨scanned, filtered, from', where', ran⟩ := projects
  have conforms := filtered_conforms list from' where' ran
  have shape : planSelect { select with having := none } catalog =
      .ok (listPlan select es groupExprs filtered) := by
    have read : planSelect { select with having := none } catalog =
      planSelectShape { select with having := none } es groupExprs filtered :=
        planSelect_read from' where' listed grouped
    rw [read]
    exact planSelectShape_list (fun _ => rfl) filtered
  have unfiltered {below : LogicalPlan} {all : RecordBatch}
      (planned : planSelect { select with having := none } catalog = .ok below)
      (done : execute ctx below = .ok all) : ResultOf es a all := by
    obtain rfl := Except.ok.inj (shape.symm.trans planned)
    exact listPlan_result ran conforms listBatch done
  rcases asked with ⟨plan, planned, done⟩ | ⟨below, planned, done⟩
  · obtain ⟨below, planned', having⟩ := (planned_having listed grouped).mp planned
    by_cases aggregated : Aggregated es groupExprs
    · cases clause : select.having with
      | none =>
        rw [if_pos aggregated, clause] at having
        obtain rfl := Except.ok.inj having
        exact unfiltered planned' done
      | some c =>
        obtain ⟨below', planned'', h, _, rfl⟩ :=
          (planned_filtered listed grouped aggregated clause).mp planned
        rw [havingNode, execute] at done
        obtain ⟨all, before, done⟩ := bind_eq_ok.mp done
        obtain ⟨kept, filtering, built⟩ := bind_eq_ok.mp done
        obtain ⟨rfl, _⟩ := fromRecords_eq_ok.mp built
        have labelled := (listPlan_conforms listed grouped aggregated planned'' before).1
        exact (unfiltered planned'' before).fewer labelled.symm fun row mem =>
          mem_filterRecords filtering row mem
    · rw [if_neg aggregated] at having
      obtain rfl := having
      exact unfiltered planned' done
  · exact unfiltered planned done

/-- What a reference shows in a row that the SELECT list is read over is the value of its table. -/
theorem shows_source (list : FromList ctx catalog select.from' tables)
    (projects : Projects ctx catalog select b) (listBatch : ListBatch es groupExprs b a)
    (qualifier : List Ident) {column : Ident} (read : ReadAsColumn es groupExprs column)
    {x row : Record} (mem : x ∈ a.records) (projected : projectAll x a es = .ok row.values)
    {v : Value} (evaluated : (Expr.column column.value).eval x a = .ok v) :
    ∃ r, ComesFrom es groupExprs b a r row ∧
      ∃ chosen, (r, chosen) ∈ (naturalBatch tables).records.zip (naturalRows tables) ∧
        ∀ p ∈ chosen, p.1.scope.answersTo qualifier = true →
          ∀ w, held p.1 p.2 column.value = some w → SameValue v w := by
  unfold ListBatch at listBatch
  unfold ComesFrom
  by_cases aggregated : Aggregated es groupExprs
  · rw [if_pos aggregated] at listBatch
    have groups := shows_group list projects listBatch qualifier (read aggregated)
    obtain ⟨g, paired, shows'⟩ := forall₂_paired groups.flip x mem
    obtain ⟨r, inside, chosen, placed, same⟩ := shows' v evaluated
    refine ⟨r, ?_, chosen, placed, same⟩
    rw [if_pos aggregated]
    exact ⟨x, g, paired, inside, projected⟩
  · rw [if_neg aggregated] at listBatch
    obtain rfl := listBatch
    obtain ⟨_, columns, rows⟩ := projects_rows list projects
    obtain ⟨chosen, placed, reads⟩ := choice_of_row list ((rows x).mp mem).1
    refine ⟨x, ?_, chosen, placed, fun p here named w own => ?_⟩
    · rw [if_neg aggregated]
      exact ⟨mem, projected⟩
    · obtain ⟨v', evaluated', same⟩ :=
        evaluates_column (columns ▸ reads) qualifier column p here named w own
      obtain rfl := Except.ok.inj (evaluated.symm.trans evaluated')
      exact same

/-- HAVING and ORDER BY read a column under the names of the result, whatever item HAVING takes for
    it. -/
theorem result_reads_iff (list : FromList ctx catalog select.from' tables)
    (projects : Projects ctx catalog select b) (listBatch : ListBatch es groupExprs b a)
    (result : ResultOf es a out) {column : Ident} {e : Expr}
    (plain : stripAlias e = .column column.value) (row : Record) :
    (∃ v, e.eval row out = .ok v) ↔
      column.value ∈ es.flatMap (printed (readColumns tables es groupExprs)) := by
  obtain ⟨_, columns, _⟩ := projects_rows list projects
  rw [← eval_stripAlias, plain, column_reads_iff, result.names,
    (listBatch_rows listBatch columns).1]

theorem result_eval (list : FromList ctx catalog select.from' tables)
    (projects : Projects ctx catalog select b) (listBatch : ListBatch es groupExprs b a)
    (result : ResultOf es a out) {column : Ident} {e : Expr}
    (plain : stripAlias e = .column column.value) {item : Expr}
    (first : es.find? (column.value ∈ printed (readColumns tables es groupExprs) ·) = some item)
    (shown : Plain column.value item) {row : Record} (mem : row ∈ out.records) :
    ∃ x ∈ a.records, projectAll x a es = .ok row.values ∧
      e.eval row out = (Expr.column column.value).eval x a := by
  obtain ⟨valid, columns, _⟩ := projects_rows list projects
  obtain ⟨read, _⟩ := listBatch_rows listBatch columns
  obtain ⟨x, inside, projected⟩ := result.rows row mem
  refine ⟨x, inside, projected, ?_⟩
  rw [← eval_stripAlias, plain]
  exact column_over_result (listBatch_valid listBatch valid x inside) projected result
    (read ▸ first) shown

theorem resultRight_of_sound (list : FromList ctx catalog select.from' tables)
    (projects : Projects ctx catalog select b) (listBatch : ListBatch es groupExprs b a)
    (result : ResultOf es a out) (qualifier : List Ident) {column : Ident} {e : Expr}
    (plain : stripAlias e = .column column.value)
    (sound : ResultSound tables es groupExprs out qualifier column) :
    ResultRight tables es groupExprs b a out e qualifier column := by
  have reads := result_reads_iff list projects listBatch result plain
  rcases sound with ⟨offered, read⟩ | ⟨missing, some'⟩
  · refine ⟨fun row mem v evaluated => ?_, fun stray => absurd offered stray⟩
    rcases read with empty | ⟨asColumn, shown⟩
    · rw [empty] at mem
      exact nomatch mem
    · obtain ⟨item, first⟩ := first_printed ((reads row).mp ⟨v, evaluated⟩)
      obtain ⟨x, inside, projected, same⟩ :=
        result_eval list projects listBatch result plain first (shown item first) mem
      exact shows_source list projects listBatch qualifier asColumn inside projected
        (same ▸ evaluated)
  · have fails (row : Record) (v : Value) : e.eval row out ≠ .ok v :=
      fun evaluated => missing ((reads row).mp ⟨v, evaluated⟩)
    obtain ⟨row, mem⟩ := List.exists_mem_of_ne_nil _ some'
    exact ⟨fun row _ v evaluated => absurd evaluated (fails row v), fun _ => ⟨row, mem, fails row⟩⟩

theorem resultSound_of_right (list : FromList ctx catalog select.from' tables)
    (projects : Projects ctx catalog select b) (listBatch : ListBatch es groupExprs b a)
    (result : ResultOf es a out) {qualifier : List Ident} {column : Ident} {e : Expr}
    (plain : stripAlias e = .column column.value)
    (alone : PrintedAlone tables es groupExprs column)
    (right : ResultRight tables es groupExprs b a out e qualifier column) :
    ResultSound tables es groupExprs out qualifier column := by
  have reads := result_reads_iff list projects listBatch result plain
  by_cases unread : column.value ∉ es.flatMap (printed (readColumns tables es groupExprs)) ∧
      out.records ≠ []
  · exact Or.inr unread
  · have known (row : Record) (mem : row ∈ out.records) :
        column.value ∈ es.flatMap (printed (readColumns tables es groupExprs)) := by
      by_contra missing
      exact unread ⟨missing, List.ne_nil_of_mem mem⟩
    have offered : Offered tables qualifier column := by
      by_contra stray
      obtain ⟨row, mem, fails⟩ := right.stray stray
      obtain ⟨v, evaluated⟩ := (reads row).mpr (known row mem)
      exact fails v evaluated
    refine Or.inl ⟨offered, or_iff_not_imp_left.mpr fun some' => ?_⟩
    obtain ⟨row, mem⟩ := List.exists_mem_of_ne_nil _ some'
    have shown (item : Expr)
        (first : es.find? (column.value ∈ printed (readColumns tables es groupExprs) ·) =
          some item) : Plain column.value item :=
      alone.2 item (List.mem_of_find?_eq_some first) (by simpa using List.find?_some first)
    refine ⟨?_, shown⟩
    -- the first item printed so is the column, so the list is read over one of that name
    obtain ⟨item, first⟩ := first_printed (known row mem)
    obtain ⟨x, _, _, same⟩ :=
      result_eval list projects listBatch result plain first (shown item first) mem
    obtain ⟨_, columns, _⟩ := projects_rows list projects
    have below := (reads row).mpr (known row mem)
    rw [same, column_reads_iff, (listBatch_rows listBatch columns).1] at below
    exact read_alone alone.1 below

end Results

section Law
variable [Regex] {ctx : ExecutionContext} {catalog : Catalog} {tables : List FromTable}
  {select : Select} {es groupExprs : List Expr}

omit [Regex] in
theorem keptValue_of_lookup {schema : Schema} {r : Record} {f : Field} {v : Value}
    (found : (schema.indexOf f.name).map r.getOrNull = some v) : keptValue schema r f = v := by
  obtain ⟨i, here, value⟩ := Option.map_eq_some_iff.mp found
  simp only [keptValue, here, value]

/-- In a row of FROM the wildcard has the values of the chosen row of the table. -/
def Copies (b : RecordBatch) (t : FromTable) (record : Record) (chosen : Choice) : Prop :=
  ∀ r, (t, r) ∈ chosen → ∃ values, projectValues record b .star = .ok values ∧
    List.Forall₂ SameValue values r.values

theorem wildcard_copies {from' : List TableWithJoins}
    (list : FromList ctx catalog from' tables) {t : FromTable}
    (same : (naturalColumns tables).fields = t.schema.fields)
    (distinct : t.schema.fieldNames.Nodup) {plan : LogicalPlan}
    (planned : fromPlan catalog from' = .ok plan) {b : RecordBatch}
    (ran : execute ctx plan = .ok b) :
    List.Forall₂ (Copies b t) b.records (naturalRows tables) := by
  obtain ⟨plan', planned', _, runs⟩ := fromPlan_runs list
  obtain rfl := Except.ok.inj (planned.symm.trans planned')
  obtain ⟨rfl, valid⟩ := runs b ran
  have rows := Listing.forall₂_inside (naturalBatch_rows (stored_valid list))
  apply rows.imp
  intro record chosen inside r placed
  obtain ⟨listed, made, reads⟩ := inside
  obtain ⟨names, stored⟩ := naturalRows_from made
  have known : t ∈ tables := names ▸ List.mem_map_of_mem placed
  have validR := stored_valid list t known r (stored (t, r) placed)
  have validRecord := valid record listed
  rw [naturalBatch_schema] at validRecord
  have distinct' : (naturalColumns tables).fieldNames.Nodup := by
    rw [Schema.fieldNames, same]
    exact distinct
  refine ⟨record.values, rfl, ?_⟩
  rw [values_eq_keptValue distinct' validRecord, values_eq_keptValue distinct validR, same,
    List.forall₂_map_left_iff, List.forall₂_map_right_iff, List.forall₂_same]
  intro f inside
  obtain ⟨i, here⟩ := indexOf_of_mem (List.mem_map_of_mem inside)
  have own : held t r f.name = some (r.getOrNull i) := by
    rw [held, here]
    rfl
  obtain ⟨v, first, alike⟩ := reads.consistent f.name (t, r) placed _ own
  rw [keptValue_of_lookup own, keptValue_of_lookup ((reads.lookup f.name).trans first)]
  exact alike

theorem columnRight_of_sound (list : FromList ctx catalog select.from' tables)
    {qualifier : List Ident} {column : Ident} {before after : List SelectItem}
    (rejected : Rejected ctx catalog select ↔
      (Rejected ctx catalog (Select.without select before after) ∨
        column.value ∉ (readColumns tables es groupExprs).fieldNames ∧ SomePasses tables select) ∨
      HavingFails ctx catalog select es groupExprs)
    (sound : ReferenceSound ctx catalog tables select before after es groupExprs qualifier column) :
    ColumnRight ctx catalog tables qualifier column select es groupExprs := by
  have evaluated (plan : LogicalPlan) (b : RecordBatch)
      (planned : fromPlan catalog select.from' = .ok plan) (ran : execute ctx plan = .ok b) :=
    reference_evaluated list qualifier column planned ran
  have of_rejected (whole : Rejected ctx catalog select) :
      ColumnRight ctx catalog tables qualifier column select es groupExprs :=
    ⟨evaluated, fun _ runs => absurd whole runs, fun _ => whole⟩
  rcases sound with ⟨offered, read⟩ | unread | others | having
  · refine ⟨evaluated, fun aggregated _ b a projects ran =>
      ⟨_, buildExpr_reference qualifier column, ?_⟩, fun stray => absurd offered stray⟩
    rcases read with read | nowhere
    · exact shows_group list projects ran qualifier (read aggregated)
    · obtain ⟨_, _, rows⟩ := projects_rows list projects
      exact shows_none (fun r mem => nowhere ⟨r, (rows r).mp mem⟩) ran
  · exact of_rejected (rejected.mpr (Or.inl (Or.inr unread)))
  · exact of_rejected (rejected.mpr (Or.inl (Or.inl others)))
  · exact of_rejected (rejected.mpr (Or.inr having))

theorem sound_of_columnRight {qualifier : List Ident} {column : Ident}
    {before after : List SelectItem}
    (rejected : Rejected ctx catalog select ↔
      (Rejected ctx catalog (Select.without select before after) ∨
        column.value ∉ (readColumns tables es groupExprs).fieldNames ∧ SomePasses tables select) ∨
      HavingFails ctx catalog select es groupExprs)
    (alone : ReadAlone es groupExprs column)
    (right : ColumnRight ctx catalog tables qualifier column select es groupExprs) :
    ReferenceSound ctx catalog tables select before after es groupExprs qualifier column := by
  by_cases whole : Rejected ctx catalog select
  · rcases rejected.mp whole with (others | unread) | having
    · exact Or.inr (Or.inr (Or.inl others))
    · exact Or.inr (Or.inl unread)
    · exact Or.inr (Or.inr (Or.inr having))
  · have offered : Offered tables qualifier column := by
      by_contra stray
      exact whole (right.strayRejected stray)
    refine Or.inl ⟨offered, or_iff_not_imp_right.mpr fun passes => ?_⟩
    -- a name that is not read at all would have the query rejected
    have known : column.value ∈ (readColumns tables es groupExprs).fieldNames := by
      by_contra unread
      exact whole (rejected.mpr (Or.inl (Or.inr ⟨unread, not_not.mp passes⟩)))
    exact read_alone alone known

end Law

section Witness

def shopContext : ExecutionContext :=
  contextOf ⟨"orders", "mem", orders⟩ ⟨"users", "mem", users⟩ orderRows [⟨[.int64 1, .int64 40]⟩]

def ordersTable : FromTable := ⟨⟨table "orders", none, orders⟩, orderRows⟩

def usersTable : FromTable :=
  ⟨⟨table "users", some (ident "u"), users⟩, [⟨[.int64 1, .int64 40]⟩]⟩

def fromOrders (items : List SelectItem) : Select :=
  ⟨none, items, [⟨.table (table "orders") none, []⟩], none, .expressions [], none⟩

def fromBoth (items : List SelectItem) : Select :=
  ⟨none, items,
    [⟨.table (table "orders") none, []⟩, ⟨.table (table "users") (some (ident "u")), []⟩],
    none, .expressions [], none⟩

theorem orders_stored :
    Stores shopContext shop ordersTable (.table (table "orders") none) := by
  refine ⟨rfl, "orders", "mem", rfl, scan_contextOf_left _ _ _ _, ?_⟩
  decide

theorem users_stored :
    Stores shopContext shop usersTable (.table (table "users") (some (ident "u"))) := by
  refine ⟨rfl, "users", "mem", rfl, scan_contextOf_right ?_, ?_⟩
  · intro same
    exact absurd same (by decide)
  · decide

def orderList : Select :=
  fromOrders [.qualifiedWildcard (table "orders"),
    columnItem ([ident "orders"] ++ [ident "user"]) none]

end Witness

end RSparkQualifiers
