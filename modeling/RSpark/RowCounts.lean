import RSpark.Planner
import RSpark.Executor

/- How many rows a statement returns that reads no table of its own. A SELECT without FROM and
   EXPLAIN are both projections, over the empty relation and over the plan explained: a
   projection has the rows of its input. -/
namespace RSparkRowCounts
open RSparkValue RSparkBatch RSparkExpr RSparkPlan RSparkSqlAst RSparkExprBuilder RSparkPlanner
open RSparkOperators RSparkExecutor

section Answers
variable [Regex]

/-- The plan is carried out and its result is that row and no other. -/
def Returns (ctx : ExecutionContext) (plan : LogicalPlan) (row : Record) : Prop :=
  ∃ b, execute ctx plan = .ok b ∧ b.records = [row]

def ReturnsNothing (ctx : ExecutionContext) (plan : LogicalPlan) : Prop :=
  ∃ b, execute ctx plan = .ok b ∧ b.records = []

def HoldsConstants (items : List SelectItem) (row : Record) : Prop :=
  ∃ es, buildSelectItems items = .ok es ∧
    List.Forall₂ (fun e v => ∀ record batch, Expr.eval record batch e = .ok v) es row.values

variable [SqlParser] [PlanDebug]

def Answers (ctx : ExecutionContext) (catalog : Catalog) (s : Statement) (row : Record) : Prop :=
  ∃ plan, planStatement catalog s = .ok plan ∧ Returns ctx plan row

end Answers

theorem fromRecords_nil (schema : Schema) :
    RecordBatch.fromRecords schema [] = .ok ⟨schema, []⟩ :=
  fromRecords_of_valid (List.forall_mem_nil _)

section Empty
variable [Regex] {ctx : ExecutionContext} {plan : LogicalPlan}

theorem not_returns (nothing : ReturnsNothing ctx plan) (row : Record) :
    ¬ Returns ctx plan row := by
  intro returned
  obtain ⟨b, ran, none⟩ := nothing
  obtain ⟨b', ran', one⟩ := returned
  rw [← Except.ok.inj (ran.symm.trans ran'), none] at one
  cases one

theorem empty_nothing : ReturnsNothing ctx .empty := ⟨_, rfl, rfl⟩

theorem filter_nothing (nothing : ReturnsNothing ctx plan) (predicate : Expr) (schema : Schema) :
    ReturnsNothing ctx (.filter plan predicate schema) := by
  obtain ⟨b, ran, none⟩ := nothing
  refine ⟨⟨schema, []⟩, ?_, rfl⟩
  rw [execute, ran, ok_bind, applyFilter, none]
  exact fromRecords_nil schema

theorem project_nothing (nothing : ReturnsNothing ctx plan) (expressions : List Expr)
    (schema : Schema) : ReturnsNothing ctx (.project plan expressions schema) := by
  obtain ⟨b, ran, none⟩ := nothing
  refine ⟨⟨schema, []⟩, ?_, rfl⟩
  rw [execute, ran, ok_bind, applyProject, none]
  split
  · exact fromRecords_nil schema
  · exact fromRecords_nil schema

theorem aggregate_nothing (nothing : ReturnsNothing ctx plan) (groups aggregates : List Expr)
    (schema : Schema) : ReturnsNothing ctx (.aggregate plan groups aggregates schema) := by
  obtain ⟨b, ran, none⟩ := nothing
  refine ⟨⟨schema, []⟩, ?_, rfl⟩
  rw [execute, ran, ok_bind, aggregateBatch, none]
  exact fromRecords_nil schema

theorem distinct_nothing (nothing : ReturnsNothing ctx plan) (schema : Schema) :
    ReturnsNothing ctx (.distinct plan schema) := by
  obtain ⟨b, ran, none⟩ := nothing
  refine ⟨⟨schema, []⟩, ?_, rfl⟩
  rw [execute, ran, ok_bind, applyDistinct, none]
  exact fromRecords_nil schema

theorem sort_nothing (nothing : ReturnsNothing ctx plan) (order : List SortExpr)
    (schema : Schema) : ReturnsNothing ctx (.sort plan order schema) := by
  obtain ⟨b, ran, none⟩ := nothing
  refine ⟨⟨schema, []⟩, ?_, rfl⟩
  have sorted : sortBatch b order = .ok ⟨b.schema, []⟩ := by
    rw [sortBatch, none]
    exact fromRecords_nil b.schema
  rw [execute, ran, ok_bind, applySort, sorted]
  exact fromRecords_nil schema

theorem limit_nothing (nothing : ReturnsNothing ctx plan) (count : Nat) (schema : Schema) :
    ReturnsNothing ctx (.limit plan count schema) := by
  obtain ⟨b, ran, none⟩ := nothing
  refine ⟨⟨schema, []⟩, ?_, rfl⟩
  have limited : limitBatch b count = .ok ⟨b.schema, []⟩ := by
    rw [limitBatch, none, List.take_nil]
    exact fromRecords_nil b.schema
  rw [execute, ran, ok_bind, applyLimit, limited]
  exact fromRecords_nil schema

end Empty

section Planning
variable [Regex] {ctx : ExecutionContext} {catalog : Catalog} {plan : LogicalPlan}

theorem filtered_nothing {below : LogicalPlan} (nothing : ReturnsNothing ctx below)
    (filtered : Filtered below plan) : ReturnsNothing ctx plan := by
  cases filtered with
  | same => exact nothing
  | filter predicate => exact filter_nothing nothing predicate _

theorem shaped_nothing {projections groups : List Expr} {below : LogicalPlan}
    (nothing : ReturnsNothing ctx below) (shaped : Shaped projections groups below plan) :
    ReturnsNothing ctx plan := by
  cases shaped with
  | grouped _ having =>
    apply filtered_nothing _ having
    apply project_nothing
    exact aggregate_nothing nothing groups _ _
  | distinct =>
    apply distinct_nothing
    exact project_nothing nothing projections _
  | plain => exact project_nothing nothing projections _

theorem planSelect_nothing {select : Select} (tableless : select.from' = [])
    (planned : planSelect select catalog = .ok plan) : ReturnsNothing ctx plan := by
  obtain ⟨tables, source, input, projections, groups, named, read, filtered, shaped⟩ :=
    planSelect_shaped planned
  rw [tableless] at named
  rw [← Except.ok.inj named] at read
  rw [← Except.ok.inj read] at filtered
  exact shaped_nothing (filtered_nothing empty_nothing filtered) shaped

theorem planSort_nothing {below : LogicalPlan} (nothing : ReturnsNothing ctx below)
    (keys : List SortExpr) : ReturnsNothing ctx (planSort keys below) := by
  unfold planSort
  split
  · exact nothing
  · exact sort_nothing nothing keys _

variable [SqlParser]

theorem planLimit_nothing {limit : Option SqlExpr} {below : LogicalPlan}
    (nothing : ReturnsNothing ctx below) (planned : planLimit limit below = .ok plan) :
    ReturnsNothing ctx plan := by
  cases limit with
  | none =>
    rw [← Except.ok.inj planned]
    exact nothing
  | some clause =>
    obtain ⟨count, _, built⟩ := bind_eq_ok.mp planned
    rw [← Except.ok.inj built]
    exact limit_nothing nothing count _

theorem planQuery_nothing {withClause : Bool} {select : Select}
    {orderBy : Option (List OrderByExpr)} {limit offset : Option SqlExpr}
    (tableless : select.from' = [])
    (planned : planQuery catalog (.mk withClause (.select select) orderBy limit offset) =
      .ok plan) : ReturnsNothing ctx plan := by
  unfold planQuery at planned
  split at planned
  · exact absurd planned (err_ne_ok _ _)
  · obtain ⟨selected, shown, planned⟩ := bind_eq_ok.mp planned
    obtain ⟨keys, _, planned⟩ := bind_eq_ok.mp planned
    rw [planSetExpr] at shown
    apply planLimit_nothing _ planned
    exact planSort_nothing (planSelect_nothing tableless shown) keys

end Planning

def explainSchema : Schema := ⟨[Field.new "plan" .string]⟩

theorem text_valid (text : String) : (⟨[.string text]⟩ : Record).Valid explainSchema := by
  constructor
  · rfl
  · intro p paired
    rw [List.mem_singleton.mp paired]
    exact fun _ => rfl

section Explaining
variable [Regex] {ctx : ExecutionContext}

theorem projectRecords_literal (text : String) (b : RecordBatch) (records : List Record) :
    projectRecords [.literal (.str text)] b explainSchema records =
      .ok (records.map fun _ => ⟨[.string text]⟩) := by
  induction records with
  | nil => rfl
  | cons record rest ih =>
    have projected : projectRecord [.literal (.str text)] record b explainSchema =
        .ok ⟨[.string text]⟩ := by
      rw [projectRecord]
      show ((⟨[.string text]⟩ : Record).validate explainSchema >>= fun _ => _) = _
      rw [(validate_eq_ok _ _).mpr (text_valid text)]
      rfl
    rw [projectRecords, projected, ok_bind, ih]
    rfl

theorem explained_rows (text : String) (inner : LogicalPlan) :
    execute ctx (.project inner [.literal (.str text)] explainSchema) =
      execute ctx inner >>= fun b =>
        .ok ⟨explainSchema, b.records.map fun _ => ⟨[.string text]⟩⟩ := by
  rw [execute]
  cases execute ctx inner with
  | error fault => rfl
  | ok b =>
    rw [ok_bind, ok_bind, applyProject]
    have literal : ¬ ([Expr.literal (.str text)].any isStar ∧
        [Expr.literal (.str text)].length = 1) := by
      intro stars
      cases stars.1
    rw [if_neg literal, projectRecords_literal, ok_bind]
    apply fromRecords_of_valid
    intro record listed
    obtain ⟨_, _, same⟩ := List.mem_map.mp listed
    rw [← same]
    exact text_valid text

theorem explained_once (text : String) (inner : LogicalPlan) :
    Returns ctx (.project inner [.literal (.str text)] explainSchema)
      ⟨[.string text]⟩ ↔ ∃ row, Returns ctx inner row := by
  unfold Returns
  rw [explained_rows]
  constructor
  · intro returned
    obtain ⟨b, ran, one⟩ := returned
    obtain ⟨below, ran', built⟩ := bind_eq_ok.mp ran
    rw [← Except.ok.inj built] at one
    obtain ⟨row, rest, _⟩ := List.map_eq_singleton_iff.mp one
    exact ⟨row, below, ran', rest⟩
  · intro returned
    obtain ⟨row, below, ran, one⟩ := returned
    refine ⟨_, bind_eq_ok.mpr ⟨below, ran, rfl⟩, ?_⟩
    show below.records.map _ = _
    rw [one]
    rfl

variable [SqlParser] [PlanDebug]

/-- A SELECT without FROM never returns one row, and EXPLAIN returns the text of the plan once
    exactly if the statement it explains returns one row. -/
theorem returned_once_iff (ctx : ExecutionContext) (catalog : Catalog) :
    (∀ (withClause : Bool) (select : Select) (orderBy : Option (List OrderByExpr))
        (limit offset : Option SqlExpr) (row : Record), select.from' = [] →
      ¬ Answers ctx catalog (.query (.mk withClause (.select select) orderBy limit offset)) row) ∧
    (∀ (s : Statement) (inner : LogicalPlan), planStatement catalog s = .ok inner →
      (Answers ctx catalog (.explain s) ⟨[.string (PlanDebug.format inner)]⟩ ↔
        ∃ row, Answers ctx catalog s row)) := by
  constructor
  · intro withClause select orderBy limit offset row tableless answered
    obtain ⟨plan, planned, returned⟩ := answered
    rw [planStatement] at planned
    exact not_returns (planQuery_nothing tableless planned) row returned
  · intro s inner planned
    have explained : planStatement catalog (.explain s) =
        .ok (.project inner [.literal (.str (PlanDebug.format inner))] explainSchema) := by
      rw [planStatement, planned]
      rfl
    unfold Answers
    rw [explained, planned]
    constructor
    · intro answered
      obtain ⟨plan, same, returned⟩ := answered
      rw [← Except.ok.inj same] at returned
      obtain ⟨row, once⟩ := (explained_once _ inner).mp returned
      exact ⟨row, inner, rfl, once⟩
    · intro answered
      obtain ⟨row, plan, same, returned⟩ := answered
      rw [← Except.ok.inj same] at returned
      exact ⟨_, rfl, (explained_once _ inner).mpr ⟨row, returned⟩⟩

end Explaining

def townSchema : Schema := ⟨[.new "town" .string]⟩

def townCatalog : Catalog where
  tableSchema _ := .ok townSchema
  tableLocation name := .ok (name, "csv")

def towns (rows : List Record) : ExecutionContext :=
  ⟨⟨fun _ => some ⟨fun _ _ => .ok ⟨townSchema, rows⟩⟩⟩⟩

def bare (items : List SelectItem) (tables : List TableWithJoins) : Statement :=
  .query (.mk false (.select ⟨none, items, tables, none, .expressions [], none⟩) none none none)

/-- `SELECT 'x'` -/
def constant : Statement := bare [.unnamedExpr (.value (.singleQuotedString "x"))] []

/-- `SELECT * FROM towns` -/
def everything : Statement := bare [.wildcard] [⟨.table ⟨[⟨"towns"⟩], "towns"⟩ none, []⟩]

def townSchemaText : String :=
  "Schema \x7b fields: [Field \x7b name: \"town\", data_type: String, nullable: true \x7d] \x7d"

/-- The Debug text of the plan of `SELECT * FROM towns`. -/
def townPlanText : String :=
  "Project \x7b input: Scan \x7b table_name: \"towns\", path: \"towns\", source: \"csv\", " ++
    "projection: None, filter: None, schema: " ++ townSchemaText ++
    " \x7d, expressions: [Star], schema: " ++ townSchemaText ++ " \x7d"

@[reducible] def townDebug : PlanDebug := ⟨fun _ => townPlanText⟩

/-- `SELECT 'x'` returns no row, and EXPLAIN of a query with one row returns one. -/
theorem constant_missing_town_explained :
    (¬ @Answers noRegex noParser townDebug (towns [⟨[.string "rome"]⟩]) townCatalog
      constant ⟨[.string "x"]⟩) ∧
    @Answers noRegex noParser townDebug (towns [⟨[.string "rome"]⟩]) townCatalog
      (.explain everything) ⟨[.string townPlanText]⟩ := by
  have once := @returned_once_iff noRegex noParser townDebug
    (towns [⟨[.string "rome"]⟩]) townCatalog
  constructor
  · exact once.1 false _ none none none _ rfl
  · exact (once.2 everything _ rfl).mpr ⟨⟨[.string "rome"]⟩, _, rfl, _, rfl, rfl⟩

/-- `SELECT 'x'` should return its constant, and EXPLAIN of a query over two towns one row. -/
theorem constants_not_returned :
    (¬ ∀ (ctx : ExecutionContext) (catalog : Catalog) (items : List SelectItem) (row : Record),
      @HoldsConstants noRegex items row →
        @Answers noRegex noParser townDebug ctx catalog (bare items []) row) ∧
    (¬ ∀ (ctx : ExecutionContext) (catalog : Catalog) (s : Statement) (inner : LogicalPlan),
      @planStatement noParser townDebug catalog s = .ok inner →
        @Answers noRegex noParser townDebug ctx catalog (.explain s)
          ⟨[.string townPlanText]⟩) := by
  constructor
  · intro claim
    have answered := claim (towns []) townCatalog
      [.unnamedExpr (.value (.singleQuotedString "x"))] ⟨[.string "x"]⟩
      ⟨_, rfl, .cons (fun _ _ => rfl) .nil⟩
    obtain ⟨plan, planned, b, ran, one⟩ := answered
    rw [← Except.ok.inj planned] at ran
    rw [← Except.ok.inj ran] at one
    cases one
  · intro claim
    have answered := claim (towns [⟨[.string "rome"]⟩, ⟨[.string "bern"]⟩]) townCatalog everything
      _ rfl
    obtain ⟨plan, planned, b, ran, one⟩ := answered
    rw [← Except.ok.inj planned] at ran
    rw [← Except.ok.inj ran] at one
    cases one

end RSparkRowCounts
