import Mathlib.Data.String.Basic
import RSpark.Api
import RSpark.FlowOutput
import RSpark.Listing
import RSpark.Moments
import RSpark.Snapshot
import RSpark.SourceNames

/- The catalog that all handlers share. Every access takes its lock by itself, so a handler that
   asks twice about a table may be told of two registrations of its name. -/
namespace RSparkLiveCatalog
open RSparkValue RSparkBatch RSparkExpr RSparkPlan RSparkSqlAst RSparkExprBuilder RSparkApi
open RSparkExecutor RSparkFlowOutput RSparkSnapshot RSparkSourceNames Calls

section Operations

inductive CatalogOp where
  | tableLocation (name : String)
  | tableSchema (name : String)
  | listTables (order : Walk String)
  | listTablesWithKind (order : Walk (String × TableKind))
  | registerWithKind (name : String) (entry : TableEntry)
  | unregister (name : String)

abbrev CatalogOp.Resp : CatalogOp → Type
  | .tableLocation _ => Result (String × String)
  | .tableSchema _ => Result Schema
  | .listTables _ => List String
  | .listTablesWithKind _ => List (String × TableKind)
  | .registerWithKind _ _ => Unit
  | .unregister _ => Unit

def CatalogOp.exec : (o : CatalogOp) → SessionState → SessionState × o.Resp
  | .tableLocation name, s => (s, s.tableLocation name)
  | .tableSchema name, s => (s, s.tableSchema name)
  | .listTables order, s => (s, order.walk s.tables.keys)
  | .listTablesWithKind order, s =>
      (s, order.walk (s.tables.entries.map fun entry => (entry.1, entry.2.kind)))
  | .registerWithKind name entry, s => (⟨s.tables.insert name entry⟩, ())
  -- removing a name that is not there is no error
  | .unregister name, s => (⟨s.tables.remove name⟩, ())

abbrev catalogInterface : Interface SessionState := ⟨CatalogOp, CatalogOp.Resp, CatalogOp.exec⟩

abbrev CatalogProg (α : Type) := Prog catalogInterface α

def andThen {α β : Type} (p : CatalogProg (Result α)) (f : α → CatalogProg (Result β)) :
    CatalogProg (Result β) :=
  p.bind fun
    | .ok a => f a
    | .error e => .ret (.error e)

def location (name : String) : CatalogProg (Result (String × String)) :=
  .call (.tableLocation name) fun found => .ret found

def schemaOf (name : String) : CatalogProg (Result Schema) :=
  .call (.tableSchema name) fun found => .ret found

end Operations

section Planning

def buildTableScan (name : String) (_alias : Option String) : CatalogProg (Result LogicalPlan) :=
  andThen (location name) fun (path, source) =>
    andThen (schemaOf name) fun schema => .ret (.ok (buildScanSchema name path source schema))

def joinTables : LogicalPlan → List (String × Option String) → CatalogProg (Result LogicalPlan)
  | plan, [] => .ret (.ok plan)
  | plan, (name, alias') :: rest =>
      andThen (buildTableScan name alias') fun right =>
        let pairs := RSparkPlanner.joinPairs plan.outputSchema right.outputSchema
        andThen (.ret (buildJoinSchema plan.outputSchema right.outputSchema pairs)) fun schema =>
          joinTables (.join plan right pairs .inner schema) rest

def buildFromClause (tables : List (String × Option String)) : CatalogProg (Result LogicalPlan) :=
  match tables with
  | [] => .ret (.ok .empty)
  | (firstName, firstAlias) :: rest =>
      andThen (buildTableScan firstName firstAlias) fun plan => joinTables plan rest

/-- The catalog is asked for the FROM clause only. -/
def planSelect (select : Select) : CatalogProg (Result LogicalPlan) :=
  andThen (.ret (buildFromTables select.from')) fun tables =>
    andThen (buildFromClause tables) fun plan => .ret (do
      let plan ← RSparkPlanner.planWhere select.selection plan
      let projections ← buildSelectExpressions select
      let groupExprs ← buildExprs (RSparkPlanner.groupByExprs select.groupBy)
      RSparkPlanner.planSelectShape select projections groupExprs plan)

variable [SqlParser]

mutual
def planQuery : Query → CatalogProg (Result LogicalPlan)
  | .mk withClause body orderBy limit _offset =>
      if withClause then .ret (err (.sql "CTE (WITH) not yet supported"))
      else
        andThen (planSetExpr body) fun plan => .ret (do
          let sortKeys ← RSparkPlanner.buildSortKeys (orderBy.getD [])
          RSparkPlanner.planLimit limit (RSparkPlanner.planSort sortKeys plan))

def planSetExpr : SetExpr → CatalogProg (Result LogicalPlan)
  | .select select => planSelect select
  | .query query => planQuery query
  | .setOperation .union _ left right =>
      andThen (planSetExpr left) fun l =>
        andThen (planSetExpr right) fun r => .ret (.ok (.union [l, r] l.outputSchema))
  | .setOperation (.other debug) _ _ _ =>
      .ret (err (.sql s!"unsupported set operation: {debug}"))
  | .other display => .ret (err (.sql s!"unsupported set expression: {display}"))
end

variable [RSparkPlanner.PlanDebug]

def planStatement : Statement → CatalogProg (Result LogicalPlan)
  | .query query => planQuery query
  | .explain statement =>
      andThen (planStatement statement) fun inner =>
        .ret (.ok (.project inner [.literal (.str (RSparkPlanner.PlanDebug.format inner))]
          ⟨[Field.new "plan" .string]⟩))
  | .showTables => .ret (.ok .empty)
  | .use => .ret (.ok .empty)
  | .showCreateTable name =>
      .ret (err (.sql s!"unsupported statement: SHOW CREATE TABLE {name.display}"))
  | .other display => .ret (err (.sql s!"unsupported statement: {display}"))

def planStatements : Option LogicalPlan → List Statement → CatalogProg (Result LogicalPlan)
  | lastPlan, [] => .ret (orError lastPlan (.sql "no statements to plan"))
  | _, statement :: rest =>
      andThen (planStatement statement) fun plan => planStatements (some plan) rest

def planSql (sql : String) : CatalogProg (Result LogicalPlan) :=
  andThen (.ret (RSparkPlanner.parseSql sql)) fun statements => planStatements none statements

end Planning

section Handlers

def renderCreateTable (tableName : String) : CatalogProg (Result String) :=
  andThen (schemaOf tableName) fun schema =>
    andThen (location tableName) fun (path, source) =>
      let location := String.ofList (doubled singleQuote path.toList)
      let columns := columnList schema.fields
      .ret (.ok
        s!"CREATE TABLE {quoteIdent tableName} {columns}\nUSING {source}\nLOCATION '{location}'")

structure TableSummary where
  name : String
  path : String
  source : String
  columns : List ColumnMeta

def columnsOf (schema : Schema) : List ColumnMeta :=
  schema.fields.map fun f => ⟨f.name, dataTypeDebug f.dataType⟩

def summaries : List String → CatalogProg (List TableSummary)
  | [] => .ret []
  | name :: rest =>
      .call (.tableSchema name) fun
        | .error _ => summaries rest
        | .ok schema => .call (.tableLocation name) fun
            | .error _ => summaries rest
            | .ok (path, source) =>
                (summaries rest).map (⟨name, path, source, columnsOf schema⟩ :: ·)

def byName (out : List TableSummary) : List TableSummary :=
  out.insertionSort (·.name ≤ ·.name)

/-- GET /v1/catalog/tables. -/
def listTables (order : Walk String) : CatalogProg (List TableSummary) :=
  .call (.listTables order) fun names => (summaries names).map byName

structure TableSuggestion where
  name : String
  kind : String

def TableKind.asStr : TableKind → String
  | .batch => "batch"
  | .streamingTable => "streaming_table"
  | .materializedView => "materialized_view"

def fieldNames : List (String × TableKind) → CatalogProg (List String)
  | [] => .ret []
  | (name, _) :: rest =>
      .call (.tableSchema name) fun
        | .error _ => fieldNames rest
        | .ok schema => (fieldNames rest).map (schema.fieldNames ++ ·)

structure Suggestions where
  tables : List TableSuggestion
  columns : List String

def sortedSet (names : List String) : List String :=
  (Listing.firsts names).insertionSort (· ≤ ·)

/-- GET /v1/catalog/suggestions, without the functions and the keywords, which never change. -/
def suggestions (order : Walk (String × TableKind)) : CatalogProg Suggestions :=
  .call (.listTablesWithKind order) fun named =>
    (fieldNames named).map fun names =>
      ⟨named.map fun (name, kind) => ⟨name, TableKind.asStr kind⟩, sortedSet names⟩

/-- POST /v1/catalog/tables. The file is read before the lock is taken. -/
def registerTable (registry : SourceRegistry) (inferSchema : DataSource → String → Result Schema)
    (body : RegisterTableRequest) : CatalogProg (Result Unit) :=
  andThen (.ret (registry.get body.chosenSource)) fun source =>
    andThen (.ret (inferSchema source body.path)) fun schema =>
      .call (.registerWithKind body.name
        ⟨body.path, body.chosenSource, schema, body.chosenKind⟩) fun _ => .ret (.ok ())

inductive Outcome where
  | planned (result : Result LogicalPlan)
  | rendered (result : Result String)
  | listed (tables : List TableSummary)
  | suggested (suggestions : Suggestions)
  | registered (result : Result Unit)
  | unregistered

end Handlers

section Alone
variable {α β : Type} {s : SessionState}

theorem andThen_run {p : CatalogProg (Result α)} {x : Result α} (first : p.run s = (s, some x))
    {f : α → CatalogProg (Result β)} {g : α → Result β}
    (next : ∀ a, (f a).run s = (s, some (g a))) :
    (andThen p f).run s = (s, some (x >>= g)) := by
  rw [andThen, Prog.run_bind, first]
  cases x with
  | ok a => exact next a
  | error e => rfl

theorem buildTableScan_run (name : String) (alias' : Option String) :
    (buildTableScan name alias').run s =
      (s, some (RSparkPlanner.buildTableScan name alias' s.catalog)) :=
  andThen_run rfl fun _ => andThen_run rfl fun _ => rfl

theorem joinTables_run (plan : LogicalPlan) (tables : List (String × Option String)) :
    (joinTables plan tables).run s =
      (s, some (RSparkPlanner.joinTables s.catalog plan tables)) := by
  induction tables generalizing plan with
  | nil => rfl
  | cons table rest ih =>
    exact andThen_run (buildTableScan_run _ _) fun right => andThen_run rfl fun schema => ih _

theorem buildFromClause_run (tables : List (String × Option String)) :
    (buildFromClause tables).run s =
      (s, some (RSparkPlanner.buildFromClause tables s.catalog)) := by
  cases tables with
  | nil => rfl
  | cons table rest =>
    exact andThen_run (buildTableScan_run _ _) fun plan => joinTables_run plan rest

theorem planSelect_run (select : Select) :
    (planSelect select).run s = (s, some (RSparkPlanner.planSelect select s.catalog)) :=
  andThen_run rfl fun tables => andThen_run (buildFromClause_run tables) fun _ => rfl

variable [SqlParser]

mutual
theorem planQuery_run : (query : Query) →
    (planQuery query).run s = (s, some (RSparkPlanner.planQuery s.catalog query))
  | .mk withClause body orderBy limit offset => by
    rw [planQuery, RSparkPlanner.planQuery]
    split
    · rfl
    · exact andThen_run (planSetExpr_run body) fun _ => rfl

theorem planSetExpr_run : (body : SetExpr) →
    (planSetExpr body).run s = (s, some (RSparkPlanner.planSetExpr s.catalog body))
  | .select select => planSelect_run select
  | .query query => planQuery_run query
  | .setOperation .union _ left right =>
    andThen_run (planSetExpr_run left) fun _ => andThen_run (planSetExpr_run right) fun _ => rfl
  | .setOperation (.other _) _ _ _ => rfl
  | .other _ => rfl
end

variable [RSparkPlanner.PlanDebug]

theorem planStatement_run (statement : Statement) :
    (planStatement statement).run s =
      (s, some (RSparkPlanner.planStatement s.catalog statement)) := by
  induction statement with
  | query query => exact planQuery_run query
  | explain statement ih => exact andThen_run ih fun _ => rfl
  | showTables => rfl
  | use => rfl
  | showCreateTable name => rfl
  | other display => rfl

theorem planSql_run (sql : String) :
    (planSql sql).run s = (s, some (RSparkPlanner.planSql sql s.catalog)) := by
  have each (last : Option LogicalPlan) (statements : List Statement) :
      (planStatements last statements).run s =
        (s, some (RSparkPlanner.planStatements s.catalog last statements)) := by
    induction statements generalizing last with
    | nil => rfl
    | cons statement rest ih => exact andThen_run (planStatement_run statement) fun plan => ih _
  exact andThen_run rfl fun statements => each none statements

omit [SqlParser] [RSparkPlanner.PlanDebug] in
theorem renderCreateTable_run (name : String) :
    (renderCreateTable name).run s = (s, some (RSparkApi.renderCreateTable s.catalog name)) :=
  andThen_run rfl fun _ => andThen_run rfl fun _ => rfl

omit [SqlParser] [RSparkPlanner.PlanDebug] in
theorem registerTable_run (registry : SourceRegistry)
    (inferSchema : DataSource → String → Result Schema) (body : RegisterTableRequest) :
    (registerTable registry inferSchema body).run s =
      match RSparkSourceNames.registerTable registry inferSchema body s with
      | .ok s' => (s', some (.ok ()))
      | .error e => (s, some (.error e)) := by
  unfold registerTable RSparkSourceNames.registerTable
  cases registry.get body.chosenSource with
  | error e => rfl
  | ok source =>
    cases inferred : inferSchema source body.path with
    | error e => simp [andThen, Prog.bind, inferred]
    | ok schema =>
      simp only [andThen, Prog.bind, inferred, Prog.run_call, ok_bind]
      rfl

end Alone

end RSparkLiveCatalog
