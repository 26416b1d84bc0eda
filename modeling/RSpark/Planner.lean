import RSpark.ExprBuilder

/- From parsed statements to logical plans. -/
namespace RSparkPlanner
open RSparkValue RSparkBatch RSparkExpr RSparkPlan RSparkSqlAst RSparkExprBuilder

structure Catalog where
  tableSchema : String → Result Schema
  tableLocation : String → Result (String × String)

/-- The derived Debug text of a plan, which only EXPLAIN prints. -/
class PlanDebug where
  format : LogicalPlan → String

def isWhitespace (c : Char) : Bool :=
  c.toNat ∈ [0x20, 0x85, 0xa0, 0x1680, 0x2028, 0x2029, 0x202f, 0x205f, 0x3000] ∨
    (0x9 ≤ c.toNat ∧ c.toNat ≤ 0xd) ∨ (0x2000 ≤ c.toNat ∧ c.toNat ≤ 0x200a)

def trimChars (cs : List Char) : List Char :=
  ((cs.dropWhile isWhitespace).reverse.dropWhile isWhitespace).reverse

def normalizeTrailingSemicolon (cs : List Char) : List Char :=
  if cs.getLast? = some ';' then cs.dropLast else cs

def parseSql [SqlParser] (sql : String) : Result (List Statement) :=
  let trimmed := trimChars sql.toList
  if trimmed.isEmpty then err (.sql "empty SQL statement")
  else
    match SqlParser.parse (String.ofList (normalizeTrailingSemicolon trimmed)) with
    | .error e => err (.sql s!"syntax error: {e}")
    | .ok [] => err (.sql "no statements parsed")
    | .ok (statement :: rest) => .ok (statement :: rest)

def evalLimit [SqlParser] : SqlExpr → Result Nat
  | .value (.number s) =>
      match parseI64 s with
      | none => err (.sql s!"invalid LIMIT: {s}")
      | some n =>
          if n.toInt < 0 then err (.sql "LIMIT must be non-negative") else .ok n.toInt.toNat
  | other => err (.sql s!"unsupported LIMIT expression: {SqlParser.display other}")

def joinPairs (left right : Schema) : List (String × String) :=
  left.fields.filterMap fun l => (right.field l.name).map fun r => (l.name, r.name)

def buildTableScan (name : String) (_alias : Option String) (catalog : Catalog) :
    Result LogicalPlan := do
  let (path, source) ← catalog.tableLocation name
  let schema ← catalog.tableSchema name
  .ok (buildScanSchema name path source schema)

/-- The equality predicate over the pairs is built and dropped by the source; every
   join is an inner join on the shared column names. -/
def joinTables (catalog : Catalog) :
    LogicalPlan → List (String × Option String) → Result LogicalPlan
  | plan, [] => .ok plan
  | plan, (name, alias') :: rest => do
      let right ← buildTableScan name alias' catalog
      let pairs := joinPairs plan.outputSchema right.outputSchema
      let schema ← buildJoinSchema plan.outputSchema right.outputSchema pairs
      joinTables catalog (.join plan right pairs .inner schema) rest

def buildFromClause (tables : List (String × Option String)) (catalog : Catalog) :
    Result LogicalPlan :=
  match tables with
  | [] => .ok .empty
  | (firstName, firstAlias) :: rest => do
      let plan ← buildTableScan firstName firstAlias catalog
      joinTables catalog plan rest

def stripAlias : Expr → Expr
  | .aliased expr _ => stripAlias expr
  | e => e

def exprStrictlyMatches : Expr → Expr → Bool
  | .aliased aa _, b => exprStrictlyMatches aa b
  | .aggregate fa aa da, b =>
      match stripAlias b with
      | .aggregate fb ab db => fa = fb && da = db && exprStrictlyMatches aa ab
      | _ => false
  | .column na, b =>
      match stripAlias b with
      | .column nb => na = nb
      | _ => false
  | .literal la, b =>
      match stripAlias b with
      | .literal lb => la.partialEq lb
      | _ => false
  | .binary oa la ra, b =>
      match stripAlias b with
      | .binary ob lb rb => oa = ob && exprStrictlyMatches la lb && exprStrictlyMatches ra rb
      | _ => false
  | _, _ => false

def rewriteHaving (projections : List Expr) (expr : Expr) : Expr :=
  match projections.find? (exprStrictlyMatches · expr) with
  | some replacement => replacement
  | none =>
      match expr with
      | .binary op left right =>
          .binary op (rewriteHaving projections left) (rewriteHaving projections right)
      | .not inner => .not (rewriteHaving projections inner)
      | .isNull inner => .isNull (rewriteHaving projections inner)
      | .isNotNull inner => .isNotNull (rewriteHaving projections inner)
      | other => other

def planWhere (selection : Option SqlExpr) (plan : LogicalPlan) : Result LogicalPlan :=
  match selection with
  | none => .ok plan
  | some whereClause => do .ok (.filter plan (← buildExpr whereClause) plan.outputSchema)

def planProject (projections : List Expr) (plan : LogicalPlan) : Result LogicalPlan := do
  let projSchema ← buildProjectSchema projections plan.outputSchema
  .ok (.project plan projections projSchema)

def planHaving (having : Option SqlExpr) (projections : List Expr) (plan : LogicalPlan) :
    Result LogicalPlan :=
  match having with
  | none => .ok plan
  | some having => do
      let predicate := rewriteHaving projections (← buildExpr having)
      .ok (.filter plan predicate plan.outputSchema)

def planAggregate (groupExprs aggregateExprs : List Expr) (plan : LogicalPlan) :
    Result LogicalPlan := do
  let aggSchema ← buildAggregateSchema groupExprs aggregateExprs
  .ok (.aggregate plan groupExprs aggregateExprs aggSchema)

def groupByExprs : GroupByExpr → List SqlExpr
  | .expressions exprs => exprs
  | .all => []

/-- Three shapes: grouped, DISTINCT, plain. HAVING is read by the first only, DISTINCT by
   the second only. -/
def planSelectShape (select : Select) (projections groupExprs : List Expr)
    (plan : LogicalPlan) : Result LogicalPlan :=
  let aggregateExprs := projections.filter Expr.containsAggregate
  if ¬ aggregateExprs.isEmpty ∨ ¬ groupExprs.isEmpty then do
    let plan ← planAggregate groupExprs aggregateExprs plan
    let plan ← planProject projections plan
    planHaving select.having projections plan
  else if select.distinct.isSome then do
    let plan ← planProject projections plan
    .ok (.distinct plan plan.outputSchema)
  else planProject projections plan

def planSelect (select : Select) (catalog : Catalog) : Result LogicalPlan := do
  let tables ← buildFromTables select.from'
  let plan ← buildFromClause tables catalog
  let plan ← planWhere select.selection plan
  let projections ← buildSelectExpressions select
  let groupExprs ← buildExprs (groupByExprs select.groupBy)
  planSelectShape select projections groupExprs plan

def buildSortKeys : List OrderByExpr → Result (List SortExpr)
  | [] => .ok []
  | key :: rest => do
      let expr ← buildExpr key.expr
      .ok (⟨expr, key.asc.getD true⟩ :: (← buildSortKeys rest))

def planSort (sortKeys : List SortExpr) (plan : LogicalPlan) : LogicalPlan :=
  if sortKeys.isEmpty then plan else .sort plan sortKeys plan.outputSchema

def planLimit [SqlParser] (limit : Option SqlExpr) (plan : LogicalPlan) : Result LogicalPlan :=
  match limit with
  | none => .ok plan
  | some limit => do .ok (.limit plan (← evalLimit limit) plan.outputSchema)

mutual
def planQuery [SqlParser] (catalog : Catalog) : Query → Result LogicalPlan
  | .mk withClause body orderBy limit _offset => do
      if withClause then err (.sql "CTE (WITH) not yet supported")
      else
        let plan ← planSetExpr catalog body
        let sortKeys ← buildSortKeys (orderBy.getD [])
        planLimit limit (planSort sortKeys plan)

def planSetExpr [SqlParser] (catalog : Catalog) : SetExpr → Result LogicalPlan
  | .select select => planSelect select catalog
  | .query query => planQuery catalog query
  | .setOperation .union _ left right => do
      let l ← planSetExpr catalog left
      let r ← planSetExpr catalog right
      .ok (.union [l, r] l.outputSchema)
  | .setOperation (.other debug) _ _ _ => err (.sql s!"unsupported set operation: {debug}")
  | .other display => err (.sql s!"unsupported set expression: {display}")
end

def planStatement [SqlParser] [PlanDebug] (catalog : Catalog) : Statement → Result LogicalPlan
  | .query query => planQuery catalog query
  | .explain statement => do
      let inner ← planStatement catalog statement
      .ok (.project inner [.literal (.str (PlanDebug.format inner))]
        ⟨[Field.new "plan" .string]⟩)
  | .showTables => .ok .empty
  | .use => .ok .empty
  | .showCreateTable name => err (.sql s!"unsupported statement: SHOW CREATE TABLE {name.display}")
  | .other display => err (.sql s!"unsupported statement: {display}")

def planStatements [SqlParser] [PlanDebug] (catalog : Catalog) :
    Option LogicalPlan → List Statement → Result LogicalPlan
  | lastPlan, [] => orError lastPlan (.sql "no statements to plan")
  | _, statement :: rest => do
      let plan ← planStatement catalog statement
      planStatements catalog (some plan) rest

def planSql [SqlParser] [PlanDebug] (sql : String) (catalog : Catalog) : Result LogicalPlan := do
  let statements ← parseSql sql
  planStatements catalog none statements

section Shapes

def projection (projections : List Expr) (input : LogicalPlan) : LogicalPlan :=
  .project input projections ⟨projections.flatMap (projectFields input.outputSchema)⟩

def aggregation (groupExprs aggregateExprs : List Expr) (input : LogicalPlan) : LogicalPlan :=
  .aggregate input groupExprs aggregateExprs
    ⟨groupExprs.map aggregateField ++ aggregateExprs.map aggregateField⟩

inductive Filtered (input : LogicalPlan) : LogicalPlan → Prop where
  | same : Filtered input input
  | filter (predicate : Expr) : Filtered input (.filter input predicate input.outputSchema)

inductive Shaped (projections groupExprs : List Expr) (input : LogicalPlan) : LogicalPlan → Prop
  | grouped {plan : LogicalPlan}
      (grouped : ¬ (projections.filter Expr.containsAggregate).isEmpty ∨ ¬ groupExprs.isEmpty)
      (having : Filtered (projection projections
        (aggregation groupExprs (projections.filter Expr.containsAggregate) input)) plan) :
      Shaped projections groupExprs input plan
  | distinct
      (plain : ¬ (¬ (projections.filter Expr.containsAggregate).isEmpty ∨ ¬ groupExprs.isEmpty)) :
      Shaped projections groupExprs input
        (.distinct (projection projections input) (projection projections input).outputSchema)
  | plain
      (plain : ¬ (¬ (projections.filter Expr.containsAggregate).isEmpty ∨ ¬ groupExprs.isEmpty)) :
      Shaped projections groupExprs input (projection projections input)

variable {input plan : LogicalPlan}

theorem filtered_schema (filtered : Filtered input plan) :
    plan.outputSchema = input.outputSchema := by
  cases filtered with
  | same => rfl
  | filter predicate => rfl

theorem planWhere_filtered {selection : Option SqlExpr}
    (planned : planWhere selection input = .ok plan) : Filtered input plan := by
  cases selection with
  | none =>
    rw [← Except.ok.inj planned]
    exact .same
  | some clause =>
    obtain ⟨predicate, _, built⟩ := bind_eq_ok.mp planned
    rw [← Except.ok.inj built]
    exact .filter predicate

theorem planHaving_filtered {having : Option SqlExpr} {projections : List Expr}
    (planned : planHaving having projections input = .ok plan) : Filtered input plan := by
  cases having with
  | none =>
    rw [← Except.ok.inj planned]
    exact .same
  | some clause =>
    obtain ⟨predicate, _, built⟩ := bind_eq_ok.mp planned
    rw [← Except.ok.inj built]
    exact .filter _

theorem planSelectShape_shaped {select : Select} {projections groupExprs : List Expr}
    (planned : planSelectShape select projections groupExprs input = .ok plan) :
    Shaped projections groupExprs input plan := by
  unfold planSelectShape at planned
  dsimp only at planned
  split at planned
  · rename_i grouped
    obtain ⟨aggregated, aggregates, planned⟩ := bind_eq_ok.mp planned
    obtain ⟨projected, projects, planned⟩ := bind_eq_ok.mp planned
    rw [← Except.ok.inj projects, ← Except.ok.inj aggregates] at planned
    exact .grouped grouped (planHaving_filtered planned)
  · rename_i plain
    split at planned
    · obtain ⟨projected, projects, planned⟩ := bind_eq_ok.mp planned
      rw [← Except.ok.inj projects] at planned
      rw [← Except.ok.inj planned]
      exact .distinct plain
    · rw [← Except.ok.inj planned]
      exact .plain plain

theorem planSelect_shaped {select : Select} {catalog : Catalog}
    (planned : planSelect select catalog = .ok plan) :
    ∃ tables source input projections groupExprs, buildFromTables select.from' = .ok tables ∧
      buildFromClause tables catalog = .ok source ∧ Filtered source input ∧
      Shaped projections groupExprs input plan := by
  obtain ⟨tables, named, planned⟩ := bind_eq_ok.mp planned
  obtain ⟨source, read, planned⟩ := bind_eq_ok.mp planned
  obtain ⟨input, qualified, planned⟩ := bind_eq_ok.mp planned
  obtain ⟨projections, _, planned⟩ := bind_eq_ok.mp planned
  obtain ⟨groupExprs, _, planned⟩ := bind_eq_ok.mp planned
  exact ⟨tables, source, input, projections, groupExprs, named, read, planWhere_filtered qualified,
    planSelectShape_shaped planned⟩

end Shapes

end RSparkPlanner
