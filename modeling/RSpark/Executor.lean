import RSpark.Operators

/- The local executor: the input of a node is materialized by executing its first
   child, then the node is applied to that batch. Sources are read through a registry
   and answer the same batch whenever they are asked the same question. -/
namespace RSparkExecutor
open RSparkValue RSparkBatch RSparkExpr RSparkPlan RSparkOperators

structure DataSource where
  scan : String → Option Schema → Result RecordBatch

structure SourceRegistry where
  sources : String → Option DataSource

def SourceRegistry.get (registry : SourceRegistry) (name : String) : Result DataSource :=
  orError (registry.sources name) (.notFound s!"data source '{name}' not registered")

structure ExecutionContext where
  sourceRegistry : SourceRegistry

variable [Regex]

def scanSource (ctx : ExecutionContext) (path source : String) (schema : Schema) :
    Result RecordBatch := do
  let src ← ctx.sourceRegistry.get source
  src.scan path (some schema)

def materializeInput (ctx : ExecutionContext) (exec : LogicalPlan → Result RecordBatch)
    (plan : LogicalPlan) : Result RecordBatch :=
  match plan with
  | .scan _ path source schema => scanSource ctx path source schema
  | .empty => .ok (RecordBatch.new Schema.empty)
  | plan =>
      match plan.children with
      | child :: _ => exec child
      | [] => .ok (RecordBatch.new plan.outputSchema)

def isStar : Expr → Bool
  | .star => true
  | _ => false

def projectRecords (expressions : List Expr) (batch : RecordBatch) (schema : Schema) :
    List Record → Result (List Record)
  | [] => .ok []
  | record :: rest => do
      let projected ← projectRecord expressions record batch schema
      .ok (projected :: (← projectRecords expressions batch schema rest))

def applyProject (expressions : List Expr) (schema : Schema) (batch : RecordBatch) :
    Result RecordBatch :=
  if expressions.any isStar ∧ expressions.length = 1 then
    RecordBatch.fromRecords schema batch.records
  else do
    let newRecords ← projectRecords expressions batch schema batch.records
    RecordBatch.fromRecords schema newRecords

def filterRecords (predicate : Expr) (batch : RecordBatch) : List Record → Result (List Record)
  | [] => .ok []
  | record :: rest => do
      let keep ← evalPredicate predicate record batch
      let kept ← filterRecords predicate batch rest
      .ok (if keep then record :: kept else kept)

def applyFilter (predicate : Expr) (schema : Schema) (batch : RecordBatch) :
    Result RecordBatch := do
  let newRecords ← filterRecords predicate batch batch.records
  RecordBatch.fromRecords schema newRecords

def applySort (order : List SortExpr) (schema : Schema) (batch : RecordBatch) :
    Result RecordBatch := do
  let sorted ← sortBatch batch order
  RecordBatch.fromRecords schema sorted.records

def applyLimit (count : Nat) (schema : Schema) (batch : RecordBatch) : Result RecordBatch := do
  let limited ← limitBatch batch count
  RecordBatch.fromRecords schema limited.records

def applyJoin (leftSchema : Schema) (on : List (String × String)) (how : JoinType)
    (schema : Schema) (batch : RecordBatch) (executedRight : Result RecordBatch) :
    Result RecordBatch := do
  let leftBatch ← (RecordBatch.new leftSchema).extend batch
  let rightBatch ← executedRight
  let joined ← joinBatches leftBatch rightBatch on how
  RecordBatch.fromRecords schema joined.records

def unionAll (exec : LogicalPlan → Result RecordBatch) :
    List LogicalPlan → RecordBatch → Result RecordBatch
  | [], combined => .ok combined
  | input :: rest, combined => do
      let b ← exec input
      let combined ← combined.extend b
      unionAll exec rest combined

def distinctKey (record : Record) : String :=
  String.intercalate "|" (record.values.map Value.castToString)

def distinctRecords : List String → List Record → List Record
  | _, [] => []
  | seen, record :: rest =>
      if distinctKey record ∈ seen then distinctRecords seen rest
      else record :: distinctRecords (distinctKey record :: seen) rest

def applyDistinct (schema : Schema) (batch : RecordBatch) : Result RecordBatch :=
  RecordBatch.fromRecords schema (distinctRecords [] batch.records)

def applyTree (exec : LogicalPlan → Result RecordBatch) (plan : LogicalPlan)
    (batch : RecordBatch) : Result RecordBatch :=
  match plan with
  | .scan _ _ _ schema => .ok (if batch.isEmpty then RecordBatch.new schema else batch)
  | .empty => .ok (if batch.isEmpty then RecordBatch.new Schema.empty else batch)
  | .project _ expressions schema => applyProject expressions schema batch
  | .filter _ predicate schema => applyFilter predicate schema batch
  | .aggregate _ groupExprs aggregateExprs schema =>
      aggregateBatch groupExprs aggregateExprs batch schema
  | .sort _ order schema => applySort order schema batch
  | .limit _ count schema => applyLimit count schema batch
  | .join left right on how schema =>
      applyJoin left.outputSchema on how schema batch (exec right)
  | .union inputs schema => unionAll exec inputs (RecordBatch.new schema)
  | .distinct _ schema => applyDistinct schema batch

/- `materializeInput` followed by `applyTree`, unfolded at each node so that every
   recursive call is on a subtree; `execute_eq` folds it back. -/
mutual
def execute (ctx : ExecutionContext) : LogicalPlan → Result RecordBatch
  | .scan _ path source schema => do
      let batch ← scanSource ctx path source schema
      .ok (if batch.isEmpty then RecordBatch.new schema else batch)
  | .empty => .ok (RecordBatch.new Schema.empty)
  | .project input expressions schema => do
      applyProject expressions schema (← execute ctx input)
  | .filter input predicate schema => do
      applyFilter predicate schema (← execute ctx input)
  | .aggregate input groupExprs aggregateExprs schema => do
      aggregateBatch groupExprs aggregateExprs (← execute ctx input) schema
  | .sort input order schema => do applySort order schema (← execute ctx input)
  | .limit input count schema => do applyLimit count schema (← execute ctx input)
  | .join left right on how schema => do
      applyJoin left.outputSchema on how schema (← execute ctx left) (execute ctx right)
  | .union [] schema => .ok (RecordBatch.new schema)
  -- the first input is executed twice, once to be dropped
  | .union (first :: rest) schema => do
      let _ ← execute ctx first
      executeUnion ctx (first :: rest) (RecordBatch.new schema)
  | .distinct input schema => do applyDistinct schema (← execute ctx input)

def executeUnion (ctx : ExecutionContext) : List LogicalPlan → RecordBatch → Result RecordBatch
  | [], combined => .ok combined
  | input :: rest, combined => do
      let b ← execute ctx input
      let combined ← combined.extend b
      executeUnion ctx rest combined
end

theorem executeUnion_eq (ctx : ExecutionContext) (inputs : List LogicalPlan)
    (combined : RecordBatch) :
    executeUnion ctx inputs combined = unionAll (execute ctx) inputs combined := by
  induction inputs generalizing combined with
  | nil => simp [executeUnion, unionAll]
  | cons input rest ih => simp only [executeUnion, unionAll, ih]

theorem execute_eq (ctx : ExecutionContext) (plan : LogicalPlan) :
    execute ctx plan =
      (do let batch ← materializeInput ctx (execute ctx) plan
          applyTree (execute ctx) plan batch) := by
  cases plan with
  | union inputs schema =>
    cases inputs with
    | nil => simp [execute, materializeInput, applyTree, LogicalPlan.children, unionAll,
        LogicalPlan.outputSchema]
    | cons first rest =>
      simp only [execute, materializeInput, applyTree, LogicalPlan.children, executeUnion_eq]
  | empty => simp [execute, materializeInput, applyTree, RecordBatch.isEmpty, RecordBatch.new]
  | _ => simp only [execute, materializeInput, applyTree, LogicalPlan.children]

/-- Seeds the node with the stored child's result, or with the input where that is an
   error or empty; a panic is not caught. -/
def executeWithInput (ctx : ExecutionContext) (plan : LogicalPlan) (input : RecordBatch) :
    Result RecordBatch := do
  let currentBatch ← match materializeInput ctx (execute ctx) plan with
    | .ok batch => .ok batch
    | .error (.error _) => .ok input
    | .error (.abort message) => abort message
  let currentBatch := if currentBatch.isEmpty ∧ ¬ input.isEmpty then input else currentBatch
  applyTree (execute ctx) plan currentBatch

end RSparkExecutor
