import RSpark.SchemaContract

/- The other driver of logical plans, over partitions and the lowered operator, against the
   local executor: it carries out bare scans and nothing else. -/
namespace RSparkPlanExecutor
open RSparkValue RSparkBatch RSparkExpr RSparkPlan RSparkOperators RSparkExecutor
open RSparkSchemaContract

inductive PhysicalOp where
  | scan (path source : String) (schema : Schema)
  | project (expressions : List Expr) (schema : Schema)
  | filter (predicate : Expr) (schema : Schema)
  | aggregate (groupExprs aggregateExprs : List Expr) (schema : Schema)
  | sort (order : List SortExpr) (schema : Schema)
  | limit (count : Nat) (schema : Schema)
  | join (on : List (String × String)) (how : JoinType) (schema : Schema)
  deriving DecidableEq

/-- The derived Debug text of an operator. -/
class PhysicalDebug where
  format : PhysicalOp → String

def lowerPlan : LogicalPlan → PhysicalOp
  | .scan _ path source schema => .scan path source schema
  | .project _ expressions schema => .project expressions schema
  | .filter _ predicate schema => .filter predicate schema
  | .aggregate _ groupExprs aggregateExprs schema => .aggregate groupExprs aggregateExprs schema
  | .sort _ order schema => .sort order schema
  | .limit _ count schema => .limit count schema
  | .join _ _ on how schema => .join on how schema
  | .union _ schema => .limit 0 schema
  | .distinct _ schema => .limit 0 schema
  | .empty => .limit 0 Schema.empty

inductive Partition where
  | wholeFile (path : String)
  | csvSlice (path : String) (start stop : Nat)
  deriving DecidableEq

structure PartitionedBatch where
  partition : Partition
  batch : RecordBatch
  outputSchema : Schema

mutual
def collectPartitions : LogicalPlan → List Partition
  | .scan _ path _ _ => [.wholeFile path]
  | .project input _ _ => collectPartitions input
  | .filter input _ _ => collectPartitions input
  | .aggregate input _ _ _ => collectPartitions input
  | .sort input _ _ => collectPartitions input
  | .limit input _ _ => collectPartitions input
  | .distinct input _ => collectPartitions input
  | .join left right _ _ _ => collectPartitions left ++ collectPartitions right
  | .union inputs _ => collectAllPartitions inputs
  | .empty => []

def collectAllPartitions : List LogicalPlan → List Partition
  | [] => []
  | input :: rest => collectPartitions input ++ collectAllPartitions rest
end

def findScanPartitions (plan : LogicalPlan) : List Partition :=
  let partitions := collectPartitions plan
  if partitions.isEmpty then [.wholeFile ""] else partitions

theorem findScanPartitions_ne_nil (plan : LogicalPlan) : findScanPartitions plan ≠ [] := by
  simp only [findScanPartitions]
  split
  · exact List.cons_ne_nil _ _
  · rename_i some
    simpa using some

theorem push_eq_ok {b c : RecordBatch} {r : Record} :
    b.push r = .ok c ↔ r.Valid b.schema ∧ c = ⟨b.schema, b.records ++ [r]⟩ := by
  rw [RecordBatch.push, ← validate_eq_ok]
  constructor
  · intro pushed
    obtain ⟨_, valid, same⟩ := bind_eq_ok.mp pushed
    exact ⟨valid, (Except.ok.inj same).symm⟩
  · rintro ⟨valid, rfl⟩
    rw [valid]
    rfl

theorem push_all_eq_ok {b c : RecordBatch} {records : List Record} :
    records.foldlM RecordBatch.push b = .ok c ↔
      (∀ r ∈ records, r.Valid b.schema) ∧ c = ⟨b.schema, b.records ++ records⟩ := by
  induction records generalizing b with
  | nil =>
    rw [List.append_nil, List.foldlM_nil]
    exact ⟨fun same => ⟨nofun, (Except.ok.inj same).symm⟩, fun same => congrArg _ same.2.symm⟩
  | cons r rest ih =>
    rw [List.foldlM_cons, bind_eq_ok, List.forall_mem_cons]
    constructor
    · rintro ⟨next, pushed, later⟩
      obtain ⟨valid, rfl⟩ := push_eq_ok.mp pushed
      obtain ⟨all, rfl⟩ := ih.mp later
      exact ⟨⟨valid, all⟩, by rw [List.append_assoc]; rfl⟩
    · rintro ⟨⟨valid, all⟩, rfl⟩
      refine ⟨_, push_eq_ok.mpr ⟨valid, rfl⟩, ih.mpr ⟨all, ?_⟩⟩
      rw [List.append_assoc]
      rfl

section Execution
variable [PhysicalDebug]

/-- The whole plan is lowered for each partition: its root decides, its children are dropped. -/
def executePartition (ctx : ExecutionContext) (plan : LogicalPlan) (partition : Partition) :
    Result RecordBatch :=
  match lowerPlan plan, partition with
  | .scan _ source schema, .wholeFile path => scanSource ctx path source schema
  | .scan _ source schema, .csvSlice path _ _ => scanSource ctx path source schema
  | otherOp, _ => err (.execution
      s!"cannot execute non-scan partition with op {PhysicalDebug.format otherOp}")

def executePartitions (ctx : ExecutionContext) (plan : LogicalPlan) :
    List Partition → Result (List PartitionedBatch)
  | [] => .ok []
  | partition :: rest => do
      let batch ← executePartition ctx plan partition
      .ok (⟨partition, batch, plan.outputSchema⟩ :: (← executePartitions ctx plan rest))

def combineBatches (batches : List PartitionedBatch) (outputSchema : Schema) :
    Result RecordBatch :=
  batches.foldlM (fun combined part => part.batch.records.foldlM RecordBatch.push combined)
    (RecordBatch.new outputSchema)

def executePlan (ctx : ExecutionContext) (plan : LogicalPlan) : Result RecordBatch := do
  let current ← executePartitions ctx plan (findScanPartitions plan)
  combineBatches current plan.outputSchema

def isScan : LogicalPlan → Bool
  | .scan _ _ _ _ => true
  | _ => false

theorem executePlan_scan {ctx : ExecutionContext} {tableName path source : String}
    {schema : Schema} {b c : RecordBatch} (scanned : scanSource ctx path source schema = .ok b) :
    executePlan ctx (.scan tableName path source schema) = .ok c ↔
      (∀ r ∈ b.records, r.Valid schema) ∧ c = ⟨schema, b.records⟩ := by
  have found : findScanPartitions (.scan tableName path source schema) = [.wholeFile path] := by
    simp [findScanPartitions, collectPartitions]
  have pushed : executePlan ctx (.scan tableName path source schema) =
      b.records.foldlM RecordBatch.push (RecordBatch.new schema) := by
    simp only [executePlan, found, executePartitions, executePartition, lowerPlan, scanned,
      ok_bind, LogicalPlan.outputSchema, combineBatches, List.foldlM_cons, List.foldlM_nil,
      bind_pure]
  rw [pushed]
  exact push_all_eq_ok

theorem executePlan_refused (ctx : ExecutionContext) {plan : LogicalPlan}
    (other : isScan plan = false) (b : RecordBatch) : executePlan ctx plan ≠ .ok b := by
  intro ran
  obtain ⟨current, executed, _⟩ := bind_eq_ok.mp ran
  obtain ⟨first, rest, found⟩ := List.exists_cons_of_ne_nil (findScanPartitions_ne_nil plan)
  rw [found] at executed
  obtain ⟨batch, here, _⟩ := bind_eq_ok.mp executed
  cases plan with
  | scan tableName path source schema => exact nomatch other
  | _ => exact err_ne_ok _ _ here

variable [Regex]

/-- A scan whose source answers with no rows, or with a batch of the schema it was asked for. -/
def AnsweredScan (ctx : ExecutionContext) : LogicalPlan → Prop
  | .scan _ path source schema =>
      ∀ b, scanSource ctx path source schema = .ok b → b.records = [] ∨ Conforms b schema
  | _ => False

theorem scans_agree_iff {ctx : ExecutionContext} {tableName path source : String}
    {schema : Schema} {b : RecordBatch} (scanned : scanSource ctx path source schema = .ok b) :
    (∃ c, executePlan ctx (.scan tableName path source schema) = .ok c ∧
      execute ctx (.scan tableName path source schema) = .ok c) ↔
    b.records = [] ∨ Conforms b schema := by
  have local' : execute ctx (.scan tableName path source schema) =
      .ok (if b.isEmpty then RecordBatch.new schema else b) := by
    rw [execute, scanned]
    rfl
  have rows : b.isEmpty = true ↔ b.records = [] := List.isEmpty_iff
  rw [local']
  by_cases empty : b.records = []
  · refine iff_of_true ⟨RecordBatch.new schema, ?_, ?_⟩ (Or.inl empty)
    · rw [executePlan_scan scanned, empty]
      refine ⟨?_, rfl⟩
      intro r mem
      cases mem
    · rw [if_pos (rows.mpr empty)]
  · rw [if_neg (fun none => empty (rows.mp none))]
    constructor
    · rintro ⟨c, ran, same⟩
      obtain rfl := Except.ok.inj same
      obtain ⟨valid, same⟩ := (executePlan_scan scanned).mp ran
      have schema' : b.schema = schema := congrArg RecordBatch.schema same
      exact Or.inr ⟨schema', fun r mem => schema' ▸ valid r mem⟩
    · rintro (none | ⟨rfl, valid⟩)
      · exact absurd none empty
      · exact ⟨b, (executePlan_scan scanned).mpr ⟨valid, rfl⟩, rfl⟩

/-- When the scans of a plan succeed, the two executors return the same batch exactly on plans
    that are a scan themselves, answered with no rows or with the schema asked for. -/
theorem executors_agree_iff (ctx : ExecutionContext) (plan : LogicalPlan)
    (succeed : ∀ r ∈ plan.scans, ∃ b, scanSource ctx r.path r.source r.schema = .ok b) :
    (∃ b, executePlan ctx plan = .ok b ∧ execute ctx plan = .ok b) ↔ AnsweredScan ctx plan := by
  by_cases bare : isScan plan = true
  · cases plan with
    | scan tableName path source schema =>
      have mem : ⟨path, source, schema⟩ ∈
          (LogicalPlan.scan tableName path source schema).scans := by simp [LogicalPlan.scans]
      obtain ⟨b, scanned⟩ := succeed _ mem
      rw [scans_agree_iff (show scanSource ctx path source schema = .ok b from scanned)]
      constructor
      · intro answered c again
        obtain rfl := Except.ok.inj (scanned.symm.trans again)
        exact answered
      · intro answered
        exact answered b scanned
    | _ => cases bare
  · refine iff_of_false ?_ ?_
    · rintro ⟨b, ran, _⟩
      exact executePlan_refused ctx (Bool.eq_false_of_not_eq_true bare) b ran
    · intro answered
      cases plan with
      | scan tableName path source schema => exact bare rfl
      | _ => exact answered.elim

end Execution

section Witness

def numbersSchema : Schema := ⟨[.new "n" .int64]⟩

def numbers : RecordBatch := ⟨numbersSchema, [⟨[.int64 1]⟩, ⟨[.int64 2]⟩]⟩

def numbersContext : ExecutionContext := ⟨⟨fun _ => some ⟨fun _ _ => .ok numbers⟩⟩⟩

def numbersScan : LogicalPlan := .scan "numbers" "numbers.csv" "csv" numbersSchema

@[reducible] def noPhysicalDebug : PhysicalDebug := ⟨fun _ => ""⟩

theorem numbers_scanned : ∀ r ∈ numbersScan.scans,
    scanSource numbersContext r.path r.source r.schema = .ok numbers := by
  intro r _
  rfl

theorem numbers_scan_agrees : ∃ b, @executePlan noPhysicalDebug numbersContext numbersScan = .ok b ∧
    @execute noRegex numbersContext numbersScan = .ok b := by
  refine (@executors_agree_iff noPhysicalDebug noRegex numbersContext numbersScan
    (fun r mem => ⟨numbers, numbers_scanned r mem⟩)).mpr ?_
  intro b scanned
  have answer : scanSource numbersContext "numbers.csv" "csv" numbersSchema = .ok numbers := rfl
  obtain rfl := Except.ok.inj (answer.symm.trans scanned)
  exact Or.inr (by decide)

/-- `SELECT n FROM numbers LIMIT 1`, without its projection. -/
def firstNumber : LogicalPlan := .limit numbersScan 1 numbersSchema

/-- One executor returns the first row, the other refuses the plan. -/
theorem limit_disagrees :
    ¬ ∀ (ctx : ExecutionContext) (plan : LogicalPlan),
      (∀ r ∈ plan.scans, ∃ b, scanSource ctx r.path r.source r.schema = .ok b) →
      ∃ b, @executePlan noPhysicalDebug ctx plan = .ok b ∧ @execute noRegex ctx plan = .ok b := by
  intro claim
  have sameScans : firstNumber.scans = numbersScan.scans := by
    simp [firstNumber, LogicalPlan.scans]
  obtain ⟨b, ran, _⟩ := claim numbersContext firstNumber
    (sameScans ▸ fun r mem => ⟨numbers, numbers_scanned r mem⟩)
  exact @executePlan_refused noPhysicalDebug numbersContext firstNumber rfl b ran

end Witness

end RSparkPlanExecutor
