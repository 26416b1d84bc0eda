import RSpark.ClusterState
import RSpark.Executor
import RSpark.Planner
import Mathlib.Algebra.GroupWithZero.Nat

/- The master's operations as programs over the cluster state, and the worker's execution
   of one task. A missing entry behind an unwrap aborts the program. -/
namespace RSparkMaster
open RSparkValue RSparkBatch RSparkExpr RSparkPlan RSparkSqlAst RSparkPlanner RSparkExecutor
open RSparkClusterState Calls

structure PartitionSpec where
  index : Nat
  label : String
  deriving DecidableEq

mutual
/-- Labels of the partitions, `parallelism` for each scan. -/
def collectScans (parallelism : Nat) : LogicalPlan → List String
  | .scan _ path _ _ => (List.range parallelism).map fun partition =>
      s!"scan[{path}]:p{partition}"
  | .project input _ _ => collectScans parallelism input
  | .filter input _ _ => collectScans parallelism input
  | .aggregate input _ _ _ => collectScans parallelism input
  | .sort input _ _ => collectScans parallelism input
  | .limit input _ _ => collectScans parallelism input
  | .distinct input _ => collectScans parallelism input
  | .join left right _ _ _ => collectScans parallelism left ++ collectScans parallelism right
  | .union inputs _ => collectAllScans parallelism inputs
  | .empty => []

def collectAllScans (parallelism : Nat) : List LogicalPlan → List String
  | [] => []
  | input :: rest => collectScans parallelism input ++ collectAllScans parallelism rest
end

def planPartitions (plan : LogicalPlan) (parallelism : Nat) : List PartitionSpec :=
  let out := (collectScans parallelism plan).mapIdx fun i label => ⟨i, label⟩
  if out.isEmpty then [⟨0, "no-input"⟩] else out

structure JobRequest where
  name : String
  sql : String
  parallelism : Nat

def JobRequest.new (name sql : String) : JobRequest := ⟨name, sql, 1⟩
def JobRequest.withParallelism (r : JobRequest) (p : Nat) : JobRequest :=
  { r with parallelism := max p 1 }

/-- The identifiers drawn by one submission and the instants it reads off the clock. -/
structure SubmitDraws where
  jobId : String
  stageId : String
  taskIds : Nat → String
  createdAt : Time
  startedAt : Time

def submittedJob (r : JobRequest) (d : SubmitDraws) : Job :=
  { Job.new d.jobId r.name r.sql d.createdAt with parallelism := max r.parallelism 1 }

def stageTasks (r : JobRequest) (d : SubmitDraws) (partitions : List PartitionSpec) : List Task :=
  partitions.mapIdx fun i p => Task.new (d.taskIds i) d.jobId d.stageId p.label r.sql

def submittedStage (r : JobRequest) (d : SubmitDraws) (partitions : List PartitionSpec) : Stage :=
  { Stage.new d.stageId d.jobId 0 "main" with tasks := stageTasks r d partitions }

def insertTasks {ρ : Type} : List Task → ClusterProg ρ → ClusterProg ρ
  | [], next => next
  | task :: rest, next => .call (.insertTask task) fun _ => insertTasks rest next

abbrev Answer (α : Type) := Except Error α

def announceJob (job : Job) (startedAt : Time) : ClusterProg (Answer Job) :=
  .call (.insertJob job) fun _ =>
    .call (.updateJob { job with status := .running, startedAt := some startedAt }) fun _ =>
      .call (.job job.id) fun found => .ret (.ok (found.getD job))

def submitPlanned (r : JobRequest) (d : SubmitDraws) (partitions : List PartitionSpec) :
    ClusterProg (Answer Job) :=
  .call (.insertStage (submittedStage r d partitions)) fun _ =>
    .call (.stage d.stageId) fun found =>
      match found with
      | none => .abort
      | some stage =>
          insertTasks stage.tasks
            (announceJob { submittedJob r d with stages := [d.stageId] } d.startedAt)

def submitJob [SqlParser] [PlanDebug] (r : JobRequest) (catalog : Catalog) (d : SubmitDraws) :
    ClusterProg (Answer Job) :=
  match planSql r.sql catalog with
  | .error (.error e) => .ret (.error e)
  | .error (.abort _) => .abort
  | .ok plan => submitPlanned r d (planPartitions plan r.parallelism)

/-- Recorded as running without being planned. -/
def submitJobSkipPlan (r : JobRequest) (d : SubmitDraws) : ClusterProg (Answer Job) :=
  let job := { submittedJob r d with status := .running, startedAt := some d.startedAt }
  .call (.insertJob job) fun _ => .ret (.ok job)

/-- The first task that satisfies `p` is changed. -/
def updateFirst (p : Task → Bool) (f : Task → Task) : List Task → List Task
  | [] => []
  | t :: ts => if p t then f t :: ts else t :: updateFirst p f ts

theorem updateFirst_ids {p : Task → Bool} {f : Task → Task} (keeps : ∀ t, (f t).id = t.id)
    (ts : List Task) : (updateFirst p f ts).map Task.id = ts.map Task.id := by
  induction ts with
  | nil => rfl
  | cons t ts ih =>
    simp only [updateFirst]
    split
    · simp [keeps]
    · simp [ih]

theorem updateFirst_eq_map {k : String} {f : Task → Task} {ts : List Task}
    (distinct : (ts.map Task.id).Nodup) :
    updateFirst (·.id = k) f ts = ts.map fun t => if t.id = k then f t else t := by
  induction ts with
  | nil => rfl
  | cons t ts ih =>
    rw [List.map_cons, List.nodup_cons] at distinct
    by_cases here : t.id = k
    · have others : ts.map (fun t => if t.id = k then f t else t) = ts := by
        refine (List.map_congr_left fun t' mem => ?_).trans (List.map_id ts)
        have other : t'.id ≠ k := fun same =>
          distinct.1 (here.trans same.symm ▸ List.mem_map_of_mem mem)
        exact if_neg other
      simp [updateFirst, here, others]
    · simp [updateFirst, here, ih distinct.2]

def Task.assignTo (task : Task) (workerId : String) : Task :=
  { task with assignedWorker := some workerId, status := .assigned }

def assignSlot (task : Task) (slot : Task) : Task :=
  { slot with assignedWorker := task.assignedWorker, status := task.status }

def Stage.withAssigned (stage : Stage) (task : Task) : Stage :=
  { stage with tasks := updateFirst (·.id = task.id) (assignSlot task) stage.tasks }

def recordAssigned (task : Task) : ClusterProg (Option Task) :=
  .call (.updateTask task) fun _ =>
    .call (.stage task.stageId) fun found =>
      match found with
      | none => .ret (some task)
      | some stage => .call (.updateStage (Stage.withAssigned stage task)) fun _ => .ret (some task)

def tryAssignTask (workerId : String) : ClusterProg (Option Task) :=
  .call .popPendingTask fun found =>
    match found with
    | none => .ret none
    | some task => recordAssigned (Task.assignTo task workerId)

/-- What a worker reports about a task, and the clock's readings while it is recorded. -/
structure Report where
  taskId : String
  rows : Nat
  success : Bool
  error : Option String
  reportedAt : Time
  rolledUpAt : Time

def Report.status (r : Report) : TaskStatus :=
  if r.success then .succeeded else .failed (r.error.getD "")

def Task.withReport (task : Task) (r : Report) : Task :=
  { task with
    completedAt := some r.reportedAt
    resultRows := some r.rows
    status := r.status
    error := if r.success then task.error else r.error }

def reportSlot (task : Task) (slot : Task) : Task :=
  { slot with
    status := task.status
    completedAt := task.completedAt
    resultRows := task.resultRows
    error := task.error }

def stageStatusOf (stage : Stage) : StageStatus :=
  if stage.isComplete then .succeeded
  else if stage.tasks.any fun t => t.status.isFailed then .failed "one or more tasks failed"
  else .running

def Stage.withReport (stage : Stage) (task : Task) : Stage :=
  let stage := { stage with tasks := updateFirst (·.id = task.id) (reportSlot task) stage.tasks }
  { stage with status := stageStatusOf stage }

def allSucceeded (tasks : List Task) : Bool :=
  !tasks.isEmpty && tasks.all fun t => t.status.isSucceeded

def failureMessage (t : Task) : Option String :=
  match t.status with
  | .failed message => some message
  | _ => none

/-- The number of values of `usize`. -/
def usizeSize : Nat := 2 ^ 64

def usizeAdd (a b : Nat) : Nat := (a + b) % usizeSize

/-- `sum` over `usize` as the release profile builds it; a build that checks for overflow
    panics where this wraps around. -/
def usizeSum : List Nat → Nat
  | [] => 0
  -- the first addend meets the 0 the sum starts at
  | n :: ns => ns.foldl usizeAdd n

theorem usizeAdd_foldl (ns : List Nat) (a n : Nat) :
    (n :: ns).foldl usizeAdd a = (a + (n :: ns).sum) % usizeSize := by
  induction ns generalizing a n with
  | nil => simp [usizeAdd]
  | cons m ns ih =>
    rw [List.foldl_cons, ih, usizeAdd, Nat.mod_add_mod, List.sum_cons (a := n), Nat.add_assoc]

theorem usizeSum_wraps (n m : Nat) (ns : List Nat) :
    usizeSum (n :: m :: ns) = (n :: m :: ns).sum % usizeSize := by
  rw [usizeSum, usizeAdd_foldl, List.sum_cons (a := n)]

theorem usizeSum_of_lt {ns : List Nat} (fits : ns.sum < usizeSize) : usizeSum ns = ns.sum := by
  match ns with
  | [] => rfl
  | [n] => simp [usizeSum]
  | n :: m :: ns => rw [usizeSum_wraps, Nat.mod_eq_of_lt fits]

def reportedRows (tasks : List Task) : List Nat := tasks.filterMap Task.resultRows

def rowsOf (tasks : List Task) : Nat := usizeSum (reportedRows tasks)

theorem reportedRows_eq {tasks : List Task} {f : Task → Nat}
    (each : ∀ t ∈ tasks, t.resultRows = some (f t)) : reportedRows tasks = tasks.map f := by
  rw [reportedRows, List.filterMap_congr each, List.filterMap_eq_map']

/-- The job as it is after a look at all its tasks; untouched while none has failed and
   some are open. -/
def Job.rolledUp (job : Job) (tasks : List Task) (now : Time) : Job :=
  if allSucceeded tasks then
    { job with
      status := .succeeded, completedAt := some now, resultRows := some (rowsOf tasks) }
  else if tasks.any fun t => t.status.isFailed then
    { job with
      status := .failed ((tasks.findSome? failureMessage).getD "task failed")
      completedAt := some now }
  else job

@[simp] theorem rolledUp_id (job : Job) (tasks : List Task) (now : Time) :
    (Job.rolledUp job tasks now).id = job.id := by
  simp only [Job.rolledUp]
  split
  · rfl
  · split <;> rfl

theorem rolledUp_status (job : Job) (tasks : List Task) (now : Time) :
    (Job.rolledUp job tasks now).status =
      if allSucceeded tasks then .succeeded
      else if tasks.any fun t => t.status.isFailed then
        .failed ((tasks.findSome? failureMessage).getD "task failed")
      else job.status := by
  simp only [Job.rolledUp]
  split
  · rfl
  · split <;> rfl

def rollUp (jobId : String) (now : Time) : ClusterProg (Answer Unit) :=
  .call (.tasksForJob jobId) fun tasks =>
    .call (.job jobId) fun found =>
      match found with
      | none => .abort
      | some job => .call (.updateJob (Job.rolledUp job tasks now)) fun _ => .ret (.ok ())

def recordReport (task : Task) (now : Time) : ClusterProg (Answer Unit) :=
  .call (.updateTask task) fun _ =>
    .call (.stage task.stageId) fun found =>
      match found with
      | none => rollUp task.jobId now
      | some stage =>
          .call (.updateStage (Stage.withReport stage task)) fun _ => rollUp task.jobId now

def completeTask (r : Report) : ClusterProg (Answer Unit) :=
  .call (.task r.taskId) fun found =>
    match found with
    | none => .ret (.error (.notFound s!"task {r.taskId} not found"))
    | some task => recordReport (Task.withReport task r) r.rolledUpAt

inductive Outcome where
  | submitted (answer : Answer Job)
  | assigned (task : Option Task)
  | completed (answer : Answer Unit)

inductive MasterCall where
  | submit (r : JobRequest) (catalog : Catalog) (d : SubmitDraws)
  | assign (workerId : String)
  | complete (r : Report)

section Pool
variable [SqlParser] [PlanDebug]

def MasterCall.prog : MasterCall → ClusterProg Outcome
  | .submit r catalog d => (submitJob r catalog d).map .submitted
  | .assign workerId => (tryAssignTask workerId).map .assigned
  | .complete r => (completeTask r).map .completed

def poolOf (s : ClusterState) (calls : List MasterCall) : Pool clusterInterface Outcome :=
  ⟨s, calls.map MasterCall.prog⟩

/-- The tasks a submission creates; none when its text does not plan. -/
def MasterCall.newTasks : MasterCall → List Task
  | .submit r catalog d =>
      match planSql r.sql catalog with
      | .ok plan => stageTasks r d (planPartitions plan r.parallelism)
      | .error _ => []
  | .assign _ => []
  | .complete _ => []

def MasterCall.draws : MasterCall → Option SubmitDraws
  | .submit _ _ d => some d
  | .assign _ => none
  | .complete _ => none

structure FreshDraws (calls : List MasterCall) : Prop where
  tasks : (calls.flatMap fun c => c.newTasks.map Task.id).Nodup
  stages : ((calls.filterMap MasterCall.draws).map SubmitDraws.stageId).Nodup
  jobs : ((calls.filterMap MasterCall.draws).map SubmitDraws.jobId).Nodup

end Pool

def executeTask [Regex] [SqlParser] [PlanDebug] (ctx : ExecutionContext) (task : Task)
    (catalog : Catalog) : Result RecordBatch := do
  let plan ← planSql task.sql catalog
  execute ctx plan

section Sample

def usersSelect : Select :=
  ⟨none, [.unnamedExpr (.identifier ⟨"id"⟩)], [⟨.table ⟨[⟨"users"⟩], "users"⟩ none, []⟩], none,
    .expressions [], none⟩

def usersSql : String := "SELECT id FROM users"

@[reducible] def usersParser : SqlParser :=
  ⟨fun sql => if sql = usersSql then .ok [.query (.mk false (.select usersSelect) none none none)]
    else .error "unexpected text", fun _ => ""⟩

@[reducible] def noDebug : PlanDebug := ⟨fun _ => ""⟩

def usersSchema : Schema := ⟨[Field.new "id" .int64, Field.new "name" .string]⟩

def usersCatalog : Catalog :=
  ⟨fun name => if name = "users" then .ok usersSchema else err (.notFound "table"),
    fun name => if name = "users" then .ok ("users.csv", "csv") else err (.notFound "table")⟩

def drawsOf (jobId stageId task : String) (now : Time) : SubmitDraws :=
  ⟨jobId, stageId, fun i => task ++ String.ofList (List.replicate i '+'), now, now + 1⟩

def insertionOrder : HashOrder := ⟨id, fun _ => List.Perm.refl _⟩

def emptyState : ClusterState := ClusterState.new "m" insertionOrder

def successOf (taskId : String) (rows : Nat) : Report := ⟨taskId, rows, true, none, 7, 8⟩

end Sample

end RSparkMaster
