import RSpark.Calls
import RSpark.InsertionMap

/- The shared state of the cluster and its operations, each atomic. Instants are natural
   numbers, and identifiers are chosen by the callers. -/
namespace RSparkClusterState
open Calls

abbrev Time := Nat

inductive JobStatus where
  | pending | running | succeeded | failed (message : String) | cancelled
  deriving DecidableEq

def JobStatus.isTerminal : JobStatus → Bool
  | .succeeded | .failed _ | .cancelled => true
  | .pending | .running => false

structure Job where
  id : String
  name : String
  sql : String
  status : JobStatus
  submittedAt : Time
  startedAt : Option Time
  completedAt : Option Time
  stages : List String
  resultRows : Option Nat
  error : Option String
  submissionTime : Time
  parallelism : Nat
  deriving DecidableEq

def Job.new (id name sql : String) (now : Time) : Job :=
  ⟨id, name, sql, .pending, now, none, none, [], none, none, now, 1⟩

inductive TaskStatus where
  | pending | assigned | running | succeeded | failed (message : String)
  deriving DecidableEq

def TaskStatus.isSucceeded : TaskStatus → Bool
  | .succeeded => true
  | _ => false

theorem isSucceeded_iff {status : TaskStatus} :
    status.isSucceeded = true ↔ status = .succeeded := by
  cases status <;> simp [TaskStatus.isSucceeded]

def TaskStatus.isFailed : TaskStatus → Bool
  | .failed _ => true
  | _ => false

def TaskStatus.isTerminal (s : TaskStatus) : Bool := s.isSucceeded || s.isFailed

structure Task where
  id : String
  stageId : String
  jobId : String
  partitionLabel : String
  sql : String
  status : TaskStatus
  assignedWorker : Option String
  startedAt : Option Time
  completedAt : Option Time
  resultRows : Option Nat
  error : Option String
  deriving DecidableEq

def Task.new (id jobId stageId partitionLabel sql : String) : Task :=
  ⟨id, stageId, jobId, partitionLabel, sql, .pending, none, none, none, none, none⟩

inductive StageStatus where
  | pending | running | succeeded | failed (message : String)
  deriving DecidableEq

structure Stage where
  id : String
  jobId : String
  index : Nat
  label : String
  status : StageStatus
  startedAt : Option Time
  completedAt : Option Time
  tasks : List Task
  deriving DecidableEq

def Stage.new (id jobId : String) (index : Nat) (label : String) : Stage :=
  ⟨id, jobId, index, label, .pending, none, none, []⟩

def Stage.isComplete (s : Stage) : Bool :=
  !s.tasks.isEmpty && s.tasks.all fun t => t.status.isSucceeded

inductive WorkerStatus where
  | alive | dead
  deriving DecidableEq

structure WorkerInfo where
  id : String
  address : String
  lastHeartbeat : Time
  cores : Nat
  memoryMb : Nat
  status : WorkerStatus
  runningTasks : List String
  deriving DecidableEq

/-- The order in which a hash map of tasks is walked: some rearrangement of the order of
   insertion, fixed by the map's seed. -/
structure HashOrder where
  walk : List Task → List Task
  rearranges : ∀ tasks, (walk tasks).Perm tasks

structure ClusterState where
  masterId : String
  workers : InsertionMap String WorkerInfo
  jobs : InsertionMap String Job
  stages : InsertionMap String Stage
  tasks : InsertionMap String Task
  pending : List String
  runningRound : Nat
  totalRuns : Nat
  totalCompletedRounds : Nat
  order : HashOrder

namespace ClusterState

def new (masterId : String) (order : HashOrder) : ClusterState :=
  ⟨masterId, .empty, .empty, .empty, .empty, [], 0, 0, 0, order⟩

def registerWorker (s : ClusterState) (worker : WorkerInfo) : ClusterState :=
  { s with workers := s.workers.insert worker.id worker }

def insertJob (s : ClusterState) (job : Job) : ClusterState :=
  { s with jobs := s.jobs.insert job.id job }

def updateJob (s : ClusterState) (job : Job) : ClusterState :=
  { s with jobs := s.jobs.insert job.id job }

def job (s : ClusterState) (jobId : String) : Option Job := s.jobs.get jobId

def insertStage (s : ClusterState) (stage : Stage) : ClusterState :=
  { s with stages := s.stages.insert stage.id stage }

def updateStage (s : ClusterState) (stage : Stage) : ClusterState :=
  { s with stages := s.stages.insert stage.id stage }

def stage (s : ClusterState) (stageId : String) : Option Stage := s.stages.get stageId

def insertTask (s : ClusterState) (task : Task) : ClusterState :=
  { s with tasks := s.tasks.insert task.id task, pending := s.pending ++ [task.id] }

def task (s : ClusterState) (taskId : String) : Option Task := s.tasks.get taskId

def wasTerminal (s : ClusterState) (taskId : String) : Bool :=
  match s.task taskId with
  | some t => t.status.isTerminal
  | none => false

/-- The first terminal report of a task takes it off the queue; a success is counted. -/
def updateTask (s : ClusterState) (task : Task) : ClusterState :=
  let first := !s.wasTerminal task.id && task.status.isTerminal
  { s with
    tasks := s.tasks.insert task.id task
    pending := if first then s.pending.filter (· ≠ task.id) else s.pending
    totalRuns := if first && task.status.isSucceeded then s.totalRuns + 1 else s.totalRuns }

def tasksForJob (s : ClusterState) (jobId : String) : List Task :=
  (s.order.walk s.tasks.values).filter (·.jobId = jobId)

def popPendingTask (s : ClusterState) : ClusterState × Option Task :=
  match s.pending with
  | [] => (s, none)
  | id :: rest => ({ s with pending := rest }, s.tasks.get id)

def incRunningRound (s : ClusterState) : ClusterState :=
  { s with runningRound := s.runningRound + 1 }

def recordCompletedRound (s : ClusterState) : ClusterState :=
  { s with totalCompletedRounds := s.totalCompletedRounds + 1 }

end ClusterState

inductive Op where
  | registerWorker (worker : WorkerInfo)
  | insertJob (job : Job)
  | updateJob (job : Job)
  | job (jobId : String)
  | insertStage (stage : Stage)
  | updateStage (stage : Stage)
  | stage (stageId : String)
  | insertTask (task : Task)
  | updateTask (task : Task)
  | task (taskId : String)
  | tasksForJob (jobId : String)
  | popPendingTask
  | incRunningRound
  | recordCompletedRound

@[reducible] def Op.Resp : Op → Type
  | .job _ => Option Job
  | .stage _ => Option Stage
  | .task _ => Option Task
  | .tasksForJob _ => List Task
  | .popPendingTask => Option Task
  | .incRunningRound => Nat
  | _ => Unit

def Op.exec : (o : Op) → ClusterState → ClusterState × o.Resp
  | .registerWorker w, s => (s.registerWorker w, ())
  | .insertJob j, s => (s.insertJob j, ())
  | .updateJob j, s => (s.updateJob j, ())
  | .job jobId, s => (s, s.job jobId)
  | .insertStage st, s => (s.insertStage st, ())
  | .updateStage st, s => (s.updateStage st, ())
  | .stage stageId, s => (s, s.stage stageId)
  | .insertTask t, s => (s.insertTask t, ())
  | .updateTask t, s => (s.updateTask t, ())
  | .task taskId, s => (s, s.task taskId)
  | .tasksForJob jobId, s => (s, s.tasksForJob jobId)
  | .popPendingTask, s => s.popPendingTask
  | .incRunningRound, s => (s.incRunningRound, s.runningRound + 1)
  | .recordCompletedRound, s => (s.recordCompletedRound, ())

@[reducible] def clusterInterface : Interface ClusterState := ⟨Op, Op.Resp, Op.exec⟩

abbrev ClusterProg := Prog clusterInterface

theorem mem_tasksForJob {s : ClusterState} {jobId : String} {t : Task} :
    t ∈ s.tasksForJob jobId ↔ t ∈ s.tasks.values ∧ t.jobId = jobId := by
  simp only [ClusterState.tasksForJob, List.mem_filter, decide_eq_true_eq,
    (s.order.rearranges s.tasks.values).mem_iff]

theorem tasksForJob_perm (s : ClusterState) (jobId : String) :
    (s.tasksForJob jobId).Perm (s.tasks.values.filter (·.jobId = jobId)) :=
  (s.order.rearranges s.tasks.values).filter _

theorem popped_found {s : ClusterState} {t : Task} (popped : s.popPendingTask.2 = some t) :
    ∃ k, s.task k = some t := by
  simp only [ClusterState.popPendingTask] at popped
  split at popped
  · exact absurd popped (by simp)
  · rename_i id rest _
    exact ⟨id, popped⟩

def TasksKeyed (s : ClusterState) : Prop := ∀ k t, s.task k = some t → t.id = k

theorem mem_tasksForJob_iff {s : ClusterState} (keyed : TasksKeyed s) {jobId : String}
    {t : Task} : t ∈ s.tasksForJob jobId ↔ s.task t.id = some t ∧ t.jobId = jobId := by
  rw [mem_tasksForJob, InsertionMap.mem_values_iff]
  refine and_congr_left fun _ => ⟨?_, fun found => ⟨t.id, found⟩⟩
  rintro ⟨k, found⟩
  rw [keyed k t found]
  exact found

theorem values_ids {s : ClusterState} (keyed : TasksKeyed s) :
    s.tasks.values.map Task.id = s.tasks.keys :=
  InsertionMap.Keyed.values_keys keyed

theorem tasksForJob_ids_nodup {s : ClusterState} (keyed : TasksKeyed s) (jobId : String) :
    ((s.tasksForJob jobId).map Task.id).Nodup := by
  have all : (s.tasks.values.map Task.id).Nodup := values_ids keyed ▸ s.tasks.nodupKeys
  have part := (List.filter_sublist (l := s.tasks.values) (p := (·.jobId = jobId))).map Task.id
  exact ((tasksForJob_perm s jobId).map Task.id).nodup_iff.mpr (part.nodup all)

end RSparkClusterState
