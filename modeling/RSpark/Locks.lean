import RSpark.Lowering
import RSpark.SqlEndpoint
import RSpark.Snapshot

/- The cluster state as it is under concurrency: each of its maps, its queue and its counters
   stands behind a lock of its own, and an operation that needs two of them takes them one
   after the other. The handlers are the programs of the master with every operation replaced
   by its acquisitions. -/
namespace RSparkLocks
open RSparkExpr RSparkPlan RSparkSqlAst RSparkPlanner RSparkExecutor
open RSparkClusterState RSparkMaster RSparkApi RSparkSnapshot Calls

section Acquisitions

inductive LockOp where
  | masterId
  | workersInsert (worker : WorkerInfo)
  | workersGet (workerId : String)
  | workersTouch (workerId : String) (now : Time)
  | workersList (order : Walk WorkerInfo)
  | jobsInsert (job : Job)
  | jobsGet (jobId : String)
  | jobsList (order : Walk Job)
  | stagesInsert (stage : Stage)
  | stagesGet (stageId : String)
  | stagesList (order : Walk Stage)
  | stagesForJob (jobId : String) (order : Walk Stage)
  | tasksInsert (task : Task)
  | tasksGet (taskId : String)
  | tasksList
  | tasksForJob (jobId : String)
  | pendingPush (taskId : String)
  | pendingPop
  | pendingRetain (taskId : String)
  | pendingList
  | runningIncrease
  | runningRead
  | completedIncrease
  | completedRead
  | runsIncrease
  | runsRead

@[reducible] def LockOp.Resp : LockOp → Type
  | .masterId => String
  | .workersGet _ => Option WorkerInfo
  | .workersList _ => List WorkerInfo
  | .jobsGet _ => Option Job
  | .jobsList _ => List Job
  | .stagesGet _ => Option Stage
  | .stagesList _ | .stagesForJob _ _ => List Stage
  | .tasksGet _ => Option Task
  | .tasksList | .tasksForJob _ => List Task
  | .pendingPop => Option String
  | .pendingList => List String
  | .runningIncrease | .runningRead | .completedRead | .runsRead => Nat
  | _ => Unit

def updateWorkerHeartbeat (s : ClusterState) (workerId : String) (now : Time) : ClusterState :=
  match s.workers.get workerId with
  | none => s
  | some worker =>
      { s with workers := s.workers.insert workerId { worker with lastHeartbeat := now } }

def stagesForJob (s : ClusterState) (jobId : String) (order : Walk Stage) : List Stage :=
  (order.walk s.stages.values).filter (·.jobId = jobId)

def LockOp.exec : (o : LockOp) → ClusterState → ClusterState × o.Resp
  | .masterId, s => (s, s.masterId)
  | .workersInsert w, s => ({ s with workers := s.workers.insert w.id w }, ())
  | .workersGet workerId, s => (s, s.workers.get workerId)
  | .workersTouch workerId now, s => (updateWorkerHeartbeat s workerId now, ())
  | .workersList order, s => (s, order.walk s.workers.values)
  | .jobsInsert j, s => ({ s with jobs := s.jobs.insert j.id j }, ())
  | .jobsGet jobId, s => (s, s.jobs.get jobId)
  | .jobsList order, s => (s, order.walk s.jobs.values)
  | .stagesInsert st, s => ({ s with stages := s.stages.insert st.id st }, ())
  | .stagesGet stageId, s => (s, s.stages.get stageId)
  | .stagesList order, s => (s, order.walk s.stages.values)
  | .stagesForJob jobId order, s => (s, RSparkLocks.stagesForJob s jobId order)
  | .tasksInsert t, s => ({ s with tasks := s.tasks.insert t.id t }, ())
  | .tasksGet taskId, s => (s, s.tasks.get taskId)
  | .tasksList, s => (s, listTasks s)
  | .tasksForJob jobId, s => (s, s.tasksForJob jobId)
  | .pendingPush taskId, s => ({ s with pending := s.pending ++ [taskId] }, ())
  | .pendingPop, s => ({ s with pending := s.pending.tail }, s.pending.head?)
  | .pendingRetain taskId, s => ({ s with pending := s.pending.filter (· ≠ taskId) }, ())
  | .pendingList, s => (s, s.pending)
  | .runningIncrease, s => ({ s with runningRound := s.runningRound + 1 }, s.runningRound + 1)
  | .runningRead, s => (s, s.runningRound)
  | .completedIncrease, s =>
      ({ s with totalCompletedRounds := s.totalCompletedRounds + 1 }, ())
  | .completedRead, s => (s, s.totalCompletedRounds)
  | .runsIncrease, s => ({ s with totalRuns := s.totalRuns + 1 }, ())
  | .runsRead, s => (s, s.totalRuns)

@[reducible] def lockInterface : Interface ClusterState := ⟨LockOp, LockOp.Resp, LockOp.exec⟩

abbrev LockProg := Prog lockInterface

def insertTask (task : Task) : LockProg Unit :=
  .call (.tasksInsert task) fun _ => .call (.pendingPush task.id) fun _ => .ret ()

/-- The status found before is not what is overwritten, should another thread come between. -/
def updateTask (task : Task) : LockProg Unit :=
  .call (.tasksGet task.id) fun found =>
    .call (.tasksInsert task) fun _ =>
      if !(found.any (·.status.isTerminal)) && task.status.isTerminal then
        .call (.pendingRetain task.id) fun _ =>
          if task.status.isSucceeded then .call .runsIncrease fun _ => .ret () else .ret ()
      else .ret ()

def popPendingTask : LockProg (Option Task) :=
  .call .pendingPop fun found =>
    match found with
    | none => .ret none
    | some taskId => .call (.tasksGet taskId) fun task => .ret task

def acquisitions : (o : Op) → LockProg o.Resp
  | .registerWorker w => .call (.workersInsert w) fun _ => .ret ()
  | .insertJob j => .call (.jobsInsert j) fun _ => .ret ()
  | .updateJob j => .call (.jobsInsert j) fun _ => .ret ()
  | .job jobId => .call (.jobsGet jobId) fun found => .ret found
  | .insertStage st => .call (.stagesInsert st) fun _ => .ret ()
  | .updateStage st => .call (.stagesInsert st) fun _ => .ret ()
  | .stage stageId => .call (.stagesGet stageId) fun found => .ret found
  | .insertTask t => insertTask t
  | .updateTask t => updateTask t
  | .task taskId => .call (.tasksGet taskId) fun found => .ret found
  | .tasksForJob jobId => .call (.tasksForJob jobId) fun tasks => .ret tasks
  | .popPendingTask => popPendingTask
  | .incRunningRound => .call .runningIncrease fun round => .ret round
  | .recordCompletedRound => .call .completedIncrease fun _ => .ret ()

abbrev locked {ρ : Type} (p : ClusterProg ρ) : LockProg ρ := p.lower acquisitions

theorem updateTask_alone (task : Task) (s : ClusterState) :
    (updateTask task).run s = (s.updateTask task, some ()) := by
  have was : (s.tasks.get task.id).any (·.status.isTerminal) = s.wasTerminal task.id := by
    simp only [ClusterState.wasTerminal, ClusterState.task]
    cases s.tasks.get task.id <;> rfl
  simp only [updateTask, Prog.run_call, LockOp.exec, was]
  cases first : !s.wasTerminal task.id && task.status.isTerminal <;>
    cases won : task.status.isSucceeded <;>
    simp [ClusterState.updateTask, first, won, Prog.run_call, LockOp.exec]

theorem popPendingTask_alone (s : ClusterState) :
    popPendingTask.run s = (s.popPendingTask.1, some s.popPendingTask.2) := by
  obtain ⟨masterId, workers, jobs, stages, tasks, pending, running, runs, completed, order⟩ := s
  cases pending <;> rfl

theorem acquisitions_together (o : Op) (s : ClusterState) :
    (acquisitions o).run s = ((Op.exec o s).1, some (Op.exec o s).2) := by
  cases o with
  | updateTask t => exact updateTask_alone t s
  | popPendingTask => exact popPendingTask_alone s
  | _ => rfl

theorem locked_alone {ρ : Type} (p : ClusterProg ρ) (s : ClusterState) :
    (locked p).run s = p.run s :=
  Prog.run_lower acquisitions_together p s

end Acquisitions

section Handlers

def snapshotSteps (orders : MapOrders) (capturedAt : Time) : LockProg ClusterSnapshot :=
  .call .masterId fun masterId =>
  .call (.workersList orders.workers) fun workers =>
  .call (.jobsList orders.jobs) fun jobs =>
  .call (.stagesList orders.stages) fun stages =>
  .call .tasksList fun tasks =>
  .call .pendingList fun pendingQueue =>
  .call .runningRead fun runningRound =>
  .call .completedRead fun totalCompletedRounds =>
  .call .runsRead fun totalRuns =>
    .ret ⟨masterId, capturedAt, workers, jobs, stages, tasks, pendingQueue, runningRound,
      totalCompletedRounds, totalRuns⟩

theorem snapshot_alone (orders : MapOrders) (capturedAt : Time) (s : ClusterState) :
    (snapshotSteps orders capturedAt).run s = (s, some (snapshot s orders capturedAt)) := rfl

structure SubmitJobResponse where
  job : Job
  stages : List Stage
  tasks : List Task

def showSubmitted (order : Walk Stage) (job : Job) : LockProg (Answer SubmitJobResponse) :=
  .call (.stagesForJob job.id order) fun stages =>
    .call (.tasksForJob job.id) fun tasks =>
      .call .runningIncrease fun _ => .ret (.ok ⟨job, stages, tasks⟩)

def heartbeat (workerId : String) (now : Time) : LockProg Bool :=
  .call (.workersGet workerId) fun found =>
    match found with
    | none => .ret false
    | some _ => .call (.workersTouch workerId now) fun _ => .ret true

variable [Regex] [SqlParser] [PlanDebug]

def submitJob (r : JobRequest) (catalog : Catalog) (d : SubmitDraws) (order : Walk Stage) :
    LockProg (Answer SubmitJobResponse) :=
  (locked (RSparkMaster.submitJob r catalog d)).bind fun answer =>
    match answer with
    | .error e => .ret (.error e)
    | .ok job => showSubmitted order job

inductive Posted where
  | complete (rows : Nat) (reportedAt rolledUpAt : Time)
  | fail (error : String) (reportedAt rolledUpAt : Time)

def Posted.report (taskId : String) : Posted → Report
  | .complete rows reportedAt rolledUpAt => ⟨taskId, rows, true, none, reportedAt, rolledUpAt⟩
  | .fail error reportedAt rolledUpAt => ⟨taskId, 0, false, some error, reportedAt, rolledUpAt⟩

inductive TurnEnd where
  | idle
  | silent (task : Task)
  | reported (task : Task) (posted : Posted) (answer : Answer Unit)

/-- One round of a worker's loop: it polls, runs what it is given and posts the outcome. It
    stays silent when the answer is lost on the way or the worker dies over the task. -/
def workerTurn (workerId : String) (work : Task → Option Posted) : LockProg TurnEnd :=
  (locked (tryAssignTask workerId)).bind fun found =>
    match found with
    | none => .ret .idle
    | some task =>
        match work task with
        | none => .ret (.silent task)
        | some posted =>
            (locked (completeTask (posted.report task.id))).map (.reported task posted)

end Handlers

end RSparkLocks
