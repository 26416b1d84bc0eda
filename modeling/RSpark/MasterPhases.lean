import RSpark.Master

/- The places in the master's concurrent operations between two calls of the cluster state,
   with what each call has read so far. -/
namespace RSparkMasterPhases
open RSparkPlanner RSparkSqlAst RSparkClusterState RSparkMaster Calls

structure Submission where
  request : JobRequest
  draws : SubmitDraws
  partitions : List PartitionSpec

namespace Submission

def jobId (b : Submission) : String := b.draws.jobId
def stageId (b : Submission) : String := b.draws.stageId
def tasks (b : Submission) : List Task := stageTasks b.request b.draws b.partitions
def ids (b : Submission) : List String := b.tasks.map Task.id
def stage (b : Submission) : Stage := submittedStage b.request b.draws b.partitions

def plannedJob (b : Submission) : Job :=
  { submittedJob b.request b.draws with stages := [b.stageId] }

def startedJob (b : Submission) : Job :=
  { b.plannedJob with status := .running, startedAt := some b.draws.startedAt }

end Submission

inductive Phase where
  | stageInsert (b : Submission)
  | stageRead (b : Submission)
  | taskInsert (b : Submission) (todo : List Task)
  | jobStart (b : Submission)
  | jobShow (b : Submission)
  | submitted (b : Submission)
  | refused
  | pop (workerId : String)
  | assignTask (task : Task)
  | assignRead (task : Task)
  | assignWrite (task : Task) (stage : Stage)
  | handed (task : Task)
  | idle
  | find (r : Report)
  | report (r : Report) (task : Task)
  | slotRead (r : Report) (task : Task)
  | slotWrite (r : Report) (task : Task) (stage : Stage)
  | tasksRead (r : Report) (task : Task)
  | jobRead (r : Report) (task : Task) (tasks : List Task)
  | jobWrite (r : Report) (task : Task) (tasks : List Task) (job : Job)
  | finished (r : Report) (task : Task)
  | missing (r : Report)
  | crashed

namespace Phase

/-- The next operation, with its argument; none once the call is over. -/
def op : Phase → Option Op
  | .stageInsert b => some (.insertStage b.stage)
  | .stageRead b => some (.stage b.stageId)
  | .taskInsert _ (task :: _) => some (.insertTask task)
  | .taskInsert b [] => some (.insertJob b.plannedJob)
  | .jobStart b => some (.updateJob b.startedJob)
  | .jobShow b => some (.job b.jobId)
  | .pop _ => some .popPendingTask
  | .assignTask task => some (.updateTask task)
  | .assignRead task => some (.stage task.stageId)
  | .assignWrite task stage => some (.updateStage (Stage.withAssigned stage task))
  | .find r => some (.task r.taskId)
  | .report r task => some (.updateTask (Task.withReport task r))
  | .slotRead _ task => some (.stage task.stageId)
  | .slotWrite r task stage =>
      some (.updateStage (Stage.withReport stage (Task.withReport task r)))
  | .tasksRead _ task => some (.tasksForJob task.jobId)
  | .jobRead _ task _ => some (.job task.jobId)
  | .jobWrite r _ tasks job => some (.updateJob (Job.rolledUp job tasks r.rolledUpAt))
  | .submitted _ | .refused | .handed _ | .idle | .finished _ _ | .missing _ | .crashed => none

/-- The phase after an operation that answered `found`. -/
def next (g : Phase) : (o : Op) → o.Resp → Phase
  | .insertStage _, _ =>
      match g with
      | .stageInsert b => .stageRead b
      | g => g
  | .stage _, found =>
      match g, found with
      | .stageRead b, some stage => .taskInsert b stage.tasks
      | .stageRead _, none => .crashed
      | .assignRead task, some stage => .assignWrite task stage
      | .assignRead task, none => .handed task
      | .slotRead r task, some stage => .slotWrite r task stage
      | .slotRead r task, none => .tasksRead r task
      | g, _ => g
  | .insertTask _, _ =>
      match g with
      | .taskInsert b (_ :: rest) => .taskInsert b rest
      | g => g
  | .insertJob _, _ =>
      match g with
      | .taskInsert b [] => .jobStart b
      | g => g
  | .updateJob _, _ =>
      match g with
      | .jobStart b => .jobShow b
      | .jobWrite r task _ _ => .finished r task
      | g => g
  | .job _, found =>
      match g, found with
      | .jobShow b, _ => .submitted b
      | .jobRead r task tasks, some job => .jobWrite r task tasks job
      | .jobRead _ _ _, none => .crashed
      | g, _ => g
  | .popPendingTask, found =>
      match g, found with
      | .pop workerId, some task => .assignTask (Task.assignTo task workerId)
      | .pop _, none => .idle
      | g, _ => g
  | .updateTask _, _ =>
      match g with
      | .assignTask task => .assignRead task
      | .report r task => .slotRead r task
      | g => g
  | .updateStage _, _ =>
      match g with
      | .assignWrite task _ => .handed task
      | .slotWrite r task _ => .tasksRead r task
      | g => g
  | .task _, found =>
      match g, found with
      | .find r, some task => .report r task
      | .find r, none => .missing r
      | g, _ => g
  | .tasksForJob _, tasks =>
      match g with
      | .tasksRead r task => .jobRead r task tasks
      | g => g
  | .registerWorker _, _ => g
  | .incRunningRound, _ => g
  | .recordCompletedRound, _ => g

def closes : Phase → Outcome → Prop
  | .submitted _, .submitted (.ok _) => True
  | .refused, .submitted (.error _) => True
  | .handed task, .assigned (some t) => t = task
  | .idle, .assigned none => True
  | .finished _ _, .completed (.ok _) => True
  | .missing _, .completed (.error _) => True
  | _, _ => False

end Phase

def phaseProtocol : Protocol clusterInterface Phase Outcome :=
  ⟨fun g o => g.op = some o, fun _ _ _ => True, Phase.next, Phase.closes⟩

section Keeps

theorem insertTasks_keeps (b : Submission) (tasks : List Task) :
    (phaseProtocol.comap Outcome.submitted).Keeps (.taskInsert b tasks)
      (insertTasks tasks (announceJob b.plannedJob b.draws.startedAt)) := by
  induction tasks with
  | nil => exact ⟨rfl, fun _ _ => ⟨rfl, fun _ _ => ⟨rfl, fun _ _ => trivial⟩⟩⟩
  | cons task rest ih => exact ⟨rfl, fun _ _ => ih⟩

theorem submitPlanned_keeps (b : Submission) :
    (phaseProtocol.comap Outcome.submitted).Keeps (.stageInsert b)
      (submitPlanned b.request b.draws b.partitions) := by
  refine ⟨rfl, fun _ _ => ⟨rfl, fun found _ => ?_⟩⟩
  cases found with
  | none => exact trivial
  | some stage => exact insertTasks_keeps b stage.tasks

theorem tryAssignTask_keeps (workerId : String) :
    (phaseProtocol.comap Outcome.assigned).Keeps (.pop workerId) (tryAssignTask workerId) := by
  refine ⟨rfl, fun found _ => ?_⟩
  cases found with
  | none => exact trivial
  | some task =>
    refine ⟨rfl, fun _ _ => ⟨rfl, fun found _ => ?_⟩⟩
    cases found with
    | none => exact rfl
    | some stage => exact ⟨rfl, fun _ _ => rfl⟩

theorem rollUp_keeps (r : Report) (task : Task) :
    (phaseProtocol.comap Outcome.completed).Keeps (.tasksRead r task)
      (rollUp task.jobId r.rolledUpAt) := by
  refine ⟨rfl, fun tasks _ => ⟨rfl, fun found _ => ?_⟩⟩
  cases found with
  | none => exact trivial
  | some job => exact ⟨rfl, fun _ _ => trivial⟩

theorem completeTask_keeps (r : Report) :
    (phaseProtocol.comap Outcome.completed).Keeps (.find r) (completeTask r) := by
  refine ⟨rfl, fun found _ => ?_⟩
  cases found with
  | none => exact trivial
  | some task =>
    refine ⟨rfl, fun _ _ => ⟨rfl, fun found _ => ?_⟩⟩
    cases found with
    | none => exact rollUp_keeps r task
    | some stage => exact ⟨rfl, fun _ _ => rollUp_keeps r task⟩

variable [SqlParser] [PlanDebug]

def submissionOf : MasterCall → Option Submission
  | .submit r catalog d =>
      match planSql r.sql catalog with
      | .ok plan => some ⟨r, d, planPartitions plan r.parallelism⟩
      | .error _ => none
  | .assign _ => none
  | .complete _ => none

/-- Where a call starts. A submission whose text does not plan calls nothing. -/
def startPhase (c : MasterCall) : Phase :=
  match c with
  | .submit _ _ _ =>
      match submissionOf c with
      | some b => .stageInsert b
      | none => .refused
  | .assign workerId => .pop workerId
  | .complete r => .find r

theorem call_keeps (c : MasterCall) : phaseProtocol.Keeps (startPhase c) c.prog := by
  cases c with
  | submit r catalog d =>
    refine Protocol.keeps_map _ _ ?_
    simp only [startPhase, submissionOf, submitJob]
    cases planSql r.sql catalog with
    | error fault => cases fault <;> exact trivial
    | ok plan => exact submitPlanned_keeps ⟨r, d, planPartitions plan r.parallelism⟩
  | assign workerId => exact Protocol.keeps_map _ _ (tryAssignTask_keeps workerId)
  | complete r => exact Protocol.keeps_map _ _ (completeTask_keeps r)

theorem pool_matches (calls : List MasterCall) (s : ClusterState) :
    phaseProtocol.Matches (calls.map startPhase) (poolOf s calls).threads :=
  Protocol.matches_map fun c _ => call_keeps c

end Keeps

section Origin
variable [SqlParser] [PlanDebug]

theorem submissionOf_newTasks {c : MasterCall} {b : Submission} (made : submissionOf c = some b) :
    c.newTasks = b.tasks := by
  cases c with
  | submit r catalog d =>
    simp only [submissionOf, MasterCall.newTasks] at made ⊢
    cases planned : planSql r.sql catalog with
    | error fault => simp [planned] at made
    | ok plan =>
      simp only [planned, Option.some.injEq] at made
      rw [← made]
      rfl
  | assign workerId => exact absurd made (by simp [submissionOf])
  | complete r => exact absurd made (by simp [submissionOf])

theorem submissionOf_draws {c : MasterCall} {b : Submission} (made : submissionOf c = some b) :
    c.draws = some b.draws := by
  cases c with
  | submit r catalog d =>
    simp only [submissionOf, MasterCall.draws] at made ⊢
    cases planned : planSql r.sql catalog with
    | error fault => simp [planned] at made
    | ok plan =>
      simp only [planned, Option.some.injEq] at made
      rw [← made]
  | assign workerId => exact absurd made (by simp [submissionOf])
  | complete r => exact absurd made (by simp [submissionOf])

def Tracks (c : MasterCall) : Phase → Prop
  | .stageInsert b | .stageRead b | .taskInsert b _ | .jobStart b | .jobShow b | .submitted b =>
      submissionOf c = some b
  | .refused => submissionOf c = none
  | .pop _ | .assignTask _ | .assignRead _ | .assignWrite _ _ | .handed _ | .idle =>
      ∃ workerId, c = .assign workerId
  | .find r | .report r _ | .slotRead r _ | .slotWrite r _ _ | .tasksRead r _ | .jobRead r _ _
  | .jobWrite r _ _ _ | .finished r _ | .missing r => c = .complete r
  | .crashed => True

theorem start_tracks (c : MasterCall) : Tracks c (startPhase c) := by
  cases c with
  | submit r catalog d =>
    simp only [startPhase]
    cases made : submissionOf (.submit r catalog d) with
    | none => exact made
    | some b => exact made
  | assign workerId => exact ⟨workerId, rfl⟩
  | complete r => exact rfl

end Origin

section Writes

inductive Write where
  | nothing
  | task (t : Task)
  | stage (st : Stage)
  | job (j : Job)

def Phase.write : Phase → Write
  | .stageInsert b => .stage b.stage
  | .taskInsert _ (task :: _) => .task task
  | .taskInsert b [] => .job b.plannedJob
  | .jobStart b => .job b.startedJob
  | .assignTask task => .task task
  | .assignWrite task stage => .stage (Stage.withAssigned stage task)
  | .report r task => .task (Task.withReport task r)
  | .slotWrite r task stage => .stage (Stage.withReport stage (Task.withReport task r))
  | .jobWrite r _ tasks job => .job (Job.rolledUp job tasks r.rolledUpAt)
  | _ => .nothing

def Write.onTask (w : Write) (k : String) (old : Option Task) : Option Task :=
  match w with
  | .task t => if k = t.id then some t else old
  | _ => old

def Write.onStage (w : Write) (k : String) (old : Option Stage) : Option Stage :=
  match w with
  | .stage st => if k = st.id then some st else old
  | _ => old

def Write.onJob (w : Write) (k : String) (old : Option Job) : Option Job :=
  match w with
  | .job j => if k = j.id then some j else old
  | _ => old

structure Wrote (w : Write) (s s' : ClusterState) : Prop where
  task : ∀ k, s'.task k = w.onTask k (s.task k)
  stage : ∀ k, s'.stage k = w.onStage k (s.stage k)
  job : ∀ k, s'.job k = w.onJob k (s.job k)

theorem wrote_nothing {s s' : ClusterState} (tasks : s'.tasks = s.tasks)
    (stages : s'.stages = s.stages) (jobs : s'.jobs = s.jobs) : Wrote .nothing s s' :=
  ⟨fun k => congrArg (·.get k) tasks, fun k => congrArg (·.get k) stages,
    fun k => congrArg (·.get k) jobs⟩

theorem wrote_task {s s' : ClusterState} {t : Task} (tasks : s'.tasks = s.tasks.insert t.id t)
    (stages : s'.stages = s.stages) (jobs : s'.jobs = s.jobs) : Wrote (.task t) s s' :=
  ⟨fun k => (congrArg (·.get k) tasks).trans (InsertionMap.get_insert _ _ _ _),
    fun k => congrArg (·.get k) stages, fun k => congrArg (·.get k) jobs⟩

theorem wrote_stage {s s' : ClusterState} {st : Stage} (tasks : s'.tasks = s.tasks)
    (stages : s'.stages = s.stages.insert st.id st) (jobs : s'.jobs = s.jobs) :
    Wrote (.stage st) s s' :=
  ⟨fun k => congrArg (·.get k) tasks,
    fun k => (congrArg (·.get k) stages).trans (InsertionMap.get_insert _ _ _ _),
    fun k => congrArg (·.get k) jobs⟩

theorem wrote_job {s s' : ClusterState} {j : Job} (tasks : s'.tasks = s.tasks)
    (stages : s'.stages = s.stages) (jobs : s'.jobs = s.jobs.insert j.id j) :
    Wrote (.job j) s s' :=
  ⟨fun k => congrArg (·.get k) tasks, fun k => congrArg (·.get k) stages,
    fun k => (congrArg (·.get k) jobs).trans (InsertionMap.get_insert _ _ _ _)⟩

/-- The moves from phase to phase: operation, answer, next phase and entry stored. -/
inductive Move : Phase → (o : Op) → o.Resp → Phase → Write → Prop where
  | stageInsert (b : Submission) :
      Move (.stageInsert b) (.insertStage b.stage) () (.stageRead b) (.stage b.stage)
  | stageFound (b : Submission) (stage : Stage) :
      Move (.stageRead b) (.stage b.stageId) (some stage) (.taskInsert b stage.tasks) .nothing
  | stageLost (b : Submission) : Move (.stageRead b) (.stage b.stageId) none .crashed .nothing
  | taskInsert (b : Submission) (task : Task) (rest : List Task) :
      Move (.taskInsert b (task :: rest)) (.insertTask task) () (.taskInsert b rest) (.task task)
  | jobInsert (b : Submission) :
      Move (.taskInsert b []) (.insertJob b.plannedJob) () (.jobStart b) (.job b.plannedJob)
  | jobStart (b : Submission) :
      Move (.jobStart b) (.updateJob b.startedJob) () (.jobShow b) (.job b.startedJob)
  | jobShow (b : Submission) (found : Option Job) :
      Move (.jobShow b) (.job b.jobId) found (.submitted b) .nothing
  | popFound (workerId : String) (task : Task) :
      Move (.pop workerId) .popPendingTask (some task)
        (.assignTask (Task.assignTo task workerId)) .nothing
  | popNone (workerId : String) : Move (.pop workerId) .popPendingTask none .idle .nothing
  | assignTask (task : Task) :
      Move (.assignTask task) (.updateTask task) () (.assignRead task) (.task task)
  | assignFound (task : Task) (stage : Stage) :
      Move (.assignRead task) (.stage task.stageId) (some stage) (.assignWrite task stage) .nothing
  | assignLost (task : Task) :
      Move (.assignRead task) (.stage task.stageId) none (.handed task) .nothing
  | assignWrite (task : Task) (stage : Stage) :
      Move (.assignWrite task stage) (.updateStage (Stage.withAssigned stage task)) ()
        (.handed task) (.stage (Stage.withAssigned stage task))
  | findFound (r : Report) (task : Task) :
      Move (.find r) (.task r.taskId) (some task) (.report r task) .nothing
  | findNone (r : Report) : Move (.find r) (.task r.taskId) none (.missing r) .nothing
  | report (r : Report) (task : Task) :
      Move (.report r task) (.updateTask (Task.withReport task r)) () (.slotRead r task)
        (.task (Task.withReport task r))
  | slotFound (r : Report) (task : Task) (stage : Stage) :
      Move (.slotRead r task) (.stage task.stageId) (some stage) (.slotWrite r task stage) .nothing
  | slotLost (r : Report) (task : Task) :
      Move (.slotRead r task) (.stage task.stageId) none (.tasksRead r task) .nothing
  | slotWrite (r : Report) (task : Task) (stage : Stage) :
      Move (.slotWrite r task stage)
        (.updateStage (Stage.withReport stage (Task.withReport task r))) () (.tasksRead r task)
        (.stage (Stage.withReport stage (Task.withReport task r)))
  | tasksRead (r : Report) (task : Task) (tasks : List Task) :
      Move (.tasksRead r task) (.tasksForJob task.jobId) tasks (.jobRead r task tasks) .nothing
  | jobFound (r : Report) (task : Task) (tasks : List Task) (job : Job) :
      Move (.jobRead r task tasks) (.job task.jobId) (some job) (.jobWrite r task tasks job)
        .nothing
  | jobLost (r : Report) (task : Task) (tasks : List Task) :
      Move (.jobRead r task tasks) (.job task.jobId) none .crashed .nothing
  | jobWrite (r : Report) (task : Task) (tasks : List Task) (job : Job) :
      Move (.jobWrite r task tasks job) (.updateJob (Job.rolledUp job tasks r.rolledUpAt)) ()
        (.finished r task) (.job (Job.rolledUp job tasks r.rolledUpAt))

theorem op_moves {g : Phase} {o : Op} (next : g.op = some o) (found : o.Resp) :
    Move g o found (g.next o found) g.write := by
  cases g with
  | stageInsert b => obtain rfl := Option.some.inj next; exact .stageInsert b
  | stageRead b =>
    obtain rfl := Option.some.inj next
    cases found with
    | none => exact .stageLost b
    | some stage => exact .stageFound b stage
  | taskInsert b todo =>
    cases todo with
    | nil => obtain rfl := Option.some.inj next; exact .jobInsert b
    | cons task rest => obtain rfl := Option.some.inj next; exact .taskInsert b task rest
  | jobStart b => obtain rfl := Option.some.inj next; exact .jobStart b
  | jobShow b => obtain rfl := Option.some.inj next; exact .jobShow b found
  | pop workerId =>
    obtain rfl := Option.some.inj next
    cases found with
    | none => exact .popNone workerId
    | some task => exact .popFound workerId task
  | assignTask task => obtain rfl := Option.some.inj next; exact .assignTask task
  | assignRead task =>
    obtain rfl := Option.some.inj next
    cases found with
    | none => exact .assignLost task
    | some stage => exact .assignFound task stage
  | assignWrite task stage => obtain rfl := Option.some.inj next; exact .assignWrite task stage
  | find r =>
    obtain rfl := Option.some.inj next
    cases found with
    | none => exact .findNone r
    | some task => exact .findFound r task
  | report r task => obtain rfl := Option.some.inj next; exact .report r task
  | slotRead r task =>
    obtain rfl := Option.some.inj next
    cases found with
    | none => exact .slotLost r task
    | some stage => exact .slotFound r task stage
  | slotWrite r task stage => obtain rfl := Option.some.inj next; exact .slotWrite r task stage
  | tasksRead r task => obtain rfl := Option.some.inj next; exact .tasksRead r task found
  | jobRead r task tasks =>
    obtain rfl := Option.some.inj next
    cases found with
    | none => exact .jobLost r task tasks
    | some job => exact .jobFound r task tasks job
  | jobWrite r task tasks job =>
    obtain rfl := Option.some.inj next
    exact .jobWrite r task tasks job
  | submitted _ | refused | handed _ | idle | finished _ _ | missing _ | crashed =>
    exact absurd next (by simp [Phase.op])

theorem move_wrote {g g' : Phase} {o : Op} {found : o.Resp} {w : Write}
    (move : Move g o found g' w) (s : ClusterState) : Wrote w s (Op.exec o s).1 := by
  cases move with
  | stageInsert | assignWrite | slotWrite => exact wrote_stage rfl rfl rfl
  | taskInsert | assignTask | report => exact wrote_task rfl rfl rfl
  | jobInsert | jobStart | jobWrite => exact wrote_job rfl rfl rfl
  | popFound | popNone =>
    simp only [Op.exec, ClusterState.popPendingTask]
    split <;> exact wrote_nothing rfl rfl rfl
  | _ => exact wrote_nothing rfl rfl rfl

theorem move_tracks [SqlParser] [PlanDebug] {c : MasterCall} {g g' : Phase} {o : Op}
    {found : o.Resp} {w : Write} (move : Move g o found g' w) (tracks : Tracks c g) :
    Tracks c g' := by
  cases move with
  | stageLost | jobLost => exact trivial
  | _ => exact tracks

end Writes

section Reads

structure Reads where
  task : Option Task
  stage : Option Stage
  job : Option Job
  tasks : List Task

def Reads.note (reads : Reads) : Event clusterInterface → Reads
  | ⟨_, .task _, found⟩ => { reads with task := found }
  | ⟨_, .popPendingTask, found⟩ => { reads with task := found }
  | ⟨_, .stage _, found⟩ => { reads with stage := found }
  | ⟨_, .job _, found⟩ => { reads with job := found }
  | ⟨_, .tasksForJob _, tasks⟩ => { reads with tasks := tasks }
  | _ => reads

def readsOf (history : List (Event clusterInterface)) (i : Nat) : Reads :=
  (history.filter (·.thread = i)).foldl Reads.note ⟨none, none, none, []⟩

theorem readsOf_same (history : List (Event clusterInterface)) (e : Event clusterInterface) :
    readsOf (history ++ [e]) e.thread = (readsOf history e.thread).note e := by
  simp [readsOf, List.foldl_append]

theorem readsOf_other (history : List (Event clusterInterface)) {e : Event clusterInterface}
    {i : Nat} (other : e.thread ≠ i) : readsOf (history ++ [e]) i = readsOf history i := by
  simp [readsOf, other]

def Phase.Recalls (reads : Reads) : Phase → Prop
  | .stageInsert _ | .stageRead _ | .taskInsert _ _ | .jobStart _ =>
      reads.job = none ∧ reads.tasks = []
  | .assignTask task | .assignRead task => reads.task.map Task.id = some task.id
  | .assignWrite task stage => reads.task.map Task.id = some task.id ∧ reads.stage = some stage
  | .report _ task | .slotRead _ task => reads.task.map Task.id = some task.id
  | .slotWrite _ task stage =>
      reads.task.map Task.id = some task.id ∧ reads.stage = some stage
  | .jobRead _ _ tasks => reads.tasks = tasks
  | .jobWrite _ _ tasks job => reads.tasks = tasks ∧ reads.job = some job
  | _ => True

theorem move_recalls {g g' : Phase} {o : Op} {found : o.Resp} {w : Write}
    (move : Move g o found g' w) (i : Nat) {reads : Reads} (recalls : g.Recalls reads) :
    g'.Recalls (reads.note ⟨i, o, found⟩) := by
  cases move with
  | stageInsert | stageFound | taskInsert | jobInsert | assignTask | report => exact recalls
  | popFound | findFound | tasksRead => exact rfl
  | assignFound | slotFound | jobFound => exact ⟨recalls, rfl⟩
  | _ => exact trivial

end Reads

end RSparkMasterPhases
