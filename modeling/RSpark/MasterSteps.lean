import RSpark.Api

/- The master's operations and the SQL endpoint called one after another: what each call
   does to the state, and the facts about the maps and the queue that all of them keep. -/
namespace RSparkMasterSteps
open RSparkExpr RSparkPlan RSparkSqlAst RSparkPlanner RSparkExecutor
open RSparkClusterState RSparkMaster RSparkApi Calls

section States

def recordTask (s : ClusterState) (task : Task) (change : Stage → Task → Stage) : ClusterState :=
  match s.stage task.stageId with
  | none => s.updateTask task
  | some stage => (s.updateTask task).updateStage (change stage task)

def rollUpJob (s : ClusterState) (jobId : String) (now : Time) : ClusterState :=
  match s.job jobId with
  | none => s
  | some job => s.updateJob (Job.rolledUp job (s.tasksForJob jobId) now)

def runningJob (r : JobRequest) (d : SubmitDraws) : Job :=
  { submittedJob r d with
    stages := [d.stageId], status := .running, startedAt := some d.startedAt }

def submittedState (s : ClusterState) (r : JobRequest) (d : SubmitDraws)
    (partitions : List PartitionSpec) : ClusterState :=
  let tasks := stageTasks r d partitions
  let withTasks := tasks.foldl ClusterState.insertTask
    (s.insertStage (submittedStage r d partitions))
  (withTasks.insertJob { submittedJob r d with stages := [d.stageId] }).updateJob (runningJob r d)

variable (s : ClusterState) (task : Task) (change : Stage → Task → Stage)

@[simp] theorem recordTask_tasks :
    (recordTask s task change).tasks = s.tasks.insert task.id task := by
  unfold recordTask
  split <;> rfl

@[simp] theorem recordTask_jobs : (recordTask s task change).jobs = s.jobs := by
  unfold recordTask
  split <;> rfl

@[simp] theorem recordTask_order : (recordTask s task change).order = s.order := by
  unfold recordTask
  split <;> rfl

@[simp] theorem recordTask_pending :
    (recordTask s task change).pending = (s.updateTask task).pending := by
  unfold recordTask
  split <;> rfl

@[simp] theorem rollUpJob_tasks (jobId : String) (now : Time) :
    (rollUpJob s jobId now).tasks = s.tasks := by
  unfold rollUpJob
  split <;> rfl

@[simp] theorem rollUpJob_pending (jobId : String) (now : Time) :
    (rollUpJob s jobId now).pending = s.pending := by
  unfold rollUpJob
  split <;> rfl

@[simp] theorem rollUpJob_stages (jobId : String) (now : Time) :
    (rollUpJob s jobId now).stages = s.stages := by
  unfold rollUpJob
  split <;> rfl

theorem rollUpJob_tasksForJob (jobId k : String) (now : Time) :
    (rollUpJob s jobId now).tasksForJob k = s.tasksForJob k := by
  unfold rollUpJob
  split <;> rfl

theorem foldl_insertTask_jobs (ts : List Task) :
    (ts.foldl ClusterState.insertTask s).jobs = s.jobs := by
  induction ts generalizing s with
  | nil => rfl
  | cons t ts ih => exact ih _

theorem foldl_insertTask_stages (ts : List Task) :
    (ts.foldl ClusterState.insertTask s).stages = s.stages := by
  induction ts generalizing s with
  | nil => rfl
  | cons t ts ih => exact ih _

theorem foldl_insertTask_pending (ts : List Task) :
    (ts.foldl ClusterState.insertTask s).pending = s.pending ++ ts.map Task.id := by
  induction ts generalizing s with
  | nil => simp
  | cons t ts ih =>
    rw [List.foldl_cons, ih]
    simp [ClusterState.insertTask]

theorem foldl_insertTask_get (ts : List Task) {id : String} {t : Task}
    (found : (ts.foldl ClusterState.insertTask s).tasks.get id = some t) :
    (t ∈ ts ∧ t.id = id) ∨ s.tasks.get id = some t := by
  induction ts generalizing s with
  | nil => exact Or.inr found
  | cons head ts ih =>
    rcases ih _ found with ⟨mem, same⟩ | old
    · exact Or.inl ⟨List.mem_cons_of_mem _ mem, same⟩
    · rw [show (s.insertTask head).tasks = s.tasks.insert head.id head from rfl,
        InsertionMap.get_insert] at old
      split at old
      · obtain rfl := Option.some.inj old
        rename_i same
        exact Or.inl ⟨List.mem_cons_self, same.symm⟩
      · exact Or.inr old

theorem foldl_insertTask_get_other (ts : List Task) {id : String} (other : id ∉ ts.map Task.id) :
    (ts.foldl ClusterState.insertTask s).tasks.get id = s.tasks.get id := by
  induction ts generalizing s with
  | nil => rfl
  | cons head ts ih =>
    simp only [List.map_cons, List.mem_cons, not_or] at other
    rw [List.foldl_cons, ih _ other.2]
    exact InsertionMap.get_insert_other _ other.1 _

theorem foldl_insertTask_get_some (ts : List Task) {id : String} (mem : id ∈ ts.map Task.id) :
    ∃ t, (ts.foldl ClusterState.insertTask s).tasks.get id = some t := by
  induction ts generalizing s with
  | nil => exact absurd mem (by simp)
  | cons head ts ih =>
    by_cases later : id ∈ ts.map Task.id
    · exact ih _ later
    · have here : id = head.id := by
        rcases List.mem_cons.mp mem with same | below
        · exact same
        · exact absurd below later
      subst here
      rw [List.foldl_cons, foldl_insertTask_get_other _ ts later]
      exact ⟨head, InsertionMap.get_insert_self _ _ _⟩

theorem foldl_insertTask_get_mem (ts : List Task) (nodup : (ts.map Task.id).Nodup) {t : Task}
    (mem : t ∈ ts) : (ts.foldl ClusterState.insertTask s).tasks.get t.id = some t := by
  induction ts generalizing s with
  | nil => exact absurd mem (by simp)
  | cons head ts ih =>
    rw [List.map_cons, List.nodup_cons] at nodup
    rcases List.mem_cons.mp mem with rfl | later
    · rw [List.foldl_cons, foldl_insertTask_get_other _ ts nodup.1]
      exact InsertionMap.get_insert_self _ _ _
    · exact ih _ nodup.2 later

end States

section Programs
variable {ρ : Type}

theorem insertTasks_run (ts : List Task) (next : ClusterProg ρ) (s : ClusterState) :
    (insertTasks ts next).run s = next.run (ts.foldl ClusterState.insertTask s) := by
  induction ts generalizing s with
  | nil => rfl
  | cons t ts ih => exact ih _

theorem submitPlanned_run (r : JobRequest) (d : SubmitDraws) (partitions : List PartitionSpec)
    (s : ClusterState) :
    (submitPlanned r d partitions).run s =
      (submittedState s r d partitions, some (.ok (runningJob r d))) := by
  have read : (s.insertStage (submittedStage r d partitions)).stage d.stageId =
      some (submittedStage r d partitions) := InsertionMap.get_insert_self _ _ _
  have inserted : (submitPlanned r d partitions).run s =
      (insertTasks (stageTasks r d partitions)
        (announceJob { submittedJob r d with stages := [d.stageId] } d.startedAt)).run
          (s.insertStage (submittedStage r d partitions)) := by
    simp only [submitPlanned, Prog.run_call, Op.exec, read]
    rfl
  rw [inserted, insertTasks_run]
  have reread : (submittedState s r d partitions).job d.jobId = some (runningJob r d) :=
    InsertionMap.get_insert_self _ _ _
  show (submittedState s r d partitions,
    some (Except.ok (((submittedState s r d partitions).job d.jobId).getD _))) = _
  rw [reread]
  rfl

theorem submitJob_run [SqlParser] [PlanDebug] (r : JobRequest) (catalog : Catalog)
    (d : SubmitDraws) (s : ClusterState) :
    (submitJob r catalog d).run s =
      match planSql r.sql catalog with
      | .error (.error e) => (s, some (.error e))
      | .error (.abort _) => (s, none)
      | .ok plan => (submittedState s r d (planPartitions plan r.parallelism),
          some (.ok (runningJob r d))) := by
  unfold submitJob
  cases planSql r.sql catalog with
  | error fault => cases fault <;> rfl
  | ok plan => exact submitPlanned_run _ _ _ _

theorem rollUp_state (jobId : String) (now : Time) (s : ClusterState) :
    ((rollUp jobId now).run s).1 = rollUpJob s jobId now := by
  simp only [rollUp, Prog.run_call, Op.exec, rollUpJob]
  cases s.job jobId <;> rfl

theorem recordReport_state (task : Task) (now : Time) (s : ClusterState) :
    ((recordReport task now).run s).1 =
      rollUpJob (recordTask s task Stage.withReport) task.jobId now := by
  have same : (s.updateTask task).stage task.stageId = s.stage task.stageId := rfl
  simp only [recordReport, Prog.run_call, Op.exec, recordTask, same]
  cases s.stage task.stageId with
  | none => exact rollUp_state _ _ _
  | some stage => exact rollUp_state _ _ _

theorem completeTask_state (r : Report) (s : ClusterState) :
    ((completeTask r).run s).1 =
      match s.task r.taskId with
      | none => s
      | some task => rollUpJob (recordTask s (Task.withReport task r) Stage.withReport)
          task.jobId r.rolledUpAt := by
  simp only [completeTask, Prog.run_call, Op.exec]
  cases s.task r.taskId with
  | none => rfl
  | some task => exact recordReport_state _ _ _

theorem tryAssignTask_state (workerId : String) (s : ClusterState) :
    ((tryAssignTask workerId).run s).1 =
      match s.popPendingTask with
      | (s', none) => s'
      | (s', some task) => recordTask s' (Task.assignTo task workerId) Stage.withAssigned := by
  simp only [tryAssignTask, Prog.run_call, Op.exec]
  obtain ⟨s', found⟩ := s.popPendingTask
  cases found with
  | none => rfl
  | some task =>
    have same : (s'.updateTask (Task.assignTo task workerId)).stage task.stageId =
        s'.stage task.stageId := rfl
    simp only [recordAssigned, Prog.run_call, Op.exec, recordTask, Task.assignTo] at same ⊢
    rw [same]
    cases s'.stage task.stageId <;> rfl

end Programs

section Recorded

structure Touches (jobId : String) (s s' : ClusterState) : Prop where
  tasks : s'.tasks = s.tasks
  pending : s'.pending = s.pending
  others : ∀ k, k ≠ jobId → s'.job k = s.job k
  own : ∀ j, s'.job jobId = some j → j.id = jobId ∨ s.job jobId = some j
  stays : ∀ j, s.job jobId = some j → ∃ j', s'.job jobId = some j'

theorem Touches.refl (jobId : String) (s : ClusterState) : Touches jobId s s :=
  ⟨rfl, rfl, fun _ _ => rfl, fun _ found => Or.inr found, fun j found => ⟨j, found⟩⟩

theorem touches_jobs {jobId : String} {s s' : ClusterState} (tasks : s'.tasks = s.tasks)
    (pending : s'.pending = s.pending) (jobs : s'.jobs = s.jobs) : Touches jobId s s' := by
  refine ⟨tasks, pending, fun k _ => ?_, fun j found => Or.inr ?_, fun j found => ⟨j, ?_⟩⟩
  · rw [ClusterState.job, jobs, ClusterState.job]
  · rwa [ClusterState.job, jobs] at found
  · rwa [ClusterState.job, jobs]

theorem Touches.trans {jobId : String} {a b c : ClusterState} (first : Touches jobId a b)
    (second : Touches jobId b c) : Touches jobId a c := by
  refine ⟨second.tasks.trans first.tasks, second.pending.trans first.pending, ?_, ?_, ?_⟩
  · intro k other
    exact (second.others k other).trans (first.others k other)
  · intro j found
    rcases second.own j found with named | before
    · exact Or.inl named
    · exact first.own j before
  · intro j found
    obtain ⟨j', found'⟩ := first.stays j found
    exact second.stays j' found'

theorem touches_insertJob (s : ClusterState) {job : Job} {jobId : String}
    (named : job.id = jobId) : Touches jobId s (s.insertJob job) := by
  subst named
  have read : (s.insertJob job).job job.id = some job := InsertionMap.get_insert_self _ _ _
  refine ⟨rfl, rfl, fun k other => InsertionMap.get_insert_other _ other _, fun j found => ?_,
    fun _ _ => ⟨job, read⟩⟩
  obtain rfl := Option.some.inj (read.symm.trans found)
  exact Or.inl rfl

theorem touches_updateJob (s : ClusterState) {job : Job} {jobId : String}
    (named : job.id = jobId) : Touches jobId s (s.updateJob job) := touches_insertJob s named

def IsNew (d : SubmitDraws) (t : Task) : Prop :=
  ∃ i label sql, t = Task.new (d.taskIds i) d.jobId d.stageId label sql

theorem stageTasks_new {r : JobRequest} {d : SubmitDraws} {partitions : List PartitionSpec}
    {t : Task} (mem : t ∈ stageTasks r d partitions) : IsNew d t := by
  obtain ⟨i, bound, rfl⟩ := List.mem_mapIdx.mp mem
  exact ⟨i, partitions[i].label, r.sql, rfl⟩

/-- What a submission leaves behind: its tasks, and a job under its own identifier. -/
def Recorded (d : SubmitDraws) (s s' : ClusterState) : Prop :=
  ∃ ts : List Task, (∀ t ∈ ts, IsNew d t) ∧
    Touches d.jobId (ts.foldl ClusterState.insertTask s) s' ∧
    (ts = [] ∨ ∃ j, s'.job d.jobId = some j)

theorem Recorded.refl (d : SubmitDraws) (s : ClusterState) : Recorded d s s :=
  ⟨[], by simp, Touches.refl _ _, Or.inl rfl⟩

theorem Recorded.andThen {d : SubmitDraws} {s s' s'' : ClusterState} (first : Recorded d s s')
    (second : Touches d.jobId s' s'') : Recorded d s s'' := by
  obtain ⟨ts, isNew, touches, homed⟩ := first
  refine ⟨ts, isNew, touches.trans second, homed.imp id ?_⟩
  rintro ⟨j, found⟩
  exact second.stays j found

theorem foldl_insertTask_insertStage (s : ClusterState) (stage : Stage) (ts : List Task) :
    ts.foldl ClusterState.insertTask (s.insertStage stage) =
      (ts.foldl ClusterState.insertTask s).insertStage stage := by
  induction ts generalizing s with
  | nil => rfl
  | cons t ts ih => exact ih (s.insertTask t)

theorem submittedState_recorded (s : ClusterState) (r : JobRequest) (d : SubmitDraws)
    (partitions : List PartitionSpec) : Recorded d s (submittedState s r d partitions) := by
  refine ⟨stageTasks r d partitions, fun t mem => stageTasks_new mem, ?_,
    Or.inr ⟨_, InsertionMap.get_insert_self _ _ _⟩⟩
  simp only [submittedState, foldl_insertTask_insertStage]
  have stage : Touches d.jobId ((stageTasks r d partitions).foldl ClusterState.insertTask s)
      (((stageTasks r d partitions).foldl ClusterState.insertTask s).insertStage
        (submittedStage r d partitions)) := touches_jobs rfl rfl rfl
  exact (stage.trans (touches_insertJob _ rfl)).trans (touches_updateJob _ rfl)

theorem submitJob_recorded [SqlParser] [PlanDebug] (r : JobRequest) (catalog : Catalog)
    (d : SubmitDraws) (s : ClusterState) : Recorded d s ((submitJob r catalog d).run s).1 := by
  rw [submitJob_run]
  cases planSql r.sql catalog with
  | error fault => cases fault <;> exact Recorded.refl d s
  | ok plan => exact submittedState_recorded _ _ _ _

theorem submitJobSkipPlan_recorded (r : JobRequest) (d : SubmitDraws) (s : ClusterState) :
    Recorded d s ((submitJobSkipPlan r d).run s).1 :=
  (Recorded.refl d s).andThen (touches_insertJob s rfl)

theorem touches_incRunningRound (jobId : String) (s : ClusterState) :
    Touches jobId s s.incRunningRound := touches_jobs rfl rfl rfl

theorem touches_recordCompletedRound (jobId : String) (s : ClusterState) :
    Touches jobId s s.recordCompletedRound := touches_jobs rfl rfl rfl

theorem answerShowCreate_touches (catalog : Catalog) (tableName : String) (finishedAt : Time)
    (job : Job) (s : ClusterState) :
    Touches job.id s ((answerShowCreate catalog tableName finishedAt job).run s).1 := by
  simp only [answerShowCreate, Prog.run_call, Op.exec]
  cases renderCreateTable catalog tableName with
  | error fault => cases fault <;> exact touches_incRunningRound _ s
  | ok ddl =>
    have written : Touches job.id s.incRunningRound
        (s.incRunningRound.updateJob (Job.succeededWith job 1 finishedAt)) :=
      touches_updateJob _ rfl
    exact ((touches_incRunningRound _ s).trans written).trans (touches_recordCompletedRound _ _)

theorem finishQuery_touches (job : Job) (outcome : RSparkValue.Result RSparkBatch.RecordBatch)
    (finishedAt : Time) (s : ClusterState) :
    Touches job.id s ((finishQuery job outcome finishedAt).run s).1 := by
  cases outcome with
  | error fault =>
    cases fault with
    | abort message => exact Touches.refl _ _
    | error e => exact touches_updateJob s rfl
  | ok batch =>
    have written : Touches job.id s
        (s.updateJob (Job.succeededWith job batch.len finishedAt)) := touches_updateJob s rfl
    exact (written.trans (touches_incRunningRound _ _)).trans (touches_recordCompletedRound _ _)

theorem afterSubmit_recorded {d : SubmitDraws} {p : ClusterProg (Answer Job)} {s : ClusterState}
    {next : Job → ClusterProg Response} (first : Recorded d s (p.run s).1)
    (own : ∀ job, (p.run s).2 = some (.ok job) → job.id = d.jobId)
    (touches : ∀ job s', Touches job.id s' ((next job).run s').1) :
    Recorded d s ((p.bind (afterSubmit next)).run s).1 := by
  rw [Prog.run_bind]
  rcases ran : p.run s with ⟨s', result⟩
  rw [ran] at first own
  cases result with
  | none => exact first
  | some answer =>
    cases answer with
    | error e => exact first
    | ok job =>
      have later := touches job s'
      rw [own job rfl] at later
      exact first.andThen later

variable [Regex] [SqlParser] [PlanDebug]

theorem answerQuery_touches (ctx : ExecutionContext) (catalog : Catalog) (sql : String)
    (finishedAt : Time) (job : Job) (s : ClusterState) :
    Touches job.id s ((answerQuery ctx catalog sql finishedAt job).run s).1 := by
  have counted := touches_incRunningRound job.id s
  simp only [answerQuery, Prog.run_call, Op.exec]
  cases planSql sql catalog with
  | error fault => cases fault <;> exact counted
  | ok plan => exact counted.trans (finishQuery_touches _ _ _ _)

theorem executeSql_recorded (ctx : ExecutionContext) (submitted catalog : Catalog)
    (body : ExecuteSqlRequest) (d : SqlDraws) (s : ClusterState) :
    Recorded d.submit s ((executeSql ctx submitted catalog body d).run s).1 := by
  unfold executeSql
  rcases tryShowCreate body.sql with fault | _ | tableName
  · cases fault <;> exact Recorded.refl _ _
  · refine afterSubmit_recorded (submitJob_recorded _ _ _ s) (fun job answered => ?_)
      (fun job s' => answerQuery_touches _ _ _ _ job s')
    rw [submitJob_run] at answered
    cases planned : planSql (jobRequestOf body).sql submitted with
    | error fault => cases fault <;> simp [planned] at answered
    | ok plan =>
      simp only [planned, Option.some.injEq, Except.ok.injEq] at answered
      exact answered ▸ rfl
  · refine afterSubmit_recorded (submitJobSkipPlan_recorded _ _ s) (fun job answered => ?_)
      (fun job s' => answerShowCreate_touches _ _ _ job s')
    simp only [submitJobSkipPlan, Prog.run_call, Prog.run_ret, Option.some.injEq,
      Except.ok.injEq] at answered
    exact answered ▸ rfl

end Recorded

section Sequential

/-- A call made while no other is under way. -/
inductive SequentialCall where
  | submit (r : JobRequest) (catalog : Catalog) (d : SubmitDraws)
  | skipPlan (r : JobRequest) (d : SubmitDraws)
  | assign (workerId : String)
  | complete (r : Report)
  | sql (ctx : ExecutionContext) (submitted catalog : Catalog) (body : ExecuteSqlRequest)
      (d : SqlDraws)

def SequentialCall.draws : SequentialCall → Option SubmitDraws
  | .submit _ _ d => some d
  | .skipPlan _ d => some d
  | .assign _ => none
  | .complete _ => none
  | .sql _ _ _ _ d => some d.submit

def SequentialCall.report : SequentialCall → Option Report
  | .complete r => some r
  | _ => none

/-- The identifiers drawn are not in use. -/
structure FreshIn (s : ClusterState) (d : SubmitDraws) : Prop where
  job : s.job d.jobId = none
  tasks : ∀ i, s.task (d.taskIds i) = none

def DrawsFresh (s : ClusterState) (c : SequentialCall) : Prop :=
  ∀ d, c.draws = some d → FreshIn s d

/-- What all calls keep: entries stand under their own identifiers, and the queue holds
    tasks that nobody has reported. Every task has its job. -/
structure Sound (s : ClusterState) : Prop where
  taskKeys : TasksKeyed s
  jobKeys : ∀ k j, s.job k = some j → j.id = k
  queued : ∀ id ∈ s.pending, ∃ t, s.task id = some t ∧ t.status.isTerminal = false
  homed : ∀ k t, s.task k = some t → ∃ j, s.job t.jobId = some j

theorem new_sound (masterId : String) (order : HashOrder) :
    Sound (ClusterState.new masterId order) := by
  refine ⟨?_, ?_, ?_, ?_⟩
  · intro k t found
    exact absurd found (by simp [ClusterState.task, ClusterState.new])
  · intro k j found
    exact absurd found (by simp [ClusterState.job, ClusterState.new])
  · intro id mem
    exact absurd mem (by simp [ClusterState.new])
  · intro k t found
    exact absurd found (by simp [ClusterState.task, ClusterState.new])

theorem isNew_open {d : SubmitDraws} {t : Task} (isNew : IsNew d t) :
    t.status.isTerminal = false := by
  obtain ⟨i, label, sql, rfl⟩ := isNew
  rfl

theorem isNew_fresh {s : ClusterState} {d : SubmitDraws} {t : Task} (fresh : FreshIn s d)
    (isNew : IsNew d t) : s.task t.id = none := by
  obtain ⟨i, label, sql, rfl⟩ := isNew
  exact fresh.tasks i

theorem recorded_task {d : SubmitDraws} {s s' : ClusterState} (recorded : Recorded d s s')
    {id : String} {t : Task} (found : s'.task id = some t) :
    (IsNew d t ∧ t.id = id) ∨ s.task id = some t := by
  obtain ⟨ts, isNew, touches, _⟩ := recorded
  rw [ClusterState.task, touches.tasks] at found
  rcases foldl_insertTask_get s ts found with ⟨mem, same⟩ | old
  · exact Or.inl ⟨isNew t mem, same⟩
  · exact Or.inr old

theorem submitted_task {s : ClusterState} {d : SubmitDraws} (fresh : FreshIn s d)
    (r : JobRequest) (partitions : List PartitionSpec) {id : String}
    (mem : id ∈ (stageTasks r d partitions).map Task.id) :
    ∃ t, (submittedState s r d partitions).task id = some t ∧ IsNew d t := by
  obtain ⟨t, found⟩ :=
    foldl_insertTask_get_some (s.insertStage (submittedStage r d partitions)) _ mem
  refine ⟨t, found, ?_⟩
  rcases foldl_insertTask_get _ _ found with ⟨new, _⟩ | old
  · exact stageTasks_new new
  · obtain ⟨t', new, rfl⟩ := List.mem_map.mp mem
    exact nomatch (isNew_fresh fresh (stageTasks_new new)).symm.trans old

theorem recorded_keeps_task {d : SubmitDraws} {s s' : ClusterState} (fresh : FreshIn s d)
    (recorded : Recorded d s s') {id : String} {t : Task} (found : s.task id = some t) :
    s'.task id = some t := by
  obtain ⟨ts, isNew, touches, _⟩ := recorded
  have other : id ∉ ts.map Task.id := by
    intro mem
    obtain ⟨t', mem', rfl⟩ := List.mem_map.mp mem
    exact absurd found (by simp [isNew_fresh fresh (isNew t' mem')])
  rw [ClusterState.task, touches.tasks, foldl_insertTask_get_other s ts other]
  exact found

theorem recorded_keeps_job {d : SubmitDraws} {s s' : ClusterState} (fresh : FreshIn s d)
    (recorded : Recorded d s s') {k : String} {j : Job} (found : s.job k = some j) :
    s'.job k = some j := by
  obtain ⟨ts, isNew, touches, _⟩ := recorded
  have other : k ≠ d.jobId := by
    rintro rfl
    exact absurd found (by simp [fresh.job])
  rw [touches.others k other, ClusterState.job, foldl_insertTask_jobs]
  exact found

theorem recorded_sound {d : SubmitDraws} {s s' : ClusterState} (sound : Sound s)
    (fresh : FreshIn s d) (recorded : Recorded d s s') : Sound s' := by
  have known := recorded
  obtain ⟨ts, isNew, touches, homed⟩ := recorded
  refine ⟨?_, ?_, ?_, ?_⟩
  · intro k t found
    rcases recorded_task known found with ⟨_, same⟩ | old
    · exact same
    · exact sound.taskKeys k t old
  · have jobs (k : String) : (ts.foldl ClusterState.insertTask s).job k = s.job k := by
      rw [ClusterState.job, foldl_insertTask_jobs, ClusterState.job]
    intro k j found
    by_cases same : k = d.jobId
    · subst same
      rcases touches.own j found with named | old
      · exact named
      · exact absurd old (by simp [jobs, fresh.job])
    · rw [touches.others k same, jobs] at found
      exact sound.jobKeys k j found
  · intro id mem
    rw [touches.pending, foldl_insertTask_pending] at mem
    rcases List.mem_append.mp mem with old | new
    · obtain ⟨t, found, isOpen⟩ := sound.queued id old
      exact ⟨t, recorded_keeps_task fresh known found, isOpen⟩
    · obtain ⟨t, found⟩ : ∃ t, s'.task id = some t := by
        rw [ClusterState.task, touches.tasks]
        exact foldl_insertTask_get_some s ts new
      rcases recorded_task known found with ⟨isNew', _⟩ | old
      · exact ⟨t, found, isNew_open isNew'⟩
      · obtain ⟨t', mem', rfl⟩ := List.mem_map.mp new
        exact absurd old (by simp [isNew_fresh fresh (isNew t' mem')])
  · intro k t found
    rcases recorded_task known found with ⟨⟨i, label, sql, rfl⟩, rfl⟩ | old
    · rcases homed with rfl | own
      · have absent := isNew_fresh fresh ⟨i, label, sql, rfl⟩
        rw [ClusterState.task, touches.tasks] at found
        exact nomatch absent.symm.trans found
      · exact own
    · obtain ⟨j, found⟩ := sound.homed k t old
      exact ⟨j, recorded_keeps_job fresh known found⟩

theorem updateTask_pending_open {s : ClusterState} {t : Task}
    (isOpen : t.status.isTerminal = false) : (s.updateTask t).pending = s.pending := by
  simp [ClusterState.updateTask, isOpen]

theorem updateTask_pending_done {s : ClusterState} {t : Task}
    (done : t.status.isTerminal = true) {id : String} (mem : id ∈ (s.updateTask t).pending) :
    id ∈ s.pending ∧ (id = t.id → s.wasTerminal id = true) := by
  simp only [ClusterState.updateTask, done, Bool.and_true] at mem
  split at mem
  · obtain ⟨inside, other⟩ := List.mem_filter.mp mem
    exact ⟨inside, fun same => absurd same (by simpa using other)⟩
  · rename_i again
    refine ⟨mem, fun same => ?_⟩
    rw [same]
    simpa using again

theorem withReport_done (task : Task) (r : Report) :
    (Task.withReport task r).status.isTerminal = true := by
  cases r with
  | mk taskId rows success error reportedAt rolledUpAt => cases success <;> rfl

theorem rollUpJob_reads {s : ClusterState} {jobId : String} {j : Job} (now : Time)
    (known : s.job jobId = some j) (named : j.id = jobId) :
    (rollUpJob s jobId now).job jobId = some (Job.rolledUp j (s.tasksForJob jobId) now) := by
  unfold rollUpJob
  rw [known]
  show (s.jobs.insert (Job.rolledUp j (s.tasksForJob jobId) now).id _).get jobId = _
  rw [rolledUp_id, named, InsertionMap.get_insert_self]

theorem rollUpJob_other {s : ClusterState} {jobId k : String} {now : Time}
    (named : ∀ j, s.job jobId = some j → j.id = jobId) (other : k ≠ jobId) :
    (rollUpJob s jobId now).job k = s.job k := by
  unfold rollUpJob
  split
  · rfl
  · rename_i j known
    rw [ClusterState.job, ClusterState.updateJob, rolledUp_id, named j known]
    exact InsertionMap.get_insert_other _ other _

theorem recordTask_job {s : ClusterState} {task : Task} {change : Stage → Task → Stage}
    (k : String) : (recordTask s task change).job k = s.job k := by
  rw [ClusterState.job, recordTask_jobs, ClusterState.job]

theorem rollUpJob_stays {s : ClusterState} {jobId k : String} {now : Time} {j : Job}
    (named : ∀ j, s.job jobId = some j → j.id = jobId) (found : s.job k = some j) :
    ∃ j', (rollUpJob s jobId now).job k = some j' := by
  by_cases own : k = jobId
  · subst own
    exact ⟨_, rollUpJob_reads _ found (named j found)⟩
  · exact ⟨j, (rollUpJob_other named own).trans found⟩

theorem reported_task {s : ClusterState} (task : Task) (r : Report) (k : String) :
    (rollUpJob (recordTask s (Task.withReport task r) Stage.withReport) task.jobId
      r.rolledUpAt).task k = if k = task.id then some (Task.withReport task r) else s.task k := by
  rw [ClusterState.task, rollUpJob_tasks, recordTask_tasks]
  exact InsertionMap.get_insert _ _ _ _

theorem reported_job (sound : Sound s) {r : Report} {task : Task} {old : Job}
    (owner : s.job task.jobId = some old) (k : String) :
    (rollUpJob (recordTask s (Task.withReport task r) Stage.withReport) task.jobId
      r.rolledUpAt).job k =
      if k = task.jobId then some (Job.rolledUp old
        ((recordTask s (Task.withReport task r) Stage.withReport).tasksForJob task.jobId)
        r.rolledUpAt) else s.job k := by
  have keys (j : Job) (found : (recordTask s (Task.withReport task r) Stage.withReport).job
      task.jobId = some j) : j.id = task.jobId :=
    sound.jobKeys _ j (recordTask_job task.jobId ▸ found)
  have read : (recordTask s (Task.withReport task r) Stage.withReport).job task.jobId =
      some old := (recordTask_job task.jobId).trans owner
  split
  · rename_i own
    rw [own]
    exact rollUpJob_reads _ read (keys old read)
  · rename_i other
    rw [rollUpJob_other keys other, recordTask_job]

/-- After a task was written again, every task is still stored under its identifier and
    belongs to a job that is there. -/
theorem rewritten_kept {s s' : ClusterState} (sound : Sound s) {task task' : Task} {id : String}
    (known : s.task id = some task)
    (written : ∀ k, s'.task k = if k = task.id then some task' else s.task k)
    (sameId : task'.id = task.id) (sameJob : task'.jobId = task.jobId) {k : String} {t : Task}
    (found : s'.task k = some t) : t.id = k ∧ ∃ j, s.job t.jobId = some j := by
  rw [written] at found
  split at found
  · rename_i here
    obtain rfl := Option.some.inj found
    rw [sameJob]
    exact ⟨sameId.trans here.symm, sound.homed _ task known⟩
  · exact ⟨sound.taskKeys k t found, sound.homed k t found⟩

theorem completeTask_sound {s : ClusterState} (sound : Sound s) (r : Report) :
    Sound ((completeTask r).run s).1 := by
  rw [completeTask_state]
  cases known : s.task r.taskId with
  | none => exact sound
  | some task =>
    have named := sound.taskKeys _ _ known
    have written := reported_task (s := s) task r
    have keys (j : Job) (found : (recordTask s (Task.withReport task r) Stage.withReport).job
        task.jobId = some j) : j.id = task.jobId :=
      sound.jobKeys _ j (recordTask_job task.jobId ▸ found)
    refine ⟨?_, ?_, ?_, ?_⟩
    · intro k t found
      exact (rewritten_kept sound known written rfl rfl found).1
    · intro k j found
      obtain ⟨old, owner⟩ := sound.homed _ task known
      rw [reported_job sound owner] at found
      split at found
      · rename_i own
        obtain rfl := Option.some.inj found
        rw [rolledUp_id, own]
        exact sound.jobKeys _ old owner
      · exact sound.jobKeys k j found
    · intro id mem
      rw [rollUpJob_pending, recordTask_pending] at mem
      obtain ⟨inside, reported⟩ := updateTask_pending_done (withReport_done task r) mem
      obtain ⟨t, found, isOpen⟩ := sound.queued id inside
      have other : id ≠ task.id := by
        intro here
        have again := reported here
        simp [ClusterState.wasTerminal, found, isOpen] at again
      refine ⟨t, ?_, isOpen⟩
      rw [written, if_neg other]
      exact found
    · intro k t found
      obtain ⟨_, j, owner⟩ := rewritten_kept sound known written rfl rfl found
      exact rollUpJob_stays keys ((recordTask_job t.jobId).trans owner)

theorem tryAssignTask_cases {s : ClusterState} (sound : Sound s) (workerId : String) :
    ((tryAssignTask workerId).run s).1 = s ∨
      ∃ task rest, s.pending = task.id :: rest ∧ s.task task.id = some task ∧
        ((tryAssignTask workerId).run s).1 =
          recordTask { s with pending := rest } (Task.assignTo task workerId)
            Stage.withAssigned := by
  rw [tryAssignTask_state]
  cases waiting : s.pending with
  | nil => exact Or.inl (by simp [ClusterState.popPendingTask, waiting])
  | cons id rest =>
    obtain ⟨task, found, _⟩ := sound.queued id (by simp [waiting])
    obtain rfl := sound.taskKeys _ _ found
    have taken : s.popPendingTask = ({ s with pending := rest }, some task) := by
      rw [ClusterState.task] at found
      simp [ClusterState.popPendingTask, waiting, found]
    rw [taken]
    exact Or.inr ⟨task, rest, rfl, found, rfl⟩

theorem popped_open {s : ClusterState} (sound : Sound s) {task : Task} {rest : List String}
    (waiting : s.pending = task.id :: rest) (known : s.task task.id = some task) :
    task.status.isTerminal = false := by
  obtain ⟨t, found, isOpen⟩ := sound.queued task.id (by simp [waiting])
  obtain rfl := Option.some.inj (known.symm.trans found)
  exact isOpen

theorem assigned_task (s : ClusterState) (rest : List String) (task : Task) (workerId : String)
    (k : String) : (recordTask { s with pending := rest } (Task.assignTo task workerId)
        Stage.withAssigned).task k =
      if k = task.id then some (Task.assignTo task workerId) else s.task k := by
  rw [ClusterState.task, recordTask_tasks]
  exact InsertionMap.get_insert _ _ _ _

theorem tryAssignTask_sound {s : ClusterState} (sound : Sound s) (workerId : String) :
    Sound ((tryAssignTask workerId).run s).1 := by
  rcases tryAssignTask_cases sound workerId with same | ⟨task, rest, waiting, known, same⟩
  · rw [same]
    exact sound
  · rw [same]
    have written := assigned_task s rest task workerId
    refine ⟨?_, ?_, ?_, ?_⟩
    · intro k t found
      exact (rewritten_kept sound known written rfl rfl found).1
    · intro k j found
      rw [ClusterState.job, recordTask_jobs] at found
      exact sound.jobKeys k j found
    · intro id mem
      rw [recordTask_pending, updateTask_pending_open rfl] at mem
      obtain ⟨t, found, isOpen⟩ := sound.queued id (waiting ▸ List.mem_cons_of_mem _ mem)
      rw [written]
      split
      · exact ⟨_, rfl, rfl⟩
      · exact ⟨t, found, isOpen⟩
    · intro k t found
      obtain ⟨_, j, owner⟩ := rewritten_kept sound known written rfl rfl found
      exact ⟨j, (recordTask_job t.jobId).trans owner⟩

variable [Regex] [SqlParser] [PlanDebug]

def SequentialCall.after (c : SequentialCall) (s : ClusterState) : ClusterState :=
  match c with
  | .submit r catalog d => ((submitJob r catalog d).run s).1
  | .skipPlan r d => ((submitJobSkipPlan r d).run s).1
  | .assign workerId => ((tryAssignTask workerId).run s).1
  | .complete r => ((completeTask r).run s).1
  | .sql ctx submitted catalog body d => ((executeSql ctx submitted catalog body d).run s).1

theorem after_recorded {c : SequentialCall} {d : SubmitDraws} (drew : c.draws = some d)
    (s : ClusterState) : Recorded d s (c.after s) := by
  cases c with
  | submit r catalog d' =>
    obtain rfl := Option.some.inj drew
    exact submitJob_recorded _ _ _ _
  | skipPlan r d' =>
    obtain rfl := Option.some.inj drew
    exact submitJobSkipPlan_recorded _ _ _
  | assign workerId => exact absurd drew (by simp [SequentialCall.draws])
  | complete r => exact absurd drew (by simp [SequentialCall.draws])
  | sql ctx submitted catalog body d' =>
    obtain rfl := Option.some.inj drew
    exact executeSql_recorded _ _ _ _ _ _

theorem after_sound {s : ClusterState} {c : SequentialCall} (sound : Sound s)
    (fresh : DrawsFresh s c) : Sound (c.after s) := by
  cases c with
  | submit r catalog d => exact recorded_sound sound (fresh d rfl) (after_recorded rfl s)
  | skipPlan r d => exact recorded_sound sound (fresh d rfl) (after_recorded rfl s)
  | assign workerId => exact tryAssignTask_sound sound workerId
  | complete r => exact completeTask_sound sound r
  | sql ctx submitted catalog body d =>
    exact recorded_sound sound (fresh _ rfl) (after_recorded rfl s)

abbrev Session := Steps SequentialCall.after DrawsFresh

theorem session_sound {masterId : String} {order : HashOrder} {calls : List SequentialCall}
    {s : ClusterState} (session : Session (ClusterState.new masterId order) calls s) : Sound s :=
  session.invariant (new_sound masterId order) after_sound

end Sequential

section Sample

def sampleAfter : SequentialCall → ClusterState → ClusterState :=
  @SequentialCall.after noRegex usersParser noDebug

end Sample

end RSparkMasterSteps
