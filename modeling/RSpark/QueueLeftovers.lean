import RSpark.SqlEndpoint
import RSpark.JobStatuses

/- Tasks left in the queue after their job has become terminal: which calls leave some, and
   that no others do. -/
namespace RSparkQueueLeftovers
open RSparkValue RSparkBatch RSparkExpr RSparkPlan RSparkSqlAst RSparkPlanner RSparkExecutor
open RSparkClusterState RSparkMaster RSparkApi RSparkMasterSteps RSparkSqlEndpoint
open RSparkJobStatuses RSparkStatusFinality Calls

section Condition

def NoneLeft (s : ClusterState) : Prop :=
  ∀ id ∈ s.pending, ∀ t j, s.task id = some t → s.job t.jobId = some j →
    j.status.isTerminal = false

/-- A report of failure finds no other task of its job in the queue. -/
def FailsAlone (s : ClusterState) (r : Report) : Prop :=
  r.success = false → ∀ t, s.task r.taskId = some t → ∀ id ∈ s.pending, id ≠ r.taskId →
    ∀ t', s.task id = some t' → t'.jobId ≠ t.jobId

section
variable [Regex] [SqlParser] [PlanDebug]

/-- The statement is shown, refused by the planner at the submission or after it, or its
    execution aborts. -/
def NotAnswered (ctx : ExecutionContext) (submitted catalog : Catalog)
    (body : ExecuteSqlRequest) : Prop :=
  tryShowCreate body.sql = .ok none → ∀ first, planSql body.sql submitted = .ok first →
    ∀ plan, planSql body.sql catalog = .ok plan →
      ∃ message, execute ctx plan = .error (.abort message)

def Clears (s : ClusterState) : SequentialCall → Prop
  | .complete r => FailsAlone s r
  | .sql ctx submitted catalog body _ => NotAnswered ctx submitted catalog body
  | _ => True

end

structure Cleared (s : ClusterState) : Prop where
  sound : Sound s
  noneLeft : NoneLeft s
  failed : ∀ k t j, s.task k = some t → t.status.isFailed = true → s.job t.jobId = some j →
    j.status.isTerminal = true

theorem new_cleared (masterId : String) (order : HashOrder) :
    Cleared (ClusterState.new masterId order) := by
  refine ⟨new_sound masterId order, fun id mem => (nomatch mem), ?_⟩
  intro k t j found
  exact nomatch (InsertionMap.get_empty k).symm.trans found

end Condition

section Steps
variable {s s' : ClusterState}

theorem recorded_job {d : SubmitDraws} (recorded : Recorded d s s') {k : String}
    (other : k ≠ d.jobId) : s'.job k = s.job k := by
  obtain ⟨ts, _, touches, _⟩ := recorded
  rw [touches.others k other, ClusterState.job, foldl_insertTask_jobs, ClusterState.job]

theorem recorded_cleared (cleared : Cleared s) {d : SubmitDraws} (fresh : FreshIn s d)
    (recorded : Recorded d s s')
    (isOpen : ∀ k t j, s'.task k = some t → t.jobId = d.jobId → s'.job d.jobId = some j →
      j.status.isTerminal = false) : Cleared s' := by
  have elsewhere {k : String} {t : Task} (old : s.task k = some t) : t.jobId ≠ d.jobId := by
    intro own
    obtain ⟨j, owner⟩ := cleared.sound.homed k t old
    rw [own, fresh.job] at owner
    exact nomatch owner
  refine ⟨recorded_sound cleared.sound fresh recorded, ?_, ?_⟩
  · intro id mem t j found owner
    rcases recorded_task recorded found with ⟨⟨i, label, sql, rfl⟩, _⟩ | old
    · exact isOpen id _ j found rfl owner
    · rw [recorded_job recorded (elsewhere old)] at owner
      refine cleared.noneLeft id ?_ t j old owner
      obtain ⟨ts, isNew, touches, _⟩ := recorded
      rw [touches.pending, foldl_insertTask_pending] at mem
      rcases List.mem_append.mp mem with before | added
      · exact before
      · obtain ⟨t', mem', rfl⟩ := List.mem_map.mp added
        exact nomatch (isNew_fresh fresh (isNew t' mem')).symm.trans old
  · intro k t j found failed owner
    rcases recorded_task recorded found with ⟨isNew, _⟩ | old
    · exact absurd (isFailed_iff.mp failed) fun ⟨m, same⟩ =>
        (open_iff.mp (isNew_open isNew)).2 m same
    · rw [recorded_job recorded (elsewhere old)] at owner
      exact cleared.failed k t j old failed owner

theorem submittedState_running (r : JobRequest) (d : SubmitDraws)
    (partitions : List PartitionSpec) {j : Job}
    (found : (submittedState s r d partitions).job d.jobId = some j) :
    j.status.isTerminal = false := by
  have written : (submittedState s r d partitions).job d.jobId = some (runningJob r d) :=
    InsertionMap.get_insert_self _ _ _
  obtain rfl := Option.some.inj (written.symm.trans found)
  rfl

theorem assigned_cleared (cleared : Cleared s) (workerId : String) :
    Cleared ((tryAssignTask workerId).run s).1 := by
  have sound := tryAssignTask_sound cleared.sound workerId
  rcases tryAssignTask_cases cleared.sound workerId with same | ⟨task, rest, waiting, known, same⟩
  · rw [same]
    exact cleared
  rw [same] at sound ⊢
  have written := assigned_task s rest task workerId
  refine ⟨sound, ?_, ?_⟩
  · intro id mem t j found owner
    rw [recordTask_pending, updateTask_pending_open rfl] at mem
    have inside : id ∈ s.pending := waiting ▸ List.mem_cons_of_mem _ mem
    rw [recordTask_job] at owner
    rw [written] at found
    split at found
    · rename_i here
      obtain rfl := Option.some.inj found
      exact cleared.noneLeft id inside task j (here ▸ known) owner
    · exact cleared.noneLeft id inside t j found owner
  · intro k t j found failed owner
    rw [recordTask_job] at owner
    rw [written] at found
    split at found
    · obtain rfl := Option.some.inj found
      exact nomatch failed
    · exact cleared.failed k t j found failed owner

theorem rolledUp_terminal {job : Job} {tasks : List Task} (now : Time)
    (cause : job.status.isTerminal = true ∨ ∃ t ∈ tasks, t.status.isFailed = true) :
    (Job.rolledUp job tasks now).status.isTerminal = true := by
  rw [rolledUp_status]
  split
  · rfl
  · split
    · rfl
    · rename_i quiet
      rcases cause with done | ⟨t, mem, failed⟩
      · exact done
      · exact absurd (List.any_eq_true.mpr ⟨t, mem, failed⟩) quiet

theorem reported_state (sound : Sound s) {r : Report} {task : Task}
    (known : s.task r.taskId = some task) :
    ((completeTask r).run s).1 =
      rollUpJob (recordTask s (Task.withReport task r) Stage.withReport) task.jobId
        r.rolledUpAt ∧ task.id = r.taskId := by
  rw [completeTask_state, known]
  exact ⟨rfl, sound.taskKeys _ _ known⟩

theorem reported_pending (sound : Sound s) {r : Report} {task : Task}
    (named : task.id = r.taskId) {id : String} :
    id ∈ (rollUpJob (recordTask s (Task.withReport task r) Stage.withReport) task.jobId
      r.rolledUpAt).pending ↔ id ∈ s.pending ∧ id ≠ r.taskId := by
  have same : (Task.withReport task r).id = task.id := rfl
  rw [rollUpJob_pending, recordTask_pending]
  constructor
  · intro mem
    obtain ⟨inside, reported⟩ := updateTask_pending_done (withReport_done task r) mem
    refine ⟨inside, fun here => ?_⟩
    obtain ⟨t, found, isOpen⟩ := sound.queued id inside
    have again := reported (here.trans named.symm)
    simp [ClusterState.wasTerminal, found, isOpen] at again
  · rintro ⟨inside, other⟩
    simp only [ClusterState.updateTask]
    split
    · refine List.mem_filter.mpr ⟨inside, ?_⟩
      rw [same, named]
      simpa using other
    · exact inside

theorem waiting_open (cleared : Cleared s) {r : Report} (alone : FailsAlone s r) {task t : Task}
    {old : Job} {id : String} (known : s.task r.taskId = some task)
    (owner : s.job task.jobId = some old) (inside : id ∈ s.pending) (other : id ≠ r.taskId)
    (found : s.task id = some t) (own : t.jobId = task.jobId) :
    Job.rolledUp old ((recordTask s (Task.withReport task r) Stage.withReport).tasksForJob
      task.jobId) r.rolledUpAt = old := by
  have members (x : Task) := @mem_reported s cleared.sound task r x
  have named := cleared.sound.taskKeys _ _ known
  have key := cleared.sound.taskKeys id t found
  have waits : t ∈ othersOf s task := by
    refine List.mem_filter.mpr ⟨?_, ?_⟩
    · rw [mem_tasksForJob_iff cleared.sound.taskKeys, key]
      exact ⟨found, own⟩
    · simpa [key, named] using other
  refine rolledUp_open _ ?_ ?_
  · obtain ⟨t', found', isOpen⟩ := cleared.sound.queued id inside
    obtain rfl := Option.some.inj (found'.symm.trans found)
    exact ⟨t', (members t').mpr (Or.inr waits), isOpen⟩
  · intro x listed
    rcases (members x).mp listed with rfl | rest
    · rw [withReport_failed]
      cases success : r.success with
      | true => rfl
      | false => exact absurd own (alone success task known id inside other t found)
    · by_contra failed
      have inJob := (mem_tasksForJob_iff cleared.sound.taskKeys).mp (List.mem_of_mem_filter rest)
      have done := cleared.failed x.id x old inJob.1 (Bool.eq_true_of_not_eq_false failed)
        (inJob.2 ▸ owner)
      rw [cleared.noneLeft id inside t old found (own ▸ owner)] at done
      exact nomatch done

theorem completed_cleared (cleared : Cleared s) {r : Report} (alone : FailsAlone s r) :
    Cleared ((completeTask r).run s).1 := by
  have sound' := completeTask_sound cleared.sound r
  cases known : s.task r.taskId with
  | none =>
    rw [completeTask_state, known]
    exact cleared
  | some task =>
    obtain ⟨state, named⟩ := reported_state cleared.sound known
    rw [state] at sound' ⊢
    obtain ⟨old, owner⟩ := cleared.sound.homed _ task known
    have jobs := reported_job cleared.sound (r := r) owner
    refine ⟨sound', ?_, ?_⟩
    · intro id mem t j found written
      obtain ⟨inside, other⟩ := (reported_pending cleared.sound named).mp mem
      rw [reported_task, if_neg (named ▸ other)] at found
      rw [jobs] at written
      split at written
      · rename_i own
        obtain rfl := Option.some.inj written
        rw [waiting_open cleared alone known owner inside other found own]
        exact cleared.noneLeft id inside t old found (own ▸ owner)
      · exact cleared.noneLeft id inside t j found written
    · intro k t j found failed written
      rw [jobs] at written
      split at written
      · rename_i own
        obtain rfl := Option.some.inj written
        refine rolledUp_terminal _ (Or.inr ⟨t, ?_, failed⟩)
        rw [← rollUpJob_tasksForJob _ task.jobId task.jobId r.rolledUpAt,
          mem_tasksForJob_iff sound'.taskKeys, sound'.taskKeys k t found]
        exact ⟨found, own⟩
      · rename_i other
        rw [reported_task] at found
        split at found
        · obtain rfl := Option.some.inj found
          exact absurd rfl other
        · exact cleared.failed k t j found failed written

theorem completed_leaves (sound : Sound s) {r : Report} (together : ¬ FailsAlone s r) :
    ¬ NoneLeft ((completeTask r).run s).1 := by
  simp only [FailsAlone, not_forall, not_not] at together
  obtain ⟨failure, task, known, id, inside, other, t, found, own⟩ := together
  obtain ⟨state, named⟩ := reported_state sound known
  obtain ⟨old, owner⟩ := sound.homed _ task known
  rw [state]
  intro none
  have mem := (reported_pending sound named).mpr ⟨inside, other⟩
  have stays : (rollUpJob (recordTask s (Task.withReport task r) Stage.withReport) task.jobId
      r.rolledUpAt).task id = some t := by
    rw [reported_task, if_neg (named ▸ other), found]
  have isOpen := none id mem t _ stays
    ((reported_job sound (r := r) owner t.jobId).trans (if_pos own))
  have done : (Job.rolledUp old ((recordTask s (Task.withReport task r)
      Stage.withReport).tasksForJob task.jobId) r.rolledUpAt).status.isTerminal = true := by
    refine rolledUp_terminal _ (Or.inr ⟨Task.withReport task r, ?_, ?_⟩)
    · exact (mem_reported sound r).mpr (Or.inl rfl)
    · rw [withReport_failed, failure]
      rfl
  rw [isOpen] at done
  exact nomatch done

end Steps

section Endpoint
variable {s s' : ClusterState}
variable [Regex] [SqlParser] [PlanDebug]

theorem sql_cleared (cleared : Cleared s) {ctx : ExecutionContext} {submitted catalog : Catalog}
    {body : ExecuteSqlRequest} {d : SqlDraws} (fresh : FreshIn s d.submit)
    (quiet : NotAnswered ctx submitted catalog body) :
    Cleared ((executeSql ctx submitted catalog body d).run s).1 := by
  have recorded := executeSql_recorded ctx submitted catalog body d s
  rcases executeSql_exits s ctx submitted catalog body d rfl with
    ⟨name, shown, ran⟩ | ⟨first, plan, shown, planned, again, ran⟩ |
    ⟨first, _, _, _, _, opened, _⟩ | ⟨same, _⟩
  · refine recorded_cleared cleared fresh recorded fun k t j found own _ => ?_
    -- a statement that is shown creates no task
    have opened := @touches_insertJob s (openedJob (jobRequestOf body) d.submit) _ rfl
    have touched := opened.trans
      (answerShowCreate_touches catalog name d.finishedAt _ _)
    rw [← congrArg Prod.fst ran, ClusterState.task, touched.tasks] at found
    obtain ⟨owner, missing⟩ := cleared.sound.homed k t found
    rw [own, fresh.job] at missing
    cases missing
  · obtain ⟨message, aborted⟩ := quiet shown first planned plan again
    refine recorded_cleared cleared fresh recorded fun k t j _ _ owner => ?_
    rw [finishQuery_run, aborted] at ran
    rw [← congrArg Prod.fst ran] at owner
    exact submittedState_running (s := s) (jobRequestOf body) d.submit _ owner
  · refine recorded_cleared cleared fresh recorded fun k t j _ _ owner => ?_
    rw [opened] at owner
    exact submittedState_running (s := s) (jobRequestOf body) d.submit _ owner
  · rw [same]
    exact cleared

/-- The state after a query was answered inline: its job is terminal, the rest is as it was
    when the query was opened. -/
theorem answered_state {ctx : ExecutionContext} {submitted catalog : Catalog}
    {body : ExecuteSqlRequest} {d : SqlDraws}
    (answered : ¬ NotAnswered ctx submitted catalog body) :
    ∃ first j, (executeSql ctx submitted catalog body d).run s |>.1.job d.submit.jobId = some j ∧
      j.status.isTerminal = true ∧
      ((executeSql ctx submitted catalog body d).run s).1.tasks =
        (queryOpened s body d first).tasks ∧
      ((executeSql ctx submitted catalog body d).run s).1.pending =
        (queryOpened s body d first).pending := by
  simp only [NotAnswered, not_forall] at answered
  obtain ⟨shown, first, planned, plan, again, settled⟩ := answered
  rw [executeSql_planned s ctx submitted catalog body d shown planned again, finishQuery_run]
  refine ⟨first, ?_⟩
  cases outcome : execute ctx plan with
  | error fault =>
    cases fault with
    | abort message => exact absurd ⟨message, outcome⟩ settled
    | error e => exact ⟨_, InsertionMap.get_insert_self _ _ _, rfl, rfl, rfl⟩
  | ok batch => exact ⟨_, InsertionMap.get_insert_self _ _ _, rfl, rfl, rfl⟩

theorem sql_leaves {ctx : ExecutionContext} {submitted catalog : Catalog}
    {body : ExecuteSqlRequest} {d : SqlDraws} (fresh : FreshIn s d.submit)
    (answered : ¬ NotAnswered ctx submitted catalog body) :
    ¬ NoneLeft ((executeSql ctx submitted catalog body d).run s).1 := by
  obtain ⟨plan, j, owner, done, tasks, pending⟩ := answered_state (s := s) (d := d) answered
  have created := RSparkDistributedRows.taskIds_ne_nil (jobRequestOf body) d.submit plan
  obtain ⟨id, mem⟩ := List.exists_mem_of_ne_nil _ created
  intro none
  have waits : id ∈ ((executeSql ctx submitted catalog body d).run s).1.pending := by
    rw [pending]
    show id ∈ ((stageTasks _ _ _).foldl ClusterState.insertTask (s.insertStage _)).pending
    rw [foldl_insertTask_pending]
    exact List.mem_append_right _ mem
  obtain ⟨_, found, i, label, sql, rfl⟩ := submitted_task fresh (jobRequestOf body)
    (planPartitions plan (jobRequestOf body).parallelism) mem
  have isOpen := none id waits _ j (by rw [ClusterState.task, tasks]; exact found) owner
  rw [isOpen] at done
  cases done

end Endpoint

section Runs
variable [Regex] [SqlParser] [PlanDebug]

/-- A call with fresh identifiers that leaves nothing behind. -/
def ClearsFresh (s : ClusterState) (c : SequentialCall) : Prop := DrawsFresh s c ∧ Clears s c

theorem after_cleared {s : ClusterState} {c : SequentialCall} (cleared : Cleared s)
    (clears : ClearsFresh s c) : Cleared (c.after s) := by
  obtain ⟨fresh, quiet⟩ := clears
  cases c with
  | submit r catalog d =>
    refine recorded_cleared cleared (fresh d rfl) (after_recorded rfl s) ?_
    intro k t j found own owner
    rw [SequentialCall.after, submitJob_run] at found owner
    cases planned : planSql r.sql catalog with
    | error fault =>
      have same : s.job d.jobId = some j := by
        rw [planned] at owner
        cases fault <;> exact owner
      cases (fresh d rfl).job.symm.trans same
    | ok plan =>
      rw [planned] at owner
      exact submittedState_running (s := s) r d _ owner
  | skipPlan r d =>
    refine recorded_cleared cleared (fresh d rfl) (after_recorded rfl s) fun k t j _ _ owner => ?_
    have written : (((submitJobSkipPlan r d).run s).1).job d.jobId = some (openedJob r d) :=
      InsertionMap.get_insert_self _ _ _
    obtain rfl := Option.some.inj (written.symm.trans owner)
    rfl
  | assign workerId => exact assigned_cleared cleared workerId
  | complete r => exact completed_cleared cleared quiet
  | sql ctx submitted catalog body d => exact sql_cleared cleared (fresh _ rfl) quiet

theorem after_noneLeft_iff {s : ClusterState} {c : SequentialCall} (cleared : Cleared s)
    (fresh : DrawsFresh s c) : NoneLeft (c.after s) ↔ Clears s c := by
  constructor
  · intro none
    by_contra leaves
    cases c with
    | complete r => exact completed_leaves cleared.sound leaves none
    | sql ctx submitted catalog body d => exact sql_leaves (fresh _ rfl) leaves none
    | submit r catalog d => exact leaves trivial
    | skipPlan r d => exact leaves trivial
    | assign workerId => exact leaves trivial
  · intro quiet
    exact (after_cleared cleared ⟨fresh, quiet⟩).noneLeft

/-- A run whose calls all clear leaves no task of a terminal job in the queue. -/
theorem none_left (masterId : String) (order : HashOrder) (calls : List SequentialCall)
    (s : ClusterState)
    (reached : Steps SequentialCall.after ClearsFresh (ClusterState.new masterId order) calls s) :
    NoneLeft s :=
  (reached.invariant (new_cleared masterId order) after_cleared).noneLeft

end Runs

section Witness

def usersInline : SequentialCall :=
  .sql RSparkDistributedRows.usersCtx usersCatalog usersCatalog usersRequest
    ⟨drawsOf "j" "s" "t" 0, 5⟩

theorem once_reported_clears :
    Steps sampleAfter (@ClearsFresh noRegex usersParser noDebug) emptyState
      [usersSubmit, .assign "w", .complete (successOf "t" 100)] onceReported := by
  refine .cons _ ⟨fun d _ => empty_fresh d, trivial⟩ ?_
  refine .cons _ ⟨fun d none => (nomatch none), trivial⟩ ?_
  exact .cons _ ⟨fun d none => (nomatch none), fun failure => (nomatch failure)⟩ .nil

/-- The sample job has succeeded, and nothing waits. -/
theorem once_reported_none_left :
    (onceReported.job "j").map Job.status = some .succeeded ∧ NoneLeft onceReported :=
  ⟨rfl, @none_left noRegex usersParser noDebug "m" insertionOrder _ _ once_reported_clears⟩

/-- A query answered inline: its job has succeeded and its task is still in the queue. -/
theorem inline_query_left :
    ¬ ∀ (masterId : String) (order : HashOrder) (calls : List SequentialCall)
      (s : ClusterState),
      Steps sampleAfter DrawsFresh (ClusterState.new masterId order) calls s → NoneLeft s := by
  intro claim
  have none := claim "m" insertionOrder [usersInline] _
    (.cons _ (fun d _ => RSparkStatusFinality.empty_fresh d) .nil)
  exact nomatch none "t" (List.mem_singleton_self _) _ _ rfl rfl

end Witness

end RSparkQueueLeftovers
