import RSpark.DistributedRows
import RSpark.FlowOutput

/- A task carries the text of its query and nothing of the catalog the master planned it
   against: what the worker, whose catalog is created with every task, makes of that text. -/
namespace RSparkWorkerPlanning
open RSparkValue RSparkBatch RSparkExpr RSparkPlan RSparkSqlAst RSparkExprBuilder RSparkPlanner
open RSparkExecutor RSparkClusterState RSparkMaster RSparkMasterSteps RSparkDistributedRows
open RSparkFlowOutput Calls

section Worker

def SessionState.new : SessionState := ⟨.empty⟩

structure ReportTimes where
  reportedAt : Time
  rolledUpAt : Time

/-- What the worker posts about a task it has polled; nothing if it panics. -/
def runTask [Regex] [SqlParser] [PlanDebug] (registry : SourceRegistry) (task : Task)
    (times : ReportTimes) : Option Report :=
  match executeTask ⟨registry⟩ task SessionState.new.catalog with
  | .ok batch => some ⟨task.id, batch.len, true, none, times.reportedAt, times.rolledUpAt⟩
  | .error (.error e) =>
      some ⟨task.id, 0, false, some e.display, times.reportedAt, times.rolledUpAt⟩
  | .error (.abort _) => none

def unknownTable (name : String) : Error := .notFound s!"table '{name}' not found"

end Worker

section TableFree

mutual
def queryTableFree : Query → Bool
  | .mk _ body _ _ _ => bodyTableFree body

def bodyTableFree : SetExpr → Bool
  | .select select => select.from'.isEmpty
  | .query query => queryTableFree query
  | .setOperation _ _ left right => bodyTableFree left && bodyTableFree right
  | .other _ => true
end

def tableFree : Statement → Bool
  | .query query => queryTableFree query
  | .explain statement => tableFree statement
  | .showTables => true
  | .use => true
  | .showCreateTable _ => true
  | .other _ => true

variable {catalog : Catalog}

/-- How a text that plans against the master's catalog plans against the worker's. -/
def Replanned (free : Bool) (worker : Result LogicalPlan) (plan : LogicalPlan) : Prop :=
  if free then worker = .ok plan else ∃ name, worker = err (unknownTable name)

theorem Replanned.bind {free : Bool} {worker : Result LogicalPlan} {plan : LogicalPlan}
    (inner : Replanned free worker plan) {f : LogicalPlan → Result LogicalPlan}
    {plan' : LogicalPlan} (outer : f plan = .ok plan') :
    Replanned free (worker >>= f) plan' := by
  cases free with
  | true =>
    obtain rfl : worker = .ok plan := inner
    exact outer
  | false =>
    obtain ⟨name, rfl⟩ := inner
    exact ⟨name, rfl⟩

theorem from_replanned {tables : List (String × Option String)} {plan : LogicalPlan}
    (planned : buildFromClause tables catalog = .ok plan) :
    Replanned tables.isEmpty (buildFromClause tables SessionState.new.catalog) plan := by
  cases tables with
  | nil => exact planned
  | cons first rest => exact ⟨first.1, rfl⟩

theorem built_isEmpty {from' : List TableWithJoins} {tables : List (String × Option String)}
    (built : buildFromTables from' = .ok tables) : tables.isEmpty = from'.isEmpty := by
  cases from' with
  | nil =>
    obtain rfl := Except.ok.inj built
    rfl
  | cons twj rest =>
    obtain ⟨table, _, built⟩ := bind_eq_ok.mp built
    obtain ⟨joined, _, built⟩ := bind_eq_ok.mp built
    obtain ⟨later, _, built⟩ := bind_eq_ok.mp built
    obtain rfl := Except.ok.inj built
    rfl

theorem planSelect_replanned {select : Select} {plan : LogicalPlan}
    (planned : planSelect select catalog = .ok plan) :
    Replanned select.from'.isEmpty (planSelect select SessionState.new.catalog) plan := by
  obtain ⟨tables, built, planned⟩ := bind_eq_ok.mp planned
  obtain ⟨source, scanned, planned⟩ := bind_eq_ok.mp planned
  rw [planSelect, built, ok_bind, ← built_isEmpty built]
  exact (from_replanned scanned).bind planned

variable [SqlParser]

mutual
theorem planQuery_replanned : (query : Query) → ∀ {plan}, planQuery catalog query = .ok plan →
    Replanned (queryTableFree query) (planQuery SessionState.new.catalog query) plan
  | .mk withClause body orderBy limit offset, plan, planned => by
    simp only [planQuery] at planned ⊢
    split at planned
    · cases planned
    · rename_i plain
      obtain ⟨inner, set, planned⟩ := bind_eq_ok.mp planned
      rw [if_neg plain]
      exact (planSetExpr_replanned body set).bind planned

theorem planSetExpr_replanned : (body : SetExpr) → ∀ {plan},
    planSetExpr catalog body = .ok plan →
    Replanned (bodyTableFree body) (planSetExpr SessionState.new.catalog body) plan
  | .select select, plan, planned => planSelect_replanned planned
  | .query query, plan, planned => planQuery_replanned query planned
  | .setOperation .union _ left right, plan, planned => by
    obtain ⟨l, plannedL, planned⟩ := bind_eq_ok.mp planned
    obtain ⟨r, plannedR, planned⟩ := bind_eq_ok.mp planned
    have sideL := planSetExpr_replanned left plannedL
    have sideR := planSetExpr_replanned right plannedR
    rw [planSetExpr, bodyTableFree]
    cases freeL : bodyTableFree left with
    | false =>
      rw [freeL] at sideL
      obtain ⟨name, failed⟩ := sideL
      rw [failed]
      exact ⟨name, rfl⟩
    | true =>
      rw [freeL] at sideL
      rw [show planSetExpr SessionState.new.catalog left = .ok l from sideL, ok_bind,
        Bool.true_and]
      exact sideR.bind planned
  | .setOperation (.other _) _ _ _, plan, planned => by cases planned
  | .other _, plan, planned => by cases planned
end

variable [PlanDebug]

theorem planStatement_replanned {statement : Statement} {plan : LogicalPlan}
    (planned : planStatement catalog statement = .ok plan) :
    Replanned (tableFree statement) (planStatement SessionState.new.catalog statement) plan := by
  induction statement generalizing plan with
  | query query => exact planQuery_replanned query planned
  | explain statement ih =>
    obtain ⟨inner, below, planned⟩ := bind_eq_ok.mp planned
    exact (ih below).bind planned
  | showTables => exact planned
  | use => exact planned
  | showCreateTable name => cases planned
  | other display => cases planned

theorem planStatements_replanned {statements : List Statement} {last : Option LogicalPlan}
    {plan : LogicalPlan} (planned : planStatements catalog last statements = .ok plan) :
    Replanned (statements.all tableFree)
      (planStatements SessionState.new.catalog last statements) plan := by
  induction statements generalizing last with
  | nil => exact planned
  | cons statement rest ih =>
    obtain ⟨first, here, planned⟩ := bind_eq_ok.mp planned
    have head := planStatement_replanned here
    rw [planStatements, List.all_cons]
    cases free : tableFree statement with
    | false =>
      rw [free] at head
      obtain ⟨name, failed⟩ := head
      rw [failed]
      exact ⟨name, rfl⟩
    | true =>
      rw [free] at head
      rw [show planStatement SessionState.new.catalog statement = .ok first from head, ok_bind]
      exact ih planned

def NamesNoTable (sql : String) : Prop :=
  ∀ statements, parseSql sql = .ok statements → statements.all tableFree = true

theorem planSql_replanned {sql : String} {plan : LogicalPlan}
    (planned : planSql sql catalog = .ok plan) :
    ∃ statements, parseSql sql = .ok statements ∧
      Replanned (statements.all tableFree) (planSql sql SessionState.new.catalog) plan := by
  obtain ⟨statements, parsed, planned⟩ := bind_eq_ok.mp planned
  refine ⟨statements, parsed, ?_⟩
  rw [planSql, parsed]
  exact planStatements_replanned planned

theorem planSql_worker_iff {sql : String} {plan : LogicalPlan}
    (planned : planSql sql catalog = .ok plan) :
    planSql sql SessionState.new.catalog = .ok plan ↔ NamesNoTable sql := by
  obtain ⟨statements, parsed, again⟩ := planSql_replanned planned
  have text : NamesNoTable sql ↔ statements.all tableFree = true := by
    constructor
    · intro free
      exact free statements parsed
    · intro free other parsed'
      obtain rfl := Except.ok.inj (parsed.symm.trans parsed')
      exact free
  rw [text]
  cases free : statements.all tableFree with
  | true =>
    rw [free] at again
    exact iff_of_true again rfl
  | false =>
    rw [free] at again
    obtain ⟨name, failed⟩ := again
    rw [failed]
    exact iff_of_false (err_ne_ok _ _) (by simp)

end TableFree

section Runs
variable {jobId sql : String} {s s' : ClusterState}

structure Carries (jobId sql : String) (s : ClusterState) : Prop where
  sound : Sound s
  recorded : ∃ j, s.job jobId = some j
  texts : ∀ k t, s.task k = some t → t.jobId = jobId → t.sql = sql

theorem rewritten_texts (carries : Carries jobId sql s) {task task' : Task} {id : String}
    (known : s.task id = some task)
    (written : ∀ k, s'.task k = if k = id then some task' else s.task k)
    (sameJob : task'.jobId = task.jobId) (sameText : task'.sql = task.sql) :
    ∀ k t, s'.task k = some t → t.jobId = jobId → t.sql = sql := by
  intro k t found own
  rw [written] at found
  split at found
  · obtain rfl := Option.some.inj found
    rw [sameText]
    exact carries.texts id task known (sameJob ▸ own)
  · exact carries.texts k t found own

theorem carries_recorded (carries : Carries jobId sql s) {d : SubmitDraws} (fresh : FreshIn s d)
    (recorded : Recorded d s s') : Carries jobId sql s' := by
  obtain ⟨j, known⟩ := carries.recorded
  refine ⟨recorded_sound carries.sound fresh recorded, ⟨j, recorded_keeps_job fresh recorded known⟩,
    ?_⟩
  intro k t found own
  rcases recorded_task recorded found with ⟨⟨i, label, text, rfl⟩, _⟩ | old
  · obtain rfl : d.jobId = jobId := own
    exact absurd known (by simp [fresh.job])
  · exact carries.texts k t old own

theorem carries_assign (carries : Carries jobId sql s) (workerId : String) :
    Carries jobId sql ((tryAssignTask workerId).run s).1 := by
  have sound := tryAssignTask_sound carries.sound workerId
  obtain ⟨j, known⟩ := carries.recorded
  rcases tryAssignTask_cases carries.sound workerId with same | ⟨task, rest, _, found, same⟩
  · rw [same]
    exact carries
  · rw [same] at sound ⊢
    refine ⟨sound, ⟨j, (recordTask_job jobId).trans known⟩, ?_⟩
    exact rewritten_texts carries found (assigned_task s rest task workerId) rfl rfl

theorem carries_complete (carries : Carries jobId sql s) (r : Report) :
    Carries jobId sql ((completeTask r).run s).1 := by
  have sound := completeTask_sound carries.sound r
  obtain ⟨j, known⟩ := carries.recorded
  rw [completeTask_state] at sound ⊢
  cases found : s.task r.taskId with
  | none => exact carries
  | some task =>
    simp only [found] at sound ⊢
    obtain ⟨old, owner⟩ := carries.sound.homed _ task found
    have named : task.id = r.taskId := carries.sound.taskKeys _ _ found
    refine ⟨sound, ?_, ?_⟩
    · rw [reported_job carries.sound owner]
      split
      · exact ⟨_, rfl⟩
      · exact ⟨j, known⟩
    · have known' : s.task task.id = some task := named ▸ found
      exact rewritten_texts carries known' (reported_task task r) rfl rfl

theorem tryAssignTask_answer (workerId : String) (s : ClusterState) :
    ((tryAssignTask workerId).run s).2 =
      some (s.popPendingTask.2.map fun task => Task.assignTo task workerId) := by
  simp only [tryAssignTask, Prog.run_call, Op.exec]
  obtain ⟨s', found⟩ := s.popPendingTask
  cases found with
  | none => rfl
  | some task =>
    simp only [recordAssigned, Prog.run_call, Op.exec]
    cases (s'.updateTask (Task.assignTo task workerId)).stage (Task.assignTo task workerId).stageId
      with
    | none => rfl
    | some stage => rfl

def Handed (s : ClusterState) (task : Task) : Prop :=
  (∃ k, s.task k = some task) ∨
    ∃ workerId, ((tryAssignTask workerId).run s).2 = some (some task)

theorem handed_text (carries : Carries jobId sql s) {task : Task} (handed : Handed s task)
    (own : task.jobId = jobId) : task.sql = sql := by
  rcases handed with ⟨k, found⟩ | ⟨workerId, polled⟩
  · exact carries.texts k task found own
  · rw [tryAssignTask_answer] at polled
    obtain ⟨stored, popped, rfl⟩ := Option.map_eq_some_iff.mp (Option.some.inj polled)
    obtain ⟨id, found⟩ := popped_found popped
    exact carries.texts id stored found own

variable [Regex] [SqlParser] [PlanDebug]

theorem carries_after (carries : Carries jobId sql s) {c : SequentialCall}
    (fresh : DrawsFresh s c) : Carries jobId sql (c.after s) := by
  cases drew : c.draws with
  | some d => exact carries_recorded carries (fresh d drew) (after_recorded drew s)
  | none =>
    cases c with
    | assign workerId => exact carries_assign carries workerId
    | complete r => exact carries_complete carries r
    | _ => cases drew

theorem submitted_state {r : JobRequest} {catalog : Catalog} {d : SubmitDraws}
    {plan : LogicalPlan} (planned : planSql r.sql catalog = .ok plan) :
    (SequentialCall.submit r catalog d).after s =
      submittedState s r d (planPartitions plan r.parallelism) := by
  show ((submitJob r catalog d).run s).1 = _
  rw [submitJob_run, planned]

theorem carries_submitted (sound : Sound s) {r : JobRequest} {catalog : Catalog} {d : SubmitDraws}
    {plan : LogicalPlan} (planned : planSql r.sql catalog = .ok plan) (fresh : FreshIn s d) :
    Carries d.jobId r.sql ((SequentialCall.submit r catalog d).after s) := by
  have recorded : Recorded d s ((SequentialCall.submit r catalog d).after s) :=
    after_recorded rfl s
  refine ⟨recorded_sound sound fresh recorded, ?_, ?_⟩
  · rw [submitted_state planned]
    exact ⟨_, InsertionMap.get_insert_self _ _ _⟩
  · intro k t found own
    rw [submitted_state planned] at found
    rcases foldl_insertTask_get _ _ found with ⟨mem, _⟩ | old
    · obtain ⟨i, _, rfl⟩ := List.mem_mapIdx.mp mem
      rfl
    · obtain ⟨j, known⟩ := sound.homed k t old
      exact absurd known (by simp [own, fresh.job])

end Runs

section Result
variable [Regex] [SqlParser] [PlanDebug]

/-- Whatever happens to the cluster after the submission, the text of each task of the job plans
    on a worker to the plan that the master cut into tasks. -/
def PlansAlike (s : ClusterState) (r : JobRequest) (catalog : Catalog) (d : SubmitDraws) : Prop :=
  ∃ plan, planSql r.sql catalog = .ok plan ∧
    ∀ later s', Session ((SequentialCall.submit r catalog d).after s) later s' →
      ∀ task, Handed s' task → task.jobId = d.jobId →
        planSql task.sql SessionState.new.catalog = .ok plan

/-- An accepted job plans on the workers as on the master exactly if its text names no table. -/
theorem tasks_plan_alike_iff (masterId : String) (order : HashOrder)
    (earlier : List SequentialCall) (s : ClusterState) (r : JobRequest) (catalog : Catalog)
    (d : SubmitDraws) (job : Job) (reached : Session (ClusterState.new masterId order) earlier s)
    (fresh : FreshIn s d) (accepted : ((submitJob r catalog d).run s).2 = some (.ok job)) :
    PlansAlike s r catalog d ↔ NamesNoTable r.sql := by
  have sound := session_sound reached
  obtain ⟨plan, planned⟩ : ∃ plan, planSql r.sql catalog = .ok plan := by
    rw [submitJob_run] at accepted
    cases planned : planSql r.sql catalog with
    | error fault => cases fault <;> simp [planned] at accepted
    | ok plan => exact ⟨plan, rfl⟩
  constructor
  · rintro ⟨plan', planned', alike⟩
    obtain rfl := Except.ok.inj (planned.symm.trans planned')
    obtain ⟨id, mem⟩ := List.exists_mem_of_ne_nil _ (taskIds_ne_nil r d plan)
    obtain ⟨t, found, isNew⟩ := submitted_task fresh r _ mem
    have carries := carries_submitted sound planned fresh
    rw [← submitted_state planned] at found
    have own : t.jobId = d.jobId := by
      obtain ⟨i, label, text, rfl⟩ := isNew
      rfl
    have again := alike [] _ .nil t (Or.inl ⟨id, found⟩) own
    rw [carries.texts id t found own] at again
    exact (planSql_worker_iff planned).mp again
  · intro free
    refine ⟨plan, planned, fun later s' session task handed own => ?_⟩
    have carries := session.invariant (carries_submitted sound planned fresh)
      fun carries may => carries_after carries may
    rw [handed_text carries handed own]
    exact (planSql_worker_iff planned).mpr free

end Result

section Witness

def oneSql : String := "SELECT 1"

@[reducible] def oneParser : SqlParser where
  parse sql := if sql = oneSql then
      .ok [.query (.mk false (.select ⟨none, [.unnamedExpr (.value (.number "1"))], [], none,
        .expressions [], none⟩) none none none)]
    else .error "unexpected text"
  display _ := ""

theorem one_plans_alike :
    @PlansAlike noRegex oneParser noDebug (ClusterState.new "m" insertionOrder)
      ⟨"one", oneSql, 2⟩ usersCatalog (drawsOf "j" "s" "t" 0) := by
  refine (@tasks_plan_alike_iff noRegex oneParser noDebug "m" insertionOrder [] _
    ⟨"one", oneSql, 2⟩ usersCatalog (drawsOf "j" "s" "t" 0) _ .nil (sample_fresh _) rfl).mpr ?_
  intro statements parsed
  obtain rfl := Except.ok.inj parsed
  rfl

/-- The task of SELECT id FROM users, for which the worker knows no table. -/
theorem users_unknown_to_worker :
    ¬ ∀ (masterId : String) (order : HashOrder) (earlier : List SequentialCall) (s : ClusterState)
      (r : JobRequest) (catalog : Catalog) (d : SubmitDraws) (job : Job),
      @Session noRegex usersParser noDebug (ClusterState.new masterId order) earlier s →
      FreshIn s d →
      ((@submitJob usersParser noDebug r catalog d).run s).2 = some (.ok job) →
      @PlansAlike noRegex usersParser noDebug s r catalog d := by
  intro claim
  obtain ⟨plan, _, alike⟩ := claim "m" insertionOrder [] _ ⟨"test", usersSql, 1⟩ usersCatalog
    (drawsOf "j" "s" "t" 0) _ .nil (sample_fresh _) rfl
  have again := alike [] _ .nil (Task.new "t" "j" "s" "scan[users.csv]:p0" usersSql)
    (Or.inl ⟨"t", rfl⟩) rfl
  exact absurd again (err_ne_ok (unknownTable "users") plan)

end Witness

end RSparkWorkerPlanning
