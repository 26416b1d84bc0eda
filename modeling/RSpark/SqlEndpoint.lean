import RSpark.MasterSteps

/- The SQL endpoint run alone: its final state and its answer, case by case, and when the job
   it opens is finished on return. -/
namespace RSparkSqlEndpoint
open RSparkValue RSparkBatch RSparkExpr RSparkPlan RSparkSqlAst RSparkPlanner RSparkExecutor
open RSparkClusterState RSparkMaster RSparkApi RSparkMasterSteps Calls

section Exits
variable (s : ClusterState)

/-- The job of a statement that is not planned. -/
def openedJob (r : JobRequest) (d : SubmitDraws) : Job :=
  { submittedJob r d with status := .running, startedAt := some d.startedAt }

def showAnswered (job : Job) (finishedAt : Time) : ClusterState :=
  (s.incRunningRound.updateJob (Job.succeededWith job 1 finishedAt)).recordCompletedRound

def queryAnswered (job : Job) (rows : Nat) (finishedAt : Time) : ClusterState :=
  ((s.updateJob (Job.succeededWith job rows finishedAt)).incRunningRound).recordCompletedRound

theorem answerShowCreate_run (catalog : Catalog) (tableName : String) (finishedAt : Time)
    (job : Job) :
    (answerShowCreate catalog tableName finishedAt job).run s =
      match renderCreateTable catalog tableName with
      | .error (.abort _) => (s.incRunningRound, none)
      | .error (.error e) => (s.incRunningRound, some (.failure e))
      | .ok ddl => (showAnswered s job finishedAt, some (.success
          ⟨Job.succeededWith job 1 finishedAt, [⟨"create_statement", "String"⟩],
            [[.string ddl]], 1⟩)) := by
  simp only [answerShowCreate, Prog.run_call, Op.exec]
  cases renderCreateTable catalog tableName with
  | error fault => cases fault <;> rfl
  | ok ddl => rfl

theorem finishQuery_run (job : Job) (outcome : Result RecordBatch) (finishedAt : Time) :
    (finishQuery job outcome finishedAt).run s =
      match outcome with
      | .error (.abort _) => (s, none)
      | .error (.error e) =>
          (s.updateJob (Job.failedWith job e.display finishedAt), some (.failure e))
      | .ok batch => (queryAnswered s job batch.len finishedAt, some (.success
          ⟨Job.succeededWith job batch.len finishedAt, columnsOf batch, rowsOfBatch batch,
            batch.len⟩)) := by
  cases outcome with
  | error fault => cases fault <;> rfl
  | ok batch => rfl

def queryOpened (body : ExecuteSqlRequest) (d : SqlDraws) (plan : LogicalPlan) : ClusterState :=
  (submittedState s (jobRequestOf body) d.submit
    (planPartitions plan (jobRequestOf body).parallelism)).incRunningRound

variable [Regex] [SqlParser] [PlanDebug]
variable (ctx : ExecutionContext) (submitted catalog : Catalog) (body : ExecuteSqlRequest)
variable (d : SqlDraws)

theorem executeSql_show {tableName : String}
    (shown : tryShowCreate body.sql = .ok (some tableName)) :
    (executeSql ctx submitted catalog body d).run s =
      (answerShowCreate catalog tableName d.finishedAt (openedJob (jobRequestOf body) d.submit)).run
        (s.insertJob (openedJob (jobRequestOf body) d.submit)) := by
  simp only [executeSql, shown]
  rfl

theorem executeSql_refused {e : Error} (shown : tryShowCreate body.sql = .ok none)
    (planned : planSql body.sql submitted = .error (.error e)) :
    (executeSql ctx submitted catalog body d).run s = (s, some (.failure e)) := by
  simp only [executeSql, shown, Prog.run_bind, submitJob_run]
  rw [show (jobRequestOf body).sql = body.sql from rfl, planned]
  rfl

theorem executeSql_planned {first plan : LogicalPlan} (shown : tryShowCreate body.sql = .ok none)
    (planned : planSql body.sql submitted = .ok first)
    (again : planSql body.sql catalog = .ok plan) :
    (executeSql ctx submitted catalog body d).run s =
      (finishQuery (runningJob (jobRequestOf body) d.submit) (execute ctx plan)
        d.finishedAt).run (queryOpened s body d first) := by
  simp only [executeSql, shown, Prog.run_bind, submitJob_run]
  rw [show (jobRequestOf body).sql = body.sql from rfl, planned]
  simp only [afterSubmit, answerQuery, Prog.run_call, Op.exec, again]
  rfl

theorem executeSql_unplanned {first : LogicalPlan} {fault : Fault}
    (shown : tryShowCreate body.sql = .ok none) (planned : planSql body.sql submitted = .ok first)
    (again : planSql body.sql catalog = .error fault) :
    (executeSql ctx submitted catalog body d).run s = (queryOpened s body d first,
      match fault with
      | .abort _ => none
      | .error e => some (.failure e)) := by
  simp only [executeSql, shown, Prog.run_bind, submitJob_run]
  rw [show (jobRequestOf body).sql = body.sql from rfl, planned]
  simp only [afterSubmit, answerQuery, Prog.run_call, Op.exec, again]
  cases fault <;> rfl

theorem executeSql_exits {s' : ClusterState} {answer : Option Response}
    (ran : (executeSql ctx submitted catalog body d).run s = (s', answer)) :
    (∃ name, tryShowCreate body.sql = .ok (some name) ∧
      (answerShowCreate catalog name d.finishedAt (openedJob (jobRequestOf body) d.submit)).run
        (s.insertJob (openedJob (jobRequestOf body) d.submit)) = (s', answer)) ∨
    (∃ first plan, tryShowCreate body.sql = .ok none ∧ planSql body.sql submitted = .ok first ∧
      planSql body.sql catalog = .ok plan ∧
      (finishQuery (runningJob (jobRequestOf body) d.submit) (execute ctx plan)
        d.finishedAt).run (queryOpened s body d first) = (s', answer)) ∨
    (∃ first fault, tryShowCreate body.sql = .ok none ∧ planSql body.sql submitted = .ok first ∧
      planSql body.sql catalog = .error fault ∧ s' = queryOpened s body d first ∧
      ∀ response, answer = some response → ∃ e, fault = .error e ∧ response = .failure e) ∨
    (s' = s ∧ (∀ name, tryShowCreate body.sql ≠ .ok (some name)) ∧
      ¬ (tryShowCreate body.sql = .ok none ∧ ∃ first, planSql body.sql submitted = .ok first)) := by
  cases shown : tryShowCreate body.sql with
  | error fault =>
    refine Or.inr (Or.inr (Or.inr ⟨?_, fun name some => (nomatch some), fun h => nomatch h.1⟩))
    cases fault <;> simp [executeSql, shown] at ran <;> exact ran.1.symm
  | ok statement =>
    cases statement with
    | some name =>
      exact Or.inl ⟨name, rfl, executeSql_show s ctx submitted catalog body d shown ▸ ran⟩
    | none =>
      cases planned : planSql body.sql submitted with
      | ok first =>
        cases again : planSql body.sql catalog with
        | ok plan =>
          exact Or.inr (Or.inl ⟨first, plan, rfl, rfl, rfl,
            executeSql_planned s ctx submitted catalog body d shown planned again ▸ ran⟩)
        | error fault =>
          rw [executeSql_unplanned s ctx submitted catalog body d shown planned again] at ran
          obtain ⟨state, answered⟩ := Prod.mk.inj ran
          refine Or.inr (Or.inr (Or.inl ⟨first, fault, rfl, rfl, rfl, state.symm, ?_⟩))
          rintro response rfl
          cases fault with
          | error e => exact ⟨e, rfl, (Option.some.inj answered).symm⟩
          | abort message => exact nomatch answered
      | error fault =>
        refine Or.inr (Or.inr (Or.inr ⟨?_, fun name some => (nomatch some),
          fun ⟨_, first, same⟩ => nomatch same⟩))
        cases fault with
        | error e =>
          rw [executeSql_refused s ctx submitted catalog body d shown planned] at ran
          exact (Prod.mk.inj ran).1.symm
        | abort message =>
          have run : (executeSql ctx submitted catalog body d).run s = (s, none) := by
            simp only [executeSql, shown, Prog.run_bind, submitJob_run]
            rw [show (jobRequestOf body).sql = body.sql from rfl, planned]
          rw [run] at ran
          exact (Prod.mk.inj ran).1.symm

end Exits

section Finished

/-- Every job that came in is terminal, and has succeeded exactly if the answer is a
    success. -/
def Finished (s s' : ClusterState) (response : Response) : Prop :=
  ∀ k j, s.job k = none → s'.job k = some j →
    j.status.isTerminal = true ∧ (j.status = .succeeded ↔ ∃ body, response = .success body)

/-- The catalog has no schema or no location for the name. -/
def Unknown (catalog : Catalog) (name : String) : Prop :=
  (∃ e, catalog.tableSchema name = .error (.error e)) ∨
    ∃ schema e, catalog.tableSchema name = .ok schema ∧
      catalog.tableLocation name = .error (.error e)

theorem renderCreateTable_fails_iff (catalog : Catalog) (name : String) :
    (∃ e, renderCreateTable catalog name = .error (.error e)) ↔ Unknown catalog name := by
  unfold Unknown
  cases known : catalog.tableSchema name with
  | error fault =>
    have failed : renderCreateTable catalog name = .error fault := by
      simp only [renderCreateTable, known]
      rfl
    rw [failed]
    constructor
    · rintro ⟨e, same⟩
      obtain rfl := Except.error.inj same
      exact Or.inl ⟨e, rfl⟩
    · rintro (⟨e, same⟩ | ⟨schema, e, found, _⟩)
      · obtain rfl := Except.error.inj same
        exact ⟨e, rfl⟩
      · exact nomatch found
  | ok schema =>
    cases located : catalog.tableLocation name with
    | error fault =>
      have failed : renderCreateTable catalog name = .error fault := by
        simp only [renderCreateTable, known, located]
        rfl
      rw [failed]
      constructor
      · rintro ⟨e, same⟩
        obtain rfl := Except.error.inj same
        exact Or.inr ⟨schema, e, rfl, rfl⟩
      · rintro (⟨e, same⟩ | ⟨_, e, _, same⟩)
        · exact nomatch same
        · obtain rfl := Except.error.inj same
          exact ⟨e, rfl⟩
    | ok location =>
      have rendered : ∃ ddl, renderCreateTable catalog name = .ok ddl := by
        simp only [renderCreateTable, known, located]
        exact ⟨_, rfl⟩
      obtain ⟨ddl, rendered⟩ := rendered
      rw [rendered]
      constructor
      · rintro ⟨e, same⟩
        exact nomatch same
      · rintro (⟨e, same⟩ | ⟨_, e, _, same⟩)
        · exact nomatch same
        · exact nomatch same

theorem finished_of_written {s s' : ClusterState} {response : Response} (job : Job)
    (fresh : s.job job.id = none)
    (written : ∀ k, s'.job k = if k = job.id then some job else s.job k) :
    Finished s s' response ↔
      job.status.isTerminal = true ∧
        (job.status = .succeeded ↔ ∃ body, response = .success body) := by
  constructor
  · intro finished
    exact finished job.id job fresh ((written _).trans (if_pos rfl))
  · intro settled k j absent found
    rw [written] at found
    split at found
    · exact Option.some.inj found ▸ settled
    · exact nomatch absent.symm.trans found

theorem submittedState_job (s : ClusterState) (r : JobRequest) (d : SubmitDraws)
    (partitions : List PartitionSpec) {k : String} (other : k ≠ d.jobId) :
    (submittedState s r d partitions).job k = s.job k := by
  show ((((stageTasks r d partitions).foldl ClusterState.insertTask
    (s.insertStage (submittedStage r d partitions))).jobs.insert d.jobId _).insert
      d.jobId _).get k = _
  rw [InsertionMap.get_insert_other _ other, InsertionMap.get_insert_other _ other,
    foldl_insertTask_jobs]
  rfl

theorem queryOpened_job {s : ClusterState} {body : ExecuteSqlRequest} {d : SqlDraws}
    {plan : LogicalPlan} (job : Job) (own : job.id = d.submit.jobId) (k : String) :
    ((queryOpened s body d plan).updateJob job).job k =
      if k = job.id then some job else s.job k := by
  show ((submittedState s _ d.submit _).jobs.insert job.id job).get k = _
  rw [InsertionMap.get_insert]
  split
  · rfl
  · rename_i other
    exact submittedState_job s _ d.submit _ (own ▸ other)

theorem queryAnswered_job (s : ClusterState) (job : Job) (rows : Nat) (finishedAt : Time)
    (k : String) : (queryAnswered s job rows finishedAt).job k =
      (s.updateJob (Job.succeededWith job rows finishedAt)).job k := rfl

theorem showAnswered_job {s : ClusterState} {job : Job} {finishedAt : Time} (k : String) :
    (showAnswered (s.insertJob job) job finishedAt).job k =
      if k = job.id then some (Job.succeededWith job 1 finishedAt) else s.job k := by
  show ((s.jobs.insert job.id job).insert job.id _).get k = _
  rw [InsertionMap.get_insert, InsertionMap.get_insert]
  split
  · rfl
  · rfl

theorem show_finishes_iff {catalog : Catalog} {name : String} {finishedAt : Time}
    {s s' : ClusterState} {response : Response} (job : Job) (fresh : s.job job.id = none)
    (running : job.status = .running)
    (ran : (answerShowCreate catalog name finishedAt job).run (s.insertJob job) =
      (s', some response)) : Finished s s' response ↔ ¬ Unknown catalog name := by
  rw [← renderCreateTable_fails_iff]
  rw [answerShowCreate_run] at ran
  cases rendered : renderCreateTable catalog name with
  | error fault =>
    rw [rendered] at ran
    cases fault with
    | abort message => exact nomatch (Prod.mk.inj ran).2
    | error e =>
      -- the early return: the job stays as it was recorded
      obtain ⟨rfl, _⟩ := Prod.mk.inj ran
      have written (k : String) : ((s.insertJob job).incRunningRound).job k =
          if k = job.id then some job else s.job k := InsertionMap.get_insert _ _ _ _
      rw [finished_of_written job fresh written, running]
      exact iff_of_false (fun settled => (nomatch settled.1)) (fun none => none ⟨e, rfl⟩)
  | ok ddl =>
    rw [rendered] at ran
    obtain ⟨rfl, answered⟩ := Prod.mk.inj ran
    obtain rfl := Option.some.inj answered
    have written (k : String) : (showAnswered (s.insertJob job) job finishedAt).job k =
        if k = job.id then some (Job.succeededWith job 1 finishedAt) else s.job k :=
      showAnswered_job k
    rw [finished_of_written (Job.succeededWith job 1 finishedAt) fresh written]
    refine iff_of_true ⟨rfl, fun _ => ⟨_, rfl⟩, fun _ => rfl⟩ ?_
    rintro ⟨e, failed⟩
    exact nomatch failed

theorem query_finishes {body : ExecuteSqlRequest} {d : SqlDraws} {plan : LogicalPlan} {job : Job}
    {outcome : Result RecordBatch} {finishedAt : Time} {s s' : ClusterState}
    {response : Response} (fresh : s.job job.id = none) (own : job.id = d.submit.jobId)
    (ran : (finishQuery job outcome finishedAt).run (queryOpened s body d plan) =
      (s', some response)) : Finished s s' response := by
  rw [finishQuery_run] at ran
  cases outcome with
  | error fault =>
    cases fault with
    | abort message => exact nomatch (Prod.mk.inj ran).2
    | error e =>
      obtain ⟨rfl, answered⟩ := Prod.mk.inj ran
      obtain rfl := Option.some.inj answered
      rw [finished_of_written (Job.failedWith job e.display finishedAt) fresh
        (queryOpened_job _ own)]
      exact ⟨rfl, fun success => (nomatch success), fun ⟨_, failed⟩ => (nomatch failed)⟩
  | ok batch =>
    obtain ⟨rfl, answered⟩ := Prod.mk.inj ran
    obtain rfl := Option.some.inj answered
    have written (k : String) :
        (queryAnswered (queryOpened s body d plan) job batch.len finishedAt).job k =
          if k = job.id then some (Job.succeededWith job batch.len finishedAt) else s.job k := by
      rw [queryAnswered_job]
      exact queryOpened_job (Job.succeededWith job batch.len finishedAt) own k
    rw [finished_of_written (Job.succeededWith job batch.len finishedAt) fresh written]
    exact ⟨rfl, fun _ => ⟨_, rfl⟩, fun _ => rfl⟩

theorem unplanned_unfinished {s : ClusterState} {body : ExecuteSqlRequest} {d : SqlDraws}
    {plan : LogicalPlan} {response : Response} (fresh : s.job d.submit.jobId = none) :
    ¬ Finished s (queryOpened s body d plan) response := by
  intro finished
  have written : (queryOpened s body d plan).job d.submit.jobId =
      some (runningJob (jobRequestOf body) d.submit) := InsertionMap.get_insert_self _ _ _
  exact nomatch (finished _ _ fresh written).1

variable [Regex] [SqlParser] [PlanDebug]

/-- The submission plans the statement and the handler does not: a table it names was dropped
    in between. -/
def Dropped (submitted catalog : Catalog) (sql : String) : Prop :=
  (∃ first, planSql sql submitted = .ok first) ∧ ∃ e, planSql sql catalog = .error (.error e)

/-- A request leaves its job finished, unless it asks how an unknown table was made or its
    tables are dropped on the way. -/
theorem sql_finishes_iff (ctx : ExecutionContext) (submitted catalog : Catalog)
    (body : ExecuteSqlRequest) (d : SqlDraws) (s s' : ClusterState) (response : Response)
    (fresh : s.job d.submit.jobId = none)
    (returns : (executeSql ctx submitted catalog body d).run s = (s', some response)) :
    Finished s s' response ↔
      (∀ name, tryShowCreate body.sql = .ok (some name) → ¬ Unknown catalog name) ∧
      (tryShowCreate body.sql = .ok none → ¬ Dropped submitted catalog body.sql) := by
  rcases executeSql_exits s ctx submitted catalog body d returns with
    ⟨name, shown, ran⟩ | ⟨first, plan, shown, planned, again, ran⟩ |
    ⟨first, fault, shown, planned, again, rfl, answered⟩ | ⟨rfl, noShow, refused⟩
  · rw [show_finishes_iff (openedJob (jobRequestOf body) d.submit) fresh rfl ran, shown]
    constructor
    · intro known
      refine ⟨?_, fun none => nomatch none⟩
      rintro name' same unknown
      obtain rfl := Option.some.inj (Except.ok.inj same)
      exact known unknown
    · intro known unknown
      exact known.1 name rfl unknown
  · refine iff_of_true (query_finishes fresh rfl ran) ⟨?_, ?_⟩
    · intro name some
      exact nomatch shown.symm.trans some
    · rintro _ ⟨_, e, gone⟩
      exact nomatch again.symm.trans gone
  · obtain ⟨e, rfl, rfl⟩ := answered response rfl
    refine iff_of_false (unplanned_unfinished fresh) fun kept => ?_
    exact kept.2 shown ⟨⟨first, planned⟩, e, again⟩
  · refine iff_of_true (fun k j absent found => nomatch absent.symm.trans found) ⟨?_, ?_⟩
    · intro name some
      exact absurd some (noShow name)
    · rintro none ⟨planned, _⟩
      exact refused ⟨none, planned⟩

end Finished

section Witness

@[reducible] def showParser : SqlParser :=
  ⟨fun sql => if sql = usersSql then usersParser.parse sql
    else .ok [.showCreateTable ⟨[⟨"t"⟩], "t"⟩], fun _ => ""⟩

def showRequest : ExecuteSqlRequest := ⟨"SHOW CREATE TABLE t", none⟩

def usersRequest : ExecuteSqlRequest := ⟨usersSql, none⟩

def sampleDraws : SqlDraws := ⟨drawsOf "j" "s" "t" 0, 5⟩

def noSources : ExecutionContext := ⟨⟨fun _ => none⟩⟩

theorem emptyState_job (k : String) : emptyState.job k = none := InsertionMap.get_empty k

def sqlRun (body : ExecuteSqlRequest) : ClusterState × Option Response :=
  (@executeSql noRegex showParser noDebug noSources usersCatalog usersCatalog body
    sampleDraws).run emptyState

theorem failed_query_answer : ∃ e, (sqlRun usersRequest).2 = some (.failure e) := ⟨_, rfl⟩

/-- The sample query has no source to scan: the job fails, and the answer is an error. -/
theorem failed_query_finishes :
    ∃ e, (sqlRun usersRequest).2 = some (.failure e) ∧
      Finished emptyState (sqlRun usersRequest).1 (.failure e) := by
  obtain ⟨e, answered⟩ := failed_query_answer
  have returns : (@executeSql noRegex showParser noDebug noSources usersCatalog usersCatalog
      usersRequest sampleDraws).run emptyState = ((sqlRun usersRequest).1, some (.failure e)) :=
    Prod.ext rfl answered
  refine ⟨e, answered, (@sql_finishes_iff noRegex showParser noDebug noSources usersCatalog
    usersCatalog usersRequest sampleDraws emptyState _ _ (emptyState_job _) returns).mpr ⟨?_, ?_⟩⟩
  · intro name some
    exact nomatch some
  · rintro _ ⟨_, e, gone⟩
    exact nomatch gone

/-- The catalog has no table `t`: the answer is an error and the job is left running. -/
theorem show_create_leaves_running :
    ¬ ∀ (ctx : ExecutionContext) (submitted catalog : Catalog) (body : ExecuteSqlRequest)
      (d : SqlDraws) (s s' : ClusterState) (response : Response), s.job d.submit.jobId = none →
      (@executeSql noRegex showParser noDebug ctx submitted catalog body d).run s =
        (s', some response) → Finished s s' response := by
  intro claim
  have finished := claim noSources usersCatalog usersCatalog showRequest sampleDraws emptyState
    _ _ (emptyState_job _) rfl
  exact nomatch (finished "j" _ (emptyState_job _) rfl).1

end Witness

end RSparkSqlEndpoint
