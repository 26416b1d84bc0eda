import RSpark.MasterSteps

/- The rows of a job whose tasks were all executed by workers and reported, against the rows
   of the same query executed in one place. -/
namespace RSparkDistributedRows
open RSparkValue RSparkBatch RSparkExpr RSparkPlan RSparkSqlAst RSparkPlanner RSparkExecutor
open RSparkClusterState RSparkMaster RSparkMasterSteps Calls

section Partitions

mutual
def scanCount : LogicalPlan → Nat
  | .scan _ _ _ _ => 1
  | .project input _ _ => scanCount input
  | .filter input _ _ => scanCount input
  | .aggregate input _ _ _ => scanCount input
  | .sort input _ _ => scanCount input
  | .limit input _ _ => scanCount input
  | .distinct input _ => scanCount input
  | .join left right _ _ _ => scanCount left + scanCount right
  | .union inputs _ => scanCountAll inputs
  | .empty => 0

def scanCountAll : List LogicalPlan → Nat
  | [] => 0
  | input :: rest => scanCount input + scanCountAll rest
end

mutual
theorem collectScans_length (p : Nat) :
    (plan : LogicalPlan) → (collectScans p plan).length = p * scanCount plan
  | .scan _ _ _ _ => by simp [collectScans, scanCount]
  | .project input _ _ => collectScans_length p input
  | .filter input _ _ => collectScans_length p input
  | .aggregate input _ _ _ => collectScans_length p input
  | .sort input _ _ => collectScans_length p input
  | .limit input _ _ => collectScans_length p input
  | .distinct input _ => collectScans_length p input
  | .join left right _ _ _ => by
    simp only [collectScans, scanCount, List.length_append, collectScans_length p left,
      collectScans_length p right, Nat.mul_add]
  | .union inputs _ => collectAllScans_length p inputs
  | .empty => rfl

theorem collectAllScans_length (p : Nat) :
    (plans : List LogicalPlan) → (collectAllScans p plans).length = p * scanCountAll plans
  | [] => rfl
  | input :: rest => by
    simp only [collectAllScans, scanCountAll, List.length_append, collectScans_length p input,
      collectAllScans_length p rest, Nat.mul_add]
end

theorem planPartitions_length (plan : LogicalPlan) (p : Nat) :
    (planPartitions plan p).length = max 1 (p * scanCount plan) := by
  simp only [planPartitions, List.isEmpty_iff_length_eq_zero, List.length_mapIdx,
    collectScans_length]
  split
  · rename_i none
    simp [none]
  · rename_i some
    simp only [List.length_mapIdx, collectScans_length]
    omega

theorem taskIds_length (r : JobRequest) (d : SubmitDraws) (plan : LogicalPlan) :
    ((stageTasks r d (planPartitions plan r.parallelism)).map Task.id).length =
      max 1 (r.parallelism * scanCount plan) := by
  rw [List.length_map, stageTasks, List.length_mapIdx, planPartitions_length]

theorem taskIds_ne_nil (r : JobRequest) (d : SubmitDraws) (plan : LogicalPlan) :
    (stageTasks r d (planPartitions plan r.parallelism)).map Task.id ≠ [] := by
  intro none
  have length := taskIds_length r d plan
  rw [none, List.length_nil] at length
  omega

/-- Counted more than once, rows give their own number only where the sum wraps around. -/
theorem usizeSum_replicate_eq_iff (n k : Nat) : usizeSum (List.replicate (max 1 n) k) = k ↔
    n ≤ 1 ∨ k = 0 ∨ (k < usizeSize ∧ usizeSize ∣ (n - 1) * k) := by
  match n with
  | 0 | 1 => simp [usizeSum]
  | n + 2 =>
    rw [show max 1 (n + 2) = n + 2 by omega, List.replicate_succ, List.replicate_succ,
      usizeSum_wraps, ← List.replicate_succ, ← List.replicate_succ, List.sum_replicate_nat]
    have split : (n + 2) * k = k + (n + 1) * k := by rw [Nat.succ_mul (n + 1), Nat.add_comm]
    have wraps (x : Nat) : (k + x) % usizeSize = k ↔ k < usizeSize ∧ usizeSize ∣ x := by
      simp only [usizeSize]
      omega
    rw [split, wraps, or_iff_right (by omega : ¬ n + 2 ≤ 1), show n + 2 - 1 = n + 1 from rfl]
    refine ⟨Or.inr, ?_⟩
    rintro (rfl | wrapped)
    · simp [usizeSize]
    · exact wrapped

end Partitions

section Progress

def reportsOn (ids : List String) (calls : List SequentialCall) : List Report :=
  (calls.filterMap SequentialCall.report).filter (·.taskId ∈ ids)

def reportedOf (ids : List String) (calls : List SequentialCall) : List String :=
  (reportsOn ids calls).map Report.taskId

theorem reportsOn_append (ids : List String) (calls : List SequentialCall) (c : SequentialCall) :
    reportsOn ids (calls ++ [c]) =
      reportsOn ids calls ++ (c.report.toList.filter (·.taskId ∈ ids)) := by
  cases found : c.report <;> simp [reportsOn, found]

/-- How far the job with tasks `ids` has come when those in `reported` are reported. -/
structure Progress (jobId : String) (ids : List String) (n : Nat) (reported : List String)
    (s : ClusterState) : Prop where
  sound : Sound s
  owned : ∀ k t, s.task k = some t → (t.jobId = jobId ↔ k ∈ ids)
  settled : ∀ id ∈ ids, id ∈ reported →
    ∃ t, s.task id = some t ∧ t.status = .succeeded ∧ t.resultRows = some n
  waiting : ∀ id ∈ ids, id ∉ reported →
    ∃ t, s.task id = some t ∧ t.status.isTerminal = false
  recorded : ∃ j, s.job jobId = some j
  finished : (∀ id ∈ ids, id ∈ reported) → ∃ j, s.job jobId = some j ∧
    j.status = .succeeded ∧ j.resultRows = some (usizeSum (List.replicate ids.length n))

theorem rolledUp_finished (job : Job) {tasks : List Task} {n : Nat} (now : Time)
    (some_task : tasks ≠ [])
    (each : ∀ t ∈ tasks, t.status = .succeeded ∧ t.resultRows = some n) :
    (Job.rolledUp job tasks now).status = .succeeded ∧
      (Job.rolledUp job tasks now).resultRows =
        some (usizeSum (List.replicate tasks.length n)) := by
  have all : allSucceeded tasks = true := by
    simp only [allSucceeded, Bool.and_eq_true, List.all_eq_true]
    exact ⟨by simp [some_task], fun t mem => by simp [(each t mem).1, TaskStatus.isSucceeded]⟩
  have rows : rowsOf tasks = usizeSum (List.replicate tasks.length n) := by
    rw [rowsOf, reportedRows_eq fun t mem => (each t mem).2, List.map_const']
  simp [Job.rolledUp, all, rows]

variable {jobId : String} {ids reported : List String} {n : Nat} {s : ClusterState}

theorem progress_present (progress : Progress jobId ids n reported s) {id : String}
    (mem : id ∈ ids) : ∃ t, s.task id = some t := by
  by_cases done : id ∈ reported
  · obtain ⟨t, found, _⟩ := progress.settled id mem done
    exact ⟨t, found⟩
  · obtain ⟨t, found, _⟩ := progress.waiting id mem done
    exact ⟨t, found⟩

theorem progress_recorded (progress : Progress jobId ids n reported s) {d : SubmitDraws}
    {s' : ClusterState} (fresh : FreshIn s d) (recorded : Recorded d s s') :
    Progress jobId ids n reported s' := by
  obtain ⟨j, known⟩ := progress.recorded
  refine ⟨recorded_sound progress.sound fresh recorded, ?_, ?_, ?_, ?_, ?_⟩
  · intro k t found
    rcases recorded_task recorded found with ⟨isNew, rfl⟩ | old
    · have absent := isNew_fresh fresh isNew
      obtain ⟨i, label, sql, rfl⟩ := isNew
      refine iff_of_false (fun same => ?_) (fun mem => ?_)
      · have same : d.jobId = jobId := same
        subst same
        exact absurd known (by simp [fresh.job])
      · obtain ⟨t, found⟩ := progress_present progress mem
        exact absurd found (by simp [absent])
    · exact progress.owned k t old
  · intro id mem done
    obtain ⟨t, found, settled⟩ := progress.settled id mem done
    exact ⟨t, recorded_keeps_task fresh recorded found, settled⟩
  · intro id mem done
    obtain ⟨t, found, isOpen⟩ := progress.waiting id mem done
    exact ⟨t, recorded_keeps_task fresh recorded found, isOpen⟩
  · exact ⟨j, recorded_keeps_job fresh recorded known⟩
  · intro done
    obtain ⟨j, found, finished⟩ := progress.finished done
    exact ⟨j, recorded_keeps_job fresh recorded found, finished⟩

theorem progress_assign (progress : Progress jobId ids n reported s) (workerId : String) :
    Progress jobId ids n reported ((tryAssignTask workerId).run s).1 := by
  have sound := tryAssignTask_sound progress.sound workerId
  rcases tryAssignTask_cases progress.sound workerId with same | ⟨task, rest, waits, known, same⟩
  · rw [same]
    exact progress
  rw [same] at sound ⊢
  have isOpen := popped_open progress.sound waits known
  have tasks := assigned_task s rest task workerId
  refine ⟨sound, ?_, ?_, ?_, ?_, ?_⟩
  · intro k t found
    rw [tasks] at found
    split at found
    · rename_i here
      obtain rfl := Option.some.inj found
      exact here ▸ progress.owned task.id task known
    · exact progress.owned k t found
  · intro id mem done
    obtain ⟨t, found, settled⟩ := progress.settled id mem done
    rw [tasks, if_neg]
    · exact ⟨t, found, settled⟩
    · rintro rfl
      obtain rfl := Option.some.inj (known.symm.trans found)
      simp [settled.1, TaskStatus.isTerminal, TaskStatus.isSucceeded] at isOpen
  · intro id mem done
    rw [tasks]
    split
    · exact ⟨_, rfl, rfl⟩
    · exact progress.waiting id mem done
  · obtain ⟨j, found⟩ := progress.recorded
    exact ⟨j, (recordTask_job jobId).trans found⟩
  · intro done
    obtain ⟨j, found, finished⟩ := progress.finished done
    exact ⟨j, (recordTask_job jobId).trans found, finished⟩

theorem withReport_success (task : Task) {r : Report} (success : r.success = true) :
    (Task.withReport task r).status = .succeeded := by
  simp [Task.withReport, Report.status, success]

theorem all_reported_rows (sound : Sound s) (distinct : ids.Nodup)
    (owned : ∀ k t, s.task k = some t → (t.jobId = jobId ↔ k ∈ ids))
    (settled : ∀ id ∈ ids,
      ∃ t, s.task id = some t ∧ t.status = .succeeded ∧ t.resultRows = some n) :
    (s.tasksForJob jobId).length = ids.length ∧
      ∀ t ∈ s.tasksForJob jobId, t.status = .succeeded ∧ t.resultRows = some n := by
  have members (id : String) : id ∈ (s.tasksForJob jobId).map Task.id ↔ id ∈ ids := by
    constructor
    · intro mem
      obtain ⟨t, inside, rfl⟩ := List.mem_map.mp mem
      obtain ⟨found, own⟩ := (mem_tasksForJob_iff sound.taskKeys).mp inside
      exact (owned _ t found).mp own
    · intro mem
      obtain ⟨t, found, _⟩ := settled id mem
      obtain rfl := sound.taskKeys _ _ found
      exact List.mem_map_of_mem
        ((mem_tasksForJob_iff sound.taskKeys).mpr ⟨found, (owned _ t found).mpr mem⟩)
  refine ⟨?_, fun t mem => ?_⟩
  · have listed := tasksForJob_ids_nodup sound.taskKeys jobId
    have perm := (List.perm_ext_iff_of_nodup listed distinct).mpr members
    simpa using perm.length_eq
  · obtain ⟨found, _⟩ := (mem_tasksForJob_iff sound.taskKeys).mp mem
    obtain ⟨t', found', done⟩ := settled t.id ((members t.id).mp (List.mem_map_of_mem mem))
    obtain rfl := Option.some.inj (found.symm.trans found')
    exact done

theorem progress_complete (progress : Progress jobId ids n reported s) {r : Report}
    (someTask : ids ≠ []) (distinct : ids.Nodup) (here : r.taskId ∈ ids)
    (success : r.success = true) (rows : r.rows = n) :
    Progress jobId ids n (reported ++ [r.taskId]) ((completeTask r).run s).1 := by
  have sound := completeTask_sound progress.sound r
  obtain ⟨task, known⟩ := progress_present progress here
  have named := progress.sound.taskKeys _ _ known
  obtain rfl := (progress.owned _ _ known).mpr here
  simp only [completeTask_state, known] at sound ⊢
  have owned : ∀ k t, (rollUpJob (recordTask s (Task.withReport task r) Stage.withReport)
      task.jobId r.rolledUpAt).task k = some t → (t.jobId = task.jobId ↔ k ∈ ids) := by
    intro k t found
    rw [reported_task] at found
    split at found
    · rename_i same
      obtain rfl := Option.some.inj found
      exact iff_of_true rfl (same.trans named ▸ here)
    · exact progress.owned k t found
  have settled : ∀ id ∈ ids, id ∈ reported ++ [r.taskId] →
      ∃ t, (rollUpJob (recordTask s (Task.withReport task r) Stage.withReport)
        task.jobId r.rolledUpAt).task id = some t ∧ t.status = .succeeded ∧
          t.resultRows = some n := by
    intro id mem done
    rw [reported_task]
    split
    · exact ⟨_, rfl, withReport_success task success, congrArg some rows⟩
    · rename_i other
      rcases List.mem_append.mp done with before | same
      · exact progress.settled id mem before
      · exact absurd ((List.mem_singleton.mp same).trans named.symm) other
  obtain ⟨j, found⟩ := progress.recorded
  have rolled := (reported_job (r := r) progress.sound found task.jobId).trans (if_pos rfl)
  refine ⟨sound, owned, settled, ?_, ⟨_, rolled⟩, fun all => ⟨_, rolled, ?_⟩⟩
  · intro id mem waiting
    simp only [List.mem_append, List.mem_singleton, not_or] at waiting
    rw [reported_task, if_neg (named.symm ▸ waiting.2)]
    exact progress.waiting id mem waiting.1
  · obtain ⟨length, each⟩ := all_reported_rows sound distinct owned
      fun id mem => settled id mem (all id mem)
    rw [rollUpJob_tasksForJob] at length each
    rw [← length]
    refine rolledUp_finished j _ (fun none => someTask ?_) each
    rw [none, List.length_nil] at length
    exact List.eq_nil_of_length_eq_zero length.symm

theorem progress_complete_other (progress : Progress jobId ids n reported s) {r : Report}
    (other : r.taskId ∉ ids) : Progress jobId ids n reported ((completeTask r).run s).1 := by
  have sound := completeTask_sound progress.sound r
  rw [completeTask_state] at sound ⊢
  cases known : s.task r.taskId with
  | none => exact progress
  | some task =>
    simp only [known] at sound ⊢
    have named := progress.sound.taskKeys _ _ known
    have foreign : jobId ≠ task.jobId :=
      fun same => other ((progress.owned _ _ known).mp same.symm)
    have tasks (id : String) (mem : id ∈ ids) :
        (rollUpJob (recordTask s (Task.withReport task r) Stage.withReport) task.jobId
          r.rolledUpAt).task id = s.task id := by
      rw [reported_task, if_neg]
      rintro rfl
      exact other (named ▸ mem)
    have job : (rollUpJob (recordTask s (Task.withReport task r) Stage.withReport) task.jobId
        r.rolledUpAt).job jobId = s.job jobId := by
      obtain ⟨old, owner⟩ := progress.sound.homed _ task known
      rw [reported_job progress.sound owner, if_neg foreign]
    refine ⟨sound, ?_, ?_, ?_, job ▸ progress.recorded, job ▸ progress.finished⟩
    · intro k t found
      rw [reported_task] at found
      split at found
      · rename_i same
        obtain rfl := Option.some.inj found
        exact iff_of_false (fun own => foreign own.symm) (fun mem => other (named ▸ same ▸ mem))
      · exact progress.owned k t found
    · intro id mem done
      exact tasks id mem ▸ progress.settled id mem done
    · intro id mem waiting
      exact tasks id mem ▸ progress.waiting id mem waiting

theorem reportedOf_append (ids : List String) (calls : List SequentialCall)
    (c : SequentialCall) : reportedOf ids (calls ++ [c]) =
      reportedOf ids calls ++ ((c.report.toList.filter (·.taskId ∈ ids)).map Report.taskId) := by
  simp [reportedOf, reportsOn_append]

end Progress

section Runs
variable [Regex] [SqlParser] [PlanDebug]
variable {jobId : String} {ids reported : List String} {n : Nat} {s s' : ClusterState}

theorem progress_quiet (progress : Progress jobId ids n reported s) {c : SequentialCall}
    (fresh : DrawsFresh s c) (quiet : c.report = none) :
    Progress jobId ids n reported (c.after s) := by
  cases drew : c.draws with
  | some d => exact progress_recorded progress (fresh d drew) (after_recorded drew s)
  | none =>
    cases c with
    | assign workerId => exact progress_assign progress workerId
    | complete r => exact absurd quiet (by simp [SequentialCall.report])
    | _ => exact absurd drew (by simp [SequentialCall.draws])

theorem progress_session {calls : List SequentialCall} (start : Progress jobId ids n [] s)
    (someTask : ids ≠ []) (distinct : ids.Nodup)
    (honest : ∀ r ∈ reportsOn ids calls, r.success = true ∧ r.rows = n)
    (session : Session s calls s') : Progress jobId ids n (reportedOf ids calls) s' := by
  induction session with
  | nil => exact start
  | snoc c before fresh ih =>
    rw [reportsOn_append] at honest
    have progress := ih fun r mem => honest r (List.mem_append_left _ mem)
    rw [reportedOf_append]
    cases made : c.report with
    | none => simpa using progress_quiet progress fresh made
    | some r =>
      obtain rfl : c = .complete r := by
        cases c with
        | complete r' => exact congrArg _ (Option.some.inj made)
        | _ => exact absurd made (by simp [SequentialCall.report])
      by_cases here : r.taskId ∈ ids
      · obtain ⟨success, rows⟩ := honest r
          (List.mem_append_right _ (by simp [SequentialCall.report, here]))
        have next : Progress jobId ids n _ ((SequentialCall.complete r).after _) :=
          progress_complete progress someTask distinct here success rows
        simpa [here] using next
      · have next : Progress jobId ids n _ ((SequentialCall.complete r).after _) :=
          progress_complete_other progress here
        simpa [here] using next

theorem submitted_progress (sound : Sound s) {r : JobRequest} {catalog : Catalog}
    {d : SubmitDraws} {plan : LogicalPlan} (planned : planSql r.sql catalog = .ok plan)
    (fresh : FreshIn s d)
    (distinct : ((stageTasks r d (planPartitions plan r.parallelism)).map Task.id).Nodup) :
    Progress d.jobId ((stageTasks r d (planPartitions plan r.parallelism)).map Task.id) n []
      ((SequentialCall.submit r catalog d).after s) := by
  have recorded : Recorded d s ((SequentialCall.submit r catalog d).after s) :=
    after_recorded rfl s
  have state : (SequentialCall.submit r catalog d).after s =
      submittedState s r d (planPartitions plan r.parallelism) := by
    show ((submitJob r catalog d).run s).1 = _
    rw [submitJob_run, planned]
  have inserted : ∀ t ∈ stageTasks r d (planPartitions plan r.parallelism),
      ((SequentialCall.submit r catalog d).after s).task t.id = some t := by
    intro t mem
    rw [state]
    exact foldl_insertTask_get_mem _ _ distinct mem
  refine ⟨recorded_sound sound fresh recorded, ?_, ?_, ?_, ?_, ?_⟩
  · intro k t found
    have old : s.task k = some t → (t.jobId = d.jobId ↔
        k ∈ (stageTasks r d (planPartitions plan r.parallelism)).map Task.id) := by
      intro old
      refine iff_of_false (fun same => ?_) (fun mem => ?_)
      · obtain ⟨j, known⟩ := sound.homed k t old
        exact absurd known (by simp [same, fresh.job])
      · obtain ⟨t', inside, rfl⟩ := List.mem_map.mp mem
        exact absurd old (by simp [isNew_fresh fresh (stageTasks_new inside)])
    rw [state] at found
    rcases foldl_insertTask_get _ _ found with ⟨mem, rfl⟩ | before
    · obtain ⟨i, label, sql, rfl⟩ := stageTasks_new mem
      exact iff_of_true rfl (List.mem_map_of_mem mem)
    · exact old before
  · intro id _ done
    exact absurd done (List.not_mem_nil)
  · intro id mem _
    obtain ⟨t, inside, rfl⟩ := List.mem_map.mp mem
    exact ⟨t, inserted t inside, isNew_open (stageTasks_new inside)⟩
  · rw [state]
    exact ⟨_, InsertionMap.get_insert_self _ _ _⟩
  · intro all
    obtain ⟨id, mem⟩ := List.exists_mem_of_ne_nil _ (taskIds_ne_nil r d plan)
    exact absurd (all id mem) (List.not_mem_nil)

end Runs

section Result
variable [Regex] [SqlParser] [PlanDebug]

structure WorkedOff (ctx : ExecutionContext) (catalog : Catalog) (tasks : List Task)
    (calls : List SequentialCall) : Prop where
  each : (reportedOf (tasks.map Task.id) calls).Perm (tasks.map Task.id)
  honest : ∀ rep ∈ reportsOn (tasks.map Task.id) calls, rep.success = true ∧
    ∃ t ∈ tasks, t.id = rep.taskId ∧
      ∃ batch, executeTask ctx t catalog = .ok batch ∧ rep.rows = batch.len

def EndsWith (s : ClusterState) (jobId : String) (rows : Nat) : Prop :=
  ∃ j, s.job jobId = some j ∧ j.status = .succeeded ∧ j.resultRows = some rows

theorem executeTask_whole {ctx : ExecutionContext} {catalog : Catalog} {r : JobRequest}
    {d : SubmitDraws} {parts : List PartitionSpec} {plan : LogicalPlan} {t : Task}
    (planned : planSql r.sql catalog = .ok plan) (mem : t ∈ stageTasks r d parts) :
    executeTask ctx t catalog = execute ctx plan := by
  obtain ⟨i, _, rfl⟩ := List.mem_mapIdx.mp mem
  show (do let plan ← planSql r.sql catalog; execute ctx plan) = _
  rw [planned]
  rfl

/-- After all tasks are worked off the job has succeeded with the query's rows counted once
    for each task. -/
theorem worked_off_rows {ctx : ExecutionContext} {catalog : Catalog} {s s' : ClusterState}
    {r : JobRequest} {d : SubmitDraws} {plan : LogicalPlan} {out : RecordBatch}
    {later : List SequentialCall} (sound : Sound s)
    (planned : planSql r.sql catalog = .ok plan) (fresh : FreshIn s d)
    (distinct : ((stageTasks r d (planPartitions plan r.parallelism)).map Task.id).Nodup)
    (answer : execute ctx plan = .ok out)
    (session : Session ((SequentialCall.submit r catalog d).after s) later s')
    (worked : WorkedOff ctx catalog (stageTasks r d (planPartitions plan r.parallelism)) later) :
    EndsWith s' d.jobId
      (usizeSum (List.replicate (max 1 (r.parallelism * scanCount plan)) out.len)) := by
  have start := submitted_progress (n := out.len) sound planned fresh distinct
  have progress := progress_session start (taskIds_ne_nil r d plan) distinct
    (fun rep mem => by
      obtain ⟨success, t, inside, _, batch, executed, rows⟩ := worked.honest rep mem
      rw [executeTask_whole planned inside, answer] at executed
      obtain rfl := Except.ok.inj executed
      exact ⟨success, rows⟩) session
  have ends := progress.finished fun id mem => worked.each.mem_iff.mpr mem
  rw [taskIds_length] at ends
  exact ends

/-- A job whose tasks are all executed and reported ends with the rows of the query executed
    in one place exactly if it has one task, or there are no rows, or counting them for all
    tasks wraps around to their own number. -/
theorem distributed_rows_iff (masterId : String) (order : HashOrder)
    (earlier later : List SequentialCall) (s s' : ClusterState) (ctx : ExecutionContext)
    (catalog : Catalog) (r : JobRequest) (d : SubmitDraws) (plan : LogicalPlan)
    (out : RecordBatch)
    (reached : Session (ClusterState.new masterId order) earlier s)
    (planned : planSql r.sql catalog = .ok plan) (fresh : FreshIn s d)
    (distinct : ((stageTasks r d (planPartitions plan r.parallelism)).map Task.id).Nodup)
    (answer : execute ctx plan = .ok out)
    (session : Session ((SequentialCall.submit r catalog d).after s) later s')
    (worked : WorkedOff ctx catalog (stageTasks r d (planPartitions plan r.parallelism)) later) :
    EndsWith s' d.jobId out.len ↔
      r.parallelism * scanCount plan ≤ 1 ∨ out.len = 0 ∨
        (out.len < usizeSize ∧ usizeSize ∣ (r.parallelism * scanCount plan - 1) * out.len) := by
  have ends := worked_off_rows (session_sound reached) planned fresh distinct answer session
    worked
  rw [← usizeSum_replicate_eq_iff]
  constructor
  · rintro ⟨j, found, _, rows⟩
    obtain ⟨j', found', _, rows'⟩ := ends
    obtain rfl := Option.some.inj (found.symm.trans found')
    exact Option.some.inj (rows'.symm.trans rows)
  · intro same
    exact same ▸ ends

end Result

section Witness

def oneUser : RecordBatch := ⟨usersSchema, [⟨[.int64 1, .string "ann"]⟩]⟩
def usersCtx : ExecutionContext := ⟨⟨fun _ => some ⟨fun _ _ => .ok oneUser⟩⟩⟩

def usersPlan : LogicalPlan :=
  .project (.scan "users" "users.csv" "csv" usersSchema) [.column "id"]
    ⟨[Field.new "id" .string]⟩

def idOfUser : RecordBatch := ⟨⟨[Field.new "id" .string]⟩, [⟨[.int64 1]⟩]⟩

/-- The query submitted for `p` workers to an empty cluster. -/
def sampleStart (p : Nat) : ClusterState :=
  sampleAfter (.submit ⟨"test", usersSql, p⟩ usersCatalog (drawsOf "j" "s" "t" 0))
    (ClusterState.new "m" insertionOrder)

theorem users_planned : @planSql usersParser noDebug usersSql usersCatalog = .ok usersPlan := rfl

theorem users_answer : @execute noRegex usersCtx usersPlan = .ok idOfUser := rfl

def oneWorker : List SequentialCall := [.assign "w", .complete (successOf "t" 1)]

def twoWorkers : List SequentialCall :=
  [.assign "v", .assign "w", .complete (successOf "t+" 1), .complete (successOf "t" 1)]

def sampleTasks (p : Nat) : List Task :=
  stageTasks ⟨"test", usersSql, p⟩ (drawsOf "j" "s" "t" 0) (planPartitions usersPlan p)

theorem sample_fresh (d : SubmitDraws) : FreshIn (ClusterState.new "m" insertionOrder) d :=
  ⟨InsertionMap.get_empty _, fun _ => InsertionMap.get_empty _⟩

theorem sample_session {calls : List SequentialCall} (quiet : ∀ c ∈ calls, c.draws = none)
    (s : ClusterState) : Steps sampleAfter DrawsFresh s calls
      (calls.foldl (fun s c => sampleAfter c s) s) := by
  induction calls generalizing s with
  | nil => exact .nil
  | cons c calls ih =>
    refine .cons c (fun d drew => ?_) (ih (fun c' mem => quiet c' (List.mem_cons_of_mem _ mem)) _)
    exact absurd drew (by simp [quiet c List.mem_cons_self])

theorem sample_honest {p : Nat} {id : String} (mem : id ∈ (sampleTasks p).map Task.id) :
    (successOf id 1).success = true ∧ ∃ t ∈ sampleTasks p, t.id = (successOf id 1).taskId ∧
      ∃ batch, @executeTask noRegex usersParser noDebug usersCtx t usersCatalog = .ok batch ∧
        (successOf id 1).rows = batch.len := by
  obtain ⟨t, inside, rfl⟩ := List.mem_map.mp mem
  have whole := @executeTask_whole noRegex usersParser noDebug usersCtx usersCatalog
    ⟨"test", usersSql, p⟩ _ _ usersPlan t users_planned inside
  exact ⟨rfl, t, inside, rfl, idOfUser, whole.trans users_answer, rfl⟩

/-- One worker and one scan: the job ends with the query's one row. -/
theorem one_worker_agrees :
    EndsWith (oneWorker.foldl (fun s c => sampleAfter c s) (sampleStart 1)) "j" 1 := by
  have worked : @WorkedOff noRegex usersParser noDebug usersCtx usersCatalog (sampleTasks 1)
      oneWorker := by
    refine @WorkedOff.mk noRegex usersParser noDebug _ _ _ _ (List.Perm.refl ["t"]) ?_
    intro rep mem
    obtain rfl : rep = successOf "t" 1 := List.mem_singleton.mp mem
    exact sample_honest (by decide)
  refine (@distributed_rows_iff noRegex usersParser noDebug "m" insertionOrder [] oneWorker _ _
    usersCtx usersCatalog ⟨"test", usersSql, 1⟩ (drawsOf "j" "s" "t" 0) usersPlan idOfUser
    .nil users_planned (sample_fresh _) (by decide) users_answer
    (sample_session (by decide) _) worked).mpr ?_
  exact Or.inl (by decide)

/-- Two workers each execute the whole query, and its one row is counted twice. -/
theorem two_workers_double :
    @planSql usersParser noDebug usersSql usersCatalog = .ok usersPlan ∧
      @execute noRegex usersCtx usersPlan = .ok idOfUser ∧
      @WorkedOff noRegex usersParser noDebug usersCtx usersCatalog (sampleTasks 2) twoWorkers ∧
      Steps sampleAfter DrawsFresh (sampleStart 2) twoWorkers
        (twoWorkers.foldl (fun s c => sampleAfter c s) (sampleStart 2)) ∧
      ¬ EndsWith (twoWorkers.foldl (fun s c => sampleAfter c s) (sampleStart 2)) "j"
        idOfUser.len := by
  refine ⟨rfl, rfl, ?_, sample_session (by decide) _, ?_⟩
  · refine @WorkedOff.mk noRegex usersParser noDebug _ _ _ _ (List.Perm.swap "t" "t+" []) ?_
    intro rep mem
    have mem : rep ∈ [successOf "t+" 1, successOf "t" 1] := mem
    rcases List.mem_cons.mp mem with rfl | mem
    · exact sample_honest (by decide)
    · obtain rfl := List.mem_singleton.mp mem
      exact sample_honest (by decide)
  · rintro ⟨j, found, _, rows⟩
    obtain rfl := Option.some.inj found
    exact absurd rows (by decide)

end Witness

end RSparkDistributedRows
