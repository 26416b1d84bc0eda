import RSpark.MasterSteps

/- Terminal statuses of tasks and jobs over runs of sequential calls: when later reports
   leave them as they are. -/
namespace RSparkStatusFinality
open RSparkExpr RSparkSqlAst RSparkPlanner RSparkExecutor
open RSparkClusterState RSparkMaster RSparkMasterSteps Calls

section Condition

/-- The other tasks of the job of `task`. -/
def othersOf (s : ClusterState) (task : Task) : List Task :=
  (s.tasksForJob task.jobId).filter (·.id ≠ task.id)

/-- A job's terminal status is the one its tasks give once the report is recorded. -/
def Agrees (r : Report) (others : List Task) : JobStatus → Prop
  | .pending => True
  | .running => True
  | .succeeded => r.success = true ∧ ∀ o ∈ others, o.status.isFailed = false
  | .failed message =>
      (r.success = true → ∃ o ∈ others, o.status.isSucceeded = false) ∧
      (r.success = false → r.error.getD "" = message) ∧
      ∀ o ∈ others, ∀ m, o.status = .failed m → m = message
  | .cancelled =>
      r.success = true ∧ (∀ o ∈ others, o.status.isFailed = false) ∧
        ∃ o ∈ others, o.status.isSucceeded = false

structure Harmless (s : ClusterState) (r : Report) : Prop where
  task : ∀ t, s.task r.taskId = some t → t.status.isTerminal = true → r.status = t.status
  job : ∀ t j, s.task r.taskId = some t → s.job t.jobId = some j →
    Agrees r (othersOf s t) j.status

def Settling (s : ClusterState) (c : SequentialCall) : Prop :=
  DrawsFresh s c ∧ ∀ r, c.report = some r → Harmless s r

structure StatusesKept (s s' : ClusterState) : Prop where
  tasks : ∀ id t, s.task id = some t → t.status.isTerminal = true →
    ∃ t', s'.task id = some t' ∧ t'.status = t.status
  jobs : ∀ id j, s.job id = some j → j.status.isTerminal = true →
    ∃ j', s'.job id = some j' ∧ j'.status = j.status

theorem StatusesKept.refl (s : ClusterState) : StatusesKept s s :=
  ⟨fun _ t found _ => ⟨t, found, rfl⟩, fun _ j found _ => ⟨j, found, rfl⟩⟩

theorem StatusesKept.trans {a b c : ClusterState} (first : StatusesKept a b)
    (second : StatusesKept b c) : StatusesKept a c := by
  constructor
  · intro id t found done
    obtain ⟨t', found', same⟩ := first.tasks id t found done
    obtain ⟨t'', found'', same'⟩ := second.tasks id t' found' (same ▸ done)
    exact ⟨t'', found'', same'.trans same⟩
  · intro id j found done
    obtain ⟨j', found', same⟩ := first.jobs id j found done
    obtain ⟨j'', found'', same'⟩ := second.jobs id j' found' (same ▸ done)
    exact ⟨j'', found'', same'.trans same⟩

end Condition

section Report
variable {s : ClusterState}

theorem mem_reported (sound : Sound s) {task : Task} (r : Report) {x : Task} :
    x ∈ (recordTask s (Task.withReport task r) Stage.withReport).tasksForJob task.jobId ↔
      x = Task.withReport task r ∨ x ∈ othersOf s task := by
  simp only [mem_tasksForJob, othersOf, List.mem_filter, InsertionMap.mem_values_iff,
    recordTask_tasks, InsertionMap.get_insert, decide_eq_true_eq]
  constructor
  · rintro ⟨⟨k, found⟩, job⟩
    split at found
    · exact Or.inl (Option.some.inj found).symm
    · rename_i other
      refine Or.inr ⟨⟨⟨k, found⟩, job⟩, fun same => other ?_⟩
      rw [← sound.taskKeys k x found, same]
      rfl
  · rintro (rfl | ⟨⟨⟨k, found⟩, job⟩, other⟩)
    · exact ⟨⟨_, if_pos rfl⟩, rfl⟩
    · refine ⟨⟨k, ?_⟩, job⟩
      rw [if_neg, found]
      rintro rfl
      exact other (sound.taskKeys _ x found)

theorem withReport_succeeded (task : Task) (r : Report) :
    (Task.withReport task r).status.isSucceeded = r.success := by
  simp only [Task.withReport, Report.status]
  cases r.success <;> rfl

theorem withReport_failed (task : Task) (r : Report) :
    (Task.withReport task r).status.isFailed = !r.success := by
  simp only [Task.withReport, Report.status]
  cases r.success <;> rfl

theorem failureMessage_eq {t : Task} {m : String} :
    failureMessage t = some m ↔ t.status = .failed m := by
  unfold failureMessage
  split
  · rename_i message failed
    simp [failed]
  · rename_i other
    exact ⟨fun absurdity => by simp at absurdity, fun failed => absurd failed (other m)⟩

theorem findSome_message {tasks : List Task} {message : String}
    (some_failed : (tasks.any fun t => t.status.isFailed) = true)
    (alike : ∀ t ∈ tasks, ∀ m, t.status = .failed m → m = message) :
    tasks.findSome? failureMessage = some message := by
  obtain ⟨t, mem, failed⟩ := List.any_eq_true.mp some_failed
  cases found : tasks.findSome? failureMessage with
  | none =>
    have silent := List.findSome?_eq_none_iff.mp found t mem
    cases status : t.status with
    | failed m => exact absurd (failureMessage_eq.mpr status) (by simp [silent])
    | _ => simp [status, TaskStatus.isFailed] at failed
  | some m =>
    obtain ⟨t', mem', carries⟩ := List.exists_of_findSome?_eq_some found
    rw [alike t' mem' m (failureMessage_eq.mp carries)]

section RollUp
variable {tasks others : List Task} {task : Task} {r : Report}

theorem all_reported (members : ∀ x, x ∈ tasks ↔ x = Task.withReport task r ∨ x ∈ others)
    (success : allSucceeded tasks = true) :
    r.success = true ∧ ∀ o ∈ others, o.status.isSucceeded = true := by
  simp only [allSucceeded, Bool.and_eq_true, List.all_eq_true] at success
  constructor
  · rw [← withReport_succeeded task r]
    exact success.2 _ ((members _).mpr (Or.inl rfl))
  · intro o mem
    exact success.2 o ((members o).mpr (Or.inr mem))

theorem none_failed (members : ∀ x, x ∈ tasks ↔ x = Task.withReport task r ∨ x ∈ others)
    (success : r.success = true) (quiet : ∀ o ∈ others, o.status.isFailed = false) :
    ¬ (tasks.any fun t => t.status.isFailed) = true := by
  intro failure
  obtain ⟨t, mem, failed⟩ := List.any_eq_true.mp failure
  rcases (members t).mp mem with rfl | other
  · rw [withReport_failed, success] at failed
    exact nomatch failed
  · rw [quiet t other] at failed
    exact nomatch failed

theorem failed_alike {message : String}
    (members : ∀ x, x ∈ tasks ↔ x = Task.withReport task r ∨ x ∈ others)
    (own : r.success = false → r.error.getD "" = message)
    (alike : ∀ o ∈ others, ∀ m, o.status = .failed m → m = message) :
    ∀ t ∈ tasks, ∀ m, t.status = .failed m → m = message := by
  intro t mem m failed
  rcases (members t).mp mem with rfl | other
  · cases success : r.success with
    | true => simp [Task.withReport, Report.status, success] at failed
    | false =>
      have carries : r.error.getD "" = m := by
        simpa [Task.withReport, Report.status, success] using failed
      rw [← carries, own success]
  · exact alike t other m failed

theorem rolledUp_agrees {job : Job} (now : Time)
    (members : ∀ x, x ∈ tasks ↔ x = Task.withReport task r ∨ x ∈ others)
    (agrees : Agrees r others job.status) (done : job.status.isTerminal = true) :
    (Job.rolledUp job tasks now).status = job.status := by
  rw [rolledUp_status]
  cases status : job.status with
  | pending => simp [status, JobStatus.isTerminal] at done
  | running => simp [status, JobStatus.isTerminal] at done
  | succeeded =>
    rw [status] at agrees
    obtain ⟨success, noneFailed⟩ := agrees
    have quiet := none_failed members success noneFailed
    simp [quiet]
  | failed message =>
    rw [status] at agrees
    obtain ⟨unfinished, own, alike⟩ := agrees
    have notAll : ¬ allSucceeded tasks = true := by
      intro every
      obtain ⟨reported, rest⟩ := all_reported members every
      obtain ⟨o, mem, isOpen⟩ := unfinished reported
      simp [rest o mem] at isOpen
    rw [if_neg notAll]
    split
    · rename_i failure
      rw [findSome_message failure (failed_alike members own alike)]
      rfl
    · rfl
  | cancelled =>
    rw [status] at agrees
    obtain ⟨success, noneFailed, o, mem, isOpen⟩ := agrees
    have notAll : ¬ allSucceeded tasks = true := by
      intro every
      simp [(all_reported members every).2 o mem] at isOpen
    rw [if_neg notAll, if_neg (none_failed members success noneFailed)]

end RollUp

theorem completeTask_keeps (sound : Sound s) {r : Report} (harmless : Harmless s r) :
    StatusesKept s ((completeTask r).run s).1 := by
  rw [completeTask_state]
  cases known : s.task r.taskId with
  | none => exact StatusesKept.refl s
  | some task =>
    have named := sound.taskKeys _ _ known
    constructor
    · intro id t found done
      simp only [ClusterState.task, rollUpJob_tasks, recordTask_tasks, InsertionMap.get_insert]
      split
      · rename_i here
        have same : id = r.taskId := here.trans named
        obtain rfl := Option.some.inj (known.symm.trans (same ▸ found))
        exact ⟨_, rfl, harmless.task task known done⟩
      · exact ⟨t, found, rfl⟩
    · intro id j found done
      obtain ⟨old, owner⟩ := sound.homed _ task known
      have rolled := reported_job (r := r) sound owner id
      by_cases same : id = task.jobId
      · subst same
        obtain rfl := Option.some.inj (owner.symm.trans found)
        rw [if_pos rfl] at rolled
        refine ⟨_, rolled, ?_⟩
        exact rolledUp_agrees _ (fun _ => mem_reported sound r)
          (harmless.job task old known found) done
      · rw [if_neg same] at rolled
        exact ⟨j, rolled.trans found, rfl⟩

theorem tryAssignTask_keeps (sound : Sound s) (workerId : String) :
    StatusesKept s ((tryAssignTask workerId).run s).1 := by
  rcases tryAssignTask_cases sound workerId with same | ⟨task, rest, waiting, known, same⟩
  · rw [same]
    exact StatusesKept.refl s
  · rw [same]
    constructor
    · intro id t found done
      have other : id ≠ task.id := by
        rintro rfl
        obtain rfl := Option.some.inj (known.symm.trans found)
        simp [popped_open sound waiting known] at done
      refine ⟨t, ?_, rfl⟩
      rw [assigned_task, if_neg other]
      exact found
    · intro id j found _
      exact ⟨j, (recordTask_job id).trans found, rfl⟩

theorem recorded_keeps {s' : ClusterState} {d : SubmitDraws} (fresh : FreshIn s d)
    (recorded : Recorded d s s') : StatusesKept s s' :=
  ⟨fun _ t found _ => ⟨t, recorded_keeps_task fresh recorded found, rfl⟩,
    fun _ j found _ => ⟨j, recorded_keeps_job fresh recorded found, rfl⟩⟩

end Report

section Runs
variable [Regex] [SqlParser] [PlanDebug]

theorem after_keeps {s : ClusterState} {c : SequentialCall} (sound : Sound s)
    (settling : Settling s c) : StatusesKept s (c.after s) := by
  obtain ⟨fresh, harmless⟩ := settling
  cases c with
  | submit r catalog d => exact recorded_keeps (fresh d rfl) (after_recorded rfl s)
  | skipPlan r d => exact recorded_keeps (fresh d rfl) (after_recorded rfl s)
  | assign workerId => exact tryAssignTask_keeps sound workerId
  | complete r => exact completeTask_keeps sound (harmless r rfl)
  | sql ctx submitted catalog body d => exact recorded_keeps (fresh _ rfl) (after_recorded rfl s)

/-- In a run whose reports all repeat or settle, a status that has become terminal stays. -/
theorem terminal_statuses_stay (masterId : String) (order : HashOrder)
    (earlier later : List SequentialCall) (s s' : ClusterState)
    (reached : Steps SequentialCall.after Settling (ClusterState.new masterId order) earlier s)
    (continues : Steps SequentialCall.after Settling s later s') : StatusesKept s s' := by
  have sound := session_sound (reached.weaken fun settling => settling.1)
  exact continues.respects StatusesKept.refl StatusesKept.trans sound
    (fun sound settling => after_sound sound settling.1) after_keeps

end Runs

section Witness

def usersSubmit : SequentialCall :=
  .submit ⟨"test", usersSql, 1⟩ usersCatalog (drawsOf "j" "s" "t" 0)

def failureOf (taskId message : String) : Report := ⟨taskId, 0, false, some message, 9, 10⟩

def onceReported : ClusterState :=
  sampleAfter (.complete (successOf "t" 100)) (sampleAfter (.assign "w")
    (sampleAfter usersSubmit emptyState))

theorem empty_fresh (d : SubmitDraws) : FreshIn emptyState d :=
  ⟨InsertionMap.get_empty _, fun _ => InsertionMap.get_empty _⟩

theorem harmless_known {s : ClusterState} {r : Report} {t : Task} {j : Job}
    (known : s.task r.taskId = some t) (job : s.job t.jobId = some j)
    (same : t.status.isTerminal = true → r.status = t.status)
    (agrees : Agrees r (othersOf s t) j.status) : Harmless s r := by
  refine ⟨fun t' found => ?_, fun t' j' found owned => ?_⟩
  · obtain rfl := Option.some.inj (known.symm.trans found)
    exact same
  · obtain rfl := Option.some.inj (known.symm.trans found)
    obtain rfl := Option.some.inj (job.symm.trans owned)
    exact agrees

theorem once_reported_settling :
    Steps sampleAfter Settling emptyState
      [usersSubmit, .assign "w", .complete (successOf "t" 100)] onceReported := by
  refine .cons _ ⟨fun d _ => empty_fresh d, fun r none => (nomatch none)⟩ ?_
  refine .cons _ ⟨fun d none => (nomatch none), fun r none => (nomatch none)⟩ ?_
  refine .cons _ ⟨fun d none => (nomatch none), fun r found => ?_⟩ .nil
  obtain rfl := Option.some.inj found
  exact harmless_known rfl rfl (fun done => absurd done (by decide)) trivial

/-- A worker reports the same success twice. -/
theorem success_repeated :
    (onceReported.job "j").map Job.status = some .succeeded ∧
      StatusesKept onceReported (sampleAfter (.complete (successOf "t" 100)) onceReported) := by
  have alone : ∀ o ∈ ([] : List Task), o.status.isFailed = false := by simp
  have again : Harmless onceReported (successOf "t" 100) :=
    harmless_known rfl rfl (fun _ => rfl) ⟨rfl, alone⟩
  have settling : Settling onceReported (.complete (successOf "t" 100)) :=
    ⟨fun d none => (nomatch none), fun r found => Option.some.inj found ▸ again⟩
  exact ⟨rfl, @terminal_statuses_stay noRegex usersParser noDebug "m" insertionOrder _ _ _ _
    once_reported_settling (.cons _ settling .nil)⟩

/-- A report of failure after one of success reopens the job. -/
theorem late_failure_overwrites :
    ¬ ∀ (masterId : String) (order : HashOrder) (earlier later : List SequentialCall)
      (s s' : ClusterState),
      Steps sampleAfter DrawsFresh (ClusterState.new masterId order) earlier s →
      Steps sampleAfter DrawsFresh s later s' → StatusesKept s s' := by
  intro claim
  have kept := claim "m" insertionOrder _ _ _ _
    (once_reported_settling.weaken fun settling => settling.1)
    (.cons (.complete (failureOf "t" "late")) (fun d none => (nomatch none)) .nil)
  obtain ⟨t, found, same⟩ := kept.tasks "t" _ rfl rfl
  obtain rfl := Option.some.inj found
  exact absurd same (by decide)

end Witness

end RSparkStatusFinality
