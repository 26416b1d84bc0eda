import RSpark.DistributedRows
import RSpark.StatusFinality

/- Job statuses in sequential histories that report no task twice: at every moment they are
   what the job's tasks give, while the rows of each finished job add up within `usize`. -/
namespace RSparkJobStatuses
open RSparkExpr RSparkSqlAst RSparkPlanner RSparkExecutor
open RSparkClusterState RSparkMaster RSparkMasterSteps RSparkStatusFinality Calls

section Statuses

structure StatusOf (tasks : List Task) (j : Job) : Prop where
  present : tasks ≠ []
  succeeded : j.status = .succeeded ↔ ∀ t ∈ tasks, t.status = .succeeded
  rows : j.status = .succeeded → ∃ rows : Task → Nat,
    (∀ t ∈ tasks, t.resultRows = some (rows t)) ∧ j.resultRows = some (tasks.map rows).sum
  failed : (∃ message, j.status = .failed message) ↔
    ∃ t ∈ tasks, ∃ message, t.status = .failed message
  running : j.status ≠ .succeeded → (∀ message, j.status ≠ .failed message) →
    j.status = .running

theorem StatusOf.perm {tasks tasks' : List Task} {j : Job} (same : tasks.Perm tasks')
    (status : StatusOf tasks j) : StatusOf tasks' j := by
  obtain ⟨present, succeeded, rows, failed, running⟩ := status
  refine ⟨?_, ?_, ?_, ?_, running⟩
  · intro none
    exact present (List.perm_nil.mp (none ▸ same))
  · simpa only [same.mem_iff] using succeeded
  · intro success
    obtain ⟨count, each, total⟩ := rows success
    refine ⟨count, ?_, ?_⟩
    · intro t mem
      exact each t (same.mem_iff.mpr mem)
    · rw [total, (same.map count).sum_nat]
  · simpa only [same.mem_iff] using failed

theorem isFailed_iff {status : TaskStatus} :
    status.isFailed = true ↔ ∃ message, status = .failed message := by
  cases status <;> simp [TaskStatus.isFailed]

theorem open_iff {status : TaskStatus} : status.isTerminal = false ↔
    status ≠ .succeeded ∧ ∀ message, status ≠ .failed message := by
  cases status <;> simp [TaskStatus.isTerminal, TaskStatus.isSucceeded, TaskStatus.isFailed]

theorem StatusOf.reopen {tasks tasks' others : List Task} {t t' : Task} {j : Job}
    (before : ∀ x, x ∈ tasks ↔ x = t ∨ x ∈ others)
    (after : ∀ x, x ∈ tasks' ↔ x = t' ∨ x ∈ others) (isOpen : t.status.isTerminal = false)
    (isOpen' : t'.status.isTerminal = false) (status : StatusOf tasks j) :
    StatusOf tasks' j := by
  obtain ⟨notSucceeded, notFailed⟩ := open_iff.mp isOpen
  obtain ⟨notSucceeded', notFailed'⟩ := open_iff.mp isOpen'
  have unfinished : j.status ≠ .succeeded := by
    intro success
    exact notSucceeded (status.succeeded.mp success t ((before t).mpr (Or.inl rfl)))
  refine ⟨?_, ?_, fun success => absurd success unfinished, ?_, status.running⟩
  · intro none
    have mem : t' ∈ tasks' := (after t').mpr (Or.inl rfl)
    rw [none] at mem
    exact nomatch mem
  · constructor
    · intro success
      exact absurd success unfinished
    · intro all
      exact absurd (all t' ((after t').mpr (Or.inl rfl))) notSucceeded'
  · rw [status.failed]
    constructor
    · rintro ⟨x, mem, message, failed⟩
      rcases (before x).mp mem with rfl | other
      · exact absurd failed (notFailed message)
      · exact ⟨x, (after x).mpr (Or.inr other), message, failed⟩
    · rintro ⟨x, mem, message, failed⟩
      rcases (after x).mp mem with rfl | other
      · exact absurd failed (notFailed' message)
      · exact ⟨x, (before x).mpr (Or.inr other), message, failed⟩

section RollUp
variable {tasks : List Task} {j : Job}

theorem StatusOf.of_all (now : Time) (present : tasks ≠ [])
    (counted : ∀ x ∈ tasks, x.status = .succeeded → ∃ n, x.resultRows = some n)
    (all : ∀ x ∈ tasks, x.status = .succeeded) (fits : (reportedRows tasks).sum < usizeSize) :
    StatusOf tasks (Job.rolledUp j tasks now) := by
  have success : allSucceeded tasks = true := by
    simp only [allSucceeded, Bool.and_eq_true, List.all_eq_true]
    exact ⟨by simp [present], fun x mem => isSucceeded_iff.mpr (all x mem)⟩
  have quiet : ¬ ∃ x ∈ tasks, ∃ message, x.status = .failed message := by
    rintro ⟨x, mem, message, failed⟩
    rw [all x mem] at failed
    cases failed
  have each : ∀ x ∈ tasks, x.resultRows = some (x.resultRows.getD 0) := by
    intro x mem
    obtain ⟨n, rows⟩ := counted x mem (all x mem)
    rw [rows]
    rfl
  rw [Job.rolledUp, if_pos success]
  refine ⟨present, ⟨fun _ => all, fun _ => rfl⟩, ?_, ?_, fun other => absurd rfl other⟩
  · intro _
    refine ⟨fun x => x.resultRows.getD 0, each, ?_⟩
    rw [rowsOf, usizeSum_of_lt fits, reportedRows_eq each]
  · refine ⟨?_, fun failed => absurd failed quiet⟩
    rintro ⟨_, failed⟩
    cases failed

theorem not_allSucceeded (some_left : ¬ ∀ x ∈ tasks, x.status = .succeeded) :
    ¬ allSucceeded tasks = true := by
  intro success
  simp only [allSucceeded, Bool.and_eq_true, List.all_eq_true] at success
  exact some_left fun x mem => isSucceeded_iff.mp (success.2 x mem)

theorem StatusOf.of_failure (now : Time)
    (failure : ∃ x ∈ tasks, ∃ message, x.status = .failed message) :
    StatusOf tasks (Job.rolledUp j tasks now) := by
  obtain ⟨x, mem, message, failed⟩ := failure
  have some_left : ¬ ∀ x ∈ tasks, x.status = .succeeded := by
    intro all
    rw [all x mem] at failed
    cases failed
  have any : (tasks.any fun x => x.status.isFailed) = true :=
    List.any_eq_true.mpr ⟨x, mem, isFailed_iff.mpr ⟨message, failed⟩⟩
  rw [Job.rolledUp, if_neg (not_allSucceeded some_left), if_pos any]
  refine ⟨List.ne_nil_of_mem mem, ?_, ?_, ?_, ?_⟩
  · refine ⟨?_, fun success => absurd success some_left⟩
    intro success
    cases success
  · intro success
    cases success
  · exact ⟨fun _ => ⟨x, mem, message, failed⟩, fun _ => ⟨_, rfl⟩⟩
  · intro _ none
    exact absurd rfl (none _)

theorem rolledUp_open (now : Time) (waiting : ∃ t ∈ tasks, t.status.isTerminal = false)
    (quiet : ∀ t ∈ tasks, t.status.isFailed = false) : Job.rolledUp j tasks now = j := by
  have some_left : ¬ ∀ x ∈ tasks, x.status = .succeeded := by
    intro all
    obtain ⟨t, mem, isOpen⟩ := waiting
    exact (open_iff.mp isOpen).1 (all t mem)
  have none_failed : ¬ (tasks.any fun t => t.status.isFailed) = true := by
    intro failure
    obtain ⟨t, mem, failed⟩ := List.any_eq_true.mp failure
    rw [quiet t mem] at failed
    exact nomatch failed
  rw [Job.rolledUp, if_neg (not_allSucceeded some_left), if_neg none_failed]

theorem StatusOf.of_waiting (waiting : ∃ t ∈ tasks, t.status.isTerminal = false)
    (quiet : ∀ x ∈ tasks, ∀ message, x.status ≠ .failed message)
    (running : j.status = .running) : StatusOf tasks j := by
  obtain ⟨t, mem, isOpen⟩ := waiting
  have unfinished : j.status ≠ .succeeded := by
    rw [running]
    intro success
    exact nomatch success
  refine ⟨List.ne_nil_of_mem mem, ?_, fun success => absurd success unfinished, ?_,
    fun _ _ => running⟩
  · constructor
    · intro success
      exact absurd success unfinished
    · intro all
      exact absurd (all t mem) (open_iff.mp isOpen).1
  · constructor
    · rintro ⟨message, failure⟩
      rw [running] at failure
      exact nomatch failure
    · rintro ⟨x, mem, message, failed⟩
      exact absurd failed (quiet x mem message)

end RollUp

theorem StatusOf.report {tasks tasks' others : List Task} {t t' : Task} {j : Job} (now : Time)
    (before : ∀ x, x ∈ tasks ↔ x = t ∨ x ∈ others)
    (after : ∀ x, x ∈ tasks' ↔ x = t' ∨ x ∈ others) (isOpen : t.status.isTerminal = false)
    (counted : ∀ x ∈ tasks', x.status = .succeeded → ∃ n, x.resultRows = some n)
    (fits : (∀ x ∈ tasks', x.status = .succeeded) → (reportedRows tasks').sum < usizeSize)
    (status : StatusOf tasks j) : StatusOf tasks' (Job.rolledUp j tasks' now) := by
  obtain ⟨notSucceeded, notFailed⟩ := open_iff.mp isOpen
  have present : tasks' ≠ [] := List.ne_nil_of_mem ((after t').mpr (Or.inl rfl))
  by_cases all : ∀ x ∈ tasks', x.status = .succeeded
  · exact StatusOf.of_all now present counted all (fits all)
  by_cases any : ∃ x ∈ tasks', ∃ message, x.status = .failed message
  · exact StatusOf.of_failure now any
  -- the open task kept the job from having settled before
  have quiet : ∀ x ∈ tasks', ∀ message, x.status ≠ .failed message := by
    intro x mem message failed
    exact any ⟨x, mem, message, failed⟩
  have unfinished : j.status ≠ .succeeded := by
    intro success
    exact notSucceeded (status.succeeded.mp success t ((before t).mpr (Or.inl rfl)))
  have unfailed : ∀ message, j.status ≠ .failed message := by
    intro message failure
    obtain ⟨x, mem, m, failed⟩ := status.failed.mp ⟨message, failure⟩
    rcases (before x).mp mem with rfl | other
    · exact notFailed m failed
    · exact quiet x ((after x).mpr (Or.inr other)) m failed
  have waiting : ∃ x ∈ tasks', x.status.isTerminal = false := by
    simp only [not_forall] at all
    obtain ⟨x, mem, left⟩ := all
    exact ⟨x, mem, open_iff.mpr ⟨left, quiet x mem⟩⟩
  rw [rolledUp_open now waiting]
  · exact StatusOf.of_waiting waiting quiet (status.running unfinished unfailed)
  · intro x mem
    exact Bool.eq_false_of_not_eq_true fun failed =>
      any ⟨x, mem, isFailed_iff.mp failed⟩

end Statuses

section States
variable {s s' : ClusterState}

/-- Every job has the status its tasks give, and what succeeded has its rows counted. -/
structure Settled (s : ClusterState) : Prop where
  sound : Sound s
  counted : ∀ k t, s.task k = some t → t.status = .succeeded → ∃ n, t.resultRows = some n
  jobs : ∀ k j, s.job k = some j → StatusOf (s.tasksForJob k) j

theorem tasksForJob_nodup (keyed : TasksKeyed s) (k : String) : (s.tasksForJob k).Nodup :=
  List.Nodup.of_map _ (tasksForJob_ids_nodup keyed k)

theorem tasksForJob_congr (keyed : TasksKeyed s) (keyed' : TasksKeyed s') {k : String}
    (same : ∀ t, t ∈ s.tasksForJob k ↔ t ∈ s'.tasksForJob k) :
    (s.tasksForJob k).Perm (s'.tasksForJob k) :=
  (List.perm_ext_iff_of_nodup (tasksForJob_nodup keyed k) (tasksForJob_nodup keyed' k)).mpr same

theorem mem_of_task (keyed : TasksKeyed s) {k : String} {t : Task} (found : s.task k = some t) :
    t ∈ s.tasksForJob t.jobId := by
  obtain rfl := keyed k t found
  exact (mem_tasksForJob_iff keyed).mpr ⟨found, rfl⟩

theorem mem_before (keyed : TasksKeyed s) {task : Task} (known : s.task task.id = some task)
    {x : Task} : x ∈ s.tasksForJob task.jobId ↔ x = task ∨ x ∈ othersOf s task := by
  simp only [othersOf, List.mem_filter, decide_eq_true_eq]
  constructor
  · intro mem
    by_cases same : x.id = task.id
    · have found := ((mem_tasksForJob_iff keyed).mp mem).1
      rw [same, known] at found
      exact Or.inl (Option.some.inj found).symm
    · exact Or.inr ⟨mem, same⟩
  · rintro (rfl | ⟨mem, _⟩)
    · exact mem_of_task keyed known
    · exact mem

theorem mem_after (keyed : TasksKeyed s) (keyed' : TasksKeyed s') {task changed : Task}
    (written : ∀ k, s'.task k = if k = task.id then some changed else s.task k)
    (named : changed.id = task.id) (owner : changed.jobId = task.jobId) {x : Task} :
    x ∈ s'.tasksForJob task.jobId ↔ x = changed ∨ x ∈ othersOf s task := by
  rw [mem_tasksForJob_iff keyed', written]
  simp only [othersOf, List.mem_filter, decide_eq_true_eq, mem_tasksForJob_iff keyed]
  by_cases same : x.id = task.id
  · rw [if_pos same]
    constructor
    · rintro ⟨found, _⟩
      exact Or.inl (Option.some.inj found).symm
    · rintro (rfl | ⟨_, other⟩)
      · exact ⟨rfl, owner⟩
      · exact absurd same other
  · rw [if_neg same]
    constructor
    · intro found
      exact Or.inr ⟨found, same⟩
    · rintro (rfl | ⟨found, _⟩)
      · exact absurd named same
      · exact found

theorem mem_elsewhere (keyed : TasksKeyed s) (keyed' : TasksKeyed s') {task changed : Task}
    (written : ∀ k, s'.task k = if k = task.id then some changed else s.task k)
    (owner : changed.jobId = task.jobId) (known : s.task task.id = some task) {k : String}
    (other : k ≠ task.jobId) {x : Task} :
    x ∈ s.tasksForJob k ↔ x ∈ s'.tasksForJob k := by
  rw [mem_tasksForJob_iff keyed, mem_tasksForJob_iff keyed', written]
  by_cases same : x.id = task.id
  · rw [if_pos same, same, known]
    constructor
    · rintro ⟨found, here⟩
      obtain rfl := Option.some.inj found
      exact absurd here.symm other
    · rintro ⟨found, here⟩
      obtain rfl := Option.some.inj found
      exact absurd (here.symm.trans owner) other
  · rw [if_neg same]

theorem reported_tasks (sound : Sound s) (task : Task) (r : Report) :
    ((recordTask s (Task.withReport task r) Stage.withReport).tasksForJob task.jobId).Perm
      (Task.withReport task r :: othersOf s task) := by
  have keyed : TasksKeyed (recordTask s (Task.withReport task r) Stage.withReport) := by
    intro k x found
    rw [ClusterState.task, recordTask_tasks, InsertionMap.get_insert] at found
    split at found
    · rename_i here
      obtain rfl := Option.some.inj found
      exact here.symm
    · exact sound.taskKeys k x found
  refine (List.perm_ext_iff_of_nodup (tasksForJob_nodup keyed _) ?_).mpr fun x => ?_
  · refine List.nodup_cons.mpr ⟨?_, (tasksForJob_nodup sound.taskKeys _).filter _⟩
    simp [othersOf, Task.withReport]
  · rw [mem_reported sound r, List.mem_cons]

/-- A report that finishes its job leaves rows that add up within `usize`. -/
def RowsFit (s : ClusterState) (r : Report) : Prop :=
  r.success = true → ∀ t, s.task r.taskId = some t →
    (∀ other ∈ othersOf s t, other.status = .succeeded) →
      r.rows + (reportedRows (othersOf s t)).sum < usizeSize

theorem reported_rows_fit (sound : Sound s) {task : Task} (known : s.task task.id = some task)
    {r : Report} (named : task.id = r.taskId) (fit : RowsFit s r)
    (all : ∀ x ∈ (recordTask s (Task.withReport task r) Stage.withReport).tasksForJob task.jobId,
      x.status = .succeeded) :
    (reportedRows ((recordTask s (Task.withReport task r) Stage.withReport).tasksForJob
      task.jobId)).sum < usizeSize := by
  have perm := reported_tasks sound task r
  have each (x : Task) (mem : x ∈ Task.withReport task r :: othersOf s task) :
      x.status = .succeeded := all x (perm.mem_iff.mpr mem)
  have success : r.success = true := by
    by_contra failed
    have here := each _ List.mem_cons_self
    rw [Task.withReport, Report.status, if_neg failed] at here
    cases here
  have rows : (reportedRows (Task.withReport task r :: othersOf s task)).sum =
      r.rows + (reportedRows (othersOf s task)).sum := by
    have here : (Task.withReport task r).resultRows = some r.rows := rfl
    rw [reportedRows, List.filterMap_cons_some here, List.sum_cons, reportedRows]
  rw [reportedRows, (perm.filterMap _).sum_nat, ← reportedRows, rows]
  exact fit success task (named ▸ known) fun x mem => each x (List.mem_cons_of_mem _ mem)

end States

section Steps
variable {s : ClusterState}

theorem submitted_settled (settled : Settled s) {d : SubmitDraws} (fresh : FreshIn s d)
    (r : JobRequest) {partitions : List PartitionSpec}
    (some_task : (stageTasks r d partitions).map Task.id ≠ []) :
    Settled (submittedState s r d partitions) := by
  have recorded := submittedState_recorded s r d partitions
  have sound := recorded_sound settled.sound fresh recorded
  have newTask {t : Task} (mem : t ∈ (submittedState s r d partitions).tasksForJob d.jobId) :
      IsNew d t := by
    obtain ⟨found, owner⟩ := (mem_tasksForJob_iff sound.taskKeys).mp mem
    rcases recorded_task recorded found with ⟨isNew, _⟩ | old
    · exact isNew
    · obtain ⟨j, owned⟩ := settled.sound.homed _ t old
      rw [owner, fresh.job] at owned
      exact nomatch owned
  have present : (submittedState s r d partitions).tasksForJob d.jobId ≠ [] := by
    obtain ⟨id, mem⟩ := List.exists_mem_of_ne_nil _ some_task
    obtain ⟨t, found, i, label, sql, rfl⟩ := submitted_task fresh r partitions mem
    exact List.ne_nil_of_mem (mem_of_task sound.taskKeys found)
  refine ⟨sound, ?_, ?_⟩
  · intro k t found success
    rcases recorded_task recorded found with ⟨isNew, _⟩ | old
    · exact absurd success (open_iff.mp (isNew_open isNew)).1
    · exact settled.counted k t old success
  · intro k j found
    by_cases own : k = d.jobId
    · subst own
      have written : (submittedState s r d partitions).job d.jobId = some (runningJob r d) :=
        InsertionMap.get_insert_self _ _ _
      obtain rfl := Option.some.inj (written.symm.trans found)
      obtain ⟨first, mem⟩ := List.exists_mem_of_ne_nil _ present
      refine StatusOf.of_waiting ⟨first, mem, isNew_open (newTask mem)⟩ ?_ rfl
      intro t mem
      exact (open_iff.mp (isNew_open (newTask mem))).2
    · have before : s.job k = some j := by
        obtain ⟨ts, _, touches, _⟩ := recorded
        rw [touches.others k own, ClusterState.job, foldl_insertTask_jobs] at found
        exact found
      refine (settled.jobs k j before).perm
        (tasksForJob_congr settled.sound.taskKeys sound.taskKeys fun t => ?_)
      rw [mem_tasksForJob_iff settled.sound.taskKeys, mem_tasksForJob_iff sound.taskKeys]
      constructor
      · rintro ⟨old, owner⟩
        exact ⟨recorded_keeps_task fresh recorded old, owner⟩
      · rintro ⟨now, owner⟩
        rcases recorded_task recorded now with ⟨⟨i, label, sql, rfl⟩, _⟩ | old
        · exact absurd owner.symm own
        · exact ⟨old, owner⟩

theorem completed_settled (settled : Settled s) {r : Report}
    (once : ∀ t, s.task r.taskId = some t → t.status.isTerminal = false) (fit : RowsFit s r) :
    Settled ((completeTask r).run s).1 := by
  have sound := completeTask_sound settled.sound r
  rw [completeTask_state] at sound ⊢
  cases known : s.task r.taskId with
  | none => exact settled
  | some task =>
    simp only [known] at sound ⊢
    have keyed := settled.sound.taskKeys
    obtain named := keyed _ _ known
    have isOpen := once task known
    rw [← named] at known
    have written := reported_task (s := s) task r
    have counted : ∀ k t, (rollUpJob (recordTask s (Task.withReport task r) Stage.withReport)
        task.jobId r.rolledUpAt).task k = some t → t.status = .succeeded →
        ∃ n, t.resultRows = some n := by
      intro k t found success
      rw [written] at found
      split at found
      · obtain rfl := Option.some.inj found
        exact ⟨r.rows, rfl⟩
      · exact settled.counted k t found success
    refine ⟨sound, counted, fun k j found => ?_⟩
    obtain ⟨old, owner⟩ := settled.sound.homed _ task known
    rw [reported_job settled.sound owner] at found
    by_cases own : k = task.jobId
    · subst own
      rw [if_pos rfl] at found
      obtain rfl := Option.some.inj found
      rw [rollUpJob_tasksForJob]
      refine (settled.jobs _ old owner).report r.rolledUpAt (fun x => mem_before keyed known)
        (fun x => mem_reported settled.sound r) isOpen (fun x mem success => ?_)
        (reported_rows_fit settled.sound known named fit)
      rcases (mem_reported settled.sound r).mp mem with rfl | other
      · exact ⟨r.rows, rfl⟩
      · have listed := List.mem_of_mem_filter other
        exact settled.counted _ x ((mem_tasksForJob_iff keyed).mp listed).1 success
    · rw [if_neg own] at found
      exact (settled.jobs k j found).perm (tasksForJob_congr keyed sound.taskKeys
        fun x => mem_elsewhere keyed sound.taskKeys written rfl known own)

theorem assigned_settled (settled : Settled s) (workerId : String) :
    Settled ((tryAssignTask workerId).run s).1 := by
  have sound := tryAssignTask_sound settled.sound workerId
  rcases tryAssignTask_cases settled.sound workerId with same | ⟨task, rest, waiting, known, same⟩
  · rw [same]
    exact settled
  · rw [same] at sound ⊢
    have keyed := settled.sound.taskKeys
    have isOpen := popped_open settled.sound waiting known
    have written := assigned_task s rest task workerId
    refine ⟨sound, ?_, fun k j found => ?_⟩
    · intro k t found success
      rw [written] at found
      split at found
      · obtain rfl := Option.some.inj found
        exact nomatch success
      · exact settled.counted k t found success
    · have before : s.job k = some j := by
        rw [recordTask_job] at found
        exact found
      by_cases own : k = task.jobId
      · subst own
        exact (settled.jobs _ j before).reopen (fun x => mem_before keyed known)
          (fun x => mem_after keyed sound.taskKeys written rfl rfl) isOpen rfl
      · exact (settled.jobs k j before).perm (tasksForJob_congr keyed sound.taskKeys
          fun x => mem_elsewhere keyed sound.taskKeys written rfl known own)

theorem new_settled (masterId : String) (order : HashOrder) :
    Settled (ClusterState.new masterId order) := by
  refine ⟨new_sound masterId order, ?_, ?_⟩
  · intro k t found
    exact nomatch (InsertionMap.get_empty k).symm.trans found
  · intro k j found
    exact nomatch (InsertionMap.get_empty k).symm.trans found

def reportedIn (calls : List SequentialCall) : List String :=
  (calls.filterMap SequentialCall.report).map Report.taskId

theorem reportedIn_append (calls : List SequentialCall) (c : SequentialCall) :
    reportedIn (calls ++ [c]) = reportedIn calls ++ c.report.toList.map Report.taskId := by
  cases made : c.report <;> simp [reportedIn, made]

end Steps

section Runs
variable [Regex] [SqlParser] [PlanDebug]

def isOperation : SequentialCall → Bool
  | .submit _ _ _ => true
  | .assign _ => true
  | .complete _ => true
  | .skipPlan _ _ => false
  | .sql _ _ _ _ _ => false

/-- An operation that draws fresh identifiers and reports no task that was reported. -/
structure ReportsOnce (s : ClusterState) (c : SequentialCall) : Prop where
  fresh : DrawsFresh s c
  operation : isOperation c = true
  once : ∀ r, c.report = some r → ∀ t, s.task r.taskId = some t → t.status.isTerminal = false

def ReportsSum (s : ClusterState) (c : SequentialCall) : Prop :=
  ReportsOnce s c ∧ ∀ r, c.report = some r → RowsFit s r

theorem after_settled {s : ClusterState} {c : SequentialCall} (settled : Settled s)
    (sums : ReportsSum s c) : Settled (c.after s) := by
  obtain ⟨once, fit⟩ := sums
  cases c with
  | submit r catalog d =>
    rw [SequentialCall.after, submitJob_run]
    cases planned : planSql r.sql catalog with
    | error fault => cases fault <;> exact settled
    | ok plan =>
      exact submitted_settled settled (once.fresh d rfl) r
        (RSparkDistributedRows.taskIds_ne_nil r d plan)
  | assign workerId => exact assigned_settled settled workerId
  | complete r => exact completed_settled settled (once.once r rfl) (fit r rfl)
  | skipPlan r d => exact nomatch once.operation
  | sql ctx submitted catalog body d => exact nomatch once.operation

theorem after_terminal {s : ClusterState} {c : SequentialCall} (sound : Sound s)
    (fresh : DrawsFresh s c) {k : String} {t : Task} (found : (c.after s).task k = some t)
    (done : t.status.isTerminal = true) :
    (∃ t', s.task k = some t' ∧ t'.status.isTerminal = true) ∨
      k ∈ c.report.toList.map Report.taskId := by
  have submitted {d : SubmitDraws} (drew : c.draws = some d) :
      ∃ t', s.task k = some t' ∧ t'.status.isTerminal = true := by
    rcases recorded_task (after_recorded drew s) found with ⟨isNew, _⟩ | old
    · rw [isNew_open isNew] at done
      exact nomatch done
    · exact ⟨t, old, done⟩
  cases c with
  | submit r catalog d => exact Or.inl (submitted rfl)
  | skipPlan r d => exact Or.inl (submitted rfl)
  | sql ctx submitted catalog body d => exact Or.inl (submitted rfl)
  | assign workerId =>
    rw [SequentialCall.after] at found
    rcases tryAssignTask_cases sound workerId with same | ⟨task, rest, _, known, same⟩
    · rw [same] at found
      exact Or.inl ⟨t, found, done⟩
    · rw [same, assigned_task] at found
      split at found
      · obtain rfl := Option.some.inj found
        exact nomatch done
      · exact Or.inl ⟨t, found, done⟩
  | complete r =>
    rw [SequentialCall.after, completeTask_state] at found
    cases known : s.task r.taskId with
    | none =>
      simp only [known] at found
      exact Or.inl ⟨t, found, done⟩
    | some task =>
      simp only [known, reported_task] at found
      split at found
      · rename_i here
        rw [here, sound.taskKeys _ _ known]
        exact Or.inr (List.mem_singleton_self _)
      · exact Or.inl ⟨t, found, done⟩

theorem reports_once {masterId : String} {order : HashOrder} {calls : List SequentialCall}
    {s : ClusterState} (session : Session (ClusterState.new masterId order) calls s)
    (operations : ∀ c ∈ calls, isOperation c = true) (once : (reportedIn calls).Nodup) :
    Steps SequentialCall.after ReportsOnce (ClusterState.new masterId order) calls s ∧
      ∀ k t, s.task k = some t → t.status.isTerminal = true → k ∈ reportedIn calls := by
  induction session with
  | nil =>
    refine ⟨.nil, fun k t found _ => ?_⟩
    exact nomatch (InsertionMap.get_empty k).symm.trans found
  | @snoc calls s c before fresh ih =>
    rw [reportedIn_append] at once ⊢
    obtain ⟨once, _, apart⟩ := List.nodup_append.mp once
    obtain ⟨reached, recorded⟩ := ih (fun c mem => operations c (List.mem_append_left _ mem)) once
    refine ⟨.snoc c reached ⟨fresh, operations c (by simp), ?_⟩, fun k t found done => ?_⟩
    · intro r made t known
      by_contra notOpen
      have earlier := recorded _ t known (Bool.eq_true_of_not_eq_false notOpen)
      exact apart _ earlier r.taskId (by simp [made]) rfl
    · rw [List.mem_append]
      rcases after_terminal (session_sound before) fresh found done with ⟨t', old, done'⟩ | now
      · exact Or.inl (recorded k t' old done')
      · exact Or.inr now

/-- At every moment every job has succeeded when all its tasks have, has failed when one of
    them has, and is running otherwise. -/
theorem job_statuses_right (masterId : String) (order : HashOrder)
    (calls : List SequentialCall) (s : ClusterState)
    (reached : Steps SequentialCall.after ReportsSum (ClusterState.new masterId order) calls s)
    (k : String) (j : Job) (known : s.job k = some j) : StatusOf (s.tasksForJob k) j :=
  (reached.invariant (new_settled masterId order) after_settled).jobs k j known

end Runs

section Witness

theorem once_reported_sums :
    Steps sampleAfter ReportsSum emptyState
      [usersSubmit, .assign "w", .complete (successOf "t" 100)] onceReported := by
  refine .cons _ ⟨⟨fun d _ => empty_fresh d, rfl, fun r none => (nomatch none)⟩,
    fun r none => (nomatch none)⟩ ?_
  refine .cons _ ⟨⟨fun d none => (nomatch none), rfl, fun r none => (nomatch none)⟩,
    fun r none => (nomatch none)⟩ ?_
  refine .cons _ ⟨⟨fun d none => (nomatch none), rfl, fun r found t known => ?_⟩,
    fun r found _ t known _ => ?_⟩ .nil
  · obtain rfl := Option.some.inj found
    obtain rfl := Option.some.inj known
    rfl
  · obtain rfl := Option.some.inj found
    obtain rfl := Option.some.inj known
    decide

/-- The sample job after its only task: the status and the rows that the task gives. -/
theorem once_reported_succeeds :
    ∃ j, onceReported.job "j" = some j ∧ j.status = .succeeded ∧
      StatusOf (onceReported.tasksForJob "j") j :=
  ⟨_, rfl, rfl, @job_statuses_right noRegex usersParser noDebug "m" insertionOrder _ _
    once_reported_sums "j" _ rfl⟩

/-- A job of two tasks, one reported with the largest number of rows and one with one. -/
def largestAndOne : List SequentialCall :=
  [.submit ⟨"test", usersSql, 2⟩ usersCatalog (drawsOf "j" "s" "t" 0),
    .complete (successOf "t" (usizeSize - 1)), .complete (successOf "t+" 1)]

/-- The sum of the reported rows wraps around to 0. -/
theorem wrapped_rows_lost :
    ¬ ∀ (masterId : String) (order : HashOrder) (calls : List SequentialCall)
      (s : ClusterState), Steps sampleAfter ReportsOnce (ClusterState.new masterId order) calls s →
      ∀ k j, s.job k = some j → StatusOf (s.tasksForJob k) j := by
  intro claim
  have run : Steps sampleAfter ReportsOnce emptyState largestAndOne
      (largestAndOne.foldl (fun s c => sampleAfter c s) emptyState) := by
    refine .cons _ ⟨fun d _ => empty_fresh d, rfl, fun r none => (nomatch none)⟩ ?_
    refine .cons _ ⟨fun d none => (nomatch none), rfl, fun r found t known => ?_⟩ ?_
    · obtain rfl := Option.some.inj found
      obtain rfl := Option.some.inj known
      rfl
    refine .cons _ ⟨fun d none => (nomatch none), rfl, fun r found t known => ?_⟩ .nil
    obtain rfl := Option.some.inj found
    obtain rfl := Option.some.inj known
    rfl
  obtain ⟨j, found, success, stored⟩ : ∃ j,
      (largestAndOne.foldl (fun s c => sampleAfter c s) emptyState).job "j" = some j ∧
        j.status = .succeeded ∧ j.resultRows = some 0 := ⟨_, rfl, rfl, by decide⟩
  obtain ⟨rows, each, total⟩ := (claim "m" insertionOrder _ _ run "j" j found).rows success
  obtain ⟨t, listed, counted⟩ : ∃ t ∈
      (largestAndOne.foldl (fun s c => sampleAfter c s) emptyState).tasksForJob "j",
      t.resultRows = some 1 := ⟨_, List.mem_cons_of_mem _ List.mem_cons_self, rfl⟩
  have wrapped := Option.some.inj (stored.symm.trans total)
  have none := List.sum_eq_zero_iff_forall_eq_nat.mp wrapped.symm
  have one : rows t = 1 := Option.some.inj ((each t listed).symm.trans counted)
  exact absurd (one.symm.trans (none _ (List.mem_map_of_mem listed))) (by decide)

end Witness

end RSparkJobStatuses
