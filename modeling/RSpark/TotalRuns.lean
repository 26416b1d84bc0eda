import Mathlib.Data.List.Perm.Subperm
import RSpark.JobStatuses

/- The counter of finished tasks. Whatever the workers report, and however often, it counts the
   tasks whose first report was a success. -/
namespace RSparkTotalRuns
open RSparkExpr RSparkPlan RSparkSqlAst RSparkPlanner RSparkExecutor
open RSparkClusterState RSparkMaster RSparkMasterSteps RSparkJobStatuses RSparkStatusFinality
open Calls

section Counting
variable {α : Type} {p q : α → Bool} {l : List α}

theorem countP_joined (nodup : l.Nodup) {a : α} (mem : a ∈ l) (before : p a = false)
    (after : q a = true) (others : ∀ b, b ≠ a → q b = p b) : l.countP q = l.countP p + 1 := by
  induction l with
  | nil => exact absurd mem List.not_mem_nil
  | cons b l ih =>
    obtain ⟨apart, nodup⟩ := List.nodup_cons.mp nodup
    rw [List.countP_cons, List.countP_cons]
    rcases List.mem_cons.mp mem with rfl | later
    · have same : l.countP q = l.countP p := by
        apply List.countP_congr
        intro b inside
        rw [others b fun here => apart (here ▸ inside)]
      rw [same, before, after]
      rfl
    · have other : b ≠ a := fun here => apart (here ▸ later)
      rw [ih nodup later, others b other]
      omega

end Counting

section History
variable [Regex] [SqlParser] [PlanDebug]

def reportedOutcome (k : String) (s : ClusterState) (c : SequentialCall) : Option Bool :=
  match c.report with
  | some r => if r.taskId = k ∧ (s.task k).isSome then some r.success else none
  | none => none

def firstOutcome (k : String) : ClusterState → List SequentialCall → Option Bool
  | _, [] => none
  | s, c :: rest => (reportedOutcome k s c).or (firstOutcome k (c.after s) rest)

def submittedTasks : SequentialCall → List Task
  | .submit r catalog d =>
      match planSql r.sql catalog with
      | .ok plan => stageTasks r d (planPartitions plan r.parallelism)
      | .error _ => []
  | _ => []

def succeededFirst (start : ClusterState) (calls : List SequentialCall) (s : ClusterState) : Nat :=
  s.tasks.keys.countP fun k => firstOutcome k start calls = some true

theorem firstOutcome_append (k : String) (start : ClusterState)
    (calls later : List SequentialCall) :
    firstOutcome k start (calls ++ later) = (firstOutcome k start calls).or
      (firstOutcome k (calls.foldl (fun s c => c.after s) start) later) := by
  induction calls generalizing start with
  | nil => rfl
  | cons c calls ih =>
    rw [List.cons_append, firstOutcome, ih, firstOutcome, Option.or_assoc]
    rfl

/-- The master's own operations, with identifiers that are not in use. -/
structure Operation (s : ClusterState) (c : SequentialCall) : Prop where
  fresh : DrawsFresh s c
  operation : isOperation c = true

abbrev Operations := Steps SequentialCall.after Operation

theorem firstOutcome_snoc {k : String} {start s : ClusterState} {calls : List SequentialCall}
    (run : Operations start calls s) (c : SequentialCall) :
    firstOutcome k start (calls ++ [c]) =
      (firstOutcome k start calls).or (reportedOutcome k s c) := by
  rw [firstOutcome_append, ← run.foldl, firstOutcome, firstOutcome, Option.or_none]

/-- What is reported stands in the state: a task is terminal exactly if it has been reported. -/
structure Counted (start : ClusterState) (calls : List SequentialCall) (s : ClusterState) :
    Prop where
  sound : Sound s
  reported : ∀ k t, s.task k = some t →
    (t.status.isTerminal = true ↔ firstOutcome k start calls ≠ none)
  known : ∀ k, firstOutcome k start calls ≠ none → ∃ t, s.task k = some t
  runs : s.totalRuns = succeededFirst start calls s
  submitted : ∀ k ∈ s.tasks.keys, k ∈ (calls.flatMap submittedTasks).map Task.id

end History

section States
variable {s : ClusterState}

theorem foldl_insertTask_runs (ts : List Task) :
    (ts.foldl ClusterState.insertTask s).totalRuns = s.totalRuns := by
  induction ts generalizing s with
  | nil => rfl
  | cons t ts ih => exact ih

theorem foldl_insertTask_keys (ts : List Task) : ∃ new,
    (ts.foldl ClusterState.insertTask s).tasks.keys = s.tasks.keys ++ new ∧
      ∀ k ∈ new, k ∉ s.tasks.keys ∧ k ∈ ts.map Task.id := by
  induction ts generalizing s with
  | nil => exact ⟨[], (List.append_nil _).symm, nofun⟩
  | cons t ts ih =>
    obtain ⟨new, keys, each⟩ := ih (s := s.insertTask t)
    have inserted : (s.insertTask t).tasks.keys =
        if t.id ∈ s.tasks.keys then s.tasks.keys else s.tasks.keys ++ [t.id] :=
      InsertionMap.keys_insert _ _ _
    rw [inserted] at keys each
    rw [List.foldl_cons, List.map_cons]
    by_cases there : t.id ∈ s.tasks.keys
    · rw [if_pos there] at keys each
      exact ⟨new, keys, fun k mem => ⟨(each k mem).1, List.mem_cons_of_mem _ (each k mem).2⟩⟩
    · rw [if_neg there, List.append_assoc] at keys
      rw [if_neg there] at each
      refine ⟨_, keys, fun k mem => ?_⟩
      rcases List.mem_cons.mp mem with rfl | later
      · exact ⟨there, List.mem_cons_self⟩
      · obtain ⟨apart, inside⟩ := each k later
        exact ⟨fun old => apart (List.mem_append_left _ old), List.mem_cons_of_mem _ inside⟩

theorem submittedState_runs (r : JobRequest) (d : SubmitDraws) (partitions : List PartitionSpec) :
    (submittedState s r d partitions).totalRuns = s.totalRuns :=
  foldl_insertTask_runs (s := s.insertStage (submittedStage r d partitions)) _

theorem submittedState_keys (r : JobRequest) (d : SubmitDraws) (partitions : List PartitionSpec) :
    ∃ new, (submittedState s r d partitions).tasks.keys = s.tasks.keys ++ new ∧
      ∀ k ∈ new, k ∉ s.tasks.keys ∧ k ∈ (stageTasks r d partitions).map Task.id :=
  foldl_insertTask_keys (s := s.insertStage (submittedStage r d partitions)) _

theorem recordTask_runs (task : Task) (change : Stage → Task → Stage) :
    (recordTask s task change).totalRuns = (s.updateTask task).totalRuns := by
  unfold recordTask
  split <;> rfl

theorem rollUpJob_runs (jobId : String) (now : Time) :
    (rollUpJob s jobId now).totalRuns = s.totalRuns := by
  unfold rollUpJob
  split <;> rfl

theorem recordTask_keys {task old : Task} (change : Stage → Task → Stage)
    (known : s.task task.id = some old) : (recordTask s task change).tasks.keys = s.tasks.keys := by
  rw [recordTask_tasks]
  exact InsertionMap.keys_insert_known _ known _

theorem updateTask_runs (task : Task) : (s.updateTask task).totalRuns =
    if s.wasTerminal task.id = false ∧ task.status.isSucceeded = true then s.totalRuns + 1
    else s.totalRuns := by
  rw [ClusterState.updateTask]
  dsimp only
  congr 1
  cases status : task.status.isSucceeded <;> simp [TaskStatus.isTerminal, status]

end States

section Steps
variable [Regex] [SqlParser] [PlanDebug]
variable {start s : ClusterState} {calls : List SequentialCall} {c : SequentialCall}

theorem unreported_of_new (counted : Counted start calls s) {k : String} (new : s.task k = none) :
    firstOutcome k start calls = none := by
  by_contra reported
  obtain ⟨t, found⟩ := counted.known k reported
  exact nomatch new.symm.trans found

theorem firstOutcome_silent (run : Operations start calls s)
    (silent : ∀ k, reportedOutcome k s c = none) (k : String) :
    firstOutcome k start (calls ++ [c]) = firstOutcome k start calls := by
  rw [firstOutcome_snoc run, silent, Option.or_none]

omit [Regex] in
theorem submittedTasks_snoc (calls : List SequentialCall) (c : SequentialCall) :
    ((calls ++ [c]).flatMap submittedTasks).map Task.id =
      (calls.flatMap submittedTasks).map Task.id ++ (submittedTasks c).map Task.id := by
  rw [List.flatMap_append, List.flatMap_singleton, List.map_append]

theorem counted_silent (counted : Counted start calls s) (run : Operations start calls s)
    {s' : ClusterState} (silent : ∀ k, reportedOutcome k s c = none) (sound : Sound s')
    (tasks : ∀ k t, s'.task k = some t → ∃ t', s.task k = some t' ∧
      t.status.isTerminal = t'.status.isTerminal)
    (runs : s'.totalRuns = s.totalRuns) (keys : s'.tasks.keys = s.tasks.keys) :
    Counted start (calls ++ [c]) s' := by
  refine ⟨sound, fun k t found => ?_, fun k reported => ?_, ?_, fun k mem => ?_⟩
  · obtain ⟨t', found', same⟩ := tasks k t found
    rw [firstOutcome_silent run silent, same]
    exact counted.reported k t' found'
  · rw [firstOutcome_silent run silent] at reported
    have there := (s.tasks.mem_keys_iff k).mpr (counted.known k reported)
    rw [← keys] at there
    exact (s'.tasks.mem_keys_iff k).mp there
  · rw [runs, counted.runs, succeededFirst, succeededFirst, keys]
    simp only [firstOutcome_silent run silent]
  · rw [submittedTasks_snoc, List.mem_append]
    exact Or.inl (counted.submitted k (keys ▸ mem))

theorem submit_counted (counted : Counted start calls s) (run : Operations start calls s)
    {r : JobRequest} {catalog : Catalog} {d : SubmitDraws} (fresh : FreshIn s d) :
    Counted start (calls ++ [.submit r catalog d]) ((submitJob r catalog d).run s).1 := by
  have silent (k : String) : reportedOutcome k s (.submit r catalog d) = none := rfl
  rw [submitJob_run]
  cases planned : planSql r.sql catalog with
  | error fault =>
    have unchanged : Counted start (calls ++ [.submit r catalog d]) s :=
      counted_silent counted run silent counted.sound (fun k t found => ⟨t, found, rfl⟩) rfl rfl
    cases fault <;> exact unchanged
  | ok plan =>
    dsimp only
    have recorded := submittedState_recorded s r d (planPartitions plan r.parallelism)
    obtain ⟨new, keys, each⟩ :=
      submittedState_keys (s := s) r d (planPartitions plan r.parallelism)
    have unreported (k : String) (mem : k ∈ new) : firstOutcome k start calls = none := by
      refine unreported_of_new counted ?_
      cases found : s.task k with
      | none => rfl
      | some t => exact absurd ((s.tasks.mem_keys_iff k).mpr ⟨t, found⟩) (each k mem).1
    refine ⟨recorded_sound counted.sound fresh recorded, fun k t found => ?_,
      fun k reported => ?_, ?_, fun k mem => ?_⟩
    · rw [firstOutcome_silent run silent]
      rcases recorded_task recorded found with ⟨isNew, rfl⟩ | old
      · rw [isNew_open isNew, unreported_of_new counted (isNew_fresh fresh isNew)]
        exact iff_of_false Bool.false_ne_true (fun none => none rfl)
      · exact counted.reported k t old
    · rw [firstOutcome_silent run silent] at reported
      obtain ⟨t, found⟩ := counted.known k reported
      exact ⟨t, recorded_keeps_task fresh recorded found⟩
    · rw [submittedState_runs, counted.runs, succeededFirst, succeededFirst, keys,
        List.countP_append]
      simp only [firstOutcome_silent run silent]
      have added : new.countP (fun k => firstOutcome k start calls = some true) = 0 :=
        List.countP_eq_zero.mpr fun k mem => by simp [unreported k mem]
      rw [added, Nat.add_zero]
    · rw [submittedTasks_snoc, List.mem_append]
      rw [keys, List.mem_append] at mem
      rcases mem with old | added
      · exact Or.inl (counted.submitted k old)
      · refine Or.inr ?_
        rw [submittedTasks, planned]
        exact (each k added).2

theorem assign_counted (counted : Counted start calls s) (run : Operations start calls s)
    (workerId : String) :
    Counted start (calls ++ [.assign workerId]) ((tryAssignTask workerId).run s).1 := by
  have silent (k : String) : reportedOutcome k s (.assign workerId) = none := rfl
  have sound := tryAssignTask_sound counted.sound workerId
  rcases tryAssignTask_cases counted.sound workerId with same | ⟨task, rest, waiting, known, same⟩
  · rw [same]
    exact counted_silent counted run silent counted.sound (fun k t found => ⟨t, found, rfl⟩) rfl rfl
  · rw [same] at sound ⊢
    refine counted_silent counted run silent sound (fun k t found => ?_) ?_ ?_
    · rw [assigned_task] at found
      split at found
      · -- only tasks that nobody has reported are handed out
        rename_i here
        obtain rfl := Option.some.inj found
        exact ⟨task, here ▸ known, (popped_open counted.sound waiting known).symm⟩
      · exact ⟨t, found, rfl⟩
    · rw [recordTask_runs, updateTask_runs, if_neg (fun success => nomatch success.2)]
    · have sameId : ({ s with pending := rest } : ClusterState).task
          (Task.assignTo task workerId).id = some task := known
      exact recordTask_keys _ sameId

omit [Regex] [SqlParser] [PlanDebug] in
theorem reportedOutcome_complete {r : Report} {task : Task} (known : s.task r.taskId = some task)
    (k : String) :
    reportedOutcome k s (.complete r) = if k = r.taskId then some r.success else none := by
  by_cases here : k = r.taskId
  · subst here
    simp [reportedOutcome, SequentialCall.report, known]
  · have apart : r.taskId ≠ k := fun same => here same.symm
    simp [reportedOutcome, SequentialCall.report, here, apart]

omit [Regex] [SqlParser] [PlanDebug] in
theorem wasTerminal_eq {task : Task} {id : String} (known : s.task id = some task) :
    s.wasTerminal id = task.status.isTerminal := by
  rw [ClusterState.wasTerminal, known]

theorem succeededFirst_complete (counted : Counted start calls s) (run : Operations start calls s)
    {r : Report} {task : Task} (known : s.task r.taskId = some task) :
    (s.tasks.keys.countP fun k => firstOutcome k start (calls ++ [.complete r]) = some true) =
      if s.wasTerminal r.taskId = false ∧ r.success = true then succeededFirst start calls s + 1
      else succeededFirst start calls s := by
  have outcome (k : String) := firstOutcome_snoc (k := k) run (.complete r)
  simp only [reportedOutcome_complete known] at outcome
  have reported := counted.reported _ _ known
  rw [← wasTerminal_eq known] at reported
  have inside : r.taskId ∈ s.tasks.keys := (s.tasks.mem_keys_iff _).mpr ⟨task, known⟩
  have others (k : String) (other : k ≠ r.taskId) :
      firstOutcome k start (calls ++ [.complete r]) = firstOutcome k start calls := by
    rw [outcome, if_neg other, Option.or_none]
  split
  · rename_i first
    have new : firstOutcome r.taskId start calls = none := by
      by_contra before
      rw [reported.mpr before] at first
      exact nomatch first.1
    refine countP_joined s.tasks.nodupKeys inside ?_ ?_ fun k other => ?_
    · simp [new]
    · simp [outcome, new, first.2]
    · rw [others k other]
  · rename_i again
    rw [succeededFirst]
    apply List.countP_congr
    intro k _
    by_cases here : k = r.taskId
    · subst here
      rw [outcome, if_pos rfl]
      cases before : firstOutcome r.taskId start calls with
      | some b => rfl
      | none =>
        have isOpen : s.wasTerminal r.taskId = false := by
          rw [Bool.eq_false_iff]
          exact fun done => reported.mp done before
        have failure : r.success = false := by
          rw [Bool.eq_false_iff]
          exact fun success => again ⟨isOpen, success⟩
        simp [failure]
    · rw [others k here]

theorem complete_counted (counted : Counted start calls s) (run : Operations start calls s)
    (r : Report) : Counted start (calls ++ [.complete r]) ((completeTask r).run s).1 := by
  have sound := completeTask_sound counted.sound r
  rw [completeTask_state] at sound ⊢
  cases known : s.task r.taskId with
  | none =>
    have silent (k : String) : reportedOutcome k s (.complete r) = none := by
      simp only [reportedOutcome, SequentialCall.report]
      split
      · rename_i here
        rw [← here.1, known] at here
        exact absurd here.2 Bool.false_ne_true
      · rfl
    exact counted_silent counted run silent counted.sound (fun k t found => ⟨t, found, rfl⟩) rfl rfl
  | some task =>
    rw [known] at sound
    dsimp only at sound ⊢
    have named := counted.sound.taskKeys _ _ known
    have written := reported_task (s := s) task r
    have keys : (rollUpJob (recordTask s (Task.withReport task r) Stage.withReport) task.jobId
        r.rolledUpAt).tasks.keys = s.tasks.keys := by
      rw [rollUpJob_tasks]
      have there : s.task (Task.withReport task r).id = some task := named ▸ known
      exact recordTask_keys _ there
    refine ⟨sound, fun k t found => ?_, fun k reported => ?_, ?_, fun k mem => ?_⟩
    · rw [written] at found
      rw [firstOutcome_snoc run, reportedOutcome_complete known]
      split at found
      · rename_i here
        obtain rfl := Option.some.inj found
        rw [if_pos (here.trans named), withReport_done]
        refine iff_of_true rfl ?_
        cases firstOutcome k start calls <;> simp
      · rename_i other
        rw [if_neg (named ▸ other), Option.or_none]
        exact counted.reported k t found
    · rw [written]
      split
      · exact ⟨_, rfl⟩
      · rename_i other
        rw [firstOutcome_snoc run, reportedOutcome_complete known, if_neg (named ▸ other),
          Option.or_none] at reported
        exact counted.known k reported
    · have same : (Task.withReport task r).id = r.taskId := named
      rw [succeededFirst, keys, succeededFirst_complete counted run known, rollUpJob_runs,
        recordTask_runs, updateTask_runs, same, withReport_succeeded, counted.runs]
    · rw [submittedTasks_snoc, List.mem_append]
      exact Or.inl (counted.submitted k (keys ▸ mem))

theorem after_counted (counted : Counted start calls s) (run : Operations start calls s)
    (may : Operation s c) : Counted start (calls ++ [c]) (c.after s) := by
  cases c with
  | submit r catalog d => exact submit_counted counted run (may.fresh d rfl)
  | assign workerId => exact assign_counted counted run workerId
  | complete r => exact complete_counted counted run r
  | skipPlan r d => exact nomatch may.operation
  | sql ctx submitted catalog body d => exact nomatch may.operation

theorem new_counted (masterId : String) (order : HashOrder) :
    Counted (ClusterState.new masterId order) [] (ClusterState.new masterId order) := by
  refine ⟨new_sound masterId order, fun k t found => ?_, fun k reported => absurd rfl reported,
    rfl, nofun⟩
  exact nomatch (InsertionMap.get_empty k).symm.trans found

theorem operations_counted {masterId : String} {order : HashOrder}
    (run : Operations (ClusterState.new masterId order) calls s) :
    Counted (ClusterState.new masterId order) calls s := by
  induction run with
  | nil => exact new_counted masterId order
  | snoc c before may ih => exact after_counted ih before may

end Steps

section Law
variable [Regex] [SqlParser] [PlanDebug]

theorem after_runs_le {s : ClusterState} {c : SequentialCall} (sound : Sound s)
    (may : Operation s c) : s.totalRuns ≤ (c.after s).totalRuns := by
  cases c with
  | submit r catalog d =>
    rw [SequentialCall.after, submitJob_run]
    cases planSql r.sql catalog with
    | error fault => cases fault <;> exact Nat.le_refl _
    | ok plan => exact (submittedState_runs r d _).ge
  | assign workerId =>
    rw [SequentialCall.after]
    rcases tryAssignTask_cases sound workerId with same | ⟨task, rest, _, _, same⟩
    · rw [same]
    · rw [same, recordTask_runs, updateTask_runs, if_neg (fun success => Bool.false_ne_true success.2)]
  | complete r =>
    rw [SequentialCall.after, completeTask_state]
    cases s.task r.taskId with
    | none => exact Nat.le_refl _
    | some task =>
      dsimp only
      rw [rollUpJob_runs, recordTask_runs, updateTask_runs]
      split
      · exact Nat.le_succ _
      · exact Nat.le_refl _
  | skipPlan r d => exact absurd may.operation Bool.false_ne_true
  | sql ctx submitted catalog body d => exact absurd may.operation Bool.false_ne_true

/-- After any operations, with reports repeated and contradicted, the counter is the number of
    tasks whose first report was a success, and at most the number of submitted tasks. Later
    operations do not lower it. -/
theorem total_runs_right (masterId : String) (order : HashOrder)
    (calls later : List SequentialCall) (s s' : ClusterState)
    (reached : Operations (ClusterState.new masterId order) calls s)
    (continues : Operations s later s') :
    s.totalRuns = succeededFirst (ClusterState.new masterId order) calls s ∧
      s.totalRuns ≤ (calls.flatMap submittedTasks).length ∧ s.totalRuns ≤ s'.totalRuns := by
  have counted := operations_counted reached
  refine ⟨counted.runs, ?_, ?_⟩
  · have inside := List.subperm_of_subset s.tasks.nodupKeys fun k mem => counted.submitted k mem
    have count : s.tasks.keys.length ≤ (calls.flatMap submittedTasks).length :=
      inside.length_le.trans (List.length_map _).le
    rw [counted.runs]
    exact List.countP_le_length.trans count
  · exact continues.respects (R := fun s s' => s.totalRuns ≤ s'.totalRuns)
      (fun _ => Nat.le_refl _) Nat.le_trans counted.sound
      (fun sound may => after_sound sound may.fresh) after_runs_le

end Law

section Witness

theorem success_then_failure :
    @Operations noRegex usersParser noDebug emptyState
      [usersSubmit, .assign "w", .complete (successOf "t" 100), .complete (failureOf "t" "late")]
      (sampleAfter (.complete (failureOf "t" "late")) onceReported) := by
  have silent (c : SequentialCall) (none' : c.draws = none) (s : ClusterState) :
      DrawsFresh s c := fun d drew => nomatch none'.symm.trans drew
  refine .cons _ ⟨fun d _ => empty_fresh d, rfl⟩ ?_
  refine .cons _ ⟨silent _ rfl _, rfl⟩ ?_
  refine .cons _ ⟨silent _ rfl _, rfl⟩ ?_
  exact .cons _ ⟨silent _ rfl _, rfl⟩ .nil

/-- The task is reported as a success and then as a failure: it counts once. -/
theorem overturned_counts_once :
    (sampleAfter (.complete (failureOf "t" "late")) onceReported).totalRuns = 1 ∧
      @succeededFirst noRegex usersParser noDebug emptyState
        [usersSubmit, .assign "w", .complete (successOf "t" 100), .complete (failureOf "t" "late")]
        (sampleAfter (.complete (failureOf "t" "late")) onceReported) = 1 := by
  have right := @total_runs_right noRegex usersParser noDebug "m" insertionOrder _ _ _ _
    success_then_failure .nil
  have one : (sampleAfter (.complete (failureOf "t" "late")) onceReported).totalRuns = 1 := rfl
  exact ⟨one, right.1.symm.trans one⟩

end Witness

end RSparkTotalRuns
