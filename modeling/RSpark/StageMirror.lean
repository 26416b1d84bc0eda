import RSpark.JobStatuses

/- The copies of tasks kept inside stages, over sequential histories of the master's
   operations: they say what the task map says, and the stage's status is theirs. -/
namespace RSparkStageMirror
open RSparkExpr RSparkSqlAst RSparkPlanner RSparkExecutor
open RSparkClusterState RSparkMaster RSparkMasterSteps RSparkStatusFinality RSparkJobStatuses
open Calls

section Copies

structure SlotOf (slot t : Task) : Prop where
  status : slot.status = t.status
  worker : slot.assignedWorker = t.assignedWorker
  rows : slot.resultRows = t.resultRows
  error : slot.error = t.error

theorem SlotOf.assigned {slot t : Task} (same : SlotOf slot t) (workerId : String) :
    SlotOf (assignSlot (Task.assignTo t workerId) slot) (Task.assignTo t workerId) :=
  ⟨rfl, rfl, same.rows, same.error⟩

theorem SlotOf.reported {slot t : Task} (same : SlotOf slot t) (r : Report) :
    SlotOf (reportSlot (Task.withReport t r) slot) (Task.withReport t r) :=
  ⟨rfl, same.worker, rfl, rfl⟩

structure StageStatusOf (st : Stage) : Prop where
  succeeded : st.status = .succeeded ↔ ∀ slot ∈ st.tasks, slot.status = .succeeded
  failed : (∃ message, st.status = .failed message) ↔
    ∃ slot ∈ st.tasks, ∃ message, slot.status = .failed message
  running : st.status ≠ .succeeded → (∀ message, st.status ≠ .failed message) →
    st.status = .running

def Reported (st : Stage) : Prop := ∃ slot ∈ st.tasks, slot.status.isTerminal = true

theorem stageStatusOf_fits {st : Stage} (present : st.tasks ≠ []) :
    StageStatusOf { st with status := stageStatusOf st } := by
  have complete : st.isComplete = true ↔ ∀ slot ∈ st.tasks, slot.status = .succeeded := by
    simp only [Stage.isComplete, Bool.and_eq_true, List.all_eq_true, isSucceeded_iff]
    exact and_iff_right (by simp [present])
  have failure : (st.tasks.any fun t => t.status.isFailed) = true ↔
      ∃ slot ∈ st.tasks, ∃ message, slot.status = .failed message := by
    simp only [List.any_eq_true, isFailed_iff]
  by_cases done : st.isComplete = true
  · have status : stageStatusOf st = .succeeded := if_pos done
    have quiet : ¬ ∃ slot ∈ st.tasks, ∃ message, slot.status = .failed message := by
      rintro ⟨slot, mem, message, failed⟩
      rw [complete.mp done slot mem] at failed
      exact nomatch failed
    refine ⟨⟨fun _ => complete.mp done, fun _ => status⟩, ?_, fun other => absurd status other⟩
    simp only [status]
    exact ⟨fun ⟨_, failed⟩ => (nomatch failed), fun failed => absurd failed quiet⟩
  · have notAll := mt complete.mpr done
    by_cases any : (st.tasks.any fun t => t.status.isFailed) = true
    · have status : stageStatusOf st = .failed "one or more tasks failed" := by
        rw [stageStatusOf, if_neg done, if_pos any]
      refine ⟨?_, ?_, fun _ none => absurd status (none _)⟩
      · simp only [status]
        exact ⟨fun success => (nomatch success), fun success => absurd success notAll⟩
      · exact ⟨fun _ => failure.mp any, fun _ => ⟨_, status⟩⟩
    · have status : stageStatusOf st = .running := by
        rw [stageStatusOf, if_neg done, if_neg any]
      refine ⟨?_, ?_, fun _ _ => status⟩
      · simp only [status]
        exact ⟨fun success => (nomatch success), fun success => absurd success notAll⟩
      · simp only [status]
        exact ⟨fun ⟨_, failed⟩ => (nomatch failed),
          fun failed => absurd (failure.mpr failed) any⟩

theorem StageStatusOf.reopen {st st' : Stage} {g : Task → Task} (status : StageStatusOf st)
    (same : st'.status = st.status) (changed : st'.tasks = st.tasks.map g)
    (keeps : ∀ slot ∈ st.tasks, slot.status.isTerminal = true → g slot = slot)
    (isOpen : ∀ slot ∈ st.tasks, slot.status.isTerminal = false →
      (g slot).status.isTerminal = false) : StageStatusOf st' := by
  have success (slot : Task) (mem : slot ∈ st.tasks) :
      (g slot).status = .succeeded ↔ slot.status = .succeeded := by
    cases done : slot.status.isTerminal with
    | true => rw [keeps slot mem done]
    | false => exact iff_of_false (open_iff.mp (isOpen slot mem done)).1 (open_iff.mp done).1
  have failure (slot : Task) (mem : slot ∈ st.tasks) (message : String) :
      (g slot).status = .failed message ↔ slot.status = .failed message := by
    cases done : slot.status.isTerminal with
    | true => rw [keeps slot mem done]
    | false =>
      exact iff_of_false ((open_iff.mp (isOpen slot mem done)).2 message)
        ((open_iff.mp done).2 message)
  refine ⟨?_, ?_, ?_⟩
  · rw [same, changed, status.succeeded, List.forall_mem_map]
    exact forall₂_congr fun slot mem => (success slot mem).symm
  · rw [same, changed, status.failed]
    constructor
    · rintro ⟨slot, mem, message, failed⟩
      exact ⟨g slot, List.mem_map_of_mem mem, message, (failure slot mem message).mpr failed⟩
    · rintro ⟨slot', mem', message, failed⟩
      obtain ⟨slot, mem, rfl⟩ := List.mem_map.mp mem'
      exact ⟨slot, mem, message, (failure slot mem message).mp failed⟩
  · rw [same]
    exact status.running

end Copies

section States
variable {s : ClusterState}

structure Mirrors (s : ClusterState) (k : String) (st : Stage) : Prop where
  named : st.id = k
  ids : (st.tasks.map Task.id).Nodup
  slots : ∀ slot ∈ st.tasks, ∃ t, s.task slot.id = some t ∧ t.stageId = k ∧ SlotOf slot t
  tasks : ∀ id t, s.task id = some t → t.stageId = k → id ∈ st.tasks.map Task.id

/-- Every stage mirrors the map, every task has its stage, and a stage with a report has the
    status of its copies. -/
structure Mirrored (s : ClusterState) : Prop where
  sound : Sound s
  staged : ∀ k t, s.task k = some t → ∃ st, s.stage t.stageId = some st
  mirrors : ∀ k st, s.stage k = some st → Mirrors s k st
  statuses : ∀ k st, s.stage k = some st → Reported st → StageStatusOf st

theorem new_mirrored (masterId : String) (order : HashOrder) :
    Mirrored (ClusterState.new masterId order) := by
  refine ⟨new_sound masterId order, ?_, ?_, ?_⟩
  · intro k t found
    exact nomatch (InsertionMap.get_empty k).symm.trans found
  · intro k st found
    exact nomatch (InsertionMap.get_empty k).symm.trans found
  · intro k st found
    exact nomatch (InsertionMap.get_empty k).symm.trans found

theorem recordTask_stage (task : Task) (change : Stage → Task → Stage) {st : Stage}
    (known : s.stage task.stageId = some st) (named : st.id = task.stageId)
    (keeps : (change st task).id = st.id) (k : String) :
    (recordTask s task change).stage k =
      if k = task.stageId then some (change st task) else s.stage k := by
  unfold recordTask
  rw [known]
  show (s.stages.insert (change st task).id (change st task)).get k = _
  rw [keeps, named]
  exact InsertionMap.get_insert _ _ _ _

/-- One task and its stage's copy of it change alike, and nothing else does. -/
structure Rewritten (s s' : ClusterState) (task changed : Task) (st st' : Stage)
    (f : Task → Task) : Prop where
  known : s.task task.id = some task
  held : s.stage task.stageId = some st
  tasks : ∀ k, s'.task k = if k = task.id then some changed else s.task k
  stages : ∀ k, s'.stage k = if k = task.stageId then some st' else s.stage k
  here : changed.id = task.id
  stays : changed.stageId = task.stageId
  ids : ∀ slot, (f slot).id = slot.id
  alike : ∀ slot, SlotOf slot task → SlotOf (f slot) changed
  named : st'.id = st.id
  slots : st'.tasks = updateFirst (·.id = changed.id) f st.tasks

variable {s' : ClusterState} {task changed : Task} {st st' : Stage} {f : Task → Task}

theorem Mirrors.rewritten (mirrors : Mirrors s task.stageId st)
    (rewritten : Rewritten s s' task changed st st' f) : Mirrors s' task.stageId st' := by
  have sameIds : st'.tasks.map Task.id = st.tasks.map Task.id := by
    rw [rewritten.slots, updateFirst_ids rewritten.ids]
  have slots := rewritten.slots
  rw [updateFirst_eq_map mirrors.ids, rewritten.here] at slots
  refine ⟨rewritten.named.trans mirrors.named, sameIds ▸ mirrors.ids, ?_, ?_⟩
  · intro slot' mem'
    rw [slots] at mem'
    obtain ⟨slot, mem, rfl⟩ := List.mem_map.mp mem'
    obtain ⟨t, found, owner, same⟩ := mirrors.slots slot mem
    by_cases own : slot.id = task.id
    · rw [own, rewritten.known] at found
      obtain rfl := Option.some.inj found
      refine ⟨changed, ?_, rewritten.stays, ?_⟩
      · rw [if_pos own, rewritten.ids, rewritten.tasks, if_pos own]
      · rw [if_pos own]
        exact rewritten.alike slot same
    · rw [if_neg own, rewritten.tasks, if_neg own]
      exact ⟨t, found, owner, same⟩
  · intro id t found owner
    rw [sameIds]
    rw [rewritten.tasks] at found
    split at found
    · rename_i own
      obtain rfl := Option.some.inj found
      rw [own]
      exact mirrors.tasks _ task rewritten.known rfl
    · exact mirrors.tasks id t found owner

theorem Mirrors.untouched {k : String} {other : Stage} (mirrors : Mirrors s k other)
    (rewritten : Rewritten s s' task changed st st' f) (apart : k ≠ task.stageId) :
    Mirrors s' k other := by
  refine ⟨mirrors.named, mirrors.ids, ?_, ?_⟩
  · intro slot mem
    obtain ⟨t, found, owner, same⟩ := mirrors.slots slot mem
    refine ⟨t, ?_, owner, same⟩
    rw [rewritten.tasks, if_neg, found]
    intro own
    rw [own, rewritten.known] at found
    obtain rfl := Option.some.inj found
    exact apart owner.symm
  · intro id t found owner
    rw [rewritten.tasks] at found
    split at found
    · obtain rfl := Option.some.inj found
      exact absurd (owner.symm.trans rewritten.stays) apart
    · exact mirrors.tasks id t found owner

theorem Mirrored.rewritten (mirrored : Mirrored s) (sound : Sound s')
    (rewritten : Rewritten s s' task changed st st' f)
    (status : Reported st' → StageStatusOf st') : Mirrored s' := by
  refine ⟨sound, ?_, ?_, ?_⟩
  · intro k t found
    rw [rewritten.stages]
    split
    · exact ⟨_, rfl⟩
    · rw [rewritten.tasks] at found
      split at found
      · obtain rfl := Option.some.inj found
        exact ⟨st, rewritten.stays ▸ rewritten.held⟩
      · exact mirrored.staged k t found
  · intro k other found
    rw [rewritten.stages] at found
    split at found
    · rename_i own
      obtain rfl := Option.some.inj found
      rw [own]
      exact (mirrored.mirrors _ st rewritten.held).rewritten rewritten
    · rename_i apart
      exact (mirrored.mirrors k other found).untouched rewritten apart
  · intro k other found reported
    rw [rewritten.stages] at found
    split at found
    · obtain rfl := Option.some.inj found
      exact status reported
    · exact mirrored.statuses k other found reported

end States

section Steps
variable {s : ClusterState}

theorem Mirrors.copy_open {task : Task} {k : String} {st : Stage} (mirrors : Mirrors s k st)
    (known : s.task task.id = some task) (isOpen : task.status.isTerminal = false) (slot : Task)
    (mem : slot ∈ st.tasks) (own : slot.id = task.id) : slot.status.isTerminal = false := by
  obtain ⟨t, found, _, alike⟩ := mirrors.slots slot mem
  rw [own, known] at found
  obtain rfl := Option.some.inj found
  rw [alike.status]
  exact isOpen

theorem withAssigned_status {task : Task} {st : Stage} (mirrored : Mirrored s)
    (known : s.task task.id = some task) (held : s.stage task.stageId = some st)
    (isOpen : task.status.isTerminal = false) (workerId : String)
    (reported : Reported (Stage.withAssigned st (Task.assignTo task workerId))) :
    StageStatusOf (Stage.withAssigned st (Task.assignTo task workerId)) := by
  have mirrors := mirrored.mirrors _ st held
  have slots : (Stage.withAssigned st (Task.assignTo task workerId)).tasks =
      st.tasks.map fun slot => if slot.id = task.id then
        assignSlot (Task.assignTo task workerId) slot else slot := updateFirst_eq_map mirrors.ids
  have before : Reported st := by
    obtain ⟨slot', mem', done⟩ := reported
    rw [slots] at mem'
    obtain ⟨slot, mem, rfl⟩ := List.mem_map.mp mem'
    by_cases own : slot.id = task.id
    · rw [if_pos own] at done
      exact nomatch done
    · rw [if_neg own] at done
      exact ⟨slot, mem, done⟩
  refine (mirrored.statuses _ st held before).reopen rfl slots ?_ ?_
  · intro slot mem done
    rw [if_neg]
    intro own
    rw [mirrors.copy_open known isOpen slot mem own] at done
    exact nomatch done
  · intro slot mem stays
    split
    · rfl
    · exact stays

theorem assigned_mirrored (mirrored : Mirrored s) (workerId : String) :
    Mirrored ((tryAssignTask workerId).run s).1 := by
  have sound := tryAssignTask_sound mirrored.sound workerId
  rcases tryAssignTask_cases mirrored.sound workerId with same | ⟨task, rest, waiting, known, same⟩
  · rw [same]
    exact mirrored
  rw [same] at sound ⊢
  obtain ⟨st, held⟩ := mirrored.staged _ task known
  have named := (mirrored.mirrors _ st held).named
  have rewritten : Rewritten s (recordTask { s with pending := rest }
      (Task.assignTo task workerId) Stage.withAssigned) task (Task.assignTo task workerId) st
      (Stage.withAssigned st (Task.assignTo task workerId))
      (assignSlot (Task.assignTo task workerId)) :=
    { known, held, tasks := assigned_task s rest task workerId
      stages := recordTask_stage (s := { s with pending := rest }) (Task.assignTo task workerId)
        Stage.withAssigned held named rfl
      here := rfl, stays := rfl, ids := fun _ => rfl
      alike := fun _ same => same.assigned workerId
      named := rfl, slots := rfl }
  refine mirrored.rewritten sound rewritten ?_
  exact withAssigned_status mirrored known held (popped_open mirrored.sound waiting known) workerId

theorem completed_mirrored (mirrored : Mirrored s) (r : Report) :
    Mirrored ((completeTask r).run s).1 := by
  have sound := completeTask_sound mirrored.sound r
  rw [completeTask_state] at sound ⊢
  cases found : s.task r.taskId with
  | none => exact mirrored
  | some task =>
    simp only [found] at sound ⊢
    have known := found
    rw [← mirrored.sound.taskKeys _ _ found] at known
    obtain ⟨st, held⟩ := mirrored.staged _ task known
    have named := (mirrored.mirrors _ st held).named
    have rewritten : Rewritten s (rollUpJob (recordTask s (Task.withReport task r)
        Stage.withReport) task.jobId r.rolledUpAt) task (Task.withReport task r) st
        (Stage.withReport st (Task.withReport task r)) (reportSlot (Task.withReport task r)) :=
      { known, held, tasks := reported_task (s := s) task r
        stages := by
          intro k
          rw [ClusterState.stage, rollUpJob_stages]
          exact recordTask_stage (Task.withReport task r) Stage.withReport held named rfl k
        here := rfl, stays := rfl, ids := fun _ => rfl
        alike := fun _ same => same.reported r
        named := rfl, slots := rfl }
    refine mirrored.rewritten sound rewritten ?_
    intro reported
    obtain ⟨slot, mem, _⟩ := reported
    exact stageStatusOf_fits (List.ne_nil_of_mem mem)

end Steps

section Submission
variable {s : ClusterState}

/-- Identifiers that are not in use, and are drawn once. -/
structure UniqueIn (s : ClusterState) (d : SubmitDraws) : Prop where
  fresh : FreshIn s d
  stage : s.stage d.stageId = none
  tasks : Function.Injective d.taskIds

theorem submittedState_stage (r : JobRequest) (d : SubmitDraws) (partitions : List PartitionSpec)
    (k : String) : (submittedState s r d partitions).stage k =
      if k = d.stageId then some (submittedStage r d partitions) else s.stage k := by
  show ((stageTasks r d partitions).foldl ClusterState.insertTask
    (s.insertStage (submittedStage r d partitions))).stages.get k = _
  rw [foldl_insertTask_stages]
  exact InsertionMap.get_insert _ _ _ _

theorem stageTasks_ids {d : SubmitDraws} (distinct : Function.Injective d.taskIds)
    (r : JobRequest) (partitions : List PartitionSpec) :
    ((stageTasks r d partitions).map Task.id).Nodup := by
  have ids : (stageTasks r d partitions).map Task.id =
      (List.range partitions.length).map d.taskIds := by
    refine List.ext_getElem (by simp [stageTasks]) fun i _ _ => ?_
    simp [stageTasks, Task.new]
  rw [ids]
  exact List.nodup_range.map distinct

theorem submittedStage_mirrors (mirrored : Mirrored s) {d : SubmitDraws} (unique : UniqueIn s d)
    (r : JobRequest) (partitions : List PartitionSpec) :
    Mirrors (submittedState s r d partitions) d.stageId (submittedStage r d partitions) := by
  have distinct := stageTasks_ids unique.tasks r partitions
  refine ⟨rfl, distinct, ?_, ?_⟩
  · intro slot mem
    have isNew := stageTasks_new mem
    have stored : (submittedState s r d partitions).task slot.id = some slot :=
      foldl_insertTask_get_mem (s.insertStage (submittedStage r d partitions)) _ distinct mem
    refine ⟨slot, stored, ?_, ⟨rfl, rfl, rfl, rfl⟩⟩
    obtain ⟨i, label, sql, rfl⟩ := isNew
    rfl
  · intro id t found owner
    rcases foldl_insertTask_get (s.insertStage (submittedStage r d partitions)) _ found with
      ⟨mem, rfl⟩ | old
    · exact List.mem_map_of_mem mem
    · -- no task of before belongs to the new stage
      obtain ⟨st, stage⟩ := mirrored.staged id t old
      rw [owner, unique.stage] at stage
      exact nomatch stage

theorem Mirrors.submitted {d : SubmitDraws} {k : String} {st : Stage} (mirrors : Mirrors s k st)
    (fresh : FreshIn s d) (r : JobRequest) (partitions : List PartitionSpec)
    (other : k ≠ d.stageId) : Mirrors (submittedState s r d partitions) k st := by
  have recorded := submittedState_recorded s r d partitions
  refine ⟨mirrors.named, mirrors.ids, ?_, ?_⟩
  · intro slot mem
    obtain ⟨t, old, owner, same⟩ := mirrors.slots slot mem
    exact ⟨t, recorded_keeps_task fresh recorded old, owner, same⟩
  · intro id t found owner
    rcases recorded_task recorded found with ⟨⟨i, label, sql, rfl⟩, _⟩ | old
    · exact absurd owner.symm other
    · exact mirrors.tasks id t old owner

theorem submitted_mirrored (mirrored : Mirrored s) {d : SubmitDraws} (unique : UniqueIn s d)
    (r : JobRequest) (partitions : List PartitionSpec) :
    Mirrored (submittedState s r d partitions) := by
  have recorded := submittedState_recorded s r d partitions
  have stages := submittedState_stage (s := s) r d partitions
  refine ⟨recorded_sound mirrored.sound unique.fresh recorded, ?_, ?_, ?_⟩
  · intro k t found
    rw [stages]
    split
    · exact ⟨_, rfl⟩
    · rename_i other
      rcases recorded_task recorded found with ⟨⟨i, label, sql, rfl⟩, _⟩ | old
      · exact absurd rfl other
      · exact mirrored.staged k t old
  · intro k st found
    rw [stages] at found
    split at found
    · rename_i own
      obtain rfl := Option.some.inj found
      rw [own]
      exact submittedStage_mirrors mirrored unique r partitions
    · rename_i other
      exact (mirrored.mirrors k st found).submitted unique.fresh r partitions other
  · intro k st found reported
    rw [stages] at found
    split at found
    · obtain rfl := Option.some.inj found
      obtain ⟨slot, mem, done⟩ := reported
      rw [isNew_open (stageTasks_new mem)] at done
      exact nomatch done
    · exact mirrored.statuses k st found reported

end Submission

section Runs
variable [Regex] [SqlParser] [PlanDebug]

/-- One of the master's operations, with identifiers of its own if it draws any. -/
structure Operates (s : ClusterState) (c : SequentialCall) : Prop where
  operation : isOperation c = true
  unique : ∀ d, c.draws = some d → UniqueIn s d

theorem after_mirrored {s : ClusterState} {c : SequentialCall} (mirrored : Mirrored s)
    (operates : Operates s c) : Mirrored (c.after s) := by
  cases c with
  | submit r catalog d =>
    rw [SequentialCall.after, submitJob_run]
    cases planned : planSql r.sql catalog with
    | error fault => cases fault <;> exact mirrored
    | ok plan => exact submitted_mirrored mirrored (operates.unique d rfl) r _
  | assign workerId => exact assigned_mirrored mirrored workerId
  | complete r => exact completed_mirrored mirrored r
  | skipPlan r d => cases operates.operation
  | sql ctx submitted catalog body d => cases operates.operation

/-- At every moment a stage's copies say what the task map says, and once one of its tasks
    is reported the stage has the status they give. -/
theorem stages_mirror_tasks (masterId : String) (order : HashOrder)
    (calls : List SequentialCall) (s : ClusterState)
    (reached : Steps SequentialCall.after Operates (ClusterState.new masterId order) calls s)
    (k : String) (st : Stage) (known : s.stage k = some st) :
    Mirrors s k st ∧ (Reported st → StageStatusOf st) := by
  have mirrored := reached.invariant (new_mirrored masterId order) after_mirrored
  exact ⟨mirrored.mirrors k st known, mirrored.statuses k st known⟩

end Runs

section Witness

theorem drawsOf_unique (jobId stageId task : String) (now : Time) :
    UniqueIn emptyState (drawsOf jobId stageId task now) := by
  refine ⟨empty_fresh _, InsertionMap.get_empty _, fun i j same => ?_⟩
  have lengths := congrArg String.length same
  simpa [drawsOf] using lengths

theorem once_reported_operates :
    Steps sampleAfter Operates emptyState
      [usersSubmit, .assign "w", .complete (successOf "t" 100)] onceReported := by
  refine .cons _ ⟨rfl, fun d drew => ?_⟩ ?_
  · obtain rfl := Option.some.inj drew
    exact drawsOf_unique _ _ _ _
  refine .cons _ ⟨rfl, fun d none => (nomatch none)⟩ ?_
  exact .cons _ ⟨rfl, fun d none => (nomatch none)⟩ .nil

/-- The sample stage after its only task: the copy shows the worker, the rows and success. -/
theorem sample_stage_mirrors :
    ∃ st, onceReported.stage "s" = some st ∧ Mirrors onceReported "s" st ∧
      StageStatusOf st ∧ st.status = .succeeded := by
  have mirrors := @stages_mirror_tasks noRegex usersParser noDebug "m" insertionOrder _ _
    once_reported_operates "s" _ rfl
  exact ⟨_, rfl, mirrors.1, mirrors.2 ⟨_, List.mem_singleton_self _, rfl⟩, rfl⟩

end Witness

end RSparkStageMirror
