import RSpark.MasterPhases

/- The read-modify-write rounds of the master: when a write-back undoes no success, and what
   it does to the slots of a stage. -/
namespace RSparkWriteBacks
open RSparkSqlAst RSparkPlanner RSparkClusterState RSparkMaster RSparkMasterPhases Calls

section Growth

def SlotSucceeded (st : Stage) (id : String) : Prop :=
  ∃ slot ∈ st.tasks, slot.id = id ∧ slot.status = .succeeded

def InMap (s : ClusterState) (id : String) : Prop := ∃ t, s.task id = some t

def Reported (s : ClusterState) (id : String) : Prop :=
  ∃ t, s.task id = some t ∧ t.status = .succeeded

structure Grows (s s' : ClusterState) : Prop where
  tasks : ∀ k t, s.task k = some t →
    ∃ t', s'.task k = some t' ∧ (t.status = .succeeded → t'.status = .succeeded)
  stages : ∀ k st, s.stage k = some st →
    ∃ st', s'.stage k = some st' ∧ ∀ id, SlotSucceeded st id → SlotSucceeded st' id
  jobs : ∀ k j, s.job k = some j →
    ∃ j', s'.job k = some j' ∧ (j.status = .succeeded → j'.status = .succeeded)

def Slotted (s : ClusterState) (t : Task) : Prop :=
  ∃ st, s.stage t.stageId = some st ∧ SlotSucceeded st t.id

def Early (s : ClusterState) : Phase → Prop
  | .stageInsert b => s.stage b.stageId = none ∧ (∀ id ∈ b.ids, s.task id = none) ∧
      s.job b.jobId = none
  | .stageRead b => s.stage b.stageId = some b.stage ∧ (∀ id ∈ b.ids, s.task id = none) ∧
      s.job b.jobId = none
  | .taskInsert b todo => (∀ t ∈ todo, s.task t.id = none) ∧ s.job b.jobId = none
  | _ => True

/-- The rows of a finished job add up within `usize`. -/
def CountsRight (tasks : List Task) : Prop :=
  allSucceeded tasks = true → (reportedRows tasks).sum < usizeSize

instance (tasks : List Task) : Decidable (CountsRight tasks) :=
  inferInstanceAs (Decidable (_ → _))

def Current (s : ClusterState) : Phase → Prop
  | .assignTask t => ∀ now, s.task t.id = some now → now.status ≠ .succeeded
  | .assignWrite t st | .slotWrite _ t st => ∀ now, s.stage st.id = some now →
      ∀ id, SlotSucceeded now id → id ≠ t.id ∧ SlotSucceeded st id
  | .tasksRead _ t => allSucceeded (s.tasksForJob t.jobId) = true →
      ∀ k st, s.stage k = some st → st.jobId = t.jobId → ∀ slot ∈ st.tasks, InMap s slot.id
  | .jobStart b => ∀ now, s.job b.jobId = some now → now.status ≠ .succeeded
  | .jobWrite _ _ tasks j => (∀ now, s.job j.id = some now → now.status = .succeeded →
      j.status = .succeeded ∨ allSucceeded tasks = true) ∧ CountsRight tasks
  | _ => True

def Recorded (s : ClusterState) (b : Submission) : Prop :=
  (∃ st, s.stage b.stageId = some st) ∧ (∀ id ∈ b.ids, InMap s id) ∧
    ∃ j, s.job b.jobId = some j

variable {s s' : ClusterState}

theorem inMap_of_reported {id : String} (reported : Reported s id) : InMap s id := by
  obtain ⟨t, found, _⟩ := reported
  exact ⟨t, found⟩

theorem reported_grows (grows : Grows s s') {id : String} (reported : Reported s id) :
    Reported s' id := by
  obtain ⟨t, found, success⟩ := reported
  obtain ⟨t', found', stays⟩ := grows.tasks id t found
  exact ⟨t', found', stays success⟩

theorem inMap_grows (grows : Grows s s') {id : String} (present : InMap s id) :
    InMap s' id := by
  obtain ⟨t, found⟩ := present
  obtain ⟨t', found', _⟩ := grows.tasks id t found
  exact ⟨t', found'⟩

theorem slotted_grows (grows : Grows s s') {t : Task} (slotted : Slotted s t) : Slotted s' t := by
  obtain ⟨st, found, slot⟩ := slotted
  obtain ⟨st', found', more⟩ := grows.stages _ st found
  exact ⟨st', found', more _ slot⟩

theorem recorded_grows (grows : Grows s s') {b : Submission} (recorded : Recorded s b) :
    Recorded s' b := by
  obtain ⟨⟨st, found⟩, tasks, j, known⟩ := recorded
  obtain ⟨st', found', _⟩ := grows.stages _ st found
  obtain ⟨j', known', _⟩ := grows.jobs _ j known
  exact ⟨⟨st', found'⟩, fun id mem => inMap_grows grows (tasks id mem), j', known'⟩

end Growth

section Condition

instance (st : Stage) (id : String) : Decidable (SlotSucceeded st id) :=
  inferInstanceAs (Decidable (∃ slot ∈ st.tasks, slot.id = id ∧ slot.status = .succeeded))

/-- Nothing recorded as a success is missing from what the thread has read, a roll-up does not
    read a job all done while some of its tasks are still to be inserted, and the rows it adds
    up fit. -/
def FindsCurrent (reads : Reads) (s : ClusterState) : Op → Prop
  | .updateTask t => ∀ now ∈ s.task t.id, now.status ≠ .succeeded
  | .updateStage st => ∀ now ∈ s.stage st.id, ∀ slot ∈ now.tasks, slot.status = .succeeded →
      reads.task.map Task.id ≠ some slot.id ∧ ∃ read ∈ reads.stage, SlotSucceeded read slot.id
  | .tasksForJob jobId => allSucceeded (s.tasksForJob jobId) = true →
      ∀ st ∈ s.stages.values, st.jobId = jobId → ∀ slot ∈ st.tasks, (s.task slot.id).isSome
  | .updateJob j => (∀ now ∈ s.job j.id, now.status = .succeeded →
      (∃ read ∈ reads.job, read.status = .succeeded) ∨ allSucceeded reads.tasks = true) ∧
        CountsRight reads.tasks
  | _ => True

instance (reads : Reads) (s : ClusterState) : (o : Op) → Decidable (FindsCurrent reads s o)
  | .updateTask t => inferInstanceAs (Decidable (∀ now ∈ s.task t.id, now.status ≠ .succeeded))
  | .updateStage st => inferInstanceAs (Decidable (∀ now ∈ s.stage st.id, ∀ slot ∈ now.tasks,
      slot.status = .succeeded → reads.task.map Task.id ≠ some slot.id ∧
        ∃ read ∈ reads.stage, SlotSucceeded read slot.id))
  | .tasksForJob jobId => inferInstanceAs (Decidable (allSucceeded (s.tasksForJob jobId) = true →
      ∀ st ∈ s.stages.values, st.jobId = jobId → ∀ slot ∈ st.tasks, (s.task slot.id).isSome))
  | .updateJob j => inferInstanceAs (Decidable ((∀ now ∈ s.job j.id, now.status = .succeeded →
      (∃ read ∈ reads.job, read.status = .succeeded) ∨ allSucceeded reads.tasks = true) ∧
        CountsRight reads.tasks))
  | .registerWorker _ | .insertJob _ | .job _ | .insertStage _ | .stage _ | .insertTask _
  | .task _ | .popPendingTask | .incRunningRound | .recordCompletedRound => .isTrue trivial

def current (history : List (Event clusterInterface)) (s : ClusterState) (i : Nat) (o : Op) :
    Prop := FindsCurrent (readsOf history i) s o

instance (history : List (Event clusterInterface)) (s : ClusterState) (i : Nat) (o : Op) :
    Decidable (current history s i o) :=
  inferInstanceAs (Decidable (FindsCurrent (readsOf history i) s o))

theorem current_of_reads {s : ClusterState} {g : Phase} {o : Op} {reads : Reads}
    (next : g.op = some o) (recalls : g.Recalls reads)
    (finds : FindsCurrent reads s o) : Current s g := by
  have slots {st st' : Stage} {t : Task} (named : st'.id = st.id)
      (task : reads.task.map Task.id = some t.id) (stage : reads.stage = some st)
      (finds : FindsCurrent reads s (.updateStage st')) :
      ∀ now, s.stage st.id = some now → ∀ id, SlotSucceeded now id →
        id ≠ t.id ∧ SlotSucceeded st id := by
    rintro now found id ⟨slot, mem, rfl, success⟩
    obtain ⟨other, read, known, carried⟩ := finds now (named ▸ found) slot mem success
    rw [task] at other
    rw [stage] at known
    obtain rfl := Option.some.inj known
    exact ⟨fun same => other (congrArg some same.symm), carried⟩
  cases g with
  | assignTask t => obtain rfl := Option.some.inj next; exact finds
  | assignWrite t st =>
    obtain rfl := Option.some.inj next
    exact slots rfl recalls.1 recalls.2 finds
  | slotWrite r t st =>
    obtain rfl := Option.some.inj next
    exact slots rfl recalls.1 recalls.2 finds
  | tasksRead r t =>
    obtain rfl := Option.some.inj next
    intro all k st found own slot mem
    have stored := (s.stages.mem_values_iff st).mpr ⟨k, found⟩
    exact Option.isSome_iff_exists.mp (finds all st stored own slot mem)
  | jobStart b =>
    obtain rfl := Option.some.inj next
    intro now found success
    rcases finds.1 now found success with ⟨read, known, _⟩ | all
    · exact absurd known (by simp [recalls.1])
    · exact absurd all (by simp [recalls.2, allSucceeded])
  | jobWrite r t tasks j =>
    obtain rfl := Option.some.inj next
    refine ⟨fun now found success => ?_, recalls.1 ▸ finds.2⟩
    rw [← rolledUp_id j tasks r.rolledUpAt] at found
    rcases finds.1 now found success with ⟨read, known, done⟩ | all
    · obtain rfl := Option.some.inj (recalls.2.symm.trans known)
      exact Or.inl done
    · exact Or.inr (recalls.1 ▸ all)
  | _ => exact trivial

variable [SqlParser] [PlanDebug]

def Known (calls : List MasterCall) (b : Submission) : Prop :=
  ∃ c ∈ calls, submissionOf c = some b

structure ReportedOnce (calls : List MasterCall) : Prop where
  reported : ∀ b, Known calls b → ∀ id ∈ b.ids, ∃ r, .complete r ∈ calls ∧ r.taskId = id
  success : ∀ b, Known calls b → ∀ r, .complete r ∈ calls → r.taskId ∈ b.ids →
    r.success = true
  once : ∀ b, Known calls b → ∀ (i j : Nat) r r', calls[i]? = some (.complete r) →
    calls[j]? = some (.complete r') → r.taskId = r'.taskId → r.taskId ∈ b.ids → i = j

def reportsTo (id : String) : MasterCall → Bool
  | .complete r => r.taskId = id
  | _ => false

def rowsFor (calls : List MasterCall) (id : String) : Nat :=
  match calls.find? (reportsTo id) with
  | some (.complete r) => r.rows
  | _ => 0

def totalRows (calls : List MasterCall) (b : Submission) : Nat :=
  (b.ids.map (rowsFor calls)).sum

theorem rowsFor_eq {calls : List MasterCall} (once : ReportedOnce calls) {b : Submission}
    (known : Known calls b) {r : Report} (mem : .complete r ∈ calls) (own : r.taskId ∈ b.ids) :
    rowsFor calls r.taskId = r.rows := by
  obtain ⟨j, there⟩ := List.getElem?_of_mem mem
  unfold rowsFor
  cases found : calls.find? (reportsTo r.taskId) with
  | none =>
    have none := List.find?_eq_none.mp found _ mem
    simp [reportsTo] at none
  | some c =>
    have same := List.find?_some found
    obtain ⟨i, here⟩ := List.getElem?_of_mem (List.mem_of_find?_eq_some found)
    cases c with
    | complete r' =>
      have same : r'.taskId = r.taskId := by simpa [reportsTo] using same
      obtain rfl := once.once b known i j r' r here there same (same ▸ own)
      obtain rfl := MasterCall.complete.inj (Option.some.inj (here.symm.trans there))
      rfl
    | submit r' catalog d => simp [reportsTo] at same
    | assign workerId => simp [reportsTo] at same

end Condition

section Slots
variable {st : Stage} {t : Task}

theorem slot_updateFirst {ts : List Task} {k id : String} {f : Task → Task}
    (distinct : (ts.map Task.id).Nodup) (keeps : ∀ t, (f t).id = t.id) (P : Task → Prop) :
    (∃ slot ∈ updateFirst (·.id = k) f ts, slot.id = id ∧ P slot) ↔
      ∃ slot ∈ ts, slot.id = id ∧ P (if slot.id = k then f slot else slot) := by
  rw [updateFirst_eq_map distinct]
  constructor
  · rintro ⟨slot, mem, named, holds⟩
    obtain ⟨old, inside, rfl⟩ := List.mem_map.mp mem
    refine ⟨old, inside, ?_, holds⟩
    rw [← named]
    split <;> simp [keeps]
  · rintro ⟨slot, mem, named, holds⟩
    refine ⟨_, List.mem_map_of_mem mem, ?_, holds⟩
    rw [← named]
    split <;> simp [keeps]

theorem slot_withAssigned (distinct : (st.tasks.map Task.id).Nodup)
    (unfinished : t.status ≠ .succeeded) {id : String} :
    SlotSucceeded (Stage.withAssigned st t) id ↔ id ≠ t.id ∧ SlotSucceeded st id := by
  refine (slot_updateFirst distinct (f := assignSlot t) (fun _ => rfl)
    (P := fun slot => slot.status = .succeeded)).trans ?_
  constructor
  · rintro ⟨slot, mem, rfl, success⟩
    split at success
    · exact absurd success unfinished
    · rename_i other
      exact ⟨other, slot, mem, rfl, success⟩
  · rintro ⟨other, slot, mem, rfl, success⟩
    refine ⟨slot, mem, rfl, ?_⟩
    rwa [if_neg other]

theorem slot_withReport (distinct : (st.tasks.map Task.id).Nodup)
    (success : t.status = .succeeded) (own : t.id ∈ st.tasks.map Task.id) {id : String} :
    SlotSucceeded (Stage.withReport st t) id ↔ id = t.id ∨ SlotSucceeded st id := by
  refine (slot_updateFirst distinct (f := reportSlot t) (fun _ => rfl)
    (P := fun slot => slot.status = .succeeded)).trans ?_
  constructor
  · rintro ⟨slot, mem, rfl, done⟩
    split at done
    · rename_i same
      exact Or.inl same
    · exact Or.inr ⟨slot, mem, rfl, done⟩
  · rintro (rfl | ⟨slot, mem, rfl, done⟩)
    · obtain ⟨slot, mem, named⟩ := List.mem_map.mp own
      exact ⟨slot, mem, named, by rw [if_pos named]; exact success⟩
    · refine ⟨slot, mem, rfl, ?_⟩
      split
      · exact success
      · exact done

theorem allSlots_iff (distinct : (st.tasks.map Task.id).Nodup) :
    (∀ slot ∈ st.tasks, slot.status = .succeeded) ↔
      ∀ id ∈ st.tasks.map Task.id, SlotSucceeded st id := by
  constructor
  · intro all id mem
    obtain ⟨slot, inside, rfl⟩ := List.mem_map.mp mem
    exact ⟨slot, inside, rfl, all slot inside⟩
  · intro all slot mem
    obtain ⟨slot', mem', same, success⟩ := all slot.id (List.mem_map_of_mem mem)
    rwa [← List.inj_on_of_nodup_map distinct mem' mem same]

theorem stageStatusOf_iff (st : Stage) (nonempty : st.tasks ≠ []) :
    stageStatusOf st = .succeeded ↔ ∀ slot ∈ st.tasks, slot.status = .succeeded := by
  have complete : st.isComplete = true ↔ ∀ slot ∈ st.tasks, slot.status = .succeeded := by
    simp [Stage.isComplete, nonempty, isSucceeded_iff]
  rw [← complete, stageStatusOf]
  split
  · rename_i all
    simp [all]
  · rename_i open'
    split <;> simp [open']

theorem withReport_status_iff (nonempty : st.tasks ≠ []) (t : Task) :
    (Stage.withReport st t).status = .succeeded ↔
      ∀ slot ∈ (Stage.withReport st t).tasks, slot.status = .succeeded := by
  refine stageStatusOf_iff
    { st with tasks := updateFirst (·.id = t.id) (reportSlot t) st.tasks } fun none => nonempty ?_
  have ids := updateFirst_ids (p := (·.id = t.id)) (f := reportSlot t) (fun _ => rfl) st.tasks
  rw [show updateFirst (·.id = t.id) (reportSlot t) st.tasks = [] from none, List.map_nil] at ids
  exact List.map_eq_nil_iff.mp ids.symm

theorem new_task {b : Submission} {t : Task} (mem : t ∈ b.tasks) :
    t.status = .pending ∧ t.jobId = b.jobId ∧ t.stageId = b.stageId := by
  obtain ⟨i, _, rfl⟩ := List.mem_mapIdx.mp mem
  exact ⟨rfl, rfl, rfl⟩

end Slots

end RSparkWriteBacks
