import Mathlib.Data.List.Perm.Basic
import RSpark.WriteBacks

/- What the maps of tasks, stages and jobs satisfy while the master's calls are interleaved,
   and the entries that may be stored in them. -/
namespace RSparkStoreInvariant
open RSparkSqlAst RSparkPlanner RSparkClusterState RSparkMaster RSparkMasterPhases
open RSparkWriteBacks Calls

section Owners
variable [SqlParser] [PlanDebug] {calls : List MasterCall}

theorem known_stage_unique (fresh : FreshDraws calls) {i j : Nat} {c c' : MasterCall}
    {b b' : Submission} (here : calls[i]? = some c) (there : calls[j]? = some c')
    (made : submissionOf c = some b) (made' : submissionOf c' = some b')
    (same : b.stageId = b'.stageId) : i = j := by
  have nodup := fresh.stages
  rw [List.map_filterMap] at nodup
  refine index_unique nodup here there (x := b.stageId) ?_ ?_
  · rw [submissionOf_draws made]
    rfl
  · rw [submissionOf_draws made', same]
    rfl

theorem known_job_unique (fresh : FreshDraws calls) {i j : Nat} {c c' : MasterCall}
    {b b' : Submission} (here : calls[i]? = some c) (there : calls[j]? = some c')
    (made : submissionOf c = some b) (made' : submissionOf c' = some b')
    (same : b.jobId = b'.jobId) : i = j := by
  have nodup := fresh.jobs
  rw [List.map_filterMap] at nodup
  refine index_unique nodup here there (x := b.jobId) ?_ ?_
  · rw [submissionOf_draws made]
    rfl
  · rw [submissionOf_draws made', same]
    rfl

theorem known_ids_nodup (fresh : FreshDraws calls) {b : Submission} (known : Known calls b) :
    b.ids.Nodup := by
  obtain ⟨c, mem, made⟩ := known
  have each := (List.nodup_flatMap.mp fresh.tasks).1 c mem
  rwa [submissionOf_newTasks made] at each

theorem known_task_unique (fresh : FreshDraws calls) {i j : Nat} {c c' : MasterCall}
    {b b' : Submission} {id : String} (here : calls[i]? = some c) (there : calls[j]? = some c')
    (made : submissionOf c = some b) (made' : submissionOf c' = some b') (own : id ∈ b.ids)
    (own' : id ∈ b'.ids) : i = j := by
  have apart := List.pairwise_iff_getElem.mp (List.nodup_flatMap.mp fresh.tasks).2
  obtain ⟨boundI, rfl⟩ := List.getElem?_eq_some_iff.mp here
  obtain ⟨boundJ, rfl⟩ := List.getElem?_eq_some_iff.mp there
  have left : id ∈ calls[i].newTasks.map Task.id := submissionOf_newTasks made ▸ own
  have right : id ∈ calls[j].newTasks.map Task.id := submissionOf_newTasks made' ▸ own'
  rcases Nat.lt_trichotomy i j with before | same | after
  · exact absurd right ((apart i j boundI boundJ before) left)
  · exact same
  · exact absurd left ((apart j i boundJ boundI after) right)

theorem same_submission {i j : Nat} {c c' : MasterCall} {b b' : Submission}
    (here : calls[i]? = some c) (there : calls[j]? = some c') (made : submissionOf c = some b)
    (made' : submissionOf c' = some b') (same : i = j) : b = b' := by
  subst same
  obtain rfl := Option.some.inj (here.symm.trans there)
  exact Option.some.inj (made.symm.trans made')

theorem known_of_calls {b b' : Submission} (known : Known calls b) (known' : Known calls b')
    (unique : ∀ (i j : Nat) (c c' : MasterCall), calls[i]? = some c → calls[j]? = some c' →
      submissionOf c = some b → submissionOf c' = some b' → i = j) : b = b' := by
  obtain ⟨c, mem, made⟩ := known
  obtain ⟨c', mem', made'⟩ := known'
  obtain ⟨i, here⟩ := List.getElem?_of_mem mem
  obtain ⟨j, there⟩ := List.getElem?_of_mem mem'
  exact same_submission here there made made' (unique i j c c' here there made made')

theorem known_of_stage (fresh : FreshDraws calls) {b b' : Submission} (known : Known calls b)
    (known' : Known calls b') (same : b.stageId = b'.stageId) : b = b' :=
  known_of_calls known known' fun _ _ _ _ here there made made' =>
    known_stage_unique fresh here there made made' same

theorem known_of_job (fresh : FreshDraws calls) {b b' : Submission} (known : Known calls b)
    (known' : Known calls b') (same : b.jobId = b'.jobId) : b = b' :=
  known_of_calls known known' fun _ _ _ _ here there made made' =>
    known_job_unique fresh here there made made' same

theorem known_of_task (fresh : FreshDraws calls) {b b' : Submission} (known : Known calls b)
    (known' : Known calls b') {id : String} (own : id ∈ b.ids) (own' : id ∈ b'.ids) : b = b' :=
  known_of_calls known known' fun _ _ _ _ here there made made' =>
    known_task_unique fresh here there made made' own own'

end Owners

section World
variable [SqlParser] [PlanDebug]

structure GoodTask (calls : List MasterCall) (t : Task) : Prop where
  owner : ∃ b, Known calls b ∧ t.id ∈ b.ids ∧ t.jobId = b.jobId ∧ t.stageId = b.stageId
  quiet : t.status.isFailed = false
  rows : t.status = .succeeded → t.resultRows = some (rowsFor calls t.id)

structure GoodStage (calls : List MasterCall) (st : Stage) : Prop where
  owner : ∃ b, Known calls b ∧ st.id = b.stageId ∧ st.jobId = b.jobId ∧
    st.tasks.map Task.id = b.ids
  consistent : st.status = .succeeded ↔ ∀ slot ∈ st.tasks, slot.status = .succeeded

def GoodJob (calls : List MasterCall) (j : Job) : Prop :=
  ∃ b, Known calls b ∧ j.id = b.jobId ∧
    (j.status = .succeeded → j.resultRows = some (totalRows calls b))

structure World (calls : List MasterCall) (s : ClusterState) : Prop where
  tasks : ∀ k t, s.task k = some t →
    t.id = k ∧ GoodTask calls t ∧ ∃ st, s.stage t.stageId = some st
  stages : ∀ k st, s.stage k = some st → st.id = k ∧ GoodStage calls st ∧
    ∀ id, SlotSucceeded st id → Reported s id
  jobs : ∀ k j, s.job k = some j → j.id = k ∧ GoodJob calls j

/-- Entries that may be stored: good ones that undo no success. -/
def Permitted (calls : List MasterCall) (s : ClusterState) : Write → Prop
  | .nothing => True
  | .task t => GoodTask calls t ∧ (∃ st, s.stage t.stageId = some st) ∧
      ∀ old, s.task t.id = some old → old.status = .succeeded → t.status = .succeeded
  | .stage st => GoodStage calls st ∧ (∀ id, SlotSucceeded st id → Reported s id) ∧
      ∀ old, s.stage st.id = some old → ∀ id, SlotSucceeded old id → SlotSucceeded st id
  | .job j => GoodJob calls j ∧
      ∀ old, s.job j.id = some old → old.status = .succeeded → j.status = .succeeded

variable {calls : List MasterCall} {s s' : ClusterState} {w : Write}

theorem wrote_grows (wrote : Wrote w s s') (permitted : Permitted calls s w) : Grows s s' := by
  refine ⟨fun k t found => ?_, fun k st found => ?_, fun k j found => ?_⟩
  · rw [wrote.task, found]
    cases w with
    | task new =>
      simp only [Write.onTask]
      split
      · rename_i same
        exact ⟨new, rfl, permitted.2.2 t (same ▸ found)⟩
      · exact ⟨t, rfl, id⟩
    | _ => exact ⟨t, rfl, id⟩
  · rw [wrote.stage, found]
    cases w with
    | stage new =>
      simp only [Write.onStage]
      split
      · rename_i same
        exact ⟨new, rfl, permitted.2.2 st (same ▸ found)⟩
      · exact ⟨st, rfl, fun _ => id⟩
    | _ => exact ⟨st, rfl, fun _ => id⟩
  · rw [wrote.job, found]
    cases w with
    | job new =>
      simp only [Write.onJob]
      split
      · rename_i same
        exact ⟨new, rfl, permitted.2 j (same ▸ found)⟩
      · exact ⟨j, rfl, id⟩
    | _ => exact ⟨j, rfl, id⟩

theorem wrote_world (world : World calls s) (wrote : Wrote w s s')
    (permitted : Permitted calls s w) : World calls s' := by
  have grows := wrote_grows wrote permitted
  refine ⟨fun k t found => ?_, fun k st found => ?_, fun k j found => ?_⟩
  · have entry : t.id = k ∧ GoodTask calls t ∧ ∃ st, s.stage t.stageId = some st := by
      rw [wrote.task] at found
      cases w with
      | task new =>
        simp only [Write.onTask] at found
        split at found
        · obtain rfl := Option.some.inj found
          rename_i same
          exact ⟨same.symm, permitted.1, permitted.2.1⟩
        · exact world.tasks k t found
      | _ => exact world.tasks k t found
    obtain ⟨named, good, st, placed⟩ := entry
    obtain ⟨st', placed', _⟩ := grows.stages _ st placed
    exact ⟨named, good, st', placed'⟩
  · have entry : st.id = k ∧ GoodStage calls st ∧
        ∀ id, SlotSucceeded st id → Reported s id := by
      rw [wrote.stage] at found
      cases w with
      | stage new =>
        simp only [Write.onStage] at found
        split at found
        · obtain rfl := Option.some.inj found
          rename_i same
          exact ⟨same.symm, permitted.1, permitted.2.1⟩
        · exact world.stages k st found
      | _ => exact world.stages k st found
    obtain ⟨named, good, slots⟩ := entry
    exact ⟨named, good, fun id slot => reported_grows grows (slots id slot)⟩
  · rw [wrote.job] at found
    cases w with
    | job new =>
      simp only [Write.onJob] at found
      split at found
      · obtain rfl := Option.some.inj found
        rename_i same
        exact ⟨same.symm, permitted.1⟩
      · exact world.jobs k j found
    | _ => exact world.jobs k j found

end World

section Local
variable [SqlParser] [PlanDebug]

def Held (calls : List MasterCall) (s : ClusterState) (st : Stage) : Prop :=
  GoodStage calls st ∧ ∃ now, s.stage st.id = some now ∧
    ∀ id, SlotSucceeded st id → SlotSucceeded now id

/-- The tasks of the job of `t` as some thread read them. -/
def Gathered (calls : List MasterCall) (t : Task) (tasks : List Task) : Prop :=
  (∀ x ∈ tasks, x.status.isFailed = false) ∧
    ∀ b, Known calls b → t.jobId = b.jobId → allSucceeded tasks = true →
      (reportedRows tasks).sum = totalRows calls b

structure Assigning (calls : List MasterCall) (s : ClusterState) (t : Task) : Prop where
  good : GoodTask calls t
  unfinished : t.status ≠ .succeeded
  present : InMap s t.id

structure Completing (calls : List MasterCall) (s : ClusterState) (r : Report) (t : Task) :
    Prop where
  good : GoodTask calls t
  named : t.id = r.taskId
  reported : Reported s t.id

def Local (calls : List MasterCall) (s : ClusterState) : Phase → Prop
  | .stageRead b => ∃ st, s.stage b.stageId = some st
  | .taskInsert b todo => (∃ st, s.stage b.stageId = some st) ∧
      ∃ done, b.tasks = done ++ todo ∧ ∀ t ∈ done, InMap s t.id
  | .jobStart b | .jobShow b | .submitted b => Recorded s b
  | .assignTask t | .assignRead t => Assigning calls s t
  | .assignWrite t st => Assigning calls s t ∧ Held calls s st ∧ st.id = t.stageId
  | .report r t => GoodTask calls t ∧ t.id = r.taskId ∧ InMap s t.id
  | .slotRead r t => Completing calls s r t
  | .slotWrite r t st => Completing calls s r t ∧ Held calls s st ∧ st.id = t.stageId
  | .tasksRead r t | .finished r t => Completing calls s r t ∧ Slotted s t
  | .jobRead r t tasks => Completing calls s r t ∧ Slotted s t ∧ Gathered calls t tasks
  | .jobWrite r t tasks j => Completing calls s r t ∧ Slotted s t ∧ Gathered calls t tasks ∧
      GoodJob calls j ∧ j.id = t.jobId ∧ ∃ now, s.job t.jobId = some now
  | _ => True

variable {calls : List MasterCall} {s s' : ClusterState}

theorem held_grows (grows : Grows s s') {st : Stage} (held : Held calls s st) :
    Held calls s' st := by
  obtain ⟨good, now, found, slots⟩ := held
  obtain ⟨now', found', more⟩ := grows.stages _ now found
  exact ⟨good, now', found', fun id slot => more id (slots id slot)⟩

theorem assigning_grows (grows : Grows s s') {t : Task} (assigning : Assigning calls s t) :
    Assigning calls s' t :=
  ⟨assigning.good, assigning.unfinished, inMap_grows grows assigning.present⟩

theorem completing_grows (grows : Grows s s') {r : Report} {t : Task}
    (completing : Completing calls s r t) : Completing calls s' r t :=
  ⟨completing.good, completing.named, reported_grows grows completing.reported⟩

theorem local_grows (grows : Grows s s') {g : Phase} (holds : Local calls s g) :
    Local calls s' g := by
  cases g with
  | stageRead b =>
    obtain ⟨st, found⟩ := holds
    obtain ⟨st', found', _⟩ := grows.stages _ st found
    exact ⟨st', found'⟩
  | taskInsert b todo =>
    obtain ⟨⟨st, found⟩, done, split, present⟩ := holds
    obtain ⟨st', found', _⟩ := grows.stages _ st found
    exact ⟨⟨st', found'⟩, done, split, fun t mem => inMap_grows grows (present t mem)⟩
  | jobStart b => exact recorded_grows grows holds
  | jobShow b => exact recorded_grows grows holds
  | submitted b => exact recorded_grows grows holds
  | assignTask t => exact assigning_grows grows holds
  | assignRead t => exact assigning_grows grows holds
  | assignWrite t st =>
    exact ⟨assigning_grows grows holds.1, held_grows grows holds.2.1, holds.2.2⟩
  | report r t => exact ⟨holds.1, holds.2.1, inMap_grows grows holds.2.2⟩
  | slotRead r t => exact completing_grows grows holds
  | slotWrite r t st =>
    exact ⟨completing_grows grows holds.1, held_grows grows holds.2.1, holds.2.2⟩
  | tasksRead r t => exact ⟨completing_grows grows holds.1, slotted_grows grows holds.2⟩
  | finished r t => exact ⟨completing_grows grows holds.1, slotted_grows grows holds.2⟩
  | jobRead r t tasks =>
    exact ⟨completing_grows grows holds.1, slotted_grows grows holds.2.1, holds.2.2⟩
  | jobWrite r t tasks j =>
    obtain ⟨completing, slotted, gathered, good, named, now, found⟩ := holds
    obtain ⟨now', found', _⟩ := grows.jobs _ now found
    exact ⟨completing_grows grows completing, slotted_grows grows slotted, gathered, good, named,
      now', found'⟩
  | _ => exact trivial

end Local

section Stores
variable [SqlParser] [PlanDebug] {calls : List MasterCall} {s : ClusterState}

theorem known_ids_ne_nil {b : Submission} (known : Known calls b) : b.ids ≠ [] := by
  obtain ⟨c, _, made⟩ := known
  cases c with
  | submit r catalog d =>
    simp only [submissionOf] at made
    cases planned : planSql r.sql catalog with
    | error fault => simp [planned] at made
    | ok plan =>
      simp only [planned, Option.some.injEq] at made
      subst made
      simp only [Submission.ids, Submission.tasks, stageTasks, planPartitions, ne_eq,
        List.map_eq_nil_iff, List.mapIdx_eq_nil_iff]
      split
      · simp
      · rename_i some
        simpa using some
  | assign workerId => simp [submissionOf] at made
  | complete r => simp [submissionOf] at made

theorem new_task_good {b : Submission} (known : Known calls b) {t : Task} (mem : t ∈ b.tasks) :
    GoodTask calls t := by
  obtain ⟨pending, job, stage⟩ := new_task mem
  refine ⟨⟨b, known, List.mem_map_of_mem mem, job, stage⟩, ?_, fun success => ?_⟩
  · rw [pending]
    rfl
  · exact absurd success (by simp [pending])

theorem goodStage_distinct (fresh : FreshDraws calls) {st : Stage} (good : GoodStage calls st) :
    (st.tasks.map Task.id).Nodup := by
  obtain ⟨b, known, _, _, ids⟩ := good.owner
  exact ids ▸ known_ids_nodup fresh known

theorem goodStage_nonempty {st : Stage} (good : GoodStage calls st) : st.tasks ≠ [] := by
  obtain ⟨b, known, _, _, ids⟩ := good.owner
  intro none
  exact known_ids_ne_nil known (by rw [← ids, none, List.map_nil])

theorem own_slot (fresh : FreshDraws calls) {st : Stage} {t : Task} (good : GoodStage calls st)
    (task : GoodTask calls t) (same : st.id = t.stageId) : t.id ∈ st.tasks.map Task.id := by
  obtain ⟨b, known, named, _, ids⟩ := good.owner
  obtain ⟨b', known', mem, _, stage⟩ := task.owner
  obtain rfl := known_of_stage fresh known known' (named.symm.trans (same.trans stage))
  exact ids ▸ mem

theorem good_same_stage (fresh : FreshDraws calls) {t t' : Task} (good : GoodTask calls t)
    (good' : GoodTask calls t') (same : t.id = t'.id) :
    t.stageId = t'.stageId ∧ t.jobId = t'.jobId := by
  obtain ⟨b, known, mem, job, stage⟩ := good.owner
  obtain ⟨b', known', mem', job', stage'⟩ := good'.owner
  obtain rfl := known_of_task fresh known known' mem (same ▸ mem')
  exact ⟨stage.trans stage'.symm, job.trans job'.symm⟩

theorem stage_of_present (fresh : FreshDraws calls) (world : World calls s) {t : Task}
    (good : GoodTask calls t) (present : InMap s t.id) : ∃ st, s.stage t.stageId = some st := by
  obtain ⟨now, found⟩ := present
  obtain ⟨named, good', st, placed⟩ := world.tasks _ _ found
  exact ⟨st, (good_same_stage fresh good good' named.symm).1 ▸ placed⟩

theorem held_reported (world : World calls s) {st : Stage} (held : Held calls s st) {id : String}
    (slot : SlotSucceeded st id) : Reported s id := by
  obtain ⟨_, now, found, slots⟩ := held
  exact (world.stages _ _ found).2.2 id (slots id slot)

theorem permitted_stageInsert {b : Submission} (known : Known calls b)
    (absent : s.stage b.stageId = none) : Permitted calls s (.stage b.stage) := by
  have open' (id : String) : ¬ SlotSucceeded b.stage id := by
    rintro ⟨slot, mem, _, success⟩
    simp [(new_task (b := b) mem).1] at success
  refine ⟨⟨⟨b, known, rfl, rfl, rfl⟩, iff_of_false (nomatch ·) fun all => ?_⟩,
    fun id slot => absurd slot (open' id), fun old found => ?_⟩
  · obtain ⟨id, mem⟩ := List.exists_mem_of_ne_nil _ (known_ids_ne_nil known)
    obtain ⟨slot, inside, _⟩ := List.mem_map.mp mem
    exact open' slot.id ⟨slot, inside, rfl, all slot inside⟩
  · exact absurd found (by rw [show b.stage.id = b.stageId from rfl, absent]; simp)

theorem permitted_taskInsert {b : Submission} (known : Known calls b) {t : Task}
    (mem : t ∈ b.tasks) (stage : ∃ st, s.stage b.stageId = some st)
    (absent : s.task t.id = none) : Permitted calls s (.task t) := by
  refine ⟨new_task_good known mem, (new_task mem).2.2 ▸ stage, fun old found => ?_⟩
  exact absurd found (by simp [absent])

theorem permitted_jobInsert {b : Submission} (known : Known calls b)
    (absent : s.job b.jobId = none) : Permitted calls s (.job b.plannedJob) := by
  refine ⟨⟨b, known, rfl, fun success => nomatch success⟩, fun old found => ?_⟩
  exact absurd found (by rw [show b.plannedJob.id = b.jobId from rfl, absent]; simp)

theorem permitted_jobStart {b : Submission} (known : Known calls b)
    (current : ∀ now, s.job b.jobId = some now → now.status ≠ .succeeded) :
    Permitted calls s (.job b.startedJob) :=
  ⟨⟨b, known, rfl, fun success => nomatch success⟩,
    fun old found success => absurd success (current old found)⟩

theorem permitted_assignTask (fresh : FreshDraws calls) (world : World calls s) {t : Task}
    (assigning : Assigning calls s t)
    (current : ∀ now, s.task t.id = some now → now.status ≠ .succeeded) :
    Permitted calls s (.task t) :=
  ⟨assigning.good, stage_of_present fresh world assigning.good assigning.present,
    fun old found success => absurd success (current old found)⟩

theorem permitted_report (fresh : FreshDraws calls) (once : ReportedOnce calls)
    (world : World calls s) {r : Report} {t : Task} (mem : .complete r ∈ calls)
    (good : GoodTask calls t) (named : t.id = r.taskId) (present : InMap s t.id) :
    (Task.withReport t r).status = .succeeded ∧
      Permitted calls s (.task (Task.withReport t r)) := by
  obtain ⟨b, known, own, job, stage⟩ := good.owner
  have success := once.success b known r mem (named ▸ own)
  have placed := stage_of_present fresh world good present
  have done : (Task.withReport t r).status = .succeeded := by
    simp [Task.withReport, Report.status, success]
  refine ⟨done, ⟨⟨b, known, own, job, stage⟩, ?_, fun _ => ?_⟩,
    placed, fun _ _ _ => done⟩
  · rw [done]
    rfl
  · show some r.rows = some (rowsFor calls t.id)
    rw [named, rowsFor_eq once known mem (named ▸ own)]

theorem completing_done (fresh : FreshDraws calls) (once : ReportedOnce calls)
    (world : World calls s) {r : Report} {t : Task} (mem : .complete r ∈ calls)
    (completing : Completing calls s r t) : (Task.withReport t r).status = .succeeded :=
  (permitted_report fresh once world mem completing.good completing.named
    (inMap_of_reported completing.reported)).1

theorem permitted_assignWrite (fresh : FreshDraws calls) (world : World calls s) {t : Task}
    {st : Stage} (assigning : Assigning calls s t) (held : Held calls s st)
    (same : st.id = t.stageId)
    (current : ∀ now, s.stage st.id = some now →
      ∀ id, SlotSucceeded now id → id ≠ t.id ∧ SlotSucceeded st id) :
    Permitted calls s (.stage (Stage.withAssigned st t)) := by
  have distinct := goodStage_distinct fresh held.1
  have slots (id : String) : SlotSucceeded (Stage.withAssigned st t) id ↔
      id ≠ t.id ∧ SlotSucceeded st id := slot_withAssigned distinct assigning.unfinished
  have own := own_slot fresh held.1 assigning.good same
  have ids : (Stage.withAssigned st t).tasks.map Task.id = st.tasks.map Task.id :=
    updateFirst_ids (f := assignSlot t) (fun _ => rfl) st.tasks
  have unfinished : ¬ SlotSucceeded st t.id := by
    intro slot
    obtain ⟨_, now, found, carried⟩ := held
    exact (current now found t.id (carried t.id slot)).1 rfl
  obtain ⟨b, known, named, job, listed⟩ := held.1.owner
  refine ⟨⟨⟨b, known, named, job, ids.trans listed⟩, ?_⟩, ?_, ?_⟩
  · rw [allSlots_iff (ids ▸ distinct), ids]
    refine iff_of_false (fun success => ?_) (fun all => ((slots t.id).mp (all t.id own)).1 rfl)
    exact unfinished ((allSlots_iff distinct).mp (held.1.consistent.mp success) t.id own)
  · intro id slot
    exact held_reported world held ((slots id).mp slot).2
  · intro old found id slot
    exact (slots id).mpr (current old found id slot)

theorem permitted_slotWrite (fresh : FreshDraws calls) (world : World calls s) {r : Report}
    {t : Task} {st : Stage} (completing : Completing calls s r t)
    (done : (Task.withReport t r).status = .succeeded) (held : Held calls s st)
    (same : st.id = t.stageId)
    (current : ∀ now, s.stage st.id = some now →
      ∀ id, SlotSucceeded now id → id ≠ t.id ∧ SlotSucceeded st id) :
    Permitted calls s (.stage (Stage.withReport st (Task.withReport t r))) := by
  have distinct := goodStage_distinct fresh held.1
  have own := own_slot fresh held.1 completing.good same
  have slots (id : String) : SlotSucceeded (Stage.withReport st (Task.withReport t r)) id ↔
      id = t.id ∨ SlotSucceeded st id := slot_withReport distinct done own
  have ids : (Stage.withReport st (Task.withReport t r)).tasks.map Task.id =
      st.tasks.map Task.id :=
    updateFirst_ids (f := reportSlot (Task.withReport t r)) (fun _ => rfl) st.tasks
  obtain ⟨b, known, named, job, listed⟩ := held.1.owner
  refine ⟨⟨⟨b, known, named, job, ids.trans listed⟩, ?_⟩, ?_, ?_⟩
  · exact withReport_status_iff (goodStage_nonempty held.1) _
  · intro id slot
    rcases (slots id).mp slot with rfl | before
    · exact completing.reported
    · exact held_reported world held before
  · intro old found id slot
    exact (slots id).mpr (Or.inr (current old found id slot).2)

theorem permitted_jobWrite {t : Task} {tasks : List Task} {j : Job} (now : Time)
    (gathered : Gathered calls t tasks) (good : GoodJob calls j) (named : j.id = t.jobId)
    (current : ∀ now, s.job j.id = some now → now.status = .succeeded →
      j.status = .succeeded ∨ allSucceeded tasks = true) (counts : CountsRight tasks) :
    Permitted calls s (.job (Job.rolledUp j tasks now)) := by
  have quiet : ¬ (tasks.any fun t => t.status.isFailed) = true := by
    intro failed
    obtain ⟨x, mem, fails⟩ := List.any_eq_true.mp failed
    simp [gathered.1 x mem] at fails
  obtain ⟨b, known, own, rows⟩ := good
  refine ⟨⟨b, known, (rolledUp_id j tasks now).trans own, fun success => ?_⟩,
    fun old found success => ?_⟩
  · by_cases all : allSucceeded tasks = true
    · have total := gathered.2 b known (named.symm.trans own) all
      simp [Job.rolledUp, all, rowsOf, usizeSum_of_lt (counts all), total]
    · rw [rolledUp_status, if_neg all, if_neg quiet] at success
      simp [Job.rolledUp, all, quiet, rows success]
  · rw [rolledUp_id] at found
    rw [rolledUp_status]
    rcases current old found success with already | all
    · simp [quiet, already]
    · simp [all]

end Stores

end RSparkStoreInvariant
