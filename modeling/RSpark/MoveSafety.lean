import RSpark.StoreInvariant

/- One move of one call among others: what it may store, what its thread may count on
   afterwards, what it leaves to the other threads, and who carries a job's success. -/
namespace RSparkMoveSafety
open RSparkSqlAst RSparkPlanner RSparkClusterState RSparkMaster RSparkMasterPhases
open RSparkWriteBacks RSparkStoreInvariant Calls

section Moves
variable [SqlParser] [PlanDebug] {calls : List MasterCall} {s : ClusterState}
variable {g g' : Phase} {o : Op} {found : o.Resp} {w : Write} {i : Nat} {c : MasterCall}

theorem known_of_call (here : calls[i]? = some c) {b : Submission}
    (made : submissionOf c = some b) : Known calls b :=
  ⟨c, List.mem_of_getElem? here, made⟩

theorem own_job_iff (fresh : FreshDraws calls) {b : Submission} (known : Known calls b)
    {x : Task} (good : GoodTask calls x) : x.jobId = b.jobId ↔ x.id ∈ b.ids := by
  obtain ⟨b', known', mem, job, _⟩ := good.owner
  constructor
  · intro same
    obtain rfl := known_of_job fresh known known' (same.symm.trans job)
    exact mem
  · intro mem'
    obtain rfl := known_of_task fresh known known' mem' mem
    exact job

theorem listed_ids (fresh : FreshDraws calls) (world : World calls s) {b : Submission}
    (known : Known calls b) (present : ∀ id ∈ b.ids, InMap s id) (id : String) :
    id ∈ (s.tasksForJob b.jobId).map Task.id ↔ id ∈ b.ids := by
  have keyed : TasksKeyed s := fun k x found => (world.tasks k x found).1
  constructor
  · intro mem
    obtain ⟨x, inside, rfl⟩ := List.mem_map.mp mem
    obtain ⟨found, own⟩ := (mem_tasksForJob_iff keyed).mp inside
    exact (own_job_iff fresh known (world.tasks _ _ found).2.1).mp own
  · intro mem
    obtain ⟨x, found⟩ := present id mem
    obtain ⟨key, good, _⟩ := world.tasks _ _ found
    refine List.mem_map.mpr ⟨x, (mem_tasksForJob_iff keyed).mpr ⟨key.symm ▸ found, ?_⟩, key⟩
    exact (own_job_iff fresh known good).mpr (key.symm ▸ mem)

theorem listed_rows (world : World calls s) {jobId : String}
    (all : allSucceeded (s.tasksForJob jobId) = true) : reportedRows (s.tasksForJob jobId) =
      (s.tasksForJob jobId).map fun x => rowsFor calls x.id := by
  have keyed : TasksKeyed s := fun k x found => (world.tasks k x found).1
  refine reportedRows_eq fun x mem => ?_
  obtain ⟨found, _⟩ := (mem_tasksForJob_iff keyed).mp mem
  simp only [allSucceeded, Bool.and_eq_true, List.all_eq_true] at all
  exact (world.tasks _ _ found).2.1.rows (isSucceeded_iff.mp (all.2 x mem))

theorem gathered_tasks (fresh : FreshDraws calls) (world : World calls s) {t : Task}
    (good : GoodTask calls t) (present : InMap s t.id)
    (current : allSucceeded (s.tasksForJob t.jobId) = true →
      ∀ k st, s.stage k = some st → st.jobId = t.jobId → ∀ slot ∈ st.tasks, InMap s slot.id) :
    Gathered calls t (s.tasksForJob t.jobId) := by
  have keyed : TasksKeyed s := fun k x found => (world.tasks k x found).1
  refine ⟨fun x mem => ?_, fun b known same all => ?_⟩
  · obtain ⟨found, _⟩ := (mem_tasksForJob_iff keyed).mp mem
    exact (world.tasks _ _ found).2.1.quiet
  obtain ⟨st, placed⟩ := stage_of_present fresh world good present
  obtain ⟨named, fine, _⟩ := world.stages _ _ placed
  obtain ⟨b', known', stage, job, ids⟩ := fine.owner
  obtain ⟨b'', known'', _, job'', stage''⟩ := good.owner
  obtain rfl := known_of_stage fresh known' known'' (stage.symm.trans (named.trans stage''))
  obtain rfl := known_of_job fresh known known' (same.symm.trans job'')
  have stored : ∀ id ∈ b.ids, InMap s id := by
    intro id mem
    rw [← ids] at mem
    obtain ⟨slot, inside, rfl⟩ := List.mem_map.mp mem
    exact current all _ st placed (job.trans same.symm) slot inside
  rw [same] at all ⊢
  have perm := (List.perm_ext_iff_of_nodup (tasksForJob_ids_nodup keyed b.jobId)
    (known_ids_nodup fresh known)).mpr (listed_ids fresh world known stored)
  rw [listed_rows world all, totalRows, ← (perm.map (rowsFor calls)).sum_nat, List.map_map]
  rfl

theorem move_permitted (fresh : FreshDraws calls) (once : ReportedOnce calls)
    (world : World calls s) (here : calls[i]? = some c) (tracks : Tracks c g)
    (holds : Local calls s g) (early : Early s g) (current : Current s g)
    (move : Move g o found g' w) : Permitted calls s w := by
  cases move with
  | stageInsert b => exact permitted_stageInsert (known_of_call here tracks) early.1
  | taskInsert b t rest =>
    obtain ⟨stage, done, split, _⟩ := holds
    refine permitted_taskInsert (known_of_call here tracks) ?_ stage
      (early.1 t List.mem_cons_self)
    rw [split]
    exact List.mem_append_right _ List.mem_cons_self
  | jobInsert b => exact permitted_jobInsert (known_of_call here tracks) early.2
  | jobStart b => exact permitted_jobStart (known_of_call here tracks) current
  | assignTask t => exact permitted_assignTask fresh world holds current
  | assignWrite t st =>
    exact permitted_assignWrite fresh world holds.1 holds.2.1 holds.2.2 current
  | report r t =>
    obtain rfl : c = .complete r := tracks
    exact (permitted_report fresh once world (List.mem_of_getElem? here) holds.1 holds.2.1
      holds.2.2).2
  | slotWrite r t st =>
    obtain rfl : c = .complete r := tracks
    obtain ⟨completing, held, same⟩ := holds
    have done := completing_done fresh once world (List.mem_of_getElem? here) completing
    exact permitted_slotWrite fresh world completing done held same current
  | jobWrite r t tasks j =>
    obtain ⟨_, _, gathered, good, named, _⟩ := holds
    exact permitted_jobWrite _ gathered good named current.1 current.2
  | _ => exact trivial

theorem held_of_read (world : World calls s) {k : String} {st : Stage}
    (found : s.stage k = some st) : Held calls s st ∧ st.id = k := by
  obtain ⟨named, good, _⟩ := world.stages k st found
  exact ⟨⟨good, st, named.symm ▸ found, fun _ slot => slot⟩, named⟩

theorem assigning_of_popped (world : World calls s) {t : Task} {k : String}
    (found : s.task k = some t) (workerId : String) :
    Assigning calls s (Task.assignTo t workerId) := by
  obtain ⟨named, good, _⟩ := world.tasks k t found
  exact ⟨⟨good.owner, rfl, fun success => (nomatch success)⟩, fun success => (nomatch success),
    ⟨t, (congrArg s.task named).trans found⟩⟩

theorem move_local {s' : ClusterState} (fresh : FreshDraws calls) (once : ReportedOnce calls)
    (world : World calls s) (here : calls[i]? = some c) (tracks : Tracks c g)
    (holds : Local calls s g) (early : Early s g) (current : Current s g)
    (move : Move g o found g' w) (answer : (Op.exec o s).2 = found) (wrote : Wrote w s s')
    (grows : Grows s s') : Local calls s' g' := by
  cases move with
  | stageInsert b =>
    refine ⟨b.stage, ?_⟩
    rw [wrote.stage]
    exact if_pos rfl
  | stageFound b st =>
    obtain rfl := Option.some.inj (early.1.symm.trans answer)
    obtain ⟨st, known⟩ := holds
    obtain ⟨st', known', _⟩ := grows.stages _ st known
    exact ⟨⟨st', known'⟩, [], rfl, fun t mem => absurd mem List.not_mem_nil⟩
  | taskInsert b t rest =>
    obtain ⟨⟨st, known⟩, done, split, present⟩ := holds
    obtain ⟨st', known', _⟩ := grows.stages _ st known
    refine ⟨⟨st', known'⟩, done ++ [t], by simpa using split, fun t' mem => ?_⟩
    rcases List.mem_append.mp mem with before | same
    · exact inMap_grows grows (present t' before)
    · obtain rfl := List.mem_singleton.mp same
      exact ⟨t', (wrote.task _).trans (if_pos rfl)⟩
  | jobInsert b =>
    obtain ⟨⟨st, known⟩, done, split, present⟩ := holds
    obtain ⟨st', known', _⟩ := grows.stages _ st known
    refine ⟨⟨st', known'⟩, fun id mem => ?_, _, (wrote.job _).trans (if_pos rfl)⟩
    obtain ⟨t, inside, rfl⟩ := List.mem_map.mp mem
    rw [split, List.append_nil] at inside
    exact inMap_grows grows (present t inside)
  | jobStart b => exact recorded_grows grows holds
  | jobShow b => exact recorded_grows grows holds
  | popFound workerId t =>
    obtain ⟨k, found⟩ := popped_found answer
    exact assigning_grows grows (assigning_of_popped world found workerId)
  | assignTask t => exact assigning_grows grows holds
  | assignFound t st =>
    obtain ⟨held, same⟩ := held_of_read world answer
    exact ⟨assigning_grows grows holds, held_grows grows held, same⟩
  | findFound r t =>
    obtain ⟨named, good, _⟩ := world.tasks _ _ answer
    exact ⟨good, named, inMap_grows grows ⟨t, named.symm ▸ answer⟩⟩
  | report r t =>
    obtain rfl : c = .complete r := tracks
    obtain ⟨good, named, present⟩ := holds
    have done := (permitted_report fresh once world (List.mem_of_getElem? here) good named
      present).1
    exact ⟨good, named, Task.withReport t r, (wrote.task _).trans (if_pos rfl), done⟩
  | slotFound r t st =>
    obtain ⟨held, same⟩ := held_of_read world answer
    exact ⟨completing_grows grows holds, held_grows grows held, same⟩
  | slotLost r t =>
    have placed := stage_of_present fresh world holds.good (inMap_of_reported holds.reported)
    obtain ⟨st, found⟩ := placed
    exact absurd (found.symm.trans answer) (by simp)
  | slotWrite r t st =>
    obtain rfl : c = .complete r := tracks
    obtain ⟨completing, held, same⟩ := holds
    have done := completing_done fresh once world (List.mem_of_getElem? here) completing
    have own := own_slot fresh held.1 completing.good same
    refine ⟨completing_grows grows completing, _, (wrote.stage _).trans (if_pos same.symm), ?_⟩
    exact (slot_withReport (t := Task.withReport t r) (goodStage_distinct fresh held.1) done
      own).mpr (Or.inl rfl)
  | tasksRead r t tasks =>
    obtain ⟨completing, slotted⟩ := holds
    obtain rfl : s.tasksForJob t.jobId = tasks := answer
    exact ⟨completing_grows grows completing, slotted_grows grows slotted,
      gathered_tasks fresh world completing.good (inMap_of_reported completing.reported) current⟩
  | jobFound r t tasks j =>
    obtain ⟨completing, slotted, gathered⟩ := holds
    obtain ⟨named, good⟩ := world.jobs _ _ answer
    obtain ⟨now, found, _⟩ := grows.jobs _ _ answer
    exact ⟨completing_grows grows completing, slotted_grows grows slotted, gathered, good, named,
      now, found⟩
  | jobWrite r t tasks j => exact ⟨completing_grows grows holds.1, slotted_grows grows holds.2.1⟩
  | _ => exact trivial

theorem move_early {s' : ClusterState} (fresh : FreshDraws calls) (here : calls[i]? = some c)
    (tracks : Tracks c g) (holds : Local calls s g) (early : Early s g)
    (move : Move g o found g' w) (answer : (Op.exec o s).2 = found) (wrote : Wrote w s s') :
    Early s' g' := by
  cases move with
  | stageInsert b =>
    obtain ⟨_, tasks, job⟩ := early
    exact ⟨(wrote.stage _).trans (if_pos rfl), fun id mem => (wrote.task id).trans (tasks id mem),
      (wrote.job _).trans job⟩
  | stageFound b st =>
    obtain ⟨stage, tasks, job⟩ := early
    obtain rfl := Option.some.inj (stage.symm.trans answer)
    exact ⟨fun t mem => (wrote.task _).trans (tasks _ (List.mem_map_of_mem mem)),
      (wrote.job _).trans job⟩
  | taskInsert b t rest =>
    obtain ⟨tasks, job⟩ := early
    obtain ⟨_, done, split, _⟩ := holds
    refine ⟨fun t' mem => ?_, (wrote.job _).trans job⟩
    have distinct := known_ids_nodup fresh (known_of_call here tracks)
    rw [Submission.ids, split, List.map_append, List.map_cons] at distinct
    have apart := (List.nodup_cons.mp (List.nodup_append.mp distinct).2.1).1
    have other : t'.id ≠ t.id := fun same => apart (same ▸ List.mem_map_of_mem mem)
    exact (wrote.task _).trans ((if_neg other).trans (tasks t' (List.mem_cons_of_mem _ mem)))
  | _ => exact trivial

/-- An entry that is replaced was there, unless it belongs to the thread's own submission. -/
def Placed (calls : List MasterCall) (s : ClusterState) (i : Nat) : Write → Prop
  | .nothing => True
  | .task t => InMap s t.id ∨
      ∃ c b, calls[i]? = some c ∧ submissionOf c = some b ∧ t.id ∈ b.ids
  | .stage st => (∃ b, Known calls b ∧ st.id = b.stageId ∧ ∃ id ∈ b.ids, InMap s id) ∨
      ∃ c b, calls[i]? = some c ∧ submissionOf c = some b ∧ st.id = b.stageId
  | .job j => (∃ now, s.job j.id = some now) ∨
      ∃ c b, calls[i]? = some c ∧ submissionOf c = some b ∧ j.id = b.jobId

theorem placed_stage {t : Task} {st : Stage} (good : GoodTask calls t) (present : InMap s t.id)
    (same : st.id = t.stageId) : Placed calls s i (.stage st) := by
  obtain ⟨b, known, own, _, stage⟩ := good.owner
  exact Or.inl ⟨b, known, same.trans stage, t.id, own, present⟩

theorem move_placed (here : calls[i]? = some c) (tracks : Tracks c g) (holds : Local calls s g)
    (move : Move g o found g' w) : Placed calls s i w := by
  cases move with
  | stageInsert b => exact Or.inr ⟨c, b, here, tracks, rfl⟩
  | taskInsert b t rest =>
    obtain ⟨_, done, split, _⟩ := holds
    refine Or.inr ⟨c, b, here, tracks, List.mem_map_of_mem ?_⟩
    rw [split]
    exact List.mem_append_right _ List.mem_cons_self
  | jobInsert b => exact Or.inr ⟨c, b, here, tracks, rfl⟩
  | jobStart b => exact Or.inr ⟨c, b, here, tracks, rfl⟩
  | assignTask t => exact Or.inl holds.present
  | report r t => exact Or.inl holds.2.2
  | assignWrite t st => exact placed_stage holds.1.good holds.1.present holds.2.2
  | slotWrite r t st =>
    exact placed_stage holds.1.good (inMap_of_reported holds.1.reported) holds.2.2
  | jobWrite r t tasks j =>
    obtain ⟨_, _, _, _, named, now, found⟩ := holds
    refine Or.inl ⟨now, ?_⟩
    rw [rolledUp_id, named]
    exact found
  | _ => exact trivial

section Apart
variable {s' : ClusterState} {j : Nat} {c' : MasterCall} {b : Submission}

theorem task_apart (fresh : FreshDraws calls) (other : i ≠ j) (there : calls[j]? = some c')
    (made : submissionOf c' = some b) (placed : Placed calls s i w) (wrote : Wrote w s s')
    {id : String} (own : id ∈ b.ids) (absent : s.task id = none) : s'.task id = none := by
  rw [wrote.task, absent]
  cases w with
  | task t =>
    refine if_neg ?_
    rintro rfl
    rcases placed with ⟨now, found⟩ | ⟨c, b', here, made', own'⟩
    · exact absurd found (by simp [absent])
    · exact other (known_task_unique fresh here there made' made own' own)
  | _ => rfl

theorem stage_apart (fresh : FreshDraws calls) (other : i ≠ j) (there : calls[j]? = some c')
    (made : submissionOf c' = some b) (placed : Placed calls s i w) (wrote : Wrote w s s')
    (absent : ∀ id ∈ b.ids, s.task id = none) : s'.stage b.stageId = s.stage b.stageId := by
  rw [wrote.stage]
  cases w with
  | stage st =>
    refine if_neg fun same => ?_
    rcases placed with ⟨b', known, named, id, own, now, found⟩ | ⟨c, b', here, made', named⟩
    · obtain rfl := known_of_stage fresh (known_of_call there made) known (same.trans named)
      exact absurd found (by simp [absent id own])
    · exact other (known_stage_unique fresh here there made' made (named.symm.trans same.symm))
  | _ => rfl

theorem job_apart (fresh : FreshDraws calls) (other : i ≠ j) (there : calls[j]? = some c')
    (made : submissionOf c' = some b) (placed : Placed calls s i w) (wrote : Wrote w s s')
    (absent : s.job b.jobId = none) : s'.job b.jobId = none := by
  rw [wrote.job, absent]
  cases w with
  | job new =>
    refine if_neg fun same => ?_
    rcases placed with ⟨now, found⟩ | ⟨c, b', here, made', named⟩
    · exact absurd found (by simp [← same, absent])
    · exact other (known_job_unique fresh here there made' made (named.symm.trans same.symm))
  | _ => rfl

theorem early_apart (fresh : FreshDraws calls) (other : i ≠ j) (there : calls[j]? = some c')
    {g₂ : Phase} (tracks : Tracks c' g₂) (holds : Local calls s g₂) (early : Early s g₂)
    (placed : Placed calls s i w) (wrote : Wrote w s s') : Early s' g₂ := by
  cases g₂ with
  | stageInsert b | stageRead b =>
    obtain ⟨stage, tasks, job⟩ := early
    exact ⟨(stage_apart fresh other there tracks placed wrote tasks).trans stage,
      fun id mem => task_apart fresh other there tracks placed wrote mem (tasks id mem),
      job_apart fresh other there tracks placed wrote job⟩
  | taskInsert b todo =>
    obtain ⟨tasks, job⟩ := early
    obtain ⟨_, done, split, _⟩ := holds
    refine ⟨fun t mem => ?_, job_apart fresh other there tracks placed wrote job⟩
    refine task_apart fresh other there tracks placed wrote (List.mem_map_of_mem ?_) (tasks t mem)
    rw [split]
    exact List.mem_append_right _ mem
  | _ => exact trivial

end Apart

end Moves

section Completion

def Done (b : Submission) (s : ClusterState) : Prop := ∀ id ∈ b.ids, Reported s id

def JobDone (b : Submission) (s : ClusterState) : Prop :=
  ∃ j, s.job b.jobId = some j ∧ j.status = .succeeded

def Carries (b : Submission) : Phase → Prop
  | .slotRead _ t | .slotWrite _ t _ | .tasksRead _ t => t.jobId = b.jobId
  | .jobRead _ t tasks | .jobWrite _ t tasks _ => t.jobId = b.jobId ∧ allSucceeded tasks = true
  | .crashed => True
  | _ => False

theorem report_completes {b : Submission} {s s' : ClusterState} {t : Task}
    (wrote : Wrote (.task t) s s') (done : Done b s') (before : ¬ Done b s) :
    t.status = .succeeded ∧ t.id ∈ b.ids := by
  simp only [Done, not_forall] at before
  obtain ⟨id, own, missing⟩ := before
  obtain ⟨t', found, success⟩ := done id own
  rw [wrote.task] at found
  simp only [Write.onTask] at found
  split at found
  · rename_i same
    obtain rfl := Option.some.inj found
    exact ⟨success, same ▸ own⟩
  · exact absurd ⟨t', found, success⟩ missing

theorem done_of_same {b : Submission} {s s' : ClusterState}
    (same : ∀ k, s'.task k = s.task k) (done : Done b s') : Done b s := by
  intro id own
  obtain ⟨t, found, success⟩ := done id own
  exact ⟨t, (same id).symm.trans found, success⟩

variable [SqlParser] [PlanDebug] {calls : List MasterCall} {s s' : ClusterState}
variable {g g' : Phase} {o : Op} {found : o.Resp} {w : Write}

theorem completion_carried (fresh : FreshDraws calls) {b : Submission} (known : Known calls b)
    (holds : Local calls s g) (early : Early s g) (move : Move g o found g' w)
    (wrote : Wrote w s s') (done : Done b s') (before : ¬ Done b s) : Carries b g' := by
  have unchanged (same : ∀ k, s'.task k = s.task k) : Carries b g' :=
    absurd (done_of_same same done) before
  cases move with
  | taskInsert b' t rest =>
    obtain ⟨success, _⟩ := report_completes wrote done before
    obtain ⟨_, inserted, split, _⟩ := holds
    have mem : t ∈ b'.tasks := split ▸ List.mem_append_right _ List.mem_cons_self
    exact absurd success (by simp [(new_task mem).1])
  | assignTask t =>
    obtain ⟨success, _⟩ := report_completes wrote done before
    exact absurd success holds.unfinished
  | report r t =>
    obtain ⟨_, own⟩ := report_completes wrote done before
    obtain ⟨b', known', own', job, _⟩ := holds.1.owner
    obtain rfl := known_of_task fresh known known' own own'
    exact job
  | _ => exact unchanged wrote.task

theorem allSucceeded_of_done (fresh : FreshDraws calls) (world : World calls s)
    {b : Submission} (known : Known calls b) (done : Done b s) {t : Task}
    (good : GoodTask calls t) (present : InMap s t.id) (same : t.jobId = b.jobId) :
    allSucceeded (s.tasksForJob t.jobId) = true := by
  have keyed : TasksKeyed s := fun k x found => (world.tasks k x found).1
  simp only [allSucceeded, Bool.and_eq_true, List.all_eq_true, Bool.not_eq_true',
    List.isEmpty_eq_false_iff]
  refine ⟨?_, fun x mem => ?_⟩
  · obtain ⟨now, found⟩ := present
    obtain ⟨named, fine, _⟩ := world.tasks _ _ found
    refine List.ne_nil_of_mem (a := now) ((mem_tasksForJob_iff keyed).mpr ⟨?_, ?_⟩)
    · rw [named]
      exact found
    · exact (good_same_stage fresh fine good named).2
  · obtain ⟨found, own⟩ := (mem_tasksForJob_iff keyed).mp mem
    obtain ⟨b', known', mem', job, _⟩ := (world.tasks _ _ found).2.1.owner
    obtain rfl := known_of_job fresh known known' (same.symm.trans (own.symm.trans job))
    obtain ⟨x', found', success⟩ := done _ mem'
    obtain rfl := Option.some.inj (found.symm.trans found')
    exact isSucceeded_iff.mpr success

/-- A thread that carries a job's success goes on carrying it, or records it. -/
theorem carried_on (fresh : FreshDraws calls) (world : World calls s) {b : Submission}
    (known : Known calls b) (done : Done b s) (holds : Local calls s g) (carries : Carries b g)
    (move : Move g o found g' w) (answer : (Op.exec o s).2 = found) (wrote : Wrote w s s') :
    Carries b g' ∨ JobDone b s' := by
  cases move with
  | slotFound | slotLost | slotWrite | jobFound => exact Or.inl carries
  | tasksRead r t tasks =>
    obtain rfl : s.tasksForJob t.jobId = tasks := answer
    have all := allSucceeded_of_done fresh world known done holds.1.good
      (inMap_of_reported holds.1.reported) carries
    exact Or.inl ⟨carries, all⟩
  | jobLost => exact Or.inl trivial
  | jobWrite r t tasks j =>
    obtain ⟨same, all⟩ := carries
    obtain ⟨_, _, _, _, named, _⟩ := holds
    refine Or.inr ⟨_, (wrote.job _).trans (if_pos ?_), ?_⟩
    · rw [rolledUp_id, named, same]
    · rw [rolledUp_status, if_pos all]
  | _ => exact absurd carries (fun impossible => impossible)

end Completion

end RSparkMoveSafety
