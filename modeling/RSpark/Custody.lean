import Mathlib.Data.List.Flatten
import RSpark.Ownership

/- The queue, the maps and what the threads own of them: what one acquisition of a lock leaves
   as it was. -/
namespace RSparkCustody
open RSparkClusterState RSparkMaster RSparkMasterPhases RSparkSnapshot RSparkLocks
open RSparkOwnership Calls

section Custody

def pushedId : LockEvent → Option String
  | ⟨_, .pendingPush taskId, _⟩ => some taskId
  | _ => none

def poppedId : LockEvent → Option String
  | ⟨_, .pendingPop, found⟩ => found
  | _ => none

def pushedIds (h : List LockEvent) : List String := h.filterMap pushedId
def poppedIds (h : List LockEvent) : List String := h.filterMap poppedId

/-- A thread holds what it took from the queue, and nothing else. -/
def Takers (h : List LockEvent) (gs : List Seat) : Prop := ∀ i g taskId, gs[i]? = some g →
  (g.hand.held = some taskId ↔ ∃ e ∈ h, e.thread = i ∧ poppedId e = some taskId)

/-- What was drawn has been queued or will be, the threads hold what was taken from the queue,
    and every identifier is either queued or owned by one thread. -/
structure Custody (drawn : List String) (h : List LockEvent) (pending : List String)
    (gs : List Seat) : Prop where
  drawn : (pushedIds h ++ gs.flatMap fun g => g.hand.unqueued).Perm drawn
  queue : poppedIds h ++ pending = pushedIds h
  apart : (pending ++ gs.flatMap fun g => g.hand.owns).Nodup
  taken : (gs.flatMap fun g => g.hand.held.toList).Perm (poppedIds h)
  takers : Takers h gs

section Split
variable {α β : Type} {l : List α} {i : Nat} {a : α}

theorem flatMap_split (f : α → List β) (here : l[i]? = some a) :
    (l.flatMap f).Perm (f a ++ (l.eraseIdx i).flatMap f) :=
  (RSparkDispatch.perm_of_getElem here).flatMap_right f

theorem flatMap_set (f : α → List β) (here : l[i]? = some a) (b : α) :
    ((l.set i b).flatMap f).Perm (f b ++ (l.eraseIdx i).flatMap f) :=
  (RSparkDispatch.perm_set here b).flatMap_right f

theorem flatMap_set_same {f : α → List β} (here : l[i]? = some a) {b : α} (same : f b = f a) :
    ((l.set i b).flatMap f).Perm (l.flatMap f) := by
  refine (flatMap_set f here b).trans ?_
  rw [same]
  exact (flatMap_split f here).symm

theorem countP_set {p : α → Bool} (here : l[i]? = some a) (b : α) :
    (l.set i b).countP p + [a].countP p = l.countP p + [b].countP p := by
  rw [(RSparkDispatch.perm_set here b).countP_eq, (RSparkDispatch.perm_of_getElem here).countP_eq]
  simp only [List.countP_cons, List.countP_nil]
  omega

theorem owned_once {f : α → List β} (apart : (l.flatMap f).Nodup) {j : Nat} {b : α}
    (here : l[i]? = some a) (there : l[j]? = some b) (other : i ≠ j) {x : β} (mine : x ∈ f a) :
    x ∉ f b := by
  intro theirs
  have pairs := List.pairwise_iff_getElem.mp (List.nodup_flatMap.mp apart).2
  obtain ⟨boundI, rfl⟩ := List.getElem?_eq_some_iff.mp here
  obtain ⟨boundJ, rfl⟩ := List.getElem?_eq_some_iff.mp there
  rcases Nat.lt_or_gt_of_ne other with before | after
  · exact pairs i j boundI boundJ before mine theirs
  · exact pairs j i boundJ boundI after theirs mine

end Split

variable {drawn : List String} {h : List LockEvent} {pending : List String} {gs : List Seat}
  {i : Nat} {g : Seat}

theorem ids_append (h : List LockEvent) (e : LockEvent) :
    pushedIds (h ++ [e]) = pushedIds h ++ (pushedId e).toList ∧
      poppedIds (h ++ [e]) = poppedIds h ++ (poppedId e).toList := by
  constructor
  · cases found : pushedId e <;> simp [pushedIds, found]
  · cases found : poppedId e <;> simp [poppedIds, found]

theorem takers_same (takers : Takers h gs) (ghost : gs[i]? = some g) {g' : Seat}
    (held : g'.hand.held = g.hand.held) {e : LockEvent} (noPop : poppedId e = none) :
    Takers (h ++ [e]) (gs.set i g') := by
  have events (j : Nat) (taskId : String) :
      (∃ e' ∈ h ++ [e], e'.thread = j ∧ poppedId e' = some taskId) ↔
        ∃ e' ∈ h, e'.thread = j ∧ poppedId e' = some taskId := by
    constructor
    · rintro ⟨e', mem, thread, taken⟩
      rcases List.mem_append.mp mem with old | new
      · exact ⟨e', old, thread, taken⟩
      · obtain rfl := List.mem_singleton.mp new
        exact absurd (noPop.symm.trans taken) (by simp)
    · rintro ⟨e', mem, rest⟩
      exact ⟨e', List.mem_append_left _ mem, rest⟩
  intro j g'' taskId there
  rw [events]
  by_cases same : i = j
  · subst same
    obtain ⟨bound, _⟩ := List.getElem?_eq_some_iff.mp ghost
    obtain rfl := Option.some.inj ((List.getElem?_set_self bound).symm.trans there)
    rw [held]
    exact takers i g taskId ghost
  · exact takers j g'' taskId ((List.getElem?_set_ne same).symm.trans there)

theorem takers_pop (takers : Takers h gs) (ghost : gs[i]? = some g) (free : g.hand = .free)
    (taskId : String) :
    Takers (h ++ [⟨i, .pendingPop, some taskId⟩]) (gs.set i { g with hand := .popped taskId }) := by
  intro j g' id there
  by_cases same : i = j
  · subst same
    obtain ⟨bound, _⟩ := List.getElem?_eq_some_iff.mp ghost
    obtain rfl := Option.some.inj ((List.getElem?_set_self bound).symm.trans there)
    constructor
    · intro held
      exact ⟨_, List.mem_append_right _ List.mem_cons_self, rfl, held⟩
    · rintro ⟨e, mem, thread, taken⟩
      rcases List.mem_append.mp mem with old | new
      · have before := (takers i g id ghost).mpr ⟨e, old, thread, taken⟩
        exact absurd before (by simp [free, Hand.held])
      · obtain rfl := List.mem_singleton.mp new
        exact taken
  · rw [takers j g' id ((List.getElem?_set_ne same).symm.trans there)]
    constructor
    · rintro ⟨e, mem, rest⟩
      exact ⟨e, List.mem_append_left _ mem, rest⟩
    · rintro ⟨e, mem, thread, taken⟩
      rcases List.mem_append.mp mem with old | new
      · exact ⟨e, old, thread, taken⟩
      · obtain rfl := List.mem_singleton.mp new
        exact absurd thread same

theorem owns_eq (hand : Hand) : hand.owns = hand.unqueued ++ hand.held.toList := by
  cases hand <;> simp [Hand.owns, Hand.unqueued, Hand.held]

theorem unqueued_same {hand hand' : Hand} (owns : hand'.owns = hand.owns)
    (held : hand'.held = hand.held) : hand'.unqueued = hand.unqueued := by
  rw [owns_eq, owns_eq, held] at owns
  exact List.append_cancel_right owns

theorem custody_same (custody : Custody drawn h pending gs) (ghost : gs[i]? = some g) (g' : Seat)
    (owns : g'.hand.owns = g.hand.owns) (held : g'.hand.held = g.hand.held) {e : LockEvent}
    (noPush : pushedId e = none) (noPop : poppedId e = none) :
    Custody drawn (h ++ [e]) pending (gs.set i g') := by
  obtain ⟨pushed, popped⟩ := ids_append h e
  simp only [noPush, noPop, Option.toList_none, List.append_nil] at pushed popped
  refine ⟨?_, by rw [pushed, popped]; exact custody.queue, ?_, ?_, ?_⟩
  · rw [pushed]
    refine (List.Perm.append_left _ ?_).trans custody.drawn
    exact flatMap_set_same ghost (unqueued_same owns held)
  · have same := flatMap_set_same (f := fun g : Seat => g.hand.owns) ghost owns
    exact (same.append_left pending).nodup_iff.mpr custody.apart
  · rw [popped]
    exact (flatMap_set_same ghost (congrArg Option.toList held)).trans custody.taken
  · exact takers_same custody.takers ghost held noPop

theorem custody_push (custody : Custody drawn h pending gs) (ghost : gs[i]? = some g)
    {b : Submission} {task : Task} {todo : List Task} (hand : g.hand = .queuing b task todo) :
    Custody drawn (h ++ [⟨i, .pendingPush task.id, ()⟩]) (pending ++ [task.id])
      (gs.set i { g with hand := .filling b todo }) := by
  obtain ⟨pushed, popped⟩ := ids_append h ⟨i, .pendingPush task.id, ()⟩
  simp only [pushedId, poppedId, Option.toList_none, List.append_nil] at pushed popped
  have held : (Hand.filling b todo).held = g.hand.held := by rw [hand]; rfl
  refine ⟨?_, ?_, ?_, ?_, takers_same custody.takers ghost held rfl⟩
  · have before := flatMap_split (fun g : Seat => g.hand.unqueued) ghost
    have after := flatMap_set (fun g : Seat => g.hand.unqueued) ghost
      { g with hand := .filling b todo }
    simp only [hand, Hand.unqueued] at before after
    rw [pushed, List.append_assoc]
    exact ((after.cons task.id).trans before.symm |>.append_left _).trans custody.drawn
  · rw [pushed, popped, ← List.append_assoc, custody.queue]
    rfl
  · have before := flatMap_split (fun g : Seat => g.hand.owns) ghost
    have after := flatMap_set (fun g : Seat => g.hand.owns) ghost { g with hand := .filling b todo }
    simp only [hand, Hand.owns] at before after
    refine List.Perm.nodup ?_ custody.apart
    rw [List.append_assoc]
    exact (before.trans (after.symm.cons task.id)).append_left pending
  · rw [popped]
    exact (flatMap_set_same ghost (congrArg Option.toList held)).trans custody.taken

theorem custody_pop {taskId : String} (custody : Custody drawn h (taskId :: pending) gs)
    (ghost : gs[i]? = some g) (free : g.hand = .free) :
    Custody drawn (h ++ [⟨i, .pendingPop, some taskId⟩]) pending
      (gs.set i { g with hand := .popped taskId }) := by
  obtain ⟨pushed, popped⟩ := ids_append h ⟨i, .pendingPop, some taskId⟩
  simp only [pushedId, poppedId, Option.toList_none, Option.toList_some, List.append_nil]
    at pushed popped
  refine ⟨?_, ?_, ?_, ?_, takers_pop custody.takers ghost free taskId⟩
  · rw [pushed]
    refine (List.Perm.append_left _ ?_).trans custody.drawn
    exact flatMap_set_same ghost (by simp [free, Hand.unqueued])
  · rw [pushed, popped, List.append_assoc]
    exact custody.queue
  · have before := flatMap_split (fun g : Seat => g.hand.owns) ghost
    have after := flatMap_set (fun g : Seat => g.hand.owns) ghost
      { g with hand := .popped taskId }
    simp only [free, Hand.owns, List.nil_append] at before after
    refine List.Perm.nodup ?_ custody.apart
    exact List.perm_middle.symm.trans ((before.cons taskId).trans after.symm |>.append_left pending)
  · have before := flatMap_split (fun g : Seat => g.hand.held.toList) ghost
    have after := flatMap_set (fun g : Seat => g.hand.held.toList) ghost
      { g with hand := .popped taskId }
    simp only [free, Hand.held, Option.toList_none, List.nil_append] at before after
    rw [popped]
    refine after.trans ?_
    refine ((before.symm.trans custody.taken).cons taskId).trans ?_
    exact (List.perm_append_singleton taskId _).symm

theorem Custody.not_queued (custody : Custody drawn h pending gs) (ghost : gs[i]? = some g)
    {taskId : String} (mine : taskId ∈ g.hand.owns) : taskId ∉ pending := fun queued =>
  (List.nodup_append.mp custody.apart).2.2 taskId queued taskId
    (List.mem_flatMap.mpr ⟨g, List.mem_of_getElem? ghost, mine⟩) rfl

theorem Custody.not_shared (custody : Custody drawn h pending gs) (ghost : gs[i]? = some g)
    {j : Nat} {g' : Seat} (there : gs[j]? = some g') (other : i ≠ j) {taskId : String}
    (mine : taskId ∈ g.hand.owns) : taskId ∉ g'.hand.owns :=
  owned_once (f := fun g : Seat => g.hand.owns) (List.nodup_append.mp custody.apart).2.1 ghost there
    other mine

theorem held_owned (hand : Hand) : hand.held.toList.Sublist hand.owns := by
  rw [owns_eq]
  exact List.sublist_append_right _ _

theorem Custody.pushed_nodup (custody : Custody drawn h pending gs) : (pushedIds h).Nodup := by
  obtain ⟨queued, owned, apart⟩ := List.nodup_append.mp custody.apart
  have inside : (gs.flatMap fun g => g.hand.held.toList).Sublist
      (gs.flatMap fun g => g.hand.owns) :=
    List.Sublist.flatMap_right gs fun g _ => held_owned g.hand
  rw [← custody.queue]
  refine List.nodup_append.mpr ⟨custody.taken.nodup_iff.mp (inside.nodup owned), queued, ?_⟩
  intro a taken b waiting same
  exact apart b waiting a (inside.subset (custody.taken.symm.subset taken)) same.symm

end Custody

section Contents
variable {subs : List Submission}

def Complete (s : ClusterState) (b : Submission) : Prop :=
  (s.stage b.stageId).isSome ∧ ∀ t ∈ b.tasks, (s.task t.id).isSome

def Closed (subs : List Submission) (s : ClusterState) (job : Job) : Prop :=
  ∀ stageId ∈ job.stages, ∃ b ∈ subs, b.stageId = stageId ∧ b.jobId = job.id ∧ Complete s b

def Filled (s : ClusterState) (b : Submission) (todo : List Task) : Prop :=
  (s.stage b.stageId).isSome ∧ ∃ done, b.tasks = done ++ todo ∧ ∀ t ∈ done, (s.task t.id).isSome

def HandFits (subs : List Submission) (s : ClusterState) : Hand → Prop
  | .draft b => b ∈ subs ∧ ∀ id ∈ b.ids, s.task id = none
  | .staged b => b ∈ subs ∧ (∀ id ∈ b.ids, s.task id = none) ∧ s.stage b.stageId = some b.stage
  | .filling b todo => b ∈ subs ∧ Filled s b todo ∧ ∀ t ∈ todo, s.task t.id = none
  | .queuing b task todo => b ∈ subs ∧ Filled s b (task :: todo) ∧
      s.task task.id = some task ∧ ∀ t ∈ todo, s.task t.id = none
  | .free => True
  | .popped taskId => ∃ t, s.task taskId = some t ∧ t.status = .pending
  | .holding task => s.task task.id = some task
  | .owing task => s.task task.id = some task ∧ task.status.isSucceeded = true

structure Fits (subs : List Submission) (s : ClusterState) (g : Seat) : Prop where
  hand : HandFits subs s g.hand
  jobs : ∀ job ∈ g.jobs, Closed subs s job

/-- Entries stand under their own identifiers and come from the submissions; what is queued is
    untouched; the counter lacks the successes that threads are about to count. -/
structure Contents (subs : List Submission) (s : ClusterState) (gs : List Seat) : Prop where
  waiting : ∀ id ∈ s.pending, ∃ t, s.task id = some t ∧ t.status = .pending
  tasks : ∀ k t, s.task k = some t → t.id = k ∧ Submitted subs t
  stages : ∀ k st, s.stage k = some st → st.id = k ∧ StageOf subs st
  jobs : ∀ k job, s.job k = some job → job.id = k ∧ Closed subs s job
  seats : ∀ (i : Nat) g, gs[i]? = some g → Fits subs s g
  runs : s.totalRuns + gs.countP (·.hand.owes) = s.tasks.values.countP (·.status.isSucceeded)

/-- No stage and no task has gone. -/
structure Grows (s s' : ClusterState) : Prop where
  stages : ∀ k, (s.stage k).isSome → (s'.stage k).isSome
  tasks : ∀ k, (s.task k).isSome → (s'.task k).isSome

structure Frame (s s' : ClusterState) (g : Seat) : Prop where
  grows : Grows s s'
  owned : ∀ id ∈ g.hand.owns, s'.task id = s.task id
  staged : ∀ b, g.hand = .staged b → s'.stage b.stageId = s.stage b.stageId

variable {s s' : ClusterState}

theorem Grows.refl (s : ClusterState) : Grows s s := ⟨fun _ => id, fun _ => id⟩

theorem Complete.grows {b : Submission} (complete : Complete s b) (grows : Grows s s') :
    Complete s' b :=
  ⟨grows.stages _ complete.1, fun t mem => grows.tasks _ (complete.2 t mem)⟩

theorem Closed.grows {job : Job} (closed : Closed subs s job) (grows : Grows s s') :
    Closed subs s' job := by
  intro stageId inside
  obtain ⟨b, known, named, ofJob, complete⟩ := closed stageId inside
  exact ⟨b, known, named, ofJob, complete.grows grows⟩

theorem Closed.same {job job' : Job} (closed : Closed subs s job) (id : job.id = job'.id)
    (stages : job.stages = job'.stages) : Closed subs s job' := by
  intro stageId inside
  obtain ⟨b, known, named, ofJob, complete⟩ := closed stageId (stages ▸ inside)
  exact ⟨b, known, named, ofJob.trans id, complete⟩

theorem Filled.grows {b : Submission} {todo : List Task} (filled : Filled s b todo)
    (grows : Grows s s') : Filled s' b todo := by
  obtain ⟨stage, done, split, stored⟩ := filled
  exact ⟨grows.stages _ stage, done, split, fun t mem => grows.tasks _ (stored t mem)⟩

theorem Filled.complete {b : Submission} (filled : Filled s b []) : Complete s b := by
  obtain ⟨stage, done, split, stored⟩ := filled
  refine ⟨stage, fun t mem => stored t ?_⟩
  rwa [split, List.append_nil] at mem

/-- What a thread owns is all it relies on. -/
theorem Fits.frame {g : Seat} (fits : Fits subs s g) (frame : Frame s s' g) : Fits subs s' g := by
  obtain ⟨hand, jobs⟩ := fits
  refine ⟨?_, fun job known => (jobs job known).grows frame.grows⟩
  obtain ⟨grows, owned, staged⟩ := frame
  obtain ⟨hand', seen⟩ := g
  simp only at hand owned staged ⊢
  have untouched {ts : List Task} (inside : ∀ t ∈ ts, t.id ∈ hand'.owns)
      (absent : ∀ t ∈ ts, s.task t.id = none) : ∀ t ∈ ts, s'.task t.id = none :=
    fun t mem => (owned t.id (inside t mem)).trans (absent t mem)
  cases hand' with
  | draft b => exact ⟨hand.1, fun id mem => (owned id mem).trans (hand.2 id mem)⟩
  | staged b =>
    obtain ⟨known, absent, stage⟩ := hand
    exact ⟨known, fun id mem => (owned id mem).trans (absent id mem), (staged b rfl).trans stage⟩
  | filling b todo =>
    obtain ⟨known, filled, absent⟩ := hand
    exact ⟨known, filled.grows grows, untouched (fun t mem => List.mem_map_of_mem mem) absent⟩
  | queuing b task todo =>
    obtain ⟨known, filled, stored, absent⟩ := hand
    refine ⟨known, filled.grows grows, (owned _ List.mem_cons_self).trans stored, ?_⟩
    exact untouched (fun t mem => List.mem_cons_of_mem _ (List.mem_map_of_mem mem)) absent
  | free => exact trivial
  | popped taskId =>
    obtain ⟨t, stored, waiting⟩ := hand
    exact ⟨t, (owned _ List.mem_cons_self).trans stored, waiting⟩
  | holding task => exact (owned _ List.mem_cons_self).trans hand
  | owing task => exact ⟨(owned _ List.mem_cons_self).trans hand.1, hand.2⟩

variable {drawn : List String} {h : List LockEvent} {gs : List Seat} {i : Nat} {g : Seat}

theorem seats_set (contents : Contents subs s gs) {g' : Seat} (mine : Fits subs s' g')
    (others : ∀ (j : Nat) g, i ≠ j → gs[j]? = some g → Frame s s' g) :
    ∀ (j : Nat) g, (gs.set i g')[j]? = some g → Fits subs s' g :=
  forall_set (fun j b other there => (contents.seats j b there).frame (others j b other there)) mine

theorem get_task (s : ClusterState) (t : Task) (k : String) :
    ({ s with tasks := s.tasks.insert t.id t } : ClusterState).task k =
      if k = t.id then some t else s.task k :=
  InsertionMap.get_insert _ _ _ _

theorem get_stage (s : ClusterState) (st : Stage) (k : String) :
    ({ s with stages := s.stages.insert st.id st } : ClusterState).stage k =
      if k = st.id then some st else s.stage k :=
  InsertionMap.get_insert _ _ _ _

theorem grows_task (s : ClusterState) (t : Task) :
    Grows s { s with tasks := s.tasks.insert t.id t } := by
  refine ⟨fun _ => id, fun k stored => ?_⟩
  rw [get_task]
  split
  · exact rfl
  · exact stored

theorem grows_stage (s : ClusterState) (st : Stage) :
    Grows s { s with stages := s.stages.insert st.id st } := by
  refine ⟨fun k stored => ?_, fun _ => id⟩
  rw [get_stage]
  split
  · exact rfl
  · exact stored

theorem contents_task (custody : Custody drawn h s.pending gs) (contents : Contents subs s gs)
    (ghost : gs[i]? = some g) {t : Task} (mine : t.id ∈ g.hand.owns)
    (submitted : Submitted subs t) {g' : Seat}
    (fits : Fits subs { s with tasks := s.tasks.insert t.id t } g')
    (runs : [g'].countP (·.hand.owes) + (s.task t.id).toList.countP (·.status.isSucceeded) =
      [g].countP (·.hand.owes) + [t].countP (·.status.isSucceeded)) :
    Contents subs { s with tasks := s.tasks.insert t.id t } (gs.set i g') := by
  refine ⟨?_, ?_, contents.stages, ?_, ?_, ?_⟩
  · intro id queued
    rw [get_task, if_neg fun here : id = t.id => custody.not_queued ghost mine (here ▸ queued)]
    exact contents.waiting id queued
  · intro k u found
    rw [get_task] at found
    split at found
    · rename_i here
      obtain rfl := Option.some.inj found
      exact ⟨here.symm, submitted⟩
    · exact contents.tasks k u found
  · intro k job found
    obtain ⟨named, closed⟩ := contents.jobs k job found
    exact ⟨named, closed.grows (grows_task s t)⟩
  · refine seats_set contents fits fun j g'' other there => ⟨grows_task s t, ?_, fun _ _ => rfl⟩
    intro id theirs
    rw [get_task, if_neg]
    rintro rfl
    exact custody.not_shared ghost there other mine theirs
  · have counted := InsertionMap.countP_insert s.tasks (·.status.isSucceeded) t.id t
    have owed := countP_set (p := fun g : Seat => g.hand.owes) ghost g'
    have before := contents.runs
    simp only [ClusterState.task] at runs
    show s.totalRuns + _ = (s.tasks.insert t.id t).values.countP _
    omega

/-- The stages are written by submissions that own all their tasks, or by the turn that owns one
    of the stage's tasks. -/
theorem contents_stage (roster : Roster subs) (custody : Custody drawn h s.pending gs)
    (contents : Contents subs s gs) (ghost : gs[i]? = some g) {st : Stage}
    (own : StageOf subs st) {b : Submission} (known : b ∈ subs) (named : st.id = b.stageId)
    {taskId : String} (inside : taskId ∈ b.ids) (mine : taskId ∈ g.hand.owns) {g' : Seat}
    (fits : Fits subs { s with stages := s.stages.insert st.id st } g')
    (owes : g'.hand.owes = g.hand.owes) :
    Contents subs { s with stages := s.stages.insert st.id st } (gs.set i g') := by
  refine ⟨contents.waiting, contents.tasks, ?_, ?_, ?_, ?_⟩
  · intro k st' found
    rw [get_stage] at found
    split at found
    · rename_i here
      obtain rfl := Option.some.inj found
      exact ⟨here.symm, own⟩
    · exact contents.stages k st' found
  · intro k job found
    obtain ⟨ofJob, closed⟩ := contents.jobs k job found
    exact ⟨ofJob, closed.grows (grows_stage s st)⟩
  · refine seats_set contents fits fun j g'' other there => ?_
    refine ⟨grows_stage s st, fun _ _ => rfl, fun b' staged => ?_⟩
    rw [get_stage, if_neg]
    intro same
    -- the other thread would own the same submission
    have hand := (contents.seats j g'' there).hand
    rw [staged] at hand
    obtain rfl := roster.by_stage hand.1 known (same.trans named)
    refine custody.not_shared ghost there other mine ?_
    rw [staged]
    exact inside
  · have owed := countP_set (p := fun g : Seat => g.hand.owes) ghost g'
    have before := contents.runs
    simp only [List.countP_cons, List.countP_nil, owes] at owed
    show s.totalRuns + _ = s.tasks.values.countP _
    omega

theorem contents_quiet (contents : Contents subs s gs) (ghost : gs[i]? = some g) {g' : Seat}
    (stages : s'.stages = s.stages) (tasks : s'.tasks = s.tasks)
    (waiting : ∀ id ∈ s'.pending, ∃ t, s.task id = some t ∧ t.status = .pending)
    (jobs : ∀ k job, s'.job k = some job → job.id = k ∧ Closed subs s job)
    (fits : Fits subs s g')
    (runs : s'.totalRuns + [g'].countP (·.hand.owes) = s.totalRuns + [g].countP (·.hand.owes)) :
    Contents subs s' (gs.set i g') := by
  have sameTask : s'.task = s.task := funext fun k => congrArg (·.get k) tasks
  have sameStage : s'.stage = s.stage := funext fun k => congrArg (·.get k) stages
  have grows : Grows s s' := ⟨fun k => by rw [sameStage]; exact id, fun k => by
    rw [sameTask]; exact id⟩
  have frame (g : Seat) : Frame s s' g :=
    ⟨grows, fun id _ => congrFun sameTask id, fun b _ => congrFun sameStage b.stageId⟩
  refine ⟨?_, ?_, ?_, ?_, ?_, ?_⟩
  · rw [sameTask]
    exact waiting
  · rw [sameTask]
    exact contents.tasks
  · rw [sameStage]
    exact contents.stages
  · intro k job found
    obtain ⟨named, closed⟩ := jobs k job found
    exact ⟨named, closed.grows grows⟩
  · exact seats_set contents (fits.frame (frame g')) fun j g _ _ => frame g
  · have owed := countP_set (p := fun g : Seat => g.hand.owes) ghost g'
    have before := contents.runs
    rw [tasks]
    omega

end Contents

section Steps
variable {subs : List Submission} {h : List LockEvent} {s : ClusterState} {gs : List Seat}
  {i : Nat} {g : Seat}

structure Live (subs : List Submission) (h : List LockEvent) (s : ClusterState) (gs : List Seat) :
    Prop where
  custody : Custody (subs.flatMap Submission.ids) h s.pending gs
  contents : Contents subs s gs

theorem Live.fits (live : Live subs h s gs) (ghost : gs[i]? = some g) : Fits subs s g :=
  live.contents.seats i g ghost

theorem inserted_task (live : Live subs h s gs) (ghost : gs[i]? = some g) {t : Task}
    (allowed : Allowed subs g (.tasksInsert t)) :
    Live subs (h ++ [⟨i, .tasksInsert t, ()⟩]) { s with tasks := s.tasks.insert t.id t }
      (gs.set i (g.next (.tasksInsert t) ())) := by
  obtain ⟨hand, seen⟩ := g
  have fits := live.fits ghost
  have stored : ({ s with tasks := s.tasks.insert t.id t } : ClusterState).task t.id = some t := by
    rw [get_task, if_pos rfl]
  have jobs := fun job known => (fits.jobs job known).grows (grows_task s t)
  cases hand with
  | filling b todo =>
    cases todo with
    | nil => exact absurd allowed (by simp [Allowed])
    | cons first todo =>
      obtain rfl : t = first := allowed
      obtain ⟨known, filled, absent⟩ := fits.hand
      obtain ⟨stage, done, split, before⟩ := filled
      have member : t ∈ b.tasks := by rw [split]; simp
      have mine : t.id ∈ (Hand.filling b (t :: todo)).owns := List.mem_cons_self
      refine ⟨custody_same live.custody ghost ⟨.queuing b t todo, seen⟩ rfl rfl rfl rfl, ?_⟩
      refine contents_task live.custody live.contents ghost mine
        ⟨b, known, t, member, SameTask.refl t⟩ ⟨⟨known, ?_, stored, ?_⟩, jobs⟩ ?_
      · exact Filled.grows ⟨stage, done, split, before⟩ (grows_task s t)
      · intro t' later
        have own : (t.id :: todo.map Task.id).Nodup :=
          (List.nodup_flatMap.mp (List.nodup_append.mp live.custody.apart).2.1).1 _
            (List.mem_of_getElem? ghost)
        rw [get_task, if_neg]
        · exact absent t' (List.mem_cons_of_mem _ later)
        · intro same
          exact (List.nodup_cons.mp own).1 (same ▸ List.mem_map_of_mem later)
      · have waiting := (RSparkWriteBacks.new_task member).1
        simp [absent t List.mem_cons_self, waiting, TaskStatus.isSucceeded, Seat.next, Hand.owes]
  | holding old =>
    have advance : Advance old t := allowed
    have held : s.task old.id = some old := fits.hand
    have named : t.id = old.id := advance.same.id
    have open' : old.status.isSucceeded = false := by
      have further := advance.further
      have most := rank_le t.status
      cases status : old.status <;> simp_all [TaskStatus.isSucceeded, rank]
      omega
    have submitted := (live.contents.tasks old.id old held).2.same advance.same
    have hands : (recorded t).owns = [t.id] ∧ (recorded t).held = some t.id ∧
        (recorded t).owes = t.status.isSucceeded := by
      cases won : t.status.isSucceeded <;> simp [recorded, won, Hand.owns, Hand.held, Hand.owes]
    refine ⟨custody_same live.custody ghost ⟨recorded t, seen⟩ ?_ ?_ rfl rfl, ?_⟩
    · exact hands.1.trans (by rw [named]; rfl)
    · exact hands.2.1.trans (by rw [named]; rfl)
    · refine contents_task live.custody live.contents ghost (by simp [Hand.owns, named]) submitted
        ⟨?_, jobs⟩ ?_
      · show HandFits subs _ (recorded t)
        cases won : t.status.isSucceeded with
        | true => simp only [recorded, won, if_true]; exact ⟨stored, won⟩
        | false => simp only [recorded, won, Bool.false_eq_true, if_false]; exact stored
      · rw [named, held]
        cases won : t.status.isSucceeded <;>
          simp [Seat.next, recorded, won, open', Hand.owes]
  | _ => exact absurd allowed (by simp [Allowed])

theorem drafted_id (roster : Roster subs) {b : Submission} (known : b ∈ subs) :
    ∃ id, id ∈ b.ids :=
  List.exists_mem_of_ne_nil _ (roster.tasks b known)

theorem inserted_stage (roster : Roster subs) (live : Live subs h s gs) (ghost : gs[i]? = some g)
    {st : Stage} (allowed : Allowed subs g (.stagesInsert st)) :
    Live subs (h ++ [⟨i, .stagesInsert st, ()⟩]) { s with stages := s.stages.insert st.id st }
      (gs.set i (g.next (.stagesInsert st) ())) := by
  obtain ⟨hand, seen⟩ := g
  have fits := live.fits ghost
  have jobs := fun job known => (fits.jobs job known).grows (grows_stage s st)
  cases hand with
  | draft b =>
    obtain rfl : st = b.stage := allowed
    obtain ⟨known, absent⟩ := fits.hand
    obtain ⟨id, inside⟩ := drafted_id roster known
    refine ⟨custody_same live.custody ghost ⟨.staged b, seen⟩ rfl rfl rfl rfl, ?_⟩
    refine contents_stage roster live.custody live.contents ghost (stage_ids b known) known rfl
      inside inside ⟨⟨known, absent, ?_⟩, jobs⟩ rfl
    exact (get_stage s b.stage b.stageId).trans (if_pos rfl)
  | holding task =>
    obtain ⟨named, own⟩ : st.id = task.stageId ∧ StageOf subs st := allowed
    obtain ⟨b, known, t₀, member, same⟩ := (live.contents.tasks task.id task fits.hand).2
    have inside : task.id ∈ b.ids := same.id ▸ List.mem_map_of_mem member
    have ofStage : st.id = b.stageId :=
      named.trans (same.stageId.trans (RSparkWriteBacks.new_task member).2.2)
    refine ⟨custody_same live.custody ghost ⟨.holding task, seen⟩ rfl rfl rfl rfl, ?_⟩
    exact contents_stage roster live.custody live.contents ghost own known ofStage inside
      List.mem_cons_self ⟨fits.hand, jobs⟩ rfl
  | _ => exact absurd allowed (by simp [Allowed])

theorem inserted_job (live : Live subs h s gs) (ghost : gs[i]? = some g) {job : Job}
    (allowed : Allowed subs g (.jobsInsert job)) :
    Live subs (h ++ [⟨i, .jobsInsert job, ()⟩]) { s with jobs := s.jobs.insert job.id job }
      (gs.set i (g.next (.jobsInsert job) ())) := by
  have fits := live.fits ghost
  have closed : Closed subs s job := by
    rcases allowed with none | ⟨known, seen, id, stages⟩ | ⟨b, hand, id, stages⟩
    · intro stageId inside
      rw [none] at inside
      exact absurd inside List.not_mem_nil
    · exact (fits.jobs known seen).same id stages
    · have filled := fits.hand
      rw [hand] at filled
      intro stageId inside
      rw [stages, List.mem_singleton] at inside
      exact ⟨b, filled.1, inside.symm, id.symm, filled.2.1.complete⟩
  refine ⟨custody_same live.custody ghost ⟨g.hand, job :: g.jobs⟩ rfl rfl rfl rfl, ?_⟩
  refine contents_quiet live.contents ghost rfl rfl live.contents.waiting ?_ ⟨fits.hand, ?_⟩ rfl
  · intro k found stored
    rw [ClusterState.job, InsertionMap.get_insert] at stored
    split at stored
    · rename_i here
      obtain rfl := Option.some.inj stored
      exact ⟨here.symm, closed⟩
    · exact live.contents.jobs k found stored
  · intro known mem
    rcases List.mem_cons.mp mem with rfl | before
    · exact closed
    · exact fits.jobs known before

theorem pushed_task (live : Live subs h s gs) (ghost : gs[i]? = some g) {taskId : String}
    (allowed : Allowed subs g (.pendingPush taskId)) :
    Live subs (h ++ [⟨i, .pendingPush taskId, ()⟩]) { s with pending := s.pending ++ [taskId] }
      (gs.set i (g.next (.pendingPush taskId) ())) := by
  obtain ⟨hand, seen⟩ := g
  have fits := live.fits ghost
  cases hand with
  | queuing b task todo =>
    obtain rfl : taskId = task.id := allowed
    obtain ⟨known, ⟨stage, done, split, before⟩, stored, absent⟩ := fits.hand
    have member : task ∈ b.tasks := by rw [split]; simp
    refine ⟨custody_push live.custody ghost rfl, ?_⟩
    refine contents_quiet live.contents ghost rfl rfl ?_ live.contents.jobs
      ⟨⟨known, ⟨stage, done ++ [task], ?_, ?_⟩, absent⟩, fits.jobs⟩ rfl
    · intro id queued
      rcases List.mem_append.mp queued with old | new
      · exact live.contents.waiting id old
      · obtain rfl := List.mem_singleton.mp new
        exact ⟨task, stored, (RSparkWriteBacks.new_task member).1⟩
    · rw [split, List.append_assoc]
      rfl
    · intro t mem
      rcases List.mem_append.mp mem with old | new
      · exact before t old
      · obtain rfl := List.mem_singleton.mp new
        rw [stored]
        rfl
  | _ => exact absurd allowed (by simp [Allowed])

theorem popped_task (live : Live subs h s gs) (ghost : gs[i]? = some g)
    (allowed : Allowed subs g .pendingPop) :
    Live subs (h ++ [⟨i, .pendingPop, s.pending.head?⟩]) { s with pending := s.pending.tail }
      (gs.set i (g.next .pendingPop s.pending.head?)) := by
  have fits := live.fits ghost
  have custody := live.custody
  have waiting := live.contents.waiting
  cases queue : s.pending with
  | nil =>
    rw [queue] at custody
    refine ⟨custody_same custody ghost g rfl rfl rfl rfl, ?_⟩
    exact contents_quiet live.contents ghost rfl rfl (fun _ mem => absurd mem List.not_mem_nil)
      live.contents.jobs fits rfl
  | cons taskId rest =>
    rw [queue] at custody waiting
    refine ⟨custody_pop custody ghost allowed, ?_⟩
    have free : g.hand = .free := allowed
    refine contents_quiet live.contents ghost rfl rfl
      (fun id later => waiting id (List.mem_cons_of_mem _ later)) live.contents.jobs
      ⟨waiting taskId List.mem_cons_self, fits.jobs⟩ ?_
    simp [Seat.next, free, Hand.owes]

/-- The identifier has left the queue before. -/
theorem retained_tasks (live : Live subs h s gs) (ghost : gs[i]? = some g) {taskId : String}
    (allowed : Allowed subs g (.pendingRetain taskId)) :
    s.pending.filter (· ≠ taskId) = s.pending := by
  obtain ⟨hand, seen⟩ := g
  have mine : taskId ∈ hand.owns := by
    cases hand with
    | holding task => exact List.mem_singleton.mpr allowed
    | owing task => exact List.mem_singleton.mpr allowed
    | _ => exact absurd allowed (by simp [Allowed])
  refine List.filter_eq_self.mpr fun id queued => ?_
  simp only [ne_eq, decide_not, Bool.not_eq_true', decide_eq_false_iff_not]
  rintro rfl
  exact live.custody.not_queued ghost mine queued

theorem counted_run (live : Live subs h s gs) (ghost : gs[i]? = some g)
    (allowed : Allowed subs g .runsIncrease) :
    Live subs (h ++ [⟨i, .runsIncrease, ()⟩]) { s with totalRuns := s.totalRuns + 1 }
      (gs.set i (g.next .runsIncrease ())) := by
  obtain ⟨hand, seen⟩ := g
  have fits := live.fits ghost
  cases hand with
  | owing task =>
    refine ⟨custody_same live.custody ghost ⟨.holding task, seen⟩ rfl rfl rfl rfl, ?_⟩
    exact contents_quiet live.contents ghost rfl rfl live.contents.waiting live.contents.jobs
      ⟨fits.hand.1, fits.jobs⟩ rfl
  | _ => exact absurd allowed (by simp [Allowed, Hand.owes])

theorem beside (live : Live subs h s gs) (ghost : gs[i]? = some g) (g' : Seat)
    (owns : g'.hand.owns = g.hand.owns) (held : g'.hand.held = g.hand.held)
    (owes : g'.hand.owes = g.hand.owes) (fits : Fits subs s g') {s' : ClusterState} {e : LockEvent}
    (noPush : pushedId e = none) (noPop : poppedId e = none) (tasks : s'.tasks = s.tasks)
    (stages : s'.stages = s.stages) (jobs : s'.jobs = s.jobs) (pending : s'.pending = s.pending)
    (runs : s'.totalRuns = s.totalRuns) : Live subs (h ++ [e]) s' (gs.set i g') := by
  refine ⟨pending ▸ custody_same live.custody ghost g' owns held noPush noPop, ?_⟩
  have waiting := live.contents.waiting
  refine contents_quiet live.contents ghost stages tasks (pending ▸ waiting) ?_ fits ?_
  · intro k job found
    exact live.contents.jobs k job ((congrArg (·.get k) jobs).symm.trans found)
  · simp [owes, runs]

theorem read_task (live : Live subs h s gs) (ghost : gs[i]? = some g) {taskId : String}
    (allowed : Allowed subs g (.tasksGet taskId)) :
    Live subs (h ++ [⟨i, .tasksGet taskId, s.tasks.get taskId⟩]) s
      (gs.set i (g.next (.tasksGet taskId) (s.tasks.get taskId))) := by
  obtain ⟨hand, seen⟩ := g
  have fits := live.fits ghost
  cases hand with
  | popped own =>
    obtain rfl : taskId = own := allowed
    obtain ⟨t, stored, _⟩ := fits.hand
    have named : t.id = taskId := (live.contents.tasks taskId t stored).1
    have found : s.tasks.get taskId = some t := stored
    rw [found]
    refine beside live ghost ⟨.holding t, seen⟩ ?_ ?_ rfl ⟨?_, fits.jobs⟩
      rfl rfl rfl rfl rfl rfl rfl
    · exact congrArg (fun id => [id]) named
    · exact congrArg some named
    · show s.task t.id = some t
      rw [named]
      exact stored
  | _ => exact beside live ghost ⟨_, seen⟩ rfl rfl rfl fits rfl rfl rfl rfl rfl rfl rfl

theorem read_stage (live : Live subs h s gs) (ghost : gs[i]? = some g) (stageId : String) :
    Live subs (h ++ [⟨i, .stagesGet stageId, s.stages.get stageId⟩]) s
      (gs.set i (g.next (.stagesGet stageId) (s.stages.get stageId))) := by
  obtain ⟨hand, seen⟩ := g
  have fits := live.fits ghost
  cases hand with
  | staged b =>
    obtain ⟨known, absent, stage⟩ := fits.hand
    have filled : Filled s b b.tasks :=
      ⟨by rw [stage]; rfl, [], rfl, fun _ mem => absurd mem List.not_mem_nil⟩
    refine beside live ghost ⟨.filling b b.tasks, seen⟩ rfl rfl rfl
      ⟨⟨known, filled, fun t mem => ?_⟩, fits.jobs⟩ rfl rfl rfl rfl rfl rfl rfl
    exact absent t.id (List.mem_map_of_mem mem)
  | _ => exact beside live ghost ⟨_, seen⟩ rfl rfl rfl fits rfl rfl rfl rfl rfl rfl rfl

theorem read_jobs (live : Live subs h s gs) (ghost : gs[i]? = some g) {jobs : List Job}
    (stored : ∀ job ∈ jobs, ∃ k, s.job k = some job) {e : LockEvent} (noPush : pushedId e = none)
    (noPop : poppedId e = none) :
    Live subs (h ++ [e]) s (gs.set i { g with jobs := jobs ++ g.jobs }) := by
  have fits := live.fits ghost
  refine beside live ghost ⟨g.hand, jobs ++ g.jobs⟩ rfl rfl rfl ⟨fits.hand, fun job known => ?_⟩
    noPush noPop rfl rfl rfl rfl rfl
  rcases List.mem_append.mp known with new | old
  · obtain ⟨k, found⟩ := stored job new
    exact (live.contents.jobs k job found).2
  · exact fits.jobs job old

theorem live_step (roster : Roster subs) (live : Live subs h s gs) (ghost : gs[i]? = some g)
    {o : LockOp} (allowed : Allowed subs g o) :
    Live subs (h ++ [⟨i, o, (o.exec s).2⟩]) (o.exec s).1 (gs.set i (g.next o (o.exec s).2)) := by
  have fits := live.fits ghost
  cases o with
  | tasksInsert t => exact inserted_task live ghost allowed
  | stagesInsert st => exact inserted_stage roster live ghost allowed
  | jobsInsert job => exact inserted_job live ghost allowed
  | pendingPush taskId => exact pushed_task live ghost allowed
  | pendingPop => exact popped_task live ghost allowed
  | pendingRetain taskId =>
    exact beside live ghost g rfl rfl rfl fits rfl rfl rfl rfl rfl
      (retained_tasks live ghost allowed) rfl
  | runsIncrease => exact counted_run live ghost allowed
  | tasksGet taskId => exact read_task live ghost allowed
  | stagesGet stageId => exact read_stage live ghost stageId
  | jobsGet jobId =>
    refine read_jobs live ghost (fun job mem => ⟨jobId, ?_⟩) rfl rfl
    exact Option.mem_toList.mp mem
  | jobsList order =>
    refine read_jobs live ghost (fun job mem => ?_) rfl rfl
    exact (InsertionMap.mem_values_iff _ _).mp ((order.rearranges _).mem_iff.mp mem)
  | workersTouch workerId now =>
    simp only [LockOp.exec, RSparkLocks.updateWorkerHeartbeat]
    split <;> exact beside live ghost g rfl rfl rfl fits rfl rfl rfl rfl rfl rfl rfl
  | _ => exact beside live ghost g rfl rfl rfl fits rfl rfl rfl rfl rfl rfl rfl

end Steps

end RSparkCustody
