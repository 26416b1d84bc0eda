import RSpark.Locks
import RSpark.Dispatch
import RSpark.StoreInvariant

/- Who may write a task while handlers and workers take the locks in any order. An identifier
   belongs to the submission that drew it until it is queued, then to the queue, and for good to
   the worker's turn that takes it from there. -/
namespace RSparkOwnership
open RSparkExpr RSparkPlan RSparkSqlAst RSparkPlanner RSparkExecutor
open RSparkClusterState RSparkMaster RSparkMasterPhases RSparkApi RSparkSnapshot RSparkLocks Calls

section Roster

/-- The submissions of a run draw identifiers of their own, and each creates a task. -/
structure Roster (subs : List Submission) : Prop where
  ids : (subs.flatMap Submission.ids).Nodup
  stages : (subs.map Submission.stageId).Nodup
  jobs : (subs.map Submission.jobId).Nodup
  tasks : ∀ b ∈ subs, b.ids ≠ []

structure SameTask (t t' : Task) : Prop where
  id : t'.id = t.id
  stageId : t'.stageId = t.stageId
  jobId : t'.jobId = t.jobId
  partitionLabel : t'.partitionLabel = t.partitionLabel
  sql : t'.sql = t.sql

theorem SameTask.refl (t : Task) : SameTask t t := ⟨rfl, rfl, rfl, rfl, rfl⟩

theorem SameTask.trans {t t' t'' : Task} (one : SameTask t t') (two : SameTask t' t'') :
    SameTask t t'' :=
  ⟨two.id.trans one.id, two.stageId.trans one.stageId, two.jobId.trans one.jobId,
    two.partitionLabel.trans one.partitionLabel, two.sql.trans one.sql⟩

def Submitted (subs : List Submission) (t : Task) : Prop :=
  ∃ b ∈ subs, ∃ t₀ ∈ b.tasks, SameTask t₀ t

def StageOf (subs : List Submission) (st : Stage) : Prop :=
  ∃ b ∈ subs, st.id = b.stageId ∧ st.jobId = b.jobId ∧ st.tasks.map Task.id = b.ids

def rank : TaskStatus → Nat
  | .pending => 0
  | .assigned => 1
  | .running => 2
  | .succeeded => 3
  | .failed _ => 3

theorem rank_le (status : TaskStatus) : rank status ≤ 3 := by
  cases status <;> simp [rank]

theorem terminal_iff_rank (status : TaskStatus) :
    status.isTerminal = true ↔ rank status = 3 := by
  cases status <;> simp [TaskStatus.isTerminal, TaskStatus.isSucceeded, TaskStatus.isFailed,
    rank]

structure Advance (t t' : Task) : Prop where
  same : SameTask t t'
  further : rank t.status < rank t'.status

variable {subs : List Submission}

theorem Submitted.same {t t' : Task} (submitted : Submitted subs t) (same : SameTask t t') :
    Submitted subs t' := by
  obtain ⟨b, known, t₀, mem, from₀⟩ := submitted
  exact ⟨b, known, t₀, mem, from₀.trans same⟩

theorem stage_ids (b : Submission) (known : b ∈ subs) : StageOf subs b.stage :=
  ⟨b, known, rfl, rfl, rfl⟩

theorem Roster.by_stage (roster : Roster subs) {b b' : Submission} (known : b ∈ subs)
    (known' : b' ∈ subs) (same : b.stageId = b'.stageId) : b = b' :=
  List.inj_on_of_nodup_map roster.stages known known' same

theorem Roster.by_job (roster : Roster subs) {b b' : Submission} (known : b ∈ subs)
    (known' : b' ∈ subs) (same : b.jobId = b'.jobId) : b = b' :=
  List.inj_on_of_nodup_map roster.jobs known known' same

end Roster

section Seats

inductive Hand where
  | draft (b : Submission)
  | staged (b : Submission)
  | filling (b : Submission) (todo : List Task)
  | queuing (b : Submission) (task : Task) (todo : List Task)
  | free
  | popped (taskId : String)
  | holding (task : Task)
  | owing (task : Task)

namespace Hand

def owns : Hand → List String
  | .draft b | .staged b => b.ids
  | .filling _ todo => todo.map Task.id
  | .queuing _ task todo => task.id :: todo.map Task.id
  | .free => []
  | .popped taskId => [taskId]
  | .holding task | .owing task => [task.id]

def unqueued : Hand → List String
  | .draft b | .staged b => b.ids
  | .filling _ todo => todo.map Task.id
  | .queuing _ task todo => task.id :: todo.map Task.id
  | _ => []

def held : Hand → Option String
  | .popped taskId => some taskId
  | .holding task | .owing task => some task.id
  | _ => none

/-- A success is recorded and not counted yet. -/
def owes : Hand → Bool
  | .owing _ => true
  | _ => false

end Hand

structure Seat where
  hand : Hand
  jobs : List Job

def recorded (task : Task) : Hand :=
  if task.status.isSucceeded then .owing task else .holding task

def Seat.next (g : Seat) : (o : LockOp) → o.Resp → Seat
  | .stagesInsert _, _ =>
      match g.hand with
      | .draft b => { g with hand := .staged b }
      | _ => g
  | .stagesGet _, _ =>
      match g.hand with
      | .staged b => { g with hand := .filling b b.tasks }
      | _ => g
  | .tasksInsert task, _ =>
      match g.hand with
      | .filling b (_ :: todo) => { g with hand := .queuing b task todo }
      | .holding _ => { g with hand := recorded task }
      | _ => g
  | .tasksGet _, found =>
      match g.hand, found with
      | .popped _, some task => { g with hand := .holding task }
      | _, _ => g
  | .pendingPush _, _ =>
      match g.hand with
      | .queuing b _ todo => { g with hand := .filling b todo }
      | _ => g
  | .pendingPop, found =>
      match found with
      | some taskId => { g with hand := .popped taskId }
      | none => g
  | .runsIncrease, _ =>
      match g.hand with
      | .owing task => { g with hand := .holding task }
      | _ => g
  | .jobsInsert job, _ => { g with jobs := job :: g.jobs }
  | .jobsGet _, found => { g with jobs := found.toList ++ g.jobs }
  | .jobsList _, jobs => { g with jobs := jobs ++ g.jobs }
  | _, _ => g

def Allowed (subs : List Submission) (g : Seat) : LockOp → Prop
  | .stagesInsert st =>
      match g.hand with
      | .draft b => st = b.stage
      | .holding task => st.id = task.stageId ∧ StageOf subs st
      | _ => False
  | .tasksInsert task =>
      match g.hand with
      | .filling _ (first :: _) => task = first
      | .holding old => Advance old task
      | _ => False
  | .tasksGet taskId =>
      match g.hand with
      | .popped own => taskId = own
      | _ => True
  | .pendingPush taskId =>
      match g.hand with
      | .queuing _ task _ => taskId = task.id
      | _ => False
  | .pendingPop => g.hand = .free
  | .pendingRetain taskId =>
      match g.hand with
      | .holding task | .owing task => taskId = task.id
      | _ => False
  | .runsIncrease => g.hand.owes = true
  | .jobsInsert job =>
      job.stages = [] ∨ (∃ known ∈ g.jobs, known.id = job.id ∧ known.stages = job.stages) ∨
        ∃ b, g.hand = .filling b [] ∧ job.id = b.jobId ∧ job.stages = [b.stageId]
  | _ => True

def Counts (subs : List Submission) (g : Seat) : (o : LockOp) → o.Resp → Prop
  | .tasksGet taskId, found =>
      match g.hand with
      | .popped own =>
          ∃ t, found = some t ∧ t.id = own ∧ Submitted subs t ∧ t.status = .pending
      | .holding task => taskId = task.id → found = some task
      | _ => True
  | .stagesGet stageId, found =>
      (∀ st, found = some st → st.id = stageId ∧ StageOf subs st) ∧
        ∀ b, g.hand = .staged b → stageId = b.stageId → found = some b.stage
  | .jobsGet jobId, found => ∀ job, found = some job → job.id = jobId
  | .stagesList _, found => ∀ job ∈ g.jobs, ∀ stageId ∈ job.stages,
      ∃ st ∈ found, st.id = stageId ∧ st.jobId = job.id ∧ StageOf subs st
  | .tasksList, found => ∀ job ∈ g.jobs, ∀ b ∈ subs, b.stageId ∈ job.stages →
      ∀ t₀ ∈ b.tasks, ∃ t ∈ found, SameTask t₀ t
  | .stagesForJob jobId _, found => ∀ b, g.hand = .filling b [] → jobId = b.jobId →
      found.map Stage.id = [b.stageId] ∧ ∀ st ∈ found, StageOf subs st
  | .tasksForJob jobId, found => ∀ b, g.hand = .filling b [] → jobId = b.jobId →
      (found.map Task.id).Perm b.ids ∧ ∀ t ∈ found, Submitted subs t
  | _, _ => True

end Seats

section Live

inductive LiveCall where
  | submit (r : JobRequest) (catalog : Catalog) (d : SubmitDraws) (order : Walk Stage)
  | sql (ctx : ExecutionContext) (submitted catalog : Catalog) (body : ExecuteSqlRequest)
      (d : SqlDraws)
  | turn (workerId : String) (work : Task → Option Posted)
  | register (worker : WorkerInfo)
  | heartbeat (workerId : String) (now : Time)
  | snapshot (orders : MapOrders) (capturedAt : Time)

inductive LiveOutcome where
  | submitted (answer : Answer SubmitJobResponse)
  | answered (response : Response)
  | turned (result : TurnEnd)
  | registered
  | beaten (known : Bool)
  | shown (snapshot : ClusterSnapshot)

variable [Regex] [SqlParser] [PlanDebug]

def LiveCall.prog : LiveCall → LockProg LiveOutcome
  | .submit r catalog d order => (RSparkLocks.submitJob r catalog d order).map .submitted
  | .sql ctx submitted catalog body d =>
      (locked (executeSql ctx submitted catalog body d)).map .answered
  | .turn workerId work => (workerTurn workerId work).map .turned
  | .register worker => (locked (.call (.registerWorker worker) fun _ => .ret ())).map
      fun _ => .registered
  | .heartbeat workerId now => (RSparkLocks.heartbeat workerId now).map .beaten
  | .snapshot orders capturedAt => (snapshotSteps orders capturedAt).map .shown

def LiveCall.submission : LiveCall → Option Submission
  | .submit r catalog d _ => submissionOf (.submit r catalog d)
  | .sql _ submitted _ body d =>
      match tryShowCreate body.sql with
      | .ok none => submissionOf (.submit (jobRequestOf body) submitted d.submit)
      | _ => none
  | _ => none

def submissionsOf (calls : List LiveCall) : List Submission :=
  calls.filterMap LiveCall.submission

structure DistinctDraws (calls : List LiveCall) : Prop where
  tasks : ((submissionsOf calls).flatMap Submission.ids).Nodup
  stages : ((submissionsOf calls).map Submission.stageId).Nodup
  jobs : ((submissionsOf calls).map Submission.jobId).Nodup

abbrev LockPool := Pool lockInterface LiveOutcome
abbrev LockEvent := Event lockInterface

def livePool (masterId : String) (order : HashOrder) (calls : List LiveCall) : LockPool :=
  ⟨ClusterState.new masterId order, calls.map LiveCall.prog⟩

omit [Regex] in
theorem submission_ids_ne_nil {c : LiveCall} {b : Submission} (made : c.submission = some b) :
    b.ids ≠ [] := by
  have known {r : JobRequest} {catalog : Catalog} {d : SubmitDraws}
      (planned : submissionOf (.submit r catalog d) = some b) : b.ids ≠ [] := by
    have alone : RSparkWriteBacks.Known [.submit r catalog d] b :=
      ⟨_, List.mem_singleton_self _, planned⟩
    exact RSparkStoreInvariant.known_ids_ne_nil alone
  cases c with
  | submit r catalog d order => exact known made
  | sql ctx submitted catalog body d =>
    simp only [LiveCall.submission] at made
    split at made
    · exact known made
    · exact absurd made (by simp)
  | _ => exact absurd made (by simp [LiveCall.submission])

omit [Regex] in
theorem DistinctDraws.roster {calls : List LiveCall} (distinct : DistinctDraws calls) :
    Roster (submissionsOf calls) := by
  refine ⟨distinct.tasks, distinct.stages, distinct.jobs, fun b known => ?_⟩
  obtain ⟨c, _, made⟩ := List.mem_filterMap.mp known
  exact submission_ids_ne_nil made

def seatOf : Option Submission → Seat
  | some b => ⟨.draft b, []⟩
  | none => ⟨.free, []⟩

def startSeat (c : LiveCall) : Seat := seatOf c.submission

end Live

section Keeps
variable {subs : List Submission}

/-- Jobs, stages and tasks read one after the other: every stage and every task of a job that
    is shown is shown too. -/
def Consistent (subs : List Submission) (snapshot : ClusterSnapshot) : Prop :=
  ∀ job ∈ snapshot.jobs, ∀ stageId ∈ job.stages,
    ∃ st ∈ snapshot.stages, st.id = stageId ∧ st.jobId = job.id ∧
      ∃ b ∈ subs, b.stageId = stageId ∧ st.tasks.map Task.id = b.ids ∧
        ∀ t₀ ∈ b.tasks, ∃ t ∈ snapshot.tasks, SameTask t₀ t

structure Shows (b : Submission) (response : SubmitJobResponse) : Prop where
  job : response.job.id = b.jobId
  stages : response.stages.map Stage.id = [b.stageId]
  tasks : (response.tasks.map Task.id).Perm b.ids

def Ends (subs : List Submission) (g : Seat) : LiveOutcome → Prop
  | .submitted (.ok response) => ∃ b ∈ subs, Shows b response
  | .turned .idle => g.hand = .free
  | .turned (.silent task) =>
      g.hand = .holding task ∧ task.status = .assigned ∧ Submitted subs task
  | .turned (.reported task posted answer) =>
      g.hand = .holding (Task.withReport task (posted.report task.id)) ∧ answer = .ok () ∧
        task.status = .assigned ∧ Submitted subs task
  | .shown snapshot => Consistent subs snapshot
  | _ => True

def LiveOutcome.isTurn : LiveOutcome → Bool
  | .turned _ => true
  | _ => false

/-- Nothing is left to be counted or queued, and only a turn holds a task. -/
structure Settled (hand : Hand) (turn : Bool) : Prop where
  owes : hand.owes = false
  unqueued : hand.unqueued = []
  held : turn = false → hand.held = none

theorem settled_free {turn : Bool} : Settled .free turn := ⟨rfl, rfl, fun _ => rfl⟩

theorem settled_filled (b : Submission) {turn : Bool} : Settled (.filling b []) turn :=
  ⟨rfl, rfl, fun _ => rfl⟩

theorem settled_holding (task : Task) : Settled (.holding task) true :=
  ⟨rfl, rfl, fun turn => absurd turn Bool.false_ne_true.symm⟩

def ownership (subs : List Submission) : Protocol lockInterface Seat LiveOutcome :=
  ⟨Allowed subs, Counts subs, Seat.next, fun g outcome =>
    Settled g.hand outcome.isTurn ∧ Ends subs g outcome⟩

abbrev part {τ : Type} (subs : List Submission) (final : Seat → τ → Prop) :
    Protocol lockInterface Seat τ :=
  ⟨Allowed subs, Counts subs, Seat.next, final⟩

section Parts
variable {τ : Type} {final : Seat → τ → Prop}

theorem insertTasks_keeps (b : Submission) (jobs : List Job) (todo : List Task)
    (rest : ClusterProg τ) (after : (part subs final).Keeps ⟨.filling b [], jobs⟩ (locked rest)) :
    (part subs final).Keeps ⟨.filling b todo, jobs⟩ (locked (insertTasks todo rest)) := by
  induction todo with
  | nil => exact after
  | cons task todo ih => exact ⟨rfl, fun _ _ => ⟨rfl, fun _ _ => ih⟩⟩

end Parts

def Announced (b : Submission) (g : Seat) (answer : Answer Job) : Prop :=
  ∃ job, answer = .ok job ∧ job ∈ g.jobs ∧ job.id = b.jobId ∧ g.hand = .filling b []

theorem announceJob_keeps (b : Submission) (jobs : List Job) :
    (part subs (Announced b)).Keeps ⟨.filling b [], jobs⟩
      (locked (announceJob b.plannedJob b.draws.startedAt)) := by
  refine ⟨Or.inr (Or.inr ⟨b, rfl, rfl, rfl⟩), fun _ _ => ?_⟩
  refine ⟨Or.inr (Or.inl ⟨b.plannedJob, List.mem_cons_self, rfl, rfl⟩), fun _ _ => ?_⟩
  refine ⟨trivial, fun found counts => ?_⟩
  cases found with
  | none => exact ⟨b.plannedJob, rfl, List.mem_cons_of_mem _ List.mem_cons_self, rfl, rfl⟩
  | some job => exact ⟨job, rfl, List.mem_cons_self, counts job rfl, rfl⟩

theorem submitPlanned_keeps (b : Submission) :
    (part subs (Announced b)).Keeps ⟨.draft b, []⟩
      (locked (submitPlanned b.request b.draws b.partitions)) := by
  refine ⟨rfl, fun _ _ => ⟨trivial, fun found counts => ?_⟩⟩
  obtain rfl : found = some b.stage := counts.2 b rfl rfl
  exact insertTasks_keeps b [] b.tasks _ (announceJob_keeps b [])

theorem showSubmitted_keeps {b : Submission} (known : b ∈ subs) (order : Walk Stage) {job : Job}
    {g : Seat} (named : job.id = b.jobId) (filled : g.hand = .filling b []) :
    (part subs fun g answer => Settled g.hand false ∧ Ends subs g (.submitted answer)).Keeps g
      (showSubmitted order job) := by
  refine ⟨trivial, fun stages one => ⟨trivial, fun tasks all => ⟨trivial, fun _ _ => ?_⟩⟩⟩
  exact ⟨filled ▸ settled_filled b, b, known, named, (one b filled named).1, (all b filled named).1⟩

theorem updateTask_keeps {final : Seat → Unit → Prop} {old task : Task} {jobs : List Job}
    (advance : Advance old task)
    (ends : final ⟨.holding task, jobs⟩ ()) :
    (part subs final).Keeps ⟨.holding old, jobs⟩ (updateTask task) := by
  refine ⟨trivial, fun found counts => ⟨advance, fun _ _ => ?_⟩⟩
  obtain rfl : found = some old := counts advance.same.id
  have before : old.status.isTerminal = false := by
    have further := advance.further
    have most := rank_le task.status
    by_contra terminal
    have reached := (terminal_iff_rank old.status).mp (by simpa using terminal)
    omega
  show (part subs final).Keeps ⟨recorded task, jobs⟩ _
  simp only [Option.any_some, before, Bool.not_false, Bool.true_and, recorded]
  cases won : task.status.isSucceeded with
  | true =>
    have terminal : task.status.isTerminal = true := by simp [TaskStatus.isTerminal, won]
    rw [if_pos rfl, if_pos terminal]
    exact ⟨rfl, fun _ _ => ⟨rfl, fun _ _ => ends⟩⟩
  | false =>
    rw [if_neg Bool.false_ne_true]
    cases terminal : task.status.isTerminal with
    | true => exact ⟨rfl, fun _ _ => ends⟩
    | false => exact ends

def Assigned (subs : List Submission) (g : Seat) : Option Task → Prop
  | none => g.hand = .free
  | some task => g.hand = .holding task ∧ task.status = .assigned ∧ Submitted subs task

theorem changed_stage {task : Task} (change : Stage → Stage) {st : Stage}
    (keepsId : (change st).id = st.id) (keepsJob : (change st).jobId = st.jobId)
    (keepsTasks : (change st).tasks.map Task.id = st.tasks.map Task.id)
    (own : st.id = task.stageId ∧ StageOf subs st) :
    (change st).id = task.stageId ∧ StageOf subs (change st) := by
  obtain ⟨named, b, known, id, jobId, ids⟩ := own
  exact ⟨keepsId.trans named, b, known, keepsId.trans id, keepsJob.trans jobId,
    keepsTasks.trans ids⟩

theorem recordAssigned_keeps {task : Task} {workerId : String} (waiting : task.status = .pending)
    (submitted : Submitted subs task) :
    (part subs (Assigned subs)).Keeps ⟨.holding task, []⟩
      (locked (recordAssigned (Task.assignTo task workerId))) := by
  have advance : Advance task (Task.assignTo task workerId) :=
    ⟨⟨rfl, rfl, rfl, rfl, rfl⟩, by rw [waiting]; exact Nat.zero_lt_one⟩
  have ends : Assigned subs ⟨.holding (Task.assignTo task workerId), []⟩
      (some (Task.assignTo task workerId)) := ⟨rfl, rfl, submitted.same advance.same⟩
  refine Protocol.keeps_bind _ (updateTask_keeps advance ?_)
  refine ⟨trivial, fun found counts => ?_⟩
  cases found with
  | none => exact ends
  | some st =>
    refine ⟨changed_stage (Stage.withAssigned · _) rfl rfl ?_ (counts.1 st rfl),
      fun _ _ => ends⟩
    exact RSparkDispatch.withAssigned_ids st _

theorem tryAssignTask_keeps (workerId : String) :
    (part subs (Assigned subs)).Keeps ⟨.free, []⟩ (locked (tryAssignTask workerId)) := by
  refine ⟨rfl, fun found _ => ?_⟩
  cases found with
  | none => exact rfl
  | some taskId =>
    refine ⟨rfl, fun task counts => ?_⟩
    obtain ⟨task, rfl, rfl, submitted, waiting⟩ := counts
    exact recordAssigned_keeps waiting submitted

theorem rollUp_keeps {final : Seat → Answer Unit → Prop} {g : Seat} {jobId : String} {now : Time}
    (ends : ∀ jobs, final ⟨g.hand, jobs⟩ (.ok ())) :
    (part subs final).Keeps g (locked (rollUp jobId now)) := by
  refine ⟨trivial, fun tasks _ => ⟨trivial, fun found _ => ?_⟩⟩
  cases found with
  | none => exact trivial
  | some job =>
    refine ⟨Or.inr (Or.inl ⟨job, List.mem_cons_self, (rolledUp_id job tasks now).symm, ?_⟩),
      fun _ _ => ends _⟩
    unfold Job.rolledUp
    split
    · rfl
    · split <;> rfl

theorem recordReport_keeps {task done : Task} {jobs : List Job} (advance : Advance task done)
    (now : Time) :
    (part subs fun g (answer : Answer Unit) => answer = .ok () ∧ g.hand = .holding done).Keeps
      ⟨.holding task, jobs⟩ (locked (recordReport done now)) := by
  refine Protocol.keeps_bind _ (updateTask_keeps advance ?_)
  refine ⟨trivial, fun found counts => ?_⟩
  cases found with
  | none => exact rollUp_keeps fun jobs => ⟨rfl, rfl⟩
  | some st =>
    refine ⟨changed_stage (Stage.withReport · done) rfl rfl ?_ (counts.1 st rfl),
      fun _ _ => rollUp_keeps fun jobs => ⟨rfl, rfl⟩⟩
    exact RSparkDispatch.withReport_ids st done

theorem completeTask_keeps {task : Task} {posted : Posted} {jobs : List Job}
    (assigned : task.status = .assigned) :
    (part subs fun g (answer : Answer Unit) => answer = .ok () ∧
      g.hand = .holding (Task.withReport task (posted.report task.id))).Keeps
      ⟨.holding task, jobs⟩ (locked (completeTask (posted.report task.id))) := by
  have named : (posted.report task.id).taskId = task.id := by cases posted <;> rfl
  have advance : Advance task (Task.withReport task (posted.report task.id)) := by
    refine ⟨⟨rfl, rfl, rfl, rfl, rfl⟩, ?_⟩
    rw [assigned]
    cases posted <;> exact (Nat.lt_of_sub_eq_succ rfl : 1 < 3)
  refine ⟨trivial, fun found counts => ?_⟩
  obtain rfl : found = some task := counts named
  exact recordReport_keeps advance _

theorem workerTurn_keeps (workerId : String) (work : Task → Option Posted) :
    (part subs fun g result => Settled g.hand true ∧ Ends subs g (.turned result)).Keeps
      ⟨.free, []⟩ (workerTurn workerId work) := by
  refine Protocol.keeps_then (tryAssignTask_keeps workerId) ?_
  rintro ⟨hand, jobs⟩ found assigned
  cases found with
  | none => exact ⟨assigned ▸ settled_free, assigned⟩
  | some task =>
    obtain ⟨rfl, status, submitted⟩ := assigned
    simp only
    cases work task with
    | none => exact ⟨settled_holding task, rfl, status, submitted⟩
    | some posted =>
      refine Protocol.keeps_then (completeTask_keeps status) ?_
      rintro ⟨hand, jobs⟩ answer ⟨done, now⟩
      exact ⟨now ▸ settled_holding _, now, done, status, submitted⟩

theorem snapshotSteps_keeps (orders : MapOrders) (capturedAt : Time) :
    (part subs fun g result => Settled g.hand false ∧ Ends subs g (.shown result)).Keeps ⟨.free, []⟩
      (snapshotSteps orders capturedAt) := by
  refine ⟨trivial, fun _ _ => ⟨trivial, fun _ _ => ⟨trivial, fun jobs _ => ?_⟩⟩⟩
  refine ⟨trivial, fun stages staged => ⟨trivial, fun tasks stored => ?_⟩⟩
  refine ⟨trivial, fun _ _ => ⟨trivial, fun _ _ => ⟨trivial, fun _ _ => ⟨trivial, fun _ _ => ?_⟩⟩⟩⟩
  refine ⟨settled_free, fun job seen stageId inside => ?_⟩
  have known : job ∈ jobs ++ [] := List.mem_append_left _ seen
  obtain ⟨st, shown, rfl, ofJob, b, member, named, _, ids⟩ := staged job known stageId inside
  exact ⟨st, shown, rfl, ofJob, b, member, named.symm, ids,
    stored job known b member (named ▸ inside)⟩

theorem heartbeat_keeps (workerId : String) (now : Time) {g : Seat}
    (settled : Settled g.hand false) :
    (part subs fun g known => Settled g.hand false ∧ Ends subs g (.beaten known)).Keeps g
      (RSparkLocks.heartbeat workerId now) := by
  refine ⟨trivial, fun found _ => ?_⟩
  cases found with
  | none => exact ⟨settled, trivial⟩
  | some worker => exact ⟨trivial, fun _ _ => ⟨settled, trivial⟩⟩

section Requests
variable [Regex] [SqlParser] [PlanDebug]

/-- A refused submission has drawn nothing; the others have announced their job. -/
def SubmitEnds (made : Option Submission) (g : Seat) : Answer Job → Prop
  | .error _ => g.hand = .free
  | .ok job => ∃ b, made = some b ∧ Announced b g (.ok job)

omit [Regex] in
theorem submitJob_keeps (r : JobRequest) (catalog : Catalog) (d : SubmitDraws) :
    (part subs (SubmitEnds (submissionOf (.submit r catalog d)))).Keeps
      (seatOf (submissionOf (.submit r catalog d)))
      (locked (RSparkMaster.submitJob r catalog d)) := by
  simp only [submissionOf, RSparkMaster.submitJob]
  cases planSql r.sql catalog with
  | error fault =>
    cases fault with
    | error e => exact rfl
    | abort message => exact trivial
  | ok plan =>
    let b : Submission := ⟨r, d, planPartitions plan r.parallelism⟩
    refine Protocol.keeps_ending (P := ownership subs) ?_ _ (submitPlanned_keeps b)
    rintro g answer ⟨job, rfl, known⟩
    exact ⟨_, rfl, job, rfl, known⟩

omit [Regex] in
theorem submitHandler_keeps (r : JobRequest) (catalog : Catalog) (d : SubmitDraws)
    (order : Walk Stage) (inside : ∀ b, submissionOf (.submit r catalog d) = some b → b ∈ subs) :
    (part subs fun g answer => Settled g.hand false ∧ Ends subs g (.submitted answer)).Keeps
      (seatOf (submissionOf (.submit r catalog d)))
      (RSparkLocks.submitJob r catalog d order) := by
  refine Protocol.keeps_then (submitJob_keeps r catalog d) ?_
  intro g answer ends
  cases answer with
  | error e => exact ⟨(show g.hand = .free from ends) ▸ settled_free, trivial⟩
  | ok job =>
    obtain ⟨b, made, job', same, _, named, filled⟩ := ends
    obtain rfl := Except.ok.inj same
    exact showSubmitted_keeps (inside b made) order named filled

theorem answered_keeps (ctx : ExecutionContext) (catalog : Catalog) (sql : String) (now : Time)
    {g : Seat} {job : Job} (known : job ∈ g.jobs) (settled : Settled g.hand false) :
    (part subs fun g response => Settled g.hand false ∧ Ends subs g (.answered response)).Keeps g
      (locked (answerQuery ctx catalog sql now job)) := by
  refine ⟨trivial, fun _ _ => ?_⟩
  simp only
  cases planSql sql catalog with
  | error fault =>
    cases fault with
    | error e => exact ⟨settled, trivial⟩
    | abort message => exact trivial
  | ok plan =>
    simp only [finishQuery]
    cases execute ctx plan with
    | error fault =>
      cases fault with
      | error e => exact ⟨Or.inr (Or.inl ⟨job, known, rfl, rfl⟩), fun _ _ => ⟨settled, trivial⟩⟩
      | abort message => exact trivial
    | ok batch =>
      exact ⟨Or.inr (Or.inl ⟨job, known, rfl, rfl⟩), fun _ _ => ⟨trivial, fun _ _ =>
        ⟨trivial, fun _ _ => ⟨settled, trivial⟩⟩⟩⟩

theorem executeSql_keeps (ctx : ExecutionContext) (submitted catalog : Catalog)
    (body : ExecuteSqlRequest) (d : SqlDraws) :
    (part subs fun g response => Settled g.hand false ∧ Ends subs g (.answered response)).Keeps
      (startSeat (.sql ctx submitted catalog body d))
      (locked (executeSql ctx submitted catalog body d)) := by
  simp only [startSeat, LiveCall.submission, executeSql]
  cases shown : tryShowCreate body.sql with
  | error fault =>
    cases fault with
    | error e => exact ⟨settled_free, trivial⟩
    | abort message => exact trivial
  | ok found =>
    cases found with
    | some tableName =>
      refine ⟨Or.inl rfl, fun _ _ => ⟨trivial, fun _ _ => ?_⟩⟩
      simp only
      cases renderCreateTable catalog tableName with
      | error fault =>
        cases fault with
        | error e => exact ⟨settled_free, trivial⟩
        | abort message => exact trivial
      | ok ddl =>
        exact ⟨Or.inl rfl, fun _ _ => ⟨trivial, fun _ _ => ⟨settled_free, trivial⟩⟩⟩
    | none =>
      simp only [Prog.lower_bind]
      refine Protocol.keeps_then (submitJob_keeps (jobRequestOf body) submitted d.submit) ?_
      intro g answer ends
      cases answer with
      | error e => exact ⟨(show g.hand = .free from ends) ▸ settled_free, trivial⟩
      | ok job =>
        obtain ⟨b, _, job', same, known, _, filled⟩ := ends
        obtain rfl := Except.ok.inj same
        exact answered_keeps ctx catalog body.sql d.finishedAt known (filled ▸ settled_filled b)

theorem call_keeps {calls : List LiveCall} {c : LiveCall} (member : c ∈ calls) :
    (ownership (submissionsOf calls)).Keeps (startSeat c) c.prog := by
  cases c with
  | submit r catalog d order =>
    refine Protocol.keeps_then (submitHandler_keeps r catalog d order fun b made => ?_) ?_
    · exact List.mem_filterMap.mpr ⟨_, member, made⟩
    · exact fun _ _ ends => ends
  | sql ctx submitted catalog body d =>
    exact Protocol.keeps_then (executeSql_keeps ctx submitted catalog body d) fun _ _ ends => ends
  | turn workerId work =>
    exact Protocol.keeps_then (workerTurn_keeps workerId work) fun _ _ ends => ends
  | register worker => exact ⟨trivial, fun _ _ => ⟨settled_free, trivial⟩⟩
  | heartbeat workerId now =>
    exact Protocol.keeps_then (heartbeat_keeps workerId now settled_free) fun _ _ ends => ends
  | snapshot orders capturedAt =>
    exact Protocol.keeps_then (snapshotSteps_keeps orders capturedAt) fun _ _ ends => ends

theorem live_matches (masterId : String) (order : HashOrder) (calls : List LiveCall) :
    (ownership (submissionsOf calls)).Matches (calls.map startSeat)
      (livePool masterId order calls).threads :=
  Protocol.matches_map fun _ member => call_keeps member

end Requests

end Keeps

end RSparkOwnership
