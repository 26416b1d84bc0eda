import RSpark.MasterSteps

/- The snapshot of a cluster state, and the state rebuilt from it by a remote dashboard. -/
namespace RSparkSnapshot
open RSparkSqlAst RSparkPlanner RSparkClusterState RSparkMaster RSparkMasterSteps Calls

structure ClusterSnapshot where
  masterId : String
  capturedAt : Time
  workers : List WorkerInfo
  jobs : List Job
  stages : List Stage
  tasks : List Task
  pendingQueue : List String
  runningRound : Nat
  totalCompletedRounds : Nat
  totalRuns : Nat

structure Walk (α : Type) where
  walk : List α → List α
  rearranges : ∀ values, (walk values).Perm values

structure MapOrders where
  workers : Walk WorkerInfo
  jobs : Walk Job
  stages : Walk Stage

def listTasks (s : ClusterState) : List Task := s.order.walk s.tasks.values

def snapshot (s : ClusterState) (orders : MapOrders) (capturedAt : Time) : ClusterSnapshot where
  masterId := s.masterId
  capturedAt := capturedAt
  workers := orders.workers.walk s.workers.values
  jobs := orders.jobs.walk s.jobs.values
  stages := orders.stages.walk s.stages.values
  tasks := listTasks s
  pendingQueue := s.pending
  runningRound := s.runningRound
  totalCompletedRounds := s.totalCompletedRounds
  totalRuns := s.totalRuns

/-- Everything is put back through the methods that recorded it in the first place. -/
def rebuild (snapshot : ClusterSnapshot) (order : HashOrder) : ClusterState :=
  let state := ClusterState.new snapshot.masterId order
  let state := snapshot.workers.foldl ClusterState.registerWorker state
  let state := snapshot.jobs.foldl ClusterState.insertJob state
  let state := snapshot.stages.foldl ClusterState.insertStage state
  snapshot.tasks.foldl ClusterState.insertTask state

/-- The snapshot comes out of the answer to a request, or the request has failed. -/
def fetchRemoteState (response : Answer ClusterSnapshot) (order : HashOrder) :
    Answer ClusterState :=
  response.map fun snapshot => rebuild snapshot order

/-- The same but for the instants of capture: a map is the same in any order. -/
structure SameSnapshot (a b : ClusterSnapshot) : Prop where
  workers : a.workers.Perm b.workers
  jobs : a.jobs.Perm b.jobs
  stages : a.stages.Perm b.stages
  tasks : a.tasks.Perm b.tasks
  pendingQueue : a.pendingQueue = b.pendingQueue
  runningRound : a.runningRound = b.runningRound
  totalCompletedRounds : a.totalCompletedRounds = b.totalCompletedRounds
  totalRuns : a.totalRuns = b.totalRuns

/-- Nothing was handed out, finished or counted: the queue holds all tasks, in the order in
    which they are listed. -/
structure Untouched (s : ClusterState) : Prop where
  queue : s.pending = (listTasks s).map Task.id
  runningRound : s.runningRound = 0
  totalCompletedRounds : s.totalCompletedRounds = 0
  totalRuns : s.totalRuns = 0

section Maps
variable {s : ClusterState}

structure AllKeyed (s : ClusterState) : Prop where
  workers : s.workers.Keyed WorkerInfo.id
  jobs : s.jobs.Keyed Job.id
  stages : s.stages.Keyed Stage.id
  tasks : s.tasks.Keyed Task.id

theorem new_keyed (masterId : String) (order : HashOrder) :
    AllKeyed (ClusterState.new masterId order) where
  workers := InsertionMap.keyed_empty
  jobs := InsertionMap.keyed_empty
  stages := InsertionMap.keyed_empty
  tasks := InsertionMap.keyed_empty

theorem exec_keyed (o : Op) (keyed : AllKeyed s) : AllKeyed (Op.exec o s).1 := by
  obtain ⟨workers, jobs, stages, tasks⟩ := keyed
  cases o with
  | registerWorker w => exact ⟨workers.insert w, jobs, stages, tasks⟩
  | insertJob j => exact ⟨workers, jobs.insert j, stages, tasks⟩
  | updateJob j => exact ⟨workers, jobs.insert j, stages, tasks⟩
  | insertStage st => exact ⟨workers, jobs, stages.insert st, tasks⟩
  | updateStage st => exact ⟨workers, jobs, stages.insert st, tasks⟩
  | insertTask t => exact ⟨workers, jobs, stages, tasks.insert t⟩
  | updateTask t => exact ⟨workers, jobs, stages, tasks.insert t⟩
  | popPendingTask =>
    simp only [Op.exec, ClusterState.popPendingTask]
    split
    · exact ⟨workers, jobs, stages, tasks⟩
    · exact ⟨workers, jobs, stages, tasks⟩
  | _ => exact ⟨workers, jobs, stages, tasks⟩

theorem run_keyed {ρ : Type} {start p : Pool clusterInterface ρ}
    {history : List (Event clusterInterface)} (init : AllKeyed start.state)
    (run : Run start history p) : AllKeyed p.state :=
  run_invariant (J := AllKeyed) (fun o keyed => exec_keyed o keyed) init run

theorem foldl_registerWorker (ws : List WorkerInfo) :
    ws.foldl ClusterState.registerWorker s =
      { s with workers := ws.foldl (fun m w => m.insert w.id w) s.workers } := by
  induction ws generalizing s with
  | nil => rfl
  | cons w rest ih => exact ih

theorem foldl_insertJob (js : List Job) : js.foldl ClusterState.insertJob s =
    { s with jobs := js.foldl (fun m j => m.insert j.id j) s.jobs } := by
  induction js generalizing s with
  | nil => rfl
  | cons j rest ih => exact ih

theorem foldl_insertStage (sts : List Stage) : sts.foldl ClusterState.insertStage s =
    { s with stages := sts.foldl (fun m st => m.insert st.id st) s.stages } := by
  induction sts generalizing s with
  | nil => rfl
  | cons st rest ih => exact ih

theorem foldl_insertTask (ts : List Task) : ts.foldl ClusterState.insertTask s =
    { s with
      tasks := ts.foldl (fun m t => m.insert t.id t) s.tasks
      pending := s.pending ++ ts.map Task.id } := by
  induction ts generalizing s with
  | nil => simp
  | cons t rest ih =>
    rw [List.foldl_cons, ih]
    simp [ClusterState.insertTask]

theorem restored_values {V : Type} {key : V → String} {m : InsertionMap String V}
    (keyed : m.Keyed key) {l : List V} (same : l.Perm m.values) :
    (l.foldl (fun m v => m.insert (key v) v) InsertionMap.empty).values = l := by
  have apart : (l.map key).Nodup := by
    rw [(same.map key).nodup_iff, keyed.values_keys]
    exact m.nodupKeys
  exact InsertionMap.values_foldl_insert key apart

end Maps

section Rebuilding
variable {s : ClusterState}

/-- What the rebuilt state holds: the maps as they were, every task in the queue, and no
    counter. -/
structure RebuiltFrom (snapshot : ClusterSnapshot) (order : HashOrder) (s' : ClusterState) :
    Prop where
  workers : s'.workers.values = snapshot.workers
  jobs : s'.jobs.values = snapshot.jobs
  stages : s'.stages.values = snapshot.stages
  tasks : s'.tasks.values = snapshot.tasks
  order : s'.order = order
  queue : s'.pending = snapshot.tasks.map Task.id
  runningRound : s'.runningRound = 0
  totalCompletedRounds : s'.totalCompletedRounds = 0
  totalRuns : s'.totalRuns = 0

theorem rebuilt (keyed : AllKeyed s) (orders : MapOrders) (capturedAt : Time)
    (order : HashOrder) :
    RebuiltFrom (snapshot s orders capturedAt) order
      (rebuild (snapshot s orders capturedAt) order) := by
  simp only [rebuild, foldl_registerWorker, foldl_insertJob, foldl_insertStage, foldl_insertTask]
  exact
    { workers := restored_values keyed.workers (orders.workers.rearranges _)
      jobs := restored_values keyed.jobs (orders.jobs.rearranges _)
      stages := restored_values keyed.stages (orders.stages.rearranges _)
      tasks := restored_values keyed.tasks (s.order.rearranges _)
      order := rfl
      queue := List.nil_append _
      runningRound := rfl
      totalCompletedRounds := rfl
      totalRuns := rfl }

theorem same_iff_untouched (keyed : AllKeyed s) (orders orders' : MapOrders)
    (capturedAt capturedAt' : Time) (order : HashOrder) :
    SameSnapshot (snapshot s orders capturedAt)
      (snapshot (rebuild (snapshot s orders capturedAt) order) orders' capturedAt') ↔
    Untouched s := by
  have held := rebuilt keyed orders capturedAt order
  constructor
  · intro same
    exact
      { queue := same.pendingQueue.trans held.queue
        runningRound := same.runningRound.trans held.runningRound
        totalCompletedRounds := same.totalCompletedRounds.trans held.totalCompletedRounds
        totalRuns := same.totalRuns.trans held.totalRuns }
  · intro untouched
    refine ⟨?_, ?_, ?_, ?_, ?_, ?_, ?_, ?_⟩
    · exact held.workers ▸ (orders'.workers.rearranges _).symm
    · exact held.jobs ▸ (orders'.jobs.rearranges _).symm
    · exact held.stages ▸ (orders'.stages.rearranges _).symm
    · exact held.tasks ▸ (HashOrder.rearranges _ _).symm
    · exact untouched.queue.trans held.queue.symm
    · exact untouched.runningRound.trans held.runningRound.symm
    · exact untouched.totalCompletedRounds.trans held.totalCompletedRounds.symm
    · exact untouched.totalRuns.trans held.totalRuns.symm

end Rebuilding

section Runs
variable [SqlParser] [PlanDebug]

inductive ClusterCall where
  | master (c : MasterCall)
  | register (worker : WorkerInfo)

def ClusterCall.prog : ClusterCall → ClusterProg (Option Outcome)
  | .master c => c.prog.map some
  | .register worker => .call (.registerWorker worker) fun _ => .ret none

def clusterPool (s : ClusterState) (calls : List ClusterCall) :
    Pool clusterInterface (Option Outcome) := ⟨s, calls.map ClusterCall.prog⟩

/-- At any moment of any run a rebuilt state shows the same as the state itself exactly while
    nothing was handed out, finished or counted. -/
theorem rebuilt_shows_same_iff (masterId : String) (order : HashOrder) (calls : List ClusterCall)
    (history : List (Event clusterInterface)) (p : Pool clusterInterface (Option Outcome))
    (run : Run (clusterPool (ClusterState.new masterId order) calls) history p)
    (orders orders' : MapOrders) (capturedAt capturedAt' : Time) (order' : HashOrder) :
    ∃ s', fetchRemoteState (.ok (snapshot p.state orders capturedAt)) order' = .ok s' ∧
      (SameSnapshot (snapshot p.state orders capturedAt) (snapshot s' orders' capturedAt') ↔
        Untouched p.state) := by
  have keyed := run_keyed (new_keyed masterId order) run
  exact ⟨_, rfl, same_iff_untouched keyed orders orders' capturedAt capturedAt' order'⟩

end Runs

section Witness

def inOrder (α : Type) : Walk α := ⟨id, fun _ => List.Perm.refl _⟩

def insertionOrders : MapOrders := ⟨inOrder _, inOrder _, inOrder _⟩

def oneWorker : WorkerInfo := ⟨"w", "localhost:7071", 0, 4, 1024, .alive, []⟩

/-- A worker registers, a job of one task is submitted, and the task is handed out and done. -/
def oneJob : List ClusterCall :=
  [.register oneWorker,
    .master (.submit ⟨"test", usersSql, 1⟩ usersCatalog (drawsOf "j" "s" "t" 0)),
    .master (.assign "w"), .master (.complete ⟨"t", 100, true, none, 7, 8⟩)]

def oneJobPool : Pool clusterInterface (Option Outcome) :=
  @clusterPool usersParser noDebug (ClusterState.new "m" insertionOrder) oneJob

/-- As long as the task waits, a dashboard shows what the master does. -/
theorem waiting_job_shown : ∃ events p, oneJobPool.schedule [0, 1, 1, 1, 1, 1] = some (events, p) ∧
    ∃ s', fetchRemoteState (.ok (snapshot p.state insertionOrders 5)) insertionOrder = .ok s' ∧
      SameSnapshot (snapshot p.state insertionOrders 5) (snapshot s' insertionOrders 6) := by
  obtain ⟨events, p, ran, untouched⟩ : ∃ events p,
      oneJobPool.schedule [0, 1, 1, 1, 1, 1] = some (events, p) ∧ Untouched p.state :=
    ⟨_, _, rfl, rfl, rfl, rfl, rfl⟩
  obtain ⟨s', fetched, same⟩ := @rebuilt_shows_same_iff usersParser noDebug "m" insertionOrder
    oneJob events p (run_of_schedule ran) insertionOrders insertionOrders 5 6 insertionOrder
  exact ⟨events, p, ran, s', fetched, same.mpr untouched⟩

/-- The finished task is offered again. -/
theorem finished_task_offered :
    ¬ ∀ (masterId : String) (order : HashOrder) (calls : List ClusterCall)
      (history : List (Event clusterInterface)) (p : Pool clusterInterface (Option Outcome)),
      Run (@clusterPool usersParser noDebug (ClusterState.new masterId order) calls) history p →
      ∀ s', fetchRemoteState (.ok (snapshot p.state insertionOrders 5)) insertionOrder = .ok s' →
        SameSnapshot (snapshot p.state insertionOrders 5) (snapshot s' insertionOrders 6) := by
  intro claim
  obtain ⟨events, p, ran, empty, task⟩ : ∃ events p,
      oneJobPool.schedule [0, 1, 1, 1, 1, 1, 1, 2, 2, 2, 2, 3, 3, 3, 3, 3, 3, 3] =
        some (events, p) ∧ p.state.pending = [] ∧ (listTasks p.state).map Task.id = ["t"] :=
    ⟨_, _, rfl, rfl, rfl⟩
  have same := claim "m" insertionOrder oneJob events p (run_of_schedule ran) _ rfl
  have queue : p.state.pending = (listTasks p.state).map Task.id := by
    have keyed : AllKeyed p.state := run_keyed (new_keyed "m" insertionOrder) (run_of_schedule ran)
    exact ((same_iff_untouched keyed _ _ _ _ _).mp same).queue
  rw [empty, task] at queue
  exact nomatch queue

end Witness

end RSparkSnapshot
