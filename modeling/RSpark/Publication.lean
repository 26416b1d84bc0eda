import RSpark.MasterSteps
import RSpark.UpdateSafety

/- The order in which a submission publishes its stage, its tasks and its job, against
   reports that come in between. -/
namespace RSparkPublication
open RSparkSqlAst RSparkPlanner RSparkClusterState RSparkMaster RSparkMasterPhases
open RSparkMasterSteps RSparkStoreInvariant RSparkUpdateSafety Calls

section Order

/-- The job is in the map and no longer pending: its submission has written it twice. -/
def Started (s : ClusterState) (jobId : String) : Prop :=
  ∃ j ∈ s.job jobId, j.status ≠ .pending

instance (s : ClusterState) (jobId : String) : Decidable (Started s jobId) :=
  inferInstanceAs (Decidable (∃ j ∈ s.job jobId, j.status ≠ .pending))

def reportedJob : Op → Option String
  | .updateTask task => if task.status.isTerminal then some task.jobId else none
  | _ => none

def storedJob : Op → Option String
  | .insertJob j | .updateJob j => some j.id
  | _ => none

/-- The condition on the steps: a finished task is stored only for a job that has started. -/
def StartedFirst (_ : List (Event clusterInterface)) (s : ClusterState) (_ : Nat) (o : Op) :
    Prop :=
  ∀ k ∈ reportedJob o, Started s k

instance (h : List (Event clusterInterface)) (s : ClusterState) (i : Nat) (o : Op) :
    Decidable (StartedFirst h s i o) :=
  inferInstanceAs (Decidable (∀ k ∈ reportedJob o, Started s k))

def isSubmission : MasterCall → Bool
  | .submit _ _ _ => true
  | _ => false

/-- Of an earlier and a later event, the later is no submission's write of a job for which
    the earlier stored a finished task. -/
def NotOverwritten (calls : List MasterCall) (earlier later : Event clusterInterface) : Prop :=
  ∀ c ∈ calls[later.thread]?, isSubmission c = true →
    ∀ k ∈ reportedJob earlier.op, k ∉ storedJob later.op

/-- Reports find the jobs of their tasks and do not panic, and submissions overwrite no job
    of which a task was reported. -/
structure Ordered (calls : List MasterCall) (history : List (Event clusterInterface))
    (p : Pool clusterInterface Outcome) : Prop where
  found : ∀ (i : Nat) r k answer, calls[i]? = some (.complete r) →
    (⟨i, .job k, answer⟩ : Event clusterInterface) ∈ history → answer ≠ none
  standing : ∀ (i : Nat) r, calls[i]? = some (.complete r) → p.threads[i]? ≠ some .abort
  kept : history.Pairwise (NotOverwritten calls)

end Order

section Aborts

theorem rollUp_aborts {jobId : String} {now : Time} {events : List (Event clusterInterface)}
    (h : Reaches ((rollUp jobId now).map Outcome.completed) events .abort) :
    ∃ i k, (⟨i, .job k, none⟩ : Event clusterInterface) ∈ events := by
  obtain ⟨_, tasks, afterTasks, rfl, looking⟩ := reaches_abort h
  obtain ⟨i, answer, rest, rfl, found⟩ := reaches_abort looking
  cases answer with
  | none => exact ⟨i, jobId, List.mem_cons_of_mem _ List.mem_cons_self⟩
  | some job =>
    obtain ⟨_, _, rest, rfl, done⟩ := reaches_abort found
    cases reaches_ret done

theorem completeTask_aborts {r : Report} {events : List (Event clusterInterface)}
    (h : Reaches ((completeTask r).map Outcome.completed) events .abort) :
    ∃ i k, (⟨i, .job k, none⟩ : Event clusterInterface) ∈ events := by
  obtain ⟨_, answer, afterFind, rfl, found⟩ := reaches_abort h
  cases answer with
  | none => cases reaches_ret found
  | some task =>
    obtain ⟨_, _, afterUpdate, rfl, updated⟩ := reaches_abort found
    obtain ⟨_, stage, afterStage, rfl, read⟩ := reaches_abort updated
    cases stage with
    | none =>
      obtain ⟨i, k, mem⟩ := rollUp_aborts read
      exact ⟨i, k, by simp [mem]⟩
    | some stage =>
      obtain ⟨_, _, afterWrite, rfl, written⟩ := reaches_abort read
      obtain ⟨i, k, mem⟩ := rollUp_aborts written
      exact ⟨i, k, by simp [mem]⟩

variable [SqlParser] [PlanDebug] {calls : List MasterCall}

theorem looked_up_in_vain {s : ClusterState} {history : List (Event clusterInterface)}
    {p : Pool clusterInterface Outcome} (run : Run (poolOf s calls) history p) {i : Nat}
    {r : Report} (here : calls[i]? = some (.complete r))
    (aborted : p.threads[i]? = some .abort) :
    ∃ k, (⟨i, .job k, none⟩ : Event clusterInterface) ∈ history := by
  have start : (poolOf s calls).threads[i]? = some ((completeTask r).map Outcome.completed) :=
    (List.getElem?_map ..).trans (congrArg (Option.map MasterCall.prog) here)
  obtain ⟨q, now, reached⟩ := run_reaches run start
  obtain rfl := Option.some.inj (now.symm.trans aborted)
  obtain ⟨j, k, among⟩ := completeTask_aborts reached
  obtain ⟨mem, own⟩ := List.mem_filter.mp among
  exact ⟨k, of_decide_eq_true own ▸ mem⟩

end Aborts

section Steps
variable {calls : List MasterCall} {s s' : ClusterState}

def Finds (s : ClusterState) : Phase → Prop
  | .stageInsert b | .stageRead b | .taskInsert b _ => s.job b.jobId = none
  | .jobStart b => s.job b.jobId = some b.plannedJob
  | .slotRead _ t | .slotWrite _ t _ | .tasksRead _ t | .jobRead _ t _ => Started s t.jobId
  | .jobWrite _ t _ j => Started s t.jobId ∧ j.id = t.jobId ∧ j.status ≠ .pending
  | _ => True

theorem not_started_absent {k : String} (absent : s.job k = none) : ¬ Started s k := by
  rintro ⟨j, found, _⟩
  exact absurd (absent.symm.trans found) (by simp)

theorem not_started_planned {b : Submission} (planned : s.job b.jobId = some b.plannedJob) :
    ¬ Started s b.jobId := by
  rintro ⟨j, found, waiting⟩
  obtain rfl := Option.some.inj (planned.symm.trans found)
  exact waiting rfl

theorem rolledUp_moved {j : Job} (tasks : List Task) (now : Time) (moved : j.status ≠ .pending) :
    (Job.rolledUp j tasks now).status ≠ .pending := by
  rw [rolledUp_status]
  split
  · exact nofun
  · split
    · exact nofun
    · exact moved

theorem storedJob_write {g g' : Phase} {o : Op} {answer : o.Resp} {w : Write}
    (move : Move g o answer g' w) {k : String} (stored : k ∈ storedJob o) :
    ∃ j, w = .job j ∧ j.id = k := by
  cases move with
  | jobInsert | jobStart | jobWrite => exact ⟨_, rfl, Option.some.inj stored⟩
  | _ => exact nomatch stored

theorem keyed_step {s s' : ClusterState} {w : Write} (wrote : Wrote w s s')
    (keyed : ∀ k j, s.job k = some j → j.id = k) : ∀ k j, s'.job k = some j → j.id = k := by
  intro k j found
  rw [wrote.job] at found
  cases w with
  | job new =>
    simp only [Write.onJob] at found
    split at found
    · rename_i same
      exact (Option.some.inj found) ▸ same.symm
    · exact keyed k j found
  | _ => exact keyed k j found

variable [SqlParser] [PlanDebug]

/-- A job is written by its own submission before it has started, and by a report after. -/
inductive JobWrite (c : MasterCall) (s : ClusterState) (j : Job) : Prop where
  | own (b : Submission) (made : submissionOf c = some b) (same : j.id = b.jobId)
      (early : ¬ Started s b.jobId)
  | later (r : Report) (call : c = .complete r) (started : Started s j.id)
      (moved : j.status ≠ .pending)

theorem move_jobWrite {c : MasterCall} {g g' : Phase} {o : Op} {answer : o.Resp} {j : Job}
    (move : Move g o answer g' (.job j)) (tracks : Tracks c g) (finds : Finds s g) :
    JobWrite c s j := by
  cases move with
  | jobInsert b => exact .own b tracks rfl (not_started_absent finds)
  | jobStart b => exact .own b tracks rfl (not_started_planned finds)
  | jobWrite r t tasks job =>
    obtain ⟨started, named, moved⟩ := finds
    refine .later r tracks ?_ (rolledUp_moved tasks r.rolledUpAt moved)
    rw [rolledUp_id, named]
    exact started

variable {i : Nat} {c : MasterCall} {g g' : Phase} {o : Op} {answer : o.Resp} {w : Write}

theorem started_stays (move : Move g o answer g' w) (tracks : Tracks c g) (finds : Finds s g)
    (wrote : Wrote w s s') {k : String} (started : Started s k) : Started s' k := by
  obtain ⟨j, found, moved⟩ := started
  cases w with
  | job new =>
    by_cases same : k = new.id
    · cases move_jobWrite move tracks finds with
      | own b _ named early => exact absurd ⟨j, same.trans named ▸ found, moved⟩ early
      | later _ _ _ advanced =>
        exact ⟨new, (wrote.job k).trans (if_pos same), advanced⟩
    · exact ⟨j, (wrote.job k).trans ((if_neg same).trans found), moved⟩
  | _ => exact ⟨j, (wrote.job k).trans found, moved⟩

theorem unstarted_stays (fresh : FreshDraws calls) (here : calls[i]? = some c)
    (move : Move g o answer g' w) (tracks : Tracks c g) (finds : Finds s g)
    (wrote : Wrote w s s') {j : Nat} (other : i ≠ j) {c' : MasterCall}
    (there : calls[j]? = some c') {b : Submission} (made : submissionOf c' = some b)
    (early : ¬ Started s b.jobId) : s'.job b.jobId = s.job b.jobId := by
  rw [wrote.job]
  cases w with
  | job new =>
    refine if_neg fun same => ?_
    cases move_jobWrite move tracks finds with
    | own b' made' named _ =>
      exact other (known_job_unique fresh here there made' made (named.symm.trans same.symm))
    | later _ _ started _ => exact early (same ▸ started)
  | _ => rfl

theorem finds_apart (fresh : FreshDraws calls) (here : calls[i]? = some c)
    (move : Move g o answer g' w) (tracks : Tracks c g) (finds : Finds s g)
    (wrote : Wrote w s s') {j : Nat} (other : i ≠ j) {c' : MasterCall}
    (there : calls[j]? = some c') {g₂ : Phase} (tracks₂ : Tracks c' g₂) (finds₂ : Finds s g₂) :
    Finds s' g₂ := by
  cases g₂ with
  | stageInsert b | stageRead b | taskInsert b todo =>
    exact (unstarted_stays fresh here move tracks finds wrote other there tracks₂
      (not_started_absent finds₂)).trans finds₂
  | jobStart b =>
    exact (unstarted_stays fresh here move tracks finds wrote other there tracks₂
      (not_started_planned finds₂)).trans finds₂
  | slotRead r t | slotWrite r t st | tasksRead r t | jobRead r t tasks =>
    exact started_stays move tracks finds wrote finds₂
  | jobWrite r t tasks job =>
    exact ⟨started_stays move tracks finds wrote finds₂.1, finds₂.2⟩
  | _ => exact trivial

theorem move_finds (move : Move g o answer g' w) (tracks : Tracks c g) (finds : Finds s g)
    (meets : ∀ k ∈ reportedJob o, Started s k) (answered : (Op.exec o s).2 = answer)
    (keyed : ∀ k j, s.job k = some j → j.id = k) (wrote : Wrote w s s') : Finds s' g' := by
  have stays {k : String} (started : Started s k) : Started s' k :=
    started_stays move tracks finds wrote started
  cases move with
  | stageInsert b | stageFound b stage | taskInsert b task rest =>
    exact (wrote.job _).trans finds
  | jobInsert b => exact (wrote.job _).trans (if_pos rfl)
  | report r t =>
    exact stays (meets t.jobId (if_pos (withReport_done t r)))
  | slotFound r t stage | slotLost r t | slotWrite r t stage | tasksRead r t tasks =>
    exact stays finds
  | jobFound r t tasks job =>
    obtain ⟨j, found, moved⟩ := finds
    obtain rfl := Option.some.inj (found.symm.trans answered)
    exact ⟨stays ⟨j, found, moved⟩, keyed _ _ found, moved⟩
  | _ => exact trivial

end Steps

section Invariant
variable [SqlParser] [PlanDebug] {calls : List MasterCall}

/-- What holds after every run in which tasks are reported of started jobs only. -/
structure InOrder (calls : List MasterCall) (h : List (Event clusterInterface))
    (s : ClusterState) (gs : List Phase) : Prop where
  size : gs.length = calls.length
  tracks : ∀ (i : Nat) g, gs[i]? = some g → ∀ c, calls[i]? = some c → Tracks c g
  keyed : ∀ k j, s.job k = some j → j.id = k
  finds : ∀ (i : Nat) g, gs[i]? = some g → Finds s g
  reported : ∀ e ∈ h, ∀ k ∈ reportedJob e.op, Started s k
  found : ∀ (i : Nat) r k answer, calls[i]? = some (.complete r) →
    (⟨i, .job k, answer⟩ : Event clusterInterface) ∈ h → answer ≠ none
  kept : h.Pairwise (NotOverwritten calls)

theorem lookup_answered {s : ClusterState} {r : Report} {g g' : Phase} {k : String}
    {answer : Option Job} {w : Write} (move : Move g (.job k) answer g' w)
    (tracks : Tracks (.complete r) g) (finds : Finds s g) : s.job k ≠ none := by
  cases move with
  | jobShow b => exact absurd tracks (by simp [Tracks, submissionOf])
  | jobFound r t tasks job => exact fun absent => not_started_absent absent finds
  | jobLost r t tasks => exact fun absent => not_started_absent absent finds

theorem inOrder_step (fresh : FreshDraws calls) {h : List (Event clusterInterface)}
    {s : ClusterState} {gs : List Phase} {i : Nat} {g : Phase} {o : Op}
    (ordered : InOrder calls h s gs) (ghost : gs[i]? = some g) (next : g.op = some o)
    (meets : StartedFirst h s i o) :
    InOrder calls (h ++ [⟨i, o, (Op.exec o s).2⟩]) (Op.exec o s).1
      (gs.set i (g.next o (Op.exec o s).2)) := by
  obtain ⟨size, tracks, keyed, finds, reported, found, kept⟩ := ordered
  have bound := size ▸ (List.getElem?_eq_some_iff.mp ghost).1
  have here : calls[i]? = some calls[i] := List.getElem?_eq_getElem bound
  have tracked := tracks i g ghost _ here
  have own := finds i g ghost
  have move := op_moves next (Op.exec o s).2
  have wrote := move_wrote move s
  have stays {k : String} (started : Started s k) : Started (Op.exec o s).1 k :=
    started_stays move tracked own wrote started
  refine ⟨by simpa using size, ?_, keyed_step wrote keyed, ?_, ?_, ?_, ?_⟩
  · refine forall_set (fun j g₂ _ there => tracks j g₂ there) fun c there => ?_
    obtain rfl := Option.some.inj (here.symm.trans there)
    exact move_tracks move tracked
  · refine forall_set (fun j g₂ other there => ?_) ?_
    · have boundJ := size ▸ (List.getElem?_eq_some_iff.mp there).1
      have call : calls[j]? = some calls[j] := List.getElem?_eq_getElem boundJ
      exact finds_apart fresh here move tracked own wrote other call (tracks j g₂ there _ call)
        (finds j g₂ there)
    · exact move_finds move tracked own meets rfl keyed wrote
  · intro e mem k finished
    rcases List.mem_append.mp mem with before | now
    · exact stays (reported e before k finished)
    · obtain rfl := List.mem_singleton.mp now
      exact stays (meets k finished)
  · intro j r k answer call mem
    rcases List.mem_append.mp mem with before | now
    · exact found j r k answer call before
    · cases List.mem_singleton.mp now
      obtain same := Option.some.inj (here.symm.trans call)
      exact lookup_answered move (same ▸ tracked) own
  · refine List.pairwise_append.mpr ⟨kept, List.pairwise_singleton _ _, ?_⟩
    intro e before later now c call submits k finished stored
    obtain rfl := List.mem_singleton.mp now
    obtain ⟨j, writes, rfl⟩ := storedJob_write move stored
    obtain rfl := Option.some.inj (here.symm.trans call)
    cases move_jobWrite (writes ▸ move) tracked own with
    | own b _ named early => exact early (named ▸ reported e before _ finished)
    | later r same _ _ => exact absurd submits (by simp [same, isSubmission])

theorem inOrder_guarantees (fresh : FreshDraws calls) :
    phaseProtocol.Guarantees StartedFirst (InOrder calls) where
  answers := fun _ _ _ _ => trivial
  preserves := fun ordered ghost next meets => inOrder_step fresh ordered ghost next meets

theorem inOrder_start (masterId : String) (order : HashOrder) :
    InOrder calls [] (ClusterState.new masterId order) (calls.map startPhase) := by
  have start {i : Nat} {g : Phase} (there : (calls.map startPhase)[i]? = some g) :
      ∃ c, calls[i]? = some c ∧ startPhase c = g :=
    Option.map_eq_some_iff.mp (List.getElem?_map ▸ there)
  refine ⟨by simp, ?_, ?_, ?_, fun e mem => (nomatch mem), ?_, .nil⟩
  · intro i g there c known
    obtain ⟨c', call, rfl⟩ := start there
    obtain rfl := Option.some.inj (known.symm.trans call)
    exact start_tracks c
  · intro k j stored
    exact nomatch (InsertionMap.get_empty k).symm.trans stored
  · intro i g there
    obtain ⟨c, _, rfl⟩ := start there
    rcases startPhase_cases c with ⟨b, same⟩ | same | ⟨w, same⟩ | ⟨r, same⟩
    · rw [same]
      exact InsertionMap.get_empty _
    all_goals
      rw [same]
      exact trivial
  · intro i r k answer _ mem
    exact absurd mem List.not_mem_nil

/-- In a run in which finished tasks are stored for started jobs only, no report panics and
    no submission overwrites a job of which a task was reported. -/
theorem published_in_order (masterId : String) (order : HashOrder) (calls : List MasterCall)
    (fresh : FreshDraws calls) (history : List (Event clusterInterface))
    (p : Pool clusterInterface Outcome)
    (run : GuardedRun StartedFirst (poolOf (ClusterState.new masterId order) calls) history p) :
    Ordered calls history p := by
  obtain ⟨gs, _, ordered⟩ := Protocol.guarded_rule (inOrder_guarantees fresh)
    (pool_matches calls (ClusterState.new masterId order)) (inOrder_start masterId order) run
  refine ⟨ordered.found, fun i r call aborted => ?_, ordered.kept⟩
  obtain ⟨k, mem⟩ := looked_up_in_vain (run_of_guarded run) call aborted
  exact ordered.found i r k none call mem rfl

end Invariant

section Witness

/-- Two reports that come after the submission is over. -/
theorem orderly_published :
    ∃ events last, GuardedRun StartedFirst twoReportsPool events last ∧
      @Ordered twoReports events last := by
  obtain ⟨events, last, ran⟩ : ∃ events last,
      twoReportsPool.schedule orderly = some (events, last) := ⟨_, _, rfl⟩
  have run : GuardedRun StartedFirst twoReportsPool events last := guarded_of_schedule ran rfl
  exact ⟨events, last, run, @published_in_order usersParser noDebug "m" insertionOrder twoReports
    two_reports_fresh events last run⟩

def hasty : List Nat := [0, 0, 0, 1, 1, 1, 1, 1, 1]

/-- A task is in the map, and can be polled and reported, before its job is; the report
    looks the job up in vain and panics. -/
theorem hasty_report_panics :
    ¬ ∀ (masterId : String) (order : HashOrder) (calls : List MasterCall),
      @FreshDraws usersParser noDebug calls → ∀ history p,
      Run (@poolOf usersParser noDebug (ClusterState.new masterId order) calls) history p →
      Ordered calls history p := by
  intro claim
  obtain ⟨events, last, ran, aborted⟩ : ∃ events last,
      twoReportsPool.schedule hasty = some (events, last) ∧ last.threads[1]? = some .abort :=
    ⟨_, _, rfl, rfl⟩
  have ordered := claim "m" insertionOrder twoReports two_reports_fresh events last
    (run_of_schedule ran)
  exact ordered.standing 1 (successOf "t" 100) rfl aborted

end Witness

end RSparkPublication
