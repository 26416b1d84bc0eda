import RSpark.MoveSafety

/- Interleaved submissions, assignments and completions: no update is lost in a run in which
   every write-back finds current what it was computed from. -/
namespace RSparkUpdateSafety
open RSparkSqlAst RSparkPlanner RSparkClusterState RSparkMaster RSparkMasterPhases
open RSparkWriteBacks RSparkStoreInvariant RSparkMoveSafety Calls

section Invariant
variable [SqlParser] [PlanDebug] {calls : List MasterCall}

structure Safe (calls : List MasterCall) (h : List (Event clusterInterface)) (s : ClusterState)
    (gs : List Phase) : Prop where
  size : gs.length = calls.length
  tracks : ∀ (i : Nat) g, gs[i]? = some g → ∀ c, calls[i]? = some c → Tracks c g
  recalls : ∀ (i : Nat) g, gs[i]? = some g → g.Recalls (readsOf h i)
  world : World calls s
  holds : ∀ (i : Nat) g, gs[i]? = some g → Local calls s g
  early : ∀ (i : Nat) g, gs[i]? = some g → Early s g
  ends : ∀ b, Known calls b → Done b s →
    JobDone b s ∨ ∃ (i : Nat) (g : Phase), gs[i]? = some g ∧ Carries b g

theorem safe_step (fresh : FreshDraws calls) (once : ReportedOnce calls)
    {h : List (Event clusterInterface)} {s : ClusterState} {gs : List Phase} {i : Nat} {g : Phase}
    {o : Op} (safe : Safe calls h s gs) (ghost : gs[i]? = some g) (next : g.op = some o)
    (meets : current h s i o) :
    Safe calls (h ++ [⟨i, o, (Op.exec o s).2⟩]) (Op.exec o s).1
      (gs.set i (g.next o (Op.exec o s).2)) := by
  obtain ⟨size, tracks, recalls, world, holds, early, ends⟩ := safe
  have bound := size ▸ (List.getElem?_eq_some_iff.mp ghost).1
  have here : calls[i]? = some calls[i] := List.getElem?_eq_getElem bound
  have tracked := tracks i g ghost _ here
  have own := holds i g ghost
  have unstored := early i g ghost
  have fits := current_of_reads next (recalls i g ghost) meets
  have move := op_moves next (Op.exec o s).2
  have wrote := move_wrote move s
  have permitted := move_permitted fresh once world here tracked own unstored fits move
  have grows := wrote_grows wrote permitted
  have placed := move_placed here tracked own move
  refine ⟨by simpa using size, ?_, ?_, wrote_world world wrote permitted, ?_, ?_, ?_⟩
  · refine forall_set (fun j g₂ _ found => tracks j g₂ found) fun c found => ?_
    obtain rfl := Option.some.inj (here.symm.trans found)
    exact move_tracks move tracked
  · refine forall_set (fun j g₂ other found => ?_) ?_
    · rw [readsOf_other h (e := ⟨i, o, _⟩) other]
      exact recalls j g₂ found
    · rw [readsOf_same h ⟨i, o, _⟩]
      exact move_recalls move i (recalls i g ghost)
  · refine forall_set (fun j g₂ _ found => local_grows grows (holds j g₂ found)) ?_
    exact move_local fresh once world here tracked own unstored fits move rfl wrote grows
  · refine forall_set (fun j g₂ other found => ?_) ?_
    · have boundJ := size ▸ (List.getElem?_eq_some_iff.mp found).1
      have there : calls[j]? = some calls[j] := List.getElem?_eq_getElem boundJ
      exact early_apart fresh other there (tracks j g₂ found _ there) (holds j g₂ found)
        (early j g₂ found) placed wrote
    · exact move_early fresh here tracked own unstored move rfl wrote
  · intro b known done
    have stepped : (gs.set i (g.next o (Op.exec o s).2))[i]? =
        some (g.next o (Op.exec o s).2) := by
      rw [List.getElem?_set_self (size.symm ▸ bound)]
    by_cases before : Done b s
    · rcases ends b known before with ⟨j, found, success⟩ | ⟨k, g₂, found, carries⟩
      · obtain ⟨j', found', stays⟩ := grows.jobs _ _ found
        exact Or.inl ⟨j', found', stays success⟩
      · by_cases same : i = k
        · subst same
          obtain rfl := Option.some.inj (ghost.symm.trans found)
          rcases carried_on fresh world known before own carries move rfl wrote with on | recorded
          · exact Or.inr ⟨i, _, stepped, on⟩
          · exact Or.inl recorded
        · exact Or.inr ⟨k, g₂, (List.getElem?_set_ne same).trans found, carries⟩
    · exact Or.inr ⟨i, _, stepped,
        completion_carried fresh known own unstored move wrote done before⟩

theorem safe_guarantees (fresh : FreshDraws calls) (once : ReportedOnce calls) :
    phaseProtocol.Guarantees current (Safe calls) where
  answers := fun _ _ _ _ => trivial
  preserves := fun safe ghost next meets => safe_step fresh once safe ghost next meets

theorem startPhase_cases (c : MasterCall) : (∃ b, startPhase c = .stageInsert b) ∨
    startPhase c = .refused ∨ (∃ w, startPhase c = .pop w) ∨ ∃ r, startPhase c = .find r := by
  cases c with
  | submit r catalog d =>
    simp only [startPhase]
    cases submissionOf (.submit r catalog d) with
    | none => exact Or.inr (Or.inl rfl)
    | some b => exact Or.inl ⟨b, rfl⟩
  | assign workerId => exact Or.inr (Or.inr (Or.inl ⟨workerId, rfl⟩))
  | complete r => exact Or.inr (Or.inr (Or.inr ⟨r, rfl⟩))

theorem start_phase (masterId : String) (order : HashOrder) (i : Nat) (c : MasterCall) :
    (startPhase c).Recalls (readsOf [] i) ∧
      Early (ClusterState.new masterId order) (startPhase c) := by
  rcases startPhase_cases c with ⟨b, same⟩ | same | ⟨w, same⟩ | ⟨r, same⟩
  · rw [same]
    exact ⟨⟨rfl, rfl⟩, InsertionMap.get_empty _, fun _ _ => InsertionMap.get_empty _,
      InsertionMap.get_empty _⟩
  all_goals
    rw [same]
    exact ⟨trivial, trivial⟩

theorem start_local (s : ClusterState) (c : MasterCall) : Local calls s (startPhase c) := by
  rcases startPhase_cases c with ⟨b, same⟩ | same | ⟨w, same⟩ | ⟨r, same⟩
  all_goals
    rw [same]
    exact trivial

theorem new_world (masterId : String) (order : HashOrder) :
    World calls (ClusterState.new masterId order) := by
  refine ⟨?_, ?_, ?_⟩
  · intro k t found
    exact nomatch (InsertionMap.get_empty k).symm.trans found
  · intro k st found
    exact nomatch (InsertionMap.get_empty k).symm.trans found
  · intro k j found
    exact nomatch (InsertionMap.get_empty k).symm.trans found

theorem safe_start (masterId : String) (order : HashOrder) :
    Safe calls [] (ClusterState.new masterId order) (calls.map startPhase) := by
  have start {i : Nat} {g : Phase} (found : (calls.map startPhase)[i]? = some g) :
      ∃ c, calls[i]? = some c ∧ startPhase c = g :=
    Option.map_eq_some_iff.mp (List.getElem?_map ▸ found)
  refine ⟨by simp, ?_, ?_, new_world masterId order, ?_, ?_, ?_⟩
  · intro i g found c known
    obtain ⟨c', here, rfl⟩ := start found
    obtain rfl := Option.some.inj (known.symm.trans here)
    exact start_tracks c
  · intro i g found
    obtain ⟨c, _, rfl⟩ := start found
    exact (start_phase masterId order i c).1
  · intro i g found
    obtain ⟨c, _, rfl⟩ := start found
    exact start_local _ c
  · intro i g found
    obtain ⟨c, _, rfl⟩ := start found
    exact (start_phase masterId order i c).2
  · intro b known done
    obtain ⟨id, own⟩ := List.exists_mem_of_ne_nil _ (known_ids_ne_nil known)
    obtain ⟨t, found, _⟩ := done id own
    exact nomatch (InsertionMap.get_empty id).symm.trans found

end Invariant

section Returned

def Returned (p : Pool clusterInterface Outcome) : Prop :=
  ∀ (i : Nat) prog, p.threads[i]? = some prog → ∃ out, prog = .ret out

variable {p : Pool clusterInterface Outcome} {gs : List Phase}

theorem closed_phase (fits : phaseProtocol.Matches gs p.threads) (returned : Returned p) {i : Nat}
    {g : Phase} (ghost : gs[i]? = some g) :
    ∃ out, p.threads[i]? = some (.ret out) ∧ Phase.closes g out := by
  have inside : i < p.threads.length := fits.1 ▸ (List.getElem?_eq_some_iff.mp ghost).1
  have there := List.getElem?_eq_getElem inside
  obtain ⟨out, same⟩ := returned i _ there
  rw [same] at there
  exact ⟨out, there, fits.2 i g _ ghost there⟩

theorem closed_carries_nothing {g : Phase} {out : Outcome} {b : Submission}
    (closed : Phase.closes g out) : ¬ Carries b g := by
  cases g with
  | slotRead | slotWrite | tasksRead | jobRead | jobWrite | crashed =>
    intro _
    exact closed
  | _ => exact fun carries => carries

end Returned

section Result
variable [SqlParser] [PlanDebug] {calls : List MasterCall}

def Accepted (calls : List MasterCall) (p : Pool clusterInterface Outcome) : Prop :=
  ∀ (i : Nat) r, calls[i]? = some (.complete r) → (∃ b, Known calls b ∧ r.taskId ∈ b.ids) →
    p.threads[i]? = some (.ret (.completed (.ok ())))

structure AllSettled (calls : List MasterCall) (s : ClusterState) : Prop where
  jobs : ∀ b, Known calls b → ∃ j, s.job b.jobId = some j ∧ j.status = .succeeded ∧
    j.resultRows = some (totalRows calls b)
  tasks : ∀ b, Known calls b → ∀ id ∈ b.ids, ∃ t, s.task id = some t ∧
    t.status = .succeeded ∧ t.resultRows = some (rowsFor calls id)
  recorded : ∀ b, Known calls b → ∃ st, s.stage b.stageId = some st
  stages : ∀ k st, s.stage k = some st → st.status = .succeeded ∧
    ∀ slot ∈ st.tasks, ∃ t, s.task slot.id = some t ∧ slot.status = t.status

variable {h : List (Event clusterInterface)} {p : Pool clusterInterface Outcome}
variable {gs : List Phase}

theorem ghost_of_call (safe : Safe calls h p.state gs) {i : Nat} {c : MasterCall}
    (here : calls[i]? = some c) : ∃ g, gs[i]? = some g ∧ Tracks c g := by
  have bound := safe.size.symm ▸ (List.getElem?_eq_some_iff.mp here).1
  have ghost := List.getElem?_eq_getElem bound
  exact ⟨gs[i], ghost, safe.tracks i _ ghost c here⟩

theorem submitted_of_returned (safe : Safe calls h p.state gs)
    (fits : phaseProtocol.Matches gs p.threads) (returned : Returned p) {b : Submission}
    (known : Known calls b) : Recorded p.state b := by
  obtain ⟨c, mem, made⟩ := known
  obtain ⟨i, here⟩ := List.getElem?_of_mem mem
  obtain ⟨g, ghost, tracks⟩ := ghost_of_call safe here
  obtain ⟨out, _, closed⟩ := closed_phase fits returned ghost
  have holds := safe.holds i g ghost
  cases g with
  | submitted b' =>
    obtain rfl := Option.some.inj (made.symm.trans tracks)
    exact holds
  | refused => exact absurd made (by rw [show submissionOf c = none from tracks]; simp)
  | handed | idle =>
    obtain ⟨w, rfl⟩ := tracks
    exact absurd made (by simp [submissionOf])
  | finished | missing =>
    obtain rfl := tracks
    exact absurd made (by simp [submissionOf])
  | _ => exact closed.elim

theorem finished_of_accepted (once : ReportedOnce calls) (safe : Safe calls h p.state gs)
    (fits : phaseProtocol.Matches gs p.threads) (accepted : Accepted calls p) {b : Submission}
    (known : Known calls b) {id : String} (own : id ∈ b.ids) :
    ∃ t, t.id = id ∧ GoodTask calls t ∧ Reported p.state id ∧ Slotted p.state t := by
  obtain ⟨r, mem, rfl⟩ := once.reported b known id own
  obtain ⟨i, here⟩ := List.getElem?_of_mem mem
  obtain ⟨g, ghost, tracks⟩ := ghost_of_call safe here
  have closed : Phase.closes g (.completed (.ok ())) :=
    fits.2 i g _ ghost (accepted i r here ⟨b, known, own⟩)
  have holds := safe.holds i g ghost
  cases g with
  | finished r' t =>
    obtain rfl := MasterCall.complete.inj tracks
    obtain ⟨completing, slotted⟩ := holds
    exact ⟨t, completing.named, completing.good, completing.named ▸ completing.reported, slotted⟩
  | _ => exact closed.elim

theorem done_of_accepted (once : ReportedOnce calls) (safe : Safe calls h p.state gs)
    (fits : phaseProtocol.Matches gs p.threads) (accepted : Accepted calls p) {b : Submission}
    (known : Known calls b) : Done b p.state := by
  intro id own
  obtain ⟨_, _, _, reported, _⟩ := finished_of_accepted once safe fits accepted known own
  exact reported

/-- A finished job has recorded its success, since no returned call still carries it. -/
theorem job_settled (fresh : FreshDraws calls) (safe : Safe calls h p.state gs)
    (fits : phaseProtocol.Matches gs p.threads) (returned : Returned p) {b : Submission}
    (known : Known calls b) (done : Done b p.state) : ∃ j, p.state.job b.jobId = some j ∧
      j.status = .succeeded ∧ j.resultRows = some (totalRows calls b) := by
  rcases safe.ends b known done with ⟨j, found, success⟩ | ⟨i, g, ghost, carries⟩
  · obtain ⟨_, b', known', named, rows⟩ := safe.world.jobs _ _ found
    have same := (safe.world.jobs _ _ found).1
    obtain rfl := known_of_job fresh known known' (same.symm.trans named)
    exact ⟨j, found, success, rows success⟩
  · obtain ⟨out, _, closed⟩ := closed_phase fits returned ghost
    exact absurd carries (closed_carries_nothing closed)

theorem stage_settled (fresh : FreshDraws calls) (once : ReportedOnce calls)
    (safe : Safe calls h p.state gs) (fits : phaseProtocol.Matches gs p.threads)
    (accepted : Accepted calls p) {k : String} {st : Stage} (found : p.state.stage k = some st) :
    st.status = .succeeded ∧
      ∀ slot ∈ st.tasks, ∃ t, p.state.task slot.id = some t ∧ slot.status = t.status := by
  obtain ⟨named, good, _⟩ := safe.world.stages _ _ found
  obtain ⟨b, known, stage, _, ids⟩ := good.owner
  have slots : ∀ id ∈ st.tasks.map Task.id, SlotSucceeded st id := by
    intro id mem
    obtain ⟨t, rfl, fine, _, st', found', slot⟩ :=
      finished_of_accepted once safe fits accepted known (ids ▸ mem)
    obtain ⟨b', known', own', _, stage'⟩ := fine.owner
    obtain rfl := known_of_task fresh known known' (ids ▸ mem) own'
    rw [stage', ← stage, named, found] at found'
    obtain rfl := Option.some.inj found'
    exact slot
  have all := (allSlots_iff (goodStage_distinct fresh good)).mpr slots
  refine ⟨good.consistent.mpr all, fun slot mem => ?_⟩
  have done := done_of_accepted once safe fits accepted known
  obtain ⟨t, found, success⟩ := done slot.id (ids ▸ List.mem_map_of_mem mem)
  exact ⟨t, found, (all slot mem).trans success.symm⟩

/-- When all calls of a run have returned and every write-back has found current what it was
    computed from, every success is recorded everywhere. -/
theorem no_update_lost (masterId : String) (order : HashOrder) (calls : List MasterCall)
    (fresh : FreshDraws calls) (once : ReportedOnce calls)
    (history : List (Event clusterInterface)) (p : Pool clusterInterface Outcome)
    (run : GuardedRun current (poolOf (ClusterState.new masterId order) calls) history p)
    (returned : Returned p) (accepted : Accepted calls p) : AllSettled calls p.state := by
  obtain ⟨gs, fits, safe⟩ := Protocol.guarded_rule (safe_guarantees fresh once)
    (pool_matches calls _) (safe_start masterId order) run
  have done {b : Submission} (known : Known calls b) : Done b p.state :=
    done_of_accepted once safe fits accepted known
  refine ⟨fun b known => ?_, fun b known id own => ?_, fun b known => ?_, fun k st found => ?_⟩
  · exact job_settled fresh safe fits returned known (done known)
  · obtain ⟨t, found, success⟩ := done known id own
    obtain ⟨named, good, _⟩ := safe.world.tasks _ _ found
    exact ⟨t, found, success, named ▸ good.rows success⟩
  · exact (submitted_of_returned safe fits returned known).1
  · exact stage_settled fresh once safe fits accepted found

end Result

section Witness

def twoReports : List MasterCall :=
  [.submit ⟨"test", usersSql, 2⟩ usersCatalog (drawsOf "j" "s" "t" 0),
    .complete (successOf "t" 100), .complete (successOf "t+" 50)]

def twoReportsPool : Pool clusterInterface Outcome :=
  @poolOf usersParser noDebug (ClusterState.new "m" insertionOrder) twoReports

def orderly : List Nat :=
  [0, 0, 0, 0, 0, 0, 0, 1, 2, 1, 2, 1, 1, 2, 2, 1, 1, 2, 2, 1, 2]

/-- The second report is recorded between the first one's look at the job and its update. -/
def overtaken : List Nat :=
  [0, 0, 0, 0, 0, 0, 0, 1, 1, 1, 1, 1, 1, 2, 2, 2, 2, 2, 2, 2, 1]

def usersSubmission : Submission :=
  ⟨⟨"test", usersSql, 2⟩, drawsOf "j" "s" "t" 0,
    [⟨0, "scan[users.csv]:p0"⟩, ⟨1, "scan[users.csv]:p1"⟩]⟩

theorem two_reports_fresh : @FreshDraws usersParser noDebug twoReports :=
  @FreshDraws.mk usersParser noDebug _ (by decide) (by decide) (by decide)

theorem two_reports_known {b : Submission} (known : @Known usersParser noDebug twoReports b) :
    b = usersSubmission := by
  obtain ⟨c, mem, made⟩ := known
  simp only [twoReports, List.mem_cons, List.not_mem_nil, or_false] at mem
  rcases mem with rfl | rfl | rfl
  · exact (Option.some.inj made).symm
  · exact absurd made (by simp [submissionOf])
  · exact absurd made (by simp [submissionOf])

theorem two_reports_complete {i : Nat} {r : Report}
    (here : twoReports[i]? = some (.complete r)) :
    (i = 1 ∧ r = successOf "t" 100) ∨ (i = 2 ∧ r = successOf "t+" 50) := by
  match i with
  | 0 => simp [twoReports] at here
  | 1 => exact Or.inl ⟨rfl, (MasterCall.complete.inj (Option.some.inj here)).symm⟩
  | 2 => exact Or.inr ⟨rfl, (MasterCall.complete.inj (Option.some.inj here)).symm⟩
  | n + 3 => simp [twoReports] at here

theorem two_reports_once : @ReportedOnce usersParser noDebug twoReports := by
  refine @ReportedOnce.mk usersParser noDebug _ ?_ ?_ ?_
  · intro b known id own
    obtain rfl := two_reports_known known
    have own : id ∈ ["t", "t+"] := own
    simp only [List.mem_cons, List.not_mem_nil, or_false] at own
    rcases own with rfl | rfl
    · exact ⟨successOf "t" 100, by simp [twoReports], rfl⟩
    · exact ⟨successOf "t+" 50, by simp [twoReports], rfl⟩
  · intro b _ r mem _
    obtain ⟨i, here⟩ := List.getElem?_of_mem mem
    rcases two_reports_complete here with ⟨_, rfl⟩ | ⟨_, rfl⟩ <;> rfl
  · intro b _ i j r r' here there same _
    rcases two_reports_complete here with ⟨rfl, rfl⟩ | ⟨rfl, rfl⟩ <;>
      rcases two_reports_complete there with ⟨rfl, rfl⟩ | ⟨rfl, rfl⟩
    · rfl
    · exact absurd same (by decide)
    · exact absurd same (by decide)
    · rfl

theorem returned_and_accepted {p : Pool clusterInterface Outcome} {answer : Answer Job}
    (threads : p.threads = [.ret (.submitted answer), .ret (.completed (.ok ())),
      .ret (.completed (.ok ()))]) :
    Returned p ∧ @Accepted usersParser noDebug twoReports p := by
  refine ⟨fun i prog found => ?_, fun i r here _ => ?_⟩
  · rw [threads] at found
    have mem := List.mem_of_getElem? found
    simp only [List.mem_cons, List.not_mem_nil, or_false] at mem
    rcases mem with rfl | rfl | rfl <;> exact ⟨_, rfl⟩
  · rw [threads]
    rcases two_reports_complete here with ⟨rfl, _⟩ | ⟨rfl, _⟩ <;> rfl

/-- Two reports that overlap without overtaking each other are both recorded. -/
theorem orderly_settles :
    ∃ events last, GuardedRun current twoReportsPool events last ∧
      @AllSettled usersParser noDebug twoReports last.state := by
  obtain ⟨events, last, ran, answer, threads⟩ : ∃ events last,
      twoReportsPool.schedule orderly = some (events, last) ∧ ∃ answer, last.threads =
        [.ret (.submitted answer), .ret (.completed (.ok ())), .ret (.completed (.ok ()))] :=
    ⟨_, _, rfl, _, rfl⟩
  have run : GuardedRun current twoReportsPool events last := guarded_of_schedule ran rfl
  obtain ⟨returned, accepted⟩ := returned_and_accepted threads
  exact ⟨events, last, run, @no_update_lost usersParser noDebug "m" insertionOrder twoReports
    two_reports_fresh two_reports_once events last run returned accepted⟩

/-- A job that one report finished is put back to running by the other. -/
theorem overtaken_job_lost :
    ¬ ∀ (masterId : String) (order : HashOrder) (calls : List MasterCall),
      @FreshDraws usersParser noDebug calls → @ReportedOnce usersParser noDebug calls →
      ∀ history p, Run (@poolOf usersParser noDebug (ClusterState.new masterId order) calls)
        history p → Returned p → @Accepted usersParser noDebug calls p →
        @AllSettled usersParser noDebug calls p.state := by
  intro claim
  obtain ⟨events, last, ran, ⟨answer, threads⟩, running⟩ : ∃ events last,
      twoReportsPool.schedule overtaken = some (events, last) ∧ (∃ answer, last.threads =
        [.ret (.submitted answer), .ret (.completed (.ok ())), .ret (.completed (.ok ()))]) ∧
      (last.state.job "j").map Job.status = some .running :=
    ⟨_, _, rfl, ⟨_, rfl⟩, rfl⟩
  obtain ⟨returned, accepted⟩ := returned_and_accepted threads
  have settled := claim "m" insertionOrder twoReports two_reports_fresh two_reports_once events
    last (run_of_schedule ran) returned accepted
  have known : @Known usersParser noDebug twoReports usersSubmission :=
    ⟨_, List.mem_cons_self, rfl⟩
  obtain ⟨j, found, success, _⟩ := @AllSettled.jobs usersParser noDebug _ _ settled _ known
  rw [show last.state.job "j" = some j from found] at running
  exact absurd (success.symm.trans (Option.some.inj running)) (by decide)

end Witness

end RSparkUpdateSafety
