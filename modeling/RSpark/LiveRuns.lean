import RSpark.Custody

/- What holds in every state that live handlers and workers can reach, one lock after the
   other. -/
namespace RSparkLiveRuns
open RSparkClusterState RSparkMaster RSparkMasterPhases RSparkSnapshot RSparkLocks
open RSparkOwnership RSparkCustody Calls

section Answers
variable {subs : List Submission} {h : List LockEvent} {s : ClusterState} {gs : List Seat}
  {i : Nat} {g : Seat}

theorem by_task (roster : Roster subs) {b b' : Submission} {t t' : Task} (known : b ∈ subs)
    (known' : b' ∈ subs) (mem : t ∈ b.tasks) (mem' : t' ∈ b'.tasks) (same : t.id = t'.id) :
    t = t' := by
  have nodup : ((subs.flatMap Submission.tasks).map Task.id).Nodup := by
    rw [List.map_flatMap]
    exact roster.ids
  exact List.inj_on_of_nodup_map nodup (List.mem_flatMap.mpr ⟨b, known, mem⟩)
    (List.mem_flatMap.mpr ⟨b', known', mem'⟩) same

theorem stored_same (roster : Roster subs) (contents : Contents subs s gs) {b : Submission}
    (known : b ∈ subs) {t₀ t : Task} (mem : t₀ ∈ b.tasks) (stored : s.task t₀.id = some t) :
    SameTask t₀ t := by
  obtain ⟨named, b', known', t', mem', same⟩ := contents.tasks t₀.id t stored
  obtain rfl := by_task roster known known' mem mem' (named.symm.trans same.id)
  exact same

theorem stored_stage (roster : Roster subs) (contents : Contents subs s gs) {b : Submission}
    (known : b ∈ subs) {st : Stage} (stored : s.stage b.stageId = some st) :
    st.id = b.stageId ∧ st.jobId = b.jobId ∧ st.tasks.map Task.id = b.ids := by
  obtain ⟨named, b', known', id, ofJob, ids⟩ := contents.stages b.stageId st stored
  obtain rfl := roster.by_stage known known' (named.symm.trans id)
  exact ⟨named, ofJob, ids⟩

theorem stages_listed (contents : Contents subs s gs) (order : Walk Stage) (jobId : String) :
    ((RSparkLocks.stagesForJob s jobId order).map Stage.id).Nodup := by
  have keyed : s.stages.Keyed Stage.id := fun k st found => (contents.stages k st found).1
  have all : (s.stages.values.map Stage.id).Nodup :=
    InsertionMap.Keyed.values_keys keyed ▸ s.stages.nodupKeys
  have part := (List.filter_sublist (l := order.walk s.stages.values)
    (p := (·.jobId = jobId))).map Stage.id
  exact part.nodup (((order.rearranges _).map Stage.id).nodup_iff.mpr all)

theorem stages_answer (roster : Roster subs) (contents : Contents subs s gs) (order : Walk Stage)
    {b : Submission} (known : b ∈ subs) (complete : Complete s b) :
    (RSparkLocks.stagesForJob s b.jobId order).map Stage.id = [b.stageId] ∧
      ∀ st ∈ RSparkLocks.stagesForJob s b.jobId order, StageOf subs st := by
  have listed {st : Stage} (mem : st ∈ RSparkLocks.stagesForJob s b.jobId order) :
      StageOf subs st ∧ st.jobId = b.jobId := by
    obtain ⟨inside, ofJob⟩ := List.mem_filter.mp mem
    obtain ⟨k, stored⟩ := (InsertionMap.mem_values_iff _ _).mp
      ((order.rearranges _).mem_iff.mp inside)
    exact ⟨(contents.stages k st stored).2, by simpa using ofJob⟩
  refine ⟨List.perm_singleton.mp ?_, fun st mem => (listed mem).1⟩
  refine (List.perm_ext_iff_of_nodup (stages_listed contents order b.jobId)
    (List.nodup_singleton _)).mpr fun id => ?_
  rw [List.mem_singleton]
  constructor
  · intro mem
    obtain ⟨st, inside, rfl⟩ := List.mem_map.mp mem
    obtain ⟨⟨b', known', id, ofJob, _⟩, same⟩ := listed inside
    obtain rfl := roster.by_job known' known (ofJob.symm.trans same)
    exact id
  · rintro rfl
    obtain ⟨st, stored⟩ := Option.isSome_iff_exists.mp complete.1
    obtain ⟨named, ofJob, _⟩ := stored_stage roster contents known stored
    refine List.mem_map.mpr ⟨st, List.mem_filter.mpr ⟨?_, by simpa using ofJob⟩, named⟩
    exact (order.rearranges _).mem_iff.mpr ((InsertionMap.mem_values_iff _ _).mpr ⟨_, stored⟩)

theorem tasks_answer (roster : Roster subs) (contents : Contents subs s gs) {b : Submission}
    (known : b ∈ subs) (complete : Complete s b) :
    ((s.tasksForJob b.jobId).map Task.id).Perm b.ids ∧
      ∀ t ∈ s.tasksForJob b.jobId, Submitted subs t := by
  have keyed : TasksKeyed s := fun k t found => (contents.tasks k t found).1
  have submitted {t : Task} (mem : t ∈ s.tasksForJob b.jobId) : Submitted subs t :=
    (contents.tasks _ t ((mem_tasksForJob_iff keyed).mp mem).1).2
  have nodup : b.ids.Nodup := (List.nodup_flatMap.mp roster.ids).1 b known
  refine ⟨?_, fun t mem => submitted mem⟩
  refine (List.perm_ext_iff_of_nodup (tasksForJob_ids_nodup keyed b.jobId) nodup).mpr fun id => ?_
  constructor
  · intro mem
    obtain ⟨t, inside, rfl⟩ := List.mem_map.mp mem
    obtain ⟨b', known', t₀, mem₀, same⟩ := submitted inside
    have ofJob : t₀.jobId = b.jobId :=
      same.jobId.symm.trans ((mem_tasksForJob_iff keyed).mp inside).2
    obtain rfl := roster.by_job known' known
      ((RSparkWriteBacks.new_task mem₀).2.1.symm.trans ofJob)
    exact same.id ▸ List.mem_map_of_mem mem₀
  · intro mem
    obtain ⟨t₀, mem₀, rfl⟩ := List.mem_map.mp mem
    obtain ⟨t, stored⟩ := Option.isSome_iff_exists.mp (complete.2 t₀ mem₀)
    have same := stored_same roster contents known mem₀ stored
    refine List.mem_map.mpr ⟨t, (mem_tasksForJob_iff keyed).mpr ⟨?_, ?_⟩, same.id⟩
    · rw [same.id]
      exact stored
    · exact same.jobId.trans (RSparkWriteBacks.new_task mem₀).2.1

theorem live_counts (roster : Roster subs) (live : Live subs h s gs) (ghost : gs[i]? = some g)
    {o : LockOp} (allowed : Allowed subs g o) : Counts subs g o (o.exec s).2 := by
  have fits := live.fits ghost
  have contents := live.contents
  cases o with
  | tasksGet taskId =>
    obtain ⟨hand, seen⟩ := g
    cases hand with
    | popped own =>
      obtain rfl : taskId = own := allowed
      obtain ⟨t, stored, waiting⟩ := fits.hand
      obtain ⟨named, submitted⟩ := contents.tasks taskId t stored
      exact ⟨t, stored, named, submitted, waiting⟩
    | holding task =>
      rintro rfl
      exact fits.hand
    | _ => exact trivial
  | stagesGet stageId =>
    refine ⟨fun st found => contents.stages stageId st found, ?_⟩
    rintro b staged rfl
    have hand := fits.hand
    rw [staged] at hand
    exact hand.2.2
  | jobsGet jobId => exact fun job found => (contents.jobs jobId job found).1
  | stagesList order =>
    intro job seen stageId inside
    obtain ⟨b, known, rfl, ofJob, complete⟩ := fits.jobs job seen stageId inside
    obtain ⟨st, stored⟩ := Option.isSome_iff_exists.mp complete.1
    obtain ⟨named, inJob, ids⟩ := stored_stage roster contents known stored
    refine ⟨st, ?_, named, inJob.trans ofJob, b, known, named, inJob, ids⟩
    exact (order.rearranges _).mem_iff.mpr ((InsertionMap.mem_values_iff _ _).mpr ⟨_, stored⟩)
  | tasksList =>
    intro job seen b known inside t₀ mem
    obtain ⟨b', known', same, _, complete⟩ := fits.jobs job seen b.stageId inside
    obtain rfl := roster.by_stage known' known same
    obtain ⟨t, stored⟩ := Option.isSome_iff_exists.mp (complete.2 t₀ mem)
    refine ⟨t, ?_, stored_same roster contents known mem stored⟩
    exact (s.order.rearranges _).mem_iff.mpr ((InsertionMap.mem_values_iff _ _).mpr ⟨_, stored⟩)
  | stagesForJob jobId order =>
    rintro b hand rfl
    have filled := fits.hand
    rw [hand] at filled
    exact stages_answer roster contents order filled.1 filled.2.1.complete
  | tasksForJob jobId =>
    rintro b hand rfl
    have filled := fits.hand
    rw [hand] at filled
    exact tasks_answer roster contents filled.1 filled.2.1.complete
  | _ => exact trivial

theorem live_guarantees (roster : Roster subs) :
    (ownership subs).Guarantees (fun _ _ _ _ => True) (Live subs) where
  answers live ghost allowed _ := live_counts roster live ghost allowed
  preserves live ghost allowed _ := live_step roster live ghost allowed

end Answers

section Turns

def TurnEnd.task : TurnEnd → Option Task
  | .idle => none
  | .silent task => some task
  | .reported task _ _ => some task

def TurnEnd.record : TurnEnd → Option Task
  | .idle => none
  | .silent task => some task
  | .reported task posted _ => some (Task.withReport task (posted.report task.id))

theorem turn_holds {subs : List Submission} {gs : List Seat}
    {p : LockPool} (fits : (ownership subs).Matches gs p.threads) {i : Nat} {result : TurnEnd}
    {task : Task}
    (there : p.threads[i]? = some (.ret (.turned result)))
    (given : TurnEnd.task result = some task) :
    ∃ (g : Seat) (done : Task), gs[i]? = some g ∧ g.hand = .holding done ∧
      TurnEnd.record result = some done ∧ done.id = task.id ∧ task.status = .assigned ∧
      Submitted subs task := by
  obtain ⟨g, ghost, _, ends⟩ := Protocol.matches_ghost fits there
  cases result with
  | idle => exact absurd given (by simp [TurnEnd.task])
  | silent task' =>
    obtain rfl := Option.some.inj given
    exact ⟨g, task', ghost, ends.1, rfl, rfl, ends.2⟩
  | reported task' posted answer =>
    obtain rfl := Option.some.inj given
    exact ⟨g, _, ghost, ends.1, rfl, rfl, ends.2.2⟩

end Turns

section Forwards

def Forward (s s' : ClusterState) : Prop :=
  ∀ k t, s.task k = some t → ∃ t', s'.task k = some t' ∧ (t' = t ∨ Advance t t')

theorem Forward.refl (s : ClusterState) : Forward s s := fun _ t found => ⟨t, found, Or.inl rfl⟩

theorem Forward.trans {a b c : ClusterState} (one : Forward a b) (two : Forward b c) :
    Forward a c := by
  intro k t found
  obtain ⟨t', found', first⟩ := one k t found
  obtain ⟨t'', found'', second⟩ := two k t' found'
  refine ⟨t'', found'', ?_⟩
  rcases first with rfl | first
  · exact second
  · rcases second with rfl | second
    · exact Or.inr first
    · exact Or.inr ⟨first.same.trans second.same, first.further.trans second.further⟩

theorem forward_of_tasks {s s' : ClusterState} (tasks : s'.tasks = s.tasks) : Forward s s' := by
  intro k t found
  refine ⟨t, ?_, Or.inl rfl⟩
  rw [ClusterState.task, tasks]
  exact found

theorem step_forward {subs : List Submission} {h : List LockEvent} {s : ClusterState}
    {gs : List Seat} {i : Nat} {g : Seat} {o : LockOp} (live : Live subs h s gs)
    (ghost : gs[i]? = some g) (allowed : Allowed subs g o) : Forward s (o.exec s).1 := by
  cases o with
  | tasksInsert t =>
    intro k u found
    show ∃ t', ({ s with tasks := s.tasks.insert t.id t } : ClusterState).task k = some t' ∧ _
    rw [get_task]
    split
    · rename_i here
      refine ⟨t, rfl, ?_⟩
      have hand := (live.fits ghost).hand
      obtain ⟨hand', seen⟩ := g
      cases hand' with
      | filling b todo =>
        cases todo with
        | nil => exact absurd allowed (by simp [Allowed])
        | cons first todo =>
          obtain rfl : t = first := allowed
          have absent := hand.2.2 t List.mem_cons_self
          rw [← here, found] at absent
          exact absurd absent (by simp)
      | holding old =>
        have advance : Advance old t := allowed
        have stored : s.task old.id = some old := hand
        rw [← advance.same.id, ← here, found] at stored
        obtain rfl := Option.some.inj stored
        exact Or.inr advance
      | _ => exact absurd allowed (by simp [Allowed])
    · exact ⟨u, found, Or.inl rfl⟩
  | workersTouch workerId now =>
    refine forward_of_tasks ?_
    simp only [LockOp.exec, RSparkLocks.updateWorkerHeartbeat]
    split <;> rfl
  | _ => exact forward_of_tasks rfl

end Forwards

theorem seatOf_owns (made : Option Submission) :
    (seatOf made).hand.owns = made.toList.flatMap Submission.ids := by
  cases made <;> simp [seatOf, Hand.owns]

theorem seatOf_unqueued (made : Option Submission) :
    (seatOf made).hand.unqueued = (seatOf made).hand.owns := by
  cases made <;> rfl

section Runs
open RSparkExpr RSparkSqlAst RSparkPlanner RSparkExecutor
variable [Regex] [SqlParser] [PlanDebug] {calls : List LiveCall} {masterId : String}
  {order : HashOrder} {history more : List LockEvent} {p q : LockPool}

omit [Regex] in
theorem start_owns (calls : List LiveCall) :
    ((calls.map startSeat).flatMap fun g => g.hand.owns) =
      (submissionsOf calls).flatMap Submission.ids := by
  induction calls with
  | nil => rfl
  | cons c calls ih =>
    rw [List.map_cons, List.flatMap_cons, ih, startSeat, seatOf_owns, submissionsOf]
    cases made : c.submission <;> simp [made, submissionsOf]

omit [Regex] in
theorem start_seat {c : LiveCall} (member : c ∈ calls) :
    Fits (submissionsOf calls) (ClusterState.new masterId order) (startSeat c) := by
  unfold startSeat
  cases made : c.submission with
  | none => exact ⟨trivial, fun _ mem => absurd mem List.not_mem_nil⟩
  | some b =>
    refine ⟨⟨List.mem_filterMap.mpr ⟨c, member, made⟩, fun _ _ => rfl⟩, ?_⟩
    exact fun _ mem => absurd mem List.not_mem_nil

omit [Regex] in
theorem start_empty (c : LiveCall) :
    (startSeat c).hand.held = none ∧ (startSeat c).hand.owes = false := by
  unfold startSeat
  cases c.submission <;> exact ⟨rfl, rfl⟩

omit [Regex] in
theorem start_live (masterId : String) (order : HashOrder) (distinct : DistinctDraws calls) :
    Live (submissionsOf calls) [] (ClusterState.new masterId order) (calls.map startSeat) := by
  have seat (i : Nat) (g : Seat) (there : (calls.map startSeat)[i]? = some g) :
      ∃ c ∈ calls, startSeat c = g :=
    List.mem_map.mp (List.mem_of_getElem? there)
  refine ⟨⟨?_, rfl, ?_, ?_, ?_⟩, ⟨?_, ?_, ?_, ?_, ?_, ?_⟩⟩
  · have all : ((calls.map startSeat).flatMap fun g => g.hand.unqueued) =
        (calls.map startSeat).flatMap fun g => g.hand.owns := by
      refine List.flatMap_congr fun g mem => ?_
      obtain ⟨c, _, rfl⟩ := List.mem_map.mp mem
      exact seatOf_unqueued c.submission
    rw [all, start_owns]
    exact List.Perm.refl _
  · rw [start_owns]
    exact distinct.tasks
  · have none : ((calls.map startSeat).flatMap fun g => g.hand.held.toList) = [] := by
      refine List.flatMap_eq_nil_iff.mpr fun g mem => ?_
      obtain ⟨c, _, rfl⟩ := List.mem_map.mp mem
      rw [(start_empty c).1]
      rfl
    rw [none]
    exact List.Perm.refl _
  · intro i g taskId there
    obtain ⟨c, _, rfl⟩ := seat i g there
    rw [(start_empty c).1]
    simp
  · exact fun _ mem => absurd mem List.not_mem_nil
  · exact fun _ _ found => nomatch found
  · exact fun _ _ found => nomatch found
  · exact fun _ _ found => nomatch found
  · intro i g there
    obtain ⟨c, member, rfl⟩ := seat i g there
    exact start_seat member
  · have none : (calls.map startSeat).countP (·.hand.owes) = 0 := by
      refine List.countP_eq_zero.mpr fun g mem => ?_
      obtain ⟨c, _, rfl⟩ := List.mem_map.mp mem
      rw [(start_empty c).2]
      exact Bool.false_ne_true
    rw [none]
    rfl

theorem run_live (distinct : DistinctDraws calls)
    (run : Run (livePool masterId order calls) history p) :
    ∃ gs, (ownership (submissionsOf calls)).Matches gs p.threads ∧
      Live (submissionsOf calls) history p.state gs :=
  Protocol.run_rule (live_guarantees distinct.roster) (live_matches masterId order calls)
    (start_live masterId order distinct) run

structure TakenOnce (subs : List Submission) (history : List LockEvent) (p : LockPool) : Prop where
  queue : poppedIds history ++ p.state.pending = pushedIds history
  distinct : (pushedIds history).Nodup
  idle : ∀ (i : Nat), p.threads[i]? = some (.ret (.turned .idle)) →
    ∀ e ∈ history, e.thread = i → poppedId e = none
  once : ∀ (i j : Nat) (one two : TurnEnd) (t t' : Task),
    p.threads[i]? = some (.ret (.turned one)) → p.threads[j]? = some (.ret (.turned two)) →
    TurnEnd.task one = some t → TurnEnd.task two = some t' → t.id = t'.id → i = j
  given : ∀ (i : Nat) (result : TurnEnd) (t : Task),
    p.threads[i]? = some (.ret (.turned result)) → TurnEnd.task result = some t →
    t.id ∈ poppedIds history ∧ t.status = .assigned ∧ Submitted subs t ∧
      p.state.task t.id = TurnEnd.record result

/-- However handlers and workers take the locks: the queue is first in, first out and loses
    nothing, no two turns are given one task, and what is recorded in the end is what the one
    turn that was given the task has reported. -/
theorem tasks_taken_once (masterId : String) (order : HashOrder) (calls : List LiveCall)
    (distinct : DistinctDraws calls) (history : List LockEvent) (p : LockPool)
    (run : Run (livePool masterId order calls) history p) :
    TakenOnce (submissionsOf calls) history p := by
  obtain ⟨gs, fits, live⟩ := run_live distinct run
  have custody := live.custody
  refine ⟨custody.queue, custody.pushed_nodup, ?_, ?_, ?_⟩
  · intro i there e mem thread
    obtain ⟨g, ghost, _, free⟩ := Protocol.matches_ghost fits there
    by_contra taken
    obtain ⟨taskId, popped⟩ := Option.ne_none_iff_exists'.mp taken
    have held := (custody.takers i g taskId ghost).mpr ⟨e, mem, thread, popped⟩
    rw [show g.hand = .free from free] at held
    exact absurd held (by simp [Hand.held])
  · intro i j one two t t' here there given given' same
    obtain ⟨g, done, ghost, hand, _, named, _⟩ := turn_holds fits here given
    obtain ⟨g', done', ghost', hand', _, named', _⟩ := turn_holds fits there given'
    by_contra other
    refine custody.not_shared ghost ghost' other (?_ : done.id ∈ _) ?_
    · rw [hand]
      exact List.mem_cons_self
    · rw [hand', named, same, ← named']
      exact List.mem_cons_self
  · intro i result t there given
    obtain ⟨g, done, ghost, hand, record, named, assigned, submitted⟩ := turn_holds fits there given
    have stored := (live.fits ghost).hand
    rw [hand] at stored
    have held : g.hand.held = some t.id := by rw [hand, ← named]; rfl
    obtain ⟨e, mem, _, popped⟩ := (custody.takers i g t.id ghost).mp held
    refine ⟨List.mem_filterMap.mpr ⟨e, mem, popped⟩, assigned, submitted, ?_⟩
    rw [record, ← named]
    exact stored

/-- Between any two states of a run a task keeps what was submitted and only goes forward, and
    a task that is finished stays exactly as it is. -/
theorem tasks_go_forward (masterId : String) (order : HashOrder) (calls : List LiveCall)
    (distinct : DistinctDraws calls) (history more : List LockEvent) (p q : LockPool)
    (run : Run (livePool masterId order calls) history p) (goesOn : Run p more q) (taskId : String)
    (t : Task) (found : p.state.task taskId = some t) :
    ∃ t', q.state.task taskId = some t' ∧ SameTask t t' ∧ rank t.status ≤ rank t'.status ∧
      (t.status.isTerminal = true → t' = t) := by
  have forward : Forward p.state q.state :=
    Protocol.run_respects (live_guarantees distinct.roster) Forward.refl Forward.trans
      (fun live ghost allowed => step_forward live ghost allowed)
      (live_matches masterId order calls) (start_live masterId order distinct) run goesOn
  obtain ⟨t', found', same | advance⟩ := forward taskId t found
  · exact ⟨t', found', same ▸ SameTask.refl t, same ▸ Nat.le_refl _, fun _ => same⟩
  · refine ⟨t', found', advance.same, advance.further.le, fun terminal => ?_⟩
    have last := (terminal_iff_rank t.status).mp terminal
    have most := rank_le t'.status
    have further := advance.further
    omega

def succeeded (s : ClusterState) : Nat := s.tasks.values.countP (·.status.isSucceeded)

/-- The counter of runs never exceeds the number of tasks that have succeeded, and is that number
    once every call has returned. -/
theorem runs_counted_once (masterId : String) (order : HashOrder) (calls : List LiveCall)
    (distinct : DistinctDraws calls) (history : List LockEvent) (p : LockPool)
    (run : Run (livePool masterId order calls) history p) :
    p.state.totalRuns ≤ succeeded p.state ∧
      ((∀ thread ∈ p.threads, ∃ outcome, thread = .ret outcome) →
        p.state.totalRuns = succeeded p.state) := by
  obtain ⟨gs, fits, live⟩ := run_live distinct run
  have runs := live.contents.runs
  refine ⟨by unfold succeeded; omega, fun ended => ?_⟩
  have none : gs.countP (·.hand.owes) = 0 := by
    refine List.countP_eq_zero.mpr fun g mem => ?_
    obtain ⟨i, bound, rfl⟩ := List.getElem_of_mem mem
    have inside : i < p.threads.length := fits.1 ▸ bound
    obtain ⟨outcome, same⟩ := ended _ (List.getElem_mem inside)
    have ends := fits.2 i gs[i] p.threads[i] (List.getElem?_eq_getElem bound)
      (List.getElem?_eq_getElem inside)
    rw [same] at ends
    rw [ends.1.owes]
    exact Bool.false_ne_true
  rw [none] at runs
  exact runs

/-- Every thread has returned, and none of the workers fell silent. -/
structure AllAnswered (p : LockPool) : Prop where
  returned : ∀ thread ∈ p.threads, ∃ outcome, thread = .ret outcome
  heard : ∀ (i : Nat) t, p.threads[i]? ≠ some (.ret (.turned (.silent t)))

/-- Once every call has returned, every worker was heard and the queue is empty, each task of
    each planned submission has the outcome that the turn it was given to has reported. -/
theorem drained_tasks_reported (masterId : String) (order : HashOrder) (calls : List LiveCall)
    (distinct : DistinctDraws calls) (history : List LockEvent) (p : LockPool)
    (run : Run (livePool masterId order calls) history p) (all : AllAnswered p)
    (empty : p.state.pending = []) (b : Submission) (known : b ∈ submissionsOf calls) (t₀ : Task)
    (mem : t₀ ∈ b.tasks) :
    ∃ (i : Nat) (t : Task) (posted : Posted),
      p.threads[i]? = some (.ret (.turned (.reported t posted (.ok ())))) ∧ SameTask t₀ t ∧
        p.state.task t₀.id = some (Task.withReport t (posted.report t.id)) := by
  obtain ⟨gs, fits, live⟩ := run_live distinct run
  have custody := live.custody
  have ended {i : Nat} {g : Seat} (ghost : gs[i]? = some g) : ∃ outcome,
      p.threads[i]? = some (.ret outcome) ∧ Settled g.hand outcome.isTurn ∧
        Ends (submissionsOf calls) g outcome := by
    obtain ⟨bound, rfl⟩ := List.getElem?_eq_some_iff.mp ghost
    have inside : i < p.threads.length := fits.1 ▸ bound
    have there := List.getElem?_eq_getElem inside
    obtain ⟨outcome, same⟩ := all.returned _ (List.getElem_mem inside)
    rw [same] at there
    exact ⟨outcome, there, fits.2 i _ _ ghost there⟩
  -- everything drawn was queued, and everything queued was taken
  have queued : t₀.id ∈ poppedIds history := by
    have none : (gs.flatMap fun g => g.hand.unqueued) = [] := by
      refine List.flatMap_eq_nil_iff.mpr fun g mem => ?_
      obtain ⟨i, bound, rfl⟩ := List.getElem_of_mem mem
      obtain ⟨_, _, settled, _⟩ := ended (List.getElem?_eq_getElem bound)
      exact settled.unqueued
    have drawn := custody.drawn
    have queue := custody.queue
    rw [none, List.append_nil, ← queue, empty, List.append_nil] at drawn
    exact drawn.symm.subset (List.mem_flatMap.mpr ⟨b, known, List.mem_map_of_mem mem⟩)
  obtain ⟨g, inside, held⟩ := List.mem_flatMap.mp (custody.taken.symm.subset queued)
  obtain ⟨i, bound, rfl⟩ := List.getElem_of_mem inside
  obtain ⟨outcome, there, settled, ends⟩ := ended (List.getElem?_eq_getElem bound)
  have stored := (live.fits (List.getElem?_eq_getElem bound)).hand
  have mine : gs[i].hand.held = some t₀.id := Option.mem_toList.mp held
  cases outcome with
  | turned result =>
    cases result with
    | idle =>
      rw [show gs[i].hand = .free from ends] at mine
      exact nomatch mine
    | silent t => exact absurd there (all.heard i t)
    | reported t posted answer =>
      obtain ⟨hand, rfl, _, _⟩ := ends
      rw [hand] at stored mine
      have named : t.id = t₀.id := Option.some.inj mine
      have found : p.state.task t₀.id = some (Task.withReport t (posted.report t.id)) := by
        rw [← named]
        exact stored
      have same := stored_same distinct.roster live.contents known mem found
      exact ⟨i, t, posted, there,
        ⟨same.id, same.stageId, same.jobId, same.partitionLabel, same.sql⟩, found⟩
  | _ => exact absurd (settled.held rfl ▸ mine) (by simp)

/-- What is read piece by piece fits together: a snapshot shows every stage and task of every
    job it shows, and the answer to a submission shows its one stage and exactly its tasks. -/
theorem views_fit (masterId : String) (order : HashOrder) (calls : List LiveCall)
    (distinct : DistinctDraws calls) (history : List LockEvent) (p : LockPool)
    (run : Run (livePool masterId order calls) history p) (i : Nat) :
    (∀ snapshot, p.threads[i]? = some (.ret (.shown snapshot)) →
        Consistent (submissionsOf calls) snapshot) ∧
      ∀ response, p.threads[i]? = some (.ret (.submitted (.ok response))) →
        ∃ b ∈ submissionsOf calls, Shows b response := by
  obtain ⟨gs, fits, _⟩ := run_live distinct run
  constructor
  · intro snapshot there
    obtain ⟨_, _, _, ends⟩ := Protocol.matches_ghost fits there
    exact ends
  · intro response there
    obtain ⟨_, _, _, ends⟩ := Protocol.matches_ghost fits there
    exact ends

end Runs

section Witness
open RSparkExpr

/-- A submission of two tasks, a worker that reports, one that falls silent, and a dashboard. -/
def liveCalls : List LiveCall :=
  [.submit ⟨"test", usersSql, 2⟩ usersCatalog (drawsOf "j" "s" "t" 0) (inOrder _),
    .turn "w1" fun _ => some (.complete 100 7 8), .turn "w2" fun _ => none,
    .snapshot insertionOrders 9]

def liveStart : LockPool := @livePool noRegex usersParser noDebug "m" insertionOrder liveCalls

/-- The first task is taken before the second is queued, and the snapshot is read meanwhile. -/
def liveFirst : List Nat := [0, 0, 0, 0, 1, 1, 0, 0, 1, 1, 2, 2, 3, 3, 0, 0, 0, 3]

def liveRest : List Nat :=
  [1, 1, 2, 2, 2, 2, 1, 1, 1, 1, 3, 1, 1, 1, 1, 1, 1, 3, 3, 3, 3, 3, 0, 0, 0]

theorem liveCalls_distinct : @DistinctDraws usersParser noDebug liveCalls :=
  @DistinctDraws.mk usersParser noDebug _ (by decide) (by decide) (by decide)

def drainCalls : List LiveCall :=
  [.submit ⟨"test", usersSql, 2⟩ usersCatalog (drawsOf "j" "s" "t" 0) (inOrder _),
    .turn "w1" fun _ => some (.complete 100 7 8), .turn "w2" fun _ => some (.fail "lost" 9 10)]

def drainStart : LockPool := @livePool noRegex usersParser noDebug "m" insertionOrder drainCalls

def drainOrder : List Nat :=
  [0, 0, 0, 0, 1, 1, 0, 0, 1, 1, 2, 2, 0, 0, 0, 1, 1, 2, 2, 2, 2, 1, 1, 1, 1, 2, 1, 1, 1, 1, 1, 1,
    2, 2, 2, 2, 2, 2, 2, 2, 0, 0, 0]

theorem drainCalls_distinct : @DistinctDraws usersParser noDebug drainCalls :=
  @DistinctDraws.mk usersParser noDebug _ (by decide) (by decide) (by decide)

theorem two_turns_share : ∃ events last,
    liveStart.schedule (liveFirst ++ liveRest) = some (events, last) ∧
      poppedIds events = ["t", "t+"] ∧
      TakenOnce (@submissionsOf usersParser noDebug liveCalls) events last := by
  obtain ⟨events, last, ran, popped⟩ : ∃ events last,
      liveStart.schedule (liveFirst ++ liveRest) = some (events, last) ∧
        poppedIds events = ["t", "t+"] := ⟨_, _, rfl, rfl⟩
  exact ⟨events, last, ran, popped, @tasks_taken_once noRegex usersParser noDebug "m"
    insertionOrder liveCalls liveCalls_distinct events last (run_of_schedule ran)⟩

theorem assigned_then_done : ∃ first mid second last t,
    liveStart.schedule liveFirst = some (first, mid) ∧
      mid.schedule liveRest = some (second, last) ∧ mid.state.task "t" = some t ∧
      t.status = .assigned ∧ ∃ t', last.state.task "t" = some t' ∧ t'.status = .succeeded ∧
        SameTask t t' ∧ rank t.status ≤ rank t'.status := by
  obtain ⟨first, mid, second, last, t, u, begins, goesOn, found, assigned, ends, done⟩ :
      ∃ first mid second last t u, liveStart.schedule liveFirst = some (first, mid) ∧
        mid.schedule liveRest = some (second, last) ∧ mid.state.task "t" = some t ∧
        t.status = .assigned ∧ last.state.task "t" = some u ∧ u.status = .succeeded :=
    ⟨_, _, _, _, _, _, rfl, rfl, rfl, rfl, rfl, rfl⟩
  obtain ⟨t', found', same, further, _⟩ := @tasks_go_forward noRegex usersParser noDebug "m"
    insertionOrder liveCalls liveCalls_distinct first second mid last (run_of_schedule begins)
    (run_of_schedule goesOn) "t" t found
  obtain rfl := Option.some.inj (ends.symm.trans found')
  exact ⟨first, mid, second, last, t, begins, goesOn, found, assigned, u, ends, done, same, further⟩

theorem one_run_counted : ∃ events last,
    liveStart.schedule (liveFirst ++ liveRest) = some (events, last) ∧
      last.state.totalRuns = 1 ∧ last.state.totalRuns = succeeded last.state := by
  obtain ⟨events, last, ran, runs, ended⟩ : ∃ events last,
      liveStart.schedule (liveFirst ++ liveRest) = some (events, last) ∧
        last.state.totalRuns = 1 ∧ ∃ a b c d, last.threads = [.ret a, .ret b, .ret c, .ret d] :=
    ⟨_, _, rfl, rfl, _, _, _, _, rfl⟩
  refine ⟨events, last, ran, runs, (@runs_counted_once noRegex usersParser noDebug "m"
    insertionOrder liveCalls liveCalls_distinct events last (run_of_schedule ran)).2 ?_⟩
  obtain ⟨a, b, c, d, threads⟩ := ended
  rw [threads]
  simp

theorem both_tasks_reported : ∃ events last,
    drainStart.schedule drainOrder = some (events, last) ∧
      ∀ b ∈ @submissionsOf usersParser noDebug drainCalls, ∀ t₀ ∈ b.tasks,
        ∃ (i : Nat) (t : Task) (posted : Posted),
          last.threads[i]? = some (.ret (.turned (.reported t posted (.ok ())))) ∧
            SameTask t₀ t ∧
            last.state.task t₀.id = some (Task.withReport t (posted.report t.id)) := by
  obtain ⟨events, last, ran, empty, a, b, c, threads⟩ : ∃ events last,
      drainStart.schedule drainOrder = some (events, last) ∧ last.state.pending = [] ∧
        ∃ a b c, last.threads = [.ret (.submitted a), .ret (.turned (.reported b.1 b.2 (.ok ()))),
          .ret (.turned (.reported c.1 c.2 (.ok ())))] := ⟨_, _, rfl, rfl, _, (_, _), (_, _), rfl⟩
  have all : AllAnswered last := by
    refine ⟨by rw [threads]; simp, fun i t => ?_⟩
    rw [threads]
    rcases i with _ | _ | _ | i <;> simp
  exact ⟨events, last, ran, @drained_tasks_reported noRegex usersParser noDebug "m" insertionOrder
    drainCalls drainCalls_distinct events last (run_of_schedule ran) all empty⟩

theorem snapshot_during_submission : ∃ events last snapshot,
    liveStart.schedule (liveFirst ++ liveRest) = some (events, last) ∧
      last.threads[3]? = some (.ret (.shown snapshot)) ∧ snapshot.jobs.map Job.id = ["j"] ∧
      Consistent (@submissionsOf usersParser noDebug liveCalls) snapshot := by
  obtain ⟨events, last, snapshot, ran, there, jobs⟩ : ∃ events last snapshot,
      liveStart.schedule (liveFirst ++ liveRest) = some (events, last) ∧
        last.threads[3]? = some (.ret (.shown snapshot)) ∧ snapshot.jobs.map Job.id = ["j"] :=
    ⟨_, _, _, rfl, rfl, rfl⟩
  exact ⟨events, last, snapshot, ran, there, jobs, (@views_fit noRegex usersParser noDebug "m"
    insertionOrder liveCalls liveCalls_distinct events last (run_of_schedule ran) 3).1 snapshot
    there⟩

end Witness

end RSparkLiveRuns
