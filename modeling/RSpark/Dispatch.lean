import Mathlib.Data.List.Perm.Basic
import RSpark.MasterPhases

/- Exactly-once dispatch of tasks: what a pool of concurrent submissions, assignments and
   completions does to the queue of pending tasks. -/
namespace RSparkDispatch
open RSparkClusterState RSparkMaster RSparkMasterPhases RSparkPlanner RSparkSqlAst Calls

section History

abbrev ClusterEvent := Event clusterInterface

def insertedId (e : ClusterEvent) : Option String :=
  match e.op with
  | .insertTask t => some t.id
  | _ => none

def reportedId (e : ClusterEvent) : Option String :=
  match e.op with
  | .updateTask t => if t.status.isTerminal then some t.id else none
  | _ => none

def poppedId : ClusterEvent → Option String
  | ⟨_, .popPendingTask, found⟩ => found.map Task.id
  | _ => none

def insertedIds (h : List ClusterEvent) : List String := h.filterMap insertedId
def reportedIds (h : List ClusterEvent) : List String := h.filterMap reportedId
def poppedIds (h : List ClusterEvent) : List String := h.filterMap poppedId

end History

section Duties

structure Duty where
  toInsert : List String
  held : Option String

def taskIdsOf (st : Stage) : List String := st.tasks.map Task.id

def mayCall (stageIds : String → List String) (g : Duty) : Op → Prop
  | .insertTask t => g.toInsert.head? = some t.id
  | .insertStage st => taskIdsOf st = stageIds st.id
  | .updateStage st => taskIdsOf st = stageIds st.id
  | .popPendingTask => g.held = none
  | _ => True

def countsOn (stageIds : String → List String) (_g : Duty) : (o : Op) → o.Resp → Prop
  | .stage sid, found => ∀ st, found = some st → st.id = sid ∧ taskIdsOf st = stageIds sid
  | _, _ => True

def nextDuty (g : Duty) : (o : Op) → o.Resp → Duty
  | .insertTask _, _ => { g with toInsert := g.toInsert.tail }
  | .popPendingTask, found => { g with held := found.map Task.id }
  | _, _ => g

def returns (g : Duty) : Outcome → Prop
  | .assigned (some t) => g.held = some t.id
  | _ => True

def dispatchProtocol (stageIds : String → List String) :
    Protocol clusterInterface Duty Outcome :=
  ⟨mayCall stageIds, countsOn stageIds, nextDuty, returns⟩

theorem withAssigned_ids (stage : Stage) (task : Task) :
    taskIdsOf (Stage.withAssigned stage task) = taskIdsOf stage :=
  updateFirst_ids (f := assignSlot task) (fun _ => rfl) stage.tasks

theorem withReport_ids (stage : Stage) (task : Task) :
    taskIdsOf (Stage.withReport stage task) = taskIdsOf stage :=
  updateFirst_ids (f := reportSlot task) (fun _ => rfl) stage.tasks

variable {stageIds : String → List String}

def Owes (stageIds : String → List String) : Phase → Duty → Prop
  | .stageInsert b, g | .stageRead b, g => b.ids = stageIds b.stageId ∧ g.toInsert = b.ids
  | .taskInsert _ todo, g => g.toInsert = todo.map Task.id
  | .pop _, g => g.held = none
  | .assignTask task, g | .assignRead task, g | .handed task, g => g.held = some task.id
  | .assignWrite task stage, g =>
      g.held = some task.id ∧ taskIdsOf stage = stageIds stage.id
  | .slotWrite _ _ stage, _ => taskIdsOf stage = stageIds stage.id
  | _, _ => True

theorem owes_allowed {g : Phase} {h : Duty} {o : Op} (owes : Owes stageIds g h)
    (next : g.op = some o) : mayCall stageIds h o := by
  cases g with
  | stageInsert b =>
    obtain rfl := Option.some.inj next
    exact owes.1
  | taskInsert b todo =>
    cases todo with
    | nil =>
      obtain rfl := Option.some.inj next
      exact trivial
    | cons task rest =>
      obtain rfl := Option.some.inj next
      exact (congrArg List.head? owes : _)
  | pop workerId =>
    obtain rfl := Option.some.inj next
    exact owes
  | assignWrite task stage =>
    obtain rfl := Option.some.inj next
    exact (withAssigned_ids stage task).trans owes.2
  | slotWrite r task stage =>
    obtain rfl := Option.some.inj next
    exact (withReport_ids stage _).trans owes
  | submitted _ | refused | handed _ | idle | finished _ _ | missing _ | crashed =>
    exact absurd next (by simp [Phase.op])
  | _ =>
    obtain rfl := Option.some.inj next
    exact trivial

theorem owes_next {g g' : Phase} {h : Duty} {o : Op} {found : o.Resp} {w : Write}
    (owes : Owes stageIds g h) (move : Move g o found g' w) (counts : countsOn stageIds h o found) :
    Owes stageIds g' (nextDuty h o found) := by
  cases move with
  | stageInsert b => exact owes
  | stageFound b stage => exact owes.2.trans (owes.1.trans (counts stage rfl).2.symm)
  | taskInsert b task rest => exact (congrArg List.tail owes : _)
  | popFound workerId task => exact rfl
  | assignTask task => exact owes
  | assignFound task stage =>
    obtain ⟨here, same⟩ := counts stage rfl
    exact ⟨owes, same.trans (congrArg stageIds here.symm)⟩
  | assignLost task => exact owes
  | assignWrite task stage => exact owes.1
  | slotFound r task stage =>
    obtain ⟨here, same⟩ := counts stage rfl
    exact same.trans (congrArg stageIds here.symm)
  | _ => exact trivial

theorem owes_closes {g : Phase} {h : Duty} {outcome : Outcome} (owes : Owes stageIds g h)
    (closes : g.closes outcome) : returns h outcome := by
  cases outcome with
  | assigned found =>
    cases found with
    | none => exact trivial
    | some t =>
      cases g with
      | handed task =>
        obtain rfl : t = task := closes
        exact owes
      | _ => exact closes.elim
  | _ => exact trivial

theorem duties_follow : phaseProtocol.Follows (dispatchProtocol stageIds) (Owes stageIds) where
  allowed := owes_allowed
  relies := fun _ _ _ => trivial
  next := fun owes may counts => owes_next owes (op_moves may _) counts
  final := owes_closes

end Duties

section Invariant
variable {stageIds : String → List String}

structure Dispatched (stageIds : String → List String) (h : List ClusterEvent)
    (s : ClusterState) (gs : List Duty) : Prop where
  order : (poppedIds h ++ s.pending).Sublist (insertedIds h)
  fresh : (insertedIds h ++ gs.flatMap Duty.toInsert).Nodup
  held : (gs.filterMap Duty.held).Perm (poppedIds h)
  stored : ∀ id ∈ insertedIds h, ∃ t, s.tasks.get id = some t ∧ t.id = id
  stages : ∀ sid st, s.stages.get sid = some st → st.id = sid ∧ taskIdsOf st = stageIds sid
  settled : ∀ id ∈ insertedIds h, id ∈ poppedIds h ∨ id ∈ s.pending ∨ id ∈ reportedIds h

theorem set_same {α : Type} {l : List α} {i : Nat} {a : α} (h : l[i]? = some a) :
    l.set i a = l := by
  obtain ⟨bound, rfl⟩ := List.getElem?_eq_some_iff.mp h
  exact List.set_getElem_self bound

theorem perm_of_getElem {α : Type} {l : List α} {i : Nat} {a : α} (h : l[i]? = some a) :
    l.Perm (a :: l.eraseIdx i) := by
  obtain ⟨bound, rfl⟩ := List.getElem?_eq_some_iff.mp h
  exact (List.getElem_cons_eraseIdx_perm bound).symm

theorem perm_set {α : Type} {l : List α} {i : Nat} {a : α} (h : l[i]? = some a) (b : α) :
    (l.set i b).Perm (b :: l.eraseIdx i) := by
  obtain ⟨bound, _⟩ := List.getElem?_eq_some_iff.mp h
  exact List.set_perm_cons_eraseIdx bound b

theorem ids_append (h : List ClusterEvent) (e : ClusterEvent) :
    insertedIds (h ++ [e]) = insertedIds h ++ (insertedId e).toList ∧
      poppedIds (h ++ [e]) = poppedIds h ++ (poppedId e).toList ∧
      reportedIds (h ++ [e]) = reportedIds h ++ (reportedId e).toList := by
  refine ⟨?_, ?_, ?_⟩
  · cases found : insertedId e <;> simp [insertedIds, found]
  · cases found : poppedId e <;> simp [poppedIds, found]
  · cases found : reportedId e <;> simp [reportedIds, found]

theorem dispatched_idle {h : List ClusterEvent} {s s' : ClusterState} {gs gs' : List Duty}
    {e : ClusterEvent} (inv : Dispatched stageIds h s gs) (noInsert : insertedId e = none)
    (noPop : poppedId e = none) (noReport : reportedId e = none) (tasks : s'.tasks = s.tasks)
    (pending : s'.pending = s.pending)
    (stages : ∀ sid st, s'.stages.get sid = some st →
      st.id = sid ∧ taskIdsOf st = stageIds sid) (ghosts : gs' = gs) :
    Dispatched stageIds (h ++ [e]) s' gs' := by
  subst ghosts
  obtain ⟨inserted, popped, reported⟩ := ids_append h e
  simp only [noInsert, noPop, noReport, Option.toList_none, List.append_nil]
    at inserted popped reported
  refine ⟨?_, ?_, ?_, ?_, stages, ?_⟩
  · rw [inserted, popped, pending]
    exact inv.order
  · rw [inserted]
    exact inv.fresh
  · rw [popped]
    exact inv.held
  · rw [inserted, tasks]
    exact inv.stored
  · rw [inserted, popped, reported, pending]
    exact inv.settled

theorem stages_insert {s : ClusterState} {st : Stage} (own : taskIdsOf st = stageIds st.id)
    (old : ∀ sid st, s.stages.get sid = some st → st.id = sid ∧ taskIdsOf st = stageIds sid) :
    ∀ sid st', (s.stages.insert st.id st).get sid = some st' →
      st'.id = sid ∧ taskIdsOf st' = stageIds sid := by
  intro sid st' found
  rw [InsertionMap.get_insert] at found
  split at found
  · rename_i same
    obtain rfl := Option.some.inj found
    exact ⟨same.symm, same ▸ own⟩
  · exact old sid st' found

theorem dispatched_insert {h : List ClusterEvent} {s : ClusterState} {gs : List Duty} {i : Nat}
    {g : Duty} {t : Task} (inv : Dispatched stageIds h s gs) (ghost : gs[i]? = some g)
    (may : g.toInsert.head? = some t.id) :
    Dispatched stageIds (h ++ [⟨i, Op.insertTask t, ()⟩]) (s.insertTask t)
      (gs.set i { g with toInsert := g.toInsert.tail }) := by
  obtain ⟨inserted, popped, reported⟩ := ids_append h ⟨i, Op.insertTask t, ()⟩
  simp only [insertedId, poppedId, reportedId, Option.toList_some, Option.toList_none,
    List.append_nil] at inserted popped reported
  obtain ⟨toInsert, held⟩ := g
  obtain ⟨rest, rfl⟩ : ∃ rest, toInsert = t.id :: rest := by
    cases toInsert with
    | nil => simp at may
    | cons id rest =>
      simp only [List.head?_cons, Option.some.injEq] at may
      exact ⟨rest, by rw [may]⟩
  refine ⟨?_, ?_, ?_, ?_, inv.stages, ?_⟩
  · rw [inserted, popped]
    show (poppedIds h ++ (s.pending ++ [t.id])).Sublist _
    rw [← List.append_assoc]
    exact inv.order.append (List.Sublist.refl _)
  · have before := (perm_of_getElem ghost).flatMap_right Duty.toInsert
    have after := (perm_set ghost (⟨rest, held⟩ : Duty)).flatMap_right Duty.toInsert
    simp only [List.flatMap_cons] at before after
    rw [inserted, List.append_assoc]
    refine ((List.Perm.append_left _ ?_).nodup_iff).mp inv.fresh
    exact before.trans (after.symm.cons t.id)
  · have before := (perm_of_getElem ghost).filterMap Duty.held
    have after := (perm_set ghost (⟨rest, held⟩ : Duty)).filterMap Duty.held
    rw [popped]
    exact after.trans (before.symm.trans inv.held)
  · rw [inserted]
    intro id mem
    show ∃ u, (s.tasks.insert t.id t).get id = some u ∧ u.id = id
    rw [InsertionMap.get_insert]
    rcases List.mem_append.mp mem with old | new
    · split
      · rename_i same
        exact ⟨t, rfl, same.symm⟩
      · exact inv.stored id old
    · obtain rfl := List.mem_singleton.mp new
      exact ⟨t, if_pos rfl, rfl⟩
  · rw [inserted, popped, reported]
    intro id mem
    show id ∈ poppedIds h ∨ id ∈ s.pending ++ [t.id] ∨ id ∈ reportedIds h
    rcases List.mem_append.mp mem with old | new
    · rcases inv.settled id old with taken | waiting | done
      · exact Or.inl taken
      · exact Or.inr (Or.inl (List.mem_append_left _ waiting))
      · exact Or.inr (Or.inr done)
    · exact Or.inr (Or.inl (List.mem_append_right _ new))

theorem dispatched_updateTask {h : List ClusterEvent} {s : ClusterState} {gs : List Duty}
    {i : Nat} {t : Task} (inv : Dispatched stageIds h s gs) :
    Dispatched stageIds (h ++ [⟨i, Op.updateTask t, ()⟩]) (s.updateTask t) gs := by
  obtain ⟨inserted, popped, reported⟩ := ids_append h ⟨i, Op.updateTask t, ()⟩
  simp only [insertedId, poppedId, Option.toList_none, List.append_nil] at inserted popped
  have shorter : (s.updateTask t).pending.Sublist s.pending := by
    simp only [ClusterState.updateTask]
    split
    · exact List.filter_sublist
    · exact List.Sublist.refl _
  refine ⟨?_, ?_, ?_, ?_, inv.stages, ?_⟩
  · rw [inserted, popped]
    exact ((List.Sublist.refl _).append shorter).trans inv.order
  · rw [inserted]
    exact inv.fresh
  · rw [popped]
    exact inv.held
  · rw [inserted]
    intro id mem
    show ∃ u, (s.tasks.insert t.id t).get id = some u ∧ u.id = id
    rw [InsertionMap.get_insert]
    split
    · rename_i same
      exact ⟨t, rfl, same.symm⟩
    · exact inv.stored id mem
  · rw [inserted, popped, reported]
    intro id mem
    rcases inv.settled id mem with taken | waiting | done
    · exact Or.inl taken
    · by_cases same : id = t.id ∧ t.status.isTerminal = true
      · -- a terminal report is what takes an id out of the middle of the queue
        refine Or.inr (Or.inr (List.mem_append_right _ ?_))
        simp [reportedId, same.1, same.2]
      · refine Or.inr (Or.inl ?_)
        simp only [ClusterState.updateTask]
        split
        · rename_i first
          simp only [Bool.and_eq_true] at first
          refine List.mem_filter.mpr ⟨waiting, ?_⟩
          simpa using fun equal => same ⟨equal, first.2⟩
        · exact waiting
    · exact Or.inr (Or.inr (List.mem_append_left _ done))

theorem pending_head_inserted {h : List ClusterEvent} {s : ClusterState} {gs : List Duty}
    {id : String} {rest : List String} (inv : Dispatched stageIds h s gs)
    (waiting : s.pending = id :: rest) : id ∈ insertedIds h := by
  refine inv.order.subset (List.mem_append_right _ ?_)
  rw [waiting]
  exact List.mem_cons_self

theorem dispatched_pop {h : List ClusterEvent} {s : ClusterState} {gs : List Duty} {i : Nat}
    {g : Duty} (inv : Dispatched stageIds h s gs) (ghost : gs[i]? = some g)
    (may : g.held = none) :
    Dispatched stageIds (h ++ [⟨i, Op.popPendingTask, s.popPendingTask.2⟩]) s.popPendingTask.1
      (gs.set i { g with held := s.popPendingTask.2.map Task.id }) := by
  cases waiting : s.pending with
  | nil =>
    have idle : s.popPendingTask = (s, none) := by simp [ClusterState.popPendingTask, waiting]
    rw [idle]
    have ghost' : { g with held := (none : Option Task).map Task.id } = g := by
      cases g
      simp_all
    rw [ghost']
    exact dispatched_idle inv rfl rfl rfl rfl rfl inv.stages (set_same ghost)
  | cons id rest =>
    obtain ⟨t, found, same⟩ := inv.stored id (pending_head_inserted inv waiting)
    have taken : s.popPendingTask = ({ s with pending := rest }, some t) := by
      simp [ClusterState.popPendingTask, waiting, found]
    rw [taken]
    simp only [Option.map_some, same]
    obtain ⟨inserted, popped, reported⟩ := ids_append h ⟨i, Op.popPendingTask, some t⟩
    simp only [insertedId, poppedId, reportedId, Option.map_some, same, Option.toList_some,
      Option.toList_none, List.append_nil] at inserted popped reported
    have order := inv.order
    rw [waiting] at order
    refine ⟨?_, ?_, ?_, ?_, inv.stages, ?_⟩
    · rw [inserted, popped, List.append_assoc]
      exact order
    · have before := (perm_of_getElem ghost).flatMap_right Duty.toInsert
      have after := (perm_set ghost { g with held := some id }).flatMap_right Duty.toInsert
      rw [inserted]
      refine ((List.Perm.append_left _ ?_).nodup_iff).mp inv.fresh
      exact before.trans after.symm
    · have before := (perm_of_getElem ghost).filterMap Duty.held
      have after := (perm_set ghost { g with held := some id }).filterMap Duty.held
      simp only [List.filterMap_cons, may] at before after
      rw [popped]
      refine after.trans ?_
      refine ((before.symm.trans inv.held).cons id).trans ?_
      exact (List.perm_append_singleton id _).symm
    · rw [inserted]
      exact inv.stored
    · rw [inserted, popped, reported]
      intro id' mem
      rcases inv.settled id' mem with already | queued | done
      · exact Or.inl (List.mem_append_left _ already)
      · rw [waiting] at queued
        rcases List.mem_cons.mp queued with rfl | later
        · exact Or.inl (List.mem_append_right _ List.mem_cons_self)
        · exact Or.inr (Or.inl later)
      · exact Or.inr (Or.inr done)

theorem dispatch_guarantees :
    (dispatchProtocol stageIds).Guarantees (fun _ _ _ _ => True) (Dispatched stageIds) where
  answers := by
    intro h s gs i g o inv _ _ _
    cases o with
    | stage sid => exact fun st found => inv.stages sid st found
    | _ => exact trivial
  preserves := by
    intro h s gs i g o inv ghost may _
    have same := set_same ghost
    cases o with
    | insertTask t => exact dispatched_insert inv ghost may
    | updateTask t =>
      have step := dispatched_updateTask (t := t) (i := i) inv
      rwa [← same] at step
    | popPendingTask => exact dispatched_pop inv ghost may
    | insertStage st =>
      exact dispatched_idle inv rfl rfl rfl rfl rfl (stages_insert may inv.stages) same
    | updateStage st =>
      exact dispatched_idle inv rfl rfl rfl rfl rfl (stages_insert may inv.stages) same
    | _ => exact dispatched_idle inv rfl rfl rfl rfl rfl inv.stages same

end Invariant

section Pool
variable [SqlParser] [PlanDebug]

def stageIdsOf (calls : List MasterCall) (sid : String) : List String :=
  match calls.find? fun c => c.draws.map SubmitDraws.stageId = some sid with
  | some c => c.newTasks.map Task.id
  | none => []

def dutyOf (c : MasterCall) : Duty := ⟨c.newTasks.map Task.id, none⟩

theorem stageIdsOf_eq {calls : List MasterCall} {c : MasterCall} {d : SubmitDraws}
    (distinct : ((calls.filterMap MasterCall.draws).map SubmitDraws.stageId).Nodup)
    (mem : c ∈ calls) (drew : c.draws = some d) :
    stageIdsOf calls d.stageId = c.newTasks.map Task.id := by
  unfold stageIdsOf
  induction calls with
  | nil => exact absurd mem (by simp)
  | cons head rest ih =>
    by_cases same : head.draws.map SubmitDraws.stageId = some d.stageId
    · rw [List.find?_cons_of_pos (by simpa using same)]
      rcases List.mem_cons.mp mem with rfl | later
      · rfl
      · obtain ⟨d', drew', equal⟩ := Option.map_eq_some_iff.mp same
        rw [List.filterMap_cons_some drew', List.map_cons, List.nodup_cons, equal] at distinct
        refine absurd ?_ distinct.1
        exact List.mem_map_of_mem (List.mem_filterMap.mpr ⟨c, later, drew⟩)
    · rw [List.find?_cons_of_neg (by simpa using same)]
      have later : c ∈ rest := by
        rcases List.mem_cons.mp mem with rfl | later
        · exact absurd (by rw [drew]; rfl) same
        · exact later
      refine ih ?_ later
      cases drew' : head.draws with
      | none => rwa [List.filterMap_cons_none drew'] at distinct
      | some d' =>
        rw [List.filterMap_cons_some drew', List.map_cons] at distinct
        exact (List.nodup_cons.mp distinct).2

theorem call_keeps {calls : List MasterCall} (fresh : FreshDraws calls) {c : MasterCall}
    (mem : c ∈ calls) : (dispatchProtocol (stageIdsOf calls)).Keeps (dutyOf c) c.prog := by
  refine duties_follow.keeps ?_ (RSparkMasterPhases.call_keeps c)
  cases c with
  | submit r catalog d =>
    simp only [startPhase]
    cases made : submissionOf (.submit r catalog d) with
    | none => exact trivial
    | some b =>
      have drew := submissionOf_draws made
      have own := stageIdsOf_eq fresh.stages mem drew
      have tasks := congrArg (List.map Task.id) (submissionOf_newTasks made)
      exact ⟨(own.trans tasks).symm, tasks⟩
  | assign workerId => exact rfl
  | complete r => exact trivial

theorem pool_matches {calls : List MasterCall} (fresh : FreshDraws calls) (s : ClusterState) :
    (dispatchProtocol (stageIdsOf calls)).Matches (calls.map dutyOf) (poolOf s calls).threads :=
  Protocol.matches_map fun _ listed => call_keeps fresh listed

theorem dispatched_start {calls : List MasterCall} (fresh : FreshDraws calls) (masterId : String)
    (order : HashOrder) :
    Dispatched (stageIdsOf calls) [] (ClusterState.new masterId order) (calls.map dutyOf) := by
  refine ⟨List.Sublist.refl _, ?_, ?_, ?_, ?_, ?_⟩
  · have tasks := fresh.tasks
    simpa [insertedIds, List.flatMap_map, dutyOf] using tasks
  · have none : (calls.map dutyOf).filterMap Duty.held = [] := by
      simp [List.filterMap_map, dutyOf, Function.comp_def]
    rw [none]
    exact List.Perm.refl _
  · intro id mem
    exact absurd mem (by simp [insertedIds])
  · intro sid st found
    exact absurd found (by simp [ClusterState.new])
  · intro id mem
    exact absurd mem (by simp [insertedIds])

theorem run_dispatched {calls : List MasterCall} (fresh : FreshDraws calls) {masterId : String}
    {order : HashOrder} {history : List ClusterEvent} {p : Pool clusterInterface Outcome}
    (run : Run (poolOf (ClusterState.new masterId order) calls) history p) :
    ∃ gs, (dispatchProtocol (stageIdsOf calls)).Matches gs p.threads ∧
      Dispatched (stageIdsOf calls) history p.state gs :=
  Protocol.run_rule dispatch_guarantees (pool_matches fresh _)
    (dispatched_start fresh masterId order) run

end Pool

section Result
variable {stageIds : String → List String}

theorem held_once {h : List ClusterEvent} {s : ClusterState} {gs : List Duty}
    (inv : Dispatched stageIds h s gs) {i j : Nat} {g g' : Duty} {id : String}
    (here : gs[i]? = some g) (there : gs[j]? = some g') (hi : g.held = some id)
    (hj : g'.held = some id) : i = j := by
  have popped : (poppedIds h).Nodup :=
    ((List.sublist_append_left _ _).trans inv.order).nodup (List.nodup_append.mp inv.fresh).1
  exact index_unique (inv.held.nodup_iff.mpr popped) here there hi hj

/-- In a list without repetitions nothing stands before `b` and, in a sublist, after it. -/
theorem not_after_of_before {α : Type} {xs ys l : List α} {a b : α}
    (nodup : (xs ++ b :: ys).Nodup) (inside : (b :: l).Sublist (xs ++ b :: ys)) (mem : a ∈ xs) :
    a ∉ l := by
  intro later
  have pair : [b, a].Sublist (xs ++ b :: ys) :=
    ((List.singleton_sublist.mpr later).cons_cons b).trans inside
  obtain ⟨_, tail, apart⟩ := List.nodup_append.mp nodup
  obtain ⟨l₁, l₂, split, left, right⟩ := List.sublist_append_iff.mp pair
  cases l₁ with
  | nil =>
    have both : a ∈ b :: ys := right.subset (by rw [← List.nil_append l₂, ← split]; simp)
    exact apart a mem a both rfl
  | cons c rest =>
    obtain ⟨rfl, _⟩ := List.cons.inj split
    exact apart b (left.subset List.mem_cons_self) b List.mem_cons_self rfl

/-- Dispatch in a run of concurrent submissions, assignments and completions. -/
structure ExactlyOnce (history : List ClusterEvent) (p : Pool clusterInterface Outcome) :
    Prop where
  once : ∀ (i j : Nat) (t t' : Task), p.threads[i]? = some (.ret (.assigned (some t))) →
    p.threads[j]? = some (.ret (.assigned (some t'))) → t.id = t'.id → i = j
  returned : ∀ (i : Nat) (t : Task), p.threads[i]? = some (.ret (.assigned (some t))) →
    t.id ∈ poppedIds history
  popped : (poppedIds history).Nodup
  queue : p.state.pending.Nodup
  order : (poppedIds history ++ p.state.pending).Sublist (insertedIds history)
  skipped : ∀ (earlier later : List ClusterEvent) (i : Nat) (t : Task),
    history = earlier ++ ⟨i, Op.popPendingTask, some t⟩ :: later →
    ∀ xs ys, insertedIds earlier = xs ++ t.id :: ys →
    ∀ a ∈ xs, a ∈ poppedIds earlier ∨ a ∈ reportedIds earlier

theorem skipped_of_dispatched {h : List ClusterEvent} {s : ClusterState} {gs : List Duty}
    {i : Nat} {t : Task} (inv : Dispatched stageIds (h ++ [⟨i, Op.popPendingTask, some t⟩]) s gs)
    {xs ys : List String} (split : insertedIds h = xs ++ t.id :: ys) {a : String} (mem : a ∈ xs) :
    a ∈ poppedIds h ∨ a ∈ reportedIds h := by
  obtain ⟨inserted, popped, reported⟩ := ids_append h ⟨i, Op.popPendingTask, some t⟩
  simp only [insertedId, poppedId, reportedId, Option.map_some, Option.toList_some,
    Option.toList_none, List.append_nil] at inserted popped reported
  obtain ⟨order, fresh, _, _, _, settled⟩ := inv
  rw [inserted] at order fresh settled
  rw [popped] at order settled
  rw [reported] at settled
  rw [split] at order fresh settled
  have nodup := (List.nodup_append.mp fresh).1
  rcases settled a (List.mem_append_left _ mem) with taken | waiting | done
  · rcases List.mem_append.mp taken with already | same
    · exact Or.inl already
    · obtain rfl := List.mem_singleton.mp same
      obtain ⟨_, _, apart⟩ := List.nodup_append.mp nodup
      exact absurd rfl (apart t.id mem t.id List.mem_cons_self)
  · have tail : (t.id :: s.pending).Sublist (xs ++ t.id :: ys) := by
      refine List.Sublist.trans ?_ order
      rw [List.append_assoc]
      exact List.sublist_append_right _ _
    exact absurd waiting (not_after_of_before nodup tail mem)
  · exact Or.inr done

/-- Every task is handed out at most once and in the order of insertion, passing over only
    tasks already reported, and the queue never holds an id twice. -/
theorem dispatch_exactly_once [SqlParser] [PlanDebug] (masterId : String) (order : HashOrder)
    (calls : List MasterCall) (fresh : FreshDraws calls) (history : List ClusterEvent)
    (p : Pool clusterInterface Outcome)
    (run : Run (poolOf (ClusterState.new masterId order) calls) history p) :
    ExactlyOnce history p := by
  obtain ⟨gs, fits, inv⟩ := run_dispatched fresh run
  have nodup := inv.order.nodup (List.nodup_append.mp inv.fresh).1
  obtain ⟨popped, queue, _⟩ := List.nodup_append.mp nodup
  refine ⟨?_, ?_, popped, queue, inv.order, ?_⟩
  · intro i j t t' hi hj same
    obtain ⟨g, ghost, held⟩ := Protocol.matches_ghost fits hi
    obtain ⟨g', ghost', held'⟩ := Protocol.matches_ghost fits hj
    have holds : g.held = some t.id := held
    have holds' : g'.held = some t'.id := held'
    exact held_once inv ghost ghost' holds (same ▸ holds')
  · intro i t hi
    obtain ⟨g, ghost, held⟩ := Protocol.matches_ghost fits hi
    refine inv.held.subset (List.mem_filterMap.mpr ⟨g, List.mem_of_getElem? ghost, held⟩)
  · intro earlier later i t split xs ys inserted a mem
    have upTo : history = (earlier ++ [⟨i, Op.popPendingTask, some t⟩]) ++ later := by
      simpa using split
    obtain ⟨q, before⟩ := run_prefix run upTo
    obtain ⟨gs', _, inv'⟩ := run_dispatched fresh before
    exact skipped_of_dispatched inv' inserted mem

end Result

section Witness

def sharedCalls : List MasterCall :=
  [.submit ⟨"test", usersSql, 2⟩ usersCatalog (drawsOf "j" "s" "t" 0), .assign "w1", .assign "w2",
    .complete ⟨"t", 100, true, none, 7, 8⟩]

def sharedSchedule : List Nat :=
  [0, 0, 0, 1, 0, 2, 1, 2, 1, 2, 1, 2, 0, 0, 0, 3, 3, 3, 3, 3, 3, 3]

theorem two_workers_share :
    ∃ events last, (@poolOf usersParser noDebug (ClusterState.new "m" insertionOrder)
        sharedCalls).schedule sharedSchedule = some (events, last) ∧
      poppedIds events = ["t", "t+"] ∧ ExactlyOnce events last := by
  have fresh : @FreshDraws usersParser noDebug sharedCalls :=
    @FreshDraws.mk usersParser noDebug _ (by decide) (by decide) (by decide)
  obtain ⟨events, last, ran, popped⟩ : ∃ events last, (@poolOf usersParser noDebug
      (ClusterState.new "m" insertionOrder) sharedCalls).schedule sharedSchedule =
        some (events, last) ∧ poppedIds events = ["t", "t+"] := ⟨_, _, rfl, rfl⟩
  exact ⟨events, last, ran, popped, @dispatch_exactly_once usersParser noDebug "m" insertionOrder
    sharedCalls fresh events last (run_of_schedule ran)⟩

end Witness

end RSparkDispatch
