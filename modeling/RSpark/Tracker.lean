import Mathlib.Algebra.Order.Group.Multiset
import Mathlib.Data.List.Perm.Basic
import Mathlib.Tactic.Abel
import RSpark.Calls

/- The background worker of the tracker extension. Messages and flushes read the buffer from the
   session storage, yield, and write it back. -/
namespace RSparkTracker
open Calls

section Worker
variable {α : Type}

def defaultIngest : String := "http://127.0.0.1:8081/v1/events"

def maxBatch : Nat := 100

/-- The session storage and the timer, what was received, what the backend has accepted, and
    which uploads succeed. -/
structure Worker (α : Type) where
  buffer : Option (List α)
  ingestUrl : Option String
  flushTimer : Bool
  received : List α
  uploads : List (String × List α)
  attempts : Nat
  succeeds : Nat → Bool

def Worker.waiting (s : Worker α) : List α := s.buffer.getD []

def Worker.posted (s : Worker α) : List α := s.uploads.flatMap Prod.snd

def Worker.new (installed : Bool) (ingestUrl : Option String) (succeeds : Nat → Bool) : Worker α :=
  ⟨if installed then some [] else none, ingestUrl, false, [], [], 0, succeeds⟩

inductive Op (α : Type) where
  | deliver (payload : α)
  | getBuffer
  | setBuffer (buffer : List α)
  | getIngestUrl
  | fetch (url : String) (events : List α)
  | scheduleFlush
  | timerFires

abbrev Op.Resp : Op α → Type
  | .getBuffer => Option (List α)
  | .getIngestUrl => Option String
  | _ => Unit

def Op.exec : (o : Op α) → Worker α → Worker α × o.Resp
  | .deliver payload, s => ({ s with received := s.received ++ [payload] }, ())
  | .getBuffer, s => (s, s.buffer)
  | .setBuffer buffer, s => ({ s with buffer := some buffer }, ())
  | .getIngestUrl, s => (s, s.ingestUrl)
  | .fetch url events, s =>
      ({ s with
          attempts := s.attempts + 1
          uploads := if s.succeeds s.attempts then s.uploads ++ [(url, events)] else s.uploads },
        ())
  | .scheduleFlush, s => ({ s with flushTimer := true }, ())
  | .timerFires, s => ({ s with flushTimer := false }, ())

abbrev workerInterface (α : Type) : Interface (Worker α) := ⟨Op α, Op.Resp, Op.exec⟩

abbrev WorkerProg (α : Type) := Prog (workerInterface α) Unit

def chosenUrl : Option String → String
  | some url => if url = "" then defaultIngest else url
  | none => defaultIngest

def flush : WorkerProg α :=
  .call .getIngestUrl fun got =>
    .call .getBuffer fun stored =>
      let buffer := stored.getD []
      if buffer.length = 0 then .ret ()
      else
        .call (.setBuffer []) fun _ =>
          .call (.fetch (chosenUrl got) buffer) fun _ => .ret ()

def capped (buffer : List α) : List α :=
  if buffer.length > maxBatch then buffer.drop (buffer.length - maxBatch) else buffer

structure Message (α : Type) where
  kind : String
  payload : α

def onMessage (msg : Message α) : WorkerProg α :=
  if msg.kind ≠ "rspark_event" then .ret ()
  else
    .call (.deliver msg.payload) fun _ =>
      .call .getBuffer fun stored =>
        let buffer := capped (stored.getD [] ++ [msg.payload])
        .call (.setBuffer buffer) fun _ =>
          if buffer.length ≥ maxBatch then flush else .call .scheduleFlush fun _ => .ret ()

inductive Task (α : Type) where
  | message (msg : Message α)
  | timer
  | suspend

def Task.prog : Task α → WorkerProg α
  | .message msg => onMessage msg
  | .timer => .call .timerFires fun _ => flush
  | .suspend => flush

def poolOf (s : Worker α) (tasks : List (Task α)) : Pool (workerInterface α) Unit :=
  ⟨s, tasks.map Task.prog⟩

end Worker

section Conditions
variable {α : Type}

/-- Fewer events wait than make a batch, an upload succeeds, and a timer fires if it is set. -/
def Orderly (s : Worker α) (o : Op α) : Prop :=
  s.waiting.length < maxBatch ∧
    match o with
    | .fetch _ _ => s.succeeds s.attempts = true
    | .timerFires => s.flushTimer = true
    | _ => True

instance (s : Worker α) (o : Op α) : Decidable (Orderly s o) := by
  unfold Orderly
  cases o <;> infer_instance

def readBy (i : Nat) : Event (workerInterface α) → Option (Option (List α))
  | ⟨j, .getBuffer, stored⟩ => if j = i then some stored else none
  | _ => none

def lastRead (i : Nat) (h : List (Event (workerInterface α))) : Option (Option (List α)) :=
  h.reverse.findSome? (readBy i)

/-- The condition on the steps: a write finds in the storage the events its thread has read. -/
def Current (h : List (Event (workerInterface α))) (s : Worker α) (i : Nat) (o : Op α) : Prop :=
  match o with
  | .setBuffer _ => ∃ stored ∈ lastRead i h, (stored.getD []).Perm s.waiting
  | _ => True

instance [DecidableEq α] (h : List (Event (workerInterface α))) (s : Worker α) (i : Nat)
    (o : Op α) : Decidable (Current h s i o) := by
  unfold Current
  cases o <;> infer_instance

theorem lastRead_snoc (i : Nat) (h : List (Event (workerInterface α)))
    (e : Event (workerInterface α)) : lastRead i (h ++ [e]) = (readBy i e).or (lastRead i h) := by
  rw [lastRead, List.reverse_append, List.reverse_singleton, List.singleton_append,
    List.findSome?_cons]
  cases readBy i e <;> rfl

theorem readBy_other {i : Nat} {e : Event (workerInterface α)} (other : e.thread ≠ i) :
    readBy i e = none := by
  unfold readBy
  split
  · exact if_neg other
  · rfl

end Conditions

section Phases
variable {α : Type}

inductive Phase (α : Type) where
  | ended
  | arriving (e : α)
  | reading (e : α)
  | adding (e : α) (stored : Option (List α))
  | scheduling
  | fired
  | addressing
  | collecting (url : String)
  | clearing (url : String) (stored : Option (List α))
  | posting (url : String) (buffer : List α)

def Phase.op : Phase α → Option (Op α)
  | .ended => none
  | .arriving e => some (.deliver e)
  | .reading _ => some .getBuffer
  | .adding e stored => some (.setBuffer (capped (stored.getD [] ++ [e])))
  | .scheduling => some .scheduleFlush
  | .fired => some .timerFires
  | .addressing => some .getIngestUrl
  | .collecting _ => some .getBuffer
  | .clearing _ _ => some (.setBuffer [])
  | .posting url buffer => some (.fetch url buffer)

def Phase.next : Phase α → (o : Op α) → o.Resp → Phase α
  | .arriving e, .deliver _, _ => .reading e
  | .reading e, .getBuffer, stored => .adding e stored
  | .adding _ _, .setBuffer buffer, _ =>
      if buffer.length ≥ maxBatch then .addressing else .scheduling
  | .fired, .timerFires, _ => .addressing
  | .addressing, .getIngestUrl, got => .collecting (chosenUrl got)
  | .collecting url, .getBuffer, stored =>
      if (stored.getD []).length = 0 then .ended else .clearing url stored
  | .clearing url stored, .setBuffer _, _ => .posting url (stored.getD [])
  | _, _, _ => .ended

/-- The events that a thread has in its hands: neither in the storage nor with the backend. -/
def Phase.carried : Phase α → List α
  | .reading e | .adding e _ => [e]
  | .posting _ buffer => buffer
  | _ => []

def Phase.closes : Phase α → Unit → Prop
  | .ended, _ => True
  | _, _ => False

def phaseProtocol : Protocol (workerInterface α) (Phase α) Unit :=
  ⟨fun g o => g.op = some o, fun _ _ _ => True, Phase.next, Phase.closes⟩

theorem flush_keeps : phaseProtocol.Keeps .addressing (flush : WorkerProg α) := by
  refine ⟨rfl, fun got _ => ⟨rfl, fun stored _ => ?_⟩⟩
  show phaseProtocol.Keeps (if (stored.getD []).length = 0 then .ended else .clearing _ stored) _
  dsimp only
  split
  · exact trivial
  · exact ⟨rfl, fun _ _ => ⟨rfl, fun _ _ => trivial⟩⟩

def startPhase : Task α → Phase α
  | .message msg => if msg.kind ≠ "rspark_event" then .ended else .arriving msg.payload
  | .timer => .fired
  | .suspend => .addressing

theorem task_keeps (t : Task α) : phaseProtocol.Keeps (startPhase t) t.prog := by
  cases t with
  | message msg =>
    dsimp only [startPhase, Task.prog, onMessage]
    split
    · exact trivial
    · refine ⟨rfl, fun _ _ => ⟨rfl, fun stored _ => ⟨rfl, fun _ _ => ?_⟩⟩⟩
      show phaseProtocol.Keeps (if _ then .addressing else .scheduling) _
      split
      · exact flush_keeps
      · exact ⟨rfl, fun _ _ => trivial⟩
  | timer => exact ⟨rfl, fun _ _ => flush_keeps⟩
  | suspend => exact flush_keeps

end Phases

section Balance
variable {α : Type} {h : List (Event (workerInterface α))} {s : Worker α} {gs : List (Phase α)}
variable {i : Nat} {g : Phase α} {o : Op α}

def Phase.Recalls : Phase α → Option (Option (List α)) → Prop
  | .adding _ stored, read | .clearing _ stored, read => read = some stored
  | _, _ => True

/-- Every received event is with the backend, in the storage or in the hands of a thread. -/
structure Accounted (h : List (Event (workerInterface α))) (s : Worker α) (gs : List (Phase α)) :
    Prop where
  recalls : ∀ (i : Nat) g, gs[i]? = some g → g.Recalls (lastRead i h)
  balance : (s.received : Multiset α) = s.posted + s.waiting + (gs.flatMap Phase.carried)

theorem capped_short {buffer : List α} (short : buffer.length ≤ maxBatch) :
    capped buffer = buffer := if_neg (Nat.not_lt.mpr short)

theorem recalled_perm {stored : Option (List α)} {buffer : List α}
    (recalls : lastRead i h = some stored) (current : Current h s i (.setBuffer buffer)) :
    (stored.getD []).Perm s.waiting := by
  obtain ⟨read, found, same⟩ := current
  obtain rfl := Option.some.inj (recalls.symm.trans found)
  exact same

theorem branches_empty {p : Prop} [Decidable p] {g₁ g₂ : Phase α} (left : g₁.carried = [])
    (right : g₂.carried = []) : Phase.carried (if p then g₁ else g₂) = [] := by
  split
  · exact left
  · exact right

theorem op_moves (next : g.op = some o) (recalls : g.Recalls (lastRead i h)) (orderly : Orderly s o)
    (current : Current h s i o) : ∃ new : Multiset α,
      ((Op.exec o s).1.received : Multiset α) = s.received + new ∧
      ((Op.exec o s).1.posted : Multiset α) + (Op.exec o s).1.waiting +
          (g.next o (Op.exec o s).2).carried = s.posted + s.waiting + g.carried + new := by
  cases g with
  | ended => exact nomatch next
  | arriving e =>
    obtain rfl := Option.some.inj next
    refine ⟨{e}, rfl, ?_⟩
    show (s.posted : Multiset α) + s.waiting + [e] = s.posted + s.waiting + ([] : List α) + {e}
    rw [Multiset.coe_nil, add_zero, Multiset.coe_singleton]
  | reading e | scheduling | fired | addressing =>
    obtain rfl := Option.some.inj next
    exact ⟨0, (add_zero _).symm, (add_zero _).symm⟩
  | adding e stored =>
    obtain rfl := Option.some.inj next
    have same := recalled_perm recalls current
    -- the cap cuts nothing off while fewer events wait than make a batch
    have written : capped (stored.getD [] ++ [e]) = stored.getD [] ++ [e] :=
      capped_short (by rw [List.length_append, same.length_eq]; exact orderly.1)
    have held : ((stored.getD [] ++ [e] : List α) : Multiset α) = s.waiting + [e] :=
      Multiset.coe_eq_coe.mpr (same.append_right [e])
    refine ⟨0, (add_zero _).symm, ?_⟩
    show (s.posted : Multiset α) + (capped (stored.getD [] ++ [e]) : List α) +
      (Phase.carried (if _ then .addressing else .scheduling) : List α) =
        s.posted + s.waiting + [e] + 0
    rw [branches_empty rfl rfl, written, held, Multiset.coe_nil, add_zero, add_zero, ← add_assoc]
  | collecting url =>
    obtain rfl := Option.some.inj next
    refine ⟨0, (add_zero _).symm, ?_⟩
    show (s.posted : Multiset α) + s.waiting +
      (Phase.carried (if _ then .ended else .clearing url s.buffer) : List α) =
        s.posted + s.waiting + ([] : List α) + 0
    rw [branches_empty rfl rfl, add_zero]
  | clearing url stored =>
    obtain rfl := Option.some.inj next
    have held : (stored.getD [] : Multiset α) = s.waiting :=
      Multiset.coe_eq_coe.mpr (recalled_perm recalls current)
    refine ⟨0, (add_zero _).symm, ?_⟩
    show (s.posted : Multiset α) + ([] : List α) + (stored.getD [] : List α) =
      s.posted + s.waiting + ([] : List α) + 0
    rw [held, Multiset.coe_nil, add_zero, add_zero, add_zero]
  | posting url buffer =>
    obtain rfl := Option.some.inj next
    have succeeds : s.succeeds s.attempts = true := orderly.2
    have accepted : (Op.exec (.fetch url buffer) s).1.posted = s.posted ++ buffer := by
      show (if s.succeeds s.attempts then s.uploads ++ [(url, buffer)] else s.uploads).flatMap
        Prod.snd = _
      rw [if_pos succeeds, List.flatMap_append, List.flatMap_singleton]
      rfl
    refine ⟨0, (add_zero _).symm, ?_⟩
    show ((Op.exec (.fetch url buffer) s).1.posted : Multiset α) + s.waiting + ([] : List α) =
      s.posted + s.waiting + buffer + 0
    rw [accepted, ← Multiset.coe_add, Multiset.coe_nil, add_zero, add_zero, add_right_comm]

theorem carried_set (ghost : gs[i]? = some g) : ∃ others : Multiset α,
    ((gs.flatMap Phase.carried : List α) : Multiset α) = g.carried + others ∧
      ∀ g', (((gs.set i g').flatMap Phase.carried : List α) : Multiset α) =
        g'.carried + others := by
  obtain ⟨bound, here⟩ := List.getElem?_eq_some_iff.mp ghost
  refine ⟨((gs.eraseIdx i).flatMap Phase.carried : List α), ?_, fun g' => ?_⟩
  · have perm := (List.getElem_cons_eraseIdx_perm bound).symm.flatMap_right Phase.carried
    rw [here] at perm
    exact Multiset.coe_eq_coe.mpr perm
  · exact Multiset.coe_eq_coe.mpr
      ((List.set_perm_cons_eraseIdx bound g').flatMap_right Phase.carried)

theorem op_recalls (next : g.op = some o) :
    (g.next o (Op.exec o s).2).Recalls
      (lastRead i (h ++ [(⟨i, o, (Op.exec o s).2⟩ : Event (workerInterface α))])) := by
  have read : lastRead i (h ++ [(⟨i, .getBuffer, s.buffer⟩ : Event (workerInterface α))]) =
      some s.buffer := by
    have own : readBy i (⟨i, .getBuffer, s.buffer⟩ : Event (workerInterface α)) = some s.buffer :=
      if_pos rfl
    rw [lastRead_snoc, own]
    rfl
  cases g with
  | ended => exact nomatch next
  | reading e =>
    obtain rfl := Option.some.inj next
    exact read
  | collecting url =>
    obtain rfl := Option.some.inj next
    show Phase.Recalls (if (s.buffer.getD []).length = 0 then .ended else .clearing url s.buffer) _
    split
    · exact trivial
    · exact read
  | adding e stored =>
    obtain rfl := Option.some.inj next
    show Phase.Recalls (if _ then .addressing else .scheduling) _
    split <;> exact trivial
  | arriving | scheduling | fired | addressing | clearing | posting =>
    obtain rfl := Option.some.inj next
    exact trivial

theorem accounted_step (accounted : Accounted h s gs) (ghost : gs[i]? = some g)
    (next : g.op = some o) (orderly : Orderly s o) (current : Current h s i o) :
    Accounted (h ++ [⟨i, o, (Op.exec o s).2⟩]) (Op.exec o s).1
      (gs.set i (g.next o (Op.exec o s).2)) := by
  have own := accounted.recalls i g ghost
  refine ⟨forall_set (fun j g₂ other there => ?_) (op_recalls next), ?_⟩
  · -- the reads of one thread are not those of another
    rw [lastRead_snoc, readBy_other other, Option.none_or]
    exact accounted.recalls j g₂ there
  · obtain ⟨new, received, moved⟩ := op_moves next own orderly current
    obtain ⟨others, before, after⟩ := carried_set ghost
    rw [received, after, ← add_assoc, moved, accounted.balance, before]
    abel

end Balance

section Flushes
variable {α : Type} {h : List (Event (workerInterface α))} {s : Worker α} {gs : List (Phase α)}
variable {i : Nat} {g : Phase α} {o : Op α}

def Op.adds : Op α → Bool
  | .setBuffer (_ :: _) => true
  | _ => false

/-- Every thread has come to its end or has not begun. -/
def Idle (tasks : List (Task α)) (p : Pool (workerInterface α) Unit) : Prop :=
  ∀ (i : Nat) t q, tasks[i]? = some t → p.threads[i]? = some q → q = .ret () ∨ q = t.prog

/-- A flush has begun after the last write of a message, and nothing is in progress any more. -/
def Flushed (tasks : List (Task α)) (history : List (Event (workerInterface α)))
    (p : Pool (workerInterface α) Unit) : Prop :=
  (∃ before i got after, history = before ++ ⟨i, .getIngestUrl, got⟩ :: after ∧
    ∀ e ∈ after, Op.adds e.op = false) ∧ Idle tasks p

def Phase.resting : Phase α → Bool
  | .ended | .arriving _ | .fired | .addressing => true
  | _ => false

/-- A flush that has still to read the buffer or to empty it. -/
def Phase.emptying : Phase α → Bool
  | .collecting _ | .clearing _ _ => true
  | _ => false

/-- Once a flush has begun, the buffer is empty as soon as the flush is done with it, and stays
    so until a message writes. -/
def Emptied (h : List (Event (workerInterface α))) (s : Worker α) (gs : List (Phase α)) : Prop :=
  ∀ before i got after, h = before ++ ⟨i, .getIngestUrl, got⟩ :: after →
    (∀ e ∈ after, Op.adds e.op = false) →
      s.waiting = [] ∨ ∃ g : Phase α, gs[i]? = some g ∧ g.emptying = true

theorem stays_empty (quiet : o.adds = false) (empty : s.waiting = []) :
    (Op.exec o s).1.waiting = [] := by
  cases o with
  | setBuffer buffer =>
    cases buffer with
    | nil => rfl
    | cons e rest => exact nomatch quiet
  | deliver | getBuffer | getIngestUrl | fetch | scheduleFlush | timerFires => exact empty

theorem begun (next : g.op = some .getIngestUrl) :
    (g.next .getIngestUrl s.ingestUrl).emptying = true := by
  cases g with
  | addressing => rfl
  | ended | arriving | reading | adding | scheduling | fired | collecting | clearing | posting =>
    exact nomatch next

theorem emptying_step (emptying : g.emptying = true) (next : g.op = some o) :
    (Op.exec o s).1.waiting = [] ∨ (g.next o (Op.exec o s).2).emptying = true := by
  cases g with
  | collecting url =>
    obtain rfl := Option.some.inj next
    show s.waiting = [] ∨ Phase.emptying (if s.waiting.length = 0 then .ended else _) = true
    split
    · exact .inl (List.length_eq_zero_iff.mp ‹_›)
    · exact .inr rfl
  | clearing url stored =>
    obtain rfl := Option.some.inj next
    exact .inl rfl
  | ended | arriving | reading | adding | scheduling | fired | addressing | posting =>
    exact nomatch emptying

theorem emptied_step (emptied : Emptied h s gs) (ghost : gs[i]? = some g)
    (next : g.op = some o) :
    Emptied (h ++ [⟨i, o, (Op.exec o s).2⟩]) (Op.exec o s).1
      (gs.set i (g.next o (Op.exec o s).2)) := by
  intro before j got after same quiet
  have bound := (List.getElem?_eq_some_iff.mp ghost).1
  rcases List.eq_nil_or_concat after with rfl | ⟨rest, e, rfl⟩
  · -- the flush begins with this operation
    obtain ⟨_, last⟩ := List.append_inj' same rfl
    obtain ⟨rfl, rfl, _⟩ := Event.mk.inj (List.cons.inj last).1
    exact .inr ⟨_, List.getElem?_set_self bound, begun next⟩
  · rw [List.concat_eq_append] at same quiet
    rw [← List.cons_append, ← List.append_assoc] at same
    obtain ⟨earlier, last⟩ := List.append_inj' same rfl
    obtain rfl := (List.cons.inj last).1
    have silent : o.adds = false := quiet _ (List.mem_append_right _ (List.mem_singleton_self _))
    rcases emptied before j got rest earlier fun e he => quiet e (List.mem_append_left _ he) with
      empty | ⟨g₂, there, emptying⟩
    · exact .inl (stays_empty silent empty)
    · by_cases own : i = j
      · subst own
        obtain rfl := Option.some.inj (ghost.symm.trans there)
        exact (emptying_step emptying next).imp_right fun still =>
          ⟨_, List.getElem?_set_self bound, still⟩
      · exact .inr ⟨g₂, (List.getElem?_set_ne own).trans there, emptying⟩

theorem idle_resting {t : Task α} {q : WorkerProg α} (keeps : phaseProtocol.Keeps g q)
    (idle : q = .ret () ∨ q = t.prog) : g.resting = true := by
  have finished (closes : g.closes ()) : g.resting = true := by
    cases g <;> first | rfl | exact closes.elim
  have opening {o : Op α} (next : g.op = some o)
      (first : (∃ e, o = .deliver e) ∨ o = .timerFires ∨ o = .getIngestUrl) :
      g.resting = true := by
    rcases first with ⟨e, rfl⟩ | rfl | rfl <;> cases g <;> first | rfl | exact nomatch next
  rcases idle with rfl | rfl
  · exact finished keeps
  cases t with
  | message msg =>
    dsimp only [Task.prog, onMessage] at keeps
    split at keeps
    · exact finished keeps
    · exact opening keeps.1 (.inl ⟨_, rfl⟩)
  | timer => exact opening keeps.1 (.inr (.inl rfl))
  | suspend => exact opening keeps.1 (.inr (.inr rfl))

theorem resting_empty (resting : g.resting = true) : g.carried = [] ∧ g.emptying = false := by
  cases g with
  | ended | arriving | fired | addressing => exact ⟨rfl, rfl⟩
  | reading | adding | scheduling | collecting | clearing | posting => exact nomatch resting

end Flushes

section Runs
variable {α : Type} {tasks : List (Task α)} {history : List (Event (workerInterface α))}
variable {p : Pool (workerInterface α) Unit} {gs : List (Phase α)}

theorem worker_guarantees : (phaseProtocol (α := α)).Guarantees
    (fun h s i o => Orderly s o ∧ Current h s i o)
    (fun h s gs => Accounted h s gs ∧ Emptied h s gs) where
  answers := fun _ _ _ _ => trivial
  preserves := fun inv ghost next ⟨orderly, current⟩ =>
    ⟨accounted_step inv.1 ghost next orderly current, emptied_step inv.2 ghost next⟩

theorem start_carries (t : Task α) : (startPhase t).carried = [] ∧
    ∀ read, (startPhase t).Recalls read := by
  cases t with
  | message msg =>
    dsimp only [startPhase]
    split <;> exact ⟨rfl, fun _ => trivial⟩
  | timer | suspend => exact ⟨rfl, fun _ => trivial⟩

theorem worker_starts (installed : Bool) (url : Option String) (succeeds : Nat → Bool)
    (tasks : List (Task α)) :
    Accounted [] (Worker.new installed url succeeds) (tasks.map startPhase) ∧
      Emptied [] (Worker.new installed url succeeds) (tasks.map startPhase) := by
  refine ⟨⟨fun i g ghost => ?_, ?_⟩, fun before i got after same => ?_⟩
  · obtain ⟨t, _, rfl⟩ := List.mem_map.mp (List.mem_of_getElem? ghost)
    exact (start_carries t).2 _
  · have none : (tasks.map startPhase).flatMap Phase.carried = [] :=
      List.flatMap_eq_nil_iff.mpr (List.forall_mem_map.mpr fun t _ => (start_carries t).1)
    rw [none]
    cases installed <;> rfl
  · exact absurd same.symm (List.append_ne_nil_of_right_ne_nil _ (List.cons_ne_nil _ _))

theorem idle_ghosts (fits : phaseProtocol.Matches gs p.threads)
    (many : p.threads.length = tasks.length) (idle : Idle tasks p) :
    ∀ (i : Nat) (g : Phase α), gs[i]? = some g → g.resting = true := by
  intro i g ghost
  obtain ⟨bound, _⟩ := List.getElem?_eq_some_iff.mp ghost
  have inside : i < p.threads.length := fits.1 ▸ bound
  have here := List.getElem?_eq_getElem inside
  have task := List.getElem?_eq_getElem (many ▸ inside)
  exact idle_resting (fits.2 i g _ ghost here) (idle i _ _ task here)

/-- When every write of the buffer finds there the events that its own thread has read, no event
    is posted twice, and after a final flush each has been posted once. -/
theorem posted_exactly_once {installed : Bool} {url : Option String} {succeeds : Nat → Bool}
    (run : GuardedRun (fun h s i o => Orderly s o ∧ Current h s i o)
      (poolOf (Worker.new installed url succeeds) tasks) history p) :
    p.state.posted.Subperm p.state.received ∧
      (Flushed tasks history p → p.state.posted.Perm p.state.received) := by
  obtain ⟨gs, fits, accounted, emptied⟩ := Protocol.guarded_rule worker_guarantees
    (Protocol.matches_map fun t _ => task_keeps t) (worker_starts installed url succeeds tasks) run
  refine ⟨?_, fun ⟨⟨before, i, got, after, same, quiet⟩, idle⟩ => ?_⟩
  · refine Multiset.coe_le.mp ?_
    rw [accounted.balance, add_assoc]
    exact Multiset.le_add_right _ _
  · have many : p.threads.length = tasks.length :=
      (run_length (run_of_guarded run)).trans (List.length_map _)
    have rest := idle_ghosts fits many idle
    have handed : gs.flatMap Phase.carried = [] :=
      List.flatMap_eq_nil_iff.mpr fun g here =>
        have ⟨i, ghost⟩ := List.getElem?_of_mem here
        (resting_empty (rest i g ghost)).1
    have drained : p.state.waiting = [] := by
      rcases emptied before i got after same quiet with empty | ⟨g, ghost, emptying⟩
      · exact empty
      · exact absurd emptying (Bool.eq_false_iff.mp (resting_empty (rest i g ghost)).2)
    refine Multiset.coe_eq_coe.mp ?_
    rw [accounted.balance, handed, drained, Multiset.coe_nil, add_zero, add_zero]

end Runs

section Overlaps

def quickWorker (tasks : List (Task Nat)) : Pool (workerInterface Nat) Unit :=
  poolOf (Worker.new true none fun _ => true) tasks

def event (payload : Nat) : Task Nat := .message ⟨"rspark_event", payload⟩

theorem flushed_at {tasks : List (Task Nat)} {history : List (Event (workerInterface Nat))}
    {p : Pool (workerInterface Nat) Unit} (n : Nat) {i : Nat} {got : Option String}
    (begun : history[n]? = some ⟨i, .getIngestUrl, got⟩)
    (quiet : ((history.drop (n + 1)).all fun e => !Op.adds e.op) = true)
    (returned : ∀ q ∈ p.threads, q = .ret ()) : Flushed tasks history p := by
  obtain ⟨bound, here⟩ := List.getElem?_eq_some_iff.mp begun
  refine ⟨⟨history.take n, i, got, history.drop (n + 1), ?_, fun e later => ?_⟩,
    fun i t q _ there => .inl (returned q (List.mem_of_getElem? there))⟩
  · rw [← here, List.getElem_cons_drop, List.take_append_drop]
  · simpa using List.all_eq_true.mp quiet e later

/-- Two messages, each handled alone, and the timer that they have set. -/
theorem one_by_one_posted : ∃ history p,
    GuardedRun (fun h s i o => Orderly s o ∧ Current h s i o)
      (quickWorker [event 1, event 2, .timer]) history p ∧
    p.state.posted.Perm p.state.received ∧ p.state.received = [1, 2] := by
  obtain ⟨history, p, ran, begun, quiet, threads, received⟩ : ∃ history p,
      (quickWorker [event 1, event 2, .timer]).schedule [0, 0, 0, 0, 1, 1, 1, 1, 2, 2, 2, 2, 2] =
        some (history, p) ∧ history[9]? = some ⟨2, .getIngestUrl, none⟩ ∧
      ((history.drop 10).all fun e => !Op.adds e.op) = true ∧
      p.threads = List.replicate 3 (.ret ()) ∧ p.state.received = [1, 2] :=
    ⟨_, _, rfl, rfl, rfl, rfl, rfl⟩
  have run : GuardedRun (fun h s i o => Orderly s o ∧ Current h s i o)
      (quickWorker [event 1, event 2, .timer]) history p := guarded_of_schedule ran (by decide)
  have flushed : Flushed [event 1, event 2, .timer] history p := flushed_at 9 begun quiet
    fun q here => List.eq_of_mem_replicate (threads ▸ here)
  exact ⟨history, p, run, (posted_exactly_once run).2 flushed, received⟩

/-- Two messages that both read the buffer before either writes, or two flushes. -/
theorem overlaps_repeat_and_lose :
    (¬ ∀ (tasks : List (Task Nat)) history p,
      GuardedRun (fun _ s _ o => Orderly s o) (quickWorker tasks) history p →
        p.state.posted.Subperm p.state.received) ∧
    ¬ ∀ (tasks : List (Task Nat)) history p,
      GuardedRun (fun _ s _ o => Orderly s o) (quickWorker tasks) history p →
        Flushed tasks history p → p.state.posted.Perm p.state.received := by
  constructor
  · intro claim
    obtain ⟨history, p, ran, posted, received⟩ : ∃ history p,
        (quickWorker [event 1, .suspend, .suspend]).schedule
          [0, 0, 0, 0, 1, 1, 2, 2, 1, 2, 1, 2] = some (history, p) ∧
        p.state.posted = [1, 1] ∧ p.state.received = [1] := ⟨_, _, rfl, rfl, rfl⟩
    have once := claim _ _ _ (guarded_of_schedule ran (by decide))
    rw [posted, received] at once
    exact absurd once.length_le (by decide)
  · intro claim
    obtain ⟨history, p, ran, begun, quiet, threads, posted, received⟩ : ∃ history p,
        (quickWorker [event 1, event 2, .suspend]).schedule
          [0, 0, 1, 1, 0, 1, 0, 1, 2, 2, 2, 2] = some (history, p) ∧
        history[8]? = some ⟨2, .getIngestUrl, none⟩ ∧
        ((history.drop 9).all fun e => !Op.adds e.op) = true ∧
        p.threads = List.replicate 3 (.ret ()) ∧
        p.state.posted = [2] ∧ p.state.received = [1, 2] := ⟨_, _, rfl, rfl, rfl, rfl, rfl, rfl⟩
    have once := claim _ _ _ (guarded_of_schedule ran (by decide))
      (flushed_at 8 begun quiet fun q here => List.eq_of_mem_replicate (threads ▸ here))
    rw [posted, received] at once
    exact absurd once.length_eq (by decide)

end Overlaps

end RSparkTracker
