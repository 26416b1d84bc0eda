import Mathlib.Tactic.Common

/- Programs that call the operations of a shared object. A program runs alone, or in a
   pool whose members are interleaved at the grain of single operations. -/
namespace Calls

structure Interface (σ : Type) where
  Op : Type
  Resp : Op → Type
  exec : (o : Op) → σ → σ × Resp o

variable {σ : Type} {I : Interface σ} {ρ τ : Type}

inductive Prog (I : Interface σ) (ρ : Type) where
  | ret (r : ρ)
  | abort
  | call (o : I.Op) (k : I.Resp o → Prog I ρ)

namespace Prog

def bind (p : Prog I ρ) (f : ρ → Prog I τ) : Prog I τ :=
  match p with
  | .ret r => f r
  | .abort => .abort
  | .call o k => .call o fun r => (k r).bind f

def map (f : ρ → τ) (p : Prog I ρ) : Prog I τ := p.bind fun r => .ret (f r)

/-- Final state and result; no result when the program aborts. -/
def run : Prog I ρ → σ → σ × Option ρ
  | .ret r, s => (s, some r)
  | .abort, s => (s, none)
  | .call o k, s => (k (I.exec o s).2).run (I.exec o s).1

@[simp] theorem run_ret (r : ρ) (s : σ) : (Prog.ret r : Prog I ρ).run s = (s, some r) := rfl

@[simp] theorem run_abort (s : σ) : (Prog.abort : Prog I ρ).run s = (s, none) := rfl

theorem run_call (o : I.Op) (k : I.Resp o → Prog I ρ) (s : σ) :
    (Prog.call o k).run s = (k (I.exec o s).2).run (I.exec o s).1 := rfl

theorem run_bind (p : Prog I ρ) (f : ρ → Prog I τ) (s : σ) :
    (p.bind f).run s =
      match p.run s with
      | (s', some r) => (f r).run s'
      | (s', none) => (s', none) := by
  induction p generalizing s with
  | ret r => rfl
  | abort => rfl
  | call o k ih => exact ih _ _

end Prog

structure Event (I : Interface σ) where
  thread : Nat
  op : I.Op
  resp : I.Resp op

structure Pool (I : Interface σ) (ρ : Type) where
  state : σ
  threads : List (Prog I ρ)

inductive Run (start : Pool I ρ) : List (Event I) → Pool I ρ → Prop where
  | nil : Run start [] start
  | step {history : List (Event I)} {p : Pool I ρ} (i : Nat) (o : I.Op)
      (k : I.Resp o → Prog I ρ) (before : Run start history p)
      (next : p.threads[i]? = some (.call o k)) :
      Run start (history ++ [⟨i, o, (I.exec o p.state).2⟩])
        ⟨(I.exec o p.state).1, p.threads.set i (k (I.exec o p.state).2)⟩

/-- Runs in which every operation meets a condition on what came before it. -/
inductive GuardedRun (guard : List (Event I) → σ → Nat → I.Op → Prop) (start : Pool I ρ) :
    List (Event I) → Pool I ρ → Prop where
  | nil : GuardedRun guard start [] start
  | step {history : List (Event I)} {p : Pool I ρ} (i : Nat) (o : I.Op)
      (k : I.Resp o → Prog I ρ) (before : GuardedRun guard start history p)
      (next : p.threads[i]? = some (.call o k)) (meets : guard history p.state i o) :
      GuardedRun guard start (history ++ [⟨i, o, (I.exec o p.state).2⟩])
        ⟨(I.exec o p.state).1, p.threads.set i (k (I.exec o p.state).2)⟩

theorem guarded_of_run {start p : Pool I ρ} {history : List (Event I)}
    (run : Run start history p) : GuardedRun (fun _ _ _ _ => True) start history p := by
  induction run with
  | nil => exact .nil
  | step i o k before next ih => exact .step i o k ih next trivial

def Pool.advance (p : Pool I ρ) (i : Nat) : Option (Event I × Pool I ρ) :=
  match p.threads[i]? with
  | some (.call o k) =>
      some (⟨i, o, (I.exec o p.state).2⟩,
        ⟨(I.exec o p.state).1, p.threads.set i (k (I.exec o p.state).2)⟩)
  | _ => none

def Pool.schedule (p : Pool I ρ) : List Nat → Option (List (Event I) × Pool I ρ)
  | [] => some ([], p)
  | i :: rest =>
      match p.advance i with
      | none => none
      | some (e, p') => (p'.schedule rest).map fun (es, last) => (e :: es, last)

theorem run_append_advance {start p p' : Pool I ρ} {history : List (Event I)} {i : Nat}
    {e : Event I} (before : Run start history p) (h : p.advance i = some (e, p')) :
    Run start (history ++ [e]) p' := by
  unfold Pool.advance at h
  split at h
  · rename_i o k next
    obtain ⟨rfl, rfl⟩ := Prod.mk.inj (Option.some.inj h)
    exact .step i o k before next
  · exact absurd h (by simp)

theorem run_append_schedule {start p last : Pool I ρ} {history events : List (Event I)}
    {order : List Nat} (before : Run start history p)
    (h : p.schedule order = some (events, last)) : Run start (history ++ events) last := by
  induction order generalizing p history events with
  | nil =>
    obtain ⟨rfl, rfl⟩ := Prod.mk.inj (Option.some.inj h)
    simpa using before
  | cons i rest ih =>
    simp only [Pool.schedule] at h
    split at h
    · exact absurd h (by simp)
    · rename_i e p' adv
      obtain ⟨⟨es, last'⟩, sub, same⟩ := Option.map_eq_some_iff.mp h
      obtain ⟨rfl, rfl⟩ := Prod.mk.inj same
      have later := ih (run_append_advance before adv) sub
      simpa using later

theorem run_of_schedule {start last : Pool I ρ} {events : List (Event I)} {order : List Nat}
    (h : start.schedule order = some (events, last)) : Run start events last := by
  simpa using run_append_schedule .nil h

def Pool.meets (guard : List (Event I) → σ → Nat → I.Op → Prop)
    [∀ h s i o, Decidable (guard h s i o)] (p : Pool I ρ) (history : List (Event I)) :
    List Nat → Bool
  | [] => true
  | i :: rest =>
      match p.advance i with
      | none => false
      | some (e, p') =>
          decide (guard history p.state i e.op) && p'.meets guard (history ++ [e]) rest

theorem guarded_append_schedule {guard : List (Event I) → σ → Nat → I.Op → Prop}
    [∀ h s i o, Decidable (guard h s i o)] {start p last : Pool I ρ}
    {history events : List (Event I)} {order : List Nat}
    (before : GuardedRun guard start history p) (h : p.schedule order = some (events, last))
    (met : p.meets guard history order = true) :
    GuardedRun guard start (history ++ events) last := by
  induction order generalizing p history events with
  | nil =>
    obtain ⟨rfl, rfl⟩ := Prod.mk.inj (Option.some.inj h)
    simpa using before
  | cons i rest ih =>
    simp only [Pool.schedule, Pool.meets] at h met
    split at h
    · exact absurd h (by simp)
    · rename_i e p' adv
      simp only [adv, Bool.and_eq_true, decide_eq_true_eq] at met
      obtain ⟨⟨es, last'⟩, sub, same⟩ := Option.map_eq_some_iff.mp h
      obtain ⟨rfl, rfl⟩ := Prod.mk.inj same
      have stepped : GuardedRun guard start (history ++ [e]) p' := by
        unfold Pool.advance at adv
        split at adv
        · rename_i o k next
          obtain ⟨rfl, rfl⟩ := Prod.mk.inj (Option.some.inj adv)
          exact .step i o k before next met.1
        · exact absurd adv (by simp)
      have later := ih stepped sub met.2
      simpa using later

theorem guarded_of_schedule {guard : List (Event I) → σ → Nat → I.Op → Prop}
    [∀ h s i o, Decidable (guard h s i o)] {start last : Pool I ρ} {events : List (Event I)}
    {order : List Nat} (h : start.schedule order = some (events, last))
    (met : start.meets guard [] order = true) : GuardedRun guard start events last := by
  simpa using guarded_append_schedule .nil h met

/-- A discipline for one thread. Its ghost state says which operations the thread may call,
    what it may count on in the answer, and what it may return. -/
structure Protocol (I : Interface σ) (γ ρ : Type) where
  allowed : γ → I.Op → Prop
  relies : γ → (o : I.Op) → I.Resp o → Prop
  next : γ → (o : I.Op) → I.Resp o → γ
  final : γ → ρ → Prop

namespace Protocol
variable {γ : Type}

def Keeps (P : Protocol I γ ρ) : γ → Prog I ρ → Prop
  | g, .ret r => P.final g r
  | _, .abort => True
  | g, .call o k => P.allowed g o ∧ ∀ r, P.relies g o r → P.Keeps (P.next g o r) (k r)

/-- An invariant of history, state and ghosts that every allowed operation preserves when
    its guard is met, while answering as the thread relies on. -/
structure Guarantees (P : Protocol I γ ρ) (guard : List (Event I) → σ → Nat → I.Op → Prop)
    (J : List (Event I) → σ → List γ → Prop) : Prop where
  answers : ∀ {h s} {gs : List γ} {i : Nat} {g o}, J h s gs → gs[i]? = some g →
    P.allowed g o → guard h s i o → P.relies g o (I.exec o s).2
  preserves : ∀ {h s} {gs : List γ} {i : Nat} {g o}, J h s gs → gs[i]? = some g →
    P.allowed g o → guard h s i o →
    J (h ++ [⟨i, o, (I.exec o s).2⟩]) (I.exec o s).1 (gs.set i (P.next g o (I.exec o s).2))

def Matches (P : Protocol I γ ρ) (gs : List γ) (threads : List (Prog I ρ)) : Prop :=
  gs.length = threads.length ∧
    ∀ (i : Nat) g p, gs[i]? = some g → threads[i]? = some p → P.Keeps g p

theorem matches_map {κ : Type} {P : Protocol I γ ρ} {calls : List κ} {ghost : κ → γ}
    {prog : κ → Prog I ρ} (keeps : ∀ c ∈ calls, P.Keeps (ghost c) (prog c)) :
    P.Matches (calls.map ghost) (calls.map prog) := by
  refine ⟨by simp, fun i g p hg hp => ?_⟩
  obtain ⟨c, here, rfl⟩ := Option.map_eq_some_iff.mp (List.getElem?_map ▸ hg)
  obtain ⟨c', here', rfl⟩ := Option.map_eq_some_iff.mp (List.getElem?_map ▸ hp)
  obtain rfl := Option.some.inj (here.symm.trans here')
  exact keeps c (List.mem_of_getElem? here)

theorem matches_ghost {P : Protocol I γ ρ} {gs : List γ} {threads : List (Prog I ρ)}
    (h : P.Matches gs threads) {i : Nat} {p : Prog I ρ} (here : threads[i]? = some p) :
    ∃ g, gs[i]? = some g ∧ P.Keeps g p := by
  obtain ⟨bound, _⟩ := List.getElem?_eq_some_iff.mp here
  have inside : i < gs.length := h.1 ▸ bound
  exact ⟨gs[i], List.getElem?_eq_getElem inside, h.2 i _ p (List.getElem?_eq_getElem inside) here⟩

theorem matches_set {P : Protocol I γ ρ} {gs : List γ} {threads : List (Prog I ρ)}
    (h : P.Matches gs threads) {i : Nat} {g : γ} {p : Prog I ρ} (keeps : P.Keeps g p) :
    P.Matches (gs.set i g) (threads.set i p) := by
  refine ⟨by simpa using h.1, fun j g' p' hg hp => ?_⟩
  by_cases same : i = j
  · subst same
    simp only [List.getElem?_set_self', Option.map_eq_map, Option.map_eq_some_iff] at hg hp
    obtain ⟨_, _, rfl⟩ := hg
    obtain ⟨_, _, rfl⟩ := hp
    exact keeps
  · rw [List.getElem?_set_ne same] at hg hp
    exact h.2 j g' p' hg hp

/-- The rule for pools: threads that keep the protocol stay within it, and the invariant
    holds after every run whose operations meet their guards. -/
theorem guarded_rule {P : Protocol I γ ρ} {guard : List (Event I) → σ → Nat → I.Op → Prop}
    {J : List (Event I) → σ → List γ → Prop} (guarantees : P.Guarantees guard J)
    {start p : Pool I ρ} {gs₀ : List γ} {history : List (Event I)}
    (fits : P.Matches gs₀ start.threads) (init : J [] start.state gs₀)
    (run : GuardedRun guard start history p) : ∃ gs, P.Matches gs p.threads ∧
      J history p.state gs := by
  induction run with
  | nil => exact ⟨gs₀, fits, init⟩
  | step i o k before next meets ih =>
    obtain ⟨gs, fits, inv⟩ := ih
    obtain ⟨g, ghost, allowed, continues⟩ := matches_ghost fits next
    have answer := guarantees.answers inv ghost allowed meets
    exact ⟨_, matches_set fits (continues _ answer), guarantees.preserves inv ghost allowed meets⟩

theorem run_rule {P : Protocol I γ ρ} {J : List (Event I) → σ → List γ → Prop}
    (guarantees : P.Guarantees (fun _ _ _ _ => True) J) {start p : Pool I ρ} {gs₀ : List γ}
    {history : List (Event I)} (fits : P.Matches gs₀ start.threads) (init : J [] start.state gs₀)
    (run : Run start history p) : ∃ gs, P.Matches gs p.threads ∧ J history p.state gs :=
  guarded_rule guarantees fits init (guarded_of_run run)

/-- A discipline that is kept wherever another one is, in ghost states that belong together. -/
structure Follows {δ : Type} (P : Protocol I γ ρ) (Q : Protocol I δ ρ) (R : γ → δ → Prop) :
    Prop where
  allowed : ∀ {g h o}, R g h → P.allowed g o → Q.allowed h o
  relies : ∀ {g h o r}, R g h → P.allowed g o → Q.relies h o r → P.relies g o r
  next : ∀ {g h o r}, R g h → P.allowed g o → Q.relies h o r → R (P.next g o r) (Q.next h o r)
  final : ∀ {g h x}, R g h → P.final g x → Q.final h x

theorem Follows.keeps {δ : Type} {P : Protocol I γ ρ} {Q : Protocol I δ ρ} {R : γ → δ → Prop}
    (follows : Follows P Q R) {g : γ} {h : δ} (related : R g h) {p : Prog I ρ}
    (keeps : P.Keeps g p) : Q.Keeps h p := by
  induction p generalizing g h with
  | ret x => exact follows.final related keeps
  | abort => exact trivial
  | call o k ih =>
    obtain ⟨may, continues⟩ := keeps
    refine ⟨follows.allowed related may, fun r counts => ?_⟩
    exact ih r (follows.next related may counts)
      (continues r (follows.relies related may counts))

def comap (P : Protocol I γ τ) (f : ρ → τ) : Protocol I γ ρ :=
  ⟨P.allowed, P.relies, P.next, fun g r => P.final g (f r)⟩

theorem keeps_map {P : Protocol I γ τ} {f : ρ → τ} (p : Prog I ρ) :
    ∀ g, (P.comap f).Keeps g p → P.Keeps g (p.map f) := by
  induction p with
  | ret r => exact fun g keeps => keeps
  | abort => exact fun _ _ => trivial
  | call o k ih =>
    rintro g ⟨may, continues⟩
    exact ⟨may, fun r counts => ih r _ (continues r counts)⟩

end Protocol

/-- What every operation preserves holds after every run. -/
theorem run_invariant {J : σ → Prop} (preserves : ∀ {s} (o : I.Op), J s → J (I.exec o s).1)
    {start p : Pool I ρ} {history : List (Event I)} (init : J start.state)
    (run : Run start history p) : J p.state := by
  induction run with
  | nil => exact init
  | step i o k before next ih => exact preserves o ih

/-- What a program comes to when its operations are answered as the events say. -/
inductive Reaches : Prog I ρ → List (Event I) → Prog I ρ → Prop where
  | here (p : Prog I ρ) : Reaches p [] p
  | call {o : I.Op} {k : I.Resp o → Prog I ρ} {events : List (Event I)} {q : Prog I ρ} (i : Nat)
      (r : I.Resp o) (rest : Reaches (k r) events q) : Reaches (.call o k) (⟨i, o, r⟩ :: events) q

theorem Reaches.snoc {p : Prog I ρ} {events : List (Event I)} {o : I.Op}
    {k : I.Resp o → Prog I ρ} (before : Reaches p events (.call o k)) (i : Nat) (r : I.Resp o) :
    Reaches p (events ++ [⟨i, o, r⟩]) (k r) := by
  generalize last : Prog.call o k = q at before
  induction before with
  | here p =>
    subst last
    exact .call i r (.here _)
  | call j found rest ih => exact .call j found (ih last)

theorem reaches_abort {o : I.Op} {k : I.Resp o → Prog I ρ} {events : List (Event I)}
    (h : Reaches (.call o k) events .abort) :
    ∃ i r rest, events = ⟨i, o, r⟩ :: rest ∧ Reaches (k r) rest .abort := by
  cases h with
  | call i r rest => exact ⟨i, r, _, rfl, rest⟩

theorem reaches_ret {x : ρ} {events : List (Event I)} {q : Prog I ρ}
    (h : Reaches (.ret x) events q) : q = .ret x := by
  cases h
  rfl

theorem run_reaches {start p : Pool I ρ} {history : List (Event I)} (run : Run start history p)
    {i : Nat} {prog : Prog I ρ} (here : start.threads[i]? = some prog) :
    ∃ q, p.threads[i]? = some q ∧ Reaches prog (history.filter (·.thread = i)) q := by
  induction run with
  | nil => exact ⟨prog, here, .here prog⟩
  | @step h p j o k before next ih =>
    obtain ⟨q, now, reached⟩ := ih
    rw [List.filter_append]
    by_cases same : j = i
    · subst same
      obtain rfl := Option.some.inj (next.symm.trans now)
      refine ⟨k (I.exec o p.state).2, ?_, by simpa using reached.snoc j (I.exec o p.state).2⟩
      exact List.getElem?_set_self (List.getElem?_eq_some_iff.mp next).1
    · refine ⟨q, (List.getElem?_set_ne same).trans now, ?_⟩
      simpa [same] using reached

theorem run_length {start p : Pool I ρ} {history : List (Event I)} (run : Run start history p) :
    p.threads.length = start.threads.length := by
  induction run with
  | nil => rfl
  | step i o k before next ih => exact List.length_set.trans ih

theorem run_of_guarded {guard : List (Event I) → σ → Nat → I.Op → Prop} {start p : Pool I ρ}
    {history : List (Event I)} (run : GuardedRun guard start history p) :
    Run start history p := by
  induction run with
  | nil => exact .nil
  | step i o k before next meets ih => exact .step i o k ih next

theorem run_prefix {start p : Pool I ρ} {history : List (Event I)} (run : Run start history p)
    {earlier later : List (Event I)} (same : history = earlier ++ later) :
    ∃ q, Run start earlier q := by
  induction run generalizing later with
  | nil =>
    obtain ⟨rfl, _⟩ := List.append_eq_nil_iff.mp same.symm
    exact ⟨start, .nil⟩
  | step i o k before next ih =>
    rcases List.eq_nil_or_concat later with rfl | ⟨rest, e, rfl⟩
    · rw [List.append_nil] at same
      subst same
      exact ⟨_, .step i o k before next⟩
    · rw [List.concat_eq_append, ← List.append_assoc] at same
      exact ih (List.append_inj' same rfl).1

section Sequential
variable {α : Type} {step : α → σ → σ} {allowed : σ → α → Prop}

inductive Steps (step : α → σ → σ) (allowed : σ → α → Prop) (start : σ) :
    List α → σ → Prop where
  | nil : Steps step allowed start [] start
  | snoc {calls : List α} {s : σ} (c : α) (before : Steps step allowed start calls s)
      (may : allowed s c) : Steps step allowed start (calls ++ [c]) (step c s)

theorem Steps.cons {start s : σ} {calls : List α} (c : α) (may : allowed start c)
    (run : Steps step allowed (step c start) calls s) :
    Steps step allowed start (c :: calls) s := by
  induction run with
  | nil => exact .snoc c .nil may
  | snoc c' before may' ih => exact .snoc c' ih may'

theorem Steps.foldl {start s : σ} {calls : List α} (run : Steps step allowed start calls s) :
    s = calls.foldl (fun s c => step c s) start := by
  induction run with
  | nil => rfl
  | snoc c before may ih => rw [List.foldl_append, ← ih]; rfl

theorem Steps.invariant {start s : σ} {calls : List α} {J : σ → Prop} (init : J start)
    (preserves : ∀ {s c}, J s → allowed s c → J (step c s))
    (run : Steps step allowed start calls s) : J s := by
  induction run with
  | nil => exact init
  | snoc c before may ih => exact preserves ih may

/-- A preorder that every call respects relates the ends of every run. -/
theorem Steps.respects {start s : σ} {calls : List α} {J : σ → Prop} {R : σ → σ → Prop}
    (refl : ∀ s, R s s) (trans : ∀ {a b c}, R a b → R b c → R a c) (init : J start)
    (preserves : ∀ {s c}, J s → allowed s c → J (step c s))
    (moves : ∀ {s c}, J s → allowed s c → R s (step c s))
    (run : Steps step allowed start calls s) : R start s := by
  induction run with
  | nil => exact refl start
  | snoc c before may ih =>
    exact trans ih (moves (before.invariant init preserves) may)

theorem Steps.weaken {start s : σ} {calls : List α} {wider : σ → α → Prop}
    (imp : ∀ {s c}, allowed s c → wider s c) (run : Steps step allowed start calls s) :
    Steps step wider start calls s := by
  induction run with
  | nil => exact .nil
  | snoc c before may ih => exact .snoc c ih (imp may)

end Sequential

section Indices
variable {α β : Type}

theorem index_unique {f : α → Option β} {l : List α} (nodup : (l.filterMap f).Nodup) {i j : Nat}
    {a b : α} {x : β} (here : l[i]? = some a) (there : l[j]? = some b) (left : f a = some x)
    (right : f b = some x) : i = j := by
  have apart := List.pairwise_iff_getElem.mp (List.pairwise_filterMap.mp nodup)
  obtain ⟨boundI, rfl⟩ := List.getElem?_eq_some_iff.mp here
  obtain ⟨boundJ, rfl⟩ := List.getElem?_eq_some_iff.mp there
  rcases Nat.lt_trichotomy i j with before | same | after
  · exact absurd rfl (apart i j boundI boundJ before x left x right)
  · exact same
  · exact absurd rfl (apart j i boundJ boundI after x right x left)

theorem forall_set {l : List α} {i : Nat} {a : α} {P : Nat → α → Prop}
    (others : ∀ j b, i ≠ j → l[j]? = some b → P j b) (here : P i a) :
    ∀ j b, (l.set i a)[j]? = some b → P j b := by
  intro j b found
  by_cases same : i = j
  · subst same
    simp only [List.getElem?_set_self', Option.map_eq_map, Option.map_eq_some_iff] at found
    obtain ⟨_, _, rfl⟩ := found
    exact here
  · exact others j b same (List.getElem?_set_ne same ▸ found)

end Indices

end Calls
