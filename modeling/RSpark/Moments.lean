import Mathlib.Data.List.Basic
import RSpark.Calls

/- What a member of a pool finds: each of its operations is answered by the object as it stands at
   that moment, which others may have changed since the last one. -/
namespace Calls
variable {σ : Type} {I : Interface σ} {ρ τ : Type}

def stateAfter (start : σ) (history : List (Event I)) : σ :=
  history.foldl (fun s e => (I.exec e.op s).1) start

def Moment (start : σ) (history : List (Event I)) (i : Nat) (o : I.Op) (s : σ) : Prop :=
  ∃ before e after, history = before ++ e :: after ∧ e.thread = i ∧ e.op = o ∧
    s = stateAfter start before

/-- What a program comes to when each of its operations finds one of the given objects. -/
inductive Finds (moment : I.Op → σ → Prop) : Prog I ρ → Prog I ρ → Prop where
  | here (p : Prog I ρ) : Finds moment p p
  | call {o : I.Op} {k : I.Resp o → Prog I ρ} {q : Prog I ρ} (s : σ) (now : moment o s)
      (rest : Finds moment (k (I.exec o s).2) q) : Finds moment (.call o k) q

variable {moment wider : I.Op → σ → Prop} {p q : Prog I ρ}

theorem Finds.snoc {o : I.Op} {k : I.Resp o → Prog I ρ} (before : Finds moment p (.call o k))
    (s : σ) (now : moment o s) : Finds moment p (k (I.exec o s).2) := by
  generalize last : Prog.call o k = q at before
  induction before with
  | here p =>
    subst last
    exact .call s now (.here _)
  | call s' now' rest ih => exact .call s' now' (ih last)

theorem Finds.mono (finds : Finds moment p q) (more : ∀ o s, moment o s → wider o s) :
    Finds wider p q := by
  induction finds with
  | here p => exact .here p
  | call s now rest ih => exact .call s (more _ s now) ih

theorem stateAfter_snoc (start : σ) (history : List (Event I)) (e : Event I) :
    stateAfter start (history ++ [e]) = (I.exec e.op (stateAfter start history)).1 := by
  unfold stateAfter
  rw [List.foldl_append]
  rfl

theorem Moment.snoc {start : σ} {history : List (Event I)} {i : Nat} {o : I.Op} {s : σ}
    (was : Moment start history i o s) (e : Event I) : Moment start (history ++ [e]) i o s := by
  obtain ⟨before, e', after, rfl, same⟩ := was
  exact ⟨before, e', after ++ [e], by simp, same⟩

theorem run_finds {start last : Pool I ρ} {history : List (Event I)}
    (run : Run start history last) {i : Nat} (here : start.threads[i]? = some p) :
    last.state = stateAfter start.state history ∧
      ∃ q, last.threads[i]? = some q ∧ Finds (Moment start.state history i) p q := by
  induction run with
  | nil => exact ⟨rfl, p, here, .here p⟩
  | @step h pool j o k before next ih =>
    obtain ⟨state, q, now, finds⟩ := ih
    rw [stateAfter_snoc, ← state]
    refine ⟨rfl, ?_⟩
    have wider := finds.mono fun _ _ was => was.snoc ⟨j, o, (I.exec o pool.state).2⟩
    by_cases same : j = i
    · subst same
      obtain rfl := Option.some.inj (next.symm.trans now)
      refine ⟨_, List.getElem?_set_self (List.getElem?_eq_some_iff.mp next).1, ?_⟩
      exact wider.snoc pool.state ⟨h, _, [], rfl, rfl, rfl, state⟩
    · exact ⟨q, (List.getElem?_set_ne same).trans now, wider⟩

theorem run_returned {start last : Pool I ρ} {history : List (Event I)}
    (run : Run start history last) {i : Nat} {r : ρ} (here : start.threads[i]? = some p)
    (returned : last.threads[i]? = some (.ret r)) :
    Finds (Moment start.state history i) p (.ret r) := by
  obtain ⟨_, q, now, finds⟩ := run_finds run here
  obtain rfl := Option.some.inj (now.symm.trans returned)
  exact finds

theorem finds_ret {x r : ρ} (finds : Finds moment (.ret x) (.ret r)) : x = r := by
  cases finds
  rfl

theorem finds_call {o : I.Op} {k : I.Resp o → Prog I ρ} {r : ρ}
    (finds : Finds moment (.call o k) (.ret r)) :
    ∃ s, moment o s ∧ Finds moment (k (I.exec o s).2) (.ret r) := by
  cases finds with
  | call s now rest => exact ⟨s, now, rest⟩

theorem finds_bind {f : ρ → Prog I τ} {r : τ} (p : Prog I ρ)
    (finds : Finds moment (p.bind f) (.ret r)) :
    ∃ x, Finds moment p (.ret x) ∧ Finds moment (f x) (.ret r) := by
  induction p with
  | ret x => exact ⟨x, .here _, finds⟩
  | abort => cases finds
  | call o k ih =>
    obtain ⟨s, now, rest⟩ := finds_call finds
    obtain ⟨x, first, later⟩ := ih _ rest
    exact ⟨x, .call s now first, later⟩

theorem finds_map {f : ρ → τ} {r : τ} (p : Prog I ρ) (finds : Finds moment (p.map f) (.ret r)) :
    ∃ x, f x = r ∧ Finds moment p (.ret x) := by
  obtain ⟨x, first, last⟩ := finds_bind p finds
  exact ⟨x, finds_ret last, first⟩

def Only (may : I.Op → Prop) : Prog I ρ → Prop
  | .ret _ => True
  | .abort => True
  | .call o k => may o ∧ ∀ r, Only may (k r)

theorem run_only (may : Nat → I.Op → Prop) {start last : Pool I ρ} {history : List (Event I)}
    (only : ∀ (i : Nat) p, start.threads[i]? = some p → Only (may i) p)
    (run : Run start history last) :
    (∀ e ∈ history, may e.thread e.op) ∧
      ∀ (i : Nat) p, last.threads[i]? = some p → Only (may i) p := by
  induction run with
  | nil => exact ⟨fun e mem => absurd mem List.not_mem_nil, only⟩
  | @step h pool j o k before next ih =>
    obtain ⟨past, now⟩ := ih
    obtain ⟨allowed, rest⟩ := now j _ next
    constructor
    · intro e mem
      rcases List.mem_append.mp mem with old | new
      · exact past e old
      · obtain rfl := List.mem_singleton.mp new
        exact allowed
    · intro i p here
      rw [List.getElem?_set] at here
      split at here
      · rename_i same
        subst same
        split at here
        · obtain rfl := Option.some.inj here
          exact rest _
        · cases here
      · exact now i p here

theorem only_bind {may : I.Op → Prop} {f : ρ → Prog I τ} (first : Only may p)
    (next : ∀ x, Only may (f x)) : Only may (p.bind f) := by
  induction p with
  | ret x => exact next x
  | abort => exact trivial
  | call o k ih => exact ⟨first.1, fun r => ih r (first.2 r)⟩

theorem run_of_finds {may : I.Op → Prop} {s : σ} (only : Only may p)
    (reads : ∀ o, may o → (I.exec o s).1 = s)
    (same : ∀ o s', may o → moment o s' → (I.exec o s').2 = (I.exec o s).2) {r : ρ}
    (finds : Finds moment p (.ret r)) : p.run s = (s, some r) := by
  induction p with
  | ret x => rw [finds_ret finds, Prog.run_ret]
  | abort => cases finds
  | call o k ih =>
    obtain ⟨s', now, rest⟩ := finds_call finds
    rw [same o s' only.1 now] at rest
    rw [Prog.run_call, reads o only.1]
    exact ih _ (only.2 _) rest

end Calls
