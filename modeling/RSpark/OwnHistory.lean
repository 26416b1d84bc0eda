import Mathlib.Data.List.Perm.Basic
import RSpark.Moments

/- What each member of a pool has done by itself, and what the histories of the members together
   say of the whole. -/
namespace Calls
variable {σ : Type} {I : Interface σ} {ρ τ β : Type}

section Own
variable {p : Prog I ρ} {events : List (Event I)}

def ownOf (i : Nat) (history : List (Event I)) : List (Event I) :=
  history.filter fun e => e.thread = i

theorem reaches_end {x y : ρ} (reached : Reaches (.ret x) events (.ret y)) :
    events = [] ∧ x = y := by
  cases reached
  exact ⟨rfl, rfl⟩

theorem reaches_only {may : I.Op → Prop} {q : Prog I ρ} (reached : Reaches p events q)
    (only : Only may p) : ∀ e ∈ events, may e.op := by
  induction reached with
  | here p => exact fun e mem => absurd mem List.not_mem_nil
  | call i r rest ih =>
    intro e mem
    rcases List.mem_cons.mp mem with rfl | later
    · exact only.1
    · exact ih (only.2 r) e later

theorem only_mono {may more : I.Op → Prop} (only : Only may p) (weaker : ∀ o, may o → more o) :
    Only more p := by
  induction p with
  | ret x => exact trivial
  | abort => exact trivial
  | call o k ih => exact ⟨weaker o only.1, fun r => ih r (only.2 r)⟩

theorem bind_ne_ret {f : ρ → Prog I τ} (going : ∀ x, p ≠ .ret x) (y : τ) :
    p.bind f ≠ .ret y := by
  intro same
  cases p with
  | ret x => exact going x rfl
  | abort => cases same
  | call o k => cases same

/-- One program after another: the first is still going on, or the second goes on with what the
    first has returned. -/
theorem reaches_bind {f : ρ → Prog I τ} {q : Prog I τ} (reached : Reaches (p.bind f) events q) :
    (∃ p', Reaches p events p' ∧ (∀ x, p' ≠ .ret x) ∧ q = p'.bind f) ∨
      ∃ x before after, events = before ++ after ∧ Reaches p before (.ret x) ∧
        Reaches (f x) after q := by
  induction p generalizing events with
  | ret x => exact Or.inr ⟨x, [], events, rfl, .here _, reached⟩
  | abort =>
    cases reached with
    | here =>
      refine Or.inl ⟨.abort, .here _, fun x same => ?_, rfl⟩
      cases same
  | call o k ih =>
    cases reached with
    | here =>
      refine Or.inl ⟨.call o k, .here _, fun x same => ?_, rfl⟩
      cases same
    | call i r rest =>
      obtain ⟨p', there, going, same⟩ | ⟨x, before, after, rfl, first, second⟩ := ih r rest
      · exact Or.inl ⟨p', .call i r there, going, same⟩
      · exact Or.inr ⟨x, _ :: before, after, rfl, .call i r first, second⟩

theorem reaches_map {f : ρ → τ} {q : Prog I τ} (reached : Reaches (p.map f) events q) :
    ∃ p', Reaches p events p' ∧ q = p'.map f := by
  obtain ⟨p', there, _, same⟩ | ⟨x, before, after, rfl, first, second⟩ := reaches_bind reached
  · exact ⟨p', there, same⟩
  · cases second with
    | here => exact ⟨.ret x, by rwa [List.append_nil], rfl⟩

theorem map_eq_ret {f : ρ → τ} {y : τ} (same : p.map f = .ret y) : ∃ x, p = .ret x ∧ f x = y := by
  cases p with
  | ret x => exact ⟨x, rfl, Prog.ret.inj same⟩
  | abort => cases same
  | call o k => cases same

end Own

section Whole
variable {start p : Pool I ρ} {history : List (Event I)}

theorem run_own (run : Run start history p) {i : Nat} {prog : Prog I ρ}
    (here : start.threads[i]? = some prog) :
    ∃ q, p.threads[i]? = some q ∧ Reaches prog (ownOf i history) q :=
  run_reaches run here

theorem run_inside (run : Run start history p) :
    ∀ e ∈ history, e.thread < start.threads.length := by
  induction run with
  | nil => exact fun e mem => absurd mem List.not_mem_nil
  | step i o k before next ih =>
    intro e mem
    rcases List.mem_append.mp mem with old | new
    · exact ih e old
    · rw [List.mem_singleton.mp new, ← run_length before]
      exact (List.getElem?_eq_some_iff.mp next).1

theorem run_split (run : Run start history p) {before after : List (Event I)} {e : Event I}
    (same : history = before ++ e :: after) : ∃ q q' : Pool I ρ, Run start before q ∧
      e.resp = (I.exec e.op q.state).2 ∧ q'.state = (I.exec e.op q.state).1 ∧
      Run q' after p := by
  induction run generalizing after with
  | nil => exact absurd same (by simp)
  | @step h p i o k run next ih =>
    rcases List.eq_nil_or_concat after with rfl | ⟨after, x, rfl⟩
    · obtain ⟨rfl, last⟩ := List.append_inj' same rfl
      rw [← List.singleton_inj.mp last]
      exact ⟨p, _, run, rfl, rfl, .nil⟩
    · have split : h ++ [⟨i, o, (I.exec o p.state).2⟩] = (before ++ e :: after) ++ [x] := by
        rw [same, List.append_assoc, List.cons_append, List.concat_eq_append]
      obtain ⟨earlier, last⟩ := List.append_inj' split rfl
      obtain ⟨q, q', upto, answer, state, rest⟩ := ih earlier
      rw [List.concat_eq_append, ← List.singleton_inj.mp last]
      exact ⟨q, q', upto, answer, state, .step i o k rest next⟩

theorem own_split {i : Nat} {before after : List (Event I)} {e : Event I}
    (own : ownOf i history = before ++ e :: after) : ∃ earlier later,
      history = earlier ++ e :: later ∧ ownOf i earlier = before ∧ ownOf i later = after := by
  obtain ⟨front, back, rfl, upto, rest⟩ := List.filter_eq_append_iff.mp own
  obtain ⟨others, later, rfl, none, _, after'⟩ := List.filter_eq_cons_iff.mp rest
  refine ⟨front ++ others, later, (List.append_assoc ..).symm, ?_, after'⟩
  rw [ownOf, List.filter_append, upto, List.filter_eq_nil_iff.mpr none, List.append_nil]

theorem run_grows {m : σ → List β} {added : Event I → List β}
    (grows : ∀ (i : Nat) o s, m (I.exec o s).1 = m s ++ added ⟨i, o, (I.exec o s).2⟩)
    (run : Run start history p) : m p.state = m start.state ++ history.flatMap added := by
  induction run with
  | nil => exact (List.append_nil _).symm
  | step i o k before next ih =>
    rw [grows i, ih, List.flatMap_append, List.flatMap_singleton, List.append_assoc]

theorem history_perm (history : List (Event I)) {n : Nat}
    (inside : ∀ e ∈ history, e.thread < n) :
    history.Perm ((List.range n).flatMap fun i => history.filter fun e => e.thread = i) := by
  induction n generalizing history with
  | zero =>
    cases history with
    | nil => exact .nil
    | cons e rest => exact absurd (inside e List.mem_cons_self) (Nat.not_lt_zero _)
  | succ n ih =>
    have others := ih (history.filter fun e => !decide (e.thread = n)) fun e mem => by
      obtain ⟨known, other⟩ := List.mem_filter.mp mem
      have bound := inside e known
      have apart : e.thread ≠ n := by simpa using other
      omega
    have same : ((List.range n).flatMap fun i =>
        (history.filter fun e => !decide (e.thread = n)).filter fun e => e.thread = i) =
        (List.range n).flatMap fun i => history.filter fun e => e.thread = i := by
      refine List.flatMap_congr fun i mem => ?_
      rw [List.filter_filter]
      refine List.filter_congr fun e _ => ?_
      have less := List.mem_range.mp mem
      by_cases own : e.thread = i
      · have apart : e.thread ≠ n := by omega
        simp [own, own ▸ apart]
      · simp [own]
    rw [same] at others
    rw [List.range_succ, List.flatMap_append, List.flatMap_singleton]
    have split := List.filter_append_perm (fun e : Event I => decide (e.thread = n)) history
    exact (split.symm.trans List.perm_append_comm).trans (others.append_right _)

theorem shares_perm {f : Event I → Option β} {n : Nat} (inside : ∀ e ∈ history, e.thread < n)
    {share : Nat → List β} (own : ∀ i, i < n → (ownOf i history).filterMap f = share i) :
    (history.filterMap f).Perm ((List.range n).flatMap share) := by
  refine ((history_perm history inside).filterMap f).trans (List.Perm.of_eq ?_)
  rw [List.filterMap_flatMap]
  exact List.flatMap_congr fun i mem => own i (List.mem_range.mp mem)

theorem flatMap_range_perm {α : Type} {l : List α} {share : Nat → List β} {f : α → List β}
    (each : ∀ i a, l[i]? = some a → (share i).Perm (f a)) :
    ((List.range l.length).flatMap share).Perm (l.flatMap f) := by
  induction l generalizing share with
  | nil => exact .nil
  | cons a l ih =>
    rw [List.length_cons, List.range_succ_eq_map, List.flatMap_cons, List.flatMap_map,
      List.flatMap_cons]
    exact (each 0 a rfl).append (ih fun i b there => each (i + 1) b there)

theorem perm_of_filterMap {α : Type} {f : α → Option β} {l : List α} {images : List β}
    (perm : images.Perm (l.filterMap f)) :
    ∃ l' : List α, l'.Perm l ∧ l'.filterMap f = images := by
  induction images generalizing l with
  | nil => exact ⟨l, .refl l, List.nil_perm.mp perm⟩
  | cons b images ih =>
    obtain ⟨a, mem, image⟩ := List.mem_filterMap.mp (perm.subset List.mem_cons_self)
    obtain ⟨front, back, rfl⟩ := List.append_of_mem mem
    have middle : (front ++ a :: back).Perm (a :: (front ++ back)) := List.perm_middle
    have rest : images.Perm ((front ++ back).filterMap f) := by
      have moved := perm.trans (middle.filterMap f)
      rw [List.filterMap_cons_some image] at moved
      exact moved.cons_inv
    obtain ⟨l', same, found⟩ := ih rest
    exact ⟨a :: l', (same.cons a).trans middle.symm, by rw [List.filterMap_cons_some image, found]⟩

end Whole

end Calls
