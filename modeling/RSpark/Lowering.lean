import RSpark.Calls

/- Operations that are not atomic. A program is lowered, operation by operation, to one whose
   steps are those of a finer interface over the same state. -/
namespace Calls
variable {σ : Type} {I J : Interface σ} {ρ τ γ : Type}

namespace Prog

def lower (steps : (o : I.Op) → Prog J (I.Resp o)) : Prog I ρ → Prog J ρ
  | .ret r => .ret r
  | .abort => .abort
  | .call o k => (steps o).bind fun r => (k r).lower steps

variable {steps : (o : I.Op) → Prog J (I.Resp o)}

theorem bind_bind {υ : Type} (p : Prog J ρ) (f : ρ → Prog J τ) (g : τ → Prog J υ) :
    (p.bind f).bind g = p.bind fun r => (f r).bind g := by
  induction p with
  | ret r => rfl
  | abort => rfl
  | call o k ih => exact congrArg (Prog.call o) (funext fun r => ih r)

theorem lower_bind (p : Prog I ρ) (f : ρ → Prog I τ) :
    (p.bind f).lower steps = (p.lower steps).bind fun r => (f r).lower steps := by
  induction p with
  | ret r => rfl
  | abort => rfl
  | call o k ih =>
    show ((steps o).bind fun r => ((k r).bind f).lower steps) = _
    simp only [ih, lower, bind_bind]

/-- Steps that together do what the operation does make a lowered program do, when it runs
    alone, what the program does. -/
theorem run_lower (together : ∀ o s, (steps o).run s = ((I.exec o s).1, some (I.exec o s).2))
    (p : Prog I ρ) (s : σ) : (p.lower steps).run s = p.run s := by
  induction p generalizing s with
  | ret r => rfl
  | abort => rfl
  | call o k ih =>
    rw [lower, run_bind, together, run_call]
    exact ih _ _

end Prog

namespace Protocol

def ending (P : Protocol J γ ρ) (final : γ → τ → Prop) : Protocol J γ τ :=
  ⟨P.allowed, P.relies, P.next, final⟩

theorem keeps_bind {P : Protocol J γ ρ} {f : τ → Prog J ρ} (p : Prog J τ) :
    ∀ {g}, (P.ending fun g r => P.Keeps g (f r)).Keeps g p → P.Keeps g (p.bind f) := by
  induction p with
  | ret r => exact fun keeps => keeps
  | abort => exact fun _ => trivial
  | call o k ih => exact fun keeps => ⟨keeps.1, fun r counts => ih r (keeps.2 r counts)⟩

theorem keeps_ending {P : Protocol J γ ρ} {before after : γ → τ → Prop}
    (ends : ∀ g r, before g r → after g r) (p : Prog J τ) :
    ∀ {g}, (P.ending before).Keeps g p → (P.ending after).Keeps g p := by
  induction p with
  | ret r => exact fun keeps => ends _ r keeps
  | abort => exact fun _ => trivial
  | call o k ih => exact fun keeps => ⟨keeps.1, fun r counts => ih r (keeps.2 r counts)⟩

theorem keeps_then {P : Protocol J γ ρ} {middle : γ → τ → Prop} {f : τ → Prog J ρ} {p : Prog J τ}
    {g : γ} (first : (P.ending middle).Keeps g p)
    (rest : ∀ g r, middle g r → P.Keeps g (f r)) : P.Keeps g (p.bind f) :=
  keeps_bind p (keeps_ending rest p first)

/-- What every allowed operation respects relates the state a run has come to with the state
    in which it goes on to. -/
theorem run_respects {P : Protocol J γ ρ} {inv : List (Event J) → σ → List γ → Prop}
    {R : σ → σ → Prop} (guarantees : P.Guarantees (fun _ _ _ _ => True) inv)
    (refl : ∀ s, R s s) (trans : ∀ {a b c}, R a b → R b c → R a c)
    (moves : ∀ {h s} {gs : List γ} {i : Nat} {g o}, inv h s gs → gs[i]? = some g →
      P.allowed g o → R s (J.exec o s).1)
    {start p q : Pool J ρ} {gs₀ : List γ} {history more : List (Event J)}
    (fits : P.Matches gs₀ start.threads) (init : inv [] start.state gs₀)
    (run : Run start history p) (goesOn : Run p more q) : R p.state q.state := by
  suffices ∃ gs, P.Matches gs q.threads ∧ inv (history ++ more) q.state gs ∧
      R p.state q.state by
    obtain ⟨_, _, _, related⟩ := this
    exact related
  induction goesOn with
  | nil =>
    obtain ⟨gs, matched, holds⟩ := run_rule guarantees fits init run
    exact ⟨gs, matched, by rwa [List.append_nil], refl _⟩
  | step i o k before next ih =>
    obtain ⟨gs, matched, holds, related⟩ := ih
    obtain ⟨g, ghost, allowed, continues⟩ := matches_ghost matched next
    have answer := guarantees.answers holds ghost allowed trivial
    refine ⟨_, matches_set matched (continues _ answer), ?_, ?_⟩
    · rw [← List.append_assoc]
      exact guarantees.preserves holds ghost allowed trivial
    · exact trans related (moves holds ghost allowed)

end Protocol

end Calls
