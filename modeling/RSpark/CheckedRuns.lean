import Mathlib.Tactic.Common

/- Programs whose steps are checked beside the same programs unchecked: the checked one stops at
   the first step that is not safe, and is the other where all are. -/
namespace CheckedRuns

variable {ε α β : Type} {fatal : ε → Prop}

def Total (fatal : ε → Prop) (y : Except ε α) : Prop := ∀ e, y = .error e → ¬ fatal e

/-- The checked program `x` is `y` where that is safe, and stops where it is not. -/
structure Guarded (fatal : ε → Prop) (x y : Except ε α) (safe : Prop) : Prop where
  same : safe → x = y
  stops : ¬ safe → ∃ e, fatal e ∧ x = .error e
  total : Total fatal y

theorem total_ok (a : α) : Total fatal (.ok a : Except ε α) := by
  intro e failed
  cases failed

theorem total_error {e : ε} (harmless : ¬ fatal e) : Total fatal (.error e : Except ε α) := by
  intro e' failed
  cases failed
  exact harmless

theorem total_bind {y : Except ε α} {g : α → Except ε β} (first : Total fatal y)
    (next : ∀ a, Total fatal (g a)) : Total fatal (y >>= g) := by
  cases y with
  | error e => exact total_error (first e rfl)
  | ok a => exact next a

/-- The program does not stop, and what it returns is as stated. -/
def Yields (fatal : ε → Prop) (P : α → Prop) (y : Except ε α) : Prop :=
  Total fatal y ∧ ∀ a, y = .ok a → P a

section Results
variable {P : α → Prop} {Q : β → Prop}

theorem yields_ok {a : α} (holds : P a) : Yields fatal P (.ok a : Except ε α) := by
  refine ⟨total_ok a, fun a' same => ?_⟩
  cases same
  exact holds

theorem yields_error {e : ε} (harmless : ¬ fatal e) :
    Yields fatal P (.error e : Except ε α) :=
  ⟨total_error harmless, nofun⟩

theorem Total.yields {y : Except ε α} (total : Total fatal y) : Yields fatal (fun _ => True) y :=
  ⟨total, fun _ _ => trivial⟩

theorem yields_bind {y : Except ε α} {g : α → Except ε β} (first : Yields fatal P y)
    (next : ∀ a, P a → Yields fatal Q (g a)) : Yields fatal Q (y >>= g) := by
  cases y with
  | error e => exact yields_error (first.1 e rfl)
  | ok a => exact next a (first.2 a rfl)

end Results

variable {x y : Except ε α} {safe : Prop}

theorem guarded_of_total (total : Total fatal y) : Guarded fatal y y True :=
  ⟨fun _ => rfl, fun isNot => absurd trivial isNot, total⟩

theorem Guarded.congr {safe' : Prop} (guarded : Guarded fatal x y safe) (iff : safe' ↔ safe) :
    Guarded fatal x y safe' :=
  ⟨fun is => guarded.same (iff.mp is), fun isNot => guarded.stops fun is => isNot (iff.mpr is),
    guarded.total⟩

theorem Guarded.bind {f g : α → Except ε β} {later : α → Prop} (first : Guarded fatal x y safe)
    (next : ∀ a, Guarded fatal (f a) (g a) (later a)) :
    Guarded fatal (x >>= f) (y >>= g) (safe ∧ ∀ a, y = .ok a → later a) := by
  refine ⟨?_, ?_, total_bind first.total fun a => (next a).total⟩
  · rintro ⟨is, isLater⟩
    rw [first.same is]
    cases here : y with
    | error e => rfl
    | ok a => exact (next a).same (isLater a here)
  · intro isNot
    by_cases is : safe
    · have isNotLater : ¬ ∀ a, y = .ok a → later a := fun isLater => isNot ⟨is, isLater⟩
      push Not at isNotLater
      obtain ⟨a, here, isNotLater⟩ := isNotLater
      rw [first.same is, here]
      exact (next a).stops isNotLater
    · obtain ⟨e, isFatal, stopped⟩ := first.stops is
      exact ⟨e, isFatal, by rw [stopped]; rfl⟩

theorem Guarded.bind_total {f : α → Except ε β} (first : Guarded fatal x y safe)
    (next : ∀ a, Total fatal (f a)) : Guarded fatal (x >>= f) (y >>= f) safe := by
  refine (first.bind fun a => guarded_of_total (next a)).congr ?_
  exact ⟨fun is => ⟨is, fun _ _ => trivial⟩, fun both => both.1⟩

theorem Guarded.total_iff (guarded : Guarded fatal x y safe) : Total fatal x ↔ safe := by
  constructor
  · intro total
    by_contra isNot
    obtain ⟨e, isFatal, stopped⟩ := guarded.stops isNot
    exact total e stopped isFatal
  · intro is
    rw [guarded.same is]
    exact guarded.total

end CheckedRuns
