/- Three-valued truth, with two readings of AND and OR: the Kleene one, in which a
   deciding operand settles the result, and the one that propagates the unknown. -/
namespace ThreeValued

/-- The unknown is `none`. -/
abbrev Truth := Option Bool

structure Connectives where
  conj : Truth → Truth → Truth
  disj : Truth → Truth → Truth

def kleeneConj : Truth → Truth → Truth
  | some false, _ => some false
  | _, some false => some false
  | some true, some true => some true
  | _, _ => none

def kleeneDisj : Truth → Truth → Truth
  | some true, _ => some true
  | _, some true => some true
  | some false, some false => some false
  | _, _ => none

def strictConj : Truth → Truth → Truth
  | some a, some b => some (a && b)
  | _, _ => none

def strictDisj : Truth → Truth → Truth
  | some a, some b => some (a || b)
  | _, _ => none

def kleene : Connectives := ⟨kleeneConj, kleeneDisj⟩
def propagating : Connectives := ⟨strictConj, strictDisj⟩

def Dominated (deciding : Bool) (a b : Truth) : Prop :=
  (a = none ∧ b = some deciding) ∨ (a = some deciding ∧ b = none)

instance (deciding : Bool) (a b : Truth) : Decidable (Dominated deciding a b) :=
  inferInstanceAs (Decidable (_ ∨ _))

theorem conj_agree_iff (a b : Truth) :
    kleene.conj a b = propagating.conj a b ↔ ¬ Dominated false a b := by
  rcases a with _ | _ | _ <;> rcases b with _ | _ | _ <;> decide

theorem disj_agree_iff (a b : Truth) :
    kleene.disj a b = propagating.disj a b ↔ ¬ Dominated true a b := by
  rcases a with _ | _ | _ <;> rcases b with _ | _ | _ <;> decide

end ThreeValued
