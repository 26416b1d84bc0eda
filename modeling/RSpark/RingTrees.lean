import Mathlib.Algebra.Ring.Hom.Defs

/- Trees of sums, differences and products over any leaves, with their values in a ring. -/
namespace RingTrees

inductive RingOp where
  | add | sub | mul
  deriving DecidableEq, Repr

inductive RingTree (α : Type) where
  | leaf (a : α)
  | node (op : RingOp) (left right : RingTree α)
  deriving DecidableEq, Repr

section Values
variable {α R S : Type} [Ring R] [Ring S]

def RingOp.apply : RingOp → R → R → R
  | .add, x, y => x + y
  | .sub, x, y => x - y
  | .mul, x, y => x * y

def RingTree.value (f : α → R) : RingTree α → R
  | .leaf a => f a
  | .node op left right => op.apply (left.value f) (right.value f)

def RingTree.Leaves (p : α → Prop) : RingTree α → Prop
  | .leaf a => p a
  | .node _ left right => left.Leaves p ∧ right.Leaves p

instance RingTree.decidableLeaves {p : α → Prop} [DecidablePred p] :
    (t : RingTree α) → Decidable (t.Leaves p)
  | .leaf a => inferInstanceAs (Decidable (p a))
  | .node _ left right => @instDecidableAnd _ _ (decidableLeaves left) (decidableLeaves right)

def RingTree.Nodes (f : α → R) (p : R → Prop) : RingTree α → Prop
  | .leaf _ => True
  | .node op left right =>
      left.Nodes f p ∧ right.Nodes f p ∧ p (op.apply (left.value f) (right.value f))

def RingTree.IsLeaf : RingTree α → Prop
  | .leaf _ => True
  | .node _ _ _ => False

theorem RingOp.map_apply (φ : R →+* S) (op : RingOp) (x y : R) :
    φ (op.apply x y) = op.apply (φ x) (φ y) := by
  cases op with
  | add => exact map_add φ x y
  | sub => exact map_sub φ x y
  | mul => exact map_mul φ x y

theorem RingTree.map_value (φ : R →+* S) (f : α → R) (t : RingTree α) :
    φ (t.value f) = t.value fun a => φ (f a) := by
  induction t with
  | leaf a => rfl
  | node op left right ihl ihr => rw [value, value, op.map_apply, ihl, ihr]

theorem RingTree.value_congr {f g : α → R} {t : RingTree α} (same : t.Leaves fun a => f a = g a) :
    t.value f = t.value g := by
  induction t with
  | leaf a => exact same
  | node op left right ihl ihr => rw [value, value, ihl same.1, ihr same.2]

theorem RingTree.Leaves.imp {p q : α → Prop} {t : RingTree α} (leaves : t.Leaves p)
    (imp : ∀ a, p a → q a) : t.Leaves q := by
  induction t with
  | leaf a => exact imp a leaves
  | node op left right ihl ihr => exact ⟨ihl leaves.1, ihr leaves.2⟩

end Values

end RingTrees
