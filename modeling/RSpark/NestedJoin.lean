import Mathlib.Data.List.ProdSigma
import Mathlib.Data.List.Basic
import Mathlib.Tactic.Common

/- Joins of two lists under a condition, in the order of the left list and, for each of its
   members, of the right list. -/
namespace NestedJoin
variable {α β γ : Type} (m : α → β → Bool)

def partners (rights : List β) (a : α) : List β := rights.filter (m a)

def inner (lefts : List α) (rights : List β) : List (α × β) :=
  (lefts ×ˢ rights).filter fun p => m p.1 p.2

def pairedOrAlone (a : α) : List β → List (α × Option β)
  | [] => [(a, none)]
  | b :: rest => (b :: rest).map fun b => (a, some b)

/-- A left member without a partner stands alone, once. -/
def leftOuter (lefts : List α) (rights : List β) : List (α × Option β) :=
  lefts.flatMap fun a => pairedOrAlone a (partners m rights a)

theorem inner_eq_flatMap (lefts : List α) (rights : List β) :
    inner m lefts rights = lefts.flatMap fun a => (partners m rights a).map (Prod.mk a) := by
  induction lefts with
  | nil => rfl
  | cons a rest ih =>
    rw [inner, List.product_cons, List.filter_append, List.filter_map]
    rw [inner] at ih
    rw [ih, List.flatMap_cons]
    rfl

theorem mem_partners {rights : List β} {a : α} {b : β} :
    b ∈ partners m rights a ↔ b ∈ rights ∧ m a b = true := List.mem_filter

theorem pairedOrAlone_matched (a : α) (bs : List β) :
    (pairedOrAlone a bs).filter (·.2.isSome) = bs.map fun b => (a, some b) := by
  cases bs with
  | nil => rfl
  | cons b rest => simp [pairedOrAlone, List.filter_map, Function.comp_def]

theorem leftOuter_matched (lefts : List α) (rights : List β) :
    (leftOuter m lefts rights).filter (·.2.isSome) =
      (inner m lefts rights).map fun p => (p.1, some p.2) := by
  rw [inner_eq_flatMap, leftOuter, List.filter_flatMap, List.map_flatMap]
  congr 1
  funext a
  rw [pairedOrAlone_matched, List.map_map]
  rfl

theorem pairedOrAlone_lefts (a : α) (bs : List β) :
    (pairedOrAlone a bs).map Prod.fst = List.replicate (max 1 bs.length) a := by
  cases bs with
  | nil => rfl
  | cons b rest =>
    have count : max 1 (b :: rest).length = (b :: rest).length := by simp
    rw [count, pairedOrAlone, List.map_map]
    exact List.map_const'

theorem leftOuter_lefts (lefts : List α) (rights : List β) :
    (leftOuter m lefts rights).map Prod.fst =
      lefts.flatMap fun a => List.replicate (max 1 (partners m rights a).length) a := by
  rw [leftOuter, List.map_flatMap]
  congr 1
  funext a
  exact pairedOrAlone_lefts a _

theorem mem_leftOuter {lefts : List α} {rights : List β} {p : α × Option β} :
    p ∈ leftOuter m lefts rights ↔ p.1 ∈ lefts ∧
      ((∃ b ∈ rights, m p.1 b = true ∧ p.2 = some b) ∨
        (∀ b ∈ rights, m p.1 b = false) ∧ p.2 = none) := by
  obtain ⟨a, o⟩ := p
  have each (x : α) : (a, o) ∈ pairedOrAlone x (partners m rights x) ↔ x = a ∧
      ((∃ b ∈ rights, m a b = true ∧ o = some b) ∨ (∀ b ∈ rights, m a b = false) ∧ o = none) := by
    cases found : partners m rights x with
    | nil =>
      have lonely : ∀ b ∈ rights, m x b = false := by
        simpa [partners, List.filter_eq_nil_iff] using found
      simp only [pairedOrAlone, List.mem_singleton, Prod.mk.injEq]
      constructor
      · rintro ⟨rfl, rfl⟩
        exact ⟨rfl, Or.inr ⟨lonely, rfl⟩⟩
      · rintro ⟨rfl, ⟨b, mem, holds, _⟩ | ⟨_, rfl⟩⟩
        · exact absurd holds (by simp [lonely b mem])
        · exact ⟨rfl, rfl⟩
    | cons b rest =>
      have someone : ∃ b ∈ rights, m x b = true := by
        have first : b ∈ partners m rights x := found ▸ List.mem_cons_self
        exact ⟨b, (mem_partners m).mp first⟩
      rw [pairedOrAlone, ← found]
      simp only [List.mem_map, Prod.mk.injEq]
      constructor
      · rintro ⟨b', mem, rfl, rfl⟩
        obtain ⟨inside, holds⟩ := (mem_partners m).mp mem
        exact ⟨rfl, Or.inl ⟨b', inside, holds, rfl⟩⟩
      · rintro ⟨rfl, ⟨b', mem, holds, rfl⟩ | ⟨lonely, _⟩⟩
        · exact ⟨b', (mem_partners m).mpr ⟨mem, holds⟩, rfl, rfl⟩
        · obtain ⟨b', mem, holds⟩ := someone
          exact absurd holds (by simp [lonely b' mem])
  rw [leftOuter, List.mem_flatMap]
  constructor
  · rintro ⟨x, mem, inside⟩
    obtain ⟨rfl, how⟩ := (each x).mp inside
    exact ⟨mem, how⟩
  · rintro ⟨mem, how⟩
    exact ⟨a, mem, (each a).mpr ⟨rfl, how⟩⟩

end NestedJoin
