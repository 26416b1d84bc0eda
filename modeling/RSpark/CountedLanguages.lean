import Mathlib.Algebra.GroupWithZero.Nat
import Mathlib.Computability.Language

/- Products of languages, narrowed to the words in which a symbol has its least count. -/
namespace CountedLanguages

variable {α ι : Type}

def single (p : α → Prop) : Language α := {w | ∃ a, p a ∧ w = [a]}

def allOf (p : α → Prop) : Language α := {w | ∀ a ∈ w, p a}

theorem mem_single {p : α → Prop} {w : List α} : w ∈ single p ↔ ∃ a, p a ∧ w = [a] := Iff.rfl

theorem mem_allOf {p : α → Prop} {w : List α} : w ∈ allOf p ↔ ∀ a ∈ w, p a := Iff.rfl

theorem kstar_single (p : α → Prop) : KStar.kstar (single p) = allOf p := by
  refine Language.ext fun w => ?_
  rw [Language.mem_kstar, mem_allOf]
  constructor
  · rintro ⟨words, rfl, passing⟩ a mem
    obtain ⟨word, listed, inside⟩ := List.mem_flatten.mp mem
    obtain ⟨b, pass, rfl⟩ := passing word listed
    rw [List.mem_singleton.mp inside]
    exact pass
  · intro pass
    refine ⟨w.map fun a => [a], by rw [← List.flatMap_def, List.flatMap_singleton'], ?_⟩
    intro word listed
    obtain ⟨a, mem, rfl⟩ := List.mem_map.mp listed
    exact ⟨a, pass a mem, rfl⟩

theorem mem_prod_nil {L : ι → Language α} {w : List α} :
    w ∈ (([] : List ι).map L).prod ↔ w = [] := Iff.rfl

theorem mem_prod_cons {L : ι → Language α} {i : ι} {l : List ι} {w : List α} :
    w ∈ ((i :: l).map L).prod ↔ ∃ u ∈ L i, ∃ v ∈ (l.map L).prod, u ++ v = w := by
  rw [List.map_cons, List.prod_cons, Language.mem_mul]

theorem single_eq (b : α) : single (· = b) = ({[b]} : Language α) := by
  refine Language.ext fun w => ?_
  rw [mem_single]
  constructor
  · rintro ⟨_, rfl, same⟩
    exact same
  · exact fun same => ⟨b, rfl, same⟩

theorem nil_not_mem_single {L : ι → Language α} {i : ι} {p : α → Prop} (is : L i = single p)
    (l : List ι) : [] ∉ ((i :: l).map L).prod := by
  rw [mem_prod_cons, is]
  rintro ⟨_, ⟨a, _, rfl⟩, v, _, same⟩
  cases same

theorem cons_mem_single {L : ι → Language α} {i : ι} {p : α → Prop} (is : L i = single p)
    {l : List ι} {a : α} {w : List α} :
    a :: w ∈ ((i :: l).map L).prod ↔ p a ∧ w ∈ (l.map L).prod := by
  rw [mem_prod_cons, is]
  constructor
  · rintro ⟨_, ⟨b, pass, rfl⟩, v, rest, same⟩
    cases same
    exact ⟨pass, rest⟩
  · rintro ⟨pass, rest⟩
    exact ⟨[a], ⟨a, pass, rfl⟩, w, rest, rfl⟩

section Counts
variable [DecidableEq α] {L K : ι → Language α} {n : ι → ℕ} {a : α}

theorem least_prod (least : ∀ i, ∀ w ∈ L i, n i ≤ w.count a) (l : List ι) {w : List α}
    (mem : w ∈ (l.map L).prod) : (l.map n).sum ≤ w.count a := by
  induction l generalizing w with
  | nil => exact Nat.zero_le _
  | cons i l ih =>
    obtain ⟨u, first, v, rest, rfl⟩ := mem_prod_cons.mp mem
    rw [List.map_cons, List.sum_cons, List.count_append]
    exact Nat.add_le_add (least i u first) (ih rest)

/-- A word of the product is one of the narrowed parts exactly if its count is the least: no part
    can then have more. -/
theorem mem_prod_narrowed (least : ∀ i, ∀ w ∈ L i, n i ≤ w.count a)
    (narrow : ∀ i w, w ∈ K i ↔ w ∈ L i ∧ w.count a = n i) (l : List ι) (w : List α) :
    w ∈ (l.map K).prod ↔ w ∈ (l.map L).prod ∧ w.count a = (l.map n).sum := by
  induction l generalizing w with
  | nil =>
    rw [mem_prod_nil, mem_prod_nil]
    refine ⟨fun none => ⟨none, ?_⟩, fun both => both.1⟩
    rw [none]
    rfl
  | cons i l ih =>
    rw [mem_prod_cons, mem_prod_cons, List.map_cons, List.sum_cons]
    constructor
    · rintro ⟨u, first, v, rest, rfl⟩
      obtain ⟨first', count⟩ := (narrow i u).mp first
      obtain ⟨rest', count'⟩ := (ih v).mp rest
      exact ⟨⟨u, first', v, rest', rfl⟩, by rw [List.count_append, count, count']⟩
    · rintro ⟨⟨u, first, v, rest, rfl⟩, count⟩
      rw [List.count_append] at count
      have atLeast := least i u first
      have atLeast' := least_prod least l rest
      exact ⟨u, (narrow i u).mpr ⟨first, by omega⟩, v, (ih v).mpr ⟨rest, by omega⟩, rfl⟩

end Counts

end CountedLanguages
