import Mathlib.Data.List.Lex
import Mathlib.Order.Lattice
import Mathlib.Tactic.Common

structure OrderedMap (K V : Type) [LinearOrder K] where
  entries : List (K × V)
  ascending : entries.Pairwise fun a b => a.1 < b.1

namespace OrderedMap
variable {K V : Type} [LinearOrder K]

def empty : OrderedMap K V := ⟨[], List.Pairwise.nil⟩

def find (k : K) : List (K × V) → Option V
  | [] => none
  | (k', v) :: rest => if k = k' then some v else find k rest

def place (k : K) (v : V) : List (K × V) → List (K × V)
  | [] => [(k, v)]
  | (k', v') :: rest =>
      if k < k' then (k, v) :: (k', v') :: rest
      else if k = k' then (k, v) :: rest
      else (k', v') :: place k v rest

theorem mem_place_key {k : K} {v : V} {l : List (K × V)} {p : K × V}
    (mem : p ∈ place k v l) : p = (k, v) ∨ p ∈ l := by
  induction l with
  | nil => simp only [place, List.mem_singleton] at mem; exact Or.inl mem
  | cons head rest ih =>
    obtain ⟨k', v'⟩ := head
    simp only [place] at mem
    split at mem
    · rcases List.mem_cons.mp mem with new | old
      · exact Or.inl new
      · exact Or.inr old
    · split at mem
      · rcases List.mem_cons.mp mem with new | old
        · exact Or.inl new
        · exact Or.inr (List.mem_cons_of_mem _ old)
      · rcases List.mem_cons.mp mem with same | later
        · exact Or.inr (List.mem_cons.mpr (Or.inl same))
        · rcases ih later with new | old
          · exact Or.inl new
          · exact Or.inr (List.mem_cons_of_mem _ old)

theorem place_ascending (k : K) (v : V) (l : List (K × V))
    (sorted : l.Pairwise fun a b => a.1 < b.1) :
    (place k v l).Pairwise fun a b => a.1 < b.1 := by
  induction l with
  | nil => simp [place]
  | cons head rest ih =>
    obtain ⟨k', v'⟩ := head
    obtain ⟨above, tail⟩ := List.pairwise_cons.mp sorted
    simp only [place]
    split
    · rename_i lt
      refine List.pairwise_cons.mpr ⟨fun p mem => ?_, sorted⟩
      rcases List.mem_cons.mp mem with same | later
      · subst same; exact lt
      · exact lt.trans (above p later)
    · rename_i notLt
      split
      · rename_i eq
        subst eq
        exact List.pairwise_cons.mpr ⟨above, tail⟩
      · rename_i ne
        refine List.pairwise_cons.mpr ⟨fun p mem => ?_, ih tail⟩
        rcases mem_place_key mem with new | old
        · subst new; exact lt_of_le_of_ne (not_lt.mp notLt) (Ne.symm ne)
        · exact above p old

def get (m : OrderedMap K V) (k : K) : Option V := find k m.entries
def insert (m : OrderedMap K V) (k : K) (v : V) : OrderedMap K V :=
  ⟨place k v m.entries, place_ascending k v m.entries m.ascending⟩
def values (m : OrderedMap K V) : List V := m.entries.map Prod.snd

theorem find_place_self (k : K) (v : V) (l : List (K × V)) : find k (place k v l) = some v := by
  induction l with
  | nil => simp [place, find]
  | cons head rest ih =>
    obtain ⟨k', v'⟩ := head
    simp only [place]
    split
    · simp [find]
    · split
      · simp [find]
      · rename_i ne; simp [find, ne, ih]

theorem find_place_other {k k' : K} (ne : k' ≠ k) (v : V) (l : List (K × V)) :
    find k' (place k v l) = find k' l := by
  induction l with
  | nil => simp [place, find, ne]
  | cons head rest ih =>
    obtain ⟨k'', v'⟩ := head
    simp only [place]
    split
    · simp [find, ne]
    · split
      · rename_i eq; subst eq; simp [find, ne]
      · simp [find, ih]

@[simp] theorem get_insert_self (m : OrderedMap K V) (k : K) (v : V) :
    (m.insert k v).get k = some v := find_place_self k v m.entries

@[simp] theorem get_insert_other (m : OrderedMap K V) {k k' : K} (ne : k' ≠ k) (v : V) :
    (m.insert k v).get k' = m.get k' := find_place_other ne v m.entries

theorem find_eq_some_iff {k : K} {v : V} {l : List (K × V)}
    (sorted : l.Pairwise fun a b => a.1 < b.1) : find k l = some v ↔ (k, v) ∈ l := by
  induction l with
  | nil => simp [find]
  | cons head rest ih =>
    obtain ⟨k', v'⟩ := head
    obtain ⟨above, tail⟩ := List.pairwise_cons.mp sorted
    simp only [find, List.mem_cons, Prod.mk.injEq]
    split
    · rename_i same
      subst same
      constructor
      · intro found
        exact Or.inl ⟨rfl, (Option.some.inj found).symm⟩
      · rintro (⟨_, rfl⟩ | later)
        · rfl
        · exact absurd (above _ later) (lt_irrefl k)
    · rename_i other
      rw [ih tail]
      exact ⟨Or.inr, fun mem => mem.resolve_left fun same => other same.1⟩

theorem get_eq_some_iff {m : OrderedMap K V} {k : K} {v : V} :
    m.get k = some v ↔ (k, v) ∈ m.entries := find_eq_some_iff m.ascending

section Gather
variable {α ε : Type} (key : α → K) (step : Option V → α → Except ε V)

def gather : OrderedMap K V → List α → Except ε (OrderedMap K V)
  | m, [] => .ok m
  | m, a :: rest =>
      match step (m.get (key a)) a with
      | .error e => .error e
      | .ok v => gather (m.insert (key a) v) rest

def gatherOne : Option V → List α → Except ε (Option V)
  | o, [] => .ok o
  | o, a :: rest =>
      match step o a with
      | .error e => .error e
      | .ok v => gatherOne (some v) rest

theorem gather_get {m m' : OrderedMap K V} {l : List α} (h : gather key step m l = .ok m') (k : K) :
    gatherOne step (m.get k) (l.filter (key · = k)) = .ok (m'.get k) := by
  induction l generalizing m with
  | nil =>
    obtain rfl := Except.ok.inj h
    rfl
  | cons a rest ih =>
    simp only [gather] at h
    split at h
    · exact nomatch h
    · rename_i v stepped
      have later := ih h
      by_cases same : key a = k
      · subst same
        rw [get_insert_self] at later
        simp only [decide_true, List.filter_cons_of_pos, gatherOne, stepped, later]
      · rw [get_insert_other m (Ne.symm same)] at later
        rw [List.filter_cons_of_neg (by simpa using same), later]

theorem gatherOne_isSome {o o' : Option V} {l : List α} (h : gatherOne step o l = .ok o') :
    o'.isSome = (o.isSome || !l.isEmpty) := by
  induction l generalizing o with
  | nil =>
    obtain rfl := Except.ok.inj h
    simp
  | cons a rest ih =>
    simp only [gatherOne] at h
    split at h
    · exact nomatch h
    · rw [ih h]
      simp

end Gather

end OrderedMap
