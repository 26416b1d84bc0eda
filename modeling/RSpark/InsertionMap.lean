import Mathlib.Data.List.Nodup
import Mathlib.Tactic.Common

/-- Finite maps whose entries stand in the order in which their keys were first inserted;
   replacing a value keeps its place. -/
structure InsertionMap (K V : Type) where
  entries : List (K × V)
  nodupKeys : (entries.map Prod.fst).Nodup

namespace InsertionMap
variable {K V : Type} [DecidableEq K]

def empty : InsertionMap K V := ⟨[], List.nodup_nil⟩

def find (k : K) : List (K × V) → Option V
  | [] => none
  | (k', v) :: rest => if k' = k then some v else find k rest

def replace (k : K) (v : V) : List (K × V) → List (K × V)
  | [] => [(k, v)]
  | (k', v') :: rest => if k' = k then (k, v) :: rest else (k', v') :: replace k v rest

theorem keys_replace (k : K) (v : V) (l : List (K × V)) :
    (replace k v l).map Prod.fst =
      if k ∈ l.map Prod.fst then l.map Prod.fst else l.map Prod.fst ++ [k] := by
  induction l with
  | nil => simp [replace]
  | cons head rest ih =>
    obtain ⟨k', v'⟩ := head
    simp only [replace]
    by_cases same : k' = k
    · subst same; simp
    · have other : k ≠ k' := Ne.symm same
      by_cases mem : k ∈ rest.map Prod.fst <;> simp_all

theorem replace_nodup (k : K) (v : V) (l : List (K × V)) (nodup : (l.map Prod.fst).Nodup) :
    ((replace k v l).map Prod.fst).Nodup := by
  rw [keys_replace]
  split
  · exact nodup
  · rename_i absent
    refine List.nodup_append.mpr ⟨nodup, List.nodup_singleton k, ?_⟩
    intro a ha b hb same
    rw [List.mem_singleton] at hb
    subst hb same
    exact absent ha

def get (m : InsertionMap K V) (k : K) : Option V := find k m.entries
def insert (m : InsertionMap K V) (k : K) (v : V) : InsertionMap K V :=
  ⟨replace k v m.entries, replace_nodup k v m.entries m.nodupKeys⟩
def values (m : InsertionMap K V) : List V := m.entries.map Prod.snd
def keys (m : InsertionMap K V) : List K := m.entries.map Prod.fst

def remove (m : InsertionMap K V) (k : K) : InsertionMap K V :=
  ⟨m.entries.filter (·.1 ≠ k), m.nodupKeys.sublist (List.filter_sublist.map Prod.fst)⟩

theorem find_replace_self (k : K) (v : V) (l : List (K × V)) :
    find k (replace k v l) = some v := by
  induction l with
  | nil => simp [replace, find]
  | cons head rest ih =>
    obtain ⟨k', v'⟩ := head
    by_cases same : k' = k <;> simp [replace, find, same, ih]

theorem find_replace_other {k k' : K} (ne : k' ≠ k) (v : V) (l : List (K × V)) :
    find k' (replace k v l) = find k' l := by
  induction l with
  | nil => simp [replace, find, Ne.symm ne]
  | cons head rest ih =>
    obtain ⟨k'', v'⟩ := head
    by_cases same : k'' = k
    · subst same; simp [replace, find, Ne.symm ne]
    · simp [replace, find, same, ih]

@[simp] theorem get_empty (k : K) : (empty : InsertionMap K V).get k = none := rfl

@[simp] theorem get_insert_self (m : InsertionMap K V) (k : K) (v : V) :
    (m.insert k v).get k = some v := find_replace_self k v m.entries

@[simp] theorem get_insert_other (m : InsertionMap K V) {k k' : K} (ne : k' ≠ k) (v : V) :
    (m.insert k v).get k' = m.get k' := find_replace_other ne v m.entries

theorem get_insert (m : InsertionMap K V) (k k' : K) (v : V) :
    (m.insert k v).get k' = if k' = k then some v else m.get k' := by
  by_cases same : k' = k
  · subst same; simp
  · simp [same]

theorem find_filter_other {k k' : K} (ne : k' ≠ k) (l : List (K × V)) :
    find k' (l.filter (·.1 ≠ k)) = find k' l := by
  induction l with
  | nil => rfl
  | cons head rest ih =>
    obtain ⟨k'', v'⟩ := head
    by_cases same : k'' = k
    · subst same
      simpa [find, Ne.symm ne] using ih
    · simpa [find, same] using if_congr Iff.rfl rfl ih

theorem get_remove_other (m : InsertionMap K V) {k k' : K} (ne : k' ≠ k) :
    (m.remove k).get k' = m.get k' := find_filter_other ne m.entries

theorem mem_entries_of_find {k : K} {v : V} {l : List (K × V)} (h : find k l = some v) :
    (k, v) ∈ l := by
  induction l with
  | nil => simp [find] at h
  | cons head rest ih =>
    obtain ⟨k', v'⟩ := head
    by_cases same : k' = k
    · subst same; simp_all [find]
    · simp only [find, same, ↓reduceIte] at h
      exact List.mem_cons_of_mem _ (ih h)

theorem find_of_mem_entries {k : K} {v : V} {l : List (K × V)}
    (nodup : (l.map Prod.fst).Nodup) (mem : (k, v) ∈ l) : find k l = some v := by
  induction l with
  | nil => simp at mem
  | cons head rest ih =>
    obtain ⟨k', v'⟩ := head
    obtain ⟨absent, tail⟩ := List.nodup_cons.mp nodup
    rcases List.mem_cons.mp mem with same | later
    · obtain ⟨rfl, rfl⟩ := Prod.mk.inj same; simp [find]
    · have ne : k' ≠ k := by
        intro same
        subst same
        exact absent (List.mem_map.mpr ⟨(k', v), later, rfl⟩)
      simp [find, ne, ih tail later]

theorem mem_entries_iff (m : InsertionMap K V) (k : K) (v : V) :
    (k, v) ∈ m.entries ↔ m.get k = some v :=
  ⟨find_of_mem_entries m.nodupKeys, mem_entries_of_find⟩

theorem mem_values_iff (m : InsertionMap K V) (v : V) :
    v ∈ m.values ↔ ∃ k, m.get k = some v := by
  simp only [values, List.mem_map, ← mem_entries_iff]
  constructor
  · rintro ⟨⟨k, v'⟩, mem, rfl⟩; exact ⟨k, mem⟩
  · rintro ⟨k, mem⟩; exact ⟨(k, v), mem, rfl⟩

theorem mem_keys_iff (m : InsertionMap K V) (k : K) : k ∈ m.keys ↔ ∃ v, m.get k = some v := by
  simp only [keys, List.mem_map, ← mem_entries_iff]
  constructor
  · rintro ⟨⟨k, v⟩, mem, rfl⟩; exact ⟨v, mem⟩
  · rintro ⟨v, mem⟩; exact ⟨(k, v), mem, rfl⟩

theorem keys_insert (m : InsertionMap K V) (k : K) (v : V) :
    (m.insert k v).keys = if k ∈ m.keys then m.keys else m.keys ++ [k] := keys_replace k v m.entries

theorem keys_insert_known (m : InsertionMap K V) {k : K} {old : V} (known : m.get k = some old)
    (v : V) : (m.insert k v).keys = m.keys := by
  rw [keys_insert, if_pos ((m.mem_keys_iff k).mpr ⟨old, known⟩)]

section Keyed
variable {key : V → K} {m : InsertionMap K V}

def Keyed (key : V → K) (m : InsertionMap K V) : Prop := ∀ k v, m.get k = some v → key v = k

theorem keyed_empty : (empty : InsertionMap K V).Keyed key := by
  intro k v found
  exact nomatch (get_empty k).symm.trans found

theorem Keyed.insert (keyed : m.Keyed key) (v : V) : (m.insert (key v) v).Keyed key := by
  intro k w found
  rw [get_insert] at found
  split at found
  · rename_i same
    obtain rfl := Option.some.inj found
    exact same.symm
  · exact keyed k w found

theorem Keyed.values_keys (keyed : m.Keyed key) : m.values.map key = m.keys := by
  simp only [values, keys, List.map_map]
  refine List.map_congr_left fun entry mem => ?_
  exact keyed _ _ ((m.mem_entries_iff entry.1 entry.2).mp mem)

theorem replace_new {k : K} (v : V) {l : List (K × V)} (absent : k ∉ l.map Prod.fst) :
    replace k v l = l ++ [(k, v)] := by
  induction l with
  | nil => rfl
  | cons entry rest ih =>
    rw [List.map_cons, List.mem_cons, not_or] at absent
    rw [replace, if_neg (Ne.symm absent.1), ih absent.2]
    rfl

theorem values_foldl_insert (key : V → K) {l : List V} {m : InsertionMap K V}
    (apart : (m.keys ++ l.map key).Nodup) :
    (l.foldl (fun m v => m.insert (key v) v) m).values = m.values ++ l := by
  induction l generalizing m with
  | nil => simp
  | cons v rest ih =>
    have absent : key v ∉ m.keys := fun inside =>
      (List.nodup_append.mp apart).2.2 _ inside _ List.mem_cons_self rfl
    have entries : (m.insert (key v) v).entries = m.entries ++ [(key v, v)] :=
      replace_new v absent
    have later : ((m.insert (key v) v).keys ++ rest.map key).Nodup := by
      rw [keys, entries, List.map_append, List.append_assoc]
      exact apart
    rw [List.foldl_cons, ih later, values, entries, List.map_append, List.append_assoc]
    rfl

end Keyed

section Counting

theorem countP_replace (p : V → Bool) (k : K) (v : V) (l : List (K × V)) :
    ((replace k v l).map Prod.snd).countP p + (find k l).toList.countP p =
      (l.map Prod.snd).countP p + [v].countP p := by
  induction l with
  | nil => simp [replace, find]
  | cons head rest ih =>
    obtain ⟨k', v'⟩ := head
    by_cases same : k' = k
    · simp only [replace, find, same, ↓reduceIte, List.map_cons, List.countP_cons,
        Option.toList_some, List.countP_nil]
      omega
    · simp only [replace, find, same, ↓reduceIte, List.map_cons, List.countP_cons] at ih ⊢
      omega

theorem countP_insert (m : InsertionMap K V) (p : V → Bool) (k : K) (v : V) :
    (m.insert k v).values.countP p + (m.get k).toList.countP p =
      m.values.countP p + [v].countP p :=
  countP_replace p k v m.entries

end Counting

end InsertionMap
