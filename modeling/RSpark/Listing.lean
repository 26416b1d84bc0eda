import Mathlib.Data.List.Sort
import Mathlib.Data.List.Forall2
import Mathlib.Tactic.Common

/- Lists read in order: first occurrences, traversals that may fail, columns found by name. -/
namespace Listing
variable {α β γ ε : Type}

def firsts [DecidableEq α] : List α → List α
  | [] => []
  | a :: rest => a :: (firsts rest).filter (· ≠ a)

section Firsts
variable [DecidableEq α]

theorem mem_firsts {a : α} {l : List α} : a ∈ firsts l ↔ a ∈ l := by
  induction l with
  | nil => simp [firsts]
  | cons b rest ih =>
    simp only [firsts, List.mem_cons, List.mem_filter, decide_eq_true_eq, ih]
    constructor
    · rintro (same | ⟨later, _⟩)
      · exact Or.inl same
      · exact Or.inr later
    · intro mem
      by_cases same : a = b
      · exact Or.inl same
      · exact Or.inr ⟨mem.resolve_left same, same⟩

theorem firsts_nodup (l : List α) : (firsts l).Nodup := by
  induction l with
  | nil => simp [firsts]
  | cons a rest ih =>
    rw [firsts, List.nodup_cons]
    constructor
    · simp
    · exact ih.filter _

theorem firsts_map [DecidableEq β] {f : α → β} {l : List α}
    (apart : ∀ a ∈ l, ∀ b ∈ l, f a = f b → a = b) : (firsts l).map f = firsts (l.map f) := by
  induction l with
  | nil => rfl
  | cons a rest ih =>
    have tail := ih fun x hx y hy =>
      apart x (List.mem_cons_of_mem a hx) y (List.mem_cons_of_mem a hy)
    rw [List.map_cons, firsts, firsts, List.map_cons, ← tail, List.filter_map]
    congr 2
    refine List.filter_congr fun b mem => ?_
    have inside := List.mem_cons_of_mem a (mem_firsts.mp mem)
    have same : f b = f a ↔ b = a :=
      ⟨apart b inside a List.mem_cons_self, fun same => congrArg f same⟩
    simp [same]

end Firsts

section Sorted
variable {R : α → α → Prop} {p : α → Bool} {l : List α}

/-- In a sorted list the first match is related to all others. -/
theorem find_least (sorted : l.Pairwise R) {a : α} (found : l.find? p = some a) :
    ∀ b ∈ l, p b = true → b = a ∨ R a b := by
  intro b mem holds
  obtain ⟨_, before, after, rfl, earlier⟩ := List.find?_eq_some_iff_append.mp found
  rcases List.mem_append.mp mem with early | late
  · exact absurd holds (by simpa using earlier b early)
  · rcases List.mem_cons.mp late with same | later
    · exact Or.inl same
    · exact Or.inr ((List.pairwise_cons.mp (List.pairwise_append.mp sorted).2.1).1 b later)

end Sorted

section Traversal

theorem mapM_eq_ok {f : α → Except ε β} {l : List α} {out : List β} :
    l.mapM f = .ok out ↔ List.Forall₂ (fun a b => f a = .ok b) l out := by
  induction l generalizing out with
  | nil =>
    rw [List.mapM_nil, List.forall₂_nil_left_iff]
    exact ⟨fun same => (Except.ok.inj same).symm, fun same => same ▸ rfl⟩
  | cons a rest ih =>
    rw [List.mapM_cons]
    cases head : f a with
    | error e =>
      refine ⟨fun failed => (nomatch failed), fun related => ?_⟩
      cases related with
      | cons first _ => rw [head] at first; exact nomatch first
    | ok b =>
      cases tail : rest.mapM f with
      | error e =>
        refine ⟨fun failed => (nomatch failed), fun related => ?_⟩
        cases related with
        | cons _ later => rw [ih.mpr later] at tail; exact nomatch tail
      | ok bs =>
        constructor
        · intro same
          obtain rfl : b :: bs = out := Except.ok.inj same
          exact List.Forall₂.cons head (ih.mp tail)
        · intro related
          cases related with
          | cons first later =>
            obtain rfl := Except.ok.inj (head.symm.trans first)
            obtain rfl := Except.ok.inj (tail.symm.trans (ih.mpr later))
            rfl

theorem mapM_at {f : α → Except ε β} {l : List α} {out : List β} (h : l.mapM f = .ok out)
    {i : Nat} {a : α} (listed : l[i]? = some a) : ∃ b, out[i]? = some b ∧ f a = .ok b := by
  obtain ⟨long, each⟩ := List.forall₂_iff_get.mp (mapM_eq_ok.mp h)
  obtain ⟨inside, rfl⟩ := List.getElem?_eq_some_iff.mp listed
  exact ⟨out[i], List.getElem?_eq_getElem (long ▸ inside), each i inside (long ▸ inside)⟩

theorem mapM_mono {f g : α → Except ε β} {l : List α} {out : List β}
    (extends' : ∀ a ∈ l, ∀ b, f a = .ok b → g a = .ok b) (h : l.mapM f = .ok out) :
    l.mapM g = .ok out := by
  have related := mapM_eq_ok.mp h
  clear h
  refine mapM_eq_ok.mpr ?_
  induction related with
  | nil => exact List.Forall₂.nil
  | cons first _ ih =>
    exact List.Forall₂.cons (extends' _ List.mem_cons_self _ first)
      (ih fun a mem => extends' a (List.mem_cons_of_mem _ mem))

theorem mapM_congr {f g : α → Except ε β} {l : List α} (same : ∀ a ∈ l, f a = g a) :
    l.mapM f = l.mapM g := by
  induction l with
  | nil => rfl
  | cons a rest ih =>
    rw [List.mapM_cons, List.mapM_cons, same a List.mem_cons_self,
      ih fun b mem => same b (List.mem_cons_of_mem a mem)]

theorem mapM_singletons (f : α → Except ε β) (l : List α) :
    (l.mapM (fun a => f a >>= fun v => .ok [v]) >>= fun values => .ok values.flatten) =
      l.mapM f := by
  induction l with
  | nil => rfl
  | cons a rest ih =>
    rw [List.mapM_cons, List.mapM_cons, ← ih]
    cases f a with
    | error e => rfl
    | ok v =>
      cases rest.mapM (fun a => f a >>= fun v => Except.ok [v]) with
      | error e => rfl
      | ok later => rfl

theorem mapM_map (f : α → β) (g : β → Except ε γ) (l : List α) :
    (l.map f).mapM g = l.mapM fun a => g (f a) := by
  induction l with
  | nil => rfl
  | cons a rest ih => simp only [List.map_cons, List.mapM_cons, ih]

theorem map_zip_self (g : α → β) (l : List α) : (l.map g).zip l = l.map fun a => (g a, a) := by
  induction l with
  | nil => rfl
  | cons a rest ih => rw [List.map_cons, List.zip_cons_cons, ih, List.map_cons]

theorem foldl_zipWith (step : α → β → α) (d : β) (rows : List (List β)) (start : List α)
    (wide : ∀ row ∈ rows, row.length = start.length) :
    rows.foldl (List.zipWith step) start =
      start.mapIdx fun i a => (rows.map fun row => row[i]?.getD d).foldl step a := by
  induction rows generalizing start with
  | nil => exact List.ext_getElem (by simp) fun i _ _ => by simp
  | cons row rows ih =>
    have width := wide row List.mem_cons_self
    have next : List.zipWith step start row =
        start.mapIdx fun i a => step a (row[i]?.getD d) := by
      refine List.ext_getElem (by simp [width]) fun i low high => ?_
      have inside : i < row.length := by
        simp at high
        omega
      simp [inside]
    rw [List.foldl_cons, ih _ fun other mem => ?_, next, List.mapIdx_mapIdx]
    · rfl
    · rw [wide other (List.mem_cons_of_mem _ mem), next, List.length_mapIdx]

theorem forall₂_mem {R : α → β → Prop} {l : List α} {out : List β} (each : List.Forall₂ R l out) :
    ∀ b ∈ out, ∃ a ∈ l, R a b := by
  induction each with
  | nil => exact fun b mem => nomatch mem
  | cons first _ ih =>
    intro b mem
    rcases List.mem_cons.mp mem with rfl | mem
    · exact ⟨_, List.mem_cons_self, first⟩
    · obtain ⟨a, listed, related⟩ := ih b mem
      exact ⟨a, List.mem_cons_of_mem _ listed, related⟩

theorem forall₂_paired {R : α → β → Prop} {l : List α} {out : List β}
    (each : List.Forall₂ R l out) : ∀ a ∈ l, ∃ b, (a, b) ∈ l.zip out ∧ R a b := by
  induction each with
  | nil => exact fun a mem => nomatch mem
  | cons first _ ih =>
    intro a mem
    rcases List.mem_cons.mp mem with rfl | mem
    · exact ⟨_, List.mem_cons_self, first⟩
    · obtain ⟨b, paired, related⟩ := ih a mem
      exact ⟨b, List.mem_cons_of_mem _ paired, related⟩

theorem forall₂_inside {R : α → β → Prop} {l : List α} {out : List β}
    (each : List.Forall₂ R l out) : List.Forall₂ (fun a b => a ∈ l ∧ b ∈ out ∧ R a b) l out := by
  induction each with
  | nil => exact .nil
  | cons first _ ih =>
    refine .cons ⟨List.mem_cons_self, List.mem_cons_self, first⟩ (ih.imp fun a b inside => ?_)
    obtain ⟨memA, memB, related⟩ := inside
    exact ⟨List.mem_cons_of_mem _ memA, List.mem_cons_of_mem _ memB, related⟩

theorem forall₂_through {R : α → β → Prop} {S : β → γ → Prop} {l : List α} {mid : List β}
    {out : List γ} (first : List.Forall₂ R l mid) (second : List.Forall₂ S mid out) :
    List.Forall₂ (fun a c => ∃ b, R a b ∧ S b c) l out := by
  induction first generalizing out with
  | nil =>
    cases second
    exact .nil
  | cons head _ ih =>
    cases second with
    | cons head' tail => exact .cons ⟨_, head, head'⟩ (ih tail)

theorem forall₂_of_map_eq {f : α → γ} {g : β → γ} {l : List α} {out : List β}
    (same : l.map f = out.map g) : List.Forall₂ (fun a b => f a = g b) l out := by
  have equal : List.Forall₂ Eq (l.map f) (out.map g) := by rw [List.forall₂_eq_eq_eq, same]
  rwa [List.forall₂_map_left_iff, List.forall₂_map_right_iff] at equal

theorem forall₂_forall_iff {R : α → β → Prop} {P : α → Prop} {Q : β → Prop} {l : List α}
    {out : List β} (each : List.Forall₂ R l out) (same : ∀ a b, R a b → (Q b ↔ P a)) :
    (∀ b ∈ out, Q b) ↔ ∀ a ∈ l, P a := by
  induction each with
  | nil => exact ⟨fun _ a mem => (nomatch mem), fun _ b mem => (nomatch mem)⟩
  | cons first _ ih =>
    rw [List.forall_mem_cons, List.forall_mem_cons]
    exact and_congr (same _ _ first) ih

theorem forall₂_iff_forall {R S : α → β → Prop} {P : α → Prop} {l : List α} {out : List β}
    (each : List.Forall₂ R l out) (same : ∀ a b, R a b → (S a b ↔ P a)) :
    List.Forall₂ S l out ↔ ∀ a ∈ l, P a := by
  induction each with
  | nil => exact ⟨fun _ a mem => (nomatch mem), fun _ => .nil⟩
  | cons first _ ih =>
    rw [List.forall₂_cons, List.forall_mem_cons]
    exact and_congr (same _ _ first) ih

theorem isOk_iff {x : Except ε β} : x.isOk = true ↔ ∃ v, x = .ok v := by
  cases x with
  | error e => simp [Except.toBool]
  | ok v => simp [Except.toBool]

theorem isOk_then (x : Except ε α) (f : α → β) :
    (x >>= fun a => (.ok (f a) : Except ε β)).isOk = x.isOk := by
  cases x with
  | error e => rfl
  | ok a => rfl

theorem elim_eq_ok {o : Option β} {otherwise : Except ε β} {v : β}
    (h : o.elim otherwise .ok = .ok v) : o = some v ∨ otherwise = .ok v := by
  cases o with
  | none => exact Or.inr h
  | some w =>
    obtain rfl := Except.ok.inj h
    exact Or.inl rfl

theorem mapM_isOk {f : α → Except ε β} {l : List α} :
    (l.mapM f).isOk = true ↔ ∀ a ∈ l, (f a).isOk = true := by
  rw [isOk_iff]
  constructor
  · rintro ⟨out, found⟩
    have related := mapM_eq_ok.mp found
    clear found
    induction related with
    | nil => exact fun a mem => nomatch mem
    | cons first _ ih => exact List.forall_mem_cons.mpr ⟨isOk_iff.mpr ⟨_, first⟩, ih⟩
  · intro each
    induction l with
    | nil => exact ⟨[], rfl⟩
    | cons a rest ih =>
      obtain ⟨first, later⟩ := List.forall_mem_cons.mp each
      obtain ⟨v, here⟩ := isOk_iff.mp first
      obtain ⟨out, there⟩ := ih later
      exact ⟨v :: out, mapM_eq_ok.mpr (.cons here (mapM_eq_ok.mp there))⟩

def answer [Inhabited β] : Except ε β → β
  | .ok b => b
  | .error _ => default

theorem mapM_eq_map [Inhabited β] {f : α → Except ε β} {l : List α} {out : List β}
    (h : l.mapM f = .ok out) :
    out = l.map (fun a => answer (f a)) ∧ ∀ a ∈ l, f a = .ok (answer (f a)) := by
  have related := mapM_eq_ok.mp h
  clear h
  induction related with
  | nil => simp
  | cons first _ ih =>
    obtain ⟨same, each⟩ := ih
    constructor
    · rw [List.map_cons, ← same, first]
      rfl
    · intro a mem
      rcases List.mem_cons.mp mem with rfl | later
      · rw [first]
        rfl
      · exact each a later

end Traversal

section Named
variable [DecidableEq α]

/-- The value under the first name equal to the key, `d` where the values run short. -/
def namedAt (d : β) (key : α) : List α → List β → Option β
  | [], _ => none
  | name :: names, values =>
      if name = key then some (values.head?.getD d) else namedAt d key names values.tail

variable {d : β} {key : α}

theorem namedAt_eq_none {names : List α} {values : List β} :
    namedAt d key names values = none ↔ key ∉ names := by
  induction names generalizing values with
  | nil => simp [namedAt]
  | cons name names ih =>
    unfold namedAt
    split
    · rename_i same
      simp [same]
    · rename_i other
      rw [ih, List.mem_cons, not_or]
      exact ⟨fun later => ⟨fun same => other same.symm, later⟩, And.right⟩

theorem namedAt_map (name : γ → α) (v : γ → β) (l : List γ) :
    namedAt d key (l.map name) (l.map v) = (l.find? (name · = key)).map v := by
  induction l with
  | nil => rfl
  | cons c rest ih =>
    simp only [List.map_cons, namedAt, List.tail_cons, ih, List.find?_cons]
    by_cases same : name c = key
    · simp [same]
    · simp [same]

theorem namedAt_image (column : α → β) (names : List α) :
    namedAt d key names (names.map column) = if key ∈ names then some (column key) else none := by
  induction names with
  | nil => rfl
  | cons name names ih =>
    rw [List.map_cons, namedAt, List.tail_cons, ih, List.head?_cons, Option.getD_some]
    by_cases same : name = key
    · simp [same]
    · simp [same, Ne.symm same]

theorem namedAt_append {names names' : List α} {values values' : List β}
    (fits : values.length = names.length) :
    namedAt d key (names ++ names') (values ++ values') =
      (namedAt d key names values).or (namedAt d key names' values') := by
  induction names generalizing values with
  | nil =>
    obtain rfl := List.eq_nil_of_length_eq_zero fits
    simp [namedAt]
  | cons name names ih =>
    cases values with
    | nil => exact absurd fits (by simp)
    | cons v values =>
      simp only [List.cons_append, namedAt, List.tail_cons, List.head?_cons, Option.getD_some]
      split
      · rfl
      · exact ih (by simpa using fits)

theorem namedAt_flatMap {names : γ → List α} {values : γ → List β} {l : List γ}
    (fits : ∀ c ∈ l, (values c).length = (names c).length) :
    namedAt d key (l.flatMap names) (l.flatMap values) =
      (l.find? (key ∈ names ·)).bind fun c => namedAt d key (names c) (values c) := by
  induction l with
  | nil => rfl
  | cons c rest ih =>
    rw [List.flatMap_cons, List.flatMap_cons, namedAt_append (fits c List.mem_cons_self),
      ih fun c mem => fits c (List.mem_cons_of_mem _ mem), List.find?_cons]
    by_cases here : key ∈ names c
    · cases found : namedAt d key (names c) (values c) with
      | none => exact absurd here (namedAt_eq_none.mp found)
      | some v => simp [here, found]
    · rw [namedAt_eq_none.mpr here]
      simp [here]

end Named

end Listing
