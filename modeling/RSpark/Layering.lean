import Mathlib.Data.List.Perm.Basic
import Mathlib.Data.Set.Finite.List
import Mathlib.Logic.Relation
import Mathlib.Order.WellFounded
import Mathlib.Order.RelClasses
import Mathlib.Tactic.Common

/- Finite graphs taken apart in layers: each layer is what has no predecessor left. In an
   acyclic graph a node's layer is the length of the longest path that ends in it. -/
namespace Layering
variable {α : Type} {edges : List (α × α)}

section Paths

def Edge (edges : List (α × α)) (a b : α) : Prop := (a, b) ∈ edges

def Acyclic (edges : List (α × α)) : Prop := ∀ a, ¬ Relation.TransGen (Edge edges) a a

inductive PathIn (edges : List (α × α)) (nodes : List α) : Nat → α → Prop where
  | start {a : α} (inside : a ∈ nodes) : PathIn edges nodes 0 a
  | extend {n : Nat} {a b : α} (path : PathIn edges nodes n a) (edge : (a, b) ∈ edges)
      (inside : b ∈ nodes) : PathIn edges nodes (n + 1) b

/-- The longest path among the nodes that ends in `a` has `n` edges. -/
def Longest (edges : List (α × α)) (nodes : List α) (a : α) (n : Nat) : Prop :=
  PathIn edges nodes n a ∧ ∀ m, PathIn edges nodes m a → m ≤ n

theorem PathIn.inside {nodes : List α} {n : Nat} {a : α} (path : PathIn edges nodes n a) :
    a ∈ nodes := by
  cases path with
  | start inside => exact inside
  | extend _ _ inside => exact inside

theorem Longest.lt {nodes : List α} {a b : α} {i j : Nat} (first : Longest edges nodes a i)
    (second : Longest edges nodes b j) (edge : (a, b) ∈ edges) : i < j :=
  second.2 (i + 1) (first.1.extend edge second.1.inside)

theorem PathIn.behead {nodes rest : List α}
    (stays : ∀ a ∈ nodes, ∀ b ∈ nodes, (a, b) ∈ edges → b ∈ rest) {n : Nat} {a : α}
    (path : PathIn edges nodes (n + 1) a) : PathIn edges rest n a := by
  induction n generalizing a with
  | zero =>
    cases path with
    | extend path edge inside => exact .start (stays _ path.inside _ inside edge)
  | succ n ih =>
    cases path with
    | extend path edge inside =>
      exact .extend (ih path) edge (stays _ path.inside _ inside edge)

theorem PathIn.prepend {nodes rest : List α} (within : ∀ a ∈ rest, a ∈ nodes)
    (preceded : ∀ b ∈ rest, ∃ a ∈ nodes, (a, b) ∈ edges) {n : Nat} {a : α}
    (path : PathIn edges rest n a) : PathIn edges nodes (n + 1) a := by
  induction path with
  | start inside =>
    obtain ⟨a, outside, edge⟩ := preceded _ inside
    exact .extend (.start outside) edge (within _ inside)
  | extend _ edge inside ih => exact .extend ih edge (within _ inside)

theorem acyclic_of_rank (rank : α → Nat) (rises : ∀ e ∈ edges, rank e.1 < rank e.2) :
    Acyclic edges := by
  have climbs {a b : α} (path : Relation.TransGen (Edge edges) a b) : rank a < rank b := by
    induction path with
    | single edge => exact rises _ edge
    | tail _ edge ih => exact Nat.lt_trans ih (rises _ edge)
  intro a cycle
  exact Nat.lt_irrefl _ (climbs cycle)

theorem exists_source (acyclic : Acyclic edges) {nodes : List α} (some_node : nodes ≠ []) :
    ∃ b ∈ nodes, ∀ a ∈ nodes, (a, b) ∉ edges := by
  let before (a b : { x // x ∈ nodes }) : Prop := Relation.TransGen (Edge edges) a.1 b.1
  have finite : Finite { x // x ∈ nodes } := nodes.finite_toSet
  have transitive : IsTrans { x // x ∈ nodes } before :=
    ⟨fun _ _ _ first second => first.trans second⟩
  have irreflexive : Std.Irrefl before := ⟨fun a cycle => acyclic a.1 cycle⟩
  have founded : WellFounded before := Finite.wellFounded_of_trans_of_irrefl before
  obtain ⟨first, inside⟩ := List.exists_mem_of_ne_nil nodes some_node
  obtain ⟨least, _, minimal⟩ := founded.has_min Set.univ ⟨⟨first, inside⟩, trivial⟩
  refine ⟨least.1, least.2, fun a mem edge => ?_⟩
  exact minimal ⟨a, mem⟩ trivial (.single edge)

end Paths

section Layered

/-- What a layering of a graph is: every node once, in non-empty layers, all edges forward,
    and each node as late as its longest path. -/
structure Layered (edges : List (α × α)) (nodes : List α) (layers : List (List α)) : Prop where
  partition : layers.flatten.Perm nodes
  present : ∀ layer ∈ layers, layer ≠ []
  forward : ∀ (i j : Nat) (early late : List α) (a b : α), layers[i]? = some early →
    layers[j]? = some late → a ∈ early → b ∈ late → (a, b) ∈ edges → i < j
  longest : ∀ (i : Nat) (layer : List α) (b : α), layers[i]? = some layer → b ∈ layer →
    Longest edges nodes b i

theorem Layered.no_edge_back {nodes : List α} {layers : List (List α)}
    (layered : Layered edges nodes layers) :
    layers.flatten.Pairwise fun earlier later => (later, earlier) ∉ edges := by
  rw [List.pairwise_flatten]
  constructor
  · intro layer mem
    obtain ⟨i, here⟩ := List.mem_iff_getElem?.mp mem
    refine List.pairwise_of_forall_mem_list fun a inA b inB edge => ?_
    exact Nat.lt_irrefl i (layered.forward i i layer layer b a here here inB inA edge)
  · rw [List.pairwise_iff_getElem]
    intro i j boundI boundJ before a inA b inB edge
    have back := layered.forward j i _ _ b a (List.getElem?_eq_getElem boundJ)
      (List.getElem?_eq_getElem boundI) inB inA edge
    omega

theorem Layered.irreflexive {nodes : List α} {layers : List (List α)}
    (layered : Layered edges nodes layers) {a : α} (inside : a ∈ nodes) : (a, a) ∉ edges := by
  intro edge
  obtain ⟨layer, mem, here⟩ := List.mem_flatten.mp (layered.partition.mem_iff.mpr inside)
  obtain ⟨i, found⟩ := List.mem_iff_getElem?.mp mem
  exact Nat.lt_irrefl i (layered.forward i i layer layer a a found found here here edge)

end Layered

section Layers
variable [DecidableEq α]

/-- The nodes without a predecessor among the nodes. -/
def front (edges : List (α × α)) (nodes : List α) : List α :=
  nodes.filter fun b => ∀ a ∈ nodes, (a, b) ∉ edges

def behind (nodes layer : List α) : List α := nodes.filter (· ∉ layer)

inductive Peels (edges : List (α × α)) : List α → List (List α) → Prop where
  | done : Peels edges [] []
  | layer {nodes layer rest : List α} {layers : List (List α)} (present : layer ≠ [])
      (same : layer.Perm (front edges nodes)) (left : rest.Perm (behind nodes layer))
      (later : Peels edges rest layers) : Peels edges nodes (layer :: layers)

theorem mem_front {nodes : List α} {b : α} :
    b ∈ front edges nodes ↔ b ∈ nodes ∧ ∀ a ∈ nodes, (a, b) ∉ edges := by
  simp [front]

theorem front_ne_nil (acyclic : Acyclic edges) {nodes : List α} (some_node : nodes ≠ []) :
    front edges nodes ≠ [] := by
  obtain ⟨b, inside, first⟩ := exists_source acyclic some_node
  exact List.ne_nil_of_mem (mem_front.mpr ⟨inside, first⟩)

theorem peel_mem {nodes layer rest : List α} (same : layer.Perm (front edges nodes))
    (left : rest.Perm (behind nodes layer)) {b : α} :
    b ∈ rest ↔ b ∈ nodes ∧ ∃ a ∈ nodes, (a, b) ∈ edges := by
  rw [left.mem_iff, behind, List.mem_filter, decide_eq_true_eq, same.mem_iff, mem_front]
  constructor
  · rintro ⟨inside, notFront⟩
    refine ⟨inside, ?_⟩
    by_contra none
    exact notFront ⟨inside, fun a mem edge => none ⟨a, mem, edge⟩⟩
  · rintro ⟨inside, a, mem, edge⟩
    exact ⟨inside, fun isFront => isFront.2 a mem edge⟩

theorem peels_perm {nodes : List α} {layers : List (List α)} (peels : Peels edges nodes layers)
    (nodup : nodes.Nodup) : layers.flatten.Perm nodes := by
  induction peels with
  | done => exact List.Perm.refl _
  | @layer nodes layer rest layers present same left later ih =>
    have layerNodup : layer.Nodup := same.nodup_iff.mpr (nodup.filter _)
    have restNodup : rest.Nodup := left.nodup_iff.mpr (nodup.filter _)
    rw [List.flatten_cons]
    refine (List.Perm.append_left layer (ih restNodup)).trans ?_
    rw [List.perm_ext_iff_of_nodup _ nodup]
    · intro b
      rw [List.mem_append, left.mem_iff, behind, List.mem_filter, decide_eq_true_eq]
      constructor
      · rintro (inLayer | ⟨inside, _⟩)
        · exact (mem_front.mp (same.mem_iff.mp inLayer)).1
        · exact inside
      · intro inside
        by_cases inLayer : b ∈ layer
        · exact Or.inl inLayer
        · exact Or.inr ⟨inside, inLayer⟩
    · rw [List.nodup_append]
      refine ⟨layerNodup, restNodup, ?_⟩
      rintro a inLayer b inRest rfl
      have outside := (List.mem_filter.mp (left.mem_iff.mp inRest)).2
      simp [inLayer] at outside

theorem peels_present {nodes : List α} {layers : List (List α)}
    (peels : Peels edges nodes layers) : ∀ layer ∈ layers, layer ≠ [] := by
  induction peels with
  | done => exact fun layer mem => (nomatch mem)
  | layer present _ _ _ ih =>
    intro layer mem
    rcases List.mem_cons.mp mem with rfl | later
    · exact present
    · exact ih layer later

theorem peels_longest {nodes : List α} {layers : List (List α)}
    (peels : Peels edges nodes layers) {i : Nat} {layer : List α} {b : α}
    (here : layers[i]? = some layer) (mem : b ∈ layer) : Longest edges nodes b i := by
  induction peels generalizing i with
  | done => exact nomatch here
  | @layer nodes front rest layers present same left later ih =>
    cases i with
    | zero =>
      obtain rfl := Option.some.inj here
      obtain ⟨inside, first⟩ := mem_front.mp (same.mem_iff.mp mem)
      refine ⟨.start inside, fun m path => ?_⟩
      cases path with
      | start _ => exact Nat.le_refl 0
      | extend path edge _ => exact absurd edge (first _ path.inside)
    | succ i =>
      obtain ⟨path, longest⟩ := ih here
      refine ⟨path.prepend (fun a mem => ((peel_mem same left).mp mem).1)
        (fun a mem => ((peel_mem same left).mp mem).2), fun m longer => ?_⟩
      cases m with
      | zero => exact Nat.zero_le _
      | succ m =>
        refine Nat.succ_le_succ (longest m (longer.behead fun a inside b inside' edge => ?_))
        exact (peel_mem same left).mpr ⟨inside', a, inside, edge⟩

theorem peels_layered {nodes : List α} {layers : List (List α)}
    (peels : Peels edges nodes layers) (nodup : nodes.Nodup) : Layered edges nodes layers := by
  refine ⟨peels_perm peels nodup, peels_present peels, ?_, fun i layer b => peels_longest peels⟩
  intro i j early late a b here there inEarly inLate edge
  exact (peels_longest peels here inEarly).lt (peels_longest peels there inLate) edge

end Layers

end Layering
