import RSpark.InsertionMap
import RSpark.Layering

/- Pipelines of flows and their dependency graph: how it is built from the specification,
   and the layers in which the flows are run. -/
namespace RSparkPipelineDag
open Layering

section Spec

inductive FlowKind where
  | materializedView | streamingTable
  deriving DecidableEq

inductive Refresh where
  | full | incremental | live (pollMs : Nat)
  deriving DecidableEq

inductive SourceSpec where
  | tailDir (tailDir : String)
  | csv (path : String)
  | json (path : String)
  | s3 (key : String) (bucket : Option String)
  | kafka (topic brokers groupId : String)
  | sql
  deriving DecidableEq

inductive Destination where
  | s3 (key : String) (bucket : Option String)
  | file (path : String)
  deriving DecidableEq

def Refresh.isLive : Refresh → Bool
  | .live _ => true
  | .full => false
  | .incremental => false

structure Flow where
  name : String
  kind : FlowKind
  dependsOn : List String
  source : SourceSpec
  query : String
  refresh : Refresh
  destination : Destination
  deriving DecidableEq

structure Pipeline where
  pipeline : String
  flows : List Flow

/-- The errors of a specification that was read; the others concern files and syntax. -/
inductive SpecError where
  | unknownFlow (name : String)
  | cycle (name : String)
  deriving DecidableEq

def SpecError.display : SpecError → String
  | .unknownFlow name => s!"flow not found: {name}"
  | .cycle name => s!"cycle in pipeline: {name}"

inductive SpecFault where
  | error (e : SpecError)
  | abort (message : String)
  deriving DecidableEq

abbrev SpecResult := Except SpecFault

theorem specBind_eq_ok {α β : Type} {x : SpecResult α} {f : α → SpecResult β} {b : β} :
    (x >>= f) = .ok b ↔ ∃ a, x = .ok a ∧ f a = .ok b := by
  cases x with
  | error fault => exact ⟨fun failed => (nomatch failed), fun ⟨_, failed, _⟩ => (nomatch failed)⟩
  | ok a =>
    constructor
    · intro same
      exact ⟨a, rfl, same⟩
    · rintro ⟨a', same, rest⟩
      obtain rfl := Except.ok.inj same
      exact rest

end Spec

section Graph

abbrev NodeIndex := Nat

structure DiGraph where
  nodes : List String
  edges : List (NodeIndex × NodeIndex)
  bounded : ∀ e ∈ edges, e.1 < nodes.length ∧ e.2 < nodes.length

def DiGraph.new : DiGraph := ⟨[], [], fun _ mem => (nomatch mem)⟩

def DiGraph.nodeIndices (g : DiGraph) : List NodeIndex := List.range g.nodes.length

def DiGraph.addNode (g : DiGraph) (weight : String) : DiGraph :=
  ⟨g.nodes ++ [weight], g.edges, fun e mem => by
    obtain ⟨first, second⟩ := g.bounded e mem
    rw [List.length_append]
    exact ⟨Nat.lt_add_right _ first, Nat.lt_add_right _ second⟩⟩

/-- Joining a node that does not exist aborts. -/
def DiGraph.addEdge (g : DiGraph) (source target : NodeIndex) : SpecResult DiGraph :=
  if inside : source < g.nodes.length ∧ target < g.nodes.length then
    .ok ⟨g.nodes, g.edges ++ [(source, target)], fun e mem => by
      rcases List.mem_append.mp mem with old | new
      · exact g.bounded e old
      · obtain rfl := List.mem_singleton.mp new
        exact inside⟩
  else .error (.abort "node index out of bounds")

def DiGraph.neighbors (g : DiGraph) (n : NodeIndex) : List NodeIndex :=
  ((g.edges.filter (·.1 = n)).map Prod.snd).reverse

def DiGraph.Acyclic (g : DiGraph) : Prop := Layering.Acyclic g.edges

/-- The foreign topological sort; an error names a node. -/
class Toposort where
  toposort : DiGraph → Except NodeIndex (List NodeIndex)

structure RejectsCycles [Toposort] : Prop where
  rejects_iff : ∀ g, (∃ n, Toposort.toposort g = .error n) ↔ ¬ g.Acyclic

end Graph

section FromPipeline

structure PipelineDag where
  graph : DiGraph
  nameIndex : InsertionMap String NodeIndex

/-- One node for each flow; of two flows with one name the later is found by it. -/
def addNodes : List Flow → DiGraph → InsertionMap String NodeIndex →
    DiGraph × InsertionMap String NodeIndex
  | [], g, index => (g, index)
  | f :: flows, g, index =>
      addNodes flows (g.addNode f.name) (index.insert f.name g.nodes.length)

def addDependencies (index : InsertionMap String NodeIndex) (target : NodeIndex) :
    List String → DiGraph → SpecResult DiGraph
  | [], g => .ok g
  | dep :: deps, g =>
      match index.get dep with
      | none => .error (.error (.unknownFlow dep))
      | some source => do addDependencies index target deps (← g.addEdge source target)

def addFlows (index : InsertionMap String NodeIndex) : List Flow → DiGraph → SpecResult DiGraph
  | [], g => .ok g
  | f :: flows, g =>
      match index.get f.name with
      | none => .error (.abort "just inserted")
      | some target => do addFlows index flows (← addDependencies index target f.dependsOn g)

def checkCycles [Toposort] (g : DiGraph) : SpecResult Unit :=
  match Toposort.toposort g with
  | .ok _ => .ok ()
  | .error n =>
      match g.nodes[n]? with
      | some weight => .error (.error (.cycle weight))
      | none => .error (.abort "index out of bounds")

def fromPipeline [Toposort] (p : Pipeline) : SpecResult PipelineDag := do
  let named := addNodes p.flows DiGraph.new .empty
  let graph ← addFlows named.2 p.flows named.1
  checkCycles graph
  .ok ⟨graph, named.2⟩

end FromPipeline

section Layers

abbrev FlowId := NodeIndex

structure DegreeOrder where
  walk : List (NodeIndex × Nat) → List (NodeIndex × Nat)
  rearranges : ∀ degrees, (walk degrees).Perm degrees

def modify (n : NodeIndex) (f : Nat → Nat) (degrees : List (NodeIndex × Nat)) :
    List (NodeIndex × Nat) :=
  degrees.map fun entry => if entry.1 = n then (entry.1, f entry.2) else entry

def inDegrees (g : DiGraph) : List (NodeIndex × Nat) :=
  g.edges.foldl (fun degrees e => modify e.2 (· + 1) degrees) (g.nodeIndices.map fun n => (n, 0))

def layerOf (order : DegreeOrder) (remaining : List (NodeIndex × Nat)) : List NodeIndex :=
  (order.walk remaining).filterMap fun entry => if entry.2 = 0 then some entry.1 else none

def without (layer : List NodeIndex) (remaining : List (NodeIndex × Nat)) :
    List (NodeIndex × Nat) :=
  remaining.filter (·.1 ∉ layer)

/-- The degrees once the edges that leave a layer are counted off, stopping at zero. -/
def lowered (g : DiGraph) (layer : List NodeIndex) (remaining : List (NodeIndex × Nat)) :
    List (NodeIndex × Nat) :=
  layer.foldl (fun degrees n =>
    (g.neighbors n).foldl (fun degrees succ => modify succ (· - 1) degrees) degrees) remaining

theorem modify_keys (n : NodeIndex) (f : Nat → Nat) (degrees : List (NodeIndex × Nat)) :
    (modify n f degrees).map Prod.fst = degrees.map Prod.fst := by
  rw [modify, List.map_map]
  refine List.map_congr_left fun entry _ => ?_
  simp only [Function.comp]
  split <;> rfl

theorem foldl_modify_keys {f : Nat → Nat} (nodes : List NodeIndex)
    (degrees : List (NodeIndex × Nat)) :
    (nodes.foldl (fun degrees n => modify n f degrees) degrees).map Prod.fst =
      degrees.map Prod.fst := by
  induction nodes generalizing degrees with
  | nil => rfl
  | cons n nodes ih => rw [List.foldl_cons, ih, modify_keys]

theorem lowered_keys (g : DiGraph) (layer : List NodeIndex)
    (remaining : List (NodeIndex × Nat)) :
    (lowered g layer remaining).map Prod.fst = remaining.map Prod.fst := by
  unfold lowered
  induction layer generalizing remaining with
  | nil => rfl
  | cons n layer ih => rw [List.foldl_cons, ih, foldl_modify_keys]

theorem mem_layerOf {order : DegreeOrder} {remaining : List (NodeIndex × Nat)} {n : NodeIndex} :
    n ∈ layerOf order remaining ↔ (n, 0) ∈ remaining := by
  simp only [layerOf, List.mem_filterMap, (order.rearranges remaining).mem_iff]
  constructor
  · rintro ⟨⟨m, d⟩, mem, found⟩
    split at found
    · rename_i zero
      obtain rfl := Option.some.inj found
      obtain rfl : d = 0 := zero
      exact mem
    · exact nomatch found
  · intro mem
    exact ⟨(n, 0), mem, rfl⟩

theorem shrinks {order : DegreeOrder} {remaining : List (NodeIndex × Nat)} (g : DiGraph)
    (present : layerOf order remaining ≠ []) :
    (lowered g (layerOf order remaining) (without (layerOf order remaining) remaining)).length <
      remaining.length := by
  have length := congrArg List.length (lowered_keys g (layerOf order remaining)
    (without (layerOf order remaining) remaining))
  rw [List.length_map, List.length_map] at length
  rw [length, without]
  obtain ⟨n, mem⟩ := List.exists_mem_of_ne_nil _ present
  refine List.length_filter_lt_length_iff_exists.mpr ⟨(n, 0), mem_layerOf.mp mem, ?_⟩
  simpa using mem

/-- Layer after layer of the nodes whose degree has come down to zero, while there are some. -/
def layersFrom (g : DiGraph) (order : DegreeOrder) (remaining : List (NodeIndex × Nat)) :
    List (List FlowId) :=
  if remaining = [] then []
  else if _present : layerOf order remaining = [] then []
  else layerOf order remaining ::
    layersFrom g order
      (lowered g (layerOf order remaining) (without (layerOf order remaining) remaining))
termination_by remaining.length
decreasing_by exact shrinks g _present

def PipelineDag.layers (dag : PipelineDag) (order : DegreeOrder) : List (List FlowId) :=
  layersFrom dag.graph order (inDegrees dag.graph)

end Layers

section Degrees
variable {g : DiGraph}

def degree (g : DiGraph) (nodes : List NodeIndex) (n : NodeIndex) : Nat :=
  g.edges.countP fun e => e.2 = n ∧ e.1 ∈ nodes

/-- Each entry counts the edges that enter from the nodes that have entries. -/
structure Counts (g : DiGraph) (remaining : List (NodeIndex × Nat)) : Prop where
  nodup : (remaining.map Prod.fst).Nodup
  degrees : ∀ n d, (n, d) ∈ remaining → d = degree g (remaining.map Prod.fst) n

theorem foldl_modify (f : Nat → Nat) (nodes : List NodeIndex) (degrees : List (NodeIndex × Nat)) :
    nodes.foldl (fun degrees n => modify n f degrees) degrees =
      degrees.map fun entry => (entry.1, f^[nodes.count entry.1] entry.2) := by
  induction nodes generalizing degrees with
  | nil => simp
  | cons n nodes ih =>
    rw [List.foldl_cons, ih, modify, List.map_map]
    refine List.map_congr_left fun entry _ => ?_
    simp only [Function.comp]
    by_cases here : entry.1 = n
    · subst here
      rw [if_pos rfl, List.count_cons_self, Function.iterate_succ_apply]
    · rw [if_neg here, List.count_cons_of_ne (Ne.symm here)]

theorem iterate_succ_eq (n d : Nat) : (· + 1)^[n] d = d + n := by
  induction n generalizing d with
  | zero => rfl
  | succ n ih =>
    rw [Function.iterate_succ_apply, ih]
    omega

theorem iterate_pred_eq (n d : Nat) : (· - 1)^[n] d = d - n := by
  induction n generalizing d with
  | zero => rfl
  | succ n ih =>
    rw [Function.iterate_succ_apply, ih]
    omega

theorem lowered_eq (layer : List NodeIndex) (remaining : List (NodeIndex × Nat)) :
    lowered g layer remaining =
      remaining.map fun entry =>
        (entry.1, entry.2 - (layer.flatMap g.neighbors).count entry.1) := by
  have flat : lowered g layer remaining = (layer.flatMap g.neighbors).foldl
      (fun degrees succ => modify succ (· - 1) degrees) remaining := by
    rw [lowered, List.foldl_flatMap]
  rw [flat, foldl_modify]
  simp only [iterate_pred_eq]

theorem inDegrees_eq (g : DiGraph) :
    inDegrees g = g.nodeIndices.map fun n => (n, (g.edges.map Prod.snd).count n) := by
  have flat : inDegrees g = (g.edges.map Prod.snd).foldl
      (fun degrees n => modify n (· + 1) degrees) (g.nodeIndices.map fun n => (n, 0)) := by
    rw [inDegrees, List.foldl_map]
  rw [flat, foldl_modify, List.map_map]
  refine List.map_congr_left fun n _ => ?_
  simp only [Function.comp, iterate_succ_eq, Nat.zero_add]

theorem degree_split (nodes layer rest : List NodeIndex) (n : NodeIndex)
    (members : ∀ m, m ∈ nodes ↔ m ∈ layer ∨ m ∈ rest) (apart : ∀ m ∈ layer, m ∉ rest) :
    degree g nodes n = degree g layer n + degree g rest n := by
  rw [degree, List.countP_eq_countP_filter_add _ _ (fun e => decide (e.1 ∈ layer)),
    List.countP_filter, List.countP_filter]
  congr 1
  · refine List.countP_congr fun e _ => ?_
    simp only [Bool.and_eq_true, decide_eq_true_eq, members]
    constructor
    · rintro ⟨⟨target, _⟩, inside⟩
      exact ⟨target, inside⟩
    · rintro ⟨target, inside⟩
      exact ⟨⟨target, Or.inl inside⟩, inside⟩
  · refine List.countP_congr fun e _ => ?_
    simp only [Bool.and_eq_true, Bool.not_eq_true', decide_eq_true_eq, decide_eq_false_iff_not,
      members]
    constructor
    · rintro ⟨⟨target, inside⟩, outside⟩
      exact ⟨target, inside.resolve_left outside⟩
    · rintro ⟨target, inside⟩
      exact ⟨⟨target, Or.inr inside⟩, fun here => apart _ here inside⟩

theorem count_neighbors_one (m n : NodeIndex) : (g.neighbors m).count n = degree g [m] n := by
  rw [DiGraph.neighbors, List.count_reverse, List.count, List.countP_map, List.countP_filter,
    degree]
  refine List.countP_congr fun e _ => ?_
  simp

theorem count_neighbors {layer : List NodeIndex} (nodup : layer.Nodup) (n : NodeIndex) :
    (layer.flatMap g.neighbors).count n = degree g layer n := by
  induction layer with
  | nil => simp [degree]
  | cons m layer ih =>
    obtain ⟨outside, nodup⟩ := List.nodup_cons.mp nodup
    rw [List.flatMap_cons, List.count_append, ih nodup, count_neighbors_one]
    refine (degree_split _ _ _ n (fun k => ?_) (fun k here => ?_)).symm
    · simp
    · rw [List.mem_singleton.mp here]
      exact outside

theorem degree_eq_zero {nodes : List NodeIndex} {n : NodeIndex} :
    degree g nodes n = 0 ↔ ∀ m ∈ nodes, (m, n) ∉ g.edges := by
  simp only [degree, List.countP_eq_zero, decide_eq_true_eq, not_and]
  constructor
  · intro none m inside edge
    exact none (m, n) edge rfl inside
  · rintro none ⟨m, k⟩ edge rfl inside
    exact none m inside edge

theorem inDegrees_counts (g : DiGraph) : Counts g (inDegrees g) := by
  have keys : (inDegrees g).map Prod.fst = g.nodeIndices := by
    rw [inDegrees_eq, List.map_map]
    exact List.map_id _
  refine ⟨keys ▸ List.nodup_range, fun n d mem => ?_⟩
  rw [inDegrees_eq, List.mem_map] at mem
  obtain ⟨m, _, same⟩ := mem
  obtain ⟨rfl, rfl⟩ := Prod.mk.inj same
  rw [keys, degree, List.count, List.countP_map]
  refine List.countP_congr fun e edge => ?_
  simp [DiGraph.nodeIndices, (g.bounded e edge).1]

variable {order : DegreeOrder} {remaining : List (NodeIndex × Nat)}

theorem layerOf_eq : layerOf order remaining =
    ((order.walk remaining).filter fun entry => entry.2 = 0).map Prod.fst := by
  rw [layerOf]
  induction order.walk remaining with
  | nil => rfl
  | cons entry rest ih =>
    by_cases zero : entry.2 = 0 <;> simp [zero, ih]

theorem layerOf_nodup (order : DegreeOrder) (counts : Counts g remaining) :
    (layerOf order remaining).Nodup := by
  have walked : ((order.walk remaining).map Prod.fst).Nodup :=
    ((order.rearranges remaining).map Prod.fst).nodup_iff.mpr counts.nodup
  rw [layerOf_eq]
  exact walked.sublist (List.filter_sublist.map _)

theorem without_keys (layer : List NodeIndex) :
    (without layer remaining).map Prod.fst = behind (remaining.map Prod.fst) layer := by
  rw [without, behind, List.filter_map]
  rfl

theorem layerOf_front (order : DegreeOrder) (counts : Counts g remaining) :
    (layerOf order remaining).Perm (front g.edges (remaining.map Prod.fst)) := by
  have fronts : (front g.edges (remaining.map Prod.fst)).Nodup := counts.nodup.filter _
  rw [List.perm_ext_iff_of_nodup (layerOf_nodup order counts) fronts]
  intro n
  rw [mem_layerOf, mem_front, ← degree_eq_zero, List.mem_map]
  constructor
  · intro mem
    exact ⟨⟨_, mem, rfl⟩, (counts.degrees n 0 mem).symm⟩
  · rintro ⟨⟨⟨m, d⟩, mem, rfl⟩, zero⟩
    rw [← counts.degrees m d mem] at zero
    exact zero ▸ mem

theorem lowered_counts (counts : Counts g remaining) :
    Counts g (lowered g (layerOf order remaining)
      (without (layerOf order remaining) remaining)) := by
  have nodup := layerOf_nodup order counts
  have keys := (lowered_keys g (layerOf order remaining)
    (without (layerOf order remaining) remaining)).trans (without_keys _)
  refine ⟨keys ▸ counts.nodup.filter _, fun n d mem => ?_⟩
  rw [keys]
  rw [lowered_eq, List.mem_map] at mem
  obtain ⟨⟨m, before⟩, inside, same⟩ := mem
  obtain ⟨rfl, rfl⟩ := Prod.mk.inj same
  have whole := counts.degrees m before (List.mem_of_mem_filter inside)
  have split : degree g (remaining.map Prod.fst) m = degree g (layerOf order remaining) m +
      degree g (behind (remaining.map Prod.fst) (layerOf order remaining)) m := by
    refine degree_split _ _ _ m (fun k => ?_) fun k here => ?_
    · rw [behind, List.mem_filter, decide_eq_true_eq]
      constructor
      · intro key
        by_cases here : k ∈ layerOf order remaining
        · exact Or.inl here
        · exact Or.inr ⟨key, here⟩
      · rintro (here | ⟨key, _⟩)
        · exact List.mem_map.mpr ⟨_, mem_layerOf.mp here, rfl⟩
        · exact key
    · rw [behind, List.mem_filter, decide_eq_true_eq]
      intro outside
      exact outside.2 here
  simp only [count_neighbors nodup]
  omega

theorem layersFrom_peels (order : DegreeOrder) (acyclic : g.Acyclic) (counts : Counts g remaining) :
    Peels g.edges (remaining.map Prod.fst) (layersFrom g order remaining) := by
  induction remaining using layersFrom.induct g order with
  | case1 =>
    rw [layersFrom, if_pos rfl]
    exact .done
  | case2 remaining nonempty none =>
    have keys : remaining.map Prod.fst ≠ [] := by simpa using nonempty
    have present := front_ne_nil acyclic keys
    exact absurd (List.nil_perm.mp (none ▸ layerOf_front order counts)) present
  | case3 remaining nonempty present ih =>
    rw [layersFrom, if_neg nonempty, dif_neg present]
    refine .layer present (layerOf_front order counts) ?_ (ih (lowered_counts counts))
    rw [lowered_keys, without_keys]

end Degrees

section Accepted

def Indexed (nodes : List String) (index : InsertionMap String NodeIndex) : Prop :=
  ∀ name i, index.get name = some i ↔
    nodes[i]? = some name ∧ ∀ j, i < j → nodes[j]? ≠ some name

theorem indexed_new : Indexed DiGraph.new.nodes .empty := by
  intro name i
  rw [InsertionMap.get_empty]
  exact iff_of_false (fun none => (nomatch none)) (fun here => (nomatch here.1))

theorem indexed_insert {nodes : List String} {index : InsertionMap String NodeIndex}
    (indexed : Indexed nodes index) (name : String) :
    Indexed (nodes ++ [name]) (index.insert name nodes.length) := by
  intro name' i
  have last : (nodes ++ [name])[nodes.length]? = some name := by simp
  rw [InsertionMap.get_insert]
  split
  · rename_i same
    subst same
    constructor
    · intro here
      obtain rfl := Option.some.inj here
      refine ⟨last, fun j later => ?_⟩
      rw [List.getElem?_eq_none (by rw [List.length_append]; exact later)]
      intro none
      cases none
    · rintro ⟨here, latest⟩
      have bound := (List.getElem?_eq_some_iff.mp here).1
      rw [List.length_append, List.length_singleton] at bound
      by_contra other
      have apart : i ≠ nodes.length := fun same => other (congrArg some same.symm)
      exact latest nodes.length (Nat.lt_of_le_of_ne (Nat.le_of_lt_succ bound) apart) last
  · rename_i other
    rw [indexed]
    have elsewhere (j : Nat) : (nodes ++ [name])[j]? = some name' ↔ nodes[j]? = some name' := by
      rcases Nat.lt_trichotomy j nodes.length with inside | rfl | outside
      · rw [List.getElem?_append_left inside]
      · rw [last, List.getElem?_eq_none (Nat.le_refl _)]
        exact iff_of_false (fun same => other (Option.some.inj same).symm)
          (Option.some_ne_none _).symm
      · rw [List.getElem?_eq_none (by rw [List.length_append]; exact outside),
          List.getElem?_eq_none (Nat.le_of_lt outside)]
    simp only [ne_eq, elsewhere]

theorem addNodes_indexed (flows : List Flow) (g : DiGraph)
    (index : InsertionMap String NodeIndex) (indexed : Indexed g.nodes index) :
    (addNodes flows g index).1.nodes = g.nodes ++ flows.map Flow.name ∧
      (addNodes flows g index).1.edges = g.edges ∧
      Indexed (addNodes flows g index).1.nodes (addNodes flows g index).2 := by
  induction flows generalizing g index with
  | nil => exact ⟨(List.append_nil _).symm, rfl, indexed⟩
  | cons f flows ih =>
    obtain ⟨nodes, edges, later⟩ := ih (g.addNode f.name) (index.insert f.name g.nodes.length)
      (indexed_insert indexed f.name)
    refine ⟨?_, edges, later⟩
    rw [addNodes, nodes]
    show (g.nodes ++ [f.name]) ++ _ = _
    rw [List.append_assoc]
    rfl

theorem addEdge_eq_ok {g g' : DiGraph} {source target : NodeIndex}
    (added : g.addEdge source target = .ok g') :
    g'.nodes = g.nodes ∧ g'.edges = g.edges ++ [(source, target)] := by
  unfold DiGraph.addEdge at added
  split at added
  · obtain rfl := Except.ok.inj added
    exact ⟨rfl, rfl⟩
  · exact nomatch added

theorem addDependencies_eq_ok {index : InsertionMap String NodeIndex} {target : NodeIndex}
    {deps : List String} {g g' : DiGraph} (added : addDependencies index target deps g = .ok g') :
    g'.nodes = g.nodes ∧ (∀ dep ∈ deps, ∃ i, index.get dep = some i) ∧
      ∀ e, e ∈ g'.edges ↔ e ∈ g.edges ∨ ∃ dep ∈ deps, index.get dep = some e.1 ∧ e.2 = target := by
  induction deps generalizing g with
  | nil =>
    obtain rfl := Except.ok.inj added
    simp
  | cons dep deps ih =>
    unfold addDependencies at added
    cases found : index.get dep with
    | none => simp [found] at added
    | some source =>
      simp only [found] at added
      obtain ⟨next, joined, added⟩ := specBind_eq_ok.mp added
      obtain ⟨nodes, known, edges⟩ := ih added
      obtain ⟨nodes', edges'⟩ := addEdge_eq_ok joined
      refine ⟨nodes.trans nodes', ?_, fun e => ?_⟩
      · intro d mem
        rcases List.mem_cons.mp mem with rfl | later
        · exact ⟨source, found⟩
        · exact known d later
      · rw [edges, edges', List.mem_append, List.mem_singleton, or_assoc]
        refine or_congr_right ?_
        constructor
        · rintro (rfl | ⟨d, mem, here⟩)
          · exact ⟨dep, List.mem_cons_self, found, rfl⟩
          · exact ⟨d, List.mem_cons_of_mem _ mem, here⟩
        · rintro ⟨d, mem, here, same⟩
          rcases List.mem_cons.mp mem with rfl | later
          · rw [found] at here
            exact Or.inl (Prod.ext (Option.some.inj here).symm same)
          · exact Or.inr ⟨d, later, here, same⟩

theorem addFlows_eq_ok {index : InsertionMap String NodeIndex} {flows : List Flow}
    {g g' : DiGraph} (added : addFlows index flows g = .ok g') :
    g'.nodes = g.nodes ∧ (∀ f ∈ flows, ∀ dep ∈ f.dependsOn, ∃ i, index.get dep = some i) ∧
      ∀ e, e ∈ g'.edges ↔ e ∈ g.edges ∨ ∃ f ∈ flows, ∃ dep ∈ f.dependsOn,
        index.get dep = some e.1 ∧ index.get f.name = some e.2 := by
  induction flows generalizing g with
  | nil =>
    obtain rfl := Except.ok.inj added
    simp
  | cons f flows ih =>
    unfold addFlows at added
    cases found : index.get f.name with
    | none => simp [found] at added
    | some target =>
      simp only [found] at added
      obtain ⟨next, joined, added⟩ := specBind_eq_ok.mp added
      obtain ⟨nodes, known, edges⟩ := ih added
      obtain ⟨nodes', known', edges'⟩ := addDependencies_eq_ok joined
      refine ⟨nodes.trans nodes', ?_, fun e => ?_⟩
      · intro f' mem
        rcases List.mem_cons.mp mem with rfl | later
        · exact known'
        · exact known f' later
      · rw [edges, edges', or_assoc]
        refine or_congr_right ?_
        constructor
        · rintro (⟨dep, mem, source, same⟩ | ⟨f', mem, rest⟩)
          · exact ⟨f, List.mem_cons_self, dep, mem, source, found.trans (congrArg some same.symm)⟩
          · exact ⟨f', List.mem_cons_of_mem _ mem, rest⟩
        · rintro ⟨f', mem, dep, inside, source, ends⟩
          rcases List.mem_cons.mp mem with rfl | later
          · rw [found] at ends
            exact Or.inl ⟨dep, inside, source, (Option.some.inj ends).symm⟩
          · exact Or.inr ⟨f', later, dep, inside, source, ends⟩

/-- The graph of an accepted pipeline: a node for each flow, and an edge for each
    dependency. -/
structure DagOf (p : Pipeline) (dag : PipelineDag) : Prop where
  nodes : dag.graph.nodes = p.flows.map Flow.name
  indexed : Indexed dag.graph.nodes dag.nameIndex
  known : ∀ f ∈ p.flows, ∀ dep ∈ f.dependsOn, ∃ i, dag.nameIndex.get dep = some i
  edges : ∀ e, e ∈ dag.graph.edges ↔ ∃ f ∈ p.flows, ∃ dep ∈ f.dependsOn,
    dag.nameIndex.get dep = some e.1 ∧ dag.nameIndex.get f.name = some e.2

end Accepted

section Built
variable [Toposort]

theorem checkCycles_acyclic (law : RejectsCycles) {g : DiGraph} (passed : checkCycles g = .ok ()) :
    g.Acyclic := by
  by_contra cyclic
  obtain ⟨n, rejected⟩ := (law.rejects_iff g).mpr cyclic
  rw [checkCycles, rejected] at passed
  cases weight : g.nodes[n]? with
  | none => simp [weight] at passed
  | some name => simp [weight] at passed

theorem fromPipeline_eq_ok {p : Pipeline} {dag : PipelineDag}
    (accepted : fromPipeline p = .ok dag) :
    addFlows (addNodes p.flows DiGraph.new .empty).2 p.flows
        (addNodes p.flows DiGraph.new .empty).1 = .ok dag.graph ∧
      checkCycles dag.graph = .ok () ∧
      dag.nameIndex = (addNodes p.flows DiGraph.new .empty).2 := by
  obtain ⟨graph, built, accepted⟩ := specBind_eq_ok.mp accepted
  obtain ⟨_, checked, same⟩ := specBind_eq_ok.mp accepted
  obtain rfl := Except.ok.inj same
  exact ⟨built, checked, rfl⟩

theorem fromPipeline_dagOf {p : Pipeline} {dag : PipelineDag}
    (accepted : fromPipeline p = .ok dag) : DagOf p dag := by
  obtain ⟨built, _, index⟩ := fromPipeline_eq_ok accepted
  obtain ⟨named, noEdges, indexed⟩ := addNodes_indexed p.flows DiGraph.new .empty indexed_new
  obtain ⟨nodes, known, edges⟩ := addFlows_eq_ok built
  rw [← index] at known edges
  refine ⟨nodes.trans named, ?_, known, fun e => ?_⟩
  · rw [nodes, index]
    exact indexed
  · rw [edges, noEdges]
    exact or_iff_right (fun mem => nomatch mem)

theorem accepted_layered (law : RejectsCycles) (order : DegreeOrder) {p : Pipeline}
    {dag : PipelineDag} (accepted : fromPipeline p = .ok dag) :
    Layered dag.graph.edges dag.graph.nodeIndices (dag.layers order) := by
  have acyclic := checkCycles_acyclic law (fromPipeline_eq_ok accepted).2.1
  have keys : (inDegrees dag.graph).map Prod.fst = dag.graph.nodeIndices := by
    rw [inDegrees_eq, List.map_map]
    exact List.map_id _
  have peels := layersFrom_peels order acyclic (inDegrees_counts dag.graph)
  rw [keys] at peels
  exact peels_layered peels List.nodup_range

/-- The layers of an accepted pipeline: every node once, every dependency strictly earlier,
    every node as late as its longest chain of dependencies. -/
theorem layers_layered (law : RejectsCycles) (order : DegreeOrder) (p : Pipeline)
    (dag : PipelineDag) (accepted : fromPipeline p = .ok dag) :
    DagOf p dag ∧ Layered dag.graph.edges dag.graph.nodeIndices (dag.layers order) :=
  ⟨fromPipeline_dagOf accepted, accepted_layered law order accepted⟩

end Built

section Witness
open Classical in
/-- A sort of the graphs whose edges all lead to later nodes, that rejects those with cycles. -/
@[reducible] noncomputable def indexSort : Toposort :=
  ⟨fun g => if g.Acyclic then .ok g.nodeIndices else .error 0⟩

theorem indexSort_rejectsCycles : @RejectsCycles indexSort := by
  refine @RejectsCycles.mk indexSort fun g => ?_
  by_cases acyclic : g.Acyclic
  · have sorted : indexSort.toposort g = .ok g.nodeIndices := if_pos acyclic
    rw [sorted]
    exact iff_of_false (fun ⟨_, failed⟩ => (nomatch failed)) (not_not_intro acyclic)
  · exact iff_of_true ⟨0, if_neg acyclic⟩ acyclic

def sqlFlow (name : String) (dependsOn : List String) : Flow :=
  ⟨name, .materializedView, dependsOn, .sql, "SELECT 1", .full, .file ("/tmp/" ++ name)⟩

def chained : Pipeline := ⟨"p", [sqlFlow "a" [], sqlFlow "b" ["a", "a"], sqlFlow "c" ["a", "b"]]⟩

def chainedGraph : DiGraph :=
  ⟨["a", "b", "c"], [(0, 1), (0, 1), (0, 2), (1, 2)], by decide⟩

def inOrder : DegreeOrder := ⟨id, fun _ => List.Perm.refl _⟩

theorem chained_accepted : ∃ dag, @fromPipeline indexSort chained = .ok dag := by
  have acyclic : chainedGraph.Acyclic := acyclic_of_rank id (by decide)
  have checked : @checkCycles indexSort chainedGraph = .ok () := by
    have sorted : indexSort.toposort chainedGraph = .ok chainedGraph.nodeIndices := if_pos acyclic
    simp only [checkCycles, sorted]
  refine ⟨⟨chainedGraph, (addNodes chained.flows DiGraph.new .empty).2⟩, ?_⟩
  show (do @checkCycles indexSort chainedGraph; _) = _
  rw [checked]
  rfl

/-- The chain has its three nodes in layers as late as their longest paths. -/
theorem chained_layered : ∃ dag, @fromPipeline indexSort chained = .ok dag ∧
    Layered dag.graph.edges dag.graph.nodeIndices (dag.layers inOrder) := by
  obtain ⟨dag, accepted⟩ := chained_accepted
  exact ⟨dag, accepted,
    (@layers_layered indexSort indexSort_rejectsCycles inOrder chained dag accepted).2⟩

end Witness

end RSparkPipelineDag
