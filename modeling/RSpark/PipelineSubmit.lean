import RSpark.PipelineRunner

/- Submitting a pipeline over HTTP: the specification is read, stored under its name and run. It
   is stored before the runner has looked at its dependencies. -/
namespace RSparkPipelineSubmit
open RSparkValue RSparkPipelineDag RSparkPipelineRunner

section Registry

/-- The pipelines by name. The map that holds them is walked in no particular order. -/
structure PipelineRegistry where
  inner : InsertionMap String Pipeline

def PipelineRegistry.new : PipelineRegistry := ⟨.empty⟩

def PipelineRegistry.insert (r : PipelineRegistry) (p : Pipeline) : PipelineRegistry :=
  ⟨r.inner.insert p.pipeline p⟩

def PipelineRegistry.list (r : PipelineRegistry) : List Pipeline := r.inner.values

def PipelineRegistry.get (r : PipelineRegistry) (name : String) : Option Pipeline :=
  r.inner.get name

structure PipelineItem where
  name : String
  flows : List String
  deriving DecidableEq

def itemOf (p : Pipeline) : PipelineItem := ⟨p.pipeline, p.flows.map Flow.name⟩

def listPipelines (r : PipelineRegistry) : List PipelineItem := r.list.map itemOf

end Registry

section Handler

/-- The foreign parser of specifications; an error is a text. -/
class YamlSpec where
  fromYaml : String → Except String Pipeline

inductive Response where
  | badRequest (error kind : String)
  | internalServerError (error : Error)
  | ok (name : String) (flows : List String) (report : PipelineRunReport)

def Response.isError : Response → Bool
  | .badRequest _ _ => true
  | .internalServerError _ => true
  | .ok _ _ _ => false

def specError (e : SpecError) : Error := .parse e.display

variable [YamlSpec] [Toposort] {σ : Type} (runOne : RunOne σ) (order : DegreeOrder)

/-- There is no response when the handler panics, and none as long as a live flow runs. -/
def runPipelineNow (p : Pipeline) (world : σ) : Option Response :=
  match run runOne order p world with
  | .ok (some done) => some (.ok p.pipeline (p.flows.map Flow.name) done.report)
  | .ok none => none
  | .error (.error e) => some (.internalServerError (specError e))
  | .error (.abort _) => none

def submitPipeline (r : PipelineRegistry) (body : String) (world : σ) :
    PipelineRegistry × Option Response :=
  match YamlSpec.fromYaml body with
  | .error e => (r, some (.badRequest e "spec_error"))
  | .ok p => (r.insert p, runPipelineNow runOne order p world)

end Handler

section Sound

def Depends (p : Pipeline) (dep name : String) : Prop :=
  ∃ f ∈ p.flows, f.name = name ∧ dep ∈ f.dependsOn

/-- Every name depended on is that of a flow, and no flow depends on itself through others. -/
structure Sound (p : Pipeline) : Prop where
  known : ∀ f ∈ p.flows, ∀ dep ∈ f.dependsOn, dep ∈ p.flows.map Flow.name
  acyclic : ∀ name, ¬ Relation.TransGen (Depends p) name name

structure SortsGraphs [Toposort] : Prop where
  cycles : RejectsCycles
  inside : ∀ g n, Toposort.toposort g = .error n → n < g.nodes.length

theorem indexed_some {nodes : List String} {index : InsertionMap String NodeIndex}
    (indexed : Indexed nodes index) {name : String} (present : name ∈ nodes) :
    ∃ i, index.get name = some i := by
  obtain ⟨k, here⟩ := List.mem_iff_getElem?.mp present
  have bound : k ≤ nodes.length := Nat.le_of_lt (List.getElem?_eq_some_iff.mp here).1
  refine ⟨Nat.findGreatest (fun i => nodes[i]? = some name) nodes.length, ?_⟩
  rw [indexed]
  refine ⟨Nat.findGreatest_spec (P := fun i => nodes[i]? = some name) bound here, ?_⟩
  intro j later found
  have inside : j ≤ nodes.length := Nat.le_of_lt (List.getElem?_eq_some_iff.mp found).1
  exact Nat.findGreatest_is_greatest later inside found

theorem indexed_inside {nodes : List String} {index : InsertionMap String NodeIndex}
    (indexed : Indexed nodes index) {name : String} {i : NodeIndex}
    (found : index.get name = some i) : i < nodes.length :=
  (List.getElem?_eq_some_iff.mp ((indexed name i).mp found).1).1

theorem indexed_mem {nodes : List String} {index : InsertionMap String NodeIndex}
    (indexed : Indexed nodes index) {name : String} {i : NodeIndex}
    (found : index.get name = some i) : name ∈ nodes :=
  List.mem_of_getElem? ((indexed name i).mp found).1

/-- The edges between the nodes are the dependencies between the names. -/
theorem acyclic_iff {p : Pipeline} {g : DiGraph} {index : InsertionMap String NodeIndex}
    (indexed : Indexed (p.flows.map Flow.name) index)
    (known : ∀ f ∈ p.flows, ∀ dep ∈ f.dependsOn, dep ∈ p.flows.map Flow.name)
    (edges : ∀ e, e ∈ g.edges ↔ ∃ f ∈ p.flows, ∃ dep ∈ f.dependsOn,
      index.get dep = some e.1 ∧ index.get f.name = some e.2) :
    g.Acyclic ↔ ∀ name, ¬ Relation.TransGen (Depends p) name name := by
  constructor
  · intro acyclic name cycle
    apply acyclic ((index.get name).getD 0)
    apply cycle.lift fun name => (index.get name).getD 0
    intro dep name depends
    obtain ⟨f, listed, rfl, inside⟩ := depends
    obtain ⟨i, source⟩ := indexed_some indexed (known f listed dep inside)
    obtain ⟨j, target⟩ := indexed_some indexed (List.mem_map.mpr ⟨f, listed, rfl⟩)
    show ((index.get dep).getD 0, (index.get f.name).getD 0) ∈ g.edges
    rw [source, target, edges]
    exact ⟨f, listed, dep, inside, source, target⟩
  · intro apart i cycle
    apply apart ((p.flows.map Flow.name)[i]?.getD "")
    apply cycle.lift fun i => (p.flows.map Flow.name)[i]?.getD ""
    intro i j edge
    obtain ⟨f, listed, dep, inside, source, target⟩ := (edges (i, j)).mp edge
    have place : (p.flows.map Flow.name)[i]? = some dep := ((indexed dep i).mp source).1
    have place' : (p.flows.map Flow.name)[j]? = some f.name := ((indexed f.name j).mp target).1
    show Depends p ((p.flows.map Flow.name)[i]?.getD "") ((p.flows.map Flow.name)[j]?.getD "")
    rw [place, place']
    exact ⟨f, listed, rfl, inside⟩

section Dependencies
variable {index : InsertionMap String NodeIndex}

theorem addDependencies_answers {nodes : List String} (indexed : Indexed nodes index)
    {target : NodeIndex} (inside : target < nodes.length) (deps : List String) (g : DiGraph)
    (same : g.nodes = nodes) :
    (∃ g', addDependencies index target deps g = .ok g') ∨
      ∃ dep ∈ deps, index.get dep = none ∧
        addDependencies index target deps g = .error (.error (.unknownFlow dep)) := by
  induction deps generalizing g with
  | nil => exact Or.inl ⟨g, rfl⟩
  | cons dep deps ih =>
    unfold addDependencies
    cases found : index.get dep with
    | none => exact Or.inr ⟨dep, List.mem_cons_self, found, rfl⟩
    | some source =>
      have joined : source < g.nodes.length ∧ target < g.nodes.length := by
        rw [same]
        exact ⟨indexed_inside indexed found, inside⟩
      obtain ⟨g', added⟩ : ∃ g', g.addEdge source target = .ok g' := ⟨_, dif_pos joined⟩
      have kept : g'.nodes = nodes := (addEdge_eq_ok added).1.trans same
      simp only [added]
      rcases ih g' kept with all | missed
      · exact Or.inl all
      · obtain ⟨other, later, absent, failed⟩ := missed
        exact Or.inr ⟨other, List.mem_cons_of_mem dep later, absent, failed⟩

theorem addFlows_answers {nodes : List String} (indexed : Indexed nodes index)
    (flows : List Flow) (named : ∀ f ∈ flows, f.name ∈ nodes) (g : DiGraph)
    (same : g.nodes = nodes) :
    (∃ g', addFlows index flows g = .ok g') ∨
      ∃ f ∈ flows, ∃ dep ∈ f.dependsOn, index.get dep = none ∧
        addFlows index flows g = .error (.error (.unknownFlow dep)) := by
  induction flows generalizing g with
  | nil => exact Or.inl ⟨g, rfl⟩
  | cons f flows ih =>
    obtain ⟨here, rest⟩ := List.forall_mem_cons.mp named
    obtain ⟨target, found⟩ := indexed_some indexed here
    unfold addFlows
    simp only [found]
    rcases addDependencies_answers indexed (indexed_inside indexed found) f.dependsOn g same with
      all | missed
    · obtain ⟨g', added⟩ := all
      have kept : g'.nodes = nodes := (addDependencies_eq_ok added).1.trans same
      rw [added]
      rcases ih rest g' kept with all | missed
      · exact Or.inl all
      · obtain ⟨other, later, dep, depends, absent, failed⟩ := missed
        exact Or.inr ⟨other, List.mem_cons_of_mem f later, dep, depends, absent, failed⟩
    · obtain ⟨dep, depends, absent, failed⟩ := missed
      rw [failed]
      exact Or.inr ⟨f, List.mem_cons_self, dep, depends, absent, rfl⟩

end Dependencies

section Rejection
variable [Toposort]

theorem checkCycles_answers (law : SortsGraphs) (g : DiGraph) :
    (g.Acyclic ∧ checkCycles g = .ok ()) ∨
      ¬ g.Acyclic ∧ ∃ name ∈ g.nodes, checkCycles g = .error (.error (.cycle name)) := by
  unfold checkCycles
  cases sorted : Toposort.toposort g with
  | ok order =>
    refine Or.inl ⟨?_, rfl⟩
    by_contra cyclic
    obtain ⟨n, failed⟩ := (law.cycles.rejects_iff g).mpr cyclic
    rw [sorted] at failed
    cases failed
  | error n =>
    have weight := List.getElem?_eq_getElem (law.inside g n sorted)
    simp only [weight]
    exact Or.inr ⟨(law.cycles.rejects_iff g).mp ⟨n, sorted⟩, _, List.mem_of_getElem? weight, rfl⟩

inductive Fault (p : Pipeline) : SpecError → Prop where
  | unknownFlow {f : Flow} (listed : f ∈ p.flows) {dep : String} (depends : dep ∈ f.dependsOn)
      (absent : dep ∉ p.flows.map Flow.name) : Fault p (.unknownFlow dep)
  | cycle (known : ∀ f ∈ p.flows, ∀ dep ∈ f.dependsOn, dep ∈ p.flows.map Flow.name)
      {name : String} (cyclic : ¬ Sound p) (named : name ∈ p.flows.map Flow.name) :
      Fault p (.cycle name)

theorem fromPipeline_answers (law : SortsGraphs) (p : Pipeline) :
    (Sound p ∧ ∃ dag, fromPipeline p = .ok dag) ∨
      ¬ Sound p ∧ ∃ e, fromPipeline p = .error (.error e) ∧ Fault p e := by
  obtain ⟨named, noEdges, indexed⟩ := addNodes_indexed p.flows DiGraph.new .empty indexed_new
  rw [show DiGraph.new.nodes ++ p.flows.map Flow.name = p.flows.map Flow.name from rfl] at named
  rw [named] at indexed
  unfold fromPipeline
  dsimp only
  rcases addFlows_answers indexed p.flows (fun f listed => List.mem_map.mpr ⟨f, listed, rfl⟩) _
    named with all | missed
  · obtain ⟨g, added⟩ := all
    obtain ⟨nodes, known, edges⟩ := addFlows_eq_ok added
    rw [added]
    have names : ∀ f ∈ p.flows, ∀ dep ∈ f.dependsOn, dep ∈ p.flows.map Flow.name := by
      intro f listed dep depends
      obtain ⟨i, found⟩ := known f listed dep depends
      exact indexed_mem indexed found
    have acyclic := acyclic_iff (g := g) indexed names fun e => by
      rw [edges, noEdges]
      exact or_iff_right (fun mem => nomatch mem)
    rcases checkCycles_answers law g with passed | failed
    · obtain ⟨straight, checked⟩ := passed
      refine Or.inl ⟨⟨names, acyclic.mp straight⟩, ?_⟩
      show ∃ dag, (checkCycles g >>= fun _ => _) = .ok dag
      rw [checked]
      exact ⟨_, rfl⟩
    · obtain ⟨cyclic, name, node, checked⟩ := failed
      have unsound : ¬ Sound p := fun sound => cyclic (acyclic.mpr sound.acyclic)
      rw [nodes, named] at node
      refine Or.inr ⟨unsound, .cycle name, ?_, .cycle names unsound node⟩
      show (checkCycles g >>= fun _ => _) = _
      rw [checked]
      rfl
  · obtain ⟨f, listed, dep, depends, absent, failed⟩ := missed
    have missing : dep ∉ p.flows.map Flow.name := by
      intro inside
      obtain ⟨i, found⟩ := indexed_some indexed inside
      rw [absent] at found
      cases found
    rw [failed]
    exact Or.inr ⟨fun sound => missing (sound.known f listed dep depends), _, rfl,
      .unknownFlow listed depends missing⟩

end Rejection

end Sound

section Atomicity

def IsError (response : Option Response) : Prop := ∃ r, response = some r ∧ r.isError = true

structure Unchanged (before after : PipelineRegistry) : Prop where
  stored : ∀ name, after.get name = before.get name
  listed : (listPipelines after).Perm (listPipelines before)

theorem unchanged_refl (r : PipelineRegistry) : Unchanged r r :=
  ⟨fun _ => rfl, List.Perm.refl _⟩

theorem replace_stored {K V : Type} [DecidableEq K] {k : K} {v : V} {entries : List (K × V)}
    (stored : InsertionMap.find k entries = some v) :
    InsertionMap.replace k v entries = entries := by
  induction entries with
  | nil => cases stored
  | cons head rest ih =>
    obtain ⟨k', v'⟩ := head
    unfold InsertionMap.find at stored
    unfold InsertionMap.replace
    by_cases same : k' = k
    · rw [if_pos same] at stored ⊢
      rw [same, Option.some.inj stored]
    · rw [if_neg same] at stored ⊢
      rw [ih stored]

theorem insert_unchanged_iff (r : PipelineRegistry) (p : Pipeline) :
    Unchanged r (r.insert p) ↔ r.get p.pipeline = some p := by
  constructor
  · intro unchanged
    rw [← unchanged.stored]
    exact InsertionMap.find_replace_self _ _ _
  · intro stored
    have same : (r.insert p).inner.entries = r.inner.entries := replace_stored stored
    constructor
    · intro name
      show InsertionMap.find name (r.insert p).inner.entries = _
      rw [same]
      rfl
    · show (((r.insert p).inner.entries.map Prod.snd).map itemOf).Perm _
      rw [same]
      exact List.Perm.refl _

variable [Toposort] {σ : Type}

theorem runPipelineNow_error_iff (law : SortsGraphs) (runOne : RunOne σ) (order : DegreeOrder)
    (p : Pipeline) (world : σ) :
    IsError (runPipelineNow runOne order p world) ↔ ¬ Sound p := by
  unfold runPipelineNow run
  rcases fromPipeline_answers law p with accepted | rejected
  · obtain ⟨sound, dag, built⟩ := accepted
    rw [built]
    refine iff_of_false ?_ (not_not_intro sound)
    intro failed
    obtain ⟨r, answered, isError⟩ := failed
    cases ran : runLayers runOne dag p (dag.layers order) ⟨world, ⟨p.pipeline, [], []⟩, []⟩ with
    | none =>
      rw [show (Except.ok dag >>= _ : SpecResult (Option (Progress σ))) = .ok none from
        congrArg Except.ok ran] at answered
      cases answered
    | some done =>
      rw [show (Except.ok dag >>= _ : SpecResult (Option (Progress σ))) = .ok (some done) from
        congrArg Except.ok ran] at answered
      rw [← Option.some.inj answered] at isError
      cases isError
  · obtain ⟨unsound, e, failed, _⟩ := rejected
    rw [failed]
    exact iff_of_true ⟨_, rfl, rfl⟩ unsound

variable [YamlSpec]

/-- A submission that is answered with an error leaves the registry as it was exactly if it could
    not be read, or is stored already as it is. -/
theorem submission_atomic_iff (law : SortsGraphs) (runOne : RunOne σ) (order : DegreeOrder)
    (r : PipelineRegistry) (body : String) (world : σ) :
    (IsError (submitPipeline runOne order r body world).2 →
      Unchanged r (submitPipeline runOne order r body world).1) ↔
    ∀ p, YamlSpec.fromYaml body = .ok p → Sound p ∨ r.get p.pipeline = some p := by
  unfold submitPipeline
  cases read : YamlSpec.fromYaml body with
  | error e =>
    refine iff_of_true (fun _ => unchanged_refl r) ?_
    intro p parsed
    cases parsed
  | ok p =>
    dsimp only
    rw [runPipelineNow_error_iff law, insert_unchanged_iff]
    constructor
    · intro atomic q parsed
      rw [← Except.ok.inj parsed]
      by_cases sound : Sound p
      · exact Or.inl sound
      · exact Or.inr (atomic sound)
    · intro stored unsound
      exact (stored p rfl).resolve_left unsound

end Atomicity

section Witness

theorem indexSort_sortsGraphs : @SortsGraphs indexSort := by
  refine @SortsGraphs.mk indexSort indexSort_rejectsCycles fun g n failed => ?_
  have cyclic : ¬ g.Acyclic := fun straight => by
    rw [show indexSort.toposort g = .ok g.nodeIndices from if_pos straight] at failed
    cases failed
  rw [show indexSort.toposort g = .error 0 from if_neg cyclic] at failed
  rw [← Except.error.inj failed]
  apply Nat.pos_of_ne_zero
  intro none
  apply cyclic
  intro a cycle
  obtain ⟨b, _, edge⟩ := Relation.TransGen.tail'_iff.mp cycle
  exact absurd (g.bounded (b, a) edge).1 (none ▸ Nat.not_lt_zero b)

def unknownText : String :=
  "pipeline: p\nflows:\n  - name: a\n    kind: materialized_view\n    depends_on: [z]\n" ++
    "    source: \x7b kind: sql \x7d\n    query: SELECT 1\n" ++
    "    destination: \x7b kind: file, path: /tmp/a \x7d\n"

/-- A flow that depends on a name which no flow has. -/
def unknownDep : Pipeline := ⟨"p", [sqlFlow "a" ["z"]]⟩

@[reducible] def unknownSpec : YamlSpec :=
  ⟨fun body => if body = unknownText then .ok unknownDep else .error "missing field"⟩

def chainedStored : PipelineRegistry := PipelineRegistry.new.insert chained

theorem unknownDep_unsound : ¬ Sound unknownDep := by
  intro sound
  have known := sound.known (sqlFlow "a" ["z"]) List.mem_cons_self "z" List.mem_cons_self
  exact absurd known (by decide)

theorem unknown_read : unknownSpec.fromYaml unknownText = .ok unknownDep := if_pos rfl

theorem unknown_submission :
    (IsError (@submitPipeline unknownSpec indexSort Nat countingRun inOrder chainedStored
        unknownText 0).2 →
      Unchanged chainedStored (@submitPipeline unknownSpec indexSort Nat countingRun inOrder
        chainedStored unknownText 0).1) ↔
    ∀ p, unknownSpec.fromYaml unknownText = .ok p →
      Sound p ∨ chainedStored.get p.pipeline = some p :=
  @submission_atomic_iff indexSort Nat unknownSpec indexSort_sortsGraphs countingRun inOrder
    chainedStored unknownText 0

/-- The rejected specification takes the place of the good one of that name. -/
theorem rejected_replaces_good :
    ¬ ∀ (r : PipelineRegistry) (body : String) (world : Nat),
      IsError (@submitPipeline unknownSpec indexSort Nat countingRun inOrder r body world).2 →
      Unchanged r (@submitPipeline unknownSpec indexSort Nat countingRun inOrder r body
        world).1 := by
  intro claim
  have submitted : @submitPipeline unknownSpec indexSort Nat countingRun inOrder chainedStored
      unknownText 0 = (chainedStored.insert unknownDep,
        @runPipelineNow indexSort Nat countingRun inOrder unknownDep 0) := by
    unfold submitPipeline
    rw [unknown_read]
  have unchanged := claim chainedStored unknownText 0
  rw [submitted] at unchanged
  have stored := (insert_unchanged_iff chainedStored unknownDep).mp (unchanged
    ((@runPipelineNow_error_iff indexSort Nat indexSort_sortsGraphs countingRun inOrder unknownDep
      0).mpr unknownDep_unsound))
  have flows : ["a", "b", "c"] = ["a"] :=
    congrArg (fun p => p.flows.map Flow.name) (Option.some.inj stored)
  exact absurd flows (by decide)

end Witness

end RSparkPipelineSubmit
