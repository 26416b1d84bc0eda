import RSpark.PipelineDag
import RSpark.Value

/- The pipeline runner: the flows of a pipeline attempted layer by layer, and its report. -/
namespace RSparkPipelineRunner
open RSparkValue RSparkPipelineDag Layering

section Run

structure RunStats where
  flow : String
  kind : FlowKind
  refresh : Refresh
  rowCount : Nat
  destination : String
  deriving DecidableEq

structure PipelineRunReport where
  pipeline : String
  flows : List RunStats
  errors : List String
  deriving DecidableEq

/-- How far a run has come. The flows attempted are noted in order; the runner itself keeps
    only the report. -/
structure Progress (σ : Type) where
  world : σ
  report : PipelineRunReport
  attempts : List Flow

/-- What attempting a flow does to the world, and its answer. There is none when the flow is
    live, as its tail goes on for ever, and none when it panics. -/
abbrev RunOne (σ : Type) := Flow → σ → Option (σ × Except Error RunStats)

variable {σ : Type} (runOne : RunOne σ)

def failureText (flow : Flow) (e : Error) : String :=
  s!"flow '{flow.name}' failed: {e.display}"

def PipelineRunReport.record (report : PipelineRunReport) (flow : Flow) :
    Except Error RunStats → PipelineRunReport
  | .ok stats => { report with flows := report.flows ++ [stats] }
  | .error e => { report with errors := report.errors ++ [failureText flow e] }

def attempt (flow : Flow) (p : Progress σ) : Option (Progress σ) :=
  match runOne flow p.world with
  | none => none
  | some (world, answer) => some ⟨world, p.report.record flow answer, p.attempts ++ [flow]⟩

def flowAt (dag : PipelineDag) (pipeline : Pipeline) (fid : FlowId) : Option Flow :=
  pipeline.flows.find? fun f => dag.nameIndex.get f.name = some fid

/-- A node at which no flow is found is passed over. -/
def runFlow (dag : PipelineDag) (pipeline : Pipeline) (fid : FlowId) (p : Progress σ) :
    Option (Progress σ) :=
  match flowAt dag pipeline fid with
  | none => some p
  | some flow => attempt runOne flow p

def runLayer (dag : PipelineDag) (pipeline : Pipeline) :
    List FlowId → Progress σ → Option (Progress σ)
  | [], p => some p
  | fid :: layer, p => (runFlow runOne dag pipeline fid p).bind (runLayer dag pipeline layer)

def runLayers (dag : PipelineDag) (pipeline : Pipeline) :
    List (List FlowId) → Progress σ → Option (Progress σ)
  | [], p => some p
  | layer :: layers, p =>
      (runLayer runOne dag pipeline layer p).bind (runLayers dag pipeline layers)

/-- A specification that is not accepted is not run. -/
def run [Toposort] (order : DegreeOrder) (pipeline : Pipeline) (world : σ) :
    SpecResult (Option (Progress σ)) := do
  let dag ← fromPipeline pipeline
  .ok (runLayers runOne dag pipeline (dag.layers order) ⟨world, ⟨pipeline.pipeline, [], []⟩, []⟩)

end Run

section Attempts
variable {σ : Type} {runOne : RunOne σ} {pipeline : Pipeline} (dag : PipelineDag)

def Reported (p : Progress σ) : Prop :=
  p.report.flows.length + p.report.errors.length = p.attempts.length

def attemptAll (runOne : RunOne σ) : List Flow → Progress σ → Option (Progress σ)
  | [], p => some p
  | flow :: flows, p => (attempt runOne flow p).bind (attemptAll runOne flows)

/-- Attempted one after the other, each in the world that those before it leave, the flows are
    all answered: none panics, and none goes on for ever. -/
def Answered (runOne : RunOne σ) : List Flow → σ → Prop
  | [], _ => True
  | flow :: flows, world => ∃ world' answer, runOne flow world = some (world', answer) ∧
      Answered runOne flows world'

theorem attemptAll_append (flows flows' : List Flow) (p : Progress σ) :
    attemptAll runOne (flows ++ flows') p =
      (attemptAll runOne flows p).bind (attemptAll runOne flows') := by
  induction flows generalizing p with
  | nil => rfl
  | cons flow flows ih =>
    rw [List.cons_append, attemptAll, attemptAll, Option.bind_assoc]
    exact congrArg _ (funext ih)

theorem runFlow_eq (fid : FlowId) (p : Progress σ) : runFlow runOne dag pipeline fid p =
    attemptAll runOne (flowAt dag pipeline fid).toList p := by
  unfold runFlow
  cases flowAt dag pipeline fid with
  | none => rfl
  | some flow =>
    show attempt runOne flow p = (attempt runOne flow p).bind some
    cases attempt runOne flow p <;> rfl

theorem runLayer_eq (layer : List FlowId) (p : Progress σ) :
    runLayer runOne dag pipeline layer p =
      attemptAll runOne (layer.filterMap (flowAt dag pipeline)) p := by
  induction layer generalizing p with
  | nil => rfl
  | cons fid layer ih =>
    have split : (fid :: layer).filterMap (flowAt dag pipeline) =
        (flowAt dag pipeline fid).toList ++ layer.filterMap (flowAt dag pipeline) := by
      cases found : flowAt dag pipeline fid <;> simp [found]
    rw [runLayer, split, attemptAll_append, runFlow_eq]
    exact congrArg _ (funext ih)

theorem runLayers_eq (layers : List (List FlowId)) (p : Progress σ) :
    runLayers runOne dag pipeline layers p =
      attemptAll runOne (layers.flatten.filterMap (flowAt dag pipeline)) p := by
  induction layers generalizing p with
  | nil => rfl
  | cons layer layers ih =>
    rw [runLayers, List.flatten_cons, List.filterMap_append, attemptAll_append, runLayer_eq]
    exact congrArg _ (funext ih)

theorem attempt_reported {p p' : Progress σ} {flow : Flow} (reported : Reported p)
    (done : attempt runOne flow p = some p') :
    Reported p' ∧ p'.attempts = p.attempts ++ [flow] := by
  unfold attempt at done
  split at done
  · exact nomatch done
  · rename_i world answer _
    obtain rfl := Option.some.inj done
    refine ⟨?_, rfl⟩
    unfold Reported at reported ⊢
    cases answer with
    | ok stats =>
      simp only [PipelineRunReport.record, List.length_append, List.length_singleton]
      omega
    | error e =>
      simp only [PipelineRunReport.record, List.length_append, List.length_singleton]
      omega

theorem attemptAll_reported {flows : List Flow} {p p' : Progress σ} (reported : Reported p)
    (done : attemptAll runOne flows p = some p') :
    Reported p' ∧ p'.attempts = p.attempts ++ flows := by
  induction flows generalizing p with
  | nil =>
    obtain rfl := Option.some.inj done
    exact ⟨reported, (List.append_nil _).symm⟩
  | cons flow flows ih =>
    obtain ⟨between, first, later⟩ := Option.bind_eq_some_iff.mp done
    obtain ⟨reported', attempts⟩ := attempt_reported reported first
    obtain ⟨reported'', attempts'⟩ := ih reported' later
    refine ⟨reported'', ?_⟩
    rw [attempts', attempts, List.append_assoc]
    rfl

theorem attemptAll_iff {flows : List Flow} {p : Progress σ} :
    (∃ p', attemptAll runOne flows p = some p') ↔ Answered runOne flows p.world := by
  induction flows generalizing p with
  | nil => exact iff_of_true ⟨p, rfl⟩ trivial
  | cons flow flows ih =>
    rw [attemptAll, Answered]
    cases ran : runOne flow p.world with
    | none =>
      have stopped : attempt runOne flow p = none := by
        unfold attempt
        rw [ran]
      rw [stopped]
      exact iff_of_false (fun ⟨_, done⟩ => nomatch done) fun ⟨_, _, answered, _⟩ =>
        nomatch answered
    | some reply =>
      obtain ⟨world, answer⟩ := reply
      have done : attempt runOne flow p =
          some ⟨world, p.report.record flow answer, p.attempts ++ [flow]⟩ := by
        unfold attempt
        rw [ran]
      rw [done, Option.bind_some, ih]
      constructor
      · exact fun rest => ⟨world, answer, rfl, rest⟩
      · rintro ⟨_, _, same, rest⟩
        cases same
        exact rest

end Attempts

section Once
variable {dag : PipelineDag} {pipeline : Pipeline}

theorem flowAt_indexed {fid : FlowId} {flow : Flow} (found : flowAt dag pipeline fid = some flow) :
    dag.nameIndex.get flow.name = some fid := by
  simpa using List.find?_some found

theorem flowAt_eq (built : DagOf pipeline dag)
    (distinct : (pipeline.flows.map Flow.name).Nodup) {fid : FlowId} :
    flowAt dag pipeline fid = pipeline.flows[fid]? := by
  have indexed (i : Nat) (f : Flow) (here : pipeline.flows[i]? = some f) :
      dag.nameIndex.get f.name = some i := by
    have name : (pipeline.flows.map Flow.name)[i]? = some f.name := by simp [here]
    rw [built.indexed, built.nodes]
    refine ⟨name, fun j later again => ?_⟩
    have bound := (List.getElem?_eq_some_iff.mp name).1
    have same := (List.getElem?_inj bound distinct).mp (name.trans again.symm)
    exact Nat.ne_of_lt later same
  cases here : pipeline.flows[fid]? with
  | none =>
    refine List.find?_eq_none.mpr fun f mem => ?_
    obtain ⟨i, place⟩ := List.mem_iff_getElem?.mp mem
    simp only [decide_eq_true_eq, indexed i f place, Option.some.injEq]
    rintro rfl
    cases here.symm.trans place
  | some flow =>
    cases found : flowAt dag pipeline fid with
    | none =>
      have missing := List.find?_eq_none.mp found flow (List.mem_of_getElem? here)
      exact absurd (decide_eq_true (indexed fid flow here)) missing
    | some other =>
      obtain ⟨i, place⟩ := List.mem_iff_getElem?.mp (List.mem_of_find?_eq_some found)
      have same := (indexed i other place).symm.trans (flowAt_indexed found)
      obtain rfl := Option.some.inj same
      exact place.symm.trans here

theorem range_filterMap {α : Type} (l : List α) :
    (List.range l.length).filterMap (fun i => l[i]?) = l := by
  induction l using List.reverseRecOn with
  | nil => rfl
  | append_singleton l a ih =>
    rw [List.length_append, List.length_singleton, List.range_succ, List.filterMap_append]
    have same : (List.range l.length).filterMap (fun i => (l ++ [a])[i]?) =
        (List.range l.length).filterMap (fun i => l[i]?) := by
      refine List.filterMap_congr fun i mem => ?_
      exact List.getElem?_append_left (List.mem_range.mp mem)
    rw [same, ih]
    simp

/-- The flows attempted: every flow listed, once, and after those it depends on. -/
structure EachOnce (pipeline : Pipeline) (attempts : List Flow) : Prop where
  once : attempts.Perm pipeline.flows
  after : ∀ (i : Nat) (f : Flow), attempts[i]? = some f → ∀ dep ∈ f.dependsOn,
    ∀ g ∈ pipeline.flows, g.name = dep → ∃ j, j < i ∧ attempts[j]? = some g

variable {layers : List (List FlowId)}

theorem eachOnce_of_distinct (built : DagOf pipeline dag)
    (layered : Layered dag.graph.edges dag.graph.nodeIndices layers)
    (distinct : (pipeline.flows.map Flow.name).Nodup) :
    EachOnce pipeline (layers.flatten.filterMap (flowAt dag pipeline)) := by
  have found : layers.flatten.filterMap (flowAt dag pipeline) =
      layers.flatten.filterMap fun i => pipeline.flows[i]? :=
    List.filterMap_congr fun fid _ => flowAt_eq built distinct
  have once : (layers.flatten.filterMap (flowAt dag pipeline)).Perm pipeline.flows := by
    have nodes : dag.graph.nodeIndices = List.range pipeline.flows.length := by
      rw [DiGraph.nodeIndices, built.nodes, List.length_map]
    have walked := layered.partition.filterMap fun i => pipeline.flows[i]?
    rw [nodes, range_filterMap] at walked
    exact found ▸ walked
  refine ⟨once, fun i f here dep depends g listed named => ?_⟩
  have indexed {g : Flow} (listed : g ∈ pipeline.flows) :
      ∃ fid, dag.nameIndex.get g.name = some fid ∧ fid ∈ dag.graph.nodeIndices := by
    obtain ⟨k, place⟩ := List.mem_iff_getElem?.mp listed
    have own := flowAt_indexed ((flowAt_eq built distinct).trans place)
    refine ⟨k, own, List.mem_range.mpr ?_⟩
    exact (List.getElem?_eq_some_iff.mp ((built.indexed _ _).mp own).1).1
  obtain ⟨source, sourceAt, inside⟩ := indexed listed
  obtain ⟨target, targetAt, inside'⟩ := indexed (once.mem_iff.mp (List.mem_of_getElem? here))
  have edge : (source, target) ∈ dag.graph.edges := (built.edges _).mpr
    ⟨f, once.mem_iff.mp (List.mem_of_getElem? here), dep, depends, named ▸ sourceAt, targetAt⟩
  have ordered : (layers.flatten.filterMap (flowAt dag pipeline)).Pairwise fun earlier later =>
      ∀ a b, dag.nameIndex.get earlier.name = some a → dag.nameIndex.get later.name = some b →
        (b, a) ∉ dag.graph.edges := by
    refine List.Pairwise.filterMap _ ?_ layered.no_edge_back
    intro m n apart x foundX y foundY a b atA atB
    obtain rfl := Option.some.inj ((flowAt_indexed foundX).symm.trans atA)
    obtain rfl := Option.some.inj ((flowAt_indexed foundY).symm.trans atB)
    exact apart
  obtain ⟨j, there⟩ := List.mem_iff_getElem?.mp (once.mem_iff.mpr listed)
  refine ⟨j, ?_, there⟩
  obtain ⟨boundI, rfl⟩ := List.getElem?_eq_some_iff.mp here
  obtain ⟨boundJ, rfl⟩ := List.getElem?_eq_some_iff.mp there
  rcases Nat.lt_trichotomy j i with before | rfl | late
  · exact before
  · obtain rfl := Option.some.inj (sourceAt.symm.trans targetAt)
    exact absurd edge (layered.irreflexive inside)
  · exact absurd edge (List.pairwise_iff_getElem.mp ordered i j boundI boundJ late _ _ targetAt
      sourceAt)

theorem attempts_names_nodup (layered : Layered dag.graph.edges dag.graph.nodeIndices layers)
    (pipeline : Pipeline) :
    ((layers.flatten.filterMap (flowAt dag pipeline)).map Flow.name).Nodup := by
  have nodes : layers.flatten.Nodup := layered.partition.nodup_iff.mpr List.nodup_range
  rw [List.Nodup, List.pairwise_map]
  refine List.Pairwise.filterMap _ ?_ nodes
  intro m n apart x foundX y foundY same
  refine apart (Option.some.inj ?_)
  rw [← flowAt_indexed foundX, ← flowAt_indexed foundY, same]

end Once

section Result
variable {σ : Type} [Toposort]

/-- The run returns, and has attempted every flow once and in order, with one entry of the
    report for each. -/
def RunsEachOnce (runOne : RunOne σ) (order : DegreeOrder) (pipeline : Pipeline) (world : σ) :
    Prop :=
  ∃ p, run runOne order pipeline world = .ok (some p) ∧ EachOnce pipeline p.attempts ∧
    p.report.flows.length + p.report.errors.length = pipeline.flows.length

def inLayers (order : DegreeOrder) (pipeline : Pipeline) (dag : PipelineDag) : List Flow :=
  (dag.layers order).flatten.filterMap fun i => pipeline.flows[i]?

theorem run_eq {runOne : RunOne σ} {pipeline : Pipeline} {dag : PipelineDag}
    (accepted : fromPipeline pipeline = .ok dag) (order : DegreeOrder) (world : σ) :
    run runOne order pipeline world =
      .ok (attemptAll runOne ((dag.layers order).flatten.filterMap (flowAt dag pipeline))
        ⟨world, ⟨pipeline.pipeline, [], []⟩, []⟩) := by
  rw [run, accepted, ← runLayers_eq]
  rfl

theorem run_attempts {runOne : RunOne σ} {pipeline : Pipeline} {dag : PipelineDag}
    (accepted : fromPipeline pipeline = .ok dag) {order : DegreeOrder} {world : σ}
    {p : Progress σ} (ran : run runOne order pipeline world = .ok (some p)) :
    Reported p ∧ p.attempts = (dag.layers order).flatten.filterMap (flowAt dag pipeline) := by
  rw [run_eq accepted] at ran
  have start : Reported (σ := σ) ⟨world, ⟨pipeline.pipeline, [], []⟩, []⟩ := rfl
  exact attemptAll_reported start (Except.ok.inj ran)

theorem run_answered {runOne : RunOne σ} {pipeline : Pipeline} {dag : PipelineDag}
    (accepted : fromPipeline pipeline = .ok dag) {order : DegreeOrder} {world : σ} :
    (∃ p, run runOne order pipeline world = .ok (some p)) ↔
      Answered runOne ((dag.layers order).flatten.filterMap (flowAt dag pipeline)) world := by
  rw [run_eq accepted]
  simp only [Except.ok.injEq]
  exact attemptAll_iff

theorem distinct_of_runsEachOnce (law : RejectsCycles) {order : DegreeOrder}
    {runOne : RunOne σ} {pipeline : Pipeline} {dag : PipelineDag} {world : σ}
    (accepted : fromPipeline pipeline = .ok dag)
    (each : RunsEachOnce runOne order pipeline world) :
    (pipeline.flows.map Flow.name).Nodup := by
  have layered := accepted_layered law order accepted
  obtain ⟨p, ran, each, _⟩ := each
  have names := attempts_names_nodup layered pipeline
  rw [← (run_attempts accepted ran).2] at names
  exact (each.once.map Flow.name).nodup_iff.mp names

/-- An accepted pipeline without live flows is run each flow once exactly if no two flows have one
    name and each flow is answered in the world that those of earlier nodes leave. -/
theorem runs_each_once_iff (law : RejectsCycles) (order : DegreeOrder) (runOne : RunOne σ)
    (pipeline : Pipeline) (dag : PipelineDag) (world : σ)
    (accepted : fromPipeline pipeline = .ok dag) :
    RunsEachOnce runOne order pipeline world ↔
      (pipeline.flows.map Flow.name).Nodup ∧
        Answered runOne (inLayers order pipeline dag) world := by
  have built := fromPipeline_dagOf accepted
  have found (distinct : (pipeline.flows.map Flow.name).Nodup) :
      (dag.layers order).flatten.filterMap (flowAt dag pipeline) = inLayers order pipeline dag :=
    List.filterMap_congr fun fid _ => flowAt_eq built distinct
  constructor
  · intro each
    have distinct := distinct_of_runsEachOnce law accepted each
    refine ⟨distinct, ?_⟩
    obtain ⟨p, ran, _⟩ := each
    rw [← found distinct]
    exact (run_answered accepted).mp ⟨p, ran⟩
  · rintro ⟨distinct, answered⟩
    obtain ⟨p, ran⟩ := (run_answered accepted).mpr (found distinct ▸ answered)
    obtain ⟨reported, attempts⟩ := run_attempts accepted ran
    have each := eachOnce_of_distinct built (accepted_layered law order accepted) distinct
    rw [← attempts] at each
    refine ⟨p, ran, each, ?_⟩
    rw [reported, each.once.length_eq]

end Result

section Witness

/-- Every flow succeeds without rows, and the world counts the attempts. -/
def countingRun : RunOne Nat := fun flow s =>
  some (s + 1, .ok ⟨flow.name, flow.kind, flow.refresh, 0, ""⟩)

theorem countingRun_answered (flows : List Flow) (s : Nat) : Answered countingRun flows s := by
  induction flows generalizing s with
  | nil => trivial
  | cons flow flows ih => exact ⟨s + 1, _, rfl, ih (s + 1)⟩

theorem chained_runs_each_once : @RunsEachOnce Nat indexSort countingRun inOrder chained 0 := by
  obtain ⟨dag, accepted⟩ := chained_accepted
  exact (@runs_each_once_iff Nat indexSort indexSort_rejectsCycles inOrder countingRun chained
    dag 0 accepted).mpr ⟨by decide, countingRun_answered _ 0⟩

def namedTwice : Pipeline := ⟨"p", [sqlFlow "a" [], sqlFlow "a" []]⟩

def twiceGraph : DiGraph := ⟨["a", "a"], [], fun _ mem => (nomatch mem)⟩

theorem namedTwice_accepted : ∃ dag, @fromPipeline indexSort namedTwice = .ok dag := by
  have acyclic : twiceGraph.Acyclic := acyclic_of_rank id (fun _ mem => (nomatch mem))
  have checked : @checkCycles indexSort twiceGraph = .ok () := by
    have sorted : indexSort.toposort twiceGraph = .ok twiceGraph.nodeIndices := if_pos acyclic
    simp only [checkCycles, sorted]
  refine ⟨⟨twiceGraph, (addNodes namedTwice.flows DiGraph.new .empty).2⟩, ?_⟩
  show (do @checkCycles indexSort twiceGraph; _) = _
  rw [checked]
  rfl

/-- Of two flows with one name only one is attempted, and none has to panic for that. -/
theorem second_flow_passed_over :
    ¬ ∀ (order : DegreeOrder) (runOne : RunOne Nat) (pipeline : Pipeline) (dag : PipelineDag)
      (world : Nat), (∀ flows s, Answered runOne flows s) →
      @fromPipeline indexSort pipeline = .ok dag →
      (∀ f ∈ pipeline.flows, f.refresh.isLive = false) →
      @RunsEachOnce Nat indexSort runOne order pipeline world := by
  intro claim
  obtain ⟨dag, accepted⟩ := namedTwice_accepted
  have each := claim inOrder countingRun namedTwice dag 0 countingRun_answered accepted (by decide)
  exact absurd (@distinct_of_runsEachOnce Nat indexSort indexSort_rejectsCycles inOrder
    countingRun namedTwice dag 0 accepted each) (by decide)

end Witness

end RSparkPipelineRunner
