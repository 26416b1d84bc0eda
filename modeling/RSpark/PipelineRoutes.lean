import RSpark.Moments
import RSpark.PipelineSubmit

/- The pipelines that the handlers share: what they list and whose graph they show, while others
   are submitted. -/
namespace RSparkPipelineRoutes
open RSparkPipelineDag RSparkPipelineRunner RSparkPipelineSubmit Layering Calls

section Handlers

inductive RegistryOp where
  | insert (p : Pipeline)
  | get (name : String)
  | list

abbrev RegistryOp.Resp : RegistryOp → Type
  | .insert _ => Unit
  | .get _ => Option Pipeline
  | .list => List Pipeline

def RegistryOp.exec : (o : RegistryOp) → PipelineRegistry → PipelineRegistry × o.Resp
  | .insert p, r => (r.insert p, ())
  | .get name, r => (r, r.get name)
  | .list, r => (r, r.list)

abbrev registryInterface : Interface PipelineRegistry :=
  ⟨RegistryOp, RegistryOp.Resp, RegistryOp.exec⟩

inductive DagResponse where
  | notFound (error : String)
  | badRequest (error kind : String)
  | ok (name : String) (layers : List (List String))
      (flows : List (String × FlowKind × List String))

def flowName (dag : PipelineDag) (fid : FlowId) : Option String := dag.graph.nodes[fid]?

def layerNames (dag : PipelineDag) (order : DegreeOrder) : List (List String) :=
  (dag.layers order).map fun layer => layer.filterMap (flowName dag)

def flowItems (p : Pipeline) : List (String × FlowKind × List String) :=
  p.flows.map fun f => (f.name, f.kind, f.dependsOn)

/-- There is no response when the graph cannot be built without a panic. -/
def dagResponse [Toposort] (order : DegreeOrder) (name : String) :
    Option Pipeline → Option DagResponse
  | none => some (.notFound s!"pipeline '{name}' not found")
  | some p =>
      match fromPipeline p with
      | .ok dag => some (.ok p.pipeline (layerNames dag order) (flowItems p))
      | .error (.error e) => some (.badRequest e.display "spec_error")
      | .error (.abort _) => none

inductive Reply where
  | submitted (response : Response)
  | listed (items : List PipelineItem)
  | dag (response : DagResponse)

abbrev RegistryProg := Prog registryInterface Reply

def orPanic : Option Reply → RegistryProg
  | some reply => .ret reply
  | none => .abort

inductive RouteCall (σ : Type) where
  | submit (body : String) (world : σ)
  | list
  | dag (name : String)

variable [YamlSpec] [Toposort] {σ : Type} (runOne : RunOne σ) (order : DegreeOrder)

def RouteCall.prog : RouteCall σ → RegistryProg
  | .submit body world =>
      match YamlSpec.fromYaml body with
      | .error e => .ret (.submitted (.badRequest e "spec_error"))
      | .ok p => .call (.insert p) fun _ =>
          orPanic ((runPipelineNow runOne order p world).map .submitted)
  | .list => .call .list fun pipelines => .ret (.listed (pipelines.map itemOf))
  | .dag name => .call (.get name) fun found => orPanic ((dagResponse order name found).map .dag)

def routesPool (calls : List (RouteCall σ)) : Pool registryInterface Reply :=
  ⟨.new, calls.map (RouteCall.prog runOne order)⟩

omit [YamlSpec] [Toposort] in
theorem orPanic_run (reply : Option Reply) (r : PipelineRegistry) :
    (orPanic reply).run r = (r, reply) := by
  cases reply <;> rfl

theorem submit_run (r : PipelineRegistry) (body : String) (world : σ) :
    (RouteCall.prog runOne order (.submit body world)).run r =
      ((submitPipeline runOne order r body world).1,
        (submitPipeline runOne order r body world).2.map .submitted) := by
  simp only [RouteCall.prog, submitPipeline]
  cases YamlSpec.fromYaml body with
  | error e => rfl
  | ok p => exact orPanic_run _ _

end Handlers

section Stored

/-- The pipeline was stored, and none of its name after it. -/
def LastIn (history : List (Event registryInterface)) (p : Pipeline) : Prop :=
  ∃ earlier e later, history = earlier ++ e :: later ∧ e.op = .insert p ∧
    ∀ e' ∈ later, ∀ q, e'.op = .insert q → q.pipeline ≠ p.pipeline

theorem lastIn_snoc {history : List (Event registryInterface)} {e : Event registryInterface}
    {p : Pipeline} : LastIn (history ++ [e]) p ↔ e.op = .insert p ∨
      LastIn history p ∧ ∀ q, e.op = .insert q → q.pipeline ≠ p.pipeline := by
  constructor
  · rintro ⟨earlier, e', later, split, stored, others⟩
    rcases later.eq_nil_or_concat' with rfl | ⟨later, last, rfl⟩
    · obtain ⟨rfl, same⟩ := List.append_inj' split rfl
      obtain rfl := List.singleton_inj.mp same
      exact .inl stored
    · rw [← List.cons_append, ← List.append_assoc] at split
      obtain ⟨rfl, same⟩ := List.append_inj' split rfl
      obtain rfl := List.singleton_inj.mp same
      refine .inr ⟨⟨earlier, e', later, rfl, stored, fun e mem => ?_⟩, others e (by simp)⟩
      exact others e (List.mem_append_left _ mem)
  · rintro (stored | ⟨⟨earlier, e', later, rfl, stored, others⟩, other⟩)
    · exact ⟨history, e, [], rfl, stored, fun e' mem => absurd mem List.not_mem_nil⟩
    · refine ⟨earlier, e', later ++ [e], by simp, stored, fun e'' mem => ?_⟩
      rcases List.mem_append.mp mem with before | last
      · exact others e'' before
      · obtain rfl := List.mem_singleton.mp last
        exact other

theorem get_stateAfter (history : List (Event registryInterface)) (name : String) (p : Pipeline) :
    (stateAfter PipelineRegistry.new history).get name = some p ↔
      p.pipeline = name ∧ LastIn history p := by
  induction history using List.reverseRecOn with
  | nil =>
    refine iff_of_false (fun found => ?_) ?_
    · cases found
    · rintro ⟨_, earlier, e, later, split, _⟩
      simp at split
  | append_singleton history e ih =>
    rw [stateAfter_snoc, lastIn_snoc]
    obtain ⟨thread, op, resp⟩ := e
    cases op with
    | insert q =>
      have found : ((stateAfter PipelineRegistry.new history).insert q).get name =
          if name = q.pipeline then some q else
            (stateAfter PipelineRegistry.new history).get name :=
        InsertionMap.get_insert _ _ _ _
      show ((stateAfter PipelineRegistry.new history).insert q).get name = some p ↔ _
      rw [found]
      by_cases same : name = q.pipeline
      · subst same
        rw [if_pos rfl]
        constructor
        · intro stored
          obtain rfl := Option.some.inj stored
          exact ⟨rfl, .inl rfl⟩
        · rintro ⟨named, stored | ⟨_, other⟩⟩
          · rw [RegistryOp.insert.inj stored]
          · exact absurd named.symm (other q rfl)
      · rw [if_neg same, ih]
        constructor
        · rintro ⟨rfl, stored⟩
          refine ⟨rfl, .inr ⟨stored, ?_⟩⟩
          intro q' inserted named
          rw [← RegistryOp.insert.inj inserted] at named
          exact same named.symm
        · rintro ⟨rfl, stored | ⟨stored, _⟩⟩
          · exact absurd (congrArg Pipeline.pipeline (RegistryOp.insert.inj stored)).symm same
          · exact ⟨rfl, stored⟩
    | get asked =>
      show (stateAfter PipelineRegistry.new history).get name = some p ↔ _
      rw [ih]
      simp
    | list =>
      show (stateAfter PipelineRegistry.new history).get name = some p ↔ _
      rw [ih]
      simp

theorem lastIn_of_insert {history : List (Event registryInterface)}
    {e : Event registryInterface} (mem : e ∈ history) {p : Pipeline} (stored : e.op = .insert p) :
    ∃ q, q.pipeline = p.pipeline ∧ LastIn history q := by
  induction history using List.reverseRecOn with
  | nil => cases mem
  | append_singleton history last ih =>
    by_cases again : ∃ q, last.op = .insert q ∧ q.pipeline = p.pipeline
    · obtain ⟨q, stored, named⟩ := again
      exact ⟨q, named, lastIn_snoc.mpr (.inl stored)⟩
    · rcases List.mem_append.mp mem with before | now
      · obtain ⟨q, named, found⟩ := ih before
        refine ⟨q, named, lastIn_snoc.mpr (.inr ⟨found, fun q' stored' named' => ?_⟩)⟩
        exact again ⟨q', stored', named'.trans named⟩
      · obtain rfl := List.mem_singleton.mp now
        exact absurd ⟨p, stored, rfl⟩ again

theorem keyed_stateAfter (history : List (Event registryInterface)) :
    (stateAfter PipelineRegistry.new history).inner.Keyed Pipeline.pipeline :=
  fun name p found => ((get_stateAfter history name p).mp found).1

end Stored

section Layers

/-- The layers of a specification, by the names of its flows: each flow once, what it depends on
    strictly earlier, and something that it depends on in the layer just before. -/
structure NamedLayers (p : Pipeline) (layers : List (List String)) : Prop where
  partition : layers.flatten.Perm (p.flows.map Flow.name)
  present : ∀ layer ∈ layers, layer ≠ []
  forward : ∀ f ∈ p.flows, ∀ dep ∈ f.dependsOn, ∃ (i j : Nat) (early late : List String),
    i < j ∧ layers[i]? = some early ∧ layers[j]? = some late ∧ dep ∈ early ∧ f.name ∈ late
  prompt : ∀ (i : Nat) (early late : List String), layers[i]? = some early →
    layers[i + 1]? = some late → ∀ name ∈ late, ∃ dep ∈ early, Depends p dep name

theorem flowName_inside {dag : PipelineDag} {n : NodeIndex} (inside : n ∈ dag.graph.nodeIndices) :
    ∃ name, flowName dag n = some name := by
  have bound := List.mem_range.mp inside
  exact ⟨dag.graph.nodes[n], List.getElem?_eq_getElem bound⟩

theorem layerNames_at {dag : PipelineDag} {order : DegreeOrder} {i : Nat} {names : List String}
    (here : (layerNames dag order)[i]? = some names) :
    ∃ layer, (dag.layers order)[i]? = some layer ∧ names = layer.filterMap (flowName dag) := by
  rw [layerNames, List.getElem?_map] at here
  obtain ⟨layer, found, rfl⟩ := Option.map_eq_some_iff.mp here
  exact ⟨layer, found, rfl⟩

theorem named_at {dag : PipelineDag} {order : DegreeOrder} {i : Nat} {layer : List FlowId}
    (here : (dag.layers order)[i]? = some layer) {n : NodeIndex} (inside : n ∈ layer)
    {name : String} (named : flowName dag n = some name) :
    ∃ names, (layerNames dag order)[i]? = some names ∧ name ∈ names := by
  refine ⟨layer.filterMap (flowName dag), ?_, List.mem_filterMap.mpr ⟨n, inside, named⟩⟩
  rw [layerNames, List.getElem?_map, here]
  rfl

theorem layerNames_named [Toposort] (law : RejectsCycles) (order : DegreeOrder) {p : Pipeline}
    {dag : PipelineDag} (accepted : fromPipeline p = .ok dag) :
    NamedLayers p (layerNames dag order) := by
  have built := fromPipeline_dagOf accepted
  have layered := accepted_layered law order accepted
  have somewhere {n : NodeIndex} (inside : n ∈ dag.graph.nodeIndices) :
      ∃ (i : Nat) (layer : List FlowId), (dag.layers order)[i]? = some layer ∧ n ∈ layer := by
    obtain ⟨layer, mem, here⟩ := List.mem_flatten.mp (layered.partition.mem_iff.mpr inside)
    obtain ⟨i, found⟩ := List.mem_iff_getElem?.mp mem
    exact ⟨i, layer, found, here⟩
  have indexed {name : String} {n : NodeIndex} (found : dag.nameIndex.get name = some n) :
      n ∈ dag.graph.nodeIndices ∧ flowName dag n = some name := by
    have here := ((built.indexed name n).mp found).1
    exact ⟨List.mem_range.mpr (List.getElem?_eq_some_iff.mp here).1, here⟩
  refine ⟨?_, ?_, ?_, ?_⟩
  · have all := layered.partition.filterMap (flowName dag)
    have names : dag.graph.nodeIndices.filterMap (flowName dag) = dag.graph.nodes :=
      range_filterMap dag.graph.nodes
    rw [names, built.nodes] at all
    rw [layerNames, ← List.filterMap_flatten]
    exact all
  · intro names mem
    obtain ⟨layer, listed, rfl⟩ := List.mem_map.mp mem
    obtain ⟨n, inside⟩ := List.exists_mem_of_ne_nil layer (layered.present layer listed)
    obtain ⟨name, named⟩ := flowName_inside
      (layered.partition.mem_iff.mp (List.mem_flatten.mpr ⟨layer, listed, inside⟩))
    exact List.ne_nil_of_mem (List.mem_filterMap.mpr ⟨n, inside, named⟩)
  · intro f listed dep depends
    obtain ⟨a, source⟩ := built.known f listed dep depends
    obtain ⟨b, target⟩ := indexed_some built.indexed
      (built.nodes ▸ List.mem_map.mpr ⟨f, listed, rfl⟩)
    obtain ⟨insideA, nameA⟩ := indexed source
    obtain ⟨insideB, nameB⟩ := indexed target
    obtain ⟨i, early, atI, inI⟩ := somewhere insideA
    obtain ⟨j, late, atJ, inJ⟩ := somewhere insideB
    have edge : (a, b) ∈ dag.graph.edges :=
      (built.edges (a, b)).mpr ⟨f, listed, dep, depends, source, target⟩
    obtain ⟨earlyNames, hereI, memI⟩ := named_at atI inI nameA
    obtain ⟨lateNames, hereJ, memJ⟩ := named_at atJ inJ nameB
    exact ⟨i, j, earlyNames, lateNames, layered.forward i j early late a b atI atJ inI inJ edge,
      hereI, hereJ, memI, memJ⟩
  · intro i earlyNames lateNames hereI hereJ name mem
    obtain ⟨early, atI, rfl⟩ := layerNames_at hereI
    obtain ⟨late, atJ, rfl⟩ := layerNames_at hereJ
    obtain ⟨b, inJ, nameB⟩ := List.mem_filterMap.mp mem
    cases (layered.longest _ late b atJ inJ).1 with
    | @extend _ a _ path edge inside =>
      -- the predecessor stands before `b`, and no earlier than the path to it is long
      obtain ⟨k, layer, atK, inK⟩ := somewhere path.inside
      have before := layered.forward k (i + 1) layer late a b atK atJ inK inJ edge
      have after := (layered.longest k layer a atK inK).2 i path
      obtain rfl : k = i := by omega
      obtain rfl := Option.some.inj (atK.symm.trans atI)
      obtain ⟨f, listed, dep, depends, source, target⟩ := (built.edges (a, b)).mp edge
      have named := Option.some.inj ((indexed target).2.symm.trans nameB)
      exact ⟨dep, List.mem_filterMap.mpr ⟨a, inK, (indexed source).2⟩, f, listed, named, depends⟩

end Layers

section Answers
variable [YamlSpec] [Toposort] {σ : Type} {runOne : RunOne σ} {order : DegreeOrder}
variable {calls : List (RouteCall σ)} {history : List (Event registryInterface)}
variable {last : Pool registryInterface Reply}

def Stored (calls : List (RouteCall σ)) (before : List (Event registryInterface)) (p : Pipeline) :
    Prop :=
  LastIn before p ∧ ∃ body world, .submit body world ∈ calls ∧ YamlSpec.fromYaml body = .ok p

inductive Shown (calls : List (RouteCall σ)) (before : List (Event registryInterface))
    (name : String) : DagResponse → Prop where
  | unknown (never : ∀ e ∈ before, ∀ p, e.op = .insert p → p.pipeline ≠ name) :
      Shown calls before name (.notFound s!"pipeline '{name}' not found")
  | broken {p : Pipeline} (stored : Stored calls before p) (named : p.pipeline = name)
      (unsound : ¬ Sound p) {e : SpecError} (failed : fromPipeline p = .error (.error e))
      (fault : Fault p e) :
      Shown calls before name (.badRequest e.display "spec_error")
  | layered {p : Pipeline} (stored : Stored calls before p) (named : p.pipeline = name)
      (sound : Sound p) {layers : List (List String)} (layered : NamedLayers p layers) :
      Shown calls before name (.ok name layers (flowItems p))

theorem inserts_read (run : Run (routesPool runOne order calls) history last)
    {e : Event registryInterface} (mem : e ∈ history) {p : Pipeline} (stored : e.op = .insert p) :
    ∃ body world, .submit body world ∈ calls ∧ YamlSpec.fromYaml body = .ok p := by
  let may (i : Nat) (o : RegistryOp) : Prop := ∀ p, o = .insert p →
    ∃ body world, .submit body world ∈ calls ∧ YamlSpec.fromYaml body = .ok p
  have answers (i : Nat) (reply : Option Reply) : Only (may i) (orPanic reply) := by
    cases reply <;> exact trivial
  refine (run_only may ?_ run).1 e mem p stored
  intro i prog here
  rw [routesPool, List.getElem?_map] at here
  obtain ⟨call, listed, rfl⟩ := Option.map_eq_some_iff.mp here
  cases call with
  | submit body world =>
    simp only [RouteCall.prog]
    cases read : YamlSpec.fromYaml body with
    | error e => exact trivial
    | ok q =>
      refine ⟨fun p same => ?_, fun _ => answers i _⟩
      obtain rfl := RegistryOp.insert.inj same
      exact ⟨body, world, List.mem_of_getElem? listed, read⟩
  | list =>
    refine ⟨fun p same => ?_, fun _ => trivial⟩
    cases same
  | dag name =>
    refine ⟨fun p same => ?_, fun _ => answers i _⟩
    cases same

theorem stored_of_last (run : Run (routesPool runOne order calls) history last)
    {before after : List (Event registryInterface)} (split : history = before ++ after)
    {p : Pipeline} (found : LastIn before p) : Stored calls before p := by
  refine ⟨found, ?_⟩
  obtain ⟨earlier, e, later, rfl, stored, _⟩ := found
  exact inserts_read run (by simp [split]) stored

omit [YamlSpec] [Toposort] in
theorem orPanic_returned {moment : RegistryOp → PipelineRegistry → Prop} {reply : Option Reply}
    {r : Reply} (finds : Finds moment (orPanic reply) (.ret r)) : reply = some r := by
  cases reply with
  | none => cases finds
  | some reply => rw [finds_ret finds]

theorem asked_at (run : Run (routesPool runOne order calls) history last) {i : Nat}
    {call : RouteCall σ} (asked : calls[i]? = some call) {reply : Reply}
    (answered : last.threads[i]? = some (.ret reply)) :
    Finds (Moment PipelineRegistry.new history i) (call.prog runOne order) (.ret reply) := by
  refine run_returned run ?_ answered
  rw [routesPool, List.getElem?_map, asked]
  rfl

theorem dag_shown (law : SortsGraphs) (run : Run (routesPool runOne order calls) history last)
    {i : Nat} {name : String} (asked : calls[i]? = some (.dag name)) {response : DagResponse}
    (answered : last.threads[i]? = some (.ret (.dag response))) :
    ∃ before e after, history = before ++ e :: after ∧ e.thread = i ∧ e.op = .get name ∧
      Shown calls before name response := by
  obtain ⟨_, ⟨before, e, after, split, thread, op, rfl⟩, finds⟩ :=
    finds_call (asked_at run asked answered)
  refine ⟨before, e, after, split, thread, op, ?_⟩
  obtain ⟨shown, said, same⟩ := Option.map_eq_some_iff.mp (orPanic_returned finds)
  obtain rfl := Reply.dag.inj same
  simp only [RegistryOp.exec] at said
  cases found : (stateAfter PipelineRegistry.new before).get name with
  | none =>
    rw [found] at said
    obtain rfl := Option.some.inj said
    refine .unknown fun e' mem p stored named => ?_
    obtain ⟨q, same, lastly⟩ := lastIn_of_insert mem stored
    have present := (get_stateAfter before name q).mpr ⟨same.trans named, lastly⟩
    cases found.symm.trans present
  | some p =>
    obtain ⟨named, lastly⟩ := (get_stateAfter before name p).mp found
    have stored := stored_of_last run split lastly
    rw [found] at said
    rcases fromPipeline_answers law p with ⟨sound, dag, built⟩ | ⟨unsound, e, failed, fault⟩
    · simp only [dagResponse, built, Option.some.injEq] at said
      subst said
      rw [named]
      exact .layered stored named sound (layerNames_named law.cycles order built)
    · simp only [dagResponse, failed, Option.some.injEq] at said
      subst said
      exact .broken stored named unsound failed fault

theorem pipelines_listed (run : Run (routesPool runOne order calls) history last) {i : Nat}
    (asked : calls[i]? = some .list) {items : List PipelineItem}
    (answered : last.threads[i]? = some (.ret (.listed items))) :
    ∃ before e after, history = before ++ e :: after ∧ e.thread = i ∧ e.op = .list ∧
      (items.map PipelineItem.name).Nodup ∧
      ∀ item, item ∈ items ↔ ∃ p, Stored calls before p ∧ item = itemOf p := by
  obtain ⟨_, ⟨before, e, after, split, thread, op, rfl⟩, finds⟩ :=
    finds_call (asked_at run asked answered)
  refine ⟨before, e, after, split, thread, op, ?_⟩
  obtain rfl := Reply.listed.inj (finds_ret finds)
  have keyed := keyed_stateAfter before
  constructor
  · rw [List.map_map]
    show ((stateAfter PipelineRegistry.new before).inner.values.map Pipeline.pipeline).Nodup
    rw [keyed.values_keys]
    exact (stateAfter PipelineRegistry.new before).inner.nodupKeys
  · intro item
    constructor
    · intro mem
      obtain ⟨p, inside, rfl⟩ := List.mem_map.mp mem
      obtain ⟨name, found⟩ := (InsertionMap.mem_values_iff _ p).mp inside
      exact ⟨p, stored_of_last run split ((get_stateAfter before name p).mp found).2, rfl⟩
    · rintro ⟨p, stored, rfl⟩
      have found := (get_stateAfter before p.pipeline p).mpr ⟨rfl, stored.1⟩
      exact List.mem_map.mpr ⟨p, (InsertionMap.mem_values_iff _ p).mpr ⟨_, found⟩, rfl⟩

end Answers

section Witness

def unknownCalls : List (RouteCall Nat) := [.submit unknownText 0, .dag "p", .list]

noncomputable def unknownPool : Pool registryInterface Reply :=
  @routesPool unknownSpec indexSort Nat countingRun inOrder unknownCalls

theorem unknown_ran : ∃ history last response items, Run unknownPool history last ∧
    last.threads[1]? = some (.ret (.dag response)) ∧
    last.threads[2]? = some (.ret (.listed items)) := by
  have threads : unknownPool = ⟨.new, [.call (.insert unknownDep) fun _ =>
      orPanic ((@runPipelineNow indexSort Nat countingRun inOrder unknownDep 0).map .submitted),
    @RouteCall.prog unknownSpec indexSort Nat countingRun inOrder (.dag "p"),
    @RouteCall.prog unknownSpec indexSort Nat countingRun inOrder .list]⟩ := by
    simp only [unknownPool, routesPool, unknownCalls, List.map_cons, List.map_nil, RouteCall.prog,
      unknown_read]
  obtain ⟨history, last, response, items, ran, shown, listed⟩ : ∃ history last response items,
      unknownPool.schedule [0, 1, 2] = some (history, last) ∧
        last.threads[1]? = some (.ret (.dag response)) ∧
        last.threads[2]? = some (.ret (.listed items)) := by
    rw [threads]
    exact ⟨_, _, _, _, rfl, rfl, rfl⟩
  exact ⟨history, last, response, items, run_of_schedule ran, shown, listed⟩

theorem unknown_shown : ∃ history last response, Run unknownPool history last ∧
    last.threads[1]? = some (.ret (.dag response)) ∧
    ∃ before e after, history = before ++ e :: after ∧ e.thread = 1 ∧ e.op = .get "p" ∧
      @Shown unknownSpec indexSort Nat unknownCalls before "p" response := by
  obtain ⟨history, last, response, _, ran, answered, _⟩ := unknown_ran
  exact ⟨history, last, response, ran, answered, @dag_shown unknownSpec indexSort Nat countingRun
    inOrder unknownCalls _ _ indexSort_sortsGraphs ran 1 "p" rfl _ answered⟩

theorem unknown_listed : ∃ history last items, Run unknownPool history last ∧
    last.threads[2]? = some (.ret (.listed items)) ∧
    ∃ before e after, history = before ++ e :: after ∧ e.thread = 2 ∧ e.op = .list ∧
      (items.map PipelineItem.name).Nodup ∧
      ∀ item, item ∈ items ↔
        ∃ p, @Stored unknownSpec Nat unknownCalls before p ∧ item = itemOf p := by
  obtain ⟨history, last, _, items, ran, _, answered⟩ := unknown_ran
  exact ⟨history, last, items, ran, answered, @pipelines_listed unknownSpec indexSort Nat
    countingRun inOrder unknownCalls _ _ ran 2 rfl _ answered⟩

end Witness

end RSparkPipelineRoutes
