import RSpark.WorkerPlanning

/- What the flows of one run find of each other: a flow is planned and executed after every flow
   that it depends on, and finds what this run has left of them in the catalog and in the files. -/
namespace RSparkPipelineFreshness
open RSparkValue RSparkBatch RSparkPlan RSparkPlanner RSparkExecutor RSparkCsvSource RSparkWriter
open RSparkPipelineDag RSparkPipelineRunner RSparkSqlAst RSparkExpr RSparkNdjson RSparkFlowOutput

section Trace
variable {σ : Type} {runOne : RunOne σ} {start : σ} {pipeline : Pipeline}

structure Attempt (σ : Type) where
  flow : Flow
  before : σ
  after : σ
  answer : Except Error RunStats

inductive Traced (runOne : RunOne σ) (start : σ) : List (Attempt σ) → σ → Prop where
  | nil : Traced runOne start [] start
  | snoc {steps : List (Attempt σ)} {s s' : σ} {flow : Flow} {answer : Except Error RunStats}
      (before : Traced runOne start steps s) (ran : runOne flow s = some (s', answer)) :
      Traced runOne start (steps ++ [⟨flow, s, s', answer⟩]) s'

def Led (runOne : RunOne σ) (start : σ) (steps : List (Attempt σ)) (p : Progress σ) : Prop :=
  Traced runOne start steps p.world ∧ p.attempts = steps.map Attempt.flow

theorem attemptAll_led {flows : List Flow} {steps : List (Attempt σ)} {p p' : Progress σ}
    (led : Led runOne start steps p) (ran : attemptAll runOne flows p = some p') :
    ∃ more, Led runOne start (steps ++ more) p' ∧ more.map Attempt.flow = flows := by
  induction flows generalizing steps p with
  | nil =>
    obtain rfl := Option.some.inj ran
    exact ⟨[], by rwa [List.append_nil], rfl⟩
  | cons flow flows ih =>
    obtain ⟨middle, first, rest⟩ := Option.bind_eq_some_iff.mp ran
    unfold attempt at first
    split at first
    · exact nomatch first
    · rename_i world answer one
      obtain rfl := Option.some.inj first
      have led' : Led runOne start (steps ++ [⟨flow, p.world, world, answer⟩])
          ⟨world, p.report.record flow answer, p.attempts ++ [flow]⟩ := by
        refine ⟨.snoc led.1 one, ?_⟩
        rw [led.2, List.map_append]
        rfl
      obtain ⟨more, led'', flows'⟩ := ih led' rest
      refine ⟨⟨flow, p.world, world, answer⟩ :: more, ?_, by rw [List.map_cons, flows']⟩
      rwa [List.append_assoc] at led''

theorem run_led [Toposort] {order : DegreeOrder} {p : Progress σ}
    (ran : run runOne order pipeline start = .ok (some p)) :
    ∃ dag steps, fromPipeline pipeline = .ok dag ∧ Led runOne start steps p ∧
      steps.map Attempt.flow = (dag.layers order).flatten.filterMap (flowAt dag pipeline) := by
  obtain ⟨dag, accepted, _⟩ := specBind_eq_ok.mp ran
  rw [run_eq accepted] at ran
  have fresh : Led runOne start [] ⟨start, ⟨pipeline.pipeline, [], []⟩, []⟩ := ⟨.nil, rfl⟩
  obtain ⟨steps, led, flows⟩ := attemptAll_led fresh (Except.ok.inj ran)
  exact ⟨dag, steps, accepted, led, flows⟩

theorem traced_keeps {P : Attempt σ → σ → Prop} {apart : Flow → Flow → Prop}
    (establishes : ∀ flow s s' answer, runOne flow s = some (s', answer) →
      P ⟨flow, s, s', answer⟩ s')
    (keeps : ∀ step flow s s' answer, apart step.flow flow → runOne flow s = some (s', answer) →
      P step s → P step s')
    {steps : List (Attempt σ)} {s : σ} (traced : Traced runOne start steps s)
    (distinct : (steps.map Attempt.flow).Pairwise apart) :
    (∀ step ∈ steps, P step s) ∧
      ∀ (i j : Nat) earlier later, i < j → steps[i]? = some earlier → steps[j]? = some later →
        P earlier later.before := by
  induction traced with
  | nil =>
    refine ⟨fun _ mem => absurd mem List.not_mem_nil, ?_⟩
    intro i j earlier later _ here
    exact nomatch here
  | @snoc steps s s' flow answer before ran ih =>
    rw [List.map_append, List.pairwise_append] at distinct
    obtain ⟨old, _, cross⟩ := distinct
    obtain ⟨held, seen⟩ := ih old
    refine ⟨fun step mem => ?_, fun i j earlier later less here there => ?_⟩
    · rcases List.mem_append.mp mem with earlier | new
      · have apart := cross _ (List.mem_map_of_mem earlier) flow (List.mem_singleton_self flow)
        exact keeps step flow s s' answer apart ran (held step earlier)
      · rw [List.mem_singleton.mp new]
        exact establishes flow s s' answer ran
    · have bound := (List.getElem?_eq_some_iff.mp there).1
      rw [List.length_append, List.length_singleton] at bound
      rw [List.getElem?_append_left (by omega)] at here
      by_cases last : j = steps.length
      · subst last
        rw [List.getElem?_concat_length] at there
        obtain rfl := Option.some.inj there
        exact held earlier (List.mem_of_getElem? here)
      · rw [List.getElem?_append_left (by omega)] at there
        exact seen i j earlier later less here there

end Trace

section Worlds
variable [CsvCrate] [Outside] [SerdeJson] [RowOrder] [RSparkFileTail.PathDisplay] [Regex]
  [SqlParser] [PlanDebug] {flow other : Flow} {output : RecordBatch} {world world' : World}

/-- The output is registered under the name of the flow, and stands in its file. -/
structure Published (world : World) (flow : Flow) (output : RecordBatch) : Prop where
  entry : world.session.tables.get flow.name =
    some ⟨(registration world flow.destination).1, (registration world flow.destination).2,
      output.schema, tableKind flow.kind⟩
  file : ∀ path, flow.destination = .file path →
    world.files.contents path = some (renderTable output)

/-- Two flows that do not write to the same places. -/
def Separate (flow other : Flow) : Prop :=
  flow.name ≠ other.name ∧ ∀ path, flow.destination = .file path → other.destination ≠ .file path

/-- What a failed attempt leaves as it was: the catalog, and every file but its own. -/
structure Spared (flow : Flow) (world world' : World) : Prop where
  bucket : world'.bucketVar = world.bucketVar
  session : world'.session = world.session
  files : ∀ path, flow.destination ≠ .file path →
    world'.files.contents path = world.files.contents path

omit [CsvCrate] [SerdeJson] [RowOrder] [RSparkFileTail.PathDisplay] [Regex] [SqlParser]
  [PlanDebug] in
theorem written_spared (flow : Flow) (output : RecordBatch) (world : World) :
    Spared flow world (writeDestination flow.destination output world).1 := by
  cases dest : flow.destination with
  | s3 key bucket => exact ⟨rfl, rfl, fun _ _ => rfl⟩
  | file own =>
    refine ⟨rfl, rfl, fun path other => ?_⟩
    have apart : path ≠ own := fun same => other (dest.trans (congrArg _ same.symm))
    show (world.files.write own (renderTable output)).1.contents path = _
    unfold Files.write
    split
    · exact if_neg apart
    · rfl
    · exact if_neg apart

omit [CsvCrate] [SerdeJson] [RowOrder] [RSparkFileTail.PathDisplay] [Regex] [SqlParser]
  [PlanDebug] in
theorem written_file {path : String} (dest : flow.destination = .file path) {bytes : Nat}
    {written : World}
    (wrote : writeDestination flow.destination output world = (written, .ok bytes)) :
    written.files.contents path = some (renderTable output) := by
  rw [dest] at wrote
  obtain ⟨rfl, done⟩ := Prod.mk.inj wrote
  exact write_ok done

omit [CsvCrate] [SerdeJson] [RowOrder] [RSparkFileTail.PathDisplay] [Regex] [SqlParser]
  [PlanDebug] in
theorem deliver_changes (delivered : deliver flow output world = (world', .ok ())) :
    world'.bucketVar = world.bucketVar ∧
      (∀ name, world'.session.tables.get name = if name = flow.name then
        some ⟨(registration world flow.destination).1, (registration world flow.destination).2,
          output.schema, tableKind flow.kind⟩ else world.session.tables.get name) ∧
      (∀ path, flow.destination = .file path →
        world'.files.contents path = some (renderTable output)) ∧
      ∀ path, flow.destination ≠ .file path →
        world'.files.contents path = world.files.contents path := by
  obtain ⟨bytes, written, wrote, rfl⟩ := deliver_ok delivered
  have spared := written_spared flow output world
  rw [wrote] at spared
  have same (dest : Destination) : registration written dest = registration world dest := by
    unfold registration World.objectUri World.bucket
    rw [spared.bucket]
  have file (path : String) (dest : flow.destination = .file path) :
      written.files.contents path = some (renderTable output) := written_file dest wrote
  refine ⟨spared.bucket, fun name => ?_, file, spared.files⟩
  rw [← same, ← spared.session]
  exact InsertionMap.get_insert _ _ _ _

omit [CsvCrate] [SerdeJson] [RowOrder] [RSparkFileTail.PathDisplay] [Regex] [SqlParser]
  [PlanDebug] in
theorem deliver_failed {fault : Fault}
    (delivered : deliver flow output world = (world', .error fault)) :
    Spared flow world world' := by
  have spared := written_spared flow output world
  unfold deliver at delivered
  split at delivered
  · exact nomatch (Prod.mk.inj delivered).2
  · rename_i written e wrote
    rw [wrote] at spared
    exact (Prod.mk.inj delivered).1 ▸ spared

theorem runOne_cases {answer : Except Error RunStats}
    (ran : runOne flow world = some (world', answer)) :
    (∃ e, answer = .error e ∧ Spared flow world world') ∨
      ∃ output, answer = .ok (flowStats flow output world) ∧
        flowOutput flow world = .ok output ∧ deliver flow output world = (world', .ok ()) := by
  unfold runOne at ran
  split at ran
  · exact nomatch ran
  · split at ran
    · rename_i e _
      obtain ⟨rfl, rfl⟩ := Prod.mk.inj (Option.some.inj ran)
      exact Or.inl ⟨e, rfl, rfl, rfl, fun _ _ => rfl⟩
    · exact nomatch ran
    · rename_i output produced
      split at ran
      · rename_i written e failed
        obtain ⟨rfl, rfl⟩ := Prod.mk.inj (Option.some.inj ran)
        exact Or.inl ⟨e, rfl, deliver_failed failed⟩
      · exact nomatch ran
      · rename_i delivered
        obtain ⟨rfl, rfl⟩ := Prod.mk.inj (Option.some.inj ran)
        exact Or.inr ⟨output, rfl, produced, delivered⟩

/-- What an attempt leaves: the output that it has published, or the catalog as it was and perhaps
    a file that is cut. -/
def Left (step : Attempt World) (world : World) : Prop :=
  match step.answer with
  | .ok stats => ∃ output, stats = flowStats step.flow output step.before ∧
      flowOutput step.flow step.before = .ok output ∧ Published world step.flow output
  | .error _ => Spared step.flow step.before step.after ∧
      world.session.tables.get step.flow.name = step.before.session.tables.get step.flow.name

theorem runOne_left {answer : Except Error RunStats}
    (ran : runOne flow world = some (world', answer)) :
    Left ⟨flow, world, world', answer⟩ world' := by
  obtain ⟨e, rfl, spared⟩ | ⟨output, rfl, produced, delivered⟩ := runOne_cases ran
  · exact ⟨spared, by rw [spared.session]⟩
  · obtain ⟨bucket, tables, file, _⟩ := deliver_changes delivered
    refine ⟨output, rfl, produced, ?_, file⟩
    rw [tables, if_pos rfl]
    have same (dest : Destination) : registration world' dest = registration world dest := by
      unfold registration World.objectUri World.bucket
      rw [bucket]
    rw [same]

theorem runOne_keeps {step : Attempt World} {answer : Except Error RunStats}
    (separate : Separate step.flow other) (ran : runOne other world = some (world', answer))
    (left : Left step world) : Left step world' := by
  have kept : world'.bucketVar = world.bucketVar ∧
      world'.session.tables.get step.flow.name = world.session.tables.get step.flow.name ∧
      ∀ path, step.flow.destination = .file path →
        world'.files.contents path = world.files.contents path := by
    obtain ⟨e, _, spared⟩ | ⟨output, _, _, delivered⟩ := runOne_cases ran
    · refine ⟨spared.bucket, by rw [spared.session], fun path own => ?_⟩
      exact spared.files path (separate.2 path own)
    · obtain ⟨bucket, tables, _, files⟩ := deliver_changes delivered
      refine ⟨bucket, ?_, fun path own => files path (separate.2 path own)⟩
      rw [tables, if_neg separate.1]
  obtain ⟨bucket, tables, files⟩ := kept
  unfold Left at left ⊢
  split at left
  · obtain ⟨published, counted, produced, entry, file⟩ := left
    have same (dest : Destination) : registration world' dest = registration world dest := by
      unfold registration World.objectUri World.bucket
      rw [bucket]
    refine ⟨published, counted, produced, ?_, fun path dest => ?_⟩
    · rw [tables, same]
      exact entry
    · rw [files path dest]
      exact file path dest
  · exact ⟨left.1, tables.trans left.2⟩

/-- Each dependency of a flow has been attempted earlier in the run, and when the flow is planned
    and executed the catalog and the file show what that attempt has left; so they do at the end. -/
structure Fresh (pipeline : Pipeline) (steps : List (Attempt World)) (world : World) : Prop where
  attempted : (steps.map Attempt.flow).Perm pipeline.flows
  reads : ∀ (i : Nat) step, steps[i]? = some step → ∀ dep ∈ step.flow.dependsOn,
    ∃ (j : Nat) (earlier : Attempt World), j < i ∧ steps[j]? = some earlier ∧
      earlier.flow.name = dep ∧ Left earlier step.before
  ends : ∀ step ∈ steps, Left step world

end Worlds

section Witness
open RSparkWorkerPlanning RSparkMaster RSparkFileTail

abbrev chainRun : RunOne World :=
  @runOne lineReader noOutside oneLine asMet byText noRegex oneParser noDebug

theorem one_executed (ctx : ExecutionContext) (schema : Schema) :
    @execute noRegex ctx (.project .empty [.literal (.int 1)] schema) = .ok (.new schema) := by
  rw [@execute_eq noRegex]
  simp only [materializeInput, LogicalPlan.children, execute]
  rfl

theorem one_produced (name : String) (dependsOn : List String) (world : World) :
    ∃ output, @flowOutput lineReader noOutside oneLine asMet byText noRegex oneParser noDebug
      (sqlFlow name dependsOn) world = .ok output := by
  obtain ⟨schema, planned⟩ : ∃ schema, @planSql oneParser noDebug oneSql world.session.catalog =
      .ok (.project .empty [.literal (.int 1)] schema) := ⟨_, rfl⟩
  have executed := one_executed (@World.context lineReader noOutside world) schema
  exact ⟨_, bind_eq_ok.mpr ⟨_, rfl, bind_eq_ok.mpr ⟨_, planned, executed⟩⟩⟩

theorem chain_delivers (name : String) (dependsOn : List String) (output : RecordBatch)
    (world : World) :
    (∃ world' e, @deliver noOutside (sqlFlow name dependsOn) output world = (world', err e)) ∨
      ∃ world', @deliver noOutside (sqlFlow name dependsOn) output world = (world', .ok ()) := by
  have written : @writeDestination noOutside (sqlFlow name dependsOn).destination output world =
      writeFile ("/tmp/" ++ name) output world := rfl
  unfold deliver
  rw [written, writeFile, Files.write]
  cases world.files.writes ("/tmp/" ++ name) with
  | done => exact Or.inr ⟨_, rfl⟩
  | refused e => exact Or.inl ⟨_, _, rfl⟩
  | broken left e => exact Or.inl ⟨_, _, rfl⟩

theorem chained_answered (flows : List Flow) (listed : ∀ f ∈ flows, f ∈ chained.flows)
    (world : World) : Answered chainRun flows world := by
  have ends (name : String) (dependsOn : List String) (world : World) :
      ∃ world' answer, chainRun (sqlFlow name dependsOn) world = some (world', answer) := by
    obtain ⟨output, produced⟩ := one_produced name dependsOn world
    have shared : (sqlFlow name dependsOn).refresh.isLive = false := rfl
    unfold chainRun runOne
    rw [shared, if_neg Bool.false_ne_true, produced]
    obtain ⟨world', e, failed⟩ | ⟨world', delivered⟩ := chain_delivers name dependsOn output world
    · simp only [failed]
      exact ⟨_, _, rfl⟩
    · simp only [delivered]
      exact ⟨_, _, rfl⟩
  induction flows generalizing world with
  | nil => trivial
  | cons f flows ih =>
    obtain ⟨first, later⟩ := List.forall_mem_cons.mp listed
    have one : ∃ world' answer, chainRun f world = some (world', answer) := by
      simp only [chained, List.mem_cons, List.not_mem_nil, or_false] at first
      rcases first with rfl | rfl | rfl
      · exact ends "a" [] world
      · exact ends "b" ["a", "a"] world
      · exact ends "c" ["a", "b"] world
    obtain ⟨world', answer, ran⟩ := one
    exact ⟨world', answer, ran, ih later world'⟩

theorem chained_separate : chained.flows.Pairwise Separate := by
  have apart {a b : String} (names : a ≠ b) (paths : "/tmp/" ++ a ≠ "/tmp/" ++ b)
      (deps deps' : List String) : Separate (sqlFlow a deps) (sqlFlow b deps') := by
    refine ⟨names, fun path own theirs => paths ?_⟩
    exact (Destination.file.inj own).trans (Destination.file.inj theirs).symm
  refine .cons ?_ (.cons ?_ (.cons (fun _ mem => absurd mem List.not_mem_nil) .nil))
  · intro other listed
    simp only [List.mem_cons, List.not_mem_nil, or_false] at listed
    rcases listed with rfl | rfl
    · exact apart (by decide) (by decide) _ _
    · exact apart (by decide) (by decide) _ _
  · intro other listed
    rw [List.mem_singleton.mp listed]
    exact apart (by decide) (by decide) _ _

end Witness

end RSparkPipelineFreshness
