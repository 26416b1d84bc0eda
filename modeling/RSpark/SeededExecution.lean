import RSpark.SchemaContract
import RSpark.Stages

/- Execution seeded with a caller's batch, against execution of the whole plan with the
   leftmost scan answered by that batch. -/
namespace RSparkSeededExecution
open RSparkValue RSparkBatch RSparkExpr RSparkPlan RSparkOperators RSparkExecutor
open RSparkSchemaContract RSparkStages Listing

mutual
def redirect (source' : String) : LogicalPlan → LogicalPlan
  | .scan tableName path _ schema => .scan tableName path source' schema
  | .project input expressions schema => .project (redirect source' input) expressions schema
  | .filter input predicate schema => .filter (redirect source' input) predicate schema
  | .aggregate input groupExprs aggregateExprs schema =>
      .aggregate (redirect source' input) groupExprs aggregateExprs schema
  | .sort input order schema => .sort (redirect source' input) order schema
  | .limit input count schema => .limit (redirect source' input) count schema
  | .distinct input schema => .distinct (redirect source' input) schema
  | .join left right on how schema =>
      if left.scans.isEmpty then .join left (redirect source' right) on how schema
      else .join (redirect source' left) right on how schema
  | .union inputs schema => .union (redirectFirst source' inputs) schema
  | .empty => .empty

def redirectFirst (source' : String) : List LogicalPlan → List LogicalPlan
  | [] => []
  | input :: rest =>
      if input.scans.isEmpty then input :: redirectFirst source' rest
      else redirect source' input :: rest
end

def answering (ctx : ExecutionContext) (source' : String) (input : RecordBatch) :
    ExecutionContext :=
  ⟨⟨fun name => if name = source' then some ⟨fun _ _ => .ok input⟩
    else ctx.sourceRegistry.sources name⟩⟩

theorem redirect_outputSchema (source' : String) (plan : LogicalPlan) :
    (redirect source' plan).outputSchema = plan.outputSchema := by
  cases plan with
  | join left right on how schema =>
    simp only [redirect]
    split <;> rfl
  | _ => simp only [redirect, LogicalPlan.outputSchema]

theorem scan_answering_other (ctx : ExecutionContext) {source' source : String}
    (ne : source ≠ source') (input : RecordBatch) (path : String) (schema : Schema) :
    scanSource (answering ctx source' input) path source schema =
      scanSource ctx path source schema := by
  simp [scanSource, answering, SourceRegistry.get, ne]

theorem scan_answering_self (ctx : ExecutionContext) (source' : String) (input : RecordBatch)
    (path : String) (schema : Schema) :
    scanSource (answering ctx source' input) path source' schema = .ok input := by
  simp [scanSource, answering, SourceRegistry.get, orError]

theorem mem_scansOfAll {inputs : List LogicalPlan} {sub : LogicalPlan} {r : ScanRequest}
    (mem : sub ∈ inputs) (inSub : r ∈ sub.scans) : r ∈ scansOfAll inputs := by
  induction inputs with
  | nil => exact absurd mem (by simp)
  | cons first rest ih =>
    rcases List.mem_cons.mp mem with rfl | later
    · exact List.mem_append_left _ inSub
    · exact List.mem_append_right _ (ih later)

section Congruence
variable [Regex]

def SameAnswers (ctx ctx' : ExecutionContext) (requests : List ScanRequest) : Prop :=
  ∀ r ∈ requests, scanSource ctx r.path r.source r.schema =
    scanSource ctx' r.path r.source r.schema

mutual
theorem execute_congr (ctx ctx' : ExecutionContext) : (plan : LogicalPlan) →
    SameAnswers ctx ctx' plan.scans → execute ctx plan = execute ctx' plan
  | .scan _ path source schema, same => by
    have read := same ⟨path, source, schema⟩ (by simp [LogicalPlan.scans])
    simp only [execute, read]
  | .empty, _ => rfl
  | .project input _ _, same => by simp only [execute, execute_congr ctx ctx' input same]
  | .filter input _ _, same => by simp only [execute, execute_congr ctx ctx' input same]
  | .aggregate input _ _ _, same => by simp only [execute, execute_congr ctx ctx' input same]
  | .sort input _ _, same => by simp only [execute, execute_congr ctx ctx' input same]
  | .limit input _ _, same => by simp only [execute, execute_congr ctx ctx' input same]
  | .distinct input _, same => by simp only [execute, execute_congr ctx ctx' input same]
  | .join left right _ _ _, same => by
    have first := execute_congr ctx ctx' left fun r mem => same r (List.mem_append_left _ mem)
    have second := execute_congr ctx ctx' right fun r mem => same r (List.mem_append_right _ mem)
    simp only [execute, first, second]
  | .union [] _, _ => rfl
  | .union (first :: rest) _, same => by
    have here := execute_congr ctx ctx' first fun r mem => same r (List.mem_append_left _ mem)
    have all := executeUnion_congr ctx ctx' (first :: rest) same
    simp only [execute, here, all]

theorem executeUnion_congr (ctx ctx' : ExecutionContext) : (inputs : List LogicalPlan) →
    SameAnswers ctx ctx' (scansOfAll inputs) → ∀ combined,
      executeUnion ctx inputs combined = executeUnion ctx' inputs combined
  | [], _, _ => rfl
  | input :: rest, same, combined => by
    have here := execute_congr ctx ctx' input fun r mem => same r (List.mem_append_left _ mem)
    have later := executeUnion_congr ctx ctx' rest fun r mem =>
      same r (List.mem_append_right _ mem)
    simp only [executeUnion, here, later]
end

end Congruence

theorem unionAll_congr (exec exec' : LogicalPlan → Result RecordBatch) (xs ys : List LogicalPlan)
    (same : xs.map exec = ys.map exec') (combined : RecordBatch) :
    unionAll exec xs combined = unionAll exec' ys combined := by
  induction xs generalizing ys combined with
  | nil =>
    obtain rfl := List.map_eq_nil_iff.mp same.symm
    rfl
  | cons x xs ih =>
    cases ys with
    | nil => exact absurd same (by simp)
    | cons y ys =>
      obtain ⟨head, tail⟩ := List.cons.inj same
      simp only [unionAll, head, ih ys tail]

/-- Dropping the first input's result before the union changes nothing: the union meets the
   same error first. -/
theorem unionAll_after_first (exec : LogicalPlan → Result RecordBatch) (first : LogicalPlan)
    (rest : List LogicalPlan) (combined : RecordBatch) :
    (exec first >>= fun _ => unionAll exec (first :: rest) combined) =
      unionAll exec (first :: rest) combined := by
  simp only [unionAll]
  cases exec first <;> rfl

theorem empty_or_input {input : RecordBatch} {schema : Schema} (carries : input.schema = schema) :
    (if input.isEmpty then RecordBatch.new schema else input) = input := by
  obtain ⟨schema', records⟩ := input
  subst carries
  cases records <;> rfl

section Seed
variable [Regex]

def seedOf (stored : Result RecordBatch) (input : RecordBatch) : Result RecordBatch :=
  match stored with
  | .ok batch => .ok (if batch.isEmpty ∧ ¬ input.isEmpty then input else batch)
  | .error (.error _) => .ok input
  | .error (.abort message) => abort message

def storedSeed (ctx : ExecutionContext) (plan : LogicalPlan) (input : RecordBatch) :
    Result RecordBatch :=
  seedOf (materializeInput ctx (execute ctx) plan) input

theorem executeWithInput_eq (ctx : ExecutionContext) (plan : LogicalPlan) (input : RecordBatch) :
    executeWithInput ctx plan input =
      (storedSeed ctx plan input >>= applyTree (execute ctx) plan) := by
  unfold executeWithInput storedSeed seedOf
  cases materializeInput ctx (execute ctx) plan with
  | ok batch => rfl
  | error e =>
    cases e with
    | error e =>
      simp only [ok_bind]
      split <;> rfl
    | abort message => rfl

def executeAnswering (ctx : ExecutionContext) (plan : LogicalPlan) (source' : String)
    (input : RecordBatch) : Result RecordBatch :=
  execute (answering ctx source' input) (redirect source' plan)

def answeredInput (ctx : ExecutionContext) (plan : LogicalPlan) (source' : String)
    (input : RecordBatch) : Result RecordBatch :=
  materializeInput (answering ctx source' input) (execute (answering ctx source' input))
    (redirect source' plan)

def reexecuted : LogicalPlan → List LogicalPlan
  | .join _ right _ _ _ => [right]
  | .union inputs _ => inputs
  | _ => []

/-- The subplan holding the leftmost scan, where it is executed again and not seeded. -/
def rereads : LogicalPlan → Option LogicalPlan
  | .join left right _ _ _ => if left.scans.isEmpty then some right else none
  | .union inputs _ => inputs.find? fun input => !input.scans.isEmpty
  | _ => none

/-- The seed is the batch that the leftmost scan's rows give, and a subplan that reads them
   again finds the same in the stored rows. A union drops its seed. -/
structure SeedIsRight (ctx : ExecutionContext) (plan : LogicalPlan) (source' : String)
    (input : RecordBatch) : Prop where
  seed : (∃ inputs schema, plan = .union inputs schema) ∨
    storedSeed ctx plan input = answeredInput ctx plan source' input
  again : ∀ sub, rereads plan = some sub →
    execute ctx sub = executeAnswering ctx sub source' input

def Fresh (source' : String) (requests : List ScanRequest) : Prop :=
  ∀ r ∈ requests, r.source ≠ source'

instance (source' : String) (requests : List ScanRequest) : Decidable (Fresh source' requests) :=
  inferInstanceAs (Decidable (∀ r ∈ requests, r.source ≠ source'))

theorem execute_answering_eq (ctx : ExecutionContext) {source' : String} (input : RecordBatch)
    {plan : LogicalPlan} (fresh : Fresh source' plan.scans) :
    execute ctx plan = execute (answering ctx source' input) plan :=
  execute_congr _ _ plan fun r mem => (scan_answering_other ctx (fresh r mem) input _ _).symm

theorem redirectFirst_map {ctx : ExecutionContext} {source' : String} {input : RecordBatch}
    (inputs : List LogicalPlan) (fresh : Fresh source' (scansOfAll inputs))
    (again : ∀ sub, inputs.find? (fun input => !input.scans.isEmpty) = some sub →
      execute ctx sub = executeAnswering ctx sub source' input) :
    inputs.map (execute ctx) =
      (redirectFirst source' inputs).map (execute (answering ctx source' input)) := by
  induction inputs with
  | nil => rfl
  | cons first rest ih =>
    have freshRest : Fresh source' (scansOfAll rest) :=
      fun r mem => fresh r (List.mem_append_right _ mem)
    have freshFirst : Fresh source' first.scans :=
      fun r mem => fresh r (List.mem_append_left _ mem)
    by_cases none : first.scans.isEmpty = true
    · rw [List.find?_cons_of_neg (by simp [none])] at again
      simp only [redirectFirst, none, ↓reduceIte, List.map_cons, ih freshRest again,
        execute_answering_eq ctx input freshFirst]
    · have here := again first (by rw [List.find?_cons_of_pos (by simp [none])])
      have others : rest.map (execute ctx) = rest.map (execute (answering ctx source' input)) := by
        refine List.map_congr_left fun sub mem => execute_answering_eq ctx input fun r inSub => ?_
        exact freshRest r (mem_scansOfAll mem inSub)
      simp only [redirectFirst, none, Bool.false_eq_true, ↓reduceIte, List.map_cons, others, here,
        executeAnswering]

theorem later_of_again {ctx : ExecutionContext} {plan : LogicalPlan} {source' : String}
    {input : RecordBatch} (fresh : Fresh source' plan.scans)
    (again : ∀ sub, rereads plan = some sub →
      execute ctx sub = executeAnswering ctx sub source' input) :
    (reexecuted plan).map (execute ctx) =
      (reexecuted (redirect source' plan)).map (execute (answering ctx source' input)) := by
  cases plan with
  | join left right on how schema =>
    by_cases none : left.scans.isEmpty = true
    · have here := again right (by simp [rereads, none])
      simp only [redirect, none, ↓reduceIte, reexecuted, List.map_cons, List.map_nil, here,
        executeAnswering]
    · have freshRight : Fresh source' right.scans :=
        fun r mem => fresh r (List.mem_append_right _ mem)
      simp only [redirect, none, Bool.false_eq_true, ↓reduceIte, reexecuted, List.map_cons,
        List.map_nil, execute_answering_eq ctx input freshRight]
  | union inputs schema => exact redirectFirst_map inputs fresh again
  | _ => rfl

theorem applyTree_redirect (ctx ctx' : ExecutionContext) (source' : String) (plan : LogicalPlan)
    (batch : RecordBatch) (later : (reexecuted plan).map (execute ctx) =
      (reexecuted (redirect source' plan)).map (execute ctx')) :
    applyTree (execute ctx') (redirect source' plan) batch = applyTree (execute ctx) plan batch := by
  cases plan with
  | join left right on how schema =>
    simp only [redirect] at later ⊢
    split at later
    · rename_i none
      simp only [reexecuted, List.map_cons, List.map_nil, List.cons.injEq, and_true] at later
      simp only [none, ↓reduceIte, applyTree, later]
    · rename_i some
      simp only [reexecuted, List.map_cons, List.map_nil, List.cons.injEq, and_true] at later
      simp only [some, Bool.false_eq_true, ↓reduceIte, applyTree, later, redirect_outputSchema]
  | union inputs schema =>
    simp only [redirect, reexecuted] at later
    simp only [redirect, applyTree, unionAll_congr _ _ _ _ later]
  | _ => rfl

theorem execute_union (ctx : ExecutionContext) (inputs : List LogicalPlan) (schema : Schema) :
    execute ctx (.union inputs schema) =
      unionAll (execute ctx) inputs (RecordBatch.new schema) := by
  cases inputs with
  | nil => simp [execute, unionAll]
  | cons first rest =>
    simp only [execute, executeUnion_eq]
    exact unionAll_after_first (execute ctx) first rest (RecordBatch.new schema)

theorem executeWithInput_union (ctx : ExecutionContext) (inputs : List LogicalPlan)
    (schema : Schema) (input : RecordBatch) :
    executeWithInput ctx (.union inputs schema) input =
      unionAll (execute ctx) inputs (RecordBatch.new schema) := by
  rw [executeWithInput_eq]
  cases inputs with
  | nil =>
    simp only [storedSeed, materializeInput, LogicalPlan.children, seedOf]
    split <;> rfl
  | cons first rest =>
    simp only [storedSeed, materializeInput, LogicalPlan.children]
    cases ran : execute ctx first with
    | ok batch =>
      simp only [seedOf, ok_bind]
      split <;> rfl
    | error e =>
      have fails : unionAll (execute ctx) (first :: rest) (RecordBatch.new schema) = .error e := by
        simp only [unionAll, ran, error_bind]
      cases e with
      | error e => simp only [seedOf, ok_bind, applyTree, fails]
      | abort message => simp only [seedOf, abort, error_bind, fails]

theorem seeded_eq_answering {ctx : ExecutionContext} {plan : LogicalPlan} {source' : String}
    {input : RecordBatch} (fresh : Fresh source' plan.scans)
    (right : SeedIsRight ctx plan source' input) :
    executeWithInput ctx plan input = executeAnswering ctx plan source' input := by
  have later := later_of_again fresh right.again
  rcases right.seed with ⟨inputs, schema, rfl⟩ | seed
  · rw [executeWithInput_union, executeAnswering, redirect, execute_union]
    exact unionAll_congr _ _ _ _ later _
  · rw [executeWithInput_eq, executeAnswering, execute_eq, seed, answeredInput]
    congr 1
    funext batch
    exact (applyTree_redirect ctx _ source' plan batch later).symm

theorem answering_scan (ctx : ExecutionContext) (t p src source' : String) (schema : Schema)
    {input : RecordBatch} (carries : input.schema = schema) :
    executeAnswering ctx (.scan t p src schema) source' input = .ok input := by
  simp only [executeAnswering, redirect, execute, scan_answering_self, ok_bind,
    empty_or_input carries]

/-- The stored rows of a scan cannot be read, are none, or are the input. -/
def StoredHarmless (ctx : ExecutionContext) (p src : String) (schema : Schema)
    (input : RecordBatch) : Prop :=
  (∃ e, scanSource ctx p src schema = .error (.error e)) ∨
    ∃ stored, scanSource ctx p src schema = .ok stored ∧
      (stored.isEmpty = true ∨ stored = input)

theorem seeded_scan_iff (ctx : ExecutionContext) (t p src : String) (schema : Schema)
    {input : RecordBatch} (carries : input.schema = schema) :
    executeWithInput ctx (.scan t p src schema) input = .ok input ↔
      StoredHarmless ctx p src schema input := by
  have shown := empty_or_input carries
  have applied : ∀ b, applyTree (execute ctx) (.scan t p src schema) b =
      .ok (if b.isEmpty then RecordBatch.new schema else b) := fun _ => rfl
  rw [executeWithInput_eq]
  simp only [storedSeed, materializeInput, StoredHarmless]
  cases scanSource ctx p src schema with
  | error e =>
    cases e with
    | error e => simp [seedOf, applied, shown]
    | abort message => simp [seedOf, abort]
  | ok stored =>
    simp only [seedOf, ok_bind, applied]
    by_cases none : stored.isEmpty = true
    · by_cases empty : input.isEmpty = true
      · have asks : RecordBatch.new schema = input := by simpa [empty] using shown
        simp [none, empty, asks]
      · simp [none, empty]
    · simp [none]

theorem seeded_star_iff {ctx : ExecutionContext} {child : LogicalPlan} {schema : Schema}
    {source' : String} {input out : RecordBatch}
    (answered : executeAnswering ctx (.project child [.star] schema) source' input = .ok out) :
    executeWithInput ctx (.project child [.star] schema) input = .ok out ↔
      ∃ seed, storedSeed ctx (.project child [.star] schema) input = .ok seed ∧
        seed.records = out.records := by
  obtain ⟨batch, _, built⟩ := bind_eq_ok.mp answered
  obtain ⟨rfl, valid⟩ := fromRecords_eq_ok.mp built
  rw [executeWithInput_eq, bind_eq_ok]
  constructor
  · rintro ⟨seed, started, ran⟩
    obtain ⟨same, _⟩ := fromRecords_eq_ok.mp ran
    exact ⟨seed, started, (congrArg RecordBatch.records same).symm⟩
  · rintro ⟨seed, started, same⟩
    refine ⟨seed, started, fromRecords_eq_ok.mpr ⟨?_, ?_⟩⟩
    · rw [same]
    · rw [same]
      exact valid

def StoredIs (ctx : ExecutionContext) (plan : LogicalPlan) (input : RecordBatch) : Prop :=
  ∀ r, plan.scans.head? = some r → scanSource ctx r.path r.source r.schema = .ok input

/-- Each operator above the scan gives rows back as they are: a filter that all pass, an order
    they are in, a limit they do not reach. -/
def HandsOn (input : RecordBatch) : LogicalPlan → Prop
  | .scan _ _ _ schema => input.schema = schema
  | .project child expressions schema =>
      HandsOn input child ∧ Conforms input schema ∧ expressions = [.star]
  | .filter child predicate schema => HandsOn input child ∧ Conforms input schema ∧
      ∀ r ∈ input.records, evalPredicate predicate r input = .ok true
  | .sort child order schema =>
      HandsOn input child ∧ Conforms input schema ∧ sortBatch input order = .ok input
  | .limit child count schema =>
      HandsOn input child ∧ Conforms input schema ∧ input.records.length ≤ count
  | .distinct child schema =>
      HandsOn input child ∧ Conforms input schema ∧ (input.records.map distinctKey).Nodup
  | _ => False

/-- Nothing stored comes through: it cannot be read, there are no rows, or a filter on the scan
    holds of none. -/
def LeavesNothing (ctx : ExecutionContext) : LogicalPlan → Prop
  | .scan _ path source schema => (∃ e, scanSource ctx path source schema = .error (.error e)) ∨
      ∃ stored, scanSource ctx path source schema = .ok stored ∧ stored.isEmpty = true
  | .filter (.scan t path source scanned) predicate _ =>
      LeavesNothing ctx (.scan t path source scanned) ∨
        ∃ stored, scanSource ctx path source scanned = .ok stored ∧
          ∀ r ∈ stored.records, evalPredicate predicate r stored = .ok false
  | .filter child _ _ => LeavesNothing ctx child
  | .project child _ _ => LeavesNothing ctx child
  | .sort child _ _ => LeavesNothing ctx child
  | .limit child _ _ => LeavesNothing ctx child
  | .distinct child _ => LeavesNothing ctx child
  | _ => False

def ChildSeeds (ctx : ExecutionContext) (child : LogicalPlan) (input : RecordBatch) : Prop :=
  HandsOn input child ∧ (LeavesNothing ctx child ∨ StoredIs ctx child input)

/-- The rows that are stored, and the plan, let the input through. A union reads its inputs
    again. -/
def SeedsRight (ctx : ExecutionContext) (plan : LogicalPlan) (input : RecordBatch) : Prop :=
  match plan with
  | .scan _ path source schema => StoredHarmless ctx path source schema input
  | .union _ _ => StoredIs ctx plan input
  | .join left _ _ _ _ => ChildSeeds ctx left input
  | .project child _ _ => ChildSeeds ctx child input
  | .filter child _ _ => ChildSeeds ctx child input
  | .aggregate child _ _ _ => ChildSeeds ctx child input
  | .sort child _ _ => ChildSeeds ctx child input
  | .limit child _ _ => ChildSeeds ctx child input
  | .distinct child _ => ChildSeeds ctx child input
  | .empty => False

section Operators
variable {input : RecordBatch} {schema : Schema}

omit [Regex] in
theorem rebuilt (conforms : Conforms input schema) :
    RecordBatch.fromRecords schema input.records = .ok input := by
  obtain ⟨rfl, valid⟩ := conforms
  exact fromRecords_of_valid valid

theorem applyFilter_all {predicate : Expr} (conforms : Conforms input schema)
    (all : ∀ r ∈ input.records, evalPredicate predicate r input = .ok true) :
    applyFilter predicate schema input = .ok input := by
  have every : ∀ r ∈ input.records, keeps predicate input r = true := by
    intro r mem
    rw [keeps, all r mem, answer]
  rw [applyFilter, filterRecords_judged fun r mem => ⟨true, all r mem⟩, ok_bind,
    List.filter_eq_self.mpr every, rebuilt conforms]

omit [Regex] in
theorem distinctRecords_nodup {records : List Record} {seen : List String}
    (distinct : (records.map distinctKey).Nodup)
    (apart : ∀ r ∈ records, distinctKey r ∉ seen) : distinctRecords seen records = records := by
  induction records generalizing seen with
  | nil => rfl
  | cons r rest ih =>
    obtain ⟨first, later⟩ := List.nodup_cons.mp distinct
    rw [distinctRecords, if_neg (apart r List.mem_cons_self), ih later]
    intro r' mem
    rw [List.mem_cons, not_or]
    refine ⟨fun same => first (same ▸ List.mem_map_of_mem mem), ?_⟩
    exact apart r' (List.mem_cons_of_mem _ mem)

theorem handsOn_schema {plan : LogicalPlan} (hands : HandsOn input plan) :
    input.schema = plan.outputSchema := by
  cases plan with
  | scan | project | filter | sort | limit | distinct =>
    first
    | exact hands
    | exact hands.2.1.1
  | aggregate | join | union | empty => exact hands.elim

theorem handsOn_answers (ctx : ExecutionContext) (source' : String) {plan : LogicalPlan}
    (hands : HandsOn input plan) : executeAnswering ctx plan source' input = .ok input := by
  have step {child : LogicalPlan} (below : executeAnswering ctx child source' input = .ok input)
      {apply : RecordBatch → Result RecordBatch} (gives : apply input = .ok input) :
      (do apply (← execute (answering ctx source' input) (redirect source' child))) =
        .ok input := by
    rw [show execute (answering ctx source' input) (redirect source' child) = .ok input from below,
      ok_bind, gives]
  cases plan with
  | scan t path source schema => exact answering_scan ctx t path source source' schema hands
  | project child expressions schema =>
    obtain ⟨below, conforms, rfl⟩ := hands
    exact step (handsOn_answers ctx source' below) (rebuilt conforms)
  | filter child predicate schema =>
    obtain ⟨below, conforms, all⟩ := hands
    exact step (handsOn_answers ctx source' below) (applyFilter_all conforms all)
  | sort child order schema =>
    obtain ⟨below, conforms, sorted⟩ := hands
    refine step (handsOn_answers ctx source' below) ?_
    rw [applySort, sorted, ok_bind, rebuilt conforms]
  | limit child count schema =>
    obtain ⟨below, conforms, short⟩ := hands
    refine step (handsOn_answers ctx source' below) ?_
    rw [applyLimit, limitBatch, List.take_of_length_le short, rebuilt ⟨rfl, conforms.2⟩, ok_bind,
      rebuilt conforms]
  | distinct child schema =>
    obtain ⟨below, conforms, apart⟩ := hands
    refine step (handsOn_answers ctx source' below) ?_
    rw [applyDistinct, distinctRecords_nodup apart fun r mem => List.not_mem_nil, rebuilt conforms]
  | aggregate | join | union | empty => exact hands.elim

/-- The child is refused, or left without rows. -/
def Nothing (result : Result RecordBatch) (schema : Schema) : Prop :=
  (∃ e, result = .error (.error e)) ∨ result = .ok (RecordBatch.new schema)

omit [Regex] in
theorem nothing_step {result : Result RecordBatch} {below : Schema}
    {apply : RecordBatch → Result RecordBatch} (nothing : Nothing result below)
    (gives : apply (RecordBatch.new below) = .ok (RecordBatch.new schema)) :
    Nothing (result >>= apply) schema := by
  rcases nothing with ⟨e, rfl⟩ | rfl
  · exact Or.inl ⟨e, rfl⟩
  · exact Or.inr gives

theorem scan_nothing {ctx : ExecutionContext} {t path source : String}
    (leaves : LeavesNothing ctx (.scan t path source schema)) :
    Nothing (execute ctx (.scan t path source schema)) schema := by
  rcases leaves with ⟨e, refused⟩ | ⟨stored, read, none⟩
  · exact Or.inl ⟨e, by simp only [execute, refused, error_bind]⟩
  · exact Or.inr (by simp only [execute, read, ok_bind, none, ↓reduceIte])

theorem filter_nothing {ctx : ExecutionContext} {t path source : String} {scanned : Schema}
    {predicate : Expr} {stored : RecordBatch}
    (read : scanSource ctx path source scanned = .ok stored)
    (none : ∀ r ∈ stored.records, evalPredicate predicate r stored = .ok false) :
    Nothing (execute ctx (.filter (.scan t path source scanned) predicate schema)) schema := by
  refine Or.inr ?_
  by_cases empty : stored.isEmpty = true
  · simp only [execute, read, ok_bind, empty, ↓reduceIte]
    rfl
  · have refused : ∀ r ∈ stored.records, ¬ keeps predicate stored r = true := by
      intro r mem
      rw [keeps, none r mem, answer]
      exact Bool.false_ne_true
    simp only [execute, read, ok_bind, empty, Bool.false_eq_true, ↓reduceIte, applyFilter,
      filterRecords_judged fun r mem => ⟨false, none r mem⟩, List.filter_eq_nil_iff.mpr refused]
    rfl

theorem leavesNothing_execute {ctx : ExecutionContext} {plan : LogicalPlan}
    (leaves : LeavesNothing ctx plan) : Nothing (execute ctx plan) plan.outputSchema := by
  cases plan with
  | scan t path source schema => exact scan_nothing leaves
  | filter child predicate schema =>
    cases child with
    | scan t path source scanned =>
      rcases leaves with below | ⟨stored, read, none⟩
      · exact nothing_step (scan_nothing below) rfl
      · exact filter_nothing read none
    | project | filter | sort | limit | distinct =>
      exact nothing_step (leavesNothing_execute leaves) rfl
    | aggregate | join | union | empty => exact leaves.elim
  | project child expressions schema =>
    refine nothing_step (@leavesNothing_execute ctx child leaves) ?_
    rw [applyProject]
    split <;> rfl
  | sort child order schema =>
    exact nothing_step (@leavesNothing_execute ctx child leaves) rfl
  | limit child count schema =>
    refine nothing_step (@leavesNothing_execute ctx child leaves) ?_
    rw [applyLimit, limitBatch, RecordBatch.new, List.take_nil]
    rfl
  | distinct child schema =>
    exact nothing_step (@leavesNothing_execute ctx child leaves) rfl
  | aggregate | join | union | empty => exact leaves.elim

end Operators

mutual
theorem stored_answers (ctx : ExecutionContext) {source' : String} {input : RecordBatch} :
    (plan : LogicalPlan) → Fresh source' plan.scans → StoredIs ctx plan input →
      execute ctx plan = executeAnswering ctx plan source' input
  | .scan _ path source schema, _, stored => by
    have read := stored ⟨path, source, schema⟩ rfl
    simp only [executeAnswering, redirect, execute, scan_answering_self, read]
  | .empty, _, _ => rfl
  | .project input _ _, fresh, stored => by
    simp only [execute, stored_answers ctx input fresh stored]
    rfl
  | .filter input _ _, fresh, stored => by
    simp only [execute, stored_answers ctx input fresh stored]
    rfl
  | .aggregate input _ _ _, fresh, stored => by
    simp only [execute, stored_answers ctx input fresh stored]
    rfl
  | .sort input _ _, fresh, stored => by
    simp only [execute, stored_answers ctx input fresh stored]
    rfl
  | .limit input _ _, fresh, stored => by
    simp only [execute, stored_answers ctx input fresh stored]
    rfl
  | .distinct input _, fresh, stored => by
    simp only [execute, stored_answers ctx input fresh stored]
    rfl
  | .join left right on how schema, fresh, stored => by
    have freshLeft : Fresh source' left.scans :=
      fun r mem => fresh r (List.mem_append_left _ mem)
    have freshRight : Fresh source' right.scans :=
      fun r mem => fresh r (List.mem_append_right _ mem)
    simp only [executeAnswering, redirect]
    split
    · rename_i none
      have first : StoredIs ctx right input := fun r found => stored r (by
        rw [LogicalPlan.scans, List.isEmpty_iff.mp none, List.nil_append, found])
      simp only [execute, execute_answering_eq ctx input freshLeft,
        stored_answers ctx right freshRight first]
      rfl
    · have first : StoredIs ctx left input := fun r found => stored r (by
        rw [LogicalPlan.scans, List.head?_append, found, Option.some_or])
      simp only [execute, execute_answering_eq ctx input freshRight, redirect_outputSchema,
        stored_answers ctx left freshLeft first]
      rfl
  | .union inputs schema, fresh, stored => by
    rw [executeAnswering, redirect, execute_union, execute_union]
    exact unionAll_congr _ _ _ _ (redirectFirst_map inputs fresh
      (stored_answers_first ctx inputs fresh stored)) _

theorem stored_answers_first (ctx : ExecutionContext) {source' : String} {input : RecordBatch} :
    (inputs : List LogicalPlan) → Fresh source' (scansOfAll inputs) →
      (∀ r, (scansOfAll inputs).head? = some r →
        scanSource ctx r.path r.source r.schema = .ok input) →
      ∀ sub, inputs.find? (fun input => !input.scans.isEmpty) = some sub →
        execute ctx sub = executeAnswering ctx sub source' input
  | [], _, _ => fun sub found => nomatch found
  | first :: rest, fresh, stored => fun sub found => by
    by_cases none : first.scans.isEmpty = true
    · rw [List.find?_cons_of_neg (by simp [none])] at found
      have later : ∀ r, (scansOfAll rest).head? = some r →
          scanSource ctx r.path r.source r.schema = .ok input := fun r head => stored r (by
        rw [scansOfAll, List.isEmpty_iff.mp none, List.nil_append, head])
      exact stored_answers_first ctx rest (fun r mem => fresh r (List.mem_append_right _ mem))
        later sub found
    · rw [List.find?_cons_of_pos (by simp [none])] at found
      obtain rfl := Option.some.inj found
      refine stored_answers ctx first (fun r mem => fresh r (List.mem_append_left _ mem)) ?_
      intro r head
      refine stored r ?_
      rw [scansOfAll, List.head?_append, head, Option.some_or]
end

theorem childSeeds_seed {ctx : ExecutionContext} {child : LogicalPlan} {input : RecordBatch}
    {source' : String} (fresh : Fresh source' child.scans) (seeds : ChildSeeds ctx child input) :
    seedOf (execute ctx child) input = executeAnswering ctx child source' input := by
  obtain ⟨hands, nothing | stored⟩ := seeds
  · rw [handsOn_answers ctx source' hands]
    rcases leavesNothing_execute nothing with ⟨e, refused⟩ | none
    · rw [refused, seedOf]
    · have noRows : (RecordBatch.new child.outputSchema).isEmpty = true := rfl
      have shown := empty_or_input (handsOn_schema hands)
      rw [none, seedOf]
      by_cases empty : input.isEmpty = true
      · rw [if_pos empty] at shown
        simp [empty, shown]
      · simp [noRows, empty]
  · rw [stored_answers ctx child fresh stored, handsOn_answers ctx source' hands, seedOf]
    simp

theorem handsOn_scans {input : RecordBatch} {plan : LogicalPlan} (hands : HandsOn input plan) :
    plan.scans.isEmpty = false := by
  cases plan with
  | scan => rfl
  | project | filter | sort | limit | distinct =>
    have below := handsOn_scans hands.1
    exact below
  | aggregate | join | union | empty => exact hands.elim

theorem seedsRight_seed {ctx : ExecutionContext} {plan : LogicalPlan} {input : RecordBatch}
    {source' : String} (fresh : Fresh source' plan.scans) (right : SeedsRight ctx plan input)
    (noScan : ∀ t p src schema, plan ≠ .scan t p src schema) :
    SeedIsRight ctx plan source' input := by
  cases plan with
  | scan t p src schema => exact absurd rfl (noScan t p src schema)
  | empty => exact right.elim
  | union inputs schema =>
    exact ⟨.inl ⟨inputs, schema, rfl⟩, stored_answers_first ctx inputs fresh right⟩
  | join left right' on how schema =>
    have freshLeft : Fresh source' left.scans :=
      fun r mem => fresh r (List.mem_append_left _ mem)
    have some_scan := handsOn_scans right.1
    refine ⟨.inr ?_, fun sub found => ?_⟩
    · refine (childSeeds_seed freshLeft right).trans ?_
      simp only [answeredInput, redirect, some_scan]
      rfl
    · simp [rereads, some_scan] at found
  | project | filter | aggregate | sort | limit | distinct =>
    exact ⟨.inr (childSeeds_seed fresh right), fun sub found => by simp [rereads] at found⟩

def passing (predicate : Expr) (b : RecordBatch) : List Record :=
  b.records.filter (keeps predicate b)

/-- The clause has a truth value on every row, and the rows it holds of fit. -/
structure Judged (predicate : Expr) (b : RecordBatch) (schema : Schema) : Prop where
  each : ∀ r ∈ b.records, ∃ keep, evalPredicate predicate r b = .ok keep
  fit : ∀ r ∈ passing predicate b, r.Valid schema

section Stars
variable {ctx : ExecutionContext} {t p src source' : String} {scanned filtered schema : Schema}
variable {predicate : Expr} {input stored out : RecordBatch}

theorem star_rows {child : LogicalPlan}
    (answered : executeAnswering ctx (.project child [.star] schema) source' input = .ok out) :
    ∃ b, executeAnswering ctx child source' input = .ok b ∧ out.records = b.records := by
  obtain ⟨batch, ran, built⟩ := bind_eq_ok.mp answered
  obtain ⟨rfl, _⟩ := fromRecords_eq_ok.mp built
  exact ⟨batch, ran, rfl⟩

theorem star_scan_iff (carries : input.schema = scanned)
    (answered : executeAnswering ctx (.project (.scan t p src scanned) [.star] schema) source'
      input = .ok out) :
    executeWithInput ctx (.project (.scan t p src scanned) [.star] schema) input = .ok out ↔
      (∃ e, scanSource ctx p src scanned = .error (.error e)) ∨
        ∃ stored, scanSource ctx p src scanned = .ok stored ∧
          (stored.isEmpty = true ∨ stored.records = input.records) := by
  obtain ⟨b, ran, rows⟩ := star_rows answered
  rw [answering_scan ctx t p src source' scanned carries] at ran
  obtain rfl := Except.ok.inj ran
  rw [seeded_star_iff answered, rows]
  simp only [storedSeed, materializeInput, LogicalPlan.children, execute]
  cases read : scanSource ctx p src scanned with
  | error fault =>
    cases fault with
    | error e => simp [seedOf]
    | abort message => simp [seedOf, abort]
  | ok stored =>
    simp only [ok_bind, seedOf]
    by_cases none : stored.isEmpty = true
    · by_cases empty : input.isEmpty = true
      · have noRows : input.records = [] := List.isEmpty_iff.mp empty
        simp [none, empty, noRows, RecordBatch.new]
      · have noRows : (RecordBatch.new scanned).isEmpty = true := rfl
        simp [none, empty, noRows]
    · simp [none]

theorem answered_filter (carries : input.schema = scanned) {b : RecordBatch}
    (ran : executeAnswering ctx (.filter (.scan t p src scanned) predicate filtered) source'
      input = .ok b) : b.records = passing predicate input := by
  obtain ⟨batch, scan, filter⟩ := bind_eq_ok.mp ran
  have here := answering_scan ctx t p src source' scanned carries
  obtain rfl := Except.ok.inj (here.symm.trans scan)
  obtain ⟨kept, passed, built⟩ := bind_eq_ok.mp filter
  obtain ⟨rfl, _⟩ := fromRecords_eq_ok.mp built
  exact (filterRecords_eq passed).2

theorem stored_filter (read : scanSource ctx p src scanned = .ok stored)
    (judged : Judged predicate stored filtered) :
    execute ctx (.filter (.scan t p src scanned) predicate filtered) =
      .ok ⟨filtered, passing predicate stored⟩ := by
  by_cases none : stored.isEmpty = true
  · have noRows : stored.records = [] := List.isEmpty_iff.mp none
    simp only [execute, read, ok_bind, none, ↓reduceIte, passing, noRows, List.filter_nil]
    rfl
  · simp only [execute, read, ok_bind, none, Bool.false_eq_true, ↓reduceIte, applyFilter,
      filterRecords_judged judged.each]
    exact fromRecords_of_valid judged.fit

theorem star_filter_unread_iff (carries : input.schema = scanned)
    (answered : executeAnswering ctx
      (.project (.filter (.scan t p src scanned) predicate filtered) [.star] schema) source'
      input = .ok out) {e : Error} (read : scanSource ctx p src scanned = .error (.error e)) :
    executeWithInput ctx
        (.project (.filter (.scan t p src scanned) predicate filtered) [.star] schema) input =
        .ok out ↔ passing predicate input = input.records := by
  obtain ⟨b, ran, rows⟩ := star_rows answered
  rw [seeded_star_iff answered, rows, answered_filter carries ran]
  simp only [storedSeed, materializeInput, LogicalPlan.children, execute, read, error_bind, seedOf,
    Except.ok.injEq, exists_eq_left']
  exact eq_comm

/-- SELECT * from one table with a WHERE clause: the stored rows that pass it take the place
    of the polled ones, and where none do the polled rows do not meet it. -/
theorem star_filter_iff (carries : input.schema = scanned)
    (answered : executeAnswering ctx
      (.project (.filter (.scan t p src scanned) predicate filtered) [.star] schema) source'
      input = .ok out) (read : scanSource ctx p src scanned = .ok stored)
    (judged : Judged predicate stored filtered) :
    executeWithInput ctx
        (.project (.filter (.scan t p src scanned) predicate filtered) [.star] schema) input =
        .ok out ↔
      (passing predicate stored = [] ∧ passing predicate input = input.records) ∨
        (passing predicate stored ≠ [] ∧
          passing predicate stored = passing predicate input) := by
  obtain ⟨b, ran, rows⟩ := star_rows answered
  rw [seeded_star_iff answered, rows, answered_filter carries ran]
  simp only [storedSeed, materializeInput, LogicalPlan.children, stored_filter read judged, seedOf]
  by_cases none : passing predicate stored = []
  · have noRows : (RecordBatch.mk filtered []).isEmpty = true := rfl
    by_cases empty : input.isEmpty = true
    · have noInput : input.records = [] := List.isEmpty_iff.mp empty
      simp [empty, noInput, passing]
    · simp only [none, noRows, empty, Bool.false_eq_true, not_false_eq_true, and_self, ↓reduceIte,
        Except.ok.injEq, exists_eq_left', true_and, ne_eq, not_true_eq_false, false_and,
        or_false]
      exact eq_comm
  · have someRow : ¬ (RecordBatch.mk filtered (passing predicate stored)).isEmpty = true := by
      simp [RecordBatch.isEmpty, none]
    simp [someRow, none]

end Stars

/-- When a seeded execution is the execution with the leftmost scan answering the input, by the
    stored rows and the plan. -/
theorem executeWithInput_answers (ctx : ExecutionContext) (plan : LogicalPlan)
    (input : RecordBatch) (r : ScanRequest) (first : plan.scans.head? = some r)
    (carries : input.schema = r.schema) (source' : String) (fresh : Fresh source' plan.scans) :
    (SeedsRight ctx plan input →
      executeWithInput ctx plan input = executeAnswering ctx plan source' input) ∧
    (∀ t p src schema, plan = .scan t p src schema →
      (executeWithInput ctx plan input = executeAnswering ctx plan source' input ↔
        StoredHarmless ctx p src schema input)) ∧
    (∀ t p src scanned schema out, plan = .project (.scan t p src scanned) [.star] schema →
      executeAnswering ctx plan source' input = .ok out →
      (executeWithInput ctx plan input = executeAnswering ctx plan source' input ↔
        (∃ e, scanSource ctx p src scanned = .error (.error e)) ∨
          ∃ stored, scanSource ctx p src scanned = .ok stored ∧
            (stored.isEmpty = true ∨ stored.records = input.records))) ∧
    (∀ t p src scanned predicate filtered schema out,
      plan = .project (.filter (.scan t p src scanned) predicate filtered) [.star] schema →
      executeAnswering ctx plan source' input = .ok out →
      (∀ e, scanSource ctx p src scanned = .error (.error e) →
        (executeWithInput ctx plan input = executeAnswering ctx plan source' input ↔
          passing predicate input = input.records)) ∧
      ∀ stored, scanSource ctx p src scanned = .ok stored → Judged predicate stored filtered →
        (executeWithInput ctx plan input = executeAnswering ctx plan source' input ↔
          (passing predicate stored = [] ∧ passing predicate input = input.records) ∨
            (passing predicate stored ≠ [] ∧
              passing predicate stored = passing predicate input))) := by
  have bare (t p src : String) (schema : Schema) (same : plan = .scan t p src schema) :
      executeWithInput ctx plan input = executeAnswering ctx plan source' input ↔
        StoredHarmless ctx p src schema input := by
    subst same
    obtain rfl := Option.some.inj first
    rw [answering_scan ctx t p src source' schema carries]
    exact seeded_scan_iff ctx t p src schema carries
  refine ⟨fun right => ?_, bare, ?_, ?_⟩
  · by_cases scan : ∃ t p src schema, plan = .scan t p src schema
    · obtain ⟨t, p, src, schema, rfl⟩ := scan
      exact (bare t p src schema rfl).mpr right
    · refine seeded_eq_answering fresh (seedsRight_seed fresh right ?_)
      exact fun t p src schema same => scan ⟨t, p, src, schema, same⟩
  · rintro t p src scanned schema out rfl answered
    obtain rfl := Option.some.inj first
    rw [answered]
    exact star_scan_iff carries answered
  · rintro t p src scanned predicate filtered schema out rfl answered
    obtain rfl := Option.some.inj first
    rw [answered]
    exact ⟨fun e read => star_filter_unread_iff carries answered read,
      fun stored read judged => star_filter_iff carries answered read judged⟩

end Seed

section Witness

def eventSchema : Schema := ⟨[Field.notNull "id" .int64]⟩
def eventScan : LogicalPlan := .scan "events" "events.json" "json" eventSchema
def polled : RecordBatch := ⟨eventSchema, [⟨[.int64 1]⟩, ⟨[.int64 2]⟩]⟩

/-- The file of the table exists and holds no rows. -/
def emptyFile : ExecutionContext :=
  ⟨⟨fun _ => some ⟨fun _ _ => .ok ⟨eventSchema, []⟩⟩⟩⟩

def recentEvents : LogicalPlan :=
  .project (.filter eventScan (.binary .gt (.column "id") (.literal (.int 1))) eventSchema)
    [.star] eventSchema

theorem events_limited :
    @executeWithInput noRegex emptyFile (.limit eventScan 1 eventSchema) polled =
      .ok ⟨eventSchema, [⟨[.int64 1]⟩]⟩ := by
  have answers := (@executeWithInput_answers noRegex emptyFile (.limit eventScan 1 eventSchema)
    polled ⟨"events.json", "json", eventSchema⟩ rfl rfl "input" (by decide)).1
  have right : @SeedsRight noRegex emptyFile (.limit eventScan 1 eventSchema) polled :=
    ⟨rfl, .inl (.inr ⟨⟨eventSchema, []⟩, rfl, rfl⟩)⟩
  rw [answers right]
  rfl

/-- The polled rows skip the WHERE clause: id 1 comes out. -/
theorem recent_events_unfiltered :
    @executeWithInput noRegex emptyFile recentEvents polled = .ok polled ∧
      @executeAnswering noRegex emptyFile recentEvents "input" polled =
        .ok ⟨eventSchema, [⟨[.int64 2]⟩]⟩ := by
  exact ⟨rfl, rfl⟩

end Witness

end RSparkSeededExecution
