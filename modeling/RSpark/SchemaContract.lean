import RSpark.Executor

/- What the executor promises about its result: the batch carries the output schema of
   the plan, and each of its records is valid for that schema. -/
namespace RSparkSchemaContract
open RSparkValue RSparkBatch RSparkExpr RSparkPlan RSparkOperators RSparkExecutor

def Conforms (b : RecordBatch) (schema : Schema) : Prop := b.schema = schema ∧ b.Valid

instance (b : RecordBatch) (schema : Schema) : Decidable (Conforms b schema) :=
  inferInstanceAs (Decidable (_ ∧ _))

theorem conforms_new (schema : Schema) : Conforms (RecordBatch.new schema) schema :=
  ⟨rfl, new_valid schema⟩

/-- Every answer to a scan of the plan carries the requested schema and valid records. -/
def SourcesConform (ctx : ExecutionContext) (requests : List ScanRequest) : Prop :=
  ∀ r ∈ requests, ∀ b, scanSource ctx r.path r.source r.schema = .ok b → Conforms b r.schema

theorem sources_append {ctx : ExecutionContext} {xs ys : List ScanRequest}
    (honest : SourcesConform ctx (xs ++ ys)) : SourcesConform ctx xs ∧ SourcesConform ctx ys :=
  ⟨fun r mem => honest r (List.mem_append_left ys mem),
    fun r mem => honest r (List.mem_append_right xs mem)⟩

theorem scan_conforms {schema : Schema} {batch : RecordBatch} (h : Conforms batch schema) :
    Conforms (if batch.isEmpty then RecordBatch.new schema else batch) schema := by
  split
  · exact conforms_new schema
  · exact h

/-- Union appends without validating: its records are valid because its inputs' are. -/
theorem extend_conforms {schema : Schema} {combined b c : RecordBatch}
    (hc : Conforms combined schema) (hb : b.Valid) (h : combined.extend b = .ok c) :
    Conforms c schema := by
  obtain ⟨same, valid⟩ := extend_valid h hc.2 hb
  exact ⟨same.trans hc.1, valid⟩

/-- The other operators rebuild their batch under the node's schema, so nothing is asked
   of their input. -/
theorem applyLimit_conforms {count : Nat} {schema : Schema} {batch b : RecordBatch}
    (h : applyLimit count schema batch = .ok b) : Conforms b schema := by
  obtain ⟨limited, _, built⟩ := bind_eq_ok.mp h
  exact fromRecords_valid built

theorem applyDistinct_conforms {schema : Schema} {batch b : RecordBatch}
    (h : applyDistinct schema batch = .ok b) : Conforms b schema :=
  fromRecords_valid h

theorem applyJoin_conforms {leftSchema : Schema} {on : List (String × String)} {how : JoinType}
    {schema : Schema} {batch b : RecordBatch} {right : Result RecordBatch}
    (h : applyJoin leftSchema on how schema batch right = .ok b) : Conforms b schema := by
  obtain ⟨leftBatch, _, h⟩ := bind_eq_ok.mp h
  obtain ⟨rightBatch, _, h⟩ := bind_eq_ok.mp h
  obtain ⟨joined, _, built⟩ := bind_eq_ok.mp h
  exact fromRecords_valid built

section Plans
variable [Regex]

theorem applyProject_conforms {expressions : List Expr} {schema : Schema} {batch b : RecordBatch}
    (h : applyProject expressions schema batch = .ok b) : Conforms b schema := by
  unfold applyProject at h
  split at h
  · exact fromRecords_valid h
  · obtain ⟨records, _, built⟩ := bind_eq_ok.mp h
    exact fromRecords_valid built

theorem applyFilter_conforms {predicate : Expr} {schema : Schema} {batch b : RecordBatch}
    (h : applyFilter predicate schema batch = .ok b) : Conforms b schema := by
  obtain ⟨records, _, built⟩ := bind_eq_ok.mp h
  exact fromRecords_valid built

theorem aggregateBatch_conforms {groupExprs aggregateExprs : List Expr} {schema : Schema}
    {batch b : RecordBatch} (h : aggregateBatch groupExprs aggregateExprs batch schema = .ok b) :
    Conforms b schema := by
  obtain ⟨groups, _, built⟩ := bind_eq_ok.mp h
  exact fromRecords_valid built

theorem applySort_conforms {order : List SortExpr} {schema : Schema} {batch b : RecordBatch}
    (h : applySort order schema batch = .ok b) : Conforms b schema := by
  obtain ⟨sorted, _, built⟩ := bind_eq_ok.mp h
  exact fromRecords_valid built

mutual
theorem execute_conforms_tree (ctx : ExecutionContext) :
    (plan : LogicalPlan) → SourcesConform ctx plan.scans → ∀ b, execute ctx plan = .ok b →
      Conforms b plan.outputSchema
  | .scan _ path source schema, honest, b, h => by
    obtain ⟨batch, read, h⟩ := bind_eq_ok.mp h
    obtain rfl := Except.ok.inj h
    exact scan_conforms (honest ⟨path, source, schema⟩ (by simp [LogicalPlan.scans]) batch read)
  | .empty, _, b, h => by
    obtain rfl := Except.ok.inj h
    exact conforms_new Schema.empty
  | .project _ _ _, _, b, h => by
    obtain ⟨batch, _, h⟩ := bind_eq_ok.mp h
    exact applyProject_conforms h
  | .filter _ _ _, _, b, h => by
    obtain ⟨batch, _, h⟩ := bind_eq_ok.mp h
    exact applyFilter_conforms h
  | .aggregate _ _ _ _, _, b, h => by
    obtain ⟨batch, _, h⟩ := bind_eq_ok.mp h
    exact aggregateBatch_conforms h
  | .sort _ _ _, _, b, h => by
    obtain ⟨batch, _, h⟩ := bind_eq_ok.mp h
    exact applySort_conforms h
  | .limit _ _ _, _, b, h => by
    obtain ⟨batch, _, h⟩ := bind_eq_ok.mp h
    exact applyLimit_conforms h
  | .join _ _ _ _ _, _, b, h => by
    obtain ⟨batch, _, h⟩ := bind_eq_ok.mp h
    exact applyJoin_conforms h
  | .union [] schema, _, b, h => by
    obtain rfl := Except.ok.inj h
    exact conforms_new schema
  | .union (first :: rest) schema, honest, b, h => by
    obtain ⟨_, _, h⟩ := bind_eq_ok.mp h
    exact executeUnion_conforms ctx (first :: rest) honest schema (RecordBatch.new schema)
      (conforms_new schema) b h
  | .distinct _ _, _, b, h => by
    obtain ⟨batch, _, h⟩ := bind_eq_ok.mp h
    exact applyDistinct_conforms h

theorem executeUnion_conforms (ctx : ExecutionContext) :
    (inputs : List LogicalPlan) → SourcesConform ctx (scansOfAll inputs) → ∀ schema combined,
      Conforms combined schema → ∀ b, executeUnion ctx inputs combined = .ok b →
      Conforms b schema
  | [], _, _, combined, hc, b, h => by
    obtain rfl := Except.ok.inj h
    exact hc
  | input :: rest, honest, schema, combined, hc, b, h => by
    have both : SourcesConform ctx (input.scans ++ scansOfAll rest) := honest
    obtain ⟨here, later⟩ := sources_append both
    obtain ⟨one, ran, h⟩ := bind_eq_ok.mp h
    obtain ⟨more, extended, h⟩ := bind_eq_ok.mp h
    have valid := (execute_conforms_tree ctx input here one ran).2
    exact executeUnion_conforms ctx rest later schema more
      (extend_conforms hc valid extended) b h
end

/-- A result of a plan of any shape has the plan's output schema and valid records only. -/
theorem execute_conforms (ctx : ExecutionContext) (plan : LogicalPlan)
    (honest : SourcesConform ctx plan.scans) (b : RecordBatch) (h : execute ctx plan = .ok b) :
    b.schema = plan.outputSchema ∧
      ∀ r ∈ b.records, r.values.length = plan.outputSchema.fieldCount ∧
        ∀ p ∈ r.values.zip plan.outputSchema.fields, p.1 = .null → p.2.nullable = true := by
  obtain ⟨same, valid⟩ := execute_conforms_tree ctx plan honest b h
  refine ⟨same, fun r mem => ?_⟩
  obtain ⟨count, fits⟩ := same ▸ valid r mem
  refine ⟨count, fun p mem isNull => fits p mem ?_⟩
  rw [isNull]
  rfl

end Plans

section Witness

def peopleSchema : Schema := ⟨[Field.notNull "id" .int64, Field.new "name" .string]⟩

def peopleBatch : RecordBatch :=
  ⟨peopleSchema, [⟨[.int64 2, .null]⟩, ⟨[.int64 1, .string "ann"]⟩]⟩

def peopleContext : ExecutionContext := ⟨⟨fun _ => some ⟨fun _ _ => .ok peopleBatch⟩⟩⟩

def peopleScan : LogicalPlan := .scan "people" "people.csv" "csv" peopleSchema

def peopleUnion : LogicalPlan :=
  .union [.sort peopleScan [⟨.column "id", true⟩] peopleSchema,
    .filter peopleScan (.isNotNull (.column "name")) peopleSchema] peopleSchema

def peopleUnionResult : RecordBatch :=
  ⟨peopleSchema, [⟨[.int64 1, .string "ann"]⟩, ⟨[.int64 2, .null]⟩, ⟨[.int64 1, .string "ann"]⟩]⟩

theorem people_union_conforms :
    @execute noRegex peopleContext peopleUnion = .ok peopleUnionResult ∧
    peopleUnionResult.schema = peopleUnion.outputSchema := by
  have honest : SourcesConform peopleContext peopleUnion.scans := by
    intro r mem b h
    simp only [peopleUnion, peopleScan, LogicalPlan.scans, scansOfAll, List.append_nil,
      List.cons_append, List.nil_append, List.mem_cons, List.not_mem_nil, or_false, or_self] at mem
    subst mem
    obtain rfl : peopleBatch = b := Except.ok.inj h
    decide
  have ran : @execute noRegex peopleContext peopleUnion = .ok peopleUnionResult := by rfl
  exact ⟨ran, (@execute_conforms noRegex peopleContext peopleUnion honest _ ran).1⟩

end Witness

end RSparkSchemaContract
