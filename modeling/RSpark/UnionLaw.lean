import RSpark.SchemaContract
import RSpark.Planner

/- UNION and UNION ALL of two SELECTs against the rows that each returns by itself. -/
namespace RSparkUnionLaw
open RSparkValue RSparkBatch RSparkExpr RSparkPlan RSparkOperators RSparkExecutor RSparkSqlAst
open RSparkExprBuilder RSparkPlanner RSparkSchemaContract

/-- `A UNION B` or `A UNION ALL B`, without a clause of its own. -/
def unionQuery (quantifier : SetQuantifier) (a b : Select) : Query :=
  .mk false (.setOperation .union quantifier (.select a) (.select b)) none none none

/-- Under the left names: all rows one after the other, or every distinct row once. -/
def UnionOf (quantifier : SetQuantifier) (left right out : RecordBatch) : Prop :=
  out.schema.fieldNames = left.schema.fieldNames ∧
    match quantifier with
    | .all => out.records = left.records ++ right.records
    | .distinct | .none => out.records.Nodup ∧
        ∀ r, r ∈ out.records ↔ r ∈ left.records ∨ r ∈ right.records

def removesRepeats : SetQuantifier → Bool
  | .all => false
  | .distinct | .none => true

section Planning

def isSelectRoot : LogicalPlan → Bool
  | .project _ _ _ | .filter _ _ _ | .distinct _ _ => true
  | _ => false

theorem planSelect_root {select : Select} {catalog : Catalog} {plan : LogicalPlan}
    (planned : planSelect select catalog = .ok plan) : isSelectRoot plan = true := by
  obtain ⟨_, _, _, _, _, _, _, _, shaped⟩ := planSelect_shaped planned
  cases shaped with
  | grouped _ having =>
    cases having with
    | same => rfl
    | filter predicate => rfl
  | distinct => rfl
  | plain => rfl

variable [SqlParser]

theorem planQuery_union {quantifier : SetQuantifier} {a b : Select} {catalog : Catalog}
    {planA planB : LogicalPlan} (plannedA : planSelect a catalog = .ok planA)
    (plannedB : planSelect b catalog = .ok planB) :
    planQuery catalog (unionQuery quantifier a b) =
      .ok (.union [planA, planB] planA.outputSchema) := by
  simp only [unionQuery, planQuery, planSetExpr, plannedA, plannedB, ok_bind, Bool.false_eq_true,
    if_false, Option.getD_none, buildSortKeys, planLimit, planSort, List.isEmpty_nil, if_true]

end Planning

section Execution
variable [Regex] {ctx : ExecutionContext}

theorem execute_root {plan : LogicalPlan} (root : isSelectRoot plan = true) {b : RecordBatch}
    (ran : execute ctx plan = .ok b) : b.schema = plan.outputSchema := by
  cases plan with
  | project input expressions schema =>
    obtain ⟨batch, _, ran⟩ := bind_eq_ok.mp ran
    exact (applyProject_conforms ran).1
  | filter input predicate schema =>
    obtain ⟨batch, _, ran⟩ := bind_eq_ok.mp ran
    exact (applyFilter_conforms ran).1
  | distinct input schema =>
    obtain ⟨batch, _, ran⟩ := bind_eq_ok.mp ran
    exact (applyDistinct_conforms ran).1
  | _ => exact nomatch root

theorem execute_union {planA planB : LogicalPlan} {left right : RecordBatch}
    (ranA : execute ctx planA = .ok left) (ranB : execute ctx planB = .ok right)
    (schema : left.schema = planA.outputSchema) :
    execute ctx (.union [planA, planB] planA.outputSchema) =
      if left.schema = right.schema then .ok ⟨left.schema, left.records ++ right.records⟩
      else err (.schema "cannot extend RecordBatch with mismatched schema") := by
  have first : (RecordBatch.new planA.outputSchema).extend left = .ok left :=
    extend_eq_ok.mpr ⟨schema.symm, by rw [← schema]; rfl⟩
  simp only [execute, executeUnion, ranA, ranB, ok_bind, first]
  by_cases same : left.schema = right.schema
  · rw [if_pos same, extend_eq_ok.mpr ⟨same, rfl⟩]
    rfl
  · rw [if_neg same, RecordBatch.extend, if_pos same]
    rfl

variable [SqlParser]

/-- A union returns what it should exactly when both sides come under one schema, and, where
    repeats are to be removed, there are none. -/
theorem union_returned_iff (ctx : ExecutionContext) (catalog : Catalog)
    (quantifier : SetQuantifier) (a b : Select) (planA planB : LogicalPlan)
    (left right : RecordBatch) (plannedA : planSelect a catalog = .ok planA)
    (plannedB : planSelect b catalog = .ok planB) (ranA : execute ctx planA = .ok left)
    (ranB : execute ctx planB = .ok right) :
    (∃ plan out, planQuery catalog (unionQuery quantifier a b) = .ok plan ∧
      execute ctx plan = .ok out ∧ UnionOf quantifier left right out) ↔
    left.schema = right.schema ∧
      (removesRepeats quantifier = true → (left.records ++ right.records).Nodup) := by
  have schema := execute_root (planSelect_root plannedA) ranA
  have executed := execute_union ranA ranB schema
  constructor
  · rintro ⟨plan, out, planned, ran, correct⟩
    obtain rfl := Except.ok.inj ((planQuery_union plannedA plannedB).symm.trans planned)
    rw [executed] at ran
    split at ran
    · rename_i same
      obtain rfl := Except.ok.inj ran
      refine ⟨same, fun once => ?_⟩
      cases quantifier with
      | all => exact nomatch once
      | distinct => exact correct.2.1
      | none => exact correct.2.1
    · exact absurd ran (err_ne_ok _ _)
  · rintro ⟨same, once⟩
    refine ⟨_, ⟨left.schema, left.records ++ right.records⟩,
      planQuery_union plannedA plannedB, executed.trans (if_pos same), rfl, ?_⟩
    cases quantifier with
    | all => rfl
    | distinct => exact ⟨once rfl, fun r => List.mem_append⟩
    | none => exact ⟨once rfl, fun r => List.mem_append⟩

end Execution

section Witness

def wordSchema : Schema := ⟨[.new "word" .string]⟩

def words (path : String) : RecordBatch :=
  if path = "early.csv" then ⟨wordSchema, [⟨[.string "ant"]⟩, ⟨[.string "bee"]⟩]⟩
  else ⟨wordSchema, [⟨[.string "bee"]⟩, ⟨[.string "cat"]⟩]⟩

def wordContext : ExecutionContext := ⟨⟨fun _ => some ⟨fun path _ => .ok (words path)⟩⟩⟩

def wordCatalog : Catalog where
  tableSchema _ := .ok wordSchema
  tableLocation name := .ok (s!"{name}.csv", "csv")

/-- `SELECT word FROM name` -/
def wordsOf (name : String) : Select :=
  ⟨none, [.unnamedExpr (.identifier ⟨"word"⟩)], [⟨.table ⟨[⟨name⟩], name⟩ none, []⟩], none,
    .expressions [], none⟩

def wordPlan (name : String) : LogicalPlan :=
  .project (.scan name s!"{name}.csv" "csv" wordSchema) [.column "word"] wordSchema

/-- UNION ALL keeps the word of both tables twice. -/
theorem words_united_all : ∃ plan out,
    @planQuery noParser wordCatalog (unionQuery .all (wordsOf "early") (wordsOf "late")) =
      .ok plan ∧ @execute noRegex wordContext plan = .ok out ∧
      UnionOf .all (words "early.csv") (words "late.csv") out :=
  (@union_returned_iff noRegex noParser wordContext wordCatalog .all (wordsOf "early")
    (wordsOf "late") (wordPlan "early") (wordPlan "late") _ _ rfl rfl rfl rfl).mpr
      ⟨rfl, fun removes => (nomatch removes)⟩

/-- UNION keeps it twice as well. -/
theorem repeated_word_kept :
    ¬ ∀ (ctx : ExecutionContext) (catalog : Catalog) (a b : Select) (planA planB : LogicalPlan)
      (left right : RecordBatch), planSelect a catalog = .ok planA →
      planSelect b catalog = .ok planB → @execute noRegex ctx planA = .ok left →
      @execute noRegex ctx planB = .ok right →
      left.schema.fieldCount = right.schema.fieldCount →
      ∃ plan out, @planQuery noParser catalog (unionQuery .none a b) = .ok plan ∧
        @execute noRegex ctx plan = .ok out ∧ UnionOf .none left right out := by
  intro claim
  obtain ⟨plan, out, planned, ran, _, once, _⟩ := claim wordContext wordCatalog
    (wordsOf "early") (wordsOf "late") (wordPlan "early") (wordPlan "late")
    (words "early.csv") (words "late.csv") rfl rfl rfl rfl rfl
  have known := @planQuery_union noParser .none (wordsOf "early") (wordsOf "late") wordCatalog
    (wordPlan "early") (wordPlan "late") rfl rfl
  obtain rfl := Except.ok.inj (known.symm.trans planned)
  have both := @execute_union noRegex wordContext (wordPlan "early") (wordPlan "late")
    (words "early.csv") (words "late.csv") rfl rfl rfl
  obtain rfl := Except.ok.inj (both.symm.trans ran)
  exact absurd once (by decide)

end Witness

end RSparkUnionLaw
