import RSpark.Operators

/- The two predicate evaluators: HAVING looks aggregates up in the materialized row, and
   WHERE evaluates the same predicate with those columns written in. -/
namespace RSparkHavingAgreement
open RSparkValue RSparkBatch RSparkExpr RSparkPlan RSparkOperators

/-- An aggregate stands for its output column, named by the alias where it has one. -/
def replaceAggregates : Expr → Expr
  | .aggregate func arg distinct => .column (Expr.aggregate func arg distinct).displayName
  | .aliased (.aggregate _ _ _) name => .column name
  | .aliased expr name => .aliased (replaceAggregates expr) name
  | .binary op left right => .binary op (replaceAggregates left) (replaceAggregates right)
  | .not inner => .not (replaceAggregates inner)
  | .isNull inner => .isNull (replaceAggregates inner)
  | .isNotNull inner => .isNotNull (replaceAggregates inner)
  | .ifExpr cond thenExpr elseExpr =>
      .ifExpr (replaceAggregates cond) (replaceAggregates thenExpr) (replaceAggregates elseExpr)
  | other => other

/-- Every aggregate is reached from the root through binary nodes only, bare or directly
   under an alias. -/
def aggregatesOnSpine : Expr → Bool
  | .aggregate _ _ _ => true
  | .aliased (.aggregate _ _ _) _ => true
  | .binary _ left right => aggregatesOnSpine left && aggregatesOnSpine right
  | other => !other.containsAggregate

def spineOperators : Expr → List BinaryOp
  | .binary op left right => op :: (spineOperators left ++ spineOperators right)
  | _ => []

def spineNames : Expr → List String
  | .aggregate func arg distinct => [(Expr.aggregate func arg distinct).displayName]
  | .aliased (.aggregate _ _ _) name => [name]
  | .binary _ left right => spineNames left ++ spineNames right
  | _ => []

def isLogical : BinaryOp → Bool
  | .and | .or => true
  | _ => false

def supported : BinaryOp → Bool
  | .eq | .notEq | .lt | .ltEq | .gt | .gtEq | .and | .or => true
  | .add | .sub | .mul | .div | .mod | .like => false

def unsupportedOperator : BinaryOp → Error
  | .like => .type "LIKE is not yet supported in HAVING predicates"
  | op => .execution s!"unsupported binary op in predicate: {op.debugName}"

theorem replaceAggregates_of_none (e : Expr) (h : e.containsAggregate = false) :
    replaceAggregates e = e := by
  induction e with
  | aggregate func arg distinct _ => simp [Expr.containsAggregate] at h
  | aliased expr name ih =>
    cases expr with
    | aggregate func arg distinct => simp [Expr.containsAggregate] at h
    | _ => exact congrArg (Expr.aliased · name) (ih h)
  | binary op left right ihl ihr =>
    simp only [Expr.containsAggregate, Bool.or_eq_false_iff] at h
    simp only [replaceAggregates, ihl h.1, ihr h.2]
  | not inner ih => simp only [replaceAggregates, ih h]
  | isNull inner ih => simp only [replaceAggregates, ih h]
  | isNotNull inner ih => simp only [replaceAggregates, ih h]
  | ifExpr cond thenExpr elseExpr ihc iht ihe =>
    simp only [Expr.containsAggregate, Bool.or_eq_false_iff] at h
    simp only [replaceAggregates, ihc h.1.1, iht h.1.2, ihe h.2]
  | column name => rfl
  | literal lit => rfl
  | star => rfl

theorem shallow_of_none (e : Expr) (h : e.containsAggregate = false) :
    containsAggregate e = false := by
  induction e with
  | aggregate func arg distinct _ => simp [Expr.containsAggregate] at h
  | aliased expr name ih => exact ih h
  | binary op left right ihl ihr =>
    simp only [Expr.containsAggregate, Bool.or_eq_false_iff] at h
    simp [containsAggregate, ihl h.1, ihr h.2]
  | not inner ih => exact ih h
  | isNull inner ih => exact ih h
  | isNotNull inner ih => exact ih h
  | ifExpr cond thenExpr elseExpr _ _ _ => rfl
  | column name => rfl
  | literal lit => rfl
  | star => rfl

theorem not_contains_of_spine {e : Expr} (h : (!e.containsAggregate) = true) :
    e.containsAggregate = false := by
  simpa using h

/-- Where aggregates stand on the spine only, the shallow test for them is the deep one. -/
theorem containsAggregate_of_spine (e : Expr) (h : aggregatesOnSpine e = true) :
    containsAggregate e = e.containsAggregate := by
  induction e with
  | aggregate func arg distinct _ => rfl
  | aliased expr name ih =>
    cases expr with
    | aggregate func arg distinct => rfl
    | _ =>
      have none := not_contains_of_spine h
      rw [none, shallow_of_none _ none]
  | binary op left right ihl ihr =>
    simp only [aggregatesOnSpine, Bool.and_eq_true] at h
    simp only [containsAggregate, Expr.containsAggregate, ihl h.1, ihr h.2]
  | _ =>
    have none := not_contains_of_spine h
    rw [none, shallow_of_none _ none]

theorem isTruthValue_cases {v : Value} (h : boolOrNull v = true) (notNull : v.isNull = false) :
    ∃ b, v = .boolean b := by
  cases v <;> simp_all [boolOrNull, Value.isNull]

theorem applyBinaryOp_unsupported {op : BinaryOp} (h : supported op = false) (lv rv : Value) :
    applyBinaryOp op lv rv = err (unsupportedOperator op) := by
  cases op with
  | like => rfl
  | add => rfl
  | sub => rfl
  | mul => rfl
  | div => rfl
  | mod => rfl
  | _ => exact absurd h (by decide)

section Evaluation
variable [Regex]

/-- The operands of AND and OR on the spine are truth values wherever they have a value. -/
def LogicalOperands (record : Record) (batch : RecordBatch) : Expr → Prop
  | .binary op left right =>
      LogicalOperands record batch left ∧ LogicalOperands record batch right ∧
      (isLogical op = true →
        (∀ v, (replaceAggregates left).eval record batch = .ok v → boolOrNull v = true) ∧
        (∀ v, (replaceAggregates right).eval record batch = .ok v → boolOrNull v = true))
  | _ => True

/-- The expression has a value in WHERE that is not NULL. -/
def hasShownValue (record : Record) (batch : RecordBatch) (e : Expr) : Bool :=
  match (replaceAggregates e).eval record batch with
  | .ok v => !v.isNull
  | .error _ => false

/-- The operator of the first spine node, in the order of evaluation, that is LIKE or arithmetic
    and has two values to work on. -/
def refusedOperator (record : Record) (batch : RecordBatch) : Expr → Option BinaryOp
  | .binary op left right =>
      (refusedOperator record batch left).or
        (if ((replaceAggregates left).eval record batch).isOk then
          (refusedOperator record batch right).or
            (if !supported op && hasShownValue record batch left &&
              hasShownValue record batch right then some op else none)
        else none)
  | _ => none

theorem lookup_eq_column {name : String} {record : Record} {batch : RecordBatch}
    (known : name ∈ batch.schema.fieldNames) :
    lookupAggregate name record batch = (Expr.column name).eval record batch := by
  obtain ⟨idx, found⟩ := indexOf_of_mem known
  simp [lookupAggregate, Expr.eval, found, orError]

theorem applyBinaryOp_of_ok {op : BinaryOp} {lv rv v : Value} (ok : supported op = true)
    (notNull : (lv.isNull || rv.isNull) = false) (h : applyBinary op lv rv = .ok v) :
    applyBinaryOp op lv rv = .ok v := by
  cases op with
  | and => cases lv <;> cases rv <;> simp_all [applyBinary, logicalAnd, applyBinaryOp]
  | or => cases lv <;> cases rv <;> simp_all [applyBinary, logicalOr, applyBinaryOp]
  | eq => exact h
  | notEq => exact h
  | lt => exact h
  | ltEq => exact h
  | gt => exact h
  | gtEq => exact h
  | _ => exact absurd ok (by decide)

theorem applyBinaryOp_eq {op : BinaryOp} {lv rv : Value} (ok : supported op = true)
    (truth : isLogical op = true → boolOrNull lv = true ∧ boolOrNull rv = true)
    (notNull : (lv.isNull || rv.isNull) = false) :
    applyBinaryOp op lv rv = applyBinary op lv rv := by
  simp only [Bool.or_eq_false_iff] at notNull
  cases op with
  | and =>
    obtain ⟨a, rfl⟩ := isTruthValue_cases (truth rfl).1 notNull.1
    obtain ⟨b, rfl⟩ := isTruthValue_cases (truth rfl).2 notNull.2
    rfl
  | or =>
    obtain ⟨a, rfl⟩ := isTruthValue_cases (truth rfl).1 notNull.1
    obtain ⟨b, rfl⟩ := isTruthValue_cases (truth rfl).2 notNull.2
    rfl
  | eq => rfl
  | notEq => rfl
  | lt => rfl
  | ltEq => rfl
  | gt => rfl
  | gtEq => rfl
  | _ => exact absurd ok (by decide)

theorem substitute_of_none {e : Expr} {record : Record} {batch : RecordBatch}
    (notBinary : ∀ op l r, e ≠ .binary op l r) (none : e.containsAggregate = false) :
    substituteAggregates record batch e = e.eval record batch := by
  cases e with
  | aggregate func arg distinct => simp [Expr.containsAggregate] at none
  | aliased expr name =>
    cases expr with
    | aggregate func arg distinct => simp [Expr.containsAggregate] at none
    | _ => rfl
  | binary op left right => exact absurd rfl (notBinary op left right)
  | _ => rfl

theorem refused_left {record : Record} {batch : RecordBatch} {op : BinaryOp} {left right : Expr}
    (none' : refusedOperator record batch (.binary op left right) = none) :
    refusedOperator record batch left = none := by
  rw [refusedOperator, Option.or_eq_none_iff] at none'
  exact none'.1

theorem refused_binary {record : Record} {batch : RecordBatch} {op : BinaryOp}
    {left right : Expr} {lv : Value} (first : refusedOperator record batch left = none)
    (evaluated : (replaceAggregates left).eval record batch = .ok lv) :
    refusedOperator record batch (.binary op left right) =
      (refusedOperator record batch right).or
        (if !supported op && !lv.isNull && hasShownValue record batch right then some op
          else none) := by
  simp only [refusedOperator, first, Option.none_or, evaluated, Except.isOk, Except.toBool,
    if_true]
  rw [hasShownValue, evaluated]

theorem refused_right {record : Record} {batch : RecordBatch} {op : BinaryOp}
    {left right : Expr} {lv : Value}
    (none' : refusedOperator record batch (.binary op left right) = none)
    (evaluated : (replaceAggregates left).eval record batch = .ok lv) :
    refusedOperator record batch right = none := by
  rw [refused_binary (refused_left none') evaluated, Option.or_eq_none_iff] at none'
  exact none'.1

theorem refused_own {record : Record} {batch : RecordBatch} {op : BinaryOp}
    {left right : Expr} {lv rv : Value}
    (none' : refusedOperator record batch (.binary op left right) = none)
    (hl : (replaceAggregates left).eval record batch = .ok lv)
    (hr : (replaceAggregates right).eval record batch = .ok rv)
    (notNull : (lv.isNull || rv.isNull) = false) : supported op = true := by
  have right' := refused_right none' hl
  rw [refused_binary (refused_left none') hl, right'] at none'
  simp only [Bool.or_eq_false_iff] at notNull
  simpa [hasShownValue, hr, notNull.1, notNull.2] using none'

theorem substitute_of_ok (record : Record) (batch : RecordBatch) (e : Expr)
    (spine : aggregatesOnSpine e = true) (none' : refusedOperator record batch e = none)
    (known : ∀ name ∈ spineNames e, name ∈ batch.schema.fieldNames) (v : Value)
    (h : (replaceAggregates e).eval record batch = .ok v) :
    substituteAggregates record batch e = .ok v := by
  induction e generalizing v with
  | aggregate func arg distinct _ =>
    rw [← h]
    exact lookup_eq_column (known _ (by simp [spineNames]))
  | aliased expr name _ =>
    cases expr with
    | aggregate func arg distinct =>
      rw [← h]
      exact lookup_eq_column (known _ (by simp [spineNames]))
    | _ =>
      have none := not_contains_of_spine spine
      rw [replaceAggregates_of_none _ none] at h
      rw [substitute_of_none (by simp) none, h]
  | binary op left right ihl ihr =>
    simp only [aggregatesOnSpine, Bool.and_eq_true] at spine
    simp only [spineNames, List.mem_append] at known
    obtain ⟨lv, hl, h⟩ := bind_eq_ok.mp h
    obtain ⟨rv, hr, h⟩ := bind_eq_ok.mp h
    have left := ihl spine.1 (refused_left none') (fun n mem => known n (.inl mem)) lv hl
    have right := ihr spine.2 (refused_right none' hl) (fun n mem => known n (.inr mem)) rv hr
    simp only [substituteAggregates, left, right, ok_bind]
    unfold evalBinary at h
    split at h
    · rename_i anyNull
      rw [if_pos anyNull, h]
    · rename_i noNull
      rw [if_neg noNull]
      have notNull : (lv.isNull || rv.isNull) = false := by simpa using noNull
      exact applyBinaryOp_of_ok (refused_own none' hl hr notNull) notNull h
  | _ =>
    have none := not_contains_of_spine spine
    rw [replaceAggregates_of_none _ none] at h
    rw [substitute_of_none (by simp) none, h]

theorem substitute_of_refused (record : Record) (batch : RecordBatch) (e : Expr)
    (spine : aggregatesOnSpine e = true)
    (known : ∀ name ∈ spineNames e, name ∈ batch.schema.fieldNames) {op : BinaryOp}
    (refused : refusedOperator record batch e = some op) :
    supported op = false ∧ substituteAggregates record batch e = err (unsupportedOperator op) := by
  induction e with
  | binary op' left right ihl ihr =>
    simp only [aggregatesOnSpine, Bool.and_eq_true] at spine
    simp only [spineNames, List.mem_append] at known
    cases first : refusedOperator record batch left with
    | some op'' =>
      simp only [refusedOperator, first, Option.some_or] at refused
      obtain ⟨unsupported, failed⟩ := ihl spine.1 (fun n mem => known n (.inl mem))
        (first.trans refused)
      refine ⟨unsupported, ?_⟩
      rw [substituteAggregates, failed]
      rfl
    | none =>
      cases hl : (replaceAggregates left).eval record batch with
      | error e =>
        simp [refusedOperator, first, hl, Except.isOk, Except.toBool] at refused
      | ok lv =>
        have left := substitute_of_ok record batch left spine.1 first
          (fun n mem => known n (.inl mem)) lv hl
        rw [refused_binary first hl] at refused
        cases second : refusedOperator record batch right with
        | some op'' =>
          rw [second, Option.some_or] at refused
          obtain ⟨unsupported, failed⟩ := ihr spine.2 (fun n mem => known n (.inr mem))
            (second.trans refused)
          refine ⟨unsupported, ?_⟩
          rw [substituteAggregates, left, ok_bind, failed]
          rfl
        | none =>
          rw [second, Option.none_or, hasShownValue] at refused
          cases hr : (replaceAggregates right).eval record batch with
          | error e => simp [hr] at refused
          | ok rv =>
            have right := substitute_of_ok record batch right spine.2 second
              (fun n mem => known n (.inr mem)) rv hr
            simp only [hr, Option.ite_none_right_eq_some, Bool.and_eq_true, Bool.not_eq_true',
              Option.some.injEq] at refused
            obtain ⟨⟨⟨unsupported, shown⟩, shown'⟩, rfl⟩ := refused
            refine ⟨unsupported, ?_⟩
            simp [substituteAggregates, left, right, shown, shown',
              applyBinaryOp_unsupported unsupported]
  | _ => cases refused

theorem refused_none_of_supported (record : Record) (batch : RecordBatch) (e : Expr)
    (ops : ∀ op ∈ spineOperators e, supported op = true) :
    refusedOperator record batch e = none := by
  induction e with
  | binary op left right ihl ihr =>
    simp only [spineOperators, List.mem_cons, List.mem_append, forall_eq_or_imp] at ops
    have first := ihl fun op mem => ops.2 op (.inl mem)
    have second := ihr fun op mem => ops.2 op (.inr mem)
    simp [refusedOperator, first, second, ops.1]
  | _ => rfl

theorem substitute_eq_eval (record : Record) (batch : RecordBatch) (e : Expr)
    (spine : aggregatesOnSpine e = true) (none' : refusedOperator record batch e = none)
    (known : ∀ name ∈ spineNames e, name ∈ batch.schema.fieldNames)
    (logical : LogicalOperands record batch e) :
    substituteAggregates record batch e = (replaceAggregates e).eval record batch := by
  induction e with
  | aggregate func arg distinct _ => exact lookup_eq_column (known _ (by simp [spineNames]))
  | aliased expr name _ =>
    cases expr with
    | aggregate func arg distinct => exact lookup_eq_column (known _ (by simp [spineNames]))
    | _ =>
      have none := not_contains_of_spine spine
      rw [replaceAggregates_of_none _ none]
      exact substitute_of_none (by simp) none
  | binary op left right ihl ihr =>
    simp only [aggregatesOnSpine, Bool.and_eq_true] at spine
    simp only [spineNames, List.mem_append] at known
    obtain ⟨logicalL, logicalR, truth⟩ := logical
    have whole := ihl spine.1 (refused_left none') (fun n mem => known n (.inl mem)) logicalL
    simp only [substituteAggregates, replaceAggregates, Expr.eval, whole]
    cases hl : (replaceAggregates left).eval record batch with
    | error e => rfl
    | ok lv =>
      have whole' := ihr spine.2 (refused_right none' hl) (fun n mem => known n (.inr mem)) logicalR
      simp only [ok_bind, whole']
      cases hr : (replaceAggregates right).eval record batch with
      | error e => rfl
      | ok rv =>
        simp only [ok_bind, evalBinary]
        split
        · rfl
        · rename_i noNull
          have notNull : (lv.isNull || rv.isNull) = false := by simpa using noNull
          refine applyBinaryOp_eq (refused_own none' hl hr notNull) (fun isLog => ?_) notNull
          exact ⟨(truth isLog).1 lv hl, (truth isLog).2 rv hr⟩
  | _ =>
    have none := not_contains_of_spine spine
    rw [replaceAggregates_of_none _ none]
    exact substitute_of_none (by simp) none

def whereOutcome (record : Record) (batch : RecordBatch) (p : Expr) : Result Bool := do
  predicateResult (← (replaceAggregates p).eval record batch)

/-- A predicate without aggregates is evaluated as in WHERE. One whose aggregates stand on the
    spine is refused for LIKE or arithmetic there, however deep, once both operands have a value.
    Otherwise it has the WHERE value wherever there is one, and the WHERE error too as long as AND
    and OR meet truth values. -/
theorem having_agrees (record : Record) (batch : RecordBatch) (p : Expr)
    (spine : aggregatesOnSpine p = true)
    (known : ∀ name ∈ spineNames p, name ∈ batch.schema.fieldNames) :
    (p.containsAggregate = false →
      evalPredicate p record batch = whereOutcome record batch p) ∧
    ((∀ op ∈ spineOperators p, supported op = true) → refusedOperator record batch p = none) ∧
    (refusedOperator record batch p = none →
      (∀ v, (replaceAggregates p).eval record batch = .ok v →
        evalPredicate p record batch = predicateResult v) ∧
      (LogicalOperands record batch p →
        evalPredicate p record batch = whereOutcome record batch p)) ∧
    (∀ op, refusedOperator record batch p = some op → p.containsAggregate = true →
      supported op = false ∧ evalPredicate p record batch = err (unsupportedOperator op)) := by
  have shallow := containsAggregate_of_spine p spine
  have plain : p.containsAggregate = false →
      evalPredicate p record batch = whereOutcome record batch p := by
    intro none
    rw [whereOutcome, replaceAggregates_of_none p none]
    simp [evalPredicate, shallow, none]
  refine ⟨plain, refused_none_of_supported record batch p,
    fun none' => ⟨fun v h => ?_, fun logical => ?_⟩, ?_⟩
  · cases any : p.containsAggregate with
    | false => rw [plain any, whereOutcome, h, ok_bind]
    | true =>
      simp [evalPredicate, shallow, any, substitute_of_ok record batch p spine none' known v h]
  · cases any : p.containsAggregate with
    | false => exact plain any
    | true =>
      simp [evalPredicate, shallow, any, whereOutcome,
        substitute_eq_eval record batch p spine none' known logical]
  · intro op refused any
    obtain ⟨unsupported, failed⟩ := substitute_of_refused record batch p spine known refused
    refine ⟨unsupported, ?_⟩
    rw [evalPredicate, shallow, any, if_pos rfl, failed]
    rfl

end Evaluation

section Witness

def totalSchema : Schema := ⟨[Field.new "g" .string, Field.new "count(x)" .int64]⟩
def totalBatch : RecordBatch := ⟨totalSchema, []⟩
def totalRecord : Record := ⟨[.string "a", .int64 3]⟩
def countX : Expr := .aggregate .count (.column "x") false

def bigGroupA : Expr :=
  .binary .and (.binary .gt countX (.literal (.int 1)))
    (.binary .eq (.column "g") (.literal (.str "a")))

def countPlusOne : Expr :=
  .binary .gt (.binary .add countX (.literal (.int 1))) (.literal (.int 2))

theorem big_group_a_kept :
    @evalPredicate noRegex bigGroupA totalRecord totalBatch = .ok true ∧
      @evalPredicate noRegex countPlusOne totalRecord totalBatch =
        err (unsupportedOperator .add) := by
  have agrees := @having_agrees noRegex totalRecord totalBatch bigGroupA (by decide) (by decide)
  have refuses := @having_agrees noRegex totalRecord totalBatch countPlusOne (by decide) (by decide)
  exact ⟨(agrees.2.2.1 (agrees.2.1 (by decide))).1 (.boolean true) rfl,
    (refuses.2.2.2 .add rfl rfl).2⟩

theorem count_plus_one_refused :
    @evalPredicate noRegex countPlusOne totalRecord totalBatch =
        err (.execution "unsupported binary op in predicate: Add") ∧
      (@Expr.eval noRegex totalRecord totalBatch (replaceAggregates countPlusOne)) =
        .ok (.boolean true) := by
  exact ⟨rfl, rfl⟩

end Witness

end RSparkHavingAgreement
