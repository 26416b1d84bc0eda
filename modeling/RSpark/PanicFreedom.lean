import RSpark.JsonSource
import RSpark.Overflow
import RSpark.PlanTraversals
import RSpark.SqlEndpoint
import RSpark.WorkerPlanning

/- Requests that are always answered. Integer arithmetic is the only thing in a statement that
   stops its evaluation, so a statement without any is answered whatever its tables hold. Sorted
   statements are left out: the sort of the standard library may stop where the comparator orders
   the keys inconsistently, which NULLs and mixed types make it do. -/
namespace RSparkPanicFreedom
open RSparkValue RSparkBatch RSparkExpr RSparkPlan RSparkSqlAst RSparkExprBuilder RSparkPlanner
open RSparkOperators RSparkExecutor RSparkClusterState RSparkMaster RSparkApi RSparkMasterSteps
open RSparkSqlEndpoint RSparkPlanTraversals RSparkOverflow RSparkWorkerPlanning RSparkFlowOutput
open RSparkCsvSource RSparkNdjson RSparkJsonSource Calls CheckedRuns

section Expressions

def computesIntegers : BinaryOp → Bool
  | .add | .sub | .mul | .mod => true
  | _ => false

def Unchecked : Expr → Prop
  | .binary op left right => computesIntegers op = false ∧ Unchecked left ∧ Unchecked right
  | .not inner | .isNull inner | .isNotNull inner | .aliased inner _ => Unchecked inner
  | .ifExpr cond thenExpr elseExpr => Unchecked cond ∧ Unchecked thenExpr ∧ Unchecked elseExpr
  | .aggregate _ arg _ => Unchecked arg
  | .column _ | .literal _ | .star => True

theorem operatorFits_of_not {op : BinaryOp} (other : computesIntegers op = false)
    (left right : Value) : OperatorFits op left right := by
  intro a b _ _
  cases op with
  | add | sub | mul | mod => exact nomatch other
  | _ => exact trivial

variable [Regex]

theorem fits_of_unchecked (record : Record) (batch : RecordBatch) {e : Expr}
    (unchecked : Unchecked e) : Fits record batch e := by
  induction e with
  | binary op left right ihl ihr =>
    obtain ⟨other, isLeft, isRight⟩ := unchecked
    refine ⟨ihl isLeft, fun lv _ => ⟨ihr isRight, fun rv _ => ?_⟩⟩
    exact operatorFits_of_not other lv rv
  | ifExpr cond thenExpr elseExpr ihc iht ihe =>
    obtain ⟨isCond, isThen, isElse⟩ := unchecked
    refine ⟨ihc isCond, fun c _ => ?_⟩
    split
    · exact iht isThen
    · exact ihe isElse
  | not inner ih => exact ih unchecked
  | isNull inner ih => exact ih unchecked
  | isNotNull inner ih => exact ih unchecked
  | aliased inner name ih => exact ih unchecked
  | column name => exact trivial
  | literal lit => exact trivial
  | aggregate func arg distinct => exact trivial
  | star => exact trivial

theorem eval_total {e : Expr} (unchecked : Unchecked e) (record : Record) (batch : RecordBatch) :
    Total IsAbort (e.eval record batch) :=
  (eval_guarded record batch e).total_iff.mpr (fits_of_unchecked record batch unchecked)

end Expressions

section Operators
variable (batch : RecordBatch)

theorem applyBinaryOp_total (op : BinaryOp) (l r : Value) :
    Total IsAbort (applyBinaryOp op l r) := by
  have compared (test : Ordering → Bool) : Total IsAbort (compareWith test l r) :=
    total_bind (tryCmp_total l r) fun _ => total_ok _
  cases op with
  | lt => exact compared _
  | ltEq => exact compared _
  | gt => exact compared _
  | gtEq => exact compared _
  | and =>
    simp only [applyBinaryOp]
    split
    · exact total_ok _
    · exact total_ok _
  | or =>
    simp only [applyBinaryOp]
    split
    · exact total_ok _
    · exact total_ok _
  | eq => exact total_ok _
  | notEq => exact total_ok _
  | _ => exact err_total _

theorem lookup_total (x : Option Nat) (e : Error) (record : Record) :
    Total IsAbort (do let idx ← orError x e; .ok (record.getOrNull idx)) :=
  total_bind (orError_total x e) fun _ => total_ok _

theorem predicateResult_total (v : Value) : Total IsAbort (predicateResult v) := by
  unfold predicateResult
  split
  · exact total_ok _
  · exact total_ok _
  · exact err_total _

theorem validate_total (record : Record) (schema : Schema) :
    Total IsAbort (record.validate schema) := by
  have each (idx : Nat) (vs : List Value) (fs : List Field) :
      Total IsAbort (validateFields idx vs fs) := by
    induction vs generalizing idx fs with
    | nil => cases fs <;> exact total_ok _
    | cons v vs ih =>
      cases fs with
      | nil => exact total_ok _
      | cons f fs =>
        rw [validateFields]
        split
        · exact err_total _
        · exact ih _ _
  unfold Record.validate
  split
  · exact err_total _
  · exact each _ _ _

theorem fromRecords_total (schema : Schema) (records : List Record) :
    Total IsAbort (RecordBatch.fromRecords schema records) := by
  have all : Total IsAbort (validateAll schema records) := by
    induction records with
    | nil => exact total_ok _
    | cons r rs ih => exact total_bind (validate_total r schema) fun _ => ih
  exact total_bind all fun _ => total_ok _

theorem aggregateArg_unchecked {e inner : Expr} {distinct : Bool} (unchecked : Unchecked e)
    (picked : aggregateArg e = some (inner, distinct)) : Unchecked inner := by
  unfold aggregateArg at picked
  split at picked
  · cases picked
    exact unchecked
  · cases picked
    exact unchecked
  · cases picked

theorem extend_total (b b' : RecordBatch) : Total IsAbort (b.extend b') := by
  unfold RecordBatch.extend
  split
  · exact err_total _
  · exact total_ok _

theorem applyJoin_total (leftSchema : Schema) (on : List (String × String)) (how : JoinType)
    (schema : Schema) {right : Result RecordBatch} (total : Total IsAbort right) :
    Total IsAbort (applyJoin leftSchema on how schema batch right) := by
  refine total_bind (extend_total _ _) fun left => total_bind total fun right => ?_
  refine total_bind ?_ fun _ => fromRecords_total schema _
  unfold joinBatches
  split
  · exact err_total _
  · exact fromRecords_total _ _

variable [Regex]

theorem substituteAggregates_total (record : Record) {e : Expr} (unchecked : Unchecked e) :
    Total IsAbort (substituteAggregates record batch e) := by
  induction e with
  | aggregate func arg distinct => exact lookup_total _ _ record
  | aliased inner name =>
    cases inner with
    | aggregate func arg distinct => exact lookup_total _ _ record
    | _ => exact eval_total (e := .aliased _ name) unchecked record batch
  | binary op left right ihl ihr =>
    refine total_bind (ihl unchecked.2.1) fun lv => total_bind (ihr unchecked.2.2) fun rv => ?_
    split
    · exact total_ok _
    · exact applyBinaryOp_total op lv rv
  | _ => exact eval_total unchecked record batch

theorem evalPredicate_total (record : Record) {predicate : Expr}
    (unchecked : Unchecked predicate) : Total IsAbort (evalPredicate predicate record batch) := by
  unfold evalPredicate
  split
  · exact total_bind (substituteAggregates_total batch record unchecked) predicateResult_total
  · exact total_bind (eval_total unchecked record batch) predicateResult_total

theorem projectValues_total (record : Record) {e : Expr} (unchecked : Unchecked e) :
    Total IsAbort (projectValues record batch e) := by
  unfold projectValues
  split
  · exact total_ok _
  · exact total_bind (lookup_total _ _ record) fun _ => total_ok _
  · exact total_bind (lookup_total _ _ record) fun _ => total_ok _
  · exact total_bind (eval_total unchecked record batch) fun _ => total_ok _
  · exact total_bind (eval_total unchecked record batch) fun _ => total_ok _

theorem projectAll_total (record : Record) {es : List Expr} (unchecked : ∀ e ∈ es, Unchecked e) :
    Total IsAbort (projectAll record batch es) := by
  induction es with
  | nil => exact total_ok _
  | cons e es ih =>
    obtain ⟨first, rest⟩ := List.forall_mem_cons.mp unchecked
    exact total_bind (projectValues_total batch record first) fun _ =>
      total_bind (ih rest) fun _ => total_ok _

theorem evalAll_total (record : Record) {es : List Expr} (unchecked : ∀ e ∈ es, Unchecked e) :
    Total IsAbort (evalAll record batch es) := by
  induction es with
  | nil => exact total_ok _
  | cons e es ih =>
    obtain ⟨first, rest⟩ := List.forall_mem_cons.mp unchecked
    exact total_bind (eval_total first record batch) fun _ =>
      total_bind (ih rest) fun _ => total_ok _

theorem applyProject_total {es : List Expr} (unchecked : ∀ e ∈ es, Unchecked e)
    (schema : Schema) : Total IsAbort (applyProject es schema batch) := by
  have each (records : List Record) : Total IsAbort (projectRecords es batch schema records) := by
    induction records with
    | nil => exact total_ok _
    | cons r rs ih =>
      refine total_bind ?_ fun _ => total_bind ih fun _ => total_ok _
      exact total_bind (projectAll_total batch r unchecked) fun _ =>
        total_bind (validate_total _ schema) fun _ => total_ok _
  unfold applyProject
  split
  · exact fromRecords_total schema _
  · exact total_bind (each _) fun _ => fromRecords_total schema _

theorem applyFilter_total {predicate : Expr} (unchecked : Unchecked predicate)
    (schema : Schema) : Total IsAbort (applyFilter predicate schema batch) := by
  have each (records : List Record) : Total IsAbort (filterRecords predicate batch records) := by
    induction records with
    | nil => exact total_ok _
    | cons r rs ih =>
      exact total_bind (evalPredicate_total batch r unchecked) fun _ =>
        total_bind ih fun _ => total_ok _
  exact total_bind (each _) fun _ => fromRecords_total schema _

theorem updateAccumulators_total (record : Record) {es : List Expr}
    (unchecked : ∀ e ∈ es, Unchecked e) (accs : List Accumulator) :
    Total IsAbort (updateAccumulators record batch es accs) := by
  induction es generalizing accs with
  | nil => exact total_ok _
  | cons e es ih =>
    obtain ⟨first, rest⟩ := List.forall_mem_cons.mp unchecked
    cases accs with
    | nil => exact total_ok _
    | cons acc accs =>
      rw [updateAccumulators]
      split
      · exact total_bind (ih rest accs) fun _ => total_ok _
      · rename_i inner distinct picked
        refine total_bind ?_ fun _ => total_bind (ih rest accs) fun _ => total_ok _
        exact eval_total (aggregateArg_unchecked first picked) record batch

theorem aggregateBatch_total {groupExprs aggregateExprs : List Expr}
    (groups : ∀ e ∈ groupExprs, Unchecked e) (aggregates : ∀ e ∈ aggregateExprs, Unchecked e)
    (schema : Schema) :
    Total IsAbort (aggregateBatch groupExprs aggregateExprs batch schema) := by
  have each (records : List Record) (entered : Groups) : Total IsAbort
      (aggregateRecords groupExprs aggregateExprs batch entered records) := by
    induction records generalizing entered with
    | nil => exact total_ok _
    | cons r rs ih =>
      refine total_bind ?_ ih
      exact total_bind (evalAll_total batch r groups) fun _ =>
        total_bind (updateAccumulators_total batch r aggregates _) fun _ => total_ok _
  exact total_bind (each _ _) fun _ => fromRecords_total schema _

end Operators

section Plans

/-- The expressions of the node compute with no integers, and it does not sort. -/
def PlainNode : LogicalPlan → Prop
  | .project _ expressions _ => ∀ e ∈ expressions, Unchecked e
  | .filter _ predicate _ => Unchecked predicate
  | .aggregate _ groupExprs aggregateExprs _ =>
      (∀ e ∈ groupExprs, Unchecked e) ∧ ∀ e ∈ aggregateExprs, Unchecked e
  | .sort _ _ _ => False
  | .scan _ _ _ _ | .limit _ _ _ | .join _ _ _ _ _ | .union _ _ | .distinct _ _ | .empty => True

def PlainPlan (plan : LogicalPlan) : Prop := ∀ n ∈ nodes plan, PlainNode n

theorem plainPlan_iff {plan : LogicalPlan} :
    PlainPlan plan ↔ PlainNode plan ∧ ∀ c ∈ plan.children, PlainPlan c := by
  unfold PlainPlan
  rw [nodes_eq plan, List.forall_mem_cons, List.forall_mem_flatMap]

def Readable (ctx : ExecutionContext) : Prop :=
  ∀ name source, ctx.sourceRegistry.sources name = some source →
    ∀ path schema, Total IsAbort (source.scan path schema)

variable {ctx : ExecutionContext} {exec : LogicalPlan → Result RecordBatch}

theorem scanSource_total (readable : Readable ctx) (path source : String) (schema : Schema) :
    Total IsAbort (scanSource ctx path source schema) := by
  unfold scanSource SourceRegistry.get
  cases found : ctx.sourceRegistry.sources source with
  | none => exact err_total _
  | some src => exact readable source src found path _

theorem unionAll_total {inputs : List LogicalPlan} (each : ∀ c ∈ inputs, Total IsAbort (exec c))
    (combined : RecordBatch) : Total IsAbort (unionAll exec inputs combined) := by
  induction inputs generalizing combined with
  | nil => exact total_ok _
  | cons input rest ih =>
    obtain ⟨first, later⟩ := List.forall_mem_cons.mp each
    exact total_bind first fun b => total_bind (extend_total _ b) fun _ => ih later _

theorem materializeInput_total (readable : Readable ctx) (plan : LogicalPlan)
    (below : ∀ c ∈ plan.children, Total IsAbort (exec c)) :
    Total IsAbort (materializeInput ctx exec plan) := by
  unfold materializeInput
  split
  · exact scanSource_total readable _ _ _
  · exact total_ok _
  · split
    · rename_i child rest children
      exact below child (children ▸ List.mem_cons_self)
    · exact total_ok _

variable [Regex]

theorem applyTree_total {plan : LogicalPlan} (plain : PlainNode plan)
    (below : ∀ c ∈ plan.children, Total IsAbort (exec c)) (batch : RecordBatch) :
    Total IsAbort (applyTree exec plan batch) := by
  cases plan with
  | scan tableName path source schema => exact total_ok _
  | empty => exact total_ok _
  | project input expressions schema => exact applyProject_total batch plain schema
  | filter input predicate schema => exact applyFilter_total batch plain schema
  | aggregate input groupExprs aggregateExprs schema =>
    exact aggregateBatch_total batch plain.1 plain.2 schema
  | sort input order schema => exact plain.elim
  | limit input count schema =>
    exact total_bind (fromRecords_total _ _) fun _ => fromRecords_total schema _
  | join left right on how schema =>
    exact applyJoin_total batch _ on how schema (below right (by simp [LogicalPlan.children]))
  | union inputs schema => exact unionAll_total below _
  | distinct input schema => exact fromRecords_total schema _

theorem execute_total (readable : Readable ctx) (plan : LogicalPlan) :
    PlainPlan plan → Total IsAbort (execute ctx plan) := by
  refine plan_induct (fun plan => PlainPlan plan → Total IsAbort (execute ctx plan)) ?_ plan
  intro plan ih plain
  obtain ⟨node, inputs⟩ := plainPlan_iff.mp plain
  have below (c : LogicalPlan) (mem : c ∈ plan.children) : Total IsAbort (execute ctx c) :=
    ih c mem (inputs c mem)
  rw [execute_eq]
  exact total_bind (materializeInput_total readable plan below) (applyTree_total node below)

end Plans

section Translation

mutual
/-- No operator of the parsed expression computes with integers, and its dotted names have
    parts, as every name that was parsed has. -/
def plainExpr : SqlExpr → Bool
  | .compoundIdentifier parts => !parts.isEmpty
  | .binaryOp left op right =>
      (fromSql op).all (!computesIntegers ·) && plainExpr left && plainExpr right
  | .unaryOp op expr => op ≠ .minus && plainExpr expr
  | .isNull inner => plainExpr inner
  | .isNotNull inner => plainExpr inner
  | .isTrue inner => plainExpr inner
  | .isFalse inner => plainExpr inner
  | .isNotTrue inner => plainExpr inner
  | .isNotFalse inner => plainExpr inner
  | .nested inner => plainExpr inner
  | .cast inner => plainExpr inner
  | .like _ expr pattern => plainExpr expr && plainExpr pattern
  | .iLike _ expr pattern => plainExpr expr && plainExpr pattern
  | .between expr _ low high => plainExpr expr && plainExpr low && plainExpr high
  | .inList expr list _ => plainExpr expr && plainExprs list
  | .function _ args => plainArguments args
  | .identifier _ => true
  | .wildcard => true
  | .qualifiedWildcard _ => true
  | .value _ => true
  | .subquery => true
  | .other _ => true

def plainExprs : List SqlExpr → Bool
  | [] => true
  | e :: rest => plainExpr e && plainExprs rest

def plainArguments : FunctionArguments → Bool
  | .none => true
  | .subquery => true
  | .list args _ => plainArgList args

def plainArgList : List FunctionArg → Bool
  | [] => true
  | arg :: rest => plainArg arg && plainArgList rest

def plainArg : FunctionArg → Bool
  | .unnamed (.expr e) => plainExpr e
  | .named (.expr e) => plainExpr e
  | .unnamed _ => true
  | .named _ => true
  | .exprNamed => true
end

def PlainSpec : ArgSpec → Prop
  | .expr e => Unchecked e
  | .wildcard => True

theorem negate_unchecked {e : Expr} (unchecked : Unchecked e) (negated : Bool) :
    Unchecked (negate negated e) := by
  cases negated with
  | false => exact unchecked
  | true => exact unchecked

theorem binary_unchecked {op : BinaryOp} {l r : Expr} (other : (!computesIntegers op) = true)
    (isL : Unchecked l) (isR : Unchecked r) : Unchecked (.binary op l r) :=
  ⟨Bool.not_eq_true' _ ▸ other, isL, isR⟩

theorem like_unchecked {e p : Expr} (isE : Unchecked e) (isP : Unchecked p) :
    Unchecked (.binary .like e p) := binary_unchecked rfl isE isP

theorem between_unchecked {e l h : Expr} (isE : Unchecked e) (isL : Unchecked l)
    (isH : Unchecked h) :
    Unchecked (.binary .and (.binary .gtEq e l) (.binary .ltEq e h)) :=
  binary_unchecked rfl (binary_unchecked rfl isE isL) (binary_unchecked rfl isE isH)

theorem coalesceChain_unchecked {acc : Expr} {rest : List Expr} (first : Unchecked acc)
    (later : ∀ e ∈ rest, Unchecked e) : Unchecked (coalesceChain acc rest) := by
  induction rest generalizing acc with
  | nil => exact first
  | cons next rest ih =>
    obtain ⟨isNext, isRest⟩ := List.forall_mem_cons.mp later
    exact ih ⟨first, first, isNext⟩ isRest

theorem inListPredicate_unchecked {target : Expr} {items : List Expr}
    (isTarget : Unchecked target) (each : ∀ e ∈ items, Unchecked e) :
    Unchecked (inListPredicate target items) := by
  cases items with
  | nil => exact trivial
  | cons item items =>
    obtain ⟨first, later⟩ := List.forall_mem_cons.mp each
    have folds (acc : Expr) (folded : Unchecked acc) : Unchecked (items.foldl
        (fun prev item => .binary .or prev (.binary .eq target item)) acc) := by
      induction items generalizing acc with
      | nil => exact folded
      | cons next items ih =>
        obtain ⟨isNext, isRest⟩ := List.forall_mem_cons.mp later
        refine ih (List.forall_mem_cons.mpr ⟨first, isRest⟩) isRest _ ?_
        exact ⟨rfl, folded, rfl, isTarget, isNext⟩
    exact folds _ ⟨rfl, isTarget, first⟩

theorem err_yields {α : Type} {P : α → Prop} (e : Error) : Yields IsAbort P (err e : Result α) :=
  ⟨err_total e, nofun⟩

theorem scalarFunction_yields (name : String) {args : List Expr}
    (each : ∀ e ∈ args, Unchecked e) : Yields IsAbort Unchecked (scalarFunction name args) := by
  unfold scalarFunction
  split
  · split
    · exact yields_ok trivial
    · rename_i first rest
      obtain ⟨isFirst, isRest⟩ := List.forall_mem_cons.mp each
      exact yields_ok (coalesceChain_unchecked isFirst isRest)
  · split
    · rename_i expr2 expr1
      obtain ⟨second, first⟩ := List.forall_mem_cons.mp each
      have first := List.forall_mem_singleton.mp first
      exact yields_ok ⟨first, first, second⟩
    · exact err_yields _
  all_goals first
    | exact err_yields _
    | split
      · exact yields_ok (List.forall_mem_singleton.mp each)
      · exact err_yields _

theorem materializeArgs_yields {specs : List ArgSpec} (each : ∀ spec ∈ specs, PlainSpec spec) :
    Yields IsAbort (fun args => ∀ e ∈ args, Unchecked e) (materializeArgs specs) := by
  induction specs with
  | nil => exact yields_ok nofun
  | cons spec rest ih =>
    obtain ⟨isFirst, isRest⟩ := List.forall_mem_cons.mp each
    cases spec with
    | wildcard => exact err_yields _
    | expr e =>
      exact yields_bind (ih isRest) fun args isArgs =>
        yields_ok (List.forall_mem_cons.mpr ⟨isFirst, isArgs⟩)

theorem buildFunctionCall_yields (name : String) {specs : List ArgSpec}
    (each : ∀ spec ∈ specs, PlainSpec spec) (distinct : Bool) :
    Yields IsAbort Unchecked (buildFunctionCall name specs distinct) := by
  unfold buildFunctionCall
  split
  · split
    · exact yields_ok trivial
    · rename_i arg _
      have isArg : Unchecked arg := each (.expr arg) List.mem_cons_self
      exact yields_ok isArg
    · exact yields_ok trivial
    · exact err_yields _
  · exact yields_bind (materializeArgs_yields each) fun _ isArgs => scalarFunction_yields _ isArgs

mutual
theorem buildExpr_yields : (s : SqlExpr) → plainExpr s = true →
    Yields IsAbort Unchecked (buildExpr s)
  | .identifier ident, _ => yields_ok trivial
  | .compoundIdentifier parts, plain => by
    rw [buildExpr]
    cases named : parts.getLast? with
    | some last => exact yields_ok trivial
    | none =>
      rw [List.getLast?_eq_none_iff] at named
      subst named
      exact nomatch plain
  | .wildcard, _ => yields_ok trivial
  | .qualifiedWildcard name, _ => by
    rw [buildExpr]
    split
    · exact yields_ok trivial
    · exact err_yields _
  | .value v, _ => by
    have read : Total IsAbort (literalFromValue v) := by
      unfold literalFromValue
      split <;> first
        | exact total_ok _
        | exact err_total _
        | skip
      split
      · exact total_ok _
      · split
        · exact total_ok _
        · exact err_total _
    exact yields_bind read.yields fun _ _ => yields_ok trivial
  | .binaryOp left op right, plain => by
    simp only [plainExpr, Bool.and_eq_true] at plain
    obtain ⟨⟨other, isLeft⟩, isRight⟩ := plain
    rw [buildExpr]
    cases known : fromSql op with
    | none => exact err_yields _
    | some op' =>
      rw [known, Option.all_some] at other
      rw [orError, ok_bind]
      exact yields_bind (buildExpr_yields left isLeft) fun l isL =>
        yields_bind (buildExpr_yields right isRight) fun r isR =>
          yields_ok (binary_unchecked other isL isR)
  | .unaryOp op expr, plain => by
    simp only [plainExpr, Bool.and_eq_true, decide_eq_true_eq] at plain
    obtain ⟨other, isExpr⟩ := plain
    have built := buildExpr_yields expr isExpr
    cases op with
    | not => exact yields_bind built fun e isE => yields_ok isE
    | minus => exact absurd rfl other
    | plus => exact built
    | other debug => exact err_yields _
  | .isNull inner, plain => yields_bind (buildExpr_yields inner plain) fun _ is => yields_ok is
  | .isNotNull inner, plain => yields_bind (buildExpr_yields inner plain) fun _ is => yields_ok is
  | .isTrue inner, plain => yields_bind (buildExpr_yields inner plain) fun _ is =>
      yields_ok ⟨rfl, is, trivial⟩
  | .isFalse inner, plain => yields_bind (buildExpr_yields inner plain) fun _ is =>
      yields_ok ⟨rfl, is, trivial⟩
  | .isNotTrue inner, plain => yields_bind (buildExpr_yields inner plain) fun _ is =>
      yields_ok ⟨rfl, is, trivial⟩
  | .isNotFalse inner, plain => yields_bind (buildExpr_yields inner plain) fun _ is =>
      yields_ok ⟨rfl, is, trivial⟩
  | .nested inner, plain => buildExpr_yields inner plain
  | .cast inner, plain => buildExpr_yields inner plain
  | .like negated expr pattern, plain => by
    obtain ⟨isExpr, isPattern⟩ := Bool.and_eq_true _ _ ▸ plain
    exact yields_bind (buildExpr_yields expr isExpr) fun e isE =>
      yields_bind (buildExpr_yields pattern isPattern) fun p isP =>
        yields_ok (negate_unchecked (like_unchecked isE isP) negated)
  | .iLike negated expr pattern, plain => by
    obtain ⟨isExpr, isPattern⟩ := Bool.and_eq_true _ _ ▸ plain
    exact yields_bind (buildExpr_yields expr isExpr) fun e isE =>
      yields_bind (buildExpr_yields pattern isPattern) fun p isP =>
        yields_ok (negate_unchecked (like_unchecked isE isP) negated)
  | .between expr negated low high, plain => by
    simp only [plainExpr, Bool.and_eq_true] at plain
    obtain ⟨⟨isExpr, isLow⟩, isHigh⟩ := plain
    exact yields_bind (buildExpr_yields expr isExpr) fun e isE =>
      yields_bind (buildExpr_yields low isLow) fun l isL =>
        yields_bind (buildExpr_yields high isHigh) fun h isH =>
          yields_ok (negate_unchecked (between_unchecked isE isL isH) negated)
  | .inList expr list negated, plain => by
    obtain ⟨isExpr, isList⟩ := Bool.and_eq_true _ _ ▸ plain
    exact yields_bind (buildExpr_yields expr isExpr) fun target isTarget =>
      yields_bind (buildExprs_yields list isList) fun items each =>
        yields_ok (negate_unchecked (inListPredicate_unchecked isTarget each) negated)
  | .function name args, plain => by
    exact yields_bind (extractArgs_yields args plain) fun read each =>
      buildFunctionCall_yields _ each read.2
  | .subquery, _ => err_yields _
  | .other _, _ => err_yields _

theorem buildExprs_yields : (es : List SqlExpr) → plainExprs es = true →
    Yields IsAbort (fun built => ∀ e ∈ built, Unchecked e) (buildExprs es)
  | [], _ => yields_ok nofun
  | e :: rest, plain => by
    obtain ⟨isFirst, isRest⟩ := Bool.and_eq_true _ _ ▸ plain
    exact yields_bind (buildExpr_yields e isFirst) fun _ isE =>
      yields_bind (buildExprs_yields rest isRest) fun _ isEs =>
        yields_ok (List.forall_mem_cons.mpr ⟨isE, isEs⟩)

theorem extractArgs_yields : (args : FunctionArguments) → plainArguments args = true →
    Yields IsAbort (fun read => ∀ spec ∈ read.1, PlainSpec spec) (extractArgs args)
  | .none, _ => yields_ok nofun
  | .subquery, _ => err_yields _
  | .list args _, plain =>
      yields_bind (extractArgList_yields args plain) fun _ each => yields_ok each

theorem extractArgList_yields : (args : List FunctionArg) → plainArgList args = true →
    Yields IsAbort (fun specs => ∀ spec ∈ specs, PlainSpec spec) (extractArgList args)
  | [], _ => yields_ok nofun
  | arg :: rest, plain => by
    obtain ⟨isFirst, isRest⟩ := Bool.and_eq_true _ _ ▸ plain
    exact yields_bind (extractArg_yields arg isFirst) fun _ isSpec =>
      yields_bind (extractArgList_yields rest isRest) fun _ each =>
        yields_ok (List.forall_mem_cons.mpr ⟨isSpec, each⟩)

theorem extractArg_yields : (arg : FunctionArg) → plainArg arg = true →
    Yields IsAbort PlainSpec (extractArg arg)
  | .unnamed (.expr e), plain => yields_bind (buildExpr_yields e plain) fun _ is => yields_ok is
  | .named (.expr e), plain => yields_bind (buildExpr_yields e plain) fun _ is => yields_ok is
  | .unnamed .wildcard, _ => yields_ok trivial
  | .named .wildcard, _ => yields_ok trivial
  | .unnamed .qualifiedWildcard, _ => err_yields _
  | .named .qualifiedWildcard, _ => err_yields _
  | .exprNamed, _ => err_yields _
end

end Translation

section Planning

def plainItem : SelectItem → Bool
  | .unnamedExpr e => plainExpr e
  | .exprWithAlias expr _ => plainExpr expr
  | .qualifiedWildcard _ => true
  | .wildcard => true

def plainSelect (select : Select) : Bool :=
  select.projection.all plainItem && select.selection.all plainExpr &&
    plainExprs (groupByExprs select.groupBy) && select.having.all plainExpr

mutual
def plainQuery : Query → Bool
  | .mk _ body orderBy _ _ => (orderBy.getD []).isEmpty && plainBody body

def plainBody : SetExpr → Bool
  | .select select => plainSelect select
  | .query query => plainQuery query
  | .setOperation _ _ left right => plainBody left && plainBody right
  | .other _ => true
end

/-- The statement neither computes with integers nor sorts. -/
def plainStatement : Statement → Bool
  | .query query => plainQuery query
  | .explain statement => plainStatement statement
  | .showTables => true
  | .use => true
  | .showCreateTable _ => true
  | .other _ => true

def Listed (catalog : Catalog) : Prop :=
  ∀ name, Total IsAbort (catalog.tableLocation name) ∧ Total IsAbort (catalog.tableSchema name)

variable {catalog : Catalog}

theorem buildTableFactor_total (factor : TableFactor) :
    Total IsAbort (buildTableFactor factor) := by
  cases factor with
  | table name alias' => exact total_ok _
  | other display => exact err_total _

theorem buildFromTables_total (from' : List TableWithJoins) :
    Total IsAbort (buildFromTables from') := by
  have joined (joins : List Join) : Total IsAbort (buildJoinTables joins) := by
    induction joins with
    | nil => exact total_ok _
    | cons join rest ih =>
      exact total_bind (buildTableFactor_total _) fun _ => total_bind ih fun _ => total_ok _
  induction from' with
  | nil => exact total_ok _
  | cons twj rest ih =>
    exact total_bind (buildTableFactor_total _) fun _ => total_bind (joined _) fun _ =>
      total_bind ih fun _ => total_ok _

theorem leaf_plain {plan : LogicalPlan} (plain : PlainNode plan) (leaf : plan.children = []) :
    PlainPlan plan :=
  plainPlan_iff.mpr ⟨plain, leaf ▸ nofun⟩

theorem over_plain {plan input : LogicalPlan} (plain : PlainNode plan)
    (one : plan.children = [input]) (below : PlainPlan input) : PlainPlan plan :=
  plainPlan_iff.mpr ⟨plain, one ▸ List.forall_mem_singleton.mpr below⟩

theorem pair_plain {plan left right : LogicalPlan} (plain : PlainNode plan)
    (two : plan.children = [left, right]) (isLeft : PlainPlan left) (isRight : PlainPlan right) :
    PlainPlan plan := by
  refine plainPlan_iff.mpr ⟨plain, two ▸ ?_⟩
  exact List.forall_mem_cons.mpr ⟨isLeft, List.forall_mem_singleton.mpr isRight⟩

theorem buildTableScan_yields (listed : Listed catalog) (name : String) (alias' : Option String) :
    Yields IsAbort PlainPlan (buildTableScan name alias' catalog) := by
  refine yields_bind (listed name).1.yields fun location _ => ?_
  exact yields_bind (listed name).2.yields fun schema _ => yields_ok (leaf_plain trivial rfl)

theorem buildFromClause_yields (listed : Listed catalog)
    (tables : List (String × Option String)) :
    Yields IsAbort PlainPlan (buildFromClause tables catalog) := by
  have joined (tables : List (String × Option String)) (plan : LogicalPlan)
      (plain : PlainPlan plan) : Yields IsAbort PlainPlan (joinTables catalog plan tables) := by
    induction tables generalizing plan with
    | nil => exact yields_ok plain
    | cons table rest ih =>
      refine yields_bind (buildTableScan_yields listed table.1 table.2) fun right isRight => ?_
      exact ih _ (pair_plain trivial rfl plain isRight)
  cases tables with
  | nil => exact yields_ok (leaf_plain trivial rfl)
  | cons table rest =>
    exact yields_bind (buildTableScan_yields listed table.1 table.2) fun plan isPlan =>
      joined rest plan isPlan

theorem buildSelectItems_yields {items : List SelectItem} (plain : items.all plainItem = true) :
    Yields IsAbort (fun built => ∀ e ∈ built, Unchecked e) (buildSelectItems items) := by
  have each (item : SelectItem) (is : plainItem item = true) :
      Yields IsAbort Unchecked (buildSelectItem item) := by
    cases item with
    | unnamedExpr e => exact buildExpr_yields e is
    | exprWithAlias e name => exact yields_bind (buildExpr_yields e is) fun _ isE => yields_ok isE
    | qualifiedWildcard name => exact yields_ok trivial
    | wildcard => exact yields_ok trivial
  induction items with
  | nil => exact yields_ok nofun
  | cons item rest ih =>
    obtain ⟨isFirst, isRest⟩ := Bool.and_eq_true _ _ ▸ plain
    exact yields_bind (each item isFirst) fun _ isE => yields_bind (ih isRest) fun _ isEs =>
      yields_ok (List.forall_mem_cons.mpr ⟨isE, isEs⟩)

theorem rewriteHaving_unchecked {projections : List Expr}
    (each : ∀ e ∈ projections, Unchecked e) {expr : Expr} (unchecked : Unchecked expr) :
    Unchecked (rewriteHaving projections expr) := by
  induction expr with
  | binary op left right ihl ihr =>
    rw [rewriteHaving]
    split
    · rename_i replacement found
      exact each replacement (List.mem_of_find?_eq_some found)
    · exact ⟨unchecked.1, ihl unchecked.2.1, ihr unchecked.2.2⟩
  | not inner ih | isNull inner ih | isNotNull inner ih =>
    rw [rewriteHaving]
    split
    · rename_i replacement found
      exact each replacement (List.mem_of_find?_eq_some found)
    · exact ih unchecked
  | _ =>
    unfold rewriteHaving
    split
    · rename_i replacement found
      exact each replacement (List.mem_of_find?_eq_some found)
    · exact unchecked

theorem planWhere_yields {selection : Option SqlExpr} (plain : selection.all plainExpr = true)
    {plan : LogicalPlan} (below : PlainPlan plan) :
    Yields IsAbort PlainPlan (planWhere selection plan) := by
  cases selection with
  | none => exact yields_ok below
  | some clause =>
    exact yields_bind (buildExpr_yields clause plain) fun _ isE =>
      yields_ok (over_plain isE rfl below)

theorem planHaving_yields {having : Option SqlExpr} (plain : having.all plainExpr = true)
    {projections : List Expr} (each : ∀ e ∈ projections, Unchecked e) {plan : LogicalPlan}
    (below : PlainPlan plan) : Yields IsAbort PlainPlan (planHaving having projections plan) := by
  cases having with
  | none => exact yields_ok below
  | some clause =>
    exact yields_bind (buildExpr_yields clause plain) fun _ isE =>
      yields_ok (over_plain (rewriteHaving_unchecked each isE) rfl below)

theorem planSelectShape_yields {select : Select} (plain : select.having.all plainExpr = true)
    {projections groupExprs : List Expr} (each : ∀ e ∈ projections, Unchecked e)
    (groups : ∀ e ∈ groupExprs, Unchecked e) {plan : LogicalPlan} (below : PlainPlan plan) :
    Yields IsAbort PlainPlan (planSelectShape select projections groupExprs plan) := by
  have projected {input : LogicalPlan} (isInput : PlainPlan input) :
      Yields IsAbort PlainPlan (planProject projections input) :=
    yields_ok (over_plain each rfl isInput)
  unfold planSelectShape
  dsimp only
  split
  · have grouped : Yields IsAbort PlainPlan
        (planAggregate groupExprs (projections.filter Expr.containsAggregate) plan) :=
      yields_ok (over_plain ⟨groups, fun e mem => each e (List.mem_of_mem_filter mem)⟩ rfl below)
    exact yields_bind grouped fun _ isGrouped => yields_bind (projected isGrouped) fun _ is =>
      planHaving_yields plain each is
  · split
    · exact yields_bind (projected below) fun _ is => yields_ok (over_plain trivial rfl is)
    · exact projected below

theorem planSelect_yields (listed : Listed catalog) {select : Select}
    (plain : plainSelect select = true) :
    Yields IsAbort PlainPlan (planSelect select catalog) := by
  simp only [plainSelect, Bool.and_eq_true] at plain
  obtain ⟨⟨⟨isItems, isWhere⟩, isGroups⟩, isHaving⟩ := plain
  refine yields_bind (buildFromTables_total _).yields fun tables _ => ?_
  refine yields_bind (buildFromClause_yields listed tables) fun source isSource => ?_
  refine yields_bind (planWhere_yields isWhere isSource) fun input isInput => ?_
  refine yields_bind (buildSelectItems_yields isItems) fun projections each => ?_
  refine yields_bind (buildExprs_yields _ isGroups) fun groupExprs groups => ?_
  exact planSelectShape_yields isHaving each groups isInput

variable [SqlParser]

theorem planLimit_yields (limit : Option SqlExpr) {plan : LogicalPlan} (below : PlainPlan plan) :
    Yields IsAbort PlainPlan (planLimit limit plan) := by
  have counted (e : SqlExpr) : Total IsAbort (evalLimit e) := by
    unfold evalLimit
    split
    · split
      · exact err_total _
      · split
        · exact err_total _
        · exact total_ok _
    · exact err_total _
  cases limit with
  | none => exact yields_ok below
  | some e =>
    exact yields_bind (counted e).yields fun _ _ => yields_ok (over_plain trivial rfl below)

mutual
theorem planQuery_yields (listed : Listed catalog) : (query : Query) → plainQuery query = true →
    Yields IsAbort PlainPlan (planQuery catalog query)
  | .mk withClause body orderBy limit offset, plain => by
    obtain ⟨unsorted, isBody⟩ := Bool.and_eq_true _ _ ▸ plain
    rw [List.isEmpty_iff] at unsorted
    simp only [planQuery, unsorted, buildSortKeys]
    split
    · exact err_yields _
    · exact yields_bind (planSetExpr_yields listed body isBody) fun _ is =>
        planLimit_yields limit is

theorem planSetExpr_yields (listed : Listed catalog) : (body : SetExpr) →
    plainBody body = true → Yields IsAbort PlainPlan (planSetExpr catalog body)
  | .select select, plain => planSelect_yields listed plain
  | .query query, plain => planQuery_yields listed query plain
  | .setOperation .union _ left right, plain => by
    obtain ⟨isLeft, isRight⟩ := Bool.and_eq_true _ _ ▸ plain
    exact yields_bind (planSetExpr_yields listed left isLeft) fun _ isL =>
      yields_bind (planSetExpr_yields listed right isRight) fun _ isR =>
        yields_ok (pair_plain trivial rfl isL isR)
  | .setOperation (.other _) _ _ _, _ => err_yields _
  | .other _, _ => err_yields _
end

variable [PlanDebug]

theorem planStatement_yields (listed : Listed catalog) {statement : Statement}
    (plain : plainStatement statement = true) :
    Yields IsAbort PlainPlan (planStatement catalog statement) := by
  induction statement with
  | query query => exact planQuery_yields listed query plain
  | explain statement ih =>
    refine yields_bind (ih plain) fun inner isInner => yields_ok (over_plain ?_ rfl isInner)
    exact List.forall_mem_singleton.mpr trivial
  | showTables => exact yields_ok (leaf_plain trivial rfl)
  | use => exact yields_ok (leaf_plain trivial rfl)
  | showCreateTable name => exact err_yields _
  | other display => exact err_yields _

omit [PlanDebug] in
theorem parseSql_total (sql : String) : Total IsAbort (parseSql sql) := by
  unfold parseSql
  dsimp only
  split
  · exact err_total _
  · split
    · exact err_total _
    · exact err_total _
    · exact total_ok _

/-- The statements of the text neither compute with integers nor sort. -/
def PlainText (sql : String) : Prop :=
  ∀ statements, parseSql sql = .ok statements → ∀ s ∈ statements, plainStatement s = true

theorem planSql_yields (listed : Listed catalog) {sql : String} (plain : PlainText sql) :
    Yields IsAbort PlainPlan (planSql sql catalog) := by
  have each (statements : List Statement) (isPlain : ∀ s ∈ statements, plainStatement s = true)
      (last : Option LogicalPlan) (isLast : ∀ plan, last = some plan → PlainPlan plan) :
      Yields IsAbort PlainPlan (planStatements catalog last statements) := by
    induction statements generalizing last with
    | nil =>
      cases last with
      | none => exact err_yields _
      | some plan => exact yields_ok (isLast plan rfl)
    | cons statement rest ih =>
      obtain ⟨first, later⟩ := List.forall_mem_cons.mp isPlain
      refine yields_bind (planStatement_yields listed first) fun plan isPlan => ?_
      exact ih later (some plan) fun _ same => Option.some.inj same ▸ isPlan
  unfold planSql
  have parsed : Yields IsAbort (fun statements => ∀ s ∈ statements, plainStatement s = true)
      (parseSql sql) := ⟨parseSql_total sql, plain⟩
  exact yields_bind parsed fun statements isPlain => each statements isPlain none nofun

end Planning

section Sources
variable [CsvCrate]

theorem csv_total (text : List Char) (schema : Option Schema) :
    Total IsAbort (RSparkCsvSource.scanReader text schema) := by
  refine total_bind ?_ fun _ => fromRecords_total _ _
  unfold rowsEnd
  split
  · exact total_ok _
  · exact err_total _

variable [SerdeJson] [JsonStream]

omit [CsvCrate] in
theorem json_total (bytes : List UInt8) (schema : Option Schema) :
    Total IsAbort (RSparkJsonSource.scanReader bytes schema) := by
  have inferred (values : List (Except String JsonValue)) (fields : List Field) :
      Total IsAbort (inferFields fields values) := by
    fun_induction inferFields fields values with
    | case1 fields => exact total_ok _
    | case2 fields e rest => exact err_total _
    | case3 fields map rest ih => exact ih
    | case4 fields v rest _ ih => exact ih
  have read (schema : Schema) (values : List (Except String JsonValue)) :
      Total IsAbort (readRecords schema values) := by
    fun_induction readRecords schema values with
    | case1 => exact total_ok _
    | case2 e rest => exact err_total _
    | case3 map rest ih => exact total_bind ih fun _ => total_ok _
    | case4 v rest _ => exact err_total _
  have scanned (schema : Schema) : Total IsAbort (scanWith bytes schema) :=
    total_bind (read schema _) fun _ => fromRecords_total _ _
  cases schema with
  | some schema => exact scanned schema
  | none => exact total_bind (total_bind (inferred _ _) fun _ => total_ok _) scanned

def defaultSources (text : String → Option (List Char)) (bytes : String → Option (List UInt8)) :
    SourceRegistry :=
  ⟨fun name =>
    if name = "csv" then some ⟨fun path schema => do
      RSparkCsvSource.scanReader (← orError (text path) missing) schema⟩
    else if name = "json" then some ⟨fun path schema => do
      RSparkJsonSource.scanReader (← orError (bytes path) missing) schema⟩
    else none⟩

theorem defaults_readable (text : String → Option (List Char))
    (bytes : String → Option (List UInt8)) : Readable ⟨defaultSources text bytes⟩ := by
  intro name source found path schema
  unfold defaultSources at found
  dsimp only at found
  split at found
  · cases found
    exact total_bind (orError_total _ _) fun _ => csv_total _ _
  · split at found
    · cases found
      exact total_bind (orError_total _ _) fun _ => json_total _ _
    · cases found

omit [CsvCrate] [SerdeJson] [JsonStream] in
theorem session_listed (session : SessionState) : Listed session.catalog :=
  fun _ => ⟨total_bind (orError_total _ _) fun _ => total_ok _,
    total_bind (orError_total _ _) fun _ => total_ok _⟩

end Sources

section Requests

theorem not_abort {α : Type} {x : Result α} (total : Total IsAbort x) (message : String) :
    x ≠ .error (.abort message) := fun stopped => total _ stopped ⟨message, rfl⟩

theorem renderCreateTable_total {catalog : Catalog} (listed : Listed catalog) (name : String) :
    Total IsAbort (renderCreateTable catalog name) :=
  total_bind (listed name).2 fun _ => total_bind (listed name).1 fun _ => total_ok _

variable [SqlParser]

theorem tryShowCreate_total (sql : String) : Total IsAbort (tryShowCreate sql) := by
  unfold tryShowCreate
  dsimp only
  split
  · exact err_total _
  · exact total_ok _
  · exact total_ok _

variable [Regex] [PlanDebug]

theorem planned_total {ctx : ExecutionContext} {catalog : Catalog} (listed : Listed catalog)
    (readable : Readable ctx) {sql : String} (plain : PlainText sql) :
    Total IsAbort (planSql sql catalog >>= execute ctx) := by
  obtain ⟨total, isPlain⟩ := planSql_yields listed plain
  cases planned : planSql sql catalog with
  | error e => exact total_error (total e planned)
  | ok plan => exact execute_total readable plan (isPlain plan planned)

theorem executeSql_answers {ctx : ExecutionContext} {submitted catalog : Catalog}
    (before : Listed submitted) (listed : Listed catalog) (readable : Readable ctx)
    {body : ExecuteSqlRequest} (plain : PlainText body.sql) (d : SqlDraws) (s : ClusterState) :
    ∃ s' response, (executeSql ctx submitted catalog body d).run s = (s', some response) := by
  cases shown : tryShowCreate body.sql with
  | error fault =>
    cases fault with
    | abort message => exact absurd shown (not_abort (tryShowCreate_total _) message)
    | error e => exact ⟨s, .failure e, by simp [executeSql, shown]⟩
  | ok asked =>
    cases asked with
    | some name =>
      rw [executeSql_show s ctx submitted catalog body d shown, answerShowCreate_run]
      split
      · rename_i message stopped
        exact absurd stopped (not_abort (renderCreateTable_total listed name) message)
      · exact ⟨_, _, rfl⟩
      · exact ⟨_, _, rfl⟩
    | none =>
      have total := planned_total listed readable plain
      have submits := planned_total before readable plain
      cases planned : planSql body.sql submitted with
      | error fault =>
        rw [planned] at submits
        cases fault with
        | abort message => exact absurd rfl (not_abort submits message)
        | error e => exact ⟨_, _, executeSql_refused s ctx submitted catalog body d shown planned⟩
      | ok first =>
        cases again : planSql body.sql catalog with
        | error fault =>
          rw [again] at total
          cases fault with
          | abort message => exact absurd rfl (not_abort total message)
          | error e =>
            exact ⟨_, _, executeSql_unplanned s ctx submitted catalog body d shown planned again⟩
        | ok plan =>
          rw [again] at total
          rw [executeSql_planned s ctx submitted catalog body d shown planned again,
            finishQuery_run]
          split
          · rename_i message stopped
            exact absurd stopped (not_abort total message)
          · exact ⟨_, _, rfl⟩
          · exact ⟨_, _, rfl⟩

theorem runTask_reports {registry : SourceRegistry} (readable : Readable ⟨registry⟩) {task : Task}
    (plain : PlainText task.sql) (times : ReportTimes) :
    ∃ report, runTask registry task times = some report := by
  have total : Total IsAbort (executeTask ⟨registry⟩ task SessionState.new.catalog) :=
    planned_total (session_listed SessionState.new) readable plain
  unfold runTask
  split
  · exact ⟨_, rfl⟩
  · exact ⟨_, rfl⟩
  · rename_i message stopped
    exact absurd stopped (not_abort total message)

/-- Whatever the state and whatever the files hold, a request with a plain text is answered, and
    a task with a plain text is reported by its worker. -/
theorem plain_answered [CsvCrate] [SerdeJson] [JsonStream] (text : String → Option (List Char))
    (bytes : String → Option (List UInt8)) (submitted session : SessionState) :
    (∀ body, PlainText body.sql → ∀ d s, ∃ s' response,
      (executeSql ⟨defaultSources text bytes⟩ submitted.catalog session.catalog body d).run s =
        (s', some response)) ∧
    ∀ task : Task, PlainText task.sql → ∀ times, ∃ report,
      runTask (defaultSources text bytes) task times = some report := by
  have readable := defaults_readable text bytes
  refine ⟨fun body plain d s => ?_, fun task plain times => runTask_reports readable plain times⟩
  exact executeSql_answers (session_listed submitted) (session_listed session) readable plain d s

end Requests

section Witness

theorem usersSql_plain : @PlainText usersParser usersSql := by
  intro statements parsed statement mem
  have one : @parseSql usersParser usersSql =
      .ok [.query (.mk false (.select usersSelect) none none none)] := rfl
  rw [one] at parsed
  cases parsed
  cases List.mem_singleton.mp mem
  rfl

/-- SELECT id FROM users over a file with the least integer in it. -/
theorem users_answered : ∃ s' response,
    (@executeSql noRegex usersParser noDebug
      ⟨@defaultSources lineReader noPrinter ⟨fun _ => []⟩
        (fun _ => some "id\n-9223372036854775808\n".toList) (fun _ => none)⟩
      (SessionState.new.registerWithKind "users" "users.csv" "csv" ⟨[.new "id" .int64]⟩
        .batch).catalog
      (SessionState.new.registerWithKind "users" "users.csv" "csv" ⟨[.new "id" .int64]⟩
        .batch).catalog
      usersRequest sampleDraws).run emptyState = (s', some response) :=
  (@plain_answered usersParser noRegex noDebug lineReader noPrinter ⟨fun _ => []⟩ _ _ _ _).1
    usersRequest usersSql_plain sampleDraws emptyState

end Witness

end RSparkPanicFreedom
