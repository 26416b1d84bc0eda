import RSpark.Operators

/- The two tests for aggregate calls: the planner's, which groups a query, and the executor's,
   which picks the evaluator of a predicate. The executor's does not look below IF. -/
namespace RSparkAggregateDetection
open RSparkValue RSparkBatch RSparkExpr RSparkOperators

section Places

inductive Operand : Expr → Expr → Prop
  | left (op : BinaryOp) (l r : Expr) : Operand l (.binary op l r)
  | right (op : BinaryOp) (l r : Expr) : Operand r (.binary op l r)
  | not (e : Expr) : Operand e (.not e)
  | isNull (e : Expr) : Operand e (.isNull e)
  | isNotNull (e : Expr) : Operand e (.isNotNull e)
  | cond (c t e : Expr) : Operand c (.ifExpr c t e)
  | thenExpr (c t e : Expr) : Operand t (.ifExpr c t e)
  | elseExpr (c t e : Expr) : Operand e (.ifExpr c t e)
  | argument (func : AggregateFn) (arg : Expr) (distinct : Bool) :
      Operand arg (.aggregate func arg distinct)
  | aliased (e : Expr) (name : String) : Operand e (.aliased e name)

def isIf : Expr → Bool
  | .ifExpr _ _ _ => true
  | _ => false

/-- An aggregate call somewhere in the expression, and whether an IF stands above it. -/
inductive CallIn : Expr → Bool → Prop
  | here (func : AggregateFn) (arg : Expr) (distinct : Bool) :
      CallIn (.aggregate func arg distinct) false
  | inside {part whole : Expr} {underIf : Bool} (operand : Operand part whole)
      (call : CallIn part underIf) : CallIn whole (isIf whole || underIf)

theorem planner_of_call {e : Expr} {underIf : Bool} (call : CallIn e underIf) :
    e.containsAggregate = true := by
  induction call with
  | here func arg distinct => rfl
  | inside operand _ ih => cases operand <;> simp [Expr.containsAggregate, ih]

theorem call_of_planner {e : Expr} (found : e.containsAggregate = true) :
    ∃ underIf, CallIn e underIf := by
  induction e with
  | aggregate func arg distinct _ => exact ⟨_, .here func arg distinct⟩
  | binary op l r ihl ihr =>
    rcases Bool.or_eq_true _ _ ▸ found with left | right
    · obtain ⟨_, call⟩ := ihl left
      exact ⟨_, .inside (.left op l r) call⟩
    · obtain ⟨_, call⟩ := ihr right
      exact ⟨_, .inside (.right op l r) call⟩
  | not e ih =>
    obtain ⟨_, call⟩ := ih found
    exact ⟨_, .inside (.not e) call⟩
  | isNull e ih =>
    obtain ⟨_, call⟩ := ih found
    exact ⟨_, .inside (.isNull e) call⟩
  | isNotNull e ih =>
    obtain ⟨_, call⟩ := ih found
    exact ⟨_, .inside (.isNotNull e) call⟩
  | ifExpr c t e ihc iht ihe =>
    simp only [Expr.containsAggregate, Bool.or_eq_true] at found
    rcases found with (cond | thenExpr) | elseExpr
    · obtain ⟨_, call⟩ := ihc cond
      exact ⟨_, .inside (.cond c t e) call⟩
    · obtain ⟨_, call⟩ := iht thenExpr
      exact ⟨_, .inside (.thenExpr c t e) call⟩
    · obtain ⟨_, call⟩ := ihe elseExpr
      exact ⟨_, .inside (.elseExpr c t e) call⟩
  | aliased e name ih =>
    obtain ⟨_, call⟩ := ih found
    exact ⟨_, .inside (.aliased e name) call⟩
  | column name => exact nomatch found
  | literal lit => exact nomatch found
  | star => exact nomatch found

theorem executor_of_call {e : Expr} (call : CallIn e false) : containsAggregate e = true := by
  generalize flag : false = underIf at call
  induction call with
  | here func arg distinct => rfl
  | inside operand _ ih =>
    obtain ⟨notIf, same⟩ := Bool.or_eq_false_iff.mp flag.symm
    cases operand with
    | cond c t e => exact nomatch notIf
    | thenExpr c t e => exact nomatch notIf
    | elseExpr c t e => exact nomatch notIf
    | _ => simp [containsAggregate, ih same.symm]

theorem call_of_executor {e : Expr} (found : containsAggregate e = true) : CallIn e false := by
  induction e with
  | aggregate func arg distinct _ => exact .here func arg distinct
  | binary op l r ihl ihr =>
    rcases Bool.or_eq_true _ _ ▸ found with left | right
    · exact .inside (.left op l r) (ihl left)
    · exact .inside (.right op l r) (ihr right)
  | not e ih => exact .inside (.not e) (ih found)
  | isNull e ih => exact .inside (.isNull e) (ih found)
  | isNotNull e ih => exact .inside (.isNotNull e) (ih found)
  | ifExpr c t e _ _ _ => exact nomatch found
  | aliased e name ih => exact .inside (.aliased e name) (ih found)
  | column name => exact nomatch found
  | literal lit => exact nomatch found
  | star => exact nomatch found

end Places

section Agreement

theorem planner_iff (e : Expr) : e.containsAggregate = true ↔ ∃ underIf, CallIn e underIf := by
  constructor
  · exact call_of_planner
  · intro somewhere
    obtain ⟨_, call⟩ := somewhere
    exact planner_of_call call

theorem executor_iff (e : Expr) : containsAggregate e = true ↔ CallIn e false :=
  ⟨call_of_executor, executor_of_call⟩

/-- The tests agree exactly if the calls do not all stand below an IF. -/
theorem tests_agree_iff (e : Expr) :
    containsAggregate e = e.containsAggregate ↔ (CallIn e true → CallIn e false) := by
  rw [Bool.eq_iff_iff, planner_iff, executor_iff]
  constructor
  · intro same hidden
    exact same.mpr ⟨true, hidden⟩
  · intro shown
    constructor
    · intro call
      exact ⟨false, call⟩
    · intro somewhere
      obtain ⟨underIf, call⟩ := somewhere
      cases underIf with
      | false => exact call
      | true => exact shown call

def coalesced (func : AggregateFn) (arg default : Expr) : Expr :=
  .ifExpr (.isNotNull (.aggregate func arg false)) (.aggregate func arg false) default

/-- `HAVING COALESCE(MAX(open), TRUE)` -/
theorem coalesced_call_missed :
    ¬ ∀ e : Expr, containsAggregate e = e.containsAggregate := by
  intro claim
  exact absurd (claim (coalesced .max (.column "open") (.literal (.bool true)))) (by decide)

end Agreement

end RSparkAggregateDetection
