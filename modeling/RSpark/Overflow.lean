import RSpark.CheckedRuns
import RSpark.ExprBuilder

/- Overflow of integer arithmetic in expressions: evaluation aborts exactly where it reaches an
   operator whose exact result is no i64, or the remainder of the least i64 by -1. -/
namespace RSparkOverflow
open RSparkValue RSparkBatch RSparkExpr RSparkSqlAst RSparkExprBuilder CheckedRuns

section Operators

def IsI64 (v : Int) : Prop := -9223372036854775808 ≤ v ∧ v ≤ 9223372036854775807

instance (v : Int) : Decidable (IsI64 v) := inferInstanceAs (Decidable (_ ∧ _))

def IntegersFit (op : BinaryOp) (a b : Int) : Prop :=
  match op with
  | .add => IsI64 (a + b)
  | .sub => IsI64 (a - b)
  | .mul => IsI64 (a * b)
  | .mod => ¬ (a = -9223372036854775808 ∧ b = -1)
  | _ => True

/-- Operands that are not both read as integers are not computed with as such. -/
def OperatorFits (op : BinaryOp) (left right : Value) : Prop :=
  ∀ a b, left.castToI64 = some a → right.castToI64 = some b → IntegersFit op a.toInt b.toInt

def wrappingMod (left right : Value) : Result Value :=
  match left.castToI64, right.castToI64 with
  | some a, some b =>
      if b = 0 then .ok .null else .ok (.int64 (Int64.ofInt (a.toInt.tmod b.toInt)))
  | _, _ => err (.type s!"cannot modulo {left.dataTypeName} by {right.dataTypeName}")

def wrappingBinary [Regex] (op : BinaryOp) (left right : Value) : Result Value :=
  if left.isNull || right.isNull then .ok .null
  else
    match op with
    | .add => numericOp left right (fun a b => .ok (Int64.ofInt (a.toInt + b.toInt))) (· + ·)
    | .sub => numericOp left right (fun a b => .ok (Int64.ofInt (a.toInt - b.toInt))) (· - ·)
    | .mul => numericOp left right (fun a b => .ok (Int64.ofInt (a.toInt * b.toInt))) (· * ·)
    | .mod => wrappingMod left right
    | op => applyBinary op left right

end Operators

section Trees

def evalWith (binary : BinaryOp → Value → Value → Result Value) (record : Record)
    (batch : RecordBatch) : Expr → Result Value
  | .column name => do
      let idx ← orError (batch.schema.indexOf name) (columnNotFound name)
      .ok (record.getOrNull idx)
  | .literal lit => .ok lit.toValue
  | .binary op left right => do
      let lv ← evalWith binary record batch left
      let rv ← evalWith binary record batch right
      binary op lv rv
  | .not inner => do evalNot (← evalWith binary record batch inner)
  | .isNull inner => do .ok (.boolean (← evalWith binary record batch inner).isNull)
  | .isNotNull inner => do .ok (.boolean !(← evalWith binary record batch inner).isNull)
  | .ifExpr cond thenExpr elseExpr => do
      let c ← evalWith binary record batch cond
      if c = .boolean true then evalWith binary record batch thenExpr
      else evalWith binary record batch elseExpr
  | .aggregate _ _ _ => err (.execution
      "aggregate expression cannot be evaluated against a row; use the aggregate operator")
  | .aliased expr _ => evalWith binary record batch expr
  | .star => err (.execution "* cannot be evaluated as a scalar")

variable [Regex]

def wrappingEval (record : Record) (batch : RecordBatch) (e : Expr) : Result Value :=
  evalWith wrappingBinary record batch e

def Fits (record : Record) (batch : RecordBatch) : Expr → Prop
  | .binary op left right =>
      Fits record batch left ∧ ∀ lv, wrappingEval record batch left = .ok lv →
        Fits record batch right ∧ ∀ rv, wrappingEval record batch right = .ok rv →
          OperatorFits op lv rv
  | .not inner | .isNull inner | .isNotNull inner | .aliased inner _ => Fits record batch inner
  | .ifExpr cond thenExpr elseExpr =>
      Fits record batch cond ∧ ∀ c, wrappingEval record batch cond = .ok c →
        if c = .boolean true then Fits record batch thenExpr else Fits record batch elseExpr
  | .column _ | .literal _ | .aggregate _ _ _ | .star => True

theorem eval_eq (record : Record) (batch : RecordBatch) (e : Expr) :
    e.eval record batch = evalWith evalBinary record batch e := by
  induction e with
  | column name => rfl
  | literal lit => rfl
  | binary op left right ihl ihr => rw [Expr.eval, evalWith, ihl, ihr]
  | not inner ih => rw [Expr.eval, evalWith, ih]
  | isNull inner ih => rw [Expr.eval, evalWith, ih]
  | isNotNull inner ih => rw [Expr.eval, evalWith, ih]
  | ifExpr cond thenExpr elseExpr ihc iht ihe => rw [Expr.eval, evalWith, ihc, iht, ihe]
  | aggregate func arg distinct => rfl
  | aliased expr name ih => rw [Expr.eval, evalWith, ih]
  | star => rfl

end Trees

section Checks

def IsAbort (e : Fault) : Prop := ∃ message, e = .abort message

theorem err_total {α : Type} (e : Error) : Total IsAbort (err e : Result α) := by
  refine total_error ?_
  rintro ⟨message, same⟩
  cases same

theorem orError_total {α : Type} (x : Option α) (e : Error) : Total IsAbort (orError x e) := by
  cases x with
  | none => exact err_total e
  | some a => exact total_ok a

theorem cmpF64_total (a b : Float) (x y : String) : Total IsAbort (cmpF64 a b x y) :=
  orError_total _ _

theorem tryCmp_total (a b : Value) : Total IsAbort (a.tryCmp b) := by
  unfold Value.tryCmp
  split <;> first
    | with_reducible exact total_ok _
    | with_reducible exact err_total _
    | with_reducible exact cmpF64_total _ _ _ _
    | with_reducible exact orError_total _ _

theorem checkedI64_guarded (operation : String) (v : Int) :
    Guarded IsAbort (checkedI64 operation v) (.ok (Int64.ofInt v)) (IsI64 v) := by
  unfold checkedI64 IsI64
  refine ⟨fun is => ?_, fun isNot => ?_, total_ok _⟩
  · rw [if_pos is]
  · rw [if_neg isNot]
    exact ⟨_, ⟨_, rfl⟩, rfl⟩

theorem guarded_of_operands {x y : Result Value} {left right : Value}
    {fits : Int64 → Int64 → Prop}
    (integers : ∀ a b, left.castToI64 = some a → right.castToI64 = some b →
      Guarded IsAbort x y (fits a b))
    (others : (∀ a b, left.castToI64 = some a → right.castToI64 = some b → False) →
      x = y ∧ Total IsAbort y) :
    Guarded IsAbort x y
      (∀ a b, left.castToI64 = some a → right.castToI64 = some b → fits a b) := by
  by_cases read : ∃ a b, left.castToI64 = some a ∧ right.castToI64 = some b
  · obtain ⟨a, b, here, here'⟩ := read
    refine (integers a b here here').congr ⟨fun fits => fits a b here here', ?_⟩
    intro fits a' b' same same'
    rw [here] at same
    rw [here'] at same'
    cases same
    cases same'
    exact fits
  · have unread (a b : Int64) (here : left.castToI64 = some a)
        (here' : right.castToI64 = some b) : False := read ⟨a, b, here, here'⟩
    obtain ⟨rfl, total⟩ := others unread
    refine (guarded_of_total total).congr (iff_true_intro fun a b here here' => ?_)
    exact (unread a b here here').elim

theorem numericOp_guarded {f g : Int64 → Int64 → Result Int64} {fits : Int64 → Int64 → Prop}
    (guarded : ∀ a b, Guarded IsAbort (f a b) (g a b) (fits a b)) (left right : Value)
    (floatOp : Float → Float → Float) :
    Guarded IsAbort (numericOp left right f floatOp) (numericOp left right g floatOp)
      (∀ a b, left.castToI64 = some a → right.castToI64 = some b → fits a b) := by
  refine guarded_of_operands (fun a b here here' => ?_) fun unread => ?_
  · simp only [numericOp, here, here']
    exact (guarded a b).bind_total fun v => total_ok _
  · unfold numericOp
    split
    · rename_i a b here here'
      exact (unread a b here here').elim
    · refine ⟨rfl, ?_⟩
      split
      · exact total_ok _
      · exact err_total _

theorem numericMod_guarded (left right : Value) :
    Guarded IsAbort (numericMod left right) (wrappingMod left right)
      (OperatorFits .mod left right) := by
  refine guarded_of_operands (fun a b here here' => ?_) fun unread => ?_
  · simp only [numericMod, wrappingMod, here, here']
    by_cases zero : b = 0
    · rw [if_pos zero, if_pos zero]
      refine (guarded_of_total (total_ok _)).congr (iff_true_intro ?_)
      rintro ⟨_, minusOne⟩
      rw [zero] at minusOne
      exact absurd minusOne (by decide)
    · rw [if_neg zero, if_neg zero]
      refine ⟨fun fits => if_neg fits, fun isNot => ?_, total_ok _⟩
      rw [IntegersFit, not_not] at isNot
      rw [if_pos isNot]
      exact ⟨_, ⟨_, rfl⟩, rfl⟩
  · cases here : left.castToI64 with
    | none =>
      simp only [numericMod, wrappingMod, here]
      exact ⟨trivial, err_total _⟩
    | some a =>
      cases here' : right.castToI64 with
      | none =>
        simp only [numericMod, wrappingMod, here, here']
        exact ⟨trivial, err_total _⟩
      | some b => exact (unread a b here here').elim

theorem numericDiv_total (left right : Value) : Total IsAbort (numericDiv left right) := by
  unfold numericDiv
  split
  · split <;> exact total_ok _
  · exact err_total _

theorem evalNot_total (v : Value) : Total IsAbort (evalNot v) := by
  cases v <;> first | exact total_ok _ | exact err_total _

theorem minus_fits (v : Value) : OperatorFits .sub (.int64 0) v ↔
    ∀ a, v.castToI64 = some a → a ≠ Int64.minValue := by
  have negative (a : Int64) : IsI64 ((0 : Int64).toInt - a.toInt) ↔ a ≠ Int64.minValue := by
    have low := a.le_toInt
    have high := a.toInt_lt
    have zero : (0 : Int64).toInt = 0 := rfl
    have least : Int64.minValue.toInt = -9223372036854775808 := rfl
    rw [ne_eq, ← Int64.toInt_inj, zero, least, IsI64]
    omega
  constructor
  · intro fits a here
    exact (negative a).mp (fits 0 a rfl here)
  · rintro least _ a ⟨⟩ here
    exact (negative a).mpr (least a here)

variable [Regex]

theorem applyLike_total (left right : Value) : Total IsAbort (applyLike left right) := by
  unfold applyLike
  split
  · split
    · split
      · exact total_ok _
      · exact err_total _
    · exact total_ok _
    · exact err_total _
  · exact err_total _

/-- No other operator computes with integers. -/
theorem applyBinary_total (op : BinaryOp) (left right : Value)
    (other : op ≠ .add ∧ op ≠ .sub ∧ op ≠ .mul ∧ op ≠ .mod) :
    Total IsAbort (applyBinary op left right) := by
  have compared (test : Ordering → Bool) : Total IsAbort (compareWith test left right) :=
    total_bind (tryCmp_total left right) fun _ => total_ok _
  cases op with
  | eq => exact total_ok _
  | notEq => exact total_ok _
  | lt => exact compared _
  | ltEq => exact compared _
  | gt => exact compared _
  | gtEq => exact compared _
  | and =>
    cases left <;> cases right <;> first | exact total_ok _ | exact err_total _
  | or =>
    cases left <;> cases right <;> first | exact total_ok _ | exact err_total _
  | div => exact numericDiv_total left right
  | like => exact applyLike_total left right
  | add => exact absurd rfl other.1
  | sub => exact absurd rfl other.2.1
  | mul => exact absurd rfl other.2.2.1
  | mod => exact absurd rfl other.2.2.2

theorem evalBinary_guarded (op : BinaryOp) (left right : Value) :
    Guarded IsAbort (evalBinary op left right) (wrappingBinary op left right)
      (OperatorFits op left right) := by
  unfold evalBinary wrappingBinary
  split
  · rename_i null
    refine (guarded_of_total (total_ok _)).congr (iff_true_intro fun a b here here' => ?_)
    rw [Bool.or_eq_true, isNull_iff, isNull_iff] at null
    rcases null with rfl | rfl
    · cases here
    · cases here'
  · have kept (is : op ≠ .add ∧ op ≠ .sub ∧ op ≠ .mul ∧ op ≠ .mod)
        (free : OperatorFits op left right) : Guarded IsAbort (applyBinary op left right)
          (applyBinary op left right) (OperatorFits op left right) :=
      (guarded_of_total (applyBinary_total op left right is)).congr (iff_true_intro free)
    cases op with
    | add =>
      exact numericOp_guarded
        (fun a b => checkedI64_guarded _ (a.toInt + b.toInt)) left right _
    | sub =>
      exact numericOp_guarded
        (fun a b => checkedI64_guarded _ (a.toInt - b.toInt)) left right _
    | mul =>
      exact numericOp_guarded
        (fun a b => checkedI64_guarded _ (a.toInt * b.toInt)) left right _
    | mod => exact numericMod_guarded left right
    | _ => exact kept (by decide) fun _ _ _ _ => trivial

theorem eval_guarded (record : Record) (batch : RecordBatch) (e : Expr) :
    Guarded IsAbort (e.eval record batch) (wrappingEval record batch e) (Fits record batch e) := by
  rw [eval_eq, wrappingEval]
  induction e with
  | column name =>
    exact guarded_of_total (total_bind (orError_total _ _) fun _ => total_ok _)
  | literal lit => exact guarded_of_total (total_ok _)
  | binary op left right ihl ihr =>
    exact ihl.bind fun lv => ihr.bind fun rv => evalBinary_guarded op lv rv
  | not inner ih => exact ih.bind_total evalNot_total
  | isNull inner ih => exact ih.bind_total fun _ => total_ok _
  | isNotNull inner ih => exact ih.bind_total fun _ => total_ok _
  | ifExpr cond thenExpr elseExpr ihc iht ihe =>
    refine ihc.bind fun c => ?_
    by_cases holds : c = .boolean true
    · simp only [if_pos holds]
      exact iht
    · simp only [if_neg holds]
      exact ihe
  | aggregate func arg distinct => exact guarded_of_total (err_total _)
  | aliased expr name ih => exact ih
  | star => exact guarded_of_total (err_total _)

theorem never_aborts_iff (record : Record) (batch : RecordBatch) (e : Expr) :
    (∀ message, e.eval record batch ≠ abort message) ↔ Fits record batch e := by
  rw [← (eval_guarded record batch e).total_iff]
  constructor
  · rintro never _ stopped ⟨message, rfl⟩
    exact never message stopped
  · intro total message stopped
    exact total _ stopped ⟨message, rfl⟩

/-- Evaluation never aborts exactly if the results of all integer operators that it reaches are
    integers; the one that unary minus adds only fails on the least integer. -/
theorem eval_never_aborts_iff (record : Record) (batch : RecordBatch) (e : Expr) :
    ((∀ message, e.eval record batch ≠ abort message) ↔ Fits record batch e) ∧
    ∀ s, buildExpr s = .ok e → ∃ minus, buildExpr (.unaryOp .minus s) = .ok minus ∧
      ((∀ message, minus.eval record batch ≠ abort message) ↔ Fits record batch e ∧
        ∀ v a, wrappingEval record batch e = .ok v → v.castToI64 = some a →
          a ≠ Int64.minValue) := by
  refine ⟨never_aborts_iff record batch e, fun s built => ?_⟩
  refine ⟨.binary .sub (.literal (.int 0)) e, by rw [buildExpr, built, ok_bind], ?_⟩
  rw [never_aborts_iff]
  have zero : wrappingEval record batch (.literal (.int 0)) = .ok (.int64 0) := rfl
  constructor
  · rintro ⟨_, fits⟩
    obtain ⟨fits, least⟩ := fits _ zero
    exact ⟨fits, fun v a here => (minus_fits v).mp (least v here) a⟩
  · rintro ⟨fits, least⟩
    refine ⟨trivial, fun lv here => ?_⟩
    rw [zero] at here
    cases here
    exact ⟨fits, fun v here => (minus_fits v).mpr fun a => least v a here⟩

end Checks

section Counterexample

def leastModulo : SqlExpr :=
  .binaryOp (.identifier ⟨"n"⟩) .modulo (.unaryOp .minus (.value (.number "1")))

theorem least_remainder_aborts : ¬ ∀ s e, buildExpr s = .ok e →
    ∀ (record : Record) (batch : RecordBatch) message,
      @Expr.eval noRegex record batch e ≠ abort message := by
  intro claim
  exact claim leastModulo _ rfl ⟨[.int64 Int64.minValue]⟩ ⟨⟨[.new "n" .int64]⟩, []⟩ _ rfl

end Counterexample

end RSparkOverflow
