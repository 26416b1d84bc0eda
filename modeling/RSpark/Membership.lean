import RSpark.Comparisons
import RSpark.ExprBuilder
import RSpark.FloatOrder

/- IN and BETWEEN as build_expr lowers them: a chain of ORs over equalities with the operand copied
   into each, and a conjunction of two comparisons. -/
namespace RSparkMembership
open RSparkValue RSparkBatch RSparkExpr RSparkSqlAst RSparkExprBuilder RSparkComparisons
open BinaryRounding FloatText

section Meanings
variable [Regex]

/-- An operand, however nested, that has a value other than NULL on the record. -/
structure Operand (record : Record) (batch : RecordBatch) (s : SqlExpr) (v : Value) : Prop where
  evaluates : ∃ e, buildExpr s = .ok e ∧ e.eval record batch = .ok v
  shown : v ≠ .null

def Comparable (a b : Value) : Prop := ∃ o, a.tryCmp b = .ok o

def AtMost (a b : Value) : Prop := a.tryCmp b = .ok .lt ∨ a.tryCmp b = .ok .eq

instance (a b : Value) : Decidable (AtMost a b) := inferInstanceAs (Decidable (_ ∨ _))

def Tells (record : Record) (batch : RecordBatch) (s : SqlExpr) (holds : Prop) : Prop :=
  ∃ e b, buildExpr s = .ok e ∧ e.eval record batch = .ok (.boolean b) ∧ (b = true ↔ holds)

end Meanings

section Swap

theorem unpacked_swap (a b : Float.Model.UnpackedFloat) :
    b.compare a = (a.compare b).map Ordering.swap := by
  by_cases numbers : a.isNaN = false ∧ b.isNaN = false
  · obtain ⟨left, right⟩ := numbers
    rw [compare_eq_rank left right, compare_eq_rank right left]
    exact congrArg some (rankCompare_preorderOn.swap a b trivial trivial)
  · have nan : a.isNaN = true ∨ b.isNaN = true := by
      cases left : a.isNaN with
      | true => exact Or.inl rfl
      | false =>
        cases right : b.isNaN with
        | true => exact Or.inr rfl
        | false => exact absurd ⟨left, right⟩ numbers
    rw [compare_of_isNaN nan, compare_of_isNaN nan.symm]
    rfl

theorem orError_swap {x y : Option Ordering} {e e' : Error} {o : Ordering}
    (swap : y = x.map Ordering.swap) (compared : orError x e = .ok o) :
    orError y e' = .ok o.swap := by
  rw [orError_eq_ok] at compared ⊢
  rw [swap, compared]
  rfl

theorem compare_swap {α : Type} [Ord α] [Std.OrientedOrd α] {a b : α} {o : Ordering}
    (compared : (.ok (compare a b) : Result Ordering) = .ok o) :
    (.ok (compare b a) : Result Ordering) = .ok o.swap := by
  rw [← Except.ok.inj compared, ← Std.OrientedOrd.eq_swap]

theorem failed_compare {α : Type} {e : Error} {a : α} {p : Prop}
    (compared : (err e : Result α) = .ok a) : p :=
  absurd compared (err_ne_ok e a)

theorem tryCmp_swap {a b : Value} {o : Ordering} (compared : a.tryCmp b = .ok o) :
    b.tryCmp a = .ok o.swap := by
  cases a <;> cases b
  all_goals first
    | exact compare_swap compared
    | exact orError_swap (unpacked_swap _ _) compared
    | exact failed_compare compared
    | rw [← Except.ok.inj compared]
      rfl

theorem atMost_iff {a b : Value} {o : Ordering} (compared : a.tryCmp b = .ok o) :
    isLessOrEqual o = true ↔ AtMost a b := by
  rw [AtMost, compared, Except.ok.injEq, Except.ok.injEq]
  cases o <;> decide

theorem atLeast_iff {a b : Value} {o : Ordering} (compared : a.tryCmp b = .ok o) :
    isGreaterOrEqual o = true ↔ AtMost b a := by
  rw [AtMost, tryCmp_swap compared, Except.ok.injEq, Except.ok.injEq]
  cases o <;> decide

end Swap

section Predicates
variable [Regex] {record : Record} {batch : RecordBatch}

theorem equal_eval {target item : Expr} {v w : Value} (left : target.eval record batch = .ok v)
    (shown : v ≠ .null) (right : item.eval record batch = .ok w) (shown' : w ≠ .null) :
    (Expr.binary .eq target item).eval record batch = .ok (.boolean (v.partialEq w)) := by
  rw [Expr.eval, left, right, ok_bind, ok_bind, evalBinary_shown shown shown']
  rfl

theorem or_eval {left right : Expr} {a b : Bool}
    (evaluated : left.eval record batch = .ok (.boolean a))
    (evaluated' : right.eval record batch = .ok (.boolean b)) :
    (Expr.binary .or left right).eval record batch = .ok (.boolean (a || b)) := by
  rw [Expr.eval, evaluated, evaluated']
  rfl

theorem and_eval {left right : Expr} {a b : Bool}
    (evaluated : left.eval record batch = .ok (.boolean a))
    (evaluated' : right.eval record batch = .ok (.boolean b)) :
    (Expr.binary .and left right).eval record batch = .ok (.boolean (a && b)) := by
  rw [Expr.eval, evaluated, evaluated']
  rfl

theorem negate_eval {e : Expr} {b : Bool} (evaluated : e.eval record batch = .ok (.boolean b))
    (negated : Bool) : (negate negated e).eval record batch = .ok (.boolean (negated != b)) := by
  cases negated with
  | false => exact evaluated.trans (by rw [Bool.false_bne])
  | true =>
    rw [negate, if_pos rfl, Expr.eval, evaluated, ok_bind, evalNot, Bool.true_bne]

theorem chain_eval {target : Expr} {v : Value} (evaluated : target.eval record batch = .ok v)
    (shown : v ≠ .null) {items : List Expr} {vs : List Value}
    (valued : List.Forall₂ (fun item w => item.eval record batch = .ok w ∧ w ≠ .null) items vs)
    (prev : Expr) (b : Bool) (reached : prev.eval record batch = .ok (.boolean b)) :
    (items.foldl (fun prev item => .binary .or prev (.binary .eq target item)) prev).eval
      record batch = .ok (.boolean (b || vs.any v.partialEq)) := by
  induction valued generalizing prev b with
  | nil => rw [List.foldl_nil, reached, List.any_nil, Bool.or_false]
  | cons item _ ih =>
    rw [List.foldl_cons, List.any_cons, ← Bool.or_assoc]
    apply ih
    exact or_eval reached (equal_eval evaluated shown item.1 item.2)

theorem inListPredicate_eval {target : Expr} {v : Value}
    (evaluated : target.eval record batch = .ok v) (shown : v ≠ .null) {items : List Expr}
    {vs : List Value}
    (valued : List.Forall₂ (fun item w => item.eval record batch = .ok w ∧ w ≠ .null) items vs) :
    (inListPredicate target items).eval record batch = .ok (.boolean (vs.any v.partialEq)) := by
  cases valued with
  | nil => rfl
  | cons item rest =>
    rw [inListPredicate, List.any_cons]
    apply chain_eval evaluated shown rest
    exact equal_eval evaluated shown item.1 item.2

theorem between_eval {target low high : Expr} {v l h : Value}
    (evaluated : target.eval record batch = .ok v) (shown : v ≠ .null)
    (lowest : low.eval record batch = .ok l) (shownLow : l ≠ .null)
    (highest : high.eval record batch = .ok h) (shownHigh : h ≠ .null)
    (above : Comparable v l) (below : Comparable v h) :
    ∃ b, (Expr.binary .and (.binary .gtEq target low) (.binary .ltEq target high)).eval
      record batch = .ok (.boolean b) ∧ (b = true ↔ AtMost l v ∧ AtMost v h) := by
  obtain ⟨o, compared⟩ := above
  obtain ⟨o', compared'⟩ := below
  have atLeast : (Expr.binary .gtEq target low).eval record batch =
      .ok (.boolean (isGreaterOrEqual o)) := by
    rw [Expr.eval, evaluated, lowest, ok_bind, ok_bind, evalBinary_shown shown shownLow,
      applyBinary, compareWith, compared, ok_bind]
  have atMost : (Expr.binary .ltEq target high).eval record batch =
      .ok (.boolean (isLessOrEqual o')) := by
    rw [Expr.eval, evaluated, highest, ok_bind, ok_bind, evalBinary_shown shown shownHigh,
      applyBinary, compareWith, compared', ok_bind]
  refine ⟨isGreaterOrEqual o && isLessOrEqual o', and_eval atLeast atMost, ?_⟩
  rw [Bool.and_eq_true, atLeast_iff compared, atMost_iff compared']

theorem built_items {items : List SqlExpr} {vs : List Value}
    (listed : List.Forall₂ (Operand record batch) items vs) :
    ∃ built, buildExprs items = .ok built ∧
      List.Forall₂ (fun item w => item.eval record batch = .ok w ∧ w ≠ .null) built vs := by
  induction listed with
  | nil => exact ⟨[], rfl, .nil⟩
  | cons operand _ ih =>
    obtain ⟨e, built, evaluated⟩ := operand.evaluates
    obtain ⟨rest, builtRest, valued⟩ := ih
    refine ⟨e :: rest, ?_, .cons ⟨evaluated, operand.shown⟩ valued⟩
    rw [buildExprs, built, ok_bind, builtRest, ok_bind]

theorem tells_negated {s : Bool → SqlExpr} {e : Expr} {b : Bool} {holds : Prop}
    (built : ∀ negated, buildExpr (s negated) = .ok (negate negated e))
    (evaluated : e.eval record batch = .ok (.boolean b)) (told : b = true ↔ holds) :
    Tells record batch (s false) holds ∧ Tells record batch (s true) (¬ holds) := by
  constructor
  · refine ⟨_, _, built false, negate_eval evaluated false, ?_⟩
    rw [Bool.false_bne, told]
  · refine ⟨_, _, built true, negate_eval evaluated true, ?_⟩
    rw [Bool.true_bne, Bool.not_eq_true', ← Bool.not_eq_true, told]

/-- IN tells whether an item equals the operand and BETWEEN whether the operand lies within the
    bounds, NOT IN and NOT BETWEEN the opposite, whatever the operands are built from. -/
theorem membership_tells (record : Record) (batch : RecordBatch) (x lo hi : SqlExpr)
    (items : List SqlExpr) (v l h : Value) (vs : List Value)
    (target : Operand record batch x v) (low : Operand record batch lo l)
    (high : Operand record batch hi h) (listed : List.Forall₂ (Operand record batch) items vs)
    (above : Comparable v l) (below : Comparable v h) :
    (Tells record batch (.inList x items false) (∃ w ∈ vs, v.partialEq w = true) ∧
      Tells record batch (.inList x items true) (¬ ∃ w ∈ vs, v.partialEq w = true)) ∧
    (Tells record batch (.between x false lo hi) (AtMost l v ∧ AtMost v h) ∧
      Tells record batch (.between x true lo hi) (¬ (AtMost l v ∧ AtMost v h))) := by
  obtain ⟨e, built, evaluated⟩ := target.evaluates
  obtain ⟨lowest, builtLow, evaluatedLow⟩ := low.evaluates
  obtain ⟨highest, builtHigh, evaluatedHigh⟩ := high.evaluates
  constructor
  · obtain ⟨es, builtItems, valued⟩ := built_items listed
    apply tells_negated (s := .inList x items) (fun negated => ?_)
      (inListPredicate_eval evaluated target.shown valued) List.any_eq_true
    rw [buildExpr, built, ok_bind, builtItems, ok_bind]
  · obtain ⟨b, within, told⟩ := between_eval evaluated target.shown evaluatedLow low.shown
      evaluatedHigh high.shown above below
    apply tells_negated (s := (.between x · lo hi)) (fun negated => ?_) within
      told
    rw [buildExpr, built, ok_bind, builtLow, ok_bind, builtHigh, ok_bind]

end Predicates

def pairSchema : Schema := ⟨[.new "a" .int64, .new "b" .int64]⟩
def pair : Record := ⟨[.int64 2, .int64 3]⟩
def pairs : RecordBatch := ⟨pairSchema, [pair]⟩
def colB : SqlExpr := .identifier ⟨"b"⟩
def total : SqlExpr := .nested (.binaryOp columnA .plus colB)

/-- (a + b) IN (b, (a + b)), and (a + b) BETWEEN b AND a. -/
theorem total_tells :
    (@Tells noRegex pair pairs (.inList total [colB, total] false)
        (∃ w ∈ [.int64 3, .int64 5], Value.partialEq (.int64 5) w = true) ∧
      @Tells noRegex pair pairs (.inList total [colB, total] true)
        (¬ ∃ w ∈ [.int64 3, .int64 5], Value.partialEq (.int64 5) w = true)) ∧
    (@Tells noRegex pair pairs (.between total false colB columnA)
        (AtMost (.int64 3) (.int64 5) ∧ AtMost (.int64 5) (.int64 2)) ∧
      @Tells noRegex pair pairs (.between total true colB columnA)
        (¬ (AtMost (.int64 3) (.int64 5) ∧ AtMost (.int64 5) (.int64 2)))) := by
  have a : @Operand noRegex pair pairs columnA (.int64 2) :=
    @Operand.mk noRegex _ _ _ _ ⟨_, rfl, rfl⟩ (by decide)
  have b : @Operand noRegex pair pairs colB (.int64 3) :=
    @Operand.mk noRegex _ _ _ _ ⟨_, rfl, rfl⟩ (by decide)
  have sum : @Operand noRegex pair pairs total (.int64 5) :=
    @Operand.mk noRegex _ _ _ _ ⟨_, rfl, rfl⟩ (by decide)
  exact @membership_tells noRegex pair pairs total colB columnA [colB, total] _ _ _ _ sum b a
    (.cons b (.cons sum .nil)) ⟨_, rfl⟩ ⟨_, rfl⟩

end RSparkMembership
