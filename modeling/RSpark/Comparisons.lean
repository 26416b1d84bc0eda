import RSpark.Expr

/- The comparison predicates against each other: orderings compare numbers of different types
   after widening, equality is the derived one and tells the types apart. -/
namespace RSparkComparisons
open RSparkValue RSparkExpr FloatText

section Comparisons
variable [Regex]

def Holds (op : BinaryOp) (a b : Value) : Prop := evalBinary op a b = .ok (.boolean true)

/-- `=` is `<=` and `>=`, `<>` is its negation, and one of `<`, `=`, `>` is TRUE. -/
structure ComparisonsAgree (a b : Value) : Prop where
  equality : Holds .eq a b ↔ Holds .ltEq a b ∧ Holds .gtEq a b
  negation : ∃ equal, evalBinary .eq a b = .ok (.boolean equal) ∧
    evalBinary .notEq a b = .ok (.boolean !equal)
  some : Holds .lt a b ∨ Holds .eq a b ∨ Holds .gt a b
  notLess : Holds .eq a b → ¬ Holds .lt a b
  notGreater : Holds .eq a b → ¬ Holds .gt a b
  notBoth : Holds .lt a b → ¬ Holds .gt a b

end Comparisons

section Values

/-- Numbers of different types that are one number in the type in which they are compared: i64
    for two integers, f64 otherwise. -/
def SameNumber : Value → Value → Prop
  | .int32 a, .int64 b => i32AsI64 a = b
  | .int64 a, .int32 b => a = i32AsI64 b
  | .int32 a, .float64 b => (i32AsF64 a == b) = true
  | .float64 a, .int32 b => (a == i32AsF64 b) = true
  | .int64 a, .float64 b => (i64AsF64 a == b) = true
  | .float64 a, .int64 b => (a == i64AsF64 b) = true
  | .float32 a, .float64 b => (widen a == b) = true
  | .float64 a, .float32 b => (a == widen b) = true
  | _, _ => False

theorem partialEq_other_type {a b : Value} (other : a.dataTypeName ≠ b.dataTypeName) :
    a.partialEq b = false := by
  cases a <;> cases b <;> first | rfl | exact absurd rfl other

theorem sameNumber_other_type {a b : Value} (same : SameNumber a b) :
    a.dataTypeName ≠ b.dataTypeName := by
  cases a <;> cases b <;> first | exact same.elim | simp [Value.dataTypeName]

theorem cmpF64_eq_iff {a b : Float} {x y : String} {o : Ordering}
    (compared : cmpF64 a b x y = .ok o) : o = .eq ↔ (a == b) = true := by
  rw [float_beq_of_compare (orError_eq_ok.mp compared), decide_eq_true_eq]

theorem compare_i64_eq_iff {a b : Int64} {o : Ordering}
    (compared : (.ok (compare a.toInt b.toInt) : Result Ordering) = .ok o) :
    o = .eq ↔ a = b := by
  rw [← Except.ok.inj compared, Std.compare_eq_iff_eq, Int64.toInt_inj]

theorem tryCmp_other_type {a b : Value} {o : Ordering} (left : a ≠ .null) (right : b ≠ .null)
    (other : a.dataTypeName ≠ b.dataTypeName) (compared : a.tryCmp b = .ok o) :
    o = .eq ↔ SameNumber a b := by
  cases a <;> cases b
  case int32.int64 a b => exact compare_i64_eq_iff compared
  case int64.int32 a b => exact compare_i64_eq_iff compared
  case int32.float64 a b => exact cmpF64_eq_iff compared
  case float64.int32 a b => exact cmpF64_eq_iff compared
  case int64.float64 a b => exact cmpF64_eq_iff compared
  case float64.int64 a b => exact cmpF64_eq_iff compared
  case float32.float64 a b => exact cmpF64_eq_iff compared
  case float64.float32 a b => exact cmpF64_eq_iff compared
  all_goals first
    | exact absurd rfl left
    | exact absurd rfl right
    | exact absurd rfl other
    | exact absurd compared (err_ne_ok _ _)

theorem partialEq_agrees_iff {a b : Value} {o : Ordering} (left : a ≠ .null) (right : b ≠ .null)
    (compared : a.tryCmp b = .ok o) : a.partialEq b = decide (o = .eq) ↔ ¬ SameNumber a b := by
  by_cases sameType : a.dataTypeName = b.dataTypeName
  · refine iff_of_true (partialEq_of_tryCmp sameType compared) fun same => ?_
    exact sameNumber_other_type same sameType
  · rw [partialEq_other_type sameType, ← tryCmp_other_type left right sameType compared]
    exact eq_comm.trans decide_eq_false_iff_not

end Values

section Law
variable [Regex]

theorem evalBinary_shown {a b : Value} (left : a ≠ .null) (right : b ≠ .null) (op : BinaryOp) :
    evalBinary op a b = applyBinary op a b := by
  rw [evalBinary, not_isNull left, not_isNull right]
  rfl

theorem holds_compared {a b : Value} {o : Ordering} (left : a ≠ .null) (right : b ≠ .null)
    (compared : a.tryCmp b = .ok o) {op : BinaryOp} {test : Ordering → Bool}
    (tested : applyBinary op a b = compareWith test a b) : Holds op a b ↔ test o = true := by
  rw [Holds, evalBinary_shown left right, tested, compareWith, compared, ok_bind, Except.ok.injEq,
    Value.boolean.injEq]

/-- The comparisons of two values that can be compared agree exactly if the values are not one
    number in two types. -/
theorem comparisons_agree_iff (a b : Value) (o : Ordering) (left : a ≠ .null) (right : b ≠ .null)
    (compared : a.tryCmp b = .ok o) : ComparisonsAgree a b ↔ ¬ SameNumber a b := by
  have less : Holds .lt a b ↔ isLess o = true := holds_compared left right compared rfl
  have greater : Holds .gt a b ↔ isGreater o = true := holds_compared left right compared rfl
  have atMost : Holds .ltEq a b ↔ isLessOrEqual o = true :=
    holds_compared left right compared rfl
  have atLeast : Holds .gtEq a b ↔ isGreaterOrEqual o = true :=
    holds_compared left right compared rfl
  have equal : Holds .eq a b ↔ a.partialEq b = true := by
    rw [Holds, evalBinary_shown left right, applyBinary, Except.ok.injEq, Value.boolean.injEq]
  rw [← partialEq_agrees_iff left right compared]
  constructor
  · intro agree
    have both := agree.equality
    rw [equal, atMost, atLeast] at both
    rw [Bool.eq_iff_iff, both, decide_eq_true_eq]
    cases o <;> decide
  · intro agree
    rw [agree, decide_eq_true_eq] at equal
    constructor
    · rw [equal, atMost, atLeast]
      cases o <;> decide
    · refine ⟨a.partialEq b, ?_, ?_⟩
      · rw [evalBinary_shown left right, applyBinary]
      · rw [evalBinary_shown left right, applyBinary]
    · rw [less, equal, greater]
      cases o <;> decide
    · rw [less, equal]
      cases o <;> decide
    · rw [greater, equal]
      cases o <;> decide
    · rw [less, greater]
      cases o <;> decide

end Law

section Witness

theorem two_and_three : @ComparisonsAgree noRegex (.int64 2) (.int64 3) :=
  (@comparisons_agree_iff noRegex (.int64 2) (.int64 3) .lt (by decide) (by decide)
    (by decide)).mpr id

/-- The number one as i32 and as i64 is at most and at least, but not equal to itself. -/
theorem one_is_not_one : ¬ ∀ (a b : Value) (o : Ordering), a ≠ .null → b ≠ .null →
    a.tryCmp b = .ok o → @ComparisonsAgree noRegex a b := by
  intro claim
  have agree := claim (.int32 1) (.int64 1) .eq (by decide) (by decide) (by decide)
  have both : @Holds noRegex .ltEq (.int32 1) (.int64 1) ∧
      @Holds noRegex .gtEq (.int32 1) (.int64 1) := by
    constructor <;> rfl
  have equal := (@ComparisonsAgree.equality noRegex _ _ agree).mpr both
  exact absurd (Except.ok.inj equal) (by decide)

end Witness

end RSparkComparisons
