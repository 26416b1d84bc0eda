import RSpark.JoinRows

/- The condition of a join stands twice: as the predicate that the planner builds and drops, and
   as the comparison of the join loop. -/
namespace RSparkJoinPredicate
open RSparkValue RSparkBatch RSparkExpr RSparkPlan RSparkOperators RSparkExprBuilder RSparkPlanner
open RSparkClauses RSparkJoinLaw RSparkJoinRows

section Predicate

def joinPredicate (pairs : List (String × String)) : Expr :=
  combineAnd (pairs.map fun p => .binary .eq (.column p.1) (.column p.2))

variable [Regex]

/-- An equality between two columns has a left and a right side; everything else is evaluated
    as in a row. -/
def evalAcross (left right : RecordBatch) (l r : Record) : Expr → Result Value
  | .binary .eq (.column a) (.column b) => do
      let lv ← (Expr.column a).eval l left
      let rv ← (Expr.column b).eval r right
      evalBinary .eq lv rv
  | .binary op x y => do
      let lv ← evalAcross left right l r x
      let rv ← evalAcross left right l r y
      evalBinary op lv rv
  | other => other.eval l left

variable {left right : RecordBatch} {l r : Record}

theorem evalBinary_and_true {x y : Value} :
    evalBinary .and x y = .ok (.boolean true) ↔ x = .boolean true ∧ y = .boolean true := by
  unfold evalBinary
  cases x <;> cases y <;> simp [Value.isNull, applyBinary, logicalAnd, err]

theorem and_true {x y : Expr} :
    evalAcross left right l r (.binary .and x y) = .ok (.boolean true) ↔
      evalAcross left right l r x = .ok (.boolean true) ∧
        evalAcross left right l r y = .ok (.boolean true) := by
  rw [evalAcross]
  · constructor
    · intro whole
      obtain ⟨lv, hl, whole⟩ := bind_eq_ok.mp whole
      obtain ⟨rv, hr, whole⟩ := bind_eq_ok.mp whole
      obtain ⟨rfl, rfl⟩ := evalBinary_and_true.mp whole
      exact ⟨hl, hr⟩
    · rintro ⟨hl, hr⟩
      rw [hl, hr]
      exact evalBinary_and_true.mpr ⟨rfl, rfl⟩
  · simp

theorem foldl_and_true (parts : List Expr) (first : Expr) :
    evalAcross left right l r (parts.foldl (fun acc next => .binary .and acc next) first) =
        .ok (.boolean true) ↔
      ∀ part ∈ first :: parts, evalAcross left right l r part = .ok (.boolean true) := by
  induction parts generalizing first with
  | nil => simp
  | cons next rest ih =>
    rw [List.foldl_cons, ih, List.forall_mem_cons, and_true, List.forall_mem_cons,
      List.forall_mem_cons]
    exact and_assoc

theorem combineAnd_true (parts : List Expr) :
    evalAcross left right l r (combineAnd parts) = .ok (.boolean true) ↔
      ∀ part ∈ parts, evalAcross left right l r part = .ok (.boolean true) := by
  cases parts with
  | nil => simp [combineAnd, evalAcross, Expr.eval, Literal.toValue]
  | cons first rest => exact foldl_and_true rest first

theorem equality_true {name : String} (inLeft : name ∈ left.schema.fieldNames)
    (inRight : name ∈ right.schema.fieldNames) :
    evalAcross left right l r (.binary .eq (.column name) (.column name)) =
        .ok (.boolean true) ↔
      sqlEquals (cell left l name) (cell right r name) = true := by
  obtain ⟨i, foundL⟩ := indexOf_of_mem inLeft
  obtain ⟨j, foundR⟩ := indexOf_of_mem inRight
  rw [sqlEquals_iff_eval, evalAcross]
  simp only [Expr.eval, foundL, foundR, orError, ok_bind, cell, Option.map_some, Option.getD_some]

theorem joinPredicate_true :
    evalAcross left right l r (joinPredicate (joinPairs left.schema right.schema)) =
        .ok (.boolean true) ↔
      ∀ p ∈ joinPairs left.schema right.schema,
        sqlEquals (cell left l p.1) (cell right r p.2) = true := by
  rw [joinPredicate, combineAnd_true, List.forall_mem_map]
  refine forall₂_congr fun p mem => ?_
  obtain ⟨name, rfl, inLeft, inRight⟩ := mem_joinPairs.mp mem
  exact equality_true inLeft inRight

omit [Regex] in
theorem joinCond_true :
    joinCond left.schema right.schema (joinPairs left.schema right.schema) l r = true ↔
      ∀ p ∈ joinPairs left.schema right.schema,
        (cell left l p.1).partialEq (cell right r p.2) = true := by
  rw [joinCond, List.all_eq_true]
  refine forall₂_congr fun p mem => ?_
  obtain ⟨name, rfl, inLeft, inRight⟩ := mem_joinPairs.mp mem
  rw [pairHolds_shared inLeft inRight]

end Predicate

section Law

/-- Some key differs, or none is NULL in both records. -/
def NoSharedNull (left right : RecordBatch) (l r : Record) : Prop :=
  (∃ p ∈ joinPairs left.schema right.schema,
    (cell left l p.1).partialEq (cell right r p.2) = false) ∨
  ∀ p ∈ joinPairs left.schema right.schema,
    ¬ ((cell left l p.1).isNull = true ∧ (cell right r p.2).isNull = true)

instance (left right : RecordBatch) (l r : Record) : Decidable (NoSharedNull left right l r) :=
  inferInstanceAs (Decidable (_ ∨ _))

theorem nulls_equal {a b : Value} (either : a.isNull = true ∨ b.isNull = true)
    (equal : a.partialEq b = true) : a.isNull = true ∧ b.isNull = true := by
  cases a <;> cases b <;> simp_all [Value.isNull, Value.partialEq]

theorem partialEq_of_sqlEquals {a b : Value} (equal : sqlEquals a b = true) :
    a.partialEq b = true ∧ ¬ (a.isNull = true ∧ b.isNull = true) := by
  simp only [sqlEquals, Bool.and_eq_true, Bool.not_eq_true'] at equal
  exact ⟨equal.2, by simp [equal.1.1]⟩

variable [Regex]

/-- Two records are joined exactly if the predicate is true of them, so never over a NULL. -/
structure MatchesAsPredicate (left right : RecordBatch) (l r : Record) : Prop where
  agree : joinCond left.schema right.schema (joinPairs left.schema right.schema) l r = true ↔
    evalAcross left right l r (joinPredicate (joinPairs left.schema right.schema)) =
      .ok (.boolean true)
  nullFree : ∀ p ∈ joinPairs left.schema right.schema,
    ((cell left l p.1).isNull = true ∨ (cell right r p.2).isNull = true) →
    joinCond left.schema right.schema (joinPairs left.schema right.schema) l r = false

/-- The join treats two records as matching just if its predicate is true of them, unless all
    their keys are equal and some are NULL on both sides. -/
theorem matches_as_predicate_iff (left right : RecordBatch) (l r : Record) :
    MatchesAsPredicate left right l r ↔ NoSharedNull left right l r := by
  constructor
  · intro same
    by_cases matched : joinCond left.schema right.schema
        (joinPairs left.schema right.schema) l r = true
    · right
      have keys := joinPredicate_true.mp (same.agree.mp matched)
      exact fun p mem => (partialEq_of_sqlEquals (keys p mem)).2
    · left
      have differs := mt joinCond_true.mpr matched
      simpa using differs
  · intro free
    have apart (matched : joinCond left.schema right.schema
        (joinPairs left.schema right.schema) l r = true) :
        ∀ p ∈ joinPairs left.schema right.schema,
          ¬ ((cell left l p.1).isNull = true ∧ (cell right r p.2).isNull = true) := by
      rcases free with ⟨p, mem, differs⟩ | apart
      · exact absurd (joinCond_true.mp matched p mem) (by simp [differs])
      · exact apart
    constructor
    · rw [joinPredicate_true]
      constructor
      · intro matched p mem
        rw [sqlEquals_of_partialEq (apart matched p mem)]
        exact joinCond_true.mp matched p mem
      · intro keys
        exact joinCond_true.mpr fun p mem => (partialEq_of_sqlEquals (keys p mem)).1
    · intro p mem isNull
      by_contra matched
      rw [Bool.not_eq_false] at matched
      exact apart matched p mem (nulls_equal isNull (joinCond_true.mp matched p mem))

end Law

section Counterexample

def nameless : RecordBatch := ⟨⟨[.new "id" .int64]⟩, [⟨[.null]⟩]⟩

/-- Two records without an id are joined, where NULL = NULL is not true. -/
theorem nulls_matched :
    ¬ ∀ (left right : RecordBatch) (l r : Record),
      joinPairs left.schema right.schema ≠ [] → @MatchesAsPredicate noRegex left right l r := by
  intro claim
  have same := claim nameless nameless ⟨[.null]⟩ ⟨[.null]⟩ (by decide)
  have apart := @MatchesAsPredicate.nullFree noRegex _ _ _ _ same ("id", "id") (by decide)
    (by decide)
  exact absurd apart (by decide)

end Counterexample

end RSparkJoinPredicate
