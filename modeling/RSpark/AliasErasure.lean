import RSpark.Planner

/- What HAVING keeps under its rewrite: aliases apart, every node and every literal's value. -/
namespace RSparkAliasErasure
open RSparkValue RSparkExpr RSparkPlanner

def eraseAliases : Expr → Expr
  | .column name => .column name
  | .literal lit => .literal lit
  | .binary op left right => .binary op (eraseAliases left) (eraseAliases right)
  | .not inner => .not (eraseAliases inner)
  | .isNull inner => .isNull (eraseAliases inner)
  | .isNotNull inner => .isNotNull (eraseAliases inner)
  | .ifExpr cond thenExpr elseExpr =>
      .ifExpr (eraseAliases cond) (eraseAliases thenExpr) (eraseAliases elseExpr)
  | .aggregate func arg distinct => .aggregate func (eraseAliases arg) distinct
  | .aliased expr _ => eraseAliases expr
  | .star => .star

def LiteralAlike (a b : Literal) : Prop := a = b ∨ a.partialEq b = true

/-- Expressions that differ in nothing but equal literals. -/
inductive Alike : Expr → Expr → Prop where
  | column (name : String) : Alike (.column name) (.column name)
  | literal {a b : Literal} (same : LiteralAlike a b) : Alike (.literal a) (.literal b)
  | binary (op : BinaryOp) {left right left' right' : Expr} (onLeft : Alike left left')
      (onRight : Alike right right') : Alike (.binary op left right) (.binary op left' right')
  | not {inner inner' : Expr} (inside : Alike inner inner') : Alike (.not inner) (.not inner')
  | isNull {inner inner' : Expr} (inside : Alike inner inner') :
      Alike (.isNull inner) (.isNull inner')
  | isNotNull {inner inner' : Expr} (inside : Alike inner inner') :
      Alike (.isNotNull inner) (.isNotNull inner')
  | ifExpr {cond thenExpr elseExpr cond' thenExpr' elseExpr' : Expr} (test : Alike cond cond')
      (yes : Alike thenExpr thenExpr') (no : Alike elseExpr elseExpr') :
      Alike (.ifExpr cond thenExpr elseExpr) (.ifExpr cond' thenExpr' elseExpr')
  | aggregate (func : AggregateFn) {arg arg' : Expr} (distinct : Bool) (inside : Alike arg arg') :
      Alike (.aggregate func arg distinct) (.aggregate func arg' distinct)
  | star : Alike .star .star

/-- The rewrite with the error type of its source, one `?` for each recursive call. -/
def rewriteHavingResult (projections : List Expr) (expr : Expr) : Result Expr :=
  match projections.find? (exprStrictlyMatches · expr) with
  | some replacement => .ok replacement
  | none =>
      match expr with
      | .binary op left right => do
          let left' ← rewriteHavingResult projections left
          let right' ← rewriteHavingResult projections right
          .ok (.binary op left' right')
      | .not inner => do .ok (.not (← rewriteHavingResult projections inner))
      | .isNull inner => do .ok (.isNull (← rewriteHavingResult projections inner))
      | .isNotNull inner => do .ok (.isNotNull (← rewriteHavingResult projections inner))
      | other => .ok other

theorem alike_refl (e : Expr) : Alike (eraseAliases e) (eraseAliases e) := by
  induction e with
  | column name => exact .column name
  | literal lit => exact .literal (Or.inl rfl)
  | binary op left right ihl ihr => exact .binary op ihl ihr
  | not inner ih => exact .not ih
  | isNull inner ih => exact .isNull ih
  | isNotNull inner ih => exact .isNotNull ih
  | ifExpr cond thenExpr elseExpr ihc iht ihe => exact .ifExpr ihc iht ihe
  | aggregate func arg distinct ih => exact .aggregate func distinct ih
  | aliased inner name ih => exact ih
  | star => exact .star

theorem eraseAliases_stripAlias (e : Expr) : eraseAliases (stripAlias e) = eraseAliases e := by
  induction e with
  | aliased inner name ih => exact ih
  | _ => rfl

theorem alike_of_match {a b : Expr} (matched : exprStrictlyMatches a b = true) :
    Alike (eraseAliases a) (eraseAliases b) := by
  induction a generalizing b with
  | aliased inner name ih => exact ih matched
  | column name =>
    rw [exprStrictlyMatches] at matched
    rw [← eraseAliases_stripAlias b]
    cases stripped : stripAlias b <;> rw [stripped] at matched
    case column other =>
      obtain rfl := of_decide_eq_true matched
      exact .column name
    all_goals cases matched
  | literal lit =>
    rw [exprStrictlyMatches] at matched
    rw [← eraseAliases_stripAlias b]
    cases stripped : stripAlias b <;> rw [stripped] at matched
    case literal other => exact .literal (Or.inr matched)
    all_goals cases matched
  | binary op left right ihl ihr =>
    rw [exprStrictlyMatches] at matched
    rw [← eraseAliases_stripAlias b]
    cases stripped : stripAlias b <;> rw [stripped] at matched
    case binary op' left' right' =>
      simp only [Bool.and_eq_true, decide_eq_true_eq] at matched
      obtain ⟨⟨rfl, onLeft⟩, onRight⟩ := matched
      exact .binary op (ihl onLeft) (ihr onRight)
    all_goals cases matched
  | aggregate func arg distinct ih =>
    rw [exprStrictlyMatches] at matched
    rw [← eraseAliases_stripAlias b]
    cases stripped : stripAlias b <;> rw [stripped] at matched
    case aggregate func' arg' distinct' =>
      simp only [Bool.and_eq_true, decide_eq_true_eq] at matched
      obtain ⟨⟨rfl, rfl⟩, inside⟩ := matched
      exact .aggregate func distinct (ih inside)
    all_goals cases matched
  | _ => cases matched

theorem rewritten_of_found {projections : List Expr} {e replacement : Expr}
    (found : projections.find? (exprStrictlyMatches · e) = some replacement) :
    rewriteHavingResult projections e = .ok replacement ∧
      rewriteHaving projections e = replacement := by
  unfold rewriteHavingResult rewriteHaving
  rw [found]
  exact ⟨rfl, rfl⟩

theorem same_of_unmatched {projections : List Expr} {e : Expr}
    (inner : projections.find? (exprStrictlyMatches · e) = none →
      rewriteHavingResult projections e = .ok (rewriteHaving projections e)) :
    rewriteHavingResult projections e = .ok (rewriteHaving projections e) := by
  cases found : projections.find? (exprStrictlyMatches · e) with
  | some replacement =>
    obtain ⟨result, plain⟩ := rewritten_of_found found
    rw [result, plain]
  | none => exact inner found

theorem rewriteHavingResult_eq (projections : List Expr) (e : Expr) :
    rewriteHavingResult projections e = .ok (rewriteHaving projections e) := by
  induction e with
  | binary op left right ihl ihr =>
    refine same_of_unmatched fun unmatched => ?_
    rw [rewriteHavingResult, rewriteHaving]
    simp only [unmatched, ihl, ihr, ok_bind]
  | not inner ih =>
    refine same_of_unmatched fun unmatched => ?_
    rw [rewriteHavingResult, rewriteHaving]
    simp only [unmatched, ih, ok_bind]
  | isNull inner ih =>
    refine same_of_unmatched fun unmatched => ?_
    rw [rewriteHavingResult, rewriteHaving]
    simp only [unmatched, ih, ok_bind]
  | isNotNull inner ih =>
    refine same_of_unmatched fun unmatched => ?_
    rw [rewriteHavingResult, rewriteHaving]
    simp only [unmatched, ih, ok_bind]
  | _ =>
    refine same_of_unmatched fun unmatched => ?_
    unfold rewriteHavingResult rewriteHaving
    simp only [unmatched]

theorem alike_of_unmatched {projections : List Expr} {e : Expr}
    (inner : projections.find? (exprStrictlyMatches · e) = none →
      Alike (eraseAliases (rewriteHaving projections e)) (eraseAliases e)) :
    Alike (eraseAliases (rewriteHaving projections e)) (eraseAliases e) := by
  cases found : projections.find? (exprStrictlyMatches · e) with
  | some replacement =>
    have accepted := List.find?_some found
    rw [(rewritten_of_found found).2]
    exact alike_of_match accepted
  | none => exact inner found

theorem rewriteHaving_alike (projections : List Expr) (e : Expr) :
    Alike (eraseAliases (rewriteHaving projections e)) (eraseAliases e) := by
  induction e with
  | binary op left right ihl ihr =>
    refine alike_of_unmatched fun unmatched => ?_
    rw [rewriteHaving, unmatched]
    exact .binary op ihl ihr
  | not inner ih =>
    refine alike_of_unmatched fun unmatched => ?_
    rw [rewriteHaving, unmatched]
    exact .not ih
  | isNull inner ih =>
    refine alike_of_unmatched fun unmatched => ?_
    rw [rewriteHaving, unmatched]
    exact .isNull ih
  | isNotNull inner ih =>
    refine alike_of_unmatched fun unmatched => ?_
    rw [rewriteHaving, unmatched]
    exact .isNotNull ih
  | _ =>
    refine alike_of_unmatched fun unmatched => ?_
    unfold rewriteHaving
    rw [unmatched]
    exact alike_refl _

/-- The rewrite of HAVING succeeds, and aliases apart it changes nothing but equal literals. -/
theorem having_rewritten_alike (projections : List Expr) (h : Expr) :
    ∃ h', rewriteHavingResult projections h = .ok h' ∧
      Alike (eraseAliases h') (eraseAliases h) :=
  ⟨rewriteHaving projections h, rewriteHavingResult_eq projections h,
    rewriteHaving_alike projections h⟩

end RSparkAliasErasure
