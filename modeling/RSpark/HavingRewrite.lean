import RSpark.Clauses
import RSpark.HavingAgreement

/- HAVING after the rewrite: where the rewritten predicate has a value on the projected row,
   the predicate has it in the group. -/
namespace RSparkHavingRewrite
open RSparkValue RSparkBatch RSparkExpr RSparkPlan RSparkOperators RSparkPlanner RSparkClauses
open RSparkHavingAgreement Listing

def parts : Expr → List Expr
  | .binary op left right => .binary op left right :: (parts left ++ parts right)
  | .not inner => .not inner :: parts inner
  | .isNull inner => .isNull inner :: parts inner
  | .isNotNull inner => .isNotNull inner :: parts inner
  | .ifExpr cond thenExpr elseExpr =>
      .ifExpr cond thenExpr elseExpr :: (parts cond ++ parts thenExpr ++ parts elseExpr)
  | .aliased expr name => .aliased expr name :: parts expr
  | other => [other]

def columnName : Expr → Option String
  | .column name => some name
  | _ => none

def columnsOf (e : Expr) : List String := (parts e).filterMap columnName

structure Call where
  func : AggregateFn
  arg : Expr
  distinct : Bool
  deriving DecidableEq

def callOf : Expr → Option Call
  | .aggregate func arg distinct => some ⟨func, arg, distinct⟩
  | .aliased (.aggregate func arg distinct) _ => some ⟨func, arg, distinct⟩
  | _ => none

def lookedUp (items : List Expr) (e : Expr) : String :=
  ((items.find? (exprStrictlyMatches · e)).getD e).displayName

theorem self_mem_parts (e : Expr) : e ∈ parts e := by
  cases e <;> simp [parts]

theorem columnsOf_binary (op : BinaryOp) (left right : Expr) :
    columnsOf (.binary op left right) = columnsOf left ++ columnsOf right := by
  rw [columnsOf, parts, List.filterMap_cons_none rfl, List.filterMap_append]
  rfl

theorem columnsOf_if (cond thenExpr elseExpr : Expr) :
    columnsOf (.ifExpr cond thenExpr elseExpr) =
      columnsOf cond ++ columnsOf thenExpr ++ columnsOf elseExpr := by
  rw [columnsOf, parts, List.filterMap_cons_none rfl, List.filterMap_append,
    List.filterMap_append]
  rfl

theorem exprStrictlyMatches_call {a b : Expr} (h : exprStrictlyMatches a b = true)
    {func : AggregateFn} {arg : Expr} {distinct : Bool}
    (call : stripAlias b = .aggregate func arg distinct) :
    ∃ arg', stripAlias a = .aggregate func arg' distinct := by
  induction a with
  | aliased inner _ ih => exact ih h
  | aggregate func' arg' distinct' _ =>
    rw [exprStrictlyMatches, call] at h
    simp only [Bool.and_eq_true, decide_eq_true_eq] at h
    obtain ⟨⟨rfl, rfl⟩, _⟩ := h
    exact ⟨arg', rfl⟩
  | column name => rw [exprStrictlyMatches, call] at h; exact nomatch h
  | literal lit => rw [exprStrictlyMatches, call] at h; exact nomatch h
  | binary op left right _ _ => rw [exprStrictlyMatches, call] at h; exact nomatch h
  | _ => exact nomatch h

theorem stripAlias_of_call {e : Expr} {call : Call} (h : callOf e = some call) :
    stripAlias e = .aggregate call.func call.arg call.distinct := by
  unfold callOf at h
  split at h
  · obtain rfl := Option.some.inj h
    rfl
  · obtain rfl := Option.some.inj h
    rfl
  · exact nomatch h

/-- An item that a part of HAVING is taken for is that part, but for its alias. -/
def MatchesSelf (items : List Expr) (e : Expr) : Prop :=
  ∀ part ∈ parts e, callOf part = none →
    ∀ item ∈ items.find? (exprStrictlyMatches · part), stripAlias item = part

instance (items : List Expr) (e : Expr) : Decidable (MatchesSelf items e) :=
  inferInstanceAs (Decidable (∀ part ∈ parts e, callOf part = none →
    ∀ item ∈ items.find? (exprStrictlyMatches · part), stripAlias item = part))

theorem matchesSelf_of_part {op : BinaryOp} {left right : Expr}
    (self : MatchesSelf items (.binary op left right)) :
    MatchesSelf items left ∧ MatchesSelf items right := by
  simp only [MatchesSelf, parts, List.mem_cons, List.mem_append] at self
  exact ⟨fun part mem => self part (Or.inr (Or.inl mem)),
    fun part mem => self part (Or.inr (Or.inr mem))⟩

theorem matchesSelf_inner {inner e : Expr} (inside : ∀ part ∈ parts inner, part ∈ parts e)
    (self : MatchesSelf items e) : MatchesSelf items inner :=
  fun part mem => self part (inside part mem)

/-- A call that is looked up in the projected row has there the value of the aggregate. -/
def CallsAgree (record : Record) (batch : RecordBatch) (items : List Expr)
    (aggregate : AggregateFn → Expr → Bool → Result Value) (e : Expr) : Prop :=
  ∀ part ∈ parts e, ∀ call ∈ callOf part, ∀ v,
    lookupAggregate (lookedUp items part) record batch = .ok v →
      aggregate call.func call.arg call.distinct = .ok v

theorem callsAgree_of_part {op : BinaryOp} {left right : Expr}
    (calls : CallsAgree record batch items aggregate (.binary op left right)) :
    CallsAgree record batch items aggregate left ∧
      CallsAgree record batch items aggregate right := by
  simp only [CallsAgree, parts, List.mem_cons, List.mem_append] at calls
  exact ⟨fun part mem => calls part (Or.inr (Or.inl mem)),
    fun part mem => calls part (Or.inr (Or.inr mem))⟩

section Evaluation
variable [Regex] {record : Record} {batch : RecordBatch}
variable {column : String → Result Value} {aggregate : AggregateFn → Expr → Bool → Result Value}

theorem eval_stripAlias (e : Expr) : (stripAlias e).eval record batch = e.eval record batch := by
  induction e with
  | aliased inner _ ih => exact ih
  | _ => rfl

theorem meaning_stripAlias (e : Expr) :
    meaning column aggregate (stripAlias e) = meaning column aggregate e := by
  induction e with
  | aliased inner _ ih => exact ih
  | _ => rfl

/-- The columns of `e` that have a value in the batch mean the same. -/
def ColumnsAgree (record : Record) (batch : RecordBatch) (column : String → Result Value)
    (e : Expr) : Prop :=
  ∀ name ∈ columnsOf e, ∀ v, (Expr.column name).eval record batch = .ok v → column name = .ok v

theorem meaning_of_eval {e : Expr} (columns : ColumnsAgree record batch column e) {v : Value}
    (h : e.eval record batch = .ok v) : meaning column aggregate e = .ok v := by
  induction e generalizing v with
  | column name => exact columns name (by simp [columnsOf, parts, columnName]) v h
  | literal lit => exact h
  | binary op left right ihl ihr =>
    simp only [ColumnsAgree, columnsOf_binary, List.mem_append] at columns
    obtain ⟨lv, hl, h⟩ := bind_eq_ok.mp h
    obtain ⟨rv, hr, h⟩ := bind_eq_ok.mp h
    rw [meaning, ihl (fun name mem => columns name (Or.inl mem)) hl,
      ihr (fun name mem => columns name (Or.inr mem)) hr]
    exact h
  | not inner ih =>
    obtain ⟨iv, hi, h⟩ := bind_eq_ok.mp h
    rw [meaning, ih columns hi]
    exact h
  | isNull inner ih =>
    obtain ⟨iv, hi, h⟩ := bind_eq_ok.mp h
    rw [meaning, ih columns hi]
    exact h
  | isNotNull inner ih =>
    obtain ⟨iv, hi, h⟩ := bind_eq_ok.mp h
    rw [meaning, ih columns hi]
    exact h
  | ifExpr cond thenExpr elseExpr ihc iht ihe =>
    simp only [ColumnsAgree, columnsOf_if, List.mem_append] at columns
    obtain ⟨cv, hc, h⟩ := bind_eq_ok.mp h
    rw [meaning, ihc (fun name mem => columns name (Or.inl (Or.inl mem))) hc, ok_bind]
    split at h
    · rename_i holds
      rw [if_pos holds]
      exact iht (fun name mem => columns name (Or.inl (Or.inr mem))) h
    · rename_i fails
      rw [if_neg fails]
      exact ihe (fun name mem => columns name (Or.inr mem)) h
  | aggregate func arg distinct _ => exact absurd h (err_ne_ok _ _)
  | aliased inner name ih => exact ih columns h
  | star => exact absurd h (err_ne_ok _ _)

theorem spineNames_of_eval {e : Expr} {v : Value} (h : e.eval record batch = .ok v) :
    spineNames e = [] := by
  induction e generalizing v with
  | aggregate func arg distinct _ => exact absurd h (err_ne_ok _ _)
  | aliased inner name _ =>
    cases inner with
    | aggregate func arg distinct => exact absurd h (err_ne_ok _ _)
    | _ => rfl
  | binary op left right ihl ihr =>
    obtain ⟨lv, hl, h⟩ := bind_eq_ok.mp h
    obtain ⟨rv, hr, h⟩ := bind_eq_ok.mp h
    rw [spineNames, ihl hl, ihr hr]
    rfl
  | _ => rfl

/-- The value found, or NULL where the reference has none. -/
def Agrees (v : Value) (reference : Result Value) : Prop :=
  reference = .ok v ∨ (v = .null ∧ ∀ w, reference ≠ .ok w)

theorem agrees_applyBinary {op : BinaryOp} {lv rv v : Value}
    (notNull : (lv.isNull || rv.isNull) = false) (h : applyBinaryOp op lv rv = .ok v) :
    Agrees v (applyBinary op lv rv) := by
  cases op with
  | and => cases lv <;> cases rv <;>
      simp_all [Agrees, applyBinary, logicalAnd, applyBinaryOp, err, Value.isNull]
  | or => cases lv <;> cases rv <;>
      simp_all [Agrees, applyBinary, logicalOr, applyBinaryOp, err, Value.isNull]
  | eq => exact Or.inl h
  | notEq => exact Or.inl h
  | lt => exact Or.inl h
  | ltEq => exact Or.inl h
  | gt => exact Or.inl h
  | gtEq => exact Or.inl h
  | _ => exact absurd h (err_ne_ok _ _)

theorem agrees_binary {op : BinaryOp} {lv rv v : Value} {left right : Result Value}
    (agreesL : Agrees lv left) (agreesR : Agrees rv right)
    (h : (if lv.isNull || rv.isNull then .ok .null else applyBinaryOp op lv rv) = .ok v) :
    Agrees v (left >>= fun lv => right >>= fun rv => evalBinary op lv rv) := by
  rcases agreesL with rfl | ⟨rfl, noneL⟩
  · rcases agreesR with rfl | ⟨rfl, noneR⟩
    · simp only [ok_bind, evalBinary]
      split at h
      · rename_i anyNull
        rw [if_pos anyNull]
        exact Or.inl h
      · rename_i noNull
        rw [if_neg noNull]
        exact agrees_applyBinary (by simpa using noNull) h
    · rw [Value.isNull, Bool.or_true, if_pos rfl] at h
      obtain rfl := Except.ok.inj h
      refine Or.inr ⟨rfl, fun w evaluated => ?_⟩
      obtain ⟨rv, there, _⟩ := bind_eq_ok.mp (ok_bind lv _ ▸ evaluated)
      exact noneR rv there
  · rw [show (Value.null.isNull || rv.isNull) = true from rfl, if_pos rfl] at h
    obtain rfl := Except.ok.inj h
    refine Or.inr ⟨rfl, fun w evaluated => ?_⟩
    obtain ⟨lv, there, _⟩ := bind_eq_ok.mp evaluated
    exact noneL lv there

end Evaluation

section Rewriting
variable [Regex] {record : Record} {batch : RecordBatch} {items : List Expr}
variable {column : String → Result Value} {aggregate : AggregateFn → Expr → Bool → Result Value}

theorem eval_of_matched {e item : Expr} {v : Value} (self : MatchesSelf items e)
    (found : items.find? (exprStrictlyMatches · e) = some item)
    (h : item.eval record batch = .ok v) : e.eval record batch = .ok v := by
  have matched := List.find?_some found
  cases call : callOf e with
  | none =>
    have same := self e (self_mem_parts e) call item found
    rw [← same, eval_stripAlias, h]
  | some call' =>
    obtain ⟨arg, stripped⟩ := exprStrictlyMatches_call matched (stripAlias_of_call call)
    rw [← eval_stripAlias, stripped] at h
    exact absurd h (err_ne_ok _ _)

theorem columns_of_part {op : BinaryOp} {left right : Expr}
    (columns : ColumnsAgree record batch column (.binary op left right)) :
    ColumnsAgree record batch column left ∧ ColumnsAgree record batch column right := by
  simp only [ColumnsAgree, columnsOf_binary, List.mem_append] at columns
  exact ⟨fun name mem => columns name (Or.inl mem), fun name mem => columns name (Or.inr mem)⟩

theorem eval_of_rewritten {e : Expr} (self : MatchesSelf items e) {v : Value}
    (h : (rewriteHaving items e).eval record batch = .ok v) : e.eval record batch = .ok v := by
  induction e generalizing v with
  | binary op left right ihl ihr =>
    unfold rewriteHaving at h
    split at h
    · exact eval_of_matched self (by assumption) h
    · obtain ⟨selfL, selfR⟩ := matchesSelf_of_part self
      obtain ⟨lv, hl, h⟩ := bind_eq_ok.mp h
      obtain ⟨rv, hr, h⟩ := bind_eq_ok.mp h
      rw [Expr.eval, ihl selfL hl, ihr selfR hr]
      exact h
  | not inner ih | isNull inner ih | isNotNull inner ih =>
    unfold rewriteHaving at h
    split at h
    · exact eval_of_matched self (by assumption) h
    · obtain ⟨iv, hi, h⟩ := bind_eq_ok.mp h
      rw [Expr.eval, ih (matchesSelf_inner (fun _ => List.mem_cons_of_mem _) self) hi]
      exact h
  | _ =>
    unfold rewriteHaving at h
    split at h
    · exact eval_of_matched self (by assumption) h
    · exact h

theorem substitute_call {e : Expr} {call : Call} (h : callOf e = some call) :
    substituteAggregates record batch e = lookupAggregate e.displayName record batch := by
  unfold callOf at h
  split at h
  · rfl
  · rfl
  · exact nomatch h

theorem substitute_scalar {e : Expr} (scalar : callOf e = none)
    (notBinary : ∀ op left right, e ≠ .binary op left right) :
    substituteAggregates record batch e = e.eval record batch := by
  cases e with
  | aggregate func arg distinct => exact nomatch scalar
  | aliased inner name =>
    cases inner with
    | aggregate func arg distinct => exact nomatch scalar
    | _ => rfl
  | binary op left right => exact absurd rfl (notBinary op left right)
  | _ => rfl

theorem meaning_of_call {e : Expr} {call : Call} (h : callOf e = some call) :
    meaning column aggregate e = aggregate call.func call.arg call.distinct := by
  rw [← meaning_stripAlias, stripAlias_of_call h]
  rfl

theorem agrees_of_spineless {e : Expr} (columns : ColumnsAgree record batch column e)
    (spine : spineNames e = []) {v : Value}
    (h : substituteAggregates record batch e = .ok v) :
    Agrees v (meaning column aggregate e) := by
  induction e generalizing v with
  | binary op left right ihl ihr =>
    obtain ⟨columnsL, columnsR⟩ := columns_of_part columns
    obtain ⟨spineL, spineR⟩ := List.append_eq_nil_iff.mp spine
    obtain ⟨lv, hl, h⟩ := bind_eq_ok.mp h
    obtain ⟨rv, hr, h⟩ := bind_eq_ok.mp h
    exact agrees_binary (ihl columnsL spineL hl) (ihr columnsR spineR hr) h
  | aggregate func arg distinct _ => exact nomatch spine
  | aliased inner name _ =>
    cases inner with
    | aggregate func arg distinct => exact nomatch spine
    | _ => exact Or.inl (meaning_of_eval columns h)
  | _ => exact Or.inl (meaning_of_eval columns h)

def Projects (record : Record) (batch : RecordBatch) (item : Expr) : Prop :=
  callOf item = none → item ≠ .star → ∃ v, item.eval record batch = .ok v

theorem agrees_of_matched {row : Record} {under : RecordBatch} {e item : Expr}
    (self : MatchesSelf items e) (columns : ColumnsAgree record batch column e)
    (calls : CallsAgree record batch items aggregate e) (projects : Projects row under item)
    (found : items.find? (exprStrictlyMatches · e) = some item) {v : Value}
    (h : substituteAggregates record batch item = .ok v) :
    Agrees v (meaning column aggregate e) := by
  have matched := List.find?_some found
  cases call : callOf e with
  | some call' =>
    have asCall := calls e (self_mem_parts e) call' call
    rw [lookedUp, found, Option.getD_some] at asCall
    rw [meaning_of_call call]
    cases itemCall : callOf item with
    | some _ => exact Or.inl (asCall v (substitute_call itemCall ▸ h))
    | none =>
      -- an alias of an alias of the call, which the row evaluator refuses
      obtain ⟨arg, stripped⟩ := exprStrictlyMatches_call matched (stripAlias_of_call call)
      rw [substitute_scalar itemCall (fun op left right same => by
        rw [same] at stripped; exact nomatch stripped), ← eval_stripAlias, stripped] at h
      exact absurd h (err_ne_ok _ _)
  | none =>
    have same := self e (self_mem_parts e) call item found
    cases itemCall : callOf item with
    | some call' =>
      rw [stripAlias_of_call itemCall] at same
      rw [← same] at call
      exact nomatch call
    | none =>
      by_cases binary : ∃ op left right, item = .binary op left right
      · obtain ⟨op, left, right, rfl⟩ := binary
        obtain rfl : Expr.binary op left right = e := same
        obtain ⟨w, evaluated⟩ := projects itemCall (fun star => nomatch star)
        exact agrees_of_spineless columns (spineNames_of_eval evaluated) h
      · rw [substitute_scalar itemCall (fun op left right same => binary ⟨op, left, right, same⟩),
          ← eval_stripAlias, same] at h
        exact Or.inl (meaning_of_eval columns h)

theorem agrees_of_node {row : Record} {under : RecordBatch} {e : Expr}
    (self : MatchesSelf items e) (columns : ColumnsAgree record batch column e)
    (calls : CallsAgree record batch items aggregate e)
    (projects : ∀ item ∈ items, Projects row under item)
    (notBinary : ∀ op left right, e ≠ .binary op left right) {v : Value}
    (h : substituteAggregates record batch (rewriteHaving items e) = .ok v) :
    Agrees v (meaning column aggregate e) := by
  cases found : items.find? (exprStrictlyMatches · e) with
  | some item =>
    rw [show rewriteHaving items e = item by unfold rewriteHaving; rw [found]] at h
    exact agrees_of_matched self columns calls (projects item (List.mem_of_find?_eq_some found))
      found h
  | none =>
    cases call : callOf e with
    | some call' =>
      have asCall := calls e (self_mem_parts e) call' call
      have kept : rewriteHaving items e = e := by
        unfold callOf at call
        split at call
        · unfold rewriteHaving
          rw [found]
        · unfold rewriteHaving
          rw [found]
        · exact nomatch call
      rw [lookedUp, found, Option.getD_none] at asCall
      rw [kept, substitute_call call] at h
      rw [meaning_of_call call]
      exact Or.inl (asCall v h)
    | none =>
      have scalar : callOf (rewriteHaving items e) = none ∧
          ∀ op left right, rewriteHaving items e ≠ .binary op left right := by
        unfold rewriteHaving
        rw [found]
        cases e with
        | binary op left right => exact absurd rfl (notBinary op left right)
        | aggregate func arg distinct => exact nomatch call
        | aliased inner name => exact ⟨call, fun _ _ _ same => nomatch same⟩
        | _ => exact ⟨rfl, fun _ _ _ same => nomatch same⟩
      rw [substitute_scalar scalar.1 scalar.2] at h
      exact Or.inl (meaning_of_eval columns (eval_of_rewritten self h))

theorem agrees_of_rewritten {row : Record} {under : RecordBatch} {e : Expr}
    (self : MatchesSelf items e) (columns : ColumnsAgree record batch column e)
    (calls : CallsAgree record batch items aggregate e)
    (projects : ∀ item ∈ items, Projects row under item) {v : Value}
    (h : substituteAggregates record batch (rewriteHaving items e) = .ok v) :
    Agrees v (meaning column aggregate e) := by
  induction e generalizing v with
  | binary op left right ihl ihr =>
    cases found : items.find? (exprStrictlyMatches · (.binary op left right)) with
    | some item =>
      rw [show rewriteHaving items (.binary op left right) = item by
        unfold rewriteHaving; rw [found]] at h
      exact agrees_of_matched self columns calls
        (projects item (List.mem_of_find?_eq_some found)) found h
    | none =>
      obtain ⟨selfL, selfR⟩ := matchesSelf_of_part self
      obtain ⟨columnsL, columnsR⟩ := columns_of_part columns
      obtain ⟨callsL, callsR⟩ := callsAgree_of_part calls
      unfold rewriteHaving at h
      rw [found] at h
      obtain ⟨lv, hl, h⟩ := bind_eq_ok.mp h
      obtain ⟨rv, hr, h⟩ := bind_eq_ok.mp h
      exact agrees_binary (ihl selfL columnsL callsL hl) (ihr selfR columnsR callsR hr) h
  | _ =>
    exact agrees_of_node self columns calls projects (fun _ _ _ same => nomatch same) h

theorem having_keeps {row : Record} {under : RecordBatch} {e : Expr}
    (self : MatchesSelf items e) (columns : ColumnsAgree record batch column e)
    (calls : CallsAgree record batch items aggregate e)
    (projects : ∀ item ∈ items, Projects row under item) {b : Bool}
    (h : evalPredicate (rewriteHaving items e) record batch = .ok b) :
    b = isTrue (meaning column aggregate e) := by
  have decided {v : Value} (agrees : Agrees v (meaning column aggregate e))
      (result : predicateResult v = .ok b) : b = isTrue (meaning column aggregate e) := by
    rcases agrees with same | ⟨rfl, none⟩
    · rw [same]
      exact predicateResult_isTrue result
    · obtain rfl := Except.ok.inj result
      cases reference : meaning column aggregate e with
      | error _ => rfl
      | ok w => exact absurd reference (none w)
  unfold evalPredicate at h
  split at h
  · obtain ⟨v, substituted, result⟩ := bind_eq_ok.mp h
    exact decided (agrees_of_rewritten self columns calls projects substituted) result
  · obtain ⟨v, evaluated, result⟩ := bind_eq_ok.mp h
    exact decided (Or.inl (meaning_of_eval columns (eval_of_rewritten self evaluated))) result

end Rewriting

end RSparkHavingRewrite
