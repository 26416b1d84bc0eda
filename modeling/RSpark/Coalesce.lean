import RSpark.ExprBuilder

/- COALESCE as a chain of IFs. Each IF holds the chain before it twice, as its test and as its
   answer; evaluation has no effects, so the second copy gives what the first one gave. -/
namespace RSparkCoalesce
open RSparkValue RSparkBatch RSparkExpr RSparkExprBuilder

/-- The first result that is not NULL, be it a value or an error; NULL if there is none. -/
def firstNonNull : List (Result Value) → Result Value
  | [] => .ok .null
  | .ok .null :: rest => firstNonNull rest
  | other :: _ => other

theorem firstNonNull_null {result : Result Value} (null : result = .ok .null)
    (rest : List (Result Value)) : firstNonNull (result :: rest) = firstNonNull rest := by
  rw [null, firstNonNull]

theorem firstNonNull_found {result : Result Value} (found : result ≠ .ok .null)
    (rest : List (Result Value)) : firstNonNull (result :: rest) = result := by
  match result, found with
  | .error _, _ => rfl
  | .ok .null, found => exact absurd rfl found
  | .ok (.boolean _), _ => rfl
  | .ok (.int32 _), _ => rfl
  | .ok (.int64 _), _ => rfl
  | .ok (.float32 _), _ => rfl
  | .ok (.float64 _), _ => rfl
  | .ok (.string _), _ => rfl

theorem firstNonNull_skip {before : List (Result Value)} (nulls : ∀ r ∈ before, r = .ok .null)
    (rest : List (Result Value)) : firstNonNull (before ++ rest) = firstNonNull rest := by
  induction before with
  | nil => rfl
  | cons r before ih =>
    obtain ⟨null, nulls⟩ := List.forall_mem_cons.mp nulls
    rw [List.cons_append, firstNonNull_null null, ih nulls]

theorem firstNonNull_error {results : List (Result Value)} {fault : Fault}
    (failed : firstNonNull results = .error fault) :
    ∃ before after, results = before ++ .error fault :: after ∧ ∀ r ∈ before, r = .ok .null := by
  induction results with
  | nil => cases failed
  | cons result rest ih =>
    by_cases null : result = .ok .null
    · rw [firstNonNull_null null] at failed
      obtain ⟨before, after, parts, nulls⟩ := ih failed
      refine ⟨result :: before, after, by rw [parts]; rfl, ?_⟩
      exact List.forall_mem_cons.mpr ⟨null, nulls⟩
    · rw [firstNonNull_found null] at failed
      exact ⟨[], rest, by rw [failed]; rfl, by simp⟩

theorem firstNonNull_nested (first second : Result Value) (rest : List (Result Value)) :
    firstNonNull (firstNonNull [first, second] :: rest) =
      firstNonNull (first :: second :: rest) := by
  by_cases null : first = .ok .null
  · rw [firstNonNull_null null, firstNonNull_null null]
    by_cases null' : second = .ok .null
    · rw [firstNonNull_null null', firstNonNull_null null', firstNonNull, firstNonNull]
    · rw [firstNonNull_found null']
  · rw [firstNonNull_found null, firstNonNull_found null, firstNonNull_found null]

theorem materializeArgs_exprs (args : List Expr) :
    materializeArgs (args.map .expr) = .ok args := by
  induction args with
  | nil => rfl
  | cons e args ih => rw [List.map_cons, materializeArgs, ih, ok_bind]

theorem buildFunctionCall_scalar {name : String} (scalar : AggregateFn.fromName name = none)
    (args : List Expr) (distinct : Bool) :
    buildFunctionCall name (args.map .expr) distinct = scalarFunction name args := by
  rw [buildFunctionCall, scalar, materializeArgs_exprs, ok_bind]

variable [Regex] (record : Record) (batch : RecordBatch)

theorem eval_ifNotNull (acc next : Expr) :
    (Expr.ifExpr (.isNotNull acc) acc next).eval record batch =
      firstNonNull [acc.eval record batch, next.eval record batch] := by
  have last : firstNonNull [next.eval record batch] = next.eval record batch := by
    by_cases null : next.eval record batch = .ok .null
    · rw [firstNonNull_null null, null]
      rfl
    · exact firstNonNull_found null []
  rw [Expr.eval, Expr.eval]
  cases first : acc.eval record batch with
  | error fault => rfl
  | ok v =>
    rw [ok_bind, ok_bind]
    by_cases null : v = .null
    · subst null
      rw [firstNonNull_null rfl, last]
      rfl
    · rw [not_isNull null, firstNonNull_found fun same => null (Except.ok.inj same)]
      rfl

theorem eval_coalesceChain (acc : Expr) (rest : List Expr) :
    (coalesceChain acc rest).eval record batch =
      firstNonNull ((acc :: rest).map fun e => e.eval record batch) := by
  induction rest generalizing acc with
  | nil =>
    rw [coalesceChain, List.map_singleton]
    by_cases null : acc.eval record batch = .ok .null
    · rw [firstNonNull_null null, null]
      rfl
    · exact (firstNonNull_found null []).symm
  | cons next rest ih =>
    rw [coalesceChain, ih, List.map_cons, eval_ifNotNull, firstNonNull_nested]
    rfl

/-- COALESCE over at least one argument: the first value that is not NULL, whatever the arguments
    behind it are; NULL if every argument is; an error only behind NULLs. -/
theorem coalesce_first_value (first : Expr) (rest : List Expr) (distinct : Bool) :
    ∃ e, buildFunctionCall "coalesce" ((first :: rest).map .expr) distinct = .ok e ∧
      (∀ before arg after v, first :: rest = before ++ arg :: after →
        (∀ skipped ∈ before, skipped.eval record batch = .ok .null) →
        arg.eval record batch = .ok v → v ≠ .null → e.eval record batch = .ok v) ∧
      ((∀ arg ∈ first :: rest, arg.eval record batch = .ok .null) →
        e.eval record batch = .ok .null) ∧
      (∀ fault, e.eval record batch = .error fault →
        ∃ before arg after, first :: rest = before ++ arg :: after ∧
          (∀ skipped ∈ before, skipped.eval record batch = .ok .null) ∧
          arg.eval record batch = .error fault) := by
  have evaluated := eval_coalesceChain record batch first rest
  have mapped {args : List Expr} (nulls : ∀ arg ∈ args, arg.eval record batch = .ok .null) :
      ∀ r ∈ args.map (fun e => e.eval record batch), r = .ok .null := by
    intro r mem
    obtain ⟨arg, inside, rfl⟩ := List.mem_map.mp mem
    exact nulls arg inside
  refine ⟨coalesceChain first rest, ?_, ?_, ?_, ?_⟩
  · exact buildFunctionCall_scalar (by decide) (first :: rest) distinct
  · intro before arg after v parts nulls found shown
    rw [evaluated, parts, List.map_append, firstNonNull_skip (mapped nulls), List.map_cons, found,
      firstNonNull_found fun same => shown (Except.ok.inj same)]
  · intro nulls
    have skipped := firstNonNull_skip (mapped nulls) []
    rw [List.append_nil] at skipped
    rw [evaluated, skipped]
    rfl
  · intro fault failed
    rw [evaluated] at failed
    obtain ⟨before, after, parts, nulls⟩ := firstNonNull_error failed
    obtain ⟨skipped, others, split, left, right⟩ := List.map_eq_append_iff.mp parts
    obtain ⟨arg, rest', split', here, _⟩ := List.map_eq_cons_iff.mp right
    refine ⟨skipped, arg, rest', by rw [split, split'], fun e mem => ?_, here⟩
    exact nulls _ (by rw [← left]; exact List.mem_map_of_mem mem)

end RSparkCoalesce
