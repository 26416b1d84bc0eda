import RSpark.Coalesce

/- The calls that build_expr lowers into expressions without a node of their own: NVL into an IF
   that tests its second argument, ABS and the case functions into their argument, ILIKE into
   LIKE. -/
namespace RSparkScalarCalls
open RSparkValue RSparkBatch RSparkExpr RSparkSqlAst RSparkExprBuilder RSparkCoalesce

section Meanings

def notNegative : Value → Prop
  | .null => True
  | .int32 v => 0 ≤ v.toInt
  | .int64 v => 0 ≤ v.toInt
  | .float32 v => ¬ v < 0
  | .float64 v => ¬ v < 0
  | _ => False

def Opposite : Value → Value → Prop
  | .int32 v, .int32 w => w.toInt = -v.toInt
  | .int64 v, .int64 w => w.toInt = -v.toInt
  | .float32 v, .float32 w => w = -v
  | .float64 v, .float64 w => w = -v
  | _, _ => False

/-- The absolute value is the value or its opposite, and not below zero. -/
def Absolute (v w : Value) : Prop := notNegative w ∧ (w = v ∨ Opposite v w)

/-- `Absolute` on results: an error stays that error. -/
def AbsoluteResult : Result Value → Result Value → Prop
  | .ok v, .ok w => Absolute v w
  | .error e, .error f => e = f
  | _, _ => False

/-- The text of a value under a mapping of texts; NULL has none. -/
def mapText (f : String → String) : Value → Value
  | .null => .null
  | v => .string (f v.castToString)

/-- A text under the mapping; other values have no case. -/
def lowerCased (lower : String → String) : Value → Value
  | .string s => .string (lower s)
  | v => v

def likeLowered [Regex] (lower : String → String) (target pattern : Result Value) :
    Result Value := do
  let t ← target
  let p ← pattern
  evalBinary .like (lowerCased lower t) (lowerCased lower p)

end Meanings

section Laws

theorem scalar_call {name : String} {e : Expr} (args : List Expr) (distinct : Bool)
    (scalar : AggregateFn.fromName name = none) (built : scalarFunction name args = .ok e) :
    buildFunctionCall name (args.map .expr) distinct = .ok e :=
  (buildFunctionCall_scalar scalar args distinct).trans built

/-- The first value that is not NULL does not depend on the order of two results where one of
    them is NULL or they are one. -/
theorem firstNonNull_swap (first second : Result Value) :
    firstNonNull [second, first] = firstNonNull [first, second] ↔
      first = .ok .null ∨ second = .ok .null ∨ first = second := by
  by_cases none : first = .ok .null
  · subst none
    refine iff_of_true ?_ (Or.inl rfl)
    by_cases none' : second = .ok .null
    · rw [none']
    · rw [firstNonNull_found none', firstNonNull_null rfl, firstNonNull_found none']
  · by_cases none' : second = .ok .null
    · subst none'
      refine iff_of_true ?_ (Or.inr (Or.inl rfl))
      rw [firstNonNull_null rfl, firstNonNull_found none, firstNonNull_found none]
    · rw [firstNonNull_found none', firstNonNull_found none, or_iff_right none,
        or_iff_right none', eq_comm]

theorem absolute_self_iff (v : Value) : Absolute v v ↔ notNegative v :=
  ⟨And.left, fun positive => ⟨positive, Or.inl rfl⟩⟩

theorem absoluteResult_self_iff (r : Result Value) :
    AbsoluteResult r r ↔ ∀ v, r = .ok v → notNegative v := by
  cases r with
  | error e => exact iff_of_true rfl fun v same => nomatch same
  | ok v =>
    refine (absolute_self_iff v).trans ⟨fun positive w same => ?_, fun all => all v rfl⟩
    exact Except.ok.inj same ▸ positive

theorem mapText_self_iff (f : String → String) (v : Value) :
    mapText f v = v ↔ v = .null ∨ ∃ s, v = .string s ∧ f s = s := by
  cases v with
  | null => exact iff_of_true rfl (Or.inl rfl)
  | string s => simp [mapText, Value.castToString]
  | _ => simp [mapText]

theorem map_self_iff {α : Type} (f : α → α) (r : Result α) :
    r = r.map f ↔ ∀ v, r = .ok v → f v = v := by
  cases r with
  | error e => exact iff_of_true rfl fun v same => nomatch same
  | ok v =>
    rw [show (Except.ok v : Result α).map f = .ok (f v) from rfl, Except.ok.injEq]
    exact ⟨fun same w isW => by rw [← Except.ok.inj isW, ← same], fun all => (all v rfl).symm⟩

theorem case_call {name : String} (cased : name ∈ ["upper", "ucase", "lower", "lcase"]) (a : Expr)
    (distinct : Bool) : buildFunctionCall name [.expr a] distinct = .ok a := by
  simp only [List.mem_cons, List.not_mem_nil, or_false] at cased
  rcases cased with rfl | rfl | rfl | rfl <;>
    exact scalar_call [a] distinct (by decide) rfl

theorem mapText_result_iff (f : String → String) (r : Result Value) :
    r = r.map (mapText f) ↔ ∀ v, r = .ok v → v = .null ∨ ∃ s, v = .string s ∧ f s = s := by
  rw [map_self_iff]
  exact forall₂_congr fun v _ => mapText_self_iff f v

variable [Regex]

theorem evalBinary_like_text {lower : String → String} {t p : Value}
    (other : ¬ ∃ target pattern, t = .string target ∧ p = .string pattern) :
    evalBinary .like t p = evalBinary .like (lowerCased lower t) (lowerCased lower p) := by
  cases p with
  | string pattern =>
    cases t with
    | string target => exact absurd ⟨target, pattern, rfl, rfl⟩ other
    | _ => rfl
  | _ => cases t <;> rfl

theorem like_lowered_iff (lower : String → String) (target pattern : Result Value) :
    (do let t ← target
        let p ← pattern
        evalBinary .like t p) = likeLowered lower target pattern ↔
      ∀ t p, target = .ok (.string t) → pattern = .ok (.string p) →
        applyLike (.string t) (.string p) = applyLike (.string (lower t)) (.string (lower p)) := by
  cases target with
  | error e => exact iff_of_true rfl fun t p same => nomatch same
  | ok v =>
    cases pattern with
    | error e => exact iff_of_true rfl fun t p _ same => nomatch same
    | ok w =>
      show evalBinary .like v w = evalBinary .like (lowerCased lower v) (lowerCased lower w) ↔ _
      by_cases texts : ∃ target pattern, v = .string target ∧ w = .string pattern
      · obtain ⟨t, p, rfl, rfl⟩ := texts
        constructor
        · intro same t' p' isT isP
          cases isT
          cases isP
          exact same
        · intro all
          exact all t p rfl rfl
      · refine iff_of_true (evalBinary_like_text texts) fun t p isT isP => ?_
        exact absurd ⟨t, p, Except.ok.inj isT, Except.ok.inj isP⟩ texts

/-- What each call evaluates to against its meaning, for any mappings of texts to upper and to
    lower case. -/
theorem scalar_calls_iff (upper lower : String → String) (record : Record) (batch : RecordBatch)
    (a b : Expr) (distinct : Bool) :
    (∃ e c, buildFunctionCall "nvl" [.expr a, .expr b] distinct = .ok e ∧
      buildFunctionCall "coalesce" [.expr a, .expr b] distinct = .ok c ∧
      (e.eval record batch = c.eval record batch ↔
        a.eval record batch = .ok .null ∨ b.eval record batch = .ok .null ∨
          a.eval record batch = b.eval record batch)) ∧
    (∃ e, buildFunctionCall "abs" [.expr a] distinct = .ok e ∧
      (AbsoluteResult (a.eval record batch) (e.eval record batch) ↔
        ∀ v, a.eval record batch = .ok v → notNegative v)) ∧
    (∀ name ∈ ["upper", "ucase"], ∃ e, buildFunctionCall name [.expr a] distinct = .ok e ∧
      (e.eval record batch = (a.eval record batch).map (mapText upper) ↔
        ∀ v, a.eval record batch = .ok v → v = .null ∨ ∃ s, v = .string s ∧ upper s = s)) ∧
    (∀ name ∈ ["lower", "lcase"], ∃ e, buildFunctionCall name [.expr a] distinct = .ok e ∧
      (e.eval record batch = (a.eval record batch).map (mapText lower) ↔
        ∀ v, a.eval record batch = .ok v → v = .null ∨ ∃ s, v = .string s ∧ lower s = s)) ∧
    (∀ target pattern, buildExpr target = .ok a → buildExpr pattern = .ok b →
      ∃ e, buildExpr (.iLike false target pattern) = .ok e ∧
        (e.eval record batch =
            likeLowered lower (a.eval record batch) (b.eval record batch) ↔
          ∀ t p, a.eval record batch = .ok (.string t) → b.eval record batch = .ok (.string p) →
            applyLike (.string t) (.string p) =
              applyLike (.string (lower t)) (.string (lower p)))) := by
  refine ⟨?_, ?_, fun name named => ?_, fun name named => ?_, ?_⟩
  · refine ⟨_, _, scalar_call [a, b] distinct (by decide) rfl,
      scalar_call [a, b] distinct (by decide) rfl, ?_⟩
    rw [coalesceChain, coalesceChain, eval_ifNotNull, eval_ifNotNull]
    exact firstNonNull_swap _ _
  · exact ⟨a, scalar_call [a] distinct (by decide) rfl, absoluteResult_self_iff _⟩
  · exact ⟨a, case_call (List.mem_append_left _ named) a distinct, mapText_result_iff upper _⟩
  · exact ⟨a, case_call (List.mem_append_right ["upper", "ucase"] named) a distinct,
      mapText_result_iff lower _⟩
  · intro target pattern onTarget onPattern
    refine ⟨.binary .like a b, ?_, like_lowered_iff lower _ _⟩
    rw [buildExpr, onTarget, ok_bind, onPattern, ok_bind]
    rfl

end Laws

section Witness

def oneRow : RecordBatch := ⟨⟨[.new "x" .int64]⟩, [⟨[.null]⟩]⟩

/-- Of NULL and a text, NVL is the text and ILIKE is NULL. -/
theorem null_and_text :
    (∃ e, buildFunctionCall "nvl" [.expr (.column "x"), .expr (.literal (.str "a%"))] false =
        .ok e ∧ @Expr.eval noRegex ⟨[.null]⟩ oneRow e = .ok (.string "a%")) ∧
    ∃ e, buildExpr (.iLike false (.identifier ⟨"x"⟩) (.value (.singleQuotedString "a%"))) = .ok e ∧
      @Expr.eval noRegex ⟨[.null]⟩ oneRow e =
        @likeLowered noRegex id (.ok .null) (.ok (.string "a%")) := by
  obtain ⟨⟨e, c, built, builtC, law⟩, _, _, _, iLike⟩ := @scalar_calls_iff noRegex id id ⟨[.null]⟩
    oneRow (.column "x") (.literal (.str "a%")) false
  constructor
  · refine ⟨e, built, (law.mpr (Or.inl (by decide))).trans ?_⟩
    cases builtC
    decide
  · obtain ⟨e', built', law'⟩ := iLike (.identifier ⟨"x"⟩) (.value (.singleQuotedString "a%"))
      (by decide) (by decide)
    refine ⟨e', built', law'.mpr fun t p isText => ?_⟩
    cases isText

/-- NVL prefers its second argument. -/
theorem nvl_prefers_second : ¬ ∀ (record : Record) (batch : RecordBatch) (a b : Expr) e c,
    buildFunctionCall "nvl" [.expr a, .expr b] false = .ok e →
    buildFunctionCall "coalesce" [.expr a, .expr b] false = .ok c →
    @Expr.eval noRegex record batch e = @Expr.eval noRegex record batch c := by
  intro claim
  have same := claim ⟨[.null]⟩ oneRow (.literal (.int 1)) (.literal (.int 2)) _ _ rfl rfl
  exact absurd same (by decide)

end Witness

end RSparkScalarCalls
