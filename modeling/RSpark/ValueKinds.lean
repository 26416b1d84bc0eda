import RSpark.Operators

/- The kinds of values that expressions and accumulators give, from the kinds of the values
   they are given. -/
namespace RSparkValueKinds
open RSparkValue RSparkBatch RSparkExpr RSparkOperators

section Kinds

def kind : Value → Option DataType
  | .null => none
  | .boolean _ => some .boolean
  | .int32 _ => some .int32
  | .int64 _ => some .int64
  | .float32 _ => some .float32
  | .float64 _ => some .float64
  | .string _ => some .string

def OfKinds (kinds : List DataType) (v : Value) : Prop := ∀ k, kind v = some k → k ∈ kinds

theorem ofKinds_null (kinds : List DataType) : OfKinds kinds .null := fun _ none' => nomatch none'

theorem kind_eq_none {v : Value} : kind v = none ↔ v = .null := by
  cases v with
  | null => exact ⟨fun _ => rfl, fun _ => rfl⟩
  | _ => exact ⟨fun same => (nomatch same), fun same => (nomatch same)⟩

theorem null_of_no_kinds {v : Value} (of : OfKinds [] v) : v = .null := by
  cases v with
  | null => rfl
  | _ => exact nomatch of _ rfl

theorem OfKinds.mono {kinds kinds' : List DataType} {v : Value} (of : OfKinds kinds v)
    (more : ∀ k ∈ kinds, k ∈ kinds') : OfKinds kinds' v := fun k same => more k (of k same)

theorem ofKinds_int64 {kinds : List DataType} (mem : .int64 ∈ kinds) (v : Int64) :
    OfKinds kinds (.int64 v) := fun _ same => Option.some.inj same ▸ mem

theorem ofKinds_float64 {kinds : List DataType} (mem : .float64 ∈ kinds) (v : Float) :
    OfKinds kinds (.float64 v) := fun _ same => Option.some.inj same ▸ mem

theorem ofKinds_boolean {kinds : List DataType} (mem : .boolean ∈ kinds) (v : Bool) :
    OfKinds kinds (.boolean v) := fun _ same => Option.some.inj same ▸ mem

def Fits (type : DataType) (v : Value) : Prop := v ≠ .null → kind v = some type

instance (type : DataType) (v : Value) : Decidable (Fits type v) :=
  inferInstanceAs (Decidable (_ → _))

theorem fits_null (type : DataType) : Fits type .null := fun shown => absurd rfl shown

theorem fits_parsed {α : Type} {wrap : α → Value} {type : DataType}
    (wraps : ∀ a, kind (wrap a) = some type) (other : type ≠ .string) (s : String)
    (parsed : Option α) :
    Fits type ((parsed.map wrap).getD (.string s)) ↔ parsed.isSome = true := by
  cases parsed with
  | none =>
    refine ⟨fun fits => ?_, fun none' => nomatch none'⟩
    have type' : some DataType.string = some type := fits fun same => nomatch same
    exact absurd (Option.some.inj type').symm other
  | some a => exact ⟨fun _ => rfl, fun _ _ => wraps a⟩

abbrev RowKinds := List (List DataType)

def HasKinds (kinds : RowKinds) (values : List Value) : Prop := List.Forall₂ OfKinds kinds values

theorem hasKinds_get {kinds : RowKinds} {values : List Value} (has : HasKinds kinds values)
    (i : Nat) : OfKinds (kinds[i]?.getD []) (values[i]?.getD .null) := by
  induction has generalizing i with
  | nil => exact ofKinds_null _
  | cons first _ ih =>
    cases i with
    | zero => exact first
    | succ i => exact ih i

end Kinds

section Expressions

/-- The kinds of the results of an operator, when both sides can be other than NULL. -/
def operatorKinds (op : BinaryOp) (l r : List DataType) : List DataType :=
  match op with
  | .and | .or => if .boolean ∈ l ∧ .boolean ∈ r then [.boolean] else []
  | .eq | .notEq | .lt | .ltEq | .gt | .gtEq => [.boolean]
  | .like => if .string ∈ l ∧ .string ∈ r then [.boolean] else []
  -- what is not a string is cast to an integer first
  | .add | .sub | .mul => if .string ∈ l ∨ .string ∈ r then [.int64, .float64] else [.int64]
  | .div => [.float64]
  | .mod => [.int64]

def binaryKinds (op : BinaryOp) (l r : List DataType) : List DataType :=
  if l.isEmpty ∨ r.isEmpty then [] else operatorKinds op l r

def namedKinds (schema : Schema) (kinds : RowKinds) (name : String) : List DataType :=
  match schema.indexOf name with
  | some i => kinds[i]?.getD []
  | none => []

def exprKinds (schema : Schema) (kinds : RowKinds) : Expr → List DataType
  | .column name => namedKinds schema kinds name
  | .literal lit => (kind lit.toValue).toList
  | .binary op left right =>
      binaryKinds op (exprKinds schema kinds left) (exprKinds schema kinds right)
  | .not inner => if .boolean ∈ exprKinds schema kinds inner then [.boolean] else []
  | .isNull _ => [.boolean]
  | .isNotNull _ => [.boolean]
  | .ifExpr cond thenExpr elseExpr =>
      if .boolean ∈ exprKinds schema kinds cond then
        exprKinds schema kinds thenExpr ++ exprKinds schema kinds elseExpr
      else exprKinds schema kinds elseExpr
  | .aliased expr _ => exprKinds schema kinds expr
  | .aggregate _ _ _ => []
  | .star => []

theorem castToI64_isSome {kinds : List DataType} {v : Value} (of : OfKinds kinds v)
    (textless : .string ∉ kinds) (shown : v ≠ .null) : ∃ i, v.castToI64 = some i := by
  cases v with
  | null => exact absurd rfl shown
  | string s => exact absurd (of _ rfl) textless
  | _ => exact ⟨_, rfl⟩

theorem numericOp_kinds {l r : List DataType} {lv rv v : Value} (left : OfKinds l lv)
    (right : OfKinds r rv) (shown : lv ≠ .null) (shown' : rv ≠ .null)
    {intOp : Int64 → Int64 → Result Int64} {floatOp : Float → Float → Float}
    (ran : numericOp lv rv intOp floatOp = .ok v) :
    OfKinds (if .string ∈ l ∨ .string ∈ r then [.int64, .float64] else [.int64]) v := by
  unfold numericOp at ran
  split at ran
  · obtain ⟨i, _, same⟩ := bind_eq_ok.mp ran
    obtain rfl := Except.ok.inj same
    split
    · exact ofKinds_int64 (by simp) i
    · exact ofKinds_int64 (by simp) i
  · rename_i neither
    have text : .string ∈ l ∨ .string ∈ r := by
      by_contra textless
      obtain ⟨textlessL, textlessR⟩ := not_or.mp textless
      obtain ⟨a, castL⟩ := castToI64_isSome left textlessL shown
      obtain ⟨b, castR⟩ := castToI64_isSome right textlessR shown'
      exact neither a b castL castR
    rw [if_pos text]
    split at ran
    · obtain rfl := Except.ok.inj ran
      exact ofKinds_float64 (by simp) _
    · exact nomatch ran

theorem compareWith_kinds {test : Ordering → Bool} {lv rv v : Value}
    (ran : compareWith test lv rv = .ok v) : OfKinds [.boolean] v := by
  obtain ⟨o, _, same⟩ := bind_eq_ok.mp ran
  obtain rfl := Except.ok.inj same
  exact ofKinds_boolean (by simp) _

theorem booleans_kinds {l r : List DataType} {a b : Bool} (left : OfKinds l (.boolean a))
    (right : OfKinds r (.boolean b)) (c : Bool) :
    OfKinds (if .boolean ∈ l ∧ .boolean ∈ r then [.boolean] else []) (.boolean c) := by
  rw [if_pos ⟨left _ rfl, right _ rfl⟩]
  exact ofKinds_boolean (by simp) c

theorem logicalAnd_kinds {l r : List DataType} {lv rv v : Value} (left : OfKinds l lv)
    (right : OfKinds r rv) (shown : lv ≠ .null) (shown' : rv ≠ .null)
    (ran : logicalAnd lv rv = .ok v) :
    OfKinds (if .boolean ∈ l ∧ .boolean ∈ r then [.boolean] else []) v := by
  unfold logicalAnd at ran
  split at ran
  · obtain rfl := Except.ok.inj ran
    exact booleans_kinds left right _
  · exact absurd rfl shown
  · exact absurd rfl shown'
  · cases ran

theorem logicalOr_kinds {l r : List DataType} {lv rv v : Value} (left : OfKinds l lv)
    (right : OfKinds r rv) (shown : lv ≠ .null) (shown' : rv ≠ .null)
    (ran : logicalOr lv rv = .ok v) :
    OfKinds (if .boolean ∈ l ∧ .boolean ∈ r then [.boolean] else []) v := by
  unfold logicalOr at ran
  split at ran
  · obtain rfl := Except.ok.inj ran
    exact booleans_kinds left right _
  · exact absurd rfl shown
  · exact absurd rfl shown'
  · cases ran

theorem numericDiv_kinds {lv rv v : Value} (ran : numericDiv lv rv = .ok v) :
    OfKinds [.float64] v := by
  unfold numericDiv at ran
  split at ran
  · split at ran
    · obtain rfl := Except.ok.inj ran
      exact ofKinds_null _
    · obtain rfl := Except.ok.inj ran
      exact ofKinds_float64 (by simp) _
  · cases ran

theorem numericMod_kinds {lv rv v : Value} (ran : numericMod lv rv = .ok v) :
    OfKinds [.int64] v := by
  unfold numericMod at ran
  split at ran
  · split at ran
    · obtain rfl := Except.ok.inj ran
      exact ofKinds_null _
    · split at ran
      · cases ran
      · obtain rfl := Except.ok.inj ran
        exact ofKinds_int64 (by simp) _
  · cases ran

theorem evalNot_kinds {kinds : List DataType} {iv v : Value} (of : OfKinds kinds iv)
    (ran : evalNot iv = .ok v) : OfKinds (if .boolean ∈ kinds then [.boolean] else []) v := by
  unfold evalNot at ran
  split at ran
  · obtain rfl := Except.ok.inj ran
    exact ofKinds_null _
  · obtain rfl := Except.ok.inj ran
    rw [if_pos (of _ rfl)]
    exact ofKinds_boolean (by simp) _
  · exact nomatch ran

theorem named_kinds {schema : Schema} {kinds : RowKinds} {record : Record} {name : String}
    (has : HasKinds kinds record.values) {i : Nat} (found : schema.indexOf name = some i) :
    OfKinds (namedKinds schema kinds name) (record.getOrNull i) := by
  rw [namedKinds, found]
  exact hasKinds_get has i

variable [Regex]

theorem applyLike_kinds {l r : List DataType} {lv rv v : Value} (left : OfKinds l lv)
    (right : OfKinds r rv) (ran : applyLike lv rv = .ok v) :
    OfKinds (if .string ∈ l ∧ .string ∈ r then [.boolean] else []) v := by
  unfold applyLike at ran
  split at ran
  · split at ran
    · split at ran
      · obtain rfl := Except.ok.inj ran
        rw [if_pos ⟨left _ rfl, right _ rfl⟩]
        exact ofKinds_boolean (by simp) _
      · exact nomatch ran
    · obtain rfl := Except.ok.inj ran
      exact ofKinds_null _
    · exact nomatch ran
  · exact nomatch ran

theorem applyBinary_kinds {op : BinaryOp} {l r : List DataType} {lv rv v : Value}
    (left : OfKinds l lv) (right : OfKinds r rv) (shown : lv ≠ .null) (shown' : rv ≠ .null)
    (ran : applyBinary op lv rv = .ok v) : OfKinds (operatorKinds op l r) v := by
  cases op with
  | eq =>
    obtain rfl := Except.ok.inj ran
    exact ofKinds_boolean (by simp [operatorKinds]) _
  | notEq =>
    obtain rfl := Except.ok.inj ran
    exact ofKinds_boolean (by simp [operatorKinds]) _
  | lt => exact compareWith_kinds ran
  | ltEq => exact compareWith_kinds ran
  | gt => exact compareWith_kinds ran
  | gtEq => exact compareWith_kinds ran
  | and => exact logicalAnd_kinds left right shown shown' ran
  | or => exact logicalOr_kinds left right shown shown' ran
  | like => exact applyLike_kinds left right ran
  | add => exact numericOp_kinds left right shown shown' ran
  | sub => exact numericOp_kinds left right shown shown' ran
  | mul => exact numericOp_kinds left right shown shown' ran
  | div => exact numericDiv_kinds ran
  | mod => exact numericMod_kinds ran

theorem evalBinary_kinds {op : BinaryOp} {l r : List DataType} {lv rv v : Value}
    (left : OfKinds l lv) (right : OfKinds r rv) (ran : evalBinary op lv rv = .ok v) :
    OfKinds (binaryKinds op l r) v := by
  unfold evalBinary at ran
  split at ran
  · obtain rfl := Except.ok.inj ran
    exact ofKinds_null _
  · rename_i shown
    rw [Bool.or_eq_true, not_or, isNull_iff, isNull_iff] at shown
    have possible : ¬ (l.isEmpty = true ∨ r.isEmpty = true) := by
      rintro (none' | none')
      · obtain rfl := List.isEmpty_iff.mp none'
        exact shown.1 (null_of_no_kinds left)
      · obtain rfl := List.isEmpty_iff.mp none'
        exact shown.2 (null_of_no_kinds right)
    rw [binaryKinds, if_neg possible]
    exact applyBinary_kinds left right shown.1 shown.2 ran

theorem eval_kinds {batch : RecordBatch} {record : Record} {kinds : RowKinds}
    (has : HasKinds kinds record.values) {e : Expr} {v : Value}
    (ran : e.eval record batch = .ok v) : OfKinds (exprKinds batch.schema kinds e) v := by
  induction e generalizing v with
  | column name =>
    obtain ⟨i, found, same⟩ := bind_eq_ok.mp ran
    obtain rfl := Except.ok.inj same
    exact named_kinds has (orError_eq_ok.mp found)
  | literal lit =>
    obtain rfl := Except.ok.inj ran
    intro k same
    simp [exprKinds, same]
  | binary op left right ihL ihR =>
    obtain ⟨lv, ranL, ran⟩ := bind_eq_ok.mp ran
    obtain ⟨rv, ranR, ran⟩ := bind_eq_ok.mp ran
    exact evalBinary_kinds (ihL ranL) (ihR ranR) ran
  | not inner ih =>
    obtain ⟨iv, ranInner, ran⟩ := bind_eq_ok.mp ran
    exact evalNot_kinds (ih ranInner) ran
  | isNull inner ih =>
    obtain ⟨iv, _, same⟩ := bind_eq_ok.mp ran
    obtain rfl := Except.ok.inj same
    exact ofKinds_boolean (by simp [exprKinds]) _
  | isNotNull inner ih =>
    obtain ⟨iv, _, same⟩ := bind_eq_ok.mp ran
    obtain rfl := Except.ok.inj same
    exact ofKinds_boolean (by simp [exprKinds]) _
  | ifExpr cond thenExpr elseExpr ihC ihT ihE =>
    obtain ⟨c, ranC, ran⟩ := bind_eq_ok.mp ran
    have ofCond := ihC ranC
    rw [exprKinds]
    split at ran
    · rename_i holds
      subst holds
      rw [if_pos (ofCond _ rfl)]
      exact (ihT ran).mono fun k mem => List.mem_append_left _ mem
    · split
      · exact (ihE ran).mono fun k mem => List.mem_append_right _ mem
      · exact ihE ran
  | aliased expr name ih => exact ih ran
  | aggregate func arg distinct => exact nomatch ran
  | star => exact nomatch ran

end Expressions

section Accumulators

def functionKinds (func : AggregateFn) (arg : List DataType) : List DataType :=
  match func with
  | .count => [.int64]
  | .sum | .avg => [.float64]
  | .min | .max => arg

/-- What an accumulator of a function holds when its arguments are of the kinds. -/
inductive Gathers (kinds : List DataType) : AggregateFn → Accumulator → Prop where
  | count (c : Nat) : Gathers kinds .count (.count c)
  | sum (total : Float) : Gathers kinds .sum (.sum total)
  | avg (total : Float) (n : Nat) : Gathers kinds .avg (.avg total n)
  | min (slot : Option Value) (of : ∀ v ∈ slot, OfKinds kinds v) : Gathers kinds .min (.min slot)
  | max (slot : Option Value) (of : ∀ v ∈ slot, OfKinds kinds v) : Gathers kinds .max (.max slot)

variable {kinds : List DataType} {func : AggregateFn} {acc : Accumulator}

theorem gathers_new (kinds : List DataType) (func : AggregateFn) :
    Gathers kinds func (.new func) := by
  cases func with
  | count => exact .count 0
  | sum => exact .sum zeroF64
  | avg => exact .avg zeroF64 0
  | min => exact .min none fun v mem => nomatch mem
  | max => exact .max none fun v mem => nomatch mem

theorem keepExtreme_kinds {on : Ordering} {slot : Option Value} {value : Value}
    (of : ∀ v ∈ slot, OfKinds kinds v) (arg : OfKinds kinds value) :
    ∀ v ∈ keepExtreme on slot value, OfKinds kinds v := by
  intro v mem
  unfold keepExtreme at mem
  split at mem
  · exact Option.some.inj mem ▸ arg
  · split at mem
    · split at mem
      · exact Option.some.inj mem ▸ arg
      · exact of v mem
    · exact of v mem

theorem gathers_update (gathers : Gathers kinds func acc) {value : Value}
    (arg : OfKinds kinds value) (distinct : Bool) :
    Gathers kinds func (acc.update value distinct) := by
  cases gathers with
  | count c =>
    simp only [Accumulator.update]
    split <;> exact .count _
  | sum total =>
    simp only [Accumulator.update]
    split <;> exact .sum _
  | avg total n =>
    simp only [Accumulator.update]
    split <;> exact .avg _ _
  | min slot of =>
    simp only [Accumulator.update]
    split
    · exact .min slot of
    · exact .min _ (keepExtreme_kinds of arg)
  | max slot of =>
    simp only [Accumulator.update]
    split
    · exact .max slot of
    · exact .max _ (keepExtreme_kinds of arg)

theorem gathers_finish (gathers : Gathers kinds func acc) :
    OfKinds (functionKinds func kinds) acc.finish := by
  cases gathers with
  | count c => exact ofKinds_int64 (by simp [functionKinds]) _
  | sum total => exact ofKinds_float64 (by simp [functionKinds]) _
  | avg total n =>
    simp only [Accumulator.finish]
    split
    · exact ofKinds_null _
    · exact ofKinds_float64 (by simp [functionKinds]) _
  | min slot of =>
    cases slot with
    | none => exact ofKinds_null _
    | some v => exact of v rfl
  | max slot of =>
    cases slot with
    | none => exact ofKinds_null _
    | some v => exact of v rfl

end Accumulators

end RSparkValueKinds
