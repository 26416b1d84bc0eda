import RSpark.ArrowBatch
import RSpark.Clauses
import RSpark.Comparisons
import RSpark.CsvTypes
import RSpark.FloatOrder
import RSpark.JsonSource
import RSpark.SortOrder
import RSpark.Stages

/- The comparator of ORDER BY on what the readers return: a total preorder unless a column mixes
   kinds of values of which one has an order, or has integers that one float is equal to, and the
   later keys leave it so. -/
namespace RSparkSortComparator
open RSparkValue RSparkBatch RSparkExpr RSparkPlan RSparkOperators RSparkClauses RSparkValueKinds
open RSparkSortOrder RSparkComparisons RSparkArrowBatch RSparkCsvSource RSparkCsvTypes
open RSparkJsonSource RSparkNdjson RSparkFlowOutput
open Comparators BinaryRounding FloatText Float.Model Float.Model.UnpackedFloat

section Kinds

inductive SortKind where
  | boolean | string | number
  deriving DecidableEq, Repr

def sortKind : Value → Option SortKind
  | .null => none
  | .boolean _ => some .boolean
  | .string _ => some .string
  | .int32 _ | .int64 _ => some .number
  | .float32 v => if v.isNaN then none else some .number
  | .float64 v => if v.isNaN then none else some .number

def SameKind (a b : Value) : Prop := ∃ k, sortKind a = some k ∧ sortKind b = some k

def EqualKeys (a b : Value) : Prop := a.partialEq b = true ∨ SameNumber a b

/-- Values of which two have an order are equal where a third has none with them, and integers
    are equal where one float is equal to both. -/
structure Coherent (values : List Value) : Prop where
  mixed : ∀ a ∈ values, ∀ b ∈ values, ∀ c ∈ values, SameKind a b → c ≠ .null → ¬ SameKind a c →
    EqualKeys a b
  rounded : ∀ x y f, .int64 x ∈ values → .int64 y ∈ values → .float64 f ∈ values →
    (i64AsF64 x == f) = true → (i64AsF64 y == f) = true → x = y

/-- The order of the values of a column: NULL is lowest, and each kind has its own. -/
def Below : Value → Value → Prop
  | .null, w => w ≠ .null
  | .boolean v, .boolean w => v = false ∧ w = true
  | .string v, .string w => v < w
  | .int32 v, .int32 w => v.toInt < w.toInt
  | .int64 v, .int64 w => v.toInt < w.toInt
  | .int64 v, .float64 w => i64AsF64 v < w
  | .float64 v, .int64 w => v < i64AsF64 w
  | .float32 v, .float32 w => v < w
  | .float64 v, .float64 w => v < w
  | _, _ => False

def BelowBy (ascending : Bool) (v w : Value) : Prop :=
  if ascending then Below v w else Below w v

def Tied (v w : Value) : Prop := ¬ Below v w ∧ ¬ Below w v

/-- The value has no order with two between which there is one, or is a float that two integers
    become. -/
def Between (u v w : Value) : Prop :=
  SameKind u w ∧ v ≠ .null ∧ ¬ SameKind u v ∨
    ∃ x y f, u = .int64 x ∧ w = .int64 y ∧ v = .float64 f ∧ (i64AsF64 x == f) = true ∧
      (i64AsF64 y == f) = true

/-- The first keys that do not tie are below, each in its direction. -/
def Before : List SortExpr → List Value → List Value → Prop
  | s :: order, v :: vs, w :: ws => BelowBy s.ascending v w ∨ Tied v w ∧ Before order vs ws
  | _, _, _ => False

/-- On the first key on which the three rows do not all tie, the value of the second stands between
    those of the others, and no later key puts it between the others too. -/
def Clash : List SortExpr → List Value → List Value → List Value → Prop
  | s :: order, u :: us, v :: vs, w :: ws =>
      BelowBy s.ascending u w ∧ Between u v w ∧ ¬ Before order us vs ∧ ¬ Before order vs ws ∨
        (Tied u v ∧ Tied v w ∧ Tied u w) ∧ Clash order us vs ws
  | _, _, _, _ => False

def readKinds : DataType → List DataType
  | .int32 => [.int32, .string]
  | .float32 => [.float32, .string]
  | _ => [.boolean, .int64, .float64, .string]

end Kinds

section Numbers

theorem room64 : Room Format.binary64 64 := by
  constructor <;> decide

theorem i64_short (v : Int64) : v.toInt.natAbs < 2 ^ 64 := by
  have low := v.le_toInt
  have high := v.toInt_lt
  omega

theorem i64AsF64_isNaN (v : Int64) : (i64AsF64 v).isNaN = false :=
  (storedInt_rounding room64 (i64_short v)).isNaN

def floatCompare (a b : Float) : Ordering := rankCompare a.toModel.unpack b.toModel.unpack

def float32Compare (a b : Float32) : Ordering := rankCompare a.toModel.unpack b.toModel.unpack

theorem cmpF64_number {a b : Float} (left : a.isNaN = false) (right : b.isNaN = false)
    (x y : String) : cmpF64 a b x y = .ok (floatCompare a b) := by
  show orError (a.toModel.unpack.compare b.toModel.unpack) _ = _
  rw [compare_eq_rank left right]
  rfl

theorem cmpF64_nan {a b : Float} (none' : a.isNaN = true ∨ b.isNaN = true) (x y : String) :
    cmpF64 a b x y = err (cannotCompareNaN x y) := by
  show orError (a.toModel.unpack.compare b.toModel.unpack) _ = _
  rw [compare_of_isNaN none']
  rfl

theorem cmpF32_number {a b : Float32} (left : a.isNaN = false) (right : b.isNaN = false) :
    (Value.float32 a).tryCmp (.float32 b) = .ok (float32Compare a b) := by
  show orError (a.toModel.unpack.compare b.toModel.unpack) _ = _
  rw [compare_eq_rank left right]
  rfl

theorem cmpF32_nan {a b : Float32} (none' : a.isNaN = true ∨ b.isNaN = true) :
    (Value.float32 a).tryCmp (.float32 b) = err (cannotCompareNaN (print32 a) (print32 b)) := by
  show orError (a.toModel.unpack.compare b.toModel.unpack) _ = _
  rw [compare_of_isNaN none']
  rfl

theorem beq_number {a b : Float} (left : a.isNaN = false) (right : b.isNaN = false) :
    (a == b) = true ↔ floatCompare a b = .eq := by
  rw [float_beq_of_compare (compare_eq_rank left right), decide_eq_true_eq]
  rfl

theorem not_nan_of_beq {a b : Float} (same : (a == b) = true) : b.isNaN = false := by
  cases nan : b.isNaN with
  | false => rfl
  | true =>
    have none' : a.toModel.unpack.compare b.toModel.unpack = none := compare_of_isNaN (Or.inr nan)
    have equal : (a.toModel.unpack.compare b.toModel.unpack == some .eq) = true := same
    rw [none'] at equal
    cases equal

theorem i64AsF64_mono {x y : Int64} (le : compare x.toInt y.toInt ≠ .gt) :
    floatCompare (i64AsF64 x) (i64AsF64 y) ≠ .gt := by
  refine storedInt_mono room64 ?_ (i64_short x) (i64_short y)
  by_contra above
  exact le (compare_gt_iff_gt.mpr (not_le.mp above))

end Numbers

section Pairs

structure Beside (a b : Value) : Prop where
  left : a ≠ .null
  right : b ≠ .null
  together : ∃ type, OfKinds (readKinds type) a ∧ OfKinds (readKinds type) b

theorem kind_same {v : Value} {k : SortKind} (is : sortKind v = some k) : v ≠ .null := by
  rintro rfl
  cases is

/-- Values of a column that can have an order: numbers there are integers and floats of 64 bits,
    or all of one type of 32. -/
inductive Pair : Value → Value → Prop where
  | boolean (x y : Bool) : Pair (.boolean x) (.boolean y)
  | string (s t : String) : Pair (.string s) (.string t)
  | int32 (x y : Int32) : Pair (.int32 x) (.int32 y)
  | float32 (x y : Float32) : Pair (.float32 x) (.float32 y)
  | int64 (x y : Int64) : Pair (.int64 x) (.int64 y)
  | intFloat (x : Int64) (f : Float) : Pair (.int64 x) (.float64 f)
  | floatInt (f : Float) (x : Int64) : Pair (.float64 f) (.int64 x)
  | float64 (f g : Float) : Pair (.float64 f) (.float64 g)

theorem float_kind {f : Float} {k : SortKind} :
    sortKind (.float64 f) = some k ↔ k = .number ∧ f.isNaN = false := by
  rw [sortKind]
  cases f.isNaN <;> cases k <;> decide

theorem float32_kind {f : Float32} {k : SortKind} :
    sortKind (.float32 f) = some k ↔ k = .number ∧ f.isNaN = false := by
  rw [sortKind]
  cases f.isNaN <;> cases k <;> decide

theorem beside_cases {a b : Value} (beside : Beside a b) :
    Pair a b ∨ ¬ SameKind a b ∧ compareKey true a b = .eq := by
  obtain ⟨left, right, type, at_a, at_b⟩ := beside
  cases a <;> cases b
  all_goals first
    | exact absurd rfl left
    | exact absurd rfl right
    | exact Or.inl (by constructor)
    | (refine Or.inr ⟨?_, rfl⟩
       simp [SameKind, sortKind]
       done)
    | (have inside := at_a _ rfl
       have inside' := at_b _ rfl
       cases type <;> simp [readKinds] at inside inside')

theorem Pair.compared {a b : Value} (pair : Pair a b) (same : SameKind a b) :
    ∃ o, a.tryCmp b = .ok o := by
  obtain ⟨k, left, right⟩ := same
  cases pair with
  | boolean x y => exact ⟨_, rfl⟩
  | string s t => exact ⟨_, rfl⟩
  | int32 x y => exact ⟨_, rfl⟩
  | int64 x y => exact ⟨_, rfl⟩
  | float32 x y =>
    exact ⟨_, cmpF32_number (float32_kind.mp left).2 (float32_kind.mp right).2⟩
  | intFloat x f =>
    exact ⟨_, cmpF64_number (i64AsF64_isNaN x) (float_kind.mp right).2 _ _⟩
  | floatInt f x =>
    exact ⟨_, cmpF64_number (float_kind.mp left).2 (i64AsF64_isNaN x) _ _⟩
  | float64 f g =>
    exact ⟨_, cmpF64_number (float_kind.mp left).2 (float_kind.mp right).2 _ _⟩

theorem compareKey_of_ok {a b : Value} {o : Ordering} (compared : a.tryCmp b = .ok o) :
    compareKey true a b = o := by
  rw [compareKey, compared]
  rfl

theorem compareKey_of_error {a b : Value} {e : Error} (failed : a.tryCmp b = err e) :
    compareKey true a b = .eq := by
  rw [compareKey, failed]
  rfl

theorem Pair.uncompared {a b : Value} (pair : Pair a b) (other : ¬ SameKind a b) :
    compareKey true a b = .eq := by
  cases pair with
  | boolean x y => exact absurd ⟨_, rfl, rfl⟩ other
  | string s t => exact absurd ⟨_, rfl, rfl⟩ other
  | int32 x y => exact absurd ⟨_, rfl, rfl⟩ other
  | int64 x y => exact absurd ⟨_, rfl, rfl⟩ other
  | float32 x y =>
    refine compareKey_of_error (cmpF32_nan ?_)
    by_contra numbers
    rw [not_or, Bool.not_eq_true, Bool.not_eq_true] at numbers
    exact other ⟨_, float32_kind.mpr ⟨rfl, numbers.1⟩, float32_kind.mpr ⟨rfl, numbers.2⟩⟩
  | intFloat x f =>
    refine compareKey_of_error (cmpF64_nan (Or.inr ?_) _ _)
    by_contra number
    exact other ⟨_, rfl, float_kind.mpr ⟨rfl, Bool.not_eq_true _ ▸ number⟩⟩
  | floatInt f x =>
    refine compareKey_of_error (cmpF64_nan (Or.inl ?_) _ _)
    by_contra number
    exact other ⟨_, float_kind.mpr ⟨rfl, Bool.not_eq_true _ ▸ number⟩, rfl⟩
  | float64 f g =>
    refine compareKey_of_error (cmpF64_nan ?_ _ _)
    by_contra numbers
    rw [not_or, Bool.not_eq_true, Bool.not_eq_true] at numbers
    exact other ⟨_, float_kind.mpr ⟨rfl, numbers.1⟩, float_kind.mpr ⟨rfl, numbers.2⟩⟩

theorem beside_uncompared {a b : Value} (beside : Beside a b) (other : ¬ SameKind a b) :
    compareKey true a b = .eq :=
  (beside_cases beside).elim (fun pair => pair.uncompared other) fun tie => tie.2

theorem beside_tie_iff {a b : Value} (beside : Beside a b) (same : SameKind a b) :
    compareKey true a b = .eq ↔ EqualKeys a b := by
  obtain ⟨o, compared⟩ : ∃ o, a.tryCmp b = .ok o :=
    (beside_cases beside).elim (fun pair => pair.compared same) fun tie => absurd same tie.1
  rw [compareKey_of_ok compared]
  by_cases sameType : a.dataTypeName = b.dataTypeName
  · rw [EqualKeys, partialEq_of_tryCmp sameType compared, decide_eq_true_eq, or_iff_left]
    exact fun number => sameNumber_other_type number sameType
  · rw [EqualKeys, partialEq_other_type sameType,
      tryCmp_other_type beside.left beside.right sameType compared]
    simp

end Pairs

section Columns
variable {values : List Value}

def Column (values : List Value) : Prop := ∃ type, ∀ v ∈ values, OfKinds (readKinds type) v

theorem SameKind.symm {a b : Value} : SameKind a b → SameKind b a := fun ⟨k, left, right⟩ =>
  ⟨k, right, left⟩

theorem SameKind.trans {a b c : Value} : SameKind a b → SameKind b c → SameKind a c := by
  rintro ⟨k, left, right⟩ ⟨k', right', third⟩
  rw [right] at right'
  cases right'
  exact ⟨k, left, third⟩

theorem Column.beside (column : Column values) {a b : Value} (mem : a ∈ values)
    (mem' : b ∈ values) (left : a ≠ .null) (right : b ≠ .null) : Beside a b := by
  obtain ⟨type, of⟩ := column
  exact ⟨left, right, type, of a mem, of b mem'⟩

theorem preorder_of_mixed (column : Column values) (coherent : Coherent values) {a c : Value}
    (mem : a ∈ values) (mem' : c ∈ values) (left : a ≠ .null) (right : c ≠ .null)
    (other : ¬ SameKind a c) : PreorderOn (compareKey true) (· ∈ values) := by
  have tie {p q : Value} (at_p : p ∈ values) (at_q : q ∈ values) (shown : p ≠ .null)
      (shown' : q ≠ .null) : compareKey true p q = .eq := by
    by_cases same : SameKind p q
    · rw [beside_tie_iff (column.beside at_p at_q shown shown') same]
      by_cases first : SameKind p a
      · exact coherent.mixed p at_p q at_q c mem' same right fun third =>
          other (first.symm.trans third)
      · exact coherent.mixed p at_p q at_q a mem same left first
    · exact beside_uncompared (column.beside at_p at_q shown shown') same
  have read {v : Value} {u : Unit} (here : (if v = .null then none else some ()) = some u) :
      v ≠ .null := by
    rintro rfl
    cases here
  refine preorderOn_read (preorderOn_tie fun _ : Unit => True)
    (fun v => if v = .null then none else some ()) rfl (fun v _ shown => ?_)
    fun v w _ _ at_v at_w here here' => tie at_v at_w (read here) (read here')
  exact ⟨(), trivial, if_neg shown⟩

def read64 : Value → Option (Int64 ⊕ Float)
  | .int64 v => some (.inl v)
  | .float64 v => some (.inr v)
  | _ => none

def read32 : Value → Option Float32
  | .float32 v => some v
  | _ => none

theorem compareKey_read64 {v w : Value} {a b : Int64 ⊕ Float}
    (left : ∀ f, v = .float64 f → f.isNaN = false) (right : ∀ f, w = .float64 f → f.isNaN = false)
    (here : read64 v = some a) (here' : read64 w = some b) :
    compareKey true v w = roundedCompare (fun x y : Int64 => compare x.toInt y.toInt)
      floatCompare i64AsF64 a b := by
  cases v with
  | int64 x =>
    cases here
    cases w with
    | int64 y =>
      cases here'
      rfl
    | float64 g =>
      cases here'
      exact compareKey_of_ok (cmpF64_number (i64AsF64_isNaN x) (right g rfl) _ _)
    | _ => cases here'
  | float64 f =>
    cases here
    cases w with
    | int64 y =>
      cases here'
      exact compareKey_of_ok (cmpF64_number (left f rfl) (i64AsF64_isNaN y) _ _)
    | float64 g =>
      cases here'
      exact compareKey_of_ok (cmpF64_number (left f rfl) (right g rfl) _ _)
    | _ => cases here'
  | _ => cases here

theorem numbers_preorderOn (coherent : Coherent values)
    (numbers : ∀ v ∈ values, v ≠ .null → sortKind v = some .number)
    (of : ∀ v ∈ values, OfKinds [.boolean, .int64, .float64, .string] v) :
    PreorderOn (compareKey true) (· ∈ values) := by
  have number {f : Float} (mem : .float64 f ∈ values) : f.isNaN = false :=
    (float_kind.mp (numbers _ mem Value.noConfusion)).2
  have floats : PreorderOn floatCompare fun _ => True :=
    rankCompare_preorderOn.comap fun f : Float => f.toModel.unpack
  have integers : PreorderOn (fun x y : Int64 => compare x.toInt y.toInt) fun _ => True :=
    (preorderOn_compare fun _ : ℤ => True).comap Int64.toInt
  have order := (preorderOn_rounded
    (S := fun n : Int64 ⊕ Float => n.elim Value.int64 Value.float64 ∈ values)
    (integers.subset fun _ _ => trivial) floats fun x y _ _ => i64AsF64_mono).mpr
      fun x y f at_x at_y at_f xf yf => compare_eq_iff_eq.mpr (congrArg Int64.toInt
        (coherent.rounded x y f at_x at_y at_f
          ((beq_number (i64AsF64_isNaN x) (number at_f)).mpr xf)
          ((beq_number (i64AsF64_isNaN y) (number at_f)).mpr yf)))
  refine preorderOn_read order read64 rfl (fun v mem shown => ?_)
    fun v w a b at_v at_w here here' => ?_
  · have is := numbers v mem shown
    have inside := of v mem
    cases v with
    | null => exact absurd rfl shown
    | int64 x => exact ⟨.inl x, mem, rfl⟩
    | float64 f => exact ⟨.inr f, mem, rfl⟩
    | int32 x => exact absurd (inside _ rfl) (by decide)
    | float32 x => exact absurd (inside _ rfl) (by decide)
    | boolean x => cases is
    | string x => cases is
  · refine compareKey_read64 (fun f same => ?_) (fun f same => ?_) here here'
    · exact number (same ▸ at_v)
    · exact number (same ▸ at_w)

theorem float32_preorderOn (numbers : ∀ v ∈ values, v ≠ .null → sortKind v = some .number)
    (of : ∀ v ∈ values, OfKinds [.float32, .string] v) :
    PreorderOn (compareKey true) (· ∈ values) := by
  have number {f : Float32} (mem : .float32 f ∈ values) : f.isNaN = false :=
    (float32_kind.mp (numbers _ mem Value.noConfusion)).2
  have floats : PreorderOn float32Compare fun _ => True :=
    rankCompare_preorderOn.comap fun f : Float32 => f.toModel.unpack
  refine preorderOn_read floats read32 rfl (fun v mem shown => ?_)
    fun v w a b at_v at_w here here' => ?_
  · have is := numbers v mem shown
    have inside := of v mem
    cases v with
    | null => exact absurd rfl shown
    | float32 f => exact ⟨f, trivial, rfl⟩
    | string x => cases is
    | boolean x => cases is
    | _ => exact absurd (inside _ rfl) (by decide)
  · cases v with
    | float32 f =>
      cases here
      cases w with
      | float32 g =>
        cases here'
        exact compareKey_of_ok (cmpF32_number (number at_v) (number at_w))
      | _ => cases here'
    | _ => cases here

theorem int32_preorderOn (numbers : ∀ v ∈ values, v ≠ .null → sortKind v = some .number)
    (of : ∀ v ∈ values, OfKinds [.int32, .string] v) :
    PreorderOn (compareKey true) (· ∈ values) := by
  refine (ofKind_preorderOn .integer).subset fun v mem => ?_
  by_cases none : v = .null
  · rw [none]
    exact .null
  · have is := numbers v mem none
    have inside := of v mem
    cases v with
    | null => exact .null
    | int32 x => exact .int32
    | boolean x => cases is
    | string x => cases is
    | _ => exact absurd (inside _ rfl) (by decide)

theorem readKinds_cases (type : DataType) : readKinds type = [.int32, .string] ∨
    readKinds type = [.float32, .string] ∨
      readKinds type = [.boolean, .int64, .float64, .string] := by
  cases type <;> simp [readKinds]

theorem ofKind_boolean {v : Value} (is : v ≠ .null → sortKind v = some .boolean) :
    OfKind .boolean v := by
  cases v with
  | null => exact .null
  | boolean x => exact .boolean
  | float32 f => cases (float32_kind.mp (is Value.noConfusion)).1
  | float64 f => cases (float_kind.mp (is Value.noConfusion)).1
  | _ => cases is Value.noConfusion

theorem ofKind_string {v : Value} (is : v ≠ .null → sortKind v = some .string) :
    OfKind .string v := by
  cases v with
  | null => exact .null
  | string s => exact .string
  | float32 f => cases (float32_kind.mp (is Value.noConfusion)).1
  | float64 f => cases (float_kind.mp (is Value.noConfusion)).1
  | _ => cases is Value.noConfusion

theorem preorder_of_coherent (column : Column values) (coherent : Coherent values) :
    PreorderOn (compareKey true) (· ∈ values) := by
  by_cases mixed : ∃ a ∈ values, ∃ c ∈ values, a ≠ .null ∧ c ≠ .null ∧ ¬ SameKind a c
  · obtain ⟨a, mem, c, mem', left, right, other⟩ := mixed
    exact preorder_of_mixed column coherent mem mem' left right other
  push Not at mixed
  by_cases empty : ∀ v ∈ values, v = .null
  · refine (ofKind_preorderOn .boolean).subset fun v mem => ?_
    rw [empty v mem]
    exact .null
  push Not at empty
  obtain ⟨v₀, mem₀, shown₀⟩ := empty
  obtain ⟨k, is, _⟩ := mixed v₀ mem₀ v₀ mem₀ shown₀ shown₀
  have one (v : Value) (mem : v ∈ values) (shown : v ≠ .null) : sortKind v = some k := by
    obtain ⟨k', is', here⟩ := mixed v₀ mem₀ v mem shown₀ shown
    rw [is] at is'
    cases is'
    exact here
  cases k with
  | boolean =>
    exact (ofKind_preorderOn .boolean).subset fun v mem => ofKind_boolean (one v mem)
  | string =>
    exact (ofKind_preorderOn .string).subset fun v mem => ofKind_string (one v mem)
  | number =>
    obtain ⟨type, of⟩ := column
    rcases readKinds_cases type with kinds | kinds | kinds
    · exact int32_preorderOn one (kinds ▸ of)
    · exact float32_preorderOn one (kinds ▸ of)
    · exact numbers_preorderOn coherent one (kinds ▸ of)

theorem preorder_or_rounded (column : Column values)
    (same : ∀ v ∈ values, ∀ w ∈ values, SameKind v w) :
    PreorderOn (compareKey true) (· ∈ values) ∨ ∃ x y f, x ≠ y ∧ .int64 x ∈ values ∧
      .int64 y ∈ values ∧ .float64 f ∈ values ∧ (i64AsF64 x == f) = true ∧
      (i64AsF64 y == f) = true := by
  refine or_iff_not_imp_right.mpr fun apart => preorder_of_coherent column ⟨?_, ?_⟩
  · intro a mem b _ c mem' _ _ other
    exact absurd (same a mem c mem') other
  · intro x y f mem mem' mem'' xf yf
    by_contra differ
    exact apart ⟨x, y, f, differ, mem, mem', mem'', xf, yf⟩

theorem compareKey_rounded {x : Int64} {f : Float} (same : (i64AsF64 x == f) = true) :
    compareKey true (.int64 x) (.float64 f) = .eq ∧
      compareKey true (.float64 f) (.int64 x) = .eq := by
  have number := not_nan_of_beq same
  have tie := (beq_number (i64AsF64_isNaN x) number).mp same
  have there : (Value.int64 x).tryCmp (.float64 f) = .ok (floatCompare (i64AsF64 x) f) :=
    cmpF64_number (i64AsF64_isNaN x) number _ _
  have back : (Value.float64 f).tryCmp (.int64 x) = .ok (floatCompare f (i64AsF64 x)) :=
    cmpF64_number number (i64AsF64_isNaN x) _ _
  rw [compareKey_of_ok there, compareKey_of_ok back]
  exact ⟨tie, eq_of_eq (rankCompare_preorderOn.swap _ _ trivial trivial) tie⟩

theorem compareKey_int64 {x y : Int64} :
    compareKey true (.int64 x) (.int64 y) = .eq ↔ x = y := by
  show compare x.toInt y.toInt = .eq ↔ x = y
  rw [compare_eq_iff_eq, Int64.toInt_inj]

theorem Column.subset {values' : List Value} (column : Column values)
    (inside : ∀ v ∈ values', v ∈ values) : Column values' := by
  obtain ⟨type, of⟩ := column
  exact ⟨type, fun v mem => of v (inside v mem)⟩

theorem column_swap {v w : Value} (column : Column [v, w]) :
    compareKey true w v = (compareKey true v w).swap := by
  by_cases none : v = .null
  · subst none
    by_cases none' : w = .null
    · rw [none']
      rfl
    · rw [compareKey_null_left none', compareKey_null_right none']
      rfl
  by_cases none' : w = .null
  · rw [none', compareKey_null_left none, compareKey_null_right none]
    rfl
  by_cases same : SameKind v w
  · have one : ∀ a ∈ [v, w], ∀ b ∈ [v, w], SameKind a b := by
      have self := same.trans same.symm
      have self' := same.symm.trans same
      have back := same.symm
      simp only [List.forall_mem_cons, List.not_mem_nil, false_implies, implies_true, and_true]
      exact ⟨⟨self, same⟩, back, self'⟩
    rcases preorder_or_rounded column one with order | ⟨x, y, f, differ, memX, memY, memF, _⟩
    · exact order.swap v w (by simp) (by simp)
    · grind
  · have other : ¬ SameKind w v := fun back => same back.symm
    rw [beside_uncompared (column.beside (by simp) (by simp) none none') same,
      beside_uncompared (column.beside (by simp) (by simp) none' none) other]
    rfl

theorem shown_of_lt {u v : Value} (column : Column [u, v]) (less : compareKey true u v = .lt)
    (shown : u ≠ .null) : v ≠ .null ∧ SameKind u v := by
  have shown' : v ≠ .null := by
    rintro rfl
    rw [compareKey_null_right shown] at less
    cases less
  refine ⟨shown', ?_⟩
  by_contra other
  rw [beside_uncompared (column.beside (by simp) (by simp) shown shown') other] at less
  cases less

theorem column_loose (type : DataType) :
    LooseOn (compareKey true) (OfKinds (readKinds type)) := by
  refine ⟨fun v w at_v at_w => column_swap ⟨type, by grind⟩, ?_⟩
  intro a b c at_a at_b at_c ab bc
  by_cases none : a = .null
  · subst none
    by_cases none' : c = .null
    · rw [none']
      decide
    · rw [compareKey_null_left none']
      decide
  have three : Column [a, b, c] := ⟨type, by grind⟩
  obtain ⟨shown, same⟩ := shown_of_lt (three.subset (by grind)) ab none
  have shown' : c ≠ .null := by
    rintro rfl
    exact bc (compareKey_null_right shown)
  by_cases same' : SameKind a c
  · have one : ∀ v ∈ [a, b, c], ∀ w ∈ [a, b, c], SameKind v w := by
      have alike (v : Value) (mem : v ∈ [a, b, c]) : SameKind a v := by
        simp only [List.mem_cons, List.not_mem_nil, or_false] at mem
        rcases mem with rfl | rfl | rfl
        · exact same.trans same.symm
        · exact same
        · exact same'
      exact fun v mem w mem' => (alike v mem).symm.trans (alike w mem')
    rcases preorder_or_rounded three one with order | ⟨x, y, f, differ, memX, memY, memF, xf, yf⟩
    · refine order.trans a b c (by simp) (by simp) (by simp) ?_ bc
      rw [ab]
      decide
    · -- only the last can be the float: with the first two there is an order
      have tie := compareKey_rounded xf
      have tie' := compareKey_rounded yf
      grind
  · rw [beside_uncompared (three.beside (by simp) (by simp) none shown') same']
    decide

theorem column_looseBy (type : DataType) (ascending : Bool) :
    LooseOn (compareKey ascending) (OfKinds (readKinds type)) := by
  cases ascending with
  | true => exact column_loose type
  | false => exact (column_loose type).reverse

theorem between_of_ties {u v w : Value} (column : Column [u, v, w])
    (apart : compareKey true u w ≠ .eq) (uv : compareKey true u v = .eq)
    (vw : compareKey true v w = .eq) : Between u v w := by
  have shown : v ≠ .null := by
    rintro rfl
    by_cases none : u = .null
    · exact apart (none ▸ vw)
    · rw [compareKey_null_right none] at uv
      cases uv
  have left : u ≠ .null := by
    rintro rfl
    rw [compareKey_null_left shown] at uv
    cases uv
  have right : w ≠ .null := by
    rintro rfl
    rw [compareKey_null_right shown] at vw
    cases vw
  have same : SameKind u w := by
    by_contra other
    exact apart (beside_uncompared (column.beside (by simp) (by simp) left right) other)
  by_cases same' : SameKind u v
  · have one : ∀ a ∈ [u, v, w], ∀ b ∈ [u, v, w], SameKind a b := by
      have alike (a : Value) (mem : a ∈ [u, v, w]) : SameKind u a := by
        simp only [List.mem_cons, List.not_mem_nil, or_false] at mem
        rcases mem with rfl | rfl | rfl
        · exact same.trans same.symm
        · exact same'
        · exact same
      exact fun a mem b mem' => (alike a mem).symm.trans (alike b mem')
    rcases preorder_or_rounded column one with order | ⟨x, y, f, differ, memX, memY, memF, xf, yf⟩
    · exact absurd (order.eq_trans (by simp) (by simp) (by simp) uv vw) apart
    · have integers := @compareKey_int64
      refine Or.inr ?_
      grind
  · exact Or.inl ⟨same, shown, same'⟩

theorem ties_of_between {u v w : Value} (column : Column [u, v, w]) (between : Between u v w) :
    compareKey true u v = .eq ∧ compareKey true v w = .eq := by
  rcases between with ⟨same, shown, other⟩ | ⟨x, y, f, rfl, rfl, rfl, xf, yf⟩
  · obtain ⟨k, left, right⟩ := id same
    have other' : ¬ SameKind v w := fun back => other (same.trans back.symm)
    exact ⟨beside_uncompared (column.beside (by simp) (by simp) (kind_same left) shown) other,
      beside_uncompared (column.beside (by simp) (by simp) shown (kind_same right)) other'⟩
  · exact ⟨(compareKey_rounded xf).1, (compareKey_rounded yf).2⟩

theorem float_lt {f g : Float} :
    f < g ↔ f.toModel.unpack.compare g.toModel.unpack = some .lt := by
  show decide (f.toModel < g.toModel) = true ↔ _
  rw [decide_eq_true_iff]
  exact beq_iff_eq

theorem float32_lt {f g : Float32} :
    f < g ↔ f.toModel.unpack.compare g.toModel.unpack = some .lt := by
  show decide (f.toModel < g.toModel) = true ↔ _
  rw [decide_eq_true_iff]
  exact beq_iff_eq

theorem cmpF64_below {v w : Value} {f g : Float} {x y : String}
    (compared : v.tryCmp w = cmpF64 f g x y) : compareKey true v w = .lt ↔ f < g := by
  rw [float_lt]
  cases order : f.toModel.unpack.compare g.toModel.unpack with
  | none =>
    have failed : cmpF64 f g x y = err (cannotCompareNaN x y) := by
      show orError (f.toModel.unpack.compare g.toModel.unpack) _ = _
      rw [order]
      rfl
    rw [compareKey_of_error (compared.trans failed)]
    decide
  | some o =>
    have done : cmpF64 f g x y = .ok o := by
      show orError (f.toModel.unpack.compare g.toModel.unpack) _ = _
      rw [order]
      rfl
    rw [compareKey_of_ok (compared.trans done), Option.some.injEq]

theorem cmpF32_below {f g : Float32} :
    compareKey true (.float32 f) (.float32 g) = .lt ↔ f < g := by
  rw [float32_lt]
  cases order : f.toModel.unpack.compare g.toModel.unpack with
  | none =>
    have failed : (Value.float32 f).tryCmp (.float32 g) =
        err (cannotCompareNaN (print32 f) (print32 g)) := by
      show orError (f.toModel.unpack.compare g.toModel.unpack) _ = _
      rw [order]
      rfl
    rw [compareKey_of_error failed]
    decide
  | some o =>
    have done : (Value.float32 f).tryCmp (.float32 g) = .ok o := by
      show orError (f.toModel.unpack.compare g.toModel.unpack) _ = _
      rw [order]
      rfl
    rw [compareKey_of_ok done, Option.some.injEq]

theorem Pair.below {v w : Value} (pair : Pair v w) :
    compareKey true v w = .lt ↔ Below v w := by
  cases pair with
  | boolean x y => cases x <;> cases y <;> simp [Below] <;> decide
  | string s t => exact compare_lt_iff_lt
  | int32 x y => exact compare_lt_iff_lt
  | int64 x y => exact compare_lt_iff_lt
  | float32 x y => exact cmpF32_below
  | intFloat x f => exact cmpF64_below rfl
  | floatInt f x => exact cmpF64_below rfl
  | float64 f g => exact cmpF64_below rfl

theorem pair_of_below {v w : Value} (below : Below v w) (shown : v ≠ .null) : Pair v w := by
  cases v <;> cases w
  all_goals first
    | exact absurd rfl shown
    | constructor
    | exact below.elim

theorem compareKey_below {v w : Value} (column : Column [v, w]) :
    compareKey true v w = .lt ↔ Below v w := by
  by_cases none : v = .null
  · subst none
    by_cases none' : w = .null
    · subst none'
      exact iff_of_false (by decide) fun below => below rfl
    · exact iff_of_true (compareKey_null_left none') none'
  by_cases none' : w = .null
  · subst none'
    rw [compareKey_null_right none]
    refine iff_of_false (by decide) fun below => ?_
    cases v <;> first | exact below | exact none rfl
  rcases beside_cases (column.beside (by simp) (by simp) none none') with pair | ⟨other, tie⟩
  · exact pair.below
  · rw [tie]
    refine iff_of_false (by decide) fun below => ?_
    have pair := pair_of_below below none
    rw [← pair.below, pair.uncompared other] at below
    cases below

theorem compareKey_belowBy {v w : Value} (column : Column [v, w]) (ascending : Bool) :
    compareKey ascending v w = .lt ↔ BelowBy ascending v w := by
  have back : Column [w, v] := column.subset (by grind)
  cases ascending with
  | true => exact compareKey_below column
  | false =>
    show _ ↔ Below w v
    rw [compareKey_direction, ← compareKey_below back, column_swap column]
    rfl

theorem compareKey_tied {v w : Value} (column : Column [v, w]) (ascending : Bool) :
    compareKey ascending v w = .eq ↔ Tied v w := by
  have back : Column [w, v] := column.subset (by grind)
  rw [Tied, ← compareKey_below column, ← compareKey_below back, column_swap column,
    compareKey_direction]
  cases ascending <;> cases compareKey true v w <;> decide

end Columns

section Csv

theorem parsed_kinds {α : Type} (wrap : α → Value) {k : DataType} {kinds : List DataType}
    (of : ∀ a, kind (wrap a) = some k) (mem : k ∈ kinds) (text : .string ∈ kinds) (s : String)
    (parsed : Option α) : OfKinds kinds ((parsed.map wrap).getD (.string s)) := by
  intro k' is
  cases parsed with
  | none =>
    cases is
    exact text
  | some a =>
    rw [Option.map_some, Option.getD_some, of a] at is
    cases is
    exact mem

theorem coerceValue_kinds (raw : List Char) (type : DataType) :
    OfKinds (readKinds type) (coerceValue raw type) := by
  by_cases blank : Blank raw
  · rw [coerce_blank blank]
    exact ofKinds_null _
  rw [coerce_shown blank]
  cases type with
  | boolean => exact parsed_kinds .boolean (fun _ => rfl) (by decide) (by decide) _ _
  | int64 => exact parsed_kinds .int64 (fun _ => rfl) (by decide) (by decide) _ _
  | int32 => exact parsed_kinds .int32 (fun _ => rfl) (by decide) (by decide) _ _
  | float64 => exact parsed_kinds .float64 (fun _ => rfl) (by decide) (by decide) _ _
  | float32 => exact parsed_kinds .float32 (fun _ => rfl) (by decide) (by decide) _ _
  | _ =>
    intro k is
    cases is
    decide

variable [CsvCrate]

theorem csv_column {text : List Char} {schema : Option Schema} {b : RecordBatch}
    (read : RSparkCsvSource.scanReader text schema = .ok b) (i : Nat) :
    Column (columnValues b i) := by
  obtain ⟨_, _, built⟩ := bind_eq_ok.mp read
  obtain ⟨rfl, _⟩ := fromRecords_eq_ok.mp built
  generalize schema.getD (RSparkCsvSource.inferSchemaFromReader text) = fields
  refine ⟨((fields.fields[i]?).map Field.dataType).getD .null, fun v mem => ?_⟩
  obtain ⟨r, inside, rfl⟩ := List.mem_map.mp mem
  obtain ⟨row, _, rfl⟩ := List.mem_map.mp inside
  rw [Record.getOrNull, Record.get, coerceRow, List.getElem?_map]
  cases cell : (row.zip fields.fields)[i]? with
  | none => exact ofKinds_null _
  | some p =>
    obtain ⟨_, field⟩ := List.getElem?_zip_eq_some.mp cell
    rw [field]
    exact coerceValue_kinds p.1 p.2.dataType

end Csv

section Json
variable [SerdeJson]

theorem jsonToValue_kinds (v : JsonValue) (target : DataType) :
    OfKinds [.boolean, .int64, .float64, .string] (jsonToValue v target) := by
  have text (s : String) : OfKinds [.boolean, .int64, .float64, .string] (.string s) := by
    intro k is
    cases is
    decide
  cases v with
  | null => exact ofKinds_null _
  | bool b => exact ofKinds_boolean (by decide) b
  | number n =>
    intro k is
    rw [number_kind] at is
    cases target with
    | float64 =>
      cases is
      decide
    | string =>
      cases is
      decide
    | _ =>
      cases integer : n.isI64 <;> rw [integer] at is <;> cases is <;> decide
  | string s =>
    cases target with
    | int64 => exact parsed_kinds .int64 (fun _ => rfl) (by decide) (by decide) _ _
    | float64 => exact parsed_kinds .float64 (fun _ => rfl) (by decide) (by decide) _ _
    | boolean => exact parsed_kinds .boolean (fun _ => rfl) (by decide) (by decide) _ _
    | _ => exact text s
  | _ => exact text _

theorem readRecords_rows {schema : Schema} {stream : List (Except String JsonValue)}
    {records : List Record} (read : readRecords schema stream = .ok records) :
    ∀ r ∈ records, ∃ map, r = objectRow schema map := by
  induction stream generalizing records with
  | nil =>
    cases read
    exact List.forall_mem_nil _
  | cons item rest ih =>
    cases item with
    | error e => cases read
    | ok v =>
      cases v with
      | object map =>
        obtain ⟨later, read', same⟩ := bind_eq_ok.mp read
        cases same
        exact List.forall_mem_cons.mpr ⟨⟨map, rfl⟩, ih read'⟩
      | _ => cases read

variable [JsonStream]

theorem scanReader_with {bytes : List UInt8} {schema : Option Schema} {b : RecordBatch}
    (read : RSparkJsonSource.scanReader bytes schema = .ok b) :
    ∃ fields, scanWith bytes fields = .ok b := by
  cases schema with
  | some fields => exact ⟨fields, read⟩
  | none =>
    obtain ⟨fields, _, scanned⟩ := bind_eq_ok.mp read
    exact ⟨fields, scanned⟩

theorem json_column {bytes : List UInt8} {schema : Option Schema} {b : RecordBatch}
    (read : RSparkJsonSource.scanReader bytes schema = .ok b) (i : Nat) :
    Column (columnValues b i) := by
  obtain ⟨fields, scanned⟩ := scanReader_with read
  obtain ⟨records, readAll, built⟩ := bind_eq_ok.mp scanned
  obtain ⟨rfl, _⟩ := fromRecords_eq_ok.mp built
  refine ⟨.null, fun v mem => ?_⟩
  obtain ⟨r, inside, rfl⟩ := List.mem_map.mp mem
  obtain ⟨map, rfl⟩ := readRecords_rows readAll r inside
  rw [Record.getOrNull, Record.get, objectRow, List.getElem?_map]
  cases fields.fields[i]? with
  | none => exact ofKinds_null _
  | some field => exact jsonToValue_kinds _ _

end Json

section Returned
variable [CsvCrate] [SerdeJson] [JsonStream] {b : RecordBatch}

inductive Returned (b : RecordBatch) : Prop where
  | csv (text : List Char) (schema : Option Schema)
      (read : RSparkCsvSource.scanReader text schema = .ok b)
  | json (bytes : List UInt8) (schema : Option Schema)
      (read : RSparkJsonSource.scanReader bytes schema = .ok b)

theorem Returned.column (returned : Returned b) (i : Nat) : Column (columnValues b i) := by
  cases returned with
  | csv text schema read => exact csv_column read i
  | json bytes schema read => exact json_column read i

theorem Returned.valid (returned : Returned b) : b.Valid := by
  cases returned with
  | csv text schema read =>
    obtain ⟨_, _, built⟩ := bind_eq_ok.mp read
    obtain ⟨rfl, valid⟩ := fromRecords_eq_ok.mp built
    exact valid
  | json bytes schema read =>
    obtain ⟨fields, scanned⟩ := scanReader_with read
    obtain ⟨_, _, built⟩ := bind_eq_ok.mp scanned
    obtain ⟨rfl, valid⟩ := fromRecords_eq_ok.mp built
    exact valid

end Returned

section Lists
variable {order : List SortExpr} {types : List DataType}

def Typed (types : List DataType) (ks : List Value) : Prop :=
  List.Forall₂ (fun type v => OfKinds (readKinds type) v) types ks

theorem compareKeys_swap {ks ls : List Value} (at_k : Typed types ks) (at_l : Typed types ls) :
    compareKeys order ls ks = (compareKeys order ks ls).swap := by
  induction order generalizing types ks ls with
  | nil => rfl
  | cons s order ih =>
    cases at_k with
    | nil =>
      cases at_l
      rfl
    | @cons type v types vs of rest =>
      cases at_l with
      | @cons _ w _ ws of' rest' =>
        rw [compareKeys, compareKeys, (column_looseBy type s.ascending).swap v w of of',
          ih rest rest']
        cases compareKey s.ascending v w <;> rfl

theorem compareKeys_before {ks ls : List Value} (at_k : Typed types ks) (at_l : Typed types ls) :
    compareKeys order ks ls = .lt ↔ Before order ks ls := by
  induction order generalizing types ks ls with
  | nil => exact iff_of_false (by cases at_k <;> exact Ordering.noConfusion) id
  | cons s order ih =>
    cases at_k with
    | nil => exact iff_of_false Ordering.noConfusion id
    | @cons type v types vs of rest =>
      cases at_l with
      | @cons _ w _ ws of' rest' =>
        have column : Column [v, w] := ⟨type, by grind⟩
        rw [Before, ← compareKey_belowBy column, ← compareKey_tied column s.ascending,
          ← ih rest rest', compareKeys]
        cases compareKey s.ascending v w <;> simp

theorem clash_cons_iff {s : SortExpr} {type : DataType} {u v w : Value} {us vs ws : List Value}
    (at_u : Typed (type :: types) (u :: us)) (at_v : Typed (type :: types) (v :: vs))
    (at_w : Typed (type :: types) (w :: ws)) :
    Clash (s :: order) (u :: us) (v :: vs) (w :: ws) ↔
      (compareKey s.ascending u w = .lt ∧ compareKey s.ascending u v = .eq ∧
        compareKey s.ascending v w = .eq ∧ compareKeys order us vs ≠ .lt ∧
        compareKeys order vs ws ≠ .lt) ∨
      (compareKey s.ascending u v = .eq ∧ compareKey s.ascending v w = .eq ∧
        compareKey s.ascending u w = .eq) ∧ Clash order us vs ws := by
  obtain ⟨of_u, rest_u⟩ := List.forall₂_cons.mp at_u
  obtain ⟨of_v, rest_v⟩ := List.forall₂_cons.mp at_v
  obtain ⟨of_w, rest_w⟩ := List.forall₂_cons.mp at_w
  have three : Column [u, v, w] := ⟨type, by grind⟩
  have uv : Column [u, v] := three.subset (by grind)
  have vw : Column [v, w] := three.subset (by grind)
  have uw : Column [u, w] := three.subset (by grind)
  rw [Clash, ← compareKeys_before rest_u rest_v, ← compareKeys_before rest_v rest_w,
    compareKey_tied uv, compareKey_tied vw, compareKey_tied uw, ← compareKey_belowBy uw]
  have ties (less : compareKey s.ascending u w = .lt) :
      Between u v w ↔ Tied u v ∧ Tied v w := by
    rw [← compareKey_tied uv true, ← compareKey_tied vw true]
    refine ⟨ties_of_between three, fun both => between_of_ties three ?_ both.1 both.2⟩
    rw [ne_eq, compareKey_tied uw true, ← compareKey_tied uw s.ascending, less]
    decide
  constructor
  · rintro (⟨less, between, rest⟩ | tied)
    · exact Or.inl ⟨less, (ties less).mp between |>.1, (ties less).mp between |>.2, rest⟩
    · exact Or.inr tied
  · rintro (⟨less, left, right, rest⟩ | tied)
    · exact Or.inl ⟨less, (ties less).mpr ⟨left, right⟩, rest⟩
    · exact Or.inr tied

theorem typed_split {type : DataType} {ks : List Value} (at_k : Typed (type :: types) ks) :
    ∃ v vs, ks = v :: vs ∧ OfKinds (readKinds type) v ∧ Typed types vs := by
  cases at_k with
  | cons first rest => exact ⟨_, _, rfl, first, rest⟩

def compareHeads (s : SortExpr) (ks ls : List Value) : Ordering :=
  compareKey s.ascending (ks.headD .null) (ls.headD .null)

theorem heads_loose (s : SortExpr) (type : DataType) (types : List DataType) :
    LooseOn (compareHeads s) (Typed (type :: types)) := by
  refine ((column_looseBy type s.ascending).comap _).subset fun ks at_k => ?_
  obtain ⟨v, vs, rfl, of, _⟩ := typed_split at_k
  exact of

theorem tails_typed {type : DataType} {ks : List Value} (at_k : Typed (type :: types) ks) :
    Typed types ks.tail := by
  obtain ⟨v, vs, rfl, _, rest⟩ := typed_split at_k
  exact rest

theorem compareKeys_then {s : SortExpr} {type : DataType} {ks ls : List Value}
    (at_k : Typed (type :: types) ks) (at_l : Typed (type :: types) ls) :
    compareKeys (s :: order) ks ls =
      (compareHeads s ks ls).then (compareKeys order ks.tail ls.tail) := by
  obtain ⟨v, vs, rfl, _⟩ := typed_split at_k
  obtain ⟨w, ws, rfl, _⟩ := typed_split at_l
  simp only [compareKeys, compareHeads, List.headD_cons, List.tail_cons]
  cases compareKey s.ascending v w <;> rfl

theorem clash_split {s : SortExpr} {type : DataType} {ks ls ms : List Value}
    (at_k : Typed (type :: types) ks) (at_l : Typed (type :: types) ls)
    (at_m : Typed (type :: types) ms) : Clash (s :: order) ks ls ms ↔
      (compareHeads s ks ms = .lt ∧ compareHeads s ks ls = .eq ∧ compareHeads s ls ms = .eq ∧
        compareKeys order ks.tail ls.tail ≠ .lt ∧ compareKeys order ls.tail ms.tail ≠ .lt) ∨
      (compareHeads s ks ls = .eq ∧ compareHeads s ls ms = .eq ∧ compareHeads s ks ms = .eq) ∧
        Clash order ks.tail ls.tail ms.tail := by
  obtain ⟨u, us, rfl, _⟩ := typed_split at_k
  obtain ⟨v, vs, rfl, _⟩ := typed_split at_l
  obtain ⟨w, ws, rfl, _⟩ := typed_split at_m
  exact clash_cons_iff at_k at_l at_m

theorem compareKeys_preorder_iff {R : List Value → Prop} (typed : ∀ ks, R ks → Typed types ks) :
    PreorderOn (compareKeys order) R ↔ ∀ a b c, R a → R b → R c → ¬ Clash order a b c := by
  induction order generalizing types R with
  | nil =>
    have tie : PreorderOn (compareKeys []) R := (preorderOn_tie R).congr fun _ _ _ _ => rfl
    exact iff_of_true tie fun _ _ _ _ _ _ => id
  | cons s order ih =>
    cases types with
    | nil =>
      have none {ks : List Value} (at_k : R ks) : ks = [] := by
        cases typed ks at_k
        rfl
      refine iff_of_true ((preorderOn_tie R).congr fun ks ls at_k _ => ?_) ?_
      · rw [none at_k]
        rfl
      · rintro a b c at_a _ _ clash
        rw [none at_a] at clash
        exact clash
    | cons type types =>
      have heads := (heads_loose s type types).subset typed
      have tails (ks ls : List Value) (at_k : R ks) (at_l : R ls) :
          compareKeys order ls.tail ks.tail = (compareKeys order ks.tail ls.tail).swap :=
        compareKeys_swap (tails_typed (typed ks at_k)) (tails_typed (typed ls at_l))
      have whole := heads.then_preorderOn_iff tails
      have below {T : List Value → Prop} (inside : ∀ ks, T ks → R ks) :
          PreorderOn (fun ks ls => compareKeys order ks.tail ls.tail) T ↔
            ∀ a b c, T a → T b → T c → ¬ Clash order a.tail b.tail c.tail := by
        have typed' (ks : List Value) (at_k : ∃ x, T x ∧ x.tail = ks) : Typed types ks := by
          obtain ⟨x, at_x, rfl⟩ := at_k
          exact tails_typed (typed x (inside x at_x))
        rw [preorderOn_image, ih typed']
        constructor
        · intro free a b c at_a at_b at_c
          exact free _ _ _ ⟨a, at_a, rfl⟩ ⟨b, at_b, rfl⟩ ⟨c, at_c, rfl⟩
        · rintro free _ _ _ ⟨a, at_a, rfl⟩ ⟨b, at_b, rfl⟩ ⟨c, at_c, rfl⟩
          exact free a b c at_a at_b at_c
      have split {a b c : List Value} (at_a : R a) (at_b : R b) (at_c : R c) :=
        @clash_split order types s type a b c (typed a at_a) (typed b at_b) (typed c at_c)
      constructor
      · intro order' a b c at_a at_b at_c clash
        obtain ⟨settled, tied⟩ := whole.mp (order'.congr fun ks ls at_k at_l =>
          (compareKeys_then (typed ks at_k) (typed ls at_l)).symm)
        rcases (split at_a at_b at_c).mp clash with
          ⟨less, left, right, first, second⟩ | ⟨⟨ab, bc, ac⟩, later⟩
        · exact (settled a b c at_a at_b at_c less left right).elim first second
        · have inside : ∀ x, x = a ∨ x = b ∨ x = c → R x := by
            rintro x (rfl | rfl | rfl) <;> assumption
          exact (below inside).mp (tied _ inside (heads.all_tied at_a at_b at_c ab bc ac)) _ _ _
            (Or.inl rfl) (Or.inr (Or.inl rfl)) (Or.inr (Or.inr rfl)) later
      · intro free
        refine (whole.mpr ⟨?_, ?_⟩).congr fun ks ls at_k at_l =>
          compareKeys_then (typed ks at_k) (typed ls at_l)
        · intro a b c at_a at_b at_c ac ab bc
          by_contra unsettled
          exact free a b c at_a at_b at_c
            ((split at_a at_b at_c).mpr (Or.inl ⟨ac, ab, bc, not_or.mp unsettled⟩))
        · intro T inside ties
          refine (below inside).mpr fun a b c at_a at_b at_c later => ?_
          exact free a b c (inside a at_a) (inside b at_b) (inside c at_c)
            ((split (inside a at_a) (inside b at_b) (inside c at_c)).mpr
              (Or.inr ⟨⟨ties a b at_a at_b, ties b c at_b at_c, ties a c at_a at_c⟩, later⟩))

end Lists

section Batches
variable {b : RecordBatch} {keys : List (String × Bool)}

def orderBy (keys : List (String × Bool)) : List SortExpr :=
  keys.map fun k => ⟨.column k.1, k.2⟩

def keyValues (b : RecordBatch) (keys : List (String × Bool)) (r : Record) : List Value :=
  keyOf b (keys.map Prod.fst) r

variable [Regex]

def TotalOn (order : List SortExpr) (b : RecordBatch) : Prop :=
  ∃ keyed, keyedRecords order b b.records = .ok keyed ∧
    PreorderOn (fun p q => compareKeys order p.2 q.2) fun p => p ∈ keyed

/-- The sort has a result, where each row is before those of greater keys and before those of tied
    keys that come later in the batch. -/
def InOrder (order : List SortExpr) (b : RecordBatch) : Prop :=
  ∃ (keyed : List (Record × List Value)) (places : List ((Record × List Value) × Nat)),
    keyedRecords order b b.records = .ok keyed ∧ places.Perm keyed.zipIdx ∧
    sortBatch b order = .ok ⟨b.schema, places.map fun p => p.1.1⟩ ∧
    places.Pairwise fun p q => compareKeys order p.1.2 q.1.2 = .lt ∨
      compareKeys order p.1.2 q.1.2 = .eq ∧ p.2 < q.2

theorem evalAll_known (known : ∀ name ∈ names, name ∈ b.schema.fieldNames) (r : Record) :
    evalAll r b (names.map .column) = .ok (keyOf b names r) := by
  induction names with
  | nil => rfl
  | cons name rest ih =>
    obtain ⟨first, later⟩ := List.forall_mem_cons.mp known
    obtain ⟨i, here⟩ := indexOf_of_mem first
    rw [List.map_cons, evalAll, ih later, Expr.eval, here]
    rw [keyOf, keyOf, List.map_cons, cell, here]
    rfl

theorem keyedRecords_known (known : ∀ name ∈ names, name ∈ b.schema.fieldNames)
    (columns : order.map SortExpr.expr = names.map .column) :
    keyedRecords order b b.records = .ok (b.records.map fun r => (r, keyOf b names r)) :=
  keyedRecords_eq fun r _ => columns ▸ evalAll_known known r

theorem TotalOn.inOrder (valid : b.Valid) (total : TotalOn order b) : InOrder order b := by
  obtain ⟨keyed, evaluated, preorder⟩ := total
  obtain ⟨places, perm, sorted, listed⟩ := sort_places preorder
  refine ⟨keyed, places, evaluated, perm, ?_, listed⟩
  have rows : (keyed.insertionSort fun p q => compareKeys order p.2 q.2 ≠ .gt).map Prod.fst =
      places.map fun p => p.1.1 := by
    rw [sorted, List.map_map]
    rfl
  rw [sortBatch, evaluated, ok_bind]
  show RecordBatch.fromRecords b.schema
    ((keyed.insertionSort fun p q => compareKeys order p.2 q.2 ≠ .gt).map Prod.fst) = _
  rw [← rows]
  refine fromRecords_of_valid fun r mem => valid r ?_
  rw [← RSparkStages.keyedRecords_fst evaluated]
  exact ((List.perm_insertionSort _ keyed).map Prod.fst).mem_iff.mp mem

omit [Regex] in
theorem typed_keys (columns : ∀ i, Column (columnValues b i))
    (known : ∀ k ∈ keys, k.1 ∈ b.schema.fieldNames) :
    ∃ types, ∀ r ∈ b.records, Typed types (keyValues b keys r) := by
  induction keys with
  | nil => exact ⟨[], fun _ _ => .nil⟩
  | cons k keys ih =>
    obtain ⟨first, later⟩ := List.forall_mem_cons.mp known
    obtain ⟨types, typed⟩ := ih later
    obtain ⟨i, here⟩ := indexOf_of_mem first
    obtain ⟨type, of⟩ := columns i
    refine ⟨type :: types, fun r mem => .cons ?_ (typed r mem)⟩
    rw [cell, here]
    exact of _ (List.mem_map_of_mem mem)

theorem totalOn_iff (known : ∀ k ∈ keys, k.1 ∈ b.schema.fieldNames) :
    TotalOn (orderBy keys) b ↔ PreorderOn (compareKeys (orderBy keys))
      fun ks => ∃ r, r ∈ b.records ∧ keyValues b keys r = ks := by
  have known' : ∀ name ∈ keys.map Prod.fst, name ∈ b.schema.fieldNames := by
    intro name mem
    obtain ⟨k, listed, rfl⟩ := List.mem_map.mp mem
    exact known k listed
  have columns : (orderBy keys).map SortExpr.expr = (keys.map Prod.fst).map .column := by
    rw [orderBy, List.map_map, List.map_map]
    rfl
  have evaluated := keyedRecords_known known' columns
  constructor
  · rintro ⟨keyed, evaluated', preorder⟩
    obtain rfl := Except.ok.inj (evaluated.symm.trans evaluated')
    exact preorderOn_image.mp ((preorder.comap fun r : Record =>
      (r, keyValues b keys r)).subset fun r mem => List.mem_map_of_mem mem)
  · intro preorder
    refine ⟨_, evaluated, (preorder.comap Prod.snd).subset fun p mem => ?_⟩
    obtain ⟨r, listed, rfl⟩ := List.mem_map.mp mem
    exact ⟨r, listed, rfl⟩

variable [CsvCrate] [SerdeJson] [JsonStream]

/-- The comparator of a list is a total preorder exactly if no three rows of the batch clash; where
    it is one, the sort is in order. -/
theorem comparator_total_iff (b : RecordBatch) (returned : Returned b)
    (keys : List (String × Bool)) (known : ∀ k ∈ keys, k.1 ∈ b.schema.fieldNames) :
    (TotalOn (orderBy keys) b ↔ ∀ r ∈ b.records, ∀ s ∈ b.records, ∀ t ∈ b.records,
      ¬ Clash (orderBy keys) (keyValues b keys r) (keyValues b keys s) (keyValues b keys t)) ∧
    (TotalOn (orderBy keys) b → InOrder (orderBy keys) b) := by
  obtain ⟨types, typed⟩ := typed_keys returned.column known
  have typed' (ks : List Value) (at_k : ∃ r, r ∈ b.records ∧ keyValues b keys r = ks) :
      Typed types ks := by
    obtain ⟨r, mem, rfl⟩ := at_k
    exact typed r mem
  refine ⟨?_, fun total => total.inOrder returned.valid⟩
  rw [totalOn_iff known, compareKeys_preorder_iff typed']
  constructor
  · intro free r mem s mem' t mem''
    exact free _ _ _ ⟨r, mem, rfl⟩ ⟨s, mem', rfl⟩ ⟨t, mem'', rfl⟩
  · rintro free _ _ _ ⟨r, mem, rfl⟩ ⟨s, mem', rfl⟩ ⟨t, mem'', rfl⟩
    exact free r mem s mem' t mem''

end Batches

section Witness

@[reducible] def noStream : JsonStream := ⟨fun _ => []⟩

/-- The second column mixes numbers and a text, and the first tells the rows apart. -/
def ids : List Char := "id,n\n2,1\n1,none\n3,2\n".toList

def idsBatch : RecordBatch :=
  ⟨⟨[.new "id" .int64, .new "n" .int64]⟩,
    [⟨[.int64 2, .int64 1]⟩, ⟨[.int64 1, .string "none"]⟩, ⟨[.int64 3, .int64 2]⟩]⟩

theorem ids_sorted :
    @TotalOn noRegex (orderBy [("id", true), ("n", true)]) idsBatch ∧
      @InOrder noRegex (orderBy [("id", true), ("n", true)]) idsBatch := by
  have law := @comparator_total_iff noRegex lineReader noPrinter noStream idsBatch
    (@Returned.csv lineReader noPrinter noStream _ ids none rfl) [("id", true), ("n", true)]
    (by decide)
  have total := law.1.mpr ?_
  · exact ⟨total, law.2 total⟩
  · have rows : idsBatch.records.map (keyValues idsBatch [("id", true), ("n", true)]) =
        [[.int64 2, .int64 1], [.int64 1, .string "none"], [.int64 3, .int64 2]] := rfl
    have inside {r : Record} (mem : r ∈ idsBatch.records) := rows ▸ List.mem_map_of_mem mem
      (f := keyValues idsBatch [("id", true), ("n", true)])
    intro r mem s mem' t mem''
    have at_r := inside mem
    have at_s := inside mem'
    have at_t := inside mem''
    simp only [List.mem_cons, List.not_mem_nil, or_false] at at_r at_s at_t
    rcases at_r with same | same | same <;> rcases at_s with same' | same' | same' <;>
      rcases at_t with same'' | same'' | same'' <;> rw [same, same', same''] <;>
      simp [orderBy, Clash, Between, BelowBy, Below, Tied, SameKind, sortKind]

/-- The text "none" ties with both numbers of its column, which do not tie. -/
theorem none_between_integers : ¬ ∀ b, @Returned lineReader noPrinter noStream b →
    ∀ keys : List (String × Bool), (∀ k ∈ keys, k.1 ∈ b.schema.fieldNames) →
      @TotalOn noRegex (orderBy keys) b := by
  intro claim
  have read := @Returned.csv lineReader noPrinter noStream _ "n\n1\nnone\n2\n".toList none rfl
  obtain ⟨keyed, evaluated, preorder⟩ := claim _ read [("n", true)] (by decide)
  cases evaluated
  have tie := preorder.eq_trans List.mem_cons_self (List.mem_cons_of_mem _ List.mem_cons_self)
    (List.mem_cons_of_mem _ (List.mem_cons_of_mem _ List.mem_cons_self)) rfl rfl
  exact absurd tie (by decide)

end Witness

end RSparkSortComparator
