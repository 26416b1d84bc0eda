import Mathlib.Algebra.BigOperators.Group.List.Basic
import Mathlib.Algebra.Field.Rat
import Mathlib.Algebra.Ring.Rat
import RSpark.Operators

/- What the accumulators make of a list of values: NULL is passed over, AVG is SUM by COUNT, and
   an accumulator that has seen no value has its start to show for it. -/
namespace RSparkAccumulators
open FloatText RSparkValue RSparkExpr RSparkOperators

section Feeding

def fed (func : AggregateFn) (distinct : Bool) (values : List Value) : Accumulator :=
  values.foldl (fun acc v => acc.update v distinct) (.new func)

def result (func : AggregateFn) (distinct : Bool) (values : List Value) : Value :=
  (fed func distinct values).finish

def nonNull (values : List Value) : List Value := values.filter fun v => !v.isNull

theorem update_null (acc : Accumulator) (distinct : Bool) : acc.update .null distinct = acc := by
  cases acc <;> rfl

theorem mem_nonNull {values : List Value} {v : Value} :
    v ∈ nonNull values ↔ v ∈ values ∧ v ≠ .null := by
  simp [nonNull, List.mem_filter, ← isNull_iff]

theorem nonNull_eq_nil {values : List Value} :
    nonNull values = [] ↔ ∀ v ∈ values, v = .null := by
  simp [nonNull, List.filter_eq_nil_iff, isNull_iff]

/-- No accumulator looks at NULL or at DISTINCT. -/
theorem fed_nonNull (func : AggregateFn) (distinct : Bool) (values : List Value) :
    fed func distinct values = fed func false (nonNull values) := by
  have pass (start : Accumulator) : values.foldl (fun acc v => acc.update v distinct) start =
      (nonNull values).foldl (fun acc v => acc.update v false) start := by
    induction values generalizing start with
    | nil => rfl
    | cons v rest ih =>
      rw [List.foldl_cons, ih]
      by_cases missing : v = .null
      · subst missing
        rw [update_null]
        rfl
      · have known : nonNull (v :: rest) = v :: nonNull rest :=
          List.filter_cons_of_pos (by simpa [← isNull_iff] using missing)
        rw [known, List.foldl_cons]
        rfl
  exact pass (.new func)

end Feeding

section Counting

theorem fed_count (distinct : Bool) (values : List Value) :
    fed .count distinct values = .count (nonNull values).length := by
  have counts (l : List Value) (some : ∀ v ∈ l, v ≠ .null) (n : Nat) :
      l.foldl (fun acc v => acc.update v false) (Accumulator.count n) =
        .count (n + l.length) := by
    induction l generalizing n with
    | nil => rfl
    | cons v rest ih =>
      obtain ⟨here, later⟩ := List.forall_mem_cons.mp some
      rw [List.foldl_cons, Accumulator.update, if_neg (by rwa [isNull_iff]), ih later,
        List.length_cons, Nat.add_assoc, Nat.add_comm 1]
  rw [fed_nonNull, fed]
  show List.foldl _ (Accumulator.count 0) _ = _
  rw [counts _ (fun v mem => (mem_nonNull.mp mem).2), Nat.zero_add]

theorem result_count (distinct : Bool) (values : List Value) :
    result .count distinct values = .int64 (Int64.ofNat (nonNull values).length) := by
  rw [result, fed_count]
  rfl

end Counting

section Sums

/-- What SUM and AVG compute with: which values are numbers, and the operations on them. -/
structure Arithmetic (α : Type) where
  read : Value → Option α
  zero : α
  add : α → α → α
  div : α → α → α
  ofCount : Nat → α

namespace Arithmetic
variable {α : Type} (A : Arithmetic α)

def addTo (total : α) (v : Value) : α := (A.read v).elim total (A.add total)

def addCounted (state : α × Nat) (v : Value) : α × Nat :=
  (A.read v).elim state fun x => (A.add state.1 x, state.2 + 1)

def sum (values : List Value) : α := values.foldl A.addTo A.zero

def avg (values : List Value) : Option α :=
  let state := values.foldl A.addCounted (A.zero, 0)
  if state.2 = 0 then none else some (A.div state.1 (A.ofCount state.2))

theorem foldl_addCounted (values : List Value) (total : α) (n : Nat) :
    values.foldl A.addCounted (total, n) =
      (values.foldl A.addTo total, n + (values.filterMap A.read).length) := by
  induction values generalizing total n with
  | nil => rfl
  | cons v rest ih =>
    rw [List.foldl_cons, List.foldl_cons, List.filterMap_cons]
    cases known : A.read v with
    | none =>
      simp only [addCounted, addTo, known, Option.elim_none]
      exact ih total n
    | some x =>
      simp only [addCounted, addTo, known, Option.elim_some, List.length_cons]
      rw [ih, Nat.add_assoc, Nat.add_comm 1]

theorem avg_eq (values : List Value) :
    A.avg values =
      if (values.filterMap A.read).length = 0 then none
      else some (A.div (A.sum values) (A.ofCount (values.filterMap A.read).length)) := by
  rw [avg, foldl_addCounted, Nat.zero_add]
  rfl

end Arithmetic

def doubles : Arithmetic Float where
  read := Value.castToF64
  zero := zeroF64
  add := (· + ·)
  div := (· / ·)
  ofCount n := i64AsF64 (Int64.ofNat n)

theorem result_sum (distinct : Bool) (values : List Value) :
    result .sum distinct values = .float64 (doubles.sum values) := by
  have pass (total : Float) :
      values.foldl (fun acc v => acc.update v distinct) (Accumulator.sum total) =
        .sum (values.foldl doubles.addTo total) := by
    induction values generalizing total with
    | nil => rfl
    | cons v rest ih =>
      rw [List.foldl_cons, List.foldl_cons, ← ih, Accumulator.update]
      simp only [Arithmetic.addTo, doubles]
      cases v.castToF64 with
      | none => rfl
      | some x => rfl
  rw [result, fed]
  show (List.foldl _ (Accumulator.sum zeroF64) _).finish = _
  rw [pass]
  rfl

theorem result_avg (distinct : Bool) (values : List Value) :
    result .avg distinct values = (doubles.avg values).elim .null .float64 := by
  have pass (state : Float × Nat) :
      values.foldl (fun acc v => acc.update v distinct) (Accumulator.avg state.1 state.2) =
        .avg (values.foldl doubles.addCounted state).1
          (values.foldl doubles.addCounted state).2 := by
    induction values generalizing state with
    | nil => rfl
    | cons v rest ih =>
      rw [List.foldl_cons, List.foldl_cons, ← ih, Accumulator.update]
      simp only [Arithmetic.addCounted, doubles]
      cases v.castToF64 with
      | none => rfl
      | some x => rfl
  rw [result, fed]
  show (List.foldl _ (Accumulator.avg (zeroF64, 0).1 (zeroF64, 0).2) _).finish = _
  rw [pass, Arithmetic.avg, Accumulator.finish]
  show _ = (ite ((values.foldl doubles.addCounted (zeroF64, 0)).2 = 0) none _).elim _ _
  split
  · rfl
  · rfl

end Sums

section Exact
open Float.Model

def exactOf : UnpackedFloat → Option ℚ
  | .finite sign m e _ => some (sign.apply m * 2 ^ e)
  | .zero _ => some 0
  | _ => none

def exactNumeral : Numeral → Option ℚ
  | .decimal negative digits exponent =>
      some ((if negative then -1 else 1) * digits * 10 ^ exponent)
  | _ => none

def exactValue : Value → Option ℚ
  | .null => none
  | .boolean v => some (if v then 1 else 0)
  | .int32 v => some v.toInt
  | .int64 v => some v.toInt
  | .float32 v => exactOf v.toModel.unpack
  | .float64 v => exactOf v.toModel.unpack
  | .string s => (readNumeral s).bind exactNumeral

def rationals : Arithmetic ℚ where
  read := exactValue
  zero := 0
  add := (· + ·)
  div := (· / ·)
  ofCount n := n

theorem rationals_sum (values : List Value) :
    rationals.sum values = (values.filterMap exactValue).sum := by
  have pass (total : ℚ) : values.foldl rationals.addTo total =
      total + (values.filterMap exactValue).sum := by
    induction values generalizing total with
    | nil => simp
    | cons v rest ih =>
      rw [List.foldl_cons, ih, List.filterMap_cons, Arithmetic.addTo]
      simp only [rationals]
      cases exactValue v with
      | none => rfl
      | some x => simp [add_assoc]
  rw [Arithmetic.sum, pass]
  exact zero_add _

end Exact

section Law

theorem length_read {α : Type} {read : Value → Option α} (missing : read .null = none)
    {values : List Value} (numeric : ∀ v ∈ values, v ≠ .null → (read v).isSome = true) :
    (values.filterMap read).length = (nonNull values).length := by
  induction values with
  | nil => rfl
  | cons v rest ih =>
    have later := ih fun w mem => numeric w (List.mem_cons_of_mem v mem)
    by_cases null : v = .null
    · subst null
      rw [List.filterMap_cons_none missing, later]
      rfl
    · obtain ⟨x, known⟩ := Option.isSome_iff_exists.mp (numeric v List.mem_cons_self null)
      have kept : nonNull (v :: rest) = v :: nonNull rest :=
        List.filter_cons_of_pos (by simpa [← isNull_iff] using null)
      rw [List.filterMap_cons_some known, kept, List.length_cons, List.length_cons, later]

/-- The aggregates of a list of values: only the values other than NULL matter; over numbers AVG
    is SUM by COUNT, in doubles and without rounding; and of nothing but NULLs, COUNT is 0 and
    the others are NULL. -/
structure NullLaw (values : List Value) : Prop where
  ignores : ∀ values', nonNull values' = nonNull values → ∀ func distinct distinct',
    result func distinct' values' = result func distinct values
  average : (∃ v ∈ values, v ≠ .null) →
    (∀ v ∈ values, v ≠ .null → v.castToF64.isSome = true) → ∀ distinct, ∃ s c,
      result .sum distinct values = .float64 s ∧ result .count distinct values = .int64 c ∧
      result .avg distinct values = .float64 (s / i64AsF64 c)
  exact : (∃ v ∈ values, v ≠ .null) →
    (∀ v ∈ values, v ≠ .null → (exactValue v).isSome = true) → ∀ distinct, ∃ c : Nat,
      result .count distinct values = .int64 (Int64.ofNat c) ∧
      rationals.sum values = (values.filterMap exactValue).sum ∧
      rationals.avg values = some (rationals.sum values / c)
  missing : (∀ v ∈ values, v = .null) → ∀ distinct,
    result .count distinct values = .int64 0 ∧ result .sum distinct values = .null ∧
    result .avg distinct values = .null ∧ result .min distinct values = .null ∧
    result .max distinct values = .null

theorem result_ignores {values values' : List Value} (same : nonNull values' = nonNull values)
    (func : AggregateFn) (distinct distinct' : Bool) :
    result func distinct' values' = result func distinct values := by
  rw [result, result, fed_nonNull, same, ← fed_nonNull func distinct]

theorem Arithmetic.avg_counted {α : Type} (A : Arithmetic α) (missing : A.read .null = none)
    {values : List Value} (known : ∃ v ∈ values, v ≠ .null)
    (numeric : ∀ v ∈ values, v ≠ .null → (A.read v).isSome = true) :
    A.avg values = some (A.div (A.sum values) (A.ofCount (nonNull values).length)) := by
  obtain ⟨v, mem, other⟩ := known
  have some : (nonNull values).length ≠ 0 := by
    rw [ne_eq, List.length_eq_zero_iff]
    exact List.ne_nil_of_mem (mem_nonNull.mpr ⟨mem, other⟩)
  rw [A.avg_eq, length_read missing numeric, if_neg some]

theorem result_missing {values : List Value} (missing : ∀ v ∈ values, v = .null)
    (func : AggregateFn) (distinct : Bool) :
    result func distinct values = (Accumulator.new func).finish := by
  rw [result, fed_nonNull, nonNull_eq_nil.mpr missing]
  rfl

/-- The law holds unless every value is NULL: the sum of nothing is the double 0.0. -/
theorem null_law_iff (values : List Value) : NullLaw values ↔ ∃ v ∈ values, v ≠ .null := by
  constructor
  · intro law
    by_contra none
    have missing : ∀ v ∈ values, v = .null := by simpa using none
    obtain ⟨_, sum, _⟩ := law.missing missing false
    rw [result_missing missing] at sum
    cases sum
  · intro known
    refine ⟨fun values' => result_ignores, fun _ numeric distinct => ?_,
      fun _ numeric distinct => ?_, fun missing => ?_⟩
    · refine ⟨doubles.sum values, Int64.ofNat (nonNull values).length, result_sum _ _,
        result_count _ _, ?_⟩
      rw [result_avg, doubles.avg_counted rfl known numeric]
      rfl
    · refine ⟨(nonNull values).length, result_count _ _, rationals_sum values, ?_⟩
      exact rationals.avg_counted rfl known numeric
    · obtain ⟨v, mem, other⟩ := known
      exact absurd (missing v mem) other

theorem sum_of_nulls : ¬ ∀ values, NullLaw values := by
  intro law
  obtain ⟨_, sum, _⟩ := (law [.null]).missing (by simp) false
  cases sum

end Law

section Integers

def asInt64 : Value → Option Int64
  | .int64 v => some v
  | _ => none

theorem nonNull_integers {values : List Value} (ints : ∀ v ∈ values, intOrNull v = true) :
    nonNull values = (values.filterMap asInt64).map .int64 := by
  induction values with
  | nil => rfl
  | cons v rest ih =>
    obtain ⟨here, later⟩ := List.forall_mem_cons.mp ints
    cases v with
    | null => exact ih later
    | int64 n => exact congrArg (Value.int64 n :: ·) (ih later)
    | _ => cases here

theorem keepExtreme_gt (m n : Int64) :
    keepExtreme .gt (some (.int64 m)) (.int64 n) = some (.int64 (min m n)) := by
  have smaller : min m n = if m ≤ n then m else n := rfl
  simp only [keepExtreme, Value.tryCmp, smaller, compare_gt_iff_gt, Int64.le_iff_toInt_le]
  split <;> split
  · omega
  · rfl
  · rfl
  · omega

theorem keepExtreme_lt (m n : Int64) :
    keepExtreme .lt (some (.int64 m)) (.int64 n) = some (.int64 (max m n)) := by
  have larger : max m n = if m ≤ n then n else m := rfl
  simp only [keepExtreme, Value.tryCmp, larger, compare_lt_iff_lt, Int64.le_iff_toInt_le]
  split <;> split
  · rfl
  · omega
  · have same : m = n := Int64.toInt_inj.mp (by omega)
    rw [same]
  · rfl

theorem foldl_keepExtreme {replaceOn : Ordering} {better : Int64 → Int64 → Int64}
    (keeps : ∀ m n, keepExtreme replaceOn (some (.int64 m)) (.int64 n) =
      some (.int64 (better m n))) (ints : List Int64) (m : Int64) :
    (ints.map Value.int64).foldl (keepExtreme replaceOn) (some (.int64 m)) =
      some (.int64 (ints.foldl better m)) := by
  induction ints generalizing m with
  | nil => rfl
  | cons n rest ih => rw [List.map_cons, List.foldl_cons, keeps, ih, List.foldl_cons]

theorem foldl_slot {wrap : Option Value → Accumulator} {replaceOn : Ordering}
    (step : ∀ slot v, v.isNull = false →
      (wrap slot).update v false = wrap (keepExtreme replaceOn slot v))
    (values : List Value) (slot : Option Value) :
    (nonNull values).foldl (fun acc v => acc.update v false) (wrap slot) =
      wrap ((nonNull values).foldl (keepExtreme replaceOn) slot) := by
  have known : ∀ v ∈ nonNull values, v.isNull = false := fun v mem => by
    simpa using (List.mem_filter.mp mem).2
  generalize nonNull values = l at known
  induction l generalizing slot with
  | nil => rfl
  | cons v rest ih =>
    obtain ⟨here, later⟩ := List.forall_mem_cons.mp known
    rw [List.foldl_cons, step slot v here, ih _ later, List.foldl_cons]

theorem fed_min (distinct : Bool) (values : List Value) :
    fed .min distinct values = .min ((nonNull values).foldl (keepExtreme .gt) none) := by
  rw [fed_nonNull]
  refine foldl_slot (fun slot v known => ?_) values none
  rw [Accumulator.update, known]
  rfl

theorem fed_max (distinct : Bool) (values : List Value) :
    fed .max distinct values = .max ((nonNull values).foldl (keepExtreme .lt) none) := by
  rw [fed_nonNull]
  refine foldl_slot (fun slot v known => ?_) values none
  rw [Accumulator.update, known]
  rfl

variable {values : List Value}

theorem result_min (distinct : Bool) (ints : ∀ v ∈ values, intOrNull v = true) :
    result .min distinct values = (values.filterMap asInt64).min?.elim .null .int64 := by
  rw [result, fed_min, nonNull_integers ints]
  cases values.filterMap asInt64 with
  | nil => rfl
  | cons n rest =>
    rw [List.map_cons, List.foldl_cons, keepExtreme, foldl_keepExtreme keepExtreme_gt]
    rfl

theorem result_max (distinct : Bool) (ints : ∀ v ∈ values, intOrNull v = true) :
    result .max distinct values = (values.filterMap asInt64).max?.elim .null .int64 := by
  rw [result, fed_max, nonNull_integers ints]
  cases values.filterMap asInt64 with
  | nil => rfl
  | cons n rest =>
    rw [List.map_cons, List.foldl_cons, keepExtreme, foldl_keepExtreme keepExtreme_lt]
    rfl

instance int64Max_lawful : Std.LawfulOrderMax Int64 := by
  have larger (m n : Int64) : max m n = if m ≤ n then n else m := rfl
  refine .of_max_le_iff (fun m n k => ?_) fun m n => ?_
  · simp only [larger, Int64.le_iff_toInt_le]
    split <;> omega
  · rw [larger]
    split
    · exact Or.inr rfl
    · exact Or.inl rfl

/-- A value of the list other than NULL that stands so to every other, or NULL where there is
    none. -/
def Extreme (stands : Value → Value → Prop) (values : List Value) (v : Value) : Prop :=
  (v ∈ values ∧ v ≠ .null ∧ ∀ w ∈ values, w ≠ .null → stands v w) ∨
    v = .null ∧ ∀ w ∈ values, w = .null

def AtMost (v w : Value) : Prop := v.tryCmp w = .ok .lt ∨ v.tryCmp w = .ok .eq

theorem atMost_int64 (m n : Int64) : AtMost (.int64 m) (.int64 n) ↔ m ≤ n := by
  simp only [AtMost, Value.tryCmp, Except.ok.injEq, compare_lt_iff_lt, compare_eq_iff_eq,
    Int64.le_iff_toInt_le]
  omega

theorem extreme_of_integers {stands : Value → Value → Prop}
    (ints : ∀ v ∈ values, intOrNull v = true) {best : Option Int64}
    (none : best = none → values.filterMap asInt64 = [])
    (some : ∀ m, best = some m → m ∈ values.filterMap asInt64 ∧
      ∀ n ∈ values.filterMap asInt64, stands (.int64 m) (.int64 n)) :
    Extreme stands values (best.elim .null .int64) := by
  have inside (m : Int64) : m ∈ values.filterMap asInt64 ↔ .int64 m ∈ values := by
    rw [List.mem_filterMap]
    constructor
    · rintro ⟨v, mem, known⟩
      cases v with
      | int64 n =>
        obtain rfl := Option.some.inj known
        exact mem
      | _ => cases known
    · exact fun mem => ⟨.int64 m, mem, rfl⟩
  have integer : ∀ w ∈ values, w ≠ .null → ∃ n, w = .int64 n := by
    intro w mem other
    have int := ints w mem
    cases w with
    | null => exact absurd rfl other
    | int64 n => exact ⟨n, rfl⟩
    | _ => cases int
  cases found : best with
  | none =>
    refine Or.inr ⟨rfl, fun w mem => ?_⟩
    by_contra other
    obtain ⟨n, rfl⟩ := integer w mem other
    have listed := (inside n).mpr mem
    rw [none found] at listed
    cases listed
  | some m =>
    obtain ⟨listed, best⟩ := some m found
    refine Or.inl ⟨(inside m).mp listed, fun same => (by cases same), fun w mem other => ?_⟩
    obtain ⟨n, rfl⟩ := integer w mem other
    exact best n ((inside n).mpr mem)

theorem min_extreme (distinct : Bool) (ints : ∀ v ∈ values, intOrNull v = true) :
    Extreme AtMost values (result .min distinct values) := by
  rw [result_min distinct ints]
  refine extreme_of_integers ints (fun none => List.min?_eq_none_iff.mp none) fun m found => ?_
  obtain ⟨mem, least⟩ := List.min?_eq_some_iff.mp found
  exact ⟨mem, fun n listed => (atMost_int64 m n).mpr (least n listed)⟩

theorem max_extreme (distinct : Bool) (ints : ∀ v ∈ values, intOrNull v = true) :
    Extreme (fun v w => AtMost w v) values (result .max distinct values) := by
  rw [result_max distinct ints]
  refine extreme_of_integers ints (fun none => List.max?_eq_none_iff.mp none) fun m found => ?_
  obtain ⟨mem, greatest⟩ := List.max?_eq_some_iff.mp found
  exact ⟨mem, fun n listed => (atMost_int64 n m).mpr (greatest n listed)⟩

theorem min_perm {l l' : List Int64} (perm : l.Perm l') : l'.min? = l.min? := by
  cases found : l.min? with
  | none =>
    obtain rfl := List.min?_eq_none_iff.mp found
    rw [List.nil_perm.mp perm]
    rfl
  | some m =>
    obtain ⟨mem, least⟩ := List.min?_eq_some_iff.mp found
    exact List.min?_eq_some_iff.mpr
      ⟨perm.mem_iff.mp mem, fun n listed => least n (perm.mem_iff.mpr listed)⟩

theorem max_perm {l l' : List Int64} (perm : l.Perm l') : l'.max? = l.max? := by
  cases found : l.max? with
  | none =>
    obtain rfl := List.max?_eq_none_iff.mp found
    rw [List.nil_perm.mp perm]
    rfl
  | some m =>
    obtain ⟨mem, greatest⟩ := List.max?_eq_some_iff.mp found
    exact List.max?_eq_some_iff.mpr
      ⟨perm.mem_iff.mp mem, fun n listed => greatest n (perm.mem_iff.mpr listed)⟩

theorem result_perm {values' : List Value} (perm : values.Perm values') {func : AggregateFn}
    (unordered : func = .count ∨ func = .min ∨ func = .max) (distinct : Bool)
    (ints : ∀ v ∈ values, intOrNull v = true) :
    result func distinct values' = result func distinct values := by
  have ints' : ∀ v ∈ values', intOrNull v = true := fun v mem => ints v (perm.mem_iff.mpr mem)
  rcases unordered with rfl | rfl | rfl
  · rw [result_count, result_count, nonNull, nonNull, (perm.filter _).length_eq]
  · rw [result_min distinct ints, result_min distinct ints', min_perm (perm.filterMap asInt64)]
  · rw [result_max distinct ints, result_max distinct ints', max_perm (perm.filterMap asInt64)]

end Integers

end RSparkAccumulators
