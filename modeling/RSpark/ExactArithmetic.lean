import RSpark.Accumulators
import RSpark.Comparisons
import RSpark.FloatTruncation
import RSpark.Overflow
import RSpark.RingTrees
import RSpark.SortOrder

/- Trees of +, - and * over numbers of any type against their exact values: the operators read
   all operands as i64, so every leaf below one is cut to an integer first. -/
namespace RSparkExactArithmetic
open FloatText RSparkValue RSparkBatch RSparkExpr RSparkAccumulators RSparkComparisons
open RSparkOverflow RSparkSortOrder
open RingTrees BinaryRounding Float.Model

section Trees

def ringOp : BinaryOp → Option RingOp
  | .add => some .add
  | .sub => some .sub
  | .mul => some .mul
  | _ => none

def isNumber : Value → Bool
  | .int32 _ | .int64 _ | .float32 _ | .float64 _ => true
  | _ => false

def isInteger : Value → Bool
  | .int32 _ | .int64 _ => true
  | _ => false

def numberLeaf (v : Value) : Option (RingTree Value) := if isNumber v then some (.leaf v) else none

/-- The tree that an expression is on a record: sums, differences and products over columns and
    literals that are numbers there. -/
def numberTree (record : Record) (batch : RecordBatch) : Expr → Option (RingTree Value)
  | .column name => (batch.schema.indexOf name).bind fun i => numberLeaf (record.getOrNull i)
  | .literal lit => numberLeaf lit.toValue
  | .binary op left right =>
      match ringOp op, numberTree record batch left, numberTree record batch right with
      | some op, some l, some r => some (.node op l r)
      | _, _, _ => none
  | _ => none

end Trees

section Exact

inductive NumberType where
  | int64 | float64
  deriving DecidableEq, Repr

def NumberType.Holds (type : NumberType) (q : ℚ) : Prop :=
  match type with
  | .int64 => ∃ v : Int64, q = v.toInt
  | .float64 => ∃ v : Float, exactOf v.toModel.unpack = some q

def resultType (t : RingTree Value) : NumberType :=
  if t.Leaves fun v => isInteger v = true then .int64 else .float64

/-- The number that a value stands for. It is asked for only where there is one. -/
def exactNumber (v : Value) : ℚ := (exactValue v).getD 0

def Representable (type : NumberType) : RingTree Value → Prop
  | .leaf v => (exactValue v).isSome = true ∧ type.Holds (exactNumber v)
  | .node op left right => Representable type left ∧ Representable type right ∧
      type.Holds (op.apply (left.value exactNumber) (right.value exactNumber))

def cut (q : ℚ) : ℤ := max (-9223372036854775808) (min (towardZero q) 9223372036854775807)

def cutNumber (v : Value) : ℤ := cut (exactNumber v)

/-- Over its leaves cut to integers the tree stays within i64 and has the same value. -/
def CutExact (t : RingTree Value) : Prop :=
  t.Nodes cutNumber IsI64 ∧ ((t.value cutNumber : ℤ) : ℚ) = t.value exactNumber

theorem cut_of_isI64 {n : ℤ} (is : IsI64 n) : cut n = n := by
  obtain ⟨low, high⟩ := is
  rw [cut, towardZero_intCast]
  omega

theorem toInt_isI64 (v : Int64) : IsI64 v.toInt := by
  have low := v.le_toInt
  have high := v.toInt_lt
  exact ⟨by omega, by omega⟩

theorem toInt64_cut {u : UnpackedFloat} {q : ℚ} (exact' : exactOf u = some q) :
    u.toInt64.toInt = cut q := by
  have clamp (n : ℤ) : (Int64.ofIntClamp n).toInt =
      max (-9223372036854775808) (min n 9223372036854775807) := by
    have low : Int64.minValue.toInt = -9223372036854775808 := rfl
    have high : Int64.maxValue.toInt = 9223372036854775807 := rfl
    unfold Int64.ofIntClamp
    split
    · split
      · rw [Int64.toInt_ofIntLE]
        omega
      · omega
    · omega
  cases u with
  | notANumber => cases exact'
  | infinity sign => cases exact'
  | zero sign =>
    cases exact'
    rw [← Int.cast_zero, cut_of_isI64 (by decide)]
    rfl
  | finite sign m e pos =>
    cases exact'
    show (Int64.ofIntClamp (UnpackedFloat.roundToInt sign m e)).toInt = _
    rw [clamp, roundToInt_eq, cut]

theorem castToI64_cut {v : Value} (number : isNumber v = true)
    (finite : (exactValue v).isSome = true) :
    ∃ a, v.castToI64 = some a ∧ a.toInt = cutNumber v := by
  obtain ⟨q, exact'⟩ := Option.isSome_iff_exists.mp finite
  rw [cutNumber, exactNumber, exact', Option.getD_some]
  cases v with
  | int32 x =>
    cases exact'
    refine ⟨i32AsI64 x, rfl, ?_⟩
    have low := x.le_toInt
    have high := x.toInt_lt
    rw [i32AsI64_toInt, cut_of_isI64 ⟨by omega, by omega⟩]
  | int64 x =>
    cases exact'
    exact ⟨x, rfl, (cut_of_isI64 (toInt_isI64 x)).symm⟩
  | float32 x => exact ⟨f32AsI64 x, rfl, toInt64_cut exact'⟩
  | float64 x => exact ⟨f64AsI64 x, rfl, toInt64_cut exact'⟩
  | _ => cases number

theorem checkedI64_of (name : String) {n : ℤ} (is : IsI64 n) :
    checkedI64 name n = .ok (Int64.ofInt n) ∧ (Int64.ofInt n).toInt = n := by
  obtain ⟨low, high⟩ := is
  exact ⟨(checkedI64_guarded name n).same ⟨low, high⟩,
    Int64.toInt_ofInt_of_le (by omega) (by omega)⟩

theorem representable_finite {type : NumberType} {t : RingTree Value}
    (exact' : Representable type t) : t.Leaves fun v => (exactValue v).isSome = true := by
  induction t with
  | leaf v => exact exact'.1
  | node op left right ihl ihr => exact ⟨ihl exact'.1, ihr exact'.2.1⟩

theorem wholes_value {t : RingTree Value}
    (wholes : t.Leaves fun v => (cutNumber v : ℚ) = exactNumber v) :
    ((t.value cutNumber : ℤ) : ℚ) = t.value exactNumber :=
  (RingTree.map_value (Int.castRingHom ℚ) cutNumber t).trans (RingTree.value_congr wholes)

theorem integer_whole {v : Value} (integer : isInteger v = true) :
    (cutNumber v : ℚ) = exactNumber v := by
  cases v with
  | int32 x =>
    have low := x.le_toInt
    have high := x.toInt_lt
    exact congrArg Int.cast (cut_of_isI64 ⟨by omega, by omega⟩)
  | int64 x => exact congrArg Int.cast (cut_of_isI64 (toInt_isI64 x))
  | _ => cases integer

theorem integers_nodes {t : RingTree Value} (integers : t.Leaves fun v => isInteger v = true)
    (exact' : Representable .int64 t) : t.Nodes cutNumber IsI64 := by
  induction t with
  | leaf v => trivial
  | node op left right ihl ihr =>
    obtain ⟨exactLeft, exactRight, n, same⟩ := exact'
    refine ⟨ihl integers.1 exactLeft, ihr integers.2 exactRight, ?_⟩
    rw [← wholes_value (integers.1.imp fun v => integer_whole),
      ← wholes_value (integers.2.imp fun v => integer_whole)] at same
    have whole : op.apply (left.value cutNumber) (right.value cutNumber) = n.toInt := by
      have passed : ((op.apply (left.value cutNumber) (right.value cutNumber) : ℤ) : ℚ) = _ :=
        RingOp.map_apply (Int.castRingHom ℚ) op _ _
      exact Int.cast_injective (passed.trans same)
    rw [whole]
    exact toInt_isI64 n

theorem integers_cutExact {t : RingTree Value} (integers : t.Leaves fun v => isInteger v = true)
    (exact' : Representable (resultType t) t) : CutExact t := by
  rw [resultType, if_pos integers] at exact'
  exact ⟨integers_nodes integers exact', wholes_value (integers.imp fun v => integer_whole)⟩

end Exact

section Evaluation

theorem numberLeaf_eq {v : Value} {t : RingTree Value} (found : numberLeaf v = some t) :
    isNumber v = true ∧ t = .leaf v := by
  unfold numberLeaf at found
  split at found
  · rename_i number
    exact ⟨number, (Option.some.inj found).symm⟩
  · cases found

variable [Regex] {record : Record} {batch : RecordBatch}

inductive Reads (record : Record) (batch : RecordBatch) : Expr → RingTree Value → Prop where
  | leaf {e : Expr} {v : Value} (evaluated : e.eval record batch = .ok v)
      (number : isNumber v = true) : Reads record batch e (.leaf v)
  | node {op : BinaryOp} {is : RingOp} {left right : Expr} {l r : RingTree Value}
      (ring : ringOp op = some is) (readsLeft : Reads record batch left l)
      (readsRight : Reads record batch right r) :
      Reads record batch (.binary op left right) (.node is l r)

theorem reads_of_numberTree {e : Expr} {t : RingTree Value}
    (found : numberTree record batch e = some t) : Reads record batch e t := by
  induction e generalizing t with
  | column name =>
    obtain ⟨i, here, leaf⟩ := Option.bind_eq_some_iff.mp found
    obtain ⟨number, rfl⟩ := numberLeaf_eq leaf
    refine .leaf ?_ number
    rw [Expr.eval, here]
    rfl
  | literal lit =>
    obtain ⟨number, rfl⟩ := numberLeaf_eq found
    exact .leaf rfl number
  | binary op left right ihl ihr =>
    unfold numberTree at found
    split at found
    · rename_i is l r ring here here'
      cases found
      exact .node ring (ihl here) (ihr here')
    · cases found
  | _ => cases found

theorem evalBinary_integers {op : BinaryOp} {is : RingOp} (ring : ringOp op = some is)
    {lv rv : Value} {a b : Int64} (left : lv.castToI64 = some a) (right : rv.castToI64 = some b) :
    ∃ name, evalBinary op lv rv =
      checkedI64 name (is.apply a.toInt b.toInt) >>= fun c => .ok (.int64 c) := by
  have shown {v : Value} {c : Int64} (read : v.castToI64 = some c) : v ≠ .null := by
    rintro rfl
    cases read
  rw [evalBinary_shown (shown left) (shown right)]
  cases op with
  | add =>
    cases ring
    refine ⟨"add", ?_⟩
    simp only [applyBinary, numericOp, left, right]
    rfl
  | sub =>
    cases ring
    refine ⟨"subtract", ?_⟩
    simp only [applyBinary, numericOp, left, right]
    rfl
  | mul =>
    cases ring
    refine ⟨"multiply", ?_⟩
    simp only [applyBinary, numericOp, left, right]
    rfl
  | _ => cases ring

/-- A tree is evaluated over its leaves cut to integers; an operator aborts where the result is no
    i64. -/
theorem eval_tree {e : Expr} {t : RingTree Value} (reads : Reads record batch e t)
    (finite : t.Leaves fun v => (exactValue v).isSome = true) :
    (t.Nodes cutNumber IsI64 → ∃ v a, e.eval record batch = .ok v ∧ v.castToI64 = some a ∧
      a.toInt = t.value cutNumber ∧ (¬ t.IsLeaf → v = .int64 a)) ∧
    (¬ t.Nodes cutNumber IsI64 → ∃ message, e.eval record batch = abort message) := by
  induction reads with
  | leaf evaluated number =>
    obtain ⟨a, read, same⟩ := castToI64_cut number finite
    refine ⟨fun _ => ⟨_, a, evaluated, read, same, fun inner => absurd trivial inner⟩, ?_⟩
    exact fun outside => absurd trivial outside
  | @node op is left right l r ring readsLeft readsRight ihl ihr =>
    obtain ⟨evaluatesLeft, abortsLeft⟩ := ihl finite.1
    obtain ⟨evaluatesRight, abortsRight⟩ := ihr finite.2
    by_cases insideLeft : l.Nodes cutNumber IsI64
    · obtain ⟨lv, a, evaluated, read, same, _⟩ := evaluatesLeft insideLeft
      by_cases insideRight : r.Nodes cutNumber IsI64
      · obtain ⟨rv, b, evaluated', read', same', _⟩ := evaluatesRight insideRight
        obtain ⟨name, applied⟩ := evalBinary_integers ring read read'
        have whole : (Expr.binary op left right).eval record batch =
            checkedI64 name (is.apply (l.value cutNumber) (r.value cutNumber)) >>= fun c =>
              .ok (.int64 c) := by
          rw [Expr.eval, evaluated, ok_bind, evaluated', ok_bind, applied, same, same']
        rw [whole]
        constructor
        · rintro ⟨_, _, inside⟩
          obtain ⟨checked, exact'⟩ := checkedI64_of name inside
          exact ⟨_, _, by rw [checked]; rfl, rfl, exact', fun _ => rfl⟩
        · intro outside
          have overflow : ¬ IsI64 (is.apply (l.value cutNumber) (r.value cutNumber)) :=
            fun inside => outside ⟨insideLeft, insideRight, inside⟩
          obtain ⟨_, ⟨message, rfl⟩, stopped⟩ := (checkedI64_guarded name _).stops overflow
          exact ⟨message, by rw [stopped]; rfl⟩
      · refine ⟨fun inside => absurd inside.2.1 insideRight, fun _ => ?_⟩
        obtain ⟨message, stopped⟩ := abortsRight insideRight
        exact ⟨message, by rw [Expr.eval, evaluated, ok_bind, stopped]; rfl⟩
    · refine ⟨fun inside => absurd inside.1 insideLeft, fun _ => ?_⟩
      obtain ⟨message, stopped⟩ := abortsLeft insideLeft
      exact ⟨message, by rw [Expr.eval, stopped]; rfl⟩

def ReturnsExact (record : Record) (batch : RecordBatch) (e : Expr) (t : RingTree Value) : Prop :=
  ∃ v, e.eval record batch = .ok v ∧ exactValue v = some (t.value exactNumber)

theorem returnsExact_leaf {e : Expr} {v : Value} (reads : Reads record batch e (.leaf v))
    (finite : (exactValue v).isSome = true) : ReturnsExact record batch e (.leaf v) := by
  cases reads with
  | leaf evaluated number =>
    refine ⟨v, evaluated, ?_⟩
    obtain ⟨q, here⟩ := Option.isSome_iff_exists.mp finite
    rw [here, RingTree.value, exactNumber, here]
    rfl

theorem returnsExact_iff {e : Expr} {t : RingTree Value} (reads : Reads record batch e t)
    (finite : t.Leaves fun v => (exactValue v).isSome = true) (inner : ¬ t.IsLeaf) :
    ReturnsExact record batch e t ↔ CutExact t := by
  obtain ⟨evaluates, aborts⟩ := eval_tree reads finite
  by_cases inside : t.Nodes cutNumber IsI64
  · obtain ⟨v, a, evaluated, _, same, integer⟩ := evaluates inside
    obtain rfl := integer inner
    rw [ReturnsExact, CutExact, ← same]
    constructor
    · rintro ⟨_, evaluated', exact'⟩
      rw [evaluated] at evaluated'
      cases evaluated'
      exact ⟨inside, Option.some.inj exact'⟩
    · rintro ⟨_, exact'⟩
      exact ⟨_, evaluated, congrArg some exact'⟩
  · obtain ⟨message, stopped⟩ := aborts inside
    refine iff_of_false ?_ fun exact' => inside exact'.1
    rintro ⟨_, evaluated, _⟩
    rw [stopped] at evaluated
    cases evaluated

/-- A tree with a result that its type can represent throughout is evaluated to it exactly if it is
    a leaf or its leaves can be cut to integers; over integers it always is. -/
theorem arithmetic_exact_iff (record : Record) (batch : RecordBatch) (e : Expr)
    (t : RingTree Value) (tree : numberTree record batch e = some t) :
    ((Representable (resultType t) t → ReturnsExact record batch e t) ↔
      (Representable (resultType t) t → t.IsLeaf ∨ CutExact t)) ∧
    ((t.Leaves fun v => isInteger v = true) → Representable (resultType t) t →
      ReturnsExact record batch e t) := by
  have reads := reads_of_numberTree tree
  have returns (exact' : Representable (resultType t) t) :
      ReturnsExact record batch e t ↔ t.IsLeaf ∨ CutExact t := by
    have finite := representable_finite exact'
    by_cases leaf : t.IsLeaf
    · refine iff_of_true ?_ (Or.inl leaf)
      cases t with
      | leaf v => exact returnsExact_leaf reads finite
      | node op left right => exact leaf.elim
    · rw [returnsExact_iff reads finite leaf, or_iff_right leaf]
  refine ⟨forall_congr' returns, fun integers exact' => ?_⟩
  exact (returns exact').mpr (Or.inr (integers_cutExact integers exact'))

end Evaluation

section Witness

def sevenfold : Expr := .binary .mul (.column "n") (.literal (.int 7))

def six : RecordBatch := ⟨⟨[.new "n" .int32]⟩, [⟨[.int32 6]⟩]⟩

def sevenfoldTree : RingTree Value := .node .mul (.leaf (.int32 6)) (.leaf (.int64 7))

theorem sevenfold_exact :
    ((Representable (resultType sevenfoldTree) sevenfoldTree →
        @ReturnsExact noRegex ⟨[.int32 6]⟩ six sevenfold sevenfoldTree) ↔
      (Representable (resultType sevenfoldTree) sevenfoldTree →
        sevenfoldTree.IsLeaf ∨ CutExact sevenfoldTree)) ∧
    ((sevenfoldTree.Leaves fun v => isInteger v = true) →
      Representable (resultType sevenfoldTree) sevenfoldTree →
        @ReturnsExact noRegex ⟨[.int32 6]⟩ six sevenfold sevenfoldTree) :=
  @arithmetic_exact_iff noRegex ⟨[.int32 6]⟩ six sevenfold sevenfoldTree rfl

def halves : Expr :=
  .binary .add (.literal (.float (scientific64 15 (-1)))) (.literal (.float (scientific64 25 (-1))))

def halvesTree : RingTree Value :=
  .node .add (.leaf (.float64 (scientific64 15 (-1)))) (.leaf (.float64 (scientific64 25 (-1))))

/-- The sum of the halves is evaluated to 3. -/
theorem halves_discarded : ¬ ∀ (record : Record) (batch : RecordBatch) (e : Expr)
    (t : RingTree Value), numberTree record batch e = some t →
      Representable (resultType t) t → @ReturnsExact noRegex record batch e t := by
  intro claim
  have left : exactValue (.float64 (scientific64 15 (-1))) = some (3 / 2) := by decide +kernel
  have right : exactValue (.float64 (scientific64 25 (-1))) = some (5 / 2) := by decide +kernel
  have four : exactValue (.float64 (scientific64 4 0)) = some 4 := by decide +kernel
  have sum : halvesTree.value exactNumber = 4 := by
    rw [halvesTree, RingTree.value, RingTree.value, RingTree.value, exactNumber, exactNumber, left,
      right]
    norm_num [RingOp.apply]
  have exact' : Representable .float64 halvesTree := by
    refine ⟨⟨by rw [left]; rfl, scientific64 15 (-1), ?_⟩,
      ⟨by rw [right]; rfl, scientific64 25 (-1), ?_⟩, scientific64 4 0, ?_⟩
    · rw [exactNumber, left]
      exact left
    · rw [exactNumber, right]
      exact right
    · exact four.trans (congrArg some sum.symm)
  obtain ⟨v, evaluated, same⟩ := claim ⟨[]⟩ ⟨⟨[]⟩, []⟩ halves halvesTree rfl exact'
  have three : @Expr.eval noRegex ⟨[]⟩ ⟨⟨[]⟩, []⟩ halves = .ok (.int64 3) := by rfl
  rw [three] at evaluated
  cases evaluated
  rw [sum] at same
  exact absurd (Option.some.inj same) (by decide)

end Witness

end RSparkExactArithmetic
