import RSpark.Comparators
import RSpark.Grouping

/- ORDER BY over keys that are NULL or of one kind: the comparator of the sort is a total preorder,
   and what it sorts is in lexicographic key order, equal keys in the order of the input. -/
namespace RSparkSortOrder
open RSparkValue RSparkBatch RSparkExpr RSparkPlan RSparkOperators RSparkGrouping Comparators

section Comparator

theorem compareKey_direction (ascending : Bool) (v w : Value) :
    compareKey ascending v w =
      if ascending then compareKey true v w else (compareKey true v w).swap := by
  cases ascending <;> rfl

theorem compareKey_preorderOn {S : Value → Prop} (up : PreorderOn (compareKey true) S)
    (ascending : Bool) : PreorderOn (compareKey ascending) S := by
  cases ascending with
  | true => exact up
  | false => exact up.reverse.congr fun v w _ _ => compareKey_direction false v w

theorem compareKeys_preorderOn (order : List SortExpr) {S : List (Value → Prop)}
    (each : ∀ T ∈ S, PreorderOn (compareKey true) T) :
    PreorderOn (compareKeys order) (List.Forall₂ (fun T v => T v) S) := by
  induction S generalizing order with
  | nil =>
    refine (preorderOn_tie _).congr fun ks ls at_k at_l => ?_
    cases at_k
    cases order <;> rfl
  | cons T S ih =>
    obtain ⟨first, later⟩ := List.forall_mem_cons.mp each
    cases order with
    | nil => exact (preorderOn_tie _).congr fun _ _ _ _ => rfl
    | cons s order =>
      have heads := (compareKey_preorderOn first s.ascending).comap
        fun ks : List Value => ks.headD .null
      have tails := (ih order later).comap fun ks : List Value => ks.tail
      have inside (ks : List Value) (at_k : List.Forall₂ (fun T v => T v) (T :: S) ks) :
          T (ks.headD .null) ∧ List.Forall₂ (fun T v => T v) S ks.tail := by
        cases at_k with
        | cons head tail => exact ⟨head, tail⟩
      refine ((heads.subset fun ks at_k => (inside ks at_k).1).andThen
        (tails.subset fun ks at_k => (inside ks at_k).2)).congr fun ks ls at_k at_l => ?_
      cases at_k
      cases at_l
      simp only [compareKeys, List.headD_cons, List.tail_cons]
      cases compareKey s.ascending _ _ <;> rfl

end Comparator

section Kinds

inductive KeyKind where
  | boolean | string | integer
  deriving DecidableEq, Repr

def integerOf : Value → Option Int
  | .int32 v => some v.toInt
  | .int64 v => some v.toInt
  | _ => none

inductive OfKind : KeyKind → Value → Prop where
  | null {kind : KeyKind} : OfKind kind .null
  | boolean {v : Bool} : OfKind .boolean (.boolean v)
  | string {v : String} : OfKind .string (.string v)
  | int32 {v : Int32} : OfKind .integer (.int32 v)
  | int64 {v : Int64} : OfKind .integer (.int64 v)

/-- The order of keys: NULL lowest, false before true, strings by their characters, integers by
    number. -/
inductive KeyLess : Value → Value → Prop where
  | null {v : Value} (shown : v ≠ .null) : KeyLess .null v
  | boolean : KeyLess (.boolean false) (.boolean true)
  | string {s t : String} (less : s < t) : KeyLess (.string s) (.string t)
  | integer {v w : Value} {i j : Int} (left : integerOf v = some i) (right : integerOf w = some j)
      (less : i < j) : KeyLess v w

def KeyTie (v w : Value) : Prop := v = w ∨ ∃ i, integerOf v = some i ∧ integerOf w = some i

theorem i32AsI64_toInt (v : Int32) : (i32AsI64 v).toInt = v.toInt := by
  have low := v.le_toInt
  have high := v.toInt_lt
  exact Int64.toInt_ofInt_of_le (by omega) (by omega)

theorem compareKey_integers {v w : Value} {i j : Int} (left : integerOf v = some i)
    (right : integerOf w = some j) : compareKey true v w = compare i j := by
  cases v with
  | int32 a =>
    cases left
    cases w with
    | int32 b =>
      cases right
      rfl
    | int64 b =>
      cases right
      show compare (i32AsI64 a).toInt b.toInt = _
      rw [i32AsI64_toInt]
    | _ => cases right
  | int64 a =>
    cases left
    cases w with
    | int32 b =>
      cases right
      show compare a.toInt (i32AsI64 b).toInt = _
      rw [i32AsI64_toInt]
    | int64 b =>
      cases right
      rfl
    | _ => cases right
  | _ => cases left

theorem compareKey_null_left {v : Value} (shown : v ≠ .null) : compareKey true .null v = .lt := by
  cases v <;> first | rfl | exact absurd rfl shown

theorem compareKey_null_right {v : Value} (shown : v ≠ .null) : compareKey true v .null = .gt := by
  cases v <;> first | rfl | exact absurd rfl shown

theorem preorderOn_read {γ : Type} {cmp : γ → γ → Ordering} {T : γ → Prop}
    (order : PreorderOn cmp T) {S : Value → Prop} (read : Value → Option γ)
    (null : read .null = none) (shown : ∀ v, S v → v ≠ .null → ∃ a, T a ∧ read v = some a)
    (compared : ∀ v w a b, S v → S w → read v = some a → read w = some b →
      compareKey true v w = cmp a b) : PreorderOn (compareKey true) S := by
  have inside (v : Value) (at_v : S v) : ∀ a, read v = some a → T a := by
    intro a here
    by_cases none : v = .null
    · rw [none, null] at here
      cases here
    · obtain ⟨b, at_b, here'⟩ := shown v at_v none
      rw [here] at here'
      cases here'
      exact at_b
  refine ((order.noneFirst.comap read).subset inside).congr fun v w at_v at_w => ?_
  by_cases none : v = .null
  · subst none
    rw [null]
    by_cases none' : w = .null
    · subst none'
      rw [null]
      rfl
    · obtain ⟨b, _, here⟩ := shown w at_w none'
      rw [here, compareKey_null_left none']
      rfl
  · obtain ⟨a, _, here⟩ := shown v at_v none
    by_cases none' : w = .null
    · subst none'
      rw [null, here, compareKey_null_right none]
      rfl
    · obtain ⟨b, _, here'⟩ := shown w at_w none'
      rw [here, here']
      exact compared v w a b at_v at_w here here'

def booleanOf : Value → Option Bool
  | .boolean v => some v
  | _ => none

def stringOf : Value → Option String
  | .string v => some v
  | _ => none

theorem ofKind_preorderOn (kind : KeyKind) : PreorderOn (compareKey true) (OfKind kind) := by
  cases kind with
  | boolean =>
    refine preorderOn_read (preorderOn_compare fun _ => True) booleanOf rfl
      (fun v at_v shown => ?_) fun v w a b at_v at_w => ?_
    · cases at_v with
      | null => exact absurd rfl shown
      | boolean => exact ⟨_, trivial, rfl⟩
    · intro left right
      cases at_v with
      | null => cases left
      | boolean =>
        cases at_w with
        | null => cases right
        | boolean =>
          cases left
          cases right
          rfl
  | string =>
    refine preorderOn_read (preorderOn_compare fun _ => True) stringOf rfl
      (fun v at_v shown => ?_) fun v w a b at_v at_w => ?_
    · cases at_v with
      | null => exact absurd rfl shown
      | string => exact ⟨_, trivial, rfl⟩
    · intro left right
      cases at_v with
      | null => cases left
      | string =>
        cases at_w with
        | null => cases right
        | string =>
          cases left
          cases right
          rfl
  | integer =>
    refine preorderOn_read (preorderOn_compare fun _ => True) integerOf rfl
      (fun v at_v shown => ?_) fun v w a b _ _ => ?_
    · cases at_v with
      | null => exact absurd rfl shown
      | int32 => exact ⟨_, trivial, rfl⟩
      | int64 => exact ⟨_, trivial, rfl⟩
    · exact compareKey_integers

structure Ranked (v w : Value) : Prop where
  less : compareKey true v w = .lt ↔ KeyLess v w
  tie : compareKey true v w = .eq ↔ KeyTie v w

theorem tie_iff_eq {v w : Value} (other : integerOf v = none) : KeyTie v w ↔ v = w := by
  refine ⟨?_, Or.inl⟩
  rintro (same | ⟨i, left, _⟩)
  · exact same
  · rw [other] at left
    cases left

theorem null_ranked (w : Value) : Ranked .null w := by
  by_cases none : w = .null
  · subst none
    refine ⟨iff_of_false (by decide) fun less => ?_, iff_of_true rfl (Or.inl rfl)⟩
    cases less with
    | null shown => exact shown rfl
    | integer left => cases left
  · refine ⟨iff_of_true (compareKey_null_left none) (.null none), ?_⟩
    rw [compareKey_null_left none, tie_iff_eq rfl]
    exact iff_of_false (by decide) fun same => none same.symm

theorem ranked_null {v : Value} (shown : v ≠ .null) : Ranked v .null := by
  constructor
  · rw [compareKey_null_right shown]
    refine iff_of_false (by decide) fun less => ?_
    cases less with
    | null none => exact none rfl
    | integer _ right => cases right
  · rw [compareKey_null_right shown]
    refine iff_of_false (by decide) ?_
    rintro (none | ⟨i, _, right⟩)
    · exact shown none
    · cases right

theorem booleans_ranked (a b : Bool) : Ranked (.boolean a) (.boolean b) := by
  constructor
  · have lower (less : KeyLess (.boolean a) (.boolean b)) : a = false ∧ b = true := by
      cases less with
      | boolean => exact ⟨rfl, rfl⟩
      | integer left => cases left
    constructor
    · cases a <;> cases b <;> intro less
      · cases less
      · exact .boolean
      · cases less
      · cases less
    · intro less
      obtain ⟨rfl, rfl⟩ := lower less
      rfl
  · show compare a b = .eq ↔ _
    rw [Std.compare_eq_iff_eq, tie_iff_eq rfl, Value.boolean.injEq]

theorem strings_ranked (s t : String) : Ranked (.string s) (.string t) := by
  constructor
  · show compare s t = .lt ↔ _
    rw [compare_lt_iff_lt]
    refine ⟨.string, fun less => ?_⟩
    cases less with
    | string less => exact less
    | integer left => cases left
  · show compare s t = .eq ↔ _
    rw [Std.compare_eq_iff_eq, tie_iff_eq rfl, Value.string.injEq]

theorem integers_ranked {v w : Value} {i j : Int} (left : integerOf v = some i)
    (right : integerOf w = some j) : Ranked v w := by
  constructor
  · rw [compareKey_integers left right, Int.compare_eq_lt]
    refine ⟨.integer left right, fun less => ?_⟩
    cases less with
    | null => cases left
    | boolean => cases left
    | string => cases left
    | integer left' right' less =>
      rw [left] at left'
      rw [right] at right'
      cases left'
      cases right'
      exact less
  · rw [compareKey_integers left right, Int.compare_eq_eq]
    constructor
    · rintro rfl
      exact Or.inr ⟨i, left, right⟩
    · rintro (rfl | ⟨k, left', right'⟩)
      · exact Option.some.inj (left.symm.trans right)
      · exact Option.some.inj ((left.symm.trans left').trans (right'.symm.trans right))

theorem compareKey_ranked {kind : KeyKind} {v w : Value} (at_v : OfKind kind v)
    (at_w : OfKind kind w) : Ranked v w := by
  cases at_v with
  | null => exact null_ranked w
  | boolean =>
    cases at_w with
    | null => exact ranked_null Value.noConfusion
    | boolean => exact booleans_ranked _ _
  | string =>
    cases at_w with
    | null => exact ranked_null Value.noConfusion
    | string => exact strings_ranked _ _
  | int32 =>
    cases at_w with
    | null => exact ranked_null Value.noConfusion
    | int32 => exact integers_ranked rfl rfl
    | int64 => exact integers_ranked rfl rfl
  | int64 =>
    cases at_w with
    | null => exact ranked_null Value.noConfusion
    | int32 => exact integers_ranked rfl rfl
    | int64 => exact integers_ranked rfl rfl

end Kinds

section Lists

/-- The first keys that are not of one rank decide, each in its direction. -/
def LexLess : List SortExpr → List Value → List Value → Prop
  | s :: order, v :: vs, w :: ws =>
      (if s.ascending then KeyLess v w else KeyLess w v) ∨ KeyTie v w ∧ LexLess order vs ws
  | _, _, _ => False

theorem compareKey_directed {kind : KeyKind} {v w : Value} (at_v : OfKind kind v)
    (at_w : OfKind kind w) (ascending : Bool) :
    (compareKey ascending v w = .lt ↔ if ascending then KeyLess v w else KeyLess w v) ∧
      (compareKey ascending v w = .eq ↔ KeyTie v w) := by
  obtain ⟨less, tie⟩ := compareKey_ranked at_v at_w
  cases ascending with
  | true => exact ⟨less, tie⟩
  | false =>
    rw [compareKey_direction]
    constructor
    · rw [← (ofKind_preorderOn kind).swap v w at_v at_w]
      exact (compareKey_ranked at_w at_v).less
    · rw [← tie]
      cases compareKey true v w <;> decide

theorem compareKeys_ranked {order : List SortExpr} {kinds : List KeyKind} {ks ls : List Value}
    (width : order.length = kinds.length) (at_k : List.Forall₂ OfKind kinds ks)
    (at_l : List.Forall₂ OfKind kinds ls) :
    (compareKeys order ks ls = .lt ↔ LexLess order ks ls) ∧
      (compareKeys order ks ls = .eq ↔ List.Forall₂ KeyTie ks ls) := by
  induction order generalizing kinds ks ls with
  | nil =>
    obtain rfl := List.length_eq_zero_iff.mp width.symm
    cases at_k
    cases at_l
    exact ⟨iff_of_false (by decide) id, iff_of_true rfl .nil⟩
  | cons s order ih =>
    cases at_k with
    | nil => cases width
    | @cons kind v kinds vs at_v at_vs =>
      cases at_l with
      | @cons _ w _ ws at_w at_ws =>
        obtain ⟨less, tie⟩ := compareKey_directed at_v at_w s.ascending
        obtain ⟨less', tie'⟩ := ih (Nat.succ.inj width) at_vs at_ws
        rw [LexLess, List.forall₂_cons, ← less, ← tie, ← less', ← tie', compareKeys]
        cases compareKey s.ascending v w <;> simp

end Lists

section Batch
variable [Regex] {b : RecordBatch} {order : List SortExpr} {keys : Record → List Value}
variable {kinds : List KeyKind}

theorem keyedRecords_eq {records : List Record}
    (evaluated : ∀ r ∈ records, evalAll r b (order.map SortExpr.expr) = .ok (keys r)) :
    keyedRecords order b records = .ok (records.map fun r => (r, keys r)) := by
  induction records with
  | nil => rfl
  | cons r records ih =>
    obtain ⟨first, later⟩ := List.forall_mem_cons.mp evaluated
    rw [keyedRecords, first, ok_bind, ih later, ok_bind, List.map_cons]

theorem sortBatch_by_keys (valid : b.Valid)
    (evaluated : ∀ r ∈ b.records, evalAll r b (order.map SortExpr.expr) = .ok (keys r)) :
    sortBatch b order = .ok ⟨b.schema,
      b.records.insertionSort fun r s => compareKeys order (keys r) (keys s) ≠ .gt⟩ := by
  have sorted : (sortBy (fun p q => compareKeys order p.2 q.2)
      (b.records.map fun r => (r, keys r))).map Prod.fst =
      b.records.insertionSort fun r s => compareKeys order (keys r) (keys s) ≠ .gt := by
    rw [sortBy, ← List.map_insertionSort (fun r s : Record =>
      compareKeys order (keys r) (keys s) ≠ .gt) _ _ _ fun _ _ _ _ => Iff.rfl, List.map_map]
    exact List.map_id _
  rw [sortBatch, keyedRecords_eq evaluated, ok_bind]
  show RecordBatch.fromRecords b.schema _ = _
  rw [sorted]
  refine fromRecords_of_valid fun r mem => valid r ?_
  exact (List.perm_insertionSort _ _).mem_iff.mp mem

/-- The sorted batch has the records of the batch, each before those of greater keys and before
    those of equal keys that come later in the batch. -/
theorem sort_batch_stable (valid : b.Valid)
    (evaluated : ∀ r ∈ b.records, evalAll r b (order.map SortExpr.expr) = .ok (keys r))
    (ofKinds : ∀ r ∈ b.records, List.Forall₂ OfKind kinds (keys r)) :
    ∃ places : List (Record × Nat), places.Perm b.records.zipIdx ∧
      sortBatch b order = .ok ⟨b.schema, places.map Prod.fst⟩ ∧
      (places.map Prod.fst).Perm b.records ∧
      places.Pairwise fun p q => LexLess order (keys p.1) (keys q.1) ∨
        List.Forall₂ KeyTie (keys p.1) (keys q.1) ∧ p.2 < q.2 := by
  have preorder : PreorderOn (fun r s => compareKeys order (keys r) (keys s))
      fun r => r ∈ b.records := by
    have lists := compareKeys_preorderOn order (S := kinds.map OfKind) fun T mem => by
      obtain ⟨kind, _, rfl⟩ := List.mem_map.mp mem
      exact ofKind_preorderOn kind
    refine (lists.comap keys).subset fun r mem => ?_
    exact List.forall₂_map_left_iff.mpr (ofKinds r mem)
  obtain ⟨places, perm, sorted, placed⟩ := sort_places preorder
  have listed : (places.map Prod.fst).Perm b.records := by
    have all := perm.map Prod.fst
    rwa [List.zipIdx_map_fst] at all
  refine ⟨places, perm, ?_, listed, ?_⟩
  · rw [sortBatch_by_keys valid evaluated, sorted]
  · refine placed.imp_of_mem fun {p q} memP memQ => ?_
    have inP := listed.mem_iff.mp (List.mem_map_of_mem memP)
    have inQ := listed.mem_iff.mp (List.mem_map_of_mem memQ)
    have width : order.length = kinds.length := by
      rw [(ofKinds p.1 inP).length_eq, evalAll_length (evaluated p.1 inP), List.length_map]
    obtain ⟨less, tie⟩ := compareKeys_ranked width (ofKinds p.1 inP) (ofKinds q.1 inQ)
    rw [less, tie]
    exact id

end Batch

section Witness

def scores : RecordBatch :=
  ⟨⟨[.new "team" .string, .new "points" .int64]⟩,
    [⟨[.string "red", .int64 3]⟩, ⟨[.string "blue", .int32 5]⟩, ⟨[.null, .int64 1]⟩,
      ⟨[.string "red", .int64 7]⟩, ⟨[.string "blue", .int64 5]⟩]⟩

def byTeam : List SortExpr := [⟨.column "team", true⟩, ⟨.column "points", false⟩]

/-- Teams ascending, points descending, integers of both widths mixed. -/
theorem scores_sorted : ∃ places : List (Record × Nat), places.Perm scores.records.zipIdx ∧
    @sortBatch noRegex scores byTeam = .ok ⟨scores.schema, places.map Prod.fst⟩ ∧
    (places.map Prod.fst).Perm scores.records ∧
    places.Pairwise fun p q => LexLess byTeam p.1.values q.1.values ∨
      List.Forall₂ KeyTie p.1.values q.1.values ∧ p.2 < q.2 := by
  refine @sort_batch_stable noRegex scores byTeam Record.values [.string, .integer] (by decide)
    (by decide) ?_
  simp only [scores, List.forall_mem_cons]
  refine ⟨?_, ?_, ?_, ?_, ?_, List.forall_mem_nil _⟩
  · exact .cons .string (.cons .int64 .nil)
  · exact .cons .string (.cons .int32 .nil)
  · exact .cons .null (.cons .int64 .nil)
  · exact .cons .string (.cons .int64 .nil)
  · exact .cons .string (.cons .int64 .nil)

end Witness

end RSparkSortOrder
