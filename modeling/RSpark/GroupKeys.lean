import RSpark.FloatRoundTrip
import RSpark.GroupRows

/- What the records of one group share: groups are told apart by the texts of their values, which
   spell values of different types alike and the two zeros differently. -/
namespace RSparkGroupKeys
open RSparkValue RSparkBatch RSparkExpr RSparkOperators RSparkGrouping RSparkScalarItems
open RSparkGroupRows RSparkValueTexts RSparkFloatTexts Listing

section Values

def notANumber : Value → Bool
  | .float32 x => x.isNaN
  | .float64 x => x.isNaN
  | _ => false

def OppositeZeros : Value → Value → Prop
  | .float32 x, .float32 y => x = 0 ∧ y = -0 ∨ x = -0 ∧ y = 0
  | .float64 x, .float64 y => x = 0 ∧ y = -0 ∨ x = -0 ∧ y = 0
  | _, _ => False

instance (v w : Value) : Decidable (OppositeZeros v w) := by
  unfold OppositeZeros
  split <;> infer_instance

theorem text_tells {v w : Value} (sameType : v.dataTypeName = w.dataTypeName)
    (same : v.castToString = w.castToString) : v = w := by
  cases exact' : floating v with
  | false => exact text_inj sameType exact' same
  | true =>
    cases v <;> cases w <;> simp only [Value.dataTypeName, String.reduceEq] at sameType
    case float32 x y => rw [print32_inj same]
    case float64 x y => rw [print64_inj same]
    all_goals cases exact'

theorem partialEq_type {v w : Value} (equal : v.partialEq w = true) :
    v.dataTypeName = w.dataTypeName := by
  cases v <;> cases w <;> first | rfl | cases equal

theorem partialEq_iff {v w : Value} : v.partialEq w = true ↔
    notANumber v = false ∧ notANumber w = false ∧ (v = w ∨ OppositeZeros v w) := by
  cases v <;> cases w <;>
    simp [Value.partialEq, notANumber, OppositeZeros, Float.beq_iff_ne_nan_and_eq,
      Float32.beq_iff_ne_nan_and_eq]

theorem opposite_ne {v w : Value} (opposite : OppositeZeros v w) : v ≠ w := by
  rintro rfl
  cases v with
  | float64 x =>
    have differ : (0 : Float) ≠ -0 := by decide
    rcases opposite with ⟨zero, zero'⟩ | ⟨zero, zero'⟩
    · exact differ (zero.symm.trans zero')
    · exact differ (zero'.symm.trans zero)
  | float32 x =>
    have differ : (0 : Float32) ≠ -0 := by decide
    rcases opposite with ⟨zero, zero'⟩ | ⟨zero, zero'⟩
    · exact differ (zero.symm.trans zero')
    · exact differ (zero'.symm.trans zero)
  | _ => exact opposite

theorem partialEq_of_text {v w : Value} (same : v.castToString = w.castToString) :
    v.partialEq w = true ↔ v.dataTypeName = w.dataTypeName ∧ notANumber v = false := by
  constructor
  · intro equal
    exact ⟨partialEq_type equal, (partialEq_iff.mp equal).1⟩
  · rintro ⟨sameType, number⟩
    obtain rfl := text_tells sameType same
    exact partialEq_iff.mpr ⟨number, number, Or.inl rfl⟩

theorem text_of_partialEq {v w : Value} (equal : v.partialEq w = true) :
    v.castToString = w.castToString ↔ ¬ OppositeZeros v w := by
  obtain ⟨_, _, alike⟩ := partialEq_iff.mp equal
  constructor
  · intro same opposite
    exact opposite_ne opposite (text_tells (partialEq_type equal) same)
  · intro signs
    rw [alike.resolve_right signs]

end Values

section Groups
variable [Regex] {keys aggs : List Expr} {b : RecordBatch}

def ShareGroup (keys : List Expr) (b : RecordBatch) (r s : Record) : Prop :=
  ∃ g ∈ groupsBy keys b, r ∈ g.rows ∧ s ∈ g.rows

def EqualValues : List Value → List Value → Prop :=
  List.Forall₂ fun v w => v.partialEq w = true

/-- Where the texts of the group values agree, the values have the same types and are numbers;
    where the values are equal, no zeros of opposite signs are among them. -/
structure ToldApart (keys : List Expr) (b : RecordBatch) (r s : Record) : Prop where
  merged : groupText keys b r = groupText keys b s →
    List.Forall₂ (fun v w => v.dataTypeName = w.dataTypeName ∧ notANumber v = false)
      (groupKey keys b r) (groupKey keys b s)
  split : EqualValues (groupKey keys b r) (groupKey keys b s) →
    List.Forall₂ (fun v w => ¬ OppositeZeros v w) (groupKey keys b r) (groupKey keys b s)

instance (v w : List Value) : Decidable (EqualValues v w) :=
  inferInstanceAs (Decidable (List.Forall₂ _ v w))

instance (keys : List Expr) (b : RecordBatch) (r s : Record) : Decidable (ToldApart keys b r s) :=
  decidable_of_iff ((groupText keys b r = groupText keys b s →
      List.Forall₂ (fun v w => v.dataTypeName = w.dataTypeName ∧ notANumber v = false)
        (groupKey keys b r) (groupKey keys b s)) ∧
      (EqualValues (groupKey keys b r) (groupKey keys b s) →
        List.Forall₂ (fun v w => ¬ OppositeZeros v w) (groupKey keys b r) (groupKey keys b s)))
    ⟨fun h => ⟨h.1, h.2⟩, fun h => ⟨h.merged, h.split⟩⟩

theorem shareGroup_iff {r s : Record} (mem : r ∈ b.records) (mem' : s ∈ b.records) :
    ShareGroup keys b r s ↔ groupText keys b r = groupText keys b s := by
  constructor
  · rintro ⟨g, grouped, left, right⟩
    obtain ⟨text, _, rfl⟩ := List.mem_map.mp grouped
    have same := of_decide_eq_true (List.mem_filter.mp left).2
    have same' := of_decide_eq_true (List.mem_filter.mp right).2
    exact same.trans same'.symm
  · intro same
    refine ⟨groupOf keys b (groupText keys b r), ?_, ?_, ?_⟩
    · exact List.mem_map_of_mem (mem_groupTexts.mpr ⟨r, mem, rfl⟩)
    · exact List.mem_filter.mpr ⟨mem, decide_eq_true rfl⟩
    · exact List.mem_filter.mpr ⟨mem', decide_eq_true same.symm⟩

theorem sameText_iff {r s : Record} : groupText keys b r = groupText keys b s ↔
    List.Forall₂ (fun v w : Value => v.castToString = w.castToString) (groupKey keys b r)
      (groupKey keys b s) := by
  rw [groupText, groupText, ← List.forall₂_eq_eq_eq, List.forall₂_map_left_iff,
    List.forall₂_map_right_iff]

theorem grouped_alike_iff {r s : Record} :
    (groupText keys b r = groupText keys b s ↔
      EqualValues (groupKey keys b r) (groupKey keys b s)) ↔ ToldApart keys b r s := by
  constructor
  · intro law
    constructor
    · intro same
      exact (sameText_iff.mp same).mp (fun v w text => (partialEq_of_text text).mp) (law.mp same)
    · intro equal
      exact List.Forall₂.mp (fun v w value => (text_of_partialEq value).mp) equal
        (sameText_iff.mp (law.mpr equal))
  · rintro ⟨merged, split⟩
    constructor
    · intro same
      exact (sameText_iff.mp same).mp (fun v w text => (partialEq_of_text text).mpr) (merged same)
    · intro equal
      exact sameText_iff.mpr
        (List.Forall₂.mp (fun v w value => (text_of_partialEq value).mpr) equal (split equal))

theorem own_group {r : Record} (mem : r ∈ b.records) : ∃! g, g ∈ groupsBy keys b ∧ r ∈ g.rows := by
  refine ⟨groupOf keys b (groupText keys b r), ⟨?_, ?_⟩, ?_⟩
  · exact List.mem_map_of_mem (mem_groupTexts.mpr ⟨r, mem, rfl⟩)
  · exact List.mem_filter.mpr ⟨mem, decide_eq_true rfl⟩
  · rintro g ⟨grouped, here⟩
    obtain ⟨text, _, rfl⟩ := List.mem_map.mp grouped
    rw [of_decide_eq_true (List.mem_filter.mp here).2]

/-- The output rows are the groups' in their order, and every record is in one group; two records
    are in one group exactly if their group values are equal, just where the texts of the values
    tell the records apart. -/
theorem grouped_by_values_iff (keys aggs : List Expr) (b : RecordBatch)
    (evaluates : Evaluates keys aggs b) :
    (∀ schema, aggregateBatch keys aggs b schema =
      RecordBatch.fromRecords schema ((groupsBy keys b).map (rowOf aggs b))) ∧
    (∀ r ∈ b.records, ∃! g, g ∈ groupsBy keys b ∧ r ∈ g.rows) ∧
    (b.records.Pairwise (fun r s => ShareGroup keys b r s ↔
        EqualValues (groupKey keys b r) (groupKey keys b s)) ↔
      b.records.Pairwise (ToldApart keys b)) := by
  refine ⟨aggregateBatch_eq evaluates, fun r mem => own_group mem, ?_⟩
  refine List.Pairwise.iff_of_mem fun {r s} mem mem' => ?_
  rw [shareGroup_iff mem mem', grouped_alike_iff]

end Groups

section Witness
open RSparkClauseLaw (people)

/-- Each city has the people who live there. -/
theorem cities_told_apart :
    people.records.Pairwise fun r s => @ShareGroup noRegex [.column "city"] people r s ↔
      EqualValues (@groupKey noRegex [.column "city"] people r)
        (@groupKey noRegex [.column "city"] people s) :=
  (@grouped_by_values_iff noRegex [.column "city"] [rowCount] people (by decide)).2.2.mpr
    (by decide)

def labels : RecordBatch := ⟨⟨[.new "label" .string]⟩, [⟨[.null]⟩, ⟨[.string "null"]⟩]⟩

/-- NULL is counted in the group of the word that spells it. -/
theorem null_counted_as_its_word :
    ¬ ∀ (keys aggs : List Expr) (b : RecordBatch), @Evaluates noRegex keys aggs b →
      b.records.Pairwise fun r s => @ShareGroup noRegex keys b r s ↔
        EqualValues (@groupKey noRegex keys b r) (@groupKey noRegex keys b s) := by
  intro claim
  have law := claim [.column "label"] [rowCount] labels (by decide)
  have shared : @ShareGroup noRegex [.column "label"] labels ⟨[.null]⟩ ⟨[.string "null"]⟩ :=
    (@shareGroup_iff noRegex _ _ _ _ (by decide) (by decide)).mpr (by decide)
  have equal := ((List.pairwise_cons.mp law).1 _ List.mem_cons_self).mp shared
  exact absurd equal (by decide)

end Witness

end RSparkGroupKeys
