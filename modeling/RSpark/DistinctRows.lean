import RSpark.FirstOccurrences
import RSpark.GroupKeys

/- DISTINCT keeps the first row of each joined text. Rows of one text need not be equal: a bar in
   a cell moves the border between two cells, and the types are not written. -/
namespace RSparkDistinctRows
open RSparkValue RSparkBatch RSparkExpr RSparkPlan RSparkExecutor RSparkGroupKeys FirstOccurrences

def EqualRows (s r : Record) : Prop := EqualValues s.values r.values

instance : DecidableRel EqualRows := fun s r =>
  inferInstanceAs (Decidable (EqualValues s.values r.values))

def SameCell (v w : Value) : Prop :=
  v.dataTypeName = w.dataTypeName ∧ notANumber w = false ∧
    (v.castToString = w.castToString ∨ OppositeZeros v w)

instance : DecidableRel SameCell := fun _ _ => inferInstanceAs (Decidable (_ ∧ _))

def SameCells (s r : Record) : Prop := List.Forall₂ SameCell s.values r.values

instance : DecidableRel SameCells := fun s r =>
  inferInstanceAs (Decidable (List.Forall₂ SameCell s.values r.values))

def pieces (r : Record) : List (List Char) :=
  r.values.flatMap fun v => v.castToString.toList.splitOn '|'

/-- Where a row has the pieces of an earlier one, an earlier one has its cells, and the other way
    round. -/
structure ToldApart (earlier : List Record) (r : Record) : Prop where
  merged : ∀ s ∈ earlier, pieces s = pieces r → ∃ t ∈ earlier, SameCells t r
  split : ∀ s ∈ earlier, SameCells s r → ∃ t ∈ earlier, pieces t = pieces r

instance (earlier : List Record) (r : Record) : Decidable (ToldApart earlier r) :=
  decidable_of_iff ((∀ s ∈ earlier, pieces s = pieces r → ∃ t ∈ earlier, SameCells t r) ∧
      ∀ s ∈ earlier, SameCells s r → ∃ t ∈ earlier, pieces t = pieces r)
    ⟨fun h => ⟨h.1, h.2⟩, fun h => ⟨h.merged, h.split⟩⟩

section Texts

theorem opposite_type {v w : Value} (opposite : OppositeZeros v w) :
    v.dataTypeName = w.dataTypeName := by
  cases v <;> cases w <;> first | rfl | exact opposite.elim

theorem opposite_number {v w : Value} (opposite : OppositeZeros v w) : notANumber w = false := by
  have positive : (0 : Float).isNaN = false := by decide
  have negative : (-0 : Float).isNaN = false := by decide
  have positive' : (0 : Float32).isNaN = false := by decide
  have negative' : (-0 : Float32).isNaN = false := by decide
  cases v <;> cases w <;> first | exact opposite.elim | skip
  case float32 x y => rcases opposite with ⟨_, rfl⟩ | ⟨_, rfl⟩ <;> assumption
  case float64 x y => rcases opposite with ⟨_, rfl⟩ | ⟨_, rfl⟩ <;> assumption

theorem opposite_symm {v w : Value} (opposite : OppositeZeros v w) : OppositeZeros w v := by
  cases v <;> cases w <;> first | exact opposite.elim | exact opposite.symm.imp And.symm And.symm

theorem sameCell_iff {v w : Value} : SameCell v w ↔ v.partialEq w = true := by
  rw [partialEq_iff]
  constructor
  · rintro ⟨sameType, number, same | opposite⟩
    · obtain rfl := text_tells sameType same
      exact ⟨number, number, Or.inl rfl⟩
    · exact ⟨opposite_number (opposite_symm opposite), number, Or.inr opposite⟩
  · rintro ⟨_, number, rfl | opposite⟩
    · exact ⟨rfl, number, Or.inl rfl⟩
    · exact ⟨opposite_type opposite, number, Or.inr opposite⟩

theorem sameCells_iff {s r : Record} : SameCells s r ↔ EqualRows s r :=
  ⟨List.Forall₂.imp fun _ _ => sameCell_iff.mp, List.Forall₂.imp fun _ _ => sameCell_iff.mpr⟩

theorem splitOn_joined {texts : List (List Char)} (some' : texts ≠ []) :
    (['|'].intercalate texts).splitOn '|' = texts.flatMap (List.splitOn '|') := by
  induction texts with
  | nil => exact absurd rfl some'
  | cons text texts ih =>
    cases texts with
    | nil => simp
    | cons next rest =>
      rw [List.intercalate_cons_cons, List.append_assoc, List.singleton_append,
        List.splitOn_append_cons_self, ih (List.cons_ne_nil next rest)]
      exact List.flatMap_cons.symm

theorem splitOn_inj {s t : List Char} (same : s.splitOn '|' = t.splitOn '|') : s = t := by
  have joined : ['|'].intercalate (s.splitOn '|') = s := List.intercalate_splitOn '|'
  rw [← joined, same, List.intercalate_splitOn]

theorem distinctKey_eq_iff {s r : Record} (width : s.values.length = r.values.length) :
    distinctKey s = distinctKey r ↔ pieces s = pieces r := by
  have joined (q : Record) (some' : q.values ≠ []) :
      (distinctKey q).toList.splitOn '|' = pieces q := by
    rw [distinctKey, String.toList_intercalate, List.map_map]
    refine (splitOn_joined fun none => some' (List.map_eq_nil_iff.mp none)).trans ?_
    rw [List.flatMap_map]
    rfl
  by_cases none : r.values = []
  · have none' : s.values = [] := List.length_eq_zero_iff.mp (by rw [width, none]; rfl)
    simp only [distinctKey, pieces, none, none']
  · have some' : s.values ≠ [] := fun none' =>
      none (List.length_eq_zero_iff.mp (by rw [← width, none']; rfl))
    rw [← joined s some', ← joined r none]
    constructor
    · intro same
      rw [same]
    · intro same
      exact String.toList_inj.mp (splitOn_inj same)

theorem pieces_of_plain {r : Record} (plain : ∀ v ∈ r.values, '|' ∉ v.castToString.toList) :
    pieces r = r.values.map fun v => v.castToString.toList := by
  rw [pieces, List.map_eq_flatMap]
  exact List.flatMap_congr fun v mem => List.splitOn_eq_singleton (plain v mem)

end Texts

section Rows

theorem distinctRecords_eq {seen : List String} {earlier : List Record}
    (marked : ∀ key, key ∈ seen ↔ ∃ s ∈ earlier, distinctKey s = key) (records : List Record) :
    distinctRecords seen records =
      firstsAfter (fun s r => distinctKey s = distinctKey r) earlier records := by
  induction records generalizing seen earlier with
  | nil => rfl
  | cons r records ih =>
    have added (key : String) :
        (∃ s ∈ r :: earlier, distinctKey s = key) ↔ key = distinctKey r ∨ key ∈ seen := by
      rw [List.exists_mem_cons_iff, ← marked key]
      exact or_congr_left eq_comm
    rw [distinctRecords, firstsAfter]
    by_cases known : distinctKey r ∈ seen
    · rw [if_pos known, if_pos ((marked _).mp known)]
      refine ih fun key => ?_
      rw [added]
      refine ⟨Or.inr, fun either => ?_⟩
      rcases either with rfl | old
      · exact known
      · exact old
    · rw [if_neg known, if_neg fun related => known ((marked _).mpr related)]
      refine congrArg (r :: ·) (ih fun key => ?_)
      rw [added, List.mem_cons]

theorem found_alike_iff {earlier : List Record} {r : Record}
    (width : ∀ s ∈ earlier, s.values.length = r.values.length) :
    ((∃ s ∈ earlier, distinctKey s = distinctKey r) ↔ ∃ s ∈ earlier, EqualRows s r) ↔
      ToldApart earlier r := by
  have text : (∃ s ∈ earlier, distinctKey s = distinctKey r) ↔
      ∃ s ∈ earlier, pieces s = pieces r :=
    exists_congr fun s => and_congr_right fun mem => distinctKey_eq_iff (width s mem)
  have value : (∃ s ∈ earlier, EqualRows s r) ↔ ∃ s ∈ earlier, SameCells s r :=
    exists_congr fun s => and_congr_right fun _ => sameCells_iff.symm
  rw [text, value]
  constructor
  · intro law
    exact ⟨fun s mem same => law.mp ⟨s, mem, same⟩, fun s mem same => law.mpr ⟨s, mem, same⟩⟩
  · rintro ⟨merged, split⟩
    constructor
    · rintro ⟨s, mem, same⟩
      exact merged s mem same
    · rintro ⟨s, mem, same⟩
      exact split s mem same

/-- Rows are told apart where no cell has a bar and two cells of a column have one type, are no
    NaN and no zeros of opposite signs. -/
theorem toldApart_of_plain {earlier : List Record} {r : Record}
    (bars : ∀ s ∈ r :: earlier, ∀ v ∈ s.values, '|' ∉ v.castToString.toList)
    (cells : ∀ s ∈ earlier, List.Forall₂ (fun v w =>
      v.dataTypeName = w.dataTypeName ∧ notANumber w = false ∧ ¬ OppositeZeros v w)
      s.values r.values) : ToldApart earlier r := by
  obtain ⟨here, before⟩ := List.forall_mem_cons.mp bars
  have texts (s : Record) (mem : s ∈ earlier) : pieces s = pieces r ↔
      List.Forall₂ (fun v w : Value => v.castToString = w.castToString) s.values r.values := by
    rw [pieces_of_plain (before s mem), pieces_of_plain here, ← List.forall₂_eq_eq_eq,
      List.forall₂_map_left_iff, List.forall₂_map_right_iff]
    simp only [String.toList_inj]
  refine ⟨fun s mem same => ⟨s, mem, ?_⟩, fun s mem same => ⟨s, mem, ?_⟩⟩
  · exact List.Forall₂.mp (fun v w text cell => ⟨cell.1, cell.2.1, Or.inl text⟩)
      ((texts s mem).mp same) (cells s mem)
  · exact (texts s mem).mpr (List.Forall₂.mp
      (fun v w equal cell => equal.2.2.resolve_right cell.2.2) same (cells s mem))

/-- DISTINCT returns the first occurrences of the rows, by value and in their order, exactly where
    every row is told apart from those before it. -/
theorem distinct_first_iff [Regex] (exec : LogicalPlan → Result RecordBatch) (input : LogicalPlan)
    (schema : Schema) (b : RecordBatch) (valid : ∀ r ∈ b.records, r.Valid schema) :
    (firstsAfter EqualRows [] b.records).Sublist b.records ∧
    (firstsAfter EqualRows [] b.records).Pairwise (fun s r => ¬ EqualRows s r) ∧
    (∀ before r after, b.records = before ++ r :: after → (∀ s ∈ before, ¬ EqualRows s r) →
      r ∈ firstsAfter EqualRows [] b.records) ∧
    (applyTree exec (.distinct input schema) b =
        .ok ⟨schema, firstsAfter EqualRows [] b.records⟩ ↔
      AtEach ToldApart [] b.records) := by
  refine ⟨firstsAfter_sublist _ _ _, firstsAfter_apart _ _ _, ?_, ?_⟩
  · intro before r after parts new
    have fresh : ¬ ∃ s ∈ before.reverse ++ [], EqualRows s r := by
      rintro ⟨s, mem, equal⟩
      rw [List.append_nil, List.mem_reverse] at mem
      exact new s mem equal
    rw [parts, firstsAfter_append, if_neg fresh]
    exact List.mem_append_right _ List.mem_cons_self
  · have ran : applyTree exec (.distinct input schema) b =
        .ok ⟨schema, distinctRecords [] b.records⟩ :=
      fromRecords_of_valid fun r mem => valid r (RSparkStages.mem_distinctRecords r mem)
    have widths : AtEach (fun earlier r =>
        (∀ s ∈ earlier, s.values.length = schema.fieldCount) ∧
          r.values.length = schema.fieldCount) [] b.records :=
      atEach_of_forall (by simp) fun r mem => (valid r mem).1
    have nothing (key : String) :
        key ∈ ([] : List String) ↔ ∃ s ∈ ([] : List Record), distinctKey s = key := by simp
    rw [ran, Except.ok.injEq, RecordBatch.mk.injEq, and_iff_right rfl,
      distinctRecords_eq nothing, firstsAfter_eq_iff]
    refine atEach_congr (fun earlier r inside => ?_) widths
    exact found_alike_iff fun s mem => (inside.1 s mem).trans inside.2.symm

end Rows

section Witness

def pairSchema : Schema := ⟨[.new "left" .string, .new "right" .string]⟩

def pairs (rows : List (String × String)) : RecordBatch :=
  ⟨pairSchema, rows.map fun (l, r) => ⟨[.string l, .string r]⟩⟩

/-- A repeated row is returned once, at its first place. -/
theorem repeats_dropped :
    @applyTree noRegex (fun _ => .ok (pairs [])) (.distinct .empty pairSchema)
        (pairs [("a", "b"), ("b", "a"), ("a", "b")]) =
      .ok (pairs [("a", "b"), ("b", "a")]) :=
  (@distinct_first_iff noRegex (fun _ => .ok (pairs [])) .empty pairSchema
    (pairs [("a", "b"), ("b", "a"), ("a", "b")]) (by decide)).2.2.2.mpr (by decide)

/-- A bar moved from one cell to the next makes another row of the same text. -/
theorem moved_bar_dropped :
    ¬ ∀ (schema : Schema) (b : RecordBatch), (∀ r ∈ b.records, r.Valid schema) →
      @applyTree noRegex (fun _ => .ok b) (.distinct .empty schema) b =
        .ok ⟨schema, firstsAfter EqualRows [] b.records⟩ := by
  intro claim
  have returned := claim pairSchema (pairs [("a|b", "c"), ("a", "b|c")]) (by decide)
  exact absurd returned (by decide)

end Witness

end RSparkDistinctRows
