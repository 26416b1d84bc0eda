import RSpark.Ndjson
import Mathlib.Data.List.Forall2
import Mathlib.Data.List.Nodup

/- The batch of a list of JSON rows, each held in a hash map that is walked in an order of its
   own: its columns are the keys of all rows, and nothing moves between them. Their order is the
   order of the walks, which is that of the objects only where no walk matters. -/
namespace RSparkUnionSchema
open RSparkValue RSparkBatch RSparkNdjson

def keysOf (row : Row) : List String := row.map Prod.fst

def Distinct (rows : List Row) : Prop := ∀ row ∈ rows, (keysOf row).Nodup

def Walks (walked listed : List Row) : Prop := List.Forall₂ List.Perm walked listed

/-- The keys in the order in which the rows have them, each where it is met first. -/
def firstAppearance (listed : List Row) : List String := (listed.flatMap keysOf).eraseDups

section Keys

theorem noteKey_eraseDups (keys : List String) (member : String × JsonValue) :
    noteKey keys.eraseDups member = (keys ++ [member.1]).eraseDups := by
  rw [noteKey, List.eraseDups_append, List.removeAll]
  by_cases known : member.1 ∈ keys
  · rw [if_pos (List.mem_eraseDups.mpr known), List.filter_cons_of_neg (by simpa using known),
      List.filter_nil, List.eraseDups_nil, List.append_nil]
  · rw [if_neg (mt List.mem_eraseDups.mp known), List.filter_cons_of_pos (by simpa using known)]
    rfl

theorem noteKeys_eraseDups (keys : List String) (row : Row) :
    row.foldl noteKey keys.eraseDups = (keys ++ keysOf row).eraseDups := by
  induction row generalizing keys with
  | nil => rw [List.foldl_nil, keysOf, List.map_nil, List.append_nil]
  | cons member row ih =>
    rw [List.foldl_cons, noteKey_eraseDups, ih, List.append_assoc]
    rfl

theorem noteRows_eraseDups (keys : List String) (rows : List Row) :
    rows.foldl (fun keys row => row.foldl noteKey keys) keys.eraseDups =
      (keys ++ rows.flatMap keysOf).eraseDups := by
  induction rows generalizing keys with
  | nil => rw [List.foldl_nil, List.flatMap_nil, List.append_nil]
  | cons row rows ih =>
    rw [List.foldl_cons, noteKeys_eraseDups, ih, List.flatMap_cons, List.append_assoc]

theorem keyOrder_eq (walked : List Row) : keyOrder walked = firstAppearance walked :=
  noteRows_eraseDups [] walked

theorem noteKey_nodup {keys : List String} (once : keys.Nodup) (member : String × JsonValue) :
    (noteKey keys member).Nodup := by
  unfold noteKey
  split
  · exact once
  · rename_i fresh
    exact List.nodup_append.mpr ⟨once, List.nodup_singleton _, fun a known b single same =>
      fresh (List.mem_singleton.mp single ▸ same ▸ known)⟩

theorem noteKeys_nodup {keys : List String} (once : keys.Nodup) (row : Row) :
    (row.foldl noteKey keys).Nodup := by
  induction row generalizing keys with
  | nil => exact once
  | cons member row ih => exact ih (noteKey_nodup once member)

theorem noteRows_nodup {keys : List String} (once : keys.Nodup) (rows : List Row) :
    (rows.foldl (fun keys row => row.foldl noteKey keys) keys).Nodup := by
  induction rows generalizing keys with
  | nil => exact once
  | cons row rows ih => exact ih (noteKeys_nodup once row)

theorem keyOrder_nodup (rows : List Row) : (keyOrder rows).Nodup :=
  noteRows_nodup List.nodup_nil rows

theorem mem_keyOrder {rows : List Row} {k : String} :
    k ∈ keyOrder rows ↔ ∃ row ∈ rows, ∃ j, (k, j) ∈ row := by
  rw [keyOrder_eq, firstAppearance, List.mem_eraseDups, List.mem_flatMap]
  apply exists_congr
  intro row
  rw [keysOf, List.mem_map]
  constructor
  · intro found
    obtain ⟨listed, ⟨_, j⟩, inside, rfl⟩ := found
    exact ⟨listed, j, inside⟩
  · intro found
    obtain ⟨listed, j, inside⟩ := found
    exact ⟨listed, ⟨k, j⟩, inside, rfl⟩

theorem fieldNames_rowsSchema (rows : List Row) :
    (rowsSchema rows).fieldNames = keyOrder rows := by
  rw [Schema.fieldNames, rowsSchema, List.map_map]
  exact List.map_id _

end Keys

theorem walks_have {walked listed : List Row} (order : Walks walked listed) (k : String) :
    (∃ row ∈ walked, ∃ j, (k, j) ∈ row) ↔ ∃ row ∈ listed, ∃ j, (k, j) ∈ row := by
  induction order with
  | nil => rfl
  | cons walk _ ih =>
    simp only [List.mem_cons, exists_eq_or_imp, ih]
    exact or_congr_left (exists_congr fun j => walk.mem_iff)

section Cells
variable [SerdeJson]

structure Shows (map : Row) (k : String) (v : Value) : Prop where
  present : ∀ j, (k, j) ∈ map → v = jsonValueToRspark j
  absent : (∀ j, (k, j) ∉ map) → v = .null

/-- The batch that holds these rows and nothing else. -/
structure UnionOf (maps : List Row) (b : RecordBatch) : Prop where
  once : b.schema.fieldNames.Nodup
  keys : ∀ k, k ∈ b.schema.fieldNames ↔ ∃ map ∈ maps, ∃ j, (k, j) ∈ map
  rows : List.Forall₂ (fun record map =>
    List.Forall₂ (Shows map) b.schema.fieldNames record.values) b.records maps

omit [SerdeJson] in
theorem get_of_mem {row : Row} (once : (keysOf row).Nodup) {k : String} {j : JsonValue}
    (inside : (k, j) ∈ row) : Row.get row k = some j := by
  induction row with
  | nil => cases inside
  | cons member row ih =>
    obtain ⟨fresh, rest⟩ := List.nodup_cons.mp once
    unfold Row.get
    rcases List.mem_cons.mp inside with rfl | later
    · rw [List.find?_cons_of_pos (by simp)]
      rfl
    · have other : member.1 ≠ k := by
        rintro rfl
        exact fresh (List.mem_map.mpr ⟨_, later, rfl⟩)
      rw [List.find?_cons_of_neg (by simpa using other)]
      exact ih rest later

omit [SerdeJson] in
theorem get_of_absent {row : Row} {k : String} (absent : ∀ j, (k, j) ∉ row) :
    Row.get row k = none := by
  have missed : row.find? (fun member => member.1 = k) = none := by
    apply List.find?_eq_none.mpr
    rintro ⟨_, j⟩ inside same
    obtain rfl := of_decide_eq_true same
    exact absent j inside
  rw [Row.get, missed]
  rfl

theorem cellOf_shows {map row : Row} (walked : row.Perm map) (once : (keysOf map).Nodup)
    (k : String) : Shows map k (cellOf row k) := by
  have onceWalked : (keysOf row).Nodup := (walked.map Prod.fst).nodup_iff.mpr once
  constructor
  · intro j inside
    rw [cellOf, get_of_mem onceWalked (walked.mem_iff.mpr inside)]
  · intro absent
    rw [cellOf, get_of_absent fun j inside => absent j (walked.mem_iff.mp inside)]

theorem shown_cells {map row : Row} (walked : row.Perm map) (once : (keysOf map).Nodup)
    (keys : List String) : List.Forall₂ (Shows map) keys (keys.map (cellOf row)) := by
  rw [List.forall₂_map_right_iff]
  exact List.forall₂_same.mpr fun k _ => cellOf_shows walked once k

theorem shown_rows {maps walked : List Row} (distinct : Distinct maps)
    (order : Walks walked maps) (keys : List String) :
    List.Forall₂ (fun (record : Record) map => List.Forall₂ (Shows map) keys record.values)
      (walked.map fun row => ⟨keys.map (cellOf row)⟩) maps := by
  induction order with
  | nil => exact .nil
  | cons walk _ ih =>
    obtain ⟨once, rest⟩ := List.forall_mem_cons.mp distinct
    exact .cons (shown_cells walk once keys) (ih rest)

/-- Whatever the walks, no key, row or value is lost, repeated or moved. -/
theorem ndjson_union (maps walked : List Row) (distinct : Distinct maps)
    (order : Walks walked maps) : ∃ b, ndjsonRowsToBatch walked = .ok b ∧ UnionOf maps b := by
  refine ⟨_, ndjsonRowsToBatch_eq walked, ?_⟩
  constructor
  · rw [fieldNames_rowsSchema]
    exact keyOrder_nodup walked
  · intro k
    rw [fieldNames_rowsSchema, mem_keyOrder]
    exact walks_have order k
  · show List.Forall₂ _ (rowsRecords walked) maps
    rw [fieldNames_rowsSchema]
    exact shown_rows distinct order _

end Cells

def ann : Row := [("id", .number (.posInt 1)), ("name", .string "ann")]
def tagged : Row := [("name", .null), ("tag", .bool true)]

theorem ann_tagged_distinct : Distinct [ann, tagged] := by
  unfold Distinct
  decide +revert

theorem ann_tagged_union : ∃ b, @ndjsonRowsToBatch noPrinter [ann.reverse, tagged] = .ok b ∧
    @UnionOf noPrinter [ann, tagged] b :=
  @ndjson_union noPrinter [ann, tagged] [ann.reverse, tagged] ann_tagged_distinct
    (.cons (List.reverse_perm ann) (.cons (List.Perm.refl tagged) .nil))

section Order

/-- The keys of a row that are not among those met before. -/
def fresh (earlier : List String) (row : Row) : List String :=
  (keysOf row).filter (· ∉ earlier)

/-- The new keys of each row are walked in the order in which the object lists them. -/
def NewInOrder : List String → List Row → List Row → Prop
  | earlier, walk :: walked, row :: listed =>
      fresh earlier walk = fresh earlier row ∧
        NewInOrder (earlier ++ fresh earlier row) walked listed
  | _, _, _ => True

def OneNewKey : List String → List Row → Prop
  | _, [] => True
  | earlier, row :: listed =>
      (fresh earlier row).length ≤ 1 ∧ OneNewKey (earlier ++ fresh earlier row) listed

def additions : List String → List Row → List String
  | _, [] => []
  | earlier, row :: rows => fresh earlier row ++ additions (earlier ++ fresh earlier row) rows

theorem noteKeys_fresh {keys : List String} {row : Row} (once : (keysOf row).Nodup) :
    row.foldl noteKey keys = keys ++ fresh keys row := by
  induction row generalizing keys with
  | nil => exact (List.append_nil keys).symm
  | cons member row ih =>
    obtain ⟨apart, rest⟩ := List.nodup_cons.mp once
    rw [List.foldl_cons, ih rest, noteKey, fresh, fresh, keysOf, keysOf, List.map_cons]
    by_cases known : member.1 ∈ keys
    · rw [if_pos known, List.filter_cons_of_neg (by simpa using known)]
    · have later : (row.map Prod.fst).filter (· ∉ keys ++ [member.1]) =
          (row.map Prod.fst).filter (· ∉ keys) := by
        apply List.filter_congr
        intro k inside
        have other : k ≠ member.1 := by
          rintro rfl
          exact apart inside
        simp [other]
      rw [if_neg known, List.filter_cons_of_pos (by simpa using known), later, List.append_assoc]
      rfl

theorem noteRows_additions {keys : List String} {rows : List Row} (distinct : Distinct rows) :
    rows.foldl (fun keys row => row.foldl noteKey keys) keys = keys ++ additions keys rows := by
  induction rows generalizing keys with
  | nil => exact (List.append_nil keys).symm
  | cons row rows ih =>
    obtain ⟨once, rest⟩ := List.forall_mem_cons.mp distinct
    rw [List.foldl_cons, noteKeys_fresh once, ih rest, additions, List.append_assoc]

theorem keyOrder_additions {rows : List Row} (distinct : Distinct rows) :
    keyOrder rows = additions [] rows := noteRows_additions distinct

theorem walks_distinct {walked listed : List Row} (order : Walks walked listed)
    (distinct : Distinct listed) : Distinct walked := by
  induction order with
  | nil => exact distinct
  | cons walk _ ih =>
    obtain ⟨once, rest⟩ := List.forall_mem_cons.mp distinct
    exact List.forall_mem_cons.mpr ⟨(walk.map Prod.fst).nodup_iff.mpr once, ih rest⟩

theorem fresh_perm {walk row : Row} (order : walk.Perm row) (earlier : List String) :
    (fresh earlier walk).Perm (fresh earlier row) :=
  (order.map Prod.fst).filter _

theorem additions_eq_iff {walked listed : List Row} (order : Walks walked listed)
    (earlier : List String) :
    additions earlier walked = additions earlier listed ↔ NewInOrder earlier walked listed := by
  induction order generalizing earlier with
  | nil => exact iff_of_true rfl trivial
  | @cons walk row walked listed walks _ ih =>
    have same : (fresh earlier walk).length = (fresh earlier row).length :=
      (fresh_perm walks earlier).length_eq
    rw [additions, additions, NewInOrder]
    constructor
    · intro equal
      obtain ⟨here, later⟩ := List.append_inj equal same
      rw [here] at later
      exact ⟨here, (ih _).mp later⟩
    · intro ordered
      rw [ordered.1, (ih _).mpr ordered.2]

theorem eq_of_perm_short {a b : List String} (same : a.Perm b) (short : b.length ≤ 1) :
    a = b := by
  match b, short with
  | [], _ => exact same.eq_nil
  | [k], _ => exact same.eq_singleton

theorem short_of_reverse {keys : List String} (once : keys.Nodup)
    (palindrome : keys.reverse = keys) : keys.length ≤ 1 := by
  match keys, once, palindrome with
  | [], _, _ => exact Nat.zero_le 1
  | [_], _, _ => exact Nat.le_refl 1
  | k :: l :: rest, once, palindrome =>
    have last : (k :: l :: rest).reverse.head? = (l :: rest).getLast? := by
      rw [List.head?_reverse, List.getLast?_cons_cons]
    rw [palindrome, List.head?_cons] at last
    exact absurd (List.mem_of_getLast? last.symm) (List.nodup_cons.mp once).1

theorem newInOrder_of_oneNewKey {walked listed : List Row} (order : Walks walked listed)
    {earlier : List String} (single : OneNewKey earlier listed) :
    NewInOrder earlier walked listed := by
  induction order generalizing earlier with
  | nil => trivial
  | cons walk _ ih => exact ⟨eq_of_perm_short (fresh_perm walk earlier) single.1, ih single.2⟩

theorem reversed_walks (listed : List Row) : Walks (listed.map List.reverse) listed := by
  induction listed with
  | nil => exact .nil
  | cons row listed ih => exact .cons (List.reverse_perm row) ih

theorem fresh_reverse (earlier : List String) (row : Row) :
    fresh earlier row.reverse = (fresh earlier row).reverse := by
  rw [fresh, keysOf, List.map_reverse, List.filter_reverse]
  rfl

theorem oneNewKey_of_reversed {listed : List Row} (distinct : Distinct listed)
    {earlier : List String} (ordered : NewInOrder earlier (listed.map List.reverse) listed) :
    OneNewKey earlier listed := by
  induction listed generalizing earlier with
  | nil => trivial
  | cons row listed ih =>
    obtain ⟨once, rest⟩ := List.forall_mem_cons.mp distinct
    obtain ⟨here, later⟩ := ordered
    rw [fresh_reverse] at here
    exact ⟨short_of_reverse (once.filter _) here, ih rest later⟩

variable [SerdeJson]

def Ordered (walked : List Row) (names : List String) : Prop :=
  ∃ b, ndjsonRowsToBatch walked = .ok b ∧ b.schema.fieldNames = names

def SameSchema (walked walked' : List Row) : Prop :=
  ∃ b b', ndjsonRowsToBatch walked = .ok b ∧ ndjsonRowsToBatch walked' = .ok b' ∧
    b.schema = b'.schema

theorem ordered_iff {walked : List Row} {names : List String} :
    Ordered walked names ↔ keyOrder walked = names := by
  rw [Ordered, ndjsonRowsToBatch_eq]
  constructor
  · intro ordered
    obtain ⟨b, built, named⟩ := ordered
    rw [← named, ← Except.ok.inj built, fieldNames_rowsSchema]
  · intro same
    exact ⟨_, rfl, (fieldNames_rowsSchema walked).trans same⟩

theorem sameSchema_iff {walked walked' : List Row} :
    SameSchema walked walked' ↔ keyOrder walked = keyOrder walked' := by
  rw [SameSchema, ndjsonRowsToBatch_eq, ndjsonRowsToBatch_eq]
  constructor
  · intro same
    obtain ⟨b, b', built, built', equal⟩ := same
    rw [← Except.ok.inj built, ← Except.ok.inj built'] at equal
    rw [← fieldNames_rowsSchema, ← fieldNames_rowsSchema]
    exact congrArg Schema.fieldNames equal
  · intro same
    refine ⟨_, _, rfl, rfl, ?_⟩
    show rowsSchema walked = rowsSchema walked'
    rw [rowsSchema, rowsSchema, same]

theorem ordered_walk_iff {walked listed : List Row} (distinct : Distinct listed)
    (order : Walks walked listed) :
    Ordered walked (firstAppearance listed) ↔ NewInOrder [] walked listed := by
  rw [ordered_iff, ← keyOrder_eq, keyOrder_additions distinct,
    keyOrder_additions (walks_distinct order distinct)]
  exact additions_eq_iff order []

/-- The columns come in the order of first appearance exactly if the new keys of each row are
    walked as the object lists them. All walks have that order, and any two agree, exactly if no
    row has two keys that the rows before it lack. -/
theorem first_appearance_iff (listed : List Row) (distinct : Distinct listed) :
    (∀ walked, Walks walked listed →
      (Ordered walked (firstAppearance listed) ↔ NewInOrder [] walked listed)) ∧
    ((∀ walked, Walks walked listed → Ordered walked (firstAppearance listed)) ↔
      OneNewKey [] listed) ∧
    ((∀ walked walked', Walks walked listed → Walks walked' listed →
      SameSchema walked walked') ↔ OneNewKey [] listed) := by
  have each (walked : List Row) (order : Walks walked listed) :
      Ordered walked (firstAppearance listed) ↔ NewInOrder [] walked listed :=
    ordered_walk_iff distinct order
  refine ⟨each, ?_, ?_⟩
  · constructor
    · intro all
      apply oneNewKey_of_reversed distinct
      exact (each _ (reversed_walks listed)).mp (all _ (reversed_walks listed))
    · intro single walked order
      exact (each walked order).mpr (newInOrder_of_oneNewKey order single)
  · constructor
    · intro agree
      apply oneNewKey_of_reversed distinct
      apply (each _ (reversed_walks listed)).mp
      rw [ordered_iff, ← keyOrder_eq, ← sameSchema_iff]
      apply agree _ _ (reversed_walks listed)
      exact List.forall₂_same.mpr fun row _ => List.Perm.refl row
    · intro single walked walked' order order'
      have first := ordered_iff.mp
        ((each walked order).mpr (newInOrder_of_oneNewKey order single))
      have second := ordered_iff.mp
        ((each walked' order').mpr (newInOrder_of_oneNewKey order' single))
      exact sameSchema_iff.mpr (first.trans second.symm)

end Order

/-- A row with two new keys is walked either way. -/
theorem ann_tagged_walks :
    (∀ walked, Walks walked [ann, tagged] →
      (@Ordered noPrinter walked (firstAppearance [ann, tagged]) ↔
        NewInOrder [] walked [ann, tagged])) ∧
    ((∀ walked, Walks walked [ann, tagged] →
      @Ordered noPrinter walked (firstAppearance [ann, tagged])) ↔ OneNewKey [] [ann, tagged]) ∧
    ((∀ walked walked', Walks walked [ann, tagged] → Walks walked' [ann, tagged] →
      @SameSchema noPrinter walked walked') ↔ OneNewKey [] [ann, tagged]) :=
  @first_appearance_iff noPrinter [ann, tagged] ann_tagged_distinct

/-- `{"id":1,"name":"ann"}` has the columns `name`, `id` when its map is walked that way. -/
theorem ann_turned_round :
    ¬ ∀ listed walked, Distinct listed → Walks walked listed →
      @Ordered noPrinter walked (firstAppearance listed) ∧
        @SameSchema noPrinter walked listed := by
  intro claim
  have turned := claim [ann] [ann.reverse] (fun row mem => ann_tagged_distinct row
    (List.mem_cons.mpr (Or.inl (List.mem_singleton.mp mem))))
    (.cons (List.reverse_perm ann) .nil)
  rw [@ordered_iff noPrinter] at turned
  exact absurd turned.1 (by decide)

end RSparkUnionSchema
