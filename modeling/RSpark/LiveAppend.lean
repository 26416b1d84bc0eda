import RSpark.JsonWriter
import RSpark.Listing

/- The destination of a live flow: each batch polled is appended to a file as JSON lines, and the
   file is scanned under the schema that the first batch had. Every column of that schema is one
   of strings, whatever its values are. -/
namespace RSparkLiveAppend
open RSparkValue RSparkBatch RSparkNdjson RSparkJsonSource RSparkUnionSchema RSparkJsonWriter
open FloatText

section Append
variable [SerdeJson]

def appendFile (file : Option (List UInt8)) (batch : RecordBatch) : Option (List UInt8) :=
  if batch.isEmpty then file else some (file.getD [] ++ renderJson batch)

def appendAll (batches : List RecordBatch) : Option (List UInt8) := batches.foldl appendFile none

variable [JsonStream]

def scanFile (file : Option (List UInt8)) (schema : Schema) : Result RecordBatch := do
  let bytes ← orError file (.io "No such file or directory (os error 2)")
  scanReader bytes (some schema)

end Append

section Lossless

def cellNamed (schema : Schema) (record : Record) (name : String) : Option Value :=
  (schema.indexOf name).bind record.get

def sources (batches : List RecordBatch) : List (Schema × Record) :=
  batches.flatMap fun b => b.records.map fun record => (b.schema, record)

/-- The records of the batches one after the other, each with its values under their names. -/
def Concatenated (batches : List RecordBatch) (b : RecordBatch) : Prop :=
  List.Forall₂ (fun source record => ∀ name ∈ source.1.fieldNames,
    cellNamed b.schema record name = cellNamed source.1 source.2 name) (sources batches) b.records

theorem cellNamed_map (names : List String) (g : String → Value) {name : String}
    (known : name ∈ names) :
    cellNamed ⟨names.map fun k => Field.new k .string⟩ ⟨names.map g⟩ name = some (g name) := by
  have listed : name ∈ (⟨names.map fun k => Field.new k .string⟩ : Schema).fieldNames := by
    rw [Schema.fieldNames, List.map_map]
    exact List.mem_map.mpr ⟨name, known, rfl⟩
  obtain ⟨i, found⟩ := indexOf_of_mem listed
  obtain ⟨f, field, same, _⟩ := indexOf_field found
  rw [List.getElem?_map, Option.map_eq_some_iff] at field
  obtain ⟨k, here, rfl⟩ := field
  obtain rfl : k = name := same
  rw [cellNamed, found, Option.bind_some, Record.get, List.getElem?_map, here]
  rfl

theorem cellNamed_absent {schema : Schema} {record : Record} {name : String}
    (absent : name ∉ schema.fieldNames) : cellNamed schema record name = none := by
  have missed : schema.indexOf name = none := by
    cases found : schema.indexOf name with
    | none => rfl
    | some i => exact absurd (mem_of_indexOf found) absent
  rw [cellNamed, missed]
  rfl

variable [SerdeJson] [JsonStream]

def ReadBack (batches : List RecordBatch) (schema : Schema) : Prop :=
  ∃ b, scanFile (appendAll batches) schema = .ok b ∧ Concatenated batches b

def Polled (polls : List (List Row)) (batches : List RecordBatch) : Prop :=
  List.Forall₂ (fun rows b => ndjsonRowsToBatch rows = .ok b) polls batches

def KeySet (keys : List String) (polls : List (List Row)) : Prop :=
  ∀ rows ∈ polls, ∀ row ∈ rows, (keysOf row).Nodup ∧ ∀ k, k ∈ keysOf row ↔ k ∈ keys

def IsNumber : JsonValue → Prop
  | .number _ => True
  | _ => False

end Lossless

section File
variable [SerdeJson]

theorem renderJson_empty {b : RecordBatch} (empty : b.isEmpty = true) : renderJson b = [] := by
  rw [renderJson, List.isEmpty_iff.mp empty, List.flatMap_nil]

theorem foldl_appendFile (batches : List RecordBatch) (file : List UInt8) :
    batches.foldl appendFile (some file) = some (file ++ batches.flatMap renderJson) := by
  induction batches generalizing file with
  | nil => rw [List.foldl_nil, List.flatMap_nil, List.append_nil]
  | cons b batches ih =>
    rw [List.foldl_cons, List.flatMap_cons, ← List.append_assoc, ← ih, appendFile]
    split
    · rename_i empty
      rw [renderJson_empty empty, List.append_nil]
    · rfl

theorem appendAll_eq (batches : List RecordBatch) :
    appendAll batches = if ∃ b ∈ batches, b.records ≠ [] then
      some (batches.flatMap renderJson) else none := by
  unfold appendAll
  induction batches with
  | nil => rw [if_neg (by simp), List.foldl_nil]
  | cons b batches ih =>
    rw [List.foldl_cons, appendFile, List.flatMap_cons]
    by_cases empty : b.isEmpty = true
    · have none : b.records = [] := List.isEmpty_iff.mp empty
      rw [if_pos empty, ih, renderJson_empty empty, List.nil_append]
      simp only [List.mem_cons, exists_eq_or_imp, none, ne_eq, not_true_eq_false, false_or]
    · have some' : b.records ≠ [] := fun none => empty (List.isEmpty_iff.mpr none)
      rw [if_neg empty, foldl_appendFile, if_pos ⟨b, List.mem_cons_self, some'⟩]
      rfl

theorem flatMap_renderJson (batches : List RecordBatch) :
    batches.flatMap renderJson = (batches.flatMap writtenObjects).flatMap objectLine := by
  rw [List.flatMap_assoc]
  exact List.flatMap_congr fun b _ => renderJson_lines b

end File

section Cells
variable [SerdeJson]

theorem polled_comes_back_iff (v : JsonValue) :
    jsonToValue (valueToJson (jsonValueToRspark v)) .string = jsonValueToRspark v ↔
      ¬ IsNumber v := by
  cases v with
  | null => exact iff_of_true rfl id
  | bool b => exact iff_of_true rfl id
  | string s => exact iff_of_true rfl id
  | array items => exact iff_of_true rfl id
  | object members => exact iff_of_true rfl id
  | number n =>
    refine iff_of_false ?_ (fun other => other trivial)
    rw [jsonValueToRspark]
    cases n.asI64 with
    | some i =>
      dsimp only
      rw [valueToJson, jsonToValue, asI64_numberFromI64]
      intro same
      cases same
    | none =>
      dsimp only
      rw [valueToJson, jsonFromF64]
      split
      · intro same
        cases same
      · intro same
        cases same

theorem cellOf_member {row : Row} (once : (keysOf row).Nodup) {k : String} {v : JsonValue}
    (inside : (k, v) ∈ row) : cellOf row k = jsonValueToRspark v := by
  rw [cellOf, get_of_mem once inside]

end Cells

section Result
variable [SerdeJson] {keys : List String} {polls : List (List Row)}

def batchOf (rows : List Row) : RecordBatch := ⟨rowsSchema rows, rowsRecords rows⟩

theorem polled_eq {batches : List RecordBatch} (polled : Polled polls batches) :
    batches = polls.map batchOf := by
  unfold Polled at polled
  induction polled with
  | nil => rfl
  | cons first _ ih =>
    rw [ndjsonRowsToBatch_eq] at first
    rw [List.map_cons, ih, ← Except.ok.inj first]
    rfl

omit [SerdeJson] in
theorem mem_columns (fixed : KeySet keys polls) {rows : List Row} (listed : rows ∈ polls)
    (some' : rows ≠ []) (k : String) : k ∈ keyOrder rows ↔ k ∈ keys := by
  rw [mem_keyOrder]
  constructor
  · intro found
    obtain ⟨row, inside, v, member⟩ := found
    exact ((fixed rows listed row inside).2 k).mp (List.mem_map.mpr ⟨_, member, rfl⟩)
  · intro known
    obtain ⟨row, inside⟩ := List.exists_mem_of_ne_nil rows some'
    obtain ⟨⟨_, v⟩, member, rfl⟩ :=
      List.mem_map.mp (((fixed rows listed row inside).2 k).mpr known)
    exact ⟨row, inside, v, member⟩

omit [SerdeJson] in
theorem columns_distinct (rows : List Row) : (rowsSchema rows).fieldNames.Nodup := by
  rw [fieldNames_rowsSchema]
  exact keyOrder_nodup rows

def polledRecord (rows : List Row) (row : Row) : Record := ⟨(keyOrder rows).map (cellOf row)⟩

theorem polledRecord_valid {rows : List Row} {row : Row} (inside : row ∈ rows) :
    (polledRecord rows row).Valid (rowsSchema rows) :=
  (fromRecords_eq_ok.mp (ndjsonRowsToBatch_eq rows)).2 _ (List.mem_map_of_mem inside)

theorem column_read {rows : List Row} {row map : Row} (inside : row ∈ rows)
    (read : map.Perm (recordObject (rowsSchema rows) (polledRecord rows row)).entries)
    {k : String} (known : k ∈ keyOrder rows) :
    Row.get map k = some (valueToJson (cellOf row k)) := by
  apply get_written (columns_distinct rows) (polledRecord_valid inside) read
    (p := (Field.new k .string, cellOf row k))
  rw [rowsSchema, polledRecord, List.zip_map']
  exact List.mem_map.mpr ⟨k, known, rfl⟩

theorem objectRow_columns (first : List Row) (map : Row) :
    objectRow (rowsSchema first) map =
      ⟨(keyOrder first).map fun k => jsonToValue ((Row.get map k).getD .null) .string⟩ := by
  rw [objectRow, rowsSchema, List.map_map]
  rfl

/-- A record polled comes back under the schema of the first poll exactly if that has columns for
    its members and none of them is a number. -/
theorem row_comes_back_iff (fixed : KeySet keys polls) {first rows : List Row}
    (leads : first ∈ polls) (listed : rows ∈ polls) {row map : Row} (inside : row ∈ rows)
    (read : map.Perm (recordObject (rowsSchema rows) (polledRecord rows row)).entries) :
    (∀ name ∈ (rowsSchema rows).fieldNames,
      cellNamed (rowsSchema first) (objectRow (rowsSchema first) map) name =
        cellNamed (rowsSchema rows) (polledRecord rows row) name) ↔
      ∀ member ∈ row, first ≠ [] ∧ ¬ IsNumber member.2 := by
  obtain ⟨once, has⟩ := fixed rows listed row inside
  have columns := mem_columns fixed listed (List.ne_nil_of_mem inside)
  have each (k : String) (v : JsonValue) (member : (k, v) ∈ row) :
      cellNamed (rowsSchema first) (objectRow (rowsSchema first) map) k =
        cellNamed (rowsSchema rows) (polledRecord rows row) k ↔ first ≠ [] ∧ ¬ IsNumber v := by
    have known : k ∈ keys := (has k).mp (List.mem_map.mpr ⟨_, member, rfl⟩)
    have polled : cellNamed (rowsSchema rows) (polledRecord rows row) k =
        some (jsonValueToRspark v) := by
      rw [← cellOf_member once member]
      exact cellNamed_map _ _ ((columns k).mpr known)
    rw [polled]
    by_cases none : first = []
    · rw [cellNamed_absent (by rw [none]; exact List.not_mem_nil)]
      exact iff_of_false (fun same => nomatch same) (fun some' => some'.1 none)
    · have column : k ∈ keyOrder first := (mem_columns fixed leads none k).mpr known
      rw [objectRow_columns, rowsSchema, cellNamed_map _ _ column, Option.some.injEq,
        column_read inside read ((columns k).mpr known), Option.getD_some,
        cellOf_member once member, polled_comes_back_iff]
      exact (and_iff_right none).symm
  rw [fieldNames_rowsSchema]
  constructor
  · intro back member listed'
    obtain ⟨k, v⟩ := member
    have known : k ∈ keys := (has k).mp (List.mem_map.mpr ⟨_, listed', rfl⟩)
    exact (each k v listed').mp (back k ((columns k).mpr known))
  · intro good k known
    obtain ⟨⟨k, v⟩, member, rfl⟩ := List.mem_map.mp ((has k).mpr ((columns k).mp known))
    exact (each k v member).mpr (good _ member)

def polledRows (polls : List (List Row)) : List (List Row × Row) :=
  polls.flatMap fun rows => rows.map fun row => (rows, row)

omit [SerdeJson] in
theorem mem_polledRows {p : List Row × Row} :
    p ∈ polledRows polls ↔ p.1 ∈ polls ∧ p.2 ∈ p.1 := by
  rw [polledRows, List.mem_flatMap]
  constructor
  · intro found
    obtain ⟨rows, listed, inside⟩ := found
    obtain ⟨row, member, rfl⟩ := List.mem_map.mp inside
    exact ⟨listed, member⟩
  · intro found
    exact ⟨p.1, found.1, List.mem_map.mpr ⟨p.2, found.2, rfl⟩⟩

theorem sources_polled (polls : List (List Row)) : sources (polls.map batchOf) =
    (polledRows polls).map fun p => (rowsSchema p.1, polledRecord p.1 p.2) := by
  rw [sources, polledRows, List.flatMap_map, List.map_flatMap]
  apply List.flatMap_congr
  intro rows _
  rw [List.map_map, batchOf, rowsRecords, List.map_map]
  rfl

theorem written_polled (polls : List (List Row)) :
    (polls.map batchOf).flatMap writtenObjects = (polledRows polls).map fun p =>
      (recordObject (rowsSchema p.1) (polledRecord p.1 p.2)).entries := by
  rw [polledRows, List.flatMap_map, List.map_flatMap]
  apply List.flatMap_congr
  intro rows _
  rw [List.map_map, batchOf, writtenObjects, rowsRecords, List.map_map]
  rfl

theorem objectRow_valid (rows : List Row) (map : Row) :
    (objectRow (rowsSchema rows) map).Valid (rowsSchema rows) := by
  constructor
  · rw [objectRow, List.length_map]
    rfl
  · intro p inside _
    obtain ⟨k, _, same⟩ := List.mem_map.mp (List.of_mem_zip inside).2
    rw [← same]
    rfl

variable [JsonStream]

theorem scan_polled {first : List Row} {batches : List RecordBatch} {read : List Row}
    (some' : ∃ b ∈ batches, b.records ≠ [])
    (streamed : JsonStream.values ((batches.flatMap writtenObjects).flatMap objectLine) =
      read.map fun map => .ok (.object map)) :
    scanFile (appendAll batches) (rowsSchema first) =
      .ok ⟨rowsSchema first, read.map (objectRow (rowsSchema first))⟩ := by
  rw [appendAll_eq, if_pos some', scanFile, flatMap_renderJson]
  show scanWith _ _ = _
  rw [scanWith, streamed, readRecords_objects, ok_bind]
  apply fromRecords_of_valid
  intro record inside
  obtain ⟨map, _, same⟩ := List.mem_map.mp inside
  rw [← same]
  exact objectRow_valid first map

omit [JsonStream] in
theorem concatenated_iff (fixed : KeySet keys polls) {first : List Row} (leads : first ∈ polls)
    {read : List Row}
    (members : List.Forall₂ List.Perm read ((polls.map batchOf).flatMap writtenObjects)) :
    Concatenated (polls.map batchOf)
        ⟨rowsSchema first, read.map (objectRow (rowsSchema first))⟩ ↔
      ∀ p ∈ polledRows polls, ∀ member ∈ p.2, first ≠ [] ∧ ¬ IsNumber member.2 := by
  rw [written_polled, List.forall₂_map_right_iff] at members
  rw [Concatenated, sources_polled, List.forall₂_map_left_iff, List.forall₂_map_right_iff]
  apply Listing.forall₂_iff_forall (Listing.forall₂_inside members.flip)
  intro p map related
  obtain ⟨listed, _, perm⟩ := related
  obtain ⟨rows, inside⟩ := mem_polledRows.mp listed
  exact row_comes_back_iff fixed leads rows inside perm

omit [SerdeJson] [JsonStream] in
theorem no_number_iff (fixed : KeySet keys polls) {first : List Row}
    (some' : ∃ rows ∈ polls, rows ≠ []) :
    (∀ p ∈ polledRows polls, ∀ member ∈ p.2, first ≠ [] ∧ ¬ IsNumber member.2) ↔
      keys = [] ∨ first ≠ [] ∧
        ∀ rows ∈ polls, ∀ row ∈ rows, ∀ member ∈ row, ¬ IsNumber member.2 := by
  constructor
  · intro good
    by_cases none : keys = []
    · exact Or.inl none
    · obtain ⟨k, known⟩ := List.exists_mem_of_ne_nil keys none
      obtain ⟨rows, listed, filled⟩ := some'
      obtain ⟨row, inside⟩ := List.exists_mem_of_ne_nil rows filled
      obtain ⟨member, here, _⟩ := List.mem_map.mp (((fixed rows listed row inside).2 k).mpr known)
      refine Or.inr ⟨(good (rows, row) (mem_polledRows.mpr ⟨listed, inside⟩) member here).1, ?_⟩
      intro rows listed row inside member here
      exact (good (rows, row) (mem_polledRows.mpr ⟨listed, inside⟩) member here).2
  · intro good p polled member here
    obtain ⟨listed, inside⟩ := mem_polledRows.mp polled
    rcases good with none | apart
    · have known := ((fixed p.1 listed p.2 inside).2 member.1).mp (List.mem_map_of_mem here)
      rw [none] at known
      cases known
    · exact ⟨apart.1, apart.2 p.1 listed p.2 inside member here⟩

/-- What live batches of one key set left in a new file is read back exactly if some batch had
    rows and, unless the rows are empty objects, the first one did and no value is a number. -/
theorem live_file_read_back_iff (keys : List String) (first : List Row) (rest : List (List Row))
    (b : RecordBatch) (batches : List RecordBatch) (polled : Polled (first :: rest) (b :: batches))
    (fixed : KeySet keys (first :: rest))
    (law : ReadsLines ((b :: batches).flatMap writtenObjects)) :
    ReadBack (b :: batches) b.schema ↔
      (∃ rows ∈ first :: rest, rows ≠ []) ∧ (keys = [] ∨ first ≠ [] ∧
        ∀ rows ∈ first :: rest, ∀ row ∈ rows, ∀ member ∈ row, ¬ IsNumber member.2) := by
  have same := polled_eq polled
  have leading : b.schema = rowsSchema first := by
    rw [List.map_cons] at same
    rw [(List.cons.inj same).1]
    rfl
  obtain ⟨read, members, streamed⟩ := law
  rw [leading]
  rw [same] at members streamed ⊢
  have filled : (∃ c ∈ (first :: rest).map batchOf, c.records ≠ []) ↔
      ∃ rows ∈ first :: rest, rows ≠ [] := by
    simp only [List.mem_map, exists_exists_and_eq_and, batchOf, rowsRecords, ne_eq,
      List.map_eq_nil_iff]
  by_cases some' : ∃ rows ∈ first :: rest, rows ≠ []
  · rw [and_iff_right some', ← no_number_iff fixed some',
      ← concatenated_iff fixed List.mem_cons_self members, ReadBack,
      scan_polled (filled.mpr some') streamed]
    constructor
    · intro back
      obtain ⟨c, scanned, whole⟩ := back
      rw [Except.ok.inj scanned]
      exact whole
    · intro whole
      exact ⟨_, rfl, whole⟩
  · refine iff_of_false ?_ fun good => some' good.1
    intro back
    obtain ⟨c, scanned, _⟩ := back
    rw [appendAll_eq, if_neg (mt filled.mp some')] at scanned
    cases scanned

end Result

section Witness

def annText : String := "\x7b\"name\":\"ann\"\x7d"

def annRow : Row := [("name", .string "ann")]
def sevenRow : Row := [("n", .number (.posInt 7))]

theorem single_key_set (key : String) (v : JsonValue) : KeySet [key] [[[(key, v)]]] := by
  intro rows listed row inside
  rw [List.mem_singleton.mp listed] at inside
  rw [List.mem_singleton.mp inside]
  exact ⟨List.nodup_singleton key, fun k => Iff.rfl⟩

theorem ann_read_back :
    @ReadBack (onePrinter annText) (oneStream annText annRow)
      [@batchOf (onePrinter annText) [annRow]] (rowsSchema [annRow]) := by
  apply (@live_file_read_back_iff (onePrinter annText) (oneStream annText annRow) ["name"] [annRow]
    [] _ [] (.cons rfl .nil) (single_key_set "name" _) (one_reads annText annRow)).mpr
  refine ⟨⟨[annRow], List.mem_cons_self, List.cons_ne_nil _ _⟩, Or.inr ⟨List.cons_ne_nil _ _, ?_⟩⟩
  intro rows listed row inside member here
  rw [List.mem_singleton.mp listed] at inside
  rw [List.mem_singleton.mp inside] at here
  rw [List.mem_singleton.mp here]
  exact id

def Plain : JsonValue → Prop
  | .null => True
  | .bool _ => True
  | .string _ => True
  | .number n => n.isI64 = true
  | _ => False

/-- The number of `{"n":7}` is read back as a text. -/
theorem seven_read_as_text :
    ¬ ∀ (keys : List String) (first : List Row) (rest : List (List Row)) (b : RecordBatch)
      (batches : List RecordBatch),
      @Polled (onePrinter seven) (first :: rest) (b :: batches) →
      KeySet keys (first :: rest) →
      (∀ rows ∈ first :: rest, ∀ row ∈ rows, ∀ member ∈ row, Plain member.2) →
      @ReadsLines (onePrinter seven) (oneStream seven sevenRow)
        ((b :: batches).flatMap writtenObjects) →
      @ReadBack (onePrinter seven) (oneStream seven sevenRow) (b :: batches) b.schema := by
  intro claim
  have polled : @Polled (onePrinter seven) [[sevenRow]]
      [@batchOf (onePrinter seven) [sevenRow]] := .cons rfl .nil
  have law := one_reads seven sevenRow
  have plain : ∀ rows ∈ [[sevenRow]], ∀ row ∈ rows, ∀ member ∈ row, Plain member.2 := by
    intro rows listed row inside member here
    rw [List.mem_singleton.mp listed] at inside
    rw [List.mem_singleton.mp inside] at here
    rw [List.mem_singleton.mp here]
    rfl
  have fixed := single_key_set "n" (.number (.posInt 7))
  have back := claim ["n"] [sevenRow] [] _ [] polled fixed plain law
  obtain ⟨read, members, streamed⟩ := law
  obtain ⟨c, scanned, whole⟩ := back
  have ran := @scan_polled (onePrinter seven) (oneStream seven sevenRow) [sevenRow]
    [@batchOf (onePrinter seven) [sevenRow]] read
    ⟨_, List.mem_cons_self, List.cons_ne_nil _ _⟩ streamed
  rw [← Except.ok.inj (ran.symm.trans scanned)] at whole
  have numberless := (@concatenated_iff (onePrinter seven) ["n"] [[sevenRow]] fixed [sevenRow]
    List.mem_cons_self read members).mp whole ([sevenRow], sevenRow)
    (mem_polledRows.mpr ⟨List.mem_cons_self, List.mem_cons_self⟩) _ List.mem_cons_self
  exact numberless.2 trivial

end Witness

end RSparkLiveAppend
