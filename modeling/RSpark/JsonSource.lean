import RSpark.ColumnTypes
import RSpark.Ndjson

/- Streams of JSON objects read into batches. The columns are the caller's, or the keys in the
   order in which they are met, each of the type of the first value under it. -/
namespace RSparkJsonSource
open RSparkValue RSparkBatch RSparkValueKinds RSparkColumnTypes RSparkNdjson FloatText

section Values

def jsonType : JsonValue → DataType
  | .null => .null
  | .bool _ => .boolean
  | .number n => if n.isI64 || n.isU64 then .int64 else .float64
  | .string _ => .string
  | _ => .string

/-- `str::parse::<bool>` -/
def parseBool (s : String) : Option Bool :=
  if s = "true" then some true else if s = "false" then some false else none

def orString {α : Type} (wrap : α → Value) (s : String) (parsed : Option α) : Value :=
  (parsed.map wrap).getD (.string s)

variable [SerdeJson]

def jsonToValue (v : JsonValue) (target : DataType) : Value :=
  match v with
  | .null => .null
  | .bool b => .boolean b
  | .number n =>
      match n.asI64 with
      | some i =>
          match target with
          | .float64 => .float64 (i64AsF64 i)
          | .string => .string (i64ToString i)
          | _ => .int64 i
      | none =>
          match target with
          | .int64 => .float64 n.asF64
          | .string => .string (print64 n.asF64)
          | _ => .float64 n.asF64
  | .string s =>
      match target with
      | .int64 => orString .int64 s (parseI64 s)
      | .float64 => orString .float64 s (parse64 s)
      | .boolean => orString .boolean s (parseBool s)
      | _ => .string s
  | nested => .string (SerdeJson.toString nested)

end Values

section Stream

/-- The foreign streaming parser: the values that bytes hold, with its message where it fails. -/
class JsonStream where
  values : List UInt8 → List (Except String JsonValue)

def noteMember (fields : List Field) (member : String × JsonValue) : List Field :=
  if fields.any (·.name = member.1) then fields
  else fields ++ [.new member.1 (jsonType member.2)]

/-- A value that is not an object gives no field. -/
def inferFields (fields : List Field) : List (Except String JsonValue) → Result (List Field)
  | [] => .ok fields
  | .error e :: _ => err (.serde e)
  | .ok (.object map) :: rest => inferFields (map.foldl noteMember fields) rest
  | .ok _ :: rest => inferFields fields rest

variable [SerdeJson]

def objectRow (schema : Schema) (map : Row) : Record :=
  ⟨schema.fields.map fun field => jsonToValue ((Row.get map field.name).getD .null) field.dataType⟩

def readRecords (schema : Schema) : List (Except String JsonValue) → Result (List Record)
  | [] => .ok []
  | .error e :: _ => err (.serde e)
  | .ok (.object map) :: rest => do
      let records ← readRecords schema rest
      .ok (objectRow schema map :: records)
  | .ok _ :: _ => err (.storage "each JSON line must be an object")

variable [JsonStream]

def inferSchemaFromReader (bytes : List UInt8) : Result Schema := do
  let fields ← inferFields [] (JsonStream.values bytes)
  .ok ⟨fields⟩

def scanWith (bytes : List UInt8) (schema : Schema) : Result RecordBatch := do
  let records ← readRecords schema (JsonStream.values bytes)
  RecordBatch.fromRecords schema records

def scanReader (bytes : List UInt8) : Option Schema → Result RecordBatch
  | some schema => scanWith bytes schema
  | none => do
      let schema ← inferSchemaFromReader bytes
      scanWith bytes schema

end Stream

section Kinds

def Follows (first v : JsonValue) : Prop :=
  match first, v with
  | _, .null => True
  | .null, _ => False
  | .bool _, .bool _ => True
  | .bool _, .string s => s = "true" ∨ s = "false"
  | .bool _, _ => False
  | .number (.float _), .number _ => True
  | .number (.float _), .string s => (parse64 s).isSome = true
  | .number _, .number n => n.isI64 = true
  | .number _, .string s => (parseI64 s).isSome = true
  | .number _, _ => False
  | _, .bool _ => False
  | _, _ => True

theorem parseBool_isSome (s : String) :
    (parseBool s).isSome = true ↔ s = "true" ∨ s = "false" := by
  unfold parseBool
  split
  · rename_i yes
    simp [yes]
  · split
    · rename_i no
      simp [no]
    · rename_i notTrue notFalse
      simp [notTrue, notFalse]

theorem fits_kind {type : DataType} {v : Value} (shown : v ≠ .null) :
    Fits type v ↔ kind v = some type := ⟨fun fits => fits shown, fun same _ => same⟩

theorem never_fits {type k : DataType} {v : Value} (of : kind v = some k) (other : k ≠ type) :
    Fits type v ↔ False := by
  refine iff_false_intro fun fits => ?_
  have shown : v ≠ .null := by
    rintro rfl
    exact nomatch of
  exact other (Option.some.inj (of.symm.trans (fits shown)))

theorem text_follows_iff {first : JsonValue} (text : jsonType first = .string) (v : JsonValue) :
    Follows first v ↔ ∀ b, v ≠ .bool b := by
  cases first with
  | null => exact nomatch text
  | bool b => exact nomatch text
  | number n =>
    simp only [jsonType] at text
    split at text <;> exact nomatch text
  | _ => cases v <;> simp [Follows]

variable [SerdeJson]

theorem number_kind (n : JsonNumber) (target : DataType) :
    kind (jsonToValue (.number n) target) =
      match target with
      | .float64 => some .float64
      | .string => some .string
      | _ => some (if n.isI64 then .int64 else .float64) := by
  rw [← asI64_isSome]
  simp only [jsonToValue]
  cases n.asI64 with
  | some i => cases target <;> rfl
  | none => cases target <;> rfl

theorem number_shown (n : JsonNumber) (target : DataType) :
    jsonToValue (.number n) target ≠ .null := by
  intro null
  have none' := number_kind n target
  rw [null] at none'
  cases target <;> exact nomatch none'

theorem number_fits_int64 (n : JsonNumber) :
    Fits .int64 (jsonToValue (.number n) .int64) ↔ n.isI64 = true := by
  rw [fits_kind (number_shown n _), number_kind]
  cases n.isI64 <;> simp

theorem number_fits_same (n : JsonNumber) {target : DataType}
    (reads : target = .float64 ∨ target = .string) :
    Fits target (jsonToValue (.number n) target) := by
  rw [fits_kind (number_shown n _), number_kind]
  rcases reads with rfl | rfl <;> rfl

theorem number_never_fits (n : JsonNumber) {target : DataType}
    (other : target = .null ∨ target = .boolean) :
    ¬ Fits target (jsonToValue (.number n) target) := by
  rw [fits_kind (number_shown n _), number_kind]
  rcases other with rfl | rfl <;> cases n.isI64 <;> simp

theorem null_fits_iff (v : JsonValue) :
    Fits .null (jsonToValue v .null) ↔ Follows .null v := by
  cases v with
  | null => exact iff_true_intro (fits_null _)
  | bool b => exact never_fits rfl (by decide)
  | number n => exact iff_false_intro (number_never_fits n (Or.inl rfl))
  | string s => exact never_fits rfl (by decide)
  | array items => exact never_fits rfl (by decide)
  | object members => exact never_fits rfl (by decide)

theorem boolean_fits_iff (a : Bool) (v : JsonValue) :
    Fits .boolean (jsonToValue v .boolean) ↔ Follows (.bool a) v := by
  cases v with
  | null => exact iff_true_intro (fits_null _)
  | bool b => exact iff_true_intro fun _ => rfl
  | number n => exact iff_false_intro (number_never_fits n (Or.inr rfl))
  | string s => exact (fits_parsed (fun _ => rfl) (by decide) s _).trans (parseBool_isSome s)
  | array items => exact never_fits rfl (by decide)
  | object members => exact never_fits rfl (by decide)

theorem int64_fits_iff {n : JsonNumber} (integer : n.isI64 || n.isU64) (v : JsonValue) :
    Fits .int64 (jsonToValue v .int64) ↔ Follows (.number n) v := by
  cases n with
  | float x => exact nomatch integer
  | _ =>
    cases v with
    | null => exact iff_true_intro (fits_null _)
    | bool b => exact never_fits rfl (by decide)
    | number m => exact number_fits_int64 m
    | string s => exact fits_parsed (fun _ => rfl) (by decide) s _
    | array items => exact never_fits rfl (by decide)
    | object members => exact never_fits rfl (by decide)

theorem float64_fits_iff {n : JsonNumber} (real : ¬ (n.isI64 || n.isU64)) (v : JsonValue) :
    Fits .float64 (jsonToValue v .float64) ↔ Follows (.number n) v := by
  cases n with
  | negInt x => exact absurd rfl real
  | posInt x => exact absurd (Bool.or_true _) real
  | float x =>
    cases v with
    | null => exact iff_true_intro (fits_null _)
    | bool b => exact never_fits rfl (by decide)
    | number m => exact iff_true_intro (number_fits_same m (Or.inl rfl))
    | string s => exact fits_parsed (fun _ => rfl) (by decide) s _
    | array items => exact never_fits rfl (by decide)
    | object members => exact never_fits rfl (by decide)

theorem string_fits_iff (v : JsonValue) :
    Fits .string (jsonToValue v .string) ↔ ∀ b, v ≠ .bool b := by
  cases v with
  | null => exact iff_of_true (fits_null _) fun _ same => nomatch same
  | bool b =>
    exact (never_fits rfl (by decide)).trans (iff_of_false id fun other => other b rfl)
  | number n =>
    exact iff_of_true (number_fits_same n (Or.inr rfl)) fun _ same => nomatch same
  | string s => exact iff_of_true (fun _ => rfl) fun _ same => nomatch same
  | array items => exact iff_of_true (fun _ => rfl) fun _ same => nomatch same
  | object members => exact iff_of_true (fun _ => rfl) fun _ same => nomatch same

theorem value_fits_iff (first v : JsonValue) :
    Fits (jsonType first) (jsonToValue v (jsonType first)) ↔ Follows first v := by
  cases first with
  | null => exact null_fits_iff v
  | bool b => exact boolean_fits_iff b v
  | number n =>
    simp only [jsonType]
    split
    · rename_i integer
      exact int64_fits_iff integer v
    · rename_i real
      exact float64_fits_iff real v
  | string s => exact (string_fits_iff v).trans (text_follows_iff rfl v).symm
  | array items => exact (string_fits_iff v).trans (text_follows_iff rfl v).symm
  | object members => exact (string_fits_iff v).trans (text_follows_iff rfl v).symm

end Kinds

section Inference

theorem noteMember_names (fields : List Field) (member : String × JsonValue) (key : String) :
    (noteMember fields member).any (·.name = key) =
      (fields.any (·.name = key) || member.1 = key) := by
  unfold noteMember
  split
  · rename_i known
    by_cases same : member.1 = key
    · subst same
      simpa using known
    · simp [same]
  · simp [Field.new]

theorem mem_noteMember (fields : List Field) (member : String × JsonValue) (f : Field) :
    f ∈ noteMember fields member ↔ f ∈ fields ∨
      (fields.any (·.name = f.name) = false ∧ f = .new member.1 (jsonType member.2)) := by
  unfold noteMember
  split
  · rename_i known
    refine ⟨Or.inl, ?_⟩
    rintro (old | ⟨new, same⟩)
    · exact old
    · rw [same, Field.new, known] at new
      cases new
  · rename_i unknown
    rw [List.mem_append, List.mem_singleton]
    refine or_congr_right ⟨fun same => ⟨?_, same⟩, And.right⟩
    rw [same]
    exact Bool.not_eq_true _ ▸ unknown

theorem mem_noted (members : Row) (fields : List Field) (f : Field) :
    f ∈ members.foldl noteMember fields ↔
      f ∈ fields ∨ (fields.any (·.name = f.name) = false ∧
        ∃ first, Row.get members f.name = some first ∧ f = .new f.name (jsonType first)) := by
  induction members generalizing fields with
  | nil => simp [Row.get]
  | cons member members ih =>
    rw [List.foldl_cons, ih, mem_noteMember, noteMember_names, or_assoc]
    refine or_congr_right ?_
    by_cases same : member.1 = f.name
    · have here : Row.get (member :: members) f.name = some member.2 := by simp [Row.get, same]
      simp only [here, same, decide_true, Bool.or_true, Bool.true_eq_false, false_and, or_false,
        Option.some.injEq, exists_eq_left']
    · have later : Row.get (member :: members) f.name = Row.get members f.name := by
        simp [Row.get, same]
      have other : f ≠ .new member.1 (jsonType member.2) := by
        intro new
        exact same (by rw [new, Field.new])
      simp only [later, other, same, decide_false, Bool.or_false, and_false, false_or]

def objectsOf : List (Except String JsonValue) → List Row
  | [] => []
  | .ok (.object map) :: rest => map :: objectsOf rest
  | _ :: rest => objectsOf rest

theorem inferFields_eq_ok {stream : List (Except String JsonValue)} {start fields : List Field}
    (read : inferFields start stream = .ok fields) :
    fields = (objectsOf stream).flatten.foldl noteMember start := by
  induction stream generalizing start with
  | nil => exact (Except.ok.inj read).symm
  | cons value rest ih =>
    cases value with
    | error e => exact nomatch read
    | ok value =>
      cases value with
      | object map =>
        rw [objectsOf, List.flatten_cons, List.foldl_append]
        exact ih read
      | _ => exact ih read

variable [SerdeJson]

theorem readRecords_eq_ok {schema : Schema} {stream : List (Except String JsonValue)}
    {records : List Record} (read : readRecords schema stream = .ok records) :
    records = (objectsOf stream).map (objectRow schema) := by
  induction stream generalizing records with
  | nil => exact (Except.ok.inj read).symm
  | cons value rest ih =>
    cases value with
    | error e => exact nomatch read
    | ok value =>
      cases value with
      | object map =>
        obtain ⟨later, readLater, same⟩ := bind_eq_ok.mp read
        obtain rfl := Except.ok.inj same
        rw [objectsOf, List.map_cons, ih readLater]
      | _ => exact nomatch read

variable [JsonStream]

def objects (bytes : List UInt8) : List Row := objectsOf (JsonStream.values bytes)

def firstValue (bytes : List UInt8) (key : String) : Option JsonValue :=
  Row.get (objects bytes).flatten key

theorem scan_eq_ok {bytes : List UInt8} {b : RecordBatch}
    (scanned : scanReader bytes none = .ok b) :
    b.records = (objects bytes).map (objectRow b.schema) ∧
      ∀ f, f ∈ b.schema.fields ↔
        ∃ first, firstValue bytes f.name = some first ∧ f = .new f.name (jsonType first) := by
  obtain ⟨schema, inferred, scanned⟩ := bind_eq_ok.mp scanned
  obtain ⟨fields, noted, same⟩ := bind_eq_ok.mp inferred
  obtain rfl := Except.ok.inj same
  obtain ⟨records, read, formed⟩ := bind_eq_ok.mp scanned
  obtain ⟨rfl, _⟩ := fromRecords_eq_ok.mp formed
  refine ⟨readRecords_eq_ok read, fun f => ?_⟩
  rw [inferFields_eq_ok noted, mem_noted]
  simp only [List.not_mem_nil, List.any_nil, true_and, false_or]
  rfl

/-- Every value of a scan with a detected schema is NULL or of its column's type exactly when
    under every key every value can follow the first one. -/
theorem first_types_hold_iff (bytes : List UInt8) (b : RecordBatch)
    (scanned : scanReader bytes none = .ok b) :
    Typed b b.schema ↔ ∀ key first, firstValue bytes key = some first →
      ∀ map ∈ objects bytes, ∀ v, Row.get map key = some v → Follows first v := by
  obtain ⟨records, fields⟩ := scan_eq_ok scanned
  have cell (map : Row) (first : JsonValue) (key : String) :
      Fits (jsonType first) (jsonToValue ((Row.get map key).getD .null) (jsonType first)) ↔
        ∀ v, Row.get map key = some v → Follows first v := by
    cases Row.get map key with
    | none => exact iff_of_true (fits_null _) fun v none' => nomatch none'
    | some v => simpa using value_fits_iff first v
  have row (map : Row) : (∀ p ∈ (objectRow b.schema map).values.zip b.schema.fields,
      Fits p.2.dataType p.1) ↔ ∀ f ∈ b.schema.fields,
        Fits f.dataType (jsonToValue ((Row.get map f.name).getD .null) f.dataType) := by
    rw [objectRow, Listing.map_zip_self, List.forall_mem_map]
  have each : Typed b b.schema ↔ ∀ map ∈ objects bytes, ∀ f ∈ b.schema.fields,
      Fits f.dataType (jsonToValue ((Row.get map f.name).getD .null) f.dataType) := by
    rw [Typed, records, List.forall_mem_map]
    exact forall₂_congr fun map _ => row map
  rw [each]
  constructor
  · intro typed key first known map mem
    have field := (fields (.new key (jsonType first))).mpr ⟨first, known, rfl⟩
    exact (cell map first key).mp (typed map mem _ field)
  · intro follow map mem f field
    obtain ⟨first, known, same⟩ := (fields f).mp field
    rw [same]
    exact (cell map first f.name).mpr (follow f.name first known map mem)

end Inference

section Witness

def ascii (text : String) : List UInt8 := text.toList.map fun c => .ofNat c.toNat

@[reducible] def numberStream (text : String) (n : JsonNumber) : JsonStream where
  values bytes := if bytes = ascii text then [.ok (.object [("n", .number n)])] else []

def seven : String := "\x7b\"n\":7\x7d"
def largest : String := "\x7b\"n\":18446744073709551615\x7d"

theorem seven_typed : ∃ b,
    @scanReader noPrinter (numberStream seven (.posInt 7)) (ascii seven) none = .ok b ∧
      Typed b b.schema := by
  refine ⟨⟨⟨[.new "n" .int64]⟩, [⟨[.int64 7]⟩]⟩, rfl,
    (@first_types_hold_iff noPrinter (numberStream seven (.posInt 7)) (ascii seven) _ rfl).mpr ?_⟩
  intro key first known map mem v found
  obtain rfl := List.mem_singleton.mp mem
  have one : @firstValue (numberStream seven (.posInt 7)) (ascii seven) key =
      Row.get [("n", .number (.posInt 7))] key := rfl
  obtain rfl := Option.some.inj (known.symm.trans (one.trans found))
  obtain ⟨member, here, rfl⟩ := Option.map_eq_some_iff.mp found
  obtain rfl := List.mem_singleton.mp (List.mem_of_find?_eq_some here)
  exact rfl

/-- An integer above the signed range is under a column of signed integers, as a float. -/
theorem large_integer_mistyped : ¬ ∀ [SerdeJson] [JsonStream] (bytes : List UInt8)
    (b : RecordBatch), scanReader bytes none = .ok b → Typed b b.schema := by
  intro claim
  have typed := @claim noPrinter (numberStream largest (.posInt 18446744073709551615))
    (ascii largest)
    ⟨⟨[.new "n" .int64]⟩, [⟨[.float64 (JsonNumber.posInt 18446744073709551615).asF64]⟩]⟩ rfl
  have first := typed _ (List.mem_singleton.mpr rfl) _ (List.mem_singleton.mpr rfl)
  exact nomatch first fun same => nomatch same

end Witness

end RSparkJsonSource
