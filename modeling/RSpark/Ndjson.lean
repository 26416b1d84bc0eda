import RSpark.Batch
import RSpark.Planner

/- Newline-delimited JSON read into batches: one row for each line that holds an object, under
   the union of the rows' keys. -/
namespace RSparkNdjson
open RSparkValue RSparkBatch RSparkPlanner

section Json

inductive JsonNumber where
  | negInt (v : Int64)
  | posInt (v : UInt64)
  | float (v : Float)

inductive JsonValue where
  | null
  | bool (b : Bool)
  | number (n : JsonNumber)
  | string (s : String)
  | array (items : List JsonValue)
  | object (members : List (String × JsonValue))

/-- The foreign JSON parser and printer. -/
class SerdeJson where
  fromStr : String → Except String JsonValue
  toString : JsonValue → String

/-- A printer for rows of plain values, which are not printed. -/
@[reducible] def noPrinter : SerdeJson := ⟨fun _ => .error "expected value", fun _ => ""⟩

def JsonNumber.asI64 : JsonNumber → Option Int64
  | .negInt v => some v
  | .posInt v => if v.toNat < 9223372036854775808 then some (Int64.ofNat v.toNat) else none
  | .float _ => none

def JsonNumber.asF64 : JsonNumber → Float
  | .negInt v => i64AsF64 v
  | .posInt v => .ofModel (.ofUInt64 v)
  | .float v => v

def JsonNumber.isI64 : JsonNumber → Bool
  | .negInt _ => true
  | .posInt v => v.toNat < 9223372036854775808
  | .float _ => false

def JsonNumber.isU64 : JsonNumber → Bool
  | .posInt _ => true
  | _ => false

theorem asI64_isSome (n : JsonNumber) : n.asI64.isSome = n.isI64 := by
  cases n with
  | negInt v => rfl
  | float v => rfl
  | posInt v =>
    simp only [JsonNumber.asI64, JsonNumber.isI64]
    split
    · rename_i small
      simp [small]
    · rename_i large
      simp [large]

variable [SerdeJson]

def jsonValueToRspark : JsonValue → Value
  | .string s => .string s
  | .number n =>
      match n.asI64 with
      | some i => .int64 i
      | none => .float64 n.asF64
  | .bool b => .boolean b
  | .null => .null
  | .array items => .string (SerdeJson.toString (.array items))
  | .object members => .string (SerdeJson.toString (.object members))

end Json

section Rows

abbrev Row := List (String × JsonValue)

/-- The order in which a hash map with these members is walked. -/
class RowOrder where
  walk : Row → Row
  rearranges : ∀ row, (walk row).Perm row

def Row.get (row : Row) (key : String) : Option JsonValue :=
  (row.find? fun member => member.1 = key).map Prod.snd

def noteKey (keys : List String) (member : String × JsonValue) : List String :=
  if member.1 ∈ keys then keys else keys ++ [member.1]

def keyOrder (rows : List Row) : List String :=
  rows.foldl (fun keys row => row.foldl noteKey keys) []

variable [SerdeJson]

def cellOf (row : Row) (key : String) : Value :=
  match Row.get row key with
  | some v => jsonValueToRspark v
  | none => .null

def rowsSchema (rows : List Row) : Schema :=
  ⟨(keyOrder rows).map fun k => Field.new k .string⟩

def rowsRecords (rows : List Row) : List Record :=
  rows.map fun row => ⟨(keyOrder rows).map (cellOf row)⟩

def ndjsonRowsToBatch (rows : List Row) : Result RecordBatch :=
  RecordBatch.fromRecords (rowsSchema rows) (rowsRecords rows)

theorem ndjsonRowsToBatch_eq (rows : List Row) :
    ndjsonRowsToBatch rows = .ok ⟨rowsSchema rows, rowsRecords rows⟩ := by
  refine fromRecords_of_valid fun r mem => ?_
  obtain ⟨row, _, rfl⟩ := List.mem_map.mp mem
  refine ⟨by simp [Schema.fieldCount, rowsSchema], fun p inside _ => ?_⟩
  obtain ⟨k, _, same⟩ := List.mem_map.mp (List.of_mem_zip inside).2
  rw [← same]
  rfl

end Rows

section Read

def dropReturn (line : List Char) : List Char :=
  if line.getLast? = some (Char.ofNat 13) then line.dropLast else line

/-- The lines of a text without their ends; `held` is what the current one has so far. -/
def linesFrom (held : List Char) : List Char → List (List Char)
  | [] => if held.isEmpty then [] else [held]
  | c :: rest =>
      if c = '\n' then dropReturn held :: linesFrom [] rest else linesFrom (held ++ [c]) rest

def lines (text : String) : List (List Char) := linesFrom [] text.toList

variable [SerdeJson] [RowOrder]

/-- Blank lines are skipped, and so are values that are not objects. -/
def readRows (path : String) : Nat → List (List Char) → Result (List Row)
  | _, [] => .ok []
  | i, line :: rest =>
      let trimmed := trimChars line
      if trimmed.isEmpty then readRows path (i + 1) rest
      else
        match SerdeJson.fromStr (String.ofList trimmed) with
        | .error e => err (.parse s!"ndjson line {i + 1} in {path}: {e}")
        | .ok (.object members) => do
            let rows ← readRows path (i + 1) rest
            .ok (RowOrder.walk members :: rows)
        | .ok _ => readRows path (i + 1) rest

def readNdjson (path text : String) : Result RecordBatch := do
  ndjsonRowsToBatch (← readRows path 0 (lines text))

def WellFormed (text : String) : Prop :=
  ∀ line ∈ lines text, trimChars line = [] ∨
    ∃ v, SerdeJson.fromStr (String.ofList (trimChars line)) = .ok v

theorem readRows_of_wellFormed (path : String) {all : List (List Char)}
    (good : ∀ line ∈ all, trimChars line = [] ∨
      ∃ v, SerdeJson.fromStr (String.ofList (trimChars line)) = .ok v) (i : Nat) :
    ∃ rows, readRows path i all = .ok rows := by
  induction all generalizing i with
  | nil => exact ⟨[], rfl⟩
  | cons line rest ih =>
    obtain ⟨rows, read⟩ := ih (fun l mem => good l (List.mem_cons_of_mem _ mem)) (i + 1)
    unfold readRows
    rcases good line List.mem_cons_self with blank | ⟨v, parsed⟩
    · exact ⟨rows, by simpa [blank] using read⟩
    · by_cases blank : (trimChars line).isEmpty = true
      · exact ⟨rows, by simpa [blank] using read⟩
      · cases v <;> simp [blank, parsed, read]

theorem readNdjson_of_wellFormed (path : String) {text : String} (good : WellFormed text) :
    ∃ batch, readNdjson path text = .ok batch := by
  obtain ⟨rows, read⟩ := readRows_of_wellFormed path good 0
  rw [readNdjson, read]
  exact ⟨_, ndjsonRowsToBatch_eq rows⟩

end Read

end RSparkNdjson
