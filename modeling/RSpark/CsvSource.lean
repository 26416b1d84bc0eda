import RSpark.Planner

/- CSV text read into batches: the records of the text zipped with the fields of a schema, which
   is the caller's or one detected from the cells. -/
namespace RSparkCsvSource
open RSparkValue RSparkBatch RSparkPlanner FloatText

section Crate

/-- The foreign reader: the records of a text, and its message where one has another number of
    fields than the first. -/
class CsvCrate where
  records : List Char → List (List (List Char))
  unequalLengths : List Char → Nat → String

/-- A line whose characters have no meaning to the reader but for the commas between fields. -/
def Plain (line : List Char) : Prop :=
  line ≠ [] ∧ ∀ c ∈ line, c ≠ '"' ∧ c ≠ '\n' ∧ c.toNat ≠ 13

instance (line : List Char) : Decidable (Plain line) :=
  inferInstanceAs (Decidable (_ ∧ _))

/-- What is relied on of the reader: empty lines are skipped, and a plain line is a record. -/
structure LineReader [CsvCrate] : Prop where
  nothing : CsvCrate.records [] = []
  blank : ∀ text, CsvCrate.records ('\n' :: text) = CsvCrate.records text
  line : ∀ line text, Plain line →
    CsvCrate.records (line ++ '\n' :: text) = line.splitOn ',' :: CsvCrate.records text

/-- A byte order mark at the start of a text is not part of it. -/
def stripMark : List Char → List Char
  | c :: text => if c.toNat = 0xfeff then text else c :: text
  | [] => []

variable [CsvCrate]

def headers (text : List Char) : List (List Char) :=
  (CsvCrate.records (stripMark text)).headD []

/-- The records under the headers, and whether the reader stops behind them with an error. -/
def rows (text : List Char) : List (List (List Char)) :=
  (CsvCrate.records (stripMark text)).tail.takeWhile fun row =>
    row.length = (headers text).length

def rowsEnd (text : List Char) : Result Unit :=
  if (rows text).length = (CsvCrate.records (stripMark text)).tail.length then .ok ()
  else err (.csv (CsvCrate.unequalLengths text (rows text).length))

end Crate

section Cells

def eqIgnoreAsciiCase (a : List Char) (b : String) : Bool := lowerAscii a = lowerAscii b.toList

def parseI32 (s : String) : Option Int32 :=
  (parseInt (-2147483648) 2147483647 s).map Int32.ofInt

def parseCsvValue (raw : List Char) : Value :=
  let trimmed := trimChars raw
  if trimmed.isEmpty || eqIgnoreAsciiCase trimmed "null" || eqIgnoreAsciiCase trimmed "none" then
    .null
  else if eqIgnoreAsciiCase trimmed "true" then .boolean true
  else if eqIgnoreAsciiCase trimmed "false" then .boolean false
  else
    match parseI64 (String.ofList trimmed) with
    | some v => .int64 v
    | none =>
        match parse64 (String.ofList trimmed) with
        | some v => .float64 v
        | none => .string (String.ofList trimmed)

structure ColumnScan where
  allInt : Bool
  allFloat : Bool
  allBool : Bool
  anyValue : Bool

def ColumnScan.note (scan : ColumnScan) : Value → ColumnScan
  | .null => scan
  | .int64 _ => { scan with anyValue := true }
  | .boolean _ => { scan with allInt := false, allFloat := false, anyValue := true }
  | .float64 _ => { scan with allInt := false, anyValue := true }
  | _ => ⟨false, false, false, true⟩

def ColumnScan.dataType (scan : ColumnScan) : DataType :=
  if !scan.anyValue then .string
  else if scan.allInt then .int64
  else if scan.allFloat then .float64
  else if scan.allBool then .boolean
  else .string

def inferColumn (rows : List (List Value)) (colIdx : Nat) : DataType :=
  let scan := rows.foldl (fun scan row => ColumnScan.note scan (row[colIdx]?.getD .null))
    (⟨true, true, true, false⟩ : ColumnScan)
  scan.dataType

def inferColumns (rows : List (List Value)) (headers : List (List Char)) : List DataType :=
  (List.range headers.length).map (inferColumn rows)

def orText {α : Type} (wrap : α → Value) (trimmed : List Char) (parsed : Option α) : Value :=
  (parsed.map wrap).getD (.string (String.ofList trimmed))

def coerceBoolean (trimmed : List Char) : Option Bool :=
  if String.ofList (lowerAscii trimmed) ∈ ["true", "t", "1", "yes", "y"] then some true
  else if String.ofList (lowerAscii trimmed) ∈ ["false", "f", "0", "no", "n"] then some false
  else none

def coerceValue (raw : List Char) (dataType : DataType) : Value :=
  let trimmed := trimChars raw
  if trimmed.isEmpty || eqIgnoreAsciiCase trimmed "null" then .null
  else
    match dataType with
    | .boolean => orText .boolean trimmed (coerceBoolean trimmed)
    | .int64 => orText .int64 trimmed (parseI64 (String.ofList trimmed))
    | .int32 => orText .int32 trimmed (parseI32 (String.ofList trimmed))
    | .float64 => orText .float64 trimmed (parse64 (String.ofList trimmed))
    | .float32 => orText .float32 trimmed (parse32 (String.ofList trimmed))
    | _ => .string (String.ofList trimmed)

end Cells

section Source
variable [CsvCrate]

def inferSchemaFromReader (text : List Char) : Schema :=
  let converted := (rows text).map fun row => row.map parseCsvValue
  let types := if converted.isEmpty then (headers text).map fun _ => DataType.string
    else inferColumns converted (headers text)
  ⟨((headers text).zip types).map fun (h, t) => Field.new (String.ofList h) t⟩

/-- A row's cells under the fields at the same places; the longer of the two is cut. -/
def coerceRow (schema : Schema) (row : List (List Char)) : Record :=
  ⟨(row.zip schema.fields).map fun (raw, field) => coerceValue raw field.dataType⟩

def scanReader (text : List Char) (schema : Option Schema) : Result RecordBatch := do
  let effectiveSchema := schema.getD (inferSchemaFromReader text)
  rowsEnd text
  RecordBatch.fromRecords effectiveSchema ((rows text).map (coerceRow effectiveSchema))

end Source

end RSparkCsvSource
