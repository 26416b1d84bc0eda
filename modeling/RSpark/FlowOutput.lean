import RSpark.Executor
import RSpark.FileTail
import RSpark.PipelineRunner
import RSpark.TableScan

/- What a flow leaves behind: its output at the destination, and the table registered under its
   name, from which the flows that depend on it read. -/
namespace RSparkFlowOutput
open RSparkValue RSparkBatch RSparkPlan RSparkPlanner RSparkExecutor RSparkCsvSource RSparkWriter
open RSparkPipelineDag RSparkPipelineRunner RSparkSqlAst RSparkExprBuilder RSparkExpr RSparkNdjson
open RSparkTableScan

section World

inductive TableKind where
  | batch | streamingTable | materializedView
  deriving DecidableEq

structure TableEntry where
  path : String
  source : String
  schema : Schema
  kind : TableKind

structure SessionState where
  tables : InsertionMap String TableEntry

def SessionState.registerWithKind (session : SessionState) (name path source : String)
    (schema : Schema) (kind : TableKind) : SessionState :=
  ⟨session.tables.insert name ⟨path, source, schema, kind⟩⟩

def SessionState.tableSchema (session : SessionState) (name : String) : Result Schema := do
  let t ← orError (session.tables.get name) (.notFound s!"table '{name}' not found")
  .ok t.schema

def SessionState.tableLocation (session : SessionState) (name : String) :
    Result (String × String) := do
  let t ← orError (session.tables.get name) (.notFound s!"table '{name}' not found")
  .ok (t.path, t.source)

def SessionState.catalog (session : SessionState) : Catalog :=
  ⟨session.tableSchema, session.tableLocation⟩

/-- How a write to a path ends: with the text in the file, before the file is touched, or after it
    has been emptied, with something left in it. -/
inductive WriteEnd where
  | done
  | refused (message : String)
  | broken (left : Option (List Char)) (message : String)

/-- The texts of the files by their paths, how writes to a path end, and what directories hold. -/
structure Files where
  contents : String → Option (List Char)
  writes : String → WriteEnd
  directory : String → List RSparkFileTail.Entry

def Files.hold (files : Files) (path : String) (text : Option (List Char)) : Files :=
  { files with contents := fun p => if p = path then text else files.contents p }

def Files.write (files : Files) (path : String) (text : List Char) : Files × Result Unit :=
  match files.writes path with
  | .done => (files.hold path (some text), .ok ())
  | .refused e => (files, err (.io e))
  | .broken left e => (files.hold path left, err (.io e))

structure World where
  files : Files
  session : SessionState
  bucketVar : Option String

/-- What lies outside: an object store, a broker, and the reader of JSON files. -/
class Outside where
  putObject : String → String → List Char → Except String Unit
  csvRecord : List String → List Char
  pollBroker : String → String → String → Result RecordBatch
  scanJson : List Char → Option Schema → Result RecordBatch

variable [CsvCrate] [Outside]

def missing : Error := .io "No such file or directory (os error 2)"

def fileSource (files : Files) (scan : List Char → Option Schema → Result RecordBatch) :
    DataSource :=
  ⟨fun path schema => do
    let text ← orError (files.contents path) missing
    scan text schema⟩

def withDefaults (files : Files) : SourceRegistry :=
  ⟨fun name =>
    if name = "csv" then some (fileSource files scanReader)
    else if name = "json" then some (fileSource files Outside.scanJson)
    else none⟩

def World.context (world : World) : ExecutionContext := ⟨withDefaults world.files⟩

end World

section Sink
variable [CsvCrate] [Outside]

def World.bucket (world : World) (bucket : Option String) : Option String :=
  bucket.or world.bucketVar

def World.objectUri (world : World) (key : String) (bucket : Option String) : String :=
  let b := (world.bucket bucket).getD "<no-bucket>"
  s!"s3://{b}/{key}"

def describe (world : World) : Destination → String
  | .file path => s!"file://{path}"
  | .s3 key bucket => world.objectUri key bucket

def textBytes (text : List Char) : Nat := (String.ofList text).utf8ByteSize

def writeFile (path : String) (batch : RecordBatch) (world : World) : World × Result Nat :=
  let wrote := world.files.write path (renderTable batch)
  ({ world with files := wrote.1 }, wrote.2.map fun _ => textBytes (renderTable batch))

def valueToCsvString : Value → String
  | .null => ""
  | .string s => s
  | other => other.castToString

def renderCsv (batch : RecordBatch) : List Char :=
  Outside.csvRecord batch.schema.fieldNames ++
    batch.records.flatMap fun r => Outside.csvRecord (r.values.map valueToCsvString)

def splitOnce (c : Char) : List Char → Option (List Char × List Char)
  | [] => none
  | d :: rest =>
      if d = c then some ([], rest) else (splitOnce c rest).map fun (a, b) => (d :: a, b)

/-- The key without a leading scheme and bucket. -/
def normalizeKey (key : String) : String :=
  if key.toList.take 5 = "s3://".toList then
    match splitOnce '/' (key.toList.drop 5) with
    | some (_, k) => String.ofList k
    | none => key
  else key

/-- The number of bytes answered is that of the text table, which is not what is written. -/
def writeS3 (key : String) (bucket : Option String) (batch : RecordBatch) (world : World) :
    Result Nat := do
  let bucketName ← orError (world.bucket bucket)
    (.storage "s3 destination requires AWS_S3_BUCKET or explicit bucket")
  match Outside.putObject bucketName (normalizeKey key) (renderCsv batch) with
  | .error e => err (.storage s!"s3 put_object({normalizeKey key}) failed: {e}")
  | .ok () => .ok (textBytes (renderTable batch))

def writeDestination (dest : Destination) (batch : RecordBatch) (world : World) :
    World × Result Nat :=
  match dest with
  | .file path => writeFile path batch world
  | .s3 key bucket => (world, writeS3 key bucket batch world)

end Sink

section Run
variable [CsvCrate] [Outside] [SerdeJson] [RowOrder] [RSparkFileTail.PathDisplay]

def tableKind : FlowKind → TableKind
  | .streamingTable => .streamingTable
  | .materializedView => .materializedView

def registration (world : World) : Destination → String × String
  | .file path => (path, "csv")
  | .s3 key bucket => (world.objectUri key bucket, "s3_csv")

def registerFlowOutput (flow : Flow) (output : RecordBatch) (world : World) : World :=
  let (path, source) := registration world flow.destination
  { world with
    session := world.session.registerWithKind flow.name path source output.schema
      (tableKind flow.kind) }

/-- A one-shot source that cannot be read is an empty one. -/
def oneShot (world : World) (scan : List Char → Option Schema → Result RecordBatch)
    (path : String) : RecordBatch :=
  match (world.files.contents path).map fun text => scan text none with
  | some (.ok batch) => batch
  | _ => RecordBatch.new Schema.empty

def pollSource (world : World) : SourceSpec → Result RecordBatch
  | .tailDir dir =>
      ((RSparkFileTail.FileTailSource.new dir).pollBatch (world.files.directory dir)).1
  | .csv path => .ok (oneShot world scanReader path)
  | .json path => .ok (oneShot world Outside.scanJson path)
  | .s3 _ _ => err (.execution "S3 streaming source not yet wired (sink supports it)")
  | .kafka topic brokers groupId => Outside.pollBroker topic brokers groupId
  | .sql => .ok (RecordBatch.new Schema.empty)

def deliver (flow : Flow) (output : RecordBatch) (world : World) : World × Result Unit :=
  match writeDestination flow.destination output world with
  | (written, .ok _) => (registerFlowOutput flow output written, .ok ())
  | (written, .error e) => (written, .error e)

variable [Regex] [SqlParser] [PlanDebug]

def executeFlow (flow : Flow) (input : RecordBatch) (world : World) : Result RecordBatch :=
  if flow.refresh.isLive then .ok input
  else do
    let plan ← planSql flow.query world.session.catalog
    match flow.kind with
    | .streamingTable => executeWithInput world.context plan input
    | .materializedView => execute world.context plan

def flowOutput (flow : Flow) (world : World) : Result RecordBatch := do
  let input ← pollSource world flow.source
  executeFlow flow input world

def flowStats (flow : Flow) (output : RecordBatch) (world : World) : RunStats :=
  ⟨flow.name, flow.kind, flow.refresh, output.len, describe world flow.destination⟩

/-- A flow that is not live, polled, executed and delivered. -/
def runOne : RunOne World := fun flow world =>
  if flow.refresh.isLive then none
  else
    match flowOutput flow world with
    | .error (.error e) => some (world, .error e)
    | .error (.abort _) => none
    | .ok output =>
        match deliver flow output world with
        | (world', .error (.error e)) => some (world', .error e)
        | (_, .error (.abort _)) => none
        | (world', .ok ()) => some (world', .ok (flowStats flow output world))

end Run

section ReadBack

def IsFile : Destination → Prop
  | .file _ => True
  | .s3 _ _ => False

theorem registered (flow : Flow) (output : RecordBatch) (world : World) :
    (registerFlowOutput flow output world).session.tableLocation flow.name =
        .ok (registration world flow.destination) ∧
      (registerFlowOutput flow output world).session.tableSchema flow.name =
        .ok output.schema := by
  have found : (registerFlowOutput flow output world).session.tables.get flow.name =
      some ⟨(registration world flow.destination).1, (registration world flow.destination).2,
        output.schema, tableKind flow.kind⟩ := InsertionMap.find_replace_self _ _ _
  simp only [SessionState.tableLocation, SessionState.tableSchema, found]
  exact ⟨rfl, rfl⟩

variable [CsvCrate] [Outside]

def ReadsBack (world : World) (name : String) (records : List Record) : Prop :=
  ∃ path source schema batch, world.session.tableLocation name = .ok (path, source) ∧
    world.session.tableSchema name = .ok schema ∧
    scanSource world.context path source schema = .ok batch ∧ batch.records = records

theorem readsBack_iff {flow : Flow} {output : RecordBatch} {world : World} {path source : String}
    (located : registration world flow.destination = (path, source)) (records : List Record) :
    ReadsBack (registerFlowOutput flow output world) flow.name records ↔
      ∃ batch, scanSource ⟨withDefaults world.files⟩ path source output.schema = .ok batch ∧
        batch.records = records := by
  obtain ⟨location, schema⟩ := registered flow output world
  rw [located] at location
  constructor
  · rintro ⟨path', source', schema', batch, location', schema'', read, same⟩
    obtain ⟨rfl, rfl⟩ := Prod.mk.inj (Except.ok.inj (location.symm.trans location'))
    obtain rfl := Except.ok.inj (schema.symm.trans schema'')
    exact ⟨batch, read, same⟩
  · rintro ⟨batch, read, same⟩
    exact ⟨path, source, output.schema, batch, location, schema, read, same⟩

theorem object_not_read {flow : Flow} {output : RecordBatch} {world : World} {key : String}
    {bucket : Option String} (stored : flow.destination = .s3 key bucket)
    (records : List Record) :
    ¬ ReadsBack (registerFlowOutput flow output world) flow.name records := by
  have located : registration world flow.destination =
      (world.objectUri key bucket, "s3_csv") := by
    rw [stored]
    rfl
  rw [readsBack_iff located]
  rintro ⟨batch, read, _⟩
  exact nomatch read

omit [CsvCrate] [Outside] in
theorem write_ok {files : Files} {path : String} {text : List Char} {bytes n : Nat}
    (done : (files.write path text).2.map (fun _ => n) = .ok bytes) :
    (files.write path text).1.contents path = some text := by
  unfold Files.write at done ⊢
  split at done
  · exact if_pos rfl
  · exact nomatch done
  · exact nomatch done

theorem file_reads_back_iff {flow : Flow} {output : RecordBatch} {world written : World}
    {path : String} {bytes : Nat} (stored : flow.destination = .file path)
    (wrote : writeDestination flow.destination output world = (written, .ok bytes))
    (records : List Record) :
    ReadsBack (registerFlowOutput flow output written) flow.name records ↔
      ∃ batch, scanReader (renderTable output) (some output.schema) = .ok batch ∧
        batch.records = records := by
  have located : registration written flow.destination = (path, "csv") := by rw [stored]; rfl
  have contents : written.files.contents path = some (renderTable output) := by
    rw [stored] at wrote
    obtain ⟨rfl, done⟩ := Prod.mk.inj wrote
    exact write_ok done
  have scanned : scanSource ⟨withDefaults written.files⟩ path "csv" output.schema =
      scanReader (renderTable output) (some output.schema) := by
    show (do let text ← orError (written.files.contents path) missing; _) = _
    rw [contents]
    rfl
  rw [readsBack_iff located, scanned]

omit [CsvCrate] in
theorem deliver_ok {flow : Flow} {output : RecordBatch} {world delivered : World}
    (done : deliver flow output world = (delivered, .ok ())) :
    ∃ bytes written, writeDestination flow.destination output world = (written, .ok bytes) ∧
      delivered = registerFlowOutput flow output written := by
  unfold deliver at done
  split at done
  · rename_i written bytes wrote
    exact ⟨bytes, written, wrote, (Prod.mk.inj done).1.symm⟩
  · exact nomatch (Prod.mk.inj done).2

/-- What a flow wrote is read back when it went to a file and is empty, and, as long as its
    names are plain, only then. -/
theorem output_reads_back_iff (law : LineReader) (flow : Flow) (output : RecordBatch)
    (valid : output.Valid) (world delivered : World)
    (done : deliver flow output world = (delivered, .ok ())) :
    ((IsFile flow.destination ∧ output.records = []) →
      ReadsBack delivered flow.name output.records) ∧
    (PlainNames output.schema → ReadsBack delivered flow.name output.records →
      IsFile flow.destination ∧ output.records = []) := by
  obtain ⟨bytes, written, wrote, rfl⟩ := deliver_ok done
  cases stored : flow.destination with
  | s3 key bucket =>
    refine ⟨fun file => (nomatch file.1), fun _ read => ?_⟩
    exact absurd read (object_not_read stored _)
  | file path =>
    rw [file_reads_back_iff stored wrote]
    constructor
    · rintro ⟨_, empty⟩
      exact ⟨_, scan_empty law empty, empty.symm⟩
    · rintro plain ⟨batch, read, same⟩
      refine ⟨trivial, ?_⟩
      by_contra shown
      exact scan_rows law valid plain shown read same

end ReadBack

section Witness

/-- A reader that knows lines and commas only. -/
@[reducible] def lineReader : CsvCrate where
  records text := ((linesFrom [] text).filter (· ≠ [])).map (List.splitOn ',')
  unequalLengths _ _ := "record with different number of fields"

theorem linesFrom_line {line : List Char} (plain : ∀ c ∈ line, PlainChar c)
    (held text : List Char) :
    linesFrom held (line ++ '\n' :: text) = dropReturn (held ++ line) :: linesFrom [] text := by
  induction line generalizing held with
  | nil => simp [linesFrom]
  | cons c line ih =>
    have other : c ≠ '\n' := (plain c List.mem_cons_self).2.1
    rw [List.cons_append, linesFrom, if_neg other,
      ih fun d mem => plain d (List.mem_cons_of_mem _ mem), List.append_assoc]
    rfl

theorem lineReader_records (text : List Char) : @CsvCrate.records lineReader text =
    ((linesFrom [] text).filter (· ≠ [])).map (List.splitOn ',') := rfl

theorem lineReader_law : @LineReader lineReader := by
  refine @LineReader.mk lineReader rfl (fun text => rfl) fun line text plain => ?_
  have kept : dropReturn line = line := by
    refine if_neg fun last => ?_
    exact (plain.2 _ (List.mem_of_getLast? last)).2.2 rfl
  rw [lineReader_records, lineReader_records, linesFrom_line plain.2, List.nil_append, kept,
    List.filter_cons_of_pos (by simpa using plain.1), List.map_cons]

@[reducible] def noOutside : Outside where
  putObject _ _ _ := .error "dispatch failure"
  csvRecord cells := (String.intercalate "," cells ++ "\n").toList
  pollBroker _ _ _ := err (.storage "kafka producer: Local: Unknown error")
  scanJson _ _ := err (.storage "json read")

def idsFlow : Flow :=
  ⟨"ids", .materializedView, [], .sql, "SELECT id FROM t", .full, .file "out.csv"⟩

def idsSchema : Schema := ⟨[.new "id" .int64]⟩

def emptyWorld : World := ⟨⟨fun _ => none, fun _ => .done, fun _ => []⟩, ⟨.empty⟩, none⟩

theorem file_delivers (output : RecordBatch) : ∃ delivered,
    @deliver noOutside idsFlow output emptyWorld = (delivered, .ok ()) := ⟨_, rfl⟩

theorem empty_output_reads_back : ∃ delivered,
    @deliver noOutside idsFlow (.new idsSchema) emptyWorld = (delivered, .ok ()) ∧
    @ReadsBack lineReader noOutside delivered "ids" [] := by
  obtain ⟨delivered, done⟩ := file_delivers (.new idsSchema)
  have both := @output_reads_back_iff lineReader noOutside lineReader_law idsFlow
    (.new idsSchema) (new_valid _) emptyWorld delivered done
  exact ⟨delivered, done, both.1 ⟨trivial, rfl⟩⟩

/-- A table with one row is not read back. -/
theorem one_row_not_read :
    ¬ ∀ (flow : Flow) (output : RecordBatch) (world delivered : World), output.Valid →
      @deliver noOutside flow output world = (delivered, .ok ()) →
      @ReadsBack lineReader noOutside delivered flow.name output.records := by
  intro claim
  have valid : (⟨idsSchema, [⟨[.int64 1]⟩]⟩ : RecordBatch).Valid := by decide
  have plain : PlainNames idsSchema := by
    intro name named c inside
    obtain rfl := List.mem_singleton.mp named
    have known : c = 'i' ∨ c = 'd' := by simpa [Field.new] using inside
    rcases known with rfl | rfl <;> decide
  obtain ⟨delivered, done⟩ := file_delivers ⟨idsSchema, [⟨[.int64 1]⟩]⟩
  have read := claim idsFlow _ emptyWorld delivered valid done
  obtain ⟨bytes, written, wrote, rfl⟩ := @deliver_ok noOutside _ _ _ _ done
  rw [@file_reads_back_iff lineReader noOutside _ _ _ _ _ _ rfl wrote] at read
  obtain ⟨batch, scanned, same⟩ := read
  exact @scan_rows lineReader lineReader_law _ _ valid plain (by simp) scanned same

end Witness

end RSparkFlowOutput
