import RSpark.FlowOutput
import RSpark.LiveAppend

/- The live part: the ingest service sends the events of a request to a topic, and live flows poll
   their sources and append what they find to their files. The broker, the directories and the disk
   are not part of the program: what they answer at a step is given with the step. -/
namespace RSparkLiveFlows
open RSparkValue RSparkBatch RSparkPlanner RSparkNdjson RSparkJsonWriter RSparkLiveAppend
open RSparkFileTail RSparkPipelineDag RSparkFlowOutput RSparkUnionSchema Calls

section Outside

inductive SendFate where
  | acknowledged
  | failed (error : String)

inductive ConnectFate where
  | subscribed
  | uncreated (error : String)
  | refused (error : String)

inductive Received where
  | message (payload : Option (List UInt8))
  | failed (error : String)
  | late

inductive AppendFate where
  | done
  | unopened (error : String)
  | cut (written : Nat) (error : String)

/-- What a directory holds: every entry has a name, and no two have the same. -/
structure Directory where
  entries : List Entry
  named : ∀ file ∈ entries, file.name ≠ []
  distinct : (entries.map Entry.name).Nodup

/-- What is met at each step: the answers of the broker, the directories as they then are, and
    what fails. -/
structure Environment where
  sends : Nat → SendFate
  connects : Nat → ConnectFate
  receives : Nat → Received
  directories : Nat → String → Directory
  listings : Nat → Option String
  readings : Nat → Option String
  scans : Nat → Option RecordBatch
  appends : Nat → AppendFate

structure LiveState where
  files : String → Option (List UInt8)
  session : SessionState
  steps : Nat
  env : Environment

structure KafkaSource where
  topic : String
  brokers : String
  groupId : String

inductive LiveOp where
  | send (topic : String) (payload : List UInt8)
  | connect (source : KafkaSource)
  | receive (source : KafkaSource)
  | readDir (dir : String)
  | readFile (dir : String) (name : OsString)
  | scan (source : SourceSpec)
  | appendFile (path : String) (batch : RecordBatch)
  | register (name path source : String) (schema : Schema) (kind : TableKind)

@[reducible] def LiveOp.Resp : LiveOp → Type
  | .send _ _ => SendFate
  | .connect _ => ConnectFate
  | .receive _ => Received
  | .readDir _ => Except String Directory
  | .readFile _ _ => Except String String
  | .scan _ => Option RecordBatch
  | .appendFile _ _ => AppendFate
  | .register _ _ _ _ _ => Unit

def Environment.listing (env : Environment) (n : Nat) (dir : String) : Except String Directory :=
  match env.listings n with
  | some e => .error e
  | none => .ok (env.directories n dir)

def Environment.reading (env : Environment) (n : Nat) (dir : String) (name : OsString) :
    Except String String :=
  match env.readings n, (env.directories n dir).entries.find? (·.name = name) with
  | some e, _ => .error e
  | none, some file => .ok file.text
  | none, none => .error "No such file or directory (os error 2)"

def Environment.answer (env : Environment) (n : Nat) : (o : LiveOp) → o.Resp
  | .send _ _ => env.sends n
  | .connect _ => env.connects n
  | .receive _ => env.receives n
  | .readDir dir => env.listing n dir
  | .readFile dir name => env.reading n dir name
  | .scan _ => env.scans n
  | .appendFile _ _ => env.appends n
  | .register _ _ _ _ _ => ()

def LiveState.write (s : LiveState) (path : String) (text : List UInt8) : LiveState :=
  { s with files := Function.update s.files path (some ((s.files path).getD [] ++ text)) }

variable [SerdeJson]

def written (batch : RecordBatch) : AppendFate → List UInt8
  | .done => renderJson batch
  | .cut written _ => (renderJson batch).take written
  | .unopened _ => []

def LiveState.append (s : LiveState) (path : String) (batch : RecordBatch) : LiveState :=
  match s.env.appends s.steps with
  | .unopened _ => s
  | fate => s.write path (written batch fate)

def LiveOp.effect : LiveOp → LiveState → LiveState
  | .appendFile path batch, s => s.append path batch
  | .register name path source schema kind, s =>
      { s with session := s.session.registerWithKind name path source schema kind }
  | _, s => s

def LiveOp.exec (o : LiveOp) (s : LiveState) : LiveState × o.Resp :=
  ({ o.effect s with steps := s.steps + 1 }, s.env.answer s.steps o)

@[reducible] def liveInterface : Interface LiveState := ⟨LiveOp, LiveOp.Resp, LiveOp.exec⟩

abbrev LiveProg (α : Type) := Prog liveInterface α

end Outside

section Ingest
variable [SerdeJson]

structure IngestResponse where
  status : Nat
  received : Nat
  produced : Nat
  failed : Nat
  deriving DecidableEq

def encode (event : JsonValue) : List UInt8 := utf8 (SerdeJson.toString event)

def SendFate.isAcknowledged : SendFate → Bool
  | .acknowledged => true
  | .failed _ => false

def respond (received produced failed : Nat) : IngestResponse :=
  if failed > 0 ∧ produced = 0 then ⟨502, received, produced, failed⟩
  else ⟨202, received, produced, failed⟩

def sendAll (topic : String) (received : Nat) (produced failed : Nat) :
    List JsonValue → LiveProg IngestResponse
  | [] => .ret (respond received produced failed)
  | ev :: rest => .call (.send topic (encode ev)) fun (fate : SendFate) =>
      if fate.isAcknowledged then sendAll topic received (produced + 1) failed rest
      else sendAll topic received produced (failed + 1) rest

def ingest (topic : String) (events : List JsonValue) : LiveProg IngestResponse :=
  sendAll topic events.length 0 0 events

end Ingest

section Rows
variable [SerdeJson]

abbrev Walking := Nat → RowOrder

def fileRows (path text : String) : Result (List Row) := @readRows _ asMet path 0 (lines text)

def walkRows (walking : Walking) (rows : List Row) : List Row :=
  rows.mapIdx fun i row => (walking i).walk row

def lineObject (line : List Char) : Option Row :=
  if (trimChars line).isEmpty then none
  else
    match SerdeJson.fromStr (String.ofList (trimChars line)) with
    | .ok (.object members) => some members
    | _ => none

def objectsIn (text : String) : List Row := (lines text).filterMap lineObject

theorem readRows_objects (path : String) {all : List (List Char)} {i : Nat} {rows : List Row}
    (read : @readRows _ asMet path i all = .ok rows) : rows = all.filterMap lineObject := by
  induction all generalizing i rows with
  | nil => exact (Except.ok.inj read).symm
  | cons line rest ih =>
    rw [List.filterMap_cons, lineObject]
    unfold readRows at read
    by_cases blank : (trimChars line).isEmpty = true
    · simp only [blank, if_true] at read ⊢
      exact ih read
    · simp only [blank, Bool.false_eq_true, if_false] at read ⊢
      split at read
      · exact nomatch read
      · rename_i members parsed
        obtain ⟨later, found, same⟩ := bind_eq_ok.mp read
        obtain rfl := Except.ok.inj same
        rw [ih found]
        simp only [parsed]
        rfl
      · rename_i v other parsed
        rw [ih read, parsed]
        cases v with
        | object members => exact absurd rfl (other members)
        | _ => rfl

theorem fileRows_objects {path text : String} {rows : List Row}
    (read : fileRows path text = .ok rows) : rows = objectsIn text :=
  readRows_objects path read

theorem readRows_walked (order : RowOrder) (path : String) (all : List (List Char)) (i : Nat) :
    @readRows _ order path i all = (@readRows _ asMet path i all).map (List.map order.walk) := by
  induction all generalizing i with
  | nil => rfl
  | cons line rest ih =>
    unfold readRows
    by_cases blank : (trimChars line).isEmpty = true
    · simp only [blank, if_true]
      exact ih (i + 1)
    · simp only [blank, Bool.false_eq_true, if_false]
      split
      · rfl
      · rw [ih]
        cases @readRows _ asMet path (i + 1) rest <;> rfl
      · exact ih (i + 1)

omit [SerdeJson] in
theorem walkRows_uniform (order : RowOrder) (rows : List Row) :
    walkRows (fun _ => order) rows = rows.map order.walk := by
  rw [walkRows, List.mapIdx_eq_zipIdx_map]
  conv_rhs => rw [← List.zipIdx_map_fst 0 rows, List.map_map]
  rfl

omit [SerdeJson] in
theorem walkRows_walks (walking : Walking) (rows : List Row) :
    Walks (walkRows walking rows) rows := by
  refine List.forall₂_iff_get.mpr ⟨List.length_mapIdx, fun i left right => ?_⟩
  simp only [walkRows, List.get_eq_getElem, List.getElem_mapIdx]
  exact (walking i).rearranges _

end Rows

section Sources
variable [SerdeJson]

inductive StreamingSource where
  | tail (source : FileTailSource)
  | kafka (source : KafkaSource)
  | oneShot (inner : Option RecordBatch)
  | null

/-- A one-shot source is read when it is built; one that cannot be read is empty. -/
def buildSource : SourceSpec → LiveProg (Result StreamingSource)
  | .tailDir dir => .ret (.ok (.tail (FileTailSource.new dir)))
  | .csv path => .call (.scan (.csv path)) fun (inner : Option RecordBatch) =>
      .ret (.ok (.oneShot inner))
  | .json path => .call (.scan (.json path)) fun (inner : Option RecordBatch) =>
      .ret (.ok (.oneShot inner))
  | .s3 _ _ => .ret (err (.execution "S3 streaming source not yet wired (sink supports it)"))
  | .kafka topic brokers groupId =>
      .call (.connect ⟨topic, brokers, groupId⟩) fun (fate : ConnectFate) =>
        match fate with
        | .subscribed => .ret (.ok (.kafka ⟨topic, brokers, groupId⟩))
        | .uncreated e => .ret (err (.storage s!"kafka producer: {e}"))
        | .refused e => .ret (err (.storage s!"kafka subscribe {topic}: {e}"))
  | .sql => .ret (.ok .null)

/-- A message that is no JSON object in UTF-8 is skipped. -/
def decode (payload : Option (List UInt8)) : Option Row :=
  match payload.bind toStr with
  | none => none
  | some text =>
      match SerdeJson.fromStr text with
      | .ok (.object members) => some members
      | _ => none

def pollLimit : Nat := 100

/-- Messages are received until `left` are, one is late or an error comes. -/
def receiveRows (source : KafkaSource) (walking : Walking) (rows : List Row) :
    Nat → LiveProg (List Row)
  | 0 => .ret rows
  | left + 1 => .call (.receive source) fun (received : Received) =>
      match received with
      | .message payload =>
          match decode payload with
          | some row => receiveRows source walking (rows ++ [(walking rows.length).walk row]) left
          | none => receiveRows source walking rows left
      | .failed _ => .ret rows
      | .late => .ret rows

def KafkaSource.pollBatch (source : KafkaSource) (walking : Walking) :
    LiveProg (Result RecordBatch) :=
  (receiveRows source walking [] pollLimit).map fun rows =>
    if rows.isEmpty then .ok (RecordBatch.new Schema.empty) else ndjsonRowsToBatch rows

variable [PathDisplay]

def readNdjsonFile (walking : Walking) (path text : String) : Result RecordBatch := do
  let rows ← fileRows path text
  ndjsonRowsToBatch (walkRows walking rows)

def tailBatch (walking : Walking) (source : FileTailSource) :
    LiveProg (Result RecordBatch × FileTailSource) :=
  .call (.readDir source.dir) fun (listed : Except String Directory) =>
    match listed with
    | .error e => .ret (err (.io e), source)
    | .ok found =>
        match source.nextUnseen found.entries with
        | none => .ret (.ok (RecordBatch.new Schema.empty), source)
        | some file =>
            .call (.readFile source.dir file.name) fun (read : Except String String) =>
              match read with
              | .error e => .ret (err (.io e), source)
              | .ok text =>
                  match readNdjsonFile walking (PathDisplay.display source.dir file.name) text with
                  | .error e => .ret (.error e, source)
                  | .ok batch => .ret (.ok batch, source.note file.name)

def StreamingSource.pollBatch (walking : Walking) :
    StreamingSource → LiveProg (Result RecordBatch × StreamingSource)
  | .tail source => (tailBatch walking source).map fun (polled, source) => (polled, .tail source)
  | .kafka source => (source.pollBatch walking).map fun polled => (polled, .kafka source)
  | .oneShot inner => .ret (.ok (inner.getD (RecordBatch.new Schema.empty)), .oneShot none)
  | .null => .ret (.ok (RecordBatch.new Schema.empty), .null)

omit [SerdeJson] [PathDisplay] in
theorem find_named {entries : List Entry} (distinct : (entries.map Entry.name).Nodup)
    {file : Entry} (inside : file ∈ entries) :
    entries.find? (fun other => other.name = file.name) = some file := by
  have met : (entries.find? fun other => other.name = file.name).isSome = true :=
    List.find?_isSome.mpr ⟨file, inside, decide_eq_true rfl⟩
  obtain ⟨other, found⟩ := Option.isSome_iff_exists.mp met
  have named : other.name = file.name := by simpa using List.find?_some found
  obtain rfl : other = file :=
    List.inj_on_of_nodup_map distinct (List.mem_of_find?_eq_some found) inside named
  exact found

omit [PathDisplay] in
theorem readNdjsonFile_uniform (order : RowOrder) (path text : String) :
    readNdjsonFile (fun _ => order) path text = @readNdjson _ order path text := by
  rw [readNdjsonFile, readNdjson, readRows_walked order, fileRows]
  cases @readRows _ asMet path 0 (lines text) with
  | error e => rfl
  | ok rows =>
    show ndjsonRowsToBatch (walkRows _ rows) = _
    rw [walkRows_uniform]
    rfl

theorem tailBatch_run (order : RowOrder) (source : FileTailSource) (s : LiveState)
    (lists : s.env.listings s.steps = none) (reads : s.env.readings (s.steps + 1) = none)
    (still : s.env.directories (s.steps + 1) source.dir =
      s.env.directories s.steps source.dir) :
    ((tailBatch (fun _ => order) source).run s).2 = some (@FileTailSource.pollBatch _ order _
      source (s.env.directories s.steps source.dir).entries) := by
  have listed : liveInterface.exec (.readDir source.dir) s =
      ({ s with steps := s.steps + 1 }, .ok (s.env.directories s.steps source.dir)) := by
    refine Prod.ext rfl ?_
    show s.env.listing s.steps source.dir = _
    simp only [Environment.listing, lists]
  rw [tailBatch, Prog.run_call, listed, FileTailSource.pollBatch]
  cases found : source.nextUnseen (s.env.directories s.steps source.dir).entries with
  | none =>
    simp only [found]
    rfl
  | some file =>
    have inside := (mem_sortedFiles.mp (List.mem_of_find?_eq_some found)).1
    have opened : liveInterface.exec (.readFile source.dir file.name)
        { s with steps := s.steps + 1 } = ({ s with steps := s.steps + 2 }, .ok file.text) := by
      refine Prod.ext rfl ?_
      show s.env.reading (s.steps + 1) source.dir file.name = _
      simp only [Environment.reading, reads, still, find_named (Directory.distinct _) inside]
    simp only [found]
    rw [Prog.run_call, opened, FileTailSource.read]
    simp only [readNdjsonFile_uniform]
    cases @readNdjson _ order (PathDisplay.display source.dir file.name) file.text <;> rfl

end Sources

section Live
variable [SerdeJson] [PathDisplay]

def appended (batch : RecordBatch) : AppendFate → Result Nat
  | .done => .ok (renderJson batch).length
  | .unopened e => err (.io e)
  | .cut _ e => err (.io e)

def appendDestination (dest : Destination) (batch : RecordBatch) : LiveProg (Result Nat) :=
  match dest with
  | .file path =>
      if batch.isEmpty then .ret (.ok 0)
      else .call (.appendFile path batch) fun (fate : AppendFate) => .ret (appended batch fate)
  | .s3 _ _ =>
      .ret (err (.storage "append_destination: S3 destinations don't support live append"))

def registerOutput (flow : Flow) (path : String) (batch : RecordBatch) : LiveOp :=
  .register flow.name path "csv" batch.schema (tableKind flow.kind)

/-- The loop goes on until an error ends it or the process is stopped between two polls. The batch
    polled is the output. -/
def liveLoop (flow : Flow) (registered : Bool) (source : StreamingSource) :
    List Walking → LiveProg (Option Fault)
  | [] => .ret none
  | walking :: rest => (source.pollBatch walking).bind fun (polled, source) =>
      match polled with
      | .error e => .ret (some e)
      | .ok batch =>
          if batch.isEmpty then liveLoop flow registered source rest
          else (appendDestination flow.destination batch).bind fun done =>
            match done, flow.destination with
            | .error e, _ => .ret (some e)
            | .ok _, .file path =>
                if registered then liveLoop flow true source rest
                else .call (registerOutput flow path batch) fun _ =>
                  liveLoop flow true source rest
            | .ok _, .s3 _ _ => liveLoop flow registered source rest

def runLiveStreaming (flow : Flow) (polls : List Walking) : LiveProg (Option Fault) :=
  (buildSource flow.source).bind fun built =>
    match built with
    | .error e => .ret (some e)
    | .ok source => liveLoop flow false source polls

end Live

end RSparkLiveFlows
