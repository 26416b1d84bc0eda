import RSpark.LiveFlows
import RSpark.OwnHistory

/- What a request and a live flow have done by themselves, whatever they were answered: the events
   sent, and the rounds of the loop. -/
namespace RSparkLiveRounds
open RSparkValue RSparkBatch RSparkNdjson RSparkJsonWriter RSparkUnionSchema RSparkLiveAppend
open RSparkFileTail RSparkPipelineDag RSparkFlowOutput RSparkLiveFlows Calls

section Events
variable [SerdeJson]

abbrev LiveEvent : Type := Event liveInterface

def sentIn : LiveEvent → Option (String × List UInt8 × SendFate)
  | ⟨_, .send topic payload, fate⟩ => some (topic, payload, fate)
  | _ => none

def handedIn : LiveEvent → Option (String × Option (List UInt8))
  | ⟨_, .receive source, received⟩ =>
      match (received : Received) with
      | .message payload => some (source.topic, payload)
      | _ => none
  | _ => none

def appendOf : LiveEvent → Option (String × RecordBatch × AppendFate)
  | ⟨_, .appendFile path batch, fate⟩ => some (path, batch, fate)
  | _ => none

def registeredIn : LiveEvent → Option (String × Schema)
  | ⟨_, .register name _ _ schema _, _⟩ => some (name, schema)
  | _ => none

def appendedIn (e : LiveEvent) : Option (Destination × RecordBatch) :=
  match appendOf e with
  | some (path, batch, .done) => some (.file path, batch)
  | _ => none

def writtenTo (path : String) (e : LiveEvent) : List UInt8 :=
  match appendOf e with
  | some (p, batch, fate) => if p = path then written batch fate else []
  | none => []

abbrev listing (i : Nat) (dir : String) (found : Directory) : LiveEvent :=
  ⟨i, .readDir dir, .ok found⟩

abbrev reading (i : Nat) (dir : String) (name : OsString) (text : String) : LiveEvent :=
  ⟨i, .readFile dir name, .ok text⟩

def Looks : LiveOp → Prop
  | .appendFile _ _ => False
  | .register _ _ _ _ _ => False
  | .send _ _ => False
  | _ => True

/-- A step that neither appends nor registers. -/
def Quiet (e : LiveEvent) : Prop := appendOf e = none ∧ registeredIn e = none

theorem quiet_of_looks {e : LiveEvent} (looks : Looks e.op) : Quiet e := by
  obtain ⟨i, o, r⟩ := e
  cases o with
  | appendFile path batch => exact looks.elim
  | register name path source schema kind => exact looks.elim
  | _ => exact ⟨rfl, rfl⟩

theorem quiet_appended {own : List LiveEvent} (quiet : ∀ e ∈ own, Quiet e) :
    own.filterMap appendedIn = [] := by
  refine List.filterMap_eq_nil_iff.mpr fun e mem => ?_
  simp only [appendedIn, (quiet e mem).1]

theorem quiet_registered {own : List LiveEvent} (quiet : ∀ e ∈ own, Quiet e) :
    own.filterMap registeredIn = [] :=
  List.filterMap_eq_nil_iff.mpr fun e mem => (quiet e mem).2

end Events

section Requests
variable [SerdeJson]

def heard (done : List (JsonValue × SendFate)) : Nat := done.countP (·.2.isAcknowledged)

theorem sendAll_sent (topic : String) (received : Nat) {produced failed : Nat}
    {todo : List JsonValue} {own : List LiveEvent} {q : LiveProg IngestResponse}
    (reached : Reaches (sendAll topic received produced failed todo) own q) :
    ∃ done rest, todo = done.map Prod.fst ++ rest ∧
      own.filterMap sentIn = done.map (fun d => (topic, encode d.1, d.2)) ∧
      ∀ response, q = .ret response → rest = [] ∧
        response = respond received (produced + heard done)
          (failed + (done.length - heard done)) := by
  induction todo generalizing produced failed own with
  | nil =>
    cases reached with
    | here =>
      refine ⟨[], [], rfl, rfl, fun response same => ⟨rfl, (Prog.ret.inj same).symm⟩⟩
  | cons ev rest ih =>
    cases reached with
    | here =>
      refine ⟨[], ev :: rest, rfl, rfl, fun response same => ?_⟩
      cases same
    | call i fate later =>
      have most (done : List (JsonValue × SendFate)) : heard done ≤ done.length :=
        List.countP_le_length
      by_cases acknowledged : fate.isAcknowledged = true
      · simp only [acknowledged, if_true] at later
        obtain ⟨done, left, all, sent, answer⟩ := ih later
        refine ⟨(ev, fate) :: done, left, by rw [all]; rfl, by
          rw [List.filterMap_cons, sent]; rfl, fun response same => ?_⟩
        obtain ⟨none, rfl⟩ := answer response same
        have counted : heard ((ev, fate) :: done) = heard done + 1 :=
          List.countP_cons_of_pos acknowledged
        rw [counted, List.length_cons, Nat.add_sub_add_right, Nat.add_right_comm, Nat.add_assoc]
        exact ⟨none, rfl⟩
      · simp only [acknowledged, Bool.false_eq_true, if_false] at later
        obtain ⟨done, left, all, sent, answer⟩ := ih later
        refine ⟨(ev, fate) :: done, left, by rw [all]; rfl, by
          rw [List.filterMap_cons, sent]; rfl, fun response same => ?_⟩
        obtain ⟨none, rfl⟩ := answer response same
        have counted : heard ((ev, fate) :: done) = heard done :=
          List.countP_cons_of_neg acknowledged
        rw [counted, List.length_cons, Nat.sub_add_comm (most done), Nat.add_assoc,
          Nat.add_comm 1]
        exact ⟨none, rfl⟩

def Sends : LiveOp → Prop
  | .send _ _ => True
  | _ => False

theorem sendAll_only (topic : String) (received produced failed : Nat) (todo : List JsonValue) :
    Only Sends (sendAll topic received produced failed todo) := by
  induction todo generalizing produced failed with
  | nil => exact trivial
  | cons ev rest ih =>
    refine ⟨trivial, fun (fate : SendFate) => ?_⟩
    cases fate with
    | acknowledged => exact ih (produced + 1) failed
    | failed e => exact ih produced (failed + 1)

theorem quiet_of_sends {e : LiveEvent} (sends : Sends e.op) : Quiet e ∧ handedIn e = none := by
  obtain ⟨i, o, r⟩ := e
  cases o with
  | send topic payload => exact ⟨⟨rfl, rfl⟩, rfl⟩
  | _ => exact sends.elim

end Requests

section Loop
variable [SerdeJson] [PathDisplay] {flow : Flow} {registered : Bool} {source : StreamingSource}
  {walking : Walking} {own : List LiveEvent}

/-- The rounds of the loop: polls without rows, polls whose batch was appended, the first of which
    is registered, and the last one as far as it has come. -/
inductive Rounds (flow : Flow) : Bool → StreamingSource → List LiveEvent →
    LiveProg (Option Fault) → Prop where
  | stopped (registered : Bool) (source : StreamingSource) :
      Rounds flow registered source [] (.ret none)
  | polling {registered : Bool} {source : StreamingSource} {walking : Walking}
      {polled : List LiveEvent} {p : LiveProg (Result RecordBatch × StreamingSource)}
      {q : LiveProg (Option Fault)} (poll : Reaches (source.pollBatch walking) polled p)
      (on : q ≠ .ret none) : Rounds flow registered source polled q
  | idle {registered : Bool} {source after : StreamingSource} {walking : Walking}
      {polled rest : List LiveEvent} {batch : RecordBatch} {q : LiveProg (Option Fault)}
      (poll : Reaches (source.pollBatch walking) polled (.ret (.ok batch, after)))
      (empty : batch.isEmpty = true) (later : Rounds flow registered after rest q) :
      Rounds flow registered source (polled ++ rest) q
  | appending {registered : Bool} {source after : StreamingSource} {walking : Walking}
      {polled : List LiveEvent} {batch : RecordBatch} {q : LiveProg (Option Fault)}
      (poll : Reaches (source.pollBatch walking) polled (.ret (.ok batch, after)))
      (some : batch.isEmpty = false) {path : String} (dest : flow.destination = .file path)
      (i : Nat) (fate : AppendFate) (on : q ≠ .ret none) :
      Rounds flow registered source (polled ++ [⟨i, .appendFile path batch, fate⟩]) q
  | kept {source after : StreamingSource} {walking : Walking}
      {polled rest : List LiveEvent} {batch : RecordBatch} {q : LiveProg (Option Fault)}
      (poll : Reaches (source.pollBatch walking) polled (.ret (.ok batch, after)))
      (some : batch.isEmpty = false) {path : String} (dest : flow.destination = .file path)
      (i : Nat) (later : Rounds flow true after rest q) :
      Rounds flow true source (polled ++ ⟨i, .appendFile path batch, .done⟩ :: rest) q
  | first {source after : StreamingSource} {walking : Walking}
      {polled rest : List LiveEvent} {batch : RecordBatch} {q : LiveProg (Option Fault)}
      (poll : Reaches (source.pollBatch walking) polled (.ret (.ok batch, after)))
      (some : batch.isEmpty = false) {path : String} (dest : flow.destination = .file path)
      (i j : Nat) (later : Rounds flow true after rest q) :
      Rounds flow false source (polled ++ ⟨i, .appendFile path batch, .done⟩ ::
        ⟨j, registerOutput flow path batch, ()⟩ :: rest) q

theorem liveLoop_rounds {walkings : List Walking} {q : LiveProg (Option Fault)}
    (reached : Reaches (liveLoop flow registered source walkings) own q) :
    Rounds flow registered source own q := by
  induction walkings generalizing registered source own with
  | nil =>
    cases reached with
    | here => exact .stopped registered source
  | cons walking rest ih =>
    obtain ⟨p, poll, going, rfl⟩ | ⟨⟨polled, after⟩, before, next, rfl, poll, reached⟩ :=
      reaches_bind reached
    · exact .polling poll (bind_ne_ret going none)
    · cases polled with
      | error e =>
        obtain rfl := reaches_ret reached
        cases reached with
        | here =>
          rw [List.append_nil]
          refine .polling poll fun same => ?_
          cases same
      | ok batch =>
        by_cases empty : batch.isEmpty = true
        · simp only [empty, if_true] at reached
          exact .idle poll empty (ih reached)
        · simp only [empty, Bool.false_eq_true, if_false, appendDestination] at reached
          have filled : batch.isEmpty = false := eq_false_of_ne_true empty
          cases dest : flow.destination with
          | s3 key bucket =>
            simp only [dest, Prog.bind] at reached
            cases reached with
            | here =>
              rw [List.append_nil]
              refine .polling poll fun same => ?_
              cases same
          | file path =>
            simp only [dest, Prog.bind] at reached
            cases reached with
            | here =>
              rw [List.append_nil]
              refine .polling poll fun same => ?_
              cases same
            | call i fate reached =>
              cases fate with
              | unopened e =>
                cases reached with
                | here =>
                  refine .appending poll filled dest i _ fun same => ?_
                  cases same
              | cut n e =>
                cases reached with
                | here =>
                  refine .appending poll filled dest i _ fun same => ?_
                  cases same
              | done =>
                cases registered with
                | true => exact .kept poll filled dest i (ih reached)
                | false =>
                  cases reached with
                  | here =>
                    refine .appending poll filled dest i _ fun same => ?_
                    cases same
                  | call j r reached => exact .first poll filled dest i j (ih reached)

omit [PathDisplay] in
theorem receiveRows_only (source : KafkaSource) (walking : Walking) (rows : List Row)
    (left : Nat) : Only Looks (receiveRows source walking rows left) := by
  induction left generalizing rows with
  | zero => exact trivial
  | succ left ih =>
    refine ⟨trivial, fun (received : Received) => ?_⟩
    cases received with
    | failed e => exact trivial
    | late => exact trivial
    | message payload =>
      cases found : decode payload with
      | none =>
        simp only [found]
        exact ih rows
      | some row =>
        simp only [found]
        exact ih _

def Lists : LiveOp → Prop
  | .readDir _ => True
  | .readFile _ _ => True
  | _ => False

theorem tailBatch_only (walking : Walking) (source : FileTailSource) :
    Only Lists (tailBatch walking source) := by
  refine ⟨trivial, fun (listed : Except String Directory) => ?_⟩
  cases listed with
  | error e => exact trivial
  | ok found =>
    cases next : source.nextUnseen found.entries with
    | none =>
      simp only [next]
      exact trivial
    | some file =>
      simp only [next]
      refine ⟨trivial, fun (read : Except String String) => ?_⟩
      cases read with
      | error e => exact trivial
      | ok text =>
        cases batch : readNdjsonFile walking (PathDisplay.display source.dir file.name) text with
        | error e =>
          simp only [batch]
          exact trivial
        | ok rows =>
          simp only [batch]
          exact trivial

theorem pollBatch_only (walking : Walking) (source : StreamingSource) :
    Only Looks (source.pollBatch walking) := by
  cases source with
  | tail source =>
    refine only_bind (only_mono (tailBatch_only walking source) fun o lists => ?_) fun _ => trivial
    cases o <;> trivial
  | kafka source =>
    exact only_bind (only_bind (receiveRows_only source walking [] pollLimit) fun _ => trivial)
      fun _ => trivial
  | oneShot inner => exact trivial
  | null => exact trivial

theorem poll_quiet {p : LiveProg (Result RecordBatch × StreamingSource)}
    (poll : Reaches (source.pollBatch walking) own p) : ∀ e ∈ own, Quiet e :=
  fun e mem => quiet_of_looks (reaches_only poll (pollBatch_only walking source) e mem)

end Loop

section Registration
variable [SerdeJson] [PathDisplay] {flow : Flow} {registered : Bool} {source : StreamingSource}
  {own : List LiveEvent} {q : LiveProg (Option Fault)}

/-- A flow registers its output after the first batch that it appends, under the columns of that
    batch, and never again. -/
structure Registers (flow : Flow) (own : List LiveEvent) : Prop where
  once : own.filterMap registeredIn <+:
    ((own.filterMap appendedIn).take 1).map fun a => (flow.name, a.2.schema)
  early : 1 < (own.filterMap appendedIn).length → own.filterMap registeredIn ≠ []

theorem rounds_known (rounds : Rounds flow registered source own q) (known : registered = true) :
    own.filterMap registeredIn = [] := by
  induction rounds with
  | stopped registered source => rfl
  | polling poll on => exact quiet_registered (poll_quiet poll)
  | idle poll empty later ih =>
    rw [List.filterMap_append, quiet_registered (poll_quiet poll), ih known]
    rfl
  | appending poll some dest i fate on =>
    rw [List.filterMap_append, quiet_registered (poll_quiet poll)]
    rfl
  | kept poll some dest i later ih =>
    rw [List.filterMap_append, quiet_registered (poll_quiet poll)]
    exact ih rfl
  | first poll some dest i j later ih => cases known

theorem rounds_registers (rounds : Rounds flow registered source own q)
    (fresh : registered = false) : Registers flow own := by
  induction rounds with
  | stopped registered source => exact ⟨List.prefix_refl _, fun more => absurd more (by simp)⟩
  | polling poll on =>
    have quiet := poll_quiet poll
    constructor
    · rw [quiet_registered quiet]
      exact List.nil_prefix
    · rw [quiet_appended quiet]
      exact fun more => absurd more (Nat.not_lt_zero 1)
  | idle poll empty later ih =>
    have quiet := poll_quiet poll
    constructor
    · rw [List.filterMap_append, List.filterMap_append, quiet_registered quiet,
        quiet_appended quiet]
      exact (ih fresh).once
    · rw [List.filterMap_append, List.filterMap_append, quiet_registered quiet,
        quiet_appended quiet]
      exact (ih fresh).early
  | @appending _ _ _ _ polled batch _ poll some path dest i fate on =>
    have quiet := poll_quiet poll
    have few : ((polled ++ [⟨i, .appendFile path batch, fate⟩] : List LiveEvent).filterMap
        appendedIn).length ≤ 1 := by
      rw [List.filterMap_append, quiet_appended quiet]
      exact List.length_filterMap_le _ _
    constructor
    · rw [List.filterMap_append, quiet_registered quiet]
      exact List.nil_prefix
    · exact fun more => absurd more (Nat.not_lt.mpr few)
  | kept poll some dest i later ih => cases fresh
  | @first _ _ _ polled rest batch _ poll some path dest i j later ih =>
    have quiet := poll_quiet poll
    have names : (polled ++ ⟨i, .appendFile path batch, .done⟩ ::
        ⟨j, registerOutput flow path batch, ()⟩ :: rest : List LiveEvent).filterMap registeredIn =
          [(flow.name, batch.schema)] := by
      rw [List.filterMap_append, quiet_registered quiet, List.nil_append]
      show (flow.name, batch.schema) :: rest.filterMap registeredIn = _
      rw [rounds_known later rfl]
    constructor
    · rw [names, List.filterMap_append, quiet_appended quiet]
      exact List.prefix_refl _
    · rw [names]
      exact fun _ => List.cons_ne_nil _ _

/-- What a flow appends goes to its destination, and as a whole if the flow was stopped later. -/
def AppendsTo (flow : Flow) (q : LiveProg (Option Fault)) (e : LiveEvent) : Prop :=
  ∀ path batch fate, appendOf e = some (path, batch, fate) →
    flow.destination = .file path ∧ (q = .ret none → fate = .done)

omit [PathDisplay] in
theorem quiet_appendsTo {e : LiveEvent} (quiet : Quiet e) : AppendsTo flow q e := by
  intro path batch fate appends
  cases quiet.1.symm.trans appends

omit [PathDisplay] in
theorem done_appendsTo {path : String} {batch : RecordBatch}
    (dest : flow.destination = .file path) (i : Nat) :
    AppendsTo flow q ⟨i, .appendFile path batch, .done⟩ := by
  intro p b fate appends
  cases appends
  exact ⟨dest, fun _ => rfl⟩

theorem rounds_append (rounds : Rounds flow registered source own q) :
    ∀ e ∈ own, AppendsTo flow q e := by
  induction rounds with
  | stopped registered source => exact fun e mem => absurd mem List.not_mem_nil
  | polling poll on => exact fun e mem => quiet_appendsTo (poll_quiet poll e mem)
  | idle poll empty later ih =>
    intro e mem
    rcases List.mem_append.mp mem with front | back
    · exact quiet_appendsTo (poll_quiet poll e front)
    · exact ih e back
  | appending poll some dest i fate on =>
    intro e mem
    rcases List.mem_append.mp mem with front | back
    · exact quiet_appendsTo (poll_quiet poll e front)
    · obtain rfl := List.mem_singleton.mp back
      intro p b fate appends
      cases appends
      exact ⟨dest, fun stopped => absurd stopped on⟩
  | kept poll some dest i later ih =>
    intro e mem
    rcases List.mem_append.mp mem with front | back
    · exact quiet_appendsTo (poll_quiet poll e front)
    · rcases List.mem_cons.mp back with rfl | back
      · exact done_appendsTo dest i
      · exact ih e back
  | first poll some dest i j later ih =>
    intro e mem
    rcases List.mem_append.mp mem with front | back
    · exact quiet_appendsTo (poll_quiet poll e front)
    · rcases List.mem_cons.mp back with rfl | back
      · exact done_appendsTo dest i
      · rcases List.mem_cons.mp back with rfl | back
        · intro p b fate appends
          cases appends
        · exact ih e back

end Registration

end RSparkLiveRounds
