import RSpark.LiveTails
import RSpark.LiveTopics

/- Requests and live flows side by side: what each of them has done in a run, and how the files have
   grown by it. -/
namespace RSparkLiveDelivery
open RSparkValue RSparkBatch RSparkNdjson RSparkJsonWriter RSparkUnionSchema RSparkLiveAppend
open RSparkFileTail RSparkPipelineDag RSparkFlowOutput RSparkLiveFlows
open RSparkLiveRounds RSparkLiveTopics RSparkLiveTails Calls

section Flows
variable [SerdeJson] [PathDisplay] {flow : Flow} {polls : List Walking} {own : List LiveEvent}
  {q : LiveProg (Option Fault)}

omit [SerdeJson] [PathDisplay] in
theorem buildSource_only [SerdeJson] (spec : SourceSpec) : Only Looks (buildSource spec) := by
  cases spec with
  | kafka topic brokers groupId =>
    refine ⟨trivial, fun (fate : ConnectFate) => ?_⟩
    cases fate <;> exact trivial
  | csv path => exact ⟨trivial, fun _ => trivial⟩
  | json path => exact ⟨trivial, fun _ => trivial⟩
  | _ => exact trivial

theorem flow_rounds (reached : Reaches (runLiveStreaming flow polls) own q) :
    (∃ p, Reaches (buildSource flow.source) own p ∧ q ≠ .ret none) ∨
      ∃ built rest source, own = built ++ rest ∧
        Reaches (buildSource flow.source) built (.ret (.ok source)) ∧
        Rounds flow false source rest q := by
  obtain ⟨p, build, going, rfl⟩ | ⟨built, before, after, rfl, build, next⟩ := reaches_bind reached
  · exact Or.inl ⟨p, build, bind_ne_ret going none⟩
  · cases built with
    | error e =>
      cases next with
      | here =>
        rw [List.append_nil]
        refine Or.inl ⟨_, build, fun same => ?_⟩
        cases same
    | ok source => exact Or.inr ⟨before, after, source, rfl, build, liveLoop_rounds next⟩

omit [PathDisplay] in
theorem build_quiet {spec : SourceSpec} {p : LiveProg (Result StreamingSource)}
    (build : Reaches (buildSource spec) own p) : ∀ e ∈ own, Quiet e :=
  fun e mem => quiet_of_looks (reaches_only build (buildSource_only spec) e mem)

theorem flow_registers (reached : Reaches (runLiveStreaming flow polls) own q) :
    Registers flow own := by
  obtain ⟨p, build, _⟩ | ⟨built, rest, source, rfl, build, rounds⟩ := flow_rounds reached
  · have quiet := build_quiet build
    constructor
    · rw [quiet_registered quiet]
      exact List.nil_prefix
    · rw [quiet_appended quiet]
      exact fun more => absurd more (Nat.not_lt_zero 1)
  · have quiet := build_quiet build
    have registers := rounds_registers rounds rfl
    constructor
    · rw [List.filterMap_append, List.filterMap_append, quiet_registered quiet,
        quiet_appended quiet]
      exact registers.once
    · rw [List.filterMap_append, List.filterMap_append, quiet_registered quiet,
        quiet_appended quiet]
      exact registers.early

theorem flow_appends (reached : Reaches (runLiveStreaming flow polls) own q) :
    ∀ e ∈ own, AppendsTo flow q e := by
  obtain ⟨p, build, _⟩ | ⟨built, rest, source, rfl, build, rounds⟩ := flow_rounds reached
  · exact fun e mem => quiet_appendsTo (build_quiet build e mem)
  · intro e mem
    rcases List.mem_append.mp mem with front | back
    · exact quiet_appendsTo (build_quiet build e front)
    · exact rounds_append rounds e back

theorem flow_consumes {topic brokers groupId : String}
    (consumes : flow.source = .kafka topic brokers groupId)
    (reached : Reaches (runLiveStreaming flow polls) own q) :
    ∃ messages polls pending, Consumes flow topic own messages polls pending ∧
      (q = .ret none → pending = []) := by
  have connecting {own : List LiveEvent} {p : LiveProg (Result StreamingSource)}
      (build : Reaches (buildSource flow.source) own p) : own.filterMap handedIn = [] ∧
        ∀ source, p = .ret (.ok source) → source = .kafka ⟨topic, brokers, groupId⟩ := by
    rw [consumes] at build
    cases build with
    | here => exact ⟨rfl, fun source same => by cases same⟩
    | call i fate next =>
      cases fate with
      | subscribed =>
        cases next with
        | here => exact ⟨rfl, fun source same => by cases same; rfl⟩
      | _ =>
        cases next with
        | here => exact ⟨rfl, fun source same => by cases same⟩
  obtain ⟨p, build, on⟩ | ⟨built, rest, source, rfl, build, rounds⟩ := flow_rounds reached
  · exact ⟨[], [], [], consumes_nothing (connecting build).1 (quiet_appended (build_quiet build)),
      fun stopped => absurd stopped on⟩
  · obtain ⟨messages, polls, pending, held, rest'⟩ :=
      rounds_consume ((connecting build).2 source rfl) rounds
    refine ⟨messages, polls, pending, ⟨?_, held.taken, held.room, held.formed, ?_⟩, rest'⟩
    · rw [List.filterMap_append, (connecting build).1]
      exact held.handed
    · rw [List.filterMap_append, quiet_appended (build_quiet build)]
      exact held.appended

theorem flow_follows {dir : String} (follows : flow.source = .tailDir dir)
    (reached : Reaches (runLiveStreaming flow polls) own q) :
    ∃ visits, Follows flow (.new dir) own visits ∧ (q = .ret none → ∀ i found,
      own.getLast? = some (listing i dir found) → AllVisited found visits) := by
  obtain ⟨p, build, on⟩ | ⟨built, rest, source, rfl, build, rounds⟩ := flow_rounds reached
  · exact ⟨[], follows_nothing (quiet_appended (build_quiet build)),
      fun stopped => absurd stopped on⟩
  · rw [follows] at build
    cases build with
    | here =>
      obtain ⟨visits, held, last⟩ := rounds_follow rfl rounds
      exact ⟨visits, held, fun stopped i found listed =>
        visited_all held.visited (last stopped i found listed)⟩

theorem flow_handless (other : ∀ topic brokers groupId, flow.source ≠ .kafka topic brokers groupId)
    (reached : Reaches (runLiveStreaming flow polls) own q) : own.filterMap handedIn = [] := by
  have building {own : List LiveEvent} {p : LiveProg (Result StreamingSource)}
      (build : Reaches (buildSource flow.source) own p) : own.filterMap handedIn = [] ∧
        ∀ source, p = .ret (.ok source) → Handless source := by
    have here {built : StreamingSource} (handless : Handless built) (source : StreamingSource)
        (same : (Prog.ret (.ok built) : LiveProg (Result StreamingSource)) = .ret (.ok source)) :
        Handless source := Except.ok.inj (Prog.ret.inj same) ▸ handless
    cases spec : flow.source with
    | kafka topic brokers groupId => exact absurd spec (other topic brokers groupId)
    | tailDir dir =>
      rw [spec] at build
      cases build with
      | here => exact ⟨rfl, here fun _ same => by cases same⟩
    | sql =>
      rw [spec] at build
      cases build with
      | here => exact ⟨rfl, here fun _ same => by cases same⟩
    | s3 key bucket =>
      rw [spec] at build
      cases build with
      | here => exact ⟨rfl, fun source same => by cases same⟩
    | _ =>
      rw [spec] at build
      cases build with
      | here => exact ⟨rfl, fun source same => by cases same⟩
      | call i inner next =>
        cases next with
        | here => exact ⟨rfl, here fun _ same => by cases same⟩
  obtain ⟨p, build, _⟩ | ⟨built, rest, source, rfl, build, rounds⟩ := flow_rounds reached
  · exact (building build).1
  · rw [List.filterMap_append, (building build).1]
    exact rounds_handless rounds ((building build).2 source rfl)

theorem flow_only (flow : Flow) (polls : List Walking) :
    Only (fun o => ¬ Sends o) (runLiveStreaming flow polls) := by
  have looks : ∀ o, Looks o → ¬ Sends o := by
    intro o looks
    cases o <;> first | exact looks.elim | exact id
  refine only_bind (only_mono (buildSource_only _) looks) fun built => ?_
  cases built with
  | error e => exact trivial
  | ok source =>
    generalize false = registered
    induction polls generalizing source registered with
    | nil => exact trivial
    | cons walking rest ih =>
      refine only_bind (only_mono (pollBatch_only walking source) looks) ?_
      rintro ⟨polled, after⟩
      cases polled with
      | error e => exact trivial
      | ok batch =>
        by_cases empty : batch.isEmpty = true
        · simp only [empty, if_true]
          exact ih after registered
        · simp only [empty, Bool.false_eq_true, if_false, appendDestination]
          cases flow.destination with
          | s3 key bucket => exact trivial
          | file path =>
            refine ⟨id, fun (fate : AppendFate) => ?_⟩
            cases fate with
            | unopened e => exact trivial
            | cut n e => exact trivial
            | done =>
              cases registered with
              | true => exact ih after true
              | false => exact ⟨id, fun _ => ih after true⟩

end Flows

section Runs

structure LiveFlow where
  flow : Flow
  tails : flow.refresh.isLive = true

inductive Call where
  | request (topic : String) (events : List JsonValue)
  | flow (live : LiveFlow) (polls : List Walking)

inductive Outcome where
  | answered (response : IngestResponse)
  | ended (fault : Option Fault)

variable [SerdeJson] [PathDisplay]

def Call.prog : Call → LiveProg Outcome
  | .request topic events => (ingest topic events).map .answered
  | .flow live polls => (runLiveStreaming live.flow polls).map .ended

def livePool (start : LiveState) (calls : List Call) : Pool liveInterface Outcome :=
  ⟨start, calls.map Call.prog⟩

variable {start : LiveState} {calls : List Call} {history : List LiveEvent}
  {p : Pool liveInterface Outcome}

omit [PathDisplay] in
theorem exec_files (path : String) (i : Nat) (o : LiveOp) (s : LiveState) :
    ((o.exec s).1.files path).getD [] =
      (s.files path).getD [] ++ writtenTo path ⟨i, o, (o.exec s).2⟩ := by
  cases o with
  | appendFile p batch =>
    show ((s.append p batch).files path).getD [] = _ ++ if p = path then _ else []
    have grown (text : List UInt8) : ((s.write p text).files path).getD [] =
        (s.files path).getD [] ++ if p = path then text else [] := by
      show (Function.update s.files p _ path).getD [] = _
      by_cases same : p = path
      · subst same
        rw [if_pos rfl, Function.update_self]
        rfl
      · rw [if_neg same, Function.update_of_ne (Ne.symm same), List.append_nil]
    show _ = _ ++ if p = path then written batch (s.env.appends s.steps) else []
    unfold LiveState.append
    cases fate : s.env.appends s.steps with
    | unopened e =>
      show (s.files path).getD [] = _ ++ if p = path then [] else []
      rw [ite_self, List.append_nil]
    | done => exact grown _
    | cut n e => exact grown _
  | _ => exact (List.append_nil _).symm

theorem files_grown (run : Run (livePool start calls) history p) (path : String) :
    (p.state.files path).getD [] =
      (start.files path).getD [] ++ history.flatMap (writtenTo path) :=
  run_grows (m := fun s : LiveState => (s.files path).getD []) (exec_files path) run

def MetOutside (start : LiveState) (history : List LiveEvent) : Prop :=
  ∀ (k : Nat) (e : LiveEvent), history[k]? = some e →
    e.resp = start.env.answer (start.steps + k) e.op

omit [PathDisplay] in
theorem exec_env (o : LiveOp) (s : LiveState) :
    (o.exec s).1.env = s.env ∧ (o.exec s).1.steps = s.steps + 1 := by
  refine ⟨?_, rfl⟩
  cases o with
  | appendFile path batch =>
    show (s.append path batch).env = s.env
    unfold LiveState.append
    split <;> rfl
  | _ => rfl

theorem run_met (run : Run (livePool start calls) history p) : MetOutside start history := by
  have counted : p.state.env = start.env ∧ p.state.steps = start.steps + history.length ∧
      MetOutside start history := by
    induction run with
    | nil => exact ⟨rfl, rfl, fun k e here => by cases here⟩
    | @step history p i o k before next ih =>
      obtain ⟨env, steps, met⟩ := ih
      refine ⟨(exec_env o p.state).1.trans env, ?_, fun k e here => ?_⟩
      · rw [List.length_append, ← Nat.add_assoc, ← steps]
        rfl
      · rw [List.getElem?_append] at here
        split at here
        · exact met k e here
        · rename_i outside
          have last : k = history.length := by
            obtain ⟨bound, _⟩ := List.getElem?_eq_some_iff.mp here
            rw [List.length_singleton] at bound
            omega
          rw [last, Nat.sub_self] at here
          obtain rfl := Option.some.inj here
          show p.state.env.answer p.state.steps o = _
          rw [env, steps, last]
  exact counted.2.2

theorem run_call (run : Run (livePool start calls) history p) {i : Nat} {c : Call}
    (called : calls[i]? = some c) :
    ∃ q, p.threads[i]? = some q ∧ Reaches c.prog (ownOf i history) q := by
  have here : (livePool start calls).threads[i]? = some c.prog := by
    show (calls.map Call.prog)[i]? = _
    rw [List.getElem?_map, called]
    rfl
  exact run_own run here

theorem run_flow (run : Run (livePool start calls) history p) {i : Nat} {live : LiveFlow}
    {polls : List Walking} (called : calls[i]? = some (.flow live polls)) :
    ∃ q, Reaches (runLiveStreaming live.flow polls) (ownOf i history) q ∧
      (p.threads[i]? = some (.ret (.ended none)) → q = .ret none) := by
  obtain ⟨q, there, reached⟩ := run_call run called
  obtain ⟨q', inner, rfl⟩ := reaches_map reached
  refine ⟨q', inner, fun ended => ?_⟩
  obtain ⟨x, rfl, same⟩ := map_eq_ret (Option.some.inj (there.symm.trans ended))
  rw [Outcome.ended.inj same]

theorem run_request (run : Run (livePool start calls) history p) {i : Nat} {topic : String}
    {events : List JsonValue} (called : calls[i]? = some (.request topic events)) :
    ∃ q, Reaches (ingest topic events) (ownOf i history) q ∧
      ∀ response, p.threads[i]? = some (.ret (.answered response)) → q = .ret response := by
  obtain ⟨q, there, reached⟩ := run_call run called
  obtain ⟨q', inner, rfl⟩ := reaches_map reached
  refine ⟨q', inner, fun response ended => ?_⟩
  obtain ⟨x, rfl, same⟩ := map_eq_ret (Option.some.inj (there.symm.trans ended))
  rw [Outcome.answered.inj same]

/-- The answer to a request says what became of each of its events, which were sent in order. -/
def AnswersTruly (history : List LiveEvent) (i : Nat) (topic : String)
    (events : List JsonValue) (response : IngestResponse) : Prop :=
  ∃ done : List (JsonValue × SendFate), done.map Prod.fst = events ∧
    (ownOf i history).filterMap sentIn = done.map (fun d => (topic, encode d.1, d.2)) ∧
    response = respond events.length (heard done) (events.length - heard done)

structure Kept (start : LiveState) (calls : List Call) (history : List LiveEvent)
    (p : Pool liveInterface Outcome) : Prop where
  files : ∀ path, (p.state.files path).getD [] =
    (start.files path).getD [] ++ history.flatMap (writtenTo path)
  answers : ∀ (i : Nat) topic events response, calls[i]? = some (.request topic events) →
    p.threads[i]? = some (.ret (.answered response)) →
    AnswersTruly history i topic events response
  registers : ∀ (i : Nat) live polls, calls[i]? = some (.flow live polls) →
    Registers live.flow (ownOf i history)
  flows : ∀ (i : Nat) live walkings topic brokers groupId,
    calls[i]? = some (.flow live walkings) → live.flow.source = .kafka topic brokers groupId →
    ∃ messages polls pending, Consumes live.flow topic (ownOf i history) messages polls pending ∧
      (p.threads[i]? = some (.ret (.ended none)) → pending = [])

/-- The visits of a flow: each to a regular file of a directory that it was listed, in their order,
    and to no file with a UTF-8 name twice. The batches of what it read there, where they have rows,
    are what the flow has appended. -/
structure Delivers (flow : Flow) (dir : String) (own : List LiveEvent) (visits : List Visit) :
    Prop where
  files : ∀ v ∈ visits, v.file.isFile = true ∧ v.file ∈ v.found.entries
  listed : ∀ v ∈ visits, ∃ i, listing i dir v.found ∈ own
  read : ∀ v ∈ visits, ∃ i, reading i dir v.file.name v.text ∈ own
  once : (visits.filterMap fun v => toStr v.file.name).Nodup
  ordered : InOrder visits
  formed : ∀ v ∈ visits, v.Formed
  appended : own.filterMap appendedIn = (filled visits).map fun v => (flow.destination, v.batch)

structure Followed (start : LiveState) (calls : List Call) (history : List LiveEvent)
    (p : Pool liveInterface Outcome) : Prop where
  files : ∀ path, (p.state.files path).getD [] =
    (start.files path).getD [] ++ history.flatMap (writtenTo path)
  met : MetOutside start history
  flows : ∀ (i : Nat) live walkings dir, calls[i]? = some (.flow live walkings) →
    live.flow.source = .tailDir dir → Registers live.flow (ownOf i history) ∧
    ∃ visits, Delivers live.flow dir (ownOf i history) visits ∧
      ∀ found, p.threads[i]? = some (.ret (.ended none)) →
        (ownOf i history).getLast? = some (listing i dir found) → AllVisited found visits

omit [PathDisplay] in
theorem follows_delivers {flow : Flow} {dir : String} {own : List LiveEvent}
    {visits : List Visit} (follows : Follows flow (.new dir) own visits) :
    Delivers flow dir own visits :=
  ⟨visited_listed follows.visited, follows.listed, follows.read, visited_once follows.visited,
    visited_inOrder follows.visited, follows.formed, follows.appended⟩

end Runs

section Delivery
variable [SerdeJson] {start : LiveState} {calls : List Call} {h history : List LiveEvent}
  {path : String}

omit [SerdeJson] in
theorem toList_loop (bytes : ByteArray) (i : Nat) (front : List UInt8) :
    ByteArray.toList.loop bytes i front = front.reverse ++ bytes.data.toList.drop i := by
  fun_induction ByteArray.toList.loop bytes i front with
  | case1 i front inside ih =>
    have bound : i < bytes.data.toList.length := inside
    have first : bytes.get! i = bytes.data.toList[i] := by
      show bytes.data[i]! = bytes.data.toList[i]
      rw [getElem!_pos bytes.data i inside]
      rfl
    rw [ih, List.drop_eq_getElem_cons bound, List.reverse_cons, List.append_assoc,
      List.singleton_append, first]
  | case2 i front outside =>
    have past : bytes.data.toList.length ≤ i := Nat.le_of_not_lt outside
    rw [List.drop_of_length_le past, List.append_nil]

omit [SerdeJson] in
theorem toStr_utf8 (text : String) : RSparkFileTail.toStr (utf8 text) = some text := by
  have bytes : (⟨(utf8 text).toArray⟩ : ByteArray) = text.toByteArray := by
    rw [utf8, ByteArray.toList, toList_loop]
    rfl
  unfold RSparkFileTail.toStr String.fromUTF8?
  rw [bytes, dif_pos text.isValidUTF8]
  rfl

def objectOf : JsonValue → Option Row
  | .object members => some members
  | _ => none

theorem decode_encode {ev : JsonValue}
    (readable : SerdeJson.fromStr (SerdeJson.toString ev) = .ok ev) :
    decode (some (encode ev)) = objectOf ev := by
  rw [decode, Option.bind_some, encode, toStr_utf8]
  simp only [readable]
  cases ev <;> rfl

def appendedTo (path : String) (e : LiveEvent) : Option RecordBatch :=
  (appendedIn e).bind fun one => if one.1 = .file path then some one.2 else none

/-- An append to the file that was not cut short. -/
def WholeTo (path : String) (e : LiveEvent) : Prop :=
  ∀ batch fate, appendOf e = some (path, batch, fate) → fate = .done

theorem written_whole (whole : ∀ e ∈ h, WholeTo path e) :
    h.flatMap (writtenTo path) = (h.filterMap (appendedTo path)).flatMap renderJson := by
  induction h with
  | nil => rfl
  | cons e rest ih =>
    have one : writtenTo path e = (appendedTo path e).toList.flatMap renderJson := by
      unfold writtenTo appendedTo appendedIn
      cases appends : appendOf e with
      | none => rfl
      | some append =>
        obtain ⟨p, batch, fate⟩ := append
        by_cases same : p = path
        · subst same
          obtain rfl := whole e List.mem_cons_self batch fate appends
          simp [written]
        · have other : Destination.file p ≠ .file path := fun equal =>
            same (Destination.file.inj equal)
          cases fate <;> simp [same, other]
    have split : (e :: rest).filterMap (appendedTo path) =
        (appendedTo path e).toList ++ rest.filterMap (appendedTo path) := by
      cases found : appendedTo path e <;> simp [found]
    rw [List.flatMap_cons, one, split, List.flatMap_append,
      ih fun e mem => whole e (List.mem_cons_of_mem _ mem)]

variable [PathDisplay] {p : Pool liveInterface Outcome}

def StoppedInto (path : String) (calls : List Call) (p : Pool liveInterface Outcome) : Prop :=
  ∀ (i : Nat) live polls, calls[i]? = some (.flow live polls) →
    live.flow.destination = .file path → p.threads[i]? = some (.ret (.ended none))

theorem called_of_event (run : Run (livePool start calls) history p) {e : LiveEvent}
    (mem : e ∈ history) : ∃ c, calls[e.thread]? = some c ∧ e ∈ ownOf e.thread history := by
  have inside := run_inside run e mem
  rw [show (livePool start calls).threads.length = calls.length from List.length_map _] at inside
  exact ⟨_, List.getElem?_eq_getElem inside, List.mem_filter.mpr ⟨mem, decide_eq_true rfl⟩⟩

theorem run_whole (run : Run (livePool start calls) history p)
    (stopped : StoppedInto path calls p) : ∀ e ∈ history, WholeTo path e := by
  intro e mem batch fate appends
  obtain ⟨c, called, own⟩ := called_of_event run mem
  cases c with
  | request topic events =>
    obtain ⟨q, reached, _⟩ := run_request run called
    have quiet := (quiet_of_sends (reaches_only reached (sendAll_only ..) e own)).1
    cases quiet.1.symm.trans appends
  | flow live polls =>
    obtain ⟨q, reached, ended⟩ := run_flow run called
    obtain ⟨dest, done⟩ := flow_appends reached e own path batch fate appends
    exact done (ended (stopped _ live polls called dest))

theorem file_shared {β : Type} (run : Run (livePool start calls) history p)
    (stopped : StoppedInto path calls p) (toBatch : β → Option RecordBatch)
    (Own : Nat → Call → List β → Prop)
    (each : ∀ i c, calls[i]? = some c → ∃ share : List β,
      (ownOf i history).filterMap (appendedTo path) = share.filterMap toBatch ∧ Own i c share) :
    ∃ (share : Nat → List β) (all : List β),
      all.Perm ((List.range calls.length).flatMap share) ∧
      (∀ i c, calls[i]? = some c → Own i c (share i)) ∧ (p.state.files path).getD [] =
        (start.files path).getD [] ++ all.flatMap fun b => (toBatch b).elim [] renderJson := by
  have threads : (livePool start calls).threads.length = calls.length := List.length_map _
  have choice (i : Nat) : ∃ share : List β, ∀ c, calls[i]? = some c →
      (ownOf i history).filterMap (appendedTo path) = share.filterMap toBatch ∧
        Own i c share := by
    cases called : calls[i]? with
    | none => exact ⟨[], fun c same => by cases same⟩
    | some c =>
      obtain ⟨share, own⟩ := each i c called
      exact ⟨share, fun c' same => by cases same; exact own⟩
  choose share own using choice
  have drawn : (history.filterMap (appendedTo path)).Perm
      (((List.range calls.length).flatMap share).filterMap toBatch) := by
    rw [List.filterMap_flatMap]
    refine shares_perm (fun e mem => threads ▸ run_inside run e mem) fun i inside => ?_
    exact (own i _ (List.getElem?_eq_getElem inside)).1
  obtain ⟨all, perm, batches⟩ := perm_of_filterMap drawn
  refine ⟨share, all, perm, fun i c called => (own i c called).2, ?_⟩
  have lines (l : List β) : (l.filterMap toBatch).flatMap renderJson =
      l.flatMap fun b => (toBatch b).elim [] renderJson := by
    induction l with
    | nil => rfl
    | cons b l ih =>
      rw [List.filterMap_cons, List.flatMap_cons, ← ih]
      cases toBatch b <;> rfl
  rw [files_grown run path, written_whole (run_whole run stopped), ← batches, lines]

theorem appends_elsewhere (run : Run (livePool start calls) history p) {i : Nat} {c : Call}
    (called : calls[i]? = some c)
    (other : ∀ live polls, c = .flow live polls → live.flow.destination ≠ .file path) :
    (ownOf i history).filterMap (appendedTo path) = [] := by
  refine List.filterMap_eq_nil_iff.mpr fun e mem => ?_
  unfold appendedTo appendedIn
  cases appends : appendOf e with
  | none => rfl
  | some append =>
    obtain ⟨p, batch, fate⟩ := append
    cases c with
    | request topic events =>
      obtain ⟨q, reached, _⟩ := run_request run called
      have quiet := (quiet_of_sends (reaches_only reached (sendAll_only ..) e mem)).1
      cases quiet.1.symm.trans appends
    | flow live polls =>
      obtain ⟨q, reached, _⟩ := run_flow run called
      obtain ⟨dest, _⟩ := flow_appends reached e mem p batch fate appends
      have apart : Destination.file p ≠ .file path := dest ▸ other live polls rfl
      cases fate <;> simp [apart]

omit [PathDisplay] in
theorem appended_into {flow : Flow} {own : List LiveEvent}
    {batches : List RecordBatch} (dest : flow.destination = .file path)
    (appended : own.filterMap appendedIn = batches.map fun batch => (flow.destination, batch)) :
    own.filterMap (appendedTo path) = batches := by
  have split : own.filterMap (appendedTo path) = (own.filterMap appendedIn).filterMap
      fun one => if one.1 = .file path then some one.2 else none :=
    (List.filterMap_filterMap ..).symm
  rw [split, appended, List.filterMap_map]
  simp only [Function.comp_def, dest, if_true]
  exact List.filterMap_some

end Delivery

end RSparkLiveDelivery
