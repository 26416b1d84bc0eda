import RSpark.LiveDelivery

/- What becomes of the events that are posted and of the files of the directories that are
   followed, from one end to the other. -/
namespace RSparkLiveEndToEnd
open RSparkValue RSparkBatch RSparkNdjson RSparkJsonWriter RSparkUnionSchema RSparkLiveAppend
open RSparkFileTail RSparkPipelineDag RSparkFlowOutput RSparkLiveFlows
open RSparkLiveRounds RSparkLiveTopics RSparkLiveTails RSparkLiveDelivery Calls

section Messages
variable [SerdeJson] {start : LiveState} {calls : List Call} {h history : List LiveEvent}
  {topic path : String}

def handedFrom (topic : String) (e : LiveEvent) : Option (Option (List UInt8)) :=
  (handedIn e).bind fun one => if one.1 = topic then some one.2 else none

def takenFrom (topic : String) (e : LiveEvent) : Option Row := (handedFrom topic e).bind decode

def acknowledgedOf (topic : String) : String × List UInt8 × SendFate → Option (Option (List UInt8))
  | (t, payload, fate) =>
    if t = topic ∧ fate.isAcknowledged = true then some (some payload) else none

def acknowledgedIn (topic : String) (e : LiveEvent) : Option (Option (List UInt8)) :=
  (sentIn e).bind (acknowledgedOf topic)

def AtLeastOnce (topic : String) (history : List LiveEvent) : Prop :=
  (history.filterMap (acknowledgedIn topic)).Subperm (history.filterMap (handedFrom topic))

/-- What was waiting and what was acknowledged is handed over, and nothing twice. -/
def JustOnce (topic : String) (waiting : List (Option (List UInt8))) (history : List LiveEvent) :
    Prop :=
  (history.filterMap (handedFrom topic)).Perm
    (waiting ++ history.filterMap (acknowledgedIn topic))

def eventsTo (topic : String) : Call → List JsonValue
  | .request t events => if t = topic then events else []
  | .flow _ _ => []

/-- The flows over the topic are those that write to the file, and the events of the topic are read
    as they were written. -/
structure OneLine (calls : List Call) (topic path : String) : Prop where
  events : ∀ c ∈ calls, ∀ ev ∈ eventsTo topic c,
    SerdeJson.fromStr (SerdeJson.toString ev) = .ok ev
  flows : ∀ live polls, .flow live polls ∈ calls → (live.flow.destination = .file path ↔
    ∃ brokers groupId, live.flow.source = .kafka topic brokers groupId)

/-- Every request to the topic was answered with nothing failed. -/
def AnsweredWell (topic : String) (calls : List Call) (p : Pool liveInterface Outcome) : Prop :=
  ∀ (i : Nat) events, calls[i]? = some (.request topic events) →
    ∃ response, p.threads[i]? = some (.ret (.answered response)) ∧ response.failed = 0

theorem taken_all (h : List LiveEvent) :
    h.filterMap (takenFrom topic) = (h.filterMap (handedFrom topic)).filterMap decode :=
  (List.filterMap_filterMap ..).symm

theorem consumes_taken {flow : Flow} {other : String} {messages : List (Option (List UInt8))}
    {polls : List Poll} {pending : List Row}
    (consumes : Consumes flow other h messages polls pending) :
    h.filterMap (takenFrom topic) =
      if other = topic then polls.flatMap Poll.rows ++ pending else [] := by
  have handed : h.filterMap (handedFrom topic) = (h.filterMap handedIn).filterMap
      fun one => if one.1 = topic then some one.2 else none :=
    (List.filterMap_filterMap ..).symm
  rw [taken_all, handed, consumes.handed, List.filterMap_map]
  by_cases same : other = topic
  · simp only [Function.comp_def, same, if_true, List.filterMap_some]
    exact consumes.taken
  · simp only [Function.comp_def, same, if_false, List.filterMap_none]
    rfl

theorem silent_taken (silent : h.filterMap handedIn = []) :
    h.filterMap (takenFrom topic) = [] := by
  have handed : h.filterMap (handedFrom topic) = (h.filterMap handedIn).filterMap
      fun one => if one.1 = topic then some one.2 else none :=
    (List.filterMap_filterMap ..).symm
  rw [taken_all, handed, silent]
  rfl

omit [SerdeJson] in
theorem respond_failed (received produced failed : Nat) :
    (respond received produced failed).failed = failed := by
  unfold respond
  split <;> rfl

theorem acknowledged_all {events : List JsonValue} {done : List (JsonValue × SendFate)}
    (all : done.map Prod.fst = events) (none : events.length - heard done = 0) :
    (done.map fun d => (topic, encode d.1, d.2)).filterMap (acknowledgedOf topic) =
      events.map fun ev => some (encode ev) := by
  have most : heard done ≤ done.length := List.countP_le_length
  have long : events.length = done.length := by rw [← all, List.length_map]
  have heardAll : ∀ d ∈ done, d.2.isAcknowledged = true :=
    List.countP_eq_length.mp (show heard done = done.length by omega)
  rw [← all, List.map_map, List.filterMap_map]
  refine (List.filterMap_congr fun d mem => ?_).trans (congrFun List.filterMap_eq_map done)
  simp only [Function.comp_apply, acknowledgedOf, heardAll d mem, and_self, if_true]

variable [PathDisplay] {p : Pool liveInterface Outcome}

theorem call_acknowledged (run : Run (livePool start calls) history p)
    (answered : AnsweredWell topic calls p) {i : Nat} {c : Call} (called : calls[i]? = some c) :
    (ownOf i history).filterMap (acknowledgedIn topic) =
      (eventsTo topic c).map fun ev => some (encode ev) := by
  have split : (ownOf i history).filterMap (acknowledgedIn topic) =
      ((ownOf i history).filterMap sentIn).filterMap (acknowledgedOf topic) :=
    (List.filterMap_filterMap ..).symm
  rw [split]
  cases c with
  | request t events =>
    obtain ⟨q, reached, ended⟩ := run_request run called
    obtain ⟨done, rest, all, sent, answer⟩ := sendAll_sent _ _ reached
    rw [sent]
    by_cases same : t = topic
    · subst same
      obtain ⟨response, there, none⟩ := answered i events called
      obtain ⟨rfl, rfl⟩ := answer response (ended response there)
      rw [respond_failed, Nat.zero_add] at none
      rw [List.append_nil] at all
      have few : events.length - heard done = 0 := by rw [all, List.length_map]; exact none
      rw [acknowledged_all all.symm few, eventsTo, if_pos rfl]
    · rw [eventsTo, if_neg same, List.map_nil, List.filterMap_map]
      refine List.filterMap_eq_nil_iff.mpr fun d _ => ?_
      simp [acknowledgedOf, same]
  | flow live polls =>
    obtain ⟨q, reached, _⟩ := run_flow run called
    have silent : (ownOf i history).filterMap sentIn = [] := by
      refine List.filterMap_eq_nil_iff.mpr fun e mem => ?_
      have sends := reaches_only reached (flow_only live.flow polls) e mem
      obtain ⟨j, o, r⟩ := e
      cases o <;> first | rfl | exact absurd trivial sends
    rw [silent]
    rfl

theorem posted_perm (run : Run (livePool start calls) history p)
    (answered : AnsweredWell topic calls p) (readable : ∀ c ∈ calls, ∀ ev ∈ eventsTo topic c,
      SerdeJson.fromStr (SerdeJson.toString ev) = .ok ev) :
    ((history.filterMap (acknowledgedIn topic)).filterMap decode).Perm
      ((calls.flatMap (eventsTo topic)).filterMap objectOf) := by
  have threads : (livePool start calls).threads.length = calls.length := List.length_map _
  have shares : (history.filterMap (acknowledgedIn topic)).Perm
      ((List.range calls.length).flatMap fun i =>
        (ownOf i history).filterMap (acknowledgedIn topic)) :=
    shares_perm (fun e mem => threads ▸ run_inside run e mem) fun _ _ => rfl
  have posted := shares.trans (flatMap_range_perm (f := fun c : Call =>
    (eventsTo topic c).map fun ev => some (encode ev)) fun i c called =>
      .of_eq (call_acknowledged run answered called))
  refine (posted.filterMap decode).trans (.of_eq ?_)
  rw [List.filterMap_flatMap, List.filterMap_flatMap]
  refine List.flatMap_congr fun c mem => ?_
  rw [List.filterMap_map]
  exact List.filterMap_congr fun ev listed => decode_encode (readable c mem ev listed)

theorem call_shares (run : Run (livePool start calls) history p)
    (one : OneLine calls topic path) (stopped : StoppedInto path calls p) {i : Nat} {c : Call}
    (called : calls[i]? = some c) : ∃ polls : List Poll,
      (ownOf i history).filterMap (appendedTo path) =
        polls.filterMap (fun poll => some poll.batch) ∧ (∀ poll ∈ polls, poll.Formed) ∧
        polls.flatMap Poll.rows = (ownOf i history).filterMap (takenFrom topic) := by
  have nothing (silent : (ownOf i history).filterMap (takenFrom topic) = [])
      (other : ∀ live polls, c = .flow live polls → live.flow.destination ≠ .file path) :
      ∃ polls : List Poll, (ownOf i history).filterMap (appendedTo path) =
        polls.filterMap (fun poll => some poll.batch) ∧ (∀ poll ∈ polls, poll.Formed) ∧
        polls.flatMap Poll.rows = (ownOf i history).filterMap (takenFrom topic) :=
    ⟨[], appends_elsewhere run called other, fun _ mem => absurd mem List.not_mem_nil, silent.symm⟩
  cases c with
  | request t events =>
    obtain ⟨q, reached, _⟩ := run_request run called
    refine nothing (silent_taken ?_) fun live polls same => by cases same
    exact List.filterMap_eq_nil_iff.mpr fun e mem =>
      (quiet_of_sends (reaches_only reached (sendAll_only ..) e mem)).2
  | flow live walkings =>
    obtain ⟨q, reached, ended⟩ := run_flow run called
    have into := one.flows live walkings (List.mem_of_getElem? called)
    by_cases topical : ∃ t brokers groupId, live.flow.source = .kafka t brokers groupId
    · obtain ⟨t, brokers, groupId, source⟩ := topical
      obtain ⟨messages, polls, pending, consumes, rest⟩ := flow_consumes source reached
      by_cases same : t = topic
      · subst same
        have dest := into.mpr ⟨brokers, groupId, source⟩
        refine ⟨polls, ?_, consumes.formed, ?_⟩
        · have appended : (ownOf i history).filterMap appendedIn =
              (polls.map Poll.batch).map fun batch => (live.flow.destination, batch) := by
            rw [consumes.appended, List.map_map]
            rfl
          exact (appended_into dest appended).trans (congrFun List.filterMap_eq_map polls).symm
        · rw [consumes_taken consumes, if_pos rfl,
            rest (ended (stopped i live walkings called dest)), List.append_nil]
      · refine nothing ?_ ?_
        · rw [consumes_taken consumes, if_neg same]
        · rintro _ _ ⟨⟩ dest
          obtain ⟨b, g, twice⟩ := into.mp dest
          rw [source] at twice
          exact same (SourceSpec.kafka.inj twice).1
    · refine nothing (silent_taken (flow_handless ?_ reached)) ?_
      · exact fun t b g source => topical ⟨t, b, g, source⟩
      · rintro _ _ ⟨⟩ dest
        obtain ⟨b, g, source⟩ := into.mp dest
        exact topical ⟨topic, b, g, source⟩

end Messages

section Files
variable [SerdeJson] {start : LiveState} {calls : List Call} {history : List LiveEvent}
  {path : String}

/-- Files are put into the directories whole and under new names, and are then left alone: at
    every step a directory holds some of what it holds in the end. -/
def Settles (env : Environment) (contents : String → Directory) : Prop :=
  ∀ n dir, ∀ file ∈ (env.directories n dir).entries, file ∈ (contents dir).entries

def filesTo (contents : String → Directory) (path : String) : Call → List Entry
  | .request _ _ => []
  | .flow live _ =>
      if live.flow.destination = .file path then
        match live.flow.source with
        | .tailDir dir => regularFiles (contents dir).entries
        | _ => []
      else []

variable {p : Pool liveInterface Outcome}

/-- Every flow into the file follows a directory, and was stopped when it had listed the directory
    as it is in the end. -/
def CaughtUp (contents : String → Directory) (path : String) (calls : List Call)
    (history : List LiveEvent) (p : Pool liveInterface Outcome) : Prop :=
  ∀ (i : Nat) live polls, calls[i]? = some (.flow live polls) →
    live.flow.destination = .file path → p.threads[i]? = some (.ret (.ended none)) ∧
      ∃ dir found, live.flow.source = .tailDir dir ∧
        (ownOf i history).getLast? = some (listing i dir found) ∧
        ∀ file ∈ (contents dir).entries, file ∈ found.entries

theorem settled_met {contents : String → Directory} (settles : Settles start.env contents)
    (met : MetOutside start history) {i : Nat} {dir : String} :
    (∀ found, listing i dir found ∈ history →
      ∀ file ∈ found.entries, file ∈ (contents dir).entries) ∧
    ∀ name text, reading i dir name text ∈ history →
      ∃ file ∈ (contents dir).entries, file.name = name ∧ file.text = text := by
  constructor
  · intro found mem file inside
    obtain ⟨k, there⟩ := List.mem_iff_getElem?.mp mem
    have answered : (.ok found : Except String Directory) =
        start.env.listing (start.steps + k) dir := met k _ there
    unfold Environment.listing at answered
    split at answered
    · cases answered
    · cases answered
      exact settles _ dir file inside
  · intro name text mem
    obtain ⟨k, there⟩ := List.mem_iff_getElem?.mp mem
    have answered : (.ok text : Except String String) =
        start.env.reading (start.steps + k) dir name := met k _ there
    unfold Environment.reading at answered
    split at answered
    · cases answered
    · rename_i file _ found
      obtain rfl := Except.ok.inj answered
      have named := List.find?_some found
      rw [decide_eq_true_eq] at named
      exact ⟨file, settles _ dir file (List.mem_of_find?_eq_some found), named, rfl⟩
    · cases answered

/-- The visits of a flow that has caught up are to the files of its directory, each once, and what
    it has read is what they hold. -/
theorem visits_perm {contents : String → Directory} (settles : Settles start.env contents)
    (met : MetOutside start history) {flow : Flow} {dir : String} {i : Nat} {visits : List Visit}
    (delivers : Delivers flow dir (ownOf i history) visits) {found : Directory}
    (complete : ∀ file ∈ (contents dir).entries, file ∈ found.entries)
    (all : AllVisited found visits) :
    (visits.map Visit.file).Perm (regularFiles (contents dir).entries) ∧
      ∀ v ∈ visits, v.text = v.file.text := by
  have past {e : LiveEvent} (own : e ∈ ownOf i history) : e ∈ history :=
    (List.mem_filter.mp own).1
  have inside : ∀ v ∈ visits, v.file ∈ (contents dir).entries := by
    intro v mem
    obtain ⟨j, listed⟩ := delivers.listed v mem
    exact (settled_met settles met).1 _ (past listed) _ (delivers.files v mem).2
  have same {a b : Entry} (left : a ∈ (contents dir).entries) (right : b ∈ (contents dir).entries)
      (named : a.name = b.name) : a = b :=
    List.inj_on_of_nodup_map (contents dir).distinct left right named
  have once : (visits.map Visit.file).Nodup := by
    rw [List.Nodup, List.pairwise_map]
    refine (List.pairwise_filterMap.mp delivers.once).imp_of_mem fun {v w} mem _ apart equal => ?_
    obtain ⟨key, utf8⟩ := Option.isSome_iff_exists.mp
      (all v.file (complete _ (inside v mem)) (delivers.files v mem).1).1
    exact apart key utf8 key (equal ▸ utf8) rfl
  have distinct : (regularFiles (contents dir).entries).Nodup :=
    (List.Nodup.of_map _ (contents dir).distinct).filter _
  constructor
  · refine (List.perm_ext_iff_of_nodup once distinct).mpr fun file => ?_
    rw [List.mem_map, regularFiles, List.mem_filter]
    constructor
    · rintro ⟨v, mem, rfl⟩
      exact ⟨inside v mem, (delivers.files v mem).1⟩
    · rintro ⟨listed, regular⟩
      obtain ⟨_, v, mem, named⟩ := all file (complete file listed) regular
      exact ⟨v, mem, same (inside v mem) listed named⟩
  · intro v mem
    obtain ⟨j, read⟩ := delivers.read v mem
    obtain ⟨file, listed, named, text⟩ := (settled_met settles met).2 _ _ (past read)
    rw [← text, same listed (inside v mem) named]

variable [PathDisplay]

theorem call_visits (run : Run (livePool start calls) history p)
    {contents : String → Directory} (settles : Settles start.env contents)
    (caughtUp : CaughtUp contents path calls history p) {i : Nat} {c : Call}
    (called : calls[i]? = some c) : ∃ visits : List Visit,
      (ownOf i history).filterMap (appendedTo path) = visits.filterMap Visit.appends ∧
        (∀ v ∈ visits, v.Formed ∧ v.text = v.file.text) ∧
        (visits.map Visit.file).Perm (filesTo contents path c) := by
  cases c with
  | request topic events =>
    refine ⟨[], appends_elsewhere run called fun live polls same => ?_,
      fun _ mem => absurd mem List.not_mem_nil, .nil⟩
    cases same
  | flow live polls =>
    by_cases dest : live.flow.destination = .file path
    · obtain ⟨stopped, dir, found, source, last, complete⟩ := caughtUp i live polls called dest
      obtain ⟨q, reached, ended⟩ := run_flow run called
      obtain ⟨visits, follows, all⟩ := flow_follows source reached
      obtain ⟨perm, texts⟩ := visits_perm settles (run_met run) (follows_delivers follows) complete
        (all (ended stopped) i found last)
      refine ⟨visits, ?_, fun v mem => ⟨follows.formed v mem, texts v mem⟩, ?_⟩
      · rw [← filled_appends]
        refine appended_into dest ?_
        rw [follows.appended, List.map_map]
        rfl
      · simp only [filesTo, dest, if_true, source]
        exact perm
    · refine ⟨[], appends_elsewhere run called ?_, fun _ mem => absurd mem List.not_mem_nil, ?_⟩
      · rintro _ _ ⟨⟩
        exact dest
      · rw [filesTo, if_neg dest]
        exact .nil

end Files

section Clicks

def clicked : JsonValue := .object [("k", .number (.posInt 1))]

def clickFlow : LiveFlow where
  flow := ⟨"clicks", .streamingTable, [], .kafka "events" "b:9092" "rspark", "", .live 500,
    .file "clicks.json"⟩
  tails := rfl

def spoolFlow : LiveFlow where
  flow := ⟨"lines", .streamingTable, [], .tailDir "spool", "", .live 500, .file "lines.json"⟩
  tails := rfl

def spooled : Directory := ⟨[lineFile [97]], by decide, by decide⟩

/-- A broker that hands the one event over at the third step, and a directory into which a file is
    put after the first. -/
def quietOutside : LiveState where
  files := fun _ => none
  session := ⟨.empty⟩
  steps := 0
  env := {
    sends := fun _ => .acknowledged
    connects := fun _ => .subscribed
    receives := fun n => if n = 2 then .message (some (@encode oneLine clicked)) else .late
    directories := fun n _ => if n = 0 then ⟨[], by decide, by decide⟩ else spooled
    listings := fun _ => none
    readings := fun _ => none
    scans := fun _ => none
    appends := fun _ => .done }

def clickCalls : List Call :=
  [.request "events" [clicked], .flow clickFlow [fun _ => asMet]]

def spoolCalls : List Call := [.flow spoolFlow [fun _ => asMet, fun _ => asMet, fun _ => asMet]]

theorem clicks_one_line : @OneLine oneLine clickCalls "events" "clicks.json" := by
  refine @OneLine.mk oneLine _ _ _ ?_ ?_
  · intro c mem ev listed
    simp only [clickCalls, List.mem_cons, List.not_mem_nil, or_false] at mem
    rcases mem with rfl | rfl
    · rw [List.mem_singleton.mp listed]
      exact if_pos rfl
    · exact absurd listed List.not_mem_nil
  · intro live polls mem
    simp only [clickCalls, List.mem_cons, Call.flow.injEq, reduceCtorEq, List.not_mem_nil,
      or_false, false_or] at mem
    obtain ⟨rfl, _⟩ := mem
    exact ⟨fun _ => ⟨"b:9092", "rspark", rfl⟩, fun _ => rfl⟩

def answeredWell : Prog (@liveInterface oneLine) Outcome → Bool
  | .ret (.answered response) => response.failed == 0
  | _ => false

def isStopped : Prog (@liveInterface oneLine) Outcome → Bool
  | .ret (.ended none) => true
  | _ => false

theorem answeredWell_eq {t : Option (Prog (@liveInterface oneLine) Outcome)}
    (well : t.any answeredWell = true) :
    ∃ response, t = some (.ret (.answered response)) ∧ response.failed = 0 := by
  obtain ⟨t, rfl, met⟩ := (Option.any_eq_true _ _).mp well
  unfold answeredWell at met
  split at met
  · rename_i response
    exact ⟨response, rfl, beq_iff_eq.mp met⟩
  · exact absurd met Bool.false_ne_true

theorem isStopped_eq {t : Option (Prog (@liveInterface oneLine) Outcome)}
    (ended : t.any isStopped = true) : t = some (.ret (.ended none)) := by
  obtain ⟨t, rfl, met⟩ := (Option.any_eq_true _ _).mp ended
  unfold isStopped at met
  split at met
  · rfl
  · exact absurd met Bool.false_ne_true

/-- The event is sent, then the flow connects, takes it, finds no other and appends it. -/
theorem clicks_run : ∃ history p,
    Run (@livePool oneLine byText quietOutside clickCalls) history p ∧
      @AnsweredWell oneLine "events" clickCalls p ∧
      @StoppedInto oneLine "clicks.json" clickCalls p ∧
      @JustOnce oneLine "events" [] history := by
  have ran : ((@livePool oneLine byText quietOutside clickCalls).schedule
      [0, 1, 1, 1, 1, 1]).any (fun r => r.2.threads[0]?.any answeredWell &&
        (r.2.threads[1]?.any isStopped && r.1.filterMap (@handedFrom oneLine "events") ==
          r.1.filterMap (@acknowledgedIn oneLine "events"))) = true := by
    decide +kernel
  obtain ⟨⟨history, p⟩, scheduled, facts⟩ := (Option.any_eq_true _ _).mp ran
  obtain ⟨answered, facts⟩ := Bool.and_eq_true_iff.mp facts
  obtain ⟨ended, once⟩ := Bool.and_eq_true_iff.mp facts
  refine ⟨history, p, run_of_schedule scheduled, fun i events called => ?_,
    fun i live polls called _ => ?_, .of_eq (beq_iff_eq.mp once)⟩
  · rcases i with _ | _ | i
    · exact answeredWell_eq answered
    · cases called
    · cases called
  · rcases i with _ | _ | i
    · cases called
    · exact isStopped_eq ended
    · cases called

deriving instance DecidableEq for Entry

def listingOf : @LiveEvent oneLine → Option (Nat × String × List Entry)
  | ⟨i, .readDir dir, listed⟩ =>
      match (listed : Except String Directory) with
      | .ok found => some (i, dir, found.entries)
      | .error _ => none
  | _ => none

theorem listingOf_eq {e : @LiveEvent oneLine} {i : Nat} {dir : String} {entries : List Entry}
    (listed : listingOf e = some (i, dir, entries)) :
    ∃ found, e = @listing oneLine i dir found ∧ found.entries = entries := by
  obtain ⟨j, o, r⟩ := e
  cases o with
  | readDir d =>
    cases r with
    | error e => cases listed
    | ok found =>
      obtain ⟨rfl, rest⟩ := Prod.mk.inj (Option.some.inj listed)
      obtain ⟨rfl, rfl⟩ := Prod.mk.inj rest
      exact ⟨found, rfl, rfl⟩
  | _ => cases listed

theorem spool_settles : Settles quietOutside.env fun _ => spooled := by
  intro n dir file listed
  have found : (quietOutside.env.directories n dir) =
      if n = 0 then ⟨[], by decide, by decide⟩ else spooled := rfl
  rw [found] at listed
  split at listed
  · exact absurd listed List.not_mem_nil
  · exact listed

/-- The flow finds nothing, then the file, which it reads, appends and registers, and at last
    nothing new. -/
theorem spool_run : ∃ history p,
    Run (@livePool oneLine byText quietOutside spoolCalls) history p ∧
      @CaughtUp oneLine (fun _ => spooled) "lines.json" spoolCalls history p := by
  have ran : ((@livePool oneLine byText quietOutside spoolCalls).schedule
      [0, 0, 0, 0, 0, 0]).any (fun r => r.2.threads[0]?.any isStopped &&
        (@ownOf _ (@liveInterface oneLine) 0 r.1).getLast?.bind listingOf ==
          some (0, "spool", [lineFile [97]])) = true := by
    decide +kernel
  obtain ⟨⟨history, p⟩, scheduled, facts⟩ := (Option.any_eq_true _ _).mp ran
  obtain ⟨ended, last⟩ := Bool.and_eq_true_iff.mp facts
  obtain ⟨e, final, listed⟩ := Option.bind_eq_some_iff.mp (beq_iff_eq.mp last)
  obtain ⟨found, rfl, entries⟩ := listingOf_eq listed
  refine ⟨history, p, run_of_schedule scheduled, fun i live polls called _ => ?_⟩
  rcases i with _ | i
  · obtain ⟨rfl, _⟩ := Call.flow.inj (Option.some.inj called)
    exact ⟨isStopped_eq ended, "spool", found, rfl, final, fun file inside => entries ▸ inside⟩
  · cases called

end Clicks

section Results
variable [SerdeJson] [PathDisplay]

/-- Whatever the broker and the disk answer: a file grows by what was appended to it, every answer
    to a request is true, and every flow over a topic appends what it was handed. -/
theorem messages_kept (start : LiveState) (calls : List Call) (history : List LiveEvent)
    (p : Pool liveInterface Outcome) (run : Run (livePool start calls) history p) :
    Kept start calls history p := by
  refine ⟨files_grown run, ?_, ?_, ?_⟩
  · intro i topic events response called there
    obtain ⟨q, reached, ended⟩ := run_request run called
    obtain ⟨done, rest, all, sent, answer⟩ := sendAll_sent _ _ reached
    obtain ⟨rfl, same⟩ := answer response (ended response there)
    rw [List.append_nil] at all
    refine ⟨done, all.symm, sent, ?_⟩
    rw [same, Nat.zero_add, Nat.zero_add, all, List.length_map]
  · intro i live polls called
    obtain ⟨q, reached, _⟩ := run_flow run called
    exact flow_registers reached
  · intro i live walkings topic brokers groupId called source
    obtain ⟨q, reached, ended⟩ := run_flow run called
    obtain ⟨messages, polls, pending, consumes, rest⟩ := flow_consumes source reached
    exact ⟨messages, polls, pending, consumes, fun there => rest (ended there)⟩

omit [SerdeJson] [PathDisplay] in
theorem click_kept : ∃ history p, @AnsweredWell oneLine "events" clickCalls p ∧
    @Kept oneLine quietOutside clickCalls history p := by
  obtain ⟨history, p, run, answered, _⟩ := clicks_run
  exact ⟨history, p, answered,
    @messages_kept oneLine byText quietOutside clickCalls history p run⟩

/-- Whatever is listed and read: each flow over a directory appends the rows of what it has read,
    no file twice and in the order of their names. -/
theorem files_followed (start : LiveState) (calls : List Call) (history : List LiveEvent)
    (p : Pool liveInterface Outcome) (run : Run (livePool start calls) history p) :
    Followed start calls history p := by
  refine ⟨files_grown run, run_met run, fun i live walkings dir called source => ?_⟩
  obtain ⟨q, reached, ended⟩ := run_flow run called
  obtain ⟨visits, follows, last⟩ := flow_follows source reached
  exact ⟨flow_registers reached, visits, follows_delivers follows, fun found there listed =>
    last (ended there) i found listed⟩

omit [SerdeJson] [PathDisplay] in
theorem spool_kept : ∃ history p,
    @CaughtUp oneLine (fun _ => spooled) "lines.json" spoolCalls history p ∧
      @Followed oneLine quietOutside spoolCalls history p := by
  obtain ⟨history, p, run, caughtUp⟩ := spool_run
  exact ⟨history, p, caughtUp,
    @files_followed oneLine byText quietOutside spoolCalls history p run⟩

/-- When the requests to the topic were answered with nothing failed and the flows over it were
    stopped, the file has grown by the objects that the flows were handed, each once; what was
    posted is among them if the broker hands over all that it acknowledges. -/
theorem events_reach_file (start : LiveState) (calls : List Call) (history : List LiveEvent)
    (p : Pool liveInterface Outcome) (run : Run (livePool start calls) history p)
    (topic path : String) (one : OneLine calls topic path)
    (answered : AnsweredWell topic calls p) (stopped : StoppedInto path calls p) :
    ∃ polls : List Poll, (∀ poll ∈ polls, poll.Formed) ∧
      (p.state.files path).getD [] =
        (start.files path).getD [] ++ polls.flatMap (fun poll => renderJson poll.batch) ∧
      (polls.flatMap Poll.rows).Perm
        ((history.filterMap (handedFrom topic)).filterMap decode) ∧
      (AtLeastOnce topic history → ((calls.flatMap (eventsTo topic)).filterMap objectOf).Subperm
        (polls.flatMap Poll.rows)) ∧
      ∀ waiting, JustOnce topic waiting history → (polls.flatMap Poll.rows).Perm
        (waiting.filterMap decode ++ (calls.flatMap (eventsTo topic)).filterMap objectOf) := by
  have threads : (livePool start calls).threads.length = calls.length := List.length_map _
  let Own (i : Nat) (_ : Call) (polls : List Poll) : Prop := (∀ poll ∈ polls, poll.Formed) ∧
    polls.flatMap Poll.rows = (ownOf i history).filterMap (takenFrom topic)
  have shares (i : Nat) (c : Call) (called : calls[i]? = some c) :=
    call_shares run one stopped called
  obtain ⟨share, polls, perm, own, grown⟩ :=
    file_shared run stopped (fun poll : Poll => some poll.batch) Own shares
  have posted := posted_perm run answered one.events
  have rows : (polls.flatMap Poll.rows).Perm
      ((history.filterMap (handedFrom topic)).filterMap decode) := by
    rw [← taken_all]
    refine (perm.flatMap_right Poll.rows).trans (.symm ?_)
    rw [List.flatMap_assoc]
    refine shares_perm (fun e mem => threads ▸ run_inside run e mem) fun i inside => ?_
    exact (own i _ (List.getElem?_eq_getElem inside)).2.symm
  refine ⟨polls, fun poll mem => ?_, ?_, rows, fun most => ?_, fun waiting once => ?_⟩
  · obtain ⟨i, inside, mine⟩ := List.mem_flatMap.mp (perm.mem_iff.mp mem)
    exact (own i _ (List.getElem?_eq_getElem (List.mem_range.mp inside))).1 poll mine
  · exact grown
  · obtain ⟨some', same, inside⟩ := most
    have among : (some'.filterMap decode).Subperm (polls.flatMap Poll.rows) :=
      (inside.filterMap decode).subperm.trans rows.symm.subperm
    exact (posted.symm.trans (same.symm.filterMap decode)).subperm.trans among
  · refine rows.trans ((once.filterMap decode).trans ?_)
    rw [List.filterMap_append]
    exact posted.append_left _

omit [SerdeJson] [PathDisplay] in
theorem click_stored : ∃ (p : Pool (@liveInterface oneLine) Outcome)
    (polls : List Poll), (∀ poll ∈ polls, @Poll.Formed oneLine poll) ∧
      (p.state.files "clicks.json").getD [] =
        polls.flatMap (fun poll => @renderJson oneLine poll.batch) ∧
      (polls.flatMap Poll.rows).Perm [[("k", .number (.posInt 1))]] := by
  obtain ⟨history, p, run, answered, stopped, once⟩ := clicks_run
  obtain ⟨polls, formed, grown, _, _, all⟩ := @events_reach_file oneLine byText quietOutside
    clickCalls history p run "events" "clicks.json" clicks_one_line answered stopped
  exact ⟨p, polls, formed, grown, all [] once⟩

/-- When every flow into the file has caught up with directories that settle, the file has grown by
    the rows of every regular file in them, each once for each flow. -/
theorem files_reach_file (start : LiveState) (calls : List Call) (history : List LiveEvent)
    (p : Pool liveInterface Outcome) (run : Run (livePool start calls) history p)
    (contents : String → Directory) (path : String) (settles : Settles start.env contents)
    (caughtUp : CaughtUp contents path calls history p) :
    ∃ visits : List Visit, (∀ v ∈ visits, v.Formed ∧ v.text = v.file.text) ∧
      (p.state.files path).getD [] =
        (start.files path).getD [] ++ visits.flatMap (fun v => renderJson v.batch) ∧
      (visits.map Visit.file).Perm (calls.flatMap (filesTo contents path)) := by
  have stopped : StoppedInto path calls p := fun i live polls called dest =>
    (caughtUp i live polls called dest).1
  obtain ⟨share, visits, perm, own, grown⟩ := file_shared run stopped Visit.appends _
    fun i c called => call_visits run settles caughtUp called
  have files : (visits.map Visit.file).Perm (calls.flatMap (filesTo contents path)) := by
    refine (perm.map Visit.file).trans ?_
    rw [List.map_flatMap]
    exact flatMap_range_perm fun i c called => (own i c called).2
  refine ⟨visits, fun v mem => ?_, ?_, files⟩
  · obtain ⟨i, inside, mine⟩ := List.mem_flatMap.mp (perm.mem_iff.mp mem)
    exact (own i _ (List.getElem?_eq_getElem (List.mem_range.mp inside))).1 v mine
  · rw [grown]
    refine congrArg _ (List.flatMap_congr fun v _ => ?_)
    unfold Visit.appends
    split
    · rename_i empty
      exact (renderJson_empty empty).symm
    · rfl

omit [SerdeJson] [PathDisplay] in
theorem spool_delivered : ∃ (p : Pool (@liveInterface oneLine) Outcome) (visits : List Visit),
    (∀ v ∈ visits, @Visit.Formed oneLine v ∧ v.text = v.file.text) ∧
      (p.state.files "lines.json").getD [] =
        visits.flatMap (fun v => @renderJson oneLine v.batch) ∧
      (visits.map Visit.file).Perm [lineFile [97]] := by
  obtain ⟨history, p, run, caughtUp⟩ := spool_run
  exact ⟨p, @files_reach_file oneLine byText quietOutside spoolCalls history p run
    (fun _ => spooled) "lines.json" spool_settles caughtUp⟩

end Results

end RSparkLiveEndToEnd
