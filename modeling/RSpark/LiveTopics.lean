import RSpark.LiveRounds

/- A live flow over a topic: it appends the objects of the messages that it is handed. -/
namespace RSparkLiveTopics
open RSparkValue RSparkBatch RSparkNdjson RSparkJsonWriter RSparkUnionSchema RSparkLiveAppend
open RSparkFileTail RSparkPipelineDag RSparkFlowOutput RSparkLiveFlows
open RSparkLiveRounds Calls

section Consuming
variable [SerdeJson] {own : List LiveEvent}

/-- A poll that was appended: the objects it took, and the batch they became. -/
structure Poll where
  rows : List Row
  batch : RecordBatch

def Poll.Formed (poll : Poll) : Prop :=
  poll.rows ≠ [] ∧ poll.rows.length ≤ pollLimit ∧
    ∃ walked, Walks walked poll.rows ∧ poll.batch = batchOf walked

/-- The objects of the messages that a flow was handed, in their order: each in the poll that was
    appended with it, and the last ones pending. -/
structure Consumes (flow : Flow) (topic : String) (own : List LiveEvent)
    (messages : List (Option (List UInt8))) (polls : List Poll) (pending : List Row) : Prop where
  handed : own.filterMap handedIn = messages.map fun payload => (topic, payload)
  taken : messages.filterMap decode = polls.flatMap Poll.rows ++ pending
  room : pending.length ≤ pollLimit
  formed : ∀ poll ∈ polls, poll.Formed
  appended : own.filterMap appendedIn = polls.map fun poll => (flow.destination, poll.batch)

structure Took (source : KafkaSource) (left : Nat) (rows : List Row) (own : List LiveEvent)
    (p : LiveProg (List Row)) (messages : List (Option (List UInt8))) : Prop where
  handed : own.filterMap handedIn = messages.map fun payload => (source.topic, payload)
  room : (messages.filterMap decode).length ≤ left
  walked : ∀ all, p = .ret all →
    ∃ walked, all = rows ++ walked ∧ Walks walked (messages.filterMap decode)

theorem took_nothing {source : KafkaSource} {left : Nat} {rows : List Row}
    {p : LiveProg (List Row)} (nothing : own.filterMap handedIn = [])
    (same : ∀ all, p = .ret all → all = rows) : Took source left rows own p [] := by
  refine ⟨nothing, Nat.zero_le _, fun all ended => ⟨[], ?_, .nil⟩⟩
  rw [same all ended, List.append_nil]

theorem receiveRows_took (source : KafkaSource) (walking : Walking) {left : Nat}
    {rows : List Row} {p : LiveProg (List Row)}
    (reached : Reaches (receiveRows source walking rows left) own p) :
    ∃ messages, Took source left rows own p messages := by
  induction left generalizing rows own with
  | zero =>
    cases reached with
    | here => exact ⟨[], took_nothing rfl fun all same => (Prog.ret.inj same).symm⟩
  | succ left ih =>
    cases reached with
    | here =>
      refine ⟨[], took_nothing rfl fun all same => ?_⟩
      cases same
    | call i received later =>
      cases received with
      | failed e =>
        cases later with
        | here => exact ⟨[], took_nothing rfl fun all same => (Prog.ret.inj same).symm⟩
      | late =>
        cases later with
        | here => exact ⟨[], took_nothing rfl fun all same => (Prog.ret.inj same).symm⟩
      | message payload =>
        cases found : decode payload with
        | none =>
          simp only [found] at later
          obtain ⟨messages, took⟩ := ih later
          have skipped : (payload :: messages).filterMap decode = messages.filterMap decode :=
            List.filterMap_cons_none found
          refine ⟨payload :: messages, congrArg (_ :: ·) took.handed, ?_, ?_⟩
          · rw [skipped]
            exact took.room.trans (Nat.le_succ left)
          · rw [skipped]
            exact took.walked
        | some row =>
          simp only [found] at later
          obtain ⟨messages, took⟩ := ih later
          have more : (payload :: messages).filterMap decode = row :: messages.filterMap decode :=
            List.filterMap_cons_some found
          refine ⟨payload :: messages, congrArg (_ :: ·) took.handed, ?_, ?_⟩
          · rw [more]
            exact Nat.succ_le_succ took.room
          · intro all ended
            obtain ⟨walked, rfl, order⟩ := took.walked all ended
            rw [more, List.append_assoc]
            exact ⟨_, rfl, .cons ((walking rows.length).rearranges row) order⟩

/-- A poll of a topic fails never; its batch is that of the objects it was handed. -/
theorem kafka_polled {source : KafkaSource} {walking : Walking}
    {p : LiveProg (Result RecordBatch)}
    (reached : Reaches (source.pollBatch walking) own p) :
    ∃ messages : List (Option (List UInt8)),
      own.filterMap handedIn = messages.map (fun payload => (source.topic, payload)) ∧
      (messages.filterMap decode).length ≤ pollLimit ∧
      ∀ polled, p = .ret polled → ∃ batch, polled = .ok batch ∧
        (batch.isEmpty = true → messages.filterMap decode = []) ∧
        (batch.isEmpty = false → Poll.Formed ⟨messages.filterMap decode, batch⟩) := by
  obtain ⟨rows, inner, rfl⟩ := reaches_map reached
  obtain ⟨messages, took⟩ := receiveRows_took source walking inner
  refine ⟨messages, took.handed, took.room, fun polled ended => ?_⟩
  obtain ⟨all, rfl, rfl⟩ := map_eq_ret ended
  obtain ⟨walked, rfl, order⟩ := took.walked _ rfl
  have room := took.room
  generalize messages.filterMap decode = listed at order room ⊢
  cases order with
  | nil => exact ⟨.new .empty, rfl, fun _ => rfl, fun filled => by cases filled⟩
  | @cons first _ walked listed same rest =>
    refine ⟨batchOf (first :: walked), ndjsonRowsToBatch_eq _, fun empty => ?_, fun _ => ?_⟩
    · cases empty
    · exact ⟨List.cons_ne_nil _ _, room, _, .cons same rest, rfl⟩

variable [PathDisplay] {flow : Flow} {registered : Bool} {q : LiveProg (Option Fault)}

theorem kafka_round {source : KafkaSource} {walking : Walking} {batch : RecordBatch}
    {after : StreamingSource} (poll : Reaches ((StreamingSource.kafka source).pollBatch walking)
      own (.ret (.ok batch, after))) :
    after = .kafka source ∧ ∃ messages : List (Option (List UInt8)),
      own.filterMap handedIn = messages.map (fun payload => (source.topic, payload)) ∧
      (messages.filterMap decode).length ≤ pollLimit ∧
      (batch.isEmpty = true → messages.filterMap decode = []) ∧
      (batch.isEmpty = false → Poll.Formed ⟨messages.filterMap decode, batch⟩) := by
  obtain ⟨p, reached, ended⟩ := reaches_map poll
  obtain ⟨polled, rfl, both⟩ := map_eq_ret ended.symm
  obtain ⟨rfl, rfl⟩ := Prod.mk.inj both
  obtain ⟨messages, handed, room, answer⟩ := kafka_polled reached
  obtain ⟨batch', found, nothing, formed⟩ := answer _ rfl
  obtain rfl := Except.ok.inj found
  exact ⟨rfl, messages, handed, room, nothing, formed⟩

omit [PathDisplay] in
theorem handed_append {own rest : List LiveEvent} {topic : String}
    {messages more : List (Option (List UInt8))}
    (first : own.filterMap handedIn = messages.map fun payload => (topic, payload))
    (later : rest.filterMap handedIn = more.map fun payload => (topic, payload)) :
    (own ++ rest).filterMap handedIn =
      (messages ++ more).map fun payload => (topic, payload) := by
  rw [List.filterMap_append, List.map_append, first, later]

omit [PathDisplay] in
theorem consumes_nothing {topic : String} (silent : own.filterMap handedIn = [])
    (quiet : own.filterMap appendedIn = []) : Consumes flow topic own [] [] [] :=
  ⟨silent, rfl, Nat.zero_le _, fun _ mem => absurd mem List.not_mem_nil, quiet⟩

omit [PathDisplay] in
theorem consumes_cons {polled steps : List LiveEvent} (rest : List LiveEvent)
    {topic path : String} {batch : RecordBatch} {messages more : List (Option (List UInt8))}
    {polls : List Poll} {pending : List Row} (quiet : ∀ e ∈ polled, Quiet e)
    (dest : flow.destination = .file path)
    (handed : polled.filterMap handedIn = messages.map fun payload => (topic, payload))
    (formed : Poll.Formed ⟨messages.filterMap decode, batch⟩)
    (appends : steps.filterMap appendedIn = (.file path, batch) :: rest.filterMap appendedIn)
    (silent : steps.filterMap handedIn = rest.filterMap handedIn)
    (later : Consumes flow topic rest more polls pending) :
    Consumes flow topic (polled ++ steps) (messages ++ more)
      (⟨messages.filterMap decode, batch⟩ :: polls) pending := by
  refine ⟨handed_append handed (silent.trans later.handed), ?_, later.room,
    List.forall_mem_cons.mpr ⟨formed, later.formed⟩, ?_⟩
  · rw [List.filterMap_append, later.taken, List.flatMap_cons, List.append_assoc]
  · rw [List.filterMap_append, quiet_appended quiet, appends, later.appended, List.map_cons, dest]
    rfl

theorem rounds_consume {source : KafkaSource} {at_ : StreamingSource}
    (same : at_ = .kafka source) (rounds : Rounds flow registered at_ own q) :
    ∃ messages polls pending, Consumes flow source.topic own messages polls pending ∧
      (q = .ret none → pending = []) := by
  induction rounds with
  | stopped registered at_ => exact ⟨[], [], [], consumes_nothing rfl rfl, fun _ => rfl⟩
  | polling poll on =>
    subst same
    obtain ⟨p, reached, _⟩ := reaches_map poll
    obtain ⟨messages, handed, room, _⟩ := kafka_polled reached
    refine ⟨messages, [], messages.filterMap decode, ⟨handed, rfl, room, ?_, ?_⟩,
      fun stopped => absurd stopped on⟩
    · exact fun poll mem => absurd mem List.not_mem_nil
    · exact quiet_appended (poll_quiet poll)
  | idle poll empty later ih =>
    subst same
    obtain ⟨rfl, messages, handed, _, nothing, _⟩ := kafka_round poll
    obtain ⟨more, polls, pending, consumes, rest⟩ := ih rfl
    refine ⟨messages ++ more, polls, pending, ⟨handed_append handed consumes.handed, ?_,
      consumes.room, consumes.formed, ?_⟩, rest⟩
    · rw [List.filterMap_append, nothing empty]
      exact consumes.taken
    · rw [List.filterMap_append, quiet_appended (poll_quiet poll)]
      exact consumes.appended
  | appending poll some dest i fate on =>
    subst same
    obtain ⟨rfl, messages, handed, room, _, formed⟩ := kafka_round poll
    have stopped {rows : List Row} (ended : _ = Prog.ret none) : rows = [] := absurd ended on
    cases fate with
    | done =>
      exact ⟨_, _, [], consumes_cons [] (poll_quiet poll) dest handed (formed some) rfl rfl
        (consumes_nothing rfl rfl), stopped⟩
    | _ =>
      refine ⟨messages ++ [], [], messages.filterMap decode, ⟨handed_append handed rfl, ?_, room,
        fun _ mem => absurd mem List.not_mem_nil, ?_⟩, stopped⟩
      · rw [List.append_nil]
        rfl
      · rw [List.filterMap_append, quiet_appended (poll_quiet poll)]
        rfl
  | kept poll some dest i later ih =>
    subst same
    obtain ⟨rfl, messages, handed, _, _, formed⟩ := kafka_round poll
    obtain ⟨more, polls, pending, consumes, rest⟩ := ih rfl
    exact ⟨_, _, pending,
      consumes_cons _ (poll_quiet poll) dest handed (formed some) rfl rfl consumes, rest⟩
  | @first _ _ _ _ events _ _ poll some _ dest i j later ih =>
    subst same
    obtain ⟨rfl, messages, handed, _, _, formed⟩ := kafka_round poll
    obtain ⟨more, polls, pending, consumes, rest⟩ := ih rfl
    exact ⟨_, _, pending,
      consumes_cons events (poll_quiet poll) dest handed (formed some) rfl rfl consumes, rest⟩

def Handless (at_ : StreamingSource) : Prop := ∀ source, at_ ≠ .kafka source

theorem handless_poll {at_ : StreamingSource} {walking : Walking}
    {p : LiveProg (Result RecordBatch × StreamingSource)} (handless : Handless at_)
    (poll : Reaches (at_.pollBatch walking) own p) :
    own.filterMap handedIn = [] ∧ ∀ polled after, p = .ret (polled, after) → Handless after := by
  cases at_ with
  | tail source =>
    obtain ⟨p', reached, rfl⟩ := reaches_map poll
    constructor
    · refine List.filterMap_eq_nil_iff.mpr fun e mem => ?_
      have lists := reaches_only reached (tailBatch_only walking source) e mem
      obtain ⟨i, o, r⟩ := e
      cases o <;> first | rfl | exact lists.elim
    · intro polled after ended
      obtain ⟨x, _, both⟩ := map_eq_ret ended
      obtain ⟨_, rfl⟩ := Prod.mk.inj both
      exact fun source same => by cases same
  | kafka source => exact absurd rfl (handless source)
  | oneShot inner =>
    cases poll with
    | here =>
      refine ⟨rfl, fun polled after ended => ?_⟩
      cases ended
      exact fun _ same => by cases same
  | null =>
    cases poll with
    | here =>
      refine ⟨rfl, fun polled after ended => ?_⟩
      cases ended
      exact fun _ same => by cases same

theorem rounds_handless {at_ : StreamingSource} (rounds : Rounds flow registered at_ own q)
    (handless : Handless at_) : own.filterMap handedIn = [] := by
  induction rounds with
  | stopped registered at_ => rfl
  | polling poll on => exact (handless_poll handless poll).1
  | idle poll empty later ih =>
    obtain ⟨silent, next⟩ := handless_poll handless poll
    rw [List.filterMap_append, silent]
    exact ih (next _ _ rfl)
  | appending poll some dest i fate on =>
    rw [List.filterMap_append, (handless_poll handless poll).1]
    rfl
  | kept poll some dest i later ih =>
    obtain ⟨silent, next⟩ := handless_poll handless poll
    rw [List.filterMap_append, silent]
    exact ih (next _ _ rfl)
  | first poll some dest i j later ih =>
    obtain ⟨silent, next⟩ := handless_poll handless poll
    rw [List.filterMap_append, silent]
    exact ih (next _ _ rfl)

end Consuming

end RSparkLiveTopics
