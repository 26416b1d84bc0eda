import RSpark.Framing
import RSpark.PanicFreedom
import RSpark.Writer

/- The interactive shell. Its loop over the lines it reads is the cut of these lines into frames,
   each answered by itself. Prompts are left out. -/
namespace RSparkShell
open RSparkValue RSparkBatch RSparkExpr RSparkSqlAst RSparkPlanner RSparkExecutor RSparkApi
open RSparkFlowOutput RSparkWriter RSparkPanicFreedom RSparkOverflow RSparkCsvSource
open RSparkNdjson RSparkJsonSource RSparkWorkerPlanning RSparkMaster RSparkSqlEndpoint Framing
open CheckedRuns

section Loop

inductive Printed where
  | out (text : List Char)
  | err (text : String)

/-- The shell waits for a line with a buffer, was left, or died of a panic. -/
inductive Ending where
  | reading (buffer : List Char)
  | left
  | panicked

structure Transcript where
  printed : List Printed
  ending : Ending

def Transcript.after (printed : List Printed) (t : Transcript) : Transcript :=
  ⟨printed ++ t.printed, t.ending⟩

def trimEnd (cs : List Char) : List Char := (cs.reverse.dropWhile isWhitespace).reverse

/-- The catalog of the shell, whose names are listed in the order in which their map is walked. -/
structure Session where
  state : SessionState
  listTables : List String
  listed : listTables.Perm state.tables.keys

variable [Regex] [SqlParser] [PlanDebug] (ctx : ExecutionContext) (session : Session)

def runOne (sql : List Char) : Result (List Char) := do
  let plan ← planSql (String.ofList sql) session.state.catalog
  let batch ← execute ctx plan
  .ok (renderTable batch)

def listing : List Printed := session.listTables.map fun t => .out (t.toList ++ ['\n'])

def startRepl (buffer : List Char) : List (Except String (List Char)) → Transcript
  | [] => ⟨[], .reading buffer⟩
  | .error e :: _ => ⟨[.err s!"read error: {e}\n"], .left⟩
  | .ok line :: rest =>
      let trimmed := String.ofList (trimChars line)
      if trimmed = ":quit" ∨ trimmed = ":exit" then ⟨[], .left⟩
      -- what has been typed of a statement is dropped
      else if trimmed = ":tables" then (startRepl [] rest).after (listing session)
      else
        let buffer := buffer ++ line
        if (trimEnd buffer).getLast? ≠ some ';' then startRepl buffer rest
        else
          let stmt := trimEndSemicolons (trimChars buffer)
          if stmt.isEmpty then startRepl [] rest
          else
            match runOne ctx session stmt with
            | .ok text => (startRepl [] rest).after [.out text]
            | .error (.error e) => (startRepl [] rest).after [.err s!"error: {e.display}\n"]
            | .error (.abort _) => ⟨[], .panicked⟩

end Loop

section Frames

def leaves (line : List Char) : Bool :=
  String.ofList (trimChars line) = ":quit" ∨ String.ofList (trimChars line) = ":exit"

def asksTables (line : List Char) : Bool := String.ofList (trimChars line) = ":tables"

def heard : List (Except String (List Char)) → List (List Char) × Option (List Printed)
  | [] => ([], none)
  | .error e :: _ => ([], some [.err s!"read error: {e}\n"])
  | .ok line :: rest =>
      if leaves line then ([], some []) else (line :: (heard rest).1, (heard rest).2)

def endsStatement (text : List Char) : Bool := (trimEnd text).getLast? = some ';'

def closes (lines : List (List Char)) : Bool :=
  lines.getLast?.any asksTables || endsStatement lines.flatten

def statementOf (lines : List (List Char)) : List Char :=
  trimEndSemicolons (trimChars lines.flatten)

variable [Regex] [SqlParser] [PlanDebug] (ctx : ExecutionContext) (session : Session)

/-- What a frame is answered; nothing if it brings the shell down. -/
def answer (lines : List (List Char)) : Option (List Printed) :=
  if lines.getLast?.any asksTables then some (listing session)
  else if (statementOf lines).isEmpty then some []
  else
    match runOne ctx session (statementOf lines) with
    | .ok text => some [.out text]
    | .error (.error e) => some [.err s!"error: {e.display}\n"]
    | .error (.abort _) => none

def narrate (last : Transcript) : List (List (List Char)) → Transcript
  | [] => last
  | lines :: rest =>
      match answer ctx session lines with
      | some printed => (narrate last rest).after printed
      | none => ⟨[], .panicked⟩

def farewell (said : Option (List Printed)) (held : List (List Char)) : Transcript :=
  match said with
  | some printed => ⟨printed, .left⟩
  | none => ⟨[], .reading held.flatten⟩

end Frames

section Laws
variable {held : List (List Char)} {line : List Char}

theorem closes_concat (held : List (List Char)) (line : List Char) :
    closes (held ++ [line]) = (asksTables line || endsStatement (held.flatten ++ line)) := by
  simp [closes]

variable [Regex] [SqlParser] [PlanDebug] (ctx : ExecutionContext) (session : Session)

theorem answer_tables (asks : asksTables line = true) :
    answer ctx session (held ++ [line]) = some (listing session) := by
  simp [answer, asks]

theorem answer_statement (other : asksTables line = false) :
    answer ctx session (held ++ [line]) =
      if (statementOf (held ++ [line])).isEmpty then some []
      else
        match runOne ctx session (statementOf (held ++ [line])) with
        | .ok text => some [.out text]
        | .error (.error e) => some [.err s!"error: {e.display}\n"]
        | .error (.abort _) => none := by
  simp [answer, other]

theorem startRepl_eq (held : List (List Char)) (reads : List (Except String (List Char))) :
    startRepl ctx session held.flatten reads =
      narrate ctx session
        (farewell (heard reads).2 (feed closes held (heard reads).1).2)
        (feed closes held (heard reads).1).1 := by
  induction reads generalizing held with
  | nil => rfl
  | cons read rest ih =>
    have fresh := ih []
    rw [List.flatten_nil] at fresh
    cases read with
    | error e => rfl
    | ok line =>
      rw [startRepl, heard]
      dsimp only
      by_cases gone : leaves line = true
      · rw [if_pos gone, if_pos (by simpa [leaves] using gone)]
        rfl
      · rw [if_neg gone, if_neg (by simpa [leaves] using gone)]
        dsimp only
        rw [feed, closes_concat]
        by_cases asks : asksTables line = true
        · rw [if_pos (by simpa [asksTables] using asks), if_pos (by simp [asks]), narrate,
            answer_tables ctx session asks, fresh]
        · rw [if_neg (by simpa [asksTables] using asks)]
          have other : asksTables line = false := Bool.eq_false_iff.mpr asks
          have text : (held ++ [line]).flatten = held.flatten ++ line := by simp
          rw [other, Bool.false_or]
          by_cases ends : endsStatement (held.flatten ++ line) = true
          · rw [if_neg (by simpa [endsStatement] using ends), if_pos ends, narrate,
              answer_statement ctx session other, statementOf, text]
            split
            · rw [fresh]
              rfl
            · cases runOne ctx session (trimEndSemicolons (trimChars (held.flatten ++ line))) with
              | ok text => exact congrArg (Transcript.after [.out text]) fresh
              | error fault =>
                cases fault with
                | error e =>
                  exact congrArg (Transcript.after [.err s!"error: {e.display}\n"]) fresh
                | abort message => rfl
          · rw [if_pos (by simpa [endsStatement] using ends), if_neg ends, ← text]
            exact ih (held ++ [line])

omit [Regex] [SqlParser] [PlanDebug] in
theorem heard_append {reads : List (Except String (List Char))} (stays : (heard reads).2 = none)
    (more : List (Except String (List Char))) :
    heard (reads ++ more) = ((heard reads).1 ++ (heard more).1, (heard more).2) := by
  induction reads with
  | nil => rfl
  | cons read rest ih =>
    cases read with
    | error e => cases stays
    | ok line =>
      rw [heard] at stays
      rw [List.cons_append, heard, heard]
      split
      · rename_i gone
        rw [if_pos gone] at stays
        cases stays
      · rename_i here
        rw [if_neg here] at stays
        rw [ih stays]
        rfl

theorem narrate_append (last : Transcript) (frames more : List (List (List Char))) :
    narrate ctx session last (frames ++ more) =
      narrate ctx session (narrate ctx session last more) frames := by
  induction frames with
  | nil => rfl
  | cons lines rest ih =>
    rw [List.cons_append, narrate, narrate]
    cases answer ctx session lines with
    | some printed => exact congrArg (Transcript.after printed) ih
    | none => rfl

theorem startRepl_append {reads : List (Except String (List Char))}
    (stays : (heard reads).2 = none) (more : List (Except String (List Char))) :
    startRepl ctx session [] (reads ++ more) =
      narrate ctx session
        (startRepl ctx session (feed closes [] (heard reads).1).2.flatten more)
        (feed closes [] (heard reads).1).1 := by
  rw [startRepl_eq ctx session (feed closes [] (heard reads).1).2 more, ← narrate_append]
  have whole := startRepl_eq ctx session [] (reads ++ more)
  rw [heard_append stays, feed_append] at whole
  exact whole

/-- The end of the input is read as empty lines, which are never the last. -/
theorem idle {buffer : List Char} (openStill : endsStatement buffer = false) (n : Nat) :
    startRepl ctx session buffer (List.replicate n (.ok [])) = ⟨[], .reading buffer⟩ := by
  induction n with
  | zero => rfl
  | succ n ih =>
    rw [List.replicate_succ, startRepl]
    have none : trimChars [] = [] := rfl
    have more : (trimEnd (buffer ++ [])).getLast? ≠ some ';' := by
      rw [List.append_nil]
      exact of_decide_eq_false openStill
    dsimp only
    rw [none, if_neg (by decide), if_neg (by decide), if_pos more, List.append_nil, ih]

omit [Regex] [SqlParser] [PlanDebug] in
theorem unfinished_open {held : List (List Char)} (unfinished : Unfinished closes held) :
    endsStatement held.flatten = false := by
  by_cases empty : held = []
  · subst empty
    decide
  · have openStill := unfinished held (List.prefix_refl held) empty
    rw [closes, Bool.or_eq_false_iff] at openStill
    exact openStill.2

theorem runOne_total {ctx : ExecutionContext} (readable : Readable ctx) {sql : List Char}
    (plain : PlainText (String.ofList sql)) : Total IsAbort (runOne ctx session sql) := by
  have planned := planned_total (session_listed session.state) readable plain
  have whole : runOne ctx session sql =
      (planSql (String.ofList sql) session.state.catalog >>= execute ctx) >>=
        fun batch => .ok (renderTable batch) := (bind_assoc _ _ _).symm
  rw [whole]
  exact total_bind planned fun _ => total_ok _

theorem answer_some {ctx : ExecutionContext} (readable : Readable ctx) {lines : List (List Char)}
    (plain : PlainText (String.ofList (statementOf lines))) :
    ∃ printed, answer ctx session lines = some printed := by
  unfold answer
  split
  · exact ⟨_, rfl⟩
  · split
    · exact ⟨_, rfl⟩
    · have total := runOne_total session readable plain
      cases ran : runOne ctx session (statementOf lines) with
      | ok text => exact ⟨_, rfl⟩
      | error fault =>
        cases fault with
        | error e => exact ⟨_, rfl⟩
        | abort message => exact absurd ran (not_abort total message)

theorem narrate_survives {ctx : ExecutionContext} (readable : Readable ctx) {last : Transcript}
    (alive : last.ending ≠ .panicked) {frames : List (List (List Char))}
    (plain : ∀ lines ∈ frames, PlainText (String.ofList (statementOf lines))) :
    (narrate ctx session last frames).ending ≠ .panicked := by
  induction frames with
  | nil => exact alive
  | cons lines rest ih =>
    obtain ⟨first, later⟩ := List.forall_mem_cons.mp plain
    obtain ⟨printed, answered⟩ := answer_some session readable first
    rw [narrate, answered]
    exact ih later

omit [Regex] [SqlParser] [PlanDebug] in
theorem farewell_alive (said : Option (List Printed)) (held : List (List Char)) :
    (farewell said held).ending ≠ .panicked := by
  cases said with
  | none => exact nofun
  | some printed => exact nofun

/-- The lines that the shell hears are cut in one way into frames, each ended by the first line
    with which it asks for the tables or its text ends with a semicolon; the frames are answered
    one by one, and nothing else is. The end of the input neither ends the shell nor a frame, and
    plain statements do not bring it down. -/
theorem shell_answers_frames (reads : List (Except String (List Char))) :
    ∃ frames held, Cut closes (heard reads).1 frames held ∧
      (∀ frames' held', Cut closes (heard reads).1 frames' held' →
        frames' = frames ∧ held' = held) ∧
      startRepl ctx session [] reads =
        narrate ctx session (farewell (heard reads).2 held) frames ∧
      ((heard reads).2 = none → ∀ n,
        startRepl ctx session [] (reads ++ List.replicate n (.ok [])) =
          startRepl ctx session [] reads) ∧
      (Readable ctx → (∀ lines ∈ frames, PlainText (String.ofList (statementOf lines))) →
        (startRepl ctx session [] reads).ending ≠ .panicked) := by
  have cut : Cut closes (heard reads).1 _ _ := feed_cut unfinished_nil (heard reads).1
  have told := startRepl_eq ctx session [] reads
  rw [List.flatten_nil] at told
  refine ⟨_, _, cut, fun _ _ cut' => cut_unique cut' cut, told, fun stays n => ?_, ?_⟩
  · rw [startRepl_append ctx session stays, told,
      idle ctx session (unfinished_open cut.unfinished), stays]
    rfl
  · intro readable plain
    rw [told]
    exact narrate_survives session readable (farewell_alive _ _) plain

end Laws

section Witness

def usersSession : Session where
  state := SessionState.new.registerWithKind "users" "users.csv" "csv" usersSchema .batch
  listTables := ["users"]
  listed := by exact List.Perm.refl _

def usersContext : ExecutionContext :=
  ⟨⟨fun _ => some ⟨fun _ _ => .ok ⟨usersSchema, [⟨[.int64 7, .string "ann"]⟩]⟩⟩⟩⟩

/-- The start of a statement, an order for the tables that drops it, a statement, and the start of
    another. -/
def typed : List (Except String (List Char)) :=
  [.ok "SELECT name
".toList, .ok ":tables
".toList, .ok "SELECT id FROM users ;
".toList,
    .ok "SELECT
".toList]

/-- At the end of the input the shell waits with the new start, however often it reads. -/
theorem typed_then_nothing (n : Nat) :
    @startRepl noRegex usersParser noDebug usersContext usersSession []
      (typed ++ List.replicate n (.ok [])) =
        ⟨[.out "users\n".toList, .out "id\n--\n7 \n(1 rows)\n".toList],
          .reading "SELECT\n".toList⟩ := by
  obtain ⟨_, _, _, _, _, ended, _⟩ := @shell_answers_frames noRegex usersParser noDebug
    usersContext usersSession typed
  rw [ended (by decide) n]
  rfl

end Witness

end RSparkShell
