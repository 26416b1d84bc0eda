import RSpark.LiveRounds

/- A live flow over a directory: the files that it visits, each chosen from a listing, and the rows
   that it reads there and appends. -/
namespace RSparkLiveTails
open RSparkValue RSparkBatch RSparkNdjson RSparkJsonWriter RSparkUnionSchema RSparkLiveAppend
open RSparkFileTail RSparkPipelineDag RSparkFlowOutput RSparkLiveFlows
open RSparkLiveRounds Calls

section Following

/-- A file that was read: the directory it was chosen from, its text and the batch its rows
    became. -/
structure Visit where
  found : Directory
  file : Entry
  text : String
  batch : RecordBatch

/-- Each visit is to the file that the source chooses after the visits before it. -/
def Visited (source : FileTailSource) : List Visit → Prop
  | [] => True
  | v :: rest => source.nextUnseen v.found.entries = some v.file ∧
      Visited (source.note v.file.name) rest

def sourceAfter (source : FileTailSource) (visits : List Visit) : FileTailSource :=
  visits.foldl (fun source v => source.note v.file.name) source

def filled (visits : List Visit) : List Visit := visits.filter fun v => !v.batch.isEmpty

def InOrder (visits : List Visit) : Prop :=
  visits.Pairwise fun v w => w.file ∈ v.found.entries → sortsBefore v.file.name w.file.name = true

def keyOf (file : Entry) : String := (toStr file.name).getD ""

variable {source : FileTailSource} {visits : List Visit}

theorem note_dir (source : FileTailSource) (name : OsString) :
    (source.note name).dir = source.dir := by
  unfold FileTailSource.note
  split <;> rfl

theorem mem_seen {key : String} : key ∈ (sourceAfter source visits).seen ↔
    key ∈ source.seen ∨ ∃ v ∈ visits, toStr v.file.name = some key := by
  induction visits generalizing source with
  | nil => exact ⟨Or.inl, fun seen => seen.elim id fun ⟨_, mem, _⟩ => absurd mem List.not_mem_nil⟩
  | cons v rest ih =>
    show key ∈ (sourceAfter (source.note v.file.name) rest).seen ↔ _
    rw [ih, mem_note, List.exists_mem_cons_iff, or_comm (b := key ∈ source.seen), or_assoc]

theorem nextUnseen_cases {entries : List Entry} {first : Entry}
    (found : source.nextUnseen entries = some first) :
    first ∈ entries ∧ first.isFile = true ∧ keyOf first ∉ source.seen ∧
      ∀ other ∈ entries, other.isFile = true → keyOf other ∉ source.seen →
        sortsBefore first.name other.name = true := by
  obtain ⟨present, regular⟩ := mem_sortedFiles.mp (List.mem_of_find?_eq_some found)
  have unseen := List.find?_some found
  rw [decide_eq_true_eq] at unseen
  refine ⟨present, regular, unseen, fun other mem file open' => ?_⟩
  rcases Listing.find_least (sortedFiles_sorted entries) found other
    (mem_sortedFiles.mpr ⟨mem, file⟩) (decide_eq_true open') with rfl | before
  · simpa using sortsBefore_total other.name other.name
  · exact before

theorem nextUnseen_none {entries : List Entry} (none : source.nextUnseen entries = none)
    {file : Entry} (listed : file ∈ entries) (regular : file.isFile = true) :
    keyOf file ∈ source.seen := by
  have passed := List.find?_eq_none.mp none file (mem_sortedFiles.mpr ⟨listed, regular⟩)
  exact not_not.mp fun unseen => passed (decide_eq_true unseen)

theorem visited_listed (visited : Visited source visits) :
    ∀ v ∈ visits, v.file.isFile = true ∧ v.file ∈ v.found.entries := by
  induction visits generalizing source with
  | nil => exact fun v mem => absurd mem List.not_mem_nil
  | cons v rest ih =>
    obtain ⟨listed, regular, _⟩ := nextUnseen_cases visited.1
    exact List.forall_mem_cons.mpr ⟨⟨regular, listed⟩, ih visited.2⟩

theorem visited_unseen (visited : Visited source visits) :
    ∀ v ∈ visits, keyOf v.file ∉ source.seen := by
  induction visits generalizing source with
  | nil => exact fun v mem => absurd mem List.not_mem_nil
  | cons v rest ih =>
    refine List.forall_mem_cons.mpr ⟨(nextUnseen_cases visited.1).2.2.1, fun w mem seen => ?_⟩
    exact ih visited.2 w mem (mem_note.mpr (Or.inr seen))

theorem visited_once (visited : Visited source visits) :
    (visits.filterMap fun v => toStr v.file.name).Nodup := by
  induction visits generalizing source with
  | nil => exact List.nodup_nil
  | cons v rest ih =>
    cases named : toStr v.file.name with
    | none =>
      simp only [List.filterMap_cons, named]
      exact ih visited.2
    | some key =>
      simp only [List.filterMap_cons, named]
      refine List.nodup_cons.mpr ⟨fun again => ?_, ih visited.2⟩
      obtain ⟨w, mem, same⟩ := List.mem_filterMap.mp again
      refine visited_unseen visited.2 w mem (mem_note.mpr (Or.inl ?_))
      rw [keyOf, same, named]
      rfl

theorem visited_inOrder (visited : Visited source visits) : InOrder visits := by
  induction visits generalizing source with
  | nil => exact .nil
  | cons v rest ih =>
    refine List.pairwise_cons.mpr ⟨fun w mem listed => ?_, ih visited.2⟩
    obtain ⟨_, _, _, least⟩ := nextUnseen_cases visited.1
    refine least w.file listed (visited_listed visited.2 w mem).1 fun seen => ?_
    exact visited_unseen visited.2 w mem (mem_note.mpr (Or.inr seen))

def AllVisited (found : Directory) (visits : List Visit) : Prop :=
  ∀ file ∈ found.entries, file.isFile = true →
    (toStr file.name).isSome = true ∧ ∃ v ∈ visits, v.file.name = file.name

theorem visited_all {dir : String} (visited : Visited (FileTailSource.new dir) visits)
    {found : Directory}
    (none : (sourceAfter (FileTailSource.new dir) visits).nextUnseen found.entries = none) :
    AllVisited found visits := by
  intro file listed regular
  obtain ⟨v, mem, same⟩ : ∃ v ∈ visits, toStr v.file.name = some (keyOf file) :=
    (mem_seen.mp (nextUnseen_none none listed regular)).resolve_left List.not_mem_nil
  cases utf8 : toStr file.name with
  | none =>
    rw [keyOf, utf8, Option.getD_none] at same
    have named := v.found.named v.file (visited_listed visited v mem).2
    exact absurd same (toStr_ne_empty named)
  | some key =>
    rw [keyOf, utf8, Option.getD_some] at same
    exact ⟨rfl, v, mem, toStr_inj same utf8⟩

def Visit.appends (v : Visit) : Option RecordBatch :=
  if v.batch.isEmpty = true then none else some v.batch

theorem filled_appends (visits : List Visit) :
    (filled visits).map Visit.batch = visits.filterMap Visit.appends := by
  induction visits with
  | nil => rfl
  | cons v rest ih =>
    rw [List.filterMap_cons, ← ih, filled, Visit.appends]
    cases empty : v.batch.isEmpty <;> simp [filled, empty]

variable [SerdeJson]

def Visit.Formed (v : Visit) : Prop :=
  ∃ walked, Walks walked (objectsIn v.text) ∧ v.batch = batchOf walked

/-- A flow over a directory: the files that it has visited, and their batches appended where they
    have rows. -/
structure Follows (flow : Flow) (source : FileTailSource) (own : List LiveEvent)
    (visits : List Visit) : Prop where
  visited : Visited source visits
  listed : ∀ v ∈ visits, ∃ i, listing i source.dir v.found ∈ own
  read : ∀ v ∈ visits, ∃ i, reading i source.dir v.file.name v.text ∈ own
  formed : ∀ v ∈ visits, v.Formed
  appended : own.filterMap appendedIn = (filled visits).map fun v => (flow.destination, v.batch)

theorem follows_nothing {flow : Flow} {own : List LiveEvent}
    (quiet : own.filterMap appendedIn = []) : Follows flow source own [] :=
  ⟨trivial, fun _ mem => absurd mem List.not_mem_nil, fun _ mem => absurd mem List.not_mem_nil,
    fun _ mem => absurd mem List.not_mem_nil, quiet⟩

theorem follows_nil {flow : Flow} (follows : Follows flow source [] visits) : visits = [] := by
  refine List.eq_nil_iff_forall_not_mem.mpr fun v mem => ?_
  obtain ⟨i, listed⟩ := follows.listed v mem
  exact List.not_mem_nil listed

theorem follows_later {flow : Flow} {front rest : List LiveEvent}
    (quiet : front.filterMap appendedIn = []) (later : Follows flow source rest visits) :
    Follows flow source (front ++ rest) visits := by
  refine ⟨later.visited, fun v mem => ?_, fun v mem => ?_, later.formed, ?_⟩
  · obtain ⟨i, listed⟩ := later.listed v mem
    exact ⟨i, List.mem_append_right _ listed⟩
  · obtain ⟨i, read⟩ := later.read v mem
    exact ⟨i, List.mem_append_right _ read⟩
  · rw [List.filterMap_append, quiet]
    exact later.appended

theorem follows_cons {flow : Flow} {v : Visit} {front rest : List LiveEvent} {i j : Nat}
    (next : source.nextUnseen v.found.entries = some v.file)
    (listed : listing i source.dir v.found ∈ front)
    (read : reading j source.dir v.file.name v.text ∈ front) (formed : v.Formed)
    (appends : front.filterMap appendedIn = if v.batch.isEmpty = true then [] else
      [(flow.destination, v.batch)])
    (later : Follows flow (source.note v.file.name) rest visits) :
    Follows flow source (front ++ rest) (v :: visits) := by
  have dir := note_dir source v.file.name
  refine ⟨⟨next, later.visited⟩, List.forall_mem_cons.mpr ⟨⟨i, ?_⟩, fun w mem => ?_⟩,
    List.forall_mem_cons.mpr ⟨⟨j, ?_⟩, fun w mem => ?_⟩,
    List.forall_mem_cons.mpr ⟨formed, later.formed⟩, ?_⟩
  · exact List.mem_append_left _ listed
  · obtain ⟨k, listed⟩ := later.listed w mem
    rw [dir] at listed
    exact ⟨k, List.mem_append_right _ listed⟩
  · exact List.mem_append_left _ read
  · obtain ⟨k, read⟩ := later.read w mem
    rw [dir] at read
    exact ⟨k, List.mem_append_right _ read⟩
  · rw [List.filterMap_append, appends, later.appended, filled, filled]
    cases empty : v.batch.isEmpty <;> simp [empty]

omit [SerdeJson] in
theorem last_cases {α : Type} {front rest : List α} {e : α}
    (last : (front ++ rest).getLast? = some e) :
    rest.getLast? = some e ∨ (rest = [] ∧ front.getLast? = some e) := by
  rw [List.getLast?_append] at last
  cases back : rest.getLast? with
  | none =>
    rw [back] at last
    exact Or.inr ⟨List.getLast?_eq_none_iff.mp back, last⟩
  | some e' =>
    rw [back] at last
    exact Or.inl last

variable [PathDisplay]

theorem tail_round {walking : Walking} {batch : RecordBatch} {after : StreamingSource}
    {own : List LiveEvent} (poll : Reaches ((StreamingSource.tail source).pollBatch walking) own
      (.ret (.ok batch, after))) :
    (∃ i found, own = [listing i source.dir found] ∧ batch.isEmpty = true ∧
        after = .tail source ∧ source.nextUnseen found.entries = none) ∨
      ∃ (v : Visit) (i j : Nat), listing i source.dir v.found ∈ own ∧
        reading j source.dir v.file.name v.text ∈ own ∧
        (∀ k found, own.getLast? ≠ some (listing k source.dir found)) ∧ batch = v.batch ∧
        after = .tail (source.note v.file.name) ∧
        source.nextUnseen v.found.entries = some v.file ∧ v.Formed := by
  obtain ⟨p, reached, ended⟩ := reaches_map poll
  obtain ⟨⟨polled, source'⟩, rfl, both⟩ := map_eq_ret ended.symm
  obtain ⟨rfl, rfl⟩ := Prod.mk.inj both
  cases reached with
  | call i listed reached =>
    cases listed with
    | error e => cases reached
    | ok found =>
      cases next : source.nextUnseen found.entries with
      | none =>
        simp only [next] at reached
        cases reached with
        | here => exact Or.inl ⟨i, found, rfl, rfl, rfl, next⟩
      | some file =>
        simp only [next] at reached
        cases reached with
        | call j read reached =>
          cases read with
          | error e => cases reached
          | ok text =>
            unfold readNdjsonFile at reached
            cases rows : fileRows (PathDisplay.display source.dir file.name) text with
            | error e =>
              simp only [rows] at reached
              cases reached
            | ok listed =>
              have formed : (do
                  let rows ← (.ok listed : Result (List Row))
                  ndjsonRowsToBatch (walkRows walking rows)) =
                    .ok (batchOf (walkRows walking listed)) := ndjsonRowsToBatch_eq _
              simp only [rows, formed] at reached
              cases reached with
              | here =>
                refine Or.inr ⟨⟨found, file, text, batchOf (walkRows walking listed)⟩, i, j,
                  List.mem_cons_self, List.mem_cons_of_mem _ List.mem_cons_self,
                  fun k other last => ?_, rfl, rfl, next, _, ?_, rfl⟩
                · cases last
                · rw [← fileRows_objects rows]
                  exact walkRows_walks walking listed

/-- Where the flow was stopped right after a listing, there is nothing new in it. -/
def Drained (source : FileTailSource) (own : List LiveEvent) (q : LiveProg (Option Fault))
    (visits : List Visit) : Prop :=
  q = .ret none → ∀ i found, own.getLast? = some (listing i source.dir found) →
    (sourceAfter source visits).nextUnseen found.entries = none

/-- A file with rows is appended once. -/
theorem follows_polled {flow : Flow} {walking : Walking} {batch : RecordBatch}
    {after : StreamingSource} {polled rest : List LiveEvent} {q : LiveProg (Option Fault)}
    (written : List LiveEvent)
    (poll : Reaches ((StreamingSource.tail source).pollBatch walking) polled
      (.ret (.ok batch, after))) (some : batch.isEmpty = false)
    (appends : written.filterMap appendedIn = [(flow.destination, batch)])
    (silent : ∀ k found, written.getLast? ≠ .some (listing k source.dir found))
    (later : ∀ source', after = .tail source' →
      ∃ visits, Follows flow source' rest visits ∧ Drained source' rest q visits) :
    ∃ visits, Follows flow source (polled ++ (written ++ rest)) visits ∧
      Drained source (polled ++ (written ++ rest)) q visits := by
  obtain ⟨_, _, _, empty, _⟩ | ⟨v, _, _, listed, read, _, rfl, rfl, next, formed⟩ :=
    tail_round poll
  · cases some.symm.trans empty
  · obtain ⟨visits, follows, drained⟩ := later _ rfl
    rw [← List.append_assoc]
    refine ⟨v :: visits, follows_cons next (List.mem_append_left _ listed)
      (List.mem_append_left _ read) formed ?_ follows, fun stopped k found last => ?_⟩
    · rw [List.filterMap_append, quiet_appended (poll_quiet poll), appends, some]
      rfl
    · obtain back | ⟨_, front⟩ := last_cases last
      · exact drained stopped k found (note_dir source v.file.name ▸ back)
      · obtain here | ⟨rfl, _⟩ := last_cases front
        · exact absurd here (silent k found)
        · cases appends

/-- A flow over a directory appends what it reads there. -/
theorem rounds_follow {flow : Flow} {registered : Bool} {own : List LiveEvent}
    {q : LiveProg (Option Fault)} {at_ : StreamingSource} (same : at_ = .tail source)
    (rounds : Rounds flow registered at_ own q) :
    ∃ visits, Follows flow source own visits ∧ Drained source own q visits := by
  induction rounds generalizing source with
  | stopped registered at_ =>
    refine ⟨[], follows_nothing rfl, fun _ i found last => ?_⟩
    cases last
  | polling poll on =>
    exact ⟨[], follows_nothing (quiet_appended (poll_quiet poll)),
      fun stopped => absurd stopped on⟩
  | @idle _ _ _ _ polled events _ _ poll empty later ih =>
    subst same
    have quiet := quiet_appended (poll_quiet poll)
    obtain ⟨i, found, rfl, _, rfl, none⟩ |
      ⟨v, i, j, listed, read, silent, rfl, rfl, next, formed⟩ := tail_round poll
    · obtain ⟨visits, follows, rest⟩ := ih rfl
      refine ⟨visits, follows_later quiet follows, fun stopped k other last => ?_⟩
      obtain later | ⟨rfl, first⟩ := last_cases last
      · exact rest stopped k other later
      · cases follows_nil follows
        cases first
        exact none
    · obtain ⟨visits, follows, rest⟩ := ih rfl
      refine ⟨v :: visits, follows_cons next listed read formed ?_ follows,
        fun stopped k other last => ?_⟩
      · rw [quiet, if_pos empty]
      · obtain later | ⟨rfl, first⟩ := last_cases last
        · exact rest stopped k other (note_dir source v.file.name ▸ later)
        · exact absurd first (silent k other)
  | @appending _ _ _ _ polled batch _ poll some path dest i fate on =>
    subst same
    have quiet := quiet_appended (poll_quiet poll)
    cases fate with
    | done =>
      refine follows_polled [_] poll some ?_ ?_ ?_
      · rw [dest]
        rfl
      · intro k found last
        cases last
      · exact fun source' _ => ⟨[], follows_nothing rfl, fun stopped => absurd stopped on⟩
    | _ =>
      refine ⟨[], follows_nothing ?_, fun stopped => absurd stopped on⟩
      rw [List.filterMap_append, quiet]
      rfl
  | @kept _ _ _ polled events batch _ poll some path dest i later ih =>
    subst same
    refine follows_polled [_] poll some ?_ ?_ fun source' => ih
    · rw [dest]
      rfl
    · intro k found last
      cases last
  | @first _ _ _ polled events batch _ poll some path dest i j later ih =>
    subst same
    refine follows_polled [_, _] poll some ?_ ?_ fun source' => ih
    · rw [dest]
      rfl
    · intro k found last
      cases last

end Following

end RSparkLiveTails
