import Mathlib.Data.List.Lex
import RSpark.Calls
import RSpark.Listing
import RSpark.Ndjson

/- The source that tails the NDJSON files of a directory, over histories in which files arrive
   between the polls. -/
namespace RSparkFileTail
open RSparkValue RSparkBatch RSparkNdjson Calls

section Names

/-- A file name as the operating system has it: bytes that need not be UTF-8. -/
abbrev OsString := List UInt8

def toStr (name : OsString) : Option String := String.fromUTF8? ⟨name.toArray⟩

def sortsBefore (a b : OsString) : Bool := a.map UInt8.toNat ≤ b.map UInt8.toNat

theorem toStr_inj {a b : OsString} {s : String} (left : toStr a = some s)
    (right : toStr b = some s) : a = b := by
  have bytes {name : OsString} (found : toStr name = some s) :
      s.toByteArray = ⟨name.toArray⟩ := by
    unfold toStr String.fromUTF8? at found
    split at found
    · obtain rfl := Option.some.inj found
      rfl
    · exact nomatch found
  have same := (bytes left).symm.trans (bytes right)
  simpa using same

theorem toStr_ne_empty {name : OsString} (named : name ≠ []) : toStr name ≠ some "" := by
  intro found
  have empty : toStr [] = some "" := by decide
  exact named (toStr_inj found empty)

theorem sortsBefore_trans (a b c : OsString) (left : sortsBefore a b = true)
    (right : sortsBefore b c = true) : sortsBefore a c = true := by
  simp only [sortsBefore, decide_eq_true_eq] at *
  exact le_trans left right

theorem sortsBefore_total (a b : OsString) : (sortsBefore a b || sortsBefore b a) = true := by
  simp only [sortsBefore, Bool.or_eq_true, decide_eq_true_eq]
  exact le_total _ _

theorem sortsBefore_antisymm {a b : OsString} (left : sortsBefore a b = true)
    (right : sortsBefore b a = true) : a = b := by
  simp only [sortsBefore, decide_eq_true_eq] at *
  have same := le_antisymm left right
  exact List.map_injective_iff.mpr (fun _ _ => UInt8.toNat_inj.mp) same

end Names

section Source

structure Entry where
  name : OsString
  isFile : Bool
  text : String

/-- How the path of a file in a directory is shown. -/
class PathDisplay where
  display : String → OsString → String

structure FileTailSource where
  dir : String
  seen : List String

def FileTailSource.new (dir : String) : FileTailSource := ⟨dir, []⟩

def regularFiles (entries : List Entry) : List Entry := entries.filter Entry.isFile

def sortedFiles (entries : List Entry) : List Entry :=
  (regularFiles entries).mergeSort fun a b => sortsBefore a.name b.name

def FileTailSource.nextUnseen (source : FileTailSource) (entries : List Entry) : Option Entry :=
  (sortedFiles entries).find? fun p => (toStr p.name).getD "" ∉ source.seen

def FileTailSource.insert (source : FileTailSource) (name : String) : FileTailSource :=
  ⟨source.dir, name :: source.seen⟩

/-- A name that is not UTF-8 is never noted as seen. -/
def FileTailSource.note (source : FileTailSource) (name : OsString) : FileTailSource :=
  match toStr name with
  | some name => source.insert name
  | none => source

variable [SerdeJson] [RowOrder] [PathDisplay]

def FileTailSource.read (source : FileTailSource) (file : Entry) : Result RecordBatch :=
  readNdjson (PathDisplay.display source.dir file.name) file.text

def FileTailSource.pollBatch (source : FileTailSource) (entries : List Entry) :
    Result RecordBatch × FileTailSource :=
  match source.nextUnseen entries with
  | none => (.ok (RecordBatch.new Schema.empty), source)
  | some file =>
      match source.read file with
      | .error e => (.error e, source)
      | .ok batch => (.ok batch, source.note file.name)

end Source

section Histories

/-- A directory, the source that tails it, and the files whose rows the polls returned. -/
structure Tail where
  entries : List Entry
  source : FileTailSource
  emitted : List OsString

def Tail.new (dir : String) : Tail := ⟨[], FileTailSource.new dir, []⟩

inductive Action where
  | arrive (file : Entry)
  | poll

variable [SerdeJson] [RowOrder] [PathDisplay]

def Tail.emits (t : Tail) : Option Entry :=
  match t.source.nextUnseen t.entries with
  | none => none
  | some file =>
      match t.source.read file with
      | .error _ => none
      | .ok _ => some file

def Tail.poll (t : Tail) : Tail :=
  ⟨t.entries, (t.source.pollBatch t.entries).2, t.emitted ++ (t.emits.map Entry.name).toList⟩

def Tail.act : Action → Tail → Tail
  | .arrive file, t => ⟨file :: t.entries, t.source, t.emitted⟩
  | .poll, t => t.poll

/-- Files come under new names, the regular ones holding one JSON value on every line. -/
def Arrives (t : Tail) (file : Entry) : Prop :=
  file.name ≠ [] ∧ file.name ∉ t.entries.map Entry.name ∧
    (file.isFile = true → WellFormed file.text)

def Added (t : Tail) : Action → Prop
  | .arrive file => Arrives t file
  | .poll => True

/-- A regular file whose rows were not returned yet. -/
def Tail.Waiting (t : Tail) (file : Entry) : Prop :=
  file ∈ t.entries ∧ file.isFile = true ∧ file.name ∉ t.emitted

def Tail.PollsNext (t : Tail) : Prop :=
  ∀ file, t.Waiting file → ∃ first batch, t.Waiting first ∧
    (∀ other, t.Waiting other → sortsBefore first.name other.name = true) ∧
    t.source.read first = .ok batch ∧ (t.source.pollBatch t.entries).1 = .ok batch ∧
    t.poll.emitted = t.emitted ++ [first.name]

/-- Every file that was read and whose name is not UTF-8 has a file before it that waits. -/
def Tail.Covered (t : Tail) : Prop :=
  ∀ file ∈ t.entries, file.isFile = true → toStr file.name = none → file.name ∈ t.emitted →
    ∃ first, t.Waiting first ∧ sortsBefore first.name file.name = true

/-- Polls are made while what was read under names that are not UTF-8 is covered. -/
def CoveredPolls (t : Tail) : Action → Prop
  | .arrive file => Arrives t file
  | .poll => t.Covered

end Histories

section Order

theorem mem_sortedFiles {file : Entry} {entries : List Entry} :
    file ∈ sortedFiles entries ↔ file ∈ entries ∧ file.isFile = true := by
  rw [sortedFiles, (List.mergeSort_perm _ _).mem_iff, regularFiles, List.mem_filter]

theorem sortedFiles_sorted (entries : List Entry) :
    (sortedFiles entries).Pairwise fun a b => sortsBefore a.name b.name = true :=
  List.pairwise_mergeSort
    (fun a b c : Entry => sortsBefore_trans a.name b.name c.name)
    (fun a b : Entry => sortsBefore_total a.name b.name) (regularFiles entries)

theorem mem_note {source : FileTailSource} {name : OsString} {key : String} :
    key ∈ (source.note name).seen ↔ toStr name = some key ∨ key ∈ source.seen := by
  unfold FileTailSource.note
  split
  · rename_i noted found
    simp only [FileTailSource.insert, List.mem_cons, found, Option.some.injEq]
    exact or_congr_left eq_comm
  · rename_i found
    simp [found]

variable [SerdeJson] {t : Tail}

/-- What is known of a tailed directory: the names noted are those of the files read. -/
structure Kept (t : Tail) : Prop where
  named : ∀ file ∈ t.entries, file.name ≠ []
  formed : ∀ file ∈ t.entries, file.isFile = true → WellFormed file.text
  readNamed : ∀ name ∈ t.emitted, name ≠ []
  seen : ∀ name, name ∈ t.source.seen ↔ ∃ read ∈ t.emitted, toStr read = some name

theorem unseen_iff (kept : Kept t) (name : OsString) :
    (toStr name).getD "" ∉ t.source.seen ↔ toStr name = none ∨ name ∉ t.emitted := by
  cases found : toStr name with
  | none =>
    have other : "" ∉ t.source.seen := by
      intro noted
      obtain ⟨read, mem, empty⟩ := (kept.seen "").mp noted
      exact toStr_ne_empty (kept.readNamed read mem) empty
    simp [other]
  | some key =>
    have noted : key ∈ t.source.seen ↔ name ∈ t.emitted := by
      rw [kept.seen]
      constructor
      · rintro ⟨read, mem, same⟩
        exact toStr_inj same found ▸ mem
      · intro mem
        exact ⟨name, mem, found⟩
    simp [noted]

theorem nextUnseen_first (kept : Kept t) {first : Entry}
    (found : t.source.nextUnseen t.entries = some first) :
    (first ∈ t.entries ∧ first.isFile = true ∧
      (toStr first.name = none ∨ first.name ∉ t.emitted)) ∧
    ∀ other ∈ t.entries, other.isFile = true →
      (toStr other.name = none ∨ other.name ∉ t.emitted) →
      sortsBefore first.name other.name = true := by
  obtain ⟨present, regular⟩ := mem_sortedFiles.mp (List.mem_of_find?_eq_some found)
  have unseen := List.find?_some found
  rw [decide_eq_true_eq, unseen_iff kept] at unseen
  refine ⟨⟨present, regular, unseen⟩, fun other mem file open' => ?_⟩
  have holds : decide ((toStr other.name).getD "" ∉ t.source.seen) = true :=
    decide_eq_true ((unseen_iff kept other.name).mpr open')
  rcases Listing.find_least (sortedFiles_sorted t.entries) found other
    (mem_sortedFiles.mpr ⟨mem, file⟩) holds with rfl | before
  · simpa using sortsBefore_total other.name other.name
  · exact before

theorem nextUnseen_isSome (kept : Kept t) {file : Entry} (present : file ∈ t.entries)
    (regular : file.isFile = true) (open' : toStr file.name = none ∨ file.name ∉ t.emitted) :
    ∃ first, t.source.nextUnseen t.entries = some first := by
  cases found : t.source.nextUnseen t.entries with
  | some first => exact ⟨first, rfl⟩
  | none =>
    have passed := List.find?_eq_none.mp found file (mem_sortedFiles.mpr ⟨present, regular⟩)
    rw [decide_eq_true_eq, unseen_iff kept] at passed
    exact absurd open' passed

theorem new_kept (dir : String) : Kept (Tail.new dir) := by
  constructor <;> simp [Tail.new, FileTailSource.new]

theorem next_waits (kept : Kept t) (covered : t.Covered) {first : Entry}
    (found : t.source.nextUnseen t.entries = some first) : t.Waiting first ∧
    ∀ other, t.Waiting other → sortsBefore first.name other.name = true := by
  obtain ⟨⟨present, regular, unread⟩, least⟩ := nextUnseen_first kept found
  have before (other : Entry) (waits : t.Waiting other) :
      sortsBefore first.name other.name = true :=
    least other waits.1 waits.2.1 (Or.inr waits.2.2)
  refine ⟨⟨present, regular, fun read => ?_⟩, before⟩
  have foreign := unread.resolve_right (not_not_intro read)
  obtain ⟨earlier, waits, sorted⟩ := covered first present regular foreign read
  have same := sortsBefore_antisymm sorted (before earlier waits)
  exact waits.2.2 (same ▸ read)

variable [RowOrder] [PathDisplay]

theorem emits_first (kept : Kept t) {first : Entry}
    (found : t.source.nextUnseen t.entries = some first) : ∃ batch,
    t.source.read first = .ok batch ∧ t.emits = some first ∧
    t.source.pollBatch t.entries = (.ok batch, t.source.note first.name) := by
  obtain ⟨⟨present, regular, _⟩, _⟩ := nextUnseen_first kept found
  obtain ⟨batch, read⟩ := readNdjson_of_wellFormed (PathDisplay.display t.source.dir first.name)
    (kept.formed first present regular)
  have read : t.source.read first = .ok batch := read
  refine ⟨batch, read, ?_, ?_⟩
  · simp only [Tail.emits, found, read]
  · simp only [FileTailSource.pollBatch, found, read]

end Order

section Once
variable [SerdeJson] [RowOrder] [PathDisplay] {t : Tail}

theorem poll_kept (kept : Kept t) : Kept t.poll := by
  cases found : t.source.nextUnseen t.entries with
  | none =>
    have same : t.poll = t := by
      simp [Tail.poll, Tail.emits, FileTailSource.pollBatch, found]
    rw [same]
    exact kept
  | some first =>
    obtain ⟨batch, read, emits, polled⟩ := emits_first kept found
    obtain ⟨⟨present, _, _⟩, _⟩ := nextUnseen_first kept found
    have same : t.poll = ⟨t.entries, t.source.note first.name, t.emitted ++ [first.name]⟩ := by
      simp [Tail.poll, emits, polled]
    rw [same]
    refine ⟨kept.named, kept.formed, fun name mem => ?_, fun key => ?_⟩
    · rcases List.mem_append.mp mem with before | last
      · exact kept.readNamed name before
      · exact List.mem_singleton.mp last ▸ kept.named first present
    · rw [mem_note, kept.seen]
      simp only [List.mem_append, List.mem_singleton]
      constructor
      · rintro (here | ⟨read, mem, key⟩)
        · exact ⟨first.name, Or.inr rfl, here⟩
        · exact ⟨read, Or.inl mem, key⟩
      · rintro ⟨read, mem | rfl, key⟩
        · exact Or.inr ⟨read, mem, key⟩
        · exact Or.inl key

theorem act_kept {action : Action} (kept : Kept t) (may : Added t action) :
    Kept (t.act action) := by
  cases action with
  | poll => exact poll_kept kept
  | arrive file =>
    obtain ⟨named, _, formed⟩ := may
    refine ⟨fun f mem => ?_, fun f mem regular => ?_, kept.readNamed, kept.seen⟩
    · rcases List.mem_cons.mp mem with rfl | before
      · exact named
      · exact kept.named f before
    · rcases List.mem_cons.mp mem with rfl | before
      · exact formed regular
      · exact kept.formed f before regular

theorem pollsNext_of_covered (kept : Kept t) (covered : t.Covered) : t.PollsNext := by
  intro file waits
  obtain ⟨first, found⟩ := nextUnseen_isSome kept waits.1 waits.2.1 (Or.inr waits.2.2)
  obtain ⟨batch, read, emits, polled⟩ := emits_first kept found
  obtain ⟨waiting, least⟩ := next_waits kept covered found
  refine ⟨first, batch, waiting, least, read, by rw [polled], ?_⟩
  simp [Tail.poll, emits]

theorem emits_again_iff (kept : Kept t) :
    (∃ file, t.emits = some file ∧ file.name ∈ t.emitted) ↔ ¬ t.Covered := by
  constructor
  · rintro ⟨file, emits, read⟩ covered
    cases found : t.source.nextUnseen t.entries with
    | none => simp [Tail.emits, found] at emits
    | some first =>
      obtain ⟨batch, _, emits', _⟩ := emits_first kept found
      obtain rfl := Option.some.inj (emits.symm.trans emits')
      exact (next_waits kept covered found).1.2.2 read
  · intro uncovered
    simp only [Tail.Covered, not_forall] at uncovered
    obtain ⟨file, present, regular, foreign, read, alone⟩ := uncovered
    obtain ⟨first, found⟩ := nextUnseen_isSome kept present regular (Or.inl foreign)
    obtain ⟨batch, _, emits, _⟩ := emits_first kept found
    obtain ⟨⟨present', regular', _⟩, least⟩ := nextUnseen_first kept found
    refine ⟨first, emits, ?_⟩
    by_contra waits
    exact alone ⟨first, ⟨present', regular', waits⟩, least file present regular (Or.inl foreign)⟩

theorem poll_once (kept : Kept t) (covered : t.Covered) (once : t.emitted.Nodup) :
    t.poll.emitted.Nodup := by
  cases emits : t.emits with
  | none => simpa [Tail.poll, emits] using once
  | some file =>
    have fresh : file.name ∉ t.emitted := by
      intro read
      exact (emits_again_iff kept).mp ⟨file, emits, read⟩ covered
    have added : t.poll.emitted = t.emitted ++ [file.name] := by simp [Tail.poll, emits]
    rw [added, List.nodup_append]
    refine ⟨once, List.nodup_singleton _, fun a mem b last => ?_⟩
    rw [List.mem_singleton.mp last]
    intro same
    exact fresh (same ▸ mem)

/-- However arrivals and polls follow on each other, while polls meet their condition no file
    is read twice, and each poll reads the first file that waits. -/
theorem tail_reads_once (dir : String) (history : List Action) (t : Tail)
    (run : Steps Tail.act CoveredPolls (Tail.new dir) history t) :
    t.emitted.Nodup ∧ (t.Covered → t.PollsNext) := by
  have added : ∀ {t : Tail} {action : Action}, CoveredPolls t action → Added t action := by
    intro t action may
    cases action with
    | arrive file => exact may
    | poll => trivial
  have inv : Kept t ∧ t.emitted.Nodup := by
    refine run.invariant (J := fun t => Kept t ∧ t.emitted.Nodup) ?_ ?_
    · exact ⟨new_kept dir, List.nodup_nil⟩
    · rintro t action ⟨kept, once⟩ may
      refine ⟨act_kept kept (added may), ?_⟩
      cases action with
      | arrive file => exact once
      | poll => exact poll_once kept may once
  exact ⟨inv.2, pollsNext_of_covered inv.1⟩

end Once

section Witness

@[reducible] def oneLine : SerdeJson where
  fromStr text :=
    if text = "\x7b\"k\":1\x7d" then .ok (.object [("k", .number (.posInt 1))])
    else .error "expected value"
  toString _ := "\x7b\"k\":1\x7d"

@[reducible] def asMet : RowOrder := ⟨id, fun _ => List.Perm.refl _⟩

@[reducible] def byText : PathDisplay := ⟨fun dir name => dir ++ "/" ++ (toStr name).getD ""⟩

def lineFile (name : OsString) : Entry := ⟨name, true, "\x7b\"k\":1\x7d\n"⟩

theorem lineFile_formed (name : OsString) : @WellFormed oneLine (lineFile name).text := by
  intro line mem
  have only : lines "\x7b\"k\":1\x7d\n" = ["\x7b\"k\":1\x7d".toList] := by decide
  obtain rfl := List.mem_singleton.mp (only ▸ mem)
  exact Or.inr ⟨.object [("k", .number (.posInt 1))], if_pos (by decide)⟩

def foreignName : OsString := [255]

theorem foreign_poll (emitted : List OsString) :
    @Tail.act oneLine asMet byText .poll
        ⟨[lineFile foreignName], FileTailSource.new "d", emitted⟩ =
      ⟨[lineFile foreignName], FileTailSource.new "d", emitted ++ [foreignName]⟩ := by
  have found : (FileTailSource.new "d").nextUnseen [lineFile foreignName] =
      some (lineFile foreignName) := by
    have alone : sortedFiles [lineFile foreignName] = [lineFile foreignName] :=
      List.mergeSort_singleton _
    rw [FileTailSource.nextUnseen, alone]
    exact List.find?_cons_of_pos (by decide)
  obtain ⟨batch, read⟩ := @readNdjson_of_wellFormed oneLine asMet
    (byText.display "d" foreignName) _ (lineFile_formed foreignName)
  have read : @FileTailSource.read oneLine asMet byText (FileTailSource.new "d")
      (lineFile foreignName) = .ok batch := read
  have noted : (FileTailSource.new "d").note (lineFile foreignName).name =
      FileTailSource.new "d" := by
    have foreign : toStr foreignName = none := by decide
    simp only [FileTailSource.note, lineFile, foreign]
  simp only [Tail.act, Tail.poll, Tail.emits, FileTailSource.pollBatch, found, read, noted]
  rfl

theorem foreign_arrives : @Arrives oneLine (Tail.new "d") (lineFile foreignName) :=
  ⟨by decide, by decide, fun _ => lineFile_formed foreignName⟩

theorem foreign_arrived :
    @Tail.act oneLine asMet byText (.arrive (lineFile foreignName)) (Tail.new "d") =
      ⟨[lineFile foreignName], FileTailSource.new "d", []⟩ := rfl

/-- A file was read under a name that is not UTF-8, and one that sorts before it arrived. -/
def overtaken : Tail :=
  ⟨[lineFile [97], lineFile foreignName], FileTailSource.new "d", [foreignName]⟩

theorem overtaken_reads_once : overtaken.emitted.Nodup ∧
    (overtaken.Covered → @Tail.PollsNext oneLine asMet byText overtaken) := by
  refine @tail_reads_once oneLine asMet byText "d"
    [.arrive (lineFile foreignName), .poll, .arrive (lineFile [97])] overtaken ?_
  refine .cons _ foreign_arrives ?_
  refine .cons _ (fun file mem _ _ read => nomatch read) ?_
  rw [foreign_arrived, foreign_poll]
  exact .cons _ ⟨by decide, by decide, fun _ => lineFile_formed [97]⟩ .nil

/-- A file whose name is not UTF-8 is read again by every poll. -/
theorem foreign_read_twice :
    ¬ ∀ (dir : String) (history : List Action) (t : Tail),
      Steps (@Tail.act oneLine asMet byText) (@Added oneLine) (Tail.new dir) history t →
      t.emitted.Nodup ∧ @Tail.PollsNext oneLine asMet byText t := by
  intro claim
  have run : Steps (@Tail.act oneLine asMet byText) (@Added oneLine) (Tail.new "d")
      [.arrive (lineFile foreignName), .poll, .poll]
      ⟨[lineFile foreignName], FileTailSource.new "d", [foreignName, foreignName]⟩ := by
    refine .cons _ foreign_arrives (.cons _ trivial ?_)
    rw [foreign_arrived, foreign_poll]
    refine .cons _ trivial ?_
    rw [foreign_poll]
    exact .nil
  exact absurd (claim "d" _ _ run).1 (by decide)

end Witness

end RSparkFileTail
