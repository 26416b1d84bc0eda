import Mathlib.Data.List.TakeWhile
import RSpark.CsvTypes
import RSpark.Delimited
import RSpark.FlowOutput

/- Which source reads a path. The registry goes by the extension of the file; a table that is
   registered without a source, over HTTP or on the command line, goes by the end of the text. -/
namespace RSparkSourceNames
open FloatText RSparkValue RSparkBatch RSparkExpr RSparkExecutor RSparkPlanner
open RSparkFlowOutput RSparkCsvTypes

section Paths

/-- Neither a separator that is repeated or stands at the end nor a dot between two separators
    names anything. -/
def isIgnored (component : List Char) : Bool := component = [] ∨ component = ['.']

def lastComponent (path : List Char) : Option (List Char) :=
  ((path.splitOn '/').reverse.dropWhile isIgnored).head?

def fileName (path : List Char) : Option (List Char) :=
  match lastComponent path with
  | some ['.', '.'] => none
  | last => last

/-- What follows the last dot, unless that dot is where the file name starts. -/
def extension (path : List Char) : Option (List Char) :=
  match fileName path with
  | none => none
  | some file =>
      match file.reverse.dropWhile (· ≠ '.') with
      | [] | [_] => none
      | _ => some (file.reverse.takeWhile (· ≠ '.')).reverse

end Paths

section Detectors

def lowerExtension (path : String) : String :=
  String.ofList (lowerAscii ((extension path.toList).getD []))

def formatByExtension (refusal path : String) : Result String :=
  match lowerExtension path with
  | "csv" => .ok "csv"
  | "json" | "jsonl" | "ndjson" => .ok "json"
  | other => err (.storage s!"{refusal}: .{other}")

def innerKind (key : String) : Result String :=
  formatByExtension "unsupported s3 object format" key

def formatFromKey (key : String) : Result String :=
  formatByExtension "unsupported s3 output format" key

def inferredName (path : String) : Result String :=
  formatByExtension "unsupported file extension" path

def inferFromPath (registry : SourceRegistry) (path : String) : Result DataSource := do
  registry.get (← inferredName path)

def endsWithJson (path : String) : Bool := ".json".toList.isSuffixOf (lowerAscii path.toList)

structure RegisterTableRequest where
  name : String
  path : String
  source : Option String
  kind : Option String

def RegisterTableRequest.chosenSource (body : RegisterTableRequest) : String :=
  body.source.getD (if endsWithJson body.path then "json" else "csv")

def RegisterTableRequest.chosenKind (body : RegisterTableRequest) : TableKind :=
  match body.kind with
  | some "streaming_table" => .streamingTable
  | some "materialized_view" => .materializedView
  | _ => .batch

def loadedSource (path : String) : String := if endsWithJson path then "json" else "csv"

variable (registry : SourceRegistry) (inferSchema : DataSource → String → Result Schema)

/-- POST /v1/catalog/tables. -/
def registerTable (body : RegisterTableRequest) (session : SessionState) :
    Result SessionState := do
  let source ← registry.get body.chosenSource
  let schema ← inferSchema source body.path
  .ok (session.registerWithKind body.name body.path body.chosenSource schema body.chosenKind)

/-- One NAME=PATH after --load. What cannot be loaded is passed over. -/
def loadSpec (session : SessionState) (spec : String) : SessionState :=
  match splitOnce '=' spec.toList with
  | none => session
  | some (name, file) =>
      let path := String.ofList file
      match registry.get (loadedSource path) with
      | .error _ => session
      | .ok source =>
          match inferSchema source path with
          | .error _ => session
          | .ok schema =>
              session.registerWithKind (String.ofList name) path (loadedSource path) schema .batch

def loadAll (load : List String) (session : SessionState) : SessionState :=
  load.foldl (loadSpec registry inferSchema) session

end Detectors

section Registered
variable {registry : SourceRegistry} {inferSchema : DataSource → String → Result Schema}

theorem registerWithKind_location (session : SessionState) (name path source : String)
    (schema : Schema) (kind : TableKind) :
    (session.registerWithKind name path source schema kind).tableLocation name =
      .ok (path, source) := by
  have found : (session.registerWithKind name path source schema kind).tables.get name =
      some ⟨path, source, schema, kind⟩ := InsertionMap.find_replace_self _ _ _
  rw [SessionState.tableLocation, found]
  rfl

theorem loadSpec_location {session : SessionState} {spec : String} {name file : List Char}
    {source : DataSource} {schema : Schema} (split : splitOnce '=' spec.toList = some (name, file))
    (found : registry.get (loadedSource (String.ofList file)) = .ok source)
    (inferred : inferSchema source (String.ofList file) = .ok schema) :
    (loadSpec registry inferSchema session spec).tableLocation (String.ofList name) =
      .ok (String.ofList file, loadedSource (String.ofList file)) := by
  simp only [loadSpec, split, found, inferred]
  exact registerWithKind_location session _ _ _ _ _

theorem loadSpec_other (session : SessionState) {spec name : String}
    (other : ∀ file, splitOnce '=' spec.toList ≠ some (name.toList, file)) :
    (loadSpec registry inferSchema session spec).tableLocation name =
      session.tableLocation name := by
  unfold loadSpec
  split
  · rfl
  · rename_i loaded file split
    have apart : name ≠ String.ofList loaded := by
      rintro rfl
      exact other file (split.trans (by rw [String.toList_ofList]))
    simp only
    split
    · rfl
    · split
      · rfl
      · unfold SessionState.tableLocation SessionState.registerWithKind
        rw [InsertionMap.get_insert_other _ apart]

theorem loadAll_location (session : SessionState) {before after : List String} {spec : String}
    {name file : List Char} {source : DataSource} {schema : Schema}
    (split : splitOnce '=' spec.toList = some (name, file))
    (found : registry.get (loadedSource (String.ofList file)) = .ok source)
    (inferred : inferSchema source (String.ofList file) = .ok schema)
    (others : ∀ s ∈ after, ∀ file, splitOnce '=' s.toList ≠ some (name, file)) :
    (loadAll registry inferSchema (before ++ spec :: after) session).tableLocation
      (String.ofList name) = .ok (String.ofList file, loadedSource (String.ofList file)) := by
  rw [loadAll, List.foldl_append, List.foldl_cons]
  have first := @loadSpec_location registry inferSchema
    (before.foldl (loadSpec registry inferSchema) session) _ _ _ _ _ split found inferred
  generalize loadSpec registry inferSchema
    (before.foldl (loadSpec registry inferSchema) session) spec = start at first
  induction after generalizing start with
  | nil => exact first
  | cons s after ih =>
    rw [List.foldl_cons]
    refine ih (fun s mem => others s (List.mem_cons_of_mem _ mem)) _ ?_
    rw [loadSpec_other, first]
    rw [String.toList_ofList]
    exact others s List.mem_cons_self

end Registered

section Ends

/-- The text does not go on behind the name of the file. -/
def EndsWithName (path : List Char) : Prop := ¬ ['/'] <:+ path ∧ ¬ ['/', '.'] <:+ path

instance (path : List Char) : Decidable (EndsWithName path) :=
  inferInstanceAs (Decidable (_ ∧ _))

theorem intercalate_around {α : Type} (sep : α) (before : List (List α)) (word : List α)
    (later : List (List α)) : ∃ front,
      [sep].intercalate (before ++ word :: later) = front ++ word ++ later.flatMap (sep :: ·) := by
  induction before with
  | nil => exact ⟨[], Delimited.intercalate_cons_flatMap word later⟩
  | cons first before ih =>
    obtain ⟨front, same⟩ := ih
    refine ⟨first ++ [sep] ++ front, ?_⟩
    rw [List.cons_append, List.intercalate_cons_of_ne_nil (by simp), same]
    simp

theorem ignored_tail {later : List (List Char)} (ignored : ∀ c ∈ later, isIgnored c = true) :
    later.flatMap ('/' :: ·) = [] ∨
      ['/'] <:+ later.flatMap ('/' :: ·) ∨ ['/', '.'] <:+ later.flatMap ('/' :: ·) := by
  rcases List.eq_nil_or_concat later with rfl | ⟨init, last, rfl⟩
  · exact Or.inl rfl
  · right
    have small := ignored last (by simp)
    rw [List.concat_eq_append, List.flatMap_append, List.flatMap_singleton]
    simp only [isIgnored, Bool.decide_or, Bool.or_eq_true, decide_eq_true_eq] at small
    rcases small with rfl | rfl
    · exact Or.inl (List.suffix_append _ _)
    · exact Or.inr (List.suffix_append _ _)

theorem fileName_shape {path file : List Char} (named : fileName path = some file) :
    ∃ front tail, path = front ++ file ++ tail ∧
      (tail = [] ∨ ['/'] <:+ tail ∨ ['/', '.'] <:+ tail) := by
  have last : lastComponent path = some file := by
    unfold fileName at named
    split at named
    · exact nomatch named
    · exact named
  obtain ⟨rest, dropped⟩ := List.head?_eq_some_iff.mp last
  have parts := List.takeWhile_append_dropWhile (p := isIgnored) (l := (path.splitOn '/').reverse)
  rw [dropped] at parts
  have split := congrArg List.reverse parts
  rw [List.reverse_reverse, List.reverse_append, List.reverse_cons, List.append_assoc,
    List.singleton_append] at split
  obtain ⟨front, joined⟩ := intercalate_around '/' rest.reverse file
    ((path.splitOn '/').reverse.takeWhile isIgnored).reverse
  rw [split, List.intercalate_splitOn] at joined
  refine ⟨front, _, joined, ignored_tail fun c mem => ?_⟩
  exact List.mem_takeWhile_imp (List.mem_reverse.mp mem)

theorem extension_shape {path ext : List Char} (found : extension path = some ext) :
    '.' ∉ ext ∧ ∃ front tail, path = front ++ '.' :: ext ++ tail ∧
      (tail = [] ∨ ['/'] <:+ tail ∨ ['/', '.'] <:+ tail) := by
  unfold extension at found
  split at found
  · exact nomatch found
  · rename_i file named
    obtain ⟨front, tail, whole, ends⟩ := fileName_shape named
    have parts := List.takeWhile_append_dropWhile (p := (· ≠ '.')) (l := file.reverse)
    split at found
    · exact nomatch found
    · exact nomatch found
    · have name := Option.some.inj found
      refine ⟨fun dot => ?_, ?_⟩
      · rw [← name] at dot
        have other := List.mem_takeWhile_imp (List.mem_reverse.mp dot)
        exact absurd rfl (of_decide_eq_true other)
      · cases stem : file.reverse.dropWhile (· ≠ '.') with
        | nil => contradiction
        | cons c before =>
          have dot : c = '.' := by
            have stops := List.head?_dropWhile_not (· ≠ '.') file.reverse
            rw [stem] at stops
            simpa using stops
          rw [stem, dot] at parts
          have split := congrArg List.reverse parts
          rw [List.reverse_reverse, List.reverse_append, List.reverse_cons, List.append_assoc,
            List.singleton_append, name] at split
          refine ⟨front ++ before.reverse, tail, ?_, ends⟩
          rw [whole, ← split]
          simp

theorem lower_plain {path : List Char} {c : Char} (same : c.toLower = c) (ends : [c] <:+ path) :
    [c] <:+ lowerAscii path := by
  obtain ⟨front, rfl⟩ := ends
  exact ⟨lowerAscii front, by simp [lowerAscii, same]⟩

theorem endsWithName_of_word {path word : List Char} (some' : word ≠ []) (noDot : '.' ∉ word)
    (noSep : '/' ∉ word) (ends : word <:+ lowerAscii path) : EndsWithName path := by
  have inside {c : Char} (here : [c] <:+ lowerAscii path) : c ∈ word := by
    obtain ⟨front, same⟩ := ends
    have last := List.singleton_suffix_iff_getLast?_eq_some.mp here
    rw [← same, List.getLast?_append_of_ne_nil _ some'] at last
    exact List.mem_of_getLast? last
  refine ⟨fun sep => noSep (inside (lower_plain (by decide) sep)), fun dot => ?_⟩
  have last : ['.'] <:+ path := (List.suffix_cons _ _).trans dot
  exact noDot (inside (lower_plain (by decide) last))

theorem ends_iff {path ext word : List Char} (found : extension path = some ext)
    (some' : word ≠ []) (noDot : '.' ∉ word) (noSep : '/' ∉ word) :
    '.' :: word <:+ lowerAscii path ↔ lowerAscii ext = word ∧ EndsWithName path := by
  obtain ⟨dotless, front, tail, rfl, ends⟩ := extension_shape found
  have empty (plain : EndsWithName (front ++ '.' :: ext ++ tail)) : tail = [] := by
    rcases ends with none' | sep | dot
    · exact none'
    · exact absurd (List.suffix_append_of_suffix sep) plain.1
    · exact absurd (List.suffix_append_of_suffix dot) plain.2
  have lowered : lowerAscii (front ++ '.' :: ext) = lowerAscii front ++ '.' :: lowerAscii ext := by
    simp [lowerAscii]
  have dotless' : '.' ∉ lowerAscii ext := by
    intro dot
    obtain ⟨c, mem, lower⟩ := List.mem_map.mp dot
    exact dotless (eq_of_lower lower (by decide) ▸ mem)
  constructor
  · intro suffix
    have plain := endsWithName_of_word some' noDot noSep ((List.suffix_cons _ _).trans suffix)
    refine ⟨?_, plain⟩
    rw [empty plain, List.append_nil, lowered] at suffix
    rcases List.suffix_or_suffix_of_suffix suffix (List.suffix_append _ _) with short | short
    · rcases List.suffix_cons_iff.mp short with same | inner
      · exact (List.cons.inj same).2.symm
      · exact absurd (inner.subset List.mem_cons_self) dotless'
    · rcases List.suffix_cons_iff.mp short with same | inner
      · exact (List.cons.inj same).2
      · exact absurd (inner.subset List.mem_cons_self) noDot
  · rintro ⟨rfl, plain⟩
    rw [empty plain, List.append_nil, lowered]
    exact List.suffix_append _ _

end Ends

section Law

theorem formatByExtension_ok {refusal path name : String}
    (recognised : formatByExtension refusal path = .ok name) :
    (name = "csv" ∧ lowerExtension path = "csv") ∨
      (name = "json" ∧ lowerExtension path ∈ ["json", "jsonl", "ndjson"]) := by
  unfold formatByExtension at recognised
  split at recognised
  · rename_i ext
    exact Or.inl ⟨(Except.ok.inj recognised).symm, ext⟩
  · rename_i ext
    exact Or.inr ⟨(Except.ok.inj recognised).symm, by simp [ext]⟩
  · rename_i ext
    exact Or.inr ⟨(Except.ok.inj recognised).symm, by simp [ext]⟩
  · rename_i ext
    exact Or.inr ⟨(Except.ok.inj recognised).symm, by simp [ext]⟩
  · exact nomatch recognised

theorem detectors_agree (path name : String) :
    (inferredName path = .ok name ↔ innerKind path = .ok name) ∧
      (inferredName path = .ok name ↔ formatFromKey path = .ok name) := by
  have agree (refusal refusal' : String) : formatByExtension refusal path = .ok name ↔
      formatByExtension refusal' path = .ok name := by
    unfold formatByExtension
    split <;> simp [err]
  exact ⟨agree _ _, agree _ _⟩

theorem endsWithJson_iff {path : String} (named : lowerExtension path ≠ "") :
    endsWithJson path = true ↔ lowerExtension path = "json" ∧ EndsWithName path.toList := by
  unfold lowerExtension at named ⊢
  unfold endsWithJson
  cases found : extension path.toList with
  | none =>
    rw [found] at named
    exact absurd rfl named
  | some ext =>
    have ends := @ends_iff _ _ "json".toList found (by decide) (by decide) (by decide)
    rw [List.isSuffixOf_iff_suffix, Option.getD_some]
    refine ends.trans (and_congr_left fun _ => ?_)
    rw [← String.ofList_inj, String.ofList_toList]

theorem loadedSource_iff {path name : String} (recognised : inferredName path = .ok name) :
    loadedSource path = name ↔ lowerExtension path = "csv" ∨
      (lowerExtension path = "json" ∧ EndsWithName path.toList) := by
  rw [loadedSource]
  rcases formatByExtension_ok recognised with ⟨rfl, ext⟩ | ⟨rfl, ext⟩
  · have other : endsWithJson path = false := by
      rw [Bool.eq_false_iff, Ne, endsWithJson_iff (by rw [ext]; decide), ext]
      exact fun json => absurd json.1 (by decide)
    simp [other, ext]
  · have apart {word : String} (other : word ∉ ["json", "jsonl", "ndjson"]) :
        lowerExtension path ≠ word := fun same => other (same ▸ ext)
    rw [← endsWithJson_iff (apart (by decide))]
    have notCsv : lowerExtension path ≠ "csv" := apart (by decide)
    cases endsWithJson path <;> simp [notCsv]

theorem loaded_as_inferred (registry : SourceRegistry) {path name : String}
    (recognised : inferredName path = .ok name)
    (plain : lowerExtension path = "csv" ∨
      (lowerExtension path = "json" ∧ EndsWithName path.toList)) :
    registry.get (loadedSource path) = inferFromPath registry path := by
  rw [(loadedSource_iff recognised).mpr plain, inferFromPath, recognised]
  rfl

/-- The defaults are the source that the registry infers for the extension csv, and for json if
    the path ends in the name of its file; for jsonl and ndjson they are another. -/
theorem default_sources_agree_iff (path name : String) (recognised : inferredName path = .ok name)
    (body : RegisterTableRequest) (requested : body.path = path) (unset : body.source = none) :
    (body.chosenSource = name ∧ loadedSource path = name) ↔
      lowerExtension path = "csv" ∨
        (lowerExtension path = "json" ∧ EndsWithName path.toList) := by
  have chosen : body.chosenSource = loadedSource path := by
    rw [RegisterTableRequest.chosenSource, unset, requested]
    rfl
  rw [chosen, and_self]
  exact loadedSource_iff recognised

def eventsRequest (path : String) : RegisterTableRequest := ⟨"events", path, none, none⟩

/-- The example data are found by either way. -/
theorem events_found :
    (eventsRequest "examples/data/events.JSON").chosenSource = "json" ∧
      loadedSource "examples/data/events.JSON" = "json" :=
  (default_sources_agree_iff "examples/data/events.JSON" "json" rfl
    (eventsRequest "examples/data/events.JSON") rfl rfl).mpr (Or.inr ⟨by decide, by decide⟩)

/-- Lines of JSON are registered as a table of comma-separated values. -/
theorem json_lines_registered_as_csv : ¬ ∀ path name : String, inferredName path = .ok name →
    ∀ body : RegisterTableRequest, body.path = path → body.source = none →
      body.chosenSource = name ∧ loadedSource path = name := by
  intro agree
  have same := (agree "events.jsonl" "json" rfl (eventsRequest "events.jsonl") rfl rfl).1
  exact absurd same (by decide)

end Law

end RSparkSourceNames
