import RSpark.CreateTable

/- Table names on their way through SQL. A name that is rendered with quotes is looked up with
   them, and a word that the grammar keeps for itself is not quoted. -/
namespace RSparkTableNames
open RSparkValue RSparkBatch RSparkExpr RSparkPlan RSparkSqlAst RSparkExprBuilder RSparkPlanner
open RSparkMaster RSparkApi RSparkCreateTable

section Statements

def showCreateOf (name : String) : String := "SHOW CREATE TABLE " ++ quoteIdent name
def selectFrom (name : String) : String := "SELECT * FROM " ++ quoteIdent name

def selectAll (name : ObjectName) : Statement :=
  .query (.mk false
    (.select ⟨none, [.wildcard], [⟨.table name none, []⟩], none, .expressions [], none⟩)
    none none none)

def printed (escaped : String → String) (name : String) : String :=
  if needsQuote name.toList then "\"" ++ escaped name ++ "\"" else name

/-- The parser reads a rendered name as the name, and prints a quoted one with its quotes; after
    FROM it refuses the bare words that it keeps for table expressions. -/
structure ReadsNames [SqlParser] (reserved : String → Bool) (escaped : String → String) : Prop where
  longer : ∀ name, name.length ≤ (escaped name).length
  shows : ∀ name, name ≠ "" →
    SqlParser.parse (showCreateOf name) = .ok [.showCreateTable ⟨[⟨name⟩], printed escaped name⟩]
  selects : ∀ name, name ≠ "" → ¬ (needsQuote name.toList = false ∧ reserved name = true) →
    SqlParser.parse (selectFrom name) = .ok [selectAll ⟨[⟨name⟩], printed escaped name⟩]
  refuses : ∀ name, needsQuote name.toList = false → reserved name = true →
    ∃ e, SqlParser.parse (selectFrom name) = .error e

theorem printed_eq_iff {escaped : String → String} {name : String}
    (longer : name.length ≤ (escaped name).length) :
    printed escaped name = name ↔ needsQuote name.toList = false := by
  cases quoted : needsQuote name.toList with
  | false => simp [printed, quoted]
  | true =>
    have apart : "\"" ++ escaped name ++ "\"" ≠ name := by
      intro same
      have lengths := congrArg String.length same
      simp only [String.length_append] at lengths
      have two : "\"".length = 1 := rfl
      omega
    simp [printed, quoted, apart]

end Statements

section Trimming

def staysLast (c : Char) : Prop := isWhitespace c = false ∧ c ≠ ';'

theorem letter_stays {c : Char} (letter : isAsciiAlphanumeric c = true ∨ c = '_') :
    staysLast c := by
  have code : (97 ≤ c.toNat ∧ c.toNat ≤ 122) ∨ (65 ≤ c.toNat ∧ c.toNat ≤ 90) ∨
      (48 ≤ c.toNat ∧ c.toNat ≤ 57) ∨ c.toNat = 95 := by
    rcases letter with letter | rfl
    · simp only [isAsciiAlphanumeric, isAsciiAlphabetic, Bool.decide_or, Bool.or_eq_true,
        decide_eq_true_eq] at letter
      omega
    · exact Or.inr (Or.inr (Or.inr rfl))
  constructor
  · unfold isWhitespace
    simp only [List.mem_cons, List.not_mem_nil, or_false, decide_eq_false_iff_not]
    omega
  · rintro rfl
    have semicolon : ';'.toNat = 59 := rfl
    omega

theorem quoteIdent_last (name : String) :
    ∃ front c, (quoteIdent name).toList = front ++ [c] ∧ staysLast c := by
  unfold quoteIdent
  cases bare : needsQuote name.toList with
  | true =>
    refine ⟨doubleQuote :: doubled doubleQuote name.toList, doubleQuote, ?_, by decide, by decide⟩
    rw [if_pos rfl, String.toList_ofList]
    rfl
  | false =>
    obtain ⟨c, rest, letters, _, each⟩ := bare_letters bare
    have some' : name.toList ≠ [] := by
      rw [letters]
      exact List.cons_ne_nil c rest
    refine ⟨name.toList.dropLast, name.toList.getLast some', ?_, ?_⟩
    · exact (List.dropLast_append_getLast some').symm
    · exact letter_stays (each _ (List.getLast_mem some'))

theorem statement_text {verb : String} {first : Char} {rest : List Char}
    (begins : verb.toList = first :: rest) (name : String) : ∃ middle last,
      (verb ++ quoteIdent name).toList = first :: (middle ++ [last]) ∧ staysLast last := by
  obtain ⟨front, last, text, stays⟩ := quoteIdent_last name
  refine ⟨rest ++ front, last, ?_, stays⟩
  rw [String.toList_append, begins, text, List.cons_append, List.append_assoc]

theorem showCreateOf_text (name : String) : ∃ middle last,
    (showCreateOf name).toList = 'S' :: (middle ++ [last]) ∧ staysLast last := by
  obtain ⟨rest, begins⟩ : ∃ rest, "SHOW CREATE TABLE ".toList = 'S' :: rest := ⟨_, rfl⟩
  exact statement_text begins name

theorem selectFrom_text (name : String) : ∃ middle last,
    (selectFrom name).toList = 'S' :: (middle ++ [last]) ∧ staysLast last := by
  obtain ⟨rest, begins⟩ : ∃ rest, "SELECT * FROM ".toList = 'S' :: rest := ⟨_, rfl⟩
  exact statement_text begins name

variable {sql : String} {first last : Char} {middle : List Char}

theorem trimChars_between (whole : sql.toList = first :: (middle ++ [last]))
    (visible : isWhitespace first = false) (stays : staysLast last) :
    trimChars sql.toList = sql.toList := by
  have front : sql.toList.dropWhile isWhitespace = sql.toList := by
    rw [whole]
    exact List.dropWhile_cons_of_neg (by rw [visible]; exact Bool.false_ne_true)
  have back : sql.toList.reverse.dropWhile isWhitespace = sql.toList.reverse := by
    rw [whole, List.reverse_cons, List.reverse_append, List.reverse_singleton, List.cons_append]
    exact List.dropWhile_cons_of_neg (by rw [stays.1]; exact Bool.false_ne_true)
  rw [trimChars, front, back, List.reverse_reverse]

theorem trimEndSemicolons_last (whole : sql.toList = first :: (middle ++ [last]))
    (stays : staysLast last) : trimEndSemicolons sql.toList = sql.toList := by
  have back : sql.toList.reverse.dropWhile (· = ';') = sql.toList.reverse := by
    rw [whole, List.reverse_cons, List.reverse_append, List.reverse_singleton, List.cons_append]
    exact List.dropWhile_cons_of_neg (by simpa using stays.2)
  rw [trimEndSemicolons, back, List.reverse_reverse]

variable [SqlParser]

theorem tryShowCreate_kept (whole : sql.toList = first :: (middle ++ [last]))
    (visible : isWhitespace first = false) (stays : staysLast last) {name : ObjectName}
    (parsed : SqlParser.parse sql = .ok [.showCreateTable name]) :
    tryShowCreate sql = .ok (some name.display) := by
  have trimmed := trimChars_between whole visible stays
  simp only [tryShowCreate, trimmed, trimEndSemicolons_last whole stays, String.ofList_toList,
    parsed]

omit [SqlParser] in
theorem normalize_kept (whole : sql.toList = first :: (middle ++ [last]))
    (stays : staysLast last) : normalizeTrailingSemicolon sql.toList = sql.toList := by
  have ends : sql.toList.getLast? = some last := by
    rw [whole, ← List.cons_append, List.getLast?_concat]
  rw [normalizeTrailingSemicolon, ends, if_neg (fun same => stays.2 (Option.some.inj same))]

theorem parseSql_read (whole : sql.toList = first :: (middle ++ [last]))
    (visible : isWhitespace first = false) (stays : staysLast last) {statement : Statement}
    (parsed : SqlParser.parse sql = .ok [statement]) : parseSql sql = .ok [statement] := by
  have some' : sql.toList.isEmpty = false := by rw [whole]; rfl
  simp [parseSql, trimChars_between whole visible stays, some', normalize_kept whole stays, parsed]

theorem parseSql_refused (whole : sql.toList = first :: (middle ++ [last]))
    (visible : isWhitespace first = false) (stays : staysLast last) {e : String}
    (parsed : SqlParser.parse sql = .error e) :
    parseSql sql = err (.sql s!"syntax error: {e}") := by
  have some' : sql.toList.isEmpty = false := by rw [whole]; rfl
  simp [parseSql, trimChars_between whole visible stays, some', normalize_kept whole stays, parsed]

end Trimming

section Resolution
variable [SqlParser] [PlanDebug]
variable {reserved : String → Bool} {escaped : String → String} {name : String}

omit [PlanDebug] in
theorem show_resolves_iff (reads : ReadsNames reserved escaped) (some' : name ≠ "") :
    tryShowCreate (showCreateOf name) = .ok (some name) ↔ needsQuote name.toList = false := by
  obtain ⟨middle, last, text, stays⟩ := showCreateOf_text name
  rw [tryShowCreate_kept text (by decide) stays (reads.shows name some')]
  simpa using printed_eq_iff (reads.longer name)

def scanAll (name path source : String) (schema : Schema) : LogicalPlan :=
  projection [.star] (buildScanSchema name path source schema)

theorem planSql_selectAll {object : ObjectName} {catalog : Catalog}
    (parsed : SqlParser.parse (selectFrom name) = .ok [selectAll object]) :
    planSql (selectFrom name) catalog = (do
      let (path, source) ← catalog.tableLocation object.display
      let schema ← catalog.tableSchema object.display
      .ok (scanAll object.display path source schema)) := by
  obtain ⟨middle, last, text, stays⟩ := selectFrom_text name
  rw [planSql, parseSql_read text (by decide) stays parsed, ok_bind]
  simp only [planStatements, planStatement, selectAll, planQuery, planSetExpr, planSelect,
    buildFromTables, buildJoinTables, buildTableFactor, ok_bind, List.append_nil, buildFromClause,
    buildTableScan]
  cases catalog.tableLocation object.display with
  | error e => rfl
  | ok location =>
    cases catalog.tableSchema object.display with
    | error e => rfl
    | ok schema => rfl

def onlyTable (name path source : String) (schema : Schema) : Catalog where
  tableSchema other :=
    if other = name then .ok schema else err (.notFound s!"table '{other}' not found")
  tableLocation other :=
    if other = name then .ok (path, source) else err (.notFound s!"table '{other}' not found")

def SelectResolves (name : String) : Prop := ∀ catalog path source schema,
  catalog.tableLocation name = .ok (path, source) → catalog.tableSchema name = .ok schema →
    planSql (selectFrom name) catalog = .ok (scanAll name path source schema)

theorem resolves_alone (resolves : SelectResolves name) :
    planSql (selectFrom name) (onlyTable name "" "" ⟨[]⟩) = .ok (scanAll name "" "" ⟨[]⟩) :=
  resolves _ "" "" ⟨[]⟩ (if_pos rfl) (if_pos rfl)

theorem select_resolves_iff (reads : ReadsNames reserved escaped) (some' : name ≠ "") :
    SelectResolves name ↔ needsQuote name.toList = false ∧ reserved name = false := by
  by_cases kept : needsQuote name.toList = false ∧ reserved name = true
  · obtain ⟨e, refused⟩ := reads.refuses name kept.1 kept.2
    obtain ⟨middle, last, text, stays⟩ := selectFrom_text name
    refine iff_of_false (fun resolves => ?_) fun plain => ?_
    · have planned := resolves_alone resolves
      rw [planSql, parseSql_refused text (by decide) stays refused] at planned
      exact nomatch planned
    · exact nomatch kept.2.symm.trans plain.2
  · have parsed := reads.selects name some' kept
    constructor
    · intro resolves
      have planned := resolves_alone resolves
      rw [planSql_selectAll parsed] at planned
      have bare : needsQuote name.toList = false := by
        rw [← printed_eq_iff (reads.longer name)]
        by_contra apart
        have missing : (onlyTable name "" "" ⟨[]⟩).tableLocation (printed escaped name) =
            err (.notFound s!"table '{printed escaped name}' not found") := if_neg apart
        rw [missing] at planned
        exact nomatch planned
      refine ⟨bare, ?_⟩
      rw [Bool.eq_false_iff]
      exact fun word => kept ⟨bare, word⟩
    · rintro ⟨bare, _⟩ catalog path source schema located described
      have same := (printed_eq_iff (reads.longer name)).mpr bare
      rw [planSql_selectAll parsed, same, located, ok_bind, described]
      rfl

/-- Rendered, a table's name leads back to the table in both statements exactly if it is a bare
    word that the grammar does not keep for itself. -/
theorem rendered_name_resolves_iff (reads : ReadsNames reserved escaped) (name : String)
    (some' : name ≠ "") :
    (tryShowCreate (showCreateOf name) = .ok (some name) ∧ SelectResolves name) ↔
      needsQuote name.toList = false ∧ reserved name = false := by
  rw [show_resolves_iff reads some', select_resolves_iff reads some']
  exact and_iff_right_of_imp And.left

end Resolution

section Samples

def undoubled (q : Char) : List Char → List Char
  | c :: d :: rest => if c = q then c :: undoubled q rest else c :: undoubled q (d :: rest)
  | short => short

theorem undoubled_cons {q c : Char} (other : c ≠ q) (cs : List Char) :
    undoubled q (c :: cs) = c :: undoubled q cs := by
  cases cs with
  | nil => rfl
  | cons d cs => rw [undoubled, if_neg other]

theorem undoubled_doubled (q : Char) (cs : List Char) : undoubled q (doubled q cs) = cs := by
  induction cs with
  | nil => rfl
  | cons c cs ih =>
    by_cases quote : c = q
    · have twice : doubled q (c :: cs) = c :: c :: doubled q cs := by simp [doubled, quote]
      rw [twice, undoubled, if_pos quote, ih]
    · have once : doubled q (c :: cs) = c :: doubled q cs := by simp [doubled, quote]
      rw [once, undoubled_cons quote, ih]

def readName (text : String) : ObjectName :=
  match text.toList with
  | [] => ⟨[], text⟩
  | c :: rest =>
      if c = doubleQuote then ⟨[⟨String.ofList (undoubled doubleQuote rest.dropLast)⟩], text⟩
      else ⟨[⟨text⟩], text⟩

def tableWords (word : String) : Bool :=
  String.ofList (FloatText.lowerAscii word.toList) ∈ ["lateral", "table", "unnest"]

def parseNames (sql : String) : Except String (List Statement) :=
  match sql.toList.dropPrefix? "SHOW CREATE TABLE ".toList with
  | some rest => .ok [.showCreateTable (readName (String.ofList rest))]
  | none =>
      match sql.toList.dropPrefix? "SELECT * FROM ".toList with
      | some rest =>
          if tableWords (String.ofList rest) then .error "Expected: (, found: EOF"
          else .ok [selectAll (readName (String.ofList rest))]
      | none => .error "Expected: an SQL statement"

@[reducible] def namesParser : SqlParser := ⟨parseNames, fun _ => ""⟩

def doubledQuotes (name : String) : String := String.ofList (doubled doubleQuote name.toList)

theorem doubledQuotes_toList (name : String) :
    (doubledQuotes name).toList = doubled doubleQuote name.toList := String.toList_ofList

theorem quoteIdent_bare {name : String} (bare : needsQuote name.toList = false) :
    quoteIdent name = name := by
  rw [quoteIdent, bare]
  rfl

theorem quoteIdent_quoted {name : String} (quoted : needsQuote name.toList = true) :
    (quoteIdent name).toList =
      doubleQuote :: (doubled doubleQuote name.toList ++ [doubleQuote]) := by
  rw [quoteIdent, if_pos quoted]
  exact String.toList_ofList

theorem printed_doubledQuotes (name : String) : printed doubledQuotes name = quoteIdent name := by
  cases quoted : needsQuote name.toList with
  | true =>
    have quote : "\"".toList = [doubleQuote] := rfl
    rw [← String.toList_inj, quoteIdent_quoted quoted, printed, if_pos quoted,
      String.toList_append, String.toList_append, quote, doubledQuotes_toList]
    rfl
  | false =>
    rw [quoteIdent_bare quoted, printed, quoted]
    rfl

theorem readName_quoteIdent (name : String) :
    readName (quoteIdent name) = ⟨[⟨name⟩], printed doubledQuotes name⟩ := by
  rw [printed_doubledQuotes]
  cases quoted : needsQuote name.toList with
  | true =>
    rw [readName, quoteIdent_quoted quoted]
    simp only [if_true, List.dropLast_concat, undoubled_doubled, String.ofList_toList]
  | false =>
    obtain ⟨c, rest, letters, first, _⟩ := bare_letters quoted
    have other : c ≠ doubleQuote := by
      rintro rfl
      exact absurd first (by decide)
    rw [quoteIdent_bare quoted, readName, letters]
    simp only [if_neg other]

theorem show_parsed (name : String) :
    parseNames (showCreateOf name) = .ok [.showCreateTable (readName (quoteIdent name))] := by
  have rest := List.dropPrefix?_append_of_beq (quoteIdent name).toList
    (BEq.refl "SHOW CREATE TABLE ".toList)
  rw [← String.toList_append] at rest
  unfold parseNames showCreateOf
  rw [rest]
  simp only [String.ofList_toList]

theorem select_parsed (name : String) : parseNames (selectFrom name) =
    if tableWords (quoteIdent name) then .error "Expected: (, found: EOF"
    else .ok [selectAll (readName (quoteIdent name))] := by
  have rest := List.dropPrefix?_append_of_beq (quoteIdent name).toList
    (BEq.refl "SELECT * FROM ".toList)
  have other : ("SELECT * FROM ".toList ++ (quoteIdent name).toList).dropPrefix?
      "SHOW CREATE TABLE ".toList = none := rfl
  rw [← String.toList_append] at rest other
  unfold parseNames selectFrom
  rw [other, rest]
  simp only [String.ofList_toList]

theorem doubled_length (q : Char) (cs : List Char) : cs.length ≤ (doubled q cs).length := by
  induction cs with
  | nil => exact Nat.le_refl _
  | cons c cs ih =>
    have more : 1 ≤ (if c = q then [c, c] else [c]).length := by split <;> simp
    rw [doubled, List.flatMap_cons, List.length_append, List.length_cons]
    exact Nat.add_comm 1 cs.length ▸ Nat.add_le_add more ih

theorem tableWords_quoted {name : String} (quoted : needsQuote name.toList = true) :
    tableWords (quoteIdent name) = false := by
  have first : ∃ rest, FloatText.lowerAscii (quoteIdent name).toList = doubleQuote :: rest := by
    rw [quoteIdent_quoted quoted]
    exact ⟨_, rfl⟩
  obtain ⟨rest, lower⟩ := first
  have apart (word : String) (c : Char) (cs : List Char) (letters : word.toList = c :: cs)
      (other : c ≠ doubleQuote) : String.ofList (doubleQuote :: rest) ≠ word := by
    rintro rfl
    rw [String.toList_ofList] at letters
    exact other (List.cons.inj letters).1.symm
  rw [tableWords, lower, decide_eq_false_iff_not]
  simp only [List.mem_cons, List.not_mem_nil, or_false, not_or]
  exact ⟨apart "lateral" 'l' _ rfl (by decide), apart "table" 't' _ rfl (by decide),
    apart "unnest" 'u' _ rfl (by decide)⟩

theorem namesParser_reads : @ReadsNames namesParser tableWords doubledQuotes := by
  refine @ReadsNames.mk namesParser _ _ (fun name => ?_) (fun name _ => ?_)
    (fun name _ plain => ?_) fun name bare word => ?_
  · have longer := doubled_length doubleQuote name.toList
    rwa [← doubledQuotes_toList, String.length_toList, String.length_toList] at longer
  · exact (show_parsed name).trans (by rw [readName_quoteIdent])
  · have word : tableWords (quoteIdent name) = false := by
      cases quoted : needsQuote name.toList with
      | true => exact tableWords_quoted quoted
      | false =>
        rw [quoteIdent_bare quoted, Bool.eq_false_iff]
        exact fun word => plain ⟨quoted, word⟩
    refine (select_parsed name).trans ?_
    rw [word, readName_quoteIdent]
    rfl
  · refine ⟨"Expected: (, found: EOF", (select_parsed name).trans ?_⟩
    rw [quoteIdent_bare bare, word]
    rfl

/-- A bare name leads back to its table. -/
theorem employees_resolve :
    @tryShowCreate namesParser (showCreateOf "employees") = .ok (some "employees") ∧
      @SelectResolves namesParser noDebug "employees" :=
  (@rendered_name_resolves_iff namesParser noDebug tableWords doubledQuotes namesParser_reads
    "employees" (by decide)).mpr ⟨by decide, by decide⟩

/-- A name with a hyphen does not lead back in either statement, nor does a word of the grammar
    in a query. -/
theorem hyphen_and_keyword_lost :
    ¬ (@tryShowCreate namesParser (showCreateOf "my-table") = .ok (some "my-table")) ∧
      ¬ @SelectResolves namesParser noDebug "my-table" ∧
      ¬ @SelectResolves namesParser noDebug "unnest" := by
  refine ⟨fun shown => ?_, fun found => ?_, fun found => ?_⟩
  · have bare := (@show_resolves_iff namesParser _ _ _ namesParser_reads (by decide)).mp shown
    exact absurd bare (by decide)
  · have plain := (@select_resolves_iff namesParser noDebug _ _ _ namesParser_reads
      (by decide)).mp found
    exact absurd plain.1 (by decide)
  · have plain := (@select_resolves_iff namesParser noDebug _ _ _ namesParser_reads
      (by decide)).mp found
    exact absurd plain.2 (by decide)

end Samples

end RSparkTableNames
