import RSpark.Api
import RSpark.Delimited

/- The text of SHOW CREATE TABLE. Its parts are delimited, so the text belongs to one entry of
   the catalog. -/
namespace RSparkCreateTable
open RSparkValue RSparkBatch RSparkPlanner RSparkApi Delimited

section Names

theorem bare_letters {name : List Char} (bare : needsQuote name = false) :
    ∃ c rest, name = c :: rest ∧ (isAsciiAlphabetic c = true ∨ c = '_') ∧
      ∀ d ∈ name, isAsciiAlphanumeric d = true ∨ d = '_' := by
  cases name with
  | nil => exact nomatch bare
  | cons c rest =>
    simp only [needsQuote, Bool.or_eq_false_iff, Bool.and_eq_false_iff, Bool.not_eq_false',
      bne_eq_false_iff_eq, List.any_eq_false, Bool.and_eq_true, Bool.not_eq_true',
      bne_iff_ne, not_and_or, Bool.not_eq_false, not_not] at bare
    exact ⟨c, rest, rfl, bare.1, bare.2⟩

theorem quoteIdent_delimits :
    Delimits (beginsWith (· = ' ')) fun name : String => (quoteIdent name).toList := by
  intro a b x y hx hy same
  have noQuote {z : List Char} (hz : beginsWith (· = ' ') z) : z.head? ≠ some doubleQuote := by
    cases z with
    | nil => exact hz.elim
    | cons c z =>
      obtain rfl : c = ' ' := hz
      exact fun quote => absurd (Option.some.inj quote) (by decide)
  have noBlank {name : String} (bare : needsQuote name.toList = false) :
      ∀ c ∈ name.toList, ¬ c = ' ' := by
    rintro c mem rfl
    obtain ⟨_, _, _, _, letters⟩ := bare_letters bare
    exact absurd (letters ' ' mem) (by decide)
  -- a bare name does not begin with a quote
  have apart {name : String} (bare : needsQuote name.toList = false) (z w : List Char) :
      name.toList ++ z ≠ doubleQuote :: w := by
    obtain ⟨c, rest, letters, first, _⟩ := bare_letters bare
    rw [letters]
    intro begins
    obtain rfl := (List.cons.inj begins).1
    exact absurd first (by decide)
  dsimp only [quoteIdent] at same
  cases bareA : needsQuote a.toList <;> cases bareB : needsQuote b.toList <;>
    simp only [bareA, bareB, Bool.false_eq_true, if_true, if_false, String.toList_ofList,
      List.cons_append] at same
  · obtain ⟨word, rest⟩ := words_end (noBlank bareA) (noBlank bareB) hx hy same
    exact ⟨String.toList_inj.mp word, rest⟩
  · exact absurd same (apart bareA _ _)
  · exact absurd same.symm (apart bareB _ _)
  · obtain ⟨word, rest⟩ :=
      delimits_doubled doubleQuote _ _ _ _ (noQuote hx) (noQuote hy) (List.cons.inj same).2
    exact ⟨String.toList_inj.mp word, rest⟩

end Names

section Columns

theorem sqlType_injective : Function.Injective sqlType := by
  intro a b same
  cases a <;> cases b <;> first | rfl | exact absurd same (by decide)

abbrev endsLine (c : Char) : Prop := c = ',' ∨ c = '\n'
abbrev endsType (c : Char) : Prop := c = ' ' ∨ endsLine c

theorem sqlType_delimits :
    Delimits (beginsWith endsType) fun d : DataType => (sqlType d).toList := by
  refine delimits_words (fun d c mem ends => ?_) fun a b same =>
    sqlType_injective (String.toList_inj.mp same)
  have clean : (sqlType d).toList.all (fun c => !decide (endsType c)) = true := by
    cases d <;> rfl
  have apart := List.all_eq_true.mp clean c mem
  rw [decide_eq_true ends] at apart
  exact nomatch apart

def nullability (nullable : Bool) : String := if nullable then "" else " NOT NULL"

theorem nullability_delimits :
    Delimits (beginsWith endsLine) fun nullable : Bool => (nullability nullable).toList := by
  intro a b x y hx hy same
  have apart {z w : List Char} (hz : beginsWith endsLine z) : z ≠ ' ' :: w := by
    rintro rfl
    have ends : endsLine ' ' := hz
    exact absurd ends (by decide)
  cases a <;> cases b
  · exact ⟨rfl, List.append_cancel_left same⟩
  · exact absurd same.symm (apart hy)
  · exact absurd same (apart hx)
  · exact ⟨rfl, same⟩

theorem columnLine_toList (f : Field) : (columnLine f).toList = "  ".toList ++
    ((quoteIdent f.name).toList ++ (" ".toList ++
      ((sqlType f.dataType).toList ++ (nullability f.nullable).toList))) := by
  have plain (s : String) : toString s = s := rfl
  simp only [columnLine, nullability, plain, String.toList_append, List.append_assoc]

theorem columnLine_delimits :
    Delimits (beginsWith endsLine) fun f : Field => (columnLine f).toList := by
  have types := sqlType_delimits.append nullability_delimits fun nullable x hx => by
    cases nullable
    · exact Or.inl rfl
    · cases x with
      | nil => exact hx
      | cons c x => exact Or.inr hx
  have lines := (quoteIdent_delimits.append (types.after " ".toList) fun _ _ _ => rfl).after
    "  ".toList
  have fields : Function.Injective fun f : Field => (f.name, f.dataType, f.nullable) := by
    rintro ⟨_, _, _⟩ ⟨_, _, _⟩ same
    simpa using same
  have composed := lines.comp fields
  simp only [columnLine_toList]
  exact composed

theorem columnList_delimits :
    Delimits (beginsWith (· = '\n')) fun fields : List Field => (columnList fields).toList := by
  have comma (x : List Char) : beginsWith endsLine (",\n".toList ++ x) := Or.inl rfl
  have close (x : List Char) : beginsWith endsLine ("\n)".toList ++ x) := Or.inr rfl
  have differ (x y : List Char) : ",\n".toList ++ x ≠ "\n)".toList ++ y := fun same =>
    absurd (List.cons.inj same).1 (by decide)
  have items := (delimits_list columnLine_delimits comma close differ).after "(\n".toList
  have written (f : Field) (fields : List Field) : (columnList (f :: fields)).toList =
      "(\n".toList ++ (",\n".toList.intercalate
        ((f :: fields).map fun f => (columnLine f).toList) ++ "\n)".toList) := by
    have lines : String.toList ∘ columnLine = fun f => (columnLine f).toList := rfl
    simp [columnList, String.toList_intercalate, lines]
  have apart {f : Field} {fields : List Field} {z w : List Char}
      (hz : beginsWith (· = '\n') z) : z ≠ (columnList (f :: fields)).toList ++ w := by
    rw [written]
    rintro rfl
    have ends : '(' = '\n' := hz
    exact absurd ends (by decide)
  intro l l' x y hx hy same
  cases l with
  | nil =>
    cases l' with
    | nil => exact ⟨rfl, same⟩
    | cons f l' => exact absurd same (apart hx)
  | cons f l =>
    cases l' with
    | nil => exact absurd same.symm (apart hy)
    | cons g l' =>
      dsimp only at same
      rw [written, written] at same
      obtain ⟨fields, rest⟩ := items (f, l) (g, l') x y trivial trivial same
      obtain ⟨rfl, rfl⟩ := Prod.mk.inj fields
      exact ⟨rfl, rest⟩

end Columns

section Entries

abbrev SourceName := { source : String // '\n' ∉ source.toList }

theorem source_delimits :
    Delimits (beginsWith (· = '\n')) fun source : SourceName => source.val.toList := by
  refine delimits_words (fun source c mem => ?_) fun a b same => ?_
  · rintro rfl
    exact source.property mem
  · exact Subtype.ext (String.toList_inj.mp same)

def location (path : String) : List Char := doubled singleQuote path.toList ++ [singleQuote]

theorem location_delimits : Delimits (fun x => x.head? ≠ some singleQuote) location :=
  (delimits_doubled singleQuote).comp fun _ _ same => String.toList_inj.mp same

def tableText (entry : String × List Field × SourceName × String) : List Char :=
  "CREATE TABLE ".toList ++ ((quoteIdent entry.1).toList ++ (" ".toList ++
    ((columnList entry.2.1).toList ++ ("\nUSING ".toList ++
      (entry.2.2.1.val.toList ++ ("\nLOCATION '".toList ++ location entry.2.2.2))))))

theorem tableText_injective : Function.Injective tableText := by
  have located := source_delimits.append (location_delimits.after "\nLOCATION '".toList)
    fun _ _ _ => rfl
  have columns := columnList_delimits.append (located.after "\nUSING ".toList) fun _ _ _ => rfl
  have named := quoteIdent_delimits.append (columns.after " ".toList) fun _ _ _ => rfl
  exact (named.after "CREATE TABLE ".toList).injective (nofun)

theorem renderCreateTable_toList {catalog : Catalog} {name path source ddl : String}
    {schema : Schema} (described : catalog.tableSchema name = .ok schema)
    (located : catalog.tableLocation name = .ok (path, source)) (line : '\n' ∉ source.toList)
    (rendered : renderCreateTable catalog name = .ok ddl) :
    ddl.toList = tableText (name, schema.fields, ⟨source, line⟩, path) := by
  have plain (s : String) : toString s = s := rfl
  rw [renderCreateTable, described, ok_bind, located, ok_bind, Except.ok.injEq] at rendered
  subst rendered
  have back := String.toList_ofList (l := doubled singleQuote path.toList)
  generalize escaped : String.ofList (doubled singleQuote path.toList) = escapedPath at back
  have ends : location path = escapedPath.toList ++ "'".toList := by
    rw [back, location]
    rfl
  simp only [plain, String.toList_append]
  unfold tableText
  rw [ends]
  simp only [List.append_assoc]

/-- The text determines the name, the columns, the path and even the source of its table. -/
theorem ddl_determines_entry (c c' : Catalog) (name name' path path' source source' ddl : String)
    (schema schema' : Schema)
    (described : c.tableSchema name = .ok schema) (described' : c'.tableSchema name' = .ok schema')
    (located : c.tableLocation name = .ok (path, source))
    (located' : c'.tableLocation name' = .ok (path', source'))
    (line : '\n' ∉ source.toList) (line' : '\n' ∉ source'.toList)
    (rendered : renderCreateTable c name = .ok ddl)
    (rendered' : renderCreateTable c' name' = .ok ddl) :
    name = name' ∧ schema = schema' ∧ path = path' ∧ source = source' := by
  have text := renderCreateTable_toList described located line rendered
  have text' := renderCreateTable_toList described' located' line' rendered'
  have entries := tableText_injective (text.symm.trans text')
  obtain ⟨names, fields, sources, paths⟩ : name = name' ∧ schema.fields = schema'.fields ∧
      (⟨source, line⟩ : SourceName) = ⟨source', line'⟩ ∧ path = path' := by simpa using entries
  refine ⟨names, ?_, paths, congrArg Subtype.val sources⟩
  cases schema
  cases schema'
  exact congrArg Schema.mk fields

def ordersSchema : Schema := ⟨[⟨"id", .int64, false⟩, ⟨"note, quoted", .string, true⟩]⟩

def ordersCatalog : Catalog :=
  ⟨fun _ => .ok ordersSchema, fun _ => .ok ("data/o'brien.csv", "csv")⟩

def onlyOrders : Catalog where
  tableSchema name := if name = "two words" then .ok ordersSchema else err (.notFound name)
  tableLocation name :=
    if name = "two words" then .ok ("data/o'brien.csv", "csv") else err (.notFound name)

theorem orders_determined : ∃ ddl, renderCreateTable ordersCatalog "two words" = .ok ddl ∧
    renderCreateTable onlyOrders "two words" = .ok ddl ∧ ("two words" = "two words" ∧
      ordersSchema = ordersSchema ∧ "data/o'brien.csv" = "data/o'brien.csv" ∧ "csv" = "csv") :=
  ⟨_, rfl, rfl, ddl_determines_entry ordersCatalog onlyOrders "two words" "two words" _ _ _ _ _
    ordersSchema ordersSchema rfl rfl rfl rfl (by decide) (by decide) rfl rfl⟩

end Entries

end RSparkCreateTable
