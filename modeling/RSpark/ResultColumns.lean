import RSpark.GroupedRows
import RSpark.SchemaFit

/- A column over the rows of a SELECT list, as HAVING and ORDER BY read it: it is the first item
   that is printed under the name. -/
namespace RSparkResultColumns
open RSparkValue RSparkBatch RSparkExpr RSparkPlan RSparkOperators RSparkPlanner RSparkClauses
open RSparkGroupedRows RSparkHavingRewrite RSparkSchemaFit Listing
open RSparkExecutor RSparkStages

def printed (read : Schema) (item : Expr) : List String :=
  (⟨projectFields read item⟩ : Schema).fieldNames

theorem printed_of_ne {item : Expr} (notStar : item ≠ .star) (read : Schema) :
    printed read item = [item.displayName] := by
  cases item with
  | star => exact absurd rfl notStar
  | _ => rfl

theorem result_names (read : Schema) (items : List Expr) :
    (⟨items.flatMap (projectFields read)⟩ : Schema).fieldNames = items.flatMap (printed read) :=
  List.map_flatMap

theorem first_printed {name : String} {read : Schema} {items : List Expr}
    (known : name ∈ items.flatMap (printed read)) :
    ∃ item, items.find? (name ∈ printed read ·) = some item := by
  obtain ⟨item, listed, named⟩ := List.mem_flatMap.mp known
  exact Option.isSome_iff_exists.mp (List.find?_isSome.mpr ⟨item, listed, by simpa using named⟩)

/-- The item shows a column, under its own name or another. -/
def Plain (name : String) (item : Expr) : Prop := item = .star ∨ stripAlias item = .column name

instance (name : String) (item : Expr) : Decidable (Plain name item) :=
  inferInstanceAs (Decidable (_ ∨ _))

theorem ne_star_of_column {name : String} {item : Expr} (plain : stripAlias item = .column name) :
    item ≠ .star := by
  rintro rfl
  exact nomatch plain

theorem rewriteHaving_column {items : List Expr} {name : String} :
    stripAlias (rewriteHaving items (.column name)) = .column name := by
  have of_match {item : Expr} (same : exprStrictlyMatches item (.column name) = true) :
      stripAlias item = .column name := by
    induction item with
    | aliased inner _ ih => exact ih same
    | column other => exact congrArg Expr.column (of_decide_eq_true same)
    | _ => exact nomatch same
  unfold rewriteHaving
  cases first : items.find? (exprStrictlyMatches · (.column name)) with
  | none => rfl
  | some item =>
    have same := List.find?_some first
    exact of_match same

variable [Regex] {name : String} {x row : Record} {a out : RecordBatch} {items : List Expr}

/-- Each row is a row of the batch put through the SELECT list. -/
structure ResultOf (items : List Expr) (a out : RecordBatch) : Prop where
  names : out.schema.fieldNames = items.flatMap (printed a.schema)
  rows : ∀ row ∈ out.records, ∃ x ∈ a.records, projectAll x a items = .ok row.values

theorem ResultOf.fewer (result : ResultOf items a out) {kept : RecordBatch}
    (same : kept.schema = out.schema) (inside : ∀ row ∈ kept.records, row ∈ out.records) :
    ResultOf items a kept where
  names := same ▸ result.names
  rows := fun row mem => result.rows row (inside row mem)

theorem resultOf_project
    (ran : applyProject items ⟨items.flatMap (projectFields a.schema)⟩ a = .ok out) :
    ResultOf items a out := by
  obtain ⟨columns, rows⟩ := applyProject_rows ran
  refine ⟨?_, forall₂_mem rows⟩
  rw [columns, result_names]

theorem column_reads_iff (row : Record) :
    (∃ v, (Expr.column name).eval row out = .ok v) ↔ name ∈ out.schema.fieldNames := by
  rw [column_eval, columnOf]
  simp only [orError_eq_ok]
  rw [← Option.isSome_iff_exists, Option.isSome_iff_ne_none, ne_eq, namedAt_eq_none, not_not]

theorem plain_projected {item : Expr} (plain : stripAlias item = .column name)
    {values : List Value} (projected : projectValues x a item = .ok values) :
    ∃ v, values = [v] ∧ (Expr.column name).eval x a = .ok v := by
  have called : callOf item = none := by
    cases call : callOf item with
    | none => rfl
    | some c =>
      rw [stripAlias_of_call call] at plain
      exact nomatch plain
  rw [projectValues_scalar called (ne_star_of_column plain), ← eval_stripAlias, plain] at projected
  obtain ⟨v, evaluated, same⟩ := bind_eq_ok.mp projected
  exact ⟨v, (Except.ok.inj same).symm, evaluated⟩

/-- A column has in a row of the list the value that it has in the row projected, if it is the
    first item printed so. -/
theorem column_over_result (valid : x.Valid a.schema)
    (projected : projectAll x a items = .ok row.values) (result : ResultOf items a out)
    {item : Expr} (first : items.find? (name ∈ printed a.schema ·) = some item)
    (plain : Plain name item) :
    (Expr.column name).eval row out = (Expr.column name).eval x a := by
  rw [projectAll_eq] at projected
  obtain ⟨blocks, each, same⟩ := bind_eq_ok.mp projected
  obtain rfl := mapM_eq_map each |>.1
  have evaluated := (mapM_eq_map each).2
  have width (c : Expr) (listed : c ∈ items) :
      (answer (projectValues x a c)).length = (printed a.schema c).length := by
    rw [(projectValues_valid valid (evaluated c listed)).1, printed, Schema.fieldNames,
      List.length_map]
    rfl
  rw [column_eval, result.names, columnOf, ← Except.ok.inj same, ← List.flatMap_def,
    namedAt_flatMap width, first, Option.bind_some]
  have here := evaluated item (List.mem_of_find?_eq_some first)
  have shown' : name ∈ printed a.schema item := by simpa using List.find?_some first
  rcases plain with rfl | plain
  · rw [← Except.ok.inj here, column_eval]
    rfl
  · obtain ⟨v, alone, value⟩ := plain_projected plain here
    have notStar := ne_star_of_column plain
    rw [printed_of_ne notStar, List.mem_singleton] at shown'
    rw [printed_of_ne notStar, alone, value, namedAt, if_pos shown'.symm]
    rfl

end RSparkResultColumns
