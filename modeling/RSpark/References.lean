import RSpark.Expr

/- What the evaluation of an expression reads: no column but those that the expression refers
   to, so that all others can be left out of a scan. -/
namespace RSparkReferences
open RSparkValue RSparkBatch RSparkExpr

section Names
variable {name : String}

theorem collectColumns_append (e : Expr) (out : List String) :
    e.collectColumns out = out ++ e.collectColumns [] := by
  induction e generalizing out with
  | column name => rfl
  | literal lit => rw [Expr.collectColumns, Expr.collectColumns, List.append_nil]
  | star => rw [Expr.collectColumns, Expr.collectColumns, List.append_nil]
  | binary op left right ihl ihr =>
    rw [Expr.collectColumns, Expr.collectColumns, ihr, ihl, ihr (left.collectColumns []),
      List.append_assoc]
  | not inner ih => exact ih out
  | isNull inner ih => exact ih out
  | isNotNull inner ih => exact ih out
  | ifExpr cond thenExpr elseExpr ihc iht ihe =>
    rw [Expr.collectColumns, Expr.collectColumns, ihe, iht, ihc,
      ihe (thenExpr.collectColumns _), iht (cond.collectColumns []), List.append_assoc,
      List.append_assoc, List.append_assoc]
  | aggregate func arg distinct ih => exact ih out
  | aliased expr name ih => exact ih out

theorem mem_collectColumns (e : Expr) (out : List String) :
    name ∈ e.collectColumns out ↔ name ∈ out ∨ name ∈ e.collectColumns [] := by
  rw [collectColumns_append, List.mem_append]

theorem mem_dedupAfter {last : String} {names : List String} :
    name = last ∨ name ∈ dedupAfter last names ↔ name = last ∨ name ∈ names := by
  induction names generalizing last with
  | nil => rfl
  | cons first rest ih =>
    rw [dedupAfter]
    split
    · rename_i same
      rw [ih, same, List.mem_cons, or_self_left]
    · rw [List.mem_cons, List.mem_cons, ih]

theorem mem_dedup {names : List String} : name ∈ dedup names ↔ name ∈ names := by
  cases names with
  | nil => rfl
  | cons first rest => rw [dedup, List.mem_cons, List.mem_cons, mem_dedupAfter]

theorem mem_references {e : Expr} : name ∈ e.references ↔ name ∈ e.collectColumns [] := by
  rw [Expr.references, mem_dedup, List.mem_insertionSort]

end Names

section Reading
variable [Regex] {r s : Record} {b c : RecordBatch}

theorem eval_of_columns (e : Expr) (same : ∀ name ∈ e.collectColumns [],
    (Expr.column name).eval r b = (Expr.column name).eval s c) : e.eval r b = e.eval s c := by
  induction e with
  | column name => exact same name List.mem_cons_self
  | literal lit => rfl
  | star => rfl
  | binary op left right ihl ihr =>
    simp only [Expr.collectColumns, mem_collectColumns right (left.collectColumns [])] at same
    rw [Expr.eval, Expr.eval, ihl fun name mem => same name (Or.inl mem),
      ihr fun name mem => same name (Or.inr mem)]
  | not inner ih => rw [Expr.eval, Expr.eval, ih same]
  | isNull inner ih => rw [Expr.eval, Expr.eval, ih same]
  | isNotNull inner ih => rw [Expr.eval, Expr.eval, ih same]
  | ifExpr cond thenExpr elseExpr ihc iht ihe =>
    simp only [Expr.collectColumns, mem_collectColumns elseExpr (thenExpr.collectColumns _),
      mem_collectColumns thenExpr (cond.collectColumns [])] at same
    rw [Expr.eval, Expr.eval, ihc fun name mem => same name (Or.inl (Or.inl mem)),
      iht fun name mem => same name (Or.inl (Or.inr mem)),
      ihe fun name mem => same name (Or.inr mem)]
  -- refused before anything is read, though its argument is listed
  | aggregate func arg distinct _ => rfl
  | aliased expr name ih => exact ih same

def AgreeOn (schema : Schema) (names : List String) (r s : Record) : Prop :=
  ∀ name ∈ names, ∀ i, schema.indexOf name = some i → r.getOrNull i = s.getOrNull i

instance (schema : Schema) (names : List String) (r s : Record) :
    Decidable (AgreeOn schema names r s) :=
  decidable_of_iff (∀ name ∈ names, ∀ i ∈ schema.indexOf name, r.getOrNull i = s.getOrNull i)
    Iff.rfl

theorem column_agrees {name : String}
    (agree : ∀ i, b.schema.indexOf name = some i → r.getOrNull i = s.getOrNull i) :
    (Expr.column name).eval r b = (Expr.column name).eval s b := by
  rw [Expr.eval, Expr.eval]
  cases found : b.schema.indexOf name with
  | none => rfl
  | some i =>
    show Except.ok (r.getOrNull i) = Except.ok (s.getOrNull i)
    rw [agree i found]

/-- Two records that agree on the columns that an expression refers to give it the same
    result, or the same error. -/
theorem eval_agrees (e : Expr) (batch : RecordBatch) (r s : Record)
    (agree : AgreeOn batch.schema e.references r s) : e.eval r batch = e.eval s batch :=
  eval_of_columns e fun name mem => column_agrees (agree name (mem_references.mpr mem))

end Reading

section Pruning
variable [Regex]

def prunedSchema (names : List String) (schema : Schema) : Schema :=
  ⟨schema.fields.filter fun f => f.name ∈ names⟩

def prunedRecord (names : List String) (schema : Schema) (r : Record) : Record :=
  ⟨((schema.fields.zip r.values).filter fun p => p.1.name ∈ names).map Prod.snd⟩

def prunedBatch (names : List String) (batch : RecordBatch) : RecordBatch :=
  ⟨prunedSchema names batch.schema, batch.records.map (prunedRecord names batch.schema)⟩

omit [Regex] in
theorem indexOf_cons (f : Field) (fields : List Field) (name : String) :
    Schema.indexOf ⟨f :: fields⟩ name =
      if f.name = name then some 0 else (Schema.indexOf ⟨fields⟩ name).map (· + 1) := by
  rw [Schema.indexOf, List.findIdx?_cons]
  simp only [decide_eq_true_eq]
  rfl

omit [Regex] in
theorem pruned_lookup {names : List String} {name : String} (listed : name ∈ names)
    {schema : Schema} {r : Record} (width : r.values.length = schema.fieldCount) :
    ((prunedSchema names schema).indexOf name).map (prunedRecord names schema r).getOrNull =
      (schema.indexOf name).map r.getOrNull := by
  obtain ⟨fields⟩ := schema
  obtain ⟨values⟩ := r
  induction fields generalizing values with
  | nil => rfl
  | cons f fields ih =>
    cases values with
    | nil => exact nomatch width
    | cons v values =>
      have later := ih values (Nat.succ.inj width)
      simp only [prunedSchema, prunedRecord, List.zip_cons_cons] at later ⊢
      rw [indexOf_cons]
      by_cases kept : f.name ∈ names
      · simp only [List.filter_cons, kept, decide_true, if_true, List.map_cons]
        rw [indexOf_cons]
        by_cases here : f.name = name
        · rw [if_pos here, if_pos here]
          rfl
        · rw [if_neg here, if_neg here, Option.map_map, Option.map_map]
          exact later
      · have other : f.name ≠ name := fun same => kept (same ▸ listed)
        simp only [List.filter_cons, kept, decide_false, Bool.false_eq_true, if_false]
        rw [if_neg other, Option.map_map, later]
        rfl

theorem eval_pruned (e : Expr) (batch : RecordBatch) (r : Record)
    (width : r.values.length = batch.schema.fieldCount) :
    e.eval (prunedRecord e.references batch.schema r) (prunedBatch e.references batch) =
      e.eval r batch := by
  apply eval_of_columns
  intro name mem
  have found := pruned_lookup (mem_references.mpr mem) width
  have looked (r : Record) (b : RecordBatch) : (Expr.column name).eval r b =
      orError ((b.schema.indexOf name).map r.getOrNull) (columnNotFound name) := by
    rw [Expr.eval]
    cases b.schema.indexOf name with
    | none => rfl
    | some i => rfl
  rw [looked, looked, ← found]
  rfl

end Pruning

section Witness

/-- `name = 'ann' OR total IS NULL`, over a table that has the name twice. -/
def annOrOpen : Expr :=
  .binary .or (.binary .eq (.column "name") (.literal (.str "ann"))) (.isNull (.column "total"))

def namedTwice : Schema :=
  ⟨[Field.new "id" .int64, Field.new "name" .string, Field.new "total" .int64,
    Field.new "name" .string]⟩

/-- Only the identifiers and the second names differ. -/
theorem ann_read_alike :
    annOrOpen.references = ["name", "total"] ∧
      @Expr.eval noRegex ⟨[.int64 1, .string "ann", .null, .string "x"]⟩ ⟨namedTwice, []⟩
          annOrOpen =
        @Expr.eval noRegex ⟨[.int64 2, .string "ann", .null, .string "y"]⟩ ⟨namedTwice, []⟩
          annOrOpen :=
  ⟨by decide, @eval_agrees noRegex annOrOpen ⟨namedTwice, []⟩ _ _ (by decide)⟩

end Witness

end RSparkReferences
