import RSpark.GroupRows

/- Aggregates without GROUP BY: the group of all rows is made by the first row, so a query of
   which no row qualifies has no row to show. -/
namespace RSparkGlobalAggregate
open RSparkValue RSparkBatch RSparkExpr RSparkPlan RSparkOperators RSparkExecutor RSparkSqlAst
open RSparkExprBuilder RSparkPlanner RSparkGrouping RSparkClauses RSparkHavingRewrite
open RSparkGroupedRows RSparkStages RSparkClauseLaw RSparkScalarItems RSparkGroupRows Listing

section Query

/-- A query of one SELECT with aggregates and without GROUP BY, its clauses translated. -/
structure UngroupedSelect where
  source : LogicalPlan
  selection : Option Expr
  items : List Expr
  having : Option Expr
  orderBy : List SortExpr
  limit : Option Nat

def readUngrouped [SqlParser] (catalog : Catalog) : Query → Result UngroupedSelect
  | .mk false (.select select) orderBy limit _ => do
      let tables ← buildFromTables select.from'
      let source ← buildFromClause tables catalog
      let selection ← readOption buildExpr select.selection
      let items ← buildSelectExpressions select
      let keys ← buildExprs (groupByExprs select.groupBy)
      let having ← readOption buildExpr select.having
      let orderBy ← buildSortKeys (orderBy.getD [])
      let limit ← readOption evalLimit limit
      if keys.isEmpty ∧ ¬ (fedItems items).isEmpty then
        .ok ⟨source, selection, items, having, orderBy, limit⟩
      else err (.sql "grouped, or without aggregates")
  | _ => err (.sql "not a query of one SELECT")

/-- The same clauses, the keys of its groups being none. -/
def UngroupedSelect.keyless (q : UngroupedSelect) : GroupedSelect :=
  ⟨optional whereNode q.selection q.source, q.items, [], q.having, q.orderBy, q.limit⟩

theorem planQuery_ungrouped [SqlParser] {catalog : Catalog} {query : Query} {q : UngroupedSelect}
    (read : readUngrouped catalog query = .ok q) :
    planQuery catalog query = .ok q.keyless.plan := by
  unfold readUngrouped at read
  split at read
  · rename_i select orderBy limit offset
    obtain ⟨tables, from', read⟩ := bind_eq_ok.mp read
    obtain ⟨source, scanned, read⟩ := bind_eq_ok.mp read
    obtain ⟨selection, readW, read⟩ := bind_eq_ok.mp read
    obtain ⟨items, listed, read⟩ := bind_eq_ok.mp read
    obtain ⟨keys, grouped, read⟩ := bind_eq_ok.mp read
    obtain ⟨having, readH, read⟩ := bind_eq_ok.mp read
    obtain ⟨order, readO, read⟩ := bind_eq_ok.mp read
    obtain ⟨n, readL, read⟩ := bind_eq_ok.mp read
    split at read
    · rename_i global
      obtain ⟨keyless, aggregates⟩ := global
      obtain rfl := Except.ok.inj read
      obtain rfl := List.isEmpty_iff.mp keyless
      refine planQuery_aggregated from' scanned ?_ listed grouped readH readO readL
        (Or.inl aggregates)
      rw [planWhere_eq]
      exact optional_ok readW whereNode source
    · cases read
  · cases read

end Query

section Rows
variable [Regex] {ctx : ExecutionContext} {items : List Expr} {b s : RecordBatch}

def qualifies (selection : Option Expr) (s : RecordBatch) (r : Record) : Bool :=
  selection.all fun w => keeps w s r

theorem input_rows {selection : Option Expr} {source : LogicalPlan}
    (scanned : execute ctx source = .ok s)
    (ran : execute ctx (optional whereNode selection source) = .ok b) :
    b.records = s.records.filter (qualifies selection s) := by
  cases selection with
  | none =>
    obtain rfl := Except.ok.inj (scanned.symm.trans ran)
    exact (List.filter_eq_self.mpr fun r _ => rfl).symm
  | some w =>
    obtain ⟨input, below, ran⟩ := bind_eq_ok.mp ran
    obtain rfl := Except.ok.inj (scanned.symm.trans below)
    obtain ⟨kept, filtered, built⟩ := bind_eq_ok.mp ran
    obtain ⟨rfl, _⟩ := fromRecords_eq_ok.mp built
    exact (filterRecords_eq filtered).2

theorem groupsBy_keyless :
    groupsBy [] b = if b.records = [] then [] else [⟨[], b.records⟩] := by
  have alone : b.records.filter (groupText [] b · = []) = b.records :=
    List.filter_eq_self.mpr fun r _ => rfl
  have text : groupTexts [] b = if b.records = [] then [] else [[]] := by
    refine (groupTexts_ascending [] b).eq_of_mem_iff ?_ fun text => ?_
    · split
      · exact List.Pairwise.nil
      · exact List.pairwise_singleton _ _
    · rw [mem_groupTexts]
      split
      · rename_i empty
        simp [empty]
      · rename_i some
        obtain ⟨r, mem⟩ := List.exists_mem_of_ne_nil _ some
        rw [List.mem_singleton]
        exact ⟨fun ⟨_, _, same⟩ => same.symm, fun same => ⟨r, mem, same.symm⟩⟩
  rw [groupsBy_eq, text]
  split
  · rfl
  · rename_i some
    obtain ⟨r, rest, cons⟩ := List.exists_cons_of_ne_nil some
    rw [List.map_singleton, groupOf]
    simp only [alone]
    rw [cons]
    rfl

def Counts (n : Nat) (items : List Expr) (row : Record) : Prop :=
  ∀ (i : Nat) (e : Expr), items[i]? = some e → CountsRecords e →
    row.values[i]? = some (.int64 (Int64.ofNat n))

/-- Before HAVING the query runs and has one row, in which each COUNT is the number. -/
def OneRow (ctx : ExecutionContext) (q : GroupedSelect) (n : Nat) : Prop :=
  ∃ out row, execute ctx q.projection = .ok out ∧ out.records = [row] ∧ Counts n q.items row

/-- Beside its bare calls the SELECT list has only items that are computed from literals. -/
def BareCalls (items : List Expr) (b : RecordBatch) : Prop :=
  ∀ r ∈ b.records.head?, ∀ item ∈ items, callOf item = none → readsKeys [] b r item = true

instance (items : List Expr) (b : RecordBatch) : Decidable (BareCalls items b) :=
  inferInstanceAs (Decidable (∀ r ∈ b.records.head?, ∀ item ∈ items, callOf item = none → _ = true))

def CountsNamed (items : List Expr) : Prop :=
  ∀ item ∈ items, CountsRecords item →
    ∀ other ∈ (fedItems items).find? (·.displayName = item.displayName), CountsRecords other

theorem count_shown {item : Expr} (listed : item ∈ items) (counts : CountsRecords item)
    (named : ∀ other ∈ (fedItems items).find? (·.displayName = item.displayName),
      CountsRecords other) {rows : List Record} {v : Value}
    (shows : shown [] items b ⟨[], rows⟩ item = .ok v) :
    v = .int64 (Int64.ofNat rows.length) := by
  obtain ⟨distinct, called⟩ := counts
  obtain ⟨w, found, value⟩ := call_shown [] b ⟨[], rows⟩ called listed
  obtain rfl := Except.ok.inj (value.symm.trans shows)
  have own : namedAt .null item.displayName ((fedItems items).map Expr.displayName)
      ((fedItems items).map (held b rows)) = some w := found
  rw [namedAt_map] at own
  obtain ⟨other, first, rfl⟩ := Option.map_eq_some_iff.mp own
  exact held_count (named other first) rows

theorem literal_of_read {g : Group} {r : Record} (of : FirstRow [] b g r) {e : Expr} {v w : Value}
    (means : inGroup [] b g e = .ok v) (read : byName [] items b g e = .ok w) :
    readsKeys [] b r e = true := by
  induction e generalizing v w with
  | column name => exact absurd means (err_ne_ok _ _)
  | literal lit => rfl
  | binary op left right ihl ihr =>
    obtain ⟨lv, hl, means⟩ := bind_eq_ok.mp means
    obtain ⟨rv, hr, _⟩ := bind_eq_ok.mp means
    obtain ⟨lw, hl', read⟩ := bind_eq_ok.mp read
    obtain ⟨rw', hr', _⟩ := bind_eq_ok.mp read
    rw [readsKeys, ihl hl hl', ihr hr hr']
    rfl
  | not inner ih | isNull inner ih | isNotNull inner ih =>
    obtain ⟨iv, hi, _⟩ := bind_eq_ok.mp means
    obtain ⟨iw, hi', _⟩ := bind_eq_ok.mp read
    exact ih hi hi'
  | ifExpr cond thenExpr elseExpr ihc iht ihe =>
    obtain ⟨cv, hc, means⟩ := bind_eq_ok.mp means
    obtain ⟨cw, hc', read⟩ := bind_eq_ok.mp read
    have reads := ihc hc hc'
    -- both take the same branch
    obtain rfl := Except.ok.inj ((read_as_meant of reads hc).symm.trans hc')
    have decided := (byName_eval of reads).symm.trans hc'
    rw [readsKeys, reads, Bool.true_and]
    simp only [decided, Except.ok.injEq]
    split at means
    · rename_i holds
      rw [if_pos holds] at read ⊢
      exact iht means read
    · rename_i fails
      rw [if_neg fails] at read ⊢
      exact ihe means read
  | aggregate func arg distinct _ => exact absurd read (err_ne_ok _ _)
  | aliased inner name ih => exact ih means read
  | star => exact absurd means (err_ne_ok _ _)

end Rows

section Result

def keylessSchema (items : List Expr) : Schema :=
  ⟨[].map aggregateField ++ (fedItems items).map aggregateField⟩

variable [Regex] {items : List Expr} {b : RecordBatch}

theorem projected_shows {out : RecordBatch} {schema : Schema} (starless : .star ∉ items)
    (projected : applyProject items schema
      ⟨keylessSchema items, [rowOf (fedItems items) b ⟨[], b.records⟩]⟩ = .ok out) :
    ∃ row, out.records = [row] ∧ Shows [] items b ⟨[], b.records⟩ row := by
  obtain ⟨_, rows⟩ := applyProject_rows projected
  generalize out.records = records at rows ⊢
  cases rows with
  | cons first rest =>
    cases rest
    have stands : StandsFor [] items b ⟨[], b.records⟩
        (rowOf (fedItems items) b ⟨[], b.records⟩) := ⟨rfl, rfl⟩
    exact ⟨_, rfl, (projectAll_shown stands (rowNames_eq [] items) starless).symm.trans first⟩

theorem shows_counts {row : Record} (shows' : Shows [] items b ⟨[], b.records⟩ row)
    (named : CountsNamed items) : Counts b.records.length items row := by
  intro i item listed counts
  have inside := List.mem_of_getElem? listed
  obtain ⟨v, place, value⟩ := mapM_at shows' listed
  rw [place, count_shown inside counts (named item inside counts) value]

theorem evaluates_of_meaningful (meaningful : Meaningful [] items b) :
    Evaluates [] (fedItems items) b :=
  ⟨meaningful.keyed, fun _ mem _ fed => argument_evaluates meaningful mem fed⟩

theorem aggregation_keyless {ctx : ExecutionContext} {q : UngroupedSelect}
    (ran : execute ctx q.keyless.input = .ok b) (meaningful : Meaningful [] q.items b) :
    execute ctx q.keyless.aggregation =
      .ok ⟨keylessSchema q.items, (groupsBy [] b).map (rowOf (fedItems q.items) b)⟩ := by
  rw [GroupedSelect.aggregation, execute, ran, ok_bind]
  exact aggregateBatch_ok (evaluates_of_meaningful meaningful) rfl

theorem groupsBy_some (some : b.records ≠ []) : groupsBy [] b = [⟨[], b.records⟩] := by
  rw [groupsBy_keyless, if_neg some]

theorem bare_of_oneRow {ctx : ExecutionContext} {q : UngroupedSelect} {n : Nat}
    (ran : execute ctx q.keyless.input = .ok b) (meaningful : Meaningful [] q.items b)
    (one : OneRow ctx q.keyless n) : b.records ≠ [] ∧ BareCalls q.items b := by
  obtain ⟨out, row, done, single, _⟩ := one
  rw [GroupedSelect.projection, projectNode, execute, aggregation_keyless ran meaningful,
    ok_bind] at done
  have some : b.records ≠ [] := by
    intro empty
    rw [groupsBy_keyless, if_pos empty] at done
    obtain ⟨_, rows⟩ := applyProject_rows done
    rw [single] at rows
    cases rows
  have grouped : ⟨[], b.records⟩ ∈ groupsBy [] b :=
    groupsBy_some some ▸ List.mem_singleton_self _
  rw [groupsBy_some some] at done
  obtain ⟨_, _, shows'⟩ := projected_shows (starless_of_group meaningful grouped) done
  refine ⟨some, fun r head item listed scalar => ?_⟩
  obtain ⟨v, value⟩ := isOk_iff.mp (mapM_isOk.mp (isOk_iff.mpr ⟨_, shows'⟩) item listed)
  obtain ⟨w, means⟩ := isOk_iff.mp (meaningful.meant _ grouped item listed)
  rw [shown, scalar] at value
  exact literal_of_read ⟨head, rfl, List.forall_mem_nil _⟩ means value

theorem oneRow_of_bare {ctx : ExecutionContext} {q : UngroupedSelect}
    (ran : execute ctx q.keyless.input = .ok b) (meaningful : Meaningful [] q.items b)
    (named : CountsNamed q.items) (some : b.records ≠ []) (bare : BareCalls q.items b) :
    OneRow ctx q.keyless b.records.length := by
  obtain ⟨r, rest, cons⟩ := List.exists_cons_of_ne_nil some
  have first : FirstRow [] b ⟨[], b.records⟩ r := ⟨by simp [cons], rfl, List.forall_mem_nil _⟩
  have single := groupsBy_some some
  have grouped : ⟨[], b.records⟩ ∈ groupsBy [] b := single ▸ List.mem_singleton_self _
  have starless := starless_of_group meaningful grouped
  have each : ∀ item ∈ q.items, (shown [] q.items b ⟨[], b.records⟩ item).isOk = true := by
    intro item listed
    cases called : callOf item with
    | some call => exact shown_of_call listed called
    | none =>
      obtain ⟨v, means⟩ := isOk_iff.mp (meaningful.meant _ grouped item listed)
      rw [shown, called]
      exact isOk_iff.mpr ⟨v, read_as_meant first (bare r first.first item listed called) means⟩
  have stand : List.Forall₂ (StandsFor [] q.items b) (groupsBy [] b)
      [rowOf (fedItems q.items) b ⟨[], b.records⟩] := by
    rw [single]
    exact .cons ⟨rfl, rfl⟩ .nil
  obtain ⟨out, projected⟩ : ∃ out, applyProject q.items
      ⟨q.items.flatMap (projectFields q.keyless.aggregation.outputSchema)⟩
      ⟨keylessSchema q.items, [rowOf (fedItems q.items) b ⟨[], b.records⟩]⟩ = .ok out := by
    refine projection_total (fun _ _ => starless) (rowNames_eq [] q.items) stand fun g mem => ?_
    rw [single] at mem
    obtain rfl := List.mem_singleton.mp mem
    exact each
  obtain ⟨row, single', shows'⟩ := projected_shows starless projected
  refine ⟨out, row, ?_, single', shows_counts shows' named⟩
  rw [GroupedSelect.projection, projectNode, execute, aggregation_keyless ran meaningful, single,
    List.map_singleton, ok_bind]
  exact projected

variable [SqlParser]

/-- A query with aggregates and without GROUP BY is planned. It runs and has one row before HAVING
    only if some row qualifies and its other items are computed from literals; then it does, with
    the right counts, where only counts bear their names. -/
theorem one_row_iff (ctx : ExecutionContext) (catalog : Catalog) (query : Query)
    (q : UngroupedSelect) (s b : RecordBatch) (read : readUngrouped catalog query = .ok q)
    (scanned : execute ctx q.source = .ok s) (ran : execute ctx q.keyless.input = .ok b)
    (meaningful : Meaningful [] q.items b) :
    planQuery catalog query = .ok q.keyless.plan ∧
      (OneRow ctx q.keyless (s.records.countP (qualifies q.selection s)) →
        (∃ r ∈ s.records, qualifies q.selection s r = true) ∧ BareCalls q.items b) ∧
      (CountsNamed q.items →
        (OneRow ctx q.keyless (s.records.countP (qualifies q.selection s)) ↔
          (∃ r ∈ s.records, qualifies q.selection s r = true) ∧ BareCalls q.items b)) := by
  have kept := input_rows scanned ran
  have number : s.records.countP (qualifies q.selection s) = b.records.length := by
    rw [kept, List.countP_eq_length_filter]
  have some : (∃ r ∈ s.records, qualifies q.selection s r = true) ↔ b.records ≠ [] := by
    rw [kept, ne_eq, List.filter_eq_nil_iff]
    simp
  rw [number, some]
  have needed := bare_of_oneRow (n := b.records.length) ran meaningful
  refine ⟨planQuery_ungrouped read, needed, fun named => ⟨needed, fun ⟨met, bare⟩ => ?_⟩⟩
  exact oneRow_of_bare ran meaningful named met bare

end Result

section Witness

def countRows : SqlExpr :=
  .function ⟨[⟨"COUNT"⟩], "COUNT"⟩ (.list [.unnamed .wildcard] false)

/-- `SELECT COUNT(*) FROM people WHERE ..` -/
def countQuery (condition : SqlExpr) : Query :=
  .mk false (.select ⟨none, [.unnamedExpr countRows],
      [⟨.table ⟨[⟨"people"⟩], "people"⟩ none, []⟩], some condition, .expressions [], none⟩)
    none none none

def counted (condition : Expr) : UngroupedSelect :=
  ⟨peopleScan, some condition, [rowCount], none, [], none⟩

theorem people_counted :
    @OneRow noRegex peopleContext (counted (.isNotNull (.column "name"))).keyless 5 := by
  have counts := ((@one_row_iff noRegex noParser peopleContext peopleCatalog
    (countQuery (.isNotNull (column "name"))) (counted (.isNotNull (.column "name"))) people people
    rfl rfl rfl (by decide)).2.2 ?_).mpr (by decide)
  · exact counts
  · intro item listed _ other found
    obtain rfl := List.mem_singleton.mp listed
    obtain rfl := Option.some.inj found
    exact ⟨false, rfl⟩

/-- `SELECT COUNT(*) FROM people WHERE name IS NULL` has no row at all. -/
theorem nobody_counted :
    ¬ ∀ (ctx : ExecutionContext) (catalog : Catalog) (query : Query) (q : UngroupedSelect)
      (s b : RecordBatch), @readUngrouped noParser catalog query = .ok q →
      @execute noRegex ctx q.source = .ok s → @execute noRegex ctx q.keyless.input = .ok b →
      @Meaningful noRegex [] q.items b →
      @OneRow noRegex ctx q.keyless (s.records.countP (@qualifies noRegex q.selection s)) := by
  intro claim
  obtain ⟨out, row, ran, single, _⟩ :=
    claim peopleContext peopleCatalog (countQuery (.isNull (column "name")))
      (counted (.isNull (.column "name"))) people ⟨peopleSchema, []⟩ rfl rfl rfl (by decide)
  have none : @execute noRegex peopleContext
      (counted (.isNull (.column "name"))).keyless.projection =
        .ok ⟨⟨[.new rowCount.displayName .int64]⟩, []⟩ := rfl
  obtain rfl := Except.ok.inj (none.symm.trans ran)
  cases single

end Witness

end RSparkGlobalAggregate
