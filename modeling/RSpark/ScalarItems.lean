import RSpark.ClauseLaw
import RSpark.SchemaFit

/- Items of a grouped SELECT that compute with aggregate calls or with computed keys: what the
   item means in a group, and what its text finds in the row that stands for the group. -/
namespace RSparkScalarItems
open RSparkValue RSparkBatch RSparkExpr RSparkPlan RSparkOperators RSparkExecutor RSparkSqlAst
open RSparkExprBuilder RSparkPlanner RSparkGrouping RSparkHavingRewrite RSparkClauses
open RSparkGroupedRows RSparkStages RSparkClauseLaw Listing
open RSparkSchemaContract (Conforms aggregateBatch_conforms applyFilter_conforms
  applyProject_conforms applySort_conforms)
open RSparkSchemaFit (applyFilter_fits applySort_fits applyLimit_fits uncheckedFilter uncheckedSort)

section Meaning
variable [Regex]

/-- The value of an expression over a group: an expression that `value` knows has that value,
    and a call has its aggregate. -/
def meaningOver (value : Expr → Option Value)
    (aggregate : AggregateFn → Expr → Bool → Result Value) : Expr → Result Value
  | .column name => (value (.column name)).elim (err (columnNotFound name)) .ok
  | .literal lit => (value (.literal lit)).elim (.ok lit.toValue) .ok
  | .binary op left right =>
      (value (.binary op left right)).elim (do
        let lv ← meaningOver value aggregate left
        let rv ← meaningOver value aggregate right
        evalBinary op lv rv) .ok
  | .not inner =>
      (value (.not inner)).elim (do evalNot (← meaningOver value aggregate inner)) .ok
  | .isNull inner =>
      (value (.isNull inner)).elim
        (do .ok (.boolean (← meaningOver value aggregate inner).isNull)) .ok
  | .isNotNull inner =>
      (value (.isNotNull inner)).elim
        (do .ok (.boolean !(← meaningOver value aggregate inner).isNull)) .ok
  | .ifExpr cond thenExpr elseExpr =>
      (value (.ifExpr cond thenExpr elseExpr)).elim (do
        let c ← meaningOver value aggregate cond
        if c = .boolean true then meaningOver value aggregate thenExpr
        else meaningOver value aggregate elseExpr) .ok
  | .aggregate func arg distinct =>
      (value (.aggregate func arg distinct)).elim (aggregate func arg distinct) .ok
  | .aliased expr name =>
      (value (.aliased expr name)).elim (meaningOver value aggregate expr) .ok
  | .star => err (.execution "* cannot be evaluated as a scalar")

/-- The rows of a group are those whose keys have one text; its key is that of the first. -/
def groupOf (keys : List Expr) (b : RecordBatch) (text : List String) : Group :=
  let rows := b.records.filter (groupText keys b · = text)
  ⟨(rows.head?.map (groupKey keys b)).getD [], rows⟩

def groupsBy (keys : List Expr) (b : RecordBatch) : List Group :=
  ((firsts (b.records.map (groupText keys b))).insertionSort (· ≤ ·)).map (groupOf keys b)

/-- What an item means in a group: an expression of GROUP BY has its value there. -/
def inGroup (keys : List Expr) (b : RecordBatch) (g : Group) : Expr → Result Value :=
  meaningOver (fun e => namedAt .null e keys g.key) (aggregateOf b g.rows)

/-- The item computes with an aggregate call or with a key that is no column. -/
def ComputesOver (keys : List Expr) (item : Expr) : Prop :=
  callOf item = none ∧
    (item.containsAggregate = true ∨ ∃ e ∈ parts item, e ∈ keys ∧ columnName e = none)

instance (keys : List Expr) (item : Expr) : Decidable (ComputesOver keys item) :=
  inferInstanceAs (Decidable (_ ∧ (_ ∨ _)))

/-- The accumulator of an item; one that is no call is never fed. -/
def held (b : RecordBatch) (rows : List Record) (item : Expr) : Value :=
  match accumulate b item rows with
  | .ok acc => acc.finish
  | .error _ => .null

def rowNames (keys items : List Expr) : List String :=
  keys.map Expr.displayName ++ (fedItems items).map Expr.displayName

def rowValues (items : List Expr) (b : RecordBatch) (g : Group) : List Value :=
  g.key ++ (fedItems items).map (held b g.rows)

def noCall (_ : AggregateFn) (_ : Expr) (_ : Bool) : Result Value :=
  err (.execution
    "aggregate expression cannot be evaluated against a row; use the aggregate operator")

/-- An item read by name: its columns stand for what the row has under their names, and no
    call can be evaluated. -/
def byName (keys items : List Expr) (b : RecordBatch) (g : Group) (item : Expr) : Result Value :=
  meaning (columnOf (rowNames keys items) (rowValues items b g)) noCall item

end Meaning

section Rows
variable [Regex] {keys items : List Expr} {b : RecordBatch}

structure StandsFor (keys items : List Expr) (b : RecordBatch) (g : Group) (row : Record) :
    Prop where
  values : row.values = rowValues items b g
  key : g.key.length = keys.length

theorem held_of_accumulate {rows : List Record} {item : Expr} {acc : Accumulator}
    (folded : accumulate b item rows = .ok acc) : held b rows item = acc.finish := by
  rw [held, folded]

theorem standsFor_of_summary {text : List String} {state : GroupState}
    (summary : Summarizes keys (fedItems items) b
      (b.records.filter (groupText keys b · = text)) state) :
    StandsFor keys items b (groupOf keys b text) state.row := by
  obtain ⟨r, first, key⟩ := summary.first
  obtain ⟨acc, accumulated, folded⟩ := summary.accumulators
  have same : (groupOf keys b text).key = groupKey keys b r := by
    simp only [groupOf, first, Option.map_some, Option.getD_some]
  constructor
  · show state.groupValues ++ state.accumulators.map Accumulator.finish = rowValues items b _
    rw [accumulated, key, rowValues, same, List.map_map]
    congr 1
    exact List.map_congr_left fun e listed => (held_of_accumulate (folded e listed)).symm
  · rw [same]
    exact evalAll_length (summary.evaluated r (List.mem_of_mem_head? first))

theorem groups_stand {schema : Schema} {a : RecordBatch}
    (ran : aggregateBatch keys (fedItems items) b schema = .ok a) :
    List.Forall₂ (StandsFor keys items b) (groupsBy keys b) a.records := by
  obtain ⟨groups, gathered, built⟩ := bind_eq_ok.mp ran
  obtain ⟨rfl, _⟩ := fromRecords_eq_ok.mp built
  obtain ⟨_, summaries⟩ := aggregateRecords_entries gathered
  rw [groupsBy, ← aggregateRecords_texts gathered, List.map_map]
  show List.Forall₂ _ _ ((groups.entries.map Prod.snd).map GroupState.row)
  rw [List.map_map, List.forall₂_map_left_iff, List.forall₂_map_right_iff]
  exact List.forall₂_same.mpr fun entry listed =>
    standsFor_of_summary (summaries entry.1 entry.2 listed)

end Rows

section Items
variable {keys items : List Expr} {b a : RecordBatch} {g : Group} {row : Record}

theorem starless_fields {schema : Schema} (starless : .star ∉ items) :
    items.flatMap (projectFields schema) =
      items.map fun item => Field.new item.displayName (inferDataType item) := by
  induction items with
  | nil => rfl
  | cons item rest ih =>
    rw [List.flatMap_cons, List.map_cons, ih fun listed => starless (List.mem_cons_of_mem _ listed)]
    cases item with
    | star => exact absurd List.mem_cons_self starless
    | _ => rfl

theorem projected_valid {schema : Schema} (starless : .star ∉ items) {values : List Value}
    (fits : values.length = items.length) :
    (⟨values⟩ : Record).Valid ⟨items.flatMap (projectFields schema)⟩ := by
  rw [starless_fields starless]
  constructor
  · simpa [Schema.fieldCount] using fits
  · rintro ⟨v, f⟩ mem _
    obtain ⟨item, _, rfl⟩ := List.mem_map.mp (List.of_mem_zip mem).2
    rfl

variable [Regex]

def shown (keys items : List Expr) (b : RecordBatch) (g : Group) (item : Expr) : Result Value :=
  match callOf item with
  | some _ => columnOf (rowNames keys items) (rowValues items b g) item.displayName
  | none => byName keys items b g item

theorem call_shown (keys : List Expr) (b : RecordBatch) (g : Group) {item : Expr} {call : Call}
    (called : callOf item = some call) (listed : item ∈ items) :
    ∃ v, namedAt .null item.displayName (rowNames keys items) (rowValues items b g) = some v ∧
      shown keys items b g item = .ok v := by
  have fed : item ∈ fedItems items := by
    refine List.mem_filter.mpr ⟨listed, ?_⟩
    unfold callOf at called
    split at called
    · rfl
    · rfl
    · exact nomatch called
  have known : item.displayName ∈ rowNames keys items :=
    List.mem_append_right _ (List.mem_map_of_mem fed)
  cases found : namedAt .null item.displayName (rowNames keys items) (rowValues items b g) with
  | none => exact absurd known (namedAt_eq_none.mp found)
  | some v =>
    refine ⟨v, rfl, ?_⟩
    rw [shown, called]
    exact orError_eq_ok.mpr found

theorem eval_byName (stands : StandsFor keys items b g row)
    (named : a.schema.fieldNames = rowNames keys items) (item : Expr) :
    item.eval row a = byName keys items b g item := by
  rw [← meaning_row row a item, byName, ← named, ← stands.values]
  congr 1
  funext name
  exact column_eval name row a

theorem projectValues_shown (stands : StandsFor keys items b g row)
    (named : a.schema.fieldNames = rowNames keys items) {item : Expr} (listed : item ∈ items)
    (notStar : item ≠ .star) :
    projectValues row a item = shown keys items b g item >>= fun v => .ok [v] := by
  cases called : callOf item with
  | some call =>
    obtain ⟨v, found, value⟩ := call_shown keys b g called listed
    rw [projectValues_call called, value, lookupByName_eq_ok.mpr]
    rw [named, stands.values]
    exact found
  | none =>
    rw [projectValues_scalar called notStar, eval_byName stands named, shown, called]

theorem projectAll_shown (stands : StandsFor keys items b g row)
    (named : a.schema.fieldNames = rowNames keys items) (starless : .star ∉ items) :
    projectAll row a items = items.mapM (shown keys items b g) := by
  have each : ∀ item ∈ items, projectValues row a item =
      shown keys items b g item >>= fun v => .ok [v] := fun item listed =>
    projectValues_shown stands named listed fun same => starless (same ▸ listed)
  rw [projectAll_eq, mapM_congr each, mapM_singletons]

end Items

section Plans

/-- A query of one SELECT with GROUP BY: the plan of its FROM and WHERE, and its other clauses
    translated. -/
structure GroupedSelect where
  input : LogicalPlan
  items : List Expr
  keys : List Expr
  having : Option Expr
  orderBy : List SortExpr
  limit : Option Nat

def readGrouped [SqlParser] (catalog : Catalog) : Query → Result GroupedSelect
  | .mk false (.select select) orderBy limit _ => do
      let tables ← buildFromTables select.from'
      let source ← buildFromClause tables catalog
      let input ← planWhere select.selection source
      let items ← buildSelectExpressions select
      let keys ← buildExprs (groupByExprs select.groupBy)
      let having ← readOption buildExpr select.having
      let orderBy ← buildSortKeys (orderBy.getD [])
      let limit ← readOption evalLimit limit
      if keys = [] then err (.sql "no GROUP BY")
      else .ok ⟨input, items, keys, having, orderBy, limit⟩
  | _ => err (.sql "not a query of one SELECT")

namespace GroupedSelect

def aggregation (q : GroupedSelect) : LogicalPlan :=
  .aggregate q.input q.keys (fedItems q.items)
    ⟨q.keys.map aggregateField ++ (fedItems q.items).map aggregateField⟩

def projection (q : GroupedSelect) : LogicalPlan := projectNode q.items q.aggregation

def plan (q : GroupedSelect) : LogicalPlan :=
  optional limitNode q.limit
    (planSort q.orderBy (optional (havingNode q.items) q.having q.projection))

end GroupedSelect

theorem optional_ok {α : Type} {read : SqlExpr → Result α} {clause : Option SqlExpr}
    {a : Option α} (known : readOption read clause = .ok a)
    (node : α → LogicalPlan → LogicalPlan) (input : LogicalPlan) :
    (clause.elim (.ok input) fun e => read e >>= fun a => .ok (node a input)) =
      .ok (optional node a input) := by
  cases clause with
  | none =>
    obtain rfl := Except.ok.inj known
    rfl
  | some e =>
    obtain ⟨a', built, known⟩ := bind_eq_ok.mp known
    obtain rfl := Except.ok.inj known
    show (read e >>= _) = _
    rw [built]
    rfl

theorem planQuery_aggregated [SqlParser] {catalog : Catalog} {select : Select}
    {orderBy : Option (List OrderByExpr)} {limit : Option SqlExpr} {offset : Option SqlExpr}
    {tables : List (String × Option String)} {source : LogicalPlan} {q : GroupedSelect}
    (from' : buildFromTables select.from' = .ok tables)
    (scanned : buildFromClause tables catalog = .ok source)
    (where' : planWhere select.selection source = .ok q.input)
    (listed : buildSelectExpressions select = .ok q.items)
    (grouped : buildExprs (groupByExprs select.groupBy) = .ok q.keys)
    (readH : readOption buildExpr select.having = .ok q.having)
    (readO : buildSortKeys (orderBy.getD []) = .ok q.orderBy)
    (readL : readOption evalLimit limit = .ok q.limit)
    (aggregates : ¬ (q.items.filter Expr.containsAggregate).isEmpty ∨ ¬ q.keys.isEmpty) :
    planQuery catalog (.mk false (.select select) orderBy limit offset) = .ok q.plan := by
  have body : planSelect select catalog =
      .ok (optional (havingNode q.items) q.having q.projection) := by
    rw [planSelect, from', ok_bind, scanned, ok_bind, where', ok_bind, listed, ok_bind,
      grouped, ok_bind, planSelectShape, if_pos aggregates, planAggregate,
      buildAggregateSchema, ok_bind, ok_bind, planProject, buildProjectSchema, ok_bind,
      ok_bind, planHaving_eq]
    exact optional_ok readH (havingNode q.items) _
  simp only [planQuery, Bool.false_eq_true, if_false, planSetExpr, body, ok_bind, readO,
    planLimit_eq]
  exact optional_ok readL limitNode _

theorem planQuery_grouped [SqlParser] {catalog : Catalog} {query : Query} {q : GroupedSelect}
    (read : readGrouped catalog query = .ok q) : planQuery catalog query = .ok q.plan := by
  unfold readGrouped at read
  split at read
  · rename_i select orderBy limit offset
    obtain ⟨tables, from', read⟩ := bind_eq_ok.mp read
    obtain ⟨source, scanned, read⟩ := bind_eq_ok.mp read
    obtain ⟨input, where', read⟩ := bind_eq_ok.mp read
    obtain ⟨items, listed, read⟩ := bind_eq_ok.mp read
    obtain ⟨keys, grouped, read⟩ := bind_eq_ok.mp read
    obtain ⟨having, readH, read⟩ := bind_eq_ok.mp read
    obtain ⟨order, readO, read⟩ := bind_eq_ok.mp read
    obtain ⟨n, readL, read⟩ := bind_eq_ok.mp read
    split at read
    · cases read
    · rename_i keyed
      obtain rfl := Except.ok.inj read
      exact planQuery_aggregated from' scanned where' listed grouped readH readO readL
        (Or.inr (by simpa using keyed))
  · cases read

variable [Regex] {ctx : ExecutionContext} {plan : LogicalPlan} {out : RecordBatch}

theorem having_leaves {items : List Expr} {having : Option Expr}
    (ran : execute ctx (optional (havingNode items) having plan) = .ok out) :
    ∃ input, execute ctx plan = .ok input ∧ out.records.Subperm input.records := by
  cases having with
  | none => exact ⟨out, ran, List.Subperm.refl _⟩
  | some h =>
    obtain ⟨input, below, ran⟩ := bind_eq_ok.mp ran
    obtain ⟨kept, filtered, built⟩ := bind_eq_ok.mp ran
    obtain ⟨rfl, _⟩ := fromRecords_eq_ok.mp built
    obtain ⟨_, rfl⟩ := filterRecords_eq filtered
    exact ⟨input, below, List.filter_sublist.subperm⟩

theorem sort_leaves {order : List SortExpr}
    (ran : execute ctx (planSort order plan) = .ok out) :
    ∃ input, execute ctx plan = .ok input ∧ out.records.Subperm input.records := by
  unfold planSort at ran
  split at ran
  · exact ⟨out, ran, List.Subperm.refl _⟩
  · obtain ⟨input, below, ran⟩ := bind_eq_ok.mp ran
    obtain ⟨sorted, sort, built⟩ := bind_eq_ok.mp ran
    obtain ⟨rfl, _⟩ := fromRecords_eq_ok.mp built
    obtain ⟨keyed, found, built⟩ := bind_eq_ok.mp sort
    obtain ⟨rfl, _⟩ := fromRecords_eq_ok.mp built
    refine ⟨input, below, List.Perm.subperm ?_⟩
    rw [← keyedRecords_fst found]
    exact (List.perm_insertionSort _ keyed).map Prod.fst

theorem limit_leaves {limit : Option Nat}
    (ran : execute ctx (optional limitNode limit plan) = .ok out) :
    ∃ input, execute ctx plan = .ok input ∧ out.records.Subperm input.records := by
  cases limit with
  | none => exact ⟨out, ran, List.Subperm.refl _⟩
  | some n =>
    obtain ⟨input, below, ran⟩ := bind_eq_ok.mp ran
    obtain ⟨limited, take, built⟩ := bind_eq_ok.mp ran
    obtain ⟨rfl, _⟩ := fromRecords_eq_ok.mp built
    obtain ⟨rfl, _⟩ := fromRecords_eq_ok.mp take
    exact ⟨input, below, (List.take_sublist n _).subperm⟩

theorem plan_leaves {q : GroupedSelect} (ran : execute ctx q.plan = .ok out) :
    ∃ projected, execute ctx q.projection = .ok projected ∧
      out.records.Subperm projected.records := by
  obtain ⟨ordered, below, limited⟩ := limit_leaves ran
  obtain ⟨kept, below, sorted⟩ := sort_leaves below
  obtain ⟨projected, below, filtered⟩ := having_leaves below
  exact ⟨projected, below, limited.trans (sorted.trans filtered)⟩

end Plans

section Domain
variable [Regex] {keys items : List Expr} {b : RecordBatch} {q : GroupedSelect}

/-- The expressions of GROUP BY have values on the rows, and the items in the groups. -/
structure Meaningful (keys items : List Expr) (b : RecordBatch) : Prop where
  keyed : ∀ r ∈ b.records, (evalAll r b keys).isOk = true
  meant : ∀ g ∈ groupsBy keys b, ∀ item ∈ items, (inGroup keys b g item).isOk = true

instance (keys items : List Expr) (b : RecordBatch) : Decidable (Meaningful keys items b) :=
  decidable_of_iff ((∀ r ∈ b.records, (evalAll r b keys).isOk = true) ∧
      ∀ g ∈ groupsBy keys b, ∀ item ∈ items, (inGroup keys b g item).isOk = true)
    ⟨fun h => ⟨h.1, h.2⟩, fun h => ⟨h.keyed, h.meant⟩⟩

theorem starless_of_group (meaningful : Meaningful keys items b) {g : Group}
    (grouped : g ∈ groupsBy keys b) : .star ∉ items :=
  fun listed => nomatch meaningful.meant g grouped .star listed

theorem group_of_row (keys : List Expr) {r : Record} (mem : r ∈ b.records) :
    ∃ g ∈ groupsBy keys b, r ∈ g.rows := by
  refine ⟨groupOf keys b (groupText keys b r), List.mem_map_of_mem ?_, ?_⟩
  · rw [List.mem_insertionSort, mem_firsts]
    exact List.mem_map_of_mem mem
  · exact List.mem_filter.mpr ⟨mem, by simp⟩

theorem key_evaluates {r : Record} {e : Expr} (evaluated : (evalAll r b keys).isOk = true)
    (listed : e ∈ keys) : (e.eval r b).isOk = true := by
  rw [evalAll_eq] at evaluated
  exact mapM_isOk.mp evaluated e listed

theorem inGroup_call {r : Record} (evaluated : (evalAll r b keys).isOk = true) {item : Expr}
    {call : Call} (called : callOf item = some call) (g : Group) :
    inGroup keys b g item = aggregateOf b g.rows call.func call.arg call.distinct := by
  have foreign {e : Expr} (refused : (e.eval r b).isOk = false) :
      namedAt .null e keys g.key = none :=
    namedAt_eq_none.mpr fun listed => by simp [key_evaluates evaluated listed] at refused
  unfold callOf at called
  split at called
  · obtain rfl := Option.some.inj called
    rw [inGroup, meaningOver, foreign rfl]
    rfl
  · obtain rfl := Option.some.inj called
    rw [inGroup, meaningOver, foreign rfl, Option.elim_none, meaningOver, foreign rfl]
    rfl
  · exact nomatch called

theorem argument_evaluates (meaningful : Meaningful keys items b) {r : Record}
    (mem : r ∈ b.records) {e : Expr} (fed : e ∈ fedItems items) :
    ∀ arg ∈ aggregateArg e, (arg.1.eval r b).isOk = true := by
  rintro ⟨arg, distinct⟩ found
  obtain ⟨call, called, rfl⟩ : ∃ call, callOf e = some call ∧ call.arg = arg := by
    unfold aggregateArg at found
    split at found
    · cases found
      exact ⟨_, rfl, rfl⟩
    · cases found
      exact ⟨_, rfl, rfl⟩
    · exact nomatch found
  obtain ⟨g, grouped, inside⟩ := group_of_row keys mem
  obtain ⟨v, value⟩ := isOk_iff.mp
    (meaningful.meant g grouped e (List.mem_of_mem_filter fed))
  rw [inGroup_call (meaningful.keyed r mem) called] at value
  obtain ⟨args, evaluated, _⟩ := bind_eq_ok.mp value
  exact mapM_isOk.mp (isOk_iff.mpr ⟨args, evaluated⟩) r inside

end Domain

section Execution
variable {keys items : List Expr} {b a : RecordBatch}

theorem rowNames_eq (keys items : List Expr) :
    (⟨keys.map aggregateField ++ (fedItems items).map aggregateField⟩ : Schema).fieldNames =
      rowNames keys items := by
  simp [Schema.fieldNames, aggregateField, Field.new, rowNames, Function.comp_def]

variable [Regex]

theorem stands_valid {g : Group} {row : Record} (stands : StandsFor keys items b g row) :
    row.Valid ⟨keys.map aggregateField ++ (fedItems items).map aggregateField⟩ := by
  constructor
  · rw [stands.values, rowValues]
    simp [stands.key, Schema.fieldCount]
  · rintro ⟨v, f⟩ mem _
    rcases List.mem_append.mp (List.of_mem_zip mem).2 with key | fed
    · obtain ⟨e, _, rfl⟩ := List.mem_map.mp key
      rfl
    · obtain ⟨e, _, rfl⟩ := List.mem_map.mp fed
      rfl

theorem aggregation_total (meaningful : Meaningful keys items b) :
    ∃ a, aggregateBatch keys (fedItems items) b
      ⟨keys.map aggregateField ++ (fedItems items).map aggregateField⟩ = .ok a := by
  obtain ⟨groups, gathered⟩ := isOk_iff.mp (aggregateRecords_total .empty meaningful.keyed
    fun r mem e fed => argument_evaluates meaningful mem fed)
  obtain ⟨_, summaries⟩ := aggregateRecords_entries gathered
  refine ⟨_, (bind_eq_ok.mpr ⟨groups, gathered, fromRecords_of_valid ?_⟩)⟩
  intro row mem
  obtain ⟨state, listed, rfl⟩ := List.mem_map.mp mem
  obtain ⟨entry, found, rfl⟩ := List.mem_map.mp listed
  exact stands_valid (standsFor_of_summary (summaries entry.1 entry.2 found))

def Shows (keys items : List Expr) (b : RecordBatch) (g : Group) (row : Record) : Prop :=
  items.mapM (shown keys items b g) = .ok row.values

theorem projection_shows (starless : ∀ g ∈ groupsBy keys b, .star ∉ items)
    (named : a.schema.fieldNames = rowNames keys items)
    (stand : List.Forall₂ (StandsFor keys items b) (groupsBy keys b) a.records)
    {schema : Schema} {projected : RecordBatch}
    (ran : applyProject items schema a = .ok projected) :
    List.Forall₂ (Shows keys items b) (groupsBy keys b) projected.records := by
  obtain ⟨_, rows⟩ := applyProject_rows ran
  refine (forall₂_inside (forall₂_through stand rows)).imp fun g row inside => ?_
  obtain ⟨grouped, _, ρ, stands, found⟩ := inside
  rw [Shows, ← projectAll_shown stands named (starless g grouped)]
  exact found

theorem projectRecords_total {schema : Schema} {records : List Record}
    (each : ∀ r ∈ records, ∃ values, projectAll r a items = .ok values ∧
      (⟨values⟩ : Record).Valid schema) :
    ∃ rows, projectRecords items a schema records = .ok rows ∧ ∀ row ∈ rows, row.Valid schema := by
  induction records with
  | nil => exact ⟨[], rfl, fun row mem => nomatch mem⟩
  | cons r rest ih =>
    obtain ⟨first, later⟩ := List.forall_mem_cons.mp each
    obtain ⟨values, here, valid⟩ := first
    obtain ⟨rows, there, valids⟩ := ih later
    refine ⟨⟨values⟩ :: rows, ?_, List.forall_mem_cons.mpr ⟨valid, valids⟩⟩
    have record : projectRecord items r a schema = .ok ⟨values⟩ := by
      rw [projectRecord, here, ok_bind]
      exact check_bind_eq_ok.mpr ⟨(validate_eq_ok _ _).mpr valid, rfl⟩
    rw [projectRecords, record, ok_bind, there, ok_bind]

theorem applyProject_total {schema : Schema} (starless : a.records ≠ [] → .star ∉ items)
    (each : ∀ r ∈ a.records, ∃ values, projectAll r a items = .ok values ∧
      (⟨values⟩ : Record).Valid schema) :
    ∃ projected, applyProject items schema a = .ok projected := by
  unfold applyProject
  split
  · rename_i star
    have empty : a.records = [] := by
      by_contra some
      exact starless some (by simp [single_star star])
    rw [empty]
    exact ⟨_, fromRecords_of_valid fun row mem => nomatch mem⟩
  · obtain ⟨rows, found, valid⟩ := projectRecords_total each
    exact ⟨_, bind_eq_ok.mpr ⟨rows, found, fromRecords_of_valid valid⟩⟩

theorem projection_total (starless : ∀ g ∈ groupsBy keys b, .star ∉ items)
    (named : a.schema.fieldNames = rowNames keys items)
    (stand : List.Forall₂ (StandsFor keys items b) (groupsBy keys b) a.records) {schema : Schema}
    (each : ∀ g ∈ groupsBy keys b, ∀ item ∈ items, (shown keys items b g item).isOk = true) :
    ∃ projected, applyProject items ⟨items.flatMap (projectFields schema)⟩ a = .ok projected := by
  have grouped : ∀ r ∈ a.records, ∃ g ∈ groupsBy keys b, StandsFor keys items b g r :=
    forall₂_mem stand
  refine applyProject_total (fun some => ?_) fun r mem => ?_
  · obtain ⟨r, mem⟩ := List.exists_mem_of_ne_nil _ some
    obtain ⟨g, inside, _⟩ := grouped r mem
    exact starless g inside
  · obtain ⟨g, inside, stands⟩ := grouped r mem
    obtain ⟨values, found⟩ := isOk_iff.mp (mapM_isOk.mpr (each g inside))
    exact ⟨values, (projectAll_shown stands named (starless g inside)).trans found,
      projected_valid (starless g inside) (mapM_eq_ok.mp found).length_eq.symm⟩

end Execution

section Readings
variable [Regex] {keys items : List Expr} {b : RecordBatch} {g : Group} {item : Expr}

instance : Inhabited Value := ⟨.null⟩

def valueAt (b : RecordBatch) (r : Record) (e : Expr) : Value := answer (e.eval r b)

/-- On the row the item is computed from literals and from columns that are found first under
    their names among the keys; no call is reached. -/
def readsKeys (keys : List Expr) (b : RecordBatch) (r : Record) : Expr → Bool
  | .column name => keys.find? (·.displayName = name) = some (.column name)
  | .literal _ => true
  | .binary _ left right => readsKeys keys b r left && readsKeys keys b r right
  | .not inner | .isNull inner | .isNotNull inner | .aliased inner _ => readsKeys keys b r inner
  -- the row decides which branch is reached
  | .ifExpr cond thenExpr elseExpr =>
      readsKeys keys b r cond &&
        if cond.eval r b = .ok (.boolean true) then readsKeys keys b r thenExpr
        else readsKeys keys b r elseExpr
  | .aggregate _ _ _ | .star => false

structure FirstRow (keys : List Expr) (b : RecordBatch) (g : Group) (r : Record) : Prop where
  first : g.rows.head? = some r
  key : g.key = keys.map (valueAt b r)
  evaluated : ∀ e ∈ keys, e.eval r b = .ok (valueAt b r e)

theorem group_first (keyed : ∀ r ∈ b.records, (evalAll r b keys).isOk = true)
    (grouped : g ∈ groupsBy keys b) : ∃ r ∈ b.records, FirstRow keys b g r := by
  obtain ⟨text, occurs, rfl⟩ := List.mem_map.mp grouped
  rw [List.mem_insertionSort, mem_firsts] at occurs
  obtain ⟨r, mem, same⟩ := List.mem_map.mp occurs
  cases first : (groupOf keys b text).rows with
  | nil =>
    have inside : r ∈ (groupOf keys b text).rows := List.mem_filter.mpr ⟨mem, by simp [same]⟩
    exact nomatch first ▸ inside
  | cons r₀ rest =>
    have inside : r₀ ∈ b.records := List.mem_of_mem_filter (first ▸ List.mem_cons_self)
    obtain ⟨values, found⟩ := isOk_iff.mp (keyed r₀ inside)
    have key : (groupOf keys b text).key = values := by
      show ((groupOf keys b text).rows.head?.map (groupKey keys b)).getD [] = values
      rw [first, List.head?_cons, Option.map_some, Option.getD_some, groupKey, found]
      rfl
    rw [evalAll_eq] at found
    obtain ⟨rfl, evaluated⟩ := mapM_eq_map found
    exact ⟨r₀, inside, by rw [first, List.head?_cons], key, evaluated⟩

variable {r : Record}

theorem namedAt_row (of : FirstRow keys b g r) (items : List Expr) (name : String) :
    namedAt .null name (rowNames keys items) (rowValues items b g) =
      ((keys.find? (·.displayName = name)).map (valueAt b r)).or
        (((fedItems items).find? (·.displayName = name)).map (held b g.rows)) := by
  rw [rowNames, rowValues, namedAt_append (by simp [of.key]), of.key, namedAt_map, namedAt_map]

theorem byName_eval (of : FirstRow keys b g r) {e : Expr} (reads : readsKeys keys b r e = true) :
    byName keys items b g e = e.eval r b := by
  unfold byName
  induction e with
  | column name =>
    have first := of_decide_eq_true reads
    have listed := List.mem_of_find?_eq_some first
    rw [meaning, columnOf, namedAt_row of, first, of.evaluated _ listed]
    rfl
  | literal lit => rfl
  | binary op left right ihl ihr =>
    obtain ⟨readsL, readsR⟩ := Bool.and_eq_true_iff.mp reads
    rw [meaning, Expr.eval, ihl readsL, ihr readsR]
  | not inner ih | isNull inner ih | isNotNull inner ih =>
    rw [meaning, Expr.eval, ih reads]
  | ifExpr cond thenExpr elseExpr ihc iht ihe =>
    obtain ⟨readsC, readsB⟩ := Bool.and_eq_true_iff.mp reads
    rw [meaning, Expr.eval, ihc readsC]
    cases decided : cond.eval r b with
    | error e => rfl
    | ok c =>
      simp only [decided, Except.ok.injEq] at readsB
      rw [ok_bind, ok_bind]
      split at readsB
      · rename_i holds
        rw [if_pos holds, if_pos holds, iht readsB]
      · rename_i fails
        rw [if_neg fails, if_neg fails, ihe readsB]
  | aggregate func arg distinct _ => cases reads
  | aliased inner name ih => exact ih reads
  | star => cases reads

theorem eval_of_meaningOver {value : Expr → Option Value}
    {aggregate : AggregateFn → Expr → Bool → Result Value}
    (known : ∀ e v, value e = some v → e.eval r b = .ok v) {e : Expr}
    (reads : readsKeys keys b r e = true) {v : Value}
    (means : meaningOver value aggregate e = .ok v) : e.eval r b = .ok v := by
  induction e generalizing v with
  | column name =>
    rcases elim_eq_ok means with here | lost
    · exact known _ _ here
    · exact absurd lost (err_ne_ok _ _)
  | literal lit =>
    rcases elim_eq_ok means with here | means
    · exact known _ _ here
    · exact means
  | binary op left right ihl ihr =>
    rcases elim_eq_ok means with here | means
    · exact known _ _ here
    · obtain ⟨readsL, readsR⟩ := Bool.and_eq_true_iff.mp reads
      obtain ⟨lv, hl, means⟩ := bind_eq_ok.mp means
      obtain ⟨rv, hr, means⟩ := bind_eq_ok.mp means
      rw [Expr.eval, ihl readsL hl, ihr readsR hr]
      exact means
  | not inner ih | isNull inner ih | isNotNull inner ih =>
    rcases elim_eq_ok means with here | means
    · exact known _ _ here
    · obtain ⟨iv, hi, means⟩ := bind_eq_ok.mp means
      rw [Expr.eval, ih reads hi]
      exact means
  | ifExpr cond thenExpr elseExpr ihc iht ihe =>
    rcases elim_eq_ok means with here | means
    · exact known _ _ here
    · obtain ⟨readsC, readsB⟩ := Bool.and_eq_true_iff.mp reads
      obtain ⟨cv, hc, means⟩ := bind_eq_ok.mp means
      have decided := ihc readsC hc
      simp only [decided, Except.ok.injEq] at readsB
      rw [Expr.eval, decided, ok_bind]
      split at means
      · rename_i holds
        rw [if_pos holds] at readsB ⊢
        exact iht readsB means
      · rename_i fails
        rw [if_neg fails] at readsB ⊢
        exact ihe readsB means
  | aggregate func arg distinct _ => cases reads
  | aliased inner name ih =>
    rcases elim_eq_ok means with here | means
    · exact known _ _ here
    · exact ih reads means
  | star => cases reads

theorem read_as_meant (of : FirstRow keys b g r) (reads : readsKeys keys b r item = true)
    {v : Value} (means : inGroup keys b g item = .ok v) : byName keys items b g item = .ok v := by
  have known : ∀ e w, namedAt .null e keys g.key = some w → e.eval r b = .ok w := by
    intro e w found
    rw [of.key, namedAt_image] at found
    split at found
    · rename_i inside
      exact Option.some.inj found ▸ of.evaluated e inside
    · exact nomatch found
  rw [byName_eval of reads]
  exact eval_of_meaningOver known reads means

/-- Whatever the row of a group has under the name of a column of the item is the column. -/
def Unhidden (keys items : List Expr) (item : Expr) : Prop :=
  ∀ name ∈ columnsOf item, ∀ e ∈ keys ++ fedItems items, e.displayName = name → e = .column name

theorem reads_of_byName (of : FirstRow keys b g r) {e : Expr} (unhidden : Unhidden keys items e)
    {v : Value} (read : byName keys items b g e = .ok v) : readsKeys keys b r e = true := by
  have parts {e e' : Expr} (sub : ∀ name ∈ columnsOf e', name ∈ columnsOf e)
      (unhidden : Unhidden keys items e) : Unhidden keys items e' :=
    fun name inside => unhidden name (sub name inside)
  induction e generalizing v with
  | column name =>
    have alone := unhidden name List.mem_cons_self
    have found := orError_eq_ok.mp read
    rw [namedAt_row of] at found
    refine decide_eq_true ?_
    cases first : keys.find? (·.displayName = name) with
    | some e =>
      have same := alone e (List.mem_append_left _ (List.mem_of_find?_eq_some first))
        (by simpa using List.find?_some first)
      rw [same]
    | none =>
      rw [first, Option.map_none, Option.none_or] at found
      obtain ⟨e, fed, _⟩ := Option.map_eq_some_iff.mp found
      have listed := List.mem_of_find?_eq_some fed
      have same := alone e (List.mem_append_right _ listed) (by simpa using List.find?_some fed)
      subst same
      exact absurd (List.mem_filter.mp listed).2 Bool.false_ne_true
  | literal lit => rfl
  | binary op left right ihl ihr =>
    obtain ⟨lv, hl, read⟩ := bind_eq_ok.mp read
    obtain ⟨rv, hr, _⟩ := bind_eq_ok.mp read
    rw [readsKeys, ihl (parts (by simp [columnsOf_binary]; tauto) unhidden) hl,
      ihr (parts (by simp [columnsOf_binary]; tauto) unhidden) hr]
    rfl
  | not inner ih | isNull inner ih | isNotNull inner ih =>
    obtain ⟨iv, hi, _⟩ := bind_eq_ok.mp read
    exact ih (parts (fun name inside => inside) unhidden) hi
  | ifExpr cond thenExpr elseExpr ihc iht ihe =>
    obtain ⟨cv, hc, read⟩ := bind_eq_ok.mp read
    have readsC := ihc (parts (by simp [columnsOf_if]; tauto) unhidden) hc
    have decided := (byName_eval of readsC).symm.trans hc
    rw [readsKeys, readsC, decided, Bool.true_and]
    simp only [Except.ok.injEq]
    split at read
    · rename_i holds
      rw [if_pos holds]
      exact iht (parts (by simp [columnsOf_if]; tauto) unhidden) read
    · rename_i fails
      rw [if_neg fails]
      exact ihe (parts (by simp [columnsOf_if]; tauto) unhidden) read
  | aggregate func arg distinct _ => exact absurd read (err_ne_ok _ _)
  | aliased inner name ih => exact ih (parts (fun name inside => inside) unhidden) read
  | star => exact absurd read (err_ne_ok _ _)

theorem shown_of_call {call : Call} (listed : item ∈ items) (called : callOf item = some call) :
    (shown keys items b g item).isOk = true := by
  obtain ⟨v, _, value⟩ := call_shown keys b g called listed
  exact isOk_iff.mpr ⟨v, value⟩

end Readings

section Later
variable [Regex] {ctx : ExecutionContext} {q : GroupedSelect} {table : RecordBatch}

def havingRows (q : GroupedSelect) (table : RecordBatch) : RecordBatch :=
  ⟨table.schema, table.records.filter fun row =>
    q.having.all fun h => keeps (rewriteHaving q.items h) table row⟩

/-- HAVING has a truth value on each row, and the sort keys have values on the rows that it
    keeps. -/
structure LaterRuns (q : GroupedSelect) (table : RecordBatch) : Prop where
  having : ∀ h ∈ q.having, ∀ row ∈ table.records,
    (evalPredicate (rewriteHaving q.items h) row table).isOk = true
  order : ∀ row ∈ (havingRows q table).records, ∀ key ∈ q.orderBy,
    (key.expr.eval row (havingRows q table)).isOk = true

theorem filterRecords_total {predicate : Expr} {batch : RecordBatch} {records : List Record} :
    (filterRecords predicate batch records).isOk = true ↔
      ∀ row ∈ records, (evalPredicate predicate row batch).isOk = true := by
  constructor
  · intro filtered row mem
    obtain ⟨kept, found⟩ := isOk_iff.mp filtered
    exact isOk_iff.mpr ⟨_, (filterRecords_eq found).1 row mem⟩
  · intro each
    induction records with
    | nil => rfl
    | cons row rest ih =>
      obtain ⟨here, later⟩ := List.forall_mem_cons.mp each
      obtain ⟨keep, decided⟩ := isOk_iff.mp here
      obtain ⟨kept, found⟩ := isOk_iff.mp (ih later)
      refine isOk_iff.mpr ⟨if keep then row :: kept else kept, ?_⟩
      rw [filterRecords, decided, ok_bind, found, ok_bind]

theorem keyedRecords_total {order : List SortExpr} {batch : RecordBatch} {records : List Record} :
    (keyedRecords order batch records).isOk = true ↔
      ∀ row ∈ records, ∀ key ∈ order, (key.expr.eval row batch).isOk = true := by
  have each (row : Record) : (evalAll row batch (order.map SortExpr.expr) >>= fun keys =>
      (.ok (row, keys) : Result _)).isOk = true ↔
        ∀ key ∈ order, (key.expr.eval row batch).isOk = true := by
    have all : (evalAll row batch (order.map SortExpr.expr)).isOk = true ↔
        ∀ key ∈ order, (key.expr.eval row batch).isOk = true := by
      rw [evalAll_eq, mapM_isOk, List.forall_mem_map]
    rw [isOk_then, all]
  rw [keyedRecords_eq, mapM_isOk]
  exact forall₂_congr fun row _ => each row

variable {plan : LogicalPlan}

theorem having_runs (conforms : Conforms table plan.outputSchema)
    (ran : execute ctx plan = .ok table) :
    ((execute ctx (optional (havingNode q.items) q.having plan)).isOk = true ↔
      ∀ h ∈ q.having, ∀ row ∈ table.records,
        (evalPredicate (rewriteHaving q.items h) row table).isOk = true) ∧
    ∀ kept, execute ctx (optional (havingNode q.items) q.having plan) = .ok kept →
      kept = havingRows q table ∧
        Conforms kept (optional (havingNode q.items) q.having plan).outputSchema := by
  unfold havingRows
  cases q.having with
  | none =>
    refine ⟨iff_of_true (isOk_iff.mpr ⟨table, ran⟩) nofun, fun kept same => ?_⟩
    obtain rfl := Except.ok.inj (ran.symm.trans same)
    exact ⟨by simp, conforms⟩
  | some h =>
    have filtered : execute ctx (havingNode q.items h plan) =
        applyFilter (rewriteHaving q.items h) plan.outputSchema table := by
      rw [havingNode, execute, ran, ok_bind]
    show (((execute ctx (havingNode q.items h plan)).isOk = true ↔ _) ∧ ∀ kept, execute ctx
      (havingNode q.items h plan) = .ok kept → _ ∧ Conforms kept plan.outputSchema)
    rw [filtered]
    constructor
    · rw [applyFilter_fits conforms, uncheckedFilter, isOk_then, filterRecords_total]
      refine ⟨fun each h' same => ?_, fun each => each h rfl⟩
      obtain rfl := Option.some.inj same
      exact each
    · intro kept done
      have conforms' := applyFilter_conforms done
      obtain ⟨records, found, built⟩ := bind_eq_ok.mp done
      obtain ⟨rfl, _⟩ := fromRecords_eq_ok.mp built
      obtain ⟨_, rfl⟩ := filterRecords_eq found
      refine ⟨?_, conforms'⟩
      rw [conforms.1]
      simp

theorem sort_runs (conforms : Conforms table plan.outputSchema)
    (ran : execute ctx plan = .ok table) (order : List SortExpr) :
    ((execute ctx (planSort order plan)).isOk = true ↔
      ∀ row ∈ table.records, ∀ key ∈ order, (key.expr.eval row table).isOk = true) ∧
    ∀ sorted, execute ctx (planSort order plan) = .ok sorted →
      Conforms sorted (planSort order plan).outputSchema := by
  unfold planSort
  split
  · rename_i empty
    obtain rfl := List.isEmpty_iff.mp empty
    refine ⟨iff_of_true (isOk_iff.mpr ⟨table, ran⟩) fun _ _ => nofun, fun sorted same => ?_⟩
    obtain rfl := Except.ok.inj (ran.symm.trans same)
    exact conforms
  · rw [execute, ran, ok_bind]
    refine ⟨?_, fun sorted done => applySort_conforms done⟩
    rw [applySort_fits conforms, uncheckedSort, isOk_then, keyedRecords_total]

theorem plan_runs_iff (conforms : Conforms table q.projection.outputSchema)
    (ran : execute ctx q.projection = .ok table) :
    (execute ctx q.plan).isOk = true ↔ LaterRuns q table := by
  obtain ⟨havings, filtered⟩ := having_runs conforms ran
  have limited {sorted : LogicalPlan} {rows : RecordBatch}
      (fits : Conforms rows sorted.outputSchema) (done : execute ctx sorted = .ok rows) :
      (execute ctx (optional limitNode q.limit sorted)).isOk = true := by
    cases q.limit with
    | none => exact isOk_iff.mpr ⟨rows, done⟩
    | some n =>
      refine isOk_iff.mpr ⟨⟨sorted.outputSchema, rows.records.take n⟩, ?_⟩
      show execute ctx (limitNode n sorted) = _
      rw [limitNode, execute, done, ok_bind, applyLimit_fits fits]
  constructor
  · intro whole
    obtain ⟨out, whole⟩ := isOk_iff.mp whole
    obtain ⟨sorted, below, _⟩ := limit_leaves whole
    obtain ⟨kept, kept', _⟩ := sort_leaves below
    obtain ⟨rfl, fits⟩ := filtered kept kept'
    exact ⟨havings.mp (isOk_iff.mpr ⟨_, kept'⟩),
      (sort_runs fits kept' q.orderBy).1.mp (isOk_iff.mpr ⟨_, below⟩)⟩
  · intro later
    obtain ⟨kept, kept'⟩ := isOk_iff.mp (havings.mpr later.having)
    obtain ⟨rfl, fits⟩ := filtered kept kept'
    obtain ⟨sorts, sortsFit⟩ := sort_runs fits kept' q.orderBy
    obtain ⟨sorted, done⟩ := isOk_iff.mp (sorts.mpr later.order)
    exact limited (sortsFit sorted done) done

end Later

section Result
variable [Regex] {keys items : List Expr} {b : RecordBatch}

/-- In a row of the SELECT list each item that computes with a call or a key has its value in
    the group. -/
def Right (keys items : List Expr) (b : RecordBatch) (g : Group) (row : Record) : Prop :=
  List.Forall₂ (fun item v => ComputesOver keys item → inGroup keys b g item = .ok v)
    items row.values

def listedValue (keys items : List Expr) (b : RecordBatch) (g : Group) (item : Expr) :
    Result Value :=
  match callOf item with
  | some _ => columnOf (rowNames keys items) (rowValues items b g) item.displayName
  | none => inGroup keys b g item

def selectList (q : GroupedSelect) (b : RecordBatch) : RecordBatch :=
  ⟨q.projection.outputSchema, (groupsBy q.keys b).map fun g =>
    ⟨q.items.map fun item => answer (listedValue q.keys q.items b g item)⟩⟩

/-- In every group the items that are no calls read the keys alone, and HAVING and the sort keys
    have values on the SELECT list. -/
structure Answerable (q : GroupedSelect) (b : RecordBatch) : Prop where
  read : ∀ g ∈ groupsBy q.keys b, ∀ r ∈ g.rows.head?, ∀ item ∈ q.items, callOf item = none →
    readsKeys q.keys b r item = true
  later : LaterRuns q (selectList q b)

theorem shown_listed {g : Group} {r : Record} (of : FirstRow keys b g r) {item : Expr}
    (reads : callOf item = none → readsKeys keys b r item = true) (listed : item ∈ items)
    (meant : (inGroup keys b g item).isOk = true) :
    shown keys items b g item = .ok (answer (listedValue keys items b g item)) := by
  cases called : callOf item with
  | some call =>
    obtain ⟨v, found, value⟩ := call_shown keys b g called listed
    rw [value, listedValue, called]
    dsimp only
    rw [columnOf, found]
    rfl
  | none =>
    obtain ⟨v, means⟩ := isOk_iff.mp meant
    have read : shown keys items b g item = .ok v := by
      rw [shown, called]
      exact read_as_meant of (reads called) means
    rw [read, listedValue, called]
    dsimp only
    rw [means]
    rfl

theorem row_listed {g : Group} {row : Record}
    (each : ∀ item ∈ items, shown keys items b g item =
      .ok (answer (listedValue keys items b g item))) (shows' : Shows keys items b g row) :
    (⟨items.map fun item => answer (listedValue keys items b g item)⟩ : Record) = row := by
  rw [Shows, mapM_eq_ok] at shows'
  obtain ⟨values⟩ := row
  congr 1
  rw [← List.forall₂_eq_eq_eq, List.forall₂_map_left_iff]
  refine (forall₂_inside shows').imp fun item v inside => ?_
  exact Except.ok.inj ((each item inside.1).symm.trans inside.2.2)

theorem list_right {g : Group} (meant : ∀ item ∈ items, (inGroup keys b g item).isOk = true) :
    Right keys items b g ⟨items.map fun item => answer (listedValue keys items b g item)⟩ := by
  rw [Right, List.forall₂_map_right_iff]
  refine List.forall₂_same.mpr fun item listed computes => ?_
  obtain ⟨v, means⟩ := isOk_iff.mp (meant item listed)
  rw [listedValue, computes.1]
  dsimp only
  rw [means]
  rfl

variable {ctx : ExecutionContext} {q : GroupedSelect}

theorem projection_run (ran : execute ctx q.input = .ok b)
    (meaningful : Meaningful q.keys q.items b) :
    ∃ a, a.schema.fieldNames = rowNames q.keys q.items ∧
      List.Forall₂ (StandsFor q.keys q.items b) (groupsBy q.keys b) a.records ∧
      execute ctx q.projection =
        applyProject q.items ⟨q.items.flatMap (projectFields q.aggregation.outputSchema)⟩ a := by
  obtain ⟨a, aggregated⟩ := aggregation_total meaningful
  have below : execute ctx q.aggregation = .ok a := by
    rw [GroupedSelect.aggregation, execute, ran, ok_bind, aggregated]
  refine ⟨a, ?_, groups_stand aggregated, ?_⟩
  · rw [(aggregateBatch_conforms aggregated).1, rowNames_eq]
  · rw [GroupedSelect.projection, projectNode, execute, below, ok_bind]

/-- Where the items that are no calls read the keys alone, the projection is the SELECT list. -/
theorem projection_listed (ran : execute ctx q.input = .ok b)
    (meaningful : Meaningful q.keys q.items b)
    (reads : ∀ g ∈ groupsBy q.keys b, ∀ r ∈ g.rows.head?, ∀ item ∈ q.items, callOf item = none →
      readsKeys q.keys b r item = true) :
    execute ctx q.projection = .ok (selectList q b) := by
  obtain ⟨a, named, stand, listed⟩ := projection_run ran meaningful
  have starless : ∀ g ∈ groupsBy q.keys b, .star ∉ q.items :=
    fun g grouped => starless_of_group meaningful grouped
  have each : ∀ g ∈ groupsBy q.keys b, ∀ item ∈ q.items, shown q.keys q.items b g item =
      .ok (answer (listedValue q.keys q.items b g item)) := by
    intro g grouped item inside
    obtain ⟨r, _, of⟩ := group_first meaningful.keyed grouped
    exact shown_listed of (reads g grouped r of.first item inside) inside
      (meaningful.meant g grouped item inside)
  obtain ⟨projected, found⟩ := projection_total starless named stand
    fun g grouped item inside => isOk_iff.mpr ⟨_, each g grouped item inside⟩
  obtain ⟨schema, _⟩ := applyProject_rows found
  have rows := (forall₂_inside (projection_shows starless named stand found)).imp
    fun g row inside => row_listed (each g inside.1) inside.2.2
  rw [← List.forall₂_map_left_iff, List.forall₂_eq_eq_eq] at rows
  rw [listed, found, selectList, rows]
  obtain ⟨schema', records⟩ := projected
  obtain rfl := schema
  rfl

theorem selectList_right (meaningful : Meaningful q.keys q.items b) :
    List.Forall₂ (Right q.keys q.items b) (groupsBy q.keys b) (selectList q b).records := by
  rw [selectList, List.forall₂_map_right_iff]
  exact List.forall₂_same.mpr fun g grouped => list_right (meaningful.meant g grouped)

theorem selectList_conforms (done : execute ctx q.projection = .ok (selectList q b)) :
    Conforms (selectList q b) q.projection.outputSchema := by
  rw [GroupedSelect.projection, projectNode, execute] at done
  obtain ⟨a, _, projected⟩ := bind_eq_ok.mp done
  exact applyProject_conforms projected

theorem reads_of_projection (ran : execute ctx q.input = .ok b)
    (meaningful : Meaningful q.keys q.items b)
    (unhidden : ∀ item ∈ q.items, callOf item = none → Unhidden q.keys q.items item)
    {projected : RecordBatch} (done : execute ctx q.projection = .ok projected) :
    ∀ g ∈ groupsBy q.keys b, ∀ r ∈ g.rows.head?, ∀ item ∈ q.items, callOf item = none →
      readsKeys q.keys b r item = true := by
  obtain ⟨a, named, stand, listed⟩ := projection_run ran meaningful
  have rows := projection_shows (fun g grouped => starless_of_group meaningful grouped) named stand
    (listed.symm.trans done)
  intro g grouped r head item inside scalar
  obtain ⟨row, _, shows'⟩ := forall₂_mem rows.flip g grouped
  obtain ⟨v, value⟩ := isOk_iff.mp (mapM_isOk.mp (isOk_iff.mpr ⟨_, shows'⟩) item inside)
  obtain ⟨r', _, of⟩ := group_first meaningful.keyed grouped
  obtain rfl := Option.some.inj (of.first.symm.trans head)
  rw [shown, scalar] at value
  exact reads_of_byName of (unhidden item inside scalar) value

variable [SqlParser]

/-- The query is planned and runs; what HAVING, ORDER BY and LIMIT leave are rows of its SELECT
    list, which has a right row for each group. -/
def Answered (ctx : ExecutionContext) (catalog : Catalog) (query : Query) (q : GroupedSelect)
    (b : RecordBatch) : Prop :=
  ∃ plan out projected, planQuery catalog query = .ok plan ∧ execute ctx plan = .ok out ∧
    execute ctx q.projection = .ok projected ∧ out.records.Subperm projected.records ∧
    List.Forall₂ (Right q.keys q.items b) (groupsBy q.keys b) projected.records

end Result

section Witness

def coalesceCity : SqlExpr :=
  .function ⟨[⟨"COALESCE"⟩], "COALESCE"⟩
    (.list [.unnamed (.expr (column "city")), .unnamed (.expr countNames)] false)

/-- `SELECT COALESCE(city, COUNT(name)) AS place, COUNT(name) AS n FROM people GROUP BY city
    HAVING COUNT(name) > 1 ORDER BY place DESC LIMIT 1` -/
def placesQuery : Query :=
  .mk false (.select ⟨none,
      [.exprWithAlias coalesceCity ⟨"place"⟩, .exprWithAlias countNames ⟨"n"⟩],
      [⟨.table ⟨[⟨"people"⟩], "people"⟩ none, []⟩], none, .expressions [column "city"],
      some (.binaryOp countNames .gt (.value (.number "1")))⟩)
    (some [⟨column "place", some false, none⟩]) (some (.value (.number "1"))) none

def place : Expr :=
  .aliased (.ifExpr (.isNotNull (.column "city")) (.column "city") nameCount) "place"

def places : GroupedSelect where
  input := peopleScan
  items := [place, .aliased nameCount "n"]
  keys := [.column "city"]
  having := some (.binary .gt nameCount (.literal (.int 1)))
  orderBy := [⟨.column "place", false⟩]
  limit := some 1

/-- `SELECT COUNT(name) + 1 FROM people GROUP BY city` -/
def oneMoreQuery : Query :=
  .mk false (.select ⟨none, [.unnamedExpr (.binaryOp countNames .plus (.value (.number "1")))],
      [⟨.table ⟨[⟨"people"⟩], "people"⟩ none, []⟩], none, .expressions [column "city"], none⟩)
    none none none

def oneMore : GroupedSelect where
  input := peopleScan
  items := [.binary .add nameCount (.literal (.int 1))]
  keys := [.column "city"]
  having := none
  orderBy := []
  limit := none

end Witness

end RSparkScalarItems
