import RSpark.GroupRows

/- A SELECT list of group columns and aggregate calls finds its aggregates under their display
   names in the rows of the groups: which aggregate is found there. -/
namespace RSparkAggregateNames
open RSparkValue RSparkBatch RSparkExpr RSparkPlan RSparkOperators RSparkExecutor RSparkSqlAst
open RSparkPlanner RSparkGrouping RSparkClauses RSparkHavingRewrite RSparkGroupedRows
open RSparkClauseLaw RSparkScalarItems RSparkGroupRows Listing
open RSparkSchemaContract (aggregateBatch_conforms)

section Calls

/-- The items are group columns and calls without alias. -/
def PlainItems (keys items : List Expr) : Prop :=
  ∀ item ∈ items, (item ∈ keys ∧ (columnName item).isSome = true) ∨
    ∃ func arg distinct, item = .aggregate func arg distinct

theorem PlainItems.starless {keys items : List Expr} (plain : PlainItems keys items) :
    .star ∉ items := by
  intro listed
  rcases plain .star listed with ⟨_, column⟩ | ⟨func, arg, distinct, same⟩
  · cases column
  · cases same

/-- One function of one argument; no accumulator looks at DISTINCT. -/
def SameCall (call call' : Call) : Prop := call.func = call'.func ∧ call.arg = call'.arg

instance (call call' : Call) : Decidable (SameCall call call') :=
  inferInstanceAs (Decidable (_ ∧ _))

variable {b : RecordBatch} {keys items : List Expr} {item item' : Expr} {call call' : Call}

theorem fed_of_called (listed : item ∈ items) (called : callOf item = some call) :
    item ∈ fedItems items := by
  refine List.mem_filter.mpr ⟨listed, ?_⟩
  unfold callOf at called
  split at called
  · rfl
  · rfl
  · cases called

theorem PlainItems.called (plain : PlainItems keys items) (fed : item ∈ fedItems items) :
    ∃ call, callOf item = some call := by
  obtain ⟨listed, aggregate⟩ := List.mem_filter.mp fed
  rcases plain item listed with ⟨_, column⟩ | ⟨func, arg, distinct, rfl⟩
  · cases item with
    | column name => cases aggregate
    | _ => cases column
  · exact ⟨_, rfl⟩

variable [Regex]

theorem held_sameCall (called : callOf item = some call) (called' : callOf item' = some call')
    (same : SameCall call call') (rows : List Record) :
    held b rows item = held b rows item' := by
  obtain ⟨argument, start⟩ := fed_of_call called
  obtain ⟨argument', start'⟩ := fed_of_call called'
  have fed : feed b item = feed b item' := by
    funext acc r
    simp only [feed, argument, argument', same.2]
    rfl
  rw [held, held, accumulate, accumulate, fed, start, start', same.1]

end Calls

section Names
variable {schema : Schema} {name name' : String}

theorem name_of_indexOf (known : name ∈ schema.fieldNames)
    (same : schema.indexOf name = schema.indexOf name') : name = name' := by
  obtain ⟨f, listed, rfl⟩ := List.mem_map.mp known
  cases found : schema.indexOf f.name with
  | none => exact absurd (List.findIdx?_eq_none_iff.mp found f listed) (by simp)
  | some i => exact indexOf_inj found (same.symm.trans found)

end Names

section Result
variable [Regex] {ctx : ExecutionContext} {keys items : List Expr} {b : RecordBatch}
variable {q : GroupedSelect} {g : Group} {item : Expr} {call : Call}

def HasResults (items : List Expr) (b : RecordBatch) (g : Group) (row : Record) : Prop :=
  ∀ (i : Nat) (item : Expr), items[i]? = some item → (callOf item).isSome = true →
    row.values[i]? = some (held b g.rows item)

/-- The rows before HAVING have the results of their aggregates, and aggregates that differ in
    the function or the argument are read from different columns. -/
def OwnResults (ctx : ExecutionContext) (q : GroupedSelect) (b : RecordBatch) : Prop :=
  (∃ projected, execute ctx q.projection = .ok projected ∧
    List.Forall₂ (HasResults q.items b) (groupsBy q.keys b) projected.records) ∧
  ∀ item ∈ q.items, ∀ call ∈ callOf item, ∀ item' ∈ q.items, ∀ call' ∈ callOf item',
    ¬ SameCall call call' → q.aggregation.outputSchema.indexOf item.displayName ≠
      q.aggregation.outputSchema.indexOf item'.displayName

/-- Items of one display name are the same call, and a key of that name has in every group the
    value of the call. -/
structure NamesTell (keys items : List Expr) (b : RecordBatch) : Prop where
  calls : ∀ item ∈ items, ∀ call ∈ callOf item, ∀ item' ∈ items, ∀ call' ∈ callOf item',
    item.displayName = item'.displayName → SameCall call call'
  keys : ∀ item ∈ items, (callOf item).isSome = true → ∀ g ∈ groupsBy keys b, ∀ v,
    namedAt .null item.displayName (keys.map Expr.displayName) g.key = some v →
      v = held b g.rows item

/-- What a call shows in a group: the value of the first key of its name, or else the result of
    the first item of its name. -/
theorem call_found (fits : g.key.length = keys.length) (listed : item ∈ items)
    (called : callOf item = some call) {v : Value} (shows : shown keys items b g item = .ok v) :
    namedAt .null item.displayName (keys.map Expr.displayName) g.key = some v ∨
      item.displayName ∉ keys.map Expr.displayName ∧
        ∃ other ∈ fedItems items, other.displayName = item.displayName ∧
          v = held b g.rows other := by
  obtain ⟨w, found, value⟩ := call_shown keys b g called listed
  obtain rfl := Except.ok.inj (value.symm.trans shows)
  rw [rowNames, rowValues, namedAt_append (by simpa using fits), namedAt_map] at found
  cases key : namedAt .null item.displayName (keys.map Expr.displayName) g.key with
  | some u =>
    rw [key, Option.some_or] at found
    exact Or.inl found
  | none =>
    rw [key, Option.none_or] at found
    obtain ⟨other, first, rfl⟩ := Option.map_eq_some_iff.mp found
    exact Or.inr ⟨namedAt_eq_none.mp key, other, List.mem_of_find?_eq_some first,
      by simpa using List.find?_some first, rfl⟩

theorem PlainItems.shown_total (plain : PlainItems keys items) (listed : item ∈ items) :
    (shown keys items b g item).isOk = true := by
  cases called : callOf item with
  | some call => exact shown_of_call listed called
  | none =>
    rcases plain item listed with ⟨grouping, column⟩ | ⟨func, arg, distinct, rfl⟩
    · cases item with
      | column name =>
        have known : name ∈ rowNames keys items :=
          List.mem_append_left _ (List.mem_map.mpr ⟨_, grouping, rfl⟩)
        cases found : namedAt .null name (rowNames keys items) (rowValues items b g) with
        | none => exact absurd known (namedAt_eq_none.mp found)
        | some v => exact isOk_iff.mpr ⟨v, orError_eq_ok.mpr found⟩
      | _ => cases column
    · cases called

theorem hasResults_iff (plain : PlainItems keys items)
    (alike : ∀ item ∈ items, ∀ call ∈ callOf item, ∀ item' ∈ items, ∀ call' ∈ callOf item',
      item.displayName = item'.displayName → SameCall call call')
    (fits : g.key.length = keys.length) {row : Record} (shows : Shows keys items b g row) :
    HasResults items b g row ↔ ∀ item ∈ items, (callOf item).isSome = true → ∀ v,
      namedAt .null item.displayName (keys.map Expr.displayName) g.key = some v →
        v = held b g.rows item := by
  constructor
  · intro results item listed called v key
    obtain ⟨i, place⟩ := List.getElem?_of_mem listed
    obtain ⟨w, there, value⟩ := mapM_at shows place
    obtain ⟨call, known⟩ := Option.isSome_iff_exists.mp called
    rw [results i item place called] at there
    obtain rfl := Option.some.inj there
    rcases call_found fits listed known value with here | ⟨absent, _⟩
    · exact Option.some.inj (key.symm.trans here)
    · rw [namedAt_eq_none.mpr absent] at key
      cases key
  · intro keyed i item place called
    have listed := List.mem_of_getElem? place
    obtain ⟨v, there, value⟩ := mapM_at shows place
    obtain ⟨call, known⟩ := Option.isSome_iff_exists.mp called
    rw [there]
    rcases call_found fits listed known value with key | ⟨_, other, fed, name, rfl⟩
    · rw [keyed item listed called v key]
    · obtain ⟨call', called'⟩ := plain.called fed
      have same :=
        alike other (List.mem_of_mem_filter fed) call' called' item listed call known name
      rw [held_sameCall called' known same]

theorem projected_shows {ctx : ExecutionContext} {q : GroupedSelect} {b : RecordBatch}
    (plain : PlainItems q.keys q.items) (ran : execute ctx q.input = .ok b)
    (evaluates : Evaluates q.keys (fedItems q.items) b) :
    ∃ projected, execute ctx q.projection = .ok projected ∧
      List.Forall₂ (Shows q.keys q.items b) (groupsBy q.keys b) projected.records := by
  obtain ⟨a, aggregated⟩ : ∃ a, aggregateBatch q.keys (fedItems q.items) b
      q.aggregation.outputSchema = .ok a := ⟨_, aggregateBatch_ok evaluates rfl⟩
  have stand := groups_stand aggregated
  have named : a.schema.fieldNames = rowNames q.keys q.items := by
    rw [(aggregateBatch_conforms aggregated).1]
    exact rowNames_eq q.keys q.items
  obtain ⟨projected, found⟩ : ∃ projected, applyProject q.items
      ⟨q.items.flatMap (projectFields q.aggregation.outputSchema)⟩ a = .ok projected :=
    projection_total (fun _ _ => plain.starless) named stand
      fun g grouped item listed => plain.shown_total listed
  refine ⟨projected, ?_, projection_shows (fun _ _ => plain.starless) named stand found⟩
  rw [GroupedSelect.projection, projectNode, execute, GroupedSelect.aggregation, execute, ran,
    ok_bind]
  show (aggregateBatch q.keys (fedItems q.items) b q.aggregation.outputSchema >>= _) = _
  rw [aggregated, ok_bind]
  exact found

variable [SqlParser]

/-- A grouped query of group columns and calls is planned; it has in every group the results of
    its own aggregates, no two of them sharing a column, exactly if the names tell them. -/
theorem own_results_iff (ctx : ExecutionContext) (catalog : Catalog) (query : Query)
    (q : GroupedSelect) (b : RecordBatch) (read : readGrouped catalog query = .ok q)
    (plain : PlainItems q.keys q.items) (ran : execute ctx q.input = .ok b)
    (evaluates : Evaluates q.keys (fedItems q.items) b) :
    planQuery catalog query = .ok q.plan ∧
      (OwnResults ctx q b ↔ NamesTell q.keys q.items b) := by
  refine ⟨planQuery_grouped read, ?_⟩
  obtain ⟨projected, done, shows⟩ := projected_shows plain ran evaluates
  have width : ∀ g ∈ groupsBy q.keys b, g.key.length = q.keys.length := by
    intro g grouped
    obtain ⟨text, occurs, rfl⟩ := List.mem_map.mp grouped
    exact groupOf_width evaluates occurs
  have rights (alike : ∀ item ∈ q.items, ∀ call ∈ callOf item, ∀ item' ∈ q.items,
      ∀ call' ∈ callOf item', item.displayName = item'.displayName → SameCall call call') :=
    forall₂_iff_forall (S := HasResults q.items b) (forall₂_inside shows) fun g row inside =>
      hasResults_iff plain alike (width g inside.1) inside.2.2
  constructor
  · rintro ⟨⟨projected', done', results⟩, apart⟩
    obtain rfl := Except.ok.inj (done.symm.trans done')
    have alike : ∀ item ∈ q.items, ∀ call ∈ callOf item, ∀ item' ∈ q.items,
        ∀ call' ∈ callOf item', item.displayName = item'.displayName → SameCall call call' := by
      intro item listed call called item' listed' call' called' same
      by_contra differ
      exact apart item listed call called item' listed' call' called' differ (by rw [same])
    exact ⟨alike, fun item listed called g grouped =>
      (rights alike).mp results g grouped item listed called⟩
  · rintro ⟨alike, keyed⟩
    refine ⟨⟨projected, done, (rights alike).mpr fun g grouped item listed called =>
      keyed item listed called g grouped⟩, ?_⟩
    intro item listed call called item' listed' call' called' differ same
    have known : item.displayName ∈ q.aggregation.outputSchema.fieldNames := by
      show item.displayName ∈ (Schema.mk _).fieldNames
      rw [rowNames_eq q.keys q.items]
      exact List.mem_append_right _ (List.mem_map_of_mem (fed_of_called listed called))
    exact differ (alike item listed call called item' listed' call' called'
      (name_of_indexOf known same))

end Result

section Witness

def orderSchema : Schema :=
  ⟨[.new "shop" .int64, .new "a" .int64, .new "b" .int64, .new "c" .int64]⟩

def orders : RecordBatch :=
  ⟨orderSchema, [⟨[.int64 1, .int64 2, .int64 3, .int64 4]⟩,
    ⟨[.int64 7, .int64 1, .int64 1, .int64 1]⟩, ⟨[.int64 1, .int64 5, .int64 0, .int64 2]⟩]⟩

def orderCatalog : Catalog where
  tableSchema _ := .ok orderSchema
  tableLocation name := .ok (name, "csv")

def orderContext : ExecutionContext := ⟨⟨fun _ => some ⟨fun _ _ => .ok orders⟩⟩⟩

def total (e : SqlExpr) : SelectItem :=
  .unnamedExpr (.function ⟨[⟨"SUM"⟩], "SUM"⟩ (.list [.unnamed (.expr e)] false))

/-- `SELECT shop, .. FROM orders GROUP BY shop` -/
def shopQuery (items : List SelectItem) : Query :=
  .mk false (.select ⟨none, .unnamedExpr (column "shop") :: items,
      [⟨.table ⟨[⟨"orders"⟩], "orders"⟩ none, []⟩], none, .expressions [column "shop"], none⟩)
    none none none

def byShop (arguments : List Expr) : GroupedSelect where
  input := .scan "orders" "orders" "csv" orderSchema
  items := .column "shop" :: arguments.map fun arg => .aggregate .sum arg false
  keys := [.column "shop"]
  having := none
  orderBy := []
  limit := none

theorem byShop_plain (arguments : List Expr) :
    PlainItems (byShop arguments).keys (byShop arguments).items := by
  intro item listed
  rcases List.mem_cons.mp listed with rfl | listed
  · exact Or.inl ⟨List.mem_cons_self, rfl⟩
  · obtain ⟨arg, _, rfl⟩ := List.mem_map.mp listed
    exact Or.inr ⟨.sum, arg, false, rfl⟩

/-- `a * (b + c)` -/
def scaledSql : SqlExpr :=
  .binaryOp (column "a") .multiply (.nested (.binaryOp (column "b") .plus (column "c")))

def scaled : Expr := .binary .mul (.column "a") (.binary .add (.column "b") (.column "c"))

/-- `a * b + c` -/
def shiftedSql : SqlExpr :=
  .binaryOp (.binaryOp (column "a") .multiply (column "b")) .plus (column "c")

def shifted : Expr := .binary .add (.binary .mul (.column "a") (.column "b")) (.column "c")

theorem scaled_summed : @OwnResults noRegex orderContext (byShop [scaled]) orders := by
  refine (@own_results_iff noRegex noParser orderContext orderCatalog
    (shopQuery [total scaledSql]) (byShop [scaled]) orders rfl (byShop_plain _) rfl
    (by decide)).2.mpr (@NamesTell.mk noRegex _ _ _ (by decide) ?_)
  intro item listed called g grouped v found
  rcases List.mem_cons.mp listed with rfl | listed
  · cases called
  · obtain rfl := List.mem_singleton.mp listed
    have absent : (Expr.aggregate .sum scaled false).displayName ∉
        (byShop [scaled]).keys.map Expr.displayName := by decide
    rw [namedAt_eq_none.mpr absent] at found
    cases found

/-- `SUM(a * (b + c))` and `SUM(a * b + c)` have one display name. -/
theorem sums_share_a_column :
    ¬ ∀ (ctx : ExecutionContext) (catalog : Catalog) (query : Query) (q : GroupedSelect)
      (b : RecordBatch), @readGrouped noParser catalog query = .ok q →
      PlainItems q.keys q.items → @execute noRegex ctx q.input = .ok b →
      @Evaluates noRegex q.keys (fedItems q.items) b → @OwnResults noRegex ctx q b := by
  intro claim
  obtain ⟨_, apart⟩ := claim orderContext orderCatalog
    (shopQuery [total scaledSql, total shiftedSql]) (byShop [scaled, shifted]) orders rfl
    (byShop_plain _) rfl (by decide)
  exact apart (.aggregate .sum scaled false) (by decide) _ rfl
    (.aggregate .sum shifted false) (by decide) _ rfl (by decide) (by decide)

end Witness

end RSparkAggregateNames
