import RSpark.Grouping
import RSpark.HavingRewrite

/- Grouping, SELECT and HAVING over the rows that WHERE keeps: the row that the operators
   build for a group against the row that the group means. -/
namespace RSparkGroupedRows
open RSparkValue RSparkBatch RSparkExpr RSparkPlan RSparkOperators RSparkExecutor
open RSparkPlanner RSparkGrouping RSparkClauses RSparkHavingAgreement RSparkHavingRewrite Listing

section Columns

theorem indexOf_named (schema : Schema) (values : List Value) (name : String) :
    (schema.indexOf name).map (fun i => values[i]?.getD .null) =
      namedAt .null name schema.fieldNames values := by
  obtain ⟨fields⟩ := schema
  simp only [Schema.indexOf, Schema.fieldNames]
  induction fields generalizing values with
  | nil => rfl
  | cons f rest ih =>
    rw [List.findIdx?_cons, List.map_cons, namedAt]
    by_cases same : f.name = name
    · cases values <;> simp [same]
    · simp only [same, decide_false, Bool.false_eq_true, if_false, Option.map_map, ← ih]
      cases values <;> simp [Function.comp_def]

theorem lookupByName_eq_ok {name : String} {r : Record} {batch : RecordBatch} {v : Value} :
    lookupByName name r batch = .ok v ↔
      namedAt .null name batch.schema.fieldNames r.values = some v := by
  rw [← indexOf_named, lookupByName]
  cases batch.schema.indexOf name with
  | none => simp [orError, err, bind, Except.bind]
  | some i => simp [orError, Record.getOrNull, Record.get, ok_bind]

theorem lookupAggregate_eq_ok {name : String} {r : Record} {batch : RecordBatch} {v : Value} :
    lookupAggregate name r batch = .ok v ↔
      namedAt .null name batch.schema.fieldNames r.values = some v := by
  rw [← indexOf_named, lookupAggregate]
  cases batch.schema.indexOf name with
  | none => simp [orError, err, bind, Except.bind]
  | some i => simp [orError, Record.getOrNull, Record.get, ok_bind]

variable [Regex]

theorem column_eval (name : String) (r : Record) (batch : RecordBatch) :
    (Expr.column name).eval r batch = columnOf batch.schema.fieldNames r.values name := by
  rw [columnOf, ← indexOf_named, Expr.eval]
  cases batch.schema.indexOf name with
  | none => rfl
  | some i => rfl

theorem eval_congr {r : Record} {batch batch' : RecordBatch}
    (same : batch.schema.fieldNames = batch'.schema.fieldNames) (e : Expr) :
    e.eval r batch = e.eval r batch' := by
  rw [← meaning_row r batch e, ← meaning_row r batch' e]
  congr 1
  funext name
  rw [column_eval, column_eval, same]

end Columns

section Keys
variable {batch : RecordBatch} {groupBy : List String} {rows : List Record}

def KeysApart (table : RecordBatch) (groupBy : List String) (rows : List Record) : Prop :=
  ∀ a ∈ rows, ∀ b ∈ rows, rendered (keyOf table groupBy a) = rendered (keyOf table groupBy b) →
    keyOf table groupBy a = keyOf table groupBy b

instance (table : RecordBatch) (groupBy : List String) (rows : List Record) :
    Decidable (KeysApart table groupBy rows) :=
  inferInstanceAs (Decidable (∀ a ∈ rows, ∀ b ∈ rows, _ → keyOf table groupBy a = _))

def sortedKeys (table : RecordBatch) (groupBy : List String) (rows : List Record) :
    List (List Value) :=
  (firsts (rows.map (keyOf table groupBy))).insertionSort fun a b => rendered a ≤ rendered b

def groupAt (table : RecordBatch) (groupBy : List String) (rows : List Record)
    (key : List Value) : Group := ⟨key, rows.filter (keyOf table groupBy · = key)⟩

theorem groupsOf_eq (shown : groupBy = [] → rows ≠ []) :
    groupsOf batch groupBy rows =
      (sortedKeys batch groupBy rows).map (groupAt batch groupBy rows) := by
  unfold groupsOf
  split
  · rename_i keyless
    subst keyless
    have single : firsts (rows.map (keyOf batch [])) = [[]] := by
      cases rows with
      | nil => exact absurd rfl (shown rfl)
      | cons r rest =>
        rw [List.map_cons, firsts]
        congr 1
        refine List.filter_eq_nil_iff.mpr fun key mem => ?_
        obtain ⟨r', _, rfl⟩ := List.mem_map.mp (mem_firsts.mp mem)
        simp [keyOf]
    rw [sortedKeys, single]
    simp [groupAt, keyOf]
  · rfl

theorem mem_sortedKeys {key : List Value} :
    key ∈ sortedKeys batch groupBy rows ↔ ∃ r ∈ rows, keyOf batch groupBy r = key := by
  rw [sortedKeys, List.mem_insertionSort, mem_firsts, List.mem_map]

variable [Regex]

theorem evalAll_columns {r : Record} {values : List Value}
    (evaluated : evalAll r batch (groupBy.map .column) = .ok values) :
    values = keyOf batch groupBy r := by
  induction groupBy generalizing values with
  | nil => exact (Except.ok.inj evaluated).symm
  | cons name rest ih =>
    obtain ⟨v, first, evaluated⟩ := bind_eq_ok.mp evaluated
    obtain ⟨later, tail, evaluated⟩ := bind_eq_ok.mp evaluated
    obtain rfl := Except.ok.inj evaluated
    obtain ⟨i, found, first⟩ := bind_eq_ok.mp first
    obtain rfl := Except.ok.inj first
    rw [ih tail, keyOf, keyOf, List.map_cons, cell, orError_eq_ok.mp found]
    rfl

end Keys

section Groups
variable [Regex] {batch : RecordBatch} {groupBy : List String} {calls : List Expr}

/-- The row of a group: its key, and one accumulator for each item that is fed. -/
structure HoldsGroup (batch : RecordBatch) (groupBy : List String) (calls : List Expr)
    (g : Group) (row : Record) : Prop where
  key : ∃ column : String → Value, g.key = groupBy.map column
  values : ∃ acc : Expr → Accumulator,
    row.values = g.key ++ calls.map (fun e => (acc e).finish) ∧
      ∀ e ∈ calls, accumulate batch e g.rows = .ok (acc e)

theorem holdsGroup_of_summary {key : List Value} {state : GroupState}
    (apart : KeysApart batch groupBy batch.records)
    (occurs : key ∈ sortedKeys batch groupBy batch.records)
    (summary : Summarizes (groupBy.map .column) calls batch
      (batch.records.filter (groupText (groupBy.map .column) batch · = rendered key)) state)
    (texts : ∀ r ∈ batch.records,
      groupText (groupBy.map .column) batch r = rendered (keyOf batch groupBy r)) :
    HoldsGroup batch groupBy calls (groupAt batch groupBy batch.records key) state.row := by
  obtain ⟨r₀, inside, rfl⟩ := mem_sortedKeys.mp occurs
  have same : batch.records.filter
        (groupText (groupBy.map .column) batch · = rendered (keyOf batch groupBy r₀)) =
      batch.records.filter (keyOf batch groupBy · = keyOf batch groupBy r₀) := by
    refine List.filter_congr fun r mem => ?_
    rw [decide_eq_decide, texts r mem]
    exact ⟨apart r mem r₀ inside, fun same => congrArg rendered same⟩
  rw [same] at summary
  obtain ⟨r, first, grouped⟩ := summary.first
  have member := List.mem_filter.mp (List.mem_of_mem_head? first)
  obtain ⟨acc, accumulated, folded⟩ := summary.accumulators
  have key : state.groupValues = keyOf batch groupBy r₀ := by
    rw [grouped, evalAll_columns (summary.evaluated r (List.mem_of_mem_head? first))]
    simpa using member.2
  constructor
  · exact ⟨cell batch r₀, rfl⟩
  · refine ⟨acc, ?_, folded⟩
    rw [GroupState.row, accumulated, List.map_map, key]
    rfl

theorem groups_hold {schema : Schema} {out : RecordBatch}
    (ran : aggregateBatch (groupBy.map .column) calls batch schema = .ok out)
    (apart : KeysApart batch groupBy batch.records)
    (shown : groupBy = [] → batch.records ≠ []) :
    List.Forall₂ (HoldsGroup batch groupBy calls) (groupsOf batch groupBy batch.records)
      out.records := by
  obtain ⟨groups, gathered, built⟩ := bind_eq_ok.mp ran
  obtain ⟨rfl, _⟩ := fromRecords_eq_ok.mp built
  obtain ⟨present, summaries⟩ := aggregateRecords_entries gathered
  have texts : ∀ r ∈ batch.records,
      groupText (groupBy.map .column) batch r = rendered (keyOf batch groupBy r) := by
    intro r mem
    obtain ⟨⟨text, state⟩, entry, rfl⟩ := List.mem_map.mp
      ((present _).mpr (List.mem_map_of_mem mem))
    have evaluated := (summaries _ state entry).evaluated r (by simp [mem])
    rw [groupText, evalAll_columns evaluated]
    rfl
  have keys : (sortedKeys batch groupBy batch.records).map rendered =
      groups.entries.map Prod.fst := by
    rw [aggregateRecords_texts gathered, List.map_congr_left texts, sortedKeys,
      List.map_insertionSort _ (· ≤ ·) _ _ fun _ _ _ _ => Iff.rfl, firsts_map, List.map_map]
    · rfl
    · intro a first b second same
      obtain ⟨r, mem, rfl⟩ := List.mem_map.mp first
      obtain ⟨r', mem', rfl⟩ := List.mem_map.mp second
      exact apart r mem r' mem' same
  rw [groupsOf_eq shown, List.forall₂_map_left_iff]
  show List.Forall₂ _ _ ((groups.entries.map Prod.snd).map GroupState.row)
  rw [List.forall₂_map_right_iff, List.forall₂_map_right_iff]
  refine (forall₂_inside (forall₂_of_map_eq keys)).imp fun key entry inside => ?_
  obtain ⟨occurs, listed, same⟩ := inside
  refine holdsGroup_of_summary apart occurs ?_ texts
  rw [same]
  exact summaries entry.1 entry.2 listed

end Groups

section Calls

theorem fed_of_call {e : Expr} {call : Call} (h : callOf e = some call) :
    aggregateArg e = some (call.arg, call.distinct) ∧ newAccumulator e = .new call.func := by
  unfold callOf at h
  split at h
  · obtain rfl := Option.some.inj h
    exact ⟨rfl, rfl⟩
  · obtain rfl := Option.some.inj h
    exact ⟨rfl, rfl⟩
  · exact nomatch h

variable [Regex] {batch : RecordBatch}

theorem fed_args {e arg : Expr} {distinct : Bool} (called : aggregateArg e = some (arg, distinct))
    {rows : List Record} {start acc : Accumulator}
    (folded : rows.foldlM (feed batch e) start = .ok acc) :
    ∃ args, rows.mapM (fun r => arg.eval r batch) = .ok args ∧
      acc = args.foldl (fun acc v => acc.update v false) start := by
  induction rows generalizing start with
  | nil =>
    obtain rfl := Except.ok.inj folded
    exact ⟨[], rfl, rfl⟩
  | cons r rest ih =>
    rw [List.foldlM_cons] at folded
    obtain ⟨next, fed, folded⟩ := bind_eq_ok.mp folded
    simp only [feed, called] at fed
    obtain ⟨v, evaluated, fed⟩ := bind_eq_ok.mp fed
    obtain rfl := Except.ok.inj fed
    obtain ⟨args, later, rfl⟩ := ih folded
    refine ⟨v :: args, ?_, rfl⟩
    rw [List.mapM_cons, evaluated, ok_bind, later]
    rfl

theorem aggregateOf_call {e : Expr} {call : Call} (h : callOf e = some call)
    (repeats : call.distinct = true → countsRepeats call.func = false) {rows : List Record}
    {acc : Accumulator} (folded : accumulate batch e rows = .ok acc) :
    aggregateOf batch rows call.func call.arg call.distinct = .ok acc.finish := by
  obtain ⟨called, start⟩ := fed_of_call h
  rw [accumulate, start] at folded
  obtain ⟨args, evaluated, rfl⟩ := fed_args called folded
  have all : (call.distinct && countsRepeats call.func) = false := by
    cases flag : call.distinct with
    | false => rfl
    | true => exact repeats flag
  rw [aggregateOf, evaluated, ok_bind, aggregateValue, all]
  rfl

end Calls

section Items
variable [Regex] {batch : RecordBatch} {groupBy : List String} {items : List Expr}
variable {calls : List Expr}

def fedItems (items : List Expr) : List Expr := items.filter Expr.containsAggregate

/-- Each name that an item of SELECT looks up in the row of a group is there what the item
    means by it, and no call asks for distinct values that it does not get. -/
structure ReadsGroups (table : RecordBatch) (groupBy : List String) (items : List Expr) :
    Prop where
  star : .star ∈ items → fedItems items = [] ∧ groupBy = table.schema.fieldNames
  calls : ∀ item ∈ items, ∀ call ∈ callOf item, item.displayName ∉ groupBy ∧
    ∀ other ∈ fedItems items, other.displayName = item.displayName → callOf other = some call
  columns : ∀ item ∈ items, callOf item = none → ∀ name ∈ columnsOf item,
    name ∈ groupBy ∨ ∀ other ∈ fedItems items, other.displayName ≠ name
  repeats : ∀ item ∈ items, ∀ call ∈ callOf item,
    call.distinct = true → countsRepeats call.func = false

theorem group_lookup {g : Group} {row : Record} (holds : HoldsGroup batch groupBy calls g row)
    {name : String} {v : Value}
    (found : namedAt .null name (groupBy ++ calls.map Expr.displayName) row.values = some v) :
    (name ∈ groupBy ∧ columnOf groupBy g.key name = .ok v) ∨
      name ∉ groupBy ∧ ∃ e ∈ calls, e.displayName = name ∧
        ∃ acc, accumulate batch e g.rows = .ok acc ∧ v = acc.finish := by
  obtain ⟨column, key⟩ := holds.key
  obtain ⟨acc, values, folded⟩ := holds.values
  rw [values, namedAt_append (by rw [key, List.length_map]), key, namedAt_image,
    namedAt_map] at found
  by_cases known : name ∈ groupBy
  · rw [if_pos known] at found
    obtain rfl := Option.some.inj found
    left
    refine ⟨known, ?_⟩
    rw [columnOf, key, namedAt_image, if_pos known]
    rfl
  · rw [if_neg known, Option.none_or] at found
    obtain ⟨e, first, rfl⟩ := Option.map_eq_some_iff.mp found
    right
    have listed := List.mem_of_find?_eq_some first
    exact ⟨known, e, listed, by simpa using List.find?_some first, acc e, folded e listed, rfl⟩

theorem projectValues_call {item : Expr} {call : Call} (h : callOf item = some call)
    (row : Record) (under : RecordBatch) :
    projectValues row under item =
      lookupByName item.displayName row under >>= fun v => .ok [v] := by
  unfold callOf at h
  split at h
  · rfl
  · rfl
  · exact nomatch h

theorem projectValues_scalar {item : Expr} (scalar : callOf item = none) (notStar : item ≠ .star)
    (row : Record) (under : RecordBatch) :
    projectValues row under item = item.eval row under >>= fun v => .ok [v] := by
  cases item with
  | star => exact absurd rfl notStar
  | aggregate func arg distinct => exact nomatch scalar
  | aliased inner name =>
    cases inner with
    | aggregate func arg distinct => exact nomatch scalar
    | _ => rfl
  | _ => rfl

theorem scope_item {item : Expr} (notStar : item ≠ .star) (s : Scope) :
    s.item item = meaning s.column s.aggregate item >>= fun v => .ok [v] := by
  cases item with
  | star => exact absurd rfl notStar
  | _ => rfl

/-- The row of a group among the rows of an aggregation, about to be projected. -/
structure GroupRow (batch under : RecordBatch) (groupBy : List String) (items : List Expr)
    (g : Group) (row : Record) : Prop where
  holds : HoldsGroup batch groupBy (fedItems items) g row
  named : under.schema.fieldNames = groupBy ++ (fedItems items).map Expr.displayName
  reads : ReadsGroups batch groupBy items

variable {under : RecordBatch} {g : Group} {row : Record}

theorem item_means (of : GroupRow batch under groupBy items g row) {item : Expr}
    (listed : item ∈ items) (notStar : item ≠ .star) {values : List Value}
    (projected : projectValues row under item = .ok values) :
    ∃ v, values = [v] ∧
      meaning (columnOf groupBy g.key) (aggregateOf batch g.rows) item = .ok v := by
  obtain ⟨holds, named, reads⟩ := of
  cases called : callOf item with
  | some call =>
    rw [projectValues_call called] at projected
    obtain ⟨v, found, same⟩ := bind_eq_ok.mp projected
    obtain rfl := Except.ok.inj same
    refine ⟨v, rfl, ?_⟩
    rw [lookupByName_eq_ok, named] at found
    obtain ⟨foreign, alone⟩ := reads.calls item listed call called
    rcases group_lookup holds found with ⟨known, _⟩ | ⟨_, e, fed, label, acc, folded, rfl⟩
    · exact absurd known foreign
    · have called' := alone e fed label
      rw [meaning_of_call called]
      exact aggregateOf_call called' (reads.repeats item listed call called) folded
  | none =>
    rw [projectValues_scalar called notStar] at projected
    obtain ⟨v, evaluated, same⟩ := bind_eq_ok.mp projected
    obtain rfl := Except.ok.inj same
    refine ⟨v, rfl, meaning_of_eval (fun name inside w found => ?_) evaluated⟩
    rw [column_eval, named, columnOf, orError_eq_ok] at found
    rcases group_lookup holds found with ⟨_, there⟩ | ⟨unknown, e, fed, same, _⟩
    · exact there
    · rcases reads.columns item listed called name inside with known | apart
      · exact absurd known unknown
      · exact absurd same (apart e fed)

theorem star_means (of : GroupRow batch under groupBy items g row) (listed : .star ∈ items) :
    (groupScope batch groupBy g).star = .ok row.values ∧ row.values = g.key := by
  obtain ⟨unfed, columns⟩ := of.reads.star listed
  obtain ⟨column, key⟩ := of.holds.key
  obtain ⟨acc, values, _⟩ := of.holds.values
  have same : row.values = g.key := by rw [values, unfed, List.map_nil, List.append_nil]
  refine ⟨?_, same⟩
  show batch.schema.fieldNames.mapM (columnOf groupBy g.key) = _
  rw [same, ← columns, key]
  refine mapM_eq_ok.mpr ?_
  rw [List.forall₂_map_right_iff, List.forall₂_same]
  intro name known
  rw [columnOf, namedAt_image, if_pos known]
  rfl

theorem row_means (of : GroupRow batch under groupBy items g row) {item : Expr}
    (listed : item ∈ items) {values : List Value}
    (projected : projectValues row under item = .ok values) :
    (groupScope batch groupBy g).item item = .ok values := by
  by_cases star : item = .star
  · subst star
    obtain rfl := Except.ok.inj projected
    exact (star_means of listed).1
  · obtain ⟨v, rfl, means⟩ := item_means of listed star projected
    rw [scope_item star]
    show (meaning (columnOf groupBy g.key) (aggregateOf batch g.rows) item >>= _) = _
    rw [means]
    rfl

end Items

section Rows
variable [Regex]

theorem projectAll_eq (row : Record) (under : RecordBatch) (items : List Expr) :
    projectAll row under items =
      items.mapM (projectValues row under) >>= fun values => .ok values.flatten := by
  induction items with
  | nil => rfl
  | cons item rest ih =>
    rw [projectAll, List.mapM_cons, ih]
    cases projectValues row under item with
    | error e => rfl
    | ok values =>
      cases rest.mapM (projectValues row under) with
      | error e => rfl
      | ok later => rfl

theorem projectAll_means {batch under : RecordBatch} {groupBy : List String} {items : List Expr}
    {g : Group} {row : Record} (of : GroupRow batch under groupBy items g row)
    {values : List Value} (projected : projectAll row under items = .ok values) :
    (groupScope batch groupBy g).row items = .ok ⟨values⟩ := by
  rw [projectAll_eq] at projected
  obtain ⟨blocks, each, same⟩ := bind_eq_ok.mp projected
  obtain rfl := Except.ok.inj same
  have means := mapM_mono (fun item listed values => row_means of listed) each
  rw [Scope.row, means]
  rfl

end Rows

section Having
variable {batch under : RecordBatch} {groupBy : List String} {items : List Expr}

theorem itemNames_of_ne {item : Expr} (notStar : item ≠ .star) (table : RecordBatch) :
    itemNames table item = [item.displayName] := by
  cases item with
  | star => exact absurd rfl notStar
  | _ => rfl

theorem output_names (table : RecordBatch) (items : List Expr) :
    (⟨items.flatMap (projectFields table.schema)⟩ : Schema).fieldNames =
      items.flatMap (itemNames table) := by
  rw [Schema.fieldNames, List.map_flatMap]
  refine List.flatMap_congr fun item _ => ?_
  cases item with
  | star => rfl
  | _ => rfl

theorem projected_names (named : under.schema.fieldNames =
      groupBy ++ (fedItems items).map Expr.displayName)
    (reads : ReadsGroups batch groupBy items) :
    (⟨items.flatMap (projectFields under.schema)⟩ : Schema).fieldNames =
      items.flatMap (itemNames batch) := by
  rw [output_names]
  refine List.flatMap_congr fun item listed => ?_
  by_cases star : item = .star
  · subst star
    obtain ⟨unfed, columns⟩ := reads.star listed
    rw [unfed, List.map_nil, List.append_nil, columns] at named
    exact named
  · rw [itemNames_of_ne star, itemNames_of_ne star]

variable [Regex] {g : Group} {row : Record}

theorem item_width (of : GroupRow batch under groupBy items g row) {item : Expr}
    (listed : item ∈ items) {values : List Value}
    (projected : projectValues row under item = .ok values) :
    values.length = (itemNames batch item).length := by
  by_cases star : item = .star
  · subst star
    obtain rfl := Except.ok.inj projected
    obtain ⟨_, same⟩ := star_means of listed
    obtain ⟨column, key⟩ := of.holds.key
    show row.values.length = batch.schema.fieldNames.length
    rw [same, key, List.length_map, (of.reads.star listed).2]
  · obtain ⟨w, rfl, _⟩ := item_means of listed star projected
    rw [itemNames_of_ne star]
    rfl

theorem output_lookup (of : GroupRow batch under groupBy items g row) {values : List Value}
    (projected : projectAll row under items = .ok values) {name : String} {v : Value}
    (found : namedAt .null name (items.flatMap (itemNames batch)) values = some v) :
    ∃ item, items.find? (name ∈ itemNames batch ·) = some item ∧
      (item = .star ∧ name ∈ groupBy ∧ columnOf groupBy g.key name = .ok v ∨
        item ≠ .star ∧ meaning (columnOf groupBy g.key) (aggregateOf batch g.rows) item = .ok v) := by
  rw [projectAll_eq] at projected
  obtain ⟨blocks, each, same⟩ := bind_eq_ok.mp projected
  obtain rfl := Except.ok.inj same
  obtain ⟨rfl, evaluated⟩ := mapM_eq_map each
  rw [← List.flatMap_def, namedAt_flatMap fun item listed =>
    item_width of listed (evaluated item listed)] at found
  obtain ⟨item, first, found⟩ := Option.bind_eq_some_iff.mp found
  have listed := List.mem_of_find?_eq_some first
  refine ⟨item, first, ?_⟩
  by_cases star : item = .star
  · subst star
    have labelled := List.find?_some first
    have known : name ∈ batch.schema.fieldNames := of_decide_eq_true labelled
    have columns := (of.reads.star listed).2
    left
    refine ⟨rfl, columns ▸ known, ?_⟩
    rw [columnOf, orError_eq_ok, ← (star_means of listed).2, columns]
    exact found
  · obtain ⟨w, same, means⟩ := item_means of listed star (evaluated item listed)
    right
    rw [same, itemNames_of_ne star, namedAt] at found
    split at found
    · obtain rfl := Option.some.inj found
      exact ⟨star, means⟩
    · cases found

/-- HAVING finds its columns and its calls where they stand: a group column is not hidden by
    another item of its name, nor a call by an item that is not this call. -/
structure ReadsHaving (table : RecordBatch) (groupBy : List String) (items : List Expr)
    (predicate : Expr) : Prop where
  self : MatchesSelf items predicate
  columns : ∀ name ∈ columnsOf predicate, name ∈ groupBy →
    ∀ item ∈ items.find? (name ∈ itemNames table ·),
      item = .star ∨ stripAlias item = .column name
  calls : ∀ part ∈ parts predicate, ∀ call ∈ callOf part,
    ∀ item ∈ items.find? (lookedUp items part ∈ itemNames table ·), callOf item = some call

variable {output : RecordBatch} {values : List Value} {predicate : Expr}

theorem having_columns (of : GroupRow batch under groupBy items g row)
    (projected : projectAll row under items = .ok values)
    (reads : ReadsHaving batch groupBy items predicate)
    (labelled : output.schema.fieldNames = items.flatMap (itemNames batch)) :
    ColumnsAgree ⟨values⟩ output ((groupScope batch groupBy g).havingColumn batch items)
      predicate := by
  intro name inside v found
  rw [column_eval, labelled, columnOf, orError_eq_ok] at found
  obtain ⟨item, first, means⟩ := output_lookup of projected found
  rw [Scope.havingColumn]
  split
  · rename_i known
    rcases means with ⟨_, _, means⟩ | ⟨_, means⟩
    · exact means
    · rcases reads.columns name inside known item first with rfl | same
      · exact nomatch means
      · rw [← meaning_stripAlias, same] at means
        exact means
  · rename_i unknown
    rw [first]
    rcases means with ⟨_, known, _⟩ | ⟨_, means⟩
    · exact absurd known unknown
    · exact means

theorem having_calls (of : GroupRow batch under groupBy items g row)
    (projected : projectAll row under items = .ok values)
    (reads : ReadsHaving batch groupBy items predicate)
    (labelled : output.schema.fieldNames = items.flatMap (itemNames batch)) :
    CallsAgree ⟨values⟩ output items (groupScope batch groupBy g).aggregate predicate := by
  intro part inside call called v found
  rw [lookupAggregate_eq_ok, labelled] at found
  obtain ⟨item, first, means⟩ := output_lookup of projected found
  have called' := reads.calls part inside call called item first
  rcases means with ⟨rfl, _⟩ | ⟨_, means⟩
  · exact nomatch called'
  · rw [meaning_of_call called'] at means
    exact means

theorem items_project (projected : projectAll row under items = .ok values) :
    ∀ item ∈ items, Projects row under item := by
  rw [projectAll_eq] at projected
  obtain ⟨blocks, each, _⟩ := bind_eq_ok.mp projected
  intro item listed scalar notStar
  have evaluated := (mapM_eq_map each).2 item listed
  rw [projectValues_scalar scalar notStar] at evaluated
  obtain ⟨v, evaluated, _⟩ := bind_eq_ok.mp evaluated
  exact ⟨v, evaluated⟩

theorem having_means (of : GroupRow batch under groupBy items g row)
    (projected : projectAll row under items = .ok values)
    (reads : ReadsHaving batch groupBy items predicate)
    (labelled : output.schema.fieldNames = items.flatMap (itemNames batch)) {b : Bool}
    (ran : evalPredicate (rewriteHaving items predicate) ⟨values⟩ output = .ok b) :
    b = (groupScope batch groupBy g).having batch items predicate :=
  having_keeps reads.self (having_columns of projected reads labelled)
    (having_calls of projected reads labelled) (items_project projected) ran

end Having

end RSparkGroupedRows
