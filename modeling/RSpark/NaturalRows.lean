import RSpark.JoinRows

/- What a FROM list of any length computes: its tables are joined from the left on the names they
   share. Each row of the result is one choice of a row from every table, and what it holds under
   a name is what the first table with that name holds. -/
namespace RSparkNaturalRows
open RSparkValue RSparkBatch RSparkExpr RSparkPlan RSparkOperators RSparkExecutor RSparkSqlAst
open RSparkExprBuilder RSparkPlanner RSparkJoinLaw RSparkJoinRows

section Reference

structure FromTable where
  scope : Scope
  rows : List Record

def FromTable.schema (t : FromTable) : Schema := t.scope.schema

abbrev Choice := List (FromTable × Record)

def held (t : FromTable) (r : Record) (name : String) : Option Value :=
  (t.schema.indexOf name).map r.getOrNull

def heldFirst (chosen : Choice) (name : String) : Option Value :=
  chosen.findSome? fun p => held p.1 p.2 name

def agreesWith (chosen : Choice) (t : FromTable) (r : Record) : Bool :=
  t.schema.fieldNames.all fun name =>
    match heldFirst chosen name, held t r name with
    | some v, some w => v.partialEq w
    | _, _ => true

def choices (chosen : Choice) : List FromTable → List Choice
  | [] => [chosen]
  | t :: rest =>
      (t.rows.filter (agreesWith chosen t)).flatMap fun r => choices (chosen ++ [(t, r)]) rest

/-- One row of each table, where each row holds what the first table with the name holds. -/
def naturalRows : List FromTable → List Choice
  | [] => []
  | first :: rest => first.rows.flatMap fun r => choices [(first, r)] rest

def addColumns (columns schema : Schema) : Schema :=
  ⟨columns.fields ++ ownFields columns schema⟩

def naturalColumns (tables : List FromTable) : Schema :=
  tables.foldl (fun columns t => addColumns columns t.schema) .empty

def tableFactors (from' : List TableWithJoins) : List TableFactor :=
  from'.flatMap fun twj => twj.relation :: twj.joins.map Join.relation

structure Stores (ctx : ExecutionContext) (catalog : Catalog) (t : FromTable)
    (factor : TableFactor) : Prop where
  named : factor = .table t.scope.name t.scope.alias'
  stored : ∃ path source,
    requestOf catalog t.scope.name.display = .ok ⟨path, source, t.schema⟩ ∧
      Answers ctx ⟨path, source, t.schema⟩ t.rows

def FromList (ctx : ExecutionContext) (catalog : Catalog) (from' : List TableWithJoins)
    (tables : List FromTable) : Prop :=
  List.Forall₂ (Stores ctx catalog) tables (tableFactors from')

end Reference

section Names

theorem addColumns_empty (schema : Schema) : addColumns .empty schema = schema := by
  have all : ownFields .empty schema = schema.fields := by
    apply List.filter_eq_self.mpr
    intro f _
    exact decide_eq_true (List.not_mem_nil)
  rw [addColumns, all]
  rfl

theorem mem_addColumns {columns schema : Schema} {name : String} :
    name ∈ (addColumns columns schema).fieldNames ↔
      name ∈ columns.fieldNames ∨ name ∈ schema.fieldNames := by
  rw [Schema.fieldNames, addColumns, List.map_append, List.mem_append]
  constructor
  · intro either
    rcases either with here | added
    · exact Or.inl here
    · obtain ⟨f, own, same⟩ := List.mem_map.mp added
      exact Or.inr (List.mem_map.mpr ⟨f, List.mem_of_mem_filter own, same⟩)
  · intro either
    by_cases here : name ∈ columns.fieldNames
    · exact Or.inl here
    · obtain ⟨f, inside, same⟩ := List.mem_map.mp (either.resolve_left here)
      apply Or.inr
      apply List.mem_map.mpr
      exact ⟨f, List.mem_filter.mpr ⟨inside, by simpa [same] using here⟩, same⟩

theorem mem_naturalColumns {tables : List FromTable} {name : String} :
    name ∈ (naturalColumns tables).fieldNames ↔ ∃ t ∈ tables, name ∈ t.schema.fieldNames := by
  have general (columns : Schema) :
      name ∈ (tables.foldl (fun columns t => addColumns columns t.schema) columns).fieldNames ↔
        name ∈ columns.fieldNames ∨ ∃ t ∈ tables, name ∈ t.schema.fieldNames := by
    induction tables generalizing columns with
    | nil => simp
    | cons t rest ih =>
      rw [List.foldl_cons, ih, mem_addColumns, or_assoc]
      simp only [List.mem_cons, exists_eq_or_imp]
  rw [naturalColumns, general, or_iff_right]
  exact List.not_mem_nil

end Names

section Lookup

def SameValue (v w : Value) : Prop := v = w ∨ v.partialEq w = true

def Consistent (chosen : Choice) : Prop :=
  ∀ name, ∀ p ∈ chosen, ∀ w, held p.1 p.2 name = some w →
    ∃ v, heldFirst chosen name = some v ∧ SameValue v w

theorem heldFirst_append (chosen : Choice) (t : FromTable) (r : Record) (name : String) :
    heldFirst (chosen ++ [(t, r)]) name = (heldFirst chosen name).or (held t r name) := by
  rw [heldFirst, List.findSome?_append, List.findSome?_singleton]
  rfl

theorem consistent_append {chosen : Choice} {t : FromTable} {r : Record}
    (before : Consistent chosen) (agrees : agreesWith chosen t r = true) :
    Consistent (chosen ++ [(t, r)]) := by
  intro name p inside w here
  rw [heldFirst_append]
  rcases List.mem_append.mp inside with earlier | last
  · obtain ⟨v, first, same⟩ := before name p earlier w here
    exact ⟨v, by rw [first]; rfl, same⟩
  · rw [List.mem_singleton.mp last] at here
    cases first : heldFirst chosen name with
    | none => exact ⟨w, here, Or.inl rfl⟩
    | some v =>
      obtain ⟨i, found, _⟩ := Option.map_eq_some_iff.mp here
      have compared := List.all_eq_true.mp agrees name (mem_of_indexOf found)
      rw [first, here] at compared
      exact ⟨v, rfl, Or.inr compared⟩

/-- A row of the join under the columns it was built under, and the rows it was built from. -/
structure Reads (schema : Schema) (record : Record) (chosen : Choice) : Prop where
  width : record.values.length = schema.fields.length
  lookup : ∀ name, (schema.indexOf name).map record.getOrNull = heldFirst chosen name
  consistent : Consistent chosen

theorem reads_first {t : FromTable} {r : Record} (valid : r.Valid t.schema) :
    Reads t.schema r [(t, r)] := by
  have alone (name : String) : heldFirst [(t, r)] name = held t r name :=
    (heldFirst_append [] t r name).trans (Option.none_or)
  refine ⟨valid.1, fun name => (alone name).symm, ?_⟩
  intro name p inside w here
  rw [List.mem_singleton.mp inside] at here
  exact ⟨w, (alone name).trans here, Or.inl rfl⟩

end Lookup

section Step
variable {b : RecordBatch} {t : FromTable} {l r : Record} {chosen : Choice}

def sharedPairs (b : RecordBatch) (t : FromTable) : List (String × String) :=
  joinPairs b.schema t.schema

def joinOne (b : RecordBatch) (t : FromTable) : RecordBatch where
  schema := joinSchema b.schema t.schema (sharedPairs b t)
  records := b.records.flatMap fun l =>
    (t.rows.filter (joinCond b.schema t.schema (sharedPairs b t) l)).map
      (joinedRow t.schema (sharedPairs b t) l)

theorem joinOne_schema (b : RecordBatch) (t : FromTable) :
    (joinOne b t).schema = addColumns b.schema t.schema := by
  rw [joinOne, joinSchema, sharedPairs, kept_eq_ownFields]
  rfl

theorem joinCond_eq_agreesWith (reads : Reads b.schema l chosen) (r : Record) :
    joinCond b.schema t.schema (sharedPairs b t) l r = agreesWith chosen t r := by
  have each {name : String} {i j : Nat} (there : b.schema.indexOf name = some i)
      (here : t.schema.indexOf name = some j) :
      heldFirst chosen name = some (l.getOrNull i) ∧ held t r name = some (r.getOrNull j) := by
    rw [← reads.lookup, there, held, here]
    exact ⟨rfl, rfl⟩
  rw [Bool.eq_iff_iff, joinCond, agreesWith, List.all_eq_true, List.all_eq_true]
  constructor
  · intro holds name known
    obtain ⟨j, here⟩ := indexOf_of_mem known
    cases there : b.schema.indexOf name with
    | none =>
      have nothing := reads.lookup name
      rw [there] at nothing
      rw [← nothing]
      rfl
    | some i =>
      have pair := holds (name, name)
        (mem_joinPairs.mpr ⟨name, rfl, mem_of_indexOf there, known⟩)
      rw [pairHolds, there, here] at pair
      rw [(each there here).1, (each there here).2]
      exact pair
  · intro agrees pair listed
    obtain ⟨name, rfl, inLeft, inRight⟩ := mem_joinPairs.mp listed
    obtain ⟨i, there⟩ := indexOf_of_mem inLeft
    obtain ⟨j, here⟩ := indexOf_of_mem inRight
    have compared := agrees name inRight
    rw [(each there here).1, (each there here).2] at compared
    rw [pairHolds, there, here]
    exact compared

theorem joinedRow_width (reads : Reads b.schema l chosen) :
    (joinedRow t.schema (sharedPairs b t) l r).values.length =
      (joinOne b t).schema.fields.length := by
  rw [joinedRow_eq, joinOne_schema, addColumns, ← kept_eq_ownFields]
  simp only [List.length_append, List.length_map, reads.width]
  rfl

theorem added_lookup {name : String} (absent : b.schema.indexOf name = none) (r : Record) :
    ((ownFields b.schema t.schema).findIdx? (·.name = name)).map
        (⟨(ownFields b.schema t.schema).map (keptValue t.schema r)⟩ : Record).getOrNull =
      held t r name := by
  have apart : name ∉ b.schema.fieldNames := by
    intro inside
    obtain ⟨i, found⟩ := indexOf_of_mem inside
    rw [absent] at found
    cases found
  cases found : (ownFields b.schema t.schema).findIdx? (·.name = name) with
  | none =>
    have missing : t.schema.indexOf name = none := by
      cases here : t.schema.indexOf name with
      | none => rfl
      | some i =>
        obtain ⟨f, place, same, _⟩ := indexOf_field here
        have own : f ∈ ownFields b.schema t.schema := by
          apply List.mem_filter.mpr
          exact ⟨List.mem_of_getElem? place, by simpa [same] using apart⟩
        have none' := List.findIdx?_eq_none_iff.mp found f own
        exact absurd same (of_decide_eq_false none')
    rw [held, missing]
    rfl
  | some j =>
    obtain ⟨bound, named, _⟩ := List.findIdx?_eq_some_iff_getElem.mp found
    have same : (ownFields b.schema t.schema)[j].name = name := of_decide_eq_true named
    have inside := List.mem_of_mem_filter (List.getElem_mem bound)
    obtain ⟨i, here⟩ := indexOf_of_mem (List.mem_map_of_mem inside)
    rw [same] at here
    rw [held, here, Option.map_some, Option.map_some]
    simp only [Record.getOrNull, Record.get, List.getElem?_map, List.getElem?_eq_getElem bound,
      Option.map_some, Option.getD_some, keptValue, same, here]

/-- Under a column that the left side has, the joined row holds what the left row does; under one
    of the added columns, what the right row does. -/
theorem joinedRow_lookup (reads : Reads b.schema l chosen) (name : String) :
    ((joinOne b t).schema.indexOf name).map
        (joinedRow t.schema (sharedPairs b t) l r).getOrNull =
      ((b.schema.indexOf name).map l.getOrNull).or (held t r name) := by
  rw [joinedRow_eq, joinOne_schema, sharedPairs, kept_eq_ownFields, Schema.indexOf, addColumns,
    List.findIdx?_append]
  cases here : b.schema.indexOf name with
  | some i =>
    have bound : i < l.values.length := reads.width ▸ indexOf_lt here
    rw [Schema.indexOf] at here
    rw [here, Option.some_or, Option.map_some, Option.map_some, Option.some_or]
    simp only [Record.getOrNull, Record.get, List.getElem?_append_left bound]
  | none =>
    have added := added_lookup (t := t) here r
    rw [Schema.indexOf] at here
    rw [here, Option.none_or, Option.map_none, Option.none_or, ← added, Option.map_map]
    congr 1
    funext j
    simp only [Function.comp, Record.getOrNull, Record.get, ← reads.width]
    rw [List.getElem?_append_right (Nat.le_add_left _ _), Nat.add_sub_cancel]

theorem reads_joined (reads : Reads b.schema l chosen) (agrees : agreesWith chosen t r = true) :
    Reads (joinOne b t).schema (joinedRow t.schema (sharedPairs b t) l r)
      (chosen ++ [(t, r)]) := by
  refine ⟨joinedRow_width reads, ?_, consistent_append reads.consistent agrees⟩
  intro name
  rw [joinedRow_lookup reads, reads.lookup, heldFirst_append]

def extended (t : FromTable) (chosen : Choice) : List Choice :=
  (t.rows.filter (agreesWith chosen t)).map fun r => chosen ++ [(t, r)]

theorem joinOne_rows {states : List Choice}
    (rows : List.Forall₂ (Reads b.schema) b.records states) :
    List.Forall₂ (Reads (joinOne b t).schema) (joinOne b t).records
      (states.flatMap (extended t)) := by
  apply List.rel_flatMap rows
  intro l chosen reads
  dsimp only
  have same : joinCond b.schema t.schema (sharedPairs b t) l = agreesWith chosen t :=
    funext (joinCond_eq_agreesWith reads)
  rw [same, extended, List.forall₂_map_left_iff, List.forall₂_map_right_iff, List.forall₂_same]
  intro r inside
  exact reads_joined reads (List.mem_filter.mp inside).2

end Step

section Run

def joinAll (b : RecordBatch) (tables : List FromTable) : RecordBatch := tables.foldl joinOne b

theorem joinAll_schema (b : RecordBatch) (tables : List FromTable) :
    (joinAll b tables).schema =
      tables.foldl (fun columns t => addColumns columns t.schema) b.schema := by
  induction tables generalizing b with
  | nil => rfl
  | cons t rest ih =>
    rw [joinAll, List.foldl_cons, List.foldl_cons, ← joinOne_schema]
    exact ih _

theorem joinAll_rows {tables : List FromTable} {b : RecordBatch} {states : List Choice}
    (rows : List.Forall₂ (Reads b.schema) b.records states) :
    List.Forall₂ (Reads (joinAll b tables).schema) (joinAll b tables).records
      (states.flatMap fun chosen => choices chosen tables) := by
  induction tables generalizing b states with
  | nil =>
    have same : (states.flatMap fun chosen => choices chosen []) = states :=
      List.flatMap_singleton' states
    rw [same]
    exact rows
  | cons t rest ih =>
    have nested : (states.flatMap fun chosen => choices chosen (t :: rest)) =
        (states.flatMap (extended t)).flatMap fun chosen => choices chosen rest := by
      rw [List.flatMap_assoc]
      apply List.flatMap_congr
      intro chosen _
      rw [extended, List.flatMap_map]
      rfl
    rw [nested]
    exact ih (joinOne_rows rows)

theorem choices_from {tables : List FromTable} {chosen done : Choice}
    (inside : done ∈ choices chosen tables) :
    done.map Prod.fst = chosen.map Prod.fst ++ tables ∧
      ∀ p ∈ done, p ∈ chosen ∨ p.2 ∈ p.1.rows := by
  induction tables generalizing chosen with
  | nil =>
    rw [List.mem_singleton.mp inside]
    exact ⟨(List.append_nil _).symm, fun p => Or.inl⟩
  | cons t rest ih =>
    obtain ⟨r, stored, inside⟩ := List.mem_flatMap.mp inside
    obtain ⟨names, rows⟩ := ih inside
    constructor
    · rw [names, List.map_append, List.append_assoc]
      rfl
    · intro p listed
      rcases rows p listed with earlier | later
      · rcases List.mem_append.mp earlier with here | last
        · exact Or.inl here
        · rw [List.mem_singleton.mp last]
          exact Or.inr (List.mem_of_mem_filter stored)
      · exact Or.inr later

theorem naturalRows_from {tables : List FromTable} {chosen : Choice}
    (inside : chosen ∈ naturalRows tables) :
    chosen.map Prod.fst = tables ∧ ∀ p ∈ chosen, p.2 ∈ p.1.rows := by
  cases tables with
  | nil => exact absurd inside List.not_mem_nil
  | cons first rest =>
    obtain ⟨r, stored, inside⟩ := List.mem_flatMap.mp inside
    obtain ⟨names, rows⟩ := choices_from inside
    refine ⟨names, ?_⟩
    intro p listed
    rcases rows p listed with here | later
    · rw [List.mem_singleton.mp here]
      exact stored
    · exact later

def naturalBatch : List FromTable → RecordBatch
  | [] => .new .empty
  | first :: rest => joinAll ⟨first.schema, first.rows⟩ rest

theorem naturalBatch_schema (tables : List FromTable) :
    (naturalBatch tables).schema = naturalColumns tables := by
  cases tables with
  | nil => rfl
  | cons first rest =>
    rw [naturalBatch, joinAll_schema, naturalColumns, List.foldl_cons, addColumns_empty]

theorem naturalBatch_rows {tables : List FromTable}
    (valid : ∀ t ∈ tables, ∀ r ∈ t.rows, r.Valid t.schema) :
    List.Forall₂ (Reads (naturalColumns tables)) (naturalBatch tables).records
      (naturalRows tables) := by
  rw [← naturalBatch_schema]
  cases tables with
  | nil => exact .nil
  | cons first rest =>
    have rows : List.Forall₂ (Reads first.schema) first.rows
        (first.rows.map fun r => [(first, r)]) := by
      rw [List.forall₂_map_right_iff, List.forall₂_same]
      intro r inside
      exact reads_first (valid first List.mem_cons_self r inside)
    have joined := @joinAll_rows rest ⟨first.schema, first.rows⟩ _ rows
    rw [List.flatMap_map] at joined
    exact joined

end Run

section Planning
variable {ctx : ExecutionContext} {catalog : Catalog}

def entry (t : FromTable) : String × Option String :=
  (t.scope.name.display, t.scope.alias'.map Ident.value)

theorem buildTableFactor_stored {factor : TableFactor} {t : FromTable}
    (stores : Stores ctx catalog t factor) : buildTableFactor factor = .ok (entry t) := by
  rw [stores.named]
  rfl

theorem buildJoinTables_stored {joins : List Join} {tables : List FromTable}
    (stores : List.Forall₂ (Stores ctx catalog) tables (joins.map Join.relation)) :
    buildJoinTables joins = .ok (tables.map entry) := by
  induction joins generalizing tables with
  | nil =>
    rw [List.forall₂_nil_right_iff.mp stores]
    rfl
  | cons join rest ih =>
    cases stores with
    | cons first others =>
      rw [buildJoinTables, buildTableFactor_stored first, ok_bind, ih others]
      rfl

theorem buildFromTables_stored {from' : List TableWithJoins} {tables : List FromTable}
    (list : FromList ctx catalog from' tables) :
    buildFromTables from' = .ok (tables.map entry) := by
  induction from' generalizing tables with
  | nil =>
    rw [List.forall₂_nil_right_iff.mp list]
    rfl
  | cons twj rest ih =>
    cases list with
    | cons first others =>
      have joined := List.forall₂_take_append _ _ _ others
      have later := List.forall₂_drop_append _ _ _ others
      rw [buildFromTables, buildTableFactor_stored first, ok_bind, buildJoinTables_stored joined,
        ok_bind, ih later, ok_bind, List.map_cons, List.cons_append, ← List.map_append,
        List.take_append_drop]

end Planning

section Execution
variable [Regex] {ctx : ExecutionContext} {catalog : Catalog}

theorem buildTableScan_stored {t : FromTable} {factor : TableFactor}
    (stores : Stores ctx catalog t factor) :
    ∃ scan, buildTableScan (entry t).1 (entry t).2 catalog = .ok scan ∧
      scan.outputSchema = t.schema ∧ execute ctx scan = .ok ⟨t.schema, t.rows⟩ := by
  obtain ⟨path, source, requested, answers⟩ := stores.stored
  obtain ⟨⟨_, _⟩, located, known⟩ := bind_eq_ok.mp requested
  obtain ⟨_, described, same⟩ := bind_eq_ok.mp known
  cases same
  refine ⟨.scan (entry t).1 path source t.schema, ?_, rfl, execute_scan answers _⟩
  rw [buildTableScan, entry, located, ok_bind, described]
  rfl

omit [Regex] in
theorem joinBatches_one (before : RecordBatch) (t : FromTable) :
    joinBatches before ⟨t.schema, t.rows⟩ (sharedPairs before t) .inner =
      RecordBatch.fromRecords (joinOne before t).schema (joinOne before t).records := by
  have inside (l : Record) : joinRowsOf before ⟨t.schema, t.rows⟩ (sharedPairs before t) .inner l =
      (t.rows.filter (joinCond before.schema t.schema (sharedPairs before t) l)).map
        (joinedRow t.schema (sharedPairs before t) l) := by
    rw [joinRowsOf, if_neg (by simp)]
  rw [joinBatches, if_neg (by simp), funext inside]
  rfl

theorem execute_joinOne {plan scan : LogicalPlan} {t : FromTable} {b : RecordBatch}
    (scanned : execute ctx scan = .ok ⟨t.schema, t.rows⟩)
    (ran : execute ctx (.join plan scan (joinPairs plan.outputSchema t.schema) .inner
      (joinSchema plan.outputSchema t.schema (joinPairs plan.outputSchema t.schema))) = .ok b) :
    ∃ before, execute ctx plan = .ok before ∧ b = joinOne before t ∧ b.Valid := by
  rw [execute, scanned] at ran
  obtain ⟨before, executed, ran⟩ := bind_eq_ok.mp ran
  obtain ⟨left, taken, ran⟩ := bind_eq_ok.mp ran
  obtain ⟨same, rfl⟩ := extend_eq_ok.mp taken
  have same : plan.outputSchema = before.schema := same
  rw [ok_bind, same] at ran
  obtain ⟨joined, combined, rebuilt⟩ := bind_eq_ok.mp ran
  have combined : joinBatches before ⟨t.schema, t.rows⟩ (sharedPairs before t) .inner =
      .ok joined := combined
  rw [joinBatches_one] at combined
  obtain ⟨rfl, _⟩ := fromRecords_eq_ok.mp combined
  obtain ⟨rfl, valid⟩ := fromRecords_eq_ok.mp rebuilt
  exact ⟨before, executed, rfl, valid⟩

theorem joinTables_runs {tables : List FromTable} {factors : List TableFactor}
    (list : List.Forall₂ (Stores ctx catalog) tables factors) (plan : LogicalPlan) :
    ∃ joined, joinTables catalog plan (tables.map entry) = .ok joined ∧
      joined.outputSchema =
        tables.foldl (fun columns t => addColumns columns t.schema) plan.outputSchema ∧
      ∀ b, execute ctx joined = .ok b → ∃ before, execute ctx plan = .ok before ∧
        b = joinAll before tables ∧ (before.Valid → b.Valid) := by
  induction list generalizing plan with
  | nil => exact ⟨plan, rfl, rfl, fun b ran => ⟨b, ran, rfl, id⟩⟩
  | @cons t _ rest _ stores _ ih =>
    obtain ⟨scan, built, shown, scanned⟩ := buildTableScan_stored stores
    obtain ⟨joined, planned, columns, runs⟩ := ih (.join plan scan
      (joinPairs plan.outputSchema t.schema) .inner
      (joinSchema plan.outputSchema t.schema (joinPairs plan.outputSchema t.schema)))
    refine ⟨joined, ?_, ?_, ?_⟩
    · rw [List.map_cons, joinTables, built, ok_bind, shown]
      exact planned
    · rw [columns, List.foldl_cons, LogicalPlan.outputSchema, joinSchema, kept_eq_ownFields]
      rfl
    · intro b ran
      obtain ⟨after, step, whole, valid⟩ := runs b ran
      obtain ⟨before, executed, rfl, formed⟩ := execute_joinOne scanned step
      exact ⟨before, executed, whole, fun _ => valid formed⟩

/-- The plan of a FROM list has the columns of its tables, and if it runs it gives the batch that
    they are joined to. -/
theorem fromPlan_runs {from' : List TableWithJoins} {tables : List FromTable}
    (list : FromList ctx catalog from' tables) :
    ∃ plan, fromPlan catalog from' = .ok plan ∧ plan.outputSchema = naturalColumns tables ∧
      ∀ b, execute ctx plan = .ok b → b = naturalBatch tables ∧ b.Valid := by
  rw [fromPlan, buildFromTables_stored list, ok_bind]
  unfold FromList at list
  generalize tableFactors from' = factors at list
  cases list with
  | nil =>
    refine ⟨.empty, rfl, rfl, ?_⟩
    intro b ran
    obtain rfl := Except.ok.inj ran
    exact ⟨rfl, new_valid _⟩
  | @cons first _ rest _ stores others =>
    obtain ⟨scan, built, shown, scanned⟩ := buildTableScan_stored stores
    obtain ⟨joined, planned, columns, runs⟩ := joinTables_runs others scan
    refine ⟨joined, ?_, ?_, ?_⟩
    · rw [List.map_cons, buildFromClause, built, ok_bind]
      exact planned
    · rw [columns, shown, naturalColumns, List.foldl_cons, addColumns_empty]
    · intro b ran
      obtain ⟨before, executed, whole, valid⟩ := runs b ran
      obtain rfl := Except.ok.inj (scanned.symm.trans executed)
      obtain ⟨_, _, _, answers⟩ := stores.stored
      exact ⟨whole, valid answers.2⟩

omit [Regex] in
theorem stored_valid {tables : List FromTable} {factors : List TableFactor}
    (list : List.Forall₂ (Stores ctx catalog) tables factors) :
    ∀ t ∈ tables, ∀ r ∈ t.rows, r.Valid t.schema := by
  induction list with
  | nil => exact fun _ inside => absurd inside List.not_mem_nil
  | cons stores _ ih =>
    obtain ⟨_, _, _, answers⟩ := stores.stored
    exact List.forall_mem_cons.mpr ⟨answers.2, ih⟩

end Execution

end RSparkNaturalRows
