import RSpark.LiveCatalog

/- What the handlers say about the tables while others register and remove them. -/
namespace RSparkCatalogReads
open RSparkValue RSparkBatch RSparkExpr RSparkPlan RSparkSqlAst RSparkExprBuilder RSparkApi
open RSparkExecutor RSparkFlowOutput RSparkSnapshot RSparkLiveCatalog Calls
open RSparkMaster (usersParser usersSql noDebug)

abbrev Moments := CatalogOp → SessionState → Prop

variable {moment : Moments} {α β : Type}

section Tables

def about : CatalogOp → Option String
  | .tableLocation name => some name
  | .tableSchema name => some name
  | _ => none

def Asks (o : CatalogOp) : Prop := ∃ name, about o = some name

def Calm (moment : Moments) (c : SessionState) : Prop :=
  ∀ o s name, moment o s → about o = some name → s.tables.get name = c.tables.get name

theorem answered_same {o : CatalogOp} {name : String} (asked : about o = some name)
    {s c : SessionState} (same : s.tables.get name = c.tables.get name) :
    (o.exec s).2 = (o.exec c).2 := by
  cases o with
  | tableLocation name' =>
    obtain rfl := Option.some.inj asked
    simp only [CatalogOp.exec, SessionState.tableLocation, same]
  | tableSchema name' =>
    obtain rfl := Option.some.inj asked
    simp only [CatalogOp.exec, SessionState.tableSchema, same]
  | _ => cases asked

theorem asks_keeps {o : CatalogOp} (asks : Asks o) (s : SessionState) : (o.exec s).1 = s := by
  obtain ⟨name, asked⟩ := asks
  cases o with
  | tableLocation name' => rfl
  | tableSchema name' => rfl
  | _ => cases asked

theorem run_of_calm {p : CatalogProg α} (asks : Only Asks p) {c : SessionState}
    (calm : Calm moment c) {r : α} (finds : Finds moment p (.ret r)) : p.run c = (c, some r) := by
  refine run_of_finds asks (fun o only => asks_keeps only c) ?_ finds
  rintro o s ⟨name, asked⟩ now
  exact answered_same asked (calm o s name now asked)

theorem only_andThen {p : CatalogProg (Result α)} {f : α → CatalogProg (Result β)}
    (first : Only Asks p) (next : ∀ a, Only Asks (f a)) : Only Asks (andThen p f) :=
  only_bind first fun
    | .ok a => next a
    | .error _ => trivial

theorem location_asks (name : String) : Only Asks (location name) :=
  ⟨⟨name, rfl⟩, fun _ => trivial⟩

theorem schemaOf_asks (name : String) : Only Asks (schemaOf name) :=
  ⟨⟨name, rfl⟩, fun _ => trivial⟩

theorem buildTableScan_asks (name : String) (alias' : Option String) :
    Only Asks (buildTableScan name alias') :=
  only_andThen (location_asks name) fun _ => only_andThen (schemaOf_asks name) fun _ => trivial

theorem joinTables_asks (plan : LogicalPlan) (tables : List (String × Option String)) :
    Only Asks (joinTables plan tables) := by
  induction tables generalizing plan with
  | nil => exact trivial
  | cons table rest ih =>
    exact only_andThen (buildTableScan_asks _ _) fun _ => only_andThen trivial fun _ => ih _

theorem planSelect_asks (select : Select) : Only Asks (planSelect select) := by
  refine only_andThen trivial fun tables => only_andThen ?_ fun _ => trivial
  cases tables with
  | nil => exact trivial
  | cons table rest =>
    exact only_andThen (buildTableScan_asks _ _) fun plan => joinTables_asks plan rest

theorem renderCreateTable_asks (name : String) : Only Asks (renderCreateTable name) :=
  only_andThen (schemaOf_asks name) fun _ => only_andThen (location_asks name) fun _ => trivial

variable [SqlParser]

mutual
theorem planQuery_asks : (query : Query) → Only Asks (planQuery query)
  | .mk withClause body orderBy limit offset => by
    rw [planQuery]
    split
    · exact trivial
    · exact only_andThen (planSetExpr_asks body) fun _ => trivial

theorem planSetExpr_asks : (body : SetExpr) → Only Asks (planSetExpr body)
  | .select select => planSelect_asks select
  | .query query => planQuery_asks query
  | .setOperation .union _ left right =>
    only_andThen (planSetExpr_asks left) fun _ =>
      only_andThen (planSetExpr_asks right) fun _ => trivial
  | .setOperation (.other _) _ _ _ => trivial
  | .other _ => trivial
end

variable [RSparkPlanner.PlanDebug]

theorem planStatement_asks (statement : Statement) : Only Asks (planStatement statement) := by
  induction statement with
  | query query => exact planQuery_asks query
  | explain statement ih => exact only_andThen ih fun _ => trivial
  | _ => exact trivial

theorem planSql_asks (sql : String) : Only Asks (planSql sql) := by
  refine only_andThen trivial fun statements => ?_
  have each (last : Option LogicalPlan) : Only Asks (planStatements last statements) := by
    induction statements generalizing last with
    | nil => exact trivial
    | cons statement rest ih => exact only_andThen (planStatement_asks statement) fun plan => ih _
  exact each none

end Tables

section Undisturbed
variable {start : SessionState} {history : List (Event catalogInterface)}

def writes : CatalogOp → Option String
  | .registerWithKind name _ => some name
  | .unregister name => some name
  | _ => none

theorem unwritten_get {o : CatalogOp} {name : String} (other : writes o ≠ some name)
    (s : SessionState) : (o.exec s).1.tables.get name = s.tables.get name := by
  cases o with
  | registerWithKind written entry =>
    exact s.tables.get_insert_other (fun same => other (congrArg some same.symm)) entry
  | unregister written =>
    exact s.tables.get_remove_other fun same => other (congrArg some same.symm)
  | _ => rfl

theorem stateAfter_get {name : String} (others : ∀ e ∈ history, writes e.op ≠ some name) :
    (stateAfter start history).tables.get name = start.tables.get name := by
  induction history using List.reverseRecOn with
  | nil => rfl
  | append_singleton before e ih =>
    rw [stateAfter_snoc]
    refine (unwritten_get (others e (by simp)) _).trans (ih fun e' mem => ?_)
    exact others e' (List.mem_append_left _ mem)

theorem undisturbed_calm {i : Nat}
    (apart : ∀ e ∈ history, e.thread = i → ∀ e' ∈ history, ∀ name ∈ about e.op,
      writes e'.op ≠ some name) : Calm (Moment start history i) start := by
  rintro _ _ name ⟨before, e, after, rfl, thread, rfl, rfl⟩ asked
  refine stateAfter_get fun e' mem => ?_
  exact apart e (by simp) thread e' (List.mem_append_left _ mem) name asked

end Undisturbed

section Scans

/-- Each scan reads the place of one registration of a table under the columns of one. -/
def Pieced (moment : Moments) (plan : LogicalPlan) : Prop :=
  ∀ r ∈ plan.scans, ∃ name,
    (∃ s, moment (.tableLocation name) s ∧ s.tableLocation name = .ok (r.path, r.source)) ∧
      ∃ s, moment (.tableSchema name) s ∧ s.tableSchema name = .ok r.schema

theorem pieced_scans {plan input : LogicalPlan} (same : plan.scans = input.scans)
    (pieced : Pieced moment input) : Pieced moment plan := by
  unfold Pieced at *
  rw [same]
  exact pieced

theorem pieced_append {plan left right : LogicalPlan}
    (both : plan.scans = left.scans ++ right.scans) (first : Pieced moment left)
    (second : Pieced moment right) : Pieced moment plan := by
  intro r mem
  rw [both] at mem
  exact (List.mem_append.mp mem).elim (first r) (second r)

theorem finds_error {e : Fault} {P : Prop} {b : β}
    (finds : Finds moment (.ret (.error e)) (.ret (.ok b) : CatalogProg (Result β))) : P := by
  cases finds_ret finds

theorem finds_andThen {p : CatalogProg (Result α)} {f : α → CatalogProg (Result β)} {b : β}
    (finds : Finds moment (andThen p f) (.ret (.ok b))) :
    ∃ a, Finds moment p (.ret (.ok a)) ∧ Finds moment (f a) (.ret (.ok b)) := by
  obtain ⟨x, first, later⟩ := finds_bind p finds
  cases x with
  | ok a => exact ⟨a, first, later⟩
  | error e => exact finds_error later

theorem finds_pure {x : Result α} {f : α → CatalogProg (Result β)} {b : β}
    (finds : Finds moment (andThen (.ret x) f) (.ret (.ok b))) :
    ∃ a, x = .ok a ∧ Finds moment (f a) (.ret (.ok b)) := by
  obtain ⟨a, first, later⟩ := finds_andThen finds
  exact ⟨a, finds_ret first, later⟩

theorem buildTableScan_pieced {name : String} {alias' : Option String} {plan : LogicalPlan}
    (finds : Finds moment (buildTableScan name alias') (.ret (.ok plan))) :
    Pieced moment plan := by
  obtain ⟨place, first, finds⟩ := finds_andThen finds
  obtain ⟨schema, second, finds⟩ := finds_andThen finds
  obtain rfl := Except.ok.inj (finds_ret finds)
  obtain ⟨s, at', placed⟩ := finds_call first
  obtain ⟨s', at'', typed⟩ := finds_call second
  intro r mem
  obtain rfl := List.mem_singleton.mp mem
  exact ⟨name, ⟨s, at', finds_ret placed⟩, s', at'', finds_ret typed⟩

theorem joinTables_pieced {plan out : LogicalPlan} {tables : List (String × Option String)}
    (pieced : Pieced moment plan)
    (finds : Finds moment (joinTables plan tables) (.ret (.ok out))) : Pieced moment out := by
  induction tables generalizing plan with
  | nil =>
    obtain rfl := Except.ok.inj (finds_ret finds)
    exact pieced
  | cons table rest ih =>
    obtain ⟨right, scanned, finds⟩ := finds_andThen finds
    obtain ⟨schema, _, finds⟩ := finds_pure finds
    exact ih (pieced_append rfl pieced (buildTableScan_pieced scanned)) finds

theorem buildFromClause_pieced {tables : List (String × Option String)} {plan : LogicalPlan}
    (finds : Finds moment (buildFromClause tables) (.ret (.ok plan))) : Pieced moment plan := by
  cases tables with
  | nil =>
    obtain rfl := Except.ok.inj (finds_ret finds)
    intro r mem
    cases mem
  | cons table rest =>
    obtain ⟨first, scanned, finds⟩ := finds_andThen finds
    exact joinTables_pieced (buildTableScan_pieced scanned) finds

theorem planWhere_scans {selection : Option SqlExpr} {input plan : LogicalPlan}
    (planned : RSparkPlanner.planWhere selection input = .ok plan) : plan.scans = input.scans := by
  cases selection with
  | none =>
    obtain rfl := Except.ok.inj planned
    rfl
  | some clause =>
    obtain ⟨predicate, _, planned⟩ := bind_eq_ok.mp planned
    obtain rfl := Except.ok.inj planned
    rfl

theorem planProject_scans {projections : List Expr} {input plan : LogicalPlan}
    (planned : RSparkPlanner.planProject projections input = .ok plan) :
    plan.scans = input.scans := by
  obtain ⟨schema, _, planned⟩ := bind_eq_ok.mp planned
  obtain rfl := Except.ok.inj planned
  rfl

theorem planHaving_scans {having : Option SqlExpr} {projections : List Expr}
    {input plan : LogicalPlan}
    (planned : RSparkPlanner.planHaving having projections input = .ok plan) :
    plan.scans = input.scans := by
  cases having with
  | none =>
    obtain rfl := Except.ok.inj planned
    rfl
  | some clause =>
    obtain ⟨predicate, _, planned⟩ := bind_eq_ok.mp planned
    obtain rfl := Except.ok.inj planned
    rfl

theorem planSelectShape_scans {select : Select} {projections groupExprs : List Expr}
    {input plan : LogicalPlan}
    (planned : RSparkPlanner.planSelectShape select projections groupExprs input = .ok plan) :
    plan.scans = input.scans := by
  simp only [RSparkPlanner.planSelectShape] at planned
  split at planned
  · obtain ⟨grouped, first, planned⟩ := bind_eq_ok.mp planned
    obtain ⟨schema, _, first⟩ := bind_eq_ok.mp first
    obtain rfl := Except.ok.inj first
    obtain ⟨projected, second, third⟩ := bind_eq_ok.mp planned
    have below := planProject_scans second
    exact (planHaving_scans third).trans below
  · split at planned
    · obtain ⟨projected, first, planned⟩ := bind_eq_ok.mp planned
      have below := planProject_scans first
      obtain rfl := Except.ok.inj planned
      exact below
    · exact planProject_scans planned

theorem planSelect_pieced {select : Select} {plan : LogicalPlan}
    (finds : Finds moment (planSelect select) (.ret (.ok plan))) : Pieced moment plan := by
  obtain ⟨tables, _, finds⟩ := finds_pure finds
  obtain ⟨joined, first, finds⟩ := finds_andThen finds
  obtain ⟨filtered, second, planned⟩ := bind_eq_ok.mp (finds_ret finds)
  obtain ⟨projections, _, planned⟩ := bind_eq_ok.mp planned
  obtain ⟨groupExprs, _, planned⟩ := bind_eq_ok.mp planned
  exact pieced_scans ((planSelectShape_scans planned).trans (planWhere_scans second))
    (buildFromClause_pieced first)

variable [SqlParser]

theorem planLimit_scans {limit : Option SqlExpr} {input plan : LogicalPlan}
    (planned : RSparkPlanner.planLimit limit input = .ok plan) : plan.scans = input.scans := by
  cases limit with
  | none =>
    obtain rfl := Except.ok.inj planned
    rfl
  | some limit =>
    obtain ⟨count, _, planned⟩ := bind_eq_ok.mp planned
    obtain rfl := Except.ok.inj planned
    rfl

omit [SqlParser] in
theorem planSort_scans (keys : List SortExpr) (input : LogicalPlan) :
    (RSparkPlanner.planSort keys input).scans = input.scans := by
  unfold RSparkPlanner.planSort
  split <;> rfl

mutual
theorem planQuery_pieced : (query : Query) → {plan : LogicalPlan} →
    Finds moment (planQuery query) (.ret (.ok plan)) → Pieced moment plan
  | .mk withClause body orderBy limit offset, plan, finds => by
    rw [planQuery] at finds
    split at finds
    · exact finds_error finds
    · obtain ⟨inner, first, finds⟩ := finds_andThen finds
      obtain ⟨keys, _, planned⟩ := bind_eq_ok.mp (finds_ret finds)
      refine pieced_scans ?_ (planSetExpr_pieced body first)
      exact (planLimit_scans planned).trans (planSort_scans keys inner)

theorem planSetExpr_pieced : (body : SetExpr) → {plan : LogicalPlan} →
    Finds moment (planSetExpr body) (.ret (.ok plan)) → Pieced moment plan
  | .select select, plan, finds => planSelect_pieced finds
  | .query query, plan, finds => planQuery_pieced query finds
  | .setOperation .union _ left right, plan, finds => by
    obtain ⟨l, first, finds⟩ := finds_andThen finds
    obtain ⟨r, second, finds⟩ := finds_andThen finds
    obtain rfl := Except.ok.inj (finds_ret finds)
    refine pieced_append ?_ (planSetExpr_pieced left first) (planSetExpr_pieced right second)
    simp only [LogicalPlan.scans, scansOfAll, List.append_nil]
  | .setOperation (.other _) _ _ _, plan, finds => finds_error finds
  | .other _, plan, finds => finds_error finds
end

variable [RSparkPlanner.PlanDebug]

theorem planStatement_pieced {statement : Statement} {plan : LogicalPlan}
    (finds : Finds moment (planStatement statement) (.ret (.ok plan))) : Pieced moment plan := by
  have nothing : Pieced moment .empty := by
    intro r mem
    cases mem
  induction statement generalizing plan with
  | query query => exact planQuery_pieced query finds
  | explain statement ih =>
    obtain ⟨inner, first, finds⟩ := finds_andThen finds
    have pieced := ih first
    obtain rfl := Except.ok.inj (finds_ret finds)
    exact pieced
  | showTables =>
    obtain rfl := Except.ok.inj (finds_ret finds)
    exact nothing
  | use =>
    obtain rfl := Except.ok.inj (finds_ret finds)
    exact nothing
  | showCreateTable name => exact finds_error finds
  | other display => exact finds_error finds

theorem planStatements_pieced {statements : List Statement} {before : Option LogicalPlan}
    {plan : LogicalPlan} (known : ∀ plan, before = some plan → Pieced moment plan)
    (finds : Finds moment (planStatements before statements) (.ret (.ok plan))) :
    Pieced moment plan := by
  induction statements generalizing before with
  | nil =>
    cases before with
    | none => exact finds_error finds
    | some plan' =>
      obtain rfl := Except.ok.inj (finds_ret finds)
      exact known plan' rfl
  | cons statement rest ih =>
    obtain ⟨next, first, finds⟩ := finds_andThen finds
    refine ih ?_ finds
    intro plan' same
    obtain rfl := Option.some.inj same
    exact planStatement_pieced first

theorem planSql_pieced {sql : String} {plan : LogicalPlan}
    (finds : Finds moment (planSql sql) (.ret (.ok plan))) : Pieced moment plan := by
  obtain ⟨statements, _, finds⟩ := finds_pure finds
  refine planStatements_pieced ?_ finds
  intro plan' same
  cases same

end Scans

section Listed

def summaryOf (name : String) (entry : TableEntry) : TableSummary :=
  ⟨name, entry.path, entry.source, columnsOf entry.schema⟩

/-- A table was found each time that it was asked about; it need not have been the same one. -/
structure Told (moment : Moments) (t : TableSummary) : Prop where
  columns : ∃ s schema, moment (.tableSchema t.name) s ∧
    s.tableSchema t.name = .ok schema ∧ t.columns = columnsOf schema
  location : ∃ s, moment (.tableLocation t.name) s ∧
    s.tableLocation t.name = .ok (t.path, t.source)

def Steady (moment : Moments) (name : String) (entry : TableEntry) : Prop :=
  ∀ o s, moment o s → s.tables.get name = some entry

theorem steady_schema {name : String} {entry : TableEntry} {o : CatalogOp} {s : SessionState}
    (steady : Steady moment name entry) (now : moment o s) :
    s.tableSchema name = .ok entry.schema := by
  rw [SessionState.tableSchema, steady o s now]
  rfl

theorem steady_location {name : String} {entry : TableEntry} {o : CatalogOp} {s : SessionState}
    (steady : Steady moment name entry) (now : moment o s) :
    s.tableLocation name = .ok (entry.path, entry.source) := by
  rw [SessionState.tableLocation, steady o s now]
  rfl

structure Collected (moment : Moments) (names : List String) (out : List TableSummary) :
    Prop where
  listed : (out.map TableSummary.name).Sublist names
  told : ∀ t ∈ out, Told moment t
  steady : ∀ name ∈ names, ∀ entry, Steady moment name entry → summaryOf name entry ∈ out

theorem Collected.pass {names : List String} {out : List TableSummary} {name : String}
    (rest : Collected moment names out) (gone : ∀ entry, ¬ Steady moment name entry) :
    Collected moment (name :: names) out where
  listed := rest.listed.cons name
  told := rest.told
  steady := by
    intro other mem entry steady
    rcases List.mem_cons.mp mem with rfl | mem
    · exact absurd steady (gone entry)
    · exact rest.steady other mem entry steady

theorem summaries_collected {names : List String} {out : List TableSummary}
    (finds : Finds moment (summaries names) (.ret out)) : Collected moment names out := by
  induction names generalizing out with
  | nil =>
    obtain rfl := finds_ret finds
    exact ⟨.slnil, by simp, by simp⟩
  | cons name rest ih =>
    obtain ⟨s, now, finds⟩ := finds_call finds
    cases typed : s.tableSchema name with
    | error e =>
      simp only [CatalogOp.exec, typed] at finds
      refine (ih finds).pass fun entry steady => ?_
      cases typed.symm.trans (steady_schema steady now)
    | ok schema =>
      simp only [CatalogOp.exec, typed] at finds
      obtain ⟨s', later, finds⟩ := finds_call finds
      cases placed : s'.tableLocation name with
      | error e =>
        simp only [CatalogOp.exec, placed] at finds
        refine (ih finds).pass fun entry steady => ?_
        cases placed.symm.trans (steady_location steady later)
      | ok place =>
        simp only [CatalogOp.exec, placed] at finds
        obtain ⟨more, rfl, others⟩ := finds_map _ finds
        have collected := ih others
        refine ⟨collected.listed.cons_cons name, ?_, ?_⟩
        · intro t mem
          rcases List.mem_cons.mp mem with rfl | mem
          · exact ⟨⟨s, schema, now, typed, rfl⟩, s', later, placed⟩
          · exact collected.told t mem
        · intro other mem entry steady
          rcases List.mem_cons.mp mem with rfl | mem
          · obtain rfl := Except.ok.inj (typed.symm.trans (steady_schema steady now))
            obtain rfl := Except.ok.inj (placed.symm.trans (steady_location steady later))
            exact List.mem_cons_self
          · exact List.mem_cons_of_mem _ (collected.steady other mem entry steady)

theorem sorted_distinct {names : List String} (apart : names.Nodup) :
    (names.insertionSort (· ≤ ·)).Pairwise (· < ·) := by
  have sorted := List.pairwise_insertionSort (· ≤ ·) names
  have distinct := (List.perm_insertionSort (· ≤ ·) names).nodup_iff.mpr apart
  exact (sorted.and distinct).imp fun ⟨before, other⟩ => lt_of_le_of_ne before other

theorem byName_sorted {out : List TableSummary} (apart : (out.map TableSummary.name).Nodup) :
    ((byName out).map TableSummary.name).Pairwise (· < ·) := by
  have named : (byName out).map TableSummary.name =
      (out.map TableSummary.name).insertionSort (· ≤ ·) :=
    List.map_insertionSort _ _ _ _ fun _ _ _ _ => Iff.rfl
  rw [named]
  exact sorted_distinct apart

def Column (moment : Moments) (names : List String) (column : String) : Prop :=
  ∃ name ∈ names, ∃ s schema, moment (.tableSchema name) s ∧
    s.tableSchema name = .ok schema ∧ column ∈ schema.fieldNames

theorem fieldNames_found {named : List (String × TableKind)} {out : List String}
    (finds : Finds moment (fieldNames named) (.ret out)) :
    (∀ column ∈ out, Column moment (named.map Prod.fst) column) ∧
      ∀ name ∈ named.map Prod.fst, ∀ entry, Steady moment name entry →
        ∀ column ∈ entry.schema.fieldNames, column ∈ out := by
  induction named generalizing out with
  | nil =>
    obtain rfl := finds_ret finds
    exact ⟨by simp, by simp⟩
  | cons head rest ih =>
    obtain ⟨name, kind⟩ := head
    obtain ⟨s, now, finds⟩ := finds_call finds
    have deeper {column : String} (found : Column moment (rest.map Prod.fst) column) :
        Column moment (name :: rest.map Prod.fst) column := by
      obtain ⟨other, mem, found⟩ := found
      exact ⟨other, List.mem_cons_of_mem _ mem, found⟩
    cases typed : s.tableSchema name with
    | error e =>
      simp only [CatalogOp.exec, typed] at finds
      obtain ⟨found, complete⟩ := ih finds
      refine ⟨fun column mem => deeper (found column mem), ?_⟩
      intro other mem entry steady
      rcases List.mem_cons.mp mem with rfl | mem
      · cases typed.symm.trans (steady_schema steady now)
      · exact complete other mem entry steady
    | ok schema =>
      simp only [CatalogOp.exec, typed] at finds
      obtain ⟨more, rfl, others⟩ := finds_map _ finds
      obtain ⟨found, complete⟩ := ih others
      constructor
      · intro column mem
        rcases List.mem_append.mp mem with mem | mem
        · exact ⟨name, List.mem_cons_self, s, schema, now, typed, mem⟩
        · exact deeper (found column mem)
      · intro other mem entry steady column inside
        rcases List.mem_cons.mp mem with rfl | mem
        · obtain rfl := Except.ok.inj (typed.symm.trans (steady_schema steady now))
          exact List.mem_append_left _ inside
        · exact List.mem_append_right _ (complete other mem entry steady column inside)

end Listed

section Planned
variable {start last : Pool catalogInterface Outcome} {history : List (Event catalogInterface)}
variable {i : Nat} {c : SessionState}

/-- However often the tables are asked about, a plan is that of one session that agrees with what
    was found of them. Of the other tables nothing is said. -/
theorem planned_as_of [SqlParser] [RSparkPlanner.PlanDebug] {sql : String}
    {plan : Result LogicalPlan} (run : Run start history last)
    (here : start.threads[i]? = some ((planSql sql).map .planned))
    (returned : last.threads[i]? = some (.ret (.planned plan)))
    (calm : Calm (Moment start.state history i) c) :
    plan = RSparkPlanner.planSql sql c.catalog := by
  obtain ⟨found, same, finds⟩ := finds_map _ (run_returned run here returned)
  obtain rfl := Outcome.planned.inj same
  have alone := run_of_calm (planSql_asks sql) calm finds
  rw [planSql_run] at alone
  exact (Option.some.inj (Prod.mk.inj alone).2).symm

theorem rendered_as_of {name : String} {text : Result String} (run : Run start history last)
    (here : start.threads[i]? = some ((renderCreateTable name).map .rendered))
    (returned : last.threads[i]? = some (.ret (.rendered text)))
    (calm : Calm (Moment start.state history i) c) :
    text = RSparkApi.renderCreateTable c.catalog name := by
  obtain ⟨found, same, finds⟩ := finds_map _ (run_returned run here returned)
  obtain rfl := Outcome.rendered.inj same
  have alone := run_of_calm (renderCreateTable_asks name) calm finds
  rw [renderCreateTable_run] at alone
  exact (Option.some.inj (Prod.mk.inj alone).2).symm

def scanAndRegister (name : String) (alias' : Option String) (entry : TableEntry)
    (s : SessionState) : Pool catalogInterface Outcome where
  state := s
  threads := [(buildTableScan name alias').map .planned,
    .call (.registerWithKind name entry) fun _ => .ret (.registered (.ok ()))]

/-- Between the two questions, so that the old place is scanned under the new columns. -/
theorem scan_torn {name : String} (alias' : Option String) {s : SessionState}
    {old : TableEntry} (known : s.tables.get name = some old) (new : TableEntry) :
    ∃ history last, Run (scanAndRegister name alias' new s) history last ∧
      last.threads[0]? =
        some (.ret (.planned (.ok (.scan name old.path old.source new.schema)))) := by
  have placed : (scanAndRegister name alias' new s).state.tableLocation name =
      .ok (old.path, old.source) := by
    rw [scanAndRegister, SessionState.tableLocation, known]
    rfl
  have typed : SessionState.tableSchema
      ⟨(scanAndRegister name alias' new s).state.tables.insert name new⟩ name =
        .ok new.schema := by
    rw [SessionState.tableSchema, InsertionMap.get_insert_self]
    rfl
  have first : Run (scanAndRegister name alias' new s) _ _ :=
    .step 0 (CatalogOp.tableLocation name) _ .nil rfl
  have second := first.step 1 (CatalogOp.registerWithKind name new) _ rfl
  simp only [CatalogOp.exec, placed] at second
  have third := second.step 0 (CatalogOp.tableSchema name) _ rfl
  simp only [CatalogOp.exec, typed] at third
  exact ⟨_, _, third, rfl⟩

/-- The scans of a plan, whatever others do to the catalog while it is made. -/
theorem planned_pieced [SqlParser] [RSparkPlanner.PlanDebug] {sql : String} {plan : LogicalPlan}
    (run : Run start history last)
    (here : start.threads[i]? = some ((planSql sql).map .planned))
    (returned : last.threads[i]? = some (.ret (.planned (.ok plan)))) :
    Pieced (Moment start.state history i) plan := by
  obtain ⟨found, same, finds⟩ := finds_map _ (run_returned run here returned)
  obtain rfl := Outcome.planned.inj same
  exact planSql_pieced finds

theorem listed_as_found {order : Walk String} {tables : List TableSummary}
    (run : Run start history last)
    (here : start.threads[i]? = some ((listTables order).map .listed))
    (returned : last.threads[i]? = some (.ret (.listed tables))) :
    (tables.map TableSummary.name).Pairwise (· < ·) ∧
      (∀ t ∈ tables, Told (Moment start.state history i) t) ∧
      ∀ name entry, Steady (Moment start.state history i) name entry →
        summaryOf name entry ∈ tables := by
  obtain ⟨found, same, finds⟩ := finds_map _ (run_returned run here returned)
  obtain rfl := Outcome.listed.inj same
  obtain ⟨s, now, finds⟩ := finds_call finds
  obtain ⟨out, rfl, each⟩ := finds_map _ finds
  have collected := summaries_collected each
  have keys := order.rearranges s.tables.keys
  have inside {t : TableSummary} : t ∈ byName out ↔ t ∈ out :=
    (List.perm_insertionSort _ out).mem_iff
  refine ⟨byName_sorted ?_, fun t mem => collected.told t (inside.mp mem), ?_⟩
  · exact (keys.nodup_iff.mpr s.tables.nodupKeys).sublist collected.listed
  · intro name entry steady
    have known : name ∈ s.tables.keys := (s.tables.mem_keys_iff name).mpr ⟨_, steady _ s now⟩
    exact inside.mpr (collected.steady name (keys.mem_iff.mpr known) entry steady)

/-- The names are those of one moment, the columns those of the moments after it. -/
theorem suggested_as_found {order : Walk (String × TableKind)} {out : Suggestions}
    (run : Run start history last)
    (here : start.threads[i]? = some ((suggestions order).map .suggested))
    (returned : last.threads[i]? = some (.ret (.suggested out))) :
    (∃ s, Moment start.state history i (.listTablesWithKind order) s ∧ out.tables.Perm
      (s.tables.entries.map fun entry => ⟨entry.1, TableKind.asStr entry.2.kind⟩)) ∧
      out.columns.Pairwise (· < ·) ∧
      (∀ column ∈ out.columns, Column (Moment start.state history i)
        (out.tables.map TableSuggestion.name) column) ∧
      ∀ name entry, Steady (Moment start.state history i) name entry →
        name ∈ out.tables.map TableSuggestion.name ∧
          ∀ column ∈ entry.schema.fieldNames, column ∈ out.columns := by
  obtain ⟨found, same, finds⟩ := finds_map _ (run_returned run here returned)
  obtain rfl := Outcome.suggested.inj same
  obtain ⟨s, now, finds⟩ := finds_call finds
  obtain ⟨columns, rfl, each⟩ := finds_map _ finds
  obtain ⟨read, complete⟩ := fieldNames_found each
  have walked := order.rearranges (s.tables.entries.map fun entry => (entry.1, entry.2.kind))
  have keys := walked.map Prod.fst
  rw [List.map_map] at keys
  have tables := walked.map fun named => (⟨named.1, TableKind.asStr named.2⟩ : TableSuggestion)
  rw [List.map_map] at tables
  have inside {column : String} : column ∈ sortedSet columns ↔ column ∈ columns :=
    (List.perm_insertionSort _ _).mem_iff.trans Listing.mem_firsts
  simp only [List.map_map]
  refine ⟨⟨s, now, tables⟩, sorted_distinct (Listing.firsts_nodup columns), ?_, ?_⟩
  · exact fun column mem => read column (inside.mp mem)
  · intro name entry steady
    have known : name ∈ s.tables.keys := (s.tables.mem_keys_iff name).mpr ⟨_, steady _ s now⟩
    have listed := keys.mem_iff.mpr known
    exact ⟨listed, fun column mem => inside.mpr (complete name listed entry steady column mem)⟩

end Planned

section Witness

def usersEntry : TableEntry := ⟨"users.csv", "csv", ⟨[.new "id" .int64]⟩, .batch⟩
def townsEntry : TableEntry := ⟨"towns.json", "json", ⟨[.new "town" .string]⟩, .batch⟩

def usersAndTowns (asking : CatalogProg Outcome) : Pool catalogInterface Outcome where
  state := ⟨InsertionMap.empty.insert "users" usersEntry⟩
  threads := [asking,
    .call (.registerWithKind "towns" townsEntry) fun _ => .ret (.registered (.ok ()))]

def usersPlanned : Pool catalogInterface Outcome :=
  usersAndTowns ((@planSql usersParser noDebug usersSql).map .planned)

theorem users_as_of : ∃ history last plan,
    usersPlanned.schedule [0, 1, 0] = some (history, last) ∧
      last.threads[0]? = some (.ret (.planned plan)) ∧
      plan = @RSparkPlanner.planSql usersParser noDebug usersSql usersPlanned.state.catalog := by
  obtain ⟨history, last, plan, ran, returned, apart⟩ : ∃ history last plan,
      usersPlanned.schedule [0, 1, 0] = some (history, last) ∧
        last.threads[0]? = some (.ret (.planned plan)) ∧
        ∀ e ∈ history, e.thread = 0 → ∀ e' ∈ history, ∀ name ∈ about e.op,
          writes e'.op ≠ some name := ⟨_, _, _, rfl, rfl, by decide⟩
  exact ⟨history, last, plan, ran, returned, @planned_as_of _ _ _ _ _ usersParser noDebug _ _
    (run_of_schedule ran) rfl returned (undisturbed_calm apart)⟩

theorem users_pieced : ∃ history last plan,
    usersPlanned.schedule [0, 1, 0] = some (history, last) ∧
      last.threads[0]? = some (.ret (.planned (.ok plan))) ∧
      Pieced (Moment usersPlanned.state history 0) plan := by
  obtain ⟨history, last, plan, ran, returned⟩ : ∃ history last plan,
      usersPlanned.schedule [0, 1, 0] = some (history, last) ∧
        last.threads[0]? = some (.ret (.planned (.ok plan))) := ⟨_, _, _, rfl, rfl⟩
  exact ⟨history, last, plan, ran, returned, @planned_pieced _ _ _ _ usersParser noDebug _ _
    (run_of_schedule ran) rfl returned⟩

def usersListed : Pool catalogInterface Outcome :=
  usersAndTowns ((listTables (inOrder _)).map .listed)

theorem users_listed : ∃ history last tables,
    usersListed.schedule [0, 1, 0, 0] = some (history, last) ∧
      last.threads[0]? = some (.ret (.listed tables)) ∧
      (tables.map TableSummary.name).Pairwise (· < ·) ∧
      (∀ t ∈ tables, Told (Moment usersListed.state history 0) t) ∧
      ∀ name entry, Steady (Moment usersListed.state history 0) name entry →
        summaryOf name entry ∈ tables := by
  obtain ⟨history, last, tables, ran, returned⟩ : ∃ history last tables,
      usersListed.schedule [0, 1, 0, 0] = some (history, last) ∧
        last.threads[0]? = some (.ret (.listed tables)) := ⟨_, _, _, rfl, rfl⟩
  exact ⟨history, last, tables, ran, returned,
    listed_as_found (run_of_schedule ran) rfl returned⟩

def usersSuggested : Pool catalogInterface Outcome :=
  usersAndTowns ((suggestions (inOrder _)).map .suggested)

theorem users_suggested : ∃ history last out,
    usersSuggested.schedule [0, 1, 0] = some (history, last) ∧
      last.threads[0]? = some (.ret (.suggested out)) ∧ out.columns.Pairwise (· < ·) := by
  obtain ⟨history, last, out, ran, returned⟩ : ∃ history last out,
      usersSuggested.schedule [0, 1, 0] = some (history, last) ∧
        last.threads[0]? = some (.ret (.suggested out)) := ⟨_, _, _, rfl, rfl⟩
  exact ⟨history, last, out, ran, returned,
    (suggested_as_found (run_of_schedule ran) rfl returned).2.1⟩

end Witness

end RSparkCatalogReads
