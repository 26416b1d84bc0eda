import RSpark.Listing
import RSpark.Operators

/- What the groups of an aggregation hold: every text of group values has one entry, and its
   accumulators are fed by the records with that text, in their order. -/
namespace RSparkGrouping
open RSparkValue RSparkBatch RSparkExpr RSparkOperators Listing
variable [Regex]

theorem evalAll_eq (record : Record) (batch : RecordBatch) (exprs : List Expr) :
    evalAll record batch exprs = exprs.mapM fun e => e.eval record batch := by
  induction exprs with
  | nil => rfl
  | cons e rest ih =>
    rw [evalAll, List.mapM_cons, ih]
    rfl

theorem evalAll_length {record : Record} {batch : RecordBatch} {exprs : List Expr}
    {values : List Value} (evaluated : evalAll record batch exprs = .ok values) :
    values.length = exprs.length := by
  rw [evalAll_eq] at evaluated
  exact (mapM_eq_ok.mp evaluated).length_eq.symm

def groupKey (groupExprs : List Expr) (batch : RecordBatch) (r : Record) : List Value :=
  answer (evalAll r batch groupExprs)

def groupText (groupExprs : List Expr) (batch : RecordBatch) (r : Record) : List String :=
  (groupKey groupExprs batch r).map Value.castToString

def feed (batch : RecordBatch) (e : Expr) (acc : Accumulator) (r : Record) :
    Result Accumulator :=
  match aggregateArg e with
  | none => .ok acc
  | some (arg, distinct) => do .ok (acc.update (← arg.eval r batch) distinct)

def accumulate (batch : RecordBatch) (e : Expr) (rows : List Record) : Result Accumulator :=
  rows.foldlM (feed batch e) (newAccumulator e)

def groupStep (groupExprs aggregateExprs : List Expr) (batch : RecordBatch)
    (entry : Option GroupState) (r : Record) : Result GroupState := do
  let groupValues ← evalAll r batch groupExprs
  let entry := entry.getD (newGroup groupValues aggregateExprs)
  let accumulators ← updateAccumulators r batch aggregateExprs entry.accumulators
  .ok ⟨entry.groupValues, accumulators⟩

variable {groupExprs aggregateExprs : List Expr} {batch : RecordBatch}

theorem aggregateRecord_eq (groups : Groups) (r : Record) :
    aggregateRecord groupExprs aggregateExprs batch groups r =
      groupStep groupExprs aggregateExprs batch
          (groups.get (groupText groupExprs batch r)) r >>= fun state =>
        .ok (groups.insert (groupText groupExprs batch r) state) := by
  unfold aggregateRecord groupStep groupText groupKey
  cases evalAll r batch groupExprs with
  | error e => rfl
  | ok groupValues =>
    simp only [ok_bind, answer]
    cases updateAccumulators r batch aggregateExprs _ with
    | error e => rfl
    | ok accumulators => rfl

theorem aggregateRecords_eq (groups : Groups) (rows : List Record) :
    aggregateRecords groupExprs aggregateExprs batch groups rows =
      OrderedMap.gather (groupText groupExprs batch)
        (groupStep groupExprs aggregateExprs batch) groups rows := by
  induction rows generalizing groups with
  | nil => rfl
  | cons r rest ih =>
    rw [aggregateRecords, OrderedMap.gather, aggregateRecord_eq]
    cases groupStep groupExprs aggregateExprs batch
        (groups.get (groupText groupExprs batch r)) r with
    | error e => rfl
    | ok state => exact ih _

theorem updateAccumulators_map {r : Record} {exprs : List Expr} (acc : Expr → Accumulator)
    {out : List Accumulator} (h : updateAccumulators r batch exprs (exprs.map acc) = .ok out) :
    out = exprs.map (fun e => (feed batch e (acc e) r).toOption.getD (acc e)) ∧
      ∀ e ∈ exprs, feed batch e (acc e) r =
        .ok ((feed batch e (acc e) r).toOption.getD (acc e)) := by
  induction exprs generalizing out with
  | nil =>
    obtain rfl := Except.ok.inj h
    simp
  | cons e rest ih =>
    rw [List.map_cons, updateAccumulators] at h
    cases item : aggregateArg e with
    | none =>
      rw [item] at h
      obtain ⟨later, updated, h⟩ := bind_eq_ok.mp h
      obtain rfl := Except.ok.inj h
      obtain ⟨rfl, fed⟩ := ih updated
      have head : feed batch e (acc e) r = .ok (acc e) := by simp [feed, item]
      constructor
      · rw [List.map_cons, head]
        rfl
      · intro e' mem
        rcases List.mem_cons.mp mem with rfl | later
        · rw [head]
          rfl
        · exact fed e' later
    | some call =>
      obtain ⟨arg, distinct⟩ := call
      rw [item] at h
      obtain ⟨v, value, h⟩ := bind_eq_ok.mp h
      obtain ⟨later, updated, h⟩ := bind_eq_ok.mp h
      obtain rfl := Except.ok.inj h
      obtain ⟨rfl, fed⟩ := ih updated
      have head : feed batch e (acc e) r = .ok ((acc e).update v distinct) := by
        simp [feed, item, value]
      constructor
      · rw [List.map_cons, head]
        rfl
      · intro e' mem
        rcases List.mem_cons.mp mem with rfl | later
        · rw [head]
          rfl
        · exact fed e' later

theorem updateAccumulators_total {r : Record} {exprs : List Expr} (accs : List Accumulator)
    (args : ∀ e ∈ exprs, ∀ call ∈ aggregateArg e, (call.1.eval r batch).isOk = true) :
    (updateAccumulators r batch exprs accs).isOk = true := by
  induction exprs generalizing accs with
  | nil => rfl
  | cons e rest ih =>
    cases accs with
    | nil => rfl
    | cons acc accs =>
      have later := ih accs fun e' mem => args e' (List.mem_cons_of_mem e mem)
      obtain ⟨updated, rest'⟩ := isOk_iff.mp later
      rw [updateAccumulators]
      cases item : aggregateArg e with
      | none => simp [rest', ok_bind, Except.isOk, Except.toBool]
      | some call =>
        obtain ⟨v, value⟩ := isOk_iff.mp (args e List.mem_cons_self call item)
        simp [value, rest', ok_bind, Except.isOk, Except.toBool]

theorem aggregateRecords_total {rows : List Record} (groups : Groups)
    (keys : ∀ r ∈ rows, (evalAll r batch groupExprs).isOk = true)
    (args : ∀ r ∈ rows, ∀ e ∈ aggregateExprs, ∀ call ∈ aggregateArg e,
      (call.1.eval r batch).isOk = true) :
    (aggregateRecords groupExprs aggregateExprs batch groups rows).isOk = true := by
  induction rows generalizing groups with
  | nil => rfl
  | cons r rest ih =>
    obtain ⟨key, evaluated⟩ := isOk_iff.mp (keys r List.mem_cons_self)
    obtain ⟨accs, updated⟩ := isOk_iff.mp (updateAccumulators_total
      ((groups.get (key.map Value.castToString)).getD (newGroup key aggregateExprs)).accumulators
      (args r List.mem_cons_self))
    rw [aggregateRecords, aggregateRecord, evaluated, ok_bind]
    simp only [updated, ok_bind]
    exact ih _ (fun r' mem => keys r' (List.mem_cons_of_mem r mem))
      fun r' mem => args r' (List.mem_cons_of_mem r mem)

structure Summarizes (groupExprs aggregateExprs : List Expr) (batch : RecordBatch)
    (rows : List Record) (state : GroupState) : Prop where
  evaluated : ∀ r ∈ rows, evalAll r batch groupExprs = .ok (groupKey groupExprs batch r)
  first : ∃ r, rows.head? = some r ∧ state.groupValues = groupKey groupExprs batch r
  accumulators : ∃ acc : Expr → Accumulator, state.accumulators = aggregateExprs.map acc ∧
    ∀ e ∈ aggregateExprs, accumulate batch e rows = .ok (acc e)

theorem gatherOne_fed {values : List Value} {acc : Expr → Accumulator} {rows : List Record}
    {out : Option GroupState}
    (h : OrderedMap.gatherOne (groupStep groupExprs aggregateExprs batch)
      (some ⟨values, aggregateExprs.map acc⟩) rows = .ok out) :
    (∀ r ∈ rows, evalAll r batch groupExprs = .ok (groupKey groupExprs batch r)) ∧
    ∃ acc' : Expr → Accumulator, out = some ⟨values, aggregateExprs.map acc'⟩ ∧
      ∀ e ∈ aggregateExprs, rows.foldlM (feed batch e) (acc e) = .ok (acc' e) := by
  induction rows generalizing acc with
  | nil =>
    obtain rfl := Except.ok.inj h
    exact ⟨by simp, acc, rfl, fun e _ => rfl⟩
  | cons r rest ih =>
    rw [OrderedMap.gatherOne] at h
    split at h
    · cases h
    · rename_i state stepped
      obtain ⟨groupValues, evaluated, stepped⟩ := bind_eq_ok.mp stepped
      obtain ⟨accumulators, updated, stepped⟩ := bind_eq_ok.mp stepped
      obtain rfl := Except.ok.inj stepped
      obtain ⟨rfl, fed⟩ := updateAccumulators_map _ updated
      obtain ⟨keys, acc', rfl, folded⟩ := ih h
      refine ⟨?_, acc', rfl, fun e mem => ?_⟩
      · intro r' mem
        rcases List.mem_cons.mp mem with rfl | later
        · rw [groupKey, evaluated]
          rfl
        · exact keys r' later
      · rw [List.foldlM_cons, fed e mem]
        exact folded e mem

theorem gatherOne_summary {rows : List Record} {state : GroupState}
    (h : OrderedMap.gatherOne (groupStep groupExprs aggregateExprs batch) none rows =
      .ok (some state)) : Summarizes groupExprs aggregateExprs batch rows state := by
  cases rows with
  | nil => cases h
  | cons r rest =>
    rw [OrderedMap.gatherOne] at h
    split at h
    · cases h
    · rename_i entry stepped
      obtain ⟨groupValues, evaluated, stepped⟩ := bind_eq_ok.mp stepped
      obtain ⟨accumulators, updated, stepped⟩ := bind_eq_ok.mp stepped
      obtain rfl := Except.ok.inj stepped
      obtain ⟨rfl, fed⟩ := updateAccumulators_map newAccumulator updated
      obtain ⟨keys, acc, same, folded⟩ := gatherOne_fed h
      obtain rfl := Option.some.inj same
      have head : groupKey groupExprs batch r = groupValues := by
        rw [groupKey, evaluated]
        rfl
      refine ⟨?_, ⟨r, rfl, head.symm⟩, acc, rfl, fun e mem => ?_⟩
      · intro r' mem
        rcases List.mem_cons.mp mem with rfl | later
        · rw [head, evaluated]
        · exact keys r' later
      · rw [accumulate, List.foldlM_cons, fed e mem]
        exact folded e mem

theorem aggregateRecords_entries {rows : List Record} {groups : Groups}
    (h : aggregateRecords groupExprs aggregateExprs batch .empty rows = .ok groups) :
    (∀ text, text ∈ groups.entries.map Prod.fst ↔ text ∈ rows.map (groupText groupExprs batch)) ∧
    ∀ text state, (text, state) ∈ groups.entries →
      Summarizes groupExprs aggregateExprs batch
        (rows.filter (groupText groupExprs batch · = text)) state := by
  rw [aggregateRecords_eq] at h
  have each := OrderedMap.gather_get _ _ h
  constructor
  · intro text
    have present := OrderedMap.gatherOne_isSome _ (each text)
    have known : text ∈ groups.entries.map Prod.fst ↔ (groups.get text).isSome = true := by
      rw [Option.isSome_iff_exists, List.mem_map]
      constructor
      · rintro ⟨⟨text', state⟩, mem, rfl⟩
        exact ⟨state, OrderedMap.get_eq_some_iff.mpr mem⟩
      · rintro ⟨state, found⟩
        exact ⟨(text, state), OrderedMap.get_eq_some_iff.mp found, rfl⟩
    rw [known, present]
    simp [OrderedMap.get, OrderedMap.empty, OrderedMap.find, List.filter_eq_nil_iff]
  · intro text state mem
    refine gatherOne_summary ?_
    rw [← OrderedMap.get_eq_some_iff.mpr mem]
    have alone := each text
    rw [show OrderedMap.empty.get text = none from rfl] at alone
    convert alone

theorem aggregateRecords_texts {rows : List Record} {groups : Groups}
    (h : aggregateRecords groupExprs aggregateExprs batch .empty rows = .ok groups) :
    groups.entries.map Prod.fst =
      (firsts (rows.map (groupText groupExprs batch))).insertionSort (· ≤ ·) := by
  have ascending : (groups.entries.map Prod.fst).Pairwise (· < ·) :=
    List.pairwise_map.mpr groups.ascending
  have sorted := List.pairwise_insertionSort (· ≤ ·)
    (firsts (rows.map (groupText groupExprs batch)))
  have distinct : ((firsts (rows.map (groupText groupExprs batch))).insertionSort
      (· ≤ ·)).Nodup := (List.perm_insertionSort _ _).nodup_iff.mpr (firsts_nodup _)
  have strict := sorted.imp₂ (fun _ _ le ne => lt_of_le_of_ne le ne) distinct
  refine ascending.eq_of_mem_iff strict fun text => ?_
  rw [(aggregateRecords_entries h).1, List.mem_insertionSort, mem_firsts]

end RSparkGrouping
