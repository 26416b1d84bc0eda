import RSpark.Accumulators
import RSpark.GroupRows
import RSpark.ValueTexts

/- An aggregation over integers and the order of its records: the texts of the keys tell the
   groups, and COUNT, MIN and MAX take the values of a group in any order. -/
namespace RSparkGroupOrder
open RSparkValue RSparkBatch RSparkExpr RSparkPlan RSparkOperators RSparkGrouping RSparkClauses
open RSparkHavingRewrite RSparkGroupedRows RSparkScalarItems RSparkGroupRows RSparkAccumulators
open RSparkValueTexts Listing

section Kinds

theorem integers_apart {v w : Value} (hv : intOrNull v = true) (hw : intOrNull w = true)
    (same : v.castToString = w.castToString) : v = w := by
  cases v <;> cases w <;> simp only [intOrNull, Bool.false_eq_true] at hv hw
  case null.null => rfl
  case null.int64 n => exact absurd same.symm (int_text_not_word rfl)
  case int64.null n => exact absurd same (int_text_not_word rfl)
  case int64.int64 m n => exact text_inj rfl rfl same

theorem booleans_apart {v w : Value} (hv : boolOrNull v = true) (hw : boolOrNull w = true)
    (same : v.castToString = w.castToString) : v = w := by
  cases v <;> cases w <;> simp only [boolOrNull, Bool.false_eq_true] at hv hw
  case null.null => rfl
  case null.boolean b => cases b <;> exact absurd same (by decide)
  case boolean.null b => cases b <;> exact absurd same (by decide)
  case boolean.boolean a b => exact text_inj rfl rfl same

end Kinds

section Hypotheses
variable [Regex]

def holds (kind : Value → Bool) (b : RecordBatch) (r : Record) (e : Expr) : Bool :=
  match e.eval r b with
  | .ok v => kind v
  | .error _ => false

/-- The groups are by integers or NULL, or by booleans or NULL, and the aggregates are COUNT, MIN
    and MAX of integers or NULL. -/
structure OverIntegers (keys aggs : List Expr) (b : RecordBatch) : Prop where
  keys : ∀ e ∈ keys, (∀ r ∈ b.records, holds intOrNull b r e = true) ∨
    ∀ r ∈ b.records, holds boolOrNull b r e = true
  aggs : ∀ e ∈ aggs, ∃ call ∈ callOf e,
    (call.func = .count ∨ call.func = .min ∨ call.func = .max) ∧
    ∀ r ∈ b.records, holds intOrNull b r call.arg = true

instance (keys aggs : List Expr) (b : RecordBatch) : Decidable (OverIntegers keys aggs b) :=
  decidable_of_iff ((∀ e ∈ keys, (∀ r ∈ b.records, holds intOrNull b r e = true) ∨
      ∀ r ∈ b.records, holds boolOrNull b r e = true) ∧
      ∀ e ∈ aggs, ∃ call ∈ callOf e,
        (call.func = .count ∨ call.func = .min ∨ call.func = .max) ∧
        ∀ r ∈ b.records, holds intOrNull b r call.arg = true)
    ⟨fun h => ⟨h.1, h.2⟩, fun h => ⟨h.keys, h.aggs⟩⟩

variable {kind : Value → Bool} {keys aggs : List Expr} {b : RecordBatch} {r r' : Record}
variable {e : Expr}

theorem holds_value (value : holds kind b r e = true) :
    e.eval r b = .ok (valueAt b r e) ∧ kind (valueAt b r e) = true := by
  unfold holds at value
  split at value
  · rename_i v found
    rw [valueAt, found]
    exact ⟨rfl, value⟩
  · cases value

theorem OverIntegers.key_value (ints : OverIntegers keys aggs b) (mem : r ∈ b.records) :
    ∀ e ∈ keys, e.eval r b = .ok (valueAt b r e) := by
  intro e listed
  rcases ints.keys e listed with integers | booleans
  · exact (holds_value (integers r mem)).1
  · exact (holds_value (booleans r mem)).1

theorem OverIntegers.evaluated (ints : OverIntegers keys aggs b) (mem : r ∈ b.records) :
    evalAll r b keys = .ok (keys.map (valueAt b r)) := by
  rw [evalAll_eq, mapM_eq_ok, List.forall₂_map_right_iff, List.forall₂_same]
  exact ints.key_value mem

theorem OverIntegers.evaluates (ints : OverIntegers keys aggs b) : Evaluates keys aggs b := by
  constructor
  · exact fun r mem => isOk_iff.mpr ⟨_, ints.evaluated mem⟩
  · intro r mem e listed arg called
    obtain ⟨call, known, _, values⟩ := ints.aggs e listed
    obtain ⟨argument, _⟩ := fed_of_call known
    obtain rfl := Option.some.inj (argument.symm.trans called)
    exact isOk_iff.mpr ⟨_, (holds_value (values r mem)).1⟩

theorem OverIntegers.key_eq (ints : OverIntegers keys aggs b) (mem : r ∈ b.records) :
    groupKey keys b r = keys.map (valueAt b r) := by
  rw [groupKey, ints.evaluated mem]
  rfl

theorem OverIntegers.apart (ints : OverIntegers keys aggs b) (mem : r ∈ b.records)
    (mem' : r' ∈ b.records) (same : groupText keys b r = groupText keys b r') :
    groupKey keys b r = groupKey keys b r' := by
  rw [groupText, groupText, ints.key_eq mem, ints.key_eq mem', List.map_map, List.map_map]
    at same
  rw [ints.key_eq mem, ints.key_eq mem']
  refine List.map_congr_left fun e listed => ?_
  have text := List.map_inj_left.mp same e listed
  rcases ints.keys e listed with integers | booleans
  · exact integers_apart (holds_value (integers r mem)).2 (holds_value (integers r' mem')).2 text
  · exact booleans_apart (holds_value (booleans r mem)).2 (holds_value (booleans r' mem')).2 text

end Hypotheses

section Order
variable [Regex] {keys aggs : List Expr} {b : RecordBatch} {records' : List Record} {e : Expr}

theorem held_result {call : Call} (called : callOf e = some call) {rows : List Record}
    (evaluated : ∀ r ∈ rows, (call.arg.eval r b).isOk = true) :
    held b rows e = result call.func false (rows.map fun r => valueAt b r call.arg) := by
  obtain ⟨argument, start⟩ := fed_of_call called
  rw [held_eq argument evaluated, resultOf, start]
  rfl

theorem eval_reordered (r : Record) (e : Expr) : e.eval r ⟨b.schema, records'⟩ = e.eval r b := by
  apply eval_congr
  rfl

theorem groupKey_reordered (r : Record) :
    groupKey keys ⟨b.schema, records'⟩ r = groupKey keys b r := by
  rw [groupKey, groupKey, evalAll_eq, evalAll_eq]
  exact congrArg answer (mapM_congr fun e _ => eval_reordered r e)

theorem groupText_reordered (r : Record) :
    groupText keys ⟨b.schema, records'⟩ r = groupText keys b r := by
  rw [groupText, groupText, groupKey_reordered]

theorem OverIntegers.reordered (ints : OverIntegers keys aggs b)
    (perm : b.records.Perm records') : OverIntegers keys aggs ⟨b.schema, records'⟩ := by
  have same (kind : Value → Bool) (e : Expr) (values : ∀ r ∈ b.records, holds kind b r e = true) :
      ∀ r ∈ records', holds kind ⟨b.schema, records'⟩ r e = true := by
    intro r mem
    rw [holds, eval_reordered]
    exact values r (perm.mem_iff.mpr mem)
  constructor
  · exact fun e listed => (ints.keys e listed).imp (same _ e) (same _ e)
  · intro e listed
    obtain ⟨call, called, unordered, values⟩ := ints.aggs e listed
    exact ⟨call, called, unordered, same _ call.arg values⟩

theorem groupTexts_reordered (perm : b.records.Perm records') :
    groupTexts keys ⟨b.schema, records'⟩ = groupTexts keys b := by
  refine (groupTexts_ascending _ _).eq_of_mem_iff (groupTexts_ascending _ _) fun text => ?_
  rw [mem_groupTexts, mem_groupTexts]
  simp only [groupText_reordered, perm.mem_iff]

theorem OverIntegers.group_key (ints : OverIntegers keys aggs b) {r : Record}
    (mem : r ∈ b.records) :
    (groupOf keys b (groupText keys b r)).key = groupKey keys b r := by
  obtain ⟨first, found, key⟩ := groupOf_first (mem_groupTexts.mpr ⟨r, mem, rfl⟩)
  have text : groupText keys b first = groupText keys b r := by
    simpa using List.find?_some found
  rw [key, ints.apart (List.mem_of_find?_eq_some found) mem text]

theorem OverIntegers.held_reordered (ints : OverIntegers keys aggs b)
    (perm : b.records.Perm records') (listed : e ∈ aggs) (text : List String) :
    held ⟨b.schema, records'⟩ (groupOf keys ⟨b.schema, records'⟩ text).rows e =
      held b (groupOf keys b text).rows e := by
  obtain ⟨call, called, unordered, values⟩ := ints.aggs e listed
  have inside : ∀ r ∈ (groupOf keys b text).rows, r ∈ b.records :=
    fun r mem => List.mem_of_mem_filter mem
  have rows : (groupOf keys b text).rows.Perm
      (groupOf keys ⟨b.schema, records'⟩ text).rows := by
    have same := perm.filter (groupText keys b · = text)
    simp only [groupOf, groupText_reordered]
    exact same
  have evaluated : ∀ r ∈ (groupOf keys b text).rows, (call.arg.eval r b).isOk = true :=
    fun r mem => isOk_iff.mpr ⟨_, (holds_value (values r (inside r mem))).1⟩
  rw [held_result called evaluated, held_result called fun r mem => by
    rw [eval_reordered]
    exact evaluated r (rows.mem_iff.mpr mem)]
  simp only [valueAt, eval_reordered]
  refine result_perm (rows.map _) unordered false ?_
  rintro v mem
  obtain ⟨r, grouped, rfl⟩ := List.mem_map.mp mem
  exact (holds_value (values r (inside r grouped))).2

theorem OverIntegers.row_reordered (ints : OverIntegers keys aggs b)
    (perm : b.records.Perm records') {text : List String} (occurs : text ∈ groupTexts keys b) :
    rowOf aggs ⟨b.schema, records'⟩ (groupOf keys ⟨b.schema, records'⟩ text) =
      rowOf aggs b (groupOf keys b text) := by
  obtain ⟨r, mem, rfl⟩ := mem_groupTexts.mp occurs
  have there := (ints.reordered perm).group_key (perm.mem_iff.mp mem)
  rw [groupText_reordered, groupKey_reordered] at there
  rw [rowOf, rowOf, there, ints.group_key mem]
  congr 2
  exact List.map_congr_left fun e listed => ints.held_reordered perm listed _

/-- In the row of a group its MIN and its MAX are extreme values of the argument there. -/
def ShowsExtremes (keys aggs : List Expr) (b : RecordBatch) (g : Group) (row : Record) : Prop :=
  ∀ i e call, aggs[i]? = some e → callOf e = some call →
    ∃ v, row.values[keys.length + i]? = some v ∧
      (call.func = .min → Extreme AtMost (g.rows.map fun r => valueAt b r call.arg) v) ∧
      (call.func = .max →
        Extreme (fun v w => AtMost w v) (g.rows.map fun r => valueAt b r call.arg) v)

theorem OverIntegers.shows_extremes (ints : OverIntegers keys aggs b) {text : List String}
    (occurs : text ∈ groupTexts keys b) :
    ShowsExtremes keys aggs b (groupOf keys b text) (rowOf aggs b (groupOf keys b text)) := by
  intro i e call listed called
  have width := groupOf_width ints.evaluates occurs
  have place : (rowOf aggs b (groupOf keys b text)).values[keys.length + i]? =
      some (held b (groupOf keys b text).rows e) := by
    rw [rowOf, List.getElem?_append_right (by omega), width, Nat.add_sub_cancel_left,
      List.getElem?_map, listed, Option.map_some]
  obtain ⟨call', called', _, values⟩ := ints.aggs e (List.mem_of_getElem? listed)
  obtain rfl := Option.some.inj (called.symm.trans called')
  have inside : ∀ r ∈ (groupOf keys b text).rows, r ∈ b.records :=
    fun r mem => List.mem_of_mem_filter mem
  have integers : ∀ v ∈ (groupOf keys b text).rows.map fun r => valueAt b r call.arg,
      intOrNull v = true := by
    intro v mem
    obtain ⟨r, grouped, rfl⟩ := List.mem_map.mp mem
    exact (holds_value (values r (inside r grouped))).2
  rw [held_result called fun r mem =>
    isOk_iff.mpr ⟨_, (holds_value (values r (inside r mem))).1⟩] at place
  refine ⟨_, place, fun min => ?_, fun max => ?_⟩
  · rw [min]
    exact min_extreme false integers
  · rw [max]
    exact max_extreme false integers

/-- An aggregation over integers gives the same batch for every order of its records, and its
    MIN and MAX are the extreme values of the groups. -/
theorem aggregate_reordered (keys aggs : List Expr) (b : RecordBatch)
    (ints : OverIntegers keys aggs b) :
    (∀ records', b.records.Perm records' → ∀ schema,
      aggregateBatch keys aggs ⟨b.schema, records'⟩ schema = aggregateBatch keys aggs b schema) ∧
    ∃ rows, (∀ schema, buildAggregateSchema keys aggs = .ok schema →
        aggregateBatch keys aggs b schema = .ok ⟨schema, rows⟩) ∧
      List.Forall₂ (ShowsExtremes keys aggs b) (groupsBy keys b) rows := by
  refine ⟨fun records' perm schema => ?_, (groupsBy keys b).map (rowOf aggs b),
    fun schema built => aggregateBatch_ok ints.evaluates built, ?_⟩
  · rw [aggregateBatch_eq ints.evaluates, aggregateBatch_eq (ints.reordered perm).evaluates,
      groupsBy_eq, groupsBy_eq, groupTexts_reordered perm, List.map_map, List.map_map]
    congr 1
    exact List.map_congr_left fun text occurs => ints.row_reordered perm occurs
  · rw [groupsBy_eq, List.map_map, List.forall₂_map_right_iff, List.forall₂_map_left_iff]
    exact List.forall₂_same.mpr fun text occurs => ints.shows_extremes occurs

end Order

section Witness

def salesSchema : Schema := ⟨[.new "shop" .int64, .new "price" .int64]⟩

def sales : RecordBatch :=
  ⟨salesSchema, [⟨[.int64 2, .int64 10]⟩, ⟨[.null, .null]⟩, ⟨[.int64 2, .int64 7]⟩,
    ⟨[.int64 2, .null]⟩]⟩

def priceOf (func : AggregateFn) : Expr := .aggregate func (.column "price") false

def salesSummary : List Expr := [priceOf .min, priceOf .max, priceOf .count]

def summarySchema : Schema := ⟨aggregateField (.column "shop") :: salesSummary.map aggregateField⟩

theorem sales_reversed : ∃ rows,
    @aggregateBatch noRegex [.column "shop"] salesSummary sales summarySchema =
      .ok ⟨summarySchema, rows⟩ ∧
    @aggregateBatch noRegex [.column "shop"] salesSummary
      ⟨salesSchema, sales.records.reverse⟩ summarySchema = .ok ⟨summarySchema, rows⟩ ∧
    List.Forall₂ (@ShowsExtremes noRegex [.column "shop"] salesSummary sales)
      (@groupsBy noRegex [.column "shop"] sales) rows := by
  obtain ⟨reordered, rows, built, shows⟩ :=
    @aggregate_reordered noRegex [.column "shop"] salesSummary sales (by decide)
  have forward := built summarySchema rfl
  exact ⟨rows, forward,
    (reordered _ sales.records.reverse_perm.symm summarySchema).trans forward, shows⟩

end Witness

end RSparkGroupOrder
