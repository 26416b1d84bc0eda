import Mathlib.Data.List.Sort
import Mathlib.Data.String.Basic
import RSpark.OrderedMap
import RSpark.Plan

/- Physical operators on record batches. -/
namespace RSparkOperators
open FloatText RSparkValue RSparkBatch RSparkExpr RSparkPlan

section Predicate
variable [Regex]

/-- Does not look under `ifExpr`. -/
def containsAggregate : Expr → Bool
  | .aggregate _ _ _ => true
  | .aliased expr _ => containsAggregate expr
  | .binary _ left right => containsAggregate left || containsAggregate right
  | .not inner => containsAggregate inner
  | .isNull inner => containsAggregate inner
  | .isNotNull inner => containsAggregate inner
  | _ => false

def applyBinaryOp (op : BinaryOp) (l r : Value) : Result Value :=
  match op with
  | .eq => .ok (.boolean (l.partialEq r))
  | .notEq => .ok (.boolean (!l.partialEq r))
  | .lt => compareWith isLess l r
  | .ltEq => compareWith isLessOrEqual l r
  | .gt => compareWith isGreater l r
  | .gtEq => compareWith isGreaterOrEqual l r
  | .and =>
      match l, r with
      | .boolean a, .boolean b => .ok (.boolean (a && b))
      | _, _ => .ok .null
  | .or =>
      match l, r with
      | .boolean a, .boolean b => .ok (.boolean (a || b))
      | _, _ => .ok .null
  | .like => err (.type "LIKE is not yet supported in HAVING predicates")
  | other => err (.execution s!"unsupported binary op in predicate: {other.debugName}")

def lookupAggregate (name : String) (record : Record) (batch : RecordBatch) : Result Value := do
  let idx ← orError (batch.schema.indexOf name)
    (.schema s!"aggregate '{name}' not found in input schema")
  .ok (record.getOrNull idx)

/-- Descends through binary nodes only; every other node goes to the row evaluator. -/
def substituteAggregates (record : Record) (batch : RecordBatch) : Expr → Result Value
  | .aggregate func arg distinct =>
      lookupAggregate (Expr.aggregate func arg distinct).displayName record batch
  | .aliased (.aggregate _ _ _) name => lookupAggregate name record batch
  | .aliased inner _ => inner.eval record batch
  | .binary op left right => do
      let lv ← substituteAggregates record batch left
      let rv ← substituteAggregates record batch right
      if lv.isNull || rv.isNull then .ok .null else applyBinaryOp op lv rv
  | other => other.eval record batch

def predicateResult : Value → Result Bool
  | .null => .ok false
  | .boolean b => .ok b
  | other => err (.type s!"predicate must return boolean, got {other.dataTypeName}")

def evalPredicate (predicate : Expr) (record : Record) (batch : RecordBatch) : Result Bool := do
  if containsAggregate predicate then
    predicateResult (← substituteAggregates record batch predicate)
  else predicateResult (← predicate.eval record batch)

end Predicate

section Project
variable [Regex]

def lookupByName (name : String) (record : Record) (batch : RecordBatch) : Result Value := do
  let idx ← orError (batch.schema.indexOf name)
    (.schema s!"column '{name}' not found in input schema")
  .ok (record.getOrNull idx)

def projectValues (record : Record) (batch : RecordBatch) : Expr → Result (List Value)
  | .star => .ok record.values
  | .aggregate func arg distinct => do
      .ok [← lookupByName (Expr.aggregate func arg distinct).displayName record batch]
  | .aliased (.aggregate _ _ _) name => do .ok [← lookupByName name record batch]
  | .aliased inner _ => do .ok [← inner.eval record batch]
  | expr => do .ok [← expr.eval record batch]

def projectAll (record : Record) (batch : RecordBatch) : List Expr → Result (List Value)
  | [] => .ok []
  | expr :: rest => do
      let values ← projectValues record batch expr
      .ok (values ++ (← projectAll record batch rest))

def projectRecord (expressions : List Expr) (record : Record) (batch : RecordBatch)
    (outputSchema : Schema) : Result Record := do
  let rec' : Record := ⟨← projectAll record batch expressions⟩
  rec'.validate outputSchema
  .ok rec'

end Project

section Aggregate
variable [Regex]

inductive Accumulator where
  | count (c : Nat)
  | countDistinct (set : List String)
  | sum (sum : Float)
  | avg (sum : Float) (count : Nat)
  | min (slot : Option Value)
  | max (slot : Option Value)
  deriving DecidableEq

def zeroF64 : Float := scientific64 0 0

def Accumulator.new : AggregateFn → Accumulator
  | .count => .count 0
  | .sum => .sum zeroF64
  | .avg => .avg zeroF64 0
  | .min => .min none
  | .max => .max none

/-- The slot keeps its value unless the comparison succeeds with `replaceOn`. -/
def keepExtreme (replaceOn : Ordering) (slot : Option Value) (value : Value) : Option Value :=
  match slot with
  | none => some value
  | some current =>
      match current.tryCmp value with
      | .ok o => if o = replaceOn then some value else some current
      | .error _ => some current

def Accumulator.update (acc : Accumulator) (value : Value) (_distinct : Bool) : Accumulator :=
  match acc with
  | .count c => if value.isNull then .count c else .count (c + 1)
  | .countDistinct set =>
      if value.isNull ∨ value.castToString ∈ set then .countDistinct set
      else .countDistinct (value.castToString :: set)
  | .sum total =>
      match value.castToF64 with
      | some v => .sum (total + v)
      | none => .sum total
  | .avg total n =>
      match value.castToF64 with
      | some v => .avg (total + v) (n + 1)
      | none => .avg total n
  | .min slot => if value.isNull then .min slot else .min (keepExtreme .gt slot value)
  | .max slot => if value.isNull then .max slot else .max (keepExtreme .lt slot value)

def Accumulator.finish : Accumulator → Value
  | .count c => .int64 (Int64.ofNat c)
  | .countDistinct set => .int64 (Int64.ofNat set.length)
  | .sum s => .float64 s
  | .avg total n => if n = 0 then .null else .float64 (total / i64AsF64 (Int64.ofNat n))
  | .min (some v) => v
  | .min none => .null
  | .max (some v) => v
  | .max none => .null

structure GroupState where
  groupValues : List Value
  accumulators : List Accumulator
  deriving DecidableEq

abbrev Groups := OrderedMap (List String) GroupState

def newAccumulator : Expr → Accumulator
  | .aggregate func _ _ => .new func
  | .aliased (.aggregate func _ _) _ => .new func
  | _ => .new .count

def aggregateArg : Expr → Option (Expr × Bool)
  | .aggregate _ arg distinct => some (arg, distinct)
  | .aliased (.aggregate _ arg distinct) _ => some (arg, distinct)
  | _ => none

def updateAccumulators (record : Record) (batch : RecordBatch) :
    List Expr → List Accumulator → Result (List Accumulator)
  | aggExpr :: exprs, acc :: accs => do
      match aggregateArg aggExpr with
      | none => .ok (acc :: (← updateAccumulators record batch exprs accs))
      | some (inner, distinct) =>
          let argValue ← inner.eval record batch
          .ok (acc.update argValue distinct :: (← updateAccumulators record batch exprs accs))
  | _, accs => .ok accs

def evalAll (record : Record) (batch : RecordBatch) : List Expr → Result (List Value)
  | [] => .ok []
  | expr :: rest => do
      let value ← expr.eval record batch
      .ok (value :: (← evalAll record batch rest))

def newGroup (groupValues : List Value) (aggregateExprs : List Expr) : GroupState :=
  ⟨groupValues, aggregateExprs.map newAccumulator⟩

def aggregateRecord (groupExprs aggregateExprs : List Expr) (batch : RecordBatch)
    (groups : Groups) (record : Record) : Result Groups := do
  let groupValues ← evalAll record batch groupExprs
  let key := groupValues.map Value.castToString
  let entry := (groups.get key).getD (newGroup groupValues aggregateExprs)
  let accumulators ← updateAccumulators record batch aggregateExprs entry.accumulators
  .ok (groups.insert key ⟨entry.groupValues, accumulators⟩)

def aggregateRecords (groupExprs aggregateExprs : List Expr) (batch : RecordBatch) :
    Groups → List Record → Result Groups
  | groups, [] => .ok groups
  | groups, record :: rest => do
      let groups ← aggregateRecord groupExprs aggregateExprs batch groups record
      aggregateRecords groupExprs aggregateExprs batch groups rest

def GroupState.row (state : GroupState) : Record :=
  ⟨state.groupValues ++ state.accumulators.map Accumulator.finish⟩

def aggregateBatch (groupExprs aggregateExprs : List Expr) (batch : RecordBatch)
    (outputSchema : Schema) : Result RecordBatch := do
  let groups ← aggregateRecords groupExprs aggregateExprs batch .empty batch.records
  RecordBatch.fromRecords outputSchema (groups.values.map GroupState.row)

end Aggregate

section Sorting
variable [Regex]

/-- Stable sort by a comparator, `slice::sort_by` on a total preorder. -/
def sortBy {α : Type} (cmp : α → α → Ordering) (l : List α) : List α :=
  l.insertionSort fun a b => cmp a b ≠ .gt

def compareKey (ascending : Bool) (av bv : Value) : Ordering :=
  let cmp := match av.tryCmp bv with
    | .ok c => c
    | .error _ => .eq
  if ascending then cmp else cmp.swap

def compareKeys : List SortExpr → List Value → List Value → Ordering
  | sortExpr :: order, av :: avs, bv :: bvs =>
      match compareKey sortExpr.ascending av bv with
      | .eq => compareKeys order avs bvs
      | cmp => cmp
  | _, _, _ => .eq

def keyedRecords (order : List SortExpr) (batch : RecordBatch) :
    List Record → Result (List (Record × List Value))
  | [] => .ok []
  | r :: rest => do
      let keys ← evalAll r batch (order.map SortExpr.expr)
      .ok ((r, keys) :: (← keyedRecords order batch rest))

def sortBatch (batch : RecordBatch) (order : List SortExpr) : Result RecordBatch := do
  let indexed ← keyedRecords order batch batch.records
  let sorted := sortBy (fun a b => compareKeys order a.2 b.2) indexed
  RecordBatch.fromRecords batch.schema (sorted.map Prod.fst)

end Sorting

def limitBatch (batch : RecordBatch) (count : Nat) : Result RecordBatch :=
  RecordBatch.fromRecords batch.schema (batch.records.take count)

section Join

def pairHolds (left right : Schema) (l r : Record) (pair : String × String) : Bool :=
  match left.indexOf pair.1, right.indexOf pair.2 with
  | some li, some ri => (l.getOrNull li).partialEq (r.getOrNull ri)
  | _, _ => true

def joinCond (left right : Schema) (pairs : List (String × String)) (l r : Record) : Bool :=
  pairs.all (pairHolds left right l r)

def joinedRow (right : Schema) (pairs : List (String × String)) (l r : Record) : Record :=
  ⟨l.values ++ (right.fields.filter (keptRightField pairs)).filterMap fun f =>
    (right.indexOf f.name).map r.getOrNull⟩

def paddedRow (right : Schema) (pairs : List (String × String)) (l : Record) : Record :=
  ⟨l.values ++ (right.fields.filter (keptRightField pairs)).map fun _ => Value.null⟩

def joinRowsOf (left right : RecordBatch) (pairs : List (String × String)) (how : JoinType)
    (l : Record) : List Record :=
  let matched := right.records.filter (joinCond left.schema right.schema pairs l)
  if matched.isEmpty ∧ how = .left then [paddedRow right.schema pairs l]
  else matched.map (joinedRow right.schema pairs l)

def joinBatches (left right : RecordBatch) (pairs : List (String × String)) (how : JoinType) :
    Result RecordBatch :=
  if how = .right ∨ how = .full then
    err (.execution s!"{how.debugName} join not implemented")
  else
    RecordBatch.fromRecords (joinSchema left.schema right.schema pairs)
      (left.records.flatMap (joinRowsOf left right pairs how))

end Join

end RSparkOperators
