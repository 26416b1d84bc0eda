import RSpark.Executor
import RSpark.Listing
import RSpark.Planner

/- What a single-table query asks for: its clauses, and the pipeline filter, group, having,
   project, distinct, sort, drop, take over the rows of the table. -/
namespace RSparkClauses
open RSparkValue RSparkBatch RSparkExpr RSparkPlan RSparkOperators RSparkSqlAst
open RSparkExprBuilder RSparkPlanner Listing

structure OrderKey where
  key : SortExpr
  nullsFirst : Option Bool

/-- The clauses of `SELECT [DISTINCT] items FROM t [WHERE ..] [GROUP BY columns] [HAVING ..]
    [ORDER BY keys] [LIMIT n] [OFFSET m]`, their expressions translated. -/
structure Clauses where
  distinct : Bool
  items : List Expr
  selection : Option Expr
  groupBy : List String
  having : Option Expr
  orderBy : List OrderKey
  limit : Option Nat
  offset : Nat

section Reading

def readDistinct : Option Distinct → Result Bool
  | none => .ok false
  | some .distinct => .ok true
  | some (.on _) => err (.sql "DISTINCT ON is not the DISTINCT of a SELECT")

def readOption {α : Type} (read : SqlExpr → Result α) : Option SqlExpr → Result (Option α)
  | none => .ok none
  | some e => do .ok (some (← read e))

def readColumn (e : SqlExpr) : Result String := do
  match ← buildExpr e with
  | .column name => .ok name
  | other => err (.sql s!"{other.displayName} is not a column")

def readOrderKeys : List OrderByExpr → Result (List OrderKey)
  | [] => .ok []
  | key :: rest => do
      let expr ← buildExpr key.expr
      .ok (⟨⟨expr, key.asc.getD true⟩, key.nullsFirst⟩ :: (← readOrderKeys rest))

theorem readOrderKeys_built {keys : List OrderByExpr} {order : List OrderKey}
    (read : readOrderKeys keys = .ok order) :
    buildSortKeys keys = .ok (order.map OrderKey.key) := by
  induction keys generalizing order with
  | nil =>
    obtain rfl := Except.ok.inj read
    rfl
  | cons key rest ih =>
    obtain ⟨expr, built, read⟩ := bind_eq_ok.mp read
    obtain ⟨later, keys, read⟩ := bind_eq_ok.mp read
    obtain rfl := Except.ok.inj read
    rw [buildSortKeys, built, ok_bind, ih keys]
    rfl

def clausesOf [SqlParser] : Query → Result (String × Clauses)
  | .mk false (.select ⟨distinct, projection, [⟨.table name _, []⟩], selection,
      .expressions groupBy, having⟩) orderBy limit offset => do
      let distinct ← readDistinct distinct
      let items ← buildSelectItems projection
      let selection ← readOption buildExpr selection
      let groupBy ← groupBy.mapM readColumn
      let having ← readOption buildExpr having
      let orderBy ← readOrderKeys (orderBy.getD [])
      let limit ← readOption evalLimit limit
      let offset ← readOption evalLimit offset
      .ok (name.display,
        ⟨distinct, items, selection, groupBy, having, orderBy, limit, offset.getD 0⟩)
  | _ => err (.sql "not a SELECT from one table")

end Reading

section Meaning
variable [Regex]

/-- The value of an expression when its columns and aggregates have the values given. -/
def meaning (column : String → Result Value)
    (aggregate : AggregateFn → Expr → Bool → Result Value) : Expr → Result Value
  | .column name => column name
  | .literal lit => .ok lit.toValue
  | .binary op left right => do
      let lv ← meaning column aggregate left
      let rv ← meaning column aggregate right
      evalBinary op lv rv
  | .not inner => do evalNot (← meaning column aggregate inner)
  | .isNull inner => do .ok (.boolean (← meaning column aggregate inner).isNull)
  | .isNotNull inner => do .ok (.boolean !(← meaning column aggregate inner).isNull)
  | .ifExpr cond thenExpr elseExpr => do
      let c ← meaning column aggregate cond
      if c = .boolean true then meaning column aggregate thenExpr
      else meaning column aggregate elseExpr
  | .aggregate func arg distinct => aggregate func arg distinct
  | .aliased expr _ => meaning column aggregate expr
  | .star => err (.execution "* cannot be evaluated as a scalar")

theorem meaning_row (record : Record) (batch : RecordBatch) (e : Expr) :
    meaning (fun name => (Expr.column name).eval record batch)
      (fun func arg distinct => (Expr.aggregate func arg distinct).eval record batch) e =
      e.eval record batch := by
  induction e with
  | column name => rfl
  | literal lit => rfl
  | binary op left right ihl ihr =>
    simp only [meaning, ihl, ihr]
    rfl
  | not inner ih =>
    simp only [meaning, ih]
    rfl
  | isNull inner ih =>
    simp only [meaning, ih]
    rfl
  | isNotNull inner ih =>
    simp only [meaning, ih]
    rfl
  | ifExpr cond thenExpr elseExpr ihc iht ihe =>
    simp only [meaning, ihc, iht, ihe]
    rfl
  | aggregate func arg distinct _ => rfl
  | aliased expr name ih => exact ih
  | star => rfl

def isTrue : Result Value → Bool
  | .ok (.boolean true) => true
  | _ => false

def countsRepeats : AggregateFn → Bool
  | .count | .sum | .avg => true
  | .min | .max => false

def aggregateValue (func : AggregateFn) (distinct : Bool) (args : List Value) : Value :=
  let args := if distinct && countsRepeats func then firsts args else args
  (args.foldl (fun acc v => acc.update v false) (Accumulator.new func)).finish

def aggregateOf (table : RecordBatch) (rows : List Record) (func : AggregateFn) (arg : Expr)
    (distinct : Bool) : Result Value := do
  .ok (aggregateValue func distinct (← rows.mapM fun r => arg.eval r table))

/-- What the expressions of an output row are evaluated in: a row of the table or a group. -/
structure Scope where
  known : List String
  column : String → Result Value
  aggregate : AggregateFn → Expr → Bool → Result Value
  star : Result (List Value)

def rowScope (table : RecordBatch) (r : Record) : Scope where
  known := table.schema.fieldNames
  column := fun name => (Expr.column name).eval r table
  aggregate := fun func arg distinct => (Expr.aggregate func arg distinct).eval r table
  star := .ok r.values

structure Group where
  key : List Value
  rows : List Record
  deriving DecidableEq

def columnOf (names : List String) (values : List Value) (name : String) : Result Value :=
  orError (namedAt .null name names values) (columnNotFound name)

def groupScope (table : RecordBatch) (groupBy : List String) (g : Group) : Scope where
  known := groupBy
  column := columnOf groupBy g.key
  aggregate := aggregateOf table g.rows
  star := table.schema.fieldNames.mapM (columnOf groupBy g.key)

def Scope.item (s : Scope) : Expr → Result (List Value)
  | .star => s.star
  | e => do .ok [← meaning s.column s.aggregate e]

def Scope.row (s : Scope) (items : List Expr) : Result Record := do
  .ok ⟨(← items.mapM s.item).flatten⟩

def itemNames (table : RecordBatch) : Expr → List String
  | .star => table.schema.fieldNames
  | e => [e.displayName]

/-- A name in HAVING is a column of the scope, or else the first item of that name. -/
def Scope.havingColumn (s : Scope) (table : RecordBatch) (items : List Expr) (name : String) :
    Result Value :=
  if name ∈ s.known then s.column name
  else
    match items.find? (name ∈ itemNames table ·) with
    | some item => meaning s.column s.aggregate item
    | none => err (columnNotFound name)

def Scope.having (s : Scope) (table : RecordBatch) (items : List Expr) (predicate : Expr) :
    Bool :=
  isTrue (meaning (s.havingColumn table items) s.aggregate predicate)

end Meaning

theorem predicateResult_isTrue {v : Value} {b : Bool} (result : predicateResult v = .ok b) :
    b = isTrue (.ok v) := by
  cases v with
  | null => exact (Except.ok.inj result).symm
  | boolean truth =>
    obtain rfl := Except.ok.inj result
    cases truth <;> rfl
  | _ => exact absurd result (err_ne_ok _ _)

section Pipeline
variable [Regex]

def Clauses.kept (c : Clauses) (table : RecordBatch) : List Record :=
  match c.selection with
  | none => table.records
  | some w => table.records.filter fun r => isTrue (w.eval r table)

def cell (table : RecordBatch) (r : Record) (name : String) : Value :=
  ((table.schema.indexOf name).map r.getOrNull).getD .null

def keyOf (table : RecordBatch) (groupBy : List String) (r : Record) : List Value :=
  groupBy.map (cell table r)

def rendered (key : List Value) : List String := key.map Value.castToString

/-- One group for each key, in ascending order of their texts; without keys all rows are
    one group. -/
def groupsOf (table : RecordBatch) (groupBy : List String) (rows : List Record) : List Group :=
  if groupBy = [] then [⟨[], rows⟩]
  else
    let keys := (firsts (rows.map (keyOf table groupBy))).insertionSort
      fun a b => rendered a ≤ rendered b
    keys.map fun key => ⟨key, rows.filter (keyOf table groupBy · = key)⟩

def Clauses.aggregates (c : Clauses) : Bool :=
  c.items.any Expr.containsAggregate || !c.groupBy.isEmpty

def Clauses.grouped (c : Clauses) : Bool :=
  c.aggregates || c.having.any Expr.containsAggregate

def Clauses.scopes (c : Clauses) (table : RecordBatch) : List Scope :=
  if c.grouped then
    (groupsOf table c.groupBy (c.kept table)).map (groupScope table c.groupBy)
  else (c.kept table).map (rowScope table)

def Clauses.passes (c : Clauses) (table : RecordBatch) (s : Scope) : Bool :=
  match c.having with
  | none => true
  | some predicate => s.having table c.items predicate

def Clauses.projected (c : Clauses) (table : RecordBatch) : Result (List Record) :=
  ((c.scopes table).filter (c.passes table)).mapM fun s => s.row c.items

def Clauses.outputSchema (c : Clauses) (table : RecordBatch) : Schema :=
  ⟨c.items.flatMap (projectFields table.schema)⟩

/-- NULL stands where the key puts it, and is the least value where it does not say. -/
def OrderKey.compare (key : OrderKey) (a b : Value) : Ordering :=
  match key.nullsFirst, a.isNull, b.isNull with
  | some _, true, true => .eq
  | some first, true, false => if first then .lt else .gt
  | some first, false, true => if first then .gt else .lt
  | _, _, _ => compareKey key.key.ascending a b

def compareOrder : List OrderKey → List Value → List Value → Ordering
  | key :: order, a :: as, b :: bs =>
      match key.compare a b with
      | .eq => compareOrder order as bs
      | cmp => cmp
  | _, _, _ => .eq

def withKeys (order : List SortExpr) (output : RecordBatch) (r : Record) :
    Result (Record × List Value) := do
  .ok (r, ← order.mapM fun key => key.expr.eval r output)

def Clauses.sorted (c : Clauses) (table : RecordBatch) (rows : List Record) :
    Result (List Record) := do
  if c.orderBy = [] then .ok rows
  else
    let keyed ← rows.mapM (withKeys (c.orderBy.map OrderKey.key) ⟨c.outputSchema table, rows⟩)
    .ok ((sortBy (fun a b => compareOrder c.orderBy a.2 b.2) keyed).map Prod.fst)

def Clauses.window (c : Clauses) (rows : List Record) : List Record :=
  match c.limit with
  | none => rows.drop c.offset
  | some n => (rows.drop c.offset).take n

def Clauses.reference (c : Clauses) (table : RecordBatch) : Result (List Record) := do
  let rows ← c.projected table
  let rows := if c.distinct then firsts rows else rows
  .ok (c.window (← c.sorted table rows))

end Pipeline

end RSparkClauses
