import Mathlib.Data.List.Sort
import Mathlib.Data.String.Basic
import RSpark.Batch

/- Expressions and their row-wise evaluation. Integer arithmetic is checked: an
   overflowing operator aborts, as the language's overflow checks do. -/
namespace RSparkExpr
open FloatText RSparkValue RSparkBatch

inductive Literal where
  | null
  | bool (v : Bool)
  | int (v : Int64)
  | float (v : Float)
  | str (v : String)
  deriving DecidableEq

def Literal.toValue : Literal → Value
  | .null => .null
  | .bool v => .boolean v
  | .int v => .int64 v
  | .float v => .float64 v
  | .str v => .string v

def Literal.partialEq : Literal → Literal → Bool
  | .null, .null => true
  | .bool a, .bool b => a = b
  | .int a, .int b => a = b
  | .float a, .float b => a == b
  | .str a, .str b => a = b
  | _, _ => false

inductive BinaryOp where
  | eq | notEq | lt | ltEq | gt | gtEq | and | or | add | sub | mul | div | mod | like
  deriving DecidableEq, Repr

def BinaryOp.debugName : BinaryOp → String
  | .eq => "Eq"
  | .notEq => "NotEq"
  | .lt => "Lt"
  | .ltEq => "LtEq"
  | .gt => "Gt"
  | .gtEq => "GtEq"
  | .and => "And"
  | .or => "Or"
  | .add => "Add"
  | .sub => "Sub"
  | .mul => "Mul"
  | .div => "Div"
  | .mod => "Mod"
  | .like => "Like"

inductive AggregateFn where
  | count | sum | avg | min | max
  deriving DecidableEq, Repr

def AggregateFn.name : AggregateFn → String
  | .count => "count"
  | .sum => "sum"
  | .avg => "avg"
  | .min => "min"
  | .max => "max"

def toAsciiLowercase (s : String) : String := String.ofList (s.toList.map Char.toLower)

def AggregateFn.fromName (name : String) : Option AggregateFn :=
  match toAsciiLowercase name with
  | "count" => some .count
  | "sum" => some .sum
  | "avg" | "average" | "mean" => some .avg
  | "min" => some .min
  | "max" => some .max
  | _ => none

inductive Expr where
  | column (name : String)
  | literal (lit : Literal)
  | binary (op : BinaryOp) (left right : Expr)
  | not (inner : Expr)
  | isNull (inner : Expr)
  | isNotNull (inner : Expr)
  | ifExpr (cond thenExpr elseExpr : Expr)
  | aggregate (func : AggregateFn) (arg : Expr) (distinct : Bool)
  | aliased (expr : Expr) (name : String)
  | star
  deriving DecidableEq

def Expr.displayName : Expr → String
  | .column name => name
  | .literal .null => "NULL"
  | .literal (.bool v) => boolToString v
  | .literal (.int v) => i64ToString v
  | .literal (.float v) => print64 v
  | .literal (.str v) => v
  | .binary op left right => s!"{left.displayName} {op.debugName} {right.displayName}"
  | .not inner => s!"NOT {inner.displayName}"
  | .isNull inner => s!"{inner.displayName} IS NULL"
  | .isNotNull inner => s!"{inner.displayName} IS NOT NULL"
  | .aggregate func arg _ => s!"{func.name}({arg.displayName})"
  | .ifExpr _ _ _ => "if"
  | .aliased _ name => name
  | .star => "*"

/-- The regular expression engine is a foreign library: compilation may fail, and a
   compiled pattern is a predicate on texts. -/
class Regex where
  compile : String → Except String (String → Bool)
  escape : String → String

def checkedI64 (operation : String) (v : Int) : Result Int64 :=
  if -9223372036854775808 ≤ v ∧ v ≤ 9223372036854775807 then .ok (Int64.ofInt v)
  else abort s!"attempt to {operation} with overflow"

def logicalAnd : Value → Value → Result Value
  | .boolean a, .boolean b => .ok (.boolean (a && b))
  | .null, _ => .ok .null
  | _, .null => .ok .null
  | other, _ => err (.type s!"AND requires boolean operands, got {other.dataTypeName}")

def logicalOr : Value → Value → Result Value
  | .boolean a, .boolean b => .ok (.boolean (a || b))
  | .null, _ => .ok .null
  | _, .null => .ok .null
  | other, _ => err (.type s!"OR requires boolean operands, got {other.dataTypeName}")

def numericOp (left right : Value) (intOp : Int64 → Int64 → Result Int64)
    (floatOp : Float → Float → Float) : Result Value :=
  match left.castToI64, right.castToI64 with
  | some a, some b => do .ok (.int64 (← intOp a b))
  | _, _ =>
    match left.castToF64, right.castToF64 with
    | some a, some b => .ok (.float64 (floatOp a b))
    | _, _ => err (.type
        s!"cannot apply arithmetic to {left.dataTypeName} and {right.dataTypeName}")

def numericDiv (left right : Value) : Result Value :=
  match left.castToF64, right.castToF64 with
  | some a, some b => if b == scientific64 0 0 then .ok .null else .ok (.float64 (a / b))
  | _, _ => err (.type s!"cannot divide {left.dataTypeName} by {right.dataTypeName}")

def numericMod (left right : Value) : Result Value :=
  match left.castToI64, right.castToI64 with
  | some a, some b =>
      if b = 0 then .ok .null
      -- the remainder of the least integer by -1 is checked like a quotient
      else if a.toInt = -9223372036854775808 ∧ b.toInt = -1 then
        abort "attempt to calculate the remainder with overflow"
      else .ok (.int64 (Int64.ofInt (a.toInt.tmod b.toInt)))
  | _, _ => err (.type s!"cannot modulo {left.dataTypeName} by {right.dataTypeName}")

def sqlLikeToRegex [Regex] : List Char → String
  | [] => ""
  | '%' :: cs => ".*" ++ sqlLikeToRegex cs
  | '_' :: cs => "." ++ sqlLikeToRegex cs
  | '\\' :: next :: cs => String.ofList ['\\', next] ++ sqlLikeToRegex cs
  | '\\' :: [] => ""
  | c :: cs => Regex.escape (String.ofList [c]) ++ sqlLikeToRegex cs

def applyLike [Regex] (left right : Value) : Result Value :=
  match right with
  | .string pattern =>
    match left with
    | .string target =>
      match Regex.compile (s!"^{sqlLikeToRegex pattern.toList}$") with
      | .ok isMatch => .ok (.boolean (isMatch target))
      | .error e => err (.type s!"invalid LIKE pattern: {e}")
    | .null => .ok .null
    | _ => err (.type s!"LIKE target must be a string, got {left.dataTypeName}")
  | _ => err (.type s!"LIKE pattern must be a string, got {right.dataTypeName}")

def isLess : Ordering → Bool
  | .lt => true
  | _ => false

def isLessOrEqual : Ordering → Bool
  | .gt => false
  | _ => true

def isGreater : Ordering → Bool
  | .gt => true
  | _ => false

def isGreaterOrEqual : Ordering → Bool
  | .lt => false
  | _ => true

def compareWith (test : Ordering → Bool) (left right : Value) : Result Value := do
  .ok (.boolean (test (← left.tryCmp right)))

def applyBinary [Regex] (op : BinaryOp) (left right : Value) : Result Value :=
  match op with
  | .and => logicalAnd left right
  | .or => logicalOr left right
  | .eq => .ok (.boolean (left.partialEq right))
  | .notEq => .ok (.boolean (!left.partialEq right))
  | .lt => compareWith isLess left right
  | .ltEq => compareWith isLessOrEqual left right
  | .gt => compareWith isGreater left right
  | .gtEq => compareWith isGreaterOrEqual left right
  | .like => applyLike left right
  | .add => numericOp left right (fun a b => checkedI64 "add" (a.toInt + b.toInt)) (· + ·)
  | .sub => numericOp left right (fun a b => checkedI64 "subtract" (a.toInt - b.toInt)) (· - ·)
  | .mul => numericOp left right (fun a b => checkedI64 "multiply" (a.toInt * b.toInt)) (· * ·)
  | .div => numericDiv left right
  | .mod => numericMod left right

def evalNot : Value → Result Value
  | .null => .ok .null
  | .boolean b => .ok (.boolean !b)
  | other => err (.type s!"NOT requires boolean operand, got {other.dataTypeName}")

def evalBinary [Regex] (op : BinaryOp) (lv rv : Value) : Result Value :=
  if lv.isNull || rv.isNull then .ok .null else applyBinary op lv rv

def columnNotFound (name : String) : Error := .schema s!"column '{name}' not found in schema"

def Expr.eval [Regex] (record : Record) (batch : RecordBatch) : Expr → Result Value
  | .column name => do
      let idx ← orError (batch.schema.indexOf name) (columnNotFound name)
      .ok (record.getOrNull idx)
  | .literal lit => .ok lit.toValue
  | .binary op left right => do
      let lv ← left.eval record batch
      let rv ← right.eval record batch
      evalBinary op lv rv
  | .not inner => do evalNot (← inner.eval record batch)
  | .isNull inner => do .ok (.boolean (← inner.eval record batch).isNull)
  | .isNotNull inner => do .ok (.boolean !(← inner.eval record batch).isNull)
  | .ifExpr cond thenExpr elseExpr => do
      let c ← cond.eval record batch
      if c = .boolean true then thenExpr.eval record batch else elseExpr.eval record batch
  | .aggregate _ _ _ => err (.execution
      "aggregate expression cannot be evaluated against a row; use the aggregate operator")
  | .aliased expr _ => expr.eval record batch
  | .star => err (.execution "* cannot be evaluated as a scalar")

def Expr.containsAggregate : Expr → Bool
  | .aggregate _ _ _ => true
  | .binary _ left right => left.containsAggregate || right.containsAggregate
  | .not inner => inner.containsAggregate
  | .isNull inner => inner.containsAggregate
  | .isNotNull inner => inner.containsAggregate
  | .ifExpr cond thenExpr elseExpr =>
      cond.containsAggregate || thenExpr.containsAggregate || elseExpr.containsAggregate
  | .aliased expr _ => expr.containsAggregate
  | .column _ => false
  | .literal _ => false
  | .star => false

def Expr.collectColumns : Expr → List String → List String
  | .column name, out => out ++ [name]
  | .literal _, out => out
  | .star, out => out
  | .binary _ left right, out => right.collectColumns (left.collectColumns out)
  | .not inner, out => inner.collectColumns out
  | .isNull inner, out => inner.collectColumns out
  | .isNotNull inner, out => inner.collectColumns out
  | .ifExpr cond thenExpr elseExpr, out =>
      elseExpr.collectColumns (thenExpr.collectColumns (cond.collectColumns out))
  | .aggregate _ arg _, out => arg.collectColumns out
  | .aliased expr _, out => expr.collectColumns out

def dedupAfter (last : String) : List String → List String
  | [] => []
  | name :: rest => if name = last then dedupAfter last rest else name :: dedupAfter name rest

/-- `Vec::dedup`: of names that stand next to each other and are the same, one is kept. -/
def dedup : List String → List String
  | [] => []
  | name :: rest => name :: dedupAfter name rest

def Expr.references (e : Expr) : List String :=
  dedup ((e.collectColumns []).insertionSort (· ≤ ·))

/-- A regular expression engine for inputs on which no LIKE is evaluated. -/
@[reducible] def noRegex : Regex := ⟨fun _ => .error "no engine", id⟩

end RSparkExpr
