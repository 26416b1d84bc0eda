import RSpark.SqlAst

/- Translation of parsed expressions and FROM items. -/
namespace RSparkExprBuilder
open FloatText RSparkValue RSparkExpr RSparkPlan RSparkSqlAst

def fromSql : BinaryOperator → Option BinaryOp
  | .plus => some .add
  | .minus => some .sub
  | .multiply => some .mul
  | .divide => some .div
  | .modulo => some .mod
  | .eq => some .eq
  | .notEq => some .notEq
  | .lt => some .lt
  | .ltEq => some .ltEq
  | .gt => some .gt
  | .gtEq => some .gtEq
  | .and => some .and
  | .or => some .or
  | .stringConcat => some .add
  | .other _ => none

def binaryOperatorDebug : BinaryOperator → String
  | .other debug => debug
  | _ => ""

def literalFromValue : SqlValue → Result Literal
  | .null => .ok .null
  | .boolean b => .ok (.bool b)
  | .number s =>
      match parseI64 s with
      | some v => .ok (.int v)
      | none =>
          match parse64 s with
          | some f => .ok (.float f)
          | none => err (.sql s!"invalid numeric literal: {s}")
  | .singleQuotedString s => .ok (.str s)
  | .doubleQuotedString s => .ok (.str s)
  | .nationalStringLiteral s => .ok (.str s)
  | .hexStringLiteral s => .ok (.str s)
  | .other display => err (.sql s!"unsupported literal value: {display}")

inductive ArgSpec where
  | expr (e : Expr)
  | wildcard

def materializeArgs : List ArgSpec → Result (List Expr)
  | [] => .ok []
  | .expr e :: rest => do .ok (e :: (← materializeArgs rest))
  | .wildcard :: _ => err (.sql "* not allowed in non-aggregate argument position")

def coalesceChain : Expr → List Expr → Expr
  | acc, [] => acc
  | acc, next :: rest => coalesceChain (.ifExpr (.isNotNull acc) acc next) rest

def negate (negated : Bool) (e : Expr) : Expr := if negated then .not e else e

def scalarFunction (name : String) (args : List Expr) : Result Expr :=
  match name with
  | "coalesce" =>
      match args with
      | [] => .ok (.literal .null)
      | first :: rest => .ok (coalesceChain first rest)
  | "nvl" =>
      match args with
      | [expr2, expr1] => .ok (.ifExpr (.isNotNull expr1) expr1 expr2)
      | _ => err (.sql "NVL requires two arguments")
  | "abs" | "upper" | "ucase" | "lower" | "lcase" =>
      match args with
      | [arg] => .ok arg
      | _ => err (.sql s!"{name}() requires one argument")
  | "length" | "char_length" | "character_length" =>
      err (.sql s!"{name}() requires runtime function support not yet implemented")
  | other => err (.sql s!"unsupported function: {other}()")

def buildFunctionCall (name : String) (argsList : List ArgSpec) (distinct : Bool) : Result Expr :=
  match AggregateFn.fromName name with
  | some aggregate =>
      match argsList with
      | [.expr .star] => .ok (.aggregate aggregate (.literal (.int 1)) distinct)
      | [.expr arg] => .ok (.aggregate aggregate arg distinct)
      | [.wildcard] => .ok (.aggregate aggregate (.literal (.int 1)) distinct)
      | _ => err (.sql s!"{name}() requires exactly one argument")
  | none => do scalarFunction name (← materializeArgs argsList)

/-- `target = item` for each item, folded to the left with OR. -/
def inListPredicate (target : Expr) : List Expr → Expr
  | [] => .literal (.bool false)
  | item :: items =>
      items.foldl (fun prev item => .binary .or prev (.binary .eq target item))
        (.binary .eq target item)

mutual
def buildExpr : SqlExpr → Result Expr
  | .identifier ident => .ok (.column ident.value)
  | .compoundIdentifier parts =>
      match parts.getLast? with
      | some last => .ok (.column last.value)
      | none => abort "called `Option::unwrap()` on a `None` value"
  | .wildcard => .ok .star
  | .qualifiedWildcard name =>
      match name.parts.getLast? with
      | some last => .ok (.column last.value)
      | none => err (.sql "qualified wildcard with no parts")
  | .value v => do .ok (.literal (← literalFromValue v))
  | .binaryOp left op right => do
      let op' ← orError (fromSql op)
        (.sql s!"unsupported binary operator: {binaryOperatorDebug op}")
      let l ← buildExpr left
      let r ← buildExpr right
      .ok (.binary op' l r)
  | .unaryOp .not expr => do .ok (.not (← buildExpr expr))
  | .unaryOp .minus expr => do .ok (.binary .sub (.literal (.int 0)) (← buildExpr expr))
  | .unaryOp .plus expr => buildExpr expr
  | .unaryOp (.other debug) _ => err (.sql s!"unsupported unary operator: {debug}")
  | .isNull inner => do .ok (.isNull (← buildExpr inner))
  | .isNotNull inner => do .ok (.isNotNull (← buildExpr inner))
  | .isTrue inner => do .ok (.binary .eq (← buildExpr inner) (.literal (.bool true)))
  | .isFalse inner => do .ok (.binary .eq (← buildExpr inner) (.literal (.bool false)))
  | .isNotTrue inner => do .ok (.binary .notEq (← buildExpr inner) (.literal (.bool true)))
  | .isNotFalse inner => do .ok (.binary .notEq (← buildExpr inner) (.literal (.bool false)))
  | .nested inner => buildExpr inner
  | .like negated expr pattern => do
      let e ← buildExpr expr
      let p ← buildExpr pattern
      .ok (negate negated (.binary .like e p))
  -- same lowering as LIKE: the case of either side is kept
  | .iLike negated expr pattern => do
      let e ← buildExpr expr
      let p ← buildExpr pattern
      .ok (negate negated (.binary .like e p))
  | .between expr negated low high => do
      let e ← buildExpr expr
      let l ← buildExpr low
      let h ← buildExpr high
      .ok (negate negated (.binary .and (.binary .gtEq e l) (.binary .ltEq e h)))
  | .inList expr list negated => do
      let target ← buildExpr expr
      let items ← buildExprs list
      .ok (negate negated (inListPredicate target items))
  | .function name args => do
      let (argsList, distinct) ← extractArgs args
      buildFunctionCall (toAsciiLowercase name.display) argsList distinct
  | .cast expr => buildExpr expr
  | .subquery => err (.sql "scalar subqueries are not yet supported")
  | .other display => err (.sql s!"unsupported SQL expression: {display}")

def buildExprs : List SqlExpr → Result (List Expr)
  | [] => .ok []
  | e :: rest => do
      let e' ← buildExpr e
      .ok (e' :: (← buildExprs rest))

def extractArgs : FunctionArguments → Result (List ArgSpec × Bool)
  | .none => .ok ([], false)
  | .subquery => err (.sql "function subquery arguments are not supported")
  | .list args distinct => do .ok (← extractArgList args, distinct)

def extractArgList : List FunctionArg → Result (List ArgSpec)
  | [] => .ok []
  | arg :: rest => do
      let spec ← extractArg arg
      .ok (spec :: (← extractArgList rest))

def extractArg : FunctionArg → Result ArgSpec
  | .unnamed (.expr e) => do .ok (.expr (← buildExpr e))
  | .unnamed .wildcard => .ok .wildcard
  | .unnamed .qualifiedWildcard => err (.sql "unsupported function argument kind")
  | .named (.expr e) => do .ok (.expr (← buildExpr e))
  | .named .wildcard => .ok .wildcard
  | .named .qualifiedWildcard => err (.sql "unsupported qualified function argument")
  | .exprNamed => err (.sql "unsupported function argument kind")
end

def buildSelectItem : SelectItem → Result Expr
  | .unnamedExpr e => buildExpr e
  | .exprWithAlias expr name => do .ok (.aliased (← buildExpr expr) name.value)
  | .qualifiedWildcard _ => .ok .star
  | .wildcard => .ok .star

def buildSelectItems : List SelectItem → Result (List Expr)
  | [] => .ok []
  | item :: rest => do
      let e ← buildSelectItem item
      .ok (e :: (← buildSelectItems rest))

def buildSelectExpressions (select : Select) : Result (List Expr) :=
  buildSelectItems select.projection

def combineAnd : List Expr → Expr
  | [] => .literal (.bool true)
  | first :: rest => rest.foldl (fun acc next => .binary .and acc next) first

def buildTableFactor : TableFactor → Result (String × Option String)
  | .table name alias' => .ok (name.display, alias'.map Ident.value)
  | .other display => err (.sql s!"unsupported table factor: {display}")

def buildJoinTables : List Join → Result (List (String × Option String))
  | [] => .ok []
  | join :: rest => do
      let table ← buildTableFactor join.relation
      .ok (table :: (← buildJoinTables rest))

def buildFromTables : List TableWithJoins → Result (List (String × Option String))
  | [] => .ok []
  | twj :: rest => do
      let table ← buildTableFactor twj.relation
      let joined ← buildJoinTables twj.joins
      .ok (table :: joined ++ (← buildFromTables rest))

def columnA : SqlExpr := .identifier ⟨"a"⟩

end RSparkExprBuilder
