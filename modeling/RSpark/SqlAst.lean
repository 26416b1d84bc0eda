import RSpark.Plan

/- The part of the foreign parser's syntax tree that the planner looks at. Nodes it
   rejects keep only the text its error message prints. -/
namespace RSparkSqlAst
open RSparkValue

structure Ident where
  value : String
  deriving DecidableEq

/-- `display` is what the library prints for the dotted name, quotes included. -/
structure ObjectName where
  parts : List Ident
  display : String
  deriving DecidableEq

inductive BinaryOperator where
  | plus | minus | multiply | divide | modulo | stringConcat
  | gt | lt | gtEq | ltEq | eq | notEq | and | or
  | other (debug : String)
  deriving DecidableEq

inductive UnaryOperator where
  | not | minus | plus
  | other (debug : String)
  deriving DecidableEq

inductive SqlValue where
  | null
  | boolean (b : Bool)
  | number (s : String)
  | singleQuotedString (s : String)
  | doubleQuotedString (s : String)
  | nationalStringLiteral (s : String)
  | hexStringLiteral (s : String)
  | other (display : String)
  deriving DecidableEq

mutual
inductive SqlExpr where
  | identifier (ident : Ident)
  | compoundIdentifier (parts : List Ident)
  | wildcard
  | qualifiedWildcard (name : ObjectName)
  | value (v : SqlValue)
  | binaryOp (left : SqlExpr) (op : BinaryOperator) (right : SqlExpr)
  | unaryOp (op : UnaryOperator) (expr : SqlExpr)
  | isNull (inner : SqlExpr)
  | isNotNull (inner : SqlExpr)
  | isTrue (inner : SqlExpr)
  | isFalse (inner : SqlExpr)
  | isNotTrue (inner : SqlExpr)
  | isNotFalse (inner : SqlExpr)
  | nested (inner : SqlExpr)
  | like (negated : Bool) (expr pattern : SqlExpr)
  | iLike (negated : Bool) (expr pattern : SqlExpr)
  | between (expr : SqlExpr) (negated : Bool) (low high : SqlExpr)
  | inList (expr : SqlExpr) (list : List SqlExpr) (negated : Bool)
  | function (name : ObjectName) (args : FunctionArguments)
  | cast (expr : SqlExpr)
  | subquery
  | other (display : String)

inductive FunctionArgExpr where
  | expr (e : SqlExpr)
  | qualifiedWildcard
  | wildcard

inductive FunctionArg where
  | unnamed (arg : FunctionArgExpr)
  | named (arg : FunctionArgExpr)
  | exprNamed

inductive FunctionArguments where
  | none
  | subquery
  | list (args : List FunctionArg) (distinct : Bool)
end

inductive SelectItem where
  | unnamedExpr (e : SqlExpr)
  | exprWithAlias (expr : SqlExpr) (alias' : Ident)
  | qualifiedWildcard (name : ObjectName)
  | wildcard

inductive TableFactor where
  | table (name : ObjectName) (alias' : Option Ident)
  | other (display : String)

inductive JoinConstraint where
  | on (expr : SqlExpr)
  | using (idents : List Ident)
  | natural
  | none

inductive JoinOperator where
  | inner (c : JoinConstraint)
  | leftOuter (c : JoinConstraint)
  | rightOuter (c : JoinConstraint)
  | fullOuter (c : JoinConstraint)
  | crossJoin
  | other

structure Join where
  relation : TableFactor
  joinOperator : JoinOperator

structure TableWithJoins where
  relation : TableFactor
  joins : List Join

inductive Distinct where
  | distinct
  | on (exprs : List SqlExpr)

inductive GroupByExpr where
  | all
  | expressions (exprs : List SqlExpr)

structure Select where
  distinct : Option Distinct
  projection : List SelectItem
  from' : List TableWithJoins
  selection : Option SqlExpr
  groupBy : GroupByExpr
  having : Option SqlExpr

structure OrderByExpr where
  expr : SqlExpr
  asc : Option Bool
  nullsFirst : Option Bool

inductive SetOperator where
  | union
  | other (debug : String)

inductive SetQuantifier where
  | all | distinct | none

mutual
inductive Query where
  | mk (withClause : Bool) (body : SetExpr) (orderBy : Option (List OrderByExpr))
      (limit : Option SqlExpr) (offset : Option SqlExpr)

inductive SetExpr where
  | select (select : Select)
  | query (query : Query)
  | setOperation (op : SetOperator) (quantifier : SetQuantifier) (left right : SetExpr)
  | other (display : String)
end

inductive Statement where
  | query (query : Query)
  | explain (statement : Statement)
  | showTables
  | use
  | showCreateTable (name : ObjectName)
  | other (display : String)

/-- The foreign parser, and what it prints for an expression. -/
class SqlParser where
  parse : String → Except String (List Statement)
  display : SqlExpr → String

/-- Where statements are given as they are, nothing is parsed. -/
@[reducible] def noParser : SqlParser := ⟨fun _ => .error "no parser", fun _ => ""⟩

end RSparkSqlAst
