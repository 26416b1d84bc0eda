import RSpark.Expr

/- Logical plans. Each node carries its own output schema; nothing forces that schema
   to agree with the children, so hand-built trees are covered as well. -/
namespace RSparkPlan
open RSparkValue RSparkBatch RSparkExpr

structure SortExpr where
  expr : Expr
  ascending : Bool
  deriving DecidableEq

inductive JoinType where
  | inner | left | right | full
  deriving DecidableEq, Repr

def JoinType.debugName : JoinType → String
  | .inner => "Inner"
  | .left => "Left"
  | .right => "Right"
  | .full => "Full"

inductive LogicalPlan where
  | scan (tableName path source : String) (schema : Schema)
  | project (input : LogicalPlan) (expressions : List Expr) (schema : Schema)
  | filter (input : LogicalPlan) (predicate : Expr) (schema : Schema)
  | aggregate (input : LogicalPlan) (groupExprs aggregateExprs : List Expr) (schema : Schema)
  | sort (input : LogicalPlan) (order : List SortExpr) (schema : Schema)
  | limit (input : LogicalPlan) (count : Nat) (schema : Schema)
  | join (left right : LogicalPlan) (on : List (String × String)) (how : JoinType)
      (schema : Schema)
  | union (inputs : List LogicalPlan) (schema : Schema)
  | distinct (input : LogicalPlan) (schema : Schema)
  | empty

def LogicalPlan.outputSchema : LogicalPlan → Schema
  | .scan _ _ _ schema => schema
  | .project _ _ schema => schema
  | .filter _ _ schema => schema
  | .aggregate _ _ _ schema => schema
  | .sort _ _ schema => schema
  | .limit _ _ schema => schema
  | .join _ _ _ _ schema => schema
  | .union _ schema => schema
  | .distinct _ schema => schema
  | .empty => Schema.empty

def LogicalPlan.children : LogicalPlan → List LogicalPlan
  | .project input _ _ => [input]
  | .filter input _ _ => [input]
  | .aggregate input _ _ _ => [input]
  | .sort input _ _ => [input]
  | .limit input _ _ => [input]
  | .distinct input _ => [input]
  | .join left right _ _ _ => [left, right]
  | .union inputs _ => inputs
  | .scan _ _ _ _ => []
  | .empty => []

structure ScanRequest where
  path : String
  source : String
  schema : Schema
  deriving DecidableEq

mutual
def LogicalPlan.scans : LogicalPlan → List ScanRequest
  | .scan _ path source schema => [⟨path, source, schema⟩]
  | .project input _ _ => input.scans
  | .filter input _ _ => input.scans
  | .aggregate input _ _ _ => input.scans
  | .sort input _ _ => input.scans
  | .limit input _ _ => input.scans
  | .distinct input _ => input.scans
  | .join left right _ _ _ => left.scans ++ right.scans
  | .union inputs _ => scansOfAll inputs
  | .empty => []

def scansOfAll : List LogicalPlan → List ScanRequest
  | [] => []
  | input :: rest => input.scans ++ scansOfAll rest
end

mutual
def LogicalPlan.collectTableRefsInto : LogicalPlan → List String → List String
  | .scan tableName _ _ _, out => if tableName ∈ out then out else out ++ [tableName]
  | .project input _ _, out => input.collectTableRefsInto out
  | .filter input _ _, out => input.collectTableRefsInto out
  | .aggregate input _ _ _, out => input.collectTableRefsInto out
  | .sort input _ _, out => input.collectTableRefsInto out
  | .limit input _ _, out => input.collectTableRefsInto out
  | .distinct input _, out => input.collectTableRefsInto out
  | .join left right _ _ _, out => right.collectTableRefsInto (left.collectTableRefsInto out)
  | .union inputs _, out => collectAllTableRefsInto inputs out
  | .empty, out => out

def collectAllTableRefsInto : List LogicalPlan → List String → List String
  | [], out => out
  | input :: rest, out => collectAllTableRefsInto rest (input.collectTableRefsInto out)
end

def LogicalPlan.collectTableRefs (plan : LogicalPlan) : List String := plan.collectTableRefsInto []

def inferDataType : Expr → DataType
  | .literal .null => .null
  | .literal (.bool _) => .boolean
  | .literal (.int _) => .int64
  | .literal (.float _) => .float64
  | .literal (.str _) => .string
  | .aggregate .count _ _ => .int64
  | .aggregate .sum _ _ => .float64
  | .aggregate .avg _ _ => .float64
  | .aggregate .min _ _ => .string
  | .aggregate .max _ _ => .string
  | .binary op _ _ =>
      match op with
      | .and | .or | .eq | .notEq | .lt | .ltEq | .gt | .gtEq | .like => .boolean
      | .add | .sub | .mul | .div | .mod => .float64
  | .not _ => .boolean
  | .isNull _ => .boolean
  | .isNotNull _ => .boolean
  | .ifExpr _ thenExpr elseExpr =>
      let thenTy := inferDataType thenExpr
      let elseTy := inferDataType elseExpr
      if thenTy = elseTy then thenTy else .string
  | .column _ => .string
  | .star => .string
  | .aliased expr _ => inferDataType expr

def projectFields (input : Schema) : Expr → List Field
  | .star => input.fields
  | expr => [Field.new expr.displayName (inferDataType expr)]

def buildProjectSchema (expressions : List Expr) (input : Schema) : Result Schema :=
  .ok ⟨expressions.flatMap (projectFields input)⟩

def aggregateField (expr : Expr) : Field := Field.new expr.displayName (inferDataType expr)

def buildAggregateSchema (groupExprs aggregateExprs : List Expr) : Result Schema :=
  .ok ⟨groupExprs.map aggregateField ++ aggregateExprs.map aggregateField⟩

def keptRightField (on : List (String × String)) (f : Field) : Bool :=
  !on.any fun pair => pair.1 = f.name

def joinSchema (left right : Schema) (on : List (String × String)) : Schema :=
  ⟨left.fields ++ right.fields.filter (keptRightField on)⟩

def buildJoinSchema (left right : Schema) (on : List (String × String)) : Result Schema :=
  .ok (joinSchema left right on)

def buildScanSchema (name path source : String) (schema : Schema) : LogicalPlan :=
  .scan name path source schema

mutual
def nodes : LogicalPlan → List LogicalPlan
  | .scan tableName path source schema => [.scan tableName path source schema]
  | .project input expressions schema => .project input expressions schema :: nodes input
  | .filter input predicate schema => .filter input predicate schema :: nodes input
  | .aggregate input groupExprs aggregateExprs schema =>
      .aggregate input groupExprs aggregateExprs schema :: nodes input
  | .sort input order schema => .sort input order schema :: nodes input
  | .limit input count schema => .limit input count schema :: nodes input
  | .distinct input schema => .distinct input schema :: nodes input
  | .join left right on how schema => .join left right on how schema :: (nodes left ++ nodes right)
  | .union inputs schema => .union inputs schema :: nodesOfAll inputs
  | .empty => [.empty]

def nodesOfAll : List LogicalPlan → List LogicalPlan
  | [] => []
  | input :: rest => nodes input ++ nodesOfAll rest
end

end RSparkPlan
