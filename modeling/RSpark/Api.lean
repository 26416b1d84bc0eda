import RSpark.Master

/- The SQL endpoint of the HTTP interface: a query is submitted as a job, executed inline,
   and the job's status is written by the handler itself. -/
namespace RSparkApi
open FloatText RSparkValue RSparkBatch RSparkExpr RSparkPlan RSparkSqlAst RSparkPlanner
open RSparkExecutor RSparkClusterState RSparkMaster Calls

section ShowCreate

def sqlType : DataType → String
  | .null => "NULL"
  | .boolean => "BOOLEAN"
  | .int32 => "INT"
  | .int64 => "BIGINT"
  | .float32 => "FLOAT"
  | .float64 => "DOUBLE"
  | .string => "STRING"
  | .date => "DATE"
  | .timestamp => "TIMESTAMP"

def isAsciiAlphabetic (c : Char) : Bool :=
  (97 ≤ c.toNat ∧ c.toNat ≤ 122) ∨ (65 ≤ c.toNat ∧ c.toNat ≤ 90)

def isAsciiAlphanumeric (c : Char) : Bool :=
  isAsciiAlphabetic c ∨ (48 ≤ c.toNat ∧ c.toNat ≤ 57)

def doubleQuote : Char := Char.ofNat 34
def singleQuote : Char := Char.ofNat 39

def doubled (quote : Char) (cs : List Char) : List Char :=
  cs.flatMap fun c => if c = quote then [c, c] else [c]

def needsQuote : List Char → Bool
  | [] => true
  | c :: cs =>
      (!isAsciiAlphabetic c && c != '_') ||
        (c :: cs).any fun d => !isAsciiAlphanumeric d && d != '_'

def quoteIdent (name : String) : String :=
  if needsQuote name.toList then
    String.ofList (doubleQuote :: (doubled doubleQuote name.toList ++ [doubleQuote]))
  else name

def columnLine (f : Field) : String :=
  let nullable := if f.nullable then "" else " NOT NULL"
  s!"  {quoteIdent f.name} {sqlType f.dataType}{nullable}"

def columnList (fields : List Field) : String :=
  if fields.isEmpty then ""
  else "(\n" ++ String.intercalate ",\n" (fields.map columnLine) ++ "\n)"

def renderCreateTable (catalog : Catalog) (tableName : String) : Result String := do
  let schema ← catalog.tableSchema tableName
  let (path, source) ← catalog.tableLocation tableName
  let location := String.ofList (doubled singleQuote path.toList)
  let columns := columnList schema.fields
  .ok s!"CREATE TABLE {quoteIdent tableName} {columns}\nUSING {source}\nLOCATION '{location}'"

def trimEndSemicolons (cs : List Char) : List Char :=
  (cs.reverse.dropWhile (· = ';')).reverse

def tryShowCreate [SqlParser] (sql : String) : Result (Option String) :=
  let trimmed := trimChars (trimEndSemicolons (trimChars sql.toList))
  match SqlParser.parse (String.ofList trimmed) with
  | .error e => err (.sql s!"syntax error: {e}")
  | .ok (.showCreateTable name :: _) => .ok (some name.display)
  | .ok _ => .ok none

end ShowCreate

section Response

inductive Json where
  | null
  | bool (b : Bool)
  | int (v : Int)
  | float (v : Float)
  | string (s : String)

/-- A number that is not finite has no JSON form. -/
def jsonOfF64 (v : Float) : Json :=
  match v.toModel.unpack with
  | .notANumber => .null
  | .infinity _ => .null
  | _ => .float v

def valueToJson : Value → Json
  | .null => .null
  | .boolean b => .bool b
  | .int32 v => .int v.toInt
  | .int64 v => .int v.toInt
  | .float32 v => jsonOfF64 (widen v)
  | .float64 v => jsonOfF64 v
  | .string s => .string s

def dataTypeDebug : DataType → String
  | .boolean => "Boolean"
  | .int32 => "Int32"
  | .int64 => "Int64"
  | .float32 => "Float32"
  | .float64 => "Float64"
  | .string => "String"
  | .date => "Date"
  | .timestamp => "Timestamp"
  | .null => "Null"

structure ColumnMeta where
  name : String
  dataType : String
  deriving DecidableEq

structure ExecuteSqlRequest where
  sql : String
  jobName : Option String

structure ExecuteSqlResponse where
  job : Job
  columns : List ColumnMeta
  rows : List (List Json)
  rowCount : Nat

inductive Response where
  | success (body : ExecuteSqlResponse)
  | failure (e : Error)

def columnsOf (batch : RecordBatch) : List ColumnMeta :=
  batch.schema.fields.map fun f => ⟨f.name, dataTypeDebug f.dataType⟩

def rowsOfBatch (batch : RecordBatch) : List (List Json) :=
  batch.records.map fun r => r.values.map valueToJson

end Response

section Handler

def Job.succeededWith (job : Job) (rows : Nat) (now : Time) : Job :=
  { job with status := .succeeded, completedAt := some now, resultRows := some rows }

def Job.failedWith (job : Job) (message : String) (now : Time) : Job :=
  { job with status := .failed message, completedAt := some now }

def jobRequestOf (body : ExecuteSqlRequest) : JobRequest :=
  (JobRequest.new (body.jobName.getD "ad-hoc") body.sql).withParallelism 1

/-- The instant at which the handler finishes the job follows those of the submission. -/
structure SqlDraws where
  submit : SubmitDraws
  finishedAt : Time

/-- A table the catalog does not have leaves the job as it was recorded. -/
def answerShowCreate (catalog : Catalog) (tableName : String) (finishedAt : Time) (job : Job) :
    ClusterProg Response :=
  .call .incRunningRound fun _ =>
    match renderCreateTable catalog tableName with
    | .error (.abort _) => .abort
    | .error (.error e) => .ret (.failure e)
    | .ok ddl =>
        let done := Job.succeededWith job 1 finishedAt
        .call (.updateJob done) fun _ =>
          .call .recordCompletedRound fun _ =>
            .ret (.success ⟨done, [⟨"create_statement", "String"⟩], [[.string ddl]], 1⟩)

def finishQuery (job : Job) (outcome : Result RecordBatch) (finishedAt : Time) :
    ClusterProg Response :=
  match outcome with
  | .error (.abort _) => .abort
  | .error (.error e) =>
      .call (.updateJob (Job.failedWith job e.display finishedAt)) fun _ => .ret (.failure e)
  | .ok batch =>
      let done := Job.succeededWith job batch.len finishedAt
      .call (.updateJob done) fun _ =>
        .call .incRunningRound fun _ =>
          .call .recordCompletedRound fun _ =>
            .ret (.success ⟨done, columnsOf batch, rowsOfBatch batch, batch.len⟩)

variable [Regex] [SqlParser] [PlanDebug]

def answerQuery (ctx : ExecutionContext) (catalog : Catalog) (sql : String) (finishedAt : Time)
    (job : Job) : ClusterProg Response :=
  .call .incRunningRound fun _ =>
    match planSql sql catalog with
    | .error (.abort _) => .abort
    | .error (.error e) => .ret (.failure e)
    | .ok plan => finishQuery job (execute ctx plan) finishedAt

/-- The rest of the handler once the job is recorded, or the refusal of the submission. -/
def afterSubmit (next : Job → ClusterProg Response) : Answer Job → ClusterProg Response
  | .error e => .ret (.failure e)
  | .ok job => next job

/-- `submitted` is the catalog as the submission reads it, `catalog` as the handler then does:
    a table can be dropped in between. -/
def executeSql (ctx : ExecutionContext) (submitted catalog : Catalog) (body : ExecuteSqlRequest)
    (d : SqlDraws) : ClusterProg Response :=
  match tryShowCreate body.sql with
  | .error (.abort _) => .abort
  | .error (.error e) => .ret (.failure e)
  | .ok (some tableName) =>
      (submitJobSkipPlan (jobRequestOf body) d.submit).bind
        (afterSubmit (answerShowCreate catalog tableName d.finishedAt))
  | .ok none =>
      (submitJob (jobRequestOf body) submitted d.submit).bind
        (afterSubmit (answerQuery ctx catalog body.sql d.finishedAt))

end Handler

end RSparkApi
