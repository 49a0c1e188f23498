import NovaCore.Sql.Ast
import NovaCore.Executor.Dml

/-!
# The analyzer

`Analyzer::resolve` for INSERT, UPDATE, DELETE and SELECT, on the syntax tree of a statement.  Names
are resolved to the last part of what is written; a WHERE clause that is not a comparison of a
column with a literal is dropped, and so are the column list and the source query of an INSERT.

## Main definitions

* `SqlStatement` : the statements, and `TableFactor` what may stand in a FROM clause.
* `Analyzer.resolveExpr`, `Analyzer.resolveFilter` : literals and WHERE clauses.
* `Analyzer.resolve` : the analysis of a statement.
-/

namespace NovaCore

/-! ### Statements -/

/-- `sqlparser::ast::TableFactor`. -/
inductive TableFactor
  | table (name : List String)
  /-- A subquery that is a SELECT, by the relations of its FROM clause in order. -/
  | derived (relations : List TableFactor)
  /-- A subquery that is not a SELECT. -/
  | derivedOther
  | other

/-- `sqlparser::ast::TableWithJoins`. -/
structure TableWithJoins where
  relation : TableFactor
  joins : List TableFactor

/-- An item of a SELECT list. -/
inductive SelectItem
  | identifier (value : String)
  | wildcard
  | alias (name : String)
  /-- Anything else, by its text. -/
  | other (text : String)

/-- The target of an assignment. -/
inductive AssignmentTarget
  | columnName (name : List String)
  | other

/-- The source of an INSERT. -/
inductive InsertSource
  | values (rows : List (List Expr))
  /-- Any other query. -/
  | query

/-- The statements whose analysis is modelled. -/
inductive SqlStatement
  | insert (tableName : List String) (columns : List String) (source : Option InsertSource)
  | update (table : TableFactor) (assignments : List (AssignmentTarget × Expr))
      (selection : Option Expr)
  | delete (tables : List TableFactor) (selection : Option Expr)
  | select (projection : List SelectItem) (tables : List TableWithJoins)
  /-- A query that is not a SELECT. -/
  | queryOther

/-- `ResolvedStatement::Select`; the analyzer never sets a filter. -/
structure ResolvedSelect where
  db : String
  schema : String
  table : String
  dependencies : List String
  projection : List String
  atTimestamp : Option Timestamp
  rawSql : Option String
  deriving DecidableEq

/-- `ResolvedStatement`. -/
inductive ResolvedStatement
  | dml (stmt : DmlStatement)
  | select (select : ResolvedSelect)

/-- `Analyzer`. -/
structure Analyzer where
  defaultDb : String
  defaultSchema : String
  /-- The `Debug` text of a literal. -/
  debugValue : Value → String
  /-- The `Debug` text of an expression. -/
  debugExpr : Expr → String

/-! ### Literals and WHERE clauses -/

/-- What a number literal is resolved to: the nearest double if it has a decimal point, and an
integer otherwise, 0 if it does not parse as one. -/
def NumberLit.resolved (n : NumberLit) : ResolvedExpr :=
  if '.' ∈ n.text.toList then .float64 (F64.ofRat n.value) else .int64 ((parseI64 n.text).getD 0)

namespace Analyzer

variable (a : Analyzer)

/-- `resolve_expr`. -/
def resolveExpr : Expr → Except NovaError ResolvedExpr
  | .value (.number n) => .ok n.resolved
  | .value (.singleQuotedString s) => .ok (.string s)
  | .value (.boolean b) => .ok (.boolean b)
  | .value .null => .ok .null
  | .value (.other debug) =>
    .error (.sqlAnalysisError ("unsupported value: " ++ a.debugValue (.other debug)))
  | e => .error (.sqlAnalysisError ("unsupported expression: " ++ a.debugExpr e))

/-- `resolve_filter`. -/
def resolveFilter : Expr → Option ResolvedFilter
  | .binaryOp (.identifier column) op right => do
    let value ← (a.resolveExpr right).toOption
    let op ← op.cmp?
    return { column, op, value }
  | _ => none

/-- `name.0.last().map(|i| i.value.clone()).unwrap_or_default()`. -/
def lastPart (name : List String) : String := name.getLastD ""

/-- The assignments of an UPDATE. -/
def resolveAssignment (x : AssignmentTarget × Expr) : Except NovaError (String × ResolvedExpr) := do
  let column := match x.1 with
    | .columnName name => lastPart name
    | .other => ""
  let value ← a.resolveExpr x.2
  return (column, value)

/-! ### SELECT -/

mutual

/-- `collect_table_factor`. -/
def collectTableFactor : TableFactor → Except NovaError (List String)
  | .table name => .ok name.getLast?.toList
  | .derived relations => do
    let tables ← collectTableFactors relations
    return (tables.insertionSort (· ≤ ·)).dedup
  | .derivedOther => .error (.sqlAnalysisError "unsupported subquery dependency")
  | .other => .error (.sqlAnalysisError "unsupported FROM clause")

/-- The loops of `select_tables` over the relations of a FROM clause. -/
def collectTableFactors : List TableFactor → Except NovaError (List String)
  | [] => .ok []
  | factor :: factors => do
    let tables ← collectTableFactor factor
    let rest ← collectTableFactors factors
    return tables ++ rest

end

/-- `select_tables`. -/
def selectTables (tables : List TableWithJoins) : Except NovaError (List String) :=
  collectTableFactor (.derived (tables.flatMap fun t => t.relation :: t.joins))

/-- The column of a SELECT list. -/
def projectionColumn : SelectItem → String
  | .identifier value => value
  | .wildcard => "*"
  | .alias name => name
  | .other text => text

/-! ### Statements -/

/-- The table of an UPDATE, DELETE or SELECT; `message` is the error for anything else. -/
def plainTable (message : String) : TableFactor → Except NovaError String
  | .table name => .ok (lastPart name)
  | _ => .error (.sqlAnalysisError message)

/-- `resolve` of an INSERT: the column list plays no part, and neither does a source that is not
VALUES. -/
def resolveInsert (tableName : List String) (source : Option InsertSource) :
    Except NovaError DmlStatement := do
  let table ← match tableName.getLast? with
    | some table => .ok table
    | none => .error (.sqlAnalysisError "missing table name in INSERT")
  let values ← match source with
    | some (.values rows) => rows.mapM fun row => row.mapM a.resolveExpr
    | _ => .ok []
  return .insert a.defaultDb a.defaultSchema table values

/-- `resolve` of an UPDATE. -/
def resolveUpdate (table : TableFactor) (assignments : List (AssignmentTarget × Expr))
    (selection : Option Expr) : Except NovaError DmlStatement := do
  let tableName ← plainTable "unsupported table in UPDATE" table
  let resolved ← assignments.mapM a.resolveAssignment
  return .update a.defaultDb a.defaultSchema tableName resolved (selection.bind a.resolveFilter)

/-- `resolve` of a DELETE. -/
def resolveDelete (tables : List TableFactor) (selection : Option Expr) :
    Except NovaError DmlStatement := do
  let relation ← match tables with
    | relation :: _ => .ok relation
    | [] => .error (.sqlAnalysisError "missing table in DELETE")
  let table ← plainTable "unsupported table in DELETE" relation
  return .delete a.defaultDb a.defaultSchema table (selection.bind a.resolveFilter)

/-- `resolve` of a SELECT. -/
def resolveSelect (projection : List SelectItem) (tables : List TableWithJoins) :
    Except NovaError ResolvedSelect := do
  let first ← match tables with
    | t :: _ => .ok t
    | [] => .error (.sqlAnalysisError "SELECT must have a FROM clause")
  let dependencies ← selectTables tables
  let table ← plainTable "unsupported FROM clause" first.relation
  return {
    db := a.defaultDb
    schema := a.defaultSchema
    table, dependencies
    projection := projection.map projectionColumn
    atTimestamp := none
    rawSql := none }

/-- `Analyzer::resolve`. -/
def resolve : SqlStatement → Except NovaError ResolvedStatement
  | .insert tableName _ source => (a.resolveInsert tableName source).map .dml
  | .update table assignments selection => (a.resolveUpdate table assignments selection).map .dml
  | .delete tables selection => (a.resolveDelete tables selection).map .dml
  | .select projection tables => (a.resolveSelect projection tables).map .select
  | .queryOther => .error (.sqlAnalysisError "unsupported query type")

end Analyzer

end NovaCore
