import NovaCore.Sql.Analyzer
import NovaCore.Data.Text

/-!
# Statements

The syntax trees that `sqlparser` hands to the analyzer and the statements that the analyzer hands
to the executor, in full.  INSERT, SELECT, UPDATE and DELETE are the `SqlStatement` of
`NovaCore.Sql.Analyzer`; a tree also lists the tables that it names where the analyzer does not
look, such as in a subquery of a WHERE clause.

## Main definitions

* `Sql.Statement` : `sqlparser::ast::Statement`.
* `Sql.Resolved` : `ResolvedStatement`.
-/

namespace NovaCore.Sql

/-! ### Syntax trees -/

/-- The name of an object, as the list of its parts. -/
abbrev ObjectName := List String

/-- `sqlparser::ast::ColumnOption`. -/
inductive ColumnOption
  | notNull
  | comment (text : String)
  | other
  deriving DecidableEq

/-- `sqlparser::ast::ColumnDef`. -/
structure ColumnDef where
  name : String
  /-- The text of the type. -/
  dataType : String
  options : List ColumnOption
  deriving DecidableEq

/-- `sqlparser::ast::ObjectType`. -/
inductive ObjectType
  | table
  | database
  | schema
  | other
  deriving DecidableEq

/-- `sqlparser::ast::AlterTableOperation`. -/
inductive AlterTableOperation
  | addColumn (column : ColumnDef)
  | other
  deriving DecidableEq

/-- `sqlparser::ast::Privileges`, with the actions it lists: whether each is USAGE. -/
inductive Privileges
  | all
  | actions (usage : List Bool)
  deriving DecidableEq

/-- `sqlparser::ast::GrantObjects`. -/
inductive GrantObjects
  | tables (names : List ObjectName)
  | other
  deriving DecidableEq

/-- `sqlparser::ast::OperateFunctionArg`. -/
structure OperateFunctionArg where
  /-- Whether the argument is OUT or INOUT. -/
  out : Bool
  name : Option String
  /-- The text of the type. -/
  dataType : String
  defaultExpr : Option String
  deriving DecidableEq

/-- `sqlparser::ast::FunctionBehavior`. -/
inductive FunctionBehavior
  | immutable
  | stable
  | volatile
  deriving DecidableEq

/-- `sqlparser::ast::FunctionCalledOnNull`. -/
inductive FunctionCalledOnNull
  | calledOnNullInput
  | returnsNullOnNullInput
  | strict
  deriving DecidableEq

/-- CREATE FUNCTION. -/
structure CreateFunction where
  orReplace : Bool
  ifNotExists : Bool
  name : ObjectName
  args : List OperateFunctionArg
  returnType : Option String
  /-- The text of the body. -/
  functionBody : Option String
  behavior : Option FunctionBehavior
  calledOnNull : Option FunctionCalledOnNull
  language : Option String
  deriving DecidableEq

/-- `sqlparser::ast::Statement`. -/
inductive Statement
  | createDatabase (name : ObjectName)
  | createFunction (function : CreateFunction)
  | createTable (name : ObjectName) (columns : List ColumnDef)
  | grant (privileges : Privileges) (objects : GrantObjects) (grantees : List String)
      (withGrantOption : Bool) (grantedBy : Option String)
  | revoke (privileges : Privileges) (objects : GrantObjects) (grantees : List String)
      (grantedBy : Option String) (cascade : Bool)
  /-- INSERT, a query, UPDATE or DELETE, with the tables that it names elsewhere: in joins of an
  UPDATE, in the source of an INSERT, in subqueries of expressions. -/
  | dml (stmt : SqlStatement) (elsewhere : List ObjectName)
  | dropFunction (ifExists : Bool) (functions : List (ObjectName × List OperateFunctionArg))
  | drop (objectType : ObjectType) (names : List ObjectName)
  | alterTable (name : ObjectName) (operations : List AlterTableOperation)
  | startTransaction
  | commit
  | rollback
  /-- Any other statement, by its `Debug` text. -/
  | other (debug : String)

/-! ### Resolved statements -/

/-- `FunctionSignature`. -/
structure FunctionSignature where
  argTypes : List Str
  deriving DecidableEq

/-- `FunctionArg`. -/
structure FunctionArg where
  name : String
  dataType : String
  defaultExpr : Option String
  deriving DecidableEq

/-- `FunctionNullHandling`. -/
inductive FunctionNullHandling
  | calledOnNullInput
  | returnsNullOnNullInput
  | strict
  deriving DecidableEq

/-- `ResolvedColumn`. -/
structure ResolvedColumn where
  name : String
  dataType : String
  nullable : Bool
  deriving DecidableEq

/-- `AlterAction`; the analyzer only makes the first kind. -/
inductive AlterAction
  | addColumn (name dataType : String)
  | dropColumn (name : String)
  deriving DecidableEq

/-- `DtRefreshMode`. -/
inductive RefreshMode
  | auto
  | full
  | incremental
  deriving DecidableEq

/-- `ResolvedStatement`. -/
inductive Resolved
  | createDatabase (name : String)
  | createTable (db schema table : String) (columns : List ResolvedColumn)
  | createFunction (db schema name : String) (args : List FunctionArg)
      (signature : FunctionSignature) (returnType body : String) (volatility : FunctionBehavior)
      (nullHandling : FunctionNullHandling) (orReplace ifNotExists : Bool)
  | dropFunction (db schema name : String) (signature : FunctionSignature) (ifExists : Bool)
  | grantFunctionUsage (db schema name : String) (signature : FunctionSignature) (role : String)
  | revokeFunctionUsage (db schema name : String) (signature : FunctionSignature) (role : String)
  | showGrantsOnFunction (db schema name : String) (signature : FunctionSignature)
  | showGrantsToRole (role : String)
  /-- INSERT, SELECT, UPDATE and DELETE. -/
  | dml (stmt : ResolvedStatement)
  | createClone (db schema cloneTable sourceTable : String)
  | createStream (db schema streamName table : String) (appendOnly : Bool)
  /-- A read of a stream without consuming it. -/
  | readStream (db schema streamName rawSql : String)
  | dropStream (db schema name : String)
  | showStreams (db schema : String) (pattern : Option String)
  | describeStream (db schema name : String)
  | systemStreamHasData (db schema streamName : String)
  | gc (retentionDays : ℕ)
  | dropTable (db schema table : String)
  | dropDatabase (name : String)
  | dropSchema (db schema : String)
  | begin
  | commit
  | rollback
  | backup (path : Option String)
  | alterTable (db schema table : String) (action : AlterAction)
  | restore (path : String)
  | createDynamicTable (db schema name queryDefinition : String) (targetLagSeconds : ℕ)
      (refreshMode : RefreshMode) (initializeOnCreate : Bool)
  | refreshDynamicTable (db schema name : String)
  | suspendDynamicTable (db schema name : String)
  | resumeDynamicTable (db schema name : String)
  | dropDynamicTable (db schema name : String)
  | showDynamicTables (db : String) (pattern : Option String)

end NovaCore.Sql
