import NovaCore.Executor.Protocol
import NovaCore.Executor.Stream
import NovaCore.Metadata.Calls

/-!
# Statements that create and drop objects

The branches of `execute_with_context` that create or drop databases, tables, clones, streams and
dynamic tables, as metadata calls.  The create statements store a record, look the object up again
by name, and make the primary role of the session the owner of what the lookup returned.

A function that only depends on the catalogue through `require_privilege` reads it once; the reads
of a name lookup are one operation, as in the rest of the executor.  The refresh that ends
`CREATE DYNAMIC TABLE` when it initializes the table is a parameter, and its result is ignored.
-/

namespace NovaCore

/-! ### The primary role -/

variable (security : SecurityContext)

/-- `require_primary_role_exists`. -/
def requirePrimaryRoleExists : Meta Unit := do
  if security.primaryRoleId = accountadminRoleId then
    if (← ask (.getRole accountadminRoleId)).isNone then
      bootstrapSecurity
  if (← ask (.getRole security.primaryRoleId)).isNone then
    throw (.permissionDenied security.username
      ("use missing role " ++ toString security.primaryRoleId))

variable (object : ObjectRef)

/-- `set_primary_role_owner`. -/
def setPrimaryRoleOwner : Meta Unit := do
  requirePrimaryRoleExists security
  setObjectOwner ⟨object, security.primaryRoleId, security.userId⟩

/-- `has_primary_role_privilege`. -/
def hasPrimaryRolePrivilege (privilege : SecurityPrivilege) : Meta Bool := do
  requirePrimaryRoleExists security
  if security.primaryRoleId = accountadminRoleId then
    return true
  if (← ask (.getObjectOwner object)).any fun owner =>
      owner.ownerRoleId = security.primaryRoleId then
    return true
  return (← ask (.getGrant security.primaryRoleId object)).any fun grant =>
    grant.privileges.contains privilege

/-- `require_primary_role_privilege`. -/
def requirePrimaryRolePrivilege (privilege : SecurityPrivilege) : Meta Unit := do
  if !(← hasPrimaryRolePrivilege security object privilege) then
    throw (.permissionDenied security.username (privilege.display ++ " on " ++
      object.objectType.display ++ ":" ++ toString object.objectId ++ " with primary role " ++
      toString security.primaryRoleId))

/-! ### Lookups and privileges -/

/-- `find_database`. -/
def findDatabase (db : String) : Meta DatabaseMeta := do
  match (← storage (await .listDatabases)).find? (fun d => d.name = db) with
  | some d => return d
  | none => throw (.databaseNotFound db)

/-- `list_schemas` and the search for a name in what it returns. -/
def lookupSchema (dbId : DatabaseId) (schema : String) : Meta (Option SchemaMeta) := do
  return (← storage (await (.listSchemas dbId))).find? (fun s => s.name = schema)

/-- `find_schema_meta`. -/
def findSchemaMeta (dbId : DatabaseId) (schema : String) : Meta SchemaMeta := do
  match ← lookupSchema dbId schema with
  | some s => return s
  | none => throw (.schemaNotFound schema)

variable (db schema table : String)

/-- `find_table`. -/
def findTable : Meta TableMeta :=
  storage (await (.findTable db schema table))

/-- `require_privilege`. -/
def requirePrivilege (object : ObjectRef) (privilege : SecurityPrivilege) : Meta Unit := do
  liftExcept (← ask (.requirePrivilege security object privilege))

/-- The checks for USAGE on the database and the schema of a name. -/
def requireUsage (dbId : DatabaseId) (schemaId : SchemaId) : Meta Unit := do
  requirePrivilege security ⟨.database, dbId⟩ .usage
  requirePrivilege security ⟨.schema, schemaId⟩ .usage

/-- `authorize_table`. -/
def authorizeTable (privilege : SecurityPrivilege) : Meta Unit := do
  let dbMeta ← findDatabase db
  let schemaMeta ← findSchemaMeta dbMeta.id schema
  let tableMeta ← findTable db schema table
  requireUsage security dbMeta.id schemaMeta.id
  requirePrivilege security ⟨.table, tableMeta.id⟩ privilege

/-! ### Creating objects -/

/-- `exec_create_database`. -/
def execCreateDatabase (name : String) : Meta QueryResult := do
  requirePrimaryRoleExists security
  createDatabase ⟨0, name⟩
  let created ← findDatabase name
  setPrimaryRoleOwner security ⟨.database, created.id⟩
  return .success ("Database '" ++ name ++ "' created")

/-- The part of `exec_create_table` that finds the schema or creates it; the new schema is stored
with identifier 0. -/
def findOrCreateSchema (dbId : DatabaseId) (schema : String) : Meta SchemaMeta := do
  match ← lookupSchema dbId schema with
  | some s => return s
  | none =>
    createSchema ⟨0, dbId, schema⟩
    let created ← findSchemaMeta dbId schema
    setPrimaryRoleOwner security ⟨.schema, created.id⟩
    return created

/-- `exec_create_table`; the columns come with their types parsed. -/
def execCreateTable (columns : List ColumnDef) : Meta QueryResult := do
  requirePrimaryRoleExists security
  let dbMeta ← findDatabase db
  let schemaMeta ← findOrCreateSchema security dbMeta.id schema
  createTable ⟨0, dbMeta.id, schemaMeta.id, table, columns⟩
  let created ← findTable db schema table
  setPrimaryRoleOwner security ⟨.table, created.id⟩
  return .success ("Table '" ++ db ++ "." ++ schema ++ "." ++ table ++ "' created")

/-- The record of a cloned micro-partition: the same file, and the identifier 0. -/
def cloneMp (tableId : TableId) (mp : MicroPartitionMeta) : MicroPartitionMeta :=
  { mp with
    mpId := 0
    tableId
    s3TempPath := none
    supersedes := none
    supersededBy := none
    active := true }

/-- The micro-partitions that `exec_clone` copies: the current ones or those at a time. -/
def getSourceMps (t : TableId) : Option Timestamp → Meta (List MicroPartitionMeta)
  | some ts => storage (getMpsAtTimestamp t ts)
  | none => storage (getActiveMps t)

/-- `exec_clone`. -/
def execClone (db schema cloneTable sourceTable : String)
    (atTimestamp : Option Timestamp) : Meta QueryResult := do
  requirePrimaryRoleExists security
  let sourceMeta ← findTable db schema sourceTable
  let sourceMps ← getSourceMps sourceMeta.id atTimestamp
  createTable ⟨0, sourceMeta.dbId, sourceMeta.schemaId, cloneTable, sourceMeta.columns⟩
  let created ← findTable db schema cloneTable
  setPrimaryRoleOwner security ⟨.table, created.id⟩
  sourceMps.forM fun mp => insertMp (cloneMp created.id mp)
  let now ← storage (await .nowMicros)
  createClone ⟨created.id, sourceMeta.id, now⟩
  return .success ("Table " ++ cloneTable ++ " cloned from " ++ sourceTable ++ " (" ++
    toString sourceMps.length ++ " MPs, zero-copy)")

/-- `exec_create_stream`. -/
def execCreateStream (db schema streamName table : String) : Meta QueryResult := do
  requirePrimaryRoleExists security
  let tableMeta ← findTable db schema table
  let streamId ← storage (await .generateId)
  let now ← storage (await .nowMicros)
  let currentSequence ← storage (await (.getTableChangeSequence tableMeta.id))
  createStream ⟨streamId, tableMeta.dbId, tableMeta.schemaId, tableMeta.id, streamName⟩
  transact (.setStreamOffset streamId
    { tableId := tableMeta.id
      committedSequence := currentSequence
      committedTs := now
      lastConsumedAt := none
      lastConsumedTxnId := none })
  setPrimaryRoleOwner security ⟨.stream, streamId⟩
  return .success ("Stream '" ++ streamName ++ "' created on table '" ++ table ++ "' (id=" ++
    toString streamId ++ ")")

/-- `p.await.ok()`: the value, or nothing if `p` fails. -/
def okOrNone {α : Type} (p : Meta α) : Meta (Option α) := ExceptT.mk do
  return .ok (← p.run).toOption

/-- Run `p` and forget what it returned. -/
def ignoreResult {α : Type} (p : Meta α) : Meta Unit := ExceptT.mk do
  let _ ← p.run
  return .ok ()

/-- Run `p`; if it fails, run `undo`, forget what that returned, and fail as `p` did. -/
def orUndo {α : Type} (p : Meta α) (undo : Meta Unit) : Meta α := ExceptT.mk do
  match ← p.run with
  | .ok a => return .ok a
  | .error e =>
    let _ ← undo.run
    return .error e

/-- What CREATE DYNAMIC TABLE says; `initialRefresh` is the refresh that follows, given the
identifiers of the dynamic table and of its output table, if there is one. -/
structure DynamicTableSpec where
  db : String
  schema : String
  name : String
  queryDefinition : String
  targetLagSeconds : ℕ
  refreshMode : DtRefreshMode
  initialRefresh : Option (TableId → TableId → Meta QueryResult)

variable (spec : DynamicTableSpec)

/-- The record that CREATE DYNAMIC TABLE stores. -/
def DynamicTableSpec.record (id : TableId) (dbId : DatabaseId)
    (schemaId : SchemaId) (outputTableId : TableId) : DynamicTableMeta where
  id
  dbId
  schemaId
  name := spec.name
  queryDefinition := spec.queryDefinition
  targetLagSeconds := max spec.targetLagSeconds 60
  refreshMode := spec.refreshMode
  outputTableId
  lastRefreshTs := none
  refreshStatus := .pending
  schedulerEnabled := true

/-- The lookup by name in `exec_create_dynamic_table`. -/
def findCreatedDynamicTable (dbId : DatabaseId) (schemaId : SchemaId) (name : String) :
    Meta DynamicTableMeta := do
  match (← ask (.listDynamicTables dbId)).find? (fun dt => dt.schemaId = schemaId && dt.name = name)
    with
  | some dt => return dt
  | none => throw (.internal ("dynamic table '" ++ name ++ "' was not created"))

/-- `exec_create_dynamic_table`. -/
def execCreateDynamicTable : Meta QueryResult := do
  requirePrimaryRoleExists security
  let dbMeta ← findDatabase spec.db
  match ← lookupSchema dbMeta.id spec.schema with
  | none => throw (.internal ("schema '" ++ spec.schema ++ "' not found"))
  | some schemaMeta =>
    let outputTableId ← storage (await .generateId)
    createTable ⟨outputTableId, dbMeta.id, schemaMeta.id, "__dt_output_" ++ spec.name, []⟩
    setPrimaryRoleOwner security ⟨.table, outputTableId⟩
    let dtId ← storage (await .generateId)
    orUndo (createDynamicTable (spec.record dtId dbMeta.id schemaMeta.id outputTableId))
      (dropTable outputTableId)
    let created ← findCreatedDynamicTable dbMeta.id schemaMeta.id spec.name
    setPrimaryRoleOwner security ⟨.dynamicTable, created.id⟩
    match spec.initialRefresh with
    | none => pure ()
    | some refresh => ignoreResult (refresh created.id outputTableId)
    return .success ("Dynamic table '" ++ spec.name ++ "' created (lag=" ++
      toString spec.targetLagSeconds ++ "s, mode=" ++ spec.refreshMode.display ++ ")")

/-! ### The branches of `execute_with_context` -/

/-- CREATE DATABASE. -/
def createDatabaseStmt (name : String) : Meta QueryResult := do
  requirePrimaryRolePrivilege security ⟨.account, accountObjectId⟩ .createDatabase
  execCreateDatabase security name

/-- The check of the primary role for CREATE TABLE: CREATE TABLE on the schema, or CREATE SCHEMA on
the database if the lookup of the schema fails. -/
def requireCreateTable (dbId : DatabaseId) (schema : String) : Meta Unit := do
  match ← okOrNone (findSchemaMeta dbId schema) with
  | some schemaMeta => requirePrimaryRolePrivilege security ⟨.schema, schemaMeta.id⟩ .createTable
  | none => requirePrimaryRolePrivilege security ⟨.database, dbId⟩ .createSchema

/-- CREATE TABLE. -/
def createTableStmt (columns : List ColumnDef) : Meta QueryResult := do
  let dbMeta ← findDatabase db
  requireCreateTable security dbMeta.id schema
  execCreateTable security db schema table columns

/-- The check of the primary role for CLONE, CREATE STREAM and CREATE DYNAMIC TABLE. -/
def requirePrimaryRoleInSchema (db schema : String)
    (privilege : SecurityPrivilege) : Meta Unit := do
  let dbMeta ← findDatabase db
  let schemaMeta ← findSchemaMeta dbMeta.id schema
  requirePrimaryRolePrivilege security ⟨.schema, schemaMeta.id⟩ privilege

/-- CLONE. -/
def createCloneStmt (db schema cloneTable sourceTable : String)
    (atTimestamp : Option Timestamp) : Meta QueryResult := do
  authorizeTable security db schema sourceTable .select
  requirePrimaryRoleInSchema security db schema .createTable
  execClone security db schema cloneTable sourceTable atTimestamp

/-- CREATE STREAM. -/
def createStreamStmt (db schema streamName table : String) : Meta QueryResult := do
  authorizeTable security db schema table .select
  requirePrimaryRoleInSchema security db schema .createStream
  execCreateStream security db schema streamName table

/-- CREATE DYNAMIC TABLE. -/
def createDynamicTableStmt : Meta QueryResult := do
  requirePrimaryRoleInSchema security spec.db spec.schema .createDynamicTable
  execCreateDynamicTable security spec

/-- DROP TABLE. -/
def dropTableStmt : Meta QueryResult := do
  authorizeTable security db schema table .ownership
  let tableMeta ← findTable db schema table
  dropTable tableMeta.id
  return .success ("Table '" ++ db ++ "." ++ schema ++ "." ++ table ++ "' dropped")

/-- DROP DATABASE. -/
def dropDatabaseStmt (name : String) : Meta QueryResult := do
  let dbMeta ← findDatabase name
  requirePrivilege security ⟨.database, dbMeta.id⟩ .ownership
  dropDatabase dbMeta.id
  return .success ("Database '" ++ name ++ "' dropped")

/-- DROP SCHEMA. -/
def dropSchemaStmt (db schema : String) : Meta QueryResult := do
  let dbMeta ← findDatabase db
  match ← lookupSchema dbMeta.id schema with
  | none => throw (.internal ("schema '" ++ schema ++ "' not found"))
  | some schemaMeta =>
    requirePrivilege security ⟨.schema, schemaMeta.id⟩ .ownership
    dropSchema dbMeta.id schemaMeta.id
    return .success ("Schema '" ++ db ++ "." ++ schema ++ "' dropped")

/-- `exec_drop_stream`. -/
def dropStreamStmt (db schema name : String) : Meta QueryResult := do
  let stream ← storage (await (.findStream db schema name))
  let dbMeta ← findDatabase db
  let schemaMeta ← findSchemaMeta dbMeta.id schema
  requireUsage security dbMeta.id schemaMeta.id
  requirePrivilege security ⟨.stream, stream.streamId⟩ .ownership
  dropStream stream.streamId
  return .success ("Stream '" ++ db ++ "." ++ schema ++ "." ++ name ++ "' dropped")

/-- The privilege that INSERT, UPDATE and DELETE need on their table. -/
def DmlStatement.privilege : DmlStatement → SecurityPrivilege
  | insert .. => .insert
  | update .. => .update
  | delete .. => .delete

/-- INSERT, UPDATE and DELETE. -/
def dmlStmt (fmt : TextFormat) (security : SecurityContext) (stmt : DmlStatement) :
    Meta QueryResult := do
  authorizeTable security stmt.names.1 stmt.names.2.1 stmt.names.2.2 stmt.privilege
  storage (stmt.exec fmt)

/-- The statements that create, drop or change objects or their data; `other` stands for any other
branch of `execute_with_context`, by its program. -/
inductive Statement
  | createDatabase (name : String)
  | createTable (db schema table : String) (columns : List ColumnDef)
  | createClone (db schema cloneTable sourceTable : String) (atTimestamp : Option Timestamp)
  | createStream (db schema streamName table : String)
  | createDynamicTable (spec : DynamicTableSpec)
  | dropTable (db schema table : String)
  | dropDatabase (name : String)
  | dropSchema (db schema : String)
  | dropStream (db schema name : String)
  | dml (stmt : DmlStatement)
  | readStream (db schema streamName : String) (readMode : StreamReadMode) (rawSql : String)
  | other (program : Meta QueryResult)

/-- `execute_with_context`. -/
def Statement.exec (fmt : TextFormat) (security : SecurityContext) : Statement → Meta QueryResult
  | createDatabase name => createDatabaseStmt security name
  | createTable db schema table columns => createTableStmt security db schema table columns
  | createClone db schema cloneTable sourceTable atTimestamp =>
    createCloneStmt security db schema cloneTable sourceTable atTimestamp
  | createStream db schema streamName table => createStreamStmt security db schema streamName table
  | createDynamicTable spec => createDynamicTableStmt security spec
  | dropTable db schema table => dropTableStmt security db schema table
  | dropDatabase name => dropDatabaseStmt security name
  | dropSchema db schema => dropSchemaStmt security db schema
  | dropStream db schema name => dropStreamStmt security db schema name
  | dml stmt => dmlStmt fmt security stmt
  | readStream db schema streamName readMode rawSql =>
    storage (execReadStream ⟨security, db, schema, streamName, readMode, rawSql⟩)
  | other program => program

end NovaCore
