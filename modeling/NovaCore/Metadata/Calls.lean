import NovaCore.Executor.Dml
import NovaCore.Metadata.Ops

/-!
# Metadata calls

The calls of the metadata store as programs: which of their reads and transactions are separate,
and so where another call can come in between.
-/

namespace NovaCore

/-- Issue one read. -/
def ask (q : MetaQuery) : Meta q.Ret := Prog.call (MetaOp.query q)

/-- Issue one transaction. -/
def transact (t : MetaTxn) : Meta t.Ret := Prog.call (MetaOp.txn t)

/-- Run a program of storage operations. -/
def storage {α : Type} (p : Nova α) : Meta α :=
  ExceptT.mk (p.run.embed MetaOp.storage fun _ r => r)

/-! ### Users and roles -/

/-- `security_next_id`. -/
def securityNextId (counter : IdCounter) (reservedFloor : ℕ) : Meta ℕ := do
  let seq ← transact (.takeNextId counter)
  let sum ← liftExcept (checkedAdd reservedFloor seq)
  return sum - 1

/-- `get_user_by_name`. -/
def getUserByName (name : String) : Meta (Option UserMeta) := do
  match ← ask (.userByName (Catalog.normalizeIdent name)) with
  | none => return none
  | some id => ask (.getUser id)

/-- `get_role_by_name`. -/
def getRoleByName (name : String) : Meta (Option RoleMeta) := do
  match ← ask (.roleByName (Catalog.normalizeIdent name)) with
  | none => return none
  | some id => ask (.getRole id)

/-- The identifier that `create_user` settles on. -/
def newUserId (id : UserId) : Meta UserId :=
  if id = 0 then securityNextId .user (rootUserId + 1)
  else do
    if (← ask (.getUser id)).isSome then
      throw (.internal ("user id '" ++ toString id ++ "' already exists"))
    return id

/-- `create_user`. -/
def createUser (user : UserMeta) : Meta UserId := do
  let name := Catalog.normalizeIdent user.name
  if (← getUserByName name).isSome then
    throw (.internal ("user '" ++ user.name ++ "' already exists"))
  if (← ask (.getRole user.defaultRoleId)).isNone then
    throw (.internal ("default role '" ++ toString user.defaultRoleId ++ "' not found"))
  let id ← newUserId user.id
  transact (.createUser { user with id } name)
  return id

/-- The identifier that `create_role` settles on. -/
def newRoleId (id : RoleId) : Meta RoleId :=
  if id = 0 then securityNextId .role (publicRoleId + 1)
  else do
    if (← ask (.getRole id)).isSome then
      throw (.internal ("role id '" ++ toString id ++ "' already exists"))
    return id

/-- `create_role`; the owner of the administrator role itself is not looked up. -/
def createRole (role : RoleMeta) : Meta RoleId := do
  let name := Catalog.normalizeIdent role.name
  if (← getRoleByName name).isSome then
    throw (.internal ("role '" ++ role.name ++ "' already exists"))
  if role.id ≠ accountadminRoleId then
    if (← ask (.getRole role.ownerRoleId)).isNone then
      throw (.internal ("owner role '" ++ toString role.ownerRoleId ++ "' not found"))
  let id ← newRoleId role.id
  transact (.createRole { role with id } name)
  return id

/-- `grant_role_to_user`. -/
def grantRoleToUser (u : UserId) (r grantedBy : RoleId) : Meta Unit :=
  transact (.grantRoleToUser u r grantedBy)

/-- `revoke_role_from_user`. -/
def revokeRoleFromUser (u : UserId) (r : RoleId) : Meta Unit :=
  transact (.revokeRoleFromUser u r)

/-- `grant_role_to_role`. -/
def grantRoleToRole (parent child grantedBy : RoleId) : Meta Unit := do
  if parent = child then
    throw (.internal "role cannot inherit itself")
  transact (.grantRoleToRole parent child grantedBy)

/-- `revoke_role_from_role`. -/
def revokeRoleFromRole (parent child : RoleId) : Meta Unit :=
  transact (.revokeRoleFromRole parent child)

/-! ### Owners and grants -/

/-- `set_object_owner`. -/
def setObjectOwner (owner : ObjectOwnerMeta) : Meta Unit := do
  if (← ask (.getRole owner.ownerRoleId)).isNone then
    throw (.internal ("owner role '" ++ toString owner.ownerRoleId ++ "' not found"))
  transact (.setObjectOwner owner)

/-- `grant_privileges`. -/
def grantPrivileges (grant : GrantSetMeta) : Meta Unit := do
  if (← ask (.getRole grant.roleId)).isNone then
    throw (.internal ("role '" ++ toString grant.roleId ++ "' not found"))
  if (← ask (.getRole grant.grantedByRoleId)).isNone then
    throw (.internal ("grantor role '" ++ toString grant.grantedByRoleId ++ "' not found"))
  transact (.grantPrivileges grant)

/-- `revoke_privileges`. -/
def revokePrivileges (r : RoleId) (object : ObjectRef) (privileges : PrivilegeSet) : Meta Unit :=
  transact (.revokePrivileges r object privileges)

variable (id : FunctionId)

/-- `get_function_by_id`. -/
def getFunctionById : Meta (Option FunctionMeta) := do
  match ← ask (.functionById id) with
  | none => return none
  | some (dbId, schemaId, id) => ask (.getFunction dbId schemaId id)

/-- `drop_function`: the grants to clear are collected before the batch that clears them. -/
def dropFunction : Meta Unit := do
  match ← getFunctionById id with
  | none => return ()
  | some function =>
    let grantees ← ask (.scanGrantsByObject ⟨.function, id⟩)
    transact (.clearFunction function id grantees)

/-- The identifier that `create_function` settles on. -/
def newFunctionId : Meta FunctionId :=
  if id = 0 then transact (.takeNextId .function) else pure id

/-- `create_function`. -/
def createFunction (function : FunctionMeta) : Meta Unit := do
  let id ← newFunctionId function.id
  transact (.createFunction { function with id })

/-- `replace_function`. -/
def replaceFunction (function : FunctionMeta) : Meta Unit := do
  match ← getFunctionById function.id with
  | none => throw (.internal ("function '" ++ toString function.id ++ "' not found"))
  | some old =>
    let existing ← ask (.functionByName function.dbId function.schemaId function.nameKey)
    if existing.any (· ≠ function.id) then
      throw (.internal ("function '" ++ function.name ++ "' with signature '" ++
        function.signature ++ "' already exists"))
    transact (.replaceFunction old function)

/-- The steps of `bootstrap_security` that create a role unless it is there. -/
def ensureRole (role : RoleMeta) : Meta Unit := do
  if (← ask (.getRole role.id)).isNone then
    let _ ← createRole role

/-- The step of `bootstrap_security` that creates a user unless it is there. -/
def ensureUser (user : UserMeta) : Meta Unit := do
  if (← ask (.getUser user.id)).isNone then
    let _ ← createUser user

/-- The step of `bootstrap_security` that gives an object an owner unless it has one. -/
def ensureOwner (owner : ObjectOwnerMeta) : Meta Unit := do
  if (← ask (.getObjectOwner owner.object)).isNone then
    setObjectOwner owner

/-- `bootstrap_security`. -/
def bootstrapSecurity : Meta Unit := do
  ensureRole ⟨accountadminRoleId, "ACCOUNTADMIN", accountadminRoleId, rootUserId⟩
  ensureRole ⟨publicRoleId, "PUBLIC", accountadminRoleId, rootUserId⟩
  ensureUser { id := rootUserId, name := "root", defaultRoleId := accountadminRoleId }
  grantRoleToUser rootUserId accountadminRoleId accountadminRoleId
  grantRoleToUser rootUserId publicRoleId accountadminRoleId
  ensureOwner ⟨⟨.account, accountObjectId⟩, accountadminRoleId, rootUserId⟩

/-! ### Databases, schemas and tables -/

/-- `create_database`; the name is not looked up. -/
def createDatabase (db : DatabaseMeta) : Meta Unit := do
  let id ← if db.id = 0 then transact (.takeNextId .database) else pure db.id
  transact (.setDatabase { db with id })

/-- `create_schema`; the identifier is stored as it comes. -/
def createSchema (schema : SchemaMeta) : Meta Unit := transact (.setSchema schema)

/-- `create_table`; the name is not looked up. -/
def createTable (table : TableMeta) : Meta Unit := do
  let id ← if table.id = 0 then transact (.takeNextId .table) else pure table.id
  transact (.setTable { table with id })

/-- `create_dynamic_table`; the identifier is stored as it comes. -/
def createDynamicTable (dt : DynamicTableMeta) : Meta Unit := transact (.setDynamicTable dt)

/-- `drop_database`. -/
def dropDatabase (id : DatabaseId) : Meta Unit := do
  let schemas ← storage (await (.listSchemas id))
  if schemas ≠ [] then
    throw (.internal s!"Cannot drop database {id}: has {schemas.length} schemas")
  transact (.clearDatabase id)

/-- `drop_schema`. -/
def dropSchema (dbId : DatabaseId) (id : SchemaId) : Meta Unit := do
  let tables ← storage (await (.listTables dbId id))
  if tables ≠ [] then
    throw (.internal s!"Cannot drop schema: has {tables.length} tables")
  transact (.clearSchema dbId id)

/-- `drop_table`: the versions and micro-partitions; the record of the table stays. -/
def dropTable (t : TableId) : Meta Unit := do
  let activeMps ← storage (getActiveMps t)
  transact (.clearTableVersion t)
  transact (.clearTableMps t (activeMps.map MicroPartitionMeta.mpId))

/-- `drop_dynamic_table`. -/
def dropDynamicTable (id : TableId) : Meta Unit := transact (.clearDynamicTable id)

/-! ### Streams and clones -/

/-- `create_stream`. -/
def createStream (stream : StreamMeta) : Meta Unit := do
  let streamId ← if stream.streamId = 0 then transact (.takeNextId .stream)
    else pure stream.streamId
  transact (.createStream { stream with streamId })

/-- `drop_stream`. -/
def dropStream (id : StreamId) : Meta Unit := do
  match ← ask (.getStream id) with
  | none => return ()
  | some stream => transact (.clearStream stream id)

/-- `insert_mp`. -/
def insertMp (mp : MicroPartitionMeta) : Meta Unit := transact (.insertMp mp)

/-- `delete_mp`; the name without the prefix is taken by the loop body of `exec_delete`. -/
def MetadataStore.deleteMp (id : MpId) : Meta Unit := do
  match ← storage (await (.getMp id)) with
  | none => return ()
  | some mp => transact (.clearMp mp.tableId id)

/-- `create_clone`. -/
def createClone (clone : CloneMeta) : Meta Unit := transact (.createClone clone)

/-! ### Transactions -/

/-- `commit_transaction`: the status that is read is not looked at. -/
def commitTransaction (id : TxnId) : Meta Unit := do
  match ← ask (.getTransaction id) with
  | none => throw (.internal ("Transaction " ++ toString id ++ " not found"))
  | some txn =>
    let now ← storage (await .nowMicros)
    transact (.setTransaction id { txn with status := .committed, commitTs := some now })

/-- `abort_transaction`: the status that is read is not looked at. -/
def abortTransaction (id : TxnId) : Meta Unit := do
  match ← ask (.getTransaction id) with
  | none => throw (.internal ("Transaction " ++ toString id ++ " not found"))
  | some txn => transact (.setTransaction id { txn with status := .aborted })

end NovaCore
