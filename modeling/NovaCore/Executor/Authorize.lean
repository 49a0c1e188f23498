import NovaCore.Storage.Catalog

/-!
# Role closure and privilege checks

`active_role_closure` walks the role graph breadth first with a depth limit; `has_privilege`
grants through `ACCOUNTADMIN`, ownership, or an explicit grant to any role of the closure.  The
catalogue is only read here, so each check is a function of it.

The walk is written level by level: a first-in-first-out queue that starts at depth 0 and
appends children with depth one more serves all roles of one depth before the next depth.  What
the walk finds is proved in `Executor.RoleClosure`.
-/

namespace NovaCore

namespace Catalog

variable (cat : Catalog)

/-- `list_role_children`. -/
def listRoleChildren (parent : RoleId) : Except NovaError (List RoleId) :=
  if cat.roles parent = none then
    .error (.internal s!"role parent not found: {parent}")
  else
    ((cat.roleChildren parent).scanKeys parent).mapM fun child =>
      if cat.roles child = none then .error (.internal s!"role child not found: {child}")
      else .ok child

/-- One iteration of the queue loop of `active_role_closure`: the roles found so far and the
children queued for the next depth. -/
def visitRole (user : String) (acc : List RoleId × List RoleId) (roleId : RoleId) :
    Except NovaError (List RoleId × List RoleId) :=
  if roleId ∈ acc.1 then .ok acc
  else if cat.roles roleId = none then
    .error (.permissionDenied user s!"use missing role {roleId}")
  else do
    let children ← cat.listRoleChildren roleId
    .ok (acc.1 ++ [roleId], acc.2 ++ children)

/-- The queue loop, one depth at a time; `fuel` is the number of depths still allowed. -/
def closureFrom (user : String) : ℕ → List RoleId → List RoleId → Except NovaError (List RoleId)
  | 0, found, level =>
    if level = [] then .ok found
    else .error (.permissionDenied user "role inheritance depth limit exceeded")
  | fuel + 1, found, level => do
    let (found, next) ← level.foldlM (cat.visitRole user) (found, [])
    closureFrom user fuel found next

variable (security : SecurityContext)

/-- `active_role_closure`: depths 0 to 64 are served, an entry at depth 65 is an error. -/
def activeRoleClosure : Except NovaError (List RoleId) :=
  cat.closureFrom security.username 65 [] security.activeRoleIds

/-- `has_privilege`. -/
def hasPrivilege (object : ObjectRef) (privilege : SecurityPrivilege) : Except NovaError Bool := do
  let activeRoles ← cat.activeRoleClosure security
  if accountadminRoleId ∈ activeRoles then
    return true
  if (cat.owners object).any fun owner => owner.ownerRoleId ∈ activeRoles then
    return true
  return activeRoles.any fun roleId =>
    (cat.grants roleId object).any fun grant => grant.privileges.contains privilege

/-- `require_privilege`. -/
def requirePrivilege (object : ObjectRef)
    (privilege : SecurityPrivilege) : Except NovaError Unit := do
  if ← cat.hasPrivilege security object privilege then
    .ok ()
  else
    .error (.permissionDenied security.username (privilege.display ++ " on " ++
      object.objectType.display ++ ":" ++ toString object.objectId))

/-- `authorize_table`. -/
def authorizeTable (db schema table : String)
    (privilege : SecurityPrivilege) : Except NovaError Unit := do
  let dbMeta ← cat.findDatabase db
  let schemaMeta ← cat.findSchemaMeta dbMeta.id schema
  let tableMeta ← cat.findTable db schema table
  cat.requirePrivilege security ⟨.database, dbMeta.id⟩ .usage
  cat.requirePrivilege security ⟨.schema, schemaMeta.id⟩ .usage
  cat.requirePrivilege security ⟨.table, tableMeta.id⟩ privilege

/-- `normalize_ident`: strip back quotes, then double quotes, then lower the ASCII letters. -/
def normalizeIdent (s : String) : String :=
  let strip (c : Char) (cs : List Char) : List Char :=
    ((cs.dropWhile (· = c)).reverse.dropWhile (· = c)).reverse
  String.ofList ((strip '"' (strip (Char.ofNat 96) s.toList)).map Char.toLower)

/-- `get_stream_by_name`. -/
def getStreamByName (dbId : DatabaseId) (schemaId : SchemaId) (name : String) : Option StreamMeta :=
  (cat.streamByName dbId schemaId (normalizeIdent name)).bind cat.streams

/-- `find_stream`. -/
def findStream (db schema streamName : String) : Except NovaError StreamMeta := do
  let dbMeta ← cat.findDatabase db
  let schemaMeta ← cat.findSchemaMeta dbMeta.id schema
  match cat.getStreamByName dbMeta.id schemaMeta.id streamName with
  | some s => .ok s
  | none => .error (.streamNotFound streamName)

/-- `authorize_stream_read`. -/
def authorizeStreamRead (db schema : String) (stream : StreamMeta) :
    Except NovaError TableMeta := do
  let dbMeta ← cat.findDatabase db
  let schemaMeta ← cat.findSchemaMeta dbMeta.id schema
  cat.requirePrivilege security ⟨.database, dbMeta.id⟩ .usage
  cat.requirePrivilege security ⟨.schema, schemaMeta.id⟩ .usage
  cat.requirePrivilege security ⟨.stream, stream.streamId⟩ .select
  let source ← match cat.getTable stream.dbId stream.schemaId stream.sourceTableId with
    | some t => .ok t
    | none => .error (.tableNotFound (toString stream.sourceTableId))
  cat.requirePrivilege security ⟨.table, source.id⟩ .select
  return source

end Catalog

end NovaCore
