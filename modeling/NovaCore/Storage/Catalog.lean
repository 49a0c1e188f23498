import NovaCore.Common.Types
import NovaCore.Data.Except
import Mathlib.Data.Finset.Basic

/-!
# The catalogue and the security metadata

The part of the FoundationDB key space that names objects (`db`, `schema`, `table`, `stream`,
`stream_by_name`, `dynamic_table`) and the part that says who may use them (`role`, `role_child`,
`object_owner`, `grant`).  A key family that is scanned is an ordered map from its last key
component; a family that is only looked up by key is a function.

A scan of a family whose prefix ends in an integer uses `category_range`, whose end key is the
prefix with its last byte incremented *without carry*.  For an identifier with last byte `0xFF`
the end key lies before the start key and the scan returns nothing; `scan` models this.
-/

namespace NovaCore

/-- A scanned key family, ordered by its last key component. -/
abbrev OMap (β : Type) := Std.ExtTreeMap ℕ β compare

namespace OMap

variable {β : Type}

/-- The values of a whole family in key order. -/
def scanAll (m : OMap β) : List β := m.toList.map Prod.snd

/-- `category_range` on a prefix ending in `last` followed by `fdb_get_range`: the values in key
order, or nothing when the range is inverted. -/
def scan (last : ℕ) (m : OMap β) : List β := if last % 256 = 255 then [] else m.scanAll

/-- The same scan for an index family: the last key components in order. -/
def scanKeys (last : ℕ) (m : OMap β) : List ℕ := if last % 256 = 255 then [] else m.keys

variable {m : OMap β}

theorem mem_scanAll {b : β} : b ∈ m.scanAll ↔ ∃ k : ℕ, m[k]? = some b := by
  simp only [scanAll, List.mem_map, Prod.exists, Std.ExtTreeMap.mem_toList_iff_getElem?_eq_some,
    exists_eq_right]

theorem mem_scan {last : ℕ} {b : β} :
    b ∈ m.scan last ↔ last % 256 ≠ 255 ∧ ∃ k : ℕ, m[k]? = some b := by
  unfold scan
  split_ifs with h
  · simp [h]
  · simp [h, mem_scanAll]

theorem mem_scanKeys {last : ℕ} {k : ℕ} : k ∈ m.scanKeys last ↔ last % 256 ≠ 255 ∧ k ∈ m := by
  unfold scanKeys
  split_ifs with h
  · simp [h]
  · simp [h, Std.ExtTreeMap.mem_keys]

theorem scanKeys_nodup {last : ℕ} : (m.scanKeys last).Nodup := by
  unfold scanKeys
  split_ifs
  · exact List.nodup_nil
  · exact Std.ExtTreeMap.nodup_keys

end OMap

/-! ### Objects, roles and grants -/

/-- Securable object kinds. -/
inductive ObjectType
  | account
  | database
  | schema
  | table
  | dynamicTable
  | stream
  | role
  | user
  | function
  deriving DecidableEq

/-- The text of an object kind in error messages. -/
def ObjectType.display : ObjectType → String
  | account => "ACCOUNT"
  | database => "DATABASE"
  | schema => "SCHEMA"
  | table => "TABLE"
  | dynamicTable => "DYNAMIC TABLE"
  | stream => "STREAM"
  | role => "ROLE"
  | user => "USER"
  | function => "FUNCTION"

/-- The identity of an object for grants and ownership. -/
structure ObjectRef where
  objectType : ObjectType
  objectId : ℕ
  deriving DecidableEq

/-- Privileges. -/
inductive SecurityPrivilege
  | usage
  | select
  | insert
  | update
  | delete
  | references
  | monitor
  | modify
  | operate
  | createDatabase
  | createSchema
  | createTable
  | createDynamicTable
  | createStream
  | createRole
  | createUser
  | manageGrants
  | ownership
  | createFunction
  deriving DecidableEq

/-- The text of a privilege in error messages. -/
def SecurityPrivilege.display : SecurityPrivilege → String
  | usage => "USAGE"
  | select => "SELECT"
  | insert => "INSERT"
  | update => "UPDATE"
  | delete => "DELETE"
  | references => "REFERENCES"
  | monitor => "MONITOR"
  | modify => "MODIFY"
  | operate => "OPERATE"
  | createDatabase => "CREATE DATABASE"
  | createSchema => "CREATE SCHEMA"
  | createTable => "CREATE TABLE"
  | createDynamicTable => "CREATE DYNAMIC TABLE"
  | createStream => "CREATE STREAM"
  | createRole => "CREATE ROLE"
  | createUser => "CREATE USER"
  | manageGrants => "MANAGE GRANTS"
  | ownership => "OWNERSHIP"
  | createFunction => "CREATE FUNCTION"

/-- The bit of a privilege in a `PrivilegeSet`. -/
def SecurityPrivilege.bit (p : SecurityPrivilege) : ℕ := 1 <<< p.ctorIdx

/-- A set of privileges as a bit mask. -/
structure PrivilegeSet where
  bits : ℕ
  deriving DecidableEq

/-- `PrivilegeSet::contains`. -/
def PrivilegeSet.contains (s : PrivilegeSet) (p : SecurityPrivilege) : Bool :=
  s.bits &&& p.bit != 0

/-- Role metadata. -/
structure RoleMeta where
  id : RoleId
  name : String
  ownerRoleId : RoleId
  createdByUserId : UserId
  deriving DecidableEq

/-- Who owns an object. -/
structure ObjectOwnerMeta where
  object : ObjectRef
  ownerRoleId : RoleId
  createdByUserId : UserId
  deriving DecidableEq

/-- The privileges a role holds on an object. -/
structure GrantSetMeta where
  roleId : RoleId
  object : ObjectRef
  privileges : PrivilegeSet
  /-- The privileges that the role may grant on. -/
  grantOptions : PrivilegeSet
  grantedByRoleId : RoleId
  deriving DecidableEq

/-- The session on whose behalf a statement runs. -/
structure SecurityContext where
  userId : UserId
  username : String
  primaryRoleId : RoleId
  secondaryRoleIds : List RoleId
  secondaryAll : Bool
  deriving DecidableEq

/-- `SecurityContext::active_role_ids`. -/
def SecurityContext.activeRoleIds (s : SecurityContext) : List RoleId :=
  if s.secondaryAll then
    s.secondaryRoleIds.foldl (fun roles r => if r ∈ roles then roles else roles ++ [r])
      [s.primaryRoleId]
  else [s.primaryRoleId]

def accountObjectId : ℕ := 0

def rootUserId : UserId := 1

def accountadminRoleId : RoleId := 1

def publicRoleId : RoleId := 2

/-- `SecurityContext::root`. -/
def SecurityContext.root : SecurityContext where
  userId := rootUserId
  username := "root"
  primaryRoleId := accountadminRoleId
  secondaryRoleIds := []
  secondaryAll := true

/-- How a dynamic table is refreshed. -/
inductive DtRefreshMode
  | auto
  | full
  | incremental
  deriving DecidableEq

/-- The text of a refresh mode in messages. -/
def DtRefreshMode.display : DtRefreshMode → String
  | auto => "AUTO"
  | full => "FULL"
  | incremental => "INCREMENTAL"

/-- The state of the last refresh of a dynamic table. -/
inductive DtRefreshStatus
  | pending
  | running
  | success
  | failed (error : NovaError)
  deriving DecidableEq

/-- Dynamic table metadata. -/
structure DynamicTableMeta where
  id : TableId
  dbId : DatabaseId
  schemaId : SchemaId
  name : String
  /-- The SELECT that defines the table. -/
  queryDefinition : String
  targetLagSeconds : ℕ
  refreshMode : DtRefreshMode
  /-- The table that holds the rows. -/
  outputTableId : TableId
  lastRefreshTs : Option Timestamp
  refreshStatus : DtRefreshStatus
  /-- Whether the scheduler refreshes the table. -/
  schedulerEnabled : Bool
  deriving DecidableEq

/-! ### The catalogue -/

/-- Object names and security metadata. -/
structure Catalog where
  /-- `("db", id)` -/
  databases : OMap DatabaseMeta
  /-- `("schema", db_id, id)` -/
  schemas : DatabaseId → OMap SchemaMeta
  /-- `("table", db_id, schema_id, id)` -/
  tables : DatabaseId → SchemaId → OMap TableMeta
  /-- `("stream", id)` -/
  streams : StreamId → Option StreamMeta
  /-- `("stream_by_name", db_id, schema_id, name)` -/
  streamByName : DatabaseId → SchemaId → String → Option StreamId
  /-- `("dynamic_table", id)` -/
  dynamicTables : OMap DynamicTableMeta
  /-- `("role", id)` -/
  roles : RoleId → Option RoleMeta
  /-- `("role_child", parent, child)` -/
  roleChildren : RoleId → OMap Unit
  /-- `("object_owner", type, id)` -/
  owners : ObjectRef → Option ObjectOwnerMeta
  /-- `("grant", role, type, id)` -/
  grants : RoleId → ObjectRef → Option GrantSetMeta

namespace Catalog

variable (cat : Catalog)

/-- `list_databases`. -/
def listDatabases : List DatabaseMeta := cat.databases.scanAll

variable (dbId : DatabaseId)

/-- `list_schemas`. -/
def listSchemas : List SchemaMeta := (cat.schemas dbId).scan dbId

/-- `list_tables`. -/
def listTables (schemaId : SchemaId) : List TableMeta :=
  (cat.tables dbId schemaId).scan schemaId

/-- `get_table`. -/
def getTable (schemaId : SchemaId) (tableId : TableId) : Option TableMeta :=
  (cat.tables dbId schemaId)[tableId]?

/-- `find_database`. -/
def findDatabase (db : String) : Except NovaError DatabaseMeta :=
  match cat.listDatabases.find? (fun d => d.name = db) with
  | some d => .ok d
  | none => .error (.databaseNotFound db)

/-- `find_schema_meta`. -/
def findSchemaMeta (schema : String) : Except NovaError SchemaMeta :=
  match (cat.listSchemas dbId).find? (fun s => s.name = schema) with
  | some s => .ok s
  | none => .error (.schemaNotFound schema)

/-- `find_table`. -/
def findTable (db schema table : String) : Except NovaError TableMeta := do
  let dbMeta ← cat.findDatabase db
  let schemaMeta ← cat.findSchemaMeta dbMeta.id schema
  match (cat.listTables dbMeta.id schemaMeta.id).find? (fun t => t.name = table) with
  | some t => .ok t
  | none => .error (.tableNotFound table)

end Catalog

theorem Catalog.findTable_eq_ok_iff {cat : Catalog} {db schema table : String} {m : TableMeta} :
    cat.findTable db schema table = .ok m ↔
      ∃ d s, cat.findDatabase db = .ok d ∧ cat.findSchemaMeta d.id schema = .ok s ∧
        (cat.listTables d.id s.id).find? (fun t => t.name = table) = some m := by
  unfold Catalog.findTable
  rw [except_bind_eq_ok]
  refine exists_congr fun d => ?_
  rw [except_bind_eq_ok, exists_and_left]
  refine and_congr_right fun _ => exists_congr fun s => and_congr_right fun _ => ?_
  split
  · next t ht => rw [ht, Except.ok.injEq, Option.some.injEq]
  · next ht => simp [ht]

end NovaCore
