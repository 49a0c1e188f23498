import NovaCore.Metadata.Store
import NovaCore.Storage.Ops
import NovaCore.Storage.Query

/-!
# Operations of the metadata calls

A metadata call is a program over three kinds of indivisible operations: a storage operation, a
read of a metadata key or key range (or of table data by the query engine), and a transaction that
writes metadata.

## Main definitions

* `MetaQuery` : the metadata reads.
* `MetaTxn` : the metadata transactions; `MetaTxn.run` is their effect.
* `MetaStep` : what an operation can return and do to the store.

## Main results

* `metaStep_effect` : the three ways the store can change.
-/

namespace NovaCore

/-- A read of one metadata key or key range. -/
inductive MetaQuery
  | getUser (id : UserId)
  | userByName (name : String)
  | getRole (id : RoleId)
  | roleByName (name : String)
  | getObjectOwner (object : ObjectRef)
  | getGrant (role : RoleId) (object : ObjectRef)
  /-- The reads of `require_privilege`, taken together. -/
  | requirePrivilege (security : SecurityContext) (object : ObjectRef)
      (privilege : SecurityPrivilege)
  /-- The range scan of `rbac_clear_keys_for_object`. -/
  | scanGrantsByObject (object : ObjectRef)
  | functionById (id : FunctionId)
  | getFunction (dbId : DatabaseId) (schemaId : SchemaId) (id : FunctionId)
  | functionByName (dbId : DatabaseId) (schemaId : SchemaId) (key : String × String)
  | getStream (id : StreamId)
  | listDynamicTables (dbId : DatabaseId)
  | getTransaction (id : TxnId)
  /-- Run a query over registered tables. -/
  | runSql (engine : QueryEngine) (tables : List (TableMeta × List MicroPartitionMeta))
      (sql : String)

/-- What a read returns. -/
@[reducible] def MetaQuery.Ret : MetaQuery → Type
  | getUser _ => Option UserMeta
  | userByName _ => Option UserId
  | getRole _ => Option RoleMeta
  | roleByName _ => Option RoleId
  | getObjectOwner _ => Option ObjectOwnerMeta
  | getGrant .. => Option GrantSetMeta
  | requirePrivilege .. => Except NovaError Unit
  | scanGrantsByObject _ => List RoleId
  | functionById _ => Option (DatabaseId × SchemaId × FunctionId)
  | getFunction .. => Option FunctionMeta
  | functionByName .. => Option FunctionId
  | getStream _ => Option StreamMeta
  | listDynamicTables _ => List DynamicTableMeta
  | getTransaction _ => Option TransactionMeta
  | runSql .. => Except String (List RecordBatch)

/-- The answer to a read. -/
def MetaQuery.ask (st : Store) : (q : MetaQuery) → q.Ret
  | getUser id => st.users id
  | userByName name => st.userByName name
  | getRole id => st.catalog.roles id
  | roleByName name => st.roleByName name
  | getObjectOwner object => st.catalog.owners object
  | getGrant role object => st.catalog.grants role object
  | requirePrivilege security object privilege =>
    st.catalog.requirePrivilege security object privilege
  | scanGrantsByObject object => (st.grantByObject object).scanKeys object.objectId
  | functionById id => st.functionById id
  | getFunction dbId schemaId id => st.functions dbId schemaId id
  | functionByName dbId schemaId key => st.functionByName dbId schemaId key
  | getStream id => st.catalog.streams id
  | listDynamicTables dbId => st.catalog.dynamicTables.scanAll.filter fun dt => dt.dbId = dbId
  | getTransaction id => st.txns id
  | runSql engine tables sql => engine sql (tables.map st.sourceTable)

/-- A transaction that writes metadata. -/
inductive MetaTxn
  | takeNextId (counter : IdCounter)
  | createUser (user : UserMeta) (name : String)
  | createRole (role : RoleMeta) (name : String)
  | grantRoleToUser (u : UserId) (r grantedBy : RoleId)
  | revokeRoleFromUser (u : UserId) (r : RoleId)
  | grantRoleToRole (parent child grantedBy : RoleId)
  | revokeRoleFromRole (parent child : RoleId)
  | setObjectOwner (owner : ObjectOwnerMeta)
  | grantPrivileges (grant : GrantSetMeta)
  | revokePrivileges (r : RoleId) (object : ObjectRef) (privileges : PrivilegeSet)
  | createFunction (function : FunctionMeta)
  | replaceFunction (old function : FunctionMeta)
  | clearFunction (function : FunctionMeta) (functionId : FunctionId) (grantees : List RoleId)
  | bumpSecurityEpoch
  | setDatabase (db : DatabaseMeta)
  | clearDatabase (id : DatabaseId)
  | setSchema (schema : SchemaMeta)
  | clearSchema (dbId : DatabaseId) (id : SchemaId)
  | setTable (table : TableMeta)
  | setDynamicTable (dt : DynamicTableMeta)
  | clearDynamicTable (id : TableId)
  | createStream (stream : StreamMeta)
  | clearStream (stream : StreamMeta) (id : StreamId)
  | setStreamOffset (id : StreamId) (offset : StreamOffset)
  | clearTableVersion (t : TableId)
  | clearTableMps (t : TableId) (mpIds : List MpId)
  | insertMp (mp : MicroPartitionMeta)
  | clearMp (t : TableId) (id : MpId)
  | createClone (clone : CloneMeta)
  | setTransaction (id : TxnId) (txn : TransactionMeta)

/-- What a transaction returns. -/
@[reducible] def MetaTxn.Ret : MetaTxn → Type
  | takeNextId _ => ℕ
  | bumpSecurityEpoch => ℕ
  | _ => Unit

namespace Store

variable (st : Store)

/-! ### Catalogue keys -/

/-- The catalogue after `f`. -/
def modifyCatalog (f : Catalog → Catalog) : Store := { st with catalog := f st.catalog }

/-- The checked write of `create_stream`. -/
def createStream (stream : StreamMeta) : Except NovaError Store :=
  if st.catalog.streams stream.streamId ≠ none ∨
      st.catalog.streamByName stream.dbId stream.schemaId (Catalog.normalizeIdent stream.name)
        ≠ none then
    .error (.streamAlreadyExists stream.name)
  else .ok { st with
    catalog := { st.catalog with
      streams := Function.update st.catalog.streams stream.streamId (some stream)
      streamByName := Function.update st.catalog.streamByName stream.dbId
        (update₂ (st.catalog.streamByName stream.dbId) stream.schemaId
          (Catalog.normalizeIdent stream.name) (some stream.streamId)) }
    streamsByTable := update₂ st.streamsByTable stream.sourceTableId stream.streamId true }

/-- The batch of `drop_stream`. -/
def clearStream (stream : StreamMeta) (id : StreamId) : Store :=
  { st with
    catalog := { st.catalog with
      streams := Function.update st.catalog.streams id none
      streamByName := Function.update st.catalog.streamByName stream.dbId
        (update₂ (st.catalog.streamByName stream.dbId) stream.schemaId
          (Catalog.normalizeIdent stream.name) none) }
    streamOffsets := Function.update st.streamOffsets id none
    streamsByTable := update₂ st.streamsByTable stream.sourceTableId id false }

/-- The last transaction of `drop_table`: the index range of the table, and the records of the
micro-partitions that were active when the call started.  The range is inverted if the last byte of
the identifier is 255; it is assumed that such a range clears nothing and that the transaction
commits, where a FoundationDB that reports `inverted_range` would fail the call here. -/
def clearTableMps (t : TableId) (mpIds : List MpId) : Store :=
  { st with
    tableMps := if t % 256 = 255 then st.tableMps else Function.update st.tableMps t ∅
    mps := fun id => if id ∈ mpIds then none else st.mps id }

/-- The transaction of `delete_mp`: the record and the index entry of its table. -/
def clearMp (t : TableId) (id : MpId) : Store :=
  { st with
    mps := Function.update st.mps id none
    tableMps := Function.update st.tableMps t ((st.tableMps t).erase id) }

end Store

/-- The effect of a transaction. -/
def MetaTxn.run (st : Store) : (t : MetaTxn) → Except NovaError (t.Ret × Store)
  | takeNextId counter => st.takeNextId counter
  | createUser user name => (st.createUser user name).map ((), ·)
  | createRole role name => (st.createRole role name).map ((), ·)
  | grantRoleToUser u r grantedBy => (st.grantRoleToUser u r grantedBy).map ((), ·)
  | revokeRoleFromUser u r => (st.revokeRoleFromUser u r).map ((), ·)
  | grantRoleToRole parent child grantedBy =>
    (st.grantRoleToRole parent child grantedBy).map ((), ·)
  | revokeRoleFromRole parent child => (st.revokeRoleFromRole parent child).map ((), ·)
  | setObjectOwner owner => (st.setObjectOwner owner).map ((), ·)
  | grantPrivileges grant => (st.grantPrivileges grant).map ((), ·)
  | revokePrivileges r object privileges =>
    (st.revokePrivileges r object privileges).map ((), ·)
  | createFunction function => (st.createFunction function).map ((), ·)
  | replaceFunction old function => .ok ((), st.replaceFunction old function)
  | clearFunction function functionId grantees =>
    (st.clearFunction function functionId grantees).map ((), ·)
  | bumpSecurityEpoch => st.bumpSecurityEpoch
  | setDatabase db => .ok ((), st.modifyCatalog fun cat =>
      { cat with databases := cat.databases.insert db.id db })
  | clearDatabase id => .ok ((), st.modifyCatalog fun cat =>
      { cat with databases := cat.databases.erase id })
  | setSchema schema => .ok ((), st.modifyCatalog fun cat =>
      { cat with
        schemas := Function.update cat.schemas schema.dbId
          ((cat.schemas schema.dbId).insert schema.id schema) })
  | clearSchema dbId id => .ok ((), st.modifyCatalog fun cat =>
      { cat with schemas := Function.update cat.schemas dbId ((cat.schemas dbId).erase id) })
  | setTable table => .ok ((), st.modifyCatalog fun cat =>
      { cat with
        tables := update₂ cat.tables table.dbId table.schemaId
          ((cat.tables table.dbId table.schemaId).insert table.id table) })
  | setDynamicTable dt => .ok ((), st.modifyCatalog fun cat =>
      { cat with dynamicTables := cat.dynamicTables.insert dt.id dt })
  | clearDynamicTable id => .ok ((), st.modifyCatalog fun cat =>
      { cat with dynamicTables := cat.dynamicTables.erase id })
  | createStream stream => (st.createStream stream).map ((), ·)
  | clearStream stream id => .ok ((), st.clearStream stream id)
  | setStreamOffset id offset =>
    .ok ((), { st with streamOffsets := Function.update st.streamOffsets id (some offset) })
  | clearTableVersion t => .ok ((), { st with tableVersion := Function.update st.tableVersion t 0 })
  | clearTableMps t mpIds => .ok ((), st.clearTableMps t mpIds)
  | insertMp mp => .ok ((), { st with toWorld := st.toWorld.insertMp mp })
  | clearMp t id => .ok ((), st.clearMp t id)
  | createClone clone =>
    .ok ((), { st with clones := Function.update st.clones clone.cloneTableId (some clone) })
  | setTransaction id txn =>
    .ok ((), { st with txns := Function.update st.txns id (some txn) })

/-! ### Operations -/

/-- One indivisible operation of a metadata call. -/
inductive MetaOp
  | storage (o : Op)
  | query (q : MetaQuery)
  | txn (t : MetaTxn)

/-- What an operation returns when it succeeds. -/
@[reducible] def MetaOp.Ret : MetaOp → Type
  | storage o => o.Ret
  | query q => q.Ret
  | txn t => t.Ret

/-- What an operation returns. -/
abbrev MetaOp.Res (o : MetaOp) : Type := Except NovaError o.Ret

/-- A metadata call: a fallible program over the metadata operations. -/
abbrev Meta (α : Type) : Type := ExceptT NovaError (Prog MetaOp MetaOp.Res) α

variable (pq : Parquet)

/-- The result and effect of an operation under the choices `x`; a read or a transaction may fail
in the store. -/
def MetaOp.apply (st : Store) (o : MetaOp) (x : Choice) : Option (o.Res × Store) :=
  match o with
  | storage o => (o.apply pq st.toWorld x).map fun y => (y.1, { st with toWorld := y.2 })
  | query q =>
    match x.failure with
    | some e => some (.error e, st)
    | none => some (.ok (q.ask st), st)
  | txn t =>
    match x.failure with
    | some e => some (.error e, st)
    | none =>
      match t.run st with
      | .ok (a, st') => some (.ok a, st')
      | .error e => some (.error e, st)

/-- `MetaStep pq st o r st'` : the operation `o` can return `r` and turn the store into `st'`. -/
def MetaStep (st : Store) (o : MetaOp) (r : o.Res) (st' : Store) : Prop :=
  ∃ x, o.apply pq st x = some (r, st')

variable {pq} {st st' : Store}

/-- The ways the store can change. -/
inductive MetaEffect (pq : Parquet) (st : Store) : Event MetaOp MetaOp.Res → Store → Prop
  | query {q : MetaQuery} {r : Except NovaError q.Ret} (h : ∀ a, r = .ok a → a = q.ask st) :
      MetaEffect pq st ⟨.query q, r⟩ st
  | failed {t : MetaTxn} {e : NovaError} : MetaEffect pq st ⟨.txn t, .error e⟩ st
  | txn {t : MetaTxn} {a : t.Ret} {st' : Store} (h : t.run st = .ok (a, st')) :
      MetaEffect pq st ⟨.txn t, .ok a⟩ st'
  | storage {o : Op} {r : o.Res} {w' : World} (h : Step pq st.toWorld o r w') :
      MetaEffect pq st ⟨.storage o, r⟩ { st with toWorld := w' }

/-- **What an operation can do to the store.** -/
theorem metaStep_effect {o : MetaOp} {r : o.Res} (h : MetaStep pq st o r st') :
    MetaEffect pq st ⟨o, r⟩ st' := by
  obtain ⟨x, hx⟩ := h
  cases o with
  | storage o =>
    obtain ⟨⟨r', w'⟩, hs, he⟩ := Option.map_eq_some_iff.1 hx
    cases he
    exact .storage ⟨x, hs⟩
  | query q =>
    simp only [MetaOp.apply] at hx
    split at hx
    · cases hx
      exact .query fun a ha => by cases ha
    · cases hx
      exact .query fun a ha => (Except.ok.inj ha).symm
  | txn t =>
    simp only [MetaOp.apply] at hx
    split at hx
    · cases hx
      exact .failed
    · split at hx
      · next heq =>
        cases hx
        exact .txn heq
      · cases hx
        exact .failed

/-- The operation is a commit of a statement. -/
def MetaOp.isCommit : MetaOp → Bool
  | storage o => o.isCommit
  | _ => false

theorem metaStep_unique {o : MetaOp} {r : o.Res} {st1 st2 : Store} (ho : o.isCommit = false)
    (h1 : MetaStep pq st o r st1) (h2 : MetaStep pq st o r st2) : st1 = st2 := by
  cases metaStep_effect h1 with
  | query => cases metaStep_effect h2; rfl
  | failed => cases metaStep_effect h2; rfl
  | txn h =>
    cases metaStep_effect h2 with
    | txn h' => exact (Prod.ext_iff.1 (Except.ok.inj (h.symm.trans h'))).2
  | storage h =>
    cases metaStep_effect h2 with
    | storage h' => rw [step_unique ho h h']

end NovaCore
