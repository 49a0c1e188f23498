import NovaCore.Executor.PrimaryRole
import NovaCore.Executor.Session

/-!
# DROP TABLE

The branch of `execute_with_context` for DROP TABLE checks OWNERSHIP and calls `drop_table`, which
clears the version counter, the index of micro-partitions and the records of those that are active.
The record of the table, superseded micro-partitions, streams, the owner and grants are left, so the
name still leads to the table and its schema cannot be dropped.

## Main definitions

* `DropComplete` : nothing refers to the dropped table, and everything else is as it was.
* `Store.dropTable` : the store that `drop_table` leaves.

## Main results

* `exec_dropTable_iff`, `exec_dropTableStmt_iff` : what `drop_table` and the statement do.
* `dropTable_complete_iff` : a DROP TABLE is complete exactly where it is refused.
-/

namespace NovaCore

variable {pq : Parquet} {st st' : Store}

/-- What DROP TABLE should have done to the table `m`: no key refers to it, the rest is unchanged,
and a schema that had no other table can be dropped. -/
structure DropComplete (pq : Parquet) (st st' : Store) (m : TableMeta) : Prop where
  unlisted : ∀ dbId schemaId, ∀ t ∈ st'.catalog.listTables dbId schemaId, t.id ≠ m.id
  notFound : ∀ db schema table t, st'.catalog.findTable db schema table = .ok t → t.id ≠ m.id
  mps : ∀ id mp, st'.mps id = some mp → mp.tableId ≠ m.id
  tableMps : st'.tableMps m.id = ∅
  streams : ∀ id stream, st'.catalog.streams id = some stream → stream.sourceTableId ≠ m.id
  streamsByTable : ∀ id, st'.streamsByTable m.id id = false
  owner : st'.catalog.owners ⟨.table, m.id⟩ = none
  grants : ∀ r, st'.catalog.grants r ⟨.table, m.id⟩ = none
  grantByObject : st'.grantByObject ⟨.table, m.id⟩ = ∅
  otherTables : ∀ dbId schemaId t, t.id ≠ m.id →
    (t ∈ st'.catalog.listTables dbId schemaId ↔ t ∈ st.catalog.listTables dbId schemaId)
  otherMps : ∀ id mp, mp.tableId ≠ m.id → (st'.mps id = some mp ↔ st.mps id = some mp)
  otherTableMps : ∀ t, t ≠ m.id → st'.tableMps t = st.tableMps t
  otherStreams : ∀ id stream, stream.sourceTableId ≠ m.id →
    (st'.catalog.streams id = some stream ↔ st.catalog.streams id = some stream)
  otherOffsets : ∀ id stream, st.catalog.streams id = some stream → stream.sourceTableId ≠ m.id →
    st'.streamOffsets id = st.streamOffsets id
  otherGrants : ∀ r object, object ≠ ⟨.table, m.id⟩ →
    st'.catalog.grants r object = st.catalog.grants r object
  otherGrantByObject : ∀ object, object ≠ ⟨.table, m.id⟩ →
    st'.grantByObject object = st.grantByObject object
  dropSchema : ∀ dbId schemaId, (∀ t ∈ st.catalog.listTables dbId schemaId, t.id = m.id) →
    ∃ st'', Exec (MetaStep pq) st' (dropSchema dbId schemaId).run (.ok ()) st''

/-! ### What the statement does -/

/-- The store that `drop_table` leaves. -/
def Store.dropTable (st : Store) (t : TableId) : Store :=
  { st with tableVersion := Function.update st.tableVersion t 0 }.clearTableMps t
    ((st.getActiveMps t).map MicroPartitionMeta.mpId)

theorem exec_dropTable_iff {t : TableId} {a : Unit} :
    Ends (MetaStep pq) st (dropTable t) a st' ↔ st' = st.dropTable t := by
  unfold dropTable
  simp only [execE_bind_iff, exec_storage_getActiveMps_iff]
  constructor
  · rintro ⟨mps, _, ⟨rfl, rfl⟩, _, st1, hversion, hmps⟩
    cases exec_transact_iff.1 hversion
    cases exec_transact_iff.1 hmps
    rfl
  · rintro rfl
    exact ⟨_, _, ⟨rfl, rfl⟩, (), _, exec_transact_iff.2 rfl, exec_transact_iff.2 rfl⟩

/-- **What DROP TABLE does**: it succeeds exactly where it is authorized, and leaves the store of
`drop_table`. -/
theorem exec_dropTableStmt_iff {security : SecurityContext} {db schema table : String} :
    (∃ q, Ends (MetaStep pq) st (dropTableStmt security db schema table) q st') ↔
      st.catalog.authorizeTable security db schema table .ownership = .ok () ∧
        ∃ m, st.catalog.findTable db schema table = .ok m ∧ st' = st.dropTable m.id := by
  unfold dropTableStmt
  simp only [execE_bind_iff, exec_authorizeTable_iff, exec_findTable_iff, exec_dropTable_iff,
    execE_pure_iff]
  constructor
  · rintro ⟨q, _, _, ⟨hauth, rfl⟩, m, _, ⟨hm, rfl⟩, _, _, rfl, -, rfl⟩
    exact ⟨hauth, m, hm, rfl⟩
  · rintro ⟨hauth, m, hm, rfl⟩
    exact ⟨_, (), st, ⟨hauth, rfl⟩, m, st, ⟨hm, rfl⟩, (), _, rfl, rfl, rfl⟩

/-- A schema that lists a table is not dropped. -/
theorem not_exec_dropSchema {dbId : DatabaseId} {schemaId : SchemaId} {t : TableMeta}
    (ht : t ∈ st.catalog.listTables dbId schemaId) :
    ¬Ends (MetaStep pq) st (dropSchema dbId schemaId) () st' := by
  intro he
  obtain ⟨tables, st1, hlist, he⟩ := execE_bind_iff.1 he
  obtain ⟨rfl, rfl⟩ := (exec_storage_read_iff fun _ => rfl).1 hlist
  rw [if_pos (List.ne_nil_of_mem ht)] at he
  exact execE_throw_false he

/-- **DROP TABLE is complete exactly where it is refused**: where it may run, its name still leads
to the table afterwards. -/
theorem dropTable_complete_iff (pq : Parquet) (security : SecurityContext)
    (db schema table : String) (st : Store) :
    (∀ m q st', st.catalog.findTable db schema table = .ok m →
      Exec (MetaStep pq) st (dropTableStmt security db schema table).run (.ok q) st' →
      DropComplete pq st st' m) ↔
    st.catalog.authorizeTable security db schema table .ownership ≠ .ok () := by
  constructor
  · intro hcomplete hauth
    obtain ⟨_, -, hrest⟩ := except_bind_eq_ok.1 hauth
    obtain ⟨_, -, hrest⟩ := except_bind_eq_ok.1 hrest
    obtain ⟨m, hm, -⟩ := except_bind_eq_ok.1 hrest
    obtain ⟨q, he⟩ := exec_dropTableStmt_iff.2 ⟨hauth, m, hm, rfl⟩
    exact (hcomplete m q _ hm he).notFound db schema table m hm rfl
  · intro hauth m q st' _ he
    exact (hauth (exec_dropTableStmt_iff.1 ⟨q, he⟩).1).elim

/-! ### A table with everything -/

/-- The table of `oneRow` with a superseded micro-partition, a stream, an owner and a grant. -/
def usedTable : Store :=
  { emptyStore with
    toWorld := { oneRow with
      catalog := { oneRow.catalog with
        streams := fun id => if id = 3 then some ⟨3, 1, 1, 1, "r"⟩ else none
        owners := fun object =>
          if object = ⟨.table, 1⟩ then some ⟨object, accountadminRoleId, rootUserId⟩ else none
        grants := fun r object =>
          if r = publicRoleId ∧ object = ⟨.table, 1⟩ then
            some ⟨r, object, ⟨SecurityPrivilege.select.bit⟩, .empty, accountadminRoleId⟩
          else none }
      mps := fun k =>
        if k = 6 then some { sampleMp with mpId := 6, supersededBy := some 7, active := false }
        else oneRow.mps k
      tableMps := fun t => (oneRow.tableMps t).insert 6 () }
    streamsByTable := fun t id => t = 1 && id = 3
    grantByObject := fun object => if object = ⟨.table, 1⟩ then
      (∅ : OMap ℕ).insert publicRoleId SecurityPrivilege.select.bit else ∅ }

/-- After a DROP TABLE that succeeded the table is found, its superseded micro-partition, stream,
owner and grant are there, and its schema cannot be dropped. -/
theorem dropTable_leaves_usedTable : ∃ q st',
    Exec (MetaStep .verbatim) usedTable (dropTableStmt rootSession "d" "s" "t").run (.ok q) st' ∧
      st'.catalog.findTable "d" "s" "t" = .ok sampleTable ∧
      st'.mps 7 = none ∧ (st'.mps 6).map MicroPartitionMeta.tableId = some sampleTable.id ∧
      (st'.catalog.streams 3).map StreamMeta.sourceTableId = some sampleTable.id ∧
      st'.streamsByTable sampleTable.id 3 = true ∧
      st'.catalog.owners ⟨.table, sampleTable.id⟩ ≠ none ∧
      st'.catalog.grants publicRoleId ⟨.table, sampleTable.id⟩ ≠ none ∧
      st'.grantByObject ⟨.table, sampleTable.id⟩ ≠ ∅ ∧
      (∀ st'', ¬Exec (MetaStep .verbatim) st' (dropSchema 1 1).run (.ok ()) st'') ∧
      ¬DropComplete .verbatim usedTable st' sampleTable := by
  have hauth : usedTable.catalog.authorizeTable rootSession "d" "s" "t" .ownership = .ok () := by
    decide +kernel
  have hfind : usedTable.catalog.findTable "d" "s" "t" = .ok sampleTable := by decide +kernel
  have hlist : sampleTable ∈ usedTable.catalog.listTables 1 1 := by decide +kernel
  obtain ⟨q, he⟩ := exec_dropTableStmt_iff.2 ⟨hauth, sampleTable, hfind, rfl⟩
  refine ⟨q, _, he, hfind, by decide +kernel, by decide +kernel, rfl, rfl, by decide, by decide,
    by decide +kernel, fun st'' => not_exec_dropSchema hlist, fun hcomplete => ?_⟩
  exact hcomplete.notFound "d" "s" "t" sampleTable hfind rfl

end NovaCore
