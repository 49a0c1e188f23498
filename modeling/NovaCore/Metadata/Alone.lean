import NovaCore.Executor.Alone
import NovaCore.Metadata.Calls

/-!
# Metadata calls that run alone

What the operations of a metadata call return and do when nothing else runs.

## Main results

* `exec_ask_iff`, `exec_transact_iff`, `exec_storage_iff` : the three kinds of operations.
* `exec_createTable`, `findTable_addTable` : a new table, and finding it by name.
-/

namespace NovaCore

variable {pq : Parquet} {st st' : Store}

theorem exec_ask_iff {q : MetaQuery} {a : q.Ret} :
    Ends (MetaStep pq) st (ask q) a st' ↔ a = q.ask st ∧ st' = st := by
  refine execE_call_iff.trans ⟨fun h => ?_, ?_⟩
  · cases metaStep_effect h with
    | query ha => exact ⟨ha a rfl, rfl⟩
  · rintro ⟨rfl, rfl⟩
    exact ⟨{}, rfl⟩

theorem exec_transact_iff {t : MetaTxn} {a : t.Ret} :
    Ends (MetaStep pq) st (transact t) a st' ↔ t.run st = .ok (a, st') := by
  refine execE_call_iff.trans ⟨fun h => ?_, fun h => ⟨{}, ?_⟩⟩
  · cases metaStep_effect h with
    | txn hrun => exact hrun
  · simp [MetaOp.apply, h]

/-- A program of storage operations acts on the shared state and leaves the rest. -/
theorem exec_storage_iff {α : Type} {p : Nova α} {r : Except NovaError α} :
    Exec (MetaStep pq) st (storage p).run r st' ↔
      ∃ w', Exec (Step pq) st.toWorld p.run r w' ∧ st' = { st with toWorld := w' } := by
  refine exec_embed_iff (f := MetaOp.storage) Store.toWorld (fun st w => { st with toWorld := w })
    (fun v o r v' => ?_) (fun _ r => ⟨r, rfl⟩) (fun _ _ => rfl) (fun _ _ _ => rfl) fun _ => rfl
  constructor
  · intro h
    cases metaStep_effect h with
    | storage hs => exact ⟨_, hs, rfl⟩
  · rintro ⟨w', ⟨x, hx⟩, rfl⟩
    exact ⟨x, by simp [MetaOp.apply, hx]⟩

/-- A storage operation that only reads. -/
theorem exec_storage_read_iff {o : Op} {a b : o.Ret}
    (ho : ∀ x, o.perform pq x st.toWorld = some (.ok a, st.toWorld)) :
    Ends (MetaStep pq) st (storage (await o)) b st' ↔ b = a ∧ st' = st := by
  refine exec_storage_iff.trans ?_
  constructor
  · rintro ⟨w', he, rfl⟩
    obtain ⟨rfl, rfl⟩ := (exec_await_iff ho).1 he
    exact ⟨rfl, rfl⟩
  · rintro ⟨rfl, rfl⟩
    exact ⟨_, (exec_await_iff ho).2 ⟨rfl, rfl⟩, rfl⟩

/-- Reading the clock changes nothing. -/
theorem exec_now {now : Timestamp}
    (he : Ends (MetaStep pq) st (storage (await .nowMicros)) now st') : st' = st := by
  obtain ⟨w', hw, rfl⟩ := exec_storage_iff.1 he
  obtain ⟨x, hx⟩ := step_ok (execE_call_iff.1 hw)
  cases hx
  rfl

/-- `get_active_mps` that runs alone. -/
theorem exec_storage_getActiveMps_iff {t : TableId} {mps : List MicroPartitionMeta} :
    Ends (MetaStep pq) st (storage (getActiveMps t)) mps st' ↔
      mps = st.getActiveMps t ∧ st' = st := by
  simp only [exec_storage_iff, exec_getActiveMps_iff]
  constructor
  · rintro ⟨w', ⟨rfl, rfl⟩, rfl⟩
    exact ⟨rfl, rfl⟩
  · rintro ⟨rfl, rfl⟩
    exact ⟨_, ⟨rfl, rfl⟩, rfl⟩

/-! ### Creating databases, schemas and tables -/

/-- The store after `create_table` gave a table the next identifier. -/
def Store.addTable (st : Store) (table : TableMeta) : Store :=
  { st with
    nextId := Function.update st.nextId .table (st.nextId .table + 1)
    catalog := { st.catalog with
      tables := update₂ st.catalog.tables table.dbId table.schemaId
        ((st.catalog.tables table.dbId table.schemaId).insert (st.nextId .table + 1)
          { table with id := st.nextId .table + 1 }) } }

theorem exec_createTable {table : TableMeta} (hid : table.id = 0)
    (he : Ends (MetaStep pq) st (createTable table) () st') : st' = st.addTable table := by
  unfold createTable at he
  rw [if_pos hid] at he
  obtain ⟨n, st1, htake, hset⟩ := execE_bind_iff.1 he
  obtain ⟨rfl, rfl⟩ := Store.takeNextId_eq_ok (exec_transact_iff.1 htake)
  cases exec_transact_iff.1 hset
  rfl

/-- Once a table is stored under a name that was not in use, the name leads to it. -/
theorem findTable_addTable {db schema : String} {table m : TableMeta}
    (hname : ∀ m, st.catalog.findTable db schema table.name ≠ .ok m)
    (h : (st.addTable table).catalog.findTable db schema table.name = .ok m) :
    m.id = st.nextId .table + 1 := by
  obtain ⟨d, s, hd, hs, hfind⟩ := Catalog.findTable_eq_ok_iff.1 h
  have hm := List.mem_of_find?_eq_some hfind
  have hmname : m.name = table.name := by simpa using List.find?_some hfind
  -- a table found before under the name contradicts the assumption
  have hold : ∀ k : ℕ, s.id % 256 ≠ 255 → (st.catalog.tables d.id s.id)[k]? = some m → False := by
    intro k hq hk
    cases hf : (st.catalog.listTables d.id s.id).find? (fun t => t.name = table.name) with
    | some m' => exact hname m' (Catalog.findTable_eq_ok_iff.2 ⟨d, s, hd, hs, hf⟩)
    | none =>
      have hmem : m ∈ st.catalog.listTables d.id s.id := OMap.mem_scan.2 ⟨hq, k, hk⟩
      exact absurd hmname (by simpa using List.find?_eq_none.1 hf m hmem)
  obtain ⟨hq, k, hk⟩ := OMap.mem_scan.1 hm
  have hk : (update₂ st.catalog.tables table.dbId table.schemaId
      ((st.catalog.tables table.dbId table.schemaId).insert (st.nextId .table + 1)
        { table with id := st.nextId .table + 1 }) d.id s.id)[k]? = some m := hk
  rw [update₂_apply] at hk
  split_ifs at hk with hkey
  · obtain ⟨hd', hs'⟩ := hkey
    rw [Std.ExtTreeMap.getElem?_insert] at hk
    split_ifs at hk with hnew
    · cases hk
      rfl
    · rw [← hd', ← hs'] at hk
      exact (hold k hq hk).elim
  · exact (hold k hq hk).elim

end NovaCore
