import NovaCore.Executor.PrimaryRole

/-!
# Dynamic tables

A dynamic table is a query and an output table.  A refresh registers every table of every database
that it can list with the query engine, runs the query and writes one micro-partition per batch of
the answer: all of them with the identifier 0, not active, and with no commit time.  A full refresh
then supersedes micro-partitions of the output table; an incremental one registers only
micro-partitions that were committed after a time, which is always 0.

## Main definitions

* `doFullRefresh`, `doIncrementalRefresh` : the two refreshes.
* `execRefreshDynamicTableMeta`, `execRefreshDynamicTable` : a refresh by the scheduler and by
  ALTER DYNAMIC TABLE, with the status of the dynamic table around it.
* `execSetDtScheduler`, `execDropDynamicTable` : SUSPEND, RESUME and DROP.
* `Store.FullBatches`, `Store.IncrementalBatches` : the answers a refresh can get.

## Main results

* `exec_registerTables_iff` : reads that fail are passed over, so any part of the tables may be
  registered.
* `exec_doFullRefresh_iff`, `exec_doIncrementalRefresh_iff` : what a refresh that succeeds does.
-/

namespace NovaCore

open List Option Function Prog World

/-! ### Results that are looked at or dropped -/

/-- Run `p` and return how it ended. -/
def attempt {α : Type} (p : Meta α) : Meta (Except NovaError α) := ExceptT.mk do
  return .ok (← p.run)

/-- `p.await.unwrap_or_default()` for a list. -/
def orEmpty {α : Type} (p : Meta (List α)) : Meta (List α) := do
  return (← okOrNone p).getD []

/-! ### Metadata calls -/

variable (dt : DynamicTableMeta)

/-- `update_dynamic_table`: the record is stored whatever is there. -/
def updateDynamicTable : Meta Unit := createDynamicTable dt

/-- `begin_dynamic_table_refresh`. -/
def beginDynamicTableRefresh : Meta DynamicTableMeta := do
  let dt := { dt with refreshStatus := .running }
  updateDynamicTable dt
  return dt

/-- `finish_dynamic_table_refresh`. -/
def finishDynamicTableRefresh : Meta Unit := do
  let now ← storage (await .nowMicros)
  updateDynamicTable { dt with refreshStatus := .success, lastRefreshTs := some now }

/-! ### The refreshes -/

/-- A table and the micro-partitions it is registered with. -/
abbrev Registration := TableMeta × List MicroPartitionMeta

variable (keep : MicroPartitionMeta → Bool)

/-- Body of the loop over tables of both refreshes: the table is registered with those of its
active micro-partitions that `keep` selects, if there are any. -/
def registerTable (registered : List Registration)
    (table : TableMeta) : Meta (List Registration) := do
  let mps ← orEmpty (storage (getActiveMps table.id))
  let kept := mps.filter keep
  return if kept = [] then registered else registered ++ [(table, kept)]

/-- Body of the loop over schemas. -/
def registerSchema (dbId : DatabaseId)
    (registered : List Registration) (schema : SchemaMeta) : Meta (List Registration) := do
  let tables ← orEmpty (storage (await (.listTables dbId schema.id)))
  tables.foldlM (registerTable keep) registered

/-- Body of the loop over databases. -/
def registerDatabase (registered : List Registration)
    (db : DatabaseMeta) : Meta (List Registration) := do
  let schemas ← orEmpty (storage (await (.listSchemas db.id)))
  schemas.foldlM (registerSchema keep db.id) registered

/-- The loops of both refreshes that register all the tables they find. -/
def registerTables : Meta (List Registration) := do
  let dbs ← orEmpty (storage (await .listDatabases))
  dbs.foldlM (registerDatabase keep) []

variable (engine : QueryEngine)

/-- `ctx.sql(..)` and `df.collect()`. -/
def runSql (tables : List Registration) (sql : String) : Meta (List RecordBatch) := do
  match ← ask (.runSql engine tables sql) with
  | .ok batches => return batches
  | .error message => throw (.internal message)

/-- Body of the loop of both refreshes that writes the batches. -/
def writeOutputBatch (outputTableId : TableId) (batch : RecordBatch) : Meta Unit := do
  let mp ← storage (MpWriter.write outputTableId 0 0 [batch] 1)
  insertMp mp

/-- Body of the loop of `do_full_refresh` that supersedes the old micro-partitions. -/
def supersedeOld (newMps : List MicroPartitionMeta) (old : MicroPartitionMeta) : Meta Unit :=
  match newMps.find? fun new => new.mpId ≠ old.mpId with
  | some new => ignoreResult (storage (markSuperseded old.mpId new.mpId))
  | none => return ()

/-- The number of rows of all batches. -/
def totalRows (batches : List RecordBatch) : ℕ := (batches.map RecordBatch.numRows).sum

/-- `do_full_refresh`. -/
def doFullRefresh (queryDefinition : String) (outputTableId : TableId) : Meta ℕ := do
  let tables ← registerTables fun _ => true
  let batches ← runSql engine tables queryDefinition
  batches.forM (writeOutputBatch outputTableId)
  -- both lists are read after the new micro-partitions are stored
  let oldMps ← storage (getActiveMps outputTableId)
  let newMps ← storage (getActiveMps outputTableId)
  oldMps.forM (supersedeOld newMps)
  return totalRows batches

/-- `do_incremental_refresh`. -/
def doIncrementalRefresh (queryDefinition : String)
    (outputTableId : TableId) (lastTs : Timestamp) : Meta ℕ := do
  let tables ← registerTables fun mp => lastTs < mp.commitTs
  if tables = [] then
    return 0
  let batches ← runSql engine tables queryDefinition
  batches.forM (writeOutputBatch outputTableId)
  return totalRows batches

/-- `s.contains(part)`. -/
def containsText (s part : String) : Bool := decide (part.toList <:+: s.toList)

variable (upper : String → String)

/-- Whether a refresh is incremental; `upper` is `str::to_uppercase`. -/
def usesIncremental (queryDefinition : String) : DtRefreshMode → Bool
  | .incremental => true
  | .full => false
  | .auto => ["GROUP BY", "COUNT(", "SUM(", "AVG(", "MIN(", "MAX(", "DISTINCT", "HAVING",
      "OVER ("].all fun word => !containsText (upper queryDefinition) word

/-- `exec_refresh_dynamic_table_by_id`; the time that an incremental refresh starts from is looked
up nowhere. -/
def execRefreshDynamicTableById (engine : QueryEngine) (queryDefinition : String)
    (outputTableId : TableId) (refreshMode : DtRefreshMode) : Meta ℕ := do
  if usesIncremental upper queryDefinition refreshMode then
    let _ ← okOrNone (storage (await .listDatabases))
    doIncrementalRefresh engine queryDefinition outputTableId 0
  else
    doFullRefresh engine queryDefinition outputTableId

/-- The refresh of a dynamic table. -/
def DynamicTableMeta.refresh (engine : QueryEngine) (dt : DynamicTableMeta) : Meta ℕ :=
  execRefreshDynamicTableById upper engine dt.queryDefinition dt.outputTableId dt.refreshMode

/-- `exec_refresh_dynamic_table_meta`. -/
def execRefreshDynamicTableMeta (engine : QueryEngine)
    (dt : DynamicTableMeta) : Meta QueryResult := do
  let started ← beginDynamicTableRefresh dt
  match ← attempt (started.refresh upper engine) with
  | .ok rows =>
    finishDynamicTableRefresh started
    return .success ("Dynamic table refreshed (" ++ toString rows ++ " rows)")
  | .error e =>
    let now ← storage (await .nowMicros)
    updateDynamicTable { started with refreshStatus := .failed e, lastRefreshTs := some now }
    throw e

/-! ### Statements on dynamic tables -/

variable (db name : String)

/-- The lookups of `exec_refresh_dynamic_table`, `exec_set_dt_scheduler` and
`exec_drop_dynamic_table`: the schema plays no part. -/
def findDynamicTableInDb : Meta DynamicTableMeta := do
  let dbMeta ← findDatabase db
  match (← ask (.listDynamicTables dbMeta.id)).find? (fun dt => dt.name = name) with
  | some dt => return dt
  | none => throw (.internal ("dynamic table '" ++ name ++ "' not found"))

/-- The status that a refresh leaves. -/
def DtRefreshStatus.ofResult {α : Type} : Except NovaError α → DtRefreshStatus
  | .ok _ => .success
  | .error e => .failed e

/-- `exec_refresh_dynamic_table`. -/
def execRefreshDynamicTable (engine : QueryEngine) (db name : String) : Meta QueryResult := do
  let found ← findDynamicTableInDb db name
  let dt := { found with refreshStatus := .running }
  updateDynamicTable dt
  let result ← attempt (dt.refresh upper engine)
  let now ← storage (await .nowMicros)
  updateDynamicTable { dt with refreshStatus := .ofResult result, lastRefreshTs := some now }
  let rows ← liftExcept result
  return .success ("Dynamic table '" ++ name ++ "' refreshed (" ++ toString rows ++ " rows)")

/-- `exec_set_dt_scheduler`. -/
def execSetDtScheduler (enabled : Bool) : Meta QueryResult := do
  let dt ← findDynamicTableInDb db name
  updateDynamicTable { dt with schedulerEnabled := enabled }
  return .success ("Dynamic table '" ++ name ++ "' scheduler " ++
    if enabled then "RESUMED" else "SUSPENDED")

/-- `exec_drop_dynamic_table`. -/
def execDropDynamicTable : Meta QueryResult := do
  let dt ← findDynamicTableInDb db name
  let mps ← orEmpty (storage (getActiveMps dt.outputTableId))
  mps.forM fun mp => ignoreResult (MetadataStore.deleteMp mp.mpId)
  ignoreResult (dropTable dt.outputTableId)
  dropDynamicTable dt.id
  return .success ("Dynamic table '" ++ name ++ "' dropped")

/-- `find_dynamic_table`. -/
def findDynamicTable (db schema name : String) : Meta DynamicTableMeta := do
  let dbMeta ← findDatabase db
  let schemaMeta ← findSchemaMeta dbMeta.id schema
  match (← ask (.listDynamicTables dbMeta.id)).find?
    (fun dt => dt.schemaId = schemaMeta.id && dt.name = name) with
  | some dt => return dt
  | none => throw (.internal ("dynamic table '" ++ name ++ "' not found"))

/-- What a statement on a dynamic table does. -/
inductive DtAction
  | refresh
  | suspend
  | resume
  | drop
  deriving DecidableEq

/-- The privilege that a statement on a dynamic table needs. -/
def DtAction.privilege : DtAction → SecurityPrivilege
  | drop => .ownership
  | _ => .operate

/-- The function that a statement on a dynamic table calls. -/
def DtAction.exec (engine : QueryEngine) (db name : String) :
    DtAction → Meta QueryResult
  | refresh => execRefreshDynamicTable upper engine db name
  | suspend => execSetDtScheduler db name false
  | resume => execSetDtScheduler db name true
  | drop => execDropDynamicTable db name

/-- ALTER DYNAMIC TABLE … REFRESH, SUSPEND or RESUME, and DROP DYNAMIC TABLE. -/
def dynamicTableStmt (engine : QueryEngine) (security : SecurityContext)
    (db schema name : String) (action : DtAction) : Meta QueryResult := do
  let dt ← findDynamicTable db schema name
  requirePrivilege security ⟨.dynamicTable, dt.id⟩ action.privilege
  action.exec upper engine db name

/-! ### What is read -/

/-- The tables that the loops register if no read fails. -/
def World.sources (w : World) (keep : MicroPartitionMeta → Bool) : List Registration :=
  w.catalog.listDatabases.flatMap fun db => (w.catalog.listSchemas db.id).flatMap fun schema =>
    (w.catalog.listTables db.id schema.id).flatMap fun table =>
      if (w.getActiveMps table.id).filter keep = [] then []
      else [(table, (w.getActiveMps table.id).filter keep)]

variable (st : Store)

/-- The answers that a full refresh can get: the query over some of the tables. -/
def Store.FullBatches (engine : QueryEngine) (sql : String) (batches : List RecordBatch) : Prop :=
  ∃ tables : List Registration, tables.Sublist (st.sources fun _ => true) ∧
    engine sql (tables.map st.sourceTable) = .ok batches

/-- The answers that an incremental refresh can get: nothing if no table is registered, or the query
over some of the tables. -/
def Store.IncrementalBatches (engine : QueryEngine) (sql : String)
    (lastTs : Timestamp) (batches : List RecordBatch) : Prop :=
  batches = [] ∨ ∃ tables : List Registration,
    tables.Sublist (st.sources fun mp => lastTs < mp.commitTs) ∧ tables ≠ [] ∧
      engine sql (tables.map st.sourceTable) = .ok batches

section

variable {pq : Parquet} {st st' : Store} {α : Type}

theorem exec_attempt_iff {p : Meta α} {r : Except NovaError α} :
    Ends (MetaStep pq) st (attempt p) r st' ↔ Exec (MetaStep pq) st p.run r st' := by
  refine exec_bind_iff.trans ⟨?_, fun he => ⟨r, st', he, Exec.ret⟩⟩
  rintro ⟨r', st1, he, hret⟩
  obtain ⟨hr, rfl⟩ := exec_ret_iff.1 hret
  cases hr
  exact he

theorem exec_okOrNone_iff {p : Meta α} {o : Option α} : Ends (MetaStep pq) st (okOrNone p) o st' ↔
      ∃ r, Exec (MetaStep pq) st p.run r st' ∧ o = r.toOption := by
  refine exec_bind_iff.trans ⟨?_, ?_⟩
  · rintro ⟨r, st1, he, hret⟩
    obtain ⟨hr, rfl⟩ := exec_ret_iff.1 hret
    exact ⟨r, he, Except.ok.inj hr⟩
  · rintro ⟨r, he, rfl⟩
    exact ⟨r, st', he, Exec.ret⟩

theorem exec_ignoreResult_iff {p : Meta α} {a : Unit} :
    Ends (MetaStep pq) st (ignoreResult p) a st' ↔ ∃ r, Exec (MetaStep pq) st p.run r st' := by
  refine exec_bind_iff.trans ⟨?_, fun ⟨r, he⟩ => ⟨r, st', he, Exec.ret⟩⟩
  rintro ⟨r, st1, he, hret⟩
  obtain ⟨-, rfl⟩ := exec_ret_iff.1 hret
  exact ⟨r, he⟩

/-- A read whose failure is passed over returns what there is, or nothing. -/
theorem exec_orEmpty_iff {p : Nova (List α)} {l l0 : List α}
    (hp : ∀ l w', Ends (Step pq) st.toWorld p l w' ↔ l = l0 ∧ w' = st.toWorld)
    (hreads : p.run.Issues Op.Reads)
    (hfail : ∃ e, Exec (Step pq) st.toWorld p.run (.error e) st.toWorld) :
    Ends (MetaStep pq) st (orEmpty (storage p)) l st' ↔ (l = l0 ∨ l = []) ∧ st' = st := by
  unfold orEmpty
  simp only [execE_bind_iff, exec_okOrNone_iff, exec_storage_iff]
  constructor
  · rintro ⟨_, _, ⟨r, ⟨w', he, rfl⟩, rfl⟩, hret⟩
    obtain ⟨rfl, rfl⟩ := execE_pure_iff.1 hret
    obtain rfl := he.eq_of_reads hreads
    cases r with
    | ok l =>
      obtain ⟨rfl, -⟩ := (hp _ _).1 he
      exact ⟨.inl rfl, rfl⟩
    | error e => exact ⟨.inr rfl, rfl⟩
  · rintro ⟨rfl | rfl, rfl⟩
    · exact ⟨some l, _, ⟨.ok l, ⟨_, (hp _ _).2 ⟨rfl, rfl⟩, rfl⟩, rfl⟩, execE_pure_iff.2 ⟨rfl, rfl⟩⟩
    · obtain ⟨e, he⟩ := hfail
      exact ⟨none, _, ⟨.error e, ⟨_, he, rfl⟩, rfl⟩, execE_pure_iff.2 ⟨rfl, rfl⟩⟩

theorem getActiveMps_reads {t : TableId} : (getActiveMps t).run.Issues Op.Reads := by
  refine issuesE_bind (issuesE_call fun _ => rfl) fun ids => ?_
  refine issuesE_foldlM fun _ _ => ?_
  exact issuesE_bind (issuesE_call fun _ => rfl) fun _ => issuesE_pure

theorem exec_orEmpty_getActiveMps_iff {t : TableId} {mps : List MicroPartitionMeta} :
    Ends (MetaStep pq) st (orEmpty (storage (getActiveMps t))) mps st' ↔
      (mps = st.getActiveMps t ∨ mps = []) ∧ st' = st :=
  exec_orEmpty_iff (fun _ _ => exec_getActiveMps_iff) getActiveMps_reads
    ⟨.fdbError "", (exec_await_error rfl _).bind_error⟩

variable {keep : MicroPartitionMeta → Bool} {registered registered' : List Registration}

/-- A loop over a list that may not be read registers some of what the whole list would. -/
theorem exec_registerAll_iff {β : Type} {p : Nova (List β)} {l0 : List β}
    {f : List Registration → β → Meta (List Registration)} {g : β → List Registration}
    (hp : ∀ l st', Ends (MetaStep pq) st (orEmpty (storage p)) l st' ↔ (l = l0 ∨ l = []) ∧ st' = st)
    (hf : ∀ acc x acc' st', Ends (MetaStep pq) st (f acc x) acc' st' ↔
      (∃ ys, ys.Sublist (g x) ∧ acc' = acc ++ ys) ∧ st' = st) :
    Ends (MetaStep pq) st (do
        let l ← orEmpty (storage p)
        l.foldlM f registered) registered' st' ↔
      (∃ ys, ys.Sublist (l0.flatMap g) ∧ registered' = registered ++ ys) ∧ st' = st := by
  rw [execE_bind_iff]
  constructor
  · rintro ⟨l, st1, hl, hfold⟩
    obtain ⟨hread, rfl⟩ := (hp _ _).1 hl
    obtain ⟨⟨ys, hys, hreg⟩, rfl⟩ := (execE_foldlM_sublist_iff hf).1 hfold
    rcases hread with rfl | rfl
    · exact ⟨⟨ys, hys, hreg⟩, rfl⟩
    · exact ⟨⟨ys, hys.trans (nil_sublist _), hreg⟩, rfl⟩
  · rintro ⟨hys, rfl⟩
    exact ⟨l0, _, (hp _ _).2 ⟨.inl rfl, rfl⟩, (execE_foldlM_sublist_iff hf).2 ⟨hys, rfl⟩⟩

theorem exec_registerTable_iff {table : TableMeta} :
    Ends (MetaStep pq) st (registerTable keep registered table) registered' st' ↔
      (∃ ys, ys.Sublist (if (st.getActiveMps table.id).filter keep = [] then []
          else [(table, (st.getActiveMps table.id).filter keep)]) ∧
        registered' = registered ++ ys) ∧ st' = st := by
  unfold registerTable
  simp only [execE_bind_iff, exec_orEmpty_getActiveMps_iff, execE_pure_iff]
  constructor
  · rintro ⟨mps, _, ⟨rfl | rfl, rfl⟩, hreg, rfl⟩
    · refine ⟨⟨_, List.Sublist.refl _, ?_⟩, rfl⟩
      split_ifs at hreg ⊢
      · rw [hreg, append_nil]
      · exact hreg
    · exact ⟨⟨[], nil_sublist _, by simpa using hreg⟩, rfl⟩
  · rintro ⟨⟨ys, hys, rfl⟩, rfl⟩
    by_cases hempty : ys = []
    · subst hempty
      exact ⟨[], _, ⟨.inr rfl, rfl⟩, by simp, rfl⟩
    · split_ifs at hys with hkept
      · exact absurd (sublist_nil.1 hys) hempty
      · obtain rfl := (sublist_singleton.1 hys).resolve_left hempty
        exact ⟨_, _, ⟨.inl rfl, rfl⟩, by rw [if_neg hkept], rfl⟩

/-- **Registration.**  Any part of the tables may be registered: a list or an index that cannot be
read is passed over. -/
theorem exec_registerTables_iff {tables : List Registration} :
    Ends (MetaStep pq) st (registerTables keep) tables st' ↔
      tables.Sublist (st.sources keep) ∧ st' = st := by
  have hschema : ∀ dbId acc schema acc' st',
      Ends (MetaStep pq) st (registerSchema keep dbId acc schema) acc' st' ↔ _ :=
    fun dbId acc schema acc' st' => exec_registerAll_iff
      (fun _ _ => exec_orEmpty_iff (fun _ _ => exec_await_iff fun _ => rfl)
        (issuesE_call fun _ => rfl) ⟨.fdbError "", exec_await_error rfl _⟩)
      fun _ _ _ _ => exec_registerTable_iff
  have hdatabase : ∀ acc db acc' st',
      Ends (MetaStep pq) st (registerDatabase keep acc db) acc' st' ↔ _ :=
    fun acc db acc' st' => exec_registerAll_iff
      (fun _ _ => exec_orEmpty_iff (fun _ _ => exec_await_iff fun _ => rfl)
        (issuesE_call fun _ => rfl) ⟨.fdbError "", exec_await_error rfl _⟩)
      fun acc schema => hschema db.id acc schema
  refine (exec_registerAll_iff (fun _ _ => exec_orEmpty_iff
    (fun _ _ => exec_await_iff fun _ => rfl) (issuesE_call fun _ => rfl)
    ⟨.fdbError "", exec_await_error rfl _⟩) hdatabase).trans (and_congr_left' ?_)
  simp [sources]

theorem exec_runSql_iff {engine : QueryEngine} {tables : List Registration} {sql : String}
    {batches : List RecordBatch} :
    Ends (MetaStep pq) st (runSql engine tables sql) batches st' ↔
      engine sql (tables.map st.sourceTable) = .ok batches ∧ st' = st := by
  unfold runSql
  rw [execE_bind_iff]
  constructor
  · rintro ⟨r, st1, hask, he⟩
    obtain ⟨rfl, rfl⟩ := exec_ask_iff.1 hask
    split at he
    · next b hb =>
      obtain ⟨rfl, rfl⟩ := execE_pure_iff.1 he
      exact ⟨hb, rfl⟩
    · exact (execE_throw_false he).elim
  · rintro ⟨hb, rfl⟩
    exact ⟨.ok batches, _, exec_ask_iff.2 ⟨hb.symm, rfl⟩, execE_pure_iff.2 ⟨rfl, rfl⟩⟩

end

/-! ### What is written -/

/-- The record of a micro-partition that a refresh writes. -/
def outputMp (out : TableId) (batch : RecordBatch) : MicroPartitionMeta where
  mpId := 0
  tableId := out
  version := 0
  s3Path := .perm out 0 0
  s3TempPath := some (.temp 1 0 0)
  rowCount := batch.numRows
  commitTs := 0
  txnId := 1
  supersedes := none
  supersededBy := none
  active := false

namespace World

/-- The state after a refresh wrote a batch. -/
def writeOutput (pq : Parquet) (out : TableId) (w : World) (batch : RecordBatch) : World :=
  insertMp { w with files := Function.update w.files (.temp 1 0 0) (some (pq.mp [batch])) }
    (outputMp out batch)

/-- The state after a refresh wrote all batches. -/
def writeOutputs (pq : Parquet) (out : TableId) (w : World) (batches : List RecordBatch) : World :=
  batches.foldl (writeOutput pq out) w

/-- The state after `mark_superseded`; nothing happens if there is no such record. -/
def mark (w : World) (old new : MpId) : World :=
  { w with mps := Function.update w.mps old ((w.mps old).map (·.markedSuperseded new)) }

/-- The state after one iteration of the loop that supersedes old micro-partitions, if the call it
makes does not fail. -/
def supersedeOld (newMps : List MicroPartitionMeta) (w : World) (old : MicroPartitionMeta) :
    World :=
  match newMps.find? fun new => new.mpId ≠ old.mpId with
  | some new => w.mark old.mpId new.mpId
  | none => w

/-- `w'` comes from `w` when the loop of `do_full_refresh` supersedes micro-partitions of table
`out`; calls that fail are passed over. -/
def SupersedesSome (w : World) (out : TableId) (w' : World) : Prop :=
  ∃ olds : List MicroPartitionMeta, olds.Sublist (w.getActiveMps out) ∧
    w' = olds.foldl (supersedeOld (w.getActiveMps out)) w

variable {pq : Parquet} {out : TableId} {w : World}

@[simp] theorem writeOutput_mps (batch : RecordBatch) : (w.writeOutput pq out batch).mps =
    update w.mps 0 (some (outputMp out batch)) := rfl

@[simp] theorem mark_mps (old new : MpId) : (w.mark old new).mps =
    update w.mps old ((w.mps old).map (·.markedSuperseded new)) := rfl

@[simp] theorem mark_tableMps (old new : MpId) : (w.mark old new).tableMps = w.tableMps := rfl

theorem mark_of_none {old : MpId} (new : MpId) (hold : w.mps old = none) : w.mark old new = w := by
  have hmps : update w.mps old none = w.mps := by rw [← hold, update_eq_self]
  rw [mark, hold, map_none, hmps]

/-- All batches go to the same keys: each overwrites the one before. -/
theorem writeOutput_writeOutput (a b : RecordBatch) :
    (w.writeOutput pq out a).writeOutput pq out b = w.writeOutput pq out b := by
  have htable : ((w.tableMps out).insert 0 ()).insert 0 () = (w.tableMps out).insert 0 () := by
    refine Std.ExtTreeMap.ext_getElem? fun k => ?_
    simp only [Std.ExtTreeMap.getElem?_insert]
    split_ifs <;> rfl
  simp only [writeOutput, insertMp, setMp, outputMp, update_self, update_idem, htable]

theorem writeOutputs_eq (batches : List RecordBatch) :
    w.writeOutputs pq out batches = match batches.getLast? with
      | none => w
      | some b => w.writeOutput pq out b := by
  induction batches using reverseRecOn with
  | nil => rfl
  | append_singleton bs b ih =>
    rw [writeOutputs, foldl_append, getLast?_concat]
    change (w.writeOutputs pq out bs).writeOutput pq out b = w.writeOutput pq out b
    rw [ih]
    cases bs.getLast? with
    | none => rfl
    | some a => exact writeOutput_writeOutput a b

end World

section

variable {pq : Parquet} {st st' : Store} {out : TableId}

theorem exec_writeOutputBatch_iff {batch : RecordBatch} {a : Unit} :
    Ends (MetaStep pq) st (writeOutputBatch out batch) a st' ↔
      st' = { st with toWorld := st.toWorld.writeOutput pq out batch } := by
  unfold writeOutputBatch MpWriter.write
  rw [execE_bind_iff]
  constructor
  · rintro ⟨mp, st1, hwrite, hinsert⟩
    obtain ⟨w', hw, rfl⟩ := exec_storage_iff.1 hwrite
    obtain ⟨_, w1, hput, hret⟩ := execE_bind_iff.1 hw
    obtain ⟨rfl, rfl⟩ := execE_pure_iff.1 hret
    obtain ⟨x, hx⟩ := step_ok (execE_call_iff.1 hput)
    cases hx
    cases exec_transact_iff.1 hinsert
    rfl
  · rintro rfl
    refine ⟨outputMp out batch, _, exec_storage_iff.2 ⟨_, execE_bind_iff.2 ⟨(), _,
      execE_call_iff.2 ⟨{}, rfl⟩, execE_pure_iff.2 ⟨rfl, rfl⟩⟩, rfl⟩, ?_⟩
    exact exec_transact_iff.2 rfl

theorem exec_writeOutputs_iff {batches : List RecordBatch} {a : PUnit} :
    Ends (MetaStep pq) st (batches.forM (writeOutputBatch out)) a st' ↔
      st' = { st with toWorld := st.toWorld.writeOutputs pq out batches } := by
  induction batches generalizing st with
  | nil => exact execE_forM_nil_iff
  | cons b bs ih =>
    rw [execE_forM_cons_iff]
    constructor
    · rintro ⟨st1, hb, hbs⟩
      obtain rfl := exec_writeOutputBatch_iff.1 hb
      exact ih.1 hbs
    · rintro rfl
      exact ⟨_, exec_writeOutputBatch_iff.2 rfl, ih.2 rfl⟩

theorem exec_mark_iff {old new : MpId} {a : Unit} :
    Ends (MetaStep pq) st (ignoreResult (storage (markSuperseded old new))) a st' ↔
      st' = st ∨ st' = { st with toWorld := st.toWorld.mark old new } := by
  simp only [exec_ignoreResult_iff, exec_storage_iff]
  constructor
  · rintro ⟨r, w', he, rfl⟩
    rcases execE_bind_cases he with ⟨e, hread⟩ | ⟨mp, w1, hread, he⟩
    · exact .inl (by rw [hread.eq_of_reads (issuesE_call fun _ => rfl)])
    · obtain ⟨rfl, rfl⟩ := (exec_await_iff fun _ => rfl).1 hread
      cases hmp : st.mps old with
      | none =>
        rw [hmp] at he
        obtain ⟨-, rfl⟩ := exec_ret_iff.1 he
        exact .inl rfl
      | some mp =>
        rw [hmp] at he
        obtain ⟨r', w2, hs, hret⟩ := exec_op_iff.1 he
        obtain ⟨-, rfl⟩ := exec_ret_iff.1 hret
        cases step_effect hs with
        | quiet _ => exact .inl rfl
        | setMp => exact .inr (by simp only [mark, hmp, map_some])
  · rintro (rfl | rfl)
    · exact ⟨_, _, (exec_await_error rfl (.fdbError "")).bind_error, rfl⟩
    · have hread : Ends (Step pq) st.toWorld (await (.getMp old)) (st.mps old) st.toWorld :=
        (exec_await_iff fun _ => rfl).2 ⟨rfl, rfl⟩
      cases hmp : st.mps old with
      | none =>
        rw [hmp] at hread
        refine ⟨.error (.mpNotFound 0 old), st.toWorld, exec_bind_iff.2 ⟨_, _, hread, Exec.ret⟩, ?_⟩
        rw [mark_of_none new hmp]
      | some mp =>
        rw [hmp] at hread
        refine ⟨.ok (), _, execE_bind_iff.2 ⟨_, _, hread, execE_call_iff.2 ⟨{}, rfl⟩⟩, ?_⟩
        simp only [mark, hmp, map_some]

theorem exec_supersedeOld_iff {newMps : List MicroPartitionMeta} {old : MicroPartitionMeta}
    {a : Unit} :
    Ends (MetaStep pq) st (supersedeOld newMps old) a st' ↔
      st' = st ∨ st' = { st with toWorld := st.toWorld.supersedeOld newMps old } := by
  unfold supersedeOld World.supersedeOld
  split
  · exact exec_mark_iff
  · refine execE_pure_iff.trans ⟨fun h => .inl h.2, ?_⟩
    rintro (rfl | rfl) <;> exact ⟨rfl, rfl⟩

theorem exec_supersedeOlds_iff {newMps oldMps : List MicroPartitionMeta} {a : PUnit} :
    Ends (MetaStep pq) st (oldMps.forM (supersedeOld newMps)) a st' ↔
      ∃ olds : List MicroPartitionMeta, olds.Sublist oldMps ∧
        st' = { st with toWorld := olds.foldl (World.supersedeOld newMps) st.toWorld } := by
  have hfold : ∀ (olds : List MicroPartitionMeta) (st : Store),
      olds.foldl (fun st old => { st with toWorld := st.toWorld.supersedeOld newMps old }) st =
        { st with toWorld := olds.foldl (World.supersedeOld newMps) st.toWorld } := by
    intro olds
    induction olds with
    | nil => exact fun _ => rfl
    | cons old olds ih => exact fun st => ih _
  refine (execE_forM_sublist_iff fun old _ _ => exec_supersedeOld_iff).trans ?_
  simp only [hfold]

variable {engine : QueryEngine} {sql : String} {n : ℕ}

/-- **A full refresh that succeeds**: it got the query over some of the tables, wrote the batches,
and superseded some of the micro-partitions of the output table that were active then. -/
theorem exec_doFullRefresh_iff : Ends (MetaStep pq) st (doFullRefresh engine sql out) n st' ↔
      ∃ batches w', st.FullBatches engine sql batches ∧ n = totalRows batches ∧
        (st.toWorld.writeOutputs pq out batches).SupersedesSome out w' ∧
        st' = { st with toWorld := w' } := by
  unfold doFullRefresh
  simp only [execE_bind_iff, exec_registerTables_iff, exec_runSql_iff, exec_writeOutputs_iff,
    exec_storage_getActiveMps_iff, exec_supersedeOlds_iff, execE_pure_iff]
  constructor
  · rintro ⟨tables, _, ⟨hsub, rfl⟩, batches, _, ⟨hrun, rfl⟩, _, _, rfl, _, _, ⟨rfl, rfl⟩, _, _,
      ⟨rfl, rfl⟩, _, _, ⟨olds, holds, rfl⟩, rfl, rfl⟩
    exact ⟨batches, _, ⟨tables, hsub, hrun⟩, rfl, ⟨olds, holds, rfl⟩, rfl⟩
  · rintro ⟨batches, _, ⟨tables, hsub, hrun⟩, rfl, ⟨olds, holds, rfl⟩, rfl⟩
    exact ⟨tables, _, ⟨hsub, rfl⟩, batches, _, ⟨hrun, rfl⟩, ⟨⟩, _, rfl, _, _, ⟨rfl, rfl⟩, _, _,
      ⟨rfl, rfl⟩, ⟨⟩, _, ⟨olds, holds, rfl⟩, rfl, rfl⟩

/-- **An incremental refresh that succeeds**: it wrote the batches of the query over some of the
tables, or nothing. -/
theorem exec_doIncrementalRefresh_iff {lastTs : Timestamp} :
    Ends (MetaStep pq) st (doIncrementalRefresh engine sql out lastTs) n st' ↔
      ∃ batches, st.IncrementalBatches engine sql lastTs batches ∧ n = totalRows batches ∧
        st' = { st with toWorld := st.toWorld.writeOutputs pq out batches } := by
  unfold doIncrementalRefresh
  rw [execE_bind_iff]
  simp only [exec_registerTables_iff]
  constructor
  · rintro ⟨tables, _, ⟨hsub, rfl⟩, he⟩
    split_ifs at he with hempty
    · obtain ⟨rfl, rfl⟩ := execE_pure_iff.1 he
      exact ⟨[], .inl rfl, rfl, rfl⟩
    · simp only [execE_bind_iff, exec_runSql_iff, exec_writeOutputs_iff, execE_pure_iff] at he
      obtain ⟨batches, _, ⟨hrun, rfl⟩, _, _, rfl, rfl, rfl⟩ := he
      exact ⟨batches, .inr ⟨tables, hsub, hempty, hrun⟩, rfl, rfl⟩
  · rintro ⟨batches, rfl | ⟨tables, hsub, hne, hrun⟩, rfl, rfl⟩
    · exact ⟨[], _, ⟨nil_sublist _, rfl⟩, execE_pure_iff.2 ⟨rfl, rfl⟩⟩
    · refine ⟨tables, _, ⟨hsub, rfl⟩, ?_⟩
      rw [if_neg hne]
      simp only [execE_bind_iff, exec_runSql_iff, exec_writeOutputs_iff, execE_pure_iff]
      exact ⟨batches, _, ⟨hrun, rfl⟩, ⟨⟩, _, rfl, rfl, rfl⟩

end

/-! ### What the statements do -/

/-- The store with the record of a dynamic table. -/
def Store.setDynamicTable (dt : DynamicTableMeta) : Store :=
  st.modifyCatalog fun cat => { cat with dynamicTables := cat.dynamicTables.insert dt.id dt }

/-- `dt` is the first dynamic table of the database with the name. -/
def Store.NamedInDb (db name : String) (dt : DynamicTableMeta) : Prop :=
  ∃ d, st.catalog.findDatabase db = .ok d ∧
    ((MetaQuery.listDynamicTables d.id).ask st).find? (fun dt => dt.name = name) = some dt

/-- `dt` is the first dynamic table of the schema with the name. -/
def Store.NamedInSchema (db schema name : String) (dt : DynamicTableMeta) : Prop :=
  ∃ d s, st.catalog.findDatabase db = .ok d ∧ st.catalog.findSchemaMeta d.id schema = .ok s ∧
    ((MetaQuery.listDynamicTables d.id).ask st).find?
      (fun dt => dt.schemaId = s.id && dt.name = name) = some dt

/-- The answers that a refresh of the dynamic table can get. -/
def DynamicTableMeta.Batches (engine : QueryEngine)
    (dt : DynamicTableMeta) (st : Store) (batches : List RecordBatch) : Prop :=
  if usesIncremental upper dt.queryDefinition dt.refreshMode then
    st.IncrementalBatches engine dt.queryDefinition 0 batches
  else st.FullBatches engine dt.queryDefinition batches

/-- What a refresh of the dynamic table that gets the batches can leave. -/
def DynamicTableMeta.Refreshes (pq : Parquet) (upper : String → String) (dt : DynamicTableMeta)
    (w : World) (batches : List RecordBatch) (w' : World) : Prop :=
  if usesIncremental upper dt.queryDefinition dt.refreshMode then
    w' = w.writeOutputs pq dt.outputTableId batches
  else (w.writeOutputs pq dt.outputTableId batches).SupersedesSome dt.outputTableId w'

section

variable {pq : Parquet} {st st' : Store} {upper : String → String} {engine : QueryEngine}
  {dt : DynamicTableMeta} {db schema name : String} {r : QueryResult}

theorem getElem?_setDynamicTable {id : ℕ} : (st.setDynamicTable dt).catalog.dynamicTables[id]? =
      if id = dt.id then some dt else st.catalog.dynamicTables[id]? := by
  change (st.catalog.dynamicTables.insert dt.id dt)[id]? = _
  rw [Std.ExtTreeMap.getElem?_insert]
  by_cases hid : id = dt.id
  · simp [hid]
  · simp [hid, Ne.symm hid]

theorem exec_updateDynamicTable_iff {a : Unit} :
    Ends (MetaStep pq) st (updateDynamicTable dt) a st' ↔ st' = st.setDynamicTable dt := by
  constructor
  · intro he
    cases exec_transact_iff.1 he
    rfl
  · rintro rfl
    exact exec_transact_iff.2 rfl

theorem exec_nowMicros_iff {now : Timestamp} :
    Ends (MetaStep pq) st (storage (await .nowMicros)) now st' ↔ st' = st := by
  refine ⟨exec_now, ?_⟩
  rintro rfl
  exact exec_storage_iff.2 ⟨_, execE_call_iff.2 ⟨{ now := now }, rfl⟩, rfl⟩

theorem exec_findDynamicTableInDb_iff :
    Ends (MetaStep pq) st (findDynamicTableInDb db name) dt st' ↔
      st.NamedInDb db name dt ∧ st' = st := by
  unfold findDynamicTableInDb
  simp only [execE_bind_iff, exec_findDatabase_iff]
  constructor
  · rintro ⟨d, _, ⟨hd, rfl⟩, dts, _, hask, he⟩
    obtain ⟨rfl, rfl⟩ := exec_ask_iff.1 hask
    split at he
    · next dt' hdt =>
      obtain ⟨rfl, rfl⟩ := execE_pure_iff.1 he
      exact ⟨⟨d, hd, hdt⟩, rfl⟩
    · exact (execE_throw_false he).elim
  · rintro ⟨⟨d, hd, hdt⟩, rfl⟩
    refine ⟨d, _, ⟨hd, rfl⟩, _, _, exec_ask_iff.2 ⟨rfl, rfl⟩, ?_⟩
    rw [hdt]
    exact execE_pure_iff.2 ⟨rfl, rfl⟩

theorem exec_findDynamicTable_iff : Ends (MetaStep pq) st (findDynamicTable db schema name) dt st' ↔
      st.NamedInSchema db schema name dt ∧ st' = st := by
  unfold findDynamicTable
  simp only [execE_bind_iff, exec_findDatabase_iff, exec_findSchemaMeta_iff]
  constructor
  · rintro ⟨d, _, ⟨hd, rfl⟩, s, _, ⟨hs, rfl⟩, dts, _, hask, he⟩
    obtain ⟨rfl, rfl⟩ := exec_ask_iff.1 hask
    split at he
    · next dt' hdt =>
      obtain ⟨rfl, rfl⟩ := execE_pure_iff.1 he
      exact ⟨⟨d, s, hd, hs, hdt⟩, rfl⟩
    · exact (execE_throw_false he).elim
  · rintro ⟨⟨d, s, hd, hs, hdt⟩, rfl⟩
    refine ⟨d, _, ⟨hd, rfl⟩, s, _, ⟨hs, rfl⟩, _, _, exec_ask_iff.2 ⟨rfl, rfl⟩, ?_⟩
    rw [hdt]
    exact execE_pure_iff.2 ⟨rfl, rfl⟩

/-- **A refresh of a dynamic table that succeeds.** -/
theorem exec_refresh_iff {n : ℕ} : Ends (MetaStep pq) st (dt.refresh upper engine) n st' ↔
      ∃ batches w', dt.Batches upper engine st batches ∧ n = totalRows batches ∧
        dt.Refreshes pq upper st.toWorld batches w' ∧ st' = { st with toWorld := w' } := by
  unfold DynamicTableMeta.refresh execRefreshDynamicTableById DynamicTableMeta.Batches
    DynamicTableMeta.Refreshes
  split_ifs
  · -- the list of databases is read and not looked at
    simp only [execE_bind_iff, exec_okOrNone_iff, exec_doIncrementalRefresh_iff]
    constructor
    · rintro ⟨_, _, ⟨r, hread, -⟩, batches, hbatches, rfl, rfl⟩
      obtain ⟨w', hw, rfl⟩ := exec_storage_iff.1 hread
      obtain rfl := hw.eq_of_reads (issuesE_call fun _ => rfl)
      exact ⟨batches, _, hbatches, rfl, rfl, rfl⟩
    · rintro ⟨batches, _, hbatches, rfl, rfl, rfl⟩
      exact ⟨_, st, ⟨.ok _, (exec_storage_read_iff fun _ => rfl).2 ⟨rfl, rfl⟩,
        rfl⟩, batches, hbatches, rfl, rfl⟩
  · exact exec_doFullRefresh_iff

theorem exec_setDtScheduler_iff {enabled : Bool} :
    (∃ r, Ends (MetaStep pq) st (execSetDtScheduler db name enabled) r st') ↔
      ∃ dt, st.NamedInDb db name dt ∧
        st' = st.setDynamicTable { dt with schedulerEnabled := enabled } := by
  unfold execSetDtScheduler
  simp only [execE_bind_iff, exec_findDynamicTableInDb_iff, exec_updateDynamicTable_iff,
    execE_pure_iff]
  constructor
  · rintro ⟨r, dt, _, ⟨hdt, rfl⟩, _, _, rfl, -, rfl⟩
    exact ⟨dt, hdt, rfl⟩
  · rintro ⟨dt, hdt, rfl⟩
    exact ⟨_, dt, st, ⟨hdt, rfl⟩, (), _, rfl, rfl, rfl⟩

/-- ALTER DYNAMIC TABLE … REFRESH that succeeds. -/
theorem exec_refreshDynamicTable_iff :
    (∃ r, Ends (MetaStep pq) st (execRefreshDynamicTable upper engine db name) r st') ↔
      ∃ dt n now st1, st.NamedInDb db name dt ∧
        Ends (MetaStep pq) (st.setDynamicTable { dt with refreshStatus := .running })
          (dt.refresh upper engine) n st1 ∧
        st' = st1.setDynamicTable
          { dt with refreshStatus := .success, lastRefreshTs := some now } := by
  unfold execRefreshDynamicTable
  simp only [execE_bind_iff, exec_findDynamicTableInDb_iff, exec_updateDynamicTable_iff,
    exec_attempt_iff, execE_liftExcept_iff, execE_pure_iff]
  constructor
  · rintro ⟨r, dt, _, ⟨hdt, rfl⟩, _, _, rfl, _, st1, hrefresh, now, _, hnow, _, _, rfl, n, _,
      ⟨rfl, rfl⟩, -, rfl⟩
    obtain rfl := exec_now hnow
    exact ⟨dt, n, now, _, hdt, hrefresh, rfl⟩
  · rintro ⟨dt, n, now, st1, hdt, hrefresh, rfl⟩
    exact ⟨_, dt, st, ⟨hdt, rfl⟩, (), _, rfl, .ok n, st1, hrefresh, now, st1,
      exec_nowMicros_iff.2 rfl, (), _, rfl, n, _, ⟨rfl, rfl⟩, rfl, rfl⟩

end

end NovaCore
