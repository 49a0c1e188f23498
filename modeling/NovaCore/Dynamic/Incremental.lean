import NovaCore.Dynamic.FullRefresh

/-!
# Incremental refreshes of a filter or projection

A dynamic table over one source table, an output table that starts empty, and a sequence of INSERTs
into the source and incremental refreshes.  A refresh only stores micro-partitions that are not
active, so the output table stays empty, and it agrees with the query exactly as long as the query
selects none of the rows of the source.

## Main definitions

* `FilterProjection` : a query whose answer is a filter and projection of the rows of one table.
* `Maintenance` : a sequence of INSERTs into the source and refreshes.

## Main results

* `OutputEmpty.step` : what every operation of a refresh preserves.
* `Maintenance.outputEmpty` : the output table is empty throughout.
* `incremental_refresh_exact_iff` : **when the output table is the query over the source.**
-/

namespace NovaCore

/-- A query that filters and projects the rows of one table. -/
structure FilterProjection (engine : QueryEngine) where
  sql : String
  source : TableMeta
  /-- The projection of a row that passes the filter. -/
  select : List Cell → Option (List Cell)
  evaluates : ∀ batches, ∃ result, engine sql [⟨source, some batches⟩] = .ok result ∧
    (result.flatMap RecordBatch.logicalRows).Perm
      ((batches.flatMap RecordBatch.logicalRows).filterMap select)

/-- What the engine answers is the filter and projection of what it was given. -/
theorem FilterProjection.rows_of_answer {engine : QueryEngine} (Q : FilterProjection engine)
    {batches result : List RecordBatch} (h : engine Q.sql [⟨Q.source, some batches⟩] = .ok result) :
    (result.flatMap RecordBatch.logicalRows : Multiset (List Cell)) =
      (batches.flatMap RecordBatch.logicalRows : Multiset (List Cell)).filterMap Q.select := by
  obtain ⟨result', hresult, hperm⟩ := Q.evaluates batches
  cases h.symm.trans hresult
  exact Multiset.coe_eq_coe.2 hperm

/-- The dynamic table maintains the query in table `out`, incrementally. -/
structure FilterProjection.Maintained {engine : QueryEngine} (Q : FilterProjection engine)
    (upper : String → String) (out : TableId) (dt : DynamicTableMeta) : Prop where
  query : dt.queryDefinition = Q.sql
  output : dt.outputTableId = out
  incremental : usesIncremental upper dt.queryDefinition dt.refreshMode = true

/-- The names lead to the source table, and table `out` is another one and has no micro-partitions;
the identifier 0 is not one that `generate_id` will return. -/
structure FreshOutput (st : Store) (source : TableMeta) (out : TableId) (db schema table : String) :
    Prop where
  findTable : st.catalog.findTable db schema table = .ok source
  ne : source.id ≠ out
  empty : ∀ k, k ∉ st.tableMps out
  zero : 0 ∈ st.issued

/-- A sequence of INSERTs into the source and refreshes, which may fail, leads from `st₀` to
`st`. -/
inductive Maintenance (pq : Parquet) (fmt : TextFormat) (upper : String → String)
    {engine : QueryEngine} (Q : FilterProjection engine) (out : TableId) (db schema table : String)
    (st₀ : Store) : Store → Prop
  | start : Maintenance pq fmt upper Q out db schema table st₀ st₀
  | insert {st st' : Store} {values : List (List ResolvedExpr)} {r : Except NovaError QueryResult} :
      Maintenance pq fmt upper Q out db schema table st₀ st →
      Exec (MetaStep pq) st (storage (execInsert fmt db schema table values)).run r st' →
      Maintenance pq fmt upper Q out db schema table st₀ st'
  | refresh {st st' : Store} {dt : DynamicTableMeta} {r : Except NovaError QueryResult} :
      Maintenance pq fmt upper Q out db schema table st₀ st → Q.Maintained upper out dt →
      Exec (MetaStep pq) st (execRefreshDynamicTableMeta upper engine dt).run r st' →
      Maintenance pq fmt upper Q out db schema table st₀ st'

/-! ### What a refresh may do -/

/-- The operations of an incremental refresh into table `out`. -/
def RefreshMay (out : TableId) : MetaOp → Prop
  | .query _ => True
  | .txn (.setDynamicTable _) => True
  | .txn (.insertMp mp) => mp.mpId = 0 ∧ mp.tableId = out ∧ mp.active = false
  | .storage o => o.Reads ∨ ∃ path batches, o = .putFile path batches
  | _ => False

section

open Prog DynamicTableMeta

variable {out : TableId} {α : Type}

theorem storage_issues {p : Nova α} (hp : p.run.Issues Op.Reads) :
    (storage p).run.Issues (RefreshMay out) :=
  hp.embed_of fun _ => .inl

theorem orEmpty_issues {p : Nova (List α)} (hp : p.run.Issues Op.Reads) :
    (orEmpty (storage p)).run.Issues (RefreshMay out) :=
  issuesE_bind (issues_okOrNone (storage_issues hp)) fun _ => issuesE_pure

theorem registerTables_issues (keep : MicroPartitionMeta → Bool) :
    (registerTables keep).run.Issues (RefreshMay out) := by
  refine issuesE_bind (orEmpty_issues (issuesE_call fun _ => rfl)) fun _ => ?_
  refine issuesE_foldlM fun _ _ => ?_
  refine issuesE_bind (orEmpty_issues (issuesE_call fun _ => rfl)) fun _ => ?_
  refine issuesE_foldlM fun _ _ => ?_
  refine issuesE_bind (orEmpty_issues (issuesE_call fun _ => rfl)) fun _ => ?_
  refine issuesE_foldlM fun _ _ => ?_
  exact issuesE_bind (orEmpty_issues getActiveMps_reads) fun _ => issuesE_pure

variable {engine : QueryEngine}

theorem runSql_issues (tables : List Registration) (sql : String) :
    (runSql engine tables sql).run.Issues (RefreshMay out) := by
  refine issuesE_bind (issuesE_call trivial) fun r => ?_
  cases r with
  | ok batches => exact issuesE_pure
  | error message => exact issuesE_throw

theorem writeOutputBatch_issues (batch : RecordBatch) :
    (writeOutputBatch out batch).run.Issues (RefreshMay out) := by
  refine ⟨.inr ⟨_, _, rfl⟩, fun r => ?_⟩
  cases r with
  | error e => trivial
  | ok a => exact ⟨⟨rfl, rfl, rfl⟩, fun r => by cases r <;> trivial⟩

theorem updateDynamicTable_issues (dt : DynamicTableMeta) :
    (updateDynamicTable dt).run.Issues (RefreshMay out) :=
  issuesE_call trivial

theorem doIncrementalRefresh_issues (sql : String) (lastTs : Timestamp) :
    (doIncrementalRefresh engine sql out lastTs).run.Issues (RefreshMay out) := by
  refine issuesE_bind (registerTables_issues _) fun tables => ?_
  split_ifs
  · exact issuesE_pure
  · refine issuesE_bind (runSql_issues _ _) fun batches => ?_
    exact issuesE_bind (issuesE_forM writeOutputBatch_issues) fun _ => issuesE_pure

/-- **An incremental refresh** reads, writes the record of the dynamic table, and stores records
that are not active under the identifier 0. -/
theorem execRefreshDynamicTableMeta_issues {upper : String → String}
    {Q : FilterProjection engine} {dt : DynamicTableMeta} (hdt : Q.Maintained upper out dt) :
    (execRefreshDynamicTableMeta upper engine dt).run.Issues (RefreshMay out) := by
  have hrefresh : (refresh upper engine
      { dt with refreshStatus := .running }).run.Issues (RefreshMay out) := by
    unfold refresh execRefreshDynamicTableById
    rw [if_pos hdt.incremental, hdt.output]
    refine issuesE_bind (issues_okOrNone (storage_issues (issuesE_call fun _ => rfl))) fun _ => ?_
    exact doIncrementalRefresh_issues _ _
  have hnow : (storage (await .nowMicros)).run.Issues (RefreshMay out) :=
    storage_issues (issuesE_call fun _ => rfl)
  -- the record that is written first decides what is refreshed
  refine ⟨trivial, fun r => ?_⟩
  cases r with
  | error e => trivial
  | ok a =>
    refine issuesE_bind (issues_bind hrefresh fun _ => trivial) fun r => ?_
    cases r with
    | ok rows =>
      refine issuesE_bind (issuesE_bind hnow fun _ => updateDynamicTable_issues _) fun _ => ?_
      exact issuesE_pure
    | error e =>
      refine issuesE_bind hnow fun _ => ?_
      exact issuesE_bind (updateDynamicTable_issues _) fun _ => issuesE_throw

end

/-! ### The output table stays empty -/

/-- Only the identifier 0 is listed for table `out`, and its record is not active; the names still
lead to the source, and 0 is not one that `generate_id` will return. -/
structure OutputEmpty (st : Store) (source : TableMeta) (out : TableId) (db schema table : String) :
    Prop where
  findTable : st.catalog.findTable db schema table = .ok source
  listed : ∀ k, k ∈ st.tableMps out → k = 0
  inactive : 0 ∈ st.tableMps out → ∀ mp, st.mps 0 = some mp → mp.isActive = false
  zero : 0 ∈ st.issued

section

variable {pq : Parquet} {fmt : TextFormat} {upper : String → String} {engine : QueryEngine}
  {Q : FilterProjection engine} {st₀ st st' : Store} {source : TableMeta} {out : TableId}
  {db schema table : String}

theorem FreshOutput.outputEmpty (h : FreshOutput st source out db schema table) :
    OutputEmpty st source out db schema table :=
  ⟨h.findTable, fun k hk => (h.empty k hk).elim, fun h0 => (h.empty 0 h0).elim, h.zero⟩

section

variable (h : OutputEmpty st source out db schema table)
include h

theorem OutputEmpty.not_isActive (k : MpId) : ¬st.IsActive out k := by
  rintro ⟨hk, mp, hmp, hactive⟩
  obtain rfl := h.listed k hk
  rw [h.inactive hk mp hmp] at hactive
  cases hactive

/-- **One operation of a refresh.** -/
theorem OutputEmpty.step {o : MetaOp} {r : o.Res} (ho : RefreshMay out o)
    (hs : MetaStep pq st o r st') : OutputEmpty st' source out db schema table := by
  cases metaStep_effect hs with
  | query _ | failed => exact h
  | @storage o r w' hw =>
    rcases ho with hreads | ⟨path, batches, rfl⟩
    · have hquiet := hreads r
      cases step_effect hw with
      | quiet _ => exact h
      | _ => cases hquiet
    · cases step_effect hw with
      | quiet _ => exact h
      | putFile => exact { h with }
  | @txn t a _ hrun =>
    cases t with
    | setDynamicTable dt =>
      cases hrun
      exact { h with }
    | insertMp mp =>
      obtain ⟨hid, htable, hactive⟩ := ho
      cases hrun
      refine ⟨h.findTable, fun k hk => ?_, fun _ mp' hmp => ?_, h.zero⟩
      · have hmem : k ∈ Function.update st.tableMps mp.tableId
            ((st.tableMps mp.tableId).insert mp.mpId ()) out := hk
        rw [htable, hid, Function.update_self, Std.ExtTreeMap.mem_insert, compare_eq_iff_eq] at hmem
        exact hmem.elim Eq.symm (h.listed k)
      · have hmps : Function.update st.mps mp.mpId (some mp) 0 = some mp' := hmp
        rw [hid] at hmps
        cases hmps
        simp [MicroPartitionMeta.isActive, hactive]
    | _ => exact ho.elim

theorem OutputEmpty.insert {values : List (List ResolvedExpr)} {r : Except NovaError QueryResult}
    (hne : source.id ≠ out)
    (he : Exec (MetaStep pq) st (storage (execInsert fmt db schema table values)).run r st') :
    OutputEmpty st' source out db schema table := by
  obtain ⟨w', hw, rfl⟩ := exec_storage_iff.1 he
  obtain ⟨_, hr⟩ := hw.exists_run
  have hcatalog : w'.catalog = st.catalog := run_catalog hr
  obtain ⟨htable, hmps, hissued⟩ := addsTo_of_exec_insert hw h.findTable
  refine ⟨?_, fun k hk => ?_, fun h0 mp hmp => ?_, hissued 0 h.zero⟩
  · rw [hcatalog]
    exact h.findTable
  · exact h.listed k ((htable out k hne.symm).1 hk)
  · rw [hmps 0 h.zero] at hmp
    exact h.inactive ((htable out 0 hne.symm).1 h0) mp hmp

theorem OutputEmpty.refresh {dt : DynamicTableMeta} {r : Except NovaError QueryResult}
    (hdt : Q.Maintained upper out dt)
    (he : Exec (MetaStep pq) st (execRefreshDynamicTableMeta upper engine dt).run r st') :
    OutputEmpty st' source out db schema table :=
  he.issues (J := fun st => OutputEmpty st source out db schema table)
    (execRefreshDynamicTableMeta_issues hdt) h fun _ _ _ _ h ho hs => h.step ho hs

end

/-- Whatever is inserted and however often the dynamic table is refreshed, its output is empty. -/
theorem Maintenance.outputEmpty (h0 : FreshOutput st₀ Q.source out db schema table)
    (hm : Maintenance pq fmt upper Q out db schema table st₀ st) :
    OutputEmpty st Q.source out db schema table := by
  induction hm with
  | start => exact h0.outputEmpty
  | insert _ he ih => exact ih.insert h0.ne he
  | refresh _ hdt he ih => exact ih.refresh hdt he

/-- **After a refresh, the output table is the query over the rows of the source if and only if the
query selects none of them**, and so it is with what the engine answers on these rows. -/
theorem incremental_refresh_exact_iff {dt : DynamicTableMeta} {r : Except NovaError QueryResult}
    (h₀ : FreshOutput st₀ Q.source out db schema table)
    (hm : Maintenance pq fmt upper Q out db schema table st₀ st) (hdt : Q.Maintained upper out dt)
    (he : Exec (MetaStep pq) st (execRefreshDynamicTableMeta upper engine dt).run r st') :
    (rowsOf (st'.contents out) = (rowsOf (st.contents Q.source.id)).filterMap Q.select ↔
      ∀ row ∈ rowsOf (st.contents Q.source.id), Q.select row = none) ∧
    ∀ batches result, (batches.flatMap RecordBatch.logicalRows : Multiset (List Cell)) =
        rowsOf (st.contents Q.source.id) → engine Q.sql [⟨Q.source, some batches⟩] = .ok result →
      (rowsOf (st'.contents out) = (result.flatMap RecordBatch.logicalRows : List (List Cell)) ↔
        ∀ row ∈ rowsOf (st.contents Q.source.id), Q.select row = none) := by
  have hiff : rowsOf (st'.contents out) = (rowsOf (st.contents Q.source.id)).filterMap Q.select ↔
      ∀ row ∈ rowsOf (st.contents Q.source.id), Q.select row = none := by
    have hempty := (hm.refresh hdt he).outputEmpty h₀
    rw [World.contents_eq_zero hempty.not_isActive]
    change 0 = _ ↔ _
    rw [eq_comm, Multiset.eq_zero_iff_forall_notMem]
    constructor
    · intro hnone row hrow
      cases hselect : Q.select row with
      | none => rfl
      | some out => exact (hnone out ((Multiset.mem_filterMap _ _).2 ⟨row, hrow, hselect⟩)).elim
    · intro hnone out hout
      obtain ⟨row, hrow, hselect⟩ := (Multiset.mem_filterMap _ _).1 hout
      rw [hnone row hrow] at hselect
      cases hselect
  refine ⟨hiff, fun batches result hbatches hresult => ?_⟩
  rw [Q.rows_of_answer hresult, hbatches]
  exact hiff

end

/-! ### A table with one row -/

/-- The query `SELECT * FROM t`. -/
def scanQuery : FilterProjection (scanEngine "t") where
  sql := "SELECT * FROM t"
  source := sampleTable
  select := some
  evaluates := fun batches => ⟨batches, by simp [scanEngine, sampleTable], by simp⟩

/-- A dynamic table that maintains the query in table 9. -/
def scanDynamicTable : DynamicTableMeta where
  id := 11
  dbId := 1
  schemaId := 1
  name := "x"
  queryDefinition := scanQuery.sql
  targetLagSeconds := 60
  refreshMode := .incremental
  outputTableId := 9
  lastRefreshTs := none
  refreshStatus := .pending
  schedulerEnabled := true

/-- A state as a store in which 0 counts as handed out. -/
def withZeroIssued (w : World) : Store :=
  { emptyStore with toWorld := { w with issued := 0 :: w.issued } }

theorem scanDynamicTable_maintained : scanQuery.Maintained id 9 scanDynamicTable := ⟨rfl, rfl, rfl⟩

theorem freshOutput_oneRow : FreshOutput (withZeroIssued oneRow) scanQuery.source 9 "d" "s" "t" :=
  ⟨by decide +kernel, by decide, fun _ => Std.ExtTreeMap.not_mem_empty, by decide⟩

theorem exists_refresh {w : World}
    (h : ((execRefreshDynamicTableMeta id (scanEngine "t") scanDynamicTable).run.runAlone
      (MetaOp.apply .verbatim) (withZeroIssued w) (List.replicate 20 {})).any
        (fun y => y.1.isOk) = true) :
    ∃ r st', Ends (MetaStep .verbatim) (withZeroIssued w)
      (execRefreshDynamicTableMeta id (scanEngine "t") scanDynamicTable) r st' := by
  obtain ⟨r, st', he, hok⟩ := exists_exec_of_runAlone h
  cases r with
  | error e => cases hok
  | ok r => exact ⟨r, st', he⟩

/-- The rows of a batch that are `(n)`. -/
def keepRow (n : ℤ) (b : RecordBatch) : RecordBatch where
  schema := b.schema
  rows := b.rows.filter fun row => row.map Cell.logical = [.int64 n true]
  rows_fit := fun row hrow => b.rows_fit row (List.mem_of_mem_filter hrow)

/-- An engine that answers `SELECT * FROM t WHERE a = 5`. -/
def fiveEngine : QueryEngine := fun sql tables =>
  (scanEngine "t" sql tables).map (·.map (keepRow 5))

/-- The query that it answers. -/
def fiveQuery : FilterProjection fiveEngine where
  sql := "SELECT * FROM t WHERE a = 5"
  source := sampleTable
  select := Option.guard (· = [.int64 5 true])
  evaluates := fun batches => by
    refine ⟨batches.map (keepRow 5), by simp [fiveEngine, scanEngine, sampleTable, Except.map],
      .of_eq ?_⟩
    rw [List.filterMap_eq_filter, List.filter_flatMap, List.flatMap_map]
    congr 1
    funext b
    simp [keepRow, RecordBatch.logicalRows, List.filter_map, Function.comp_def]

theorem freshOutput_oneTable :
    FreshOutput (withZeroIssued oneTable) fiveQuery.source 9 "d" "s" "t" :=
  ⟨by decide +kernel, by decide, fun _ => Std.ExtTreeMap.not_mem_empty, by decide⟩

/-- A refresh of the dynamic table that maintains it in table 9. -/
def refreshFive : Meta QueryResult :=
  execRefreshDynamicTableMeta id fiveEngine
    { scanDynamicTable with queryDefinition := fiveQuery.sql }

/-- A row is inserted and the dynamic table refreshed; the query selects none of the rows, and the
next refresh leaves what it says. -/
theorem incremental_refresh_exact_none : ∃ r st₁ r₁ st₂ r₂ st₃,
    Exec (MetaStep .verbatim) (withZeroIssued oneTable)
      (storage (execInsert plainText "d" "s" "t" [[.int64 1]])).run r st₁ ∧
    Exec (MetaStep .verbatim) st₁ refreshFive.run r₁ st₂ ∧
    Exec (MetaStep .verbatim) st₂ refreshFive.run r₂ st₃ ∧
    (r.isOk ∧ r₁.isOk ∧ r₂.isOk ∧ rowsOf (st₂.contents 1) = {[.int64 1 true]}) ∧
    rowsOf (st₃.contents 9) = (rowsOf (st₂.contents 1)).filterMap fiveQuery.select := by
  have hs : ((storage (execInsert plainText "d" "s" "t" [[.int64 1]])).run.runAlone
      (MetaOp.apply .verbatim) (withZeroIssued oneTable) (List.replicate 11 { id := 7 })).any
        (fun x => (refreshFive.run.runAlone (MetaOp.apply .verbatim) x.2
          (List.replicate 20 {})).any fun y => (refreshFive.run.runAlone
            (MetaOp.apply .verbatim) y.2 (List.replicate 20 {})).any fun z => decide (x.1.isOk ∧
              y.1.isOk ∧ z.1.isOk ∧ rowsOf (y.2.contents 1) = {[.int64 1 true]})) = true := by
    decide +kernel
  obtain ⟨r, st₁, he, hs⟩ := exists_exec_of_runAlone hs
  obtain ⟨r₁, st₂, he₁, hs⟩ := exists_exec_of_runAlone hs
  obtain ⟨r₂, st₃, he₂, hs⟩ := exists_exec_of_runAlone hs
  have hfacts := of_decide_eq_true hs
  have hm : Maintenance .verbatim plainText id fiveQuery 9 "d" "s" "t"
    (withZeroIssued oneTable) st₂ := (Maintenance.start.insert he).refresh ⟨rfl, rfl, rfl⟩ he₁
  refine ⟨r, st₁, r₁, st₂, r₂, st₃, he, he₁, he₂, hfacts,
    (incremental_refresh_exact_iff freshOutput_oneTable hm ⟨rfl, rfl, rfl⟩ he₂).1.2 ?_⟩
  have hrows : rowsOf (st₂.contents fiveQuery.source.id) = {[.int64 1 true]} := hfacts.2.2.2
  rw [hrows]
  decide

/-- A refresh of `SELECT * FROM t`, where `t` has one row, leaves the output table empty. -/
theorem incremental_refresh_stays_empty : ∃ r st',
    FreshOutput (withZeroIssued oneRow) scanQuery.source 9 "d" "s" "t" ∧
    scanQuery.Maintained id 9 scanDynamicTable ∧
    Exec (MetaStep .verbatim) (withZeroIssued oneRow)
      (execRefreshDynamicTableMeta id (scanEngine "t") scanDynamicTable).run (.ok r) st' ∧
    rowsOf (st'.contents 9) = 0 ∧
    (rowsOf ((withZeroIssued oneRow).contents 1)).filterMap scanQuery.select =
      {[Cell.int64 1 true]} := by
  obtain ⟨r, st', he⟩ := exists_refresh (w := oneRow) (by decide +kernel)
  have hempty := freshOutput_oneRow.outputEmpty.refresh scanDynamicTable_maintained he
  refine ⟨r, st', freshOutput_oneRow, scanDynamicTable_maintained, he, ?_, by decide +kernel⟩
  rw [World.contents_eq_zero hempty.not_isActive]
  rfl

end NovaCore
