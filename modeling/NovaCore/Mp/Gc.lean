import NovaCore.Executor.Objects
import NovaCore.Metadata.Alone
import NovaCore.Mp.TimeTravel

/-!
# Garbage collection

`gc_internal` walks over all tables and deletes micro-partitions that were superseded before a
cutoff time.  It looks for them among the *active* micro-partitions, and `get_active_mps` returns
none that is superseded: the sweep deletes nothing.

## Main definitions

* `gcInternal` : the sweep; `gcAt` is what follows the reading of the clock.
* `SupersededBefore` : a stored record that a statement of a history superseded before the cutoff.
* `GcExact` : the sweep deleted these records and no others.

## Main results

* `exec_gcAt_iff` : the sweep reports 0 and leaves the store as it was.
* `gc_exact_iff` : the sweep is exact if and only if there is nothing to delete.
-/

namespace NovaCore

/-! ### The sweep -/

/-- The cutoff time: `now` minus the retention in days; the product is taken in 64 bits. -/
def gcCutoff (now : Timestamp) (retentionDays : ℕ) : Except NovaError Timestamp :=
  if retentionDays * 86400 * 1000000 ≤ u64Max then
    .ok (satSub now (retentionDays * 86400 * 1000000))
  else .error (.panicked "attempt to multiply with overflow")

variable (cutoff : Timestamp) (deleted : ℕ)

/-- Body of the loop over micro-partitions. -/
def gcMp (mp : MicroPartitionMeta) : Meta ℕ :=
  if mp.supersededBy.isSome ∧ mp.commitTs < cutoff then do
    MetadataStore.deleteMp mp.mpId
    liftExcept (checkedAdd deleted 1)
  else return deleted

/-- Body of the loop over tables. -/
def gcTable (table : TableMeta) : Meta ℕ := do
  let mps ← storage (getActiveMps table.id)
  mps.foldlM (gcMp cutoff) deleted

/-- Body of the loop over schemas. -/
def gcSchema (dbId : DatabaseId) (deleted : ℕ) (schema : SchemaMeta) : Meta ℕ := do
  let tables ← storage (await (.listTables dbId schema.id))
  tables.foldlM (gcTable cutoff) deleted

/-- Body of the loop over databases. -/
def gcDatabase (db : DatabaseMeta) : Meta ℕ := do
  let schemas ← storage (await (.listSchemas db.id))
  schemas.foldlM (gcSchema cutoff db.id) deleted

/-- What `gc_internal` does once it has read the clock. -/
def gcAt (retentionDays : ℕ) (now : Timestamp) : Meta ℕ := do
  let cutoff ← liftExcept (gcCutoff now retentionDays)
  let dbs ← storage (await .listDatabases)
  dbs.foldlM (gcDatabase cutoff) 0

/-- `gc_internal`. -/
def gcInternal (retentionDays : ℕ) : Meta ℕ := do
  let now ← storage (await .nowMicros)
  gcAt retentionDays now

/-! ### What the sweep does -/

section

variable {pq : Parquet} {st st' : Store} {cutoff : Timestamp} {deleted n : ℕ}

theorem exec_gcTable_iff {table : TableMeta} :
    Ends (MetaStep pq) st (gcTable cutoff deleted table) n st' ↔ n = deleted ∧ st' = st := by
  have hskip : ∀ mp ∈ st.getActiveMps table.id, ∀ deleted n st1,
      Ends (MetaStep pq) st (gcMp cutoff deleted mp) n st1 ↔ n = deleted ∧ st1 = st := by
    intro mp hmp deleted n st1
    -- an active micro-partition is not superseded, so it is passed over
    obtain ⟨-, -, -, hactive⟩ := World.mem_getActiveMps.1 hmp
    have hnone : mp.supersededBy = none := by
      simpa using (Bool.and_eq_true_iff.1 hactive).2
    rw [gcMp, if_neg (by simp [hnone])]
    exact execE_pure_iff
  refine (execE_read_bind_iff fun _ _ => exec_storage_getActiveMps_iff).trans ?_
  exact execE_foldlM_skip_iff hskip

theorem exec_gcSchema_iff {dbId : DatabaseId} {schema : SchemaMeta} :
    Ends (MetaStep pq) st (gcSchema cutoff dbId deleted schema) n st' ↔ n = deleted ∧ st' = st := by
  refine (execE_read_bind_iff fun _ _ => exec_storage_read_iff fun _ => rfl).trans ?_
  exact execE_foldlM_skip_iff fun _ _ _ _ _ => exec_gcTable_iff

theorem exec_gcDatabase_iff {db : DatabaseMeta} :
    Ends (MetaStep pq) st (gcDatabase cutoff deleted db) n st' ↔ n = deleted ∧ st' = st := by
  refine (execE_read_bind_iff fun _ _ => exec_storage_read_iff fun _ => rfl).trans ?_
  exact execE_foldlM_skip_iff fun _ _ _ _ _ => exec_gcSchema_iff

/-- **The sweep deletes nothing.** -/
theorem exec_gcAt_iff {retentionDays : ℕ} {now : Timestamp} :
    Ends (MetaStep pq) st (gcAt retentionDays now) n st' ↔
      (∃ cutoff, gcCutoff now retentionDays = .ok cutoff) ∧ n = 0 ∧ st' = st := by
  refine execE_liftExcept_bind_iff.trans
    ((exists_congr fun cutoff => and_congr_right fun _ => ?_).trans exists_and_right)
  refine (execE_read_bind_iff fun _ _ => exec_storage_read_iff fun _ => rfl).trans ?_
  exact execE_foldlM_skip_iff fun _ _ _ _ _ => exec_gcDatabase_iff

theorem exec_gcInternal_iff {retentionDays : ℕ} :
    Ends (MetaStep pq) st (gcInternal retentionDays) n st' ↔
      ∃ now, Ends (MetaStep pq) st (gcAt retentionDays now) n st' := by
  unfold gcInternal
  rw [execE_bind_iff]
  constructor
  · rintro ⟨now, st1, hnow, he⟩
    obtain rfl := exec_now hnow
    exact ⟨now, he⟩
  · rintro ⟨now, he⟩
    refine ⟨now, st, exec_storage_iff.2 ⟨_, execE_call_iff.2 ⟨{ now := now }, rfl⟩, rfl⟩, he⟩

end

/-! ### What it should delete -/

/-- A statement that changes the micro-partitions of a table. -/
inductive DataStatement
  | dml (stmt : DmlStatement)
  | clone (db schema cloneTable sourceTable : String) (atTimestamp : Option Timestamp)

/-- The statement as `execute_with_context` gets it. -/
def DataStatement.statement : DataStatement → Statement
  | dml stmt => .dml stmt
  | clone db schema cloneTable sourceTable atTimestamp =>
    .createClone db schema cloneTable sourceTable atTimestamp

variable {ι : Type}

/-- Statements of sessions, one for each thread. -/
def dataConfig (fmt : TextFormat) (st : Store) (stmts : ι → SecurityContext × DataStatement) :
    Config ι MetaOp MetaOp.Res Store fun _ => Except NovaError QueryResult where
  world := st
  threads i := ((stmts i).2.statement.exec fmt (stmts i).1).run

/-- The event is the commit of a statement that replaced `k` by `next`. -/
def supersedes (k next : MpId) : Event MetaOp MetaOp.Res → Bool
  | ⟨.storage (.commitTableCdc _ _ superseded _), .ok _⟩ => (k, next) ∈ superseded
  | _ => false

/-- The event is the commit of a statement with a commit time before the cutoff; the change records
of a statement carry its commit time. -/
def commitsBefore : Event MetaOp MetaOp.Res → Bool
  | ⟨.storage (.commitTableCdc _ _ _ records), .ok _⟩ =>
    records.any fun record => record.commitTs < cutoff
  | _ => false

/-- The record of micro-partition `k` was superseded, by a statement of the history whose commit
time lies before the cutoff. -/
def SupersededBefore (h : History ι MetaOp MetaOp.Res) (st : Store) (cutoff : Timestamp)
    (k : MpId) : Prop :=
  ∃ mp next, st.mps k = some mp ∧ mp.supersededBy = some next ∧
    ∃ x ∈ h, supersedes k next x.2 = true ∧ commitsBefore cutoff x.2 = true

/-- A sweep at time `now` that turned `st` into `st'` deleted exactly the records superseded before
the cutoff; these are not visible from the cutoff on, and no record that is active or visible in the
retention window was deleted. -/
structure GcExact (h : History ι MetaOp MetaOp.Res) (cutoff now : Timestamp) (st st' : Store) :
    Prop where
  deleted_iff : ∀ k, st.mps k ≠ none → (st'.mps k = none ↔ SupersededBefore h st cutoff k)
  kept : ∀ k, st'.mps k ≠ none → st'.mps k = st.mps k
  invisible : ∀ k t ts, SupersededBefore h st cutoff k → cutoff ≤ ts →
    ∀ mp ∈ st.mpsAtTimestamp t ts, st.mps k ≠ some mp
  safe : ∀ k t mp, st.mps k = some mp → st'.mps k = none → mp.isActive = false ∧
    ∀ ts, cutoff ≤ ts → ts ≤ now → mp ∉ st.mpsAtTimestamp t ts

/-- **The sweep is exact if and only if there is nothing to delete**, whatever the history and the
state that it led to. -/
theorem gc_exact_iff {pq : Parquet} (h : History ι MetaOp MetaOp.Res) (st : Store)
    (retentionDays : ℕ) (now : Timestamp) :
    (∀ n st' cutoff, gcCutoff now retentionDays = .ok cutoff →
      Exec (MetaStep pq) st (gcAt retentionDays now).run (.ok n) st' →
      GcExact h cutoff now st st') ↔
    ∀ k cutoff, gcCutoff now retentionDays = .ok cutoff → ¬SupersededBefore h st cutoff k := by
  constructor
  · intro hexact k cutoff hcutoff hsup
    have hgc := hexact 0 st cutoff hcutoff (exec_gcAt_iff.2 ⟨⟨cutoff, hcutoff⟩, rfl, rfl⟩)
    have hk : st.mps k ≠ none := by
      obtain ⟨mp, -, hmp, -⟩ := hsup
      simp [hmp]
    exact hk ((hgc.deleted_iff k hk).2 hsup)
  · intro hnone n st' cutoff hcutoff he
    obtain ⟨-, -, rfl⟩ := exec_gcAt_iff.1 he
    refine ⟨fun k hk => ?_, fun k _ => rfl, fun k t ts hsup => ?_, fun k t mp hmp hdel => ?_⟩
    · exact iff_of_false hk (hnone k cutoff hcutoff)
    · exact (hnone k cutoff hcutoff hsup).elim
    · rw [hmp] at hdel
      cases hdel

/-! ### An UPDATE and a sweep -/

/-- The UPDATE replaces micro-partition 7 by 8 at time 5. -/
theorem updateAll_supersedes : ∃ h c,
    Run (MetaStep .verbatim)
      (dataConfig plainText oneRowStore fun _ : Unit => (rootSession, .dml (updateAll 2))) h c ∧
    c.world.mps 7 = some { sampleMp with supersededBy := some 8, active := false } ∧
    (∀ x ∈ h, commitsBefore 5 x.2 = false) ∧
    ∃ x ∈ h, supersedes 7 8 x.2 = true ∧ commitsBefore 10 x.2 = true := by
  have hs : ((dataConfig plainText oneRowStore fun _ : Unit => (rootSession,
      .dml (updateAll 2))).schedule (MetaOp.apply .verbatim)
      (List.replicate 20 ((), { id := 8, now := 5 }))).any (fun y =>
        y.2.world.mps 7 = some { sampleMp with supersededBy := some 8, active := false } ∧
        (∀ x ∈ y.1, commitsBefore 5 x.2 = false) ∧
        ∃ x ∈ y.1, supersedes 7 8 x.2 = true ∧ commitsBefore 10 x.2 = true) = true := by
    decide +kernel
  obtain ⟨h, c, hr, hc⟩ := exists_run_of_schedule hs
  exact ⟨h, c, hr, of_decide_eq_true hc⟩

/-- After the UPDATE that replaces micro-partition 7 by 8 at time 5, a sweep at time 5 has nothing
to delete. -/
theorem gc_exact_iff_updateAll : ∃ h c,
    Run (MetaStep .verbatim)
      (dataConfig plainText oneRowStore fun _ : Unit => (rootSession, .dml (updateAll 2))) h c ∧
    c.world.mps 7 = some { sampleMp with supersededBy := some 8, active := false } ∧
    ∀ n st' cutoff, gcCutoff 5 0 = .ok cutoff →
      Exec (MetaStep .verbatim) c.world (gcAt 0 5).run (.ok n) st' →
      GcExact h cutoff 5 c.world st' := by
  obtain ⟨h, c, hr, hmp, hall, -⟩ := updateAll_supersedes
  refine ⟨h, c, hr, hmp, (gc_exact_iff h c.world 0 5).2 ?_⟩
  rintro k cutoff hcutoff ⟨-, -, -, -, x, hx, -, hbefore⟩
  obtain rfl : 5 = cutoff := Except.ok.inj hcutoff
  cases hbefore.symm.trans (hall x hx)

/-- A sweep at time 10 without retention keeps micro-partition 7, which the UPDATE superseded at
time 5, and reports that it deleted nothing. -/
theorem gc_keeps_superseded : ∃ h c,
    Run (MetaStep .verbatim)
      (dataConfig plainText oneRowStore fun _ : Unit => (rootSession, .dml (updateAll 2))) h c ∧
    SupersededBefore h c.world 10 7 ∧ gcCutoff 10 0 = .ok 10 ∧
    Exec (MetaStep .verbatim) c.world (gcAt 0 10).run (.ok 0) c.world ∧
    ¬GcExact h 10 10 c.world c.world := by
  obtain ⟨h, c, hr, hmp, -, x, hx, hxs⟩ := updateAll_supersedes
  have hsup : SupersededBefore h c.world 10 7 := ⟨_, 8, hmp, rfl, x, hx, hxs⟩
  refine ⟨h, c, hr, hsup, rfl, exec_gcAt_iff.2 ⟨⟨10, rfl⟩, rfl, rfl⟩, fun hexact => ?_⟩
  have hk : c.world.mps 7 ≠ none := hmp ▸ Option.some_ne_none _
  exact hk ((hexact.deleted_iff 7 hk).2 hsup)

end NovaCore
