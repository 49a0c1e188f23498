import NovaCore.Executor.Alone
import NovaCore.Executor.Session
import NovaCore.Mp.Contents

/-!
# The merge sweep

The background task that merges small micro-partitions.  It writes the rows of a group into one new
file and marks the members superseded, but no record is ever stored for the new file: it is written
under the identifier 0 and version 0, and every member names 0 as its successor.

## Main definitions

* `runMergeSweep`, `mergeMpGroup`, `flushBatch` : the task, as in the source.
* `mergeGroups` : the groups that the greedy loop of `mergeMpGroup` makes.
* `World.Mergeable` : some table has a group of at least two micro-partitions with something to
  read.

## Main results

* `sweeps_runMergeSweep` : a sweep leaves the store alone, or supersedes a micro-partition by 0.
* `sweep_preserves_iff` : **when a sweep keeps the tables.**
-/

namespace NovaCore

open List Function Option MicroPartitionMeta Except

/-! ### The task -/

/-- `concat_batches`: columns beyond the schema are dropped. -/
def concatBatches (schema : List Field) (batches : List RecordBatch) :
    Except NovaError RecordBatch :=
  let rows := batches.flatMap fun b => b.rows.map (List.take schema.length)
  if h : ∀ row ∈ rows, rowFits schema row = true then .ok ⟨schema, rows, h⟩
  else .error (.internal "Invalid argument error: arrays of different data types")

/-- `flush_batch`: write the merged file and supersede the members. -/
def flushBatch : List MicroPartitionMeta → Nova ℕ
  | first :: second :: rest => do
    let batch := first :: second :: rest
    let allBatches ← batch.foldlM (fun all mp => do
      let batches ← await (.getFile mp.readPath)
      return all ++ batches) []
    match allBatches with
    | [] => return 0
    | b :: bs => do
      let merged ← liftExcept (concatBatches b.schema (b :: bs))
      let newMp ← MpWriter.write first.tableId 0 0 [merged] first.txnId
      batch.forM fun old => markSuperseded old.mpId newMp.mpId
      return batch.length
  | _ => return 0

/-- The mutable variables of `merge_mp_group`. -/
structure MergeAcc where
  superseded : ℕ
  batchMps : List MicroPartitionMeta
  batchRows : ℕ

/-- Body of the loop of `merge_mp_group`. -/
def mergeStep (targetRows : ℕ) (acc : MergeAcc) (mp : MicroPartitionMeta) : Nova MergeAcc := do
  let batchMps := acc.batchMps ++ [mp]
  let batchRows ← liftExcept (checkedAdd acc.batchRows mp.rowCount)
  if targetRows ≤ batchRows then
    let flushed ← flushBatch batchMps
    return ⟨acc.superseded + flushed, [], 0⟩
  else
    return ⟨acc.superseded, batchMps, batchRows⟩

/-- `merge_mp_group`. -/
def mergeMpGroup (candidates : List MicroPartitionMeta) (targetRows : ℕ) : Nova ℕ := do
  let acc ← candidates.foldlM (mergeStep targetRows) ⟨0, [], 0⟩
  if 2 ≤ acc.batchMps.length then
    let flushed ← flushBatch acc.batchMps
    return acc.superseded + flushed
  else
    return acc.superseded

/-- Small enough to be merged. -/
def mergeCandidates (targetRows : ℕ) (mps : List MicroPartitionMeta) : List MicroPartitionMeta :=
  mps.filter fun mp => mp.rowCount < targetRows / 2

/-- Body of the loop over tables of `run_merge_sweep`. -/
def mergeTable (minMps targetRows : ℕ) (table : TableMeta) : Nova Unit := do
  let activeMps ← getActiveMps table.id
  if activeMps.length < minMps then
    return
  let candidates := mergeCandidates targetRows activeMps
  if candidates.length < 2 then
    return
  let _merged ← mergeMpGroup candidates targetRows
  return

/-- `run_merge_sweep`. -/
def runMergeSweep (minMps targetRows : ℕ) : Nova Unit := do
  let dbs ← await .listDatabases
  dbs.forM fun db => do
    let schemas ← await (.listSchemas db.id)
    schemas.forM fun schema => do
      let tables ← await (.listTables db.id schema.id)
      tables.forM (mergeTable minMps targetRows)

/-! ### What there is to merge -/

/-- The groups the loop of `merge_mp_group` makes, with the last, unfinished one at the end. -/
def mergeGroups (targetRows : ℕ) (batchMps : List MicroPartitionMeta) (batchRows : ℕ) :
    List MicroPartitionMeta → List (List MicroPartitionMeta)
  | [] => [batchMps]
  | mp :: mps =>
    if targetRows ≤ batchRows + mp.rowCount then
      (batchMps ++ [mp]) :: mergeGroups targetRows [] 0 mps
    else
      mergeGroups targetRows (batchMps ++ [mp]) (batchRows + mp.rowCount) mps

namespace World

variable (w : World)

/-- The group has at least two members, and one of them has something to read. -/
def GroupMergeable (group : List MicroPartitionMeta) : Prop :=
  2 ≤ group.length ∧ ∃ mp ∈ group, ∃ b bs, w.files mp.readPath = some (b :: bs)

/-- The table has enough active micro-partitions, and a group to merge among the small ones. -/
def TableMergeable (minMps targetRows : ℕ) (t : TableId) : Prop :=
  minMps ≤ (w.getActiveMps t).length ∧
    ∃ group ∈ mergeGroups targetRows [] 0 (mergeCandidates targetRows (w.getActiveMps t)),
      w.GroupMergeable group

/-- Some table has a group to merge. -/
def Mergeable (minMps targetRows : ℕ) : Prop :=
  ∃ db ∈ w.catalog.listDatabases, ∃ schema ∈ w.catalog.listSchemas db.id,
    ∃ table ∈ w.catalog.listTables db.id schema.id, w.TableMergeable minMps targetRows table.id

end World

variable {mp : MicroPartitionMeta} {group mps : List MicroPartitionMeta} {targetRows minMps : ℕ}
  {table : TableMeta}

section

variable {pq : Parquet} {w v v' : World}

/-! ### The parts of the sweep -/

/-- `v` is the store `w` after a merge: at least one record of `w` has been marked superseded by 0,
and no record has changed otherwise. -/
structure Merged (w v : World) : Prop where
  records : ∀ k, v.mps k = w.mps k ∨
    ∃ mp, w.mps k = some mp ∧ v.mps k = some (mp.markedSuperseded 0)
  marked : ∃ k mp r, w.mps k = some mp ∧ mp.isActive = true ∧ w.mps mp.mpId = some r ∧
    v.mps mp.mpId = some (r.markedSuperseded 0)

theorem exec_markSuperseded {old new : MpId} (h : Ends (Step pq) v (markSuperseded old new) () v') :
    ∃ mp, v.mps old = some mp ∧
      v'.mps = update v.mps old (some (mp.markedSuperseded new)) := by
  have hread := (exec_read_iff fun _ => by rfl).1 h
  cases hmp : v.mps old with
  | none =>
    rw [hmp] at hread
    change Exec _ _ (.ret (error _)) (ok ()) _ at hread
    simp at hread
  | some mp =>
    rw [hmp] at hread
    obtain ⟨x, hx⟩ := step_ok (execE_call_iff.1 hread)
    cases hx
    exact ⟨mp, rfl, rfl⟩

/-- The first record that is marked. -/
theorem Merged.first {k : MpId} (hv : v.mps = w.mps) (hk : w.mps k = some mp)
    (hact : mp.isActive = true) (h : Ends (Step pq) v (markSuperseded mp.mpId 0) () v') :
    Merged w v' := by
  obtain ⟨r, hr, hmps⟩ := exec_markSuperseded h
  rw [hv] at hr hmps
  refine ⟨fun j => ?_, k, mp, r, hk, hact, hr, by simp [hmps]⟩
  by_cases hj : j = mp.mpId
  · subst hj
    exact .inr ⟨r, hr, by simp [hmps]⟩
  · exact .inl (by simp [hmps, hj])

theorem Merged.congr (h : Merged w v) (hmps : v'.mps = v.mps) : Merged w v' :=
  ⟨hmps ▸ h.records, hmps ▸ h.marked⟩

/-- Marking more records. -/
theorem Merged.mark (h : Merged w v) {old : MpId}
    (he : Ends (Step pq) v (markSuperseded old 0) () v') : Merged w v' := by
  obtain ⟨r, hr, hmps⟩ := exec_markSuperseded he
  -- Marking a record again gives the same record.
  have hagain : ∀ mp, w.mps old = some mp → v'.mps old = some (mp.markedSuperseded 0) := by
    intro mp hmp
    rw [hmps, update_self]
    rcases h.records old with hold | ⟨mp', hmp', hmarked⟩
    · obtain rfl : r = mp := some.inj ((hr.symm.trans hold).trans hmp)
      rfl
    · obtain rfl : mp' = mp := mem_unique hmp' hmp
      obtain rfl : r = mp'.markedSuperseded 0 := mem_unique hr hmarked
      rfl
  have hne : ∀ j, j ≠ old → v'.mps j = v.mps j := by
    intro j hj
    rw [hmps, update_of_ne hj]
  refine ⟨fun j => ?_, ?_⟩
  · by_cases hj : j = old
    · subst hj
      rcases h.records j with hold | ⟨mp, hmp, -⟩
      · exact .inr ⟨r, hold ▸ hr, hagain r (hold ▸ hr)⟩
      · exact .inr ⟨mp, hmp, hagain mp hmp⟩
    · rw [hne j hj]
      exact h.records j
  · obtain ⟨k, mp, r', hk, hact, hr', hmarked⟩ := h.marked
    refine ⟨k, mp, r', hk, hact, hr', ?_⟩
    by_cases hj : mp.mpId = old
    · rw [hj] at hr' ⊢
      exact hagain r' hr'
    · rw [hne _ hj]
      exact hmarked

theorem exec_write {t : TableId} {k : MpId} {version : ℕ} {batches : List RecordBatch}
    {txnId : TxnId}
    (h : Ends (Step pq) v (MpWriter.write t k version batches txnId) mp v') :
    mp.mpId = k ∧ v'.mps = v.mps := by
  unfold MpWriter.write at h
  split_ifs at h with hb
  · change Exec _ _ (.ret (error _)) (ok mp) _ at h
    simp at h
  · obtain ⟨_, w1, hput, hret⟩ := execE_bind_iff.1 h
    obtain ⟨x, hx⟩ := step_ok (execE_call_iff.1 hput)
    obtain ⟨rfl, rfl⟩ := execE_pure_iff.1 hret
    cases hx
    exact ⟨rfl, rfl⟩

/-- The loop of `flush_batch` that reads the members. -/
theorem exec_readAll {acc all : List RecordBatch}
    (h : Ends (Step pq) v (group.foldlM (fun all mp => do
      let batches ← await (.getFile mp.readPath)
      return all ++ batches) acc : Nova (List RecordBatch)) all v') :
    v' = v ∧ all = acc ++ group.flatMap fun mp => (v.files mp.readPath).getD [] := by
  induction group generalizing acc with
  | nil =>
    obtain ⟨rfl, rfl⟩ := execE_pure_iff.1 h
    exact ⟨rfl, by simp⟩
  | cons mp group ih =>
    obtain ⟨acc1, w1, hbody, hrest⟩ := execE_bind_iff.1 h
    obtain ⟨bs, w2, hget, hret⟩ := execE_bind_iff.1 hbody
    obtain ⟨rfl, rfl⟩ := execE_pure_iff.1 hret
    obtain ⟨x, hx⟩ := step_ok (execE_call_iff.1 hget)
    simp only [Op.perform] at hx
    split at hx
    · next bs' hbs =>
      cases hx
      obtain ⟨rfl, rfl⟩ := ih hrest
      exact ⟨rfl, by simp [hbs]⟩
    · cases hx

theorem groupMergeable_iff : w.GroupMergeable group ↔
    2 ≤ group.length ∧ group.flatMap (fun mp => (w.files mp.readPath).getD []) ≠ [] := by
  refine and_congr_right fun _ => ?_
  simp only [ne_eq, flatMap_eq_nil_iff, not_forall, exists_prop]
  refine exists_congr fun mp => and_congr_right fun _ => ?_
  cases w.files mp.readPath with
  | none => simp
  | some bs => cases bs <;> simp

/-- What `flush_batch` does after the members have been read. -/
theorem exec_flushBatch_cases {n : ℕ} (h : Ends (Step pq) v (flushBatch group) n v') :
    (v' = v ∧ ¬v.GroupMergeable group) ∨ (v.GroupMergeable group ∧ ∃ v1, v1.mps = v.mps ∧
      Ends (Step pq) v1 (group.forM fun old => markSuperseded old.mpId 0) () v') := by
  rw [groupMergeable_iff]
  match group with
  | [] | [mp] =>
    obtain ⟨-, rfl⟩ := execE_pure_iff.1 h
    exact .inl ⟨rfl, by simp⟩
  | first :: second :: rest =>
    obtain ⟨all, w1, hread, hrest⟩ := execE_bind_iff.1 h
    obtain ⟨rfl, hall⟩ := exec_readAll hread
    rw [nil_append] at hall
    rw [← hall]
    cases all with
    | nil =>
      obtain ⟨-, rfl⟩ := execE_pure_iff.1 hrest
      exact .inl ⟨rfl, by simp⟩
    | cons b bs =>
      obtain ⟨merged, w2, hconcat, hmerged⟩ := execE_bind_iff.1 hrest
      obtain ⟨-, rfl⟩ := execE_liftExcept_iff.1 hconcat
      obtain ⟨newMp, w3, hwrite, hwritten⟩ := execE_bind_iff.1 hmerged
      obtain ⟨hid, hmps⟩ := exec_write hwrite
      obtain ⟨_, w4, hmark, hret⟩ := execE_bind_iff.1 hwritten
      obtain ⟨-, rfl⟩ := execE_pure_iff.1 hret
      rw [hid] at hmark
      exact .inr ⟨⟨by simp, by simp⟩, w3, hmps, hmark⟩

/-- A part of a sweep from `w` that leads from `v` to `v'`: if nothing was done before, it does
nothing or supersedes a micro-partition by 0, and which of the two is told by `M`. -/
def Swept (w v v' : World) (M : Prop) : Prop :=
  (v = w → (v' = w ∧ ¬M) ∨ (Merged w v' ∧ M)) ∧ (Merged w v → Merged w v')

theorem Swept.refl {M : Prop} (hM : ¬M) : Swept w v v M := ⟨fun hv => .inl ⟨hv, hM⟩, id⟩

theorem Swept.trans {M M' : Prop} {v1 : World} (h : Swept w v v1 M) (h' : Swept w v1 v' M') :
    Swept w v v' (M ∨ M') := by
  refine ⟨fun hv => ?_, fun hM => h'.2 (h.2 hM)⟩
  rcases h.1 hv with ⟨rfl, hno⟩ | ⟨hM, hyes⟩
  · rcases h'.1 rfl with ⟨rfl, hno'⟩ | ⟨hM, hyes⟩
    · exact .inl ⟨rfl, not_or.2 ⟨hno, hno'⟩⟩
    · exact .inr ⟨hM, .inr hyes⟩
  · exact .inr ⟨h'.2 hM, .inl hyes⟩

/-- **One flush**: nothing happens, or the members are superseded by 0. -/
theorem exec_flushBatch {n : ℕ} (hgroup : ∀ mp ∈ group, ∃ k, w.mps k = some mp ∧ mp.isActive = true)
    (h : Ends (Step pq) v (flushBatch group) n v') :
    Swept w v v' (w.GroupMergeable group) := by
  rcases exec_flushBatch_cases h with ⟨rfl, hno⟩ | ⟨hyes, v1, hmps, hmark⟩
  · exact ⟨fun hv => .inl ⟨hv, hv ▸ hno⟩, id⟩
  · refine ⟨?_, fun hM => hmark.forM_invariant (hM.congr hmps) fun x _ _ _ hM he => hM.mark he⟩
    rintro rfl
    cases group with
    | nil => exact absurd hyes.1 (by simp)
    | cons mp rest =>
      obtain ⟨k, hk, hact⟩ := hgroup mp (by simp)
      obtain ⟨v2, hfirst, hrest⟩ := execE_forM_cons_iff.1 hmark
      exact .inr ⟨hrest.forM_invariant (Merged.first hmps hk hact hfirst)
        fun x _ _ _ hM he => hM.mark he, hyes⟩

/-- One iteration of the loop of `merge_mp_group`. -/
theorem exec_mergeStep {acc acc' : MergeAcc}
    (h : Ends (Step pq) v (mergeStep targetRows acc mp) acc' v') :
    (targetRows ≤ acc.batchRows + mp.rowCount ∧ acc'.batchMps = [] ∧ acc'.batchRows = 0 ∧
      ∃ n, Ends (Step pq) v (flushBatch (acc.batchMps ++ [mp])) n v') ∨
    (¬targetRows ≤ acc.batchRows + mp.rowCount ∧ acc'.batchMps = acc.batchMps ++ [mp] ∧
      acc'.batchRows = acc.batchRows + mp.rowCount ∧ v' = v) := by
  obtain ⟨rows, w1, hadd, hrest⟩ := execE_bind_iff.1 h
  obtain ⟨hrows, rfl⟩ := execE_liftExcept_iff.1 hadd
  obtain ⟨-, rfl⟩ := checkedAdd_eq_ok.1 hrows
  split_ifs at hrest with hle
  · obtain ⟨n, w2, hflush, hret⟩ := execE_bind_iff.1 hrest
    obtain ⟨rfl, rfl⟩ := execE_pure_iff.1 hret
    exact .inl ⟨hle, rfl, rfl, n, hflush⟩
  · obtain ⟨rfl, rfl⟩ := execE_pure_iff.1 hrest
    exact .inr ⟨hle, rfl, rfl, rfl⟩

/-- The loop of `merge_mp_group`, run from any store; the last group is still open. -/
theorem exec_mergeLoop {acc acc' : MergeAcc}
    (hactive : ∀ mp ∈ acc.batchMps ++ mps, ∃ k, w.mps k = some mp ∧ mp.isActive = true)
    (h : Ends (Step pq) v (mps.foldlM (mergeStep targetRows) acc) acc' v') :
    ∃ closed, mergeGroups targetRows acc.batchMps acc.batchRows mps = closed ++ [acc'.batchMps] ∧
      (∀ mp ∈ acc'.batchMps, mp ∈ acc.batchMps ++ mps) ∧
      Swept w v v' (∃ g ∈ closed, w.GroupMergeable g) := by
  induction mps generalizing acc v with
  | nil =>
    obtain ⟨rfl, rfl⟩ := execE_pure_iff.1 h
    exact ⟨[], rfl, by simp, .refl (by simp)⟩
  | cons mp mps ih =>
    obtain ⟨acc1, v1, hstep, hrest⟩ := execE_bind_iff.1 h
    rcases exec_mergeStep hstep with ⟨hle, hb, hr, n, hflush⟩ | ⟨hle, hb, hr, rfl⟩
    · -- The group is closed and flushed.
      have hactive1 : ∀ m ∈ acc1.batchMps ++ mps, ∃ k, w.mps k = some m ∧ m.isActive = true := by
        intro m hm
        rw [hb, nil_append] at hm
        exact hactive m (by simp [hm])
      obtain ⟨closed, hgroups, hsub, hswept⟩ := ih hactive1 hrest
      refine ⟨(acc.batchMps ++ [mp]) :: closed, ?_, ?_, ?_⟩
      · rw [mergeGroups, if_pos hle, cons_append, ← hgroups, hb, hr]
      · intro m hm
        have hm' := hsub m hm
        simp only [hb, nil_append] at hm'
        simp [hm']
      · simp only [mem_cons, or_and_right, exists_or, exists_eq_left]
        exact (exec_flushBatch (fun m hm => hactive m (by simp at hm ⊢; tauto)) hflush).trans hswept
    · have hactive1 : ∀ m ∈ acc1.batchMps ++ mps, ∃ k, w.mps k = some m ∧ m.isActive = true :=
        fun m hm => hactive m (by simpa [hb] using hm)
      obtain ⟨closed, hgroups, hsub, hswept⟩ := ih hactive1 hrest
      refine ⟨closed, ?_, fun m hm => by simpa [hb] using hsub m hm, hswept⟩
      rw [mergeGroups, if_neg hle, ← hgroups, hb, hr]

/-- `merge_mp_group`, run from any store. -/
theorem exec_mergeMpGroup {n : ℕ}
    (hactive : ∀ mp ∈ mps, ∃ k, w.mps k = some mp ∧ mp.isActive = true)
    (h : Ends (Step pq) v (mergeMpGroup mps targetRows) n v') :
    Swept w v v' (∃ g ∈ mergeGroups targetRows [] 0 mps, w.GroupMergeable g) := by
  obtain ⟨acc, v1, hloop, hlast⟩ := execE_bind_iff.1 h
  obtain ⟨closed, hgroups, hsub, hswept⟩ := exec_mergeLoop (by simpa using hactive) hloop
  rw [hgroups]
  simp only [mem_append, mem_singleton, or_and_right, exists_or, exists_eq_left]
  split_ifs at hlast with htwo
  · obtain ⟨m, w2, hflush, hret⟩ := execE_bind_iff.1 hlast
    obtain ⟨-, rfl⟩ := execE_pure_iff.1 hret
    exact hswept.trans (exec_flushBatch (fun mp hmp => hactive mp (hsub mp hmp)) hflush)
  · obtain ⟨-, rfl⟩ := execE_pure_iff.1 hlast
    exact hswept.trans (.refl fun hg => htwo hg.1)

/-- A group has no more members than there are candidates. -/
theorem length_le_of_mem_mergeGroups {rows : ℕ} {batch g : List MicroPartitionMeta}
    (hg : g ∈ mergeGroups targetRows batch rows mps) : g.length ≤ batch.length + mps.length := by
  induction mps generalizing batch rows with
  | nil =>
    rw [mergeGroups, mem_singleton] at hg
    simp [hg]
  | cons mp mps ih =>
    rw [mergeGroups] at hg
    split_ifs at hg
    · rcases mem_cons.1 hg with rfl | hg
      · simp
      · have hle := ih hg
        simp at hle ⊢
        omega
    · have hle := ih hg
      simp at hle ⊢
      omega

theorem Merged.active (h : Merged w v) {k : MpId} (hk : v.mps k = some mp)
    (hact : mp.isActive = true) : w.mps k = some mp := by
  rcases h.records k with hsame | ⟨r, -, hmarked⟩
  · rw [← hsame, hk]
  · obtain rfl := mem_unique hk hmarked
    simp [isActive, markedSuperseded] at hact

/-- What one iteration of the loop over tables does after the active micro-partitions are read. -/
theorem exec_mergeTable_cases (h : Ends (Step pq) v (mergeTable minMps targetRows table) () v') :
    (v' = v ∧ ¬v.TableMergeable minMps targetRows table.id) ∨
      (minMps ≤ (v.getActiveMps table.id).length ∧ ∃ n, Ends (Step pq) v
        (mergeMpGroup (mergeCandidates targetRows (v.getActiveMps table.id)) targetRows)
        n v') := by
  obtain ⟨mps, v1, hget, hrest⟩ := execE_bind_iff.1 h
  obtain ⟨rfl, rfl⟩ := exec_getActiveMps_iff.1 hget
  dsimp only at hrest
  split_ifs at hrest with hmin hfew
  · obtain ⟨-, rfl⟩ := execE_pure_iff.1 hrest
    exact .inl ⟨rfl, fun hM => hmin.not_ge hM.1⟩
  · obtain ⟨-, rfl⟩ := execE_pure_iff.1 hrest
    refine .inl ⟨rfl, fun hM => ?_⟩
    obtain ⟨-, g, hg, htwo, -⟩ := hM
    have hle := length_le_of_mem_mergeGroups hg
    simp only [length_nil] at hle
    omega
  · obtain ⟨n, v2, hmerge, hret⟩ := execE_bind_iff.1 hrest
    obtain ⟨-, rfl⟩ := execE_pure_iff.1 hret
    exact .inr ⟨not_lt.1 hmin, n, hmerge⟩

/-- **One table of the sweep.** -/
theorem exec_mergeTable (h : Ends (Step pq) v (mergeTable minMps targetRows table) () v') :
    Swept w v v' (w.TableMergeable minMps targetRows table.id) := by
  have hcandidates : ∀ mp ∈ mergeCandidates targetRows (v.getActiveMps table.id),
      ∃ k, v.mps k = some mp ∧ mp.isActive = true := by
    intro mp hmp
    obtain ⟨k, -, hk⟩ := World.mem_getActiveMps.1 (mem_filter.1 hmp).1
    exact ⟨k, hk⟩
  rcases exec_mergeTable_cases h with ⟨rfl, hno⟩ | ⟨hmin, n, hmerge⟩
  · exact ⟨fun hv => .inl ⟨hv, hv ▸ hno⟩, id⟩
  · refine ⟨?_, fun hM => (exec_mergeMpGroup (fun mp hmp => ?_) hmerge).2 hM⟩
    · rintro rfl
      rcases (exec_mergeMpGroup hcandidates hmerge).1 rfl with ⟨rfl, hno⟩ | ⟨hM, hyes⟩
      · exact .inl ⟨rfl, fun hM => hno hM.2⟩
      · exact .inr ⟨hM, hmin, hyes⟩
    · obtain ⟨k, hk, hact⟩ := hcandidates mp hmp
      exact ⟨k, hM.active hk hact, hact⟩

/-- `p` leaves the store `w` alone if `M` is false, and otherwise supersedes a micro-partition
by 0. -/
structure Sweeps (pq : Parquet) (w : World) (p : Nova Unit) (M : Prop) : Prop where
  first : ∀ v, Exec (Step pq) w p.run (.ok ()) v → (v = w ∧ ¬M) ∨ (Merged w v ∧ M)
  later : ∀ v v', Merged w v → Exec (Step pq) v p.run (.ok ()) v' → Merged w v'

/-- A loop over a listing of the catalogue. -/
theorem Sweeps.loop {β : Type} {p : Nova (List β)} {f : β → Nova Unit} {M : β → Prop}
    (listing : World → List β)
    (hp : ∀ v ys v1, Ends (Step pq) v p ys v1 → ys = listing v ∧ v1 = v)
    (hf : ∀ x, Sweeps pq w (f x) (M x)) :
    Sweeps pq w (p >>= fun ys => ys.forM f) (∃ x ∈ listing w, M x) := by
  refine ⟨fun v he => ?_, fun v v' hM he => ?_⟩
  · obtain ⟨ys, v1, hl, hloop⟩ := execE_bind_iff.1 he
    obtain ⟨rfl, rfl⟩ := hp _ _ _ hl
    simpa using hloop.forM_dichotomy (fun x _ => (hf x).first) fun x _ => (hf x).later
  · obtain ⟨ys, v1, hl, hloop⟩ := execE_bind_iff.1 he
    obtain ⟨rfl, rfl⟩ := hp _ _ _ hl
    exact hloop.forM_invariant hM fun x _ => (hf x).later

/-- **The sweep** leaves the store alone when there is nothing to merge, and otherwise supersedes
a micro-partition by 0. -/
theorem sweeps_runMergeSweep :
    Sweeps pq w (runMergeSweep minMps targetRows) (w.Mergeable minMps targetRows) := by
  refine Sweeps.loop (fun v => v.catalog.listDatabases)
    (fun _ _ _ he => (exec_await_iff fun _ => rfl).1 he) fun db => ?_
  refine Sweeps.loop (fun v => v.catalog.listSchemas db.id)
    (fun _ _ _ he => (exec_await_iff fun _ => rfl).1 he) fun schema => ?_
  refine Sweeps.loop (fun v => v.catalog.listTables db.id schema.id)
    (fun _ _ _ he => (exec_await_iff fun _ => rfl).1 he) fun table => ?_
  exact ⟨fun _ he => (exec_mergeTable he).1 rfl, fun _ _ hM he => (exec_mergeTable he).2 hM⟩

/-! ### What the sweep should keep -/

/-- The rows of a micro-partition. -/
def World.mpRows (w : World) (mp : MicroPartitionMeta) : Multiset (List Cell) :=
  ((w.files mp.readPath).getD []).flatMap RecordBatch.logicalRows

/-- The rows readable through `get_active_mps`. -/
def World.readableRows (w : World) (t : TableId) : Multiset (List Cell) :=
  ((w.getActiveMps t : Multiset MicroPartitionMeta).map w.mpRows).sum

/-- A sweep from `w` to `w'` keeps the rows of every table, and each micro-partition it marks
superseded names an active micro-partition of the same table that contains all its rows. -/
structure SweepPreserves (w w' : World) : Prop where
  rows : ∀ t, w'.readableRows t = w.readableRows t
  successor : ∀ k mp mp' n, w.mps k = some mp → w'.mps k = some mp' → mp' ≠ mp →
    mp'.supersededBy = some n → ∃ s, w'.mps n = some s ∧ s.isActive = true ∧
      s.tableId = mp.tableId ∧ n ∈ w'.tableMps mp.tableId ∧ w.mpRows mp ≤ w'.mpRows s

/-- After a merge some micro-partition names 0, which is not active, as its successor. -/
theorem Merged.not_preserves (h : Merged w v) (hid : ∀ k mp, w.mps k = some mp → mp.mpId = k)
    (hzero : ∀ mp, w.mps 0 = some mp → mp.isActive = false) : ¬SweepPreserves w v := by
  intro hp
  obtain ⟨k, mp, r, hk, hact, hr, hmarked⟩ := h.marked
  rw [hid k mp hk] at hr hmarked
  obtain rfl : mp = r := mem_unique hk hr
  have hne : mp.markedSuperseded 0 ≠ mp := by
    intro heq
    have hinactive : (mp.markedSuperseded 0).isActive = false := rfl
    simp [heq, hact] at hinactive
  obtain ⟨s, hs, hsact, -⟩ := hp.successor k mp _ 0 hk hmarked hne rfl
  simp [hzero s (h.active hs hsact)] at hsact

/-- **When a sweep keeps the tables.**  A sweep that returns `Ok` keeps the rows of every table and
leaves every superseded micro-partition with a proper successor if there is nothing to merge; and
only then, if records are stored under their identifiers and micro-partition 0 is not active. -/
theorem sweep_preserves_iff {minMps targetRows : ℕ} {w' : World}
    (h : Exec (Step pq) w (runMergeSweep minMps targetRows).run (.ok ()) w') :
    (¬w.Mergeable minMps targetRows → SweepPreserves w w') ∧
      ((∀ k mp, w.mps k = some mp → mp.mpId = k) →
        (∀ mp, w.mps 0 = some mp → mp.isActive = false) →
        (SweepPreserves w w' ↔ ¬w.Mergeable minMps targetRows)) := by
  have hsame : ¬w.Mergeable minMps targetRows → SweepPreserves w w' := by
    intro hno
    rcases sweeps_runMergeSweep.first w' h with ⟨rfl, -⟩ | ⟨-, hyes⟩
    · refine ⟨fun _ => rfl, fun k mp mp' n hk hk' hne _ => ?_⟩
      exact (hne (mem_unique hk' hk)).elim
    · exact (hno hyes).elim
  refine ⟨hsame, fun hid hzero => ⟨fun hp hM => ?_, hsame⟩⟩
  rcases sweeps_runMergeSweep.first w' h with ⟨-, hno⟩ | ⟨hmerged, -⟩
  · exact hno hM
  · exact hmerged.not_preserves hid hzero hp

end

/-! ### A merge that loses rows -/

/-- `sampleTable` with one row in each of the micro-partitions 7 and 8. -/
def twoMps : World :=
  { oneRow with
    mps := fun k =>
      if k = 7 then some sampleMp
      else if k = 8 then some { sampleMp with mpId := 8, s3Path := .temp 2 8 2, txnId := 2 }
      else none
    tableMps := fun t => if t = 1 then ((∅ : OMap Unit).insert 7 ()).insert 8 () else ∅
    files := fun p =>
      if p = .temp 1 7 1 then some [rowBatch 1]
      else if p = .temp 2 8 2 then some [rowBatch 2]
      else none
    issued := [8, 7] }

theorem oneRow_getActiveMps_length (t : TableId) : (oneRow.getActiveMps t).length ≤ 1 := by
  by_cases ht : t = 1
  · subst ht
    decide +kernel
  · have hempty : oneRow.tableMps t = ∅ := if_neg ht
    have hnil : oneRow.scanTableMps t = [] := by
      refine eq_nil_iff_forall_not_mem.2 fun k hk => ?_
      have hmem := (OMap.mem_scanKeys.1 hk).2
      simp [hempty] at hmem
    simp [World.getActiveMps, hnil]

/-- A sweep with the default settings does nothing to a table with one micro-partition. -/
theorem sweep_preserves_iff_oneRow : ∃ w',
    Exec (Step Parquet.verbatim) oneRow (runMergeSweep 8 500000).run (.ok ()) w' ∧
      SweepPreserves oneRow w' := by
  have hrun : ((runMergeSweep 8 500000).run.runAlone (Op.apply Parquet.verbatim) oneRow
      (replicate 5 { id := 0 })).any (fun x => decide (x.1 = .ok ())) = true := by
    decide +kernel
  obtain ⟨r, w', hexec, hr⟩ := exists_exec_of_runAlone hrun
  obtain rfl : r = .ok () := of_decide_eq_true hr
  refine ⟨w', hexec, (sweep_preserves_iff hexec).1 ?_⟩
  rintro ⟨db, -, schema, -, table, -, hmin, -⟩
  have hle := oneRow_getActiveMps_length table.id
  omega

/-- A sweep returns `Ok` and the table has lost both its rows; micro-partition 7 names as its
successor the identifier 0, for which there is no record. -/
theorem sweep_loses_rows : ∃ w',
    Exec (Step Parquet.verbatim) twoMps (runMergeSweep 2 10).run (.ok ()) w' ∧
      twoMps.readableRows 1 = {[.int64 1 true], [.int64 2 true]} ∧ w'.readableRows 1 = 0 ∧
      (w'.mps 7).bind MicroPartitionMeta.supersededBy = some 0 ∧ w'.mps 0 = none := by
  have hrun : ((runMergeSweep 2 10).run.runAlone (Op.apply Parquet.verbatim) twoMps
      (replicate 13 { id := 0 })).any (fun x => decide (x.1 = .ok ()) &&
        decide (x.2.readableRows 1 = 0) &&
        decide ((x.2.mps 7).bind supersededBy = some 0) &&
        decide (x.2.mps 0 = none)) = true := by
    decide +kernel
  obtain ⟨r, w', hexec, hq⟩ := exists_exec_of_runAlone hrun
  simp only [Bool.and_eq_true, decide_eq_true_eq] at hq
  obtain ⟨⟨⟨rfl, hrows⟩, hsup⟩, hzero⟩ := hq
  have hbefore : twoMps.readableRows 1 = {[.int64 1 true], [.int64 2 true]} := by decide +kernel
  exact ⟨w', hexec, hbefore, hrows, hsup, hzero⟩

end NovaCore
