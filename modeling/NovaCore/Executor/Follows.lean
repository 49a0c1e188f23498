import NovaCore.Executor.Protocol

/-!
# INSERT, UPDATE and DELETE follow their protocol

One lemma per function of the statements, each saying which log it starts from and which log and
value it ends with.  The loops over batches and micro-partitions carry the invariants
`BatchInv` and `MpInv`.

* `exec_follows` : every statement follows `dmlProtocol`, succeeds only by committing, and a
  statement that fails has not committed.
-/

namespace NovaCore

open Prog List StmtLog DmlStatement FollowsE

/-- A statement that fails has not committed. -/
def StmtLog.Uncommitted (s : StmtLog) : Prop := s.commit = none

variable {t : TableId} {batches : List RecordBatch} {txnId : TxnId}
  {records : List ChangeRecordMeta} {batch : RecordBatch} {mask : List Bool}
  {db schema table : String}

section Follows

variable {fmt : TextFormat} {stmt : DmlStatement} {s : StmtLog}

/-- `p` follows the protocol of the statement, and fails only before its commit. -/
abbrev Performs {α : Type} (fmt : TextFormat) (stmt : DmlStatement) (Q : StmtLog → α → Prop)
    (p : Nova α) (s : StmtLog) : Prop :=
  FollowsE (dmlProtocol fmt stmt) Q Uncommitted p s

theorem follows_await {β : Type} {Q : StmtLog → β → Prop} {o : Op} {f : o.Ret → Nova β}
    (hs : s.commit = none) (ho : DmlMay fmt stmt s o)
    (hf : ∀ a, Performs fmt stmt Q (f a) (s.record o (.ok a))) :
    Performs fmt stmt Q (await o >>= f) s :=
  await_bind hs ⟨hs, ho⟩ hf

/-- The lookups of an index scan, under any protocol that allows them. -/
theorem getActiveMps_follows {Allowed : StmtLog → Op → Prop} (hs : s.commit = none)
    (hl : s.mp.lookups = []) (hscan : Allowed s (.scanTableMps t))
    (hget : ∀ lookups id rest, Allowed { s with mp := { s.mp with
      scan := some (t, lookups.map Prod.fst ++ id :: rest), lookups := lookups } } (.getMp id)) :
    FollowsE ⟨record, Allowed⟩ (fun s' mps => ∃ ids lookups,
        s' = { s with mp := { s.mp with scan := some (t, ids), lookups := lookups } } ∧
        lookups.map Prod.fst = ids ∧ mps = activeOf lookups)
      Uncommitted (getActiveMps t) s := by
  refine await_bind hs hscan fun ids => ?_
  refine mono (followsE_foldlM (fun done mps s' => ∃ lookups,
      s' = { s with mp := { s.mp with scan := some (t, ids), lookups := lookups } } ∧
      lookups.map Prod.fst = done ∧ mps = activeOf lookups) ?_ ?_) ?_
  · rintro done id rest mps _ hids ⟨lookups, rfl, hdone, rfl⟩
    refine await_bind hs (by rw [hids, ← hdone]; exact hget lookups id rest) fun mp => ?_
    refine followsE_pure ⟨lookups ++ [(id, mp)], rfl, by simp [hdone], ?_⟩
    simp [activeOf]
  · refine ⟨[], ?_, rfl, rfl⟩
    rw [← hl]
    rfl
  · rintro _ mps ⟨lookups, rfl, h⟩
    exact ⟨ids, lookups, rfl, h⟩

theorem beginTransaction_follows (hs : s.commit = none) : Performs fmt stmt
      (fun s' _ => ∃ now, s' = { s with mp := { s.mp with clock := some now } })
      beginTransaction s := by
  refine follows_await hs trivial fun txnId => ?_
  refine follows_await hs trivial fun now => ?_
  refine follows_await hs trivial fun _ => ?_
  exact followsE_pure ⟨now, rfl⟩

theorem write_follows {mpId : MpId} {version : ℕ} (done : List MpId) (hs : s.commit = none)
    (hids : s.mp.ids = done ++ [mpId]) (hfiles : ∀ f ∈ s.mp.files, f.1.mpId ∈ done) :
    Performs fmt stmt (fun s' mp => ∃ path,
        s' = { s with mp := { s.mp with files := s.mp.files ++ [(path, batches)] } } ∧
        path.mpId = mpId ∧ ∀ ts old, NewMp t ts old path (mp.committed ts old))
      (MpWriter.write t mpId version batches txnId) s := by
  unfold MpWriter.write
  split_ifs with hb
  · exact followsE_throw hs
  · refine follows_await hs ⟨done, hids, hfiles⟩ fun _ => ?_
    exact followsE_pure ⟨_, rfl, rfl, fun ts old => ⟨rfl, rfl, rfl, rfl, rfl, rfl⟩⟩

variable {records : List ChangeRecordMeta}

theorem CdcLog.Complete.snoc {c : CdcLog} {t : TableId}
    {a : Allocation} {p : CdcPath × CdcBatch} {r : ChangeRecordMeta}
    (h : c.Complete t records) (ha : a.tableId = t) (hp : PayloadFor a p) (hr : RecordFor p r) :
    CdcLog.Complete ⟨c.allocs ++ [a], c.payloads ++ [p]⟩ t (records ++ [r]) where
  tables := by
    intro b hb
    rcases mem_snoc.1 hb with hb | rfl
    · exact h.tables b hb
    · rw [ha]
  payloads := rel_append h.payloads (.cons hp .nil)
  records := rel_append h.records (.cons hr .nil)

/-- Storing the payload of the range allocated last. -/
theorem writeCdcPayloadAndMetadata_follows {start n : ℕ} {commitTs : Timestamp} {batch : CdcBatch}
    {counts : ChangeActionCounts} {minRowId maxRowId : Option StreamRowId} (done : List Allocation)
    (hs : s.commit = none) (hallocs : s.cdc.allocs = done ++ [⟨t, start, n⟩])
    (hdone : List.Forall₂ PayloadFor done s.cdc.payloads)
    (hseq : batch.sequences = range' start n) :
    Performs fmt stmt (fun s' r => ∃ path,
        s' = { s with cdc := { s.cdc with payloads := s.cdc.payloads ++ [(path, batch)] } } ∧
        PayloadFor ⟨t, start, n⟩ (path, batch) ∧ RecordFor (path, batch) r)
      (writeCdcPayloadAndMetadata t txnId start commitTs batch counts minRowId maxRowId) s := by
  have hn := CdcBatch.numRows_eq_of_sequences hseq
  unfold writeCdcPayloadAndMetadata writePayload
  split_ifs with hrows
  · exact followsE_bind (Q := fun _ _ => False) (followsE_throw hs) fun _ _ h => h.elim
  refine followsE_bind (Q := fun s' ref => ∃ path,
      s' = { s with cdc := { s.cdc with payloads := s.cdc.payloads ++ [(path, batch)] } } ∧
      PayloadFor ⟨t, start, n⟩ (path, batch) ∧ path.tableId = t ∧ path.startSequence = start ∧
      ref = ⟨path, 0, batch.numRows⟩) ?_ ?_
  · refine followsE_lift hs fun past hpast => ?_
    have hpayload : PayloadFor ⟨t, start, n⟩ (⟨t, txnId, start, past - 1⟩, batch) :=
      ⟨rfl, rfl, hseq, by simpa [hn] using Nat.pos_of_ne_zero hrows,
        by simpa [hn] using (checkedAdd_eq_ok.1 hpast).1⟩
    refine follows_await hs ⟨done, _, hallocs, hdone, hpayload⟩ fun _ => ?_
    exact followsE_pure ⟨_, rfl, hpayload, rfl, rfl, rfl⟩
  · rintro _ ref ⟨path, rfl, hpayload, htable, hstart, rfl⟩
    exact followsE_pure ⟨path, rfl, hpayload, ⟨htable.symm, hstart.symm, rfl⟩⟩

/-! ### The loop over batches -/

variable {scope : DmlScope} {assignments : List (String × ResolvedExpr)}
  {filter : Option ResolvedFilter} {mp : MicroPartitionMeta}

/-- Allocating a range, storing its payload and recording it. -/
theorem allocate_follows (scope : DmlScope) {n : ℕ} {α : Type} {Q : StmtLog → α → Prop}
    {body : ℕ → Nova α} (hs : s.commit = none) (hm : s.mp.table = some scope.tableMeta)
    (hc : s.cdc.Complete scope.tableMeta.id records) (hn : n = 0 → stmt.isEmptyInsert)
    (hbody : ∀ start, Performs fmt stmt Q (body start)
      { s with cdc := { s.cdc with allocs := s.cdc.allocs ++ [⟨scope.tableMeta.id, start, n⟩] } }) :
    Performs fmt stmt Q
      (await (.allocateTableChangeSequences scope.tableMeta.id n) >>= body) s := by
  exact follows_await hs ⟨⟨_, hm, rfl⟩, hc.payloads, hn⟩ hbody

/-- The changes of `n` rows of a batch were recorded, and nothing else happened. -/
def Recorded (scope : DmlScope) (s : StmtLog) (acc : BatchAcc) (n : ℕ) (s' : StmtLog)
    (acc' : BatchAcc) : Prop :=
  ∃ cdc, s' = { s with cdc := cdc } ∧ cdc.Complete scope.tableMeta.id acc'.records ∧
    acc'.matched = acc.matched + n ∧ acc'.batches = acc.batches

/-- One batch was handled: its matched rows are counted and recorded, and what `apply` makes of it
is kept if it passes `keep`. -/
def BatchDone (scope : DmlScope) (filter : Option ResolvedFilter)
    (apply : RecordBatch → Except NovaError RecordBatch) (keep : RecordBatch → Bool) (s : StmtLog)
    (acc : BatchAcc) (batch : RecordBatch) (s' : StmtLog) (acc' : BatchAcc) : Prop :=
  ∃ cdc mask out, s' = { s with cdc := cdc } ∧ cdc.Complete scope.tableMeta.id acc'.records ∧
    matchMask filter batch = .ok mask ∧ apply batch = .ok out ∧
    acc'.matched = acc.matched + (maskIndices mask).length ∧
    acc'.batches = acc.batches ++ [out].filter keep

section Batch

variable {acc : BatchAcc} (hs : s.commit = none) (hm : s.mp.table = some scope.tableMeta)
  (hc : s.cdc.Complete scope.tableMeta.id acc.records)
include hs hm hc

theorem recordUpdate_follows {modified : RecordBatch} {oldRows newRows : Option RecordBatch}
    (hmask : matchMask filter batch = .ok mask)
    (hmod : applyUpdateToBatch assignments filter batch = .ok modified)
    (hold : selectRowsByIndices batch (maskIndices mask) = .ok oldRows)
    (hnew : selectRowsByIndices modified (maskIndices mask) = .ok newRows) :
    Performs fmt stmt (Recorded scope s acc (maskIndices mask).length)
      (recordUpdate scope mp (maskIndices mask) oldRows newRows acc) s := by
  -- With no matching row `select_rows_by_indices` returns nothing and no range is allocated.
  have hnone : maskIndices mask = [] → Performs fmt stmt
      (Recorded scope s acc (maskIndices mask).length)
      (pure acc : Nova BatchAcc) s := by
    intro hi
    exact followsE_pure ⟨s.cdc, rfl, hc, by simp [hi], rfl⟩
  match oldRows, newRows, hold, hnew with
  | none, _, hold, _ => exact hnone (selectRowsByIndices_eq_none hold)
  | some _, none, _, hnew => exact hnone (selectRowsByIndices_eq_none hnew)
  | some oldRows, some newRows, hold, hnew =>
    obtain ⟨hne, rfl⟩ := selectRowsByIndices_eq_some hold
    obtain ⟨-, rfl⟩ := selectRowsByIndices_eq_some hnew
    have hlt : ∀ i ∈ maskIndices mask, i < batch.numRows := fun _ =>
      lt_of_mem_maskIndices hmask
    have hlt' : ∀ i ∈ maskIndices mask, i < modified.numRows := fun i hi =>
      (applyUpdateToBatch_eq_ok hmod).2 ▸ hlt i hi
    have hpos : 0 < (maskIndices mask).length := length_pos_iff.2 hne
    refine allocate_follows scope hs hm hc (fun h => by omega) fun start => ?_
    refine followsE_lift hs fun oldCdc hocdc => ?_
    refine followsE_lift hs fun newStart hstart => ?_
    refine followsE_lift hs fun newCdc hncdc => ?_
    refine followsE_lift hs fun cdcBatch hcat => ?_
    have hseq : cdcBatch.sequences = range' start ((maskIndices mask).length * 2) := by
      rw [concatCdc_eq_ok hcat, (buildCdcBatchForRows_eq_ok hocdc).2,
        (buildCdcBatchForRows_eq_ok hncdc).2, numRows_take hlt, numRows_take hlt',
        (checkedAdd_eq_ok.1 hstart).2, Nat.mul_two, range'_append_1]
    refine followsE_bind (writeCdcPayloadAndMetadata_follows _ hs rfl hc.payloads hseq) ?_
    rintro _ change ⟨path, rfl, hp, hr⟩
    exact followsE_pure ⟨_, rfl, hc.snoc rfl hp hr, rfl, rfl⟩

theorem recordDelete_follows {deletedRows : Option RecordBatch}
    (hmask : matchMask filter batch = .ok mask)
    (hdel : selectRowsByIndices batch (maskIndices mask) = .ok deletedRows) :
    Performs fmt stmt (Recorded scope s acc (maskIndices mask).length)
      (recordDelete scope mp (maskIndices mask) deletedRows acc) s := by
  match deletedRows, hdel with
  | none, hdel =>
    have hi := selectRowsByIndices_eq_none hdel
    exact followsE_pure ⟨s.cdc, rfl, hc, by simp [hi], rfl⟩
  | some deletedRows, hdel =>
    obtain ⟨hne, rfl⟩ := selectRowsByIndices_eq_some hdel
    have hlt : ∀ i ∈ maskIndices mask, i < batch.numRows := fun _ =>
      lt_of_mem_maskIndices hmask
    have hpos : 0 < (maskIndices mask).length := length_pos_iff.2 hne
    refine allocate_follows scope hs hm hc (fun h => by omega) fun start => ?_
    refine followsE_lift hs fun cdcBatch hcdc => ?_
    have hseq : cdcBatch.sequences = range' start (maskIndices mask).length := by
      rw [(buildCdcBatchForRows_eq_ok hcdc).2, numRows_take hlt]
    refine followsE_bind (writeCdcPayloadAndMetadata_follows _ hs rfl hc.payloads hseq) ?_
    rintro _ change ⟨path, rfl, hp, hr⟩
    exact followsE_pure ⟨_, rfl, hc.snoc rfl hp hr, rfl, rfl⟩

theorem updateBatch_follows : Performs fmt stmt
      (BatchDone scope filter (applyUpdateToBatch assignments filter) (fun _ => true) s acc batch)
      (updateBatch scope assignments filter mp acc batch) s := by
  refine followsE_lift hs fun mask hmask => ?_
  refine followsE_lift hs fun modified hmod => ?_
  refine followsE_lift hs fun oldRows hold => ?_
  refine followsE_lift hs fun newRows hnew => ?_
  refine followsE_bind (recordUpdate_follows hs hm hc hmask hmod hold hnew) ?_
  rintro _ acc' ⟨cdc, rfl, hc', hmatched, hbatches⟩
  exact followsE_pure ⟨cdc, mask, modified, rfl, hc', hmask, hmod, hmatched, by simp [hbatches]⟩

theorem deleteBatch_follows : Performs fmt stmt
      (BatchDone scope filter (applyDeleteToBatch filter) (fun b => 0 < b.numRows) s acc batch)
      (deleteBatch scope filter mp acc batch) s := by
  refine followsE_lift hs fun mask hmask => ?_
  refine followsE_lift hs fun deletedRows hdel => ?_
  refine followsE_bind (recordDelete_follows hs hm hc hmask hdel) ?_
  rintro _ acc' ⟨cdc, rfl, hc', hmatched, hbatches⟩
  refine followsE_lift hs fun kept hkept => ?_
  refine followsE_pure ⟨cdc, mask, kept, rfl, hc', hmask, hkept, hmatched, ?_⟩
  by_cases h : 0 < kept.numRows <;> simp [h, hbatches]

end Batch

/-! ### The loop over micro-partitions -/

theorem mapM_snoc {α β : Type} {f : α → Except NovaError β} {xs : List α} {ys : List β} {x : α}
    {y : β} (hxs : xs.mapM f = .ok ys) (hx : f x = .ok y) :
    (xs ++ [x]).mapM f = .ok (ys ++ [y]) := by
  rw [mapM_append, hxs, mapM_cons, hx]
  rfl

theorem matchedRows_snoc {n : ℕ} (hn : matchedRows filter batches = .ok n)
    (hmask : matchMask filter batch = .ok mask) :
    matchedRows filter (batches ++ [batch]) = .ok (n + (maskIndices mask).length) := by
  unfold matchedRows at hn ⊢
  cases hm : batches.mapM (matchMask filter) with
  | error e => simp [hm, Except.map] at hn
  | ok masks =>
    simp only [hm, Except.map, Except.ok.injEq] at hn
    rw [mapM_snoc hm hmask]
    simp [Except.map, hn]

/-- The loop over batches, for either statement. -/
theorem batches_follows {apply : RecordBatch → Except NovaError RecordBatch}
    {keep : RecordBatch → Bool} {body : BatchAcc → RecordBatch → Nova BatchAcc}
    (hbody : ∀ {s acc batch}, s.commit = none → s.mp.table = some scope.tableMeta →
      s.cdc.Complete scope.tableMeta.id acc.records → Performs fmt stmt
        (BatchDone scope filter apply keep s acc batch) (body acc batch) s)
    (hs : s.commit = none) (hm : s.mp.table = some scope.tableMeta)
    (hc : s.cdc.Complete scope.tableMeta.id records) :
    Performs fmt stmt (fun s' acc => ∃ cdc outs, s' = { s with cdc := cdc } ∧
        cdc.Complete scope.tableMeta.id acc.records ∧
        matchedRows filter batches = .ok acc.matched ∧ batches.mapM apply = .ok outs ∧
        acc.batches = outs.filter keep)
      (batches.foldlM body ⟨[], 0, 0, records⟩) s := by
  refine followsE_foldlM (fun done (acc : BatchAcc) s' => ∃ cdc outs, s' = { s with cdc := cdc } ∧
    cdc.Complete scope.tableMeta.id acc.records ∧ matchedRows filter done = .ok acc.matched ∧
    done.mapM apply = .ok outs ∧ acc.batches = outs.filter keep) ?_ ?_
  · rintro done batch rest acc _ - ⟨cdc, outs, rfl, hc', hn, houts, hb⟩
    refine mono (hbody hs hm hc') ?_
    rintro _ acc' ⟨cdc', mask, out, rfl, hc'', hmask, hout, hmatched, hbatches⟩
    refine ⟨cdc', outs ++ [out], rfl, hc'', ?_, mapM_snoc houts hout, ?_⟩
    · rw [hmatched]
      exact matchedRows_snoc hn hmask
    · rw [hbatches, hb, filter_append]
  · exact ⟨s.cdc, [], rfl, hc, rfl, rfl, rfl⟩

/-- Writing the replacement of a micro-partition. -/
theorem replaceMp_follows {acc : MpAcc} (hs : s.commit = none)
    (hfiles : ∀ f ∈ s.mp.files, f.1.mpId ∈ s.mp.ids) :
    Performs fmt stmt (fun s' acc' => ∃ path newMp, s' = { s with mp := { s.mp with
          ids := s.mp.ids ++ [path.mpId], files := s.mp.files ++ [(path, batches)] } } ∧
        NewMp scope.tableMeta.id scope.commitTs (some mp.mpId) path newMp ∧
        acc' = { acc with
          newMps := acc.newMps ++ [newMp]
          superseded := acc.superseded ++ [(mp.mpId, newMp.mpId)] })
      (replaceMp scope mp batches acc) s := by
  refine follows_await hs trivial fun newMpId => ?_
  refine follows_await hs trivial fun version => ?_
  refine followsE_bind (write_follows _ hs rfl hfiles) ?_
  rintro _ newMp ⟨path, rfl, rfl, hnew⟩
  have h := hnew scope.commitTs (some mp.mpId)
  refine followsE_pure ⟨path, _, rfl, h, ?_⟩
  rw [h.mpId]

/-- The loop invariant over micro-partitions: `done` are planned, `acc` holds the plan. -/
structure MpInv (stmt : DmlStatement) (scope : DmlScope) (mps done : List MicroPartitionMeta)
    (acc : MpAcc) (s : StmtLog) : Prop where
  commit : s.commit = none
  table : s.mp.table = some scope.tableMeta
  scan : s.mp.scan = some (scope.tableMeta.id, s.mp.lookups.map Prod.fst)
  active : activeOf s.mp.lookups = mps
  clock : s.mp.clock = some scope.commitTs
  cdc : s.cdc.Complete scope.tableMeta.id acc.records
  plan : ∃ rs, rs.map Prod.fst = done ∧ s.mp.reads = rs.map (fun r => (r.1.readPath, r.2)) ∧
    Planned stmt scope.tableMeta.id scope.commitTs rs acc.newMps acc.superseded s.mp.files
  ids : acc.superseded.map Prod.snd = s.mp.ids

theorem Planned.mem_files {ts : Timestamp} {rs : List (MicroPartitionMeta × List RecordBatch)}
    {new : List MicroPartitionMeta} {sup : List (MpId × MpId)}
    {files : List (MpPath × List RecordBatch)} (h : Planned stmt t ts rs new sup files) :
    ∀ f ∈ files, f.1.mpId ∈ sup.map Prod.snd := by
  induction h with
  | nil => simp
  | unchanged _ _ ih => exact ih
  | replaced _ _ hnew ih =>
    intro f hf
    rcases mem_snoc.1 hf with hf | rfl
    · simpa using Or.inl (ih f hf)
    · rw [map_append]
      exact mem_append_right _ (by simp [hnew.mpId])
  | removed _ _ ih =>
    intro f hf
    simpa using Or.inl (ih f hf)

section Loop

variable {mps done rest : List MicroPartitionMeta} {acc : MpAcc}

section

variable (h : MpInv stmt scope mps done acc s)
include h

theorem MpInv.files_mem_ids : ∀ f ∈ s.mp.files, f.1.mpId ∈ s.mp.ids := by
  obtain ⟨rs, -, -, hplan⟩ := h.plan
  exact h.ids ▸ hplan.mem_files

/-- The file of the next micro-partition may be read. -/
theorem MpInv.may_read (hmps : mps = done ++ mp :: rest) :
    DmlMay fmt stmt s (.getFile mp.readPath) := by
  obtain ⟨rs, hrs, hreads, -⟩ := h.plan
  refine ⟨_, done, mp, rest, h.scan, h.active.trans hmps, ?_, rfl⟩
  rw [hreads, ← hrs, map_map, map_map]
  rfl

/-- One more micro-partition, whose outcome goes into the plan. -/
theorem MpInv.next {acc' : MpAcc} {cdc : CdcLog} {ids : List MpId}
    {files : List (MpPath × List RecordBatch)} (hc : cdc.Complete scope.tableMeta.id acc'.records)
    (hids : acc'.superseded.map Prod.snd = ids)
    (hplan : ∀ {rs}, Planned stmt scope.tableMeta.id scope.commitTs rs acc.newMps acc.superseded
        s.mp.files → Planned stmt scope.tableMeta.id scope.commitTs (rs ++ [(mp, batches)])
        acc'.newMps acc'.superseded files) :
    MpInv stmt scope mps (done ++ [mp]) acc' { s with
        mp := { s.mp with
          reads := s.mp.reads ++ [(mp.readPath, batches)]
          ids := ids
          files := files }
        cdc := cdc } := by
  obtain ⟨rs, hrs, hreads, hplanned⟩ := h.plan
  exact ⟨h.commit, h.table, h.scan, h.active, h.clock, hc,
    ⟨rs ++ [(mp, batches)], by simp [hrs], by simp [hreads], hplan hplanned⟩, hids⟩

/-- One iteration whose outcome is `replaced`. -/
theorem MpInv.replaceMp_follows {batches' : List RecordBatch} {cdc : CdcLog}
    (hc : cdc.Complete scope.tableMeta.id records)
    (hrw : stmt.rewrite batches = .ok (.replaced batches')) :
    Performs fmt stmt (fun s' acc' => MpInv stmt scope mps (done ++ [mp]) acc' s')
      (replaceMp scope mp batches' { acc with records := records })
      { s with
        mp := { s.mp with reads := s.mp.reads ++ [(mp.readPath, batches)] }
        cdc := cdc } := by
  refine mono (NovaCore.replaceMp_follows h.commit h.files_mem_ids) ?_
  rintro _ _ ⟨path, newMp, rfl, hnew, rfl⟩
  exact h.next hc (by simp [h.ids, hnew.mpId]) fun hplan => hplan.replaced hrw hnew

end

/-- One micro-partition of an UPDATE. -/
theorem updateMp_follows
    (h : MpInv (.update db schema table assignments filter) scope mps done acc s)
    (hmps : mps = done ++ mp :: rest) :
    Performs fmt (.update db schema table assignments filter)
      (fun s' acc' => MpInv (.update db schema table assignments filter) scope mps
        (done ++ [mp]) acc' s')
      (updateMp scope assignments filter acc mp) s := by
  refine follows_await h.commit (h.may_read hmps) fun batches => ?_
  refine followsE_bind (batches_follows updateBatch_follows h.commit h.table h.cdc) ?_
  rintro _ inner ⟨cdc, outs, rfl, hc, hmatched, hmod, hbatches⟩
  have hrw : rewrite (.update db schema table assignments filter) batches =
      .ok (if inner.matched = 0 then .unchanged else .replaced inner.batches) := by
    rw [filter_true] at hbatches
    simp only [rewrite, hmatched, hmod, hbatches]
    rfl
  split_ifs with hpos
  · exact h.replaceMp_follows hc (by rw [hrw, if_neg (by omega)])
  · exact followsE_pure (h.next hc h.ids (·.unchanged (by rw [hrw, if_pos (by omega)])))

/-- One micro-partition of a DELETE. -/
theorem deleteMp_follows (h : MpInv (.delete db schema table filter) scope mps done acc s)
    (hmps : mps = done ++ mp :: rest) :
    Performs fmt (.delete db schema table filter)
      (fun s' acc' => MpInv (.delete db schema table filter) scope mps (done ++ [mp]) acc' s')
      (deleteMp scope filter acc mp) s := by
  refine follows_await h.commit (h.may_read hmps) fun batches => ?_
  refine followsE_bind (batches_follows deleteBatch_follows h.commit h.table h.cdc) ?_
  rintro _ inner ⟨cdc, kept, rfl, hc, hmatched, hkept, hbatches⟩
  have hrw : rewrite (.delete db schema table filter) batches =
      .ok (if inner.matched = 0 then .unchanged else if inner.batches = [] then .removed
        else .replaced inner.batches) := by
    simp only [rewrite, hmatched, hkept, hbatches]
    rfl
  split_ifs with hpos hnil
  · refine follows_await h.commit trivial fun id => ?_
    exact followsE_pure (h.next hc (by rw [map_append, h.ids]; rfl)
      (·.removed (by rw [hrw, if_neg (by omega), if_pos hnil])))
  · exact h.replaceMp_follows hc (by rw [hrw, if_neg (by omega), if_neg hnil])
  · exact followsE_pure (h.next hc h.ids (·.unchanged (by rw [hrw, if_pos (by omega)])))

end Loop

/-! ### Whole statements -/

theorem CdcLog.complete_empty (t : TableId) : CdcLog.Complete {} t [] := ⟨by simp, .nil, .nil⟩

/-- The last step of every statement. -/
theorem commit_follows {newMps : List MicroPartitionMeta} {superseded : List (MpId × MpId)}
    {q : QueryResult} (hs : s.commit = none) (hc : s.cdc.Complete t records)
    (hm : MpCommit fmt s.mp t stmt newMps superseded) :
    Performs fmt stmt (fun s' _ => s'.commit ≠ none) (do
        await (.commitTableCdc txnId newMps superseded records)
        return q : Nova QueryResult) s := by
  refine follows_await hs ⟨t, hc, hm⟩ fun _ => ?_
  exact followsE_pure (Option.some_ne_none _)

theorem execInsert_follows {values : List (List ResolvedExpr)} :
    Performs fmt (.insert db schema table values) (fun s _ => s.commit ≠ none)
      (execInsert fmt db schema table values) {} := by
  refine follows_await rfl ⟨rfl, rfl⟩ fun tableMeta => ?_
  refine followsE_lift rfl fun batch hbatch => ?_
  refine follows_await rfl trivial fun mpId => ?_
  refine follows_await rfl trivial fun version => ?_
  refine followsE_bind (beginTransaction_follows rfl) ?_
  rintro _ txnId ⟨now, rfl⟩
  refine follows_await rfl trivial fun commitTs => ?_
  refine followsE_bind (write_follows [] rfl rfl (by simp [record])) ?_
  rintro _ mp ⟨path, rfl, rfl, hnew⟩
  refine allocate_follows ⟨tableMeta, txnId, commitTs⟩ rfl rfl
    (CdcLog.complete_empty _) (fun h => length_eq_zero_iff.1 h) fun start => ?_
  refine followsE_lift rfl fun cdcBatch hcdc => ?_
  have hseq : cdcBatch.sequences = range' start values.length := by
    rw [(buildCdcBatchForRows_eq_ok hcdc).2, valuesToBatch_numRows hbatch]
  refine followsE_bind (writeCdcPayloadAndMetadata_follows [] rfl rfl .nil hseq) ?_
  rintro _ change ⟨cdcPath, rfl, hp, hr⟩
  exact commit_follows rfl ((CdcLog.complete_empty _).snoc rfl hp hr)
    (.insert rfl rfl hbatch rfl rfl rfl rfl (hnew commitTs none))

/-- UPDATE and DELETE, for a loop body that keeps the loop invariant. -/
theorem execCopyOnWrite_follows {status : String}
    {body : DmlScope → MpAcc → MicroPartitionMeta → Nova MpAcc}
    (hstmt : ∀ db sc tb vs, stmt ≠ .insert db sc tb vs) (hnames : stmt.names = (db, schema, table))
    (hbody : ∀ scope mps done mp rest acc s, MpInv stmt scope mps done acc s →
      mps = done ++ mp :: rest → Performs fmt stmt
        (fun s' acc' => MpInv stmt scope mps (done ++ [mp]) acc' s')
        (body scope acc mp) s) :
    Performs fmt stmt (fun s _ => s.commit ≠ none)
      (execCopyOnWrite db schema table body status) {} := by
  refine follows_await rfl ⟨rfl, hnames⟩ fun tableMeta => ?_
  refine followsE_bind (getActiveMps_follows rfl rfl ⟨rfl, rfl, tableMeta, rfl, rfl⟩
    fun lookups id rest => ⟨rfl, tableMeta.id, rest, rfl⟩) ?_
  rintro _ mps ⟨ids, lookups, rfl, hids, hmps⟩
  refine followsE_bind (beginTransaction_follows rfl) ?_
  rintro _ txnId ⟨now, rfl⟩
  refine follows_await rfl trivial fun commitTs => ?_
  refine followsE_bind (followsE_foldlM
    (fun done acc s => MpInv stmt ⟨tableMeta, txnId, commitTs⟩ mps done acc s) ?_ ?_) ?_
  · intro done mp rest acc s hxs h
    exact hbody _ _ _ _ _ _ _ h hxs
  · exact ⟨rfl, rfl, by rw [← hids]; rfl, hmps.symm, rfl, CdcLog.complete_empty _,
      ⟨[], rfl, rfl, .nil⟩, rfl⟩
  · intro s acc h
    obtain ⟨rs, hrs, hreads, hplan⟩ := h.plan
    exact commit_follows h.commit h.cdc (.rewrite h.table rfl hstmt h.scan rfl
      (hrs.trans h.active.symm) hreads h.clock hplan h.ids)

/-- **INSERT, UPDATE and DELETE follow their protocol**: a statement that returns `Ok` has
committed, one that returns an error has not. -/
theorem exec_follows (fmt : TextFormat) (stmt : DmlStatement) :
    Performs fmt stmt (fun s _ => s.commit ≠ none) (stmt.exec fmt) {} := by
  cases stmt with
  | insert db schema table values =>
    exact execInsert_follows
  | update db schema table assignments filter =>
    unfold exec execUpdate
    refine execCopyOnWrite_follows (by simp) rfl ?_
    intro scope mps done mp rest acc s h hmps
    exact updateMp_follows h hmps
  | delete db schema table filter =>
    unfold exec execDelete
    refine execCopyOnWrite_follows (by simp) rfl ?_
    intro scope mps done mp rest acc s h hmps
    exact deleteMp_follows h hmps

end Follows

end NovaCore
