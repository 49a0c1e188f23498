import NovaCore.Cdc.Changes
import NovaCore.Cdc.Rows
import NovaCore.Executor.Alone
import NovaCore.Mp.Serializable

/-!
# Replaying the change log

The change log of a table is a second account of its rows: adding the row of each INSERT record and
removing the row of each DELETE record, in the order of the log, gives the rows of the active
micro-partitions.  This module proves it for statements that run one after another.

A statement logs nothing before it commits.  `Emitted S t w w' rs cs` says what it has done by then:
between `w` and `w'` it wrote the payloads of the records `rs`, which take the sequence numbers
after the last allocated one without a gap, and whose rows stand for the changes `cs`; it did not
touch older payloads or the files of micro-partitions in `S`.  The commit then appends `rs` to the
log and moves the watermark to the last allocated number.

## Main definitions

* `Emitted` : what a statement has written for the change log.
* `Replayed` : the log of a table replays to the rows of the table.

## Main results

* `Emitted.append` : what was written one after another.
* `exec_emitted` : the changes that a whole statement logs turn the rows of its table before the
  statement into those after it.
* `log_replays` : the log replays to the table after every statement.
-/

namespace NovaCore

open Prog List Option Function World DmlStatement Parquet Nat CdcBatch

/-! ### Records without a gap -/

/-- The records of table `t` take the sequence numbers from `n` up to, but not including, `m`. -/
def Tiles (t : TableId) : ℕ → List ChangeRecordMeta → ℕ → Prop
  | n, [], m => m = n
  | n, r :: rs, m => r.tableId = t ∧ r.sequence = n ∧ r.payload.path.startSequence = n ∧
      0 < r.payload.rowCount ∧ n + r.payload.rowCount ≤ u64Max ∧
      Tiles t (n + r.payload.rowCount) rs m

namespace Tiles

variable {t : TableId} {n m k : ℕ} {rs qs : List ChangeRecordMeta} {r : ChangeRecordMeta}

theorem append (h1 : Tiles t n rs m) (h2 : Tiles t m qs k) : Tiles t n (rs ++ qs) k := by
  induction rs generalizing n with
  | nil =>
    obtain rfl : m = n := h1
    exact h2
  | cons r rs ih =>
    obtain ⟨ht, hseq, hpath, hpos, hfits, h1⟩ := h1
    exact ⟨ht, hseq, hpath, hpos, hfits, ih h1⟩

theorem le (h : Tiles t n rs m) : n ≤ m := by
  induction rs generalizing n with
  | nil => exact (show m = n from h).ge
  | cons r rs ih =>
    obtain ⟨-, -, -, -, -, h⟩ := h
    have := ih h
    omega

theorem mem (h : Tiles t n rs m) (hr : r ∈ rs) : r.tableId = t ∧ n ≤ r.sequence ∧ r.sequence < m ∧
      r.payload.path.startSequence = r.sequence := by
  induction rs generalizing n with
  | nil => simp at hr
  | cons q rs ih =>
    obtain ⟨ht, hseq, hpath, hpos, -, h⟩ := h
    rcases mem_cons.1 hr with rfl | hr
    · have := h.le
      exact ⟨ht, hseq.ge, by omega, hpath.trans hseq.symm⟩
    · obtain ⟨ht', hle, hlt, hpath'⟩ := ih h hr
      exact ⟨ht', by omega, hlt, hpath'⟩

/-- The records are in the order of their sequence numbers. -/
theorem pairwise (h : Tiles t n rs m) : rs.Pairwise fun r q => r.sequence < q.sequence := by
  induction rs generalizing n with
  | nil => exact .nil
  | cons r rs ih =>
    obtain ⟨-, hseq, -, hpos, -, h⟩ := h
    refine pairwise_cons.2 ⟨fun q hq => ?_, ih h⟩
    have := (h.mem hq).2.1
    omega

/-- The ranges of the records, in the order in which `commit_table_cdc` walks over them. -/
theorem tableRanges_eq (h : Tiles t n rs m) :
    tableRanges t rs = rs.map fun r => (r.sequence, r.recordEnd) := by
  have hall : rs.filter (fun r => r.tableId = t) = rs :=
    filter_eq_self.2 fun r hr => by simpa using (h.mem hr).1
  unfold tableRanges
  rw [hall]
  refine List.Pairwise.insertionSort_eq ?_
  exact pairwise_map.2 (h.pairwise.imp le_of_lt)

/-- A watermark just below the records moves to their end. -/
theorem publishLoop_eq (h : Tiles t (n + 1) rs m) :
    publishLoop (n + 1) n (rs.map fun r => (r.sequence, r.recordEnd)) + 1 = m := by
  induction rs generalizing n with
  | nil => exact (show m = n + 1 from h).symm
  | cons r rs ih =>
    obtain ⟨-, hseq, -, hpos, hfits, h⟩ := h
    have hend : r.recordEnd = n + r.payload.rowCount := by
      unfold ChangeRecordMeta.recordEnd satSub
      rw [satAdd_eq (by omega)]
      omega
    have hnext : satAdd (n + r.payload.rowCount) 1 = n + r.payload.rowCount + 1 :=
      satAdd_eq (by omega)
    rw [map_cons, publishLoop, hend, if_neg (by omega), if_neg (by omega), hnext]
    refine ih ?_
    rwa [show n + r.payload.rowCount + 1 = n + 1 + r.payload.rowCount by omega]

/-- A log scan over the range of the records finds exactly them. -/
theorem filterMap_range' {log : ℕ → Option ChangeRecordMeta} (h : Tiles t n rs m)
    (hlog : ∀ k, n ≤ k → ∀ r, log k = some r ↔ r ∈ rs ∧ r.sequence = k) :
    (range' n (m - n)).filterMap log = rs := by
  induction rs generalizing n with
  | nil =>
    obtain rfl : m = n := h
    simp
  | cons r rs ih =>
    obtain ⟨-, hseq, -, hpos, -, h⟩ := h
    have hle := h.le
    have hsplit : range' n (m - n) = n :: (range' (n + 1) (r.payload.rowCount - 1) ++
          range' (n + r.payload.rowCount) (m - (n + r.payload.rowCount))) := by
      rw [show n + r.payload.rowCount = n + 1 + (r.payload.rowCount - 1) by omega,
        range'_append_1, ← range'_succ]
      congr 1
      omega
    have hfirst : log n = some r := (hlog n le_rfl r).2 ⟨by simp, hseq⟩
    -- the numbers inside the first record are the keys of no record
    have hinside : (range' (n + 1) (r.payload.rowCount - 1)).filterMap log = [] := by
      refine filterMap_eq_nil_iff.2 fun k hk => ?_
      rw [mem_range'_1] at hk
      by_contra hne
      obtain ⟨q, hq⟩ := ne_none_iff_exists'.1 hne
      obtain ⟨hmem, hqk⟩ := (hlog k (by omega) q).1 hq
      rcases mem_cons.1 hmem with rfl | hmem
      · omega
      · have := (h.mem hmem).2.1
        omega
    have hrest := ih h fun k hk q => by
      rw [hlog k (by omega) q, mem_cons]
      constructor
      · rintro ⟨rfl | hmem, hqk⟩
        · omega
        · exact ⟨hmem, hqk⟩
      · rintro ⟨hmem, hqk⟩
        exact ⟨.inr hmem, hqk⟩
    rw [hsplit, filterMap_cons_some hfirst, filterMap_append, hinside, hrest]
    rfl

end Tiles

/-! ### What a statement writes before it commits -/

/-- From `w` to `w'` the payloads of the records `rs` were written, whose rows stand for the changes
`cs`; files of micro-partitions in `S` were not touched. -/
structure Emitted (S : List MpId) (t : TableId) (w w' : World) (rs : List ChangeRecordMeta)
    (cs : List (Change (List Cell))) : Prop where
  changeLog : w'.changeLog = w.changeLog
  changeSeq : w'.changeSeq = w.changeSeq
  issued : ∀ n ∈ w.issued, n ∈ w'.issued
  files : ∀ p : MpPath, p.mpId ∈ S → w'.files p = w.files p
  payloads : ∀ p : CdcPath, p.startSequence ≤ w.allocated t → w'.payloads p = w.payloads p
  tiles : Tiles t (w.allocated t + 1) rs (w'.allocated t + 1)
  rows : (rs.flatMap w'.recordRows).map rowChange = cs

variable {txnId : TxnId} {assignments : List (String × ResolvedExpr)}
  {css : List (List (Change (List Cell)))}

section Emission

variable {S : List MpId} {t : TableId} {pq : Parquet} {w w1 w2 w' : World}
  {rs rs1 rs2 : List ChangeRecordMeta} {cs cs1 cs2 : List (Change (List Cell))}

/-- **What was written one after another.** -/
theorem Emitted.append (h1 : Emitted S t w w1 rs1 cs1) (h2 : Emitted S t w1 w2 rs2 cs2) :
    Emitted S t w w2 (rs1 ++ rs2) (cs1 ++ cs2) where
  changeLog := h2.changeLog.trans h1.changeLog
  changeSeq := h2.changeSeq.trans h1.changeSeq
  issued n hn := h2.issued n (h1.issued n hn)
  files p hp := (h2.files p hp).trans (h1.files p hp)
  payloads p hp := by
    have hle := h1.tiles.le
    exact (h2.payloads p (by omega)).trans (h1.payloads p hp)
  tiles := h1.tiles.append h2.tiles
  rows := by
    -- the payloads of the first records are older than the second ones
    have hold : rs1.flatMap w2.recordRows = rs1.flatMap w1.recordRows := by
      refine flatMap_congr fun r hr => ?_
      obtain ⟨-, -, hlt, hpath⟩ := h1.tiles.mem hr
      unfold recordRows
      rw [h2.payloads _ (by omega)]
    rw [flatMap_append, map_append, hold, h1.rows, h2.rows]

/-- Operations that write nothing for the change log and no file of a micro-partition in `S`. -/
def Op.QuietFor (S : List MpId) : Op → Prop
  | .putFile path _ => path.mpId ∉ S
  | .allocateTableChangeSequences .. => False
  | .putPayload .. => False
  | .commitTableCdc .. => False
  | _ => True

theorem emitted_refl : Emitted S t w w [] [] :=
  ⟨rfl, rfl, fun _ hn => hn, fun _ _ => rfl, fun _ _ => rfl, rfl, rfl⟩

theorem emitted_of_step {o : Op} {r : o.Res} (hs : Step pq w o r w') (ho : o.QuietFor S) :
    Emitted S t w w' [] [] := by
  have hissued := fun n hn => step_issued hs (n := n) hn
  cases step_effect hs with
  | quiet _ => exact emitted_refl
  | allocate _ | commit _ | putPayload _ _ => exact ho.elim
  | putFile path batches =>
    refine ⟨rfl, rfl, hissued, fun p hp => ?_, fun _ _ => rfl, rfl, rfl⟩
    have hne : p ≠ path := fun h => ho (h ▸ hp)
    exact update_of_ne hne _ _
  | compareAndSet h =>
    obtain ⟨-, -, -, rfl⟩ := compareAndSet_eq_ok h
    exact ⟨rfl, rfl, hissued, fun _ _ => rfl, fun _ _ => rfl, rfl, rfl⟩
  | _ => exact ⟨rfl, rfl, hissued, fun _ _ => rfl, fun _ _ => rfl, rfl, rfl⟩

theorem emitted_of_issues {α : Type} {p : Nova α} {a : Except NovaError α}
    (he : Exec (Step pq) w p.run a w') (hp : Issues (Op.QuietFor S) p.run) :
    Emitted S t w w' [] [] :=
  he.issues (J := fun w' => Emitted S t w w' [] []) hp emitted_refl
    fun _ _ _ _ hJ ho hs => hJ.append (emitted_of_step hs ho)

/-- A fresh identifier belongs to no old micro-partition. -/
theorem exec_generateId_fresh {n : ℕ} (he : Ends (Step pq) w (await .generateId) n w')
    (hS : ∀ k ∈ S, k ∈ w.issued) : n ∉ S := by
  cases step_effect (execE_call_iff.1 he) with
  | quiet h => cases h
  | generateId h => exact fun hn => h (hS _ hn)

/-- **A range of sequence numbers and the payload written for it.** -/
theorem emitted_of_record {count start : ℕ} {commitTs : Timestamp} {cdc : CdcBatch}
    {counts : ChangeActionCounts} {lo hi : Option StreamRowId} {r : ChangeRecordMeta}
    (ha : Ends (Step pq) w (await (.allocateTableChangeSequences t count)) start w1)
    (hp : Ends (Step pq) w1 (writeCdcPayloadAndMetadata t txnId start commitTs cdc counts lo
      hi) r w') (hcount : cdc.numRows = count) :
    count ≠ 0 ∧ count < u64Max ∧ Emitted S t w w' [r] (cdc.logicalRows.map rowChange) := by
  obtain ⟨hstart, hmax, hw1⟩ : start = w.allocated t + 1 ∧ start ≤ u64Max ∧
      w1 = { w with changeNextSeq :=
        Function.update w.changeNextSeq t (satAdd (w.allocated t) count) } := by
    cases step_effect (execE_call_iff.1 ha) with
    | quiet h => cases h
    | allocate h => exact allocate_eq_ok h
  obtain ⟨payload, w2, hp, hr⟩ := execE_bind_iff.1 hp
  obtain ⟨rfl, rfl⟩ := execE_pure_iff.1 hr
  unfold writePayload at hp
  split_ifs at hp with hzero
  · obtain ⟨_, _, hthrow, -⟩ := execE_bind_iff.1 hp
    exact (execE_throw_false hthrow).elim
  obtain ⟨past, hpast, hp⟩ := execE_liftExcept_bind_iff.1 hp
  obtain ⟨hfits, -⟩ := checkedAdd_eq_ok.1 hpast
  obtain ⟨_, w4, hput, hret⟩ := execE_bind_iff.1 hp
  obtain ⟨rfl, rfl⟩ := execE_pure_iff.1 hret
  have hw' : w' = { w1 with
      payloads := update w1.payloads (CdcPath.mk t txnId start (past - 1))
        (some (pq.cdc cdc)) } := by
    cases step_effect (execE_call_iff.1 hput) with
    | quiet h => cases h
    | putPayload => rfl
  subst hw' hw1
  have hnext : ((update w.changeNextSeq t (some (satAdd (w.allocated t) count))) t).getD
      (w.tableChangeSequence t) = w.allocated t + cdc.numRows := by
    rw [update_self, hcount]
    exact satAdd_eq (by omega)
  refine ⟨by omega, by omega, rfl, rfl, fun _ hn => hn, fun _ _ => rfl, fun p hle => ?_, ?_, ?_⟩
  · have hne : p ≠ CdcPath.mk t txnId start (past - 1) := by
      rintro rfl
      simp only at hle
      omega
    exact update_of_ne hne _ _
  · refine ⟨rfl, hstart, hstart, pos_of_ne_zero hzero, by simp only; omega, ?_⟩
    exact (congrArg (· + 1) hnext).trans (add_right_comm _ _ _)
  · rw [flatMap_singleton]
    congr 1
    unfold recordRows ChangeRecordMeta.rowsOf
    dsimp only
    rw [update_self, getD_some, pq.cdc_rows]
    exact take_of_length_le (by simp)

/-! ### Batches, micro-partitions, statements -/

theorem buildCdc_numRows {table : TableMeta} {batch : RecordBatch} {ordinals : List ℕ} {start : ℕ}
    {commitTs : Timestamp} {mpId : MpId} {action : ChangeAction} {isUpdate : Bool} {cdc : CdcBatch}
    (h : buildCdcBatchForRows table batch ordinals start txnId commitTs mpId action isUpdate
      = .ok cdc) : cdc.numRows = batch.numRows := by
  obtain ⟨rfl, -⟩ := buildCdcBatchForRows_eq_ok h
  exact cdc.length_eq

section Batches

variable {scope : DmlScope} {mp : MicroPartitionMeta} {idx : List ℕ} {acc acc' : BatchAcc}
  {old new : RecordBatch}

theorem exec_recordUpdate
    (he : Ends (Step pq) w (recordUpdate scope mp idx (some old) (some new) acc) acc' w')
    (hold : old.numRows = idx.length) (hnew : new.numRows = idx.length) :
    ∃ rs, acc'.records = acc.records ++ rs ∧ Emitted S scope.tableMeta.id w w' rs
      (old.logicalRows.map .remove ++ new.logicalRows.map .add) := by
  obtain ⟨start, w1, ha, he⟩ := execE_bind_iff.1 he
  obtain ⟨oldCdc, hoc, he⟩ := execE_liftExcept_bind_iff.1 he
  obtain ⟨newStart, -, he⟩ := execE_liftExcept_bind_iff.1 he
  obtain ⟨newCdc, hnc, he⟩ := execE_liftExcept_bind_iff.1 he
  obtain ⟨cdc, hcc, he⟩ := execE_liftExcept_bind_iff.1 he
  obtain ⟨r, w6, hw, he⟩ := execE_bind_iff.1 he
  obtain ⟨rfl, rfl⟩ := execE_pure_iff.1 he
  have hrows := concatCdc_logicalRows hcc
  have hcount : cdc.numRows = idx.length * 2 := by
    have hlen := congrArg length hrows
    rw [length_append, logicalRows_length, logicalRows_length,
      logicalRows_length, buildCdc_numRows hoc, buildCdc_numRows hnc] at hlen
    omega
  refine ⟨[r], rfl, ?_⟩
  obtain ⟨-, -, hemit⟩ := emitted_of_record ha hw hcount
  rwa [hrows, map_append, buildCdcBatchForRows_changes hoc,
    buildCdcBatchForRows_changes hnc] at hemit

theorem exec_recordDelete (he : Ends (Step pq) w (recordDelete scope mp idx (some old) acc) acc' w')
    (hold : old.numRows = idx.length) :
    ∃ rs, acc'.records = acc.records ++ rs ∧
      Emitted S scope.tableMeta.id w w' rs (old.logicalRows.map .remove) := by
  obtain ⟨start, w1, ha, he⟩ := execE_bind_iff.1 he
  obtain ⟨cdc, hc, he⟩ := execE_liftExcept_bind_iff.1 he
  obtain ⟨r, w3, hw, he⟩ := execE_bind_iff.1 he
  obtain ⟨rfl, rfl⟩ := execE_pure_iff.1 he
  refine ⟨[r], rfl, ?_⟩
  obtain ⟨-, -, hemit⟩ := emitted_of_record ha hw ((buildCdc_numRows hc).trans hold)
  rwa [buildCdcBatchForRows_changes hc] at hemit

variable {filter : Option ResolvedFilter} {batch : RecordBatch} {db schema table : String}

theorem exec_updateBatch
    (he : Ends (Step pq) w (updateBatch scope assignments filter mp acc batch) acc' w') :
    ∃ rs p, acc'.records = acc.records ++ rs ∧ rewriteBatch
        (.update db schema table assignments filter) batch = .ok p ∧
      Emitted S scope.tableMeta.id w w' rs p.2 := by
  obtain ⟨mask, hm, he⟩ := execE_liftExcept_bind_iff.1 he
  obtain ⟨modified, hu, he⟩ := execE_liftExcept_bind_iff.1 he
  obtain ⟨oldRows, hold, he⟩ := execE_liftExcept_bind_iff.1 he
  obtain ⟨newRows, hnew, he⟩ := execE_liftExcept_bind_iff.1 he
  obtain ⟨acc1, w5, hrec, he⟩ := execE_bind_iff.1 he
  obtain ⟨rfl, rfl⟩ := execE_pure_iff.1 he
  have hp : rewriteBatch (.update db schema table assignments filter) batch =
      .ok (modified, (batch.take (maskIndices mask)).logicalRows.map .remove ++
        (modified.take (maskIndices mask)).logicalRows.map .add) :=
    except_bind_eq_ok.2 ⟨mask, hm, except_bind_eq_ok.2 ⟨modified, hu, rfl⟩⟩
  cases oldRows with
  | none =>
    obtain ⟨rfl, rfl⟩ := execE_pure_iff.1 hrec
    refine ⟨[], _, (append_nil _).symm, hp, ?_⟩
    rw [selectRowsByIndices_eq_none hold]
    exact emitted_refl
  | some old =>
    obtain ⟨hne, rfl⟩ := selectRowsByIndices_eq_some hold
    cases newRows with
    | none => exact absurd (selectRowsByIndices_eq_none hnew) hne
    | some new =>
      obtain ⟨-, rfl⟩ := selectRowsByIndices_eq_some hnew
      have hlt : ∀ i ∈ maskIndices mask, i < batch.numRows := fun _ => lt_of_mem_maskIndices hm
      have hcount := (applyUpdateToBatch_eq_ok hu).2
      obtain ⟨rs, hrs, hemit⟩ := exec_recordUpdate hrec (numRows_take hlt)
        (numRows_take (by rwa [hcount]))
      exact ⟨rs, _, hrs, hp, hemit⟩

theorem exec_deleteBatch (he : Ends (Step pq) w (deleteBatch scope filter mp acc batch) acc' w') :
    ∃ rs p, acc'.records = acc.records ++ rs ∧ rewriteBatch
        (.delete db schema table filter) batch = .ok p ∧
      Emitted S scope.tableMeta.id w w' rs p.2 := by
  obtain ⟨mask, hm, he⟩ := execE_liftExcept_bind_iff.1 he
  obtain ⟨oldRows, hold, he⟩ := execE_liftExcept_bind_iff.1 he
  obtain ⟨acc1, w3, hrec, he⟩ := execE_bind_iff.1 he
  obtain ⟨kept, hk, he⟩ := execE_liftExcept_bind_iff.1 he
  obtain ⟨rfl, rfl⟩ := execE_pure_iff.1 he
  have hp : rewriteBatch (.delete db schema table filter) batch =
      .ok (kept, (batch.take (maskIndices mask)).logicalRows.map .remove) :=
    except_bind_eq_ok.2 ⟨mask, hm, except_bind_eq_ok.2 ⟨kept, hk, rfl⟩⟩
  cases oldRows with
  | none =>
    obtain ⟨rfl, rfl⟩ := execE_pure_iff.1 hrec
    refine ⟨[], _, (append_nil _).symm, hp, ?_⟩
    rw [selectRowsByIndices_eq_none hold]
    exact emitted_refl
  | some old =>
    obtain ⟨-, rfl⟩ := selectRowsByIndices_eq_some hold
    obtain ⟨rs, hrs, hemit⟩ := exec_recordDelete hrec
      (numRows_take fun _ => lt_of_mem_maskIndices hm)
    exact ⟨rs, _, hrs, hp, hemit⟩

end Batches

/-- **Loop rule**: what the iterations write, one after another.  `records` are the records
collected so far, and `C x` are the changes an iteration may log for `x`. -/
theorem exec_foldlM_emitted {γ δ : Type} {records : γ → List ChangeRecordMeta}
    {f : γ → δ → Nova γ} {C : δ → List (Change (List Cell)) → Prop} {xs : List δ} {acc acc' : γ}
    (hf : ∀ x ∈ xs, ∀ acc acc' w1 w2, (∃ rs cs, Emitted S t w w1 rs cs) →
      Ends (Step pq) w1 (f acc x) acc' w2 →
      ∃ rs cs, records acc' = records acc ++ rs ∧ C x cs ∧ Emitted S t w1 w2 rs cs)
    (he : Ends (Step pq) w1 (xs.foldlM f acc) acc' w2)
    (hw1 : ∃ rs cs, Emitted S t w w1 rs cs) :
    ∃ rs css, records acc' = records acc ++ rs ∧ List.Forall₂ C xs css ∧
      Emitted S t w1 w2 rs css.flatten := by
  induction xs generalizing acc w1 with
  | nil =>
    obtain ⟨rfl, rfl⟩ := execE_pure_iff.1 he
    exact ⟨[], [], (append_nil _).symm, .nil, emitted_refl⟩
  | cons x xs ih =>
    obtain ⟨acc1, w3, hx, hxs⟩ := execE_bind_iff.1 he
    obtain ⟨rs, cs, hrs, hC, hemit⟩ := hf x (by simp) _ _ _ _ hw1 hx
    obtain ⟨rs0, cs0, h0⟩ := hw1
    obtain ⟨rs', css, hrs', hCs, hemit'⟩ := ih
      (fun y hy => hf y (mem_cons_of_mem x hy)) hxs ⟨_, _, h0.append hemit⟩
    refine ⟨rs ++ rs', cs :: css, ?_, .cons hC hCs, hemit.append hemit'⟩
    rw [hrs', hrs, append_assoc]

theorem exec_getFile {path : MpPath} {bs : List RecordBatch}
    (he : Ends (Step pq) w (await (.getFile path)) bs w') :
    w.files path = some bs ∧ w' = w := by
  obtain ⟨x, hx⟩ := step_ok (execE_call_iff.1 he)
  simp only [Op.perform] at hx
  split at hx
  · next heq =>
    cases hx
    exact ⟨heq, rfl⟩
  · cases hx

theorem issues_write {tableId mpId version txnId : ℕ} {batches : List RecordBatch} (h : mpId ∉ S) :
    Issues (Op.QuietFor S) (MpWriter.write tableId mpId version batches txnId).run := by
  unfold MpWriter.write
  split_ifs
  · exact issuesE_bind issuesE_throw fun _ => issuesE_bind (issuesE_call h) fun _ => issuesE_pure
  · exact issuesE_bind (issuesE_call h) fun _ => issuesE_pure

theorem issues_beginTransaction : Issues (Op.QuietFor S) beginTransaction.run :=
  issuesE_bind (issuesE_call trivial) fun _ => issuesE_bind (issuesE_call trivial) fun _ =>
    issuesE_bind (issuesE_call trivial) fun _ => issuesE_pure

section Micropartitions

variable {scope : DmlScope} {mp : MicroPartitionMeta} {acc acc' : MpAcc} {stmt : DmlStatement}

theorem exec_replaceMp {batches : List RecordBatch} (hS : ∀ n ∈ S, n ∈ w.issued)
    (he : Ends (Step pq) w (replaceMp scope mp batches acc) acc' w') :
    acc'.records = acc.records ∧ Emitted S t w w' [] [] := by
  obtain ⟨newMpId, w1, hid, he⟩ := execE_bind_iff.1 he
  have hfresh := exec_generateId_fresh hid hS
  have hemit := emitted_of_step (t := t) (S := S) (execE_call_iff.1 hid) trivial
  obtain ⟨version, w2, hv, he⟩ := execE_bind_iff.1 he
  obtain ⟨newMp, w3, hw, he⟩ := execE_bind_iff.1 he
  obtain ⟨rfl, rfl⟩ := execE_pure_iff.1 he
  have hv := emitted_of_step (t := t) (S := S) (execE_call_iff.1 hv) trivial
  exact ⟨rfl, hemit.append (hv.append (emitted_of_issues hw (issues_write hfresh)))⟩

/-- The changes `stmt` logs for a micro-partition that reads as `bs`. -/
def DmlStatement.Logs (stmt : DmlStatement) (bs : List RecordBatch)
    (cs : List (Change (List Cell))) : Prop :=
  ∃ ps, List.Forall₂ (fun b p => stmt.rewriteBatch b = .ok p) bs ps ∧ cs = ps.flatMap Prod.snd

theorem DmlStatement.logs_of_forall₂ {bs : List RecordBatch}
    (h : List.Forall₂ (fun b cs => ∃ p, stmt.rewriteBatch b = .ok p ∧ p.2 = cs) bs css) :
    stmt.Logs bs css.flatten := by
  induction h with
  | nil => exact ⟨[], .nil, rfl⟩
  | cons hb _ ih =>
    obtain ⟨p, hp, rfl⟩ := hb
    obtain ⟨ps, hps, hcs⟩ := ih
    exact ⟨p :: ps, .cons hp hps, by rw [flatten_cons, hcs, flatMap_cons]⟩

/-- The body of both loops over micro-partitions: read the file, go through its batches, write a
replacement. -/
theorem exec_rewriteMp {f : BatchAcc → RecordBatch → Nova BatchAcc} {tail : BatchAcc → Nova MpAcc}
    {init : BatchAcc}
    (hf : ∀ acc b acc' w w', Ends (Step pq) w (f acc b) acc' w' →
      ∃ rs p, acc'.records = acc.records ++ rs ∧ stmt.rewriteBatch b = .ok p ∧
        Emitted S t w w' rs p.2)
    (htail : ∀ inner acc' w w', (∀ n ∈ S, n ∈ w.issued) → Ends (Step pq) w (tail inner) acc' w' →
      acc'.records = inner.records ∧ Emitted S t w w' [] [])
    (hS : ∀ n ∈ S, n ∈ w.issued)
    (he : Ends (Step pq) w (await (.getFile mp.readPath) >>= fun batches =>
      batches.foldlM f init >>= tail) acc' w') :
    ∃ rs bs cs, w.files mp.readPath = some bs ∧ stmt.Logs bs cs ∧
      acc'.records = init.records ++ rs ∧ Emitted S t w w' rs cs := by
  obtain ⟨bs, w1, hget, he⟩ := execE_bind_iff.1 he
  obtain ⟨hfile, hw1⟩ := exec_getFile hget
  rw [hw1] at he
  obtain ⟨inner, w2, hloop, he⟩ := execE_bind_iff.1 he
  obtain ⟨rs, css, hrs, hC, hemit⟩ := exec_foldlM_emitted
    (C := fun b cs => ∃ p, stmt.rewriteBatch b = .ok p ∧ p.2 = cs)
    (fun b _ acc acc' w1 w2 _ hb => by
      obtain ⟨rs, p, hrs, hp, hemit⟩ := hf _ _ _ _ _ hb
      exact ⟨rs, p.2, hrs, ⟨p, hp, rfl⟩, hemit⟩) hloop ⟨[], [], emitted_refl⟩
  obtain ⟨htrec, htemit⟩ := htail _ _ _ _ (fun n hn => hemit.issued n (hS n hn)) he
  refine ⟨rs, bs, css.flatten, hfile, logs_of_forall₂ hC, htrec.trans hrs, ?_⟩
  simpa using hemit.append htemit

variable {filter : Option ResolvedFilter} {db schema table : String}

theorem exec_updateMp (hS : ∀ n ∈ S, n ∈ w.issued)
    (he : Ends (Step pq) w (updateMp scope assignments filter acc mp) acc' w') :
    ∃ rs bs cs, w.files mp.readPath = some bs ∧
      DmlStatement.Logs (.update db schema table assignments filter) bs cs ∧
      acc'.records = acc.records ++ rs ∧ Emitted S scope.tableMeta.id w w' rs cs := by
  refine exec_rewriteMp (fun _ _ _ _ _ hb => exec_updateBatch hb) ?_ hS he
  intro inner acc' w w' hS he
  split_ifs at he
  · exact exec_replaceMp hS he
  · obtain ⟨rfl, rfl⟩ := execE_pure_iff.1 he
    exact ⟨rfl, emitted_refl⟩

theorem exec_deleteMp (hS : ∀ n ∈ S, n ∈ w.issued)
    (he : Ends (Step pq) w (deleteMp scope filter acc mp) acc' w') :
    ∃ rs bs cs, w.files mp.readPath = some bs ∧
      DmlStatement.Logs (.delete db schema table filter) bs cs ∧
      acc'.records = acc.records ++ rs ∧ Emitted S scope.tableMeta.id w w' rs cs := by
  refine exec_rewriteMp (fun _ _ _ _ _ hb => exec_deleteBatch hb) ?_ hS he
  intro inner acc' w w' hS he
  split_ifs at he
  · obtain ⟨newMpId, w1, hid, he⟩ := execE_bind_iff.1 he
    obtain ⟨rfl, rfl⟩ := execE_pure_iff.1 he
    exact ⟨rfl, emitted_of_step (execE_call_iff.1 hid) trivial⟩
  · exact exec_replaceMp hS he
  · obtain ⟨rfl, rfl⟩ := execE_pure_iff.1 he
    exact ⟨rfl, emitted_refl⟩

end Micropartitions

end Emission

/-! ### Whole statements -/

section Statements

variable {pq : Parquet} {fmt : TextFormat} {w w' : World} {stmt : DmlStatement} {m : TableMeta}
  {q : QueryResult} {db schema table : String}

theorem exec_findTable (he : Ends (Step pq) w (await (.findTable db schema table)) m w') :
    w.catalog.findTable db schema table = .ok m ∧ w' = w := by
  obtain ⟨x, hx⟩ := step_ok (execE_call_iff.1 he)
  obtain ⟨hm, hw⟩ := Prod.mk.inj (some.inj hx)
  exact ⟨hm, hw.symm⟩

theorem exec_commitTableCdc {new : List MicroPartitionMeta} {sup : List (MpId × MpId)}
    {records : List ChangeRecordMeta} {a : Unit}
    (he : Ends (Step pq) w (await (.commitTableCdc txnId new sup records)) a w') :
    w.CommitEffect w' new sup records := by
  cases step_effect (execE_call_iff.1 he) with
  | quiet h => cases h
  | commit h => exact commitTableCdc_eq_ok h

/-- The file a query reads for a micro-partition. -/
def World.fileOf (w : World) (mp : MicroPartitionMeta) : List RecordBatch :=
  (w.files mp.readPath).getD []

/-- **UPDATE and DELETE**, up to and including the commit. -/
theorem exec_copyOnWrite {body : DmlScope → MpAcc → MicroPartitionMeta → Nova MpAcc}
    {status : String} (hw : w.WellFormed)
    (hbody : ∀ scope acc mp acc' w1 w2, (∀ n ∈ w.issued, n ∈ w1.issued) →
      Ends (Step pq) w1 (body scope acc mp) acc' w2 →
      ∃ rs bs cs, w1.files mp.readPath = some bs ∧ stmt.Logs bs cs ∧
        acc'.records = acc.records ++ rs ∧ Emitted w.issued scope.tableMeta.id w1 w2 rs cs)
    (he : Ends (Step pq) w (execCopyOnWrite db schema table body status) q w') :
    ∃ m w1 rs css new sup, w.catalog.findTable db schema table = .ok m ∧
      List.Forall₂ (fun mp cs => stmt.Logs (w.fileOf mp) cs) (w.getActiveMps m.id) css ∧
      Emitted w.issued m.id w w1 rs css.flatten ∧ w1.CommitEffect w' new sup rs := by
  obtain ⟨m, w1, hfind, he⟩ := execE_bind_iff.1 he
  obtain ⟨hm, hw1⟩ := exec_findTable hfind
  rw [hw1] at he
  obtain ⟨mps, w2, hmps, he⟩ := execE_bind_iff.1 he
  obtain ⟨rfl, hw2⟩ := exec_getActiveMps_iff.1 hmps
  rw [hw2] at he
  obtain ⟨txnId, w3, htxn, he⟩ := execE_bind_iff.1 he
  obtain ⟨commitTs, w4, hnow, he⟩ := execE_bind_iff.1 he
  obtain ⟨acc, w5, hloop, he⟩ := execE_bind_iff.1 he
  obtain ⟨_, w6, hcommit, he⟩ := execE_bind_iff.1 he
  obtain ⟨-, rfl⟩ := execE_pure_iff.1 he
  have hstart : Emitted w.issued m.id w w4 [] [] :=
    (emitted_of_issues htxn issues_beginTransaction).append
      (emitted_of_step (execE_call_iff.1 hnow) trivial)
  obtain ⟨rs, css, hrs, hC, hemit⟩ := exec_foldlM_emitted
    (C := fun mp cs => stmt.Logs (w.fileOf mp) cs) (fun mp hmp acc acc' w1 w2 hw1 hb => by
      obtain ⟨rs1, cs1, h1⟩ := hw1
      obtain ⟨rs, bs, cs, hfile, hlogs, hrs, hemit⟩ := hbody _ _ _ _ _ _ h1.issued hb
      -- the file still is what it was when the statement began
      obtain ⟨k, -, hk, ha⟩ := mem_getActiveMps.1 hmp
      obtain ⟨_, hfiles⟩ := ne_none_iff_exists'.1 (hw.stored k mp hk ha)
      rw [h1.files _ (hw.files _ _ hfiles)] at hfile
      refine ⟨rs, cs, hrs, ?_, hemit⟩
      unfold fileOf
      rwa [hfile]) hloop ⟨[], [], hstart⟩
  have hrs : acc.records = rs := hrs
  exact ⟨m, w5, rs, css, acc.newMps, acc.superseded, hm, hC, hstart.append hemit,
    hrs ▸ exec_commitTableCdc hcommit⟩

/-- **INSERT**: it has rows, and its change rows could be numbered. -/
theorem exec_insert {values : List (List ResolvedExpr)}
    (he : Ends (Step pq) w (execInsert fmt db schema table values) q w') :
    ∃ m batch w1 rs new sup, w.catalog.findTable db schema table = .ok m ∧
      valuesToBatch fmt m values = .ok batch ∧
      Emitted w.issued m.id w w1 rs (batch.logicalRows.map .add) ∧
      w1.CommitEffect w' new sup rs ∧ values ≠ [] ∧ values.length < u64Max := by
  obtain ⟨m, w1, hfind, he⟩ := execE_bind_iff.1 he
  obtain ⟨hm, hw1⟩ := exec_findTable hfind
  rw [hw1] at he
  obtain ⟨batch, hbatch, he⟩ := execE_liftExcept_bind_iff.1 he
  obtain ⟨mpId, w2, hid, he⟩ := execE_bind_iff.1 he
  obtain ⟨version, w3, hv, he⟩ := execE_bind_iff.1 he
  obtain ⟨txnId, w4, htxn, he⟩ := execE_bind_iff.1 he
  obtain ⟨commitTs, w5, hnow, he⟩ := execE_bind_iff.1 he
  obtain ⟨mp, w6, hwrite, he⟩ := execE_bind_iff.1 he
  obtain ⟨start, w7, ha, he⟩ := execE_bind_iff.1 he
  obtain ⟨cdc, hcdc, he⟩ := execE_liftExcept_bind_iff.1 he
  obtain ⟨change, w8, hchange, he⟩ := execE_bind_iff.1 he
  obtain ⟨_, w9, hcommit, he⟩ := execE_bind_iff.1 he
  obtain ⟨-, rfl⟩ := execE_pure_iff.1 he
  have hfresh := exec_generateId_fresh hid fun _ hn => hn
  have hquiet : Emitted w.issued m.id w w6 [] [] :=
    (emitted_of_step (execE_call_iff.1 hid) trivial).append <|
      (emitted_of_step (execE_call_iff.1 hv) trivial).append <|
      (emitted_of_issues htxn issues_beginTransaction).append <|
      (emitted_of_step (execE_call_iff.1 hnow) trivial).append <|
      emitted_of_issues hwrite (issues_write hfresh)
  have hcount : cdc.numRows = values.length :=
    (buildCdc_numRows hcdc).trans (valuesToBatch_numRows hbatch)
  obtain ⟨hne, hlt, hrecord⟩ := emitted_of_record ha hchange hcount
  rw [buildCdcBatchForRows_changes hcdc] at hrecord
  exact ⟨m, batch, w8, [change], _, _, hm, hbatch, hquiet.append hrecord,
    exec_commitTableCdc hcommit, length_eq_zero_iff.not.1 hne, hlt⟩

/-- The micro-partitions of a table read back with the schema of the table. -/
def World.HasSchema (w : World) (m : TableMeta) : Prop :=
  ∀ bs ∈ w.contents m.id, ∀ b ∈ bs, b.schema = m.arrowSchema

/-- The changes that UPDATE and DELETE log for the micro-partitions they read turn the rows of the
table into those that are read after the commit. -/
theorem turns_rewrite (hpq : pq.KeepsSchema) (hutf8 : stmt.AssignsUtf8 m.arrowSchema)
    (hschema : w.HasSchema m)
    (hlogs : List.Forall₂ (fun mp cs => stmt.Logs (w.fileOf mp) cs) (w.getActiveMps m.id) css)
    (hcontents : w'.contents m.id = (w.contents m.id).bind
      (if m.id % 256 = 255 then fun bs => {bs} else stmt.effect pq)) :
    Turns css.flatten (rowsOf (w.contents m.id)) (rowsOf (w'.contents m.id)) ∧ w'.HasSchema m := by
  split_ifs at hcontents with ht
  · -- the index scan of such a table is empty, so nothing was logged
    have hnil : w.getActiveMps m.id = [] := by
      unfold World.getActiveMps scanTableMps OMap.scanKeys
      rw [if_pos ht]
      rfl
    rw [hnil, forall₂_nil_left_iff] at hlogs
    have hsame : w'.contents m.id = w.contents m.id :=
      hcontents.trans (Txn.bind_eq_self fun _ _ => rfl)
    refine ⟨?_, fun bs hbs => hschema bs (hsame ▸ hbs)⟩
    rw [hsame, hlogs]
    exact .nil
  · have hactive : w.contents m.id = ((w.getActiveMps m.id).map w.fileOf : List _) := by
      rw [← contents_eq_contentsOf_scan w ht, World.getActiveMps, map_filterMap]
      rfl
    have hfile : ∀ mp ∈ w.getActiveMps m.id, ∀ b ∈ w.fileOf mp, b.schema = m.arrowSchema :=
      fun mp hmp => hschema _ (hactive ▸ mem_map_of_mem hmp)
    constructor
    · have hturns : List.Forall₂ (fun mp cs => Turns cs (rowsOf {w.fileOf mp})
          (rowsOf (stmt.effect pq (w.fileOf mp)))) (w.getActiveMps m.id) css := by
        obtain ⟨hlen, hzip⟩ := forall₂_iff_zip.1 hlogs
        refine forall₂_iff_zip.2 ⟨hlen, fun {mp cs} hmem => ?_⟩
        obtain ⟨ps, hps, rfl⟩ := hzip hmem
        have hmp := (of_mem_zip hmem).1
        exact turns_effect hps fun b hb => (hfile mp hmp b hb).symm ▸ hutf8
      have hbind : rowsOf (w'.contents m.id) = (w.contents m.id).bind fun bs =>
          rowsOf (stmt.effect pq bs) := hcontents ▸ Multiset.bind_assoc
      rw [hbind, hactive, ← Multiset.map_coe, Multiset.bind_map]
      have hrows : rowsOf (Multiset.map w.fileOf (w.getActiveMps m.id : Multiset _)) =
          (w.getActiveMps m.id : Multiset _).bind fun mp => rowsOf {w.fileOf mp} := by
        unfold rowsOf
        rw [Multiset.bind_map]
        simp only [Multiset.singleton_bind]
      rw [hrows]
      exact Turns.bind hturns
    · intro bs' hbs'
      rw [hcontents, Multiset.mem_bind] at hbs'
      obtain ⟨bs, hbs, hmem⟩ := hbs'
      rw [hactive, Multiset.mem_coe, List.mem_map] at hbs
      obtain ⟨mp, hmp, rfl⟩ := hbs
      obtain ⟨cs, -, ps, hps, -⟩ := forall₂_exists_left hlogs.flip hmp
      exact effect_schema hpq hps hutf8 (hfile mp hmp) hmem

/-- **A whole statement**: the changes it logs turn the rows of its table before the statement into
those after it. -/
theorem exec_emitted (hw : w.WellFormed) (hr : RunsAlone pq fmt w stmt w') (hpq : pq.KeepsSchema)
    (htarget : stmt.target w.catalog = .ok m) (hutf8 : stmt.AssignsUtf8 m.arrowSchema)
    (hschema : w.HasSchema m) :
    ∃ w1 rs cs new sup, Emitted w.issued m.id w w1 rs cs ∧ w1.CommitEffect w' new sup rs ∧
      Turns cs (rowsOf (w.contents m.id)) (rowsOf (w'.contents m.id)) ∧ w'.HasSchema m := by
  obtain ⟨-, -, m', hm', hcontents⟩ := exec_alone hw hr
  obtain rfl : m = m' := ok_unique htarget hm'
  obtain ⟨h, c, hrun, hok, rfl⟩ := hr
  obtain ⟨q, hq⟩ := eq_ok_of_succeeded hok
  have he : Ends (Step pq) w (stmt.exec fmt) q c.world := hrun.exec hq
  cases stmt with
  | insert db schema table values =>
    obtain ⟨m', batch, w1, rs, new, sup, hm', hbatch, hemit, hcommit, -⟩ := exec_insert he
    obtain rfl : m = m' := ok_unique htarget hm'
    have hadd : c.world.contents m.id = w.contents m.id + {pq.mp [batch]} := by
      simp only [hcontents, txn, hm', insertedContents, hbatch, Txn.apply]
    refine ⟨w1, rs, _, new, sup, hemit, hcommit, ?_, ?_⟩
    · have hrows : rowsOf (c.world.contents m.id) =
          rowsOf (w.contents m.id) + (batch.logicalRows : List (List Cell)) := by
        rw [hadd]
        unfold rowsOf
        rw [Multiset.add_bind, Multiset.singleton_bind, pq.mp_rows]
        simp
      rw [hrows, add_comm]
      simpa using (Turns.adds batch.logicalRows).add (Turns.nil)
    · intro bs hbs
      rw [hadd, Multiset.mem_add, Multiset.mem_singleton] at hbs
      rcases hbs with hbs | rfl
      · exact hschema bs hbs
      · refine hpq m.arrowSchema [batch] fun b hb => ?_
        obtain rfl := mem_singleton.1 hb
        simp only [valuesToBatch] at hbatch
        split_ifs at hbatch
        exact (tryNew_eq_ok hbatch).1
  | update db schema table assignments filter =>
    obtain ⟨m', w1, rs, css, new, sup, hm', hlogs, hemit, hcommit⟩ :=
      exec_copyOnWrite hw (fun _ _ _ _ _ _ => exec_updateMp) he
    obtain rfl : m = m' := ok_unique htarget hm'
    exact ⟨w1, rs, _, new, sup, hemit, hcommit, turns_rewrite hpq hutf8 hschema hlogs hcontents⟩
  | delete db schema table filter =>
    obtain ⟨m', w1, rs, css, new, sup, hm', hlogs, hemit, hcommit⟩ :=
      exec_copyOnWrite hw (fun _ _ _ _ _ _ => exec_deleteMp) he
    obtain rfl : m = m' := ok_unique htarget hm'
    exact ⟨w1, rs, _, new, sup, hemit, hcommit, turns_rewrite hpq hutf8 hschema hlogs hcontents⟩

end Statements

/-! ### The log of a table -/

/-- The change log of a table replays to its rows, and all of it is published. -/
structure Replayed (w : World) (m : TableMeta) : Prop where
  wf : w.WellFormed
  schema : w.HasSchema m
  watermark : w.tableChangeSequence m.id = w.allocated m.id
  logged : ∀ k r, w.changeLog m.id k = some r → 0 < k ∧ k ≤ w.tableChangeSequence m.id
  paths : ∀ k r, w.changeLog m.id k = some r → r.payload.path.startSequence ≤ w.allocated m.id
  rows : replay 0 ((w.cdcRows m.id 0 (w.tableChangeSequence m.id)).map rowChange) =
    some (rowsOf (w.contents m.id))

section Log

variable {pq : Parquet} {fmt : TextFormat} {w w1 w' : World} {stmt : DmlStatement} {m : TableMeta}
  {S : List MpId} {t : TableId} {rs : List ChangeRecordMeta} {cs : List (Change (List Cell))}
  {new : List MicroPartitionMeta} {sup : List (MpId × MpId)}

/-- **The commit publishes everything that was allocated.** -/
theorem Emitted.watermark (hemit : Emitted S t w w1 rs cs) (he : w1.CommitEffect w' new sup rs)
    (hw : w.tableChangeSequence t = w.allocated t) :
    w'.tableChangeSequence t = w1.allocated t ∧ w'.allocated t = w1.allocated t := by
  have hseq : w1.tableChangeSequence t = w.allocated t := by
    rw [← hw]
    unfold tableChangeSequence
    rw [hemit.changeSeq]
  have htiles := hemit.tiles
  have hpublished : w1.publishedThrough rs t = w1.allocated t := by
    unfold publishedThrough
    rw [hseq, htiles.tableRanges_eq]
    cases rs with
    | nil =>
      have : w1.allocated t + 1 = w.allocated t + 1 := htiles
      exact (succ.inj this).symm
    | cons r rs =>
      obtain ⟨-, -, -, -, hfits, -⟩ := id htiles
      rw [satAdd_eq (by omega)]
      have := htiles.publishLoop_eq
      omega
  have hle := htiles.le
  have hwm : w'.tableChangeSequence t = w1.allocated t := by
    rw [he.changeSeq]
    omega
  refine ⟨hwm, ?_⟩
  unfold allocated at hwm ⊢
  rw [he.changeNextSeq]
  cases hn : w1.changeNextSeq t with
  | some n => rfl
  | none =>
    rw [hn] at hwm
    exact hwm

/-- The log after the commit: the old records, then those of the statement. -/
theorem Emitted.changeLog_commit (hemit : Emitted S t w w1 rs cs)
    (he : w1.CommitEffect w' new sup rs) (k : ℕ) :
    (k ≤ w.allocated t → w'.changeLog t k = w.changeLog t k) ∧
      (w.allocated t < k → w.changeLog t k = none →
        ∀ r, w'.changeLog t k = some r ↔ r ∈ rs ∧ r.sequence = k) := by
  rw [he.changeLog, hemit.changeLog]
  have hnone : (∀ r ∈ rs, r.sequence ≠ k) → loggedRecords w.changeLog rs t k =
      w.changeLog t k := fun h => loggedRecords_of_not_mem fun r hr _ => h r hr
  have hsome : ∀ r ∈ rs, loggedRecords w.changeLog rs t r.sequence = some r := by
    intro r hr
    have hnd := pairwise_map.2 (hemit.tiles.pairwise.imp ne_of_lt)
    rw [← (hemit.tiles.mem hr).1]
    exact loggedRecords_of_mem hr hnd
  refine ⟨fun hk => hnone fun r hr => ?_, fun hk hfree r => ⟨fun hr => ?_, ?_⟩⟩
  · have := (hemit.tiles.mem hr).2.1
    omega
  · by_cases hmem : ∃ q ∈ rs, q.sequence = k
    · obtain ⟨q, hq, rfl⟩ := hmem
      obtain rfl : r = q := mem_unique hr (hsome q hq)
      exact ⟨hq, rfl⟩
    · rw [hnone fun q hq hk => hmem ⟨q, hq, hk⟩, hfree] at hr
      cases hr
  · rintro ⟨hr, rfl⟩
    exact hsome r hr

/-- **One more statement.** -/
theorem Replayed.step (hinv : Replayed w m) (hpq : pq.KeepsSchema)
    (hr : RunsAlone pq fmt w stmt w') (htarget : stmt.target w.catalog = .ok m)
    (hutf8 : stmt.AssignsUtf8 m.arrowSchema) : Replayed w' m := by
  obtain ⟨w1, rs, cs, new, sup, hemit, he, hturns, hschema⟩ :=
    exec_emitted hinv.wf hr hpq htarget hutf8 hinv.schema
  obtain ⟨hwm, halloc⟩ := hemit.watermark he hinv.watermark
  have hle : w.allocated m.id ≤ w1.allocated m.id := by
    have := hemit.tiles.le
    omega
  have hold := fun k => (hemit.changeLog_commit he k).1
  have hnew : ∀ k, w.allocated m.id < k → ∀ r, w'.changeLog m.id k = some r ↔
      r ∈ rs ∧ r.sequence = k := by
    refine fun k hk => (hemit.changeLog_commit he k).2 hk ?_
    by_contra hne
    obtain ⟨r, hr⟩ := ne_none_iff_exists'.1 hne
    have := (hinv.logged k r hr).2
    have := hinv.watermark
    omega
  have hrows : ∀ r : ChangeRecordMeta, w'.recordRows r = w1.recordRows r := fun r => by
    unfold recordRows
    rw [he.payloads]
  refine ⟨(exec_alone hinv.wf hr).1, hschema, hwm.trans halloc.symm, fun k r hr => ?_,
    fun k r hr => ?_, ?_⟩
  · rw [hwm]
    by_cases hk : k ≤ w.allocated m.id
    · rw [hold k hk] at hr
      exact ⟨(hinv.logged k r hr).1, hk.trans hle⟩
    · obtain ⟨hmem, rfl⟩ := (hnew k (by omega) r).1 hr
      have := (hemit.tiles.mem hmem).2.2.1
      omega
  · rw [halloc]
    by_cases hk : k ≤ w.allocated m.id
    · rw [hold k hk] at hr
      exact (hinv.paths k r hr).trans hle
    · obtain ⟨hmem, rfl⟩ := (hnew k (by omega) r).1 hr
      obtain ⟨-, -, hlt, hpath⟩ := hemit.tiles.mem hmem
      omega
  · have hbefore : w'.cdcRows m.id 0 (w.allocated m.id) = w.cdcRows m.id 0 (w.allocated m.id) := by
      unfold cdcRows changeRecordsBetween
      rw [filterMap_congr fun k hk => hold k (by rw [mem_range'_1] at hk; omega)]
      refine flatMap_congr fun r hr => ?_
      obtain ⟨k, -, hk⟩ := mem_filterMap.1 hr
      rw [hrows]
      unfold recordRows
      rw [hemit.payloads _ (hinv.paths k r hk)]
    have hafter : w'.changeRecordsBetween m.id (w.allocated m.id) (w1.allocated m.id) = rs := by
      have h := hemit.tiles.filterMap_range' fun k hk => hnew k (by omega)
      rwa [Nat.add_sub_add_right] at h
    rw [hwm, ← cdcRows_append w' m.id (zero_le _) hle, map_append, replay_append,
      hbefore, ← hinv.watermark, hinv.rows, hinv.watermark]
    have hchanges : (w'.cdcRows m.id (w.allocated m.id) (w1.allocated m.id)).map rowChange =
        cs := by
      unfold cdcRows
      rw [hafter, flatMap_congr fun r _ => hrows r, hemit.rows]
    rw [hchanges]
    simpa using hturns 0

theorem SerialRun.replayed {ι : Type} {stmts : ι → DmlStatement} {order : List ι}
    (hr : SerialRun pq fmt stmts w order w') (hinv : Replayed w m) (hpq : pq.KeepsSchema)
    (hstmts : ∀ i ∈ order, (stmts i).target w.catalog = .ok m ∧
      (stmts i).AssignsUtf8 m.arrowSchema) : Replayed w' m := by
  induction hr with
  | nil => exact hinv
  | @cons w w1 w2 i order hi _ ih =>
    obtain ⟨htarget, hutf8⟩ := hstmts i (by simp)
    have hcat := (exec_alone hinv.wf hi).2.1
    exact ih (hinv.step hpq hi htarget hutf8) fun j hj => hcat ▸ hstmts j (by simp [hj])

/-- **The change log replays to the table.**  After INSERT, DELETE and UPDATE statements on an
initially empty table that ran one after another and returned `Ok`, where the assigned columns are
of type Utf8 and readers keep the schema of the table: replaying all records of the log in order
never removes an absent row and gives the rows of the active micro-partitions, and the watermark is
the last allocated sequence number. -/
theorem log_replays {ι : Type} {stmts : ι → DmlStatement} {order : List ι} (hw : w.WellFormed)
    (hempty : w.contents m.id = 0) (hlog : w.EmptyChangeLog m.id) (halloc : w.allocated m.id = 0)
    (hpq : pq.KeepsSchema) (hr : SerialRun pq fmt stmts w order w')
    (hstmts : ∀ i ∈ order, (stmts i).target w.catalog = .ok m ∧
      (stmts i).AssignsUtf8 m.arrowSchema) :
    replay 0 ((w'.cdcRows m.id 0 (w'.tableChangeSequence m.id)).map rowChange) =
        some (rowsOf (w'.contents m.id)) ∧
      (∀ k r, w'.changeLog m.id k = some r → 0 < k ∧ k ≤ w'.tableChangeSequence m.id) ∧
      w'.tableChangeSequence m.id = w'.allocated m.id := by
  have hinit : Replayed w m := by
    refine ⟨hw, ?_, hlog.changeSeq.trans halloc.symm, ?_, ?_, ?_⟩
    · intro bs hbs
      simp [hempty] at hbs
    iterate 2
      intro k r hr
      simp [hlog.changeLog] at hr
    · rw [hlog.changeSeq, hempty]
      rfl
  have hfinal := hr.replayed hinit hpq hstmts
  exact ⟨hfinal.rows, hfinal.logged, hfinal.watermark⟩

end Log

/-! ### A table of texts -/

/-- The table `d.s.t` with one text column. -/
def textTable : TableMeta := { sampleTable with columns := [⟨"a", .utf8, true⟩] }

/-- A store with the table of texts and nothing in it. -/
def oneTextTable : World :=
  { oneTable with
    catalog := { oneTable.catalog with
      tables := fun _ _ => (∅ : OMap TableMeta).insert 1 textTable } }

/-- `INSERT INTO d.s.t VALUES ('x'), ('y')`, `UPDATE d.s.t SET a = 'z' WHERE a = 'x'` and
`DELETE FROM d.s.t WHERE a = 'y'`. -/
def textStatements : Fin 3 → DmlStatement
  | 0 => .insert "d" "s" "t" [[.string "x"], [.string "y"]]
  | 1 => .update "d" "s" "t" [("a", .string "z")] (some ⟨"a", .eq, .string "x"⟩)
  | 2 => .delete "d" "s" "t" (some ⟨"a", .eq, .string "y"⟩)

theorem verbatim_keepsSchema : verbatim.KeepsSchema := fun _ _ h b hb => h b (mem_of_mem_filter hb)

theorem oneTextTable_wellFormed : oneTextTable.WellFormed where
  __ := oneTable_wellFormed

theorem textStatements_run : ∃ w, SerialRun verbatim plainText textStatements oneTextTable
    [0, 1, 2] w ∧ w.tableChangeSequence 1 = 5 := by
  have hrun : ((dmlConfig plainText oneTextTable fun _ : Unit => textStatements 0).schedule
      (Op.apply verbatim) (replicate 11 ((), { id := 8 }))).any (fun x =>
        (x.2.threads ()).succeeded &&
        ((dmlConfig plainText x.2.world fun _ : Unit => textStatements 1).schedule
          (Op.apply verbatim) (replicate 14 ((), { id := 9 }))).any (fun y =>
            (y.2.threads ()).succeeded &&
            ((dmlConfig plainText y.2.world fun _ : Unit => textStatements 2).schedule
              (Op.apply verbatim) (replicate 15 ((), { id := 10 }))).any fun z =>
                (z.2.threads ()).succeeded && decide (z.2.world.tableChangeSequence 1 = 5))) =
      true := by
    decide +kernel
  obtain ⟨h1, c1, hr1, hp⟩ := exists_run_of_schedule hrun
  obtain ⟨hok1, hp⟩ := Bool.and_eq_true_iff.1 hp
  obtain ⟨h2, c2, hr2, hp⟩ := exists_run_of_schedule hp
  obtain ⟨hok2, hp⟩ := Bool.and_eq_true_iff.1 hp
  obtain ⟨h3, c3, hr3, hp⟩ := exists_run_of_schedule hp
  obtain ⟨hok3, hseq⟩ := Bool.and_eq_true_iff.1 hp
  exact ⟨c3.world, .cons ⟨h1, c1, hr1, hok1, rfl⟩ (.cons ⟨h2, c2, hr2, hok2, rfl⟩
    (.cons ⟨h3, c3, hr3, hok3, rfl⟩ .nil)), of_decide_eq_true hseq⟩

/-- Two inserted rows, one of them updated, the other deleted. -/
theorem log_replays_textStatements : ∃ w,
    SerialRun Parquet.verbatim plainText textStatements oneTextTable [0, 1, 2] w ∧
      w.tableChangeSequence 1 = 5 ∧
      replay 0 ((w.cdcRows 1 0 5).map rowChange) = some (rowsOf (w.contents 1)) := by
  obtain ⟨w, hr, hseq⟩ := textStatements_run
  have hstmts : ∀ i ∈ [0, 1, 2], (textStatements i).target oneTextTable.catalog = .ok textTable ∧
      (textStatements i).AssignsUtf8 textTable.arrowSchema := by
    intro i _
    refine ⟨by revert i; decide +kernel, ?_⟩
    match i with
    | 0 => trivial
    | 1 =>
      intro f hf _ _ _
      obtain rfl := mem_singleton.1 hf
      rfl
    | 2 => trivial
  have h := log_replays oneTextTable_wellFormed rfl ⟨rfl, fun _ => rfl⟩ rfl
    verbatim_keepsSchema hr hstmts
  have hrows := h.1
  rw [show textTable.id = 1 from rfl, hseq] at hrows
  exact ⟨w, hr, hseq, hrows⟩

end NovaCore
