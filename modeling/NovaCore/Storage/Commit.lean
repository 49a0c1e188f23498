import NovaCore.Data.Lists
import NovaCore.Storage.World

/-!
# What the allocation and commit transactions do

The effect of `allocate_table_change_sequences` and `commit_table_cdc` on each key family.  The
rest of the development uses these lemmas and not the bodies of the transactions.

* `World.allocate_eq_ok` : the sequence range an allocation returns.
* `World.compareAndSet_eq_ok` : the offset that was replaced, and the new one.
* `World.CommitEffect` : the key families a commit changes, and those it leaves alone.
* `CommitEffect.mps_of_not_mem`, `CommitEffect.mps_new`, `CommitEffect.mps_superseded` : the
  micro-partition records after a commit.
* `loggedRecords_of_mem`, `loggedRecords_of_not_mem` : the change log after a commit.
-/

namespace NovaCore

open List Function MicroPartitionMeta

variable {t : TableId} {mps : MpId → Option MicroPartitionMeta} {id : MpId} {now : Timestamp}
  {txnId : TxnId}

namespace World

variable {w w' : World}

/-! ### Allocation and offsets -/

theorem allocate_eq_ok {count first : ℕ}
    (h : w.allocateTableChangeSequences t count = .ok (first, w')) :
    first = w.allocated t + 1 ∧ first ≤ u64Max ∧
      w' = { w with changeNextSeq :=
              update w.changeNextSeq t (satAdd (w.allocated t) count) } := by
  unfold allocateTableChangeSequences at h
  cases hc : checkedAdd (w.allocated t) 1 with
  | error e => rw [hc] at h; cases h
  | ok a =>
    rw [hc] at h
    cases h
    obtain ⟨hle, rfl⟩ := checkedAdd_eq_ok.1 hc
    exact ⟨rfl, hle, rfl⟩

theorem compareAndSet_eq_ok {s : StreamId} {expected : ℕ} {new : StreamOffset}
    (h : w.compareAndSetStreamOffset s expected new = .ok w') :
    ∃ offset, w.streamOffsets s = some offset ∧ offset.committedSequence = expected ∧
      w' = { w with streamOffsets := update w.streamOffsets s (some new) } := by
  unfold compareAndSetStreamOffset at h
  split at h
  · cases h
  · next offset hoffset =>
    split_ifs at h with heq
    cases h
    exact ⟨offset, hoffset, heq, rfl⟩

/-! ### Commit -/

/-- The micro-partition records after storing new ones. -/
def insertedMps (w : World) (newMps : List MicroPartitionMeta) : MpId → Option MicroPartitionMeta :=
  newMps.foldl (fun mps mp => Function.update mps mp.mpId (some mp)) w.mps

/-- The micro-partition records after marking superseded ones. -/
def supersededMps (mps : MpId → Option MicroPartitionMeta) (superseded : List (MpId × MpId)) :
    MpId → Option MicroPartitionMeta :=
  superseded.foldl (fun mps p => Function.update mps p.1
    ((mps p.1).map fun mp => { mp with supersededBy := some p.2, active := false })) mps

/-- The change log after storing records. -/
def loggedRecords (log : TableId → ℕ → Option ChangeRecordMeta) (records : List ChangeRecordMeta) :
    TableId → ℕ → Option ChangeRecordMeta :=
  records.foldl (fun log r => Function.update log r.tableId
    (Function.update (log r.tableId) r.sequence (some r))) log

/-- What a successful `commit_table_cdc` did. -/
structure CommitEffect (w w' : World) (newMps : List MicroPartitionMeta)
    (superseded : List (MpId × MpId)) (records : List ChangeRecordMeta) : Prop where
  catalog : w'.catalog = w.catalog
  changeNextSeq : w'.changeNextSeq = w.changeNextSeq
  streamOffsets : w'.streamOffsets = w.streamOffsets
  files : w'.files = w.files
  payloads : w'.payloads = w.payloads
  issued : w'.issued = w.issued
  exists_old : ∀ p ∈ superseded, w.insertedMps newMps p.1 ≠ none
  mps : w'.mps = supersededMps (w.insertedMps newMps) superseded
  tableMps : w'.tableMps = (newMps.foldl insertMp w).tableMps
  changeLog : w'.changeLog = loggedRecords w.changeLog records
  changeSeq : ∀ t, w'.tableChangeSequence t =
    max (w.tableChangeSequence t) (w.publishedThrough records t)

theorem foldl_insertMp (newMps : List MicroPartitionMeta) (w : World) : newMps.foldl insertMp w =
      { w with mps := w.insertedMps newMps, tableMps := (newMps.foldl insertMp w).tableMps } := by
  induction newMps generalizing w with
  | nil => rfl
  | cons mp newMps ih =>
    rw [foldl_cons, ih (w.insertMp mp)]
    rfl

theorem supersede_eq_ok {old new : MpId} (h : w.supersede old new = .ok w') :
    w.mps old ≠ none ∧ w' = { w with mps := supersededMps w.mps [(old, new)] } := by
  unfold supersede at h
  split at h
  · cases h
  · next mp hmp =>
    cases h
    simp [supersededMps, hmp]

variable {superseded : List (MpId × MpId)}

theorem supersededMps_ne_none : supersededMps mps superseded id ≠ none ↔ mps id ≠ none := by
  refine foldlRecOn superseded _ (motive := fun f : MpId → _ => f id ≠ none ↔ mps id ≠ none)
    Iff.rfl fun f hf p _ => Iff.trans ?_ hf
  by_cases h : id = p.1
  · subst h
    simp
  · rw [update_of_ne h]

theorem foldlM_supersede (h : superseded.foldlM (fun w p => w.supersede p.1 p.2) w = .ok w') :
    (∀ p ∈ superseded, w.mps p.1 ≠ none) ∧
      w' = { w with mps := supersededMps w.mps superseded } := by
  induction superseded generalizing w with
  | nil =>
    cases h
    exact ⟨by simp, rfl⟩
  | cons p superseded ih =>
    rw [foldlM_cons] at h
    cases hp : w.supersede p.1 p.2 with
    | error e => rw [hp] at h; cases h
    | ok w1 =>
      rw [hp] at h
      obtain ⟨hne, rfl⟩ := supersede_eq_ok hp
      obtain ⟨hall, rfl⟩ := ih h
      refine ⟨?_, rfl⟩
      intro q hq
      rcases mem_cons.1 hq with rfl | hq
      · exact hne
      · exact supersededMps_ne_none.1 (hall q hq)

theorem foldl_setChangeRecord (records : List ChangeRecordMeta) (w : World) :
    records.foldl setChangeRecord w =
      { w with changeLog := loggedRecords w.changeLog records } := by
  induction records generalizing w with
  | nil => rfl
  | cons r records ih =>
    rw [foldl_cons, ih (w.setChangeRecord r)]
    rfl

/-- The transactions after the transaction `txnId` was marked committed. -/
inductive CommittedTxn (txns : TxnId → Option TransactionMeta) (txnId : TxnId) (now : Timestamp) :
    (TxnId → Option TransactionMeta) → Prop
  | none (h : txnId = 0) : CommittedTxn txns txnId now txns
  | some {m : TransactionMeta} (hid : txnId ≠ 0) (h : txns txnId = some m) :
      CommittedTxn txns txnId now (Function.update txns txnId
        (.some { m with status := .committed, commitTs := .some now }))

theorem commitTxn_eq_ok (h : w.commitTxn txnId now = .ok w') :
    ∃ txns, CommittedTxn w.txns txnId now txns ∧ w' = { w with txns := txns } := by
  unfold commitTxn at h
  split_ifs at h with hzero
  · cases h
    exact ⟨w.txns, .none hzero, rfl⟩
  · split at h
    · cases h
    · next m hm =>
      cases h
      exact ⟨_, .some hzero hm, rfl⟩

theorem tableChangeSequence_publish (records : List ChangeRecordMeta) (t : TableId) :
    (w.publish records).tableChangeSequence t =
      max (w.tableChangeSequence t) (w.publishedThrough records t) := by
  change (if w.tableChangeSequence t < w.publishedThrough records t then
    some (w.publishedThrough records t) else w.changeSeq t).getD 0 = _
  split_ifs with h
  · exact (max_eq_right h.le).symm
  · exact (max_eq_left (not_lt.1 h)).symm

variable {newMps : List MicroPartitionMeta} {records : List ChangeRecordMeta}

/-- The spec of `commit_table_cdc`, with what it does to the transactions. -/
theorem commitTableCdc_spec (h : w.commitTableCdc now txnId newMps superseded records = .ok w') :
    CommitEffect w w' newMps superseded records ∧ CommittedTxn w.txns txnId now w'.txns ∧
      w'.nextTxn = w.nextTxn := by
  unfold commitTableCdc at h
  simp only at h
  rw [foldl_insertMp] at h
  cases hs : superseded.foldlM (fun w p => w.supersede p.1 p.2)
      { w with mps := w.insertedMps newMps, tableMps := (newMps.foldl insertMp w).tableMps } with
  | error e => rw [hs] at h; cases h
  | ok w1 =>
    rw [hs] at h
    obtain ⟨hne, rfl⟩ := foldlM_supersede hs
    replace h : commitTxn _ txnId now = .ok w' := h
    rw [foldl_setChangeRecord] at h
    obtain ⟨txns, htxns, rfl⟩ := commitTxn_eq_ok h
    exact ⟨⟨rfl, rfl, rfl, rfl, rfl, rfl, hne, rfl, rfl, rfl, tableChangeSequence_publish records⟩,
      htxns, rfl⟩

/-- The spec of `commit_table_cdc`. -/
theorem commitTableCdc_eq_ok (h : w.commitTableCdc now txnId newMps superseded records = .ok w') :
    CommitEffect w w' newMps superseded records := (commitTableCdc_spec h).1

/-! ### The records after a commit -/

theorem insertedMps_of_not_mem
    (h : ∀ mp ∈ newMps, mp.mpId ≠ id) : w.insertedMps newMps id = w.mps id :=
  foldlRecOn newMps _ (motive := fun f : MpId → _ => f id = w.mps id) rfl
    fun f hf mp hmp => (update_of_ne (h mp hmp).symm _ f).trans hf

theorem insertedMps_of_mem {mp : MicroPartitionMeta}
    (hmp : mp ∈ newMps) (hnd : (newMps.map mpId).Nodup) :
    w.insertedMps newMps mp.mpId = some mp :=
  foldl_eq_of_mem (f := fun f : MpId → _ => f mp.mpId) (g := fun _ => some mp) hmp hnd
    (fun _ => update_self ..) (fun _ hne _ => update_of_ne hne.symm ..) _

theorem supersededMps_of_not_mem
    (h : ∀ p ∈ superseded, p.1 ≠ id) : supersededMps mps superseded id = mps id :=
  foldlRecOn superseded _ (motive := fun f : MpId → _ => f id = mps id) rfl
    fun f hf p hp => (update_of_ne (h p hp).symm _ f).trans hf

theorem supersededMps_of_mem {p : MpId × MpId}
    (hp : p ∈ superseded) (hnd : (superseded.map Prod.fst).Nodup) :
    supersededMps mps superseded p.1 =
      (mps p.1).map fun mp => { mp with supersededBy := some p.2, active := false } :=
  foldl_eq_of_mem (f := fun f : MpId → _ => f p.1) hp hnd (fun _ => update_self ..)
    (fun _ hne _ => update_of_ne hne.symm ..) _

theorem loggedRecords_of_not_mem {log : TableId → ℕ → Option ChangeRecordMeta}
    {k : ℕ} (h : ∀ r ∈ records, r.tableId = t → r.sequence ≠ k) :
    loggedRecords log records t k = log t k := by
  refine foldlRecOn records _ (motive := fun f : TableId → ℕ → _ => f t k = log t k) rfl
    fun f hf r hr => ?_
  by_cases ht : r.tableId = t
  · subst ht
    rwa [update_self, update_of_ne (h r hr rfl).symm]
  · rwa [update_of_ne (Ne.symm ht)]

theorem loggedRecords_of_mem {log : TableId → ℕ → Option ChangeRecordMeta}
    {r : ChangeRecordMeta} (hr : r ∈ records)
    (hnd : (records.map ChangeRecordMeta.sequence).Nodup) :
    loggedRecords log records r.tableId r.sequence = some r := by
  refine foldl_eq_of_mem (f := fun f : TableId → ℕ → _ => f r.tableId r.sequence)
    (g := fun _ => some r) hr hnd (fun f => by rw [update_self, update_self]) (fun q hne f => ?_) _
  by_cases ht : r.tableId = q.tableId
  · rw [ht, update_self, update_of_ne hne.symm]
  · rw [update_of_ne ht]

theorem mem_foldl_insertMp : id ∈ (newMps.foldl insertMp w).tableMps t ↔
      id ∈ w.tableMps t ∨ ∃ mp ∈ newMps, mp.tableId = t ∧ mp.mpId = id := by
  induction newMps generalizing w with
  | nil => simp
  | cons mp newMps ih =>
    rw [foldl_cons, ih]
    have hmp : id ∈ (w.insertMp mp).tableMps t ↔
        id ∈ w.tableMps t ∨ mp.tableId = t ∧ mp.mpId = id := by
      by_cases ht : mp.tableId = t
      · subst ht
        simp [insertMp, setMp, Std.ExtTreeMap.mem_insert, or_comm]
      · simp [insertMp, setMp, ht, update_of_ne (Ne.symm ht)]
    rw [hmp]
    simp [or_assoc]

namespace CommitEffect

variable {newMps : List MicroPartitionMeta} {superseded : List (MpId × MpId)}
  {records : List ChangeRecordMeta}

section

variable (he : CommitEffect w w' newMps superseded records)
include he

theorem mps_of_not_mem (hnew : ∀ mp ∈ newMps, mp.mpId ≠ id) (hsup : ∀ p ∈ superseded, p.1 ≠ id) :
    w'.mps id = w.mps id := by
  rw [he.mps, supersededMps_of_not_mem hsup, insertedMps_of_not_mem hnew]

theorem mps_new {mp : MicroPartitionMeta}
    (hmp : mp ∈ newMps) (hnd : (newMps.map mpId).Nodup)
    (hsup : ∀ p ∈ superseded, p.1 ≠ mp.mpId) : w'.mps mp.mpId = some mp := by
  rw [he.mps, supersededMps_of_not_mem hsup, insertedMps_of_mem hmp hnd]

theorem mps_superseded {p : MpId × MpId} (hp : p ∈ superseded)
    (hnd : (superseded.map Prod.fst).Nodup) (hnew : ∀ mp ∈ newMps, mp.mpId ≠ p.1) :
    ∃ mp, w.mps p.1 = some mp ∧
      w'.mps p.1 = some { mp with supersededBy := some p.2, active := false } := by
  have hne := he.exists_old p hp
  rw [insertedMps_of_not_mem hnew] at hne
  obtain ⟨mp, hmp⟩ := Option.ne_none_iff_exists'.1 hne
  refine ⟨mp, hmp, ?_⟩
  rw [he.mps, supersededMps_of_mem hp hnd, insertedMps_of_not_mem hnew, hmp]
  rfl

theorem mem_tableMps :
    id ∈ w'.tableMps t ↔ id ∈ w.tableMps t ∨ ∃ mp ∈ newMps, mp.tableId = t ∧ mp.mpId = id := by
  rw [he.tableMps, mem_foldl_insertMp]

end

end CommitEffect

end World

end NovaCore
