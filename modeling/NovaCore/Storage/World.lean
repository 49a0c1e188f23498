import NovaCore.Common.Arrow
import NovaCore.Executor.Authorize
import Mathlib.Data.List.Sort

/-!
# The shared state and its transactions

`World` is everything concurrent statements share: the FoundationDB key families of tables,
micro-partitions, transactions, change logs and streams, and the objects in the object store.
Each function below is the body of one FoundationDB transaction, as a function of the whole
state: transactions are serializable, so a transaction happens at one point, and one that fails
changes nothing.

## Main definitions

* `World.commitTableCdc` : `commit_table_cdc`, the only transaction that publishes a statement.
* `World.allocateTableChangeSequences` : hands out a range of change sequence numbers.
* `publishLoop` : the loop that advances the published watermark over contiguous ranges.
-/

namespace NovaCore

/-- The shared state. -/
structure World where
  /-- Names and security metadata. -/
  catalog : Catalog
  /-- `("mp", id)` -/
  mps : MpId → Option MicroPartitionMeta
  /-- `("table_mps", table, id)` -/
  tableMps : TableId → OMap Unit
  /-- `("table_version", table)` -/
  tableVersion : TableId → ℕ
  /-- `("next_id", "txn")` -/
  nextTxn : ℕ
  /-- `("txn", id)` -/
  txns : TxnId → Option TransactionMeta
  /-- `("table_change_next_seq", table)` -/
  changeNextSeq : TableId → Option ℕ
  /-- `("table_change_seq", table)`, the published watermark -/
  changeSeq : TableId → Option ℕ
  /-- `("table_change_log", table, sequence)` -/
  changeLog : TableId → ℕ → Option ChangeRecordMeta
  /-- `("stream_offset", id)` -/
  streamOffsets : StreamId → Option StreamOffset
  /-- Micro-partition files, as a reader gets them back. -/
  files : MpPath → Option (List RecordBatch)
  /-- Change payload objects, as a reader gets them back. -/
  payloads : CdcPath → Option (List CdcBatch)
  /-- Identifiers `generate_id` has handed out (not stored anywhere; it makes freshness a
  property of the state). -/
  issued : List ℕ

/-- A micro-partition is visible to queries. -/
def MicroPartitionMeta.isActive (mp : MicroPartitionMeta) : Bool :=
  mp.active && mp.supersededBy.isNone

/-! ### The watermark loop -/

/-- The loop over sorted ranges in `commit_table_cdc`: `next` is the next unpublished sequence
number, `published` the last published one. -/
def publishLoop (next published : ℕ) : List (ℕ × ℕ) → ℕ
  | [] => published
  | (start, stop) :: ranges =>
    if stop < next then publishLoop next published ranges
    else if next < start then published
    else publishLoop (satAdd stop 1) stop ranges

/-- The ranges of the records of one table, sorted by start. -/
def tableRanges (t : TableId) (records : List ChangeRecordMeta) : List (ℕ × ℕ) :=
  ((records.filter fun r => r.tableId = t).map fun r => (r.sequence, r.recordEnd)).insertionSort
    fun a b => a.1 ≤ b.1

namespace World

variable (w : World)

/-! ### Micro-partitions -/

variable (t : TableId)

/-- The index scan of `get_active_mps` and `get_mps_at_timestamp`. -/
def scanTableMps : List MpId := (w.tableMps t).scanKeys t

/-- Store the metadata of a micro-partition. -/
def setMp (mp : MicroPartitionMeta) : World :=
  { w with mps := Function.update w.mps mp.mpId (some mp) }

/-- Store the metadata of a micro-partition and its index entry. -/
def insertMp (mp : MicroPartitionMeta) : World :=
  { w.setMp mp with
    tableMps := Function.update w.tableMps mp.tableId
      ((w.tableMps mp.tableId).insert mp.mpId ()) }

/-- Mark `old` as superseded by `new`; whether `old` still is active is not looked at. -/
def supersede (old new : MpId) : Except NovaError World :=
  match w.mps old with
  | none => .error (.internal
      "commit table CDC failed: micro-partition not found while committing CDC")
  | some mp => .ok
      { w with mps := Function.update w.mps old
                        (some { mp with supersededBy := some new, active := false }) }

/-! ### Change sequences -/

/-- `get_table_change_sequence`. -/
def tableChangeSequence : ℕ := (w.changeSeq t).getD 0

/-- The last allocated change sequence number. -/
def allocated : ℕ := (w.changeNextSeq t).getD (w.tableChangeSequence t)

/-- `allocate_table_change_sequences`: the first of `count` new sequence numbers. -/
def allocateTableChangeSequences (count : ℕ) : Except NovaError (ℕ × World) := do
  let first ← checkedAdd (w.allocated t) 1
  let newAllocated := satAdd (w.allocated t) count
  return (first, { w with changeNextSeq := Function.update w.changeNextSeq t newAllocated })

/-- Store a change record in the log of its table. -/
def setChangeRecord (r : ChangeRecordMeta) : World :=
  { w with changeLog := Function.update w.changeLog r.tableId
                          (Function.update (w.changeLog r.tableId) r.sequence (some r)) }

/-- The watermark of table `t` after publishing `records`. -/
def publishedThrough (records : List ChangeRecordMeta) (t : TableId) : ℕ :=
  publishLoop (satAdd (w.tableChangeSequence t) 1) (w.tableChangeSequence t)
    (tableRanges t records)

/-- Advance the watermarks of all tables that `records` mention. -/
def publish (records : List ChangeRecordMeta) : World :=
  { w with changeSeq := fun t =>
      if w.tableChangeSequence t < w.publishedThrough records t then
        some (w.publishedThrough records t)
      else w.changeSeq t }

/-- Mark the transaction of a statement committed. -/
def commitTxn (txnId : TxnId) (now : Timestamp) : Except NovaError World :=
  if txnId = 0 then .ok w
  else match w.txns txnId with
    | none => .error (.internal
        "commit table CDC failed: transaction not found while committing CDC")
    | some m => .ok
        { w with txns := Function.update w.txns txnId
                           (some { m with status := .committed, commitTs := some now }) }

/-- `commit_table_cdc`. -/
def commitTableCdc (now : Timestamp) (txnId : TxnId) (newMps : List MicroPartitionMeta)
    (superseded : List (MpId × MpId)) (records : List ChangeRecordMeta) :
    Except NovaError World := do
  let w := newMps.foldl insertMp w
  let w ← superseded.foldlM (fun w p => w.supersede p.1 p.2) w
  let w := records.foldl setChangeRecord w
  let w := w.publish records
  w.commitTxn txnId now

/-- The log range scan of `get_change_records`. -/
def changeRecordsBetween (after through : ℕ) : List ChangeRecordMeta :=
  (List.range' (after + 1) (through - after)).filterMap (w.changeLog t)

/-! ### Streams -/

/-- `compare_and_set_stream_offset`. -/
def compareAndSetStreamOffset (s : StreamId) (expected : ℕ) (new : StreamOffset) :
    Except NovaError World :=
  match w.streamOffsets s with
  | none => .error (.streamConcurrentConsume s)
  | some offset =>
    if offset.committedSequence = expected then
      .ok { w with streamOffsets := Function.update w.streamOffsets s (some new) }
    else .error (.streamConcurrentConsume s)

end World

end NovaCore
