import NovaCore.Storage.Ops
import NovaCore.Executor.Batch

/-!
# INSERT, UPDATE and DELETE

The statements that change table data, as programs over the storage operations.  UPDATE and
DELETE are copy-on-write: they read the active micro-partitions, rewrite those that contain a
matching row, allocate change sequence numbers batch by batch and publish everything in one
`commit_table_cdc` transaction.
-/

namespace NovaCore

/-- The result of a statement. -/
inductive QueryResult
  | success (message : String)
  | rows (columns : List String) (rows : List (List String))
  deriving DecidableEq

/-! ### Metadata store and writers -/

/-- `get_active_mps`: one index scan, then one lookup per micro-partition. -/
def getActiveMps (t : TableId) : Nova (List MicroPartitionMeta) := do
  let ids ← await (.scanTableMps t)
  ids.foldlM (fun mps id => do
    let mp ← await (.getMp id)
    return mps ++ (mp.filter MicroPartitionMeta.isActive).toList) []

/-- Body of the visibility loop of `get_mps_at_timestamp`: the lifetime of a micro-partition ends
at the commit time of its successor. -/
def pushVisible (ts : Timestamp) (visible : List MicroPartitionMeta) (mp : MicroPartitionMeta) :
    Nova (List MicroPartitionMeta) :=
  if mp.commitTs ≤ ts then
    match mp.supersededBy with
    | none => return visible ++ [mp]
    | some nextId => do
      let nextMp ← await (.getMp nextId)
      if nextMp.any fun next => ts < next.commitTs then
        return visible ++ [mp]
      else
        return visible
  else
    return visible

/-- `get_mps_at_timestamp`. -/
def getMpsAtTimestamp (t : TableId) (ts : Timestamp) : Nova (List MicroPartitionMeta) := do
  let ids ← await (.scanTableMps t)
  let allMps ← ids.foldlM (fun mps id => do
    let mp ← await (.getMp id)
    return mps ++ mp.toList) []
  allMps.foldlM (pushVisible ts) []

/-- What `mark_superseded` turns a record into. -/
def MicroPartitionMeta.markedSuperseded (mp : MicroPartitionMeta) (new : MpId) :
    MicroPartitionMeta :=
  { mp with supersededBy := some new, active := false }

/-- `mark_superseded`: the read and the write are two transactions. -/
def markSuperseded (old new : MpId) : Nova Unit := do
  match ← await (.getMp old) with
  | none => throw (.mpNotFound 0 old)
  | some mp => await (.setMp old (mp.markedSuperseded new))

/-- `begin_transaction`. -/
def beginTransaction : Nova TxnId := do
  let txnId ← await .nextTxnId
  let now ← await .nowMicros
  await (.setTxn { txnId, status := .active, snapshotTs := now, commitTs := none })
  return txnId

variable (tableId : TableId)

/-- `MpWriter::write`. -/
def MpWriter.write (mpId : MpId) (version : ℕ) (batches : List RecordBatch)
    (txnId : TxnId) : Nova MicroPartitionMeta := do
  if batches = [] then
    throw (.internal "cannot write empty MP")
  let tempPath := MpPath.temp txnId mpId version
  await (.putFile tempPath batches)
  return {
    mpId, tableId, version
    s3Path := .perm tableId mpId version
    s3TempPath := some tempPath
    rowCount := (batches.map RecordBatch.numRows).sum
    commitTs := 0, txnId
    supersedes := none
    supersededBy := none
    active := false }

/-- What a statement turns a written micro-partition into before it commits it. -/
def MicroPartitionMeta.committed (mp : MicroPartitionMeta) (commitTs : Timestamp)
    (supersedes : Option MpId) : MicroPartitionMeta :=
  { mp with
    s3Path := mp.s3TempPath.getD mp.s3Path
    s3TempPath := none
    commitTs
    active := true
    supersedes }

/-- `CdcPayloadWriter::write_payload`. -/
def writePayload (txnId : TxnId) (startSequence : ℕ) (batch : CdcBatch) :
    Nova ChangePayloadRef := do
  if batch.numRows = 0 then
    throw (.internal "cannot write empty CDC payload")
  let past ← liftExcept (checkedAdd startSequence batch.numRows)
  let path := CdcPath.mk tableId txnId startSequence (past - 1)
  await (.putPayload path batch)
  return { path, rowStart := 0, rowCount := batch.numRows }

/-- `write_cdc_payload_and_metadata`. -/
def writeCdcPayloadAndMetadata (txnId : TxnId) (startSequence : ℕ)
    (commitTs : Timestamp) (batch : CdcBatch) (actionCounts : ChangeActionCounts)
    (minRowId maxRowId : Option StreamRowId) : Nova ChangeRecordMeta := do
  let payload ← writePayload tableId txnId startSequence batch
  return { tableId, sequence := startSequence, txnId, commitTs, payload, actionCounts,
           minRowId, maxRowId }

/-! ### INSERT -/

/-- `exec_insert`. -/
def execInsert (fmt : TextFormat) (db schema table : String)
    (values : List (List ResolvedExpr)) : Nova QueryResult := do
  let tableMeta ← await (.findTable db schema table)
  let rowCount := values.length
  let batch ← liftExcept (valuesToBatch fmt tableMeta values)
  let mpId ← await .generateId
  let version ← await (.incrementTableVersion tableMeta.id)
  let txnId ← beginTransaction
  let commitTs ← await .nowMicros
  let mp ← MpWriter.write tableMeta.id mpId version [batch] txnId
  let start ← await (.allocateTableChangeSequences tableMeta.id rowCount)
  let cdcBatch ← liftExcept
    (buildInsertCdcBatch tableMeta batch start txnId commitTs mpId)
  let change ← writeCdcPayloadAndMetadata tableMeta.id txnId start commitTs cdcBatch
    { inserts := rowCount, deletes := 0, updatePairs := 0 }
    (some ⟨tableMeta.id, mpId, 0, 0⟩) (some ⟨tableMeta.id, mpId, rowCount - 1, 0⟩)
  await (.commitTableCdc txnId [mp.committed commitTs none] [] [change])
  return .success (toString rowCount ++ " row(s) inserted into '" ++ db ++ "." ++ schema ++ "." ++
    table ++ "'")

/-! ### The copy-on-write loops -/

/-- The statement-wide data of one UPDATE or DELETE. -/
structure DmlScope where
  tableMeta : TableMeta
  txnId : TxnId
  commitTs : Timestamp

/-- The mutable variables of the loop over one micro-partition's batches. -/
structure BatchAcc where
  /-- `modified_batches` or `kept_batches`. -/
  batches : List RecordBatch
  /-- `matched_in_mp` or `deleted_in_mp`. -/
  matched : ℕ
  baseRowOrdinal : ℕ
  records : List ChangeRecordMeta

/-- The mutable variables of the loop over micro-partitions. -/
structure MpAcc where
  newMps : List MicroPartitionMeta
  superseded : List (MpId × MpId)
  records : List ChangeRecordMeta

/-- The identifiers of the first and last touched row. -/
def rowIdBounds (t : TableId) (mp : MpId) (ordinals : List ℕ) :
    Option StreamRowId × Option StreamRowId :=
  (ordinals.head?.map fun o => ⟨t, mp, o, 0⟩, ordinals.getLast?.map fun o => ⟨t, mp, o, 0⟩)

variable (scope : DmlScope)

/-- Write the replacement of `mp` and record the replacement (the end of the body of both
loops over micro-partitions). -/
def replaceMp (mp : MicroPartitionMeta) (batches : List RecordBatch)
    (acc : MpAcc) : Nova MpAcc := do
  let newMpId ← await .generateId
  let version ← await (.incrementTableVersion scope.tableMeta.id)
  let newMp ← MpWriter.write scope.tableMeta.id newMpId version batches scope.txnId
  return { acc with
    newMps := acc.newMps ++ [newMp.committed scope.commitTs (some mp.mpId)]
    superseded := acc.superseded ++ [(mp.mpId, newMpId)] }

/-- The `if let` of the loop over batches in `exec_update`: allocate a range for the old and the
new version of the matched rows, store both as one payload and record it. -/
def recordUpdate (mp : MicroPartitionMeta) (matched : List ℕ)
    (oldRows newRows : Option RecordBatch) (acc : BatchAcc) : Nova BatchAcc :=
  match oldRows, newRows with
  | some oldRows, some newRows => do
    let rowCount := matched.length
    let ordinals := matched.map fun i => acc.baseRowOrdinal + i
    let start ← await (.allocateTableChangeSequences scope.tableMeta.id (rowCount * 2))
    let oldCdc ← liftExcept (buildCdcBatchForRows scope.tableMeta oldRows ordinals start
      scope.txnId scope.commitTs mp.mpId .delete true)
    let newStart ← liftExcept (checkedAdd start rowCount)
    let newCdc ← liftExcept (buildCdcBatchForRows scope.tableMeta newRows ordinals newStart
      scope.txnId scope.commitTs mp.mpId .insert true)
    let cdcBatch ← liftExcept (concatCdc oldCdc newCdc)
    let bounds := rowIdBounds scope.tableMeta.id mp.mpId ordinals
    let change ← writeCdcPayloadAndMetadata scope.tableMeta.id scope.txnId start
      scope.commitTs cdcBatch
      { inserts := rowCount, deletes := rowCount, updatePairs := rowCount } bounds.1 bounds.2
    return { acc with records := acc.records ++ [change], matched := acc.matched + rowCount }
  | _, _ => return acc

/-- Body of the loop over batches in `exec_update`. -/
def updateBatch (assignments : List (String × ResolvedExpr)) (filter : Option ResolvedFilter)
    (mp : MicroPartitionMeta) (acc : BatchAcc) (batch : RecordBatch) : Nova BatchAcc := do
  let mask ← liftExcept (matchMask filter batch)
  let matched := maskIndices mask
  let modified ← liftExcept (applyUpdateToBatch assignments filter batch)
  let oldRows ← liftExcept (selectRowsByIndices batch matched)
  let newRows ← liftExcept (selectRowsByIndices modified matched)
  let acc ← recordUpdate scope mp matched oldRows newRows acc
  return { acc with
    baseRowOrdinal := acc.baseRowOrdinal + batch.numRows
    batches := acc.batches ++ [modified] }

/-- Body of the loop over micro-partitions in `exec_update`. -/
def updateMp (assignments : List (String × ResolvedExpr))
    (filter : Option ResolvedFilter) (acc : MpAcc) (mp : MicroPartitionMeta) : Nova MpAcc := do
  let batches ← await (.getFile mp.readPath)
  let inner ← batches.foldlM (updateBatch scope assignments filter mp)
    { batches := [], matched := 0, baseRowOrdinal := 0, records := acc.records }
  let acc := { acc with records := inner.records }
  if inner.matched > 0 then
    replaceMp scope mp inner.batches acc
  else
    return acc

variable (db schema table : String)

/-- The frame that `exec_update` and `exec_delete` share; they differ in the body of the loop over
micro-partitions and in the status they report. -/
def execCopyOnWrite (body : DmlScope → MpAcc → MicroPartitionMeta → Nova MpAcc) (status : String) :
    Nova QueryResult := do
  let tableMeta ← await (.findTable db schema table)
  let mps ← getActiveMps tableMeta.id
  let txnId ← beginTransaction
  let commitTs ← await .nowMicros
  let acc ← mps.foldlM (body ⟨tableMeta, txnId, commitTs⟩) ⟨[], [], []⟩
  await (.commitTableCdc txnId acc.newMps acc.superseded acc.records)
  return .rows ["status"] [[status]]

/-- `exec_update`. -/
def execUpdate (assignments : List (String × ResolvedExpr))
    (filter : Option ResolvedFilter) : Nova QueryResult :=
  execCopyOnWrite db schema table (fun scope => updateMp scope assignments filter) "UPDATE OK"

/-- The `if let` of the loop over batches in `exec_delete`. -/
def recordDelete (mp : MicroPartitionMeta) (deleted : List ℕ)
    (deletedRows : Option RecordBatch) (acc : BatchAcc) : Nova BatchAcc :=
  match deletedRows with
  | some deletedRows => do
    let rowCount := deleted.length
    let ordinals := deleted.map fun i => acc.baseRowOrdinal + i
    let start ← await (.allocateTableChangeSequences scope.tableMeta.id rowCount)
    let cdcBatch ← liftExcept (buildCdcBatchForRows scope.tableMeta deletedRows ordinals start
      scope.txnId scope.commitTs mp.mpId .delete false)
    let bounds := rowIdBounds scope.tableMeta.id mp.mpId ordinals
    let change ← writeCdcPayloadAndMetadata scope.tableMeta.id scope.txnId start
      scope.commitTs cdcBatch
      { inserts := 0, deletes := rowCount, updatePairs := 0 } bounds.1 bounds.2
    return { acc with records := acc.records ++ [change], matched := acc.matched + rowCount }
  | none => return acc

variable (filter : Option ResolvedFilter)

/-- Body of the loop over batches in `exec_delete`. -/
def deleteBatch (mp : MicroPartitionMeta)
    (acc : BatchAcc) (batch : RecordBatch) : Nova BatchAcc := do
  let mask ← liftExcept (matchMask filter batch)
  let deleted := maskIndices mask
  let deletedRows ← liftExcept (selectRowsByIndices batch deleted)
  let acc ← recordDelete scope mp deleted deletedRows acc
  let kept ← liftExcept (applyDeleteToBatch filter batch)
  return { acc with
    baseRowOrdinal := acc.baseRowOrdinal + batch.numRows
    batches := if kept.numRows > 0 then acc.batches ++ [kept] else acc.batches }

/-- Body of the loop over micro-partitions in `exec_delete`.  A micro-partition that loses all
its rows is superseded by a fresh identifier that no record is stored for. -/
def deleteMp (acc : MpAcc) (mp : MicroPartitionMeta) : Nova MpAcc := do
  let batches ← await (.getFile mp.readPath)
  let inner ← batches.foldlM (deleteBatch scope filter mp)
    { batches := [], matched := 0, baseRowOrdinal := 0, records := acc.records }
  let acc := { acc with records := inner.records }
  if inner.matched > 0 then
    if inner.batches = [] then
      let newMpId ← await .generateId
      return { acc with superseded := acc.superseded ++ [(mp.mpId, newMpId)] }
    else
      replaceMp scope mp inner.batches acc
  else
    return acc

/-- `exec_delete`. -/
def execDelete : Nova QueryResult :=
  execCopyOnWrite db schema table (fun scope => deleteMp scope filter) "DELETE OK"

/-! ### Statements -/

/-- A statement that changes table data. -/
inductive DmlStatement
  | insert (db schema table : String) (values : List (List ResolvedExpr))
  | update (db schema table : String) (assignments : List (String × ResolvedExpr))
      (filter : Option ResolvedFilter)
  | delete (db schema table : String) (filter : Option ResolvedFilter)

/-- The program of a statement. -/
def DmlStatement.exec (fmt : TextFormat) : DmlStatement → Nova QueryResult
  | insert db schema table values => execInsert fmt db schema table values
  | update db schema table assignments filter => execUpdate db schema table assignments filter
  | delete db schema table filter => execDelete db schema table filter

end NovaCore
