import NovaCore.Executor.Dml

/-!
# Reading a stream

`exec_read_stream`: find the stream, read its offset, the published watermark and the change
records in between, read their payloads, hand the rows to the query engine, and in commit mode
move the offset with a compare-and-set.  Every read of the store is a transaction of its own.

The query engine is one operation: `runQuery` registers the batches under the stream's name and
runs the statement's text (less its preview clause), and may fail.
-/

namespace NovaCore

/-- The loop of `contiguous_published_stream_sequence`: `next` is the next sequence number to
consume, `published` the last one consumed. -/
def streamLoop (next published : ℕ) : List ChangeRecordMeta → ℕ
  | [] => published
  | r :: records =>
    if r.payload.rowCount = 0 then streamLoop next published records
    else if r.recordEnd < next then streamLoop next published records
    else if next < r.sequence then published
    else streamLoop (satAdd r.recordEnd 1) r.recordEnd records

/-- `contiguous_published_stream_sequence`. -/
def contiguousPublishedStreamSequence (committed : ℕ) (records : List ChangeRecordMeta) :
    Except NovaError ℕ := do
  let next ← checkedAdd committed 1
  return streamLoop next committed records

/-- The records a read may hand out. -/
def consumableRecords (published : ℕ) (records : List ChangeRecordMeta) : List ChangeRecordMeta :=
  records.filter fun r => r.recordEnd ≤ published

/-- The loop over the batches of one payload in `read_stream_payload_batches`: the slices to hand
out, and how many rows are still missing. -/
def sliceBatches (rowsToSkip rowsRemaining : ℕ) : List CdcBatch → List CdcBatch × ℕ
  | [] => ([], rowsRemaining)
  | b :: batches =>
    if rowsRemaining = 0 then ([], 0)
    else if b.numRows ≤ rowsToSkip then sliceBatches (rowsToSkip - b.numRows) rowsRemaining batches
    else
      let length := min rowsRemaining (b.numRows - rowsToSkip)
      let rest := sliceBatches 0 (rowsRemaining - length) batches
      (b.slice rowsToSkip length :: rest.1, rest.2)

/-- A payload object that cannot be read is reported as missing. -/
def payloadError (stream : StreamMeta) (record : ChangeRecordMeta) : NovaError → NovaError
  | .objectStoreError _ => .streamPayloadMissing stream.streamId record.payload.path
  | other => other

/-- `read_stream_payload_batches`. -/
def readStreamPayloadBatches (stream : StreamMeta) (records : List ChangeRecordMeta) :
    Nova (List CdcBatch) :=
  records.foldlM (fun batches record => do
    let payload ← (await (.getPayload record.payload.path)).adapt (payloadError stream record)
    let slices := sliceBatches record.payload.rowStart record.payload.rowCount payload
    if slices.2 ≠ 0 then
      throw (.streamPayloadMissing stream.streamId record.payload.path)
    return batches ++ slices.1) []

/-- `empty_stream_batch`. -/
def emptyStreamBatch (table : TableMeta) : CdcBatch where
  source := RecordBatch.newEmpty
    (table.columns.map fun c => Field.mk c.name (arrowType c.dataType) c.nullable)
  metadata := []
  length_eq := rfl

/-- A SELECT on a stream. -/
structure StreamRead where
  security : SecurityContext
  db : String
  schema : String
  streamName : String
  readMode : StreamReadMode
  rawSql : String

/-- The end of `exec_read_stream`: move the offset if this is a read in commit mode that consumed
something. -/
def advanceOffset (mode : StreamReadMode) (stream : StreamMeta) (offset : StreamOffset)
    (published : ℕ) (consumable : List ChangeRecordMeta) : Nova Unit :=
  if mode = .commit ∧ offset.committedSequence < published then do
    let committedTs ← await .nowMicros
    let consumedAt ← await .nowMicros
    await (.compareAndSetStreamOffset stream.streamId offset.committedSequence
      { tableId := stream.sourceTableId
        committedSequence := published
        committedTs
        lastConsumedAt := some consumedAt
        lastConsumedTxnId := consumable.getLast?.map ChangeRecordMeta.txnId })
  else return ()

/-- `exec_read_stream`. -/
def execReadStream (req : StreamRead) : Nova QueryResult := do
  let stream ← await (.findStream req.db req.schema req.streamName)
  let sourceTable ← await (.authorizeStreamRead req.security req.db req.schema stream)
  let offset ← await (.getStreamOffset stream.streamId)
  match offset with
  | none => throw (.streamNotFound stream.name)
  | some offset =>
    let current ← await (.getTableChangeSequence stream.sourceTableId)
    let records ← await (.getChangeRecords stream.sourceTableId offset.committedSequence current)
    let published ← liftExcept
      (contiguousPublishedStreamSequence offset.committedSequence records)
    let consumable := consumableRecords published records
    let batches ← readStreamPayloadBatches stream consumable
    let batches := if batches = [] then [emptyStreamBatch sourceTable] else batches
    let result ← await (.runQuery stream.name batches req.rawSql)
    advanceOffset req.readMode stream offset published consumable
    return .rows result.1 result.2

end NovaCore
