import Mathlib.Algebra.Field.Rat
import Mathlib.Data.List.Basic

/-!
# Core types

The metadata records of `nova-common` that the modelled functions read or write.  Identifiers,
sequence numbers and timestamps are `u64` in the source and natural numbers here; additions that
could leave 64 bits are the saturating `satAdd` or the checked `checkedAdd`, as the source
writes them.  Paths of objects and the text form of row identifiers are kept as structured data:
the source's `format!` strings are injective in the components.
-/

namespace NovaCore

abbrev DatabaseId := ℕ
abbrev SchemaId := ℕ
abbrev TableId := ℕ
abbrev MpId := ℕ
abbrev TxnId := ℕ
abbrev StreamId := ℕ
abbrev UserId := ℕ
abbrev RoleId := ℕ

/-- Microseconds since the epoch. -/
abbrev Timestamp := ℕ

/-- `{bucket}/cdc/tables/{table_id}/txn-{txn_id}/seq-{start}-{end}.parquet` -/
structure CdcPath where
  tableId : TableId
  txnId : TxnId
  startSequence : ℕ
  endSequence : ℕ
  deriving DecidableEq

/-- The errors the modelled functions raise. -/
inductive NovaError
  | mpNotFound (tableId : TableId) (mpId : MpId)
  | tableNotFound (tableName : String)
  | databaseNotFound (dbName : String)
  | schemaNotFound (schemaName : String)
  | fdbError (source : String)
  | parquetError (source : String)
  | arrowError (source : String)
  | objectStoreError (source : String)
  | sqlParseError (message : String)
  | sqlAnalysisError (message : String)
  | permissionDenied (user action : String)
  | authFailed (reason : String)
  | ambiguousRelationName (name : String)
  | unsupportedStreamSyntax (message : String)
  | streamNotFound (streamName : String)
  | streamAlreadyExists (streamName : String)
  | streamConcurrentConsume (streamId : StreamId)
  | streamPayloadMissing (streamId : StreamId) (payloadPath : CdcPath)
  | internal (message : String)
  /-- A Rust panic (such as an arithmetic overflow), which ends the statement. -/
  | panicked (message : String)
  deriving DecidableEq

/-! ### 64-bit arithmetic -/

/-- `u64::MAX`. -/
def u64Max : ℕ := 2 ^ 64 - 1

variable (a b : ℕ)

/-- `u64::saturating_add`. -/
def satAdd : ℕ := min (a + b) u64Max

/-- `u64::saturating_sub`. -/
def satSub : ℕ := a - b

/-- `a + b` on `u64`, which panics when the sum does not fit. -/
def checkedAdd : Except NovaError ℕ :=
  if a + b ≤ u64Max then .ok (a + b) else .error (.panicked "attempt to add with overflow")

theorem satAdd_eq {a b : ℕ} (h : a + b ≤ u64Max) : satAdd a b = a + b := min_eq_left h

theorem checkedAdd_eq_ok {a b c : ℕ} : checkedAdd a b = .ok c ↔ a + b ≤ u64Max ∧ c = a + b := by
  unfold checkedAdd
  split_ifs with h
  · simp [h, eq_comm]
  · simp [h]

/-! ### Micro-partitions -/

/-- Where a micro-partition file lives. -/
inductive MpPath
  /-- `{bucket}/tmp/{txn_id}/mp-{mp_id}-v{version}.parquet` -/
  | temp (txnId : TxnId) (mpId : MpId) (version : ℕ)
  /-- `{bucket}/tables/{table_id}/mp-{mp_id}-v{version}.parquet` -/
  | perm (tableId : TableId) (mpId : MpId) (version : ℕ)
  deriving DecidableEq

/-- The micro-partition a path was made for. -/
def MpPath.mpId : MpPath → MpId
  | .temp _ id _ => id
  | .perm _ id _ => id

/-- Metadata of one micro-partition. -/
structure MicroPartitionMeta where
  mpId : MpId
  tableId : TableId
  version : ℕ
  s3Path : MpPath
  /-- Path before commit. -/
  s3TempPath : Option MpPath
  rowCount : ℕ
  commitTs : Timestamp
  txnId : TxnId
  /-- The micro-partition this one replaces. -/
  supersedes : Option MpId
  /-- The micro-partition that replaced this one. -/
  supersededBy : Option MpId
  active : Bool
  deriving DecidableEq

/-- The path `MpReader::read` reads. -/
def MicroPartitionMeta.readPath (mp : MicroPartitionMeta) : MpPath :=
  mp.s3TempPath.getD mp.s3Path

/-! ### Transactions, streams and change records -/

/-- Transaction status. -/
inductive TxnStatus
  | active
  | committed
  | aborted
  deriving DecidableEq

/-- Transaction metadata. -/
structure TransactionMeta where
  txnId : TxnId
  status : TxnStatus
  snapshotTs : Timestamp
  commitTs : Option Timestamp
  deriving DecidableEq

/-- Whether reading a stream moves its offset. -/
inductive StreamReadMode
  | commit
  | preview
  deriving DecidableEq

/-- Stream metadata. -/
structure StreamMeta where
  streamId : StreamId
  dbId : DatabaseId
  schemaId : SchemaId
  sourceTableId : TableId
  name : String
  deriving DecidableEq

/-- The consumption cursor of a stream. -/
structure StreamOffset where
  tableId : TableId
  committedSequence : ℕ
  committedTs : Timestamp
  lastConsumedAt : Option Timestamp
  lastConsumedTxnId : Option TxnId
  deriving DecidableEq

/-- Rows of a change record by action. -/
structure ChangeActionCounts where
  inserts : ℕ
  deletes : ℕ
  updatePairs : ℕ
  deriving DecidableEq

/-- A slice of a stored change payload. -/
structure ChangePayloadRef where
  path : CdcPath
  rowStart : ℕ
  rowCount : ℕ
  deriving DecidableEq

/-- `{table_id}:{mp_id}:{row_ordinal}:{generation}` -/
structure StreamRowId where
  tableId : TableId
  mpId : MpId
  rowOrdinal : ℕ
  generation : ℕ
  deriving DecidableEq

/-- Metadata of the changes `sequence … sequence + payload.rowCount - 1` of a table. -/
structure ChangeRecordMeta where
  tableId : TableId
  sequence : ℕ
  txnId : TxnId
  commitTs : Timestamp
  payload : ChangePayloadRef
  actionCounts : ChangeActionCounts
  minRowId : Option StreamRowId
  maxRowId : Option StreamRowId
  deriving DecidableEq

/-- The last sequence number of a change record, as both loops over records compute it. -/
def ChangeRecordMeta.recordEnd (r : ChangeRecordMeta) : ℕ :=
  satSub (satAdd r.sequence r.payload.rowCount) 1

/-- Row-level change action. -/
inductive ChangeAction
  | insert
  | delete
  deriving DecidableEq

/-! ### Catalogue objects -/

/-- Supported SQL data types. -/
inductive NovaType
  | boolean
  | int8
  | int16
  | int32
  | int64
  | float32
  | float64
  | decimal (precision : ℕ) (scale : ℤ)
  | utf8
  | date32
  | timestamp
  | binary
  | list (item : NovaType)
  deriving DecidableEq

/-- Column definition. -/
structure ColumnDef where
  name : String
  dataType : NovaType
  nullable : Bool
  deriving DecidableEq

/-- Database metadata. -/
structure DatabaseMeta where
  id : DatabaseId
  name : String
  deriving DecidableEq

/-- Schema metadata. -/
structure SchemaMeta where
  id : SchemaId
  dbId : DatabaseId
  name : String
  deriving DecidableEq

/-- Table metadata. -/
structure TableMeta where
  id : TableId
  dbId : DatabaseId
  schemaId : SchemaId
  name : String
  columns : List ColumnDef
  deriving DecidableEq

end NovaCore
