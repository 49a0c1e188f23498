import NovaCore.Common.Types
import NovaCore.Common.F64

/-!
# Record batches

Arrow batches, kept row by row.  A cell of a fixed-width column has the slot value that
`arr.value(i)` returns and a validity bit: the value of a null slot is whatever the writer or the
Parquet reader left there, and code that forgets the validity bit sees it.  `Cell.logical`
forgets the slot values of nulls.

`RecordBatch` carries the check of `RecordBatch::try_new` as a field, so every batch of the model
fits its schema; `CdcBatch` carries the equal length of its data and metadata columns.
`Parquet` is the file format, given by what a reader gets back from what was written.
-/

namespace NovaCore

open List

/-- Arrow data types of table columns. -/
inductive DataType
  | int8
  | int16
  | int32
  | int64
  | float32
  | float64
  | utf8
  | boolean
  | date32
  | binary
  | list (item : DataType)
  deriving DecidableEq

/-- One slot of an Arrow array. -/
inductive Cell
  | int64 (value : ℤ) (valid : Bool)
  | float64 (value : F64) (valid : Bool)
  | utf8 (value : Option String)
  /-- A slot of any other type; the modelled code never looks at its value. -/
  | other (dataType : DataType) (value : Option String)
  deriving DecidableEq

namespace Cell

/-- The data type of the array a slot belongs to. -/
def dataType : Cell → DataType
  | int64 _ _ => .int64
  | float64 _ _ => .float64
  | utf8 _ => .utf8
  | other t _ => t

/-- Whether the slot is null. -/
def isNull : Cell → Bool
  | int64 _ valid => !valid
  | float64 _ valid => !valid
  | utf8 v => v.isNone
  | other _ v => v.isNone

/-- The slot with the value of a null forgotten. -/
def logical : Cell → Cell
  | int64 v valid => if valid then int64 v true else int64 0 false
  | float64 v valid => if valid then float64 v true else float64 (.finite 0) false
  | utf8 v => utf8 v
  | other t v => other t v

end Cell

/-- A field of a batch schema. -/
structure Field where
  name : String
  dataType : DataType
  nullable : Bool
  deriving DecidableEq

/-- A slot may stand in a column of field `f`. -/
def Field.accepts (f : Field) (c : Cell) : Bool :=
  c.dataType = f.dataType && (f.nullable || !c.isNull)

/-- A row may stand in a batch of the given schema. -/
def rowFits : List Field → List Cell → Bool
  | [], [] => true
  | f :: fs, c :: cs => f.accepts c && rowFits fs cs
  | _, _ => false

theorem accepts_of_rowFits {fs : List Field} {cs : List Cell} (h : rowFits fs cs = true) {i : ℕ}
    {f : Field} {c : Cell} (hf : fs[i]? = some f) (hc : cs[i]? = some c) : f.accepts c = true := by
  induction fs generalizing cs i with
  | nil => simp at hf
  | cons f0 fs ih =>
    cases cs with
    | nil => simp at hc
    | cons c0 cs =>
      obtain ⟨hhead, htail⟩ := Bool.and_eq_true_iff.1 h
      cases i with
      | zero =>
        cases hf
        cases hc
        exact hhead
      | succ i => exact ih htail hf hc

/-- An Arrow record batch whose rows fit its schema. -/
structure RecordBatch where
  schema : List Field
  rows : List (List Cell)
  rows_fit : ∀ row ∈ rows, rowFits schema row = true

namespace RecordBatch

@[ext] theorem ext {a b : RecordBatch} (hs : a.schema = b.schema) (hr : a.rows = b.rows) :
    a = b := by
  cases a
  cases b
  simp_all

instance : DecidableEq RecordBatch := fun a b =>
  decidable_of_iff (a.schema = b.schema ∧ a.rows = b.rows)
    ⟨fun h => ext h.1 h.2, fun h => by simp [h]⟩

variable (b : RecordBatch)

/-- `batch.num_rows()`. -/
def numRows : ℕ := b.rows.length

/-- The rows with the slot values of nulls forgotten. -/
def logicalRows : List (List Cell) := b.rows.map fun row => row.map Cell.logical

/-- `RecordBatch::try_new`. -/
def tryNew (schema : List Field) (rows : List (List Cell)) : Except NovaError RecordBatch :=
  if schema = [] then
    .error (.arrowError "must either specify a row count or at least one column")
  else if h : ∀ row ∈ rows, rowFits schema row = true then .ok ⟨schema, rows, h⟩
  else .error (.arrowError "column types must match schema types")

/-- `RecordBatch::new_empty`. -/
def newEmpty (schema : List Field) : RecordBatch := ⟨schema, [], by simp⟩

/-- `arrow::compute::take` on every column. -/
def take (indices : List ℕ) : RecordBatch where
  schema := b.schema
  rows := indices.filterMap fun i => b.rows[i]?
  rows_fit := by
    intro row hrow
    obtain ⟨i, -, hi⟩ := mem_filterMap.1 hrow
    exact b.rows_fit row (mem_of_getElem? hi)

/-- `batch.slice(offset, length)`. -/
def slice (offset length : ℕ) : RecordBatch where
  schema := b.schema
  rows := (b.rows.drop offset).take length
  rows_fit := fun row hrow => b.rows_fit row (List.mem_of_mem_drop (List.mem_of_mem_take hrow))

/-- `arrow::compute::concat_batches` of two batches. -/
def append (a b : RecordBatch) (h : a.schema = b.schema) : RecordBatch where
  schema := a.schema
  rows := a.rows ++ b.rows
  rows_fit := by
    intro row hrow
    rcases mem_append.1 hrow with hr | hr
    · exact a.rows_fit row hr
    · exact h ▸ b.rows_fit row hr

end RecordBatch

/-! ### Change payloads -/

/-- The `METADATA$…` columns of one change row. -/
structure CdcMetadata where
  action : ChangeAction
  isUpdate : Bool
  rowId : StreamRowId
  txnId : TxnId
  commitTs : Timestamp
  sequence : ℕ
  deriving DecidableEq

/-- A batch of change rows: table columns followed by the metadata columns. -/
structure CdcBatch where
  source : RecordBatch
  metadata : List CdcMetadata
  length_eq : metadata.length = source.rows.length

namespace CdcBatch

/-- A change row: the table's values and the metadata. -/
abbrev Row := List Cell × CdcMetadata

variable (b : CdcBatch)

/-- `batch.num_rows()`. -/
def numRows : ℕ := b.metadata.length

/-- The change rows, with the slot values of nulls forgotten. -/
def logicalRows : List Row := b.source.logicalRows.zip b.metadata

/-- The sequence numbers of the change rows. -/
def sequences : List ℕ := b.metadata.map CdcMetadata.sequence

/-- `batch.slice(offset, length)`. -/
def slice (offset length : ℕ) : CdcBatch where
  source := b.source.slice offset length
  metadata := (b.metadata.drop offset).take length
  length_eq := by simp [RecordBatch.slice, b.length_eq]

/-- `arrow::compute::concat_batches` of two batches. -/
def append (a b : CdcBatch) (h : a.source.schema = b.source.schema) : CdcBatch where
  source := a.source.append b.source h
  metadata := a.metadata ++ b.metadata
  length_eq := by simp [RecordBatch.append, a.length_eq, b.length_eq]

@[simp] theorem logicalRows_length : b.logicalRows.length = b.numRows := by
  simp [logicalRows, numRows, RecordBatch.logicalRows, b.length_eq]

theorem logicalRows_map_sequence : b.logicalRows.map (fun r => r.2.sequence) = b.sequences := by
  have hlen : b.metadata.length ≤ b.source.logicalRows.length := by
    simp [RecordBatch.logicalRows, b.length_eq]
  rw [sequences, ← map_snd_zip hlen, map_map]
  rfl

theorem numRows_eq_of_sequences {b : CdcBatch} {start n : ℕ}
    (h : b.sequences = range' start n) : b.numRows = n := by
  have hlen := congrArg length h
  simpa [sequences, numRows] using hlen

theorem logicalRows_slice (offset length : ℕ) :
    (b.slice offset length).logicalRows = (b.logicalRows.drop offset).take length := by
  simp [logicalRows, slice, RecordBatch.slice, RecordBatch.logicalRows, zip,
    drop_zipWith, take_zipWith, map_take, map_drop]

end CdcBatch

/-! ### Files -/

/-- The Parquet format: what a reader gets back from what was written.  Row order and values are
kept; the division into batches and the slot values of nulls are the reader's. -/
structure Parquet where
  /-- The batches read back from a micro-partition file. -/
  mp : List RecordBatch → List RecordBatch
  /-- The batches read back from a change payload. -/
  cdc : CdcBatch → List CdcBatch
  mp_rows : ∀ bs, (mp bs).flatMap RecordBatch.logicalRows = bs.flatMap RecordBatch.logicalRows
  mp_nonempty : ∀ bs, ∀ b ∈ mp bs, b.rows ≠ []
  cdc_rows : ∀ b, (cdc b).flatMap CdcBatch.logicalRows = b.logicalRows

/-- A reader that returns the non-empty batches as they were written. -/
def Parquet.verbatim : Parquet where
  mp bs := bs.filter fun b => b.rows ≠ []
  cdc b := [b]
  mp_rows bs := by
    induction bs with
    | nil => rfl
    | cons b bs ih =>
      by_cases h : b.rows = []
      · simpa [h, RecordBatch.logicalRows] using ih
      · simpa [h] using ih
  mp_nonempty bs b hb := by simpa using (mem_filter.1 hb).2
  cdc_rows b := by simp

end NovaCore
