import NovaCore.Common.Arrow
import NovaCore.Data.Except

/-!
# Batch computations of the executor

The pure parts of INSERT, UPDATE and DELETE: literals to batches, filter masks, the rewritten
batch of an UPDATE, the kept rows of a DELETE and the change rows of each.

`evalFilterOnBatch` reads `arr.value(i)` without looking at the validity bit, so a null matches
according to the value left in its slot; `applyUpdateToBatch` turns the nulls of an assigned
numeric column into zeros, also in rows that do not match.  Both are modelled as they are.
-/

namespace NovaCore

open RecordBatch List

/-- A resolved literal. -/
inductive ResolvedExpr
  | int64 (v : ℤ)
  | float64 (v : F64)
  | string (s : String)
  | boolean (b : Bool)
  | null
  deriving DecidableEq

/-- A resolved filter `column op value`. -/
structure ResolvedFilter where
  column : String
  op : CmpOp
  value : ResolvedExpr
  deriving DecidableEq

/-- Text formatting of the standard library. -/
structure TextFormat where
  /-- `v.to_string()` of a double. -/
  f64Display : F64 → String
  /-- The `Debug` text of a literal. -/
  exprDebug : ResolvedExpr → String

/-! ### Filters -/

/-- One iteration of the mask loop of `eval_filter_on_batch`. -/
def ResolvedFilter.matches (f : ResolvedFilter) : Cell → Bool
  | .int64 v _ => f.op.eval v (match f.value with | .int64 t => t | _ => 0)
  | .float64 v _ => f.op.evalF64 v (match f.value with | .float64 t => t | _ => .finite 0)
  | .utf8 v =>
    let target := match f.value with | .string s => s | _ => ""
    match f.op with
    | .eq => v.getD "" = target
    | .ne => v.getD "" ≠ target
    | _ => false
  | .other _ _ => false

/-- `eval_filter_on_batch`. -/
def evalFilterOnBatch (batch : RecordBatch) (filter : ResolvedFilter) :
    Except NovaError (List Bool) :=
  match batch.schema.findIdx? fun f => f.name = filter.column with
  | none => .error (.internal ("column " ++ filter.column ++ " not found"))
  | some i => .ok (batch.rows.map fun row => row[i]?.any filter.matches)

/-- The rows an UPDATE or DELETE touches: those its filter matches, or all of them. -/
def matchMask (filter : Option ResolvedFilter) (batch : RecordBatch) :
    Except NovaError (List Bool) :=
  match filter with
  | some f => evalFilterOnBatch batch f
  | none => .ok (List.replicate batch.numRows true)

/-- The positions of the set entries of a mask. -/
def maskIndices (mask : List Bool) : List ℕ :=
  (mask.zipIdx.filter fun x => x.1).map fun x => x.2

/-! ### Rewriting batches -/

/-- The new slot of an assigned column. -/
def assignCell (expr : ResolvedExpr) (matched : Bool) : Cell → Cell
  | .int64 v valid =>
    let val := match expr with | .int64 v => v | _ => 0
    .int64 (if matched then val else if valid then v else 0) true
  | .float64 v valid =>
    let val := match expr with | .float64 v => v | _ => .finite 0
    .float64 (if matched then val else if valid then v else .finite 0) true
  | .utf8 v =>
    let val := match expr with | .string s => s | _ => ""
    .utf8 (if matched then some val else v)
  | .other t v => .other t v

/-- The new row of an UPDATE. -/
def assignRow (schema : List Field) (assignments : List (String × ResolvedExpr))
    (row : List Cell) (matched : Bool) : List Cell :=
  List.zipWith (fun field cell =>
    match assignments.find? fun a => a.1 = field.name with
    | some (_, expr) => assignCell expr matched cell
    | none => cell) schema row

/-- `RecordBatch::try_new` with its error turned into an internal one. -/
def tryNewInternal (schema : List Field) (rows : List (List Cell)) : Except NovaError RecordBatch :=
  match RecordBatch.tryNew schema rows with
  | .ok batch => .ok batch
  | .error _ => .error (.internal "invalid record batch")

/-- `apply_update_to_batch`. -/
def applyUpdateToBatch (assignments : List (String × ResolvedExpr))
    (filter : Option ResolvedFilter) (batch : RecordBatch) : Except NovaError RecordBatch := do
  let mask ← matchMask filter batch
  tryNewInternal batch.schema
    (List.zipWith (assignRow batch.schema assignments) batch.rows mask)

/-- `apply_delete_to_batch`: the rows that do not match. -/
def applyDeleteToBatch (filter : Option ResolvedFilter) (batch : RecordBatch) :
    Except NovaError RecordBatch := do
  let mask ← matchMask filter batch
  let indices := maskIndices (mask.map fun m => !m)
  if indices = [] then
    return RecordBatch.newEmpty batch.schema
  tryNewInternal batch.schema (batch.take indices).rows

/-- `select_rows_by_indices`. -/
def selectRowsByIndices (batch : RecordBatch) (indices : List ℕ) :
    Except NovaError (Option RecordBatch) :=
  if indices = [] then .ok none
  else (RecordBatch.tryNew batch.schema (batch.take indices).rows).map some

/-! ### Literals to batches -/

/-- `arrow_type`. -/
def arrowType : NovaType → DataType
  | .int8 => .int8
  | .int16 => .int16
  | .int32 => .int32
  | .int64 => .int64
  | .float32 => .float32
  | .float64 => .float64
  | .utf8 => .utf8
  | .boolean => .boolean
  | .date32 => .date32
  | .timestamp => .utf8
  | .decimal _ _ => .float64
  | .binary => .binary
  | .list item => .list (arrowType item)

variable (fmt : TextFormat)

/-- The type of the array `values_to_batch` builds for a column, and how it converts one literal
(`none` where the row is too short). -/
def columnArray : NovaType → DataType × (Option ResolvedExpr → Cell)
  | .int64 | .int32 | .int16 | .int8 =>
    (.int64, fun
      | some (.int64 v) => .int64 v true
      | _ => .int64 0 false)
  | .float64 | .float32 | .decimal _ _ =>
    (.float64, fun
      | some (.float64 v) => .float64 v true
      | some (.int64 v) => .float64 (F64.ofRat v) true
      | _ => .float64 (.finite 0) false)
  | .utf8 =>
    (.utf8, fun
      | some (.string v) => .utf8 (some v)
      | some (.int64 v) => .utf8 (some (toString v))
      | some (.float64 v) => .utf8 (some (fmt.f64Display v))
      | some (.boolean v) => .utf8 (some (toString v))
      | _ => .utf8 none)
  | _ =>
    (.utf8, fun
      | some .null => .utf8 none
      | some other => .utf8 (some (fmt.exprDebug other))
      | none => .utf8 none)

variable (table : TableMeta)

/-- `values_to_batch`. -/
def valuesToBatch (values : List (List ResolvedExpr)) : Except NovaError RecordBatch :=
  let schema := table.columns.map fun c => Field.mk c.name (arrowType c.dataType) c.nullable
  if table.columns.all fun c => (columnArray fmt c.dataType).1 = arrowType c.dataType then
    RecordBatch.tryNew schema (values.map fun row =>
      table.columns.zipIdx.map fun c => (columnArray fmt c.1.dataType).2 row[c.2]?)
  else .error (.arrowError "column types must match schema types")

/-! ### Change rows -/

variable (source : RecordBatch)

/-- `append_cdc_metadata_columns`. -/
def appendCdcMetadataColumns (metadata : List CdcMetadata) : Except NovaError CdcBatch :=
  if h : metadata.length = source.rows.length then .ok ⟨source, metadata, h⟩
  else .error (.arrowError "all columns in a record batch must have the same length")

/-- The sequence numbers of `count` rows from `start`; an addition that overflows panics. -/
def rowSequences (start count : ℕ) : Except NovaError (List ℕ) :=
  (List.range count).mapM fun i => checkedAdd start i

/-- `build_cdc_batch_for_rows`. -/
def buildCdcBatchForRows (rowOrdinals : List ℕ)
    (startSequence : ℕ) (txnId : TxnId) (commitTs : Timestamp) (mpId : MpId)
    (action : ChangeAction) (isUpdate : Bool) : Except NovaError CdcBatch := do
  if source.numRows ≠ rowOrdinals.length then
    .error (.internal "CDC row ordinal count does not match source batch")
  let sequences ← rowSequences startSequence source.numRows
  appendCdcMetadataColumns source (List.zipWith (fun ordinal sequence =>
    { action, isUpdate, rowId := ⟨table.id, mpId, ordinal, 0⟩, txnId, commitTs, sequence })
    rowOrdinals sequences)

/-- `build_insert_cdc_batch`. -/
def buildInsertCdcBatch (startSequence : ℕ)
    (txnId : TxnId) (commitTs : Timestamp) (mpId : MpId) : Except NovaError CdcBatch :=
  buildCdcBatchForRows table source (List.range source.numRows) startSequence txnId commitTs
    mpId .insert false

/-- `concat_batches` of the two halves of an UPDATE's change rows. -/
def concatCdc (a b : CdcBatch) : Except NovaError CdcBatch :=
  if h : a.source.schema = b.source.schema then .ok (a.append b h)
  else .error (.arrowError "batches have different schemas")

/-! ### What the computations return -/

section Specs

variable {batch batch' : RecordBatch} {filter : Option ResolvedFilter}

theorem matchMask_length {mask : List Bool} (h : matchMask filter batch = .ok mask) :
    mask.length = batch.numRows := by
  unfold matchMask at h
  split at h
  · unfold evalFilterOnBatch at h
    split at h
    · cases h
    · cases h
      simp [numRows]
  · cases h
    simp

theorem lt_of_mem_maskIndices {mask : List Bool} (hmask : matchMask filter batch = .ok mask) {i : ℕ}
    (h : i ∈ maskIndices mask) : i < batch.numRows := by
  simp only [maskIndices, mem_map, mem_filter] at h
  obtain ⟨⟨b, j⟩, ⟨hm, -⟩, rfl⟩ := h
  rw [← matchMask_length hmask]
  exact (mem_zipIdx hm).2.1.trans_eq (Nat.zero_add _)

variable {indices : List ℕ}

theorem numRows_take (h : ∀ i ∈ indices, i < batch.numRows) :
    (batch.take indices).numRows = indices.length := by
  simp only [numRows, RecordBatch.take] at h ⊢
  rw [length_filterMap_eq_countP, countP_eq_length]
  intro i hi
  simpa using h i hi

theorem tryNew_eq_ok {schema : List Field} {rows : List (List Cell)}
    (h : tryNew schema rows = .ok batch) :
    batch.schema = schema ∧ batch.rows = rows := by
  unfold tryNew at h
  split_ifs at h
  cases h
  exact ⟨rfl, rfl⟩

theorem tryNewInternal_eq_ok {schema : List Field} {rows : List (List Cell)}
    (h : tryNewInternal schema rows = .ok batch) : batch.schema = schema ∧ batch.rows = rows := by
  unfold tryNewInternal at h
  split at h
  · next heq =>
    cases h
    exact tryNew_eq_ok heq
  · cases h

/-- An UPDATE keeps the schema and the number of rows of a batch. -/
theorem applyUpdateToBatch_eq_ok {assignments : List (String × ResolvedExpr)}
    (h : applyUpdateToBatch assignments filter batch = .ok batch') :
    batch'.schema = batch.schema ∧ batch'.numRows = batch.numRows := by
  obtain ⟨mask, hm, h⟩ := except_bind_eq_ok.1 h
  obtain ⟨hs, hr⟩ := tryNewInternal_eq_ok h
  refine ⟨hs, ?_⟩
  have hlen := matchMask_length hm
  simp only [numRows] at hlen ⊢
  simp [hr, hlen]

theorem selectRowsByIndices_eq_none
    (h : selectRowsByIndices batch indices = .ok none) : indices = [] := by
  unfold selectRowsByIndices at h
  split_ifs at h with hi
  · exact hi
  · cases ht : tryNew batch.schema (batch.take indices).rows with
    | ok b | error e => simp [ht, Except.map] at h

theorem selectRowsByIndices_eq_some (h : selectRowsByIndices batch indices = .ok (some batch')) :
    indices ≠ [] ∧ batch' = batch.take indices := by
  unfold selectRowsByIndices at h
  split_ifs at h with hi
  · cases h
  · cases ht : tryNew batch.schema (batch.take indices).rows with
    | ok b =>
      simp only [ht, Except.map, Except.ok.injEq, Option.some.injEq] at h
      subst h
      obtain ⟨hs, hr⟩ := tryNew_eq_ok ht
      exact ⟨hi, ext hs hr⟩
    | error e => simp [ht, Except.map] at h

theorem valuesToBatch_numRows {fmt : TextFormat} {table : TableMeta}
    {values : List (List ResolvedExpr)} (h : valuesToBatch fmt table values = .ok batch) :
    batch.numRows = values.length := by
  unfold valuesToBatch at h
  split_ifs at h
  simp [numRows, (tryNew_eq_ok h).2]

theorem rowSequences_eq_ok {start count : ℕ} {seqs : List ℕ}
    (h : rowSequences start count = .ok seqs) : seqs = range' start count := by
  have hmap : seqs = (range count).map fun i => start + i := by
    have hall := mapM_eq_ok_iff.1 h
    clear h
    generalize range count = is at hall
    induction hall with
    | nil => rfl
    | cons hi _ ih => rw [map_cons, ← ih, (checkedAdd_eq_ok.1 hi).2]
  rw [hmap, range_eq_range', map_add_range']
  simp

variable {table : TableMeta} {ordinals : List ℕ} {start : ℕ} {txnId : TxnId}
  {commitTs : Timestamp} {mpId : MpId} {action : ChangeAction} {isUpdate : Bool}

/-- The change rows of a batch are numbered consecutively from the start sequence. -/
theorem buildCdcBatchForRows_eq_ok {cdc : CdcBatch}
    (h : buildCdcBatchForRows table batch ordinals start txnId commitTs mpId action isUpdate
      = .ok cdc) :
    cdc.source = batch ∧ cdc.sequences = range' start batch.numRows := by
  unfold buildCdcBatchForRows at h
  split_ifs at h with hlen
  · obtain ⟨_, h, _⟩ := except_bind_eq_ok.1 h
    cases h
  obtain ⟨seqs, hseqs, h⟩ := except_bind_eq_ok.1 h
  unfold appendCdcMetadataColumns at h
  split_ifs at h
  cases h
  have hs := rowSequences_eq_ok hseqs
  refine ⟨rfl, ?_⟩
  have hle : seqs.length ≤ ordinals.length := by
    rw [hs, length_range']
    exact (not_not.1 hlen).le
  calc CdcBatch.sequences _ = (ordinals.zip seqs).map Prod.snd := by
        simp [CdcBatch.sequences, zip, map_zipWith]
    _ = seqs := map_snd_zip hle
    _ = range' start batch.numRows := hs

theorem concatCdc_eq_ok {a b cdc : CdcBatch} (h : concatCdc a b = .ok cdc) :
    cdc.sequences = a.sequences ++ b.sequences := by
  unfold concatCdc at h
  split_ifs at h
  cases h
  simp [CdcBatch.sequences, CdcBatch.append]

end Specs

end NovaCore
