import NovaCore.Executor.Protocol
import NovaCore.Executor.Stream

/-!
# What a stream read does, seen from the store

The protocol of `exec_read_stream`, in the same form as the one of the data-changing statements:
which operation a read may issue after a log, and in particular which batches it registers and
what its compare-and-set says.

* `readerProtocol` : the protocol of one stream read.
* `execReadStream_follows` : a stream read follows it; a read that fails has not moved an offset,
  and one that succeeds moved it exactly if it is a commit-mode read that consumed something.
* `readStreamPayloadBatches_exact` : **which rows a read hands out.**
-/

namespace NovaCore

open Prog List CdcBatch

/-- The change rows that a record points to in its payload. -/
def ChangeRecordMeta.rowsOf (r : ChangeRecordMeta) (payload : List CdcBatch) : List CdcBatch.Row :=
  ((payload.flatMap CdcBatch.logicalRows).drop r.payload.rowStart).take r.payload.rowCount

/-- The slices handed out are the requested rows. -/
theorem sliceBatches_rows (skip remaining : ℕ) (batches : List CdcBatch) :
    (sliceBatches skip remaining batches).1.flatMap logicalRows =
      ((batches.flatMap logicalRows).drop skip).take remaining := by
  induction batches generalizing skip remaining with
  | nil => simp [sliceBatches]
  | cons b batches ih =>
    unfold sliceBatches
    split_ifs with hrem hskip
    · simp [hrem]
    · have hdrop : b.logicalRows.drop skip = [] := drop_of_length_le (by simpa using hskip)
      rw [ih, flatMap_cons, drop_append, hdrop, nil_append, logicalRows_length]
    · have hzero : skip - b.numRows = 0 := by omega
      have hlen : (b.logicalRows.drop skip).length = b.numRows - skip := by simp
      simp only [flatMap_cons]
      rw [ih, logicalRows_slice, drop_append, logicalRows_length, hzero, take_append]
      congr 1
      · rcases le_total remaining (b.numRows - skip) with hle | hle
        · rw [min_eq_left hle]
        · rw [min_eq_right hle, take_of_length_le hlen.le, take_of_length_le (hlen.le.trans hle)]
      · congr 1
        omega

/-- The batches registered for `records` after reading `payloads`. -/
structure Registered (records : List ChangeRecordMeta) (payloads : List (CdcPath × List CdcBatch))
    (batches : List CdcBatch) : Prop where
  paths : List.Forall₂ (fun r p => p.1 = r.payload.path) records payloads
  rows : batches.flatMap CdcBatch.logicalRows =
    (records.zip payloads).flatMap fun x => x.1.rowsOf x.2.2

/-- A read with log `s` has scanned `records` of stream `m` from `offset` on. -/
structure StreamLog.Scanned (s : StreamLog) (m : StreamMeta) (offset : StreamOffset)
    (records : List ChangeRecordMeta) : Prop where
  stream : s.stream = some m
  offset : s.offset = some offset
  records : s.records = some records

/-- A read with log `s` has registered the rows up to `published`. -/
structure StreamLog.Queried (s : StreamLog) (m : StreamMeta) (offset : StreamOffset)
    (records : List ChangeRecordMeta) (published : ℕ) (batches : List CdcBatch) : Prop where
  scanned : s.Scanned m offset records
  published_eq : contiguousPublishedStreamSequence offset.committedSequence records = .ok published
  registered : Registered (consumableRecords published records) s.payloads batches

variable (req : StreamRead)

/-- Which operations a stream read may issue after log `s`. -/
def ReaderMay (s : StmtLog) : Op → Prop
  | .findStream _ _ _ => s.stream = {}
  | .getStreamOffset id => ∃ m, s.stream = { stream := some m } ∧ id = m.streamId
  | .getTableChangeSequence t => ∃ m offset,
      s.stream = { stream := some m, offset := some offset } ∧ t = m.sourceTableId
  | .getChangeRecords t after through => ∃ m offset,
      s.stream = { stream := some m, offset := some offset, through := some through } ∧
      t = m.sourceTableId ∧ after = offset.committedSequence
  | .getPayload p => ∃ m offset records r, s.stream.Scanned m offset records ∧
      s.stream.registered = none ∧ r ∈ records ∧ p = r.payload.path
  | .runQuery _ batches _ => ∃ m offset records published,
      s.stream.Queried m offset records published batches ∧ s.stream.registered = none
  | .compareAndSetStreamOffset id expected new => ∃ m offset records published batches,
      s.stream.Queried m offset records published batches ∧ s.stream.registered = some batches ∧
      s.stream.consumed = none ∧ req.readMode = .commit ∧ id = m.streamId ∧
      expected = offset.committedSequence ∧ new.committedSequence = published ∧
      offset.committedSequence < published
  | .authorizeStreamRead _ _ _ _ | .nowMicros => True
  | _ => False

/-- The protocol of a stream read. -/
def readerProtocol : Protocol Op Op.Res StmtLog where
  record := StmtLog.record
  Allowed := ReaderMay req

/-- A stream read that ended successfully. -/
def StreamLog.Completed (s : StreamLog) : Prop :=
  ∃ m offset records published batches, s.Queried m offset records published batches ∧
    s.registered = some batches ∧
    (s.consumed = none → req.readMode = .preview ∨ published ≤ offset.committedSequence)

/-- The read has not moved an offset. -/
def StmtLog.Unconsumed (s : StmtLog) : Prop := s.stream.consumed = none

section Follows

variable {req : StreamRead} {s : StmtLog} {records : List ChangeRecordMeta}

theorem Registered.snoc
    {payloads : List (CdcPath × List CdcBatch)} {batches slices payload : List CdcBatch}
    {r : ChangeRecordMeta} (h : Registered records payloads batches)
    (hrows : slices.flatMap logicalRows = r.rowsOf payload) :
    Registered (records ++ [r]) (payloads ++ [(r.payload.path, payload)]) (batches ++ slices) where
  paths := rel_append h.paths (.cons rfl .nil)
  rows := by
    rw [zip_append h.paths.length_eq, flatMap_append, h.rows, hrows]
    simp

/-- Reading the payloads of `records`, a part of the scanned records. -/
theorem readStreamPayloadBatches_follows {m : StreamMeta} {offset : StreamOffset}
    {scanned : List ChangeRecordMeta} (hsc : s.stream.Scanned m offset scanned)
    (hreg : s.stream.registered = none) (hcon : s.Unconsumed) (hpay : s.stream.payloads = [])
    (hsub : ∀ r ∈ records, r ∈ scanned) :
    FollowsE (readerProtocol req) (fun s' batches => ∃ payloads,
        s' = { s with stream := { s.stream with payloads := payloads } } ∧
        Registered records payloads batches)
      StmtLog.Unconsumed (readStreamPayloadBatches m records) s := by
  have hinit : Registered [] [] [] := ⟨.nil, rfl⟩
  refine followsE_foldlM (fun done batches s' => ∃ payloads,
    s' = { s with stream := { s.stream with payloads := payloads } } ∧
    Registered done payloads batches) ?_ ⟨[], by rw [← hpay], hinit⟩
  rintro done r rest batches _ hrec ⟨payloads, rfl, hreg'⟩
  have hr : r ∈ scanned := hsub r (by simp [hrec])
  refine followsE_bind (followsE_adapt (await_follows hcon
    ⟨m, offset, scanned, r, { hsc with }, hreg, hr, rfl⟩)) ?_
  rintro _ payload rfl
  dsimp only
  split_ifs with hmissing
  · exact followsE_throw hcon
  · exact followsE_pure ⟨_, rfl, hreg'.snoc (sliceBatches_rows _ _ _)⟩

/-- The offset moves exactly in commit mode and when something was consumed. -/
theorem advanceOffset_follows {m : StreamMeta} {offset : StreamOffset}
    {published : ℕ} {batches : List CdcBatch}
    {consumable : List ChangeRecordMeta}
    (hq : s.stream.Queried m offset records published batches)
    (hreg : s.stream.registered = some batches) (hcon : s.Unconsumed) :
    FollowsE (readerProtocol req) (fun s' _ => s'.stream.Completed req) StmtLog.Unconsumed
      (advanceOffset req.readMode m offset published consumable) s := by
  unfold advanceOffset
  split_ifs with hmode
  · refine await_bind hcon trivial fun committedTs => ?_
    refine await_bind hcon trivial fun consumedAt => ?_
    refine FollowsE.mono (await_follows hcon ⟨m, offset, records, published, batches, hq, hreg,
      hcon, hmode.1, rfl, rfl, rfl, hmode.2⟩) ?_
    rintro _ _ rfl
    have hsc := hq.scanned
    exact ⟨m, offset, records, published, batches,
      ⟨{ hsc with }, hq.published_eq, hq.registered⟩, hreg,
      fun hnone => absurd hnone (Option.some_ne_none _)⟩
  · refine followsE_pure ⟨m, offset, records, published, batches, hq, hreg, fun _ => ?_⟩
    cases hm : req.readMode with
    | preview => exact .inl rfl
    | commit => exact .inr (not_lt.1 fun hlt => hmode ⟨hm, hlt⟩)

/-- **A stream read follows its protocol.** -/
theorem execReadStream_follows (req : StreamRead) :
    FollowsE (readerProtocol req) (fun s _ => s.stream.Completed req) StmtLog.Unconsumed
      (execReadStream req) {} := by
  refine await_bind rfl rfl fun m => ?_
  refine await_bind rfl trivial fun sourceTable => ?_
  refine await_bind rfl ⟨m, rfl, rfl⟩ fun offset => ?_
  cases offset with
  | none => exact followsE_throw rfl
  | some offset =>
    refine await_bind rfl ⟨m, offset, rfl, rfl⟩ fun current => ?_
    refine await_bind rfl ⟨m, offset, rfl, rfl, rfl⟩ fun records => ?_
    refine followsE_lift rfl fun published hpub => ?_
    refine followsE_bind (readStreamPayloadBatches_follows ⟨rfl, rfl, rfl⟩ rfl rfl rfl
      fun r hr => (mem_filter.1 hr).1) ?_
    rintro _ batches ⟨payloads, rfl, hreg⟩
    -- the empty batch that stands in for no batches has no rows
    have hreg' : Registered (consumableRecords published records) payloads
        (if batches = [] then [emptyStreamBatch sourceTable] else batches) := by
      split_ifs with hb
      · refine ⟨hreg.paths, ?_⟩
        rw [← hreg.rows, hb]
        rfl
      · exact hreg
    refine await_bind rfl
      ⟨m, offset, records, published, ⟨⟨rfl, rfl, rfl⟩, hpub, hreg'⟩, rfl⟩ fun result => ?_
    refine followsE_bind (advanceOffset_follows ⟨⟨rfl, rfl, rfl⟩, hpub, hreg'⟩ rfl rfl) ?_
    intro s _ hs
    exact followsE_pure hs

end Follows

/-! ### The rows of a read -/

/-- How many rows are still missing when the batches of a payload are used up. -/
theorem sliceBatches_missing (skip remaining : ℕ) (batches : List CdcBatch) :
    (sliceBatches skip remaining batches).2 =
      remaining - ((batches.flatMap logicalRows).length - skip) := by
  induction batches generalizing skip remaining with
  | nil => simp [sliceBatches]
  | cons b batches ih =>
    unfold sliceBatches
    rw [flatMap_cons, length_append, logicalRows_length]
    split_ifs with hrem hskip
    · omega
    · rw [ih]
      omega
    · rw [ih]
      omega

/-- The payload has the rows that the record points to; a record without rows points to none. -/
def ChangeRecordMeta.Within (r : ChangeRecordMeta) (payload : List CdcBatch) : Prop :=
  r.payload.rowCount = 0 ∨
    r.payload.rowStart + r.payload.rowCount ≤ (payload.flatMap CdcBatch.logicalRows).length

section Payloads

variable {stream : StreamMeta} {records : List ChangeRecordMeta}
  {payload : ChangeRecordMeta → List CdcBatch}

/-- The result is exactly the rows that the records point to, one record after the other, or the
error about a record whose payload does not have them. -/
def Sliced (stream : StreamMeta) (records : List ChangeRecordMeta)
    (payload : ChangeRecordMeta → List CdcBatch) : Except NovaError (List CdcBatch) → Prop
  | .ok batches => (∀ r ∈ records, r.Within (payload r)) ∧
      batches.flatMap CdcBatch.logicalRows = records.flatMap fun r => r.rowsOf (payload r)
  | .error e => ∃ r ∈ records, ¬r.Within (payload r) ∧
      e = .streamPayloadMissing stream.streamId r.payload.path

theorem Sliced.snoc {result : Except NovaError (List CdcBatch)} {r : ChangeRecordMeta}
    (h : Sliced stream records payload result) :
    Sliced stream (records ++ [r]) payload (result.bind fun batches =>
      let slices := sliceBatches r.payload.rowStart r.payload.rowCount (payload r)
      if slices.2 ≠ 0 then .error (.streamPayloadMissing stream.streamId r.payload.path)
      else .ok (batches ++ slices.1)) := by
  cases result with
  | error e =>
    obtain ⟨q, hq, he⟩ := h
    exact ⟨q, mem_append_left _ hq, he⟩
  | ok batches =>
    have hmissing := sliceBatches_missing r.payload.rowStart r.payload.rowCount (payload r)
    have hr : (sliceBatches r.payload.rowStart r.payload.rowCount (payload r)).2 = 0 ↔
        r.Within (payload r) := by
      unfold ChangeRecordMeta.Within
      omega
    dsimp only [Except.bind]
    split_ifs with hzero
    · exact ⟨r, by simp, fun hwithin => hzero (hr.2 hwithin), rfl⟩
    · refine ⟨by simpa [or_imp, forall_and] using ⟨h.1, hr.1 (not_not.1 hzero)⟩, ?_⟩
      rw [flatMap_append, flatMap_append, h.2, sliceBatches_rows, flatMap_singleton]
      rfl

/-- **The rows that change records point to.**  Whatever the batches of the payloads are, reading
them returns exactly these rows if every payload has them, and otherwise an error. -/
theorem readStreamPayloadBatches_exact (answer : ∀ o : Op, o.Res)
    (hread : ∀ r ∈ records, answer (.getPayload r.payload.path) = .ok (payload r)) :
    Sliced stream records payload ((readStreamPayloadBatches stream records).run.eval answer) := by
  rw [readStreamPayloadBatches, evalE_foldlM]
  induction records using reverseRecOn with
  | nil => exact ⟨by simp, rfl⟩
  | append_singleton records r ih =>
    rw [foldlM_append]
    have hpayload : eval answer ((await (.getPayload r.payload.path)).adapt
        (payloadError stream r)).run = .ok (payload r) := by
      change (answer (.getPayload r.payload.path)).mapError (payloadError stream r) = _
      rw [hread r (by simp)]
      rfl
    refine cast (congrArg _ (bind_congr fun batches => ?_))
      (ih fun r hr => hread r (mem_append_left _ hr)).snoc
    rw [foldlM_cons, ExceptT.run_bind, eval_bind, hpayload]
    dsimp only
    split_ifs <;> rfl

/-- The changes that insert the rows with these numbers. -/
def insertedRows (ns : List ℕ) : CdcBatch where
  source := ⟨[⟨"a", .int64, true⟩], ns.map fun n => [.int64 n true], by
    simp [rowFits, Field.accepts, Cell.dataType]⟩
  metadata := ns.map fun n => ⟨.insert, false, ⟨1, 7, n, 0⟩, 1, 0, n⟩
  length_eq := by simp

/-- Two records that point into payloads of several batches. -/
def twoRecords : List ChangeRecordMeta :=
  [⟨1, 2, 1, 0, ⟨⟨1, 1, 1, 5⟩, 1, 3⟩, ⟨3, 0, 0⟩, none, none⟩,
    ⟨1, 8, 2, 0, ⟨⟨1, 2, 6, 9⟩, 2, 2⟩, ⟨2, 0, 0⟩, none, none⟩]

/-- The payloads by the transaction that wrote them. -/
def twoPayloads (path : CdcPath) : List CdcBatch :=
  if path.txnId = 1 then [insertedRows [1, 2], insertedRows [3, 4], insertedRows [5]]
  else [insertedRows [6, 7], insertedRows [8, 9]]

/-- The payloads are read. -/
def answerPayloads : (o : Op) → o.Res
  | .getPayload path => .ok (twoPayloads path)
  | _ => .error (.internal "")

/-- A record begins and ends within batches, and one skips a batch. -/
theorem readStreamPayloadBatches_exact_twoRecords : ∃ batches,
    (readStreamPayloadBatches ⟨1, 1, 1, 1, "s"⟩ twoRecords).run.eval answerPayloads = .ok batches ∧
    batches.map CdcBatch.sequences = [[2], [3, 4], [8, 9]] ∧
    batches.flatMap CdcBatch.logicalRows =
      twoRecords.flatMap fun r => r.rowsOf (twoPayloads r.payload.path) := by
  have hsliced : Sliced ⟨1, 1, 1, 1, "s"⟩ twoRecords (fun r => twoPayloads r.payload.path)
      ((readStreamPayloadBatches ⟨1, 1, 1, 1, "s"⟩ twoRecords).run.eval answerPayloads) :=
    readStreamPayloadBatches_exact answerPayloads fun _ _ => rfl
  exact ⟨_, rfl, rfl, hsliced.2⟩

/-- A change record without rows that points behind the end of its payload. -/
def noRows : ChangeRecordMeta :=
  ⟨1, 1, 1, 0, ⟨⟨1, 1, 1, 1⟩, 1, 0⟩, ⟨0, 0, 0⟩, none, none⟩

/-- Every payload object is empty. -/
def emptyPayloads : (o : Op) → o.Res
  | .getPayload _ => .ok []
  | _ => .error (.internal "")

/-- A payload that ends before the first row of a record is not an error if the record has no
rows. -/
theorem readStreamPayloadBatches_past_end :
    noRows.payload.rowStart + noRows.payload.rowCount = 1 ∧
      (readStreamPayloadBatches ⟨1, 1, 1, 1, "s"⟩ [noRows]).run.eval emptyPayloads = .ok [] :=
  ⟨rfl, rfl⟩

end Payloads

end NovaCore
