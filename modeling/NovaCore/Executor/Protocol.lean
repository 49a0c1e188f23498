import NovaCore.Executor.Dml

/-!
# What a data-changing statement does, seen from the store

A statement's log collects what it has seen and done so far: the table it found, the index scan,
the looked-up micro-partitions, the files it read and wrote, the sequence ranges it was given and
the payloads it stored.  `dmlProtocol` says which operation a statement may issue after a log;
in particular what the arguments of its one `commit_table_cdc` are.  Every later argument about
interleavings uses only this protocol, never the code of the statements.

## Main definitions

* `DmlStatement.rewrite` : the effect of UPDATE and DELETE on the contents of one micro-partition.
* `StmtLog` : what a statement has seen and done.
* `MpCommit`, `CdcLog.Complete` : what the arguments of a commit are, in terms of the log.
* `dmlProtocol` : the protocol of INSERT, UPDATE and DELETE.
-/

namespace NovaCore

/-! ### The effect on one micro-partition -/

/-- What UPDATE or DELETE does with one micro-partition. -/
inductive Outcome
  /-- No row matches. -/
  | unchanged
  /-- Replaced by a micro-partition written from `batches`. -/
  | replaced (batches : List RecordBatch)
  /-- Every row was deleted. -/
  | removed
  deriving DecidableEq

/-- The number of rows the filter matches. -/
def matchedRows (filter : Option ResolvedFilter) (batches : List RecordBatch) :
    Except NovaError ℕ :=
  (batches.mapM (matchMask filter)).map fun masks => (masks.map fun m => (maskIndices m).length).sum

/-- The effect of a statement on a micro-partition that reads back as `batches`. -/
def DmlStatement.rewrite : DmlStatement → List RecordBatch → Except NovaError Outcome
  | .insert .., _ => .ok .unchanged
  | .update _ _ _ assignments filter, batches => do
    let n ← matchedRows filter batches
    let modified ← batches.mapM (applyUpdateToBatch assignments filter)
    return if n = 0 then .unchanged else .replaced modified
  | .delete _ _ _ filter, batches => do
    let n ← matchedRows filter batches
    let kept ← batches.mapM (applyDeleteToBatch filter)
    let kept := kept.filter fun b => 0 < b.numRows
    return if n = 0 then .unchanged else if kept = [] then .removed else .replaced kept

/-! ### Logs -/

/-- A range of change sequence numbers handed out to a statement. -/
structure Allocation where
  tableId : TableId
  first : ℕ
  count : ℕ
  deriving DecidableEq

/-- What a statement saw and wrote of tables and micro-partitions. -/
structure MpLog where
  /-- The table it found. -/
  table : Option TableMeta := none
  /-- The index scan. -/
  scan : Option (TableId × List MpId) := none
  /-- The micro-partitions looked up. -/
  lookups : List (MpId × Option MicroPartitionMeta) := []
  /-- The files read. -/
  reads : List (MpPath × List RecordBatch) := []
  /-- The identifiers generated. -/
  ids : List MpId := []
  /-- The files written. -/
  files : List (MpPath × List RecordBatch) := []
  /-- The last clock reading. -/
  clock : Option Timestamp := none

/-- What a statement was given and stored of the change log. -/
structure CdcLog where
  allocs : List Allocation := []
  payloads : List (CdcPath × CdcBatch) := []

/-- The arguments of `commit_table_cdc`. -/
structure CommitArgs where
  newMps : List MicroPartitionMeta
  superseded : List (MpId × MpId)
  records : List ChangeRecordMeta

/-- What a stream read saw and did. -/
structure StreamLog where
  /-- The stream it found. -/
  stream : Option StreamMeta := none
  /-- The offset it started from. -/
  offset : Option StreamOffset := none
  /-- The watermark it read. -/
  through : Option ℕ := none
  /-- The change records it scanned. -/
  records : Option (List ChangeRecordMeta) := none
  /-- The payloads it read. -/
  payloads : List (CdcPath × List CdcBatch) := []
  /-- The batches it registered with the query engine. -/
  registered : Option (List CdcBatch) := none
  /-- The stream and the offset of its compare-and-set, once that succeeded. -/
  consumed : Option (StreamId × StreamOffset) := none

/-- What a statement has seen and done. -/
structure StmtLog where
  mp : MpLog := {}
  cdc : CdcLog := {}
  stream : StreamLog := {}
  /-- The commit that succeeded, if there was one. -/
  commit : Option CommitArgs := none

namespace StmtLog

/-- The log after an operation. -/
def record (s : StmtLog) : (o : Op) → o.Res → StmtLog
  | .findTable _ _ _, .ok t => { s with mp := { s.mp with table := some t } }
  | .scanTableMps t, .ok ids => { s with mp := { s.mp with scan := some (t, ids) } }
  | .getMp id, .ok mp => { s with mp := { s.mp with lookups := s.mp.lookups ++ [(id, mp)] } }
  | .getFile p, .ok bs => { s with mp := { s.mp with reads := s.mp.reads ++ [(p, bs)] } }
  | .generateId, .ok id => { s with mp := { s.mp with ids := s.mp.ids ++ [id] } }
  | .putFile p bs, .ok _ => { s with mp := { s.mp with files := s.mp.files ++ [(p, bs)] } }
  | .nowMicros, .ok now => { s with mp := { s.mp with clock := some now } }
  | .allocateTableChangeSequences t n, .ok first =>
    { s with cdc := { s.cdc with allocs := s.cdc.allocs ++ [⟨t, first, n⟩] } }
  | .putPayload p b, .ok _ =>
    { s with cdc := { s.cdc with payloads := s.cdc.payloads ++ [(p, b)] } }
  | .commitTableCdc _ newMps superseded records, .ok _ =>
    { s with commit := some ⟨newMps, superseded, records⟩ }
  | .findStream _ _ _, .ok m => { s with stream := { s.stream with stream := some m } }
  | .getStreamOffset _, .ok offset => { s with stream := { s.stream with offset := offset } }
  | .getTableChangeSequence _, .ok n => { s with stream := { s.stream with through := some n } }
  | .getChangeRecords _ _ _, .ok rs => { s with stream := { s.stream with records := some rs } }
  | .getPayload p, .ok bs =>
    { s with stream := { s.stream with payloads := s.stream.payloads ++ [(p, bs)] } }
  | .runQuery _ bs _, .ok _ => { s with stream := { s.stream with registered := some bs } }
  | .compareAndSetStreamOffset id _ new, .ok _ =>
    { s with stream := { s.stream with consumed := some (id, new) } }
  | _, _ => s

@[simp] theorem record_error (s : StmtLog) (o : Op) (e : NovaError) :
    s.record o (.error e) = s := by
  cases o <;> rfl

end StmtLog

/-- One operation, under any protocol that allows it; a failed one leaves no trace in the log. -/
theorem await_follows {s : StmtLog} {Allowed : StmtLog → Op → Prop} {E : StmtLog → Prop} {o : Op}
    (hs : E s) (ho : Allowed s o) :
    Prog.FollowsE ⟨StmtLog.record, Allowed⟩ (fun s' a => s' = s.record o (.ok a)) E
      (await o) s := by
  refine Prog.followsE_call ho (fun a => rfl) fun e => ?_
  change E (s.record o (.error e))
  rw [StmtLog.record_error]
  exact hs

theorem await_bind {s : StmtLog} {Allowed : StmtLog → Op → Prop} {E : StmtLog → Prop} {o : Op}
    {β : Type} {Q : StmtLog → β → Prop} {f : o.Ret → Nova β} (hs : E s) (ho : Allowed s o)
    (hf : ∀ a, Prog.FollowsE ⟨StmtLog.record, Allowed⟩ Q E (f a) (s.record o (.ok a))) :
    Prog.FollowsE ⟨StmtLog.record, Allowed⟩ Q E (await o >>= f) s :=
  Prog.followsE_bind (await_follows hs ho) fun _ a h => h ▸ hf a

/-- The arguments of the commit an event is. -/
def commitOf : Event Op Op.Res → Option CommitArgs
  | ⟨.commitTableCdc _ newMps superseded records, .ok _⟩ => some ⟨newMps, superseded, records⟩
  | _ => none

theorem StmtLog.record_commit (s : StmtLog) (o : Op) (r : o.Res) :
    (s.record o r).commit = (commitOf ⟨o, r⟩).or s.commit := by
  cases r <;> cases o <;> simp [record, commitOf]

section

variable {ι : Type} [DecidableEq ι]

/-- The log of thread `i` after a history. -/
def logOf (h : History ι Op Op.Res) (i : ι) : StmtLog :=
  (eventsOf i h).foldl (fun s e => s.record e.1 e.2) {}

@[simp] theorem logOf_nil (i : ι) : logOf ([] : History ι Op Op.Res) i = {} := rfl

theorem logOf_snoc_self (h : History ι Op Op.Res) (i : ι) (e : Event Op Op.Res) :
    logOf (h ++ [(i, e)]) i = (logOf h i).record e.1 e.2 := by
  simp [logOf]

theorem logOf_snoc_ne {i j : ι} (hij : j ≠ i) (h : History ι Op Op.Res) (e : Event Op Op.Res) :
    logOf (h ++ [(j, e)]) i = logOf h i := by
  simp [logOf, eventsOf_snoc_ne hij]

theorem committed_mono {h : History ι Op Op.Res} {i : ι} (hc : (logOf h i).commit ≠ none) (j : ι)
    (e : Event Op Op.Res) : (logOf (h ++ [(j, e)]) i).commit ≠ none := by
  by_cases hij : j = i
  · subst hij
    rw [logOf_snoc_self, StmtLog.record_commit]
    simp [hc]
  · rwa [logOf_snoc_ne hij]

end

/-- The active micro-partitions among those looked up. -/
def activeOf (lookups : List (MpId × Option MicroPartitionMeta)) : List MicroPartitionMeta :=
  lookups.flatMap fun x => (x.2.filter MicroPartitionMeta.isActive).toList

/-! ### The protocol -/

/-- The payload stored for an allocated range: its rows carry exactly the numbers of the
range. -/
structure PayloadFor (a : Allocation) (p : CdcPath × CdcBatch) : Prop where
  tableId : p.1.tableId = a.tableId
  start : p.1.startSequence = a.first
  sequences : p.2.sequences = List.range' a.first a.count
  pos : 0 < a.count
  fits : a.first + a.count ≤ u64Max

/-- The change record that publishes a payload. -/
structure RecordFor (p : CdcPath × CdcBatch) (r : ChangeRecordMeta) : Prop where
  tableId : r.tableId = p.1.tableId
  sequence : r.sequence = p.1.startSequence
  payload : r.payload = ⟨p.1, 0, p.2.numRows⟩

/-- Every range given to a statement on table `t` has its payload and its record. -/
structure CdcLog.Complete (c : CdcLog) (t : TableId) (records : List ChangeRecordMeta) : Prop where
  tables : ∀ a ∈ c.allocs, a.tableId = t
  payloads : List.Forall₂ PayloadFor c.allocs c.payloads
  records : List.Forall₂ RecordFor c.payloads records

/-- The replacement of a micro-partition `old` that UPDATE or DELETE commits. -/
structure NewMp (t : TableId) (ts : Timestamp) (old : Option MpId) (path : MpPath)
    (mp : MicroPartitionMeta) : Prop where
  mpId : mp.mpId = path.mpId
  tableId : mp.tableId = t
  readPath : mp.readPath = path
  isActive : mp.isActive = true
  supersedes : mp.supersedes = old
  commitTs : mp.commitTs = ts

/-- What UPDATE and DELETE commit after reading `rs`: for each micro-partition in turn, its
replacement and the pair that supersedes it. -/
inductive Planned (stmt : DmlStatement) (t : TableId) (ts : Timestamp) :
    List (MicroPartitionMeta × List RecordBatch) → List MicroPartitionMeta →
    List (MpId × MpId) → List (MpPath × List RecordBatch) → Prop
  | nil : Planned stmt t ts [] [] [] []
  | unchanged {rs new sup files mp batches} :
      Planned stmt t ts rs new sup files → stmt.rewrite batches = .ok .unchanged →
      Planned stmt t ts (rs ++ [(mp, batches)]) new sup files
  | replaced {rs new sup files mp batches path batches' newMp} :
      Planned stmt t ts rs new sup files → stmt.rewrite batches = .ok (.replaced batches') →
      NewMp t ts (some mp.mpId) path newMp →
      Planned stmt t ts (rs ++ [(mp, batches)]) (new ++ [newMp])
        (sup ++ [(mp.mpId, newMp.mpId)]) (files ++ [(path, batches')])
  | removed {rs new sup files mp batches id} :
      Planned stmt t ts rs new sup files → stmt.rewrite batches = .ok .removed →
      Planned stmt t ts (rs ++ [(mp, batches)]) new (sup ++ [(mp.mpId, id)]) files

/-- The micro-partition part of a commit. -/
inductive MpCommit (fmt : TextFormat) (s : MpLog) (t : TableId) :
    DmlStatement → List MicroPartitionMeta → List (MpId × MpId) → Prop
  | insert {db schema table values tableMeta batch path mp ts} :
      s.table = some tableMeta → tableMeta.id = t →
      valuesToBatch fmt tableMeta values = .ok batch →
      s.scan = none → s.ids = [path.mpId] → s.files = [(path, [batch])] → s.clock = some ts →
      NewMp t ts none path mp → MpCommit fmt s t (.insert db schema table values) [mp] []
  | rewrite {stmt tableMeta ids rs ts new sup} :
      s.table = some tableMeta → tableMeta.id = t → (∀ db sc tb vs, stmt ≠ .insert db sc tb vs) →
      s.scan = some (t, ids) → s.lookups.map Prod.fst = ids → rs.map Prod.fst = activeOf s.lookups →
      s.reads = rs.map (fun r => (r.1.readPath, r.2)) → s.clock = some ts →
      Planned stmt t ts rs new sup s.files → sup.map Prod.snd = s.ids →
      MpCommit fmt s t stmt new sup

/-- The database, schema and table a statement names. -/
def DmlStatement.names : DmlStatement → String × String × String
  | .insert db schema table _ => (db, schema, table)
  | .update db schema table _ _ => (db, schema, table)
  | .delete db schema table _ => (db, schema, table)

/-- The statement is an INSERT. -/
def DmlStatement.isInsert : DmlStatement → Bool
  | .insert .. => true
  | _ => false

/-- The statement is a DELETE. -/
def DmlStatement.isDelete : DmlStatement → Bool
  | .delete .. => true
  | _ => false

/-- The statement is an INSERT without rows. -/
def DmlStatement.isEmptyInsert : DmlStatement → Prop
  | .insert _ _ _ values => values = []
  | _ => False

/-- Which operations the statement `stmt` may issue after log `s`, as long as it has not
committed. -/
def DmlMay (fmt : TextFormat) (stmt : DmlStatement) (s : StmtLog) : Op → Prop
  | .findTable db schema table => s.mp.table = none ∧ stmt.names = (db, schema, table)
  | .scanTableMps t => s.mp.scan = none ∧ ∃ m, s.mp.table = some m ∧ m.id = t
  | .getMp id => ∃ t rest, s.mp.scan = some (t, s.mp.lookups.map Prod.fst ++ id :: rest)
  | .getFile p => ∃ t done mp rest, s.mp.scan = some (t, s.mp.lookups.map Prod.fst) ∧
      activeOf s.mp.lookups = done ++ mp :: rest ∧
      s.mp.reads.map Prod.fst = done.map MicroPartitionMeta.readPath ∧ p = mp.readPath
  | .putFile p _ => ∃ done, s.mp.ids = done ++ [p.mpId] ∧ ∀ f ∈ s.mp.files, f.1.mpId ∈ done
  | .allocateTableChangeSequences t n => (∃ m, s.mp.table = some m ∧ m.id = t) ∧
      List.Forall₂ PayloadFor s.cdc.allocs s.cdc.payloads ∧ (n = 0 → stmt.isEmptyInsert)
  | .putPayload p b => ∃ done a, s.cdc.allocs = done ++ [a] ∧
      List.Forall₂ PayloadFor done s.cdc.payloads ∧ PayloadFor a (p, b)
  | .commitTableCdc _ newMps superseded records => ∃ t, s.cdc.Complete t records ∧
      MpCommit fmt s.mp t stmt newMps superseded
  | .generateId | .nowMicros | .incrementTableVersion _ | .nextTxnId | .setTxn _ => True
  | _ => False

/-- The protocol of a data-changing statement. -/
def dmlProtocol (fmt : TextFormat) (stmt : DmlStatement) : Protocol Op Op.Res StmtLog where
  record := StmtLog.record
  Allowed s o := s.commit = none ∧ DmlMay fmt stmt s o

end NovaCore
