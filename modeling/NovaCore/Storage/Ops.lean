import NovaCore.Prog.Interleave
import NovaCore.Storage.Commit

/-!
# Operations of the storage layer

Every point where a statement waits for the metadata store, the object store, the clock or the
query engine is one `Op`.  `Op.apply` says what an operation returns and does to the world; what
it leaves open (a storage failure, a fresh identifier, the time, how much of a log range one scan
returns, the answer of the query engine) is a `Choice`.  `Step` forgets the choice.

The catalogue is not written by the statements modelled as programs, so the several reads of one
name lookup or privilege check are one operation.

## Main results

* `step_error` : an operation that fails leaves the world as it was.
* `step_effect` : the operations that change the world, and how.
* `run_catalog` : no run changes the catalogue.
-/

namespace NovaCore

open World

/-- One indivisible operation. -/
inductive Op
  | findTable (db schema table : String)
  | findStream (db schema streamName : String)
  | authorizeStreamRead (security : SecurityContext) (db schema : String) (stream : StreamMeta)
  | listDatabases
  | listSchemas (dbId : DatabaseId)
  | listTables (dbId : DatabaseId) (schemaId : SchemaId)
  | scanTableMps (t : TableId)
  | getMp (id : MpId)
  | setMp (id : MpId) (mp : MicroPartitionMeta)
  | incrementTableVersion (t : TableId)
  | nextTxnId
  | setTxn (txn : TransactionMeta)
  | allocateTableChangeSequences (t : TableId) (count : ℕ)
  | commitTableCdc (txnId : TxnId) (newMps : List MicroPartitionMeta)
      (superseded : List (MpId × MpId)) (records : List ChangeRecordMeta)
  | getTableChangeSequence (t : TableId)
  | getChangeRecords (t : TableId) (after through : ℕ)
  | getStreamOffset (s : StreamId)
  | compareAndSetStreamOffset (s : StreamId) (expected : ℕ) (new : StreamOffset)
  | putFile (path : MpPath) (batches : List RecordBatch)
  | getFile (path : MpPath)
  | putPayload (path : CdcPath) (batch : CdcBatch)
  | getPayload (path : CdcPath)
  /-- Register `batches` as table `name` in a fresh query context and run `sql`. -/
  | runQuery (name : String) (batches : List CdcBatch) (sql : String)
  | generateId
  | nowMicros

/-- What an operation returns when it succeeds. -/
@[reducible] def Op.Ret : Op → Type
  | findTable .. => TableMeta
  | findStream .. => StreamMeta
  | authorizeStreamRead .. => TableMeta
  | listDatabases => List DatabaseMeta
  | listSchemas _ => List SchemaMeta
  | listTables .. => List TableMeta
  | scanTableMps _ => List MpId
  | getMp _ => Option MicroPartitionMeta
  | setMp .. => Unit
  | incrementTableVersion _ => ℕ
  | nextTxnId => TxnId
  | setTxn _ => Unit
  | allocateTableChangeSequences .. => ℕ
  | commitTableCdc .. => Unit
  | getTableChangeSequence _ => ℕ
  | getChangeRecords .. => List ChangeRecordMeta
  | getStreamOffset _ => Option StreamOffset
  | compareAndSetStreamOffset .. => Unit
  | putFile .. => Unit
  | getFile _ => List RecordBatch
  | putPayload .. => Unit
  | getPayload _ => List CdcBatch
  | runQuery .. => List String × List (List String)
  | generateId => ℕ
  | nowMicros => Timestamp

/-- What an operation returns. -/
abbrev Op.Res (o : Op) : Type := Except NovaError o.Ret

/-- A statement: a fallible program over the storage operations. -/
abbrev Nova (α : Type) : Type := ExceptT NovaError (Prog Op Op.Res) α

/-- Issue one operation and fail if it fails. -/
def await (o : Op) : Nova o.Ret := Prog.call o

/-- What the world decides about one operation. -/
structure Choice where
  /-- The storage failure the operation runs into, if any. -/
  failure : Option NovaError := none
  /-- The identifier `generate_id` returns. -/
  id : ℕ := 0
  /-- The time. -/
  now : Timestamp := 0
  /-- How many entries of its range a log scan returns. -/
  scanned : ℕ := 0
  /-- The columns the query engine returns. -/
  columns : List String := []
  /-- The rows the query engine returns. -/
  rows : List (List String) := []

/-- The operation reaches a remote service, which may fail. -/
def Op.remote : Op → Bool
  | generateId => false
  | nowMicros => false
  | _ => true

variable (pq : Parquet)

/-- The result and effect of an operation that does not run into a storage failure. -/
def Op.perform (x : Choice) (w : World) : (o : Op) → Option (o.Res × World)
  | findTable db schema table => some (w.catalog.findTable db schema table, w)
  | findStream db schema name => some (w.catalog.findStream db schema name, w)
  | authorizeStreamRead security db schema stream =>
    some (w.catalog.authorizeStreamRead security db schema stream, w)
  | listDatabases => some (.ok w.catalog.listDatabases, w)
  | listSchemas dbId => some (.ok (w.catalog.listSchemas dbId), w)
  | listTables dbId schemaId => some (.ok (w.catalog.listTables dbId schemaId), w)
  | scanTableMps t => some (.ok (w.scanTableMps t), w)
  | getMp id => some (.ok (w.mps id), w)
  | setMp id mp => some (.ok (), { w with mps := Function.update w.mps id (some mp) })
  | incrementTableVersion t =>
    some (.ok (w.tableVersion t + 1),
      { w with tableVersion := Function.update w.tableVersion t (w.tableVersion t + 1) })
  | nextTxnId => some (.ok (w.nextTxn + 1), { w with nextTxn := w.nextTxn + 1 })
  | setTxn txn => some (.ok (), { w with txns := Function.update w.txns txn.txnId (some txn) })
  | allocateTableChangeSequences t count =>
    match w.allocateTableChangeSequences t count with
    | .ok (first, w') => some (.ok first, w')
    | .error e => some (.error e, w)
  | commitTableCdc txnId newMps superseded records =>
    match w.commitTableCdc x.now txnId newMps superseded records with
    | .ok w' => some (.ok (), w')
    | .error e => some (.error e, w)
  | getTableChangeSequence t => some (.ok (w.tableChangeSequence t), w)
  | getChangeRecords t after through =>
    if through ≤ after then some (.ok [], w)
    else match checkedAdd through 1 with
      | .error e => some (.error e, w)
      | .ok _ => some (.ok (((w.changeRecordsBetween t after through).take x.scanned).insertionSort
          fun a b => a.sequence ≤ b.sequence), w)
  | getStreamOffset s => some (.ok (w.streamOffsets s), w)
  | compareAndSetStreamOffset s expected new =>
    match w.compareAndSetStreamOffset s expected new with
    | .ok w' => some (.ok (), w')
    | .error e => some (.error e, w)
  | putFile path batches =>
    some (.ok (), { w with files := Function.update w.files path (some (pq.mp batches)) })
  | getFile path =>
    match w.files path with
    | some batches => some (.ok batches, w)
    | none => some (.error (.objectStoreError "object not found"), w)
  | putPayload path batch =>
    some (.ok (), { w with payloads := Function.update w.payloads path (some (pq.cdc batch)) })
  | getPayload path =>
    match w.payloads path with
    | some batches => some (.ok batches, w)
    | none => some (.error (.objectStoreError "object not found"), w)
  | runQuery _ _ _ => some (.ok (x.columns, x.rows), w)
  | generateId =>
    if x.id ∈ w.issued then none
    else some (.ok x.id, { w with issued := x.id :: w.issued })
  | nowMicros => some (.ok x.now, w)

/-- The result and effect of an operation under the choices `x`. -/
def Op.apply (w : World) (o : Op) (x : Choice) : Option (o.Res × World) :=
  match x.failure, o.remote with
  | some e, true => some (.error e, w)
  | _, _ => o.perform pq x w

/-- `Step pq w o r w'` : in world `w` the operation `o` can return `r` and leave world `w'`. -/
def Step (w : World) (o : Op) (r : o.Res) (w' : World) : Prop :=
  ∃ x, o.apply pq w x = some (r, w')

/-! ### Effects -/

/-- The event changed the world. -/
def mutates : Event Op Op.Res → Bool
  | ⟨.setMp _ _, .ok _⟩ => true
  | ⟨.incrementTableVersion _, .ok _⟩ => true
  | ⟨.nextTxnId, .ok _⟩ => true
  | ⟨.setTxn _, .ok _⟩ => true
  | ⟨.allocateTableChangeSequences _ _, .ok _⟩ => true
  | ⟨.commitTableCdc _ _ _ _, .ok _⟩ => true
  | ⟨.compareAndSetStreamOffset _ _ _, .ok _⟩ => true
  | ⟨.putFile _ _, .ok _⟩ => true
  | ⟨.putPayload _ _, .ok _⟩ => true
  | ⟨.generateId, .ok _⟩ => true
  | _ => false

/-- What an event does to the world. -/
inductive Effect (w : World) : Event Op Op.Res → World → Prop
  | quiet {e : Event Op Op.Res} (he : mutates e = false) : Effect w e w
  | setMp (id : MpId) (mp : MicroPartitionMeta) :
      Effect w ⟨.setMp id mp, .ok ()⟩ { w with mps := Function.update w.mps id (some mp) }
  | incrementTableVersion (t : TableId) :
      Effect w ⟨.incrementTableVersion t, .ok (w.tableVersion t + 1)⟩
        { w with tableVersion := Function.update w.tableVersion t (w.tableVersion t + 1) }
  | nextTxnId : Effect w ⟨.nextTxnId, .ok (w.nextTxn + 1)⟩ { w with nextTxn := w.nextTxn + 1 }
  | setTxn (txn : TransactionMeta) :
      Effect w ⟨.setTxn txn, .ok ()⟩
        { w with txns := Function.update w.txns txn.txnId (some txn) }
  | allocate {t : TableId} {count first : ℕ} {w' : World}
      (h : w.allocateTableChangeSequences t count = .ok (first, w')) :
      Effect w ⟨.allocateTableChangeSequences t count, .ok first⟩ w'
  | commit {now : Timestamp} {txnId : TxnId} {newMps : List MicroPartitionMeta}
      {superseded : List (MpId × MpId)} {records : List ChangeRecordMeta} {w' : World}
      (h : w.commitTableCdc now txnId newMps superseded records = .ok w') :
      Effect w ⟨.commitTableCdc txnId newMps superseded records, .ok ()⟩ w'
  | compareAndSet {s : StreamId} {expected : ℕ} {new : StreamOffset} {w' : World}
      (h : w.compareAndSetStreamOffset s expected new = .ok w') :
      Effect w ⟨.compareAndSetStreamOffset s expected new, .ok ()⟩ w'
  | putFile (path : MpPath) (batches : List RecordBatch) :
      Effect w ⟨.putFile path batches, .ok ()⟩
        { w with files := Function.update w.files path (some (pq.mp batches)) }
  | putPayload (path : CdcPath) (batch : CdcBatch) :
      Effect w ⟨.putPayload path batch, .ok ()⟩
        { w with payloads := Function.update w.payloads path (some (pq.cdc batch)) }
  | generateId {id : ℕ} (h : id ∉ w.issued) :
      Effect w ⟨.generateId, .ok id⟩ { w with issued := id :: w.issued }

variable {pq} {w w' : World} {o : Op} {r : o.Res}

/-- The two ways an operation can go. -/
theorem step_iff : Step pq w o r w' ↔
    (o.remote = true ∧ (∃ e, r = .error e) ∧ w' = w) ∨ ∃ x, o.perform pq x w = some (r, w') := by
  constructor
  · rintro ⟨x, hx⟩
    unfold Op.apply at hx
    split at hx
    · next e _ hr =>
      cases hx
      exact .inl ⟨hr, ⟨e, rfl⟩, rfl⟩
    · exact .inr ⟨x, hx⟩
  · rintro (⟨hr, ⟨e, rfl⟩, rfl⟩ | ⟨x, hx⟩)
    · exact ⟨{ failure := some e }, by simp [Op.apply, hr]⟩
    · refine ⟨{ x with failure := none }, ?_⟩
      rw [← hx]
      cases o <;> rfl

/-- **The operations that change the world**, and how; every other event leaves it alone. -/
theorem step_effect (h : Step pq w o r w') : Effect pq w ⟨o, r⟩ w' := by
  rcases step_iff.1 h with ⟨-, ⟨e, rfl⟩, rfl⟩ | ⟨x, hx⟩
  · cases o <;> exact .quiet rfl
  · cases o <;> simp only [Op.perform] at hx
    case allocateTableChangeSequences t count =>
      split at hx
      · next heq =>
        cases hx
        exact .allocate heq
      · cases hx
        exact .quiet rfl
    case commitTableCdc txnId newMps superseded records =>
      split at hx
      · next heq =>
        cases hx
        exact .commit heq
      · cases hx
        exact .quiet rfl
    case compareAndSetStreamOffset s expected new =>
      split at hx
      · next heq =>
        cases hx
        exact .compareAndSet heq
      · cases hx
        exact .quiet rfl
    case generateId =>
      split_ifs at hx with hid
      cases hx
      exact .generateId hid
    case getChangeRecords t after through =>
      split_ifs at hx
      · cases hx
        exact .quiet rfl
      · split at hx <;> cases hx <;> exact .quiet rfl
    case getFile path => split at hx <;> cases hx <;> exact .quiet rfl
    case getPayload path => split at hx <;> cases hx <;> exact .quiet rfl
    case setMp id mp => cases hx; exact .setMp id mp
    case incrementTableVersion t => cases hx; exact .incrementTableVersion t
    case nextTxnId => cases hx; exact .nextTxnId
    case setTxn txn => cases hx; exact .setTxn txn
    case putFile path batches => cases hx; exact .putFile path batches
    case putPayload path batch => cases hx; exact .putPayload path batch
    all_goals
      cases hx
      exact .quiet rfl

theorem step_ok {a : o.Ret} (h : Step pq w o (.ok a) w') :
    ∃ x, o.perform pq x w = some (.ok a, w') := by
  rcases step_iff.1 h with ⟨-, ⟨e, he⟩, -⟩ | hx
  · cases he
  · exact hx

/-- A commit notes the time, so its result does not determine the world after it. -/
def Op.isCommit : Op → Bool
  | commitTableCdc .. => true
  | _ => false

theorem step_unique {w1 w2 : World} (ho : o.isCommit = false) (h1 : Step pq w o r w1)
    (h2 : Step pq w o r w2) : w1 = w2 := by
  cases step_effect h1 with
  | quiet he =>
    cases step_effect h2 with
    | quiet => rfl
    | _ => cases he
  | commit => cases ho
  | allocate h =>
    cases step_effect h2 with
    | quiet he => cases he
    | allocate h' => exact (Prod.ext_iff.1 (Except.ok.inj (h.symm.trans h'))).2
  | compareAndSet h =>
    cases step_effect h2 with
    | quiet he => cases he
    | compareAndSet h' => exact Except.ok.inj (h.symm.trans h')
  | _ =>
    cases step_effect h2 with
    | quiet he => cases he
    | _ => rfl

/-- An operation that fails leaves the world as it was. -/
theorem step_error {e : NovaError} (h : Step pq w o (.error e) w') : w' = w := by
  cases step_effect h with
  | quiet _ => rfl

/-- The operation only reads. -/
def Op.Reads (o : Op) : Prop := ∀ r : o.Res, mutates ⟨o, r⟩ = false

theorem Op.Reads.eq (ho : o.Reads) (hs : Step pq w o r w') : w' = w := by
  have hquiet := ho r
  cases step_effect hs with
  | quiet _ => rfl
  | _ => cases hquiet

/-- A program that only reads leaves the world as it was. -/
theorem Exec.eq_of_reads {α : Type} {p : Prog Op Op.Res α} {a : α} (he : Exec (Step pq) w p a w')
    (hp : p.Issues Op.Reads) : w' = w :=
  he.issues (J := (· = w)) hp rfl fun _ _ _ _ hw hreads hs => (hreads.eq hs).trans hw

/-- A remote operation can fail. -/
theorem exec_await_error (ho : o.remote = true) (e : NovaError) :
    Exec (Step pq) w (await o).run (.error e) w :=
  Exec.op (step_iff.2 (.inl ⟨ho, ⟨e, rfl⟩, rfl⟩)) Exec.ret

theorem step_catalog (h : Step pq w o r w') : w'.catalog = w.catalog := by
  cases step_effect h with
  | compareAndSet h =>
    obtain ⟨-, -, -, rfl⟩ := compareAndSet_eq_ok h
    rfl
  | allocate h =>
    obtain ⟨-, -, rfl⟩ := allocate_eq_ok h
    rfl
  | commit h => exact (commitTableCdc_eq_ok h).catalog
  | _ => rfl

/-- Identifiers that were given out stay given out. -/
theorem step_issued (h : Step pq w o r w') {n : ℕ} (hn : n ∈ w.issued) : n ∈ w'.issued := by
  cases step_effect h with
  | compareAndSet h =>
    obtain ⟨-, -, -, rfl⟩ := compareAndSet_eq_ok h
    exact hn
  | allocate h =>
    obtain ⟨-, -, rfl⟩ := allocate_eq_ok h
    exact hn
  | commit h => exact (commitTableCdc_eq_ok h).issued ▸ hn
  | generateId _ => exact List.mem_cons_of_mem _ hn
  | _ => exact hn

/-- The operations never change the catalogue. -/
theorem run_catalog {ι : Type} [DecidableEq ι] {ρ : ι → Type} {c0 c : Config ι Op Op.Res World ρ}
    {h : History ι Op Op.Res} (hr : Run (Step pq) c0 h c) : c.world.catalog = c0.world.catalog := by
  induction hr with
  | nil => rfl
  | snoc _ _ hst ih => exact (step_catalog hst).trans ih

end NovaCore
