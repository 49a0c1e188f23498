import NovaCore.Dynamic.Incremental

/-!
# The scheduler of dynamic tables

A tick of the scheduler lists the dynamic tables of every database and refreshes those that are due.
ALTER DYNAMIC TABLE refreshes one, or switches its scheduler on or off.  All of them read the whole
record of a dynamic table, change some fields of their copy, and write the whole copy back later; a
refresh does so twice, with the query in between.

The log of a thread (`DtLog`) keeps what it last listed and the refresh of one table that it is in.
With it, `dtProtocol` says which records a thread may write, and the follows-lemmas show that the
programs keep to it.

## Main definitions

* `dynamicTableDueForRefresh`, `tick` : the due check and the scheduler.
* `DtJob` : what may run at the same time.
* `dtProtocol` : the records that a job may write for one dynamic table.

## Main results

* `DtJob.exec_follows` : every job follows the protocol.
-/

namespace NovaCore

/-! ### The scheduler -/

variable (dt : DynamicTableMeta)

/-- `dynamic_table_uses_source_watermark`. -/
def DynamicTableMeta.usesSourceWatermark : Bool :=
  match dt.refreshMode with
  | .auto | .incremental => true
  | .full => false

/-- `target_lag_seconds.saturating_mul(1_000_000)`. -/
def DynamicTableMeta.lagMicros : ℕ :=
  min (dt.targetLagSeconds * 1000000) u64Max

/-- `dynamic_table_due_for_refresh`. -/
def dynamicTableDueForRefresh (now : Timestamp)
    (sourceBacklogWatermark : Option Timestamp) (usesSourceWatermark : Bool) : Bool :=
  if usesSourceWatermark then
    match dt.lastRefreshTs, sourceBacklogWatermark with
    | none, _ => true
    | some last, some watermark =>
      if last < watermark then decide (dt.lagMicros ≤ now - watermark) else false
    | some _, none => false
  else decide (dt.lagMicros ≤ now - dt.lastRefreshTs.getD 0)

/-- `dynamic_table_source_backlog_watermark`: the latest commit time in the output table. -/
def dynamicTableSourceBacklogWatermark : Meta (Option Timestamp) := do
  let mps ← storage (getActiveMps dt.outputTableId)
  return (mps.map (·.commitTs)).max?

/-- `matches!(status, Running)`. -/
def DtRefreshStatus.isRunning : DtRefreshStatus → Bool
  | .running => true
  | _ => false

/-- The watermark that a tick uses; one that cannot be read counts as none. -/
def tickWatermark : Meta (Option Timestamp) :=
  if dt.usesSourceWatermark then do
    return (← okOrNone (dynamicTableSourceBacklogWatermark dt)).join
  else return none

variable (upper : String → String) (engine : QueryEngine)

/-- Body of the loop of a tick over dynamic tables. -/
def tickTable (dt : DynamicTableMeta) : Meta Unit := do
  if !dt.schedulerEnabled || dt.refreshStatus.isRunning then
    return ()
  let now ← storage (await .nowMicros)
  let watermark ← tickWatermark dt
  if dynamicTableDueForRefresh dt now watermark dt.usesSourceWatermark then
    ignoreResult (execRefreshDynamicTableMeta upper engine dt)

/-- Body of the loop of a tick over databases. -/
def tickDatabase (db : DatabaseMeta) : Meta Unit := do
  match ← okOrNone (ask (.listDynamicTables db.id)) with
  | some dts => dts.forM (tickTable upper engine)
  | none => return ()

/-- `DynamicTableScheduler::tick`. -/
def tick : Meta Unit := do
  match ← okOrNone (storage (await .listDatabases)) with
  | some dbs => dbs.forM (tickDatabase upper engine)
  | none => return ()

/-! ### What may run at the same time -/

/-- A tick of the scheduler, ALTER DYNAMIC TABLE … REFRESH, SUSPEND or RESUME, or a DML
statement. -/
inductive DtJob
  | tick
  | refresh (db name : String)
  | setScheduler (db name : String) (enabled : Bool)
  | dml (stmt : DmlStatement)

/-- The program of a job. -/
def DtJob.exec (fmt : TextFormat) (upper : String → String) (engine : QueryEngine) :
    DtJob → Meta Unit
  | tick => NovaCore.tick upper engine
  | refresh db name => (fun _ => ()) <$> execRefreshDynamicTable upper engine db name
  | setScheduler db name enabled => (fun _ => ()) <$> execSetDtScheduler db name enabled
  | dml stmt => (fun _ => ()) <$> storage (stmt.exec fmt)

/-- The job refreshes dynamic tables. -/
def DtJob.refreshes : DtJob → Bool
  | tick => true
  | refresh .. => true
  | _ => false

/-! ### The log of a thread -/

/-- The operation did not do what it was asked for: it failed, or the engine did. -/
def failing : Event MetaOp MetaOp.Res → Bool
  | ⟨.query (.runSql ..), .ok (.error _)⟩ => true
  | ⟨_, .error _⟩ => true
  | ⟨_, .ok _⟩ => false

/-- What a thread did, as far as one dynamic table is concerned. -/
structure DtLog where
  /-- The dynamic tables that it last listed. -/
  listed : List DynamicTableMeta := []
  /-- The record with which it began the refresh of the dynamic table that it is in. -/
  refreshing : Option DynamicTableMeta := none
  /-- The time, if it just read the clock. -/
  now : Option Timestamp := none
  /-- An operation failed since the refresh began. -/
  failed : Bool := false

/-- A refresh begins when its first write succeeds, and ends with its second one. -/
def DtLog.wrote (s : DtLog) (dt : DynamicTableMeta) (r : Except NovaError Unit) : DtLog :=
  match s.refreshing, r with
  | some _, _ => { s with refreshing := none, now := none }
  | none, .ok _ => { s with refreshing := some dt, now := none, failed := false }
  | none, .error _ => { s with now := none }

variable (job : DtJob)

/-- The log after one more operation, with respect to dynamic table `d`. -/
def DtLog.record (d : TableId) (s : DtLog) (o : MetaOp) (r : o.Res) : DtLog :=
  match o, r with
  | .query (.listDynamicTables _), .ok dts => { s with listed := dts, now := none }
  | .storage .nowMicros, .ok now => { s with now := some now }
  -- the clock does not fail; a refresh without it would end here
  | .storage .nowMicros, .error _ => { s with refreshing := none, now := none }
  | .txn (.setDynamicTable dt), r =>
    if job.refreshes = true ∧ dt.id = d then s.wrote dt r else { s with now := none }
  | o, r => { s with now := none, failed := s.failed || failing ⟨o, r⟩ }

/-- The records that a job may write for dynamic table `d`: the one it listed with other fields, and
at the end of a refresh the one that began it. -/
def DtLog.MayWrite (s : DtLog) (dt : DynamicTableMeta) : Prop :=
  match job with
  | .setScheduler _ _ enabled => ∃ old ∈ s.listed, dt = { old with schedulerEnabled := enabled }
  | .dml _ => False
  | .tick | .refresh .. => match s.refreshing with
    | none => ∃ old ∈ s.listed, dt = { old with refreshStatus := .running }
    | some old => ∃ now, s.now = some now ∧
      (dt = { old with refreshStatus := .success, lastRefreshTs := some now } ∨
        s.failed = true ∧ ∃ e, dt =
          { old with refreshStatus := .failed e, lastRefreshTs := some now })

/-- The writes of a job, with respect to dynamic table `d`. -/
def dtProtocol (d : TableId) : Protocol MetaOp MetaOp.Res DtLog where
  record := DtLog.record job d
  Allowed s
    | .query _ => True
    | .storage _ => True
    | .txn (.insertMp _) => True
    | .txn (.setDynamicTable dt) => dt.id = d → s.MayWrite job dt
    | .txn _ => False

/-! ### Operations that leave the log -/

/-- The operation is neither a read or write of dynamic tables nor of the clock. -/
def Quiet : MetaOp → Prop
  | .query (.listDynamicTables _) => False
  | .query _ => True
  | .storage .nowMicros => False
  | .storage _ => True
  | .txn (.insertMp _) => True
  | .txn _ => False

/-- The log changed only in what it says about the clock and about failures. -/
structure DtLog.Same (s s' : DtLog) : Prop where
  listed : s'.listed = s.listed
  refreshing : s'.refreshing = s.refreshing

variable {o : MetaOp}

section Follows

open Prog Follows Bool DtLog

variable {job : DtJob} {d : TableId} {s s' s'' : DtLog} {α β : Type}

theorem DtLog.Same.refl (s : DtLog) : s.Same s := ⟨rfl, rfl⟩

theorem DtLog.Same.trans (h : s.Same s') (h' : s'.Same s'') : s.Same s'' :=
  ⟨h'.listed.trans h.listed, h'.refreshing.trans h.refreshing⟩

theorem Quiet.allowed (ho : Quiet o) : (dtProtocol job d).Allowed s o := by
  cases o with
  | query q | storage o => trivial
  | txn t => cases t <;> trivial

theorem Quiet.record (ho : Quiet o) (r : o.Res) : (dtProtocol job d).record s o r =
      { s with now := none, failed := s.failed || failing ⟨o, r⟩ } := by
  change DtLog.record job d s o r = _
  unfold DtLog.record
  split
  · cases ho
  · cases ho
  · cases ho
  · cases ho
  · rfl

theorem Quiet.same (ho : Quiet o) (r : o.Res) : s.Same ((dtProtocol job d).record s o r) := by
  rw [ho.record]
  exact ⟨rfl, rfl⟩

/-- A program of quiet operations that only fails after one of them failed. -/
def QuietProg (job : DtJob) (d : TableId) (p : Meta α) : Prop :=
  ∀ s, FollowsE (dtProtocol job d) (fun s' _ => s.Same s')
    (fun s' => s.Same s' ∧ s'.failed = true) p s

theorem quiet_pure (a : α) : QuietProg job d (pure a) := fun s => followsE_pure (.refl s)

variable {p : Meta α}

theorem quiet_bind {f : α → Meta β} (hp : QuietProg job d p) (hf : ∀ a, QuietProg job d (f a)) :
    QuietProg job d (p >>= f) := by
  intro s
  refine followsE_bind (hp s) fun s1 a hs => ?_
  refine mono (hf a s1) fun s2 r hr => ?_
  cases r with
  | ok b => exact hs.trans hr
  | error e => exact ⟨hs.trans hr.1, hr.2⟩

theorem quiet_call (ho : Quiet o) : QuietProg job d (call o : Meta o.Ret) := by
  refine fun s => followsE_call ho.allowed (fun a => ho.same _) fun e => ⟨ho.same _, ?_⟩
  rw [ho.record]
  cases o with
  | query q => cases q <;> simp [failing]
  | storage o | txn t => simp [failing]

theorem quiet_forM {xs : List β} {f : β → Meta PUnit} (hf : ∀ x, QuietProg job d (f x)) :
    QuietProg job d (xs.forM f) := by
  induction xs with
  | nil => exact quiet_pure _
  | cons x xs ih => exact quiet_bind (hf x) fun _ => ih

/-- A program of quiet operations. -/
theorem follows_of_issues {p : Prog MetaOp MetaOp.Res α} (hp : p.Issues Quiet) (s : DtLog) :
    p.Follows (dtProtocol job d) (fun s' _ => s.Same s') s := by
  induction p generalizing s with
  | ret a => exact .refl s
  | op o k ih =>
    refine ⟨hp.1.allowed, fun r => ?_⟩
    exact mono (ih r (hp.2 r) _) fun _ _ h => (hp.1.same r).trans h

theorem quiet_okOrNone (hp : QuietProg job d p) : QuietProg job d (okOrNone p) := by
  refine fun s => bind (hp s) fun s' r hr => ?_
  cases r with
  | ok a => exact hr
  | error e => exact hr.1

theorem quiet_ignoreResult (hp : p.run.Issues Quiet) : QuietProg job d (ignoreResult p) :=
  fun s => bind (follows_of_issues hp s) fun _ _ h => h

/-- Whether a storage operation failed. -/
def failedProtocol : Protocol Op Op.Res Bool where
  record b _ r := b || !r.isOk
  Allowed _ o := o ≠ .nowMicros

/-- A storage program that only fails after an operation failed. -/
def FailsOnly (p : Nova α) : Prop :=
  ∀ b, FollowsE failedProtocol (fun _ _ => True) (fun b => b = true) p b

theorem failsOnly_await {o : Op} (ho : o ≠ .nowMicros) : FailsOnly (await o) :=
  fun _ => followsE_call ho (fun _ => trivial) fun _ => or_true _

theorem failsOnly_bind {p : Nova α} {f : α → Nova β} (hp : FailsOnly p)
    (hf : ∀ a, FailsOnly (f a)) : FailsOnly (p >>= f) :=
  fun b => followsE_bind (hp b) fun b' a _ => hf a b'

theorem failsOnly_pure (a : α) : FailsOnly (pure a) := fun _ => followsE_pure trivial

theorem failsOnly_getActiveMps (t : TableId) : FailsOnly (getActiveMps t) := by
  refine failsOnly_bind (failsOnly_await (by simp)) fun ids b => ?_
  refine followsE_foldlM (fun _ _ _ => True) (fun _ id _ acc b _ _ => ?_) trivial
  exact failsOnly_bind (failsOnly_await (by simp)) (fun _ => failsOnly_pure _) b

theorem Quiet.of_storage {o : Op} (ho : o ≠ .nowMicros) : Quiet (.storage o) := by
  cases o <;> trivial

theorem quiet_storage {p : Nova α} (hp : FailsOnly p) : QuietProg job d (storage p) := by
  intro s
  have hrel : ∀ (b : Bool) (s' : DtLog) (o : Op),
      s.Same s' ∧ (b = true → s'.failed = true) → failedProtocol.Allowed b o →
      (dtProtocol job d).Allowed s' (.storage o) ∧ ∀ r : o.Res,
        s.Same ((dtProtocol job d).record s' (.storage o) r) ∧ (failedProtocol.record b o r = true →
            ((dtProtocol job d).record s' (.storage o) r).failed = true) := by
    rintro b s' o ⟨hsame, hfailed⟩ ho
    have hquiet := Quiet.of_storage ho
    refine ⟨hquiet.allowed, fun r => ⟨hsame.trans (hquiet.same _), fun hb => ?_⟩⟩
    rw [hquiet.record]
    rcases or_eq_true_iff.1 hb with hb | hr
    · exact or_eq_true_iff.2 (.inl (hfailed hb))
    · cases r with
      | ok a => cases hr
      | error e => exact or_eq_true_iff.2 (.inr rfl)
  refine mono (embed _ hrel (hp false) ⟨.refl s, Bool.noConfusion⟩) ?_
  rintro s' r ⟨b, ⟨hsame, hfailed⟩, hr⟩
  cases r with
  | ok a => exact hsame
  | error e => exact ⟨hsame, hfailed hr⟩

/-! ### The refreshes -/

theorem storage_issues_quiet {p : Nova α} (hp : p.run.Issues (· ≠ .nowMicros)) :
    (storage p).run.Issues Quiet :=
  hp.embed_of fun _ => Quiet.of_storage

theorem quiet_orEmpty {p : Nova (List α)} (hp : FailsOnly p) :
    QuietProg job d (orEmpty (storage p)) :=
  quiet_bind (quiet_okOrNone (quiet_storage hp)) fun _ => quiet_pure _

theorem quiet_foldlM {γ : Type} {xs : List β} {f : γ → β → Meta γ} {acc : γ}
    (hf : ∀ acc x, QuietProg job d (f acc x)) : QuietProg job d (xs.foldlM f acc) := by
  induction xs generalizing acc with
  | nil => exact quiet_pure _
  | cons x xs ih => exact quiet_bind (hf acc x) fun _ => ih

theorem quiet_registerTables (keep : MicroPartitionMeta → Bool) :
    QuietProg job d (registerTables keep) := by
  refine quiet_bind (quiet_orEmpty (failsOnly_await (by simp))) fun _ => quiet_foldlM fun _ _ => ?_
  refine quiet_bind (quiet_orEmpty (failsOnly_await (by simp))) fun _ => quiet_foldlM fun _ _ => ?_
  refine quiet_bind (quiet_orEmpty (failsOnly_await (by simp))) fun _ => quiet_foldlM fun _ _ => ?_
  exact quiet_bind (quiet_orEmpty (failsOnly_getActiveMps _)) fun _ => quiet_pure _

/-- The only error that no operation returns is the one of the engine, which the log counts. -/
theorem quiet_runSql {engine : QueryEngine} {tables : List Registration} {sql : String} :
    QuietProg job d (runSql engine tables sql) := by
  refine fun s => ⟨trivial, fun r => ?_⟩
  cases r with
  | error e => exact ⟨⟨rfl, rfl⟩, or_true _⟩
  | ok answer => cases answer with
    | ok batches => exact ⟨rfl, rfl⟩
    | error message => exact ⟨⟨rfl, rfl⟩, or_true _⟩

theorem quiet_writeOutputBatch {out : TableId} (batch : RecordBatch) :
    QuietProg job d (writeOutputBatch out batch) := by
  refine quiet_bind (quiet_storage ?_) fun mp => quiet_call trivial
  unfold MpWriter.write
  exact failsOnly_bind (failsOnly_await (by simp)) fun _ => failsOnly_pure _

theorem quiet_supersedeOld (newMps : List MicroPartitionMeta) (old : MicroPartitionMeta) :
    QuietProg job d (supersedeOld newMps old) := by
  unfold supersedeOld
  split
  · refine quiet_ignoreResult
      (storage_issues_quiet (issuesE_bind (issuesE_call (by simp)) fun mp => ?_))
    cases mp with
    | none => exact issuesE_throw
    | some mp => exact issuesE_call (by simp)
  · exact quiet_pure _

variable (upper : String → String) (engine : QueryEngine)

/-- **A refresh** leaves the log of its thread, and fails only if one of its operations did. -/
theorem quiet_refresh (dt : DynamicTableMeta) : QuietProg job d (dt.refresh upper engine) := by
  have hactive : ∀ t, QuietProg job d (storage (getActiveMps t)) := fun t =>
    quiet_storage (failsOnly_getActiveMps t)
  unfold DynamicTableMeta.refresh execRefreshDynamicTableById
  split_ifs
  · refine quiet_bind (quiet_okOrNone (quiet_storage (failsOnly_await (by simp)))) fun _ => ?_
    refine quiet_bind (quiet_registerTables _) fun tables => ?_
    split_ifs
    · exact quiet_pure _
    · refine quiet_bind quiet_runSql fun batches => ?_
      exact quiet_bind (quiet_forM quiet_writeOutputBatch) fun _ => quiet_pure _
  · refine quiet_bind (quiet_registerTables _) fun tables => ?_
    refine quiet_bind quiet_runSql fun batches => ?_
    refine quiet_bind (quiet_forM quiet_writeOutputBatch) fun _ => ?_
    refine quiet_bind (hactive _) fun oldMps => quiet_bind (hactive _) fun newMps => ?_
    exact quiet_bind (quiet_forM (quiet_supersedeOld newMps)) fun _ => quiet_pure _

/-! ### A refresh with the writes around it -/

/-- The thread is in a refresh that began with the record, if it is one of dynamic table `d`. -/
structure DtLog.InRefresh (d : TableId) (l : List DynamicTableMeta) (dt : DynamicTableMeta)
    (s : DtLog) : Prop where
  listed : s.listed = l
  refreshing : s.refreshing = if dt.id = d then some dt else none

/-- The thread is in no refresh of dynamic table `d`. -/
structure DtLog.Idle (l : List DynamicTableMeta) (s : DtLog) : Prop where
  listed : s.listed = l
  refreshing : s.refreshing = none

variable {l : List DynamicTableMeta} {dt : DynamicTableMeta}

theorem DtLog.InRefresh.same (h : s.InRefresh d l dt) (hs : s.Same s') : s'.InRefresh d l dt :=
  ⟨hs.listed.trans h.listed, hs.refreshing.trans h.refreshing⟩

theorem DtLog.Idle.same (h : s.Idle l) (hs : s.Same s') : s'.Idle l :=
  ⟨hs.listed.trans h.listed, hs.refreshing.trans h.refreshing⟩

/-- All refreshes write what a tick may write. -/
theorem mayWrite_of_refreshes (hjob : job.refreshes = true) :
    s.MayWrite job dt ↔ s.MayWrite .tick dt := by
  cases job with
  | tick | refresh db name => rfl
  | setScheduler db name enabled | dml stmt => cases hjob

theorem mayWrite_begin (hjob : job.refreshes = true) (hs : s.Idle l) (hdt : dt ∈ l) :
    s.MayWrite job { dt with refreshStatus := .running } := by
  rw [mayWrite_of_refreshes hjob, DtLog.MayWrite, hs.refreshing]
  exact ⟨dt, hs.listed ▸ hdt, rfl⟩

theorem record_setDynamicTable (job : DtJob) (d : TableId) (s : DtLog)
    (dt : DynamicTableMeta) (r : Except NovaError Unit) :
    (dtProtocol job d).record s (.txn (.setDynamicTable dt)) r =
      if job.refreshes = true ∧ dt.id = d then s.wrote dt r else { s with now := none } := by
  cases r <;> rfl

theorem DtLog.wrote_ok (h : s.refreshing = none) (a : Unit) : s.wrote dt (.ok a) =
    { s with refreshing := some dt, now := none, failed := false } := by
  unfold wrote
  rw [h]

theorem DtLog.wrote_error (h : s.refreshing = none) (e : NovaError) :
    s.wrote dt (.error e) = { s with now := none } := by
  unfold wrote
  rw [h]

theorem DtLog.wrote_end {old : DynamicTableMeta} (h : s.refreshing = some old)
    (r : Except NovaError Unit) : s.wrote dt r = { s with refreshing := none, now := none } := by
  unfold wrote
  rw [h]

theorem begin_follows (hjob : job.refreshes = true) (hs : s.Idle l) (hdt : dt ∈ l) :
    FollowsE (dtProtocol job d)
      (fun s' _ => s'.InRefresh d l { dt with refreshStatus := .running }) (fun s' => s'.Idle l)
      (updateDynamicTable { dt with refreshStatus := .running }) s := by
  refine followsE_call (fun _ => mayWrite_begin hjob hs hdt) (fun a => ?_) fun e => ?_
  · rw [record_setDynamicTable]
    by_cases hd : dt.id = d
    · rw [if_pos ⟨hjob, hd⟩, wrote_ok hs.refreshing]
      exact ⟨hs.listed, (if_pos hd).symm⟩
    · rw [if_neg fun h => hd h.2]
      exact ⟨hs.listed, hs.refreshing.trans (if_neg hd).symm⟩
  · rw [record_setDynamicTable]
    split_ifs
    · rw [wrote_error hs.refreshing]
      exact ⟨hs.listed, hs.refreshing⟩
    · exact ⟨hs.listed, hs.refreshing⟩

/-- The last write of a refresh, which ended with `r`. -/
theorem end_follows {r : Except NovaError ℕ} {now : Timestamp} (hjob : job.refreshes = true)
    (hs : s.InRefresh d l dt) (hnow : s.now = some now) (hr : ∀ e, r = .error e → s.failed = true) :
    FollowsE (dtProtocol job d) (fun s' _ => s'.Idle l) (fun s' => s'.Idle l)
      (updateDynamicTable { dt with refreshStatus := .ofResult r, lastRefreshTs := some now })
        s := by
  have hidle : ∀ res : Except NovaError Unit, ((dtProtocol job d).record s (.txn (.setDynamicTable
      { dt with refreshStatus := .ofResult r, lastRefreshTs := some now })) res).Idle l := by
    intro res
    rw [record_setDynamicTable]
    by_cases hd : dt.id = d
    · rw [if_pos ⟨hjob, hd⟩, wrote_end (hs.refreshing.trans (if_pos hd))]
      exact ⟨hs.listed, rfl⟩
    · rw [if_neg fun h => hd h.2]
      exact ⟨hs.listed, hs.refreshing.trans (if_neg hd)⟩
  refine followsE_call (fun hd => ?_) (fun a => hidle _) fun e => hidle _
  rw [mayWrite_of_refreshes hjob, DtLog.MayWrite, hs.refreshing.trans (if_pos hd)]
  refine ⟨now, hnow, ?_⟩
  cases r with
  | ok n => exact .inl rfl
  | error e => exact .inr ⟨hr e rfl, e, rfl⟩

/-- Reading the clock in a refresh. -/
theorem now_follows (hs : s.InRefresh d l dt) : FollowsE (dtProtocol job d)
      (fun s' now => s'.InRefresh d l dt ∧ s'.now = some now ∧ s'.failed = s.failed)
      (fun s' => s'.Idle l) (storage (await .nowMicros)) s := by
  refine ⟨trivial, fun r => ?_⟩
  cases r with
  | ok now => exact ⟨⟨hs.listed, hs.refreshing⟩, rfl, rfl⟩
  | error e => exact ⟨hs.listed, rfl⟩

theorem attempt_follows (hp : QuietProg job d p) (hs : s.InRefresh d l dt) {E : DtLog → Prop} :
    FollowsE (dtProtocol job d)
      (fun s' r => s'.InRefresh d l dt ∧ ∀ e, r = .error e → s'.failed = true) E (attempt p) s := by
  refine bind (hp s) fun s' r hr => ?_
  cases r with
  | ok a => exact ⟨hs.same hr, nofun⟩
  | error e => exact ⟨hs.same hr.1, fun _ _ => hr.2⟩

/-- **A refresh by the scheduler** ends with the log as it was, however it ends. -/
theorem execRefreshDynamicTableMeta_follows
    (hjob : job.refreshes = true) (hs : s.Idle l) (hdt : dt ∈ l) :
    FollowsE (dtProtocol job d) (fun s' _ => s'.Idle l) (fun s' => s'.Idle l)
      (execRefreshDynamicTableMeta upper engine dt) s := by
  have hbegin : FollowsE (dtProtocol job d) (fun s' started =>
      started = { dt with refreshStatus := .running } ∧ s'.InRefresh d l started)
      (fun s' => s'.Idle l) (beginDynamicTableRefresh dt) s :=
    followsE_bind (begin_follows hjob hs hdt) fun _ _ h => followsE_pure ⟨rfl, h⟩
  refine followsE_bind hbegin fun s1 started ⟨_, h1⟩ => ?_
  refine followsE_bind (attempt_follows (quiet_refresh upper engine started) h1)
    fun s2 r ⟨h2, hfailed⟩ => ?_
  cases r with
  | ok rows =>
    refine followsE_bind ?_ fun _ _ h => followsE_pure h
    refine followsE_bind (now_follows h2) fun s3 now ⟨h3, hnow, hf⟩ => ?_
    exact end_follows (r := .ok rows) hjob h3 hnow nofun
  | error e =>
    refine followsE_bind (now_follows h2) fun s3 now ⟨h3, hnow, hf⟩ => ?_
    refine followsE_bind (end_follows (r := .error e) hjob h3 hnow ?_) fun _ _ h => followsE_throw h
    exact fun e' _ => hf.trans (hfailed e rfl)

/-! ### The jobs -/

variable (db name : String)

theorem findDynamicTableInDb_follows (hs : s.refreshing = none) :
    FollowsE (dtProtocol job d) (fun s' dt => dt ∈ s'.listed ∧ s'.refreshing = none)
      (fun _ => True) (findDynamicTableInDb db name) s := by
  have hdb : (findDatabase db).run.Issues Quiet := by
    refine issuesE_bind (storage_issues_quiet (issuesE_call (by simp))) fun dbs => ?_
    split
    · exact issuesE_pure
    · exact issuesE_throw
  refine followsE_bind (Q := fun s' _ => s'.refreshing = none) ?_ fun s1 dbMeta h1 => ?_
  · refine mono (follows_of_issues hdb s) fun s' r h => ?_
    cases r with
    | ok a => exact h.refreshing.trans hs
    | error e => trivial
  · refine followsE_bind (Q := fun s' dts => s'.listed = dts ∧ s'.refreshing = none)
      (followsE_call trivial (fun dts => ⟨rfl, h1⟩) fun _ => trivial) fun s2 dts ⟨hdts, h2⟩ => ?_
    split
    · next dt hdt => exact followsE_pure ⟨hdts ▸ List.mem_of_find?_eq_some hdt, h2⟩
    · exact followsE_throw trivial

theorem execRefreshDynamicTable_follows (hjob : job.refreshes = true) (hs : s.refreshing = none) :
    Obeys (dtProtocol job d) (execRefreshDynamicTable upper engine db name) s := by
  refine followsE_bind (findDynamicTableInDb_follows db name hs) fun s1 dt ⟨hdt, h1⟩ => ?_
  have hbegin := (begin_follows (d := d) hjob ⟨rfl, h1⟩ hdt).mono_error fun _ _ => trivial
  refine followsE_bind hbegin fun s2 _ h2 => ?_
  refine followsE_bind (attempt_follows (quiet_refresh upper engine _) h2)
    fun s3 r ⟨h3, hfailed⟩ => ?_
  refine followsE_bind ((now_follows h3).mono_error fun _ _ => trivial)
    fun s4 now ⟨h4, hnow, hf⟩ => ?_
  have hend := end_follows hjob h4 hnow fun e he => hf.trans (hfailed e he)
  refine followsE_bind (hend.mono_error fun _ _ => trivial) fun _ _ _ => ?_
  refine followsE_bind (Q := fun _ _ => True) ?_ fun _ _ _ => followsE_pure trivial
  exact followsE_liftExcept (fun _ _ => trivial) fun _ _ => trivial

theorem execSetDtScheduler_follows {enabled : Bool} (hs : s.refreshing = none) :
    Obeys (dtProtocol (.setScheduler db name enabled) d)
      (execSetDtScheduler db name enabled) s := by
  refine followsE_bind (findDynamicTableInDb_follows db name hs) fun s1 dt ⟨hdt, _⟩ => ?_
  refine followsE_bind (Q := fun _ _ => True) ?_ fun _ _ _ => followsE_pure trivial
  exact followsE_call (fun _ => ⟨dt, hdt, rfl⟩) (fun _ => trivial) fun _ => trivial

theorem tickWatermark_follows (hs : s.Idle l) :
    FollowsE (dtProtocol job d) (fun s' _ => s'.Idle l) (fun _ => True) (tickWatermark dt) s := by
  unfold tickWatermark
  split_ifs
  · have hwatermark : QuietProg job d (dynamicTableSourceBacklogWatermark dt) :=
      quiet_bind (quiet_storage (failsOnly_getActiveMps _)) fun _ => quiet_pure _
    have hread := quiet_bind (quiet_okOrNone hwatermark) fun found => quiet_pure found.join
    exact ((hread s).mono fun _ _ h => hs.same h).mono_error fun _ _ => trivial
  · exact followsE_pure hs

theorem tickTable_follows (hjob : job.refreshes = true) (hs : s.Idle l) (hdt : dt ∈ l) :
    FollowsE (dtProtocol job d) (fun s' _ => s'.Idle l) (fun _ => True)
      (tickTable upper engine dt) s := by
  unfold tickTable
  split_ifs
  · exact followsE_pure hs
  · have hnow : FollowsE (dtProtocol job d) (fun s' _ => s'.Idle l) (fun _ => True)
        (storage (await .nowMicros)) s := by
      refine ⟨trivial, fun r => ?_⟩
      cases r with
      | ok now => exact ⟨hs.listed, hs.refreshing⟩
      | error e => trivial
    refine followsE_bind hnow fun s1 now h1 => ?_
    refine followsE_bind (tickWatermark_follows h1) fun s2 watermark h2 => ?_
    split_ifs
    · refine bind (execRefreshDynamicTableMeta_follows upper engine hjob h2 hdt) ?_
      intro s3 r hr
      cases r with
      | ok a | error e => exact hr
    · exact followsE_pure h2

/-- **A tick**: when it comes to a table, the log still has the list that the table is in. -/
theorem tick_follows : Obeys (dtProtocol .tick d) (tick upper engine) {} := by
  have hdb : ∀ (db : DatabaseMeta) (s : DtLog), s.refreshing = none →
      FollowsE (dtProtocol .tick d) (fun s' _ => s'.refreshing = none) (fun _ => True)
        (tickDatabase upper engine db) s := by
    intro db s hs
    have hlist : FollowsE (dtProtocol .tick d)
        (fun s' found => s'.refreshing = none ∧ ∀ dts, found = some dts → s'.listed = dts)
        (fun _ => True) (okOrNone (ask (.listDynamicTables db.id))) s := by
      refine ⟨trivial, fun r => ?_⟩
      cases r with
      | ok dts => exact ⟨hs, fun _ h => Option.some.inj h⟩
      | error e => exact ⟨hs, nofun⟩
    refine followsE_bind hlist fun s1 found ⟨h1, hfound⟩ => ?_
    cases found with
    | none => exact followsE_pure h1
    | some dts =>
      refine FollowsE.mono (followsE_forM (fun s => s.Idle dts) (fun dt hdt s h => ?_)
        ⟨hfound dts rfl, h1⟩) fun _ _ h => h.refreshing
      exact tickTable_follows upper engine rfl h hdt
  have hdbs : QuietProg .tick d (okOrNone (storage (await .listDatabases))) :=
    quiet_okOrNone (quiet_storage (failsOnly_await (by simp)))
  refine followsE_bind ((hdbs {}).mono_error fun _ _ => trivial) fun s1 found h1 => ?_
  cases found with
  | none => exact followsE_pure trivial
  | some dbs =>
    refine FollowsE.mono (followsE_forM (fun s => s.refreshing = none) (fun db _ s h => hdb db s h)
      h1.refreshing) fun _ _ _ => trivial

/-- **Every job follows the protocol.** -/
theorem DtJob.exec_follows (fmt : TextFormat) (upper : String → String) (engine : QueryEngine)
    (job : DtJob) (d : TableId) :
    Obeys (dtProtocol job d) (job.exec fmt upper engine) {} := by
  cases job with
  | tick => exact tick_follows upper engine
  | refresh db name =>
    exact followsE_map (execRefreshDynamicTable_follows upper engine db name rfl rfl)
  | setScheduler db name enabled => exact followsE_map (execSetDtScheduler_follows db name rfl)
  | dml stmt =>
    have hfollows : (storage (stmt.exec fmt)).run.Follows (dtProtocol (.dml stmt) d) _ {} :=
      embed (fun _ _ => True) (fun _ _ _ _ _ => ⟨trivial, fun _ => trivial⟩) follows_free trivial
    refine followsE_map (mono hfollows fun s r _ => ?_)
    cases r <;> trivial

end Follows

end NovaCore
