import NovaCore.Dynamic.Scheduler

/-!
# The states of a dynamic table

Ticks, ALTER DYNAMIC TABLE … REFRESH, SUSPEND and RESUME and DML statements run at the same time.
This module follows the record of one dynamic table `d`:

* `last_refresh_ts` should be the time of the last refresh that succeeded;
* at most one refresh should be executing;
* a SUSPEND should stay in force until a RESUME;
* the due check should see what is new in the source tables.

None of this holds in general.  A failed refresh sets `last_refresh_ts` as well; nothing keeps a
second refresh from starting; a refresh writes back the record it read, with the switch as it was
then; and the due check looks at the output table.  The first three hold in runs whose steps are
`Orderly`.

## Main definitions

* `lastSuccess`, `lastSwitch` : what the history says about refreshes and about the scheduler.
* `Orderly` : refreshes do not fail, start on a table that is not being refreshed, and every
  record that is replaced is the one that the thread has seen.

## Main results

* `DtInv.step` : what one orderly step preserves.
* `refresh_states` : **the state machine of orderly runs, and when the due check is right.**
-/

namespace NovaCore

open DtLog Option Bool

variable {ι : Type} [DecidableEq ι]

/-- The jobs `jobs`, all about to start, over the store `st`. -/
def dtConfig (fmt : TextFormat) (upper : String → String) (engine : QueryEngine) (st : Store)
    (jobs : ι → DtJob) : Config ι MetaOp MetaOp.Res Store fun _ => Except NovaError Unit where
  world := st
  threads i := ((jobs i).exec fmt upper engine).run

variable (jobs : ι → DtJob) (d : TableId) (h : History ι MetaOp MetaOp.Res)

/-- The log of a thread with respect to dynamic table `d`. -/
def dtLogOf (i : ι) : DtLog :=
  (dtProtocol (jobs i) d).logAfter {} (eventsOf i h)

/-- Thread `i` is executing a refresh of dynamic table `d`. -/
def Refreshing (i : ι) : Prop :=
  (dtLogOf jobs d h i).refreshing ≠ none

/-- The time of the refresh of dynamic table `d` that succeeds with this event. -/
def successTime :
    ι × Event MetaOp MetaOp.Res → Option Timestamp
  | (i, ⟨.txn (.setDynamicTable dt), .ok _⟩) =>
    match (dtLogOf jobs d h i).refreshing, dt.refreshStatus with
    | some _, .success => if dt.id = d then (dtLogOf jobs d h i).now else none
    | _, _ => none
  | _ => none

/-- The time of the last refresh of dynamic table `d` that succeeded. -/
def lastSuccess : History ι MetaOp MetaOp.Res → Option Timestamp :=
  lastOf (successTime jobs d)

/-- How SUSPEND or RESUME sets the scheduler of dynamic table `d` with this event. -/
def switchedTo (_ : History ι MetaOp MetaOp.Res) :
    ι × Event MetaOp MetaOp.Res → Option Bool
  | (i, ⟨.txn (.setDynamicTable dt), .ok _⟩) => match jobs i with
    | .setScheduler _ _ enabled => if dt.id = d then some enabled else none
    | _ => none
  | _ => none

/-- How the last SUSPEND or RESUME set the scheduler of dynamic table `d`. -/
def lastSwitch : History ι MetaOp MetaOp.Res → Option Bool :=
  lastOf (switchedTo jobs d)

/-- The record that a thread would replace as far as it has seen: the one it began its refresh with,
or what it listed. -/
def DtLog.Seen (s : DtLog) (d : TableId) (old : DynamicTableMeta) : Prop :=
  match s.refreshing with
  | some dt => old = dt
  | none => old ∈ s.listed ∧ old.id = d

/-- The step does not disturb dynamic table `d`: no operation of a refresh fails, a record is
replaced only by a thread that has seen it, and no refresh begins while the record says that one is
running. -/
structure Orderly (st : Store) (x : ι × Event MetaOp MetaOp.Res) : Prop where
  succeeds : Refreshing jobs d h x.1 → failing x.2 = false
  current : ∀ dt, x.2.1 = .txn (.setDynamicTable dt) → dt.id = d →
    ∀ old, (dtLogOf jobs d h x.1).Seen d old → st.catalog.dynamicTables[d]? = some old
  begins : ∀ dt, x.2.1 = .txn (.setDynamicTable dt) → dt.id = d → (jobs x.1).refreshes = true →
    ¬Refreshing jobs d h x.1 → ∀ old, st.catalog.dynamicTables[d]? = some old →
      old.refreshStatus.isRunning = false

/-- What holds of dynamic table `d` in orderly runs. -/
structure DtInv (st : Store) (dt : DynamicTableMeta) : Prop where
  stored : st.catalog.dynamicTables[d]? = some dt
  lastRefresh : dt.lastRefreshTs = lastSuccess jobs d h
  switched : ∀ enabled, lastSwitch jobs d h = some enabled → dt.schedulerEnabled = enabled
  running : ∀ i, Refreshing jobs d h i → dt.refreshStatus.isRunning = true
  unique : ∀ i j, Refreshing jobs d h i → Refreshing jobs d h j → i = j
  ok : ∀ i, Refreshing jobs d h i → (dtLogOf jobs d h i).failed = false
  refreshes : ∀ i, Refreshing jobs d h i → (jobs i).refreshes = true

/-! ### Steps -/

section Steps

variable {jobs : ι → DtJob} {d : TableId} {h : History ι MetaOp MetaOp.Res} {i j : ι}
  {e : Event MetaOp MetaOp.Res}

theorem dtLogOf_snoc_self : dtLogOf jobs d (h ++ [(i, e)]) i =
    (dtProtocol (jobs i) d).record (dtLogOf jobs d h i) e.1 e.2 := by
  simp [dtLogOf]

theorem dtLogOf_snoc_ne (hij : i ≠ j) : dtLogOf jobs d (h ++ [(i, e)]) j = dtLogOf jobs d h j := by
  rw [dtLogOf, eventsOf_snoc_ne hij, dtLogOf]

/-- The event does not write the record of dynamic table `d`. -/
def NoWrite (d : TableId) (e : Event MetaOp MetaOp.Res) : Prop :=
  ∀ dt, e.1 = .txn (.setDynamicTable dt) → dt.id ≠ d

theorem NoWrite.successTime (he : NoWrite d e) : NovaCore.successTime jobs d h (i, e) = none := by
  unfold NovaCore.successTime
  split
  · next dt r heq =>
    cases heq
    have hid : dt.id ≠ d := he dt rfl
    split
    · exact if_neg hid
    · rfl
  · rfl

omit [DecidableEq ι] in
theorem NoWrite.switchedTo (he : NoWrite d e) : NovaCore.switchedTo jobs d h (i, e) = none := by
  unfold NovaCore.switchedTo
  split
  · next dt r heq =>
    cases heq
    split
    · exact if_neg (he dt rfl)
    · rfl
  · rfl

/-- A thread that is in a refresh after another operation was in it before. -/
theorem NoWrite.record {job : DtJob} {s : DtLog} (he : NoWrite d e)
    (hin : ((dtProtocol job d).record s e.1 e.2).refreshing ≠ none) :
    ((dtProtocol job d).record s e.1 e.2).refreshing = s.refreshing ∧
      (failing e = false → ((dtProtocol job d).record s e.1 e.2).failed = s.failed) := by
  obtain ⟨o, r⟩ := e
  change (record job d s o r).refreshing ≠ none at hin
  change (record job d s o r).refreshing = _ ∧ (_ → (record job d s o r).failed = _)
  unfold record at hin ⊢
  split at hin
  · exact ⟨rfl, fun _ => rfl⟩
  · exact ⟨rfl, fun _ => rfl⟩
  · exact (hin rfl).elim
  · next dt r =>
    have hid : ¬(job.refreshes = true ∧ dt.id = d) := fun h => he dt rfl h.2
    rw [if_neg hid]
    exact ⟨rfl, fun _ => rfl⟩
  · refine ⟨rfl, fun hok => ?_⟩
    simp [hok]

variable {pq : Parquet} {st st' : Store} {s : DtLog} {job : DtJob}

theorem dynamicTables_of_noWrite {o : MetaOp} {r : o.Res} (he : NoWrite d ⟨o, r⟩)
    (hallowed : (dtProtocol job d).Allowed s o) (hs : MetaStep pq st o r st') :
    st'.catalog.dynamicTables[d]? = st.catalog.dynamicTables[d]? := by
  cases metaStep_effect hs with
  | query _ | failed => rfl
  | storage hw => rw [step_catalog hw]
  | @txn t a _ hrun =>
    cases t with
    | insertMp mp =>
      cases hrun
      rfl
    | setDynamicTable dt =>
      cases hrun
      exact getElem?_setDynamicTable.trans (if_neg (he dt rfl).symm)
    | _ => exact hallowed.elim

variable {dt new : DynamicTableMeta} {h' : History ι MetaOp MetaOp.Res}

/-- The record is stored. -/
abbrev DynamicTableMeta.written (dt : DynamicTableMeta) : Event MetaOp MetaOp.Res :=
  ⟨.txn (.setDynamicTable dt), .ok ()⟩

/-- A thread that is in a refresh after `h'` was in it after `h`, and nothing failed in between. -/
def NoneBegun (jobs : ι → DtJob) (d : TableId) (h h' : History ι MetaOp MetaOp.Res) : Prop :=
  ∀ j, Refreshing jobs d h' j → Refreshing jobs d h j ∧
    ((dtLogOf jobs d h j).failed = false → (dtLogOf jobs d h' j).failed = false)

theorem NoneBegun.snoc {s' : DtLog}
    (hlog : (dtProtocol (jobs i) d).record (dtLogOf jobs d h i) e.1 e.2 = s')
    (hself : s'.refreshing ≠ none → Refreshing jobs d h i ∧
      ((dtLogOf jobs d h i).failed = false → s'.failed = false)) :
    NoneBegun jobs d h (h ++ [(i, e)]) := by
  intro j hj
  by_cases hij : i = j
  · subst hij
    rw [Refreshing, dtLogOf_snoc_self, hlog] at hj
    rw [dtLogOf_snoc_self, hlog]
    exact hself hj
  · rw [Refreshing, dtLogOf_snoc_ne hij] at hj
    rw [dtLogOf_snoc_ne hij]
    exact ⟨hj, id⟩

section

variable (hinv : DtInv jobs d h st dt)
include hinv

theorem DtInv.eq_of_stored (hst : st.catalog.dynamicTables[d]? = some new) : dt = new :=
  mem_unique hinv.stored hst

theorem DtInv.of_noneBegun (hlogs : NoneBegun jobs d h h')
    (hstored : st'.catalog.dynamicTables[d]? = some new)
    (hlast : new.lastRefreshTs = lastSuccess jobs d h')
    (hswitched : ∀ enabled, lastSwitch jobs d h' = some enabled → new.schedulerEnabled = enabled)
    (hstatus : new.refreshStatus = dt.refreshStatus) : DtInv jobs d h' st' new where
  stored := hstored
  lastRefresh := hlast
  switched := hswitched
  running j hj := hstatus ▸ hinv.running j (hlogs j hj).1
  unique j k hj hk := hinv.unique j k (hlogs j hj).1 (hlogs k hk).1
  ok j hj := (hlogs j hj).2 (hinv.ok j (hlogs j hj).1)
  refreshes j hj := hinv.refreshes j (hlogs j hj).1

/-- **A step that does not write the record.** -/
theorem DtInv.other {o : MetaOp} {r : o.Res} (he : NoWrite d ⟨o, r⟩)
    (hC : Orderly jobs d h st (i, ⟨o, r⟩))
    (hallowed : (dtProtocol (jobs i) d).Allowed (dtLogOf jobs d h i) o)
    (hs : MetaStep pq st o r st') : DtInv jobs d (h ++ [(i, ⟨o, r⟩)]) st' dt := by
  refine hinv.of_noneBegun (.snoc rfl fun hin => ?_)
    ((dynamicTables_of_noWrite he hallowed hs).trans hinv.stored) ?_ ?_ rfl
  · obtain ⟨hsame, hfailed⟩ := he.record hin
    have hbefore : Refreshing jobs d h i := fun hnone => hin (hsame.trans hnone)
    exact ⟨hbefore, (hfailed (hC.succeeds hbefore)).trans⟩
  · rw [lastSuccess, lastOf_snoc, he.successTime]
    exact hinv.lastRefresh
  · intro enabled hswitch
    rw [lastSwitch, lastOf_snoc, he.switchedTo] at hswitch
    exact hinv.switched enabled hswitch

/-- A write of the record that fails: it is not the last one of a refresh. -/
theorem DtInv.failed {err : NovaError}
    (hC : Orderly jobs d h st (i, ⟨.txn (.setDynamicTable new), .error err⟩)) :
    DtInv jobs d (h ++ [(i, ⟨.txn (.setDynamicTable new), .error err⟩)]) st dt := by
  have hidle : (dtLogOf jobs d h i).refreshing = none := by
    by_contra hin
    cases hC.succeeds hin
  have hlog := record_setDynamicTable (jobs i) d (dtLogOf jobs d h i) new (.error err)
  rw [wrote_error hidle, ite_self] at hlog
  refine hinv.of_noneBegun (.snoc hlog fun hin => (hin hidle).elim) hinv.stored ?_ ?_ rfl
  · rw [lastSuccess, lastOf_snoc]
    exact hinv.lastRefresh
  · intro enabled hswitch
    rw [lastSwitch, lastOf_snoc] at hswitch
    exact hinv.switched enabled hswitch

/-- A write of the record by SUSPEND or RESUME. -/
theorem DtInv.switch {db name : String} {enabled : Bool}
    (hd : new.id = d) (hjob : jobs i = .setScheduler db name enabled)
    (hC : Orderly jobs d h st (i, new.written))
    (hmay : (dtLogOf jobs d h i).MayWrite (.setScheduler db name enabled) new) :
    DtInv jobs d (h ++ [(i, new.written)]) (st.setDynamicTable new) new := by
  have hidle : (dtLogOf jobs d h i).refreshing = none := by
    by_contra hin
    have hrefreshes := hinv.refreshes i hin
    rw [hjob] at hrefreshes
    cases hrefreshes
  obtain ⟨old, hold, hnew⟩ := hmay
  have hid : old.id = d := by rw [← hd, hnew]
  have hstored := hC.current new rfl hd old (by simp only [Seen, hidle]; exact ⟨hold, hid⟩)
  obtain rfl := hinv.eq_of_stored hstored
  have hlog := record_setDynamicTable (jobs i) d (dtLogOf jobs d h i) new (.ok ())
  rw [if_neg fun h => by rw [hjob] at h; cases h.1] at hlog
  refine hinv.of_noneBegun (.snoc hlog fun hin => (hin hidle).elim)
    (getElem?_setDynamicTable.trans (if_pos hd.symm)) ?_ ?_ (by rw [hnew])
  · rw [lastSuccess, lastOf_snoc, successTime, hidle, hnew]
    exact hinv.lastRefresh
  · intro b hswitch
    have hlast : switchedTo jobs d h (i, new.written) = some enabled := by
      simp only [switchedTo, hjob, if_pos hd]
    rw [lastSwitch, lastOf_snoc, hlast] at hswitch
    rw [hnew]
    exact some.inj hswitch

end

omit [DecidableEq ι] in
/-- SUSPEND and RESUME are not refreshes. -/
theorem switchedTo_of_refreshes (hjob : (jobs i).refreshes = true) :
    switchedTo jobs d h (i, e) = none := by
  unfold switchedTo
  split
  · next heq =>
    cases heq
    split
    · next hj =>
      rw [hj] at hjob
      cases hjob
    · rfl
  · rfl

section

variable (hinv : DtInv jobs d h st dt)
include hinv

/-- The first write of a refresh: nobody is refreshing. -/
theorem DtInv.begin (hd : new.id = d)
    (hjob : (jobs i).refreshes = true) (hidle : (dtLogOf jobs d h i).refreshing = none)
    (hstatus : dt.refreshStatus.isRunning = false)
    (hnew : new = { dt with refreshStatus := .running }) :
    DtInv jobs d (h ++ [(i, new.written)]) (st.setDynamicTable new) new := by
  have hnobody : ∀ j, ¬Refreshing jobs d h j := by
    intro j hj
    rw [hinv.running j hj] at hstatus
    cases hstatus
  have honly : ∀ j, Refreshing jobs d (h ++ [(i, new.written)]) j → i = j := by
    intro j hj
    by_contra hij
    rw [Refreshing, dtLogOf_snoc_ne hij] at hj
    exact hnobody j hj
  have hlog : dtLogOf jobs d (h ++ [(i, new.written)]) i =
      { dtLogOf jobs d h i with refreshing := some new, now := none, failed := false } := by
    rw [dtLogOf_snoc_self, record_setDynamicTable, if_pos ⟨hjob, hd⟩, wrote_ok hidle]
  refine ⟨getElem?_setDynamicTable.trans (if_pos hd.symm), ?_, ?_, fun _ _ => by rw [hnew]; rfl,
    fun j k hj hk => (honly j hj).symm.trans (honly k hk), ?_, ?_⟩
  · rw [lastSuccess, lastOf_snoc, successTime, hidle, hnew]
    exact hinv.lastRefresh
  · intro enabled hswitch
    rw [lastSwitch, lastOf_snoc, switchedTo_of_refreshes hjob] at hswitch
    rw [hnew]
    exact hinv.switched enabled hswitch
  · intro j hj
    obtain rfl := honly j hj
    rw [hlog]
  · intro j hj
    obtain rfl := honly j hj
    exact hjob

/-- The last write of a refresh that succeeded: nobody is refreshing any more. -/
theorem DtInv.success {now : Timestamp} (hd : new.id = d)
    (hin : (dtLogOf jobs d h i).refreshing = some dt) (hnow : (dtLogOf jobs d h i).now = some now)
    (hnew : new = { dt with refreshStatus := .success, lastRefreshTs := some now }) :
    DtInv jobs d (h ++ [(i, new.written)]) (st.setDynamicTable new) new := by
  have hi : Refreshing jobs d h i := by
    rw [Refreshing, hin]
    exact some_ne_none dt
  have hjob := hinv.refreshes i hi
  have hnobody : ∀ j, ¬Refreshing jobs d (h ++ [(i, new.written)]) j := by
    intro j hj
    by_cases hij : i = j
    · subst hij
      rw [Refreshing, dtLogOf_snoc_self, record_setDynamicTable, if_pos ⟨hjob, hd⟩,
        wrote_end hin] at hj
      exact hj rfl
    · rw [Refreshing, dtLogOf_snoc_ne hij] at hj
      exact hij (hinv.unique i j hi hj)
  have htime : successTime jobs d h (i, new.written) = some now := by
    have hstatus : new.refreshStatus = .success := by rw [hnew]
    simp only [successTime, hin, hstatus, if_pos hd, hnow]
  refine ⟨getElem?_setDynamicTable.trans (if_pos hd.symm), ?_, ?_,
    fun j hj => (hnobody j hj).elim, fun j _ hj => (hnobody j hj).elim,
    fun j hj => (hnobody j hj).elim, fun j hj => (hnobody j hj).elim⟩
  · rw [lastSuccess, lastOf_snoc, htime, hnew]
    rfl
  · intro enabled hswitch
    rw [lastSwitch, lastOf_snoc, switchedTo_of_refreshes hjob] at hswitch
    rw [hnew]
    exact hinv.switched enabled hswitch

/-- A write of the record that succeeds, by a job that refreshes. -/
theorem DtInv.refreshWrite (hd : new.id = d) (hjob : (jobs i).refreshes = true)
    (hC : Orderly jobs d h st (i, new.written))
    (hmay : (dtLogOf jobs d h i).MayWrite (jobs i) new) :
    DtInv jobs d (h ++ [(i, new.written)]) (st.setDynamicTable new) new := by
  have hseen := hC.current new rfl hd
  have hwrites := (mayWrite_of_refreshes hjob).1 hmay
  cases hin : (dtLogOf jobs d h i).refreshing with
  | none =>
    simp only [MayWrite, hin] at hwrites
    obtain ⟨old, hold, hnew⟩ := hwrites
    have hid : old.id = d := by rw [← hd, hnew]
    have hstored := hseen old (by simp only [Seen, hin]; exact ⟨hold, hid⟩)
    obtain rfl := hinv.eq_of_stored hstored
    have hstatus := hC.begins new rfl hd hjob (fun h => h hin) dt hstored
    exact hinv.begin hd hjob hin hstatus hnew
  | some old =>
    simp only [MayWrite, hin] at hwrites
    obtain ⟨now, hnow, hwrite⟩ := hwrites
    have hstored := hseen old (by simp only [Seen, hin])
    obtain rfl := hinv.eq_of_stored hstored
    rcases hwrite with hnew | ⟨hfailed, -⟩
    · exact hinv.success hd hin hnow hnew
    · have hi : Refreshing jobs d h i := by
        rw [Refreshing, hin]
        exact some_ne_none dt
      rw [hinv.ok i hi] at hfailed
      cases hfailed

/-- **One orderly step.** -/
theorem DtInv.step {o : MetaOp} {r : o.Res} (hC : Orderly jobs d h st (i, ⟨o, r⟩))
    (hallowed : (dtProtocol (jobs i) d).Allowed (dtLogOf jobs d h i) o)
    (hs : MetaStep pq st o r st') : ∃ dt', DtInv jobs d (h ++ [(i, ⟨o, r⟩)]) st' dt' := by
  by_cases hwrite : ∃ new, o = .txn (.setDynamicTable new) ∧ new.id = d
  · obtain ⟨new, rfl, hd⟩ := hwrite
    have hmay : (dtLogOf jobs d h i).MayWrite (jobs i) new := hallowed hd
    cases metaStep_effect hs with
    | failed => exact ⟨dt, hinv.failed hC⟩
    | txn hrun =>
      cases hrun
      cases hjob : jobs i with
      | tick | refresh db name => exact ⟨new, hinv.refreshWrite hd (by rw [hjob]; rfl) hC hmay⟩
      | setScheduler db name enabled =>
        rw [hjob] at hmay
        exact ⟨new, hinv.switch hd hjob hC hmay⟩
      | dml stmt =>
        rw [hjob] at hmay
        exact hmay.elim
  · refine ⟨dt, hinv.other (fun new ho hd => hwrite ⟨new, ho, hd⟩) hC hallowed hs⟩

end

end Steps

/-! ### The due check -/

/-- The watermark that `dynamic_table_source_backlog_watermark` computes in a state. -/
def World.backlogWatermark (w : World) (dt : DynamicTableMeta) : Option Timestamp :=
  ((w.getActiveMps dt.outputTableId).map (·.commitTs)).max?

variable (sources : Set TableId)

/-- One of the tables has an active micro-partition that was committed after the last refresh and at
least the target lag ago. -/
def Backlog (dt : DynamicTableMeta) (now : Timestamp) (w : World) : Prop :=
  ∃ t ∈ sources, ∃ mp ∈ w.activeRecords t, (∀ last, dt.lastRefreshTs = some last →
    last < mp.commitTs) ∧ mp.commitTs + dt.targetLagSeconds * 1000000 ≤ now

/-- The due check is true if there is a backlog in the source tables. -/
def DueWhenBehind (d : TableId) (now : Timestamp) (st : Store) : Prop :=
  ∀ dt, st.catalog.dynamicTables[d]? = some dt → dt.usesSourceWatermark = true →
    Backlog sources dt now st.toWorld →
      dynamicTableDueForRefresh dt now (st.backlogWatermark dt) true = true

/-- If there is a backlog and the table was refreshed before, then the latest commit to the *output*
table came after the last refresh, and at least the target lag ago. -/
def OutputBehind (d : TableId) (now : Timestamp) (st : Store) : Prop :=
  ∀ dt, st.catalog.dynamicTables[d]? = some dt → dt.usesSourceWatermark = true →
    Backlog sources dt now st.toWorld → ∀ last, dt.lastRefreshTs = some last →
      ∃ watermark, st.backlogWatermark dt = some watermark ∧ last < watermark ∧
        dt.lagMicros ≤ now - watermark

theorem due_iff {dt : DynamicTableMeta} {now : Timestamp} {watermark : Option Timestamp} :
    dynamicTableDueForRefresh dt now watermark true = true ↔ ∀ last, dt.lastRefreshTs = some last →
      ∃ w, watermark = some w ∧ last < w ∧ dt.lagMicros ≤ now - w := by
  unfold dynamicTableDueForRefresh
  cases hlast : dt.lastRefreshTs with
  | none => simp
  | some last => cases watermark with
    | none => simp
    | some w => by_cases hw : last < w <;> simp [hw]

/-! ### Runs -/

section Runs

variable {pq : Parquet} {fmt : TextFormat} {upper : String → String} {engine : QueryEngine}
  {st : Store} {jobs : ι → DtJob} {d : TableId} {h : History ι MetaOp MetaOp.Res}
  {c : Config ι MetaOp MetaOp.Res Store fun _ => Except NovaError Unit}

/-- The dynamic table is there, was never refreshed and is not being refreshed. -/
def NeverRefreshed (st : Store) (d : TableId) : Prop :=
  ∃ dt, st.catalog.dynamicTables[d]? = some dt ∧ dt.lastRefreshTs = none ∧
    dt.refreshStatus.isRunning = false

omit [DecidableEq ι] in
theorem dtConfig_follows (i : ι) :
    ((dtConfig fmt upper engine st jobs).threads i).Follows (dtProtocol (jobs i) d)
      (fun _ (_ : Except NovaError Unit) => True) {} :=
  Prog.Follows.mono ((jobs i).exec_follows fmt upper engine d) fun _ _ _ => trivial

/-- **Orderly runs keep the invariant.** -/
theorem run_dtInv (h0 : NeverRefreshed st d)
    (hr : Run (MetaStep pq) (dtConfig fmt upper engine st jobs) h c)
    (hC : ∀ h1 x h2 c1, h = h1 ++ x :: h2 →
      Run (MetaStep pq) (dtConfig fmt upper engine st jobs) h1 c1 →
      Run (MetaStep pq) c1 (x :: h2) c → Orderly jobs d h1 c1.world x) :
    ∃ dt, DtInv jobs d h c.world dt := by
  refine Run.invariant
    (fun h st => ∃ dt, DtInv jobs d h st dt) hr (fun i => dtConfig_follows (d := d) i) hC ?_ ?_
  · obtain ⟨dt, hdt, hlast, hstatus⟩ := h0
    have hidle : ∀ i, ¬Refreshing jobs d [] i := fun i hi => hi rfl
    exact ⟨dt, hdt, hlast, nofun, fun i hi => (hidle i hi).elim, fun i _ hi => (hidle i hi).elim,
      fun i hi => (hidle i hi).elim, fun i hi => (hidle i hi).elim⟩
  · rintro h c i o r st' - ⟨dt, hinv⟩ hC hallowed hs
    exact hinv.step hC hallowed hs

/-- **The states of a dynamic table.**  After an orderly run the time of the last refresh is the one
of the last refresh that succeeded, at most one refresh is executing, and a SUSPEND is in force
until a RESUME; in any state, the due check sees a backlog in the sources if it shows in the output
table. -/
theorem refresh_states (h0 : NeverRefreshed st d)
    (hr : Run (MetaStep pq) (dtConfig fmt upper engine st jobs) h c)
    (hC : ∀ h₁ x h₂ c₁, h = h₁ ++ x :: h₂ →
      Run (MetaStep pq) (dtConfig fmt upper engine st jobs) h₁ c₁ →
      Run (MetaStep pq) c₁ (x :: h₂) c → Orderly jobs d h₁ c₁.world x) :
    (∀ dt, c.world.catalog.dynamicTables[d]? = some dt → dt.lastRefreshTs = none ∨
      ∃ t, lastSuccess jobs d h = some t ∧ dt.lastRefreshTs = some t) ∧
    (∀ i j, Refreshing jobs d h i → Refreshing jobs d h j → i = j) ∧
    (lastSwitch jobs d h = some false → ∀ dt, c.world.catalog.dynamicTables[d]? = some dt →
      dt.schedulerEnabled = false) ∧
    ∀ sources now, DueWhenBehind sources d now c.world ↔ OutputBehind sources d now c.world := by
  obtain ⟨dt, hinv⟩ := run_dtInv h0 hr hC
  refine ⟨fun dt' hdt => ?_, hinv.unique, fun hswitch dt' hdt => ?_, fun _ _ =>
    forall_congr' fun _ => imp_congr_right fun _ => imp_congr_right fun _ =>
      imp_congr_right fun _ => due_iff⟩
  · obtain rfl := hinv.eq_of_stored hdt
    cases hlast : dt.lastRefreshTs with
    | none => exact .inl rfl
    | some t => exact .inr ⟨t, hinv.lastRefresh.symm.trans hlast, rfl⟩
  · obtain rfl := hinv.eq_of_stored hdt
    exact hinv.switched false hswitch

end Runs

/-! ### Orderly and other runs of one dynamic table -/

/-- A store with the table of one row and a dynamic table on it. -/
def dtStore : Store :=
  { emptyStore with
    toWorld := { oneRow with
      catalog := { oneRow.catalog with
        dynamicTables := (∅ : OMap DynamicTableMeta).insert 11 scanDynamicTable } } }

theorem neverRefreshed_dtStore : NeverRefreshed dtStore 11 := ⟨scanDynamicTable, rfl, rfl, rfl⟩

/-- The record of the dynamic table in a state. -/
def recordOf (st : Store) : Option DynamicTableMeta := st.catalog.dynamicTables[11]?

/-- `n` steps of a thread. -/
def turns (n : ℕ) (i : ι) (x : Choice) : List (ι × Choice) := List.replicate n (i, x)

/-- A schedule of jobs over `dtStore` that ends as `P` says is a run that does. -/
theorem exists_dtRun (engine : QueryEngine) (jobs : ι → DtJob) (xs : List (ι × Choice))
    (P : History ι MetaOp MetaOp.Res → Store → Bool)
    (hs : ((dtConfig plainText id engine dtStore jobs).schedule (MetaOp.apply .verbatim) xs).any
      (fun y => P y.1 y.2.world) = true) :
    ∃ h c, Run (MetaStep .verbatim) (dtConfig plainText id engine dtStore jobs) h c ∧
      P h c.world = true :=
  exists_run_of_schedule hs

/-- One refresh. -/
def oneRefresh : Unit → DtJob := fun _ => .refresh "d" "x"

/-- Two refreshes. -/
def twoRefreshes : Fin 2 → DtJob := fun _ => .refresh "d" "x"

/-- A refresh and SUSPEND. -/
def refreshAndSuspend : Fin 2 → DtJob := fun i =>
  if i = 0 then .refresh "d" "x" else .setScheduler "d" "x" false

/-- The check of `Orderly`. -/
def orderly (jobs : ι → DtJob) (d : TableId) (h : History ι MetaOp MetaOp.Res) (st : Store)
    (x : ι × Event MetaOp MetaOp.Res) : Bool :=
  let s := dtLogOf jobs d h x.1
  (s.refreshing.isNone || !failing x.2) &&
  match x.2.1 with
  | .txn (.setDynamicTable dt) => dt.id != d ||
      (s.refreshing.toList ++ if s.refreshing.isNone then s.listed.filter (·.id == d) else []).all
        (st.catalog.dynamicTables[d]? == some ·) &&
      (!(jobs x.1).refreshes || s.refreshing.isSome ||
        st.catalog.dynamicTables[d]?.all (!·.refreshStatus.isRunning))
  | _ => true

theorem orderly_of_check {jobs : ι → DtJob} {d : TableId} {h : History ι MetaOp MetaOp.Res}
    {st : Store} {x : ι × Event MetaOp MetaOp.Res} (hx : orderly jobs d h st x = true) :
    Orderly jobs d h st x := by
  obtain ⟨hsucceeds, hwrite⟩ := Bool.and_eq_true_iff.1 hx
  refine ⟨fun hin => ?_, fun dt ho hid old hseen => ?_, fun dt ho hid hjob hin old hold => ?_⟩
  · simpa [isNone_iff_eq_none.not.2 hin] using hsucceeds
  · simp only [ho, hid, bne_self_eq_false, Bool.false_or, Bool.and_eq_true, List.all_eq_true,
      beq_iff_eq] at hwrite
    refine hwrite.1 old ?_
    unfold Seen at hseen
    split at hseen
    · next dt' hdt =>
      simp [hdt, hseen]
    · next hnone =>
      simp [hnone, hseen]
  · simp only [ho, hid, bne_self_eq_false, Bool.false_or, Bool.and_eq_true] at hwrite
    have hnone : (dtLogOf jobs d h x.1).refreshing = none := not_not.1 hin
    simpa [hjob, hnone, hold] using hwrite.2

/-- A SUSPEND that has listed the databases waits for the end of a refresh: both are in force. -/
theorem refresh_states_refreshAndSuspend : NeverRefreshed dtStore 11 ∧ ∃ h c,
    Run (MetaStep .verbatim)
      (dtConfig plainText id (scanEngine "t") dtStore refreshAndSuspend) h c ∧
    (Refreshing refreshAndSuspend 11 (h.take 5) 0 ∧
      lastSuccess refreshAndSuspend 11 h = some 5 ∧
      lastSwitch refreshAndSuspend 11 h = some false) ∧
    (∀ dt, recordOf c.world = some dt → dt.lastRefreshTs = none ∨
      ∃ t, lastSuccess refreshAndSuspend 11 h = some t ∧ dt.lastRefreshTs = some t) ∧
    (∀ i j, Refreshing refreshAndSuspend 11 h i → Refreshing refreshAndSuspend 11 h j → i = j) ∧
    ∀ dt, recordOf c.world = some dt → dt.schedulerEnabled = false := by
  have hs : (dtConfig plainText id (scanEngine "t") dtStore refreshAndSuspend).passes
      (MetaOp.apply .verbatim)
      (fun h st x => orderly refreshAndSuspend 11 h st x && !x.2.1.isCommit)
      (fun y => (dtLogOf refreshAndSuspend 11 (y.1.take 5) 0).refreshing.isSome &&
        decide (lastSuccess refreshAndSuspend 11 y.1 = some 5 ∧
          lastSwitch refreshAndSuspend 11 y.1 = some false)) []
      (turns 1 1 {} ++ turns 14 0 { now := 5 } ++ turns 2 1 {}) = true := by
    decide +kernel
  obtain ⟨h, c, hr, hend, hp⟩ := exists_run_of_passes
    (fun _ _ _ hp _ _ => metaStep_unique (by simpa using (and_eq_true_iff.1 hp).2)) hs
  obtain ⟨hin, hend⟩ := and_eq_true_iff.1 hend
  obtain ⟨hsuccess, hswitch⟩ := of_decide_eq_true hend
  obtain ⟨hlast, hone, hsuspended, -⟩ := refresh_states neverRefreshed_dtStore hr
    fun h₁ x h₂ c₁ he hr₁ _ =>
      orderly_of_check (and_eq_true_iff.1 (hp h₁ x h₂ c₁ he hr₁)).1
  exact ⟨neverRefreshed_dtStore, h, c, hr,
    ⟨isSome_iff_ne_none.1 hin, hsuccess, hswitch⟩, hlast, hone, hsuspended hswitch⟩

/-- A refresh and an INSERT. -/
def refreshAndInsert : Fin 2 → DtJob := fun i =>
  if i = 0 then .refresh "d" "x" else .dml (insertOne 2)

/-- An INSERT follows a refresh, and the due check does not see it. -/
theorem due_misses_insert : ∃ h c, Run (MetaStep .verbatim)
      (dtConfig plainText id (scanEngine "t") dtStore refreshAndInsert) h c ∧
    ¬DueWhenBehind {1} 11 100000000 c.world := by
  obtain ⟨h, c, hr, hP⟩ := exists_dtRun (scanEngine "t") refreshAndInsert
    (turns 14 0 { now := 3 } ++ turns 11 1 { id := 8, now := 5 })
    (fun _ st => ((recordOf st).any fun dt : DynamicTableMeta =>
      decide (dt.usesSourceWatermark = true ∧
        dt.lastRefreshTs = some 3 ∧ dt.targetLagSeconds = 60 ∧
        dynamicTableDueForRefresh dt 100000000 (st.backlogWatermark dt) true = false)) &&
      (st.getActiveMps 1).any fun mp => decide (mp.commitTs = 5)) (by decide +kernel)
  obtain ⟨hrecord, hmps⟩ := and_eq_true_iff.1 hP
  obtain ⟨dt, hdt, hfacts⟩ := (any_eq_true _ _).1 hrecord
  obtain ⟨huses, hlast, hlag, hdue⟩ := of_decide_eq_true hfacts
  obtain ⟨mp, hmp, hts⟩ := List.any_eq_true.1 hmps
  refine ⟨h, c, hr, fun hbehind => ?_⟩
  have hbacklog : Backlog {1} dt 100000000 c.world.toWorld := by
    refine ⟨1, rfl, mp, ?_, fun last hlast' => ?_, ?_⟩
    · obtain ⟨k, hk, hrec, hactive⟩ := World.mem_getActiveMps.1 hmp
      exact ⟨k, (OMap.mem_scanKeys.1 hk).2, hrec, hactive⟩
    · rw [hlast] at hlast'
      cases hlast'
      rw [of_decide_eq_true hts]
      decide
    · rw [of_decide_eq_true hts, hlag]
      decide
  rw [hbehind dt hdt huses hbacklog] at hdue
  cases hdue

/-- **Each of the four properties fails in some run.** -/
theorem refresh_states_disturbed : NeverRefreshed dtStore 11 ∧
    (∃ h c, Run (MetaStep .verbatim)
        (dtConfig plainText id (fun _ _ => .error "no answer") dtStore oneRefresh) h c ∧
      (recordOf c.world).map (·.lastRefreshTs) = some (some 5) ∧
      lastSuccess oneRefresh 11 h = none) ∧
    (∃ h c, Run (MetaStep .verbatim)
        (dtConfig plainText id (scanEngine "t") dtStore twoRefreshes) h c ∧
      Refreshing twoRefreshes 11 h 0 ∧ Refreshing twoRefreshes 11 h 1) ∧
    (∃ h c, Run (MetaStep .verbatim)
        (dtConfig plainText id (scanEngine "t") dtStore refreshAndSuspend) h c ∧
      Refreshing refreshAndSuspend 11 (h.take 6) 0 ∧
      lastSwitch refreshAndSuspend 11 (h.take 6) = some false ∧
      lastSwitch refreshAndSuspend 11 h = some false ∧
      (recordOf c.world).map (·.schedulerEnabled) = some true) ∧
    ∃ h c, Run (MetaStep .verbatim)
        (dtConfig plainText id (scanEngine "t") dtStore refreshAndInsert) h c ∧
      ¬DueWhenBehind {1} 11 100000000 c.world := by
  refine ⟨neverRefreshed_dtStore, ?_, ?_, ?_, due_misses_insert⟩
  · -- the engine fails, and the refresh sets the time of the last refresh
    obtain ⟨h, c, hr, hP⟩ := exists_dtRun (fun _ _ => .error "no answer") oneRefresh
      (turns 12 () { now := 5 })
      (fun h st => decide ((recordOf st).map (·.lastRefreshTs) = some (some 5) ∧
        lastSuccess oneRefresh 11 h = none)) (by decide +kernel)
    exact ⟨h, c, hr, of_decide_eq_true hP⟩
  · -- two statements begin to refresh before either ends
    obtain ⟨h, c, hr, hP⟩ := exists_dtRun (scanEngine "t") twoRefreshes
      (turns 3 0 {} ++ turns 3 1 {})
      (fun h _ => (dtLogOf twoRefreshes 11 h 0).refreshing.isSome &&
        (dtLogOf twoRefreshes 11 h 1).refreshing.isSome) (by decide +kernel)
    obtain ⟨h0, h1⟩ := and_eq_true_iff.1 hP
    exact ⟨h, c, hr, isSome_iff_ne_none.1 h0, isSome_iff_ne_none.1 h1⟩
  · -- SUSPEND completes while a refresh is executing, and the refresh switches the scheduler on
    obtain ⟨h, c, hr, hP⟩ := exists_dtRun (scanEngine "t") refreshAndSuspend
      (turns 3 0 {} ++ turns 3 1 {} ++ turns 11 0 {})
      (fun h st => (dtLogOf refreshAndSuspend 11 (h.take 6) 0).refreshing.isSome &&
        decide (lastSwitch refreshAndSuspend 11 (h.take 6) = some false ∧
          lastSwitch refreshAndSuspend 11 h = some false ∧
          (recordOf st).map (·.schedulerEnabled) = some true)) (by decide +kernel)
    obtain ⟨hin, hP⟩ := and_eq_true_iff.1 hP
    exact ⟨h, c, hr, isSome_iff_ne_none.1 hin, of_decide_eq_true hP⟩

end NovaCore
