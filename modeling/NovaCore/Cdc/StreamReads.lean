import NovaCore.Cdc.Rows
import NovaCore.Cdc.Watermark

/-!
# Streams are consumed exactly once

Any number of reads of streams, in commit and preview mode, run among INSERT, UPDATE and DELETE
statements.  Each read is several transactions: the offset, the watermark, the change records,
their payloads and finally the compare-and-set of the offset.

The argument: below the watermark the log is fixed, so what a read registered with the query
engine is still the stretch of the log from its offset to its published number when it reaches
its compare-and-set (`ReaderInv`); and a compare-and-set that succeeds finds the offset where the
read began, so that the stretches of successive reads join without gap or overlap (`Consumed`).

## Main results

* `stream_exactly_once` : **exactly-once consumption.**
-/

namespace NovaCore

open List Option Function StmtLog World

/-! ### Offsets -/

/-- The successful compare-and-set of a stream offset that an event is. -/
def consumptionOf : Event Op Op.Res → Option (StreamId × StreamOffset)
  | ⟨.compareAndSetStreamOffset id _ new, .ok _⟩ => some (id, new)
  | _ => none

/-- What an event does to the stream offsets. -/
inductive OffsetEffect (w w' : World) : Event Op Op.Res → Prop
  | frame {e : Event Op Op.Res} (hcon : consumptionOf e = none)
      (hoff : w'.streamOffsets = w.streamOffsets) : OffsetEffect w w' e
  | compareAndSet {id : StreamId} {current new : StreamOffset}
      (hold : w.streamOffsets id = some current)
      (hnew : w'.streamOffsets = Function.update w.streamOffsets id (some new)) :
      OffsetEffect w w' ⟨.compareAndSetStreamOffset id current.committedSequence new, .ok ()⟩

section

variable {pq : Parquet} {w w' : World} {o : Op} {res : o.Res}

theorem step_offsetEffect (hs : Step pq w o res w') : OffsetEffect w w' ⟨o, res⟩ := by
  cases step_effect hs with
  | quiet he =>
    refine .frame ?_ rfl
    cases o <;> cases res <;> simp_all [mutates, consumptionOf]
  | compareAndSet h =>
    obtain ⟨current, hcur, rfl, rfl⟩ := compareAndSet_eq_ok h
    exact .compareAndSet hcur rfl
  | allocate h =>
    obtain ⟨-, -, rfl⟩ := allocate_eq_ok h
    exact .frame rfl rfl
  | commit h => exact .frame rfl (commitTableCdc_eq_ok h).streamOffsets
  | _ => exact .frame rfl rfl

end

/-! ### Readers -/

/-- Every stream found under the identifier `sid` is a stream over table `t`. -/
def StreamOver (cat : Catalog) (sid : StreamId) (t : TableId) : Prop :=
  ∀ db schema name m, cat.findStream db schema name = .ok m → m.streamId = sid →
    m.sourceTableId = t

/-- The thread with this log reads stream `sid`. -/
def StreamLog.Of (s : StreamLog) (sid : StreamId) : Prop :=
  ∃ m, s.stream = some m ∧ m.streamId = sid

/-- What a reader of stream `sid` over table `t` saw is still so. -/
structure ReaderInv (sid : StreamId) (t : TableId) (w : World) (s : StreamLog) : Prop where
  table : ∀ m, s.stream = some m → m.streamId = sid → m.sourceTableId = t
  through : ∀ n, s.Of sid → s.through = some n → n ≤ w.tableChangeSequence t
  scanned : ∀ offset records, s.Of sid → s.offset = some offset → s.records = some records →
    ScanOf w t offset.committedSequence records ∧
      ∀ r ∈ records, r.sequence ≤ w.tableChangeSequence t
  payloads : s.Of sid → ∀ x ∈ s.payloads, ∃ k r, w.changeLog t k = some r ∧
    r.payload.path = x.1 ∧ w.payloads x.1 = some x.2
  queried : ∀ batches, s.registered = some batches →
    ∃ m offset records published, s.Queried m offset records published batches

variable {records : List ChangeRecordMeta} {batches : List CdcBatch} {offset : StreamOffset}

section Readers

variable {ι : Type} [DecidableEq ι] {pq : Parquet} {w w' : World} {h : History ι Op Op.Res}
  {i : ι} {sid : StreamId} {t : TableId} {o : Op} {res : o.Res} {s : StmtLog}

theorem ReaderInv.init (sid : StreamId) (t : TableId) (w : World) : ReaderInv sid t w {} := by
  constructor <;> simp

/-- What others do does not invalidate what a reader saw. -/
theorem ReaderInv.step {s : StreamLog} (hinv : ReaderInv sid t w s) (inv : CdcInv pq t h w)
    (hmay : CdcMay (logOf h i) o) (hs : Step pq w o res w') : ReaderInv sid t w' s := by
  have hwm := tableChangeSequence_step hs t
  refine ⟨hinv.table, ?_, ?_, ?_, hinv.queried⟩
  · intro n hof hn
    exact (hinv.through n hof hn).trans hwm
  · intro offset records hof hoff hrec
    obtain ⟨hscan, hle⟩ := hinv.scanned offset records hof hoff hrec
    refine ⟨⟨?_, hscan.after, hscan.sorted⟩, fun r hr => (hle r hr).trans hwm⟩
    intro r hr
    exact inv.changeLog_step hmay hs (hscan.logged r hr)
  · intro hof x hx
    obtain ⟨k, r, hr, hpath, hpay⟩ := hinv.payloads hof x hx
    refine ⟨k, r, inv.changeLog_step hmay hs hr, hpath, ?_⟩
    rw [← hpath, inv.payload_frozen hmay hs hr, hpath, hpay]

/-- The records of a scan are records of the log, in order. -/
theorem CdcInv.scanOf_getChangeRecords (inv : CdcInv pq t h w) {a b : ℕ}
    (hs : Step pq w (.getChangeRecords t a b) (.ok records) w') :
    ScanOf w t a records ∧ ∀ r ∈ records, r.sequence ≤ b := by
  obtain ⟨x, hx⟩ := step_ok hs
  simp only [Op.perform] at hx
  split_ifs at hx with hle
  · cases hx
    exact ⟨⟨by simp, by simp, .nil⟩, by simp⟩
  · cases hadd : checkedAdd b 1 with
    | error e => rw [hadd] at hx; cases hx
    | ok n =>
      rw [hadd] at hx
      cases hx
      have hsorted := (inv.changeRecordsBetween_sorted (a := a) (b := b)).sublist
        (take_sublist x.scanned _)
      rw [(hsorted.imp fun hlt => le_of_lt hlt).insertionSort_eq]
      have hmem : ∀ r ∈ (w.changeRecordsBetween t a b).take x.scanned,
          w.changeLog t r.sequence = some r ∧ a < r.sequence ∧ r.sequence ≤ b :=
        fun r hr => inv.mem_changeRecordsBetween.1 (mem_of_mem_take hr)
      exact ⟨⟨fun r hr => (hmem r hr).1, fun r hr => (hmem r hr).2.1, hsorted⟩,
        fun r hr => (hmem r hr).2.2⟩

/-- The fields of a reader's log that later operations leave alone keep their meaning. -/
theorem StreamLog.Queried.congr {s s' : StreamLog} {m : StreamMeta} {published : ℕ}
    (hq : s.Queried m offset records published batches) (hst : s'.stream = s.stream)
    (hoff : s'.offset = s.offset) (hrec : s'.records = s.records)
    (hpay : s'.payloads = s.payloads) : s'.Queried m offset records published batches where
  scanned := ⟨hst.trans hq.scanned.stream, hoff.trans hq.scanned.offset,
    hrec.trans hq.scanned.records⟩
  published_eq := hq.published_eq
  registered := hpay ▸ hq.registered

/-- A reader's own operation keeps its invariant: each result is what the store held. -/
theorem ReaderInv.record {req : StreamRead} (hinv : ReaderInv sid t w' s.stream)
    (inv : CdcInv pq t h w) (hover : StreamOver w.catalog sid t) (hmay : ReaderMay req s o)
    (hs : Step pq w o res w') (hcdc : CdcMay (logOf h i) o) :
    ReaderInv sid t w' (s.record o res).stream := by
  cases res with
  | error e => rwa [record_error]
  | ok a =>
    obtain ⟨x, hx⟩ := step_ok hs
    cases o with
    | findStream db schema name =>
      simp only [Op.perform, some.injEq, Prod.mk.injEq] at hx
      have hlog : (s.record (.findStream db schema name) (.ok a)).stream =
          { stream := some a } := by
        simp only [ReaderMay] at hmay
        simp [record, hmay]
      rw [hlog]
      refine ⟨?_, by simp, by simp, by simp, by simp⟩
      intro m hm hsid
      obtain rfl := some.inj hm
      exact hover db schema name a hx.1 hsid
    | getStreamOffset id =>
      obtain ⟨m, hm, rfl⟩ := hmay
      have hlog : (s.record (.getStreamOffset m.streamId) (.ok a)).stream =
          { stream := some m, offset := a } := by
        simp [record, hm]
      rw [hm] at hinv
      rw [hlog]
      exact ⟨hinv.table, by simp, by simp, by simp, by simp⟩
    | getTableChangeSequence t' =>
      obtain ⟨m, offset, hm, rfl⟩ := hmay
      simp only [Op.perform, some.injEq, Prod.mk.injEq, Except.ok.injEq] at hx
      have hlog : (s.record (.getTableChangeSequence m.sourceTableId) (.ok a)).stream =
          { stream := some m, offset := some offset, through := some a } := by
        simp [record, hm]
      rw [hm] at hinv
      rw [hlog]
      refine ⟨hinv.table, ?_, by simp, by simp, by simp⟩
      rintro n ⟨m', hm', hsid⟩ hn
      obtain rfl := some.inj hm'
      obtain rfl := some.inj hn
      rw [← hx.1, hinv.table m rfl hsid, ← hx.2]
    | getChangeRecords t' after through =>
      obtain ⟨m, offset, hm, rfl, rfl⟩ := hmay
      have hlog : (s.record (.getChangeRecords m.sourceTableId offset.committedSequence through)
          (.ok a)).stream =
          { stream := some m, offset := some offset, through := some through,
            records := some a } := by
        simp [record, hm]
      rw [hm] at hinv
      rw [hlog]
      refine ⟨hinv.table, hinv.through, ?_, by simp, by simp⟩
      rintro offset' records ⟨m', hm', hsid⟩ hoff hrec
      obtain rfl := some.inj hm'
      obtain rfl := some.inj hoff
      obtain rfl := some.inj hrec
      rw [hinv.table m rfl hsid] at hs hcdc
      obtain ⟨hscan, hle⟩ := inv.scanOf_getChangeRecords hs
      have hthrough := hinv.through through ⟨m, rfl, hsid⟩ rfl
      refine ⟨⟨?_, hscan.after, hscan.sorted⟩, fun r hr => (hle r hr).trans hthrough⟩
      intro r hr
      exact inv.changeLog_step hcdc hs (hscan.logged r hr)
    | getPayload p =>
      obtain ⟨m, offset, records, r, hsc, hreg, hr, rfl⟩ := hmay
      have hlog : (s.record (.getPayload r.payload.path) (.ok a)).stream =
          { s.stream with payloads := s.stream.payloads ++ [(r.payload.path, a)] } := rfl
      rw [hlog]
      refine { hinv with payloads := ?_, queried := ?_ }
      · intro hof x hx'
        rcases mem_snoc.1 hx' with hold | rfl
        · exact hinv.payloads hof x hold
        · obtain ⟨hscan, -⟩ := hinv.scanned offset records hof hsc.offset hsc.records
          refine ⟨_, r, hscan.logged r hr, rfl, ?_⟩
          simp only [Op.perform] at hx
          split at hx
          · next bs hbs =>
            cases hx
            exact hbs
          · cases hx
      · intro batches hb
        rw [show s.stream.registered = none from hreg] at hb
        cases hb
    | runQuery name batches sql =>
      obtain ⟨m, offset, records, published, hq, -⟩ := hmay
      refine { hinv with queried := ?_ }
      intro batches' hb
      obtain rfl := some.inj hb
      exact ⟨m, offset, records, published, hq.congr rfl rfl rfl rfl⟩
    | compareAndSetStreamOffset id expected new =>
      refine { hinv with queried := ?_ }
      intro batches hb
      obtain ⟨m, offset, records, published, hq⟩ := hinv.queried batches hb
      exact ⟨m, offset, records, published, hq.congr rfl rfl rfl rfl⟩
    | authorizeStreamRead | nowMicros => exact hinv
    | _ => exact hmay.elim

/-! ### Runs with readers -/

theorem cdcMay_of_readerMay {req : StreamRead} (hmay : ReaderMay req s o) : CdcMay s o := by
  cases o with
  | putPayload | commitTableCdc => exact hmay.elim
  | _ => trivial

theorem cdcMay_of_session {fmt : TextFormat} {stmt : SessionStatement}
    (hmay : (stmt.protocol fmt).Allowed s o) : CdcMay s o := by
  cases stmt with
  | dml stmt => exact cdcMay_of_dmlMay hmay.1 hmay.2
  | readStream req => exact cdcMay_of_readerMay hmay

/-- A data-changing statement does nothing with streams. -/
theorem record_stream_of_dmlMay {fmt : TextFormat} {stmt : DmlStatement}
    (hmay : DmlMay fmt stmt s o) (res : o.Res) : (s.record o res).stream = s.stream := by
  cases o with
  | findStream | getStreamOffset | getTableChangeSequence | getChangeRecords | getPayload
  | runQuery | compareAndSetStreamOffset => exact hmay.elim
  | _ => cases res <;> rfl

variable {fmt : TextFormat} {stmts : ι → SessionStatement} {w₀ : World}
  {c c₁ c₂ : Config ι Op Op.Res World fun _ => Except NovaError QueryResult}
  {h₁ h₂ : History ι Op Op.Res}

theorem session_logAfter (h : History ι Op Op.Res) (i : ι) :
    ((stmts i).protocol fmt).logAfter {} (eventsOf i h) = logOf h i := by
  cases hst : stmts i <;> rfl

omit [DecidableEq ι] in
theorem sessionConfig_follows_cdc (i : ι) :
    ((sessionConfig fmt w₀ stmts).threads i).Follows cdcProtocol (stmts i).EndsWith {} := by
  refine (sessionConfig_follows i).weaken ?_ fun s o ho => cdcMay_of_session ho
  cases stmts i <;> rfl

/-- **What readers saw is still so, at every point of every run.** -/
theorem run_readerInv (hr : Run (Step pq) (sessionConfig fmt w₀ stmts) h c)
    (h0 : w₀.EmptyChangeLog t) (hover : StreamOver w₀.catalog sid t) (i : ι) :
    ReaderInv sid t c.world (logOf h i).stream := by
  refine Run.always (fun h w => ∀ i, ReaderInv sid t w (logOf h i).stream)
    sessionConfig_follows ?_ hr (fun _ => .init sid t _) i
  intro h c j o res w' hrun ih hmay hs i
  rw [session_logAfter] at hmay
  have inv := run_cdcInv hrun sessionConfig_follows_cdc h0
  have hcdc := cdcMay_of_session hmay
  have hstep := (ih i).step inv hcdc hs
  by_cases hij : j = i
  · subst hij
    rw [logOf_snoc_self]
    cases hst : stmts j with
    | dml stmt =>
      rw [hst] at hmay
      rwa [record_stream_of_dmlMay hmay.2]
    | readStream req =>
      rw [hst] at hmay
      have hcat : c.world.catalog = w₀.catalog := run_catalog hrun
      exact hstep.record inv (hcat ▸ hover) hmay hs hcdc
  · rwa [logOf_snoc_ne hij]

/-- What a reader registered is the stretch of the log from its offset to the number it
computed. -/
theorem registered_rows (inv : CdcInv pq t h w) {s : StreamLog} (hinv : ReaderInv sid t w s)
    (hof : s.Of sid) {m : StreamMeta} {published : ℕ}
    (hq : s.Queried m offset records published batches) :
    batches.flatMap CdcBatch.logicalRows = w.cdcRows t offset.committedSequence published ∧
      Seamless w t offset.committedSequence published ∧
      (published = offset.committedSequence ∨ published ≤ w.tableChangeSequence t) := by
  obtain ⟨hscan, hle⟩ := hinv.scanned offset records hof hq.scanned.offset hq.scanned.records
  obtain ⟨hseam, heq⟩ := inv.consumable_eq hscan hq.published_eq
  refine ⟨?_, hseam, ?_⟩
  · rw [hq.registered.rows, cdcRows, ← heq]
    refine flatMap_zip_of_forall₂ hq.registered.paths fun r p hp hpath => ?_
    -- the payload read is the payload stored for the record
    obtain ⟨-, -, -, -, hpay⟩ := hinv.payloads hof p hp
    unfold recordRows
    rw [← hpath, hpay, getD_some]
  · rcases eq_or_lt_of_le hseam.le with hpub | hlt
    · exact .inl hpub.symm
    · right
      obtain ⟨r, hr, hcov⟩ := hseam.covered published hlt le_rfl
      have hlog := (inv.mem_changeRecordsBetween.1 hr).1
      rw [← heq] at hr
      have hend := inv.recordEnd_le_watermark hlog (hle r (mem_filter.1 hr).1)
      have hadd := inv.recordEnd_add_one hlog
      have hlt' := hcov.2
      omega

/-! ### Consumption -/

/-- The thread whose event moved the offset of stream `sid`. -/
def consumerOf (sid : StreamId) (x : ι × Event Op Op.Res) : Option ι :=
  ((consumptionOf x.2).filter fun y => y.1 = sid).map fun _ => x.1

/-- The reads that moved the offset of stream `sid`, in the order of their compare-and-set. -/
def consumers (sid : StreamId) (h : History ι Op Op.Res) : List ι := h.filterMap (consumerOf sid)

/-- The change rows a read registered with the query engine. -/
def registeredRows (h : History ι Op Op.Res) (i : ι) : List CdcBatch.Row :=
  ((logOf h i).stream.registered.getD []).flatMap CdcBatch.logicalRows

/-- The reads of stream `sid` in the part `h'` of the history `h` have together consumed the rows
from offset `a` to the current offset `b`. -/
structure Consumed (sid : StreamId) (t : TableId) (a : ℕ) (h h' : History ι Op Op.Res) (w : World)
    (b : ℕ) : Prop where
  offset : ∃ current, w.streamOffsets sid = some current ∧ current.committedSequence = b
  le : a ≤ b
  published : b = a ∨ b ≤ w.tableChangeSequence t
  registered : ∀ i ∈ consumers sid h', (logOf h i).stream.registered ≠ none
  rows : (consumers sid h').flatMap (registeredRows h) = w.cdcRows t a b
  sequences : (w.cdcRows t a b).map rowSequence = List.range' (a + 1) (b - a)

variable {j : ι}

/-- What a read registered stays registered. -/
theorem registered_snoc (hmay : ((stmts j).protocol fmt).Allowed (logOf h j) o)
    (hreg : (logOf h i).stream.registered = some batches) :
    (logOf (h ++ [(j, ⟨o, res⟩)]) i).stream.registered = some batches := by
  by_cases hij : j = i
  · subst hij
    rw [logOf_snoc_self]
    cases hst : stmts j with
    | dml stmt =>
      rw [hst] at hmay
      rwa [record_stream_of_dmlMay hmay.2]
    | readStream req =>
      rw [hst] at hmay
      cases res with
      | error e => rwa [record_error]
      | ok a =>
        cases o with
        | runQuery =>
          obtain ⟨m, offset, records, published, -, hnone⟩ := hmay
          rw [hreg] at hnone
          cases hnone
        | _ => exact hreg
  · rwa [logOf_snoc_ne hij]

theorem registeredRows_snoc (hmay : ((stmts j).protocol fmt).Allowed (logOf h j) o)
    (hreg : (logOf h i).stream.registered ≠ none) :
    registeredRows (h ++ [(j, ⟨o, res⟩)]) i = registeredRows h i := by
  obtain ⟨batches, hb⟩ := ne_none_iff_exists'.1 hreg
  unfold registeredRows
  rw [registered_snoc hmay hb, hb]

variable {h' : History ι Op Op.Res}

/-- The rows consumed so far are fixed. -/
theorem Consumed.cdcRows_step {a b : ℕ}
    (hc : Consumed sid t a h h' w b) (inv : CdcInv pq t h w) (hmay : CdcMay (logOf h j) o)
    (hs : Step pq w o res w') : w'.cdcRows t a b = w.cdcRows t a b := by
  rcases hc.published with rfl | hle
  · rw [cdcRows_self, cdcRows_self]
  · exact inv.cdcRows_step hmay hs hle

/-- An event that does not move the offset of the stream. -/
theorem Consumed.frame {a b : ℕ} (hc : Consumed sid t a h h' w b) (inv : CdcInv pq t h w)
    (hmay : ((stmts j).protocol fmt).Allowed (logOf h j) o) (hs : Step pq w o res w')
    (hnot : consumerOf sid (j, ⟨o, res⟩) = none)
    (hoff : w'.streamOffsets sid = w.streamOffsets sid) :
    Consumed sid t a (h ++ [(j, ⟨o, res⟩)]) (h' ++ [(j, ⟨o, res⟩)]) w' b := by
  have hcon : consumers sid (h' ++ [(j, ⟨o, res⟩)]) = consumers sid h' := by
    simp [consumers, hnot]
  have hrows := hc.cdcRows_step inv (cdcMay_of_session hmay) hs
  refine ⟨?_, hc.le, ?_, ?_, ?_, ?_⟩
  · rw [hoff]
    exact hc.offset
  · exact hc.published.imp_right fun hle => hle.trans (tableChangeSequence_step hs t)
  · intro i hi
    rw [hcon] at hi
    obtain ⟨batches, hb⟩ := ne_none_iff_exists'.1 (hc.registered i hi)
    rw [registered_snoc hmay hb]
    exact some_ne_none _
  · rw [hcon, hrows, ← hc.rows]
    exact flatMap_congr fun i hi => registeredRows_snoc hmay (hc.registered i hi)
  · rw [hrows]
    exact hc.sequences

/-- Only stream reads move offsets. -/
theorem readerMay_of_compareAndSet {stmt : SessionStatement} {id : StreamId} {expected : ℕ}
    {new : StreamOffset}
    (hmay : (stmt.protocol fmt).Allowed s (.compareAndSetStreamOffset id expected new)) :
    ∃ req, stmt = .readStream req ∧
      ReaderMay req s (.compareAndSetStreamOffset id expected new) := by
  cases stmt with
  | dml stmt => exact hmay.2.elim
  | readStream req => exact ⟨req, rfl, hmay⟩

/-- A compare-and-set that succeeds appends the stretch its read registered. -/
theorem Consumed.compareAndSet {a b : ℕ}
    {current new : StreamOffset} (hc : Consumed sid t a h h' w b)
    (inv : CdcInv pq t h w) (hinv : ReaderInv sid t w (logOf h j).stream)
    (hallowed : ((stmts j).protocol fmt).Allowed (logOf h j)
      (.compareAndSetStreamOffset sid current.committedSequence new))
    (hs : Step pq w (.compareAndSetStreamOffset sid current.committedSequence new) (.ok ()) w')
    (hold : w.streamOffsets sid = some current)
    (hnew : w'.streamOffsets = update w.streamOffsets sid (some new)) :
    Consumed sid t a
      (h ++ [(j, ⟨.compareAndSetStreamOffset sid current.committedSequence new, .ok ()⟩)])
      (h' ++ [(j, ⟨.compareAndSetStreamOffset sid current.committedSequence new, .ok ()⟩)]) w'
      new.committedSequence := by
  have hcdc := cdcMay_of_session hallowed
  obtain ⟨req, -, hmay⟩ := readerMay_of_compareAndSet hallowed
  obtain ⟨m, offset, records, published, batches, hq, hreg, -, -, hid, hexp, rfl, hlt⟩ := hmay
  have hof : (logOf h j).stream.Of sid := ⟨m, hq.scanned.stream, hid.symm⟩
  obtain ⟨hrows, hseam, hle⟩ := registered_rows inv hinv hof hq
  -- the offset is still where the read began
  have hb : offset.committedSequence = b := by
    obtain ⟨current', hcur, hb⟩ := hc.offset
    rw [hold] at hcur
    obtain rfl := some.inj hcur
    rw [← hexp, hb]
  rw [hb] at hrows hseam hle hlt
  have hpub : new.committedSequence ≤ w.tableChangeSequence t := hle.resolve_left (by omega)
  have hcon : consumers sid (h' ++ [(j, ⟨.compareAndSetStreamOffset sid
      current.committedSequence new, .ok ()⟩)]) = consumers sid h' ++ [j] := by
    simp [consumers, consumerOf, consumptionOf]
  have hfix : w'.cdcRows t a new.committedSequence = w.cdcRows t a new.committedSequence :=
    inv.cdcRows_step hcdc hs hpub
  have happ := cdcRows_append w t hc.le hseam.le
  have hregs : ∀ i ∈ consumers sid h' ++ [j], (logOf h i).stream.registered ≠ none := by
    intro i hi
    rcases mem_snoc.1 hi with hi | rfl
    · exact hc.registered i hi
    · rw [hreg]
      exact some_ne_none _
  refine ⟨⟨new, by rw [hnew, update_self], rfl⟩, hc.le.trans hseam.le,
    .inr (hpub.trans (tableChangeSequence_step hs t)), ?_, ?_, ?_⟩
  · intro i hi
    rw [hcon] at hi
    obtain ⟨batches, hbs⟩ := ne_none_iff_exists'.1 (hregs i hi)
    rw [registered_snoc hallowed hbs]
    exact some_ne_none _
  · calc (consumers sid _).flatMap (registeredRows _)
        = (consumers sid h' ++ [j]).flatMap (registeredRows h) := by
          rw [hcon]
          exact flatMap_congr fun i hi => registeredRows_snoc hallowed (hregs i hi)
      _ = w.cdcRows t a b ++ registeredRows h j := by
          rw [flatMap_append, hc.rows, flatMap_singleton]
      _ = w.cdcRows t a b ++ w.cdcRows t b new.committedSequence := by
          rw [registeredRows, hreg, getD_some, hrows]
      _ = w'.cdcRows t a new.committedSequence := by rw [happ, hfix]
  · rw [hfix, ← happ, map_append, hc.sequences, inv.cdcRows_sequences hseam]
    have hle1 := hc.le
    rw [show b + 1 = a + 1 + (b - a) by omega, range'_append_1]
    congr 1
    omega

theorem run_consumed (h0 : w₀.EmptyChangeLog t) (hover : StreamOver w₀.catalog sid t)
    (hr1 : Run (Step pq) (sessionConfig fmt w₀ stmts) h₁ c₁) (hr2 : Run (Step pq) c₁ h₂ c₂)
    (hoff : c₁.world.streamOffsets sid = some offset) :
    ∃ b, Consumed sid t offset.committedSequence (h₁ ++ h₂) h₂ c₂.world b := by
  have hinit : Consumed sid t offset.committedSequence h₁ [] c₁.world offset.committedSequence :=
    ⟨⟨offset, hoff, rfl⟩, le_rfl, .inl rfl, by simp [consumers], by simp [consumers], by simp⟩
  have key : ∃ h' b, h₁ ++ h₂ = h₁ ++ h' ∧
      Consumed sid t offset.committedSequence (h₁ ++ h₂) h' c₂.world b := by
    refine Run.always_after
      (fun h w => ∃ h' b, h = h₁ ++ h' ∧ Consumed sid t offset.committedSequence h h' w b)
      sessionConfig_follows ?_ hr1 hr2 ⟨[], _, by simp, hinit⟩
    rintro h c j o res w' hrun ⟨h', b, rfl, hc⟩ hmay hs
    rw [session_logAfter] at hmay
    have inv := run_cdcInv hrun sessionConfig_follows_cdc h0
    refine ⟨h' ++ [(j, ⟨o, res⟩)], ?_⟩
    cases step_offsetEffect hs with
    | frame hcon hsame =>
      refine ⟨b, by simp, hc.frame inv hmay hs ?_ (by rw [hsame])⟩
      simp [consumerOf, hcon]
    | @compareAndSet id current new hold hnew =>
      by_cases hid : id = sid
      · subst hid
        have hinv := run_readerInv hrun h0 hover j
        exact ⟨new.committedSequence, by simp, hc.compareAndSet inv hinv hmay hs hold hnew⟩
      · refine ⟨b, by simp, hc.frame inv hmay hs ?_ ?_⟩
        · simp [consumerOf, consumptionOf, hid]
        · rw [hnew, update_of_ne (Ne.symm hid)]
  obtain ⟨h', b, hh, hc⟩ := key
  obtain rfl := append_cancel_left hh
  exact ⟨b, hc⟩

/-! ### Reads that do not consume -/

theorem record_consumed (s : StmtLog) (o : Op) (res : o.Res) :
    (s.record o res).stream.consumed = (consumptionOf ⟨o, res⟩).or s.stream.consumed := by
  cases res <;> cases o <;> simp [record, consumptionOf]

theorem consumed_snoc (hc : (logOf h i).stream.consumed ≠ none) (j : ι) (e : Event Op Op.Res) :
    (logOf (h ++ [(j, e)]) i).stream.consumed ≠ none := by
  by_cases hij : j = i
  · subst hij
    rw [logOf_snoc_self, record_consumed]
    simp [hc]
  · rwa [logOf_snoc_ne hij]

/-- A log with a successful compare-and-set belongs to a consumer. -/
theorem mem_consumers_of_consumed {id : StreamId} {new : StreamOffset}
    (hc : (logOf h i).stream.consumed = some (id, new)) : i ∈ consumers id h := by
  induction h using reverseRecOn with
  | nil => cases hc
  | append_singleton h x ih =>
    obtain ⟨j, e⟩ := x
    unfold consumers at ih ⊢
    rw [filterMap_append, mem_append]
    by_cases hij : j = i
    · subst hij
      rw [logOf_snoc_self, record_consumed] at hc
      cases he : consumptionOf e with
      | none =>
        rw [he] at hc
        exact .inl (ih hc)
      | some y =>
        rw [he] at hc
        obtain rfl := some.inj hc
        right
        simp [consumerOf, he]
    · rw [logOf_snoc_ne hij] at hc
      exact .inl (ih hc)

theorem run_consumed_mono (hr1 : Run (Step pq) (sessionConfig fmt w₀ stmts) h₁ c₁)
    (hr2 : Run (Step pq) c₁ h₂ c₂) (hc : (logOf h₁ i).stream.consumed ≠ none) :
    (logOf (h₁ ++ h₂) i).stream.consumed ≠ none := by
  refine Run.always_after (fun h _ => (logOf h i).stream.consumed ≠ none)
    sessionConfig_follows ?_ hr1 hr2 hc
  intro h c j o res w' _ ih _ _
  exact consumed_snoc ih j _

/-- An event that changes a stream offset belongs to a read in commit mode that does not fail. -/
theorem commit_of_offset_changed {e : Event Op Op.Res}
    (hr1 : Run (Step pq) (sessionConfig fmt w₀ stmts) h₁ c₁) (hx : Run (Step pq) c₁ [(i, e)] c)
    (hr2 : Run (Step pq) c h₂ c₂) (hne : c.world.streamOffsets ≠ c₁.world.streamOffsets) :
    ∃ req, stmts i = .readStream req ∧ req.readMode = .commit ∧
      ∀ err, c₂.threads i ≠ .ret (.error err) := by
  obtain ⟨o, res⟩ := e
  obtain ⟨k, w', hop, hs, hnil⟩ := hx.cons_inv
  obtain rfl := hnil.eq_of_nil
  have hmay := hr1.allowed sessionConfig_follows hop
  rw [session_logAfter] at hmay
  cases step_offsetEffect hs with
  | frame _ hsame => exact (hne hsame).elim
  | @compareAndSet id current new _ _ =>
    obtain ⟨req, hst, m, offset, records, published, batches, -, -, -, hmode, -⟩ :=
      readerMay_of_compareAndSet hmay
    refine ⟨req, hst, hmode, fun err hend => ?_⟩
    have hr := (hr1.append hx).append hr2
    have hnow : (logOf (h₁ ++ [(i, ⟨.compareAndSetStreamOffset id current.committedSequence new,
        .ok ()⟩)]) i).stream.consumed ≠ none := by
      rw [logOf_snoc_self]
      exact some_ne_none _
    have hconsumed := run_consumed_mono (hr1.append hx) hr2 hnow
    -- but a read that ends with an error has not moved an offset
    have hfol := hr.follows sessionConfig_follows i
    rw [hend, hst] at hfol
    exact hconsumed hfol

/-- **Streams are consumed exactly once.**  Over every run `h₁ ++ h₂` of statements from an empty
change log of table `t`, for every stream `sid` over `t` with offset `offset₁` after `h₁`:
* the rows that the reads registered whose compare-and-set succeeded in `h₂`, in the order of
  these, are exactly the change rows of the log from `offset₁` to the offset after `h₂`: each
  sequence number in between once, in order;
* a successful read in commit mode without a compare-and-set registered no rows;
* an event that changes a stream offset belongs to a read in commit mode that does not fail. -/
theorem stream_exactly_once (h0 : w₀.EmptyChangeLog t) (hover : StreamOver w₀.catalog sid t)
    (hr₁ : Run (Step pq) (sessionConfig fmt w₀ stmts) h₁ c₁) (hr₂ : Run (Step pq) c₁ h₂ c₂)
    {offset₁ : StreamOffset} (hoff : c₁.world.streamOffsets sid = some offset₁) :
    (∃ offset₂, c₂.world.streamOffsets sid = some offset₂ ∧
      offset₁.committedSequence ≤ offset₂.committedSequence ∧
      (consumers sid h₂).flatMap (registeredRows (h₁ ++ h₂)) =
        c₂.world.cdcRows t offset₁.committedSequence offset₂.committedSequence ∧
      (c₂.world.cdcRows t offset₁.committedSequence offset₂.committedSequence).map rowSequence =
        List.range' (offset₁.committedSequence + 1)
          (offset₂.committedSequence - offset₁.committedSequence)) ∧
    (∀ i req q, stmts i = .readStream req → req.readMode = .commit →
      c₂.threads i = .ret (.ok q) → (logOf (h₁ ++ h₂) i).stream.Of sid →
      (∀ id, i ∉ consumers id (h₁ ++ h₂)) → registeredRows (h₁ ++ h₂) i = []) ∧
    ∀ ha i e hb ca cb, h₁ ++ h₂ = ha ++ (i, e) :: hb →
      Run (Step pq) (sessionConfig fmt w₀ stmts) ha ca → Run (Step pq) ca [(i, e)] cb →
      Run (Step pq) cb hb c₂ → cb.world.streamOffsets ≠ ca.world.streamOffsets →
      ∃ req, stmts i = .readStream req ∧ req.readMode = .commit ∧
        ∀ err, c₂.threads i ≠ .ret (.error err) := by
  have hr := hr₁.append hr₂
  refine ⟨?_, ?_, ?_⟩
  · obtain ⟨b, hc⟩ := run_consumed h0 hover hr₁ hr₂ hoff
    obtain ⟨offset₂, hoff₂, rfl⟩ := hc.offset
    exact ⟨offset₂, hoff₂, hc.le, hc.rows, hc.sequences⟩
  · intro i req q hst hmode hend hof hnot
    have hfol := hr.follows sessionConfig_follows i
    rw [session_logAfter, hend, hst] at hfol
    obtain ⟨m, offset, records, published, batches, hq, hreg, hidle⟩ := hfol
    have hnone : (logOf (h₁ ++ h₂) i).stream.consumed = none := by
      by_contra hne
      obtain ⟨⟨id, new⟩, hsome⟩ := ne_none_iff_exists'.1 hne
      exact hnot id (mem_consumers_of_consumed hsome)
    have hle : published ≤ offset.committedSequence := by
      rcases hidle hnone with hpreview | hle
      · rw [hmode] at hpreview
        cases hpreview
      · exact hle
    have inv := run_cdcInv hr sessionConfig_follows_cdc h0
    obtain ⟨hrows, hseam, -⟩ := registered_rows inv (run_readerInv hr h0 hover i) hof hq
    have heq : published = offset.committedSequence := le_antisymm hle hseam.le
    rw [registeredRows, hreg, getD_some, hrows, heq, cdcRows_self]
  · intro ha i e hb ca cb _ hra hx hrb hne
    exact commit_of_offset_changed hra hx hrb hne

end Readers

/-! ### A concrete run -/

/-- The store `oneTable` with a stream `st` over its table, from the beginning on. -/
def oneStream : World :=
  { oneTable with
    catalog :=
      { oneTable.catalog with
        streams := fun id => if id = 7 then some ⟨7, 1, 1, 1, "st"⟩ else none
        streamByName := fun _ _ name => if name = "st" then some 7 else none }
    streamOffsets := fun id => if id = 7 then some ⟨1, 0, 0, none, none⟩ else none }

/-- An INSERT and a read of the stream in commit mode. -/
def insertAndRead : Bool → SessionStatement
  | false => .dml (insertOne 5)
  | true => .readStream ⟨rootSession, "d", "s", "st", .commit, "SELECT * FROM st"⟩

theorem oneStream_over : StreamOver oneStream.catalog 7 1 := by
  intro db schema name m hm _
  obtain ⟨dbMeta, -, hm⟩ := except_bind_eq_ok.1 hm
  obtain ⟨schemaMeta, -, hm⟩ := except_bind_eq_ok.1 hm
  split at hm
  · next s hs =>
    cases hm
    obtain ⟨id, -, hid⟩ := bind_eq_some_iff.1 hs
    simp only [oneStream] at hid
    split_ifs at hid
    cases hid
    rfl
  · cases hm

/-- The INSERT runs, then the read: it consumes the one change row. -/
theorem stream_exactly_once_insert :
    ∃ h c, Run (Step Parquet.verbatim) (sessionConfig plainText oneStream insertAndRead) h c ∧
      oneStream.EmptyChangeLog 1 ∧ StreamOver oneStream.catalog 7 1 ∧ consumers 7 h = [true] ∧
      (registeredRows h true).map rowSequence = [1] := by
  have hrun : ((sessionConfig plainText oneStream insertAndRead).schedule
      (Op.apply Parquet.verbatim)
      (replicate 11 (false, { id := 1 }) ++
        replicate 10 (true, { scanned := 5 }))).any (fun x =>
          decide (consumers 7 x.1 = [true]) &&
          decide ((x.2.world.streamOffsets 7).map StreamOffset.committedSequence = some 1)) =
      true := by
    decide +kernel
  obtain ⟨h, c, hr, hp⟩ := exists_run_of_schedule hrun
  rw [Bool.and_eq_true, decide_eq_true_eq, decide_eq_true_eq] at hp
  have h0 : oneStream.EmptyChangeLog 1 := ⟨rfl, fun _ => rfl⟩
  have hmain := (stream_exactly_once h0 oneStream_over Run.nil hr rfl).1
  obtain ⟨offset, hoff, -, hrows, hseq⟩ := hmain
  have hone : offset.committedSequence = 1 := by
    rw [hoff] at hp
    exact some.inj hp.2
  refine ⟨h, c, hr, h0, oneStream_over, hp.1, ?_⟩
  rw [hp.1, nil_append, flatMap_singleton] at hrows
  rw [hrows, hseq, hone]
  rfl

end NovaCore
