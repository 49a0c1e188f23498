import NovaCore.Data.Contiguous
import NovaCore.Executor.Protocol

/-!
# The change log in every interleaving

What the change log, the allocation counter, the stored payloads and the published watermark have
to do with each other while any number of statements allocate, store and commit.

## Main definitions

* `allocations h` : the sequence ranges handed out in a history, in order.
* `cdcProtocol` : what the change log relies on from each thread.
* `CdcInv` : the invariant, kept by every step (`CdcInv.step`).

## Main results

* `CdcInv.alloc_unique` : a sequence number belongs to one allocation.
* `CdcInv.changeLog_step` : a change record that is stored is never replaced.
* `run_cdcInv` : the invariant holds after every run.
-/

namespace NovaCore

open List Option Function World Contiguous Allocation StmtLog ChangeRecordMeta Nat

/-! ### Events of the change log -/

/-- The range an event hands out. -/
def allocationOf : Event Op Op.Res → Option Allocation
  | ⟨.allocateTableChangeSequences t n, .ok first⟩ => some ⟨t, first, n⟩
  | _ => none

/-- The payload an event stores. -/
def payloadOf : Event Op Op.Res → Option (CdcPath × CdcBatch)
  | ⟨.putPayload p b, .ok _⟩ => some (p, b)
  | _ => none

/-- The first number after the range. -/
def Allocation.past (a : Allocation) : ℕ := a.first + a.count

/-- The number `s` belongs to the range. -/
def Allocation.Covers (a : Allocation) (s : ℕ) : Prop := a.first ≤ s ∧ s < a.past

/-- The range `a` was handed out before `b`: if both are ranges of one table, `a` lies below
`b` (unless `a` runs past the end of the 64-bit numbers). -/
def Allocation.Before (a b : Allocation) : Prop :=
  a.tableId = b.tableId → a.past ≤ u64Max + 1 → a.past ≤ b.first

/-- The number `s` belongs to the range of the record. -/
def ChangeRecordMeta.Covers (r : ChangeRecordMeta) (s : ℕ) : Prop :=
  r.sequence ≤ s ∧ s < r.sequence + r.payload.rowCount

theorem StmtLog.record_allocs (s : StmtLog) (o : Op) (r : o.Res) :
    (s.record o r).cdc.allocs = s.cdc.allocs ++ (allocationOf ⟨o, r⟩).toList := by
  cases r <;> cases o <;> simp [record, allocationOf]

theorem StmtLog.record_payloads (s : StmtLog) (o : Op) (r : o.Res) :
    (s.record o r).cdc.payloads = s.cdc.payloads ++ (payloadOf ⟨o, r⟩).toList := by
  cases r <;> cases o <;> simp [record, payloadOf]

/-- What an event does to the part of the world that belongs to the change log. -/
inductive CdcEffect (pq : Parquet) (w w' : World) : Event Op Op.Res → Prop
  | frame {e : Event Op Op.Res} (halloc : allocationOf e = none) (hpayload : payloadOf e = none)
      (hcommit : commitOf e = none) (hnext : w'.changeNextSeq = w.changeNextSeq)
      (hseq : w'.changeSeq = w.changeSeq) (hlog : w'.changeLog = w.changeLog)
      (hpayloads : w'.payloads = w.payloads) : CdcEffect pq w w' e
  | allocate {t : TableId} {count first : ℕ} (hfirst : first = w.allocated t + 1)
      (hw : w' = { w with changeNextSeq :=
              Function.update w.changeNextSeq t (satAdd (w.allocated t) count) }) :
      CdcEffect pq w w' ⟨.allocateTableChangeSequences t count, .ok first⟩
  | putPayload {path : CdcPath} {batch : CdcBatch}
      (hw : w' = { w with payloads := Function.update w.payloads path (some (pq.cdc batch)) }) :
      CdcEffect pq w w' ⟨.putPayload path batch, .ok ()⟩
  | commit {txnId : TxnId} {newMps : List MicroPartitionMeta} {superseded : List (MpId × MpId)}
      {records : List ChangeRecordMeta} (he : w.CommitEffect w' newMps superseded records) :
      CdcEffect pq w w' ⟨.commitTableCdc txnId newMps superseded records, .ok ()⟩

variable {pq : Parquet} {w w' : World}

theorem allocationOf_of_not_mutates {e : Event Op Op.Res} (he : mutates e = false) :
    allocationOf e = none ∧ payloadOf e = none ∧ commitOf e = none := by
  obtain ⟨o, r⟩ := e
  cases r <;> cases o <;> simp_all [mutates, allocationOf, payloadOf, commitOf]

theorem step_cdcEffect {o : Op} {r : o.Res} (h : Step pq w o r w') : CdcEffect pq w w' ⟨o, r⟩ := by
  cases step_effect h with
  | quiet he =>
    obtain ⟨ha, hp, hc⟩ := allocationOf_of_not_mutates he
    exact .frame ha hp hc rfl rfl rfl rfl
  | allocate h =>
    obtain ⟨hfirst, -, hw⟩ := allocate_eq_ok h
    exact .allocate hfirst hw
  | commit h => exact .commit (commitTableCdc_eq_ok h)
  | putPayload path batch => exact .putPayload rfl
  | compareAndSet h =>
    obtain ⟨-, -, -, rfl⟩ := compareAndSet_eq_ok h
    exact .frame rfl rfl rfl rfl rfl rfl rfl
  | _ => exact .frame rfl rfl rfl rfl rfl rfl rfl

/-! ### Logs and histories -/

section

variable {ι : Type} {h : History ι Op Op.Res} {i j : ι} {e : Event Op Op.Res}

/-- The ranges handed out in a history, oldest first, with the thread each was handed to. -/
def allocations (h : History ι Op Op.Res) : List (ι × Allocation) :=
  h.filterMap fun x => (allocationOf x.2).map fun a => (x.1, a)

theorem allocations_snoc (h : History ι Op Op.Res) (i : ι) (e : Event Op Op.Res) :
    allocations (h ++ [(i, e)]) =
      allocations h ++ ((allocationOf e).map fun a => (i, a)).toList := by
  cases he : allocationOf e <;> simp [allocations, he]

variable [DecidableEq ι]

/-- A thread's log holds the ranges handed to it, in order. -/
theorem logOf_allocs (h : History ι Op Op.Res) (i : ι) :
    (logOf h i).cdc.allocs = ((allocations h).filter fun x => x.1 = i).map Prod.snd := by
  induction h using reverseRecOn with
  | nil => rfl
  | append_singleton h x ih =>
    obtain ⟨j, e⟩ := x
    rw [allocations_snoc, filter_append, map_append, ← ih]
    by_cases hij : j = i
    · subst hij
      rw [logOf_snoc_self, record_allocs]
      cases allocationOf e <;> simp
    · rw [logOf_snoc_ne hij]
      cases allocationOf e <;> simp [hij]

theorem mem_allocs_iff {a : Allocation} : a ∈ (logOf h i).cdc.allocs ↔ (i, a) ∈ allocations h := by
  simp [logOf_allocs]

theorem allocs_mono {a : Allocation} (ha : a ∈ (logOf h i).cdc.allocs) (j : ι)
    (e : Event Op Op.Res) : a ∈ (logOf (h ++ [(j, e)]) i).cdc.allocs := by
  rw [mem_allocs_iff] at ha ⊢
  rw [allocations_snoc]
  exact mem_append_left _ ha

variable {p : CdcPath × CdcBatch}

theorem payloads_mono (hp : p ∈ (logOf h i).cdc.payloads) (j : ι)
    (e : Event Op Op.Res) : p ∈ (logOf (h ++ [(j, e)]) i).cdc.payloads := by
  by_cases hij : j = i
  · subst hij
    rw [logOf_snoc_self, record_payloads]
    exact mem_append_left _ hp
  · rwa [logOf_snoc_ne hij]

/-- The payloads of a log after an event. -/
theorem payloads_snoc (hp : p ∈ (logOf (h ++ [(j, e)]) i).cdc.payloads) :
    p ∈ (logOf h i).cdc.payloads ∨ i = j ∧ payloadOf e = some p := by
  by_cases hij : j = i
  · subst hij
    rw [logOf_snoc_self, record_payloads] at hp
    simpa using hp
  · rw [logOf_snoc_ne hij] at hp
    exact .inl hp

/-! ### The invariant -/

/-- What the change log relies on from a thread with log `s`. -/
def CdcMay (s : StmtLog) : Op → Prop
  | .putPayload p b => ∃ done a, s.cdc.allocs = done ++ [a] ∧
      List.Forall₂ PayloadFor done s.cdc.payloads ∧ PayloadFor a (p, b)
  | .commitTableCdc _ _ _ records => s.commit = none ∧ ∃ t, s.cdc.Complete t records
  | _ => True

/-- The protocol of a thread, as far as the change log relies on it. -/
def cdcProtocol : Protocol Op Op.Res StmtLog where
  record := StmtLog.record
  Allowed := CdcMay

/-- The record `r` was committed by thread `i` for the range `a` and the payload `p`. -/
structure LoggedBy (h : History ι Op Op.Res) (r : ChangeRecordMeta) (i : ι) (a : Allocation)
    (p : CdcPath × CdcBatch) : Prop where
  alloc_mem : a ∈ (logOf h i).cdc.allocs
  payload_mem : p ∈ (logOf h i).cdc.payloads
  committed : (logOf h i).commit ≠ none
  payloadFor : PayloadFor a p
  recordFor : RecordFor p r

/-- The invariant that connects the change log of table `t` with the history. -/
structure CdcInv (pq : Parquet) (t : TableId) (h : History ι Op Op.Res) (w : World) : Prop where
  /-- Later ranges lie above earlier ones. -/
  separated : (allocations h).Pairwise fun x y => x.2.Before y.2
  /-- Ranges handed out lie below the allocation counter. -/
  below : ∀ x ∈ allocations h, x.2.past ≤ u64Max + 1 → x.2.past ≤ w.allocated x.2.tableId + 1
  /-- Sequence numbers start at one. -/
  first_pos : ∀ {x}, x ∈ allocations h → 0 < x.2.first
  /-- Payloads are stored for ranges. -/
  paired : ∀ i p, p ∈ (logOf h i).cdc.payloads → ∃ a ∈ (logOf h i).cdc.allocs, PayloadFor a p
  /-- A stored payload stays as it was written. -/
  stored : ∀ i p, p ∈ (logOf h i).cdc.payloads → w.payloads p.1 = some (pq.cdc p.2)
  /-- Every record in the log was committed by a thread that owns its range. -/
  logged : ∀ k r, w.changeLog t k = some r →
    r.tableId = t ∧ r.sequence = k ∧ ∃ i a p, LoggedBy h r i a p
  /-- Everything up to the watermark is covered by records. -/
  covered : ∀ s, 0 < s → s ≤ w.tableChangeSequence t →
    ∃ k r, w.changeLog t k = some r ∧ r.Covers s
  /-- The watermark is the end of a record. -/
  ended : w.tableChangeSequence t = 0 ∨ ∃ k r, w.changeLog t k = some r ∧
    r.sequence + r.payload.rowCount = w.tableChangeSequence t + 1

/-- The change log of table `t` is empty and nothing of it is published. -/
structure World.EmptyChangeLog (w : World) (t : TableId) : Prop where
  changeSeq : w.tableChangeSequence t = 0
  changeLog : ∀ k, w.changeLog t k = none

theorem CdcInv.init {t : TableId} (h0 : w.EmptyChangeLog t) :
    CdcInv pq t ([] : History ι Op Op.Res) w where
  separated := .nil
  below := by simp [allocations]
  first_pos := by simp [allocations]
  paired := by simp
  stored := by simp
  logged k r hk := by simp [h0.changeLog] at hk
  covered s hs hle := by
    rw [h0.changeSeq] at hle
    omega
  ended := .inl h0.changeSeq

namespace LoggedBy

variable {r : ChangeRecordMeta} {a : Allocation} {p : CdcPath × CdcBatch}

theorem mono (hl : LoggedBy h r i a p) (j : ι) (e : Event Op Op.Res) :
    LoggedBy (h ++ [(j, e)]) r i a p :=
  ⟨allocs_mono hl.alloc_mem j e, payloads_mono hl.payload_mem j e, committed_mono hl.committed j e,
    hl.payloadFor, hl.recordFor⟩

end LoggedBy

theorem PayloadFor.covers_first {a : Allocation} (hp : PayloadFor a p) : a.Covers a.first :=
  ⟨le_rfl, Nat.lt_add_of_pos_right hp.pos⟩

section RecordFor

variable {r : ChangeRecordMeta} {a : Allocation} {p : CdcPath × CdcBatch}

section

variable (hr : RecordFor p r) (hp : PayloadFor a p)
include hr hp

theorem RecordFor.sequence_eq : r.sequence = a.first := hr.sequence.trans hp.start

theorem RecordFor.rowCount_eq : r.payload.rowCount = a.count := by
  rw [hr.payload]
  exact CdcBatch.numRows_eq_of_sequences hp.sequences

theorem RecordFor.tableId_eq : r.tableId = a.tableId := hr.tableId.trans hp.tableId

theorem RecordFor.covers_iff {s : ℕ} : r.Covers s ↔ a.Covers s := by
  unfold ChangeRecordMeta.Covers Allocation.Covers past
  rw [hr.sequence_eq hp, hr.rowCount_eq hp]

theorem RecordFor.recordEnd_eq : r.recordEnd + 1 = a.past := by
  have hfits := hp.fits
  have hpos := hp.pos
  unfold recordEnd satSub past
  rw [hr.sequence_eq hp, hr.rowCount_eq hp, satAdd_eq hfits]
  omega

end

end RecordFor

/-! ### Consequences of the invariant -/

section Consequences

variable {t : TableId} {a b : Allocation} {s : ℕ}

section

variable (inv : CdcInv pq t h w)
include inv

/-- **A sequence number belongs to one allocation.** -/
theorem CdcInv.alloc_unique (ha : a ∈ (logOf h i).cdc.allocs) (hb : b ∈ (logOf h j).cdc.allocs)
    (htab : a.tableId = b.tableId) (hfa : a.past ≤ u64Max) (hfb : b.past ≤ u64Max)
    (hsa : a.Covers s) (hsb : b.Covers s) : i = j ∧ a = b := by
  rw [mem_allocs_iff] at ha hb
  obtain ⟨ha1, ha2⟩ := hsa
  obtain ⟨hb1, hb2⟩ := hsb
  rcases pairwise_eq_or_rel inv.separated ha hb with heq | hab | hba
  · exact Prod.ext_iff.1 heq
  · have hle : a.past ≤ b.first := hab htab (le_succ_of_le hfa)
    omega
  · have hle : b.past ≤ a.first := hba htab.symm (le_succ_of_le hfb)
    omega

theorem CdcInv.allocs_separated (i : ι) : (logOf h i).cdc.allocs.Pairwise Allocation.Before := by
  rw [logOf_allocs, pairwise_map]
  exact inv.separated.filter _

variable {r : ChangeRecordMeta}

/-- A sequence number belongs to one record. -/
theorem CdcInv.record_unique {k k' : ℕ} {r' : ChangeRecordMeta} (hr : w.changeLog t k = some r)
    (hr' : w.changeLog t k' = some r') (hs : r.Covers s) (hs' : r'.Covers s) : r = r' := by
  obtain ⟨ht, hk, i, a, p, hl⟩ := inv.logged k r hr
  obtain ⟨ht', hk', j, b, q, hl'⟩ := inv.logged k' r' hr'
  have htab : a.tableId = b.tableId := by
    rw [← hl.recordFor.tableId_eq hl.payloadFor, ← hl'.recordFor.tableId_eq hl'.payloadFor, ht, ht']
  obtain ⟨-, rfl⟩ := inv.alloc_unique hl.alloc_mem hl'.alloc_mem htab hl.payloadFor.fits
    hl'.payloadFor.fits ((hl.recordFor.covers_iff hl.payloadFor).1 hs)
    ((hl'.recordFor.covers_iff hl'.payloadFor).1 hs')
  have hkk : k = k' := by
    rw [← hk, ← hk', hl.recordFor.sequence_eq hl.payloadFor,
      hl'.recordFor.sequence_eq hl'.payloadFor]
  subst hkk
  exact mem_unique hr hr'

theorem CdcInv.recordEnd_add_one {k : ℕ}
    (hr : w.changeLog t k = some r) : r.recordEnd + 1 = r.sequence + r.payload.rowCount := by
  obtain ⟨-, -, i, a, p, hl⟩ := inv.logged k r hr
  rw [hl.recordFor.recordEnd_eq hl.payloadFor, hl.recordFor.sequence_eq hl.payloadFor,
    hl.recordFor.rowCount_eq hl.payloadFor]
  rfl

theorem CdcInv.covers_sequence {k : ℕ} (hr : w.changeLog t k = some r) : r.Covers r.sequence := by
  obtain ⟨-, -, i, a, p, hl⟩ := inv.logged k r hr
  rw [hl.recordFor.covers_iff hl.payloadFor, hl.recordFor.sequence_eq hl.payloadFor]
  exact hl.payloadFor.covers_first

theorem CdcInv.sequence_add_rowCount_le {k : ℕ}
    (hr : w.changeLog t k = some r) : r.sequence + r.payload.rowCount ≤ u64Max := by
  obtain ⟨-, -, i, a, p, hl⟩ := inv.logged k r hr
  rw [hl.recordFor.sequence_eq hl.payloadFor, hl.recordFor.rowCount_eq hl.payloadFor]
  exact hl.payloadFor.fits

/-- The watermark leaves room for one more number. -/
theorem CdcInv.watermark_lt : w.tableChangeSequence t < u64Max := by
  rcases inv.ended with h0 | ⟨k, r, hr, hend⟩
  · rw [h0]
    decide
  · have hfits := inv.sequence_add_rowCount_le hr
    omega

end

end Consequences

/-! ### Steps -/

section Steps

variable {t : TableId} (inv : CdcInv pq t h w)
include inv

/-- An event that hands out no range keeps the invariant if stored payloads stay and a record that
it logs is for a range of its thread. -/
theorem CdcInv.snoc (halloc : allocationOf e = none) (hgrow : ∀ u, w.allocated u ≤ w'.allocated u)
    (hkept : ∀ j p, p ∈ (logOf h j).cdc.payloads → w'.payloads p.1 = w.payloads p.1)
    (hnew : ∀ p, payloadOf e = some p →
      w'.payloads p.1 = some (pq.cdc p.2) ∧ ∃ a ∈ (logOf h i).cdc.allocs, PayloadFor a p)
    (hlogged : ∀ k r, w'.changeLog t k = some r → w.changeLog t k = some r ∨
      r.tableId = t ∧ r.sequence = k ∧ ∃ a p, LoggedBy (h ++ [(i, e)]) r i a p)
    (hcovered : ∀ s, 0 < s → s ≤ w'.tableChangeSequence t →
      ∃ k r, w'.changeLog t k = some r ∧ r.Covers s)
    (hended : w'.tableChangeSequence t = 0 ∨ ∃ k r, w'.changeLog t k = some r ∧
      r.sequence + r.payload.rowCount = w'.tableChangeSequence t + 1) :
    CdcInv pq t (h ++ [(i, e)]) w' := by
  have hallocs : allocations (h ++ [(i, e)]) = allocations h := by
    simp [allocations_snoc, halloc]
  refine ⟨?_, ?_, ?_, ?_, ?_, ?_, hcovered, hended⟩
  · rw [hallocs]
    exact inv.separated
  · intro x hx hfits
    rw [hallocs] at hx
    exact (inv.below x hx hfits).trans (succ_le_succ (hgrow _))
  · rw [hallocs]
    exact inv.first_pos
  · intro j p hp
    rcases payloads_snoc hp with hold | ⟨rfl, hadded⟩
    · obtain ⟨b, hb, hpb⟩ := inv.paired j p hold
      exact ⟨b, allocs_mono hb i e, hpb⟩
    · obtain ⟨-, a, ha, hpa⟩ := hnew p hadded
      exact ⟨a, allocs_mono ha j e, hpa⟩
  · intro j p hp
    rcases payloads_snoc hp with hold | ⟨-, hp⟩
    · rw [hkept j p hold]
      exact inv.stored j p hold
    · exact (hnew p hp).1
  · intro k r hr
    rcases hlogged k r hr with hold | ⟨ht, hk, a, p, hl⟩
    · obtain ⟨ht, hk, j, a, p, hl⟩ := inv.logged k r hold
      exact ⟨ht, hk, j, a, p, hl.mono i e⟩
    · exact ⟨ht, hk, i, a, p, hl⟩

/-- An event that does not touch the change log keeps the invariant. -/
theorem CdcInv.frame (halloc : allocationOf e = none)
    (hpayload : payloadOf e = none) (hnext : w'.changeNextSeq = w.changeNextSeq)
    (hseq : w'.changeSeq = w.changeSeq) (hlog : w'.changeLog = w.changeLog)
    (hpayloads : w'.payloads = w.payloads) : CdcInv pq t (h ++ [(i, e)]) w' := by
  have hwm : ∀ t, w'.tableChangeSequence t = w.tableChangeSequence t := by
    intro t
    simp [tableChangeSequence, hseq]
  refine inv.snoc halloc (fun u => ?_) (fun _ _ _ => by rw [hpayloads]) (by simp [hpayload])
    (fun k r hr => .inl (hlog ▸ hr)) ?_ ?_
  · simp [allocated, hnext, hwm]
  · rw [hwm, hlog]
    exact inv.covered
  · rw [hwm, hlog]
    exact inv.ended

/-- Handing out a range. -/
theorem CdcInv.allocate {t' : TableId} {count first : ℕ} (hfirst : first = w.allocated t' + 1)
    (hw : w' = { w with changeNextSeq :=
                          update w.changeNextSeq t' (satAdd (w.allocated t') count) }) :
    CdcInv pq t (h ++ [(i, ⟨.allocateTableChangeSequences t' count, .ok first⟩)]) w' := by
  have hallocs : allocations (h ++ [(i, ⟨.allocateTableChangeSequences t' count, .ok first⟩)]) =
      allocations h ++ [(i, ⟨t', first, count⟩)] := by
    simp [allocations_snoc, allocationOf]
  have hself : w'.allocated t' = min (w.allocated t' + count) u64Max := by
    simp [allocated, hw, satAdd]
  have hne : ∀ u, u ≠ t' → w'.allocated u = w.allocated u := by
    intro u hu
    simp [allocated, tableChangeSequence, hw, update_of_ne hu]
  subst hw
  refine ⟨?_, ?_, ?_, ?_, ?_, ?_, inv.covered, inv.ended⟩
  · -- the new range starts right above the counter, and `below` puts the old ones under it
    rw [hallocs]
    refine pairwise_append.2 ⟨inv.separated, pairwise_singleton _ _, ?_⟩
    intro x hx y hy htab hfits
    obtain rfl := mem_singleton.1 hy
    have hbelow := inv.below x hx hfits
    rw [show x.2.tableId = t' from htab, ← hfirst] at hbelow
    exact hbelow
  · intro x hx hfits
    rw [hallocs] at hx
    rcases mem_snoc.1 hx with hx | rfl
    · have hbelow := inv.below x hx hfits
      by_cases hu : x.2.tableId = t'
      · rw [hu] at hbelow ⊢
        omega
      · rwa [hne _ hu]
    · change first + count ≤ u64Max + 1 at hfits
      change first + count ≤ allocated _ t' + 1
      omega
  · intro x hx
    rw [hallocs] at hx
    rcases mem_snoc.1 hx with hx | rfl
    · exact inv.first_pos hx
    · exact hfirst ▸ succ_pos _
  · intro j p hp
    rcases payloads_snoc hp with hp | ⟨-, hp⟩
    · obtain ⟨b, hb, hpb⟩ := inv.paired j p hp
      exact ⟨b, allocs_mono hb i _, hpb⟩
    · cases hp
  · intro j p hp
    rcases payloads_snoc hp with hp | ⟨-, hp⟩
    · exact inv.stored j p hp
    · cases hp
  · intro k r hr
    obtain ⟨ht, hk, j, b, p, hl⟩ := inv.logged k r hr
    exact ⟨ht, hk, j, b, p, hl.mono i _⟩

/-- Storing a payload: its path carries the first number of a range that no other payload was
stored for. -/
theorem CdcInv.putPayload {path : CdcPath} {batch : CdcBatch}
    (hmay : CdcMay (logOf h i) (.putPayload path batch))
    (hw : w' = { w with payloads := update w.payloads path (some (pq.cdc batch)) }) :
    CdcInv pq t (h ++ [(i, ⟨.putPayload path batch, .ok ()⟩)]) w' := by
  obtain ⟨done, a, hallocs, hdone, hpay⟩ := hmay
  have ha : a ∈ (logOf h i).cdc.allocs := by simp [hallocs]
  -- payloads stored before lie at other paths
  have hother : ∀ j p, p ∈ (logOf h j).cdc.payloads → p.1 ≠ path := by
    rintro j p hp rfl
    by_cases hij : j = i
    · subst hij
      obtain ⟨b, hb, hpb⟩ := forall₂_exists_left hdone hp
      have hsep := inv.allocs_separated j
      rw [hallocs, pairwise_append] at hsep
      have hle : b.past ≤ a.first := hsep.2.2 b hb a (by simp)
        (hpb.tableId.symm.trans hpay.tableId) (le_succ_of_le hpb.fits)
      have hpos := hpb.pos
      have hfirst : b.first = a.first := hpb.start.symm.trans hpay.start
      unfold past at hle
      omega
    · obtain ⟨b, hb, hpb⟩ := inv.paired j p hp
      have hfirst : b.first = a.first := hpb.start.symm.trans hpay.start
      refine hij (inv.alloc_unique hb ha (hpb.tableId.symm.trans hpay.tableId) hpb.fits hpay.fits
        hpb.covers_first ?_).1
      rw [hfirst]
      exact hpay.covers_first
  subst hw
  refine inv.snoc rfl (fun _ => le_rfl) (fun j p hp => update_of_ne (hother j p hp) _ _) ?_
    (fun _ _ => .inl) inv.covered inv.ended
  rintro p hp
  obtain rfl := some.inj hp
  exact ⟨update_self _ _ _, a, ha, hpay⟩

end Steps

/-! ### Commits -/

section Commit

variable {t t' : TableId} {newMps : List MicroPartitionMeta} {superseded : List (MpId × MpId)}
  {records : List ChangeRecordMeta} {txnId : TxnId} {r : ChangeRecordMeta} {c : CdcLog}

theorem CdcLog.Complete.mem (hc : c.Complete t records) (hr : r ∈ records) :
    r.tableId = t ∧ ∃ a ∈ c.allocs, ∃ p ∈ c.payloads, PayloadFor a p ∧ RecordFor p r := by
  obtain ⟨p, hp, hpr⟩ := forall₂_exists_left hc.records hr
  obtain ⟨a, ha, hap⟩ := forall₂_exists_left hc.payloads hp
  refine ⟨?_, a, ha, p, hp, hap, hpr⟩
  rw [hpr.tableId_eq hap, hc.tables a ha]

theorem CdcLog.Complete.fits (hc : c.Complete t records) (hr : r ∈ records) :
    0 < r.payload.rowCount ∧ r.sequence + r.payload.rowCount ≤ u64Max := by
  obtain ⟨-, a, -, p, -, hap, hpr⟩ := hc.mem hr
  rw [hpr.rowCount_eq hap, hpr.sequence_eq hap]
  exact ⟨hap.pos, hap.fits⟩

theorem CdcLog.Complete.map_sequence (hc : c.Complete t records) :
    records.map sequence = c.allocs.map first := by
  have hp := hc.payloads
  have hr := hc.records
  clear hc
  generalize c.payloads = ps at hp hr
  generalize c.allocs = as at hp
  induction hp generalizing records with
  | nil =>
    cases hr
    rfl
  | cons hap _ ih =>
    cases hr with
    | cons hpr hr =>
      rw [map_cons, map_cons, hpr.sequence_eq hap, ih hr]

/-- The records of one commit have different keys. -/
theorem CdcInv.records_nodup (inv : CdcInv pq t h w) (hc : (logOf h i).cdc.Complete t' records) :
    (records.map sequence).Nodup := by
  have hsep := inv.allocs_separated i
  have hlt : (logOf h i).cdc.allocs.Pairwise fun a b => a.first ≠ b.first := by
    refine hsep.imp_of_mem fun {a b} ha hb hab => ?_
    obtain ⟨p, hp⟩ : ∃ p, PayloadFor a p := by
      obtain ⟨p, -, hp⟩ := forall₂_exists_left hc.payloads.flip ha
      exact ⟨p, hp⟩
    have hle : a.past ≤ b.first :=
      hab ((hc.tables a ha).trans (hc.tables b hb).symm) (le_succ_of_le hp.fits)
    have hpos := hp.pos
    unfold past at hle
    omega
  rw [hc.map_sequence]
  exact pairwise_map.2 hlt

/-- A commit stores its records under keys that are not in use. -/
theorem CdcInv.records_fresh (inv : CdcInv pq t h w) (hunc : (logOf h i).commit = none)
    (hc : (logOf h i).cdc.Complete t' records) (hr : r ∈ records) (ht : r.tableId = t) :
    w.changeLog t r.sequence = none := by
  by_contra hne
  obtain ⟨q, hq⟩ := ne_none_iff_exists'.1 hne
  obtain ⟨-, a, ha, p, -, hap, hpr⟩ := hc.mem hr
  obtain ⟨hqt, hqs, j, b, p', hl⟩ := inv.logged _ _ hq
  -- the record in use was committed by another thread for a range with the same first number
  have hfirst : b.first = a.first := by
    rw [← hl.recordFor.sequence_eq hl.payloadFor, ← hpr.sequence_eq hap, hqs]
  have htab : b.tableId = a.tableId := by
    rw [← hl.recordFor.tableId_eq hl.payloadFor, ← hpr.tableId_eq hap, hqt, ht]
  have hcov : b.Covers a.first := hfirst ▸ hl.payloadFor.covers_first
  obtain ⟨rfl, -⟩ := inv.alloc_unique hl.alloc_mem ha htab hl.payloadFor.fits hap.fits hcov
    hap.covers_first
  exact hl.committed hunc

/-- What a commit does to the log of table `t`. -/
theorem CdcInv.commit_changeLog (inv : CdcInv pq t h w) (hunc : (logOf h i).commit = none)
    (hc : (logOf h i).cdc.Complete t' records)
    (he : w.CommitEffect w' newMps superseded records) {k : ℕ} :
    w'.changeLog t k = some r ↔
      w.changeLog t k = some r ∨ r ∈ records ∧ r.tableId = t ∧ r.sequence = k := by
  rw [he.changeLog]
  by_cases hex : ∃ q ∈ records, q.tableId = t ∧ q.sequence = k
  · obtain ⟨q, hq, hqt, rfl⟩ := hex
    have hnew : loggedRecords w.changeLog records t q.sequence = some q := by
      rw [← hqt]
      exact loggedRecords_of_mem hq (inv.records_nodup hc)
    have hold := inv.records_fresh hunc hc hq hqt
    rw [hnew, hold]
    constructor
    · intro heq
      obtain rfl := some.inj heq
      exact .inr ⟨hq, hqt, rfl⟩
    · rintro (heq | ⟨hr, -, hs⟩)
      · cases heq
      · exact congrArg some (inj_on_of_nodup_map (inv.records_nodup hc) hq hr hs.symm)
  · have hnone : ∀ q ∈ records, q.tableId = t → q.sequence ≠ k :=
      fun q hq hqt hqk => hex ⟨q, hq, hqt, hqk⟩
    rw [loggedRecords_of_not_mem hnone]
    constructor
    · exact .inl
    · rintro (hold | hr)
      · exact hold
      · exact (hex ⟨r, hr⟩).elim

/-! ### The watermark after a commit -/

theorem publishLoop_add_one {next published : ℕ} {ranges : List (ℕ × ℕ)}
    (hnext : next = published + 1) (hr : ∀ r ∈ ranges, r.2 < u64Max) :
    publishLoop next published ranges + 1 = advance next ranges := by
  induction ranges generalizing next published with
  | nil => exact hnext.symm
  | cons r ranges ih =>
    have hrest : ∀ q ∈ ranges, q.2 < u64Max := fun q hq => hr q (mem_cons_of_mem r hq)
    have hsat : satAdd r.2 1 = r.2 + 1 := satAdd_eq (hr r (by simp))
    unfold publishLoop advance
    rw [hsat]
    split_ifs with hstop hstart
    · exact ih hnext hrest
    · exact hnext.symm
    · exact ih rfl hrest

theorem mem_tableRanges {q : ℕ × ℕ} : q ∈ tableRanges t records ↔
      ∃ r ∈ records, r.tableId = t ∧ (r.sequence, r.recordEnd) = q := by
  unfold tableRanges
  simp [and_assoc]

theorem CdcLog.Complete.recordEnd_add_one (hc : c.Complete t' records)
    (hr : r ∈ records) : r.recordEnd + 1 = r.sequence + r.payload.rowCount := by
  obtain ⟨-, a, -, p, -, hap, hpr⟩ := hc.mem hr
  rw [hpr.recordEnd_eq hap, hpr.sequence_eq hap, hpr.rowCount_eq hap]
  rfl

theorem CdcLog.Complete.covered_iff (hc : c.Complete t' records) {s : ℕ} :
    Contiguous.Covered (tableRanges t records) s ↔ ∃ r ∈ records, r.tableId = t ∧ r.Covers s := by
  constructor
  · rintro ⟨q, hq, hqs⟩
    obtain ⟨r, hr, hrt, rfl⟩ := mem_tableRanges.1 hq
    have hend := hc.recordEnd_add_one hr
    exact ⟨r, hr, hrt, hqs.1, by simp only at hqs; omega⟩
  · rintro ⟨r, hr, hrt, hs1, hs2⟩
    have hend := hc.recordEnd_add_one hr
    exact ⟨(r.sequence, r.recordEnd), mem_tableRanges.2 ⟨r, hr, hrt, rfl⟩, hs1, by simp only; omega⟩

theorem CdcInv.publishedThrough_add_one (inv : CdcInv pq t h w)
    (hc : (logOf h i).cdc.Complete t' records) :
    w.publishedThrough records t + 1 =
      advance (w.tableChangeSequence t + 1) (tableRanges t records) := by
  unfold publishedThrough
  have hwm : satAdd (w.tableChangeSequence t) 1 = w.tableChangeSequence t + 1 :=
    satAdd_eq inv.watermark_lt
  rw [hwm]
  refine publishLoop_add_one rfl fun q hq => ?_
  obtain ⟨r, hr, -, rfl⟩ := mem_tableRanges.1 hq
  have hend := hc.recordEnd_add_one hr
  have hfits := (hc.fits hr).2
  omega

/-- A commit publishes exactly what a gap-free walk over its own ranges passes. -/
theorem CdcInv.commit_watermark (inv : CdcInv pq t h w) (hc : (logOf h i).cdc.Complete t' records)
    (he : w.CommitEffect w' newMps superseded records) :
    w'.tableChangeSequence t + 1 =
      advance (w.tableChangeSequence t + 1) (tableRanges t records) := by
  rw [he.changeSeq, ← inv.publishedThrough_add_one hc]
  have hle := le_advance (w.tableChangeSequence t + 1) (tableRanges t records)
  rw [← inv.publishedThrough_add_one hc] at hle
  omega

/-- A commit keeps the invariant. -/
theorem CdcInv.commit (inv : CdcInv pq t h w)
    (hmay : CdcMay (logOf h i) (.commitTableCdc txnId newMps superseded records))
    (he : w.CommitEffect w' newMps superseded records) :
    CdcInv pq t (h ++ [(i, ⟨.commitTableCdc txnId newMps superseded records, .ok ()⟩)]) w' := by
  obtain ⟨hunc, t', hc⟩ := hmay
  have hlog : ∀ k r, w'.changeLog t k = some r ↔
      w.changeLog t k = some r ∨ r ∈ records ∧ r.tableId = t ∧ r.sequence = k :=
    fun k r => inv.commit_changeLog hunc hc he
  have hwm := inv.commit_watermark hc he
  refine inv.snoc rfl (fun u => ?_) (fun _ _ _ => by rw [he.payloads]) (fun _ hp => nomatch hp)
    (fun k r hr => ?_) ?_ ?_
  · -- the counter of a table without allocations is its watermark, which only grows
    unfold allocated
    rw [he.changeNextSeq, he.changeSeq u]
    cases w.changeNextSeq u with
    | none => exact le_max_left _ _
    | some n => exact le_rfl
  · rcases (hlog k r).1 hr with hold | ⟨hmem, hrt, hrk⟩
    · exact .inl hold
    · obtain ⟨-, a, ha, p, hp, hap, hpr⟩ := hc.mem hmem
      refine .inr ⟨hrt, hrk, a, p, allocs_mono ha i _, payloads_mono hp i _, ?_, hap, hpr⟩
      rw [logOf_snoc_self]
      exact some_ne_none _
  · intro s hs hle
    by_cases hold : s ≤ w.tableChangeSequence t
    · obtain ⟨k, r, hr, hcov⟩ := inv.covered s hs hold
      exact ⟨k, r, (hlog k r).2 (.inl hr), hcov⟩
    · have hlt : s < advance (w.tableChangeSequence t + 1) (tableRanges t records) := by
        omega
      have hpassed := exists_mem_of_lt_advance (by omega) hlt
      obtain ⟨r, hr, hrt, hcov⟩ := hc.covered_iff.1 hpassed
      exact ⟨r.sequence, r, (hlog _ r).2 (.inr ⟨hr, hrt, rfl⟩), hcov⟩
  · rcases advance_eq_or_exists (w.tableChangeSequence t + 1) (tableRanges t records)
      with heq | ⟨q, hq, heq⟩
    · rcases inv.ended with h0 | ⟨k, r, hr, hend⟩
      · exact .inl (by omega)
      · exact .inr ⟨k, r, (hlog k r).2 (.inl hr), by omega⟩
    · obtain ⟨r, hr, hrt, rfl⟩ := mem_tableRanges.1 hq
      have hend := hc.recordEnd_add_one hr
      exact .inr ⟨r.sequence, r, (hlog _ r).2 (.inr ⟨hr, hrt, rfl⟩), by omega⟩

end Commit

/-! ### Runs -/

section Runs

variable {t : TableId} {o : Op} {r : o.Res}

/-- **Every step that the protocol allows keeps the invariant.** -/
theorem CdcInv.step (inv : CdcInv pq t h w) (hmay : CdcMay (logOf h i) o) (hs : Step pq w o r w') :
    CdcInv pq t (h ++ [(i, ⟨o, r⟩)]) w' := by
  cases step_cdcEffect hs with
  | frame halloc hpayload _ hnext hseq hlog hpayloads =>
    exact inv.frame halloc hpayload hnext hseq hlog hpayloads
  | allocate hfirst hw => exact inv.allocate hfirst hw
  | putPayload hw => exact inv.putPayload hmay hw
  | commit he => exact inv.commit hmay he

/-- A change record that is stored is never replaced. -/
theorem CdcInv.changeLog_step (inv : CdcInv pq t h w) (hmay : CdcMay (logOf h i) o)
    (hs : Step pq w o r w') {k : ℕ} {q : ChangeRecordMeta} (hq : w.changeLog t k = some q) :
    w'.changeLog t k = some q := by
  cases step_cdcEffect hs with
  | frame _ _ _ _ _ hlog _ => rwa [hlog]
  | allocate _ hw | putPayload hw => rwa [hw]
  | commit he =>
    obtain ⟨hunc, t', hc⟩ := hmay
    exact (inv.commit_changeLog hunc hc he).2 (.inl hq)

/-- The watermark never decreases. -/
theorem tableChangeSequence_step (hs : Step pq w o r w') (t : TableId) :
    w.tableChangeSequence t ≤ w'.tableChangeSequence t := by
  cases step_cdcEffect hs with
  | frame _ _ _ _ hseq _ _ => simp [tableChangeSequence, hseq]
  | allocate _ hw | putPayload hw => rw [hw]; exact le_rfl
  | commit he =>
    rw [he.changeSeq]
    exact le_max_left _ _

variable {ρ : ι → Type} {c0 c c1 : Config ι Op Op.Res World ρ} {Q : (i : ι) → StmtLog → ρ i → Prop}
  {h1 h2 : History ι Op Op.Res}

/-- **The invariant holds after every run** of threads that keep to the protocol. -/
theorem run_cdcInv (hr : Run (Step pq) c0 h c)
    (hf : ∀ i, (c0.threads i).Follows cdcProtocol (Q i) {}) (h0 : c0.world.EmptyChangeLog t) :
    CdcInv pq t h c.world := by
  refine Run.always (CdcInv pq t) hf ?_ hr (.init h0)
  intro h c i o r w' _ inv hmay hs
  exact inv.step hmay hs

/-- What is logged and published stays so in the rest of a run. -/
theorem run_changeLog_mono (hr1 : Run (Step pq) c0 h1 c1) (hr2 : Run (Step pq) c1 h2 c)
    (hf : ∀ i, (c0.threads i).Follows cdcProtocol (Q i) {}) (h0 : c0.world.EmptyChangeLog t) :
    c1.world.tableChangeSequence t ≤ c.world.tableChangeSequence t ∧
      ∀ k q, c1.world.changeLog t k = some q → c.world.changeLog t k = some q := by
  refine Run.always_after (fun _ w => c1.world.tableChangeSequence t ≤ w.tableChangeSequence t ∧
    ∀ k q, c1.world.changeLog t k = some q → w.changeLog t k = some q)
    hf ?_ hr1 hr2 ⟨le_rfl, fun _ _ hq => hq⟩
  intro h c i o r w' hrun ⟨hwm, hlog⟩ hmay hs
  have inv := run_cdcInv hrun hf h0
  exact ⟨hwm.trans (tableChangeSequence_step hs t),
    fun k q hq => inv.changeLog_step hmay hs (hlog k q hq)⟩

end Runs

end

end NovaCore
