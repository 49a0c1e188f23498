import NovaCore.Cdc.Invariant
import NovaCore.Executor.StreamFollows

/-!
# The rows of the change log

`World.cdcRows w t after through` are the change rows that the records of table `t` with sequence
numbers in `(after, through]` point to, in the order of the log.  Below the watermark they never
change, and over a stretch of the log without a gap each sequence number has exactly one row.

## Main results

* `CdcInv.cdcRows_step` : below the watermark the rows of the log are fixed.
* `CdcInv.cdcRows_sequences` : the rows of a stretch without a gap carry its sequence numbers, each
  once and in order.
* `CdcInv.consumable_eq` : what a stream read hands out is the stretch of the log from its offset to
  the number it computes, and that stretch has no gap.
-/

namespace NovaCore

open List Contiguous World

variable (w : World)

/-- The change rows of a record, as a reader of its payload gets them. -/
def World.recordRows (r : ChangeRecordMeta) : List CdcBatch.Row :=
  r.rowsOf ((w.payloads r.payload.path).getD [])

variable (t : TableId)

/-- The change rows of table `t` with sequence numbers in `(after, through]`. -/
def World.cdcRows (after through : ℕ) : List CdcBatch.Row :=
  (w.changeRecordsBetween t after through).flatMap w.recordRows

/-- The sequence number of a change row. -/
abbrev rowSequence (row : CdcBatch.Row) : ℕ := row.2.sequence

theorem changeRecordsBetween_append {a b c : ℕ} (hab : a ≤ b)
    (hbc : b ≤ c) : w.changeRecordsBetween t a b ++ w.changeRecordsBetween t b c =
      w.changeRecordsBetween t a c := by
  unfold changeRecordsBetween
  have hsplit : range' (a + 1) (c - a) = range' (a + 1) (b - a) ++ range' (b + 1) (c - b) := by
    rw [show b + 1 = a + 1 + (b - a) by omega, range'_append_1]
    congr 1
    omega
  rw [hsplit, filterMap_append]

theorem cdcRows_append {a b c : ℕ} (hab : a ≤ b) (hbc : b ≤ c) :
    w.cdcRows t a b ++ w.cdcRows t b c = w.cdcRows t a c := by
  unfold cdcRows
  rw [← flatMap_append, changeRecordsBetween_append w t hab hbc]

@[simp] theorem cdcRows_self (a : ℕ) : w.cdcRows t a a = [] := by
  simp [cdcRows, changeRecordsBetween]

section

variable {ι : Type} [DecidableEq ι] {pq : Parquet} {w w' : World} {h : History ι Op Op.Res}
  {t : TableId} {k : ℕ} {r : ChangeRecordMeta} {a b : ℕ}

section

variable (inv : CdcInv pq t h w)
include inv

theorem CdcInv.mem_changeRecordsBetween : r ∈ w.changeRecordsBetween t a b ↔
      w.changeLog t r.sequence = some r ∧ a < r.sequence ∧ r.sequence ≤ b := by
  unfold changeRecordsBetween
  rw [mem_filterMap]
  constructor
  · rintro ⟨k, hk, hr⟩
    obtain ⟨-, rfl, -⟩ := inv.logged k r hr
    rw [mem_range'_1] at hk
    exact ⟨hr, by omega, by omega⟩
  · rintro ⟨hr, ha, hb⟩
    exact ⟨r.sequence, mem_range'_1.2 (by omega), hr⟩

theorem CdcInv.changeRecordsBetween_sorted :
    (w.changeRecordsBetween t a b).Pairwise fun r q => r.sequence < q.sequence := by
  unfold changeRecordsBetween
  rw [pairwise_filterMap]
  refine (pairwise_lt_range' 1 one_pos).imp fun {k l} hkl r hr q hq => ?_
  obtain ⟨-, hrk, -⟩ := inv.logged k r hr
  obtain ⟨-, hql, -⟩ := inv.logged l q hq
  omega

/-- The watermark never cuts a record. -/
theorem CdcInv.recordEnd_le_watermark (hr : w.changeLog t k = some r)
    (hk : r.sequence ≤ w.tableChangeSequence t) : r.recordEnd ≤ w.tableChangeSequence t := by
  by_contra hlt
  have hend := inv.recordEnd_add_one hr
  have hcov : r.Covers (w.tableChangeSequence t) := ⟨hk, by omega⟩
  rcases inv.ended with h0 | ⟨l, q, hq, hqend⟩
  · -- no record starts at zero
    obtain ⟨-, -, i, al, p, hl⟩ := inv.logged k r hr
    have hpos := inv.first_pos (mem_allocs_iff.1 hl.alloc_mem)
    rw [hl.recordFor.sequence_eq hl.payloadFor] at hk
    simp only at hpos
    omega
  · have hqcov := inv.covers_sequence hq
    unfold ChangeRecordMeta.Covers at hqcov
    obtain rfl := inv.record_unique hr hq hcov ⟨by omega, by omega⟩
    omega

/-- The payload of a record in the log. -/
theorem CdcInv.exists_payload (hr : w.changeLog t k = some r) :
    ∃ b : CdcBatch, w.payloads r.payload.path = some (pq.cdc b) ∧ r.payload.rowStart = 0 ∧
      r.payload.rowCount = b.numRows ∧
      b.sequences = range' r.sequence r.payload.rowCount := by
  obtain ⟨-, -, i, al, p, hl⟩ := inv.logged k r hr
  have hstored := inv.stored i p hl.payload_mem
  refine ⟨p.2, ?_, ?_, ?_, ?_⟩
  · rw [hl.recordFor.payload]
    exact hstored
  · rw [hl.recordFor.payload]
  · rw [hl.recordFor.payload]
  · rw [hl.recordFor.sequence_eq hl.payloadFor, hl.recordFor.rowCount_eq hl.payloadFor]
    exact hl.payloadFor.sequences

theorem CdcInv.recordRows_sequences (hr : w.changeLog t k = some r) :
    (w.recordRows r).map rowSequence = range' r.sequence r.payload.rowCount := by
  obtain ⟨b, hb, hstart, hcount, hseq⟩ := inv.exists_payload hr
  have hrows : w.recordRows r = b.logicalRows := by
    unfold recordRows ChangeRecordMeta.rowsOf
    rw [hb, Option.getD_some, pq.cdc_rows, hstart, hcount]
    exact take_of_length_le (by simp)
  rw [hrows, ← hseq]
  exact b.logicalRows_map_sequence

end

/-! ### What steps leave alone -/

section Steps

variable {i : ι} {o : Op} {res : o.Res}

/-- Below the watermark no record is added to the log. -/
theorem CdcInv.changeLog_frozen (inv : CdcInv pq t h w) (hmay : CdcMay (logOf h i) o)
    (hs : Step pq w o res w') (hpos : 0 < k) (hk : k ≤ w.tableChangeSequence t) :
    w'.changeLog t k = w.changeLog t k := by
  have inv' := inv.step hmay hs
  cases hold : w.changeLog t k with
  | some q => exact inv.changeLog_step hmay hs hold
  | none =>
    by_contra hne
    obtain ⟨q, hq⟩ := Option.ne_none_iff_exists'.1 hne
    -- `k` already belongs to a record of the old log, which would have to be `q`
    obtain ⟨l, p, hp, hcov⟩ := inv.covered k hpos hk
    obtain ⟨-, rfl, -⟩ := inv'.logged k q hq
    obtain rfl := inv'.record_unique hq (inv.changeLog_step hmay hs hp) (inv'.covers_sequence hq)
      hcov
    obtain ⟨-, rfl, -⟩ := inv.logged l q hp
    rw [hold] at hp
    cases hp

/-- The payload of a record in the log never changes. -/
theorem CdcInv.payload_frozen (inv : CdcInv pq t h w) (hmay : CdcMay (logOf h i) o)
    (hs : Step pq w o res w') (hr : w.changeLog t k = some r) :
    w'.payloads r.payload.path = w.payloads r.payload.path := by
  have inv' := inv.step hmay hs
  obtain ⟨-, -, j, al, p, hl⟩ := inv.logged k r hr
  have hpath : r.payload.path = p.1 := by rw [hl.recordFor.payload]
  rw [hpath, inv.stored j p hl.payload_mem, inv'.stored j p (payloads_mono hl.payload_mem i _)]

/-- **Below the watermark the rows of the log are fixed.** -/
theorem CdcInv.cdcRows_step (inv : CdcInv pq t h w) (hmay : CdcMay (logOf h i) o)
    (hs : Step pq w o res w') (hb : b ≤ w.tableChangeSequence t) :
    w'.cdcRows t a b = w.cdcRows t a b := by
  have hrecords : w'.changeRecordsBetween t a b = w.changeRecordsBetween t a b := by
    refine filterMap_congr fun k hk => ?_
    rw [mem_range'_1] at hk
    exact inv.changeLog_frozen hmay hs (by omega) (by omega)
  unfold cdcRows
  rw [hrecords]
  refine flatMap_congr fun r hr => ?_
  have hlog := (inv.mem_changeRecordsBetween.1 hr).1
  unfold recordRows
  rw [inv.payload_frozen hmay hs hlog]

end Steps

/-! ### Stretches without a gap -/

/-- The records of the log in `(a, b]` cover all of `(a, b]` and nothing above. -/
structure Seamless (w : World) (t : TableId) (a b : ℕ) : Prop where
  le : a ≤ b
  covered : ∀ s, a < s → s ≤ b → ∃ r ∈ w.changeRecordsBetween t a b, r.Covers s
  ends : ∀ r ∈ w.changeRecordsBetween t a b, r.recordEnd ≤ b

/-- **Each sequence number of a stretch without a gap has one row, in order.** -/
theorem CdcInv.cdcRows_sequences (inv : CdcInv pq t h w) (hs : Seamless w t a b) :
    (w.cdcRows t a b).map rowSequence = range' (a + 1) (b - a) := by
  have hlist : (w.cdcRows t a b).map rowSequence = (w.changeRecordsBetween t a b).flatMap fun r =>
        range' r.sequence r.payload.rowCount := by
    unfold cdcRows
    rw [map_flatMap]
    refine flatMap_congr fun r hr => ?_
    exact inv.recordRows_sequences (inv.mem_changeRecordsBetween.1 hr).1
  rw [hlist]
  -- both sides are strictly increasing, so it is enough to compare their members
  refine List.Pairwise.eq_of_mem_iff ?_ (pairwise_lt_range' 1 one_pos) ?_
  · rw [pairwise_flatMap]
    refine ⟨fun r _ => pairwise_lt_range' 1 one_pos, ?_⟩
    refine inv.changeRecordsBetween_sorted.imp_of_mem fun {r q} hr hq hlt x hx y hy => ?_
    rw [mem_range'_1] at hx hy
    by_contra hle
    -- otherwise `y` lies in both records
    have hrlog := (inv.mem_changeRecordsBetween.1 hr).1
    have hqlog := (inv.mem_changeRecordsBetween.1 hq).1
    have hycov : r.Covers y := ⟨by omega, by omega⟩
    obtain rfl := inv.record_unique hrlog hqlog hycov hy
    omega
  · intro s
    rw [mem_flatMap, mem_range'_1]
    constructor
    · rintro ⟨r, hr, hcov⟩
      have hend := hs.ends r hr
      obtain ⟨hlog, ha, -⟩ := inv.mem_changeRecordsBetween.1 hr
      have hadd := inv.recordEnd_add_one hlog
      rw [mem_range'_1] at hcov
      omega
    · rintro ⟨h1, h2⟩
      obtain ⟨r, hr, hcov⟩ := hs.covered s (by omega) (by omega)
      exact ⟨r, hr, mem_range'_1.2 hcov⟩

/-! ### What a stream read computes -/

theorem streamLoop_add_one {next published : ℕ} {records : List ChangeRecordMeta}
    (hnext : next = published + 1)
    (hr : ∀ r ∈ records, 0 < r.payload.rowCount ∧ r.recordEnd < u64Max) :
    streamLoop next published records + 1 =
      advance next (records.map fun r => (r.sequence, r.recordEnd)) := by
  induction records generalizing next published with
  | nil => exact hnext.symm
  | cons r records ih =>
    have hrest : ∀ q ∈ records, 0 < q.payload.rowCount ∧ q.recordEnd < u64Max :=
      fun q hq => hr q (mem_cons_of_mem r hq)
    obtain ⟨hpos, hlt⟩ := hr r (by simp)
    have hsat : satAdd r.recordEnd 1 = r.recordEnd + 1 := satAdd_eq hlt
    rw [map_cons]
    unfold streamLoop advance
    rw [hsat, if_neg hpos.ne']
    split_ifs with hstop hstart
    · exact ih hnext hrest
    · exact hnext.symm
    · exact ih rfl hrest

/-- Records that a read may have scanned from offset `a` on. -/
structure ScanOf (w : World) (t : TableId) (a : ℕ) (records : List ChangeRecordMeta) : Prop where
  logged : ∀ r ∈ records, w.changeLog t r.sequence = some r
  after : ∀ r ∈ records, a < r.sequence
  sorted : records.Pairwise fun r q => r.sequence < q.sequence

theorem sorted_eq_of_mem_iff {l m : List ChangeRecordMeta}
    (hl : l.Pairwise fun r q => r.sequence < q.sequence)
    (hm : m.Pairwise fun r q => r.sequence < q.sequence) (hmem : ∀ r, r ∈ l ↔ r ∈ m) : l = m := by
  have : Std.Irrefl fun r q : ChangeRecordMeta => r.sequence < q.sequence :=
    ⟨fun r => lt_irrefl r.sequence⟩
  have : Std.Antisymm fun r q : ChangeRecordMeta => r.sequence < q.sequence :=
    ⟨fun r q hrq hqr => absurd hrq (lt_asymm hqr)⟩
  exact hl.eq_of_mem_iff hm hmem

/-- **What a stream read hands out** is the stretch of the log from its offset to the number it
computes, and that stretch has no gap. -/
theorem CdcInv.consumable_eq (inv : CdcInv pq t h w) {records : List ChangeRecordMeta}
    {published : ℕ} (hscan : ScanOf w t a records)
    (hpub : contiguousPublishedStreamSequence a records = .ok published) :
    Seamless w t a published ∧
      consumableRecords published records = w.changeRecordsBetween t a published := by
  obtain ⟨next, hnext, hloop⟩ := except_bind_eq_ok.1 hpub
  obtain ⟨-, rfl⟩ := checkedAdd_eq_ok.1 hnext
  have hfit : ∀ r ∈ records, 0 < r.payload.rowCount ∧ r.recordEnd < u64Max := by
    intro r hr
    have hlog := hscan.logged r hr
    have hend := inv.recordEnd_add_one hlog
    have hcov := (inv.covers_sequence hlog).2
    have hle := inv.sequence_add_rowCount_le hlog
    omega
  have hadv : published + 1 = advance (a + 1) (records.map fun r => (r.sequence, r.recordEnd)) := by
    rw [← streamLoop_add_one rfl hfit, Except.ok.inj hloop]
  have hle := le_advance (a + 1) (records.map fun r => (r.sequence, r.recordEnd))
  have hpass : ∀ s, a < s → s ≤ published → ∃ r ∈ records, r.Covers s := by
    intro s hs hsp
    obtain ⟨q, hq, hqs⟩ := exists_mem_of_lt_advance (show a + 1 ≤ s from hs)
      (show s < advance (a + 1) (records.map fun r => (r.sequence, r.recordEnd)) by
        omega)
    obtain ⟨r, hr, rfl⟩ := mem_map.1 hq
    have hend := inv.recordEnd_add_one (hscan.logged r hr)
    exact ⟨r, hr, hqs.1, by simp only at hqs; omega⟩
  have hlast : published = a ∨ ∃ q ∈ records, q.recordEnd = published := by
    rcases advance_eq_or_exists (a + 1)
      (records.map fun r => (r.sequence, r.recordEnd)) with heq | ⟨q, hq, heq⟩
    · exact .inl (by omega)
    · obtain ⟨r, hr, rfl⟩ := mem_map.1 hq
      exact .inr ⟨r, hr, by simp only at heq; omega⟩
  -- a record of the log that starts in the stretch was scanned, and ends in the stretch
  have hinside : ∀ r, w.changeLog t r.sequence = some r → a < r.sequence →
      r.sequence ≤ published → r ∈ records ∧ r.recordEnd ≤ published := by
    intro r hr ha hp
    obtain ⟨q, hq, hqcov⟩ := hpass r.sequence ha hp
    obtain rfl := inv.record_unique (hscan.logged q hq) hr hqcov (inv.covers_sequence hr)
    refine ⟨hq, ?_⟩
    by_contra hlt
    have hend := inv.recordEnd_add_one hr
    rcases hlast with rfl | ⟨p, hp', hpend⟩
    · omega
    · have hplog := hscan.logged p hp'
      have hpadd := inv.recordEnd_add_one hplog
      have hpcov := (inv.covers_sequence hplog).2
      obtain rfl := inv.record_unique hplog hr (s := published) ⟨by omega, by omega⟩
        ⟨by omega, by omega⟩
      omega
  refine ⟨⟨by omega, ?_, ?_⟩, ?_⟩
  · intro s hs hsp
    obtain ⟨r, hr, hcov⟩ := hpass s hs hsp
    exact ⟨r, inv.mem_changeRecordsBetween.2
      ⟨hscan.logged r hr, hscan.after r hr, hcov.1.trans hsp⟩, hcov⟩
  · intro r hr
    obtain ⟨hlog, ha, hp⟩ := inv.mem_changeRecordsBetween.1 hr
    exact (hinside r hlog ha hp).2
  · refine sorted_eq_of_mem_iff (hscan.sorted.filter _) inv.changeRecordsBetween_sorted fun r => ?_
    unfold consumableRecords
    rw [mem_filter, inv.mem_changeRecordsBetween, decide_eq_true_eq]
    constructor
    · rintro ⟨hr, hend⟩
      have hlog := hscan.logged r hr
      have hadd := inv.recordEnd_add_one hlog
      have hcov := (inv.covers_sequence hlog).2
      exact ⟨hlog, hscan.after r hr, by omega⟩
    · rintro ⟨hlog, ha, hp⟩
      exact hinside r hlog ha hp

end

end NovaCore
