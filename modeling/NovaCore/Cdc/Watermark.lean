import NovaCore.Cdc.Invariant
import NovaCore.Executor.Session

/-!
# The published watermark

Any number of INSERT, UPDATE and DELETE statements run over a store whose change log of table `t`
starts empty.

## Main results

* `watermark_safe` : **watermark safety.**  Allocated ranges are disjoint and non-empty, the
  watermark never decreases and is the end of a record, and everything up to it lies in exactly
  one record, which never changes.
* `changes_published_iff` : **when every committed change is published.**  The loop of
  `commit_table_cdc` only sees the records of the committing statement, so a change above a gap
  stays unpublished even when the gap is filled later.  All committed changes are published if
  and only if no statement ever committed above a gap it did not fill itself.
-/

namespace NovaCore

open Contiguous List

variable {ι : Type} [DecidableEq ι] {pq : Parquet} {fmt : TextFormat} {stmts : ι → DmlStatement}
  {w₀ : World} {t : TableId} {h h₁ h₂ : History ι Op Op.Res}
  {c c₁ c₂ : Config ι Op Op.Res World fun _ => Except NovaError QueryResult}

theorem cdcMay_of_dmlMay {stmt : DmlStatement} {s : StmtLog} {o : Op} (hs : s.commit = none)
    (ho : DmlMay fmt stmt s o) : CdcMay s o := by
  cases o with
  | putPayload p b => exact ho
  | commitTableCdc txnId newMps superseded records =>
    obtain ⟨t, hc, -⟩ := ho
    exact ⟨hs, t, hc⟩
  | _ => trivial

omit [DecidableEq ι] in
/-- INSERT, UPDATE and DELETE keep to what the change log relies on. -/
theorem dmlConfig_follows_cdc (i : ι) :
    ((dmlConfig fmt w₀ stmts).threads i).Follows cdcProtocol StmtLog.EndsWith {} :=
  (dmlConfig_follows i).weaken rfl fun _ _ ho => cdcMay_of_dmlMay ho.1 ho.2

/-! ### Safety -/

theorem allocations_pos (hr : Run (Step pq) (dmlConfig fmt w₀ stmts) h c)
    (hins : ∀ i, ¬(stmts i).isEmptyInsert) : ∀ x ∈ allocations h, 0 < x.2.count := by
  refine Run.always (fun h _ => ∀ x ∈ allocations h, 0 < x.2.count) dmlConfig_follows ?_ hr
    (by simp [allocations])
  intro h c i o r w' _ ih hmay hs x hx
  rw [allocations_snoc] at hx
  rcases mem_append.1 hx with hold | hnew
  · exact ih x hold
  · -- the event handed out `x`, and the protocol only asks for no numbers in an empty INSERT
    cases step_cdcEffect hs with
    | frame halloc => simp [halloc] at hnew
    | allocate =>
      obtain rfl := mem_singleton.1 hnew
      exact Nat.pos_of_ne_zero fun h0 => hins i (hmay.2.2.2 h0)
    | putPayload | commit => simp [allocationOf] at hnew

/-- **Watermark safety.**  Over every run `h₁ ++ h₂` of statements from an empty change log of
table `t`, with all allocated numbers below `2 ^ 64`:
* distinct allocations for `t` returned disjoint, non-empty ranges;
* the watermark after `h₁ ++ h₂` is at least the one after `h₁`;
* the watermark is `0` or the last number of a record in the log;
* every number up to the watermark after `h₁` lies in exactly one record of the log, and that
  record is in the log unchanged after `h₁ ++ h₂`. -/
theorem watermark_safe (h0 : w₀.EmptyChangeLog t) (hins : ∀ i, ¬(stmts i).isEmptyInsert)
    (hr₁ : Run (Step pq) (dmlConfig fmt w₀ stmts) h₁ c₁) (hr₂ : Run (Step pq) c₁ h₂ c₂)
    (hfit : ∀ x ∈ allocations (h₁ ++ h₂), x.2.past ≤ 2 ^ 64) :
    ((allocations (h₁ ++ h₂)).Pairwise fun x y => x.2.tableId = t → y.2.tableId = t →
        ∀ s, ¬(x.2.Covers s ∧ y.2.Covers s)) ∧
      (∀ x ∈ allocations (h₁ ++ h₂), ∃ s, x.2.Covers s) ∧
      c₁.world.tableChangeSequence t ≤ c₂.world.tableChangeSequence t ∧
      (c₁.world.tableChangeSequence t = 0 ∨ ∃ r, c₁.world.changeLog t r.sequence = some r ∧
        r.recordEnd = c₁.world.tableChangeSequence t) ∧
      ∀ s, 0 < s → s ≤ c₁.world.tableChangeSequence t →
        ∃ r, r.Covers s ∧ c₁.world.changeLog t r.sequence = some r ∧
          c₂.world.changeLog t r.sequence = some r ∧
          ∀ k q, c₁.world.changeLog t k = some q → q.Covers s → k = r.sequence ∧ q = r := by
  have hr := hr₁.append hr₂
  have inv₁ := run_cdcInv hr₁ dmlConfig_follows_cdc h0
  have inv₂ := run_cdcInv hr dmlConfig_follows_cdc h0
  obtain ⟨hwm, hlog⟩ := run_changeLog_mono hr₁ hr₂ dmlConfig_follows_cdc h0
  refine ⟨?_, ?_, hwm, ?_, ?_⟩
  · refine inv₂.separated.imp_of_mem fun {x y} hx _ hxy htx hty s => ?_
    rintro ⟨⟨-, hx2⟩, hy1, -⟩
    have hle : x.2.past ≤ y.2.first := hxy (htx.trans hty.symm) (hfit x hx)
    omega
  · intro x hx
    have hpos := allocations_pos hr hins x hx
    exact ⟨x.2.first, le_rfl, Nat.lt_add_of_pos_right hpos⟩
  · rcases inv₁.ended with hzero | ⟨k, r, hk, hend⟩
    · exact .inl hzero
    · obtain ⟨-, rfl, -⟩ := inv₁.logged k r hk
      have hr := inv₁.recordEnd_add_one hk
      exact .inr ⟨r, hk, by omega⟩
  · intro s hs hle
    obtain ⟨k, r, hk, hcov⟩ := inv₁.covered s hs hle
    obtain ⟨-, rfl, -⟩ := inv₁.logged k r hk
    refine ⟨r, hcov, hk, hlog _ _ hk, fun k' q hq hqcov => ?_⟩
    obtain rfl := inv₁.record_unique hq hk hqcov hcov
    obtain ⟨-, hk', -⟩ := inv₁.logged k' q hq
    exact ⟨hk'.symm, rfl⟩

theorem oneTable_emptyChangeLog : oneTable.EmptyChangeLog 1 := ⟨rfl, fun _ => rfl⟩

/-- Two INSERTs of one row each. -/
def twoInserts (b : Bool) : DmlStatement := insertOne (if b then 2 else 1)

theorem twoInserts_not_isEmptyInsert (b : Bool) : ¬(twoInserts b).isEmptyInsert := by
  rintro ⟨⟩

/-- Both INSERTs have their sequence numbers when the first one commits; the second one commits
after it. -/
theorem watermark_safe_twoInserts : ∃ h₁ c₁ h₂ c₂,
    Run (Step .verbatim) (dmlConfig plainText oneTable twoInserts) h₁ c₁ ∧
    Run (Step .verbatim) c₁ h₂ c₂ ∧
    allocations (h₁ ++ h₂) = [(false, ⟨1, 1, 1⟩), (true, ⟨1, 2, 1⟩)] ∧
    ((allocations (h₁ ++ h₂)).Pairwise fun x y => x.2.tableId = 1 → y.2.tableId = 1 →
      ∀ s, ¬(x.2.Covers s ∧ y.2.Covers s)) ∧
    (∀ x ∈ allocations (h₁ ++ h₂), ∃ s, x.2.Covers s) ∧
    c₁.world.tableChangeSequence 1 = 1 ∧ c₂.world.tableChangeSequence 1 = 2 ∧
    ∃ r, r.Covers 1 ∧ c₁.world.changeLog 1 r.sequence = some r ∧
      c₂.world.changeLog 1 r.sequence = some r := by
  have hs : ((dmlConfig plainText oneTable twoInserts).schedule (Op.apply .verbatim)
      (replicate 9 (false, { id := 1 }) ++ replicate 9 (true, { id := 2 }) ++
        replicate 2 (false, { id := 0 }))).any (fun y =>
          decide (allocations y.1 = [(false, ⟨1, 1, 1⟩), (true, ⟨1, 2, 1⟩)] ∧
            y.2.world.tableChangeSequence 1 = 1) &&
          (y.2.schedule (Op.apply .verbatim) (replicate 2 (true, { id := 0 }))).any fun z =>
            decide (allocations z.1 = [] ∧ z.2.world.tableChangeSequence 1 = 2)) = true := by
    decide +kernel
  obtain ⟨h₁, c₁, h₂, c₂, hr₁, hp₁, hr₂, hp₂⟩ := exists_runs_of_schedule hs
  obtain ⟨halloc₁, hwm₁⟩ := of_decide_eq_true hp₁
  obtain ⟨halloc₂, hwm₂⟩ := of_decide_eq_true hp₂
  have halloc : allocations (h₁ ++ h₂) = [(false, ⟨1, 1, 1⟩), (true, ⟨1, 2, 1⟩)] := by
    rw [allocations, filterMap_append]
    exact congrArg₂ _ halloc₁ halloc₂
  have hfit : ∀ x ∈ allocations (h₁ ++ h₂), x.2.past ≤ 2 ^ 64 := by
    rw [halloc]
    decide
  obtain ⟨hdisjoint, hnonempty, -, -, hcovered⟩ := watermark_safe oneTable_emptyChangeLog
    twoInserts_not_isEmptyInsert hr₁ hr₂ hfit
  obtain ⟨r, hcov, hr, hr', -⟩ := hcovered 1 one_pos hwm₁.ge
  exact ⟨h₁, c₁, h₂, c₂, hr₁, hr₂, halloc, hdisjoint, hnonempty, hwm₁, hwm₂, r, hcov, hr, hr'⟩

/-! ### Completeness -/

/-- Committing `records` in world `w` leaves no gap below them: each number above the watermark
of table `t` and up to the end of one of the records belongs to one of the records. -/
def InOrder (w : World) (t : TableId) (records : List ChangeRecordMeta) : Prop :=
  ∀ r ∈ records, r.tableId = t → ∀ s, w.tableChangeSequence t < s → s ≤ r.recordEnd →
    ∃ q ∈ records, q.tableId = t ∧ q.Covers s

/-- The record `r` is in the log, and the watermark stands below its first number. -/
def Stuck (w : World) (t : TableId) (r : ChangeRecordMeta) : Prop :=
  w.changeLog t r.sequence = some r ∧ w.tableChangeSequence t < r.sequence

section Steps

variable {w w' : World} {i : ι} {newMps : List MicroPartitionMeta}
  {superseded : List (MpId × MpId)} {records : List ChangeRecordMeta} {r : ChangeRecordMeta}
  {t' : TableId}

theorem CdcInv.published_of_inOrder (inv : CdcInv pq t h w)
    (hc : (logOf h i).cdc.Complete t' records)
    (he : w.CommitEffect w' newMps superseded records) (hin : InOrder w t records)
    (hr : r ∈ records) (ht : r.tableId = t) : r.recordEnd ≤ w'.tableChangeSequence t := by
  have hwm := inv.commit_watermark hc he
  have hle := le_advance (w.tableChangeSequence t + 1) (tableRanges t records)
  have key : r.recordEnd < w.tableChangeSequence t + 1 ∨
      r.recordEnd < advance (w.tableChangeSequence t + 1) (tableRanges t records) := by
    refine lt_advance_of_covered (pairwise_insertionSort _ _) fun s hs hsm => ?_
    exact hc.covered_iff.2 (hin r hr ht s hs hsm)
  omega

/-- A commit above a gap leaves a stuck record. -/
theorem CdcInv.exists_stuck (inv : CdcInv pq t h w) (hunc : (logOf h i).commit = none)
    (hc : (logOf h i).cdc.Complete t' records) (he : w.CommitEffect w' newMps superseded records)
    (hin : ¬InOrder w t records) : ∃ r, Stuck w' t r := by
  unfold InOrder at hin
  push Not at hin
  obtain ⟨r, hr, hrt, s, hs, hsr, hgap⟩ := hin
  have hwm := inv.commit_watermark hc he
  have hstop : advance (w.tableChangeSequence t + 1) (tableRanges t records) ≤ s := by
    refine advance_le_of_not_covered hs fun hcov => ?_
    obtain ⟨q, hq, hqt, hqs⟩ := hc.covered_iff.1 hcov
    exact hgap q hq hqt hqs
  -- the gap `s` is not part of `r` but at most its end, so `r` starts above it
  have hstart : s < r.sequence := by
    by_contra hle
    have hend := hc.recordEnd_add_one hr
    exact hgap r hr hrt ⟨not_lt.1 hle, by omega⟩
  exact ⟨r, (inv.commit_changeLog hunc hc he).2 (.inr ⟨hr, hrt, rfl⟩), by omega⟩

/-- A stuck record stays stuck: the walk of a later commit passes only numbers of that commit's
own records, and the first number of `r` is not one of them. -/
theorem CdcInv.stuck_step (inv : CdcInv pq t h w) {o : Op} {res : o.Res}
    (hmay : CdcMay (logOf h i) o) (hs : Step pq w o res w') (hst : Stuck w t r) : Stuck w' t r := by
  refine ⟨inv.changeLog_step hmay hs hst.1, ?_⟩
  have inv' := inv.step hmay hs
  cases step_cdcEffect hs with
  | frame _ _ _ _ hseq _ _ => simpa [World.tableChangeSequence, hseq] using hst.2
  | allocate _ hw | putPayload hw => rw [hw]; exact hst.2
  | @commit txnId newMps superseded records he =>
    obtain ⟨hunc, t', hc⟩ := hmay
    have hwm := inv.commit_watermark hc he
    by_contra hle
    have hlt : r.sequence <
        advance (w.tableChangeSequence t + 1) (tableRanges t records) := by omega
    have hpassed := exists_mem_of_lt_advance hst.2 hlt
    obtain ⟨q, hq, hqt, hqcov⟩ := hc.covered_iff.1 hpassed
    have hq' := (inv.commit_changeLog hunc hc he).2 (.inr ⟨hq, hqt, rfl⟩)
    have hr' := (inv.commit_changeLog hunc hc he).2 (.inl hst.1)
    obtain rfl := inv'.record_unique hq' hr' hqcov (inv'.covers_sequence hr')
    have hfresh := inv.records_fresh hunc hc hq hqt
    rw [hst.1] at hfresh
    cases hfresh

end Steps

/-- **When every committed change is published.**  After a run of statements from an empty change
log of table `t`, every record in the log lies at or below the watermark if and only if every
commit in the run was in order: below the end of its records there was no unpublished number that
did not belong to the committing statement itself.  (A later commit never publishes the records of
an earlier one, and allocated ranges that are abandoned are never filled.) -/
theorem changes_published_iff (h0 : w₀.EmptyChangeLog t)
    (hr : Run (Step pq) (dmlConfig fmt w₀ stmts) h c) :
    (∀ k r, c.world.changeLog t k = some r → ∀ s, r.Covers s → s ≤ c.world.tableChangeSequence t) ↔
      ∀ h₁ x h₂ c₁, h = h₁ ++ x :: h₂ → Run (Step pq) (dmlConfig fmt w₀ stmts) h₁ c₁ →
        Run (Step pq) c₁ (x :: h₂) c →
        ∀ args, commitOf x.2 = some args → InOrder c₁.world t args.records := by
  constructor
  · rintro hall h₁ ⟨i, o, res⟩ h₂ c₁ - hr₁ hr₂ args hx
    by_contra hin
    -- the commit leaves a stuck record, and it is still stuck at the end
    obtain ⟨k, w', hop, hst, hr₂⟩ := hr₂.cons_inv
    have inv := run_cdcInv hr₁ dmlConfig_follows_cdc h0
    have hmay := hr₁.allowed dmlConfig_follows_cdc hop
    obtain ⟨r, hstuck⟩ : ∃ r, Stuck w' t r := by
      cases step_cdcEffect hst with
      | frame _ _ hcommit => rw [hcommit] at hx; cases hx
      | allocate | putPayload => cases hx
      | commit he =>
        obtain ⟨hunc, t', hc⟩ := hmay
        obtain rfl := Option.some.inj hx
        exact inv.exists_stuck hunc hc he hin
    have hfinal : Stuck c.world t r := by
      refine Run.always_after (fun _ w => Stuck w t r) dmlConfig_follows_cdc ?_
        (hr₁.snoc hop hst) hr₂ hstuck
      intro h c i o res w' hrun hJ hmay hs
      exact (run_cdcInv hrun dmlConfig_follows_cdc h0).stuck_step hmay hs hJ
    have hcov := (run_cdcInv hr dmlConfig_follows_cdc h0).covers_sequence hfinal.1
    exact absurd (hall _ r hfinal.1 _ hcov) (not_le.2 hfinal.2)
  · intro hin
    have key : ∀ k r, c.world.changeLog t k = some r →
        r.recordEnd ≤ c.world.tableChangeSequence t := by
      refine Run.invariant
        (C := fun _ w x => ∀ args, commitOf x.2 = some args → InOrder w t args.records)
        (fun _ w => ∀ k r, w.changeLog t k = some r → r.recordEnd ≤ w.tableChangeSequence t)
        hr dmlConfig_follows_cdc hin ?_ ?_
      · intro k r hk
        rw [show (dmlConfig fmt w₀ stmts).world.changeLog t k = none from h0.changeLog k] at hk
        cases hk
      · intro h c i o res w' hrun ih hin hmay hs k r hk
        have inv := run_cdcInv hrun dmlConfig_follows_cdc h0
        have hwm := tableChangeSequence_step hs t
        cases step_cdcEffect hs with
        | frame _ _ _ _ _ hlog _ => exact (ih k r (hlog ▸ hk)).trans hwm
        | allocate _ hw | putPayload hw => exact (ih k r (by rwa [hw] at hk)).trans hwm
        | commit he =>
          obtain ⟨hunc, t', hc⟩ := hmay
          rcases (inv.commit_changeLog hunc hc he).1 hk with hold | ⟨hr, hrt, -⟩
          · exact (ih k r hold).trans hwm
          · exact inv.published_of_inOrder hc he (hin _ rfl) hr hrt
    intro k r hk s hs
    have hend := (run_cdcInv hr dmlConfig_follows_cdc h0).recordEnd_add_one hk
    have hle := key k r hk
    have hlt := hs.2
    omega

/-- The first INSERT runs until it has its sequence number, the second one runs to its end, then
the first one commits. -/
def outOfOrder : List (Bool × Choice) :=
  List.replicate 9 (false, { id := 1 }) ++ List.replicate 11 (true, { id := 2 }) ++
    List.replicate 2 (false, { id := 0 })

theorem outOfOrder_run :
    ∃ h c, Run (Step Parquet.verbatim) (dmlConfig plainText oneTable twoInserts) h c ∧
      (∀ b, (c.threads b).succeeded = true) ∧ c.world.tableChangeSequence 1 = 1 ∧
      ∃ r, c.world.changeLog 1 2 = some r ∧ r.sequence = 2 ∧ r.payload.rowCount = 1 := by
  have hrun : ((dmlConfig plainText oneTable twoInserts).schedule (Op.apply Parquet.verbatim)
      outOfOrder).any (fun x =>
        (x.2.threads false).succeeded && (x.2.threads true).succeeded &&
        decide (x.2.world.tableChangeSequence 1 = 1) &&
        (x.2.world.changeLog 1 2).any fun r =>
          decide (r.sequence = 2) && decide (r.payload.rowCount = 1)) = true := by
    decide +kernel
  obtain ⟨h, c, hr, hp⟩ := exists_run_of_schedule hrun
  simp only [Bool.and_eq_true, decide_eq_true_eq, Option.any_eq_true] at hp
  obtain ⟨⟨⟨hfalse, htrue⟩, hwm⟩, r, hr2, hseq, hrows⟩ := hp
  exact ⟨h, c, hr, Bool.rec hfalse htrue, hwm, r, hr2, hseq, hrows⟩

/-- Both INSERTs succeed and nothing is in flight, but the change of the second one, number 2,
is not published: the watermark is 1. -/
theorem changes_published_outOfOrder :
    ∃ h c, Run (Step Parquet.verbatim) (dmlConfig plainText oneTable twoInserts) h c ∧
      oneTable.EmptyChangeLog 1 ∧ c.Quiescent ∧ (∀ b, (c.threads b).succeeded = true) ∧
      ∃ r, c.world.changeLog 1 2 = some r ∧ r.Covers 2 ∧ ¬2 ≤ c.world.tableChangeSequence 1 := by
  obtain ⟨h, c, hr, hok, hwm, r, hr2, hseq, hrows⟩ := outOfOrder_run
  refine ⟨h, c, hr, oneTable_emptyChangeLog, fun b => Prog.ended_of_succeeded (hok b), hok, r, hr2,
    ⟨by omega, by omega⟩, ?_⟩
  rw [hwm]
  decide

/-- In that run some commit was above a gap. -/
theorem changes_published_iff_outOfOrder :
    ∃ h c, Run (Step Parquet.verbatim) (dmlConfig plainText oneTable twoInserts) h c ∧
      ∃ h₁ x h₂ c₁ args, h = h₁ ++ x :: h₂ ∧
        Run (Step Parquet.verbatim) (dmlConfig plainText oneTable twoInserts) h₁ c₁ ∧
        commitOf x.2 = some args ∧ ¬InOrder c₁.world 1 args.records := by
  obtain ⟨h, c, hr, -, hwm, r, hr2, hseq, hrows⟩ := outOfOrder_run
  have hiff := changes_published_iff oneTable_emptyChangeLog hr
  refine ⟨h, c, hr, ?_⟩
  by_contra hnone
  have hall := hiff.2 fun h₁ x h₂ c₁ hh hr₁ _ args hx => by
    by_contra hin
    exact hnone ⟨h₁, x, h₂, c₁, args, hh, hr₁, hx, hin⟩
  have hle := hall 2 r hr2 2 ⟨by omega, by omega⟩
  omega

end NovaCore
