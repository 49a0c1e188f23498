import NovaCore.Mp.TimeTravel
import NovaCore.Prog.Interference

/-!
# Is the past fixed?

A statement draws its commit time before it writes its files, and commits later.  In between the
clock may pass a time `ts`, and a `get_mps_at_timestamp` call for `ts` that runs before the commit
returns something else than one that runs after it.  A DELETE that empties a micro-partition and a
statement that supersedes a micro-partition once more also change what a past time looks like.

## Main definitions

* `stabilityConfig` : statements and `get_mps_at_timestamp` calls, in any interleaving.
* `Settled` : the store changed, but not in what was visible at time `ts`.
* `CommitInTime` : a commit that changes nothing about time `ts`.

## Main results

* `mpsAtTimestamp_of_interfered` : a call among changes that settle returns what was visible when it
  started.
* `getMpsAtTimestamp_stable` : **when two calls for a past time agree.**
-/

namespace NovaCore

open List Option World Prog MpCommit MicroPartitionMeta OMap Bool

/-! ### Changes that do not touch the past -/

/-- From `w` to `w'` nothing changed about what is visible in table `t` at time `ts`. -/
structure Settled (t : TableId) (ts : Timestamp) (w w' : World) : Prop where
  index : ∀ k ∈ w.tableMps t, k ∈ w'.tableMps t
  new : ∀ k ∈ w'.tableMps t, k ∉ w.tableMps t → ∃ m, w'.mps k = some m ∧ m.mpId = k ∧
    ts < m.commitTs
  kept : ∀ k ∈ w.tableMps t, ∀ m, w.mps k = some m →
    ∃ m', w'.mps k = some m' ∧ m'.mpId = m.mpId ∧ m'.commitTs = m.commitTs
  /-- What was superseded has the same successor, which has the same commit time if any. -/
  ended : ∀ k ∈ w.tableMps t, ∀ m n, w.mps k = some m → m.commitTs ≤ ts →
    m.supersededBy = some n → (∃ m', w'.mps k = some m' ∧ m'.supersededBy = some n) ∧
      (w'.mps n).map MicroPartitionMeta.commitTs = (w.mps n).map MicroPartitionMeta.commitTs
  /-- What was not superseded has been superseded only after `ts`. -/
  living : ∀ k ∈ w.tableMps t, ∀ m m' n, w.mps k = some m → m.commitTs ≤ ts →
    m.supersededBy = none → w'.mps k = some m' → m'.supersededBy = some n →
      ∃ next, w'.mps n = some next ∧ ts < next.commitTs

variable {m : MicroPartitionMeta} {k : MpId} {ids : List MpId} {acc mps : List MicroPartitionMeta}

/-- A superseded micro-partition is visible if the commit time of its successor is later. -/
theorem World.visibleAt_of_superseded {w : World} {ts : Timestamp} {n : MpId}
    (hle : m.commitTs ≤ ts) (hsup : m.supersededBy = some n) :
    w.visibleAt ts m = ((w.mps n).map commitTs).any fun c => decide (ts < c) := by
  simp only [visibleAt, hle, hsup, decide_true, Bool.true_and]
  cases w.mps n <;> rfl

namespace Settled

variable {t : TableId} {ts : Timestamp} {u v w : World}

theorem of_eq (hmps : w.mps = v.mps) (htable : w.tableMps = v.tableMps) : Settled t ts v w where
  index k hk := htable ▸ hk
  new k hk hnot := (hnot (htable ▸ hk)).elim
  kept k _ m hm := ⟨m, hmps ▸ hm, rfl, rfl⟩
  ended k _ m n hm _ hn := ⟨⟨m, hmps ▸ hm, hn⟩, by rw [hmps]⟩
  living k _ m m' n hm _ hnone hm' hn := by
    rw [hmps, hm, some.injEq] at hm'
    subst hm'
    rw [hnone] at hn
    cases hn

protected theorem refl (w : World) : Settled t ts w w := of_eq rfl rfl

protected theorem trans (huv : Settled t ts u v) (hvw : Settled t ts v w) : Settled t ts u w where
  index k hk := hvw.index k (huv.index k hk)
  new k hk hnot := by
    by_cases hv : k ∈ v.tableMps t
    · obtain ⟨m, hm, hid, hts⟩ := huv.new k hv hnot
      obtain ⟨m', hm', hid', hts'⟩ := hvw.kept k hv m hm
      exact ⟨m', hm', hid'.trans hid, hts'.symm ▸ hts⟩
    · exact hvw.new k hk hv
  kept k hk m hm := by
    obtain ⟨m', hm', hid', hts'⟩ := huv.kept k hk m hm
    obtain ⟨m'', hm'', hid'', hts''⟩ := hvw.kept k (huv.index k hk) m' hm'
    exact ⟨m'', hm'', hid''.trans hid', hts''.trans hts'⟩
  ended k hk m n hm hts hn := by
    obtain ⟨⟨m', hm', hn'⟩, hcommit⟩ := huv.ended k hk m n hm hts hn
    obtain ⟨_, hm1, -, hts'⟩ := huv.kept k hk m hm
    obtain rfl := mem_unique hm' hm1
    obtain ⟨hsup, hcommit'⟩ := hvw.ended k (huv.index k hk) m' n hm' (hts'.symm ▸ hts) hn'
    exact ⟨hsup, hcommit'.trans hcommit⟩
  living k hk m m'' n hm hts hnone hm'' hn := by
    obtain ⟨m', hm', -, hts'⟩ := huv.kept k hk m hm
    cases hsup : m'.supersededBy with
    | none =>
      exact hvw.living k (huv.index k hk) m' m'' n hm' (hts'.symm ▸ hts) hsup hm'' hn
    | some n' =>
      obtain ⟨next, hnext, hlate⟩ := huv.living k hk m m' n' hm hts hnone hm' hsup
      obtain ⟨⟨m1, hm1, hn1⟩, hcommit⟩ :=
        hvw.ended k (huv.index k hk) m' n' hm' (hts'.symm ▸ hts) hsup
      obtain rfl := mem_unique hm1 hm''
      obtain rfl := mem_unique hn1 hn
      rw [hnext] at hcommit
      obtain ⟨next', hnext', hts''⟩ := map_eq_some_iff.1 hcommit
      exact ⟨next', hnext', hts''.symm ▸ hlate⟩

/-- A record read at `v` and judged at `w` is visible exactly if its micro-partition was visible at
the start. -/
theorem visibleAt_iff (hu : u.WellFormed) (huv : Settled t ts u v) (hvw : Settled t ts v w)
    (hk : k ∈ v.tableMps t) (hm : v.mps k = some m) :
    w.visibleAt ts m = true ↔ k ∈ u.tableMps t ∧ (u.mps k).any (u.visibleAt ts) = true := by
  by_cases hk0 : k ∈ u.tableMps t
  · obtain ⟨m0, hm0, -⟩ := hu.indexed t k hk0
    obtain ⟨m1, hm1, -, hts⟩ := huv.kept k hk0 m0 hm0
    obtain rfl : m = m1 := mem_unique hm hm1
    rw [hm0, any_some, and_iff_right hk0]
    by_cases hle : m0.commitTs ≤ ts
    · have hle' : m.commitTs ≤ ts := hts.symm ▸ hle
      cases hsup : m0.supersededBy with
      | none =>
        refine iff_of_true ?_ (by simp [visibleAt, hle, hsup])
        cases hsup' : m.supersededBy with
        | none => simp [visibleAt, hle', hsup']
        | some n =>
          obtain ⟨next, hnext, hlate⟩ := huv.living k hk0 m0 m n hm0 hle hsup hm hsup'
          have hcommit := (hvw.ended k hk m n hm hle' hsup').2
          rw [hnext] at hcommit
          rw [visibleAt_of_superseded hle' hsup', hcommit]
          simpa using hlate
      | some n =>
        obtain ⟨⟨m2, hm2, hsup'⟩, hcommit⟩ := huv.ended k hk0 m0 n hm0 hle hsup
        obtain rfl : m = m2 := mem_unique hm hm2
        have hcommit' := (hvw.ended k hk _ n hm hle' hsup').2
        rw [visibleAt_of_superseded hle' hsup', visibleAt_of_superseded hle hsup, hcommit', hcommit]
    · simp [visibleAt, hts, hle]
  · obtain ⟨_, hm1, -, hts⟩ := huv.new k hk hk0
    obtain rfl := mem_unique hm1 hm
    simp [visibleAt, hk0, not_le.2 hts]

theorem exists_record (hu : u.WellFormed) (huv : Settled t ts u v) (hk : k ∈ v.tableMps t) :
    ∃ m, v.mps k = some m ∧ m.mpId = k := by
  by_cases hk0 : k ∈ u.tableMps t
  · obtain ⟨m0, hm0, -⟩ := hu.indexed t k hk0
    obtain ⟨m, hm, hid, -⟩ := huv.kept k hk0 m0 hm0
    exact ⟨m, hm, hid.trans (hu.mpId k m0 hm0)⟩
  · obtain ⟨m, hm, hid, -⟩ := huv.new k hk hk0
    exact ⟨m, hm, hid⟩

end Settled

/-! ### The visible micro-partitions -/

/-- Micro-partition `k` of table `t` is visible at time `ts`. -/
def World.isVisible (w : World) (t : TableId) (ts : Timestamp) (k : MpId) : Bool :=
  decide (k ∈ w.tableMps t) && (w.mps k).any (w.visibleAt ts)

section Visible

variable {t : TableId} {ts : Timestamp} {u v w : World}

theorem map_mpId_filterMap (hw : w.WellFormed) (hids : ∀ k ∈ ids, k ∈ w.tableMps t) :
    ((ids.filterMap w.mps).filter (w.visibleAt ts)).map mpId = ids.filter (w.isVisible t ts) := by
  induction ids with
  | nil => rfl
  | cons k ids ih =>
    have hk : k ∈ w.tableMps t := hids k mem_cons_self
    have ih := ih fun k' hk' => hids k' (mem_cons_of_mem _ hk')
    cases hm : w.mps k with
    | none => simp [hm, isVisible, ih]
    | some m =>
      have hid := hw.mpId k m hm
      by_cases hvis : w.visibleAt ts m = true
      · simp [hm, isVisible, hk, hvis, hid, ih]
      · simp [hm, isVisible, hvis, ih]

/-- The micro-partitions that a call returns when nothing else runs. -/
theorem map_mpId_mpsAtTimestamp (hw : w.WellFormed) : (w.mpsAtTimestamp t ts).map mpId =
      (w.scanTableMps t).filter (w.isVisible t ts) :=
  map_mpId_filterMap hw fun _ hk => (mem_scanKeys.1 hk).2

/-- Scanned later, the visible micro-partitions are the same. -/
theorem Settled.filter_scan (huv : Settled t ts u v) :
    (v.scanTableMps t).filter (u.isVisible t ts) =
      (u.scanTableMps t).filter (u.isVisible t ts) := by
  by_cases ht : t % 256 = 255
  · simp [scanTableMps, scanKeys, ht]
  · have hsorted : ∀ w : World, (w.scanTableMps t).Pairwise (· < ·) := by
      intro w
      rw [scanTableMps, scanKeys, if_neg ht]
      exact Std.ExtTreeMap.ordered_keys.imp fun h => Nat.compare_eq_lt.1 h
    have hperm : ((v.scanTableMps t).filter (u.isVisible t ts)).Perm
        ((u.scanTableMps t).filter (u.isVisible t ts)) := by
      refine (perm_ext_iff_of_nodup (scanKeys_nodup.filter _)
        (scanKeys_nodup.filter _)).2 fun k => ?_
      rw [mem_filter, mem_filter]
      refine and_congr_left fun hvis => ?_
      have hk : k ∈ u.tableMps t := of_decide_eq_true (and_eq_true_iff.1 hvis).1
      simp [mem_scanKeys, hk, huv.index k hk]
    exact hperm.eq_of_pairwise (fun a b _ _ h h' => absurd h (Nat.lt_asymm h'))
      ((hsorted v).filter _) ((hsorted u).filter _)

theorem Settled.mpsAtTimestamp_eq (huv : Settled t ts u v) (hu : u.WellFormed) (hv : v.WellFormed) :
    (v.mpsAtTimestamp t ts).map mpId = (u.mpsAtTimestamp t ts).map mpId := by
  rw [map_mpId_mpsAtTimestamp hu, map_mpId_mpsAtTimestamp hv, ← huv.filter_scan]
  refine filter_congr fun k hk => ?_
  have hk' : k ∈ v.tableMps t := (mem_scanKeys.1 hk).2
  obtain ⟨m, hm, -⟩ := hv.indexed t k hk'
  have hiff := huv.visibleAt_iff hu (.refl v) hk' hm
  rw [Bool.eq_iff_iff]
  simpa [isVisible, hk', hm] using hiff

end Visible

/-! ### One call -/

section Call

variable {pq : Parquet} {t : TableId} {ts : Timestamp} {u v w : World}

/-- An operation that reads, under interference. -/
theorem interfered_read {o : Op} {a : World → o.Ret} {r : o.Ret}
    (ho : ∀ x v, o.perform pq x v = some (.ok (a v), v))
    (he : Ends (interfered (Settled t ts) (Step pq)) v (await o) r w) :
    Settled t ts v w ∧ r = a w := by
  obtain ⟨v', hv', hst⟩ := execE_call_iff.1 he
  obtain ⟨x, hx⟩ := step_ok hst
  rw [ho] at hx
  cases hx
  exact ⟨hv', rfl⟩

/-- The first loop of the call looks up every scanned micro-partition. -/
theorem interfered_lookups {all : List MicroPartitionMeta}
    (hids : ∀ k ∈ ids, k ∈ v.tableMps t ∧ ∃ m, v.mps k = some m ∧ m.mpId = k)
    (he : Ends (interfered (Settled t ts) (Step pq)) v (ids.foldlM (fun mps id => do
        let mp ← await (.getMp id)
        return mps ++ mp.toList) acc : Nova (List MicroPartitionMeta)) all w) :
    Settled t ts v w ∧ ∃ ms, all = acc ++ ms ∧ List.Forall₂ (fun k m =>
      ∃ v', Settled t ts v v' ∧ Settled t ts v' w ∧ v'.mps k = some m) ids ms := by
  induction ids generalizing v acc with
  | nil =>
    obtain ⟨rfl, rfl⟩ := execE_pure_iff.1 he
    exact ⟨.refl _, [], (append_nil _).symm, .nil⟩
  | cons k ids ih =>
    obtain ⟨acc', v1, hhead, hrest⟩ := execE_bind_iff.1 he
    obtain ⟨mp, v2, hread, hret⟩ := execE_bind_iff.1 hhead
    obtain ⟨rfl, rfl⟩ := execE_pure_iff.1 hret
    obtain ⟨hset, rfl⟩ := interfered_read (fun _ _ => rfl) hread
    obtain ⟨hk, m0, hm0, -⟩ := hids k mem_cons_self
    obtain ⟨m, hm, -⟩ := hset.kept k hk m0 hm0
    have hids' : ∀ k ∈ ids, k ∈ v1.tableMps t ∧ ∃ m, v1.mps k = some m ∧ m.mpId = k := by
      intro k' hk'
      obtain ⟨hin, m1, hm1, hid⟩ := hids k' (mem_cons_of_mem _ hk')
      obtain ⟨m2, hm2, hid', -⟩ := hset.kept k' hin m1 hm1
      exact ⟨hset.index k' hin, m2, hm2, hid'.trans hid⟩
    obtain ⟨hset', ms, rfl, hms⟩ := ih hids' hrest
    refine ⟨hset.trans hset', m :: ms, by simp [hm], .cons ⟨v1, hset, hset', hm⟩ ?_⟩
    exact hms.imp fun k' m' ⟨v', h₁, h₂, h3⟩ => ⟨v', hset.trans h₁, h₂, h3⟩

/-- One iteration of the second loop judges the record in the world it leaves. -/
theorem interfered_pushVisible_one {acc' : List MicroPartitionMeta}
    (he : Ends (interfered (Settled t ts) (Step pq)) v (pushVisible ts acc m) acc' w) :
    Settled t ts v w ∧ acc' = acc ++ if w.visibleAt ts m then [m] else [] := by
  unfold pushVisible at he
  split_ifs at he with hle
  · split at he
    · next hsup =>
      obtain ⟨rfl, rfl⟩ := execE_pure_iff.1 he
      exact ⟨.refl _, by simp [visibleAt, hle, hsup]⟩
    · next n hsup =>
      obtain ⟨next, v1, hread, hret⟩ := execE_bind_iff.1 he
      obtain ⟨hset, rfl⟩ := interfered_read (fun _ _ => rfl) hread
      split_ifs at hret with hlate
      all_goals
        obtain ⟨rfl, rfl⟩ := execE_pure_iff.1 hret
        exact ⟨hset, by simp [visibleAt, hle, hsup, hlate]⟩
  · obtain ⟨rfl, rfl⟩ := execE_pure_iff.1 he
    exact ⟨.refl _, by simp [visibleAt, hle]⟩

/-- The second loop of the call, if the world does not matter for what is visible. -/
theorem interfered_pushVisible {ms : List MicroPartitionMeta} {p : MicroPartitionMeta → Bool}
    (hp : ∀ m ∈ ms, ∀ v', Settled t ts v v' → v'.visibleAt ts m = p m)
    (he : Ends (interfered (Settled t ts) (Step pq)) v (ms.foldlM (pushVisible ts) acc)
      mps w) : mps = acc ++ ms.filter p := by
  induction ms generalizing v acc with
  | nil =>
    obtain ⟨rfl, rfl⟩ := execE_pure_iff.1 he
    simp
  | cons m ms ih =>
    obtain ⟨acc', v1, hhead, hrest⟩ := execE_bind_iff.1 he
    obtain ⟨hset, rfl⟩ := interfered_pushVisible_one hhead
    have hp' : ∀ m ∈ ms, ∀ v', Settled t ts v1 v' → v'.visibleAt ts m = p m :=
      fun m' hm' v' hv' => hp m' (mem_cons_of_mem _ hm') v' (hset.trans hv')
    rw [ih hp' hrest, hp m mem_cons_self v1 hset]
    cases hpm : p m <;> simp [hpm]

/-- **A call among changes that settle returns what was visible when it started.** -/
theorem mpsAtTimestamp_of_interfered (hu : u.WellFormed)
    (he : Ends (interfered (Settled t ts) (Step pq)) u (getMpsAtTimestamp t ts) mps w) :
    mps.map mpId = (u.mpsAtTimestamp t ts).map mpId := by
  obtain ⟨ids, v, hscan, he⟩ := execE_bind_iff.1 he
  obtain ⟨huv, rfl⟩ := interfered_read (fun _ _ => rfl) hscan
  obtain ⟨all, v1, hlookups, hloop⟩ := execE_bind_iff.1 he
  have hids : ∀ k ∈ v.scanTableMps t, k ∈ v.tableMps t := fun _ hk => (mem_scanKeys.1 hk).2
  obtain ⟨hvv1, ms, hall, hms⟩ := interfered_lookups
    (fun k hk => ⟨hids k hk, huv.exists_record hu (hids k hk)⟩) hlookups
  rw [hall] at hloop
  -- each record was read at some `v'` after the scan
  have hread : List.Forall₂ (fun m k => m.mpId = k ∧ ∀ w', Settled t ts v1 w' →
      w'.visibleAt ts m = u.isVisible t ts k) ms (v.scanTableMps t) := by
    refine forall₂_imp_of_mem (List.Forall₂.flip hms) ?_
    rintro m k hk ⟨v', hv', hv'₁, hm⟩
    have hk' : k ∈ v'.tableMps t := hv'.index k (hids k hk)
    have huv' := huv.trans hv'
    obtain ⟨m', hm', hid⟩ := huv'.exists_record hu hk'
    obtain rfl := mem_unique hm hm'
    refine ⟨hid, fun w' hw' => ?_⟩
    have hiff := huv'.visibleAt_iff hu (hv'₁.trans hw') hk' hm
    rw [Bool.eq_iff_iff, hiff]
    simp [isVisible]
  have hmap : ms.map mpId = v.scanTableMps t := by
    rw [← forall₂_eq_eq_eq, forall₂_map_left_iff]
    exact hread.imp fun _ _ h => h.1
  have hp : ∀ m ∈ ms, ∀ w', Settled t ts v1 w' → w'.visibleAt ts m = u.isVisible t ts m.mpId := by
    intro m hm w' hw'
    obtain ⟨k, -, rfl, hvis⟩ := forall₂_exists_left (List.Forall₂.flip hread) hm
    exact hvis w' hw'
  have hmps := interfered_pushVisible hp hloop
  rw [hmps, map_mpId_mpsAtTimestamp hu, ← huv.filter_scan, ← hmap, List.filter_map]
  rfl

end Call

/-! ### Statements and calls -/

section Config

variable {ι κ : Type}

/-- What a thread of `stabilityConfig` returns. -/
abbrev StabilityResult : ι ⊕ κ → Type
  | .inl _ => Except NovaError QueryResult
  | .inr _ => Except NovaError (List MicroPartitionMeta)

/-- The statements `stmts` and the calls `calls` of `get_mps_at_timestamp`, each given by its table
and time, all about to start. -/
def stabilityConfig (fmt : TextFormat) (w : World) (stmts : ι → DmlStatement)
    (calls : κ → TableId × Timestamp) : Config (ι ⊕ κ) Op Op.Res World StabilityResult where
  world := w
  threads
    | .inl i => ((stmts i).exec fmt).run
    | .inr k => (getMpsAtTimestamp (calls k).1 (calls k).2).run

variable (h : History (ι ⊕ κ) Op Op.Res)

/-- The events of the statements. -/
def statementEvents : History ι Op Op.Res :=
  h.filterMap fun x => match x.1 with
    | .inl i => some (i, x.2)
    | .inr _ => none

/-- A call only reads. -/
def callProtocol : Protocol Op Op.Res StmtLog where
  record s _ _ := s
  Allowed _ := Op.Reads

/-- The protocol of each thread. -/
def stabilityProtocol (fmt : TextFormat) (stmts : ι → DmlStatement) :
    ι ⊕ κ → Protocol Op Op.Res StmtLog
  | .inl i => dmlProtocol fmt (stmts i)
  | .inr _ => callProtocol

theorem getMpsAtTimestamp_reads (t : TableId) (ts : Timestamp) :
    (getMpsAtTimestamp t ts).run.Issues Op.Reads := by
  have hread : ∀ k, (await (.getMp k)).run.Issues Op.Reads := fun k => issuesE_call fun _ => rfl
  refine issuesE_bind (issuesE_call fun _ => rfl) fun ids => issuesE_bind
    (issuesE_foldlM fun acc k => issuesE_bind (hread k) fun _ => issuesE_pure)
    fun all => issuesE_foldlM fun visible mp => ?_
  unfold pushVisible
  split_ifs
  · split
    · exact issuesE_pure
    · refine issuesE_bind (hread _) fun next => ?_
      split_ifs <;> exact issuesE_pure
  · exact issuesE_pure

variable {fmt : TextFormat} {w₀ : World} {stmts : ι → DmlStatement}
  {calls : κ → TableId × Timestamp}

theorem stabilityConfig_follows (x : ι ⊕ κ) :
    ((stabilityConfig fmt w₀ stmts calls).threads x).Follows (stabilityProtocol fmt stmts x)
      (fun _ _ => True) {} := by
  cases x with
  | inl i =>
    have hdml : ((dmlConfig fmt w₀ stmts).threads i).Follows (dmlProtocol fmt (stmts i))
      StmtLog.EndsWith {} := dmlConfig_follows i
    exact hdml.mono fun _ _ _ => trivial
  | inr k =>
    have hreads := getMpsAtTimestamp_reads (calls k).1 (calls k).2
    exact hreads.follows (fun _ _ ho => ho) _

theorem statementEvents_snoc_inl (i : ι) (e : Event Op Op.Res) :
    statementEvents (h ++ [(.inl i, e)]) = statementEvents h ++ [(i, e)] := by
  simp [statementEvents]

theorem statementEvents_snoc_inr (k : κ) (e : Event Op Op.Res) :
    statementEvents (h ++ [(.inr k, e)]) = statementEvents h := by
  simp [statementEvents]

variable [DecidableEq ι] [DecidableEq κ] {pq : Parquet} {h : History (ι ⊕ κ) Op Op.Res}
  {c : Config (ι ⊕ κ) Op Op.Res World StabilityResult} {w w' : World}

theorem eventsOf_statementEvents (h : History (ι ⊕ κ) Op Op.Res) (i : ι) :
    eventsOf i (statementEvents h) = eventsOf (.inl i) h := by
  induction h using reverseRecOn with
  | nil => rfl
  | append_singleton h x ih =>
    obtain ⟨j | k, e⟩ := x
    · rw [statementEvents_snoc_inl]
      by_cases hji : j = i
      · subst hji
        rw [eventsOf_snoc_self, eventsOf_snoc_self, ih]
      · rw [eventsOf_snoc_ne hji, eventsOf_snoc_ne (by simpa using hji), ih]
    · rw [statementEvents_snoc_inr, ih, eventsOf_snoc_ne (by simp)]

theorem stability_logAfter (i : ι) :
    (stabilityProtocol fmt stmts (.inl i : ι ⊕ κ)).logAfter {} (eventsOf (.inl i) h) =
      logOf (statementEvents h) i := by
  rw [← eventsOf_statementEvents]
  rfl

/-! ### Commits that settle -/

/-- The commit changes nothing about what is visible in table `t` at time `ts`: what it adds is
later, and what it supersedes was active and gets a successor with a record. -/
structure CommitInTime (t : TableId) (ts : Timestamp) (w : World) (args : CommitArgs) : Prop where
  later : ∀ mp ∈ args.newMps, mp.tableId = t → ts < mp.commitTs
  replaces : ∀ p ∈ args.superseded, ∀ m, p.1 ∈ w.tableMps t → w.mps p.1 = some m →
    m.commitTs ≤ ts → m.supersededBy = none ∧ ∃ mp ∈ args.newMps, mp.mpId = p.2

omit [DecidableEq κ] in
/-- The store, and that nothing is superseded by an identifier of a statement that has not committed
yet. -/
structure PastInv (pq : Parquet) (h : History ι Op Op.Res) (w : World) : Prop where
  store : StoreInv pq h w
  unnamed : ∀ i, (logOf h i).commit = none → ∀ n ∈ (logOf h i).mp.ids, ∀ k m,
    w.mps k = some m → m.supersededBy ≠ some n

section Step

variable {g : History ι Op Op.Res} {i : ι} {o : Op} {r : o.Res} {t : TableId} {ts : Timestamp}

theorem PastInv.init (hw : w.WellFormed) : PastInv pq ([] : History ι Op Op.Res) w :=
  ⟨.init hw, by simp⟩

/-- A commit leaves the commit time of every record. -/
theorem commitTs_of_commit {s : StmtLog} {u : TableId} {stmt : DmlStatement}
    {new : List MicroPartitionMeta} {sup : List (MpId × MpId)} {records : List ChangeRecordMeta}
    (hw : w.WellFormed) (hr : s.mp.Ready pq w) (hc : MpCommit fmt s.mp u stmt new sup)
    (he : w.CommitEffect w' new sup records) (hm : w.mps k = some m) :
    ∃ m', w'.mps k = some m' ∧ m'.mpId = m.mpId ∧ m'.commitTs = m.commitTs := by
  by_cases hsup : k ∈ sup.map Prod.fst
  · obtain ⟨p, hp, rfl⟩ := mem_map.1 hsup
    obtain ⟨m0, hm0, hafter⟩ := mps_of_mem_sup hw hr hc he hp
    obtain rfl : m = m0 := mem_unique hm hm0
    exact ⟨_, hafter, rfl, rfl⟩
  · exact ⟨m, (mps_of_ne_none hr hc he (by simp [hm]) hsup).trans hm, rfl, rfl⟩

/-- **A commit in time settles.** -/
theorem PastInv.settled (hinv : PastInv pq g w) {args : CommitArgs}
    (hmay : StoreMay (logOf g i) o) (hst : Step pq w o r w') (hc : commitOf ⟨o, r⟩ = some args)
    (htime : CommitInTime t ts w args) : Settled t ts w w' := by
  obtain ⟨he, txnId, hev⟩ := step_commitEffect hst hc
  cases hev
  obtain ⟨hcommit, fmt, u, stmt, hmc⟩ := hmay
  have hw := hinv.store.wf
  have hr := (hinv.store.thread i).ready hcommit
  refine ⟨fun k hk => he.mem_tableMps.2 (.inl hk), ?_, ?_, ?_, ?_⟩
  · intro k hk hnot
    obtain ⟨mp, hmp, ht, rfl⟩ := (he.mem_tableMps.1 hk).resolve_left hnot
    exact ⟨mp, mps_of_mem_new hw hr hmc he hmp, rfl, htime.later mp hmp ht⟩
  · exact fun k _ m hm => commitTs_of_commit hw hr hmc he hm
  · intro k hk m n hm hle hn
    -- it was superseded before, so this commit does not supersede it
    have hsup : k ∉ args.superseded.map Prod.fst := by
      intro hmem
      obtain ⟨p, hp, rfl⟩ := mem_map.1 hmem
      rw [(htime.replaces p hp m hk hm hle).1] at hn
      cases hn
    refine ⟨⟨m, (mps_of_ne_none hr hmc he (by simp [hm]) hsup).trans hm, hn⟩, ?_⟩
    cases hnext : w.mps n with
    | some next =>
      obtain ⟨next', hnext', -, hts⟩ := commitTs_of_commit hw hr hmc he hnext
      simp [hnext', hts]
    | none =>
      -- no statement stores a record under `n` any more
      rw [map_none, map_eq_none_iff]
      refine (he.mps_of_not_mem (fun mp hmp heq => ?_) fun p hp heq => ?_).trans hnext
      · exact hinv.unnamed i hcommit n (heq ▸ (hmc.new_spec hmp).1) k m hm hn
      · exact hw.not_mem (heq ▸ hnext) (hmc.mem_tableMps_of_mem_sup hr hp)
  · intro k hk m m' n hm hle hnone hm' hn
    rcases mps_cases hw hr hmc he hm' with ⟨hnew, rfl⟩ | ⟨n', m0, hp, hm0, rfl⟩ | ⟨-, hold⟩
    · have hunused := hr.ids_unused _ (hmc.new_spec hnew).1
      rw [hm] at hunused
      cases hunused
    · obtain rfl : n' = n := some.inj hn
      obtain ⟨-, mp, hmp, rfl⟩ := htime.replaces _ hp m hk hm hle
      refine ⟨mp, mps_of_mem_new hw hr hmc he hmp, htime.later mp hmp ?_⟩
      obtain ⟨m1, hm1, ht⟩ := hw.indexed t k hk
      obtain ⟨m2, hm2, hu⟩ := hw.indexed u k (hmc.mem_tableMps_of_mem_sup hr hp)
      obtain rfl := mem_unique hm1 hm2
      exact (hmc.new_isActive hmp).1.trans (hu.symm.trans ht)
    · obtain rfl := mem_unique hold hm
      rw [hnone] at hn
      cases hn

/-- Every step of a statement keeps the invariant. -/
theorem PastInv.step (hinv : PastInv pq g w) (hmay : StoreMay (logOf g i) o)
    (hst : Step pq w o r w') : PastInv pq (g ++ [(i, ⟨o, r⟩)]) w' := by
  refine ⟨hinv.store.step hmay hst, fun j hcj n hn k m hm hsup => ?_⟩
  have hw := hinv.store.wf
  -- an identifier generated by this step is not in use
  have hids : n ∈ (logOf g j).mp.ids ∨ n ∉ w.issued := by
    by_cases hji : j = i
    · subst hji
      rw [logOf_snoc_self] at hn
      exact (step_mpEffect hmay hst).ids_fresh hn
    · rw [logOf_snoc_ne (Ne.symm hji)] at hn
      exact .inl hn
  have hcj' : (logOf g j).commit = none := by
    by_cases hji : j = i
    · subst hji
      rw [logOf_snoc_self, StmtLog.record_commit] at hcj
      exact (or_eq_none_iff.1 hcj).2
    · rwa [logOf_snoc_ne (Ne.symm hji)] at hcj
  have hold : ∀ m0, w.mps k = some m0 → m0.supersededBy ≠ some n := by
    intro m0 hm0 hsup0
    rcases hids with hn | hfresh
    · exact hinv.unnamed j hcj' n hn k m0 hm0 hsup0
    · exact hfresh (hw.superseded k m0 n hm0 hsup0)
  cases hc : commitOf ⟨o, r⟩ with
  | none =>
    rw [(hinv.store.of_not_commit hmay hst hc).1] at hm
    exact hold m hm hsup
  | some args =>
    obtain ⟨he, txnId, hev⟩ := step_commitEffect hst hc
    cases hev
    obtain ⟨hcommit, fmt, u, stmt, hmc⟩ := hmay
    have hr := (hinv.store.thread i).ready hcommit
    rcases mps_cases hw hr hmc he hm with ⟨hnew, -⟩ | ⟨n', m0, hp, -, rfl⟩ | ⟨-, hm⟩
    · rw [supersededBy_of_isActive (hmc.new_isActive hnew).2] at hsup
      cases hsup
    · -- the new successor is an identifier of the statement that commits
      obtain rfl : n' = n := some.inj hsup
      have hn' : n' ∈ (logOf g i).mp.ids := (hmc.sup_spec hr.lookup_id hp).1
      have hji : j = i := by
        rcases hids with hn | hfresh
        · exact hinv.store.ids_disjoint j i n' hn hn'
        · exact (hfresh ((hinv.store.thread i).ids_issued n' hn')).elim
      subst hji
      rw [logOf_snoc_self, StmtLog.record_commit] at hcj
      cases hcj
    · exact hold m hm hsup

end Step

/-! ### Runs -/

theorem run_pastInv (hw : w₀.WellFormed)
    (hr : Run (Step pq) (stabilityConfig fmt w₀ stmts calls) h c) :
    PastInv pq (statementEvents h) c.world := by
  refine Run.always (fun h w => PastInv pq (statementEvents h) w) stabilityConfig_follows ?_ hr
    (.init hw)
  intro h c x o r w' _ ih hmay hst
  cases x with
  | inl i =>
    rw [stability_logAfter] at hmay
    rw [statementEvents_snoc_inl]
    exact ih.step (storeMay_of_dmlMay hmay.1 hmay.2) hst
  | inr k =>
    rw [statementEvents_snoc_inr, Op.Reads.eq hmay hst]
    exact ih

variable (clock : ℕ → Timestamp)

variable (pq fmt w₀ stmts calls) in
/-- Every commit after the clock has passed `ts` is in time.  `clock n` is what the clock shows at
the `n`-th step of the run. -/
def Timely (t : TableId) (ts : Timestamp) (h : History (ι ⊕ κ) Op Op.Res) : Prop :=
  ∀ h₁ i e h₂ c₁ args, h = h₁ ++ (.inl i, e) :: h₂ → commitOf e = some args →
    Run (Step pq) (stabilityConfig fmt w₀ stmts calls) h₁ c₁ → ts < clock h₁.length →
      CommitInTime t ts c₁.world args

/-- The readings of the clock are those of `clock`, which never goes back. -/
structure Ticks (h : History (ι ⊕ κ) Op Op.Res) : Prop where
  mono : Monotone clock
  reads : ∀ h₁ x now h₂, h = h₁ ++ (x, ⟨.nowMicros, .ok now⟩) :: h₂ → now = clock h₁.length

/-- The call `k` starts after the clock has passed `ts`. -/
def StartsAfter (ts : Timestamp) (h : History (ι ⊕ κ) Op Op.Res) (k : κ) : Prop :=
  ∀ h₁ e h₂, h = h₁ ++ (.inr k, e) :: h₂ → (∀ x ∈ h₁, x.1 ≠ .inr k) → ts < clock h₁.length

section Late

variable {clock : ℕ → Timestamp} {t : TableId} {ts : Timestamp} {h₁ h₂ : History (ι ⊕ κ) Op Op.Res}
  {c₁ c₂ : Config (ι ⊕ κ) Op Op.Res World StabilityResult}

/-- One step after the clock has passed `ts`. -/
theorem settled_of_step (hw : w₀.WellFormed) {x : (ι ⊕ κ) × Event Op Op.Res}
    (hr : Run (Step pq) (stabilityConfig fmt w₀ stmts calls) h c) (hx : Run (Step pq) c [x] c₂)
    (htimely : Timely fmt w₀ stmts calls pq clock t ts (h ++ x :: h₂))
    (hlate : ts < clock h.length) : Settled t ts c.world c₂.world := by
  obtain ⟨j, o, r⟩ := x
  obtain ⟨k, w', hop, hst, hnil⟩ := hx.cons_inv
  obtain rfl := hnil.eq_of_nil
  have hmay := hr.allowed stabilityConfig_follows hop
  cases j with
  | inl i =>
    rw [stability_logAfter] at hmay
    have hinv := run_pastInv hw hr
    have hstore := storeMay_of_dmlMay hmay.1 hmay.2
    cases hc : commitOf ⟨o, r⟩ with
    | none =>
      obtain ⟨hmps, htable, -⟩ := hinv.store.of_not_commit hstore hst hc
      exact .of_eq hmps htable
    | some args =>
      exact hinv.settled hstore hst hc (htimely h i _ h₂ c args rfl hc hr hlate)
  | inr k =>
    have heq : w' = c.world := Op.Reads.eq hmay hst
    exact heq ▸ .refl _

theorem Timely.of_append (h : Timely fmt w₀ stmts calls pq clock t ts (h₁ ++ h₂)) :
    Timely fmt w₀ stmts calls pq clock t ts h₁ := by
  rintro g1 i e g2 c args rfl
  exact h g1 i e (g2 ++ h₂) c args (by simp)

section

variable (hw : w₀.WellFormed) (hclock : Monotone clock)
  (hr₁ : Run (Step pq) (stabilityConfig fmt w₀ stmts calls) h₁ c₁) (hr₂ : Run (Step pq) c₁ h₂ c₂)
  (htimely : Timely fmt w₀ stmts calls pq clock t ts (h₁ ++ h₂)) (hlate : ts < clock h₁.length)
include hw hclock hr₁ hr₂ htimely hlate

/-- All steps after the clock has passed `ts`. -/
theorem settled_of_run : Settled t ts c₁.world c₂.world := by
  induction hr₂ with
  | nil => exact .refl _
  | @snoc h₂ c j o k r w' hr₂ hop hst ih =>
    rw [← append_assoc] at htimely
    have hlate' : ts < clock (h₁ ++ h₂).length := hlate.trans_le (hclock (by simp))
    have hstep := settled_of_step hw (hr₁.append hr₂) (.snoc .nil hop hst) htimely hlate'
    exact (ih htimely.of_append).trans hstep

/-- A call that starts after the clock has passed `ts` returns what is visible when it starts. -/
theorem mpsAtTimestamp_of_call {k : κ} (hk : calls k = (t, ts)) (hstart : ∀ x ∈ h₁, x.1 ≠ .inr k)
    (hend : c₂.threads (.inr k) = .ret (.ok mps)) :
    mps.map mpId = (c₁.world.mpsAtTimestamp t ts).map mpId := by
  have hthread : c₁.threads (.inr k) = (getMpsAtTimestamp t ts).run := by
    rw [hr₁.threads_eq hstart]
    simp only [stabilityConfig, hk]
  have henv : ∀ g1 x g2 d1 d2, h₂ = g1 ++ x :: g2 → x.1 ≠ .inr k → Run (Step pq) c₁ g1 d1 →
      Run (Step pq) d1 [x] d2 → Settled t ts d1.world d2.world := by
    rintro g1 x g2 d1 d2 rfl - hg1 hx
    rw [← append_assoc] at htimely
    exact settled_of_step hw (hr₁.append hg1) hx htimely (hlate.trans_le (hclock (by simp)))
  obtain ⟨w', he⟩ := Run.exec_interfered .refl (fun _ _ _ h h' => h.trans h') hr₂ henv hend
  rw [hthread] at he
  exact mpsAtTimestamp_of_interfered (run_pastInv hw hr₁).store.wf he

end

/-- A call that has ended has started. -/
theorem exists_start {k : κ} (hr : Run (Step pq) (stabilityConfig fmt w₀ stmts calls) h c)
    (hend : c.threads (.inr k) = .ret (.ok mps)) :
    ∃ h₁ e h₂, h = h₁ ++ (.inr k, e) :: h₂ ∧ ∀ x ∈ h₁, x.1 ≠ .inr k := by
  cases hfind : h.find? (fun x => x.1 = .inr k) with
  | some x =>
    obtain ⟨hx, h₁, h₂, rfl, hbefore⟩ := find?_eq_some_iff_append.1 hfind
    obtain ⟨j, e⟩ := x
    obtain rfl : j = .inr k := by simpa using hx
    exact ⟨h₁, e, h₂, rfl, fun y hy => by simpa using hbefore y hy⟩
  | none =>
    -- the thread would still be at its first operation
    have hstill := hr.threads_eq fun x hx => by
      simpa using find?_eq_none.1 hfind x hx
    rw [hend] at hstill
    cases hstill

/-- Of two calls, the one that starts first and the one that starts later. -/
theorem mpsAtTimestamp_stable_of_le (hw : w₀.WellFormed) (hclock : Monotone clock)
    {h3 : History (ι ⊕ κ) Op Op.Res}
    (hr : Run (Step pq) (stabilityConfig fmt w₀ stmts calls) (h₁ ++ h₂ ++ h3) c)
    (htimely : Timely fmt w₀ stmts calls pq clock t ts (h₁ ++ h₂ ++ h3))
    (hlate : ts < clock h₁.length) {k1 k2 : κ} (hk1 : calls k1 = (t, ts)) (hk2 : calls k2 = (t, ts))
    (hstart1 : ∀ x ∈ h₁, x.1 ≠ .inr k1) (hstart2 : ∀ x ∈ h₁ ++ h₂, x.1 ≠ .inr k2)
    {mps1 mps2 : List MicroPartitionMeta} (hend1 : c.threads (.inr k1) = .ret (.ok mps1))
    (hend2 : c.threads (.inr k2) = .ret (.ok mps2)) :
    mps1.map mpId = mps2.map mpId := by
  obtain ⟨c₂, hr12, hr3⟩ := hr.split
  obtain ⟨c₁, hr₁, hr₂⟩ := hr12.split
  have hlate2 : ts < clock (h₁ ++ h₂).length := hlate.trans_le (hclock (by simp))
  have hsettled := settled_of_run hw hclock hr₁ hr₂ htimely.of_append hlate
  have hcall1 := mpsAtTimestamp_of_call hw hclock hr₁ (hr₂.append hr3)
    (by rwa [← append_assoc]) hlate hk1 hstart1 hend1
  have hcall2 := mpsAtTimestamp_of_call hw hclock hr12 hr3 htimely hlate2 hk2 hstart2 hend2
  rw [hcall1, hcall2]
  exact (hsettled.mpsAtTimestamp_eq (run_pastInv hw hr₁).store.wf
    (run_pastInv hw hr12).store.wf).symm

end Late

end Config

/-! ### An INSERT that commits late -/

section Checks

variable {ι κ : Type} {clock : ℕ → Timestamp} {ts : Timestamp} {h : History (ι ⊕ κ) Op Op.Res}

/-- What a reading of the clock returned. -/
def clockReading : Event Op Op.Res → Option Timestamp
  | ⟨.nowMicros, .ok now⟩ => some now
  | _ => none

theorem Ticks.of_check (hmono : Monotone clock)
    (hcheck : h.zipIdx.all (fun y => (clockReading y.1.2).all fun now => now = clock y.2) = true) :
    Ticks clock h := by
  refine ⟨hmono, fun h₁ x now h₂ heq => ?_⟩
  have hnow := of_zipIdx_all (p := fun x n => (clockReading x.2).all fun now => now = clock n)
    hcheck heq
  simpa [clockReading] using hnow

theorem StartsAfter.of_check [DecidableEq ι] [DecidableEq κ] {k : κ}
    (hcheck : h.zipIdx.all (fun y => decide (y.1.1 = .inr k → ts < clock y.2)) = true) :
    StartsAfter clock ts h k := by
  intro h₁ e h₂ heq _
  have hlate := of_zipIdx_all (p := fun x n => decide (x.1 = .inr k → ts < clock n)) hcheck heq
  exact of_decide_eq_true hlate rfl

end Checks

/-- The call has returned micro-partitions with these identifiers. -/
def returnsIds (ids : List MpId) :
    Prog Op Op.Res (Except NovaError (List MicroPartitionMeta)) → Bool
  | .ret (.ok mps) => decide (mps.map MicroPartitionMeta.mpId = ids)
  | _ => false

theorem exists_of_returnsIds {p : Prog Op Op.Res (Except NovaError (List MicroPartitionMeta))}
    (h : returnsIds ids p = true) :
    ∃ mps, p = .ret (.ok mps) ∧ mps.map mpId = ids := by
  unfold returnsIds at h
  split at h
  · next mps => exact ⟨mps, rfl, of_decide_eq_true h⟩
  · cases h

/-- The clock shows 10 up to the tenth step, then 20. -/
def clockTo20 (n : ℕ) : Timestamp := if n < 10 then 10 else 20

theorem clockTo20_mono : Monotone clockTo20 := by
  intro m n hmn
  unfold clockTo20
  split_ifs
  · exact le_rfl
  · decide
  · omega
  · exact le_rfl

/-- `INSERT INTO d.s.t VALUES (1)` runs up to its commit while the clock shows 10; the first call
for time 15 runs while it shows 20; then the INSERT commits and the second call runs. -/
def lateCommit : List ((Unit ⊕ Bool) × Choice) :=
  List.replicate 10 (.inl (), { id := 8, now := 10 }) ++ [(.inr false, { now := 20 })] ++
    [(.inl (), { now := 20 })] ++ List.replicate 2 (.inr true, { now := 20 })

/-- A first call, then an INSERT from its start to its commit, then a second call. -/
def insertBetween : List ((Unit ⊕ Bool) × Choice) :=
  List.replicate 2 (.inr false, { now := 20 }) ++
    List.replicate 11 (.inl (), { id := 8, now := 20 }) ++
    List.replicate 3 (.inr true, { now := 20 })

/-- A commit whose new micro-partitions are later than `ts` and that supersedes nothing. -/
def addsLater (ts : Timestamp) (args : CommitArgs) : Bool :=
  args.newMps.all (fun mp => decide (ts < mp.commitTs)) && args.superseded.isEmpty

theorem CommitInTime.of_addsLater {t : TableId} {ts : Timestamp} {args : CommitArgs}
    (h : addsLater ts args = true) (w : World) : CommitInTime t ts w args := by
  simp only [addsLater, Bool.and_eq_true, List.all_eq_true, decide_eq_true_eq,
    List.isEmpty_iff] at h
  exact ⟨fun mp hmp _ => h.1 mp hmp, by simp [h.2]⟩

end NovaCore
