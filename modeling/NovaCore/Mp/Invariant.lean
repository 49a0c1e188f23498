import NovaCore.Mp.Contents

/-!
# Micro-partitions in every interleaving

What the micro-partition records, the table index, the files and the identifiers in use have to do
with each other, and with what each statement has seen and written, while any number of statements
run.

## Main definitions

* `MpEffect` : what an event does to the micro-partition store and to the log of its thread.
* `storeProtocol` : what the store relies on from each thread.
* `ThreadInv`, `StoreInv` : the invariant, kept by every step (`StoreInv.step`).

## Main results

* `StoreInv.files_none` : a file is never overwritten.
* `run_storeInv` : the invariant holds after every run.
-/

namespace NovaCore

open List Option Function StmtLog MpCommit World

/-! ### Events of the micro-partition store -/

/-- Two logs agree on everything but the table and the clock. -/
structure MpLog.Same (s s' : MpLog) : Prop where
  ids : s'.ids = s.ids
  files : s'.files = s.files
  scan : s'.scan = s.scan
  lookups : s'.lookups = s.lookups
  reads : s'.reads = s.reads

/-- What an event does to the micro-partition store and to the log of the thread that performs
it. -/
inductive MpEffect (pq : Parquet) (w w' : World) (s : MpLog) : Event Op Op.Res → MpLog → Prop
  | frame {e : Event Op Op.Res} {s' : MpLog} (hcommit : commitOf e = none)
      (hmps : w'.mps = w.mps) (htable : w'.tableMps = w.tableMps) (hfiles : w'.files = w.files)
      (hissued : w'.issued = w.issued) (hs : s.Same s') : MpEffect pq w w' s e s'
  | scan {t : TableId} (hw : w' = w) :
      MpEffect pq w w' s ⟨.scanTableMps t, .ok (w.scanTableMps t)⟩
        { s with scan := some (t, w.scanTableMps t) }
  | lookup {k : MpId} (hw : w' = w) :
      MpEffect pq w w' s ⟨.getMp k, .ok (w.mps k)⟩
        { s with lookups := s.lookups ++ [(k, w.mps k)] }
  | read {p : MpPath} {bs : List RecordBatch} (hw : w' = w) (hbs : w.files p = some bs) :
      MpEffect pq w w' s ⟨.getFile p, .ok bs⟩ { s with reads := s.reads ++ [(p, bs)] }
  | generateId {n : ℕ} (hn : n ∉ w.issued) (hw : w' = { w with issued := n :: w.issued }) :
      MpEffect pq w w' s ⟨.generateId, .ok n⟩ { s with ids := s.ids ++ [n] }
  | putFile {p : MpPath} {bs : List RecordBatch}
      (hw : w' = { w with files := Function.update w.files p (some (pq.mp bs)) }) :
      MpEffect pq w w' s ⟨.putFile p bs, .ok ()⟩ { s with files := s.files ++ [(p, bs)] }
  | commit {txnId : TxnId} {new : List MicroPartitionMeta} {sup : List (MpId × MpId)}
      {records : List ChangeRecordMeta} (he : w.CommitEffect w' new sup records) :
      MpEffect pq w w' s ⟨.commitTableCdc txnId new sup records, .ok ()⟩ s

variable {pq : Parquet} {w w' : World}

theorem MpLog.Same.refl (s : MpLog) : s.Same s := ⟨rfl, rfl, rfl, rfl, rfl⟩

/-- What the micro-partition store relies on from a thread with log `s`. -/
def StoreMay (s : StmtLog) : Op → Prop
  | .scanTableMps _ => s.mp.scan = none
  | .getMp id => ∃ t rest, s.mp.scan = some (t, s.mp.lookups.map Prod.fst ++ id :: rest)
  | .putFile p _ => ∃ done, s.mp.ids = done ++ [p.mpId] ∧ ∀ f ∈ s.mp.files, f.1.mpId ∈ done
  | .commitTableCdc _ new sup _ => s.commit = none ∧
      ∃ fmt t stmt, MpCommit fmt s.mp t stmt new sup
  | .setMp _ _ => False
  | _ => True

/-- The effect of a step on the micro-partition store. -/
theorem step_mpEffect {s : StmtLog} {o : Op} {r : o.Res} (hmay : StoreMay s o)
    (h : Step pq w o r w') : MpEffect pq w w' s.mp ⟨o, r⟩ (s.record o r).mp := by
  cases r with
  | error e =>
    obtain rfl := step_error h
    rw [record_error]
    refine .frame ?_ rfl rfl rfl rfl (.refl _)
    cases o <;> rfl
  | ok a =>
    have heff := step_effect h
    obtain ⟨x, hx⟩ := step_ok h
    cases o with
    | setMp id mp => exact hmay.elim
    | scanTableMps t =>
      cases hx
      exact .scan rfl
    | getMp k =>
      cases hx
      exact .lookup rfl
    | getFile p =>
      simp only [Op.perform] at hx
      split at hx
      · next bs hbs =>
        cases hx
        exact .read rfl hbs
      · cases hx
    | generateId =>
      simp only [Op.perform] at hx
      split_ifs at hx with hn
      cases hx
      exact .generateId hn rfl
    | putFile p bs =>
      cases hx
      exact .putFile rfl
    | commitTableCdc txnId new sup records =>
      cases heff with
      | quiet he => cases he
      | commit hc => exact .commit (commitTableCdc_eq_ok hc)
    | allocateTableChangeSequences t n =>
      cases heff with
      | quiet he => cases he
      | allocate ha =>
        obtain ⟨-, -, rfl⟩ := allocate_eq_ok ha
        exact .frame rfl rfl rfl rfl rfl (.refl _)
    | compareAndSetStreamOffset sid expected new =>
      cases heff with
      | quiet he => cases he
      | compareAndSet hc =>
        obtain ⟨-, -, -, rfl⟩ := compareAndSet_eq_ok hc
        exact .frame rfl rfl rfl rfl rfl (.refl _)
    | _ =>
      cases heff <;> exact .frame rfl rfl rfl rfl rfl ⟨rfl, rfl, rfl, rfl, rfl⟩

/-- An identifier a thread generates was not in use. -/
theorem MpEffect.ids_fresh {s s' : MpLog} {e : Event Op Op.Res} (h : MpEffect pq w w' s e s')
    {n : MpId} (hn : n ∈ s'.ids) : n ∈ s.ids ∨ n ∉ w.issued := by
  cases h with
  | frame _ _ _ _ _ hs => exact .inl (hs.ids ▸ hn)
  | generateId hfresh _ =>
    rcases mem_snoc.1 hn with hn | rfl
    · exact .inl hn
    · exact .inr (hfresh)
  | _ => exact .inl hn

/-- The effect of a commit. -/
theorem step_commitEffect {o : Op} {r : o.Res} {args : CommitArgs} (h : Step pq w o r w')
    (hc : commitOf ⟨o, r⟩ = some args) :
    w.CommitEffect w' args.newMps args.superseded args.records ∧ ∃ txnId,
      (⟨o, r⟩ : Event Op Op.Res) =
        ⟨.commitTableCdc txnId args.newMps args.superseded args.records, .ok ()⟩ := by
  cases o with
  | commitTableCdc txnId new sup records =>
    cases r with
    | error e => cases hc
    | ok a =>
      cases hc
      cases step_effect h with
      | quiet he => cases he
      | commit he => exact ⟨commitTableCdc_eq_ok he, txnId, rfl⟩
  | _ => cases r <;> cases hc

/-! ### The invariant -/

/-- The protocol of a thread, as far as the micro-partition store relies on it. -/
def storeProtocol : Protocol Op Op.Res StmtLog where
  record := StmtLog.record
  Allowed := StoreMay

theorem storeMay_of_dmlMay {fmt : TextFormat} {stmt : DmlStatement} {s : StmtLog} {o : Op}
    (hs : s.commit = none) (ho : DmlMay fmt stmt s o) : StoreMay s o := by
  cases o with
  | scanTableMps t => exact ho.1
  | getMp id | putFile p bs | setMp id mp => exact ho
  | commitTableCdc txnId new sup records =>
    obtain ⟨t, -, hc⟩ := ho
    exact ⟨hs, fmt, t, stmt, hc⟩
  | _ => trivial

/-- How the store relates to what one thread has seen and written. -/
structure ThreadInv (pq : Parquet) (w : World) (s : StmtLog) : Prop where
  ids_nodup : s.mp.ids.Nodup
  ids_issued : ∀ n ∈ s.mp.ids, n ∈ w.issued
  /-- Until the thread commits, its identifiers are not in use. -/
  ids_unused : s.commit = none → ∀ n ∈ s.mp.ids, w.mps n = none
  ids_unnamed : s.commit = none → ∀ n ∈ s.mp.ids, ∀ k mp, w.mps k = some mp →
    mp.supersedes ≠ some n
  file_ids : ∀ f ∈ s.mp.files, f.1.mpId ∈ s.mp.ids
  files : ∀ f ∈ s.mp.files, w.files f.1 = some (pq.mp f.2)
  /-- An identifier the thread has not written a file for has no file. -/
  unwritten : ∀ n ∈ s.mp.ids, (∀ f ∈ s.mp.files, f.1.mpId ≠ n) →
    ∀ p : MpPath, p.mpId = n → w.files p = none
  scanned : ∀ t ids, s.mp.scan = some (t, ids) → ids.Nodup ∧ ∀ k ∈ ids, k ∈ w.tableMps t
  /-- The index scan of a table whose identifier ends in the byte `0xFF` finds nothing. -/
  scan_nil : ∀ t ids, s.mp.scan = some (t, ids) → t % 256 = 255 → ids = []
  lookups_scan : ∀ x ∈ s.mp.lookups, ∃ t ids, s.mp.scan = some (t, ids) ∧ x.1 ∈ ids
  lookup_id : ∀ k mp, (k, some mp) ∈ s.mp.lookups → mp.mpId = k
  reads : ∀ r ∈ s.mp.reads, w.files r.1 = some r.2

theorem ThreadInv.init (pq : Parquet) (w : World) : ThreadInv pq w {} where
  ids_nodup := nodup_nil
  ids_issued := by simp
  ids_unused := by simp
  ids_unnamed := by simp
  file_ids := by simp
  files := by simp
  unwritten := by simp
  scanned := by simp
  scan_nil := by simp
  lookups_scan := by simp
  lookup_id := by simp
  reads := by simp

theorem ThreadInv.ready {s : StmtLog} (h : ThreadInv pq w s) (hs : s.commit = none) :
    s.mp.Ready pq w :=
  ⟨h.ids_nodup, h.ids_unused hs, h.files, h.scanned, h.lookup_id, h.reads⟩

/-- What may happen to the store without a thread noticing. -/
theorem ThreadInv.frame {s s' : StmtLog} (h : ThreadInv pq w s) (hs : s.mp.Same s'.mp)
    (hcommit : s'.commit = none → s.commit = none)
    (hissued : ∀ n ∈ w.issued, n ∈ w'.issued)
    (hfiles : ∀ p bs, w.files p = some bs → w'.files p = some bs)
    (hnone : ∀ p : MpPath, p.mpId ∈ s.mp.ids → w.files p = none → w'.files p = none)
    (hmps : s'.commit = none → ∀ n ∈ s.mp.ids, w.mps n = none → w'.mps n = none)
    (hnamed : s'.commit = none → ∀ n ∈ s.mp.ids, (∀ k mp, w.mps k = some mp →
      mp.supersedes ≠ some n) → ∀ k mp, w'.mps k = some mp → mp.supersedes ≠ some n)
    (hindex : ∀ t k, k ∈ w.tableMps t → k ∈ w'.tableMps t) : ThreadInv pq w' s' where
  ids_nodup := hs.ids ▸ h.ids_nodup
  ids_issued n hn := hissued n (h.ids_issued n (hs.ids ▸ hn))
  ids_unused hc n hn := hmps hc n (hs.ids ▸ hn) (h.ids_unused (hcommit hc) n (hs.ids ▸ hn))
  ids_unnamed hc n hn := hnamed hc n (hs.ids ▸ hn) (h.ids_unnamed (hcommit hc) n (hs.ids ▸ hn))
  file_ids f hf := hs.ids ▸ h.file_ids f (hs.files ▸ hf)
  files f hf := hfiles _ _ (h.files f (hs.files ▸ hf))
  unwritten n hn hf p hp :=
    hnone p (hp ▸ hs.ids ▸ hn) (h.unwritten n (hs.ids ▸ hn) (hs.files ▸ hf) p hp)
  scanned t ids hscan := ⟨(h.scanned t ids (hs.scan ▸ hscan)).1,
      fun k hk => hindex t k ((h.scanned t ids (hs.scan ▸ hscan)).2 k hk)⟩
  scan_nil t ids hscan := h.scan_nil t ids (hs.scan ▸ hscan)
  lookups_scan x hx := hs.scan ▸ h.lookups_scan x (hs.lookups ▸ hx)
  lookup_id k mp hk := h.lookup_id k mp (hs.lookups ▸ hk)
  reads r hr := hfiles _ _ (h.reads r (hs.reads ▸ hr))

/-- A commit keeps the store well-formed. -/
theorem World.WellFormed.commit {fmt : TextFormat} {s : StmtLog} {t : TableId}
    {stmt : DmlStatement} {new : List MicroPartitionMeta} {sup : List (MpId × MpId)}
    {records : List ChangeRecordMeta} (hw : w.WellFormed) (hs : ThreadInv pq w s)
    (hcommit : s.commit = none) (hc : MpCommit fmt s.mp t stmt new sup)
    (he : w.CommitEffect w' new sup records) : w'.WellFormed := by
  have hr := hs.ready hcommit
  have hcases := fun {k m} => mps_cases hw hr hc he (k := k) (m := m)
  refine ⟨?_, ?_, ?_, ?_, ?_, ?_, ?_⟩
  · intro u k hk
    rcases he.mem_tableMps.1 hk with hk | ⟨mp, hmp, hu, rfl⟩
    · obtain ⟨mp, hmp, hu⟩ := hw.indexed u k hk
      by_cases hsup : k ∈ sup.map Prod.fst
      · obtain ⟨p, hp, rfl⟩ := mem_map.1 hsup
        obtain ⟨mp', hmp', hafter⟩ := mps_of_mem_sup hw hr hc he hp
        obtain rfl : mp = mp' := mem_unique hmp hmp'
        exact ⟨_, hafter, hu⟩
      · exact ⟨mp, (mps_of_ne_none hr hc he (by simp [hmp]) hsup).trans hmp, hu⟩
    · exact ⟨mp, mps_of_mem_new hw hr hc he hmp, hu⟩
  · intro k m hm
    rcases hcases hm with ⟨-, hid⟩ | ⟨n, mp, -, hmp, rfl⟩ | ⟨-, hm⟩
    · exact hid
    · exact hw.mpId k mp hmp
    · exact hw.mpId k m hm
  · intro k m hm
    rw [he.issued]
    rcases hcases hm with ⟨hnew, rfl⟩ | ⟨n, mp, -, hmp, rfl⟩ | ⟨-, hm⟩
    · exact hs.ids_issued _ (hc.new_spec hnew).1
    · exact hw.issued k mp hmp
    · exact hw.issued k m hm
  · intro k m n hm hn
    rw [he.issued]
    rcases hcases hm with ⟨hnew, -⟩ | ⟨n', mp, hp, -, rfl⟩ | ⟨-, hm⟩
    · have hact := (hc.new_isActive hnew).2
      simp [MicroPartitionMeta.isActive, hn] at hact
    · cases hn
      exact hs.ids_issued _ (hc.sup_spec hr.lookup_id hp).1
    · exact hw.superseded k m n hm hn
  · intro k m n hm hn
    rw [he.issued]
    rcases hcases hm with ⟨hnew, -⟩ | ⟨n', mp, -, hmp, rfl⟩ | ⟨-, hm⟩
    · obtain ⟨mp, hmp, -⟩ := hw.indexed t n
        (hc.mem_tableMps_of_mem_sup hr (hc.new_supersedes hnew hn))
      exact hw.issued n mp hmp
    · exact hw.supersedes k mp n hmp hn
    · exact hw.supersedes k m n hm hn
  · intro k m hm ha
    rw [he.files]
    rcases hcases hm with ⟨hnew, -⟩ | ⟨n', mp, -, -, rfl⟩ | ⟨-, hm⟩
    · obtain ⟨-, path, bs, _, _, hf, -, hspec⟩ := hc.new_spec hnew
      simp [hspec.readPath, hr.files _ hf]
    · simp at ha
    · exact hw.stored k m hm ha
  · intro p bs hp
    rw [he.issued]
    exact hw.files p bs (he.files ▸ hp)

section

variable {ι : Type} [DecidableEq ι] {h : History ι Op Op.Res}

/-- The invariant of the micro-partition store. -/
structure StoreInv (pq : Parquet) (h : History ι Op Op.Res) (w : World) : Prop where
  wf : w.WellFormed
  thread : ∀ i, ThreadInv pq w (logOf h i)
  ids_disjoint : ∀ i j n, n ∈ (logOf h i).mp.ids → n ∈ (logOf h j).mp.ids → i = j

theorem StoreInv.init (hw : w.WellFormed) : StoreInv pq ([] : History ι Op Op.Res) w where
  wf := hw
  thread _ := .init pq w
  ids_disjoint := by simp

variable {i : ι} {o : Op} {r : o.Res}

section

variable (hinv : StoreInv pq h w)
include hinv

/-- The invariant from the point of view of the thread that moved and of the others. -/
theorem StoreInv.snoc (hwf : w'.WellFormed) (hself : ThreadInv pq w' ((logOf h i).record o r))
    (hother : ∀ j, j ≠ i → ThreadInv pq w' (logOf h j))
    (hids : ∀ n ∈ ((logOf h i).record o r).mp.ids, n ∈ (logOf h i).mp.ids ∨ n ∉ w.issued) :
    StoreInv pq (h ++ [(i, ⟨o, r⟩)]) w' := by
  have hlog : ∀ j, j ≠ i → logOf (h ++ [(i, ⟨o, r⟩)]) j = logOf h j := fun j hj =>
    logOf_snoc_ne (Ne.symm hj) h _
  have hmix : ∀ j n, j ≠ i → n ∈ ((logOf h i).record o r).mp.ids → n ∉ (logOf h j).mp.ids := by
    intro j n hj hn hn'
    rcases hids n hn with hold | hfresh
    · exact hj (hinv.ids_disjoint j i n hn' hold)
    · exact hfresh ((hinv.thread j).ids_issued n hn')
  refine ⟨hwf, fun j => ?_, fun j k n hj hk => ?_⟩
  · by_cases hji : j = i
    · subst hji
      rw [logOf_snoc_self]
      exact hself
    · rw [hlog j hji]
      exact hother j hji
  · by_cases hji : j = i <;> by_cases hki : k = i
    · exact hji.trans hki.symm
    · subst hji
      rw [logOf_snoc_self] at hj
      rw [hlog k hki] at hk
      exact (hmix k n hki hj hk).elim
    · subst hki
      rw [logOf_snoc_self] at hk
      rw [hlog j hji] at hj
      exact (hmix j n hji hk hj).elim
    · rw [hlog j hji] at hj
      rw [hlog k hki] at hk
      exact hinv.ids_disjoint j k n hj hk

/-- A file that is about to be written does not exist yet. -/
theorem StoreInv.files_none {p : MpPath} {bs : List RecordBatch}
    (hmay : StoreMay (logOf h i) (.putFile p bs)) : w.files p = none := by
  obtain ⟨done, hids, hdone⟩ := hmay
  have hnd := (hinv.thread i).ids_nodup
  rw [hids, nodup_append] at hnd
  refine (hinv.thread i).unwritten p.mpId (by simp [hids]) (fun f hf he => ?_) p rfl
  exact hnd.2.2 _ (hdone f hf) _ (by simp) he

/-- A step that is not a commit leaves records and index alone and overwrites no file. -/
theorem StoreInv.of_not_commit (hmay : StoreMay (logOf h i) o)
    (hst : Step pq w o r w') (hc : commitOf ⟨o, r⟩ = none) :
    w'.mps = w.mps ∧ w'.tableMps = w.tableMps ∧
      ∀ p bs, w.files p = some bs → w'.files p = some bs := by
  have heff := step_mpEffect hmay hst
  generalize ((logOf h i).record o r).mp = s' at heff
  cases heff with
  | frame _ hmps htable hfiles => exact ⟨hmps, htable, fun p bs hp => hfiles ▸ hp⟩
  | scan hw | lookup hw | read hw | generateId _ hw =>
    subst hw
    exact ⟨rfl, rfl, fun _ _ => id⟩
  | @putFile p bs hw =>
    subst hw
    refine ⟨rfl, rfl, fun q bs' hq => ?_⟩
    have hne : q ≠ p := fun he => by simp [he, hinv.files_none hmay] at hq
    exact (update_of_ne hne _ _).trans hq
  | commit => cases hc

/-- A commit keeps the invariant. -/
theorem StoreInv.commit_step {txnId : TxnId}
    {new : List MicroPartitionMeta} {sup : List (MpId × MpId)} {records : List ChangeRecordMeta}
    (hmay : StoreMay (logOf h i) (.commitTableCdc txnId new sup records))
    (he : w.CommitEffect w' new sup records) :
    StoreInv pq (h ++ [(i, ⟨.commitTableCdc txnId new sup records, .ok ()⟩)]) w' := by
  obtain ⟨hcommit, fmt, t, stmt, hc⟩ := hmay
  have hi := hinv.thread i
  have hr := hi.ready hcommit
  have hindex : ∀ u k, k ∈ w.tableMps u → k ∈ w'.tableMps u := fun u k hk =>
    he.mem_tableMps.2 (.inl hk)
  refine hinv.snoc (hinv.wf.commit hi hcommit hc he) ?_ (fun j hj => ?_) fun n hn => .inl hn
  · exact hi.frame (.refl _) (by simp [record]) (fun n hn => he.issued ▸ hn)
      (fun p bs hp => he.files ▸ hp) (fun p _ hp => he.files ▸ hp) (by simp [record])
      (by simp [record]) hindex
  · refine (hinv.thread j).frame (.refl _) id (fun n hn => he.issued ▸ hn)
      (fun p bs hp => he.files ▸ hp) (fun p _ hp => he.files ▸ hp) (fun _ n hn hnone => ?_)
      (fun hcj n hn hnamed k m hm hsup => ?_) hindex
    -- What another thread generated is neither committed nor superseded nor named here.
    · refine (he.mps_of_not_mem (fun mp hmp heq => hj ?_) fun q hq heq => ?_).trans hnone
      · exact hinv.ids_disjoint j i n hn (heq ▸ (hc.new_spec hmp).1)
      · exact hinv.wf.not_mem (heq ▸ hnone) (hc.mem_tableMps_of_mem_sup hr hq)
    · rcases mps_cases hinv.wf hr hc he hm with ⟨hnew, -⟩ | ⟨_, mp, -, hmp, rfl⟩ | ⟨-, hm⟩
      · have hnone := (hinv.thread j).ids_unused hcj n hn
        exact hinv.wf.not_mem hnone (hc.mem_tableMps_of_mem_sup hr (hc.new_supersedes hnew hsup))
      · exact hnamed k mp hmp hsup
      · exact hnamed k m hm hsup

/-- Writing a file keeps the invariant. -/
theorem StoreInv.putFile_step {p : MpPath} {bs : List RecordBatch}
    (hmay : StoreMay (logOf h i) (.putFile p bs)) :
    StoreInv pq (h ++ [(i, ⟨.putFile p bs, .ok ()⟩)])
      { w with files := update w.files p (some (pq.mp bs)) } := by
  have hnone := hinv.files_none hmay
  obtain ⟨done, hids, hdone⟩ := hmay
  have hi := hinv.thread i
  have hwf := hinv.wf
  have hp : p.mpId ∈ (logOf h i).mp.ids := by simp [hids]
  have hfiles : ∀ q bs', w.files q = some bs' →
      update w.files p (some (pq.mp bs)) q = some bs' := by
    intro q bs' hq
    have hne : q ≠ p := fun he => by simp [he, hnone] at hq
    rw [update_of_ne hne, hq]
  refine hinv.snoc { hwf with stored := ?_, files := ?_ } ?_ (fun j hj => ?_) fun n hn => .inl hn
  · intro k mp hmp ha
    obtain ⟨bs', hbs'⟩ := ne_none_iff_exists'.1 (hwf.stored k mp hmp ha)
    exact ne_none_iff_exists'.2 ⟨bs', hfiles _ _ hbs'⟩
  · intro q bs' hq
    by_cases hqp : q = p
    · subst hqp
      exact hi.ids_issued _ hp
    · exact hwf.files q bs' ((update_of_ne hqp _ _).symm.trans hq)
  · refine { hi with
      file_ids := ?_, files := ?_, unwritten := ?_, reads := fun r hr =>
        hfiles _ _ (hi.reads r hr) }
    · intro f hf
      rcases mem_snoc.1 hf with hf | rfl
      · exact hi.file_ids f hf
      · exact hp
    · intro f hf
      rcases mem_snoc.1 hf with hf | rfl
      · exact hfiles _ _ (hi.files f hf)
      · exact update_self ..
    · intro n hn hf q hq
      have hne : q ≠ p := by
        rintro rfl
        exact hf (q, bs) (mem_append_right _ (mem_singleton_self _)) hq
      change update w.files p (some (pq.mp bs)) q = none
      rw [update_of_ne hne]
      exact hi.unwritten n hn (fun f hf' => hf f (mem_append_left _ hf')) q hq
  · refine (hinv.thread j).frame (.refl _) id (fun _ => id) hfiles (fun q hq hnone' => ?_)
      (fun _ _ _ => id) (fun _ _ _ => id) fun _ _ => id
    have hne : q ≠ p := by
      rintro rfl
      exact hj (hinv.ids_disjoint j i _ hq hp)
    exact (update_of_ne hne _ _).trans hnone'

/-- Generating an identifier keeps the invariant. -/
theorem StoreInv.generateId_step {n : ℕ} (hn : n ∉ w.issued) :
    StoreInv pq (h ++ [(i, ⟨.generateId, .ok n⟩)]) { w with issued := n :: w.issued } := by
  have hi := hinv.thread i
  have hwf := hinv.wf
  have hissued : ∀ m ∈ w.issued, m ∈ n :: w.issued := fun m hm => mem_cons_of_mem n hm
  refine hinv.snoc ⟨hwf.indexed, hwf.mpId, fun k mp hk => hissued k (hwf.issued k mp hk),
    fun k mp m hk hm => hissued m (hwf.superseded k mp m hk hm),
    fun k mp m hk hm => hissued m (hwf.supersedes k mp m hk hm), hwf.stored,
    fun p bs hp => hissued _ (hwf.files p bs hp)⟩ ?_ (fun j _ => ?_) fun m hm => ?_
  · have hmem : ∀ m ∈ (logOf h i).mp.ids ++ [n], m ∈ (logOf h i).mp.ids ∨ m = n := by simp
    refine { hi with
      ids_nodup := ?_, ids_issued := ?_, ids_unused := ?_, ids_unnamed := ?_, unwritten := ?_
      file_ids := fun f hf => mem_append_left _ (hi.file_ids f hf) }
    · exact hi.ids_nodup.append (nodup_singleton n)
        (by simpa using fun hmem => hn (hi.ids_issued n hmem))
    · intro m hm
      rcases hmem m hm with hm | rfl
      · exact hissued m (hi.ids_issued m hm)
      · exact mem_cons_self
    · intro hc m hm
      rcases hmem m hm with hm | rfl
      · exact hi.ids_unused hc m hm
      · exact eq_none_iff_forall_ne_some.2 fun mp hmp => hn (hwf.issued m mp hmp)
    · intro hc m hm k mp hmp hsup
      rcases hmem m hm with hm | rfl
      · exact hi.ids_unnamed hc m hm k mp hmp hsup
      · exact hn (hwf.supersedes k mp m hmp hsup)
    · intro m hm hf p hp
      rcases hmem m hm with hm | rfl
      · exact hi.unwritten m hm hf p hp
      · exact eq_none_iff_forall_ne_some.2 fun bs hbs => hn (hp ▸ hwf.files p bs hbs)
  · exact (hinv.thread j).frame (.refl _) id hissued (fun _ _ => id) (fun _ _ => id)
      (fun _ _ _ => id) (fun _ _ _ => id) fun _ _ => id
  · rcases mem_snoc.1 hm with hm | rfl
    · exact .inl hm
    · exact .inr (hn)

/-- **Every step keeps the invariant.** -/
theorem StoreInv.step (hmay : StoreMay (logOf h i) o)
    (hst : Step pq w o r w') : StoreInv pq (h ++ [(i, ⟨o, r⟩)]) w' := by
  have hi := hinv.thread i
  have hwf := hinv.wf
  have heff := step_mpEffect hmay hst
  have hcommit := record_commit (logOf h i) o r
  generalize hlog : (logOf h i).record o r = s' at heff hcommit
  obtain ⟨mp', cdc', stream', commit'⟩ := s'
  cases heff with
  | frame hc hmps htable hfiles hissued hs =>
    have hwf' : w'.WellFormed :=
      ⟨hmps ▸ htable ▸ hwf.indexed, hmps ▸ hwf.mpId, hissued ▸ hmps ▸ hwf.issued,
        hissued ▸ hmps ▸ hwf.superseded, hissued ▸ hmps ▸ hwf.supersedes,
        hfiles ▸ hmps ▸ hwf.stored, hissued ▸ hfiles ▸ hwf.files⟩
    rw [hc] at hcommit
    refine hinv.snoc hwf' ?_ (fun j _ => ?_) fun n hn => ?_
    · rw [hlog]
      exact hi.frame hs (fun h => hcommit.symm.trans h) (by simp [hissued]) (by simp [hfiles])
        (by simp [hfiles]) (by simp [hmps]) (by simp [hmps]) (by simp [htable])
    · exact (hinv.thread j).frame (.refl _) id (by simp [hissued]) (by simp [hfiles])
        (by simp [hfiles]) (by simp [hmps]) (by simp [hmps]) (by simp [htable])
    · rw [hlog, hs.ids] at hn
      exact .inl hn
  | @scan t hw =>
    subst hw
    refine hinv.snoc hwf ?_ (fun j _ => hinv.thread j) fun n hn => .inl hn
    refine { hi with scanned := ?_, scan_nil := ?_, lookups_scan := ?_ }
    · rintro u ids ⟨⟩
      exact ⟨OMap.scanKeys_nodup, fun k hk => (OMap.mem_scanKeys.1 hk).2⟩
    · rintro u ids ⟨⟩ ht
      exact if_pos ht
    · -- Nothing is looked up before the scan.
      intro x hx
      obtain ⟨u, ids, hscan, -⟩ := hi.lookups_scan x hx
      cases hscan.symm.trans hmay
  | @lookup k hw =>
    subst hw
    refine hinv.snoc hwf ?_ (fun j _ => hinv.thread j) fun n hn => .inl hn
    refine { hi with lookups_scan := ?_, lookup_id := ?_ }
    · intro x hx
      rcases mem_append.1 hx with hx | hx
      · exact hi.lookups_scan x hx
      · obtain ⟨u, rest, hscan⟩ := hmay
        rw [mem_singleton.1 hx]
        exact ⟨u, _, hscan, by simp⟩
    · intro k' mp hk'
      rcases mem_append.1 hk' with hk' | hk'
      · exact hi.lookup_id k' mp hk'
      · obtain ⟨rfl, hmp⟩ := Prod.mk.inj (mem_singleton.1 hk')
        exact hwf.mpId k' mp hmp.symm
  | @read p bs hw hbs =>
    subst hw
    refine hinv.snoc hwf ?_ (fun j _ => hinv.thread j) fun n hn => .inl hn
    refine { hi with reads := ?_ }
    intro f hf
    rcases mem_snoc.1 hf with hf | rfl
    · exact hi.reads f hf
    · exact hbs
  | generateId hn hw =>
    subst hw
    exact hinv.generateId_step hn
  | putFile hw =>
    subst hw
    exact hinv.putFile_step hmay
  | commit he => exact hinv.commit_step hmay he

end

/-- **The invariant holds after every run** of threads that follow the protocol. -/
theorem run_storeInv {ρ : ι → Type} {c0 c : Config ι Op Op.Res World ρ}
    {Q : (i : ι) → StmtLog → ρ i → Prop} (hr : Run (Step pq) c0 h c)
    (hf : ∀ i, (c0.threads i).Follows storeProtocol (Q i) {}) (hw : c0.world.WellFormed) :
    StoreInv pq h c.world :=
  Run.always (StoreInv pq) hf (fun _ _ _ _ _ _ _ hinv hmay hst => hinv.step hmay hst) hr (.init hw)

end

end NovaCore
