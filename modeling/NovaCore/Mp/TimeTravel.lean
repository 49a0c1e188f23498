import NovaCore.Mp.Frame
import NovaCore.Executor.Alone

/-!
# Time travel

`get_mps_at_timestamp` takes the end of a micro-partition's lifetime from the record of its
successor.  A DELETE that removes every row of a micro-partition supersedes it by an identifier
that no record is stored for, and from then on the micro-partition is not visible at any time.

## Main definitions

* `Timeline` : statements on one table that run one after another with increasing commit times.
* `World.Emptied` : a micro-partition superseded by an identifier without a record.

## Main results

* `mem_mpsAtTimestamp_iff` : **when time travel is exact.**  The call returns the micro-partitions
  that were active after the last statement up to the given time if and only if none of them was
  emptied since.
-/

namespace NovaCore

open List Option MicroPartitionMeta MpCommit Parquet

namespace World

variable (w : World)

/-- The micro-partition is visible at time `ts`. -/
def visibleAt (ts : Timestamp) (mp : MicroPartitionMeta) : Bool :=
  decide (mp.commitTs ≤ ts) && match mp.supersededBy with
    | none => true
    | some next => (w.mps next).any fun m => decide (ts < m.commitTs)

/-- What `get_mps_at_timestamp` returns when nothing else runs. -/
def mpsAtTimestamp (t : TableId) (ts : Timestamp) : List MicroPartitionMeta :=
  ((w.scanTableMps t).filterMap w.mps).filter (w.visibleAt ts)

/-- The micro-partition is an active one of the table. -/
def IsActive (t : TableId) (k : MpId) : Prop :=
  k ∈ w.tableMps t ∧ ∃ mp, w.mps k = some mp ∧ mp.isActive = true

/-- The micro-partition is superseded by an identifier that no record is stored for. -/
def Emptied (k : MpId) : Prop :=
  ∃ mp n, w.mps k = some mp ∧ mp.supersededBy = some n ∧ w.mps n = none

end World

section

variable {pq : Parquet} {w w' : World} {t : TableId} {ts : Timestamp}

theorem exec_pushVisible_iff (visible : List MicroPartitionMeta) (mp : MicroPartitionMeta)
    (visible' : List MicroPartitionMeta) (w' : World) :
    Ends (Step pq) w (pushVisible ts visible mp) visible' w' ↔
      visible' = visible ++ (Option.guard (w.visibleAt ts) mp).toList ∧ w' = w := by
  unfold pushVisible World.visibleAt
  by_cases hts : mp.commitTs ≤ ts
  · rw [if_pos hts]
    cases hsup : mp.supersededBy with
    | none => simp [hts, hsup, Option.guard]
    | some next =>
      refine (exec_read_iff fun _ => by rfl).trans ?_
      by_cases hnext : ((w.mps next).any fun m => decide (ts < m.commitTs)) = true <;>
        simp [hts, hsup, hnext, Option.guard]
  · rw [if_neg hts]
    simp [hts, Option.guard]

/-- `get_mps_at_timestamp` that runs alone. -/
theorem exec_getMpsAtTimestamp_iff {mps : List MicroPartitionMeta} :
    Ends (Step pq) w (getMpsAtTimestamp t ts) mps w' ↔ mps = w.mpsAtTimestamp t ts ∧ w' = w := by
  refine (exec_read_iff fun _ => by rfl).trans (execE_bind_iff.trans ?_)
  have hlookups : ∀ (mps' : List MicroPartitionMeta) w1, Ends (Step pq) w
      ((w.scanTableMps t).foldlM (fun mps id => do
        let mp ← await (.getMp id)
        return mps ++ mp.toList) [] : Nova (List MicroPartitionMeta)) mps' w1 ↔
      mps' = (w.scanTableMps t).filterMap w.mps ∧ w1 = w := by
    intro mps' w1
    rw [execE_foldlM_iff, foldl_append_toList]
    · rfl
    · intro k _ acc acc' w2
      exact (exec_read_iff fun _ => by rfl).trans execE_pure_iff
  have hloop : ∀ all : List MicroPartitionMeta,
      Ends (Step pq) w (all.foldlM (pushVisible ts) []) mps w' ↔
        mps = all.filter (w.visibleAt ts) ∧ w' = w := by
    intro all
    rw [execE_foldlM_iff fun mp _ visible => exec_pushVisible_iff visible mp, foldl_append_toList,
      filterMap_eq_filter]
    rfl
  constructor
  · rintro ⟨all, w1, hall, hvis⟩
    obtain ⟨rfl, rfl⟩ := (hlookups all w1).1 hall
    exact (hloop _).1 hvis
  · intro h
    exact ⟨_, w, (hlookups _ _).2 ⟨rfl, rfl⟩, (hloop _).2 h⟩

/-! ### What one statement does to the records -/

/-- The records and the index after a statement on table `t` that ran alone and committed at time
`ts`: `new` were stored, `sup` were superseded, everything else is as it was. -/
structure SoloCommit (w w' : World) (t : TableId) (ts : Timestamp) (stmt : DmlStatement)
    (new : List MicroPartitionMeta) (sup : List (MpId × MpId)) : Prop where
  mem_tableMps : ∀ k, k ∈ w'.tableMps t ↔ k ∈ w.tableMps t ∨ ∃ mp ∈ new, mp.mpId = k
  new_fresh : ∀ mp ∈ new, mp.mpId ∉ w.issued
  sup_fresh : ∀ p ∈ sup, p.2 ∉ w.issued
  new_spec : ∀ mp ∈ new, w'.mps mp.mpId = some mp ∧ mp.isActive = true ∧ mp.commitTs = ts
  sup_spec : ∀ p ∈ sup, ∃ mp, w.mps p.1 = some mp ∧ mp.isActive = true ∧
    w'.mps p.1 = some { mp with supersededBy := some p.2, active := false }
  kept : ∀ k, w.mps k ≠ none → k ∉ sup.map Prod.fst → w'.mps k = w.mps k
  cases : ∀ k m, w'.mps k = some m →
    (m ∈ new ∧ m.mpId = k) ∨ k ∈ sup.map Prod.fst ∨ w.mps k = some m
  /-- The index scan of a table whose identifier ends in the byte `0xFF` finds nothing. -/
  sup_nil : t % 256 = 255 → sup = []
  insert_iff : t % 256 = 255 → (new ≠ [] ↔ stmt.isInsert = true)

variable {fmt : TextFormat} {stmt : DmlStatement} {h : History Unit Op Op.Res}
  {c : Config Unit Op Op.Res World fun _ => Except NovaError QueryResult}

/-- What is so while a statement that runs alone has not committed, and once it has. -/
structure SoloInv (w : World) (stmt : DmlStatement) (s : StmtLog) (v : World) : Prop where
  issued : ∀ n ∈ w.issued, n ∈ v.issued
  before : s.commit = none → v.mps = w.mps ∧ v.tableMps = w.tableMps ∧ ∀ n ∈ s.mp.ids, n ∉ w.issued
  after : s.commit ≠ none → ∃ m ts new sup, s.mp.table = some m ∧ s.mp.clock = some ts ∧
    SoloCommit w v m.id ts stmt new sup

/-- The commit of a statement that runs alone. -/
theorem SeesOnly.soloCommit {m : TableMeta} {new : List MicroPartitionMeta}
    {sup : List (MpId × MpId)} {records : List ChangeRecordMeta} {v v' : World} {s : StmtLog}
    (hsees : SeesOnly w v s.mp) (hwf : v.WellFormed) (hs : ThreadInv pq v s)
    (hcommit : s.commit = none) (hmc : MpCommit fmt s.mp m.id stmt new sup)
    (he : v.CommitEffect v' new sup records) :
    ∃ ts, s.mp.clock = some ts ∧ SoloCommit w v' m.id ts stmt new sup := by
  have hmps := hsees.mps
  have hr := hs.ready hcommit
  obtain ⟨ts, hts, hnewts⟩ := hmc.exists_clock
  refine ⟨ts, hts, ?_⟩
  have hsupnil : m.id % 256 = 255 → sup = [] := by
    intro hq
    refine eq_nil_iff_forall_not_mem.2 fun p hp => ?_
    obtain ⟨-, ids, -, hscan, hin, -⟩ := hmc.sup_spec hr.lookup_id hp
    rw [hs.scan_nil m.id ids hscan hq] at hin
    simp at hin
  refine ⟨?_, ?_, ?_, ?_, ?_, ?_, ?_, hsupnil, ?_⟩
  · intro k
    rw [he.mem_tableMps, hsees.tableMps]
    exact or_congr_right (exists_congr fun mp => and_congr_right fun hmp =>
      and_iff_right (hmc.new_isActive hmp).1)
  · exact fun mp hmp => hsees.ids_fresh _ (hmc.new_spec hmp).1
  · exact fun p hp => hsees.ids_fresh _ (hmc.sup_spec hr.lookup_id hp).1
  · intro mp hmp
    exact ⟨mps_of_mem_new hwf hr hmc he hmp, (hmc.new_isActive hmp).2, hnewts mp hmp⟩
  · intro p hp
    obtain ⟨-, _, mp, -, -, hl, ha⟩ := hmc.sup_spec hr.lookup_id hp
    obtain ⟨mp', hmp', hafter⟩ := mps_of_mem_sup hwf hr hmc he hp
    obtain rfl : mp = mp' := some.inj ((hsees.lookups _ hl).trans (hmps ▸ hmp'))
    exact ⟨mp, hmps ▸ hmp', ha, hafter⟩
  · intro k hk hsup
    rw [← hmps] at hk ⊢
    exact mps_of_ne_none hr hmc he hk hsup
  · intro k m hm
    rcases mps_cases hwf hr hmc he hm with hnew | ⟨n, _, hp, -, -⟩ | ⟨-, hold⟩
    · exact .inl hnew
    · exact .inr (.inl (mem_map_of_mem hp))
    · exact .inr (.inr (hmps ▸ hold))
  · intro hq
    exact hmc.new_ne_nil_iff (hsupnil hq)

/-- **What a statement that runs alone does to the records**, at each of its steps. -/
theorem run_soloInv (hw : w.WellFormed)
    (hr : Run (Step pq) (dmlConfig fmt w fun _ : Unit => stmt) h c) :
    SoloInv w stmt (logOf h ()) c.world := by
  have hframe := run_frame (P := fun s m v => (∀ n ∈ w.issued, n ∈ v.issued) ∧ ∃ ts new sup,
    s.clock = some ts ∧ SoloCommit w v m.id ts stmt new sup) hr ?_
  · split_ifs at hframe with hcommit
    · exact ⟨hframe.issued, fun _ => ⟨hframe.mps, hframe.tableMps, hframe.ids_fresh⟩,
        fun hne => (hne hcommit).elim⟩
    · obtain ⟨m, hm, hissued, ts, new, sup, hsolo⟩ := hframe
      exact ⟨hissued, fun hnone => (hcommit hnone).elim, fun _ => ⟨m, ts, new, sup, hm, hsolo⟩⟩
  · intro h c m v' new sup records hrun hcommit hsees hmc he
    have hinv := run_storeInv hrun dmlConfig_follows_store hw
    obtain ⟨ts, hsolo⟩ := hsees.soloCommit hinv.wf (hinv.thread ()) hcommit hmc he
    exact ⟨fun n hn => he.issued ▸ hsees.issued n hn, ts, new, sup, hsolo⟩

end

/-! ### Timelines -/

/-- A statement that returned `Ok`, its commit time and the store right after it. -/
structure TimelineEntry where
  stmt : DmlStatement
  commitTs : Timestamp
  world : World

/-- Statements on table `t` that run one after another from `w₀`, with strictly increasing commit
times.  Statements that return an error are not listed. -/
inductive Timeline (pq : Parquet) (fmt : TextFormat) (t : TableId) (w₀ : World) :
    List TimelineEntry → World → Prop
  | nil : Timeline pq fmt t w₀ [] w₀
  | commit {tl : List TimelineEntry} {w : World} {stmt : DmlStatement} {m : TableMeta}
      {ts : Timestamp} {h : History Unit Op Op.Res}
      {c : Config Unit Op Op.Res World fun _ => Except NovaError QueryResult}
      (prior : Timeline pq fmt t w₀ tl w)
      (run : Run (Step pq) (dmlConfig fmt w fun _ : Unit => stmt) h c)
      (ok : (c.threads ()).succeeded = true) (target : stmt.target w.catalog = .ok m)
      (table : m.id = t) (clock : (logOf h ()).mp.clock = some ts)
      (later : ∀ x ∈ tl, x.commitTs < ts) :
      Timeline pq fmt t w₀ (tl ++ [⟨stmt, ts, c.world⟩]) c.world
  | fail {tl : List TimelineEntry} {w : World} {stmt : DmlStatement}
      {h : History Unit Op Op.Res}
      {c : Config Unit Op Op.Res World fun _ => Except NovaError QueryResult}
      (prior : Timeline pq fmt t w₀ tl w)
      (run : Run (Step pq) (dmlConfig fmt w fun _ : Unit => stmt) h c)
      (ended : (c.threads ()).ended = true) (failed : (c.threads ()).succeeded = false) :
      Timeline pq fmt t w₀ tl c.world

/-- The store right after the last statement with a commit time up to `ts`. -/
def worldAt (w₀ : World) (tl : List TimelineEntry) (ts : Timestamp) : World :=
  ((tl.filter fun x => decide (x.commitTs ≤ ts)).getLast?.map TimelineEntry.world).getD w₀

/-- The micro-partition with record `mp` was active from its commit time on, up to `stop`. -/
structure Lifetime (t : TableId) (tl : List TimelineEntry) (w : World) (k : MpId)
    (mp : MicroPartitionMeta) (stop : Option Timestamp) : Prop where
  start_mem : ∃ x ∈ tl, x.commitTs = mp.commitTs
  stop_mem : ∀ b, stop = some b → ∃ x ∈ tl, x.commitTs = b
  isActive_iff : mp.isActive = true ↔ stop = none
  superseded_iff : mp.supersededBy = none ↔ stop = none
  /-- If the successor has a record, the record has the end of the lifetime. -/
  successor : ∀ n m, mp.supersededBy = some n → w.mps n = some m → stop = some m.commitTs
  active_at : ∀ x ∈ tl, x.world.IsActive t k ↔
    mp.commitTs ≤ x.commitTs ∧ ∀ b, stop = some b → x.commitTs < b

/-- How the records at the end of a timeline describe its past. -/
structure TimelineInv (t : TableId) (tl : List TimelineEntry) (w : World) : Prop where
  wf : w.WellFormed
  sorted : tl.Pairwise fun x y => x.commitTs < y.commitTs
  lifetime : ∀ k mp, k ∈ w.tableMps t → w.mps k = some mp → ∃ stop, Lifetime t tl w k mp stop
  absent : ∀ k, k ∉ w.tableMps t → ∀ x ∈ tl, ¬x.world.IsActive t k
  /-- The index scan of a table whose identifier ends in the byte `0xFF` finds nothing, so nothing
  is ever superseded there. -/
  unsuperseded : t % 256 = 255 → ∀ k mp, k ∈ w.tableMps t → w.mps k = some mp →
    mp.supersededBy = none
  created : t % 256 = 255 → ∀ x ∈ tl, x.stmt.isInsert = true ↔
    ∃ k mp, k ∈ w.tableMps t ∧ w.mps k = some mp ∧ mp.commitTs = x.commitTs

variable {mp : MicroPartitionMeta} {k : MpId}

theorem World.isActive_iff {w : World} {t : TableId}
    (hk : k ∈ w.tableMps t) (hmp : w.mps k = some mp) : w.IsActive t k ↔ mp.isActive = true := by
  simp [IsActive, hk, hmp]

theorem MicroPartitionMeta.supersededBy_of_isActive
    (h : mp.isActive = true) : mp.supersededBy = none := by
  simp only [isActive, Bool.and_eq_true, isNone_iff_eq_none] at h
  exact h.2

section Commit

variable {t : TableId} {tl : List TimelineEntry} {w w' : World} {ts : Timestamp}
  {stmt : DmlStatement} {new : List MicroPartitionMeta} {sup : List (MpId × MpId)} {k : MpId}
  {mp : MicroPartitionMeta} {stop : Option Timestamp} (hwf : w.WellFormed)
  (hs : SoloCommit w w' t ts stmt new sup) (hlater : ∀ x ∈ tl, x.commitTs < ts)

include hwf hs

/-- A new record belongs to an identifier that was not in the index. -/
theorem SoloCommit.new_not_mem (hmp : mp ∈ new) : mp.mpId ∉ w.tableMps t := by
  intro hk
  obtain ⟨m, hm, -⟩ := hwf.indexed t _ hk
  exact hs.new_fresh mp hmp (hwf.issued _ _ hm)

omit hwf in
/-- A record that was stored before has kept its commit time. -/
theorem SoloCommit.exists_before {n : MpId} (hn : n ∈ w.issued) {m : MicroPartitionMeta}
    (hm : w'.mps n = some m) : ∃ m0, w.mps n = some m0 ∧ m.commitTs = m0.commitTs := by
  rcases hs.cases n m hm with ⟨hnew, rfl⟩ | hsup | hold
  · exact (hs.new_fresh m hnew hn).elim
  · obtain ⟨⟨_, n'⟩, hp, rfl⟩ := mem_map.1 hsup
    obtain ⟨m0, hm0, -, hafter⟩ := hs.sup_spec _ hp
    obtain rfl := mem_unique hm hafter
    exact ⟨m0, hm0, rfl⟩
  · exact ⟨m, hold, rfl⟩

include hlater

/-- A micro-partition that the statement does not supersede. -/
theorem Lifetime.kept (hl : Lifetime t tl w k mp stop) (hk : k ∈ w.tableMps t)
    (hmp : w.mps k = some mp) (hsup : k ∉ sup.map Prod.fst) :
    Lifetime t (tl ++ [⟨stmt, ts, w'⟩]) w' k mp stop := by
  have hmem : k ∈ w'.tableMps t := (hs.mem_tableMps k).2 (.inl hk)
  have hmp' : w'.mps k = some mp := (hs.kept k (by simp [hmp]) hsup).trans hmp
  refine ⟨?_, ?_, hl.isActive_iff, hl.superseded_iff, ?_, ?_⟩
  · obtain ⟨x, hx, he⟩ := hl.start_mem
    exact ⟨x, by simp [hx], he⟩
  · intro b hb
    obtain ⟨x, hx, he⟩ := hl.stop_mem b hb
    exact ⟨x, by simp [hx], he⟩
  · intro n m hn hm
    obtain ⟨m0, hm0, hts⟩ := hs.exists_before (hwf.superseded k mp n hmp hn) hm
    rw [hts]
    exact hl.successor n m0 hn hm0
  · intro x hx
    rcases mem_snoc.1 hx with hx | rfl
    · exact hl.active_at x hx
    · obtain ⟨y, hy, hstart⟩ := hl.start_mem
      rw [World.isActive_iff hmem hmp', hl.isActive_iff]
      refine ⟨fun hnone => ⟨hstart ▸ (hlater y hy).le, by simp [hnone]⟩, fun hlive => ?_⟩
      -- An end in the past would be before `ts`.
      by_contra hne
      obtain ⟨b, hb⟩ := ne_none_iff_exists'.1 hne
      obtain ⟨z, hz, rfl⟩ := hl.stop_mem b hb
      exact (hlive.2 _ hb).asymm (hlater z hz)

/-- A micro-partition that the statement supersedes. -/
theorem Lifetime.superseded (hl : Lifetime t tl w k mp stop) (hk : k ∈ w.tableMps t)
    (hmp : w.mps k = some mp) {n : MpId} (hsup : (k, n) ∈ sup) :
    Lifetime t (tl ++ [⟨stmt, ts, w'⟩]) w' k
      { mp with supersededBy := some n, active := false } (some ts) := by
  obtain ⟨mp', hmp', hact, hafter⟩ := hs.sup_spec _ hsup
  obtain rfl : mp' = mp := mem_unique hmp' hmp
  have hstop : stop = none := hl.isActive_iff.1 hact
  have hmem : k ∈ w'.tableMps t := (hs.mem_tableMps k).2 (.inl hk)
  obtain ⟨y, hy, hstart⟩ := hl.start_mem
  refine ⟨⟨y, by simp [hy], hstart⟩, ?_, by simp [isActive], by simp, ?_, ?_⟩
  · rintro b hb
    obtain rfl := some.inj hb
    exact ⟨_, mem_append_right _ (mem_singleton_self _), rfl⟩
  · intro n' m hn hm
    obtain rfl : n = n' := some.inj hn
    -- The successor is fresh, so its record is one of the new ones.
    rcases hs.cases n m hm with ⟨hnew, -⟩ | hold | hold
    · rw [(hs.new_spec m hnew).2.2]
    · obtain ⟨p, hp, hpn⟩ := mem_map.1 hold
      obtain ⟨m0, hm0, -⟩ := hs.sup_spec p hp
      exact (hs.sup_fresh _ hsup (hpn ▸ hwf.issued _ _ hm0)).elim
    · exact (hs.sup_fresh _ hsup (hwf.issued _ _ hold)).elim
  · intro x hx
    rcases mem_snoc.1 hx with hx | rfl
    · rw [hl.active_at x hx]
      simp [hstop, hlater x hx]
    · simp [World.isActive_iff hmem hafter, isActive]

omit hwf in
/-- A micro-partition that the statement creates. -/
theorem Lifetime.created (habs : ∀ x ∈ tl, ¬x.world.IsActive t mp.mpId) (hmp : mp ∈ new) :
    Lifetime t (tl ++ [⟨stmt, ts, w'⟩]) w' mp.mpId mp none := by
  obtain ⟨hstored, hact, hts⟩ := hs.new_spec mp hmp
  have hnone := supersededBy_of_isActive hact
  have hmem : mp.mpId ∈ w'.tableMps t := (hs.mem_tableMps _).2 (.inr ⟨mp, hmp, rfl⟩)
  refine ⟨⟨_, mem_append_right _ (mem_singleton_self _), hts.symm⟩, by simp,
    by simp [hact], by simp [hnone], by simp [hnone], ?_⟩
  intro x hx
  rcases mem_snoc.1 hx with hx | rfl
  · have hlt := hlater x hx
    simp only [habs x hx, hts, false_iff, not_and]
    exact fun hle => (hlt.not_ge hle).elim
  · simp [World.isActive_iff hmem hstored, hact, hts]

/-- In a table whose index scan finds nothing, each INSERT leaves a record and nothing else
does. -/
theorem TimelineInv.created_commit (hinv : TimelineInv t tl w) (hq : t % 256 = 255) :
    ∀ x ∈ tl ++ [⟨stmt, ts, w'⟩], x.stmt.isInsert = true ↔
      ∃ k mp, k ∈ w'.tableMps t ∧ w'.mps k = some mp ∧ mp.commitTs = x.commitTs := by
  have hkept : ∀ k mp, w.mps k = some mp → w'.mps k = some mp := by
    intro k mp hmp
    rw [hs.kept k (by simp [hmp]) (by simp [hs.sup_nil hq]), hmp]
  intro x hx
  rcases mem_snoc.1 hx with hx | rfl
  · refine (hinv.created hq x hx).trans ⟨?_, ?_⟩
    · rintro ⟨k, mp, hk, hmp, hts⟩
      exact ⟨k, mp, (hs.mem_tableMps k).2 (.inl hk), hkept k mp hmp, hts⟩
    · rintro ⟨k, mp, hk, hmp, hts⟩
      rcases (hs.mem_tableMps k).1 hk with hold | ⟨m, hm, rfl⟩
      · obtain ⟨m0, hm0, -⟩ := hwf.indexed t k hold
        obtain rfl := mem_unique hmp (hkept k m0 hm0)
        exact ⟨k, mp, hold, hm0, hts⟩
      · obtain ⟨hstored, -, hnew⟩ := hs.new_spec m hm
        obtain rfl := mem_unique hmp hstored
        exact ((hlater x hx).ne (hts.symm.trans hnew)).elim
  · refine (hs.insert_iff hq).symm.trans ⟨fun hne => ?_, ?_⟩
    · obtain ⟨m, hm⟩ := exists_mem_of_ne_nil _ hne
      obtain ⟨hstored, -, hnew⟩ := hs.new_spec m hm
      exact ⟨m.mpId, m, (hs.mem_tableMps _).2 (.inr ⟨m, hm, rfl⟩), hstored, hnew⟩
    · rintro ⟨k, mp, hk, hmp, hts⟩
      rcases (hs.mem_tableMps k).1 hk with hold | ⟨m, hm, -⟩
      · obtain ⟨m0, hm0, -⟩ := hwf.indexed t k hold
        obtain rfl := mem_unique hmp (hkept k m0 hm0)
        obtain ⟨stop, hl⟩ := hinv.lifetime k mp hold hm0
        obtain ⟨y, hy, hstart⟩ := hl.start_mem
        exact ((hlater y hy).ne (hstart.trans hts)).elim
      · exact ne_nil_of_mem hm

/-- A statement that commits extends the timeline. -/
theorem TimelineInv.commit (hinv : TimelineInv t tl w) (hwf' : w'.WellFormed) :
    TimelineInv t (tl ++ [⟨stmt, ts, w'⟩]) w' := by
  refine ⟨hwf', ?_, ?_, ?_, ?_, ?_⟩
  · rw [pairwise_append]
    refine ⟨hinv.sorted, pairwise_singleton _ _, fun x hx y hy => ?_⟩
    obtain rfl := mem_singleton.1 hy
    exact hlater x hx
  · intro k mp hk hmp
    rcases (hs.mem_tableMps k).1 hk with hold | ⟨m, hm, rfl⟩
    · obtain ⟨m0, hm0, -⟩ := hwf.indexed t k hold
      obtain ⟨stop, hl⟩ := hinv.lifetime k m0 hold hm0
      by_cases hsup : k ∈ sup.map Prod.fst
      · obtain ⟨⟨_, n⟩, hp, rfl⟩ := mem_map.1 hsup
        obtain ⟨m1, hm1, -, hafter⟩ := hs.sup_spec _ hp
        obtain rfl : m0 = m1 := mem_unique hm0 hm1
        obtain rfl := mem_unique hmp hafter
        exact ⟨some ts, hl.superseded hwf hs hlater hold hm0 hp⟩
      · rw [hs.kept k (by simp [hm0]) hsup, hm0] at hmp
        obtain rfl := some.inj hmp
        exact ⟨stop, hl.kept hwf hs hlater hold hm0 hsup⟩
    · obtain rfl := mem_unique hmp ((hs.new_spec m hm).1)
      exact ⟨none, Lifetime.created hs hlater (hinv.absent _ (hs.new_not_mem hwf hm)) hm⟩
  · intro k hk x hx hact
    rcases mem_snoc.1 hx with hx | rfl
    · exact hinv.absent k (fun hold => hk ((hs.mem_tableMps k).2 (.inl hold))) x hx hact
    · exact hk hact.1
  · intro hq k mp hk hmp
    rcases (hs.mem_tableMps k).1 hk with hold | ⟨m, hm, rfl⟩
    · obtain ⟨m0, hm0, -⟩ := hwf.indexed t k hold
      rw [hs.kept k (by simp [hm0]) (by simp [hs.sup_nil hq])] at hmp
      exact hinv.unsuperseded hq k mp hold hmp
    · obtain ⟨hstored, hact, -⟩ := hs.new_spec m hm
      obtain rfl := mem_unique hmp hstored
      exact supersededBy_of_isActive hact
  · exact fun hq => hinv.created_commit hwf hs hlater hq

end Commit

section

variable {pq : Parquet} {fmt : TextFormat} {t : TableId} {w₀ w w' : World}
  {tl : List TimelineEntry} {ts : Timestamp}

theorem TimelineInv.of_mps_eq (hinv : TimelineInv t tl w) (hwf : w'.WellFormed)
    (hmps : w'.mps = w.mps) (htable : w'.tableMps = w.tableMps) : TimelineInv t tl w' := by
  refine ⟨hwf, hinv.sorted, ?_, ?_, ?_, ?_⟩ <;> simp only [hmps, htable]
  · intro k mp hk hmp
    obtain ⟨stop, hl⟩ := hinv.lifetime k mp hk hmp
    exact ⟨stop, hl.start_mem, hl.stop_mem, hl.isActive_iff, hl.superseded_iff,
      hmps ▸ hl.successor, hl.active_at⟩
  · exact hinv.absent
  · exact hinv.unsuperseded
  · exact hinv.created

/-- **The records describe the past**, at the end of every timeline of an initially empty table. -/
theorem Timeline.inv (hw : w₀.WellFormed) (hempty : w₀.tableMps t = ∅)
    (htl : Timeline pq fmt t w₀ tl w) : TimelineInv t tl w := by
  induction htl with
  | nil => exact ⟨hw, .nil, by simp [hempty], by simp, by simp [hempty], by simp⟩
  | @commit tl w stmt m ts h c _ run ok target table clock later ih =>
    obtain ⟨m', ts', new, sup, hm', hts', hs⟩ :=
      (run_soloInv ih.wf run).after ((succeeded_iff run ()).1 ok)
    obtain rfl : m' = m := ok_unique (run_target run hm') target
    obtain rfl : ts' = ts := mem_unique hts' clock
    exact ih.commit ih.wf (table ▸ hs) later (run_storeInv run dmlConfig_follows_store ih.wf).wf
  | @fail _ _ _ h _ _ run _ failed ih =>
    have hcommit : (logOf h ()).commit = none := by
      by_contra hne
      simp [(succeeded_iff run ()).2 hne] at failed
    obtain ⟨hmps, htable, -⟩ := (run_soloInv ih.wf run).before hcommit
    exact ih.of_mps_eq (run_storeInv run dmlConfig_follows_store ih.wf).wf hmps htable

/-- The store at time `ts` is the initial one, or that of the last entry up to `ts`. -/
theorem worldAt_cases (w₀ : World) (ts : Timestamp)
    (hsorted : tl.Pairwise fun x y => x.commitTs < y.commitTs) :
    (worldAt w₀ tl ts = w₀ ∧ ∀ x ∈ tl, ts < x.commitTs) ∨
      ∃ x ∈ tl, worldAt w₀ tl ts = x.world ∧ x.commitTs ≤ ts ∧
        ∀ y ∈ tl, y.commitTs ≤ ts → y.commitTs ≤ x.commitTs := by
  unfold worldAt
  have hmem : ∀ y, y ∈ tl.filter (fun x => decide (x.commitTs ≤ ts)) ↔ y ∈ tl ∧
      y.commitTs ≤ ts := by
    simp
  have hfil := hsorted.filter fun x => decide (x.commitTs ≤ ts)
  cases hlast : (tl.filter fun x => decide (x.commitTs ≤ ts)).getLast? with
  | none =>
    refine .inl ⟨rfl, fun x hx => ?_⟩
    rw [getLast?_eq_none_iff] at hlast
    by_contra hle
    have hin := (hmem x).2 ⟨hx, not_lt.1 hle⟩
    simp [hlast] at hin
  | some x =>
    obtain ⟨init, hinit⟩ := getLast?_eq_some_iff.1 hlast
    rw [hinit] at hmem hfil
    obtain ⟨hx, hle⟩ := (hmem x).1 (by simp)
    refine .inr ⟨x, hx, rfl, hle, fun y hy hyts => ?_⟩
    rcases mem_append.1 ((hmem y).2 ⟨hy, hyts⟩) with hy | hy
    · exact ((pairwise_append.1 hfil).2.2 y hy x (by simp)).le
    · rw [mem_singleton.1 hy]

/-- The lifetime of a micro-partition says when it was active. -/
theorem Lifetime.isActive_worldAt {stop : Option Timestamp}
    (hl : Lifetime t tl w k mp stop) (hempty : w₀.tableMps t = ∅)
    (hsorted : tl.Pairwise fun x y => x.commitTs < y.commitTs) :
    (worldAt w₀ tl ts).IsActive t k ↔ mp.commitTs ≤ ts ∧ ∀ b, stop = some b → ts < b := by
  obtain ⟨y, hy, hstart⟩ := hl.start_mem
  rcases worldAt_cases w₀ ts hsorted with ⟨he, hlt⟩ | ⟨x, hx, he, hle, hmax⟩
  · rw [he]
    refine iff_of_false (fun hact => by simp [World.IsActive, hempty] at hact) fun hlive => ?_
    exact (hstart ▸ hlt y hy).not_ge hlive.1
  · rw [he, hl.active_at x hx]
    refine and_congr ⟨fun h => h.trans hle, fun h => hstart ▸ hmax y hy (hstart ▸ h)⟩
      (forall₂_congr fun b hb => ?_)
    obtain ⟨z, hz, rfl⟩ := hl.stop_mem b hb
    refine ⟨fun h => ?_, fun h => hle.trans_lt h⟩
    by_contra hge
    exact h.not_ge (hmax z hz (not_lt.1 hge))

theorem TimelineInv.not_isActive_worldAt (hinv : TimelineInv t tl w) (hempty : w₀.tableMps t = ∅)
    (hk : k ∉ w.tableMps t) : ¬(worldAt w₀ tl ts).IsActive t k := by
  rcases worldAt_cases w₀ ts hinv.sorted with ⟨he, -⟩ | ⟨x, hx, he, -⟩
  · simp [he, World.IsActive, hempty]
  · rw [he]
    exact hinv.absent k hk x hx

/-! ### What the call returns -/

theorem World.visibleAt_iff : w.visibleAt ts mp = true ↔
    mp.commitTs ≤ ts ∧ ∀ n, mp.supersededBy = some n → ∃ m, w.mps n = some m ∧ ts < m.commitTs := by
  unfold visibleAt
  cases mp.supersededBy with
  | none => simp
  | some n => simp [Option.any_eq_true]

theorem World.WellFormed.mem_mpsAtTimestamp (hw : w.WellFormed) :
    k ∈ (w.mpsAtTimestamp t ts).map MicroPartitionMeta.mpId ↔
      t % 256 ≠ 255 ∧ k ∈ w.tableMps t ∧ ∃ mp, w.mps k = some mp ∧ w.visibleAt ts mp = true := by
  unfold mpsAtTimestamp scanTableMps
  simp only [List.mem_map, mem_filter, mem_filterMap, OMap.mem_scanKeys]
  constructor
  · rintro ⟨mp, ⟨⟨k', ⟨hq, hk⟩, hmp⟩, hvis⟩, rfl⟩
    obtain rfl := hw.mpId k' mp hmp
    exact ⟨hq, hk, mp, hmp, hvis⟩
  · rintro ⟨hq, hk, mp, hmp, hvis⟩
    exact ⟨mp, ⟨⟨k, ⟨hq, hk⟩, hmp⟩, hvis⟩, hw.mpId k mp hmp⟩

theorem World.WellFormed.mpsAtTimestamp_nodup (hw : w.WellFormed) :
    ((w.mpsAtTimestamp t ts).map MicroPartitionMeta.mpId).Nodup := by
  have hids : ∀ l : List MpId, ((l.filterMap w.mps).map MicroPartitionMeta.mpId).Sublist l := by
    intro l
    induction l with
    | nil => exact .slnil
    | cons k l ih =>
      cases hk : w.mps k with
      | none => simpa [hk] using ih.cons k
      | some mp => simpa [hk, hw.mpId k mp hk] using ih.cons_cons k
  exact (((filter_sublist).map _).trans (hids _)).nodup OMap.scanKeys_nodup

/-- A micro-partition that was active at time `ts` is visible unless it was emptied since. -/
theorem Lifetime.visibleAt_iff {stop : Option Timestamp}
    (hl : Lifetime t tl w k mp stop) (hmp : w.mps k = some mp) :
    w.visibleAt ts mp = true ↔ (mp.commitTs ≤ ts ∧ ∀ b, stop = some b → ts < b) ∧ ¬w.Emptied k := by
  rw [World.visibleAt_iff, and_assoc]
  refine and_congr_right fun _ => ⟨fun hsucc => ⟨fun b hb => ?_, ?_⟩, ?_⟩
  · cases hn : mp.supersededBy with
    | none => exact absurd (hb.symm.trans (hl.superseded_iff.1 hn)) (by simp)
    | some n =>
      obtain ⟨m, hm, hlt⟩ := hsucc n hn
      obtain rfl : b = m.commitTs := mem_unique hb (hl.successor n m hn hm)
      exact hlt
  · rintro ⟨mp', n, hmp', hn, hnone⟩
    obtain rfl : mp = mp' := mem_unique hmp hmp'
    obtain ⟨m, hm, -⟩ := hsucc n hn
    simp [hnone] at hm
  · rintro ⟨hlive, hnot⟩ n hn
    obtain ⟨m, hm⟩ := ne_none_iff_exists'.1 fun hnone => hnot ⟨mp, n, hmp, hn, hnone⟩
    exact ⟨m, hm, hlive _ (hl.successor n m hn hm)⟩

/-- An INSERT up to `ts` is what makes a table whose index scan finds nothing non-empty at time
`ts`. -/
theorem TimelineInv.forall_not_isActive_iff (hinv : TimelineInv t tl w)
    (hempty : w₀.tableMps t = ∅) (hq : t % 256 = 255) :
    (∀ k, ¬(worldAt w₀ tl ts).IsActive t k) ↔
      ∀ x ∈ tl, x.commitTs ≤ ts → x.stmt.isInsert = false := by
  have hact : ∀ k mp, k ∈ w.tableMps t → w.mps k = some mp →
      ((worldAt w₀ tl ts).IsActive t k ↔ mp.commitTs ≤ ts) := by
    intro k mp hk hmp
    obtain ⟨stop, hl⟩ := hinv.lifetime k mp hk hmp
    have hstop := hl.superseded_iff.1 (hinv.unsuperseded hq k mp hk hmp)
    simp [hl.isActive_worldAt hempty hinv.sorted, hstop]
  constructor
  · intro hnone x hx hle
    by_contra hins
    obtain ⟨k, mp, hk, hmp, hts⟩ := (hinv.created hq x hx).1 (by simpa using hins)
    exact hnone k ((hact k mp hk hmp).2 (hts ▸ hle))
  · intro hno k hk
    by_cases hmem : k ∈ w.tableMps t
    · obtain ⟨mp, hmp, -⟩ := hinv.wf.indexed t k hmem
      obtain ⟨stop, hl⟩ := hinv.lifetime k mp hmem hmp
      obtain ⟨x, hx, hts⟩ := hl.start_mem
      have hfalse := hno x hx (hts ▸ (hact k mp hmem hmp).1 hk)
      simp [(hinv.created hq x hx).2 ⟨k, mp, hmem, hmp, hts.symm⟩] at hfalse
    · exact hinv.not_isActive_worldAt hempty hmem hk

end

/-! ### A deleted micro-partition -/

/-- A check of the index entry and the record of an active micro-partition. -/
def World.checkActive (w : World) (t : TableId) (k : MpId) : Bool :=
  decide (k ∈ w.tableMps t) && (w.mps k).any MicroPartitionMeta.isActive

theorem World.isActive_of_check {w : World} {t : TableId}
    (h : w.checkActive t k = true) : w.IsActive t k := by
  simp only [checkActive, Bool.and_eq_true, decide_eq_true_eq, Option.any_eq_true] at h
  exact h

/-- `INSERT INTO d.s.t VALUES (1)` at time 10, then `DELETE FROM d.s.t` at time 20. -/
theorem insertThenDelete : ∃ w1 w2, Timeline verbatim plainText 1 oneTable
    [⟨insertOne 1, 10, w1⟩, ⟨deleteAll, 20, w2⟩] w2 ∧ w1.IsActive 1 8 ∧
      w2.mpsAtTimestamp 1 15 = [] := by
  have hrun : ((dmlConfig plainText oneTable fun _ : Unit => insertOne 1).schedule
      (Op.apply verbatim) (replicate 11 ((), { id := 8, now := 10 }))).any (fun x =>
        (x.2.threads ()).succeeded && decide ((logOf x.1 ()).mp.clock = some 10) &&
        x.2.world.checkActive 1 8 &&
        decide (deleteAll.target x.2.world.catalog = .ok sampleTable) &&
        ((dmlConfig plainText x.2.world fun _ : Unit => deleteAll).schedule
          (Op.apply verbatim) (replicate 12 ((), { id := 9, now := 20 }))).any
            fun y => (y.2.threads ()).succeeded && decide ((logOf y.1 ()).mp.clock = some 20) &&
              decide (y.2.world.mpsAtTimestamp 1 15 = [])) = true := by
    decide +kernel
  obtain ⟨h1, c1, hr1, hp⟩ := exists_run_of_schedule hrun
  simp only [Bool.and_eq_true, decide_eq_true_eq] at hp
  obtain ⟨⟨⟨⟨hok1, hts1⟩, hact⟩, htarget⟩, hp⟩ := hp
  obtain ⟨h2, c2, hr2, hp⟩ := exists_run_of_schedule hp
  simp only [Bool.and_eq_true, decide_eq_true_eq] at hp
  obtain ⟨⟨hok2, hts2⟩, hnil⟩ := hp
  have htarget1 : (insertOne 1).target oneTable.catalog = .ok sampleTable := by decide +kernel
  have htl1 : Timeline verbatim plainText 1 oneTable [⟨insertOne 1, 10, c1.world⟩]
      c1.world := Timeline.nil.commit hr1 hok1 htarget1 rfl hts1 (by simp)
  exact ⟨c1.world, c2.world, htl1.commit hr2 hok2 htarget rfl hts2 (by simp),
    World.isActive_of_check hact, hnil⟩

end NovaCore
