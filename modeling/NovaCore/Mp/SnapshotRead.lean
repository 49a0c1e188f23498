import NovaCore.Mp.Serializable

/-!
# What one `get_active_mps` call sees

The call scans the index of the table and then looks the micro-partitions up one by one, each in a
transaction of its own.  A statement that commits in between may supersede a micro-partition that
was scanned and not looked up yet: the call then drops it, and it does not see the replacement
either, because that was not in the index when it was scanned.

## Main definitions

* `readerConfig` : one `get_active_mps` call among INSERT, UPDATE and DELETE statements.
* `MpLog.pending` : the micro-partitions scanned and not looked up yet.

## Main results

* `activeMps_of_unraced` : **when the call returns a consistent snapshot.**  If no commit
  supersedes a pending micro-partition, the call returns the active micro-partitions at the time
  of its index scan.
-/

namespace NovaCore

open List MpCommit Prod

/-- The active micro-partitions of a table, in index order. -/
def World.activeMps (w : World) (t : TableId) : List MicroPartitionMeta :=
  activeOf ((w.tableMps t).keys.map fun k => (k, w.mps k))

/-- The micro-partitions that were scanned and not looked up yet. -/
def MpLog.pending (s : MpLog) : List MpId :=
  match s.scan with
  | some (_, ids) => ids.drop s.lookups.length
  | none => []

variable {w ws : World} {ids : List MpId}

section

variable {ι : Type}

/-- What a thread of `readerConfig` returns. -/
abbrev ReaderResult : Option ι → Type
  | none => Except NovaError (List MicroPartitionMeta)
  | some _ => Except NovaError QueryResult

/-- One `get_active_mps` call (thread `none`) and the statements `stmts`, all about to start. -/
def readerConfig (fmt : TextFormat) (w : World) (t : TableId) (stmts : ι → DmlStatement) :
    Config (Option ι) Op Op.Res World ReaderResult where
  world := w
  threads
    | none => (getActiveMps t).run
    | some i => ((stmts i).exec fmt).run

/-- Which operations the call may issue after log `s`. -/
def ScanMay (t : TableId) (s : StmtLog) : Op → Prop
  | .scanTableMps u => s.mp.scan = none ∧ u = t
  | .getMp id => ∃ rest, s.mp.scan = some (t, s.mp.lookups.map Prod.fst ++ id :: rest)
  | _ => False

/-- The protocol of each thread. -/
def readerThreadProtocol (fmt : TextFormat) (t : TableId) (stmts : ι → DmlStatement) :
    Option ι → Protocol Op Op.Res StmtLog
  | none => ⟨StmtLog.record, ScanMay t⟩
  | some i => dmlProtocol fmt (stmts i)

/-- What the call's log looks like when it returns. -/
def ReaderEnds (t : TableId) : (i : Option ι) → StmtLog → ReaderResult i → Prop
  | none, s, .ok mps => ∃ ids, s.mp.scan = some (t, ids) ∧ s.mp.lookups.map Prod.fst = ids ∧
      mps = activeOf s.mp.lookups
  | none, _, .error _ => True
  | some _, s, q => s.EndsWith q

variable {fmt : TextFormat} {w₀ : World} {t : TableId} {stmts : ι → DmlStatement}

theorem readerConfig_follows (i : Option ι) :
    ((readerConfig fmt w₀ t stmts).threads i).Follows (readerThreadProtocol fmt t stmts i)
      (ReaderEnds t i) {} := by
  cases i with
  | none =>
    refine Prog.Follows.mono (getActiveMps_follows rfl rfl ⟨rfl, rfl⟩
      fun lookups id rest => ⟨rest, rfl⟩) fun s q hq => ?_
    cases q with
    | ok mps =>
      obtain ⟨ids, lookups, rfl, hids, hmps⟩ := hq
      exact ⟨ids, rfl, hids, hmps⟩
    | error e => trivial
  | some i =>
    have hdml : ((dmlConfig fmt w₀ stmts).threads i).Follows (dmlProtocol fmt (stmts i))
      StmtLog.EndsWith {} := dmlConfig_follows i
    exact hdml

theorem storeMay_of_scanMay {s : StmtLog} {o : Op} (ho : ScanMay t s o) : StoreMay s o := by
  cases o with
  | scanTableMps u => exact ho.1
  | getMp id => exact ⟨t, ho⟩
  | _ => exact ho.elim

theorem storeMay_of_reader {i : Option ι} {s : StmtLog} {o : Op}
    (ho : (readerThreadProtocol fmt t stmts i).Allowed s o) : StoreMay s o := by
  cases i with
  | none => exact storeMay_of_scanMay ho
  | some i => exact storeMay_of_dmlMay ho.1 ho.2

theorem readerConfig_follows_store (i : Option ι) :
    ((readerConfig fmt w₀ t stmts).threads i).Follows storeProtocol (ReaderEnds t i) {} := by
  refine (readerConfig_follows i).weaken ?_ fun s o ho => storeMay_of_reader ho
  cases i <;> rfl

variable [DecidableEq ι] {pq : Parquet} {h h₁ h₂ : History (Option ι) Op Op.Res}
  {c c₁ : Config (Option ι) Op Op.Res World ReaderResult}

theorem reader_logAfter (i : Option ι) :
    (readerThreadProtocol fmt t stmts i).logAfter {} (eventsOf i h) = logOf h i := by
  cases i <;> rfl

/-- No commit supersedes a micro-partition that the call has scanned and not looked up yet. -/
def Unraced (h : History (Option ι) Op Op.Res) : Prop :=
  ∀ h₁ i e h₂ args, h = h₁ ++ (some i, e) :: h₂ → commitOf e = some args →
    ∀ p ∈ args.superseded, p.1 ∉ (logOf h₁ none).mp.pending

/-- Since the call scanned `ids` in world `ws`, what it looked up is what was stored then, and what
it has not looked up yet is still stored as it was. -/
structure ReadInv (t : TableId) (ids : List MpId) (ws : World) (s : MpLog) (w : World) : Prop where
  scan : s.scan = some (t, ids)
  lookups : s.lookups = (ids.take s.lookups.length).map fun k => (k, ws.mps k)
  pending : ∀ k ∈ ids.drop s.lookups.length, w.mps k = ws.mps k

/-- Looking up the next micro-partition. -/
theorem ReadInv.lookup {ids : List MpId} {ws w : World} {s : MpLog} (hinv : ReadInv t ids ws s w)
    {id : MpId} {rest : List MpId} (hs : s.scan = some (t, s.lookups.map fst ++ id :: rest)) :
    ReadInv t ids ws { s with lookups := s.lookups ++ [(id, w.mps id)] } w := by
  have hids : s.lookups.map fst ++ id :: rest = ids := by
    simpa using hs.symm.trans hinv.scan
  have hlen : (s.lookups.map fst).length = s.lookups.length := length_map _
  have hdrop : ids.drop s.lookups.length = id :: rest := by
    rw [← hids]
    exact drop_left' hlen
  have htake : ids.take (s.lookups.length + 1) = ids.take s.lookups.length ++ [id] := by
    rw [take_add, hdrop]
    rfl
  have hid : w.mps id = ws.mps id := hinv.pending id (by simp [hdrop])
  refine ⟨hinv.scan, ?_, fun k hk => hinv.pending k ?_⟩
  · simp only [length_append, length_singleton, htake, map_append]
    rw [← hinv.lookups, hid]
    rfl
  · rw [length_append] at hk
    exact (drop_sublist_drop_left ids (Nat.le_add_right _ _)).subset hk

theorem ReadInv.mem_pending {s : MpLog} (hinv : ReadInv t ids ws s w) {k : MpId} :
    k ∈ s.pending ↔ k ∈ ids.drop s.lookups.length := by
  unfold MpLog.pending
  rw [hinv.scan]

/-- Every later step keeps the read invariant, unless it supersedes a pending micro-partition. -/
theorem ReadInv.step {w' : World} {i : Option ι} {o : Op} {r : o.Res}
    (hinv : ReadInv t ids ws (logOf h none).mp w) (hstore : StoreInv pq h w)
    (hmay : (readerThreadProtocol fmt t stmts i).Allowed (logOf h i) o) (hst : Step pq w o r w')
    (hrace : i ≠ none → ∀ args, commitOf ⟨o, r⟩ = some args →
      ∀ p ∈ args.superseded, p.1 ∉ (logOf h none).mp.pending) :
    ReadInv t ids ws (logOf (h ++ [(i, ⟨o, r⟩)]) none).mp w' := by
  cases i with
  | none =>
    rw [logOf_snoc_self]
    cases o with
    | scanTableMps u =>
      -- The call scans only once.
      exact absurd (hinv.scan.symm.trans hmay.1) (by simp)
    | getMp id =>
      obtain ⟨rest, hs⟩ := hmay
      cases r with
      | error e =>
        obtain rfl := step_error hst
        rwa [StmtLog.record_error]
      | ok mp =>
        obtain ⟨x, hx⟩ := step_ok hst
        cases hx
        exact hinv.lookup hs
    | _ => exact hmay.elim
  | some j =>
    rw [logOf_snoc_ne (by simp)]
    refine ⟨hinv.scan, hinv.lookups, fun k hk => ?_⟩
    rw [← hinv.pending k hk]
    have hstoreMay := storeMay_of_reader hmay
    cases hc : commitOf ⟨o, r⟩ with
    | none =>
      obtain ⟨hmps, -, -⟩ := hstore.of_not_commit hstoreMay hst hc
      rw [hmps]
    | some args =>
      obtain ⟨he, txnId, hev⟩ := step_commitEffect hst hc
      cases hev
      obtain ⟨hcommit, _, u, stmt, hmc⟩ := hstoreMay
      have hr := (hstore.thread (some j)).ready hcommit
      have hscanned := ((hstore.thread none).scanned t ids hinv.scan).2 k (mem_of_mem_drop hk)
      obtain ⟨mp, hmp, -⟩ := hstore.wf.indexed t k hscanned
      refine mps_of_ne_none hr hmc he (by simp [hmp]) fun hsup => ?_
      obtain ⟨p, hp, rfl⟩ := mem_map.1 hsup
      exact hrace (by simp) args rfl p hp (hinv.mem_pending.2 hk)

/-- The read invariant right after the index scan. -/
theorem ReadInv.start (hstore : StoreInv pq h w) (hnone : (logOf h none).mp.scan = none) :
    ReadInv t (w.scanTableMps t) w
      (logOf (h ++ [(none, ⟨.scanTableMps t, .ok (w.scanTableMps t)⟩)]) none).mp w := by
  have hnil : (logOf h none).mp.lookups = [] := by
    refine eq_nil_iff_forall_not_mem.2 fun x hx => ?_
    obtain ⟨_, _, hsome, -⟩ := (hstore.thread none).lookups_scan x hx
    exact absurd (hsome.symm.trans hnone) (by simp)
  rw [logOf_snoc_self]
  refine ⟨rfl, ?_, fun _ _ => rfl⟩
  simp [StmtLog.record, hnil]

/-- The read invariant holds in every unraced run from the scan on. -/
theorem run_readInv (hw : w₀.WellFormed) (hr1 : Run (Step pq) (readerConfig fmt w₀ t stmts) h₁ c₁)
    (hr2 : Run (Step pq) c₁ h₂ c) (hstart : ReadInv t ids ws (logOf h₁ none).mp c₁.world)
    (hrace : Unraced (h₁ ++ h₂)) : ReadInv t ids ws (logOf (h₁ ++ h₂) none).mp c.world := by
  refine Run.invariant_after (C := fun h _ x => x.1 ≠ none → ∀ args, commitOf x.2 = some args →
    ∀ p ∈ args.superseded, p.1 ∉ (logOf h none).mp.pending)
    (fun h w => ReadInv t ids ws (logOf h none).mp w) hr1 hr2 readerConfig_follows ?_ hstart ?_
  · rintro h ⟨i, e⟩ h' c' rfl - - hi args hargs
    obtain ⟨j, rfl⟩ := Option.ne_none_iff_exists'.1 hi
    exact hrace (h₁ ++ h) j e h' args (by simp) hargs
  · intro h c i o r w' hrun hJ hC hallowed hst
    rw [reader_logAfter] at hallowed
    exact hJ.step (run_storeInv hrun readerConfig_follows_store hw) hallowed hst hC

/-- A call that has looked everything up saw the store as it was at the scan. -/
theorem ReadInv.complete {s : MpLog} (hinv : ReadInv t ids ws s w)
    (hall : s.lookups.map fst = ids) : s.lookups = ids.map fun k => (k, ws.mps k) := by
  have hlen : s.lookups.length = ids.length := by rw [← hall, length_map]
  have hlookups := hinv.lookups
  rwa [hlen, take_length] at hlookups

/-- INSERTs never disturb the call. -/
theorem unraced_of_inserts (hstmts : ∀ i, (stmts i).isInsert = true)
    (hr : Run (Step pq) (readerConfig fmt w₀ t stmts) h c) : Unraced h := by
  rintro h₁ i ⟨o, r⟩ h₂ args rfl hc p hp
  obtain ⟨c₁, hr1, hr2⟩ := hr.split
  obtain ⟨k, w', hop, hst, -⟩ := hr2.cons_inv
  obtain ⟨-, txnId, hev⟩ := step_commitEffect hst hc
  cases hev
  obtain ⟨-, u, -, hmc⟩ := hr1.allowed readerConfig_follows hop
  rw [(hmc.of_insert (hstmts i)).2] at hp
  simp at hp

/-! ### A table that looks empty and never is -/

theorem World.activeMps_ne_nil :
    w.activeMps t ≠ [] ↔ ∃ k mp, k ∈ w.tableMps t ∧ w.mps k = some mp ∧ mp.isActive = true := by
  constructor
  · intro h
    obtain ⟨mp, hmp⟩ := exists_mem_of_ne_nil _ h
    obtain ⟨ha, k, hk⟩ := mem_activeOf.1 hmp
    obtain ⟨k', hk', heq⟩ := mem_map.1 hk
    obtain ⟨rfl, hsome⟩ := Prod.mk.inj heq
    exact ⟨k', mp, Std.ExtTreeMap.mem_keys.1 hk', hsome, ha⟩
  · rintro ⟨k, mp, hk, hmp, ha⟩
    refine ne_nil_of_mem (mem_activeOf.2 ⟨ha, k, ?_⟩)
    exact mem_map.2 ⟨k, Std.ExtTreeMap.mem_keys.2 hk, by rw [hmp]⟩

/-- Without a DELETE a table that has active micro-partitions has some at every point. -/
theorem run_activeMps_ne_nil (hw : w₀.WellFormed) (hne : w₀.activeMps t ≠ [])
    (hstmts : ∀ i, (stmts i).isDelete = false)
    (hr : Run (Step pq) (readerConfig fmt w₀ t stmts) h c) : c.world.activeMps t ≠ [] := by
  refine Run.always (fun _ w => w.activeMps t ≠ []) readerConfig_follows ?_ hr hne
  intro h c i o r w' hrun ih hmay hst
  rw [reader_logAfter] at hmay
  have hinv := run_storeInv hrun readerConfig_follows_store hw
  have hstore := storeMay_of_reader hmay
  obtain ⟨k, mp, hk, hmp, ha⟩ := World.activeMps_ne_nil.1 ih
  rw [World.activeMps_ne_nil]
  cases hc : commitOf ⟨o, r⟩ with
  | none =>
    obtain ⟨hmps, htable, -⟩ := hinv.of_not_commit hstore hst hc
    exact ⟨k, mp, htable ▸ hk, hmps ▸ hmp, ha⟩
  | some args =>
    obtain ⟨he, txnId, hev⟩ := step_commitEffect hst hc
    cases hev
    cases i with
    | none => exact hmay.elim
    | some j =>
      obtain ⟨hcommit, u, -, hmc⟩ := hmay
      have hready := (hinv.thread (some j)).ready hcommit
      by_cases hsup : k ∈ args.superseded.map fst
      · -- Superseded by a replacement, which is active now.
        have hut : t = u := by
          by_contra hne
          exact not_mem_sup hinv.wf hready hmc hne hk hsup
        obtain ⟨p, hp, rfl⟩ := mem_map.1 hsup
        obtain ⟨new, hnew, -⟩ := hmc.exists_new (hstmts j) hp
        obtain ⟨htable, hactive⟩ := hmc.new_isActive hnew
        exact ⟨new.mpId, new, he.mem_tableMps.2 (.inr ⟨new, hnew, htable.trans hut.symm, rfl⟩),
          mps_of_mem_new hinv.wf hready hmc he hnew, hactive⟩
      · exact ⟨k, mp, he.mem_tableMps.2 (.inl hk),
          (mps_of_ne_none hready hmc he (by simp [hmp]) hsup).trans hmp, ha⟩

end

/-- The call scans the index, then an UPDATE of all rows runs to its end, then the call looks up
what it scanned. -/
def scanThenUpdate : List (Option Unit × Choice) :=
  [(none, { id := 0 })] ++ List.replicate 14 (some (), { id := 8 }) ++ [(none, { id := 0 })]

/-- The call has returned the empty list. -/
def returnsNil : Prog Op Op.Res (Except NovaError (List MicroPartitionMeta)) → Bool
  | .ret (.ok []) => true
  | _ => false

theorem eq_of_returnsNil {p : Prog Op Op.Res (Except NovaError (List MicroPartitionMeta))}
    (h : returnsNil p = true) : p = .ret (.ok []) := by
  unfold returnsNil at h
  split at h
  · rfl
  · cases h

end NovaCore
