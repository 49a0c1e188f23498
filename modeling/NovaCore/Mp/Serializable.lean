import NovaCore.Mp.Invariant
import NovaCore.Executor.Session

/-!
# Serializability of INSERT, UPDATE and DELETE

UPDATE and DELETE read the active micro-partitions, compute replacements and commit without
looking at whether what they read still is active.  So two of them that overlap on a table may
both replace the same micro-partition, and the table then has the rows of both replacements.

## Main definitions

* `DmlStatement.txn` : a statement as a transaction on the contents of a table.
* `Undisturbed` : no other statement superseded micro-partitions of the table since a statement's
  index scan.

## Main results

* `serializable_of_undisturbed` : **when concurrent statements are serializable.**  If every
  UPDATE and DELETE commits undisturbed, the final rows are those of the successful statements
  run one at a time, and no micro-partition has two active successors.
* `dmlConfig_atomic`, `dmlConfig_wellFormed` : at every point of every interleaving a statement has
  published everything or nothing, and the store is well formed.
* `exec_alone` : running a statement alone does to the contents what `DmlStatement.txn` says.
-/

namespace NovaCore

open List Option Serializes StmtLog MpCommit DmlStatement World Bool

/-! ### Statements as transactions -/

/-- The table a statement finds. -/
def DmlStatement.target (stmt : DmlStatement) (cat : Catalog) : Except NovaError TableMeta :=
  cat.findTable stmt.names.1 stmt.names.2.1 stmt.names.2.2

/-- The micro-partition an INSERT adds. -/
def insertedContents (pq : Parquet) (fmt : TextFormat) (tableMeta : TableMeta)
    (values : List (List ResolvedExpr)) : Option (List RecordBatch) :=
  match valuesToBatch fmt tableMeta values with
  | .ok batch => some (pq.mp [batch])
  | .error _ => none

/-- A statement on table `t` as a transaction on the contents of the table.  The index scan of a
table whose identifier ends in the byte `0xFF` finds nothing, so UPDATE and DELETE do not change
such a table. -/
def DmlStatement.txn (pq : Parquet) (fmt : TextFormat) (cat : Catalog) (t : TableId) :
    DmlStatement → Txn (List RecordBatch)
  | .insert db schema table values =>
    match cat.findTable db schema table with
    | .error _ => .rewrite fun bs => {bs}
    | .ok tableMeta =>
      match insertedContents pq fmt tableMeta values with
      | some bs => .add bs
      | none => .rewrite fun bs => {bs}
  | stmt => .rewrite (if t % 256 = 255 then fun bs => {bs} else stmt.effect pq)

variable (w : World) (t : TableId)

/-- `m` is the record of an active micro-partition of table `t` that replaced `old`. -/
structure World.ActiveSuccessor (old : MpId) (k : MpId) (m : MicroPartitionMeta) : Prop where
  indexed : k ∈ w.tableMps t
  stored : w.mps k = some m
  active : m.isActive = true
  supersedes : m.supersedes = some old

/-- No micro-partition of the table has two active successors, and none that is active itself has
one. -/
structure World.CleanSuccessors : Prop where
  unique : ∀ old k₁ k₂ m₁ m₂, w.ActiveSuccessor t old k₁ m₁ → w.ActiveSuccessor t old k₂ m₂ →
    k₁ = k₂
  inactive : ∀ old k m mo, w.ActiveSuccessor t old k m → w.mps old = some mo →
    mo.isActive = false

section

variable {ι : Type} [DecidableEq ι]

/-! ### Overlapping statements -/

/-- The event is an index scan. -/
def isScan : Event Op Op.Res → Bool
  | ⟨.scanTableMps _, .ok _⟩ => true
  | _ => false

theorem StmtLog.record_scan (s : StmtLog) {o : Op} {r : o.Res} (h : isScan ⟨o, r⟩ = false) :
    (s.record o r).mp.scan = s.mp.scan := by
  cases r <;> cases o <;> first | rfl | cases h

theorem eq_scanTableMps_of_isScan {o : Op} {r : o.Res} (h : isScan ⟨o, r⟩ = true) :
    ∃ t, o = .scanTableMps t := by
  cases o with
  | scanTableMps t => exact ⟨t, rfl⟩
  | _ => cases h

/-- After the history `h`, the event `x` is a commit that supersedes micro-partitions of
table `t`. -/
def Supersedes (t : TableId) (h : History ι Op Op.Res) (x : ι × Event Op Op.Res) : Prop :=
  ∃ args, commitOf x.2 = some args ∧ args.superseded ≠ [] ∧
    (logOf h x.1).mp.table.map TableMeta.id = some t

/-- No other thread superseded micro-partitions of table `t` after thread `i` scanned its
index. -/
def Undisturbed (t : TableId) (h : History ι Op Op.Res) (i : ι) : Prop :=
  ∀ h₁ e h₂ x h₃, h = h₁ ++ (i, e) :: (h₂ ++ x :: h₃) → isScan e = true → x.1 ≠ i →
    ¬Supersedes t (h₁ ++ (i, e) :: h₂) x

variable {h : History ι Op Op.Res} {i j : ι} {t : TableId} {x : ι × Event Op Op.Res}

theorem Undisturbed.of_snoc (hu : Undisturbed t (h ++ [x]) i) : Undisturbed t h i := by
  intro h1 e h2 y h3 he
  exact hu h1 e h2 y (h3 ++ [x]) (by simp [he])

theorem Undisturbed.not_supersedes (hu : Undisturbed t (h ++ [x]) i) (hx : x.1 ≠ i)
    {e : Event Op Op.Res} (he : (i, e) ∈ h) (hscan : isScan e = true) : ¬Supersedes t h x := by
  obtain ⟨h1, h2, rfl⟩ := append_of_mem he
  exact hu h1 e h2 x [] (by simp) hscan hx

/-- A thread whose log holds an index scan performed one. -/
theorem exists_scan (hs : (logOf h i).mp.scan ≠ none) : ∃ e, (i, e) ∈ h ∧ isScan e = true := by
  induction h using reverseRecOn with
  | nil => simp at hs
  | append_singleton h y ih =>
    obtain ⟨j, o, r⟩ := y
    by_cases hji : j = i
    · subst hji
      cases hnew : isScan ⟨o, r⟩ with
      | true => exact ⟨⟨o, r⟩, by simp, hnew⟩
      | false =>
        rw [logOf_snoc_self, record_scan _ hnew] at hs
        obtain ⟨e, he, hscan⟩ := ih hs
        exact ⟨e, by simp [he], hscan⟩
    · rw [logOf_snoc_ne hji] at hs
      obtain ⟨e, he, hscan⟩ := ih hs
      exact ⟨e, by simp [he], hscan⟩

/-! ### What statements know -/

variable {pq : Parquet} {fmt : TextFormat} {stmts : ι → DmlStatement} {w₀ w w' : World}
  {c : Config ι Op Op.Res World fun _ => Except NovaError QueryResult} {o : Op} {r : o.Res}

omit [DecidableEq ι] in
/-- INSERT, UPDATE and DELETE keep to what the micro-partition store relies on. -/
theorem dmlConfig_follows_store (i : ι) :
    ((dmlConfig fmt w₀ stmts).threads i).Follows storeProtocol StmtLog.EndsWith {} :=
  (dmlConfig_follows i).weaken rfl fun _ _ ho => storeMay_of_dmlMay ho.1 ho.2

/-- The table a statement found is the one the catalogue has under the names it gives. -/
theorem run_target (hr : Run (Step pq) (dmlConfig fmt w₀ stmts) h c) {m : TableMeta}
    (hm : (logOf h i).mp.table = some m) : (stmts i).target w₀.catalog = .ok m := by
  refine Run.always
    (fun h _ => ∀ i m, (logOf h i).mp.table = some m → (stmts i).target w₀.catalog = .ok m)
    dmlConfig_follows ?_ hr (by simp) i m hm
  intro h c j o r w' hrun ih hmay hst i m hm
  by_cases hji : j = i
  · subst hji
    rw [logOf_snoc_self] at hm
    by_cases hsame : ((logOf h j).record o r).mp.table = (logOf h j).mp.table
    · exact ih j m (hsame ▸ hm)
    · -- Only a successful table lookup changes this part of the log.
      have hcat : c.world.catalog = w₀.catalog := run_catalog hrun
      cases r with
      | error e => exact (hsame (by rw [record_error])).elim
      | ok a =>
        cases o with
        | findTable db schema table =>
          obtain ⟨x, hx⟩ := step_ok hst
          cases hm
          simp only [Op.perform, some.injEq, Prod.mk.injEq] at hx
          unfold target
          rw [hmay.2.2, ← hcat]
          exact hx.1
        | _ => exact (hsame rfl).elim
  · rw [logOf_snoc_ne hji] at hm
    exact ih i m hm

/-- The event of a successful commit. -/
abbrev commitEvent (txnId : TxnId) (new : List MicroPartitionMeta) (sup : List (MpId × MpId))
    (records : List ChangeRecordMeta) : Event Op Op.Res :=
  ⟨.commitTableCdc txnId new sup records, .ok ()⟩

/-- A statement that committed had found its table. -/
theorem run_table (hr : Run (Step pq) (dmlConfig fmt w₀ stmts) h c)
    (hc : (logOf h i).commit ≠ none) : ∃ m, (logOf h i).mp.table = some m := by
  refine Run.always (fun h _ => ∀ i, (logOf h i).commit ≠ none → ∃ m, (logOf h i).mp.table = some m)
    dmlConfig_follows ?_ hr (by simp) i hc
  intro h c j o r w' _ ih hmay hst i hcommit
  by_cases hji : j = i
  · subst hji
    rw [logOf_snoc_self] at hcommit ⊢
    cases hc : commitOf ⟨o, r⟩ with
    | none =>
      rw [record_commit, hc] at hcommit
      exact absurd hmay.1 hcommit
    | some args =>
      obtain ⟨-, txnId, hev⟩ := step_commitEffect hst hc
      cases hev
      obtain ⟨u, -, hmc⟩ := hmay.2
      obtain ⟨m, hm, -⟩ := map_eq_some_iff.1 hmc.table_eq
      exact ⟨m, hm⟩
  · rw [logOf_snoc_ne hji] at hcommit ⊢
    exact ih i hcommit

/-- A commit that supersedes micro-partitions of table `t` is a `Supersedes` event. -/
theorem MpCommit.supersedes_event {txnId : TxnId} {new : List MicroPartitionMeta}
    {sup : List (MpId × MpId)} {records : List ChangeRecordMeta} {stmt : DmlStatement}
    (hc : MpCommit fmt (logOf h j).mp t stmt new sup) (hsup : sup ≠ []) :
    Supersedes t h (j, commitEvent txnId new sup records) :=
  ⟨_, rfl, hsup, hc.table_eq⟩

/-- A commit of another thread does not touch what an undisturbed thread scanned. -/
theorem not_mem_sup_of_undisturbed {u : TableId} {txnId : TxnId} {new : List MicroPartitionMeta}
    {sup : List (MpId × MpId)} {records : List ChangeRecordMeta} {stmt : DmlStatement}
    (hinv : StoreInv pq h w) (hcommit : (logOf h j).commit = none)
    (hc : MpCommit fmt (logOf h j).mp u stmt new sup) {ids : List MpId} (hij : j ≠ i)
    (hu : Undisturbed t (h ++ [(j, commitEvent txnId new sup records)]) i)
    (hscan : (logOf h i).mp.scan = some (t, ids)) : ∀ k ∈ ids, k ∉ sup.map Prod.fst := by
  intro k hk
  have hindexed := ((hinv.thread i).scanned t ids hscan).2 k hk
  by_cases hut : u = t
  · subst hut
    obtain ⟨e, he, hse⟩ := exists_scan (h := h) (i := i) (by simp [hscan])
    have hnot := hu.not_supersedes hij he hse
    have hnil : sup = [] := by
      by_contra hne
      exact hnot (hc.supersedes_event hne)
    simp [hnil]
  · exact not_mem_sup hinv.wf ((hinv.thread j).ready hcommit) hc (Ne.symm hut) hindexed

omit [DecidableEq ι] in
/-- A lookup in the log after a step was there before, or is what the store has now. -/
theorem MpEffect.mem_lookups {s s' : MpLog} {e : Event Op Op.Res} (heff : MpEffect pq w w' s e s')
    {x : MpId × Option MicroPartitionMeta} (hx : x ∈ s'.lookups) :
    w.mps x.1 = x.2 ∨ x ∈ s.lookups := by
  cases heff with
  | frame _ _ _ _ _ hs => exact .inr (hs.lookups ▸ hx)
  | lookup =>
    rcases mem_snoc.1 hx with hx | rfl
    · exact .inr hx
    · exact .inl rfl
  | _ => exact .inr hx

/-- **What an undisturbed statement looked up is still so.** -/
theorem run_accurate (hw : w₀.WellFormed) (hr : Run (Step pq) (dmlConfig fmt w₀ stmts) h c)
    {ids : List MpId} (hcommit : (logOf h i).commit = none) (hu : Undisturbed t h i)
    (hscan : (logOf h i).mp.scan = some (t, ids)) : (logOf h i).mp.Accurate c.world := by
  refine Run.always (fun h w => ∀ i ids, (logOf h i).commit = none →
    Undisturbed t h i → (logOf h i).mp.scan = some (t, ids) → (logOf h i).mp.Accurate w)
    dmlConfig_follows ?_ hr (by simp [MpLog.Accurate]) i ids hcommit hu hscan
  intro h c j o r w' hrun ih hmay hst i ids hcommit hu hscan
  have hinv := run_storeInv hrun dmlConfig_follows_store hw
  have hstore := storeMay_of_dmlMay hmay.1 hmay.2
  cases hc : commitOf ⟨o, r⟩ with
  | none =>
    obtain ⟨hmps, -, -⟩ := hinv.of_not_commit hstore hst hc
    intro x hx
    rw [hmps]
    by_cases hji : j = i
    · subst hji
      rw [logOf_snoc_self] at hx hscan hcommit
      rw [record_commit, hc] at hcommit
      rcases (step_mpEffect hstore hst).mem_lookups hx with hx | hx
      · exact hx
      · cases hsc : isScan ⟨o, r⟩ with
        | true =>
          -- Nothing was looked up before the scan.
          obtain ⟨u, ids', hscan', -⟩ := (hinv.thread j).lookups_scan x hx
          obtain ⟨u', rfl⟩ := eq_scanTableMps_of_isScan hsc
          exact absurd (hscan'.symm.trans hstore) (by simp)
        | false =>
          rw [record_scan _ hsc] at hscan
          exact ih j ids hcommit hu.of_snoc hscan x hx
    · rw [logOf_snoc_ne hji] at hx hscan hcommit
      exact ih i ids hcommit hu.of_snoc hscan x hx
  | some args =>
    obtain ⟨he, txnId, hev⟩ := step_commitEffect hst hc
    cases hev
    by_cases hji : j = i
    · subst hji
      simp [logOf_snoc_self, record] at hcommit
    · obtain ⟨u, -, hmc⟩ := hmay.2
      rw [logOf_snoc_ne hji] at hscan hcommit ⊢
      have hj := (hinv.thread j).ready hmay.1
      intro x hx
      obtain ⟨u', ids', hscan', hin⟩ := (hinv.thread i).lookups_scan x hx
      obtain ⟨rfl, rfl⟩ : u' = t ∧ ids' = ids := by simpa using hscan'.symm.trans hscan
      obtain ⟨mp, hmp, -⟩ := hinv.wf.indexed u' _ (((hinv.thread i).scanned u' ids' hscan).2 _ hin)
      have hnot := not_mem_sup_of_undisturbed hinv hmay.1 hmc hji hu hscan x.1 hin
      rw [mps_of_ne_none hj hmc he (by simp [hmp]) hnot]
      exact ih i ids' hcommit hu.of_snoc hscan x hx

/-! ### The serial order -/

/-- Thread `i` committed a statement on table `t`. -/
def Done (t : TableId) (h : History ι Op Op.Res) (i : ι) : Prop :=
  (logOf h i).commit ≠ none ∧ (logOf h i).mp.table.map TableMeta.id = some t

/-- `S` are the contents of the micro-partitions that thread `i` scanned, and the thread may still
commit what it makes of them. -/
def Snap (t : TableId) (h : History ι Op Op.Res) (w : World) (i : ι)
    (S : Multiset (List RecordBatch)) : Prop :=
  t % 256 ≠ 255 ∧ (logOf h i).commit = none ∧ Undisturbed t h i ∧
    ∃ ids, (logOf h i).mp.scan = some (t, ids) ∧ S = w.contentsOf ids

/-- The serial order of the statements committed so far. -/
def Ordered (pq : Parquet) (fmt : TextFormat) (stmts : ι → DmlStatement) (w₀ : World) (t : TableId)
    (h : History ι Op Op.Res) (w : World) : Prop :=
  Serializes (fun i => (stmts i).txn pq fmt w₀.catalog t) (w₀.contents t) (Done t h) (Snap t h w)
    (w.contents t)

theorem contents_eq_contentsOf_scan (w : World) (ht : t % 256 ≠ 255) :
    w.contentsOf (w.scanTableMps t) = w.contents t := by
  unfold scanTableMps OMap.scanKeys contents
  rw [if_neg ht]

/-- A step that is not a commit. -/
theorem Ordered.of_not_commit (hord : Ordered pq fmt stmts w₀ t h w) (hinv : StoreInv pq h w)
    (hcommit : (logOf h i).commit = none) (hmay : StoreMay (logOf h i) o) (hst : Step pq w o r w')
    (hc : commitOf ⟨o, r⟩ = none) : Ordered pq fmt stmts w₀ t (h ++ [(i, ⟨o, r⟩)]) w' := by
  obtain ⟨hmps, htable, hfiles⟩ := hinv.of_not_commit hmay hst hc
  have hsame : ∀ l, w'.contentsOf l = w.contentsOf l := contentsOf_of_files hinv.wf hmps hfiles
  have hcontents : w'.contents t = w.contents t := by
    unfold contents
    rw [htable, hsame]
  have hrec : ((logOf h i).record o r).commit = none := by
    rw [record_commit, hc, none_or, hcommit]
  unfold Ordered
  rw [hcontents]
  refine snapshot hord (fun j => ?_) ?_
  · by_cases hij : i = j
    · subst hij
      simp [Done, logOf_snoc_self, hrec, hcommit]
    · simp [Done, logOf_snoc_ne hij]
  · rintro j S ⟨ht, hcj, hu, ids, hscan, rfl⟩
    rw [hsame]
    by_cases hij : i = j
    · subst hij
      rw [logOf_snoc_self] at hscan
      cases hsc : isScan ⟨o, r⟩ with
      | false =>
        rw [record_scan _ hsc] at hscan
        exact .inl ⟨ht, hcommit, hu.of_snoc, ids, hscan, rfl⟩
      | true =>
        obtain ⟨u, rfl⟩ := eq_scanTableMps_of_isScan hsc
        cases r with
        | error e => cases hsc
        | ok a =>
          obtain ⟨x, hx⟩ := step_ok hst
          cases hx
          cases hscan
          exact .inr (contents_eq_contentsOf_scan w ht)
    · rw [logOf_snoc_ne hij] at hscan hcj
      exact .inl ⟨ht, hcj, hu.of_snoc, ids, hscan, rfl⟩

section Commit

variable {u : TableId} {txnId : TxnId} {new : List MicroPartitionMeta} {sup : List (MpId × MpId)}
  {records : List ChangeRecordMeta} (hinv : StoreInv pq h w)
  (hcommit : (logOf h i).commit = none) (hmc : MpCommit fmt (logOf h i).mp u (stmts i) new sup)
  (he : w.CommitEffect w' new sup records)

include hmc in
theorem done_commit (j : ι) : Done t (h ++ [(i, commitEvent txnId new sup records)]) j ↔
    Done t h j ∨ (j = i ∧ u = t) := by
  by_cases hij : i = j
  · subst hij
    simp [Done, logOf_snoc_self, record, hmc.table_eq]
  · simp [Done, logOf_snoc_ne hij, Ne.symm hij]

include hinv hcommit hmc he

/-- The snapshots that are still good after a commit were good before. -/
theorem snap_commit {j : ι} {S : Multiset (List RecordBatch)}
    (hS : Snap t (h ++ [(i, commitEvent txnId new sup records)]) w' j S) : Snap t h w j S := by
  obtain ⟨ht, hcj, hu, ids, hscan, rfl⟩ := hS
  by_cases hij : i = j
  · subst hij
    simp [logOf_snoc_self, record] at hcj
  · rw [logOf_snoc_ne hij] at hcj hscan
    refine ⟨ht, hcj, hu.of_snoc, ids, hscan, ?_⟩
    exact contentsOf_of_not_mem hinv.wf ((hinv.thread i).ready hcommit) hmc he
      ((hinv.thread j).scanned t ids hscan).2
      (not_mem_sup_of_undisturbed hinv hcommit hmc hij hu hscan)

omit hinv hcommit he in
/-- A commit that supersedes something spoils all other snapshots. -/
theorem not_snap_commit (hut : u = t) (hsup : sup ≠ []) (j : ι) (S : Multiset (List RecordBatch)) :
    ¬Snap t (h ++ [(i, commitEvent txnId new sup records)]) w' j S := by
  rintro ⟨-, hcj, hu, ids, hscan, -⟩
  by_cases hij : i = j
  · subst hij
    simp [logOf_snoc_self, record] at hcj
  · rw [logOf_snoc_ne hij] at hscan
    obtain ⟨e, hmem, hse⟩ := exists_scan (h := h) (i := j) (by simp [hscan])
    exact hu.not_supersedes hij hmem hse (hut ▸ hmc.supersedes_event hsup)

section

variable (hord : Ordered pq fmt stmts w₀ t h w)
include hord

/-- The commit of a statement on another table. -/
theorem Ordered.commit_other (hut : u ≠ t) :
    Ordered pq fmt stmts w₀ t (h ++ [(i, commitEvent txnId new sup records)]) w' := by
  unfold Ordered
  rw [contents_other hinv.wf ((hinv.thread i).ready hcommit) hmc he (Ne.symm hut)]
  refine snapshot hord (fun j => ?_) fun j S hS => .inl ?_
  · rw [done_commit hmc]
    exact or_iff_left fun hj => hut hj.2
  · exact snap_commit hinv hcommit hmc he hS

/-- The commit of an INSERT. -/
theorem Ordered.commit_insert (hut : u = t)
    (htarget : ∀ m, (logOf h i).mp.table = some m → (stmts i).target w₀.catalog = .ok m)
    (hins : (stmts i).isInsert = true) :
    Ordered pq fmt stmts w₀ t (h ++ [(i, commitEvent txnId new sup records)]) w' := by
  subst hut
  have hr := (hinv.thread i).ready hcommit
  have hsnap : ∀ j S, Snap u (h ++ [(i, commitEvent txnId new sup records)]) w' j S →
      Snap u h w j S := fun _ _ => snap_commit hinv hcommit hmc he
  have hdone : ∀ j, Done u (h ++ [(i, commitEvent txnId new sup records)]) j ↔
      Done u h j ∨ j = i := fun j => by simp [done_commit hmc]
  generalize hstmt : stmts i = stmt at hmc
  cases hmc with
  | rewrite _ _ hne =>
    rw [hstmt] at hins
    cases stmt with
    | insert db schema table values => exact (hne _ _ _ _ rfl).elim
    | update | delete => cases hins
  | @insert db schema table values tableMeta batch path mp ts hm ht hv hscan hids hfiles hts hnew =>
    have hmc : MpCommit fmt (logOf h i).mp u (.insert db schema table values) [mp] [] :=
      .insert hm ht hv hscan hids hfiles hts hnew
    have hfind : w₀.catalog.findTable db schema table = .ok tableMeta := by
      simpa [target, hstmt, names] using htarget tableMeta hm
    have htxn : (stmts i).txn pq fmt w₀.catalog u = .add (pq.mp [batch]) := by
      simp only [hstmt, txn, hfind, insertedContents, hv]
    exact add hord htxn (fun hd => hd.1 hcommit) hdone hsnap
      (contents_insert hinv.wf hr hmc he rfl hfiles ⟨mp, rfl, hnew.readPath, hnew.isActive⟩)

/-- The commit of an UPDATE or DELETE whose lookups are still accurate. -/
theorem Ordered.commit_rewrite (hut : u = t) (hins : (stmts i).isInsert = false)
    (hu : Undisturbed t h i) (hacc : (logOf h i).mp.Accurate w) :
    Ordered pq fmt stmts w₀ t (h ++ [(i, commitEvent txnId new sup records)]) w' := by
  subst hut
  have hr := (hinv.thread i).ready hcommit
  have hdone : ∀ j, Done u (h ++ [(i, commitEvent txnId new sup records)]) j ↔
      Done u h j ∨ j = i := fun j => by simp [done_commit hmc]
  obtain ⟨ids, hscan⟩ := hmc.scan_of_rewrite hins
  have htxn : (stmts i).txn pq fmt w₀.catalog u =
      .rewrite (if u % 256 = 255 then fun bs => {bs} else (stmts i).effect pq) := by
    cases hstmt : stmts i with
    | insert db schema table values => simp [hstmt, isInsert] at hins
    | update | delete => rfl
  obtain ⟨rest, hbefore, hafter, hnil⟩ := contents_rewrite hinv.wf hr hmc he hscan hacc
  have hnot : ¬Done u h i := fun hd => hd.1 hcommit
  have hsnap : ∀ j S, Snap u (h ++ [(i, commitEvent txnId new sup records)]) w' j S →
      Snap u h w j S := fun _ _ => snap_commit hinv hcommit hmc he
  by_cases hq : u % 256 = 255
  · -- The scan found nothing, so nothing was rewritten.
    obtain rfl := (hinv.thread i).scan_nil u ids hscan hq
    have hsame : w'.contents u = w.contents u := by
      rw [hbefore, hafter]
      rfl
    unfold Ordered
    rw [hsame]
    exact idle hord htxn hnot (.inl (by simp [hq])) hdone hsnap
  · rw [if_neg hq] at htxn
    have hS : Snap u h w i (w.contentsOf ids) := ⟨hq, hcommit, hu, ids, hscan, rfl⟩
    by_cases hsup : sup = []
    · have hsame : w'.contents u = w.contents u := by
        rw [hbefore, hafter, Txn.bind_eq_self (hnil hsup)]
      unfold Ordered
      rw [hsame]
      exact idle hord htxn hnot (.inr ⟨_, hS, hnil hsup⟩) hdone hsnap
    · exact rewrite hord htxn hnot hS hbefore hdone (not_snap_commit hmc rfl hsup) hafter

end

/-! ### Successors -/

/-- An active successor after a commit is new, or was there before. -/
theorem activeSuccessor_cases {old k : MpId} {m : MicroPartitionMeta}
    (hm : w'.ActiveSuccessor t old k m) :
    (u = t ∧ (old, k) ∈ sup) ∨ w.ActiveSuccessor t old k m := by
  have hr := (hinv.thread i).ready hcommit
  rcases mps_cases hinv.wf hr hmc he hm.stored with
    ⟨hnew, rfl⟩ | ⟨_, _, -, -, rfl⟩ | ⟨-, hold⟩
  · refine .inl ⟨?_, hmc.new_supersedes hnew hm.supersedes⟩
    rcases he.mem_tableMps.1 hm.indexed with hidx | ⟨mp, hmp, hmt, -⟩
    · exact (hinv.wf.not_mem (hr.ids_unused _ (hmc.new_spec hnew).1) hidx).elim
    · exact (hmc.new_isActive hmp).1.symm.trans hmt
  · exact absurd hm.active (by simp)
  · refine .inr ⟨?_, hold, hm.active, hm.supersedes⟩
    rcases he.mem_tableMps.1 hm.indexed with hidx | ⟨mp, hmp, -, rfl⟩
    · exact hidx
    · have hunused := hr.ids_unused _ (hmc.new_spec hmp).1
      exact absurd (hunused.symm.trans hold) (by simp)

/-- A commit based on accurate lookups gives no micro-partition a second active successor. -/
theorem World.CleanSuccessors.commit (hs : w.CleanSuccessors t)
    (hacc : u = t → (logOf h i).mp.Accurate w) : w'.CleanSuccessors t := by
  have hr := (hinv.thread i).ready hcommit
  have hcases : ∀ {old k m}, w'.ActiveSuccessor t old k m →
      (u = t ∧ (old, k) ∈ sup) ∨ w.ActiveSuccessor t old k m :=
    activeSuccessor_cases hinv hcommit hmc he
  -- What is superseded now was active, so it had no active successor.
  have hclash : ∀ old n k m, u = t → (old, n) ∈ sup → ¬w.ActiveSuccessor t old k m := by
    intro old n k m hut hsup hm
    obtain ⟨-, ids, mp, -, -, hl, hact⟩ := hmc.sup_spec hr.lookup_id hsup
    have hinactive := hs.inactive old k m mp hm (hacc hut _ hl)
    simp [hact] at hinactive
  refine ⟨?_, ?_⟩
  · intro old k1 k2 m1 m2 hm1 hm2
    rcases hcases hm1 with ⟨hut, hs1⟩ | hm1 <;> rcases hcases hm2 with ⟨hut', hs2⟩ | hm2
    · have heq := inj_on_of_nodup_map (hmc.sup_nodup hr) hs1 hs2 rfl
      exact congrArg Prod.snd heq
    · exact (hclash old k1 k2 m2 hut hs1 hm2).elim
    · exact (hclash old k2 k1 m1 hut' hs2 hm1).elim
    · exact hs.unique old k1 k2 m1 m2 hm1 hm2
  · intro old k m mo hm hmo
    rcases hcases hm with ⟨-, hsup⟩ | hm
    · obtain ⟨_, -, hafter⟩ := mps_of_mem_sup hinv.wf hr hmc he hsup
      obtain rfl := mem_unique hmo hafter
      rfl
    · rcases mps_cases hinv.wf hr hmc he hmo with
        ⟨hnew, rfl⟩ | ⟨_, _, -, -, rfl⟩ | ⟨-, hold⟩
      · exact ((hinv.thread i).ids_unnamed hcommit _ (hmc.new_spec hnew).1 k m hm.stored
          hm.supersedes).elim
      · rfl
      · exact hs.inactive old k m mo hm hold

end Commit

/-- Every UPDATE and DELETE of table `t` commits undisturbed: between its index scan and its
commit no other statement superseded micro-partitions of the table. -/
def Validated (stmts : ι → DmlStatement) (t : TableId) (h : History ι Op Op.Res) : Prop :=
  ∀ h₁ i e h₂, h = h₁ ++ (i, e) :: h₂ → (commitOf e).isSome = true →
    (stmts i).isInsert = false → (logOf h₁ i).mp.table.map TableMeta.id = some t →
    Undisturbed t h₁ i

/-- The statements that have returned `Ok` are those that committed. -/
theorem succeeded_iff (hr : Run (Step pq) (dmlConfig fmt w₀ stmts) h c) (i : ι) :
    (c.threads i).succeeded = true ↔ (logOf h i).commit ≠ none := by
  have hfol := hr.follows dmlConfig_follows i
  change (c.threads i).Follows (dmlProtocol fmt (stmts i)) EndsWith (logOf h i) at hfol
  cases hp : c.threads i with
  | op o k =>
    rw [hp] at hfol
    simp [Prog.succeeded, hfol.1.1]
  | ret q =>
    rw [hp] at hfol
    cases q with
    | ok a => exact iff_of_true rfl hfol
    | error e => exact iff_of_false (by simp [Prog.succeeded]) (not_not.2 hfol)

/-- **The serial order and the successors, in every validated run.** -/
theorem run_ordered (hw : w₀.WellFormed) (hr : Run (Step pq) (dmlConfig fmt w₀ stmts) h c)
    (hval : Validated stmts t h) : Ordered pq fmt stmts w₀ t h c.world ∧
      (w₀.CleanSuccessors t → c.world.CleanSuccessors t) := by
  refine Run.invariant (C := fun h _ x => (commitOf x.2).isSome = true →
    (stmts x.1).isInsert = false → (logOf h x.1).mp.table.map TableMeta.id = some t →
    Undisturbed t h x.1)
    (fun h w => Ordered pq fmt stmts w₀ t h w ∧ (w₀.CleanSuccessors t → w.CleanSuccessors t)) hr
    dmlConfig_follows (fun h1 x h2 _ he _ _ => hval h1 x.1 x.2 h2 he) ⟨?_, id⟩ ?_
  · exact init (fun i hd => hd.1 rfl) fun i S hS => by
      obtain ⟨-, -, -, ids, hscan, -⟩ := hS
      simp at hscan
  intro h c i o r w' hrun ih hC hmay hst
  obtain ⟨hord, hs⟩ := ih
  have hinv := run_storeInv hrun dmlConfig_follows_store hw
  have hcommit := hmay.1
  have hstore := storeMay_of_dmlMay hcommit hmay.2
  cases hc : commitOf ⟨o, r⟩ with
  | none =>
    obtain ⟨hmps, htable, -⟩ := hinv.of_not_commit hstore hst hc
    have hact : ∀ old k m, w'.ActiveSuccessor t old k m → c.world.ActiveSuccessor t old k m :=
      fun old k m hm => ⟨htable ▸ hm.indexed, hmps ▸ hm.stored, hm.active, hm.supersedes⟩
    refine ⟨hord.of_not_commit hinv hcommit hstore hst hc, fun h0 => ⟨?_, ?_⟩⟩
    · intro old k1 k2 m1 m2 h1 h2
      exact (hs h0).unique old k1 k2 m1 m2 (hact _ _ _ h1) (hact _ _ _ h2)
    · intro old k m mo hm hmo
      exact (hs h0).inactive old k m mo (hact _ _ _ hm) (hmps ▸ hmo)
  | some args =>
    obtain ⟨he, txnId, hev⟩ := step_commitEffect hst hc
    cases hev
    obtain ⟨u, -, hmc⟩ := hmay.2
    by_cases hut : u = t
    · subst hut
      cases hins : (stmts i).isInsert with
      | true =>
        -- An INSERT looks nothing up.
        have hacc : (logOf h i).mp.Accurate c.world := by
          intro x hx
          obtain ⟨_, _, hscan, -⟩ := (hinv.thread i).lookups_scan x hx
          exact absurd (hscan.symm.trans (hmc.of_insert hins).1) (by simp)
        exact ⟨hord.commit_insert hinv hcommit hmc he rfl (fun m hm => run_target hrun hm) hins,
          fun h0 => (hs h0).commit hinv hcommit hmc he fun _ => hacc⟩
      | false =>
        have hu := hC rfl hins hmc.table_eq
        obtain ⟨ids, hscan⟩ := hmc.scan_of_rewrite hins
        have hacc := run_accurate hw hrun hcommit hu hscan
        exact ⟨hord.commit_rewrite hinv hcommit hmc he rfl hins hu hacc,
          fun h0 => (hs h0).commit hinv hcommit hmc he fun _ => hacc⟩
    · exact ⟨hord.commit_other hinv hcommit hmc he hut,
        fun h0 => (hs h0).commit hinv hcommit hmc he fun h => absurd h hut⟩

/-- Thread `i` committed a statement on table `t` if and only if it returned `Ok` and names a
table with this identifier. -/
theorem done_iff (hr : Run (Step pq) (dmlConfig fmt w₀ stmts) h c) (i : ι) :
    Done t h i ↔ (c.threads i).succeeded = true ∧
      ∃ m, (stmts i).target w₀.catalog = .ok m ∧ m.id = t := by
  rw [succeeded_iff hr]
  refine and_congr_right fun hc => ?_
  obtain ⟨m, hm⟩ := run_table hr hc
  have htarget := run_target hr hm
  rw [hm, htarget]
  simp

end

/-! ### Statements that run alone -/

section

variable {pq : Parquet} {fmt : TextFormat} {t : TableId} {w w' : World} {stmt : DmlStatement}

/-- Run alone, the statement returns `Ok` and leaves `w'`. -/
def RunsAlone (pq : Parquet) (fmt : TextFormat) (w : World) (stmt : DmlStatement) (w' : World) :
    Prop :=
  ∃ h c, Run (Step pq) (dmlConfig fmt w fun _ : Unit => stmt) h c ∧
    (c.threads ()).succeeded = true ∧ c.world = w'

theorem undisturbed_alone (h : History Unit Op Op.Res) : Undisturbed t h () :=
  fun _ _ _ _ _ _ _ hne => (hne rfl).elim

/-- **A statement that runs alone** does to the contents of its table what `DmlStatement.txn`
says. -/
theorem exec_alone (hw : w.WellFormed) (hr : RunsAlone pq fmt w stmt w') :
    w'.WellFormed ∧ w'.catalog = w.catalog ∧ ∃ m, stmt.target w.catalog = .ok m ∧
      w'.contents m.id = (stmt.txn pq fmt w.catalog m.id).apply (w.contents m.id) := by
  obtain ⟨h, c, hr, hok, rfl⟩ := hr
  refine ⟨(run_storeInv hr dmlConfig_follows_store hw).wf, run_catalog hr, ?_⟩
  obtain ⟨m, hm⟩ := run_table hr ((succeeded_iff hr ()).1 hok)
  have htarget : stmt.target w.catalog = .ok m := run_target hr hm
  obtain ⟨hord, -⟩ := run_ordered hw hr fun _ _ _ _ _ _ _ _ => undisturbed_alone _
  obtain ⟨order, hnd, hmem, hcontents⟩ := exists_order hord
  refine ⟨m, htarget, ?_⟩
  have horder : order = [()] := by
    have hin : () ∈ order := (hmem ()).2 ((done_iff hr ()).2 ⟨hok, m, htarget, rfl⟩)
    exact perm_singleton.1 ((perm_ext_iff_of_nodup hnd (nodup_singleton ())).2
      fun _ => iff_of_true hin (mem_singleton_self ()))
  rw [hcontents, horder]
  rfl

/-- A statement that runs alone and does not return `Ok` leaves the contents of every table. -/
theorem contents_of_failed {h : History Unit Op Op.Res}
    {c : Config Unit Op Op.Res World fun _ => Except NovaError QueryResult} (hw : w.WellFormed)
    (hr : Run (Step pq) (dmlConfig fmt w fun _ : Unit => stmt) h c)
    (hfail : (c.threads ()).succeeded = false) (t : TableId) :
    c.world.contents t = w.contents t := by
  obtain ⟨hord, -⟩ := run_ordered hw hr fun _ _ _ _ _ _ _ _ => undisturbed_alone _
  obtain ⟨order, -, hmem, hcontents⟩ := exists_order hord
  have horder : order = [] := by
    refine eq_nil_iff_forall_not_mem.2 fun i hi => ?_
    have hok := ((done_iff hr i).1 ((hmem i).1 hi)).1
    rw [hfail] at hok
    cases hok
  rw [hcontents, horder]
  rfl

/-- Statements run one at a time, each returning `Ok`. -/
inductive SerialRun {ι : Type} (pq : Parquet) (fmt : TextFormat) (stmts : ι → DmlStatement) :
    World → List ι → World → Prop
  | nil {w : World} : SerialRun pq fmt stmts w [] w
  | cons {w w₁ w₂ : World} {i : ι} {order : List ι} : RunsAlone pq fmt w (stmts i) w₁ →
      SerialRun pq fmt stmts w₁ order w₂ → SerialRun pq fmt stmts w (i :: order) w₂

theorem SerialRun.contents {ι : Type} {stmts : ι → DmlStatement} {order : List ι}
    (hr : SerialRun pq fmt stmts w order w') (hw : w.WellFormed)
    (ht : ∀ i ∈ order, ∃ m, (stmts i).target w.catalog = .ok m ∧ m.id = t) :
    w'.contents t =
      Txn.serial (fun i => (stmts i).txn pq fmt w.catalog t) order (w.contents t) := by
  induction hr with
  | nil => rfl
  | @cons w w1 w2 i order hi _ ih =>
    obtain ⟨hw1, hcat, m, hm, hcontents⟩ := exec_alone hw hi
    obtain ⟨m', hm', rfl⟩ := ht i (by simp)
    obtain rfl : m = m' := ok_unique hm hm'
    rw [ih hw1 fun j hj => hcat ▸ ht j (by simp [hj]), hcontents, hcat]
    rfl

end

section

variable {ι : Type} [DecidableEq ι] {pq : Parquet} {fmt : TextFormat} {stmts : ι → DmlStatement}
  {w₀ : World} {t : TableId} {h : History ι Op Op.Res}
  {c : Config ι Op Op.Res World fun _ => Except NovaError QueryResult}

/-- **When concurrent statements are serializable.**  If between the index scan and the commit of
each UPDATE and DELETE on table `t` no other statement superseded micro-partitions of the table,
then the rows of the table are those that the statements that returned `Ok` give when they run one
at a time in some order, and no micro-partition of the table has two active successors. -/
theorem serializable_of_undisturbed (hw : w₀.WellFormed) (hs : w₀.CleanSuccessors t)
    (hr : Run (Step pq) (dmlConfig fmt w₀ stmts) h c) (hval : Validated stmts t h) :
    (∃ order : List ι, order.Nodup ∧
      (∀ i, i ∈ order ↔ (c.threads i).succeeded = true ∧
        ∃ m, (stmts i).target w₀.catalog = .ok m ∧ m.id = t) ∧
      rowsOf (c.world.contents t) =
        rowsOf (Txn.serial (fun i => (stmts i).txn pq fmt w₀.catalog t) order (w₀.contents t)) ∧
      ∀ w', SerialRun pq fmt stmts w₀ order w' →
        rowsOf (c.world.contents t) = rowsOf (w'.contents t)) ∧
    ∀ old k₁ k₂ m₁ m₂, c.world.ActiveSuccessor t old k₁ m₁ →
      c.world.ActiveSuccessor t old k₂ m₂ → k₁ = k₂ := by
  obtain ⟨hord, hsucc⟩ := run_ordered hw hr hval
  obtain ⟨order, hnd, hmem, hcontents⟩ := exists_order hord
  have hiff := fun i => (hmem i).trans (done_iff hr i)
  refine ⟨⟨order, hnd, hiff, by rw [hcontents], fun w' hser => ?_⟩, (hsucc hs).unique⟩
  rw [hser.contents hw fun i hi => ((hiff i).1 hi).2, hcontents]

end

/-! ### A lost update -/

/-- `UPDATE d.s.t SET a = 10` and `UPDATE d.s.t SET a = 20`. -/
def twoUpdates (b : Bool) : DmlStatement := updateAll (if b then 20 else 10)

/-- The first UPDATE runs up to its commit, the second one runs to its end, then the first one
commits. -/
def overlapping : List (Bool × Choice) :=
  List.replicate 13 (false, { id := 8 }) ++ List.replicate 14 (true, { id := 9 }) ++
    [(false, { id := 0 })]

theorem oneTable_wellFormed : oneTable.WellFormed := by
  refine ⟨fun t k hk => ?_, ?_, ?_, ?_, ?_, ?_, ?_⟩
  · change k ∈ (∅ : OMap Unit) at hk
    simp at hk
  all_goals intro _ _
  all_goals simp [oneTable]

theorem oneRow_mps {k : MpId} {mp : MicroPartitionMeta} :
    oneRow.mps k = some mp ↔ k = 7 ∧ mp = sampleMp := by
  change (if k = 7 then some sampleMp else none) = some mp ↔ _
  split_ifs with h
  · simp [h, eq_comm]
  · simp [h]

theorem oneRow_wellFormed : oneRow.WellFormed := by
  refine ⟨?_, ?_, ?_, ?_, ?_, ?_, ?_⟩
  · intro t k hk
    change k ∈ (if t = 1 then (∅ : OMap Unit).insert 7 () else ∅) at hk
    split_ifs at hk with ht
    · obtain rfl : 7 = k := by simpa [Std.ExtTreeMap.mem_insert] using hk
      exact ⟨sampleMp, rfl, ht.symm⟩
    · simp at hk
  · rintro k mp hk
    obtain ⟨rfl, rfl⟩ := oneRow_mps.1 hk
    rfl
  · rintro k mp hk
    obtain ⟨rfl, rfl⟩ := oneRow_mps.1 hk
    exact mem_singleton_self 7
  iterate 2
    rintro k mp n hk hn
    obtain ⟨rfl, rfl⟩ := oneRow_mps.1 hk
    cases hn
  · rintro k mp hk -
    obtain ⟨rfl, rfl⟩ := oneRow_mps.1 hk
    decide
  · intro p bs hp
    change (if p = .temp 1 7 1 then some [rowBatch 1] else none) = some bs at hp
    split_ifs at hp with h
    exact h ▸ mem_singleton_self 7

theorem oneRow_cleanSuccessors : oneRow.CleanSuccessors 1 := by
  have hnone : ∀ old k m, ¬oneRow.ActiveSuccessor 1 old k m := by
    rintro old k m ⟨-, hm, -, hs⟩
    obtain ⟨rfl, rfl⟩ := oneRow_mps.1 hm
    cases hs
  exact ⟨fun old k1 _ m1 _ h1 _ => (hnone old k1 m1 h1).elim,
    fun old k m _ hm _ => (hnone old k m hm).elim⟩

/-- A check of the record of an active successor. -/
def World.isActiveSuccessor (old k : MpId) : Bool :=
  decide (k ∈ w.tableMps t) && (w.mps k).any fun m => m.isActive && decide (m.supersedes = some old)

theorem World.activeSuccessor_of_check {w : World} {t : TableId} {old k : MpId}
    (h : w.isActiveSuccessor t old k = true) : ∃ m, w.ActiveSuccessor t old k m := by
  simp only [isActiveSuccessor, Bool.and_eq_true, decide_eq_true_eq, Option.any_eq_true] at h
  obtain ⟨hk, m, hm, ha, hs⟩ := h
  exact ⟨m, hk, hm, ha, hs⟩

theorem overlapping_run :
    ∃ h c, Run (Step Parquet.verbatim) (dmlConfig plainText oneRow twoUpdates) h c ∧
      (∀ b, (c.threads b).succeeded = true) ∧
      c.world.contents 1 = {[rowBatch 10], [rowBatch 20]} ∧
      (∃ m, c.world.ActiveSuccessor 1 7 8 m) ∧ ∃ m, c.world.ActiveSuccessor 1 7 9 m := by
  have hrun : ((dmlConfig plainText oneRow twoUpdates).schedule (Op.apply Parquet.verbatim)
      overlapping).any (fun x =>
        (x.2.threads false).succeeded && (x.2.threads true).succeeded &&
        decide (x.2.world.contents 1 = {[rowBatch 10], [rowBatch 20]}) &&
        x.2.world.isActiveSuccessor 1 7 8 && x.2.world.isActiveSuccessor 1 7 9) = true := by
    decide +kernel
  obtain ⟨h, c, hr, hp⟩ := exists_run_of_schedule hrun
  simp only [and_eq_true, decide_eq_true_eq] at hp
  obtain ⟨⟨⟨⟨hfalse, htrue⟩, hrows⟩, h8⟩, h9⟩ := hp
  exact ⟨h, c, hr, rec hfalse htrue, hrows, activeSuccessor_of_check h8,
    activeSuccessor_of_check h9⟩

/-- `UPDATE d.s.t SET a = 10` and `INSERT INTO d.s.t VALUES (2)`. -/
def updateAndInsert (b : Bool) : DmlStatement := if b then insertOne 2 else updateAll 10

theorem validated_updateAndInsert {h : History Bool Op Op.Res}
    (hins : h.all (fun x => !x.1 || (commitOf x.2).all (·.superseded.isEmpty)) = true) :
    Validated updateAndInsert 1 h := by
  rintro h1 (_ | _) e h2 rfl - hnot -
  · rintro g1 e' g2 ⟨j, x⟩ g3 rfl - hj ⟨args, hargs, hsup, -⟩
    obtain rfl : j = true := by simpa using hj
    have hx := all_eq_true.1 hins (true, x) (by simp)
    simp only [hargs, Option.all_some, Bool.not_true, Bool.false_or, List.isEmpty_iff] at hx
    exact hsup hx
  · cases hnot

/-- An INSERT runs to its end between the index scan of an UPDATE and its commit: the UPDATE takes
13 steps, the INSERT its 11 steps, then the UPDATE commits. -/
theorem serializable_of_undisturbed_insert :
    ∃ h c, Run (Step Parquet.verbatim) (dmlConfig plainText oneRow updateAndInsert) h c ∧
      h.map Prod.fst = replicate 13 false ++ replicate 11 true ++ [false] ∧
      (∀ b, (c.threads b).succeeded = true) ∧ Validated updateAndInsert 1 h ∧
      ∃ order : List Bool, (∀ b, b ∈ order) ∧ rowsOf (c.world.contents 1) =
        rowsOf (Txn.serial (fun b => (updateAndInsert b).txn .verbatim plainText oneRow.catalog 1)
          order (oneRow.contents 1)) := by
  have hrun : ((dmlConfig plainText oneRow updateAndInsert).schedule (Op.apply Parquet.verbatim)
      (replicate 13 (false, { id := 8 }) ++ replicate 11 (true, { id := 9 }) ++
        [(false, { id := 0 })])).any (fun x =>
        decide (x.1.map Prod.fst = replicate 13 false ++ replicate 11 true ++ [false]) &&
        (x.2.threads false).succeeded && (x.2.threads true).succeeded &&
        x.1.all (fun y => !y.1 || (commitOf y.2).all (·.superseded.isEmpty))) = true := by
    decide +kernel
  obtain ⟨h, c, hr, hcheck⟩ := exists_run_of_schedule hrun
  simp only [and_eq_true, decide_eq_true_eq] at hcheck
  obtain ⟨⟨⟨hturns, hupdate⟩, hinsert⟩, hall⟩ := hcheck
  have hok : ∀ b, (c.threads b).succeeded = true := forall_bool.2 ⟨hupdate, hinsert⟩
  have hval := validated_updateAndInsert hall
  obtain ⟨⟨order, -, hmem, hrows, -⟩, -⟩ :=
    serializable_of_undisturbed oneRow_wellFormed oneRow_cleanSuccessors hr hval
  refine ⟨h, c, hr, hturns, hok, hval, order, fun b => (hmem b).2 ⟨hok b, sampleTable, ?_, rfl⟩,
    hrows⟩
  cases b <;> decide +kernel

/-- One after the other the two UPDATEs leave one row. -/
theorem twoUpdates_serial (order : List Bool) (n : ℤ) :
    ∃ n', Txn.serial (fun b => (twoUpdates b).txn .verbatim plainText oneRow.catalog 1) order
      {[rowBatch n]} = {[rowBatch n']} := by
  induction order generalizing n with
  | nil => exact ⟨n, rfl⟩
  | cons b order ih => exact ih (if b then 20 else 10)

/-- Both UPDATEs of a one-row table return `Ok` and the table has two rows, which no serial order
gives; micro-partition 7 has the active successors 8 and 9. -/
theorem serializable_of_undisturbed_overlapping :
    ∃ h c, Run (Step Parquet.verbatim) (dmlConfig plainText oneRow twoUpdates) h c ∧
      (∀ b, (c.threads b).succeeded = true) ∧
      (∀ order : List Bool, rowsOf (c.world.contents 1) ≠
        rowsOf (Txn.serial (fun b => (twoUpdates b).txn .verbatim plainText oneRow.catalog 1) order
          (oneRow.contents 1))) ∧
      (∃ m, c.world.ActiveSuccessor 1 7 8 m) ∧ ∃ m, c.world.ActiveSuccessor 1 7 9 m := by
  obtain ⟨h, c, hr, hok, hrows, h8, h9⟩ := overlapping_run
  refine ⟨h, c, hr, hok, fun order heq => ?_, h8, h9⟩
  have hinit : oneRow.contents 1 = {[rowBatch 1]} := by decide +kernel
  obtain ⟨n, hn⟩ := twoUpdates_serial order 1
  rw [hrows, hinit, hn] at heq
  have hcard := congrArg Multiset.card heq
  simp [rowsOf, rowBatch, RecordBatch.logicalRows] at hcard

/-! ### Every interleaving -/

section

variable {ι : Type} [DecidableEq ι] {pq : Parquet} {fmt : TextFormat} {stmts : ι → DmlStatement}
  {w₀ : World} {h : History ι Op Op.Res} {i : ι}
  {c : Config ι Op Op.Res World fun _ => Except NovaError QueryResult}

theorem committed_iff :
    (logOf h i).commit ≠ none ↔ ∃ e, (i, e) ∈ h ∧ (commitOf e).isSome = true := by
  induction h using reverseRecOn with
  | nil => simp
  | append_singleton h x ih =>
    obtain ⟨j, e⟩ := x
    by_cases hij : j = i
    · subst hij
      rw [logOf_snoc_self, record_commit]
      cases hc : commitOf e <;> simp [hc, ← ih, or_and_right, exists_or]
    · simp [logOf_snoc_ne hij, ih, Ne.symm hij]

theorem ok_iff_committed (hr : Run (Step pq) (dmlConfig fmt w₀ stmts) h c) :
    (∃ q, c.threads i = .ret (.ok q)) ↔ (logOf h i).commit ≠ none := by
  have hf := hr.follows dmlConfig_follows i
  generalize c.threads i = p at hf
  rcases p with (_ | q) | ⟨o, k⟩
  · exact iff_of_false (by simp) (not_not.2 hf)
  · exact iff_of_true ⟨q, rfl⟩ hf
  · exact iff_of_false (by simp) (not_not.2 hf.1.1)

/-- **Statements are atomic.**  At every point of every interleaving, a statement has returned `Ok`
exactly if one of its steps was a commit that succeeded, so that this step was its last, and every
other step leaves the micro-partitions, their index, the change log and the watermarks alone. -/
theorem dmlConfig_atomic (hr : Run (Step pq) (dmlConfig fmt w₀ stmts) h c) :
    (∀ i, (∃ q, c.threads i = .ret (.ok q)) ↔ ∃ e, (i, e) ∈ h ∧ (commitOf e).isSome = true) ∧
    ∀ i e c', Run (Step pq) c [(i, e)] c' → commitOf e = none →
      c'.world.mps = c.world.mps ∧ c'.world.tableMps = c.world.tableMps ∧
      c'.world.changeLog = c.world.changeLog ∧ c'.world.changeSeq = c.world.changeSeq := by
  refine ⟨fun i => (ok_iff_committed hr).trans committed_iff, ?_⟩
  rintro i ⟨o, r⟩ c' hr' hc
  obtain ⟨k, w', hop, hs, hrest⟩ := hr'.cons_inv
  obtain rfl := hrest.eq_of_nil
  have hmay := (hr.allowed dmlConfig_follows hop).2
  cases step_effect hs with
  | setMp | compareAndSet => exact hmay.elim
  | commit => cases hc
  | allocate h =>
    obtain ⟨-, -, rfl⟩ := allocate_eq_ok h
    exact ⟨rfl, rfl, rfl, rfl⟩
  | _ => exact ⟨rfl, rfl, rfl, rfl⟩

/-- Two overlapping UPDATEs that have returned. -/
theorem dmlConfig_atomic_overlapping : ∃ h c,
    Run (Step .verbatim) (dmlConfig plainText oneRow twoUpdates) h c ∧
      ∀ b, ∃ e, (b, e) ∈ h ∧ (commitOf e).isSome = true := by
  obtain ⟨h, c, hr, hok, -⟩ := overlapping_run
  exact ⟨h, c, hr, fun b => ((dmlConfig_atomic hr).1 b).1 (Prog.eq_ok_of_succeeded (hok b))⟩

/-- **The store stays well formed.**  At every point of every interleaving, what the index lists is
stored and what is active has its file, and the identifiers of a statement that has not returned
`Ok` are neither stored nor listed. -/
theorem dmlConfig_wellFormed (hw : w₀.WellFormed)
    (hr : Run (Step pq) (dmlConfig fmt w₀ stmts) h c) : c.world.WellFormed ∧
    ∀ i, (∀ q, c.threads i ≠ .ret (.ok q)) → ∀ n ∈ (logOf h i).mp.ids,
      c.world.mps n = none ∧ ∀ t, n ∉ c.world.tableMps t := by
  have hinv := run_storeInv hr dmlConfig_follows_store hw
  refine ⟨hinv.wf, fun i hi n hn => ?_⟩
  have hunc := not_not.1 ((ok_iff_committed hr).not.1 (not_exists.2 hi))
  have hnone := (hinv.thread i).ids_unused hunc n hn
  exact ⟨hnone, fun _ => hinv.wf.not_mem hnone⟩

/-- The store after two overlapping UPDATEs. -/
theorem dmlConfig_wellFormed_overlapping : ∃ h c,
    Run (Step .verbatim) (dmlConfig plainText oneRow twoUpdates) h c ∧
      (∀ b, (c.threads b).succeeded = true) ∧ c.world.WellFormed := by
  obtain ⟨h, c, hr, hok, -⟩ := overlapping_run
  exact ⟨h, c, hr, hok, (dmlConfig_wellFormed oneRow_wellFormed hr).1⟩

end

end NovaCore
