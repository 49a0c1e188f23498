import NovaCore.Mp.Serializable

/-!
# Statements on one table leave the others alone

INSERT, UPDATE and DELETE run one at a time on a table change neither the index nor the records of
any other table.  Only the index and the records are looked at here, so nothing is assumed about
files.

## Main definitions

* `World.Indexed` : index entries belong to records of that table, and every identifier in use was
  handed out.
* `World.activeRecords` : the active records that the index lists for a table.
* `StmtOn` : from one state to another by part of a statement on a table.

## Main results

* `activeRecords_of_stmtsOn` : statements on one table do not change the active micro-partitions of
  another.
-/

namespace NovaCore

open List Option Function

namespace World

variable (w : World)

/-- Index entries belong to records of that table, records are stored under their identifier, and
`generate_id` does not return an identifier in use. -/
structure Indexed : Prop where
  indexed : ∀ t k, k ∈ w.tableMps t → ∃ mp, w.mps k = some mp ∧ mp.tableId = t
  mpId : ∀ k mp, w.mps k = some mp → mp.mpId = k
  issued : ∀ k mp, w.mps k = some mp → k ∈ w.issued

/-- The active records that the index lists for a table. -/
def activeRecords (t : TableId) : Set MicroPartitionMeta :=
  { mp | ∃ k ∈ w.tableMps t, w.mps k = some mp ∧ mp.isActive = true }

/-- `v` differs from `w` in the index and the records of table `t` only. -/
structure DiffersAt (w v : World) (t : TableId) : Prop where
  tableMps : ∀ u k, u ≠ t → (k ∈ v.tableMps u ↔ k ∈ w.tableMps u)
  mps : ∀ u k, u ≠ t → k ∈ w.tableMps u → v.mps k = w.mps k

/-- `v` comes from `w` by adding to the index of table `t`: identifiers that were handed out stand
for the same records. -/
structure AddsTo (w v : World) (t : TableId) : Prop where
  tableMps : ∀ u k, u ≠ t → (k ∈ v.tableMps u ↔ k ∈ w.tableMps u)
  mps : ∀ k ∈ w.issued, v.mps k = w.mps k
  issued : ∀ n ∈ w.issued, n ∈ v.issued

theorem DiffersAt.activeRecords {w v : World} {t u : TableId} (h : w.DiffersAt v t) (hu : u ≠ t) :
    v.activeRecords u = w.activeRecords u := by
  ext mp
  constructor
  · rintro ⟨k, hk, hmp⟩
    have hold := (h.tableMps u k hu).1 hk
    exact ⟨k, hold, h.mps u k hu hold ▸ hmp⟩
  · rintro ⟨k, hk, hmp⟩
    exact ⟨k, (h.tableMps u k hu).2 hk, (h.mps u k hu hk).symm ▸ hmp⟩

/-- Superseding changes neither the identifier nor the table of a record. -/
theorem supersededMps_map (mps : MpId → Option MicroPartitionMeta) (sup : List (MpId × MpId))
    (k : MpId) : (supersededMps mps sup k).map (fun mp => (mp.mpId, mp.tableId)) =
      (mps k).map fun mp => (mp.mpId, mp.tableId) := by
  unfold supersededMps
  induction sup generalizing mps with
  | nil => rfl
  | cons p sup ih =>
    rw [foldl_cons, ih]
    by_cases hk : k = p.1
    · subst hk
      rw [update_self, Option.map_map]
      rfl
    · rw [update_of_ne hk]

theorem insertedMps_cases (new : List MicroPartitionMeta) (k : MpId) :
    (∃ mp ∈ new, mp.mpId = k ∧ w.insertedMps new k = some mp) ∨
      (∀ mp ∈ new, mp.mpId ≠ k) ∧ w.insertedMps new k = w.mps k := by
  by_cases hk : ∃ mp ∈ new, mp.mpId = k
  · refine .inl ?_
    unfold insertedMps
    induction new using reverseRecOn with
    | nil => simp at hk
    | append_singleton new m ih =>
      rw [foldl_append, foldl_cons]
      by_cases hm : m.mpId = k
      · subst hm
        exact ⟨m, by simp, rfl, update_self _ _ _⟩
      · obtain ⟨mp, hmp, hid⟩ := hk
        have hin : mp ∈ new := by
          rcases mem_snoc.1 hmp with hmp | rfl
          · exact hmp
          · exact (hm (hid)).elim
        obtain ⟨mp', hmp', hid', heq⟩ := ih ⟨mp, hin, hid⟩
        exact ⟨mp', by simp [hmp'], hid', (update_of_ne (Ne.symm hm) _ _).trans heq⟩
  · have hne : ∀ mp ∈ new, mp.mpId ≠ k := fun mp hmp hid => hk ⟨mp, hmp, hid⟩
    exact .inr ⟨hne, insertedMps_of_not_mem hne⟩

end World

/-! ### One statement -/

/-- What is so while a statement that started in `w` has not committed: it has seen the index and
the records of `w`, and generated identifiers that were not handed out. -/
structure SeesOnly (w v : World) (s : MpLog) : Prop where
  mps : v.mps = w.mps
  tableMps : v.tableMps = w.tableMps
  issued : ∀ n ∈ w.issued, n ∈ v.issued
  ids_nodup : s.ids.Nodup
  ids_issued : ∀ n ∈ s.ids, n ∈ v.issued
  ids_fresh : ∀ n ∈ s.ids, n ∉ w.issued
  scanned : ∀ t ids, s.scan = some (t, ids) → ∀ k ∈ ids, k ∈ w.tableMps t
  lookups : ∀ x ∈ s.lookups, x.2 = w.mps x.1

variable {values : List (List ResolvedExpr)} {schema table : String}

section

variable {pq : Parquet} {fmt : TextFormat} {stmt : DmlStatement} {w v v' : World} {s : StmtLog}

theorem SeesOnly.init (w : World) : SeesOnly w w {} where
  mps := rfl
  tableMps := rfl
  issued := fun _ hn => hn
  ids_nodup := nodup_nil
  ids_issued := by simp
  ids_fresh := by simp
  scanned := by simp
  lookups := by simp

/-- A step before the commit. -/
theorem SeesOnly.step {o : Op} {r : o.Res} (h : SeesOnly w v s.mp)
    (heff : MpEffect pq v v' s.mp ⟨o, r⟩ (s.record o r).mp) (hc : commitOf ⟨o, r⟩ = none) :
    SeesOnly w v' (s.record o r).mp := by
  generalize (s.record o r).mp = s' at heff
  generalize s.mp = s0 at h heff
  cases heff with
  | frame _ hmps htable _ hissued hs =>
    exact ⟨hmps.trans h.mps, htable.trans h.tableMps, fun n hn => hissued ▸ h.issued n hn,
      hs.ids ▸ h.ids_nodup, fun n hn => hissued ▸ h.ids_issued n (hs.ids ▸ hn),
      fun n hn => h.ids_fresh n (hs.ids ▸ hn), fun t ids hscan => h.scanned t ids (hs.scan ▸ hscan),
      fun x hx => h.lookups x (hs.lookups ▸ hx)⟩
  | @scan t hw =>
    subst hw
    refine { h with scanned := fun t' ids hscan k hk => ?_ }
    cases hscan
    exact h.tableMps ▸ (OMap.mem_scanKeys.1 hk).2
  | @lookup k hw =>
    subst hw
    refine { h with lookups := fun x hx => ?_ }
    rcases mem_snoc.1 hx with hx | rfl
    · exact h.lookups x hx
    · rw [h.mps]
  | read hw _ | putFile hw =>
    subst hw
    exact { h with }
  | @generateId n hn hw =>
    subst hw
    refine { h with
      issued := fun m hm => mem_cons_of_mem _ (h.issued m hm)
      ids_nodup := ?_, ids_issued := fun m hm => ?_, ids_fresh := fun m hm => ?_ }
    · refine nodup_append.2 ⟨h.ids_nodup, nodup_singleton n, fun a ha b hb heq => hn ?_⟩
      rw [← mem_singleton.1 hb, ← heq]
      exact h.ids_issued a ha
    · rcases mem_snoc.1 hm with hm | rfl
      · exact mem_cons_of_mem _ (h.ids_issued m hm)
      · exact mem_cons_self
    · rcases mem_snoc.1 hm with hm | rfl
      · exact h.ids_fresh m hm
      · exact fun hissued => hn (h.issued _ hissued)
  | commit => cases hc

section Commit

variable {t : TableId} {new : List MicroPartitionMeta} {sup : List (MpId × MpId)}
  {records : List ChangeRecordMeta} (hw : w.Indexed) (h : SeesOnly w v s.mp)
  (hmc : MpCommit fmt s.mp t stmt new sup) (he : v.CommitEffect v' new sup records)

include hw h hmc

theorem SeesOnly.sup_mem {k : MpId} (hk : k ∈ sup.map Prod.fst) : k ∈ w.tableMps t := by
  obtain ⟨p, hp, rfl⟩ := mem_map.1 hk
  obtain ⟨-, ids, -, hscan, hin, -⟩ := hmc.sup_spec
    (fun k mp hk => hw.mpId k mp (h.lookups _ hk).symm) hp
  exact h.scanned t ids hscan _ hin

omit hw in
theorem SeesOnly.new_fresh {mp : MicroPartitionMeta} (hmp : mp ∈ new) : mp.mpId ∉ w.issued :=
  h.ids_fresh _ (hmc.new_spec hmp).1

/-- A commit leaves the index and the records of other tables alone. -/
theorem SeesOnly.differsAt (he : v.CommitEffect v' new sup records) : w.DiffersAt v' t where
  tableMps u k hu := by
    rw [hmc.mem_tableMps_other he hu, h.tableMps]
  mps u k hu hk := by
    obtain ⟨mp, hmp, hmt⟩ := hw.indexed u k hk
    rw [he.mps_of_not_mem, h.mps]
    · rintro m hm rfl
      exact h.new_fresh hmc hm (hw.issued _ mp hmp)
    · rintro p hp rfl
      obtain ⟨mp', hmp', hmt'⟩ := hw.indexed t _
        (h.sup_mem hw hmc (mem_map_of_mem hp))
      obtain rfl : mp = mp' := mem_unique hmp hmp'
      exact hu (hmt.symm.trans hmt')

/-- A commit keeps the index consistent. -/
theorem SeesOnly.indexed (he : v.CommitEffect v' new sup records) : v'.Indexed := by
  -- a record after the commit has the identifier and the table of the one it comes from
  have hkeep : ∀ k, (v'.mps k).map (fun mp => (mp.mpId, mp.tableId)) =
      (v.insertedMps new k).map fun mp => (mp.mpId, mp.tableId) := fun k => by
    rw [he.mps, World.supersededMps_map]
  have hnew : ∀ mp ∈ new, mp.tableId = t := fun mp hmp => (hmc.new_isActive hmp).1
  have hold : ∀ k m, v'.mps k = some m → (∃ mp ∈ new, mp.mpId = k ∧ m.mpId = mp.mpId) ∨
      ∃ mp, w.mps k = some mp ∧ m.mpId = mp.mpId := by
    intro k m hm
    have hk := hkeep k
    rw [hm] at hk
    obtain ⟨mp, hmp, hpair⟩ := map_eq_some_iff.1 hk.symm
    have hid : m.mpId = mp.mpId := congrArg Prod.fst hpair.symm
    rcases v.insertedMps_cases new k with ⟨mp', hmp', hk', heq⟩ | ⟨-, heq⟩
    · obtain rfl : mp = mp' := mem_unique hmp heq
      exact .inl ⟨mp, hmp', hk', hid⟩
    · exact .inr ⟨mp, by rw [← h.mps, ← heq, hmp], hid⟩
  refine ⟨fun u k hk => ?_, fun k m hm => ?_, fun k m hm => ?_⟩
  · have hfrom : ∃ mp, v.insertedMps new k = some mp ∧ mp.tableId = u := by
      rcases v.insertedMps_cases new k with ⟨mp, hmp, hid, heq⟩ | ⟨hne, heq⟩
      · refine ⟨mp, heq, ?_⟩
        rcases he.mem_tableMps.1 hk with hk | ⟨mp', hmp', hu, -⟩
        · obtain ⟨m, hm, -⟩ := hw.indexed u k (h.tableMps ▸ hk)
          exact (h.new_fresh hmc hmp (hid ▸ hw.issued k m hm)).elim
        · rw [hnew mp hmp, ← hu, hnew mp' hmp']
      · rcases he.mem_tableMps.1 hk with hk | ⟨mp', hmp', -, hid⟩
        · rw [heq, h.mps]
          exact hw.indexed u k (h.tableMps ▸ hk)
        · exact (hne mp' hmp' hid).elim
    obtain ⟨mp, hmp, hu⟩ := hfrom
    have hk' := hkeep k
    rw [hmp] at hk'
    obtain ⟨m, hm, hpair⟩ := map_eq_some_iff.1 hk'
    exact ⟨m, hm, (congrArg Prod.snd hpair).trans hu⟩
  · rcases hold k m hm with ⟨mp, -, hk, hid⟩ | ⟨mp, hmp, hid⟩
    · exact hid.trans hk
    · exact hid.trans (hw.mpId k mp hmp)
  · rw [he.issued]
    rcases hold k m hm with ⟨mp, hmp, rfl, -⟩ | ⟨mp, hmp, -⟩
    · exact h.ids_issued _ (hmc.new_spec hmp).1
    · exact h.issued k (hw.issued k mp hmp)

end Commit

/-! ### Runs -/

variable {h : History Unit Op Op.Res}
  {c : Config Unit Op Op.Res World fun _ => Except NovaError QueryResult}

/-- At each of its steps, a statement that runs alone has either only looked at the store, or
committed to the table it found, with what follows from the commit. -/
theorem run_frame {P : MpLog → TableMeta → World → Prop}
    (hr : Run (Step pq) (dmlConfig fmt w fun _ : Unit => stmt) h c)
    (hP : ∀ {h c m v' new sup records}, Run (Step pq) (dmlConfig fmt w fun _ : Unit => stmt) h c →
      (logOf h ()).commit = none → SeesOnly w c.world (logOf h ()).mp →
      MpCommit fmt (logOf h ()).mp m.id stmt new sup → c.world.CommitEffect v' new sup records →
      P (logOf h ()).mp m v') :
    if (logOf h ()).commit = none then SeesOnly w c.world (logOf h ()).mp
    else ∃ m, (logOf h ()).mp.table = some m ∧ P (logOf h ()).mp m c.world := by
  refine Run.always (fun h v => if (logOf h ()).commit = none then SeesOnly w v (logOf h ()).mp
    else ∃ m, (logOf h ()).mp.table = some m ∧ P (logOf h ()).mp m v) dmlConfig_follows ?_ hr
    (SeesOnly.init w)
  intro h c i o r v' hrun ih hmay hst
  have hcommit : (logOf h ()).commit = none := hmay.1
  rw [if_pos hcommit] at ih
  have heff := step_mpEffect (storeMay_of_dmlMay hcommit hmay.2) hst
  rw [logOf_snoc_self]
  cases hc : commitOf ⟨o, r⟩ with
  | none =>
    rw [if_pos (by rw [StmtLog.record_commit, hc, none_or, hcommit])]
    exact ih.step heff hc
  | some args =>
    obtain ⟨he, txnId, hev⟩ := step_commitEffect hst hc
    cases hev
    obtain ⟨u, -, hmc⟩ := hmay.2
    obtain ⟨m, hm, rfl⟩ := map_eq_some_iff.1 hmc.table_eq
    exact ⟨m, hm, hP hrun hcommit ih hmc he⟩

/-- An INSERT that runs alone, however it ends, adds to its table only. -/
theorem addsTo_of_exec_insert {db : String} {r : Except NovaError QueryResult} {m : TableMeta}
    (he : Exec (Step pq) w ((DmlStatement.insert db schema table values).exec fmt).run r v)
    (hm : w.catalog.findTable db schema table = .ok m) : w.AddsTo v m.id := by
  obtain ⟨h, hr⟩ := he.exists_run
  have hr' : Run (Step pq) (dmlConfig fmt w fun _ : Unit => .insert db schema table values) h
      ⟨v, fun _ => .ret r⟩ := hr
  have hframe := run_frame (P := fun _ m v => w.AddsTo v m.id) hr' ?_
  · split_ifs at hframe
    · exact ⟨fun u k _ => by rw [hframe.tableMps], fun k _ => by rw [hframe.mps], hframe.issued⟩
    · obtain ⟨m', hm', hadds⟩ := hframe
      obtain rfl : m' = m := ok_unique (run_target hr' hm') hm
      exact hadds
  · intro h c m v' new sup records _ _ hsees hmc he
    refine ⟨fun u k hu => ?_, fun k hk => ?_,
      fun n hn => by rw [he.issued]; exact hsees.issued n hn⟩
    · rw [hmc.mem_tableMps_other he hu, hsees.tableMps]
    · rw [he.mps_of_not_mem, hsees.mps]
      · rintro mp hmp rfl
        exact hsees.new_fresh hmc hmp hk
      · -- an INSERT supersedes nothing
        cases hmc with
        | insert => simp
        | rewrite _ _ hne => exact (hne _ _ _ _ rfl).elim

/-- Part of a statement on table `t`, or all of it, leads from `w` to `v`. -/
def StmtOn (pq : Parquet) (fmt : TextFormat) (t : TableId) (w v : World) : Prop :=
  ∃ stmt m h c, stmt.target w.catalog = .ok m ∧ m.id = t ∧
    Run (Step pq) (dmlConfig fmt w fun _ : Unit => stmt) h c ∧ c.world = v

theorem differsAt_of_stmtOn {t : TableId} (hw : w.Indexed) (hs : StmtOn pq fmt t w v) :
    v.Indexed ∧ w.DiffersAt v t := by
  obtain ⟨stmt, m, h, c, htarget, rfl, hr, rfl⟩ := hs
  have hframe := run_frame (P := fun _ m v => v.Indexed ∧ w.DiffersAt v m.id) hr
    fun _ _ hsees hmc he => ⟨hsees.indexed hw hmc he, hsees.differsAt hw hmc he⟩
  split_ifs at hframe
  · refine ⟨⟨?_, ?_, ?_⟩, fun u k _ => by rw [hframe.tableMps], fun u k _ _ => by rw [hframe.mps]⟩
    · rw [hframe.tableMps, hframe.mps]
      exact hw.indexed
    · rw [hframe.mps]
      exact hw.mpId
    · rw [hframe.mps]
      exact fun k mp hmp => hframe.issued k (hw.issued k mp hmp)
  · obtain ⟨m', hm', hdiff⟩ := hframe
    obtain rfl : m' = m := ok_unique (run_target hr hm') htarget
    exact hdiff

/-- **Statements on one table do not change the active micro-partitions of another.** -/
theorem activeRecords_of_stmtsOn {t u : TableId} (hw : w.Indexed) (hu : u ≠ t)
    (hs : Relation.ReflTransGen (StmtOn pq fmt t) w v) : v.activeRecords u = w.activeRecords u := by
  suffices H : v.Indexed ∧ v.activeRecords u = w.activeRecords u from H.2
  induction hs with
  | refl => exact ⟨hw, rfl⟩
  | tail _ hstep ih =>
    obtain ⟨hindexed, hdiff⟩ := differsAt_of_stmtOn ih.1 hstep
    exact ⟨hindexed, (hdiff.activeRecords hu).trans ih.2⟩

end

end NovaCore
