import NovaCore.Executor.PrimaryRole
import NovaCore.Mp.TimeTravel

/-!
# Zero-copy clones

`exec_clone` stores a table and, for each micro-partition of the source, a record that names the
same file.  All these records carry the identifier 0, so they share one key: of several only the
last survives, and the record of an earlier clone is taken over.

## Main definitions

* `World.sourceMps` : the micro-partitions a clone copies.
* `World.linkClones` : the state after the loop of `exec_clone`.

## Main results

* `exec_clone_effect` : what a clone that succeeded did.
* `zero_copy_clone_iff` : when a clone is a copy and leaves every other table alone.
-/

namespace NovaCore

open List Function Std.ExtTreeMap World

namespace World

/-- The micro-partitions of table `t` that a clone copies: the active ones, or those visible at a
time. -/
def sourceMps (w : World) (t : TableId) : Option Timestamp → List MicroPartitionMeta
  | some ts => w.mpsAtTimestamp t ts
  | none => w.getActiveMps t

/-- The state after the records of cloned micro-partitions are stored. -/
def linkClones (w : World) (t : TableId) (mps : List MicroPartitionMeta) : World :=
  (mps.map (cloneMp t)).foldl insertMp w

variable {w : World} {t u : TableId} {mps : List MicroPartitionMeta} {k : MpId}

theorem mem_linkClones_tableMps :
    k ∈ (w.linkClones t mps).tableMps u ↔ k ∈ w.tableMps u ∨ mps ≠ [] ∧ u = t ∧ k = 0 := by
  rw [linkClones, mem_foldl_insertMp]
  refine or_congr_right ⟨?_, ?_⟩
  · rintro ⟨_, hmem, rfl, rfl⟩
    obtain ⟨mp, hmp, rfl⟩ := mem_map.1 hmem
    exact ⟨ne_nil_of_mem hmp, rfl, rfl⟩
  · rintro ⟨hne, rfl, rfl⟩
    obtain ⟨mp, hmp⟩ := exists_mem_of_ne_nil mps hne
    exact ⟨cloneMp u mp, mem_map_of_mem hmp, rfl, rfl⟩

/-- Only the record of the last micro-partition is left. -/
theorem linkClones_mps (w : World) (t : TableId) (mps : List MicroPartitionMeta) :
    (w.linkClones t mps).mps = match mps.getLast? with
      | none => w.mps
      | some mp => update w.mps 0 (some (cloneMp t mp)) := by
  induction mps using reverseRecOn with
  | nil => rfl
  | append_singleton mps mp ih =>
    rw [linkClones, map_append, foldl_append, getLast?_concat]
    change update (w.linkClones t mps).mps 0 (some (cloneMp t mp)) = _
    rw [ih]
    cases mps.getLast? with
    | none => rfl
    | some m => exact update_idem _ _ _

theorem linkClones_issued : (w.linkClones t mps).issued = w.issued := by
  rw [linkClones, foldl_insertMp]

end World

/-! ### What a clone does -/

section

variable {pq : Parquet} {st st' : Store}

/-- The loop that stores the records of cloned micro-partitions. -/
theorem exec_linkClones {t : TableId} {mps : List MicroPartitionMeta} {a : PUnit}
    (he : Ends (MetaStep pq) st (mps.forM fun mp => insertMp (cloneMp t mp)) a st') :
    st' = { st with toWorld := st.toWorld.linkClones t mps } := by
  induction mps generalizing st with
  | nil => exact execE_forM_nil_iff.1 he
  | cons mp mps ih =>
    obtain ⟨st1, hmp, hmps⟩ := execE_forM_cons_iff.1 he
    cases exec_transact_iff.1 hmp
    exact ih hmps

/-- What a clone did to the micro-partitions: the identifier 0 now stands for the last one that
was copied. -/
structure CloneEffect (st st' : Store) (t : TableId) (source : List MicroPartitionMeta) : Prop where
  mps : st'.mps = match source.getLast? with
    | none => st.mps
    | some mp => Function.update st.mps 0 (some (cloneMp t mp))
  tableMps : ∀ u k, k ∈ st'.tableMps u ↔ k ∈ st.tableMps u ∨ source ≠ [] ∧ u = t ∧ k = 0
  issued : st'.issued = st.issued

theorem exec_getSourceMps {t : TableId} {atTimestamp : Option Timestamp}
    {mps : List MicroPartitionMeta}
    (he : Ends (MetaStep pq) st (getSourceMps t atTimestamp) mps st') :
    mps = st.sourceMps t atTimestamp ∧ st' = st := by
  cases atTimestamp with
  | none =>
    obtain ⟨w', hw, rfl⟩ := exec_storage_iff.1 he
    obtain ⟨rfl, rfl⟩ := exec_getActiveMps_iff.1 hw
    exact ⟨rfl, rfl⟩
  | some ts =>
    obtain ⟨w', hw, rfl⟩ := exec_storage_iff.1 he
    obtain ⟨rfl, rfl⟩ := exec_getMpsAtTimestamp_iff.1 hw
    exact ⟨rfl, rfl⟩

/-- **What a clone that succeeded did**: `created` is what the lookup by name returned once the
new table was stored. -/
theorem exec_clone_effect {security : SecurityContext} {db schema cloneTable sourceTable : String}
    {atTimestamp : Option Timestamp} {q : QueryResult}
    (he : Ends (MetaStep pq) st
      (execClone security db schema cloneTable sourceTable atTimestamp) q st') :
    ∃ source created, st.catalog.findTable db schema sourceTable = .ok source ∧
      (st.addTable ⟨0, source.dbId, source.schemaId, cloneTable, source.columns⟩).catalog.findTable
        db schema cloneTable = .ok created ∧
      CloneEffect st st' created.id (st.sourceMps source.id atTimestamp) := by
  obtain ⟨_, _, hrole, he⟩ := execE_bind_iff.1 he
  obtain ⟨source, _, hsource, he⟩ := execE_bind_iff.1 he
  obtain ⟨mps, st1, hmps, he⟩ := execE_bind_iff.1 he
  obtain ⟨_, _, hcreate, he⟩ := execE_bind_iff.1 he
  obtain ⟨created, st2, hcreated, he⟩ := execE_bind_iff.1 he
  obtain ⟨_, st3, howner, he⟩ := execE_bind_iff.1 he
  obtain ⟨_, _, hlink, he⟩ := execE_bind_iff.1 he
  obtain ⟨now, st4, hnow, he⟩ := execE_bind_iff.1 he
  obtain ⟨_, st5, hclone, he⟩ := execE_bind_iff.1 he
  obtain ⟨hsource, rfl⟩ := exec_findTable_iff.1 hsource
  obtain ⟨rfl, rfl⟩ := exec_getSourceMps hmps
  obtain ⟨hcreated, rfl⟩ := exec_findTable_iff.1 hcreated
  obtain rfl := exec_now hnow
  have hsame := sameObjects_of_exec (requirePrimaryRoleExists_issues trivial) hrole
  have hadd := exec_createTable rfl hcreate
  have hsame' := sameObjects_of_exec (setPrimaryRoleOwner_issues trivial trivial) howner
  have hlinked := exec_linkClones hlink
  have hst' : st'.toWorld = st4.toWorld := by
    cases exec_transact_iff.1 hclone
    obtain ⟨-, rfl⟩ := execE_pure_iff.1 he
    rfl
  have hmps : st3.mps = st.mps := by
    rw [hsame'.mps, hadd]
    exact hsame.mps
  have htable : st3.tableMps = st.tableMps := by
    rw [hsame'.tableMps, hadd]
    exact hsame.tableMps
  have hissued : st3.issued = st.issued := by
    rw [hsame'.issued, hadd]
    exact hsame.issued
  have hsourceMps : st1.sourceMps source.id atTimestamp = st.sourceMps source.id atTimestamp := by
    rw [hsame.world]
    cases atTimestamp <;> rfl
  refine ⟨source, created, hsame.findTable .. ▸ hsource,
    (hsame.addTable _).findTable .. ▸ hadd ▸ hcreated, ?_, ?_, ?_⟩
  · rw [hst', hlinked, linkClones_mps, hmps, hsourceMps]
  · intro u k
    rw [hst', hlinked, mem_linkClones_tableMps, htable, hsourceMps]
  · rw [hst', hlinked, linkClones_issued, hissued]

/-! ### When a clone is a copy -/

/-- What `("clone", c)` should mean for a table `c` cloned from the micro-partitions `source` of
table `s`: `w` is the state before and `v` the state after the clone. -/
structure ZeroCopy (pq : Parquet) (fmt : TextFormat) (w v : World) (c s : TableId)
    (source : List MicroPartitionMeta) : Prop where
  /-- The micro-partitions of the clone are those of the source, with equal paths and row counts. -/
  copied : ((v.getActiveMps c).map fun mp => (mp.s3Path, mp.rowCount)).Perm
    (source.map fun mp => (mp.s3Path, mp.rowCount))
  others : ∀ u, u ≠ c → v.activeRecords u = w.activeRecords u
  /-- Later statements on the clone do not change the source. -/
  source_kept : ∀ w', Relation.ReflTransGen (StmtOn pq fmt c) v w' →
    w'.activeRecords s = v.activeRecords s
  /-- Later statements on the source do not change the clone. -/
  clone_kept : ∀ w', Relation.ReflTransGen (StmtOn pq fmt s) v w' →
    w'.activeRecords c = v.activeRecords c

/-- The next table identifier is not in use. -/
structure Store.NextTableFresh (st : Store) : Prop where
  index : st.tableMps (st.nextId .table + 1) = ∅
  tables : ∀ (dbId : DatabaseId) (schemaId : SchemaId) (k : ℕ) (m : TableMeta),
    (st.catalog.tables dbId schemaId)[k]? = some m → m.id ≠ st.nextId .table + 1

namespace CloneEffect

variable {t : TableId} {source : List MicroPartitionMeta} (h : CloneEffect st st' t source)

include h

theorem getActiveMps (hempty : st.tableMps t = ∅) : st'.getActiveMps t =
    if t % 256 = 255 then [] else (source.getLast?.map (cloneMp t)).toList := by
  unfold World.getActiveMps World.scanTableMps OMap.scanKeys
  split_ifs with hq
  · rfl
  have hmem : ∀ k, k ∈ (st'.tableMps t).keys ↔ source ≠ [] ∧ k = 0 := fun k => by
    rw [Std.ExtTreeMap.mem_keys, h.tableMps, hempty]
    simp
  cases hlast : source.getLast? with
  | none =>
    have hkeys : (st'.tableMps t).keys = [] := eq_nil_iff_forall_not_mem.2 fun k hk =>
      ((hmem k).1 hk).1 (getLast?_eq_none_iff.1 hlast)
    rw [hkeys]
    rfl
  | some mp =>
    have hne : source ≠ [] := by
      rintro rfl
      cases hlast
    have hkeys : (st'.tableMps t).keys = [0] := perm_singleton.1
      ((perm_ext_iff_of_nodup nodup_keys (nodup_singleton 0)).2 fun k => by
        simp [hmem, hne])
    rw [hkeys, h.mps, hlast]
    rfl

/-- The clone is a copy only of a source with at most one micro-partition. -/
theorem copied_iff (hempty : st.tableMps t = ∅) :
    ((st'.getActiveMps t).map fun mp => (mp.s3Path, mp.rowCount)).Perm
      (source.map fun mp => (mp.s3Path, mp.rowCount)) ↔
    source = [] ∨ source.length = 1 ∧ t % 256 ≠ 255 := by
  rw [h.getActiveMps hempty]
  constructor
  · intro hperm
    have hlen := hperm.length_eq
    rw [length_map, length_map] at hlen
    split_ifs at hlen with hq
    · exact .inl (length_eq_zero_iff.1 hlen.symm)
    · cases hlast : source.getLast? with
      | none => exact .inl (getLast?_eq_none_iff.1 hlast)
      | some mp =>
        rw [hlast] at hlen
        exact .inr ⟨hlen.symm, hq⟩
  · rintro (rfl | ⟨hlen, hq⟩)
    · split_ifs <;> exact .refl _
    · obtain ⟨mp, rfl⟩ := length_eq_one_iff.1 hlen
      rw [if_neg hq]
      exact .refl _

/-- Other tables keep their micro-partitions only if the identifier 0 is not in use. -/
theorem others_iff (hw : st.toWorld.Indexed) :
    (∀ u, u ≠ t → st'.activeRecords u = st.activeRecords u) ↔
      source = [] ∨ ∀ u, u ≠ t → 0 ∉ st.tableMps u := by
  constructor
  · intro hkept
    cases hlast : source.getLast? with
    | none => exact .inl (getLast?_eq_none_iff.1 hlast)
    | some mp =>
      refine .inr fun u hu hin => ?_
      -- the record under 0 is now an active one, of the clone
      have hmem : cloneMp t mp ∈ st'.activeRecords u :=
        ⟨0, (h.tableMps u 0).2 (.inl hin), by rw [h.mps, hlast]; exact update_self _ _ _, rfl⟩
      rw [hkept u hu] at hmem
      obtain ⟨k, hk, hmp, -⟩ := hmem
      obtain ⟨m, hm, hmu⟩ := hw.indexed u k hk
      obtain rfl : cloneMp t mp = m := Option.mem_unique hmp hm
      exact hu hmu.symm
  · intro hcond u hu
    refine World.DiffersAt.activeRecords ⟨fun u k hu => ?_, fun u k hu hk => ?_⟩ hu
    · rw [h.tableMps]
      simp [hu]
    · rw [h.mps]
      rcases hcond with rfl | hcond
      · rfl
      · cases source.getLast? with
        | none => rfl
        | some mp =>
          refine update_of_ne ?_ _ _
          rintro rfl
          exact hcond u hu hk

/-- The index is consistent after a clone if the identifier 0 was not in use. -/
theorem indexed (hw : st.toWorld.Indexed) (h0 : 0 ∈ st.issued)
    (hcond : source = [] ∨ ∀ u, 0 ∉ st.tableMps u) : st'.toWorld.Indexed := by
  cases hlast : source.getLast? with
  | none =>
    obtain rfl := getLast?_eq_none_iff.1 hlast
    refine ⟨fun u k hk => ?_, ?_, ?_⟩
    · rw [h.mps]
      exact hw.indexed u k (by simpa using (h.tableMps u k).1 hk)
    · rw [h.mps]
      exact hw.mpId
    · rw [h.mps, h.issued]
      exact hw.issued
  | some mp =>
    have hmps : st'.mps = update st.mps 0 (some (cloneMp t mp)) := by
      rw [h.mps, hlast]
    have hcond : ∀ u, 0 ∉ st.tableMps u := by
      rcases hcond with rfl | hcond
      · cases hlast
      · exact hcond
    have hcases : ∀ k m, st'.mps k = some m →
        k = 0 ∧ m = cloneMp t mp ∨ k ≠ 0 ∧ st.mps k = some m := by
      intro k m hm
      rw [hmps] at hm
      by_cases hk : k = 0
      · subst hk
        exact .inl ⟨rfl, (Option.some.inj hm).symm⟩
      · rw [update_of_ne hk] at hm
        exact .inr ⟨hk, hm⟩
    refine ⟨fun u k hk => ?_, fun k m hm => ?_, fun k m hm => ?_⟩
    · rcases (h.tableMps u k).1 hk with hk | ⟨-, rfl, rfl⟩
      · have hne : k ≠ 0 := by
          rintro rfl
          exact hcond u hk
        rw [hmps, update_of_ne hne]
        exact hw.indexed u k hk
      · exact ⟨cloneMp u mp, by rw [hmps]; exact update_self _ _ _, rfl⟩
    · rcases hcases k m hm with ⟨rfl, rfl⟩ | ⟨-, hm⟩
      · rfl
      · exact hw.mpId k m hm
    · rw [h.issued]
      rcases hcases k m hm with ⟨rfl, rfl⟩ | ⟨-, hm⟩
      · exact h0
      · exact hw.issued k m hm

end CloneEffect

/-- **When a clone is a copy.**  Under a name and an identifier that are not in use, a clone that
succeeds is a zero-copy clone exactly if the source has no micro-partition, or it has one, the new
identifier does not end in the byte `0xFF`, and no table has a micro-partition with identifier 0. -/
theorem zero_copy_clone_iff {security : SecurityContext}
    {db schema cloneTable sourceTable : String} {atTimestamp : Option Timestamp} {q : QueryResult}
    (fmt : TextFormat) (hw : st.toWorld.Indexed) (h0 : 0 ∈ st.issued)
    (hname : ∀ m, st.catalog.findTable db schema cloneTable ≠ .ok m) (hnext : st.NextTableFresh)
    (he : Exec (MetaStep pq) st
      (execClone security db schema cloneTable sourceTable atTimestamp).run (.ok q) st') :
    ∃ source, st.catalog.findTable db schema sourceTable = .ok source ∧
      (ZeroCopy pq fmt st.toWorld st'.toWorld (st.nextId .table + 1) source.id
          (st.sourceMps source.id atTimestamp) ↔
        st.sourceMps source.id atTimestamp = [] ∨
          (st.sourceMps source.id atTimestamp).length = 1 ∧
            (st.nextId .table + 1) % 256 ≠ 255 ∧ ∀ u, 0 ∉ st.tableMps u) := by
  obtain ⟨source, created, hsource, hcreated, heff⟩ := exec_clone_effect he
  rw [findTable_addTable hname hcreated] at heff
  refine ⟨source, hsource, fun hzero => ?_, fun hcond => ?_⟩
  · have hothers := (heff.others_iff hw).1 hzero.others
    rcases (heff.copied_iff hnext.index).1 hzero.copied with hnil | ⟨hlen, hq⟩
    · exact .inl hnil
    · rcases hothers with hnil | hothers
      · exact .inl hnil
      · refine .inr ⟨hlen, hq, fun u hin => ?_⟩
        by_cases hu : u = st.nextId .table + 1
        · rw [hu, hnext.index] at hin
          exact absurd hin not_mem_empty
        · exact hothers u hu hin
  · have hunused : st.sourceMps source.id atTimestamp = [] ∨ ∀ u, 0 ∉ st.tableMps u :=
      hcond.imp_right fun h => h.2.2
    have hindexed := heff.indexed hw h0 hunused
    have hne : source.id ≠ st.nextId .table + 1 := by
      obtain ⟨d, s, -, -, hfind⟩ := Catalog.findTable_eq_ok_iff.1 hsource
      obtain ⟨-, k, hk⟩ := OMap.mem_scan.1 (mem_of_find?_eq_some hfind)
      exact hnext.tables _ _ k source hk
    exact
      { copied := (heff.copied_iff hnext.index).2 (hcond.imp_right fun h => ⟨h.1, h.2.1⟩)
        others := (heff.others_iff hw).2 (hunused.imp_right fun h u _ => h u)
        source_kept := fun w' hs => activeRecords_of_stmtsOn hindexed hne hs
        clone_kept := fun w' hs => activeRecords_of_stmtsOn hindexed hne.symm hs }

end

/-- The table `d.s.t` with one micro-partition; 0 counts as handed out. -/
def clonable : Store :=
  { emptyStore with
    toWorld := { oneRow with issued := [7, 0] }
    nextId := fun _ => 1 }

theorem clonable_indexed : clonable.toWorld.Indexed := by
  refine ⟨fun t k hk => ?_, fun k mp hmp => ?_, fun k mp hmp => ?_⟩
  · exact oneRow_wellFormed.indexed t k hk
  · exact oneRow_wellFormed.mpId k mp hmp
  · exact mem_append_left [0] (oneRow_wellFormed.issued k mp hmp)

theorem clonable_nextTableFresh : clonable.NextTableFresh := by
  refine ⟨rfl, fun dbId schemaId k m hm => ?_⟩
  have hm : ((∅ : OMap TableMeta).insert 1 sampleTable)[k]? = some m := hm
  rw [Std.ExtTreeMap.getElem?_insert] at hm
  split_ifs at hm with hk
  · cases hm
    decide
  · simp at hm

theorem clonable_unused (u : TableId) : 0 ∉ clonable.tableMps u := by
  change 0 ∉ if u = 1 then (∅ : OMap Unit).insert 7 () else ∅
  split_ifs
  · decide
  · exact not_mem_empty

theorem zero_copy_clone_iff_oneRow : ∃ q st', Exec (MetaStep .verbatim) clonable
    (execClone .root "d" "s" "c" "t" none).run (.ok q) st' ∧
      ZeroCopy .verbatim plainText clonable.toWorld st'.toWorld 2 1 [sampleMp] := by
  have hs : ((execClone .root "d" "s" "c" "t" none).run.runAlone (MetaOp.apply .verbatim) clonable
      (replicate 20 {})).any (fun y => y.1.isOk) = true := by
    decide +kernel
  obtain ⟨r, st', he, hok⟩ := exists_exec_of_runAlone hs
  cases r with
  | error e => cases hok
  | ok q =>
    have hname : ∀ m, clonable.catalog.findTable "d" "s" "c" ≠ .ok m := by
      intro m hm
      have herr : clonable.catalog.findTable "d" "s" "c" = .error (.tableNotFound "c") := by decide
      cases hm
    obtain ⟨source, hsource, hiff⟩ := zero_copy_clone_iff plainText clonable_indexed (by decide)
      hname clonable_nextTableFresh he
    have hsample : clonable.catalog.findTable "d" "s" "t" = .ok sampleTable := by decide
    obtain rfl : sampleTable = source := ok_unique hsample hsource
    exact ⟨q, st', he, hiff.2 (.inr ⟨by decide, by decide, clonable_unused⟩)⟩

/-- The table `d.s.t` with the two micro-partitions 7 and 8. -/
def twoSourceMps : Store :=
  { clonable with
    mps := fun k => if k = 7 ∨ k = 8 then some { sampleMp with mpId := k } else none
    tableMps := fun t => if t = 1 then ((∅ : OMap Unit).insert 7 ()).insert 8 () else ∅
    issued := [7, 8, 0] }

/-- Of two micro-partitions one is missing from the clone, and a second clone takes over the one
that the first clone has. -/
theorem zero_copy_clone_lost : ∃ q st' q' st'',
    Exec (MetaStep .verbatim) twoSourceMps (execClone .root "d" "s" "c" "t" none).run (.ok q) st' ∧
      (twoSourceMps.getActiveMps 1).length = 2 ∧ (st'.getActiveMps 2).length = 1 ∧
    Exec (MetaStep .verbatim) st' (execClone .root "d" "s" "e" "t" none).run (.ok q') st'' ∧
      (st'.getActiveMps 2).map MicroPartitionMeta.tableId = [2] ∧
      (st''.getActiveMps 2).map MicroPartitionMeta.tableId = [3] := by
  have hs : ((execClone .root "d" "s" "c" "t" none).run.runAlone (MetaOp.apply .verbatim)
      twoSourceMps (replicate 20 {})).any (fun y => y.1.isOk &&
        decide ((y.2.getActiveMps 2).map MicroPartitionMeta.tableId = [2]) &&
        ((execClone .root "d" "s" "e" "t" none).run.runAlone (MetaOp.apply .verbatim) y.2
          (replicate 20 {})).any fun z => z.1.isOk &&
            decide ((z.2.getActiveMps 2).map MicroPartitionMeta.tableId = [3])) = true := by
    decide +kernel
  obtain ⟨r, st', he, hp⟩ := exists_exec_of_runAlone hs
  rw [Bool.and_eq_true, Bool.and_eq_true] at hp
  obtain ⟨⟨hok, htwo⟩, hs'⟩ := hp
  obtain ⟨r', st'', he', hp'⟩ := exists_exec_of_runAlone hs'
  rw [Bool.and_eq_true] at hp'
  obtain ⟨hok', hthree⟩ := hp'
  cases r with
  | error e => cases hok
  | ok q =>
    cases r' with
    | error e => cases hok'
    | ok q' =>
      have hlist := of_decide_eq_true htwo
      exact ⟨q, st', q', st'', he, by decide,
        by simpa using congrArg length hlist, he', hlist, of_decide_eq_true hthree⟩

end NovaCore
