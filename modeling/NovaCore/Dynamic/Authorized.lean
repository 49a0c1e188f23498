import NovaCore.Dynamic.FullRefresh
import NovaCore.Executor.DropTable
import NovaCore.Metadata.Keys

/-!
# Which dynamic table a statement acts on

REFRESH, SUSPEND, RESUME and DROP DYNAMIC TABLE check a privilege on the dynamic table with the
given name in the given schema, and then act on the first dynamic table with that name in the
database.  A refresh stores its output under the identifier 0, and DROP deletes the records of the
micro-partitions that the index lists for the output table: both can reach a micro-partition that
the index lists for the output table of another dynamic table as well.

## Main definitions

* `ActsOnly` : no other dynamic table, and no output table of another, has changed.
* `DtAction.Confined` : what has to hold of a state for that.

## Main results

* `acts_on_authorized_iff` : **when the statements act on the dynamic table that was checked.**
-/

namespace NovaCore

open List Function DynamicTableMeta MicroPartitionMeta Option Store World

/-! ### What may change -/

/-- Objects and micro-partitions are stored under their identifiers. -/
structure Store.Keyed (st : Store) : Prop where
  catalog : st.catalog.Keyed
  mpId : ∀ k mp, st.mps k = some mp → mp.mpId = k

/-- `u` is the output table of a dynamic table, and not that of `dt`. -/
def Store.OtherOutput (st : Store) (dt : DynamicTableMeta) (u : TableId) : Prop :=
  u ≠ dt.outputTableId ∧
    ∃ (id : ℕ) (other : DynamicTableMeta), st.catalog.dynamicTables[id]? = some other ∧
      other.outputTableId = u

/-- The metadata and the micro-partitions of table `u` are the same. -/
structure SameTable (st st' : Store) (u : TableId) : Prop where
  record : ∀ dbId schemaId,
    (st'.catalog.tables dbId schemaId)[u]? = (st.catalog.tables dbId schemaId)[u]?
  tableVersion : st'.tableVersion u = st.tableVersion u
  tableMps : ∀ k, k ∈ st'.tableMps u ↔ k ∈ st.tableMps u
  mps : ∀ k ∈ st.tableMps u, st'.mps k = st.mps k

/-- No dynamic table but `dt`, and no output table but that of `dt`, has changed. -/
structure ActsOnly (dt : DynamicTableMeta) (st st' : Store) : Prop where
  dynamicTables : ∀ id : ℕ, id ≠ dt.id →
    st'.catalog.dynamicTables[id]? = st.catalog.dynamicTables[id]?
  outputs : ∀ u, st.OtherOutput dt u → SameTable st st' u

/-- A refresh of `dt` that gets the batches leaves the micro-partitions of table `u` alone: the
record 0 is not one of them, or is already there as it will be written, and none of them is
superseded. -/
structure RefreshConfined (upper : String → String) (dt : DynamicTableMeta) (st : Store)
    (u : TableId) (batches : List RecordBatch) : Prop where
  written : ∀ b, batches.getLast? = some b → 0 ∈ st.tableMps u →
    st.mps 0 = some (outputMp dt.outputTableId b)
  superseded : usesIncremental upper dt.queryDefinition dt.refreshMode = false →
    ∀ old ∈ st.getActiveMps dt.outputTableId, ∀ new ∈ st.getActiveMps dt.outputTableId,
      new.mpId ≠ old.mpId → (batches = [] ∨ old.mpId ≠ 0 ∧ new.mpId ≠ 0) →
      old.mpId ∉ st.tableMps u

/-- The statement stays with `dt`, the dynamic table that was checked, where it acts on `acted`. -/
def DtAction.Confined (upper : String → String) (engine : QueryEngine) (st : Store)
    (dt acted : DynamicTableMeta) : DtAction → Prop
  | suspend => acted.id = dt.id ∨ acted.schedulerEnabled = false
  | resume => acted.id = dt.id ∨ acted.schedulerEnabled = true
  | drop => acted.id = dt.id ∧ ∀ u, st.OtherOutput dt u →
      ∀ mp ∈ st.getActiveMps dt.outputTableId, mp.mpId ∉ st.tableMps u
  | refresh => ∀ batches, acted.Batches upper engine st batches → acted.id = dt.id ∧
      ∀ u, st.OtherOutput dt u → RefreshConfined upper dt st u batches

/-! ### Active micro-partitions and the two loops -/

namespace World

variable {pq : Parquet} {w w' : World} {out t u : TableId} {k : MpId} {mp : MicroPartitionMeta}
  {batches : List RecordBatch}

theorem mem_getActiveMps_iff : mp ∈ w.getActiveMps t ↔
    t % 256 ≠ 255 ∧ ∃ k, k ∈ w.tableMps t ∧ w.mps k = some mp ∧ mp.isActive = true := by
  simp only [mem_getActiveMps, scanTableMps, OMap.mem_scanKeys, and_assoc, exists_and_left]

theorem writeOutputs_catalog : (w.writeOutputs pq out batches).catalog = w.catalog := by
  rw [writeOutputs_eq]
  cases batches.getLast? <;> rfl

theorem writeOutputs_tableVersion :
    (w.writeOutputs pq out batches).tableVersion = w.tableVersion := by
  rw [writeOutputs_eq]
  cases batches.getLast? <;> rfl

theorem mem_writeOutputs_tableMps (hu : u ≠ out) :
    k ∈ (w.writeOutputs pq out batches).tableMps u ↔ k ∈ w.tableMps u := by
  rw [writeOutputs_eq]
  cases batches.getLast? with
  | none => rfl
  | some b => simp [mem_writeOutput_tableMps, hu]

theorem writeOutputs_mps (h : ∀ b, batches.getLast? = some b → k = 0 →
    w.mps 0 = some (outputMp out b)) : (w.writeOutputs pq out batches).mps k = w.mps k := by
  rw [writeOutputs_eq]
  cases hlast : batches.getLast? with
  | none => rfl
  | some b =>
    by_cases hk : k = 0
    · subst hk
      simp [h b hlast rfl]
    · simp [hk]

/-- The active micro-partitions of the output table after the batches are written. -/
theorem mem_getActiveMps_writeOutputs (hmp : ∀ k mp, w.mps k = some mp → mp.mpId = k) :
    mp ∈ (w.writeOutputs pq out batches).getActiveMps t ↔
      mp ∈ w.getActiveMps t ∧ (batches = [] ∨ mp.mpId ≠ 0) := by
  have hsame : ∀ k, batches = [] ∨ k ≠ 0 → (w.writeOutputs pq out batches).mps k = w.mps k := by
    intro k hk
    refine writeOutputs_mps fun b hlast h0 => ?_
    rcases hk with rfl | hk
    · cases hlast
    · exact absurd h0 hk
  simp only [mem_getActiveMps_iff]
  constructor
  · rintro ⟨ht, k, hk, hrec, hact⟩
    obtain ⟨⟨hk, -⟩, hor⟩ := isActive_writeOutputs_iff.1 ⟨hk, mp, hrec, hact⟩
    rw [hsame k hor] at hrec
    exact ⟨⟨ht, k, hk, hrec, hact⟩, by rwa [hmp k mp hrec]⟩
  · rintro ⟨⟨ht, k, hk, hrec, hact⟩, hor⟩
    rw [hmp k mp hrec] at hor
    obtain ⟨hk, -⟩ := isActive_writeOutputs_iff.2 ⟨⟨hk, mp, hrec, hact⟩, hor⟩
    exact ⟨ht, k, hk, by rwa [hsame k hor], hact⟩

theorem SupersedesSome.frame (hs : w.SupersedesSome out w') :
    w'.catalog = w.catalog ∧ w'.tableVersion = w.tableVersion ∧ w'.tableMps = w.tableMps := by
  obtain ⟨olds, -, rfl⟩ := hs
  generalize w.getActiveMps out = newMps
  induction olds generalizing w with
  | nil => exact ⟨rfl, rfl, rfl⟩
  | cons old olds ih =>
    obtain ⟨hcat, hversion, htable⟩ := ih
    have hstep : (w.supersedeOld newMps old).catalog = w.catalog ∧
        (w.supersedeOld newMps old).tableVersion = w.tableVersion ∧
        (w.supersedeOld newMps old).tableMps = w.tableMps := by
      unfold supersedeOld
      split <;> exact ⟨rfl, rfl, rfl⟩
    exact ⟨hcat.trans hstep.1, hversion.trans hstep.2.1, htable.trans hstep.2.2⟩

/-- A record that none of the pairs names is left alone. -/
theorem foldl_supersedeOld_mps {olds newMps : List MicroPartitionMeta}
    (hk : ∀ old ∈ olds, ∀ new ∈ newMps, new.mpId ≠ old.mpId → old.mpId ≠ k) :
    (olds.foldl (supersedeOld newMps) w).mps k = w.mps k := by
  induction olds generalizing w with
  | nil => rfl
  | cons old olds ih =>
    rw [foldl_cons, ih fun o ho => hk o (mem_cons_of_mem old ho)]
    unfold supersedeOld
    split
    · next new hnew =>
      have hne : new.mpId ≠ old.mpId := by simpa using find?_some hnew
      have hold := hk old mem_cons_self new (mem_of_find?_eq_some hnew) hne
      rw [mark_mps, update_of_ne hold.symm]
    · rfl

theorem SupersedesSome.mps (hs : w.SupersedesSome out w')
    (hk : ∀ old ∈ w.getActiveMps out, ∀ new ∈ w.getActiveMps out, new.mpId ≠ old.mpId →
      old.mpId ≠ k) : w'.mps k = w.mps k := by
  obtain ⟨olds, hsub, rfl⟩ := hs
  exact foldl_supersedeOld_mps fun old hold => hk old (hsub.subset hold)

/-- A micro-partition can be superseded if there is another one. -/
theorem exists_supersedesSome {old new : MicroPartitionMeta} (hold : old ∈ w.getActiveMps out)
    (hnew : new ∈ w.getActiveMps out) (hne : new.mpId ≠ old.mpId) :
    ∃ w' next, w.SupersedesSome out w' ∧
      w'.mps old.mpId = (w.mps old.mpId).map (·.markedSuperseded next) := by
  cases hfind : (w.getActiveMps out).find? fun new => new.mpId ≠ old.mpId with
  | none => exact absurd hne (by simpa using find?_eq_none.1 hfind new hnew)
  | some m =>
    refine ⟨_, m.mpId, ⟨[old], singleton_sublist.2 hold, rfl⟩, ?_⟩
    rw [foldl_cons, supersedeOld, hfind]
    exact update_self ..

end World

/-! ### Refreshes -/

section Refresh

variable {pq : Parquet} {upper : String → String} {dt : DynamicTableMeta} {st : Store}
  {w' : World} {u : TableId} {batches : List RecordBatch}

theorem DynamicTableMeta.Refreshes.frame (h : dt.Refreshes pq upper st.toWorld batches w') :
    w'.catalog = st.catalog ∧ w'.tableVersion = st.tableVersion ∧
      ∀ u k, u ≠ dt.outputTableId → (k ∈ w'.tableMps u ↔ k ∈ st.tableMps u) := by
  unfold Refreshes at h
  split_ifs at h
  · subst h
    exact ⟨writeOutputs_catalog, writeOutputs_tableVersion,
      fun u k hu => mem_writeOutputs_tableMps hu⟩
  · obtain ⟨hcat, hversion, htable⟩ := h.frame
    rw [hcat, hversion, htable]
    exact ⟨writeOutputs_catalog, writeOutputs_tableVersion,
      fun u k hu => mem_writeOutputs_tableMps hu⟩

theorem DynamicTableMeta.Refreshes.mps (h : dt.Refreshes pq upper st.toWorld batches w')
    (hu : RefreshConfined upper dt st u batches) (hmp : ∀ k mp, st.mps k = some mp → mp.mpId = k)
    {k : MpId} (hk : k ∈ st.tableMps u) : w'.mps k = st.mps k := by
  have hwritten : (st.toWorld.writeOutputs pq dt.outputTableId batches).mps k = st.mps k :=
    writeOutputs_mps fun b hb h0 => hu.written b hb (h0 ▸ hk)
  unfold Refreshes at h
  split_ifs at h with hinc
  · exact h ▸ hwritten
  · rw [← hwritten]
    refine h.mps fun old hold new hnew hne hk' => ?_
    obtain ⟨hold, hold0⟩ := (mem_getActiveMps_writeOutputs hmp).1 hold
    obtain ⟨hnew, hnew0⟩ := (mem_getActiveMps_writeOutputs hmp).1 hnew
    refine hu.superseded (by simpa using hinc) old hold new hnew hne ?_ (hk' ▸ hk)
    rcases hold0 with hb | hold0
    · exact .inl hb
    · rcases hnew0 with hb | hnew0
      · exact .inl hb
      · exact .inr ⟨hold0, hnew0⟩

/-- A refresh can leave the batches written and nothing superseded. -/
theorem DynamicTableMeta.refreshes_writeOutputs (w : World) :
    dt.Refreshes pq upper w batches (w.writeOutputs pq dt.outputTableId batches) := by
  unfold Refreshes
  split_ifs
  · rfl
  · exact .refl _ _

/-- Where all refreshes leave the records of a table alone, the table is not reached. -/
theorem refreshConfined_of_mps (pq : Parquet) (hmp : ∀ k mp, st.mps k = some mp → mp.mpId = k)
    (h : ∀ w', dt.Refreshes pq upper st.toWorld batches w' → ∀ k ∈ st.tableMps u,
      w'.mps k = st.mps k) : RefreshConfined upper dt st u batches where
  written b hb h0 := by
    rw [← h _ (dt.refreshes_writeOutputs st.toWorld) 0 h0, writeOutputs_eq, hb]
    simp
  superseded hinc old hold new hnew hne h0 hk := by
    have hnot : ¬usesIncremental upper dt.queryDefinition dt.refreshMode = true := by simp [hinc]
    have hold' : old ∈ (st.toWorld.writeOutputs pq dt.outputTableId batches).getActiveMps
        dt.outputTableId :=
      (mem_getActiveMps_writeOutputs hmp).2 ⟨hold, h0.imp_right And.left⟩
    have hnew' : new ∈ (st.toWorld.writeOutputs pq dt.outputTableId batches).getActiveMps
        dt.outputTableId :=
      (mem_getActiveMps_writeOutputs hmp).2 ⟨hnew, h0.imp_right And.right⟩
    obtain ⟨w', next, hs, hmps⟩ := exists_supersedesSome hold' hnew' hne
    have hrun : dt.Refreshes pq upper st.toWorld batches w' := by
      rw [Refreshes, if_neg hnot]
      exact hs
    -- the record was active, and is marked afterwards
    obtain ⟨-, k, -, hrec, hact⟩ := mem_getActiveMps_iff.1 hold'
    have hkey : st.mps old.mpId = some old := by
      obtain ⟨-, k, -, hrec, -⟩ := mem_getActiveMps_iff.1 hold
      rwa [hmp k old hrec]
    rw [h w' hrun old.mpId hk, hkey] at hmps
    obtain ⟨r, -, hr⟩ := map_eq_some_iff.1 hmps.symm
    rw [← hr] at hact
    cases hact

end Refresh

/-! ### DROP -/

section Drop

variable {pq : Parquet} {st st₁ st₂ : Store} {out : TableId}

/-- The record is one that DROP DYNAMIC TABLE finds active in the output table. -/
def Store.Dropped (st : Store) (out : TableId) (k : MpId) : Prop :=
  ∃ mp ∈ st.getActiveMps out, mp.mpId = k

/-- What is so while a DROP DYNAMIC TABLE that started in `st` goes on: records were only deleted,
and none that was not active in the output table. -/
structure Dropping (st : Store) (out : TableId) (st₁ : Store) : Prop where
  catalog : st₁.catalog = st.catalog
  tableVersion : ∀ u, u ≠ out → st₁.tableVersion u = st.tableVersion u
  mps : ∀ k, st₁.mps k = st.mps k ∨ st₁.mps k = none ∧ st.Dropped out k
  tableMps : ∀ u k, (k ∈ st₁.tableMps u ↔ k ∈ st.tableMps u) ∨
    k ∉ st₁.tableMps u ∧ (u = out ∨ st.Dropped out k)

theorem Dropping.refl (st : Store) (out : TableId) : Dropping st out st :=
  ⟨rfl, fun _ _ => rfl, fun _ => .inl rfl, fun _ _ => .inl Iff.rfl⟩

section

variable (h : Dropping st out st₁)
include h

/-- What is active in the output table was active at the start. -/
theorem Dropping.dropped {k : MpId} (hk : st₁.Dropped out k) : st.Dropped out k := by
  obtain ⟨mp, hmp, hid⟩ := hk
  obtain ⟨hout, j, hj, hrec, hact⟩ := mem_getActiveMps_iff.1 hmp
  refine ⟨mp, mem_getActiveMps_iff.2 ⟨hout, j, ?_, ?_, hact⟩, hid⟩
  · rcases h.tableMps out j with hiff | ⟨hnot, -⟩
    · exact hiff.1 hj
    · exact absurd hj hnot
  · rcases h.mps j with heq | ⟨hnone, -⟩
    · rw [← heq, hrec]
    · rw [hrec] at hnone
      cases hnone

theorem Dropping.clearMp {k : MpId} (hk : st.Dropped out k) (t : TableId) :
    Dropping st out (st₁.clearMp t k) where
  catalog := h.catalog
  tableVersion := h.tableVersion
  mps j := by
    by_cases hj : j = k
    · subst hj
      exact .inr ⟨update_self .., hk⟩
    · simpa [Store.clearMp, hj] using h.mps j
  tableMps u j := by
    by_cases hu : u = t
    · subst hu
      have htable : (st₁.clearMp u k).tableMps u = (st₁.tableMps u).erase k := update_self ..
      rw [htable]
      by_cases hj : j = k
      · subst hj
        simp [hk]
      · have hne : compare k j ≠ .eq := by simpa [compare_eq_iff_eq] using Ne.symm hj
        simpa [hne] using h.tableMps u j
    · have htable : (st₁.clearMp t k).tableMps u = st₁.tableMps u := update_of_ne hu ..
      rw [htable]
      exact h.tableMps u j

theorem Dropping.deleteMp {k : MpId} (hk : st.Dropped out k) {r : Except NovaError Unit}
    (he : Exec (MetaStep pq) st₁ (MetadataStore.deleteMp k).run r st₂) : Dropping st out st₂ := by
  rcases execE_bind_cases he with ⟨e, hread⟩ | ⟨mp, st3, hread, he⟩
  · obtain ⟨w', hw, rfl⟩ := exec_storage_iff.1 hread
    rw [hw.eq_of_reads (Prog.issuesE_call fun _ => rfl)]
    exact h
  · obtain ⟨rfl, rfl⟩ := (exec_storage_read_iff fun _ => rfl).1 hread
    split at he
    · obtain ⟨-, rfl⟩ := exec_ret_iff.1 he
      exact h
    · next mp hmp =>
      obtain ⟨r', st4, hs, hret⟩ := exec_op_iff.1 he
      obtain ⟨-, rfl⟩ := exec_ret_iff.1 hret
      cases metaStep_effect hs with
      | failed => exact h
      | txn hrun =>
        cases hrun
        exact h.clearMp hk mp.tableId

theorem Dropping.dropTable {r : Except NovaError Unit}
    (he : Exec (MetaStep pq) st₁ (dropTable out).run r st₂) : Dropping st out st₂ := by
  have hversion : Dropping st out { st₁ with tableVersion := update st₁.tableVersion out 0 } :=
    { h with tableVersion := fun u hu => (update_of_ne hu ..).trans (h.tableVersion u hu) }
  rcases execE_bind_cases he with ⟨e, hread⟩ | ⟨mps, st3, hread, he⟩
  · obtain ⟨w', hw, rfl⟩ := exec_storage_iff.1 hread
    rw [hw.eq_of_reads getActiveMps_reads]
    exact h
  obtain ⟨rfl, rfl⟩ := exec_storage_getActiveMps_iff.1 hread
  obtain ⟨r', st4, hs, he⟩ := exec_op_iff.1 he
  cases metaStep_effect hs with
  | failed =>
    obtain ⟨-, rfl⟩ := exec_ret_iff.1 he
    exact h
  | txn hrun =>
    cases hrun
    obtain ⟨r', st5, hs, he⟩ := exec_op_iff.1 he
    obtain ⟨-, rfl⟩ := exec_ret_iff.1 he
    cases metaStep_effect hs with
    | failed => exact hversion
    | txn hrun =>
      cases hrun
      refine ⟨hversion.catalog, hversion.tableVersion, fun k => ?_, fun u k => ?_⟩
      · by_cases hk : k ∈ (st3.getActiveMps out).map mpId
        · obtain ⟨mp, hmp, hid⟩ := mem_map.1 hk
          exact .inr ⟨if_pos hk, h.dropped ⟨mp, hmp, hid⟩⟩
        · have hkept : (st3.clearTableMps out
              ((st3.getActiveMps out).map mpId)).mps k = st3.mps k := if_neg hk
          exact hkept ▸ h.mps k
      · by_cases hu : u = out
        · subst hu
          by_cases hq : u % 256 = 255
          · simpa [clearTableMps, hq] using h.tableMps u k
          · exact .inr ⟨by simp [clearTableMps, hq], .inl rfl⟩
        · have htable : (st3.clearTableMps out
              ((st3.getActiveMps out).map mpId)).tableMps u = st3.tableMps u := by
            unfold clearTableMps
            split_ifs
            · rfl
            · exact update_of_ne hu ..
          exact htable ▸ h.tableMps u k

end

end Drop

/-! ### The statements -/

section Statements

variable {pq : Parquet} {st st' : Store} {upper : String → String} {engine : QueryEngine}
  {security : SecurityContext} {db schema name : String} {dt acted : DynamicTableMeta}

/-- What a lookup by name returns is stored under its identifier. -/
theorem Store.Keyed.getElem?_of_find? (hst : st.Keyed) {dbId : DatabaseId}
    {p : DynamicTableMeta → Bool}
    (h : ((MetaQuery.listDynamicTables dbId).ask st).find? p = some dt) :
    st.catalog.dynamicTables[dt.id]? = some dt := by
  have hmem := (mem_filter.1 (mem_of_find?_eq_some h)).1
  obtain ⟨k, hk⟩ := OMap.mem_scanAll.1 hmem
  rwa [hst.catalog.dynamicTables k dt hk]

theorem Store.NamedInDb.getElem? (hst : st.Keyed) (h : st.NamedInDb db name acted) :
    st.catalog.dynamicTables[acted.id]? = some acted := by
  obtain ⟨d, -, hfind⟩ := h
  exact hst.getElem?_of_find? hfind

theorem Store.NamedInSchema.getElem? (hst : st.Keyed) (h : st.NamedInSchema db schema name dt) :
    st.catalog.dynamicTables[dt.id]? = some dt := by
  obtain ⟨d, s, -, -, hfind⟩ := h
  exact hst.getElem?_of_find? hfind

/-- Two lookups that return the same identifier return the same dynamic table. -/
theorem Store.Keyed.eq_of_id (hst : st.Keyed) (hdt : st.NamedInSchema db schema name dt)
    (hacted : st.NamedInDb db name acted) (hid : acted.id = dt.id) : acted = dt := by
  have h := hacted.getElem? hst
  rw [hid, hdt.getElem? hst] at h
  exact (some.inj h).symm

theorem SameTable.refl (st : Store) (u : TableId) : SameTable st st u :=
  ⟨fun _ _ => rfl, rfl, fun _ => Iff.rfl, fun _ _ => rfl⟩

/-- Storing a record changes no other dynamic table, unless it was another one's and differs. -/
theorem actsOnly_setDynamicTable_iff : ActsOnly dt st (st.setDynamicTable acted) ↔
      acted.id = dt.id ∨ st.catalog.dynamicTables[acted.id]? = some acted := by
  constructor
  · intro h
    by_cases hid : acted.id = dt.id
    · exact .inl hid
    · have hsame := h.dynamicTables acted.id hid
      rw [getElem?_setDynamicTable, if_pos rfl] at hsame
      exact .inr hsame.symm
  · intro h
    refine ⟨fun id hid => ?_, fun u _ => { SameTable.refl st u with }⟩
    rw [getElem?_setDynamicTable]
    split_ifs with heq
    · subst heq
      exact (h.resolve_left hid).symm
    · rfl

theorem Store.NamedInDb.unique {a b : DynamicTableMeta} (ha : st.NamedInDb db name a)
    (hb : st.NamedInDb db name b) : a = b := by
  obtain ⟨d, hd, ha⟩ := ha
  obtain ⟨d', hd', hb⟩ := hb
  obtain rfl := ok_unique hd hd'
  exact mem_unique ha hb

/-- What a refresh leaves when it has got the batches. -/
theorem exec_refreshDynamicTable_of_refreshes (hacted : st.NamedInDb db name acted)
    {batches : List RecordBatch} (hbatches : acted.Batches upper engine st batches) {w' : World}
    (hw : acted.Refreshes pq upper
      (st.setDynamicTable { acted with refreshStatus := .running }).toWorld batches w')
    (now : Timestamp) :
    ∃ r, Ends (MetaStep pq) st (execRefreshDynamicTable upper engine db name) r
      ({ st.setDynamicTable { acted with refreshStatus := .running } with
        toWorld := w' }.setDynamicTable
          { acted with refreshStatus := .success, lastRefreshTs := some now }) :=
  exec_refreshDynamicTable_iff.2 ⟨acted, _, now, _, hacted,
    exec_refresh_iff.2 ⟨batches, w', hbatches, rfl, hw, rfl⟩, rfl⟩

/-- REFRESH. -/
theorem actsOnly_refresh_iff (hst : st.Keyed) (hdt : st.NamedInSchema db schema name dt)
    (hacted : st.NamedInDb db name acted) :
    (∀ r st', Ends (MetaStep pq) st (execRefreshDynamicTable upper engine db name) r st' →
      ActsOnly dt st st') ↔ DtAction.refresh.Confined upper engine st dt acted := by
  constructor
  · intro hall batches hbatches
    -- the time of the refresh is stored in the record, so that the record changes
    have hid : acted.id = dt.id := by
      by_contra hne
      have hnow : ∀ now, acted.lastRefreshTs = some now := by
        intro now
        obtain ⟨r, he⟩ := exec_refreshDynamicTable_of_refreshes hacted hbatches
          (acted.refreshes_writeOutputs _) now
        have hsame := (hall r _ he).dynamicTables acted.id hne
        rw [getElem?_setDynamicTable, if_pos rfl, hacted.getElem? hst, some.injEq] at hsame
        rw [← hsame]
      have h01 := (hnow 0).symm.trans (hnow 1)
      cases h01
    refine ⟨hid, fun u hu => ?_⟩
    obtain rfl := hst.eq_of_id hdt hacted hid
    have hconfined : RefreshConfined upper acted
        (st.setDynamicTable { acted with refreshStatus := .running }) u batches := by
      refine refreshConfined_of_mps pq hst.mpId fun w' hw k hk => ?_
      obtain ⟨r, he⟩ := exec_refreshDynamicTable_of_refreshes hacted hbatches hw 0
      exact ((hall r _ he).outputs u hu).mps k hk
    exact ⟨hconfined.written, hconfined.superseded⟩
  · intro hconfined r st' he
    obtain ⟨dt', n, now, st₁, hdt', hrun, rfl⟩ := exec_refreshDynamicTable_iff.1 ⟨r, he⟩
    obtain rfl := hdt'.unique hacted
    obtain ⟨batches, w', hbatches, -, hw, rfl⟩ := exec_refresh_iff.1 hrun
    obtain ⟨hid, hothers⟩ := hconfined batches hbatches
    obtain rfl := hst.eq_of_id hdt hacted hid
    obtain ⟨hcat, hversion, htable⟩ := hw.frame
    refine ⟨fun id hid => ?_, fun u hu => ?_⟩
    · rw [getElem?_setDynamicTable, if_neg hid]
      rw [hcat, getElem?_setDynamicTable, if_neg hid]
    · have hu' := hothers u hu
      refine ⟨fun dbId schemaId => ?_, ?_, fun k => htable u k hu.1, fun k hk => ?_⟩
      · change (w'.catalog.tables dbId schemaId)[u]? = _
        rw [hcat]
        rfl
      · exact congrFun hversion u
      · have hrunning : RefreshConfined upper dt'
            (st.setDynamicTable { dt' with refreshStatus := .running }) u batches :=
          ⟨hu'.written, hu'.superseded⟩
        have hkept := hw.mps hrunning hst.mpId hk
        exact hkept

/-- DROP. -/
theorem actsOnly_drop_iff (hst : st.Keyed) (hdt : st.NamedInSchema db schema name dt)
    (hacted : st.NamedInDb db name acted) :
    (∀ r st', Ends (MetaStep pq) st (execDropDynamicTable db name) r st' →
      ActsOnly dt st st') ↔ DtAction.drop.Confined upper engine st dt acted := by
  unfold execDropDynamicTable
  simp only [execE_bind_iff, exec_findDynamicTableInDb_iff, exec_orEmpty_getActiveMps_iff,
    execE_pure_iff]
  constructor
  · intro hall
    -- the run in which the first list cannot be read, and everything else succeeds
    have hacts := hall _ _ ⟨acted, st, ⟨hacted, rfl⟩, [], st, ⟨.inr rfl, rfl⟩, ⟨⟩, st,
      execE_forM_nil_iff.2 rfl, (), st.dropTable acted.outputTableId,
      exec_ignoreResult_iff.2 ⟨.ok (), exec_dropTable_iff.2 rfl⟩, (), _, exec_transact_iff.2 rfl,
      rfl, rfl⟩
    have hid : acted.id = dt.id := by
      by_contra hne
      have hsame := hacts.dynamicTables acted.id hne
      rw [hacted.getElem? hst] at hsame
      simp [modifyCatalog] at hsame
    refine ⟨hid, fun u hu mp hmp hmem => ?_⟩
    obtain rfl := hst.eq_of_id hdt hacted hid
    have hsame := (hacts.outputs u hu).mps mp.mpId hmem
    obtain ⟨-, k, -, hrec, -⟩ := mem_getActiveMps_iff.1 hmp
    have hkey : st.mps mp.mpId = some mp := by rwa [hst.mpId k mp hrec]
    rw [hkey] at hsame
    have hcleared : (st.dropTable acted.outputTableId).mps mp.mpId = none :=
      if_pos (mem_map_of_mem hmp)
    exact absurd (hcleared.symm.trans hsame) (some_ne_none mp).symm
  · rintro ⟨hid, hconfined⟩ r st' ⟨acted', _, ⟨hacted', rfl⟩, mps, st0, ⟨hmps, rfl⟩, _, st₁, hloop,
      _, st₂, hdrop, _, st3, hclear, -, rfl⟩
    obtain rfl := hacted'.unique hacted
    obtain rfl := hst.eq_of_id hdt hacted hid
    have hloop' : Dropping st0 acted'.outputTableId st₁ := by
      refine hloop.forM_invariant (.refl st0 _) fun mp hmp s1 s2 hI hbody => ?_
      obtain ⟨r, hdelete⟩ := exec_ignoreResult_iff.1 hbody
      rcases hmps with rfl | rfl
      · exact hI.deleteMp ⟨mp, hmp, rfl⟩ hdelete
      · cases hmp
    obtain ⟨r', hdrop⟩ := exec_ignoreResult_iff.1 hdrop
    have hdropped := hloop'.dropTable hdrop
    cases exec_transact_iff.1 hclear
    have hnot : ∀ u k, st0.OtherOutput acted' u → k ∈ st0.tableMps u →
        ¬st0.Dropped acted'.outputTableId k := by
      rintro u k hu hk ⟨mp, hmp, rfl⟩
      exact hconfined u hu mp hmp hk
    refine ⟨fun id hne => ?_, fun u hu => ⟨fun _ _ => ?_, ?_, fun k => ?_, fun k hk => ?_⟩⟩
    · change (st₂.catalog.dynamicTables.erase acted'.id)[id]? = _
      rw [hdropped.catalog, Std.ExtTreeMap.getElem?_erase]
      simp [Ne.symm hne]
    · change (st₂.catalog.tables _ _)[u]? = _
      rw [hdropped.catalog]
    · exact hdropped.tableVersion u hu.1
    · change k ∈ st₂.tableMps u ↔ _
      rcases hdropped.tableMps u k with hiff | ⟨hgone, hout | hk⟩
      · exact hiff
      · exact absurd hout hu.1
      · exact iff_of_false hgone fun hmem => hnot u k hu hmem hk
    · change st₂.mps k = _
      exact (hdropped.mps k).resolve_right fun h => hnot u k hu hk h.2

theorem exec_dynamicTableStmt_iff {action : DtAction} {r : QueryResult} :
    Ends (MetaStep pq) st (dynamicTableStmt upper engine security db schema name action) r
      st' ↔ ∃ dt, st.NamedInSchema db schema name dt ∧
        st.catalog.requirePrivilege security ⟨.dynamicTable, dt.id⟩ action.privilege = .ok () ∧
        Ends (MetaStep pq) st (action.exec upper engine db name) r st' := by
  unfold dynamicTableStmt
  simp only [execE_bind_iff, exec_findDynamicTable_iff, exec_requirePrivilege_iff]
  constructor
  · rintro ⟨dt, _, ⟨hdt, rfl⟩, _, _, ⟨hpriv, rfl⟩, he⟩
    exact ⟨dt, hdt, hpriv, he⟩
  · rintro ⟨dt, hdt, hpriv, he⟩
    exact ⟨dt, st, ⟨hdt, rfl⟩, (), st, ⟨hpriv, rfl⟩, he⟩

/-- If a dynamic table is found in a schema, one is found in the database. -/
theorem Store.NamedInSchema.exists_namedInDb (h : st.NamedInSchema db schema name dt) :
    ∃ acted, st.NamedInDb db name acted := by
  obtain ⟨d, s, hd, -, hfind⟩ := h
  have hboth : dt.schemaId = s.id ∧ dt.name = name := by simpa using find?_some hfind
  cases hdb : ((MetaQuery.listDynamicTables d.id).ask st).find? (fun dt => dt.name = name) with
  | some acted => exact ⟨acted, d, hd, hdb⟩
  | none =>
    have hmem := mem_of_find?_eq_some hfind
    exact absurd hboth.2 (by simpa using find?_eq_none.1 hdb dt hmem)

theorem Store.NamedInSchema.unique {a b : DynamicTableMeta} (ha : st.NamedInSchema db schema name a)
    (hb : st.NamedInSchema db schema name b) : a = b := by
  obtain ⟨d, s, hd, hs, ha⟩ := ha
  obtain ⟨d', s', hd', hs', hb⟩ := hb
  obtain rfl := ok_unique hd hd'
  obtain rfl := ok_unique hs hs'
  exact mem_unique ha hb

/-- What the called function acts on, for each of the statements. -/
theorem actsOnly_exec_iff (pq : Parquet) (hst : st.Keyed) (hdt : st.NamedInSchema db schema name dt)
    (hacted : st.NamedInDb db name acted) (action : DtAction) :
    (∀ r st', Ends (MetaStep pq) st (action.exec upper engine db name) r st' →
      ActsOnly dt st st') ↔ action.Confined upper engine st dt acted := by
  have hscheduler : ∀ enabled, (∀ r st',
      Ends (MetaStep pq) st (execSetDtScheduler db name enabled) r st' →
        ActsOnly dt st st') ↔ acted.id = dt.id ∨ acted.schedulerEnabled = enabled := by
    intro enabled
    have hkeeps : ActsOnly dt st (st.setDynamicTable { acted with schedulerEnabled := enabled }) ↔
        acted.id = dt.id ∨ acted.schedulerEnabled = enabled := by
      refine actsOnly_setDynamicTable_iff.trans (or_congr_right ?_)
      rw [hacted.getElem? hst, some.injEq]
      exact ⟨fun h => by rw [h], by rintro rfl; rfl⟩
    rw [← hkeeps]
    constructor
    · intro hall
      obtain ⟨r, he⟩ := exec_setDtScheduler_iff.2 ⟨acted, hacted, rfl⟩
      exact hall r _ he
    · intro hacts r st' he
      obtain ⟨dt', hdt', rfl⟩ := exec_setDtScheduler_iff.1 ⟨r, he⟩
      obtain rfl := hdt'.unique hacted
      exact hacts
  cases action with
  | refresh => exact actsOnly_refresh_iff hst hdt hacted
  | suspend => exact hscheduler false
  | resume => exact hscheduler true
  | drop => exact actsOnly_drop_iff hst hdt hacted

/-- **The dynamic table that is checked is the one that is acted on exactly in confined states.** -/
theorem acts_on_authorized_iff (hst : st.Keyed) (action : DtAction) :
    (∀ dt r st', st.NamedInSchema db schema name dt →
      Exec (MetaStep pq) st (dynamicTableStmt upper engine security db schema name action).run
        (.ok r) st' → ActsOnly dt st st') ↔
    ∀ dt acted, st.NamedInSchema db schema name dt → st.NamedInDb db name acted →
      st.catalog.requirePrivilege security ⟨.dynamicTable, dt.id⟩ action.privilege = .ok () →
      action.Confined upper engine st dt acted := by
  constructor
  · intro hall dt acted hdt hacted hpriv
    refine (actsOnly_exec_iff pq hst hdt hacted action).1 fun r st' he => ?_
    exact hall dt r st' hdt (exec_dynamicTableStmt_iff.2 ⟨dt, hdt, hpriv, he⟩)
  · intro hconfined dt r st' hdt he
    obtain ⟨dt', hdt', hpriv, he⟩ := exec_dynamicTableStmt_iff.1 he
    obtain rfl := hdt'.unique hdt
    obtain ⟨acted, hacted⟩ := hdt.exists_namedInDb
    exact (actsOnly_exec_iff pq hst hdt hacted action).2 (hconfined dt' acted hdt hacted hpriv) r
      st' he

end Statements

/-! ### Two dynamic tables with one name -/

/-- A dynamic table `x` of database 1. -/
def twinTable (id schemaId : ℕ) : DynamicTableMeta where
  id
  dbId := 1
  schemaId
  name := "x"
  queryDefinition := "SELECT * FROM t"
  targetLagSeconds := 60
  refreshMode := .full
  outputTableId := id + 10
  lastRefreshTs := none
  refreshStatus := .pending
  schedulerEnabled := true

/-- The dynamic tables `d.s.x` and `d.z.x`; role 3 owns the second. -/
def twinTables : Store :=
  { emptyStore with
    catalog := { emptyCatalog with
      databases := (∅ : OMap DatabaseMeta).insert 1 ⟨1, "d"⟩
      schemas := fun _ => ((∅ : OMap SchemaMeta).insert 1 ⟨1, 1, "s"⟩).insert 2 ⟨2, 1, "z"⟩
      dynamicTables := ((∅ : OMap DynamicTableMeta).insert 11 (twinTable 11 1)).insert 12
        (twinTable 12 2)
      roles := fun r =>
        if r = accountadminRoleId ∨ r = 3 then some ⟨r, "", accountadminRoleId, rootUserId⟩ else
          none
      owners := fun object =>
        if object = ⟨.dynamicTable, 12⟩ then some ⟨object, 3, 7⟩ else none } }

/-- A session of role 3. -/
def twinSession : SecurityContext where
  userId := 7
  username := "guest"
  primaryRoleId := 3
  secondaryRoleIds := []
  secondaryAll := false

theorem twinTables_keyed : twinTables.Keyed where
  catalog := { keyed_emptyCatalog with
      databases := OMap.Keyed.empty.insert (⟨1, "d"⟩ : DatabaseMeta)
      dynamicTables := (OMap.Keyed.empty.insert (twinTable 11 1)).insert (twinTable 12 2) }
  mpId := fun _ _ h => by cases h

theorem twinTables_namedInDb : twinTables.NamedInDb "d" "x" (twinTable 11 1) :=
  ⟨⟨1, "d"⟩, by decide +kernel, by decide +kernel⟩

/-- The administrator suspends `d.s.x`, and nothing else changes. -/
theorem acts_on_authorized_suspend : twinTables.Keyed ∧ ∃ r st',
    Exec (MetaStep .verbatim) twinTables
      (dynamicTableStmt id (scanEngine "t") rootSession "d" "s" "x" .suspend).run (.ok r) st' ∧
    ActsOnly (twinTable 11 1) twinTables st' := by
  have hnamed : twinTables.NamedInSchema "d" "s" "x" (twinTable 11 1) :=
    ⟨⟨1, "d"⟩, ⟨1, 1, "s"⟩, by decide +kernel, by decide +kernel, by decide +kernel⟩
  obtain ⟨r, he⟩ := exec_setDtScheduler_iff.2 ⟨_, twinTables_namedInDb, rfl⟩
  have hpriv : twinTables.catalog.requirePrivilege rootSession ⟨.dynamicTable, 11⟩
      DtAction.suspend.privilege = .ok () := by decide +kernel
  have hstmt : Ends (MetaStep .verbatim) twinTables
      (dynamicTableStmt id (scanEngine "t") rootSession "d" "s" "x" .suspend) r _ :=
    exec_dynamicTableStmt_iff.2 ⟨_, hnamed, hpriv, he⟩
  refine ⟨twinTables_keyed, r, _, hstmt, ?_⟩
  refine (acts_on_authorized_iff twinTables_keyed .suspend).2 ?_ _ r _ hnamed hstmt
  intro dt acted hdt hacted _
  obtain rfl := hdt.unique hnamed
  obtain rfl := hacted.unique twinTables_namedInDb
  exact .inl rfl

/-- The owner of `d.z.x`, who may not touch `d.s.x`, suspends `d.z.x`: the scheduler stops
refreshing `d.s.x`. -/
theorem suspend_acts_on_twin : ∃ r st',
    twinTables.NamedInSchema "d" "z" "x" (twinTable 12 2) ∧
    twinTables.catalog.requirePrivilege twinSession ⟨.dynamicTable, 11⟩ .operate ≠ .ok () ∧
    Exec (MetaStep .verbatim) twinTables
      (dynamicTableStmt id (scanEngine "t") twinSession "d" "z" "x" .suspend).run (.ok r) st' ∧
    st'.catalog.dynamicTables[11]? = some { twinTable 11 1 with schedulerEnabled := false } ∧
    ¬ActsOnly (twinTable 12 2) twinTables st' := by
  have hnamed : twinTables.NamedInSchema "d" "z" "x" (twinTable 12 2) :=
    ⟨⟨1, "d"⟩, ⟨2, 1, "z"⟩, by decide +kernel, by decide +kernel, by decide +kernel⟩
  obtain ⟨r, he⟩ := exec_setDtScheduler_iff.2 ⟨_, twinTables_namedInDb, rfl⟩
  have hbefore : twinTables.catalog.dynamicTables[11]? = some (twinTable 11 1) :=
    twinTables_namedInDb.getElem? twinTables_keyed
  have hchanged : (twinTables.setDynamicTable { twinTable 11 1 with
      schedulerEnabled := false }).catalog.dynamicTables[11]? =
      some { twinTable 11 1 with schedulerEnabled := false } :=
    getElem?_setDynamicTable.trans (if_pos rfl)
  refine ⟨r, _, hnamed, by decide +kernel,
    exec_dynamicTableStmt_iff.2 ⟨_, hnamed, by decide +kernel, he⟩, hchanged, fun hacts => ?_⟩
  have hsame := hacts.dynamicTables 11 (by decide)
  cases hsame

end NovaCore
