import NovaCore.Dynamic.Tables
import NovaCore.Mp.TimeTravel

/-!
# A full refresh does not fill the output table

`do_full_refresh` stores the new micro-partitions as they come from the writer, which is not active,
and nothing activates them afterwards.  The lists of old and new micro-partitions of the output
table are both read after that, and neither holds a new one.  So no micro-partition becomes active,
and the output table can only hold the answer of the query if the answer has no rows.

## Main definitions

* `FullRefreshExact` : the output table holds the answer of the query, and nothing else.
* `NothingToRefresh` : no answer has a row, and the output table is empty but for what is
  overwritten.

## Main results

* `full_refresh_exact_iff` : **when full refreshes are exact.**
-/

namespace NovaCore

open Function List World Std.ExtTreeMap

/-! ### No micro-partition becomes active -/

namespace World

variable {pq : Parquet} {w w' : World} {out u : TableId} {k : MpId} {batches : List RecordBatch}

theorem mem_writeOutput_tableMps {batch : RecordBatch} :
    k ∈ (w.writeOutput pq out batch).tableMps u ↔ k ∈ w.tableMps u ∨ u = out ∧ k = 0 := by
  change k ∈ update w.tableMps out ((w.tableMps out).insert 0 ()) u ↔ _
  by_cases hu : u = out
  · subst hu
    rw [update_self, mem_insert, compare_eq_iff_eq, or_comm, eq_comm]
    simp
  · rw [update_of_ne hu]
    simp [hu]

/-- The micro-partitions that are active after the batches are written. -/
theorem isActive_writeOutputs_iff : (w.writeOutputs pq out batches).IsActive u k ↔
    w.IsActive u k ∧ (batches = [] ∨ k ≠ 0) := by
  rw [writeOutputs_eq]
  cases hlast : batches.getLast? with
  | none => simp [getLast?_eq_none_iff.1 hlast]
  | some b =>
    have hne : batches ≠ [] := by
      rintro rfl
      cases hlast
    by_cases hk : k = 0
    · -- the record 0 is the one that was written, which is not active
      subst hk
      simp [IsActive, hne, MicroPartitionMeta.isActive, outputMp]
    · simp [IsActive, mem_writeOutput_tableMps, hk]

theorem isActive_of_mark {old new : MpId} (h : (w.mark old new).IsActive u k) : w.IsActive u k := by
  obtain ⟨hk, m, hm, hact⟩ := h
  rw [mark_mps] at hm
  by_cases hold : k = old
  · subst hold
    rw [update_self] at hm
    obtain ⟨mp, -, rfl⟩ := Option.map_eq_some_iff.1 hm
    cases hact
  · rw [update_of_ne hold] at hm
    exact ⟨hk, m, hm, hact⟩

theorem isActive_of_supersedesSome (hs : w.SupersedesSome out w') (h : w'.IsActive u k) :
    w.IsActive u k := by
  obtain ⟨olds, -, rfl⟩ := hs
  generalize w.getActiveMps out = newMps at h
  induction olds generalizing w with
  | nil => exact h
  | cons old olds ih =>
    have hstep := ih h
    unfold supersedeOld at hstep
    split at hstep
    · exact isActive_of_mark hstep
    · exact hstep

theorem SupersedesSome.refl (w : World) (out : TableId) : w.SupersedesSome out w :=
  ⟨[], nil_sublist _, rfl⟩

theorem contents_eq_zero (h : ∀ k, ¬w.IsActive u k) : w.contents u = 0 := by
  have hnone : ∀ k ∈ (w.tableMps u).keys, w.activeContent k = none := by
    intro k hk
    cases hmp : w.mps k with
    | none => simp [activeContent, hmp]
    | some mp =>
      have hinactive : mp.isActive ≠ true := fun hact =>
        h k ⟨mem_keys.1 hk, mp, hmp, hact⟩
      simp [activeContent, hmp, hinactive]
  rw [contents, contentsOf, filterMap_eq_nil_iff.2 hnone]
  rfl

end World

/-! ### The refresh -/

theorem totalRows_eq_length (batches : List RecordBatch) :
    totalRows batches = (batches.flatMap RecordBatch.logicalRows).length := by
  rw [length_flatMap, totalRows]
  congr 1
  exact map_congr_left fun b _ => (length_map ..).symm

/-- The answer of the query over all tables is what the output table holds after a refresh that
reported `n` rows, and the micro-partitions it held before are not active any more. -/
structure FullRefreshExact (engine : QueryEngine) (sql : String) (out : TableId) (st : Store)
    (n : ℕ) (st' : Store) : Prop where
  rows : ∃ result, engine sql ((st.sources fun _ => true).map st.sourceTable) = .ok result ∧
    rowsOf (st'.contents out) = (result.flatMap RecordBatch.logicalRows : List (List Cell)) ∧
    n = totalRows result
  replaced : ∀ k, st.IsActive out k → ¬st'.IsActive out k

/-- The query has no rows, over all tables and over those that a refresh may get to register, and no
micro-partition of the output table is active, except for one that has the identifier 0 and is
overwritten. -/
def NothingToRefresh (engine : QueryEngine) (sql : String) (out : TableId) (st : Store) : Prop :=
  ∀ batches, st.FullBatches engine sql batches → totalRows batches = 0 ∧
    (∃ result, engine sql ((st.sources fun _ => true).map st.sourceTable) = .ok result ∧
      totalRows result = 0) ∧
    ∀ k, st.IsActive out k → k = 0 ∧ batches ≠ []

section

variable {pq : Parquet} {st st' : Store} {engine : QueryEngine} {sql : String} {out : TableId}

/-- **Full refreshes are exact if and only if there is nothing to refresh.** -/
theorem full_refresh_exact_iff :
    (∀ n st', Exec (MetaStep pq) st (doFullRefresh engine sql out).run (.ok n) st' →
      FullRefreshExact engine sql out st n st') ↔ NothingToRefresh engine sql out st := by
  constructor
  · intro hexact batches hbatches
    -- the run in which every call that supersedes a micro-partition fails
    obtain ⟨⟨result, hresult, hrows, hn⟩, hreplaced⟩ := hexact _ _
      (exec_doFullRefresh_iff.2 ⟨batches, _, hbatches, rfl, .refl _ out, rfl⟩)
    have hactive : ∀ k, st.IsActive out k → k = 0 ∧ batches ≠ [] := by
      intro k hk
      by_contra hnot
      refine hreplaced k hk (isActive_writeOutputs_iff.2 ⟨hk, ?_⟩)
      by_cases hb : batches = []
      · exact .inl hb
      · exact .inr fun h0 => hnot ⟨h0, hb⟩
    have hempty : ∀ k, ¬(st.toWorld.writeOutputs pq out batches).IsActive out k := by
      intro k hk
      obtain ⟨hk, hb⟩ := isActive_writeOutputs_iff.1 hk
      obtain ⟨rfl, hne⟩ := hactive k hk
      exact hb.elim hne fun h0 => h0 rfl
    have hzero : totalRows result = 0 := by
      have hcontents := contents_eq_zero hempty
      have hcard := congrArg Multiset.card hrows
      rw [hcontents] at hcard
      rw [totalRows_eq_length]
      exact hcard.symm
    exact ⟨hn.trans hzero, ⟨result, hresult, hzero⟩, hactive⟩
  · intro hnothing n st' he
    obtain ⟨batches, w', hbatches, hn, hs, rfl⟩ := exec_doFullRefresh_iff.1 he
    -- what is active after a refresh was active before it
    have hfrom (k : MpId) (hk : w'.IsActive out k) :=
      isActive_writeOutputs_iff.1 (isActive_of_supersedesSome hs hk)
    obtain ⟨hrows, ⟨result, hresult, hzero⟩, hactive⟩ := hnothing batches hbatches
    have hempty : ∀ k, ¬w'.IsActive out k := by
      intro k hk
      obtain ⟨hk, hb⟩ := hfrom k hk
      obtain ⟨rfl, hne⟩ := hactive k hk
      exact hb.elim hne fun h0 => h0 rfl
    have hnil : result.flatMap RecordBatch.logicalRows = [] := by
      rw [totalRows_eq_length] at hzero
      exact length_eq_zero_iff.1 hzero
    refine ⟨⟨result, hresult, ?_, ?_⟩, fun k _ => hempty k⟩
    · rw [contents_eq_zero hempty, hnil]
      rfl
    · rw [hn, hrows, hzero]

end

/-- The engine on a query that returns all rows of a table. -/
def scanEngine (name : String) : QueryEngine := fun _ tables =>
  match (tables.find? fun source => source.table.name = name).bind SourceTable.batches with
  | some batches => .ok batches
  | none => .error ("table '" ++ name ++ "' not found")

/-- A full refresh of `SELECT * FROM t`, where `t` has one row, into the empty table 9 reports one
row and leaves the table empty. -/
theorem full_refresh_stays_empty : ∃ st',
    Exec (MetaStep .verbatim) oneRowStore
      (doFullRefresh (scanEngine "t") "SELECT * FROM t" 9).run (.ok 1) st' ∧
    rowsOf (st'.contents 9) = 0 ∧
    ¬FullRefreshExact (scanEngine "t") "SELECT * FROM t" 9 oneRowStore 1 st' := by
  have hbatches : oneRowStore.FullBatches (scanEngine "t") "SELECT * FROM t" [rowBatch 1] :=
    ⟨_, List.Sublist.refl _, by decide +kernel⟩
  refine ⟨_, exec_doFullRefresh_iff.2 ⟨_, _, hbatches, rfl, .refl _ 9, rfl⟩, ?_⟩
  have hempty : ∀ k, ¬(oneRowStore.toWorld.writeOutputs .verbatim 9 [rowBatch 1]).IsActive 9 k := by
    intro k hk
    have hmem := (isActive_writeOutputs_iff.1 hk).1.1
    exact not_mem_empty hmem
  have hcontents := contents_eq_zero hempty
  refine ⟨by rw [hcontents]; rfl, fun hexact => ?_⟩
  obtain ⟨result, -, hrows, hn⟩ := hexact.rows
  have hcard := congrArg Multiset.card hrows
  rw [totalRows_eq_length] at hn
  exact absurd (hn.trans hcard.symm) one_ne_zero

end NovaCore
