import NovaCore.Data.Replay
import NovaCore.Mp.Contents

/-!
# The changes a statement logs

`DmlStatement.rewriteBatch` is what UPDATE and DELETE make of one batch, together with the change
rows they log for it.  The logged changes turn the old rows into the new ones if the rows that the
filter does not match stay as they are.  DELETE always leaves them alone; UPDATE turns the nulls of
an assigned numeric column into zeros in every row without logging it, but leaves alone the slots of
a Utf8 column.

## Main results

* `DmlStatement.rewriteBatch_turns` : the changes logged for a batch turn its rows into those that
  the statement leaves.
* `DmlStatement.turns_effect` : the same for a micro-partition and what is read in its place.
-/

namespace NovaCore

open List RecordBatch DmlStatement
open Prod (fst snd)

/-- The schema of the batches of a table. -/
def TableMeta.arrowSchema (table : TableMeta) : List Field :=
  table.columns.map fun c => Field.mk c.name (arrowType c.dataType) c.nullable

/-- A reader gets back the schema that was written. -/
def Parquet.KeepsSchema (pq : Parquet) : Prop :=
  ∀ schema bs, (∀ b ∈ bs, b.schema = schema) → ∀ b ∈ pq.mp bs, b.schema = schema

/-- The change that a change row stands for. -/
def rowChange (row : CdcBatch.Row) : Change (List Cell) :=
  match row.2.action with
  | .insert => .add row.1
  | .delete => .remove row.1

/-! ### Change batches -/

section Batches

variable {batch : RecordBatch} {mask : List Bool}

theorem take_maskIndices_rows (batch : RecordBatch) (mask : List Bool) :
    (batch.take (maskIndices mask)).rows = pick mask batch.rows :=
  filterMap_zipIdx_eq_pick mask [] batch.rows

theorem take_maskIndices_logicalRows (batch : RecordBatch) (mask : List Bool) :
    (batch.take (maskIndices mask)).logicalRows = pick mask batch.logicalRows := by
  unfold logicalRows
  rw [take_maskIndices_rows, pick_map]

/-- The change rows of a batch all have the same action. -/
theorem buildCdcBatchForRows_changes {table : TableMeta} {ordinals : List ℕ} {start : ℕ}
    {txnId : TxnId} {commitTs : Timestamp} {mpId : MpId} {action : ChangeAction} {isUpdate : Bool}
    {cdc : CdcBatch}
    (h : buildCdcBatchForRows table batch ordinals start txnId commitTs mpId action isUpdate
      = .ok cdc) :
    cdc.logicalRows.map rowChange = batch.logicalRows.map (match action with
      | .insert => Change.add
      | .delete => Change.remove) := by
  obtain ⟨rfl, -⟩ := buildCdcBatchForRows_eq_ok h
  have haction : ∀ m ∈ cdc.metadata, m.action = action := by
    unfold buildCdcBatchForRows at h
    split_ifs at h
    · obtain ⟨_, h, -⟩ := except_bind_eq_ok.1 h
      cases h
    obtain ⟨seqs, -, h⟩ := except_bind_eq_ok.1 h
    unfold appendCdcMetadataColumns at h
    split_ifs at h
    have hmeta := congrArg CdcBatch.metadata (Except.ok.inj h)
    intro m hm
    rw [← hmeta] at hm
    obtain ⟨k, hk, rfl⟩ := getElem_of_mem hm
    simp
  have hlen : cdc.source.logicalRows.length ≤ cdc.metadata.length := by
    simp [logicalRows, cdc.length_eq]
  conv_rhs => rw [← map_fst_zip hlen, map_map]
  refine map_congr_left fun row hrow => ?_
  have hrow := haction _ (of_mem_zip hrow).2
  unfold rowChange
  rw [hrow]
  cases action <;> rfl

theorem concatCdc_logicalRows {a b cdc : CdcBatch} (h : concatCdc a b = .ok cdc) :
    cdc.logicalRows = a.logicalRows ++ b.logicalRows := by
  unfold concatCdc at h
  split_ifs at h
  cases h
  have hlen : a.source.logicalRows.length = a.metadata.length := by
    simp [logicalRows, a.length_eq]
  simp only [CdcBatch.logicalRows, CdcBatch.append, append, logicalRows, map_append] at hlen ⊢
  exact zip_append hlen

end Batches

/-! ### Rows that do not match -/

/-- The assignments only name columns of type Utf8. -/
def AssignsUtf8 (schema : List Field) (assignments : List (String × ResolvedExpr)) : Prop :=
  ∀ f ∈ schema, ∀ a ∈ assignments, a.1 = f.name → f.dataType = .utf8

theorem assignCell_unmatched {expr : ResolvedExpr} {c : Cell} (h : c.dataType = .utf8) :
    assignCell expr false c = c := by
  cases c with
  | int64 | float64 => cases h
  | utf8 | other => rfl

/-- An UPDATE of Utf8 columns leaves alone the rows that do not match. -/
theorem assignRow_unmatched {assignments : List (String × ResolvedExpr)} {schema : List Field}
    {row : List Cell} (ha : AssignsUtf8 schema assignments) (hrow : rowFits schema row = true) :
    assignRow schema assignments row false = row := by
  induction schema generalizing row with
  | nil =>
    cases row with
    | nil => rfl
    | cons => cases hrow
  | cons f schema ih =>
    cases row with
    | nil => cases hrow
    | cons c row =>
      obtain ⟨hc, hrow⟩ := Bool.and_eq_true_iff.1 hrow
      have hcell : c.dataType = f.dataType := by
        have := (Bool.and_eq_true_iff.1 hc).1
        simpa using this
      have hrest := ih (fun g hg => ha g (mem_cons_of_mem f hg)) hrow
      refine congrArg₂ cons ?_ hrest
      dsimp only
      split
      · next name expr heq =>
        have hname : name = f.name := by simpa using find?_some heq
        have hutf8 := ha f mem_cons_self _ (mem_of_find?_eq_some heq) hname
        exact assignCell_unmatched (hcell.trans hutf8)
      · rfl

/-! ### Statements -/

/-- The batch a statement leaves of a batch it reads, and the changes it logs. -/
def DmlStatement.rewriteBatch :
    DmlStatement → RecordBatch → Except NovaError (RecordBatch × List (Change (List Cell)))
  | .insert .., batch => .ok (batch, [])
  | .update _ _ _ assignments filter, batch => do
    let mask ← matchMask filter batch
    let modified ← applyUpdateToBatch assignments filter batch
    return (modified, (batch.take (maskIndices mask)).logicalRows.map .remove ++
      (modified.take (maskIndices mask)).logicalRows.map .add)
  | .delete _ _ _ filter, batch => do
    let mask ← matchMask filter batch
    let kept ← applyDeleteToBatch filter batch
    return (kept, (batch.take (maskIndices mask)).logicalRows.map .remove)

/-- An UPDATE only assigns columns of type Utf8. -/
def DmlStatement.AssignsUtf8 (schema : List Field) : DmlStatement → Prop
  | .update _ _ _ assignments _ => NovaCore.AssignsUtf8 schema assignments
  | _ => True

section Statements

variable {stmt : DmlStatement} {batch : RecordBatch} {p : RecordBatch × List (Change (List Cell))}
  {filter : Option ResolvedFilter} {mask : List Bool}

theorem coe_eq_pick_add {rows : List (List Cell)} (h : mask.length = rows.length) :
    (rows : Multiset (List Cell)) =
      (pick mask rows : Multiset (List Cell)) + (pick (mask.map not) rows : List (List Cell)) :=
  (Multiset.coe_eq_coe.2 (pick_append_pick_not_perm h)).symm

theorem matchMask_length_logicalRows (h : matchMask filter batch = .ok mask) :
    mask.length = batch.logicalRows.length := by
  rw [matchMask_length h]
  simp [numRows, logicalRows]

/-- A DELETE keeps the rows that its filter does not match. -/
theorem applyDeleteToBatch_eq_ok {kept : RecordBatch} (hm : matchMask filter batch = .ok mask)
    (h : applyDeleteToBatch filter batch = .ok kept) :
    kept.schema = batch.schema ∧ kept.rows = pick (mask.map not) batch.rows := by
  obtain ⟨mask', hm', h⟩ := except_bind_eq_ok.1 h
  obtain rfl := ok_unique hm hm'
  rw [← take_maskIndices_rows]
  simp only at h
  split_ifs at h with hi
  · cases h
    refine ⟨rfl, ?_⟩
    rw [hi]
    rfl
  · exact tryNewInternal_eq_ok h

/-- **The changes logged for a batch** turn its rows into those of the batch the statement
leaves. -/
theorem DmlStatement.rewriteBatch_turns (h : stmt.rewriteBatch batch = .ok p)
    (hstmt : stmt.AssignsUtf8 batch.schema) :
    Turns p.2 batch.logicalRows p.1.logicalRows ∧ p.1.schema = batch.schema := by
  cases stmt with
  | insert =>
    cases h
    exact ⟨.nil, rfl⟩
  | update db schema table assignments filter =>
    obtain ⟨mask, hm, h⟩ := except_bind_eq_ok.1 h
    obtain ⟨modified, hu, h⟩ := except_bind_eq_ok.1 h
    cases h
    obtain ⟨hschema, hcount⟩ := applyUpdateToBatch_eq_ok hu
    have hlen := matchMask_length_logicalRows hm
    have hlen' : mask.length = modified.logicalRows.length := by
      rw [matchMask_length hm, ← hcount]
      simp [numRows, logicalRows]
    -- what the filter does not match is the same before and after
    have hrest : pick (mask.map not) modified.logicalRows =
        pick (mask.map not) batch.logicalRows := by
      obtain ⟨mask', hm', hu⟩ := except_bind_eq_ok.1 hu
      obtain rfl := ok_unique hm hm'
      unfold logicalRows
      rw [pick_map, pick_map, (tryNewInternal_eq_ok hu).2, pick_not_zipWith]
      exact fun row hrow => assignRow_unmatched hstmt (batch.rows_fit row hrow)
    refine ⟨?_, hschema⟩
    rw [take_maskIndices_logicalRows, take_maskIndices_logicalRows, coe_eq_pick_add hlen,
      coe_eq_pick_add hlen', hrest]
    exact .replace _ _ _
  | delete db schema table filter =>
    obtain ⟨mask, hm, h⟩ := except_bind_eq_ok.1 h
    obtain ⟨kept, hk, h⟩ := except_bind_eq_ok.1 h
    cases h
    obtain ⟨hschema, hrows⟩ := applyDeleteToBatch_eq_ok hm hk
    refine ⟨?_, hschema⟩
    have hkept : kept.logicalRows = pick (mask.map not) batch.logicalRows := by
      unfold logicalRows
      rw [hrows, pick_map]
    rw [take_maskIndices_logicalRows, coe_eq_pick_add (matchMask_length_logicalRows hm)]
    have h := Turns.replace (pick mask batch.logicalRows) []
      (pick (mask.map not) batch.logicalRows : List (List Cell))
    simpa [hkept] using h

/-- A statement that logs nothing for any batch, because nothing matched. -/
theorem exists_matchedRows {filter : Option ResolvedFilter} {bs : List RecordBatch}
    {ps : List (RecordBatch × List (Change (List Cell)))}
    (hp : ∀ b p, stmt.rewriteBatch b = .ok p →
      ∃ mask, matchMask filter b = .ok mask ∧ (maskIndices mask = [] → p.2 = []))
    (h : List.Forall₂ (fun b p => stmt.rewriteBatch b = .ok p) bs ps) :
    ∃ n, matchedRows filter bs = .ok n ∧ (n = 0 → ps.flatMap snd = []) := by
  suffices hmasks : ∃ masks, bs.mapM (matchMask filter) = .ok masks ∧
      ((masks.map fun m => (maskIndices m).length).sum = 0 → ps.flatMap snd = []) by
    obtain ⟨masks, hm, hzero⟩ := hmasks
    refine ⟨_, ?_, hzero⟩
    unfold matchedRows
    rw [hm]
    rfl
  induction h with
  | nil => exact ⟨[], rfl, fun _ => rfl⟩
  | @cons b p bs ps hb _ ih =>
    obtain ⟨masks, hms, hzero⟩ := ih
    obtain ⟨mask, hm, hp0⟩ := hp b p hb
    refine ⟨mask :: masks, mapM_eq_ok_iff.2 (.cons hm (mapM_eq_ok_iff.1 hms)), fun hsum => ?_⟩
    rw [map_cons, sum_cons, Nat.add_eq_zero_iff] at hsum
    rw [flatMap_cons, hp0 (length_eq_zero_iff.1 hsum.1), hzero hsum.2, append_nil]

/-- Batches without rows may be left out. -/
theorem flatMap_filter_numRows (bs : List RecordBatch) :
    (bs.filter fun b => 0 < b.numRows).flatMap logicalRows =
      bs.flatMap logicalRows := by
  induction bs with
  | nil => rfl
  | cons b bs ih =>
    by_cases hb : 0 < b.numRows
    · rw [filter_cons_of_pos (by simpa using hb), flatMap_cons, flatMap_cons, ih]
    · have hrows : b.logicalRows = [] := by
        have : b.rows = [] := length_eq_zero_iff.1 (Nat.eq_zero_of_not_pos hb)
        simp [logicalRows, this]
      rw [filter_cons_of_neg (by simpa using hb), flatMap_cons, hrows, ih]
      rfl

/-- What a statement makes of a micro-partition, read off from what it makes of the batches. -/
theorem DmlStatement.rewrite_of_rewriteBatch {bs : List RecordBatch}
    {ps : List (RecordBatch × List (Change (List Cell)))}
    (h : List.Forall₂ (fun b p => stmt.rewriteBatch b = .ok p) bs ps) :
    (stmt.rewrite bs = .ok .unchanged ∧ ps.flatMap snd = []) ∨
      ∃ left, (∀ b ∈ left, b ∈ ps.map fst) ∧ left.flatMap logicalRows =
          (ps.map fst).flatMap logicalRows ∧
        (stmt.rewrite bs = .ok (.replaced left) ∨ stmt.rewrite bs = .ok .removed ∧ left = []) := by
  cases stmt with
  | insert =>
    refine .inl ⟨rfl, ?_⟩
    induction h with
    | nil => rfl
    | cons hb _ ih =>
      cases hb
      exact ih
  | update db schema table assignments filter =>
    obtain ⟨n, hn, hzero⟩ := exists_matchedRows (fun b p hb => by
      obtain ⟨mask, hm, hb⟩ := except_bind_eq_ok.1 hb
      obtain ⟨modified, -, hb⟩ := except_bind_eq_ok.1 hb
      cases hb
      exact ⟨mask, hm, fun hi => by rw [hi]; rfl⟩) h
    have hmod : bs.mapM (applyUpdateToBatch assignments filter) = .ok (ps.map fst) := by
      refine mapM_eq_ok_iff.2 (forall₂_map_right_iff.2 (h.imp fun b p hb => ?_))
      obtain ⟨mask, -, hb⟩ := except_bind_eq_ok.1 hb
      obtain ⟨modified, hu, hb⟩ := except_bind_eq_ok.1 hb
      cases hb
      exact hu
    have hrw : rewrite (.update db schema table assignments filter) bs =
        .ok (if n = 0 then .unchanged else .replaced (ps.map fst)) := by
      simp only [rewrite, hn, hmod]
      rfl
    by_cases h0 : n = 0
    · exact .inl ⟨by rw [hrw, if_pos h0], hzero h0⟩
    · exact .inr ⟨_, fun _ hb => hb, rfl, .inl (by rw [hrw, if_neg h0])⟩
  | delete db schema table filter =>
    obtain ⟨n, hn, hzero⟩ := exists_matchedRows (fun b p hb => by
      obtain ⟨mask, hm, hb⟩ := except_bind_eq_ok.1 hb
      obtain ⟨kept, -, hb⟩ := except_bind_eq_ok.1 hb
      cases hb
      exact ⟨mask, hm, fun hi => by rw [hi]; rfl⟩) h
    have hkept : bs.mapM (applyDeleteToBatch filter) = .ok (ps.map fst) := by
      refine mapM_eq_ok_iff.2 (forall₂_map_right_iff.2 (h.imp fun b p hb => ?_))
      obtain ⟨mask, -, hb⟩ := except_bind_eq_ok.1 hb
      obtain ⟨kept, hk, hb⟩ := except_bind_eq_ok.1 hb
      cases hb
      exact hk
    have hrw : rewrite (.delete db schema table filter) bs = .ok (if n = 0 then .unchanged
          else if (ps.map fst).filter (fun b => 0 < b.numRows) = [] then .removed
          else .replaced ((ps.map fst).filter fun b => 0 < b.numRows)) := by
      simp only [rewrite, hn, hkept]
      rfl
    by_cases h0 : n = 0
    · exact .inl ⟨by rw [hrw, if_pos h0], hzero h0⟩
    refine .inr ⟨_, fun _ hb => mem_of_mem_filter hb, flatMap_filter_numRows _, ?_⟩
    rw [hrw, if_neg h0]
    by_cases hnil : (ps.map fst).filter (fun b => 0 < b.numRows) = []
    · exact .inr ⟨by rw [if_pos hnil], hnil⟩
    · exact .inl (by rw [if_neg hnil])

variable {pq : Parquet} {bs : List RecordBatch}
  {ps : List (RecordBatch × List (Change (List Cell)))}

theorem rowsOf_singleton (bs : List RecordBatch) :
    rowsOf {bs} = (bs.flatMap logicalRows : List (List Cell)) :=
  Multiset.singleton_bind _ _

/-- The changes logged for the batches of a micro-partition, one batch after another. -/
theorem turns_flatMap (h : List.Forall₂ (fun b p => stmt.rewriteBatch b = .ok p) bs ps)
    (hstmt : ∀ b ∈ bs, stmt.AssignsUtf8 b.schema) :
    Turns (ps.flatMap snd) (bs.flatMap logicalRows : List (List Cell))
      ((ps.map fst).flatMap logicalRows : List (List Cell)) := by
  induction h with
  | nil => exact .nil
  | @cons b p bs ps hb _ ih =>
    have hfirst := (rewriteBatch_turns hb (hstmt b (by simp))).1
    have hrest := ih fun c hc => hstmt c (mem_cons_of_mem b hc)
    exact hfirst.add hrest

/-- **The changes logged for a micro-partition** turn its rows into those of what is read in its
place. -/
theorem DmlStatement.turns_effect (h : List.Forall₂ (fun b p => stmt.rewriteBatch b = .ok p) bs ps)
    (hstmt : ∀ b ∈ bs, stmt.AssignsUtf8 b.schema) :
    Turns (ps.flatMap snd) (rowsOf {bs}) (rowsOf (stmt.effect pq bs)) := by
  rcases rewrite_of_rewriteBatch h with ⟨hrw, hnil⟩ | ⟨left, -, hrows, hrw⟩
  · rw [effect_of_rewrite hrw, hnil]
    exact .nil
  have hleft : rowsOf (stmt.effect pq bs) =
      ((ps.map fst).flatMap logicalRows : List (List Cell)) := by
    rcases hrw with hrw | ⟨hrw, rfl⟩
    · rw [effect_of_rewrite hrw, ← hrows]
      exact (rowsOf_singleton _).trans (congrArg _ (pq.mp_rows left))
    · rw [effect_of_rewrite hrw, ← hrows]
      rfl
  rw [hleft, rowsOf_singleton]
  exact turns_flatMap h hstmt

/-- A statement keeps the schema of a micro-partition. -/
theorem DmlStatement.effect_schema (hpq : pq.KeepsSchema) {schema : List Field}
    (h : List.Forall₂ (fun b p => stmt.rewriteBatch b = .ok p) bs ps)
    (hstmt : stmt.AssignsUtf8 schema) (hbs : ∀ b ∈ bs, b.schema = schema) {bs' : List RecordBatch}
    (hmem : bs' ∈ stmt.effect pq bs) : ∀ b ∈ bs', b.schema = schema := by
  have hps : ∀ b ∈ ps.map fst, b.schema = schema := by
    intro b hb
    obtain ⟨p, hp, rfl⟩ := mem_map.1 hb
    obtain ⟨b, hb, hbp⟩ := forall₂_exists_left h hp
    have hkeep := (rewriteBatch_turns hbp ((hbs b hb).symm ▸ hstmt)).2
    exact hkeep.trans (hbs b hb)
  rcases rewrite_of_rewriteBatch h with ⟨hrw, -⟩ | ⟨left, hleft, -, hrw | ⟨hrw, -⟩⟩
  · rw [effect_of_rewrite hrw] at hmem
    obtain rfl := Multiset.mem_singleton.1 hmem
    exact hbs
  · rw [effect_of_rewrite hrw] at hmem
    obtain rfl := Multiset.mem_singleton.1 hmem
    exact hpq schema left fun b hb => hps b (hleft b hb)
  · rw [effect_of_rewrite hrw] at hmem
    exact absurd hmem (Multiset.notMem_zero _)

end Statements

end NovaCore
