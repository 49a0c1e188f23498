import NovaCore.Data.Serial
import NovaCore.Executor.Protocol

/-!
# The contents of a table, and what a commit does to them

The contents of a table are what a query reads from its active micro-partitions, one item per
micro-partition.  A statement is described by what it does to these items; the commit of an
UPDATE or DELETE whose lookups are still accurate does exactly that to the micro-partitions its
index scan returned.

## Main definitions

* `World.contents` : the contents of a table.
* `DmlStatement.effect` : what UPDATE and DELETE make of the contents of one micro-partition.
* `World.WellFormed` : what every reachable store satisfies about micro-partitions.
* `MpLog.Ready` : what is true of a store when a statement with this log commits.

## Main results

* `MpCommit.contents_insert`, `MpCommit.contents_rewrite` : the contents after a commit.
-/

namespace NovaCore

open List DmlStatement MicroPartitionMeta World
open Std.ExtTreeMap (nodup_keys)
open Prod (fst snd)

/-! ### Contents -/

@[simp] theorem MicroPartitionMeta.isActive_superseded (mp : MicroPartitionMeta)
    (new : Option MpId) :
    isActive { mp with supersededBy := new, active := false } = false := rfl

variable {k : MpId} {mp : MicroPartitionMeta} {p : MpId × MpId}
  {lookups : List (MpId × Option MicroPartitionMeta)}

namespace World

variable (w : World)

/-- What a query reads from a micro-partition, if it is active. -/
def activeContent (id : MpId) : Option (List RecordBatch) :=
  ((w.mps id).filter MicroPartitionMeta.isActive).map fun mp => (w.files mp.readPath).getD []

/-- What a query reads from the active ones of some micro-partitions. -/
def contentsOf (ids : List MpId) : Multiset (List RecordBatch) :=
  (ids.filterMap w.activeContent : List (List RecordBatch))

/-- The contents of a table. -/
def contents (t : TableId) : Multiset (List RecordBatch) :=
  w.contentsOf (w.tableMps t).keys

/-- What the store guarantees about micro-partitions: an index entry belongs to a record of that
table, records are stored under their identifier, the file of an active micro-partition exists,
and every identifier in use was handed out by `generate_id`. -/
structure WellFormed : Prop where
  indexed : ∀ t k, k ∈ w.tableMps t → ∃ mp, w.mps k = some mp ∧ mp.tableId = t
  mpId : ∀ k mp, w.mps k = some mp → mp.mpId = k
  issued : ∀ k mp, w.mps k = some mp → k ∈ w.issued
  superseded : ∀ k mp n, w.mps k = some mp → mp.supersededBy = some n → n ∈ w.issued
  supersedes : ∀ k mp n, w.mps k = some mp → mp.supersedes = some n → n ∈ w.issued
  stored : ∀ k mp, w.mps k = some mp → mp.isActive = true → w.files mp.readPath ≠ none
  files : ∀ p bs, w.files p = some bs → p.mpId ∈ w.issued

theorem WellFormed.not_mem {w : World} (hw : w.WellFormed) {t : TableId} (hk : w.mps k = none) :
    k ∉ w.tableMps t := by
  intro hmem
  obtain ⟨mp, hmp, -⟩ := hw.indexed t k hmem
  simp [hk] at hmp

theorem contentsOf_append (l1 l2 : List MpId) :
    w.contentsOf (l1 ++ l2) = w.contentsOf l1 + w.contentsOf l2 := by
  simp [contentsOf]

theorem contentsOf_perm {l1 l2 : List MpId} (h : l1.Perm l2) : w.contentsOf l1 = w.contentsOf l2 :=
  Multiset.coe_eq_coe.2 (h.filterMap _)

theorem contentsOf_congr {w w' : World} {l : List MpId} (hfiles : w'.files = w.files)
    (h : ∀ k ∈ l, w'.mps k = w.mps k) : w'.contentsOf l = w.contentsOf l := by
  unfold contentsOf
  rw [filterMap_congr fun k hk => ?_]
  unfold activeContent
  rw [h k hk, hfiles]

/-- Writing files that did not exist does not change what is read. -/
theorem contentsOf_of_files {w w' : World} (hw : w.WellFormed) (hmps : w'.mps = w.mps)
    (hfiles : ∀ p bs, w.files p = some bs → w'.files p = some bs) (l : List MpId) :
    w'.contentsOf l = w.contentsOf l := by
  unfold contentsOf
  rw [filterMap_congr fun k _ => ?_]
  unfold activeContent
  rw [hmps]
  cases hk : (w.mps k).filter isActive with
  | none => rfl
  | some mp =>
    obtain ⟨hmp, ha⟩ := Option.filter_eq_some_iff.1 hk
    obtain ⟨bs, hbs⟩ := Option.ne_none_iff_exists'.1 (hw.stored k mp hmp ha)
    rw [Option.map_some, Option.map_some, hbs, hfiles _ _ hbs]

end World

/-- The rows of the batches read from micro-partitions, with the slot values of nulls
forgotten. -/
def rowsOf (A : Multiset (List RecordBatch)) : Multiset (List Cell) :=
  A.bind fun bs => (bs.flatMap RecordBatch.logicalRows : List (List Cell))

/-! ### The effect of a statement -/

variable (pq : Parquet)

/-- What is read where `bs` was read before. -/
def Outcome.contents (bs : List RecordBatch) :
    Outcome → Multiset (List RecordBatch)
  | unchanged => {bs}
  | replaced bs' => {pq.mp bs'}
  | removed => 0

/-- What UPDATE and DELETE make of a micro-partition that reads as `bs`. -/
def DmlStatement.effect (stmt : DmlStatement) (bs : List RecordBatch) :
    Multiset (List RecordBatch) :=
  match stmt.rewrite bs with
  | .ok out => out.contents pq bs
  | .error _ => {bs}

theorem DmlStatement.effect_of_rewrite {pq : Parquet} {stmt : DmlStatement}
    {bs : List RecordBatch} {out : Outcome} (h : stmt.rewrite bs = .ok out) :
    stmt.effect pq bs = out.contents pq bs := by
  unfold effect
  rw [h]

/-- Only DELETE removes a micro-partition without a replacement. -/
theorem DmlStatement.rewrite_ne_removed {stmt : DmlStatement} {bs : List RecordBatch}
    (hstmt : stmt.isDelete = false) : stmt.rewrite bs ≠ .ok .removed := by
  intro h
  cases stmt with
  | insert => cases h
  | update db schema table assignments filter =>
    obtain ⟨n, -, h⟩ := except_bind_eq_ok.1 h
    obtain ⟨modified, -, h⟩ := except_bind_eq_ok.1 h
    by_cases hn : n = 0
    · simp [hn, pure, Except.pure] at h
    · simp [hn, pure, Except.pure] at h
  | delete => cases hstmt

/-! ### Planned commits -/

namespace Planned

variable {pq : Parquet} {stmt : DmlStatement} {t : TableId} {ts : Timestamp}
  {rs : List (MicroPartitionMeta × List RecordBatch)} {new : List MicroPartitionMeta}
  {sup : List (MpId × MpId)} {files : List (MpPath × List RecordBatch)}

section

variable (h : Planned stmt t ts rs new sup files)
include h

theorem sup_sublist : (sup.map fst).Sublist (rs.map fun r => r.1.mpId) := by
  induction h with
  | nil => exact .slnil
  | unchanged _ _ ih => simpa using ih.trans (sublist_append_left _ _)
  | replaced _ _ _ ih | removed _ _ ih =>
    rw [map_append, map_append]
    exact ih.append_right _

theorem new_sublist : (new.map mpId).Sublist (sup.map snd) := by
  induction h with
  | nil => exact .slnil
  | unchanged _ _ ih => exact ih
  | replaced _ _ _ ih =>
    rw [map_append, map_append]
    exact ih.append_right _
  | removed _ _ ih => simpa using ih.trans (sublist_append_left _ _)

/-- The committed replacements are those of the written files. -/
theorem new_files : List.Forall₂ (fun mp f => ∃ old, NewMp t ts old f.1 mp) new files := by
  induction h with
  | nil => exact .nil
  | unchanged _ _ ih | removed _ _ ih => exact ih
  | replaced _ _ hnew ih => exact rel_append ih (.cons ⟨_, hnew⟩ .nil)

/-- A replacement names the micro-partition it supersedes. -/
theorem new_supersedes (hmp : mp ∈ new) :
    ∃ old, (old, mp.mpId) ∈ sup ∧ mp.supersedes = some old := by
  induction h with
  | nil => simp at hmp
  | unchanged _ _ ih => exact ih hmp
  | replaced _ _ hnew ih =>
    rcases mem_snoc.1 hmp with hmp | rfl
    · obtain ⟨old, hold, hs⟩ := ih hmp
      exact ⟨old, mem_append_left _ hold, hs⟩
    · exact ⟨_, by simp, hnew.supersedes⟩
  | removed _ _ ih =>
    obtain ⟨old, hold, hs⟩ := ih hmp
    exact ⟨old, mem_append_left _ hold, hs⟩

/-- What UPDATE supersedes it replaces. -/
theorem exists_new (hstmt : stmt.isDelete = false) (hp : p ∈ sup) : ∃ mp ∈ new, mp.mpId = p.2 := by
  induction h with
  | nil => simp at hp
  | unchanged _ _ ih => exact ih hp
  | @replaced _ _ _ _ _ _ _ _ newMp _ _ _ ih =>
    rcases mem_append.1 hp with hp | hp
    · obtain ⟨mp, hmp, hid⟩ := ih hp
      exact ⟨mp, mem_append_left _ hmp, hid⟩
    · exact ⟨newMp, by simp, by rw [mem_singleton.1 hp]⟩
  | removed _ hrw => exact (rewrite_ne_removed hstmt hrw).elim

/-- What is left of the micro-partitions read, together with the files written, is what the
statement makes of them. -/
theorem contents (hnd : (rs.map fun r => r.1.mpId).Nodup) :
    ((rs.filterMap fun r => if r.1.mpId ∈ sup.map fst then none else some r.2 :
        List (List RecordBatch)) : Multiset (List RecordBatch)) +
      (files.map fun f => pq.mp f.2 : List (List RecordBatch)) =
    (rs.map snd : Multiset (List RecordBatch)).bind (stmt.effect pq) := by
  -- A micro-partition that is superseded is not left, and the plan leaves the earlier ones.
  have hkeep : ∀ {rs : List (MicroPartitionMeta × List RecordBatch)} {sup : List (MpId × MpId)}
      {mp : MicroPartitionMeta} {batches : List RecordBatch} (n : MpId),
      ((rs ++ [(mp, batches)]).map fun r => r.1.mpId).Nodup →
      ((rs ++ [(mp, batches)]).filterMap fun r =>
        if r.1.mpId ∈ (sup ++ [(mp.mpId, n)]).map fst then none else some r.2) =
      rs.filterMap fun r => if r.1.mpId ∈ sup.map fst then none else some r.2 := by
    intro rs sup mp batches n hnd
    rw [map_append, nodup_append] at hnd
    rw [filterMap_append, filterMap_cons, if_pos (by simp), filterMap_nil, append_nil]
    refine filterMap_congr fun r hr => ?_
    have hne : r.1.mpId ≠ mp.mpId := hnd.2.2 _ (mem_map_of_mem hr) _ (by simp)
    have hiff : r.1.mpId ∈ (sup ++ [(mp.mpId, n)]).map fst ↔ r.1.mpId ∈ sup.map fst := by
      simp [hne]
    simp only [hiff]
  induction h with
  | nil => simp
  | @unchanged rs new sup files mp batches hplan hrw ih =>
    rw [map_append, nodup_append] at hnd
    have hmp : mp.mpId ∉ sup.map fst := fun hmem =>
      hnd.2.2 _ (hplan.sup_sublist.subset hmem) _ (by simp) rfl
    have hlast : ([(mp, batches)].filterMap fun r : MicroPartitionMeta × List RecordBatch =>
        if r.1.mpId ∈ sup.map fst then none else some r.2) = [batches] := by
      rw [filterMap_cons, if_neg hmp]
      rfl
    rw [filterMap_append, hlast, ← Multiset.coe_add, add_right_comm, ih hnd.1]
    simp [effect_of_rewrite hrw, Outcome.contents, ← Multiset.coe_add]
  | replaced _ hrw _ ih =>
    rw [hkeep _ hnd, map_append, ← Multiset.coe_add, ← add_assoc]
    rw [map_append] at hnd
    simp [ih hnd.of_append_left, effect_of_rewrite hrw, Outcome.contents, ← Multiset.coe_add]
  | removed _ hrw ih =>
    rw [hkeep _ hnd]
    rw [map_append] at hnd
    simp [ih hnd.of_append_left, effect_of_rewrite hrw, Outcome.contents, ← Multiset.coe_add]

end

/-- A plan that supersedes nothing found no matching row. -/
theorem effect_of_sup_nil (h : Planned stmt t ts rs new [] files) :
    ∀ r ∈ rs, stmt.effect pq r.2 = {r.2} := by
  generalize hsup : ([] : List (MpId × MpId)) = sup at h
  induction h with
  | nil => simp
  | unchanged _ hrw ih =>
    intro r hr
    rcases mem_snoc.1 hr with hr | rfl
    · exact ih hsup r hr
    · rw [effect_of_rewrite hrw]
      rfl
  | replaced | removed => simp at hsup

end Planned

/-! ### Commits -/

/-- What is true of the store when a statement with log `s` commits: the identifiers it generated
are not in use, the files it wrote and read are still there, and the micro-partitions it scanned
are still indexed. -/
structure MpLog.Ready (w : World) (s : MpLog) : Prop where
  ids_nodup : s.ids.Nodup
  ids_unused : ∀ n ∈ s.ids, w.mps n = none
  files : ∀ f ∈ s.files, w.files f.1 = some (pq.mp f.2)
  scanned : ∀ t ids, s.scan = some (t, ids) → ids.Nodup ∧ ∀ k ∈ ids, k ∈ w.tableMps t
  lookup_id : ∀ k mp, (k, some mp) ∈ s.lookups → mp.mpId = k
  reads : ∀ r ∈ s.reads, w.files r.1 = some r.2

/-- Every looked-up record is still the stored one. -/
def MpLog.Accurate (w : World) (s : MpLog) : Prop :=
  ∀ x ∈ s.lookups, w.mps x.1 = x.2

theorem mem_activeOf :
    mp ∈ activeOf lookups ↔ mp.isActive = true ∧ ∃ k, (k, some mp) ∈ lookups := by
  simp only [activeOf, mem_flatMap, Option.mem_toList, Prod.exists, Option.filter_eq_some_iff]
  constructor
  · rintro ⟨k, _, hmem, rfl, ha⟩
    exact ⟨ha, k, hmem⟩
  · rintro ⟨ha, k, hmem⟩
    exact ⟨k, _, hmem, rfl, ha⟩

theorem activeOf_cons (x : MpId × Option MicroPartitionMeta) : activeOf (x :: lookups) =
      (x.2.filter isActive).toList ++ activeOf lookups := by
  simp [activeOf]

/-- What the active ones among looked-up micro-partitions contribute. -/
theorem filterMap_lookups {C : Type} {g : MpId → Option C} {G : MicroPartitionMeta → Option C}
    (h : ∀ x ∈ lookups, g x.1 = (x.2.filter isActive).bind G) :
    (lookups.map fst).filterMap g = (activeOf lookups).filterMap G := by
  induction lookups with
  | nil => rfl
  | cons x lookups ih =>
    have ih := ih fun y hy => h y (by simp [hy])
    have hx := h x (by simp)
    rw [map_cons, filterMap_cons, activeOf_cons, filterMap_append, ← ih, hx]
    cases x.2.filter isActive with
    | none => simp
    | some mp => cases hG : G mp <;> simp [hG]

/-- The identifiers of the active ones among looked-up micro-partitions. -/
theorem activeOf_sublist (h : ∀ k mp, (k, some mp) ∈ lookups → mp.mpId = k) :
    ((activeOf lookups).map mpId).Sublist (lookups.map fst) := by
  induction lookups with
  | nil => exact .slnil
  | cons x lookups ih =>
    obtain ⟨k, r⟩ := x
    have ih := ih fun k mp hmem => h k mp (by simp [hmem])
    rw [activeOf_cons]
    cases hr : r.filter isActive with
    | none => exact ih.cons _
    | some mp =>
      obtain ⟨rfl, -⟩ := Option.filter_eq_some_iff.1 hr
      rw [← h k mp (by simp)]
      exact ih.cons_cons _

/-- What related micro-partitions and files contribute. -/
theorem filterMap_new {R : MicroPartitionMeta → MpPath × List RecordBatch → Prop} {C : Type}
    {new : List MicroPartitionMeta} {files : List (MpPath × List RecordBatch)}
    {g : MpId → Option C} {G : MpPath × List RecordBatch → C} (h : List.Forall₂ R new files)
    (hg : ∀ mp f, mp ∈ new → f ∈ files → R mp f → g mp.mpId = some (G f)) :
    (new.map mpId).filterMap g = files.map G := by
  induction h with
  | nil => rfl
  | @cons mp f new files hmf _ ih =>
    rw [map_cons, filterMap_cons, hg mp f (by simp) (by simp) hmf, map_cons,
      ih fun mp' f' hmp hf => hg mp' f' (mem_cons_of_mem _ hmp) (mem_cons_of_mem _ hf)]

namespace MpCommit

variable {pq : Parquet} {fmt : TextFormat} {s : MpLog} {t : TableId} {stmt : DmlStatement}
  {new : List MicroPartitionMeta} {sup : List (MpId × MpId)} {w w' : World}
  {records : List ChangeRecordMeta}

/-- What a statement reads are different micro-partitions. -/
theorem read_nodup {ids : List MpId} {rs : List (MicroPartitionMeta × List RecordBatch)}
    (hr : s.Ready pq w) (hscan : s.scan = some (t, ids)) (hl : s.lookups.map fst = ids)
    (hrs : rs.map fst = activeOf s.lookups) : (rs.map fun r => r.1.mpId).Nodup := by
  have hmap : rs.map (fun r => r.1.mpId) = (activeOf s.lookups).map mpId := by
    rw [← hrs, map_map]
    rfl
  rw [hmap]
  exact ((hr.scanned t ids hscan).1).sublist (hl ▸ activeOf_sublist hr.lookup_id)

section

variable (h : MpCommit fmt s t stmt new sup)
include h

/-- A statement commits to the table it found. -/
theorem table_eq : s.table.map TableMeta.id = some t := by
  cases h with
  | insert hm ht | rewrite hm ht => simp [hm, ht]

/-- An INSERT scans and supersedes nothing. -/
theorem of_insert (hins : stmt.isInsert = true) : s.scan = none ∧ sup = [] := by
  cases h with
  | insert _ _ _ hscan => exact ⟨hscan, rfl⟩
  | rewrite _ _ hne =>
    cases stmt with
    | insert db schema table values => exact (hne _ _ _ _ rfl).elim
    | _ => cases hins

theorem scan_of_rewrite (hins : stmt.isInsert = false) : ∃ ids, s.scan = some (t, ids) := by
  cases h with
  | insert => cases hins
  | rewrite _ _ _ hscan => exact ⟨_, hscan⟩

/-- A committed micro-partition was written by the statement and carries its commit time. -/
theorem new_spec (hmp : mp ∈ new) :
    mp.mpId ∈ s.ids ∧ ∃ path bs old ts, (path, bs) ∈ s.files ∧ s.clock = some ts ∧
      NewMp t ts old path mp := by
  cases h with
  | @insert _ _ _ _ _ batch path _ ts _ _ _ _ hids hfiles hts hnew =>
    obtain rfl := mem_singleton.1 hmp
    exact ⟨by simp [hids, hnew.mpId], path, [batch], none, ts, by simp [hfiles], hts, hnew⟩
  | rewrite hm ht hne hscan hl hrs hreads hts hplan hids =>
    refine ⟨hids ▸ hplan.new_sublist.subset (mem_map_of_mem hmp), ?_⟩
    obtain ⟨f, hf, old, hnew⟩ := forall₂_exists_left hplan.new_files.flip hmp
    exact ⟨f.1, f.2, old, _, hf, hts, hnew⟩

theorem new_isActive (hmp : mp ∈ new) : mp.tableId = t ∧ mp.isActive = true := by
  obtain ⟨-, _, _, _, _, -, -, hnew⟩ := h.new_spec hmp
  exact ⟨hnew.tableId, hnew.isActive⟩

/-- The index of another table is as before. -/
theorem mem_tableMps_other (he : w.CommitEffect w' new sup records) {u : TableId} (hu : u ≠ t) :
    k ∈ w'.tableMps u ↔ k ∈ w.tableMps u := by
  rw [he.mem_tableMps]
  refine or_iff_left ?_
  rintro ⟨mp, hmp, hmt, -⟩
  exact hu (hmt.symm.trans (h.new_isActive hmp).1)

/-- What a statement commits carries the last time it read. -/
theorem exists_clock : ∃ ts, s.clock = some ts ∧ ∀ mp ∈ new, mp.commitTs = ts := by
  obtain ⟨ts, hts⟩ : ∃ ts, s.clock = some ts := by
    cases h with
    | insert _ _ _ _ _ _ hts | rewrite _ _ _ _ _ _ _ hts => exact ⟨_, hts⟩
  refine ⟨ts, hts, fun mp hmp => ?_⟩
  obtain ⟨-, _, _, _, ts', -, hts', hnew⟩ := h.new_spec hmp
  rw [hnew.commitTs]
  exact Option.mem_unique hts' hts

/-- A statement that supersedes nothing commits a micro-partition only if it is an INSERT. -/
theorem new_ne_nil_iff (hsup : sup = []) : new ≠ [] ↔ stmt.isInsert = true := by
  cases h with
  | insert => simp [isInsert]
  | rewrite _ _ hne _ _ _ _ _ hplan _ =>
    have hnil : new = [] := by
      have hsub := hplan.new_sublist
      rw [hsup] at hsub
      simpa using hsub
    cases stmt with
    | insert db schema table values => exact (hne _ _ _ _ rfl).elim
    | _ => simp [hnil, isInsert]

theorem new_nodup (hr : s.Ready pq w) : (new.map mpId).Nodup := by
  cases h with
  | insert => simp
  | rewrite hm ht hne hscan hl hrs hreads hts hplan hids =>
    exact (hids ▸ hr.ids_nodup).sublist hplan.new_sublist

/-- A committed micro-partition that names the one it replaces supersedes it. -/
theorem new_supersedes {old : MpId} (hmp : mp ∈ new)
    (hold : mp.supersedes = some old) : (old, mp.mpId) ∈ sup := by
  cases h with
  | insert _ _ _ _ _ _ _ hnew =>
    obtain rfl := mem_singleton.1 hmp
    simp [hnew.supersedes] at hold
  | rewrite _ _ _ _ _ _ _ _ hplan _ =>
    obtain ⟨old', hsup, hs⟩ := hplan.new_supersedes hmp
    obtain rfl : old' = old := Option.mem_unique hs hold
    exact hsup

theorem exists_new (hstmt : stmt.isDelete = false) (hp : p ∈ sup) : ∃ mp ∈ new, mp.mpId = p.2 := by
  cases h with
  | insert => simp at hp
  | rewrite _ _ _ _ _ _ _ _ hplan _ => exact hplan.exists_new hstmt hp

/-- A superseded micro-partition is one that the statement scanned and found active; what
supersedes it is an identifier the statement generated. -/
theorem sup_spec (hlookup : ∀ k mp, (k, some mp) ∈ s.lookups → mp.mpId = k) (hp : p ∈ sup) :
    p.2 ∈ s.ids ∧ ∃ ids mp, s.scan = some (t, ids) ∧ p.1 ∈ ids ∧
      (p.1, some mp) ∈ s.lookups ∧ mp.isActive = true := by
  cases h with
  | insert => simp at hp
  | @rewrite _ _ ids _ _ _ _ hm ht hne hscan hl hrs hreads hts hplan hids =>
    refine ⟨hids ▸ mem_map_of_mem hp, ids, ?_⟩
    obtain ⟨r, hrmem, he⟩ := mem_map.1 (hplan.sup_sublist.subset (mem_map_of_mem hp))
    have hact : r.1 ∈ activeOf s.lookups := hrs ▸ mem_map_of_mem hrmem
    obtain ⟨ha, k, hk⟩ := mem_activeOf.1 hact
    have hid : p.1 = k := he.symm.trans (hlookup k r.1 hk)
    refine ⟨r.1, hscan, ?_, hid ▸ hk, ha⟩
    rw [hid, ← hl]
    exact mem_map_of_mem hk

theorem sup_nodup (hr : s.Ready pq w) : (sup.map fst).Nodup := by
  cases h with
  | insert => simp
  | rewrite hm ht hne hscan hl hrs hreads hts hplan hids =>
    exact (read_nodup hr hscan hl hrs).sublist hplan.sup_sublist

/-- A superseded micro-partition is indexed under the table of the statement. -/
theorem mem_tableMps_of_mem_sup (hr : s.Ready pq w) (hp : p ∈ sup) : p.1 ∈ w.tableMps t := by
  obtain ⟨-, ids, -, hscan, hin, -⟩ := h.sup_spec hr.lookup_id hp
  exact (hr.scanned t ids hscan).2 _ hin

end

section

variable (hw : w.WellFormed) (hr : s.Ready pq w) (hc : MpCommit fmt s t stmt new sup)
  (he : w.CommitEffect w' new sup records)

include hr hc he

/-- A record that was there before and is not superseded stays as it is. -/
theorem mps_of_ne_none (hk : w.mps k ≠ none) (hsup : k ∉ sup.map fst) :
    w'.mps k = w.mps k := by
  refine he.mps_of_not_mem (fun mp hmp heq => hk ?_) fun p hp heq => hsup ?_
  · exact heq ▸ hr.ids_unused _ (hc.new_spec hmp).1
  · exact mem_map.2 ⟨p, hp, heq⟩

include hw

omit he in
/-- Superseded micro-partitions belong to the table of the statement. -/
theorem not_mem_sup {u : TableId} (hu : u ≠ t) (hk : k ∈ w.tableMps u) : k ∉ sup.map fst := by
  intro hmem
  obtain ⟨p, hp, rfl⟩ := mem_map.1 hmem
  obtain ⟨m1, hm1, hu1⟩ := hw.indexed u _ hk
  obtain ⟨m2, hm2, ht2⟩ := hw.indexed t _ (hc.mem_tableMps_of_mem_sup hr hp)
  obtain rfl : m1 = m2 := Option.mem_unique hm1 hm2
  exact hu (hu1.symm.trans ht2)

theorem contentsOf_of_not_mem {l : List MpId} {u : TableId} (hl : ∀ k ∈ l, k ∈ w.tableMps u)
    (hsup : ∀ k ∈ l, k ∉ sup.map fst) : w'.contentsOf l = w.contentsOf l := by
  refine contentsOf_congr he.files fun k hk => ?_
  refine mps_of_ne_none hr hc he ?_ (hsup k hk)
  obtain ⟨mp, hmp, -⟩ := hw.indexed u k (hl k hk)
  simp [hmp]

theorem contents_other {u : TableId} (hu : u ≠ t) : w'.contents u = w.contents u := by
  have hkeys : (w'.tableMps u).keys.Perm (w.tableMps u).keys := by
    refine (perm_ext_iff_of_nodup nodup_keys nodup_keys).2 ?_
    intro k
    rw [Std.ExtTreeMap.mem_keys, Std.ExtTreeMap.mem_keys, hc.mem_tableMps_other he hu]
  unfold contents
  rw [contentsOf_perm w' hkeys]
  have hmem : ∀ k ∈ (w.tableMps u).keys, k ∈ w.tableMps u := fun k hk =>
    Std.ExtTreeMap.mem_keys.1 hk
  exact contentsOf_of_not_mem hw hr hc he hmem fun k hk => not_mem_sup hw hr hc hu (hmem k hk)

/-- The index after a commit. -/
theorem keys_perm : (w'.tableMps t).keys.Perm
    ((w.tableMps t).keys ++ new.map mpId) := by
  have hfresh : ∀ mp ∈ new, mp.mpId ∉ w.tableMps t := fun mp hmp =>
    hw.not_mem (hr.ids_unused _ (hc.new_spec hmp).1)
  refine (perm_ext_iff_of_nodup nodup_keys ?_).2 ?_
  · refine nodup_keys.append (hc.new_nodup hr) ?_
    intro k hk hnew
    obtain ⟨mp, hmp, rfl⟩ := mem_map.1 hnew
    exact hfresh mp hmp (Std.ExtTreeMap.mem_keys.1 hk)
  · intro k
    rw [mem_append, Std.ExtTreeMap.mem_keys, Std.ExtTreeMap.mem_keys, he.mem_tableMps, mem_map]
    refine or_congr_right (exists_congr fun mp => and_congr_right fun hmp => and_iff_right ?_)
    exact (hc.new_isActive hmp).1

/-- A committed micro-partition is stored as it was written. -/
theorem mps_of_mem_new (hmp : mp ∈ new) : w'.mps mp.mpId = some mp := by
  refine he.mps_new hmp (hc.new_nodup hr) fun p hp heq => ?_
  have hunused := hr.ids_unused _ (hc.new_spec hmp).1
  exact hw.not_mem (heq ▸ hunused) (hc.mem_tableMps_of_mem_sup hr hp)

/-- A superseded micro-partition only changes in being superseded. -/
theorem mps_of_mem_sup (hp : p ∈ sup) : ∃ mp, w.mps p.1 = some mp ∧
    w'.mps p.1 = some { mp with supersededBy := some p.2, active := false } := by
  refine he.mps_superseded hp (hc.sup_nodup hr) fun mp hmp heq => ?_
  have hunused := hr.ids_unused _ (hc.new_spec hmp).1
  exact hw.not_mem (heq ▸ hunused) (hc.mem_tableMps_of_mem_sup hr hp)

/-- **The records after a commit** are the new ones, the superseded ones, and those from before
that are neither. -/
theorem mps_cases {m : MicroPartitionMeta} (hm : w'.mps k = some m) : (m ∈ new ∧ m.mpId = k) ∨
    (∃ n mp, (k, n) ∈ sup ∧ w.mps k = some mp ∧
      m = { mp with supersededBy := some n, active := false }) ∨
    (k ∉ sup.map fst ∧ w.mps k = some m) := by
  by_cases hnew : ∃ mp ∈ new, mp.mpId = k
  · obtain ⟨mp, hmp, rfl⟩ := hnew
    rw [mps_of_mem_new hw hr hc he hmp] at hm
    exact .inl (Option.some.inj hm ▸ ⟨hmp, rfl⟩)
  by_cases hsup : k ∈ sup.map fst
  · obtain ⟨p, hp, rfl⟩ := mem_map.1 hsup
    obtain ⟨mp, hmp, hmp'⟩ := mps_of_mem_sup hw hr hc he hp
    exact .inr (.inl ⟨p.2, mp, hp, hmp, Option.mem_unique hm hmp'⟩)
  · have hkeep : w'.mps k = w.mps k := he.mps_of_not_mem (fun mp hmp heq => hnew ⟨mp, hmp, heq⟩)
        fun p hp heq => hsup (mem_map.2 ⟨p, hp, heq⟩)
    exact .inr (.inr ⟨hsup, hkeep.symm.trans hm⟩)

/-- **INSERT adds one micro-partition.** -/
theorem contents_insert {batch : RecordBatch} {path : MpPath}
    (hsup : sup = []) (hfiles : s.files = [(path, [batch])])
    (hnew : ∃ mp, new = [mp] ∧ mp.readPath = path ∧ mp.isActive = true) :
    w'.contents t = w.contents t + {pq.mp [batch]} := by
  obtain ⟨mp, rfl, hpath, hact⟩ := hnew
  have hkeep : w'.contentsOf (w.tableMps t).keys = w.contents t :=
    contentsOf_of_not_mem hw hr hc he (fun k hk => Std.ExtTreeMap.mem_keys.1 hk)
      fun k _ => by simp [hsup]
  have hfile : w.files path = some (pq.mp [batch]) := hr.files (path, [batch]) (by simp [hfiles])
  have hmp : w'.activeContent mp.mpId = some (pq.mp [batch]) := by
    unfold activeContent
    rw [mps_of_mem_new hw hr hc he (by simp), he.files, Option.filter_some_pos hact,
      Option.map_some, hpath, hfile]
    rfl
  calc w'.contents t = w'.contentsOf ((w.tableMps t).keys ++ [mp.mpId]) :=
        w'.contentsOf_perm (keys_perm hw hr hc he)
    _ = w.contents t + {pq.mp [batch]} := by
        rw [contentsOf_append, hkeep]
        simp [contentsOf, hmp]

end

section

variable {ids : List MpId} {rs : List (MicroPartitionMeta × List RecordBatch)}
  (hl : s.lookups.map Prod.fst = ids) (hrs : rs.map Prod.fst = activeOf s.lookups)
  (hreads : s.reads = rs.map fun r => (r.1.readPath, r.2))

include hl hrs hreads

/-- What an accurate statement read are the contents of the micro-partitions it scanned. -/
theorem contentsOf_scanned (hr : s.Ready pq w) (hacc : s.Accurate w) :
    w.contentsOf ids = (rs.map snd : List (List RecordBatch)) := by
  unfold contentsOf
  rw [← hl, filterMap_lookups (G := fun mp => some ((w.files mp.readPath).getD [])), ← hrs,
    filterMap_map]
  · congr 1
    rw [← filterMap_eq_map]
    refine filterMap_congr fun r hmem => ?_
    have hfile : w.files r.1.readPath = some r.2 :=
      hr.reads (r.1.readPath, r.2) (hreads ▸ mem_map.2 ⟨r, hmem, rfl⟩)
    simp [hfile]
  · intro x hx
    unfold activeContent
    rw [hacc x hx]
    cases x.2.filter isActive <;> rfl

/-- After the commit only those that were not superseded are left of them. -/
theorem contentsOf_scanned_commit (hw : w.WellFormed) (hr : s.Ready pq w)
    (hc : MpCommit fmt s t stmt new sup) (he : w.CommitEffect w' new sup records)
    (hscan : s.scan = some (t, ids)) (hacc : s.Accurate w) :
    w'.contentsOf ids =
      (rs.filterMap fun r => if r.1.mpId ∈ sup.map fst then none else some r.2 :
        List (List RecordBatch)) := by
  unfold contentsOf
  rw [← hl, filterMap_lookups (G := fun mp => if mp.mpId ∈ sup.map fst then none
    else some ((w.files mp.readPath).getD [])), ← hrs, filterMap_map]
  · congr 1
    refine filterMap_congr fun r hmem => ?_
    have hfile : w.files r.1.readPath = some r.2 :=
      hr.reads (r.1.readPath, r.2) (hreads ▸ mem_map.2 ⟨r, hmem, rfl⟩)
    simp [hfile]
  · rintro ⟨k, r⟩ hx
    have hk : k ∈ w.tableMps t := (hr.scanned t ids hscan).2 k (hl ▸ mem_map_of_mem hx)
    obtain ⟨mp, hmp, -⟩ := hw.indexed t k hk
    obtain rfl : some mp = r := hmp.symm.trans (hacc (k, r) hx)
    have hid : mp.mpId = k := hw.mpId k mp hmp
    unfold activeContent
    by_cases hsup : k ∈ sup.map fst
    · -- Superseded by this very commit: no longer active.
      obtain ⟨p, hp, rfl⟩ := mem_map.1 hsup
      obtain ⟨mp', -, hmp'⟩ := mps_of_mem_sup hw hr hc he hp
      rw [hmp']
      cases ha : mp.isActive <;> simp [Option.filter, ha, hid, hsup]
    · rw [mps_of_ne_none hr hc he (by simp [hmp]) hsup, he.files, hmp]
      cases ha : mp.isActive <;> simp [Option.filter, ha, hid, hsup]

end

/-- **UPDATE and DELETE rewrite what they scanned**: the contents of the micro-partitions of the
index scan are replaced by what the statement makes of them, and everything else is left alone. -/
theorem contents_rewrite {ids : List MpId} (hw : w.WellFormed) (hr : s.Ready pq w)
    (hc : MpCommit fmt s t stmt new sup) (he : w.CommitEffect w' new sup records)
    (hscan : s.scan = some (t, ids)) (hacc : s.Accurate w) :
    ∃ rest, w.contents t = w.contentsOf ids + rest ∧
      w'.contents t = (w.contentsOf ids).bind (stmt.effect pq) + rest ∧
      (sup = [] → ∀ c ∈ w.contentsOf ids, stmt.effect pq c = {c}) := by
  cases hc with
  | insert _ _ _ hnone => simp [hnone] at hscan
  | @rewrite _ _ ids' rs ts _ _ hm ht hne hscan' hl hrs hreads hts hplan hids =>
    obtain rfl : ids' = ids := by simpa using hscan'.symm.trans hscan
    have hc : MpCommit fmt s t stmt new sup :=
      .rewrite hm ht hne hscan' hl hrs hreads hts hplan hids
    obtain ⟨hnd, hindexed⟩ := hr.scanned t ids' hscan
    have hbefore := contentsOf_scanned hl hrs hreads hr hacc
    have hafter := contentsOf_scanned_commit hl hrs hreads hw hr hc he hscan hacc
    -- The index consists of what was scanned and what was added since.
    have hkeys : (w.tableMps t).keys.Perm
        (ids' ++ (w.tableMps t).keys.filter fun k => k ∉ ids') := by
      refine (perm_ext_iff_of_nodup nodup_keys ?_).2 fun k => ?_
      · refine hnd.append (nodup_keys.filter _) fun k hk hk' => ?_
        simp [hk] at hk'
      · by_cases hk : k ∈ ids'
        · simp [hk, Std.ExtTreeMap.mem_keys, hindexed k hk]
        · simp [hk]
    have hrest : w'.contentsOf ((w.tableMps t).keys.filter fun k => k ∉ ids') =
        w.contentsOf ((w.tableMps t).keys.filter fun k => k ∉ ids') := by
      refine contentsOf_of_not_mem (u := t) hw hr hc he (fun k hk => ?_) fun k hk hsup => ?_
      · exact Std.ExtTreeMap.mem_keys.1 (mem_of_mem_filter hk)
      · obtain ⟨p, hp, rfl⟩ := mem_map.1 hsup
        obtain ⟨-, ids, -, hscan'', hin, -⟩ := hc.sup_spec hr.lookup_id hp
        obtain rfl : ids = ids' := by simpa using hscan''.symm.trans hscan
        simp [hin] at hk
    have hnew : w'.contentsOf (new.map mpId) =
        (s.files.map fun f => pq.mp f.2 : List (List RecordBatch)) := by
      refine congrArg _ (filterMap_new hplan.new_files fun mp f hmp hf hmf => ?_)
      obtain ⟨old, hmf⟩ := hmf
      unfold activeContent
      rw [mps_of_mem_new hw hr hc he hmp, Option.filter_some_pos hmf.isActive, Option.map_some,
        he.files, hmf.readPath, hr.files f hf]
      rfl
    refine ⟨w.contentsOf ((w.tableMps t).keys.filter fun k => k ∉ ids'), ?_, ?_, ?_⟩
    · rw [← contentsOf_append]
      exact w.contentsOf_perm hkeys
    · calc w'.contents t = w'.contentsOf (w.tableMps t).keys + w'.contentsOf (new.map mpId) := by
            rw [← contentsOf_append]
            exact w'.contentsOf_perm (keys_perm hw hr hc he)
        _ = w'.contentsOf ids' + w'.contentsOf (new.map mpId) +
              w'.contentsOf ((w.tableMps t).keys.filter fun k => k ∉ ids') := by
            rw [w'.contentsOf_perm hkeys, contentsOf_append, add_right_comm]
        _ = _ := by
            rw [hafter, hnew, hplan.contents (read_nodup hr hscan hl hrs), hrest, hbefore]
    · rintro rfl c hmem
      rw [hbefore] at hmem
      obtain ⟨r, hrmem, rfl⟩ := mem_map.1 (Multiset.mem_coe.1 hmem)
      exact hplan.effect_of_sup_nil r hrmem

end MpCommit

end NovaCore
