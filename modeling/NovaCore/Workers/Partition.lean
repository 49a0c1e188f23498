import Mathlib.Data.List.Flatten
import NovaCore.Workers.Fragment
import NovaCore.Workers.Identity

/-!
# Placing micro-partitions on workers

`distribute_scan` deals micro-partitions out to the workers in turn; `distribute_shuffle` and
`distribute_colocated` choose the worker by the partition.  All of them fill one bucket for each
worker id and number the fragments on.

## Main definitions

* `distributeScan`, `distributeShuffle`, `distributeColocated` : the calls.
* `distributeAll` : a sequence of calls on one dispatcher.
* `Partitions` : what the fragments of one call are, with the tables sent along with them.
* `Issued` : what holds of all fragments a dispatcher has handed out.

## Main results

* `distributeAll_partitions` : **every call partitions** its micro-partitions.
-/

namespace NovaCore.Workers

open List WorkerInfo Nat
open Prod (fst snd)

/-! ### The calls -/

/-- `QueryFragment`. -/
structure QueryFragment where
  fragmentId : ℕ
  workerId : ℕ
  mpIds : List MpId
  deriving DecidableEq

/-- `worker_mps.entry(worker_id).or_default().push(mp_id)` on a map in key order. -/
def pushMp (workerId : ℕ) (mp : MpId) : List (ℕ × List MpId) → List (ℕ × List MpId)
  | [] => [(workerId, [mp])]
  | (w, mps) :: rest =>
    if workerId < w then (workerId, [mp]) :: (w, mps) :: rest
    else if workerId = w then (w, mps ++ [mp]) :: rest
    else (w, mps) :: pushMp workerId mp rest

/-- `fragments_from_buckets`, which counts `next_fragment_id` up from `next`. -/
def fragmentsFromBuckets (next : ℕ) :
    List (ℕ × List MpId) → Except NovaError (ℕ × List QueryFragment)
  | [] => .ok (next, [])
  | (workerId, mpIds) :: buckets => do
    let following ← checkedAdd next 1
    let r ← fragmentsFromBuckets following buckets
    pure (r.1, ⟨next, workerId, mpIds⟩ :: r.2)

/-- `distribute_scan`, whose last loop is the one of `fragments_from_buckets`. -/
def distributeScan (workers : List WorkerInfo) (next : ℕ) (mps : List MpId) :
    Except NovaError (ℕ × List QueryFragment) :=
  if workers.isEmpty || mps.isEmpty then .ok (next, [])
  else fragmentsFromBuckets next (mps.zipIdx.foldl (fun m (mp, i) =>
    pushMp ((workers[i % workers.length]?).elim 0 WorkerInfo.workerId) mp m) [])

/-- `tables_for_fragment`. -/
def tablesForFragment (partitioned : String) (tables : List TableSnapshot)
    (fragment : QueryFragment) : List TableSnapshot :=
  tables.map fun t =>
    if t.tableName = partitioned then
      { t with mps := t.mps.filter fun mp => mp.mpId ∈ fragment.mpIds }
    else t

/-- What the dispatcher reads of a `MicroPartitionMeta`. -/
structure MpRef where
  mpId : MpId
  partitionId : Option ℕ

/-- `stable_hash_u64`: FNV-1a over the bytes of the seed and of the value. -/
def stableHashU64 (seed : String) (value : ℕ) : ℕ :=
  (seed.toUTF8.data.toList.map UInt8.toNat ++ (List.range 8).map fun i =>
    value / 256 ^ i % 256).foldl
    (fun hash b => (hash ^^^ b) * 0x100000001b3 % 2 ^ 64) 0xcbf29ce484222325

/-- The worker at an index. -/
def workerAt (workers : List WorkerInfo) (i : ℕ) : ℕ :=
  (workers[i % workers.length]?).elim 0 WorkerInfo.workerId

/-- The buckets of the workers, by the index of each element, and `fragments_from_buckets`. -/
def distributeBy {α : Type} (place : α → ℕ) (idOf : α → MpId) (workers : List WorkerInfo)
    (next : ℕ) (xs : List α) : Except NovaError (ℕ × List QueryFragment) :=
  if workers.isEmpty || xs.isEmpty then .ok (next, [])
  else fragmentsFromBuckets next
    (xs.foldl (fun m x => pushMp (workerAt workers (place x)) (idOf x) m) [])

/-- `distribute_shuffle`. -/
def distributeShuffle (joinKeyCol : String) :
    List WorkerInfo → ℕ → List MpRef → Except NovaError (ℕ × List QueryFragment) :=
  distributeBy (fun mp => stableHashU64 joinKeyCol (mp.partitionId.getD mp.mpId)) MpRef.mpId

/-- `distribute_colocated`. -/
def distributeColocated :
    List WorkerInfo → ℕ → List MpRef → Except NovaError (ℕ × List QueryFragment) :=
  distributeBy (fun mp => mp.partitionId.getD mp.mpId) MpRef.mpId

/-- A call on a dispatcher. -/
inductive DistributeCall
  | scan (mps : List MpRef)
  | shuffle (joinKeyCol : String) (mps : List MpRef)
  | colocated (mps : List MpRef)

/-- The micro-partitions of a call. -/
def DistributeCall.mps : DistributeCall → List MpRef
  | .scan mps | .shuffle _ mps | .colocated mps => mps

variable (workers : List WorkerInfo) (next : ℕ)

/-- The next fragment id and the fragments that a call returns. -/
def DistributeCall.run : DistributeCall → Except NovaError (ℕ × List QueryFragment)
  | .scan mps => distributeScan workers next (mps.map MpRef.mpId)
  | .shuffle joinKeyCol mps => distributeShuffle joinKeyCol workers next mps
  | .colocated mps => distributeColocated workers next mps

/-- A sequence of calls: the next fragment id and the fragments of each call. -/
def distributeAll : ℕ → List DistributeCall → Except NovaError (ℕ × List (List QueryFragment))
  | next, [] => .ok (next, [])
  | next, c :: calls => do
    let fs ← c.run workers next
    let r ← distributeAll fs.1 calls
    pure (r.1, fs.2 :: r.2)

/-- The fragments `fs` of a call partition its micro-partitions. -/
structure Partitions (c : DistributeCall) (fs : List QueryFragment) : Prop where
  /-- One fragment for each worker. -/
  oneEach : (fs.map QueryFragment.workerId).Nodup
  /-- Every micro-partition is in one fragment. -/
  covers : (fs.flatMap QueryFragment.mpIds).Perm (c.mps.map MpRef.mpId)
  /-- The micro-partitions of one partition are on one worker. -/
  together : (∀ mps, c ≠ .scan mps) → ∀ x ∈ c.mps, ∀ y ∈ c.mps, x.partitionId.isSome →
    x.partitionId = y.partitionId → ∀ f ∈ fs, ∀ g ∈ fs, x.mpId ∈ f.mpIds → y.mpId ∈ g.mpIds →
    f.workerId = g.workerId
  /-- The partitioned table is split, in order, and the others are sent as they are. -/
  tables : ∀ name tables (i : ℕ) t, tables[i]? = some t → ∃ parts : List TableSnapshot,
    fs.map (fun f => (tablesForFragment name tables f)[i]?) = parts.map some ∧
    (t.tableName ≠ name → ∀ p ∈ parts, p = t) ∧
    (t.tableName = name → t.mps.Nodup → (∀ mp ∈ t.mps, mp.mpId ∈ c.mps.map MpRef.mpId) →
      (∀ p ∈ parts, p.tableName = name ∧ p.mps.Sublist t.mps) ∧
      (parts.flatMap TableSnapshot.mps).Perm t.mps)

/-- The fragments a dispatcher has handed out: they are on its own workers, and their ids are
distinct and were counted up to `next`. -/
structure Issued (fs : List QueryFragment) : Prop where
  workers : ∀ f ∈ fs, f.workerId ∈ workers.map WorkerInfo.workerId
  nodup : (fs.map QueryFragment.fragmentId).Nodup
  lt : ∀ f ∈ fs, f.fragmentId < next

/-! ### Buckets -/

/-- The fragments that are made of buckets, and the next fragment id. -/
structure Dealt (ids : List MpId) (r : ℕ × List QueryFragment) : Prop where
  counted : r.1 = next + r.2.length
  fragmentIds : r.2.map QueryFragment.fragmentId = List.range' next r.2.length
  workers : ∀ f ∈ r.2, f.workerId ∈ workers.map WorkerInfo.workerId
  oneEach : (r.2.map QueryFragment.workerId).Nodup
  covers : (r.2.flatMap QueryFragment.mpIds).Perm ids

variable {workers next} {α : Type} {m : List (ℕ × List MpId)} {w : ℕ} {mp : MpId}

/-- The micro-partitions of a map from workers to micro-partitions grow by the one pushed. -/
theorem pushMp_perm (w : ℕ) (mp : MpId) (m : List (ℕ × List MpId)) :
    ((pushMp w mp m).flatMap snd).Perm (m.flatMap snd ++ [mp]) := by
  induction m with
  | nil => exact .refl _
  | cons e rest ih =>
    obtain ⟨v, mps⟩ := e
    rw [pushMp]
    split_ifs
    · simpa using (perm_append_singleton mp (mps ++ rest.flatMap snd)).symm
    · simpa using (perm_append_singleton mp (rest.flatMap snd)).symm.append_left mps
    · simpa using ih.append_left mps

/-- A bucket after a push was there before, or is the one of the worker. -/
theorem mem_pushMp {e : ℕ × List MpId} (h : e ∈ pushMp w mp m) : e ∈ m ∨
    e.1 = w ∧ ∀ id ∈ e.2, id = mp ∨ ∃ l, (w, l) ∈ m ∧ id ∈ l := by
  induction m with
  | nil => grind [pushMp]
  | cons b rest ih =>
    rw [pushMp] at h
    split_ifs at h <;> grind

theorem pushMp_sorted (h : m.Pairwise fun a b => a.1 < b.1) :
    (pushMp w mp m).Pairwise fun a b => a.1 < b.1 := by
  induction m with
  | nil => exact pairwise_singleton _ _
  | cons b rest ih =>
    rw [pairwise_cons] at h
    rw [pushMp]
    split_ifs with hlt heq
    · exact .cons (by grind) (.cons h.1 h.2)
    · exact .cons h.1 h.2
    · refine .cons (fun e he => ?_) (ih h.2)
      rcases mem_pushMp he with hmem | ⟨rfl, -⟩
      · exact h.1 e hmem
      · grind

theorem workerAt_mem (hw : workers ≠ []) (i : ℕ) :
    workerAt workers i ∈ workers.map workerId := by
  have hi := mod_lt i (length_pos_iff.2 hw)
  rw [workerAt, getElem?_eq_getElem hi]
  exact mem_map_of_mem (getElem_mem hi)

/-- The fragments are the buckets, numbered from `next`. -/
theorem fragmentsFromBuckets_eq_ok {r : ℕ × List QueryFragment}
    (h : fragmentsFromBuckets next m = .ok r) :
    r = (next + m.length, (m.zipIdx next).map fun (f, i) => ⟨i, f.1, f.2⟩) := by
  induction m generalizing next r with
  | nil => exact (Except.ok.inj h).symm
  | cons e rest ih =>
    obtain ⟨following, hnext, h⟩ := except_bind_eq_ok.1 h
    obtain ⟨-, rfl⟩ := checkedAdd_eq_ok.1 hnext
    obtain ⟨r', hr', h⟩ := except_bind_eq_ok.1 h
    cases h
    rw [ih hr', length_cons, add_right_comm]
    rfl

theorem exists_fragmentsFromBuckets (h : next + m.length ≤ u64Max) :
    ∃ r, fragmentsFromBuckets next m = .ok r := by
  induction m generalizing next with
  | nil => exact ⟨_, rfl⟩
  | cons e rest ih =>
    rw [length_cons] at h
    obtain ⟨r, hr⟩ := @ih (next + 1) (by omega)
    have hnext : checkedAdd next 1 = .ok (next + 1) := checkedAdd_eq_ok.2 ⟨by omega, rfl⟩
    exact ⟨_, except_bind_eq_ok.2 ⟨_, hnext, except_bind_eq_ok.2 ⟨r, hr, rfl⟩⟩⟩

theorem length_pushMp_le : (pushMp w mp m).length ≤ m.length + 1 := by
  induction m with
  | nil => exact le_refl _
  | cons b rest ih =>
    rw [pushMp]
    split_ifs <;> grind

/-- The buckets of the elements: there are no more of them than elements, by induction on the
elements, from the last one. -/
theorem buckets_spec (place : α → ℕ) (idOf : α → MpId) (hw : workers ≠ []) (xs : List α) :
    let m := xs.foldl (fun m x => pushMp (workerAt workers (place x)) (idOf x) m) []
    (m.Pairwise fun a b => a.1 < b.1) ∧ (m.flatMap snd).Perm (xs.map idOf) ∧
      (∀ e ∈ m, e.1 ∈ workers.map workerId) ∧
      (∀ e ∈ m, ∀ id ∈ e.2, ∃ x ∈ xs, idOf x = id ∧ workerAt workers (place x) = e.1) ∧
      m.length ≤ xs.length := by
  induction xs using reverseRecOn with
  | nil => exact ⟨.nil, .nil, by simp, by simp, le_refl _⟩
  | append_singleton xs x ih =>
    obtain ⟨hsorted, hcovers, hkeys, hplaced, hlength⟩ := ih
    rw [foldl_append]
    refine ⟨pushMp_sorted hsorted, ?_, fun e he => ?_, fun e he id hid => ?_, ?_⟩
    · rw [map_append]
      exact (pushMp_perm _ _ _).trans (hcovers.append_right _)
    · rcases mem_pushMp he with hmem | ⟨hkey, -⟩
      · exact hkeys e hmem
      · exact hkey ▸ workerAt_mem hw _
    · rcases mem_pushMp he with hmem | ⟨hkey, hids⟩
      · grind
      · rcases hids id hid with rfl | ⟨l, hl, hid⟩
        · exact ⟨x, by simp, rfl, hkey.symm⟩
        · obtain ⟨y, hy, hidy, hwy⟩ := hplaced _ hl id hid
          exact ⟨y, by simp [hy], hidy, hwy.trans hkey.symm⟩
    · rw [length_append]
      exact length_pushMp_le.trans (succ_le_succ hlength)

/-- No workers are no case of their own: the elements, if any, fill buckets. -/
theorem distributeBy_eq (place : α → ℕ) (idOf : α → MpId) (hw : workers ≠ []) (next : ℕ)
    (xs : List α) : distributeBy place idOf workers next xs = fragmentsFromBuckets next
      (xs.foldl (fun m x => pushMp (workerAt workers (place x)) (idOf x) m) []) := by
  cases xs with
  | nil => simp [distributeBy, fragmentsFromBuckets]
  | cons x xs => simp [distributeBy, hw]

/-- What one call hands out, and where a micro-partition goes. -/
theorem distributeBy_dealt {place : α → ℕ} {idOf : α → MpId} (hw : workers ≠ []) {xs : List α}
    {r : ℕ × List QueryFragment} (h : distributeBy place idOf workers next xs = .ok r) :
    Dealt workers next (xs.map idOf) r ∧ ∀ f ∈ r.2, ∀ id ∈ f.mpIds,
      ∃ x ∈ xs, idOf x = id ∧ workerAt workers (place x) = f.workerId := by
  obtain ⟨hsorted, hcovers, hkeys, hplaced, -⟩ := buckets_spec place idOf hw xs
  rw [distributeBy_eq _ _ hw] at h
  generalize xs.foldl (fun m x => pushMp (workerAt workers (place x)) (idOf x) m) [] = m at *
  have hr := fragmentsFromBuckets_eq_ok h
  have hmem : ∀ f ∈ r.2, (f.workerId, f.mpIds) ∈ m := by
    rw [hr]
    grind
  refine ⟨⟨?_, ?_, fun f hf => hkeys _ (hmem f hf), ?_, ?_⟩, fun f hf => hplaced _ (hmem f hf)⟩
  all_goals rw [hr]
  · simp
  · rw [map_map, length_map, length_zipIdx, ← zipIdx_map_snd next m]
    rfl
  · have hkeys : (m.map fst).Nodup := pairwise_map.2 (hsorted.imp ne_of_lt)
    rw [← zipIdx_map_fst next m, map_map] at hkeys
    rwa [map_map]
  · rw [flatMap_map, ← flatMap_map fst snd, zipIdx_map_fst]
    exact hcovers

theorem exists_distributeBy {place : α → ℕ} {idOf : α → MpId} (hw : workers ≠ []) {xs : List α}
    (h : next + xs.length ≤ u64Max) :
    ∃ r, distributeBy place idOf workers next xs = .ok r ∧ r.1 ≤ next + xs.length := by
  rw [distributeBy_eq _ _ hw]
  have hlength := (buckets_spec place idOf hw xs).2.2.2.2
  obtain ⟨r, hr⟩ := exists_fragmentsFromBuckets ((Nat.add_le_add_left hlength next).trans h)
  refine ⟨r, hr, ?_⟩
  rw [fragmentsFromBuckets_eq_ok hr]
  exact Nat.add_le_add_left hlength next

/-- A scan places by position. -/
theorem distributeScan_eq (workers : List WorkerInfo) (next : ℕ) (ids : List MpId) :
    distributeScan workers next ids = distributeBy snd fst workers next ids.zipIdx := by
  cases ids <;> rfl

theorem distributeScan_dealt (hw : workers ≠ []) {ids : List MpId} {r : ℕ × List QueryFragment}
    (h : distributeScan workers next ids = .ok r) : Dealt workers next ids r := by
  rw [distributeScan_eq] at h
  have hdealt := (distributeBy_dealt hw h).1
  rwa [zipIdx_map_fst] at hdealt

theorem DistributeCall.dealt (hw : workers ≠ []) {c : DistributeCall} {r : ℕ × List QueryFragment}
    (h : c.run workers next = .ok r) : Dealt workers next (c.mps.map MpRef.mpId) r := by
  cases c with
  | scan mps => exact distributeScan_dealt hw h
  | shuffle joinKeyCol mps => exact (distributeBy_dealt hw h).1
  | colocated mps => exact (distributeBy_dealt hw h).1

theorem DistributeCall.exists_run (hw : workers ≠ []) {c : DistributeCall}
    (h : next + c.mps.length ≤ u64Max) :
    ∃ r, c.run workers next = .ok r ∧ r.1 ≤ next + c.mps.length := by
  cases c with
  | scan mps =>
    have hlength : (mps.map MpRef.mpId).zipIdx.length = (scan mps).mps.length := by
      simp [DistributeCall.mps]
    rw [run, distributeScan_eq]
    rw [← hlength] at h ⊢
    exact exists_distributeBy hw h
  | shuffle joinKeyCol mps => exact exists_distributeBy hw h
  | colocated mps => exact exists_distributeBy hw h

/-- The micro-partitions that the fragments retain are those of the table. -/
theorem flatMap_filter_perm {mps : List MicroPartitionInfo} {ids : List (List MpId)}
    (hmps : mps.Nodup) (hids : ids.flatten.Nodup) (hmem : ∀ mp ∈ mps, mp.mpId ∈ ids.flatten) :
    (ids.flatMap fun l => mps.filter fun mp => mp.mpId ∈ l).Perm mps := by
  obtain ⟨-, hdisjoint⟩ := nodup_flatten.1 hids
  refine (perm_ext_iff_of_nodup (nodup_flatMap.2 ⟨fun l _ => hmps.filter _, ?_⟩) hmps).2
    fun mp => ?_
  · refine hdisjoint.imp fun {l l'} hl mp hmp hmp' => hl (a := mp.mpId) ?_ ?_
    · simpa using (mem_filter.1 hmp).2
    · simpa using (mem_filter.1 hmp').2
  · simp only [mem_flatMap, mem_filter, decide_eq_true_eq]
    constructor
    · rintro ⟨l, -, hmp, -⟩
      exact hmp
    · intro hmp
      obtain ⟨l, hl, hid⟩ := mem_flatten.1 (hmem mp hmp)
      exact ⟨l, hl, hmp, hid⟩

theorem DistributeCall.partitions (hw : workers ≠ []) {c : DistributeCall}
    (hnodup : (c.mps.map MpRef.mpId).Nodup) {r : ℕ × List QueryFragment}
    (h : c.run workers next = .ok r) : Partitions c r.2 := by
  obtain ⟨-, -, -, honeEach, hcovers⟩ := dealt hw h
  refine ⟨honeEach, hcovers, fun hscan x hx y hy hsome hxy f hf g hg hxf hyg => ?_,
    fun name tables i t ht => ?_⟩
  · obtain ⟨key, hrun⟩ : ∃ key : ℕ → ℕ, c.run workers next = distributeBy
        (fun mp => key (mp.partitionId.getD mp.mpId)) MpRef.mpId workers next c.mps := by
      cases c with
      | scan mps => exact absurd rfl (hscan mps)
      | shuffle joinKeyCol mps => exact ⟨stableHashU64 joinKeyCol, rfl⟩
      | colocated mps => exact ⟨id, rfl⟩
    have hat := (distributeBy_dealt hw (hrun ▸ h)).2
    obtain ⟨x', hx', hidx, hwx⟩ := hat f hf _ hxf
    obtain ⟨y', hy', hidy, hwy⟩ := hat g hg _ hyg
    obtain ⟨p, hp⟩ := Option.isSome_iff_exists.1 hsome
    rw [← hwx, ← hwy, inj_on_of_nodup_map hnodup hx' hx hidx,
      inj_on_of_nodup_map hnodup hy' hy hidy, ← hxy, hp]
    rfl
  · refine ⟨r.2.map fun f => if t.tableName = name then
      { t with mps := t.mps.filter fun mp => mp.mpId ∈ f.mpIds } else t, ?_, ?_, ?_⟩
    · simp [tablesForFragment, ht]
    · intro hname
      simp [hname]
    · rintro rfl hmps hmem
      refine ⟨by simp, ?_⟩
      have h := @flatMap_filter_perm t.mps (r.2.map QueryFragment.mpIds) hmps
      rw [← flatMap_def, hcovers.nodup_iff] at h
      simpa [flatMap_map] using h hnodup fun mp hmp => hcovers.mem_iff.2 (hmem mp hmp)

/-- The fragments of a sequence of calls are counted on. -/
theorem issued_distributeAll (hw : workers ≠ []) {calls : List DistributeCall}
    {r : ℕ × List (List QueryFragment)} (h : distributeAll workers next calls = .ok r) :
    Issued workers r.1 r.2.flatten := by
  have hids : ∃ n, r.1 = next + n ∧ r.2.flatten.map QueryFragment.fragmentId = range' next n ∧
      ∀ f ∈ r.2.flatten, f.workerId ∈ workers.map workerId := by
    induction calls generalizing next r with
    | nil =>
      cases h
      exact ⟨0, rfl, rfl, by simp⟩
    | cons c calls ih =>
      obtain ⟨fs, hfs, h⟩ := except_bind_eq_ok.1 h
      obtain ⟨r', hr', h⟩ := except_bind_eq_ok.1 h
      cases h
      obtain ⟨hcounted, hids, hworkers, -, -⟩ := DistributeCall.dealt hw hfs
      obtain ⟨n, hn, hrest, hmem⟩ := ih hr'
      refine ⟨fs.2.length + n, ?_, ?_, ?_⟩
      · rw [hn, hcounted, add_assoc]
      · rw [flatten_cons, map_append, hids, hrest, hcounted, range'_append_1]
      · grind
  obtain ⟨n, hn, hids, hworkers⟩ := hids
  refine ⟨hworkers, hids ▸ nodup_range', fun f hf => ?_⟩
  have hf := mem_map_of_mem (f := QueryFragment.fragmentId) hf
  rw [hids, mem_range'_1] at hf
  exact hn ▸ hf.2

theorem exists_distributeAll (hw : workers ≠ []) {calls : List DistributeCall}
    (h : next + (calls.map fun c => c.mps.length).sum ≤ u64Max) :
    ∃ r, distributeAll workers next calls = .ok r := by
  induction calls generalizing next with
  | nil => exact ⟨_, rfl⟩
  | cons c calls ih =>
    rw [map_cons, sum_cons] at h
    obtain ⟨fs, hfs, hle⟩ := @DistributeCall.exists_run workers next hw c (by omega)
    obtain ⟨r, hr⟩ := @ih fs.1 (by omega)
    exact ⟨_, except_bind_eq_ok.2 ⟨fs, hfs, except_bind_eq_ok.2 ⟨r, hr, rfl⟩⟩⟩

/-- **Every call partitions its micro-partitions**, and the fragments of all calls have their own
ids; the calls return as long as the ids fit. -/
theorem distributeAll_partitions (hw : workers ≠ []) (calls : List DistributeCall)
    (hnodup : ∀ c ∈ calls, (c.mps.map MpRef.mpId).Nodup) :
    (∀ r, distributeAll workers next calls = .ok r →
      Forall₂ Partitions calls r.2 ∧ Issued workers r.1 r.2.flatten) ∧
    (next + (calls.map fun c => c.mps.length).sum ≤ u64Max →
      ∃ r, distributeAll workers next calls = .ok r) := by
  refine ⟨fun r h => ⟨?_, issued_distributeAll hw h⟩, exists_distributeAll hw⟩
  induction calls generalizing next r with
  | nil =>
    cases h
    exact .nil
  | cons c calls ih =>
    rw [forall_mem_cons] at hnodup
    obtain ⟨fs, hfs, h⟩ := except_bind_eq_ok.1 h
    obtain ⟨r', hr', h⟩ := except_bind_eq_ok.1 h
    cases h
    exact .cons (c.partitions hw hnodup.1 hfs) (ih hnodup.2 r' hr')

/-- Three workers. -/
def threeWorkers : List WorkerInfo :=
  [⟨1, "a", .active, 0⟩, ⟨2, "b", .active, 0⟩, ⟨3, "c", .active, 0⟩]

/-- Micro-partitions of two partitions, and one of none. -/
def fourMps : List MpRef := [⟨5, some 1⟩, ⟨6, some 3⟩, ⟨7, some 1⟩, ⟨8, none⟩]

/-- A call of each kind. -/
theorem distributeAll_partitions_three :
    let calls := [.scan fourMps, .shuffle "k" fourMps, .colocated fourMps]
    let fs : List (List QueryFragment) := [[⟨1, 1, [5, 8]⟩, ⟨2, 2, [6]⟩, ⟨3, 3, [7]⟩],
      [⟨4, 1, [6, 8]⟩, ⟨5, 3, [5, 7]⟩], [⟨6, 1, [6]⟩, ⟨7, 2, [5, 7]⟩, ⟨8, 3, [8]⟩]]
    distributeAll threeWorkers 1 calls = .ok (9, fs) ∧ Forall₂ Partitions calls fs ∧
      Issued threeWorkers 9 fs.flatten := by
  intro calls fs
  have hall : distributeAll threeWorkers 1 calls = .ok (9, fs) := by decide +kernel
  have hnodup : ∀ c ∈ calls, (c.mps.map MpRef.mpId).Nodup := by decide
  exact ⟨hall, (distributeAll_partitions (by decide) calls hnodup).1 _ hall⟩

end NovaCore.Workers
