import NovaCore.Workers.Partition

/-!
# Distributed execution of a SELECT

`dispatch_via_grpc` sends every worker the same SQL over its own micro-partitions and concatenates
the answers; nothing combines them.  `Select` is the meaning of a query over one table.

## Main definitions

* `Select`, `Select.eval` : filter, projection or aggregates, DISTINCT, ORDER BY and LIMIT.
* `dispatchViaGrpc` : the dispatcher.
* `Select.Distributes` : on every table and for all workers, a dispatch that succeeds returns the
  rows of the query over the whole table.

## Main results

* `Select.distributes_iff` : **a query distributes if and only if** it returns no rows at all, or is
  a projection without DISTINCT and LIMIT; a dispatch of one fragment is right for every query.
* `count_counted_twice` : two workers return two counts.
-/

namespace NovaCore.Workers

open List

/-! ### Queries -/

/-- What a query computes from the rows that pass its filter. -/
inductive SelectList (ρ κ σ : Type)
  /-- One output row for each row. -/
  | rows (project : ρ → σ)
  /-- One output row for each group. -/
  | groups (key : ρ → κ) (aggregate : List ρ → σ)
  /-- Aggregates without GROUP BY: one output row. -/
  | whole (aggregate : List ρ → σ)

/-- A SELECT over one table with rows `ρ`. -/
structure Select (ρ κ σ : Type) where
  filter : ρ → Bool
  columns : SelectList ρ κ σ
  distinct : Bool
  orderBy : Option (σ → σ → Bool)
  limit : Option ℕ

variable {ρ κ σ : Type} [DecidableEq κ] [DecidableEq σ]

/-- The output rows before DISTINCT. -/
def SelectList.eval (rows : List ρ) : SelectList ρ κ σ → List σ
  | .rows project => rows.map project
  | .groups key aggregate =>
    (rows.map key).dedup.map fun k => aggregate (rows.filter fun r => key r = k)
  | .whole aggregate => [aggregate rows]

namespace Select

variable (q : Select ρ κ σ)

/-- The output rows before ORDER BY and LIMIT. -/
def unordered (rows : List ρ) : List σ :=
  let out := q.columns.eval (rows.filter q.filter)
  if q.distinct then out.dedup else out

/-- The rows of the query. -/
def eval (rows : List ρ) : List σ :=
  let out := match q.orderBy with
    | some le => (q.unordered rows).mergeSort le
    | none => q.unordered rows
  match q.limit with
  | some n => out.take n
  | none => out

/-- The query is a projection without DISTINCT and LIMIT, or returns no rows: it has LIMIT 0, or its
filter rejects everything and it does not aggregate the whole table. -/
def Additive : Prop :=
  q.limit = some 0 ∨ ((∀ r, q.filter r = false) ∧ ∀ f, q.columns ≠ .whole f) ∨
    ((∃ f, q.columns = .rows f) ∧ q.distinct = false ∧ q.limit = none)

variable {q} {rows rows' : List ρ}

/-- ORDER BY only reorders. -/
theorem eval_perm_unordered (h : q.limit = none) : (q.eval rows).Perm (q.unordered rows) := by
  unfold eval
  rw [h]
  cases q.orderBy with
  | none => exact .refl _
  | some le => exact mergeSort_perm _ le

theorem length_eval : (q.eval rows).length =
    min (q.limit.getD (q.unordered rows).length) (q.unordered rows).length := by
  unfold eval
  cases q.orderBy <;> cases q.limit <;> simp

/-- A query that returns rows, and does not return one for each row, returns as many rows for some
table as for two copies of it. -/
theorem exists_length_eq (h : ¬q.Additive) :
    ∃ rows, 0 < (q.eval rows).length ∧ (q.eval (rows ++ rows)).length = (q.eval rows).length := by
  simp only [Additive, not_or, not_and, not_forall] at h
  obtain ⟨hlimit, hfilter, hrows⟩ := h
  have hlimit : ∀ n, q.limit = some n → 0 < n := fun n hn =>
    Nat.pos_of_ne_zero fun h0 => hlimit (h0 ▸ hn)
  -- one output row, before LIMIT, for a table and for two copies of it
  have hone : ∀ rows, (q.unordered rows).length = 1 → (q.unordered (rows ++ rows)).length = 1 →
      0 < (q.eval rows).length ∧ (q.eval (rows ++ rows)).length = (q.eval rows).length := by
    intro rows h1 h2
    rw [length_eval, length_eval, h1, h2]
    cases hl : q.limit with
    | none => simp
    | some n => simp [hlimit n hl]
  have hsome : (∀ f, q.columns ≠ .whole f) → ∃ r, q.filter r = true := fun hc => by
    by_contra hr
    obtain ⟨f, hf⟩ := hfilter (by simpa using hr)
    exact hf (hc f)
  cases hc : q.columns with
  | whole f =>
    have hwhole : ∀ rows, (q.unordered rows).length = 1 := fun rows => by
      cases hd : q.distinct <;> simp [unordered, SelectList.eval, hc, hd]
    exact ⟨[], hone [] (hwhole _) (hwhole _)⟩
  | groups key f =>
    obtain ⟨r, hr⟩ := hsome (by simp [hc])
    refine ⟨[r], hone [r] ?_ ?_⟩ <;>
      cases hd : q.distinct <;> simp [unordered, SelectList.eval, hc, hd, hr]
  | rows f =>
    obtain ⟨r, hr⟩ := hsome (by simp [hc])
    cases hd : q.distinct with
    | true => refine ⟨[r], hone [r] ?_ ?_⟩ <;> simp [unordered, SelectList.eval, hc, hd, hr]
    | false =>
      obtain ⟨n, hn⟩ := Option.ne_none_iff_exists'.1 (hrows ⟨f, hc⟩ hd)
      refine ⟨replicate n r, ?_⟩
      have hpos := hlimit n hn
      simp [length_eval, unordered, SelectList.eval, hc, hd, hr, hn, hpos]

/-- A query that returns no rows, and a projection. -/
theorem Additive.cases (h : q.Additive) : (∀ rows, q.eval rows = []) ∨
    ∃ f : ρ → σ, ∀ rows, (q.eval rows).Perm ((rows.filter q.filter).map f) := by
  rcases h with h | ⟨hf, hc⟩ | ⟨⟨f, hf⟩, hd, hl⟩
  · left
    intro rows
    rw [← length_eq_zero_iff, length_eval, h]
    simp
  · left
    intro rows
    have hrows : rows.filter q.filter = [] := by simp [hf]
    have hempty : q.unordered rows = [] := by
      cases hcol : q.columns with
      | whole f => exact absurd hcol (hc f)
      | rows f | groups key f => simp [unordered, SelectList.eval, hcol, hrows]
    rw [← length_eq_zero_iff, length_eval, hempty]
    simp
  · right
    refine ⟨f, fun rows => (eval_perm_unordered hl).trans ?_⟩
    simp [unordered, SelectList.eval, hf, hd]

/-- The rows of the parts of a table, in any order, are the rows of the table. -/
theorem Additive.flatMap_perm (h : q.Additive) {parts : List (List ρ)}
    (hparts : parts.flatten.Perm rows) : (parts.flatMap q.eval).Perm (q.eval rows) := by
  rcases h.cases with hnil | ⟨f, hf⟩
  · simp [hnil]
  · calc (parts.flatMap q.eval).Perm (parts.flatMap fun p => (p.filter q.filter).map f) :=
          List.Perm.flatMap_left _ fun p _ => hf p
      _ = (parts.flatten.filter q.filter).map f := by
          rw [filter_flatten, map_flatten, map_map]
          rfl
      _ |>.Perm ((rows.filter q.filter).map f) := (hparts.filter _).map f
      _ |>.Perm (q.eval rows) := (hf rows).symm

end Select

/-! ### The dispatcher -/

/-- `dispatch_via_grpc`.  `execute` is the answer of the client with an index to a fragment.  A
panic of `distribute_scan` is an error here. -/
def dispatchViaGrpc (workers : List WorkerInfo) (next : ℕ) (partitioned : String)
    (mps : List MpId) (tables : List TableSnapshot) (clients : List WorkerClient)
    (execute : ℕ → ℕ → List TableSnapshot → Except String (List σ)) : Except String (List σ) :=
  if clients.isEmpty then
    .error "no workers available"
  else if tables.isEmpty then
    .error "no table snapshots provided"
  else if !tables.any (·.tableName = partitioned) then
    .error ("partitioned table snapshot not found: " ++ partitioned)
  else match distributeScan workers next mps with
    | .error _ => .error "attempt to add with overflow"
    | .ok (_, fragments) =>
      if fragments.isEmpty then
        .ok []
      else
        (fragments.zipIdx.mapM fun ((fragment, i) : QueryFragment × ℕ) =>
          execute ((WorkerClientPool.indexOfWorkerId clients fragment.workerId).getD
            (i % clients.length)) fragment.fragmentId
            (tablesForFragment partitioned tables fragment)).map List.flatten

/-- The worker with an index answers a fragment of the table `name` with the rows of the query over
the micro-partitions it was sent, or with an error. -/
def Correct (q : Select ρ κ σ) (rowsOf : MicroPartitionInfo → List ρ) (name : String)
    (execute : ℕ → ℕ → List TableSnapshot → Except String (List σ)) : Prop :=
  ∀ i fragmentId mps, (∃ e, execute i fragmentId [⟨name, mps⟩] = .error e) ∨
    execute i fragmentId [⟨name, mps⟩] = .ok (q.eval (mps.flatMap rowsOf))

/-- On every table, for any workers and clients: what a dispatch returns are the rows of the query
over the whole table. -/
def Select.Distributes (q : Select ρ κ σ) : Prop :=
  ∀ (rowsOf : MicroPartitionInfo → List ρ) (name : String) (mps : List MicroPartitionInfo)
    (workers : List WorkerInfo) (clients : List WorkerClient) (next : ℕ)
    (execute : ℕ → ℕ → List TableSnapshot → Except String (List σ)),
    (mps.map MicroPartitionInfo.mpId).Nodup → workers ≠ [] → Correct q rowsOf name execute →
    Yields (dispatchViaGrpc workers next name (mps.map MicroPartitionInfo.mpId) [⟨name, mps⟩]
      clients execute) fun rows => rows.Perm (q.eval (mps.flatMap rowsOf))

section Answers

variable {q : Select ρ κ σ} {rowsOf : MicroPartitionInfo → List ρ} {name : String}
  {mps : List MicroPartitionInfo} {workers : List WorkerInfo} {clients : List WorkerClient}
  {next : ℕ} {execute : ℕ → ℕ → List TableSnapshot → Except String (List σ)} {rows : List σ}

/-- What the workers answer, when none of them fails. -/
theorem dispatchViaGrpc_eq_ok {ids : List MpId} (hexec : Correct q rowsOf name execute)
    (h : dispatchViaGrpc workers next name ids [⟨name, mps⟩] clients execute = .ok rows) :
    ∃ r, distributeScan workers next ids = .ok r ∧
      rows = ((r.2.map QueryFragment.mpIds).map fun l =>
        (mps.filter fun mp => mp.mpId ∈ l).flatMap rowsOf).flatMap q.eval := by
  rw [dispatchViaGrpc] at h
  split_ifs at h
  cases hscan : distributeScan workers next ids with
  | error e =>
    rw [hscan] at h
    cases h
  | ok r =>
    refine ⟨r, rfl, ?_⟩
    rw [hscan] at h
    change (if r.2.isEmpty then _ else _) = _ at h
    split_ifs at h with hempty
    · cases h
      simp [isEmpty_iff.1 hempty]
    · obtain ⟨results, hresults, rfl⟩ := except_map_eq_ok.1 h
      rw [mapM_eq_ok_iff] at hresults
      have hmap : List.Forall₂ (fun (x : QueryFragment × ℕ) y => y =
          q.eval ((mps.filter fun mp => mp.mpId ∈ x.1.mpIds).flatMap rowsOf))
          r.2.zipIdx results := by
        refine hresults.imp fun {x y} hxy => ?_
        simp only [tablesForFragment, map_cons, if_true, map_nil] at hxy
        rcases hexec _ _ _ with ⟨e, he⟩ | hok
        · rw [he] at hxy
          cases hxy
        · rw [hok] at hxy
          exact (Except.ok.inj hxy).symm
      have hresults : results = r.2.zipIdx.map fun x =>
          q.eval ((mps.filter fun mp => mp.mpId ∈ x.1.mpIds).flatMap rowsOf) := by
        rw [← forall₂_eq_eq_eq, forall₂_map_right_iff]
        exact hmap.flip
      rw [hresults, flatMap_map, flatMap_map, ← zipIdx_map_fst 0 r.2, flatMap_map, zipIdx_map_fst]
      rfl

/-- One fragment has all micro-partitions. -/
theorem dispatchViaGrpc_one {n : ℕ} {f : QueryFragment} (hworkers : workers ≠ [])
    (hexec : Correct q rowsOf name execute)
    (hscan : distributeScan workers next (mps.map MicroPartitionInfo.mpId) = .ok (n, [f]))
    (h : dispatchViaGrpc workers next name (mps.map MicroPartitionInfo.mpId) [⟨name, mps⟩] clients
      execute = .ok rows) : rows = q.eval (mps.flatMap rowsOf) := by
  obtain ⟨r, hr, rfl⟩ := dispatchViaGrpc_eq_ok hexec h
  cases hscan.symm.trans hr
  have hids := (distributeScan_dealt hworkers hscan).covers
  have hall : mps.filter (fun mp => mp.mpId ∈ f.mpIds) = mps :=
    filter_eq_self.2 fun mp hmp => decide_eq_true ((by simpa using hids.mem_iff :
      mp.mpId ∈ f.mpIds ↔ _).2 (mem_map_of_mem hmp))
  simp [hall]

end Answers

namespace Select

theorem Additive.distributes {q : Select ρ κ σ} (h : q.Additive) : q.Distributes := by
  intro rowsOf name mps workers clients next execute hnodup hworkers hexec rows hrows
  obtain ⟨r, hr, rfl⟩ := dispatchViaGrpc_eq_ok hexec hrows
  apply h.flatMap_perm
  have hids := (distributeScan_dealt hworkers hr).covers
  have hmps := (flatMap_filter_perm (hnodup.of_map _) (hids.nodup_iff.2 hnodup) fun mp hmp =>
    hids.mem_iff.2 (mem_map_of_mem hmp)).flatMap_right rowsOf
  rwa [flatMap_assoc] at hmps

/-- Two workers with one micro-partition each. -/
theorem dispatchViaGrpc_two (q : Select ρ κ σ) (rows : List ρ) :
    dispatchViaGrpc [⟨1, "a", .active, 0⟩, ⟨2, "b", .active, 0⟩] 1 "t" [1, 2]
      [⟨"t", [⟨1, .perm 1 1 1, 0⟩, ⟨2, .perm 1 2 1, 0⟩]⟩] [⟨"a", 1⟩, ⟨"b", 2⟩]
      (fun _ _ tables => .ok (q.eval (tables.flatMap fun t => t.mps.flatMap fun _ => rows))) =
        .ok (q.eval rows ++ q.eval rows) := by
  have hscan : distributeScan [⟨1, "a", .active, 0⟩, ⟨2, "b", .active, 0⟩] 1 [1, 2] =
      .ok (3, [⟨1, 1, [1]⟩, ⟨2, 2, [2]⟩]) := by decide
  simp [dispatchViaGrpc, hscan, tablesForFragment, Except.map, pure, Except.pure, bind, Except.bind]

/-- **Which queries distribute**: those that return no rows at all, and the projections without
DISTINCT and LIMIT.  A dispatch of exactly one fragment is right for every query. -/
theorem distributes_iff (q : Select ρ κ σ) : (q.Distributes ↔
    q.limit = some 0 ∨ ((∀ r, q.filter r = false) ∧ ∀ f, q.columns ≠ .whole f) ∨
      ((∃ f, q.columns = .rows f) ∧ q.distinct = false ∧ q.limit = none)) ∧
    ∀ (rowsOf : MicroPartitionInfo → List ρ) name mps workers clients next execute n f,
      workers ≠ [] → Correct q rowsOf name execute →
      distributeScan workers next (mps.map MicroPartitionInfo.mpId) = .ok (n, [f]) →
      Yields (dispatchViaGrpc workers next name (mps.map MicroPartitionInfo.mpId) [⟨name, mps⟩]
        clients execute) fun rows => rows = q.eval (mps.flatMap rowsOf) := by
  refine ⟨⟨fun h => ?_, Additive.distributes⟩, fun _ _ _ _ _ _ _ _ _ hworkers hexec hscan _ hrows =>
    dispatchViaGrpc_one hworkers hexec hscan hrows⟩
  by_contra hadd
  obtain ⟨rows, hpos, hlength⟩ := exists_length_eq hadd
  have hperm := h (fun _ => rows) "t" [⟨1, .perm 1 1 1, 0⟩, ⟨2, .perm 1 2 1, 0⟩]
    [⟨1, "a", .active, 0⟩, ⟨2, "b", .active, 0⟩] [⟨"a", 1⟩, ⟨"b", 2⟩] 1 _ (by decide) (by simp)
    (fun _ _ _ => .inr (by simp)) _ (dispatchViaGrpc_two q rows)
  have := hperm.length_eq
  simp at this
  omega

end Select

/-- `SELECT COUNT(*)`. -/
def countRows : Select ℕ Unit ℕ where
  filter _ := true
  columns := .whole List.length
  distinct := false
  orderBy := none
  limit := none

/-- **Rows are counted twice**: a table with two micro-partitions of one row each has two rows, and
two workers return 1 and 1. -/
theorem count_counted_twice :
    dispatchViaGrpc [⟨1, "a", .active, 0⟩, ⟨2, "b", .active, 0⟩] 1 "t" [1, 2]
        [⟨"t", [⟨1, .perm 1 1 1, 1⟩, ⟨2, .perm 1 2 1, 1⟩]⟩] [⟨"a", 1⟩, ⟨"b", 2⟩]
        (fun _ _ tables => .ok (countRows.eval (tables.flatMap fun t => t.mps.map fun _ => 7))) =
      .ok [1, 1] ∧ countRows.eval [7, 7] = [2] := by
  decide

end NovaCore.Workers
