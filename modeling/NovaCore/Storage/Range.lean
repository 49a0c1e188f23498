import NovaCore.Common.Types
import NovaCore.Data.Bytes

/-!
# Range scans

`Transaction::get_range` of the binding returns one page of a range: its pairs in key order until
the size that goes with the iteration number is reached, and whether there are more.  How the
binding counts the size of a pair is left open.  `fdb_get_range`, with which `get_active_mps` and
`list_tables` read, and the child scan of the role cycle search ask for the page of iteration
1,000,000 and do not look at the flag.

## Main definitions

* `KeyValues` : a key-value state.
* `getRange`, `fdbGetRange` : one page, and what a scan returns.
* `getActiveMpsKv`, `listTablesKv`, `childrenKv` : three calls that scan.

## Main results

* `fdbGetRange_complete_iff` : **a scan is complete if and only if** the range has one pair or all
  but its last pair are smaller than the page.
* `getActiveMpsKv_complete_iff`, `listTablesKv_complete_iff`, `childrenKv_complete_iff` : when the
  calls return what is stored.
* `fdbGetRange_loses_pair` : a pair after the first page is not seen.
-/

namespace NovaCore

open List

/-- A key-value state, in key order. -/
structure KeyValues where
  pairs : List (Bytes × Bytes)
  sorted : pairs.Pairwise fun p q => p.1 < q.1

/-- The pairs with `start <= key < end`. -/
def KeyValues.range (kv : KeyValues) (start stop : Bytes) : List (Bytes × Bytes) :=
  kv.pairs.filter fun p => ¬p.1 < start ∧ p.1 < stop

variable (size : Bytes × Bytes → ℕ)

/-- The size of pairs. -/
def byteSize (kvs : List (Bytes × Bytes)) : ℕ := (kvs.map size).sum

/-- The pairs until `limit` bytes are reached, and whether there are more. -/
def page : ℕ → List (Bytes × Bytes) → List (Bytes × Bytes) × Bool
  | _, [] => ([], false)
  | limit, kv :: rest =>
    if size kv < limit then
      let more := page (limit - size kv) rest
      (kv :: more.1, more.2)
    else ([kv], !rest.isEmpty)

variable (pageSize : ℕ → ℕ) (kv : KeyValues) (start stop : Bytes)

/-- `Transaction::get_range`. -/
def getRange (iteration : ℕ) : List (Bytes × Bytes) × Bool :=
  page size (pageSize iteration) (kv.range start stop)

/-- `fdb_get_range`. -/
def fdbGetRange : List (Bytes × Bytes) := (getRange size pageSize kv start stop 1000000).1

variable {size}

theorem page_isPrefix (limit : ℕ) (kvs : List (Bytes × Bytes)) :
    (page size limit kvs).1 <+: kvs := by
  induction kvs generalizing limit with
  | nil => exact nil_prefix
  | cons kv rest ih =>
    rw [page]
    split_ifs
    · exact (prefix_cons_inj kv).2 (ih _)
    · simp

/-- A page is the whole range if all but the last pair are smaller than the page. -/
theorem page_eq_self_iff {limit : ℕ} {kvs : List (Bytes × Bytes)} :
    (page size limit kvs).1 = kvs ↔ kvs.length ≤ 1 ∨ byteSize size kvs.dropLast < limit := by
  induction kvs generalizing limit with
  | nil => simp [page]
  | cons kv rest ih =>
    rw [page]
    cases rest with
    | nil => split_ifs <;> simp [page]
    | cons x rest =>
      have hsize : byteSize size (kv :: x :: rest).dropLast =
          size kv + byteSize size (x :: rest).dropLast := by simp [byteSize]
      have hone : (x :: rest).length ≤ 1 → byteSize size (x :: rest).dropLast = 0 := by
        cases rest <;> simp [byteSize]
      rw [length_cons]
      split_ifs with hlt
      · rw [cons_inj_right, ih]
        omega
      · refine iff_of_false (by simp) ?_
        simp only [length_cons]
        omega

variable (size)

/-- **A scan returns every pair of the range, in key order**, if and only if the range has one pair
or its pairs without the last one are smaller than the page of iteration 1,000,000. -/
theorem fdbGetRange_complete_iff :
    ((∀ p, p ∈ fdbGetRange size pageSize kv start stop ↔
        p ∈ kv.pairs ∧ ¬p.1 < start ∧ p.1 < stop) ∧
      (fdbGetRange size pageSize kv start stop).Pairwise fun p q => p.1 < q.1) ↔
    (kv.range start stop).length ≤ 1 ∨
      byteSize size (kv.range start stop).dropLast < pageSize 1000000 := by
  have hsorted : (kv.range start stop).Pairwise fun p q => p.1 < q.1 := kv.sorted.filter _
  have hmem : ∀ p, p ∈ kv.range start stop ↔ p ∈ kv.pairs ∧ ¬p.1 < start ∧ p.1 < stop := fun p => by
    simp [KeyValues.range]
  rw [← page_eq_self_iff]
  constructor
  · rintro ⟨hall, -⟩
    obtain ⟨rest, hrest⟩ := page_isPrefix (pageSize 1000000) (kv.range start stop)
    cases rest with
    | nil => simpa using hrest
    | cons p rest =>
      -- a pair that is missing comes after the page, and not twice
      have hp : p ∈ fdbGetRange size pageSize kv start stop :=
        (hall p).2 ((hmem p).1 (hrest ▸ by simp))
      rw [← hrest, pairwise_append] at hsorted
      exact absurd (hsorted.2.2 p hp p (by simp)) (List.lt_irrefl p.1)
  · intro hwhole
    have heq : fdbGetRange size pageSize kv start stop = kv.range start stop := hwhole
    exact heq ▸ ⟨hmem, hsorted⟩

/-! ### Calls that scan -/

section Calls

variable {α : Type}

/-- The loop of `get_active_mps`: a key names a micro-partition, of which `read` returns the record
if it is active. -/
def getActiveMpsKv (read : Bytes → Option α) : List α :=
  (fdbGetRange size pageSize kv start stop).filterMap fun p => read p.1

/-- `list_tables`: the values are the records of the tables. -/
def listTablesKv (deserialize : Bytes → α) : List α :=
  (fdbGetRange size pageSize kv start stop).map fun p => deserialize p.2

/-- The child scan of the role cycle search: the keys name the roles. -/
def childrenKv (unpack : Bytes → RoleId) : List RoleId :=
  (fdbGetRange size pageSize kv start stop).map fun p => unpack p.1

/-- A scan is complete for what is read from its pairs if nothing is read from those it misses. -/
theorem fdbGetRange_filterMap_eq_iff (f : Bytes × Bytes → Option α) :
    (fdbGetRange size pageSize kv start stop).filterMap f = (kv.range start stop).filterMap f ↔
      ∀ p ∈ (kv.range start stop).drop (fdbGetRange size pageSize kv start stop).length,
        f p = none := by
  obtain ⟨rest, hrest⟩ := @page_isPrefix size (pageSize 1000000) (kv.range start stop)
  have heq : kv.range start stop = fdbGetRange size pageSize kv start stop ++ rest := hrest.symm
  rw [heq, drop_left, filterMap_append, self_eq_append_right, filterMap_eq_nil_iff]

/-- A scan is complete for what every pair says something about only if it misses no pair. -/
theorem fdbGetRange_map_eq_iff (f : Bytes × Bytes → α) :
    (fdbGetRange size pageSize kv start stop).map f = (kv.range start stop).map f ↔
      (kv.range start stop).length ≤ 1 ∨
        byteSize size (kv.range start stop).dropLast < pageSize 1000000 := by
  rw [← page_eq_self_iff]
  refine ⟨fun heq => ?_, fun heq => congrArg (map f) heq⟩
  have hlength : (fdbGetRange size pageSize kv start stop).length =
      (kv.range start stop).length := by
    simpa using congrArg length heq
  exact (page_isPrefix _ _).eq_of_length hlength

/-- Every active micro-partition of the index is returned if and only if none lies behind the
page. -/
theorem getActiveMpsKv_complete_iff (read : Bytes → Option α) :
    getActiveMpsKv size pageSize kv start stop read =
        (kv.range start stop).filterMap (fun p => read p.1) ↔
      ∀ p ∈ (kv.range start stop).drop (fdbGetRange size pageSize kv start stop).length,
        read p.1 = none :=
  fdbGetRange_filterMap_eq_iff ..

theorem listTablesKv_complete_iff (deserialize : Bytes → α) :
    listTablesKv size pageSize kv start stop deserialize =
        (kv.range start stop).map (fun p => deserialize p.2) ↔
      (kv.range start stop).length ≤ 1 ∨
        byteSize size (kv.range start stop).dropLast < pageSize 1000000 :=
  fdbGetRange_map_eq_iff ..

theorem childrenKv_complete_iff (unpack : Bytes → RoleId) :
    childrenKv size pageSize kv start stop unpack =
        (kv.range start stop).map (fun p => unpack p.1) ↔
      (kv.range start stop).length ≤ 1 ∨
        byteSize size (kv.range start stop).dropLast < pageSize 1000000 :=
  fdbGetRange_map_eq_iff ..

end Calls

/-- Two pairs. -/
def twoPairs : KeyValues := ⟨[([1], [7, 7, 7]), ([2], [])], by decide⟩

/-- **A pair is lost**: the second pair of a range is not seen if the first one fills a page. -/
theorem fdbGetRange_loses_pair : twoPairs.range [] [3] = [([1], [7, 7, 7]), ([2], [])] ∧
    fdbGetRange (fun kv => kv.1.length + kv.2.length) (fun _ => 4) twoPairs [] [3] =
      [([1], [7, 7, 7])] := by
  decide

end NovaCore
