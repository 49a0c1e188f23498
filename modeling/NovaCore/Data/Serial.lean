import Mathlib.Data.Multiset.Bind

/-!
# Serial orders of one-shot transactions on a collection

The state is a multiset of items.  A transaction either adds one item or rewrites items one by
one: every item of its snapshot is replaced by what a function makes of it, independently of the
other items.  Transactions run concurrently: a rewriting transaction takes a snapshot and commits
later.

`Serializes` is the invariant that carries a serial order along: the transactions done so far can
be ordered as `base ++ added` such that running them one at a time gives the current state, the
transactions of `added` only add items, and every snapshot still in use is the state after `base`
and some of `added`.

## Main results

* `Serializes.snapshot`, `Serializes.add`, `Serializes.rewrite`, `Serializes.idle` : the invariant
  is kept when a snapshot is taken, and by the commit of a transaction that adds an item, that
  rewrites the snapshot it still may use, or that finds nothing to rewrite.
-/

namespace NovaCore

open List

/-- A one-shot transaction on a multiset of items. -/
inductive Txn (C : Type)
  /-- Add an item. -/
  | add (c : C)
  /-- Replace every item by the items the function makes of it. -/
  | rewrite (f : C → Multiset C)

namespace Txn

variable {C ι : Type}

/-- The state after a transaction that runs alone. -/
def apply : Txn C → Multiset C → Multiset C
  | add c, A => A + {c}
  | rewrite f, A => A.bind f

/-- The item a transaction adds. -/
def added : Txn C → Multiset C
  | add c => {c}
  | rewrite _ => 0

/-- The state after running transactions one at a time. -/
def serial (txn : ι → Txn C) (order : List ι) (A : Multiset C) : Multiset C :=
  order.foldl (fun A i => (txn i).apply A) A

variable {txn : ι → Txn C} {A A₀ : Multiset C}

@[simp] theorem serial_nil : serial txn [] A = A := rfl

@[simp] theorem serial_cons (i : ι) (order : List ι) :
    serial txn (i :: order) A = serial txn order ((txn i).apply A) := rfl

theorem serial_append (l1 l2 : List ι) :
    serial txn (l1 ++ l2) A = serial txn l2 (serial txn l1 A) :=
  foldl_append

/-- Transactions that only add items act independently of the state. -/
theorem serial_of_adds {order : List ι} (h : ∀ i ∈ order, ∃ c, txn i = add c) :
    serial txn order A = A + (order.map fun i => (txn i).added).sum := by
  induction order generalizing A with
  | nil => simp
  | cons i order ih =>
    obtain ⟨c, hc⟩ := h i (by simp)
    rw [serial_cons, ih fun j hj => h j (by simp [hj]), map_cons, hc]
    exact add_assoc A {c} _

theorem bind_eq_self {f : C → Multiset C} (h : ∀ c ∈ A, f c = {c}) : A.bind f = A := by
  rw [Multiset.bind_congr h, Multiset.bind_singleton, Multiset.map_id']

end Txn

open Txn

section

variable {C ι : Type} {txn : ι → Txn C} {A₀ A A' : Multiset C} {done done' : ι → Prop}
  {snap snap' : ι → Multiset C → Prop} {i : ι} {f : C → Multiset C}

/-- The state `A` is reached by running the transactions that are `done` one at a time, and the
snapshots `snap i S` fit that order. -/
def Serializes (txn : ι → Txn C) (A₀ : Multiset C) (done : ι → Prop)
    (snap : ι → Multiset C → Prop) (A : Multiset C) : Prop :=
  ∃ base added : List ι, (base ++ added).Nodup ∧ (∀ i, i ∈ base ++ added ↔ done i) ∧
    (∀ i ∈ added, ∃ c, txn i = .add c) ∧ A = serial txn (base ++ added) A₀ ∧
    ∀ i S, snap i S → ∃ m ≤ added.length, S = serial txn (base ++ added.take m) A₀

namespace Serializes

/-- The transaction `i` takes a place in the order. -/
private theorem placed {l1 l2 : List ι} (hnd : (l1 ++ l2).Nodup)
    (hmem : ∀ j, j ∈ l1 ++ l2 ↔ done j) (hnot : ¬done i) (hdone : ∀ j, done' j ↔ done j ∨ j = i) :
    (l1 ++ [i] ++ l2).Nodup ∧ ∀ j, j ∈ l1 ++ [i] ++ l2 ↔ done' j := by
  have hperm : (l1 ++ [i] ++ l2).Perm (i :: (l1 ++ l2)) := by
    rw [append_assoc]
    exact perm_middle
  have hnotmem : i ∉ l1 ++ l2 := fun h => hnot ((hmem i).1 h)
  refine ⟨hperm.nodup_iff.2 (nodup_cons.2 ⟨hnotmem, hnd⟩), fun j => ?_⟩
  rw [hperm.mem_iff, mem_cons, hmem, hdone, or_comm]

theorem init (hdone : ∀ i, ¬done i) (hsnap : ∀ i S, ¬snap i S) : Serializes txn A₀ done snap A₀ :=
  ⟨[], [], by simp, by simpa using hdone, by simp, rfl, fun i S h => (hsnap i S h).elim⟩

section

variable (h : Serializes txn A₀ done snap A)
include h

theorem exists_order :
    ∃ order : List ι, order.Nodup ∧ (∀ i, i ∈ order ↔ done i) ∧ A = serial txn order A₀ := by
  obtain ⟨base, added, hnd, hmem, -, hA, -⟩ := h
  exact ⟨base ++ added, hnd, hmem, hA⟩

/-- Nothing is committed; every snapshot in use was in use before or is the current state. -/
theorem snapshot (hdone : ∀ i, done' i ↔ done i) (hsnap : ∀ i S, snap' i S → snap i S ∨ S = A) :
    Serializes txn A₀ done' snap' A := by
  obtain ⟨base, added, hnd, hmem, hadds, hA, hsn⟩ := h
  refine ⟨base, added, hnd, fun i => (hmem i).trans (hdone i).symm, hadds, hA, ?_⟩
  intro i S hS
  rcases hsnap i S hS with hS | rfl
  · exact hsn i S hS
  · exact ⟨added.length, le_rfl, by rw [take_length]; exact hA⟩

/-- A transaction adds an item and commits. -/
theorem add {c : C} (hi : txn i = .add c) (hnot : ¬done i)
    (hdone : ∀ j, done' j ↔ done j ∨ j = i) (hsnap : ∀ j S, snap' j S → snap j S)
    (hA' : A' = A + {c}) : Serializes txn A₀ done' snap' A' := by
  obtain ⟨base, added, hnd, hmem, hadds, hA, hsn⟩ := h
  rw [← append_nil (base ++ added)] at hnd hmem
  have hlast := placed hnd hmem hnot hdone
  rw [append_nil, append_assoc] at hlast
  refine ⟨base, added ++ [i], hlast.1, hlast.2, ?_, ?_, ?_⟩
  · intro j hj
    rcases mem_append.1 hj with hj | hj
    · exact hadds j hj
    · exact ⟨c, mem_singleton.1 hj ▸ hi⟩
  · rw [← append_assoc, serial_append, ← hA, hA', serial_cons, hi]
    rfl
  · intro j S hS
    obtain ⟨m, hm, hS⟩ := hsn j S (hsnap j S hS)
    refine ⟨m, by simp; omega, ?_⟩
    rw [take_append_of_le_length hm]
    exact hS

/-- A transaction rewrites its snapshot and commits; no other snapshot may be used from now
on.  The items the snapshot does not contain were added since. -/
theorem rewrite (hi : txn i = .rewrite f) (hnot : ¬done i) {S rest : Multiset C} (hS : snap i S)
    (hrest : A = S + rest) (hdone : ∀ j, done' j ↔ done j ∨ j = i) (hsnap : ∀ j S, ¬snap' j S)
    (hA' : A' = S.bind f + rest) : Serializes txn A₀ done' snap' A' := by
  obtain ⟨base, added, hnd, hmem, hadds, hA, hsn⟩ := h
  obtain ⟨m, -, hSm⟩ := hsn i S hS
  have hlate : ∀ j ∈ added.drop m, ∃ c, txn j = .add c := fun j hj =>
    hadds j (mem_of_mem_drop hj)
  have hsplit : base ++ added = base ++ added.take m ++ added.drop m := by
    rw [append_assoc, take_append_drop]
  rw [hsplit] at hnd hmem hA
  have hrest' : rest = ((added.drop m).map fun j => (txn j).added).sum := by
    rw [serial_append, serial_of_adds hlate, ← hSm, hrest] at hA
    exact add_left_cancel hA
  obtain ⟨hnd', hmem'⟩ := placed hnd hmem hnot hdone
  refine ⟨base ++ added.take m ++ [i], added.drop m, hnd', hmem', hlate, ?_, ?_⟩
  · rw [serial_append, serial_append, ← hSm, serial_cons, hi, serial_of_adds hlate, hA', hrest']
    rfl
  · exact fun j S hS => (hsnap j S hS).elim

/-- A transaction commits that never rewrites anything, or finds nothing to rewrite in its
snapshot: it can be put after `base`. -/
theorem idle (hi : txn i = .rewrite f) (hnot : ¬done i)
    (hf : (∀ c, f c = {c}) ∨ ∃ S, snap i S ∧ ∀ c ∈ S, f c = {c})
    (hdone : ∀ j, done' j ↔ done j ∨ j = i) (hsnap : ∀ j S, snap' j S → snap j S) :
    Serializes txn A₀ done' snap' A := by
  obtain ⟨base, added, hnd, hmem, hadds, hA, hsn⟩ := h
  have hidle : ∀ c ∈ serial txn base A₀, f c = {c} := by
    intro c hc
    rcases hf with hf | ⟨S, hS, hf⟩
    · exact hf c
    · obtain ⟨m, -, rfl⟩ := hsn i S hS
      refine hf c ?_
      rw [serial_append, serial_of_adds fun j hj => hadds j (mem_of_mem_take hj)]
      exact Multiset.mem_add.2 (.inl hc)
  have hbase : serial txn (base ++ [i]) A₀ = serial txn base A₀ := by
    rw [serial_append, serial_cons, hi]
    exact bind_eq_self hidle
  have hafter : ∀ l, serial txn (base ++ [i] ++ l) A₀ = serial txn (base ++ l) A₀ := by
    intro l
    rw [serial_append, hbase, serial_append]
  obtain ⟨hnd', hmem'⟩ := placed hnd hmem hnot hdone
  refine ⟨base ++ [i], added, hnd', hmem', hadds, ?_, ?_⟩
  · rw [hafter, hA]
  · intro j S hS
    obtain ⟨m, hm, hS⟩ := hsn j S (hsnap j S hS)
    exact ⟨m, hm, by rw [hafter, hS]⟩

end

end Serializes

end

end NovaCore
