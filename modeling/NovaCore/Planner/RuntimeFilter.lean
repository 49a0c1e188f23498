import Mathlib.Data.Nat.Init
import Mathlib.Data.List.Basic

/-!
# The runtime Bloom filter

`runtime_filter.rs` keeps the keys of a join's build side in a Bloom filter that the scan of the
probe side asks before it sends a row. A key's bits are found by double hashing with wrap-around.
A key that was inserted is always reported (`BloomFilter.contains_of_inserted`).
-/

namespace NovaCore

open List

/-- A filter, with the sizes that `BloomFilter::new` establishes. -/
structure BloomFilter where
  bits : List (BitVec 64)
  numBits : ℕ
  numHashes : ℕ
  numItems : ℕ
  numBits_ge : 64 ≤ numBits
  numHashes_pos : 1 ≤ numHashes
  length_bits : bits.length = (numBits + 63) / 64

namespace BloomFilter

/-- `BloomFilter::new`, from the two sizes `m` and `k` it computes with floating point numbers. -/
def new (m k : ℕ) : BloomFilter where
  bits := List.replicate ((max m 64 + 63) / 64) 0
  numBits := max m 64
  numHashes := max k 1
  numItems := 0
  numBits_ge := Nat.le_max_right m 64
  numHashes_pos := Nat.le_max_right k 1
  length_bits := List.length_replicate

/-- The bit of hash number `i`, whose sum and product wrap around at 64 bits. -/
def bitIdx (f : BloomFilter) (h : BitVec 64 × BitVec 64) (i : ℕ) : ℕ :=
  (h.1 + h.2 * BitVec.ofNat 64 i).toNat % f.numBits

/-- One round of the loop of `insert`; `none` is the panic of an index outside `bits`. -/
def insertBit (h : BitVec 64 × BitVec 64) (f : BloomFilter) (i : ℕ) : Option BloomFilter := do
  let wordIdx := f.bitIdx h i / 64
  let bitPos := f.bitIdx h i % 64
  let word ← f.bits[wordIdx]?
  return { f with
    bits := f.bits.set wordIdx (word ||| 1#64 <<< bitPos)
    length_bits := List.length_set.trans f.length_bits }

/-- `BloomFilter::insert`, where `hash` is `hash_pair`. -/
def insert {α : Type} (hash : α → BitVec 64 × BitVec 64) (f : BloomFilter) (item : α) :
    Option BloomFilter := do
  let f ← (List.range f.numHashes).foldlM (insertBit (hash item)) f
  return { f with numItems := f.numItems + 1 }

/-- The loop of `contains` over the hash numbers that are left. -/
def containsBits (f : BloomFilter) (h : BitVec 64 × BitVec 64) : List ℕ → Option Bool
  | [] => some true
  | i :: rest => do
    let word ← f.bits[f.bitIdx h i / 64]?
    if word &&& 1#64 <<< (f.bitIdx h i % 64) = 0#64 then return false
    f.containsBits h rest

/-- `BloomFilter::contains`. -/
def contains {α : Type} (hash : α → BitVec 64 × BitVec 64) (f : BloomFilter) (item : α) :
    Option Bool :=
  f.containsBits (hash item) (List.range f.numHashes)

/-- Bit `j` of the filter. -/
def isSet (f : BloomFilter) (j : ℕ) : Bool :=
  (f.bits.getD (j / 64) 0#64).getLsbD (j % 64)

variable {f f' : BloomFilter} {h : BitVec 64 × BitVec 64}

theorem wordIdx_lt (f : BloomFilter) (h : BitVec 64 × BitVec 64) (i : ℕ) :
    f.bitIdx h i / 64 < f.bits.length := by
  have hmod : f.bitIdx h i < f.numBits := Nat.mod_lt _ (by have := f.numBits_ge; omega)
  have hlen := f.length_bits
  omega

theorem and_shiftLeft_eq_zero_iff (word : BitVec 64) {p : ℕ} (hp : p < 64) :
    word &&& 1#64 <<< p = 0#64 ↔ word.getLsbD p = false := by
  rw [← BitVec.twoPow_eq, BitVec.and_twoPow]
  have hone : BitVec.twoPow 64 p ≠ 0#64 := fun hzero => by
    simpa [hp] using congrArg (fun w : BitVec 64 => w.getLsbD p) hzero
  cases word.getLsbD p <;> simp [hone]

theorem containsBits_eq (f : BloomFilter) (h : BitVec 64 × BitVec 64) (is : List ℕ) :
    f.containsBits h is = some (is.all fun i => f.isSet (f.bitIdx h i)) := by
  induction is with
  | nil => rfl
  | cons i rest ih =>
    have hword := getElem?_eq_getElem (f.wordIdx_lt h i)
    rw [containsBits, hword, Option.bind_eq_bind, Option.bind_some, ih, all_cons]
    simp only [and_shiftLeft_eq_zero_iff _ (Nat.mod_lt _ (by decide : 0 < 64))]
    simp only [isSet, getD_eq_getElem?_getD, hword, Option.getD_some]
    split_ifs with hbit <;> simp_all

/-- What an insertion leaves of a filter: the sizes, and the bits that were set. -/
structure Extends (f f' : BloomFilter) : Prop where
  numBits : f'.numBits = f.numBits
  numHashes : f'.numHashes = f.numHashes
  isSet : ∀ j, f.isSet j = true → f'.isSet j = true

theorem Extends.trans {f'' : BloomFilter} (h1 : f.Extends f') (h2 : f'.Extends f'') :
    f.Extends f'' :=
  ⟨h2.numBits.trans h1.numBits, h2.numHashes.trans h1.numHashes,
    fun j hj => h2.isSet j (h1.isSet j hj)⟩

theorem Extends.bitIdx (hext : f.Extends f') (i : ℕ) : f'.bitIdx h i = f.bitIdx h i := by
  rw [BloomFilter.bitIdx, hext.numBits, BloomFilter.bitIdx]

theorem Extends.contains {α : Type} {hash : α → BitVec 64 × BitVec 64} {item : α}
    (hext : f.Extends f') (hf : f.contains hash item = some true) :
    f'.contains hash item = some true := by
  rw [BloomFilter.contains, containsBits_eq, Option.some.injEq, all_eq_true] at hf ⊢
  rw [hext.numHashes]
  intro i hi
  rw [hext.bitIdx]
  exact hext.isSet _ (hf i hi)

theorem insertBit_spec (h : BitVec 64 × BitVec 64) (f : BloomFilter) (i : ℕ) :
    ∃ f', insertBit h f i = some f' ∧ f.Extends f' ∧ f'.isSet (f'.bitIdx h i) = true := by
  have hlt := f.wordIdx_lt h i
  have hpos : f.bitIdx h i % 64 < 64 := Nat.mod_lt _ (by decide)
  rw [insertBit, getElem?_eq_getElem hlt]
  refine ⟨_, rfl, ⟨rfl, rfl, fun j hj => ?_⟩, ?_⟩
  · simp only [isSet, getD_eq_getElem?_getD, getElem?_set] at hj ⊢
    -- a word that is written keeps the bits it had
    split_ifs with hword
    · rw [← hword, getElem?_eq_getElem hlt] at hj
      simpa using .inl hj
    · exact hj
  · change isSet _ (f.bitIdx h i) = true
    simp [isSet, getD_eq_getElem?_getD, hlt, hpos]

/-- A loop of steps that each extend the filter and establish something extensions keep. -/
theorem exists_foldlM {β : Type} {step : BloomFilter → β → Option BloomFilter}
    {P : β → BloomFilter → Prop} (hstep : ∀ f b, ∃ f', step f b = some f' ∧ f.Extends f' ∧ P b f')
    (hP : ∀ b f f', f.Extends f' → P b f → P b f') (bs : List β) (f : BloomFilter) :
    ∃ f', bs.foldlM step f = some f' ∧ f.Extends f' ∧ ∀ b ∈ bs, P b f' := by
  induction bs generalizing f with
  | nil => exact ⟨f, rfl, ⟨rfl, rfl, fun _ hj => hj⟩, nofun⟩
  | cons b rest ih =>
    obtain ⟨f1, hb, hext, hPb⟩ := hstep f b
    obtain ⟨f', hrest, hext', hPs⟩ := ih f1
    refine ⟨f', ?_, hext.trans hext', forall_mem_cons.2 ⟨hP b f1 f' hext' hPb, hPs⟩⟩
    rw [foldlM_cons, hb]
    exact hrest

theorem insert_spec {α : Type} (hash : α → BitVec 64 × BitVec 64) (f : BloomFilter) (item : α) :
    ∃ f', f.insert hash item = some f' ∧ f.Extends f' ∧ f'.contains hash item = some true := by
  obtain ⟨f', hbits, hext, hset⟩ := exists_foldlM (insertBit_spec (hash item))
    (fun i f f' hext hset => hext.bitIdx i ▸ hext.isSet _ hset) (range f.numHashes) f
  refine ⟨{ f' with numItems := f'.numItems + 1 }, ?_, ⟨hext.1, hext.2, hext.3⟩, ?_⟩
  · rw [insert, hbits]
    rfl
  · rw [contains, containsBits_eq, Option.some.injEq, all_eq_true]
    intro i hi
    exact hset i (hext.numHashes ▸ hi)

/-- After any sequence of insertions into any filter every inserted key is reported, every bit that
was set is still set, and no index of a word is outside the array, so that no call panics. -/
theorem contains_of_inserted {α : Type} (hash : α → BitVec 64 × BitVec 64) (f : BloomFilter)
    (items : List α) :
    ∃ f', items.foldlM (insert hash) f = some f' ∧
      (∀ item ∈ items, f'.contains hash item = some true) ∧
      (∀ j, f.isSet j = true → f'.isSet j = true) ∧
      ∀ h i, f'.bitIdx h i / 64 < f'.bits.length := by
  obtain ⟨f', hinsert, hext, hitems⟩ := exists_foldlM (insert_spec hash)
    (fun _ _ _ => Extends.contains) items f
  exact ⟨f', hinsert, hitems, hext.isSet, f'.wordIdx_lt⟩

end BloomFilter

end NovaCore
