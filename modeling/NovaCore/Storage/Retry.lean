import NovaCore.Data.Bytes
import NovaCore.Data.Retry
import NovaCore.Metadata.Store

/-!
# Transactions whose commit is not known

Below the transactions of the metadata store lie FoundationDB closures over byte strings.  `db.run`
runs such a closure again when it does not learn whether the commit went through, and the closures
ignore the flag that says so.  Here three of them are modelled with their encodings: the
compare-and-set of a stream offset, the checked write batch and the counter increment.

## Main definitions

* `OffsetCodec` : a stored form of stream offsets that is read back.
* `StoreCall.closure` : the closures.
* `StoreCall.Repeatable` : the calls that may be run twice.

## Main results

* `compareAndSetKv_refines`, `atomicIncKv_refines` : the closures do what the transactions of the
  shared state do.
* `commit_unknown_safe_iff` : which calls return and leave, however often they are run, what one
  execution does.
-/

namespace NovaCore

open List Option Function Prod

/-! ### Stored values -/

/-- The keys and values of the store. -/
abbrev KeyValue := Bytes → Option Bytes

/-- The keys that the closures and their callers use here. -/
inductive KeyName
  | securityEpoch
  | streamOffset (s : StreamId)
  | nextId (counter : IdCounter)
  deriving DecidableEq

/-- The numbers of an offset are 64 bits wide. -/
def StreamOffset.Fits (o : StreamOffset) : Prop :=
  o.tableId ≤ u64Max ∧ o.committedSequence ≤ u64Max ∧ o.committedTs ≤ u64Max ∧
    (∀ n ∈ o.lastConsumedAt, n ≤ u64Max) ∧ ∀ n ∈ o.lastConsumedTxnId, n ≤ u64Max

/-- A stored form of offsets, such as bincode's: what was written is read back. -/
structure OffsetCodec where
  serialize : StreamOffset → Bytes
  deserialize : Bytes → Option StreamOffset
  deserialize_serialize {o : StreamOffset} : o.Fits → deserialize (serialize o) = some o

/-- The encodings of the store; `pack` is the tuple encoding of keys, under the prefix of the
store. -/
structure KeySpace extends OffsetCodec where
  pack : KeyName → Bytes
  pack_injective : Function.Injective pack

variable {n expected : ℕ} {new : StreamOffset} {s : StreamId}

/-- The number in a counter key; a value that is not 8 bytes long counts as 0. -/
def readCounter : Option Bytes → ℕ
  | none => 0
  | some bs => if bs.length = 8 then ofBe bs else 0

theorem readCounter_beBytes (hn : n ≤ u64Max) : readCounter (some (beBytes 8 n)) = n := by
  have hlt : n < 256 ^ 8 := by
    unfold u64Max at hn
    omega
  rw [readCounter, if_pos (length_beBytes 8 n), ofBe_beBytes, Nat.mod_eq_of_lt hlt]

/-! ### The closures -/

/-- `fdb_atomic_inc`, and the epoch increment that ends a batch. -/
def atomicIncKv (key : Bytes) (kv : KeyValue) : Except NovaError (ℕ × KeyValue) := do
  let next ← checkedAdd (readCounter (kv key)) 1
  return (next, Function.update kv key (some (beBytes 8 next)))

/-- The arguments of `fdb_checked_write_batch`. -/
structure WriteBatch where
  mustNotExist : List Bytes
  sets : List (Bytes × Bytes)
  clears : List Bytes
  bumpEpoch : Bool

/-- Set some keys, in order. -/
def KeyValue.setAll (sets : List (Bytes × Bytes)) (kv : KeyValue) : KeyValue :=
  sets.foldl (fun kv p => Function.update kv p.1 (some p.2)) kv

/-- Clear some keys. -/
def KeyValue.clearAll (clears : List Bytes) (kv : KeyValue) : KeyValue :=
  clears.foldl (fun kv key => Function.update kv key none) kv

/-- The writes of a batch: the sets in order, then the clears. -/
def WriteBatch.write (batch : WriteBatch) (kv : KeyValue) : KeyValue :=
  .clearAll batch.clears (.setAll batch.sets kv)

variable (ks : KeySpace)

/-- `fdb_checked_write_batch`. -/
def checkedWriteBatchKv (batch : WriteBatch) (kv : KeyValue) : Except NovaError (ℕ × KeyValue) :=
  if batch.mustNotExist.any fun key => (kv key).isSome then .error Store.preconditionFailed
  else if batch.bumpEpoch then atomicIncKv (ks.pack .securityEpoch) (batch.write kv)
  else .ok (0, batch.write kv)

/-- `compare_and_set_stream_offset`; every failure is reported as a concurrent read. -/
def compareAndSetKv (s : StreamId) (expected : ℕ) (new : StreamOffset)
    (kv : KeyValue) : Except NovaError (Unit × KeyValue) :=
  match kv (ks.pack (.streamOffset s)) with
  | none => .error (.streamConcurrentConsume s)
  | some bs =>
    match ks.deserialize bs with
    | none => .error (.streamConcurrentConsume s)
    | some offset =>
      if offset.committedSequence = expected then
        .ok ((), Function.update kv (ks.pack (.streamOffset s)) (some (ks.serialize new)))
      else .error (.streamConcurrentConsume s)

/-! ### The closures and the transactions of the shared state -/

/-- The offsets and identifier counters of `st` are stored in `kv`. -/
structure Stored (kv : KeyValue) (st : Store) : Prop where
  offsets : ∀ s, (kv (ks.pack (.streamOffset s))).map ks.deserialize =
    (st.streamOffsets s).map some
  counters : ∀ counter, readCounter (kv (ks.pack (.nextId counter))) = st.nextId counter

section

variable {ks : KeySpace} {kv : KeyValue} {st : Store}

/-- The closure of `compare_and_set_stream_offset` on stored offsets. -/
theorem compareAndSetKv_refines (h : Stored ks kv st) (hnew : new.Fits) :
    match compareAndSetKv ks s expected new kv, st.compareAndSetStreamOffset s expected new with
    | .ok (_, kv'), .ok w' => Stored ks kv' { st with toWorld := w' }
    | .error e, .error e' => e = e'
    | _, _ => False := by
  have hs := h.offsets s
  unfold compareAndSetKv World.compareAndSetStreamOffset
  cases hoffset : st.streamOffsets s with
  | none =>
    rw [hoffset] at hs
    rw [map_eq_none_iff.1 hs]
  | some offset =>
    rw [hoffset] at hs
    obtain ⟨bs, hbs, hread⟩ := map_eq_some_iff.1 hs
    rw [hbs]
    dsimp only
    rw [hread]
    dsimp only
    by_cases hseq : offset.committedSequence = expected
    · rw [if_pos hseq, if_pos hseq]
      refine ⟨fun s' => ?_, fun counter => ?_⟩
      · by_cases hss : s' = s
        · subst hss
          simp [ks.deserialize_serialize hnew]
        · have hkey : ks.pack (.streamOffset s') ≠ ks.pack (.streamOffset s) :=
            fun he => hss (KeyName.streamOffset.inj (ks.pack_injective he))
          simpa [hkey, hss] using h.offsets s'
      · have hkey : ks.pack (.nextId counter) ≠ ks.pack (.streamOffset s) :=
          fun he => KeyName.noConfusion (ks.pack_injective he)
        simpa [hkey] using h.counters counter
    · rw [if_neg hseq, if_neg hseq]

/-- The closure of `fdb_atomic_inc` on a stored identifier counter. -/
theorem atomicIncKv_refines (h : Stored ks kv st) (counter : IdCounter) :
    match atomicIncKv (ks.pack (.nextId counter)) kv, st.takeNextId counter with
    | .ok (n, kv'), .ok (n', st') => n = n' ∧ Stored ks kv' st'
    | .error e, .error e' => e = e'
    | _, _ => False := by
  unfold atomicIncKv Store.takeNextId
  rw [h.counters counter]
  cases hnext : checkedAdd (st.nextId counter) 1 with
  | error e => rfl
  | ok next =>
    obtain ⟨hle, rfl⟩ := checkedAdd_eq_ok.1 hnext
    refine ⟨rfl, fun s => ?_, fun counter' => ?_⟩
    · have hkey : ks.pack (.streamOffset s) ≠ ks.pack (.nextId counter) :=
        fun he => KeyName.noConfusion (ks.pack_injective he)
      simpa [hkey] using h.offsets s
    · by_cases hc : counter' = counter
      · subst hc
        simp [readCounter_beBytes hle]
      · have hkey : ks.pack (.nextId counter') ≠ ks.pack (.nextId counter) :=
          fun he => hc (KeyName.nextId.inj (ks.pack_injective he))
        simpa [hkey, hc] using h.counters counter'

end

/-! ### Calls that may be run twice -/

/-- A call of one of the three closures. -/
inductive StoreCall
  | compareAndSetStreamOffset (s : StreamId) (expected : ℕ) (new : StreamOffset) (hnew : new.Fits)
  | checkedWriteBatch (batch : WriteBatch)
  | atomicInc (key : Bytes)

/-- What a call returns. -/
@[reducible] def StoreCall.Ret : StoreCall → Type
  | compareAndSetStreamOffset .. => Unit
  | checkedWriteBatch _ => ℕ
  | atomicInc _ => ℕ

/-- The closure of a call. -/
def StoreCall.closure :
    (call : StoreCall) → KeyValue → Except NovaError (call.Ret × KeyValue)
  | compareAndSetStreamOffset s expected new _ => compareAndSetKv ks s expected new
  | checkedWriteBatch batch => checkedWriteBatchKv ks batch
  | atomicInc key => atomicIncKv key

/-- The batch writes or clears the key. -/
def WriteBatch.Touches (batch : WriteBatch) (key : Bytes) : Prop :=
  key ∈ batch.clears ∨ key ∈ batch.sets.map Prod.fst

/-- The batch, with its epoch increment, leaves a value in the key if there was none. -/
def WriteBatch.Creates (batch : WriteBatch) (key : Bytes) : Prop :=
  (key ∈ batch.sets.map Prod.fst ∧ key ∉ batch.clears) ∨
    (batch.bumpEpoch = true ∧ key = ks.pack .securityEpoch)

/-- A call that is refused or panics, or that a second execution would answer and do as the first:
a compare-and-set that keeps the sequence number, or a batch that creates none of the keys that must
not exist and, if it increments the epoch, sets or clears it first. -/
def StoreCall.Repeatable (kv : KeyValue) : StoreCall → Prop
  | compareAndSetStreamOffset s expected new _ =>
    (∀ bs offset, kv (ks.pack (.streamOffset s)) = some bs →
      ks.deserialize bs = some offset → offset.committedSequence ≠ expected) ∨
    new.committedSequence = expected
  | checkedWriteBatch batch =>
    (∃ key ∈ batch.mustNotExist, kv key ≠ none) ∨
    (batch.bumpEpoch = true ∧
      u64Max ≤ readCounter (batch.write kv (ks.pack .securityEpoch))) ∨
    ((∀ key ∈ batch.mustNotExist, ¬batch.Creates ks key) ∧
      (batch.bumpEpoch = true → batch.Touches (ks.pack .securityEpoch)))
  | atomicInc key => u64Max ≤ readCounter (kv key)

section

variable {ks : KeySpace} {kv kv' : KeyValue} {key : Bytes}

theorem atomicIncKv_eq_ok :
    atomicIncKv key kv = .ok (n, kv') ↔ n = readCounter (kv key) + 1 ∧ n ≤ u64Max ∧
      kv' = update kv key (some (beBytes 8 n)) := by
  unfold atomicIncKv
  rw [except_bind_eq_ok]
  constructor
  · rintro ⟨next, hnext, h⟩
    obtain ⟨hle, rfl⟩ := checkedAdd_eq_ok.1 hnext
    cases h
    exact ⟨rfl, hle, rfl⟩
  · rintro ⟨rfl, hle, rfl⟩
    exact ⟨_, checkedAdd_eq_ok.2 ⟨hle, rfl⟩, rfl⟩

theorem atomicIncKv_error_iff :
    (∃ e, atomicIncKv key kv = .error e) ↔ u64Max ≤ readCounter (kv key) := by
  cases h : atomicIncKv key kv with
  | ok y =>
    obtain ⟨hn, hle, -⟩ := atomicIncKv_eq_ok.1 h
    simp only [reduceCtorEq, exists_false, false_iff]
    omega
  | error e =>
    simp only [Except.error.injEq, exists_eq', true_iff]
    by_contra hlt
    have hok : atomicIncKv key kv = .ok (readCounter (kv key) + 1,
        update kv key (some (beBytes 8 (readCounter (kv key) + 1)))) :=
      atomicIncKv_eq_ok.2 ⟨rfl, by omega, rfl⟩
    rw [h] at hok
    cases hok

/-- A counter never stands still. -/
theorem atomicIncKv_not_stable (h : atomicIncKv key kv = .ok (n, kv')) :
    atomicIncKv key kv' ≠ .ok (n, kv') := by
  intro h'
  obtain ⟨-, hle, rfl⟩ := atomicIncKv_eq_ok.1 h
  obtain ⟨hn, -⟩ := atomicIncKv_eq_ok.1 h'
  rw [update_self, readCounter_beBytes hle] at hn
  omega

namespace KeyValue

variable {key : Bytes}

theorem clearAll_apply (clears : List Bytes) (kv : KeyValue) (key : Bytes) :
    clearAll clears kv key = if key ∈ clears then none else kv key := by
  induction clears generalizing kv with
  | nil => simp [clearAll]
  | cons k clears ih =>
    refine (ih (update kv k none)).trans ?_
    by_cases hk : key = k
    · simp [hk]
    · simp [hk]

theorem setAll_of_not_mem {sets : List (Bytes × Bytes)} (h : key ∉ sets.map fst) :
    setAll sets kv key = kv key :=
  foldlRecOn sets _ (motive := fun f : KeyValue => f key = kv key) rfl fun f hf p hp =>
    (update_of_ne (fun hkey => h (mem_map.2 ⟨p, hp, hkey.symm⟩)) _ f).trans hf

/-- What is written into a key does not depend on what was there. -/
theorem setAll_of_mem {sets : List (Bytes × Bytes)} (h : key ∈ sets.map fst) :
    ∃ v, ∀ kv, setAll sets kv key = some v := by
  induction sets with
  | nil => simp at h
  | cons p sets ih =>
    by_cases hmem : key ∈ sets.map fst
    · obtain ⟨v, hv⟩ := ih hmem
      exact ⟨v, fun kv => hv _⟩
    · have hkey : key = p.1 := (mem_cons.1 h).resolve_right hmem
      exact ⟨p.2, fun kv => (setAll_of_not_mem hmem).trans (hkey ▸ update_self p.1 _ kv)⟩

end KeyValue

namespace WriteBatch

variable {batch : WriteBatch} {key : Bytes}

theorem write_of_not_touches (h : ¬batch.Touches key) : batch.write kv key = kv key := by
  rw [Touches, not_or] at h
  rw [write, KeyValue.clearAll_apply, if_neg h.1, KeyValue.setAll_of_not_mem h.2]

theorem write_of_touches (h : batch.Touches key) : batch.write kv key = batch.write kv' key := by
  rw [write, write, KeyValue.clearAll_apply, KeyValue.clearAll_apply]
  by_cases hclear : key ∈ batch.clears
  · rw [if_pos hclear, if_pos hclear]
  · obtain ⟨v, hv⟩ := KeyValue.setAll_of_mem (h.resolve_left hclear)
    rw [if_neg hclear, if_neg hclear, hv, hv]

/-- What a batch leaves does not depend on the keys that it writes. -/
theorem write_congr (h : ∀ key, ¬batch.Touches key → kv' key = kv key) :
    batch.write kv' = batch.write kv := by
  funext key
  by_cases htouch : batch.Touches key
  · exact write_of_touches htouch
  · rw [write_of_not_touches htouch, write_of_not_touches htouch, h key htouch]

theorem write_write : batch.write (batch.write kv) = batch.write kv :=
  write_congr fun _ => write_of_not_touches

theorem write_eq_none_iff (h : kv key = none) :
    batch.write kv key = none ↔ ¬(key ∈ batch.sets.map fst ∧ key ∉ batch.clears) := by
  rw [write, KeyValue.clearAll_apply]
  by_cases hclear : key ∈ batch.clears
  · simp [hclear]
  · rw [if_neg hclear]
    by_cases hset : key ∈ batch.sets.map fst
    · obtain ⟨v, hv⟩ := KeyValue.setAll_of_mem hset
      simp only [hv, hset, hclear, reduceCtorEq, not_false_eq_true, and_self, not_true_eq_false]
    · simp only [KeyValue.setAll_of_not_mem hset, hset, h, false_and, not_false_eq_true]

end WriteBatch

variable {batch : WriteBatch}

theorem checkedWriteBatchKv_of_free (h : ∀ key ∈ batch.mustNotExist, kv key = none) :
    checkedWriteBatchKv ks batch kv =
      if batch.bumpEpoch then atomicIncKv (ks.pack .securityEpoch) (batch.write kv)
      else .ok (0, batch.write kv) := by
  have hany : (batch.mustNotExist.any fun key => (kv key).isSome) = false := by
    simpa using h
  rw [checkedWriteBatchKv, hany]
  rfl

theorem checkedWriteBatchKv_of_taken (hkey : key ∈ batch.mustNotExist) (h : kv key ≠ none) :
    checkedWriteBatchKv ks batch kv = .error Store.preconditionFailed := by
  have hany : (batch.mustNotExist.any fun key => (kv key).isSome) = true :=
    any_eq_true.2 ⟨key, hkey, isSome_iff_ne_none.2 h⟩
  rw [checkedWriteBatchKv, hany]
  rfl

/-- A second execution finds the keys that must not exist still free. -/
theorem free_iff_of_bump (next : ℕ) (hbump : batch.bumpEpoch = true)
    (hfree : ∀ key ∈ batch.mustNotExist, kv key = none) :
    (∀ key ∈ batch.mustNotExist, update (batch.write kv) (ks.pack .securityEpoch)
      (some (beBytes 8 next)) key = none) ↔
      ∀ key ∈ batch.mustNotExist, ¬batch.Creates ks key := by
  refine forall₂_congr fun key hkey => ?_
  by_cases he : key = ks.pack .securityEpoch
  · subst he
    simp [WriteBatch.Creates, hbump]
  · rw [update_of_ne he, WriteBatch.write_eq_none_iff (hfree key hkey)]
    simp [WriteBatch.Creates, he]

/-- A batch without an epoch increment. -/
theorem checkedWriteBatchKv_stable_iff (hbump : batch.bumpEpoch = false)
    (hfree : ∀ key ∈ batch.mustNotExist, kv key = none) :
    checkedWriteBatchKv ks batch (batch.write kv) = .ok (0, batch.write kv) ↔
      ∀ key ∈ batch.mustNotExist, ¬batch.Creates ks key := by
  have hcreates : ∀ key ∈ batch.mustNotExist,
      (batch.write kv key = none ↔ ¬batch.Creates ks key) := by
    intro key hkey
    rw [WriteBatch.write_eq_none_iff (hfree key hkey)]
    simp [WriteBatch.Creates, hbump]
  rw [← forall₂_congr hcreates]
  constructor
  · intro h key hkey
    by_contra htaken
    rw [checkedWriteBatchKv_of_taken hkey htaken] at h
    cases h
  · intro h
    rw [checkedWriteBatchKv_of_free h, hbump, WriteBatch.write_write]
    rfl

/-- A batch with an epoch increment, on the state that it left. -/
theorem checkedWriteBatchKv_stable_bump_iff {next : ℕ}
    (hbump : batch.bumpEpoch = true) (hfree : ∀ key ∈ batch.mustNotExist, kv key = none)
    (h : atomicIncKv (ks.pack .securityEpoch) (batch.write kv) = .ok (next, kv')) :
    checkedWriteBatchKv ks batch kv' = .ok (next, kv') ↔
      (∀ key ∈ batch.mustNotExist, ¬batch.Creates ks key) ∧
        batch.Touches (ks.pack .securityEpoch) := by
  obtain ⟨hnext, hle, rfl⟩ := atomicIncKv_eq_ok.1 h
  rw [← free_iff_of_bump next hbump hfree]
  constructor
  · intro hagain
    have hfree' : ∀ key ∈ batch.mustNotExist, update (batch.write kv)
        (ks.pack .securityEpoch) (some (beBytes 8 next)) key = none := by
      intro key hkey
      by_contra htaken
      rw [checkedWriteBatchKv_of_taken hkey htaken] at hagain
      cases hagain
    refine ⟨hfree', ?_⟩
    -- an epoch that the batch does not write goes up a second time
    by_contra htouch
    rw [checkedWriteBatchKv_of_free hfree', if_pos hbump] at hagain
    obtain ⟨hn, -⟩ := atomicIncKv_eq_ok.1 hagain
    rw [WriteBatch.write_of_not_touches htouch, update_self, readCounter_beBytes hle] at hn
    omega
  · rintro ⟨hfree', htouch⟩
    have hwrite : batch.write (update (batch.write kv) (ks.pack .securityEpoch)
        (some (beBytes 8 next))) = batch.write kv := by
      refine WriteBatch.write_congr fun key hkey => ?_
      have hne : key ≠ ks.pack .securityEpoch := fun he => hkey (he ▸ htouch)
      rw [update_of_ne hne, WriteBatch.write_of_not_touches hkey]
    rw [checkedWriteBatchKv_of_free hfree', if_pos hbump, hwrite]
    exact atomicIncKv_eq_ok.2 ⟨hnext, hle, rfl⟩

theorem compareAndSetKv_eq_ok {a : Unit} : compareAndSetKv ks s expected new kv = .ok (a, kv') ↔
      (∃ bs offset, kv (ks.pack (.streamOffset s)) = some bs ∧
        ks.deserialize bs = some offset ∧ offset.committedSequence = expected) ∧
      kv' = update kv (ks.pack (.streamOffset s)) (some (ks.serialize new)) := by
  unfold compareAndSetKv
  split
  · next hnone => simp [hnone]
  · next bs hbs =>
    split
    · next hread => simp [hbs, hread]
    · next offset hread =>
      split_ifs with hseq
      · simp [hbs, hread, hseq, eq_comm]
      · simp [hbs, hread, hseq]

/-! ### Which calls are safe -/

theorem compareAndSet_repeatable_iff (hnew : new.Fits) :
    ((∃ e, compareAndSetKv ks s expected new kv = .error e) ∨
      ∃ a kv1, compareAndSetKv ks s expected new kv = .ok (a, kv1) ∧
        compareAndSetKv ks s expected new kv1 = .ok (a, kv1)) ↔
      (StoreCall.compareAndSetStreamOffset s expected new hnew).Repeatable ks kv := by
  have hread : ks.deserialize (ks.serialize new) = some new := ks.deserialize_serialize hnew
  constructor
  · rintro (⟨e, he⟩ | ⟨a, kv1, h, h1⟩)
    · refine .inl fun bs offset hbs hoffset hseq => ?_
      have hok : compareAndSetKv ks s expected new kv = .ok ((), update kv
          (ks.pack (.streamOffset s)) (some (ks.serialize new))) :=
        compareAndSetKv_eq_ok.2 ⟨⟨bs, offset, hbs, hoffset, hseq⟩, rfl⟩
      rw [he] at hok
      cases hok
    · obtain ⟨-, rfl⟩ := compareAndSetKv_eq_ok.1 h
      obtain ⟨⟨bs, offset, hbs, hoffset, hseq⟩, -⟩ := compareAndSetKv_eq_ok.1 h1
      rw [update_self, some.injEq] at hbs
      subst hbs
      rw [hread, some.injEq] at hoffset
      exact .inr (hoffset ▸ hseq)
  · intro hrep
    cases h : compareAndSetKv ks s expected new kv with
    | error e => exact .inl ⟨e, rfl⟩
    | ok y =>
      obtain ⟨⟨bs, offset, hbs, hoffset, hseq⟩, hkv⟩ := compareAndSetKv_eq_ok.1 h
      rcases hrep with hno | hsame
      · exact absurd hseq (hno bs offset hbs hoffset)
      · refine .inr ⟨y.1, y.2, rfl, compareAndSetKv_eq_ok.2 ⟨⟨_, new, ?_, hread, hsame⟩, ?_⟩⟩
        · rw [hkv, update_self]
        · rw [hkv, update_idem]

theorem checkedWriteBatch_repeatable_iff : ((∃ e, checkedWriteBatchKv ks batch kv = .error e) ∨
      ∃ a kv1, checkedWriteBatchKv ks batch kv = .ok (a, kv1) ∧
        checkedWriteBatchKv ks batch kv1 = .ok (a, kv1)) ↔
      (StoreCall.checkedWriteBatch batch).Repeatable ks kv := by
  by_cases htaken : ∃ key ∈ batch.mustNotExist, kv key ≠ none
  · obtain ⟨key, hkey, hne⟩ := htaken
    exact iff_of_true (.inl ⟨_, checkedWriteBatchKv_of_taken hkey hne⟩) (.inl ⟨key, hkey, hne⟩)
  · have hfree : ∀ key ∈ batch.mustNotExist, kv key = none := by
      push Not at htaken
      exact htaken
    simp only [StoreCall.Repeatable, htaken, false_or, checkedWriteBatchKv_of_free hfree]
    cases hbump : batch.bumpEpoch with
    | false =>
      rw [← checkedWriteBatchKv_stable_iff hbump hfree]
      simp
    | true =>
      rw [if_pos rfl, atomicIncKv_error_iff]
      cases h : atomicIncKv (ks.pack .securityEpoch) (batch.write kv) with
      | error e =>
        have hmax := atomicIncKv_error_iff.1 ⟨e, h⟩
        exact iff_of_true (.inl hmax) (.inl ⟨rfl, hmax⟩)
      | ok y =>
        have hstable := checkedWriteBatchKv_stable_bump_iff hbump hfree h
        simp only [Except.ok.injEq, true_and, true_implies]
        refine or_congr_right ⟨?_, fun hs => ⟨y.1, y.2, rfl, hstable.2 hs⟩⟩
        rintro ⟨a, kv1, rfl, hagain⟩
        exact hstable.1 hagain

end

/-- **Commit-unknown safety.**  A call returns and leaves what one execution of its closure does,
however often an attempt that was committed is run again, exactly if it is repeatable. -/
theorem commit_unknown_safe_iff (ks : KeySpace) (kv : KeyValue) (call : StoreCall) :
    (∀ r kv', Attempts (call.closure ks) kv r kv' → Once (call.closure ks) kv r kv') ↔
      call.Repeatable ks kv := by
  rw [attempts_eq_once_iff]
  cases call with
  | compareAndSetStreamOffset s expected new hnew => exact compareAndSet_repeatable_iff hnew
  | checkedWriteBatch batch => exact checkedWriteBatch_repeatable_iff
  | atomicInc key =>
    refine (or_iff_left_of_imp ?_).trans atomicIncKv_error_iff
    rintro ⟨a, kv1, h, h1⟩
    exact absurd h1 (atomicIncKv_not_stable h)

/-! ### What a client is told -/

section

variable {ks : KeySpace} {kv kv' : KeyValue}

/-- A compare-and-set that moved the offset and is run again reports a concurrent read. -/
theorem compareAndSet_reported_as_conflict (hnew : new.Fits)
    (h : compareAndSetKv ks s expected new kv = .ok ((), kv'))
    (hseq : new.committedSequence ≠ expected) :
    Attempts (compareAndSetKv ks s expected new) kv (.error (.streamConcurrentConsume s)) kv' := by
  refine .unknown h (.last (.failed ?_))
  obtain ⟨-, rfl⟩ := compareAndSetKv_eq_ok.1 h
  unfold compareAndSetKv
  rw [update_self]
  dsimp only
  rw [ks.deserialize_serialize hnew]
  exact if_neg hseq

end

/-- The fields of an offset in order, the numbers in little-endian order. -/
def StreamOffset.serialize (o : StreamOffset) : Bytes :=
  leBytes 8 o.tableId ++ (leBytes 8 o.committedSequence ++ (leBytes 8 o.committedTs ++
    (optionBytes (leBytes 8) o.lastConsumedAt ++ optionBytes (leBytes 8) o.lastConsumedTxnId)))

/-- Read an offset; bytes behind it are ignored. -/
def StreamOffset.deserialize (bs : Bytes) : Option StreamOffset := do
  let (tableId, bs) ← readLe 8 bs
  let (committedSequence, bs) ← readLe 8 bs
  let (committedTs, bs) ← readLe 8 bs
  let (lastConsumedAt, bs) ← readOption (readLe 8) bs
  let (lastConsumedTxnId, _) ← readOption (readLe 8) bs
  return { tableId, committedSequence, committedTs, lastConsumedAt, lastConsumedTxnId }

theorem readLe_u64 (hn : n ≤ u64Max) (rest : Bytes) :
    readLe 8 (leBytes 8 n ++ rest) = some (n, rest) := by
  have hlt : n < 256 ^ 8 := by
    unfold u64Max at hn
    omega
  exact readLe_append hlt rest

theorem StreamOffset.deserialize_serialize {o : StreamOffset} (h : o.Fits) :
    deserialize o.serialize = some o := by
  obtain ⟨htable, hseq, hts, hat, htxn⟩ := h
  have hlast : readOption (readLe 8) (optionBytes (leBytes 8) o.lastConsumedTxnId) =
      some (o.lastConsumedTxnId, []) := by
    simpa using readOption_append [] fun n hn => readLe_u64 (htxn n hn) []
  simp only [deserialize, serialize, readLe_u64 htable, readLe_u64 hseq, readLe_u64 hts,
    readOption_append _ fun n hn => readLe_u64 (hat n hn) _, hlast, bind, bind_some]
  rfl

/-- A key space in which keys are told apart by their first byte and their length. -/
def plainKeys : KeySpace where
  serialize := StreamOffset.serialize
  deserialize := StreamOffset.deserialize
  deserialize_serialize := StreamOffset.deserialize_serialize
  pack
    | .securityEpoch => [0]
    | .streamOffset s => 1 :: List.replicate s 0
    | .nextId counter => [2, UInt8.ofNat counter.ctorIdx]
  pack_injective := by
    rintro (_ | s | c) (_ | s' | c') h
    · rfl
    · simp at h
    · simp at h
    · simp at h
    · simpa using congrArg length h
    · simp at h
    · simp at h
    · simp at h
    · cases c <;> cases c' <;> first | rfl | (exact absurd h (by decide))

/-- The offset of a stream of table 1 that has been read through `n`. -/
def offsetAt (n : ℕ) : StreamOffset where
  tableId := 1
  committedSequence := n
  committedTs := 0
  lastConsumedAt := none
  lastConsumedTxnId := none

theorem offsetAt_five_fits : (offsetAt 5).Fits := by
  unfold StreamOffset.Fits offsetAt u64Max
  simp

/-- The store that holds the offset 0 of stream 3. -/
def oneOffset : KeyValue := Function.update (fun _ => none) (plainKeys.pack (.streamOffset 3))
  (some (plainKeys.serialize (offsetAt 0)))

/-- The batch that creates the key `[9]`. -/
def createKey : WriteBatch where
  mustNotExist := [[9]]
  sets := [([9], [1])]
  clears := []
  bumpEpoch := false

/-- A read of stream 3 whose commit went through is told of a concurrent read, a create that went
through is told that the key exists, and a counter skips a number. -/
theorem commit_unknown_misreported :
    (∃ kv', Attempts (compareAndSetKv plainKeys 3 0 (offsetAt 5)) oneOffset
        (.error (.streamConcurrentConsume 3)) kv' ∧
      Once (compareAndSetKv plainKeys 3 0 (offsetAt 5)) oneOffset (.ok ()) kv') ∧
    (∃ kv', Attempts (checkedWriteBatchKv plainKeys createKey) oneOffset
        (.error Store.preconditionFailed) kv' ∧
      Once (checkedWriteBatchKv plainKeys createKey) oneOffset (.ok 0) kv') ∧
    ∃ kv₁ kv₂, Attempts (atomicIncKv [9]) oneOffset (.ok 2) kv₂ ∧
      Once (atomicIncKv [9]) oneOffset (.ok 1) kv₁ ∧ kv₁ [9] ≠ kv₂ [9] := by
  have hcas : compareAndSetKv plainKeys 3 0 (offsetAt 5) oneOffset = .ok ((), update
      oneOffset (plainKeys.pack (.streamOffset 3)) (some (plainKeys.serialize (offsetAt 5)))) :=
    compareAndSetKv_eq_ok.2 ⟨⟨_, offsetAt 0, update_self .., rfl, rfl⟩, rfl⟩
  have hcreate : checkedWriteBatchKv plainKeys createKey oneOffset =
      .ok (0, createKey.write oneOffset) :=
    checkedWriteBatchKv_of_free (by decide)
  have hexists : checkedWriteBatchKv plainKeys createKey (createKey.write oneOffset) =
      .error Store.preconditionFailed :=
    checkedWriteBatchKv_of_taken (by decide : [9] ∈ createKey.mustNotExist) (by decide)
  have hfirst : atomicIncKv [9] oneOffset =
      .ok (1, update oneOffset [9] (some (beBytes 8 1))) :=
    atomicIncKv_eq_ok.2 ⟨rfl, by decide, rfl⟩
  have hsecond : atomicIncKv [9] (update oneOffset [9] (some (beBytes 8 1))) =
      .ok (2, update (update oneOffset [9] (some (beBytes 8 1))) [9]
        (some (beBytes 8 2))) :=
    atomicIncKv_eq_ok.2 ⟨rfl, by decide, rfl⟩
  refine ⟨⟨_, compareAndSet_reported_as_conflict offsetAt_five_fits hcas (by decide),
    .committed hcas⟩, ⟨_, .unknown hcreate (.last (.failed hexists)),
    .committed hcreate⟩, _, _, .unknown hfirst (.last (.committed hsecond)), .committed hfirst, ?_⟩
  decide

theorem stored_oneOffset : Stored plainKeys oneOffset
    { emptyStore with streamOffsets := update (fun _ => none) 3 (some (offsetAt 0)) } where
  offsets s := by
    by_cases hs : s = 3
    · subst hs
      simp only [oneOffset, update_self]
      rfl
    · simp [oneOffset, plainKeys.pack_injective.eq_iff, hs]
  counters counter := by simp [oneOffset, plainKeys.pack_injective.eq_iff, readCounter, emptyStore]

/-- A read of stream 3 moves its offset in both. -/
theorem compareAndSetKv_refines_read : ∃ kv' st', Stored plainKeys kv' st' ∧
    compareAndSetKv plainKeys 3 0 (offsetAt 5) oneOffset = .ok ((), kv') ∧
      st'.streamOffsets 3 = some (offsetAt 5) :=
  ⟨_, _, @compareAndSetKv_refines 0 (offsetAt 5) 3 _ _ _ stored_oneOffset offsetAt_five_fits,
    rfl, rfl⟩

/-- The first table takes the identifier 1 in both. -/
theorem atomicIncKv_refines_first : ∃ kv' st', Stored plainKeys kv' st' ∧
    atomicIncKv (plainKeys.pack (.nextId .table)) oneOffset = .ok (1, kv') ∧
      st'.nextId .table = 1 :=
  ⟨_, _, (atomicIncKv_refines stored_oneOffset .table).2, rfl, rfl⟩

end NovaCore
