import NovaCore.Workers.Partition

/-!
# Rescheduling the fragments of dead workers

`reschedule_failed_fragments` gives each fragment of a dead worker a new id and a worker that is
alive, and returns an empty list when no worker is alive.

## Main definitions

* `rescheduleFailedFragments` : the call, with the next fragment id as state.
* `Rescheduled`, `ReschedulesThrough` : no work is lost in one call, and in repeated ones.

## Main results

* `reschedulesThrough_iff` : as long as the ids fit, **no work is lost if and only if** some worker
  is alive in every call, or there is no micro-partition to lose.
* `reschedule_drops_fragments` : when every worker is dead, the micro-partitions are dropped.
-/

namespace NovaCore.Workers

open List QueryFragment

/-- The loop over the fragments, which are numbered from `i`. -/
def reassign (active dead : List ℕ) :
    ℕ → ℕ → List QueryFragment → Except NovaError (ℕ × List QueryFragment)
  | next, _, [] => .ok (next, [])
  | next, i, f :: rest =>
    if f.workerId ∈ dead then do
      let following ← checkedAdd next 1
      let r ← reassign active dead following (i + 1) rest
      pure (r.1, ⟨next, (active[i % active.length]?).getD 0, f.mpIds⟩ :: r.2)
    else do
      let r ← reassign active dead next (i + 1) rest
      pure (r.1, f :: r.2)

/-- The ids of the workers that are alive, in order. -/
def activeWorkers (workers : List WorkerInfo) (dead : List ℕ) : List ℕ :=
  ((workers.map WorkerInfo.workerId).filter (· ∉ dead)).mergeSort (· ≤ ·)

/-- `reschedule_failed_fragments`: the next fragment id and the fragments. -/
def rescheduleFailedFragments (workers : List WorkerInfo) (next : ℕ)
    (fragments : List QueryFragment) (dead : List ℕ) :
    Except NovaError (ℕ × List QueryFragment) :=
  if (activeWorkers workers dead).isEmpty then .ok (next, [])
  else reassign (activeWorkers workers dead) dead next 0 fragments

/-- The fragments `out` do the work of `fs` without the dead workers. -/
structure Rescheduled (dead : List ℕ) (fs out : List QueryFragment) : Prop where
  covers : (out.flatMap QueryFragment.mpIds).Perm (fs.flatMap QueryFragment.mpIds)
  alive : ∀ g ∈ out, g.workerId ∉ dead
  kept : ∀ f ∈ fs, f.workerId ∉ dead → f ∈ out
  nodup : (out.map QueryFragment.fragmentId).Nodup

/-- Every one of repeated calls, with the workers that are dead then, returns and does the work of
the fragments the call before it returned. -/
def ReschedulesThrough (workers : List WorkerInfo) :
    ℕ → List QueryFragment → List (List ℕ) → Prop
  | _, _, [] => True
  | next, fs, dead :: rounds => ∃ r, rescheduleFailedFragments workers next fs dead = .ok r ∧
      Rescheduled dead fs r.2 ∧ ReschedulesThrough workers r.1 r.2 rounds

variable {workers : List WorkerInfo} {active dead : List ℕ} {next i : ℕ} {fs : List QueryFragment}

/-- What the loop returns as long as the ids fit, by induction on the fragments: the work of each,
and fragments that were there before or are new. -/
theorem reassign_spec (hne : active ≠ []) (hfits : next + fs.length ≤ u64Max) :
    ∃ r, reassign active dead next i fs = .ok r ∧
    next ≤ r.1 ∧ r.1 ≤ next + fs.length ∧ r.2.map mpIds = fs.map mpIds ∧
    (∀ f ∈ fs, f.workerId ∉ dead → f ∈ r.2) ∧
    (∀ g ∈ r.2, g ∈ fs ∧ g.workerId ∉ dead ∨
      g.workerId ∈ active ∧ next ≤ g.fragmentId ∧ g.fragmentId < r.1) ∧
    ((fs.map fragmentId).Nodup → (∀ f ∈ fs, f.fragmentId < next) → (r.2.map fragmentId).Nodup) := by
  induction fs generalizing next i with
  | nil => exact ⟨(next, []), rfl, by simp⟩
  | cons f fs ih =>
    have hi := Nat.mod_lt i (length_pos_iff.2 hne)
    rw [length_cons] at hfits
    by_cases hf : f.workerId ∈ dead
    · have hnext : checkedAdd next 1 = .ok (next + 1) := checkedAdd_eq_ok.2 ⟨by omega, rfl⟩
      obtain ⟨r, hr, hle, hbound, hwork, hkept, hmem, hnodup⟩ := @ih (next + 1) (i + 1) (by omega)
      refine ⟨(r.1, ⟨next, (active[i % active.length]?).getD 0, f.mpIds⟩ :: r.2), ?_, ?_⟩
      · rw [reassign, if_pos hf]
        exact except_bind_eq_ok.2 ⟨_, hnext, except_bind_eq_ok.2 ⟨r, hr, rfl⟩⟩
      · exact ⟨by grind, by grind, by simp [hwork], by grind, by grind, by grind⟩
    · obtain ⟨r, hr, hle, hbound, hwork, hkept, hmem, hnodup⟩ := @ih next (i + 1) (by omega)
      refine ⟨(r.1, f :: r.2), ?_, ?_⟩
      · rw [reassign, if_neg hf]
        exact except_bind_eq_ok.2 ⟨r, hr, rfl⟩
      · exact ⟨by grind, by grind, by simp [hwork], by grind, by grind, by grind⟩

theorem mem_activeWorkers {id : ℕ} : id ∈ activeWorkers workers dead ↔
    (∃ w ∈ workers, w.workerId = id) ∧ id ∉ dead := by
  simp [activeWorkers, mem_mergeSort]

/-- One call loses no work if and only if there is none or a worker is alive, and its fragments are
again ones that the dispatcher has handed out. -/
theorem rescheduled_iff (h : Issued workers next fs) (hfits : next + fs.length ≤ u64Max)
    (dead : List ℕ) : ∃ r, rescheduleFailedFragments workers next fs dead = .ok r ∧
      r.1 ≤ next + fs.length ∧ r.2.length ≤ fs.length ∧ Issued workers r.1 r.2 ∧
      (Rescheduled dead fs r.2 ↔ (∀ f ∈ fs, f.mpIds = []) ∨ ∃ w ∈ workers, w.workerId ∉ dead) := by
  obtain ⟨hworkers, hnodup, hlt⟩ := h
  have hactive := @mem_activeWorkers workers dead
  rw [rescheduleFailedFragments]
  split_ifs with hne <;> rw [List.isEmpty_iff] at hne
  · have hdead : ¬∃ w ∈ workers, w.workerId ∉ dead := by
      rintro ⟨w, hw, hd⟩
      exact ne_nil_of_mem (hactive.2 ⟨⟨w, hw, rfl⟩, hd⟩) hne
    refine ⟨_, rfl, by simp, by simp, ⟨by simp, .nil, by simp⟩, fun hr => .inl ?_,
      fun hw => ⟨?_, by simp, ?_, .nil⟩⟩
    · exact flatMap_eq_nil_iff.1 (nil_perm.1 hr.covers)
    · rw [flatMap_eq_nil_iff.2 (hw.resolve_right hdead)]
      exact .nil
    · grind
  · obtain ⟨r, hr, hle, hbound, hwork, hkept, hmem, hids⟩ :=
      @reassign_spec _ dead next 0 fs hne hfits
    have hids := hids hnodup hlt
    obtain ⟨id, hid⟩ := exists_mem_of_ne_nil _ hne
    obtain ⟨⟨w, hw, rfl⟩, hd⟩ := hactive.1 hid
    have hlength : r.2.length = fs.length := by simpa using congrArg length hwork
    refine ⟨r, hr, hbound, hlength.le, ⟨by grind, hids, by grind⟩,
      iff_of_true ⟨?_, by grind, hkept, hids⟩ (.inr ⟨w, hw, hd⟩)⟩
    rw [flatMap_def, flatMap_def, hwork]

/-- **Rescheduling loses no work**, in repeated calls with any dead workers, if and only if there is
no micro-partition to lose or some worker is alive in every call; the ids of all calls fit. -/
theorem reschedulesThrough_iff (h : Issued workers next fs) (rounds : List (List ℕ))
    (hfits : next + rounds.length * fs.length ≤ u64Max) :
    ReschedulesThrough workers next fs rounds ↔
      (∀ f ∈ fs, f.mpIds = []) ∨ ∀ dead ∈ rounds, ∃ w ∈ workers, w.workerId ∉ dead := by
  induction rounds generalizing next fs with
  | nil => simp [ReschedulesThrough]
  | cons dead rounds ih =>
    rw [length_cons, Nat.succ_mul] at hfits
    obtain ⟨r, hr, hnext, hlength, hissued, hone⟩ := rescheduled_iff h (by omega) dead
    have hrest : r.1 + rounds.length * r.2.length ≤ u64Max :=
      calc r.1 + rounds.length * r.2.length
          ≤ next + fs.length + rounds.length * fs.length :=
            Nat.add_le_add hnext (Nat.mul_le_mul_left _ hlength)
        _ ≤ u64Max := by omega
    have hthrough : ReschedulesThrough workers next fs (dead :: rounds) ↔
        Rescheduled dead fs r.2 ∧ ReschedulesThrough workers r.1 r.2 rounds := by
      rw [ReschedulesThrough, hr]
      simp
    rw [hthrough, ih hissued hrest, forall_mem_cons, or_and_left, ← hone]
    -- a call that loses no work leaves nothing to do exactly if there was nothing to do
    refine and_congr_right fun hr => or_congr_left ?_
    rw [← flatMap_eq_nil_iff, ← flatMap_eq_nil_iff]
    exact ⟨fun hnil => nil_perm.1 (hnil ▸ hr.covers), fun hnil => perm_nil.1 (hnil ▸ hr.covers)⟩

/-- **Micro-partitions are dropped**: the only worker is dead, and the answer is an empty list. -/
theorem reschedule_drops_fragments :
    distributeScan [⟨1, "a", .active, 0⟩] 1 [7] = .ok (2, [⟨1, 1, [7]⟩]) ∧
    rescheduleFailedFragments [⟨1, "a", .active, 0⟩] 2 [⟨1, 1, [7]⟩] [1] = .ok (2, []) ∧
    ¬Rescheduled [1] [⟨1, 1, [7]⟩] [] :=
  ⟨by decide, by decide +kernel, fun h => by simpa using h.covers⟩

/-- Two workers that die in turn. -/
theorem reschedulesThrough_iff_two : ReschedulesThrough
    [⟨1, "a", .active, 0⟩, ⟨2, "b", .active, 0⟩] 2 [⟨1, 1, [7]⟩] [[1], [2]] :=
  (reschedulesThrough_iff ⟨by simp, by simp, by simp⟩ _ (by decide)).2 (.inr (by simp))

end NovaCore.Workers
