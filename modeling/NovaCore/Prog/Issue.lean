import NovaCore.Data.Lists

/-!
# Identifiers from a counter

Threads take identifiers from a shared counter and use them later, in a separate operation.  Other
operations happen in between, so an identifier that was issued has to stay unused until its own
thread stores something under it.

## Main definitions

* `IssueInv` : every identifier was issued once, and one that waits for its thread is not in use.

## Main results

* `IssueInv.quiet`, `IssueInv.issueNext`, `IssueInv.store` : what one event does.
* `IssueInv.unused` : what a thread that has used nothing was given is not in use.
-/

namespace NovaCore

variable {ι E : Type} {issue : ℕ → E} {done : E → Prop} {base next : ℕ} {h : List (ι × E)}
  {used used' : ℕ → Prop} {i : ι} {e : E} {id : ℕ}

/-- After the history `h`, with the identifiers `used` and the counter `next`, which was `base` at
the start: `issue id` is the event that hands `id` out, and an event with `done` uses what its
thread was given. -/
structure IssueInv (issue : ℕ → E) (done : E → Prop) (base : ℕ) (h : List (ι × E))
    (used : ℕ → Prop) (next : ℕ) : Prop where
  base_le : base ≤ next
  used_le : ∀ id, used id → id ≤ next
  issued : ∀ i id, (i, issue id) ∈ h → base < id ∧ id ≤ next
  unique : ∀ i j id, (i, issue id) ∈ h → (j, issue id) ∈ h → i = j
  pending : ∀ h₁ i id h₂, h = h₁ ++ (i, issue id) :: h₂ → (∀ e, (i, e) ∈ h₂ → ¬done e) → ¬used id

namespace IssueInv

open Nat Prod

theorem init (hused : ∀ id, used id → id ≤ base) :
    IssueInv issue done base ([] : List (ι × E)) used base :=
  ⟨Nat.le_refl _, hused, by simp, by simp, by simp⟩

variable (hinv : IssueInv issue done base h used next)
include hinv

theorem unused (hissued : (i, issue id) ∈ h) (hno : ∀ e, (i, e) ∈ h → ¬done e) : ¬used id := by
  obtain ⟨h₁, h₂, rfl⟩ := List.append_of_mem hissued
  exact hinv.pending h₁ i id h₂ rfl fun e he => hno e (by simp [he])

/-- An event that hands out nothing, and after which no more is in use. -/
theorem quiet (he : ∀ id, e ≠ issue id) (hused : ∀ id, used' id → used id) :
    IssueInv issue done base (h ++ [(i, e)]) used' next := by
  have hmem : ∀ j id, (j, issue id) ∈ h ++ [(i, e)] → (j, issue id) ∈ h := by
    intro j id hj
    rcases mem_snoc.1 hj with hj | hj
    · exact hj
    · exact absurd (congrArg snd hj).symm (he id)
  refine ⟨hinv.base_le, fun id hid => hinv.used_le id (hused id hid),
    fun j id hj => hinv.issued j id (hmem j id hj),
    fun j k id hj hk => hinv.unique j k id (hmem j id hj) (hmem k id hk),
    fun h₁ j id h₂ heq hno hid => ?_⟩
  obtain ⟨-, -, hlast⟩ | ⟨h₃, rfl, rfl⟩ := snoc_eq_append_cons.1 heq
  · exact he id (congrArg snd hlast)
  · exact hinv.pending h₁ j id h₃ rfl (fun e he => hno e (List.mem_append_left _ he)) (hused id hid)

/-- The counter hands out an identifier that is not in use. -/
theorem issueNext (hinj : Function.Injective issue) :
    IssueInv issue done base (h ++ [(i, issue (next + 1))]) used (next + 1) := by
  have hold : ∀ j, (j, issue (next + 1)) ∉ h := fun j hj =>
    absurd (hinv.issued j _ hj).2 (not_succ_le_self next)
  have hcases : ∀ j id, (j, issue id) ∈ h ++ [(i, issue (next + 1))] →
      (j, issue id) ∈ h ∨ j = i ∧ id = next + 1 := by
    intro j id hj
    rcases mem_snoc.1 hj with hj | hj
    · exact .inl hj
    · exact .inr ⟨congrArg fst hj, hinj (congrArg snd hj)⟩
  refine ⟨le_succ_of_le hinv.base_le,
    fun id hid => le_succ_of_le (hinv.used_le id hid), ?_, ?_, ?_⟩
  · intro j id hj
    rcases hcases j id hj with hj | ⟨-, rfl⟩
    · exact ⟨(hinv.issued j id hj).1, le_succ_of_le (hinv.issued j id hj).2⟩
    · exact ⟨Nat.lt_succ_of_le hinv.base_le, Nat.le_refl _⟩
  · intro j k id hj hk
    rcases hcases j id hj with hj | ⟨rfl, rfl⟩
    · rcases hcases k id hk with hk | ⟨-, rfl⟩
      · exact hinv.unique j k id hj hk
      · exact absurd hj (hold j)
    · rcases hcases k _ hk with hk | ⟨rfl, -⟩
      · exact absurd hk (hold k)
      · rfl
  · intro h₁ j id h₂ heq hno hid
    obtain ⟨-, -, hlast⟩ | ⟨h₃, rfl, rfl⟩ := snoc_eq_append_cons.1 heq
    · rw [← hinj (congrArg snd hlast)] at hid
      exact absurd (hinv.used_le _ hid) (not_succ_le_self next)
    · exact hinv.pending h₁ j id h₃ rfl (fun e he => hno e (List.mem_append_left _ he)) hid

/-- A thread uses the identifier that was issued to it, or one that the counter does not hand
out. -/
theorem store (hid : (i, issue id) ∈ h ∧ done e ∨ id ≤ base) (he : ∀ id, e ≠ issue id)
    (hused : ∀ k, used' k → used k ∨ k = id) :
    IssueInv issue done base (h ++ [(i, e)]) used' next := by
  have hquiet : IssueInv issue done base (h ++ [(i, e)]) used next := hinv.quiet he fun _ hk => hk
  refine { hquiet with used_le := fun k hk => ?_, pending := fun h₁ j k h₂ heq hno hk => ?_ }
  · obtain hk | rfl := hused k hk
    · exact hinv.used_le k hk
    · exact hid.elim (fun hid => (hinv.issued i k hid.1).2) fun hid => Nat.le_trans hid hinv.base_le
  · obtain hk | rfl := hused k hk
    · exact hquiet.pending h₁ j k h₂ heq hno hk
    · obtain ⟨hissued, hdone⟩ | hid := hid
      · obtain ⟨-, -, hlast⟩ | ⟨h₃, rfl, rfl⟩ := snoc_eq_append_cons.1 heq
        · exact he k (congrArg snd hlast)
        · obtain rfl := hinv.unique j i k (by simp) hissued
          exact hno e (by simp) hdone
      · exact absurd hid (Nat.not_le.2 (hquiet.issued j k (by simp [heq])).1)

end IssueInv

end NovaCore
