import Mathlib.Logic.Basic

/-!
# Transactions that are run again

A transaction body reads and changes a state or fails and changes nothing.  A client that does not
learn whether a commit went through runs the body again, now on the state that the first attempt
left.  An attempt that was certainly not committed leaves no trace, so running the body again after
one is the same as running it for the first time.

## Main results

* `attempts_eq_once_iff` : what the attempts return and leave is what one of them does, exactly if
  the body fails at once, or answers the same and changes nothing on the state that it left.
-/

namespace NovaCore

variable {S ε α : Type}

/-- One execution of a body, committed. -/
inductive Once (f : S → Except ε (α × S)) (s : S) : Except ε α → S → Prop
  | failed {e : ε} (h : f s = .error e) : Once f s (.error e) s
  | committed {a : α} {s' : S} (h : f s = .ok (a, s')) : Once f s (.ok a) s'

/-- A body that is executed until the outcome of its commit is known. -/
inductive Attempts (f : S → Except ε (α × S)) : S → Except ε α → S → Prop
  | last {s s' : S} {r : Except ε α} (h : Once f s r s') : Attempts f s r s'
  | unknown {s s₁ s' : S} {a : α} {r : Except ε α} (h : f s = .ok (a, s₁))
      (hr : Attempts f s₁ r s') : Attempts f s r s'

variable {f : S → Except ε (α × S)} {s s' : S} {r : Except ε α}

theorem once_of_eq_ok {a : α} {s1 : S} (h : f s = .ok (a, s1)) :
    Once f s r s' ↔ r = .ok a ∧ s' = s1 := by
  constructor
  · rintro (he | hc)
    · rw [h] at he
      cases he
    · rw [h] at hc
      cases hc
      exact ⟨rfl, rfl⟩
  · rintro ⟨rfl, rfl⟩
    exact .committed h

/-- A body that answers the same on the state it left does so however often it is run. -/
theorem Attempts.eq_of_stable {a : α} (h : f s = .ok (a, s)) (hr : Attempts f s r s') :
    r = .ok a ∧ s' = s := by
  induction hr with
  | last ho => exact (once_of_eq_ok h).1 ho
  | unknown h1 _ ih =>
    rw [h] at h1
    cases h1
    exact ih h

/-- **When retrying does not show.** -/
theorem attempts_eq_once_iff : (∀ r s', Attempts f s r s' → Once f s r s') ↔
      (∃ e, f s = .error e) ∨ ∃ a s1, f s = .ok (a, s1) ∧ f s1 = .ok (a, s1) := by
  constructor
  · intro hsafe
    cases hs : f s with
    | error e => exact .inl ⟨e, rfl⟩
    | ok y =>
      obtain ⟨a, s1⟩ := y
      refine .inr ⟨a, s1, rfl, ?_⟩
      -- the second attempt has to answer as the first one did
      cases hs1 : f s1 with
      | error e =>
        obtain ⟨hr, -⟩ := (once_of_eq_ok hs).1 (hsafe _ _ (.unknown hs (.last (.failed hs1))))
        cases hr
      | ok y =>
        obtain ⟨hr, rfl⟩ := (once_of_eq_ok hs).1 (hsafe _ _ (.unknown hs (.last (.committed hs1))))
        cases hr
        rfl
  · rintro (⟨e, he⟩ | ⟨a, s1, hs, hs1⟩) r s' hr
    · cases hr with
      | last ho => exact ho
      | unknown h _ =>
        rw [he] at h
        cases h
    · cases hr with
      | last ho => exact ho
      | unknown h hr =>
        rw [hs] at h
        cases h
        exact (once_of_eq_ok hs).2 (hr.eq_of_stable hs1)

end NovaCore
