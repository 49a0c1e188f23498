import Mathlib.Data.List.Forall2

/-!
# Computations that may fail

When a sequence of fallible computations succeeds, and with what.
-/

namespace NovaCore

open List

variable {ε α β : Type} {x : Except ε α} {f : α → Except ε β} {a : α} {b : β} {xs : List α}

theorem except_bind_eq_ok : (x >>= f) = .ok b ↔ ∃ a, x = .ok a ∧ f a = .ok b := by
  cases x with
  | ok a =>
    constructor
    · intro h
      exact ⟨a, rfl, h⟩
    · rintro ⟨_, ⟨⟩, h⟩
      exact h
  | error e =>
    constructor
    · rintro ⟨⟩
    · rintro ⟨_, ⟨⟩, _⟩

/-- A loop that collects results succeeds if every iteration does. -/
theorem mapM_eq_ok_iff {ys : List β} :
    xs.mapM f = .ok ys ↔ List.Forall₂ (fun x y => f x = .ok y) xs ys := by
  induction xs generalizing ys with
  | nil =>
    rw [forall₂_nil_left_iff]
    constructor
    · rintro ⟨⟩
      rfl
    · rintro rfl
      rfl
  | cons x xs ih =>
    rw [mapM_cons, forall₂_cons_left_iff]
    constructor
    · intro h
      obtain ⟨y, hy, h⟩ := except_bind_eq_ok.1 h
      obtain ⟨ys', hys, h⟩ := except_bind_eq_ok.1 h
      cases h
      exact ⟨y, ys', hy, ih.1 hys, rfl⟩
    · rintro ⟨y, ys', hy, hys, rfl⟩
      exact except_bind_eq_ok.2 ⟨y, hy, except_bind_eq_ok.2 ⟨ys', ih.2 hys, rfl⟩⟩

/-- A loop that rejects some elements and keeps the others as they are. -/
theorem exists_mapM_eq_ok_iff : (∃ ys, xs.mapM f = .ok ys) ↔ ∀ x ∈ xs, ∃ y, f x = .ok y := by
  simp only [mapM_eq_ok_iff]
  induction xs with
  | nil => simp
  | cons x xs ih =>
    rw [forall_mem_cons, ← ih]
    constructor
    · rintro ⟨_, hys⟩
      cases hys with
      | cons hy hys => exact ⟨⟨_, hy⟩, _, hys⟩
    · rintro ⟨⟨y, hy⟩, ys, hys⟩
      exact ⟨y :: ys, .cons hy hys⟩

theorem ok_unique {c : α} (ha : x = .ok a) (hc : x = .ok c) : a = c :=
  Except.ok.inj (ha.symm.trans hc)

theorem exists_error_iff : (∃ e, x = .error e) ↔ ¬∃ a, x = .ok a := by
  cases x <;> simp

theorem mapM_reject_eq_ok {p : α → Prop} [DecidablePred p] {e : α → ε}
    {ys : List α} : (xs.mapM fun x => if p x then (.error (e x) : Except ε α) else .ok x) =
      .ok ys ↔ ys = xs ∧ ∀ x ∈ xs, ¬p x := by
  rw [mapM_eq_ok_iff]
  constructor
  · intro h
    induction h with
    | nil => simp
    | cons hx _ ih =>
      split_ifs at hx with hpx
      cases hx
      obtain ⟨rfl, hall⟩ := ih
      exact ⟨rfl, by simpa [hpx] using hall⟩
  · rintro ⟨rfl, h⟩
    exact forall₂_same.2 fun x hx => if_neg (h x hx)

theorem except_map_eq_ok {f : α → β} : x.map f = .ok b ↔ ∃ a, x = .ok a ∧ f a = b := by
  cases x with
  | ok a | error e => simp [Except.map]

theorem map_unit_eq_ok {u : Unit} : x.map (fun a => ((), a)) = .ok (u, a) ↔ x = .ok a := by
  cases x with
  | ok b | error e => simp [Except.map]

/-! ### Properties of results -/

/-- Every result of the computation has the property; it may fail. -/
def Yields (x : Except ε α) (P : α → Prop) : Prop := ∀ a, x = .ok a → P a

variable {P : α → Prop} {Q : β → Prop}

@[simp] theorem yields_ok_iff : Yields (.ok a : Except ε α) P ↔ P a := by
  constructor
  · exact fun h => h a rfl
  · rintro h _ ⟨⟩
    exact h

@[simp] theorem yields_pure_iff : Yields (pure a : Except ε α) P ↔ P a := yields_ok_iff

@[simp] theorem yields_error (e : ε) (P : α → Prop) : Yields (.error e : Except ε α) P := nofun

theorem Yields.bind (hx : Yields x P) (hf : ∀ a, P a → Yields (f a) Q) : Yields (x >>= f) Q := by
  intro b h
  obtain ⟨a, ha, hb⟩ := except_bind_eq_ok.1 h
  exact hf a (hx a ha) b hb

/-- The last steps decide about the result. -/
theorem yields_bind (hf : ∀ a, Yields (f a) Q) : Yields (x >>= f) Q :=
  Yields.bind (fun _ _ => trivial) fun a _ => hf a

end NovaCore
