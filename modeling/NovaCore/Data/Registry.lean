import Mathlib.Data.Nat.Notation
import Mathlib.Logic.Function.Basic

/-!
# Registries of named objects

A registry maps keys to objects.  An object has an identifier, which may be only a part of its key,
and a name, which should be unique within the object's scope.

## Main definitions

* `Naming` : where the key, the identifier, the scope and the name of an object are found.
* `Registry.Sound` : objects are stored under their keys, no identifier is 0, and neither an
  identifier nor a name within a scope is used twice.
* `Registry.Fresh` : neither the identifier nor the name of an object is in use.

## Main results

* `Registry.Sound.insert_iff` : storing an object under a free key keeps the registry sound exactly
  if the object is fresh.
-/

namespace NovaCore

open Function

/-- What identifies the objects of one kind. -/
structure Naming (κ α σ : Type) where
  key : α → κ
  id : α → ℕ
  scope : α → σ
  name : α → String
  /-- The key determines the identifier. -/
  id_of_key : ∀ x y, key x = key y → id x = id y

namespace Registry

variable {κ α σ : Type} {N : Naming κ α σ} {m m' : κ → Option α}

/-- Objects are stored under their keys and told apart by identifier and by name. -/
structure Sound (N : Naming κ α σ) (m : κ → Option α) : Prop where
  keyed : ∀ k x, m k = some x → N.key x = k
  ne_zero : ∀ k x, m k = some x → N.id x ≠ 0
  id_inj : ∀ k k' x y, m k = some x → m k' = some y → N.id x = N.id y → k = k'
  name_inj : ∀ k k' x y, m k = some x → m k' = some y → N.scope x = N.scope y →
    N.name x = N.name y → k = k'

/-- The identifier is in use. -/
def Uses (N : Naming κ α σ) (m : κ → Option α) (id : ℕ) : Prop := ∃ k y, m k = some y ∧ N.id y = id

/-- The name of `x` is not in use in its scope. -/
def NameFree (N : Naming κ α σ) (m : κ → Option α) (x : α) : Prop :=
  ∀ k y, m k = some y → N.scope y = N.scope x → N.name y ≠ N.name x

/-- Neither the identifier nor the name of `x` is in use, and the identifier is not 0. -/
structure Fresh (N : Naming κ α σ) (m : κ → Option α) (x : α) : Prop where
  ne_zero : N.id x ≠ 0
  id : ¬Uses N m (N.id x)
  name : NameFree N m x

theorem sound_empty : Sound N fun _ => none := by
  refine ⟨?_, ?_, ?_, ?_⟩ <;> simp

/-- Removing objects keeps a registry sound. -/
theorem Sound.mono (h : Sound N m) (hm : ∀ k x, m' k = some x → m k = some x) : Sound N m' where
  keyed k x hx := h.keyed k x (hm k x hx)
  ne_zero k x hx := h.ne_zero k x (hm k x hx)
  id_inj k k' x y hx hy := h.id_inj k k' x y (hm k x hx) (hm k' y hy)
  name_inj k k' x y hx hy := h.name_inj k k' x y (hm k x hx) (hm k' y hy)

/-- The key of a fresh object is free. -/
theorem Fresh.unused {x : α} (hx : Fresh N m x) (h : Sound N m) : m (N.key x) = none := by
  cases hy : m (N.key x) with
  | none => rfl
  | some y => exact absurd ⟨_, y, hy, N.id_of_key y x (h.keyed _ y hy)⟩ hx.id

variable [DecidableEq κ]

theorem update_eq_some {k : κ} {x y : α} (h : update m (N.key x) (some x) k = some y) :
    k = N.key x ∧ y = x ∨ m k = some y := by
  by_cases hk : k = N.key x
  · subst hk
    rw [update_self] at h
    exact .inl ⟨rfl, (Option.some.inj h).symm⟩
  · rw [update_of_ne hk] at h
    exact .inr h

theorem Sound.insert (h : Sound N m) {x : α} (hx : Fresh N m x) :
    Sound N (update m (N.key x) (some x)) := by
  refine ⟨?_, ?_, ?_, ?_⟩
  · intro k y hy
    obtain ⟨rfl, rfl⟩ | hy := update_eq_some hy
    · rfl
    · exact h.keyed k y hy
  · intro k y hy
    obtain ⟨rfl, rfl⟩ | hy := update_eq_some hy
    · exact hx.ne_zero
    · exact h.ne_zero k y hy
  · intro k k' y z hy hz hid
    obtain ⟨rfl, rfl⟩ | hold := update_eq_some hy
    · obtain ⟨rfl, rfl⟩ | hold' := update_eq_some hz
      · rfl
      · exact absurd ⟨k', z, hold', hid.symm⟩ hx.id
    · obtain ⟨rfl, rfl⟩ | hold' := update_eq_some hz
      · exact absurd ⟨k, y, hold, hid⟩ hx.id
      · exact h.id_inj k k' y z hold hold' hid
  · intro k k' y z hy hz hscope hname
    obtain ⟨rfl, rfl⟩ | hold := update_eq_some hy
    · obtain ⟨rfl, rfl⟩ | hold' := update_eq_some hz
      · rfl
      · exact absurd hname.symm (hx.name k' z hold' hscope.symm)
    · obtain ⟨rfl, rfl⟩ | hold' := update_eq_some hz
      · exact absurd hname (hx.name k y hold hscope)
      · exact h.name_inj k k' y z hold hold' hscope hname

/-- **Storing an object** overwrites none and keeps the registry sound exactly if the object is
fresh. -/
theorem Sound.insert_iff (h : Sound N m) {x : α} :
    m (N.key x) = none ∧ Sound N (update m (N.key x) (some x)) ↔ Fresh N m x := by
  refine ⟨fun ⟨hfree, hsound⟩ => ?_, fun hx => ⟨hx.unused h, h.insert hx⟩⟩
  have hself : update m (N.key x) (some x) (N.key x) = some x := update_self ..
  have hother : ∀ k y, m k = some y → k ≠ N.key x ∧ update m (N.key x) (some x) k = some y := by
    intro k y hy
    have hk : k ≠ N.key x := by
      rintro rfl
      rw [hfree] at hy
      cases hy
    exact ⟨hk, by rw [update_of_ne hk, hy]⟩
  refine ⟨hsound.ne_zero _ x hself, fun ⟨k, y, hy, hid⟩ => ?_, fun k y hy hscope hname => ?_⟩
  · obtain ⟨hk, hy'⟩ := hother k y hy
    exact hk (hsound.id_inj _ _ y x hy' hself hid)
  · obtain ⟨hk, hy'⟩ := hother k y hy
    exact hk (hsound.name_inj _ _ y x hy' hself hscope hname)

end Registry

end NovaCore
