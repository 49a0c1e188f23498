import Mathlib.Data.Multiset.Bind

/-!
# Replaying a list of changes

A change adds an element to a multiset or removes one; removing an element that is not there
fails.  `Turns cs A B` says that the changes `cs` turn `A` into `B` without ever removing an absent
element, whatever else the multiset contains, so lists of changes can be put together both one
after another and side by side.

## Main results

* `Turns.append` : changes made one after another.
* `Turns.add` : changes made on two parts of a multiset.
* `Turns.replace` : removing elements and adding others replaces the ones by the others.
-/

namespace NovaCore

open Multiset

/-- A change of a multiset. -/
inductive Change (α : Type)
  /-- Add an element. -/
  | add (a : α)
  /-- Remove an element. -/
  | remove (a : α)
  deriving DecidableEq

variable {α : Type} [DecidableEq α] (A : Multiset α)

/-- The multiset after a change, if the change can be made. -/
def Change.apply : Change α → Option (Multiset α)
  | add a => some (a ::ₘ A)
  | remove a => if a ∈ A then some (A.erase a) else none

/-- The multiset after a list of changes, if all of them can be made. -/
def replay (cs : List (Change α)) : Option (Multiset α) :=
  cs.foldlM Change.apply A

theorem replay_cons (c : Change α) (cs : List (Change α)) :
    replay A (c :: cs) = (c.apply A).bind fun B => replay B cs := rfl

theorem replay_append (cs ds : List (Change α)) :
    replay A (cs ++ ds) = (replay A cs).bind fun B => replay B ds :=
  List.foldlM_append

/-- The changes turn `A` into `B`, whatever else is there. -/
def Turns (cs : List (Change α)) (A B : Multiset α) : Prop :=
  ∀ X, replay (A + X) cs = some (B + X)

namespace Turns

variable {cs ds : List (Change α)} {A A' B B' C : Multiset α}

theorem nil : Turns [] A A := fun _ => rfl

theorem append (h1 : Turns cs A B) (h2 : Turns ds B C) : Turns (cs ++ ds) A C := by
  intro X
  rw [replay_append, h1 X]
  exact h2 X

/-- The part that is not changed yet, or no more, is what else is there. -/
theorem add (h1 : Turns cs A B) (h2 : Turns ds A' B') : Turns (cs ++ ds) (A + A') (B + B') := by
  intro X
  rw [replay_append, add_assoc, h1 (A' + X)]
  have hcomm : ∀ C : Multiset α, B + (C + X) = C + (B + X) := fun C => add_left_comm B C X
  calc replay (B + (A' + X)) ds = replay (A' + (B + X)) ds := by rw [hcomm]
    _ = some (B' + (B + X)) := h2 (B + X)
    _ = some (B + B' + X) := by rw [← hcomm, add_assoc]

theorem adds (l : List α) : Turns (l.map Change.add) 0 l := by
  induction l with
  | nil => exact nil
  | cons a l ih =>
    intro X
    change replay (a ::ₘ (0 + X)) _ = _
    rw [← add_cons, ih, add_cons, ← cons_coe, cons_add]

theorem removes (l : List α) : Turns (l.map Change.remove) l 0 := by
  induction l with
  | nil => exact nil
  | cons a l ih =>
    intro X
    have hmem : a ∈ ((a :: l : List α) : Multiset α) + X := by simp
    have hrest : (((a :: l : List α) : Multiset α) + X).erase a = (l : Multiset α) + X := by
      rw [← cons_coe, cons_add, erase_cons_head]
    rw [List.map_cons, replay_cons, Change.apply, if_pos hmem, hrest]
    exact ih X

/-- **Replacing elements.** -/
theorem replace (old new : List α) (R : Multiset α) :
    Turns (old.map Change.remove ++ new.map Change.add) (old + R) (new + R) := by
  have h : Turns (old.map Change.remove ++ new.map Change.add) old new :=
    (removes old).append (adds new)
  simpa using h.add (nil)

/-- Changes made side by side on the parts of a collection. -/
theorem bind {β : Type} {xs : List β} {css : List (List (Change α))} {f g : β → Multiset α}
    (h : List.Forall₂ (fun x cs => Turns cs (f x) (g x)) xs css) :
    Turns css.flatten ((xs : Multiset β).bind f) ((xs : Multiset β).bind g) := by
  induction h with
  | nil => exact nil
  | cons hx _ ih =>
    exact hx.add ih

end Turns

end NovaCore
