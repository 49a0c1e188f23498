import Mathlib.Data.List.Nodup
import Mathlib.Data.List.Pairwise

/-!
# Lists

Elements of lists whose elements are pairwise related, and of lists related element by element;
loops that change one entry of a table at a time or append to a list; the elements a mask picks.
-/

namespace NovaCore

open List

variable {α β : Type*} {l : List α}

theorem mem_snoc {x y : α} : x ∈ l ++ [y] ↔ x ∈ l ∨ x = y := by simp

theorem snoc_eq_append_cons {x y : α} {l₁ l₂ : List α} : l ++ [x] = l₁ ++ y :: l₂ ↔
    l₂ = [] ∧ l = l₁ ∧ x = y ∨ ∃ l₃, l₂ = l₃ ++ [x] ∧ l = l₁ ++ y :: l₃ := by
  constructor
  · intro h
    obtain rfl | ⟨l₃, z, rfl⟩ := l₂.eq_nil_or_concat'
    · obtain ⟨hl, hx⟩ := append_inj' h rfl
      exact .inl ⟨rfl, hl, head_eq_of_cons_eq hx⟩
    · rw [← cons_append, ← append_assoc] at h
      obtain ⟨hl, hx⟩ := append_inj' h rfl
      exact .inr ⟨l₃, by rw [head_eq_of_cons_eq hx], hl⟩
  · rintro (⟨rfl, rfl, rfl⟩ | ⟨l₃, rfl, rfl⟩) <;> simp

/-- A loop in which one iteration changes what is observed and the others leave it. -/
theorem foldl_eq_of_mem {γ δ κ : Type*} {s : γ → α → γ} {f : γ → δ} {g : δ → δ} {key : α → κ}
    {x : α} (hx : x ∈ l) (hnd : (l.map key).Nodup) (hset : ∀ c, f (s c x) = g (f c))
    (hkeep : ∀ y, key y ≠ key x → ∀ c, f (s c y) = f c) (c : γ) :
    f (l.foldl s c) = g (f c) := by
  obtain ⟨l1, l2, rfl⟩ := append_of_mem hx
  rw [map_append, map_cons, nodup_middle, nodup_cons, mem_append, not_or] at hnd
  have hother : ∀ l' : List α, key x ∉ l'.map key → ∀ c, f (l'.foldl s c) = f c := fun l' hl' c =>
    foldlRecOn l' _ (motive := fun c' => f c' = f c) rfl fun c' hc' y hy =>
      (hkeep y (fun h => hl' (mem_map.2 ⟨y, hy, h⟩)) c').trans hc'
  rw [foldl_append, foldl_cons, hother l2 hnd.1.2, hset, hother l1 hnd.1.1]

theorem pairwise_eq_or_rel {R : α → α → Prop} (h : l.Pairwise R) {x y : α}
    (hx : x ∈ l) (hy : y ∈ l) : x = y ∨ R x y ∨ R y x := by
  induction h with
  | nil => simp at hx
  | @cons a l ha _ ih =>
    rcases mem_cons.1 hx with rfl | hx' <;> rcases mem_cons.1 hy with rfl | hy'
    · exact .inl rfl
    · exact .inr (.inl (ha y hy'))
    · exact .inr (.inr (ha x hx'))
    · exact ih hx' hy'

variable {xs : List α} {R : α → β → Prop}

theorem forall₂_exists_left {ys : List β} (h : List.Forall₂ R xs ys) {y : β} (hy : y ∈ ys) :
    ∃ x ∈ xs, R x y := by
  induction h with
  | nil => simp at hy
  | @cons a b xs ys hab _ ih =>
    rcases mem_cons.1 hy with rfl | hy'
    · exact ⟨a, by simp, hab⟩
    · obtain ⟨x, hx, hxy⟩ := ih hy'
      exact ⟨x, mem_cons_of_mem a hx, hxy⟩

theorem forall₂_imp_of_mem {S : α → β → Prop} {ys : List β} (h : List.Forall₂ R xs ys)
    (hRS : ∀ x, ∀ y ∈ ys, R x y → S x y) : List.Forall₂ S xs ys := by
  induction h with
  | nil => exact .nil
  | cons hxy _ ih =>
    exact .cons (hRS _ _ mem_cons_self hxy) (ih fun x y hy => hRS x y (mem_cons_of_mem _ hy))

/-- A check of every element and its position, read off at one element. -/
theorem of_zipIdx_all {p : α → ℕ → Bool} {l1 l2 : List α} {x : α}
    (h : l.zipIdx.all (fun y => p y.1 y.2) = true) (hl : l = l1 ++ x :: l2) :
    p x l1.length = true := by
  refine all_eq_true.1 h (x, l1.length) (mem_zipIdx_iff_getElem?.2 ?_)
  simp [hl]

theorem flatMap_zip_of_forall₂ {γ : Type*} {ys : List β} {f : α × β → List γ} {g : α → List γ}
    (h : List.Forall₂ R xs ys) (hfg : ∀ x, ∀ y ∈ ys, R x y → f (x, y) = g x) :
    (xs.zip ys).flatMap f = xs.flatMap g := by
  induction h with
  | nil => rfl
  | @cons a b xs ys hab _ ih =>
    rw [zip_cons_cons, flatMap_cons, flatMap_cons, hfg a b (by simp) hab,
      ih fun x y hy => hfg x y (mem_cons_of_mem b hy)]

theorem foldl_append_toList (f : α → Option β) (xs : List α) (acc : List β) :
    xs.foldl (fun acc x => acc ++ (f x).toList) acc = acc ++ xs.filterMap f := by
  induction xs generalizing acc with
  | nil => simp
  | cons x xs ih => cases hx : f x <;> simp [ih, hx]

/-! ### Masks -/

/-- The elements at the set positions of a mask. -/
def pick : List Bool → List α → List α
  | b :: mask, x :: xs => if b then x :: pick mask xs else pick mask xs
  | _, _ => []

@[simp] theorem pick_nil (mask : List Bool) : pick mask ([] : List α) = [] := by
  cases mask <;> rfl

theorem pick_map (f : α → β) (mask : List Bool) (xs : List α) :
    pick mask (xs.map f) = (pick mask xs).map f := by
  induction mask generalizing xs with
  | nil => rfl
  | cons b mask ih =>
    cases xs with
    | nil => rfl
    | cons x xs => cases b <;> simp [pick, ih]

/-- Every element is picked by a mask or by its negation. -/
theorem pick_append_pick_not_perm {mask : List Bool} (h : mask.length = xs.length) :
    (pick mask xs ++ pick (mask.map not) xs).Perm xs := by
  induction mask generalizing xs with
  | nil => simp [length_eq_zero_iff.1 h.symm]
  | cons b mask ih =>
    cases xs with
    | nil => simp at h
    | cons x xs =>
      have hrest := ih (Nat.succ.inj h)
      cases b with
      | true => exact hrest.cons x
      | false => exact perm_middle.trans (hrest.cons x)

/-- A rewrite that keeps the elements outside a mask keeps what the negated mask picks. -/
theorem pick_not_zipWith {f : α → Bool → α} {mask : List Bool} (h : ∀ x ∈ xs, f x false = x) :
    pick (mask.map not) (zipWith f xs mask) = pick (mask.map not) xs := by
  induction mask generalizing xs with
  | nil => rfl
  | cons b mask ih =>
    cases xs with
    | nil => rfl
    | cons x xs =>
      have hrest := ih fun y hy => h y (mem_cons_of_mem x hy)
      cases b with
      | true => exact hrest
      | false => exact congrArg₂ cons (h x mem_cons_self) hrest

/-- The positions of the set entries of a mask, counted from `n`, and what they pick. -/
theorem filterMap_zipIdx_eq_pick (mask : List Bool) (before xs : List α) :
    (((mask.zipIdx before.length).filter fun x => x.1).map fun x => x.2).filterMap
      (fun i => (before ++ xs)[i]?) = pick mask xs := by
  induction mask generalizing before xs with
  | nil => rfl
  | cons b mask ih =>
    cases xs with
    | nil =>
      have hnone : ∀ i ∈ (((b :: mask).zipIdx before.length).filter fun x => x.1).map
          fun x => x.2, (before ++ [])[i]? = none := by
        intro i hi
        obtain ⟨y, hy, rfl⟩ := mem_map.1 hi
        have := (mem_zipIdx (mem_of_mem_filter hy)).1
        simpa using this
      rw [filterMap_congr hnone]
      simp
    | cons x xs =>
      have hrest := ih (before ++ [x]) xs
      cases b with
      | true | false => simpa [pick] using hrest

end NovaCore
