import Mathlib.Logic.Relation
import Mathlib.Data.List.Basic

/-!
# Breadth-first search with a depth limit

A search through a graph whose adjacency lists are computed, and may fail to be.  The search is
written one depth at a time: a first-in-first-out queue that starts with the nodes of depth 0 and
appends the successors of a node with the next depth serves all nodes of one depth before those of
the next.

## Main definitions

* `Bfs.search` : the search; it fails if an adjacency list does, or if a node is queued beyond the
  depth limit.
* `Bfs.Within k` : the nodes that paths of at most `k` edges reach.
* `Bfs.AtDepth k` : the nodes whose shortest path has `k` edges.

## Main results

* `Bfs.mem_search_iff` : a search that succeeds returns exactly the reachable nodes.
* `Bfs.search_eq_ok_iff` : when a search succeeds.
* `Bfs.acyclic_of_insert` : an edge whose end does not reach its start keeps a graph acyclic.
-/

namespace NovaCore.Bfs

open List

variable {α ε : Type} [DecidableEq α] (next : α → Except ε (List α))

/-- One entry of the queue: the nodes found so far and the nodes queued for the next depth. -/
def visit (acc : List α × List α) (x : α) : Except ε (List α × List α) :=
  if x ∈ acc.1 then .ok acc
  else do
    let ys ← next x
    .ok (acc.1 ++ [x], acc.2 ++ ys)

/-- Search from `level`; `fuel` is the number of depths still allowed. -/
def search (next : α → Except ε (List α)) (limit : ε) :
    ℕ → List α → List α → Except ε (List α)
  | 0, found, level => if level = [] then .ok found else .error limit
  | fuel + 1, found, level => do
    let (found, queued) ← level.foldlM (visit next) (found, [])
    search next limit fuel found queued

/-- `y` is on the adjacency list of `x`. -/
def Edge (x y : α) : Prop := ∃ ys, next x = .ok ys ∧ y ∈ ys

/-- Some path of at most `k` edges from `start` ends in the node. -/
def Within (next : α → Except ε (List α)) (start : List α) : ℕ → α → Prop
  | 0, x => x ∈ start
  | k + 1, x => Within next start k x ∨ ∃ y, Within next start k y ∧ Edge next y x

/-- The shortest path from `start` to the node has `k` edges. -/
def AtDepth (start : List α) (k : ℕ) (x : α) : Prop :=
  Within next start k x ∧ ∀ j < k, ¬Within next start j x

variable {next : α → Except ε (List α)} {limit : ε} {start found level queued : List α}

variable {k fuel : ℕ} {s : List α}

omit [DecidableEq α] in
theorem Within.mono {j : ℕ} (h : j ≤ k) {x : α} (hx : Within next start j x) :
    Within next start k x := by
  induction h with
  | refl => exact hx
  | step _ ih => exact .inl ih

omit [DecidableEq α] in
theorem within_iff_exists_path {x : α} : (∃ k, Within next start k x) ↔
    ∃ r ∈ start, Relation.ReflTransGen (Edge next) r x := by
  constructor
  · rintro ⟨k, hx⟩
    induction k generalizing x with
    | zero => exact ⟨x, hx, .refl⟩
    | succ k ih =>
      rcases hx with hx | ⟨y, hy, hyx⟩
      · exact ih hx
      · obtain ⟨r, hr, hry⟩ := ih hy
        exact ⟨r, hr, hry.tail hyx⟩
  · rintro ⟨r, hr, hrx⟩
    induction hrx with
    | refl => exact ⟨0, hr⟩
    | tail _ hyx ih =>
      obtain ⟨k, hk⟩ := ih
      exact ⟨k + 1, .inr ⟨_, hk, hyx⟩⟩

/-! ### One depth -/

/-- What serving one depth returns. -/
structure Served (next : α → Except ε (List α)) (found level queued found' queued' : List α) :
    Prop where
  found_iff : ∀ x, x ∈ found' ↔ x ∈ found ∨ x ∈ level
  queued_iff : ∀ y, y ∈ queued' ↔ y ∈ queued ∨ ∃ x ∈ level, x ∉ found ∧ Edge next x y
  listed : ∀ x ∈ level, x ∉ found → ∃ ys, next x = .ok ys
  nodup : found.Nodup → found'.Nodup

theorem Served.cons {x : α} {found' queued' : List α} {ys : List α} (hx : x ∉ found)
    (hys : next x = .ok ys) (h : Served next (found ++ [x]) level (queued ++ ys) found' queued') :
    Served next found (x :: level) queued found' queued' := by
  refine ⟨fun y => ?_, fun y => ?_, fun y hy hyf => ?_, fun hnd => h.nodup ?_⟩
  · rw [h.found_iff y, mem_append, mem_singleton, mem_cons, or_assoc]
  · rw [h.queued_iff y, mem_append, or_assoc]
    refine or_congr_right ⟨?_, ?_⟩
    · rintro (hy | ⟨z, hz, hzf, hzy⟩)
      · exact ⟨x, by simp, hx, ys, hys, hy⟩
      · exact ⟨z, by simp [hz], fun hf => hzf (by simp [hf]), hzy⟩
    · rintro ⟨z, hz, hzf, hzy⟩
      by_cases hzx : z = x
      · subst hzx
        obtain ⟨ys', hys', hy⟩ := hzy
        obtain rfl : ys = ys' := Except.ok.inj (hys.symm.trans hys')
        exact .inl hy
      · exact .inr ⟨z, mem_of_ne_of_mem hzx hz, by simp [hzf, hzx], hzy⟩
  · by_cases hyx : y = x
    · exact ⟨ys, hyx ▸ hys⟩
    · exact h.listed y (mem_of_ne_of_mem hyx hy) (by simp [hyf, hyx])
  · exact nodup_append.2 ⟨hnd, by simp, by
      intro a ha b hb hab
      exact hx (mem_singleton.1 hb ▸ hab ▸ ha)⟩

theorem served_of_visit {found' queued' : List α}
    (h : level.foldlM (visit next) (found, queued) = .ok (found', queued')) :
    Served next found level queued found' queued' := by
  induction level generalizing found queued with
  | nil =>
    cases h
    exact ⟨by simp, by simp, by simp, id⟩
  | cons x level ih =>
    rw [foldlM_cons] at h
    by_cases hx : x ∈ found
    · have hvisit : visit next (found, queued) x = .ok (found, queued) := if_pos hx
      rw [hvisit] at h
      have hs := ih h
      refine ⟨fun y => ?_, fun y => ?_, fun y hy hyf => ?_, hs.nodup⟩
      · rw [hs.found_iff y, mem_cons]
        constructor
        · tauto
        · rintro (hy | rfl | hy)
          · exact .inl hy
          · exact .inl hx
          · exact .inr hy
      · rw [hs.queued_iff y]
        refine or_congr_right ⟨?_, ?_⟩
        · rintro ⟨z, hz, hzf, hzy⟩
          exact ⟨z, by simp [hz], hzf, hzy⟩
        · rintro ⟨z, hz, hzf, hzy⟩
          exact ⟨z, mem_of_ne_of_mem (fun hzx => hzf (hzx ▸ hx)) hz, hzf, hzy⟩
      · exact hs.listed y (mem_of_ne_of_mem (fun hyx => hyf (hyx ▸ hx)) hy) hyf
    · cases hys : next x with
      | error e =>
        have hvisit : visit next (found, queued) x = .error e := by
          simp [visit, hx, hys, bind, Except.bind]
        rw [hvisit] at h
        cases h
      | ok ys =>
        have hvisit : visit next (found, queued) x = .ok (found ++ [x], queued ++ ys) := by
          simp [visit, hx, hys, bind, Except.bind]
        rw [hvisit] at h
        exact (ih h).cons hx hys

/-- Serving one depth succeeds if the adjacency lists of the new nodes do. -/
theorem exists_visit_eq_ok (h : ∀ x ∈ level, x ∉ found → ∃ ys, next x = .ok ys) :
    ∃ r, level.foldlM (visit next) (found, queued) = .ok r := by
  induction level generalizing found queued with
  | nil => exact ⟨_, rfl⟩
  | cons x level ih =>
    rw [foldlM_cons]
    by_cases hx : x ∈ found
    · have hvisit : visit next (found, queued) x = .ok (found, queued) := if_pos hx
      rw [hvisit]
      exact ih fun y hy hyf => h y (by simp [hy]) hyf
    · obtain ⟨ys, hys⟩ := h x (by simp) hx
      have hvisit : visit next (found, queued) x = .ok (found ++ [x], queued ++ ys) := by
        simp [visit, hx, hys, bind, Except.bind]
      rw [hvisit]
      exact ih fun y hy hyf => h y (by simp [hy]) fun hf => hyf (by simp [hf])

/-! ### The whole search -/

/-- The state of a search before depth `k` is served. -/
structure Layer (next : α → Except ε (List α)) (start : List α) (k : ℕ) (found level : List α) :
    Prop where
  found_iff : ∀ x, x ∈ found ↔ ∃ j < k, Within next start j x
  level_iff : ∀ x, x ∈ level → Within next start k x
  covered : ∀ x, Within next start k x → x ∈ found ∨ x ∈ level
  /-- Before depth `k + 1` the queue holds the successors of the nodes of depth `k`. -/
  queue : ∀ j, k = j + 1 → ∀ y, y ∈ level ↔ ∃ x, AtDepth next start j x ∧ Edge next x y
  listed : ∀ x ∈ found, ∃ ys, next x = .ok ys
  nodup : found.Nodup

omit [DecidableEq α] in
theorem Layer.initial : Layer next start 0 [] start where
  found_iff := by simp
  level_iff := fun _ hx => hx
  covered := fun _ hx => .inr hx
  queue := by simp
  listed := by simp
  nodup := nodup_nil

section

variable (h : Layer next start k found level)
include h

omit [DecidableEq α] in
/-- The new nodes of a depth are those whose shortest path has that length. -/
theorem Layer.atDepth_iff (x : α) : AtDepth next start k x ↔ x ∈ level ∧ x ∉ found := by
  have hfound : (∀ j < k, ¬Within next start j x) ↔ x ∉ found := by
    rw [h.found_iff]
    push Not
    rfl
  constructor
  · rintro ⟨hx, hnew⟩
    have hxf := hfound.1 hnew
    exact ⟨(h.covered x hx).resolve_left hxf, hxf⟩
  · rintro ⟨hx, hxf⟩
    exact ⟨h.level_iff x hx, hfound.2 hxf⟩

theorem Layer.step {found' queued' : List α} (hs : Served next found level [] found' queued') :
    Layer next start (k + 1) found' queued' := by
  have hqueue : ∀ y, y ∈ queued' ↔ ∃ x, AtDepth next start k x ∧ Edge next x y := by
    intro y
    rw [hs.queued_iff y]
    constructor
    · rintro (hy | ⟨x, hx, hxf, hxy⟩)
      · cases hy
      · exact ⟨x, (h.atDepth_iff x).2 ⟨hx, hxf⟩, hxy⟩
    · rintro ⟨x, hx, hxy⟩
      obtain ⟨hxl, hxf⟩ := (h.atDepth_iff x).1 hx
      exact .inr ⟨x, hxl, hxf, hxy⟩
  have hfound : ∀ x, x ∈ found' ↔ Within next start k x := by
    intro x
    rw [hs.found_iff x]
    constructor
    · rintro (hx | hx)
      · obtain ⟨j, hj, hjx⟩ := (h.found_iff x).1 hx
        exact hjx.mono (by omega)
      · exact h.level_iff x hx
    · exact h.covered x
  refine ⟨fun x => ?_, fun y hy => ?_, ?_, ?_, fun x hx => ?_, hs.nodup h.nodup⟩
  · rw [hfound x]
    constructor
    · exact fun hx => ⟨k, by omega, hx⟩
    · rintro ⟨j, hj, hx⟩
      exact hx.mono (by omega)
  · obtain ⟨x, hx, hxy⟩ := (hqueue y).1 hy
    exact .inr ⟨x, hx.1, hxy⟩
  · rintro y (hy | ⟨x, hx, hxy⟩)
    · exact .inl ((hfound y).2 hy)
    · by_cases hxf : x ∈ found
      -- a successor of a node of a smaller depth was queued for depth `k` or earlier
      · obtain ⟨j, hj, hjx⟩ := (h.found_iff x).1 hxf
        have hy : Within next start (j + 1) y := .inr ⟨x, hjx, hxy⟩
        exact .inl ((hfound y).2 (hy.mono hj))
      · have hxl := (h.covered x hx).resolve_left hxf
        exact .inr ((hqueue y).2 ⟨x, (h.atDepth_iff x).2 ⟨hxl, hxf⟩, hxy⟩)
  · rintro j hj
    obtain rfl : k = j := by omega
    exact hqueue
  · rcases (hs.found_iff x).1 hx with hx | hxl
    · exact h.listed x hx
    · by_cases hxf : x ∈ found
      · exact h.listed x hxf
      · exact hs.listed x hxl hxf

theorem Layer.of_search
    (hs : search next limit fuel found level = .ok s) : Layer next start (k + fuel) s [] := by
  induction fuel generalizing k found level with
  | zero =>
    unfold search at hs
    split_ifs at hs with hl
    subst hl
    cases hs
    exact h
  | succ fuel ih =>
    rw [search] at hs
    cases hv : level.foldlM (visit next) (found, []) with
    | error e =>
      rw [hv] at hs
      cases hs
    | ok r =>
      rw [hv] at hs
      have hstep := ih (h.step (served_of_visit hv)) hs
      rwa [show k + (fuel + 1) = k + 1 + fuel by omega]

end

section

variable (hs : search next limit fuel [] start = .ok s)
include hs

/-- **A search that succeeds returns exactly the reachable nodes.** -/
theorem mem_search_iff (x : α) : x ∈ s ↔ ∃ r ∈ start, Relation.ReflTransGen (Edge next) r x := by
  have h := Layer.initial.of_search hs
  rw [Nat.zero_add] at h
  have hclosed : ∀ k x, Within next start k x → x ∈ s := by
    intro k
    induction k with
    | zero =>
      intro x hx
      have hx : Within next start fuel x := Within.mono (Nat.zero_le _) hx
      exact (h.covered x hx).resolve_right (by simp)
    | succ k ih =>
      rintro y (hy | ⟨x, hx, hxy⟩)
      · exact ih y hy
      · obtain ⟨j, hj, hjx⟩ := (h.found_iff x).1 (ih x hx)
        have hy : Within next start (j + 1) y := .inr ⟨x, hjx, hxy⟩
        exact (h.covered y (hy.mono hj)).resolve_right (by simp)
  rw [← within_iff_exists_path]
  constructor
  · intro hx
    obtain ⟨j, -, hjx⟩ := (h.found_iff x).1 hx
    exact ⟨j, hjx⟩
  · rintro ⟨k, hx⟩
    exact hclosed k x hx

theorem search_nodup : s.Nodup := (Layer.initial.of_search hs).nodup

/-- Every node a successful search returns has an adjacency list. -/
theorem exists_next_of_search {x : α} (hx : x ∈ s) : ∃ ys, next x = .ok ys :=
  (Layer.initial.of_search hs).listed x hx

end

theorem Layer.exists_search_eq_ok (h : Layer next start k found level)
    (hnext : ∀ x, Within next start (k + fuel) x → ∃ ys, next x = .ok ys)
    (hdeep : ∀ x y, AtDepth next start (k + fuel) x → ¬Edge next x y) :
    ∃ s, search next limit (fuel + 1) found level = .ok s := by
  induction fuel generalizing k found level with
  | zero =>
    obtain ⟨⟨found', queued'⟩, hv⟩ : ∃ r, level.foldlM (visit next) (found, []) = .ok r :=
      exists_visit_eq_ok fun x hx _ => hnext x (h.level_iff x hx)
    have hstep := h.step (served_of_visit hv)
    have hempty : queued' = [] := by
      rw [eq_nil_iff_forall_not_mem]
      intro y hy
      obtain ⟨x, hx, hxy⟩ := (hstep.queue k rfl y).1 hy
      exact hdeep x y hx hxy
    exact ⟨found', by simp [search, hv, bind, Except.bind, hempty]⟩
  | succ fuel ih =>
    obtain ⟨⟨found', queued'⟩, hv⟩ : ∃ r, level.foldlM (visit next) (found, []) = .ok r :=
      exists_visit_eq_ok fun x hx _ => hnext x ((h.level_iff x hx).mono (by omega))
    have hstep := h.step (served_of_visit hv)
    rw [show k + (fuel + 1) = k + 1 + fuel by omega] at hnext hdeep
    obtain ⟨s, hs⟩ := ih hstep hnext hdeep
    refine ⟨s, ?_⟩
    rw [search, hv]
    exact hs

/-- **When a search succeeds**: the nodes up to the depth limit have adjacency lists, and those at
the limit have no successor. -/
theorem search_eq_ok_iff : (∃ s, search next limit (fuel + 1) [] start = .ok s) ↔
    (∀ x, Within next start fuel x → ∃ ys, next x = .ok ys) ∧
      ∀ x y, AtDepth next start fuel x → ¬Edge next x y := by
  constructor
  · rintro ⟨s, hs⟩
    have h := Layer.initial.of_search hs
    rw [Nat.zero_add] at h
    refine ⟨fun x hx => h.listed x ((h.found_iff x).2 ⟨fuel, by omega, hx⟩), fun x y hx hxy => ?_⟩
    exact not_mem_nil ((h.queue fuel rfl y).2 ⟨x, hx, hxy⟩)
  · rintro ⟨hnext, hdeep⟩
    rw [← Nat.zero_add fuel] at hnext hdeep
    exact Layer.initial.exists_search_eq_ok hnext hdeep

/-! ### Keeping a graph acyclic -/

omit [DecidableEq α] in
/-- An edge from `p` to `c` closes no cycle if `c` did not reach `p` before. -/
theorem acyclic_of_insert {R R' : α → α → Prop} {p c : α} (hR : ∀ a, ¬Relation.TransGen R a a)
    (hcp : ¬Relation.ReflTransGen R c p) (hR' : ∀ a b, R' a b → R a b ∨ a = p ∧ b = c) (a : α) :
    ¬Relation.TransGen R' a a := by
  -- a path of the larger graph avoids the new edge, or reaches it and continues from its end
  have hpath : ∀ x y, Relation.ReflTransGen R' x y → Relation.ReflTransGen R x y ∨
      Relation.ReflTransGen R x p ∧ Relation.ReflTransGen R c y := by
    intro x y hxy
    induction hxy with
    | refl => exact .inl .refl
    | tail _ hstep ih =>
      rcases hR' _ _ hstep with hyz | ⟨rfl, rfl⟩
      · rcases ih with hxy | ⟨hxp, hcy⟩
        · exact .inl (hxy.tail hyz)
        · exact .inr ⟨hxp, hcy.tail hyz⟩
      · rcases ih with hxy | ⟨-, hcp'⟩
        · exact .inr ⟨hxy, .refl⟩
        · exact absurd hcp' hcp
  intro hcycle
  obtain ⟨b, hab, hba⟩ := Relation.TransGen.head'_iff.1 hcycle
  rcases hR' _ _ hab with hab | ⟨rfl, rfl⟩
  · rcases hpath b a hba with hba | ⟨hbp, hca⟩
    · exact hR a (Relation.TransGen.head' hab hba)
    · exact hcp ((hca.tail hab).trans hbp)
  · rcases hpath b a hba with hba | ⟨hbp, -⟩
    · exact hcp hba
    · exact hcp hbp

end NovaCore.Bfs
