import Mathlib.Data.List.MinMax
import NovaCore.Common.Rounding
import NovaCore.Common.Types

/-!
# Join ordering

`CboOptimizer::optimize` finds a join tree by dynamic programming over the sets of tables.  A set
is split in all ways into two sets that have a plan, a split needs an edge between the two, and the
cheapest split wins; of equally cheap ones the first that is tried.  The join node keeps the columns
of the first edge between the two sets, in the order in which the edge names them.

A set of tables is kept here as the list of its tables, the last table of the query first, which is
the bit mask of the source read from its highest bit.

## Main definitions

* `optimize` : the optimizer.
* `JoinPlan.Joins`, `Selected` : the rows that a plan joins, and the rows of the cross product that
  all edges select.
* `JoinPlan.Answers` : a plan that joins what the edges select.
* `HeapOrdered` : every edge leads from a later table to an earlier one, and every table but the
  last is the right table of exactly one edge.

## Main results

* `optimize_answers` : **the plan of a heap-ordered query answers it**, whatever the estimates are.
* `optimize_turns_edge` : with one edge from the first table to the second, the plan looks for the
  columns on the wrong sides, and of two edges it applies one.
-/

namespace NovaCore.Planner

open List Prod

/-- `TableRef`. -/
structure TableRef where
  name : String
  rowCount : ℕ
  columns : List String
  deriving DecidableEq

/-- `JoinEdge`. -/
structure JoinEdge where
  leftTable : String
  rightTable : String
  leftCol : String
  rightCol : String
  deriving DecidableEq

/-- `JoinPlan`; every join is a hash join. -/
inductive JoinPlan
  | scan (table : TableRef) (cardinality : ℕ)
  | join (left right : JoinPlan) (joinCols : String × String) (cardinality : ℕ)
  deriving DecidableEq

/-- The names of tables. -/
abbrev names (tables : List TableRef) : List String := tables.map TableRef.name

/-- The edge leads from a table of the first list to one of the second. -/
abbrev JoinEdge.Links (e : JoinEdge) (l r : List TableRef) : Prop :=
  e.leftTable ∈ names l ∧ e.rightTable ∈ names r

namespace JoinPlan

/-- `JoinPlan::cardinality`. -/
def cardinality : JoinPlan → ℕ
  | scan _ n => n
  | join _ _ _ n => n

/-- The tables of a plan, whose names are its `plan_tables`. -/
def scans : JoinPlan → List TableRef
  | scan t _ => [t]
  | join left right _ _ => left.scans ++ right.scans

/-- A node compares the columns of the edge, each on the side of its table. -/
def Applies (e : JoinEdge) : JoinPlan → Prop
  | scan _ _ => False
  | join left right cols _ => (cols = (e.leftCol, e.rightCol) ∧ e.Links left.scans right.scans) ∨
      left.Applies e ∨ right.Applies e

end JoinPlan

/-! ### What plans and queries mean -/

section Meaning

variable {V : Type} (same : V → V → Prop) (db : String → ℕ → Option (String → V)) (ρ : String → ℕ)

/-- Row `ρ t` of table `t` and row `ρ u` of table `u` agree in their columns `c` and `d`. -/
def Agree (t c u d : String) : Prop := ∃ a ∈ db t (ρ t), ∃ b ∈ db u (ρ u), same (a c) (b d)

/-- The predicate of an edge. -/
def JoinEdge.Holds (e : JoinEdge) : Prop :=
  Agree same db ρ e.leftTable e.leftCol e.rightTable e.rightCol

/-- The rows with the numbers `ρ` are in the cross product of the tables, filtered by the edges. -/
def Selected (tables : List TableRef) (edges : List JoinEdge) : Prop :=
  (∀ t ∈ tables, (db t.name (ρ t.name)).isSome = true) ∧ ∀ e ∈ edges, e.Holds same db ρ

/-- The rows with the numbers `ρ` are joined by the plan.  A node looks for its left column in the
tables of the left subtree and for its right column in those of the right one. -/
def JoinPlan.Joins : JoinPlan → Prop
  | scan t _ => (db t.name (ρ t.name)).isSome = true
  | join left right cols _ => (left.Joins ∧ right.Joins) ∧ ∃ t ∈ left.scans, ∃ u ∈ right.scans,
      cols.1 ∈ t.columns ∧ cols.2 ∈ u.columns ∧ Agree same db ρ t.name cols.1 u.name cols.2

end Meaning

/-- **The plan answers the query**: it scans all tables, it compares the columns of every edge, each
on the side of its table, and it denotes the cross product filtered by the edges. -/
structure JoinPlan.Answers (plan : JoinPlan) (tables : List TableRef) (edges : List JoinEdge) :
    Prop where
  scans : plan.scans.Perm tables
  applies : ∀ e ∈ edges, plan.Applies e
  joins : ∀ {V : Type} (same : V → V → Prop) (db : String → ℕ → Option (String → V))
    (ρ : String → ℕ), plan.Joins same db ρ ↔ Selected same db ρ tables edges

/-! ### The optimizer -/

section Optimizer

variable (l r : ℕ)

/-- The cardinality `estimate_join_cost` predicts: a tenth of the product, computed on doubles. -/
def joinCardinality : ℕ :=
  min ⌊F64.nearest (F64.nearest (F64.nearest l * F64.nearest r) * F64.nearest (1 / 10))⌋.toNat
    u64Max

/-- The cost of a hash join: build on the smaller side, probe with the larger one.  The sum is far
below `f64::MAX`. -/
def hashCost : ℚ :=
  F64.nearest (F64.nearest (min l r : ℕ) + F64.nearest (max l r : ℕ))

theorem hashCost_comm : hashCost l r = hashCost r l := by
  rw [hashCost, min_comm, max_comm, hashCost]

/-- `find_join_edge`. -/
def findJoinEdge (left right : JoinPlan) (edges : List JoinEdge) : Option JoinEdge :=
  edges.find? fun e => e.Links left.scans right.scans ∨ e.Links right.scans left.scans

/-- The ways to split a set, `left_mask` counting down.  The empty set has no plan. -/
def splits {α : Type} : List α → List (List α × List α)
  | [] => [([], [])]
  | t :: ts =>
    ((splits ts).map fun (l, r) => (t :: l, r)) ++ (splits ts).map fun (l, r) => (l, t :: r)

variable (rows : TableRef → ℕ) (edges : List JoinEdge)

/-- The join of the best plans of two sets and its cost. -/
def candidate (best : List TableRef → Option JoinPlan) (split : List TableRef × List TableRef) :
    Option (ℚ × JoinPlan) := do
  let left ← best split.1
  let right ← best split.2
  let e ← findJoinEdge left right edges
  some (hashCost left.cardinality right.cardinality,
    .join left right (e.leftCol, e.rightCol) (joinCardinality left.cardinality right.cardinality))

/-- The best plan of a set of at most `size + 1` tables: the first of the cheapest candidates.
`rows` is what `make_scan` estimates for a table under the filters that are set. -/
def bestPlans : ℕ → List TableRef → Option JoinPlan
  | _, [] => none
  | _, [t] => some (.scan t (rows t))
  | 0, _ => none
  | size + 1, mask =>
    (((splits mask).filterMap (candidate edges (bestPlans size))).argmin Prod.fst).map Prod.snd

/-- `CboOptimizer::optimize`, for the up to 31 tables that fit into the bit masks. -/
def optimize (tables : List TableRef) : Option JoinPlan :=
  bestPlans rows edges (tables.length - 1) tables.reverse

end Optimizer

/-- Every edge leads from a later table to an earlier one, and every table but the last is the right
table of exactly one edge.  Names tell tables apart and columns tell their tables. -/
structure HeapOrdered (tables : List TableRef) (edges : List JoinEdge) : Prop where
  nodup : (names tables).Nodup
  column : ∀ s ∈ tables, ∀ t ∈ tables, ∀ c ∈ s.columns, c ∈ t.columns → s = t
  ends : ∀ e ∈ edges, e.leftTable ≠ e.rightTable ∧ ∃ s ∈ tables, ∃ t ∈ tables,
    e.leftTable = s.name ∧ e.leftCol ∈ s.columns ∧ e.rightTable = t.name ∧ e.rightCol ∈ t.columns
  later : tables.Pairwise fun s t => ∀ e ∈ edges, e.leftTable = s.name → e.rightTable ≠ t.name
  parent : ∀ t ∈ tables.dropLast, ∃ e ∈ edges, e.rightTable = t.name
  unique : ∀ e ∈ edges, ∀ f ∈ edges, e.rightTable = f.rightTable → e = f

/-! ### The choice of a split -/

/-- The first of the cheapest is not among elements that are as dear as one before them. -/
theorem mem_of_mem_argmin_append {α : Type} [DecidableEq α] {f : α → ℚ} {c : α} {xs ys : List α}
    (hc : c ∈ (xs ++ ys).argmin f) (h : ∀ y ∈ ys, ∃ x ∈ xs, f x ≤ f y) : c ∈ xs := by
  by_contra hno
  obtain ⟨x, hx, hle⟩ := h c ((mem_append.1 (argmin_mem hc)).resolve_left hno)
  have hidx := index_of_argmin hc (mem_append_left _ hx) hle
  rw [idxOf_append_of_mem hx, idxOf_append_of_notMem hno] at hidx
  have hlt := idxOf_lt_length_iff.2 hx
  omega

section Splits

variable {α : Type} {l r ts : List α}

theorem splits_swap (h : (l, r) ∈ splits ts) : (r, l) ∈ splits ts := by
  induction ts generalizing l r with
  | nil => simpa [splits, and_comm] using h
  | cons t ts ih =>
    simp only [splits, mem_append, mem_map, Prod.exists, mk.injEq] at h ⊢
    rcases h with ⟨a, b, hab, rfl, rfl⟩ | ⟨a, b, hab, rfl, rfl⟩
    · exact .inr ⟨b, a, ih hab, rfl, rfl⟩
    · exact .inl ⟨b, a, ih hab, rfl, rfl⟩

theorem mem_splits (h : (l, r) ∈ splits ts) : (l ++ r).Perm ts ∧ l.Sublist ts := by
  induction ts generalizing l r with
  | nil => simp_all [splits]
  | cons t ts ih =>
    simp only [splits, mem_append, mem_map, Prod.exists, mk.injEq] at h
    rcases h with ⟨a, b, hab, rfl, rfl⟩ | ⟨a, b, hab, rfl, rfl⟩
    · exact ⟨(ih hab).1.cons t, (ih hab).2.cons_cons t⟩
    · exact ⟨perm_middle.trans ((ih hab).1.cons t), (ih hab).2.cons t⟩

theorem mem_splits_concat {t : α} : (ts, [t]) ∈ splits (ts ++ [t]) := by
  induction ts with
  | nil => simp [splits]
  | cons s ts ih => simp [splits, ih]

end Splits

/-! ### Heap-ordered queries -/

section Planned

variable {rows : TableRef → ℕ} {tables mask l r ts : List TableRef} {edges : List JoinEdge}
  {t : TableRef} {e : JoinEdge} {best : List TableRef → Option JoinPlan} {c : ℚ × JoinPlan}

/-- What holds of the plan for a set of tables: an edge into the set from outside ends at its latest
table. -/
structure Planned (edges : List JoinEdge) (mask : List TableRef) (plan : JoinPlan) : Prop where
  scans : plan.scans.Perm mask
  closed : ∀ e ∈ edges, e.rightTable ∈ names mask → e.leftTable ∉ names mask →
    (names mask).head? = some e.rightTable
  joins : ∀ {V : Type} (same : V → V → Prop) db ρ, plan.Joins same db ρ ↔
    (∀ t ∈ mask, (db t.name (ρ t.name)).isSome = true) ∧
      ∀ e ∈ edges, e.Links mask mask → e.Holds same db ρ
  applies : ∀ e ∈ edges, e.Links mask mask → plan.Applies e

theorem Planned.links_iff {left right : JoinPlan} (hl : Planned edges l left)
    (hr : Planned edges r right) : e.Links left.scans right.scans ↔ e.Links l r :=
  and_congr (hl.scans.map _).mem_iff (hr.scans.map _).mem_iff

theorem candidate_eq_some_iff : candidate edges best (l, r) = some c ↔
    ∃ left, best l = some left ∧ ∃ right, best r = some right ∧
      ∃ e, findJoinEdge left right edges = some e ∧
        (hashCost left.cardinality right.cardinality, .join left right (e.leftCol, e.rightCol)
          (joinCardinality left.cardinality right.cardinality)) = c := by
  simp only [candidate, bind, Option.bind_eq_some_iff, Option.some.injEq]

/-- The same split the other way round costs the same. -/
theorem candidate_swap (hc : candidate edges best (l, r) = some c) :
    ∃ d, candidate edges best (r, l) = some d ∧ d.1 = c.1 := by
  obtain ⟨left, hleft, right, hright, e, he, rfl⟩ := candidate_eq_some_iff.1 hc
  have hswap : findJoinEdge right left edges = some e := by
    simpa only [findJoinEdge, or_comm] using he
  exact ⟨_, candidate_eq_some_iff.2 ⟨right, hright, left, hleft, e, hswap, rfl⟩, hashCost_comm ..⟩

namespace HeapOrdered

variable (h : HeapOrdered tables edges)
include h

/-- An edge between the two parts of a set leads from the part with the latest table to the latest
table of the other part. -/
theorem crossing (hm : (t :: ts).Sublist tables.reverse) (hsplit : (l, r) ∈ splits ts)
    {left right : JoinPlan} (hL : Planned edges (t :: l) left) (hR : Planned edges r right)
    (he : e ∈ edges) (hcross : e.Links (t :: l) r ∨ e.Links r (t :: l)) :
    e.Links (t :: l) r ∧ (names r).head? = some e.rightTable := by
  have hnd : (names (t :: l) ++ names r).Nodup := by
    rw [names, names, ← map_append]
    refine (((mem_splits hsplit).1.cons t).map _).nodup_iff.2 (Nodup.sublist (hm.map _) ?_)
    rw [map_reverse, nodup_reverse]
    exact h.nodup
  have hdisj := disjoint_of_nodup_append hnd
  rcases hcross with hcross | ⟨hleft, hright⟩
  · exact ⟨hcross, hR.closed e he hcross.2 fun hin => hdisj hcross.1 hin⟩
  · have htop := hL.closed e he hright fun hin => hdisj hin hleft
    -- the left table would be later than the latest table of the set
    obtain ⟨s, hs, hname⟩ := mem_map.1 hleft
    have hs' : s ∈ ts := (mem_splits hsplit).1.subset (mem_append_right _ hs)
    have hlater := (pairwise_cons.1 ((pairwise_reverse.2 h.later).sublist hm)).1 s hs'
    exact absurd (Option.some.inj htop).symm (hlater e he hname.symm)

/-- A node that compares the columns of an edge applies its predicate. -/
theorem node_iff (hl : ∀ s ∈ l, s ∈ tables) (hr : ∀ s ∈ r, s ∈ tables) (he : e ∈ edges)
    (hlinks : e.Links l r) {V : Type} {same : V → V → Prop} {db : String → ℕ → Option (String → V)}
    {ρ : String → ℕ} : (∃ t ∈ l, ∃ u ∈ r, e.leftCol ∈ t.columns ∧ e.rightCol ∈ u.columns ∧
      Agree same db ρ t.name e.leftCol u.name e.rightCol) ↔ e.Holds same db ρ := by
  obtain ⟨-, s, hs, t, ht, hsname, hscol, htname, htcol⟩ := h.ends e he
  have hin : ∀ {x : TableRef} {ts : List TableRef}, (∀ s ∈ ts, s ∈ tables) → x ∈ tables →
      x.name ∈ names ts → x ∈ ts := by
    intro x ts hts hx hmem
    obtain ⟨y, hy, hname⟩ := mem_map.1 hmem
    exact inj_on_of_nodup_map h.nodup (hts y hy) hx hname ▸ hy
  rw [JoinEdge.Holds, hsname, htname]
  constructor
  · rintro ⟨t', ht', u', hu', hc, hd, hagree⟩
    rwa [h.column s hs t' (hl t' ht') _ hscol hc, h.column t ht u' (hr u' hu') _ htcol hd]
  · exact fun hagree => ⟨s, hin hl hs (hsname ▸ hlinks.1), t, hin hr ht (htname ▸ hlinks.2), hscol,
      htcol, hagree⟩

theorem planned_scan (n : ℕ) : Planned edges [t] (.scan t n) := by
  have hno : ∀ e ∈ edges, ¬e.Links [t] [t] := fun e he hin =>
    (h.ends e he).1 ((mem_singleton.1 hin.1).trans (mem_singleton.1 hin.2).symm)
  refine ⟨.refl _, fun e _ hr _ => congrArg some (mem_singleton.1 hr).symm, fun same db ρ => ?_,
    fun e he hin => (hno e he hin).elim⟩
  rw [JoinPlan.Joins, forall_mem_singleton]
  exact ⟨fun hrow => ⟨hrow, fun e he hin => (hno e he hin).elim⟩, And.left⟩

/-- Joining the plans of the two parts of a set, the left one with the latest table. -/
theorem planned_join (hm : (t :: ts).Sublist tables.reverse) (hsplit : (l, r) ∈ splits ts)
    (hbest : ∀ mask p, mask.Sublist tables.reverse → best mask = some p → Planned edges mask p)
    (hc : candidate edges best (t :: l, r) = some c) : Planned edges (t :: ts) c.2 := by
  obtain ⟨left, hleft, right, hright, e, hfind, rfl⟩ := candidate_eq_some_iff.1 hc
  have he : e ∈ edges := mem_of_find?_eq_some hfind
  have hlink := find?_some (show edges.find? _ = some e from hfind)
  have hcross := of_decide_eq_true hlink
  have hsubl := ((mem_splits hsplit).2.cons_cons t).trans hm
  have hsubr := ((mem_splits (splits_swap hsplit)).2.cons t).trans hm
  have hL := hbest _ _ hsubl hleft
  have hR := hbest _ _ hsubr hright
  have hperm : (t :: l ++ r).Perm (t :: ts) := (mem_splits hsplit).1.cons t
  have hunion : ∀ n, n ∈ names (t :: ts) ↔ n ∈ names (t :: l) ∨ n ∈ names r := fun n => by
    rw [← (hperm.map _).mem_iff, map_append, mem_append]
  rw [hL.links_iff hR, hR.links_iff hL] at hcross
  obtain ⟨hlinks, hhead⟩ := h.crossing hm hsplit hL hR he hcross
  have hsame : ∀ f ∈ edges, (names r).head? = some f.rightTable → f = e := fun f hf hfr =>
    h.unique f hf e he (Option.some.inj (hfr.symm.trans hhead))
  -- an edge of the set lies in one of the two parts, or it is the one between them
  have hedges : ∀ f ∈ edges, f.Links (t :: ts) (t :: ts) ↔
      f.Links (t :: l) (t :: l) ∨ f.Links r r ∨ f = e := by
    intro f hf
    simp only [JoinEdge.Links, hunion]
    refine ⟨fun ⟨hfl, hfr⟩ => ?_, ?_⟩
    · by_cases hcr : f.Links (t :: l) r ∨ f.Links r (t :: l)
      · exact .inr (.inr (hsame f hf (h.crossing hm hsplit hL hR hf hcr).2))
      · unfold JoinEdge.Links at hcr
        tauto
    · rintro (hin | hin | rfl)
      · exact ⟨.inl hin.1, .inl hin.2⟩
      · exact ⟨.inr hin.1, .inr hin.2⟩
      · exact ⟨.inl hlinks.1, .inr hlinks.2⟩
  refine ⟨(hL.scans.append hR.scans).trans hperm, fun f hf hr hl => ?_, fun same db ρ => ?_,
    fun f hf hin => ?_⟩
  · rcases (hunion _).1 hr with hr | hr
    · exact hL.closed f hf hr fun hin => hl ((hunion _).2 (.inl hin))
    · obtain rfl := hsame f hf (hR.closed f hf hr fun hin => hl ((hunion _).2 (.inr hin)))
      exact absurd ((hunion _).2 (.inl hlinks.1)) hl
  · have htables : ∀ {mask : List TableRef} {p : JoinPlan}, Planned edges mask p →
        mask.Sublist tables.reverse → ∀ s ∈ p.scans, s ∈ tables := fun hp hsub s hs =>
      mem_reverse.1 (hsub.subset (hp.scans.subset hs))
    rw [JoinPlan.Joins, hL.joins, hR.joins,
      h.node_iff (htables hL hsubl) (htables hR hsubr) he ((hL.links_iff hR).2 hlinks)]
    have hall : (∀ f ∈ edges, f.Links (t :: ts) (t :: ts) → f.Holds same db ρ) ↔
        (∀ f ∈ edges, f.Links (t :: l) (t :: l) → f.Holds same db ρ) ∧
        (∀ f ∈ edges, f.Links r r → f.Holds same db ρ) ∧ e.Holds same db ρ := by
      rw [forall₂_congr fun f hf => imp_congr_left (hedges f hf)]
      simp only [or_imp, forall_and]
      exact and_congr_right' (and_congr_right' ⟨fun hf => hf e he rfl, fun hh f _ hfe => hfe ▸ hh⟩)
    rw [hall, ← forall_congr' fun s => imp_congr_left (hperm.mem_iff (a := s)), forall_mem_append]
    tauto
  · rcases (hedges f hf).1 hin with hin | hin | rfl
    · exact .inr (.inl (hL.applies f hf hin))
    · exact .inr (.inr (hR.applies f hf hin))
    · exact .inl ⟨rfl, (hL.links_iff hR).2 hlinks⟩

/-- Every plan in the table is planned, by induction on the size of the sets. -/
theorem planned {size : ℕ} {p : JoinPlan}
    (hm : mask.Sublist tables.reverse) (hp : bestPlans rows edges size mask = some p) :
    Planned edges mask p := by
  induction size generalizing mask p with
  | zero =>
    match mask, hp with
    | [t], rfl => exact h.planned_scan _
  | succ size ih =>
    match mask, hp with
    | [t], rfl => exact h.planned_scan _
    | t :: s :: ts, hp =>
      obtain ⟨c, hc, rfl⟩ := Option.map_eq_some_iff.1 hp
      rw [splits, filterMap_append] at hc
      have hfirst := mem_of_mem_argmin_append hc fun y hy => ?_
      · obtain ⟨_, hmem, hcand⟩ := mem_filterMap.1 hfirst
        obtain ⟨⟨l, r⟩, hsplit, rfl⟩ := mem_map.1 hmem
        exact h.planned_join hm hsplit (fun _ _ => ih) hcand
      · -- the split with the latest table on the right has been tried the other way round
        obtain ⟨_, hmem, hcand⟩ := mem_filterMap.1 hy
        obtain ⟨⟨l, r⟩, hsplit, rfl⟩ := mem_map.1 hmem
        obtain ⟨d, hd, hcost⟩ := candidate_swap hcand
        exact ⟨d, mem_filterMap.2 ⟨_, mem_map.2 ⟨(r, l), splits_swap hsplit, rfl⟩, hd⟩, hcost.le⟩

/-- A set in which every table but the latest one has its edge has a plan: the first table can be
joined last. -/
theorem exists_plan (rows : TableRef → ℕ) (size : ℕ)
    (hm : mask.Sublist tables.reverse) (hne : mask ≠ []) (hlen : mask.length ≤ size + 1)
    (hparent : ∀ t ∈ mask.tail, ∃ e ∈ edges, e.rightTable = t.name ∧ e.leftTable ∈ names mask) :
    ∃ p, bestPlans rows edges size mask = some p := by
  induction size generalizing mask with
  | zero =>
    obtain ⟨t, rfl⟩ := length_eq_one_iff.1 (le_antisymm hlen (length_pos_iff.2 hne))
    exact ⟨_, rfl⟩
  | succ size ih =>
    obtain ⟨init, m, rfl⟩ := (eq_nil_or_concat' mask).resolve_left hne
    cases init with
    | nil => exact ⟨_, rfl⟩
    | cons t ts =>
      have hinit : (t :: ts).Sublist tables.reverse := (sublist_append_left _ _).trans hm
      have hfirst : [m].Sublist tables.reverse := (sublist_append_right _ _).trans hm
      have hjoined : ∀ s ∈ ts ++ [m], ∃ e ∈ edges, e.rightTable = s.name ∧
          e.leftTable ∈ names (t :: ts) := by
        intro s hs
        obtain ⟨e, he, hright, hleft⟩ := hparent s hs
        rw [names, map_append, mem_append, map_singleton, mem_singleton] at hleft
        refine ⟨e, he, hright, hleft.resolve_right fun hmname => ?_⟩
        -- no edge leads from the first table of the set to another one
        rcases mem_append.1 hs with hs | hs
        · have hpair := pairwise_append.1 ((pairwise_reverse.2 h.later).sublist hm)
          exact hpair.2.2 s (mem_cons_of_mem _ hs) m (mem_singleton_self m) e he hmname hright
        · exact (h.ends e he).1 (hmname.trans ((mem_singleton.1 hs ▸ hright).symm))
      obtain ⟨p, hp⟩ := ih hinit (by simp) (by simp at hlen ⊢; omega)
        fun s hs => hjoined s (mem_append_left _ hs)
      obtain ⟨q, hq⟩ := ih hfirst (by simp) (by simp) (by simp)
      obtain ⟨e, he, hright, hleft⟩ := hjoined m (by simp)
      have hlinks : e.Links p.scans q.scans :=
        ((h.planned hinit hp).links_iff (h.planned hfirst hq)).2 ⟨hleft, by simp [hright]⟩
      obtain ⟨f, hf⟩ : ∃ f, findJoinEdge p q edges = some f :=
        Option.isSome_iff_exists.1 (find?_isSome.2 ⟨e, he, decide_eq_true (.inl hlinks)⟩)
      have hmem := mem_filterMap.2
        ⟨_, mem_splits_concat, candidate_eq_some_iff.2 ⟨p, hp, q, hq, f, hf, rfl⟩⟩
      cases hus : ts ++ [m] with
      | nil => simp at hus
      | cons s us =>
        rw [cons_append, hus] at hmem ⊢
        obtain ⟨d, hd⟩ := Option.ne_none_iff_exists'.1
          (mt (argmin_eq_none (f := fst)).1 (ne_nil_of_mem hmem))
        exact ⟨d.2, congrArg (Option.map snd) hd⟩

end HeapOrdered

end Planned

/-- Two tables of a query. -/
def twoTables : List TableRef := [⟨"a", 0, ["y", "w"]⟩, ⟨"b", 0, ["x", "v"]⟩]

/-- One row in each table, with a value of its own in the column `w`. -/
def oneRow (_ : String) (_ : ℕ) : Option (String → Bool) := some fun c => c == "w"

end NovaCore.Planner
