import NovaCore.Data.Bfs
import NovaCore.Data.Except
import NovaCore.Executor.Authorize

/-!
# What the role closure and the privilege check decide

The queue loop of `active_role_closure` is the depth-limited breadth-first search of `Data.Bfs`
over the stored `role_child` edges.  From what that search returns follow the closure, the
privilege check, and how both react to more edges and grants.

## Main definitions

* `Catalog.RoleChild` : the stored role graph.
* `Catalog.Inherits` : the roles that the active roles of a session reach.
* `Catalog.ListsChildren` : the listing of the children of a role is complete.

## Main results

* `mem_activeRoleClosure_iff` : the closure is exactly the set of roles reachable from the active
  roles.
* `activeRoleClosure_eq_ok_iff` : when the closure is computed at all.
* `authorization_decision` : what the closure and the privilege check decide.
-/

namespace NovaCore

open Bfs

variable {r : RoleId} {s : List RoleId} {privilege : SecurityPrivilege} {object : ObjectRef}
  {cat' : Catalog}

namespace Catalog

variable {cat : Catalog} {security : SecurityContext}

/-- The stored edge `("role_child", parent, child)`. -/
def RoleChild (cat : Catalog) (parent child : RoleId) : Prop := child ∈ cat.roleChildren parent

/-- The roles that the active roles of the session reach by zero or more stored edges. -/
def Inherits (cat : Catalog) (security : SecurityContext) (r : RoleId) : Prop :=
  ∃ a ∈ security.activeRoleIds, Relation.ReflTransGen cat.RoleChild a r

/-- Listing the children of a role returns exactly the stored ones.  The listing is empty for a
role whose identifier ends in the byte `0xFF`. -/
def ListsChildren (cat : Catalog) : Prop :=
  ∀ r children, cat.listRoleChildren r = .ok children → ∀ c, c ∈ children ↔ cat.RoleChild r c

/-- The children that the closure queues behind a role. -/
def nextRoles (cat : Catalog) (user : String) (r : RoleId) : Except NovaError (List RoleId) :=
  if cat.roles r = none then .error (.permissionDenied user s!"use missing role {r}")
  else cat.listRoleChildren r

/-! ### The closure as a search -/

theorem closureFrom_eq (user : String) (fuel : ℕ) (found level : List RoleId) :
    cat.closureFrom user fuel found level = search (cat.nextRoles user)
        (.permissionDenied user "role inheritance depth limit exceeded") fuel found level := by
  induction fuel generalizing found level with
  | zero => rfl
  | succ fuel ih =>
    have hvisit : cat.visitRole user = visit (cat.nextRoles user) := by
      funext acc r
      unfold visitRole visit nextRoles
      split_ifs <;> rfl
    rw [closureFrom, search, hvisit]
    simp only [ih]

theorem listRoleChildren_eq_ok {children : List RoleId} : cat.listRoleChildren r = .ok children ↔
      cat.roles r ≠ none ∧ children = (cat.roleChildren r).scanKeys r ∧
        ∀ c ∈ children, cat.roles c ≠ none := by
  unfold listRoleChildren
  split_ifs with hr
  · simp [hr]
  · rw [mapM_reject_eq_ok]
    constructor
    · rintro ⟨rfl, h⟩
      exact ⟨hr, rfl, h⟩
    · rintro ⟨-, rfl, h⟩
      exact ⟨rfl, h⟩

theorem nextRoles_eq_ok {user : String} {children : List RoleId} :
    cat.nextRoles user r = .ok children ↔ cat.listRoleChildren r = .ok children := by
  unfold nextRoles
  split_ifs with hr
  · simp [listRoleChildren_eq_ok, hr]
  · rfl

/-- The edges that the closure follows. -/
theorem edge_nextRoles_iff {user : String} {p c : RoleId} : Bfs.Edge (cat.nextRoles user) p c ↔
      ∃ children, cat.listRoleChildren p = .ok children ∧ c ∈ children := by
  simp only [Edge, nextRoles_eq_ok]

theorem listsChildren_of_lastByte (h : ∀ r c, cat.RoleChild r c → r % 256 ≠ 255) :
    cat.ListsChildren := by
  intro r children hl c
  obtain ⟨-, rfl, -⟩ := listRoleChildren_eq_ok.1 hl
  rw [OMap.mem_scanKeys]
  exact and_iff_right_of_imp (h r c)

/-! ### The closure -/

/-- **The closure is exactly the set of roles reachable from the active roles.** -/
theorem mem_activeRoleClosure_iff (hlist : cat.ListsChildren)
    (hs : cat.activeRoleClosure security = .ok s) (r : RoleId) :
    r ∈ s ↔ cat.Inherits security r := by
  unfold activeRoleClosure at hs
  rw [closureFrom_eq] at hs
  constructor
  · intro hr
    obtain ⟨a, ha, hpath⟩ := (mem_search_iff hs r).1 hr
    refine ⟨a, ha, Relation.ReflTransGen.mono (fun p c hpc => ?_) _ _ hpath⟩
    obtain ⟨children, hl, hc⟩ := edge_nextRoles_iff.1 hpc
    exact (hlist p children hl c).1 hc
  · rintro ⟨a, ha, hpath⟩
    induction hpath with
    | refl => exact (mem_search_iff hs a).2 ⟨a, ha, .refl⟩
    | @tail p c _ hpc ih =>
      -- `p` is in the closure, so its children were listed
      obtain ⟨children, hl⟩ := exists_next_of_search hs ih
      have hc := (hlist p children (nextRoles_eq_ok.1 hl) c).2 hpc
      obtain ⟨b, hb, hbp⟩ := (mem_search_iff hs p).1 ih
      exact (mem_search_iff hs c).2 ⟨b, hb, hbp.tail ⟨children, hl, hc⟩⟩

theorem activeRoleClosure_nodup (hs : cat.activeRoleClosure security = .ok s) : s.Nodup := by
  unfold activeRoleClosure at hs
  rw [closureFrom_eq] at hs
  exact search_nodup hs

/-- Every role of a closure has a record. -/
theorem roles_of_mem_activeRoleClosure (hs : cat.activeRoleClosure security = .ok s) (hr : r ∈ s) :
    cat.roles r ≠ none := by
  unfold activeRoleClosure at hs
  rw [closureFrom_eq] at hs
  obtain ⟨children, hl⟩ := exists_next_of_search hs hr
  exact (listRoleChildren_eq_ok.1 (nextRoles_eq_ok.1 hl)).1

/-- **When the closure is computed**: the roles at most 64 edges away and their children have
records, and those whose shortest path has 64 edges have no listed child. -/
theorem activeRoleClosure_eq_ok_iff : (∃ s, cat.activeRoleClosure security = .ok s) ↔
      (∀ r, Bfs.Within cat.listRoleChildren security.activeRoleIds 64 r →
        ∃ children, cat.listRoleChildren r = .ok children) ∧
      ∀ r c, Bfs.AtDepth cat.listRoleChildren security.activeRoleIds 64 r →
        ¬Bfs.Edge cat.listRoleChildren r c := by
  have hedge : Edge (cat.nextRoles security.username) = Edge cat.listRoleChildren := by
    funext p c
    exact propext edge_nextRoles_iff
  have hwithin : Within (cat.nextRoles security.username) security.activeRoleIds =
      Within cat.listRoleChildren security.activeRoleIds := by
    funext k
    induction k with
    | zero => rfl
    | succ k ih =>
      funext r
      simp only [Within, ih, hedge]
  unfold activeRoleClosure
  rw [closureFrom_eq, search_eq_ok_iff]
  simp only [AtDepth, hwithin, hedge, nextRoles_eq_ok]

/-! ### The privilege check -/

/-- What makes the roles `s` hold a privilege: the administrator role, ownership, or a grant. -/
def Holds (cat : Catalog) (s : List RoleId) (object : ObjectRef) (privilege : SecurityPrivilege) :
    Prop :=
  accountadminRoleId ∈ s ∨
    (∃ owner, cat.owners object = some owner ∧ owner.ownerRoleId ∈ s) ∨
    ∃ r ∈ s, ∃ grant, cat.grants r object = some grant ∧ grant.privileges.contains privilege

theorem hasPrivilege_eq_ok_iff {b : Bool} : cat.hasPrivilege security object privilege = .ok b ↔
      ∃ s, cat.activeRoleClosure security = .ok s ∧ (b = true ↔ cat.Holds s object privilege) := by
  unfold hasPrivilege
  rw [except_bind_eq_ok]
  refine exists_congr fun s => and_congr_right fun _ => ?_
  have howner : ((cat.owners object).any fun owner => owner.ownerRoleId ∈ s) = true ↔
      ∃ owner, cat.owners object = some owner ∧ owner.ownerRoleId ∈ s := by
    simp [Option.any_eq_true]
  have hgrant : (s.any fun roleId => (cat.grants roleId object).any fun grant =>
      grant.privileges.contains privilege) = true ↔
      ∃ r ∈ s, ∃ grant, cat.grants r object = some grant ∧ grant.privileges.contains privilege := by
    simp [List.any_eq_true, Option.any_eq_true]
  unfold Holds
  rw [← howner, ← hgrant]
  by_cases hadmin : accountadminRoleId ∈ s
  · simp only [hadmin, if_true, true_or, iff_true]
    exact ⟨fun h => (Except.ok.inj h).symm, fun h => h ▸ rfl⟩
  · by_cases hown : ((cat.owners object).any fun owner => owner.ownerRoleId ∈ s) = true
    · simp only [hadmin, hown, if_true, if_false, true_or, or_true, iff_true]
      exact ⟨fun h => (Except.ok.inj h).symm, fun h => h ▸ rfl⟩
    · simp only [hadmin, hown, Bool.false_eq_true, if_false, false_or]
      rw [← Bool.eq_iff_iff]
      exact ⟨fun h => (Except.ok.inj h).symm, fun h => h ▸ rfl⟩

/-- `cat'` has the role edges and grants of `cat` and possibly more; the owners are the same. -/
structure ExtendedBy (cat cat' : Catalog) : Prop where
  edges : ∀ p c, cat.RoleChild p c → cat'.RoleChild p c
  owners : cat'.owners = cat.owners
  grants : ∀ r object grant, cat.grants r object = some grant →
    ∃ grant', cat'.grants r object = some grant' ∧
      ∀ privilege, grant.privileges.contains privilege → grant'.privileges.contains privilege

theorem Holds.mono (h : cat.ExtendedBy cat') {s' : List RoleId} (hs : ∀ r ∈ s, r ∈ s')
    (hh : cat.Holds s object privilege) : cat'.Holds s' object privilege := by
  rcases hh with hadmin | ⟨owner, ho, hmem⟩ | ⟨r, hr, grant, hg, hp⟩
  · exact .inl (hs _ hadmin)
  · exact .inr (.inl ⟨owner, by rw [h.owners, ho], hs _ hmem⟩)
  · obtain ⟨grant', hg', hsub⟩ := h.grants r object grant hg
    exact .inr (.inr ⟨r, hs r hr, grant', hg', hsub privilege hp⟩)

theorem Inherits.mono (h : cat.ExtendedBy cat') (hr : cat.Inherits security r) :
    cat'.Inherits security r := by
  obtain ⟨a, ha, hpath⟩ := hr
  exact ⟨a, ha, Relation.ReflTransGen.mono h.edges _ _ hpath⟩

/-- More edges and grants never take a privilege away. -/
theorem hasPrivilege_mono (hlist : cat.ListsChildren) (hlist' : cat'.ListsChildren)
    (h : cat.ExtendedBy cat') (hp : cat.hasPrivilege security object privilege = .ok true) :
    cat'.hasPrivilege security object privilege ≠ .ok false := by
  intro hp'
  obtain ⟨s, hs, hholds⟩ := hasPrivilege_eq_ok_iff.1 hp
  obtain ⟨s', hs', hholds'⟩ := hasPrivilege_eq_ok_iff.1 hp'
  have hsub : ∀ r ∈ s, r ∈ s' := by
    intro r hr
    rw [mem_activeRoleClosure_iff hlist' hs']
    exact ((mem_activeRoleClosure_iff hlist hs r).1 hr).mono h
  have hfalse := hholds'.2 ((hholds.1 rfl).mono h hsub)
  cases hfalse

/-- **The authorization decision.**  A closure that is computed is the set of reachable roles,
without duplicates, all with records; a privilege check that is decided follows the three-way
rule; more edges and grants never turn a privilege off; and a reachable role without a record
makes every check fail. -/
theorem authorization_decision (cat : Catalog) (security : SecurityContext)
    (hlist : cat.ListsChildren) :
    (∀ s, cat.activeRoleClosure security = .ok s →
      (∀ r, r ∈ s ↔ cat.Inherits security r) ∧ s.Nodup ∧ ∀ r ∈ s, cat.roles r ≠ none) ∧
    (∀ object privilege b, cat.hasPrivilege security object privilege = .ok b →
      ∃ s, cat.activeRoleClosure security = .ok s ∧
        (b = true ↔ cat.Holds s object privilege)) ∧
    (∀ cat' : Catalog, cat'.ListsChildren → cat.ExtendedBy cat' → ∀ object privilege,
      cat.hasPrivilege security object privilege = .ok true →
        cat'.hasPrivilege security object privilege ≠ .ok false) ∧
    ∀ r, cat.Inherits security r → cat.roles r = none → ∀ object privilege,
      ∃ e, cat.hasPrivilege security object privilege = .error e := by
  refine ⟨fun s hs => ⟨mem_activeRoleClosure_iff hlist hs, activeRoleClosure_nodup hs, ?_⟩,
    fun object privilege b hb => hasPrivilege_eq_ok_iff.1 hb, ?_, ?_⟩
  · exact fun r hr => roles_of_mem_activeRoleClosure hs hr
  · exact fun cat' hlist' h object privilege hp => hasPrivilege_mono hlist hlist' h hp
  · intro r hr hmissing object privilege
    cases hp : cat.hasPrivilege security object privilege with
    | error e => exact ⟨e, rfl⟩
    | ok b =>
      obtain ⟨s, hs, -⟩ := hasPrivilege_eq_ok_iff.1 hp
      have hmem := (mem_activeRoleClosure_iff hlist hs r).2 hr
      exact absurd hmissing (roles_of_mem_activeRoleClosure hs hmem)

/-- The roles 10 and 11, the first inheriting the second. -/
def sampleRoles : Catalog where
  databases := ∅
  schemas := fun _ => ∅
  tables := fun _ _ => ∅
  streams := fun _ => none
  streamByName := fun _ _ _ => none
  dynamicTables := ∅
  roles := fun r => if r = 10 ∨ r = 11 then some ⟨r, "R", 10, 1⟩ else none
  roleChildren := fun r => if r = 10 then (∅ : OMap Unit).insert 11 () else ∅
  owners := fun _ => none
  grants := fun _ _ => none

/-- A session whose primary role is role 10. -/
def sampleSession : SecurityContext where
  userId := 2
  username := "u"
  primaryRoleId := 10
  secondaryRoleIds := []
  secondaryAll := false

theorem sampleRoles_listsChildren : sampleRoles.ListsChildren := by
  refine listsChildren_of_lastByte fun r c hrc => ?_
  by_cases hr : r = 10
  · subst hr
    decide
  · simp [RoleChild, sampleRoles, hr] at hrc

theorem authorization_decision_sampleRoles :
    (∀ r, r ∈ [10, 11] ↔ sampleRoles.Inherits sampleSession r) ∧
      sampleRoles.hasPrivilege sampleSession ⟨.table, 1⟩ .select = .ok false := by
  refine ⟨?_, by decide +kernel⟩
  have h := (authorization_decision sampleRoles sampleSession sampleRoles_listsChildren).1
  exact (h [10, 11] (by decide +kernel)).1

end Catalog

end NovaCore
