import NovaCore.Executor.RoleClosure
import NovaCore.Metadata.Calls

/-!
# Integrity of the role graph

Users and roles are never dropped and each index is written in the transaction that writes what
it indexes, so the graph of users and roles stays well formed in every interleaving of the calls
that change it.  Role inheritance stays acyclic because the search for a cycle runs in the
transaction that adds the edge.

## Main definitions

* `RbacGraph` : the well-formed states.
* `RoleCall` : the calls that create users and roles and change their edges.
* `roleConfig` : a family of such calls over one store.

## Main results

* `run_rbacGraph` : every interleaving keeps the graph well formed.
* `role_graph_integrity` : from a bootstrapped store on, every interleaving keeps the graph well
  formed, and a user holds `PUBLIC` until it is revoked.
-/

namespace NovaCore

open Prog Store Catalog Function List FollowsE Bfs Std.ExtTreeMap

/-- The index maps exactly the normalized names of the records to them: it is a bijection between
its keys and the records. -/
def NameIndex {β : Type} (index : String → Option ℕ) (records : ℕ → Option β)
    (nameOf : β → String) : Prop :=
  ∀ name id, index name = some id ↔
    ∃ b, records id = some b ∧ Catalog.normalizeIdent (nameOf b) = name

theorem NameIndex.insert {β : Type} {index : String → Option ℕ} {records : ℕ → Option β}
    {nameOf : β → String} (h : NameIndex index records nameOf) {b : β} {id : ℕ}
    (hid : records id = none) (hname : index (normalizeIdent (nameOf b)) = none) :
    NameIndex (update index (normalizeIdent (nameOf b)) (some id))
      (update records id (some b)) nameOf := by
  intro name id'
  by_cases hi : id' = id
  · subst hi
    by_cases hn : name = normalizeIdent (nameOf b)
    · simp [hn]
    · -- the record is new, so no other name led to it
      have hnone : index name ≠ some id' := by
        intro hidx
        obtain ⟨b', hb', -⟩ := (h name id').1 hidx
        simp [hid] at hb'
      simp [hn, hnone, Ne.symm hn]
  · by_cases hn : name = normalizeIdent (nameOf b)
    · subst hn
      have hnone : ¬∃ b', records id' = some b' ∧
          normalizeIdent (nameOf b') = normalizeIdent (nameOf b) := by
        intro hrec
        have hidx := (h _ id').2 hrec
        rw [hname] at hidx
        cases hidx
      simpa [hi, Ne.symm hi] using hnone
    · simpa [hi, hn] using h name id'

variable (st : Store)

/-- Well-formed users, roles and edges. -/
structure RbacGraph : Prop where
  /-- No role inherits itself. -/
  acyclic : ∀ r, ¬Relation.TransGen st.catalog.RoleChild r r
  /-- `role_child` and `role_parent` mirror each other. -/
  roleEdges : ∀ p c, st.catalog.RoleChild p c ↔ st.roleParent c p = true
  /-- `user_role` and `role_user` mirror each other. -/
  userEdges : ∀ u r, st.userRole u r = true ↔ st.roleUser r u = true
  /-- The ends of an inheritance edge are roles. -/
  roles_of_edge : ∀ p c, st.catalog.RoleChild p c →
    st.catalog.roles p ≠ none ∧ st.catalog.roles c ≠ none
  /-- The ends of a user edge are a user and a role. -/
  exists_of_userRole : ∀ u r, st.userRole u r = true →
    st.users u ≠ none ∧ st.catalog.roles r ≠ none
  /-- `role_by_name` is a bijection onto the roles. -/
  roleNames : NameIndex st.roleByName st.catalog.roles RoleMeta.name
  /-- `user_by_name` is a bijection onto the users. -/
  userNames : NameIndex st.userByName st.users UserMeta.name

/-! ### The fields a transaction changes -/

namespace Store

variable {st : Store}

theorem setUserRole_userRole (u u' : UserId) (r r' : RoleId) (held : Bool) :
    (st.setUserRole u r held).userRole u' r' =
      if u' = u ∧ r' = r then held else st.userRole u' r' :=
  update₂_apply

theorem setUserRole_roleUser (u u' : UserId) (r r' : RoleId) (held : Bool) :
    (st.setUserRole u r held).roleUser r' u' =
      if u' = u ∧ r' = r then held else st.roleUser r' u' := by
  simp only [setUserRole, update₂_apply, and_comm]

variable (user : UserMeta) (name : String)

/-- Apart from the roles of users, a new user changes its record and its name. -/
theorem addUser_eq : ∃ userRole roleUser, st.addUser user name = { st with
      users := update st.users user.id (some user)
      userByName := update st.userByName name (some user.id)
      userRole, roleUser } := by
  unfold addUser
  split_ifs <;> exact ⟨_, _, rfl⟩

/-- A new user holds `PUBLIC` and its default role. -/
theorem addUser_userRole (u : UserId) (r : RoleId) : (st.addUser user name).userRole u r = true ↔
      st.userRole u r = true ∨ u = user.id ∧ (r = publicRoleId ∨ r = user.defaultRoleId) := by
  unfold addUser
  split_ifs with hd
  · simp only [setUserRole_userRole]
    split_ifs <;> simp_all
  · simp only [setUserRole_userRole]
    split_ifs <;> simp_all

theorem addUser_roleUser (u : UserId) (r : RoleId) : (st.addUser user name).roleUser r u = true ↔
      st.roleUser r u = true ∨ u = user.id ∧ (r = publicRoleId ∨ r = user.defaultRoleId) := by
  unfold addUser
  split_ifs with hd
  · simp only [setUserRole_roleUser]
    split_ifs <;> simp_all
  · simp only [setUserRole_roleUser]
    split_ifs <;> simp_all

theorem addRole_roles (role : RoleMeta) (name : String) : (st.addRole role name).catalog.roles =
      update st.catalog.roles role.id (some role) := rfl

theorem addRole_roleByName (role : RoleMeta) (name : String) :
    (st.addRole role name).roleByName = update st.roleByName name (some role.id) := rfl

theorem setRoleChild_roleChild (p c p' c' : RoleId) :
    (st.setRoleChild p c).catalog.RoleChild p' c' ↔
      st.catalog.RoleChild p' c' ∨ p' = p ∧ c' = c := by
  by_cases hp : p' = p
  · subst hp
    simp only [setRoleChild, RoleChild, update_self, mem_insert,
      compare_eq_iff_eq, true_and]
    rw [or_comm, eq_comm]
  · simp [setRoleChild, RoleChild, hp]

theorem clearRoleChild_roleChild (p c p' c' : RoleId) :
    (st.clearRoleChild p c).catalog.RoleChild p' c' ↔
      st.catalog.RoleChild p' c' ∧ ¬(p' = p ∧ c' = c) := by
  by_cases hp : p' = p
  · subst hp
    simp only [clearRoleChild, RoleChild, update_self,
      mem_erase, ne_eq, compare_eq_iff_eq, true_and]
    rw [and_comm, eq_comm]
  · simp [clearRoleChild, RoleChild, hp]

end Store

/-! ### Transactions keep the graph well formed -/

variable {u : UserId} {parent child : RoleId}

section Transactions

variable {st st' : Store}

/-- The part of the store that `RbacGraph` speaks of is the same. -/
structure SameRbac (st st' : Store) : Prop where
  users : st'.users = st.users
  userByName : st'.userByName = st.userByName
  roles : st'.catalog.roles = st.catalog.roles
  roleByName : st'.roleByName = st.roleByName
  userRole : st'.userRole = st.userRole
  roleUser : st'.roleUser = st.roleUser
  roleChildren : st'.catalog.roleChildren = st.catalog.roleChildren
  roleParent : st'.roleParent = st.roleParent

section

variable (h : RbacGraph st)
include h

theorem RbacGraph.congr (hs : SameRbac st st') : RbacGraph st' := by
  have hedge : st'.catalog.RoleChild = st.catalog.RoleChild := by
    funext p c
    simp only [RoleChild, hs.roleChildren]
  refine ⟨?_, ?_, ?_, ?_, ?_, ?_, ?_⟩
  · simpa [hedge] using h.acyclic
  · simpa [hedge, hs.roleParent] using h.roleEdges
  · simpa [hs.userRole, hs.roleUser] using h.userEdges
  · simpa [hedge, hs.roles] using h.roles_of_edge
  · simpa [hs.userRole, hs.users, hs.roles] using h.exists_of_userRole
  · simpa [hs.roleByName, hs.roles] using h.roleNames
  · simpa [hs.userByName, hs.users] using h.userNames

theorem RbacGraph.bumped : RbacGraph st.bumped := h.congr ⟨rfl, rfl, rfl, rfl, rfl, rfl, rfl, rfl⟩

theorem RbacGraph.addUser {user : UserMeta} (hid : st.users user.id = none)
    (hname : st.userByName (normalizeIdent user.name) = none)
    (hpublic : st.catalog.roles publicRoleId ≠ none)
    (hdefault : st.catalog.roles user.defaultRoleId ≠ none) :
    RbacGraph (st.addUser user (normalizeIdent user.name)) := by
  have huser := @addUser_userRole st user (normalizeIdent user.name)
  have hrole := @addUser_roleUser st user (normalizeIdent user.name)
  obtain ⟨_, _, heq⟩ := @addUser_eq st user (normalizeIdent user.name)
  rw [heq] at huser hrole ⊢
  refine { h with
    userEdges := fun u r => ?_, exists_of_userRole := fun u r hur => ?_, userNames := ?_ }
  · rw [huser, hrole, h.userEdges]
  · rcases (huser u r).1 hur with hold | ⟨rfl, hr⟩
    · have hne : u ≠ user.id := by
        rintro rfl
        exact (h.exists_of_userRole _ r hold).1 hid
      simpa [hne] using h.exists_of_userRole u r hold
    · refine ⟨by simp, ?_⟩
      rcases hr with rfl | rfl
      · exact hpublic
      · exact hdefault
  · dsimp only
    exact h.userNames.insert hid hname

theorem RbacGraph.addRole {role : RoleMeta} (hid : st.catalog.roles role.id = none)
    (hname : st.roleByName (normalizeIdent role.name) = none) :
    RbacGraph (st.addRole role (normalizeIdent role.name)) := by
  have hkeep : ∀ r, st.catalog.roles r ≠ none →
      update st.catalog.roles role.id (some role) r ≠ none := by
    intro r hr
    by_cases hrid : r = role.id
    · simp [hrid]
    · simpa [hrid] using hr
  refine { h with
    roles_of_edge := fun p c hpc => ?_, exists_of_userRole := fun u r hur => ?_, roleNames := ?_ }
  · obtain ⟨hp, hc⟩ := h.roles_of_edge p c hpc
    exact ⟨hkeep p hp, hkeep c hc⟩
  · obtain ⟨hu, hr⟩ := h.exists_of_userRole u r hur
    exact ⟨hu, hkeep r hr⟩
  · rw [addRole_roleByName]
    exact h.roleNames.insert hid hname

theorem RbacGraph.setUserRole {r : RoleId} {held : Bool}
    (hends : held = true → st.users u ≠ none ∧ st.catalog.roles r ≠ none) :
    RbacGraph (st.setUserRole u r held) := by
  refine { h with userEdges := fun u' r' => ?_, exists_of_userRole := fun u' r' hur => ?_ }
  · rw [setUserRole_userRole, setUserRole_roleUser]
    split_ifs
    · rfl
    · exact h.userEdges u' r'
  · rw [setUserRole_userRole] at hur
    split_ifs at hur with heq
    · obtain ⟨rfl, rfl⟩ := heq
      exact hends hur
    · exact h.exists_of_userRole u' r' hur

end

theorem Store.grantSearchNext_eq_ok {r : RoleId} {children : List RoleId}
    (h : st.grantSearchNext parent r = .ok children) :
    r ≠ parent ∧ children = (st.catalog.roleChildren r).keys := by
  unfold grantSearchNext at h
  split_ifs at h with hr
  exact ⟨hr, (mapM_reject_eq_ok.1 h).1⟩

/-- The cycle search succeeds only if the parent is not reachable from the child. -/
theorem not_reachable_of_search {limit : NovaError} {fuel : ℕ} {found : List RoleId}
    (hs : search (st.grantSearchNext parent) limit fuel [] [child] = .ok found) :
    ¬Relation.ReflTransGen st.catalog.RoleChild child parent := by
  -- every role reachable from the child is found, and the parent cannot be found
  have hfound : ∀ r, Relation.ReflTransGen st.catalog.RoleChild child r → r ∈ found := by
    intro r hpath
    induction hpath with
    | refl => exact (mem_search_iff hs child).2 ⟨child, by simp, .refl⟩
    | @tail p c _ hpc ih =>
      obtain ⟨children, hl⟩ := exists_next_of_search hs ih
      obtain ⟨-, rfl⟩ := grantSearchNext_eq_ok hl
      obtain ⟨a, ha, hap⟩ := (mem_search_iff hs p).1 ih
      have hedge : Bfs.Edge (st.grantSearchNext parent) p c :=
        ⟨_, hl, mem_keys.2 hpc⟩
      exact (mem_search_iff hs c).2 ⟨a, ha, hap.tail hedge⟩
  intro hpath
  obtain ⟨children, hl⟩ := exists_next_of_search hs (hfound parent hpath)
  exact (grantSearchNext_eq_ok hl).1 rfl

theorem RbacGraph.setRoleChild (h : RbacGraph st) (hparent : st.catalog.roles parent ≠ none)
    (hchild : st.catalog.roles child ≠ none)
    (hpath : ¬Relation.ReflTransGen st.catalog.RoleChild child parent) :
    RbacGraph (st.setRoleChild parent child) := by
  refine { h with acyclic := ?_, roleEdges := fun p c => ?_, roles_of_edge := fun p c hpc => ?_ }
  · exact acyclic_of_insert h.acyclic hpath
      fun p c hpc => (setRoleChild_roleChild parent child p c).1 hpc
  · rw [setRoleChild_roleChild, h.roleEdges]
    simp only [Store.setRoleChild, update₂_apply]
    split_ifs with heq
    · simp [heq]
    · simp only [or_iff_left_iff_imp]
      exact fun hpc => absurd ⟨hpc.2, hpc.1⟩ heq
  · rcases (setRoleChild_roleChild parent child p c).1 hpc with hold | ⟨rfl, rfl⟩
    · exact h.roles_of_edge p c hold
    · exact ⟨hparent, hchild⟩

theorem RbacGraph.clearRoleChild (h : RbacGraph st) :
    RbacGraph (st.clearRoleChild parent child) := by
  refine { h with
    acyclic := fun r hcycle => ?_, roleEdges := fun p c => ?_, roles_of_edge := fun p c hpc => ?_ }
  · refine h.acyclic r (Relation.TransGen.mono (fun p c hpc => ?_) _ _ hcycle)
    exact ((clearRoleChild_roleChild parent child p c).1 hpc).1
  · rw [clearRoleChild_roleChild, h.roleEdges]
    simp only [Store.clearRoleChild, update₂_apply]
    split_ifs with heq
    · simp [heq]
    · simp only [and_iff_left_iff_imp]
      exact fun _ hpc => heq ⟨hpc.2, hpc.1⟩
  · exact h.roles_of_edge p c ((clearRoleChild_roleChild parent child p c).1 hpc).1

end Transactions

/-! ### What the calls may do -/

/-- The operations of the calls that build the role graph, after the roles `seen` were seen to
exist. -/
def RoleMay (seen : List RoleId) : MetaOp → Prop
  | .query _ => True
  | .txn (.takeNextId _) => True
  | .txn (.createUser user name) => user.defaultRoleId ∈ seen ∧ publicRoleId ∈ seen ∧
      name = Catalog.normalizeIdent user.name
  | .txn (.createRole role name) => name = Catalog.normalizeIdent role.name
  | .txn (.grantRoleToUser _ _ _) => True
  | .txn (.revokeRoleFromUser _ _) => True
  | .txn (.grantRoleToRole _ _ _) => True
  | .txn (.revokeRoleFromRole _ _) => True
  | .txn (.setObjectOwner _) => True
  | _ => False

/-- The roles a call has seen to exist. -/
def recordRole (seen : List RoleId) : (o : MetaOp) → o.Res → List RoleId
  | .query (.getRole r), .ok (some _) => r :: seen
  | .txn (.createRole role _), .ok _ => role.id :: seen
  | _, _ => seen

/-- The protocol of the calls that build the role graph. -/
def roleProtocol : Protocol MetaOp MetaOp.Res (List RoleId) where
  record := recordRole
  Allowed := RoleMay

/-- The operation takes a role away from a user or a role. -/
def MetaOp.isRevoke : MetaOp → Bool
  | .txn (.revokeRoleFromUser _ _) => true
  | .txn (.revokeRoleFromRole _ _) => true
  | _ => false

/-- The protocol of the calls that only add to the role graph. -/
def growProtocol : Protocol MetaOp MetaOp.Res (List RoleId) where
  record := recordRole
  Allowed seen o := RoleMay seen o ∧ o.isRevoke = false

/-- The roles exist. -/
def RolesExist (rs : List RoleId) (st : Store) : Prop := ∀ r ∈ rs, st.catalog.roles r ≠ none

section Steps

variable {pq : Parquet} {st st' : Store} {o : MetaOp} {r : o.Res} {seen : List RoleId}

/-- What the operations of the calls do to the role graph. -/
inductive RoleEffect (seen : List RoleId) (st : Store) :
    Event MetaOp MetaOp.Res → Store → Prop
  | same {e : Event MetaOp MetaOp.Res} {st' : Store} (h : SameRbac st st') :
      RoleEffect seen st e st'
  | addUser {user : UserMeta} (hid : st.users user.id = none)
      (hname : st.userByName (Catalog.normalizeIdent user.name) = none)
      (hdefault : user.defaultRoleId ∈ seen) (hpublic : publicRoleId ∈ seen) :
      RoleEffect seen st ⟨.txn (.createUser user (Catalog.normalizeIdent user.name)), .ok ()⟩
        (st.addUser user (Catalog.normalizeIdent user.name)).bumped
  | addRole {role : RoleMeta} (hid : st.catalog.roles role.id = none)
      (hname : st.roleByName (Catalog.normalizeIdent role.name) = none) :
      RoleEffect seen st ⟨.txn (.createRole role (Catalog.normalizeIdent role.name)), .ok ()⟩
        (st.addRole role (Catalog.normalizeIdent role.name)).bumped
  | grantUser {u : UserId} {r g : RoleId} (hu : st.users u ≠ none)
      (hr : st.catalog.roles r ≠ none) :
      RoleEffect seen st ⟨.txn (.grantRoleToUser u r g), .ok ()⟩ (st.setUserRole u r true).bumped
  | revokeUser {u : UserId} {r : RoleId} :
      RoleEffect seen st ⟨.txn (.revokeRoleFromUser u r), .ok ()⟩
        (st.setUserRole u r false).bumped
  | grantRole {p c g : RoleId} (hp : st.catalog.roles p ≠ none) (hc : st.catalog.roles c ≠ none)
      (hpath : ¬Relation.ReflTransGen st.catalog.RoleChild c p) :
      RoleEffect seen st ⟨.txn (.grantRoleToRole p c g), .ok ()⟩ (st.setRoleChild p c).bumped
  | revokeRole {p c : RoleId} :
      RoleEffect seen st ⟨.txn (.revokeRoleFromRole p c), .ok ()⟩ (st.clearRoleChild p c).bumped

theorem SameRbac.refl (st : Store) : SameRbac st st := ⟨rfl, rfl, rfl, rfl, rfl, rfl, rfl, rfl⟩

/-- **What a call does to the role graph, one operation at a time.** -/
theorem roleEffect_of_step (hmay : RoleMay seen o) (hs : MetaStep pq st o r st') :
    RoleEffect seen st ⟨o, r⟩ st' := by
  cases metaStep_effect hs with
  | query _ | failed => exact .same (.refl _)
  | storage _ => cases hmay
  | @txn t a _ hrun =>
    cases t <;> try exact hmay.elim
    case takeNextId counter =>
      rw [(takeNextId_eq_ok hrun).2]
      exact .same ⟨rfl, rfl, rfl, rfl, rfl, rfl, rfl, rfl⟩
    case createUser user name =>
      obtain ⟨hdefault, hpublic, rfl⟩ := hmay
      obtain ⟨hid, hname, rfl⟩ := createUser_eq_ok (map_unit_eq_ok.1 hrun)
      exact .addUser hid hname hdefault hpublic
    case createRole role name =>
      obtain rfl := hmay
      obtain ⟨hid, hname, rfl⟩ := createRole_eq_ok (map_unit_eq_ok.1 hrun)
      exact .addRole hid hname
    case grantRoleToUser u r g =>
      obtain ⟨hu, hr, ⟨-, rfl⟩ | ⟨-, rfl⟩⟩ := grantRoleToUser_eq_ok (map_unit_eq_ok.1 hrun)
      · exact .same (.refl _)
      · exact .grantUser hu hr
    case revokeRoleFromUser u r =>
      obtain ⟨-, rfl⟩ | ⟨-, rfl⟩ := revokeRoleFromUser_eq_ok (map_unit_eq_ok.1 hrun)
      · exact .same (.refl _)
      · exact .revokeUser
    case grantRoleToRole p c g =>
      obtain ⟨hp, hc, ⟨found, hf⟩, rfl⟩ := grantRoleToRole_eq_ok (map_unit_eq_ok.1 hrun)
      exact .grantRole hp hc (not_reachable_of_search hf)
    case revokeRoleFromRole p c =>
      obtain ⟨-, rfl⟩ | ⟨-, rfl⟩ := revokeRoleFromRole_eq_ok (map_unit_eq_ok.1 hrun)
      · exact .same (.refl _)
      · exact .revokeRole
    case setObjectOwner owner =>
      obtain rfl := bumpEpoch_eq_ok (map_unit_eq_ok.1 hrun)
      exact .same ⟨rfl, rfl, rfl, rfl, rfl, rfl, rfl, rfl⟩

/-- Roles are never dropped. -/
theorem RolesExist.step {rs : List RoleId} (h : RolesExist rs st) (hmay : RoleMay seen o)
    (hs : MetaStep pq st o r st') : RolesExist rs st' := by
  intro r' hr'
  have hold := h r' hr'
  cases roleEffect_of_step hmay hs with
  | same hsame =>
    rw [hsame.roles]
    exact hold
  | @addUser user =>
    obtain ⟨_, _, heq⟩ := @addUser_eq st user (normalizeIdent user.name)
    simpa [bumped, heq] using hold
  | @addRole role =>
    by_cases hid : r' = role.id
    · simp [bumped, addRole_roles, hid]
    · simpa [bumped, addRole_roles, hid] using hold
  | grantUser | revokeUser | grantRole | revokeRole => exact hold

/-- A call sees only roles that exist. -/
theorem RolesExist.record (h : RolesExist seen st) (hmay : RoleMay seen o)
    (hs : MetaStep pq st o r st') : RolesExist (recordRole seen o r) st' := by
  have hkeep := h.step hmay hs
  unfold recordRole
  split
  · next q m =>
    cases metaStep_effect hs with
    | query hq =>
      refine forall_mem_cons.2 ⟨?_, hkeep⟩
      have hm : some m = st.catalog.roles _ := hq _ rfl
      simp [← hm]
  · next role name u =>
    cases metaStep_effect hs with
    | txn hrun =>
      obtain ⟨-, -, rfl⟩ := createRole_eq_ok (map_unit_eq_ok.1 hrun)
      exact forall_mem_cons.2 ⟨by simp [bumped, addRole_roles], hkeep⟩
  · exact hkeep

/-- **Every transaction of the calls keeps the graph well formed.** -/
theorem RbacGraph.step (h : RbacGraph st) (hseen : RolesExist seen st) (hmay : RoleMay seen o)
    (hs : MetaStep pq st o r st') : RbacGraph st' := by
  cases roleEffect_of_step hmay hs with
  | same hsame => exact h.congr hsame
  | addUser hid hname hdefault hpublic =>
    exact (h.addUser hid hname (hseen _ hpublic) (hseen _ hdefault)).bumped
  | addRole hid hname => exact (h.addRole hid hname).bumped
  | grantUser hu hr => exact (h.setUserRole fun _ => ⟨hu, hr⟩).bumped
  | revokeUser => exact (h.setUserRole fun hfalse => by cases hfalse).bumped
  | grantRole hp hc hpath => exact (h.setRoleChild hp hc hpath).bumped
  | revokeRole => exact h.clearRoleChild.bumped

/-- The user, if it exists, holds `PUBLIC`. -/
def HoldsPublic (u : UserId) (st : Store) : Prop :=
  st.users u ≠ none → st.userRole u publicRoleId = true

/-- The event revokes `PUBLIC` from the user. -/
def revokesPublic (u : UserId) : Event MetaOp MetaOp.Res → Bool
  | ⟨.txn (.revokeRoleFromUser u' r), .ok _⟩ => u' = u && r = publicRoleId
  | _ => false

theorem revokesPublic_eq_false (h : o.isRevoke = false) : revokesPublic u ⟨o, r⟩ = false := by
  unfold revokesPublic
  split
  · next heq =>
    cases heq
    cases h
  · rfl

theorem HoldsPublic.step (h : HoldsPublic u st) (hmay : RoleMay seen o)
    (hs : MetaStep pq st o r st') (hno : revokesPublic u ⟨o, r⟩ = false) : HoldsPublic u st' := by
  intro hu
  cases roleEffect_of_step hmay hs with
  | same hsame =>
    rw [hsame.users] at hu
    rw [hsame.userRole]
    exact h hu
  | @addUser user =>
    refine (addUser_userRole user _ u publicRoleId).2 ?_
    by_cases hid : u = user.id
    · exact .inr ⟨hid, .inl rfl⟩
    · refine .inl (h ?_)
      obtain ⟨_, _, heq⟩ := @addUser_eq st user (normalizeIdent user.name)
      simpa [bumped, heq, hid] using hu
  | addRole | grantRole | revokeRole => exact h hu
  | @grantUser u' r' =>
    refine (setUserRole_userRole u' u r' publicRoleId true).trans ?_
    split_ifs
    · rfl
    · exact h hu
  | @revokeUser u' r' =>
    refine (setUserRole_userRole u' u r' publicRoleId false).trans ?_
    split_ifs with heq
    · simp [revokesPublic, heq] at hno
    · exact h hu

end Steps

/-! ### The calls follow the protocol -/

section Follows

variable {seen : List RoleId}

theorem subset_recordRole {o : MetaOp} {r : o.Res} : seen ⊆ recordRole seen o r := by
  unfold recordRole
  split
  · exact subset_cons_self _ _
  · exact subset_cons_self _ _
  · exact Subset.refl _

/-- The program only adds to the role graph; it keeps in mind the roles seen before, and leaves `Q`
for its result. -/
def Grows {α : Type} (seen : List RoleId) (Q : List RoleId → α → Prop) (p : Meta α) : Prop :=
  FollowsE growProtocol (fun s a => seen ⊆ s ∧ Q s a) (fun _ => True) p seen

variable {α β : Type} {Q : List RoleId → α → Prop} {R : List RoleId → β → Prop}

theorem Grows.pure {a : α} (h : Q seen a) : Grows seen Q (Pure.pure a) :=
  followsE_pure ⟨Subset.refl _, h⟩

theorem Grows.throw {e : NovaError} : Grows seen Q (throw e) := followsE_throw trivial

theorem Grows.bind {p : Meta α} {f : α → Meta β} (hp : Grows seen Q p)
    (hf : ∀ s a, seen ⊆ s → Q s a → Grows s R (f a)) : Grows seen R (p >>= f) :=
  followsE_bind hp fun s a hs => mono (hf s a hs.1 hs.2) fun _ _ h =>
    ⟨List.Subset.trans hs.1 h.1, h.2⟩

theorem grows_ask {q : MetaQuery} : Grows seen (fun _ _ => True) (ask q) :=
  followsE_call ⟨trivial, rfl⟩ (fun _ => ⟨subset_recordRole, trivial⟩) fun _ => trivial

theorem grows_getRole {r : RoleId} :
    Grows seen (fun s a => a ≠ none → r ∈ s) (ask (.getRole r)) := by
  refine followsE_call ⟨trivial, rfl⟩ (fun a => ⟨subset_recordRole, fun ha => ?_⟩) fun _ => trivial
  cases a with
  | none => exact absurd rfl ha
  | some m => exact mem_cons_self

theorem grows_transact {t : MetaTxn} (h : RoleMay seen (.txn t))
    (hgrow : (MetaOp.txn t).isRevoke = false) : Grows seen (fun _ _ => True) (transact t) :=
  followsE_call ⟨h, hgrow⟩ (fun _ => ⟨subset_recordRole, trivial⟩) fun _ => trivial

theorem grows_transact_createRole {seen : List RoleId} {role : RoleMeta} :
    Grows seen (fun s _ => role.id ∈ s)
      (transact (.createRole role (normalizeIdent role.name))) := by
  refine followsE_call ⟨rfl, rfl⟩ (fun _ => ⟨?_, mem_cons_self⟩) fun _ => trivial
  exact subset_cons_self _ _

theorem grows_getUserByName (name : String) :
    Grows seen (fun _ _ => True) (getUserByName name) := by
  refine grows_ask.bind fun s a _ _ => ?_
  cases a with
  | none => exact .pure trivial
  | some id => exact grows_ask

theorem grows_getRoleByName (name : String) :
    Grows seen (fun _ _ => True) (getRoleByName name) := by
  refine grows_ask.bind fun s a _ _ => ?_
  cases a with
  | none => exact .pure trivial
  | some id => exact grows_ask

theorem grows_securityNextId {counter : IdCounter} {floor : ℕ} :
    Grows seen (fun _ _ => True) (securityNextId counter floor) := by
  refine Grows.bind (grows_transact trivial rfl) fun s a _ _ => ?_
  exact followsE_lift trivial fun _ _ => Grows.pure trivial

theorem grows_newUserId (id : UserId) : Grows seen (fun _ _ => True) (newUserId id) := by
  unfold newUserId
  split_ifs with hid
  · exact grows_securityNextId
  · refine grows_ask.bind fun s a _ _ => ?_
    cases a with
    | none => exact .pure trivial
    | some m => exact .throw

theorem grows_newRoleId (id : RoleId) : Grows seen (fun _ a => id ≠ 0 → a = id) (newRoleId id) := by
  unfold newRoleId
  split_ifs with hid
  · exact mono grows_securityNextId fun s a hs => ⟨hs.1, fun h => absurd hid h⟩
  · refine grows_ask.bind fun s a _ _ => ?_
    cases a with
    | none => exact .pure fun _ => rfl
    | some m => exact .throw

theorem grows_createUser {user : UserMeta} (hpublic : publicRoleId ∈ seen) :
    Grows seen (fun _ _ => True) (createUser user) := by
  refine (grows_getUserByName _).bind fun s1 a h1 _ => ?_
  cases a with
  | some m => exact .throw
  | none =>
    refine grows_getRole.bind fun s2 a h2 hrole => ?_
    cases a with
    | none => exact .throw
    | some role =>
      refine (grows_newUserId _).bind fun s3 id h3 _ => ?_
      have hdefault : user.defaultRoleId ∈ s3 := h3 (hrole (by simp))
      have hpublic : publicRoleId ∈ s3 := h3 (h2 (h1 hpublic))
      exact Grows.bind (grows_transact ⟨hdefault, hpublic, rfl⟩ rfl) fun _ _ _ _ => .pure trivial

/-- `create_role` leaves the identifier it was given among the roles seen. -/
theorem grows_createRole {role : RoleMeta} :
    Grows seen (fun s _ => role.id ≠ 0 → role.id ∈ s) (createRole role) := by
  have hwrite : ∀ s : List RoleId, Grows s (fun s _ => role.id ≠ 0 → role.id ∈ s) (do
      let id ← newRoleId role.id
      transact (.createRole { role with id } (normalizeIdent role.name))
      return id) := by
    intro s
    refine (grows_newRoleId _).bind fun s1 id _ hid => ?_
    refine grows_transact_createRole.bind fun s2 _ _ h2 => ?_
    exact .pure fun h0 => hid h0 ▸ h2
  refine (grows_getRoleByName _).bind fun s1 a _ _ => ?_
  cases a with
  | some m => exact .throw
  | none =>
    rw [if_neg (by simp)]
    split_ifs with hadmin
    · refine grows_ask.bind fun s2 a _ _ => ?_
      cases a with
      | none => exact .throw
      | some m => exact hwrite s2
    · exact hwrite s1

theorem grows_grantRoleToRole {p c g : RoleId} :
    Grows seen (fun _ _ => True) (grantRoleToRole p c g) := by
  unfold grantRoleToRole
  split_ifs with hpc
  · exact .throw
  · exact grows_transact trivial rfl

theorem grows_ensureRole (role : RoleMeta) (hid : role.id ≠ 0) :
    Grows seen (fun s _ => role.id ∈ s) (ensureRole role) := by
  refine grows_getRole.bind fun s a _ hs => ?_
  cases a with
  | some m => exact .pure (hs (by simp))
  | none => exact grows_createRole.bind fun _ _ _ hs => .pure (hs hid)

theorem grows_ensureUser (user : UserMeta) (hpublic : publicRoleId ∈ seen) :
    Grows seen (fun _ _ => True) (ensureUser user) := by
  refine grows_ask.bind fun s a hs _ => ?_
  cases a with
  | some m => exact .pure trivial
  | none => exact (grows_createUser (hs hpublic)).bind fun _ _ _ _ => .pure trivial

theorem grows_ensureOwner (owner : ObjectOwnerMeta) :
    Grows seen (fun _ _ => True) (ensureOwner owner) := by
  refine grows_ask.bind fun s a _ _ => ?_
  cases a with
  | some m => exact .pure trivial
  | none =>
    refine grows_ask.bind fun s a _ _ => ?_
    cases a with
    | none => exact .throw
    | some m => exact grows_transact trivial rfl

/-- After `bootstrap_security` the role `PUBLIC` is among the roles seen. -/
theorem grows_bootstrapSecurity : Grows seen (fun s _ => publicRoleId ∈ s) bootstrapSecurity := by
  refine (grows_ensureRole _ (by decide)).bind fun s1 _ _ _ => ?_
  refine (grows_ensureRole _ (by decide)).bind fun s2 _ _ hpublic => ?_
  refine (grows_ensureUser _ hpublic).bind fun s3 _ h3 _ => ?_
  refine Grows.bind (grows_transact trivial rfl) fun s4 _ h4 _ => ?_
  refine Grows.bind (grows_transact trivial rfl) fun s5 _ h5 _ => ?_
  exact mono (grows_ensureOwner _) fun s6 _ h6 => ⟨h6.1, h6.1 (h5 (h4 (h3 hpublic)))⟩

end Follows

/-! ### Interleaved calls -/

/-- A call that creates a user or a role or changes an edge. -/
inductive RoleCall
  | createUser (user : UserMeta)
  | createRole (role : RoleMeta)
  | grantRoleToUser (u : UserId) (r grantedBy : RoleId)
  | revokeRoleFromUser (u : UserId) (r : RoleId)
  | grantRoleToRole (parent child grantedBy : RoleId)
  | revokeRoleFromRole (parent child : RoleId)

/-- The program of a call. -/
def RoleCall.exec : RoleCall → Meta Unit
  | createUser user => do let _ ← NovaCore.createUser user
  | createRole role => do let _ ← NovaCore.createRole role
  | grantRoleToUser u r grantedBy => NovaCore.grantRoleToUser u r grantedBy
  | revokeRoleFromUser u r => NovaCore.revokeRoleFromUser u r
  | grantRoleToRole parent child grantedBy => NovaCore.grantRoleToRole parent child grantedBy
  | revokeRoleFromRole parent child => NovaCore.revokeRoleFromRole parent child

/-- The calls `calls`, all about to start, over the store `st`. -/
def roleConfig {ι : Type} (st : Store) (calls : ι → RoleCall) :
    Config ι MetaOp MetaOp.Res Store fun _ => Except NovaError Unit where
  world := st
  threads i := (calls i).exec.run

theorem RoleCall.exec_follows (call : RoleCall) : Obeys roleProtocol call.exec [publicRoleId] := by
  have hgrow : ∀ p : Meta Unit, Grows [publicRoleId] (fun _ _ => True) p →
      Obeys roleProtocol p [publicRoleId] := fun p hp =>
    Follows.weaken (mono hp fun _ _ _ => trivial) rfl fun _ _ hallowed => hallowed.1
  cases call with
  | createUser user =>
    exact hgrow _ ((grows_createUser (by simp)).bind fun _ _ _ _ => .pure trivial)
  | createRole role => exact hgrow _ (grows_createRole.bind fun _ _ _ _ => .pure trivial)
  | grantRoleToUser u r g => exact hgrow _ (grows_transact trivial rfl)
  | grantRoleToRole p c g => exact hgrow _ grows_grantRoleToRole
  | revokeRoleFromUser u r | revokeRoleFromRole p c =>
    exact followsE_call trivial (fun _ => trivial) fun _ => trivial

section Runs

variable {pq : Parquet} {ι : Type} [DecidableEq ι] {st : Store} {calls : ι → RoleCall}
  {h : History ι MetaOp MetaOp.Res}
  {c : Config ι MetaOp MetaOp.Res Store fun _ => Except NovaError Unit}

omit [DecidableEq ι] in
theorem roleConfig_follows (i : ι) :
    ((roleConfig st calls).threads i).Follows roleProtocol (fun _ _ => True) [publicRoleId] :=
  Follows.mono (RoleCall.exec_follows (calls i)) fun _ _ _ => trivial

/-- **Every interleaving of the calls keeps the graph well formed.** -/
theorem run_rbacGraph (hst : RbacGraph st) (hpublic : st.catalog.roles publicRoleId ≠ none)
    (hr : Run (MetaStep pq) (roleConfig st calls) h c) : RbacGraph c.world := by
  have hseen : RolesExist [publicRoleId] st := by simpa [RolesExist] using hpublic
  refine (hr.relyGuarantee RbacGraph RolesExist roleConfig_follows hst hseen ?_ ?_).1
  · intro i s st o r st' hg hs hmay hstep
    exact ⟨hg.step hs hmay hstep, hs.record hmay hstep⟩
  · intro i s s' st o r st' hg hs hs' hmay hstep
    exact hs'.step hmay hstep

/-- From the point where a user is created or holds `PUBLIC`, it holds `PUBLIC` until it is
revoked. -/
theorem run_holdsPublic {c1 : Config ι MetaOp MetaOp.Res Store fun _ => Except NovaError Unit}
    {h1 h2 : History ι MetaOp MetaOp.Res} (hr1 : Run (MetaStep pq) (roleConfig st calls) h1 c1)
    (hr2 : Run (MetaStep pq) c1 h2 c) (hu : HoldsPublic u c1.world)
    (hno : ∀ x ∈ h2, revokesPublic u x.2 = false) : HoldsPublic u c.world := by
  refine Run.invariant_after (C := fun _ _ x => revokesPublic u x.2 = false)
    (fun _ st => HoldsPublic u st) hr1 hr2 roleConfig_follows ?_ hu ?_
  · intro h x h' c' he _ _
    exact hno x (by simp [he])
  · intro h c i o r st' _ hpub hC hmay hstep
    exact hpub.step hmay hstep hC

end Runs

/-! ### The bootstrapped store -/

/-- No user, role or edge is stored. -/
structure NoSecurity : Prop where
  users : ∀ u, st.users u = none
  userByName : ∀ name, st.userByName name = none
  roles : ∀ r, st.catalog.roles r = none
  roleByName : ∀ name, st.roleByName name = none
  userRole : ∀ u r, st.userRole u r = false
  roleUser : ∀ r u, st.roleUser r u = false
  roleChildren : ∀ p c, ¬st.catalog.RoleChild p c
  roleParent : ∀ c p, st.roleParent c p = false

theorem NoSecurity.rbacGraph {st : Store} (h : NoSecurity st) : RbacGraph st where
  acyclic r hcycle := by
    obtain ⟨c, hc, -⟩ := Relation.TransGen.head'_iff.1 hcycle
    exact h.roleChildren r c hc
  roleEdges p c := by simp [h.roleChildren, h.roleParent]
  userEdges u r := by simp [h.userRole, h.roleUser]
  roles_of_edge p c hpc := absurd hpc (h.roleChildren p c)
  exists_of_userRole u r hur := by simp [h.userRole] at hur
  roleNames name id := by simp [h.roleByName, h.roles]
  userNames name id := by simp [h.userByName, h.users]

/-- What `bootstrap_security` establishes on a store without users and roles. -/
theorem bootstrapSecurity_spec {pq : Parquet} {st0 st1 : Store} (hempty : NoSecurity st0)
    (hboot : Ends (MetaStep pq) st0 bootstrapSecurity () st1) :
    RbacGraph st1 ∧ st1.catalog.roles publicRoleId ≠ none ∧ ∀ u, HoldsPublic u st1 := by
  have hstart : RbacGraph st0 ∧ RolesExist [] st0 ∧ ∀ u, HoldsPublic u st0 :=
    ⟨hempty.rbacGraph, by simp [RolesExist], fun u hu => absurd (hempty.users u) hu⟩
  have hfollows : Grows [] (fun s _ => publicRoleId ∈ s) bootstrapSecurity :=
    grows_bootstrapSecurity
  obtain ⟨s, ⟨-, hpublic⟩, hg, hs, hpub⟩ := hboot.follows
    (J := fun s st => RbacGraph st ∧ RolesExist s st ∧ ∀ u, HoldsPublic u st) hfollows hstart (by
      rintro s st o r st' ⟨hg, hs, hpub⟩ ⟨hmay, hgrow⟩ hstep
      refine ⟨hg.step hs hmay hstep, hs.record hmay hstep, fun u => ?_⟩
      exact (hpub u).step hmay hstep (revokesPublic_eq_false hgrow))
  exact ⟨hg, hs _ hpublic, hpub⟩

/-- **Integrity of the role graph.**  In every interleaving of calls that create users and roles
and grant and revoke roles, starting from a bootstrapped store: inheritance is acyclic, the two
directions of every edge are stored together, edges end in existing users and roles, the name
indexes are bijections onto the records, and every user holds `PUBLIC` until it is revoked. -/
theorem role_graph_integrity {pq : Parquet} {ι : Type} [DecidableEq ι] {st₀ st₁ : Store}
    (hempty : NoSecurity st₀) (hboot : Exec (MetaStep pq) st₀ bootstrapSecurity.run (.ok ()) st₁)
    (calls : ι → RoleCall) {h : History ι MetaOp MetaOp.Res}
    {c : Config ι MetaOp MetaOp.Res Store fun _ => Except NovaError Unit}
    (hr : Run (MetaStep pq) (roleConfig st₁ calls) h c) :
    RbacGraph c.world ∧
    (∀ u, c.world.users u ≠ none → (∀ x ∈ h, revokesPublic u x.2 = false) →
      c.world.userRole u publicRoleId = true) ∧
    ∀ h₁ h₂ c₁, Run (MetaStep pq) (roleConfig st₁ calls) h₁ c₁ → Run (MetaStep pq) c₁ h₂ c →
      ∀ u, c₁.world.users u = none ∨ c₁.world.userRole u publicRoleId = true →
        (∀ x ∈ h₂, revokesPublic u x.2 = false) → c.world.users u ≠ none →
          c.world.userRole u publicRoleId = true := by
  obtain ⟨hg, hpublic, hpub⟩ := bootstrapSecurity_spec hempty hboot
  refine ⟨run_rbacGraph hg hpublic hr, fun u hu hno => ?_, fun h₁ h₂ c₁ hr1 hr2 u hstart hno => ?_⟩
  · exact run_holdsPublic .nil hr (hpub u) hno hu
  · refine run_holdsPublic hr1 hr2 (fun hu => ?_) hno
    exact hstart.resolve_left hu

/-- Two calls that would let `ACCOUNTADMIN` and `PUBLIC` inherit each other. -/
def mutualGrant (i : Bool) : RoleCall :=
  if i then .grantRoleToRole accountadminRoleId publicRoleId accountadminRoleId
  else .grantRoleToRole publicRoleId accountadminRoleId accountadminRoleId

/-- The store that `bootstrap_security` makes of the empty one. -/
def bootstrapped : Store :=
  ((bootstrapSecurity.run.runAlone (MetaOp.apply .verbatim) emptyStore
    (List.replicate 40 {})).map Prod.snd).getD emptyStore

theorem emptyStore_noSecurity : NoSecurity emptyStore := by
  refine ⟨?_, ?_, ?_, ?_, ?_, ?_, ?_, ?_⟩ <;> simp [emptyStore, emptyCatalog, RoleChild]

theorem exec_bootstrapped :
    Ends (MetaStep .verbatim) emptyStore bootstrapSecurity () bootstrapped := by
  have hrun : ((bootstrapSecurity.run.runAlone (MetaOp.apply .verbatim) emptyStore
      (replicate 40 {})).map fun y => y.1) = some (.ok ()) := by
    decide +kernel
  obtain ⟨⟨r, st'⟩, hsome, rfl⟩ := Option.map_eq_some_iff.1 hrun
  have hst : bootstrapped = st' := by
    unfold bootstrapped
    rw [hsome]
    rfl
  rw [hst]
  exact exec_of_runAlone hsome

theorem role_graph_integrity_mutualGrant : ∃ h c,
    Run (MetaStep .verbatim) (roleConfig bootstrapped mutualGrant) h c ∧ RbacGraph c.world ∧
      c.world.catalog.roleChildren accountadminRoleId = (∅ : OMap Unit).insert publicRoleId () ∧
      c.world.catalog.roleChildren publicRoleId = ∅ := by
  have hs : ((roleConfig bootstrapped mutualGrant).schedule (MetaOp.apply .verbatim)
      [(true, {}), (false, {})]).any (fun y =>
        y.2.world.catalog.roleChildren accountadminRoleId = (∅ : OMap Unit).insert publicRoleId ()
          ∧ y.2.world.catalog.roleChildren publicRoleId = ∅) = true := by
    decide +kernel
  obtain ⟨h, c, hr, hc⟩ := exists_run_of_schedule hs
  have hintegrity := role_graph_integrity emptyStore_noSecurity exec_bootstrapped mutualGrant hr
  exact ⟨h, c, hr, hintegrity.1, of_decide_eq_true hc⟩

end NovaCore
