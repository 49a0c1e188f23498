import NovaCore.Data.Bfs
import NovaCore.Data.Except
import NovaCore.Storage.World

/-!
# The metadata store

`Store` adds to the shared state the key families that only metadata calls use: users, the name
indexes, the reverse indexes of role edges and grants, the security epoch, the identifier counters
and the functions.  Each function below is the body of one FoundationDB transaction, as a function
of the whole state; one that fails changes nothing.

An index that is only looked up by key is a Boolean function; the values of the edge keys (who
granted the role, and when) are read by nothing and left out.

## Main definitions

* `Store.grantRoleToRole` : `atomic_grant_role_to_role`, with the search for a cycle.
* `Store.grantPrivileges`, `Store.revokePrivileges` : the two sides of the grant index.
* `Store.clearFunction` : the batch that ends `drop_function`.
-/

namespace NovaCore

abbrev FunctionId := ℕ

/-- User metadata. -/
structure UserMeta where
  id : UserId
  name : String
  defaultRoleId : RoleId
  /-- `SHA1(SHA1(password))`, empty if there is none. -/
  mysqlNativeHash : List UInt8 := []
  disabled : Bool := false
  deriving DecidableEq

/-- Function metadata; `signature` is the key text of the argument types. -/
structure FunctionMeta where
  id : FunctionId
  dbId : DatabaseId
  schemaId : SchemaId
  name : String
  signature : String
  deriving DecidableEq

/-- Where a cloned table came from. -/
structure CloneMeta where
  cloneTableId : TableId
  sourceTableId : TableId
  cloneTs : Timestamp
  deriving DecidableEq

/-- The counters `("next_id", name)`. -/
inductive IdCounter
  | user
  | role
  | database
  | table
  | stream
  | function
  deriving DecidableEq

/-- Update a function of two arguments at one point. -/
def update₂ {α β γ : Type} [DecidableEq α] [DecidableEq β] (f : α → β → γ) (a : α) (b : β)
    (c : γ) : α → β → γ :=
  Function.update f a (Function.update (f a) b c)

theorem update₂_apply {α β γ : Type} [DecidableEq α] [DecidableEq β] {f : α → β → γ} {a : α}
    {b : β} {c : γ} {a' : α} {b' : β} :
    update₂ f a b c a' b' = if a' = a ∧ b' = b then c else f a' b' := by
  unfold update₂
  by_cases ha : a' = a
  · subst ha
    by_cases hb : b' = b
    · subst hb
      simp
    · simp [hb]
  · simp [ha]

/-- Update a function of three arguments at one point. -/
def update₃ {α β γ δ : Type} [DecidableEq α] [DecidableEq β] [DecidableEq γ] (f : α → β → γ → δ)
    (k : α × β × γ) (d : δ) : α → β → γ → δ :=
  fun a b c => if (a, b, c) = k then d else f a b c

theorem update₃_eq {α β γ δ : Type} [DecidableEq α] [DecidableEq β] [DecidableEq γ]
    (f : α → β → γ → δ) (a : α) (b : β) (c : γ) (d : δ) :
    Function.update f a (update₂ (f a) b c d) = update₃ f (a, b, c) d := by
  funext a' b' c'
  by_cases ha : a' = a
  · subst ha
    simp [update₃, update₂_apply]
  · simp [update₃, ha]

/-- The name and signature that index a function. -/
def FunctionMeta.nameKey (f : FunctionMeta) : String × String :=
  (Catalog.normalizeIdent f.name, f.signature)

/-- The shared state with the key families of the metadata calls. -/
structure Store extends World where
  /-- `("user", id)` -/
  users : UserId → Option UserMeta
  /-- `("user_by_name", name)` -/
  userByName : String → Option UserId
  /-- `("role_by_name", name)` -/
  roleByName : String → Option RoleId
  /-- `("user_role", user, role)` -/
  userRole : UserId → RoleId → Bool
  /-- `("role_user", role, user)` -/
  roleUser : RoleId → UserId → Bool
  /-- `("role_parent", child, parent)` -/
  roleParent : RoleId → RoleId → Bool
  /-- `("grant_by_object", type, id, role)`: the privilege bits -/
  grantByObject : ObjectRef → OMap ℕ
  /-- `("security_epoch")` -/
  securityEpoch : ℕ
  /-- `("next_id", name)` -/
  nextId : IdCounter → ℕ
  /-- `("function", db_id, schema_id, id)` -/
  functions : DatabaseId → SchemaId → FunctionId → Option FunctionMeta
  /-- `("function_by_name", db_id, schema_id, name, signature)` -/
  functionByName : DatabaseId → SchemaId → String × String → Option FunctionId
  /-- `("function_by_id", id)` -/
  functionById : FunctionId → Option (DatabaseId × SchemaId × FunctionId)
  /-- `("clone", table)` -/
  clones : TableId → Option CloneMeta
  /-- `("streams_by_table", table, stream)` -/
  streamsByTable : TableId → StreamId → Bool

/-- `PrivilegeSet::empty`. -/
def PrivilegeSet.empty : PrivilegeSet := ⟨0⟩

/-- `self.bits |= other.bits`. -/
def PrivilegeSet.union (s t : PrivilegeSet) : PrivilegeSet := ⟨s.bits ||| t.bits⟩

/-- `self.bits &= !other.bits`. -/
def PrivilegeSet.diff (s t : PrivilegeSet) : PrivilegeSet := ⟨s.bits ^^^ (s.bits &&& t.bits)⟩

/-- What is left of a grant when `privileges` are revoked. -/
def GrantSetMeta.without (grant : GrantSetMeta) (privileges : PrivilegeSet) : GrantSetMeta :=
  { grant with
    privileges := grant.privileges.diff privileges
    grantOptions := grant.grantOptions.diff privileges }

namespace Store

variable (st : Store)

/-- The counter increment of `fdb_write_batch` and the `atomic_*` transactions. -/
def bumpEpoch : Except NovaError Store := do
  let next ← checkedAdd st.securityEpoch 1
  return { st with securityEpoch := next }

/-- The store with the next epoch. -/
def bumped : Store := { st with securityEpoch := st.securityEpoch + 1 }

/-- `fdb_atomic_inc` on an identifier counter. -/
def takeNextId (counter : IdCounter) : Except NovaError (ℕ × Store) := do
  let next ← checkedAdd (st.nextId counter) 1
  return (next, { st with nextId := Function.update st.nextId counter next })

/-- The failure of `fdb_checked_write_batch` when a key is present. -/
def preconditionFailed : NovaError :=
  .internal "FDB checked write batch failed: FDB checked write precondition failed"

/-! ### Users and roles -/

variable (u : UserId)

/-- The user holds the role: both index entries. -/
def setUserRole (r : RoleId) (held : Bool) : Store :=
  { st with
    userRole := update₂ st.userRole u r held
    roleUser := update₂ st.roleUser r u held }

/-- The keys `create_user` sets: the user, its name, and its roles. -/
def addUser (user : UserMeta) (name : String) : Store :=
  let st := { st with
    users := Function.update st.users user.id (some user)
    userByName := Function.update st.userByName name (some user.id) }
  let st := st.setUserRole user.id publicRoleId true
  if user.defaultRoleId ≠ publicRoleId then st.setUserRole user.id user.defaultRoleId true
  else st

/-- The checked write of `create_user`. -/
def createUser (user : UserMeta) (name : String) : Except NovaError Store :=
  if st.users user.id ≠ none ∨ st.userByName name ≠ none then .error preconditionFailed
  else (st.addUser user name).bumpEpoch

/-- The keys `create_role` sets: the role, its name, and its owner. -/
def addRole (role : RoleMeta) (name : String) : Store :=
  { st with
    catalog := { st.catalog with
      roles := Function.update st.catalog.roles role.id (some role)
      owners := Function.update st.catalog.owners ⟨.role, role.id⟩
        (some ⟨⟨.role, role.id⟩, role.ownerRoleId, role.createdByUserId⟩) }
    roleByName := Function.update st.roleByName name (some role.id) }

/-- The checked write of `create_role`. -/
def createRole (role : RoleMeta) (name : String) : Except NovaError Store :=
  if st.catalog.roles role.id ≠ none ∨ st.roleByName name ≠ none then .error preconditionFailed
  else (st.addRole role name).bumpEpoch

/-- `atomic_grant_role_to_user`. -/
def grantRoleToUser (r grantedBy : RoleId) : Except NovaError Store :=
  if st.users u = none ∨ st.catalog.roles r = none ∨ st.catalog.roles grantedBy = none then
    .error (.internal "FDB atomic role grant failed: role grant precondition failed")
  else if st.userRole u r then .ok st
  else (st.setUserRole u r true).bumpEpoch

/-- `atomic_revoke_role_from_user`. -/
def revokeRoleFromUser (r : RoleId) : Except NovaError Store :=
  if st.userRole u r then (st.setUserRole u r false).bumpEpoch else .ok st

/-! ### Role inheritance -/

/-- A failure inside `atomic_grant_role_to_role`. -/
def roleGrantFailed (reason : String) : NovaError :=
  .internal ("FDB atomic role-to-role grant failed: " ++ reason)

/-- The roles that the cycle search of `atomic_grant_role_to_role` queues behind a role.  This
scan computes its end key with carry, so it returns the children of every role. -/
def grantSearchNext (parent r : RoleId) : Except NovaError (List RoleId) :=
  if r = parent then .error (roleGrantFailed "role inheritance cycle detected")
  else (st.catalog.roleChildren r).keys.mapM fun child =>
    if st.catalog.roles child = none then .error (roleGrantFailed "role child not found")
    else .ok child

variable (parent child : RoleId)

/-- The parent inherits the child: both index entries. -/
def setRoleChild : Store :=
  { st with
    catalog := { st.catalog with
      roleChildren := Function.update st.catalog.roleChildren parent
        ((st.catalog.roleChildren parent).insert child ()) }
    roleParent := update₂ st.roleParent child parent true }

/-- Remove an inheritance edge: both index entries. -/
def clearRoleChild : Store :=
  { st with
    catalog := { st.catalog with
      roleChildren := Function.update st.catalog.roleChildren parent
        ((st.catalog.roleChildren parent).erase child) }
    roleParent := update₂ st.roleParent child parent false }

/-- `atomic_grant_role_to_role`; an edge that is there already is written again. -/
def grantRoleToRole (parent child grantedBy : RoleId) : Except NovaError Store :=
  if st.catalog.roles parent = none ∨ st.catalog.roles child = none ∨
      st.catalog.roles grantedBy = none then
    .error (roleGrantFailed "role not found")
  else do
    let _ ← Bfs.search (st.grantSearchNext parent)
      (roleGrantFailed "role inheritance depth limit exceeded") 65 [] [child]
    (st.setRoleChild parent child).bumpEpoch

/-- `atomic_revoke_role_from_role`. -/
def revokeRoleFromRole : Except NovaError Store :=
  if st.catalog.roles parent = none ∨ st.catalog.roles child = none then
    .error (.internal "FDB atomic role-to-role revoke failed: role not found")
  else if child ∈ st.catalog.roleChildren parent then (st.clearRoleChild parent child).bumpEpoch
  else .ok st

/-! ### Owners and grants -/

/-- The write of `set_object_owner`. -/
def setObjectOwner (owner : ObjectOwnerMeta) : Except NovaError Store :=
  bumpEpoch { st with
    catalog := { st.catalog with
      owners := Function.update st.catalog.owners owner.object (some owner) } }

/-- Store a grant: the record and its reverse entry. -/
def setGrant (r : RoleId) (object : ObjectRef) (grant : GrantSetMeta) : Store :=
  { st with
    catalog := { st.catalog with grants := update₂ st.catalog.grants r object (some grant) }
    grantByObject := Function.update st.grantByObject object
      ((st.grantByObject object).insert r grant.privileges.bits) }

/-- Clear a grant: the record and its reverse entry. -/
def clearGrant (r : RoleId) (object : ObjectRef) : Store :=
  { st with
    catalog := { st.catalog with grants := update₂ st.catalog.grants r object none }
    grantByObject := Function.update st.grantByObject object ((st.grantByObject object).erase r) }

variable (grant : GrantSetMeta)

/-- The grant that `atomic_grant_privileges` starts from. -/
def oldGrant : GrantSetMeta :=
  (st.catalog.grants grant.roleId grant.object).getD
    { grant with privileges := .empty, grantOptions := .empty }

/-- The grant that `atomic_grant_privileges` stores. -/
def mergedGrant : GrantSetMeta :=
  { st.oldGrant grant with
    privileges := (st.oldGrant grant).privileges.union grant.privileges
    grantOptions := (st.oldGrant grant).grantOptions.union grant.grantOptions
    grantedByRoleId := grant.grantedByRoleId }

/-- `atomic_grant_privileges`. -/
def grantPrivileges : Except NovaError Store :=
  if (st.mergedGrant grant).privileges = (st.oldGrant grant).privileges ∧
      (st.mergedGrant grant).grantOptions = (st.oldGrant grant).grantOptions then .ok st
  else (st.setGrant grant.roleId grant.object (st.mergedGrant grant)).bumpEpoch

/-- `atomic_revoke_privileges`. -/
def revokePrivileges (r : RoleId) (object : ObjectRef) (privileges : PrivilegeSet) :
    Except NovaError Store :=
  match st.catalog.grants r object with
  | none => .ok st
  | some grant =>
    if (grant.without privileges).privileges = grant.privileges ∧
        (grant.without privileges).grantOptions = grant.grantOptions then .ok st
    else if (grant.without privileges).privileges = .empty then (st.clearGrant r object).bumpEpoch
    else (st.setGrant r object (grant.without privileges)).bumpEpoch

/-- The three keys of a function. -/
def setFunction (f : FunctionMeta) : Store :=
  { st with
    functions := update₃ st.functions (f.dbId, f.schemaId, f.id) (some f)
    functionByName := update₃ st.functionByName (f.dbId, f.schemaId, f.nameKey) (some f.id)
    functionById := Function.update st.functionById f.id (some (f.dbId, f.schemaId, f.id)) }

/-- The checked write of `create_function`. -/
def createFunction (f : FunctionMeta) : Except NovaError Store :=
  if st.functions f.dbId f.schemaId f.id ≠ none ∨
      st.functionByName f.dbId f.schemaId f.nameKey ≠ none ∨ st.functionById f.id ≠ none then
    .error preconditionFailed
  else .ok (st.setFunction f)

/-- The batch of `replace_function`: the keys of the new record, without those of the old one that
differ. -/
def replaceFunction (old f : FunctionMeta) : Store :=
  let new := st.setFunction f
  { new with
    functions := if (old.dbId, old.schemaId, old.id) = (f.dbId, f.schemaId, f.id) then new.functions
      else update₃ new.functions (old.dbId, old.schemaId, old.id) none
    functionByName :=
      if (old.dbId, old.schemaId, old.nameKey) = (f.dbId, f.schemaId, f.nameKey) then
        new.functionByName
      else update₃ new.functionByName (old.dbId, old.schemaId, old.nameKey) none }

/-- Clear the keys of a function and its owner. -/
def clearFunctionKeys (function : FunctionMeta) (functionId : FunctionId) : Store :=
  { st with
    functions := Function.update st.functions function.dbId
      (update₂ (st.functions function.dbId) function.schemaId function.id none)
    functionByName := Function.update st.functionByName function.dbId
      (update₂ (st.functionByName function.dbId) function.schemaId
        (Catalog.normalizeIdent function.name, function.signature) none)
    functionById := Function.update st.functionById functionId none
    catalog := { st.catalog with
      owners := Function.update st.catalog.owners ⟨.function, functionId⟩ none } }

/-- Clear the grants on an object to some roles. -/
def clearGrants (object : ObjectRef) (grantees : List RoleId) : Store :=
  grantees.foldl (fun st r => st.clearGrant r object) st

/-- The batch that ends `drop_function`: the function's keys, its owner, and the grants to the
roles that an earlier scan returned. -/
def clearFunction (function : FunctionMeta) (functionId : FunctionId) (grantees : List RoleId) :
    Except NovaError Store :=
  ((st.clearFunctionKeys function functionId).clearGrants ⟨.function, functionId⟩
    grantees).bumpEpoch

/-- `bump_security_epoch`. -/
def bumpSecurityEpoch : Except NovaError (ℕ × Store) := do
  let next ← st.bumpEpoch
  return (next.securityEpoch, next)

/-! ### What the transactions do -/

variable {st} {st' : Store}

theorem bumpEpoch_eq_ok (h : st.bumpEpoch = .ok st') : st' = st.bumped := by
  obtain ⟨next, hn, h⟩ := except_bind_eq_ok.1 h
  cases h
  rw [(checkedAdd_eq_ok.1 hn).2]
  rfl

theorem takeNextId_eq_ok {counter : IdCounter} {n : ℕ} (h : st.takeNextId counter = .ok (n, st')) :
    n = st.nextId counter + 1 ∧
      st' = { st with nextId := Function.update st.nextId counter n } := by
  obtain ⟨next, hn, h⟩ := except_bind_eq_ok.1 h
  cases h
  exact ⟨(checkedAdd_eq_ok.1 hn).2, rfl⟩

theorem createUser_eq_ok {user : UserMeta} {name : String} (h : st.createUser user name = .ok st') :
    st.users user.id = none ∧ st.userByName name = none ∧ st' = (st.addUser user name).bumped := by
  unfold createUser at h
  split_ifs at h with hp
  push Not at hp
  exact ⟨hp.1, hp.2, bumpEpoch_eq_ok h⟩

theorem createRole_eq_ok {role : RoleMeta} {name : String} (h : st.createRole role name = .ok st') :
    st.catalog.roles role.id = none ∧ st.roleByName name = none ∧
      st' = (st.addRole role name).bumped := by
  unfold createRole at h
  split_ifs at h with hp
  push Not at hp
  exact ⟨hp.1, hp.2, bumpEpoch_eq_ok h⟩

theorem createFunction_eq_ok {f : FunctionMeta} (h : st.createFunction f = .ok st') :
    st.functionByName f.dbId f.schemaId f.nameKey = none ∧ st.functionById f.id = none ∧
      st' = st.setFunction f := by
  unfold createFunction at h
  split_ifs at h with hp
  push Not at hp
  cases h
  exact ⟨hp.2.1, hp.2.2, rfl⟩

theorem grantRoleToUser_eq_ok {u : UserId} {r g : RoleId} (h : st.grantRoleToUser u r g = .ok st') :
    st.users u ≠ none ∧ st.catalog.roles r ≠ none ∧ (st.userRole u r = true ∧ st' = st ∨
        st.userRole u r = false ∧ st' = (st.setUserRole u r true).bumped) := by
  unfold grantRoleToUser at h
  split_ifs at h with hp hheld
  · push Not at hp
    cases h
    exact ⟨hp.1, hp.2.1, .inl ⟨hheld, rfl⟩⟩
  · push Not at hp
    exact ⟨hp.1, hp.2.1, .inr ⟨by simpa using hheld, bumpEpoch_eq_ok h⟩⟩

theorem revokeRoleFromUser_eq_ok {u : UserId} {r : RoleId}
    (h : st.revokeRoleFromUser u r = .ok st') :
    st.userRole u r = false ∧ st' = st ∨
      st.userRole u r = true ∧ st' = (st.setUserRole u r false).bumped := by
  unfold revokeRoleFromUser at h
  split_ifs at h with hheld
  · exact .inr ⟨hheld, bumpEpoch_eq_ok h⟩
  · cases h
    exact .inl ⟨by simpa using hheld, rfl⟩

theorem grantRoleToRole_eq_ok {parent child g : RoleId}
    (h : st.grantRoleToRole parent child g = .ok st') :
    st.catalog.roles parent ≠ none ∧ st.catalog.roles child ≠ none ∧
      (∃ found, Bfs.search (st.grantSearchNext parent)
        (roleGrantFailed "role inheritance depth limit exceeded") 65 [] [child] = .ok found) ∧
      st' = (st.setRoleChild parent child).bumped := by
  unfold grantRoleToRole at h
  split_ifs at h with hp
  push Not at hp
  obtain ⟨found, hf, h⟩ := except_bind_eq_ok.1 h
  exact ⟨hp.1, hp.2.1, ⟨found, hf⟩, bumpEpoch_eq_ok h⟩

theorem revokeRoleFromRole_eq_ok {parent child : RoleId}
    (h : st.revokeRoleFromRole parent child = .ok st') :
    child ∉ st.catalog.roleChildren parent ∧ st' = st ∨
      child ∈ st.catalog.roleChildren parent ∧ st' = (st.clearRoleChild parent child).bumped := by
  unfold revokeRoleFromRole at h
  split_ifs at h with hp hedge
  · exact .inr ⟨hedge, bumpEpoch_eq_ok h⟩
  · cases h
    exact .inl ⟨hedge, rfl⟩

theorem grantPrivileges_eq_ok {grant : GrantSetMeta} (h : st.grantPrivileges grant = .ok st') :
    ((st.mergedGrant grant).privileges = (st.oldGrant grant).privileges ∧
      (st.mergedGrant grant).grantOptions = (st.oldGrant grant).grantOptions) ∧ st' = st ∨
    ¬((st.mergedGrant grant).privileges = (st.oldGrant grant).privileges ∧
      (st.mergedGrant grant).grantOptions = (st.oldGrant grant).grantOptions) ∧
      st' = (st.setGrant grant.roleId grant.object (st.mergedGrant grant)).bumped := by
  unfold grantPrivileges at h
  split_ifs at h with hsame
  · cases h
    exact .inl ⟨hsame, rfl⟩
  · exact .inr ⟨hsame, bumpEpoch_eq_ok h⟩

theorem revokePrivileges_eq_ok {r : RoleId} {object : ObjectRef} {privileges : PrivilegeSet}
    (h : st.revokePrivileges r object privileges = .ok st') :
    st' = st ∨ ∃ grant, st.catalog.grants r object = some grant ∧
      ¬((grant.without privileges).privileges = grant.privileges ∧
        (grant.without privileges).grantOptions = grant.grantOptions) ∧
      ((grant.without privileges).privileges = .empty ∧ st' = (st.clearGrant r object).bumped ∨
        (grant.without privileges).privileges ≠ .empty ∧
          st' = (st.setGrant r object (grant.without privileges)).bumped) := by
  unfold revokePrivileges at h
  split at h
  · cases h
    exact .inl rfl
  · next grant hg =>
    split_ifs at h with hsame hempty
    · cases h
      exact .inl rfl
    · exact .inr ⟨grant, hg, hsame, .inl ⟨hempty, bumpEpoch_eq_ok h⟩⟩
    · exact .inr ⟨grant, hg, hsame, .inr ⟨hempty, bumpEpoch_eq_ok h⟩⟩

theorem clearGrant_reverse {r r' : RoleId} {object object' : ObjectRef} :
    ((st.clearGrant r object).grantByObject object')[r']? =
      if r' = r ∧ object' = object then none else (st.grantByObject object')[r']? := by
  by_cases ho : object' = object
  · subst ho
    by_cases hr : r' = r
    · simp [clearGrant, hr]
    · simp [clearGrant, hr, Std.ExtTreeMap.getElem?_erase, Ne.symm hr]
  · simp [clearGrant, ho]

/-- Clearing grants touches only the two tables of grants, at the object and the grantees. -/
theorem clearGrants_eq (st : Store) (object : ObjectRef) (grantees : List RoleId) : ∃ byObject,
    (∀ o r, (byObject o)[r]? =
      if o = object ∧ r ∈ grantees then none else (st.grantByObject o)[r]?) ∧
    st.clearGrants object grantees = { st with
      grantByObject := byObject
      catalog := { st.catalog with grants := fun r o =>
        if o = object ∧ r ∈ grantees then none else st.catalog.grants r o } } := by
  induction grantees generalizing st with
  | nil => exact ⟨st.grantByObject, by simp, by simp [clearGrants]⟩
  | cons g grantees ih =>
    obtain ⟨byObject, hreverse, hclear⟩ := ih (st.clearGrant g object)
    refine ⟨byObject, fun o r => ?_, hclear.trans ?_⟩
    · rw [hreverse, clearGrant_reverse]
      grind
    · simp only [clearGrant, update₂_apply]
      congr 3
      funext r o
      grind

theorem bumpSecurityEpoch_eq_ok {n : ℕ} (h : st.bumpSecurityEpoch = .ok (n, st')) :
    st' = st.bumped := by
  obtain ⟨next, hn, h⟩ := except_bind_eq_ok.1 h
  cases h
  exact bumpEpoch_eq_ok hn

end Store

/-! ### A concrete store -/

/-- A catalogue with nothing in it. -/
def emptyCatalog : Catalog where
  databases := ∅
  schemas := fun _ => ∅
  tables := fun _ _ => ∅
  streams := fun _ => none
  streamByName := fun _ _ _ => none
  dynamicTables := ∅
  roles := fun _ => none
  roleChildren := fun _ => ∅
  owners := fun _ => none
  grants := fun _ _ => none

/-- A store with nothing in it. -/
def emptyStore : Store where
  catalog := emptyCatalog
  mps := fun _ => none
  tableMps := fun _ => ∅
  tableVersion := fun _ => 0
  nextTxn := 0
  txns := fun _ => none
  changeNextSeq := fun _ => none
  changeSeq := fun _ => none
  changeLog := fun _ _ => none
  streamOffsets := fun _ => none
  files := fun _ => none
  payloads := fun _ => none
  issued := []
  users := fun _ => none
  userByName := fun _ => none
  roleByName := fun _ => none
  userRole := fun _ _ => false
  roleUser := fun _ _ => false
  roleParent := fun _ _ => false
  grantByObject := fun _ => ∅
  securityEpoch := 0
  nextId := fun _ => 0
  functions := fun _ _ _ => none
  functionByName := fun _ _ _ => none
  functionById := fun _ => none
  clones := fun _ => none
  streamsByTable := fun _ _ => false

end NovaCore
