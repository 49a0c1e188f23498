import NovaCore.Executor.Objects
import NovaCore.Metadata.Alone

/-!
# Lookups, privilege checks and the primary role

The calls that a statement makes before and after it stores an object: lookups by name, privilege
checks, `require_primary_role_exists`, which may bootstrap the security metadata, and
`set_primary_role_owner`, which ends with a write of one owner.  None of them touches a database, a
schema, a table, a stream or a micro-partition.

## Main definitions

* `SecurityMay` : the operations of these calls.
* `SameObjects` : everything but users, roles and owners is as it was.

## Main results

* `sameObjects_of_exec` : what these calls leave alone when they run alone.
* `exec_findTable_iff`, `exec_findDatabase_iff`, `exec_findSchemaMeta_iff` : the lookups.
-/

namespace NovaCore

open Prog Store Function

/-- What lookups, checks and the calls about the primary role may do; `A` says of which objects they
may set the owner. -/
def SecurityMay (A : ObjectRef → Prop) : MetaOp → Prop
  | .query _ => True
  | .storage .listDatabases => True
  | .storage (.listSchemas _) => True
  | .storage (.findTable ..) => True
  | .txn (.takeNextId counter) => counter = .user ∨ counter = .role
  | .txn (.createUser ..) => True
  | .txn (.createRole ..) => True
  | .txn (.grantRoleToUser ..) => True
  | .txn (.setObjectOwner owner) => A owner.object
  | _ => False

/-- Only users, roles, owners, their counters and the epoch may differ. -/
structure SameObjects (st st' : Store) : Prop where
  world : st'.toWorld = { st.toWorld with
    catalog := { st.catalog with roles := st'.catalog.roles, owners := st'.catalog.owners } }
  nextId : ∀ counter, counter ≠ .user → counter ≠ .role → st'.nextId counter = st.nextId counter

namespace SameObjects

variable {st st1 st2 : Store}

theorem refl (st : Store) : SameObjects st st := ⟨rfl, fun _ _ _ => rfl⟩

theorem trans (h1 : SameObjects st st1) (h2 : SameObjects st1 st2) : SameObjects st st2 where
  world := by rw [h2.world, h1.world]
  nextId counter hu hr := (h2.nextId counter hu hr).trans (h1.nextId counter hu hr)

section

variable (h : SameObjects st st1)
include h

theorem mps : st1.mps = st.mps := by rw [h.world]

theorem tableMps : st1.tableMps = st.tableMps := by rw [h.world]

theorem issued : st1.issued = st.issued := by rw [h.world]

theorem findTable (db schema table : String) :
    st1.catalog.findTable db schema table = st.catalog.findTable db schema table := by
  rw [h.world]
  rfl

theorem addTable (table : TableMeta) : SameObjects (st.addTable table) (st1.addTable table) where
  world := by
    have hnext := h.nextId .table (by decide) (by decide)
    unfold Store.addTable
    rw [hnext, h.world]
  nextId counter hu hr := by
    simp only [Store.addTable, h.nextId .table (by decide) (by decide), update_apply,
      h.nextId counter hu hr]

end

end SameObjects

variable {pq : Parquet} {st st' : Store} {A : ObjectRef → Prop}

theorem sameObjects_of_step {o : MetaOp} {r : o.Res} (hmay : SecurityMay A o)
    (hs : MetaStep pq st o r st') : SameObjects st st' := by
  cases metaStep_effect hs with
  | query _ | failed => exact .refl st
  | @storage o r w' hst =>
    have hquiet : w' = st.toWorld := by
      cases o with
      | listDatabases | listSchemas | findTable =>
        cases step_effect hst
        rfl
      | _ => exact hmay.elim
    subst hquiet
    exact .refl st
  | @txn t a _ hrun =>
    cases t with
    | takeNextId counter =>
      obtain ⟨-, rfl⟩ := takeNextId_eq_ok hrun
      refine ⟨rfl, fun c hu hr => update_of_ne ?_ _ _⟩
      rcases hmay with rfl | rfl
      · exact hu
      · exact hr
    | createUser user name =>
      obtain ⟨-, -, rfl⟩ := createUser_eq_ok (map_unit_eq_ok.1 hrun)
      unfold addUser
      split_ifs <;> exact ⟨rfl, fun _ _ _ => rfl⟩
    | createRole role name =>
      obtain ⟨-, -, rfl⟩ := createRole_eq_ok (map_unit_eq_ok.1 hrun)
      exact ⟨rfl, fun _ _ _ => rfl⟩
    | grantRoleToUser u r g =>
      obtain ⟨-, -, ⟨-, rfl⟩ | ⟨-, rfl⟩⟩ := grantRoleToUser_eq_ok (map_unit_eq_ok.1 hrun)
      · exact .refl _
      · exact ⟨rfl, fun _ _ _ => rfl⟩
    | setObjectOwner owner =>
      obtain rfl := bumpEpoch_eq_ok (map_unit_eq_ok.1 hrun)
      exact ⟨rfl, fun _ _ _ => rfl⟩
    | _ => exact hmay.elim

/-! ### What the calls issue -/

theorem issues_ask {q : MetaQuery} : Issues (SecurityMay A) (ask q).run := issuesE_call trivial

theorem issues_transact {t : MetaTxn} (h : SecurityMay A (.txn t)) :
    Issues (SecurityMay A) (transact t).run := issuesE_call h

theorem getRoleByName_issues (name : String) : Issues (SecurityMay A) (getRoleByName name).run := by
  refine issuesE_bind issues_ask fun a => ?_
  cases a with
  | none => exact issuesE_pure
  | some id => exact issues_ask

theorem getUserByName_issues (name : String) : Issues (SecurityMay A) (getUserByName name).run := by
  refine issuesE_bind issues_ask fun a => ?_
  cases a with
  | none => exact issuesE_pure
  | some id => exact issues_ask

theorem securityNextId_issues {counter : IdCounter} (h : counter = .user ∨ counter = .role)
    (floor : ℕ) : Issues (SecurityMay A) (securityNextId counter floor).run :=
  issuesE_bind (issues_transact h) fun _ => issuesE_bind issuesE_liftExcept fun _ => issuesE_pure

theorem newRoleId_issues (id : RoleId) : Issues (SecurityMay A) (newRoleId id).run := by
  unfold newRoleId
  split_ifs with hid
  · exact securityNextId_issues (.inr rfl) _
  · refine issuesE_bind issues_ask fun found => ?_
    split_ifs
    · exact issuesE_throw
    · exact issuesE_pure

theorem createRole_issues (role : RoleMeta) : Issues (SecurityMay A) (createRole role).run := by
  have hwrite : ∀ name, Issues (SecurityMay A) (do
      let id ← newRoleId role.id
      transact (.createRole { role with id } name)
      return id : Meta RoleId).run := fun name =>
    issuesE_bind (newRoleId_issues _) fun _ =>
      issuesE_bind (issues_transact trivial) fun _ => issuesE_pure
  refine issuesE_bind (getRoleByName_issues _) fun found => ?_
  dsimp only
  split_ifs with hfound hadmin hadmin
  · exact issuesE_throw
  · exact issuesE_throw
  · refine issuesE_bind issues_ask fun owner => ?_
    split_ifs
    · exact issuesE_throw
    · exact hwrite _
  · exact hwrite _

theorem newUserId_issues (id : UserId) : Issues (SecurityMay A) (newUserId id).run := by
  unfold newUserId
  split_ifs with hid
  · exact securityNextId_issues (.inl rfl) _
  · refine issuesE_bind issues_ask fun found => ?_
    split_ifs
    · exact issuesE_throw
    · exact issuesE_pure

theorem createUser_issues (user : UserMeta) : Issues (SecurityMay A) (createUser user).run := by
  refine issuesE_bind (getUserByName_issues _) fun found => ?_
  split_ifs
  · exact issuesE_throw
  refine issuesE_bind issues_ask fun role => ?_
  split_ifs
  · exact issuesE_throw
  refine issuesE_bind (newUserId_issues _) fun _ => ?_
  exact issuesE_bind (issues_transact trivial) fun _ => issuesE_pure

theorem setObjectOwner_issues {owner : ObjectOwnerMeta} (h : A owner.object) :
    Issues (SecurityMay A) (setObjectOwner owner).run := by
  refine issuesE_bind issues_ask fun role => ?_
  split_ifs
  · exact issuesE_throw
  · exact issues_transact h

theorem bootstrapSecurity_issues (h : A ⟨.account, accountObjectId⟩) :
    Issues (SecurityMay A) bootstrapSecurity.run := by
  have hrole : ∀ role, Issues (SecurityMay A) (ensureRole role).run := by
    intro role
    refine issuesE_bind issues_ask fun found => ?_
    split_ifs
    · exact issuesE_bind (createRole_issues role) fun _ => issuesE_pure
    · exact issuesE_pure
  have huser : ∀ user, Issues (SecurityMay A) (ensureUser user).run := by
    intro user
    refine issuesE_bind issues_ask fun found => ?_
    split_ifs
    · exact issuesE_bind (createUser_issues user) fun _ => issuesE_pure
    · exact issuesE_pure
  refine issuesE_bind (hrole _) fun _ => issuesE_bind (hrole _) fun _ => ?_
  refine issuesE_bind (huser _) fun _ => ?_
  refine issuesE_bind (issues_transact trivial) fun _ => ?_
  refine issuesE_bind (issues_transact trivial) fun _ => ?_
  refine issuesE_bind issues_ask fun found => ?_
  split_ifs
  · exact setObjectOwner_issues h
  · exact issuesE_pure

variable {object : ObjectRef} {privilege : SecurityPrivilege} {db schema table : String}
  {dbId : DatabaseId} {schemaId : SchemaId} {security : SecurityContext}

theorem requirePrimaryRoleExists_issues (h : A ⟨.account, accountObjectId⟩) :
    Issues (SecurityMay A) (requirePrimaryRoleExists security).run := by
  have hcheck : Issues (SecurityMay A) (do if (← ask (.getRole security.primaryRoleId)).isNone then
        throw (.permissionDenied security.username
          ("use missing role " ++ toString security.primaryRoleId)) : Meta Unit).run := by
    refine issuesE_bind issues_ask fun role => ?_
    split_ifs
    · exact issuesE_throw
    · exact issuesE_pure
  unfold requirePrimaryRoleExists
  split_ifs with hadmin
  · refine issuesE_bind issues_ask fun role => ?_
    split_ifs
    · exact issuesE_bind (bootstrapSecurity_issues h) fun _ => hcheck
    · exact hcheck
  · exact hcheck

theorem setPrimaryRoleOwner_issues (h : A ⟨.account, accountObjectId⟩) (ho : A object) :
    Issues (SecurityMay A) (setPrimaryRoleOwner security object).run :=
  issuesE_bind (requirePrimaryRoleExists_issues h) fun _ => setObjectOwner_issues ho

theorem issues_okOrNone {α : Type} {B : MetaOp → Prop} {p : Meta α} (hp : Issues B p.run) :
    Issues B (okOrNone p).run :=
  issues_bind hp fun _ => trivial

/-! ### Calls that run alone -/

/-- What these calls leave alone. -/
theorem sameObjects_of_exec {α : Type} {p : Meta α} {r : Except NovaError α}
    (hp : Issues (SecurityMay fun _ => True) p.run) (he : Exec (MetaStep pq) st p.run r st') :
    SameObjects st st' :=
  he.issues hp (.refl st) fun _ _ _ _ hst hmay hs =>
    hst.trans (sameObjects_of_step hmay hs)

theorem exec_findTable_iff {db table : String} {m : TableMeta} :
    Ends (MetaStep pq) st (findTable db schema table) m st' ↔
      st.catalog.findTable db schema table = .ok m ∧ st' = st := by
  refine exec_storage_iff.trans ⟨?_, ?_⟩
  · rintro ⟨w', he, rfl⟩
    obtain ⟨x, hx⟩ := step_ok (execE_call_iff.1 he)
    have hpair : (st.catalog.findTable db schema table, st.toWorld) = (.ok m, w') :=
      Option.some.inj hx
    exact ⟨congrArg Prod.fst hpair, congrArg (fun p => { st with toWorld := p.2 }) hpair.symm⟩
  · rintro ⟨h, rfl⟩
    refine ⟨_, execE_call_iff.2 ⟨{}, ?_⟩, rfl⟩
    change some (st'.catalog.findTable db schema table, st'.toWorld) = _
    rw [h]

theorem exec_findDatabase_iff {db : String} {d : DatabaseMeta} :
    Ends (MetaStep pq) st (findDatabase db) d st' ↔
      st.catalog.findDatabase db = .ok d ∧ st' = st := by
  unfold findDatabase Catalog.findDatabase
  simp only [execE_bind_iff, exec_storage_read_iff (o := .listDatabases) (fun _ => rfl), and_assoc,
    exists_and_left, exists_eq_left]
  cases st.catalog.listDatabases.find? (fun d => d.name = db) with
  | none => exact ⟨fun he => (execE_throw_false he).elim, fun h => by cases h.1⟩
  | some d' => rw [execE_pure_iff, Except.ok.injEq, eq_comm]

theorem exec_lookupSchema_iff {dbId : DatabaseId} {found : Option SchemaMeta} :
    Ends (MetaStep pq) st (lookupSchema dbId schema) found st' ↔
      found = (st.catalog.listSchemas dbId).find? (fun s => s.name = schema) ∧ st' = st := by
  unfold lookupSchema
  simp only [execE_bind_iff, exec_storage_read_iff (o := .listSchemas dbId) (fun _ => rfl),
    execE_pure_iff, and_assoc, exists_and_left, exists_eq_left]

theorem exec_findSchemaMeta_iff {dbId : DatabaseId} {s : SchemaMeta} :
    Ends (MetaStep pq) st (findSchemaMeta dbId schema) s st' ↔
      st.catalog.findSchemaMeta dbId schema = .ok s ∧ st' = st := by
  unfold findSchemaMeta Catalog.findSchemaMeta
  simp only [execE_bind_iff, exec_lookupSchema_iff, and_assoc, exists_and_left, exists_eq_left]
  cases (st.catalog.listSchemas dbId).find? (fun s => s.name = schema) with
  | none => exact ⟨fun he => (execE_throw_false he).elim, fun h => by cases h.1⟩
  | some s' => rw [execE_pure_iff, Except.ok.injEq, eq_comm]

theorem exec_requirePrivilege_iff {privilege : SecurityPrivilege} {a : Unit} :
    Ends (MetaStep pq) st (requirePrivilege security object privilege) a st' ↔
      st.catalog.requirePrivilege security object privilege = .ok () ∧ st' = st := by
  unfold requirePrivilege
  rw [execE_bind_iff]
  constructor
  · rintro ⟨a, st1, hask, hlift⟩
    obtain ⟨rfl, rfl⟩ := exec_ask_iff.1 hask
    exact execE_liftExcept_iff.1 hlift
  · rintro ⟨h, rfl⟩
    exact ⟨_, _, exec_ask_iff.2 ⟨rfl, rfl⟩, execE_liftExcept_iff.2 ⟨h, rfl⟩⟩

/-- `authorize_table` reads one store throughout when it runs alone. -/
theorem exec_authorizeTable_iff {db table : String} {privilege : SecurityPrivilege} {a : Unit} :
    Ends (MetaStep pq) st (authorizeTable security db schema table privilege) a st' ↔
      st.catalog.authorizeTable security db schema table privilege = .ok () ∧ st' = st := by
  unfold authorizeTable requireUsage Catalog.authorizeTable
  simp only [execE_bind_iff, exec_findDatabase_iff, exec_findSchemaMeta_iff, exec_findTable_iff,
    exec_requirePrivilege_iff, except_bind_eq_ok]
  constructor
  · rintro ⟨d, _, ⟨hd, rfl⟩, s, _, ⟨hs, rfl⟩, m, _, ⟨hm, rfl⟩, _, _,
      ⟨_, _, ⟨hdb, rfl⟩, hschema, rfl⟩, htable, rfl⟩
    exact ⟨⟨d, hd, s, hs, m, hm, (), hdb, (), hschema, htable⟩, rfl⟩
  · rintro ⟨⟨d, hd, s, hs, m, hm, _, hdb, _, hschema, htable⟩, rfl⟩
    exact ⟨d, _, ⟨hd, rfl⟩, s, _, ⟨hs, rfl⟩, m, _, ⟨hm, rfl⟩, (), _,
      ⟨(), _, ⟨hdb, rfl⟩, hschema, rfl⟩, htable, rfl⟩

end NovaCore
