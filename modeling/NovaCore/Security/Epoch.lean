import NovaCore.Security.Graph

/-!
# The security epoch

Caches of authorization decisions watch `security_epoch`.  It must grow with every change of role
edges, user roles, grants or owners, and should stay put otherwise.  The first half holds for
every transaction; the second fails for the transactions that write without comparing.

## Main definitions

* `SameFacts` : two states agree on what authorization depends on.
* `Spurious` : the transaction writes what is there already, and counts it as a change.
* `EpochSound` : the epoch moves in a step exactly if the facts do.
* `SecurityCall` : the calls of the security store and the object drops.

## Main results

* `epochSound_iff_of_step` : the sound steps are those that are not spurious.
* `security_epoch_sound_iff` : in every interleaving the epoch never decreases and grows with every
  change; it grows without a change exactly in the spurious transactions.
* `security_epoch_duplicate_grant` : granting a role to a role twice.
-/

namespace NovaCore

open Store Nat

/-- The bits of a grant. -/
def GrantSetMeta.bits (grant : GrantSetMeta) : PrivilegeSet × PrivilegeSet :=
  (grant.privileges, grant.grantOptions)

/-- The states agree on role edges, user roles, grant bits and owners. -/
structure SameFacts (st st' : Store) : Prop where
  roleChild : ∀ p c, st'.catalog.RoleChild p c ↔ st.catalog.RoleChild p c
  userRole : ∀ u r, st'.userRole u r = st.userRole u r
  grants : ∀ r object, (st'.catalog.grants r object).map GrantSetMeta.bits =
    (st.catalog.grants r object).map GrantSetMeta.bits
  owners : ∀ object, (st'.catalog.owners object).map ObjectOwnerMeta.ownerRoleId =
    (st.catalog.owners object).map ObjectOwnerMeta.ownerRoleId

variable (st : Store)

theorem SameFacts.refl : SameFacts st st :=
  ⟨fun _ _ => Iff.rfl, fun _ _ => rfl, fun _ _ => rfl, fun _ => rfl⟩

/-- The transaction advances the epoch although what it writes is there already. -/
def SpuriousTxn : MetaTxn → Prop
  | .createUser user _ => st.userRole user.id publicRoleId = true ∧
      st.userRole user.id user.defaultRoleId = true
  | .createRole role _ => (st.catalog.owners ⟨.role, role.id⟩).map ObjectOwnerMeta.ownerRoleId =
      some role.ownerRoleId
  | .grantRoleToRole parent child _ => st.catalog.RoleChild parent child
  | .setObjectOwner owner => (st.catalog.owners owner.object).map ObjectOwnerMeta.ownerRoleId =
      some owner.ownerRoleId
  | .clearFunction _ id grantees => st.catalog.owners ⟨.function, id⟩ = none ∧
      ∀ r ∈ grantees, st.catalog.grants r ⟨.function, id⟩ = none
  | .bumpSecurityEpoch => True
  | _ => False

/-- The event is a spurious transaction. -/
def Spurious : Event MetaOp MetaOp.Res → Prop
  | ⟨.txn t, .ok _⟩ => SpuriousTxn st t
  | _ => False

/-- The step from `st` to `st'` never lowers the epoch and moves it exactly if the facts change. -/
structure EpochSound (st st' : Store) : Prop where
  le : st.securityEpoch ≤ st'.securityEpoch
  changed : ¬SameFacts st st' → st.securityEpoch < st'.securityEpoch
  unchanged : SameFacts st st' → st'.securityEpoch = st.securityEpoch

section Steps

variable {pq : Parquet} {st st' : Store} {e : Event MetaOp MetaOp.Res}

theorem SameFacts.of_eq (hroles : st'.catalog.roleChildren = st.catalog.roleChildren)
    (huser : st'.userRole = st.userRole) (hgrants : st'.catalog.grants = st.catalog.grants)
    (howners : st'.catalog.owners = st.catalog.owners) : SameFacts st st' := by
  refine ⟨fun p c => ?_, fun u r => ?_, fun r o => ?_, fun o => ?_⟩
  · simp [Catalog.RoleChild, hroles]
  · rw [huser]
  · rw [hgrants]
  · rw [howners]

/-- Only the owner of `object` is written. -/
theorem sameFacts_setOwner_iff {object : ObjectRef} {owner : ObjectOwnerMeta} {r : RoleId}
    (hroles : st'.catalog.roleChildren = st.catalog.roleChildren)
    (huser : st'.userRole = st.userRole) (hgrants : st'.catalog.grants = st.catalog.grants)
    (howners : st'.catalog.owners = Function.update st.catalog.owners object (some owner))
    (hr : owner.ownerRoleId = r) : SameFacts st st' ↔
      (st.catalog.owners object).map ObjectOwnerMeta.ownerRoleId = some r := by
  subst hr
  refine ⟨fun hsame => ?_, fun hsame => ?_⟩
  · simpa [howners] using (hsame.owners object).symm
  · refine ⟨fun p c => by simp [Catalog.RoleChild, hroles], fun u r => by rw [huser],
      fun r o => by rw [hgrants], fun o => ?_⟩
    by_cases ho : o = object
    · subst ho
      simpa [howners] using hsame.symm
    · simp [howners, ho]

/-- **What a step does to the epoch.**  It leaves the facts and the epoch alone, or it advances the
epoch and, unless it is spurious, changes the facts. -/
theorem epoch_of_step {o : MetaOp} {r : o.Res} (hs : MetaStep pq st o r st') :
    (SameFacts st st' ∧ st'.securityEpoch = st.securityEpoch ∧ ¬Spurious st ⟨o, r⟩) ∨
      st.securityEpoch < st'.securityEpoch ∧ (SameFacts st st' ↔ Spurious st ⟨o, r⟩) := by
  cases metaStep_effect hs with
  | query _ | failed => exact .inl ⟨.refl st, rfl, id⟩
  | storage hst =>
    have hcat := step_catalog hst
    refine .inl ⟨.of_eq ?_ rfl ?_ ?_, rfl, id⟩ <;> simp [hcat]
  | @txn t a _ hrun =>
    cases t
    case takeNextId counter =>
      rw [(takeNextId_eq_ok hrun).2]
      exact .inl ⟨.of_eq rfl rfl rfl rfl, rfl, id⟩
    case createUser user name =>
      obtain ⟨-, -, rfl⟩ := createUser_eq_ok (map_unit_eq_ok.1 hrun)
      have huser := @addUser_userRole st user name
      obtain ⟨_, _, heq⟩ := @addUser_eq st user name
      rw [heq] at huser ⊢
      refine .inr ⟨lt_succ_self _, fun hsame => ?_, fun ht => ?_⟩
      · refine ⟨?_, ?_⟩ <;> rw [← hsame.userRole]
        · exact (huser _ _).2 (.inr ⟨rfl, .inl rfl⟩)
        · exact (huser _ _).2 (.inr ⟨rfl, .inr rfl⟩)
      · refine ⟨fun _ _ => Iff.rfl, fun u r => ?_, fun _ _ => rfl, fun _ => rfl⟩
        rw [Bool.eq_iff_iff]
        refine (huser u r).trans (or_iff_left_of_imp ?_)
        rintro ⟨rfl, rfl | rfl⟩
        · exact ht.1
        · exact ht.2
    case createRole role name =>
      obtain ⟨-, -, rfl⟩ := createRole_eq_ok (map_unit_eq_ok.1 hrun)
      exact .inr ⟨lt_succ_self _, sameFacts_setOwner_iff rfl rfl rfl rfl rfl⟩
    case grantRoleToUser u r g =>
      obtain ⟨-, -, ⟨-, rfl⟩ | ⟨hheld, rfl⟩⟩ := grantRoleToUser_eq_ok (map_unit_eq_ok.1 hrun)
      · exact .inl ⟨.refl _, rfl, id⟩
      · refine .inr ⟨lt_succ_self _, fun hsame => ?_, False.elim⟩
        have hrole := hsame.userRole u r
        simp [bumped, setUserRole_userRole, hheld] at hrole
    case revokeRoleFromUser u r =>
      obtain ⟨-, rfl⟩ | ⟨hheld, rfl⟩ := revokeRoleFromUser_eq_ok (map_unit_eq_ok.1 hrun)
      · exact .inl ⟨.refl _, rfl, id⟩
      · refine .inr ⟨lt_succ_self _, fun hsame => ?_, False.elim⟩
        have hrole := hsame.userRole u r
        simp [bumped, setUserRole_userRole, hheld] at hrole
    case grantRoleToRole p c g =>
      obtain ⟨-, -, -, rfl⟩ := grantRoleToRole_eq_ok (map_unit_eq_ok.1 hrun)
      have hedge := @setRoleChild_roleChild st p c
      refine .inr ⟨lt_succ_self _, fun hsame => ?_, fun ht => ?_⟩
      · exact (hsame.roleChild p c).1 ((hedge p c).2 (.inr ⟨rfl, rfl⟩))
      · refine ⟨fun p' c' => ?_, fun _ _ => rfl, fun _ _ => rfl, fun _ => rfl⟩
        refine (hedge p' c').trans (or_iff_left_of_imp ?_)
        rintro ⟨rfl, rfl⟩
        exact ht
    case revokeRoleFromRole p c =>
      obtain ⟨-, rfl⟩ | ⟨hedge, rfl⟩ := revokeRoleFromRole_eq_ok (map_unit_eq_ok.1 hrun)
      · exact .inl ⟨.refl _, rfl, id⟩
      · refine .inr ⟨lt_succ_self _, fun hsame => ?_, False.elim⟩
        have hkept := (clearRoleChild_roleChild p c p c).1 ((hsame.roleChild p c).2 hedge)
        exact absurd ⟨rfl, rfl⟩ hkept.2
    case setObjectOwner owner =>
      obtain rfl := bumpEpoch_eq_ok (map_unit_eq_ok.1 hrun)
      exact .inr ⟨lt_succ_self _, sameFacts_setOwner_iff rfl rfl rfl rfl rfl⟩
    case grantPrivileges grant =>
      obtain ⟨-, rfl⟩ | ⟨hdiff, rfl⟩ := grantPrivileges_eq_ok (map_unit_eq_ok.1 hrun)
      · exact .inl ⟨.refl _, rfl, id⟩
      · refine .inr ⟨lt_succ_self _, fun hsame => (hdiff ?_).elim, False.elim⟩
        have hbits := hsame.grants grant.roleId grant.object
        cases hold : st.catalog.grants grant.roleId grant.object with
        | none => simp [bumped, setGrant, update₂_apply, hold] at hbits
        | some old =>
          have hgrant : st.oldGrant grant = old := by simp [oldGrant, hold]
          simpa [bumped, setGrant, update₂_apply, hold, GrantSetMeta.bits, hgrant] using hbits
    case revokePrivileges r object privileges =>
      obtain rfl | ⟨grant, hold, hdiff, ⟨-, rfl⟩ | ⟨-, rfl⟩⟩ :=
        revokePrivileges_eq_ok (map_unit_eq_ok.1 hrun)
      · exact .inl ⟨.refl _, rfl, id⟩
      · refine .inr ⟨lt_succ_self _, fun hsame => ?_, False.elim⟩
        have hbits := hsame.grants r object
        simp [bumped, clearGrant, update₂_apply, hold] at hbits
      · refine .inr ⟨lt_succ_self _, fun hsame => (hdiff ?_).elim, False.elim⟩
        have hbits := hsame.grants r object
        simpa [bumped, setGrant, update₂_apply, hold, GrantSetMeta.bits] using hbits
    case createFunction function =>
      obtain ⟨-, -, rfl⟩ := createFunction_eq_ok (map_unit_eq_ok.1 hrun)
      exact .inl ⟨.of_eq rfl rfl rfl rfl, rfl, id⟩
    case clearFunction function id grantees =>
      obtain rfl := bumpEpoch_eq_ok (map_unit_eq_ok.1 hrun)
      obtain ⟨_, -, hclear⟩ := clearGrants_eq (st.clearFunctionKeys function id) ⟨.function, id⟩
        grantees
      rw [hclear]
      refine .inr ⟨lt_succ_self _, fun hsame => ⟨?_, fun r hr => ?_⟩,
        fun ht => ⟨fun _ _ => Iff.rfl, fun _ _ => rfl, fun r o => ?_, fun o => ?_⟩⟩
      · have howner := hsame.owners ⟨.function, id⟩
        simpa [bumped, clearFunctionKeys] using howner.symm
      · have hbits := hsame.grants r ⟨.function, id⟩
        simpa [bumped, hr] using hbits.symm
      · dsimp only [bumped]
        split_ifs with hcleared
        · obtain ⟨rfl, hr⟩ := hcleared
          simp [ht.2 r hr]
        · rfl
      · by_cases ho : o = ⟨.function, id⟩
        · subst ho
          simp [bumped, clearFunctionKeys, ht.1]
        · simp [bumped, clearFunctionKeys, ho]
    case bumpSecurityEpoch =>
      obtain rfl := bumpSecurityEpoch_eq_ok hrun
      exact .inr ⟨lt_succ_self _, fun _ => trivial, fun _ => .of_eq rfl rfl rfl rfl⟩
    case createStream stream =>
      have hcreate := map_unit_eq_ok.1 hrun
      unfold Store.createStream at hcreate
      split_ifs at hcreate
      cases hcreate
      exact .inl ⟨.of_eq rfl rfl rfl rfl, rfl, id⟩
    all_goals
      cases hrun
      exact .inl ⟨.of_eq rfl rfl rfl rfl, rfl, id⟩

/-- **The sound steps are those that are not spurious.** -/
theorem epochSound_iff_of_step {o : MetaOp} {r : o.Res} (hs : MetaStep pq st o r st') :
    EpochSound st st' ↔ ¬Spurious st ⟨o, r⟩ := by
  obtain ⟨hsame, hepoch, hno⟩ | ⟨hlt, hiff⟩ := epoch_of_step hs
  · exact iff_of_true ⟨hepoch.ge, fun h => absurd hsame h, fun _ => hepoch⟩ hno
  · rw [← hiff]
    exact ⟨fun hsound hsame => hlt.ne' (hsound.unchanged hsame),
      fun hno => ⟨hlt.le, fun _ => hlt, fun hsame => absurd hsame hno⟩⟩

end Steps

/-! ### Interleaved calls -/

/-- A call of the security store that writes, or the drop of an object. -/
inductive SecurityCall
  | bootstrapSecurity
  | createUser (user : UserMeta)
  | createRole (role : RoleMeta)
  | grantRoleToUser (u : UserId) (r grantedBy : RoleId)
  | revokeRoleFromUser (u : UserId) (r : RoleId)
  | grantRoleToRole (parent child grantedBy : RoleId)
  | revokeRoleFromRole (parent child : RoleId)
  | setObjectOwner (owner : ObjectOwnerMeta)
  | grantPrivileges (grant : GrantSetMeta)
  | revokePrivileges (r : RoleId) (object : ObjectRef) (privileges : PrivilegeSet)
  | bumpSecurityEpoch
  | dropDatabase (id : DatabaseId)
  | dropSchema (dbId : DatabaseId) (id : SchemaId)
  | dropTable (t : TableId)
  | dropDynamicTable (id : TableId)
  | dropStream (id : StreamId)
  | dropFunction (id : FunctionId)

/-- The program of a call. -/
def SecurityCall.exec : SecurityCall → Meta Unit
  | bootstrapSecurity => NovaCore.bootstrapSecurity
  | createUser user => do let _ ← NovaCore.createUser user
  | createRole role => do let _ ← NovaCore.createRole role
  | grantRoleToUser u r grantedBy => NovaCore.grantRoleToUser u r grantedBy
  | revokeRoleFromUser u r => NovaCore.revokeRoleFromUser u r
  | grantRoleToRole parent child grantedBy => NovaCore.grantRoleToRole parent child grantedBy
  | revokeRoleFromRole parent child => NovaCore.revokeRoleFromRole parent child
  | setObjectOwner owner => NovaCore.setObjectOwner owner
  | grantPrivileges grant => NovaCore.grantPrivileges grant
  | revokePrivileges r object privileges => NovaCore.revokePrivileges r object privileges
  | bumpSecurityEpoch => do let _ ← transact .bumpSecurityEpoch
  | dropDatabase id => NovaCore.dropDatabase id
  | dropSchema dbId id => NovaCore.dropSchema dbId id
  | dropTable t => NovaCore.dropTable t
  | dropDynamicTable id => NovaCore.dropDynamicTable id
  | dropStream id => NovaCore.dropStream id
  | dropFunction id => NovaCore.dropFunction id

/-- The calls `calls`, all about to start, over the store `st`. -/
def securityConfig {ι : Type} (st : Store) (calls : ι → SecurityCall) :
    Config ι MetaOp MetaOp.Res Store fun _ => Except NovaError Unit where
  world := st
  threads i := (calls i).exec.run

/-- **When the security epoch tracks the facts.**  In every interleaving of calls the epoch never
decreases; every transaction that changes a role edge, a user role, grant bits or an owner
advances it; and the steps after which it moved exactly if the facts did are those that are not
spurious transactions. -/
theorem security_epoch_sound_iff {pq : Parquet} {ι : Type} [DecidableEq ι] {st : Store}
    {calls : ι → SecurityCall} {h : History ι MetaOp MetaOp.Res}
    {c : Config ι MetaOp MetaOp.Res Store fun _ => Except NovaError Unit}
    (hr : Run (MetaStep pq) (securityConfig st calls) h c) :
    st.securityEpoch ≤ c.world.securityEpoch ∧
    ∀ h₁ x h₂ c₁ c₂, h = h₁ ++ x :: h₂ → Run (MetaStep pq) (securityConfig st calls) h₁ c₁ →
      Run (MetaStep pq) c₁ [x] c₂ →
      (¬SameFacts c₁.world c₂.world → c₁.world.securityEpoch < c₂.world.securityEpoch) ∧
        (EpochSound c₁.world c₂.world ↔ ¬Spurious c₁.world x.2) := by
  constructor
  · induction hr with
    | nil => exact le_refl _
    | snoc _ _ hst ih =>
      obtain ⟨-, hepoch, -⟩ | ⟨hlt, -⟩ := epoch_of_step hst
      · exact ih.trans hepoch.ge
      · exact ih.trans hlt.le
  · rintro h₁ ⟨i, o, r⟩ h₂ c₁ c₂ - - hstep
    have hst := hstep.step_of_singleton
    refine ⟨fun hno => ?_, epochSound_iff_of_step hst⟩
    obtain ⟨hsame, -⟩ | ⟨hlt, -⟩ := epoch_of_step hst
    · exact absurd hsame hno
    · exact hlt

/-- The call `grant_role_to_role(ACCOUNTADMIN, PUBLIC)`. -/
def adminInheritsPublic : SecurityCall :=
  .grantRoleToRole accountadminRoleId publicRoleId accountadminRoleId

theorem security_epoch_sound_iff_grant : ∃ h c,
    Run (MetaStep .verbatim) (securityConfig bootstrapped fun _ : Unit => adminInheritsPublic) h c ∧
      bootstrapped.securityEpoch ≤ c.world.securityEpoch ∧ c.world.securityEpoch = 5 := by
  have hs : ((securityConfig bootstrapped fun _ : Unit => adminInheritsPublic).schedule
      (MetaOp.apply .verbatim) [((), {})]).any (fun y => y.2.world.securityEpoch = 5) = true := by
    decide +kernel
  obtain ⟨h, c, hr, hc⟩ := exists_run_of_schedule hs
  exact ⟨h, c, hr, (security_epoch_sound_iff hr).1, of_decide_eq_true hc⟩

/-- Granting a role to a role for the second time changes nothing and advances the epoch. -/
theorem security_epoch_duplicate_grant : ∃ st₁ st₂,
    Exec (MetaStep .verbatim) bootstrapped adminInheritsPublic.exec.run (.ok ()) st₁ ∧
      Exec (MetaStep .verbatim) st₁ adminInheritsPublic.exec.run (.ok ()) st₂ ∧
      SameFacts st₁ st₂ ∧ st₁.securityEpoch < st₂.securityEpoch := by
  have hrun : ((adminInheritsPublic.exec >>= fun _ => adminInheritsPublic.exec).run.runAlone
      (MetaOp.apply .verbatim) bootstrapped [{}, {}]).any (fun y => y.1 = .ok ()) = true := by
    decide +kernel
  obtain ⟨r, st₂, he, hr⟩ := exists_exec_of_runAlone hrun
  obtain rfl : r = .ok () := of_decide_eq_true hr
  obtain ⟨⟨⟩, st₁, he1, he2⟩ := execE_bind_iff.1 he
  generalize bootstrapped = st at he1 ⊢
  cases metaStep_effect (execE_call_iff.1 he1) with
  | txn hrun1 =>
    have hst := (grantRoleToRole_eq_ok (map_unit_eq_ok.1 hrun1)).2.2.2
    have hedge : st₁.catalog.RoleChild accountadminRoleId publicRoleId := by
      rw [hst]
      exact (setRoleChild_roleChild _ _ _ _).2 (.inr ⟨rfl, rfl⟩)
    obtain ⟨-, -, hno⟩ | ⟨hlt, hsame⟩ := epoch_of_step (execE_call_iff.1 he2)
    · exact absurd hedge hno
    · exact ⟨st₁, st₂, he1, he2, hsame.2 hedge, hlt⟩

end NovaCore
