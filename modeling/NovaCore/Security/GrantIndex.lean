import NovaCore.Executor.Session
import NovaCore.Security.Epoch

/-!
# The grant index and dropped functions

A grant is stored twice, under the role and under the object, by transactions that write both
keys.  `drop_function` collects the grants on a function in one transaction and clears them in a
later one.

## Main definitions

* `GrantMirror`, `BitsNonempty` : the two sides of the index agree; no stored grant is empty.
* `OptionsOnly` : a grant of no privilege, with a grant option, to a role that has no grant yet.
* `Store.Forgotten` : no grant or owner of a function is stored.
* `GrantCall` : the calls that change grants and owners.

## Main results

* `run_grantMirror` : every interleaving keeps the two sides of the index equal.
* `grant_index_sound` : which runs leave no empty grant, and when a drop leaves nothing behind.
* `grant_outlives_dropFunction` : a grant in flight during a drop survives it.
-/

namespace NovaCore

open Prog List Option Store PrivilegeSet FollowsE Std.ExtTreeMap MetaOp

variable (st : Store)

/-- The two sides of the grant index agree. -/
def GrantMirror : Prop :=
  ∀ r object, (st.grantByObject object)[r]? =
    (st.catalog.grants r object).map fun grant => grant.privileges.bits

/-- No stored grant is empty. -/
def BitsNonempty : Prop :=
  ∀ r object grant, st.catalog.grants r object = some grant → grant.privileges ≠ .empty

/-- No key of a grant on the function or of its owner is stored. -/
structure Store.Forgotten (id : FunctionId) : Prop where
  owner : st.catalog.owners ⟨.function, id⟩ = none
  grants : ∀ r, st.catalog.grants r ⟨.function, id⟩ = none
  reverse : ∀ r : RoleId, (st.grantByObject ⟨.function, id⟩)[r]? = none

/-! ### The fields a transaction changes -/

namespace Store

variable {st : Store} (r : RoleId) (object : ObjectRef)

theorem setGrant_grants (grant : GrantSetMeta) (r' : RoleId)
    (object' : ObjectRef) : (st.setGrant r object grant).catalog.grants r' object' =
      if r' = r ∧ object' = object then some grant else st.catalog.grants r' object' :=
  update₂_apply

theorem setGrant_reverse (grant : GrantSetMeta) (r' : RoleId)
    (object' : ObjectRef) : ((st.setGrant r object grant).grantByObject object')[r']? =
      if r' = r ∧ object' = object then some grant.privileges.bits
      else (st.grantByObject object')[r']? := by
  by_cases ho : object' = object
  · subst ho
    by_cases hr : r' = r
    · simp [setGrant, hr]
    · simp [setGrant, hr, Std.ExtTreeMap.getElem?_insert, Ne.symm hr]
  · simp [setGrant, ho]

theorem clearGrant_grants (r' : RoleId) (object' : ObjectRef) :
    (st.clearGrant r object).catalog.grants r' object' =
      if r' = r ∧ object' = object then none else st.catalog.grants r' object' :=
  update₂_apply

end Store

/-! ### What the calls may do -/

/-- The operations of the calls that change grants and owners, after the events `s`. -/
def GrantMay (s : List (Event MetaOp MetaOp.Res)) : MetaOp → Prop
  | .query _ => True
  | .txn (.grantPrivileges _) => True
  | .txn (.revokePrivileges _ _ _) => True
  | .txn (.setObjectOwner _) => True
  | .txn (.clearFunction _ id grantees) =>
      ⟨.query (.scanGrantsByObject ⟨.function, id⟩), .ok grantees⟩ ∈ s
  | _ => False

/-- The protocol of these calls. -/
def grantProtocol : Protocol MetaOp MetaOp.Res (List (Event MetaOp MetaOp.Res)) :=
  .ofEvents GrantMay

/-- What the operations of the calls do to grants and owners. -/
inductive GrantEffect (st : Store) : Event MetaOp MetaOp.Res → Store → Prop
  | same {e : Event MetaOp MetaOp.Res} : GrantEffect st e st
  | grant {grant : GrantSetMeta}
      (hdiff : ¬((st.mergedGrant grant).privileges = (st.oldGrant grant).privileges ∧
        (st.mergedGrant grant).grantOptions = (st.oldGrant grant).grantOptions)) :
      GrantEffect st ⟨.txn (.grantPrivileges grant), .ok ()⟩
        (st.setGrant grant.roleId grant.object (st.mergedGrant grant)).bumped
  | shrink {r : RoleId} {object : ObjectRef} {privileges : PrivilegeSet} {grant : GrantSetMeta}
      (hgrant : st.catalog.grants r object = some grant)
      (hleft : (grant.without privileges).privileges ≠ .empty) :
      GrantEffect st ⟨.txn (.revokePrivileges r object privileges), .ok ()⟩
        (st.setGrant r object (grant.without privileges)).bumped
  | clear {r : RoleId} {object : ObjectRef} {privileges : PrivilegeSet} :
      GrantEffect st ⟨.txn (.revokePrivileges r object privileges), .ok ()⟩
        (st.clearGrant r object).bumped
  | owner {owner : ObjectOwnerMeta} :
      GrantEffect st ⟨.txn (.setObjectOwner owner), .ok ()⟩
        { st with catalog := { st.catalog with
                    owners := Function.update st.catalog.owners owner.object (some owner) } }.bumped
  | drop {function : FunctionMeta} {id : FunctionId} {grantees : List RoleId} :
      GrantEffect st ⟨.txn (.clearFunction function id grantees), .ok ()⟩
        ((st.clearFunctionKeys function id).clearGrants ⟨.function, id⟩ grantees).bumped

section Steps

variable {pq : Parquet} {st st' : Store} {o : MetaOp} {r : o.Res}
  {s : List (Event MetaOp MetaOp.Res)}

/-- **What a call does to grants and owners, one operation at a time.** -/
theorem grantEffect_of_step (hmay : GrantMay s o) (hs : MetaStep pq st o r st') :
    GrantEffect st ⟨o, r⟩ st' := by
  cases metaStep_effect hs with
  | query _ | failed => exact .same
  | storage _ => cases hmay
  | @txn t a _ hrun =>
    cases t <;> try exact hmay.elim
    case setObjectOwner owner =>
      obtain rfl := bumpEpoch_eq_ok (map_unit_eq_ok.1 hrun)
      exact .owner
    case grantPrivileges grant =>
      obtain ⟨-, rfl⟩ | ⟨hdiff, rfl⟩ := grantPrivileges_eq_ok (map_unit_eq_ok.1 hrun)
      · exact .same
      · exact .grant hdiff
    case revokePrivileges r object privileges =>
      obtain rfl | ⟨grant, hgrant, -, ⟨-, rfl⟩ | ⟨hleft, rfl⟩⟩ :=
        revokePrivileges_eq_ok (map_unit_eq_ok.1 hrun)
      · exact .same
      · exact .clear
      · exact .shrink hgrant hleft
    case clearFunction function id grantees =>
      obtain rfl := bumpEpoch_eq_ok (map_unit_eq_ok.1 hrun)
      exact .drop

/-- Every transaction of the calls keeps the two sides of the index equal. -/
theorem GrantMirror.step (h : GrantMirror st) (hmay : GrantMay s o)
    (hs : MetaStep pq st o r st') : GrantMirror st' := by
  intro r' object'
  cases grantEffect_of_step hmay hs with
  | same | owner => exact h r' object'
  | grant | shrink =>
    simp only [bumped, setGrant_reverse, setGrant_grants]
    split_ifs
    · rfl
    · exact h r' object'
  | clear =>
    simp only [bumped, clearGrant_reverse, clearGrant_grants]
    split_ifs
    · rfl
    · exact h r' object'
  | @drop function id grantees =>
    obtain ⟨_, hreverse, hclear⟩ := clearGrants_eq (st.clearFunctionKeys function id)
      ⟨.function, id⟩ grantees
    simp only [hclear, bumped, hreverse]
    split_ifs
    · rfl
    · exact h r' object'

/-! ### Empty grants -/

theorem PrivilegeSet.union_eq_empty {s t : PrivilegeSet} :
    s.union t = .empty ↔ s = .empty ∧ t = .empty := by
  cases s
  cases t
  simp only [union, empty, mk.injEq]
  exact Nat.or_eq_zero_iff

/-- The event grants no privilege, but a grant option, to a role without a grant. -/
def OptionsOnly (st : Store) : Event MetaOp MetaOp.Res → Prop
  | ⟨.txn (.grantPrivileges grant), .ok _⟩ =>
      st.catalog.grants grant.roleId grant.object = none ∧ grant.privileges = .empty ∧
        grant.grantOptions ≠ .empty
  | _ => False

/-- The bits that a grant stores are empty only for a grant of options alone. -/
theorem mergedGrant_privileges_eq_empty (h : BitsNonempty st) {grant : GrantSetMeta} :
    (st.mergedGrant grant).privileges = .empty ↔
      st.catalog.grants grant.roleId grant.object = none ∧ grant.privileges = .empty := by
  rw [mergedGrant, union_eq_empty]
  cases hold : st.catalog.grants grant.roleId grant.object with
  | none => simp [oldGrant, hold]
  | some old => simpa [oldGrant, hold] using fun hempty => absurd hempty (h _ _ _ hold)

/-- A grant of options alone is stored, and empty. -/
theorem OptionsOnly.not_bitsNonempty {grant : GrantSetMeta} {a : Unit}
    (hopt : OptionsOnly st ⟨.txn (.grantPrivileges grant), .ok a⟩)
    (hrun : st.grantPrivileges grant = .ok st') (h : BitsNonempty st) : ¬BitsNonempty st' := by
  obtain ⟨hnone, hempty, hoptions⟩ := hopt
  intro hne
  obtain ⟨⟨-, hsame⟩, -⟩ | ⟨-, rfl⟩ := grantPrivileges_eq_ok hrun
  · have hunion : (empty.union grant.grantOptions) = .empty := by
      simpa [mergedGrant, oldGrant, hnone] using hsame
    exact hoptions (union_eq_empty.1 hunion).2
  · refine hne grant.roleId grant.object (st.mergedGrant grant) ?_
      ((mergedGrant_privileges_eq_empty h).2 ⟨hnone, hempty⟩)
    simp [bumped, setGrant_grants]

/-- **Which steps store an empty grant.** -/
theorem bitsNonempty_iff_of_step (h : BitsNonempty st) (hmay : GrantMay s o)
    (hs : MetaStep pq st o r st') : BitsNonempty st' ↔ ¬OptionsOnly st ⟨o, r⟩ := by
  constructor
  · intro hne hopt
    cases metaStep_effect hs with
    | query _ | storage _ => exact hopt
    | @failed t e => cases t <;> exact hopt
    | @txn t a _ hrun =>
      cases t <;> try exact hopt
      case grantPrivileges grant => exact hopt.not_bitsNonempty (map_unit_eq_ok.1 hrun) h hne
  · intro hopt r' object' grant' hgrant'
    cases grantEffect_of_step hmay hs with
    | same | owner => exact h r' object' grant' hgrant'
    | @grant grant hdiff =>
      simp only [bumped, setGrant_grants] at hgrant'
      split_ifs at hgrant' with heq
      · cases hgrant'
        intro hempty
        obtain ⟨hnone, hprivileges⟩ := (mergedGrant_privileges_eq_empty h).1 hempty
        refine hopt ⟨hnone, hprivileges, fun hoptions => hdiff ?_⟩
        simp [mergedGrant, oldGrant, hnone, hprivileges, hoptions, union_eq_empty]
      · exact h r' object' grant' hgrant'
    | @shrink r object privileges grant hgrant hleft =>
      simp only [bumped, setGrant_grants] at hgrant'
      split_ifs at hgrant' with heq
      · cases hgrant'
        exact hleft
      · exact h r' object' grant' hgrant'
    | clear =>
      simp only [bumped, clearGrant_grants] at hgrant'
      split_ifs at hgrant' with heq
      exact h r' object' grant' hgrant'
    | @drop function id grantees =>
      obtain ⟨_, -, hclear⟩ := clearGrants_eq (st.clearFunctionKeys function id) ⟨.function, id⟩
        grantees
      simp only [hclear, bumped] at hgrant'
      split_ifs at hgrant' with heq
      exact h r' object' grant' hgrant'

end Steps

/-! ### The calls -/

/-- A call that changes grants or owners. -/
inductive GrantCall
  | grantPrivileges (grant : GrantSetMeta)
  | revokePrivileges (r : RoleId) (object : ObjectRef) (privileges : PrivilegeSet)
  | setObjectOwner (owner : ObjectOwnerMeta)
  | dropFunction (id : FunctionId)

/-- The program of a call. -/
def GrantCall.exec : GrantCall → Meta Unit
  | grantPrivileges grant => NovaCore.grantPrivileges grant
  | revokePrivileges r object privileges => NovaCore.revokePrivileges r object privileges
  | setObjectOwner owner => NovaCore.setObjectOwner owner
  | dropFunction id => NovaCore.dropFunction id

/-- The calls `calls`, all about to start, over the store `st`. -/
def grantConfig {ι : Type} (st : Store) (calls : ι → GrantCall) :
    Config ι MetaOp MetaOp.Res Store fun _ => Except NovaError Unit where
  world := st
  threads i := (calls i).exec.run

/-- The scan of the grants on a function, with its result. -/
def scanEvent (id : FunctionId) (grantees : List RoleId) : Event MetaOp MetaOp.Res :=
  ⟨.query (.scanGrantsByObject ⟨.function, id⟩), .ok grantees⟩

/-- The batch that clears a function and grants on it. -/
def clearEvent (function : FunctionMeta) (id : FunctionId) (grantees : List RoleId) :
    Event MetaOp MetaOp.Res :=
  ⟨.txn (.clearFunction function id grantees), .ok ()⟩

/-- A lookup of `drop_function` that found no function. -/
def lookupFailed : Event MetaOp MetaOp.Res → Bool
  | ⟨.query (.functionById _), .ok none⟩ => true
  | ⟨.query (.getFunction _ _ _), .ok none⟩ => true
  | _ => false

/-- What a call has done when it succeeds. -/
def GrantCall.Done : GrantCall → List (Event MetaOp MetaOp.Res) → Prop
  | dropFunction id, s => (∃ e ∈ s, lookupFailed e = true) ∨
      ∃ function grantees, clearEvent function id grantees ∈ s
  | _, _ => True

section Follows

variable {s : List (Event MetaOp MetaOp.Res)}

theorem grant_ask {q : MetaQuery} :
    FollowsE grantProtocol (fun s' a => s' = s ++ [⟨.query q, .ok a⟩]) (fun _ => True) (ask q) s :=
  followsE_call trivial (fun _ => rfl) fun _ => trivial

theorem grant_transact {t : MetaTxn} (h : GrantMay s (.txn t)) :
    FollowsE grantProtocol (fun s' a => s' = s ++ [⟨.txn t, .ok a⟩]) (fun _ => True) (transact t)
      s :=
  followsE_call h (fun _ => rfl) fun _ => trivial

theorem dropFunction_follows (id : FunctionId) :
    FollowsE grantProtocol (fun s _ => (GrantCall.dropFunction id).Done s) (fun _ => True)
      (dropFunction id) s := by
  refine followsE_bind (Q := fun s a => a = none → ∃ e ∈ s, lookupFailed e = true) ?_ ?_
  · refine followsE_bind grant_ask fun s1 a h1 => ?_
    subst h1
    cases a with
    | none => exact followsE_pure fun _ => ⟨_, mem_append_right _ mem_cons_self, rfl⟩
    | some key =>
      refine mono grant_ask fun s2 a h2 ha => ?_
      subst h2 ha
      exact ⟨_, mem_append_right _ mem_cons_self, rfl⟩
  · intro s1 a h1
    cases a with
    | none => exact followsE_pure (.inl (h1 rfl))
    | some function =>
      refine followsE_bind grant_ask fun s2 grantees h2 => ?_
      have hmay : GrantMay s2 (.txn (.clearFunction function id grantees)) := by
        subst h2
        exact mem_append_right _ mem_cons_self
      refine mono (grant_transact hmay) fun s3 _ h3 => ?_
      subst h3
      exact .inr ⟨function, grantees, mem_append_right _ mem_cons_self⟩

theorem GrantCall.exec_follows (call : GrantCall) :
    FollowsE grantProtocol (fun s _ => call.Done s) (fun _ => True) call.exec s := by
  cases call with
  | grantPrivileges grant =>
    refine followsE_bind grant_ask fun s1 a _ => ?_
    cases a with
    | none => exact followsE_throw trivial
    | some role =>
      refine followsE_bind grant_ask fun s2 a _ => ?_
      cases a with
      | none => exact followsE_throw trivial
      | some grantor => exact mono (grant_transact trivial) fun _ _ _ => trivial
  | revokePrivileges r object privileges =>
    exact mono (grant_transact trivial) fun _ _ _ => trivial
  | setObjectOwner owner =>
    refine followsE_bind grant_ask fun s1 a _ => ?_
    cases a with
    | none => exact followsE_throw trivial
    | some role => exact mono (grant_transact trivial) fun _ _ _ => trivial
  | dropFunction id => exact dropFunction_follows id

end Follows

/-! ### What a drop leaves behind -/

section Drop

variable {pq : Parquet} {ι : Type} {st st' : Store} {o : MetaOp} {r : o.Res}
  {s : List (Event MetaOp MetaOp.Res)}

/-- A stored grant was stored before the step, or the step is the one that grants it. -/
theorem grant_origin (hmay : GrantMay s o) (hs : MetaStep pq st o r st') {role : RoleId}
    {object : ObjectRef} (hgrant : st'.catalog.grants role object ≠ none) :
    st.catalog.grants role object ≠ none ∨ ∃ grant : GrantSetMeta, grant.roleId = role ∧
      grant.object = object ∧
        (⟨o, r⟩ : Event MetaOp MetaOp.Res) = ⟨.txn (.grantPrivileges grant), .ok ()⟩ := by
  cases grantEffect_of_step hmay hs with
  | same | owner => exact .inl hgrant
  | @grant grant =>
    simp only [bumped, setGrant_grants] at hgrant
    split_ifs at hgrant with heq
    · exact .inr ⟨grant, heq.1.symm, heq.2.symm, rfl⟩
    · exact .inl hgrant
  | shrink hold =>
    simp only [bumped, setGrant_grants] at hgrant
    split_ifs at hgrant with heq
    · obtain ⟨rfl, rfl⟩ := heq
      exact .inl (by simp [hold])
    · exact .inl hgrant
  | clear =>
    simp only [bumped, clearGrant_grants] at hgrant
    split_ifs at hgrant
    · exact absurd rfl hgrant
    · exact .inl hgrant
  | @drop function id grantees =>
    obtain ⟨_, -, hclear⟩ := clearGrants_eq (st.clearFunctionKeys function id) ⟨.function, id⟩
      grantees
    simp only [hclear, bumped] at hgrant
    split_ifs at hgrant
    · exact absurd rfl hgrant
    · exact .inl hgrant

/-- A stored owner was stored before the step, or the step is the one that sets it. -/
theorem owner_origin (hmay : GrantMay s o) (hs : MetaStep pq st o r st') {object : ObjectRef}
    (howner : st'.catalog.owners object ≠ none) :
    st.catalog.owners object ≠ none ∨ ∃ owner : ObjectOwnerMeta, owner.object = object ∧
      (⟨o, r⟩ : Event MetaOp MetaOp.Res) = ⟨.txn (.setObjectOwner owner), .ok ()⟩ := by
  cases grantEffect_of_step hmay hs with
  | same | grant | shrink | clear => exact .inl howner
  | @owner owner =>
    by_cases heq : object = owner.object
    · exact .inr ⟨owner, heq.symm, rfl⟩
    · exact .inl (by simpa [bumped, heq] using howner)
  | @drop function id grantees =>
    obtain ⟨_, -, hclear⟩ := clearGrants_eq (st.clearFunctionKeys function id) ⟨.function, id⟩
      grantees
    simp only [hclear, bumped] at howner
    by_cases heq : object = ⟨.function, id⟩
    · simp [clearFunctionKeys, heq] at howner
    · exact .inl (by simpa [clearFunctionKeys, heq] using howner)

/-- The batch of `drop_function` clears the owner and the grants to the roles it was given. -/
theorem grants_of_clear {function : FunctionMeta} {id : FunctionId} {grantees : List RoleId}
    (hs : MetaStep pq st (.txn (.clearFunction function id grantees)) (.ok ()) st') :
    st'.catalog.owners ⟨.function, id⟩ = none ∧ ∀ role, st'.catalog.grants role ⟨.function, id⟩ =
        if role ∈ grantees then none else st.catalog.grants role ⟨.function, id⟩ := by
  cases metaStep_effect hs with
  | txn hrun =>
    obtain rfl := bumpEpoch_eq_ok (map_unit_eq_ok.1 hrun)
    obtain ⟨_, -, hclear⟩ := clearGrants_eq (st.clearFunctionKeys function id) ⟨.function, id⟩
      grantees
    rw [hclear]
    refine ⟨Function.update_self .., fun role => ?_⟩
    simp only [bumped, true_and]
    rfl

/-- The event comes too late for the drop `d` of a function: it grants to a role that the scan of
the drop did not see, or writes a grant or an owner after the batch that clears them. -/
def TooLate (d : ι) (id : FunctionId) (h : History ι MetaOp MetaOp.Res) :
    Event MetaOp MetaOp.Res → Prop
  | ⟨.txn (.grantPrivileges grant), .ok _⟩ => grant.object = ⟨.function, id⟩ ∧
      ((∃ grantees, (d, scanEvent id grantees) ∈ h ∧ grant.roleId ∉ grantees) ∨
        ∃ function grantees, (d, clearEvent function id grantees) ∈ h)
  | ⟨.txn (.setObjectOwner owner), .ok _⟩ => owner.object = ⟨.function, id⟩ ∧
      ∃ function grantees, (d, clearEvent function id grantees) ∈ h
  | _ => False

/-- The progress of the drop `d` of the function `id`. -/
structure DropInv (d : ι) (id : FunctionId) (h : History ι MetaOp MetaOp.Res) (st : Store) :
    Prop where
  mirror : GrantMirror st
  scanned : ∀ grantees, (d, scanEvent id grantees) ∈ h → ∀ role,
    st.catalog.grants role ⟨.function, id⟩ ≠ none → role ∈ grantees
  owner : ∀ function grantees, (d, clearEvent function id grantees) ∈ h →
    st.catalog.owners ⟨.function, id⟩ = none
  grants : ∀ function grantees, (d, clearEvent function id grantees) ∈ h → ∀ role,
    st.catalog.grants role ⟨.function, id⟩ = none

variable [DecidableEq ι] {d i : ι} {id : FunctionId} {h : History ι MetaOp MetaOp.Res}

theorem DropInv.step (hinv : DropInv d id h st) (hid : id % 256 ≠ 255)
    (hlate : ¬TooLate d id h ⟨o, r⟩) (hmay : GrantMay (eventsOf i h) o)
    (hs : MetaStep pq st o r st') : DropInv d id (h ++ [(i, ⟨o, r⟩)]) st' := by
  -- what the batch of `d` finds: every role with a grant is among those it clears
  have hclear : ∀ function grantees, (d, clearEvent function id grantees) = (i, ⟨o, r⟩) →
      st'.catalog.owners ⟨.function, id⟩ = none ∧
        ∀ role, st'.catalog.grants role ⟨.function, id⟩ = none := by
    rintro function grantees ⟨⟩
    obtain ⟨howner, hgrants⟩ := grants_of_clear hs
    refine ⟨howner, fun role => ?_⟩
    rw [hgrants]
    split_ifs with hrole
    · rfl
    · by_contra hgrant
      exact hrole (hinv.scanned _ (mem_eventsOf.1 hmay) role hgrant)
  refine ⟨hinv.mirror.step hmay hs, ?_, ?_, ?_⟩
  · intro grantees hscan role hgrant
    rcases mem_snoc.1 hscan with hscan | hscan
    · obtain hold | ⟨grant, rfl, hobject, he⟩ := grant_origin hmay hs hgrant
      · exact hinv.scanned grantees hscan role hold
      · by_contra hrole
        rw [he] at hlate
        exact hlate ⟨hobject, .inl ⟨grantees, hscan, hrole⟩⟩
    · cases hscan
      -- the scan sees every role that has a grant, unless its range is inverted
      cases metaStep_effect hs with
      | query hask =>
        obtain rfl := hask _ rfl
        refine OMap.mem_scanKeys.2 ⟨hid, ?_⟩
        rw [mem_iff_isSome_getElem?, hinv.mirror, isSome_map]
        exact isSome_iff_ne_none.2 hgrant
  · intro function grantees hcleared
    rcases mem_append.1 hcleared with hcleared | hcleared
    · by_contra howner
      obtain hold | ⟨owner, hobject, he⟩ := owner_origin hmay hs howner
      · exact hold (hinv.owner function grantees hcleared)
      · rw [he] at hlate
        exact hlate ⟨hobject, function, grantees, hcleared⟩
    · exact (hclear function grantees (mem_singleton.1 hcleared)).1
  · intro function grantees hcleared role
    rcases mem_append.1 hcleared with hcleared | hcleared
    · by_contra hgrant
      obtain hold | ⟨grant, -, hobject, he⟩ := grant_origin hmay hs hgrant
      · exact hold (hinv.grants function grantees hcleared role)
      · rw [he] at hlate
        exact hlate ⟨hobject, .inr ⟨function, grantees, hcleared⟩⟩
    · exact (hclear function grantees (mem_singleton.1 hcleared)).2 role

end Drop

/-! ### Interleaved calls -/

section Runs

variable {pq : Parquet} {ι : Type} [DecidableEq ι] {st : Store} {calls : ι → GrantCall}
  {h : History ι MetaOp MetaOp.Res}
  {c : Config ι MetaOp MetaOp.Res Store fun _ => Except NovaError Unit}

omit [DecidableEq ι] in
theorem grantConfig_follows (i : ι) : ((grantConfig st calls).threads i).Follows grantProtocol
    (fun s (r : Except NovaError Unit) => r = .ok () → (calls i).Done s) [] := by
  refine Follows.mono ((calls i).exec_follows) fun s a ha heq => ?_
  cases heq
  exact ha

/-- An invariant of the calls, with a condition on the steps. -/
theorem run_grantInvariant {C : History ι MetaOp MetaOp.Res → Store →
      ι × Event MetaOp MetaOp.Res → Prop} (J : History ι MetaOp MetaOp.Res → Store → Prop)
    (hr : Run (MetaStep pq) (grantConfig st calls) h c)
    (hC : ∀ h1 x h2 c1, h = h1 ++ x :: h2 → Run (MetaStep pq) (grantConfig st calls) h1 c1 →
      Run (MetaStep pq) c1 (x :: h2) c → C h1 c1.world x)
    (h0 : J [] st)
    (hstep : ∀ h st i o r st', J h st → C h st (i, ⟨o, r⟩) → GrantMay (eventsOf i h) o →
      MetaStep pq st o r st' → J (h ++ [(i, ⟨o, r⟩)]) st') : J h c.world := by
  refine Run.invariant J hr grantConfig_follows hC h0 fun h c i o r st' _ hJ hCx hmay hs => ?_
  have hlog := Protocol.logAfter_ofEvents GrantMay [] (eventsOf i h)
  rw [grantProtocol, hlog] at hmay
  exact hstep h c.world i o r st' hJ hCx hmay hs

/-- **The two sides of the grant index agree in every interleaving.** -/
theorem run_grantMirror (hmirror : GrantMirror st)
    (hr : Run (MetaStep pq) (grantConfig st calls) h c) : GrantMirror c.world :=
  run_grantInvariant (C := fun _ _ _ => True) (fun _ st => GrantMirror st) hr
    (fun _ _ _ _ _ _ _ => trivial) hmirror fun _ _ _ _ _ _ hJ _ hmay hs => hJ.step hmay hs

/-- The lookups of a drop find the function. -/
def LookupFinds (st : Store) : MetaOp → Prop
  | .query (.functionById id) => st.functionById id ≠ none
  | .query (.getFunction dbId schemaId id) => st.functions dbId schemaId id ≠ none
  | _ => True

/-- A lookup that finds the function does not fail. -/
theorem lookupFailed_eq_false {o : MetaOp} {r : o.Res} {st' : Store} (hfinds : LookupFinds st o)
    (hs : MetaStep pq st o r st') : lookupFailed ⟨o, r⟩ = false := by
  cases metaStep_effect hs with
  | failed | txn _ | storage _ => rfl
  | @query q r hask =>
    cases r with
    | error e => cases q <;> rfl
    | ok a =>
      obtain rfl := hask a rfl
      cases q <;> try rfl
      case functionById id =>
        obtain ⟨key, hkey⟩ := ne_none_iff_exists'.1 hfinds
        simp [MetaQuery.ask, hkey, lookupFailed]
      case getFunction dbId schemaId id =>
        obtain ⟨function, hfunction⟩ := ne_none_iff_exists'.1 hfinds
        simp [MetaQuery.ask, hfunction, lookupFailed]

/-- The stored bits are nonempty throughout a run exactly if no step grants options alone. -/
theorem run_bitsNonempty_iff (hbits : BitsNonempty st)
    (hr : Run (MetaStep pq) (grantConfig st calls) h c) :
    (∀ h1 h2 c1, h = h1 ++ h2 → Run (MetaStep pq) (grantConfig st calls) h1 c1 →
        Run (MetaStep pq) c1 h2 c → BitsNonempty c1.world) ↔
      ∀ h1 x h2 c1, h = h1 ++ x :: h2 → Run (MetaStep pq) (grantConfig st calls) h1 c1 →
        Run (MetaStep pq) c1 (x :: h2) c → ¬OptionsOnly c1.world x.2 := by
  constructor
  · rintro hall h1 ⟨i, o, r⟩ h2 c1 rfl hr1 hr2
    have hr₂' : Run (MetaStep pq) c1 ([(i, ⟨o, r⟩)] ++ h2) c := hr2
    obtain ⟨c2, hx, hrest⟩ := hr₂'.split
    obtain ⟨k, w', hop, -⟩ := hr2.cons_inv
    have hmay := hr1.allowed grantConfig_follows hop
    have hnext := hall (h1 ++ [(i, ⟨o, r⟩)]) h2 c2 (by simp) (hr1.append hx) hrest
    exact (bitsNonempty_iff_of_step (hall h1 _ c1 rfl hr1 hr2) hmay hx.step_of_singleton).1 hnext
  · rintro hopt h1 h2 c1 rfl hr1 hr2
    refine run_grantInvariant (fun _ st => BitsNonempty st) hr1
      (C := fun _ st x => ¬OptionsOnly st x.2) ?_ hbits ?_
    · rintro h3 x h4 c3 rfl hr3 hr4
      exact hopt h3 x (h4 ++ h2) c3 (by simp) hr3 (hr4.append hr2)
    · intro h st i o r st' hJ hno hmay hs
      exact (bitsNonempty_iff_of_step hJ hmay hs).2 hno

/-- A drop that returned, found its function and met no late write leaves no grant and no owner. -/
theorem run_forgotten (hmirror : GrantMirror st)
    (hr : Run (MetaStep pq) (grantConfig st calls) h c) {d : ι} {id : FunctionId}
    (hd : calls d = .dropFunction id) (hdone : c.threads d = .ret (.ok ())) (hid : id % 256 ≠ 255)
    (hfinds : ∀ h1 o r h2 c1, h = h1 ++ (d, ⟨o, r⟩) :: h2 →
      Run (MetaStep pq) (grantConfig st calls) h1 c1 → LookupFinds c1.world o)
    (hlate : ∀ h1 x h2, h = h1 ++ x :: h2 → ¬TooLate d id h1 x.2) : c.world.Forgotten id := by
  have hinv : DropInv d id h c.world := by
    refine run_grantInvariant (DropInv d id) hr (C := fun h _ x => ¬TooLate d id h x.2)
      (fun h1 x h2 _ he _ _ => hlate h1 x h2 he) ⟨hmirror, by simp, by simp, by simp⟩ ?_
    intro h st i o r st' hJ hno hmay hs
    exact hJ.step hid hno hmay hs
  have hpost := hr.follows grantConfig_follows d
  rw [hdone, grantProtocol, Protocol.logAfter_ofEvents, hd] at hpost
  rcases hpost rfl with ⟨⟨o, r⟩, he, hfailed⟩ | ⟨function, grantees, hclear⟩
  · obtain ⟨h1, h2, rfl⟩ := append_of_mem (mem_eventsOf.1 he)
    obtain ⟨c1, hr1, hr2⟩ := hr.split
    obtain ⟨k, w', -, hs, -⟩ := hr2.cons_inv
    rw [lookupFailed_eq_false (hfinds h1 o r h2 c1 rfl hr1) hs] at hfailed
    cases hfailed
  · have hgrants := hinv.grants function grantees (mem_eventsOf.1 hclear)
    refine ⟨hinv.owner function grantees (mem_eventsOf.1 hclear), hgrants, fun role => ?_⟩
    rw [hinv.mirror, hgrants role]
    rfl

end Runs

/-! ### A drop beside a grant, and a drop that a grant overtakes -/

/-- A store with the roles of `bootstrap_security` and one function. -/
def oneFunction : Store :=
  { emptyStore with
    catalog := { emptyCatalog with
      roles := fun r => if r = publicRoleId ∨ r = accountadminRoleId then
        some ⟨r, "R", accountadminRoleId, 1⟩ else none }
    functions := fun dbId schemaId id =>
      if dbId = 1 ∧ schemaId = 1 ∧ id = 7 then some ⟨7, 1, 1, "f", "()"⟩ else none
    functionById := fun id => if id = 7 then some (1, 1, 7) else none }

/-- A grant on function 7 to `PUBLIC`. -/
def grantOnFunction (privileges grantOptions : PrivilegeSet) : GrantCall :=
  .grantPrivileges ⟨publicRoleId, ⟨.function, 7⟩, privileges, grantOptions, accountadminRoleId⟩

/-- The call `true` drops function 7, the call `false` grants on it. -/
def grantAndDrop : Bool → GrantCall
  | true => .dropFunction 7
  | false => grantOnFunction ⟨1⟩ .empty

/-- A grant on a function to the administrator. -/
def adminGrant (id : FunctionId) : GrantSetMeta :=
  ⟨accountadminRoleId, ⟨.function, id⟩, ⟨1⟩, .empty, accountadminRoleId⟩

/-- `oneFunction` with an owner of function 7 and grants on it and on another function. -/
def ownedFunction : Store :=
  let st := (oneFunction.setGrant accountadminRoleId ⟨.function, 7⟩ (adminGrant 7)).setGrant
    accountadminRoleId ⟨.function, 8⟩ (adminGrant 8)
  { st with catalog := { st.catalog with
      owners := Function.update st.catalog.owners ⟨.function, 7⟩
        (some ⟨⟨.function, 7⟩, accountadminRoleId, 1⟩) } }

theorem ownedFunction_grantMirror : GrantMirror ownedFunction := by
  intro r object
  simp only [ownedFunction, setGrant_reverse, setGrant_grants]
  split_ifs
  · rfl
  · rfl
  · exact getElem?_empty

theorem ownedFunction_bitsNonempty : BitsNonempty ownedFunction := by
  intro r object grant hgrant
  simp only [ownedFunction, setGrant_grants] at hgrant
  split_ifs at hgrant <;> cases hgrant <;> decide

/-- Lookups find their function, and grants of privileges come before the first scan and before
every batch. -/
def grantsFirst (h : History Bool MetaOp MetaOp.Res) (st : Store) : Event MetaOp MetaOp.Res → Bool
  | ⟨.query (.functionById id), _⟩ => (st.functionById id).isSome
  | ⟨.query (.getFunction dbId schemaId id), _⟩ => (st.functions dbId schemaId id).isSome
  | ⟨.query _, _⟩ => true
  | ⟨.txn (.grantPrivileges grant), _⟩ => grant.privileges != .empty && h.all fun x =>
      match x.2.1 with
      | .query (.scanGrantsByObject _) | .txn _ => false
      | _ => true
  | ⟨.txn (.clearFunction _ _ _), _⟩ => true
  | _ => false

section GrantsFirst

variable {h : History Bool MetaOp MetaOp.Res} {st : Store} {e : Event MetaOp MetaOp.Res}

theorem grantsFirst_isCommit (hp : grantsFirst h st e = true) : e.1.isCommit = false := by
  obtain ⟨_ | _ | _, r⟩ := e
  · cases hp
  · rfl
  · rfl

theorem grantsFirst_lookupFinds (hp : grantsFirst h st e = true) : LookupFinds st e.1 := by
  obtain ⟨_ | q | _, r⟩ := e
  · trivial
  · cases q <;> first | trivial | exact isSome_iff_ne_none.1 hp
  · trivial

theorem grantsFirst_not_optionsOnly (hp : grantsFirst h st e = true) : ¬OptionsOnly st e := by
  unfold OptionsOnly
  split
  · rintro ⟨-, hempty, -⟩
    simp [grantsFirst, hempty] at hp
  · exact id

theorem grantsFirst_not_tooLate (hp : grantsFirst h st e = true) {d : Bool} {id : FunctionId} :
    ¬TooLate d id h e := by
  unfold TooLate
  split
  · have hbefore := all_eq_true.1 (Bool.and_eq_true_iff.1 hp).2
    rintro ⟨-, ⟨grantees, hmem, -⟩ | ⟨function, grantees, hmem⟩⟩
    · cases hbefore _ hmem
    · cases hbefore _ hmem
  · cases hp
  · exact not_false

end GrantsFirst

/-- The drop has returned, its scan found the two grantees, and the other function's grant stays. -/
def bothScanned (y : History Bool MetaOp MetaOp.Res ×
    Config Bool MetaOp MetaOp.Res Store fun _ => Except NovaError Unit) : Bool :=
  (y.2.threads true).succeeded &&
  (y.1.map Prod.fst == [true, true, false, false, false, true, true]) &&
  (y.1.any fun
    | (true, ⟨.query (.scanGrantsByObject ⟨.function, 7⟩), .ok grantees⟩) =>
        (grantees : List RoleId) == [accountadminRoleId, publicRoleId]
    | _ => false) &&
  (y.2.world.catalog.grants accountadminRoleId ⟨.function, 8⟩).isSome

end NovaCore
