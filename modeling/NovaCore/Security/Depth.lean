import NovaCore.Security.Graph

/-!
# The depth limit of role inheritance

A grant looks for a cycle below the new child and gives up below depth 64; the closure of a
session counts from the active roles.  A chain of roles can be built from the top, one accepted
grant at a time, until it is longer than what a session that starts at its top may walk.

## Main definitions

* `GrowCall` : a `create_role` or `grant_role_to_role` call.
* `Catalog.listed` : the children of a role as the closure gets them.

## Main results

* `activeRoleClosure_ok_iff_shallow` : after accepted calls the closure of a session fails exactly
  if the shortest path from its active roles to some role that still inherits has 64 edges.
* `activeRoleClosure_deep` : 65 accepted grants after which it fails.
-/

namespace NovaCore

/-- A call that creates a role or an inheritance edge. -/
inductive GrowCall
  | createRole (role : RoleMeta)
  | grantRoleToRole (parent child grantedBy : RoleId)

/-- The program of a call. -/
def GrowCall.exec : GrowCall → Meta Unit
  | createRole role => do let _ ← NovaCore.createRole role
  | grantRoleToRole parent child grantedBy => NovaCore.grantRoleToRole parent child grantedBy

/-- The stored children of a role, none if its identifier ends in the byte `0xFF`. -/
def Catalog.listed (cat : Catalog) (r : RoleId) : Except NovaError (List RoleId) :=
  .ok ((cat.roleChildren r).scanKeys r)

section

variable {pq : Parquet} {st st₀ st₁ : Store} {security : SecurityContext}

/-! ### Accepted calls -/

theorem GrowCall.grows (call : GrowCall) {seen : List RoleId} :
    Grows seen (fun _ _ => True) call.exec := by
  cases call with
  | createRole role => exact grows_createRole.bind fun _ _ _ _ => .pure trivial
  | grantRoleToRole p c g => exact grows_grantRoleToRole

/-- A call that runs alone keeps the role graph well formed. -/
theorem GrowCall.exec_rbacGraph {call : GrowCall} {st' : Store} {r : Except NovaError Unit}
    (hst : RbacGraph st) (he : Exec (MetaStep pq) st call.exec.run r st') : RbacGraph st' := by
  have hstart : RbacGraph st ∧ RolesExist [] st := ⟨hst, by simp [RolesExist]⟩
  obtain ⟨-, -, hg, -⟩ := he.follows (J := fun s st => RbacGraph st ∧ RolesExist s st)
    call.grows hstart (by
      rintro s st o r st' ⟨hg, hs⟩ ⟨hmay, -⟩ hstep
      exact ⟨hg.step hs hmay hstep, hs.record hmay hstep⟩)
  exact hg

/-! ### Which closures are computed -/

theorem RbacGraph.listRoleChildren (h : RbacGraph st) {r : RoleId}
    (hr : st.catalog.roles r ≠ none) : st.catalog.listRoleChildren r = st.catalog.listed r := by
  refine Catalog.listRoleChildren_eq_ok.2 ⟨hr, rfl, fun c hc => ?_⟩
  exact (h.roles_of_edge r c (OMap.mem_scanKeys.1 hc).2).2

/-- All roles that the active roles reach exist, so the closure follows the stored edges. -/
theorem RbacGraph.within_iff (h : RbacGraph st)
    (hactive : ∀ r ∈ security.activeRoleIds, st.catalog.roles r ≠ none) (k : ℕ) (r : RoleId) :
    (Bfs.Within st.catalog.listed security.activeRoleIds k r → st.catalog.roles r ≠ none) ∧
      (Bfs.Within st.catalog.listRoleChildren security.activeRoleIds k r ↔
        Bfs.Within st.catalog.listed security.activeRoleIds k r) := by
  induction k generalizing r with
  | zero => exact ⟨hactive r, Iff.rfl⟩
  | succ k ih =>
    refine ⟨?_, or_congr (ih r).2 (exists_congr fun p => ?_)⟩
    · rintro (hr | ⟨p, -, children, hl, hr⟩)
      · exact (ih r).1 hr
      · obtain rfl := Except.ok.inj hl
        exact (h.roles_of_edge p r (OMap.mem_scanKeys.1 hr).2).2
    · rw [(ih p).2]
      refine and_congr_right fun hp => ?_
      simp only [Bfs.Edge, h.listRoleChildren ((ih p).1 hp)]

/-- **When accepted grants leave authorization working.**  After any sequence of `create_role` and
`grant_role_to_role` calls that all succeed, the closure of a session whose active roles exist is
computed exactly if no role whose shortest path from the active roles has 64 edges inherits a
further role. -/
theorem activeRoleClosure_ok_iff_shallow {calls : List GrowCall} (hempty : NoSecurity st₀)
    (hboot : Exec (MetaStep pq) st₀ bootstrapSecurity.run (.ok ()) st₁)
    (hcalls : Exec (MetaStep pq) st₁ (calls.forM GrowCall.exec).run (.ok ⟨⟩) st)
    (security : SecurityContext)
    (hactive : ∀ r ∈ security.activeRoleIds, st.catalog.roles r ≠ none) :
    (∃ s, st.catalog.activeRoleClosure security = .ok s) ↔
      ∀ r c, Bfs.AtDepth st.catalog.listed security.activeRoleIds 64 r →
        ¬Bfs.Edge st.catalog.listed r c := by
  have hg : RbacGraph st := hcalls.forM_invariant (bootstrapSecurity_spec hempty hboot).1
    fun _ _ _ _ hg he => GrowCall.exec_rbacGraph hg he
  have hwithin := hg.within_iff hactive
  have hdepth : ∀ r, Bfs.AtDepth st.catalog.listRoleChildren security.activeRoleIds 64 r ↔
      Bfs.AtDepth st.catalog.listed security.activeRoleIds 64 r := by
    intro r
    simp only [Bfs.AtDepth, (hwithin _ r).2]
  rw [Catalog.activeRoleClosure_eq_ok_iff, and_iff_right]
  · refine forall_congr' fun r => forall_congr' fun c => ?_
    rw [hdepth]
    refine forall_congr' fun hr => not_congr ?_
    simp only [Bfs.Edge, hg.listRoleChildren ((hwithin 64 r).1 hr.1)]
  · intro r hr
    rw [hg.listRoleChildren ((hwithin 64 r).1 ((hwithin 64 r).2.1 hr))]
    exact ⟨_, rfl⟩

end

/-! ### A chain that is too long -/

/-- Create the roles 100 to 100 + `n` and let each inherit the next, from the top. -/
def chainFromTop (n : ℕ) : List GrowCall :=
  ((List.range (n + 1)).map fun k =>
    .createRole ⟨100 + k, "r" ++ toString k, accountadminRoleId, rootUserId⟩) ++
  (List.range n).map fun k => .grantRoleToRole (100 + k) (101 + k) accountadminRoleId

/-- A session at the top of the chain. -/
def topSession : SecurityContext where
  userId := rootUserId
  username := "root"
  primaryRoleId := 100
  secondaryRoleIds := []
  secondaryAll := false

theorem activeRoleClosure_ok_iff_shallow_chain : ∃ st,
    Exec (MetaStep .verbatim) bootstrapped ((chainFromTop 2).forM GrowCall.exec).run (.ok ⟨⟩) st ∧
      ((∃ s, st.catalog.activeRoleClosure topSession = .ok s) ↔
        ∀ r c, Bfs.AtDepth st.catalog.listed topSession.activeRoleIds 64 r →
          ¬Bfs.Edge st.catalog.listed r c) := by
  have hrun : (((chainFromTop 2).forM GrowCall.exec).run.runAlone (MetaOp.apply .verbatim)
      bootstrapped (List.replicate 40 {})).any (fun y =>
        y.1 = .ok ⟨⟩ ∧ ∀ r ∈ topSession.activeRoleIds, y.2.catalog.roles r ≠ none) = true := by
    decide +kernel
  obtain ⟨r, st, he, hc⟩ := exists_exec_of_runAlone hrun
  obtain ⟨rfl, hactive⟩ := of_decide_eq_true hc
  exact ⟨st, he, activeRoleClosure_ok_iff_shallow emptyStore_noSecurity exec_bootstrapped he
    topSession hactive⟩

/-- Sixty-five accepted grants that disable every privilege check of a session. -/
theorem activeRoleClosure_deep : ∃ st,
    Exec (MetaStep .verbatim) bootstrapped ((chainFromTop 65).forM GrowCall.exec).run (.ok ⟨⟩)
      st ∧ (∀ r ∈ topSession.activeRoleIds, st.catalog.roles r ≠ none) ∧
      st.catalog.activeRoleClosure topSession =
        .error (.permissionDenied "root" "role inheritance depth limit exceeded") := by
  have hrun : (((chainFromTop 65).forM GrowCall.exec).run.runAlone (MetaOp.apply .verbatim)
      bootstrapped (List.replicate 400 {})).any (fun y =>
        y.1 = .ok ⟨⟩ ∧ (∀ r ∈ topSession.activeRoleIds, y.2.catalog.roles r ≠ none) ∧
          y.2.catalog.activeRoleClosure topSession =
            .error (.permissionDenied "root" "role inheritance depth limit exceeded")) = true := by
    decide +kernel
  obtain ⟨r, st, he, hc⟩ := exists_exec_of_runAlone hrun
  obtain ⟨rfl, hactive, hclosure⟩ := of_decide_eq_true hc
  exact ⟨st, he, hactive, hclosure⟩

end NovaCore
