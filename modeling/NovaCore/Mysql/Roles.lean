import NovaCore.Data.Text
import NovaCore.Metadata.Store

/-!
# Switching roles in a session

A login makes the default role of the user the primary role, the other roles granted to the user the
secondary ones, and switches all of them on.  USE ROLE takes a role that is active at the moment and
makes it the primary one; the list of secondary roles stays as the login left it.  So after a switch
to another role the default role is in neither place, and while secondary roles are off no other
role can be switched to.

## Main definitions

* `securityContextForUser` : the session after a login.
* `parseRoleCommand`, `SecurityContext.roleCommand` : the role commands and what they do.
* `RoleSwitching` : what a session should do with its role commands.

## Main results

* `roleSwitching_iff` : **a session does that exactly if no command switches to another role.**
-/

namespace NovaCore

open SecurityContext List

/-! ### Login -/

/-- `security_context_for_user`, with the answers of the metadata store. -/
def securityContextForUser (username : String)
    (getUserByName : String → Except NovaError (Option UserMeta))
    (listUserRoles : UserId → Except NovaError (List RoleId)) :
    Except NovaError SecurityContext := do
  let user ← match ← getUserByName username with
    | some user => .ok user
    | none => .error (.authFailed s!"user '{username}' not found")
  if user.disabled then
    throw (.authFailed s!"user '{username}' is disabled")
  let roles ← listUserRoles user.id
  if user.defaultRoleId ∉ roles then
    throw (.authFailed
      s!"default role '{user.defaultRoleId}' is not granted to user '{user.name}'")
  return {
    userId := user.id
    username := user.name
    primaryRoleId := user.defaultRoleId
    secondaryRoleIds := roles.filter fun r => r ≠ user.defaultRoleId
    secondaryAll := true }

/-! ### Role commands -/

/-- `RoleCommand`. -/
inductive RoleCommand
  | useRole (role : Str)
  | useSecondaryAll
  | useSecondaryNone
  deriving DecidableEq

/-- `parse_role_command`.  Lowering ASCII letters keeps the offsets, so the cut behind `role` always
succeeds. -/
def parseRoleCommand (sql : Str) : Option RoleCommand := do
  let sql := (sql.trim.trimEndMatches (· = ';')).trim
  let parts := sql.splitWhitespace
  let first ← parts.head?
  if !first.eqIgnoreAsciiCase "use".toList then none
  else
    let second ← parts[1]?
    if second.eqIgnoreAsciiCase "role".toList then
      let pos ← sql.toAsciiLowercase.find? "role".toList
      let (_, rest) ← sql.splitAt? (pos + 4)
      let role := (rest.trim.trimMatches (· = Char.ofNat 96)).trimMatches (· = '"')
      if role = [] then none else some (.useRole role)
    else if second.eqIgnoreAsciiCase "secondary".toList then
      let third ← parts[2]?
      if third.eqIgnoreAsciiCase "roles".toList then
        let word ← parts[3]?
        if word.eqIgnoreAsciiCase "all".toList then some .useSecondaryAll
        else if word.eqIgnoreAsciiCase "none".toList then some .useSecondaryNone
        else none
      else none
    else none

/-- The answer to a role command. -/
inductive RoleOutcome
  | ok
  | error (code : ℕ) (message : String)
  deriving DecidableEq

/-- What the metadata store answers when a role is looked up by name. -/
abbrev RoleLookup := Str → Except NovaError (Option RoleId)

variable (display : NovaError → String)

/-- The branches of `handle_connection` for role commands; `display` is `to_string` of an error. -/
def SecurityContext.roleCommand (roleIdByName : RoleLookup)
    (s : SecurityContext) : RoleCommand → SecurityContext × RoleOutcome
  | .useRole role =>
    match roleIdByName role with
    | .ok (some roleId) =>
      if roleId ∈ s.activeRoleIds then ({ s with primaryRoleId := roleId }, .ok)
      else (s, .error 1045 ("role '" ++ String.ofList role ++ "' is not granted to current user"))
    | .ok none => (s, .error 1064 ("role '" ++ String.ofList role ++ "' not found"))
    | .error e => (s, .error 1064 (display e))
  | .useSecondaryAll => ({ s with secondaryAll := true }, .ok)
  | .useSecondaryNone => ({ s with secondaryAll := false }, .ok)

/-- A statement that a session receives, and the answers of the metadata store at that time. -/
structure Received where
  sql : Str
  roleIdByName : RoleLookup

/-- One statement: what is not a role command leaves the roles alone. -/
def SecurityContext.receive (s : SecurityContext) (x : Received) : SecurityContext :=
  match parseRoleCommand x.sql with
  | some command => (s.roleCommand display x.roleIdByName command).1
  | none => s

/-- All statements of a session. -/
def SecurityContext.session (s : SecurityContext)
    (xs : List Received) : SecurityContext := xs.foldl (receive display) s

/-- The command names a role of `roles`. -/
def Received.Names (x : Received) (roles : List RoleId) (role : Str) : Prop :=
  ∃ r ∈ roles, x.roleIdByName role = .ok (some r)

/-- What a session of a user with the roles `roles` should do with its statements: in every state
the primary role is one of them and the active roles are the primary one, or all of them; and
USE ROLE succeeds exactly for a name of one of them. -/
structure RoleSwitching (roles : List RoleId)
    (login : SecurityContext) (xs : List Received) : Prop where
  primary : ∀ before after, xs = before ++ after →
    (login.session display before).primaryRoleId ∈ roles
  active : ∀ before after, xs = before ++ after → ∀ r,
    r ∈ (login.session display before).activeRoleIds ↔
      if (login.session display before).secondaryAll then r ∈ roles
      else r = (login.session display before).primaryRoleId
  useRole : ∀ before x after role, xs = before ++ x :: after →
    parseRoleCommand x.sql = some (.useRole role) →
      (((login.session display before).roleCommand display x.roleIdByName (.useRole role)).2 = .ok ↔
        x.Names roles role)

/-! ### Sessions -/

section

variable {display : NovaError → String} {s : SecurityContext} {x : Received} {roles : List RoleId}

theorem SecurityContext.mem_activeRoleIds {r : RoleId} : r ∈ s.activeRoleIds ↔
      r = s.primaryRoleId ∨ s.secondaryAll = true ∧ r ∈ s.secondaryRoleIds := by
  have hfold : ∀ (ids acc : List RoleId), r ∈ ids.foldl
      (fun roles r => if r ∈ roles then roles else roles ++ [r]) acc ↔ r ∈ acc ∨ r ∈ ids := by
    intro ids
    induction ids with
    | nil => simp
    | cons i ids ih =>
      intro acc
      rw [foldl_cons, ih]
      split_ifs with hi
      · rw [mem_cons]
        constructor
        · rintro (h | h)
          · exact .inl h
          · exact .inr (.inr h)
        · rintro (h | rfl | h)
          · exact .inl h
          · exact .inl hi
          · exact .inr h
      · simp [or_assoc]
  unfold activeRoleIds
  split_ifs with hall
  · rw [hfold]
    simp [hall]
  · simp [hall]

/-- USE ROLE succeeds for a name of an active role. -/
theorem SecurityContext.roleCommand_useRole_ok {lookup : RoleLookup} {role : Str} :
    (s.roleCommand display lookup (.useRole role)).2 = .ok ↔
      ∃ r ∈ s.activeRoleIds, lookup role = .ok (some r) := by
  dsimp only [roleCommand]
  split
  · next r hr =>
    split_ifs with hactive
    · exact iff_of_true rfl ⟨r, hactive, hr⟩
    · refine iff_of_false (by simp) ?_
      rintro ⟨r', hr', heq⟩
      obtain rfl := Option.some.inj (ok_unique hr heq)
      exact hactive hr'
  · next hr => simp [hr]
  · next hr => simp [hr]

theorem SecurityContext.session_concat (before : List Received) :
    s.session display (before ++ [x]) = (s.session display before).receive display x := by
  simp [session]

/-- One statement keeps the secondary roles, and changes the primary one only to an active role that
USE ROLE names. -/
theorem SecurityContext.receive_spec (display : NovaError → String) (s : SecurityContext)
    (x : Received) :
    (s.receive display x).secondaryRoleIds = s.secondaryRoleIds ∧
      ((s.receive display x).primaryRoleId = s.primaryRoleId ∨
        ∃ role r, parseRoleCommand x.sql = some (.useRole role) ∧ r ∈ s.activeRoleIds ∧
          x.roleIdByName role = .ok (some r) ∧
          (s.receive display x).primaryRoleId = r) := by
  unfold receive
  split
  · next command hc =>
    cases command with
    | useSecondaryAll | useSecondaryNone => exact ⟨rfl, .inl rfl⟩
    | useRole role =>
      unfold roleCommand
      dsimp only
      split
      · next r hr =>
        split_ifs with hactive
        · exact ⟨rfl, .inr ⟨role, r, hc, hactive, hr, rfl⟩⟩
        · exact ⟨rfl, .inl rfl⟩
      · exact ⟨rfl, .inl rfl⟩
      · exact ⟨rfl, .inl rfl⟩
  · exact ⟨rfl, .inl rfl⟩

end

/-- A session after the login of a user with these roles. -/
structure LoggedIn (roles : List RoleId) (default : RoleId) (s : SecurityContext) : Prop where
  primary : s.primaryRoleId = default
  secondary : s.secondaryRoleIds = roles.filter fun r => r ≠ default
  granted : default ∈ roles

section

variable {display : NovaError → String} {s : SecurityContext} {x : Received} {roles : List RoleId}
  {default : RoleId}

theorem LoggedIn.mem_activeRoleIds (h : LoggedIn roles default s) {r : RoleId} :
    r ∈ s.activeRoleIds ↔ if s.secondaryAll then r ∈ roles else r = default := by
  rw [SecurityContext.mem_activeRoleIds, h.primary, h.secondary]
  cases s.secondaryAll with
  | false => simp
  | true =>
    simp only [mem_filter, true_and, if_true, decide_eq_true_eq]
    constructor
    · rintro (rfl | ⟨hr, -⟩)
      · exact h.granted
      · exact hr
    · intro hr
      by_cases heq : r = default
      · exact .inl heq
      · exact .inr ⟨hr, heq⟩

/-- A switch to the default role is none. -/
theorem LoggedIn.receive (h : LoggedIn roles default s)
    (hx : ∀ role r, parseRoleCommand x.sql = some (.useRole role) →
      x.roleIdByName role = .ok (some r) → r ∈ roles → r = default) :
    LoggedIn roles default (s.receive display x) := by
  obtain ⟨hsec, hprim⟩ := receive_spec display s x
  refine ⟨?_, hsec.trans h.secondary, h.granted⟩
  rcases hprim with hprim | ⟨role, r, hparse, hr, hlookup, hprim⟩
  · exact hprim.trans h.primary
  · rw [hprim]
    have hmem := h.mem_activeRoleIds.1 hr
    split_ifs at hmem with hall
    · exact hx role r hparse hlookup hmem
    · exact hmem

theorem LoggedIn.session (h : LoggedIn roles default s) {xs : List Received}
    (hxs : ∀ x ∈ xs, ∀ role r, parseRoleCommand x.sql = some (.useRole role) →
      x.roleIdByName role = .ok (some r) → r ∈ roles → r = default) :
    LoggedIn roles default (s.session display xs) := by
  induction xs using reverseRecOn with
  | nil => exact h
  | append_singleton xs x ih =>
    rw [session_concat]
    exact (ih fun y hy => hxs y (mem_append_left _ hy)).receive
      (hxs x (mem_append_right _ mem_cons_self))

/-- Where the session does what it should, a role that USE ROLE names is the default role. -/
theorem RoleSwitching.eq_default {xs after : List Received}
    (h : RoleSwitching display roles s (xs ++ x :: after))
    (hs : LoggedIn roles default (s.session display xs)) {role : Str} {r : RoleId}
    (hparse : parseRoleCommand x.sql = some (.useRole role))
    (hlookup : x.roleIdByName role = .ok (some r)) (hr : r ∈ roles) : r = default := by
  have hok := (h.useRole xs x after role rfl hparse).2 ⟨r, hr, hlookup⟩
  obtain ⟨r', hactive, hlookup'⟩ := roleCommand_useRole_ok.1 hok
  obtain rfl := Option.some.inj (ok_unique hlookup hlookup')
  have hmem := hs.mem_activeRoleIds.1 hactive
  split_ifs at hmem with hall
  · -- with the secondary roles on, the default role has to stay active
    have hactive' := h.active (xs ++ [x]) after (by simp) default
    have hreceive : (s.session display xs).receive display x =
        { s.session display xs with primaryRoleId := r } := by
      simp [receive, hparse, roleCommand, hlookup, hactive]
    rw [session_concat, hreceive, mem_activeRoleIds] at hactive'
    simp only [hall, if_true, true_and, hs.secondary, mem_filter] at hactive'
    have hdefault := hactive'.2 hs.granted
    simpa [eq_comm] using hdefault
  · exact hmem

end

/-- **Role switching.**  After any login, the role commands of a session do what they should exactly
if every USE ROLE that names a role granted to the user names their default role. -/
theorem roleSwitching_iff (display : NovaError → String) {username : String}
    {getUserByName : String → Except NovaError (Option UserMeta)}
    {listUserRoles : UserId → Except NovaError (List RoleId)} {login : SecurityContext}
    {user : UserMeta} {roles : List RoleId}
    (hlogin : securityContextForUser username getUserByName listUserRoles = .ok login)
    (huser : getUserByName username = .ok (some user)) (hroles : listUserRoles user.id = .ok roles)
    (xs : List Received) :
    RoleSwitching display roles login xs ↔ ∀ x ∈ xs, ∀ role r,
      parseRoleCommand x.sql = some (.useRole role) → x.roleIdByName role = .ok (some r) →
        r ∈ roles → r = user.defaultRoleId := by
  have hstart : LoggedIn roles user.defaultRoleId login := by
    simp only [securityContextForUser, huser, hroles, bind, Except.bind] at hlogin
    split_ifs at hlogin with hdisabled hgranted
    cases hlogin
    exact ⟨rfl, rfl, hgranted⟩
  constructor
  · intro h
    -- up to any statement the session is still as the login left it
    have hbefore : ∀ before after, xs = before ++ after →
        LoggedIn roles user.defaultRoleId (login.session display before) := by
      intro before
      induction before using reverseRecOn with
      | nil => exact fun _ _ => hstart
      | append_singleton before x ih =>
        intro after heq
        have heq' : xs = before ++ x :: after := by simp [heq]
        rw [session_concat]
        refine (ih _ heq').receive fun role r hparse hlookup hr => ?_
        exact (heq' ▸ h).eq_default (ih _ heq') hparse hlookup hr
    intro x hx role r hparse hlookup hr
    obtain ⟨before, after, heq⟩ := append_of_mem hx
    exact (heq ▸ h).eq_default (hbefore before _ heq) hparse hlookup hr
  · intro hxs
    have hbefore : ∀ before after, xs = before ++ after →
        LoggedIn roles user.defaultRoleId (login.session display before) := by
      rintro before after rfl
      exact hstart.session fun x hx => hxs x (mem_append_left _ hx)
    refine ⟨fun before after heq => ?_, fun before after heq r => ?_, ?_⟩
    · have hs := hbefore before after heq
      rw [hs.primary]
      exact hs.granted
    · have hs := hbefore before after heq
      rw [hs.mem_activeRoleIds, hs.primary]
    · intro before x after role heq hparse
      have hs := hbefore before _ heq
      rw [roleCommand_useRole_ok]
      refine exists_congr fun r => and_congr_left fun hlookup => ?_
      rw [hs.mem_activeRoleIds]
      split_ifs with hall
      · rfl
      · constructor
        · rintro rfl
          exact hs.granted
        · exact hxs x (heq ▸ by simp) role r hparse hlookup

/-- The user `root`, with the roles 1 (the default role) and 2. -/
def twoRoleUser : UserMeta where
  id := 1
  name := "root"
  defaultRoleId := 1

/-- The session of `twoRoleUser` after the login. -/
def twoRoleLogin : SecurityContext where
  userId := 1
  username := "root"
  primaryRoleId := 1
  secondaryRoleIds := [2]
  secondaryAll := true

theorem securityContextForUser_twoRole :
    securityContextForUser "root" (fun _ => .ok (some twoRoleUser)) (fun _ => .ok [1, 2]) =
      .ok twoRoleLogin := by
  decide

/-- A metadata store that knows role 1 as `a` and role 2 as `b`. -/
def twoRoleNames : RoleLookup := fun role =>
  .ok (if role = ['a'] then some 1 else if role = ['b'] then some 2 else none)

/-- A session that only switches its secondary roles, and to the default role. -/
theorem roleSwitching_iff_default :
    RoleSwitching (fun _ => "") [1, 2] twoRoleLogin
      [⟨"USE SECONDARY ROLES NONE".toList, twoRoleNames⟩, ⟨"use role a".toList, twoRoleNames⟩] := by
  refine (roleSwitching_iff _ securityContextForUser_twoRole rfl rfl _).2 ?_
  have hfirst : parseRoleCommand "USE SECONDARY ROLES NONE".toList = some .useSecondaryNone := by
    decide +kernel
  have hsecond : parseRoleCommand "use role a".toList = some (.useRole ['a']) := by decide +kernel
  rintro x hx role r hparse hlookup -
  simp only [mem_cons, not_mem_nil, or_false] at hx
  rcases hx with rfl | rfl
  · cases hfirst.symm.trans hparse
  · cases hsecond.symm.trans hparse
    have hr : 1 = r := by simpa [twoRoleNames] using hlookup
    exact hr.symm

/-- USE ROLE b succeeds, but then the default role `a` is not active any more, and USE ROLE a is
refused although the role is granted. -/
theorem session_useRole_b :
    let s := twoRoleLogin.session (fun _ => "") [⟨"USE ROLE b".toList, twoRoleNames⟩]
    s.primaryRoleId = 2 ∧ s.secondaryAll = true ∧ s.activeRoleIds = [2] ∧
      (s.roleCommand (fun _ => "") twoRoleNames (.useRole ['a'])).2 =
        .error 1045 "role 'a' is not granted to current user" ∧
      ¬RoleSwitching (fun _ => "") [1, 2] twoRoleLogin [⟨"USE ROLE b".toList, twoRoleNames⟩] := by
  have hactive : (twoRoleLogin.session (fun _ => "")
      [⟨"USE ROLE b".toList, twoRoleNames⟩]).activeRoleIds = [2] := by decide +kernel
  have hall : (twoRoleLogin.session (fun _ => "")
      [⟨"USE ROLE b".toList, twoRoleNames⟩]).secondaryAll = true := by decide +kernel
  refine ⟨by decide +kernel, hall, hactive, by decide +kernel, fun h => ?_⟩
  have hone := h.active [⟨"USE ROLE b".toList, twoRoleNames⟩] [] rfl 1
  rw [hactive, hall] at hone
  simp at hone

end NovaCore
