import NovaCore.Data.Bytes
import NovaCore.Metadata.Store

/-!
# Password authentication

`mysql_native_password`: the server stores `h = SHA1(SHA1(password))` and sends a scramble; the
client answers with `SHA1(password)` masked by `SHA1(scramble ++ h)`.  The server takes the mask off
and compares the hash of what is left with `h`.

Taking the mask off zips two byte strings, and a zip is as long as the shorter one.  So a longer
response is cut to 20 bytes before it is checked, and a shorter one is checked against a hash of
fewer than 20 bytes.

## Main definitions

* `verifyMysqlNativePassword`, `verifyFdbMysqlNativeUser` : the checks of the server.
* `ClientAuth.mysqlNativePassword` : the answer of the client.
* `Answers` : a 20-byte answer to a scramble, as it should be.
* `MisSized` : a response of another length that passes the check of the hash.

## Main results

* `verifyMysqlNativePassword_iff` : what the check accepts.
* `passwordAuthentication_iff` : **authentication is exact unless the response has the wrong size.**
-/

namespace NovaCore

open List

/-- SHA-1, of which only the length of its digests is used. -/
structure Sha1 where
  digest : Bytes → Bytes
  length_digest : ∀ m, (digest m).length = 20

/-- `a.iter().zip(b.iter()).map(|(a, b)| a ^ b)`. -/
def xorBytes (a b : Bytes) : Bytes := List.zipWith (· ^^^ ·) a b

@[simp] theorem length_xorBytes (a b : Bytes) :
    (xorBytes a b).length = min a.length b.length := length_zipWith

/-- A mask taken off again leaves what it covered. -/
theorem xorBytes_xorBytes (a m : Bytes) : xorBytes (xorBytes a m) m = a.take m.length := by
  induction a generalizing m with
  | nil => simp [xorBytes]
  | cons x a ih =>
    cases m with
    | nil => simp [xorBytes]
    | cons y m =>
      have hxor : x ^^^ y ^^^ y = x := by rw [UInt8.xor_assoc, UInt8.xor_self, UInt8.xor_zero]
      simp only [xorBytes] at ih ⊢
      simp only [zipWith_cons_cons, length_cons, take_succ_cons, ih, hxor]

theorem xorBytes_xorBytes_of_length_le {a m : Bytes} (h : a.length ≤ m.length) :
    xorBytes (xorBytes a m) m = a := by
  rw [xorBytes_xorBytes, take_of_length_le h]

/-- A mask does not reach behind its own length. -/
theorem xorBytes_take (a m : Bytes) : xorBytes (a.take m.length) m = xorBytes a m := by
  rw [← xorBytes_xorBytes a m]
  exact xorBytes_xorBytes_of_length_le (by simp)

variable (sha1 : Sha1)

/-! ### The server -/

/-- `verify_mysql_native_password`. -/
def verifyMysqlNativePassword (scramble storedHash clientResponse : Bytes) : Bool :=
  if storedHash = [] ∧ clientResponse = [] then true
  else if storedHash = [] ∨ clientResponse = [] then false
  else
    let scrambleHash := sha1.digest (scramble ++ storedHash)
    let stage1 := xorBytes clientResponse scrambleHash
    sha1.digest stage1 = storedHash

/-- A user of the configuration; the other fields play no part here. -/
structure UserInfo where
  username : String
  mysqlNativeHash : Bytes
  deriving DecidableEq

variable (user : UserMeta) (configuredUser : Option UserInfo)

/-- `verify_fdb_mysql_native_user`. -/
def verifyFdbMysqlNativeUser (scramble authResponse : Bytes) : Bool :=
  if user.disabled then false
  else if user.mysqlNativeHash ≠ [] then
    verifyMysqlNativePassword sha1 scramble user.mysqlNativeHash authResponse
  else match configuredUser.filter fun configured =>
      configured.username = user.name ∧ configured.mysqlNativeHash ≠ [] with
    | some configured =>
      verifyMysqlNativePassword sha1 scramble configured.mysqlNativeHash authResponse
    | none => false

/-! ### Passwords and the client -/

/-- `hash_password_mysql_native`. -/
def hashPasswordMysqlNative (password : String) : Bytes :=
  if password = "" then [] else sha1.digest (sha1.digest (utf8 password))

/-- `ClientAuth::mysql_native_password`. -/
def ClientAuth.mysqlNativePassword (password : String) (scramble : Bytes) : Bytes :=
  if password = "" then []
  else
    let stage1 := sha1.digest (utf8 password)
    let stage2 := sha1.digest stage1
    xorBytes stage1 (sha1.digest (scramble ++ stage2))

/-! ### What authentication should accept -/

/-- The hash that counts for a user: their own, or else that of the configured user of the same
name. -/
def effectiveHash : Bytes :=
  if user.mysqlNativeHash ≠ [] then user.mysqlNativeHash
  else ((configuredUser.filter fun configured => configured.username = user.name).map
    UserInfo.mysqlNativeHash).getD []

/-- The response masks a 20-byte preimage of the hash. -/
def Answers (scramble h response : Bytes) : Prop :=
  response.length = 20 ∧ ∃ s : Bytes, s.length = 20 ∧ sha1.digest s = h ∧
    response = xorBytes s (sha1.digest (scramble ++ h))

/-- Authentication with one user, scramble and response is what it should be. -/
structure PasswordAuthentication (scramble response : Bytes) : Prop where
  accepts_iff : verifyFdbMysqlNativeUser sha1 user configuredUser scramble response = true ↔
    user.disabled = false ∧ effectiveHash user configuredUser ≠ [] ∧
      Answers sha1 scramble (effectiveHash user configuredUser) response
  /-- A client that knows the password is let in. -/
  client : ∀ p, p ≠ "" → user.disabled = false →
    effectiveHash user configuredUser = hashPasswordMysqlNative sha1 p →
      verifyFdbMysqlNativeUser sha1 user configuredUser scramble
        (ClientAuth.mysqlNativePassword sha1 p scramble) = true
  other_length : response.length ≠ 20 →
    verifyFdbMysqlNativeUser sha1 user configuredUser scramble response = false

/-- The response is not 20 bytes long, but its first bytes, at most 20, mask a preimage of the
hash: an answer with further bytes behind it, or the mask of a shorter preimage. -/
def MisSized (scramble h response : Bytes) : Prop :=
  response ≠ [] ∧ response.length ≠ 20 ∧ ∃ s : Bytes, s.length = min response.length 20 ∧
    sha1.digest s = h ∧ response.take 20 = xorBytes s (sha1.digest (scramble ++ h))

variable {sha1} {user : UserMeta} {configuredUser : Option UserInfo}
  {scramble h response : Bytes}

/-- **What the check of the hash accepts.** -/
theorem verifyMysqlNativePassword_iff (hh : h ≠ []) :
    verifyMysqlNativePassword sha1 scramble h response = true ↔ response ≠ [] ∧
      ∃ s : Bytes, s.length = min response.length 20 ∧ sha1.digest s = h ∧
        response.take 20 = xorBytes s (sha1.digest (scramble ++ h)) := by
  have hmask := sha1.length_digest (scramble ++ h)
  by_cases hr : response = []
  · simp [verifyMysqlNativePassword, hh, hr]
  simp only [verifyMysqlNativePassword, hh, hr, or_self, false_and, if_false, decide_eq_true_eq,
    ne_eq, not_false_eq_true, true_and]
  constructor
  · intro heq
    refine ⟨_, ?_, heq, ?_⟩
    · rw [length_xorBytes, hmask]
    · rw [xorBytes_xorBytes, hmask]
  · rintro ⟨s, hlen, hs, htake⟩
    -- the zip does not look behind the first 20 bytes
    have hcut := xorBytes_take response (sha1.digest (scramble ++ h))
    rw [hmask] at hcut
    rw [← hcut, htake, xorBytes_xorBytes_of_length_le, hs]
    rw [hmask, hlen]
    exact min_le_right _ _

/-- The check of a user is the check of the hash that counts. -/
theorem verifyFdbMysqlNativeUser_iff :
    verifyFdbMysqlNativeUser sha1 user configuredUser scramble response = true ↔
      user.disabled = false ∧ effectiveHash user configuredUser ≠ [] ∧
        verifyMysqlNativePassword sha1 scramble (effectiveHash user configuredUser) response =
          true := by
  cases hdis : user.disabled with
  | true => simp [verifyFdbMysqlNativeUser, hdis]
  | false =>
    by_cases hown : user.mysqlNativeHash = []
    · cases configuredUser with
      | none => simp [verifyFdbMysqlNativeUser, effectiveHash, hdis, hown]
      | some configured =>
        by_cases hname : configured.username = user.name
        · by_cases hhash : configured.mysqlNativeHash = [] <;>
            simp [verifyFdbMysqlNativeUser, effectiveHash, Option.filter_some, hdis, hown, hname,
              hhash]
        · simp [verifyFdbMysqlNativeUser, effectiveHash, Option.filter_some, hdis, hown, hname]
    · simp [verifyFdbMysqlNativeUser, effectiveHash, hdis, hown]

/-- The client answers the scramble. -/
theorem answers_mysqlNativePassword (sha1 : Sha1) (scramble : Bytes) {p : String} (hp : p ≠ "") :
    Answers sha1 scramble (hashPasswordMysqlNative sha1 p)
      (ClientAuth.mysqlNativePassword sha1 p scramble) := by
  simp only [ClientAuth.mysqlNativePassword, hashPasswordMysqlNative, hp, if_false]
  refine ⟨?_, _, sha1.length_digest _, rfl, rfl⟩
  rw [length_xorBytes, sha1.length_digest, sha1.length_digest, min_self]

theorem hashPasswordMysqlNative_ne_nil (sha1 : Sha1) {p : String} (hp : p ≠ "") :
    hashPasswordMysqlNative sha1 p ≠ [] := by
  rw [hashPasswordMysqlNative, if_neg hp]
  exact ne_nil_of_length_eq_add_one (sha1.length_digest _)

/-- An accepted response is an answer or has the wrong size. -/
theorem verifyMysqlNativePassword_iff_or (hh : h ≠ []) :
    verifyMysqlNativePassword sha1 scramble h response = true ↔
      Answers sha1 scramble h response ∨ MisSized sha1 scramble h response := by
  rw [verifyMysqlNativePassword_iff hh]
  by_cases hlen : response.length = 20
  · have hne : response ≠ [] := ne_nil_of_length_eq_add_one hlen
    have htake : response.take 20 = response := take_of_length_le hlen.le
    simp [Answers, MisSized, hlen, hne, htake]
  · simp [Answers, MisSized, hlen]

/-- A response of the wrong size is let in. -/
theorem MisSized.verify (hmis : MisSized sha1 scramble (effectiveHash user configuredUser) response)
    (hdis : user.disabled = false) (hh : effectiveHash user configuredUser ≠ []) :
    verifyFdbMysqlNativeUser sha1 user configuredUser scramble response = true :=
  verifyFdbMysqlNativeUser_iff.2 ⟨hdis, hh, (verifyMysqlNativePassword_iff_or hh).2 (.inr hmis)⟩

/-- **Password authentication.**  It is exact unless the user is enabled, has a hash, and the
response passes the check of the hash although its size is wrong. -/
theorem passwordAuthentication_iff (sha1 : Sha1) (user : UserMeta)
    (configuredUser : Option UserInfo) (scramble response : Bytes) :
    PasswordAuthentication sha1 user configuredUser scramble response ↔
      (user.disabled = false → effectiveHash user configuredUser ≠ [] →
        ¬MisSized sha1 scramble (effectiveHash user configuredUser) response) := by
  constructor
  · rintro ⟨-, -, hother⟩ hdis hh hmis
    have hverify := hmis.verify hdis hh
    rw [hother hmis.2.1] at hverify
    cases hverify
  · intro hmis
    have hiff : verifyFdbMysqlNativeUser sha1 user configuredUser scramble response = true ↔
        user.disabled = false ∧ effectiveHash user configuredUser ≠ [] ∧
          Answers sha1 scramble (effectiveHash user configuredUser) response := by
      rw [verifyFdbMysqlNativeUser_iff]
      refine and_congr_right fun hdis => and_congr_right fun hh => ?_
      rw [verifyMysqlNativePassword_iff_or hh]
      exact or_iff_left (hmis hdis hh)
    refine ⟨hiff, fun p hp hdis heq => ?_, fun hlen => ?_⟩
    · have hh := hashPasswordMysqlNative_ne_nil sha1 hp
      rw [verifyFdbMysqlNativeUser_iff, heq]
      exact ⟨hdis, hh, (verifyMysqlNativePassword_iff_or hh).2
        (.inl (answers_mysqlNativePassword sha1 scramble hp))⟩
    · rw [Bool.eq_false_iff]
      exact fun hverify => hlen (hiff.1 hverify).2.2.1

/-- The user `root` with the password `secret`. -/
def secretUser (sha1 : Sha1) : UserMeta where
  id := 1
  name := "root"
  defaultRoleId := 1
  mysqlNativeHash := hashPasswordMysqlNative sha1 "secret"

/-- The answer of the client to a scramble, with bytes behind it, is accepted although it has
another length than 20, whatever the hash function is. -/
def AcceptsBehind (scramble behind : Bytes) : Prop :=
  ∀ (sha1 : Sha1) (response : Bytes),
    response = ClientAuth.mysqlNativePassword sha1 "secret" scramble ++ behind →
      response.length = 20 + behind.length ∧
      verifyFdbMysqlNativeUser sha1 (secretUser sha1) none scramble response = true ∧
      ¬PasswordAuthentication sha1 (secretUser sha1) none scramble response

/-- A response of 21 bytes is accepted. -/
theorem verifyFdbMysqlNativeUser_trailing : AcceptsBehind [1, 2, 3] [0] := by
  intro sha1 response hresponse
  have hh : hashPasswordMysqlNative sha1 "secret" ≠ [] :=
    hashPasswordMysqlNative_ne_nil sha1 (by decide)
  have heff : effectiveHash (secretUser sha1) none = hashPasswordMysqlNative sha1 "secret" := by
    simp [effectiveHash, secretUser, hh]
  obtain ⟨hlen, s, hs, hdigest, heq⟩ :=
    answers_mysqlNativePassword sha1 [1, 2, 3] (p := "secret") (by decide)
  have hlen' : response.length = 21 := by simp [hresponse, hlen]
  have hmis : MisSized sha1 [1, 2, 3] (effectiveHash (secretUser sha1) none) response := by
    refine ⟨ne_nil_of_length_eq_add_one hlen', by simp [hlen'], s, by simp [hlen', hs], ?_⟩
    rw [heff]
    exact ⟨hdigest, (congrArg (take 20) hresponse).trans ((take_left' hlen).trans heq)⟩
  have hverify := hmis.verify rfl (heff ▸ hh)
  refine ⟨hlen', hverify, fun hauth => ?_⟩
  rw [hauth.other_length hmis.2.1] at hverify
  cases hverify

end NovaCore
