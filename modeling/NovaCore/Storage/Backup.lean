import Mathlib.Data.List.Induction
import Mathlib.Logic.Relation
import NovaCore.Common.Types
import NovaCore.Data.Lists

/-!
# Backups and what they rest on

A backup lists micro-partitions; an incremental one lists those above a version and names the backup
it goes on from.  `restore` checks the micro-partitions of the backup that it is given and does not
follow the chain of the others.

## Main definitions

* `BackupManager` with `BackupCall.apply` : the catalogue and the calls that change it.
* `restore` : the check of one backup.
* `Intact`, `Restorable` : what a restore needs of one backup, and of its whole chain.
* `made`, `DeletedSince` : the manifests that calls have made, and the backups that they have
  deleted.

## Main results

* `backups_backupRun` : the catalogue holds what was made and not deleted since.
* `reported_iff_restorable` : **when the check of one backup speaks for its whole chain.**
-/

namespace NovaCore

open Relation List Function Option

/-- `TableBackup`. -/
structure TableBackup where
  table : TableMeta
  mpIds : List MpId
  mpCount : ℕ

/-- `BackupManifest`. -/
structure BackupManifest where
  backupId : String
  tables : List TableBackup
  totalMps : ℕ
  incrementalFrom : Option String

/-- `RestoreResult`. -/
structure RestoreResult where
  tablesRestored : ℕ
  mpsVerified : ℕ
  mpsMissing : List MpId

/-- `BackupManager`. -/
structure BackupManager where
  backups : String → Option BackupManifest := fun _ => none
  nextId : ℕ := 1

/-- `format!("backup_{:06}", n)`. -/
def backupId (n : ℕ) : String :=
  "backup_" ++ String.ofList (List.replicate (6 - (toString n).length) '0') ++ toString n

theorem backupId_injective : Function.Injective backupId := by
  refine Function.LeftInverse.injective (g := fun id => Nat.ofDigitChars 10 (id.toList.drop 7) 0) ?_
  intro n
  simp [backupId, Nat.ofDigitChars_append, Nat.ofDigitChars_replicate_zero]

namespace BackupManager

variable (mgr : BackupManager)

/-- Store a manifest of the micro-partitions that `keep` lets through, under the next id. -/
def store (tables : List TableMeta) (mps : TableId → List MicroPartitionMeta)
    (keep : MicroPartitionMeta → Bool) (incrementalFrom : Option String) :
    BackupManifest × BackupManager :=
  let tableBackups := tables.map fun table =>
    let mpIds := ((mps table.id).filter keep).map MicroPartitionMeta.mpId
    ⟨table, mpIds, mpIds.length⟩
  let id := backupId mgr.nextId
  let manifest := ⟨id, tableBackups, (tableBackups.map TableBackup.mpCount).sum, incrementalFrom⟩
  (manifest, ⟨Function.update mgr.backups id (some manifest), mgr.nextId + 1⟩)

/-- `create_backup`. -/
def createBackup (tables : List TableMeta) (mps : TableId → List MicroPartitionMeta) :
    BackupManifest × BackupManager :=
  mgr.store tables mps (fun _ => true) none

/-- `create_incremental_backup`. -/
def createIncrementalBackup (fromBackupId : String) (tables : List TableMeta)
    (mps : TableId → List MicroPartitionMeta) (cutoffVersion : ℕ) :
    Option BackupManifest × BackupManager :=
  match mgr.backups fromBackupId with
  | none => (none, mgr)
  | some _ =>
    let (manifest, mgr) :=
      mgr.store tables mps (fun m => cutoffVersion < m.version) (some fromBackupId)
    (some manifest, mgr)

/-- `delete_backup`. -/
def deleteBackup (id : String) : Bool × BackupManager :=
  ((mgr.backups id).isSome, { mgr with backups := Function.update mgr.backups id none })

/-- `restore`. -/
def restore (id : String) (existing : MpId → Bool) : Option RestoreResult :=
  (mgr.backups id).map fun manifest =>
    let ids := manifest.tables.flatMap TableBackup.mpIds
    { tablesRestored := manifest.tables.length
      mpsVerified := (ids.filter existing).length
      mpsMissing := ids.filter fun mp => !existing mp }

/-- The backup is in the catalogue and its micro-partitions exist. -/
def Intact (existing : MpId → Bool) (id : String) : Prop :=
  ∃ manifest, mgr.backups id = some manifest ∧
    ∀ mp ∈ manifest.tables.flatMap TableBackup.mpIds, existing mp = true

/-- The first backup was made to go on from the second. -/
def BasedOn (id base : String) : Prop :=
  ∃ manifest, mgr.backups id = some manifest ∧ manifest.incrementalFrom = some base

/-- `restore` returns a result without missing micro-partitions. -/
def Reported (existing : MpId → Bool) (id : String) : Prop :=
  ∃ r, mgr.restore id existing = some r ∧ r.mpsMissing = []

/-- The backup and every backup along its chain are intact. -/
def Restorable (existing : MpId → Bool) (id : String) : Prop :=
  ∀ id', ReflTransGen mgr.BasedOn id id' → mgr.Intact existing id'

theorem reported_iff {existing : MpId → Bool} {id : String} :
    mgr.Reported existing id ↔ mgr.Intact existing id := by
  simp [Reported, restore, Intact, filter_eq_nil_iff]

end BackupManager

/-! ### Runs -/

/-- A call that changes the catalogue. -/
inductive BackupCall
  | createBackup (tables : List TableMeta) (mps : TableId → List MicroPartitionMeta)
  | createIncrementalBackup (fromBackupId : String) (tables : List TableMeta)
      (mps : TableId → List MicroPartitionMeta) (cutoffVersion : ℕ)
  | deleteBackup (id : String)

/-- The catalogue after a call. -/
def BackupCall.apply (mgr : BackupManager) : BackupCall → BackupManager
  | createBackup tables mps => (mgr.createBackup tables mps).2
  | createIncrementalBackup fromBackupId tables mps cutoffVersion =>
    (mgr.createIncrementalBackup fromBackupId tables mps cutoffVersion).2
  | deleteBackup id => (mgr.deleteBackup id).2

/-- The manifest that a call makes. -/
def BackupCall.manifest (mgr : BackupManager) : BackupCall → Option BackupManifest
  | createBackup tables mps => some (mgr.createBackup tables mps).1
  | createIncrementalBackup fromBackupId tables mps cutoffVersion =>
    (mgr.createIncrementalBackup fromBackupId tables mps cutoffVersion).1
  | deleteBackup _ => none

/-- The catalogue after a sequence of calls. -/
def backupRun (calls : List BackupCall) : BackupManager := calls.foldl BackupCall.apply {}

/-- The manifests that a sequence of calls makes. -/
def madeFrom : BackupManager → List BackupCall → List BackupManifest
  | _, [] => []
  | mgr, call :: calls => (call.manifest mgr).toList ++ madeFrom (call.apply mgr) calls

variable (calls : List BackupCall) (id : String)

/-- The manifests that a sequence of calls makes from an empty catalogue. -/
def made : List BackupManifest := madeFrom {} calls

/-- The backup was made, and a later call deletes it. -/
def DeletedSince : Prop :=
  ∃ before after, calls = before ++ .deleteBackup id :: after ∧ ∃ m ∈ made before, m.backupId = id

/-- The first backup was made to go on from the second. -/
def GoesOnFrom (base : String) : Prop :=
  ∃ m ∈ made calls, m.backupId = id ∧ m.incrementalFrom = some base

/-- The micro-partitions of the backup exist. -/
def FilesExist (existing : MpId → Bool) : Prop :=
  ∀ m ∈ made calls, m.backupId = id → ∀ mp ∈ m.tables.flatMap TableBackup.mpIds, existing mp = true

section Steps

variable {calls : List BackupCall} {id : String} {call : BackupCall} {m : BackupManifest}

theorem madeFrom_append (mgr : BackupManager) (rest : List BackupCall) :
    madeFrom mgr (calls ++ rest) =
      madeFrom mgr calls ++ madeFrom (calls.foldl BackupCall.apply mgr) rest := by
  induction calls generalizing mgr with
  | nil => rfl
  | cons c calls ih => simp [madeFrom, ih]

theorem made_snoc : made (calls ++ [call]) =
    made calls ++ (call.manifest (backupRun calls)).toList := by
  simp [made, madeFrom_append, madeFrom, backupRun]

theorem backupRun_snoc : backupRun (calls ++ [call]) = call.apply (backupRun calls) :=
  foldl_append

theorem deletedSince_snoc : DeletedSince (calls ++ [call]) id ↔ DeletedSince calls id ∨
    call = .deleteBackup id ∧ ∃ m ∈ made calls, m.backupId = id := by
  constructor
  · rintro ⟨before, after, heq, hmade⟩
    obtain ⟨-, rfl, rfl⟩ | ⟨after, -, rfl⟩ := snoc_eq_append_cons.1 heq
    · exact .inr ⟨rfl, hmade⟩
    · exact .inl ⟨before, after, rfl, hmade⟩
  · rintro (⟨before, after, rfl, hmade⟩ | ⟨rfl, hmade⟩)
    · exact ⟨before, after ++ [call], by simp, hmade⟩
    · exact ⟨calls, [], rfl, hmade⟩

/-- What a call does: it stores a new manifest under the next id, removes a backup, or nothing. -/
theorem BackupCall.cases (call : BackupCall) (mgr : BackupManager) :
    (∃ m, call.manifest mgr = some m ∧ (∀ id, call ≠ .deleteBackup id) ∧
      m.backupId = backupId mgr.nextId ∧ (∀ base ∈ m.incrementalFrom, mgr.backups base ≠ none) ∧
      call.apply mgr = ⟨update mgr.backups (backupId mgr.nextId) (some m), mgr.nextId + 1⟩) ∨
    (∃ id, call = .deleteBackup id) ∨
    call.manifest mgr = none ∧ (∀ id, call ≠ .deleteBackup id) ∧ call.apply mgr = mgr := by
  cases call with
  | createBackup tables mps => exact .inl ⟨_, rfl, nofun, rfl, nofun, rfl⟩
  | deleteBackup id => exact .inr (.inl ⟨id, rfl⟩)
  | createIncrementalBackup fromId tables mps cutoff =>
    cases hbase : mgr.backups fromId with
    | none =>
      refine .inr (.inr ⟨?_, nofun, ?_⟩) <;>
        simp [manifest, apply, BackupManager.createIncrementalBackup, hbase]
    | some base =>
      refine .inl ⟨(mgr.store tables mps (fun m => cutoff < m.version) (some fromId)).1, ?_, nofun,
        rfl, ?_, ?_⟩
      · simp [manifest, BackupManager.createIncrementalBackup, hbase]
      · rintro _ ⟨⟩
        simp [hbase]
      · simp [apply, BackupManager.createIncrementalBackup, hbase]
        rfl

/-- The ids are counted up. -/
theorem exists_backupId_of_mem_made (hm : m ∈ made calls) :
    ∃ n < (backupRun calls).nextId, m.backupId = backupId n := by
  induction calls using reverseRecOn with
  | nil => cases hm
  | append_singleton calls call ih =>
    rw [made_snoc] at hm
    rw [backupRun_snoc]
    obtain ⟨new, hmanifest, -, hid, -, happly⟩ | ⟨id, rfl⟩ | ⟨hmanifest, -, happly⟩ :=
      call.cases (backupRun calls)
    · rw [hmanifest, toList_some, mem_append, mem_singleton] at hm
      rw [happly]
      obtain hold | rfl := hm
      · obtain ⟨n, hn, hid⟩ := ih hold
        exact ⟨n, Nat.lt_succ_of_lt hn, hid⟩
      · exact ⟨_, Nat.lt_succ_self _, hid⟩
    · exact ih (by simpa [BackupCall.manifest] using hm)
    · rw [happly]
      exact ih (by simpa [hmanifest] using hm)

/-- **The catalogue holds what was made and not deleted since.** -/
theorem backups_backupRun : (backupRun calls).backups id = some m ↔
    m ∈ made calls ∧ m.backupId = id ∧ ¬DeletedSince calls id := by
  induction calls using reverseRecOn with
  | nil => simp [backupRun, made, madeFrom]
  | append_singleton calls call ih =>
    rw [backupRun_snoc, made_snoc, deletedSince_snoc]
    obtain ⟨new, hmanifest, hcall, hid, -, happly⟩ | ⟨id', rfl⟩ | ⟨hmanifest, hcall, happly⟩ :=
      call.cases (backupRun calls)
    · -- the id of the new manifest is not one of the others
      have hfresh : ∀ m' ∈ made calls, m'.backupId ≠ new.backupId := by
        intro m' hm' heq
        obtain ⟨n, hn, hn'⟩ := exists_backupId_of_mem_made hm'
        rw [hn', hid] at heq
        exact hn.ne (backupId_injective heq)
      rw [happly, hmanifest, ← hid]
      simp only [toList_some, mem_append, mem_singleton, hcall, false_and, or_false]
      by_cases hnew : id = new.backupId
      · subst hnew
        have hkept : ¬DeletedSince calls new.backupId := by
          rintro ⟨before, after, rfl, m', hm', heq⟩
          refine hfresh m' ?_ heq
          rw [made, madeFrom_append]
          exact mem_append_left _ hm'
        rw [update_self]
        constructor
        · rintro ⟨⟩
          exact ⟨.inr rfl, rfl, hkept⟩
        · rintro ⟨hm | rfl, heq, -⟩
          · exact (hfresh m hm heq).elim
          · rfl
      · rw [update_of_ne hnew, ih]
        constructor
        · rintro ⟨hm, heq, hkept⟩
          exact ⟨.inl hm, heq, hkept⟩
        · rintro ⟨hm | rfl, heq, hkept⟩
          · exact ⟨hm, heq, hkept⟩
          · exact (hnew heq.symm).elim
    · by_cases hdel : id = id'
      · subst hdel
        have hnone : ((backupRun calls).deleteBackup id).2.backups id = none := update_self ..
        refine iff_of_false (by simp [BackupCall.apply, hnone]) ?_
        rintro ⟨hm, heq, hkept⟩
        exact hkept (.inr ⟨rfl, m, by simpa [BackupCall.manifest] using hm, heq⟩)
      · have hsame : ((backupRun calls).deleteBackup id').2.backups id =
          (backupRun calls).backups id := update_of_ne hdel ..
        simp [BackupCall.apply, BackupCall.manifest, hsame, ih, Ne.symm hdel]
    · rw [happly, hmanifest, ih]
      simp [hcall]

/-- A backup goes on from one that was made. -/
theorem GoesOnFrom.exists_made {base : String} (h : GoesOnFrom calls id base) :
    ∃ m ∈ made calls, m.backupId = base := by
  induction calls using reverseRecOn with
  | nil =>
    obtain ⟨m, hm, -⟩ := h
    cases hm
  | append_singleton calls call ih =>
    obtain ⟨m, hm, hid, hbase⟩ := h
    rw [made_snoc] at hm ⊢
    suffices ∃ m ∈ made calls, m.backupId = base from
      this.imp fun _ h => ⟨mem_append_left _ h.1, h.2⟩
    rcases mem_append.1 hm with hold | hnew
    · exact ih ⟨m, hold, hid, hbase⟩
    · obtain ⟨new, hmanifest, -, -, hbases, -⟩ | ⟨id', rfl⟩ | ⟨hmanifest, -, -⟩ :=
        call.cases (backupRun calls)
      · rw [hmanifest, toList_some, mem_singleton] at hnew
        subst hnew
        obtain ⟨b, hb⟩ := ne_none_iff_exists'.1 (hbases base hbase)
        obtain ⟨hmade, hb, -⟩ := backups_backupRun.1 hb
        exact ⟨b, hmade, hb⟩
      · cases hnew
      · rw [hmanifest] at hnew
        cases hnew

/-- A backup is intact exactly if it was made, not deleted since, and its files exist. -/
theorem intact_iff {existing : MpId → Bool} : (backupRun calls).Intact existing id ↔
    (∃ m ∈ made calls, m.backupId = id) ∧ ¬DeletedSince calls id ∧
      FilesExist calls id existing := by
  constructor
  · rintro ⟨m, hm, hfiles⟩
    obtain ⟨hmade, hid, hkept⟩ := backups_backupRun.1 hm
    refine ⟨⟨m, hmade, hid⟩, hkept, fun m' hm' hid' => ?_⟩
    obtain rfl := mem_unique hm (backups_backupRun.2 ⟨hm', hid', hkept⟩)
    exact hfiles
  · rintro ⟨⟨m, hmade, hid⟩, hkept, hfiles⟩
    exact ⟨m, backups_backupRun.2 ⟨hmade, hid, hkept⟩, hfiles m hmade hid⟩

theorem basedOn_iff {base : String} : (backupRun calls).BasedOn id base ↔
    GoesOnFrom calls id base ∧ ¬DeletedSince calls id := by
  simp only [BackupManager.BasedOn, backups_backupRun, GoesOnFrom]
  grind

end Steps

/-- **When the check of one backup speaks for its whole chain.**  After any calls, `restore` reports
exactly the restorable backups if and only if, for a backup that was not deleted since it was made
and whose micro-partitions exist, no call has deleted a backup that it goes on from, over any number
of steps, and the micro-partitions of all these exist too. -/
theorem reported_iff_restorable (existing : MpId → Bool) :
    ((backupRun calls).Reported existing id ↔ (backupRun calls).Restorable existing id) ↔
      ((∃ m ∈ made calls, m.backupId = id) → ¬DeletedSince calls id → FilesExist calls id existing →
        ∀ base, TransGen (GoesOnFrom calls) id base →
          ¬DeletedSince calls base ∧ FilesExist calls base existing) := by
  rw [BackupManager.reported_iff]
  constructor
  · intro h hmade hkept hfiles base hpath
    have hall := h.1 (intact_iff.2 ⟨hmade, hkept, hfiles⟩)
    -- up to the first deleted backup the chain is the one in the catalogue, and it has none
    have hchain : ReflTransGen (backupRun calls).BasedOn id base := by
      induction hpath with
      | single hbase => exact .single (basedOn_iff.2 ⟨hbase, hkept⟩)
      | tail _ hbase ih =>
        exact ih.tail (basedOn_iff.2 ⟨hbase, (intact_iff.1 (hall _ ih)).2.1⟩)
    exact (intact_iff.1 (hall base hchain)).2
  · refine fun h => ⟨fun hintact id' hpath => ?_, fun hall => hall id .refl⟩
    obtain ⟨hmade, hkept, hfiles⟩ := intact_iff.1 hintact
    rcases reflTransGen_iff_eq_or_transGen.1 hpath with rfl | hpath
    · exact hintact
    · have hpath := TransGen.mono (fun _ _ hbase => (basedOn_iff.1 hbase).1) _ _ hpath
      have hlast : ∃ m ∈ made calls, m.backupId = id' := by
        cases hpath with
        | single hbase | tail _ hbase => exact hbase.exists_made
      exact intact_iff.2 ⟨hlast, h hmade hkept hfiles id' hpath⟩

/-- A full backup with micro-partition 7, an incremental one on top with 8, and the full one
deleted. -/
def deletedBase : List BackupCall :=
  let tables : List TableMeta := [⟨1, 1, 1, "t", []⟩]
  let mps : TableId → List MicroPartitionMeta := fun _ =>
    [⟨7, 1, 1, .perm 1 7 1, none, 1, 0, 1, none, none, true⟩,
      ⟨8, 1, 2, .perm 1 8 2, none, 1, 0, 2, none, none, true⟩]
  [.createBackup tables mps, .createIncrementalBackup "backup_000001" tables mps 1,
    .deleteBackup "backup_000001"]

/-- The incremental backup is reported as restorable although its base is gone. -/
theorem deletedBase_reported : (backupRun deletedBase).Reported (· == 8) "backup_000002" ∧
    ¬(backupRun deletedBase).Restorable (· == 8) "backup_000002" := by
  refine ⟨⟨_, rfl, rfl⟩, fun h => ?_⟩
  obtain ⟨_, hnone, -⟩ := h "backup_000001" (.single ⟨_, rfl, rfl⟩)
  cases hnone

end NovaCore
