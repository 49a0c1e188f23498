import NovaCore.Executor.Alone
import NovaCore.Executor.Session
import NovaCore.Storage.Query

/-!
# Executing a fragment on a worker

A fragment request carries the SQL and, for each table, its name and the micro-partitions the
coordinator assigned.  `execute_fragment_inner` looks the name up in its own metadata, in the first
database and schema that has such a table, registers the table with the listed micro-partitions,
and runs the SQL.  An empty list is taken as "no list": the table is then registered with the
micro-partitions that are active now.

## Main definitions

* `registrations` : the tables and micro-partitions the SQL sees.
* `executeFragmentInner` : the answer.
* `Assigned` : a table and its micro-partitions as the coordinator means them.

## Main results

* `fragment_reads_assigned_iff` : **the SQL sees exactly what was assigned** if and only if every
  table is the first one of its name in the worker's metadata, a table without micro-partitions has
  no active ones, and no two tables are registered under one name.
* `fragment_reads_other_rows` : an empty list reads the active rows, and a name that two databases
  have reads the wrong table.
-/

namespace NovaCore.Workers

open List

/-- `MicroPartitionInfo`. -/
structure MicroPartitionInfo where
  mpId : MpId
  s3Path : MpPath
  rowCount : ℕ
  deriving DecidableEq

/-- `TableSnapshot`. -/
structure TableSnapshot where
  tableName : String
  mps : List MicroPartitionInfo
  deriving DecidableEq

/-- `FragmentRequest`. -/
structure FragmentRequest where
  fragmentId : ℕ
  sql : String
  tables : List TableSnapshot
  deriving DecidableEq

/-- `snapshot_mp_to_meta`. -/
def snapshotMpToMeta (tableId : TableId) (mp : MicroPartitionInfo) : MicroPartitionMeta where
  mpId := mp.mpId
  tableId := tableId
  version := 0
  s3Path := mp.s3Path
  s3TempPath := none
  rowCount := mp.rowCount
  commitTs := 0
  txnId := 0
  supersedes := none
  supersededBy := none
  active := true

variable (cat : Catalog)

/-- The tables of the catalogue in the order in which databases, schemas and tables are listed. -/
def tablesListed : List TableMeta :=
  cat.listDatabases.flatMap fun db =>
    (cat.listSchemas db.id).flatMap fun schema => cat.listTables db.id schema.id

/-- The search for a table in `execute_fragment_inner`. -/
def findTableByName (name : String) : Option TableMeta :=
  cat.listDatabases.findSome? fun db =>
    (cat.listSchemas db.id).findSome? fun schema =>
      (cat.listTables db.id schema.id).find? fun t => t.name = name

/-- The table is listed, and none that is listed before it has its name. -/
def FirstOfName (t : TableMeta) : Prop :=
  ∃ before after, tablesListed cat = before ++ t :: after ∧ ∀ s ∈ before, s.name ≠ t.name

theorem findTableByName_eq_some_iff {cat : Catalog} {t : TableMeta} :
    findTableByName cat t.name = some t ↔ FirstOfName cat t := by
  have hfind : findTableByName cat t.name = (tablesListed cat).find? fun s => s.name = t.name := by
    simp only [findTableByName, tablesListed, find?_flatMap]
  rw [hfind, find?_eq_some_iff_append]
  simp [FirstOfName]

variable (canon : String → String) (w : World)

/-- The micro-partitions a snapshot is registered with. -/
def mpsFor (t : TableMeta) (snapshot : TableSnapshot) : List MicroPartitionMeta :=
  if snapshot.mps.isEmpty then w.getActiveMps t.id
  else snapshot.mps.map (snapshotMpToMeta t.id)

/-- The loop over the snapshots.  The query engine files a table under `canon` of its name and
refuses a name it has `seen` with an execution error. -/
def registerSnapshots (fragmentId : ℕ) (seen : List String) :
    List TableSnapshot → Except String (List (TableMeta × List MicroPartitionMeta))
  | [] => .ok []
  | snapshot :: rest =>
    match findTableByName w.catalog snapshot.tableName with
    | none => .error ("table '" ++ snapshot.tableName ++ "' not found in metadata")
    | some t =>
      if canon t.name ∈ seen then
        .error ("register table '" ++ t.name ++ "' for fragment " ++ toString fragmentId ++
          ": Execution error: The table " ++ canon t.name ++ " already exists")
      else (registerSnapshots fragmentId (canon t.name :: seen) rest).map
        ((t, mpsFor w t snapshot) :: ·)

/-- The tables the SQL of a request sees, in the order in which they are registered. -/
def registrations (req : FragmentRequest) :
    Except String (List (TableMeta × List MicroPartitionMeta)) :=
  if req.tables.isEmpty then .error "no tables in fragment request"
  else registerSnapshots canon w req.fragmentId [] req.tables

/-- `execute_fragment_inner`. -/
def executeFragmentInner (engine : QueryEngine) (req : FragmentRequest) :
    Except String (List RecordBatch) := do
  let tables ← registrations canon w req
  engine req.sql (tables.map w.sourceTable)

/-- A table and the micro-partitions of it that the coordinator assigned. -/
abbrev Assigned := TableMeta × List MicroPartitionInfo

variable (a : Assigned)

/-- The snapshot the coordinator sends. -/
def Assigned.snapshot : TableSnapshot := ⟨a.1.name, a.2⟩

/-- The table as the SQL should see it. -/
def Assigned.registration : TableMeta × List MicroPartitionMeta :=
  (a.1, a.2.map (snapshotMpToMeta a.1.id))

/-- The worker finds the table that was meant, and an empty list is no surprise. -/
def Assigned.Found : Prop :=
  FirstOfName w.catalog a.1 ∧ (a.2 = [] → w.getActiveMps a.1.id = [])

variable {canon w}

/-- The micro-partitions are those of the list, or there are none at all. -/
theorem mpsFor_snapshot_iff {a : Assigned} :
    mpsFor w a.1 a.snapshot = a.registration.2 ↔ (a.2 = [] → w.getActiveMps a.1.id = []) := by
  cases hmps : a.2 with
  | nil | cons mp mps => simp [mpsFor, Assigned.snapshot, Assigned.registration, hmps]

variable {fragmentId : ℕ}

/-- One round of the loop. -/
theorem registerSnapshots_cons_iff {seen : List String} {snapshot : TableSnapshot}
    {rest : List TableSnapshot} {t : TableMeta} {mps : List MicroPartitionMeta}
    {regs : List (TableMeta × List MicroPartitionMeta)} :
    registerSnapshots canon w fragmentId seen (snapshot :: rest) = .ok ((t, mps) :: regs) ↔
      findTableByName w.catalog snapshot.tableName = some t ∧ mpsFor w t snapshot = mps ∧
        canon t.name ∉ seen ∧
        registerSnapshots canon w fragmentId (canon t.name :: seen) rest = .ok regs := by
  rw [registerSnapshots]
  cases findTableByName w.catalog snapshot.tableName with
  | none => simp
  | some s =>
    simp only [Option.some.injEq]
    split_ifs with hs
    · simp only [false_iff]
      rintro ⟨rfl, -, hns, -⟩
      exact hns hs
    · constructor
      · intro h
        cases hr : registerSnapshots canon w fragmentId (canon s.name :: seen) rest with
        | error e => rw [hr] at h; cases h
        | ok regs' => rw [hr] at h; cases h; exact ⟨rfl, rfl, hs, hr⟩
      · rintro ⟨rfl, rfl, -, hr⟩
        rw [hr]
        rfl

/-- The loop registers what was assigned, by induction on the snapshots. -/
theorem registerSnapshots_eq_ok_iff {seen : List String} {assigned : List Assigned} :
    registerSnapshots canon w fragmentId seen (assigned.map Assigned.snapshot) =
        .ok (assigned.map Assigned.registration) ↔
      (∀ a ∈ assigned, a.Found w ∧ canon a.1.name ∉ seen) ∧
        (assigned.map fun a => canon a.1.name).Nodup := by
  induction assigned generalizing seen with
  | nil => simp [registerSnapshots]
  | cons a rest ih =>
    have hstep : registerSnapshots canon w fragmentId seen
          ((a :: rest).map Assigned.snapshot) = .ok ((a :: rest).map Assigned.registration) ↔
        (a.Found w ∧ canon a.1.name ∉ seen) ∧
          registerSnapshots canon w fragmentId (canon a.1.name :: seen)
            (rest.map Assigned.snapshot) = .ok (rest.map Assigned.registration) := by
      rw [Assigned.Found, ← findTableByName_eq_some_iff, ← mpsFor_snapshot_iff, and_assoc,
        and_assoc]
      exact registerSnapshots_cons_iff
    rw [hstep, ih, forall_mem_cons, map_cons, nodup_cons]
    simp only [mem_cons, not_or, mem_map, not_exists, not_and]
    constructor
    · rintro ⟨ha, hrest, hnodup⟩
      exact ⟨⟨ha, fun b hb => ⟨(hrest b hb).1, (hrest b hb).2.2⟩⟩,
        fun b hb => (hrest b hb).2.1, hnodup⟩
    · rintro ⟨⟨ha, hrest⟩, hnew, hnodup⟩
      exact ⟨ha, fun b hb => ⟨(hrest b hb).1, hnew b hb, (hrest b hb).2⟩, hnodup⟩

theorem registrations_eq_ok_iff {sql : String} {assigned : List Assigned} :
    registrations canon w ⟨fragmentId, sql, assigned.map Assigned.snapshot⟩ =
        .ok (assigned.map Assigned.registration) ↔
      assigned ≠ [] ∧ (assigned.map fun a => canon a.1.name).Nodup ∧ ∀ a ∈ assigned, a.Found w := by
  by_cases hne : assigned = []
  · simp [hne, registrations]
  · have hloop : registrations canon w ⟨fragmentId, sql, assigned.map Assigned.snapshot⟩ =
        registerSnapshots canon w fragmentId [] (assigned.map Assigned.snapshot) := by
      simp [registrations, hne]
    rw [hloop, registerSnapshots_eq_ok_iff, and_comm]
    simp [hne]

/-- **A fragment reads what was assigned.**  The SQL of a request sees each table with exactly the
micro-partitions assigned to it, if and only if there is a table, no two tables are filed under one
name, every table is the first one of its name in the worker's metadata, and a table that was
assigned nothing has no active micro-partitions. -/
theorem fragment_reads_assigned_iff (canon : String → String) (w : World) (fragmentId : ℕ)
    (sql : String) (assigned : List Assigned) :
    (registrations canon w ⟨fragmentId, sql, assigned.map Assigned.snapshot⟩ =
        .ok (assigned.map Assigned.registration) ∧
      ∀ engine : QueryEngine,
        executeFragmentInner canon w engine ⟨fragmentId, sql, assigned.map Assigned.snapshot⟩ =
          engine sql ((assigned.map Assigned.registration).map w.sourceTable)) ↔
      assigned ≠ [] ∧ (assigned.map fun a => canon a.1.name).Nodup ∧
        ∀ a ∈ assigned, FirstOfName w.catalog a.1 ∧ (a.2 = [] → w.getActiveMps a.1.id = []) := by
  refine Iff.trans ⟨fun h => h.1, fun h => ⟨h, fun engine => ?_⟩⟩ registrations_eq_ok_iff
  rw [executeFragmentInner, h]
  rfl

/-- Two databases, each with a table `t`; only the first one has a row. -/
def twinDatabases : World :=
  { oneRow with
    catalog := { oneRow.catalog with
      databases := oneRow.catalog.databases.insert 2 ⟨2, "e"⟩
      tables := fun db _ =>
        (∅ : OMap TableMeta).insert db { sampleTable with id := db, dbId := db } } }

/-- **A fragment reads other rows**: a table that is assigned no micro-partition is read as it is
now, and the table `t` of the second database is read with the metadata of the first one's. -/
theorem fragment_reads_other_rows :
    registrations id oneRow ⟨1, "SELECT * FROM t", [⟨"t", []⟩]⟩ = .ok [(sampleTable, [sampleMp])] ∧
      registrations id twinDatabases
          ⟨1, "SELECT * FROM t",
            [Assigned.snapshot ({ sampleTable with id := 2, dbId := 2 }, [])]⟩ =
        .ok [(sampleTable, [sampleMp])] := by
  decide +kernel

end NovaCore.Workers
