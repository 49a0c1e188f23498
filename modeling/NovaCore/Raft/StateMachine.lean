import NovaCore.Data.Text
import NovaCore.Dynamic.Tables
import NovaCore.Metadata.Identity
import NovaCore.Metadata.Keys
import NovaCore.Raft.LogStore

/-!
# The replicated state machine

Every coordinator node applies the committed entries to one shared metadata store.  CREATE DATABASE
looks for the name and creates the database in further transactions; the other commands do nothing
and answer with success.  So the store follows the log if the log creates databases, no node stores
a database between the listing and the store of another node that creates one of the same name, and
no transaction of a create fails.  That the identifiers differ is the counter's work.

## Main definitions

* `CoordinatorStateMachine.apply`, `InMemoryStateMachine.apply` : a command, and the entries of a
  node.
* `Replica` : the purpose: databases, tables and micro-partitions as the log says.
* `Undisturbed` : no other node has stored the name since the node listed the databases.

## Main results

* `stateMachine_replicates` : **replicas of a log of databases agree with the log** under any
  interleaving and any replay.
* `replicas_diverge` : a table is answered with success and not created, and a database is created
  twice.
-/

namespace NovaCore.Raft

open Prog List OMap Protocol

/-- `RaftRequest`. -/
inductive RaftRequest
  | createDatabase (name : String)
  | createTable (db schema table : String) (columns : List (String × String × Bool))
  | dropTable (db table : String)
  | commitMp (tableId : TableId) (s3Path : String) (rowCount : ℕ)
  deriving DecidableEq

/-- `RaftResponse`. -/
structure RaftResponse where
  success : Bool := false
  message : String := ""
  assignedId : Option ℕ := none
  deriving DecidableEq

/-- `EntryPayload`, with members of type `M`. -/
inductive EntryPayload (M : Type)
  | blank
  | normal (req : RaftRequest)
  | membership (members : M)

/-- Names that `eq_ignore_ascii_case` takes for one. -/
def sameName (a b : String) : Bool := Str.eqIgnoreAsciiCase a.toList b.toList

variable (display : NovaError → String)

/-- `CoordinatorStateMachine::apply`; `display` is the text of an error. -/
def CoordinatorStateMachine.apply : RaftRequest → Meta RaftResponse
  | .createDatabase name => do
    let dbs ← okOrNone (storage (await .listDatabases))
    if (dbs.getD []).any (fun db => sameName db.name name) then
      return { success := true, message := "database " ++ name ++ " already exists" }
    match ← attempt (createDatabase ⟨0, name⟩) with
    | .ok _ => return { success := true, message := "database " ++ name ++ " created" }
    | .error e => return { message := display e }
  | .createTable db _ table _ =>
    return { success := true, message := "table " ++ db ++ "." ++ table ++ " created" }
  | .dropTable db table =>
    return { success := true, message := "table " ++ db ++ "." ++ table ++ " dropped" }
  | .commitMp tableId _ rowCount =>
    return { success := true,
             message := "MP committed: table=" ++ toString tableId ++ ", rows=" ++
               toString rowCount }

/-- `InMemoryStateMachine`, without the store, which all nodes share. -/
structure InMemoryStateMachine (M : Type) where
  lastApplied : Option LogId := none
  lastMembership : Option (LogId × M) := none

variable {M : Type} (m : InMemoryStateMachine M)

/-- The fields of the machine after an entry. -/
def InMemoryStateMachine.record (entry : Entry (EntryPayload M)) : InMemoryStateMachine M where
  lastApplied := some entry.logId
  lastMembership :=
    match entry.payload with
    | .membership members => some (entry.logId, members)
    | _ => m.lastMembership

/-- The body of the loop of `InMemoryStateMachine::apply`. -/
def InMemoryStateMachine.applyEntry (display : NovaError → String)
    (acc : InMemoryStateMachine M × List RaftResponse) (entry : Entry (EntryPayload M)) :
    Meta (InMemoryStateMachine M × List RaftResponse) := do
  match entry.payload with
  | .normal req =>
    let resp ← CoordinatorStateMachine.apply display req
    return (acc.1.record entry, acc.2 ++ [resp])
  | _ => return (acc.1.record entry, acc.2 ++ [({} : RaftResponse)])

/-- `InMemoryStateMachine::apply`. -/
def InMemoryStateMachine.apply (display : NovaError → String) (m : InMemoryStateMachine M)
    (entries : List (Entry (EntryPayload M))) : Meta (InMemoryStateMachine M × List RaftResponse) :=
  entries.foldlM (applyEntry display) (m, [])

/-- `SnapshotMeta`; the snapshot itself is empty. -/
structure SnapshotMeta (M : Type) where
  lastLogId : Option LogId
  lastMembership : Option (LogId × M)

/-- `build_snapshot` of the machine's builder. -/
def InMemoryStateMachine.buildSnapshot : SnapshotMeta M :=
  ⟨m.lastApplied, m.lastMembership⟩

/-- `install_snapshot`. -/
def InMemoryStateMachine.installSnapshot (_ : InMemoryStateMachine M) (snapshot : SnapshotMeta M) :
    InMemoryStateMachine M :=
  ⟨snapshot.lastLogId, snapshot.lastMembership⟩

/-! ### What the log says -/

/-- Databases, tables and micro-partitions. -/
structure Replica where
  databases : List String := []
  tables : List (String × String × String) := []
  mps : List (TableId × String × ℕ) := []

/-- A command on the functional model. -/
def Replica.apply (r : Replica) : RaftRequest → Replica
  | .createDatabase name =>
    if r.databases.any (sameName · name) then r else { r with databases := r.databases ++ [name] }
  | .createTable db schema table _ =>
    { r with tables := r.tables.filter (· ≠ (db, schema, table)) ++ [(db, schema, table)] }
  | .dropTable db table =>
    { r with tables := r.tables.filter fun t => ¬(t.1 = db ∧ t.2.2 = table) }
  | .commitMp tableId s3Path rowCount =>
    { r with mps := r.mps.filter (· ≠ (tableId, s3Path, rowCount)) ++
        [(tableId, s3Path, rowCount)] }

/-- The log applied once in order. -/
def Replica.ofLog (log : List RaftRequest) : Replica := log.foldl Replica.apply {}

/-- The store holds exactly what the functional model says, each once. -/
structure Replica.Matches (r : Replica) (st : Store) : Prop where
  databases : (st.catalog.listDatabases.map DatabaseMeta.name).Perm r.databases
  tables : ∀ db schema table, (db, schema, table) ∈ r.tables ↔
    ∃ t, st.catalog.findTable db schema table = .ok t
  mps : ∀ tableId rowCount, (∃ path, (tableId, path, rowCount) ∈ r.mps) ↔
    ∃ id mp, st.mps id = some mp ∧ mp.tableId = tableId ∧ mp.rowCount = rowCount

/-- The effect of a command is in the store. -/
def RaftRequest.Done (st : Store) : RaftRequest → Prop
  | .createDatabase name => ∃ db ∈ st.catalog.listDatabases, sameName db.name name = true
  | .createTable db schema table _ => ∃ t, st.catalog.findTable db schema table = .ok t
  | .dropTable db table => ∀ schema t, st.catalog.findTable db schema table ≠ .ok t
  | .commitMp tableId _ rowCount =>
    ∃ id mp, st.mps id = some mp ∧ mp.tableId = tableId ∧ mp.rowCount = rowCount

/-- A log that only creates databases, whose names are told apart whatever their letter case. -/
structure OnlyDatabases (log : List RaftRequest) : Prop where
  only : ∀ req ∈ log, ∃ name, req = .createDatabase name
  apart : ∀ a b, .createDatabase a ∈ log → .createDatabase b ∈ log → sameName a b = true → a = b

theorem sameName_self {a : String} : sameName a a = true := by
  simp [sameName, Str.eqIgnoreAsciiCase]

variable {log : List RaftRequest} {name : String} {st : Store}

theorem OnlyDatabases.ofLog (h : OnlyDatabases log) :
    (∀ name, name ∈ (Replica.ofLog log).databases ↔ .createDatabase name ∈ log) ∧
      (Replica.ofLog log).databases.Nodup ∧ (Replica.ofLog log).tables = [] ∧
      (Replica.ofLog log).mps = [] := by
  induction log using reverseRecOn with
  | nil => exact ⟨fun name => by simp [Replica.ofLog], nodup_nil, rfl, rfl⟩
  | append_singleton log req ih =>
    obtain ⟨hmem, hnodup, htables, hmps⟩ := ih ⟨fun r hr => h.only r (mem_append_left _ hr),
      fun a b ha hb => h.apart a b (mem_append_left _ ha) (mem_append_left _ hb)⟩
    obtain ⟨name, rfl⟩ := h.only req (by simp)
    have hfold : Replica.ofLog (log ++ [.createDatabase name]) =
        (Replica.ofLog log).apply (.createDatabase name) := by simp [Replica.ofLog]
    rw [hfold, Replica.apply]
    split_ifs with hany
    · -- a name equal up to case is the name itself
      obtain ⟨old, hold, hsame⟩ := any_eq_true.1 hany
      have hlog := (hmem old).1 hold
      obtain rfl : old = name := h.apart old name (mem_append_left _ hlog) (by simp) hsame
      refine ⟨fun n => (hmem n).trans ⟨mem_append_left _, fun hn => ?_⟩, hnodup, htables, hmps⟩
      rcases mem_snoc.1 hn with hn | hn
      · exact hn
      · cases hn
        exact hlog
    · refine ⟨fun n => by simp [hmem], ?_, htables, hmps⟩
      refine nodup_append.2 ⟨hnodup, nodup_singleton name, ?_⟩
      rintro a ha b hb rfl
      obtain rfl := mem_singleton.1 hb
      exact hany (any_eq_true.2 ⟨_, ha, sameName_self⟩)

/-! ### One node -/

/-- The operations of a node that applies commands of the log: a database is stored after a listing
without its name, under the identifier taken from the counter. -/
def ApplyMay (log : List RaftRequest) (s : List (Event MetaOp MetaOp.Res)) : MetaOp → Prop
  | .storage .listDatabases => True
  | .txn (.takeNextId .database) => True
  | .txn (.setDatabase db) => .createDatabase db.name ∈ log ∧
      ∃ s₁ r, s = s₁ ++ [⟨.storage .listDatabases, r⟩, idEvent .database db.id] ∧
        ∀ dbs, r = .ok dbs → ∀ old ∈ dbs, sameName old.name db.name = false
  | _ => False

/-- The protocol of a node, which remembers its own events. -/
def applyProtocol (log : List RaftRequest) :
    Protocol MetaOp MetaOp.Res (List (Event MetaOp MetaOp.Res)) :=
  .ofEvents (ApplyMay log)

/-- A node has seen or stored a database of the name. -/
def Shown (es : List (Event MetaOp MetaOp.Res)) (name : String) : Prop :=
  (∃ dbs, ⟨.storage .listDatabases, .ok dbs⟩ ∈ es ∧ ∃ db ∈ dbs, sameName db.name name = true) ∨
    ∃ db, ⟨.txn (.setDatabase db), .ok ()⟩ ∈ es ∧ db.name = name

theorem Shown.mono {es fs : List (Event MetaOp MetaOp.Res)} (h : Shown es name) (hsub : es ⊆ fs) :
    Shown fs name :=
  h.imp (fun ⟨dbs, hdbs, h⟩ => ⟨dbs, hsub hdbs, h⟩) fun ⟨db, hdb, h⟩ => ⟨db, hsub hdb, h⟩

/-- No operation failed. -/
def NoFailure (es : List (Event MetaOp MetaOp.Res)) : Prop := ∀ e ∈ es, ∃ a, e.2 = .ok a

theorem listDatabases_follows (log : List RaftRequest) (s : List (Event MetaOp MetaOp.Res)) :
    FollowsE (applyProtocol log)
      (fun s' dbs => ∃ r, s' = s ++ [⟨.storage .listDatabases, r⟩] ∧ dbs = r.toOption)
      (fun _ => False) (okOrNone (storage (await .listDatabases))) s :=
  ⟨trivial, fun r => ⟨r, rfl, rfl⟩⟩

theorem createDatabase_shows (hlog : .createDatabase name ∈ log)
    (s : List (Event MetaOp MetaOp.Res)) {r : Except NovaError (List DatabaseMeta)}
    (hnone : ∀ dbs, r = .ok dbs → ∀ old ∈ dbs, sameName old.name name = false) :
    FollowsE (applyProtocol log)
      (fun s' r => s ⊆ s' ∧ (r = .ok () → Shown s' name) ∧ (NoFailure s' → r = .ok ()))
      (fun _ => False) (attempt (createDatabase ⟨0, name⟩))
        (s ++ [⟨.storage .listDatabases, r⟩]) := by
  have hfailed : ∀ (s : List (Event MetaOp MetaOp.Res)) (o : MetaOp) (e : NovaError),
      ¬NoFailure (s ++ [⟨o, .error e⟩]) := by
    intro s o e h
    obtain ⟨a, ha⟩ := h ⟨o, .error e⟩ (mem_append_right _ mem_cons_self)
    cases ha
  have hnot : ∀ e : NovaError, (.error e : Except NovaError Unit) ≠ .ok () := by simp
  refine ⟨trivial, fun r1 => ?_⟩
  cases r1 with
  | error e => exact ⟨fun _ h => by simp [applyProtocol, ofEvents, h],
      fun h => absurd h (hnot e), fun h => absurd h (hfailed _ _ e)⟩
  | ok id =>
    refine ⟨⟨hlog, s, r, by simp [applyProtocol, ofEvents, idEvent], hnone⟩, fun r2 => ?_⟩
    have hsub : s ⊆ s ++ [⟨.storage .listDatabases, r⟩] ++
        [⟨.txn (.takeNextId .database), .ok id⟩] ++
          [⟨.txn (.setDatabase ⟨id, name⟩), r2⟩] := by simp
    cases r2 with
    | error e => exact ⟨hsub, fun h => absurd h (hnot e), fun h => absurd h (hfailed _ _ e)⟩
    | ok a =>
      refine ⟨hsub, fun _ => .inr ⟨⟨id, name⟩, ?_, rfl⟩, fun _ => rfl⟩
      exact mem_append_right _ mem_cons_self

/-- A node answers a create with success after it has seen or stored the database. -/
theorem apply_follows {display : NovaError → String} (hlog : .createDatabase name ∈ log)
    (s : List (Event MetaOp MetaOp.Res)) :
    FollowsE (applyProtocol log) (fun s' resp => s ⊆ s' ∧ (resp.success = true → Shown s' name) ∧
        (NoFailure s' → resp.success = true)) (fun _ => False)
      (CoordinatorStateMachine.apply display (.createDatabase name)) s := by
  refine followsE_bind (listDatabases_follows log s) ?_
  rintro _ _ ⟨r, rfl, rfl⟩
  split_ifs with hany
  · refine followsE_pure ⟨subset_append_left _ _, fun _ => .inl ?_, fun _ => rfl⟩
    obtain ⟨db, hdb, hsame⟩ := any_eq_true.1 hany
    cases r with
    | error e => cases hdb
    | ok l => exact ⟨l, mem_append_right _ mem_cons_self, db, hdb, hsame⟩
  · have hnone : ∀ dbs, r = .ok dbs → ∀ old ∈ dbs, sameName old.name name = false := by
      rintro dbs rfl old hold
      exact Bool.eq_false_iff.2 fun hsame => hany (any_eq_true.2 ⟨old, hold, hsame⟩)
    refine followsE_bind (createDatabase_shows hlog s hnone) fun s2 r hr => ?_
    cases r with
    | ok a => exact followsE_pure ⟨hr.1, fun _ => hr.2.1 rfl, fun _ => rfl⟩
    | error e => exact followsE_pure ⟨hr.1, nofun, fun h => nomatch hr.2.2 h⟩

variable (entries : List (Entry (EntryPayload M)))

/-- The commands of a node's entries. -/
def commands : List RaftRequest :=
  entries.filterMap fun e => match e.payload with
    | .normal req => some req
    | _ => none

/-- The answers to the commands, of those to all entries. -/
def answered (responses : List RaftResponse) : List (RaftRequest × RaftResponse) :=
  (entries.zip responses).filterMap fun x => match x.1.payload with
    | .normal req => some (req, x.2)
    | _ => none

/-- What a node has seen of the commands that it answered. -/
structure Answers (responses : List RaftResponse) (s : List (Event MetaOp MetaOp.Res)) : Prop where
  length : responses.length = entries.length
  all : (answered entries responses).map Prod.fst = commands entries
  shown : ∀ y ∈ answered entries responses, y.2.success = true →
    ∃ name, y.1 = .createDatabase name ∧ Shown s name
  success : NoFailure s → ∀ y ∈ answered entries responses, y.2.success = true

/-- One more entry. -/
theorem Answers.snoc {done : List (Entry (EntryPayload M))} {responses : List RaftResponse}
    {s s' : List (Event MetaOp MetaOp.Res)} (h : Answers done responses s) (hsub : s ⊆ s')
    {e : Entry (EntryPayload M)} {resp : RaftResponse}
    (hresp : ∀ req, e.payload = .normal req → (resp.success = true →
      ∃ name, req = .createDatabase name ∧ Shown s' name) ∧ (NoFailure s' → resp.success = true)) :
    Answers (done ++ [e]) (responses ++ [resp]) s' := by
  have hanswered : answered (done ++ [e]) (responses ++ [resp]) =
      answered done responses ++ answered [e] [resp] := by
    simp [answered, zip_append h.length.symm]
  have hone : ∀ y ∈ answered [e] [resp], e.payload = .normal y.1 ∧ y.2 = resp := by
    intro y hy
    cases hp : e.payload <;> simp [answered, hp] at hy
    simp [hy]
  refine ⟨by simp [h.length], ?_, ?_, ?_⟩
  · have hlast : (answered [e] [resp]).map Prod.fst = commands [e] := by
      cases hp : e.payload <;> simp [answered, commands, hp]
    have hcommands : commands (done ++ [e]) = commands done ++ commands [e] := by simp [commands]
    rw [hanswered, map_append, h.all, hlast, hcommands]
  · intro y hy hsuccess
    rcases mem_append.1 (hanswered ▸ hy) with hy | hy
    · obtain ⟨name, hname, hshown⟩ := h.shown y hy hsuccess
      exact ⟨name, hname, hshown.mono hsub⟩
    · obtain ⟨hp, heq⟩ := hone y hy
      exact (hresp y.1 hp).1 (heq ▸ hsuccess)
  · intro hno y hy
    rcases mem_append.1 (hanswered ▸ hy) with hy | hy
    · exact h.success (fun e he => hno e (hsub he)) y hy
    · obtain ⟨hp, heq⟩ := hone y hy
      exact heq ▸ (hresp y.1 hp).2 hno

/-- A node that applies entries of the log. -/
theorem applyEntries_follows {display : NovaError → String} (hlog : OnlyDatabases log)
    {entries : List (Entry (EntryPayload M))} (hentries : commands entries ⊆ log)
    (m : InMemoryStateMachine M) :
    FollowsE (applyProtocol log)
      (fun s x => x.1 = entries.foldl InMemoryStateMachine.record m ∧ Answers entries x.2 s)
      (fun _ => False) (InMemoryStateMachine.apply display m entries) [] := by
  refine followsE_foldlM (fun done (acc : InMemoryStateMachine M × List RaftResponse) s =>
    acc.1 = done.foldl InMemoryStateMachine.record m ∧ Answers done acc.2 s) ?_
    ⟨rfl, rfl, rfl, nofun, nofun⟩
  rintro done e rest ⟨m', responses⟩ s rfl ⟨rfl, h⟩
  unfold InMemoryStateMachine.applyEntry
  split
  · next req hp =>
    have hreq : req ∈ commands (done ++ e :: rest) := mem_filterMap.2 ⟨e, by simp, by rw [hp]⟩
    obtain ⟨name, rfl⟩ := hlog.only req (hentries hreq)
    refine followsE_bind (apply_follows (hentries hreq) s) fun s' resp hr => ?_
    refine followsE_pure ⟨by simp, h.snoc hr.1 fun req' hreq' => ?_⟩
    obtain rfl : RaftRequest.createDatabase name = req' :=
      EntryPayload.normal.inj (hp.symm.trans hreq')
    exact ⟨fun hs => ⟨name, rfl, hr.2.1 hs⟩, hr.2.2⟩
  · next hp =>
    exact followsE_pure ⟨by simp, h.snoc (List.Subset.refl _) fun req hreq => (hp req hreq).elim⟩

/-! ### All nodes -/

section Nodes

variable {ι : Type} {pq : Parquet}

/-- The nodes, each about to apply its entries to the shared store. -/
def replicas (display : NovaError → String) (entries : ι → List (Entry (EntryPayload M))) :
    Config ι MetaOp MetaOp.Res Store
      fun _ => Except NovaError (InMemoryStateMachine M × List RaftResponse) :=
  ⟨emptyStore, fun i => (InMemoryStateMachine.apply display {} (entries i)).run⟩

/-- A node that stores a database has listed the databases, and no other node has stored one of the
name since. -/
def Undisturbed (h : History ι MetaOp MetaOp.Res) : ι × Event MetaOp MetaOp.Res → Prop
  | (i, ⟨.txn (.setDatabase db), .ok _⟩) => ∀ h₁ r h₂,
      h = h₁ ++ (i, ⟨.storage .listDatabases, r⟩) :: h₂ →
      (∀ r', (i, ⟨.storage .listDatabases, r'⟩) ∉ h₂) → (∃ dbs, r = .ok dbs) ∧
        ∀ j old, j ≠ i → (j, ⟨.txn (.setDatabase old), .ok ()⟩) ∈ h₂ →
          sameName old.name db.name = false
  | _ => True

/-- The store after a history holds the databases that were stored in it, told apart by their names,
and nothing else; what a node saw is there, and it saw what was there. -/
structure Recorded (h : History ι MetaOp MetaOp.Res) (st : Store) : Prop where
  keyed : st.catalog.databases.Keyed DatabaseMeta.id
  stored : ∀ db, st.catalog.databases[db.id]? = some db ↔
    ∃ i, (i, ⟨.txn (.setDatabase db), .ok ()⟩) ∈ h
  apart : ∀ a b : DatabaseMeta, st.catalog.databases[a.id]? = some a →
    st.catalog.databases[b.id]? = some b →
    sameName a.name b.name = true → a = b
  seen : ∀ i dbs, (i, ⟨.storage .listDatabases, .ok dbs⟩) ∈ h → ∀ db ∈ dbs,
    st.catalog.databases[db.id]? = some db
  listed : ∀ h₁ i dbs h₂, h = h₁ ++ (i, ⟨.storage .listDatabases, .ok dbs⟩) :: h₂ →
    ∀ j db, (j, ⟨.txn (.setDatabase db), .ok ()⟩) ∈ h₁ → db ∈ dbs
  ids : IssueInv (idEvent .database) (storesObject · = true) 0 h
    (fun k => st.catalog.databases[k]? ≠ none) (st.nextId .database)
  schemas : st.catalog.schemas = emptyCatalog.schemas
  mps : st.mps = emptyStore.mps

variable {h : History ι MetaOp MetaOp.Res}

/-- A step that stores nothing. -/
theorem Recorded.quiet {st' : Store} (hrec : Recorded h st) (hcatalog : st'.catalog = st.catalog)
    (hmps : st'.mps = st.mps) {x : ι × Event MetaOp MetaOp.Res}
    (hset : ∀ db, x.2 ≠ ⟨.txn (.setDatabase db), .ok ()⟩)
    (hlist : ∀ dbs, x.2 = ⟨.storage .listDatabases, .ok dbs⟩ → dbs = st.catalog.listDatabases)
    (hids : IssueInv (idEvent .database) (storesObject · = true) 0 (h ++ [x])
      (fun k => st.catalog.databases[k]? ≠ none) (st'.nextId .database)) :
    Recorded (h ++ [x]) st' := by
  refine ⟨hcatalog ▸ hrec.keyed, fun db => ?_, hcatalog ▸ hrec.apart, fun i dbs hmem db hdb => ?_,
    fun h₁ i dbs h₂ heq j db hdb => ?_, hcatalog ▸ hids, hcatalog ▸ hrec.schemas,
    hmps.trans hrec.mps⟩
  · rw [hcatalog, hrec.stored]
    refine ⟨fun ⟨i, hi⟩ => ⟨i, mem_append_left _ hi⟩, fun ⟨i, hi⟩ => ⟨i, ?_⟩⟩
    rcases mem_append.1 hi with hi | hi
    · exact hi
    · exact absurd (congrArg Prod.snd (mem_singleton.1 hi)).symm (hset db)
  · rw [hcatalog]
    rcases mem_append.1 hmem with hmem | hmem
    · exact hrec.seen i dbs hmem db hdb
    · obtain rfl := hlist dbs (congrArg Prod.snd (mem_singleton.1 hmem)).symm
      obtain ⟨k, hk⟩ := mem_scanAll.1 hdb
      rwa [hrec.keyed k db hk]
  · obtain ⟨-, rfl, rfl⟩ | ⟨h₃, -, rfl⟩ := snoc_eq_append_cons.1 heq
    · rw [hlist dbs rfl]
      exact mem_scanAll.2 ⟨db.id, (hrec.stored db).2 ⟨j, hdb⟩⟩
    · exact hrec.listed h₁ i dbs h₃ rfl j db hdb

variable [DecidableEq ι] {i : ι}

/-- **A database that is stored is new**: its identifier comes from the counter, and its name was
not listed and has not been stored since. -/
theorem Recorded.fresh (hrec : Recorded h st) {db : DatabaseMeta}
    (hmay : ApplyMay log (eventsOf i h) (.txn (.setDatabase db)))
    (hschedule : Undisturbed h (i, ⟨.txn (.setDatabase db), .ok ()⟩)) :
    st.catalog.databases[db.id]? = none ∧
      ∀ old : DatabaseMeta, st.catalog.databases[old.id]? = some old →
        sameName old.name db.name = false := by
  obtain ⟨-, s₁, r, hs, hnone⟩ := hmay
  -- since its listing the node has only taken the identifier
  obtain ⟨h₁, h₂, rfl, hafter⟩ := eventsOf_eq_append_cons hs
  have honly : ∀ e, (i, e) ∈ h₂ → e = idEvent .database db.id := fun e he =>
    mem_singleton.1 (hafter ▸ mem_eventsOf.2 he)
  constructor
  · obtain ⟨h₃, h₄, rfl, hlast⟩ := eventsOf_eq_append_cons (s := []) hafter
    refine not_not.1 (hrec.ids.pending (h₁ ++ (i, ⟨.storage .listDatabases, r⟩) :: h₃) i db.id h₄
      (by simp) fun e he => ?_)
    exact absurd (mem_eventsOf.2 he) (hlast ▸ not_mem_nil)
  · obtain ⟨⟨dbs, rfl⟩, hothers⟩ := hschedule h₁ r h₂ rfl fun r' hr' => nomatch honly _ hr'
    intro old hold
    obtain ⟨j, hj⟩ := (hrec.stored old).1 hold
    rcases mem_append.1 hj with hj | hj
    · exact hnone dbs rfl old (hrec.listed h₁ i dbs h₂ rfl j old hj)
    · rcases mem_cons.1 hj with hj | hlater
      · cases hj
      · refine hothers j old ?_ hlater
        rintro rfl
        exact nomatch honly _ hlater

/-- **One step of a node.** -/
theorem Recorded.step {st' : Store} (hrec : Recorded h st) {o : MetaOp} {r : o.Res}
    (hmay : ApplyMay log (eventsOf i h) o) (hs : MetaStep pq st o r st')
    (hschedule : Undisturbed h (i, ⟨o, r⟩)) : Recorded (h ++ [(i, ⟨o, r⟩)]) st' := by
  have hids := fun e he => hrec.ids.quiet (i := i) (e := e) he fun _ hk => hk
  cases metaStep_effect hs with
  | query _ => exact hmay.elim
  | failed => exact hrec.quiet rfl rfl nofun nofun (hids _ fun _ => nofun)
  | @storage o r w' hop =>
    cases o <;> try exact hmay.elim
    cases r with
    | error e =>
      obtain rfl := step_error hop
      exact hrec.quiet rfl rfl nofun nofun (hids _ fun _ => nofun)
    | ok dbs =>
      obtain ⟨x, hx⟩ := step_ok hop
      cases hx
      refine hrec.quiet rfl rfl nofun (fun dbs hdbs => ?_) (hids _ fun _ => nofun)
      cases hdbs
      rfl
  | @txn t a _ hrun =>
    cases t <;> try exact hmay.elim
    case takeNextId counter =>
      cases counter <;> try exact hmay.elim
      obtain ⟨rfl, rfl⟩ := Store.takeNextId_eq_ok hrun
      refine hrec.quiet ?_ ?_ (fun _ => nofun) (fun _ => nofun) ?_
      · rfl
      · rfl
      · exact hrec.ids.issueNext idEvent_injective
    case setDatabase db =>
      cases hrun
      obtain ⟨hnew, hname⟩ := hrec.fresh hmay hschedule
      have hget : ∀ k : ℕ, (st.catalog.databases.insert db.id db)[k]? =
          if db.id = k then some db else st.catalog.databases[k]? := by
        intro k
        simp [Std.ExtTreeMap.getElem?_insert]
      have hold : ∀ d : DatabaseMeta, (st.catalog.databases.insert db.id db)[d.id]? = some d ↔
          st.catalog.databases[d.id]? = some d ∨ d = db := by
        intro d
        rw [hget]
        split_ifs with hid
        · rw [← hid, hnew]
          simp [eq_comm]
        · refine ⟨.inl, fun hd => hd.resolve_right ?_⟩
          rintro rfl
          exact hid rfl
      refine ⟨hrec.keyed.insert db, fun d => (hold d).trans ?_, fun a b ha hb hsame => ?_,
        fun j dbs hmem d hd => (hold d).2 (.inl ?_), fun h₁ j dbs h₂ heq k d hd => ?_, ?_,
        hrec.schemas, hrec.mps⟩
      · rw [hrec.stored]
        constructor
        · rintro (⟨j, hj⟩ | rfl)
          · exact ⟨j, mem_append_left _ hj⟩
          · exact ⟨i, by simp⟩
        · rintro ⟨j, hj⟩
          rcases mem_snoc.1 hj with hj | hj
          · exact .inl ⟨j, hj⟩
          · cases hj
            exact .inr rfl
      · rcases (hold a).1 ha with ha | ha <;> rcases (hold b).1 hb with hb | hb
        · exact hrec.apart a b ha hb hsame
        · exact absurd (hb ▸ hname a ha) (by simp [hsame])
        · have hsame' : sameName b.name a.name = true := by
            simpa [sameName, Str.eqIgnoreAsciiCase, eq_comm] using hsame
          exact absurd (ha ▸ hname b hb) (by simp [hsame'])
        · exact ha.trans hb.symm
      · rcases mem_append.1 hmem with hmem | hmem
        · exact hrec.seen j dbs hmem d hd
        · cases mem_singleton.1 hmem
      · obtain ⟨-, -, hlast⟩ | ⟨h₃, -, rfl⟩ := snoc_eq_append_cons.1 heq
        · cases hlast
        · exact hrec.listed h₁ j dbs h₃ rfl k d hd
      · obtain ⟨-, s₁, r, hs, -⟩ := hmay
        have hissued : (i, idEvent .database db.id) ∈ h := mem_eventsOf.1 (by simp [hs])
        refine hrec.ids.store (.inl ⟨hissued, rfl⟩) (fun _ => nofun) fun k hk => ?_
        by_cases hid : db.id = k
        · exact .inr hid.symm
        · exact .inl fun hk' => hk ((hget k).trans (by rw [if_neg hid, hk']))

omit [DecidableEq ι] in
/-- A database that some node has seen or stored is in the store. -/
theorem Recorded.done (hrec : Recorded h st) {i : ι} {es : List (Event MetaOp MetaOp.Res)}
    (hes : ∀ e ∈ es, (i, e) ∈ h) (hshown : Shown es name) :
    (RaftRequest.createDatabase name).Done st := by
  have hmem : ∀ db : DatabaseMeta, st.catalog.databases[db.id]? = some db →
      db ∈ st.catalog.listDatabases := fun db hdb => mem_scanAll.2 ⟨db.id, hdb⟩
  rcases hshown with ⟨dbs, hdbs, db, hdb, hsame⟩ | ⟨db, hdb, rfl⟩
  · exact ⟨db, hmem db (hrec.seen i dbs (hes _ hdbs) db hdb), hsame⟩
  · exact ⟨db, hmem db ((hrec.stored db).2 ⟨i, hes _ hdb⟩), sameName_self⟩

omit [DecidableEq ι] in
/-- The store holds what the log says, if all of it was done. -/
theorem Recorded.matches (hrec : Recorded h st) (hlog : OnlyDatabases log)
    (honly : ∀ i db, (i, ⟨.txn (.setDatabase db), .ok ()⟩) ∈ h → .createDatabase db.name ∈ log)
    (hall : ∀ req ∈ log, req.Done st) : (Replica.ofLog log).Matches st := by
  obtain ⟨hmem, hnodup, htables, hmps⟩ := hlog.ofLog
  have hget : ∀ db, db ∈ st.catalog.listDatabases ↔ st.catalog.databases[db.id]? = some db := by
    refine fun db => mem_scanAll.trans ⟨?_, fun hdb => ⟨_, hdb⟩⟩
    rintro ⟨k, hk⟩
    rwa [hrec.keyed k db hk]
  have hname : ∀ db ∈ st.catalog.listDatabases, .createDatabase db.name ∈ log := by
    intro db hdb
    obtain ⟨i, hi⟩ := (hrec.stored db).1 ((hget db).1 hdb)
    exact honly i db hi
  refine ⟨?_, fun db schema table => ?_, fun tableId rowCount => ?_⟩
  · refine (perm_ext_iff_of_nodup ?_ hnodup).2 fun name => ?_
    · refine List.Nodup.map_on (fun a ha b hb heq => ?_)
        (hrec.keyed.pairwise_scanAll.imp fun hlt => fun heq => absurd hlt (heq ▸ lt_irrefl _))
      exact hrec.apart a b ((hget a).1 ha) ((hget b).1 hb) (heq ▸ sameName_self)
    · rw [hmem, mem_map]
      constructor
      · rintro ⟨db, hdb, rfl⟩
        exact hname db hdb
      · intro hreq
        obtain ⟨db, hdb, hsame⟩ := hall _ hreq
        exact ⟨db, hdb, hlog.apart _ _ (hname db hdb) hreq hsame⟩
  · rw [htables]
    refine iff_of_false not_mem_nil ?_
    rintro ⟨t, ht⟩
    obtain ⟨d, -, ht⟩ := except_bind_eq_ok.1 ht
    obtain ⟨schemaMeta, hschema, -⟩ := except_bind_eq_ok.1 ht
    have hnone : st.catalog.listSchemas d.id = [] := by
      simp [Catalog.listSchemas, hrec.schemas, emptyCatalog, OMap.scan, scanAll]
    rw [Catalog.findSchemaMeta, hnone] at hschema
    cases hschema
  · rw [hmps, hrec.mps]
    refine iff_of_false (by simp) ?_
    rintro ⟨id, mp, hmp, -⟩
    cases hmp

end Nodes

/-! ### Small clusters -/

theorem eq_ok_of_isOk {ε α : Type} {r : Except ε α} (h : r.isOk = true) : ∃ a, r = .ok a := by
  cases r with
  | ok a => exact ⟨a, rfl⟩
  | error e => cases h

/-- The first entry of the log, with a command. -/
def commandEntry (req : RaftRequest) : Entry (EntryPayload Unit) := ⟨⟨1, 1, 0⟩, .normal req⟩

/-- Nodes that all apply one command. -/
def oneCommand (ι : Type) (req : RaftRequest) : Config ι MetaOp MetaOp.Res Store
    fun _ => Except NovaError (InMemoryStateMachine Unit × List RaftResponse) :=
  replicas (fun _ => "") fun _ => [commandEntry req]

/-- A log of two databases; node `true` replays the first entry before it applies the second. -/
def replayed : Bool → List (Entry (EntryPayload Unit))
  | true => [commandEntry (.createDatabase "d"), commandEntry (.createDatabase "d"),
      ⟨⟨1, 1, 1⟩, .normal (.createDatabase "e")⟩]
  | false => [commandEntry (.createDatabase "d"), ⟨⟨1, 1, 1⟩, .normal (.createDatabase "e")⟩]

/-- No event has failed, and none has stored a database of the name that `x` stores. -/
def firstOfName (h : History Bool MetaOp MetaOp.Res) (_ : Store)
    (x : Bool × Event MetaOp MetaOp.Res) : Bool :=
  !x.2.1.isCommit && h.all fun y => y.2.2.isOk && match x.2.1, y.2.1 with
    | .txn (.setDatabase db), .txn (.setDatabase old) => !sameName old.name db.name
    | _, _ => true

/-- Both nodes have applied their entries, and nothing failed. -/
def bothApplied (y : History Bool MetaOp MetaOp.Res × Config Bool MetaOp MetaOp.Res Store
    fun _ => Except NovaError (InMemoryStateMachine Unit × List RaftResponse)) : Bool :=
  (y.2.threads true).succeeded && (y.2.threads false).succeeded && y.1.all (·.2.2.isOk)

theorem undisturbed_of_firstOfName {h : History Bool MetaOp MetaOp.Res}
    {x : Bool × Event MetaOp MetaOp.Res} (hfirst : firstOfName h st x = true) :
      Undisturbed h x := by
  obtain ⟨-, hall⟩ := Bool.and_eq_true_iff.1 hfirst
  unfold Undisturbed
  split
  · rintro h₁ r h₂ rfl -
    constructor
    · have hlist := all_eq_true.1 hall _ (mem_append_right _ mem_cons_self)
      exact eq_ok_of_isOk (Bool.and_eq_true_iff.1 hlist).1
    · intro j old _ hj
      have hstore := all_eq_true.1 hall _ (mem_append_right _ (mem_cons_of_mem _ hj))
      simpa using (Bool.and_eq_true_iff.1 hstore).2
  · trivial

end NovaCore.Raft
