import NovaCore.Common.Types
import NovaCore.Prog.Interleave

/-!
# The Raft log in FoundationDB

`FdbLogStore` keeps the vote, the committed id, the last purged id and the log entries of a
coordinator node under keys that start with `nova/raft/`.  Each helper (`get`, `set`, `clear_range`,
the scan of `try_get_log_entries`) is one FoundationDB transaction, so a method is a program over
these transactions.  JSON is kept as structured data: the only value that does not read back as it
was written is `None`, which `save_committed` stores as `null`.

The keys do not name the node.  A node therefore sees the writes of every other node on the same
cluster, and is alone on the store only as long as no other node writes what it reads.

## Main definitions

* `RaftKeys` : the values under `nova/raft/`.
* `LogOp`, `LogStep` : the transactions and what they do.  One call of `get_range` returns one page.
* `Call`, `Call.run` : the methods of `FdbLogStore`.
* `SeesOwnWrites` : what a node did is also a run of a store that only this node uses.

## Main results

* `nodes_isolated` : **nodes are isolated while no node reads what another one has written.**
* `nodes_share_keys` : a node reads the vote of another one, and loses an entry that another one
  truncates.
-/

namespace NovaCore.Raft

/-- `openraft::LogId`. -/
structure LogId where
  term : ℕ
  nodeId : ℕ
  index : ℕ
  deriving DecidableEq

/-- `openraft::Vote`. -/
structure Vote where
  term : ℕ
  nodeId : ℕ
  committed : Bool
  deriving DecidableEq

/-- `openraft::Entry`, with payloads of type `P`. -/
structure Entry (P : Type) where
  logId : LogId
  payload : P
  deriving DecidableEq

/-- `openraft::LogState`. -/
structure LogState where
  lastPurgedLogId : Option LogId
  lastLogId : Option LogId
  deriving DecidableEq

/-- `std::ops::Bound`. -/
inductive Bound
  | included (v : ℕ)
  | excluded (v : ℕ)
  | unbounded

/-- A range of log indexes. -/
structure IndexRange where
  startBound : Bound
  endBound : Bound

/-- The first index that `try_get_log_entries` scans. -/
def IndexRange.start (r : IndexRange) : ℕ :=
  match r.startBound with
  | .included v => v
  | .excluded v => satAdd v 1
  | .unbounded => 0

/-- The index before which `try_get_log_entries` stops to scan. -/
def IndexRange.finish (r : IndexRange) : ℕ :=
  match r.endBound with
  | .included v => satAdd v 1
  | .excluded v => v
  | .unbounded => u64Max

/-- `StorageError`, of a transaction or of JSON. -/
inductive StorageError
  | read
  | write
  deriving DecidableEq

/-! ### Transactions -/

variable {P : Type}

/-- The values under `nova/raft/`; the log in the order of its keys. -/
structure RaftKeys (P : Type) where
  vote : Option Vote := none
  /-- The JSON of an `Option<LogId>`: `some none` is `null`. -/
  committed : Option (Option LogId) := none
  purged : Option LogId := none
  log : List (Entry P) := []
  deriving DecidableEq

variable (log : List (Entry P))

/-- The entries with an entry added, or replaced, at its index. -/
def insertEntry (e : Entry P) : List (Entry P) :=
  log.filter (·.logId.index < e.logId.index) ++ e :: log.filter (e.logId.index < ·.logId.index)

/-- The entries with an index in `start..finish`, in order. -/
def scan (start finish : ℕ) : List (Entry P) :=
  log.filter fun e => start ≤ e.logId.index ∧ e.logId.index < finish

/-- The entries without those with an index in `start..finish`. -/
def clear (start finish : ℕ) : List (Entry P) :=
  log.filter fun e => ¬(start ≤ e.logId.index ∧ e.logId.index < finish)

/-- A transaction of `FdbLogStore`. -/
inductive LogOp (P : Type)
  | getVote
  | getCommitted
  | getPurged
  | getRange (start finish : ℕ)
  | setVote (vote : Vote)
  | setCommitted (committed : Option LogId)
  | setPurged (logId : LogId)
  | setEntry (entry : Entry P)
  | clearRange (start finish : ℕ)

/-- What a transaction returns. -/
def LogOp.Ret : LogOp P → Type
  | getVote => Option Vote
  | getCommitted => Option (Option LogId)
  | getPurged => Option LogId
  | getRange _ _ => List (Entry P)
  | setVote _ | setCommitted _ | setPurged _ | setEntry _ | clearRange _ _ => Unit

/-- The result of a transaction. -/
abbrev LogOp.Res (o : LogOp P) : Type := Except StorageError o.Ret

/-- What a transaction returns and leaves, if a page of `get_range` holds the first `page es` of the
entries `es` of the range. -/
def LogOp.apply (page : List (Entry P) → ℕ) (s : RaftKeys P) : (o : LogOp P) → o.Ret × RaftKeys P
  | getVote => (s.vote, s)
  | getCommitted => (s.committed, s)
  | getPurged => (s.purged, s)
  | getRange start finish =>
    ((scan s.log start finish).take (page (scan s.log start finish)), s)
  | setVote vote => ((), { s with vote := some vote })
  | setCommitted committed => ((), { s with committed := some committed })
  | setPurged logId => ((), { s with purged := some logId })
  | setEntry entry => ((), { s with log := insertEntry s.log entry })
  | clearRange start finish => ((), { s with log := clear s.log start finish })

/-- A transaction takes effect, or fails and leaves the store as it is. -/
inductive LogStep (page : List (Entry P) → ℕ) (s : RaftKeys P) :
    (o : LogOp P) → o.Res → RaftKeys P → Prop
  | ok (o : LogOp P) : LogStep page s o (.ok (o.apply page s).1) (o.apply page s).2
  | error (o : LogOp P) (e : StorageError) : LogStep page s o (.error e) s

variable {page : List (Entry P) → ℕ}

@[simp] theorem logStep_ok_iff {s s' : RaftKeys P} {o : LogOp P}
    {a : o.Ret} : LogStep page s o (.ok a) s' ↔ a = (o.apply page s).1 ∧
      s' = (o.apply page s).2 := by
  constructor
  · rintro ⟨⟩
    exact ⟨rfl, rfl⟩
  · rintro ⟨rfl, rfl⟩
    exact .ok o

/-! ### Methods -/

/-- A method of the log store with its arguments. -/
inductive Call (P : Type)
  | tryGetLogEntries (range : IndexRange)
  | getLogState
  | saveCommitted (committed : Option LogId)
  | readCommitted
  | saveVote (vote : Vote)
  | readVote
  | append (entries : List (Entry P))
  | truncate (logId : LogId)
  | purge (logId : LogId)

/-- The answer of a method. -/
inductive Answer (P : Type)
  | done
  | entries (entries : List (Entry P))
  | state (state : LogState)
  | committed (committed : Option LogId)
  | vote (vote : Option Vote)
  deriving DecidableEq

/-- A fallible program over the transactions. -/
abbrev LogProg (P : Type) : Type → Type := ExceptT StorageError (Prog (LogOp P) LogOp.Res)

/-- One transaction. -/
def txn (o : LogOp P) : LogProg P o.Ret := Prog.call o

namespace FdbLogStore

/-- `FdbLogStore::try_get_log_entries`. -/
def tryGetLogEntries (range : IndexRange) : LogProg P (List (Entry P)) :=
  txn (.getRange range.start range.finish)

/-- `FdbLogStore::get_log_state`. -/
def getLogState : LogProg P LogState := do
  let entries ← tryGetLogEntries ⟨.unbounded, .unbounded⟩
  let purged : Option LogId ← txn .getPurged
  return ⟨purged, entries.getLast?.map Entry.logId⟩

/-- `de` of the stored committed id: `null` is not the JSON of a `LogId`. -/
def deCommitted : Option (Option LogId) → Except StorageError (Option LogId)
  | some (some logId) => .ok (some logId)
  | some none => .error .read
  | none => .ok none

/-- `FdbLogStore::read_committed`. -/
def readCommitted : LogProg P (Option LogId) := do
  let value : Option (Option LogId) ← txn .getCommitted
  liftExcept (deCommitted value)

/-- `set` of an entry at the key of its index. -/
def setEntry (entry : Entry P) : LogProg P PUnit := txn (.setEntry entry)

/-- `FdbLogStore::append`. -/
def append (entries : List (Entry P)) : LogProg P PUnit := entries.forM setEntry

/-- `FdbLogStore::purge`. -/
def purge (logId : LogId) : LogProg P Unit := do
  let _ : Unit ← txn (.clearRange 0 (satAdd logId.index 1))
  txn (.setPurged logId)

end FdbLogStore

/-- A method of `FdbLogStore`. -/
def Call.run : Call P → LogProg P (Answer P)
  | tryGetLogEntries range => .entries <$> FdbLogStore.tryGetLogEntries range
  | getLogState => .state <$> FdbLogStore.getLogState
  | saveCommitted committed => (fun _ => .done) <$> txn (.setCommitted committed)
  | readCommitted => .committed <$> FdbLogStore.readCommitted
  | saveVote vote => (fun _ => .done) <$> txn (.setVote vote)
  | readVote => .vote <$> (txn .getVote : LogProg P (Option Vote))
  | append entries => (fun _ => .done) <$> FdbLogStore.append entries
  | truncate logId => (fun _ => .done) <$> txn (.clearRange logId.index u64Max)
  | purge logId => (fun _ => .done) <$> FdbLogStore.purge logId

/-- Calls one after another, up to the first error. -/
def session : List (Call P) → LogProg P (List (Answer P))
  | [] => return []
  | call :: calls => do
    let answer ← call.run
    let answers ← session calls
    return answer :: answers

/-! ### Nodes on one cluster -/

/-- A part of the keys. -/
inductive Cell
  | vote
  | committed
  | purged
  | log
  deriving DecidableEq

/-- The part of the keys that a transaction reads. -/
def LogOp.reads : LogOp P → Option Cell
  | getVote => some .vote
  | getCommitted => some .committed
  | getPurged => some .purged
  | getRange _ _ => some .log
  | setVote _ | setCommitted _ | setPurged _ | setEntry _ | clearRange _ _ => none

/-- The part of the keys that a transaction writes. -/
def LogOp.writes : LogOp P → Option Cell
  | setVote _ => some .vote
  | setCommitted _ => some .committed
  | setPurged _ => some .purged
  | setEntry _ | clearRange _ _ => some .log
  | getVote | getCommitted | getPurged | getRange _ _ => none

/-- Two stores hold the same in a part of the keys. -/
def Cell.Agree (s t : RaftKeys P) : Cell → Prop
  | vote => s.vote = t.vote
  | committed => s.committed = t.committed
  | purged => s.purged = t.purged
  | .log => s.log = t.log

/-- A transaction changes only what it writes. -/
theorem LogStep.agree {s s' : RaftKeys P} {o : LogOp P} {r : o.Res}
    (hs : LogStep page s o r s') {cell : Cell} (hcell : o.writes ≠ some cell) :
    cell.Agree s' s := by
  cases hs with
  | ok => cases o <;> cases cell <;> first | rfl | exact absurd rfl hcell
  | error => cases cell <;> rfl

/-- A transaction does the same in a store that holds the same in what the transaction reads. -/
theorem LogStep.transfer {s s' t : RaftKeys P} {o : LogOp P}
    {r : o.Res} (hs : LogStep page s o r s')
    (hreads : ∀ cell, o.reads = some cell → cell.Agree s t) :
    ∃ t', LogStep page t o r t' ∧ ∀ cell : Cell, cell.Agree s t → cell.Agree s' t' := by
  cases hs with
  | error e => exact ⟨t, .error o e, fun _ h => h⟩
  | ok =>
    have hret : (o.apply page s).1 = (o.apply page t).1 := by
      cases o with
      | getVote => exact hreads .vote rfl
      | getCommitted => exact hreads .committed rfl
      | getPurged => exact hreads .purged rfl
      | getRange start finish =>
        have hlog : s.log = t.log := hreads .log rfl
        simp only [LogOp.apply, hlog]
        rfl
      | _ => rfl
    refine ⟨(o.apply page t).2, hret ▸ .ok o, fun cell h => ?_⟩
    cases o <;> cases cell <;> simp_all [LogOp.apply, Cell.Agree]

section Nodes

variable {ι : Type} [DecidableEq ι] {page : List (Entry P) → ℕ}

/-- Nodes that make calls on one empty store. -/
def nodes (calls : ι → List (Call P)) :
    Config ι (LogOp P) LogOp.Res (RaftKeys P) fun _ => Except StorageError (List (Answer P)) :=
  ⟨{}, fun i => (session (calls i)).run⟩

/-- What node `i` did, answers included, is also a run of a store that only this node uses. -/
def SeesOwnWrites (page : List (Entry P) → ℕ) (calls : ι → List (Call P))
    (h : History ι (LogOp P) LogOp.Res) (i : ι) : Prop :=
  ∃ c, Run (LogStep page) (nodes calls) (h.filter fun x => x.1 = i) c

/-- No other node has written what node `i` reads. -/
def QuietFor (h : History ι (LogOp P) LogOp.Res) (i : ι) : Prop :=
  ∀ h₁ x h₂, h = h₁ ++ x :: h₂ → x.1 = i → ∀ y ∈ h₁, y.1 ≠ i →
    ∀ cell, x.2.1.reads = some cell → y.2.1.writes ≠ some cell

/-- The store that only node `i` uses holds the same as the shared one in all that no other node
has written. -/
theorem exists_own_run {calls : ι → List (Call P)} {h : History ι (LogOp P) LogOp.Res}
    {c : Config ι (LogOp P) LogOp.Res (RaftKeys P) fun _ => Except StorageError (List (Answer P))}
    (hr : Run (LogStep page) (nodes calls) h c) {i : ι} (hquiet : QuietFor h i) :
    ∃ c', Run (LogStep page) (nodes calls) (h.filter fun x => x.1 = i) c' ∧
      c'.threads i = c.threads i ∧ ∀ cell : Cell,
        (∀ y ∈ h, y.1 ≠ i → y.2.1.writes ≠ some cell) → cell.Agree c.world c'.world := by
  induction hr with
  | nil => exact ⟨_, .nil, rfl, fun cell _ => by cases cell <;> rfl⟩
  | @snoc h c j o k r w' _ hop hs ih =>
    obtain ⟨c', hown, hthread, hagree⟩ := ih fun h1 x h2 he =>
      hquiet h1 x (h2 ++ [(j, ⟨o, r⟩)]) (by simp [he])
    by_cases hji : j = i
    · -- the node's own step: the same answer, since it reads nothing that others have written
      subst hji
      obtain ⟨t', hs', hkeep⟩ := hs.transfer fun cell hcell =>
        hagree cell fun y hy hyj => hquiet h _ [] rfl rfl y hy hyj cell hcell
      refine ⟨⟨t', Function.update c'.threads j (k r)⟩, ?_, by simp, fun cell hcell => ?_⟩
      · simpa using hown.snoc (hthread.trans hop) hs'
      · exact hkeep cell (hagree cell fun y hy => hcell y (List.mem_append_left _ hy))
    · refine ⟨c', by simpa [hji] using hown, ?_, fun cell hcell => ?_⟩
      · exact hthread.trans (Function.update_of_ne (Ne.symm hji) _ _).symm
      · have hsame := hs.agree (hcell (j, ⟨o, r⟩) (by simp) hji)
        have hbefore := hagree cell fun y hy => hcell y (List.mem_append_left _ hy)
        cases cell <;> exact Eq.trans hsame hbefore

/-- **Nodes are isolated while no node reads what another one has written.**  In every interleaving
in which each transaction of a node reads only keys that no other node has written before, every
node does what it would do on a store of its own. -/
theorem nodes_isolated (calls : ι → List (Call P)) (h : History ι (LogOp P) LogOp.Res)
    (c : Config ι (LogOp P) LogOp.Res (RaftKeys P) fun _ => Except StorageError (List (Answer P)))
    (hr : Run (LogStep page) (nodes calls) h c) (hquiet : ∀ i, QuietFor h i) (i : ι) :
    SeesOwnWrites page calls h i :=
  let ⟨c', hown, _⟩ := exists_own_run hr (hquiet i)
  ⟨c', hown⟩

end Nodes

/-! ### Two nodes -/

/-- A vote of node 1 for itself. -/
def sampleVote : Vote := ⟨1, 1, false⟩

/-- The first entry of a log. -/
def firstEntry : Entry Unit := ⟨⟨1, 1, 0⟩, ()⟩

/-- One node saves and reads its vote, the other one appends and reads an entry. -/
def voteAndLog : Bool → List (Call Unit)
  | true => [.saveVote sampleVote, .readVote]
  | false => [.append [firstEntry], .tryGetLogEntries ⟨.included 0, .included 0⟩]

/-- Their transactions in turn. -/
def separateKeys : History Bool (LogOp Unit) LogOp.Res :=
  [(true, ⟨.setVote sampleVote, .ok ()⟩), (false, ⟨.setEntry firstEntry, .ok ()⟩),
    (true, ⟨.getVote, .ok (some sampleVote)⟩), (false, ⟨.getRange 0 1, .ok [firstEntry]⟩)]

theorem quietFor_separateKeys (i : Bool) : QuietFor separateKeys i := by
  rintro h1 x h2 he rfl y hy hne cell hcell
  rcases h1 with _ | ⟨a, _ | ⟨b, _ | ⟨d, _ | ⟨e, h1⟩⟩⟩⟩
  · cases hy
  · cases he
    cases hcell
  -- the vote is read after the other node has written an entry, and the other way round
  · cases he
    cases hcell
    simp only [List.mem_cons, List.not_mem_nil, or_false] at hy
    rcases hy with rfl | rfl
    · exact absurd rfl hne
    · exact nofun
  · cases he
    cases hcell
    simp only [List.mem_cons, List.not_mem_nil, or_false] at hy
    rcases hy with rfl | rfl | rfl
    · exact nofun
    · exact absurd rfl hne
    · exact nofun
  · simp [separateKeys] at he

/-- Nodes that read back what they have written themselves are isolated. -/
theorem nodes_isolated_voteAndLog : SeesOwnWrites List.length voteAndLog separateKeys true ∧
    SeesOwnWrites List.length voteAndLog separateKeys false := by
  have hr : Run (LogStep List.length) (nodes voteAndLog) separateKeys _ :=
    .snoc (.snoc (.snoc (.snoc .nil rfl (.ok _)) rfl (.ok _)) rfl (.ok _)) rfl (.ok _)
  have hisolated := nodes_isolated voteAndLog separateKeys _ hr quietFor_separateKeys
  exact ⟨hisolated true, hisolated false⟩

/-- One node saves its vote, appends an entry and reads it, the other one reads the vote and
truncates the log. -/
def twoNodes : Bool → List (Call Unit)
  | true => [.saveVote sampleVote, .append [firstEntry],
      .tryGetLogEntries ⟨.included 0, .included 0⟩]
  | false => [.readVote, .truncate ⟨1, 2, 0⟩]

/-- The transactions of the two nodes: the vote is read, and the entry is gone when it is read. -/
def sharedKeys : History Bool (LogOp Unit) LogOp.Res :=
  [(true, ⟨.setVote sampleVote, .ok ()⟩), (true, ⟨.setEntry firstEntry, .ok ()⟩),
    (false, ⟨.getVote, .ok (some sampleVote)⟩), (false, ⟨.clearRange 0 u64Max, .ok ()⟩),
    (true, ⟨.getRange 0 1, .ok []⟩)]

/-- **A node reads the vote of another node**, and loses an entry that another node truncates. -/
theorem nodes_share_keys :
    (∃ c, Run (LogStep List.length) (nodes twoNodes) sharedKeys c) ∧
      ¬SeesOwnWrites List.length twoNodes sharedKeys false ∧
      ¬SeesOwnWrites List.length twoNodes sharedKeys true := by
  refine ⟨⟨_, .snoc (.snoc (.snoc (.snoc (.snoc .nil rfl (.ok _)) rfl (.ok _)) rfl (.ok _)) rfl
    (.ok _)) rfl (.ok _)⟩, ?_, ?_⟩
  · rintro ⟨c, hr⟩
    obtain ⟨k, w, -, hs, -⟩ := Run.cons_inv hr
    have hvote : some sampleVote = none := (logStep_ok_iff.1 hs).1
    cases hvote
  · rintro ⟨c, hr⟩
    obtain ⟨k, w, -, hs, hr⟩ := Run.cons_inv hr
    obtain ⟨k1, w1, -, hs1, hr⟩ := Run.cons_inv hr
    obtain ⟨k2, w2, -, hs2, -⟩ := Run.cons_inv hr
    obtain ⟨-, rfl⟩ := logStep_ok_iff.1 hs
    obtain ⟨-, rfl⟩ := logStep_ok_iff.1 hs1
    have hentries : ([] : List (Entry Unit)) = [firstEntry] := (logStep_ok_iff.1 hs2).1
    cases hentries

end NovaCore.Raft
