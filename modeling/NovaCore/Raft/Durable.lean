import NovaCore.Prog.Cut
import NovaCore.Raft.LogStore

/-!
# The durable log and the log in memory

`InMemoryLogStore` is the reference for `FdbLogStore`: the same methods on ordered maps.  The two
give the same answers unless a call runs into one of the places where `FdbLogStore` differs:

* a scan returns one page, so entries behind the page are missing in `try_get_log_entries`, and
  `get_log_state` takes the last entry of the page for the last entry of the log;
* `read_committed` fails after `save_committed(None)`;
* keys with the largest index are outside of every scan.

Neither store reports the last purged id as last log id when the log is empty.  `purge` clears the
entries in one transaction and stores the purged id in the next one: after a crash between the two
the log does not start behind the stored id.

## Main definitions

* `LogStoreInner`, `LogStoreInner.call` : the log in memory and its methods.
* `Call.Allowed` : the calls that the storage contract of Raft allows.
* `Call.Proper` : the calls that avoid these places.

## Main results

* `fdbLogStore_refines` : **on proper calls the durable log is the log in memory**, its state names
  the highest entry, and a crash leaves a contiguous log with all entries that were acknowledged.
* `fdbLogStore_differs` : calls that are not proper.
-/

namespace NovaCore.Raft

open Prog List Option FdbLogStore LogOp

variable {P : Type} {page : List (Entry P) → ℕ}

/-! ### The log in memory -/

/-- `LogStoreInner`; the map `log` by its values in the order of the keys. -/
structure LogStoreInner (P : Type) where
  vote : Option Vote := none
  log : List (Entry P) := []
  committed : Option LogId := none
  purged : Option LogId := none

/-- `RangeBounds::contains`. -/
def IndexRange.contains (r : IndexRange) (i : ℕ) : Bool :=
  (match r.startBound with
    | .included v => v ≤ i
    | .excluded v => v < i
    | .unbounded => true) &&
  (match r.endBound with
    | .included v => i ≤ v
    | .excluded v => i < v
    | .unbounded => true)

variable (m : LogStoreInner P)

/-- The methods of `InMemoryLogStore`. -/
def LogStoreInner.call : Call P → Answer P × LogStoreInner P
  | .tryGetLogEntries range => (.entries (m.log.filter (range.contains ·.logId.index)), m)
  | .getLogState => (.state ⟨m.purged, m.log.getLast?.map Entry.logId⟩, m)
  | .saveCommitted committed => (.done, { m with committed := committed })
  | .readCommitted => (.committed m.committed, m)
  | .saveVote vote => (.done, { m with vote := some vote })
  | .readVote => (.vote m.vote, m)
  | .append entries => (.done, { m with log := entries.foldl insertEntry m.log })
  | .truncate logId => (.done, { m with log := m.log.filter (·.logId.index < logId.index) })
  | .purge logId =>
    (.done, { m with log := m.log.filter (logId.index < ·.logId.index), purged := some logId })

/-- Calls one after another. -/
def LogStoreInner.calls (m : LogStoreInner P) : List (Call P) → List (Answer P) × LogStoreInner P
  | [] => ([], m)
  | call :: calls =>
    ((m.call call).1 :: ((m.call call).2.calls calls).1, ((m.call call).2.calls calls).2)

/-! ### Contiguous logs -/

/-- The indexes of the entries are `i`, `i + 1` and so on. -/
def ContiguousFrom : ℕ → List (Entry P) → Prop
  | _, [] => True
  | i, e :: es => e.logId.index = i ∧ ContiguousFrom (i + 1) es

/-- The index right after the last purged id. -/
def startAfter (purged : Option LogId) : ℕ := purged.elim 0 (·.index + 1)

/-- The index that the next entry gets. -/
def LogStoreInner.next : ℕ :=
  m.log.getLast?.elim (startAfter m.purged) (·.logId.index + 1)

namespace ContiguousFrom

variable {i k : ℕ} {es fs : List (Entry P)} {e : Entry P}

/-- The indices are consecutive. -/
theorem map_index (h : ContiguousFrom i es) : es.map (·.logId.index) = range' i es.length := by
  induction es generalizing i with
  | nil => rfl
  | cons e es ih => rw [map_cons, ih h.2, h.1, length_cons, range'_succ]

theorem index_mem (h : ContiguousFrom i es) (he : e ∈ es) :
    i ≤ e.logId.index ∧ e.logId.index < i + es.length := by
  have hmem : e.logId.index ∈ es.map (·.logId.index) := mem_map_of_mem he
  rwa [h.map_index, mem_range'_1] at hmem

theorem append (hes : ContiguousFrom i es) (hfs : ContiguousFrom (i + es.length) fs) :
    ContiguousFrom i (es ++ fs) := by
  induction es generalizing i with
  | nil => exact hfs
  | cons e es ih =>
    refine ⟨hes.1, ih hes.2 ?_⟩
    rwa [length_cons, ← Nat.add_assoc, Nat.add_right_comm] at hfs

section

variable (h : ContiguousFrom i es)
include h

/-- The last entry has the highest index. -/
theorem getLast?_index (he : es.getLast? = some e) : e.logId.index + 1 = i + es.length := by
  have hlast : (es.map (·.logId.index)).getLast? = some e.logId.index := by
    rw [getLast?_map, he, map_some]
  rw [h.map_index, getLast?_range'] at hlast
  split_ifs at hlast with hne
  have := some.inj hlast
  omega

theorem filter_lt (k : ℕ) : ContiguousFrom i (es.filter (·.logId.index < k)) := by
  induction es generalizing i with
  | nil => trivial
  | cons e es ih =>
    by_cases hk : e.logId.index < k
    · rw [filter_cons_of_pos (by simpa using hk)]
      exact ⟨h.1, ih h.2⟩
    · -- everything behind has a higher index
      rw [filter_eq_nil_iff.2]
      · trivial
      · intro e' he'
        have := (h.index_mem he').1
        have := h.1
        simpa using (by omega : k ≤ e'.logId.index)

theorem filter_gt (hk : i ≤ k + 1) : ContiguousFrom (k + 1) (es.filter (k < ·.logId.index)) := by
  induction es generalizing i with
  | nil => trivial
  | cons e es ih =>
    have hi := h.1
    by_cases hek : k < e.logId.index
    · -- `e` has index `k + 1`, and nothing behind it is dropped
      obtain rfl : i = k + 1 := by omega
      rw [filter_eq_self.2]
      · exact h
      · intro e' he'
        have := (h.index_mem he').1
        simpa using (by omega : k < e'.logId.index)
    · rw [filter_cons_of_neg (by simpa using hek)]
      exact ih h.2 (by omega)

/-- An entry with the next index goes behind the others. -/
theorem insertEntry_eq (he : e.logId.index = i + es.length) : insertEntry es e = es ++ [e] := by
  have hlt : ∀ e' ∈ es, e'.logId.index < e.logId.index := fun e' he' =>  he ▸ (h.index_mem he').2
  rw [insertEntry, filter_eq_self.2 fun e' he' => by simpa using hlt e' he',
    filter_eq_nil_iff.2 fun e' he' => by simpa using (hlt e' he').le]

end

theorem foldl_insertEntry (hes : ContiguousFrom i es) (hfs : ContiguousFrom (i + es.length) fs) :
    fs.foldl insertEntry es = es ++ fs := by
  induction fs generalizing es with
  | nil => simp
  | cons e fs ih =>
    have hsnoc : ContiguousFrom i (es ++ [e]) := hes.append ⟨hfs.1, trivial⟩
    rw [foldl_cons, hes.insertEntry_eq hfs.1, ih hsnoc (by simpa [Nat.add_assoc] using hfs.2)]
    simp

end ContiguousFrom

/-- The log is contiguous behind the last purged id, and no index is the largest one. -/
structure LogStoreInner.Sound : Prop where
  contiguous : ContiguousFrom (startAfter m.purged) m.log
  below : ∀ e ∈ m.log, e.logId.index < u64Max

theorem LogStoreInner.Sound.next_eq {m : LogStoreInner P} (hm : m.Sound) :
    m.next = startAfter m.purged + m.log.length := by
  unfold LogStoreInner.next
  rcases hlast : m.log.getLast? with _ | e
  · simp [getLast?_eq_none_iff.1 hlast]
  · exact hm.contiguous.getLast?_index hlast

/-! ### Calls -/

/-- The storage contract of Raft: entries are appended right behind the last one, the purged id does
not go back, and ranges are not inverted (which `BTreeMap::range` refuses). -/
def Call.Allowed : Call P → Prop
  | .append entries => ContiguousFrom m.next entries
  | .purge logId => startAfter m.purged ≤ logId.index + 1
  | .tryGetLogEntries range => range.start ≤ range.finish
  | _ => True

/-- The page holds all the entries. -/
def Fits (page : List (Entry P) → ℕ) (entries : List (Entry P)) : Prop :=
  entries.length ≤ page entries

/-- A call that avoids the differences: pages hold the scanned entries, the committed id is not
`None`, indexes are not the largest one, and the state is not asked for when entries have been
purged and none is left. -/
def Call.Proper (page : List (Entry P) → ℕ) (m : LogStoreInner P) : Call P → Prop
  | .tryGetLogEntries range => Fits page (m.log.filter (range.contains ·.logId.index))
  | .getLogState => Fits page m.log ∧ (m.log = [] → m.purged = none)
  | .saveCommitted committed => committed ≠ none
  | .append entries => ∀ e ∈ entries, e.logId.index < u64Max
  | _ => True

/-- Each call of a list meets a condition on the log in memory before it. -/
def Along (R : LogStoreInner P → Call P → Prop) : LogStoreInner P → List (Call P) → Prop
  | _, [] => True
  | m, call :: calls => R m call ∧ Along R (m.call call).2 calls

theorem LogStoreInner.Sound.call {m : LogStoreInner P} (hm : m.Sound) {call : Call P}
    (hallowed : call.Allowed m) (hproper : call.Proper page m) : (m.call call).2.Sound := by
  cases call with
  | append entries =>
    have hes : ContiguousFrom (startAfter m.purged + m.log.length) entries := hm.next_eq ▸ hallowed
    have hcall : (m.call (.append entries)).2 = { m with log := m.log ++ entries } := by
      rw [LogStoreInner.call, hm.contiguous.foldl_insertEntry hes]
    rw [hcall]
    exact ⟨hm.contiguous.append hes, fun e he =>
      (mem_append.1 he).elim (hm.below e) (hproper e)⟩
  | truncate logId =>
    exact ⟨hm.contiguous.filter_lt _, fun e he => hm.below e (mem_of_mem_filter he)⟩
  | purge logId =>
    exact ⟨hm.contiguous.filter_gt hallowed, fun e he => hm.below e (mem_of_mem_filter he)⟩
  | _ => exact ⟨hm.contiguous, hm.below⟩

/-! ### Calls on the durable log -/

/-- The keys that hold a log in memory. -/
def LogStoreInner.keys : RaftKeys P :=
  ⟨m.vote, m.committed.map some, m.purged, m.log⟩

theorem IndexRange.contains_iff {r : IndexRange} {i : ℕ} (hi : i < u64Max) :
    r.contains i = true ↔ r.start ≤ i ∧ i < r.finish := by
  rcases r with ⟨⟨v⟩ | ⟨v⟩ | _, ⟨u⟩ | ⟨u⟩ | _⟩ <;>
    simp only [contains, start, finish, satAdd, Bool.and_eq_true, decide_eq_true_eq, eq_self,
      true_and, and_true, true_iff] <;> omega

variable {m}

theorem LogStoreInner.Sound.scan_eq (hm : m.Sound) (r : IndexRange) :
    scan m.log r.start r.finish = m.log.filter (r.contains ·.logId.index) := by
  refine filter_congr fun e he => ?_
  rw [Bool.eq_iff_iff, IndexRange.contains_iff (hm.below e he), decide_eq_true_eq]

@[simp] theorem exec_txn_iff {s s' : RaftKeys P} {o : LogOp P} {a : o.Ret} :
    Ends (LogStep page) s (txn o) a s' ↔ a = (o.apply page s).1 ∧ s' = (o.apply page s).2 :=
  execE_call_iff.trans logStep_ok_iff

section Methods

variable {s s' : RaftKeys P}

theorem exec_tryGetLogEntries_iff {range : IndexRange} {entries : List (Entry P)} :
    Ends (LogStep page) s (tryGetLogEntries range) entries s' ↔
      entries = (scan s.log range.start range.finish).take
        (page (scan s.log range.start range.finish)) ∧ s' = s :=
  exec_txn_iff

theorem exec_getLogState_iff {state : LogState} :
    Ends (LogStep page) s (getLogState : LogProg P LogState) state s' ↔
      state = ⟨s.purged, ((scan s.log 0 u64Max).take (page (scan s.log 0 u64Max))).getLast?.map
        Entry.logId⟩ ∧ s' = s := by
  refine execE_bind_iff.trans ⟨?_, ?_⟩
  · rintro ⟨entries, s1, hentries, he⟩
    obtain ⟨rfl, rfl⟩ := exec_tryGetLogEntries_iff.1 hentries
    obtain ⟨purged, s2, hpurged, he⟩ := execE_bind_iff.1 he
    obtain ⟨rfl, rfl⟩ := (exec_txn_iff).1 hpurged
    exact execE_pure_iff.1 he
  · rintro ⟨rfl, rfl⟩
    exact ⟨_, s', exec_tryGetLogEntries_iff.2 ⟨rfl, rfl⟩, execE_bind_iff.2
      ⟨_, s', (exec_txn_iff).2 ⟨rfl, rfl⟩, execE_pure_iff.2 ⟨rfl, rfl⟩⟩⟩

/-- `read_committed` answers unless `null` is stored. -/
theorem exec_readCommitted_iff {committed : Option LogId} :
    Ends (LogStep page) s (readCommitted : LogProg P (Option LogId)) committed
      s' ↔ s.committed = committed.map some ∧ s' = s := by
  have hde : ∀ value, deCommitted value = .ok committed ↔ value = committed.map some := by
    rintro (_ | _ | logId) <;> cases committed <;> simp [deCommitted]
  refine execE_bind_iff.trans ⟨?_, ?_⟩
  · rintro ⟨value, s1, hvalue, he⟩
    obtain ⟨rfl, rfl⟩ := (exec_txn_iff).1 hvalue
    obtain ⟨hvalue, rfl⟩ := execE_liftExcept_iff.1 he
    exact ⟨(hde _).1 hvalue, rfl⟩
  · rintro ⟨hvalue, rfl⟩
    exact ⟨s'.committed, s', (exec_txn_iff).2 ⟨rfl, rfl⟩,
      execE_liftExcept_iff.2 ⟨(hde _).2 hvalue, rfl⟩⟩

theorem exec_append_iff {entries : List (Entry P)} {a : PUnit} :
    Ends (LogStep page) s (append entries) a s' ↔
      s' = { s with log := entries.foldl insertEntry s.log } := by
  unfold append
  induction entries generalizing s with
  | nil => exact execE_forM_nil_iff
  | cons e entries ih =>
    rw [execE_forM_cons_iff]
    constructor
    · rintro ⟨s1, he, hes⟩
      obtain ⟨-, rfl⟩ := (exec_txn_iff).1 he
      exact ih.1 hes
    · rintro rfl
      exact ⟨_, (exec_txn_iff).2 ⟨rfl, rfl⟩, ih.2 rfl⟩

theorem exec_purge_iff {logId : LogId} {a : Unit} :
    Ends (LogStep page) s (purge logId : LogProg P Unit) a s' ↔
      s' = { s with log := clear s.log 0 (satAdd logId.index 1), purged := some logId } := by
  refine execE_bind_iff.trans ⟨?_, ?_⟩
  · rintro ⟨_, s1, hclear, hset⟩
    obtain ⟨-, rfl⟩ := (exec_txn_iff).1 hclear
    exact ((exec_txn_iff).1 hset).2
  · rintro rfl
    exact ⟨_, _, (exec_txn_iff).2 ⟨rfl, rfl⟩,
      (exec_txn_iff).2 ⟨rfl, rfl⟩⟩

end Methods

/-- Clearing from an index on, for indexes below the largest one. -/
theorem LogStoreInner.Sound.clear_from (hm : m.Sound) (k : ℕ) :
    clear m.log k u64Max = m.log.filter (·.logId.index < k) := by
  refine filter_congr fun e he => ?_
  have := hm.below e he
  rw [Bool.eq_iff_iff, decide_eq_true_eq, decide_eq_true_eq]
  omega

/-- Clearing up to an index, for indexes below the largest one. -/
theorem LogStoreInner.Sound.clear_upTo (hm : m.Sound) (k : ℕ) :
    clear m.log 0 (satAdd k 1) = m.log.filter (k < ·.logId.index) := by
  refine filter_congr fun e he => ?_
  have := hm.below e he
  rw [Bool.eq_iff_iff, decide_eq_true_eq, decide_eq_true_eq, satAdd]
  omega

theorem Fits.take_eq {entries : List (Entry P)} (h : Fits page entries) :
    entries.take (page entries) = entries := take_of_length_le h

/-- A proper call on the durable log answers and leaves what it does in memory. -/
theorem exec_call_iff (hm : m.Sound) {call : Call P}
    (hproper : call.Proper page m) {a : Answer P} {s : RaftKeys P} :
    Ends (LogStep page) m.keys call.run a s ↔ a = (m.call call).1 ∧ s = (m.call call).2.keys := by
  have hall : scan m.log 0 u64Max = m.log := by
    refine filter_eq_self.2 fun e he => ?_
    simpa using hm.below e he
  cases call with
  | tryGetLogEntries range =>
    have hpage : Fits page (scan m.log range.start range.finish) := hm.scan_eq range ▸ hproper
    simp only [Call.run, execE_map_iff, exec_tryGetLogEntries_iff, LogStoreInner.keys,
      hpage.take_eq, LogStoreInner.call, ← hm.scan_eq, and_right_comm, exists_and_right,
      exists_eq_left]
  | getLogState =>
    simp only [Call.run, execE_map_iff, exec_getLogState_iff, LogStoreInner.keys, hall,
      hproper.1.take_eq, LogStoreInner.call, and_right_comm, exists_and_right, exists_eq_left]
  | saveCommitted committed =>
    obtain ⟨logId, rfl⟩ := ne_none_iff_exists'.1 hproper
    refine execE_map_iff.trans ⟨?_, ?_⟩
    · rintro ⟨_, h, ha⟩
      exact ⟨ha, (exec_txn_iff.1 h).2⟩
    · rintro ⟨ha, h⟩
      exact ⟨(), exec_txn_iff.2 ⟨rfl, h⟩, ha⟩
  | readCommitted =>
    simp only [Call.run, execE_map_iff, exec_readCommitted_iff, LogStoreInner.keys,
      LogStoreInner.call, (map_injective (fun _ _ => some.inj)).eq_iff, and_right_comm,
      exists_and_right, exists_eq_left']
  | saveVote vote =>
    refine execE_map_iff.trans ⟨?_, ?_⟩
    · rintro ⟨_, h, ha⟩
      exact ⟨ha, (exec_txn_iff.1 h).2⟩
    · rintro ⟨ha, h⟩
      exact ⟨(), exec_txn_iff.2 ⟨rfl, h⟩, ha⟩
  | readVote =>
    refine execE_map_iff.trans ⟨?_, ?_⟩
    · rintro ⟨_, h, ha⟩
      obtain ⟨rfl, rfl⟩ := exec_txn_iff.1 h
      exact ⟨ha, rfl⟩
    · rintro ⟨ha, h⟩
      exact ⟨m.vote, exec_txn_iff.2 ⟨rfl, h⟩, ha⟩
  | append entries =>
    simp only [Call.run, execE_map_iff, exec_append_iff, LogStoreInner.keys, LogStoreInner.call,
      exists_const, and_comm]
  | truncate logId =>
    refine execE_map_iff.trans ⟨?_, ?_⟩
    · rintro ⟨_, h, ha⟩
      refine ⟨ha, (exec_txn_iff.1 h).2.trans ?_⟩
      simp [apply, LogStoreInner.keys, hm.clear_from, LogStoreInner.call]
    · rintro ⟨ha, h⟩
      refine ⟨(), exec_txn_iff.2 ⟨rfl, h.trans ?_⟩, ha⟩
      simp [apply, LogStoreInner.keys, hm.clear_from, LogStoreInner.call]
  | purge logId =>
    simp only [Call.run, execE_map_iff, exec_purge_iff, LogStoreInner.keys, LogStoreInner.call,
      hm.clear_upTo, exists_const, and_comm]

theorem LogStoreInner.Sound.calls (hm : m.Sound) {calls : List (Call P)}
    (hallowed : Along Call.Allowed m calls) (hproper : Along (Call.Proper page) m calls) :
    (m.calls calls).2.Sound := by
  induction calls generalizing m with
  | nil => exact hm
  | cons call calls ih => exact ih (hm.call hallowed.1 hproper.1) hallowed.2 hproper.2

/-- Proper calls on the durable log answer and leave what they do in memory. -/
theorem exec_session_iff (hm : m.Sound) {calls : List (Call P)}
    (hallowed : Along Call.Allowed m calls) (hproper : Along (Call.Proper page) m calls)
    {answers : List (Answer P)} {s : RaftKeys P} :
    Ends (LogStep page) m.keys (session calls) answers s ↔
      answers = (m.calls calls).1 ∧ s = (m.calls calls).2.keys := by
  induction calls generalizing m answers s with
  | nil => exact execE_pure_iff
  | cons call calls ih =>
    have ih := fun {answers s} => @ih (m.call call).2 (hm.call hallowed.1 hproper.1) hallowed.2
      hproper.2 answers s
    refine execE_bind_iff.trans ⟨?_, ?_⟩
    · rintro ⟨a, s1, hcall, he⟩
      obtain ⟨rfl, rfl⟩ := (exec_call_iff hm hproper.1).1 hcall
      obtain ⟨as, s2, hcalls, he⟩ := execE_bind_iff.1 he
      obtain ⟨rfl, rfl⟩ := ih.1 hcalls
      exact execE_pure_iff.1 he
    · rintro ⟨rfl, rfl⟩
      exact ⟨_, _, (exec_call_iff hm hproper.1).2 ⟨rfl, rfl⟩, execE_bind_iff.2
        ⟨_, _, ih.2 ⟨rfl, rfl⟩, execE_pure_iff.2 ⟨rfl, rfl⟩⟩⟩

/-! ### Crashes -/

/-- The call truncates or purges the entry. -/
def Call.Drops (e : Entry P) : Call P → Prop
  | .truncate logId => logId.index ≤ e.logId.index
  | .purge logId => e.logId.index ≤ logId.index
  | _ => False

variable (m) in
/-- A purge removes all entries or none. -/
def Call.CutSafely : Call P → Prop
  | .purge logId => (∀ e ∈ m.log, logId.index < e.logId.index) ∨
      ∀ e ∈ m.log, e.logId.index ≤ logId.index
  | _ => True

variable (m) in
/-- What a crash in a call leaves: a log that is contiguous behind the last purged id, with all
entries of before that the call does not truncate or purge. -/
structure Intact (call : Call P) (s : RaftKeys P) : Prop where
  contiguous : ContiguousFrom (startAfter s.purged) s.log
  kept : ∀ e ∈ m.log, ¬call.Drops e → e ∈ s.log

theorem cut_txn {s s' : RaftKeys P} {o : LogOp P} (hc : Cut (LogStep page) s (txn o).run s') :
    s' = s ∨ s' = (o.apply page s).2 := by
  rcases cutE_call hc with rfl | ⟨_, hs⟩
  · exact .inl rfl
  · cases hs with
    | ok => exact .inr rfl
    | error => exact .inl rfl

theorem cut_append {s s' : RaftKeys P} {entries : List (Entry P)}
    (hc : Cut (LogStep page) s (append entries).run s') :
    ∃ n, s' = { s with log := (entries.take n).foldl insertEntry s.log } := by
  induction entries generalizing s with
  | nil => exact ⟨0, cut_ret hc⟩
  | cons e entries ih =>
    rcases cutE_bind hc with h | ⟨_, s1, he, h⟩
    · rcases cut_txn h with rfl | rfl
      · exact ⟨0, rfl⟩
      · exact ⟨1, rfl⟩
    · obtain ⟨-, rfl⟩ := (exec_txn_iff).1 he
      obtain ⟨n, rfl⟩ := ih h
      exact ⟨n + 1, rfl⟩

theorem ContiguousFrom.take {i : ℕ} {es : List (Entry P)} (h : ContiguousFrom i es) (n : ℕ) :
    ContiguousFrom i (es.take n) := by
  induction es generalizing i n with
  | nil => simpa using h
  | cons e es ih =>
    cases n with
    | zero => trivial
    | succ n => exact ⟨h.1, ih h.2 n⟩

/-- A crash in a call leaves the log intact, if a purge removes all entries or none. -/
theorem intact_of_cut (hm : m.Sound) {call : Call P}
    (hallowed : call.Allowed m) (hsafe : call.CutSafely m) {s : RaftKeys P}
    (hc : Cut (LogStep page) m.keys call.run.run s) : Intact m call s := by
  -- a call that writes neither the log nor the purged id
  have hframe : (call.run.run.Issues fun o => o.writes ≠ some .log ∧ o.writes ≠ some .purged) →
      Intact m call s := by
    intro hissues
    obtain ⟨hlog, hpurged⟩ := hc.invariant (J := fun s => s.log = m.log ∧ s.purged = m.purged)
      hissues ⟨rfl, rfl⟩ fun s _ _ s' hJ ho hs => by
        have hlog : s'.log = s.log := hs.agree ho.1
        have hpurged : s'.purged = s.purged := hs.agree ho.2
        exact ⟨hlog.trans hJ.1, hpurged.trans hJ.2⟩
    constructor
    · rw [hlog, hpurged]
      exact hm.contiguous
    · exact fun e he _ => hlog ▸ he
  cases call with
  | append entries =>
    have hes : ContiguousFrom (startAfter m.purged + m.log.length) entries := hm.next_eq ▸ hallowed
    obtain ⟨n, rfl⟩ := cut_append (cutE_map hc)
    have hfold := hm.contiguous.foldl_insertEntry (hes.take n)
    constructor
    · exact (congrArg (ContiguousFrom _) hfold).mpr (hm.contiguous.append (hes.take n))
    · exact fun e he _ => hfold ▸ mem_append_left _ he
  | truncate logId =>
    rcases cut_txn (cutE_map hc) with rfl | rfl
    · exact ⟨hm.contiguous, fun e he _ => he⟩
    · have hclear : ((clearRange logId.index u64Max).apply page m.keys).2 =
          { m with log := m.log.filter (·.logId.index < logId.index) }.keys := by
        rw [← hm.clear_from]
        rfl
      rw [hclear]
      exact ⟨hm.contiguous.filter_lt _, fun e he hdrop =>
        mem_filter.2 ⟨he, by simpa using not_le.1 hdrop⟩⟩
  | purge logId =>
    have hkept : ∀ e ∈ m.log, ¬(Call.purge logId).Drops e →
        e ∈ m.log.filter (logId.index < ·.logId.index) :=
      fun e he hdrop => mem_filter.2 ⟨he, by simpa using not_le.1 hdrop⟩
    have hclear : ((clearRange 0 (satAdd logId.index 1)).apply page m.keys).2 =
        { m with log := m.log.filter (logId.index < ·.logId.index) }.keys := by
      rw [← hm.clear_upTo]
      rfl
    have hcleared : Intact m (.purge logId)
        { m with log := m.log.filter (logId.index < ·.logId.index) }.keys := by
      -- the purged id is still the old one
      refine ⟨?_, hkept⟩
      rcases hsafe with hnone | hall
      · rw [filter_eq_self.2 fun e he => by simpa using hnone e he]
        exact hm.contiguous
      · rw [filter_eq_nil_iff.2 fun e he => by simpa using hall e he]
        trivial
    rcases cutE_bind (cutE_map hc) with h | ⟨_, s1, he, h⟩
    · rcases cut_txn h with rfl | rfl
      · exact ⟨hm.contiguous, fun e he _ => he⟩
      · exact hclear ▸ hcleared
    · obtain ⟨-, rfl⟩ := (exec_txn_iff).1 he
      rw [hclear] at h
      rcases cut_txn h with rfl | rfl
      · exact hcleared
      · exact ⟨hm.contiguous.filter_gt hallowed, hkept⟩
  | readCommitted => exact hframe (issuesE_bind (issuesE_bind (issuesE_call ⟨nofun, nofun⟩)
      fun _ => issuesE_liftExcept) fun _ => issuesE_pure)
  | getLogState => exact hframe (issuesE_bind (issuesE_bind (issuesE_call ⟨nofun, nofun⟩)
      fun _ => issuesE_bind (issuesE_call ⟨nofun, nofun⟩) fun _ => issuesE_pure) fun _ =>
        issuesE_pure)
  | _ => exact hframe (issuesE_bind (issuesE_call ⟨nofun, nofun⟩) fun _ => issuesE_pure)

/-! ### The refinement -/

variable (m) in
/-- The last log id that `get_log_state` should report: the id of the highest entry, or the last
purged id when there is no entry. -/
def LogStoreInner.LastLogId (last : Option LogId) : Prop :=
  (∃ e ∈ m.log, last = some e.logId ∧ ∀ e' ∈ m.log, e'.logId.index ≤ e.logId.index) ∨
    m.log = [] ∧ last = m.purged

theorem LogStoreInner.Sound.lastLogId (hm : m.Sound)
    (hproper : Call.getLogState.Proper page m) : m.LastLogId (m.log.getLast?.map Entry.logId) := by
  rcases hlast : m.log.getLast? with _ | e
  · have hnil := getLast?_eq_none_iff.1 hlast
    exact .inr ⟨hnil, (hproper.2 hnil).symm⟩
  · refine .inl ⟨e, mem_of_getLast? hlast, rfl, fun e' he' => ?_⟩
    have := hm.contiguous.getLast?_index hlast
    have := (hm.contiguous.index_mem he').2
    omega

theorem Along.of_append {R : LogStoreInner P → Call P → Prop}
    {pre : List (Call P)} {call : Call P} {post : List (Call P)}
    (h : Along R m (pre ++ call :: post)) : Along R m pre ∧ R (m.calls pre).2 call := by
  induction pre generalizing m with
  | nil => exact ⟨trivial, h.1⟩
  | cons c pre ih => exact ⟨⟨h.1, (ih h.2).1⟩, (ih h.2).2⟩

/-- **On proper calls the durable log is the log in memory.**  For calls that the contract allows
and that are proper, the durable log answers what the log in memory answers and stores what it
stores; each `get_log_state` names the highest entry; and a crash in one more call leaves a
contiguous log with all acknowledged entries, if that call is not a purge that removes only some of
the entries. -/
theorem fdbLogStore_refines (calls : List (Call P)) (hallowed : Along Call.Allowed {} calls)
    (hproper : Along (Call.Proper page) {} calls) :
    (∀ answers s, Exec (LogStep page) {} (session calls).run (.ok answers) s ↔
      answers = (LogStoreInner.calls {} calls).1 ∧ s = (LogStoreInner.calls {} calls).2.keys) ∧
    (∀ pre post, calls = pre ++ .getLogState :: post →
      ∃ state, ((LogStoreInner.calls {} pre).2.call .getLogState).1 = .state state ∧
        (LogStoreInner.calls {} pre).2.LastLogId state.lastLogId) ∧
    ∀ call s, call.Allowed (LogStoreInner.calls {} calls).2 →
      call.CutSafely (LogStoreInner.calls {} calls).2 →
      Cut (LogStep page) (LogStoreInner.calls {} calls).2.keys call.run.run s →
      Intact (LogStoreInner.calls {} calls).2 call s := by
  have hempty : ({} : LogStoreInner P).Sound := ⟨trivial, nofun⟩
  refine ⟨fun answers s => exec_session_iff hempty hallowed hproper, ?_,
    fun call s hcall hsafe hc => intact_of_cut (hempty.calls hallowed hproper) hcall hsafe hc⟩
  rintro pre post rfl
  obtain ⟨hallowed, -⟩ := hallowed.of_append
  obtain ⟨hproper, hstate⟩ := hproper.of_append
  exact ⟨_, rfl, (hempty.calls hallowed hproper).lastLogId hstate⟩

/-- The second entry of a log. -/
def secondEntry : Entry Unit := ⟨⟨1, 1, 1⟩, ()⟩

/-- A call of each kind, with two entries of which the first one is purged. -/
def properCalls : List (Call Unit) :=
  [.saveVote sampleVote, .append [firstEntry, secondEntry], .saveCommitted (some firstEntry.logId),
    .purge firstEntry.logId, .getLogState, .tryGetLogEntries ⟨.included 1, .unbounded⟩]

/-- The durable log names the second entry after the first one was purged. -/
theorem fdbLogStore_refines_properCalls :
    ∃ s, Exec (LogStep List.length) {} (session properCalls).run
      (.ok [.done, .done, .done, .done, .state ⟨some firstEntry.logId, some secondEntry.logId⟩,
        .entries [secondEntry]]) s :=
  ⟨_, ((fdbLogStore_refines properCalls (by simp [properCalls, Along, Call.Allowed, ContiguousFrom,
      LogStoreInner.next, LogStoreInner.call, firstEntry, secondEntry, startAfter,
      IndexRange.start, IndexRange.finish, u64Max]) (by
    simp [properCalls, Along, Call.Proper, Fits, LogStoreInner.call, firstEntry, secondEntry,
      insertEntry, u64Max])).1 _ _).2 ⟨by decide, rfl⟩⟩

/-- Run calls without a failure. -/
def runCalls (page : List (Entry Unit) → ℕ) (calls : List (Call Unit)) :
    Option (Except StorageError (List (Answer Unit)) × RaftKeys Unit) :=
  (session calls).run.runAlone (fun s o (_ : Unit) =>
    some (.ok (o.apply page s).1, (o.apply page s).2)) {} (List.replicate 9 ())

/-- **Where the durable log differs**: `None` cannot be read back as the committed id, a page of one
entry hides the second one, and after a purge of all entries the purged id is not reported.  A crash
between the two transactions of a purge leaves a log that starts at index 1 with nothing purged. -/
theorem fdbLogStore_differs :
    (runCalls List.length [.saveCommitted none, .readCommitted]).map Prod.fst =
      some (.error .read) ∧
    (runCalls (fun _ => 1) [.append [firstEntry, secondEntry], .getLogState]).map Prod.fst =
      some (.ok [.done, .state ⟨none, some firstEntry.logId⟩]) ∧
    (runCalls List.length [.append [firstEntry], .purge firstEntry.logId, .getLogState]).map
      Prod.fst = some (.ok [.done, .done, .state ⟨some firstEntry.logId, none⟩]) ∧
    Cut (LogStep List.length) { log := [firstEntry, secondEntry] }
      (Call.purge firstEntry.logId).run.run { log := [secondEntry] } ∧
    ¬ContiguousFrom (startAfter none) [secondEntry] := by
  refine ⟨by decide, by decide, by decide, ?_, fun h => absurd h.1 (by decide)⟩
  exact Cut.op (LogStep.ok _) Cut.here

end NovaCore.Raft
