import NovaCore.Executor.Session
import NovaCore.Metadata.Calls
import NovaCore.Prog.Issue

/-!
# Terminal transaction states

A transaction that has been committed or aborted should stay as it is.  The calls that end a
transaction read its record in one transaction and write it in a later one, and look at neither the
status they read nor the one they overwrite; `commit_table_cdc` writes over any status.

## Main definitions

* `TransactionManager.commit`, `TransactionManager.abort` : the calls of the transaction manager.
* `TxnCall` : the calls that write transaction records.
* `TxnCall.startsActive` : the transaction that a call is to end is active.
* `TxnInv` : transaction identifiers are issued once, and no record is stored before its turn.

## Main results

* `TxnInv.step`, `TxnInv.kept`, `AwaitsEnd.step` : what one operation of a call does to records.
* `transaction_states_terminal` : in every interleaving in which a transaction is ended by one call,
  which starts while it is active, ended transactions stay as they are, and nothing is published for
  an aborted one.
* `aborted_transaction_commits` : three ways to leave the aborted state.
-/

namespace NovaCore

open Prog List Function Protocol Store

/-! ### The transaction manager -/

/-- The result of a commit attempt. -/
inductive CommitResult
  | committed (commitTs : Timestamp)
  | aborted (reason : String)
  deriving DecidableEq

variable (id : TxnId)

/-- `TransactionManager::commit`: the status is checked before `commit_transaction` reads it
again. -/
def TransactionManager.commit : Meta CommitResult := do
  match ← ask (.getTransaction id) with
  | none => throw (.internal ("transaction " ++ toString id ++ " not found"))
  | some txn =>
    if txn.status ≠ .active then
      return .aborted ("transaction " ++ toString id ++ " is not active")
    else do
      commitTransaction id
      match ← ask (.getTransaction id) with
      | none => throw (.internal ("transaction " ++ toString id ++ " not found after commit"))
      | some txn => return .committed (txn.commitTs.getD 0)

/-- `TransactionManager::abort`. -/
def TransactionManager.abort : Meta Unit := abortTransaction id

/-- A call that writes transaction records. -/
inductive TxnCall
  | beginTransaction
  | commitTransaction (id : TxnId)
  | abortTransaction (id : TxnId)
  | commitTableCdc (id : TxnId) (newMps : List MicroPartitionMeta)
      (superseded : List (MpId × MpId)) (records : List ChangeRecordMeta)
  | managerCommit (id : TxnId)
  | managerAbort (id : TxnId)

/-- The program of a call. -/
def TxnCall.exec : TxnCall → Meta Unit
  | beginTransaction => do let _ ← storage NovaCore.beginTransaction
  | commitTransaction id => NovaCore.commitTransaction id
  | abortTransaction id => NovaCore.abortTransaction id
  | commitTableCdc id newMps superseded records =>
    storage (await (.commitTableCdc id newMps superseded records))
  | managerCommit id => do let _ ← TransactionManager.commit id
  | managerAbort id => TransactionManager.abort id

/-- The transaction that a call ends. -/
def TxnCall.ends : TxnCall → Option TxnId
  | beginTransaction => none
  | commitTransaction id | abortTransaction id | managerCommit id | managerAbort id => some id
  | commitTableCdc id _ _ _ => if id = 0 then none else some id

/-- The transaction is stored as active. -/
def Store.isActive (st : Store) (id : TxnId) : Bool :=
  (st.txns id).any fun m => m.status = .active

/-- The transaction that a call ends is active. -/
def TxnCall.startsActive (st : Store) (call : TxnCall) : Bool := call.ends.all st.isActive

/-- The calls `calls`, all about to start, over the store `st`. -/
def txnConfig {ι : Type} (st : Store) (calls : ι → TxnCall) :
    Config ι MetaOp MetaOp.Res Store fun _ => Except NovaError Unit where
  world := st
  threads i := (calls i).exec.run

/-! ### What the calls may do -/

/-- The event that issues a transaction identifier. -/
def issueEvent : Event MetaOp MetaOp.Res := ⟨.storage .nextTxnId, .ok id⟩

/-- The event that stores the record of a new transaction. -/
def startEvent (txn : TransactionMeta) : Event MetaOp MetaOp.Res := ⟨.storage (.setTxn txn), .ok ()⟩

/-- The transaction whose record an operation overwrites. -/
def MetaOp.endsTxn : MetaOp → Option TxnId
  | .txn (.setTransaction id _) => some id
  | .storage (.commitTableCdc id _ _ _) => if id = 0 then none else some id
  | _ => none

/-- The operations of a call, after its events `s`: a new record is stored under the identifier that
was issued for it, once, and a call overwrites the record of the transaction that it ends, once. -/
def TxnMay (call : TxnCall) (s : List (Event MetaOp MetaOp.Res)) : MetaOp → Prop
  | .query _ => True
  | .txn (.setTransaction id _) => call.ends = some id ∧ ∀ e ∈ s, e.1.endsTxn = none
  | .storage .nowMicros => True
  | .storage .nextTxnId => True
  | .storage (.commitTableCdc id _ _ _) =>
    (id ≠ 0 → call.ends = some id) ∧ ∀ e ∈ s, e.1.endsTxn = none
  | .storage (.setTxn txn) => issueEvent txn.txnId ∈ s ∧ ∀ txn', startEvent txn' ∉ s
  | _ => False

/-- The protocol of a call. -/
def txnProtocol (call : TxnCall) : Protocol MetaOp MetaOp.Res (List (Event MetaOp MetaOp.Res)) :=
  .ofEvents (TxnMay call)

/-- An operation of a call ends the transaction of the call, and nothing was ended before. -/
theorem TxnMay.ends {id : TxnId} {call : TxnCall} {s : List (Event MetaOp MetaOp.Res)} {o : MetaOp}
    (hmay : TxnMay call s o) (ho : o.endsTxn = some id) :
    call.ends = some id ∧ ∀ e ∈ s, e.1.endsTxn = none := by
  unfold MetaOp.endsTxn at ho
  split at ho
  · cases ho
    exact hmay
  · split_ifs at ho with hid
    cases ho
    exact ⟨hmay.1 hid, hmay.2⟩
  · cases ho

/-- What the operations of the calls do to transaction records and to their counter. -/
inductive TxnEffect (txns : TxnId → Option TransactionMeta) (next : ℕ) :
    Event MetaOp MetaOp.Res → (TxnId → Option TransactionMeta) → ℕ → Prop
  | same {e : Event MetaOp MetaOp.Res} (he : ∀ id, e ≠ issueEvent id) :
      TxnEffect txns next e txns next
  | issue : TxnEffect txns next (issueEvent (next + 1)) txns (next + 1)
  | start (txn : TransactionMeta) : TxnEffect txns next (startEvent txn)
      (Function.update txns txn.txnId (some txn)) next
  | finish (id : TxnId) (txn : TransactionMeta) :
      TxnEffect txns next ⟨.txn (.setTransaction id txn), .ok ()⟩
        (Function.update txns id (some txn)) next
  | publish {id : TxnId} {newMps : List MicroPartitionMeta} {superseded : List (MpId × MpId)}
      {records : List ChangeRecordMeta} {m m' : TransactionMeta} (hid : id ≠ 0)
      (hm : txns id = some m) :
      TxnEffect txns next ⟨.storage (.commitTableCdc id newMps superseded records), .ok ()⟩
        (Function.update txns id (some m')) next

variable {id : TxnId} {txn : TransactionMeta}

section Steps

variable {pq : Parquet} {ι : Type} {st st' : Store} {o : MetaOp} {r : o.Res} {call : TxnCall}
  {s : List (Event MetaOp MetaOp.Res)}

theorem Store.isActive_iff : st.isActive id = true ↔ ∃ m, st.txns id = some m ∧
    m.status = .active := by
  simp [isActive, Option.any_eq_true]

/-- **What a call does to transaction records, one operation at a time.** -/
theorem txnEffect_of_step (hmay : TxnMay call s o) (hs : MetaStep pq st o r st') :
    TxnEffect st.txns st.nextTxn ⟨o, r⟩ st'.txns st'.nextTxn := by
  cases metaStep_effect hs with
  | query _ | failed => exact .same fun id => nofun
  | @txn t a _ hrun =>
    cases t <;> try exact hmay.elim
    case setTransaction id txn =>
      cases hrun
      exact .finish id txn
  | @storage o r w' hstep =>
    cases step_effect hstep with
    | quiet hquiet =>
      refine .same fun id he => ?_
      cases he
      cases hquiet
    | nextTxnId => exact .issue
    | setTxn txn => exact .start txn
    | commit hcommit =>
      obtain ⟨-, htxns, hnext⟩ := World.commitTableCdc_spec hcommit
      rw [hnext]
      generalize w'.txns = txns' at htxns
      cases htxns with
      | none _ => exact .same fun id => nofun
      | some hid hm => exact .publish hid hm
    | _ => exact hmay.elim

/-! ### Identifiers are issued once -/

/-- Transaction identifiers are issued once, and none is in use before its call has stored the
record. -/
abbrev TxnInv (base : ℕ) (h : History ι MetaOp MetaOp.Res) (txns : TxnId → Option TransactionMeta)
    (next : ℕ) : Prop :=
  IssueInv issueEvent (fun e => ∃ txn, e = startEvent txn) base h (fun id => txns id ≠ none) next

theorem issueEvent_injective : Injective issueEvent := fun id id' h => by
  cases h
  rfl

variable [DecidableEq ι] {i : ι} {h : History ι MetaOp MetaOp.Res} {base : ℕ}

theorem TxnInv.step (hinv : TxnInv base h st.txns st.nextTxn)
    (hactive : ∀ id, o.endsTxn = some id → st.isActive id = true)
    (hmay : TxnMay call (eventsOf i h) o) (hs : MetaStep pq st o r st') :
    TxnInv base (h ++ [(i, ⟨o, r⟩)]) st'.txns st'.nextTxn := by
  -- writing a record that is stored already takes no new identifier
  have hover : ∀ {id m m'}, st.txns id = some m →
      ∀ k, update st.txns id (some m') k ≠ none → st.txns k ≠ none := by
    intro id m m' hm k hk
    by_cases heq : k = id
    · simp [heq, hm]
    · simpa [heq] using hk
  have heffect := txnEffect_of_step hmay hs
  generalize st'.txns = txns', st'.nextTxn = next' at heffect
  cases heffect with
  | same he => exact hinv.quiet he fun _ hk => hk
  | issue => exact hinv.issueNext issueEvent_injective
  | start txn =>
    refine hinv.store (.inl ⟨mem_eventsOf.1 hmay.1, txn, rfl⟩) (fun _ => nofun) fun k hk => ?_
    by_cases heq : k = txn.txnId
    · exact .inr heq
    · exact .inl (by simpa [heq] using hk)
  | finish id txn =>
    obtain ⟨m, hm, -⟩ := isActive_iff.1 (hactive id rfl)
    exact hinv.quiet (fun _ => nofun) (hover hm)
  | publish hid hm => exact hinv.quiet (fun _ => nofun) (hover hm)

/-- **An operation leaves every record but that of the transaction it ends as it is.** -/
theorem TxnInv.kept (hinv : TxnInv base h st.txns st.nextTxn) (hmay : TxnMay call (eventsOf i h) o)
    (hs : MetaStep pq st o r st') {m : TransactionMeta} (hm : st.txns id = some m)
    (hother : o.endsTxn ≠ some id) : st'.txns id = some m := by
  have heffect := txnEffect_of_step hmay hs
  generalize st'.txns = txns', st'.nextTxn = next' at heffect
  cases heffect with
  | same he | issue => exact hm
  | start txn =>
    have hnone := hinv.unused (mem_eventsOf.1 hmay.1) fun e he ⟨txn', heq⟩ =>
      hmay.2 txn' (mem_eventsOf.2 (heq ▸ he))
    have hne : id ≠ txn.txnId := by
      rintro rfl
      simp [hm] at hnone
    rwa [update_of_ne hne]
  | finish id' txn =>
    have hne : id ≠ id' := by
      rintro rfl
      exact hother rfl
    rwa [update_of_ne hne]
  | @publish id' _ _ _ _ _ hid hm' =>
    have hne : id ≠ id' := by
      rintro rfl
      exact hother (if_neg hid)
    rwa [update_of_ne hne]

/-! ### Transactions that are about to end -/

/-- The transaction of a call that has started and has not ended it is active. -/
def AwaitsEnd (calls : ι → TxnCall) (h : History ι MetaOp MetaOp.Res) (st : Store) : Prop :=
  ∀ i id, (calls i).ends = some id → eventsOf i h ≠ [] →
    (∀ e ∈ eventsOf i h, e.1.endsTxn = none) → st.isActive id = true

variable {calls : ι → TxnCall}

/-- A call that starts while its transaction is active ends an active transaction. -/
theorem AwaitsEnd.active (hawaits : AwaitsEnd calls h st)
    (hstarts : eventsOf i h = [] → (calls i).startsActive st = true)
    (hmay : TxnMay (calls i) (eventsOf i h) o) (ho : o.endsTxn = some id) :
    st.isActive id = true := by
  obtain ⟨hends, hfirst⟩ := hmay.ends ho
  by_cases hstarted : eventsOf i h = []
  · simpa [TxnCall.startsActive, hends] using hstarts hstarted
  · exact hawaits i id hends hstarted hfirst

theorem AwaitsEnd.step (hawaits : AwaitsEnd calls h st) (hinv : TxnInv base h st.txns st.nextTxn)
    (hone : ∀ i j id, (calls i).ends = some id → (calls j).ends = some id → i = j)
    (hstarts : eventsOf i h = [] → (calls i).startsActive st = true)
    (hmay : TxnMay (calls i) (eventsOf i h) o) (hs : MetaStep pq st o r st') :
    AwaitsEnd calls (h ++ [(i, ⟨o, r⟩)]) st' := by
  intro j id hends hstarted hfirst
  -- the transaction is active before the step, and the step does not end it
  obtain ⟨hactive, hother⟩ : st.isActive id = true ∧ o.endsTxn ≠ some id := by
    by_cases hij : i = j
    · subst hij
      rw [eventsOf_snoc_self] at hfirst
      refine ⟨?_, by simp [hfirst ⟨o, r⟩ (by simp)]⟩
      by_cases hnew : eventsOf i h = []
      · simpa [TxnCall.startsActive, hends] using hstarts hnew
      · exact hawaits i id hends hnew fun e he => hfirst e (mem_append_left _ he)
    · rw [eventsOf_snoc_ne hij] at hstarted hfirst
      exact ⟨hawaits j id hends hstarted hfirst, fun ho => hij (hone i j id (hmay.ends ho).1 hends)⟩
  obtain ⟨m, hm, hstatus⟩ := isActive_iff.1 hactive
  exact isActive_iff.2 ⟨m, hinv.kept hmay hs hm hother, hstatus⟩

end Steps

/-! ### The calls follow the protocol -/

section Follows

variable {s : List (Event MetaOp MetaOp.Res)}

variable {call : TxnCall}

/-- A call that begins a transaction stores its record under the identifier it received. -/
theorem beginTransaction_follows_txn : Obeys (txnProtocol call) (storage beginTransaction) [] := by
  refine ⟨trivial, fun r => ?_⟩
  cases r with
  | error e => exact trivial
  | ok id =>
    refine ⟨trivial, fun r => ?_⟩
    cases r with
    | error e => exact trivial
    | ok now =>
      refine ⟨⟨mem_cons_self, fun txn' ht => ?_⟩, fun r => ?_⟩
      · simp [startEvent, txnProtocol, ofEvents] at ht
      · cases r <;> exact trivial

theorem commitTransaction_obeys (hcall : call.ends = some id) (hs : ∀ e ∈ s, e.1.endsTxn = none) :
    Obeys (txnProtocol call) (commitTransaction id) s := by
  refine ⟨trivial, fun r => ?_⟩
  rcases r with _ | _ | txn
  · exact trivial
  · exact trivial
  · refine ⟨trivial, fun r => ?_⟩
    cases r with
    | error e => exact trivial
    | ok now =>
      refine ⟨⟨hcall, ?_⟩, fun r => by cases r <;> exact trivial⟩
      simpa [txnProtocol, ofEvents, or_imp, forall_and, MetaOp.endsTxn] using hs

theorem abortTransaction_obeys (hcall : call.ends = some id) :
    Obeys (txnProtocol call) (abortTransaction id) [] := by
  refine ⟨trivial, fun r => ?_⟩
  rcases r with _ | _ | txn
  · exact trivial
  · exact trivial
  · refine ⟨⟨hcall, ?_⟩, fun r => by cases r <;> exact trivial⟩
    simp [txnProtocol, ofEvents, MetaOp.endsTxn]

theorem managerCommit_obeys (hcall : call.ends = some id) :
    Obeys (txnProtocol call) (TransactionManager.commit id) [] := by
  refine followsE_bind (Q := fun s _ => ∀ e ∈ s, e.1.endsTxn = none)
    (followsE_call trivial (fun a => ?_) fun _ => trivial) fun s a hs => ?_
  · simp [txnProtocol, ofEvents, MetaOp.endsTxn]
  cases a with
  | none => exact followsE_throw trivial
  | some txn =>
    dsimp only
    split_ifs with hstatus
    · exact followsE_pure trivial
    · refine followsE_bind (commitTransaction_obeys hcall hs) fun s _ _ => ?_
      refine followsE_bind (Q := fun _ _ => True)
        (followsE_call trivial (fun _ => trivial) fun _ => trivial) fun s a _ => ?_
      cases a with
      | none => exact followsE_throw trivial
      | some txn => exact followsE_pure trivial

theorem TxnCall.exec_follows (call : TxnCall) :
    call.exec.run.Follows (txnProtocol call) (fun _ _ => True) [] := by
  have hobeys : Obeys (txnProtocol call) call.exec [] := by
    cases call with
    | beginTransaction =>
      exact followsE_bind beginTransaction_follows_txn fun _ _ _ => followsE_pure trivial
    | commitTransaction id => exact commitTransaction_obeys rfl (forall_mem_nil _)
    | abortTransaction id | managerAbort id => exact abortTransaction_obeys rfl
    | commitTableCdc id newMps superseded records =>
      exact ⟨⟨fun hid => if_neg hid, forall_mem_nil _⟩, fun r => by cases r <;> exact trivial⟩
    | managerCommit id => exact followsE_bind (managerCommit_obeys rfl) fun _ _ _ => trivial
  exact Follows.mono hobeys fun _ _ _ => trivial

end Follows

/-! ### Interleaved calls -/

section Runs

variable {pq : Parquet} {ι : Type} [DecidableEq ι] {st : Store} {calls : ι → TxnCall}
  {h : History ι MetaOp MetaOp.Res}
  {c : Config ι MetaOp MetaOp.Res Store fun _ => Except NovaError Unit}

/-- Each transaction is ended by at most one call, and the call starts while it is active. -/
structure EndsOnce (pq : Parquet) (st : Store) (calls : ι → TxnCall)
    (h : History ι MetaOp MetaOp.Res) : Prop where
  one : ∀ i j id, (calls i).ends = some id → (calls j).ends = some id → i = j
  starts : ∀ h₁ x h₂ c₁, h = h₁ ++ x :: h₂ → Run (MetaStep pq) (txnConfig st calls) h₁ c₁ →
    eventsOf x.1 h₁ = [] → (calls x.1).startsActive c₁.world = true

/-- **The rule for calls that end each transaction once**: identifiers are issued once, transactions
that are about to end are active, and what such steps keep is kept. -/
theorem run_endsOnce {h₁ h₂ : History ι MetaOp MetaOp.Res}
    {c₁ : Config ι MetaOp MetaOp.Res Store fun _ => Except NovaError Unit}
    {base : ℕ} (J : Store → Prop) (honce : EndsOnce pq st calls (h₁ ++ h₂))
    (hr1 : Run (MetaStep pq) (txnConfig st calls) h₁ c₁) (hr2 : Run (MetaStep pq) c₁ h₂ c)
    (h1 : (TxnInv base h₁ c₁.world.txns c₁.world.nextTxn ∧ AwaitsEnd calls h₁ c₁.world) ∧
      J c₁.world)
    (hstep : ∀ h st i o r st', TxnInv base h st.txns st.nextTxn → J st →
      (∀ id, o.endsTxn = some id → st.isActive id = true) → TxnMay (calls i) (eventsOf i h) o →
      MetaStep pq st o r st' → J st') :
    (TxnInv base (h₁ ++ h₂) c.world.txns c.world.nextTxn ∧ AwaitsEnd calls (h₁ ++ h₂) c.world) ∧
      J c.world := by
  refine Run.invariant_after (C := fun h st x => eventsOf x.1 h = [] →
    (calls x.1).startsActive st = true) (fun h st => (TxnInv base h st.txns st.nextTxn ∧
      AwaitsEnd calls h st) ∧ J st) hr1 hr2 (fun i => (calls i).exec_follows) ?_ h1 ?_
  · rintro h x h' c' rfl hr _
    exact honce.starts (h₁ ++ h) x h' c' (by simp) (hr1.append hr)
  · rintro h c i o r st' - ⟨⟨hinv, hawaits⟩, hJ⟩ hstarts hmay hs
    rw [txnProtocol, logAfter_ofEvents] at hmay
    have hactive : ∀ id, o.endsTxn = some id → c.world.isActive id = true := fun _ =>
      hawaits.active hstarts hmay
    exact ⟨⟨hinv.step hactive hmay hs, hawaits.step hinv honce.one hstarts hmay hs⟩,
      hstep h c.world i o r st' hinv hJ hactive hmay hs⟩

/-- **Ended transactions stay as they are** in every interleaving of calls in which each transaction
is ended by at most one call, which starts while it is active; and no change is published for an
aborted transaction. -/
theorem transaction_states_terminal (hstored : ∀ id, st.txns id ≠ none → id ≤ st.nextTxn)
    (hr : Run (MetaStep pq) (txnConfig st calls) h c) (honce : EndsOnce pq st calls h) :
    (∀ h₁ h₂ c₁, h = h₁ ++ h₂ → Run (MetaStep pq) (txnConfig st calls) h₁ c₁ →
      Run (MetaStep pq) c₁ h₂ c → ∀ id m, c₁.world.txns id = some m → m.status ≠ .active →
        c.world.txns id = some m) ∧
    ∀ h₁ i id newMps superseded records h₂ c₁,
      h = h₁ ++ (i, ⟨.storage (.commitTableCdc id newMps superseded records), .ok ()⟩) :: h₂ →
      Run (MetaStep pq) (txnConfig st calls) h₁ c₁ →
      Run (MetaStep pq) c₁
        ((i, ⟨.storage (.commitTableCdc id newMps superseded records), .ok ()⟩) :: h₂) c →
      id ≠ 0 → ∀ m, c₁.world.txns id = some m → m.status ≠ .aborted := by
  -- what holds at every point of the run
  have hinvs : ∀ h₁ h₂ c₁, h = h₁ ++ h₂ → Run (MetaStep pq) (txnConfig st calls) h₁ c₁ →
      TxnInv st.nextTxn h₁ c₁.world.txns c₁.world.nextTxn ∧ AwaitsEnd calls h₁ c₁.world := by
    rintro h₁ h₂ c₁ rfl hr1
    have hprefix : EndsOnce pq st calls ([] ++ h₁) :=
      ⟨honce.one, by
        rintro h3 x h4 c3 rfl hr3
        exact honce.starts h3 x (h4 ++ h₂) c3 (by simp) hr3⟩
    refine (run_endsOnce (fun _ => True) hprefix .nil hr1 ⟨⟨.init hstored,
      fun _ _ _ hstarted => absurd rfl hstarted⟩, trivial⟩ fun _ _ _ _ _ _ _ _ _ _ _ => trivial).1
  constructor
  · rintro h₁ h₂ c₁ rfl hr1 hr2 id m hm hended
    refine (run_endsOnce (fun st => st.txns id = some m) honce hr1 hr2
      ⟨hinvs h₁ h₂ c₁ rfl hr1, hm⟩ fun h st i o r st' hinv hm hactive hmay hs => ?_).2
    refine hinv.kept hmay hs hm fun ho => ?_
    obtain ⟨m', hm', hstatus⟩ := isActive_iff.1 (hactive id ho)
    cases hm.symm.trans hm'
    exact hended hstatus
  · rintro h₁ i id newMps superseded records h₂ c₁ rfl hr1 hr2 hid m hm
    obtain ⟨k, st', hop, -, -⟩ := hr2.cons_inv
    have hmay := hr1.allowed (fun i => (calls i).exec_follows) hop
    rw [txnProtocol, logAfter_ofEvents] at hmay
    replace hmay : TxnMay (calls i) (eventsOf i h₁)
      (.storage (.commitTableCdc id newMps superseded records)) := hmay
    have hactive := (hinvs h₁ _ c₁ rfl hr1).2.active (honce.starts h₁ _ h₂ c₁ rfl hr1) hmay
      (if_neg hid)
    obtain ⟨m', hm', hstatus⟩ := isActive_iff.1 hactive
    cases hm.symm.trans hm'
    rw [hstatus]
    decide

end Runs

/-! ### Leaving the aborted state -/

/-- Two transactions begin; one is aborted, the other one is committed. -/
def abortAndCommit : Fin 4 → TxnCall
  | 0 => .beginTransaction
  | 1 => .abortTransaction 1
  | 2 => .beginTransaction
  | 3 => .managerCommit 2

/-- The check of the steps: calls start while their transactions are active. -/
def startCheck (h : History (Fin 4) MetaOp MetaOp.Res) (st : Store)
    (x : Fin 4 × Event MetaOp MetaOp.Res) : Bool :=
  !x.2.1.isCommit && (!(eventsOf x.1 h).isEmpty || (abortAndCommit x.1).startsActive st)

/-- The first transaction is aborted and the second one is committed. -/
def bothEnded (y : History (Fin 4) MetaOp MetaOp.Res ×
    Config (Fin 4) MetaOp MetaOp.Res Store fun _ => Except NovaError Unit) : Bool :=
  (y.2.world.txns 1).any (·.status = .aborted) && (y.2.world.txns 2).any (·.status = .committed)

/-- One transaction is aborted while the other one begins and is committed; both stay as they
are. -/
theorem transaction_states_terminal_two : ∃ h c, Run (MetaStep .verbatim)
    (txnConfig emptyStore abortAndCommit) h c ∧ bothEnded (h, c) = true ∧
      ∀ h₁ h₂ c₁, h = h₁ ++ h₂ →
        Run (MetaStep .verbatim) (txnConfig emptyStore abortAndCommit) h₁ c₁ →
        Run (MetaStep .verbatim) c₁ h₂ c → ∀ id m, c₁.world.txns id = some m →
          m.status ≠ .active → c.world.txns id = some m := by
  have hs : (txnConfig emptyStore abortAndCommit).passes (MetaOp.apply .verbatim) startCheck
      bothEnded [] ([0, 0, 0, 2, 1, 2, 2, 3, 1, 3, 3, 3, 3].map (·, {})) = true := by
    decide +kernel
  obtain ⟨h, c, hr, hc, hp⟩ := exists_run_of_passes
    (fun _ _ _ hp _ _ => metaStep_unique (by simpa using (Bool.and_eq_true_iff.1 hp).1)) hs
  refine ⟨h, c, hr, hc, (transaction_states_terminal (fun id hid => absurd rfl hid) hr
    ⟨by decide, fun h₁ x h₂ c₁ he hr₁ hnew => ?_⟩).1⟩
  simpa [hnew] using (Bool.and_eq_true_iff.1 (hp h₁ x h₂ c₁ he hr₁)).2

/-- A micro-partition of table 1 that a transaction publishes. -/
def publishedMp : MicroPartitionMeta where
  mpId := 9
  tableId := 1
  version := 1
  s3Path := .perm 1 9 1
  s3TempPath := none
  rowCount := 1
  commitTs := 0
  txnId := 1
  supersedes := none
  supersededBy := none
  active := true

/-- A transaction begins, is aborted, and is committed in each of the three ways. -/
def abortThenCommit : Fin 5 → TxnCall
  | 0 => .beginTransaction
  | 1 => .abortTransaction 1
  | 2 => .commitTransaction 1
  | 3 => .commitTableCdc 1 [publishedMp] [] []
  | 4 => .managerCommit 1

/-- The status of transaction 1 after a schedule is `status`. -/
def statusIs (status : TxnStatus) (y : History (Fin 5) MetaOp MetaOp.Res ×
    Config (Fin 5) MetaOp MetaOp.Res Store fun _ => Except NovaError Unit) : Bool :=
  (y.2.world.txns 1).any fun m => m.status = status

theorem status_of_statusIs {status : TxnStatus} {h : History (Fin 5) MetaOp MetaOp.Res}
    {c : Config (Fin 5) MetaOp MetaOp.Res Store fun _ => Except NovaError Unit}
    (he : statusIs status (h, c) = true) : ∃ m, c.world.txns 1 = some m ∧ m.status = status := by
  obtain ⟨m, hm, hstatus⟩ := (Option.any_eq_true _ _).1 he
  exact ⟨m, hm, of_decide_eq_true hstatus⟩

/-- One of the calls succeeds on the aborted transaction, which is committed afterwards, with the
micro-partition published if the call publishes one. -/
def CommitsAborted (call : Fin 5) : Prop :=
  ∃ h₁ c₁ h₂ c₂,
    Run (MetaStep .verbatim) (txnConfig emptyStore abortThenCommit) h₁ c₁ ∧
    (∃ m, c₁.world.txns 1 = some m ∧ m.status = .aborted) ∧
    Run (MetaStep .verbatim) c₁ h₂ c₂ ∧
    (∃ m, c₂.world.txns 1 = some m ∧ m.status = .committed) ∧
    c₂.threads call = .ret (.ok ()) ∧ (call = 3 → c₂.world.mps 9 = some publishedMp)

/-- **An aborted transaction is committed** by `commit_transaction`, by a `commit_table_cdc` that
publishes a micro-partition for it, and by a commit of the transaction manager that checked the
status before the abort. -/
theorem aborted_transaction_commits : CommitsAborted 2 ∧ CommitsAborted 3 ∧ CommitsAborted 4 := by
  -- the manager reads the active status before the abort
  have hruns : ∀ call ∈ [(2 : Fin 5), 3, 4],
      ((txnConfig emptyStore abortThenCommit).schedule (MetaOp.apply .verbatim)
        (((if call = 4 then [0, 0, 0, 4, 1, 1] else [0, 0, 0, 1, 1]) : List (Fin 5)).map
          (·, {}))).any (fun y => statusIs .aborted y && (y.2.schedule (MetaOp.apply .verbatim)
            ((replicate (if call = 2 then 3 else if call = 3 then 1 else 4) call).map
              (·, {}))).any fun z => statusIs .committed z && (z.2.threads call).succeeded &&
                (call ≠ 3 || z.2.world.mps 9 = some publishedMp)) = true := by
    decide +kernel
  have hcommits : ∀ call ∈ [(2 : Fin 5), 3, 4], CommitsAborted call := by
    intro call hcall
    obtain ⟨h1, c1, h2, c2, hr1, hp, hr2, hq⟩ := exists_runs_of_schedule (hruns call hcall)
    simp only [Bool.and_eq_true, Bool.or_eq_true, decide_eq_true_eq] at hq
    obtain ⟨⟨hcommitted, hdone⟩, hmp⟩ := hq
    obtain ⟨⟨⟩, hret⟩ := eq_ok_of_succeeded hdone
    exact ⟨h1, c1, h2, c2, hr1, status_of_statusIs hp, hr2, status_of_statusIs hcommitted, hret,
      fun h3 => hmp.resolve_left (absurd h3)⟩
  exact ⟨hcommits 2 (by decide), hcommits 3 (by decide), hcommits 4 (by decide)⟩

end NovaCore
