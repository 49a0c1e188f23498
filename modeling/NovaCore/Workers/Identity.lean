import NovaCore.Common.Types

/-!
# Worker identity

Two places hand out worker ids.  `WorkerPool::register` on the coordinator takes one more than the
highest registered id; a worker process answers `register_worker` with one more than its own
counter, and `WorkerClientPool::add_worker` files the connection under that answer.  A fragment
assigned to worker `w` goes over the first connection filed under `w`, and over the connection
with the fragment's number, modulo their count, if there is none.

## Main definitions

* `WorkerPool.register`, `WorkerPool.heartbeat`, `WorkerPool.deregister` : the registry.
* `WorkerClientPool.connectionFor` : the connection `dispatch_via_grpc` picks.
* `Cluster`, `Cluster.call` : registry, connections and worker processes, one call after another.

## Main results

* `workers_identified` : **ids identify workers as long as the worker with the highest id does not
  leave and every connection is filed under the id its worker is registered with.**
* `worker_ids_collide` : an id is given again after a deregistration, and two fresh processes both
  answer 1.
-/

namespace NovaCore.Workers

open List

/-- `WorkerStatus`. -/
inductive WorkerStatus
  | active
  | suspect
  | dead
  deriving DecidableEq

/-- `WorkerInfo`. -/
structure WorkerInfo where
  workerId : ℕ
  address : String
  status : WorkerStatus
  activeQueries : ℕ
  deriving DecidableEq

namespace WorkerPool

variable {workers : List WorkerInfo}

/-- `workers.keys().max().copied().unwrap_or(0)`. -/
def highest (workers : List WorkerInfo) : ℕ := (workers.map WorkerInfo.workerId).foldr max 0

theorem le_highest {w : WorkerInfo} (hw : w ∈ workers) : w.workerId ≤ highest workers := by
  induction workers with
  | nil => cases hw
  | cons v vs ih =>
    rcases mem_cons.1 hw with rfl | hw
    · exact Nat.le_max_left _ _
    · exact (ih hw).trans (Nat.le_max_right _ _)

/-- `WorkerPool::register`.  The new key is not in the map, so `insert` adds an entry. -/
def register (workers : List WorkerInfo) (address : String) :
    Except NovaError (ℕ × List WorkerInfo) := do
  let workerId ← checkedAdd (highest workers) 1
  pure (workerId, ⟨workerId, address, .active, 0⟩ :: workers)

/-- What is returned for an id that is not registered. -/
def notRegistered (workerId : ℕ) : NovaError :=
  .internal ("worker " ++ toString workerId ++ " not registered")

/-- `WorkerPool::heartbeat`. -/
def heartbeat (workers : List WorkerInfo) (workerId activeQueries : ℕ) :
    Except NovaError (List WorkerInfo) :=
  if workers.any (·.workerId = workerId) then
    .ok (workers.map fun w =>
      if w.workerId = workerId then { w with status := .active, activeQueries } else w)
  else .error (notRegistered workerId)

/-- `WorkerPool::deregister`. -/
def deregister (workers : List WorkerInfo) (workerId : ℕ) : Except NovaError (List WorkerInfo) :=
  if workers.any (·.workerId = workerId) then .ok (workers.filter (·.workerId ≠ workerId))
  else .error (notRegistered workerId)

end WorkerPool

/-- `WorkerClient`: a connection, to the worker process at an address. -/
structure WorkerClient where
  address : String
  workerId : ℕ
  deriving DecidableEq

namespace WorkerClientPool

/-- `WorkerClientPool::index_of_worker_id`. -/
def indexOfWorkerId (clients : List WorkerClient) (workerId : ℕ) : Option ℕ :=
  clients.findIdx? (·.workerId = workerId)

/-- The connection over which `dispatch_via_grpc` sends the `i`-th fragment, assigned to
`workerId`. -/
def connectionFor (clients : List WorkerClient) (i workerId : ℕ) : Option WorkerClient :=
  clients[(indexOfWorkerId clients workerId).getD (i % clients.length)]?

/-- A connection that is filed under the id is used, if there is one. -/
theorem workerId_of_connectionFor {clients : List WorkerClient} {i w : ℕ} {c : WorkerClient}
    (hw : ∃ d ∈ clients, d.workerId = w) (h : connectionFor clients i w = some c) :
    c ∈ clients ∧ c.workerId = w := by
  have hmem : c ∈ clients := mem_of_getElem? h
  cases hi : indexOfWorkerId clients w with
  | none =>
    obtain ⟨d, hd, hdw⟩ := hw
    have := findIdx?_eq_none_iff.1 hi d hd
    simp [hdw] at this
  | some j =>
    obtain ⟨hj, hp, -⟩ := findIdx?_eq_some_iff_getElem.1 hi
    rw [connectionFor, hi, Option.getD_some, getElem?_eq_getElem hj, Option.some.injEq] at h
    exact ⟨hmem, by simpa [h] using hp⟩

end WorkerClientPool

/-- The coordinator's registry and connections, and the counters of the worker processes.  `given`
and `sent` record what the calls so far have done. -/
structure Cluster where
  workers : List WorkerInfo := []
  clients : List WorkerClient := []
  /-- `WorkerState::worker_id` of the process at an address. -/
  counter : String → ℕ := fun _ => 0
  /-- The ids `register` has given, and the address of the worker that got each. -/
  given : List (ℕ × String) := []
  /-- The worker id of each dispatched fragment, and where it was sent. -/
  sent : List (ℕ × String) := []

/-- The calls on registry, connections and worker processes. -/
inductive WorkerCall
  | register (address : String)
  | heartbeat (workerId activeQueries : ℕ)
  | deregister (workerId : ℕ)
  /-- `WorkerClientPool::add_worker`. -/
  | addWorker (address : String)
  /-- The worker process stores the id its registration returned. -/
  | store (address : String) (workerId : ℕ)
  /-- The `i`-th fragment, assigned to a worker, is sent. -/
  | dispatch (i workerId : ℕ)

namespace Cluster

variable {c : Cluster}

/-- What one call does; a call that fails changes nothing. -/
def call (c : Cluster) : WorkerCall → Cluster
  | .register a =>
    match WorkerPool.register c.workers a with
    | .ok (id, workers) => { c with workers, given := (id, a) :: c.given }
    | .error _ => c
  | .heartbeat id q =>
    match WorkerPool.heartbeat c.workers id q with
    | .ok workers => { c with workers }
    | .error _ => c
  | .deregister id =>
    match WorkerPool.deregister c.workers id with
    | .ok workers => { c with workers }
    | .error _ => c
  | .addWorker a =>
    -- `fetch_add` wraps around, the `+ 1` on its result does not
    match checkedAdd (c.counter a) 1 with
    | .ok id => { c with
        counter := Function.update c.counter a id
        clients := c.clients ++ [⟨a, id⟩] }
    | .error _ => { c with counter := Function.update c.counter a 0 }
  | .store a id => { c with counter := Function.update c.counter a id }
  | .dispatch i w =>
    match WorkerClientPool.connectionFor c.clients i w with
    | some client => { c with sent := (w, client.address) :: c.sent }
    | none => c

/-- The state after a list of calls. -/
def calls (c : Cluster) (cs : List WorkerCall) : Cluster := cs.foldl call c

/-- The ids identify the workers: no id was given to two workers, two registered workers have
distinct ids, two connections filed under one id lead to one worker, and every fragment went to the
worker that was registered with the id it was assigned to. -/
structure Identified (c : Cluster) : Prop where
  given : ∀ id a b, (id, a) ∈ c.given → (id, b) ∈ c.given → a = b
  workers : (c.workers.map WorkerInfo.workerId).Nodup
  clients : ∀ d ∈ c.clients, ∀ e ∈ c.clients, d.workerId = e.workerId → d.address = e.address
  sent : ∀ w a b, (w, a) ∈ c.sent → (w, b) ∈ c.given → a = b

/-- What a call needs of the state it meets. -/
def Proper (c : Cluster) : WorkerCall → Prop
  -- the worker with the highest id given so far is still registered
  | .register _ => ∀ g ∈ c.given, g.1 ≤ WorkerPool.highest c.workers
  -- the worker is registered with the id its process is about to answer
  | .addWorker a => (c.counter a + 1, a) ∈ c.given
  -- a connection is filed under the id
  | .dispatch _ w => ∃ d ∈ c.clients, d.workerId = w
  | _ => True

instance (c : Cluster) : (x : WorkerCall) → Decidable (c.Proper x)
  | .register _ => inferInstanceAs (Decidable (∀ g ∈ c.given, g.1 ≤ _))
  | .addWorker _ => inferInstanceAs (Decidable (_ ∈ c.given))
  | .dispatch _ w => inferInstanceAs (Decidable (∃ d ∈ c.clients, d.workerId = w))
  | .heartbeat _ _ | .deregister _ | .store _ _ => inferInstanceAs (Decidable True)

/-- Every call of the list meets a state it is proper in. -/
def AllProper (c : Cluster) : List WorkerCall → Prop
  | [] => True
  | x :: xs => c.Proper x ∧ (c.call x).AllProper xs

instance (c : Cluster) : (cs : List WorkerCall) → Decidable (c.AllProper cs)
  | [] => inferInstanceAs (Decidable True)
  | x :: xs =>
    have := instDecidableAllProper (c.call x) xs
    inferInstanceAs (Decidable (_ ∧ _))

/-- What the calls preserve: connections and dispatches agree with the ids given. -/
structure Inv (c : Cluster) : Prop where
  given : ∀ id a b, (id, a) ∈ c.given → (id, b) ∈ c.given → a = b
  workers : (c.workers.map WorkerInfo.workerId).Nodup
  clients : ∀ d ∈ c.clients, (d.workerId, d.address) ∈ c.given
  sent : ∀ s ∈ c.sent, s ∈ c.given

section

variable (h : c.Inv)
include h

theorem Inv.identified : c.Identified where
  given := h.given
  workers := h.workers
  clients d hd e he hde := h.given _ _ _ (h.clients d hd) (hde ▸ h.clients e he)
  sent w a b ha hb := h.given w a b (h.sent _ ha) hb

/-- A registration gives an id that was never given before. -/
theorem Inv.register {a : String} (hp : c.Proper (.register a)) : (c.call (.register a)).Inv := by
  simp only [call]
  cases hr : WorkerPool.register c.workers a with
  | error e => exact h
  | ok r =>
    obtain ⟨id, ws⟩ := r
    have hid : id = WorkerPool.highest c.workers + 1 ∧ ws = ⟨id, a, .active, 0⟩ :: c.workers := by
      unfold WorkerPool.register at hr
      cases hc : checkedAdd (WorkerPool.highest c.workers) 1 with
      | error e => rw [hc] at hr; cases hr
      | ok n => rw [hc] at hr; cases hr; exact ⟨(checkedAdd_eq_ok.1 hc).2, rfl⟩
    obtain ⟨hid, rfl⟩ := hid
    have hnew : ∀ b, (id, b) ∉ c.given := fun b hb => by
      have := hp _ hb
      omega
    refine ⟨?_, ?_, fun d hd => mem_cons_of_mem _ (h.clients d hd),
      fun s hs => mem_cons_of_mem _ (h.sent s hs)⟩
    · intro n x y hx hy
      simp only [mem_cons, Prod.mk.injEq] at hx hy
      rcases hx with ⟨rfl, rfl⟩ | hx <;> rcases hy with ⟨hn, rfl⟩ | hy
      · rfl
      · exact absurd hy (hnew y)
      · exact absurd (hn ▸ hx) (hnew x)
      · exact h.given n x y hx hy
    · refine nodup_cons.2 ⟨fun hmem => ?_, h.workers⟩
      obtain ⟨w, hw, hwid⟩ := mem_map.1 hmem
      have := WorkerPool.le_highest hw
      simp only at hwid
      omega

/-- A heartbeat changes no id. -/
theorem Inv.heartbeat (id q : ℕ) : (c.call (.heartbeat id q)).Inv := by
  simp only [call, WorkerPool.heartbeat]
  split_ifs
  · refine { h with workers := ?_ }
    have hids : ∀ w : WorkerInfo, (if w.workerId = id then
        { w with status := .active, activeQueries := q } else w).workerId = w.workerId := by
      intro w
      split_ifs <;> rfl
    simpa [map_map, Function.comp_def, hids] using h.workers
  · exact h

/-- A deregistration only removes entries. -/
theorem Inv.deregister (id : ℕ) : (c.call (.deregister id)).Inv := by
  simp only [call, WorkerPool.deregister]
  split_ifs
  · exact { h with workers := h.workers.sublist (filter_sublist.map _) }
  · exact h

/-- The new connection is filed under an id that was given to its worker. -/
theorem Inv.addWorker {a : String} (hp : c.Proper (.addWorker a)) :
    (c.call (.addWorker a)).Inv := by
  simp only [call]
  cases hc : checkedAdd (c.counter a) 1 with
  | error e => exact { h with }
  | ok id =>
    refine { h with clients := fun d hd => ?_ }
    rcases mem_append.1 hd with hd | hd
    · exact h.clients d hd
    · rw [mem_singleton.1 hd, (checkedAdd_eq_ok.1 hc).2]
      exact hp

/-- The fragment goes over a connection filed under its worker's id. -/
theorem Inv.dispatch {i w : ℕ} (hp : c.Proper (.dispatch i w)) : (c.call (.dispatch i w)).Inv := by
  simp only [call]
  cases hf : WorkerClientPool.connectionFor c.clients i w with
  | none => exact h
  | some d =>
    refine { h with sent := fun s hs => ?_ }
    obtain ⟨hd, rfl⟩ := WorkerClientPool.workerId_of_connectionFor hp hf
    rcases mem_cons.1 hs with rfl | hs
    · exact h.clients d hd
    · exact h.sent s hs

/-- One step. -/
theorem Inv.call {x : WorkerCall} (hx : c.Proper x) : (c.call x).Inv := by
  cases x with
  | register a => exact h.register hx
  | heartbeat id q => exact h.heartbeat id q
  | deregister id => exact h.deregister id
  | addWorker a => exact h.addWorker hx
  | store a id => exact { h with }
  | dispatch i w => exact h.dispatch hx

/-- A whole run. -/
theorem Inv.calls {cs : List WorkerCall} (hp : c.AllProper cs) : (c.calls cs).Inv := by
  induction cs generalizing c with
  | nil => exact h
  | cons x xs ih => exact ih (h.call hp.1) hp.2

end

end Cluster

/-- **Ids identify workers**, after any list of calls on a fresh cluster, as long as the worker with
the highest id given so far is registered whenever another one registers, every connection is filed
under an id that was given to its worker, and a connection is filed under the id a fragment is
assigned to. -/
theorem workers_identified (cs : List WorkerCall) (hp : ({} : Cluster).AllProper cs) :
    (({} : Cluster).calls cs).Identified :=
  (Cluster.Inv.calls ⟨by simp, by simp, by simp, by simp⟩ hp).identified

/-- Two workers register, the first one is connected, gets a fragment and leaves, and a third one
registers. -/
theorem workers_identified_leaving :
    (({} : Cluster).calls [.register "a", .addWorker "a", .register "b", .heartbeat 2 0,
      .dispatch 1 1, .deregister 1, .register "c"]).Identified :=
  workers_identified _ (by decide)

/-- **An id is given again** when the worker with the highest id has left.  Two processes that no
one has registered with both answer 1, and a fragment for the second worker then goes to the first
one. -/
theorem worker_ids_collide :
    (({} : Cluster).calls [.register "a", .deregister 1, .register "b"]).given =
        [(1, "b"), (1, "a")] ∧
      (({} : Cluster).calls [.register "a", .register "b", .addWorker "a", .addWorker "b",
        .dispatch 0 2]).clients = [⟨"a", 1⟩, ⟨"b", 1⟩] ∧
      (({} : Cluster).calls [.register "a", .register "b", .addWorker "a", .addWorker "b",
        .dispatch 0 2]).sent = [(2, "a")] := by
  decide

end NovaCore.Workers
