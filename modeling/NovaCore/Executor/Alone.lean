import NovaCore.Executor.Dml

/-!
# Programs that run alone

What the read operations and `get_active_mps` return when no other statement runs.
-/

namespace NovaCore

variable {pq : Parquet} {w w' : World} {t : TableId}

/-- A read that always returns what the store has. -/
theorem step_read_iff {o : Op} {a r : o.Ret} (ho : ∀ x, o.perform pq x w = some (.ok a, w)) :
    Step pq w o (.ok r) w' ↔ r = a ∧ w' = w := by
  constructor
  · intro h
    obtain ⟨x, hx⟩ := step_ok h
    obtain ⟨hr, hw⟩ := Prod.mk.inj (Option.mem_unique (ho x) hx)
    exact ⟨(Except.ok.inj hr).symm, hw.symm⟩
  · rintro ⟨rfl, rfl⟩
    exact ⟨{ id := 0 }, ho _⟩

theorem exec_await_iff {o : Op} {a r : o.Ret} (ho : ∀ x, o.perform pq x w = some (.ok a, w)) :
    Ends (Step pq) w (await o) r w' ↔ r = a ∧ w' = w :=
  execE_call_iff.trans (step_read_iff ho)

/-- A program that starts with such a read continues with what the store has. -/
theorem exec_read_iff {o : Op} {a : o.Ret} {β : Type} {f : o.Ret → Nova β} {b : β}
    (ho : ∀ x, o.perform pq x w = some (.ok a, w)) :
    Ends (Step pq) w (await o >>= f) b w' ↔ Ends (Step pq) w (f a) b w' :=
  execE_read_bind_iff fun _ _ => exec_await_iff ho

/-- What `get_active_mps` returns when nothing else runs. -/
def World.getActiveMps (w : World) (t : TableId) : List MicroPartitionMeta :=
  (w.scanTableMps t).filterMap fun k => (w.mps k).filter MicroPartitionMeta.isActive

theorem World.mem_getActiveMps {mp : MicroPartitionMeta} : mp ∈ w.getActiveMps t ↔
    ∃ k ∈ w.scanTableMps t, w.mps k = some mp ∧ mp.isActive = true := by
  simp [getActiveMps, Option.filter_eq_some_iff]

/-- `get_active_mps` that runs alone. -/
theorem exec_getActiveMps_iff {mps : List MicroPartitionMeta} :
    Ends (Step pq) w (NovaCore.getActiveMps t) mps w' ↔ mps = w.getActiveMps t ∧ w' = w := by
  refine (exec_read_iff fun _ => by rfl).trans ?_
  rw [execE_foldlM_iff, foldl_append_toList]
  · rfl
  · intro k _ acc acc' w1
    exact (exec_read_iff fun _ => by rfl).trans execE_pure_iff

end NovaCore
