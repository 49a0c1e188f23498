import NovaCore.Workers.Identity

/-!
# The auto-scaler

`auto_scaling.rs` decides from a warehouse's workers and its queue whether to add or to remove
workers. The decision stays within the policy's bounds, except that a warehouse without an active
worker is resumed at its full size (`AutoScaler.evaluateWithQueueDepth_within_iff`).
-/

namespace NovaCore.Workers

open List

inductive WarehouseSize
  | xSmall
  | small
  | medium
  | large
  | xLarge

/-- `WarehouseSize::worker_count`. -/
def WarehouseSize.workerCount : WarehouseSize → ℕ
  | .xSmall => 1
  | .small => 2
  | .medium => 4
  | .large => 8
  | .xLarge => 16

structure ScalingPolicy where
  maxWorkers : ℕ
  minWorkers : ℕ
  queueDepthScaleUpThreshold : ℕ

/-- How the average CPU usage compares with the policy's two thresholds, and the percentages as the
reasons print them. -/
structure CpuUsage where
  aboveUp : Bool
  belowDown : Bool
  avg : String
  up : String
  down : String

inductive ScalingDecision
  | scaleUp (count : ℕ) (reason : String)
  | scaleDown (workerIds : List ℕ) (reason : String)
  | noAction

structure AutoScaler where
  policy : ScalingPolicy
  warehouseSize : WarehouseSize

namespace AutoScaler

def active (workers : List WorkerInfo) : List WorkerInfo :=
  workers.filter fun w => w.status = .active

/-- `AutoScaler::evaluate_with_queue_depth`. -/
def evaluateWithQueueDepth (s : AutoScaler) (cpu : CpuUsage) (workers : List WorkerInfo)
    (queueDepth : ℕ) : ScalingDecision :=
  let active := active workers
  if active = [] then
    .scaleUp s.warehouseSize.workerCount "no active workers, resuming warehouse"
  else if queueDepth > s.policy.queueDepthScaleUpThreshold ∧
      active.length < s.policy.maxWorkers then
    .scaleUp 1 s!"queue depth {queueDepth} > threshold {s.policy.queueDepthScaleUpThreshold}"
  else if cpu.aboveUp ∧ active.length < s.policy.maxWorkers then
    .scaleUp (min (active.length + 1) s.policy.maxWorkers - active.length)
      s!"avg CPU {cpu.avg}% > threshold {cpu.up}%"
  else
    let idle := (active.filter fun w => w.activeQueries = 0).map (·.workerId)
    let toRemove := min idle.length (active.length - s.policy.minWorkers)
    if cpu.belowDown ∧ active.length > s.policy.minWorkers ∧ idle ≠ [] then
      .scaleDown (idle.take toRemove)
        s!"avg CPU {cpu.avg}% < threshold {cpu.down}%, {toRemove} idle workers"
    else .noAction

/-- The decision adds at least one worker and no more than the policy allows, or removes at least
one idle active worker and leaves the policy's minimum. -/
def Within (policy : ScalingPolicy) (workers : List WorkerInfo) : ScalingDecision → Prop
  | .scaleUp count _ => 1 ≤ count ∧ (active workers).length + count ≤ policy.maxWorkers
  | .scaleDown ids _ => ids.Nodup ∧ 1 ≤ ids.length ∧
      (∀ id ∈ ids, ∃ w ∈ active workers, w.workerId = id ∧ w.activeQueries = 0) ∧
      policy.minWorkers + ids.length ≤ (active workers).length
  | .noAction => True

/-- A decision is within the bounds of the policy exactly if some worker is active or the size of
the warehouse is not above the policy's maximum. -/
theorem evaluateWithQueueDepth_within_iff (s : AutoScaler) (cpu : CpuUsage)
    (workers : List WorkerInfo) (queueDepth : ℕ) (hids : (workers.map (·.workerId)).Nodup) :
    Within s.policy workers (s.evaluateWithQueueDepth cpu workers queueDepth) ↔
      active workers ≠ [] ∨ s.warehouseSize.workerCount ≤ s.policy.maxWorkers := by
  rw [evaluateWithQueueDepth]
  dsimp only
  by_cases hactive : active workers = []
  · rw [if_pos hactive, Within, hactive]
    cases s.warehouseSize <;> simp [WarehouseSize.workerCount]
  refine iff_of_true ?_ (.inl hactive)
  split_ifs with hqueue hup hdown
  · exact ⟨le_rfl, hqueue.2⟩
  · have := hup.2
    constructor <;> omega
  · have hsub : (((active workers).filter fun w => w.activeQueries = 0).map (·.workerId)).Sublist
        (workers.map (·.workerId)) := (filter_sublist.trans filter_sublist).map _
    have hidle := length_pos_of_ne_nil hdown.2.2
    refine ⟨(hids.sublist hsub).sublist (take_sublist _ _), ?_, fun id hid => ?_, ?_⟩
    · rw [length_take]
      omega
    · obtain ⟨w, hw, rfl⟩ := mem_map.1 (mem_of_mem_take hid)
      rw [mem_filter, decide_eq_true_eq] at hw
      exact ⟨w, hw.1, rfl, hw.2⟩
    · rw [length_take]
      omega
  · trivial

/-- A medium warehouse with one to four workers. -/
def upToFour : AutoScaler := ⟨⟨4, 1, 10⟩, .medium⟩

/-- Three active workers, two of them idle, and a dead one. -/
def threeActive : List WorkerInfo :=
  [⟨1, "a", .active, 0⟩, ⟨2, "b", .active, 3⟩, ⟨3, "c", .active, 0⟩, ⟨4, "d", .dead, 0⟩]

/-- The idle workers leave at a low CPU usage, and a worker is added at a long queue. -/
theorem evaluateWithQueueDepth_within_iff_threeActive :
    let calm := upToFour.evaluateWithQueueDepth ⟨false, true, "10", "80", "30"⟩ threeActive 0
    let queued := upToFour.evaluateWithQueueDepth ⟨false, true, "10", "80", "30"⟩ threeActive 11
    (∃ reason, calm = .scaleDown [1, 3] reason) ∧ Within upToFour.policy threeActive calm ∧
      (∃ reason, queued = .scaleUp 1 reason) ∧ Within upToFour.policy threeActive queued := by
  intro calm queued
  have hids : (threeActive.map (·.workerId)).Nodup := by decide
  have hactive : active threeActive ≠ [] := by decide
  exact ⟨⟨_, rfl⟩, (evaluateWithQueueDepth_within_iff upToFour _ _ 0 hids).2 (.inl hactive),
    ⟨_, rfl⟩, (evaluateWithQueueDepth_within_iff upToFour _ _ 11 hids).2 (.inl hactive)⟩

/-- An extra-large warehouse whose policy allows one worker. -/
def xLargeUpToOne : AutoScaler := ⟨⟨1, 1, 10⟩, .xLarge⟩

theorem evaluateWithQueueDepth_resume :
    ¬Within xLargeUpToOne.policy []
      (xLargeUpToOne.evaluateWithQueueDepth ⟨false, false, "", "", ""⟩ [] 0) := by
  rintro ⟨-, h⟩
  exact absurd h (by decide)

end AutoScaler

end NovaCore.Workers
