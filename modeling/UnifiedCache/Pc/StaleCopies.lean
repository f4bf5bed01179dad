import UnifiedCache.Pc.Completion

/-! No copy to the device is left for a task whose `Wait` has returned. -/

namespace UnifiedCache.PcStore.TransManager

open StepSystem

variable {config : Config} {m : TransManager} {id : TaskHandle} {unit : BlockTask}

/-- A unit that can still come to a copy: it is dispatched or queued, or it is with a worker. A file
worker that has handed it on or has called `Done`, or that hangs, does not count. -/
inductive Pending (m : TransManager) (unit : BlockTask) : Prop
  | dispatch (id : TaskHandle) (h : unit ∈ (m.dispatches id).owed)
  | queue (pool : Pool) (h : unit ∈ m.queues pool)
  | file (w : Nat) (stage : Stage) (h : m.jobs (.file w) = .running stage unit) (hs : stage ≠ .returning)
      (hw : w ∉ m.hung)
  | dev (w : Nat) (stage : Stage) (h : m.jobs (.dev w) = .running stage unit)
  | share (w : Nat) (stage : Stage) (h : m.jobs (.share w) = .running stage unit)

end UnifiedCache.PcStore.TransManager
