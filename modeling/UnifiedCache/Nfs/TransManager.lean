import UnifiedCache.HashSet
import UnifiedCache.Lib.StepSystem
import UnifiedCache.Nfs.PosixQueue

/-! The transfer manager of the NFS store. A task is split into one part for each queue; its latch counts
the parts down. Every use of the failure set, of a latch, of a queue, of a device or of the file system is
one step. -/

namespace UnifiedCache.NfsStore

namespace TransManager

open Detail

/-- Each of the queues has a device. -/
structure Config where
  streamNumber : Nat
  ioSize : Nat
  bufferNumber : Nat
  timeoutMs : Nat
  taskIdHasher : Nat → Nat

def Config.shardBits : Nat := 10

/-- Where a task is for its caller: `submitted` while it is in `tasks_`. -/
inductive Waiting where
  | absent
  | submitted
  | waiting
  | expired
  | blocked
  | checking
  | removing
  | returned (success : Bool)
  deriving DecidableEq

/-- The arguments of `Append`. -/
structure Piece where
  block : UnifiedCache.BlockId
  offset : Nat
  address : Addr
  length : Nat

def makeTask (id : Nat) (type : TaskType) (location : Location) (pieces : List Piece) : Task :=
  pieces.foldl (fun task p => task.append p.block p.offset p.address p.length) (Task.make id type location)

inductive Event where
  | submit (id : Nat) (type : TaskType) (location : Location) (pieces : List Piece)
  | push
  | work (q : Nat) (ok : Bool)
  | wait (id : Nat)
  | waitNext (id : Nat) (expires : Bool)

end TransManager

open TransManager

/-- `pushing` has the parts of a task that `Submit` still has to push, under its mutex. -/
structure TransManager where
  failureSet : HashSet Nat
  latches : Nat → Nat
  waits : Nat → Waiting
  qIndex : Nat
  pushing : List (List Detail.Shard)
  queues : Nat → PosixQueue

namespace TransManager

open Detail (SubmitEvent TaskType Location split)

variable (config : Config) (m : TransManager)

def setup : TransManager where
  failureSet := HashSet.empty
  latches := fun _ => 0
  waits := fun _ => .absent
  qIndex := 0
  pushing := []
  queues := fun _ => .setup config.ioSize config.bufferNumber

def failed (id : Nat) : Bool := m.failureSet.contains config.taskIdHasher Config.shardBits id

def fail (id : Nat) : Option TransManager :=
  (m.failureSet.insert config.taskIdHasher Config.shardBits id).map fun failureSet =>
    { m with failureSet := failureSet }

@[simps]
def setQueue (q : Nat) (queue : PosixQueue) : TransManager := { m with queues := Function.update m.queues q queue }

@[simps]
def setWait (id : Nat) (w : Waiting) : TransManager := { m with waits := Function.update m.waits id w }

/-- `Latch::Done`, which leaves a counter of zero. -/
@[simps]
def done (id : Nat) : TransManager := { m with latches := Function.update m.latches id (m.latches id - 1) }

def expected : SubmitEvent → Nat
  | .setWaiter expected => expected
  | .push _ _ => 0

/-- `Submit` up to its loop. It divides by zero where there is no shard or no queue. -/
def submit (id : Nat) (type : TaskType) (location : Location) (pieces : List Piece) : Option TransManager :=
  (split (makeTask id type location pieces) config.streamNumber).map fun p =>
    { m with
      latches := Function.update m.latches id (expected p.1)
      pushing := p.2 }.setWait id .submitted

/-- One round of the loop in `Submit`. -/
def push : Option TransManager :=
  match m.pushing with
  | [] => none
  | part :: parts =>
    some { m.setQueue m.qIndex ((m.queues m.qIndex).push part) with
      qIndex := if m.qIndex + 1 = config.streamNumber then 0 else m.qIndex + 1
      pushing := parts }

def apply : Effect → Option TransManager
  | .quiet => some m
  | .insert owner => m.fail config owner
  | .done owner => some (m.done owner)

def work (q : Nat) (ok : Bool) : Option TransManager :=
  ((m.queues q).next (m.failed config) ok).bind fun p => (m.setQueue q p.1).apply config p.2

def waitNext (id : Nat) (expires : Bool) : Waiting → Option TransManager
  | .waiting =>
    if m.latches id = 0 then some (m.setWait id .checking)
    else if expires ∧ config.timeoutMs ≠ 0 then some (m.setWait id .expired)
    else none
  | .expired => (m.fail config id).map fun m => m.setWait id .blocked
  | .blocked => if m.latches id = 0 then some (m.setWait id .checking) else none
  | .checking => some (m.setWait id (if m.failed config id then .removing else .returned true))
  | .removing =>
    some ({ m with failureSet := m.failureSet.remove config.taskIdHasher Config.shardBits id }.setWait id
      (.returned false))
  | _ => none

/-- `Submit` and the first half of `Wait` hold the mutex. -/
def step : Event → Option TransManager
  | .submit id type location pieces =>
    if m.waits id = .absent ∧ m.pushing = [] then m.submit config id type location pieces else none
  | .push => m.push config
  | .work q ok => if q < config.streamNumber then m.work config q ok else none
  | .wait id => if m.waits id = .submitted ∧ m.pushing = [] then some (m.setWait id .waiting) else none
  | .waitNext id expires => m.waitNext config id expires (m.waits id)

/-- The shards that a step finishes moving. -/
def transfers : Event → List Detail.Shard
  | .work q ok => (m.queues q).transfers ok
  | _ => []

end TransManager

/-- A run of the manager with what its callers gave it, the shards that were moved, and how often the latch
of each task has come to zero. -/
structure WatchedManager where
  manager : TransManager
  tasks : Nat → List Detail.Shard
  transferred : List Detail.Shard
  zeros : Nat → Nat

namespace WatchedManager

variable (config : Config)

def setup : WatchedManager where
  manager := .setup config
  tasks := fun _ => []
  transferred := []
  zeros := fun _ => 0

def accept (tasks : Nat → List Detail.Shard) : TransManager.Event → Nat → List Detail.Shard
  | .submit id type location pieces => Function.update tasks id (makeTask id type location pieces).shards
  | _ => tasks

def step (w : WatchedManager) (e : TransManager.Event) : Option WatchedManager :=
  (w.manager.step config e).map fun m =>
    { manager := m
      tasks := accept w.tasks e
      transferred := w.transferred ++ w.manager.transfers e
      zeros := fun id => if w.manager.latches id ≠ 0 ∧ m.latches id = 0 then w.zeros id + 1 else w.zeros id }

end WatchedManager

end UnifiedCache.NfsStore
