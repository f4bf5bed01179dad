import UnifiedCache.HashSet
import UnifiedCache.Lib.StepSystem
import UnifiedCache.Types

/-! The transfer manager of the PC store with its queues. A task is split into one unit for
each block; the latch of the task counts the units down. Every use of a queue, of the failure
set, of the latch, of the file system or of a stream is one step. -/

namespace UnifiedCache.PcStore.TransManager

inductive TaskType where
  | dump
  | load
  deriving DecidableEq

/-- A task with its shards by block. -/
structure TransTask where
  type : TaskType
  grouped : List (BlockId × List Addr)
  nodup : (grouped.map Prod.fst).Nodup

def TransTask.groupNumber (task : TransTask) : Nat := task.grouped.length

structure BlockTask where
  owner : TaskHandle
  type : TaskType
  block : BlockId
  shards : List Addr
  deriving DecidableEq

/-- `ForEachGroup`. -/
def TransTask.units (task : TransTask) (id : TaskHandle) : List BlockTask :=
  task.grouped.map fun g => ⟨id, task.type, g.1, g.2⟩

structure Config where
  rankSize : Nat
  streamNumber : Nat
  taskIdHasher : TaskHandle → Nat

def Config.shardBits : Nat := 10

/-- Where `Submit` is in `Dispatch`: before the units that are still to be pushed to the file
pool or spliced into the share queue, before `Synchronized`, or at the units of a dump for
which it still has to call `Done`. -/
inductive Dispatch where
  | none
  | pushing (units : List BlockTask)
  | sharing (units : List BlockTask)
  | syncing (units : List BlockTask)
  | marking (units : List BlockTask)
  | failing (units : List BlockTask)
  | handing (units : List BlockTask)
  | acking (unit : BlockTask) (units : List BlockTask)
  deriving DecidableEq

inductive Pool where
  | file
  | dev
  | wait
  | load
  deriving DecidableEq

/-- The workers of the file pool, its monitor, and those of the device pool and of the share
queue. -/
inductive WorkerId where
  | file (w : Nat)
  | monitor
  | dev (w : Nat)
  | share (w : Nat)
  deriving DecidableEq

inductive Stage where
  | loading
  | reading
  | ready (success : Bool)
  | checking
  | transferring
  | failing
  | finishing
  | returning
  deriving DecidableEq

inductive Job where
  | idle
  | running (stage : Stage) (unit : BlockTask)
  deriving DecidableEq

inductive Waiting where
  | idle
  | waiting
  | expired
  | blocked
  | clearing
  | checking
  | removing
  | returned
  deriving DecidableEq

inductive Outcome where
  | ok
  | fail
  | retry
  deriving DecidableEq

inductive Event where
  | submit (task : TransTask)
  | dispatch (id : TaskHandle) (success : Bool)
  | pop (w : Nat)
  | popDev (w : Nat)
  | fetch (w : Nat)
  | pick (w i : Nat) (success : Bool)
  | next (k : WorkerId) (outcome : Outcome)
  | timeout (w : Nat)
  | stop
  | wait (id : TaskHandle)
  | waitNext (id : TaskHandle) (expires : Bool)

end TransManager

open TransManager

/-- `watched` is the file worker that the monitor is at, `stopped` has those that it has told
to stop, `moved` the loads whose `done` a file worker has moved to the device pool. `tasks`,
`finished`, `dropped` and `hung`, the tasks so far, the calls of `Done`, the units that a failed
dump gives up and the workers for whose load the monitor has called `Done`, are no part of the
code. -/
structure TransManager where
  nextId : TaskHandle
  tasks : List (TaskHandle × TransTask)
  dispatches : TaskHandle → Dispatch
  queues : Pool → List BlockTask
  jobs : WorkerId → Job
  watched : Nat
  stopped : List Nat
  moved : List BlockTask
  counters : TaskHandle → Nat
  failureSet : HashSet TaskHandle
  waits : TaskHandle → Waiting
  finished : List BlockTask
  dropped : List BlockTask
  hung : List Nat

namespace TransManager

variable (config : Config) (m : TransManager)

def setup : TransManager where
  nextId := 1
  tasks := []
  dispatches := fun _ => .none
  queues := fun _ => []
  jobs := fun _ => .idle
  watched := 0
  stopped := []
  moved := []
  counters := fun _ => 0
  failureSet := HashSet.empty
  waits := fun _ => .idle
  finished := []
  dropped := []
  hung := []

@[simps]
def setJob (k : WorkerId) (job : Job) : TransManager := { m with jobs := Function.update m.jobs k job }

@[simps]
def setDispatch (id : TaskHandle) (d : Dispatch) : TransManager :=
  { m with dispatches := Function.update m.dispatches id d }

@[simps]
def setWait (id : TaskHandle) (w : Waiting) : TransManager :=
  { m with waits := Function.update m.waits id w }

@[simps]
def push (pool : Pool) (units : List BlockTask) : TransManager :=
  { m with queues := Function.update m.queues pool (m.queues pool ++ units) }

/-- `Latch::Done`, which leaves a counter of zero. -/
@[simps]
def done (unit : BlockTask) : TransManager :=
  { m with
    counters := Function.update m.counters unit.owner (m.counters unit.owner - 1)
    finished := unit :: m.finished }

def failed (id : TaskHandle) : Bool := m.failureSet.contains config.taskIdHasher Config.shardBits id

def fail (id : TaskHandle) : Option TransManager :=
  (m.failureSet.insert config.taskIdHasher Config.shardBits id).map fun failureSet =>
    { m with failureSet := failureSet }

@[simps]
def forgive (id : TaskHandle) : TransManager :=
  { m with failureSet := m.failureSet.remove config.taskIdHasher Config.shardBits id }

/-- `Submit` up to `Dispatch`. -/
def submit (task : TransTask) : TransManager :=
  let units := task.units m.nextId
  let d := match task.type with
    | .dump => Dispatch.syncing units
    | .load => if config.rankSize > 1 then .sharing units else .pushing units
  { m with
    nextId := m.nextId + 1
    tasks := (m.nextId, task) :: m.tasks
    counters := Function.update m.counters m.nextId task.groupNumber }.setDispatch m.nextId d

/-- A dump whose copies fail calls `Done` for its first block and returns, with scatter and gather
as without. -/
def dispatch (id : TaskHandle) (success : Bool) : Dispatch → Option TransManager
  | .none => none
  | .pushing [] => some (m.setDispatch id .none)
  | .pushing (unit :: units) => some ((m.push .file [unit]).setDispatch id (.pushing units))
  | .sharing units => some ((m.push .wait units).setDispatch id .none)
  | .syncing units => some (m.setDispatch id (if success then .handing units else .marking units))
  | .marking units => (m.fail config id).map fun m => m.setDispatch id (.failing units)
  | .failing [] => some (m.setDispatch id .none)
  | .failing (unit :: units) =>
    some ({ m.done unit with dropped := units ++ m.dropped }.setDispatch id .none)
  | .handing [] => some (m.setDispatch id .none)
  | .handing (unit :: units) => some ((m.push .file [unit]).setDispatch id (.acking unit units))
  | .acking unit units => some ((m.done unit).setDispatch id (.handing units))

/-- `FileWorker`. A dump has no `done`. -/
def fileNext (k : WorkerId) (outcome : Outcome) (unit : BlockTask) : Stage → Option TransManager
  | .checking =>
    if m.failed config unit.owner then
      some (m.setJob k (.running (if unit.type = .dump then .returning else .finishing) unit))
    else some (m.setJob k (.running .transferring unit))
  | .transferring =>
    if unit.type = .dump then some (m.setJob k (.running .returning unit))
    else if outcome = .ok then
      some ({ m with moved := unit :: m.moved }.push .dev [unit] |>.setJob k (.running .returning unit))
    else some (m.setJob k (.running .failing unit))
  | .failing => (m.fail config unit.owner).map fun m => m.setJob k (.running .finishing unit)
  | .finishing => some ((m.done unit).setJob k (.running .returning unit))
  | .returning => some (m.setJob k .idle)
  | _ => none

/-- `FileWorkerTimeout`. -/
def monitorNext (unit : BlockTask) : Stage → Option TransManager
  | .failing =>
    if unit.type = .dump then some (m.setJob .monitor (.running .finishing unit))
    else (m.fail config unit.owner).map fun m => m.setJob .monitor (.running .finishing unit)
  | .finishing =>
    if unit.type = .dump ∨ unit ∈ m.moved then some (m.setJob .monitor (.running .returning unit))
    else some ({ m with hung := m.watched :: m.hung }.done unit |>.setJob .monitor
      (.running .returning unit))
  | _ => none

/-- `DeviceWorker`. -/
def devNext (k : WorkerId) (outcome : Outcome) (unit : BlockTask) : Stage → Option TransManager
  | .checking =>
    some (m.setJob k (.running (if m.failed config unit.owner then .finishing else .transferring) unit))
  | .transferring =>
    if outcome = .ok then
      some ((if unit.type = .dump then m.push .file [unit] else m).setJob k (.running .finishing unit))
    else some (m.setJob k (.running .failing unit))
  | .failing => (m.fail config unit.owner).map fun m => m.setJob k (.running .finishing unit)
  | .finishing => some ((m.done unit).setJob k .idle)
  | _ => none

/-- `HandleLoadTask` and `HandleReadyTask` of the share queue. -/
def shareNext (k : WorkerId) (outcome : Outcome) (unit : BlockTask) : Stage → Option TransManager
  | .loading =>
    some (m.setJob k (.running (if m.failed config unit.owner then .finishing else .reading) unit))
  | .reading =>
    match outcome with
    | .retry => some ((m.push .load [unit]).setJob k .idle)
    | .ok => some (m.setJob k (.running (.ready true) unit))
    | .fail => some (m.setJob k (.running (.ready false) unit))
  | .ready success =>
    if m.failed config unit.owner then some (m.setJob k (.running .finishing unit))
    else some (m.setJob k (.running (if success then .transferring else .failing) unit))
  | .transferring =>
    some (m.setJob k (.running (if outcome = .ok then .finishing else .failing) unit))
  | .failing => (m.fail config unit.owner).map fun m => m.setJob k (.running .finishing unit)
  | .finishing => some ((m.done unit).setJob k .idle)
  | _ => none

def next (k : WorkerId) (outcome : Outcome) : Option TransManager :=
  match m.jobs k with
  | .idle => none
  | .running stage unit =>
    match k with
    | .file _ => m.fileNext config k outcome unit stage
    | .monitor => m.monitorNext config unit stage
    | .dev _ => m.devNext config k outcome unit stage
    | .share _ => m.shareNext config k outcome unit stage

def waitNext (id : TaskHandle) (expires : Bool) : Waiting → Option TransManager
  | .waiting =>
    if m.counters id = 0 then some (m.setWait id .checking)
    else if expires then some (m.setWait id .expired)
    else none
  | .expired => (m.fail config id).map fun m => m.setWait id .blocked
  | .blocked => if m.counters id = 0 then some (m.setWait id .clearing) else none
  | .clearing => some ((m.forgive config id).setWait id .returned)
  | .checking => some (m.setWait id (if m.failed config id then .removing else .returned))
  | .removing => some ((m.forgive config id).setWait id .returned)
  | _ => none

/-- A stopped file worker is replaced by a new one. -/
def step (m : TransManager) : Event → Option TransManager
  | .submit task => some (m.submit config task)
  | .dispatch id success => m.dispatch config id success (m.dispatches id)
  | .pop w =>
    match m.jobs (.file w), m.queues .file with
    | .idle, unit :: units =>
      if w < config.streamNumber + m.stopped.length ∧ w ∉ m.stopped then
        some ({ m with queues := Function.update m.queues .file units }.setJob (.file w)
          (.running .checking unit))
      else none
    | _, _ => none
  | .popDev w =>
    match m.jobs (.dev w), m.queues .dev with
    | .idle, unit :: units =>
      if w < config.streamNumber then
        some ({ m with queues := Function.update m.queues .dev units }.setJob (.dev w)
          (.running .checking unit))
      else none
    | _, _ => none
  | .fetch w =>
    match m.jobs (.share w), m.queues .wait with
    | .idle, unit :: units =>
      if w < config.streamNumber ∧ (m.queues Pool.load).length < config.streamNumber then
        some ({ m with queues := Function.update m.queues .wait units }.setJob (.share w)
          (.running .loading unit))
      else none
    | _, _ => none
  | .pick w i success =>
    match m.jobs (.share w), (m.queues Pool.load)[i]? with
    | .idle, some unit =>
      if w < config.streamNumber then
        some ({ m with queues := Function.update m.queues .load ((m.queues Pool.load).eraseIdx i) }.setJob
          (.share w) (.running (.ready success) unit))
      else none
    | _, _ => none
  | .next k outcome => m.next config k outcome
  | .timeout w =>
    match m.jobs .monitor, m.jobs (.file w) with
    | .idle, .running _ unit =>
      if w ∈ m.stopped then none
      else some ({ m with watched := w }.setJob .monitor (.running .failing unit))
    | _, _ => none
  | .stop =>
    match m.jobs .monitor with
    | .running .returning _ => some ({ m with stopped := m.watched :: m.stopped }.setJob .monitor .idle)
    | _ => none
  | .wait id =>
    if m.waits id = .idle ∧ id < m.nextId ∧ 0 < id then some (m.setWait id .waiting) else none
  | .waitNext id expires => m.waitNext config id expires (m.waits id)

end TransManager

end UnifiedCache.PcStore
