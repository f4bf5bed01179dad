import UnifiedCache.Cache.TransBuffer
import UnifiedCache.Lib.PinnedPool
import UnifiedCache.Lib.StepSystem

/-! The cache store as a system of threads: the dispatcher and the transfer
thread of the load queue, the dispatcher and the dumper of the dump queue, the
jobs of the backend, the copies on the device streams and the callers of `Submit`
and `Wait`. Each use of something shared is one step. The buffer is the pool that
it refines, and a dispatcher in `Alloc` holds the lock of its key's bucket. -/

namespace UnifiedCache.CacheStore

inductive TransTask.TaskType where
  | load
  | dump
  deriving DecidableEq

structure TransTask where
  id : TaskHandle
  type : TransTask.TaskType
  desc : TaskDesc
  deriving DecidableEq

/-- A handle with the key it was got for. -/
abbrev BufferHandle := PinnedPool.Pin (BlockId × Nat)

structure ShardTask where
  taskHandle : TaskHandle
  shard : Shard
  bufferHandle : BufferHandle
  backendTaskHandle : TaskHandle
  waiter : Bool
  deriving DecidableEq

/-- A shard that the load dispatcher has a handle for; `fill` says that it is in
the list that the backend is asked to load. -/
structure Gathered where
  shard : Shard
  bufferHandle : BufferHandle
  fill : Bool
  deriving DecidableEq

/-- The local state of `LoadQueue::DispatchOneTask`. -/
inductive Loader where
  | idle
  | check (task : TransTask)
  | find (id : TaskHandle) (got : List Gathered) (rest : List Shard)
  | alloc (id : TaskHandle) (got : List Gathered) (shard : Shard) (rest : List Shard)
  | submit (id : TaskHandle) (got : List Gathered)
  | push (shardTasks : List ShardTask)
  | fail (id : TaskHandle) (got : List Gathered)
  | done (id : TaskHandle) (got : List Gathered)
  | release (got : List Gathered)
  deriving DecidableEq

/-- The local state of `TransferOneTask` and `WaitBackendTaskReady`. -/
inductive Transfer where
  | idle
  | check (task : ShardTask)
  | ready (task : ShardTask)
  | spin (task : ShardTask)
  | backendWait (task : ShardTask)
  | mark (task : ShardTask)
  | copy (task : ShardTask)
  | sync (task : ShardTask)
  | clear (task : ShardTask) (success : Bool)
  | fail (task : ShardTask)
  | done (task : ShardTask)
  | release (task : ShardTask)
  deriving DecidableEq

/-- The local state of the dump queue's `DispatchOneTask` and `DumpOneTask`. A
handle is kept with the shard of the task it was got for. -/
inductive Dumper where
  | idle
  | check (task : TransTask)
  | find (task : TransTask) (ctx : List (Shard × BufferHandle)) (rest : List Shard)
  | alloc (task : TransTask) (ctx : List (Shard × BufferHandle)) (shard : Shard) (rest : List Shard)
  | got (task : TransTask) (ctx : List (Shard × BufferHandle)) (shard : Shard)
      (handle : BufferHandle) (rest : List Shard)
  | sync (task : TransTask) (ctx : List (Shard × BufferHandle))
  | mark (task : TransTask) (ctx : List (Shard × BufferHandle)) (todo : List (Shard × BufferHandle))
  | push (task : TransTask) (backendTaskHandle : TaskHandle) (ctx : List (Shard × BufferHandle))
  | drop (task : TransTask) (handles : List BufferHandle)
  | fail (task : TransTask)
  | done (task : TransTask)
  deriving DecidableEq

structure DumpCtx where
  backendTaskHandle : TaskHandle
  bufferHandles : List BufferHandle
  deriving DecidableEq

/-- The local state of `BackendDumpStage`. -/
inductive BackendDumper where
  | idle
  | check (ctx : DumpCtx)
  | wait (ctx : DumpCtx)
  | release (handles : List BufferHandle)
  deriving DecidableEq

/-- An enqueued copy between a node and device addresses. -/
structure Copy where
  taskHandle : TaskHandle
  key : BlockId × Nat
  node : Nat
  addrs : List Addr
  deriving DecidableEq

/-- A running load of the backend, with the nodes it fills. -/
structure LoadJob where
  handle : TaskHandle
  items : List ((BlockId × Nat) × Nat)
  deriving DecidableEq

structure DumpJob where
  handle : TaskHandle
  keys : List (BlockId × Nat)
  deriving DecidableEq

/-- What a caller knows of a task: submitted, in `Wait`, past its timeout, or
with the status that `Wait` returned. -/
inductive WaitState where
  | unknown
  | submitted
  | waiting
  | timedOut
  | ok
  | error
  | timeout
  deriving DecidableEq

/-- `device` is what the device addresses of a dump hold. -/
structure Config (Data : Type) where
  nNode : Nat
  hashers : Hashers
  waitingQueueDepth : Nat
  runningQueueDepth : Nat
  device : List Addr → Data

namespace Config

variable {Data : Type} (config : Config Data)

def bucketOf (k : BlockId × Nat) : Nat := config.hashers.hash k.1 k.2

/-- What `CheckConfig` asks of the buffer and the queues. -/
def Accepted : Prop :=
  1024 ≤ config.nNode ∧ 1 < config.waitingQueueDepth ∧ 1 < config.runningQueueDepth

/-- The smallest buffer that is accepted. -/
def smallest : Config Nat where
  nNode := 1024
  hashers := ⟨fun _ => 0, fun _ => 0⟩
  waitingQueueDepth := 16
  runningQueueDepth := 16
  device := List.sum

theorem accepted_smallest : smallest.Accepted := by simp [Accepted, smallest]

end Config

/-- `tasks`, `filled` and `handed`, the tasks so far, what completed loads and copies
have put into nodes and what the backend has been asked to dump, are no part of the
code. -/
structure Store (Data : Type) where
  pool : PinnedPool (BlockId × Nat)
  data : Nat → Data
  failureSet : Finset TaskHandle
  latches : TaskHandle → Nat
  waits : TaskHandle → WaitState
  nextId : TaskHandle
  loadWaiting : List TransTask
  loader : Loader
  running : List ShardTask
  transfer : Transfer
  holder : List ShardTask
  finishedLoad : TaskHandle
  h2d : List Copy
  dumpWaiting : List TransTask
  dumper : Dumper
  d2h : List Copy
  dumping : List DumpCtx
  backendDumper : BackendDumper
  finishedDump : TaskHandle
  loadJobs : List LoadJob
  dumpJobs : List DumpJob
  results : TaskHandle → Option Bool
  lastJob : TaskHandle
  stored : List (BlockId × Nat)
  tasks : List TransTask
  filled : List ((BlockId × Nat) × Data)
  handed : List ((BlockId × Nat) × Data)

inductive LoadEvent where
  | pop
  | check
  | find
  | skipNode
  | takeNode
  | submit (handle : Option TaskHandle)
  | push
  | fail
  | done
  | release

inductive TransferEvent where
  | pop
  | check
  | ready
  | spinFailed
  | spinReady
  | waited
  | mark
  | copy (success : Bool)
  | sync (success : Bool)
  | clear
  | fail
  | done
  | release

inductive DumpEvent where
  | pop
  | check
  | find
  | skipNode
  | takeNode
  | skip
  | keep
  | copy (success : Bool)
  | sync (success : Bool)
  | mark
  | submit (handle : Option TaskHandle)
  | push
  | drop
  | fail
  | done

inductive BackendDumpEvent where
  | pop
  | check
  | waited
  | release

inductive BackendEvent (Data : Type) where
  | loadWrite (handle : TaskHandle) (node : Nat) (bytes : Data)
  | loadDone (handle : TaskHandle) (content : (BlockId × Nat) → Data)
  | loadFailed (handle : TaskHandle)
  | dumpDone (handle : TaskHandle) (success : Bool)
  | archive (key : BlockId × Nat)
  | d2h (i : Nat)
  | h2d (i : Nat)

inductive UserEvent where
  | submit (type : TransTask.TaskType) (desc : TaskDesc)
  | wait (id : TaskHandle)
  | timeout (id : TaskHandle)
  | waited (id : TaskHandle)

inductive Event (Data : Type) where
  | load (e : LoadEvent)
  | transfer (e : TransferEvent)
  | dump (e : DumpEvent)
  | backendDump (e : BackendDumpEvent)
  | backend (e : BackendEvent Data)
  | user (e : UserEvent)

def Loader.allocKey : Loader → Option (BlockId × Nat)
  | .alloc _ _ shard _ => some shard.key
  | _ => none

def Dumper.allocKey : Dumper → Option (BlockId × Nat)
  | .alloc _ _ shard _ => some shard.key
  | _ => none

namespace Store

variable {Data : Type} (config : Config Data)

def setup (data : Nat → Data) : Store Data where
  pool := PinnedPool.start config.nNode
  data := data
  failureSet := ∅
  latches := fun _ => 0
  waits := fun _ => .unknown
  nextId := 1
  loadWaiting := []
  loader := .idle
  running := []
  transfer := .idle
  holder := []
  finishedLoad := 0
  h2d := []
  dumpWaiting := []
  dumper := .idle
  d2h := []
  dumping := []
  backendDumper := .idle
  finishedDump := 0
  loadJobs := []
  dumpJobs := []
  results := fun _ => none
  lastJob := 0
  stored := []
  tasks := []
  filled := []
  handed := []

/-- `Latch::Done`. -/
def latchDone (s : Store Data) (id : TaskHandle) : Store Data :=
  { s with latches := Function.update s.latches id (s.latches id - 1) }

def markFailed (s : Store Data) (id : TaskHandle) : Store Data :=
  { s with failureSet := insert id s.failureSet }

def release (s : Store Data) (handle : BufferHandle) : Store Data :=
  { s with pool := s.pool.unpin handle.node }

def bucketFree (config : Config Data) (other : Option (BlockId × Nat)) (k : BlockId × Nat) : Bool :=
  match other with
  | none => true
  | some k' => config.bucketOf k' != config.bucketOf k

/-- `Alloc` passes over a node that is referenced, or whose bucket it cannot lock. -/
def passes (config : Config Data) (s : Store Data) (k : BlockId × Nat) : Bool :=
  decide (0 < s.pool.reference s.pool.hand) || match s.pool.key s.pool.hand with
    | none => false
    | some k' => config.bucketOf k' != config.bucketOf k

/-- The handle that `FindAt` finds for a key. -/
def hit (s : Store Data) (k : BlockId × Nat) (i : Nat) : BufferHandle :=
  ⟨i, k, decide (s.pool.reference i = 0)⟩

/-- The last shard of a task carries the waiter. -/
def shardTasks (id backendTaskHandle : TaskHandle) : List Gathered → List ShardTask
  | [] => []
  | [g] => [⟨id, g.shard, g.bufferHandle, if g.fill then backendTaskHandle else 0, true⟩]
  | g :: gs => ⟨id, g.shard, g.bufferHandle, if g.fill then backendTaskHandle else 0, false⟩ ::
      shardTasks id backendTaskHandle gs

def loadItems (got : List Gathered) : List ((BlockId × Nat) × Nat) :=
  (got.filter Gathered.fill).map fun g => (g.bufferHandle.key, g.bufferHandle.node)

def loadStep (s : Store Data) : LoadEvent → Option (Store Data)
  | .pop =>
    match s.loader, s.loadWaiting with
    | .idle, task :: tasks => some { s with loader := .check task, loadWaiting := tasks }
    | _, _ => none
  | .check =>
    match s.loader with
    | .check task =>
      if task.id ∈ s.failureSet then some { s.latchDone task.id with loader := .idle }
      else some { s with loader := .find task.id [] task.desc }
    | _ => none
  | .find =>
    match s.loader with
    | .find id got [] => some { s with loader := .submit id got }
    | .find id got (shard :: rest) =>
      if bucketFree config s.dumper.allocKey shard.key then
        match s.pool.find shard.key with
        | none => some { s with loader := .alloc id got shard rest }
        | some i =>
          let handle := s.hit shard.key i
          some { s with
            pool := s.pool.pin i
            loader := .find id (got ++ [⟨shard, handle, handle.owner && !s.pool.ready i⟩]) rest }
      else none
    | _ => none
  | .skipNode =>
    match s.loader with
    | .alloc _ _ shard _ =>
      if s.passes config shard.key then some { s with pool := s.pool.advance } else none
    | _ => none
  | .takeNode =>
    match s.loader with
    | .alloc id got shard rest =>
      if s.pool.reference s.pool.hand = 0 then
        some { s with
          pool := s.pool.advance.rekey s.pool.hand shard.key
          loader := .find id (got ++ [⟨shard, ⟨s.pool.hand, shard.key, true⟩, true⟩]) rest }
      else none
    | _ => none
  | .submit handle =>
    match s.loader with
    | .submit id got =>
      if loadItems got = [] then some { s with loader := .push (shardTasks id 0 got) }
      else match handle with
        | none => some { s with loader := .fail id got }
        | some h =>
          if s.lastJob < h then
            some { s with
              loader := .push (shardTasks id h got)
              loadJobs := ⟨h, loadItems got⟩ :: s.loadJobs
              lastJob := h }
          else none
    | _ => none
  | .push =>
    match s.loader with
    | .push [] => some { s with loader := .idle }
    | .push (task :: tasks) =>
      if s.running.length + 1 < config.runningQueueDepth then
        some { s with loader := .push tasks, running := s.running ++ [task] }
      else none
    | _ => none
  | .fail =>
    match s.loader with
    | .fail id got => some { s.markFailed id with loader := .done id got }
    | _ => none
  | .done =>
    match s.loader with
    | .done id got => some { s.latchDone id with loader := .release got }
    | _ => none
  | .release =>
    match s.loader with
    | .release [] => some { s with loader := .idle }
    | .release (g :: got) => some { s.release g.bufferHandle with loader := .release got }
    | _ => none

def transferStep (s : Store Data) : TransferEvent → Option (Store Data)
  | .pop =>
    match s.transfer, s.running with
    | .idle, task :: running => some { s with transfer := .check task, running := running }
    | _, _ => none
  | .check =>
    match s.transfer with
    | .check task =>
      some { s with transfer := if task.taskHandle ∈ s.failureSet then .done task else .ready task }
    | _ => none
  | .ready =>
    match s.transfer with
    | .ready task =>
      some { s with
        transfer := if s.pool.ready task.bufferHandle.node then .copy task
          else if !task.bufferHandle.owner then .spin task
          else if s.finishedLoad < task.backendTaskHandle then .backendWait task
          else .mark task }
    | _ => none
  | .spinFailed =>
    match s.transfer with
    | .spin task => if task.taskHandle ∈ s.failureSet then some { s with transfer := .fail task } else none
    | _ => none
  | .spinReady =>
    match s.transfer with
    | .spin task =>
      if s.pool.ready task.bufferHandle.node then some { s with transfer := .copy task } else none
    | _ => none
  | .waited =>
    match s.transfer with
    | .backendWait task =>
      match s.results task.backendTaskHandle with
      | none => none
      | some success => some { s with
          finishedLoad := task.backendTaskHandle
          transfer := if success then .mark task else .fail task }
    | _ => none
  | .mark =>
    match s.transfer with
    | .mark task =>
      some { s with pool := s.pool.markReady task.bufferHandle.node, transfer := .copy task }
    | _ => none
  | .copy success =>
    match s.transfer with
    | .copy task =>
      if !success then some { s with transfer := .fail task }
      else
        let h2d := ⟨task.taskHandle, task.bufferHandle.key, task.bufferHandle.node,
          task.shard.addrs⟩ :: s.h2d
        if task.waiter then some { s with h2d := h2d, transfer := .sync task }
        else some { s with h2d := h2d, transfer := .idle, holder := s.holder ++ [task] }
    | _ => none
  | .sync success =>
    match s.transfer with
    | .sync task =>
      if !success then some { s with h2d := [], transfer := .clear task false }
      else if s.h2d = [] then some { s with transfer := .clear task true }
      else none
    | _ => none
  | .clear =>
    match s.transfer, s.holder with
    | .clear _ _, held :: holder => some { s.release held.bufferHandle with holder := holder }
    | .clear task success, [] => some { s with transfer := if success then .done task else .fail task }
    | _, _ => none
  | .fail =>
    match s.transfer with
    | .fail task => some { s.markFailed task.taskHandle with transfer := .done task }
    | _ => none
  | .done =>
    match s.transfer with
    | .done task =>
      if task.waiter then some { s.latchDone task.taskHandle with transfer := .release task }
      else some { s with transfer := .release task }
    | _ => none
  | .release =>
    match s.transfer with
    | .release task => some { s.release task.bufferHandle with transfer := .idle }
    | _ => none

def dumpStep (s : Store Data) : DumpEvent → Option (Store Data)
  | .pop =>
    match s.dumper, s.dumpWaiting with
    | .idle, task :: tasks => some { s with dumper := .check task, dumpWaiting := tasks }
    | _, _ => none
  | .check =>
    match s.dumper with
    | .check task =>
      some { s with dumper := if task.id ∈ s.failureSet then .done task else .find task [] task.desc }
    | _ => none
  | .find =>
    match s.dumper with
    | .find task [] [] => some { s with dumper := .done task }
    | .find task ctx [] => some { s with dumper := .sync task ctx }
    | .find task ctx (shard :: rest) =>
      if bucketFree config s.loader.allocKey shard.key then
        match s.pool.find shard.key with
        | none => some { s with dumper := .alloc task ctx shard rest }
        | some i => some { s with
            pool := s.pool.pin i
            dumper := .got task ctx shard (s.hit shard.key i) rest }
      else none
    | _ => none
  | .skipNode =>
    match s.dumper with
    | .alloc _ _ shard _ =>
      if s.passes config shard.key then some { s with pool := s.pool.advance } else none
    | _ => none
  | .takeNode =>
    match s.dumper with
    | .alloc task ctx shard rest =>
      if s.pool.reference s.pool.hand = 0 then
        some { s with
          pool := s.pool.advance.rekey s.pool.hand shard.key
          dumper := .got task ctx shard ⟨s.pool.hand, shard.key, true⟩ rest }
      else none
    | _ => none
  | .skip =>
    match s.dumper with
    | .got task ctx _ handle rest =>
      if handle.owner then none else some { s.release handle with dumper := .find task ctx rest }
    | _ => none
  | .keep =>
    match s.dumper with
    | .got task ctx shard handle rest =>
      if handle.owner && s.pool.ready handle.node then
        some { s with dumper := .find task (ctx ++ [(shard, handle)]) rest }
      else none
    | _ => none
  | .copy success =>
    match s.dumper with
    | .got task ctx shard handle rest =>
      if handle.owner && !s.pool.ready handle.node then
        if success then some { s with
          d2h := ⟨task.id, handle.key, handle.node, shard.addrs⟩ :: s.d2h
          dumper := .find task (ctx ++ [(shard, handle)]) rest }
        else some { s with dumper := .drop task (handle :: ctx.map Prod.snd) }
      else none
    | _ => none
  | .sync success =>
    match s.dumper with
    | .sync task ctx =>
      if !success then some { s with d2h := [], dumper := .drop task (ctx.map Prod.snd) }
      else if s.d2h = [] then some { s with dumper := .mark task ctx ctx }
      else none
    | _ => none
  | .mark =>
    match s.dumper with
    | .mark task ctx (x :: todo) =>
      some { s with pool := s.pool.markReady x.2.node, dumper := .mark task ctx todo }
    | _ => none
  | .submit handle =>
    match s.dumper with
    | .mark task ctx [] =>
      match handle with
      | none => some { s with dumper := .drop task (ctx.map Prod.snd) }
      | some h =>
        if s.lastJob < h then
          some { s with
            dumper := .push task h ctx
            dumpJobs := ⟨h, ctx.map fun x => x.2.key⟩ :: s.dumpJobs
            lastJob := h
            handed := ctx.map (fun x => (x.2.key, s.data x.2.node)) ++ s.handed }
        else none
    | _ => none
  | .push =>
    match s.dumper with
    | .push task h ctx =>
      if s.dumping.length + 1 < config.runningQueueDepth then
        some { s with dumper := .done task, dumping := s.dumping ++ [⟨h, ctx.map Prod.snd⟩] }
      else none
    | _ => none
  | .drop =>
    match s.dumper with
    | .drop task (handle :: handles) => some { s.release handle with dumper := .drop task handles }
    | .drop task [] => some { s with dumper := .fail task }
    | _ => none
  | .fail =>
    match s.dumper with
    | .fail task => some { s.markFailed task.id with dumper := .done task }
    | _ => none
  | .done =>
    match s.dumper with
    | .done task => some { s.latchDone task.id with dumper := .idle }
    | _ => none

def backendDumpStep (s : Store Data) : BackendDumpEvent → Option (Store Data)
  | .pop =>
    match s.backendDumper, s.dumping with
    | .idle, ctx :: dumping => some { s with backendDumper := .check ctx, dumping := dumping }
    | _, _ => none
  | .check =>
    match s.backendDumper with
    | .check ctx => some { s with
        backendDumper := if s.finishedDump < ctx.backendTaskHandle then .wait ctx
          else .release ctx.bufferHandles }
    | _ => none
  | .waited =>
    match s.backendDumper with
    | .wait ctx =>
      if s.results ctx.backendTaskHandle = none then none
      else some { s with
        finishedDump := ctx.backendTaskHandle
        backendDumper := .release ctx.bufferHandles }
    | _ => none
  | .release =>
    match s.backendDumper with
    | .release [] => some { s with backendDumper := .idle }
    | .release (handle :: handles) => some { s.release handle with backendDumper := .release handles }
    | _ => none

/-- Put bytes into nodes. -/
def fill (s : Store Data) (items : List ((BlockId × Nat) × Nat)) (content : (BlockId × Nat) → Data) :
    Store Data :=
  { s with
    data := items.foldl (fun data x => Function.update data x.2 (content x.1)) s.data
    filled := items.map (fun x => (x.1, content x.1)) ++ s.filled }

def backendStep (s : Store Data) : BackendEvent Data → Option (Store Data)
  | .loadWrite h node bytes =>
    if ∃ job ∈ s.loadJobs, job.handle = h ∧ node ∈ job.items.map Prod.snd then
      some { s with data := Function.update s.data node bytes }
    else none
  | .loadDone h content =>
    match s.loadJobs.find? fun job => job.handle = h with
    | none => none
    | some job => some { s.fill job.items content with
        loadJobs := s.loadJobs.erase job
        results := Function.update s.results h (some true) }
  | .loadFailed h =>
    match s.loadJobs.find? fun job => job.handle = h with
    | none => none
    | some job => some { s with
        loadJobs := s.loadJobs.erase job
        results := Function.update s.results h (some false) }
  | .dumpDone h success =>
    match s.dumpJobs.find? fun job => job.handle = h with
    | none => none
    | some job => some { s with
        dumpJobs := s.dumpJobs.erase job
        results := Function.update s.results h (some success)
        stored := if success then job.keys ++ s.stored else s.stored }
  | .archive k => some { s with stored := k :: s.stored }
  | .d2h i =>
    match s.d2h[i]? with
    | none => none
    | some c => some { s.fill [(c.key, c.node)] (fun _ => config.device c.addrs) with
        d2h := s.d2h.eraseIdx i }
  | .h2d i => if i < s.h2d.length then some { s with h2d := s.h2d.eraseIdx i } else none

/-- `Submit` raises the latch before it tries the queue; `Wait` takes the task out of
the table first, so that it answers once. -/
def userStep (s : Store Data) : UserEvent → Option (Store Data)
  | .submit type desc =>
    let task : TransTask := ⟨s.nextId, type, desc⟩
    let full := match type with
      | .load => decide (s.loadWaiting.length + 1 ≥ config.waitingQueueDepth)
      | .dump => decide (s.dumpWaiting.length + 1 ≥ config.waitingQueueDepth)
    let s := { s with
      nextId := s.nextId + 1
      tasks := task :: s.tasks
      waits := Function.update s.waits task.id .submitted
      latches := Function.update s.latches task.id (s.latches task.id + 1) }
    if full then some ((s.markFailed task.id).latchDone task.id)
    else match type with
      | .load => some { s with loadWaiting := s.loadWaiting ++ [task] }
      | .dump => some { s with dumpWaiting := s.dumpWaiting ++ [task] }
  | .wait id =>
    if s.waits id = .submitted then some { s with waits := Function.update s.waits id .waiting }
    else none
  | .timeout id =>
    if s.waits id = .waiting then
      some { s.markFailed id with waits := Function.update s.waits id .timedOut }
    else none
  | .waited id =>
    if s.latches id ≠ 0 then none
    else match s.waits id with
      | .waiting =>
        if id ∈ s.failureSet then some { s with
          failureSet := s.failureSet.erase id
          waits := Function.update s.waits id .error }
        else some { s with waits := Function.update s.waits id .ok }
      | .timedOut => some { s with
          failureSet := s.failureSet.erase id
          waits := Function.update s.waits id .timeout }
      | _ => none

def step (s : Store Data) : Event Data → Option (Store Data)
  | .load e => s.loadStep config e
  | .transfer e => s.transferStep e
  | .dump e => s.dumpStep config e
  | .backendDump e => s.backendDumpStep e
  | .backend e => s.backendStep config e
  | .user e => s.userStep config e

end Store

end UnifiedCache.CacheStore
