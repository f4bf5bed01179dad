import UnifiedCache.Detail.TaskSplit

/-! A queue of the NFS store's transfer manager: its worker, which takes the shards one by one, and the
device of that worker with its staging buffers. Every step is told what the device, the allocator or the
file system answers. -/

namespace UnifiedCache.NfsStore

/-- A slot of the pool, or an allocation of its own. -/
inductive Buffer where
  | slot (index : Nat)
  | own (n : Nat)
  deriving DecidableEq

/-- `addr` says whether the pool is there. -/
structure LinearBuffer where
  addr : Bool
  index : Nat
  number : Nat
  size : Nat
  deriving DecidableEq

namespace LinearBuffer

def setup (number size : Nat) : LinearBuffer := ⟨true, 0, number, size⟩

variable (b : LinearBuffer)

def reset : LinearBuffer := { b with index := 0 }

def full : Bool := b.index == b.number

def available (size : Nat) : Bool := size ≤ b.size

def get : Option Buffer × LinearBuffer :=
  (if b.addr then some (.slot b.index) else none, { b with index := b.index + 1 })

end LinearBuffer

/-- `copies` are the copies that `H2DAsync` has enqueued since the last `Synchronized`, with the buffers
that they read, and `made` counts the buffers that `MakeBuffer` has made for shards. -/
structure Device where
  buffer : LinearBuffer
  made : Nat
  copies : List (Detail.Shard × Buffer)
  deriving DecidableEq

/-- A pool of no bytes is not made. -/
def Device.setup (bufferSize bufferNumber : Nat) : Device where
  buffer := if bufferSize * bufferNumber = 0 then ⟨false, 0, 0, 0⟩ else .setup bufferNumber bufferSize
  made := 0
  copies := []

/-- Where the worker is in `Work`: `recycling` is the `Synchronized` of `GetBuffer`, `failing` and `blaming`
are the calls of `Insert` in `Done`, `finishing` is `shard.done()`. -/
inductive Stage where
  | checking
  | getting
  | recycling
  | taking
  | copying
  | writing
  | reading
  | enqueuing
  | failing
  | syncing
  | blaming
  | finishing
  | leaving
  deriving DecidableEq

inductive Job where
  | idle
  | running (stage : Stage) (shard : Detail.Shard) (buffer : Option Buffer)
  deriving DecidableEq

structure PosixQueue where
  backend : List Detail.Shard
  job : Job
  device : Device
  deriving DecidableEq

/-- What a step does to the failure set and to the latch of a task. -/
inductive Effect where
  | quiet
  | insert (owner : Nat)
  | done (owner : Nat)
  deriving DecidableEq

namespace PosixQueue

def setup (bufferSize bufferNumber : Nat) : PosixQueue := ⟨[], .idle, Device.setup bufferSize bufferNumber⟩

variable (q : PosixQueue)

@[simps]
def push (part : List Detail.Shard) : PosixQueue := { q with backend := q.backend ++ part }

@[simps]
def goto (stage : Stage) (shard : Detail.Shard) (buffer : Option Buffer) : PosixQueue :=
  { q with job := .running stage shard buffer }

/-- `Synchronized`: what was enqueued has ended, well or not. -/
@[simps]
def synchronized : PosixQueue := { q with device := { q.device with copies := [] } }

@[simps]
def recycle : PosixQueue := { q with device := { q.device with buffer := q.device.buffer.reset } }

/-- `Work` after its check. -/
def start (shard : Detail.Shard) : Stage :=
  match shard.location, shard.type with
  | .device, _ => .getting
  | .host, .dump => .writing
  | .host, .load => .reading

/-- Where a shard with a buffer goes on, in `D2S` and in `S2D`. -/
def transfer (shard : Detail.Shard) : Stage :=
  match shard.type with
  | .dump => .copying
  | .load => .reading

/-- `Done` for a shard that did not fail. -/
def settle (shard : Detail.Shard) : Stage := if shard.done then .syncing else .leaving

@[simps]
def getSlot : PosixQueue := { q with device := { q.device with buffer := q.device.buffer.get.2 } }

@[simps]
def makeBuffer : PosixQueue := { q with device := { q.device with made := q.device.made + 1 } }

/-- `GetBuffer` once the pool is not full. -/
def take (ok : Bool) (shard : Detail.Shard) : PosixQueue :=
  if q.device.buffer.available shard.length then
    match q.device.buffer.get.1 with
    | some b => q.getSlot.goto (transfer shard) shard (some b)
    | none => q.getSlot.goto .failing shard none
  else if ok then q.makeBuffer.goto (transfer shard) shard (some (.own q.device.made))
  else q.goto .failing shard none

@[simps]
def enqueue (shard : Detail.Shard) (b : Buffer) : PosixQueue :=
  { q with device := { q.device with copies := q.device.copies ++ [(shard, b)] } }

def work (contains : Nat → Bool) (ok : Bool) (shard : Detail.Shard) (buffer : Option Buffer) :
    Stage → Option (PosixQueue × Effect)
  | .checking => some (q.goto (if contains shard.owner then settle shard else start shard) shard buffer, .quiet)
  | .getting => some (q.goto (if q.device.buffer.full then .recycling else .taking) shard buffer, .quiet)
  | .recycling =>
    some (if ok then q.synchronized.recycle.goto .taking shard buffer else q.synchronized.goto .failing shard buffer,
      .quiet)
  | .taking => some (q.take ok shard, .quiet)
  | .copying => some (q.goto (if ok then .writing else .failing) shard buffer, .quiet)
  | .writing => some (q.goto (if ok then settle shard else .failing) shard buffer, .quiet)
  | .reading =>
    some (q.goto (if !ok then .failing else if shard.location = .device then .enqueuing else settle shard) shard
      buffer, .quiet)
  | .enqueuing =>
    buffer.map fun b =>
      (if ok then (q.enqueue shard b).goto (settle shard) shard buffer else q.goto .failing shard buffer, .quiet)
  | .failing => some (q.goto (settle shard) shard buffer, .insert shard.owner)
  | .syncing => some (q.synchronized.goto (if ok then .finishing else .blaming) shard buffer, .quiet)
  | .blaming => some (q.goto .finishing shard buffer, .insert shard.owner)
  | .finishing => some (q.goto .leaving shard buffer, .done shard.owner)
  | .leaving => some ({ q with job := .idle }, .quiet)

/-- The next step of the worker. A shard and the buffer that it owns are gone when the worker leaves it. -/
def next (contains : Nat → Bool) (ok : Bool) : Option (PosixQueue × Effect) :=
  match q.job with
  | .idle =>
    match q.backend with
    | [] => none
    | shard :: backend => some ({ q with backend := backend }.goto .checking shard none, .quiet)
  | .running stage shard buffer => q.work contains ok shard buffer stage

/-- The shards that the step finishes moving. A copy to the device is over when `Synchronized` says so. -/
def transfers (ok : Bool) : List Detail.Shard :=
  match q.job with
  | .running .recycling _ _ => if ok then q.device.copies.map Prod.fst else []
  | .running .syncing _ _ => if ok then q.device.copies.map Prod.fst else []
  | .running .writing shard _ => if ok then [shard] else []
  | .running .reading shard _ => if ok ∧ shard.location = .host then [shard] else []
  | _ => []

/-- The buffer that the step hands out. -/
def handsOut (ok : Bool) : Option Buffer :=
  match q.job with
  | .running .taking shard _ =>
    if q.device.buffer.available shard.length then q.device.buffer.get.1
    else if ok then some (.own q.device.made) else none
  | _ => none

/-- The buffer that the step releases. That of a slot does nothing. -/
def releases : Option Buffer :=
  match q.job with
  | .running .leaving _ (some (.own n)) => some (.own n)
  | _ => none

end PosixQueue

end UnifiedCache.NfsStore
