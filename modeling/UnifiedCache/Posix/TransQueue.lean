import UnifiedCache.HashSet
import UnifiedCache.Posix.SpaceLayout
import UnifiedCache.Lib.StepSystem

/-! The transfer queue of the posix store. A task is split into one unit for
each shard; the workers of the pool take the units in order and each call to the
file system, and each use of the failure set, is one step. A dump reads memory
that its caller leaves alone; a load changes neither the files nor that memory. -/

namespace UnifiedCache.PosixStore

structure File where
  size : Nat
  bytes : Nat → UInt8

def File.byteAt (f : File) (k : Nat) : Option UInt8 := if k < f.size then some (f.bytes k) else none

/-- Bytes between the old end of the file and the offset are holes, which read as zero. -/
def File.pwrite (f : File) (offset n : Nat) (buffer : Nat → UInt8) : File :=
  if n = 0 then f
  else ⟨max f.size (offset + n), fun k =>
    if offset ≤ k ∧ k < offset + n then buffer (k - offset) else if k < f.size then f.bytes k else 0⟩

structure FileSystem where
  names : Path → Option Nat
  files : Nat → File
  nFile : Nat

namespace FileSystem

def empty : FileSystem := ⟨fun _ => none, fun _ => ⟨0, fun _ => 0⟩, 0⟩

/-- `open` with `CREATE | WRITE_ONLY`. -/
def openCreate (fs : FileSystem) (path : Path) : Nat × FileSystem :=
  match fs.names path with
  | some iFile => (iFile, fs)
  | none => (fs.nFile,
      { names := Function.update fs.names path (some fs.nFile)
        files := Function.update fs.files fs.nFile ⟨0, fun _ => 0⟩
        nFile := fs.nFile + 1 })

def pwrite (fs : FileSystem) (iFile offset n : Nat) (buffer : Nat → UInt8) : FileSystem :=
  { fs with files := Function.update fs.files iFile ((fs.files iFile).pwrite offset n buffer) }

def rename (fs : FileSystem) (path newName : Path) : Option FileSystem :=
  (fs.names path).map fun iFile =>
    { fs with names := Function.update (Function.update fs.names path none) newName (some iFile) }

def remove (fs : FileSystem) (path : Path) : FileSystem :=
  { fs with names := Function.update fs.names path none }

end FileSystem

inductive TransTask.TaskType where
  | load
  | dump
  deriving DecidableEq

structure TransTask where
  id : TaskHandle
  type : TransTask.TaskType
  desc : TaskDesc

structure IoUnit where
  owner : TaskHandle
  type : TransTask.TaskType
  shard : Shard
  deriving DecidableEq

/-- `memory` is what the dumped addresses hold, `taskIdHasher` the `std::hash`
of the failure set. -/
structure Config where
  layout : SpaceLayout
  tensorSize : Nat
  shardSize : Nat
  blockSize : Nat
  dataTransConcurrency : Nat
  memory : Addr → Nat → UInt8
  taskIdHasher : TaskHandle → Nat

namespace Config

def nShardPerBlock (config : Config) : Nat := config.blockSize / config.shardSize

def shardBits : Nat := 10

/-- `CheckConfig` on a device. -/
def Accepted (config : Config) : Prop :=
  config.layout.storageBackends ≠ [] ∧ config.dataTransConcurrency ≠ 0 ∧
    config.layout.dataDirShardBytes ≤ 5 ∧ config.tensorSize ≠ 0 ∧
    config.tensorSize ≤ config.shardSize ∧ config.shardSize ≤ config.blockSize ∧
    config.shardSize % config.tensorSize = 0 ∧ config.blockSize % config.shardSize = 0

end Config

/-- Where a worker is in its unit: before the failure check, before `H2S` opens
the file, before it writes an address, before `CommitFile`, before its `Remove`,
in `S2H`, or before the failure is recorded and the waiter told. -/
inductive Worker where
  | idle
  | check (ios : IoUnit)
  | opening (ios : IoUnit)
  | writing (ios : IoUnit) (iFile iAddr : Nat)
  | committing (ios : IoUnit) (success : Bool)
  | removing (ios : IoUnit) (success : Bool)
  | reading (ios : IoUnit)
  | finishing (ios : IoUnit) (success : Bool)
  deriving DecidableEq

/-- `pushed` and `written`, the tasks so far and the shards that `H2S` has
written whole to a file, are no part of the code. -/
structure TransQueue where
  taskQ : List IoUnit
  workers : Nat → Worker
  failureSet : HashSet TaskHandle
  waiters : TaskHandle → Nat
  fs : FileSystem
  pushed : List TransTask
  written : List (Nat × Shard)

inductive Event where
  | push (task : TransTask)
  | pop (w : Nat)
  | check (w : Nat)
  | openFile (w : Nat) (success : Bool)
  | pwrite (w : Nat) (nBytes : Nat)
  | commit (w : Nat) (success : Bool)
  | remove (w : Nat)
  | read (w : Nat) (success : Bool)
  | finish (w : Nat)
  | timeout (id : TaskHandle)
  | waited (id : TaskHandle)

namespace TransQueue

def setup : TransQueue where
  taskQ := []
  workers := fun _ => .idle
  failureSet := HashSet.empty
  waiters := fun _ => 0
  fs := FileSystem.empty
  pushed := []
  written := []

def setWorker (q : TransQueue) (w : Nat) (pc : Worker) : TransQueue :=
  { q with workers := Function.update q.workers w pc }

/-- A task without shards is left out: `ios.front()` has no meaning for it. -/
def push (q : TransQueue) (task : TransTask) : Option TransQueue :=
  if task.desc = [] then none
  else some { q with
    waiters := Function.update q.waiters task.id task.desc.length
    taskQ := q.taskQ ++ task.desc.map fun shard => ⟨task.id, task.type, shard⟩
    pushed := task :: q.pushed }

variable (config : Config)

def path (ios : IoUnit) (activated : Bool) : Path :=
  config.layout.dataFilePath ios.shard.owner activated

/-- After `H2S`: the shard with the last index commits the file. -/
def afterH2S (ios : IoUnit) (success : Bool) : Worker :=
  if ios.shard.index + 1 = config.nShardPerBlock then .committing ios success
  else .finishing ios success

def openFile (q : TransQueue) (w : Nat) (ios : IoUnit) (success : Bool) : TransQueue :=
  if success then
    let (iFile, fs) := q.fs.openCreate (path config ios true)
    { q with fs := fs }.setWorker w (.writing ios iFile 0)
  else q.setWorker w (afterH2S config ios false)

/-- One round of the loop of `H2S`; the write fails when it is short. -/
def writeAddr (q : TransQueue) (w : Nat) (ios : IoUnit) (iFile iAddr nBytes : Nat) : TransQueue :=
  match ios.shard.addrs[iAddr]? with
  | none =>
    { q with written := (iFile, ios.shard) :: q.written }.setWorker w (afterH2S config ios true)
  | some addr =>
    let offset := config.shardSize * ios.shard.index + config.tensorSize * iAddr
    let n := min nBytes config.tensorSize
    let q := { q with fs := q.fs.pwrite iFile offset n (config.memory addr) }
    if n = config.tensorSize then q.setWorker w (.writing ios iFile (iAddr + 1))
    else q.setWorker w (afterH2S config ios false)

/-- `CommitFile` up to its `Remove`; `renamed` is whether `rename` succeeds on an
existing file. -/
def commitFile (q : TransQueue) (w : Nat) (ios : IoUnit) (success renamed : Bool) : TransQueue :=
  if success && renamed then
    match q.fs.rename (path config ios true) (path config ios false) with
    | some fs => { q with fs := fs }.setWorker w (.finishing ios success)
    | none => q.setWorker w (.removing ios success)
  else q.setWorker w (.removing ios success)

/-- Loads and the failure path of `Worker` end here. -/
def finish (q : TransQueue) (w : Nat) (ios : IoUnit) (success : Bool) : Option TransQueue :=
  (if success then some q.failureSet
    else q.failureSet.insert config.taskIdHasher Config.shardBits ios.owner).map fun failureSet =>
      { q with
        failureSet := failureSet
        waiters := Function.update q.waiters ios.owner (q.waiters ios.owner - 1) }.setWorker w .idle

def check (q : TransQueue) (w : Nat) (ios : IoUnit) : TransQueue :=
  if q.failureSet.contains config.taskIdHasher Config.shardBits ios.owner then
    { q with waiters := Function.update q.waiters ios.owner (q.waiters ios.owner - 1) }.setWorker
      w .idle
  else q.setWorker w (match ios.type with
    | .dump => .opening ios
    | .load => .reading ios)

/-- `timeout` and `waited` are what `TaskWrapper::Wait` does to the failure set. -/
def step (q : TransQueue) : Event → Option TransQueue
  | .push task => q.push task
  | .pop w =>
    match q.workers w, q.taskQ with
    | .idle, ios :: taskQ =>
      if w < config.dataTransConcurrency then some ({ q with taskQ := taskQ }.setWorker w (.check ios))
      else none
    | _, _ => none
  | .check w =>
    match q.workers w with
    | .check ios => some (q.check config w ios)
    | _ => none
  | .openFile w success =>
    match q.workers w with
    | .opening ios => some (q.openFile config w ios success)
    | _ => none
  | .pwrite w nBytes =>
    match q.workers w with
    | .writing ios iFile iAddr => some (q.writeAddr config w ios iFile iAddr nBytes)
    | _ => none
  | .commit w renamed =>
    match q.workers w with
    | .committing ios success => some (q.commitFile config w ios success renamed)
    | _ => none
  | .remove w =>
    match q.workers w with
    | .removing ios success =>
      some ({ q with fs := q.fs.remove (path config ios true) }.setWorker w (.finishing ios success))
    | _ => none
  | .read w success =>
    match q.workers w with
    | .reading ios => some (q.setWorker w (.finishing ios success))
    | _ => none
  | .finish w =>
    match q.workers w with
    | .finishing ios success => q.finish config w ios success
    | _ => none
  | .timeout id =>
    (q.failureSet.insert config.taskIdHasher Config.shardBits id).map fun failureSet =>
      { q with failureSet := failureSet }
  | .waited id =>
    if q.waiters id = 0 then
      some { q with failureSet := q.failureSet.remove config.taskIdHasher Config.shardBits id }
    else none

end TransQueue

end UnifiedCache.PosixStore
