import UnifiedCache.Posix.ShardIo

/-! The transfer queue of the ds3fs store. Every shard is staged through the
I/O vector of its worker, which holds one tensor. A worker's call for one shard is a
step; what its system calls return comes with it. A transfer that succeeds has
the full length asked for, one that fails may leave a part of what was written. -/

namespace UnifiedCache.Ds3fsStore

open PosixStore (Path File Memory dataFileName)

structure Config where
  storageBackends : List Path
  deviceId : Int
  tensorSize : Nat
  shardSize : Nat
  blockSize : Nat
  streamNumber : Nat

/-- The text of `InvalidParam` when a parameter is refused. -/
def checkConfig (config : Config) : Except String Unit :=
  if config.storageBackends = [] then .error "invalid storage backends"
  else if config.deviceId < -1 then .error ("invalid device(" ++ toString config.deviceId ++ ")")
  else if config.deviceId = -1 then .ok ()
  else if config.tensorSize = 0 ∨ config.shardSize < config.tensorSize ∨
      config.blockSize < config.shardSize ∨ config.shardSize % config.tensorSize ≠ 0 ∨
      config.blockSize % config.shardSize ≠ 0 then
    .error ("invalid size(" ++ toString config.tensorSize ++ "," ++ toString config.shardSize ++ "," ++
      toString config.blockSize ++ ")")
  else if config.streamNumber = 0 then
    .error ("invalid stream number(" ++ toString config.streamNumber ++ ")")
  else .ok ()

/-- The store is set up and transfers are enabled. -/
def Config.Accepted (config : Config) : Prop := checkConfig config = .ok () ∧ 0 ≤ config.deviceId

namespace Config

variable (config : Config)

def ioSize : Nat := config.tensorSize

def nShardPerBlock : Nat := config.blockSize / config.shardSize

/-- The backend ends with a slash, as `SpaceLayout::Setup` leaves it. -/
def storageBackend : Path := config.storageBackends.headD []

end Config

def tempFileRoot : Path := ['.', 't', 'e', 'm', 'p']

def dataParentName (blockFile : Path) (activated : Bool) : Path :=
  if activated then tempFileRoot else blockFile.take 2

def dataFilePath (config : Config) (blockId : BlockId) (activated : Bool) : Path :=
  let file := dataFileName blockId
  config.storageBackend ++ dataParentName file activated ++ '/' :: file

inductive TransTask.TaskType where
  | load
  | dump
  deriving DecidableEq

structure IoUnit where
  owner : TaskHandle
  type : TransTask.TaskType
  shard : Shard

/-- What the system calls of one call of `Worker` return. A failed write leaves the first
`torn.1` of its bytes as `torn.2` gives them; `stale` is what the I/O vector held. -/
structure IoResults where
  opened : Bool
  registered : Int
  prepared : Int
  submitted : Int
  waited : Int
  result : Int
  torn : Nat × (Nat → UInt8)
  stale : Nat → UInt8
  made : Bool
  renamed : Bool

def IoResults.Succeed (r : IoResults) : Prop :=
  r.opened = true ∧ r.registered ≤ 0 ∧ 0 ≤ r.prepared ∧ 0 ≤ r.submitted ∧ 0 < r.waited ∧
    0 ≤ r.result ∧ r.made = true ∧ r.renamed = true

abbrev Files := Path → Option File

/-- What was in memory at the addresses of a shard when it was dumped. -/
structure Dumped where
  memory : Memory
  addrs : List Addr

/-- `temp` and `archived` note which dump each shard of the two files of a block comes from. -/
structure Ds3fs where
  files : Files
  memory : Memory
  failureSet : List TaskHandle
  temp : BlockId → Nat → Option Dumped
  archived : BlockId → Nat → Option Dumped

def setup (files : Files) (memory : Memory) : Ds3fs := ⟨files, memory, [], fun _ _ => none, fun _ _ => none⟩

section Transfer

variable (config : Config)

def doIoWrite (files : Files) (memory : Memory) (path : Path) (file : File) (offset : Nat) (ios : IoUnit)
    (r : IoResults) : Files × Bool :=
  let iov := fun k => memory (ios.shard.addrs.headD 0 + k)
  if r.prepared < 0 ∨ r.submitted < 0 then (files, false)
  else if r.waited ≤ 0 ∨ r.result < 0 then
    (Function.update files path (some (file.pwrite offset (min r.torn.1 config.ioSize) r.torn.2)), false)
  else (Function.update files path (some (file.pwrite offset config.ioSize iov)), true)

def h2s (files : Files) (memory : Memory) (ios : IoUnit) (r : IoResults) : Files × Bool :=
  let path := dataFilePath config ios.shard.owner true
  if r.opened = false then (files, false)
  else
    -- `CREATE | WRITE_ONLY`
    let file := (files path).getD ⟨0, fun _ => 0⟩
    let files := Function.update files path (some file)
    if 0 < r.registered then (files, false)
    else
      let offset := config.shardSize * ios.shard.index
      doIoWrite config files memory path file offset ios r

def doIoRead (file : File) (memory : Memory) (offset : Nat) (ios : IoUnit) (r : IoResults) :
    Memory × Bool :=
  if r.prepared < 0 ∨ r.submitted < 0 ∨ r.waited ≤ 0 ∨ r.result < 0 then (memory, false)
  else
    let iov := fun k => (file.byteAt (offset + k)).getD (r.stale k)
    let addr := ios.shard.addrs.headD 0
    (fun p => if addr ≤ p ∧ p < addr + config.ioSize then iov (p - addr) else memory p, true)

def s2h (files : Files) (memory : Memory) (ios : IoUnit) (r : IoResults) : Memory × Bool :=
  match files (dataFilePath config ios.shard.owner false) with
  | none => (memory, false)
  | some file =>
    if r.opened = false ∨ 0 < r.registered then (memory, false)
    else
      let offset := config.shardSize * ios.shard.index
      doIoRead config file memory offset ios r

/-- The files, and whether the file of the block was renamed. -/
def commitFile (files : Files) (blockId : BlockId) (success : Bool) (r : IoResults) : Files × Bool :=
  let activated := dataFilePath config blockId true
  let archived := dataFilePath config blockId false
  if success ∧ r.made = true ∧ r.renamed = true then
    (Function.update (Function.update files activated none) archived (files activated), true)
  else (Function.update files activated none, false)

def dumpWorker (s : Ds3fs) (ios : IoUnit) (r : IoResults) : Ds3fs :=
  let b := ios.shard.owner
  let (files, success) := h2s config s.files s.memory ios r
  let dumped := if success then some ⟨s.memory, ios.shard.addrs⟩ else none
  let temp := Function.update s.temp b (Function.update (s.temp b) ios.shard.index dumped)
  let failureSet := if success then s.failureSet else ios.owner :: s.failureSet
  if ios.shard.index + 1 = config.nShardPerBlock then
    let (files, renamed) := commitFile config files b success r
    { s with
      files := files
      failureSet := failureSet
      temp := Function.update temp b fun _ => none
      archived := if renamed then Function.update s.archived b (temp b) else s.archived }
  else { s with files := files, failureSet := failureSet, temp := temp }

def loadWorker (s : Ds3fs) (ios : IoUnit) (r : IoResults) : Ds3fs :=
  let (memory, success) := s2h config s.files s.memory ios r
  { s with memory := memory, failureSet := if success then s.failureSet else ios.owner :: s.failureSet }

def worker (s : Ds3fs) (ios : IoUnit) (r : IoResults) : Ds3fs :=
  if ios.owner ∈ s.failureSet then s
  else match ios.type with
    | .dump => dumpWorker config s ios r
    | .load => loadWorker config s ios r

/-- The program writes to its memory, or a worker takes a shard. -/
inductive Event where
  | program (memory : Memory)
  | work (ios : IoUnit) (r : IoResults)

def step (s : Ds3fs) : Event → Ds3fs
  | .program memory => { s with memory := memory }
  | .work ios r => worker config s ios r

end Transfer

end UnifiedCache.Ds3fsStore
