import UnifiedCache.Nfs.SpaceManager

/-! The NFS store under several processes. A call is the steps that other processes can come
between: each look at the capacity word, each system call and each reading of the clock. -/

namespace UnifiedCache.NfsStore

/-- The files with their inodes. An inode has the second of its last access. -/
structure Disk where
  fs : FileSystem
  inode : FilePath → Nat
  atime : Nat → Int
  inodes : Nat

namespace Disk

variable (d : Disk)

def openCreate (file : FilePath) (io : Bool) (now : Int) : Status × Disk :=
  let opened := d.fs.openCreate file io
  (opened.1, if opened.1 = .ok then
    { fs := opened.2
      inode := Function.update d.inode file d.inodes
      atime := Function.update d.atime d.inodes (now / 10 ^ 9)
      inodes := d.inodes + 1 }
  else d)

def rename (file newFile : FilePath) (io : Bool) : Status × Disk :=
  let renamed := d.fs.rename file newFile io
  (renamed.1, { d with
    fs := renamed.2
    inode := if renamed.1 = .ok then Function.update d.inode newFile (d.inode file) else d.inode })

end Disk

/-- Where a process is in a `NewBlock` or a `CommitBlock`. A file that is open is an inode. -/
inductive Call where
  | idle
  | checked (id : BlockId)
  | making (id : BlockId)
  | made (id : BlockId)
  | absent (id : BlockId)
  | present (id : BlockId)
  | reopened (id : BlockId) (fd : Nat)
  | stated (id : BlockId) (lastAccess : Int)
  | opened (id : BlockId)
  | truncated (id : BlockId)
  | increased (id : BlockId)
  | archiving (id : BlockId)
  | moving (id : BlockId)
  | removing (id : BlockId) (success : Bool) (status : Status)
  | clearing (id : BlockId) (status : Status)
  | decreasing (status : Status)
  | exchanging (capacity : Nat) (status : Status)
  deriving DecidableEq

/-- `property` is the capacity word, `now` the clock in nanoseconds. `granted` is when a
`NewBlock` of the id last returned OK with no `CommitBlock` after it. -/
structure Processes (Process : Type) where
  disk : Disk
  property : Nat
  now : Int
  calls : Process → Call
  returned : Process → Option Status
  granted : BlockId → Option Int

/-- `next` is the next step of a process, `io` false where the system call in it fails for
a reason outside the store, or the exchange of the word for none at all. -/
inductive ProcessEvent (Process : Type) where
  | newBlock (p : Process) (id : BlockId)
  | commitBlock (p : Process) (id : BlockId) (success : Bool)
  | next (p : Process) (io : Bool)
  | tick (nanoseconds : Nat)

namespace Processes

variable {Process : Type} [DecidableEq Process] (config : SpaceConfig) (s : Processes Process)

def start : Processes Process where
  disk := { fs := SpaceManager.setup.fs, inode := fun _ => 0, atime := fun _ => 0, inodes := 0 }
  property := 0
  now := 0
  calls := fun _ => .idle
  returned := fun _ => none
  granted := fun _ => none

def goTo (p : Process) (c : Call) : Processes Process :=
  { s with calls := Function.update s.calls p c }

def finish (p : Process) (status : Status) : Processes Process :=
  { s with calls := Function.update s.calls p .idle, returned := Function.update s.returned p (some status) }

/-- `CapacityCheck`, whose difference is one of `size_t`. -/
def Admits : Prop :=
  config.capacity = 0 ∨ s.property ≤ (config.capacity + 2 ^ 64 - config.blockSize) % 2 ^ 64

instance : Decidable (Admits config s) := inferInstanceAs (Decidable (_ ∨ _))

def activeFile (id : BlockId) : FilePath := config.layout.dataFilePath id true

def archivedFile (id : BlockId) : FilePath := config.layout.dataFilePath id false

def parentsDiffer (id : BlockId) : Bool :=
  decide (config.layout.dataFileParent id false ≠ config.layout.dataFileParent id true)

/-- The steps of `NewBlock` after its capacity check, and those of `CommitBlock`. -/
def next (p : Process) (io : Bool) : Call → Option (Processes Process)
  | .idle => none
  | .checked id => if io then some (s.goTo p (.making id)) else some (s.finish p .outOfMemory)
  | .making id =>
    let made := s.disk.fs.mkDir (config.layout.dataFileParent id true) io
    let s := { s with disk := { s.disk with fs := made.2 } }
    if made.1 = .osApiError then some (s.finish p .osApiError) else some (s.goTo p (.made id))
  | .made id =>
    if s.disk.fs.access (archivedFile config id) io = .ok then some (s.finish p .duplicateKey)
    else some (s.goTo p (.absent id))
  | .absent id =>
    let opened := s.disk.openCreate (activeFile config id) io s.now
    let s := { s with disk := opened.2 }
    if opened.1 = .ok then some (s.goTo p (.opened id))
    else if opened.1 = .duplicateKey then some (s.goTo p (.present id))
    else some (s.finish p opened.1)
  | .present id =>
    if s.disk.fs.openExisting (activeFile config id) io = .ok then
      some (s.goTo p (.reopened id (s.disk.inode (activeFile config id))))
    else some (s.finish p .osApiError)
  | .reopened id fd =>
    if io then some (s.goTo p (.stated id (s.disk.atime fd))) else some (s.finish p .osApiError)
  | .stated id lastAccess =>
    if s.now - lastAccess * 10 ^ 9 ≤ minReuseBlockAge * 10 ^ 9 then some (s.finish p .duplicateKey)
    else some (s.goTo p (.opened id))
  | .opened id => if io then some (s.goTo p (.truncated id)) else some (s.finish p .osApiError)
  | .truncated id =>
    some ({ s with property := (s.property + config.blockSize) % 2 ^ 64 }.goTo p (.increased id))
  | .increased id =>
    some ({ s with granted := Function.update s.granted id (some s.now) }.finish p .ok)
  | .archiving id =>
    let made := s.disk.fs.mkDir (config.layout.dataFileParent id false) io
    let s := { s with disk := { s.disk with fs := made.2 } }
    if made.1 = .osApiError then some (s.goTo p (.removing id true made.1))
    else some (s.goTo p (.moving id))
  | .moving id =>
    let renamed := s.disk.rename (activeFile config id) (archivedFile config id) io
    let granted := if renamed.1 = .ok then Function.update s.granted id none else s.granted
    some ({ s with disk := renamed.2, granted := granted }.goTo p (.removing id true renamed.1))
  | .removing id success status =>
    let disk := { s.disk with fs := s.disk.fs.remove (activeFile config id) io }
    let granted := if io then Function.update s.granted id none else s.granted
    let call := if !success || parentsDiffer config id then .clearing id status else .decreasing status
    some ({ s with disk := disk, granted := granted }.goTo p call)
  | .clearing id status =>
    let disk := { s.disk with fs := s.disk.fs.rmDir (config.layout.dataFileParent id true) io }
    some ({ s with disk := disk }.goTo p (.decreasing status))
  | .decreasing status =>
    if s.property > config.blockSize then some (s.goTo p (.exchanging s.property status))
    else some (s.finish p status)
  | .exchanging capacity status =>
    if io = true ∧ s.property = capacity then
      some ({ s with property := capacity - config.blockSize }.finish p status)
    else some (s.goTo p (.decreasing status))

def step : ProcessEvent Process → Option (Processes Process)
  | .newBlock p id =>
    if s.calls p = .idle then
      if Admits config s then some (s.goTo p (.checked id)) else some (s.finish p .noSpace)
    else none
  | .commitBlock p id success =>
    if s.calls p = .idle then
      if !success then some (s.goTo p (.removing id success .ok))
      else if parentsDiffer config id then some (s.goTo p (.archiving id))
      else some (s.goTo p (.moving id))
    else none
  | .next p io => next config s p io (s.calls p)
  | .tick nanoseconds => some { s with now := s.now + nanoseconds }

end Processes

end UnifiedCache.NfsStore
