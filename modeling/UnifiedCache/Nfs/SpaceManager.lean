import UnifiedCache.Lib.StepSystem

/-! The space manager of the NFS store over its files. A system call that can fail for a
reason outside the store takes a flag that says whether it does, and what `stat` and the
clock say is given with the call. -/

namespace UnifiedCache.NfsStore

inductive Status where
  | ok
  | duplicateKey
  | notFound
  | noSpace
  | outOfMemory
  | osApiError
  deriving DecidableEq

structure BlockId where
  front : UInt64
  back : UInt64
  deriving DecidableEq

inductive DataRoot where
  | data
  | temp
  deriving DecidableEq

inductive FileSuffix where
  | act
  | dat
  deriving DecidableEq

structure DirPath where
  storageBackend : Nat
  root : DataRoot
  front : UInt64
  deriving DecidableEq

structure FilePath where
  parent : DirPath
  back : UInt64
  suffix : FileSuffix
  deriving DecidableEq

/-- `SpaceShardLayout`, or `SpaceShardTempLayout` where `tempDumpDirEnable` says so. -/
structure SpaceLayout where
  tempDumpDirEnable : Bool
  storageBackend : BlockId → Nat

namespace SpaceLayout

variable (layout : SpaceLayout)

def dataFileParent (id : BlockId) (activated : Bool) : DirPath where
  storageBackend := layout.storageBackend id
  root := if layout.tempDumpDirEnable && activated then .temp else .data
  front := id.front

def dataFilePath (id : BlockId) (activated : Bool) : FilePath where
  parent := layout.dataFileParent id activated
  back := id.back
  suffix := if !layout.tempDumpDirEnable && activated then .act else .dat

theorem dataFilePath_inj {id id' : BlockId} {a a' : Bool}
    (h : layout.dataFilePath id a = layout.dataFilePath id' a') : id = id' ∧ a = a' := by
  obtain ⟨front, back⟩ := id
  obtain ⟨front', back'⟩ := id'
  simp only [dataFilePath, dataFileParent, FilePath.mk.injEq, DirPath.mk.injEq] at h
  obtain ⟨⟨_, hroot, rfl⟩, rfl, hsuffix⟩ := h
  cases ht : layout.tempDumpDirEnable <;> cases a <;> cases a' <;> simp_all

/-- What the iterator over the first backend's data directory stops at. -/
def Recyclable (file : FilePath) : Prop :=
  file.parent.storageBackend = 0 ∧ file.parent.root = .data ∧ file.suffix = .dat

instance (file : FilePath) : Decidable (Recyclable file) := inferInstanceAs (Decidable (_ ∧ _))

end SpaceLayout

/-- A file is in a directory that is there. -/
structure FileSystem where
  dirs : Finset DirPath
  files : Finset FilePath
  parent_mem : ∀ file ∈ files, file.parent ∈ dirs

namespace FileSystem

variable (fs : FileSystem)

def mkDir (dir : DirPath) (io : Bool) : Status × FileSystem :=
  if !io then (.osApiError, fs)
  else if dir ∈ fs.dirs then (.duplicateKey, fs)
  else (.ok, ⟨insert dir fs.dirs, fs.files, fun file h => Finset.mem_insert_of_mem (fs.parent_mem file h)⟩)

def rmDir (dir : DirPath) (io : Bool) : FileSystem :=
  if h : io = true ∧ ∀ file ∈ fs.files, file.parent ≠ dir then
    ⟨fs.dirs.erase dir, fs.files, fun file hf => Finset.mem_erase.mpr ⟨h.2 file hf, fs.parent_mem file hf⟩⟩
  else fs

def access (file : FilePath) (io : Bool) : Status :=
  if !io then .osApiError else if file ∈ fs.files then .ok else .notFound

/-- `Open` with `CREATE | EXCL`. -/
def openCreate (file : FilePath) (io : Bool) : Status × FileSystem :=
  if !io then (.osApiError, fs)
  else if file ∈ fs.files then (.duplicateKey, fs)
  else if h : file.parent ∈ fs.dirs then
    (.ok, ⟨fs.dirs, insert file fs.files, (Finset.forall_mem_insert _ _ _).mpr ⟨h, fs.parent_mem⟩⟩)
  else (.osApiError, fs)

def openExisting (file : FilePath) (io : Bool) : Status :=
  if io && decide (file ∈ fs.files) then .ok else .osApiError

def rename (file newFile : FilePath) (io : Bool) : Status × FileSystem :=
  if !io then (.osApiError, fs)
  else if h : file ∈ fs.files ∧ newFile.parent ∈ fs.dirs then
    (.ok, ⟨fs.dirs, insert newFile (fs.files.erase file),
      (Finset.forall_mem_insert _ _ _).mpr ⟨h.2, fun f hf => fs.parent_mem f (Finset.mem_of_mem_erase hf)⟩⟩)
  else (.notFound, fs)

def remove (file : FilePath) (io : Bool) : FileSystem :=
  if io then ⟨fs.dirs, fs.files.erase file, fun f hf => fs.parent_mem f (Finset.mem_of_mem_erase hf)⟩ else fs

end FileSystem

/-- `atime` is what `fstat` says, in seconds, and `now` the clock in nanoseconds. -/
structure NewBlockCalls where
  make : Bool
  mkDir : Bool
  access : Bool
  openCreate : Bool
  openExisting : Bool
  atime : Option Int
  now : Int
  truncate : Bool

structure CommitBlockCalls where
  mkDir : Bool
  rename : Bool
  remove : Bool
  rmDir : Bool

/-- What `Setup` accepts. -/
structure SpaceConfig where
  layout : SpaceLayout
  blockSize : Nat
  blockSize_pos : 0 < blockSize
  blockSize_lt : blockSize < 2 ^ 64
  capacity : Nat
  recycleEnable : Bool
  capacityRecycleThreshold : Nat
  recycleNum : Nat

/-- `property` is the capacity word that the processes share. `recycler` has the files that
`DoRecycle` still removes, once it has made its list. -/
structure SpaceManager where
  fs : FileSystem
  property : Nat
  recycling : Bool
  recycler : Option (List FilePath)

inductive Event where
  | newBlock (id : BlockId) (calls : NewBlockCalls)
  | commitBlock (id : BlockId) (success : Bool) (calls : CommitBlockCalls)
  | scan (files : List FilePath)
  | recycleOne (remove rmDir : Bool)
  | recycled

def minReuseBlockAge : Int := 300

namespace SpaceManager

variable (config : SpaceConfig) (s : SpaceManager)

/-- An empty space. -/
def setup : SpaceManager where
  fs := ⟨∅, ∅, by simp⟩
  property := 0
  recycling := false
  recycler := none

def increaseCapacity (delta : Nat) : SpaceManager := { s with property := (s.property + delta) % 2 ^ 64 }

def decreaseCapacity (delta : Nat) : SpaceManager :=
  if s.property > delta then { s with property := s.property - delta } else s

/-- `SpaceRecycle::Trigger`. -/
def trigger : SpaceManager := { s with recycling := true }

def capacityCheck : Status × SpaceManager :=
  if config.capacity = 0 then (.ok, s)
  else
    let t := if config.recycleEnable && decide (config.capacityRecycleThreshold ≤ s.property) then s.trigger
      else s
    -- the difference is one of size_t
    if s.property > (config.capacity + 2 ^ 64 - config.blockSize) % 2 ^ 64 then (.noSpace, t)
    else (.ok, t)

/-- `Truncate` of the open file, after which the block counts. -/
def truncateBlock (io : Bool) : Status × SpaceManager :=
  if io then (.ok, s.increaseCapacity config.blockSize) else (.osApiError, s)

/-- The branch of `NewBlock` for an active file that is there already. -/
def reuseBlock (file : FilePath) (calls : NewBlockCalls) : Status × SpaceManager :=
  if s.fs.openExisting file calls.openExisting ≠ .ok then (.osApiError, s)
  else match calls.atime with
    | none => (.osApiError, s)
    | some atime =>
      if calls.now - atime * 10 ^ 9 ≤ minReuseBlockAge * 10 ^ 9 then (.duplicateKey, s)
      else s.truncateBlock config calls.truncate

/-- `NewBlock` up to where it opens the file. -/
def enterBlock (fs : FileSystem) (id : BlockId) (calls : NewBlockCalls) : Status × FileSystem :=
  if !calls.make then (.outOfMemory, fs)
  else
    let made := fs.mkDir (config.layout.dataFileParent id true) calls.mkDir
    if made.1 = .osApiError then made
    else if made.2.access (config.layout.dataFilePath id false) calls.access = .ok then (.duplicateKey, made.2)
    else (.ok, made.2)

def newBlock (id : BlockId) (calls : NewBlockCalls) : Status × SpaceManager :=
  let checked := s.capacityCheck config
  if checked.1 ≠ .ok then checked
  else
    let entered := enterBlock config s.fs id calls
    let s := { checked.2 with fs := entered.2 }
    if entered.1 ≠ .ok then (entered.1, s)
    else
      let file := config.layout.dataFilePath id true
      match s.fs.openCreate file calls.openCreate with
      | (.ok, fs) => { s with fs := fs }.truncateBlock config calls.truncate
      | (.duplicateKey, _) => s.reuseBlock config file calls
      | (status, _) => (status, s)

/-- The first half of `CommitBlock`: the directory of the archived file and the rename. -/
def archiveBlock (fs : FileSystem) (id : BlockId) (calls : CommitBlockCalls) : Status × FileSystem :=
  let activatedParent := config.layout.dataFileParent id true
  let archivedParent := config.layout.dataFileParent id false
  let made := if archivedParent ≠ activatedParent then fs.mkDir archivedParent calls.mkDir else (.ok, fs)
  if made.1 = .osApiError then made
  else made.2.rename (config.layout.dataFilePath id true) (config.layout.dataFilePath id false) calls.rename

def commitBlock (id : BlockId) (success : Bool) (calls : CommitBlockCalls) : Status × SpaceManager :=
  let activatedParent := config.layout.dataFileParent id true
  let archivedParent := config.layout.dataFileParent id false
  let archived := if success then archiveBlock config s.fs id calls else (.ok, s.fs)
  let fs := archived.2.remove (config.layout.dataFilePath id true) calls.remove
  let fs := if !success || decide (archivedParent ≠ activatedParent) then fs.rmDir activatedParent calls.rmDir
    else fs
  (archived.1, { s with fs := fs }.decreaseCapacity config.blockSize)

/-- `RemoveBlockFile` and the callback of `DoRecycle`. -/
def recycleBlock (file : FilePath) (remove rmDir : Bool) : SpaceManager :=
  { s with fs := (s.fs.remove file remove).rmDir file.parent rmDir }.decreaseCapacity config.blockSize

/-- Which archived files the heap keeps is left open. -/
def step (s : SpaceManager) : Event → Option SpaceManager
  | .newBlock id calls => some (s.newBlock config id calls).2
  | .commitBlock id success calls => some (s.commitBlock config id success calls).2
  | .scan files =>
    if s.recycling && s.recycler.isNone && decide (files.Nodup ∧ files.length ≤ config.recycleNum ∧
        ∀ file ∈ files, file ∈ s.fs.files ∧ SpaceLayout.Recyclable file) then
      some { s with recycler := some files }
    else none
  | .recycleOne remove rmDir =>
    match s.recycler with
    | some (file :: files) => some { s.recycleBlock config file remove rmDir with recycler := some files }
    | _ => none
  | .recycled =>
    match s.recycler with
    | some [] => some { s with recycler := none, recycling := false }
    | _ => none

end SpaceManager

end UnifiedCache.NfsStore
