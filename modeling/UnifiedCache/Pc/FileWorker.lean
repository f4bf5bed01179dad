import UnifiedCache.Posix.BlockCommit

/-! The file workers of the PC store that dump blocks, over all processes. Each call to the
file system is one step, and the write of a block is as many steps as it has parts. -/

namespace UnifiedCache.PcStore

open PosixStore

structure SpaceLayout where
  storageBackends : List Path
  shardDataDir : Bool
  blockIdHasher : BlockId → Nat

def dataFileRoot : Path := ['d', 'a', 't', 'a']

def tempFileRoot : Path := ['.', 't', 'e', 'm', 'p']

namespace SpaceLayout

variable (layout : SpaceLayout)

def storageBackend (blockId : BlockId) : Path :=
  if layout.storageBackends.length = 1 then layout.storageBackends.headD []
  else layout.storageBackends.getD (layout.blockIdHasher blockId % layout.storageBackends.length) []

def dataParentName (blockFile : Path) (activated : Bool) : Path :=
  if activated then tempFileRoot
  else if !layout.shardDataDir then dataFileRoot
  else blockFile.take 8

def dataFilePath (blockId : BlockId) (activated : Bool) : Path :=
  let file := dataFileName blockId
  layout.storageBackend blockId ++ (layout.dataParentName file activated ++ '/' :: file)

theorem dataFilePath_inj {b b' : BlockId} {a a' : Bool}
    (h : layout.dataFilePath b a = layout.dataFilePath b' a') : b = b' ∧ a = a' := by
  have hfile : dataFileName b = dataFileName b' := by
    have hpath : (layout.storageBackend b ++ layout.dataParentName (dataFileName b) a) ++
        '/' :: dataFileName b =
        (layout.storageBackend b' ++ layout.dataParentName (dataFileName b') a') ++
          '/' :: dataFileName b' := by
      rw [List.append_assoc, List.append_assoc]
      exact h
    exact append_slash_inj (slash_not_mem_dataFileName b) (slash_not_mem_dataFileName b') hpath
  obtain rfl := dataFileName_inj hfile
  refine ⟨rfl, ?_⟩
  have hparent : layout.dataParentName (dataFileName b) a = layout.dataParentName (dataFileName b) a' :=
    List.append_cancel_right (List.append_cancel_left h)
  have hlen : ∀ a, (layout.dataParentName (dataFileName b) a).length = 5 ↔ a = true := by
    intro a
    cases a with
    | true => exact iff_of_true rfl rfl
    | false =>
      cases hs : layout.shardDataDir with
      | false => simp [dataParentName, hs, dataFileRoot]
      | true => simp [dataParentName, hs, dataFileName_length]
  exact Bool.eq_iff_iff.mpr ((hlen a).symm.trans ((iff_of_eq (by rw [hparent])).trans (hlen a')))

end SpaceLayout

structure Config where
  layout : SpaceLayout
  ioSize : Nat
  blockSize : Nat

/-- A unit of a dump, with the bytes of its host buffer. -/
structure BlockTask where
  block : BlockId
  shards : List Addr
  buffer : Nat → UInt8

/-- Where a file worker is in `FileWorker`: in `File::Write`, with the parts that it has
written, or in `Commit`. -/
inductive FileWorker where
  | idle
  | opening (task : BlockTask)
  | writing (task : BlockTask) (iFile nBytes : Nat)
  | makingDir (task : BlockTask)
  | moving (task : BlockTask)
  | removing (task : BlockTask)

/-- `written` has the file and the block of each `File::Write` that went through. -/
structure Space (Worker : Type) where
  fs : FileSystem
  workers : Worker → FileWorker
  written : List (Nat × BlockId)

inductive DumpEvent (Worker : Type) where
  | dump (w : Worker) (task : BlockTask)
  | openFile (w : Worker) (success : Bool)
  | write (w : Worker) (nBytes : Nat) (success : Bool)
  | mkDir (w : Worker) (success : Bool)
  | rename (w : Worker) (success : Bool)
  | remove (w : Worker)

namespace Space

variable {Worker : Type} [DecidableEq Worker] (config : Config) (s : Space Worker)

def start : Space Worker where
  fs := FileSystem.empty
  workers := fun _ => .idle
  written := []

def setWorker (w : Worker) (pc : FileWorker) : Space Worker :=
  { s with workers := Function.update s.workers w pc }

/-- The next part of the block, at most what is left of it. -/
def writePart (w : Worker) (task : BlockTask) (iFile nBytes part : Nat) (success : Bool) :
    Space Worker :=
  let length := config.ioSize * task.shards.length
  let n := min part (length - nBytes)
  let s := { s with fs := s.fs.pwrite iFile nBytes n fun k => task.buffer (nBytes + k) }
  if !success then s.setWorker w (.removing task)
  else if nBytes + n < length then s.setWorker w (.writing task iFile (nBytes + n))
  else { s with written := (iFile, task.block) :: s.written }.setWorker w (.makingDir task)

def step : DumpEvent Worker → Option (Space Worker)
  | .dump w task =>
    match s.workers w with
    | .idle => some (s.setWorker w (.opening task))
    | _ => none
  | .openFile w success =>
    match s.workers w with
    | .opening task =>
      if success then
        let opened := s.fs.openCreate (config.layout.dataFilePath task.block true)
        some ({ s with fs := opened.2 }.setWorker w (.writing task opened.1 0))
      else some (s.setWorker w (.removing task))
    | _ => none
  | .write w part success =>
    match s.workers w with
    | .writing task iFile nBytes => some (s.writePart config w task iFile nBytes part success)
    | _ => none
  | .mkDir w success =>
    match s.workers w with
    | .makingDir task =>
      if !config.layout.shardDataDir || success then some (s.setWorker w (.moving task))
      else some (s.setWorker w (.removing task))
    | _ => none
  | .rename w success =>
    match s.workers w with
    | .moving task =>
      let path := config.layout.dataFilePath task.block true
      match if success then s.fs.rename path (config.layout.dataFilePath task.block false) else none with
      | some fs => some ({ s with fs := fs }.setWorker w .idle)
      | none => some (s.setWorker w (.removing task))
    | _ => none
  | .remove w =>
    match s.workers w with
    | .removing task =>
      let fs := s.fs.remove (config.layout.dataFilePath task.block true)
      some ({ s with fs := fs }.setWorker w .idle)
    | _ => none

end Space

end UnifiedCache.PcStore
