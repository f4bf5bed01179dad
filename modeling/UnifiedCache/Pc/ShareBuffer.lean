import UnifiedCache.Lib.StepSystem
import UnifiedCache.Types

/-! The share buffer of the PC store, that all processes of a node map. Each section under the
lock of a header is one step, and so is each look at a status without the lock. -/

namespace UnifiedCache.PcStore.ShareBuffer

inductive ShareBlockStatus where
  | init
  | loading
  | loaded
  | failure
  deriving DecidableEq

def zeroId : BlockId := Vector.replicate 16 0

structure ShareBlockHeader where
  id : BlockId
  ref : Int
  status : ShareBlockStatus
  deriving DecidableEq

namespace ShareBlockHeader

variable (header : ShareBlockHeader)

def used : Bool := header.id ≠ zeroId

def refer : ShareBlockHeader where
  id := header.id
  ref := header.ref + 1
  status := if header.ref = 0 ∧ header.status ≠ .loaded then .init else header.status

def occupy (block : BlockId) : ShareBlockHeader := ⟨block, 1, .init⟩

end ShareBlockHeader

/-- `content` has the bytes of the file of each block. -/
structure Config where
  blockNumber : Nat
  blockSize : Nat
  hasher : BlockId → Nat
  content : BlockId → Nat → UInt8

/-- Where a reader is in `Ready4Read`. -/
inductive Stage where
  | made
  | checkingFailure
  | checkingLoading
  | locking
  | reading
  | publishing (success : Bool)
  deriving DecidableEq

/-- `place` is the slot of a shared reader, `ready` whether `Ready4Read` has returned OK. -/
structure Reader where
  block : BlockId
  place : Option Nat
  ready : Bool
  stage : Stage
  deriving DecidableEq

inductive Call where
  | idle
  | acquiring (block : BlockId) (i pos : Nat) (reusedPos : Option Nat)
  | live (reader : Reader)
  deriving DecidableEq

inductive Event (Party : Type) where
  | makeReader (p : Party) (block : BlockId)
  | acquire (p : Party)
  | next (p : Party)
  | readSome (p : Party) (nBytes : Nat)
  | readEnd (p : Party) (success : Bool)
  | destroy (p : Party)

end ShareBuffer

open ShareBuffer

/-- The parties are the threads that make readers, in all processes, one for each reader at a
time. `buffers` has the local buffers of the readers that get no slot. -/
structure ShareBuffer (Party : Type) where
  holder : Option Party
  headers : Nat → ShareBlockHeader
  data : Nat → Nat → UInt8
  buffers : Party → Nat → UInt8
  calls : Party → Call

namespace ShareBuffer

variable {Party : Type} [DecidableEq Party] (config : Config) (s : ShareBuffer Party)

def initShmBuffer : ShareBuffer Party where
  holder := none
  headers := fun _ => ⟨zeroId, 0, .init⟩
  data := fun _ _ => 0
  buffers := fun _ _ => 0
  calls := fun _ => .idle

def setCall (p : Party) (call : Call) : ShareBuffer Party :=
  { s with calls := Function.update s.calls p call }

def setHeader (pos : Nat) (header : ShareBlockHeader) : ShareBuffer Party :=
  { s with headers := Function.update s.headers pos header }

/-- `AcquireBlock` returns, and the reader is made on what it has found. -/
def makeOn (p : Party) (block : BlockId) (place : Option Nat) : ShareBuffer Party :=
  { s with holder := none }.setCall p (.live ⟨block, place, false, .made⟩)

/-- One round of the loop of `AcquireBlock`, or what comes after it. -/
def acquireBlock (p : Party) (block : BlockId) (i pos : Nat) (reusedPos : Option Nat) : ShareBuffer Party :=
  if i < config.blockNumber then
    let header := s.headers pos
    if header.id = block then (s.setHeader pos header.refer).makeOn p block (some pos)
    else if !header.used then
      match reusedPos with
      | some _ => s.setCall p (.acquiring block config.blockNumber pos reusedPos)
      | none => (s.setHeader pos (.occupy block)).makeOn p block (some pos)
    else
      s.setCall p (.acquiring block (i + 1) ((pos + 1) % config.blockNumber)
        (if header.ref ≤ 0 ∧ reusedPos = none then some pos else reusedPos))
  else
    match reusedPos with
    | some pos => (s.setHeader pos (.occupy block)).makeOn p block (some pos)
    | none => s.makeOn p block none

def releaseBlock (pos : Nat) : ShareBuffer Party :=
  s.setHeader pos { s.headers pos with ref := (s.headers pos).ref - 1 }

def setStatus (pos : Nat) (status : ShareBlockStatus) : ShareBuffer Party :=
  s.setHeader pos { s.headers pos with status := status }

def setStage (p : Party) (reader : Reader) (stage : Stage) : ShareBuffer Party :=
  s.setCall p (.live { reader with stage := stage })

/-- The steps of `Ready4ReadOnSharedBuffer` around its `File::Read`. -/
def sharedNext (p : Party) (reader : Reader) (pos : Nat) : Option (ShareBuffer Party) :=
  let status := (s.headers pos).status
  match reader.stage with
  | .made =>
    if status = .loaded then some (s.setCall p (.live { reader with ready := true }))
    else some (s.setStage p reader .checkingFailure)
  | .checkingFailure => some (s.setStage p reader (if status = .failure then .made else .checkingLoading))
  | .checkingLoading => some (s.setStage p reader (if status = .loading then .made else .locking))
  | .locking =>
    if status = .init then some ((s.setStatus pos .loading).setStage p reader .reading)
    else some (s.setStage p reader .made)
  | .reading => none
  | .publishing success =>
    some ((s.setStatus pos (if success then .loaded else .failure)).setCall p
      (.live { reader with stage := .made, ready := success || reader.ready }))

/-- `pread` has put the first bytes of the file into the buffer of the reader. -/
def fill (p : Party) (reader : Reader) (nBytes : Nat) : ShareBuffer Party :=
  let put (old : Nat → UInt8) : Nat → UInt8 := fun k =>
    if k < nBytes then config.content reader.block k else old k
  match reader.place with
  | some pos => { s with data := Function.update s.data pos (put (s.data pos)) }
  | none => { s with buffers := Function.update s.buffers p (put (s.buffers p)) }

/-- `Reader::GetData`. -/
def getData (p : Party) (reader : Reader) : Nat → UInt8 :=
  match reader.place with
  | some pos => s.data pos
  | none => s.buffers p

def step (s : ShareBuffer Party) : Event Party → Option (ShareBuffer Party)
  | .makeReader p block =>
    match s.calls p with
    | .idle =>
      if s.holder = none ∧ 0 < config.blockNumber then
        some ({ s with holder := some p }.setCall p
          (.acquiring block 0 (config.hasher block % config.blockNumber) none))
      else none
    | _ => none
  | .acquire p =>
    match s.calls p with
    | .acquiring block i pos reusedPos => some (s.acquireBlock config p block i pos reusedPos)
    | _ => none
  | .next p =>
    match s.calls p with
    | .live reader =>
      match reader.place, reader.stage with
      | some pos, _ => s.sharedNext p reader pos
      | none, .made => some (s.setStage p reader .reading)
      | none, _ => none
    | _ => none
  | .readSome p nBytes =>
    match s.calls p with
    | .live reader =>
      if reader.stage = .reading ∧ nBytes ≤ config.blockSize then some (s.fill config p reader nBytes)
      else none
    | _ => none
  | .readEnd p success =>
    match s.calls p with
    | .live reader =>
      if reader.stage = .reading then
        let s := if success then s.fill config p reader config.blockSize else s
        match reader.place with
        | some _ => some (s.setStage p reader (.publishing success))
        | none => some (s.setCall p (.live { reader with stage := .made, ready := success || reader.ready }))
      else none
    | _ => none
  | .destroy p =>
    match s.calls p with
    | .live reader =>
      if reader.stage = .made then
        some ((match reader.place with
          | some pos => s.releaseBlock pos
          | none => s).setCall p .idle)
      else none
    | _ => none

end ShareBuffer

end UnifiedCache.PcStore
