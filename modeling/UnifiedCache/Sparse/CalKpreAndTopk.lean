import UnifiedCache.Lib.StepSystem

/-! The pipeline of the top-k computation: the caller queues copy requests, `CopyData` copies and
raises the ready flags, `Calculate` computes the layers of a step and resets the flags. The tensors
and the parameters of the computation are left out. -/

namespace UnifiedCache.Sparse.TopkPipeline

/-- `m_kReady` and `m_qReady`. -/
inductive Kind where
  | k
  | q
  deriving DecidableEq

/-- A ready flag, of a layer. -/
abbrev Flag := Kind × Nat

/-- `step` notes the decode step that the request is queued in. -/
structure CopyInfo where
  needCalKpre : Bool
  layerId : Nat
  locations : List Int
  step : Nat
  deriving DecidableEq

namespace CopyInfo

def kind (r : CopyInfo) : Kind := if r.locations = [] then .k else .q

/-- The flag that `CopyData` raises for the request. -/
def flag (r : CopyInfo) : Flag := (r.kind, r.layerId)

end CopyInfo

/-- The requests of a decode step: `copy_q` for every layer, each followed by `copy_k` where block
representations are computed. -/
def requests (layerNum : Nat) (isCalKpre : Bool) (ids : List Int) (step : Nat) : List CopyInfo :=
  (List.range layerNum).flatMap fun layer =>
    ⟨isCalKpre, layer, ids, step⟩ :: if isCalKpre then [⟨true, layer, [], step⟩] else []

/-- Where the copy thread is in `CopyData`. It tests `m_running` once between two requests, for the
second of two tests in a row settles what it does. -/
inductive CopyData where
  | top
  | pop
  | start (r : CopyInfo)
  | branch (r : CopyInfo)
  | lock (r : CopyInfo)
  | locked (r : CopyInfo)
  | store (r : CopyInfo) (held : Bool)
  | notify
  | ended
  deriving DecidableEq

namespace CopyData

/-- Whether it has `m_calLock`. -/
def holds : CopyData → Bool
  | locked _ => true
  | store _ held => held
  | notify => true
  | _ => false

/-- The request that it has popped and whose flag it has not raised. -/
def inHand : CopyData → List CopyInfo
  | start r => [r]
  | branch r => [r]
  | lock r => [r]
  | locked r => [r]
  | store r _ => [r]
  | _ => []

end CopyData

/-- Where the calculate thread is in `Calculate`. `need` is the value of `m_needCalPre` that
`CheckDataStatus` has read. -/
inductive Calculate where
  | top
  | locking
  | readNeed
  | readRunning (need : Bool)
  | readReady (need : Bool)
  | asleep
  | layer (kind : Kind) (i : Nat)
  | spin (kind : Kind) (i : Nat)
  | finish (i : Nat)
  | resetTest (kind : Kind)
  | reset (kind : Kind) (i : Nat)
  | resetTopk
  | resetPre
  | unlock
  | ended
  deriving DecidableEq

namespace Calculate

/-- Whether it has `m_calLock`, which it gives up while it sleeps. -/
def holds : Calculate → Bool
  | top => false
  | locking => false
  | asleep => false
  | ended => false
  | _ => true

/-- In `CalForOneLayer`, after the wait for a flag. -/
def afterSpin (i : Nat) : Kind → Calculate
  | .k => layer .q i
  | .q => finish i

/-- In `ResetReady`, after the flags of a kind. -/
def afterReset : Kind → Calculate
  | .q => resetTest .k
  | .k => resetTopk

end Calculate

/-- Where the caller is in the destructor. -/
inductive Destructor where
  | none
  | joinCalculate
  | stopQueue
  | joinCopy
  | ended
  deriving DecidableEq

/-- After `SetKpreCache`, with the part of the caller. The step for which a flag was raised last is its `stamp`,
and `current` is the step whose parameters are set when `Calculate` starts with the layers. The flags
that it waited for are `consumed`, those that were up and not consumed for their step when they were
reset are `lost`. -/
structure CalKpreAndTopk where
  ready : Flag → Bool
  topkFlag : Nat → Bool
  needCalPre : Bool
  needCalTopk : Bool
  running : Bool
  copyQueue : List CopyInfo
  stopped : Bool
  copyThread : CopyData
  calculateThread : Calculate
  destructor : Destructor
  isTopkDone : Bool
  toPush : List CopyInfo
  begun : Nat
  current : Nat
  stamp : Flag → Nat
  consumed : List (Flag × Nat)
  lost : List (Flag × Nat)

/-- `popped` is what `pop` finds in an empty queue that is stopped. -/
inductive Event where
  | isCalculateFinish
  | setParam (isCalKpre : Bool) (ids : List Int)
  | addCopyReq
  | copyData (popped : CopyInfo)
  | calculate
  | destroy
  | join
  deriving DecidableEq

namespace CalKpreAndTopk

def start : CalKpreAndTopk where
  ready := fun _ => false
  topkFlag := fun _ => true
  needCalPre := false
  needCalTopk := false
  running := true
  copyQueue := []
  stopped := false
  copyThread := .top
  calculateThread := .top
  destructor := .none
  isTopkDone := false
  toPush := []
  begun := 0
  current := 0
  stamp := fun _ => 0
  consumed := []
  lost := []

variable (layerNum : Nat) (s : CalKpreAndTopk)

def goCopy (copyThread : CopyData) : CalKpreAndTopk := { s with copyThread := copyThread }

def goCalculate (calculateThread : Calculate) : CalKpreAndTopk := { s with calculateThread := calculateThread }

/-- `m_needCalPre` and `m_needCalTopk`. -/
def need : Kind → Bool
  | .k => s.needCalPre
  | .q => s.needCalTopk

/-- The flag that `CheckDataStatus` reads. -/
def statusFlag (need : Bool) : Flag := (if need then .k else .q, 0)

def consume (f : Flag) : CalKpreAndTopk := { s with consumed := (f, s.current) :: s.consumed }

def raiseFlag (f : Flag) (step : Nat) : CalKpreAndTopk :=
  { s with ready := Function.update s.ready f true, stamp := Function.update s.stamp f step }

def clearFlag (f : Flag) : CalKpreAndTopk :=
  { s with
    ready := Function.update s.ready f false
    lost := if s.ready f = true ∧ (f, s.stamp f) ∉ s.consumed then (f, s.stamp f) :: s.lost else s.lost }

/-- The next step of `Calculate`. Spurious wake-ups are allowed, so that `notify` adds nothing. -/
def calculateNext : Option CalKpreAndTopk :=
  match s.calculateThread with
  | .top => some (s.goCalculate (if s.running then .locking else .ended))
  | .locking => if s.copyThread.holds then none else some (s.goCalculate .readNeed)
  | .readNeed => some (s.goCalculate (.readRunning s.needCalPre))
  | .readRunning need => some (s.goCalculate (if s.running then .readReady need else .asleep))
  | .readReady need =>
    if s.ready (statusFlag need) then some { s.goCalculate (.layer .k 0) with current := s.begun }
    else some (s.goCalculate .asleep)
  | .asleep => some (s.goCalculate .locking)
  | .layer .k i =>
    if i < layerNum then some (s.goCalculate (if s.needCalPre then .spin .k i else .layer .q i))
    else some (s.goCalculate (.resetTest .q))
  | .layer .q i => some (s.goCalculate (if s.needCalTopk then .spin .q i else .finish i))
  | .spin kind i => if s.ready (kind, i) then some ((s.consume (kind, i)).goCalculate (.afterSpin i kind)) else none
  | .finish i => some { s.goCalculate (.layer .k (i + 1)) with topkFlag := Function.update s.topkFlag i true }
  | .resetTest kind => some (s.goCalculate (if s.need kind then .reset kind 0 else .afterReset kind))
  | .reset kind i =>
    if i < layerNum then some ((s.clearFlag (kind, i)).goCalculate (.reset kind (i + 1)))
    else some (s.goCalculate (.afterReset kind))
  | .resetTopk => some { s.goCalculate .resetPre with needCalTopk := false }
  | .resetPre => some { s.goCalculate .unlock with needCalPre := false }
  | .unlock => some (s.goCalculate .top)
  | .ended => none

/-- Whether `SetKpreDataReady` or `SetTopkDataReady` takes `m_calLock`. -/
def takesLock (r : CopyInfo) : Bool := (r.kind = .k || !s.needCalPre) && r.layerId = 0

/-- The next step of `CopyData`. -/
def copyNext (popped : CopyInfo) : Option CalKpreAndTopk :=
  match s.copyThread with
  | .top => some (s.goCopy (if s.running then .pop else .ended))
  | .pop =>
    match s.copyQueue with
    | r :: queue => some { s.goCopy (.start r) with copyQueue := queue }
    | [] => if s.stopped then some (s.goCopy (.start popped)) else none
  | .start r =>
    some { s.goCopy (.branch r) with
      needCalPre := if r.flag = (.q, 0) then r.needCalKpre else s.needCalPre }
  | .branch r => some (s.goCopy (if s.takesLock r then .lock r else .store r false))
  | .lock r => if s.calculateThread.holds then none else some (s.goCopy (.locked r))
  | .locked r =>
    some { s.goCopy (.store r true) with
      needCalPre := r.kind = .k || s.needCalPre
      topkFlag := fun _ => false }
  | .store r held => some ((s.raiseFlag r.flag r.step).goCopy (if held then .notify else .top))
  | .notify => some (s.goCopy .top)
  | .ended => none

/-- The caller asks whether the calculation is finished before it sets the parameters of a step. -/
def step : Event → Option CalKpreAndTopk
  | .isCalculateFinish =>
    if s.destructor = .none ∧ s.toPush = [] then some { s with isTopkDone := s.topkFlag (layerNum - 1) } else none
  | .setParam isCalKpre ids =>
    if s.destructor = .none ∧ s.toPush = [] ∧ s.isTopkDone = true ∧ ids ≠ [] then
      some { s with
        needCalTopk := true
        isTopkDone := false
        toPush := requests layerNum isCalKpre ids (s.begun + 1)
        begun := s.begun + 1 }
    else none
  | .addCopyReq =>
    match s.destructor, s.toPush with
    | .none, r :: toPush => some { s with copyQueue := s.copyQueue ++ [r], toPush := toPush }
    | _, _ => none
  | .copyData popped => s.copyNext popped
  | .calculate => s.calculateNext layerNum
  | .destroy => if s.destructor = .none then some { s with destructor := .joinCalculate, running := false } else none
  | .join =>
    match s.destructor with
    | .joinCalculate => if s.calculateThread = .ended then some { s with destructor := .stopQueue } else none
    | .stopQueue => some { s with destructor := .joinCopy, stopped := true }
    | .joinCopy => if s.copyThread = .ended then some { s with destructor := .ended } else none
    | _ => none

/-- The requests whose flags are not raised yet. -/
def pending : List CopyInfo := s.copyThread.inHand ++ s.copyQueue ++ s.toPush

/-- Whether `CopyData` is to raise the flags of all requests, which once `m_running` is off it does
for the request in hand and for one that it waits for. -/
def allComing : Bool :=
  s.toPush = [] && (s.copyQueue = [] || (s.copyThread = .pop && s.copyQueue.length = 1))

/-- Whether `Calculate` is to come to its end once `m_running` is off. -/
def leaves : Bool :=
  match s.calculateThread with
  | .locking => false
  | .readNeed => false
  | .readRunning _ => false
  | .asleep => false
  | .readReady need => s.ready (statusFlag need) && s.allComing
  | .layer _ _ => s.allComing
  | .spin _ _ => s.allComing
  | .finish _ => s.allComing
  | _ => true

/-- Whether `CheckDataStatus` has found `m_needCalPre` off and has not read the flag. -/
def readsTopk : Bool := s.calculateThread = .readRunning false || s.calculateThread = .readReady false

/-- The parameters of a step are set after the reset of the step before, the first flag of a step
with block representations is not raised while `CheckDataStatus` is about to read it, and the
destructor starts where `Calculate` is to come to its end. -/
def inTurn : Event → Bool
  | .setParam _ _ => !s.needCalTopk && s.calculateThread ≠ .resetPre
  | .copyData _ =>
    match s.copyThread with
    | .store r _ => !(r.flag = (.q, 0) && r.needCalKpre && s.readsTopk)
    | _ => true
  | .destroy => s.leaves
  | _ => true

/-- `CheckDataStatus`. -/
def CheckDataStatus : Prop := s.running = true ∧ s.ready (statusFlag s.needCalPre) = true

end CalKpreAndTopk

/-- What a thread waits for. -/
def Calculate.Awaits : Calculate → CalKpreAndTopk → Prop
  | .asleep, s => s.CheckDataStatus
  | .spin kind i, s => s.ready (kind, i) = true
  | .locking, s => s.copyThread.holds = false
  | _, _ => True

def CopyData.Awaits : CopyData → CalKpreAndTopk → Prop
  | .pop, s => s.copyQueue ≠ [] ∨ s.stopped = true
  | .lock _, s => s.calculateThread.holds = false
  | _, _ => True

end UnifiedCache.Sparse.TopkPipeline
