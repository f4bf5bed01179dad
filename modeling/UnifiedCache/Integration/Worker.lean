import UnifiedCache.Integration.ScheduleRuns

/-! The worker: what it knows of the requests, its persistent batch, and the inputs of the model made from them. What
is not patched of the batch is a parameter. -/

namespace UnifiedCache.Integration

structure CachedRequestState (ReqId Group : Type) where
  reqId : ReqId
  blockIds : Blocks Group
  numComputedTokens : Int

structure BlockTable where
  maxNumBlocksPerReq : Nat
  numBlocksPerRow : Nat → Nat
  blockTable : Nat → Nat → Nat

/-- The patched `reset_row`. -/
def BlockTable.resetRow (table : BlockTable) (rowIdx : Nat) : BlockTable :=
  { table with
    numBlocksPerRow := Function.update table.numBlocksPerRow rowIdx 0
    blockTable := Function.update table.blockTable rowIdx fun _ => 0 }

/-- The persistent batch. `Rest` is what else it holds. -/
structure InputBatch (ReqId Group Rest : Type) where
  reqIdToIndex : Dict ReqId Nat
  numComputedTokensCpu : Nat → Int
  tokenIdsCpu : Nat → Nat → Nat
  blockTable : Group → BlockTable
  rest : Rest

structure GPUModelRunner (ReqId Group Rest : Type) where
  requests : Dict ReqId (CachedRequestState ReqId Group)
  inputBatch : InputBatch ReqId Group Rest

/-- What the worker calls. -/
structure BatchOps (ReqId Group Rest : Type) where
  setDifference : List ReqId → List ReqId → List ReqId
  appendRow : BlockTable → List Nat → Nat → BlockTable
  removeRequest : InputBatch ReqId Group Rest → ReqId → InputBatch ReqId Group Rest
  addRequest : InputBatch ReqId Group Rest → CachedRequestState ReqId Group → InputBatch ReqId Group Rest
  condense : InputBatch ReqId Group Rest → InputBatch ReqId Group Rest
  mayReorderBatch : SchedulerOutput ReqId Group → InputBatch ReqId Group Rest → InputBatch ReqId Group Rest
  refreshMetadata : InputBatch ReqId Group Rest → InputBatch ReqId Group Rest
  reqIds : InputBatch ReqId Group Rest → List ReqId

section Definitions

variable {ReqId Group Rest : Type} [DecidableEq ReqId] (ops : BatchOps ReqId Group Rest) (spec : KvCacheSpec Group)
  (o : SchedulerOutput ReqId Group)

namespace InputBatch

variable (b : InputBatch ReqId Group Rest)

/-- A request of the batch gets its new blocks. -/
def updateRow (reqIndex : Nat) (numComputedTokens : Int) (newBlockIds : Blocks Group) (isSparsedRequest : Bool) :
    InputBatch ReqId Group Rest :=
  { b with
    numComputedTokensCpu := Function.update b.numComputedTokensCpu reqIndex numComputedTokens
    blockTable := fun g => ops.appendRow
      (if isSparsedRequest then (b.blockTable g).resetRow reqIndex else b.blockTable g) (newBlockIds g) reqIndex }

/-- The sums of the counts up to each of them, and the numbers below each count. -/
def getCumsumAndArange (numTokens : List Nat) : List Nat × List Nat :=
  ((List.range numTokens.length).map fun i => (numTokens.take (i + 1)).sum, numTokens.flatMap List.range)

def reqIndices (numTokens : List Nat) : List Nat :=
  ((List.range numTokens.length).zip numTokens).flatMap fun p => List.replicate p.2 p.1

def positions (numTokens : List Nat) : List Int :=
  List.zipWith (fun (i a : Nat) => b.numComputedTokensCpu i + (a : Int)) (reqIndices numTokens)
    (getCumsumAndArange numTokens).2

/-- The first position of a sparse request is that of its last slot. -/
def sparsedPositions (numTokens : List Nat) : Option (List Int) :=
  b.reqIdToIndex.items.foldlM (fun positions p => (o.reqSparsedSlots.get? p.1).bind fun slots =>
    (if p.2 = 0 then some 0 else (getCumsumAndArange numTokens).1[p.2 - 1]?).bind fun offset =>
      if slots = INVALID_SLOT then some positions
      else if offset < positions.length then some (positions.set offset (slots - 1))
      else none) (b.positions numTokens)

/-- An entry of a table whose rows lie one after another. -/
def flattened (columns : Nat) (table : Nat → Nat → Nat) (i : Nat) : Nat := table (i / columns) (i % columns)

def slotMapping (g : Group) (numTokens : List Nat) (sparsedPositions : List Int) : List Int :=
  let blockSize : Int := spec.blockSize g
  let columns := (b.blockTable g).maxNumBlocksPerReq
  List.zipWith (fun (i : Nat) (position : Int) =>
    let blockTableIndex := (i : Int) * columns + position / blockSize
    (flattened columns (b.blockTable g).blockTable blockTableIndex.toNat : Int) * blockSize + position % blockSize)
    (reqIndices numTokens) sparsedPositions

/-- The length of a sparse request is its slots. -/
def seqLens (numTokens : List Nat) : Option (List Int) :=
  b.reqIdToIndex.items.foldlM (fun seqLens p => (o.reqSparsedSlots.get? p.1).map fun slots =>
    if slots = INVALID_SLOT then seqLens else seqLens.set p.2 slots)
    (numTokens.mapIdx fun (i n : Nat) => b.numComputedTokensCpu i + (n : Int))

end InputBatch

namespace GPUModelRunner

variable (w : GPUModelRunner ReqId Group Rest)

def removeFinished : GPUModelRunner ReqId Group Rest where
  requests := o.finishedReqIds.foldl Dict.pop w.requests
  inputBatch := o.finishedReqIds.foldl ops.removeRequest w.inputBatch

/-- Those that are not scheduled leave the batch but stay known. -/
def removeUnscheduled : GPUModelRunner ReqId Group Rest :=
  { w with
    inputBatch := (ops.setDifference (w.inputBatch.reqIdToIndex.items.map Prod.fst)
      (o.numScheduledTokens.items.map Prod.fst)).foldl ops.removeRequest w.inputBatch }

def addNew : GPUModelRunner ReqId Group Rest :=
  { w with
    requests := o.scheduledNewReqs.foldl (fun requests d =>
      requests.set d.reqId ⟨d.reqId, d.blockIds, d.numComputedTokens⟩) w.requests }

/-- The batch follows the state of a request, which is to be added if it is not in the batch. -/
def updateBatch (d : CachedRequestData ReqId Group) (isSparsedRequest : Bool) (toAdd : List ReqId) :
    GPUModelRunner ReqId Group Rest × List ReqId :=
  match w.inputBatch.reqIdToIndex.get? d.reqId with
  | none => (w, toAdd ++ [d.reqId])
  | some reqIndex =>
    ({ w with
        inputBatch := w.inputBatch.updateRow ops reqIndex d.numComputedTokens d.newBlockIds isSparsedRequest }, toAdd)

/-- A request that ran before gets its new blocks. -/
def updateCached (current : GPUModelRunner ReqId Group Rest × List ReqId) (d : CachedRequestData ReqId Group) :
    Option (GPUModelRunner ReqId Group Rest × List ReqId) :=
  (current.1.requests.get? d.reqId).bind fun reqState => (o.reqSparsedSlots.get? d.reqId).map fun slots =>
    let isSparsedRequest : Bool := slots ≠ INVALID_SLOT
    let blockIds :=
      if d.resumedFromPreemption || isSparsedRequest then d.newBlockIds
      else fun g => reqState.blockIds g ++ d.newBlockIds g
    { current.1 with
      requests := current.1.requests.set d.reqId
        { reqState with numComputedTokens := d.numComputedTokens, blockIds := blockIds } }.updateBatch ops d
      isSparsedRequest current.2

def addToBatch (r : ReqId) : Option (GPUModelRunner ReqId Group Rest) :=
  (w.requests.get? r).map fun reqState => { w with inputBatch := ops.addRequest w.inputBatch reqState }

/-- `_update_states`. -/
def updateStates : Option (GPUModelRunner ReqId Group Rest) :=
  let w := ((w.removeFinished ops o).removeUnscheduled ops o).addNew o
  (o.scheduledCachedReqs.foldlM (updateCached ops o)
    (w, o.scheduledNewReqs.map NewRequestData.reqId)).bind fun current =>
    (current.2.foldlM (addToBatch ops) current.1).map fun w =>
      { w with inputBatch := ops.refreshMetadata (ops.mayReorderBatch o (ops.condense w.inputBatch)) }

end GPUModelRunner

end Definitions

end UnifiedCache.Integration
