import UnifiedCache.Connector.Dispatch
import UnifiedCache.Lib.Attempt

/-! The workers of the two connectors: the calls that they make to the stores in a step, any of
which may raise a `RuntimeError`. -/

namespace UnifiedCache.Connector

variable {BlockId ReqId : Type*}

/-- K and V, MLA with K only, and DSA with its rope part in a store of its own. -/
inductive CacheKind where
  | keyValue
  | mla
  | dsa
  deriving DecidableEq

inductive StoreName where
  | store
  | ropeStore
  deriving DecidableEq

/-- The transfers that a step can ask for, each once. A task handle is named by its transfer.
The second one of a layer has its V or rope part. -/
inductive Task (ReqId : Type*) where
  | load (requestId : ReqId) (layer : Nat) (second : Bool)
  | dump (layer : Nat) (second : Bool)
  deriving DecidableEq

/-- The request that a load is for. -/
def Task.request : Task ReqId → Option ReqId
  | .load requestId _ _ => some requestId
  | .dump _ _ => none

structure Submission (BlockId ReqId : Type*) where
  store : StoreName
  task : Task ReqId
  blockIds : List BlockId
  shardIndexs : List Nat
  addrs : List (List UInt64)

/-- Which calls of a step raise. -/
structure Raises (ReqId : Type*) where
  submit : Task ReqId → Bool
  wait : StoreName → Task ReqId → Bool

/-- The entry of each pointer array at `i` is for layer `i`. -/
structure WorkerConfig (BlockId : Type*) where
  kind : CacheKind
  tpRank : Nat
  numLayers : Nat
  requestHasher : BlockId → BlockId
  blockStride : UInt64
  ropeBlockStride : UInt64
  kBasePtrs : Nat → UInt64
  vBasePtrs : Nat → UInt64

/-- The fields of a connector, with the calls that it made in the step and whether an exception
left one of its methods. -/
structure Worker (BlockId ReqId : Type*) where
  metadata : Dict ReqId (RequestDispatchMeta BlockId)
  invalidBlockIds : Finset Nat
  loadTasks : Dict ReqId (List (Task ReqId))
  dumpTasks : List (Task ReqId)
  isSave : Bool
  submitted : List (Submission BlockId ReqId)
  waited : List (StoreName × Task ReqId)
  raised : Bool

namespace WorkerConfig

variable (config : WorkerConfig BlockId)

/-- `is_mla or is_dsa`. -/
def shared : Bool := decide (config.kind ≠ .keyValue)

def kAddr (layer vllmBlockId : Nat) : UInt64 :=
  UInt64.ofNat vllmBlockId * config.blockStride + config.kBasePtrs layer

def vAddr (layer vllmBlockId : Nat) : UInt64 :=
  UInt64.ofNat vllmBlockId * config.blockStride + config.vBasePtrs layer

def ropeAddr (layer vllmBlockId : Nat) : UInt64 :=
  UInt64.ofNat vllmBlockId * config.ropeBlockStride + config.vBasePtrs layer

def generateTask (vllmBlockIds : List Nat) : List (List UInt64) × Option (List (List UInt64)) :=
  let kAddrs := vllmBlockIds.map fun b => (List.range config.numLayers).map fun i => config.kAddr i b
  match config.kind with
  | .mla => (kAddrs, none)
  | .dsa => (kAddrs, some (vllmBlockIds.map fun b => (List.range config.numLayers).map fun i => config.ropeAddr i b))
  | .keyValue =>
    let vAddrs := vllmBlockIds.map fun b => (List.range config.numLayers).map fun i => config.vAddr i b
    (List.zipWith (· ++ ·) kAddrs vAddrs, none)

def rehashLoad (request : RequestDispatchMeta BlockId) : RequestDispatchMeta BlockId :=
  if config.tpRank ≠ 0 ∧ ¬ config.shared then
    { request with loadBlockIds := (request.loadBlockIds.1.map config.requestHasher, request.loadBlockIds.2) }
  else request

def rehashDump (request : RequestDispatchMeta BlockId) : RequestDispatchMeta BlockId :=
  if config.tpRank ≠ 0 then
    { request with dumpBlockIds := (request.dumpBlockIds.1.map config.requestHasher, request.dumpBlockIds.2) }
  else request

end WorkerConfig

/-- The requests with blocks to dump, their ids one after the other. -/
def totalDump (metadata : Dict ReqId (RequestDispatchMeta BlockId)) : List BlockId × List Nat :=
  let requests := (metadata.items.map Prod.snd).filter fun request => !request.dumpBlockIds.1.isEmpty
  (requests.flatMap fun request => request.dumpBlockIds.1, requests.flatMap fun request => request.dumpBlockIds.2)

def savesAny (metadata : Dict ReqId (RequestDispatchMeta BlockId)) : Bool :=
  metadata.items.any fun item => !item.2.dumpBlockIds.1.isEmpty

/-- The waits on the tasks at some places of a list, up to an `IndexError`. -/
def indexed (tasks : List (Task ReqId)) : List (StoreName × Nat) → List (StoreName × Task ReqId)
  | [] => []
  | (name, i) :: places => match tasks[i]? with
    | some task => (name, task) :: indexed tasks places
    | none => []

theorem mem_of_mem_indexed {tasks : List (Task ReqId)} {places : List (StoreName × Nat)}
    {x : StoreName × Task ReqId} (h : x ∈ indexed tasks places) : x.2 ∈ tasks := by
  induction places with
  | nil => cases h
  | cons place places ih =>
    unfold indexed at h
    cases ht : tasks[place.2]? with
    | none =>
      simp only [ht] at h
      cases h
    | some task =>
      simp only [ht, List.mem_cons] at h
      obtain rfl | h := h
      · exact List.mem_of_getElem? ht
      · exact ih h

namespace Worker

variable [DecidableEq ReqId] (config : WorkerConfig BlockId) (raises : Raises ReqId) (w : Worker BlockId ReqId)

def initial : Worker BlockId ReqId where
  metadata := Dict.empty
  invalidBlockIds := ∅
  loadTasks := Dict.empty
  dumpTasks := []
  isSave := false
  submitted := []
  waited := []
  raised := false

def bindConnectorMetadata (metadata : Dict ReqId (RequestDispatchMeta BlockId)) : Worker BlockId ReqId :=
  { w with metadata := metadata, submitted := [], waited := [], raised := false }

def getBlockIdsWithLoadErrors : Finset Nat × Worker BlockId ReqId :=
  (w.invalidBlockIds, { w with invalidBlockIds := ∅ })

/-- `self._invalid_block_ids.update(metadata.request_meta[request_id].load_block_ids[1])`. -/
def loadFailed (requestId : ReqId) : Worker BlockId ReqId :=
  match w.metadata.get? requestId with
  | some request => { w with invalidBlockIds := w.invalidBlockIds ∪ request.loadBlockIds.2.toFinset }
  | none => { w with raised := true }

def submit (submissions : List (Submission BlockId ReqId)) : Worker BlockId ReqId :=
  { w with submitted := w.submitted ++ attempt (fun x => raises.submit x.task) submissions }

def wait (waits : List (StoreName × Task ReqId)) : Worker BlockId ReqId :=
  { w with waited := w.waited ++ attempt (fun x => raises.wait x.1 x.2) waits }

/-- The submissions of a request in a try block. -/
def tryLoad (requestId : ReqId) (submissions : List (Submission BlockId ReqId)) : Worker BlockId ReqId :=
  if submissions.any fun x => raises.submit x.task then (w.submit raises submissions).loadFailed requestId
  else w.submit raises submissions

/-- The waits on the tasks of a request in a try block. -/
def tryWait (requestId : ReqId) (waits : List (StoreName × Task ReqId)) : Worker BlockId ReqId :=
  if waits.any fun x => raises.wait x.1 x.2 then (w.wait raises waits).loadFailed requestId
  else w.wait raises waits

section Fields

variable {config raises w} {requestId : ReqId} {submissions : List (Submission BlockId ReqId)}
  {waits : List (StoreName × Task ReqId)}

theorem loadFailed_fields (w : Worker BlockId ReqId) (requestId : ReqId) :
    ∃ ids raised, w.loadFailed requestId = { w with invalidBlockIds := ids, raised := raised } := by
  unfold loadFailed
  cases w.metadata.get? requestId with
  | none => exact ⟨_, _, rfl⟩
  | some request => exact ⟨_, _, rfl⟩

theorem tryLoad_fields (raises : Raises ReqId) (w : Worker BlockId ReqId) (requestId : ReqId)
    (submissions : List (Submission BlockId ReqId)) :
    ∃ ids raised, w.tryLoad raises requestId submissions =
      { w.submit raises submissions with invalidBlockIds := ids, raised := raised } := by
  unfold tryLoad
  split_ifs
  · exact loadFailed_fields _ _
  · exact ⟨_, _, rfl⟩

theorem tryWait_fields (raises : Raises ReqId) (w : Worker BlockId ReqId) (requestId : ReqId)
    (waits : List (StoreName × Task ReqId)) :
    ∃ ids raised, w.tryWait raises requestId waits =
      { w.wait raises waits with invalidBlockIds := ids, raised := raised } := by
  unfold tryWait
  split_ifs
  · exact loadFailed_fields _ _
  · exact ⟨_, _, rfl⟩

@[simp] theorem tryLoad_metadata : (w.tryLoad raises requestId submissions).metadata = w.metadata := by
  obtain ⟨_, _, he⟩ := tryLoad_fields raises w requestId submissions
  rw [he]
  rfl

@[simp] theorem tryLoad_loadTasks : (w.tryLoad raises requestId submissions).loadTasks = w.loadTasks := by
  obtain ⟨_, _, he⟩ := tryLoad_fields raises w requestId submissions
  rw [he]
  rfl

@[simp] theorem tryLoad_dumpTasks : (w.tryLoad raises requestId submissions).dumpTasks = w.dumpTasks := by
  obtain ⟨_, _, he⟩ := tryLoad_fields raises w requestId submissions
  rw [he]
  rfl

@[simp] theorem tryLoad_isSave : (w.tryLoad raises requestId submissions).isSave = w.isSave := by
  obtain ⟨_, _, he⟩ := tryLoad_fields raises w requestId submissions
  rw [he]
  rfl

@[simp] theorem tryLoad_submitted : (w.tryLoad raises requestId submissions).submitted =
    w.submitted ++ attempt (fun x => raises.submit x.task) submissions := by
  obtain ⟨_, _, he⟩ := tryLoad_fields raises w requestId submissions
  rw [he]
  rfl

@[simp] theorem tryLoad_waited : (w.tryLoad raises requestId submissions).waited = w.waited := by
  obtain ⟨_, _, he⟩ := tryLoad_fields raises w requestId submissions
  rw [he]
  rfl

@[simp] theorem tryWait_metadata : (w.tryWait raises requestId waits).metadata = w.metadata := by
  obtain ⟨_, _, he⟩ := tryWait_fields raises w requestId waits
  rw [he]
  rfl

@[simp] theorem tryWait_loadTasks : (w.tryWait raises requestId waits).loadTasks = w.loadTasks := by
  obtain ⟨_, _, he⟩ := tryWait_fields raises w requestId waits
  rw [he]
  rfl

@[simp] theorem tryWait_dumpTasks : (w.tryWait raises requestId waits).dumpTasks = w.dumpTasks := by
  obtain ⟨_, _, he⟩ := tryWait_fields raises w requestId waits
  rw [he]
  rfl

@[simp] theorem tryWait_isSave : (w.tryWait raises requestId waits).isSave = w.isSave := by
  obtain ⟨_, _, he⟩ := tryWait_fields raises w requestId waits
  rw [he]
  rfl

@[simp] theorem tryWait_submitted : (w.tryWait raises requestId waits).submitted = w.submitted := by
  obtain ⟨_, _, he⟩ := tryWait_fields raises w requestId waits
  rw [he]
  rfl

@[simp] theorem tryWait_waited : (w.tryWait raises requestId waits).waited =
    w.waited ++ attempt (fun x => raises.wait x.1 x.2) waits := by
  obtain ⟨_, _, he⟩ := tryWait_fields raises w requestId waits
  rw [he]
  rfl

end Fields

end Worker

namespace UCMDirectConnector

variable [DecidableEq ReqId] (config : WorkerConfig BlockId) (raises : Raises ReqId) (w : Worker BlockId ReqId)

def submissions (task : Bool → Task ReqId) (blockIds : List BlockId) (vllmBlockIds : List Nat) :
    List (Submission BlockId ReqId) :=
  let tensors := config.generateTask vllmBlockIds
  let shardIndexs := List.replicate blockIds.length 0
  ⟨.store, task false, blockIds, shardIndexs, tensors.1⟩ ::
    (tensors.2.map fun ropeTensors => ⟨.ropeStore, task true, blockIds, shardIndexs, ropeTensors⟩).toList

def loadRequest (loaded : Worker BlockId ReqId × Dict ReqId (List (Task ReqId)))
    (item : ReqId × RequestDispatchMeta BlockId) : Worker BlockId ReqId × Dict ReqId (List (Task ReqId)) :=
  if item.2.loadBlockIds.1.isEmpty then loaded
  else
    let submissions := submissions config (.load item.1 0) item.2.loadBlockIds.1 item.2.loadBlockIds.2
    let tasks := (returned (fun x => raises.submit x.task) submissions).map Submission.task
    (loaded.1.tryLoad raises item.1 submissions,
      if tasks.isEmpty then loaded.2 else loaded.2.set item.1 tasks)

def waitRequest (w : Worker BlockId ReqId) (item : ReqId × List (Task ReqId)) : Worker BlockId ReqId :=
  w.tryWait raises item.1
    (indexed item.2 ((.store, 0) :: if item.2.length > 1 then [(.ropeStore, 1)] else []))

/-- The ids of a request are hashed before its load. -/
def startLoadKv : Worker BlockId ReqId :=
  let w := { w with metadata := w.metadata.mapVals config.rehashLoad }
  let loaded := w.metadata.items.foldl (loadRequest config raises) (w, Dict.empty)
  loaded.2.items.foldl (waitRequest raises) loaded.1

/-- After a wait that raises, `save_end_time` is not bound where the speed is computed. -/
def waitForSave : Worker BlockId ReqId :=
  if config.shared ∧ config.tpRank ≠ 0 then w
  else
    let w := { w with metadata := w.metadata.mapVals config.rehashDump }
    if savesAny w.metadata then
      let total := totalDump w.metadata
      let submissions := submissions config (.dump 0) total.1 total.2
      let dumpTasks := (returned (fun x => raises.submit x.task) submissions).map Submission.task
      let w := w.submit raises submissions
      let waits := indexed dumpTasks ((if dumpTasks.isEmpty then [] else [(.store, 0)]) ++
        if dumpTasks.length > 1 then [(.ropeStore, 1)] else [])
      { w.wait raises waits with raised := w.raised || waits.any fun x => raises.wait x.1 x.2 }
    else w

def step (metadata : Dict ReqId (RequestDispatchMeta BlockId)) : Worker BlockId ReqId :=
  waitForSave config raises (startLoadKv config raises (w.bindConnectorMetadata metadata))

end UCMDirectConnector

namespace UCMLayerWiseConnector

variable [DecidableEq ReqId] (config : WorkerConfig BlockId) (raises : Raises ReqId) (w : Worker BlockId ReqId)

def layerSubmissions (task : Nat → Bool → Task ReqId) (blockIds : List BlockId) (vllmBlockIds : List Nat)
    (layer : Nat) : List (Submission BlockId ReqId) :=
  ⟨.store, task layer false, blockIds, List.replicate blockIds.length layer,
      vllmBlockIds.map fun b => [config.kAddr layer b]⟩ ::
    match config.kind with
    | .mla => []
    | .dsa => [⟨.ropeStore, task layer true, blockIds, List.replicate blockIds.length layer,
        vllmBlockIds.map fun b => [config.ropeAddr layer b]⟩]
    | .keyValue => [⟨.store, task layer true, blockIds, List.replicate blockIds.length (layer + config.numLayers),
        vllmBlockIds.map fun b => [config.vAddr layer b]⟩]

/-- The places of the tasks of a layer, and the stores that are asked to wait for them. -/
def layerPlaces (layer : Nat) : List (StoreName × Nat) :=
  match config.kind with
  | .mla => [(.store, layer)]
  | .dsa => [(.store, layer * 2), (.ropeStore, layer * 2 + 1)]
  | .keyValue => [(.store, layer * 2), (.store, layer * 2 + 1)]

def loadRequest (w : Worker BlockId ReqId) (item : ReqId × RequestDispatchMeta BlockId) : Worker BlockId ReqId :=
  if item.2.loadBlockIds.1.isEmpty then w
  else
    let submissions := (List.range config.numLayers).flatMap
      (layerSubmissions config (.load item.1) item.2.loadBlockIds.1 item.2.loadBlockIds.2)
    let tasks := submissions.map Submission.task
    let loadTasks :=
      if submissions.any fun x => raises.submit x.task then w.loadTasks.pop item.1
      else if tasks.isEmpty then w.loadTasks
      else w.loadTasks.set item.1 tasks
    { w.tryLoad raises item.1 submissions with loadTasks := loadTasks }

def startLoadKv : Worker BlockId ReqId :=
  let w := { w with metadata := w.metadata.mapVals config.rehashLoad, loadTasks := Dict.empty }
  w.metadata.items.foldl (loadRequest config raises) w

def waitForLayerLoad (layer : Nat) : Worker BlockId ReqId :=
  w.loadTasks.items.foldl (fun w item =>
    w.tryWait raises item.1 (indexed item.2 (layerPlaces config layer))) w

def saveKvLayer (layer : Nat) : Worker BlockId ReqId :=
  if config.shared ∧ config.tpRank ≠ 0 then w
  else
    let metadata := if layer = 0 then w.metadata.mapVals config.rehashDump else w.metadata
    let w := { w with metadata := metadata, isSave := w.isSave || savesAny metadata }
    if w.isSave then
      let total := totalDump w.metadata
      let submissions := layerSubmissions config .dump total.1 total.2 layer
      { w.submit raises submissions with
        dumpTasks := w.dumpTasks ++ (returned (fun x => raises.submit x.task) submissions).map Submission.task }
    else w

def waitForSave : Worker BlockId ReqId :=
  if w.isSave then
    { w.wait raises (indexed w.dumpTasks ((List.range config.numLayers).flatMap (layerPlaces config))) with
      dumpTasks := []
      isSave := false }
  else w

def step (metadata : Dict ReqId (RequestDispatchMeta BlockId)) : Worker BlockId ReqId :=
  let w := startLoadKv config raises (w.bindConnectorMetadata metadata)
  let w := (List.range config.numLayers).foldl (fun w layer =>
    saveKvLayer config raises (waitForLayerLoad config raises w layer) layer) w
  waitForSave config raises w

end UCMLayerWiseConnector

/-- Two layers on rank 0, with blocks of 16 bytes. -/
def WorkerConfig.twoLayers (kind : CacheKind) : WorkerConfig Nat where
  kind := kind
  tpRank := 0
  numLayers := 2
  requestHasher := fun b => b + 100
  blockStride := 16
  ropeBlockStride := 4
  kBasePtrs := fun i => 0x1000 + 0x100 * UInt64.ofNat i
  vBasePtrs := fun i => 0x2000 + 0x100 * UInt64.ofNat i

inductive Mode where
  | direct
  | layerWise

def Mode.step [DecidableEq ReqId] (config : WorkerConfig BlockId) (raises : Raises ReqId) (w : Worker BlockId ReqId)
    (metadata : Dict ReqId (RequestDispatchMeta BlockId)) : Mode → Worker BlockId ReqId
  | .direct => UCMDirectConnector.step config raises w metadata
  | .layerWise => UCMLayerWiseConnector.step config raises w metadata

/-- A step, and the load errors taken after it. -/
def Mode.next [DecidableEq ReqId] (mode : Mode) (config : WorkerConfig BlockId) (w : Worker BlockId ReqId)
    (event : Dict ReqId (RequestDispatchMeta BlockId) × Raises ReqId) : Option (Worker BlockId ReqId) :=
  some (mode.step config event.2 w event.1).getBlockIdsWithLoadErrors.2

end UnifiedCache.Connector
