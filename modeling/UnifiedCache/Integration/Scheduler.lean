import UnifiedCache.Lib.Collections

/-! The scheduler as it is patched for sparse attention. What is not patched is a parameter: the queue of the waiting
requests, the manager of the KV cache, the encoder cache and the sparse method. -/

namespace UnifiedCache.Integration

/-- The block ids of a request, for each group of the KV cache. -/
abbrev Blocks (Group : Type) := Group → List Nat

def INVALID_SLOT : Int := -1

inductive RequestStatus where
  | waiting
  | waitingForFsm
  | waitingForRemoteKvs
  | running
  | preempted
  | finished
  deriving DecidableEq

structure Request (ReqId : Type) where
  requestId : ReqId
  status : RequestStatus
  numTokens : Int
  specTokenIds : List Nat
  numComputedTokens : Int
  numCachedTokens : Int
  priority : Int
  arrivalTime : Nat
  loraIntId : Option Int
  hasEncoderInputs : Bool
  useStructuredOutput : Bool

def Request.numTokensWithSpec {ReqId : Type} (request : Request ReqId) : Int :=
  request.numTokens + request.specTokenIds.length

def Request.withSpec {ReqId : Type} (request : Request ReqId) (specTokenIds : List Nat) : Request ReqId :=
  { request with specTokenIds := specTokenIds }

inductive SchedulingPolicy where
  | fcfs
  | priority
  deriving DecidableEq

structure SchedulerConfig where
  policy : SchedulingPolicy
  maxNumScheduledTokens : Int
  maxNumRunningReqs : Nat
  maxNumEncoderInputTokens : Int
  maxModelLen : Int
  longPrefillTokenThreshold : Int
  chunkedPrefillEnabled : Bool
  numLookaheadTokens : Int
  maxLoras : Option Nat
  hasConnector : Bool
  ucmSparse : Bool

/-- What a scheduling pass fails with: one of its assertions, or what it calls or reads raises. -/
inductive Failure where
  | emptyRunning
  | zeroNewTokens
  | maxLoras
  | numNewTokens
  | invalidStatus
  | totalTokens
  | tokenBudget
  | runningReqs
  | scheduledReqs
  | missingBlocks
  deriving DecidableEq

structure NewRequestData (ReqId Group : Type) where
  reqId : ReqId
  blockIds : Blocks Group
  numComputedTokens : Int

structure CachedRequestData (ReqId Group : Type) where
  reqId : ReqId
  resumedFromPreemption : Bool
  newBlockIds : Blocks Group
  numComputedTokens : Int

structure SchedulerOutput (ReqId Group : Type) where
  scheduledNewReqs : List (NewRequestData ReqId Group)
  scheduledCachedReqs : List (CachedRequestData ReqId Group)
  numScheduledTokens : Dict ReqId Int
  totalNumScheduledTokens : Int
  scheduledSpecDecodeTokens : Dict ReqId (List Nat)
  scheduledEncoderInputs : Dict ReqId (List Nat)
  structuredOutputRequestIds : Dict ReqId Nat
  reqSparsedSlots : Dict ReqId Int
  finishedReqIds : List ReqId

/-- What the scheduler calls. `Kv` is the state of all of it but the queue. -/
structure Vllm (ReqId Group Queue Kv : Type) where
  createRequestQueue : Queue
  addRequest : Queue → Request ReqId → Queue
  prependRequest : Queue → Request ReqId → Queue
  prependRequests : Queue → Queue → Queue
  popRequest : Queue → Option (ReqId × Queue)
  removeRequest : Queue → ReqId → Queue
  queueLength : Queue → Nat
  estimateNumSlotsSparsed : Kv → Request ReqId → Int × Kv
  sparseAllocateSlots : Kv → Request ReqId → Int → Option (Blocks Group) × Kv
  originalAllocateSlots : Kv → Request ReqId → Int → Int → Blocks Group → Int → Int → Option (Blocks Group) × Kv
  free : Kv → Request ReqId → Kv
  getComputedBlocks : Kv → Request ReqId → Blocks Group × Int
  getBlockIds : Kv → ReqId → Blocks Group
  tryScheduleEncoderInputs : Kv → Request ReqId → Int → Int → Int → List Nat × Int × Int
  allocateEncoderInput : Kv → Request ReqId → Nat → Kv
  updateWaitingForRemoteKv : Kv → Request ReqId → Bool × Kv
  hasGrammar : Kv → ReqId → Bool
  updateStateAfterAlloc : Kv → Request ReqId → Blocks Group → Int → Kv
  requestBegin : Kv → Request ReqId → Kv
  requestFinishedInScheduler : Kv → ReqId → Kv
  makeCachedRequestData : List (Request ReqId) → List (Request ReqId) → (ReqId → Option (Blocks Group)) →
    List (CachedRequestData ReqId Group)
  updateAfterSchedule : (ReqId → Request ReqId) → Dict ReqId Int → ReqId → Request ReqId

structure Scheduler (ReqId Queue Kv : Type) where
  requests : ReqId → Request ReqId
  waiting : Queue
  running : List ReqId
  finishedReqIds : List ReqId
  kv : Kv

/-- The scheduler within a pass, with the variables of the pass. -/
structure Pass (ReqId Group Queue Kv : Type) extends Scheduler ReqId Queue Kv where
  tokenBudget : Int
  encoderBudget : Int
  reqIndex : Nat
  scheduledNewReqs : List ReqId
  scheduledResumedReqs : List ReqId
  scheduledRunningReqs : List ReqId
  preemptedReqs : List ReqId
  structuredOutputRequestIds : Dict ReqId Nat
  reqToNewBlockIds : Dict ReqId (Blocks Group)
  numScheduledTokens : Dict ReqId Int
  reqSparsedSlots : Dict ReqId Int
  scheduledEncoderInputs : Dict ReqId (List Nat)
  scheduledSpecDecodeTokens : Dict ReqId (List Nat)
  scheduledLoras : Finset Int
  skippedWaitingRequests : Queue

section Definitions

variable {ReqId Group Queue Kv : Type} [DecidableEq ReqId] (vllm : Vllm ReqId Group Queue Kv)
  (config : SchedulerConfig)

namespace Vllm

/-- `patched_allocate_slots`. -/
def allocateSlots (kv : Kv) (request : Request ReqId) (numNewTokens numNewComputedTokens : Int)
    (newComputedBlocks : Blocks Group) (numDraftTokens numLookaheadTokens numSlotsSparsed : Int) :
    Except Failure (Option (Blocks Group) × Kv) :=
  if numNewTokens = 0 then .error .zeroNewTokens
  else if numSlotsSparsed ≠ INVALID_SLOT then .ok (vllm.sparseAllocateSlots kv request numSlotsSparsed)
  else .ok (vllm.originalAllocateSlots kv request numNewTokens numNewComputedTokens newComputedBlocks numDraftTokens
    numLookaheadTokens)

end Vllm

def limitTokens (numNewTokens : Int) : Int :=
  if 0 < config.longPrefillTokenThreshold ∧ config.longPrefillTokenThreshold < numNewTokens
  then config.longPrefillTokenThreshold else numNewTokens

def emptyBlocks : Blocks Group := fun _ => []

/-- The request that comes last by priority and arrival, the first one among equals. -/
def lowestPriority (requests : ReqId → Request ReqId) : List ReqId → Option ReqId
  | [] => none
  | r :: rs => some (rs.foldl (fun best r =>
      if (requests best).priority < (requests r).priority ∨
        (requests best).priority = (requests r).priority ∧ (requests best).arrivalTime < (requests r).arrivalTime
      then r else best) r)

/-- The request that gives way, and who runs without it. -/
def victim (requests : ReqId → Request ReqId) (running : List ReqId) : Option (ReqId × List ReqId) :=
  match config.policy with
  | .priority => (lowestPriority requests running).map fun r => (r, running.erase r)
  | .fcfs => running.getLast?.map fun r => (r, running.dropLast)

namespace Pass

variable (t : Pass ReqId Group Queue Kv)

def setRequest (r : ReqId) (request : Request ReqId) : Pass ReqId Group Queue Kv :=
  { t with requests := Function.update t.requests r request }

def preempted (r : ReqId) : Request ReqId :=
  { t.requests r with status := .preempted, numComputedTokens := 0 }

/-- A request that gives way. -/
def preempt (r : ReqId) (running : List ReqId) : Pass ReqId Group Queue Kv :=
  { t.setRequest r (t.preempted r) with
    running := running
    kv := vllm.free t.kv (t.requests r)
    waiting := vllm.prependRequest t.waiting (t.preempted r)
    preemptedReqs := t.preemptedReqs ++ [r] }

/-- The inner loop: others give way until there are blocks for the request, or it gives way itself. -/
def allocateOrPreempt (r : ReqId) (numNewTokens numDraftTokens numSlotsSparsed : Int) :
    Nat → Pass ReqId Group Queue Kv → Except Failure (Option (Blocks Group) × Pass ReqId Group Queue Kv)
  | 0, _ => .error .emptyRunning
  | n + 1, t =>
    match vllm.allocateSlots t.kv (t.requests r) numNewTokens 0 emptyBlocks numDraftTokens config.numLookaheadTokens
      numSlotsSparsed with
    | .error e => .error e
    | .ok (some blocks, kv) => .ok (some blocks, { t with kv := kv })
    | .ok (none, kv) =>
      match victim config t.requests t.running with
      | none => .error .emptyRunning
      | some (v, running) =>
        if v = r then .ok (none, preempt vllm { t with kv := kv } v running)
        else allocateOrPreempt r numNewTokens numDraftTokens numSlotsSparsed n
          (preempt vllm { t with kv := kv } v running)

def estimate (r : ReqId) : Int × Pass ReqId Group Queue Kv :=
  let result := if config.ucmSparse then vllm.estimateNumSlotsSparsed t.kv (t.requests r) else (INVALID_SLOT, t.kv)
  (result.1, { t with kv := result.2, reqSparsedSlots := t.reqSparsedSlots.set r result.1 })

/-- The tokens that a running request may get. -/
def runningTokens (request : Request ReqId) : Int :=
  min (min (limitTokens config (request.numTokensWithSpec - request.numComputedTokens)) t.tokenBudget)
    (config.maxModelLen - 1 - request.numComputedTokens)

/-- The encoder inputs to schedule, the tokens that are left with them, and the budget. -/
def encoderInputs (request : Request ReqId) (numComputedTokens numNewTokens : Int) : Option (List Nat) × Int × Int :=
  if request.hasEncoderInputs then
    let result := vllm.tryScheduleEncoderInputs t.kv request numComputedTokens numNewTokens t.encoderBudget
    (some result.1, result.2)
  else (none, numNewTokens, t.encoderBudget)

def scheduleEncoder (r : ReqId) (inputs : Option (List Nat)) (newEncoderBudget : Int) : Pass ReqId Group Queue Kv :=
  match inputs with
  | none | some [] => t
  | some (i :: is) =>
    { t with
      scheduledEncoderInputs := t.scheduledEncoderInputs.set r (i :: is)
      kv := (i :: is).foldl (fun kv i => vllm.allocateEncoderInput kv (t.requests r) i) t.kv
      encoderBudget := newEncoderBudget }

/-- The draft tokens beyond those that are scheduled are dropped. -/
def scheduleSpec (r : ReqId) (numNewTokens : Int) : Pass ReqId Group Queue Kv :=
  let request := t.requests r
  let numScheduledSpecTokens := numNewTokens + request.numComputedTokens - request.numTokens
  if request.specTokenIds ≠ [] ∧ 0 < numScheduledSpecTokens then
    let specTokenIds := request.specTokenIds.take numScheduledSpecTokens.toNat
    { t.setRequest r (request.withSpec specTokenIds) with
      scheduledSpecDecodeTokens := t.scheduledSpecDecodeTokens.set r specTokenIds }
  else t

/-- A request gets its tokens, in either loop. -/
def grant (r : ReqId) (blocks : Blocks Group) (numNewTokens : Int) : Pass ReqId Group Queue Kv :=
  { t with
    structuredOutputRequestIds :=
      if (t.requests r).useStructuredOutput then t.structuredOutputRequestIds.set r t.reqIndex
      else t.structuredOutputRequestIds
    reqToNewBlockIds := t.reqToNewBlockIds.set r blocks
    numScheduledTokens := t.numScheduledTokens.set r numNewTokens
    tokenBudget := t.tokenBudget - numNewTokens
    reqIndex := t.reqIndex + 1 }

def scheduleRunning (r : ReqId) (blocks : Blocks Group) (numNewTokens : Int) : Pass ReqId Group Queue Kv :=
  ({ t with scheduledRunningReqs := t.scheduledRunningReqs ++ [r] }.grant r blocks numNewTokens).scheduleSpec r
    numNewTokens

/-- A running request gets the tokens that are left for it, if there are any and the blocks for them. -/
def runFor (r : ReqId) (numSlotsSparsed : Int) :
    Option (List Nat) × Int × Int → Except Failure (Bool × Pass ReqId Group Queue Kv)
  | (inputs, numNewTokens, newEncoderBudget) =>
    if numNewTokens = 0 then .ok (true, { t with reqIndex := t.reqIndex + 1 })
    else
      let request := t.requests r
      let numDraftTokens := max (numNewTokens + request.numComputedTokens - request.numTokens) 0
      match allocateOrPreempt vllm config r numNewTokens numDraftTokens numSlotsSparsed (t.running.length + 1) t with
      | .error e => .error e
      | .ok (none, t) => .ok (false, t)
      | .ok (some blocks, t) =>
        .ok (true, (t.scheduleRunning r blocks numNewTokens).scheduleEncoder vllm r inputs newEncoderBudget)

/-- One turn of the loop over the running requests. The flag says whether the loop goes on. -/
def runningTurn (r : ReqId) : Except Failure (Bool × Pass ReqId Group Queue Kv) :=
  let (numSlotsSparsed, t) := t.estimate vllm config r
  let request := t.requests r
  t.runFor vllm config r numSlotsSparsed
    (t.encoderInputs vllm request request.numComputedTokens (t.runningTokens config request))

/-- The loop over the running requests, with at most `n` turns. -/
def runningLoop : Nat → Pass ReqId Group Queue Kv → Except Failure (Pass ReqId Group Queue Kv)
  | 0, t => .ok t
  | n + 1, t =>
    match t.running[t.reqIndex]? with
    | none => .ok t
    | some r =>
      if 0 < t.tokenBudget then
        match t.runningTurn vllm config r with
        | .error e => .error e
        | .ok (true, t) => runningLoop n t
        | .ok (false, t) => .ok t
      else .ok t

/-- The LoRAs of the requests that are scheduled. -/
def loras : Finset Int :=
  (t.scheduledRunningReqs.filterMap fun r => (t.requests r).loraIntId.filter (0 < ·)).toFinset

/-- A request of the waiting queue is put aside. -/
def skip (r : ReqId) (waiting : Queue) : Pass ReqId Group Queue Kv :=
  { t with
    waiting := waiting
    skippedWaitingRequests := vllm.prependRequest t.skippedWaitingRequests (t.requests r) }

/-- Whether the request at the head of the waiting queue has what it waits for. -/
def becomesReady (r : ReqId) : Bool × Pass ReqId Group Queue Kv :=
  let request := t.requests r
  match request.status with
  | .waitingForRemoteKvs =>
    let (ready, kv) := vllm.updateWaitingForRemoteKv t.kv request
    (ready, if ready then { t.setRequest r { request with status := .waiting } with kv := kv } else { t with kv := kv })
  | .waitingForFsm =>
    if vllm.hasGrammar t.kv r then (true, t.setRequest r { request with status := .waiting }) else (false, t)
  | _ => (true, t)

def exceedsLoras (request : Request ReqId) : Bool :=
  match config.maxLoras, request.loraIntId with
  | some maxLoras, some lora => t.scheduledLoras.card = maxLoras ∧ lora ∉ t.scheduledLoras
  | _, _ => false

/-- A waiting request starts to run. -/
def startRunning (r : ReqId) (waiting : Queue) (numComputedTokens numNewTokens : Int) : Pass ReqId Group Queue Kv :=
  let request := t.requests r
  let scheduledLoras :=
    match config.maxLoras, request.loraIntId with
    | some _, some lora => insert lora t.scheduledLoras
    | _, _ => t.scheduledLoras
  ({ t with waiting := waiting, running := t.running ++ [r], scheduledLoras := scheduledLoras }.grant r
    (vllm.getBlockIds t.kv r) numNewTokens).setRequest r
      { request with
        status := .running
        numComputedTokens := numComputedTokens
        numCachedTokens := if request.numCachedTokens < 0 then numComputedTokens else request.numCachedTokens }

def scheduleWaiting (r : ReqId) (waiting : Queue) (numComputedTokens numNewTokens : Int) :
    Except Failure (Pass ReqId Group Queue Kv) :=
  match (t.requests r).status with
  | .waiting =>
    .ok ({ t with scheduledNewReqs := t.scheduledNewReqs ++ [r] }.startRunning vllm config r waiting numComputedTokens
      numNewTokens)
  | .preempted =>
    .ok ({ t with scheduledResumedReqs := t.scheduledResumedReqs ++ [r] }.startRunning vllm config r waiting
      numComputedTokens numNewTokens)
  | _ => .error .invalidStatus

/-- The blocks of a waiting request that are in the cache, with their tokens. -/
def computedBlocks (request : Request ReqId) : Blocks Group × Int :=
  if request.numComputedTokens = 0 then vllm.getComputedBlocks t.kv request else (emptyBlocks, 0)

/-- A waiting request starts to run, if there are blocks for it. -/
def admitWith (r : ReqId) (waiting : Queue) (newComputedBlocks : Blocks Group) (numComputedTokens numNewTokens : Int)
    (inputs : Option (List Nat)) (newEncoderBudget : Int) :
    Except Failure (Option (Blocks Group) × Kv) → Except Failure (Bool × Pass ReqId Group Queue Kv)
  | .error e => .error e
  | .ok (none, kv) => .ok (false, { t with kv := kv })
  | .ok (some blocks, kv) =>
    let kv := if config.hasConnector
      then vllm.updateStateAfterAlloc kv (t.requests r) (fun g => newComputedBlocks g ++ blocks g) 0 else kv
    match { t with kv := kv }.scheduleWaiting vllm config r waiting numComputedTokens numNewTokens with
    | .error e => .error e
    | .ok t => .ok (true, t.scheduleEncoder vllm r inputs newEncoderBudget)

/-- If there are tokens left for it, the request asks for its blocks. -/
def admitFor (r : ReqId) (waiting : Queue) (numSlotsSparsed numComputedTokens : Int) :
    Option (List Nat) × Int × Int → Except Failure (Bool × Pass ReqId Group Queue Kv)
  | (inputs, numNewTokens, newEncoderBudget) =>
    if numNewTokens = 0 then .ok (false, t)
    else
      let request := t.requests r
      let (newComputedBlocks, numNewLocalComputedTokens) := t.computedBlocks vllm request
      t.admitWith vllm config r waiting newComputedBlocks numComputedTokens numNewTokens inputs newEncoderBudget
        (vllm.allocateSlots t.kv request numNewTokens numNewLocalComputedTokens newComputedBlocks 0
          config.numLookaheadTokens numSlotsSparsed)

/-- The connector is not asked for tokens, so nothing is loaded asynchronously. -/
def admitHead (r : ReqId) (waiting : Queue) (numSlotsSparsed : Int) : Except Failure (Bool × Pass ReqId Group Queue Kv) :=
  let request := t.requests r
  let numComputedTokens :=
    if request.numComputedTokens = 0 then (t.computedBlocks vllm request).2 else request.numComputedTokens
  let numNewTokens := limitTokens config (request.numTokens - numComputedTokens)
  if !config.chunkedPrefillEnabled && t.tokenBudget < numNewTokens then .ok (true, t.skip vllm r waiting)
  else if min numNewTokens t.tokenBudget ≤ 0 then .error .numNewTokens
  else t.admitFor vllm config r waiting numSlotsSparsed numComputedTokens
    (t.encoderInputs vllm request numComputedTokens (min numNewTokens t.tokenBudget))

/-- One turn of the loop over the waiting requests. The flag says whether the loop goes on. -/
def waitingTurn (r : ReqId) (waiting : Queue) : Except Failure (Bool × Pass ReqId Group Queue Kv) :=
  let (numSlotsSparsed, t) := t.estimate vllm config r
  let (ready, t) := t.becomesReady vllm r
  if !ready || t.exceedsLoras config (t.requests r) then .ok (true, t.skip vllm r waiting)
  else t.admitHead vllm config r waiting numSlotsSparsed

/-- The loop over the waiting requests, with at most `n` turns. -/
def waitingLoop : Nat → Pass ReqId Group Queue Kv → Except Failure (Pass ReqId Group Queue Kv)
  | 0, t => .ok t
  | n + 1, t =>
    match vllm.popRequest t.waiting with
    | none => .ok t
    | some (r, waiting) =>
      if 0 < t.tokenBudget then
        if t.running.length = config.maxNumRunningReqs then .ok t
        else
          match t.waitingTurn vllm config r waiting with
          | .error e => .error e
          | .ok (true, t) => waitingLoop n t
          | .ok (false, t) => .ok t
      else .ok t

/-- The requests that were put aside come back to the head of the queue. -/
def putBack : Pass ReqId Group Queue Kv :=
  if vllm.queueLength t.skippedWaitingRequests = 0 then t
  else { t with waiting := vllm.prependRequests t.waiting t.skippedWaitingRequests }

/-- The assertions at the end. -/
def check : Except Failure Unit :=
  let total := (t.numScheduledTokens.items.map Prod.snd).sum
  if config.maxNumScheduledTokens < total then .error .totalTokens
  else if t.tokenBudget < 0 then .error .tokenBudget
  else if config.maxNumRunningReqs < t.running.length then .error .runningReqs
  else if t.running.length <
    t.scheduledNewReqs.length + t.scheduledResumedReqs.length + t.scheduledRunningReqs.length
  then .error .scheduledReqs
  else .ok ()

/-- What the worker is told of the requests that run for the first time. -/
def newReqsData : Option (List (NewRequestData ReqId Group)) :=
  t.scheduledNewReqs.mapM fun r => (t.reqToNewBlockIds.get? r).map fun blockIds =>
    ⟨r, blockIds, (t.requests r).numComputedTokens⟩

def output (newReqsData : List (NewRequestData ReqId Group)) : SchedulerOutput ReqId Group where
  scheduledNewReqs := newReqsData
  scheduledCachedReqs := vllm.makeCachedRequestData (t.scheduledRunningReqs.map t.requests)
    (t.scheduledResumedReqs.map t.requests) t.reqToNewBlockIds.get?
  numScheduledTokens := t.numScheduledTokens
  totalNumScheduledTokens := (t.numScheduledTokens.items.map Prod.snd).sum
  scheduledSpecDecodeTokens := t.scheduledSpecDecodeTokens
  scheduledEncoderInputs := t.scheduledEncoderInputs
  structuredOutputRequestIds := t.structuredOutputRequestIds
  reqSparsedSlots := t.reqSparsedSlots
  finishedReqIds := t.finishedReqIds

def afterSchedule : Scheduler ReqId Queue Kv :=
  { t.toScheduler with
    requests := vllm.updateAfterSchedule t.requests t.numScheduledTokens
    finishedReqIds := [] }

end Pass

namespace Scheduler

variable (s : Scheduler ReqId Queue Kv)

def start : Pass ReqId Group Queue Kv where
  toScheduler := s
  tokenBudget := config.maxNumScheduledTokens
  encoderBudget := config.maxNumEncoderInputTokens
  reqIndex := 0
  scheduledNewReqs := []
  scheduledResumedReqs := []
  scheduledRunningReqs := []
  preemptedReqs := []
  structuredOutputRequestIds := Dict.empty
  reqToNewBlockIds := Dict.empty
  numScheduledTokens := Dict.empty
  reqSparsedSlots := Dict.empty
  scheduledEncoderInputs := Dict.empty
  scheduledSpecDecodeTokens := Dict.empty
  scheduledLoras := ∅
  skippedWaitingRequests := vllm.createRequestQueue

/-- The passes over the running and the waiting requests. -/
def pass : Except Failure (Pass ReqId Group Queue Kv) :=
  (Pass.runningLoop vllm config s.running.length (s.start vllm config)).bind fun t =>
    let t := { t with scheduledLoras := if config.maxLoras.isSome then t.loras else ∅ }
    if config.maxLoras.any (· < t.scheduledLoras.card) then .error .maxLoras
    else
      (if t.preemptedReqs = [] then t.waitingLoop vllm config (vllm.queueLength t.waiting) else .ok t).bind fun t =>
        let t := t.putBack vllm
        (t.check config).map fun _ => t

/-- `patched_schedule`. -/
def schedule : Except Failure (SchedulerOutput ReqId Group × Scheduler ReqId Queue Kv) :=
  (s.pass vllm config).bind fun t =>
    match t.newReqsData with
    | none => .error .missingBlocks
    | some newReqsData => .ok (t.output vllm newReqsData, t.afterSchedule vllm)

/-- `patched_add_request`. -/
def addRequest (request : Request ReqId) : Scheduler ReqId Queue Kv :=
  { s with
    waiting := vllm.addRequest s.waiting request
    requests := Function.update s.requests request.requestId request
    kv := if config.ucmSparse then vllm.requestBegin s.kv request else s.kv }

/-- `patched_free_request`, for a request that has left its queue. -/
def freeRequest (r : ReqId) : Scheduler ReqId Queue Kv :=
  let kv := if config.ucmSparse then vllm.requestFinishedInScheduler s.kv r else s.kv
  { s with kv := vllm.free kv (s.requests r), finishedReqIds := s.finishedReqIds ++ [r] }

end Scheduler

end Definitions

end UnifiedCache.Integration
