import UnifiedCache.Sparse.EsaSchedule
import UnifiedCache.Sparse.KvstarLayout
import UnifiedCache.Sparse.KvstarQueries

/-! The decode steps of a request in a layer of KVStar: when retrievals are launched and consumed,
and when the blocks that they found are brought in. -/

namespace UnifiedCache.Sparse.KvstarMultiStep

open EsaSchedule (TensorType)

/-- What a layer asks of the retrieval threads and of the store, in the order in which it does.
`replaced` is what `blk_trans_tasks` had where it now has the new task. -/
inductive Action (Hash : Type*) where
  | launch (record : Record) (task : Nat)
  | consume (record : Record) (task : Nat)
  | store (record : Record) (task : Nat)
  | load (transfer : Nat) (tensor : TensorType) (pairs : List (Nat × Hash)) (replaced : Option Nat)
  | waitTransfer (transfer : Nat)
  | attention
deriving DecidableEq

/-- What a layer does not change in the decode steps, and what the code around it answers. -/
structure Layer (Hash : Type*) where
  cfg : KvstarConfig
  blockHashes : List Hash
  /-- The blocks that have a representation, or `None`. -/
  blkRepre : Option Nat
  /-- The data of a retrieval that succeeded. -/
  getTaskResult : Nat → Option (List Nat)
  blkTransTaskHash : List Hash → TensorType → Int

/-- What a step brings with it. -/
structure DecodeStep (Query : Type*) where
  vllmBlockIds : List Nat
  queryStartLoc : Nat
  queryLen : Nat
  query : List Query

structure ReqPerLayerState (Query Hash : Type*) where
  step : Nat
  standbyQueryGroup : Standby Query
  doRetrieveQueryGroup : Dict Record (List Query)
  stepGroupRetrieveResult : Dict Record (List Hash)
  taskWaiter : Dict Record Nat
  preSwapAreaBlockHashes : Dict Nat Hash
  blkTransTasks : Dict Int Nat
  /-- The numbers that the next retrieval and the next transfer get. -/
  nextRetrieval : Nat
  nextTransfer : Nat
  /-- What was done, each with its step. -/
  actions : List (Nat × Action Hash)

variable {Query Hash : Type*}

section Swap

variable [DecidableEq Hash]

/-- One turn of the loop over the candidates, with what is matched and what is left. -/
def matchBlock (preSwap : Dict Nat Hash) (m : Dict Nat Hash × List Nat × List Hash) (logicBlkId : Nat) :
    Dict Nat Hash × List Nat × List Hash :=
  match preSwap.get? logicBlkId with
  | none => m
  | some hash =>
    if hash ∈ m.2.2 then (m.1.set logicBlkId hash, m.2.1.erase logicBlkId, m.2.2.erase hash) else m

def setAll (d : Dict Nat Hash) (pairs : List (Nat × Hash)) : Dict Nat Hash :=
  pairs.foldl (fun d p => d.set p.1 p.2) d

/-- The new record of the swap area, with the candidates and the hashes that are not matched. -/
def swapIn (preSwap : Dict Nat Hash) (candidates : List Nat) (hashes : List Hash) :
    Dict Nat Hash × List Nat × List Hash :=
  if preSwap.items.length = 0 then (setAll Dict.empty (candidates.zip hashes), candidates, hashes)
  else
    let m := candidates.foldl (matchBlock preSwap) (Dict.empty, candidates, hashes)
    (setAll m.1 (m.2.1.zip m.2.2), m.2.1, m.2.2)

end Swap

/-- Which record `load_retrieve_result_async` needs. -/
def needRetrieveRecord (retrievalStride loadStep : Nat) : Record :=
  if loadStep ≤ retrievalStride * 2 then .prefill
  else
    let curGroupIdx : Int := cdiv loadStep retrievalStride
    .decode ((curGroupIdx - 3) * retrievalStride + 1)

namespace ReqPerLayerState

def init (standby : Standby Query) : ReqPerLayerState Query Hash :=
  ⟨0, standby, Dict.empty, Dict.empty, Dict.empty, Dict.empty, Dict.empty, 0, 0, []⟩

variable (layer : Layer Hash) (s : ReqPerLayerState Query Hash)

def act (action : Action Hash) : ReqPerLayerState Query Hash :=
  { s with actions := s.actions ++ [(s.step, action)] }

def loadTensor (blockHashes : List Hash) (vllmBlockIds : List Nat) (tensor : TensorType) :
    ReqPerLayerState Query Hash :=
  let taskHash := layer.blkTransTaskHash blockHashes tensor
  { s.act (.load s.nextTransfer tensor (vllmBlockIds.zip blockHashes) (s.blkTransTasks.get? taskHash)) with
    blkTransTasks := s.blkTransTasks.set taskHash s.nextTransfer
    nextTransfer := s.nextTransfer + 1 }

def launchTransferTask (blockHashes : List Hash) (vllmBlockIds : List Nat) : ReqPerLayerState Query Hash :=
  (s.loadTensor layer blockHashes vllmBlockIds .key).loadTensor layer blockHashes vllmBlockIds .value

def waitForBlkTransferTaskDone : ReqPerLayerState Query Hash :=
  { s with
    actions := s.actions ++ s.blkTransTasks.items.map fun p => (s.step, .waitTransfer p.2)
    blkTransTasks := Dict.empty }

def getRetrieveRecord (curStep : Nat) : Record :=
  if curStep = 1 then .prefill else .decode (curStep - layer.cfg.retrievalStride)

/-- `torch.stack` raises when there is no query. -/
def retrievalAsync (curStep topk : Nat) : Except (ReqPerLayerState Query Hash) (ReqPerLayerState Query Hash) :=
  let record := getRetrieveRecord layer curStep
  if topk = 0 then .ok { s with stepGroupRetrieveResult := s.stepGroupRetrieveResult.set record [] }
  else
    match s.standbyQueryGroup.get? record with
    | none => .error s
    | some group =>
      let queryGroup := group.filterMap id
      if queryGroup = [] then .error s
      else
        .ok { s.act (.launch record s.nextRetrieval) with
          doRetrieveQueryGroup := s.doRetrieveQueryGroup.set record queryGroup
          taskWaiter := s.taskWaiter.set record s.nextRetrieval
          nextRetrieval := s.nextRetrieval + 1 }

/-- `del d[k]`, which raises on a key that is not there. -/
def delItem {K V : Type*} [DecidableEq K] (d : Dict K V) (k : K) : Option (Dict K V) :=
  (d.get? k).map fun _ => d.pop k

/-- The wait for a task whose result is not stored yet. -/
def waitResult (needRetrieveRecord : Record) (task : Nat) :
    Except (ReqPerLayerState Query Hash) (ReqPerLayerState Query Hash × List Hash) :=
  let s := s.act (.consume needRetrieveRecord task)
  match delItem s.standbyQueryGroup needRetrieveRecord with
  | none => .error s
  | some standby =>
    let s := { s with standbyQueryGroup := standby }
    match delItem s.doRetrieveQueryGroup needRetrieveRecord with
    | none => .error s
    | some doRetrieve =>
      let s := { s with doRetrieveQueryGroup := doRetrieve }
      match (layer.getTaskResult task).bind fun topkIndices =>
          topkIndices.mapM fun i => layer.blockHashes[i + layer.cfg.initWindowSz]? with
      | none => .error s
      | some selectBlkHashes =>
        .ok ({ s.act (.store needRetrieveRecord task) with
          stepGroupRetrieveResult := s.stepGroupRetrieveResult.set needRetrieveRecord selectBlkHashes }, selectBlkHashes)

def retrieveResult (needRetrieveRecord : Record) :
    Except (ReqPerLayerState Query Hash) (ReqPerLayerState Query Hash × List Hash) :=
  match s.stepGroupRetrieveResult.get? needRetrieveRecord with
  | some hashes => .ok (s, hashes)
  | none =>
    match s.taskWaiter.get? needRetrieveRecord with
    | none => .error s
    | some task => s.waitResult layer needRetrieveRecord task

variable [DecidableEq Hash]

def swapBlocks (candidates : List Nat) (hashes : List Hash) : ReqPerLayerState Query Hash :=
  let swap := swapIn s.preSwapAreaBlockHashes candidates hashes
  let s := { s with preSwapAreaBlockHashes := swap.1 }
  if swap.2.2.length > 0 then s.launchTransferTask layer swap.2.2 swap.2.1 else s

def loadRetrieveResultAsync (loadStep : Nat) (candidates : List Nat) :
    Except (ReqPerLayerState Query Hash) (ReqPerLayerState Query Hash) :=
  let need := needRetrieveRecord layer.cfg.retrievalStride loadStep
  (s.retrieveResult layer need).map fun r =>
    if need ≠ .prefill ∨ loadStep = 1 then r.1.swapBlocks layer candidates r.2 else r.1

/-- `get_decode_step_record`. -/
def groupRecord : Record :=
  .decode (((s.step - 1) / layer.cfg.retrievalStride * layer.cfg.retrievalStride + 1 : Nat) : Int)

/-- What a step does about retrievals once its query is saved. -/
def beginRetrievals (candidates : List Nat) : Except (ReqPerLayerState Query Hash) (ReqPerLayerState Query Hash) :=
  (if s.step % layer.cfg.retrievalStride = 0 then s.retrievalAsync layer (s.step + 1) candidates.length
    else .ok s).bind fun s =>
  if s.step = 1 then
    (s.waitForBlkTransferTaskDone.retrievalAsync layer s.step candidates.length).bind fun s =>
      s.loadRetrieveResultAsync layer s.step candidates
  else .ok s

/-- `attention_begin` of a decode step up to its last wait. The windows are not part of this model. -/
def beginStep (step : DecodeStep Query) : Except (ReqPerLayerState Query Hash) (ReqPerLayerState Query Hash) :=
  match layer.blkRepre with
  | none => .ok s
  | some numRepre =>
    if step.queryLen ≠ 1 then .error s
    else
      match saveToStandby layer.cfg.retrievalStride s.standbyQueryGroup (s.groupRecord layer)
          (((s.step - 1) % layer.cfg.retrievalStride : Nat) : Int) step.queryStartLoc step.query with
      | none => .error s
      | some standby =>
        ({ s with standbyQueryGroup := standby }).beginRetrievals layer
          (layer.cfg.getRetrieveCandidateBlockIds numRepre step.vllmBlockIds)

/-- Whether `attention_begin` ends with a wait. -/
def WaitsAtBegin : Prop := layer.blkRepre ≠ none ∧ s.step % layer.cfg.retrievalStride = 1

instance : Decidable (WaitsAtBegin layer s) := inferInstanceAs (Decidable (_ ∧ _))

def attentionBegin (step : DecodeStep Query) : Except (ReqPerLayerState Query Hash) (ReqPerLayerState Query Hash) :=
  (s.beginStep layer step).map fun s => if WaitsAtBegin layer s then s.waitForBlkTransferTaskDone else s

/-- `attention_finished` of a decode step, which does not look whether there are representations. -/
def attentionFinished (step : DecodeStep Query) : Except (ReqPerLayerState Query Hash) (ReqPerLayerState Query Hash) :=
  if s.step ≥ layer.cfg.retrievalStride * 2 ∧ s.step % layer.cfg.retrievalStride = 0 then
    match layer.blkRepre with
    | none => .error s
    | some numRepre =>
      s.loadRetrieveResultAsync layer (s.step + 1)
        (layer.cfg.getRetrieveCandidateBlockIds numRepre step.vllmBlockIds)
  else .ok s

/-- The two hooks of the next decode step around the attention of the layer. -/
def runStep (step : DecodeStep Query) : Except (ReqPerLayerState Query Hash) (ReqPerLayerState Query Hash) :=
  (({ s with step := s.step + 1 }).attentionBegin layer step).bind fun s =>
    (s.act .attention).attentionFinished layer step

def run : List (DecodeStep Query) → ReqPerLayerState Query Hash →
    Except (ReqPerLayerState Query Hash) (ReqPerLayerState Query Hash)
  | [], s => .ok s
  | step :: steps, s => (s.runStep layer step).bind (run steps)

end ReqPerLayerState

/-- What was done up to the end of a run, or up to where it raised. -/
def done : Except (ReqPerLayerState Query Hash) (ReqPerLayerState Query Hash) → List (Nat × Action Hash)
  | .ok s => s.actions
  | .error s => s.actions

/-- The retrievals that were launched and not consumed, each with its step, and the transfers not waited for. -/
structure Pending where
  retrievals : List (Record × Nat × Nat)
  transfers : List Nat
deriving DecidableEq

/-- Retrievals are consumed in the order of their launches, the result of one is not stored while an
earlier one is pending, and attention starts when no transfer is pending. -/
def Pending.next (timely : Record → Nat → Nat → Bool) (pending : Pending) :
    Nat × Action Hash → Option Pending
  | (step, .launch record task) => some { pending with retrievals := pending.retrievals ++ [(record, task, step)] }
  | (step, .consume record task) =>
    match pending.retrievals with
    | [] => none
    | (first, firstTask, launched) :: rest =>
      if first = record ∧ firstTask = task ∧ timely record launched step then some { pending with retrievals := rest }
      else none
  | (_, .store _ task) => if ∀ r ∈ pending.retrievals, task < r.2.1 then some pending else none
  | (_, .load transfer _ _ replaced) =>
    if replaced = none then some { pending with transfers := pending.transfers ++ [transfer] } else none
  | (_, .waitTransfer transfer) =>
    if transfer ∈ pending.transfers then some { pending with transfers := pending.transfers.erase transfer } else none
  | (_, .attention) => if pending.transfers = [] then some pending else none

/-- The groups of steps between two retrievals, counted from zero. -/
def stepGroup (retrievalStride step : Nat) : Nat := (step - 1) / retrievalStride

def inEarlierGroup (retrievalStride : Nat) (_ : Record) (launched step : Nat) : Bool :=
  stepGroup retrievalStride launched < stepGroup retrievalStride step

/-- The first step launches the retrieval for the prompt and waits for it. -/
def inEarlierGroupOrFirst (retrievalStride : Nat) (record : Record) (launched step : Nat) : Bool :=
  inEarlierGroup retrievalStride record launched step || (record = .prefill && launched = 1 && step = 1)

def after (timely : Record → Nat → Nat → Bool) (actions : List (Nat × Action Hash)) : Option Pending :=
  actions.foldlM (Pending.next timely) ⟨[], []⟩

def Protocol (timely : Record → Nat → Nat → Bool) (actions : List (Nat × Action Hash)) : Prop :=
  (after timely actions).isSome

variable {timely : Record → Nat → Nat → Bool}

theorem after_append {actions more : List (Nat × Action Hash)} :
    after timely (actions ++ more) = (after timely actions).bind fun p => more.foldlM (Pending.next timely) p :=
  List.foldlM_append ..

theorem after_snoc {actions : List (Nat × Action Hash)} {p : Pending} (action : Nat × Action Hash)
    (h : after timely actions = some p) : after timely (actions ++ [action]) = p.next timely action := by
  rw [after_append, h, Option.bind_some, List.foldlM_cons]
  cases p.next timely action <;> rfl

theorem foldlM_waitTransfer (step : Nat) (retrievals : List (Record × Nat × Nat)) (transfers : List Nat) :
    (transfers.map fun t => (step, (.waitTransfer t : Action Hash))).foldlM (Pending.next timely)
      ⟨retrievals, transfers⟩ = some ⟨retrievals, []⟩ := by
  induction transfers with
  | nil => rfl
  | cons transfer transfers ih =>
    rw [List.map_cons, List.foldlM_cons]
    simpa [Pending.next] using ih

/-- A call keeps to the protocol, also where it raises, and ends in a state as wanted. -/
def Meets (timely : Record → Nat → Nat → Bool) {α : Type*} (r : Except (ReqPerLayerState Query Hash) α) (Q : α → Prop) :
    Prop :=
  match r with
  | .error s => Protocol timely s.actions
  | .ok a => Q a

section Meets

variable {α β : Type*} {r : Except (ReqPerLayerState Query Hash) α} {Q : α → Prop} {R : β → Prop}

theorem Meets.bind {f : α → Except (ReqPerLayerState Query Hash) β} (h : Meets timely r Q)
    (hf : ∀ a, Q a → Meets timely (f a) R) : Meets timely (r.bind f) R := by
  cases r with
  | error s => exact h
  | ok a => exact hf a h

theorem Meets.map {f : α → β} (h : Meets timely r Q) (hf : ∀ a, Q a → R (f a)) : Meets timely (r.map f) R := by
  cases r with
  | error s => exact h
  | ok a => exact hf a h

theorem Meets.mono {Q' : α → Prop} (h : Meets timely r Q) (hQ : ∀ a, Q a → Q' a) : Meets timely r Q' := by
  cases r with
  | error s => exact h
  | ok a => exact hQ a h

end Meets

namespace ReqPerLayerState

variable {layer : Layer Hash} {s t : ReqPerLayerState Query Hash} {record : Record} {launched : Nat}
  {P A B : List (Record × Nat × Nat)}

/-- What is pending: these retrievals, and the transfers that the state keeps. -/
def Waits (timely : Record → Nat → Nat → Bool) (s : ReqPerLayerState Query Hash) (P : List (Record × Nat × Nat)) : Prop :=
  after timely s.actions = some ⟨P, s.blkTransTasks.items.map Prod.snd⟩

theorem Waits.protocol (h : s.Waits timely P) : Protocol timely s.actions := by
  rw [Protocol, h]
  rfl

/-- A record of the step group: its retrieval is pending, or it has nothing to choose from. -/
def Slot (s : ReqPerLayerState Query Hash) (record : Record) (launched : Nat) (P : List (Record × Nat × Nat)) : Prop :=
  (∃ task, task < s.nextRetrieval ∧ P = [(record, task, launched)] ∧ s.taskWaiter.get? record = some task ∧
    s.stepGroupRetrieveResult.get? record = none) ∨
  P = [] ∧ s.stepGroupRetrieveResult.get? record = some []

/-- Another state that has the same about all records but one. -/
structure SameBut (record : Record) (s t : ReqPerLayerState Query Hash) : Prop where
  step : t.step = s.step
  result {r : Record} (h : r ≠ record) : t.stepGroupRetrieveResult.get? r = s.stepGroupRetrieveResult.get? r
  waiter {r : Record} (h : r ≠ record) : t.taskWaiter.get? r = s.taskWaiter.get? r
  retrieval_le : s.nextRetrieval ≤ t.nextRetrieval

theorem Slot.of_sameBut {other : Record} (h : s.Slot record launched P) (hsame : SameBut other s t)
    (hne : record ≠ other) : t.Slot record launched P := by
  rcases h with ⟨task, hlt, hP, hwaiter, hresult⟩ | ⟨hP, hresult⟩
  · exact .inl ⟨task, hlt.trans_le hsame.retrieval_le, hP, (hsame.waiter hne).trans hwaiter,
      (hsame.result hne).trans hresult⟩
  · exact .inr ⟨hP, (hsame.result hne).trans hresult⟩

theorem Waits.waitForBlkTransferTaskDone (h : s.Waits timely P) : s.waitForBlkTransferTaskDone.Waits timely P := by
  have hmap : (s.blkTransTasks.items.map fun p => (s.step, (.waitTransfer p.2 : Action Hash))) =
      (s.blkTransTasks.items.map Prod.snd).map fun t => (s.step, .waitTransfer t) := by
    rw [List.map_map]
    rfl
  have hafter : after timely (s.actions ++ s.blkTransTasks.items.map fun p => (s.step, .waitTransfer p.2)) =
      some ⟨P, []⟩ := by
    rw [after_append, h, Option.bind_some, hmap]
    exact foldlM_waitTransfer s.step P _
  exact hafter

theorem Waits.attention (h : s.Waits timely P) (htasks : s.blkTransTasks.items = []) :
    (s.act .attention).Waits timely P := by
  rw [Waits, htasks] at h
  have hafter := after_snoc (s.step, .attention) h
  rw [Waits]
  simp only [act]
  rw [hafter, htasks]
  rfl

theorem SameBut.trans {u : ReqPerLayerState Query Hash} (h : SameBut record s t) (h' : SameBut record t u) :
    SameBut record s u where
  step := h'.step.trans h.step
  result hr := (h'.result hr).trans (h.result hr)
  waiter hr := (h'.waiter hr).trans (h.waiter hr)
  retrieval_le := h.retrieval_le.trans h'.retrieval_le

theorem Waits.loadTensor {hashes : List Hash} {ids : List Nat} {tensor : TensorType} (h : s.Waits timely P)
    (hfresh : layer.blkTransTaskHash hashes tensor ∉ s.blkTransTasks.items.map Prod.fst) :
    (s.loadTensor layer hashes ids tensor).Waits timely P ∧
    (s.loadTensor layer hashes ids tensor).blkTransTasks.items =
      s.blkTransTasks.items ++ [(layer.blkTransTaskHash hashes tensor, s.nextTransfer)] := by
  have hitems : (s.loadTensor layer hashes ids tensor).blkTransTasks.items =
      s.blkTransTasks.items ++ [(layer.blkTransTaskHash hashes tensor, s.nextTransfer)] :=
    Dict.items_set_of_notMem hfresh
  have hafter := after_snoc (s.step, .load s.nextTransfer tensor (ids.zip hashes)
    (s.blkTransTasks.get? (layer.blkTransTaskHash hashes tensor))) h
  refine ⟨?_, hitems⟩
  rw [Waits, hitems]
  simp only [ReqPerLayerState.loadTensor, act]
  rw [hafter, Dict.get?_of_notMem hfresh]
  simp [Pending.next]

/-- A load by a state that keeps no transfers. -/
theorem Waits.launchTransferTask {hashes : List Hash} {ids : List Nat} (h : s.Waits timely P)
    (htasks : s.blkTransTasks.items = [])
    (hkeys : layer.blkTransTaskHash hashes .key ≠ layer.blkTransTaskHash hashes .value) :
    (s.launchTransferTask layer hashes ids).Waits timely P := by
  have hempty : layer.blkTransTaskHash hashes .key ∉ s.blkTransTasks.items.map Prod.fst := by
    rw [htasks]
    exact List.not_mem_nil
  obtain ⟨hkey, hitems⟩ : (s.loadTensor layer hashes ids .key).Waits timely P ∧ _ := h.loadTensor hempty
  refine (hkey.loadTensor ?_).1
  rw [hitems, htasks]
  simpa using hkeys.symm

theorem Waits.retrievalAsync {curStep topk : Nat} (h : s.Waits timely P)
    (hnone : s.stepGroupRetrieveResult.get? (getRetrieveRecord layer curStep) = none) :
    Meets timely (s.retrievalAsync layer curStep topk) fun t =>
      (∃ A, t.Slot (getRetrieveRecord layer curStep) s.step A ∧ t.Waits timely (P ++ A) ∧
        ∀ q ∈ A, q.2.1 = s.nextRetrieval) ∧
      SameBut (getRetrieveRecord layer curStep) s t ∧ t.blkTransTasks = s.blkTransTasks := by
  rw [ReqPerLayerState.retrievalAsync]
  dsimp only
  split_ifs with htopk
  · refine ⟨⟨[], .inr ⟨rfl, by simp [Dict.get?_set]⟩, by simpa [Waits] using h, by simp⟩, ?_, rfl⟩
    exact ⟨rfl, fun hr => by simp [Dict.get?_set, hr], fun _ => rfl, le_rfl⟩
  · cases hgroup : s.standbyQueryGroup.get? (getRetrieveRecord layer curStep) with
    | none => exact h.protocol
    | some group =>
      dsimp only
      split_ifs with hempty
      · exact h.protocol
      · refine ⟨⟨_, .inl ⟨s.nextRetrieval, Nat.lt_succ_self _, rfl, by simp [Dict.get?_set], hnone⟩, ?_, by simp⟩,
          ⟨rfl, fun _ => rfl, fun hr => by simp [Dict.get?_set, hr], Nat.le_succ _⟩, rfl⟩
        exact after_snoc (s.step, .launch (getRetrieveRecord layer curStep) s.nextRetrieval) h

theorem Waits.waitResult {task : Nat} (h : s.Waits timely ((record, task, launched) :: B))
    (htimely : timely record launched s.step = true) (horder : ∀ q ∈ B, task < q.2.1) :
    Meets timely (s.waitResult layer record task) fun r =>
      r.1.Waits timely B ∧ SameBut record s r.1 ∧ r.1.blkTransTasks = s.blkTransTasks := by
  have hconsume : (s.act (.consume record task)).Waits timely B := by
    have hafter := after_snoc (s.step, .consume record task) h
    rw [Waits]
    simp only [act]
    rw [hafter]
    simp [Pending.next, htimely]
  have hprotocol := hconsume.protocol
  rw [ReqPerLayerState.waitResult]
  dsimp only
  cases hstandby : delItem (s.act (.consume record task)).standbyQueryGroup record with
  | none => exact hprotocol
  | some standby =>
    dsimp only
    cases hdo : delItem (s.act (.consume record task)).doRetrieveQueryGroup record with
    | none => exact hprotocol
    | some doRetrieve =>
      dsimp only
      cases hdata : (layer.getTaskResult task).bind fun topkIndices =>
          topkIndices.mapM fun i => layer.blockHashes[i + layer.cfg.initWindowSz]? with
      | none => exact hprotocol
      | some hashes =>
        refine ⟨?_, ⟨rfl, fun hr => by simp [act, Dict.get?_set, hr], fun _ => rfl, le_rfl⟩, rfl⟩
        have hafter := after_snoc (s.step, .store record task) hconsume
        rw [Pending.next, if_pos horder] at hafter
        exact hafter

theorem Waits.retrieveResult (h : s.Waits timely (A ++ B)) (hslot : s.Slot record launched A)
    (htimely : timely record launched s.step = true) (horder : ∀ a ∈ A, ∀ b ∈ B, a.2.1 < b.2.1) :
    Meets timely (s.retrieveResult layer record) fun r =>
      r.1.Waits timely B ∧ SameBut record s r.1 ∧ r.1.blkTransTasks = s.blkTransTasks := by
  rw [ReqPerLayerState.retrieveResult]
  rcases hslot with ⟨task, -, rfl, hwaiter, hresult⟩ | ⟨rfl, hresult⟩
  · rw [hresult, hwaiter]
    exact h.waitResult htimely (horder _ (List.mem_singleton_self _))
  · rw [hresult]
    exact ⟨h, ⟨rfl, fun _ => rfl, fun _ => rfl, le_rfl⟩, rfl⟩

section Load

variable [DecidableEq Hash]

theorem sameBut_swapBlocks (record : Record) (candidates : List Nat) (hashes : List Hash) :
    SameBut record s (s.swapBlocks layer candidates hashes) := by
  rw [swapBlocks]
  split_ifs
  · exact ⟨rfl, fun _ => rfl, fun _ => rfl, le_rfl⟩
  · exact ⟨rfl, fun _ => rfl, fun _ => rfl, le_rfl⟩

theorem Waits.swapBlocks {candidates : List Nat} {hashes : List Hash} (h : s.Waits timely P)
    (htasks : s.blkTransTasks.items = [])
    (hkeys : ∀ hashes, layer.blkTransTaskHash hashes .key ≠ layer.blkTransTaskHash hashes .value) :
    (s.swapBlocks layer candidates hashes).Waits timely P := by
  rw [ReqPerLayerState.swapBlocks]
  split_ifs
  · exact Waits.launchTransferTask h htasks (hkeys _)
  · exact h

/-- A load by a state that keeps no transfers, of a record that is pending first or has nothing to choose from. -/
theorem Waits.loadRetrieveResultAsync {loadStep : Nat} {candidates : List Nat} (h : s.Waits timely (A ++ B))
    (hslot : s.Slot (needRetrieveRecord layer.cfg.retrievalStride loadStep) launched A)
    (htimely : timely (needRetrieveRecord layer.cfg.retrievalStride loadStep) launched s.step = true)
    (horder : ∀ a ∈ A, ∀ b ∈ B, a.2.1 < b.2.1) (htasks : s.blkTransTasks.items = [])
    (hkeys : ∀ hashes, layer.blkTransTaskHash hashes .key ≠ layer.blkTransTaskHash hashes .value) :
    Meets timely (s.loadRetrieveResultAsync layer loadStep candidates) fun t =>
      t.Waits timely B ∧ SameBut (needRetrieveRecord layer.cfg.retrievalStride loadStep) s t := by
  refine (h.retrieveResult hslot htimely horder).map ?_
  rintro ⟨t, hashes⟩ ⟨hwaits, hsame, htasks'⟩
  split_ifs
  · exact ⟨hwaits.swapBlocks (by rw [htasks', htasks]) hkeys, hsame.trans (sameBut_swapBlocks _ _ _)⟩
  · exact ⟨hwaits, hsame⟩

end Load

/-- The record of the queries of a group of steps. -/
def groupOfSteps (retrievalStride group : Nat) : Record := .decode ((group * retrievalStride + 1 : Nat) : Int)

theorem groupOfSteps_inj {k i j : Nat} (hk : 0 < k) : groupOfSteps k i = groupOfSteps k j ↔ i = j := by
  simp only [groupOfSteps, Record.decode.injEq, Nat.cast_inj, Nat.add_right_cancel_iff]
  exact Nat.mul_left_inj hk.ne'

/-- Between two steps at most the retrieval of the last full group is pending. -/
structure Between (timely : Record → Nat → Nat → Bool) (layer : Layer Hash) (s : ReqPerLayerState Query Hash)
    (P : List (Record × Nat × Nat)) : Prop where
  waits : s.Waits timely P
  early : layer.blkRepre = none ∨ s.step < layer.cfg.retrievalStride → P = []
  slot : layer.blkRepre ≠ none → layer.cfg.retrievalStride ≤ s.step →
    s.Slot (groupOfSteps layer.cfg.retrievalStride (s.step / layer.cfg.retrievalStride - 1))
      (s.step / layer.cfg.retrievalStride * layer.cfg.retrievalStride) P
  idle : s.step % layer.cfg.retrievalStride ≠ 0 ∨ s.step < layer.cfg.retrievalStride * 2 ∨ layer.blkRepre = none →
    s.blkTransTasks.items = []
  unused (group : Nat) (h : s.step / layer.cfg.retrievalStride ≤ group) :
    s.stepGroupRetrieveResult.get? (groupOfSteps layer.cfg.retrievalStride group) = none
  first : s.step = 0 → s.stepGroupRetrieveResult.get? .prefill = none

theorem between_init (standby : Standby Query) : Between timely layer (init standby) [] where
  waits := rfl
  early _ := rfl
  slot _ h := absurd h (Nat.not_le.mpr layer.cfg.stride_pos)
  idle _ := rfl
  unused _ _ := rfl
  first _ := rfl

section Steps

variable [DecidableEq Hash] {step : DecodeStep Query}

/-- What the retrievals of a step do to any state of it, the step does. -/
theorem meets_beginStep {Q : ReqPerLayerState Query Hash → Prop} (h : s.Waits timely P) (hrepre : layer.blkRepre ≠ none)
    (hnext : ∀ standby candidates, Meets timely
      (({ s with standbyQueryGroup := standby } : ReqPerLayerState Query Hash).beginRetrievals layer candidates) Q) :
    Meets timely (s.beginStep layer step) Q := by
  obtain ⟨numRepre, hsome⟩ := Option.ne_none_iff_exists'.mp hrepre
  rw [beginStep, hsome]
  dsimp only
  split_ifs with hlen
  · exact h.protocol
  · cases saveToStandby layer.cfg.retrievalStride s.standbyQueryGroup (s.groupRecord layer)
      (((s.step - 1) % layer.cfg.retrievalStride : Nat) : Int) step.queryStartLoc step.query with
    | none => exact h.protocol
    | some standby => exact hnext standby _

/-- The state at the attention of a step, from the one at its beginning. -/
structure Attending (timely : Record → Nat → Nat → Bool) (record : Record) (s t : ReqPerLayerState Query Hash)
    (P : List (Record × Nat × Nat)) : Prop where
  waits : t.Waits timely P
  same : SameBut record s t
  tasks : t.blkTransTasks.items = []

omit [DecidableEq Hash] in
theorem Attending.act (h : Attending timely record s t P) : Attending timely record s (t.act .attention) P :=
  ⟨h.waits.attention h.tasks, ⟨h.same.step, h.same.result, h.same.waiter, h.same.retrieval_le⟩, h.tasks⟩

theorem beginRetrievals_first (hstep : s.step = 1) (hstride : 2 ≤ layer.cfg.retrievalStride) (candidates : List Nat) :
    s.beginRetrievals layer candidates =
      (s.waitForBlkTransferTaskDone.retrievalAsync layer 1 candidates.length).bind fun t =>
        t.loadRetrieveResultAsync layer t.step candidates := by
  have hmod : s.step % layer.cfg.retrievalStride ≠ 0 := by
    rw [hstep, Nat.mod_eq_of_lt hstride]
    exact Nat.one_ne_zero
  rw [beginRetrievals, if_neg hmod]
  change (if s.step = 1 then _ else _) = _
  rw [if_pos hstep, hstep]

/-- The first step launches the retrieval for the prompt, consumes it and waits for its blocks. -/
theorem attends_first (h : s.Waits timely []) (hstep : s.step = 1) (hstride : 2 ≤ layer.cfg.retrievalStride)
    (hrepre : layer.blkRepre ≠ none) (hnone : s.stepGroupRetrieveResult.get? .prefill = none)
    (htimely : timely .prefill 1 1 = true)
    (hkeys : ∀ hashes, layer.blkTransTaskHash hashes .key ≠ layer.blkTransTaskHash hashes .value) :
    Meets timely (s.attentionBegin layer step) fun t => Attending timely .prefill s t [] := by
  have hneed : needRetrieveRecord layer.cfg.retrievalStride 1 = .prefill := if_pos (by omega)
  have hbegin : Meets timely (s.beginStep layer step) fun t => t.Waits timely [] ∧ SameBut .prefill s t := by
    apply meets_beginStep h hrepre
    intro standby candidates
    rw [beginRetrievals_first (s := { s with standbyQueryGroup := standby }) hstep hstride candidates]
    have hwait : ({ s with standbyQueryGroup := standby } : ReqPerLayerState Query Hash).waitForBlkTransferTaskDone.Waits
        timely [] := Waits.waitForBlkTransferTaskDone h
    refine Meets.bind (Waits.retrievalAsync hwait hnone) ?_
    rintro t ⟨⟨A, hslot, hwaits, -⟩, hsame, htasks⟩
    have htstep : t.step = 1 := hsame.step.trans hstep
    rw [htstep]
    have hslot : t.Slot (needRetrieveRecord layer.cfg.retrievalStride 1) 1 A := by
      rw [hneed, ← hstep]
      exact hslot
    rw [List.nil_append] at hwaits
    refine (Waits.loadRetrieveResultAsync (B := []) (by simpa using hwaits) hslot (by rw [hneed, htstep]; exact htimely)
      (by simp) (by rw [htasks]; rfl) hkeys).mono ?_
    rintro u ⟨hwaits', hsame'⟩
    rw [hneed] at hsame'
    exact ⟨hwaits', ⟨hsame'.step.trans hsame.step, fun hr => (hsame'.result hr).trans (hsame.result hr),
      fun hr => (hsame'.waiter hr).trans (hsame.waiter hr), hsame.retrieval_le.trans hsame'.retrieval_le⟩⟩
  refine hbegin.map ?_
  rintro t ⟨hwaits, hsame⟩
  have hwaitsAt : WaitsAtBegin layer t := ⟨hrepre, by rw [hsame.step, hstep, Nat.mod_eq_of_lt hstride]⟩
  rw [if_pos hwaitsAt]
  exact ⟨hwaits.waitForBlkTransferTaskDone, ⟨hsame.step, hsame.result, hsame.waiter, hsame.retrieval_le⟩, rfl⟩

/-- The last step of a group launches the retrieval for the queries of the group. -/
theorem attends_last (h : s.Waits timely P) (hstride : 2 ≤ layer.cfg.retrievalStride) (hrepre : layer.blkRepre ≠ none)
    {group : Nat} (hstep : s.step = (group + 1) * layer.cfg.retrievalStride)
    (hnone : s.stepGroupRetrieveResult.get? (groupOfSteps layer.cfg.retrievalStride group) = none)
    (htasks : s.blkTransTasks.items = []) :
    Meets timely (s.attentionBegin layer step) fun t => ∃ A,
      t.Slot (groupOfSteps layer.cfg.retrievalStride group) s.step A ∧ (∀ q ∈ A, q.2.1 = s.nextRetrieval) ∧
      Attending timely (groupOfSteps layer.cfg.retrievalStride group) s t (P ++ A) := by
  have hmod : s.step % layer.cfg.retrievalStride = 0 := by rw [hstep, Nat.mul_mod_left]
  have hle : layer.cfg.retrievalStride ≤ s.step := by
    rw [hstep, Nat.succ_mul]
    omega
  have hrecord : getRetrieveRecord layer (s.step + 1) = groupOfSteps layer.cfg.retrievalStride group := by
    rw [getRetrieveRecord, if_neg (by omega), groupOfSteps, hstep, Nat.succ_mul]
    congr 1
    push_cast
    ring
  have hbegin : Meets timely (s.beginStep layer step) fun t => ∃ A,
      t.Slot (groupOfSteps layer.cfg.retrievalStride group) s.step A ∧ (∀ q ∈ A, q.2.1 = s.nextRetrieval) ∧
      Attending timely (groupOfSteps layer.cfg.retrievalStride group) s t (P ++ A) := by
    apply meets_beginStep h hrepre
    intro standby candidates
    rw [beginRetrievals, if_pos hmod, ← hrecord]
    rw [← hrecord] at hnone
    refine Meets.bind (Waits.retrievalAsync h hnone) ?_
    rintro t ⟨⟨A, hslot, hwaits, hnext⟩, hsame, htasks'⟩
    rw [if_neg (by rw [hsame.step]; exact fun h1 : s.step = 1 => by omega)]
    exact ⟨A, hslot, hnext, hwaits, ⟨hsame.step, hsame.result, hsame.waiter, hsame.retrieval_le⟩,
      by rw [htasks']; exact htasks⟩
  refine hbegin.map ?_
  rintro t ⟨A, hslot, hnext, hatt⟩
  have hnot : ¬ WaitsAtBegin layer t := by
    rintro ⟨-, h1⟩
    rw [hatt.same.step, hmod] at h1
    exact Nat.zero_ne_one h1
  rw [if_neg hnot]
  exact ⟨A, hslot, hnext, hatt⟩

/-- Another step only waits for what the step before has brought in. -/
theorem attends_other (h : s.Waits timely P) (hmod : s.step % layer.cfg.retrievalStride ≠ 0) (hfirst : s.step ≠ 1)
    (hrepre : layer.blkRepre ≠ none)
    (htasks : s.step % layer.cfg.retrievalStride ≠ 1 → s.blkTransTasks.items = []) :
    Meets timely (s.attentionBegin layer step) fun t => Attending timely record s t P := by
  have hbegin : Meets timely (s.beginStep layer step) fun t =>
      t.Waits timely P ∧ SameBut record s t ∧ t.blkTransTasks = s.blkTransTasks := by
    apply meets_beginStep h hrepre
    intro standby candidates
    rw [beginRetrievals, if_neg hmod]
    change Meets timely (if s.step = 1 then _ else _) _
    rw [if_neg hfirst]
    exact ⟨h, ⟨rfl, fun _ => rfl, fun _ => rfl, le_rfl⟩, rfl⟩
  refine hbegin.map ?_
  rintro t ⟨hwaits, hsame, htasks'⟩
  split_ifs with hat
  · exact ⟨hwaits.waitForBlkTransferTaskDone, ⟨hsame.step, hsame.result, hsame.waiter, hsame.retrieval_le⟩, rfl⟩
  · refine ⟨hwaits, hsame, ?_⟩
    rw [htasks']
    apply htasks
    intro h1
    exact hat ⟨hrepre, by rw [hsame.step, h1]⟩

theorem attends_none (h : s.Waits timely P) (hrepre : layer.blkRepre = none) (htasks : s.blkTransTasks.items = []) :
    Meets timely (s.attentionBegin layer step) fun t => Attending timely record s t P := by
  rw [attentionBegin, beginStep, hrepre]
  have hnot : ¬ WaitsAtBegin layer s := fun hat => hat.1 hrepre
  change Attending timely record s (if WaitsAtBegin layer s then _ else _) P
  rw [if_neg hnot]
  exact ⟨h, ⟨rfl, fun _ => rfl, fun _ => rfl, le_rfl⟩, htasks⟩

theorem cdiv_next (group : Nat) {k : Nat} (hk : 0 < k) : cdiv ((group + 2) * k + 1) k = group + 3 := by
  rw [cdiv, show (group + 2) * k + 1 + k - 1 = (group + 3) * k by rw [Nat.succ_mul (group + 2)]; omega,
    Nat.mul_div_cancel _ hk]

/-- The last step of a group consumes the retrieval that the group before has launched. -/
theorem finishes_last (h : s.Waits timely (A ++ B)) {group : Nat}
    (hstep : s.step = (group + 2) * layer.cfg.retrievalStride)
    (hslot : s.Slot (groupOfSteps layer.cfg.retrievalStride group) launched A)
    (htimely : timely (groupOfSteps layer.cfg.retrievalStride group) launched s.step = true)
    (horder : ∀ a ∈ A, ∀ b ∈ B, a.2.1 < b.2.1) (htasks : s.blkTransTasks.items = [])
    (hkeys : ∀ hashes, layer.blkTransTaskHash hashes .key ≠ layer.blkTransTaskHash hashes .value) :
    Meets timely (s.attentionFinished layer step) fun t =>
      t.Waits timely B ∧ SameBut (groupOfSteps layer.cfg.retrievalStride group) s t := by
  have hk := layer.cfg.stride_pos
  have hle : layer.cfg.retrievalStride * 2 ≤ s.step := by
    rw [hstep, Nat.mul_comm]
    exact Nat.mul_le_mul_right _ (Nat.le_add_left 2 group)
  have hneed : needRetrieveRecord layer.cfg.retrievalStride (s.step + 1) =
      groupOfSteps layer.cfg.retrievalStride group := by
    rw [needRetrieveRecord, if_neg (by omega), hstep, cdiv_next group hk, groupOfSteps]
    push_cast
    congr 2
    ring
  rw [attentionFinished, if_pos ⟨hle, by rw [hstep, Nat.mul_mod_left]⟩]
  cases layer.blkRepre with
  | none => exact h.protocol
  | some numRepre =>
    rw [← hneed] at hslot htimely ⊢
    exact h.loadRetrieveResultAsync hslot htimely horder htasks hkeys

theorem finishes_other (hskip : ¬ (s.step ≥ layer.cfg.retrievalStride * 2 ∧ s.step % layer.cfg.retrievalStride = 0)) :
    s.attentionFinished layer step = .ok s := if_neg hskip

theorem groupOfSteps_ne_prefill (k group : Nat) : groupOfSteps k group ≠ .prefill := by
  rw [groupOfSteps]
  exact fun h => by cases h

omit [DecidableEq Hash] in
theorem Slot.task_lt (h : s.Slot record launched P) : ∀ a ∈ P, a.2.1 < s.nextRetrieval := by
  rcases h with ⟨task, hlt, rfl, -⟩ | ⟨rfl, -⟩
  · intro a ha
    rwa [List.mem_singleton.mp ha]
  · simp

omit [DecidableEq Hash] in
/-- A step within a group leaves pending what was. -/
theorem Between.within (h : Between timely layer s P) (hmod : (s.step + 1) % layer.cfg.retrievalStride ≠ 0)
    (hatt : Attending timely .prefill { s with step := s.step + 1 } t P) : Between timely layer t P := by
  have hk := layer.cfg.stride_pos
  have hstep : t.step = s.step + 1 := hatt.same.step
  have hdiv : (s.step + 1) / layer.cfg.retrievalStride = s.step / layer.cfg.retrievalStride :=
    Nat.succ_div_of_not_dvd fun hdvd => hmod (Nat.mod_eq_zero_of_dvd hdvd)
  constructor
  case waits => exact hatt.waits
  case early => exact fun he => h.early (he.imp_right fun hlt => by omega)
  case slot =>
    intro hrepre hle
    rw [hstep, hdiv]
    have hne : s.step + 1 ≠ layer.cfg.retrievalStride := by
      intro heq
      rw [heq, Nat.mod_self] at hmod
      exact hmod rfl
    have hslot : ({ s with step := s.step + 1 } : ReqPerLayerState Query Hash).Slot _ _ P := h.slot hrepre (by omega)
    exact hslot.of_sameBut hatt.same (groupOfSteps_ne_prefill _ _)
  case idle => exact fun _ => hatt.tasks
  case unused =>
    intro group hle
    rw [hstep, hdiv] at hle
    exact (hatt.same.result (groupOfSteps_ne_prefill _ _)).trans (h.unused group hle)
  case first =>
    intro h0
    omega

theorem Between.runStep_none (h : Between timely layer s P) (hrepre : layer.blkRepre = none) :
    Meets timely (s.runStep layer step) fun t => ∃ P', Between timely layer t P' := by
  have hbegin : Meets timely (({ s with step := s.step + 1 } : ReqPerLayerState Query Hash).attentionBegin layer step)
      fun t => Attending timely .prefill { s with step := s.step + 1 } t P :=
    attends_none h.waits hrepre (h.idle (.inr (.inr hrepre)))
  refine hbegin.bind ?_
  intro t hatt
  have hatt := hatt.act
  rw [attentionFinished, hrepre]
  dsimp only
  split_ifs with hload
  · exact hatt.waits.protocol
  · refine ⟨P, hatt.waits, fun _ => h.early (.inl hrepre), fun hne => absurd hrepre hne, fun _ => hatt.tasks, ?_, ?_⟩
    · intro group hle
      have hstep : (t.act .attention).step = s.step + 1 := hatt.same.step
      rw [hstep] at hle
      exact (hatt.same.result (groupOfSteps_ne_prefill _ _)).trans
        (h.unused group ((Nat.div_le_div_right (Nat.le_succ _)).trans hle))
    · intro h0
      have hstep : (t.act .attention).step = s.step + 1 := hatt.same.step
      omega

/-- The last step of a group keeps the retrieval that it launches pending and consumes the one before. -/
theorem Between.runStep_last (h : Between timely layer s P) (hstride : 2 ≤ layer.cfg.retrievalStride)
    (hrepre : layer.blkRepre ≠ none) {group : Nat} (hstep : s.step + 1 = (group + 1) * layer.cfg.retrievalStride)
    (htimely : ∀ group, timely (groupOfSteps layer.cfg.retrievalStride group)
      ((group + 1) * layer.cfg.retrievalStride) ((group + 2) * layer.cfg.retrievalStride) = true)
    (hkeys : ∀ hashes, layer.blkTransTaskHash hashes .key ≠ layer.blkTransTaskHash hashes .value) :
    Meets timely (s.runStep layer step) fun t => ∃ P', Between timely layer t P' := by
  have hk := layer.cfg.stride_pos
  have hsucc : (group + 1) * layer.cfg.retrievalStride = group * layer.cfg.retrievalStride + layer.cfg.retrievalStride :=
    Nat.succ_mul _ _
  have hdiv : s.step / layer.cfg.retrievalStride = group := by
    rw [Nat.div_eq_iff hk]
    omega
  have hdiv' : (s.step + 1) / layer.cfg.retrievalStride = group + 1 := by rw [hstep, Nat.mul_div_cancel _ hk]
  have hmod : s.step % layer.cfg.retrievalStride ≠ 0 := by
    intro h0
    have hdvd := Nat.dvd_of_mod_eq_zero h0
    have hdvd' : layer.cfg.retrievalStride ∣ s.step + 1 := hstep ▸ Nat.dvd_mul_left _ _
    have hone := (Nat.dvd_add_right hdvd).mp hdvd'
    have hle := Nat.le_of_dvd Nat.one_pos hone
    omega
  refine (attends_last (s := { s with step := s.step + 1 }) h.waits hstride hrepre hstep
    (h.unused group hdiv.le) (h.idle (.inl hmod))).bind ?_
  rintro t ⟨A, hslot, hnext, hatt⟩
  have hatt := hatt.act
  have htstep : (t.act .attention).step = s.step + 1 := hatt.same.step
  -- What holds at the end of the step, whether or not a retrieval was consumed.
  have hend : ∀ u : ReqPerLayerState Query Hash, u.Waits timely A → u.step = s.step + 1 →
      u.Slot (groupOfSteps layer.cfg.retrievalStride group) (s.step + 1) A →
      (s.step + 1 < layer.cfg.retrievalStride * 2 → u.blkTransTasks.items = []) →
      (∀ g, group < g → u.stepGroupRetrieveResult.get? (groupOfSteps layer.cfg.retrievalStride g) =
        s.stepGroupRetrieveResult.get? (groupOfSteps layer.cfg.retrievalStride g)) →
      Between timely layer u A := by
    intro u hwaits hustep huslot htasks hresult
    constructor
    case waits => exact hwaits
    case early =>
      rintro (hnone | hlt)
      · exact absurd hnone hrepre
      · omega
    case slot =>
      intro _ _
      rw [hustep, hdiv', Nat.add_sub_cancel, ← hstep]
      exact huslot
    case idle =>
      rintro (h0 | hlt | hnone)
      · rw [hustep, hstep, Nat.mul_mod_left] at h0
        exact absurd rfl h0
      · exact htasks (by omega)
      · exact absurd hnone hrepre
    case unused =>
      intro g hle
      rw [hustep, hdiv'] at hle
      rw [hresult g hle]
      exact h.unused g (by omega)
    case first =>
      intro h0
      omega
  have hnewer : ∀ g, group < g → (t.act .attention).stepGroupRetrieveResult.get?
      (groupOfSteps layer.cfg.retrievalStride g) =
        s.stepGroupRetrieveResult.get? (groupOfSteps layer.cfg.retrievalStride g) := by
    intro g hg
    apply hatt.same.result
    rw [Ne, groupOfSteps_inj hk]
    omega
  cases group with
  | zero =>
    rw [finishes_other (by rw [htstep]; omega)]
    have hP : P = [] := h.early (.inr (by omega))
    rw [hP, List.nil_append] at hatt
    exact ⟨A, hend _ hatt.waits htstep hslot (fun _ => hatt.tasks) hnewer⟩
  | succ group =>
    have hsucc' : (group + 1) * layer.cfg.retrievalStride =
      group * layer.cfg.retrievalStride + layer.cfg.retrievalStride := Nat.succ_mul _ _
    have hne : groupOfSteps layer.cfg.retrievalStride group ≠ groupOfSteps layer.cfg.retrievalStride (group + 1) := by
      rw [Ne, groupOfSteps_inj hk]
      omega
    have hold := h.slot hrepre (by omega)
    rw [hdiv, Nat.add_sub_cancel] at hold
    have hold' : ({ s with step := s.step + 1 } : ReqPerLayerState Query Hash).Slot _ _ P := hold
    have hslotP : (t.act .attention).Slot (groupOfSteps layer.cfg.retrievalStride group)
        ((group + 1) * layer.cfg.retrievalStride) P := hold'.of_sameBut hatt.same hne
    refine (finishes_last hatt.waits (htstep.trans hstep) hslotP (by rw [htstep, hstep]; exact htimely group) ?_
      hatt.tasks hkeys).mono ?_
    · intro a ha b hb
      rw [hnext b hb]
      exact hold.task_lt a ha
    · rintro u ⟨hwaits, hsame⟩
      refine ⟨A, hend u hwaits (hsame.step.trans htstep) ?_ ?_ ?_⟩
      · exact Slot.of_sameBut (s := t.act .attention) hslot hsame hne.symm
      · intro hlt
        omega
      · intro g hg
        rw [hsame.result (by rw [Ne, groupOfSteps_inj hk]; omega), hnewer g hg]

theorem Between.runStep (h : Between timely layer s P) (hstride : 2 ≤ layer.cfg.retrievalStride)
    (hfirst : timely .prefill 1 1 = true)
    (htimely : ∀ group, timely (groupOfSteps layer.cfg.retrievalStride group)
      ((group + 1) * layer.cfg.retrievalStride) ((group + 2) * layer.cfg.retrievalStride) = true)
    (hkeys : ∀ hashes, layer.blkTransTaskHash hashes .key ≠ layer.blkTransTaskHash hashes .value) :
    Meets timely (s.runStep layer step) fun t => ∃ P', Between timely layer t P' := by
  by_cases hrepre : layer.blkRepre = none
  · exact h.runStep_none hrepre
  by_cases hmod : (s.step + 1) % layer.cfg.retrievalStride = 0
  · obtain ⟨n, hn⟩ := Nat.dvd_of_mod_eq_zero hmod
    cases n with
    | zero => omega
    | succ group => exact h.runStep_last hstride hrepre (hn.trans (Nat.mul_comm _ _)) htimely hkeys
  have hbegin : Meets timely (({ s with step := s.step + 1 } : ReqPerLayerState Query Hash).attentionBegin layer step)
      fun t => Attending timely .prefill { s with step := s.step + 1 } t P := by
    by_cases h1 : s.step = 0
    · have hP : P = [] := h.early (.inr (by omega))
      subst hP
      exact attends_first (s := { s with step := s.step + 1 }) h.waits (by simp [h1]) hstride hrepre (h.first h1) hfirst hkeys
    · refine attends_other (s := { s with step := s.step + 1 }) h.waits hmod (by simpa using h1) hrepre ?_
      intro hne
      apply h.idle
      refine .inl fun h0 => hne ?_
      obtain ⟨n, hn⟩ := Nat.dvd_of_mod_eq_zero h0
      change (s.step + 1) % layer.cfg.retrievalStride = 1
      rw [hn, Nat.mul_add_mod, Nat.mod_eq_of_lt hstride]
  refine hbegin.bind ?_
  intro t hatt
  have htstep : (t.act .attention).step = s.step + 1 := hatt.same.step
  rw [finishes_other (by rw [htstep]; exact fun hload => hmod hload.2)]
  exact ⟨P, h.within hmod hatt.act⟩

end Steps

theorem Between.run [DecidableEq Hash] (h : Between timely layer s P) (hstride : 2 ≤ layer.cfg.retrievalStride)
    (hfirst : timely .prefill 1 1 = true)
    (htimely : ∀ group, timely (groupOfSteps layer.cfg.retrievalStride group)
      ((group + 1) * layer.cfg.retrievalStride) ((group + 2) * layer.cfg.retrievalStride) = true)
    (hkeys : ∀ hashes, layer.blkTransTaskHash hashes .key ≠ layer.blkTransTaskHash hashes .value)
    (steps : List (DecodeStep Query)) :
    Meets timely (run layer steps s) fun t => ∃ P', Between timely layer t P' := by
  induction steps generalizing s P with
  | nil => exact ⟨P, h⟩
  | cons step steps ih =>
    refine (h.runStep hstride hfirst htimely hkeys).bind ?_
    rintro t ⟨P', h'⟩
    exact ih h'

end ReqPerLayerState

open ReqPerLayerState

theorem inEarlierGroup_groupOfSteps {k : Nat} (hk : 0 < k) (group : Nat) :
    inEarlierGroup k (groupOfSteps k group) ((group + 1) * k) ((group + 2) * k) = true := by
  have hgroup : ∀ n, ((n + 1) * k - 1) / k = n := by
    intro n
    rw [Nat.div_eq_iff hk, Nat.succ_mul]
    omega
  rw [inEarlierGroup, stepGroup, stepGroup, hgroup, hgroup (group + 1)]
  exact decide_eq_true (Nat.lt_succ_self _)

/-- Over any number of decode steps: apart from the first step a retrieval is waited for in a later
group of steps than it was launched in, retrievals are consumed once and in order, and no attention
starts before the blocks that were asked for are there. -/
theorem decode_protocol [DecidableEq Hash] (layer : Layer Hash) (hstride : 2 ≤ layer.cfg.retrievalStride)
    (hkeys : ∀ hashes, layer.blkTransTaskHash hashes .key ≠ layer.blkTransTaskHash hashes .value)
    (standby : Standby Query) (steps : List (DecodeStep Query)) :
    Protocol (inEarlierGroupOrFirst layer.cfg.retrievalStride) (done (run layer steps (init standby))) := by
  have hmeets : Meets (inEarlierGroupOrFirst layer.cfg.retrievalStride) (run layer steps (init standby))
      fun t => ∃ P, Between (inEarlierGroupOrFirst layer.cfg.retrievalStride) layer t P := by
    refine (between_init standby).run hstride (by simp [inEarlierGroupOrFirst]) ?_ hkeys steps
    intro group
    rw [inEarlierGroupOrFirst, inEarlierGroup_groupOfSteps layer.cfg.stride_pos, Bool.true_or]
  cases hrun : run layer steps (init standby) with
  | error s =>
    rw [hrun] at hmeets
    exact hmeets
  | ok s =>
    rw [hrun] at hmeets
    obtain ⟨P, h⟩ := hmeets
    exact h.waits.protocol

/-- Two candidates of four blocks, and a retrieval after every second step. -/
def strideTwo : Layer Nat where
  cfg := ⟨1, Nat.one_pos, 1, 1, 2, Nat.zero_lt_two, id, fun _ => le_rfl⟩
  blockHashes := [100, 101, 102, 103]
  blkRepre := some 2
  getTaskResult task := some [task % 2, task % 2 + 1]
  blkTransTaskHash hashes tensor := if tensor = .key then 2 * hashes.sum else 2 * hashes.sum + 1

def oneToken : DecodeStep Nat := ⟨[10, 11, 12, 13], 0, 1, [9]⟩

def promptQueries : Standby Nat := Dict.empty.set .prefill [some 7, some 8]

theorem decode_protocol_strideTwo :
    Protocol (inEarlierGroupOrFirst 2) (done (run strideTwo (List.replicate 6 oneToken) (init promptQueries))) ∧
    (run strideTwo (List.replicate 6 oneToken) (init promptQueries)).toOption.isSome :=
  ⟨decode_protocol strideTwo le_rfl (fun hashes h => by simp [strideTwo] at h) promptQueries _, by decide⟩

/-- The first step waits for the retrieval that it has launched itself. -/
theorem not_inEarlierGroup_firstStep :
    ¬ Protocol (inEarlierGroup 2) (done (run strideTwo [oneToken] (init promptQueries))) := by
  unfold Protocol
  decide

end UnifiedCache.Sparse.KvstarMultiStep
