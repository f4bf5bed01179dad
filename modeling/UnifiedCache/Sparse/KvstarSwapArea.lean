import UnifiedCache.Lib.StepSystem
import UnifiedCache.Sparse.KvstarDecode

/-! The swap area of a request in a layer of KVStar: which retrieved block each candidate block is
recorded to hold, and what the transfers put there. -/

namespace UnifiedCache.Sparse.KvstarMultiStep

open EsaSchedule (TensorType)
open StepSystem

variable {Query Hash C : Type*} [DecidableEq Hash]

section Swap

variable {preSwap : Dict Nat Hash} {candidates rest : List Nat} {hashes : List Hash}
  {m : Dict Nat Hash × List Nat × List Hash}

/-- Before the loop comes to the rest of the candidates. -/
structure Matched (preSwap : Dict Nat Hash) (candidates : List Nat) (hashes : List Hash) (rest : List Nat)
    (m : Dict Nat Hash × List Nat × List Hash) : Prop where
  ids : (m.1.items.map Prod.fst ++ m.2.1).Perm candidates
  hashes : (m.1.items.map Prod.snd ++ m.2.2).Perm hashes
  old {id : Nat} {hash : Hash} (h : (id, hash) ∈ m.1.items) : preSwap.get? id = some hash
  unmatched {id : Nat} {hash : Hash} (h : id ∈ m.2.1) (hrest : id ∉ rest) (hold : preSwap.get? id = some hash) :
    hash ∉ m.2.2
  rest : rest ⊆ m.2.1

omit [DecidableEq Hash] in
theorem matched_start : Matched preSwap candidates hashes candidates (Dict.empty, candidates, hashes) where
  ids := List.Perm.refl _
  hashes := List.Perm.refl _
  old h := absurd h List.not_mem_nil
  unmatched h hrest := absurd h hrest
  rest := List.Subset.refl _

theorem Matched.next {id : Nat} (h : Matched preSwap candidates hashes (id :: rest) m) (hcandidates : candidates.Nodup)
    (hrest : (id :: rest).Nodup) : Matched preSwap candidates hashes rest (matchBlock preSwap m id) := by
  obtain ⟨hid, hrest⟩ := List.nodup_cons.mp hrest
  have hmem : id ∈ m.2.1 := h.rest List.mem_cons_self
  have hnodup := List.nodup_append.mp (h.ids.nodup_iff.mpr hcandidates)
  -- Only the block of this turn is looked at for the first time.
  have hkeep : (∀ hash, preSwap.get? id = some hash → hash ∉ m.2.2) → Matched preSwap candidates hashes rest m := by
    intro hnone
    refine ⟨h.ids, h.hashes, h.old, ?_, fun x hx => h.rest (List.mem_cons_of_mem _ hx)⟩
    intro id' hash hid' hrest' hold
    by_cases heq : id' = id
    · exact hnone hash (heq ▸ hold)
    · exact h.unmatched hid' (by simp [heq, hrest']) hold
  rw [matchBlock]
  cases hold : preSwap.get? id with
  | none => exact hkeep fun hash hsome => by rw [hold] at hsome; cases hsome
  | some hash =>
    dsimp only
    split_ifs with hhash
    · have hnew : id ∉ m.1.items.map Prod.fst := fun hin => hnodup.2.2 id hin id hmem rfl
      have hitems : (m.1.set id hash).items = m.1.items ++ [(id, hash)] := Dict.items_set_of_notMem hnew
      constructor
      case ids =>
        simp only [hitems, List.map_append, List.map_singleton, List.append_assoc, List.singleton_append]
        exact ((List.perm_cons_erase hmem).symm.append_left _).trans h.ids
      case hashes =>
        simp only [hitems, List.map_append, List.map_singleton, List.append_assoc, List.singleton_append]
        exact ((List.perm_cons_erase hhash).symm.append_left _).trans h.hashes
      case old =>
        intro id' hash' hin
        simp only [hitems, List.mem_append, List.mem_singleton, Prod.mk.injEq] at hin
        rcases hin with hin | ⟨rfl, rfl⟩
        · exact h.old hin
        · exact hold
      case unmatched =>
        intro id' hash' hid' hrest' hold' hin
        have hne : id' ≠ id := (hnodup.2.1.mem_erase_iff.mp hid').1
        exact h.unmatched (List.mem_of_mem_erase hid') (by simp [hne, hrest']) hold' (List.mem_of_mem_erase hin)
      case rest =>
        intro x hx
        have hne : x ≠ id := fun heq => hid (heq ▸ hx)
        exact (List.mem_erase_of_ne hne).mpr (h.rest (List.mem_cons_of_mem _ hx))
    · refine hkeep fun hash' hsome => ?_
      obtain rfl := Option.some.inj (hold.symm.trans hsome)
      exact hhash

theorem Matched.foldl (h : Matched preSwap candidates hashes rest m) (hcandidates : candidates.Nodup)
    (hrest : rest.Nodup) : Matched preSwap candidates hashes [] (rest.foldl (matchBlock preSwap) m) := by
  induction rest generalizing m with
  | nil => exact h
  | cons id rest ih => exact ih (h.next hcandidates hrest) (List.nodup_cons.mp hrest).2

/-- The candidates are recorded for the hashes one to one, and what is left is what was not recorded so before. -/
structure Swapped (preSwap : Dict Nat Hash) (candidates : List Nat) (hashes : List Hash)
    (r : Dict Nat Hash × List Nat × List Hash) : Prop where
  ids : (r.1.items.map Prod.fst).Perm candidates
  hashes : (r.1.items.map Prod.snd).Perm hashes
  mem_zip_iff {id : Nat} {hash : Hash} :
    (id, hash) ∈ r.2.1.zip r.2.2 ↔ r.1.get? id = some hash ∧ preSwap.get? id ≠ some hash
  nodup : r.2.1.Nodup
  length_eq : r.2.1.length = r.2.2.length

omit [DecidableEq Hash] in
theorem Matched.swapped (h : Matched preSwap candidates hashes [] m) (hcandidates : candidates.Nodup)
    (hlength : hashes.length = candidates.length) :
    Swapped preSwap candidates hashes (setAll m.1 (m.2.1.zip m.2.2), m.2.1, m.2.2) := by
  have hnodup := List.nodup_append.mp (h.ids.nodup_iff.mpr hcandidates)
  have hleft : m.2.1.length = m.2.2.length := by
    have hids := h.ids.length_eq
    have hhashes := h.hashes.length_eq
    simp only [List.length_append, List.length_map] at hids hhashes
    omega
  have hfst : (m.2.1.zip m.2.2).map Prod.fst = m.2.1 := List.map_fst_zip hleft.le
  have hsnd : (m.2.1.zip m.2.2).map Prod.snd = m.2.2 := List.map_snd_zip hleft.ge
  have hitems : (setAll m.1 (m.2.1.zip m.2.2)).items = m.1.items ++ m.2.1.zip m.2.2 := by
    apply Dict.items_foldl_set
    · rw [hfst]
      exact hnodup.2.1
    · intro e he hin
      have hmem : e.1 ∈ m.2.1 := hfst ▸ List.mem_map_of_mem he
      exact hnodup.2.2 e.1 hin e.1 hmem rfl
  constructor
  case ids =>
    rw [hitems, List.map_append, hfst]
    exact h.ids
  case hashes =>
    rw [hitems, List.map_append, hsnd]
    exact h.hashes
  case mem_zip_iff =>
    intro id hash
    simp only [← Dict.mem_items (d := setAll m.1 (m.2.1.zip m.2.2)), hitems, List.mem_append]
    constructor
    · intro hin
      exact ⟨.inr hin, fun hold => h.unmatched (List.of_mem_zip hin).1 List.not_mem_nil hold (List.of_mem_zip hin).2⟩
    · rintro ⟨hin | hin, hold⟩
      · exact absurd (h.old hin) hold
      · exact hin
  case nodup => exact hnodup.2.1
  case length_eq => exact hleft

theorem swapIn_swapped (hcandidates : candidates.Nodup) (hlength : hashes.length = candidates.length) :
    Swapped preSwap candidates hashes (swapIn preSwap candidates hashes) := by
  rw [swapIn]
  split_ifs with hempty
  · have hstart : Matched preSwap candidates hashes [] (Dict.empty, candidates, hashes) := by
      refine ⟨List.Perm.refl _, List.Perm.refl _, fun h => absurd h List.not_mem_nil, ?_, List.nil_subset _⟩
      intro id hash _ _ hold
      have hin := Dict.mem_items.mpr hold
      rw [List.length_eq_zero_iff.mp hempty] at hin
      cases hin
    exact hstart.swapped hcandidates hlength
  · exact (matched_start.foldl hcandidates hcandidates).swapped hcandidates hlength

end Swap

/-- A transfer's write of one tensor of one block. -/
structure Write (Hash : Type*) where
  transfer : Nat
  tensor : TensorType
  block : Nat
  hash : Hash
deriving DecidableEq

def Action.writes : Action Hash → List (Write Hash)
  | .load transfer tensor pairs _ => pairs.map fun p => ⟨transfer, tensor, p.1, p.2⟩
  | _ => []

/-- All that the transfers of a request were asked to write. -/
def ReqPerLayerState.issued (s : ReqPerLayerState Query Hash) : List (Write Hash) :=
  s.actions.flatMap fun a => a.2.writes

inductive Phase where
  | idle
  /-- In `attention_begin`, at its last wait. -/
  | waiting
  | attending
deriving DecidableEq

/-- A layer with the memory of its blocks and the writes that are under way. `lastCall` has those that
the last call of `load_retrieve_result_async` has asked for. -/
structure SwapArea (Query Hash C : Type*) where
  req : ReqPerLayerState Query Hash
  phase : Phase
  inFlight : List (Write Hash)
  cache : TensorType → Nat → C
  lastCall : List (Write Hash)

inductive Event (Query C : Type*) where
  | begin (step : DecodeStep Query)
  | waited
  /-- One of the writes under way is done. -/
  | lands (i : Nat)
  /-- The layer writes KV of its own. -/
  | forward (tensor : TensorType) (block : Nat) (content : C)
  | finish (step : DecodeStep Query)

/-- Every retrieval finds distinct blocks, one for each candidate. -/
def Layer.Finds (layer : Layer Hash) (candidates : List Nat) : Prop :=
  ∀ task topkIndices hashes, layer.getTaskResult task = some topkIndices →
    topkIndices.mapM (fun i => layer.blockHashes[i + layer.cfg.initWindowSz]?) = some hashes →
    hashes.Nodup ∧ hashes.length = candidates.length

namespace SwapArea

variable (layer : Layer Hash) (candidates : List Nat) (kv : TensorType → Hash → C)

def init (standby : Standby Query) (cache : TensorType → Nat → C) : SwapArea Query Hash C :=
  ⟨.init standby, .idle, [], cache, []⟩

/-- Whether an event calls `load_retrieve_result_async`. -/
def Calls (s : SwapArea Query Hash C) : Event Query C → Prop
  | .begin _ => layer.blkRepre ≠ none ∧ s.req.step = 0
  | .finish _ => s.req.step ≥ layer.cfg.retrievalStride * 2 ∧ s.req.step % layer.cfg.retrievalStride = 0
  | _ => False

instance (s : SwapArea Query Hash C) : (e : Event Query C) → Decidable (Calls layer s e)
  | .begin _ => inferInstanceAs (Decidable (_ ∧ _))
  | .finish _ => inferInstanceAs (Decidable (_ ∧ _))
  | .waited | .lands _ | .forward _ _ _ => inferInstanceAs (Decidable False)

/-- The state after a hook, with the writes that it has asked for. -/
def hook (s : SwapArea Query Hash C) (e : Event Query C) (req : ReqPerLayerState Query Hash) (phase : Phase) :
    SwapArea Query Hash C :=
  let writes := req.issued.drop s.req.issued.length
  { s with
    req := req
    phase := phase
    inFlight := s.inFlight ++ writes
    lastCall := if Calls layer s e then writes else s.lastCall }

/-- A step that raises ends the run. The layer's own KV goes to blocks that are no candidates. -/
def step (s : SwapArea Query Hash C) : Event Query C → Option (SwapArea Query Hash C)
  | .begin step =>
    if s.phase = .idle then
      match ({ s.req with step := s.req.step + 1 } : ReqPerLayerState Query Hash).beginStep layer step with
      | .error _ => none
      | .ok req =>
        some (s.hook layer (.begin step) req (if req.WaitsAtBegin layer then .waiting else .attending))
    else none
  | .waited =>
    if s.phase = .waiting ∧ ∀ w ∈ s.inFlight, w.transfer ∉ s.req.blkTransTasks.items.map Prod.snd then
      some { s with req := s.req.waitForBlkTransferTaskDone, phase := .attending }
    else none
  | .lands i =>
    s.inFlight[i]?.map fun w =>
      { s with
        inFlight := s.inFlight.eraseIdx i
        cache := Function.update s.cache w.tensor (Function.update (s.cache w.tensor) w.block (kv w.tensor w.hash)) }
  | .forward tensor block content =>
    if block ∈ candidates then none
    else some { s with cache := Function.update s.cache tensor (Function.update (s.cache tensor) block content) }
  | .finish step =>
    if s.phase = .attending then
      match (s.req.act .attention).attentionFinished layer step with
      | .error _ => none
      | .ok req => some (s.hook layer (.finish step) req .idle)
    else none

/-- The candidates of a step are the same prefix of the block table. -/
def SamePrefix (_ : SwapArea Query Hash C) : Event Query C → Prop
  | .begin step | .finish step => ∀ numRepre, layer.blkRepre = some numRepre →
      layer.cfg.getRetrieveCandidateBlockIds numRepre step.vllmBlockIds = candidates
  | _ => True

/-- No write is under way when the next blocks are asked for. -/
def Quiet (s : SwapArea Query Hash C) (e : Event Query C) : Prop := Calls layer s e → s.inFlight = []

/-- The record whose result a call consumes. -/
def consumed (s : SwapArea Query Hash C) : Event Query C → Record
  | .begin _ => needRetrieveRecord layer.cfg.retrievalStride 1
  | _ => needRetrieveRecord layer.cfg.retrievalStride (s.req.step + 1)

/-- A call records a bijection from the candidates onto the result that it consumes, and asks for the
entries that were not there before, each once as keys and once as values. -/
structure Exact (s : SwapArea Query Hash C) (e : Event Query C) (s' : SwapArea Query Hash C) (hashes : List Hash) :
    Prop where
  result : s'.req.stepGroupRetrieveResult.get? (consumed layer s e) = some hashes
  onCandidates : (s'.req.preSwapAreaBlockHashes.items.map Prod.fst).Perm candidates
  ontoHashes : (s'.req.preSwapAreaBlockHashes.items.map Prod.snd).Perm hashes
  nodup : candidates.Nodup ∧ hashes.Nodup
  mem_iff (tensor : TensorType) (block : Nat) (hash : Hash) :
    (∃ w ∈ s'.lastCall, w.tensor = tensor ∧ w.block = block ∧ w.hash = hash) ↔
      s'.req.preSwapAreaBlockHashes.get? block = some hash ∧ s.req.preSwapAreaBlockHashes.get? block ≠ some hash
  once : (s'.lastCall.map fun w => (w.tensor, w.block)).Nodup

/-- Once the transfer of the last call is done, the recorded blocks hold what is recorded for them. -/
def Settled (s : SwapArea Query Hash C) : Prop :=
  (∀ w ∈ s.lastCall, w ∉ s.inFlight) → ∀ block hash, s.req.preSwapAreaBlockHashes.get? block = some hash →
    ∀ tensor, s.cache tensor block = kv tensor hash

end SwapArea

namespace ReqPerLayerState

variable {layer : Layer Hash} {candidates : List Nat} {hashes : List Hash} {record : Record}
  {s t u : ReqPerLayerState Query Hash}

/-- Every stored result has distinct blocks, one for each candidate. -/
def Results (candidates : List Nat) (s : ReqPerLayerState Query Hash) : Prop :=
  ∀ record hashes, s.stepGroupRetrieveResult.get? record = some hashes →
    hashes.Nodup ∧ hashes.length = candidates.length

omit [DecidableEq Hash] in
theorem Results.set (h : s.Results candidates) (hhashes : hashes.Nodup ∧ hashes.length = candidates.length)
    (ht : t.stepGroupRetrieveResult = s.stepGroupRetrieveResult.set record hashes) : t.Results candidates := by
  intro r hs hr
  rw [ht, Dict.get?_set] at hr
  split_ifs at hr
  · exact Option.some.inj hr ▸ hhashes
  · exact h r hs hr

/-- What a call does before it swaps blocks. -/
structure Unswapped (s t : ReqPerLayerState Query Hash) : Prop where
  preSwap : t.preSwapAreaBlockHashes = s.preSwapAreaBlockHashes
  issued : t.issued = s.issued
  tasks : t.blkTransTasks = s.blkTransTasks
  step : t.step = s.step

omit [DecidableEq Hash] in
theorem issued_act (action : Action Hash) : (s.act action).issued = s.issued ++ action.writes := by
  simp [issued, act]

omit [DecidableEq Hash] in
theorem retrievalAsync_unswapped {curStep topk : Nat} (h : s.retrievalAsync layer curStep topk = .ok t)
    (htopk : topk = candidates.length) :
    Unswapped s t ∧ (s.Results candidates → t.Results candidates) := by
  rw [retrievalAsync] at h
  dsimp only at h
  split_ifs at h with hzero
  · obtain rfl := Except.ok.inj h
    refine ⟨⟨rfl, rfl, rfl, rfl⟩, fun hresults => hresults.set ⟨List.nodup_nil, ?_⟩ rfl⟩
    rw [← htopk, hzero]
    rfl
  · cases hgroup : s.standbyQueryGroup.get? (getRetrieveRecord layer curStep) with
    | none =>
      rw [hgroup] at h
      cases h
    | some group =>
      rw [hgroup] at h
      dsimp only at h
      split_ifs at h
      obtain rfl := Except.ok.inj h
      refine ⟨⟨rfl, ?_, rfl, rfl⟩, fun hresults => hresults⟩
      exact (issued_act _).trans (List.append_nil _)

omit [DecidableEq Hash] in
theorem waitResult_unswapped {task : Nat} (h : s.waitResult layer record task = .ok (t, hashes))
    (hfinds : layer.Finds candidates) :
    Unswapped s t ∧ t.stepGroupRetrieveResult.get? record = some hashes ∧
      (s.Results candidates → t.Results candidates) := by
  rw [waitResult] at h
  dsimp only at h
  cases hstandby : delItem (s.act (.consume record task)).standbyQueryGroup record with
  | none =>
    rw [hstandby] at h
    cases h
  | some standby =>
    rw [hstandby] at h
    dsimp only at h
    cases hdo : delItem (s.act (.consume record task)).doRetrieveQueryGroup record with
    | none =>
      rw [hdo] at h
      cases h
    | some doRetrieve =>
      rw [hdo] at h
      dsimp only at h
      cases hdata : (layer.getTaskResult task).bind fun topkIndices =>
          topkIndices.mapM fun i => layer.blockHashes[i + layer.cfg.initWindowSz]? with
      | none =>
        rw [hdata] at h
        cases h
      | some found =>
        rw [hdata] at h
        obtain ⟨rfl, rfl⟩ := Prod.mk.inj (Except.ok.inj h)
        obtain ⟨topkIndices, htask, hmap⟩ := Option.bind_eq_some_iff.mp hdata
        refine ⟨⟨rfl, ?_, rfl, rfl⟩, ?_, fun hresults => hresults.set (hfinds task _ _ htask hmap) rfl⟩
        · simp [issued, act, Action.writes]
        · exact Dict.get?_set.trans (if_pos rfl)

omit [DecidableEq Hash] in
theorem retrieveResult_unswapped (h : s.retrieveResult layer record = .ok (t, hashes))
    (hfinds : layer.Finds candidates) :
    Unswapped s t ∧ t.stepGroupRetrieveResult.get? record = some hashes ∧
      (s.Results candidates → t.Results candidates) := by
  rw [retrieveResult] at h
  cases hresult : s.stepGroupRetrieveResult.get? record with
  | some found =>
    rw [hresult] at h
    obtain ⟨rfl, rfl⟩ := Prod.mk.inj (Except.ok.inj h)
    exact ⟨⟨rfl, rfl, rfl, rfl⟩, hresult, fun hresults => hresults⟩
  | none =>
    rw [hresult] at h
    cases hwaiter : s.taskWaiter.get? record with
    | none =>
      rw [hwaiter] at h
      cases h
    | some task =>
      rw [hwaiter] at h
      exact waitResult_unswapped h hfinds

def swapWrites (transfer : Nat) (pairs : List (Nat × Hash)) : List (Write Hash) :=
  pairs.map (fun p => ⟨transfer, .key, p.1, p.2⟩) ++ pairs.map fun p => ⟨transfer + 1, .value, p.1, p.2⟩

/-- The candidates that are not matched, with their hashes. -/
def unmatched (preSwap : Dict Nat Hash) (candidates : List Nat) (hashes : List Hash) : List (Nat × Hash) :=
  (swapIn preSwap candidates hashes).2.1.zip (swapIn preSwap candidates hashes).2.2

/-- What a call of `load_retrieve_result_async` changes. -/
structure Called (layer : Layer Hash) (candidates : List Nat) (record : Record) (s t : ReqPerLayerState Query Hash)
    (hashes : List Hash) (transfer : Nat) : Prop where
  result : t.stepGroupRetrieveResult.get? record = some hashes
  results : t.Results candidates
  preSwap : t.preSwapAreaBlockHashes = (swapIn s.preSwapAreaBlockHashes candidates hashes).1
  issued : t.issued = s.issued ++ swapWrites transfer (unmatched s.preSwapAreaBlockHashes candidates hashes)
  step : t.step = s.step
  tasks : s.blkTransTasks.items = [] →
    (∀ hashes, layer.blkTransTaskHash hashes .key ≠ layer.blkTransTaskHash hashes .value) →
    ∀ w ∈ swapWrites transfer (unmatched s.preSwapAreaBlockHashes candidates hashes),
      w.transfer ∈ t.blkTransTasks.items.map Prod.snd

omit [DecidableEq Hash] in
theorem issued_launchTransferTask (hashes : List Hash) (ids : List Nat) :
    (s.launchTransferTask layer hashes ids).issued = s.issued ++ swapWrites s.nextTransfer (ids.zip hashes) := by
  simp [issued, launchTransferTask, loadTensor, act, Action.writes, swapWrites]

omit [DecidableEq Hash] in
theorem tasks_launchTransferTask {ids : List Nat} (htasks : s.blkTransTasks.items = [])
    (hkeys : layer.blkTransTaskHash hashes .key ≠ layer.blkTransTaskHash hashes .value) :
    (s.launchTransferTask layer hashes ids).blkTransTasks.items.map Prod.snd = [s.nextTransfer, s.nextTransfer + 1] := by
  have hkey : (s.blkTransTasks.set (layer.blkTransTaskHash hashes .key) s.nextTransfer).items =
      [(layer.blkTransTaskHash hashes .key, s.nextTransfer)] := by
    rw [Dict.items_set_of_notMem (by rw [htasks]; exact List.not_mem_nil), htasks, List.nil_append]
  have hvalue : layer.blkTransTaskHash hashes .value ∉
      (s.blkTransTasks.set (layer.blkTransTaskHash hashes .key) s.nextTransfer).items.map Prod.fst := by
    rw [hkey]
    simpa using hkeys.symm
  have hitems := Dict.items_set_of_notMem (v := s.nextTransfer + 1) hvalue
  rw [hkey] at hitems
  exact congrArg (List.map Prod.snd) hitems

omit [DecidableEq Hash] in
theorem mem_swapWrites {transfer : Nat} {pairs : List (Nat × Hash)} {w : Write Hash} :
    w ∈ swapWrites transfer pairs ↔ (w.block, w.hash) ∈ pairs ∧
      (w.tensor = .key ∧ w.transfer = transfer ∨ w.tensor = .value ∧ w.transfer = transfer + 1) := by
  obtain ⟨number, tensor, block, hash⟩ := w
  simp only [swapWrites, List.mem_append, List.mem_map, Write.mk.injEq]
  constructor
  · rintro (⟨p, hp, rfl, rfl, rfl, rfl⟩ | ⟨p, hp, rfl, rfl, rfl, rfl⟩)
    · exact ⟨hp, .inl ⟨rfl, rfl⟩⟩
    · exact ⟨hp, .inr ⟨rfl, rfl⟩⟩
  · rintro ⟨hp, ⟨rfl, rfl⟩ | ⟨rfl, rfl⟩⟩
    · exact .inl ⟨_, hp, rfl, rfl, rfl, rfl⟩
    · exact .inr ⟨_, hp, rfl, rfl, rfl, rfl⟩

omit [DecidableEq Hash] in
theorem exists_mem_swapWrites_iff {transfer : Nat} {pairs : List (Nat × Hash)} {tensor : TensorType} {block : Nat}
    {hash : Hash} : (∃ w ∈ swapWrites transfer pairs, w.tensor = tensor ∧ w.block = block ∧ w.hash = hash) ↔
      (block, hash) ∈ pairs := by
  constructor
  · rintro ⟨w, hw, -, rfl, rfl⟩
    exact (mem_swapWrites.mp hw).1
  · intro hpair
    cases tensor with
    | key => exact ⟨⟨transfer, .key, block, hash⟩, mem_swapWrites.mpr ⟨hpair, .inl ⟨rfl, rfl⟩⟩, rfl, rfl, rfl⟩
    | value => exact ⟨⟨transfer + 1, .value, block, hash⟩, mem_swapWrites.mpr ⟨hpair, .inr ⟨rfl, rfl⟩⟩, rfl, rfl, rfl⟩

omit [DecidableEq Hash] in
theorem nodup_swapWrites {transfer : Nat} {pairs : List (Nat × Hash)} (h : (pairs.map Prod.fst).Nodup) :
    ((swapWrites transfer pairs).map fun w => (w.tensor, w.block)).Nodup := by
  have hmap : (swapWrites transfer pairs).map (fun w => (w.tensor, w.block)) =
      (pairs.map Prod.fst).map (Prod.mk .key) ++ (pairs.map Prod.fst).map (Prod.mk .value) := by
    simp only [swapWrites, List.map_append, List.map_map]
    rfl
  rw [hmap]
  apply List.Nodup.append (h.map (Prod.mk_right_injective _)) (h.map (Prod.mk_right_injective _))
  intro x hkey hvalue
  obtain ⟨b, -, rfl⟩ := List.mem_map.mp hkey
  obtain ⟨b', -, heq⟩ := List.mem_map.mp hvalue
  cases heq

theorem Unswapped.called (h : Unswapped s u) (hresult : u.stepGroupRetrieveResult.get? record = some hashes)
    (hresults : u.Results candidates) :
    Called layer candidates record s (u.swapBlocks layer candidates hashes) hashes u.nextTransfer := by
  rw [swapBlocks, h.preSwap]
  split_ifs with hsome
  · constructor
    case result => exact hresult
    case results => exact hresults
    case preSwap => rfl
    case issued =>
      rw [issued_launchTransferTask]
      exact congrArg (fun old => old ++ swapWrites u.nextTransfer _) h.issued
    case step => exact h.step
    case tasks =>
      intro htasks hkeys w hw
      rw [tasks_launchTransferTask (h.tasks.symm ▸ htasks) (hkeys _)]
      rcases (mem_swapWrites.mp hw).2 with ⟨-, heq⟩ | ⟨-, heq⟩
      · exact heq ▸ List.mem_cons_self
      · exact heq ▸ List.mem_cons_of_mem _ List.mem_cons_self
  · have hnone : unmatched s.preSwapAreaBlockHashes candidates hashes = [] := by
      rw [unmatched, List.length_eq_zero_iff.mp (Nat.eq_zero_of_not_pos hsome), List.zip_nil_right]
    constructor
    case result => exact hresult
    case results => exact hresults
    case preSwap => rfl
    case issued =>
      rw [hnone]
      exact h.issued.trans (List.append_nil _).symm
    case step => exact h.step
    case tasks =>
      intro _ _ w hw
      rw [hnone] at hw
      cases hw

theorem loadRetrieveResultAsync_called {loadStep : Nat} (h : s.loadRetrieveResultAsync layer loadStep candidates = .ok t)
    (happlied : needRetrieveRecord layer.cfg.retrievalStride loadStep ≠ .prefill ∨ loadStep = 1)
    (hfinds : layer.Finds candidates) (hresults : s.Results candidates) :
    ∃ hashes transfer,
      Called layer candidates (needRetrieveRecord layer.cfg.retrievalStride loadStep) s t hashes transfer := by
  rw [loadRetrieveResultAsync] at h
  cases hresult : s.retrieveResult layer (needRetrieveRecord layer.cfg.retrievalStride loadStep) with
  | error u =>
    rw [hresult] at h
    cases h
  | ok r =>
    rw [hresult] at h
    have hswap : r.1.swapBlocks layer candidates r.2 = t := (if_pos happlied).symm.trans (Except.ok.inj h)
    obtain ⟨hunswapped, hget, hkeep⟩ := retrieveResult_unswapped hresult hfinds
    exact ⟨r.2, _, hswap ▸ hunswapped.called hget (hkeep hresults)⟩

theorem Called.of_same {hashes : List Hash} {transfer : Nat} (h : Called layer candidates record u t hashes transfer)
    (hpre : u.preSwapAreaBlockHashes = s.preSwapAreaBlockHashes) (hissued : u.issued = s.issued) (hstep : u.step = s.step)
    (htasks : s.blkTransTasks.items = [] → u.blkTransTasks.items = []) :
    Called layer candidates record s t hashes transfer := by
  obtain ⟨hresult, hresults, hswap, hwrites, hstep', htasks'⟩ := h
  rw [hpre] at hswap hwrites htasks'
  rw [hissued] at hwrites
  exact ⟨hresult, hresults, hswap, hwrites, hstep'.trans hstep, fun hnone => htasks' (htasks hnone)⟩

omit [DecidableEq Hash] in
theorem Unswapped.trans (h : Unswapped s t) (h' : Unswapped t u) : Unswapped s u :=
  ⟨h'.preSwap.trans h.preSwap, h'.issued.trans h.issued, h'.tasks.trans h.tasks, h'.step.trans h.step⟩

omit [DecidableEq Hash] in
theorem launchAtLast_unswapped (layer : Layer Hash) (s : ReqPerLayerState Query Hash) (candidates : List Nat) :
    ∀ t, (if s.step % layer.cfg.retrievalStride = 0 then s.retrievalAsync layer (s.step + 1) candidates.length
      else .ok s) = .ok t → Unswapped s t ∧ (s.Results candidates → t.Results candidates) := by
  intro t h
  split_ifs at h
  · exact retrievalAsync_unswapped h rfl
  · obtain rfl := Except.ok.inj h
    exact ⟨⟨rfl, rfl, rfl, rfl⟩, fun hresults => hresults⟩

theorem beginRetrievals_uncalled (h : s.beginRetrievals layer candidates = .ok t) (hstep : s.step ≠ 1) :
    Unswapped s t ∧ (s.Results candidates → t.Results candidates) := by
  rw [beginRetrievals] at h
  cases hlaunch : (if s.step % layer.cfg.retrievalStride = 0 then
      s.retrievalAsync layer (s.step + 1) candidates.length else .ok s) with
  | error u =>
    rw [hlaunch] at h
    cases h
  | ok u =>
    rw [hlaunch] at h
    obtain ⟨hunswapped, hkeep⟩ := launchAtLast_unswapped layer s candidates u hlaunch
    change (if u.step = 1 then _ else _) = _ at h
    rw [if_neg (by rw [hunswapped.step]; exact hstep)] at h
    obtain rfl := Except.ok.inj h
    exact ⟨hunswapped, hkeep⟩

theorem beginRetrievals_called (h : s.beginRetrievals layer candidates = .ok t) (hstep : s.step = 1)
    (hfinds : layer.Finds candidates) (hresults : s.Results candidates) :
    ∃ hashes transfer, Called layer candidates (needRetrieveRecord layer.cfg.retrievalStride 1) s t hashes transfer := by
  rw [beginRetrievals] at h
  cases hlaunch : (if s.step % layer.cfg.retrievalStride = 0 then
      s.retrievalAsync layer (s.step + 1) candidates.length else .ok s) with
  | error u =>
    rw [hlaunch] at h
    cases h
  | ok u =>
    rw [hlaunch] at h
    obtain ⟨hunswapped, hkeep⟩ := launchAtLast_unswapped layer s candidates u hlaunch
    have hustep : u.step = 1 := hunswapped.step.trans hstep
    change (if u.step = 1 then _ else _) = _ at h
    rw [if_pos hustep] at h
    cases hprefill : u.waitForBlkTransferTaskDone.retrievalAsync layer u.step candidates.length with
    | error v =>
      rw [hprefill] at h
      cases h
    | ok v =>
      rw [hprefill] at h
      change v.loadRetrieveResultAsync layer v.step candidates = .ok t at h
      obtain ⟨hunswapped', hkeep'⟩ := retrievalAsync_unswapped hprefill rfl
      have hvstep : v.step = 1 := hunswapped'.step.trans hustep
      rw [hvstep] at h
      have hwait : u.waitForBlkTransferTaskDone.issued = u.issued := by
        have hnone : (u.blkTransTasks.items.map fun p => (u.step, (.waitTransfer p.2 : Action Hash))).flatMap
            (fun a => a.2.writes) = [] := by
          rw [List.flatMap_map]
          exact List.flatMap_eq_nil_iff.mpr fun _ _ => rfl
        rw [issued, issued, waitForBlkTransferTaskDone, List.flatMap_append, hnone, List.append_nil]
      obtain ⟨hashes, transfer, hcalled⟩ :=
        loadRetrieveResultAsync_called h (.inr rfl) hfinds (hkeep' (hkeep hresults))
      refine ⟨hashes, transfer, hcalled.of_same (hunswapped'.preSwap.trans hunswapped.preSwap)
        (hunswapped'.issued.trans (hwait.trans hunswapped.issued)) (hvstep.trans hstep.symm) fun _ => ?_⟩
      rw [hunswapped'.tasks]
      rfl

section Hooks

variable {step : DecodeStep Query}

theorem beginStep_uncalled (h : s.beginStep layer step = .ok t) (hcall : ¬ (layer.blkRepre ≠ none ∧ s.step = 1))
    (hsame : ∀ numRepre, layer.blkRepre = some numRepre →
      layer.cfg.getRetrieveCandidateBlockIds numRepre step.vllmBlockIds = candidates) :
    Unswapped s t ∧ (s.Results candidates → t.Results candidates) := by
  rw [beginStep] at h
  cases hrepre : layer.blkRepre with
  | none =>
    rw [hrepre] at h
    obtain rfl := Except.ok.inj h
    exact ⟨⟨rfl, rfl, rfl, rfl⟩, fun hresults => hresults⟩
  | some numRepre =>
    rw [hrepre] at h hcall
    have hstep : s.step ≠ 1 := fun hone => hcall ⟨Option.some_ne_none _, hone⟩
    dsimp only at h
    split_ifs at h
    cases hsave : saveToStandby layer.cfg.retrievalStride s.standbyQueryGroup (s.groupRecord layer)
        (((s.step - 1) % layer.cfg.retrievalStride : Nat) : Int) step.queryStartLoc step.query with
    | none =>
      rw [hsave] at h
      cases h
    | some standby =>
      rw [hsave, hsame _ hrepre] at h
      obtain ⟨hunswapped, hkeep⟩ := beginRetrievals_uncalled h hstep
      exact ⟨⟨hunswapped.preSwap, hunswapped.issued, hunswapped.tasks, hunswapped.step⟩, hkeep⟩

theorem beginStep_called (h : s.beginStep layer step = .ok t) (hcall : layer.blkRepre ≠ none ∧ s.step = 1)
    (hsame : ∀ numRepre, layer.blkRepre = some numRepre →
      layer.cfg.getRetrieveCandidateBlockIds numRepre step.vllmBlockIds = candidates)
    (hfinds : layer.Finds candidates) (hresults : s.Results candidates) :
    ∃ hashes transfer, Called layer candidates (needRetrieveRecord layer.cfg.retrievalStride 1) s t hashes transfer := by
  rw [beginStep] at h
  cases hrepre : layer.blkRepre with
  | none => exact absurd hrepre hcall.1
  | some numRepre =>
    rw [hrepre] at h
    dsimp only at h
    split_ifs at h
    cases hsave : saveToStandby layer.cfg.retrievalStride s.standbyQueryGroup (s.groupRecord layer)
        (((s.step - 1) % layer.cfg.retrievalStride : Nat) : Int) step.queryStartLoc step.query with
    | none =>
      rw [hsave] at h
      cases h
    | some standby =>
      rw [hsave, hsame _ hrepre] at h
      obtain ⟨hashes, transfer, hcalled⟩ := beginRetrievals_called h hcall.2 hfinds hresults
      exact ⟨hashes, transfer, hcalled.of_same rfl rfl rfl fun htasks => htasks⟩

theorem attentionFinished_uncalled (h : s.attentionFinished layer step = .ok t)
    (hcall : ¬ (s.step ≥ layer.cfg.retrievalStride * 2 ∧ s.step % layer.cfg.retrievalStride = 0)) : t = s := by
  rw [attentionFinished, if_neg hcall] at h
  exact (Except.ok.inj h).symm

theorem attentionFinished_called (h : s.attentionFinished layer step = .ok t)
    (hcall : s.step ≥ layer.cfg.retrievalStride * 2 ∧ s.step % layer.cfg.retrievalStride = 0)
    (hsame : ∀ numRepre, layer.blkRepre = some numRepre →
      layer.cfg.getRetrieveCandidateBlockIds numRepre step.vllmBlockIds = candidates)
    (hfinds : layer.Finds candidates) (hresults : s.Results candidates) :
    ∃ hashes transfer,
      Called layer candidates (needRetrieveRecord layer.cfg.retrievalStride (s.step + 1)) s t hashes transfer := by
  rw [attentionFinished, if_pos hcall] at h
  cases hrepre : layer.blkRepre with
  | none =>
    rw [hrepre] at h
    cases h
  | some numRepre =>
    rw [hrepre] at h
    dsimp only at h
    rw [hsame _ hrepre] at h
    refine loadRetrieveResultAsync_called h (.inl ?_) hfinds hresults
    rw [needRetrieveRecord, if_neg (by omega)]
    exact fun hprefill => by cases hprefill

end Hooks

end ReqPerLayerState

namespace SwapArea

open ReqPerLayerState

variable {layer : Layer Hash} {candidates : List Nat} {kv : TensorType → Hash → C} {s s' : SwapArea Query Hash C}
  {e : Event Query C}

/-- What a hook around the attention changes. -/
inductive Hooked (layer : Layer Hash) (candidates : List Nat) (s : SwapArea Query Hash C) (e : Event Query C)
    (s' : SwapArea Query Hash C) : Prop
  | uncalled (hcall : ¬ Calls layer s e)
      (preSwap : s'.req.preSwapAreaBlockHashes = s.req.preSwapAreaBlockHashes)
      (tasks : s'.req.blkTransTasks = s.req.blkTransTasks) (results : s'.req.Results candidates)
      (inFlight : s'.inFlight = s.inFlight) (lastCall : s'.lastCall = s.lastCall) (cache : s'.cache = s.cache)
  | called (hcall : Calls layer s e) (hashes : List Hash) (transfer : Nat)
      (result : s'.req.stepGroupRetrieveResult.get? (consumed layer s e) = some hashes)
      (results : s'.req.Results candidates)
      (preSwap : s'.req.preSwapAreaBlockHashes = (swapIn s.req.preSwapAreaBlockHashes candidates hashes).1)
      (lastCall : s'.lastCall = swapWrites transfer (unmatched s.req.preSwapAreaBlockHashes candidates hashes))
      (tasks : s.req.blkTransTasks.items = [] →
        (∀ hashes, layer.blkTransTaskHash hashes .key ≠ layer.blkTransTaskHash hashes .value) →
        ∀ w ∈ s'.lastCall, w.transfer ∈ s'.req.blkTransTasks.items.map Prod.snd)
      (inFlight : s'.inFlight = s.inFlight ++ s'.lastCall) (cache : s'.cache = s.cache)

theorem hooked_of_unswapped {before req : ReqPerLayerState Query Hash} (phase : Phase) (hcall : ¬ Calls layer s e)
    (h : Unswapped before req) (hresults : req.Results candidates) (hissued : before.issued = s.req.issued)
    (hpre : before.preSwapAreaBlockHashes = s.req.preSwapAreaBlockHashes)
    (htasks : before.blkTransTasks = s.req.blkTransTasks) :
    Hooked layer candidates s e (s.hook layer e req phase) := by
  have hnone : req.issued.drop s.req.issued.length = [] := by
    rw [h.issued, hissued, List.drop_length]
  apply Hooked.uncalled hcall (h.preSwap.trans hpre) (h.tasks.trans htasks) hresults
  case inFlight =>
    change s.inFlight ++ req.issued.drop s.req.issued.length = s.inFlight
    rw [hnone, List.append_nil]
  case lastCall => exact if_neg hcall
  case cache => rfl

theorem hooked_of_called {before req : ReqPerLayerState Query Hash} {hashes : List Hash} {transfer : Nat}
    (phase : Phase) (hcall : Calls layer s e)
    (h : Called layer candidates (consumed layer s e) before req hashes transfer)
    (hissued : before.issued = s.req.issued)
    (hpre : before.preSwapAreaBlockHashes = s.req.preSwapAreaBlockHashes)
    (htasks : before.blkTransTasks = s.req.blkTransTasks) :
    Hooked layer candidates s e (s.hook layer e req phase) := by
  have hwrites : req.issued.drop s.req.issued.length =
      swapWrites transfer (unmatched s.req.preSwapAreaBlockHashes candidates hashes) := by
    rw [h.issued, hissued, hpre, List.drop_left]
  have hlast : (s.hook layer e req phase).lastCall =
      swapWrites transfer (unmatched s.req.preSwapAreaBlockHashes candidates hashes) := (if_pos hcall).trans hwrites
  apply Hooked.called hcall hashes transfer h.result h.results (h.preSwap.trans (by rw [hpre])) hlast
  case tasks =>
    intro hempty hkeys
    rw [hlast, ← hpre]
    exact h.tasks (htasks ▸ hempty) hkeys
  case inFlight =>
    rw [hlast, ← hwrites]
    rfl
  case cache => rfl

theorem begin_hooked {step : DecodeStep Query} (h : s.step layer candidates kv (.begin step) = some s')
    (hsame : SamePrefix layer candidates s (.begin step)) (hfinds : layer.Finds candidates)
    (hresults : s.req.Results candidates) :
    Hooked layer candidates s (.begin step) s' ∧ s.phase = .idle ∧ s'.req.step = s.req.step + 1 ∧
      s'.phase = if s'.req.WaitsAtBegin layer then .waiting else .attending := by
  rw [SwapArea.step] at h
  split_ifs at h with hphase
  cases hbegin : ({ s.req with step := s.req.step + 1 } : ReqPerLayerState Query Hash).beginStep layer step with
  | error req =>
    rw [hbegin] at h
    cases h
  | ok req =>
    rw [hbegin] at h
    obtain rfl := Option.some.inj h
    by_cases hcall : Calls layer s (.begin step)
    · obtain ⟨hashes, transfer, hcalled⟩ := beginStep_called hbegin ⟨hcall.1, congrArg (fun n => n + 1) hcall.2⟩
        hsame hfinds hresults
      exact ⟨hooked_of_called _ hcall hcalled rfl rfl rfl, hphase, hcalled.step, rfl⟩
    · have hother : ¬ (layer.blkRepre ≠ none ∧ s.req.step + 1 = 1) :=
        fun hat => hcall ⟨hat.1, Nat.succ.inj hat.2⟩
      obtain ⟨hunswapped, hkeep⟩ := beginStep_uncalled hbegin hother hsame
      exact ⟨hooked_of_unswapped _ hcall hunswapped (hkeep hresults) rfl rfl rfl, hphase, hunswapped.step, rfl⟩

theorem finish_hooked {step : DecodeStep Query} (h : s.step layer candidates kv (.finish step) = some s')
    (hsame : SamePrefix layer candidates s (.finish step)) (hfinds : layer.Finds candidates)
    (hresults : s.req.Results candidates) :
    Hooked layer candidates s (.finish step) s' ∧ s.phase = .attending ∧ s'.req.step = s.req.step ∧
      s'.phase = .idle := by
  have hissued : (s.req.act .attention).issued = s.req.issued := (issued_act _).trans (List.append_nil _)
  rw [SwapArea.step] at h
  split_ifs at h with hphase
  cases hfinish : (s.req.act .attention).attentionFinished layer step with
  | error req =>
    rw [hfinish] at h
    cases h
  | ok req =>
    rw [hfinish] at h
    obtain rfl := Option.some.inj h
    by_cases hcall : Calls layer s (.finish step)
    · obtain ⟨hashes, transfer, hcalled⟩ := attentionFinished_called hfinish hcall hsame hfinds hresults
      exact ⟨hooked_of_called _ hcall hcalled hissued rfl rfl, hphase, hcalled.step, rfl⟩
    · obtain rfl := attentionFinished_uncalled hfinish hcall
      have hunswapped : Unswapped (s.req.act .attention) (s.req.act .attention) := ⟨rfl, rfl, rfl, rfl⟩
      exact ⟨hooked_of_unswapped _ hcall hunswapped hresults hissued rfl rfl, hphase, rfl, rfl⟩

theorem blkRepre_of_finish {step : DecodeStep Query} (h : s.step layer candidates kv (.finish step) = some s')
    (hcall : Calls layer s (.finish step)) : layer.blkRepre ≠ none := by
  intro hrepre
  have hfinish : (s.req.act .attention).attentionFinished layer step = .error (s.req.act .attention) := by
    rw [attentionFinished, hrepre]
    exact if_pos hcall
  rw [SwapArea.step, hfinish] at h
  split_ifs at h

section Memory

/-- Every recorded block holds what is recorded for it, or has it under way. -/
structure Recorded (candidates : List Nat) (kv : TensorType → Hash → C) (s : SwapArea Query Hash C) : Prop where
  results : s.req.Results candidates
  onCandidates : ∀ block hash, s.req.preSwapAreaBlockHashes.get? block = some hash → block ∈ candidates
  held : ∀ block hash, s.req.preSwapAreaBlockHashes.get? block = some hash → ∀ tensor,
    s.cache tensor block = kv tensor hash ∨ ∃ w ∈ s.inFlight, w.tensor = tensor ∧ w.block = block
  underWay : ∀ w ∈ s.inFlight, w ∈ s.lastCall ∧ s.req.preSwapAreaBlockHashes.get? w.block = some w.hash

omit [DecidableEq Hash] in
theorem recorded_init (standby : Standby Query) (cache : TensorType → Nat → C) :
    Recorded candidates kv (init standby cache : SwapArea Query Hash C) where
  results _ _ h := by cases h
  onCandidates _ _ h := by cases h
  held _ _ h := by cases h
  underWay _ h := by cases h

omit [DecidableEq Hash] in
theorem Recorded.settled (h : Recorded candidates kv s) : Settled kv s := by
  intro hdone block hash hget tensor
  rcases h.held block hash hget tensor with hheld | ⟨w, hw, -⟩
  · exact hheld
  · exact absurd hw (hdone w (h.underWay w hw).1)

omit [DecidableEq Hash] in
theorem Recorded.of_same (h : Recorded candidates kv s) (hresults : s'.req.Results candidates)
    (hpre : s'.req.preSwapAreaBlockHashes = s.req.preSwapAreaBlockHashes) (hinFlight : s'.inFlight = s.inFlight)
    (hlast : s'.lastCall = s.lastCall)
    (hcache : ∀ tensor, ∀ block ∈ candidates, s'.cache tensor block = s.cache tensor block) :
    Recorded candidates kv s' := by
  constructor
  case results => exact hresults
  case onCandidates =>
    rw [hpre]
    exact h.onCandidates
  case held =>
    rw [hpre, hinFlight]
    intro block hash hget tensor
    rw [hcache tensor block (h.onCandidates block hash hget)]
    exact h.held block hash hget tensor
  case underWay =>
    rw [hpre, hinFlight, hlast]
    exact h.underWay

omit [DecidableEq Hash] in
/-- A write that lands brings what is recorded for its block. -/
theorem Recorded.lands (h : Recorded candidates kv s) {i : Nat} {w : Write Hash} (hi : s.inFlight[i]? = some w) :
    Recorded candidates kv { s with
      inFlight := s.inFlight.eraseIdx i
      cache := Function.update s.cache w.tensor
        (Function.update (s.cache w.tensor) w.block (kv w.tensor w.hash)) } := by
  have hmem := (h.underWay w (List.mem_of_getElem? hi)).2
  constructor
  case results => exact h.results
  case onCandidates => exact h.onCandidates
  case held =>
    intro block hash hget tensor
    by_cases hat : w.tensor = tensor ∧ w.block = block
    · obtain ⟨rfl, rfl⟩ := hat
      obtain rfl := Option.some.inj (hget.symm.trans hmem)
      left
      simp
    · rcases h.held block hash hget tensor with hheld | ⟨w', hw', ht, hb⟩
      · left
        rw [← hheld]
        by_cases ht : tensor = w.tensor
        · subst ht
          have hb : block ≠ w.block := fun hb => hat ⟨rfl, hb.symm⟩
          simp [Function.update_of_ne hb]
        · simp [Function.update_of_ne ht]
      · right
        refine ⟨w', ?_, ht, hb⟩
        obtain ⟨j, hj⟩ := List.mem_iff_getElem?.mp hw'
        have hne : j ≠ i := by
          rintro rfl
          obtain rfl := Option.some.inj (hi.symm.trans hj)
          exact hat ⟨ht, hb⟩
        exact List.mem_eraseIdx_iff_getElem?.mpr ⟨j, hne, hj⟩
  case underWay => exact fun w' hw' => h.underWay w' (List.mem_of_mem_eraseIdx hw')

theorem Recorded.hooked (h : Recorded candidates kv s) (hhook : Hooked layer candidates s e s')
    (hquiet : Quiet layer s e) (hcandidates : candidates.Nodup) : Recorded candidates kv s' := by
  cases hhook with
  | uncalled _ preSwap _ results inFlight lastCall cache =>
    exact h.of_same results preSwap inFlight lastCall fun _ _ _ => by rw [cache]
  | called hcall hashes transfer result results preSwap lastCall _ inFlight cache =>
    have hswap : Swapped s.req.preSwapAreaBlockHashes candidates hashes _ :=
      swapIn_swapped hcandidates (results _ _ result).2
    have hnone := hquiet hcall
    rw [hnone, List.nil_append] at inFlight
    constructor
    case results => exact results
    case onCandidates =>
      intro block hash hget
      rw [preSwap] at hget
      exact hswap.ids.mem_iff.mp (List.mem_map_of_mem (Dict.mem_items.mpr hget))
    case held =>
      intro block hash hget tensor
      rw [preSwap] at hget
      rw [cache, inFlight, lastCall]
      by_cases hold : s.req.preSwapAreaBlockHashes.get? block = some hash
      · rcases h.held block hash hold tensor with hheld | ⟨w, hw, -⟩
        · exact .inl hheld
        · rw [hnone] at hw
          cases hw
      · have hpair : (block, hash) ∈ unmatched s.req.preSwapAreaBlockHashes candidates hashes :=
          hswap.mem_zip_iff.mpr ⟨hget, hold⟩
        obtain ⟨w, hw, ht, hb, -⟩ := exists_mem_swapWrites_iff.mpr hpair
        exact .inr ⟨w, hw, ht, hb⟩
    case underWay =>
      intro w hw
      rw [inFlight] at hw
      refine ⟨hw, ?_⟩
      rw [lastCall] at hw
      rw [preSwap]
      exact (hswap.mem_zip_iff.mp (mem_swapWrites.mp hw).1).1

theorem Recorded.step (h : Recorded candidates kv s) (hstep : s.step layer candidates kv e = some s')
    (hsame : SamePrefix layer candidates s e) (hquiet : Quiet layer s e) (hcandidates : candidates.Nodup)
    (hfinds : layer.Finds candidates) : Recorded candidates kv s' := by
  cases e with
  | begin step => exact h.hooked (begin_hooked hstep hsame hfinds h.results).1 hquiet hcandidates
  | finish step => exact h.hooked (finish_hooked hstep hsame hfinds h.results).1 hquiet hcandidates
  | waited =>
    rw [SwapArea.step] at hstep
    split_ifs at hstep
    obtain rfl := Option.some.inj hstep
    exact h.of_same h.results rfl rfl rfl fun _ _ _ => rfl
  | lands i =>
    rw [SwapArea.step] at hstep
    obtain ⟨w, hi, rfl⟩ := Option.map_eq_some_iff.mp hstep
    exact h.lands hi
  | forward tensor block content =>
    rw [SwapArea.step] at hstep
    split_ifs at hstep with hblock
    obtain rfl := Option.some.inj hstep
    refine h.of_same h.results rfl rfl rfl fun tensor' block' hin => ?_
    have hne : block' ≠ block := fun heq => hblock (heq ▸ hin)
    by_cases ht : tensor' = tensor
    · subst ht
      simp [Function.update_of_ne hne]
    · simp [Function.update_of_ne ht]

theorem Hooked.exact (h : Hooked layer candidates s e s') (hcall : Calls layer s e) (hcandidates : candidates.Nodup) :
    ∃ hashes, Exact layer candidates s e s' hashes := by
  cases h with
  | uncalled hnot => exact absurd hcall hnot
  | called _ hashes transfer result results preSwap lastCall =>
    have hswap : Swapped s.req.preSwapAreaBlockHashes candidates hashes _ :=
      swapIn_swapped hcandidates (results _ _ result).2
    refine ⟨hashes, result, ?_, ?_, ⟨hcandidates, (results _ _ result).1⟩, ?_, ?_⟩
    · rw [preSwap]
      exact hswap.ids
    · rw [preSwap]
      exact hswap.hashes
    · intro tensor block hash
      rw [preSwap, lastCall, ← hswap.mem_zip_iff]
      exact exists_mem_swapWrites_iff
    · rw [lastCall]
      apply nodup_swapWrites
      rw [unmatched, List.map_fst_zip hswap.length_eq.le]
      exact hswap.nodup

end Memory

section Stride

/-- With a wait at the first step of every group of steps. -/
structure Drained (layer : Layer Hash) (candidates : List Nat) (s : SwapArea Query Hash C) : Prop where
  results : s.req.Results candidates
  waitedFor : ∀ w ∈ s.inFlight, w.transfer ∈ s.req.blkTransTasks.items.map Prod.snd
  attending : s.phase = .attending → s.req.blkTransTasks.items = []
  idle : s.phase = .idle →
    layer.blkRepre = none ∨ s.req.step = 0 ∨ s.req.step % layer.cfg.retrievalStride ≠ 0 →
      s.req.blkTransTasks.items = []

omit [DecidableEq Hash] in
theorem drained_init (standby : Standby Query) (cache : TensorType → Nat → C) :
    Drained layer candidates (init standby cache : SwapArea Query Hash C) where
  results _ _ h := by cases h
  waitedFor _ h := by cases h
  attending _ := rfl
  idle _ _ := rfl

omit [DecidableEq Hash] in
theorem Drained.inFlight_eq_nil (h : Drained layer candidates s) (htasks : s.req.blkTransTasks.items = []) :
    s.inFlight = [] := by
  apply List.eq_nil_iff_forall_not_mem.mpr
  intro w hw
  have hin := h.waitedFor w hw
  rw [htasks] at hin
  cases hin

theorem Drained.quiet (h : Drained layer candidates s) (hstep : s.step layer candidates kv e = some s') :
    Quiet layer s e := by
  intro hcall
  apply h.inFlight_eq_nil
  cases e with
  | begin step =>
    rw [SwapArea.step] at hstep
    split_ifs at hstep with hphase
    exact h.idle hphase (.inr (.inl hcall.2))
  | finish step =>
    rw [SwapArea.step] at hstep
    split_ifs at hstep with hphase
    exact h.attending hphase
  | waited => exact absurd hcall not_false
  | lands i => exact absurd hcall not_false
  | forward tensor block content => exact absurd hcall not_false

/-- The writes under way after a hook that asks for blocks only when nothing is under way. -/
theorem Drained.waitedFor_hooked (h : Drained layer candidates s) (hhook : Hooked layer candidates s e s')
    (hcalls : Calls layer s e → s.req.blkTransTasks.items = [])
    (hkeys : ∀ hashes, layer.blkTransTaskHash hashes .key ≠ layer.blkTransTaskHash hashes .value) :
    ∀ w ∈ s'.inFlight, w.transfer ∈ s'.req.blkTransTasks.items.map Prod.snd := by
  cases hhook with
  | uncalled _ _ tasks _ inFlight =>
    rw [inFlight, tasks]
    exact h.waitedFor
  | called hcall hashes transfer _ _ _ _ tasks inFlight =>
    rw [inFlight, h.inFlight_eq_nil (hcalls hcall), List.nil_append]
    exact tasks (hcalls hcall) hkeys

theorem Hooked.results (h : Hooked layer candidates s e s') : s'.req.Results candidates := by
  cases h with
  | uncalled _ _ _ results => exact results
  | called _ _ _ _ results => exact results

theorem Hooked.tasks (h : Hooked layer candidates s e s') (hcall : ¬ Calls layer s e) :
    s'.req.blkTransTasks = s.req.blkTransTasks := by
  cases h with
  | uncalled _ _ tasks => exact tasks
  | called hcall' => exact absurd hcall' hcall

theorem Drained.begin {step : DecodeStep Query} (h : Drained layer candidates s)
    (hstep : s.step layer candidates kv (.begin step) = some s')
    (hsame : SamePrefix layer candidates s (.begin step)) (hfinds : layer.Finds candidates)
    (hstride : 2 ≤ layer.cfg.retrievalStride)
    (hkeys : ∀ hashes, layer.blkTransTaskHash hashes .key ≠ layer.blkTransTaskHash hashes .value) :
    Drained layer candidates s' := by
  obtain ⟨hhook, hidle, hnext, hphase⟩ := begin_hooked hstep hsame hfinds h.results
  constructor
  case results => exact hhook.results
  case waitedFor => exact h.waitedFor_hooked hhook (fun hcall => h.idle hidle (.inr (.inl hcall.2))) hkeys
  case attending =>
    intro hatt
    have hnot : ¬ s'.req.WaitsAtBegin layer := by
      intro hwaits
      rw [hphase, if_pos hwaits] at hatt
      cases hatt
    have hother : ¬ Calls layer s (.begin step) := by
      intro hcall
      refine hnot ⟨hcall.1, ?_⟩
      rw [hnext, hcall.2, Nat.mod_eq_of_lt hstride]
    rw [hhook.tasks hother]
    apply h.idle hidle
    by_cases hrepre : layer.blkRepre = none
    · exact .inl hrepre
    · refine .inr (.inr fun hmod => hnot ⟨hrepre, ?_⟩)
      rw [hnext, Nat.add_mod, hmod, Nat.zero_add, Nat.mod_mod, Nat.mod_eq_of_lt hstride]
  case idle =>
    intro hidle'
    rw [hphase] at hidle'
    split_ifs at hidle'

theorem Drained.finish {step : DecodeStep Query} (h : Drained layer candidates s)
    (hstep : s.step layer candidates kv (.finish step) = some s')
    (hsame : SamePrefix layer candidates s (.finish step)) (hfinds : layer.Finds candidates)
    (hkeys : ∀ hashes, layer.blkTransTaskHash hashes .key ≠ layer.blkTransTaskHash hashes .value) :
    Drained layer candidates s' := by
  obtain ⟨hhook, hatt, hnext, hphase⟩ := finish_hooked hstep hsame hfinds h.results
  have hempty := h.attending hatt
  constructor
  case results => exact hhook.results
  case waitedFor => exact h.waitedFor_hooked hhook (fun _ => hempty) hkeys
  case attending =>
    intro hatt'
    rw [hphase] at hatt'
    cases hatt'
  case idle =>
    intro _ hbetween
    have hother : ¬ Calls layer s (.finish step) := by
      intro hcall
      rw [hnext] at hbetween
      rcases hbetween with hrepre | hzero | hmod
      · exact blkRepre_of_finish hstep hcall hrepre
      · have hle : s.req.step ≥ layer.cfg.retrievalStride * 2 := hcall.1
        have hpos := layer.cfg.stride_pos
        omega
      · exact hmod hcall.2
    rw [hhook.tasks hother]
    exact hempty

theorem Drained.step (h : Drained layer candidates s) (hstep : s.step layer candidates kv e = some s')
    (hsame : SamePrefix layer candidates s e) (hfinds : layer.Finds candidates)
    (hstride : 2 ≤ layer.cfg.retrievalStride)
    (hkeys : ∀ hashes, layer.blkTransTaskHash hashes .key ≠ layer.blkTransTaskHash hashes .value) :
    Drained layer candidates s' := by
  cases e with
  | begin step => exact h.begin hstep hsame hfinds hstride hkeys
  | finish step => exact h.finish hstep hsame hfinds hkeys
  | waited =>
    rw [SwapArea.step] at hstep
    split_ifs at hstep with hwaits
    obtain rfl := Option.some.inj hstep
    refine ⟨h.results, ?_, fun _ => rfl, fun hidle => by cases hidle⟩
    intro w hw
    exact absurd (h.waitedFor w hw) (hwaits.2 w hw)
  | lands i =>
    rw [SwapArea.step] at hstep
    obtain ⟨w, -, rfl⟩ := Option.map_eq_some_iff.mp hstep
    exact ⟨h.results, fun w' hw' => h.waitedFor w' (List.mem_of_mem_eraseIdx hw'), h.attending, h.idle⟩
  | forward tensor block content =>
    rw [SwapArea.step] at hstep
    split_ifs at hstep
    obtain rfl := Option.some.inj hstep
    exact ⟨h.results, h.waitedFor, h.attending, h.idle⟩

end Stride

theorem results_step (h : s.req.Results candidates) (hstep : s.step layer candidates kv e = some s')
    (hsame : SamePrefix layer candidates s e) (hfinds : layer.Finds candidates) : s'.req.Results candidates := by
  cases e with
  | begin step => exact (begin_hooked hstep hsame hfinds h).1.results
  | finish step => exact (finish_hooked hstep hsame hfinds h).1.results
  | waited =>
    rw [SwapArea.step] at hstep
    split_ifs at hstep
    obtain rfl := Option.some.inj hstep
    exact h
  | lands i =>
    rw [SwapArea.step] at hstep
    obtain ⟨w, -, rfl⟩ := Option.map_eq_some_iff.mp hstep
    exact h
  | forward tensor block content =>
    rw [SwapArea.step] at hstep
    split_ifs at hstep
    obtain rfl := Option.some.inj hstep
    exact h

theorem step_exact (h : s.req.Results candidates) (hstep : s.step layer candidates kv e = some s')
    (hsame : SamePrefix layer candidates s e) (hfinds : layer.Finds candidates) (hcandidates : candidates.Nodup)
    (hcall : Calls layer s e) : ∃ hashes, Exact layer candidates s e s' hashes := by
  cases e with
  | begin step => exact (begin_hooked hstep hsame hfinds h).1.exact hcall hcandidates
  | finish step => exact (finish_hooked hstep hsame hfinds h).1.exact hcall hcandidates
  | waited => exact absurd hcall not_false
  | lands i => exact absurd hcall not_false
  | forward tensor block content => exact absurd hcall not_false

end SwapArea

open SwapArea

/-- In every run a call records a bijection onto the result that it consumes and asks for what was not
there. In the runs in which no write is under way at a call, the blocks also hold what is recorded for
them once the transfer is done; those are all runs when the stride is at least two. -/
theorem swapArea_exact (layer : Layer Hash) (candidates : List Nat) (kv : TensorType → Hash → C)
    (hcandidates : candidates.Nodup) (hfinds : layer.Finds candidates) (standby : Standby Query)
    (cache : TensorType → Nat → C) :
    (∀ s, Reach (step layer candidates kv) (SamePrefix layer candidates) (init standby cache) s →
      ∀ e s', SamePrefix layer candidates s e → s.step layer candidates kv e = some s' → Calls layer s e →
        ∃ hashes, Exact layer candidates s e s' hashes) ∧
    (∀ s, Reach (step layer candidates kv) (fun s e => SamePrefix layer candidates s e ∧ Quiet layer s e)
      (init standby cache) s → Settled kv s) ∧
    (2 ≤ layer.cfg.retrievalStride →
      (∀ hashes, layer.blkTransTaskHash hashes .key ≠ layer.blkTransTaskHash hashes .value) →
      ∀ s, Reach (step layer candidates kv) (SamePrefix layer candidates) (init standby cache) s →
        ∀ e s', s.step layer candidates kv e = some s' → Quiet layer s e) := by
  refine ⟨?_, ?_, ?_⟩
  · intro s hreach e s' hsame hstep hcall
    have hresults : s.req.Results candidates :=
      hreach.invariant (fun s => s.req.Results candidates) (fun _ _ h => by cases h)
        fun _ _ _ h hsame hstep => results_step h hstep hsame hfinds
    exact step_exact hresults hstep hsame hfinds hcandidates hcall
  · intro s hreach
    have hrecorded : Recorded candidates kv s :=
      hreach.invariant (Recorded candidates kv) (recorded_init standby cache)
        fun _ _ _ h hguard hstep => h.step hstep hguard.1 hguard.2 hcandidates hfinds
    exact hrecorded.settled
  · intro hstride hkeys s hreach e s' hstep
    have hdrained : Drained layer candidates s :=
      hreach.invariant (Drained layer candidates) (drained_init standby cache)
        fun _ _ _ h hsame hstep => h.step hstep hsame hfinds hstride hkeys
    exact hdrained.quiet hstep

theorem finds_strideTwo : strideTwo.Finds [11, 12] := by
  intro task topkIndices hashes htask hmap
  obtain rfl := Option.some.inj htask
  rcases Nat.mod_two_eq_zero_or_one task with hmod | hmod
  · rw [hmod] at hmap
    obtain rfl := Option.some.inj hmap
    decide
  · rw [hmod] at hmap
    obtain rfl := Option.some.inj hmap
    decide

/-- Four steps with the writes of the first call, before the second call. -/
def fourSteps : List (Event Nat Nat) :=
  [.begin oneToken, .lands 0, .lands 0, .lands 0, .lands 0, .waited, .finish oneToken, .begin oneToken,
    .finish oneToken, .begin oneToken, .waited, .finish oneToken, .begin oneToken, .finish oneToken]

theorem swapArea_exact_strideTwo :
    (∀ s, Reach (step strideTwo [11, 12] fun _ hash => hash) (SamePrefix strideTwo [11, 12])
      (init promptQueries fun _ _ => 0) s → ∀ e s', s.step strideTwo [11, 12] (fun _ hash => hash) e = some s' →
        Quiet strideTwo s e) ∧
    ((run (step strideTwo [11, 12] fun _ hash => hash) (init promptQueries fun _ _ => 0) fourSteps).map
      fun s => (s.req.preSwapAreaBlockHashes.items, s.inFlight.length)) = some ([(12, 102), (11, 103)], 2) :=
  ⟨(swapArea_exact strideTwo [11, 12] (fun _ hash => hash) (by decide) finds_strideTwo promptQueries
    fun _ _ => 0).2.2 le_rfl fun hashes h => by simp [strideTwo] at h, by decide⟩

/-- One candidate, and a retrieval after every step. -/
def strideOne : Layer Nat where
  cfg := ⟨1, Nat.one_pos, 1, 1, 1, Nat.one_pos, id, Nat.le_refl⟩
  blockHashes := [100, 101, 102, 103]
  blkRepre := some 1
  getTaskResult task := some [task % 2]
  blkTransTaskHash hashes tensor := if tensor = .key then 2 * hashes.sum else 2 * hashes.sum + 1

/-- The writes of the second call land before those of the first. -/
def overtaken : List (Event Nat Nat) :=
  [.begin oneToken, .finish oneToken, .begin oneToken, .finish oneToken, .lands 2, .lands 2, .lands 0, .lands 0]

theorem not_settled_overtaken :
    ¬ ∀ s, Reach (step strideOne [11] fun _ hash => hash) (SamePrefix strideOne [11])
      (init promptQueries fun _ _ => 0) s → Settled (fun _ hash => hash) s := by
  intro hsettled
  have hrun : ((run (step strideOne [11] fun _ hash => hash) (init promptQueries fun _ _ => 0) overtaken).map
      fun s => (s.inFlight, s.req.preSwapAreaBlockHashes.get? 11, s.cache .key 11)) = some ([], some 101, 102) := by
    decide
  obtain ⟨s, hs, heq⟩ := Option.map_eq_some_iff.mp hrun
  obtain ⟨hinFlight, hget, hcache⟩ : s.inFlight = [] ∧ s.req.preSwapAreaBlockHashes.get? 11 = some 101 ∧
    s.cache .key 11 = 102 := by simpa only [Prod.mk.injEq] using heq
  have hcandidates : ∀ numRepre, strideOne.blkRepre = some numRepre →
      strideOne.cfg.getRetrieveCandidateBlockIds numRepre oneToken.vllmBlockIds = [11] := by
    intro numRepre hrepre
    obtain rfl := Option.some.inj hrepre
    decide
  have hsame : ∀ s : SwapArea Nat Nat Nat, ∀ e ∈ overtaken, SamePrefix strideOne [11] s e := by
    intro s e he
    cases e with
    | begin step =>
      obtain rfl : step = oneToken := by simpa [overtaken] using he
      exact hcandidates
    | finish step =>
      obtain rfl : step = oneToken := by simpa [overtaken] using he
      exact hcandidates
    | waited => trivial
    | lands i => trivial
    | forward tensor block content => trivial
  have hheld := hsettled s (Reach.start.run hsame hs) (by rw [hinFlight]; simp) 11 101 hget .key
  rw [hcache] at hheld
  cases hheld

end UnifiedCache.Sparse.KvstarMultiStep
