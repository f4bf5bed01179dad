import UnifiedCache.Connector.Dispatch
import UnifiedCache.Lib.StepSystem

/-! The scheduler and the connector together. A waiting request is matched, any number of
times, before an output schedules it; a preempted one goes through the same again, with
another block table. -/

namespace UnifiedCache.Connector

variable {Token BlockId ReqId : Type*}

inductive Phase where
  | waiting
  | running
  | preempted
  deriving DecidableEq

structure RequestState where
  phase : Phase
  matched : Bool
  blockTable : List Nat
  numComputedTokens : Nat

def RequestState.initial : RequestState := ⟨.waiting, false, [], 0⟩

structure State (BlockId ReqId : Type*) where
  requestsMeta : Dict ReqId (RequestMeta BlockId)
  requests : ReqId → RequestState

def State.initial : State BlockId ReqId := ⟨Dict.empty, fun _ => .initial⟩

/-- A request of a scheduler output, with the phase that it comes from. -/
structure Entry (ReqId : Type*) where
  reqId : ReqId
  blockIds : List Nat
  phase : Phase

def Entry.needLoad (e : Entry ReqId) : Bool := decide (e.phase ≠ .running)

def NewRequest.entry (request : NewRequest ReqId) : Entry ReqId := ⟨request.reqId, request.blockIds, .waiting⟩

def CachedRequest.entry (request : CachedRequest ReqId) : Entry ReqId where
  reqId := request.reqId
  blockIds := request.newBlockIds.getD []
  phase := if request.resumedFromPreemption then .preempted else .running

theorem CachedRequest.needLoad_entry (request : CachedRequest ReqId) :
    request.entry.needLoad = request.resumedFromPreemption := by
  cases h : request.resumedFromPreemption <;> simp [entry, Entry.needLoad, h]

/-- What becomes of a request that is scheduled with `newTokens` tokens. -/
def RequestState.advance (request : RequestState) (e : Entry ReqId) (newTokens : Nat) : RequestState where
  phase := .running
  matched := false
  blockTable := if e.phase = .running then request.blockTable ++ e.blockIds else e.blockIds
  numComputedTokens := request.numComputedTokens + newTokens

namespace SchedulerOutput

variable (out : SchedulerOutput ReqId)

def entries : List (Entry ReqId) :=
  out.scheduledNewReqs.map NewRequest.entry ++ out.scheduledCachedReqs.map CachedRequest.entry

/-- New and resumed requests are matched before. -/
def Allowed (requests : ReqId → RequestState) : Prop :=
  (out.entries.map Entry.reqId).Nodup ∧
    (∀ e ∈ out.entries, (requests e.reqId).phase = e.phase ∧
      (e.phase ≠ .running → (requests e.reqId).matched = true)) ∧
    ∀ reqId ∈ out.finishedReqIds, reqId ∉ out.entries.map Entry.reqId

variable [DecidableEq ReqId]

instance (requests : ReqId → RequestState) : Decidable (out.Allowed requests) :=
  inferInstanceAs (Decidable (_ ∧ _ ∧ _))

def entry? (reqId : ReqId) : Option (Entry ReqId) := out.entries.find? fun e => e.reqId = reqId

variable {out} {reqId : ReqId} {e : Entry ReqId}

theorem mem_of_entry? (h : out.entry? reqId = some e) : e ∈ out.entries ∧ e.reqId = reqId :=
  ⟨List.mem_of_find?_eq_some h, by simpa using List.find?_some h⟩

end SchedulerOutput

section Build

variable [DecidableEq ReqId] {blockSize : Nat} {out : SchedulerOutput ReqId}

def dispatchEntry (blockSize : Nat) (out : SchedulerOutput ReqId) (built : Built BlockId ReqId) (e : Entry ReqId) :
    Built BlockId ReqId :=
  dispatchRequest blockSize out built e.reqId e.blockIds e.needLoad

theorem buildConnectorMeta_eq (requestsMeta : Dict ReqId (RequestMeta BlockId)) :
    buildConnectorMeta blockSize out requestsMeta =
      ((out.entries.foldl (dispatchEntry blockSize out) (Dict.empty, requestsMeta)).1,
        out.finishedReqIds.foldl Dict.pop
          (out.entries.foldl (dispatchEntry blockSize out) (Dict.empty, requestsMeta)).2) := by
  simp only [buildConnectorMeta, SchedulerOutput.entries, List.foldl_append, List.foldl_map, dispatchEntry,
    CachedRequest.needLoad_entry]
  rfl

/-- What the entry of a request makes of its data. -/
def dispatchMeta (blockSize : Nat) (out : SchedulerOutput ReqId) (reqMeta : Option (RequestMeta BlockId))
    (e : Option (Entry ReqId)) : Option (RequestDispatchMeta BlockId × RequestMeta BlockId) :=
  e.bind fun e => reqMeta.map fun reqMeta =>
    generateDispatchMeta blockSize reqMeta (out.numScheduledTokens e.reqId) e.blockIds e.needLoad

theorem get?_dispatchEntry (blockSize : Nat) (out : SchedulerOutput ReqId) (built : Built BlockId ReqId) (e : Entry ReqId) (reqId : ReqId) :
    let dispatched := dispatchMeta blockSize out (built.2.get? reqId) (if e.reqId = reqId then some e else none)
    (dispatchEntry blockSize out built e).1.get? reqId = (dispatched.map Prod.fst).or (built.1.get? reqId) ∧
      (dispatchEntry blockSize out built e).2.get? reqId =
        (dispatched.map Prod.snd).or (built.2.get? reqId) := by
  unfold dispatchEntry dispatchRequest
  by_cases he : e.reqId = reqId
  · subst he
    cases hm : built.2.get? e.reqId with
    | none => simp [dispatchMeta, hm]
    | some reqMeta => simp [dispatchMeta, Dict.get?_set]
  · cases hm : built.2.get? e.reqId with
    | none => simp [dispatchMeta, he]
    | some reqMeta => simp [dispatchMeta, Dict.get?_set, he, Ne.symm he]

/-- Every request of an output is dispatched on its own data. -/
theorem get?_foldl_dispatchEntry (blockSize : Nat) (out : SchedulerOutput ReqId) (es : List (Entry ReqId)) (hes : (es.map Entry.reqId).Nodup)
    (built : Built BlockId ReqId) (reqId : ReqId) :
    let dispatched := dispatchMeta blockSize out (built.2.get? reqId) (es.find? fun e => e.reqId = reqId)
    (es.foldl (dispatchEntry blockSize out) built).1.get? reqId =
        (dispatched.map Prod.fst).or (built.1.get? reqId) ∧
      (es.foldl (dispatchEntry blockSize out) built).2.get? reqId =
        (dispatched.map Prod.snd).or (built.2.get? reqId) := by
  induction es generalizing built with
  | nil => simp [dispatchMeta]
  | cons e es ih =>
    obtain ⟨hnew, hes⟩ := List.nodup_cons.mp hes
    obtain ⟨hfst, hsnd⟩ := get?_dispatchEntry blockSize out built e reqId
    have ih := ih hes (dispatchEntry blockSize out built e)
    rw [List.foldl_cons]
    by_cases he : e.reqId = reqId
    · have hnone : (es.find? fun e => e.reqId = reqId) = none := by
        rw [List.find?_eq_none]
        intro e' hmem
        simpa using fun h => hnew (List.mem_map.mpr ⟨e', hmem, h.trans he.symm⟩)
      rw [hnone] at ih
      rw [if_pos he] at hfst hsnd
      rw [List.find?_cons_of_pos (by simpa using he)]
      exact ⟨ih.1.trans hfst, ih.2.trans hsnd⟩
    · rw [if_neg he] at hfst hsnd
      rw [hfst, hsnd] at ih
      rw [List.find?_cons_of_neg (by simpa using he)]
      exact ih

theorem get?_buildConnectorMeta {requests : ReqId → RequestState} (ha : out.Allowed requests)
    (requestsMeta : Dict ReqId (RequestMeta BlockId)) (reqId : ReqId) :
    (buildConnectorMeta blockSize out requestsMeta).1.get? reqId =
        (dispatchMeta blockSize out (requestsMeta.get? reqId) (out.entry? reqId)).map Prod.fst ∧
      (buildConnectorMeta blockSize out requestsMeta).2.get? reqId =
        if reqId ∈ out.finishedReqIds then none
        else ((dispatchMeta blockSize out (requestsMeta.get? reqId) (out.entry? reqId)).map Prod.snd).or
          (requestsMeta.get? reqId) := by
  obtain ⟨hfst, hsnd⟩ := get?_foldl_dispatchEntry blockSize out out.entries ha.1
    (Dict.empty, requestsMeta) reqId
  rw [buildConnectorMeta_eq]
  constructor
  · rw [hfst, Dict.get?_empty, Option.or_none]
    rfl
  · rw [Dict.get?_foldl_pop, hsnd]
    rfl

end Build

section Step

variable [DecidableEq ReqId] (config : Config Token BlockId)

inductive Event (Token BlockId ReqId : Type*) where
  | matched (request : Request Token ReqId) (numComputedTokens : Nat) (lookup : Lookup BlockId)
  | preempt (reqId : ReqId)
  | schedule (out : SchedulerOutput ReqId)

def step (s : State BlockId ReqId) : Event Token BlockId ReqId → Option (State BlockId ReqId)
  | .matched request numComputedTokens lookup =>
    if (s.requests request.requestId).phase = .running then none
    else
      (getNumNewMatchedTokens config s.requestsMeta request numComputedTokens lookup).map fun result =>
        { requestsMeta := result.2
          requests := Function.update s.requests request.requestId
            { s.requests request.requestId with
              matched := true
              numComputedTokens := (numComputedTokens + result.1 : Int).toNat } }
  | .preempt reqId =>
    if (s.requests reqId).phase = .running then
      some { s with requests := Function.update s.requests reqId ⟨.preempted, false, [], 0⟩ }
    else none
  | .schedule out =>
    if out.Allowed s.requests then
      some
        { requestsMeta := (buildConnectorMeta config.blockSize out s.requestsMeta).2
          requests := fun reqId => match out.entry? reqId with
            | some e => (s.requests reqId).advance e (out.numScheduledTokens reqId)
            | none => if reqId ∈ out.finishedReqIds then .initial else s.requests reqId }
    else none

/-- What an output has a request load and dump. -/
def dispatched (s : State BlockId ReqId) (out : SchedulerOutput ReqId) (reqId : ReqId) :
    Option (RequestDispatchMeta BlockId) :=
  (buildConnectorMeta config.blockSize out s.requestsMeta).1.get? reqId

variable {config} {s s' : State BlockId ReqId} {out : SchedulerOutput ReqId}

theorem step_matched {request : Request Token ReqId} {numComputedTokens : Nat} {lookup : Lookup BlockId}
    (hs : step config s (.matched request numComputedTokens lookup) = some s') :
    (s.requests request.requestId).phase ≠ .running ∧ ∃ v,
      getNumNewMatchedTokens config s.requestsMeta request numComputedTokens lookup = some (v, s'.requestsMeta) ∧
        s'.requests = Function.update s.requests request.requestId
          { s.requests request.requestId with
            matched := true
            numComputedTokens := (numComputedTokens + v : Int).toNat } := by
  simp only [step] at hs
  split_ifs at hs with hphase
  obtain ⟨⟨v, requestsMeta⟩, hv, rfl⟩ := Option.map_eq_some_iff.mp hs
  exact ⟨hphase, v, hv, rfl⟩

theorem step_preempt {reqId : ReqId} (hs : step config s (.preempt reqId) = some s') :
    (s.requests reqId).phase = .running ∧
      s' = { s with requests := Function.update s.requests reqId ⟨.preempted, false, [], 0⟩ } := by
  simp only [step] at hs
  split_ifs at hs with hphase
  exact ⟨hphase, (Option.some.inj hs).symm⟩

theorem step_schedule (hs : step config s (.schedule out) = some s') :
    out.Allowed s.requests ∧
      (∀ reqId, s'.requestsMeta.get? reqId =
        if reqId ∈ out.finishedReqIds then none
        else ((dispatchMeta config.blockSize out (s.requestsMeta.get? reqId) (out.entry? reqId)).map Prod.snd).or
          (s.requestsMeta.get? reqId)) ∧
      ∀ reqId, s'.requests reqId = match out.entry? reqId with
        | some e => (s.requests reqId).advance e (out.numScheduledTokens reqId)
        | none => if reqId ∈ out.finishedReqIds then .initial else s.requests reqId := by
  simp only [step] at hs
  split_ifs at hs with ha
  obtain rfl := Option.some.inj hs
  exact ⟨ha, fun reqId => (get?_buildConnectorMeta ha s.requestsMeta reqId).2, fun _ => rfl⟩

theorem dispatched_eq (ha : out.Allowed s.requests) (reqId : ReqId) :
    dispatched config s out reqId =
      (dispatchMeta config.blockSize out (s.requestsMeta.get? reqId) (out.entry? reqId)).map Prod.fst :=
  (get?_buildConnectorMeta ha s.requestsMeta reqId).1

end Step

/-- Blocks of two tokens, with the block ids numbered from one. -/
def Config.pairs : Config Nat Nat := ⟨2, by decide, fun p => p.1 + 1, 0⟩

/-- Nothing is found. -/
def missAll : Lookup Nat := fun blockIds => some ⟨blockIds.map fun _ => false, List.length_map _⟩

def fiveTokens : Request Nat Nat := ⟨0, [1, 2, 3, 4, 5]⟩

def scheduleNew (blockIds : List Nat) (newTokens : Nat) : SchedulerOutput Nat :=
  ⟨[⟨0, blockIds⟩], [], fun _ => newTokens, []⟩

def scheduleResumed (blockIds : List Nat) (newTokens : Nat) : SchedulerOutput Nat :=
  ⟨[], [⟨0, some blockIds, true⟩], fun _ => newTokens, []⟩

/-- The block that is hashed first is found. -/
def hitFirst : Lookup Nat := fun blockIds => some ⟨blockIds.map fun blockId => blockId == 1, List.length_map _⟩

def scheduleRunning (blockIds : List Nat) (newTokens : Nat) : SchedulerOutput Nat :=
  ⟨[], [⟨0, some blockIds, false⟩], fun _ => newTokens, []⟩

end UnifiedCache.Connector
