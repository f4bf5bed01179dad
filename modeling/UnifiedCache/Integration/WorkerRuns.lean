import UnifiedCache.Integration.WorkerInputs
import UnifiedCache.Lib.StepSystem

/-! Runs of the scheduler with its worker: requests come and go, passes are made, and the engine advances the
requests. -/

namespace UnifiedCache.Integration

open StepSystem

inductive Event (ReqId Kv : Type) where
  | addRequest (request : Request ReqId)
  | schedule
  | progress (r : ReqId) (request : Request ReqId)
  | finish (r : ReqId)
  | manage (kv : Kv)

variable {ReqId Group Queue Kv Rest : Type} [DecidableEq ReqId] (vllm : Vllm ReqId Group Queue Kv)
  (config : SchedulerConfig) (contents : Queue → Multiset ReqId) (ops : BatchOps ReqId Group Rest)

/-- A request leaves its queue and is freed. -/
def Scheduler.finish (s : Scheduler ReqId Queue Kv) (r : ReqId) : Scheduler ReqId Queue Kv :=
  Scheduler.freeRequest vllm config
    (if r ∈ s.running then { s with running := s.running.erase r }
    else { s with waiting := vllm.removeRequest s.waiting r }) r

/-- The worker executes what a pass hands over. Of the rest, `progress` and `manage` are what the engine does to a
running request after a run of the model, and to the managers. -/
def step (σ : Scheduler ReqId Queue Kv × GPUModelRunner ReqId Group Rest) :
    Event ReqId Kv → Option (Scheduler ReqId Queue Kv × GPUModelRunner ReqId Group Rest)
  | .addRequest request => some (σ.1.addRequest vllm config request, σ.2)
  | .schedule =>
    match σ.1.schedule vllm config with
    | .error _ => none
    | .ok (o, s') => (σ.2.updateStates ops o).map fun w => (s', w)
  | .progress r request => some ({ σ.1 with requests := Function.update σ.1.requests r request }, σ.2)
  | .finish r => some (σ.1.finish vllm config r, σ.2)
  | .manage kv => some ({ σ.1 with kv := kv }, σ.2)

/-- A new request has an id of its own, what is advanced runs, what has finished was there, and the managers move no
blocks by themselves. -/
def Allowed (σ : Scheduler ReqId Queue Kv × GPUModelRunner ReqId Group Rest) : Event ReqId Kv → Prop
  | .addRequest request => request.requestId ∉ σ.1.live contents ∧ request.Sound config request.requestId ∧
    request.Waits ∧
      request.status ≠ .preempted
  | .schedule => config.policy = .fcfs ∨ σ.1.RevokesNone vllm config
  | .progress r request => r ∈ σ.1.running ∧ request.Sound config r ∧ request.Runs config
  | .finish r => r ∈ σ.1.live contents
  | .manage kv => vllm.getBlockIds kv = vllm.getBlockIds σ.1.kv

/-- What the scheduler and the worker start from. -/
structure Starts (spec : KvCacheSpec Group) (σ : Scheduler ReqId Queue Kv × GPUModelRunner ReqId Group Rest)
    : Prop where
  waiting : contents σ.1.waiting = 0
  running : σ.1.running = []
  finished : σ.1.finishedReqIds = []
  requests : σ.2.requests = Dict.empty
  valid : σ.2.inputBatch.Valid spec
  empty : σ.2.inputBatch.reqIdToIndex = Dict.empty

/-- All that is promised of the code that is not here. -/
structure Promises (spec : KvCacheSpec Group) (maxModelLen : Nat) : Prop where
  queue : QueueLaws vllm contents
  count : CountLaws vllm
  kv : KvLaws vllm config spec
  output : OutputLaws vllm
  batch : BatchLaws ops spec config.maxNumRunningReqs
  budget : 0 ≤ config.maxNumScheduledTokens
  modelLen : config.maxModelLen = maxModelLen

variable {vllm config contents ops} {spec : KvCacheSpec Group} {maxModelLen : Nat} {s : Scheduler ReqId Queue Kv}
  {w : GPUModelRunner ReqId Group Rest} {σ₀ σ : Scheduler ReqId Queue Kv × GPUModelRunner ReqId Group Rest} {r : ReqId}

theorem Starts.inv (h : Starts contents spec σ) : σ.1.Inv config contents ∧ Agrees vllm contents spec σ.1 σ.2 := by
  have hlive : σ.1.live contents = 0 := by
    rw [Scheduler.live, h.waiting, h.running]
    rfl
  have hnone : ∀ r, σ.2.inputBatch.row r = none := by
    intro r
    rw [InputBatch.row, h.empty]
    rfl
  refine ⟨⟨hlive ▸ Multiset.nodup_zero, fun r hr => ?_, fun r hr => ?_, fun r hr => ?_, ?_⟩,
    ⟨h.valid, fun r state hstate => ?_, fun r hr => ?_, fun r hr => ?_, fun r row hrow => ?_, fun r hr => ?_⟩⟩
  · exact absurd (hlive ▸ hr) (Multiset.notMem_zero r)
  · exact absurd (h.waiting ▸ hr) (Multiset.notMem_zero r)
  · exact absurd (h.running ▸ hr) List.not_mem_nil
  · rw [h.running]
    exact Nat.zero_le _
  · rw [h.requests] at hstate
    cases hstate
  · exact absurd (h.running ▸ hr) List.not_mem_nil
  · exact absurd (h.waiting ▸ hr) (Multiset.notMem_zero r)
  · rw [hnone] at hrow
    cases hrow
  · exact absurd (h.finished ▸ hr) List.not_mem_nil

namespace Scheduler

omit [DecidableEq ReqId] in
theorem Inv.running_nodup (h : s.Inv config contents) : s.running.Nodup := by
  have hnodup := h.nodup
  rw [Scheduler.live, Multiset.nodup_add] at hnodup
  exact hnodup.2.1

omit [DecidableEq ReqId] in
theorem Inv.notMem_running (h : s.Inv config contents) (hr : r ∈ contents s.waiting) : r ∉ s.running := by
  have hnodup := h.nodup
  rw [Scheduler.live, Multiset.nodup_add] at hnodup
  exact fun hrun => Multiset.disjoint_left.mp hnodup.2.2 hr hrun

end Scheduler

/-- A new request waits. -/
theorem Scheduler.Inv.addRequest (hqueue : QueueLaws vllm contents) (hkv : KvLaws vllm config spec)
    (h : s.Inv config contents) (ha : Agrees vllm contents spec s w) {request : Request ReqId}
    (hnew : request.requestId ∉ s.live contents) (hsound : request.Sound config request.requestId)
    (hwaits : request.Waits) (hstatus : request.status ≠ .preempted) :
    (s.addRequest vllm config request).Inv config contents ∧
      Agrees vllm contents spec (s.addRequest vllm config request) w := by
  have hcontents : contents (s.addRequest vllm config request).waiting = request.requestId ::ₘ contents s.waiting :=
    hqueue.add s.waiting request
  have hlive : (s.addRequest vllm config request).live contents = request.requestId ::ₘ s.live contents := by
    rw [Scheduler.live, hcontents, Multiset.cons_add]
    rfl
  have hself : (s.addRequest vllm config request).requests request.requestId = request := Function.update_self ..
  have hother : ∀ r, r ∈ s.live contents → (s.addRequest vllm config request).requests r = s.requests r := by
    intro r hr
    have hne : r ≠ request.requestId := fun heq => hnew (heq ▸ hr)
    exact Function.update_of_ne hne ..
  have hblocks : vllm.getBlockIds (s.addRequest vllm config request).kv = vllm.getBlockIds s.kv := by
    show vllm.getBlockIds (if config.ucmSparse then vllm.requestBegin s.kv request else s.kv) = _
    split_ifs
    · exact hkv.begun s.kv request
    · rfl
  have hwaiting : ∀ r ∈ contents s.waiting, r ∈ s.live contents := fun r hr => Multiset.mem_add.mpr (.inl hr)
  have hrunning : ∀ r ∈ s.running, r ∈ s.live contents := fun r hr => Multiset.mem_add.mpr (.inr hr)
  refine ⟨⟨?_, fun r hr => ?_, fun r hr => ?_, fun r hr => ?_, h.room⟩,
    ⟨ha.valid, ha.ids, fun r hr => ?_, fun r hr hpre => ?_, fun r row hrow => ?_, fun r hr => ?_⟩⟩
  · rw [hlive]
    exact Multiset.nodup_cons.mpr ⟨hnew, h.nodup⟩
  · rw [hlive] at hr
    rcases Multiset.mem_cons.mp hr with rfl | hr
    · rw [hself]
      exact hsound
    · rw [hother r hr]
      exact h.sound r hr
  · rw [hcontents] at hr
    rcases Multiset.mem_cons.mp hr with rfl | hr
    · rw [hself]
      exact hwaits
    · rw [hother r (hwaiting r hr)]
      exact h.waiting r hr
  · rw [hother r (hrunning r hr)]
    exact h.running r hr
  · rw [hblocks]
    exact ha.running r hr
  · rw [hcontents] at hr
    rcases Multiset.mem_cons.mp hr with rfl | hr
    · rw [hself] at hpre
      exact absurd hpre hstatus
    · rw [hother r (hwaiting r hr)] at hpre
      exact ha.waiting r hr hpre
  · rw [hblocks]
    exact ha.batch r row hrow
  · obtain ⟨hnot, hpre⟩ := ha.finished r hr
    refine ⟨hnot, fun hmem => ?_⟩
    rw [hcontents] at hmem
    rcases Multiset.mem_cons.mp hmem with rfl | hmem
    · rw [hself]
      exact hstatus
    · rw [hother r (hwaiting r hmem)]
      exact hpre hmem

/-- A request has finished. -/
theorem Scheduler.Inv.finish (hqueue : QueueLaws vllm contents) (hkv : KvLaws vllm config spec)
    (h : s.Inv config contents) (ha : Agrees vllm contents spec s w) (hr : r ∈ s.live contents) :
    (s.finish vllm config r).Inv config contents ∧ Agrees vllm contents spec (s.finish vllm config r) w := by
  have hnodup := h.nodup
  rw [Scheduler.live, Multiset.nodup_add] at hnodup
  have hleft : (contents (s.finish vllm config r).waiting = contents s.waiting ∨
        contents (s.finish vllm config r).waiting = (contents s.waiting).erase r) ∧
      (s.finish vllm config r).running.Sublist s.running ∧ r ∉ (s.finish vllm config r).running ∧
      r ∉ contents (s.finish vllm config r).waiting := by
    rw [Scheduler.finish]
    split_ifs with hrun
    · refine ⟨.inl rfl, List.erase_sublist, fun hmem => ?_, fun hmem => h.notMem_running hmem hrun⟩
      exact ((List.Nodup.mem_erase_iff h.running_nodup).mp hmem).1 rfl
    · refine ⟨.inr (hqueue.remove s.waiting r), List.Sublist.refl _, hrun, fun hmem => ?_⟩
      have hmem : r ∈ contents (vllm.removeRequest s.waiting r) := hmem
      rw [hqueue.remove] at hmem
      exact ((Multiset.Nodup.mem_erase_iff hnodup.1).mp hmem).1 rfl
  obtain ⟨hcontents, hsub, hnotRunning, hnotWaiting⟩ := hleft
  have hle : contents (s.finish vllm config r).waiting ≤ contents s.waiting := by
    rcases hcontents with heq | heq <;> rw [heq]
    exact Multiset.erase_le r _
  have hlive : (s.finish vllm config r).live contents ≤ s.live contents :=
    add_le_add hle (Multiset.coe_le.mpr hsub.subperm)
  have hrequests : (s.finish vllm config r).requests = s.requests := by
    rw [Scheduler.finish]
    split_ifs <;> rfl
  have hfinished : (s.finish vllm config r).finishedReqIds = s.finishedReqIds ++ [r] := by
    rw [Scheduler.finish]
    split_ifs <;> rfl
  have hblocks : ∀ r', r' ≠ r → vllm.getBlockIds (s.finish vllm config r).kv r' = vllm.getBlockIds s.kv r' := by
    intro r' hne
    have hkv' : (s.finish vllm config r).kv =
        vllm.free (if config.ucmSparse then vllm.requestFinishedInScheduler s.kv r else s.kv) (s.requests r) := by
      rw [Scheduler.finish]
      split_ifs <;> simp_all [Scheduler.freeRequest]
    rw [hkv', hkv.free_other _ _ r' ((h.sound r hr).id_eq.symm ▸ hne)]
    split_ifs
    · rw [hkv.finished]
    · rfl
  have hne : ∀ r' ∈ (s.finish vllm config r).running, r' ≠ r := fun r' hr' heq => hnotRunning (heq ▸ hr')
  refine ⟨⟨Multiset.nodup_of_le hlive h.nodup, fun r' hr' => ?_, fun r' hr' => ?_, fun r' hr' => ?_,
      hsub.length_le.trans h.room⟩,
    ⟨ha.valid, ha.ids, fun r' hr' => ?_, fun r' hr' hpre => ?_, fun r' row hrow => ?_, fun r' hr' => ?_⟩⟩
  · rw [hrequests]
    exact h.sound r' (Multiset.mem_of_le hlive hr')
  · rw [hrequests]
    exact h.waiting r' (Multiset.mem_of_le hle hr')
  · rw [hrequests]
    exact h.running r' (hsub.subset hr')
  · rw [hblocks r' (hne r' hr')]
    exact ha.running r' (hsub.subset hr')
  · rw [hrequests] at hpre
    exact ha.waiting r' (Multiset.mem_of_le hle hr') hpre
  · rw [hfinished]
    by_cases heq : r' = r
    · exact .inl (by simp [heq])
    · rw [hblocks r' heq]
      rcases ha.batch r' row hrow with hfin | ⟨hrun, hold⟩
      · exact .inl (List.mem_append_left _ hfin)
      · refine .inr ⟨?_, hold⟩
        rw [Scheduler.finish]
        split_ifs
        · exact (List.mem_erase_of_ne heq).mpr hrun
        · exact hrun
  · rw [hfinished] at hr'
    rw [hrequests]
    rcases List.mem_append.mp hr' with hr' | hr'
    · obtain ⟨hnot, hpre⟩ := ha.finished r' hr'
      exact ⟨fun hmem => hnot (hsub.subset hmem), fun hmem => hpre (Multiset.mem_of_le hle hmem)⟩
    · rw [List.mem_singleton.mp hr']
      exact ⟨hnotRunning, fun hmem => absurd hmem hnotWaiting⟩

/-- A running request is advanced. -/
theorem Scheduler.Inv.progress (h : s.Inv config contents) (ha : Agrees vllm contents spec s w)
    {request : Request ReqId}
    (hr : r ∈ s.running) (hsound : request.Sound config r) (hruns : request.Runs config) :
    Scheduler.Inv config contents { s with requests := Function.update s.requests r request } ∧
      Agrees vllm contents spec { s with requests := Function.update s.requests r request } w := by
  have hself : ({ s with requests := Function.update s.requests r request } : Scheduler ReqId Queue Kv).requests r =
      request := Function.update_self ..
  have hother : ∀ r', r' ≠ r →
      ({ s with requests := Function.update s.requests r request }
        : Scheduler ReqId Queue Kv).requests r' = s.requests r' :=
    fun r' hne => Function.update_of_ne hne ..
  have hne : ∀ r' ∈ contents s.waiting, r' ≠ r := fun r' hr' heq => h.notMem_running hr' (heq ▸ hr)
  refine ⟨⟨h.nodup, fun r' hr' => ?_, fun r' hr' => ?_, fun r' hr' => ?_, h.room⟩,
    ⟨ha.valid, ha.ids, ha.running, fun r' hr' hpre => ?_, ha.batch, fun r' hr' => ?_⟩⟩
  · by_cases heq : r' = r
    · rw [heq, hself]
      exact hsound
    · rw [hother r' heq]
      exact h.sound r' hr'
  · rw [hother r' (hne r' hr')]
    exact h.waiting r' hr'
  · by_cases heq : r' = r
    · rw [heq, hself]
      exact hruns
    · rw [hother r' heq]
      exact h.running r' hr'
  · rw [hother r' (hne r' hr')] at hpre
    exact ha.waiting r' hr' hpre
  · obtain ⟨hnot, hpre⟩ := ha.finished r' hr'
    refine ⟨hnot, fun hmem => ?_⟩
    rw [hother r' (hne r' hmem)]
    exact hpre hmem

/-- A pass and its execution by the worker. -/
theorem Scheduler.Inv.executes (hp : Promises vllm config contents ops spec maxModelLen) (h : s.Inv config contents)
    (ha : Agrees vllm contents spec s w) (hrevokes : config.policy = .fcfs ∨ s.RevokesNone vllm config) :
    s.schedule vllm config = .error .maxLoras ∨
      ∃ o s' w' known, s.schedule vllm config = .ok (o, s') ∧ s.Schedules config contents o s' ∧
        s.Hands vllm contents spec known o s' ∧ w.updateStates ops o = some w' ∧ Agrees vllm contents spec s' w' ∧
        Represents vllm spec o s' w'.inputBatch := by
  have hnone : s.RevokesNone vllm config := hrevokes.elim (h.revokesNone hp.queue hp.count hp.budget) id
  have hrunning : ∀ r ∈ s.running, r ∉ s.finishedReqIds ∧ ∃ state, w.requests.get? r = some state := by
    intro r hr
    obtain ⟨state, hstate, -⟩ := ha.running r hr
    exact ⟨fun hfin => (ha.finished r hfin).1 hr, state, hstate⟩
  have hwaiting : ∀ r ∈ contents s.waiting, (s.requests r).status = .preempted →
      r ∉ s.finishedReqIds ∧ ∃ state, w.requests.get? r = some state := fun r hr hpre =>
    ⟨fun hfin => (ha.finished r hfin).2 hr hpre, ha.waiting r hr hpre⟩
  rcases h.schedule (fun r => r ∉ s.finishedReqIds ∧ ∃ state, w.requests.get? r = some state) hp.queue hp.count hp.kv
      hp.output hp.budget hnone hrunning hwaiting with herror | ⟨o, s', hresult, hs, hh⟩
  · exact .inl herror
  · obtain ⟨w', hupdate, ha', hrows⟩ := ha.updateStates hp.batch (hp.kv.fits s'.kv) hs hh fun _ hr => hr
    exact .inr ⟨o, s', w', _, hresult, hs, hh, hupdate, ha', hrows⟩

/-- The invariant of the scheduler, and the agreement with the worker, in every run. -/
theorem inv_of_reach (hp : Promises vllm config contents ops spec maxModelLen) (hstart : Starts contents spec σ₀)
    (h : Reach (step vllm config ops) (Allowed vllm config contents) σ₀ σ) :
    σ.1.Inv config contents ∧ Agrees vllm contents spec σ.1 σ.2 := by
  refine h.invariant (fun σ => σ.1.Inv config contents ∧ Agrees vllm contents spec σ.1 σ.2) hstart.inv
    fun σ e σ' hinv hguard hstep => ?_
  obtain ⟨h, ha⟩ := hinv
  cases e with
  | addRequest request =>
    obtain ⟨hnew, hsound, hwaits, hstatus⟩ := hguard
    rw [← Option.some.inj hstep]
    exact h.addRequest hp.queue hp.kv ha hnew hsound hwaits hstatus
  | schedule =>
    rcases h.executes hp ha hguard with herror | ⟨o, s', w', known, hresult, hs, -, hupdate, ha', -⟩
    · simp only [step, herror] at hstep
      cases hstep
    · simp only [step, hresult, hupdate, Option.map_some] at hstep
      rw [← Option.some.inj hstep]
      exact ⟨hs.inv, ha'⟩
  | progress r request =>
    obtain ⟨hr, hsound, hruns⟩ := hguard
    rw [← Option.some.inj hstep]
    exact h.progress ha hr hsound hruns
  | finish r =>
    rw [← Option.some.inj hstep]
    exact h.finish hp.queue hp.kv ha hguard
  | manage kv =>
    rw [← Option.some.inj hstep]
    have hkv : vllm.getBlockIds kv = vllm.getBlockIds σ.1.kv := hguard
    refine ⟨⟨h.nodup, h.sound, h.waiting, h.running, h.room⟩,
      ⟨ha.valid, ha.ids, fun r hr => ?_, ha.waiting, fun r row hrow => ?_, ha.finished⟩⟩
    · rw [hkv]
      exact ha.running r hr
    · rw [hkv]
      exact ha.batch r row hrow

/-- In every run a pass loses no request, keeps to its budgets, and grants tokens only to requests that run and are
handed over. It can fail only if the running requests have too many LoRAs. -/
theorem schedules_of_reach (hp : Promises vllm config contents ops spec maxModelLen) (hstart : Starts contents spec σ₀)
    (h : Reach (step vllm config ops) (Allowed vllm config contents) σ₀ σ)
    (hrevokes : config.policy = .fcfs ∨ σ.1.RevokesNone vllm config) :
    σ.1.schedule vllm config = .error .maxLoras ∨
      ∃ o s', σ.1.schedule vllm config = .ok (o, s') ∧ σ.1.Schedules config contents o s' := by
  obtain ⟨hinv, ha⟩ := inv_of_reach hp hstart h
  rcases hinv.executes hp ha hrevokes with herror | ⟨o, s', w', known, hresult, hs, -⟩
  · exact .inl herror
  · exact .inr ⟨o, s', hresult, hs⟩

section Small

def smallAllocate (kv : Nat → List Nat) (r : Nat) (old new : List Nat) : Option (Blocks Unit) × (Nat → List Nat) :=
  if (old ++ new).length ≤ 4 then (some fun _ => new, Function.update kv r (old ++ new)) else (none, kv)

def smallVllm : Vllm Nat Unit (List Nat) (Nat → List Nat) where
  createRequestQueue := []
  addRequest q request := q ++ [request.requestId]
  prependRequest q request := request.requestId :: q
  prependRequests q q' := q' ++ q
  popRequest q := q.head?.map fun r => (r, q.tail)
  removeRequest q r := q.erase r
  queueLength q := q.length
  estimateNumSlotsSparsed kv _ := (INVALID_SLOT, kv)
  sparseAllocateSlots kv request slots := smallAllocate kv request.requestId [] (List.range slots.toNat)
  originalAllocateSlots kv request n computed computedBlocks _ _ :=
    smallAllocate kv request.requestId ((kv request.requestId).take 4 ++ computedBlocks ())
      (List.range ((request.numComputedTokens + computed + n).toNat -
        ((kv request.requestId).take 4 ++ computedBlocks ()).length))
  free kv request := Function.update kv request.requestId []
  getComputedBlocks _ _ := (emptyBlocks, 0)
  getBlockIds kv r := fun _ => (kv r).take 4
  tryScheduleEncoderInputs _ _ _ n budget := ([], n, budget)
  allocateEncoderInput kv _ _ := kv
  updateWaitingForRemoteKv kv _ := (false, kv)
  hasGrammar _ _ := false
  updateStateAfterAlloc kv _ _ _ := kv
  requestBegin kv _ := kv
  requestFinishedInScheduler kv _ := kv
  makeCachedRequestData running resumed blocks :=
    running.map (fun request => ⟨request.requestId, false, (blocks request.requestId).getD emptyBlocks,
      request.numComputedTokens⟩) ++
    resumed.map fun request => ⟨request.requestId, true, (blocks request.requestId).getD emptyBlocks,
      request.numComputedTokens⟩
  updateAfterSchedule requests counts r :=
    { requests r with numComputedTokens := (requests r).numComputedTokens + (counts.get? r).getD 0 }

def smallContents (q : List Nat) : Multiset Nat := q

def smallConfig : SchedulerConfig where
  policy := .fcfs
  maxNumScheduledTokens := 4
  maxNumRunningReqs := 2
  maxNumEncoderInputTokens := 0
  maxModelLen := 8
  longPrefillTokenThreshold := 0
  chunkedPrefillEnabled := true
  numLookaheadTokens := 0
  maxLoras := none
  hasConnector := false
  ucmSparse := false

def smallSpec : KvCacheSpec Unit := ⟨fun _ => 1, fun _ => 4⟩

def BlockTable.writeRow (table : BlockTable) (i : Nat) (blocks : List Nat) : BlockTable :=
  { table with
    numBlocksPerRow := Function.update table.numBlocksPerRow i blocks.length
    blockTable := Function.update table.blockTable i fun j => blocks.getD j 0 }

theorem BlockTable.row_writeRow (table : BlockTable) (i : Nat) (blocks : List Nat) :
    (table.writeRow i blocks).row i = blocks := by
  simp only [BlockTable.row, BlockTable.writeRow, Function.update_self]
  refine List.ext_getElem? fun j => ?_
  rw [List.getElem?_map]
  by_cases hj : j < blocks.length
  · rw [List.getElem?_range hj, List.getElem?_eq_getElem hj, Option.map_some, List.getD_eq_getElem _ _ hj]
  · rw [List.getElem?_eq_none (by rw [List.length_range]; omega), List.getElem?_eq_none (by omega), Option.map_none]

theorem BlockTable.row_writeRow_other (table : BlockTable) {i j : Nat} (blocks : List Nat) (h : j ≠ i) :
    (table.writeRow i blocks).row j = table.row j := by
  simp only [BlockTable.row, BlockTable.writeRow, Function.update_of_ne h]

/-- The first row that is free. -/
def InputBatch.freeRow (b : InputBatch Nat Unit Unit) : Nat :=
  ((List.range (b.reqIdToIndex.items.length + 1)).find? fun i => i ∉ b.reqIdToIndex.items.map Prod.snd).getD 0

theorem InputBatch.freeRow_notMem (b : InputBatch Nat Unit Unit) : b.freeRow ∉ b.reqIdToIndex.items.map Prod.snd := by
  rw [freeRow]
  cases hfind : (List.range (b.reqIdToIndex.items.length + 1)).find? fun i => i ∉ b.reqIdToIndex.items.map Prod.snd with
  | some i => simpa using List.find?_some hfind
  | none =>
    have hall : ∀ i ∈ List.range (b.reqIdToIndex.items.length + 1), i ∈ b.reqIdToIndex.items.map Prod.snd :=
      fun i hi => by
      simpa using List.find?_eq_none.mp hfind i hi
    have hlength := (List.nodup_range.subperm hall).length_le
    rw [List.length_range, List.length_map] at hlength
    omega

def smallBatch : BatchOps Nat Unit Unit where
  setDifference xs ys := xs.filter fun r => r ∉ ys
  appendRow table ids i := table.writeRow i (table.row i ++ ids)
  removeRequest b r := { b with reqIdToIndex := b.reqIdToIndex.pop r }
  addRequest b state :=
    { b with
      reqIdToIndex := b.reqIdToIndex.set state.reqId b.freeRow
      numComputedTokensCpu := Function.update b.numComputedTokensCpu b.freeRow state.numComputedTokens
      blockTable := fun g => (b.blockTable g).writeRow b.freeRow (state.blockIds g) }
  condense b :=
    { b with
      reqIdToIndex := (b.reqIdToIndex.items.map Prod.fst).zipIdx.foldl (fun d p => d.set p.1 p.2) Dict.empty
      numComputedTokensCpu := fun i => ((b.reqIdToIndex.items[i]?).map fun p => b.numComputedTokensCpu p.2).getD 0
      blockTable := fun g =>
        { b.blockTable g with
          numBlocksPerRow := fun i =>
            ((b.reqIdToIndex.items[i]?).map fun p => (b.blockTable g).numBlocksPerRow p.2).getD 0
          blockTable := fun i =>
            ((b.reqIdToIndex.items[i]?).map fun p => (b.blockTable g).blockTable p.2).getD fun _ => 0 } }
  mayReorderBatch _ b := b
  refreshMetadata b := b
  reqIds b := b.reqIdToIndex.items.foldl (fun ids p => ids.set p.2 p.1)
    (List.replicate b.reqIdToIndex.items.length 0)

theorem smallQueue : QueueLaws smallVllm smallContents where
  create := rfl
  add q request := Multiset.coe_eq_coe.mpr (List.perm_append_singleton request.requestId q)
  prepend _ _ := rfl
  prependAll q q' := (add_comm (q' : Multiset Nat) q)
  pop_none q h := by
    cases q with
    | nil => rfl
    | cons r q => cases h
  pop_some q r q' h := by
    cases q with
    | nil => cases h
    | cons r' q =>
      obtain ⟨rfl, rfl⟩ := Prod.mk.inj (Option.some.inj h)
      rfl
  remove _ _ := rfl
  length _ := rfl

theorem smallCount : CountLaws smallVllm where
  encoder _ _ _ _ _ hn := ⟨hn, le_rfl⟩
  computed _ _ hpos := ⟨le_rfl, hpos⟩
  advance _ _ _ := rfl

theorem smallAllocate_other (kv : Nat → List Nat) {r r' : Nat} (old new : List Nat) (h : r' ≠ r) :
    (smallAllocate kv r old new).2 r' = kv r' := by
  unfold smallAllocate
  split_ifs
  · exact Function.update_of_ne h ..
  · rfl

theorem smallAllocate_some {kv kv' : Nat → List Nat} {r : Nat} {old new : List Nat} {blocks : Blocks Unit}
    (h : smallAllocate kv r old new = (some blocks, kv')) : (kv' r).take 4 = old ++ new ∧ blocks = fun _ => new := by
  unfold smallAllocate at h
  split_ifs at h with hfits
  · obtain ⟨hblocks, hkv⟩ := Prod.mk.inj h
    rw [← hkv, Function.update_self, List.take_of_length_le hfits]
    exact ⟨rfl, (Option.some.inj hblocks).symm⟩
  · cases h

theorem smallAllocate_none {kv kv' : Nat → List Nat} {r : Nat} {old new : List Nat}
    (h : smallAllocate kv r old new = (none, kv')) : kv' = kv := by
  unfold smallAllocate at h
  split_ifs at h
  · cases h
  · exact (Prod.mk.inj h).2.symm

theorem smallKv : KvLaws smallVllm smallConfig smallSpec where
  estimate _ _ := rfl
  sparse_other kv request slots r h := by
    funext
    exact congrArg (List.take 4) (smallAllocate_other kv _ _ h)
  sparse_some kv request slots blocks kv' h := by
    obtain ⟨hkv, hblocks⟩ := smallAllocate_some h
    refine ⟨funext fun _ => hkv.trans (hblocks ▸ rfl), fun g => ?_⟩
    rw [hblocks, List.length_range]
    show slots ≤ (slots.toNat : Int) * 1
    omega
  original_other kv request n computed computedBlocks drafts lookahead r h := by
    funext
    exact congrArg (List.take 4) (smallAllocate_other kv _ _ h)
  original_none kv request n computed computedBlocks drafts lookahead kv' h := by
    rw [smallAllocate_none h]
  original_some kv request n computed computedBlocks drafts lookahead blocks kv' h g := by
    obtain ⟨hkv, hblocks⟩ := smallAllocate_some h
    refine ⟨hkv.trans (hblocks ▸ rfl), fun _ => ?_⟩
    show _ ≤ (((kv' request.requestId).take 4).length : Int) * 1
    rw [hkv, List.length_append, List.length_range]
    omega
  fits _ _ _ := List.length_take_le 4 _
  free_other kv request r h := by
    funext
    exact congrArg (List.take 4) (Function.update_of_ne h ..)
  encoder _ _ _ := rfl
  remote _ _ := rfl
  connector _ _ _ _ := rfl
  begun _ _ := rfl
  finished _ _ := rfl

theorem smallOutput : OutputLaws smallVllm := by
  intro running resumed blocks f h
  refine congrArg₂ (· ++ ·) (List.map_congr_left fun request hr => ?_) (List.map_congr_left fun request hr => ?_)
  · rw [h request (List.mem_append_left _ hr)]
    rfl
  · rw [h request (List.mem_append_right _ hr)]
    rfl

theorem row_pop (b : InputBatch Nat Unit Unit) (r r' : Nat) :
    (smallBatch.removeRequest b r).row r' = if r' = r then none else b.row r' := by
  refine (congrArg (Option.map b.rowAt) Dict.get?_pop).trans ?_
  split_ifs <;> rfl

theorem row_add {b : InputBatch Nat Unit Unit} (h : b.Valid smallSpec) (state : CachedRequestState Nat Unit) :
    (smallBatch.addRequest b state).Valid smallSpec ∧ ∀ r', (smallBatch.addRequest b state).row r' =
      if r' = state.reqId then some ⟨state.numComputedTokens, state.blockIds⟩ else b.row r' := by
  have hget : ∀ r, (smallBatch.addRequest b state).reqIdToIndex.get? r =
      if r = state.reqId then some b.freeRow else b.reqIdToIndex.get? r := fun r => Dict.get?_set
  have hfree : ∀ r i, b.reqIdToIndex.get? r = some i → i ≠ b.freeRow := fun r i hi heq =>
    b.freeRow_notMem (heq ▸ List.mem_map_of_mem (Dict.mem_items.mpr hi))
  refine ⟨⟨fun r r' i hi hi' => ?_, h.columns⟩, fun r' => ?_⟩
  · rw [hget] at hi hi'
    split_ifs at hi hi' with hr hr' hr'
    · exact hr.trans hr'.symm
    · exact absurd (Option.some.inj hi).symm (hfree r' i hi')
    · exact absurd (Option.some.inj hi').symm (hfree r i hi)
    · exact h.distinct r r' i hi hi'
  · rw [InputBatch.row, hget]
    split_ifs with heq
    · refine congrArg some (congrArg₂ Row.mk (Function.update_self ..) (funext fun g => ?_))
      exact BlockTable.row_writeRow ..
    · rw [InputBatch.row]
      cases hi : b.reqIdToIndex.get? r' with
      | none => rfl
      | some i =>
        refine congrArg some (congrArg₂ Row.mk (Function.update_of_ne (hfree r' i hi) ..) (funext fun g => ?_))
        exact BlockTable.row_writeRow_other _ _ (hfree r' i hi)

theorem condense_get? (b : InputBatch Nat Unit Unit) (r i : Nat) :
    (smallBatch.condense b).reqIdToIndex.get? r = some i ↔ (b.reqIdToIndex.items.map Prod.fst)[i]? = some r := by
  have hkeys : ((b.reqIdToIndex.items.map Prod.fst).zipIdx.map Prod.fst) = b.reqIdToIndex.items.map Prod.fst :=
    List.zipIdx_map_fst 0 _
  have hitems : (smallBatch.condense b).reqIdToIndex.items = (b.reqIdToIndex.items.map Prod.fst).zipIdx :=
    Dict.items_foldl_set (d := Dict.empty) (hkeys.symm ▸ b.reqIdToIndex.nodup) fun _ _ => List.not_mem_nil
  rw [← Dict.mem_items, hitems, List.mem_zipIdx_iff_getElem?]

theorem row_condense {b : InputBatch Nat Unit Unit} (h : b.Valid smallSpec) :
    (smallBatch.condense b).Valid smallSpec ∧ (smallBatch.condense b).Packed ∧
      ∀ r, (smallBatch.condense b).row r = b.row r := by
  have hkeys : ((b.reqIdToIndex.items.map Prod.fst).zipIdx.map Prod.fst) = b.reqIdToIndex.items.map Prod.fst :=
    List.zipIdx_map_fst 0 _
  have hitems : (smallBatch.condense b).reqIdToIndex.items = (b.reqIdToIndex.items.map Prod.fst).zipIdx :=
    Dict.items_foldl_set (d := Dict.empty) (hkeys.symm ▸ b.reqIdToIndex.nodup) fun _ _ => List.not_mem_nil
  refine ⟨⟨fun r r' i hi hi' => ?_, h.columns⟩, fun r i hi => ?_, fun r => ?_⟩
  · rw [condense_get?] at hi hi'
    exact Option.some.inj (hi.symm.trans hi')
  · rw [condense_get?] at hi
    obtain ⟨hlt, -⟩ := List.getElem?_eq_some_iff.mp hi
    rw [hitems, List.length_zipIdx]
    exact hlt
  · cases hi : (smallBatch.condense b).reqIdToIndex.get? r with
    | none =>
      have hnone : b.reqIdToIndex.get? r = none := by
        refine Dict.get?_of_notMem fun hmem => ?_
        obtain ⟨i, hr⟩ := List.mem_iff_getElem?.mp hmem
        rw [← condense_get?, hi] at hr
        cases hr
      rw [InputBatch.row, InputBatch.row, hi, hnone]
      rfl
    | some i =>
      rw [InputBatch.row, hi]
      rw [condense_get?, List.getElem?_map] at hi
      obtain ⟨p, hp, rfl⟩ := Option.map_eq_some_iff.mp hi
      rw [InputBatch.row, Dict.mem_items.mp (List.mem_of_getElem? hp)]
      refine congrArg some (congrArg₂ Row.mk ?_ (funext fun g => ?_))
      · show ((b.reqIdToIndex.items[i]?).map fun p => b.numComputedTokensCpu p.2).getD 0 = _
        rw [hp]
        rfl
      · simp only [smallBatch, BlockTable.row, hp, Option.map_some, Option.getD_some]

/-- As many rows as requests, each with a request of its own: none is left out. -/
theorem reqIds_small {b : InputBatch Nat Unit Unit} (h : b.Valid smallSpec) (hpacked : b.Packed) (i r : Nat) :
    (smallBatch.reqIds b)[i]? = some r ↔ b.reqIdToIndex.get? r = some i := by
  have hnodup : (b.reqIdToIndex.items.map Prod.snd).Nodup := by
    refine List.Nodup.map_on (fun p hp q hq heq => ?_) (List.Nodup.of_map _ b.reqIdToIndex.nodup)
    have hp := Dict.mem_items.mp hp
    have hq := Dict.mem_items.mp hq
    exact Prod.ext (h.distinct p.1 q.1 p.2 hp (heq ▸ hq)) heq
  obtain ⟨hlength, hset, -⟩ := Ragged.getElem?_foldl_set Prod.snd (fun p : Nat × Nat => some p.1) hnodup
    (List.replicate b.reqIdToIndex.items.length 0)
  have hentry : ∀ p ∈ b.reqIdToIndex.items, (smallBatch.reqIds b)[p.2]? = some p.1 := by
    intro p hp
    refine (hset p hp ?_).trans rfl
    rw [List.length_replicate]
    exact hpacked p.1 p.2 (Dict.mem_items.mp hp)
  constructor
  · intro hi
    obtain ⟨hlt, -⟩ := List.getElem?_eq_some_iff.mp hi
    have hlength : (smallBatch.reqIds b).length = b.reqIdToIndex.items.length :=
      hlength.trans List.length_replicate
    have hsub : (b.reqIdToIndex.items.map Prod.snd).Subperm (List.range b.reqIdToIndex.items.length) := by
      refine hnodup.subperm fun j hj => ?_
      obtain ⟨p, hp, rfl⟩ := List.mem_map.mp hj
      exact List.mem_range.mpr (hpacked p.1 p.2 (Dict.mem_items.mp hp))
    have hperm := hsub.perm_of_length_le (by rw [List.length_range, List.length_map])
    have hmem : i ∈ b.reqIdToIndex.items.map Prod.snd := hperm.mem_iff.mpr (List.mem_range.mpr (hlength ▸ hlt))
    obtain ⟨p, hp, rfl⟩ := List.mem_map.mp hmem
    rw [hentry p hp] at hi
    rw [← Option.some.inj hi]
    exact Dict.mem_items.mp hp
  · intro hi
    exact hentry (r, i) (Dict.mem_items.mpr hi)

theorem smallBatchLaws : BatchLaws smallBatch smallSpec smallConfig.maxNumRunningReqs where
  setDifference xs ys r := by simp [smallBatch]
  append table ids i _ := BlockTable.row_writeRow ..
  append_other table ids i j h := BlockTable.row_writeRow_other _ _ h
  append_columns _ _ _ := rfl
  remove b r h := ⟨⟨fun r₁ r₂ i h₁ h₂ => by
    have h₁ := (Dict.get?_pop (d := b.reqIdToIndex)).symm.trans h₁
    have h₂ := (Dict.get?_pop (d := b.reqIdToIndex)).symm.trans h₂
    split_ifs at h₁ h₂
    exact h.distinct r₁ r₂ i h₁ h₂, h.columns⟩, row_pop b r⟩
  add b state h _ _ _ := row_add h state
  condense b h := row_condense h
  reorder _ b h hpacked := ⟨h, hpacked, fun _ => rfl⟩
  refresh b h hpacked := ⟨h, hpacked, fun _ => rfl⟩
  reqIds b h hpacked := reqIds_small h hpacked

def smallRequest : Request Nat where
  requestId := 0
  status := .waiting
  numTokens := 3
  specTokenIds := []
  numComputedTokens := 0
  numCachedTokens := -1
  priority := 0
  arrivalTime := 0
  loraIntId := none
  hasEncoderInputs := false
  useStructuredOutput := false

def smallStart : Scheduler Nat (List Nat) (Nat → List Nat) × GPUModelRunner Nat Unit Unit :=
  (⟨fun _ => smallRequest, [], [], [], fun _ => []⟩,
    ⟨Dict.empty, ⟨Dict.empty, fun _ => 0, fun _ _ => 0, fun _ => ⟨4, fun _ => 0, fun _ _ => 0⟩, ()⟩⟩)

def smallAdded : Scheduler Nat (List Nat) (Nat → List Nat) × GPUModelRunner Nat Unit Unit :=
  (smallStart.1.addRequest smallVllm smallConfig smallRequest, smallStart.2)

theorem smallPromises : Promises smallVllm smallConfig smallContents smallBatch smallSpec 8 :=
  ⟨smallQueue, smallCount, smallKv, smallOutput, smallBatchLaws, by decide, rfl⟩

theorem smallStarts : Starts smallContents smallSpec smallStart :=
  ⟨rfl, rfl, rfl, rfl, ⟨fun _ _ _ h => absurd h (by simp [smallStart, Dict.get?_empty]), fun _ => rfl⟩, rfl⟩

theorem smallReach : Reach (step smallVllm smallConfig smallBatch)
    (Allowed smallVllm smallConfig smallContents) smallStart smallAdded := by
  have hallowed : Allowed smallVllm smallConfig smallContents smallStart (.addRequest smallRequest) :=
    ⟨Multiset.notMem_zero 0, ⟨rfl, by decide, by decide⟩, ⟨.inl rfl, rfl⟩, by decide⟩
  exact Reach.start.next hallowed rfl

theorem schedules_of_reach_small : smallAdded.1.schedule smallVllm smallConfig = .error .maxLoras ∨
    ∃ o s', smallAdded.1.schedule smallVllm smallConfig = .ok (o, s') ∧
      smallAdded.1.Schedules smallConfig smallContents o s' :=
  schedules_of_reach smallPromises smallStarts smallReach (.inl rfl)

end Small

end UnifiedCache.Integration
