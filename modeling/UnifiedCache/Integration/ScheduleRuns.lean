import UnifiedCache.Integration.ScheduleBlocks
import UnifiedCache.Lib.StepSystem

/-! Runs of the scheduler: requests come and go, passes are made, and the engine advances the requests. -/

namespace UnifiedCache.Integration

variable {ReqId Group Queue Kv : Type} [DecidableEq ReqId] (vllm : Vllm ReqId Group Queue Kv) (config : SchedulerConfig)
  (contents : Queue → Multiset ReqId)

/-- The data of the requests that ran before. -/
def OutputLaws : Prop :=
  ∀ running resumed blocks (f : ReqId → Blocks Group),
    (∀ request ∈ running ++ resumed, blocks request.requestId = some (f request.requestId)) →
    vllm.makeCachedRequestData running resumed blocks =
      running.map (fun request => ⟨request.requestId, false, f request.requestId, request.numComputedTokens⟩) ++
        resumed.map fun request => ⟨request.requestId, true, f request.requestId, request.numComputedTokens⟩

namespace Scheduler

/-- Who waits and who runs. -/
def live (s : Scheduler ReqId Queue Kv) : Multiset ReqId := contents s.waiting + s.running

structure Inv (s : Scheduler ReqId Queue Kv) : Prop where
  nodup : (s.live contents).Nodup
  sound : ∀ r ∈ s.live contents, (s.requests r).Sound config r
  waiting : ∀ r ∈ contents s.waiting, (s.requests r).Waits
  running : ∀ r ∈ s.running, (s.requests r).Runs config
  room : s.running.length ≤ config.maxNumRunningReqs

/-- Nobody gives way who has been given tokens in the same pass. -/
def RevokesNone (s : Scheduler ReqId Queue Kv) : Prop :=
  ∀ t, Pass.runningLoop vllm config s.running.length (s.start vllm config) = .ok t →
    ∀ r ∈ t.preemptedReqs, r ∉ t.numScheduledTokens.items.map Prod.fst

/-- What a pass comes to: no request is lost, the budgets hold, and who has been given tokens runs and is handed
over. -/
structure Schedules (s : Scheduler ReqId Queue Kv) (o : SchedulerOutput ReqId Group) (s' : Scheduler ReqId Queue Kv) :
    Prop where
  conserved : s'.live contents = s.live contents
  inv : s'.Inv config contents
  total : o.totalNumScheduledTokens = (o.numScheduledTokens.items.map Prod.snd).sum
  within : o.totalNumScheduledTokens ≤ config.maxNumScheduledTokens
  positive : ∀ p ∈ o.numScheduledTokens.items, 0 < p.2 ∧ p.2 ≤ (s'.requests p.1).numComputedTokens
  running : ∀ p ∈ o.numScheduledTokens.items, p.1 ∈ s'.running
  handed : (o.numScheduledTokens.items.map Prod.fst).Perm
    (o.scheduledNewReqs.map NewRequestData.reqId ++ o.scheduledCachedReqs.map CachedRequestData.reqId)

/-- What the worker can rely on, if it has the state of those who are `known` and of those who ran before. -/
structure Hands (spec : KvCacheSpec Group) (known : ReqId → Prop) (s : Scheduler ReqId Queue Kv)
    (o : SchedulerOutput ReqId Group) (s' : Scheduler ReqId Queue Kv) : Prop where
  new : ∀ d ∈ o.scheduledNewReqs, d.reqId ∉ s.running ∧ d.blockIds = vllm.getBlockIds s'.kv d.reqId
  resumed : ∀ d ∈ o.scheduledCachedReqs, d.resumedFromPreemption = true →
    d.reqId ∉ s.running ∧ known d.reqId ∧ d.newBlockIds = vllm.getBlockIds s'.kv d.reqId
  ran : ∀ d ∈ o.scheduledCachedReqs, d.resumedFromPreemption = false → d.reqId ∈ s.running ∧
    ∃ slots, o.reqSparsedSlots.get? d.reqId = some slots ∧
      vllm.getBlockIds s'.kv d.reqId = (vllm.getBlockIds s.kv d.reqId).extend d.newBlockIds slots
  computed_new : ∀ d ∈ o.scheduledNewReqs, ∀ n, o.numScheduledTokens.get? d.reqId = some n →
    d.numComputedTokens + n = (s'.requests d.reqId).numComputedTokens
  computed_cached : ∀ d ∈ o.scheduledCachedReqs, ∀ n, o.numScheduledTokens.get? d.reqId = some n →
    d.numComputedTokens + n = (s'.requests d.reqId).numComputedTokens
  unscheduled : ∀ r ∈ s'.running, r ∉ o.numScheduledTokens.items.map Prod.fst →
    r ∈ s.running ∧ vllm.getBlockIds s'.kv r = vllm.getBlockIds s.kv r
  covers : ∀ r n, o.numScheduledTokens.get? r = some n → ∃ slots, o.reqSparsedSlots.get? r = some slots ∧
    (vllm.getBlockIds s'.kv r).Covers spec slots (s'.requests r).numComputedTokens
  waiting : ∀ r ∈ contents s'.waiting, (s'.requests r).status = .preempted → known r
  finished : o.finishedReqIds = s.finishedReqIds ∧ s'.finishedReqIds = []

end Scheduler

variable {vllm config contents} {s : Scheduler ReqId Queue Kv} {t : Pass ReqId Group Queue Kv} {live : Multiset ReqId}
  {spec : KvCacheSpec Group} {known : ReqId → Prop}

namespace Pass

omit [DecidableEq ReqId] in
theorem Inv.withLoras (h : t.Inv config contents live) (loras : Finset Int) :
    ({ t with scheduledLoras := loras } : Pass ReqId Group Queue Kv).Inv config contents live :=
  ⟨h.nodup, h.live_eq, h.sound, h.waiting, h.running, h.room, h.budget, h.budget_nonneg, h.keys, h.blocks, h.takes,
    h.kept, h.preempted⟩

omit [DecidableEq ReqId] in
theorem Inv.scheduled_nodup (h : t.Inv config contents live) : t.scheduled.Nodup :=
  h.keys.nodup_iff.mp t.numScheduledTokens.nodup

theorem Inv.exists_blocks (h : t.Inv config contents live) {r : ReqId} (hr : r ∈ t.scheduled) :
    ∃ blocks, t.reqToNewBlockIds.get? r = some blocks := by
  have hkey : r ∈ t.reqToNewBlockIds.items.map Prod.fst := h.blocks ▸ h.keys.mem_iff.mpr hr
  obtain ⟨p, hp, rfl⟩ := List.mem_map.mp hkey
  exact ⟨p.2, Dict.mem_items.mp hp⟩

theorem Inv.exists_count (h : t.Inv config contents live) {r : ReqId} (hr : r ∈ t.scheduled) :
    ∃ n, t.numScheduledTokens.get? r = some n ∧ (t.requests r).Takes config n := by
  obtain ⟨p, hp, rfl⟩ := List.mem_map.mp (h.keys.mem_iff.mpr hr)
  exact ⟨p.2, Dict.mem_items.mp hp, h.takes p.1 p.2 hp⟩

omit [DecidableEq ReqId] in
theorem Inv.check (h : t.Inv config contents live)
    (hkept : ∀ r ∈ t.scheduled, r ∈ t.running) : (t.putBack vllm).check config = .ok () := by
  have hsubset : t.scheduled.Subperm t.running := h.scheduled_nodup.subperm hkept
  have hlength := hsubset.length_le
  have hbudget := h.budget
  have hnonneg := h.budget_nonneg
  have hroom := h.room
  have hsum : (t.numScheduledTokens.items.map Prod.snd).sum = t.total := rfl
  simp only [scheduled, List.length_append] at hlength
  have hsame : (t.putBack vllm).check config = t.check config := by
    unfold Pass.putBack
    split_ifs <;> rfl
  rw [hsame, Pass.check, hsum, if_neg (by omega), if_neg (by omega), if_neg (by omega), if_neg (by omega)]

/-- The blocks that are handed over for a request. -/
def newBlocks (t : Pass ReqId Group Queue Kv) (r : ReqId) : Blocks Group := (t.reqToNewBlockIds.get? r).getD emptyBlocks

def newData (t : Pass ReqId Group Queue Kv) (r : ReqId) : NewRequestData ReqId Group :=
  ⟨r, t.newBlocks r, (t.requests r).numComputedTokens⟩

def cachedData (t : Pass ReqId Group Queue Kv) (resumed : Bool) (r : ReqId) : CachedRequestData ReqId Group :=
  ⟨r, resumed, t.newBlocks r, (t.requests r).numComputedTokens⟩

theorem Inv.newBlocks (h : t.Inv config contents live) {r : ReqId} (hr : r ∈ t.scheduled) :
    t.reqToNewBlockIds.get? r = some (t.newBlocks r) := by
  obtain ⟨blocks, hblocks⟩ := h.exists_blocks hr
  rw [Pass.newBlocks, hblocks]
  rfl

theorem Inv.newReqsData (h : t.Inv config contents live) :
    t.newReqsData = some (t.scheduledNewReqs.map t.newData) := by
  refine mapM_eq_map fun r hr => ?_
  rw [h.newBlocks (r := r) (by simp [scheduled, hr])]
  rfl

theorem Inv.cachedReqsData (houtput : OutputLaws vllm) (h : t.Inv config contents live)
    (hkept : ∀ r ∈ t.scheduled, r ∈ t.running) (data : List (NewRequestData ReqId Group)) :
    (t.output vllm data).scheduledCachedReqs =
      t.scheduledRunningReqs.map (t.cachedData false) ++ t.scheduledResumedReqs.map (t.cachedData true) := by
  have hid : ∀ r ∈ t.scheduled, (t.requests r).requestId = r := fun r hr => h.id_eq (hkept r hr)
  have hresult := houtput (t.scheduledRunningReqs.map t.requests) (t.scheduledResumedReqs.map t.requests)
    t.reqToNewBlockIds.get? t.newBlocks (fun request hrequest => by
      rw [← List.map_append] at hrequest
      obtain ⟨r, hr, rfl⟩ := List.mem_map.mp hrequest
      have hr : r ∈ t.scheduled := by
        rw [scheduled]
        rcases List.mem_append.mp hr with hr | hr <;> simp [hr]
      rw [hid r hr]
      exact h.newBlocks hr)
  show vllm.makeCachedRequestData (t.scheduledRunningReqs.map t.requests) (t.scheduledResumedReqs.map t.requests)
    t.reqToNewBlockIds.get? = _
  rw [hresult, List.map_map, List.map_map]
  congr 1
  · refine List.map_congr_left fun r hr => ?_
    rw [Function.comp_apply, hid r (List.mem_append_left _ hr)]
    rfl
  · refine List.map_congr_left fun r hr => ?_
    rw [Function.comp_apply, hid r (List.mem_append_right _ (List.mem_append_right _ hr))]
    rfl

end Pass

namespace Scheduler

theorem Inv.start (h : s.Inv config contents) (hqueue : QueueLaws vllm contents)
    (hmax : 0 ≤ config.maxNumScheduledTokens) :
    (s.start vllm config).Inv config contents (s.live contents) ∧ (s.start vllm config).Ahead := by
  have hwaits : (s.start vllm config).waits contents = contents s.waiting := by
    show contents s.waiting + contents vllm.createRequestQueue = _
    rw [hqueue.create, add_zero]
  refine ⟨⟨h.nodup, ?_, h.sound, ?_, h.running, h.room, ?_, hmax, List.Perm.refl _, rfl, ?_, ?_, ?_⟩, ?_⟩
  · rw [hwaits]
    rfl
  · rw [hwaits]
    exact h.waiting
  · exact add_zero config.maxNumScheduledTokens
  · exact fun r n hn => absurd hn List.not_mem_nil
  · exact fun r hr => absurd hr List.not_mem_nil
  · exact fun r hr => absurd hr List.not_mem_nil
  · exact fun r hr => absurd hr List.not_mem_nil

theorem follows_start (config : SchedulerConfig) (hqueue : QueueLaws vllm contents)
    (hwaiting : ∀ r ∈ contents s.waiting, (s.requests r).status = .preempted → known r) :
    (s.start vllm config).Follows vllm spec contents known s := by
  have hwaits : (s.start vllm config).waits contents = contents s.waiting := by
    show contents s.waiting + contents vllm.createRequestQueue = _
    rw [hqueue.create, add_zero]
  refine ⟨⟨?_, ?_, fun r hr => .inl hr, fun r hr => .inl hr, ?_, ?_⟩, fun r _ => ⟨fun _ => rfl, ?_, ?_, ?_⟩, rfl⟩
  · exact fun r hr => absurd hr List.not_mem_nil
  · exact fun r hr => absurd hr List.not_mem_nil
  · exact fun r hr => absurd hr List.not_mem_nil
  · rw [hwaits]
    exact hwaiting
  · exact fun blocks hr => absurd hr List.not_mem_nil
  · exact fun blocks hr => absurd hr List.not_mem_nil
  · exact fun n hn => absurd (Dict.mem_items.mpr hn) List.not_mem_nil

/-- First come, first served: nobody gives way who has been given tokens. -/
theorem Inv.revokesNone (h : s.Inv config contents) (hqueue : QueueLaws vllm contents) (hcount : CountLaws vllm)
    (hmax : 0 ≤ config.maxNumScheduledTokens) (hpolicy : config.policy = .fcfs) : s.RevokesNone vllm config := by
  obtain ⟨hstart, hahead⟩ := h.start hqueue hmax
  have hordered : (s.start vllm config).Ordered :=
    ⟨fun r hr => absurd hr List.not_mem_nil, fun r hr => absurd hr List.not_mem_nil⟩
  obtain ⟨t, hloop, ht, -, ho⟩ := Pass.runningLoop_rule
    (P := fun t => t.Inv config contents (s.live contents) ∧ t.Ahead ∧ t.Ordered)
    (fun t r ht hr hbudget => by
      obtain ⟨h, hahead, ho⟩ := ht
      obtain ⟨go, t', hresult, h', hahead'⟩ := h.runningTurn hqueue hcount hahead hr hbudget
      exact ⟨go, t', hresult, h', hahead', ho.runningTurn hqueue hcount hpolicy h hr hbudget hresult⟩)
    (n := s.running.length) ⟨hstart, hahead, hordered⟩
  intro t' ht' r hr hkey
  rw [hloop, Except.ok.injEq] at ht'
  subst ht'
  exact ho.kept r hr (ht.keys.mem_iff.mp hkey)

/-- A pass ends as it should, unless the running requests have too many LoRAs. -/
theorem Inv.pass (h : s.Inv config contents) (hqueue : QueueLaws vllm contents) (hcount : CountLaws vllm)
    (hkv : KvLaws vllm config spec) (hmax : 0 ≤ config.maxNumScheduledTokens) (hrevokes : s.RevokesNone vllm config)
    (hrunning : ∀ r ∈ s.running, known r)
    (hwaiting : ∀ r ∈ contents s.waiting, (s.requests r).status = .preempted → known r) :
    s.pass vllm config = .error .maxLoras ∨
      ∃ t : Pass ReqId Group Queue Kv, s.pass vllm config = .ok (t.putBack vllm) ∧
        t.Inv config contents (s.live contents) ∧ (∀ r ∈ t.scheduled, r ∈ t.running) ∧
        t.Follows vllm spec contents known s := by
  obtain ⟨hstart, hahead⟩ := h.start hqueue hmax
  obtain ⟨t, hloop, ht, hf⟩ := (follows_start config hqueue hwaiting).runningLoop hqueue hcount hkv hrunning hstart
    hahead rfl s.running.length
  have hloras := ht.withLoras (if config.maxLoras.isSome then t.loras else ∅)
  have hf := hf.withLoras (if config.maxLoras.isSome then t.loras else ∅)
  have hpass : s.pass vllm config =
      if (config.maxLoras.any (· < (if config.maxLoras.isSome then t.loras else ∅).card)) = true then .error .maxLoras
      else (if t.preemptedReqs = [] then
          Pass.waitingLoop vllm config (vllm.queueLength t.waiting)
            { t with scheduledLoras := if config.maxLoras.isSome then t.loras else ∅ }
        else .ok { t with scheduledLoras := if config.maxLoras.isSome then t.loras else ∅ }).bind fun t =>
          ((t.putBack vllm).check config).map fun _ => t.putBack vllm := by
    unfold Scheduler.pass
    rw [hloop]
    rfl
  by_cases hany : (config.maxLoras.any (· < (if config.maxLoras.isSome then t.loras else ∅).card)) = true
  · exact .inl (hpass.trans (if_pos hany))
  · right
    rw [hpass.trans (if_neg hany)]
    by_cases hnone : t.preemptedReqs = []
    · obtain ⟨t', hresult, ht', hnone', hf'⟩ :=
        hf.waitingLoop hqueue hcount hkv hloras hnone (vllm.queueLength t.waiting)
      have hkept : ∀ r ∈ t'.scheduled, r ∈ t'.running := fun r hr =>
        (ht'.kept r hr).resolve_right fun hpre => absurd (hnone' ▸ hpre) List.not_mem_nil
      refine ⟨t', ?_, ht', hkept, hf'⟩
      rw [if_pos hnone, hresult]
      show ((t'.putBack vllm).check config).map _ = _
      rw [ht'.check hkept]
      rfl
    · have hkept : ∀ r ∈ t.scheduled, r ∈ t.running := fun r hr =>
        (ht.kept r hr).resolve_right fun hpre => hrevokes t hloop r hpre (ht.keys.mem_iff.mpr hr)
      refine ⟨_, ?_, hloras, hkept, hf⟩
      rw [if_neg hnone]
      show ((Pass.putBack vllm _).check config).map _ = _
      rw [hloras.check hkept]
      rfl

/-- The state after a pass, with the counts of the scheduled requests advanced. -/
theorem Inv.schedules (houtput : OutputLaws vllm) (hcount : CountLaws vllm)
    (ht : t.Inv config contents (s.live contents))
    (hkept : ∀ r ∈ t.scheduled, r ∈ t.running) {waiting : Queue} (hwaiting : contents waiting = t.waits contents) :
    s.Schedules config contents (t.output vllm (t.scheduledNewReqs.map t.newData))
      (Pass.afterSchedule vllm { t with waiting := waiting }) := by
  have hlive : (Pass.afterSchedule vllm { t with waiting := waiting }).live contents = s.live contents := by
    rw [← ht.live_eq, ← hwaiting]
    rfl
  have hrequests : (Pass.afterSchedule vllm { t with waiting := waiting }).requests =
      vllm.updateAfterSchedule t.requests t.numScheduledTokens := rfl
  have hunscheduled : ∀ r, r ∉ t.scheduled →
    vllm.updateAfterSchedule t.requests t.numScheduledTokens r = t.requests r := by
    intro r hr
    rw [hcount.advance, Dict.get?_of_notMem (ht.notMem_keys hr).1, Option.getD_none, add_zero]
  have htotal : (t.numScheduledTokens.items.map Prod.snd).sum = t.total := rfl
  have hbudget := ht.budget
  have hnonneg := ht.budget_nonneg
  refine ⟨hlive, ⟨hlive ▸ ht.nodup, fun r hr => ?_, fun r hr => ?_, fun r hr => ?_, ht.room⟩, rfl, ?_, fun p hp => ?_,
    fun p hp => ?_, ?_⟩
  · have hsound := ht.sound r (hlive ▸ hr)
    rw [hrequests, hcount.advance]
    exact ⟨hsound.id_eq, hsound.numTokens_pos, hsound.numTokens_lt⟩
  · have hr : r ∈ t.waits contents := hwaiting ▸ hr
    rw [hrequests, hunscheduled r fun hmem => ht.notMem_waits (hkept r hmem) hr]
    exact ht.waiting r hr
  · have hruns := ht.running r hr
    by_cases hmem : r ∈ t.scheduled
    · obtain ⟨n, hn, htakes⟩ := ht.exists_count hmem
      have hnonneg := hruns.nonneg
      have hpos := htakes.pos
      rw [hrequests, hcount.advance, hn, Option.getD_some]
      exact ⟨hruns.status, by show 0 ≤ (t.requests r).numComputedTokens + n; omega, htakes.le_withSpec,
        htakes.lt_modelLen⟩
    · rw [hrequests, hunscheduled r hmem]
      exact hruns
  · show (t.numScheduledTokens.items.map Prod.snd).sum ≤ config.maxNumScheduledTokens
    omega
  · have hmem : p.1 ∈ t.scheduled := ht.keys.mem_iff.mp (List.mem_map_of_mem hp)
    have hnonneg := (ht.running p.1 (hkept p.1 hmem)).nonneg
    refine ⟨(ht.takes p.1 p.2 hp).pos, ?_⟩
    have hcount' : t.numScheduledTokens.get? p.1 = some p.2 := Dict.mem_items.mp hp
    rw [hrequests, hcount.advance, hcount', Option.getD_some]
    show p.2 ≤ (t.requests p.1).numComputedTokens + p.2
    omega
  · exact hkept p.1 (ht.keys.mem_iff.mp (List.mem_map_of_mem hp))
  · rw [ht.cachedReqsData houtput hkept, List.map_append, List.map_map, List.map_map]
    refine ht.keys.trans ?_
    have hnew : (t.scheduledNewReqs.map t.newData).map NewRequestData.reqId = t.scheduledNewReqs := by
      rw [List.map_map]
      exact List.map_id t.scheduledNewReqs
    have hcached : ∀ (resumed : Bool) (rs : List ReqId), rs.map (CachedRequestData.reqId ∘ t.cachedData resumed) = rs :=
      fun _ rs => List.map_id rs
    show t.scheduled.Perm ((t.scheduledNewReqs.map t.newData).map NewRequestData.reqId ++ _)
    rw [hnew, hcached, hcached, Pass.scheduled, ← List.append_assoc, ← List.append_assoc]
    exact List.Perm.append_right _ List.perm_append_comm

/-- What is handed over is what the manager has for the scheduled requests. -/
theorem Inv.hands (houtput : OutputLaws vllm) (hcount : CountLaws vllm) (ht : t.Inv config contents (s.live contents))
    (hf : t.Follows vllm spec contents known s) (hkept : ∀ r ∈ t.scheduled, r ∈ t.running) {waiting : Queue}
    (hwaiting : contents waiting = t.waits contents) :
    s.Hands vllm contents spec known (t.output vllm (t.scheduledNewReqs.map t.newData))
      (Pass.afterSchedule vllm { t with waiting := waiting }) := by
  have hcomputed : ∀ r n, t.numScheduledTokens.get? r = some n →
      (vllm.updateAfterSchedule t.requests t.numScheduledTokens r).numComputedTokens =
        (t.requests r).numComputedTokens + n := by
    intro r n hn
    rw [hcount.advance, hn]
    rfl
  have hcached : ∀ d ∈ (t.output vllm (t.scheduledNewReqs.map t.newData)).scheduledCachedReqs,
      (∃ r ∈ t.scheduledRunningReqs, d = t.cachedData false r) ∨ ∃ r ∈ t.scheduledResumedReqs,
        d = t.cachedData true r := by
    intro d hd
    rw [ht.cachedReqsData houtput hkept] at hd
    rcases List.mem_append.mp hd with hd | hd
    · obtain ⟨r, hr, rfl⟩ := List.mem_map.mp hd
      exact .inl ⟨r, hr, rfl⟩
    · obtain ⟨r, hr, rfl⟩ := List.mem_map.mp hd
      exact .inr ⟨r, hr, rfl⟩
  refine ⟨fun d hd => ?_, fun d hd hresumed => ?_, fun d hd hran => ?_, fun d hd n hn => ?_, fun d hd n hn => ?_,
    fun r hr hnew => ?_, fun r n hn => ?_, fun r hr hstatus => ?_, hf.finished, rfl⟩
  · obtain ⟨r, hr, rfl⟩ := List.mem_map.mp hd
    have hstarted : r ∈ t.started := List.mem_append_left _ hr
    have hmem : r ∈ t.scheduled := List.mem_append_right _ hstarted
    exact ⟨hf.origin.fresh r hstarted, ((hf.tracked r (hkept r hmem)).started _ hstarted (ht.newBlocks hmem)).symm⟩
  · rcases hcached d hd with ⟨r, hr, rfl⟩ | ⟨r, hr, rfl⟩
    · cases hresumed
    · have hstarted : r ∈ t.started := List.mem_append_right _ hr
      have hmem : r ∈ t.scheduled := List.mem_append_right _ hstarted
      exact ⟨hf.origin.fresh r hstarted, hf.origin.resumed r hr,
        ((hf.tracked r (hkept r hmem)).started _ hstarted (ht.newBlocks hmem)).symm⟩
  · rcases hcached d hd with ⟨r, hr, rfl⟩ | ⟨r, hr, rfl⟩
    · have hmem : r ∈ t.scheduled := List.mem_append_left _ hr
      exact ⟨hf.origin.ran r hr, (hf.tracked r (hkept r hmem)).running _ hr (ht.newBlocks hmem)⟩
    · cases hran
  · obtain ⟨r, hr, rfl⟩ := List.mem_map.mp hd
    exact (hcomputed r n hn).symm
  · rcases hcached d hd with ⟨r, hr, rfl⟩ | ⟨r, hr, rfl⟩ <;> exact (hcomputed r n hn).symm
  · have hmem : r ∉ t.scheduled := fun hmem => hnew (ht.keys.mem_iff.mpr hmem)
    refine ⟨(hf.origin.running r hr).resolve_right fun hstarted => hmem (List.mem_append_right _ hstarted), ?_⟩
    exact (hf.tracked r hr).unscheduled hmem
  · have hmem : r ∈ t.scheduled := ht.keys.mem_iff.mp (List.mem_map_of_mem (Dict.mem_items.mpr hn))
    obtain ⟨slots, hslots, hcovers⟩ := (hf.tracked r (hkept r hmem)).covers n hn
    refine ⟨slots, hslots, ?_⟩
    show (vllm.getBlockIds t.kv r).Covers spec slots
      (vllm.updateAfterSchedule t.requests t.numScheduledTokens r).numComputedTokens
    rw [hcomputed r n hn]
    exact hcovers
  · have hr : r ∈ t.waits contents := hwaiting ▸ hr
    have hstatus : (vllm.updateAfterSchedule t.requests t.numScheduledTokens r).status = .preempted := hstatus
    rw [hcount.advance] at hstatus
    exact hf.origin.waiting r hr hstatus

/-- A pass of the scheduler with what it hands over. -/
theorem Inv.schedule (known : ReqId → Prop) (h : s.Inv config contents) (hqueue : QueueLaws vllm contents)
    (hcount : CountLaws vllm)
    (hkv : KvLaws vllm config spec) (houtput : OutputLaws vllm) (hmax : 0 ≤ config.maxNumScheduledTokens)
    (hrevokes : s.RevokesNone vllm config) (hrunning : ∀ r ∈ s.running, known r)
    (hwaiting : ∀ r ∈ contents s.waiting, (s.requests r).status = .preempted → known r) :
    s.schedule vllm config = .error .maxLoras ∨
      ∃ o s', s.schedule vllm config = .ok (o, s') ∧ s.Schedules config contents o s' ∧
        s.Hands vllm contents spec known o s' := by
  rcases h.pass hqueue hcount hkv hmax hrevokes hrunning hwaiting with hpass | ⟨t, hpass, ht, hkept, hf⟩
  · left
    rw [Scheduler.schedule, hpass]
    rfl
  · right
    obtain ⟨waiting, hputBack, hwaiting⟩ := Pass.putBack_eq hqueue t
    refine ⟨_, _, ?_, Inv.schedules houtput hcount ht hkept hwaiting, Inv.hands houtput hcount ht hf hkept hwaiting⟩
    have hnew : Pass.newReqsData { t with waiting := waiting } = some (t.scheduledNewReqs.map t.newData) :=
      ht.newReqsData
    rw [Scheduler.schedule, hpass, hputBack, Except.bind]
    simp only [hnew]
    rfl

end Scheduler

end UnifiedCache.Integration
