import UnifiedCache.Integration.SchedulePass

/-! The loop over the waiting requests, which nobody has given way before. -/

namespace UnifiedCache.Integration

variable {ReqId Group Queue Kv : Type} [DecidableEq ReqId] {vllm : Vllm ReqId Group Queue Kv} {config : SchedulerConfig}
  {contents : Queue → Multiset ReqId} {live : Multiset ReqId} {t : Pass ReqId Group Queue Kv} {r : ReqId}
  {waiting : Queue}

namespace Pass

omit [DecidableEq ReqId] in
theorem Inv.notMem_scheduled (h : t.Inv config contents live) (hnone : t.preemptedReqs = [])
    (hr : r ∈ t.waits contents) :
    r ∉ t.scheduled := by
  intro hmem
  rcases h.kept r hmem with hrun | hpre
  · exact h.notMem_waits hrun hr
  · rw [hnone] at hpre
    cases hpre

/-- The status of a waiting request is renewed. -/
theorem Inv.setStatus (h : t.Inv config contents live) (hnone : t.preemptedReqs = []) (hr : r ∈ t.waits contents) :
    (t.setRequest r { t.requests r with status := .waiting }).Inv config contents live := by
  have hother : ∀ r', r' ≠ r → (t.setRequest r { t.requests r with status := .waiting }).requests r' = t.requests r' :=
    fun r' hr' => Function.update_of_ne hr' ..
  have hself : (t.setRequest r { t.requests r with status := .waiting }).requests r =
      { t.requests r with status := .waiting } := Function.update_self ..
  have hsound := h.sound r (h.live_of_waits hr)
  refine ⟨h.nodup, h.live_eq, fun r' hr' => ?_, fun r' hr' => ?_, fun r' hr' => ?_, h.room, h.budget, h.budget_nonneg,
    h.keys, h.blocks, fun r' n hn => ?_, h.kept, h.preempted⟩
  · by_cases heq : r' = r
    · rw [heq, hself]
      exact ⟨hsound.id_eq, hsound.numTokens_pos, hsound.numTokens_lt⟩
    · rw [hother r' heq]
      exact h.sound r' hr'
  · by_cases heq : r' = r
    · rw [heq, hself]
      exact ⟨.inl rfl, (h.waiting r hr).computed⟩
    · rw [hother r' heq]
      exact h.waiting r' hr'
  · rw [hother r' fun heq => h.notMem_waits hr' (heq ▸ hr)]
    exact h.running r' hr'
  · have hkey : r' ∈ t.scheduled := h.keys.mem_iff.mp (List.mem_map_of_mem hn)
    rw [hother r' fun heq => h.notMem_scheduled hnone hr (heq ▸ hkey)]
    exact h.takes r' n hn

/-- What a request at the head of the queue finds: nothing has changed but its status. -/
structure AtHead (config : SchedulerConfig) (contents : Queue → Multiset ReqId) (live : Multiset ReqId)
    (t : Pass ReqId Group Queue Kv) (r : ReqId) (ready : Bool) (t' : Pass ReqId Group Queue Kv) : Prop where
  inv : t'.Inv config contents live
  queues : t'.waiting = t.waiting ∧ t'.skippedWaitingRequests = t.skippedWaitingRequests
  running : t'.running = t.running
  budget : t'.tokenBudget = t.tokenBudget
  scheduled : t'.scheduled = t.scheduled
  preempted : t'.preemptedReqs = t.preemptedReqs
  status : ready = true → (t'.requests r).status = .waiting ∨ (t'.requests r).status = .preempted

theorem Inv.becomesReady (vllm : Vllm ReqId Group Queue Kv) (h : t.Inv config contents live)
    (hnone : t.preemptedReqs = []) (hr : r ∈ t.waits contents) :
    AtHead config contents live t r (t.becomesReady vllm r).1 (t.becomesReady vllm r).2 := by
  have hstatus := (h.waiting r hr).status
  cases hs : (t.requests r).status with
  | waiting =>
    have heq : t.becomesReady vllm r = (true, t) := by simp only [Pass.becomesReady, hs]
    rw [heq]
    exact ⟨h, ⟨rfl, rfl⟩, rfl, rfl, rfl, rfl, fun _ => .inl hs⟩
  | preempted =>
    have heq : t.becomesReady vllm r = (true, t) := by simp only [Pass.becomesReady, hs]
    rw [heq]
    exact ⟨h, ⟨rfl, rfl⟩, rfl, rfl, rfl, rfl, fun _ => .inr hs⟩
  | waitingForFsm =>
    by_cases hgrammar : vllm.hasGrammar t.kv r = true
    · have heq : t.becomesReady vllm r = (true, t.setRequest r { t.requests r with status := .waiting }) := by
        simp only [Pass.becomesReady, hs, if_pos hgrammar]
      have hself : (t.setRequest r { t.requests r with status := .waiting }).requests r =
          { t.requests r with status := .waiting } := Function.update_self ..
      rw [heq]
      exact ⟨h.setStatus hnone hr, ⟨rfl, rfl⟩, rfl, rfl, rfl, rfl, fun _ => .inl (by rw [hself])⟩
    · have heq : t.becomesReady vllm r = (false, t) := by simp only [Pass.becomesReady, hs, if_neg hgrammar]
      rw [heq]
      exact ⟨h, ⟨rfl, rfl⟩, rfl, rfl, rfl, rfl, fun hready => absurd hready (by simp)⟩
  | waitingForRemoteKvs | running | finished =>
    rw [hs] at hstatus
    rcases hstatus with hs | hs | hs <;> cases hs

/-- The requests that wait, with one of them put aside. -/
theorem Inv.skip (hqueue : QueueLaws vllm contents) (h : t.Inv config contents live)
    (hpop : contents t.waiting = r ::ₘ contents waiting) : (t.skip vllm r waiting).Inv config contents live := by
  have hr : r ∈ t.waits contents := by
    rw [waits, hpop]
    exact Multiset.mem_add.mpr (.inl (Multiset.mem_cons_self r _))
  have hwaits : (t.skip vllm r waiting).waits contents = t.waits contents := by
    show contents waiting + contents (vllm.prependRequest t.skippedWaitingRequests (t.requests r)) = _
    rw [hqueue.prepend, (h.sound r (h.live_of_waits hr)).id_eq, waits, hpop, Multiset.add_cons, Multiset.cons_add]
  refine ⟨h.nodup, ?_, h.sound, ?_, h.running, h.room, h.budget, h.budget_nonneg, h.keys, h.blocks, h.takes, h.kept, ?_⟩
  · rw [hwaits]
    exact h.live_eq
  · rw [hwaits]
    exact h.waiting
  · rw [hwaits]
    exact h.preempted

/-- A waiting request starts to run. -/
theorem Inv.startRunning (h : t.Inv config contents live) (hnone : t.preemptedReqs = [])
    (hpop : contents t.waiting = r ::ₘ contents waiting) (hroom : t.running.length < config.maxNumRunningReqs)
    {computed n : Int} (hcomputed : 0 ≤ computed) (hpos : 0 < n) (hle : computed + n ≤ (t.requests r).numTokens)
    (hn : n ≤ t.tokenBudget) {kv : Kv} {new resumed : List ReqId}
    (hperm : (t.scheduledRunningReqs ++ (new ++ resumed)).Perm (t.scheduled ++ [r])) :
    ({ t with kv := kv, scheduledNewReqs := new, scheduledResumedReqs := resumed }.startRunning vllm config r waiting
      computed n).Inv config contents live := by
  have hr : r ∈ t.waits contents := by
    rw [waits, hpop]
    exact Multiset.mem_add.mpr (.inl (Multiset.mem_cons_self r _))
  have hsound := h.sound r (h.live_of_waits hr)
  have hwaits : t.waits contents = r ::ₘ (contents waiting + contents t.skippedWaitingRequests) := by
    rw [waits, hpop, Multiset.cons_add]
  have hnew := h.notMem_scheduled hnone hr
  obtain ⟨hitems, hblocks⟩ := h.grant_items hnew (vllm.getBlockIds kv r) n
  generalize hstarted : ({ t with kv := kv, scheduledNewReqs := new, scheduledResumedReqs := resumed }.startRunning vllm
    config r waiting computed n) = t'
  have hother : ∀ r', r' ≠ r → t'.requests r' = t.requests r' := fun r' hr' => by
    rw [← hstarted]
    exact Function.update_of_ne hr' ..
  have hself : t'.requests r = { t.requests r with
      status := .running
      numComputedTokens := computed
      numCachedTokens := if (t.requests r).numCachedTokens < 0 then computed else (t.requests r).numCachedTokens } := by
    rw [← hstarted]
    exact Function.update_self ..
  have hwaits' : t'.waits contents = contents waiting + contents t.skippedWaitingRequests := by rw [← hstarted]; rfl
  have hrunning : t'.running = t.running ++ [r] := by rw [← hstarted]; rfl
  have hscheduled : t'.scheduled = t.scheduledRunningReqs ++ (new ++ resumed) := by rw [← hstarted]; rfl
  have hpreempted : t'.preemptedReqs = [] := by rw [← hstarted]; exact hnone
  have hitems' : t'.numScheduledTokens.items = t.numScheduledTokens.items ++ [(r, n)] := by
    rw [← hstarted]
    exact hitems
  have hblocks' : t'.reqToNewBlockIds.items = t.reqToNewBlockIds.items ++ [(r, vllm.getBlockIds kv r)] := by
    rw [← hstarted]
    exact hblocks
  have hbudget : t'.tokenBudget = t.tokenBudget - n := by rw [← hstarted]; rfl
  have hwithSpec : (t'.requests r).numTokensWithSpec = (t.requests r).numTokensWithSpec := by rw [hself]; rfl
  have hspec : (t.requests r).numTokens ≤ (t.requests r).numTokensWithSpec := by
    rw [Request.numTokensWithSpec]
    omega
  have hcomputed' : (t'.requests r).numComputedTokens = computed := by rw [hself]
  have hlt := hsound.numTokens_lt
  refine ⟨h.nodup, ?_, fun r' hr' => ?_, fun r' hr' => ?_, fun r' hr' => ?_, ?_, ?_, ?_, ?_, ?_, fun r' n' hn' => ?_,
    fun r' hr' => ?_, fun r' hr' => ?_⟩
  · rw [hwaits', hrunning, ← h.live_eq, hwaits, ← Multiset.coe_add, Multiset.coe_singleton, Multiset.cons_add,
      ← add_assoc, ← Multiset.singleton_add r]
    exact add_comm _ _
  · by_cases heq : r' = r
    · rw [heq, hself]
      exact ⟨hsound.id_eq, hsound.numTokens_pos, hsound.numTokens_lt⟩
    · rw [hother r' heq]
      exact h.sound r' hr'
  · rw [hwaits'] at hr'
    have hne : r' ≠ r := by
      have hnodup := h.nodup
      rw [← h.live_eq, Multiset.nodup_add, hwaits, Multiset.nodup_cons] at hnodup
      exact fun heq => hnodup.1.1 (heq ▸ hr')
    rw [hother r' hne]
    exact h.waiting r' (hwaits ▸ Multiset.mem_cons_of_mem hr')
  · rw [hrunning] at hr'
    rcases List.mem_append.mp hr' with hr' | hr'
    · rw [hother r' fun heq => h.notMem_waits hr' (heq ▸ hr)]
      exact h.running r' hr'
    · rw [List.mem_singleton.mp hr']
      exact ⟨by rw [hself], by omega, by omega, by omega⟩
  · rw [hrunning, List.length_append, List.length_singleton]
    omega
  · rw [hbudget, total, hitems', List.map_append, List.sum_append, List.map_singleton, List.sum_singleton, ← h.budget,
      total]
    omega
  · rw [hbudget]
    omega
  · rw [hitems', List.map_append, List.map_singleton, hscheduled]
    exact (h.keys.append_right [r]).trans hperm.symm
  · rw [hblocks', hitems', List.map_append, List.map_append, h.blocks]
    rfl
  · rw [hitems'] at hn'
    rcases List.mem_append.mp hn' with hn' | hn'
    · rw [hother r' fun heq => (h.notMem_keys hnew).1 (heq ▸ List.mem_map_of_mem hn')]
      exact h.takes r' n' hn'
    · obtain ⟨rfl, rfl⟩ := Prod.mk.inj (List.mem_singleton.mp hn')
      exact ⟨hpos, by omega, by omega⟩
  · rw [hscheduled] at hr'
    rw [hrunning]
    rcases List.mem_append.mp (hperm.mem_iff.mp hr') with hr' | hr'
    · exact (h.kept r' hr').imp (List.mem_append_left _) fun hpre => absurd (hnone ▸ hpre) List.not_mem_nil
    · exact .inl (List.mem_append_right _ hr')
  · rw [hpreempted] at hr'
    cases hr'

omit [DecidableEq ReqId] in
variable (config) in
theorem limitTokens_pos {n : Int} (hn : 0 < n) : 0 < limitTokens config n := by
  unfold limitTokens
  split_ifs <;> omega

/-- The tokens of a waiting request that are in the cache. -/
theorem computedBlocks_bounds (hcount : CountLaws vllm) {request : Request ReqId} (hwaits : request.Waits)
    (hpos : 0 < request.numTokens) :
    (t.computedBlocks vllm request).2 = (vllm.getComputedBlocks t.kv request).2 ∧
      0 ≤ (t.computedBlocks vllm request).2 ∧ (t.computedBlocks vllm request).2 < request.numTokens := by
  rw [computedBlocks, if_pos hwaits.computed]
  exact ⟨rfl, hcount.computed t.kv request hpos⟩

/-- Where a waiting request is entered when it starts to run. -/
def Enters (t : Pass ReqId Group Queue Kv) (r : ReqId) (new resumed : List ReqId) : Prop :=
  new = t.scheduledNewReqs ++ [r] ∧ resumed = t.scheduledResumedReqs ∨
    new = t.scheduledNewReqs ∧ resumed = t.scheduledResumedReqs ++ [r] ∧ (t.requests r).status = .preempted

omit [DecidableEq ReqId] in
theorem Enters.perm {new resumed : List ReqId} (h : t.Enters r new resumed) :
    (t.scheduledRunningReqs ++ (new ++ resumed)).Perm (t.scheduled ++ [r]) := by
  rcases h with ⟨rfl, rfl⟩ | ⟨rfl, rfl, -⟩
  · simp only [scheduled, List.append_assoc]
    exact List.Perm.append_left _ (List.Perm.append_left _ List.perm_append_comm)
  · simp only [scheduled, List.append_assoc]
    exact List.Perm.refl _

/-- A waiting request is put aside, or the loop ends with it, or it starts to run. -/
theorem admitHead_rule (hcount : CountLaws vllm) (hwaits : (t.requests r).Waits) (hpos : 0 < (t.requests r).numTokens)
    (hstatus : (t.requests r).status = .waiting ∨ (t.requests r).status = .preempted) (hbudget : 0 < t.tokenBudget)
    (slots : Int) :
    t.admitHead vllm config r waiting slots = .ok (true, t.skip vllm r waiting) ∨
      t.admitHead vllm config r waiting slots = .ok (false, t) ∨
      ∃ n kv, 0 < n ∧ n ≤ t.tokenBudget ∧
        (vllm.getComputedBlocks t.kv (t.requests r)).2 + n ≤ (t.requests r).numTokens ∧
        ((vllm.allocateSlots t.kv (t.requests r) n (vllm.getComputedBlocks t.kv (t.requests r)).2
              (vllm.getComputedBlocks t.kv (t.requests r)).1 0 config.numLookaheadTokens slots = .ok (none, kv) ∧
            t.admitHead vllm config r waiting slots = .ok (false, { t with kv := kv })) ∨
          ∃ blocks new resumed inputs budget,
            vllm.allocateSlots t.kv (t.requests r) n (vllm.getComputedBlocks t.kv (t.requests r)).2
              (vllm.getComputedBlocks t.kv (t.requests r)).1 0 config.numLookaheadTokens slots = .ok (some blocks, kv) ∧
            t.Enters r new resumed ∧
            t.admitHead vllm config r waiting slots = .ok (true,
              ({ t with
                kv := if config.hasConnector then vllm.updateStateAfterAlloc kv (t.requests r)
                  (fun g => (vllm.getComputedBlocks t.kv (t.requests r)).1 g ++ blocks g) 0 else kv
                scheduledNewReqs := new
                scheduledResumedReqs := resumed }.startRunning vllm config r waiting
                  (vllm.getComputedBlocks t.kv (t.requests r)).2 n).scheduleEncoder vllm r inputs budget)) := by
  obtain ⟨hcomputed, hnonneg, hlt⟩ := computedBlocks_bounds (t := t) hcount hwaits hpos
  have hblocks : t.computedBlocks vllm (t.requests r) = vllm.getComputedBlocks t.kv (t.requests r) :=
    if_pos hwaits.computed
  rw [hcomputed] at hnonneg hlt
  set computed := (vllm.getComputedBlocks t.kv (t.requests r)).2 with hset
  have hlimit := limitTokens_pos config (n := (t.requests r).numTokens - computed) (by omega)
  have hlimit' := limitTokens_bounds config (n := (t.requests r).numTokens - computed) (by omega)
  have hadmitted : t.admitHead vllm config r waiting slots =
      if (!config.chunkedPrefillEnabled && t.tokenBudget < limitTokens config
        ((t.requests r).numTokens - computed)) = true
      then .ok (true, t.skip vllm r waiting)
      else if min (limitTokens config ((t.requests r).numTokens - computed)) t.tokenBudget ≤ 0 then .error .numNewTokens
      else t.admitFor vllm config r waiting slots computed (t.encoderInputs vllm (t.requests r) computed
        (min (limitTokens config ((t.requests r).numTokens - computed)) t.tokenBudget)) := by
    unfold admitHead
    simp only [if_pos hwaits.computed, hcomputed]
  have hleft : ¬ min (limitTokens config ((t.requests r).numTokens - computed)) t.tokenBudget ≤ 0 := by omega
  rw [if_neg hleft] at hadmitted
  by_cases hchunked : (!config.chunkedPrefillEnabled &&
      t.tokenBudget < limitTokens config ((t.requests r).numTokens - computed)) = true
  · exact .inl (hadmitted.trans (if_pos hchunked))
  · rw [hadmitted.trans (if_neg hchunked)]
    right
    obtain ⟨hlow, hhigh⟩ := encoderInputs_bounds (t := t) hcount (t.requests r) computed
      (n := min (limitTokens config ((t.requests r).numTokens - computed)) t.tokenBudget) (by omega)
    cases hresult : t.encoderInputs vllm (t.requests r) computed
      (min (limitTokens config ((t.requests r).numTokens - computed)) t.tokenBudget) with
    | mk inputs rest =>
    cases rest with
    | mk n budget =>
    rw [hresult] at hlow hhigh
    by_cases hn : n = 0
    · exact .inl (if_pos hn)
    · right
      have hpos : 0 < n := lt_of_le_of_ne hlow (Ne.symm hn)
      have hhigh : n ≤ min (limitTokens config ((t.requests r).numTokens - computed)) t.tokenBudget := hhigh
      obtain ⟨blocks, kv, halloc⟩ : ∃ blocks kv, vllm.allocateSlots t.kv (t.requests r) n computed
          (vllm.getComputedBlocks t.kv (t.requests r)).1 0 config.numLookaheadTokens slots = .ok (blocks, kv) := by
        rw [Vllm.allocateSlots, if_neg hn]
        split_ifs <;> exact ⟨_, _, rfl⟩
      have hadmitted : t.admitFor vllm config r waiting slots computed (inputs, n, budget) =
          t.admitWith vllm config r waiting (t.computedBlocks vllm (t.requests r)).1 computed n inputs budget
            (vllm.allocateSlots t.kv (t.requests r) n (t.computedBlocks vllm (t.requests r)).2
              (t.computedBlocks vllm (t.requests r)).1 0 config.numLookaheadTokens slots) := if_neg hn
      rw [hblocks, ← hset, halloc] at hadmitted
      refine ⟨n, kv, hpos, by omega, by omega, ?_⟩
      cases blocks with
      | none =>
        exact .inl ⟨halloc, hadmitted⟩
      | some blocks =>
        rcases hstatus with hstatus | hstatus
        · refine .inr ⟨blocks, t.scheduledNewReqs ++ [r], t.scheduledResumedReqs, inputs, budget, halloc,
            .inl ⟨rfl, rfl⟩, ?_⟩
          rw [hadmitted]
          simp only [admitWith, scheduleWaiting, hstatus]
        · refine .inr ⟨blocks, t.scheduledNewReqs, t.scheduledResumedReqs ++ [r], inputs, budget, halloc,
            .inr ⟨rfl, rfl, hstatus⟩, ?_⟩
          rw [hadmitted]
          simp only [admitWith, scheduleWaiting, hstatus]

/-- A turn of the loop: the request is put aside, or the loop ends with it, or it starts to run. -/
theorem waitingTurn_rule (waiting : Queue) (hcount : CountLaws vllm) (h : t.Inv config contents live)
    (hnone : t.preemptedReqs = [])
    (hr : r ∈ t.waits contents) (hbudget : 0 < t.tokenBudget) :
    ∃ t₁ ready, t₁ = ((t.estimate vllm config r).2.becomesReady vllm r).2 ∧ AtHead config contents live t r ready t₁ ∧
      (t.waitingTurn vllm config r waiting = .ok (true, t₁.skip vllm r waiting) ∨
        t.waitingTurn vllm config r waiting = .ok (false, t₁) ∨
        ∃ n kv, 0 < n ∧ n ≤ t₁.tokenBudget ∧
          (vllm.getComputedBlocks t₁.kv (t₁.requests r)).2 + n ≤ (t₁.requests r).numTokens ∧
          ((vllm.allocateSlots t₁.kv (t₁.requests r) n (vllm.getComputedBlocks t₁.kv (t₁.requests r)).2
                (vllm.getComputedBlocks t₁.kv (t₁.requests r)).1 0 config.numLookaheadTokens
                (t.estimate vllm config r).1 = .ok (none, kv) ∧
              t.waitingTurn vllm config r waiting = .ok (false, { t₁ with kv := kv })) ∨
            ∃ blocks new resumed inputs budget,
              vllm.allocateSlots t₁.kv (t₁.requests r) n (vllm.getComputedBlocks t₁.kv (t₁.requests r)).2
                (vllm.getComputedBlocks t₁.kv (t₁.requests r)).1 0 config.numLookaheadTokens
                (t.estimate vllm config r).1 = .ok (some blocks, kv) ∧
              t₁.Enters r new resumed ∧
              t.waitingTurn vllm config r waiting = .ok (true,
                ({ t₁ with
                  kv := if config.hasConnector then vllm.updateStateAfterAlloc kv (t₁.requests r)
                    (fun g => (vllm.getComputedBlocks t₁.kv (t₁.requests r)).1 g ++ blocks g) 0 else kv
                  scheduledNewReqs := new
                  scheduledResumedReqs := resumed }.startRunning vllm config r waiting
                    (vllm.getComputedBlocks t₁.kv (t₁.requests r)).2 n).scheduleEncoder vllm r inputs budget))) := by
  have hhead := Inv.becomesReady vllm (h.estimate vllm r) hnone hr
  refine ⟨((t.estimate vllm config r).2.becomesReady vllm r).2, ((t.estimate vllm config r).2.becomesReady vllm r).1,
    rfl,
    ⟨hhead.inv, hhead.queues, hhead.running, hhead.budget, hhead.scheduled, hhead.preempted, hhead.status⟩, ?_⟩
  set t₁ := ((t.estimate vllm config r).2.becomesReady vllm r).2 with ht₁
  have hturn : t.waitingTurn vllm config r waiting =
      if (!((t.estimate vllm config r).2.becomesReady vllm r).1 || t₁.exceedsLoras config (t₁.requests r)) = true
      then .ok (true, t₁.skip vllm r waiting)
      else t₁.admitHead vllm config r waiting (t.estimate vllm config r).1 := rfl
  by_cases hput : (!((t.estimate vllm config r).2.becomesReady vllm r).1 || t₁.exceedsLoras config
    (t₁.requests r)) = true
  · exact .inl (hturn.trans (if_pos hput))
  · rw [hturn.trans (if_neg hput)]
    have hready : ((t.estimate vllm config r).2.becomesReady vllm r).1 = true := by
      cases hb : ((t.estimate vllm config r).2.becomesReady vllm r).1 with
      | true => rfl
      | false => exact absurd (by rw [hb]; rfl) hput
    have hr₁ : r ∈ t₁.waits contents := by
      rw [waits, hhead.queues.1, hhead.queues.2]
      exact hr
    have hbudget₁ : t₁.tokenBudget = t.tokenBudget := hhead.budget
    exact admitHead_rule hcount (hhead.inv.waiting r hr₁)
      (hhead.inv.sound r (hhead.inv.live_of_waits hr₁)).numTokens_pos (hhead.status hready) (hbudget₁ ▸ hbudget)
      (t.estimate vllm config r).1

theorem Inv.waitingTurn (hqueue : QueueLaws vllm contents) (hcount : CountLaws vllm) (h : t.Inv config contents live)
    (hnone : t.preemptedReqs = []) (hpop : vllm.popRequest t.waiting = some (r, waiting)) (hbudget : 0 < t.tokenBudget)
    (hroom : t.running.length ≠ config.maxNumRunningReqs) :
    ∃ go t', t.waitingTurn vllm config r waiting = .ok (go, t') ∧ t'.Inv config contents live ∧ t'.preemptedReqs =
      [] := by
  have hcontents := hqueue.pop_some _ _ _ hpop
  have hr : r ∈ t.waits contents := by
    rw [waits, hcontents]
    exact Multiset.mem_add.mpr (.inl (Multiset.mem_cons_self r _))
  obtain ⟨t₁, ready, -, hhead, hresult⟩ := waitingTurn_rule waiting hcount h hnone hr hbudget
  have hcontents₁ : contents t₁.waiting = r ::ₘ contents waiting := by
    rw [hhead.queues.1]
    exact hcontents
  have hnone₁ : t₁.preemptedReqs = [] := hhead.preempted.trans hnone
  rcases hresult with
    hresult | hresult | ⟨n, kv, hpos, hn, hle,
      ⟨-, hresult⟩ | ⟨blocks, new, resumed, inputs, budget, -, henters, hresult⟩⟩
  · exact ⟨true, _, hresult, Inv.skip hqueue hhead.inv hcontents₁, hnone₁⟩
  · exact ⟨false, t₁, hresult, hhead.inv, hnone₁⟩
  · exact ⟨false, _, hresult, hhead.inv.withKv kv _ _ _ _, hnone₁⟩
  · refine ⟨true, _, hresult, Inv.scheduleEncoder ?_ r inputs budget, ?_⟩
    · have hroom₁ : t₁.running.length < config.maxNumRunningReqs := by
        rw [hhead.running]
        exact lt_of_le_of_ne h.room hroom
      have hr₁ : r ∈ t₁.waits contents := by
        rw [waits, hhead.queues.1, hhead.queues.2]
        exact hr
      have hnonneg := (hcount.computed t₁.kv (t₁.requests r)
        (hhead.inv.sound r (hhead.inv.live_of_waits hr₁)).numTokens_pos).1
      exact hhead.inv.startRunning hnone₁ hcontents₁ hroom₁ hnonneg hpos hle hn henters.perm
    · rw [(scheduleEncoder_fields vllm (r := r) inputs budget).2.2.2]
      exact hnone₁

/-- What every turn keeps holds at the end of the loop, which nothing interrupts. -/
theorem waitingLoop_rule {P : Pass ReqId Group Queue Kv → Prop}
    (hturn : ∀ t r waiting, P t → vllm.popRequest t.waiting = some (r, waiting) → 0 < t.tokenBudget →
      t.running.length ≠ config.maxNumRunningReqs → ∃ go t', t.waitingTurn vllm config r waiting = .ok (go, t') ∧ P t')
    {n : Nat} (h : P t) : ∃ t', waitingLoop vllm config n t = .ok t' ∧ P t' := by
  induction n generalizing t with
  | zero => exact ⟨t, rfl, h⟩
  | succ n ih =>
    rw [waitingLoop]
    cases hpop : vllm.popRequest t.waiting with
    | none => exact ⟨t, rfl, h⟩
    | some popped =>
      cases popped with
      | mk r waiting =>
      dsimp only
      split_ifs with hbudget hroom
      · exact ⟨t, rfl, h⟩
      · obtain ⟨go, t', hresult, h'⟩ := hturn t r waiting h hpop hbudget hroom
        rw [hresult]
        cases go with
        | true => exact ih h'
        | false => exact ⟨t', rfl, h'⟩
      · exact ⟨t, rfl, h⟩

/-- Who was put aside waits again. -/
theorem putBack_eq (hqueue : QueueLaws vllm contents) (t : Pass ReqId Group Queue Kv) :
    ∃ waiting, t.putBack vllm = { t with waiting := waiting } ∧ contents waiting = t.waits contents := by
  unfold Pass.putBack
  split_ifs with hnone
  · refine ⟨t.waiting, rfl, ?_⟩
    rw [hqueue.length, Multiset.card_eq_zero] at hnone
    rw [waits, hnone, add_zero]
  · exact ⟨_, rfl, hqueue.prependAll _ _⟩

end Pass

end UnifiedCache.Integration
