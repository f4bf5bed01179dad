import UnifiedCache.Integration.Scheduler

/-! What a pass of the scheduler keeps: no request is lost, the budgets hold, and what is granted fits. -/

namespace UnifiedCache.Integration

variable {ReqId Group Queue Kv : Type}

/-- The queue of the waiting requests, seen as the requests in it. -/
structure QueueLaws [DecidableEq ReqId] (vllm : Vllm ReqId Group Queue Kv) (contents : Queue → Multiset ReqId)
    : Prop where
  create : contents vllm.createRequestQueue = 0
  add : ∀ q request, contents (vllm.addRequest q request) = request.requestId ::ₘ contents q
  prepend : ∀ q request, contents (vllm.prependRequest q request) = request.requestId ::ₘ contents q
  prependAll : ∀ q q', contents (vllm.prependRequests q q') = contents q + contents q'
  pop_none : ∀ q, vllm.popRequest q = none → contents q = 0
  pop_some : ∀ q r q', vllm.popRequest q = some (r, q') → contents q = r ::ₘ contents q'
  remove : ∀ q r, contents (vllm.removeRequest q r) = (contents q).erase r
  length : ∀ q, vllm.queueLength q = (contents q).card

/-- The counts that the scheduler is given. A cache hit leaves at least one token to compute. -/
structure CountLaws [DecidableEq ReqId] (vllm : Vllm ReqId Group Queue Kv) : Prop where
  encoder : ∀ kv request computed new budget, 0 ≤ new →
    0 ≤ (vllm.tryScheduleEncoderInputs kv request computed new budget).2.1 ∧
      (vllm.tryScheduleEncoderInputs kv request computed new budget).2.1 ≤ new
  computed : ∀ kv request, 0 < request.numTokens →
    0 ≤ (vllm.getComputedBlocks kv request).2 ∧ (vllm.getComputedBlocks kv request).2 < request.numTokens
  advance : ∀ requests (counts : Dict ReqId Int) r, vllm.updateAfterSchedule requests counts r =
    { requests r with numComputedTokens := (requests r).numComputedTokens + (counts.get? r).getD 0 }

namespace Request

variable (config : SchedulerConfig) (r : ReqId) (request : Request ReqId)

/-- What holds of a request until it is through: it stops before it has as many tokens as the model takes. -/
structure Sound : Prop where
  id_eq : request.requestId = r
  numTokens_pos : 0 < request.numTokens
  numTokens_lt : request.numTokens < config.maxModelLen

structure Waits : Prop where
  status : request.status = .waiting ∨ request.status = .waitingForFsm ∨ request.status = .preempted
  computed : request.numComputedTokens = 0

structure Runs : Prop where
  status : request.status = .running
  nonneg : 0 ≤ request.numComputedTokens
  le_withSpec : request.numComputedTokens ≤ request.numTokensWithSpec
  lt_modelLen : request.numComputedTokens < config.maxModelLen

/-- A number of tokens that a request can be given. -/
structure Takes (n : Int) : Prop where
  pos : 0 < n
  le_withSpec : request.numComputedTokens + n ≤ request.numTokensWithSpec
  lt_modelLen : request.numComputedTokens + n < config.maxModelLen

end Request

namespace Pass

variable (config : SchedulerConfig) (contents : Queue → Multiset ReqId) (live : Multiset ReqId)

/-- Who waits, whether put aside or not. -/
def waits (t : Pass ReqId Group Queue Kv) : Multiset ReqId :=
  contents t.waiting + contents t.skippedWaitingRequests

def scheduled (t : Pass ReqId Group Queue Kv) : List ReqId :=
  t.scheduledRunningReqs ++ (t.scheduledNewReqs ++ t.scheduledResumedReqs)

def total (t : Pass ReqId Group Queue Kv) : Int := (t.numScheduledTokens.items.map Prod.snd).sum

structure Inv (t : Pass ReqId Group Queue Kv) : Prop where
  nodup : live.Nodup
  live_eq : t.waits contents + t.running = live
  sound : ∀ r ∈ live, (t.requests r).Sound config r
  waiting : ∀ r ∈ t.waits contents, (t.requests r).Waits
  running : ∀ r ∈ t.running, (t.requests r).Runs config
  room : t.running.length ≤ config.maxNumRunningReqs
  budget : t.tokenBudget + t.total = config.maxNumScheduledTokens
  budget_nonneg : 0 ≤ t.tokenBudget
  keys : (t.numScheduledTokens.items.map Prod.fst).Perm t.scheduled
  blocks : t.reqToNewBlockIds.items.map Prod.fst = t.numScheduledTokens.items.map Prod.fst
  takes : ∀ r n, (r, n) ∈ t.numScheduledTokens.items → (t.requests r).Takes config n
  kept : ∀ r ∈ t.scheduled, r ∈ t.running ∨ r ∈ t.preemptedReqs
  preempted : ∀ r ∈ t.preemptedReqs, r ∈ t.waits contents

/-- Nobody who is still to come in the loop over the running requests has been given tokens. -/
def Ahead (t : Pass ReqId Group Queue Kv) : Prop := ∀ r ∈ t.scheduled, r ∉ t.running.drop t.reqIndex

variable {config contents live} {t : Pass ReqId Group Queue Kv} {r : ReqId} {vllm : Vllm ReqId Group Queue Kv}

namespace Inv

theorem running_nodup (h : t.Inv config contents live) : t.running.Nodup := by
  have hnodup := h.nodup
  rw [← h.live_eq, Multiset.nodup_add] at hnodup
  exact hnodup.2.1

theorem notMem_waits (h : t.Inv config contents live) (hr : r ∈ t.running) : r ∉ t.waits contents := by
  have hnodup := h.nodup
  rw [← h.live_eq, Multiset.nodup_add] at hnodup
  exact fun hw => Multiset.disjoint_left.mp hnodup.2.2 hw hr

theorem live_of_running (h : t.Inv config contents live) (hr : r ∈ t.running) : r ∈ live := by
  rw [← h.live_eq]
  exact Multiset.mem_add.mpr (.inr hr)

theorem live_of_waits (h : t.Inv config contents live) (hr : r ∈ t.waits contents) : r ∈ live := by
  rw [← h.live_eq]
  exact Multiset.mem_add.mpr (.inl hr)

/-- What the scheduler only calls or counts does not matter. -/
theorem withKv (h : t.Inv config contents live) (kv : Kv) (slots : Dict ReqId Int) (inputs : Dict ReqId (List Nat))
    (encoderBudget : Int) (reqIndex : Nat) :
    Inv config contents live
      { t with
        kv := kv, reqSparsedSlots := slots, scheduledEncoderInputs := inputs, encoderBudget := encoderBudget
        reqIndex := reqIndex } :=
  ⟨h.nodup, h.live_eq, h.sound, h.waiting, h.running, h.room, h.budget, h.budget_nonneg, h.keys, h.blocks, h.takes,
    h.kept, h.preempted⟩

variable [DecidableEq ReqId]

theorem estimate (vllm : Vllm ReqId Group Queue Kv) (h : t.Inv config contents live) (r : ReqId) :
    (t.estimate vllm config r).2.Inv config contents live :=
  h.withKv _ _ _ _ _

theorem scheduleEncoder (h : t.Inv config contents live) (r : ReqId) (inputs : Option (List Nat)) (budget : Int) :
    (t.scheduleEncoder vllm r inputs budget).Inv config contents live := by
  cases inputs with
  | none => exact h
  | some is =>
    cases is with
    | nil => exact h
    | cons i is => exact h.withKv _ _ _ _ _

end Inv

end Pass

section Victim

variable {config : SchedulerConfig} {requests : ReqId → Request ReqId}
  {running running' : List ReqId} {v : ReqId}

theorem lowestPriority_mem (hv : lowestPriority requests running = some v) : v ∈ running := by
  cases running with
  | nil => cases hv
  | cons x xs =>
    rw [lowestPriority, Option.some_inj] at hv
    rw [← hv]
    clear hv
    induction xs using List.reverseRecOn with
    | nil => exact List.mem_cons_self
    | append_singleton xs y ih =>
      rw [List.foldl_append, List.foldl_cons, List.foldl_nil]
      split_ifs
      · simp
      · rcases List.mem_cons.mp ih with heq | hmem
        · rw [heq]
          exact List.mem_cons_self
        · exact List.mem_cons_of_mem _ (List.mem_append_left _ hmem)

variable [DecidableEq ReqId]

theorem exists_victim (hrunning : running ≠ []) : ∃ v running', victim config requests running = some (v, running') :=
    by
  unfold victim
  cases config.policy with
  | priority =>
    cases running with
    | nil => exact absurd rfl hrunning
    | cons x xs => exact ⟨_, _, rfl⟩
  | fcfs => exact ⟨_, _, by rw [List.getLast?_eq_getLast_of_ne_nil hrunning]; rfl⟩

/-- Who gives way is one of those that run, and the others keep their order. -/
theorem victim_spec (hv : victim config requests running = some (v, running')) :
    running.Perm (v :: running') ∧ running'.Sublist running := by
  unfold victim at hv
  cases hpolicy : config.policy with
  | priority =>
    rw [hpolicy] at hv
    obtain ⟨w, hw, heq⟩ := Option.map_eq_some_iff.mp hv
    obtain ⟨rfl, rfl⟩ := Prod.mk.inj heq
    exact ⟨List.perm_cons_erase (lowestPriority_mem hw), List.erase_sublist⟩
  | fcfs =>
    rw [hpolicy] at hv
    obtain ⟨w, hw, heq⟩ := Option.map_eq_some_iff.mp hv
    obtain ⟨rfl, rfl⟩ := Prod.mk.inj heq
    refine ⟨?_, List.dropLast_sublist running⟩
    nth_rewrite 1 [← List.dropLast_append_getLast? w hw]
    exact List.perm_append_singleton w running.dropLast

theorem victim_fcfs (hpolicy : config.policy = .fcfs) (hv : victim config requests running = some (v, running')) :
    running = running' ++ [v] := by
  rw [victim, hpolicy] at hv
  obtain ⟨w, hw, heq⟩ := Option.map_eq_some_iff.mp hv
  obtain ⟨rfl, rfl⟩ := Prod.mk.inj heq
  exact (List.dropLast_append_getLast? w hw).symm

end Victim

section RunningLoop

variable [DecidableEq ReqId] {vllm : Vllm ReqId Group Queue Kv} {config : SchedulerConfig}
  {contents : Queue → Multiset ReqId} {live : Multiset ReqId} {t : Pass ReqId Group Queue Kv} {r v : ReqId}

namespace Pass

/-- A request gives way: it waits again and starts anew. -/
theorem Inv.preempt (hqueue : QueueLaws vllm contents) (h : t.Inv config contents live) {running : List ReqId}
    (hperm : t.running.Perm (v :: running)) (hsub : running.Sublist t.running) :
    (t.preempt vllm v running).Inv config contents live := by
  have hv : v ∈ t.running := hperm.mem_iff.mpr List.mem_cons_self
  have hsound := h.sound v (h.live_of_running hv)
  have hruns := h.running v hv
  have hne : ∀ r ∈ running, r ≠ v := by
    have hnodup := hperm.nodup_iff.mp h.running_nodup
    exact fun r hr heq => (List.nodup_cons.mp hnodup).1 (heq ▸ hr)
  have hwaits : (t.preempt vllm v running).waits contents = v ::ₘ t.waits contents := by
    show contents (vllm.prependRequest t.waiting (t.preempted v)) + contents t.skippedWaitingRequests = _
    rw [hqueue.prepend, show (t.preempted v).requestId = v from hsound.id_eq, Multiset.cons_add]
    rfl
  have hrequest : ∀ r, r ≠ v → (t.preempt vllm v running).requests r = t.requests r := fun r hr =>
    Function.update_of_ne hr ..
  have hself : (t.preempt vllm v running).requests v = t.preempted v := Function.update_self ..
  refine ⟨h.nodup, ?_, fun r hr => ?_, fun r hr => ?_, fun r hr => ?_, ?_, h.budget, h.budget_nonneg, h.keys,
    h.blocks, fun r n hn => ?_, fun r hr => ?_, fun r hr => ?_⟩
  · rw [hwaits, ← h.live_eq, Multiset.cons_add, ← Multiset.add_cons, Multiset.cons_coe]
    exact congrArg _ (Multiset.coe_eq_coe.mpr hperm.symm)
  · by_cases heq : r = v
    · rw [heq, hself]
      exact ⟨hsound.id_eq, hsound.numTokens_pos, hsound.numTokens_lt⟩
    · rw [hrequest r heq]
      exact h.sound r hr
  · rw [hwaits] at hr
    rcases Multiset.mem_cons.mp hr with heq | hr
    · rw [heq, hself]
      exact ⟨.inr (.inr rfl), rfl⟩
    · rw [hrequest r fun heq => h.notMem_waits hv (heq ▸ hr)]
      exact h.waiting r hr
  · rw [hrequest r (hne r hr)]
    exact h.running r (hsub.subset hr)
  · exact hsub.length_le.trans h.room
  · have htakes := h.takes r n hn
    by_cases heq : r = v
    · subst heq
      rw [hself]
      have hle := htakes.le_withSpec
      have hlt := htakes.lt_modelLen
      have hnonneg := hruns.nonneg
      refine ⟨htakes.pos, ?_, ?_⟩
      · show 0 + n ≤ (t.requests r).numTokensWithSpec
        omega
      · show 0 + n < config.maxModelLen
        omega
    · rw [hrequest r heq]
      exact htakes
  · show r ∈ running ∨ r ∈ t.preemptedReqs ++ [v]
    rcases h.kept r hr with hrun | hpre
    · rcases List.mem_cons.mp (hperm.mem_iff.mp hrun) with heq | hrun
      · exact .inr (by simp [heq])
      · exact .inl hrun
    · exact .inr (List.mem_append_left _ hpre)
  · rw [hwaits]
    rcases List.mem_append.mp hr with hr | hr
    · exact Multiset.mem_cons_of_mem (h.preempted r hr)
    · rw [List.mem_singleton.mp hr]
      exact Multiset.mem_cons_self v _

/-- The inner loop ends, with blocks for the request or with the request itself giving way. -/
theorem allocateOrPreempt_rule {P : Pass ReqId Group Queue Kv → Prop} {numNewTokens numDraftTokens slots : Int}
    (hnew : numNewTokens ≠ 0) (hmem : ∀ t, P t → r ∈ t.running)
    (hstep : ∀ t kv v running, P t →
      vllm.allocateSlots t.kv (t.requests r) numNewTokens 0 emptyBlocks numDraftTokens config.numLookaheadTokens slots =
        .ok (none, kv) →
      victim config t.requests t.running = some (v, running) → v ≠ r → P ({ t with kv := kv }.preempt vllm v running))
    {n : Nat} (hn : t.running.length ≤ n) (h : P t) :
    ∃ t₁ kv, P t₁ ∧
      ((∃ blocks, vllm.allocateSlots t₁.kv (t₁.requests r) numNewTokens 0 emptyBlocks numDraftTokens
          config.numLookaheadTokens slots = .ok (some blocks, kv) ∧
        allocateOrPreempt vllm config r numNewTokens numDraftTokens slots n t = .ok
          (some blocks, { t₁ with kv := kv })) ∨
      ∃ running, vllm.allocateSlots t₁.kv (t₁.requests r) numNewTokens 0 emptyBlocks numDraftTokens
          config.numLookaheadTokens slots = .ok (none, kv) ∧
        victim config t₁.requests t₁.running = some (r, running) ∧
        allocateOrPreempt vllm config r numNewTokens numDraftTokens slots n t =
          .ok (none, { t₁ with kv := kv }.preempt vllm r running)) := by
  induction n generalizing t with
  | zero => exact absurd (hmem t h) (by rw [List.eq_nil_of_length_eq_zero (Nat.le_zero.mp hn)]; exact List.not_mem_nil)
  | succ n ih =>
    obtain ⟨blocks, kv, halloc⟩ : ∃ blocks kv, vllm.allocateSlots t.kv (t.requests r) numNewTokens 0 emptyBlocks
        numDraftTokens config.numLookaheadTokens slots = .ok (blocks, kv) := by
      rw [Vllm.allocateSlots, if_neg hnew]
      split_ifs <;> exact ⟨_, _, rfl⟩
    cases blocks with
    | some blocks => exact ⟨t, kv, h, .inl ⟨blocks, halloc, by rw [allocateOrPreempt, halloc]⟩⟩
    | none =>
      obtain ⟨v, running, hv⟩ : ∃ v running, victim config t.requests t.running = some (v, running) :=
        exists_victim (List.ne_nil_of_mem (hmem t h))
      by_cases heq : v = r
      · subst heq
        refine ⟨t, kv, h, .inr ⟨running, halloc, hv, ?_⟩⟩
        rw [allocateOrPreempt, halloc]
        simp only [hv, if_true]
      · have hlength := (victim_spec hv).1.length_eq
        rw [List.length_cons] at hlength
        have hless : ({ t with kv := kv }.preempt vllm v running).running.length ≤ n := by
          show running.length ≤ n
          omega
        obtain ⟨t₁, kv₁, h₁, hresult⟩ := ih hless (hstep t kv v running h halloc hv heq)
        refine ⟨t₁, kv₁, h₁, ?_⟩
        rw [allocateOrPreempt, halloc]
        simpa only [hv, if_neg heq] using hresult

omit [DecidableEq ReqId] in
theorem Inv.notMem_keys (h : t.Inv config contents live) (hr : r ∉ t.scheduled) :
    r ∉ t.numScheduledTokens.items.map Prod.fst ∧ r ∉ t.reqToNewBlockIds.items.map Prod.fst := by
  rw [h.blocks, and_self]
  exact fun hmem => hr (h.keys.mem_iff.mp hmem)

/-- The entries of a request that is granted its tokens come last. -/
theorem Inv.grant_items (h : t.Inv config contents live) (hr : r ∉ t.scheduled) (blocks : Blocks Group) (n : Int) :
    (t.grant r blocks n).numScheduledTokens.items = t.numScheduledTokens.items ++ [(r, n)] ∧
      (t.grant r blocks n).reqToNewBlockIds.items = t.reqToNewBlockIds.items ++ [(r, blocks)] :=
  ⟨Dict.items_set_of_notMem (h.notMem_keys hr).1, Dict.items_set_of_notMem (h.notMem_keys hr).2⟩

/-- The draft tokens of a request are cut to what is scheduled of them. -/
theorem scheduleSpec_eq (config : SchedulerConfig) (t : Pass ReqId Group Queue Kv) (r : ReqId) (n : Int) :
    ∃ specTokenIds drafts, t.scheduleSpec r n =
        { t.setRequest r ((t.requests r).withSpec specTokenIds) with scheduledSpecDecodeTokens := drafts } ∧
      ((t.requests r).Takes config n → ((t.requests r).withSpec specTokenIds).Takes config n) := by
  unfold scheduleSpec
  dsimp only
  split_ifs with hspec
  · refine ⟨_, _, rfl, fun htakes => ⟨htakes.pos, ?_, htakes.lt_modelLen⟩⟩
    have hle := htakes.le_withSpec
    simp only [Request.numTokensWithSpec, Request.withSpec, List.length_take] at hle ⊢
    omega
  · refine ⟨(t.requests r).specTokenIds, t.scheduledSpecDecodeTokens, ?_, id⟩
    have hsame : (t.requests r).withSpec (t.requests r).specTokenIds = t.requests r := rfl
    rw [hsame, setRequest, Function.update_eq_self]

omit [DecidableEq ReqId] in
theorem mem_scheduled_append {r' : ReqId} : r' ∈ t.scheduledRunningReqs ++ [r] ++ (t.scheduledNewReqs ++
    t.scheduledResumedReqs) ↔ r' ∈ t.scheduled ∨ r' = r := by
  simp only [scheduled, List.mem_append, List.mem_singleton]
  tauto

/-- A running request is granted its tokens. -/
theorem Inv.scheduleRunning (h : t.Inv config contents live) (hr : r ∈ t.running) (hnew : r ∉ t.scheduled) {n : Int}
    (htakes : (t.requests r).Takes config n)
    (hn : n ≤ t.tokenBudget) (blocks : Blocks Group) : (t.scheduleRunning r blocks n).Inv config contents live := by
  obtain ⟨specTokenIds, drafts, hspec, htaken⟩ := scheduleSpec_eq config
    ({ t with scheduledRunningReqs := t.scheduledRunningReqs ++ [r] }.grant r blocks n) r n
  rw [Pass.scheduleRunning, hspec]
  obtain ⟨hitems, hblocks⟩ := h.grant_items hnew blocks n
  have hother : ∀ r', r' ≠ r → Function.update t.requests r ((t.requests r).withSpec specTokenIds) r' =
      t.requests r' := fun r' hr' => Function.update_of_ne hr' ..
  have hself : Function.update t.requests r ((t.requests r).withSpec specTokenIds) r =
      (t.requests r).withSpec specTokenIds := Function.update_self ..
  have htaken : ((t.requests r).withSpec specTokenIds).Takes config n := htaken htakes
  have hsound := h.sound r (h.live_of_running hr)
  have hruns := h.running r hr
  refine ⟨h.nodup, h.live_eq, fun r' hr' => ?_, fun r' hr' => ?_, fun r' hr' => ?_, h.room, ?_, ?_, ?_, ?_,
    fun r' n' hn' => ?_, fun r' hr' => ?_, h.preempted⟩
  · show (Function.update t.requests r ((t.requests r).withSpec specTokenIds) r').Sound config r'
    by_cases heq : r' = r
    · rw [heq, hself]
      exact ⟨hsound.id_eq, hsound.numTokens_pos, hsound.numTokens_lt⟩
    · rw [hother r' heq]
      exact h.sound r' hr'
  · show (Function.update t.requests r ((t.requests r).withSpec specTokenIds) r').Waits
    rw [hother r' fun heq => h.notMem_waits hr (heq ▸ hr')]
    exact h.waiting r' hr'
  · show (Function.update t.requests r ((t.requests r).withSpec specTokenIds) r').Runs config
    by_cases heq : r' = r
    · rw [heq, hself]
      refine ⟨hruns.status, hruns.nonneg, ?_, hruns.lt_modelLen⟩
      have hle := htaken.le_withSpec
      have hpos := htaken.pos
      have hcomputed : ((t.requests r).withSpec specTokenIds).numComputedTokens = (t.requests r).numComputedTokens :=
        rfl
      omega
    · rw [hother r' heq]
      exact h.running r' hr'
  · show t.tokenBudget - n + (((t.grant r blocks n).numScheduledTokens.items).map Prod.snd).sum = _
    rw [hitems, List.map_append, List.sum_append, List.map_singleton, List.sum_singleton, ← h.budget, total]
    omega
  · show 0 ≤ t.tokenBudget - n
    omega
  · show (((t.grant r blocks n).numScheduledTokens.items).map Prod.fst).Perm
      ((t.scheduledRunningReqs ++ [r]) ++ (t.scheduledNewReqs ++ t.scheduledResumedReqs))
    rw [hitems, List.map_append, List.map_singleton, List.append_assoc]
    refine (h.keys.append_right [r]).trans ?_
    rw [scheduled, List.append_assoc]
    exact List.Perm.append_left _ List.perm_append_comm
  · show ((t.grant r blocks n).reqToNewBlockIds.items).map Prod.fst =
      ((t.grant r blocks n).numScheduledTokens.items).map Prod.fst
    rw [hitems, hblocks, List.map_append, List.map_append, h.blocks]
    rfl
  · show (Function.update t.requests r ((t.requests r).withSpec specTokenIds) r').Takes config n'
    have hn' : (r', n') ∈ (t.grant r blocks n).numScheduledTokens.items := hn'
    rw [hitems] at hn'
    rcases List.mem_append.mp hn' with hn' | hn'
    · rw [hother r' fun heq => (h.notMem_keys hnew).1 (heq ▸ List.mem_map_of_mem hn')]
      exact h.takes r' n' hn'
    · obtain ⟨rfl, rfl⟩ := Prod.mk.inj (List.mem_singleton.mp hn')
      rw [hself]
      exact htaken
  · rcases mem_scheduled_append.mp hr' with hr' | heq
    · exact h.kept r' hr'
    · exact .inl (heq ▸ hr)

omit [DecidableEq ReqId] in
variable (config) in
theorem limitTokens_bounds {n : Int} (hn : 0 ≤ n) : 0 ≤ limitTokens config n ∧ limitTokens config n ≤ n := by
  unfold limitTokens
  split_ifs <;> omega

theorem encoderInputs_bounds (hcount : CountLaws vllm) (request : Request ReqId) (computed : Int) {n : Int}
    (hn : 0 ≤ n) :
    0 ≤ (t.encoderInputs vllm request computed n).2.1 ∧ (t.encoderInputs vllm request computed n).2.1 ≤ n := by
  unfold encoderInputs
  split_ifs
  · exact hcount.encoder t.kv request computed n t.encoderBudget hn
  · exact ⟨hn, le_rfl⟩

omit [DecidableEq ReqId] in
theorem runningTokens_bounds {request : Request ReqId} (hruns : request.Runs config) (hbudget : 0 < t.tokenBudget) :
    0 ≤ t.runningTokens config request ∧ t.runningTokens config request ≤ t.tokenBudget ∧
      ∀ n, 0 < n → n ≤ t.runningTokens config request → request.Takes config n := by
  have hle := hruns.le_withSpec
  have hlt := hruns.lt_modelLen
  obtain ⟨hlow, hhigh⟩ := limitTokens_bounds config
    (n := request.numTokensWithSpec - request.numComputedTokens) (by omega)
  unfold runningTokens
  refine ⟨by omega, by omega, fun n hpos hn => ⟨hpos, by omega, by omega⟩⟩

/-- A running request is passed over, or it is given tokens, or it gives way as the last one. -/
theorem runningTurn_rule (hcount : CountLaws vllm) {P : Pass ReqId Group Queue Kv → Prop}
    (hruns : (t.requests r).Runs config) (hbudget : 0 < t.tokenBudget) (hP : P (t.estimate vllm config r).2)
    (hmem : ∀ t, P t → r ∈ t.running)
    (hstep : ∀ numNewTokens numDraftTokens t₁ kv v running, numNewTokens ≠ 0 → P t₁ →
      vllm.allocateSlots t₁.kv (t₁.requests r) numNewTokens 0 emptyBlocks numDraftTokens config.numLookaheadTokens
        (t.estimate vllm config r).1 = .ok (none, kv) →
      victim config t₁.requests t₁.running = some (v, running) → v ≠ r → P
        ({ t₁ with kv := kv }.preempt vllm v running)) :
    t.runningTurn vllm config r = .ok (true, { (t.estimate vllm config r).2 with reqIndex := t.reqIndex + 1 }) ∨
      ∃ numNewTokens numDraftTokens t₁ kv, (t.requests r).Takes config numNewTokens ∧ numNewTokens ≤ t.tokenBudget ∧
        P t₁ ∧
        ((∃ blocks inputs budget, vllm.allocateSlots t₁.kv (t₁.requests r) numNewTokens 0 emptyBlocks numDraftTokens
            config.numLookaheadTokens (t.estimate vllm config r).1 = .ok (some blocks, kv) ∧
          t.runningTurn vllm config r = .ok (true,
            ({ t₁ with kv := kv }.scheduleRunning r blocks numNewTokens).scheduleEncoder vllm r inputs budget)) ∨
        ∃ running, vllm.allocateSlots t₁.kv (t₁.requests r) numNewTokens 0 emptyBlocks numDraftTokens
            config.numLookaheadTokens (t.estimate vllm config r).1 = .ok (none, kv) ∧
          victim config t₁.requests t₁.running = some (r, running) ∧
          t.runningTurn vllm config r = .ok (false, { t₁ with kv := kv }.preempt vllm r running)) := by
  obtain ⟨hlow, hhigh, htakes⟩ := runningTokens_bounds (t := t) hruns hbudget
  obtain ⟨hzero, hle⟩ := encoderInputs_bounds (t := (t.estimate vllm config r).2) hcount (t.requests r)
    (t.requests r).numComputedTokens hlow
  have hturn : t.runningTurn vllm config r = (t.estimate vllm config r).2.runFor vllm config r
      (t.estimate vllm config r).1 ((t.estimate vllm config r).2.encoderInputs vllm (t.requests r)
        (t.requests r).numComputedTokens (t.runningTokens config (t.requests r))) := rfl
  rw [hturn]
  cases hresult : (t.estimate vllm config r).2.encoderInputs vllm (t.requests r) (t.requests r).numComputedTokens
    (t.runningTokens config (t.requests r)) with
  | mk inputs rest =>
  cases rest with
  | mk n budget =>
  rw [hresult] at hzero hle
  by_cases hn : n = 0
  · exact .inl (if_pos hn)
  · obtain ⟨t₁, kv, h₁, hcases⟩ := allocateOrPreempt_rule hn hmem
      (fun t₁ kv v running => hstep n (max (n + ((t.estimate vllm config r).2.requests r).numComputedTokens -
        ((t.estimate vllm config r).2.requests r).numTokens) 0) t₁ kv v running hn) (Nat.le_add_right _ 1) hP
    refine .inr ⟨n, max (n + (t.requests r).numComputedTokens - (t.requests r).numTokens) 0, t₁, kv,
      htakes n (lt_of_le_of_ne hzero (Ne.symm hn)) hle, hle.trans hhigh, h₁, ?_⟩
    rcases hcases with ⟨blocks, halloc, hloop⟩ | ⟨running, halloc, hv, hloop⟩
    · refine .inl ⟨blocks, inputs, budget, halloc, (if_neg hn).trans ?_⟩
      rw [hloop]
    · refine .inr ⟨running, halloc, hv, (if_neg hn).trans ?_⟩
      rw [hloop]

/-- What every turn keeps holds at the end of the loop, which nothing interrupts. -/
theorem runningLoop_rule {P : Pass ReqId Group Queue Kv → Prop}
    (hturn : ∀ t r, P t → t.running[t.reqIndex]? = some r → 0 < t.tokenBudget →
      ∃ go t', t.runningTurn vllm config r = .ok (go, t') ∧ P t') {n : Nat} (h : P t) :
    ∃ t', runningLoop vllm config n t = .ok t' ∧ P t' := by
  induction n generalizing t with
  | zero => exact ⟨t, rfl, h⟩
  | succ n ih =>
    rw [runningLoop]
    cases hr : t.running[t.reqIndex]? with
    | none => exact ⟨t, rfl, h⟩
    | some r =>
      dsimp only
      split_ifs with hbudget
      · obtain ⟨go, t', hresult, h'⟩ := hturn t r h hr hbudget
        rw [hresult]
        cases go with
        | true => exact ih h'
        | false => exact ⟨t', rfl, h'⟩
      · exact ⟨t, rfl, h⟩

omit [DecidableEq ReqId] in
theorem Ahead.succ (h : t.Ahead) {r' : ReqId} (hr' : r' ∈ t.scheduled) : r' ∉ t.running.drop (t.reqIndex + 1) := by
  rw [← List.drop_drop]
  exact fun hdrop => h r' hr' (List.mem_of_mem_drop hdrop)

omit [DecidableEq ReqId] in
/-- Whose turn it is has not been given tokens, and does not come again. -/
theorem Ahead.turn (h : t.Ahead) (hnodup : t.running.Nodup) (hr : t.running[t.reqIndex]? = some r) :
    r ∉ t.scheduled ∧ r ∉ t.running.drop (t.reqIndex + 1) := by
  have hdrop : t.running.drop t.reqIndex = r :: t.running.drop (t.reqIndex + 1) := by
    obtain ⟨hlt, rfl⟩ := List.getElem?_eq_some_iff.mp hr
    exact List.drop_eq_getElem_cons hlt
  refine ⟨fun hmem => h r hmem (by rw [hdrop]; exact List.mem_cons_self), ?_⟩
  have hnodup := hnodup.sublist (List.drop_sublist t.reqIndex t.running)
  rw [hdrop] at hnodup
  exact (List.nodup_cons.mp hnodup).1

theorem scheduleRunning_fields (blocks : Blocks Group) (n : Int) :
    (t.scheduleRunning r blocks n).running = t.running ∧ (t.scheduleRunning r blocks n).reqIndex = t.reqIndex + 1 ∧
      (t.scheduleRunning r blocks n).scheduled =
        t.scheduledRunningReqs ++ [r] ++ (t.scheduledNewReqs ++ t.scheduledResumedReqs) ∧
      (t.scheduleRunning r blocks n).preemptedReqs = t.preemptedReqs := by
  unfold scheduleRunning scheduleSpec
  dsimp only
  split_ifs <;> exact ⟨rfl, rfl, rfl, rfl⟩

variable (vllm) in
theorem scheduleEncoder_fields (inputs : Option (List Nat)) (budget : Int) :
    (t.scheduleEncoder vllm r inputs budget).running = t.running ∧
      (t.scheduleEncoder vllm r inputs budget).reqIndex = t.reqIndex ∧
      (t.scheduleEncoder vllm r inputs budget).scheduled = t.scheduled ∧
      (t.scheduleEncoder vllm r inputs budget).preemptedReqs = t.preemptedReqs := by
  unfold scheduleEncoder
  split <;> exact ⟨rfl, rfl, rfl, rfl⟩

/-- How far the pass is when the request `r` gets its turn; others may have given way since then. -/
structure AtTurn (config : SchedulerConfig) (contents : Queue → Multiset ReqId) (live : Multiset ReqId)
    (t : Pass ReqId Group Queue Kv) (r : ReqId) (t' : Pass ReqId Group Queue Kv) : Prop where
  inv : t'.Inv config contents live
  mem : r ∈ t'.running
  request : t'.requests r = t.requests r
  budget : t'.tokenBudget = t.tokenBudget
  index : t'.reqIndex = t.reqIndex
  scheduled : t'.scheduled = t.scheduled
  running : t'.running.Sublist t.running

theorem AtTurn.preempt (hqueue : QueueLaws vllm contents) {t' : Pass ReqId Group Queue Kv}
    (h : AtTurn config contents live t r t') {kv : Kv} {running : List ReqId}
    (hv : victim config t'.requests t'.running = some (v, running)) (hne : v ≠ r) :
    AtTurn config contents live t r ({ t' with kv := kv }.preempt vllm v running) where
  inv := Inv.preempt hqueue (h.inv.withKv kv _ _ _ _) (victim_spec hv).1 (victim_spec hv).2
  mem := (List.mem_cons.mp ((victim_spec hv).1.mem_iff.mp h.mem)).resolve_left (Ne.symm hne)
  request := (Function.update_of_ne (Ne.symm hne) ..).trans h.request
  budget := h.budget
  index := h.index
  scheduled := h.scheduled
  running := (victim_spec hv).2.trans h.running

theorem Inv.runningTurn (hqueue : QueueLaws vllm contents) (hcount : CountLaws vllm) (h : t.Inv config contents live)
    (hahead : t.Ahead) (hr : t.running[t.reqIndex]? = some r) (hbudget : 0 < t.tokenBudget) :
    ∃ go t', t.runningTurn vllm config r = .ok (go, t') ∧ t'.Inv config contents live ∧ t'.Ahead := by
  have hmem : r ∈ t.running := List.mem_of_getElem? hr
  obtain ⟨hnew, hlast⟩ := hahead.turn h.running_nodup hr
  have hstart : AtTurn config contents live t r (t.estimate vllm config r).2 :=
    ⟨h.estimate vllm r, hmem, rfl, rfl, rfl, rfl, List.Sublist.refl _⟩
  rcases runningTurn_rule hcount (h.running r hmem) hbudget hstart (fun _ h => h.mem)
      (fun _ _ t₁ kv v running _ h₁ _ hv hne => h₁.preempt hqueue hv hne) with
    hresult | ⟨n, _, t₁, kv, htakes, hn, h₁, ⟨blocks, inputs, budget, -, hresult⟩ | ⟨running, -, hv, hresult⟩⟩
  · exact ⟨_, _, hresult, h.withKv _ _ _ _ _, fun r' hr' => hahead.succ hr'⟩
  · have hinv : ({ t₁ with kv := kv } : Pass ReqId Group Queue Kv).Inv config contents live := h₁.inv.withKv kv _ _ _ _
    refine ⟨_, _, hresult, Inv.scheduleEncoder ?_ r inputs budget, fun r' hr' => ?_⟩
    · exact hinv.scheduleRunning h₁.mem (fun hmem' => hnew (h₁.scheduled ▸ hmem')) (h₁.request ▸ htakes)
        (h₁.budget ▸ hn) blocks
    · obtain ⟨hrunning, hindex, hscheduled, -⟩ := scheduleEncoder_fields vllm (r := r)
        (t := { t₁ with kv := kv }.scheduleRunning r blocks n) inputs budget
      obtain ⟨hrunning', hindex', hscheduled', -⟩ := scheduleRunning_fields (r := r)
        (t := { t₁ with kv := kv }) blocks n
      rw [hscheduled, hscheduled'] at hr'
      rw [hrunning, hrunning', hindex, hindex']
      have hindex₁ : ({ t₁ with kv := kv } : Pass ReqId Group Queue Kv).reqIndex = t.reqIndex := h₁.index
      rw [hindex₁]
      refine fun hdrop => ?_
      have hdrop : r' ∈ t.running.drop (t.reqIndex + 1) := (h₁.running.drop _).subset hdrop
      rcases mem_scheduled_append.mp hr' with hr' | heq
      · exact hahead.succ (h₁.scheduled ▸ hr') hdrop
      · exact hlast (heq ▸ hdrop)
  · refine ⟨_, _, hresult, Inv.preempt hqueue (h₁.inv.withKv kv _ _ _ _) (victim_spec hv).1 (victim_spec hv).2,
      fun r' hr' hdrop => ?_⟩
    have hdrop : r' ∈ running.drop t₁.reqIndex := hdrop
    rw [h₁.index] at hdrop
    exact hahead r' (h₁.scheduled ▸ hr') ((((victim_spec hv).2.trans h₁.running).drop _).subset hdrop)

/-- First come, first served: who has been given tokens stands before whose turn it is, and does not give way. -/
structure Ordered (t : Pass ReqId Group Queue Kv) : Prop where
  before : ∀ r ∈ t.scheduled, r ∈ t.running.take t.reqIndex
  kept : ∀ r ∈ t.preemptedReqs, r ∉ t.scheduled

/-- The last of the running requests gives way, be it the one whose turn it is. -/
theorem Ordered.preempt (kv : Kv) (hpolicy : config.policy = .fcfs) (h : t.Inv config contents live) (ho : t.Ordered)
    (hr : t.running[t.reqIndex]? = some r) {running : List ReqId}
    (hv : victim config t.requests t.running = some (v, running)) :
    ({ t with kv := kv }.preempt vllm v running).Ordered ∧ (v ≠ r → running[t.reqIndex]? = some r) := by
  have hlast := victim_fcfs hpolicy hv
  obtain ⟨hlt, -⟩ := List.getElem?_eq_some_iff.mp hr
  rw [hlast, List.length_append, List.length_singleton] at hlt
  have htake : t.running.take t.reqIndex = running.take t.reqIndex := by
    rw [hlast, List.take_append_of_le_length (Nat.le_of_lt_succ hlt)]
  have hv : v ∉ running := by
    have hnodup := h.running_nodup
    rw [hlast] at hnodup
    exact fun hmem => List.disjoint_of_nodup_append hnodup hmem (List.mem_singleton_self v)
  refine ⟨⟨fun r' hr' => htake ▸ ho.before r' hr', fun r' hr' hmem => ?_⟩, fun hne => ?_⟩
  · rcases List.mem_append.mp hr' with hr' | hr'
    · exact ho.kept r' hr' hmem
    · have hbefore := ho.before r' hmem
      rw [htake, List.mem_singleton.mp hr'] at hbefore
      exact hv (List.mem_of_mem_take hbefore)
  · rw [hlast] at hr
    rcases Nat.lt_or_eq_of_le (Nat.le_of_lt_succ hlt) with hlt | heq
    · rwa [List.getElem?_append_left hlt] at hr
    · rw [heq, List.getElem?_append_right le_rfl, Nat.sub_self] at hr
      exact absurd (Option.some.inj hr) hne

theorem Ordered.runningTurn (hqueue : QueueLaws vllm contents) (hcount : CountLaws vllm)
    (hpolicy : config.policy = .fcfs)
    (h : t.Inv config contents live) (ho : t.Ordered) (hr : t.running[t.reqIndex]? = some r)
    (hbudget : 0 < t.tokenBudget) {go : Bool} {t' : Pass ReqId Group Queue Kv}
    (hturn : t.runningTurn vllm config r = .ok (go, t')) : t'.Ordered := by
  have hmem : r ∈ t.running := List.mem_of_getElem? hr
  have hstart : AtTurn config contents live t r (t.estimate vllm config r).2 ∧ (t.estimate vllm config r).2.Ordered ∧
      (t.estimate vllm config r).2.running[t.reqIndex]? = some r :=
    ⟨⟨h.estimate vllm r, hmem, rfl, rfl, rfl, rfl, List.Sublist.refl _⟩, ⟨ho.before, ho.kept⟩, hr⟩
  rcases runningTurn_rule hcount (h.running r hmem) hbudget
      (P := fun t' => AtTurn config contents live t r t' ∧ t'.Ordered ∧ t'.running[t.reqIndex]? = some r) hstart
      (fun _ h => h.1.mem) (fun _ _ t₁ kv v running _ h₁ _ hv hne => by
        obtain ⟨h₁, ho₁, hr₁⟩ := h₁
        rw [← h₁.index] at hr₁ ⊢
        obtain ⟨ho', hr'⟩ := ho₁.preempt kv hpolicy h₁.inv hr₁ hv
        exact ⟨h₁.preempt hqueue hv hne, ho', hr' hne⟩) with
    hresult | ⟨n, _, t₁, kv, -, -, ⟨h₁, ho₁, hr₁⟩, ⟨blocks, inputs, budget, -, hresult⟩ | ⟨running, -, hv, hresult⟩⟩
  all_goals
    have ht' := congrArg Prod.snd (Except.ok.inj (hturn.symm.trans hresult))
    dsimp only at ht'
    rw [ht']
  · refine ⟨fun r' hr' => ?_, ho.kept⟩
    exact (List.take_subset_take_left t.running (Nat.le_succ t.reqIndex)) (ho.before r' hr')
  · obtain ⟨hrunning, hindex, hscheduled, hpreempted⟩ := scheduleEncoder_fields vllm (r := r)
      (t := { t₁ with kv := kv }.scheduleRunning r blocks n) inputs budget
    obtain ⟨hrunning', hindex', hscheduled', hpreempted'⟩ := scheduleRunning_fields (r := r)
      (t := { t₁ with kv := kv }) blocks n
    rw [← h₁.index] at hr₁
    refine ⟨fun r' hr' => ?_, fun r' hr' => ?_⟩
    · rw [hscheduled, hscheduled'] at hr'
      rw [hrunning, hrunning', hindex, hindex']
      show r' ∈ t₁.running.take (t₁.reqIndex + 1)
      rcases mem_scheduled_append.mp hr' with hr' | heq
      · exact (List.take_subset_take_left t₁.running (Nat.le_succ t₁.reqIndex)) (ho₁.before r' hr')
      · rw [heq, List.take_add_one, hr₁]
        exact List.mem_append_right _ (List.mem_singleton_self r)
    · rw [hpreempted, hpreempted'] at hr'
      rw [hscheduled, hscheduled']
      intro hmem'
      rcases mem_scheduled_append.mp hmem' with hmem' | heq
      · exact ho₁.kept r' hr' hmem'
      · exact h₁.inv.notMem_waits h₁.mem (heq ▸ h₁.inv.preempted r' hr')
  · rw [← h₁.index] at hr₁
    exact (ho₁.preempt kv hpolicy h₁.inv hr₁ hv).1

end Pass

end RunningLoop

end UnifiedCache.Integration
