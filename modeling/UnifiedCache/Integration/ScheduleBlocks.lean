import UnifiedCache.Integration.ScheduleAdmission

/-! The blocks of the requests in a pass: what is handed over says how the blocks that the manager has for a request
follow from those it had before the pass. -/

namespace UnifiedCache.Integration

variable {ReqId Group Queue Kv : Type} [DecidableEq ReqId]

structure KvCacheSpec (Group : Type) where
  blockSize : Group → Nat
  maxNumBlocksPerReq : Group → Nat

/-- There are blocks for the tokens of a request, or for the slots that it has if it is sparse. -/
def Blocks.Covers {Group : Type} (blocks : Blocks Group) (spec : KvCacheSpec Group) (slots tokens : Int) : Prop :=
  ∀ g, (if slots = INVALID_SLOT then tokens else slots) ≤ (blocks g).length * spec.blockSize g

/-- What the manager of the KV cache, for full attention, and the sparse method do to the blocks of the requests. -/
structure KvLaws (vllm : Vllm ReqId Group Queue Kv) (config : SchedulerConfig) (spec : KvCacheSpec Group) : Prop where
  estimate : ∀ kv request, vllm.getBlockIds (vllm.estimateNumSlotsSparsed kv request).2 = vllm.getBlockIds kv
  sparse_other : ∀ kv request slots r, r ≠ request.requestId →
    vllm.getBlockIds (vllm.sparseAllocateSlots kv request slots).2 r = vllm.getBlockIds kv r
  sparse_some : ∀ kv request slots blocks kv', vllm.sparseAllocateSlots kv request slots = (some blocks, kv') →
    vllm.getBlockIds kv' request.requestId = blocks ∧ ∀ g, slots ≤ (blocks g).length * spec.blockSize g
  original_other : ∀ kv request n computed computedBlocks drafts lookahead r, r ≠ request.requestId →
    vllm.getBlockIds (vllm.originalAllocateSlots kv request n computed computedBlocks drafts lookahead).2 r =
      vllm.getBlockIds kv r
  original_none : ∀ kv request n computed computedBlocks drafts lookahead kv',
    vllm.originalAllocateSlots kv request n computed computedBlocks drafts lookahead = (none, kv') →
    vllm.getBlockIds kv' = vllm.getBlockIds kv
  original_some : ∀ kv request n computed computedBlocks drafts lookahead blocks kv',
    vllm.originalAllocateSlots kv request n computed computedBlocks drafts lookahead = (some blocks, kv') →
    ∀ g, vllm.getBlockIds kv' request.requestId g =
        vllm.getBlockIds kv request.requestId g ++ computedBlocks g ++ blocks g ∧
      (request.numComputedTokens + computed + n ≤ config.maxModelLen →
        request.numComputedTokens + computed + n ≤ (vllm.getBlockIds kv' request.requestId g).length * spec.blockSize g)
  fits : ∀ kv r g, (vllm.getBlockIds kv r g).length ≤ spec.maxNumBlocksPerReq g
  free_other : ∀ kv request r, r ≠ request.requestId →
    vllm.getBlockIds (vllm.free kv request) r = vllm.getBlockIds kv r
  encoder : ∀ kv request i, vllm.getBlockIds (vllm.allocateEncoderInput kv request i) = vllm.getBlockIds kv
  remote : ∀ kv request, vllm.getBlockIds (vllm.updateWaitingForRemoteKv kv request).2 = vllm.getBlockIds kv
  connector : ∀ kv request blocks n, vllm.getBlockIds
    (vllm.updateStateAfterAlloc kv request blocks n) = vllm.getBlockIds kv
  begun : ∀ kv request, vllm.getBlockIds (vllm.requestBegin kv request) = vllm.getBlockIds kv
  finished : ∀ kv r, vllm.getBlockIds (vllm.requestFinishedInScheduler kv r) = vllm.getBlockIds kv

/-- The blocks of a request with the new ones, which replace the old ones if it is sparse. -/
def Blocks.extend {Group : Type} (blocks new : Blocks Group) (slots : Int) : Blocks Group :=
  if slots = INVALID_SLOT then fun g => blocks g ++ new g else new

namespace Pass

variable (vllm : Vllm ReqId Group Queue Kv) (spec : KvCacheSpec Group) (contents : Queue → Multiset ReqId)
  (base : ReqId → Blocks Group) (initial : List ReqId) (known : ReqId → Prop) (t : Pass ReqId Group Queue Kv)

def started : List ReqId := t.scheduledNewReqs ++ t.scheduledResumedReqs

/-- The blocks that the manager has for a request, from those before the pass and those that are handed over. -/
structure Tracked (r : ReqId) : Prop where
  unscheduled : r ∉ t.scheduled → vllm.getBlockIds t.kv r = base r
  running : ∀ blocks, r ∈ t.scheduledRunningReqs → t.reqToNewBlockIds.get? r = some blocks →
    ∃ slots, t.reqSparsedSlots.get? r = some slots ∧ vllm.getBlockIds t.kv r = (base r).extend blocks slots
  started : ∀ blocks, r ∈ t.started → t.reqToNewBlockIds.get? r = some blocks → vllm.getBlockIds t.kv r = blocks
  covers : ∀ n, t.numScheduledTokens.get? r = some n → ∃ slots, t.reqSparsedSlots.get? r = some slots ∧
    (vllm.getBlockIds t.kv r).Covers spec slots ((t.requests r).numComputedTokens + n)

/-- Where the running requests come from, in a pass that began with `initial` running. `known` are the requests that
have run before. -/
structure Origin : Prop where
  ran : ∀ r ∈ t.scheduledRunningReqs, r ∈ initial
  fresh : ∀ r ∈ t.started, r ∉ initial
  running : ∀ r ∈ t.running, r ∈ initial ∨ r ∈ t.started
  stayed : ∀ r ∈ initial, r ∈ t.running ∨ r ∈ t.preemptedReqs
  resumed : ∀ r ∈ t.scheduledResumedReqs, known r
  waiting : ∀ r ∈ t.waits contents, (t.requests r).status = .preempted → known r

/-- How far a pass has come from the state `s`. -/
structure Follows (s : Scheduler ReqId Queue Kv) : Prop where
  origin : t.Origin contents s.running known
  tracked : ∀ r ∈ t.running, t.Tracked vllm spec (vllm.getBlockIds s.kv) r
  finished : t.finishedReqIds = s.finishedReqIds

variable {vllm spec contents base initial known t} {s : Scheduler ReqId Queue Kv} {config : SchedulerConfig}
    {live : Multiset ReqId} {r : ReqId}

omit [DecidableEq ReqId] in
/-- What an allocation does to the blocks. -/
theorem allocateSlots_blocks (hkv : KvLaws vllm config spec) {kv kv' : Kv} {request : Request ReqId}
    {n computed drafts lookahead slots : Int}
    {computedBlocks : Blocks Group} {blocks : Option (Blocks Group)}
    (h : vllm.allocateSlots kv request n computed computedBlocks drafts lookahead slots = .ok (blocks, kv')) :
    (∀ r, r ≠ request.requestId → vllm.getBlockIds kv' r = vllm.getBlockIds kv r) ∧
      (blocks = none → slots = INVALID_SLOT → vllm.getBlockIds kv' = vllm.getBlockIds kv) ∧
      ∀ new, blocks = some new → vllm.getBlockIds kv' request.requestId =
          Blocks.extend (fun g => vllm.getBlockIds kv request.requestId g ++ computedBlocks g) new slots ∧
        (request.numComputedTokens + computed + n ≤ config.maxModelLen →
          (vllm.getBlockIds kv' request.requestId).Covers spec slots (request.numComputedTokens + computed + n)) := by
  unfold Vllm.allocateSlots at h
  split_ifs at h with hn hslots
  · have hresult := Except.ok.inj h
    have hkv' := congrArg Prod.snd hresult
    dsimp only at hkv'
    refine ⟨fun r hr => ?_, fun _ hinvalid => absurd hinvalid hslots, fun new hnew => ?_⟩
    · rw [← hkv']
      exact hkv.sparse_other kv request slots r hr
    · subst hnew
      obtain ⟨hblocks, hcovers⟩ := hkv.sparse_some kv request slots new kv' hresult
      refine ⟨by rw [Blocks.extend, if_neg hslots, hblocks], fun _ g => ?_⟩
      rw [if_neg hslots, hblocks]
      exact hcovers g
  · have hresult := Except.ok.inj h
    have hkv' := congrArg Prod.snd hresult
    dsimp only at hkv'
    refine ⟨fun r hr => ?_, fun hnone _ => ?_, fun new hnew => ?_⟩
    · rw [← hkv']
      exact hkv.original_other _ _ _ _ _ _ _ r hr
    · subst hnone
      exact hkv.original_none _ _ _ _ _ _ _ _ hresult
    · subst hnew
      have hsome := hkv.original_some _ _ _ _ _ _ _ _ _ hresult
      refine ⟨?_, fun hlt g => ?_⟩
      · rw [Blocks.extend, if_pos (not_not.mp hslots)]
        funext g
        exact (hsome g).1
      · rw [if_pos (not_not.mp hslots)]
        exact (hsome g).2 hlt

theorem scheduleEncoder_eq (hkv : KvLaws vllm config spec) (t : Pass ReqId Group Queue Kv) (r : ReqId)
    (inputs : Option (List Nat))
    (budget : Int) : ∃ kv scheduled encoderBudget, t.scheduleEncoder vllm r inputs budget =
        { t with kv := kv, scheduledEncoderInputs := scheduled, encoderBudget := encoderBudget } ∧
      vllm.getBlockIds kv = vllm.getBlockIds t.kv := by
  have hfold : ∀ (is : List Nat) kv, vllm.getBlockIds
    (is.foldl (fun kv i => vllm.allocateEncoderInput kv (t.requests r) i) kv) =
      vllm.getBlockIds kv := by
    intro is
    induction is with
    | nil => exact fun _ => rfl
    | cons i is ih => exact fun kv => (ih _).trans (hkv.encoder kv (t.requests r) i)
  cases inputs with
  | none => exact ⟨t.kv, _, _, rfl, rfl⟩
  | some is =>
    cases is with
    | nil => exact ⟨t.kv, _, _, rfl, rfl⟩
    | cons i is => exact ⟨_, _, _, rfl, hfold (i :: is) t.kv⟩

/-- A request gives way before the waiting ones have their turn. -/
theorem Origin.preempt (hqueue : QueueLaws vllm contents) (h : t.Origin contents initial known)
    (hstarted : t.started = [])
    (hinitial : ∀ r ∈ initial, known r) {v : ReqId} {running : List ReqId} (hperm : t.running.Perm (v :: running))
    (hid : (t.requests v).requestId = v) : (t.preempt vllm v running).Origin contents initial known where
  ran := h.ran
  fresh := h.fresh
  running r hr := h.running r (hperm.mem_iff.mpr (List.mem_cons_of_mem _ hr))
  stayed r hr := by
    show r ∈ running ∨ r ∈ t.preemptedReqs ++ [v]
    rcases h.stayed r hr with hrun | hpre
    · rcases List.mem_cons.mp (hperm.mem_iff.mp hrun) with heq | hrun
      · exact .inr (by simp [heq])
      · exact .inl hrun
    · exact .inr (List.mem_append_left _ hpre)
  resumed := h.resumed
  waiting r hr hstatus := by
    by_cases heq : r = v
    · have hv : v ∈ t.running := hperm.mem_iff.mpr List.mem_cons_self
      rw [heq]
      exact hinitial v ((h.running v hv).resolve_right (hstarted ▸ List.not_mem_nil))
    · have hwaits : (t.preempt vllm v running).waits contents = v ::ₘ t.waits contents := by
        show contents (vllm.prependRequest t.waiting (t.preempted v)) + contents t.skippedWaitingRequests = _
        rw [hqueue.prepend, show (t.preempted v).requestId = v from hid, Multiset.cons_add]
        rfl
      rw [hwaits] at hr
      have hsame : (t.preempt vllm v running).requests r = t.requests r := Function.update_of_ne heq ..
      rw [hsame] at hstatus
      exact h.waiting r ((Multiset.mem_cons.mp hr).resolve_left heq) hstatus

/-- What is tracked of a request stays so while nothing about it changes. -/
theorem Tracked.congr {t' : Pass ReqId Group Queue Kv} (h : t.Tracked vllm spec base r)
    (hrunning : r ∈ t'.scheduledRunningReqs ↔ r ∈ t.scheduledRunningReqs) (hstarted : r ∈ t'.started ↔ r ∈ t.started)
    (hget : t'.reqToNewBlockIds.get? r = t.reqToNewBlockIds.get? r)
    (hslots : t'.reqSparsedSlots.get? r = t.reqSparsedSlots.get? r)
    (hcount : t'.numScheduledTokens.get? r = t.numScheduledTokens.get? r)
    (hcomputed : (t'.requests r).numComputedTokens = (t.requests r).numComputedTokens)
    (hblocks : vllm.getBlockIds t'.kv r = vllm.getBlockIds t.kv r) : t'.Tracked vllm spec base r := by
  have hscheduled : r ∈ t'.scheduled ↔ r ∈ t.scheduled :=
    List.mem_append.trans ((or_congr hrunning hstarted).trans List.mem_append.symm)
  refine ⟨fun hnew => ?_, fun blocks hran hnew => ?_, fun blocks hnew hget' => ?_, fun n hn => ?_⟩
  · rw [hblocks]
    exact h.unscheduled fun hmem => hnew (hscheduled.mpr hmem)
  · rw [hblocks, hslots]
    exact h.running blocks (hrunning.mp hran) (hget ▸ hnew)
  · rw [hblocks]
    exact h.started blocks (hstarted.mp hnew) (hget ▸ hget')
  · rw [hblocks, hslots, hcomputed]
    exact h.covers n (hcount ▸ hn)

/-- The pass when the request `r` gets its turn, as to the blocks: those of the others are tracked. -/
structure BlocksAtTurn (vllm : Vllm ReqId Group Queue Kv) (spec : KvCacheSpec Group) (config : SchedulerConfig)
    (contents : Queue → Multiset ReqId) (s : Scheduler ReqId Queue Kv) (known : ReqId → Prop) (live : Multiset ReqId)
      (t : Pass ReqId Group Queue Kv)
    (r : ReqId) (slots : Int) (t' : Pass ReqId Group Queue Kv) : Prop where
  atTurn : AtTurn config contents live t r t'
  origin : t'.Origin contents s.running known
  started : t'.started = []
  estimate : t'.reqSparsedSlots.get? r = some slots
  own : slots = INVALID_SLOT → vllm.getBlockIds t'.kv r = vllm.getBlockIds s.kv r
  others : ∀ r' ∈ t'.running, r' ≠ r → t'.Tracked vllm spec (vllm.getBlockIds s.kv) r'
  finished : t'.finishedReqIds = s.finishedReqIds

omit [DecidableEq ReqId] in
theorem Inv.id_eq (h : t.Inv config contents live) (hr : r ∈ t.running) : (t.requests r).requestId = r :=
  (h.sound r (h.live_of_running hr)).id_eq

section Turn

variable {t' : Pass ReqId Group Queue Kv} {slots n drafts lookahead : Int} {kv : Kv} {v : ReqId} {running : List ReqId}

/-- What the others have is tracked when a request gives way, be it `r` itself. -/
theorem BlocksAtTurn.frees (hqueue : QueueLaws vllm contents) (hkv : KvLaws vllm config spec)
    (hrunning : ∀ r ∈ s.running, known r)
    (h : BlocksAtTurn vllm spec config contents s known live t r slots t')
    (halloc : vllm.allocateSlots t'.kv (t'.requests r) n 0 emptyBlocks drafts lookahead slots = .ok (none, kv))
    (hv : victim config t'.requests t'.running = some (v, running)) :
    ({ t' with kv := kv }.preempt vllm v running).Origin contents s.running known ∧
      ∀ r' ∈ running, r' ≠ r → ({ t' with kv := kv }.preempt vllm v running).Tracked vllm spec
        (vllm.getBlockIds s.kv) r' := by
  obtain ⟨hperm, hsub⟩ := victim_spec hv
  have hid := h.atTurn.inv.id_eq (hperm.mem_iff.mpr List.mem_cons_self)
  obtain ⟨hother, -⟩ := allocateSlots_blocks hkv halloc
  rw [h.atTurn.inv.id_eq h.atTurn.mem] at hother
  have horigin : ({ t' with kv := kv } : Pass ReqId Group Queue Kv).Origin contents s.running known :=
    ⟨h.origin.ran, h.origin.fresh, h.origin.running, h.origin.stayed, h.origin.resumed, h.origin.waiting⟩
  refine ⟨horigin.preempt hqueue h.started hrunning hperm hid, fun r' hr' hne => ?_⟩
  have hr'v : r' ≠ v := by
    have hnodup := hperm.nodup_iff.mp h.atTurn.inv.running_nodup
    exact fun heq => (List.nodup_cons.mp hnodup).1 (heq ▸ hr')
  have hrequest : ({ t' with kv := kv }.preempt vllm v running).requests r' = t'.requests r' :=
    Function.update_of_ne hr'v ..
  refine (h.others r' (hsub.subset hr') hne).congr Iff.rfl Iff.rfl rfl rfl rfl (by rw [hrequest]) ?_
  exact (hkv.free_other kv _ r' (hid.symm ▸ hr'v)).trans (hother r' hne)

theorem BlocksAtTurn.preempt (hqueue : QueueLaws vllm contents) (hkv : KvLaws vllm config spec)
    (hrunning : ∀ r ∈ s.running, known r)
    (h : BlocksAtTurn vllm spec config contents s known live t r slots t')
    (halloc : vllm.allocateSlots t'.kv (t'.requests r) n 0 emptyBlocks drafts lookahead slots = .ok (none, kv))
    (hv : victim config t'.requests t'.running = some (v, running)) (hne : v ≠ r) :
    BlocksAtTurn vllm spec config contents s known live t r slots ({ t' with kv := kv }.preempt vllm v running) := by
  obtain ⟨horigin, hothers⟩ := h.frees hqueue hkv hrunning halloc hv
  have hid := h.atTurn.inv.id_eq ((victim_spec hv).1.mem_iff.mpr List.mem_cons_self)
  refine ⟨h.atTurn.preempt hqueue hv hne, horigin, h.started, h.estimate, fun hinvalid => ?_, hothers,
    h.finished⟩
  show vllm.getBlockIds (vllm.free kv (t'.requests v)) r = vllm.getBlockIds s.kv r
  rw [hkv.free_other kv _ r (hid.symm ▸ Ne.symm hne), (allocateSlots_blocks hkv halloc).2.1 rfl hinvalid]
  exact h.own hinvalid

/-- The request gets its blocks. -/
theorem BlocksAtTurn.grant (hkv : KvLaws vllm config spec)
    (h : BlocksAtTurn vllm spec config contents s known live t r slots t')
    {blocks : Blocks Group} (htakes : (t.requests r).Takes config n)
    (halloc : vllm.allocateSlots t'.kv (t'.requests r) n 0 emptyBlocks drafts lookahead slots = .ok (some blocks, kv))
    (inputs : Option (List Nat)) (budget : Int) :
    (({ t' with kv := kv }.scheduleRunning r blocks n).scheduleEncoder vllm r inputs budget).Follows vllm spec
      contents known s ∧
      (({ t' with kv := kv }.scheduleRunning r blocks n).scheduleEncoder vllm r inputs budget).started = [] := by
  have hid := h.atTurn.inv.id_eq h.atTurn.mem
  obtain ⟨hother, -, hown⟩ := allocateSlots_blocks hkv halloc
  obtain ⟨hown, hcovers⟩ := hown blocks rfl
  rw [hid] at hother hown hcovers
  have hlt := htakes.lt_modelLen
  rw [← h.atTurn.request] at hlt
  have hcovers := hcovers (by omega)
  obtain ⟨kv', scheduled, encoderBudget, hencoder, hkv'⟩ := scheduleEncoder_eq hkv
    ({ t' with kv := kv }.scheduleRunning r blocks n) r inputs budget
  obtain ⟨specTokenIds, drafts, hspec, -⟩ := scheduleSpec_eq config
    ({ t' with kv := kv, scheduledRunningReqs := t'.scheduledRunningReqs ++ [r] }.grant r blocks n) r n
  have hkv' : vllm.getBlockIds kv' = vllm.getBlockIds kv := by
    rw [hkv', scheduleRunning]
    exact congrArg (fun s : Pass ReqId Group Queue Kv => vllm.getBlockIds s.kv) hspec
  rw [hencoder]
  generalize hgranted : ({ { t' with kv := kv }.scheduleRunning r blocks n with
    kv := kv', scheduledEncoderInputs := scheduled, encoderBudget := encoderBudget } : Pass ReqId Group Queue Kv) = u
  have hgranted := hgranted.symm
  rw [scheduleRunning, hspec] at hgranted
  have hran : u.scheduledRunningReqs = t'.scheduledRunningReqs ++ [r] := by rw [hgranted]; rfl
  have hstarted : u.started = t'.started := by rw [hgranted]; rfl
  have hrunning : u.running = t'.running := by rw [hgranted]; rfl
  have hblocks : vllm.getBlockIds u.kv = vllm.getBlockIds kv := by rw [hgranted]; exact hkv'
  have hget : u.reqToNewBlockIds = t'.reqToNewBlockIds.set r blocks := by rw [hgranted]; rfl
  have hslots : u.reqSparsedSlots = t'.reqSparsedSlots := by rw [hgranted]; rfl
  have hcount : u.numScheduledTokens = t'.numScheduledTokens.set r n := by rw [hgranted]; rfl
  have hother' : ∀ r', r' ≠ r → u.requests r' = t'.requests r' := fun r' hne => by
    rw [hgranted]
    exact Function.update_of_ne hne ..
  have hself : (u.requests r).numComputedTokens = (t'.requests r).numComputedTokens := by
    have hupdate : u.requests r = (t'.requests r).withSpec specTokenIds := by
      rw [hgranted]
      exact Function.update_self ..
    rw [hupdate]
    rfl
  have hnone : u.started = [] := hstarted.trans h.started
  have hwaits : u.waits contents = t'.waits contents := by rw [hgranted]; rfl
  have hrequest : ∀ r' ∈ u.waits contents, u.requests r' = t'.requests r' := by
    intro r' hr'
    exact hother' r' fun heq => h.atTurn.inv.notMem_waits h.atTurn.mem (heq ▸ hwaits ▸ hr')
  refine ⟨⟨⟨fun r' hr' => ?_, ?_, ?_, ?_, ?_, fun r' hr' hstatus => ?_⟩, fun r' hr' => ?_, ?_⟩, hnone⟩
  · rw [hran] at hr'
    rcases List.mem_append.mp hr' with hr' | hr'
    · exact h.origin.ran r' hr'
    · rw [List.mem_singleton.mp hr']
      exact (h.origin.running r h.atTurn.mem).resolve_right (h.started ▸ List.not_mem_nil)
  · rw [hstarted]
    exact h.origin.fresh
  · rw [hrunning, hstarted]
    exact h.origin.running
  · rw [hgranted]
    exact h.origin.stayed
  · rw [hgranted]
    exact h.origin.resumed
  · rw [hrequest r' hr'] at hstatus
    exact h.origin.waiting r' (hwaits ▸ hr') hstatus
  · rw [hrunning] at hr'
    by_cases heq : r' = r
    · subst heq
      refine ⟨fun hnew' => ?_, fun new _ hnew' => ⟨slots, hslots ▸ h.estimate, ?_⟩, fun new hnew' => ?_,
        fun m hm => ⟨slots, hslots ▸ h.estimate, ?_⟩⟩
      · exact absurd (List.mem_append_left _ (hran ▸ List.mem_append_right _ (List.mem_singleton_self r'))) hnew'
      · rw [hget, Dict.get?_set, if_pos rfl, Option.some_inj] at hnew'
        rw [hblocks, hown, ← hnew', Blocks.extend, Blocks.extend]
        split_ifs with hinvalid
        · rw [h.own hinvalid]
          simp only [emptyBlocks, List.append_nil]
        · rfl
      · rw [hnone] at hnew'
        cases hnew'
      · rw [hcount, Dict.get?_set, if_pos rfl, Option.some_inj] at hm
        rw [hblocks, hself, ← hm, ← add_zero (t'.requests r').numComputedTokens]
        exact hcovers
    · refine (h.others r' hr' heq).congr ?_ (by rw [hstarted]) ?_ (by rw [hslots]) ?_ (by rw [hother' r' heq]) ?_
      · rw [hran, List.mem_append, List.mem_singleton, or_iff_left heq]
      · rw [hget, Dict.get?_set, if_neg heq]
      · rw [hcount, Dict.get?_set, if_neg heq]
      · rw [hblocks, hother r' heq]
  · rw [hgranted]
    exact h.finished

end Turn

theorem estimate_slots (t : Pass ReqId Group Queue Kv) (r r' : ReqId) :
    (t.estimate vllm config r).2.reqSparsedSlots.get? r' =
      if r' = r then some (t.estimate vllm config r).1 else t.reqSparsedSlots.get? r' := Dict.get?_set

theorem estimate_blocks (config : SchedulerConfig) (hkv : KvLaws vllm config spec) (t : Pass ReqId Group Queue Kv)
    (r : ReqId) :
    vllm.getBlockIds (t.estimate vllm config r).2.kv = vllm.getBlockIds t.kv := by
  show vllm.getBlockIds (if config.ucmSparse then vllm.estimateNumSlotsSparsed t.kv (t.requests r)
    else (INVALID_SLOT, t.kv)).2 = _
  split_ifs
  · exact hkv.estimate t.kv (t.requests r)
  · rfl

theorem Follows.estimate (hkv : KvLaws vllm config spec) (h : t.Inv config contents live)
    (hf : t.Follows vllm spec contents known s) (hnew : r ∉ t.scheduled) :
    (t.estimate vllm config r).2.Follows vllm spec contents known s := by
  obtain ⟨⟨hran, hfresh, hrunning, hstayed, hresumed, hwaiting⟩, htracked, hfinished⟩ := hf
  refine ⟨⟨hran, hfresh, hrunning, hstayed, hresumed, hwaiting⟩, fun r' hr' => ?_, hfinished⟩
  have hblocks := congrFun (estimate_blocks config hkv t r) r'
  by_cases heq : r' = r
  · rw [heq] at hr' hblocks ⊢
    refine ⟨fun _ => hblocks.trans ((htracked r hr').unscheduled hnew), fun blocks hran => ?_, fun blocks hstart => ?_,
      fun n hn => ?_⟩
    · exact absurd (List.mem_append_left _ hran) hnew
    · exact absurd (List.mem_append_right _ hstart) hnew
    · have hnone : t.numScheduledTokens.get? r = none := Dict.get?_of_notMem (h.notMem_keys hnew).1
      exact absurd (hnone.symm.trans hn) (by simp)
  · exact (htracked r' hr').congr Iff.rfl Iff.rfl rfl ((estimate_slots t r r').trans (if_neg heq)) rfl rfl hblocks

/-- The blocks are tracked through a turn of the loop over the running requests. -/
theorem Follows.runningTurn (hqueue : QueueLaws vllm contents) (hcount : CountLaws vllm) (hkv : KvLaws vllm config spec)
    (hrunning : ∀ r ∈ s.running, known r) (h : t.Inv config contents live) (hahead : t.Ahead)
    (hf : t.Follows vllm spec contents known s) (hstarted : t.started = []) (hr : t.running[t.reqIndex]? = some r)
    (hbudget : 0 < t.tokenBudget) {go : Bool} {t' : Pass ReqId Group Queue Kv}
    (hturn : t.runningTurn vllm config r = .ok (go, t')) :
    t'.Follows vllm spec contents known s ∧ t'.started = [] := by
  have hmem : r ∈ t.running := List.mem_of_getElem? hr
  obtain ⟨hnew, -⟩ := hahead.turn h.running_nodup hr
  have hestimate := hf.estimate hkv h hnew
  have hstart : BlocksAtTurn vllm spec config contents s known live t r (t.estimate vllm config r).1
      (t.estimate vllm config r).2 :=
    ⟨⟨h.estimate vllm r, hmem, rfl, rfl, rfl, rfl, List.Sublist.refl _⟩, hestimate.origin, hstarted,
      (estimate_slots t r r).trans (if_pos rfl), fun _ => (hestimate.tracked r hmem).unscheduled hnew,
      fun r' hr' _ => hestimate.tracked r' hr', hestimate.finished⟩
  rcases runningTurn_rule hcount (h.running r hmem) hbudget hstart (fun _ h => h.atTurn.mem)
      (fun _ _ t₁ kv v running _ h₁ halloc hv hne => h₁.preempt hqueue hkv hrunning halloc hv hne) with
    hresult | ⟨n, _, t₁, kv, htakes, -, h₁, ⟨blocks, inputs, budget, halloc, hresult⟩ | ⟨running, halloc, hv, hresult⟩⟩
  all_goals
    have ht' := congrArg Prod.snd (Except.ok.inj (hturn.symm.trans hresult))
    dsimp only at ht'
    rw [ht']
  · obtain ⟨⟨hran, hfresh, hrunning, hstayed, hresumed, hwaiting⟩, htracked, hfinished⟩ := hestimate
    exact ⟨⟨⟨hran, hfresh, hrunning, hstayed, hresumed, hwaiting⟩,
      fun r' hr' => (htracked r' hr').congr Iff.rfl Iff.rfl rfl rfl rfl rfl rfl, hfinished⟩, hstarted⟩
  · exact h₁.grant hkv htakes halloc inputs budget
  · obtain ⟨horigin, hothers⟩ := h₁.frees hqueue hkv hrunning halloc hv
    refine ⟨⟨horigin, fun r' hr' => hothers r' hr' fun heq => ?_, h₁.finished⟩, h₁.started⟩
    have hnodup := (victim_spec hv).1.nodup_iff.mp h₁.atTurn.inv.running_nodup
    exact (List.nodup_cons.mp hnodup).1 (heq ▸ hr')

/-- The request at the head of the queue may be ready now. -/
theorem Follows.becomesReady (h : t.Follows vllm spec contents known s) (hwaits : (t.requests r).Waits) :
    (t.becomesReady vllm r).2.Follows vllm spec contents known s := by
  obtain ⟨⟨hran, hfresh, hrunning, hstayed, hresumed, hwaiting⟩, htracked, hfinished⟩ := h
  have hstatus := hwaits.status
  cases hs : (t.requests r).status with
  | waiting | preempted =>
    simp only [Pass.becomesReady, hs]
    exact ⟨⟨hran, hfresh, hrunning, hstayed, hresumed, hwaiting⟩, htracked, hfinished⟩
  | waitingForFsm =>
    simp only [Pass.becomesReady, hs]
    have hself : (t.setRequest r { t.requests r with status := .waiting }).requests r =
        { t.requests r with status := .waiting } := Function.update_self ..
    have hother : ∀ r', r' ≠ r →
      (t.setRequest r { t.requests r with status := .waiting }).requests r' = t.requests r' :=
      fun r' hne => Function.update_of_ne hne ..
    split_ifs
    · refine ⟨⟨hran, hfresh, hrunning, hstayed, hresumed, fun r' hr' hpre => ?_⟩,
        fun r' hr' => (htracked r' hr').congr Iff.rfl Iff.rfl rfl rfl rfl ?_ rfl, hfinished⟩
      · by_cases heq : r' = r
        · rw [heq, hself] at hpre
          cases hpre
        · rw [hother r' heq] at hpre
          exact hwaiting r' hr' hpre
      · by_cases heq : r' = r
        · rw [heq, hself]
        · rw [hother r' heq]
    · exact ⟨⟨hran, hfresh, hrunning, hstayed, hresumed, hwaiting⟩, htracked, hfinished⟩
  | waitingForRemoteKvs | running | finished =>
    rw [hs] at hstatus
    rcases hstatus with hs | hs | hs <;> cases hs

theorem becomesReady_slots (t : Pass ReqId Group Queue Kv) (r : ReqId) :
    (t.becomesReady vllm r).2.reqSparsedSlots = t.reqSparsedSlots := by
  cases hs : (t.requests r).status with
  | waitingForRemoteKvs | waitingForFsm =>
    simp only [Pass.becomesReady, hs]
    split_ifs <;> rfl
  | waiting | running | preempted | finished => simp only [Pass.becomesReady, hs]

theorem Follows.skip (hqueue : QueueLaws vllm contents) {waiting : Queue} (h : t.Follows vllm spec contents known s)
    (hpop : contents t.waiting = r ::ₘ contents waiting) (hid : (t.requests r).requestId = r) :
    (t.skip vllm r waiting).Follows vllm spec contents known s := by
  obtain ⟨⟨hran, hfresh, hrunning, hstayed, hresumed, hwaiting⟩, htracked, hfinished⟩ := h
  have hwaits : (t.skip vllm r waiting).waits contents = t.waits contents := by
    show contents waiting + contents (vllm.prependRequest t.skippedWaitingRequests (t.requests r)) = _
    rw [hqueue.prepend, hid, waits, hpop, Multiset.add_cons, Multiset.cons_add]
  refine ⟨⟨hran, hfresh, hrunning, hstayed, hresumed, ?_⟩,
    fun r' hr' => (htracked r' hr').congr Iff.rfl Iff.rfl rfl rfl rfl rfl rfl, hfinished⟩
  rw [hwaits]
  exact hwaiting

/-- A waiting request that starts to run is told all its blocks. -/
theorem Follows.startRunning (hkv : KvLaws vllm config spec) (h : t.Inv config contents live)
    (hnone : t.preemptedReqs = [])
    (hf : t.Follows vllm spec contents known s) {waiting : Queue} (hpop : contents t.waiting = r ::ₘ contents waiting)
    {slots : Int} (hslots : t.reqSparsedSlots.get? r = some slots) {kv : Kv}
    (hother : ∀ r', r' ≠ r → vllm.getBlockIds kv r' = vllm.getBlockIds t.kv r') {new resumed : List ReqId}
    (henters : t.Enters r new resumed) {computed n : Int}
    (hcovers : (vllm.getBlockIds kv r).Covers spec slots (computed + n)) (inputs : Option (List Nat)) (budget : Int) :
    (({ t with kv := kv, scheduledNewReqs := new, scheduledResumedReqs := resumed }.startRunning vllm config r waiting
      computed n).scheduleEncoder vllm r inputs budget).Follows vllm spec contents known s := by
  have hwaits : t.waits contents = r ::ₘ (contents waiting + contents t.skippedWaitingRequests) := by
    rw [waits, hpop, Multiset.cons_add]
  have hr : r ∈ t.waits contents := hwaits ▸ Multiset.mem_cons_self r _
  obtain ⟨kv', scheduled, encoderBudget, hencoder, hkv'⟩ := scheduleEncoder_eq hkv
    ({ t with kv := kv, scheduledNewReqs := new, scheduledResumedReqs := resumed }.startRunning vllm config r waiting
      computed n) r inputs budget
  rw [hencoder]
  have hkv' : vllm.getBlockIds kv' = vllm.getBlockIds kv := hkv'
  obtain ⟨horigin, htracked, hfinished⟩ := hf
  have hinitial : r ∉ s.running := by
    intro hmem
    rcases horigin.stayed r hmem with hrun | hpre
    · exact h.notMem_waits hrun hr
    · exact absurd (hnone ▸ hpre) List.not_mem_nil
  have hother' : ∀ r', r' ≠ r →
    ({ t with kv := kv, scheduledNewReqs := new, scheduledResumedReqs := resumed }.startRunning
      vllm config r waiting computed n).requests r' = t.requests r' := fun r' hne => Function.update_of_ne hne ..
  have hself : (({ t with kv := kv, scheduledNewReqs := new, scheduledResumedReqs :=
    resumed }.startRunning vllm config r
      waiting computed n).requests r).numComputedTokens = computed := by
    simp only [Pass.startRunning, Pass.setRequest, Function.update_self]
  have hstarted : ∀ r', r' ∈ new ++ resumed ↔ r' ∈ t.started ∨ r' = r := by
    intro r'
    rcases henters with ⟨rfl, rfl⟩ | ⟨rfl, rfl, -⟩
    · simp only [started, List.mem_append, List.mem_singleton]
      tauto
    · simp only [started, List.mem_append, List.mem_singleton]
      tauto
  refine ⟨⟨horigin.ran, fun r' hr' => ?_, fun r' hr' => ?_, fun r' hr' => ?_, fun r' hr' => ?_,
    fun r' hr' hstatus => ?_⟩,
    fun r' hr' => ?_, hfinished⟩
  · rcases (hstarted r').mp hr' with hr' | heq
    · exact horigin.fresh r' hr'
    · exact heq ▸ hinitial
  · show r' ∈ s.running ∨ r' ∈ new ++ resumed
    rw [hstarted]
    rcases List.mem_append.mp (show r' ∈ t.running ++ [r] from hr') with hr' | hr'
    · exact (horigin.running r' hr').imp_right .inl
    · exact .inr (.inr (List.mem_singleton.mp hr'))
  · exact (horigin.stayed r' hr').imp_left (List.mem_append_left [r])
  · have hr' : r' ∈ resumed := hr'
    rcases henters with ⟨-, rfl⟩ | ⟨-, rfl, hstatus⟩
    · exact horigin.resumed r' hr'
    · rcases List.mem_append.mp hr' with hr' | hr'
      · exact horigin.resumed r' hr'
      · rw [List.mem_singleton.mp hr']
        exact horigin.waiting r hr hstatus
  · have hr' : r' ∈ contents waiting + contents t.skippedWaitingRequests := hr'
    have hne : r' ≠ r := by
      have hnodup := h.nodup
      rw [← h.live_eq, Multiset.nodup_add, hwaits, Multiset.nodup_cons] at hnodup
      exact fun heq => hnodup.1.1 (heq ▸ hr')
    rw [hother' r' hne] at hstatus
    exact horigin.waiting r' (hwaits ▸ Multiset.mem_cons_of_mem hr') hstatus
  · by_cases heq : r' = r
    · rw [heq]
      refine ⟨fun hnew => ?_, fun blocks hran => ?_, fun blocks _ hget => ?_,
        fun m hm => ⟨slots, hslots, ?_⟩⟩
      · exact absurd (List.mem_append_right _ ((hstarted r).mpr (.inr rfl))) hnew
      · exact absurd (horigin.ran r hran) hinitial
      · have hget : (t.reqToNewBlockIds.set r (vllm.getBlockIds kv r)).get? r = some blocks := hget
        rw [Dict.get?_set, if_pos rfl, Option.some_inj] at hget
        exact (congrFun hkv' r).trans hget
      · have hm : (t.numScheduledTokens.set r n).get? r = some m := hm
        rw [Dict.get?_set, if_pos rfl, Option.some_inj] at hm
        rw [hself, ← hm]
        exact (congrFun hkv' r).symm ▸ hcovers
    · have hr' := (List.mem_append.mp (show r' ∈ t.running ++ [r] from hr')).resolve_right fun hr' =>
        heq (List.mem_singleton.mp hr')
      refine (htracked r' hr').congr Iff.rfl ?_ (Dict.get?_set.trans (if_neg heq)) rfl
        (Dict.get?_set.trans (if_neg heq)) (congrArg Request.numComputedTokens (hother' r' heq)) ?_
      · exact (hstarted r').trans (or_iff_left heq)
      · exact (congrFun hkv' r').trans (hother r' heq)

/-- The blocks are tracked through a turn of the loop over the waiting requests. -/
theorem Follows.waitingTurn (hqueue : QueueLaws vllm contents) (hcount : CountLaws vllm) (hkv : KvLaws vllm config spec)
    (h : t.Inv config contents live) (hnone : t.preemptedReqs = []) (hf : t.Follows vllm spec contents known s)
    {waiting : Queue} (hpop : vllm.popRequest t.waiting = some (r, waiting)) (hbudget : 0 < t.tokenBudget) {go : Bool}
    {t' : Pass ReqId Group Queue Kv} (hturn : t.waitingTurn vllm config r waiting = .ok (go, t')) :
    t'.Follows vllm spec contents known s := by
  have hcontents := hqueue.pop_some _ _ _ hpop
  have hr : r ∈ t.waits contents := by
    rw [waits, hcontents]
    exact Multiset.mem_add.mpr (.inl (Multiset.mem_cons_self r _))
  have hnew := h.notMem_scheduled hnone hr
  obtain ⟨t₁, ready, ht₁, hhead, hresult⟩ := waitingTurn_rule waiting hcount h hnone hr hbudget
  have hf₁ : t₁.Follows vllm spec contents known s := by
    rw [ht₁]
    exact (hf.estimate hkv h hnew).becomesReady (h.waiting r hr)
  have hr₁ : r ∈ t₁.waits contents := by
    rw [waits, hhead.queues.1, hhead.queues.2]
    exact hr
  have hcontents₁ : contents t₁.waiting = r ::ₘ contents waiting := by
    rw [hhead.queues.1]
    exact hcontents
  have hid := (hhead.inv.sound r (hhead.inv.live_of_waits hr₁)).id_eq
  have hslots : t₁.reqSparsedSlots.get? r = some (t.estimate vllm config r).1 := by
    rw [ht₁, becomesReady_slots, estimate_slots, if_pos rfl]
  have hkept : ∀ kv, (∀ r', r' ≠ r → vllm.getBlockIds kv r' = vllm.getBlockIds t₁.kv r') →
      ({ t₁ with kv := kv } : Pass ReqId Group Queue Kv).Follows vllm spec contents known s := by
    obtain ⟨⟨hran, hfresh, hrunning, hstayed, hresumed, hwaiting⟩, htracked, hfinished⟩ := hf₁
    intro kv hother
    refine ⟨⟨hran, hfresh, hrunning, hstayed, hresumed, hwaiting⟩, fun r' hr' => ?_, hfinished⟩
    have hne : r' ≠ r := fun heq => hhead.inv.notMem_waits hr' (heq ▸ hr₁)
    exact (htracked r' hr').congr Iff.rfl Iff.rfl rfl rfl rfl rfl (hother r' hne)
  rcases hresult with
    hresult | hresult | ⟨n, kv, -, -, hle,
      ⟨halloc, hresult⟩ | ⟨blocks, new, resumed, inputs, budget, halloc, henters, hresult⟩⟩
  all_goals
    have ht' := congrArg Prod.snd (Except.ok.inj (hturn.symm.trans hresult))
    dsimp only at ht'
    rw [ht']
  · exact hf₁.skip hqueue hcontents₁ hid
  · exact hf₁
  · obtain ⟨hother, -⟩ := allocateSlots_blocks hkv halloc
    rw [hid] at hother
    exact hkept kv hother
  · obtain ⟨hother, -, hown⟩ := allocateSlots_blocks hkv halloc
    obtain ⟨-, hcovers⟩ := hown blocks rfl
    rw [hid] at hother hcovers
    have hlt := (hhead.inv.sound r (hhead.inv.live_of_waits hr₁)).numTokens_lt
    rw [(hhead.inv.waiting r hr₁).computed, zero_add] at hcovers
    have hcovers := hcovers (by omega)
    have hconnector : vllm.getBlockIds (if config.hasConnector then vllm.updateStateAfterAlloc kv (t₁.requests r)
        (fun g => (vllm.getComputedBlocks t₁.kv (t₁.requests r)).1 g ++ blocks g) 0 else kv) = vllm.getBlockIds kv := by
      split_ifs
      · rw [hkv.connector]
      · rfl
    refine hf₁.startRunning hkv hhead.inv (hhead.preempted.trans hnone) hcontents₁ hslots (fun r' hr' => ?_) henters ?_
      inputs budget
    · rw [hconnector]
      exact hother r' hr'
    · rw [hconnector]
      exact hcovers

theorem Follows.withLoras (h : t.Follows vllm spec contents known s) (loras : Finset Int) :
    ({ t with scheduledLoras := loras } : Pass ReqId Group Queue Kv).Follows vllm spec contents known s := by
  obtain ⟨⟨hran, hfresh, hrunning, hstayed, hresumed, hwaiting⟩, htracked, hfinished⟩ := h
  exact ⟨⟨hran, hfresh, hrunning, hstayed, hresumed, hwaiting⟩,
    fun r hr => (htracked r hr).congr Iff.rfl Iff.rfl rfl rfl rfl rfl rfl, hfinished⟩

/-- The loop over the running requests, with what is known of the blocks at its end. -/
theorem Follows.runningLoop (hqueue : QueueLaws vllm contents) (hcount : CountLaws vllm) (hkv : KvLaws vllm config spec)
    (hrunning : ∀ r ∈ s.running, known r) (h : t.Inv config contents live) (hahead : t.Ahead)
    (hf : t.Follows vllm spec contents known s) (hstarted : t.started = []) (n : Nat) :
    ∃ t', Pass.runningLoop vllm config n t = .ok t' ∧ t'.Inv config contents live ∧
      t'.Follows vllm spec contents known s := by
  obtain ⟨t', hresult, h', -, hf', -⟩ := runningLoop_rule
    (P := fun t => t.Inv config contents live ∧ t.Ahead ∧ t.Follows vllm spec contents known s ∧ t.started = [])
    (fun t r ht hr hbudget => by
      obtain ⟨h, hahead, hf, hstarted⟩ := ht
      obtain ⟨go, t', hresult, h', hahead'⟩ := h.runningTurn hqueue hcount hahead hr hbudget
      exact ⟨go, t', hresult, h', hahead',
        hf.runningTurn hqueue hcount hkv hrunning h hahead hstarted hr hbudget hresult⟩)
    (n := n) ⟨h, hahead, hf, hstarted⟩
  exact ⟨t', hresult, h', hf'⟩

theorem Follows.waitingLoop (hqueue : QueueLaws vllm contents) (hcount : CountLaws vllm) (hkv : KvLaws vllm config spec)
    (h : t.Inv config contents live) (hnone : t.preemptedReqs = []) (hf : t.Follows vllm spec contents known s)
    (n : Nat) : ∃ t', Pass.waitingLoop vllm config n t = .ok t' ∧ t'.Inv config contents live ∧ t'.preemptedReqs = [] ∧
      t'.Follows vllm spec contents known s := by
  obtain ⟨t', hresult, ⟨h', hnone'⟩, hf'⟩ := waitingLoop_rule
    (P := fun t => (t.Inv config contents live ∧ t.preemptedReqs = []) ∧ t.Follows vllm spec contents known s)
    (fun t r waiting ht hpop hbudget hroom => by
      obtain ⟨⟨h, hnone⟩, hf⟩ := ht
      obtain ⟨go, t', hresult, h'⟩ := h.waitingTurn hqueue hcount hnone hpop hbudget hroom
      exact ⟨go, t', hresult, h', hf.waitingTurn hqueue hcount hkv h hnone hpop hbudget hresult⟩)
    (n := n) ⟨⟨h, hnone⟩, hf⟩
  exact ⟨t', hresult, h', hnone', hf'⟩

end Pass

end UnifiedCache.Integration
