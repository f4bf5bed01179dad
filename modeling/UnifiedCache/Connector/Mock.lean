import UnifiedCache.Connector.BlockTables
import UnifiedCache.Connector.Coverage
import UnifiedCache.Lib.Rounding

/-! The mock connector, which cuts the hits of a request down to a ratio of its prompt: whether
what it reports, what it loads and what it dumps still belong together. -/

namespace UnifiedCache.Connector.Mock

variable {Token BlockId ReqId : Type*}

/-- A float from zero to one, in units of the least one. -/
structure HitRatio where
  units : Nat
  isFloat : Rounding.nearest 53 units = units
  le_one : units ≤ 2 ^ 1074

def HitRatio.expectHitTokens (hitRatio : HitRatio) (numPromptTokens : Nat) : Nat :=
  Rounding.nearest 53 (hitRatio.units * Rounding.nearest 53 numPromptTokens) / 2 ^ 1074

structure Config (Token BlockId : Type*) extends Connector.Config Token BlockId where
  hitRatio : HitRatio

def Config.expectHitBlockNum (config : Config Token BlockId) (numPromptTokens : Nat) : Nat :=
  config.hitRatio.expectHitTokens numPromptTokens / config.blockSize

section Expected

/-- The blocks that are found outside of HBM. -/
def foundBlocks (config : Connector.Config Token BlockId) (request : Request Token ReqId) (numComputedTokens : Nat)
    (lookup : Lookup BlockId) : Nat :=
  externalHitBlocks lookup ((generateHash config request.allTokenIds config.seed).drop
    (numComputedTokens / config.blockSize))

theorem foundBlocks_le (config : Connector.Config Token BlockId) (request : Request Token ReqId)
    (numComputedTokens : Nat) (lookup : Lookup BlockId) :
    foundBlocks config request numComputedTokens lookup ≤
      request.allTokenIds.length / config.blockSize - numComputedTokens / config.blockSize := by
  have hle := externalHitBlocks_le lookup ((generateHash config request.allTokenIds config.seed).drop
    (numComputedTokens / config.blockSize))
  rwa [List.length_drop, length_generateHash] at hle

variable (config : Config Token BlockId) (numPromptTokens : ReqId → Nat) (request : Request Token ReqId)
  (numComputedTokens : Nat) (lookup : Lookup BlockId)

/-- The hits are no more than expected. -/
def Expected : Prop :=
  foundBlocks config.toConfig request numComputedTokens lookup * config.blockSize ≤
    config.hitRatio.expectHitTokens (numPromptTokens request.requestId) +
      if (numComputedTokens / config.blockSize + foundBlocks config.toConfig request numComputedTokens lookup) *
        config.blockSize = request.allTokenIds.length then 1 else 0

instance : Decidable (Expected config numPromptTokens request numComputedTokens lookup) :=
  inferInstanceAs (Decidable (_ ≤ _))

/-- The data of a request whose hits are cut down. -/
def cutMeta : RequestMeta BlockId :=
  let expectHitBlockNum := config.expectHitBlockNum (numPromptTokens request.requestId)
  { freshMeta config.toConfig request numComputedTokens lookup with
    totalHitBlockNum := expectHitBlockNum
    hbmHitBlockNum := min expectHitBlockNum (numComputedTokens / config.blockSize) }

variable {config numPromptTokens request numComputedTokens lookup}

/-- Hits that are cut down are fewer than the blocks that were found. -/
theorem expectHitBlockNum_lt (hcut : ¬ Expected config numPromptTokens request numComputedTokens lookup) :
    config.expectHitBlockNum (numPromptTokens request.requestId) <
        foundBlocks config.toConfig request numComputedTokens lookup ∧
      numComputedTokens / config.blockSize + foundBlocks config.toConfig request numComputedTokens lookup ≤
        request.allTokenIds.length / config.blockSize := by
  have hfound := foundBlocks_le config.toConfig request numComputedTokens lookup
  have hexpect : config.expectHitBlockNum (numPromptTokens request.requestId) * config.blockSize ≤ _ :=
    Nat.div_mul_le_self _ _
  have hless : config.expectHitBlockNum (numPromptTokens request.requestId) * config.blockSize <
      foundBlocks config.toConfig request numComputedTokens lookup * config.blockSize := by
    unfold Expected at hcut
    omega
  have hblocks := Nat.lt_of_mul_lt_mul_right hless
  omega

end Expected

section Matched

variable [DecidableEq ReqId] (config : Config Token BlockId) (numPromptTokens : ReqId → Nat)
  (requestsMeta : Dict ReqId (RequestMeta BlockId)) (request : Request Token ReqId) (numComputedTokens : Nat)
  (lookup : Lookup BlockId)

/-- The prompt of a request is shorter than all its tokens when it has been preempted. -/
def getNumNewMatchedTokens : Option (Int × Dict ReqId (RequestMeta BlockId)) :=
  (Connector.getNumNewMatchedTokens config.toConfig requestsMeta request numComputedTokens lookup).bind
    fun (hitTokens, requestsMeta) =>
      let expectHitTokens := config.hitRatio.expectHitTokens (numPromptTokens request.requestId)
      if hitTokens ≤ expectHitTokens then some (hitTokens, requestsMeta)
      else
        let expectHitBlockNum := config.expectHitBlockNum (numPromptTokens request.requestId)
        (requestsMeta.get? request.requestId).map fun requestMeta =>
          (expectHitBlockNum * config.blockSize, requestsMeta.set request.requestId
            { requestMeta with
              totalHitBlockNum := expectHitBlockNum
              hbmHitBlockNum := min expectHitBlockNum requestMeta.hbmHitBlockNum })

variable {config numPromptTokens requestsMeta request numComputedTokens lookup}

theorem get?_of_ne_getNumNewMatchedTokens {v : Int} {requestsMeta' : Dict ReqId (RequestMeta BlockId)}
    (h : Connector.getNumNewMatchedTokens config.toConfig requestsMeta request numComputedTokens lookup =
      some (v, requestsMeta')) {reqId : ReqId} (hne : reqId ≠ request.requestId) :
    requestsMeta'.get? reqId = requestsMeta.get? reqId := by
  obtain ⟨_, hcases⟩ := Connector.getNumNewMatchedTokens_cases h
  obtain ⟨_, _, hsame⟩ | ⟨_, _, hset⟩ := hcases
  · rw [hsame]
  · rw [hset, Dict.get?_set, if_neg hne]

/-- What a match returns, and what it leaves of the request. -/
theorem getNumNewMatchedTokens_cases {v : Int} {requestsMeta' : Dict ReqId (RequestMeta BlockId)}
    (h : getNumNewMatchedTokens config numPromptTokens requestsMeta request numComputedTokens lookup =
      some (v, requestsMeta')) :
    numComputedTokens % config.blockSize = 0 ∧
      (∀ reqId, reqId ≠ request.requestId → requestsMeta'.get? reqId = requestsMeta.get? reqId) ∧
      (Expected config numPromptTokens request numComputedTokens lookup ∧
          Connector.getNumNewMatchedTokens config.toConfig requestsMeta request numComputedTokens lookup =
            some (v, requestsMeta') ∨
        ¬ Expected config numPromptTokens request numComputedTokens lookup ∧
          v = config.expectHitBlockNum (numPromptTokens request.requestId) * config.blockSize ∧
          requestsMeta'.get? request.requestId =
            some (cutMeta config numPromptTokens request numComputedTokens lookup)) := by
  obtain ⟨⟨hitTokens, baseMeta⟩, hbase, h⟩ := Option.bind_eq_some_iff.mp h
  obtain ⟨hmod, hcases⟩ := Connector.getNumNewMatchedTokens_cases hbase
  have hother : ∀ reqId, reqId ≠ request.requestId → baseMeta.get? reqId = requestsMeta.get? reqId :=
    fun reqId hne => get?_of_ne_getNumNewMatchedTokens hbase hne
  have hexpected : Expected config numPromptTokens request numComputedTokens lookup ↔
      hitTokens ≤ config.hitRatio.expectHitTokens (numPromptTokens request.requestId) := by
    have hfound := foundBlocks_le config.toConfig request numComputedTokens lookup
    unfold Expected
    obtain ⟨hall, rfl, _⟩ | ⟨_, rfl, _⟩ := hcases
    · rw [Nat.sub_eq_zero_of_le hall, Nat.le_zero] at hfound
      simp [hfound]
    · change _ ↔ (foundBlocks config.toConfig request numComputedTokens lookup : Int) * config.blockSize -
        (if (numComputedTokens / config.blockSize + foundBlocks config.toConfig request numComputedTokens lookup) *
          config.blockSize = request.allTokenIds.length then 1 else 0) ≤ _
      rw [← Nat.cast_mul]
      split_ifs <;> omega
  dsimp only at h
  refine ⟨hmod, ?_⟩
  split_ifs at h with hle
  · obtain ⟨rfl, rfl⟩ := Prod.mk.inj (Option.some.inj h)
    exact ⟨hother, Or.inl ⟨hexpected.mpr hle, hbase⟩⟩
  · obtain ⟨reqMeta, hm, h⟩ := Option.map_eq_some_iff.mp h
    obtain ⟨rfl, rfl⟩ := Prod.mk.inj h
    constructor
    · intro reqId hne
      rw [Dict.get?_set, if_neg hne, hother reqId hne]
    · right
      refine ⟨fun he => hle (hexpected.mp he), rfl, ?_⟩
      obtain ⟨_, hzero, _⟩ | ⟨_, _, hset⟩ := hcases
      · exact absurd (hzero ▸ Int.natCast_nonneg _) hle
      · rw [hset, Dict.get?_set, if_pos rfl] at hm
        obtain rfl := Option.some.inj hm
        rw [Dict.get?_set, if_pos rfl]
        rfl

end Matched

section Step

variable [DecidableEq ReqId] (config : Config Token BlockId) (numPromptTokens : ReqId → Nat)

def step (s : State BlockId ReqId) : Event Token BlockId ReqId → Option (State BlockId ReqId)
  | .matched request numComputedTokens lookup =>
    if (s.requests request.requestId).phase = .running then none
    else
      (getNumNewMatchedTokens config numPromptTokens s.requestsMeta request numComputedTokens lookup).map
        fun result =>
          { requestsMeta := result.2
            requests := Function.update s.requests request.requestId
              { s.requests request.requestId with
                matched := true
                numComputedTokens := (numComputedTokens + result.1 : Int).toNat } }
  | .preempt reqId => Connector.step config.toConfig s (.preempt reqId)
  | .schedule out => Connector.step config.toConfig s (.schedule out)

variable {config numPromptTokens} {s s' : State BlockId ReqId}

theorem step_matched {request : Request Token ReqId} {numComputedTokens : Nat} {lookup : Lookup BlockId}
    (hs : step config numPromptTokens s (.matched request numComputedTokens lookup) = some s') :
    (s.requests request.requestId).phase ≠ .running ∧ ∃ v,
      getNumNewMatchedTokens config numPromptTokens s.requestsMeta request numComputedTokens lookup =
          some (v, s'.requestsMeta) ∧
        s'.requests = Function.update s.requests request.requestId
          { s.requests request.requestId with
            matched := true
            numComputedTokens := (numComputedTokens + v : Int).toNat } := by
  simp only [step] at hs
  split_ifs at hs with hphase
  obtain ⟨⟨v, requestsMeta⟩, hv, rfl⟩ := Option.map_eq_some_iff.mp hs
  exact ⟨hphase, v, hv, rfl⟩

variable (config) (request : Request Token ReqId)

/-- A step after the match of a request, on blocks for all tokens if it schedules it. -/
def LaterStep (s : State BlockId ReqId) : Event Token BlockId ReqId → Prop
  | .matched request' _ _ => request'.requestId ≠ request.requestId
  | .preempt reqId => reqId ≠ request.requestId
  | .schedule out => request.requestId ∉ out.finishedReqIds ∧ ∀ e ∈ out.entry? request.requestId,
      0 < out.numScheduledTokens request.requestId ∧
        ((s.requests request.requestId).advance e
          (out.numScheduledTokens request.requestId)).numComputedTokens ≤
          ((s.requests request.requestId).advance e
            (out.numScheduledTokens request.requestId)).blockTable.length * config.blockSize

instance (ev : Event Token BlockId ReqId) (s : State BlockId ReqId) : Decidable (LaterStep config request s ev) :=
  match ev with
  | .matched .. => by unfold LaterStep; infer_instance
  | .preempt _ => by unfold LaterStep; infer_instance
  | .schedule _ => by unfold LaterStep; infer_instance

variable {config request}

/-- A step that does not schedule the request changes nothing about it and transfers nothing for it. -/
theorem laterStep_other {ev : Event Token BlockId ReqId} (hg : LaterStep config request s ev)
    (hs : step config numPromptTokens s ev = some s')
    (hnone : ∀ out e, ev = .schedule out → out.entry? request.requestId ≠ some e) :
    s'.requests request.requestId = s.requests request.requestId ∧
      s'.requestsMeta.get? request.requestId = s.requestsMeta.get? request.requestId ∧
      stepPairs config.toConfig request.requestId (s, ev) = ([], []) := by
  cases ev with
  | matched request' nc lookup =>
    obtain ⟨_, v, hv, hrequests⟩ := step_matched hs
    obtain ⟨_, hother, _⟩ := getNumNewMatchedTokens_cases hv
    have hne : request.requestId ≠ request'.requestId := Ne.symm hg
    exact ⟨by rw [hrequests, Function.update_of_ne hne], hother _ hne, rfl⟩
  | preempt reqId =>
    have hbase : Connector.step config.toConfig s (.preempt reqId) = some s' := hs
    obtain ⟨_, rfl⟩ := step_preempt hbase
    exact ⟨Function.update_of_ne (Ne.symm hg) _ _, rfl, rfl⟩
  | schedule out =>
    obtain ⟨ha, hmeta, hrequests⟩ := step_schedule hs
    have he : out.entry? request.requestId = none :=
      Option.eq_none_iff_forall_ne_some.mpr fun e => hnone out e rfl
    rw [stepPairs_schedule, dispatched_eq ha, hmeta, hrequests, he]
    simp only [if_neg hg.1]
    exact ⟨trivial, rfl, rfl⟩

theorem laterStep_schedule {out : SchedulerOutput ReqId} {e : Entry ReqId}
    (hg : LaterStep config request s (.schedule out))
    (hs : step config numPromptTokens s (.schedule out) = some s') (he : out.entry? request.requestId = some e) :
    (s.requests request.requestId).phase = e.phase ∧
      s'.requests request.requestId =
        (s.requests request.requestId).advance e (out.numScheduledTokens request.requestId) ∧
      s'.requestsMeta.get? request.requestId = ((s.requestsMeta.get? request.requestId).map fun reqMeta =>
        (generateDispatchMeta config.blockSize reqMeta (out.numScheduledTokens request.requestId) e.blockIds
          e.needLoad).2) ∧
      stepPairs config.toConfig request.requestId (s, .schedule out) =
        dispatchPairs config.blockSize (s.requestsMeta.get? request.requestId) e
          (out.numScheduledTokens request.requestId) := by
  obtain ⟨ha, hmeta, hrequests⟩ := step_schedule hs
  obtain ⟨hmem, hid⟩ := SchedulerOutput.mem_of_entry? he
  have hphase := (ha.2.1 e hmem).1
  rw [hid] at hphase
  rw [stepPairs_schedule, dispatched_eq ha, hmeta, hrequests, he]
  simp only [if_neg hg.1]
  refine ⟨hphase, trivial, ?_⟩
  rw [← hid]
  cases s.requestsMeta.get? e.reqId with
  | none => exact ⟨rfl, rfl⟩
  | some reqMeta => exact ⟨rfl, rfl⟩

end Step

section Tracked

/-- The data that a match left of a request, `tokenProcessed` tokens being counted. -/
def tracked (fresh : RequestMeta BlockId) (r : RequestState) (tokenProcessed : Nat) : RequestMeta BlockId :=
  { fresh with
    vllmBlockIds := if r.phase = .running then r.blockTable else []
    tokenProcessed := tokenProcessed }

/-- What is known of a request until its next match, when the tokens of its dumps are counted
right or no block of it is left to dump. -/
structure Tracked (blockSize : Nat) (first : Option (RequestMeta BlockId)) (matchedTokens : Nat) (r : RequestState)
    (known : Option (RequestMeta BlockId)) : Prop where
  kept : ∃ tokenProcessed, known = first.map (fun fresh => tracked fresh r tokenProcessed) ∧
    ∀ fresh ∈ first, (tracked fresh r tokenProcessed).Spent blockSize ∨ tokenProcessed = r.numComputedTokens
  waiting : r.phase ≠ .running → r.numComputedTokens = matchedTokens

variable {blockSize matchedTokens n : Nat} {first known : Option (RequestMeta BlockId)} {r : RequestState}
  {e : Entry ReqId}

/-- The recorded blocks and the new ones make the table of the next step. -/
theorem tracked_append (fresh : RequestMeta BlockId) (tokenProcessed : Nat) (he : r.phase = e.phase) :
    (tracked fresh r tokenProcessed).vllmBlockIds ++ e.blockIds = (r.advance e n).blockTable := by
  unfold tracked RequestState.advance
  rw [he]
  split_ifs
  · rfl
  · rfl

theorem Tracked.advance (h : Tracked blockSize first matchedTokens r known) (he : r.phase = e.phase)
    (hall : ∀ fresh ∈ first, fresh.ucmBlockIds.length = fresh.numTokenIds / blockSize) :
    Tracked blockSize first matchedTokens (r.advance e n)
      (known.map fun reqMeta => (generateDispatchMeta blockSize reqMeta n e.blockIds e.needLoad).2) where
  kept := by
    obtain ⟨tokenProcessed, rfl, hcount⟩ := h.kept
    cases first with
    | none => exact ⟨0, rfl, fun _ hm => (by cases hm)⟩
    | some fresh =>
      have htable := tracked_append fresh tokenProcessed (n := n) he
      refine ⟨if tokenProcessed < fresh.numTokenIds then tokenProcessed + n else tokenProcessed, ?_, ?_⟩
      · rw [Option.map_some, Option.map_some, Option.map_some, generateDispatchMeta_snd, htable]
        rfl
      · intro fresh' hm
        obtain rfl := Option.some.inj hm
        split_ifs with hless
        · cases hcount fresh rfl with
          | inl hspent =>
            left
            exact le_trans hspent (Nat.div_le_div_right (Nat.le_add_right _ _))
          | inr heq =>
            right
            rw [heq]
            rfl
        · left
          exact (hall fresh rfl).trans_le (Nat.div_le_div_right (not_lt.mp hless))
  waiting := fun hw => absurd rfl hw

theorem Tracked.loads (h : Tracked blockSize first matchedTokens r known) (he : r.phase = e.phase) :
    (dispatchPairs blockSize known e n).1 =
      if r.phase = .running then []
      else (first.map fun fresh => pairs fresh.ucmBlockIds (r.advance e n).blockTable fresh.hbmHitBlockNum
        fresh.totalHitBlockNum).getD [] := by
  obtain ⟨tokenProcessed, rfl, _⟩ := h.kept
  cases first with
  | none => simp [dispatchPairs]
  | some fresh =>
    simp only [dispatchPairs, RequestDispatchMeta.zipped, Option.map_some, Option.getD_some,
      loadBlockIds_generateDispatchMeta]
    split_ifs with hload hr hr
    · rw [he] at hr
      exact absurd hr (of_decide_eq_true hload)
    · have htable : (r.advance e n).blockTable = e.blockIds := if_neg (of_decide_eq_true hload)
      rw [htable]
      rfl
    · rfl
    · rw [he] at hr
      exact absurd (decide_eq_true hr) hload

/-- What is dumped has been computed. -/
theorem Tracked.inTime (hpos : 0 < blockSize) (h : Tracked blockSize first matchedTokens r known)
    (he : r.phase = e.phase) {p : BlockId × Nat} (hp : p ∈ (dispatchPairs blockSize known e n).2) :
    ∃ fresh ∈ first, ∃ j : Nat, fresh.ucmBlockIds[j]? = some p.1 ∧ (r.advance e n).blockTable[j]? = some p.2 ∧
      (j + 1) * blockSize ≤ r.numComputedTokens + n := by
  obtain ⟨tokenProcessed, rfl, hcount⟩ := h.kept
  cases first with
  | none => simp [dispatchPairs] at hp
  | some fresh =>
    simp only [dispatchPairs, RequestDispatchMeta.zipped, Option.map_some, Option.getD_some,
      dumpBlockIds_generateDispatchMeta] at hp
    rw [tracked_append fresh tokenProcessed (n := n) he] at hp
    split_ifs at hp
    · cases hcount fresh rfl with
      | inl hspent =>
        rw [slice_of_length_le hspent] at hp
        cases hp
      | inr heq =>
        obtain ⟨j, _, hj, hids, htable⟩ := exists_of_mem_zip_slice hp
        refine ⟨fresh, rfl, j, hids, htable, ?_⟩
        rw [← heq]
        exact (Nat.le_div_iff_mul_le hpos).mp hj
    · cases hp

end Tracked

section Leaves

variable {config : Connector.Config Token BlockId} {request : Request Token ReqId} {numComputedTokens : Nat}
  {lookup : Lookup BlockId} {v : Int} {first : Option (RequestMeta BlockId)}

/-- One token is left to compute when all of them are hit. -/
def leftToCompute (blockSize : Nat) (request : Request Token ReqId) (known : Option (RequestMeta BlockId)) : Nat :=
  if known.any (fun reqMeta => reqMeta.totalHitBlockNum * blockSize = request.allTokenIds.length) then 1 else 0

theorem leftToCompute_some (blockSize : Nat) (request : Request Token ReqId) (fresh : RequestMeta BlockId) :
    leftToCompute blockSize request (some fresh) =
      if fresh.totalHitBlockNum * blockSize = request.allTokenIds.length then 1 else 0 := by
  simp [leftToCompute]

theorem leftToCompute_le (blockSize : Nat) (request : Request Token ReqId) (known : Option (RequestMeta BlockId)) :
    leftToCompute blockSize request known ≤ 1 := by
  unfold leftToCompute
  split_ifs <;> omega

/-- The data that a match leaves goes with the tokens that it returns. -/
structure Leaves (config : Connector.Config Token BlockId) (request : Request Token ReqId) (numComputedTokens : Nat)
    (v : Int) (first : Option (RequestMeta BlockId)) : Prop where
  value : ∀ fresh ∈ first, v = (fresh.totalHitBlockNum - fresh.hbmHitBlockNum : Int) * config.blockSize -
    leftToCompute config.blockSize request first
  ids : ∀ fresh ∈ first, fresh.ucmBlockIds = generateHash config request.allTokenIds config.seed ∧
    fresh.numTokenIds = request.allTokenIds.length ∧ fresh.vllmBlockIds = []
  unknown : first = none → v = 0
  range : ∀ fresh ∈ first, fresh.hbmHitBlockNum = numComputedTokens / config.blockSize ∧
      fresh.totalHitBlockNum ≤ request.allTokenIds.length / config.blockSize ∨
    fresh.totalHitBlockNum ≤ fresh.hbmHitBlockNum
  counted : ∀ fresh ∈ first, fresh.Spent config.blockSize ∨
    (fresh.tokenProcessed : Int) = numComputedTokens + v

/-- The blocks of the returned tokens. -/
theorem Leaves.exactly {fresh : RequestMeta BlockId} {blockTable : List Nat}
    (hl : Leaves config request numComputedTokens v first) (hmod : numComputedTokens % config.blockSize = 0)
    (hfresh : fresh ∈ first) (htable : numComputedTokens + v < (blockTable.length * config.blockSize : Nat)) :
    Exactly (generateHash config request.allTokenIds config.seed) blockTable
      (numComputedTokens / config.blockSize)
      ((numComputedTokens + v + leftToCompute config.blockSize request first : Int).toNat / config.blockSize)
      (pairs fresh.ucmBlockIds blockTable fresh.hbmHitBlockNum fresh.totalHitBlockNum) := by
  have hvalue := hl.value fresh hfresh
  have hleft := leftToCompute_le config.blockSize request first
  have hnc : numComputedTokens / config.blockSize * config.blockSize = numComputedTokens :=
    Nat.div_mul_cancel (Nat.dvd_of_mod_eq_zero hmod)
  obtain ⟨hids, -, -⟩ := hl.ids fresh hfresh
  cases hl.range fresh hfresh with
  | inl hrange =>
    obtain ⟨hhbm, htotal⟩ := hrange
    have hstop : (numComputedTokens + v + leftToCompute config.blockSize request first : Int) =
        (fresh.totalHitBlockNum * config.blockSize : Nat) := by
      rw [hvalue, hhbm, sub_mul, ← Nat.cast_mul, ← Nat.cast_mul, hnc]
      omega
    have hlength : fresh.totalHitBlockNum * config.blockSize ≤ blockTable.length * config.blockSize := by omega
    rw [hstop, Int.toNat_natCast, Nat.mul_div_cancel _ config.blockSize_pos, ← hhbm, ← hids]
    apply exactly_pairs
    · rw [hids, length_generateHash]
      exact htotal
    · exact Nat.le_of_mul_le_mul_right hlength config.blockSize_pos
  | inr hnone =>
    have hneg : ((fresh.totalHitBlockNum : Int) - fresh.hbmHitBlockNum) * config.blockSize ≤ 0 :=
      Int.mul_nonpos_of_nonpos_of_nonneg (by omega) (Int.natCast_nonneg _)
    have hstop : (numComputedTokens + v + leftToCompute config.blockSize request first : Int).toNat /
        config.blockSize ≤ numComputedTokens / config.blockSize := Nat.div_le_div_right (by omega)
    rw [pairs_of_le hnone]
    exact ⟨(Nat.sub_eq_zero_of_le hstop).symm, fun j _ _ => by omega⟩

theorem Leaves.tracked (hl : Leaves config request numComputedTokens v first) {r : RequestState}
    (hwaiting : r.phase ≠ .running) (hcomputed : (r.numComputedTokens : Int) = numComputedTokens + v) :
    Tracked config.blockSize first r.numComputedTokens r first where
  kept := by
    cases first with
    | none => exact ⟨0, rfl, fun _ hm => (by cases hm)⟩
    | some fresh =>
      have hempty : fresh.vllmBlockIds = [] := (hl.ids fresh rfl).2.2
      refine ⟨fresh.tokenProcessed, ?_, ?_⟩
      · rw [Option.map_some, Mock.tracked, if_neg hwaiting, ← hempty]
      · intro fresh' hm
        obtain rfl := Option.some.inj hm
        cases hl.counted fresh rfl with
        | inl hspent => exact Or.inl hspent
        | inr heq =>
          right
          omega
  waiting := fun _ => rfl

end Leaves

section Keeps

variable {config : Config Token BlockId} {numPromptTokens : ReqId → Nat} {request : Request Token ReqId}
  {numComputedTokens : Nat} {lookup : Lookup BlockId}

theorem leaves_of_cut (hcut : ¬ Expected config numPromptTokens request numComputedTokens lookup)
    (hload : numComputedTokens / config.blockSize = 0 ∨
      config.expectHitBlockNum (numPromptTokens request.requestId) = 0)
    (hdump : request.allTokenIds.length / config.blockSize ≤
      numComputedTokens / config.blockSize + foundBlocks config.toConfig request numComputedTokens lookup) :
    Leaves config.toConfig request numComputedTokens
      (config.expectHitBlockNum (numPromptTokens request.requestId) * config.blockSize)
      (some (cutMeta config numPromptTokens request numComputedTokens lookup)) := by
  obtain ⟨hless, hexternal⟩ := expectHitBlockNum_lt hcut
  have htotal : config.expectHitBlockNum (numPromptTokens request.requestId) <
      request.allTokenIds.length / config.blockSize :=
    hless.trans_le ((Nat.le_add_left _ _).trans hexternal)
  have hmul : config.expectHitBlockNum (numPromptTokens request.requestId) * config.blockSize <
      request.allTokenIds.length :=
    (Nat.mul_lt_mul_of_pos_right htotal config.blockSize_pos).trans_le (Nat.div_mul_le_self _ _)
  have hhbm : (cutMeta config numPromptTokens request numComputedTokens lookup).hbmHitBlockNum = 0 := by
    change min (config.expectHitBlockNum (numPromptTokens request.requestId))
      (numComputedTokens / config.blockSize) = 0
    cases hload with
    | inl hnone => rw [hnone, Nat.min_zero]
    | inr hnone => rw [hnone, Nat.zero_min]
  have hleft : leftToCompute config.blockSize request
      (some (cutMeta config numPromptTokens request numComputedTokens lookup)) = 0 := by
    rw [leftToCompute_some]
    exact if_neg hmul.ne
  exact
    { value := by
        intro fresh hm
        obtain rfl := Option.some.inj hm
        rw [hleft, hhbm, Nat.cast_zero, sub_zero, sub_zero]
        rfl
      ids := by
        intro fresh hm
        obtain rfl := Option.some.inj hm
        exact ⟨rfl, rfl, rfl⟩
      unknown := fun hm => (by cases hm)
      range := by
        intro fresh hm
        obtain rfl := Option.some.inj hm
        cases hload with
        | inl hnone => exact Or.inl ⟨hhbm.trans hnone.symm, htotal.le⟩
        | inr hnone => exact Or.inr (hnone.trans_le (Nat.zero_le _))
      counted := by
        intro fresh hm
        obtain rfl := Option.some.inj hm
        left
        have hprocessed : (cutMeta config numPromptTokens request numComputedTokens lookup).tokenProcessed =
            (numComputedTokens / config.blockSize +
              foundBlocks config.toConfig request numComputedTokens lookup) * config.blockSize := rfl
        rw [RequestMeta.Spent, hprocessed, Nat.mul_div_cancel _ config.blockSize_pos]
        exact (length_generateHash _ _ _).trans_le hdump }

/-- The first step of a request whose hits are cut down starts to dump where they were found to end. -/
theorem dispatchPairs_cut (numPromptTokens : ReqId → Nat)
    (hdump : numComputedTokens / config.blockSize + foundBlocks config.toConfig request numComputedTokens lookup <
      request.allTokenIds.length / config.blockSize) (e : Entry ReqId) :
    (dispatchPairs config.blockSize (some (cutMeta config numPromptTokens request numComputedTokens lookup)) e
        config.blockSize).2 =
      pairs (generateHash config.toConfig request.allTokenIds config.seed) e.blockIds
        (numComputedTokens / config.blockSize + foundBlocks config.toConfig request numComputedTokens lookup)
        (numComputedTokens / config.blockSize + foundBlocks config.toConfig request numComputedTokens lookup + 1) := by
  have hprocessed : (cutMeta config numPromptTokens request numComputedTokens lookup).tokenProcessed =
      (numComputedTokens / config.blockSize + foundBlocks config.toConfig request numComputedTokens lookup) *
        config.blockSize := rfl
  have hprompt : (cutMeta config numPromptTokens request numComputedTokens lookup).tokenProcessed <
      (cutMeta config numPromptTokens request numComputedTokens lookup).numTokenIds :=
    (Nat.mul_lt_mul_of_pos_right hdump config.blockSize_pos).trans_le (Nat.div_mul_le_self _ _)
  simp only [dispatchPairs, RequestDispatchMeta.zipped, Option.map_some, Option.getD_some,
    dumpBlockIds_generateDispatchMeta]
  rw [if_pos hprompt, hprocessed, ← Nat.add_one_mul, Nat.mul_div_cancel _ config.blockSize_pos,
    Nat.mul_div_cancel _ config.blockSize_pos]
  rfl

variable (config numPromptTokens request numComputedTokens lookup) in
/-- Nothing is cut down, or what is cut down was not in HBM and leaves nothing to dump. -/
def KeepsHits : Prop :=
  Expected config numPromptTokens request numComputedTokens lookup ∨
    (numComputedTokens / config.blockSize = 0 ∨ config.expectHitBlockNum (numPromptTokens request.requestId) = 0) ∧
      request.allTokenIds.length / config.blockSize ≤
        numComputedTokens / config.blockSize + foundBlocks config.toConfig request numComputedTokens lookup

instance : Decidable (KeepsHits config numPromptTokens request numComputedTokens lookup) :=
  inferInstanceAs (Decidable (_ ∨ _))

end Keeps

section Sole

/-- An output with one request, which was in `phase`. -/
def soleOutput (reqId : ReqId) (phase : Phase) (blockIds : List Nat) (newTokens : Nat) : SchedulerOutput ReqId where
  scheduledNewReqs := if phase = .waiting then [⟨reqId, blockIds⟩] else []
  scheduledCachedReqs := if phase = .waiting then [] else [⟨reqId, some blockIds, decide (phase = .preempted)⟩]
  numScheduledTokens := fun _ => newTokens
  finishedReqIds := []

theorem entries_soleOutput (reqId : ReqId) (phase : Phase) (blockIds : List Nat) (newTokens : Nat) :
    (soleOutput reqId phase blockIds newTokens).entries = [⟨reqId, blockIds, phase⟩] := by
  cases phase with
  | waiting => rfl
  | running => rfl
  | preempted => rfl

theorem soleOutput_schedules [DecidableEq ReqId] (config : Config Token BlockId) (numPromptTokens : ReqId → Nat)
    {s : State BlockId ReqId} {reqId : ReqId} (blockIds : List Nat) (newTokens : Nat)
    (hmatched : (s.requests reqId).matched = true) :
    ∃ s', step config numPromptTokens s
        (.schedule (soleOutput reqId (s.requests reqId).phase blockIds newTokens)) = some s' ∧
      SchedulerOutput.entry? (soleOutput reqId (s.requests reqId).phase blockIds newTokens) reqId =
        some ⟨reqId, blockIds, (s.requests reqId).phase⟩ := by
  have hallowed : (soleOutput reqId (s.requests reqId).phase blockIds newTokens).Allowed s.requests := by
    unfold SchedulerOutput.Allowed
    rw [entries_soleOutput]
    simp [hmatched, soleOutput]
  refine ⟨_, if_pos hallowed, ?_⟩
  unfold SchedulerOutput.entry?
  rw [entries_soleOutput]
  simp

end Sole

section Run

variable [DecidableEq ReqId] {config : Config Token BlockId} {numPromptTokens : ReqId → Nat}
  {request : Request Token ReqId} {s s₀ s₁ : State BlockId ReqId} {numComputedTokens matchedTokens : Nat}
  {lookup : Lookup BlockId} {v : Int} {first : Option (RequestMeta BlockId)}
  {tr : List (State BlockId ReqId × Event Token BlockId ReqId)}

theorem tracked_trace
    (hall : ∀ fresh ∈ first, fresh.ucmBlockIds.length = fresh.numTokenIds / config.blockSize)
    (h₁ : Tracked config.blockSize first matchedTokens (s₁.requests request.requestId)
      (s₁.requestsMeta.get? request.requestId))
    (htr : StepSystem.Trace (step config numPromptTokens) (LaterStep config request) s₁ tr s) :
    Tracked config.blockSize first matchedTokens (s.requests request.requestId)
      (s.requestsMeta.get? request.requestId) := by
  induction htr with
  | start => exact h₁
  | @next tr s s' ev _ hg hs ih =>
    by_cases hev : ∃ out e, ev = .schedule out ∧ out.entry? request.requestId = some e
    · obtain ⟨out, e, rfl, he⟩ := hev
      obtain ⟨hphase, hr, hm, _⟩ := laterStep_schedule hg hs he
      rw [hr, hm]
      exact ih.advance hphase hall
    · obtain ⟨hr, hm, _⟩ := laterStep_other hg hs fun out e h he => hev ⟨out, e, h, he⟩
      rw [hr, hm]
      exact ih

/-- What is transferred for a request that is told `v` tokens, against the data `known` that its
match left: each token that it is told, the one left to compute included, is in a block that its
first step loads, and its dumps follow the computed tokens. -/
structure Fits (config : Connector.Config Token BlockId) (request : Request Token ReqId) (numComputedTokens : Nat)
    (v : Int) (known : Option (RequestMeta BlockId)) (tr : List (State BlockId ReqId × Event Token BlockId ReqId)) :
    Prop where
  value : ∀ reqMeta ∈ known, v = (reqMeta.totalHitBlockNum - reqMeta.hbmHitBlockNum : Int) * config.blockSize -
    leftToCompute config.blockSize request known
  loads : ∀ t out e, (t, .schedule out) ∈ tr → out.entry? request.requestId = some e →
    if (t.requests request.requestId).phase = .running then
      (stepPairs config request.requestId (t, .schedule out)).1 = []
    else
      Exactly (generateHash config request.allTokenIds config.seed)
        ((t.requests request.requestId).advance e (out.numScheduledTokens request.requestId)).blockTable
        (numComputedTokens / config.blockSize)
        ((numComputedTokens + v + leftToCompute config.blockSize request known : Int).toNat / config.blockSize)
        (stepPairs config request.requestId (t, .schedule out)).1
  others : ∀ t ev, (t, ev) ∈ tr → (∀ out e, ev = .schedule out → out.entry? request.requestId ≠ some e) →
    stepPairs config request.requestId (t, ev) = ([], [])
  inTime : ∀ t out e, (t, .schedule out) ∈ tr → out.entry? request.requestId = some e →
    ∀ p ∈ (stepPairs config request.requestId (t, .schedule out)).2, ∃ j : Nat,
      (generateHash config request.allTokenIds config.seed)[j]? = some p.1 ∧
        ((t.requests request.requestId).advance e
          (out.numScheduledTokens request.requestId)).blockTable[j]? = some p.2 ∧
        (j + 1) * config.blockSize ≤
          (t.requests request.requestId).numComputedTokens + out.numScheduledTokens request.requestId

theorem Leaves.fits
    (hl : Leaves config.toConfig request numComputedTokens v (s₁.requestsMeta.get? request.requestId))
    (hmod : numComputedTokens % config.blockSize = 0) (hwaiting : (s₁.requests request.requestId).phase ≠ .running)
    (hcomputed : ((s₁.requests request.requestId).numComputedTokens : Int) = numComputedTokens + v)
    (htr : StepSystem.Trace (step config numPromptTokens) (LaterStep config request) s₁ tr s) :
    Fits config.toConfig request numComputedTokens v (s₁.requestsMeta.get? request.requestId) tr := by
  have hall : ∀ fresh ∈ s₁.requestsMeta.get? request.requestId,
      fresh.ucmBlockIds.length = fresh.numTokenIds / config.blockSize := by
    intro fresh hfresh
    obtain ⟨hids, hnum, -⟩ := hl.ids fresh hfresh
    rw [hids, hnum, length_generateHash]
  -- the request is tracked before each step
  have hstep : ∀ t ev, (t, ev) ∈ tr → Tracked config.blockSize (s₁.requestsMeta.get? request.requestId)
      (s₁.requests request.requestId).numComputedTokens (t.requests request.requestId)
      (t.requestsMeta.get? request.requestId) ∧ LaterStep config request t ev ∧
        ∃ t', step config numPromptTokens t ev = some t' := by
    intro t ev hmem
    obtain ⟨tr', t', htr', hg, hs'⟩ := htr.of_mem hmem
    exact ⟨tracked_trace hall (hl.tracked hwaiting hcomputed) htr', hg, t', hs'⟩
  refine ⟨hl.value, ?_, ?_, ?_⟩
  · intro t out e hmem he
    obtain ⟨ht, hg, t', hs'⟩ := hstep t _ hmem
    obtain ⟨hphase, _, _, hp⟩ := laterStep_schedule hg hs' he
    have hloads := ht.loads (n := out.numScheduledTokens request.requestId) hphase
    rw [hp, hloads]
    split_ifs with hr
    · rfl
    · obtain ⟨hpos, hcover⟩ := hg.2 e he
      have hcount := ht.waiting hr
      have hnext : ((t.requests request.requestId).advance e
          (out.numScheduledTokens request.requestId)).numComputedTokens =
        (t.requests request.requestId).numComputedTokens + out.numScheduledTokens request.requestId := rfl
      cases hfirst : s₁.requestsMeta.get? request.requestId with
      | none =>
        have hstop : (numComputedTokens + v + leftToCompute config.blockSize request
            (none : Option (RequestMeta BlockId)) : Int).toNat = numComputedTokens := by
          rw [hl.unknown hfirst]
          exact Int.toNat_natCast numComputedTokens
        rw [hstop]
        exact ⟨(Nat.sub_self _).symm, fun j haj hjb => absurd haj (not_le.mpr hjb)⟩
      | some fresh =>
        rw [Option.map_some, Option.getD_some, ← hfirst]
        apply hl.exactly hmod hfirst
        omega
  · intro t ev hmem hnone
    obtain ⟨_, hg, t', hs'⟩ := hstep t ev hmem
    exact (laterStep_other hg hs' hnone).2.2
  · intro t out e hmem he p hp
    obtain ⟨ht, hg, t', hs'⟩ := hstep t _ hmem
    obtain ⟨hphase, _, _, hpairs⟩ := laterStep_schedule hg hs' he
    obtain ⟨fresh, hfresh, j, hids, htable, hj⟩ := ht.inTime config.blockSize_pos hphase (hpairs ▸ hp)
    exact ⟨j, (hl.ids fresh hfresh).1 ▸ hids, htable, hj⟩

end Run

section Keeps

variable [DecidableEq ReqId] {config : Config Token BlockId} {numPromptTokens : ReqId → Nat}
  {request : Request Token ReqId} {s₀ s₁ : State BlockId ReqId} {numComputedTokens : Nat} {lookup : Lookup BlockId}
  {v : Int}

theorem leaves_of_expected {requestsMeta requestsMeta' : Dict ReqId (RequestMeta BlockId)}
    (h : numComputedTokens < request.allTokenIds.length)
    (hknown : ∀ reqMeta ∈ requestsMeta.get? request.requestId,
      numComputedTokens / config.blockSize < request.allTokenIds.length / config.blockSize)
    (hv : Connector.getNumNewMatchedTokens config.toConfig requestsMeta request numComputedTokens lookup =
      some (v, requestsMeta')) :
    Leaves config.toConfig request numComputedTokens v (requestsMeta'.get? request.requestId) := by
  obtain ⟨_, _, hvalue⟩ := matched_value hv h
  obtain ⟨hmod, hcases⟩ := Connector.getNumNewMatchedTokens_cases hv
  have hf : Hits config.toConfig request (freshMeta config.toConfig request numComputedTokens lookup) :=
    hits_freshMeta h
  obtain ⟨hall, rfl, rfl⟩ | ⟨_, _, hset⟩ := hcases
  · have hnone : requestsMeta'.get? request.requestId = none :=
      Option.eq_none_iff_forall_ne_some.mpr fun reqMeta hm => absurd (hknown reqMeta hm) (not_lt.mpr hall)
    rw [hnone]
    exact
      { value := fun _ hm => (by cases hm)
        ids := fun _ hm => (by cases hm)
        unknown := fun _ => rfl
        range := fun _ hm => (by cases hm)
        counted := fun _ hm => (by cases hm) }
  · have hnc : numComputedTokens / config.blockSize * config.blockSize = numComputedTokens :=
      Nat.div_mul_cancel (Nat.dvd_of_mod_eq_zero hmod)
    rw [hf.tokenProcessed] at hvalue
    rw [hset, Dict.get?_set, if_pos rfl]
    exact
      { value := by
          intro fresh hm
          obtain rfl := Option.some.inj hm
          have hhbm : (freshMeta config.toConfig request numComputedTokens lookup).hbmHitBlockNum *
            config.blockSize = numComputedTokens := hnc
          rw [leftToCompute_some, sub_mul, ← Nat.cast_mul, ← Nat.cast_mul, hhbm]
          split_ifs at hvalue ⊢ <;> omega
        ids := by
          intro fresh hm
          obtain rfl := Option.some.inj hm
          exact ⟨rfl, rfl, rfl⟩
        unknown := fun hm => (by cases hm)
        range := by
          intro fresh hm
          obtain rfl := Option.some.inj hm
          exact Or.inl ⟨rfl, hf.total_le⟩
        counted := by
          intro fresh hm
          obtain rfl := Option.some.inj hm
          rw [RequestMeta.Spent, hf.ucmBlockIds, hf.tokenProcessed]
          split_ifs at hvalue with hall
          · left
            rw [hall]
          · right
            omega }

/-- What the match of a request whose hits are cut down makes of it. -/
theorem step_cut (hs : step config numPromptTokens s₀ (.matched request numComputedTokens lookup) = some s₁)
    (hcut : ¬ Expected config numPromptTokens request numComputedTokens lookup) :
    numComputedTokens % config.blockSize = 0 ∧ (s₁.requests request.requestId).phase ≠ .running ∧
      (s₁.requests request.requestId).matched = true ∧
      (s₁.requests request.requestId).numComputedTokens =
        numComputedTokens + config.expectHitBlockNum (numPromptTokens request.requestId) * config.blockSize ∧
      s₁.requestsMeta.get? request.requestId =
        some (cutMeta config numPromptTokens request numComputedTokens lookup) ∧
      getNumNewMatchedTokens config numPromptTokens s₀.requestsMeta request numComputedTokens lookup =
        some ((config.expectHitBlockNum (numPromptTokens request.requestId) * config.blockSize : Int),
          s₁.requestsMeta) := by
  obtain ⟨hphase, v, hv, hrequests⟩ := step_matched hs
  obtain ⟨hmod, _, hcases⟩ := getNumNewMatchedTokens_cases hv
  obtain ⟨hexpected, _⟩ | ⟨_, rfl, hm⟩ := hcases
  · exact absurd hexpected hcut
  · rw [hrequests, Function.update_self]
    exact ⟨hmod, hphase, rfl, rfl, hm, hv⟩

/-- A step of one block dumps the block behind all that were found, which is not computed then. -/
theorem not_inTime_of_cut
    (hs : step config numPromptTokens s₀ (.matched request numComputedTokens lookup) = some s₁)
    (hcut : ¬ Expected config numPromptTokens request numComputedTokens lookup)
    (hdump : numComputedTokens / config.blockSize + foundBlocks config.toConfig request numComputedTokens lookup <
      request.allTokenIds.length / config.blockSize) :
    ∃ tr s, StepSystem.Trace (step config numPromptTokens) (LaterStep config request) s₁ tr s ∧
      ∀ v known, ¬ Fits config.toConfig request numComputedTokens v known tr := by
  obtain ⟨hmod, hphase, hmatched, hcomputed, hm, _⟩ := step_cut hs hcut
  obtain ⟨hless, _⟩ := expectHitBlockNum_lt hcut
  have hpos := config.blockSize_pos
  have hnc : numComputedTokens / config.blockSize * config.blockSize = numComputedTokens :=
    Nat.div_mul_cancel (Nat.dvd_of_mod_eq_zero hmod)
  let found := numComputedTokens / config.blockSize + foundBlocks config.toConfig request numComputedTokens lookup
  have hblocks : numComputedTokens / config.blockSize +
      config.expectHitBlockNum (numPromptTokens request.requestId) + 1 ≤ found := Nat.add_lt_add_left hless _
  have hnext : numComputedTokens + config.expectHitBlockNum (numPromptTokens request.requestId) * config.blockSize +
      config.blockSize ≤ found * config.blockSize := by
    have hmul := Nat.mul_le_mul_right config.blockSize hblocks
    rwa [Nat.add_mul, Nat.add_mul, Nat.one_mul, hnc] at hmul
  obtain ⟨s', hs', he⟩ :=
    soleOutput_schedules config numPromptTokens (List.range (found + 1)) config.blockSize hmatched
  have htable : ((s₁.requests request.requestId).advance ⟨request.requestId, List.range (found + 1),
      (s₁.requests request.requestId).phase⟩ config.blockSize).blockTable = List.range (found + 1) := if_neg hphase
  have hg : LaterStep config request s₁ (.schedule (soleOutput request.requestId
      (s₁.requests request.requestId).phase (List.range (found + 1)) config.blockSize)) := by
    refine ⟨List.not_mem_nil, ?_⟩
    intro e hmem
    obtain rfl := Option.some.inj (he.symm.trans hmem)
    refine ⟨hpos, ?_⟩
    change (s₁.requests request.requestId).numComputedTokens + config.blockSize ≤
      ((s₁.requests request.requestId).advance _ config.blockSize).blockTable.length * config.blockSize
    rw [htable, List.length_range, hcomputed]
    exact hnext.trans (Nat.mul_le_mul_right _ (Nat.le_succ _))
  obtain ⟨_, _, _, hpairs⟩ := laterStep_schedule hg hs' he
  refine ⟨_, s', StepSystem.Trace.start.next hg hs', ?_⟩
  intro v known hfits
  have hdumps := dispatchPairs_cut numPromptTokens hdump
    ⟨request.requestId, List.range (found + 1), (s₁.requests request.requestId).phase⟩
  have hexact : Exactly (generateHash config.toConfig request.allTokenIds config.seed) (List.range (found + 1)) found
      (found + 1) (pairs (generateHash config.toConfig request.allTokenIds config.seed) (List.range (found + 1))
        found (found + 1)) :=
    exactly_pairs ((length_generateHash config.toConfig _ _).symm ▸ hdump) (List.length_range).ge
  obtain ⟨ucmBlockId, vllmBlockId, _, hentry, hp⟩ := hexact.2 found le_rfl (Nat.lt_succ_self _)
  have hmem := List.mem_of_getElem? hp
  rw [hm] at hpairs
  rw [← hdumps] at hmem
  obtain ⟨j, _, hj, hle⟩ := hfits.inTime s₁ _ _ List.mem_cons_self he _ (hpairs ▸ hmem)
  have hj : (List.range (found + 1))[j]? = some vllmBlockId := htable ▸ hj
  have hlast : (j + 1) * config.blockSize ≤
      (s₁.requests request.requestId).numComputedTokens + config.blockSize := hle
  -- the table is its own list of places, so the pair is that of the block behind the found ones
  obtain ⟨_, hj⟩ := List.getElem?_eq_some_iff.mp hj
  obtain ⟨_, hentry⟩ := List.getElem?_eq_some_iff.mp hentry
  rw [List.getElem_range] at hj hentry
  rw [hj, ← hentry, hcomputed, Nat.add_mul, Nat.one_mul] at hlast
  omega

/-- The match and all that follows it, when it leaves no data of an earlier match behind. -/
theorem fits_iff (h : numComputedTokens < request.allTokenIds.length)
    (hknown : ∀ reqMeta ∈ s₀.requestsMeta.get? request.requestId,
      numComputedTokens / config.blockSize < request.allTokenIds.length / config.blockSize)
    (hs : step config numPromptTokens s₀ (.matched request numComputedTokens lookup) = some s₁) :
    (∃ v, getNumNewMatchedTokens config numPromptTokens s₀.requestsMeta request numComputedTokens lookup =
        some (v, s₁.requestsMeta) ∧
      ∀ tr s, StepSystem.Trace (step config numPromptTokens) (LaterStep config request) s₁ tr s →
        Fits config.toConfig request numComputedTokens v (s₁.requestsMeta.get? request.requestId) tr) ↔
      KeepsHits config numPromptTokens request numComputedTokens lookup := by
  constructor
  · rintro ⟨v, hv, hfits⟩
    by_cases hexpected : Expected config numPromptTokens request numComputedTokens lookup
    · exact Or.inl hexpected
    right
    obtain ⟨_, _, _, _, hm, hvalue⟩ := step_cut hs hexpected
    obtain ⟨hless, hexternal⟩ := expectHitBlockNum_lt hexpected
    constructor
    · have htold := (hfits [] s₁ .start).value _ hm
      obtain ⟨rfl, _⟩ := Prod.mk.inj (Option.some.inj (hv.symm.trans hvalue))
      -- the hits in HBM that are left over are counted twice
      have htwice : ((cutMeta config numPromptTokens request numComputedTokens lookup).hbmHitBlockNum : Int) *
          config.blockSize ≤ 0 := by
        rw [sub_mul] at htold
        have hkept : (cutMeta config numPromptTokens request numComputedTokens lookup).totalHitBlockNum =
          config.expectHitBlockNum (numPromptTokens request.requestId) := rfl
        rw [hkept] at htold
        omega
      have hnone : (cutMeta config numPromptTokens request numComputedTokens lookup).hbmHitBlockNum = 0 := by
        rw [← Nat.cast_mul] at htwice
        have hmul : (cutMeta config numPromptTokens request numComputedTokens lookup).hbmHitBlockNum *
          config.blockSize = 0 := by omega
        exact (Nat.mul_eq_zero.mp hmul).resolve_right config.blockSize_pos.ne'
      cases Nat.min_eq_zero_iff.mp hnone with
      | inl hzero => exact Or.inr hzero
      | inr hzero => exact Or.inl hzero
    · by_contra hdump
      obtain ⟨tr, s, htr, hnot⟩ := not_inTime_of_cut hs hexpected (not_le.mp hdump)
      exact hnot v _ (hfits tr s htr)
  · intro hkeeps
    obtain ⟨hphase, v, hv, hrequests⟩ := step_matched hs
    obtain ⟨hmod, _, hcases⟩ := getNumNewMatchedTokens_cases hv
    refine ⟨v, hv, ?_⟩
    intro tr s htr
    have hl : Leaves config.toConfig request numComputedTokens v (s₁.requestsMeta.get? request.requestId) ∧
        0 ≤ v := by
      obtain ⟨_, hbase⟩ | ⟨hcut, rfl, hm⟩ := hcases
      · exact ⟨leaves_of_expected h hknown hbase, (matched_value hbase h).1⟩
      · obtain ⟨hload, hdump⟩ := hkeeps.resolve_left hcut
        rw [hm]
        exact ⟨leaves_of_cut hcut hload hdump, by positivity⟩
    obtain ⟨hl, hpos⟩ := hl
    apply hl.fits hmod _ _ htr
    · rw [hrequests, Function.update_self]
      exact hphase
    · rw [hrequests, Function.update_self]
      dsimp only
      omega

end Keeps

def HitRatio.quarter : HitRatio := ⟨2 ^ 1072, by decide +kernel, by decide +kernel⟩

def HitRatio.one : HitRatio := ⟨2 ^ 1074, by decide +kernel, by decide +kernel⟩

def nineTokens : Request Nat Nat := ⟨0, [1, 2, 3, 4, 5, 6, 7, 8, 9]⟩

/-- The first three blocks are found. -/
def hitThree : Lookup Nat := fun blockIds => some ⟨blockIds.map fun blockId => blockId ≤ 3, List.length_map _⟩

/-- With the whole prompt expected nothing is cut down. -/
theorem fits_nineTokens : ∃ s₁ v,
    step ⟨.pairs, .one⟩ (fun _ => 9) .initial (.matched nineTokens 2 hitThree) = some s₁ ∧
      ∀ tr s, StepSystem.Trace (step ⟨.pairs, .one⟩ fun _ => 9) (LaterStep ⟨.pairs, .one⟩ nineTokens) s₁ tr s →
        Fits .pairs nineTokens 2 v (s₁.requestsMeta.get? 0) tr := by
  have hrun : (step ⟨.pairs, .one⟩ (fun _ => 9) .initial (.matched nineTokens 2 hitThree)).isSome := by
    decide +kernel
  obtain ⟨s₁, hs₁⟩ := Option.isSome_iff_exists.mp hrun
  have hkeeps : KeepsHits ⟨.pairs, .one⟩ (fun _ => 9) nineTokens 2 hitThree := by decide +kernel
  obtain ⟨v, _, hfits⟩ := (fits_iff (by decide) (fun _ hm => (by cases hm)) hs₁).mpr hkeeps
  exact ⟨s₁, v, hs₁, hfits⟩

/-- Of nine tokens two are in HBM and four are found, but only two are expected: two are told and
none is loaded, and the last block is dumped before its second token. -/
theorem not_fits_nineTokens : ∃ s₁ tr s,
    step ⟨.pairs, .quarter⟩ (fun _ => 9) .initial (.matched nineTokens 2 hitThree) = some s₁ ∧
      (s₁.requests 0).numComputedTokens = 2 + 2 ∧
      StepSystem.Trace (step ⟨.pairs, .quarter⟩ fun _ => 9) (LaterStep ⟨.pairs, .quarter⟩ nineTokens) s₁ tr s ∧
      tr.map (stepPairs .pairs 0) = [([], [(4, 4)])] ∧ (s.requests 0).numComputedTokens = 7 ∧
      ¬ Fits .pairs nineTokens 2 2 (s₁.requestsMeta.get? 0) tr := by
  have hrun : (step ⟨.pairs, .quarter⟩ (fun _ => 9) .initial (.matched nineTokens 2 hitThree)).any fun s₁ =>
      (s₁.requests 0).numComputedTokens = 2 + 2 ∧
        ((s₁.requestsMeta.get? 0).any fun reqMeta => reqMeta.hbmHitBlockNum = 1 ∧ reqMeta.totalHitBlockNum = 1) ∧
        (StepSystem.traced (fun s e => decide (LaterStep ⟨.pairs, .quarter⟩ nineTokens s e))
          (step ⟨.pairs, .quarter⟩ fun _ => 9) [] s₁ [.schedule (scheduleNew [1, 2, 3, 4] 3)]).any fun x =>
            x.1.map (stepPairs .pairs 0) = [([], [(4, 4)])] ∧ (x.2.requests 0).numComputedTokens = 7 := by
    decide +kernel
  obtain ⟨s₁, hs₁, hrun⟩ := (Option.any_eq_true _ _).mp hrun
  obtain ⟨hcomputed, hknown, hrun⟩ := of_decide_eq_true hrun
  obtain ⟨⟨tr, s⟩, hs, he⟩ := (Option.any_eq_true _ _).mp hrun
  obtain ⟨hpairs, hlast⟩ := of_decide_eq_true he
  refine ⟨s₁, tr, s, hs₁, hcomputed, StepSystem.Trace.start.traced (fun s e he => of_decide_eq_true he) hs, hpairs,
    hlast, ?_⟩
  intro hfits
  obtain ⟨reqMeta, hm, hcounts⟩ := (Option.any_eq_true _ _).mp hknown
  obtain ⟨hhbm, htotal⟩ := of_decide_eq_true hcounts
  have htold := hfits.value reqMeta hm
  rw [hhbm, htotal] at htold
  omega

end UnifiedCache.Connector.Mock
