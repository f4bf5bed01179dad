import UnifiedCache.Lib.Collections
import UnifiedCache.Lib.StepSystem

/-! The prefixes whose hashes a step rebuilds: for each request that comes with cached tokens, their
slots and blocks, one request after the other. -/

namespace UnifiedCache.Sparse.GSAOnDevice

open StepSystem

variable {Id : Type*}

structure Config (Id : Type*) where
  numPromptTokens : Id → Nat
  hashTopkTokens : Nat
  blockSize : Nat
  maxNumTokens : Nat
  maxBatchSize : Nat

/-- What a step is given. -/
structure Batch (Id : Type*) where
  numScheduledTokens : Dict Id Nat
  numComputedTokens : Id → Nat
  reqIdToIndex : Id → Nat
  queryStartLoc : List Int
  blockTable : Nat → List Int
  numExternalComputedTokens : Dict Id Nat

/-- The buffers for the cached prefixes and how far they are filled. -/
structure Prefixes where
  slotMappingBuf : List Int
  blockIdsBuf : List Int
  allPrefixTokens : Nat := 0
  allPrefixBlocks : Nat := 0
  numPcHit : Nat := 0

structure Visit (Id : Type*) where
  isPrefillFlag : Dict Id Bool
  decodeReqIds : List Nat
  prefixes : Prefixes

structure State (Id : Type*) where
  isPrefillFlag : Dict Id Bool := Dict.empty
  prefixSlotMappingBuf : List Int
  prefixBlockIdsBuf : List Int
  decodeReqIds : List Nat := []
  hasDecode : Bool := false
  decodeOnly : Bool := false
  hasPcHit : Bool := false
  prefixSlotMapping : List Int := []
  prefixBlockIds : List Int := []

def cdiv (a b : Nat) : Nat := (a + b - 1) / b

/-- `buf[start:stop] = src`: the lengths agree, or the one entry of `src` goes everywhere. -/
def assign (buf : List Int) (start stop : Nat) (src : List Int) : Option (List Int) :=
  let room := min stop buf.length - min start buf.length
  if src.length = room then some (buf.take start ++ src ++ buf.drop stop)
  else if src.length = 1 then
    some (buf.take start ++ (List.replicate room src).flatten ++ buf.drop (start + room))
  else none

structure PrefixInfo where
  numPrefixTokens : Nat
  numPrefixBlocks : Nat
  prefixBlockIds : List Int
  prefixSlotMapping : List Int

variable (cfg : Config Id) (batch : Batch Id)

def rebuildPrefixCacheInfoForReq (blockTableRow : List Int) (numPromptTokens : Nat) (qlen : Int) : Option PrefixInfo :=
  if ¬ (0 ≤ qlen ∧ qlen ≤ numPromptTokens) then none
  else
    let numPrefixTokens := (numPromptTokens - qlen).toNat
    if numPrefixTokens = 0 then some ⟨0, 0, [], []⟩
    else
      let numPrefixBlocks := (numPrefixTokens + cfg.blockSize - 1) / cfg.blockSize
      let prefixBlockIds := blockTableRow.take numPrefixBlocks
      let tokenIdx := (List.range cfg.maxNumTokens).take numPrefixTokens
      -- `index_select` checks its indices
      (tokenIdx.mapM fun t => prefixBlockIds[t / cfg.blockSize]?.map fun block =>
        block * (cfg.blockSize : Int) + ((t - t / cfg.blockSize * cfg.blockSize : Nat) : Int)).map fun prefixSlotMapping =>
          ⟨numPrefixTokens, numPrefixBlocks, prefixBlockIds, prefixSlotMapping⟩

def computeQLen (row : Nat) : Option Int :=
  batch.queryStartLoc[row + 1]?.bind fun stop => batch.queryStartLoc[row]?.map fun start => stop - start

/-- What a request with cached tokens adds. -/
def collectPrefix (reqId : Id) (p : Prefixes) : Option Prefixes :=
  let reqRowId := batch.reqIdToIndex reqId
  (computeQLen batch reqRowId).bind fun qlen =>
  (rebuildPrefixCacheInfoForReq cfg (batch.blockTable reqRowId) (cfg.numPromptTokens reqId) qlen).bind fun info =>
  (assign p.slotMappingBuf p.allPrefixTokens (p.allPrefixTokens + info.numPrefixTokens) info.prefixSlotMapping).bind
    fun slotMappingBuf =>
  (assign p.blockIdsBuf p.allPrefixBlocks (p.allPrefixBlocks + info.numPrefixBlocks) info.prefixBlockIds).map
    fun blockIdsBuf =>
  { slotMappingBuf, blockIdsBuf, allPrefixTokens := p.allPrefixTokens + info.numPrefixTokens,
    allPrefixBlocks := p.allPrefixBlocks + info.numPrefixBlocks, numPcHit := p.numPcHit + 1 }

/-- The slots of a request's computed tokens. -/
def computedSlots (reqId : Id) : List Int :=
  (List.range (batch.numComputedTokens reqId)).map fun t =>
    ((batch.blockTable (batch.reqIdToIndex reqId))[t / cfg.blockSize]?).getD 0 * cfg.blockSize +
      ((t % cfg.blockSize : Nat) : Int)

def computedBlocks (reqId : Id) : List Int :=
  (batch.blockTable (batch.reqIdToIndex reqId)).take (cdiv (batch.numComputedTokens reqId) cfg.blockSize)

/-- The first chunk of the request reaches the end of its prompt. -/
def Reaches (id : Id) : Prop :=
  computeQLen batch (batch.reqIdToIndex id) =
    some ((cfg.numPromptTokens id : Int) - (batch.numComputedTokens id : Int))

section Assign

variable {buf src out : List Int} {start stop : Nat}

theorem assign_of_le (hstop : start + src.length = stop) (hle : stop ≤ buf.length) :
    assign buf start stop src = some (buf.take start ++ src ++ buf.drop stop) := by
  rw [assign, if_pos (by omega)]

theorem length_assign (h : assign buf start stop src = some out) (hle : start ≤ stop) : out.length = buf.length := by
  simp only [assign] at h
  split_ifs at h with hlen hone
  · obtain rfl := Option.some.inj h
    simp only [List.length_append, List.length_take, List.length_drop, hlen]
    omega
  · obtain rfl := Option.some.inj h
    simp only [List.length_append, List.length_take, List.length_drop, List.length_flatten, List.map_replicate,
      List.sum_replicate, hone, smul_eq_mul, mul_one]
    omega

end Assign

theorem cdiv_le_iff {a b n : Nat} (hb : 0 < b) : cdiv a b ≤ n ↔ a ≤ b * n := by
  rw [cdiv, Nat.div_le_iff_le_mul_add_pred hb]
  omega

variable {cfg batch}

theorem rebuild_eq {row : List Int} {n promptLen : Nat} {qlen : Int} (hb : 0 < cfg.blockSize)
    (hn : (promptLen : Int) - qlen = n) (hqlen : 0 ≤ qlen) (hmax : n ≤ cfg.maxNumTokens)
    (hrow : n ≤ cfg.blockSize * row.length) :
    rebuildPrefixCacheInfoForReq cfg row promptLen qlen = some ⟨n, cdiv n cfg.blockSize, row.take (cdiv n cfg.blockSize),
      (List.range n).map fun t => (row[t / cfg.blockSize]?).getD 0 * cfg.blockSize + ((t % cfg.blockSize : Nat) : Int)⟩ := by
  have hlen : (promptLen - qlen).toNat = n := by omega
  simp only [rebuildPrefixCacheInfoForReq, hlen]
  rw [if_neg (by omega)]
  split_ifs with h0
  · have hcdiv : cdiv 0 cfg.blockSize = 0 := Nat.div_eq_of_lt (by omega)
    simp [h0, hcdiv]
  · rw [List.take_range, Nat.min_eq_left hmax]
    refine Option.map_eq_some_iff.mpr ⟨_, mapM_eq_map ?_, rfl⟩
    intro t ht
    have htn := List.mem_range.mp ht
    have hlt : t / cfg.blockSize < cdiv n cfg.blockSize := by
      have hle := Nat.mul_div_le t cfg.blockSize
      rw [← Nat.not_le, cdiv_le_iff hb]
      omega
    have hrow : t / cfg.blockSize < row.length := Nat.div_lt_of_lt_mul (by omega)
    have hmod : t - t / cfg.blockSize * cfg.blockSize = t % cfg.blockSize := by
      have := Nat.div_add_mod' t cfg.blockSize
      omega
    change ((row.take (cdiv n cfg.blockSize))[t / cfg.blockSize]?).map _ = _
    rw [List.getElem?_take, if_pos hlt, List.getElem?_eq_getElem hrow, hmod]
    rfl

theorem rebuild_totals {row : List Int} {promptLen : Nat} {qlen : Int} {info : PrefixInfo} (hb : 0 < cfg.blockSize)
    (h : rebuildPrefixCacheInfoForReq cfg row promptLen qlen = some info) :
    info.numPrefixTokens = ((promptLen : Int) - qlen).toNat ∧
    info.numPrefixBlocks = cdiv info.numPrefixTokens cfg.blockSize := by
  simp only [rebuildPrefixCacheInfoForReq] at h
  split_ifs at h with hq h0
  · obtain rfl := Option.some.inj h
    exact ⟨h0.symm, (Nat.div_eq_of_lt (show 0 + cfg.blockSize - 1 < cfg.blockSize by omega)).symm⟩
  · obtain ⟨slots, -, rfl⟩ := Option.map_eq_some_iff.mp h
    exact ⟨rfl, rfl⟩

variable (cfg batch) in
/-- The prompt without the chunk. -/
def restTokens (id : Id) : Nat :=
  ((computeQLen batch (batch.reqIdToIndex id)).map fun qlen => ((cfg.numPromptTokens id : Int) - qlen).toNat).getD 0

section Collect

variable {p p' : Prefixes} {id : Id} {ids : List Id}

theorem collectPrefix_totals (hb : 0 < cfg.blockSize) (h : collectPrefix cfg batch id p = some p') :
    p'.allPrefixTokens = p.allPrefixTokens + restTokens cfg batch id ∧
    p'.allPrefixBlocks = p.allPrefixBlocks + cdiv (restTokens cfg batch id) cfg.blockSize ∧
    p'.slotMappingBuf.length = p.slotMappingBuf.length ∧ p'.blockIdsBuf.length = p.blockIdsBuf.length := by
  obtain ⟨qlen, hqlen, h⟩ := Option.bind_eq_some_iff.mp h
  obtain ⟨info, hinfo, h⟩ := Option.bind_eq_some_iff.mp h
  obtain ⟨slots, hslots, h⟩ := Option.bind_eq_some_iff.mp h
  obtain ⟨blocks, hblocks, rfl⟩ := Option.map_eq_some_iff.mp h
  obtain ⟨htokens, hcdiv⟩ := rebuild_totals hb hinfo
  have hrest : restTokens cfg batch id = info.numPrefixTokens := by rw [restTokens, hqlen, htokens]; rfl
  rw [hrest, ← hcdiv]
  exact ⟨rfl, rfl, length_assign hslots (by omega), length_assign hblocks (by omega)⟩

theorem foldlM_totals (hb : 0 < cfg.blockSize) (h : ids.foldlM (fun p id => collectPrefix cfg batch id p) p = some p') :
    p'.allPrefixTokens = p.allPrefixTokens + (ids.map (restTokens cfg batch)).sum ∧
    p'.allPrefixBlocks = p.allPrefixBlocks + (ids.map fun id => cdiv (restTokens cfg batch id) cfg.blockSize).sum ∧
    p'.slotMappingBuf.length = p.slotMappingBuf.length ∧ p'.blockIdsBuf.length = p.blockIdsBuf.length := by
  induction ids generalizing p with
  | nil =>
    obtain rfl := Option.some.inj h
    exact ⟨rfl, rfl, rfl, rfl⟩
  | cons id ids ih =>
    obtain ⟨q, hq, h⟩ := Option.bind_eq_some_iff.mp h
    obtain ⟨htokens, hblocks, hslotLen, hblockLen⟩ := collectPrefix_totals hb hq
    obtain ⟨htokens', hblocks', hslotLen', hblockLen'⟩ := ih h
    simp only [List.map_cons, List.sum_cons]
    omega

theorem length_computedSlots : (computedSlots cfg batch id).length = batch.numComputedTokens id := by
  rw [computedSlots, List.length_map, List.length_range]

theorem length_computedBlocks (hb : 0 < cfg.blockSize)
    (hrow : batch.numComputedTokens id ≤ cfg.blockSize * (batch.blockTable (batch.reqIdToIndex id)).length) :
    (computedBlocks cfg batch id).length = cdiv (batch.numComputedTokens id) cfg.blockSize := by
  rw [computedBlocks, List.length_take, Nat.min_eq_left ((cdiv_le_iff hb).mpr hrow)]

/-- A chunk that reaches the end of the prompt leaves just what is computed. -/
theorem collectPrefix_of_reaches (hb : 0 < cfg.blockSize) (hreach : Reaches cfg batch id)
    (hle : batch.numComputedTokens id ≤ cfg.numPromptTokens id) (hmax : cfg.numPromptTokens id ≤ cfg.maxNumTokens)
    (hrow : batch.numComputedTokens id ≤ cfg.blockSize * (batch.blockTable (batch.reqIdToIndex id)).length)
    (hslots : p.allPrefixTokens + batch.numComputedTokens id ≤ p.slotMappingBuf.length)
    (hblocks : p.allPrefixBlocks + cdiv (batch.numComputedTokens id) cfg.blockSize ≤ p.blockIdsBuf.length) :
    ∃ p', collectPrefix cfg batch id p = some p' ∧
      p'.allPrefixTokens = p.allPrefixTokens + batch.numComputedTokens id ∧
      p'.allPrefixBlocks = p.allPrefixBlocks + cdiv (batch.numComputedTokens id) cfg.blockSize ∧
      p'.slotMappingBuf.take p'.allPrefixTokens = p.slotMappingBuf.take p.allPrefixTokens ++ computedSlots cfg batch id ∧
      p'.blockIdsBuf.take p'.allPrefixBlocks = p.blockIdsBuf.take p.allPrefixBlocks ++ computedBlocks cfg batch id := by
  have hinfo : rebuildPrefixCacheInfoForReq cfg (batch.blockTable (batch.reqIdToIndex id)) (cfg.numPromptTokens id)
      ((cfg.numPromptTokens id : Int) - batch.numComputedTokens id) =
      some ⟨_, _, computedBlocks cfg batch id, computedSlots cfg batch id⟩ :=
    rebuild_eq hb (by omega) (by omega) (by omega) hrow
  have hlenS : (computedSlots cfg batch id).length = batch.numComputedTokens id := length_computedSlots
  have hlenB := length_computedBlocks hb hrow
  have hqlen : computeQLen batch (batch.reqIdToIndex id) = _ := hreach
  have hput (xs ys : List Int) (n m k : Nat) (hm : ys.length = m) (hn : n + m ≤ xs.length) :
      (xs.take n ++ ys ++ xs.drop k).take (n + m) = xs.take n ++ ys := by
    apply List.take_left'
    rw [List.length_append, List.length_take]
    omega
  simp only [collectPrefix, hqlen, Option.bind_some, hinfo]
  rw [assign_of_le (by rw [hlenS]) hslots, Option.bind_some, assign_of_le (by rw [hlenB]) hblocks]
  exact ⟨_, rfl, rfl, rfl, hput _ _ _ _ _ hlenS hslots, hput _ _ _ _ _ hlenB hblocks⟩

/-- One request after the other, as long as there is room. -/
theorem foldlM_of_reaches (hb : 0 < cfg.blockSize) (hreach : ∀ id ∈ ids, Reaches cfg batch id)
    (hle : ∀ id ∈ ids, batch.numComputedTokens id ≤ cfg.numPromptTokens id)
    (hmax : ∀ id ∈ ids, cfg.numPromptTokens id ≤ cfg.maxNumTokens)
    (hrow : ∀ id ∈ ids,
      batch.numComputedTokens id ≤ cfg.blockSize * (batch.blockTable (batch.reqIdToIndex id)).length)
    (hslots : p.allPrefixTokens + (ids.map batch.numComputedTokens).sum ≤ p.slotMappingBuf.length)
    (hblocks : p.allPrefixBlocks + (ids.map fun id => cdiv (batch.numComputedTokens id) cfg.blockSize).sum ≤
      p.blockIdsBuf.length) :
    ∃ p', ids.foldlM (fun p id => collectPrefix cfg batch id p) p = some p' ∧
      p'.slotMappingBuf.take p'.allPrefixTokens =
        p.slotMappingBuf.take p.allPrefixTokens ++ ids.flatMap (computedSlots cfg batch) ∧
      p'.blockIdsBuf.take p'.allPrefixBlocks =
        p.blockIdsBuf.take p.allPrefixBlocks ++ ids.flatMap (computedBlocks cfg batch) := by
  induction ids generalizing p with
  | nil => exact ⟨p, rfl, by simp, by simp⟩
  | cons id ids ih =>
    simp only [List.forall_mem_cons] at hreach hle hmax hrow
    simp only [List.map_cons, List.sum_cons] at hslots hblocks
    obtain ⟨q, hq, htokens, hblockCount, hsq, hbq⟩ :=
      collectPrefix_of_reaches hb hreach.1 hle.1 hmax.1 hrow.1 (p := p) (by omega) (by omega)
    obtain ⟨-, -, hlenS, hlenB⟩ := collectPrefix_totals hb hq
    obtain ⟨p', hp', hs, hbl⟩ := ih hreach.2 hle.2 hmax.2 hrow.2 (p := q) (by omega) (by omega)
    rw [List.foldlM_cons, hq]
    refine ⟨p', hp', ?_, ?_⟩
    · rw [hs, hsq, List.flatMap_cons, List.append_assoc]
    · rw [hbl, hbq, List.flatMap_cons, List.append_assoc]

end Collect

variable [DecidableEq Id] (cfg : Config Id) (batch : Batch Id)

def extTokens (reqId : Id) : Nat := (batch.numExternalComputedTokens.get? reqId).getD 0

/-- The loop of `build_sparse_meta` for one scheduled request. -/
def visit (v : Visit Id) (scheduled : Id × Nat) : Option (Visit Id) :=
  let reqId := scheduled.1
  let flag := v.isPrefillFlag.get? reqId
  let isDecode := flag = some false
  let isFirstPrefil := flag = none
  let isPrefill := isFirstPrefil ∨ flag = some true
  let isLastChunk := isPrefill ∧ cfg.numPromptTokens reqId ≤ batch.numComputedTokens reqId + scheduled.2
  if cfg.numPromptTokens reqId < cfg.hashTopkTokens then some v
  else
    let decodeReqIds := if isDecode then v.decodeReqIds ++ [batch.reqIdToIndex reqId] else v.decodeReqIds
    let isPrefillFlag := if isFirstPrefil then v.isPrefillFlag.set reqId true else v.isPrefillFlag
    (if isFirstPrefil ∧ 0 < extTokens batch reqId then collectPrefix cfg batch reqId v.prefixes
      else some v.prefixes).map fun prefixes =>
        ⟨if isLastChunk then isPrefillFlag.set reqId false else isPrefillFlag, decodeReqIds, prefixes⟩

def visitAll (s : State Id) : Option (Visit Id) :=
  batch.numScheduledTokens.items.foldlM (visit cfg batch)
    ⟨s.isPrefillFlag, [], { slotMappingBuf := s.prefixSlotMappingBuf, blockIdsBuf := s.prefixBlockIdsBuf }⟩

def buildSparseMeta (s : State Id) : Option (State Id) :=
  (visitAll cfg batch s).map fun v =>
    { isPrefillFlag := v.isPrefillFlag
      prefixSlotMappingBuf := v.prefixes.slotMappingBuf
      prefixBlockIdsBuf := v.prefixes.blockIdsBuf
      decodeReqIds := v.decodeReqIds
      hasDecode := 0 < v.decodeReqIds.length
      decodeOnly := 0 < v.decodeReqIds.length ∧ v.decodeReqIds.length = batch.numScheduledTokens.items.length
      hasPcHit := 0 < v.prefixes.numPcHit
      prefixSlotMapping :=
        if 0 < v.prefixes.numPcHit then v.prefixes.slotMappingBuf.take v.prefixes.allPrefixTokens else s.prefixSlotMapping
      prefixBlockIds :=
        if 0 < v.prefixes.numPcHit then v.prefixes.blockIdsBuf.take v.prefixes.allPrefixBlocks else s.prefixBlockIds }

def freeCachedRequest (isPrefillFlag : Dict Id Bool) (reqId : Id) : Dict Id Bool := isPrefillFlag.pop reqId

inductive Event (Id : Type*) where
  /-- The finished requests, and those that go on with whether they were preempted. -/
  | updateStates (finishedReqIds : List Id) (reqData : List (Id × Bool))
  | buildSparseMeta (batch : Batch Id)

def step (s : State Id) : Event Id → Option (State Id)
  | .updateStates finishedReqIds reqData =>
    let flag := finishedReqIds.foldl freeCachedRequest s.isPrefillFlag
    some { s with isPrefillFlag := (reqData.filter Prod.snd).foldl (fun flag p => freeCachedRequest flag p.1) flag }
  | .buildSparseMeta batch => buildSparseMeta cfg batch s

/-- The buffers of `init_for_pc`, with anything in them. -/
structure Fresh (s : State Id) : Prop where
  isPrefillFlag : s.isPrefillFlag = Dict.empty
  length_slots : s.prefixSlotMappingBuf.length = cfg.maxNumTokens * cfg.maxBatchSize
  length_blocks : s.prefixBlockIdsBuf.length = cdiv (cfg.maxNumTokens * cfg.maxBatchSize) cfg.blockSize

/-- The request was scheduled before, and neither finished nor preempted since. -/
def seen (reqId : Id) : List (State Id × Event Id) → Bool
  | [] => false
  | (_, .updateStates finishedReqIds reqData) :: tr =>
    !(finishedReqIds.contains reqId || (reqData.filter Prod.snd).any (·.1 == reqId)) && seen reqId tr
  | (_, .buildSparseMeta batch) :: tr => (batch.numScheduledTokens.get? reqId).isSome || seen reqId tr

/-- The requests whose cached tokens the step is to rebuild, in the order of the batch. -/
def firstScheduled (tr : List (State Id × Event Id)) : List Id :=
  (batch.numScheduledTokens.items.map Prod.fst).filter fun reqId =>
    !seen reqId tr && decide (cfg.hashTopkTokens ≤ cfg.numPromptTokens reqId) && decide (0 < extTokens batch reqId)

/-- What the scheduler and the runner promise of a step: there is room for its requests, prompts are no longer
than the model allows, and a first chunk lies in the prompt and has blocks for what is computed. -/
structure Promised (new : List Id) : Prop where
  length_le : new.length ≤ cfg.maxBatchSize
  prompt_le : ∀ id ∈ new, cfg.numPromptTokens id ≤ cfg.maxNumTokens
  chunk : ∀ id ∈ new, ∃ qlen : Nat, computeQLen batch (batch.reqIdToIndex id) = some (qlen : Int) ∧
    batch.numComputedTokens id + qlen ≤ cfg.numPromptTokens id
  row : ∀ id ∈ new, batch.numComputedTokens id ≤ cfg.blockSize * (batch.blockTable (batch.reqIdToIndex id)).length

section Visits

variable {cfg batch} {v v' : Visit Id} {id : Id}

variable (cfg batch) in
/-- The requests that are new to the flags. -/
def newTo (flag : Dict Id Bool) (id : Id) : Bool :=
  (flag.get? id).isNone && decide (cfg.hashTopkTokens ≤ cfg.numPromptTokens id) && decide (0 < extTokens batch id)

theorem newTo_iff {flag : Dict Id Bool} : newTo cfg batch flag id = true ↔
    flag.get? id = none ∧ cfg.hashTopkTokens ≤ cfg.numPromptTokens id ∧ 0 < extTokens batch id := by
  simp [newTo, and_assoc]

variable (cfg batch v) in
theorem visit_prefixes (p : Id × Nat) : (visit cfg batch v p).map Visit.prefixes =
    if newTo cfg batch v.isPrefillFlag p.1 then collectPrefix cfg batch p.1 v.prefixes else some v.prefixes := by
  simp only [visit]
  by_cases hshort : cfg.numPromptTokens p.1 < cfg.hashTopkTokens
  · rw [if_pos hshort, if_neg fun h => absurd (newTo_iff.mp h).2.1 (Nat.not_le.mpr hshort)]
    rfl
  · have hiff : (v.isPrefillFlag.get? p.1 = none ∧ 0 < extTokens batch p.1) ↔
        newTo cfg batch v.isPrefillFlag p.1 = true := by
      rw [newTo_iff]
      have := Nat.not_lt.mp hshort
      tauto
    rw [if_neg hshort, Option.map_map, if_congr hiff rfl rfl]
    exact Option.map_id'

/-- A long prompt is in the flags from its visit on; the other flags stay. -/
theorem visit_flag {p : Id × Nat} (h : visit cfg batch v p = some v') (k : Id) :
    ((v'.isPrefillFlag.get? k).isSome ↔
      (v.isPrefillFlag.get? k).isSome ∨ (k = p.1 ∧ cfg.hashTopkTokens ≤ cfg.numPromptTokens k)) ∧
    (k ≠ p.1 → v'.isPrefillFlag.get? k = v.isPrefillFlag.get? k) := by
  simp only [visit] at h
  by_cases hshort : cfg.numPromptTokens p.1 < cfg.hashTopkTokens
  · rw [if_pos hshort] at h
    obtain rfl := Option.some.inj h
    refine ⟨⟨.inl, ?_⟩, fun _ => rfl⟩
    rintro (hsome | ⟨rfl, hlong⟩)
    · exact hsome
    · exact absurd hlong (Nat.not_le.mpr hshort)
  · rw [if_neg hshort] at h
    obtain ⟨q, -, rfl⟩ := Option.map_eq_some_iff.mp h
    by_cases hk : k = p.1
    · subst k
      refine ⟨⟨fun _ => .inr ⟨rfl, Nat.not_lt.mp hshort⟩, fun _ => ?_⟩, fun hne => absurd rfl hne⟩
      dsimp only
      split_ifs with hlast hnone hnone
      · rw [Dict.get?_set, if_pos rfl, Option.isSome_some]
      · rw [Dict.get?_set, if_pos rfl, Option.isSome_some]
      · rw [Dict.get?_set, if_pos rfl, Option.isSome_some]
      · exact Option.isSome_iff_ne_none.mpr hnone
    · have hget : ∀ (flag : Dict Id Bool) (b : Bool), (flag.set p.1 b).get? k = flag.get? k :=
        fun flag b => Dict.get?_set.trans (if_neg hk)
      constructor
      · dsimp only
        split_ifs <;> simp [hget, hk]
      · intro _
        dsimp only
        split_ifs <;> simp only [hget]

theorem foldlM_visit (flag : Dict Id Bool) {items : List (Id × Nat)} (hnd : (items.map Prod.fst).Nodup)
    (hflag : ∀ p ∈ items, v.isPrefillFlag.get? p.1 = flag.get? p.1) :
    (items.foldlM (visit cfg batch) v).map Visit.prefixes =
      ((items.map Prod.fst).filter (newTo cfg batch flag)).foldlM (fun p id => collectPrefix cfg batch id p) v.prefixes := by
  induction items generalizing v with
  | nil => rfl
  | cons p items ih =>
    rw [List.map_cons, List.nodup_cons] at hnd
    rw [List.forall_mem_cons] at hflag
    have hnew : newTo cfg batch v.isPrefillFlag p.1 = newTo cfg batch flag p.1 := by rw [newTo, newTo, hflag.1]
    have hstep := visit_prefixes cfg batch v p
    rw [hnew] at hstep
    rw [List.foldlM_cons, List.map_cons, List.filter_cons]
    have hrest : ∀ v', visit cfg batch v p = some v' → (items.foldlM (visit cfg batch) v').map Visit.prefixes =
        ((items.map Prod.fst).filter (newTo cfg batch flag)).foldlM (fun p id => collectPrefix cfg batch id p)
          v'.prefixes := by
      intro v' hv'
      apply ih hnd.2
      intro q hq
      have hne : q.1 ≠ p.1 := fun he => hnd.1 (he ▸ List.mem_map_of_mem hq)
      rw [(visit_flag hv' q.1).2 hne, hflag.2 q hq]
    cases hv : visit cfg batch v p with
    | none =>
      rw [hv] at hstep
      split_ifs at hstep ⊢ with hn
      · rw [List.foldlM_cons, ← hstep]
        rfl
      · cases hstep
    | some v' =>
      rw [hv] at hstep
      rw [Option.bind_eq_bind, Option.bind_some, hrest v' hv]
      split_ifs at hstep ⊢ with hn
      · rw [List.foldlM_cons, ← hstep]
        rfl
      · rw [Option.some.inj hstep]

theorem foldlM_flag {items : List (Id × Nat)} (h : items.foldlM (visit cfg batch) v = some v') :
    (v'.isPrefillFlag.get? id).isSome ↔
      (v.isPrefillFlag.get? id).isSome ∨ (id ∈ items.map Prod.fst ∧ cfg.hashTopkTokens ≤ cfg.numPromptTokens id) := by
  induction items generalizing v with
  | nil =>
    obtain rfl := Option.some.inj h
    simp
  | cons p items ih =>
    obtain ⟨w, hw, h⟩ := Option.bind_eq_some_iff.mp h
    rw [ih h, (visit_flag hw id).1, List.map_cons, List.mem_cons]
    tauto

end Visits

section Runs

variable {cfg batch} {s₀ s s' : State Id} {tr : List (State Id × Event Id)}

structure Inv (cfg : Config Id) (tr : List (State Id × Event Id)) (s : State Id) : Prop where
  flag (id : Id) : (s.isPrefillFlag.get? id).isSome ↔ seen id tr = true ∧ cfg.hashTopkTokens ≤ cfg.numPromptTokens id
  length_slots : s.prefixSlotMappingBuf.length = cfg.maxNumTokens * cfg.maxBatchSize
  length_blocks : s.prefixBlockIdsBuf.length = cdiv (cfg.maxNumTokens * cfg.maxBatchSize) cfg.blockSize

theorem Inv.filter_newTo (h : Inv cfg tr s) :
    (batch.numScheduledTokens.items.map Prod.fst).filter (newTo cfg batch s.isPrefillFlag) =
      firstScheduled cfg batch tr := by
  apply List.filter_congr
  intro id _
  rw [Bool.eq_iff_iff, newTo_iff, ← Option.not_isSome_iff_eq_none, h.flag]
  simp only [Bool.and_eq_true, Bool.not_eq_true', decide_eq_true_eq, ← Bool.not_eq_true]
  tauto

variable (batch) in
theorem Inv.prefixes (h : Inv cfg tr s) : (visitAll cfg batch s).map Visit.prefixes =
    (firstScheduled cfg batch tr).foldlM (fun p id => collectPrefix cfg batch id p)
      { slotMappingBuf := s.prefixSlotMappingBuf, blockIdsBuf := s.prefixBlockIdsBuf } := by
  rw [visitAll, foldlM_visit s.isPrefillFlag batch.numScheduledTokens.nodup fun _ _ => rfl, h.filter_newTo]

theorem Inv.step (hb : 0 < cfg.blockSize) (h : Inv cfg tr s) {e : Event Id}
    (hs : GSAOnDevice.step cfg s e = some s') : Inv cfg ((s, e) :: tr) s' := by
  cases e with
  | updateStates finishedReqIds reqData =>
    obtain rfl := Option.some.inj hs
    refine ⟨?_, h.length_slots, h.length_blocks⟩
    intro id
    have hfree : ∀ (flag : Dict Id Bool) (ps : List (Id × Bool)),
        (ps.foldl (fun flag p => freeCachedRequest flag p.1) flag).get? id =
          if id ∈ ps.map Prod.fst then none else flag.get? id := by
      intro flag ps
      rw [← Dict.get?_foldl_pop, List.foldl_map]
      rfl
    have hfinished : (finishedReqIds.foldl freeCachedRequest s.isPrefillFlag).get? id =
        if id ∈ finishedReqIds then none else s.isPrefillFlag.get? id := Dict.get?_foldl_pop _
    have hany : (reqData.filter Prod.snd).any (fun p => p.1 == id) = true ↔
        id ∈ (reqData.filter Prod.snd).map Prod.fst := by
      simp only [List.any_eq_true, List.mem_map, beq_iff_eq]
    have hseen : seen id ((s, .updateStates finishedReqIds reqData) :: tr) = true ↔
        ¬ (id ∈ finishedReqIds ∨ id ∈ (reqData.filter Prod.snd).map Prod.fst) ∧ seen id tr = true := by
      rw [← hany, seen, Bool.and_eq_true, Bool.not_eq_true', ← Bool.not_eq_true, Bool.or_eq_true, List.contains_iff_mem]
    rw [hseen, and_assoc, ← h.flag, hfree, hfinished]
    split_ifs with hpre hfin <;> simp [*]
  | buildSparseMeta batch =>
    obtain ⟨v, hv, rfl⟩ := Option.map_eq_some_iff.mp hs
    have hfold := h.prefixes batch
    rw [hv, Option.map_some] at hfold
    obtain ⟨-, -, hslots, hblocks⟩ := foldlM_totals hb hfold.symm
    refine ⟨?_, hslots.trans h.length_slots, hblocks.trans h.length_blocks⟩
    intro id
    have hkeys : (batch.numScheduledTokens.get? id).isSome ↔ id ∈ batch.numScheduledTokens.items.map Prod.fst := by
      rw [Option.isSome_iff_exists]
      simp only [← Dict.mem_items, List.mem_map, Prod.exists, exists_and_right, exists_eq_right]
    simp only [seen, Bool.or_eq_true]
    rw [foldlM_flag hv, h.flag, hkeys]
    tauto

theorem Inv.trace (hb : 0 < cfg.blockSize) (hf : Fresh cfg s₀)
    (h : Trace (GSAOnDevice.step cfg) (fun _ _ => True) s₀ tr s) : Inv cfg tr s := by
  apply h.invariant (Inv cfg)
  · refine ⟨?_, hf.length_slots, hf.length_blocks⟩
    intro id
    rw [hf.isPrefillFlag, Dict.get?_empty]
    simp [seen]
  · exact fun _ _ _ _ hinv _ hs => hinv.step hb hs

theorem eq_of_sum_le {α : Type*} {f g : α → Nat} {xs : List α} (hle : ∀ x ∈ xs, f x ≤ g x)
    (hsum : (xs.map g).sum ≤ (xs.map f).sum) : ∀ x ∈ xs, g x = f x := by
  induction xs with
  | nil => exact fun x hx => absurd hx List.not_mem_nil
  | cons x xs ih =>
    rw [List.forall_mem_cons] at hle ⊢
    simp only [List.map_cons, List.sum_cons] at hsum
    have hrest : (xs.map f).sum ≤ (xs.map g).sum := List.sum_le_sum hle.2
    exact ⟨by omega, ih hle.2 (by omega)⟩

/-- What the step leaves in the buffers are the computed tokens of the requests. -/
def Collects (cfg : Config Id) (batch : Batch Id) (new : List Id) (p : Prefixes) : Prop :=
  p.slotMappingBuf.take p.allPrefixTokens = new.flatMap (computedSlots cfg batch) ∧
  p.blockIdsBuf.take p.allPrefixBlocks = new.flatMap (computedBlocks cfg batch)

omit [DecidableEq Id] in
theorem Promised.le_restTokens {new : List Id} (hp : Promised cfg batch new) (id : Id) (hid : id ∈ new) :
    batch.numComputedTokens id ≤ restTokens cfg batch id ∧ restTokens cfg batch id ≤ cfg.numPromptTokens id ∧
    (restTokens cfg batch id = batch.numComputedTokens id → Reaches cfg batch id) := by
  obtain ⟨qlen, hqlen, hle⟩ := hp.chunk id hid
  have hrest : restTokens cfg batch id = cfg.numPromptTokens id - qlen := by
    rw [restTokens, hqlen]
    exact Int.toNat_sub' _ _
  refine ⟨by omega, by omega, ?_⟩
  intro heq
  rw [Reaches, hqlen]
  congr 1
  omega

omit [DecidableEq Id] in
theorem sum_computed {new : List Id} (hb : 0 < cfg.blockSize) (hp : Promised cfg batch new) :
    (new.flatMap (computedSlots cfg batch)).length = (new.map batch.numComputedTokens).sum ∧
    (new.flatMap (computedBlocks cfg batch)).length =
      (new.map fun id => cdiv (batch.numComputedTokens id) cfg.blockSize).sum := by
  simp only [List.length_flatMap]
  constructor
  · simp only [length_computedSlots]
  · congr 1
    apply List.map_congr_left
    exact fun id hid => length_computedBlocks hb (hp.row id hid)

omit [DecidableEq Id] in
theorem sum_prompts_le {new : List Id} (hp : Promised cfg batch new) {f : Id → Nat}
    (hf : ∀ id ∈ new, f id ≤ cfg.numPromptTokens id) : (new.map f).sum ≤ cfg.maxNumTokens * cfg.maxBatchSize := by
  have hle : (new.map f).sum ≤ (new.map f).length • cfg.maxNumTokens := by
    apply List.sum_le_card_nsmul
    intro n hn
    obtain ⟨id, hid, rfl⟩ := List.mem_map.mp hn
    exact (hf id hid).trans (hp.prompt_le id hid)
  rw [List.length_map, smul_eq_mul, Nat.mul_comm] at hle
  exact hle.trans (Nat.mul_le_mul_left _ hp.length_le)

/-- In every run: a step collects exactly the cached prefixes when each first chunk reaches the end of its
prompt and the buffer for the blocks has room, and only then. -/
theorem visitAll_collects_iff (hb : 0 < cfg.blockSize) (hf : Fresh cfg s₀)
    (h : Trace (step cfg) (fun _ _ => True) s₀ tr s) (hp : Promised cfg batch (firstScheduled cfg batch tr)) :
    (∃ v, visitAll cfg batch s = some v ∧ Collects cfg batch (firstScheduled cfg batch tr) v.prefixes) ↔
    (∀ id ∈ firstScheduled cfg batch tr, Reaches cfg batch id) ∧
    ((firstScheduled cfg batch tr).map fun id => cdiv (batch.numComputedTokens id) cfg.blockSize).sum ≤
      cdiv (cfg.maxNumTokens * cfg.maxBatchSize) cfg.blockSize := by
  have hinv := Inv.trace hb hf h
  have hfold := hinv.prefixes batch
  obtain ⟨hslotLen, hblockLen⟩ := sum_computed hb hp
  constructor
  · rintro ⟨v, hv, hslots, hblocks⟩
    rw [hv, Option.map_some] at hfold
    obtain ⟨htokens, hcount, hsl, hbl⟩ := foldlM_totals hb hfold.symm
    have hroom := sum_prompts_le hp fun id hid => (hp.le_restTokens id hid).2.1
    have hlenS := congrArg List.length hslots
    have hlenB := congrArg List.length hblocks
    simp only [List.length_take, hsl, hbl, hinv.length_slots, hinv.length_blocks, htokens, hcount, Nat.zero_add]
      at hlenS hlenB
    rw [Nat.min_eq_left hroom, hslotLen] at hlenS
    have heq := eq_of_sum_le (fun id hid => (hp.le_restTokens id hid).1) hlenS.le
    have hcdiv : (firstScheduled cfg batch tr).map (fun id => cdiv (restTokens cfg batch id) cfg.blockSize) =
        (firstScheduled cfg batch tr).map fun id => cdiv (batch.numComputedTokens id) cfg.blockSize :=
      List.map_congr_left fun id hid => by rw [heq id hid]
    rw [hcdiv, hblockLen] at hlenB
    exact ⟨fun id hid => (hp.le_restTokens id hid).2.2 (heq id hid), by omega⟩
  · rintro ⟨hreach, hroom⟩
    have hle : ∀ id ∈ firstScheduled cfg batch tr, batch.numComputedTokens id ≤ cfg.numPromptTokens id := by
      intro id hid
      have := hp.le_restTokens id hid
      omega
    obtain ⟨p, hp', hs, hbl⟩ := foldlM_of_reaches hb hreach hle hp.prompt_le hp.row
      (p := { slotMappingBuf := s.prefixSlotMappingBuf, blockIdsBuf := s.prefixBlockIdsBuf })
      (by simpa only [hinv.length_slots, Nat.zero_add] using sum_prompts_le hp hle)
      (by simpa only [hinv.length_blocks, Nat.zero_add] using hroom)
    rw [hp'] at hfold
    obtain ⟨v, hv, rfl⟩ := Option.map_eq_some_iff.mp hfold
    exact ⟨v, hv, hs, hbl⟩

/-- A prompt of eight tokens in four blocks, of which four tokens are cached. -/
def onePrompt : Config Nat :=
  { numPromptTokens := fun _ => 8, hashTopkTokens := 4, blockSize := 2, maxNumTokens := 8, maxBatchSize := 1 }

/-- The first step with the prompt, with a chunk of so many tokens. -/
def firstStep (qlen : Nat) : Batch Nat :=
  { numScheduledTokens := Dict.empty.set 0 qlen, numComputedTokens := fun _ => 4, reqIdToIndex := fun _ => 0,
    queryStartLoc := [0, qlen], blockTable := fun _ => [5, 6, 7, 8], numExternalComputedTokens := Dict.empty.set 0 4 }

def start : State Nat :=
  { prefixSlotMappingBuf := List.replicate 8 0, prefixBlockIdsBuf := List.replicate 4 0 }

theorem fresh_start : Fresh onePrompt start := ⟨rfl, rfl, rfl⟩

theorem promised_firstStep {qlen : Nat} (hle : qlen ≤ 4) :
    Promised onePrompt (firstStep qlen) (firstScheduled onePrompt (firstStep qlen) []) := by
  have hnew : firstScheduled onePrompt (firstStep qlen) [] = [0] := rfl
  rw [hnew]
  constructor
  · exact Nat.le_refl 1
  · exact fun _ _ => Nat.le_refl 8
  · exact fun _ _ => ⟨qlen, by simp [computeQLen, firstStep], by simp [firstStep, onePrompt]; omega⟩
  · exact fun _ _ => show 4 ≤ 2 * 4 by decide

theorem visitAll_collects_lastChunk : ∃ v, visitAll onePrompt (firstStep 4) start = some v ∧
    Collects onePrompt (firstStep 4) [0] v.prefixes ∧
    v.prefixes.slotMappingBuf.take v.prefixes.allPrefixTokens = [10, 11, 12, 13] := by
  obtain ⟨v, hv, hcollects⟩ := (visitAll_collects_iff Nat.zero_lt_two fresh_start Trace.start
    (promised_firstStep (Nat.le_refl 4))).mpr ⟨fun _ _ => rfl, by decide⟩
  exact ⟨v, hv, hcollects, hcollects.1⟩

/-- A chunk of two tokens ends inside the prompt, and six tokens are taken for the four that are cached. -/
theorem not_collects_innerChunk : Promised onePrompt (firstStep 2) [0] ∧
    ¬ ∃ v, visitAll onePrompt (firstStep 2) start = some v ∧ Collects onePrompt (firstStep 2) [0] v.prefixes := by
  refine ⟨promised_firstStep (by decide), ?_⟩
  rintro ⟨v, hv, hslots, -⟩
  have hsix : (visitAll onePrompt (firstStep 2) start).map
      (fun v => v.prefixes.slotMappingBuf.take v.prefixes.allPrefixTokens) = some [10, 11, 12, 13, 14, 15] := by decide
  rw [hv, Option.map_some, hslots] at hsix
  exact absurd hsix (by decide)

end Runs

end UnifiedCache.Sparse.GSAOnDevice
