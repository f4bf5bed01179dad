import UnifiedCache.Lib.Collections

/-! What the direct connector tells its workers to load and to dump: the prefix lookup of a
waiting request and the dispatch of each scheduler output. -/

namespace UnifiedCache.Connector

variable {Token BlockId ReqId : Type*}

structure RequestMeta (BlockId : Type*) where
  ucmBlockIds : List BlockId
  hbmHitBlockNum : Nat
  totalHitBlockNum : Nat
  numTokenIds : Nat
  vllmBlockIds : List Nat
  tokenProcessed : Nat

structure RequestDispatchMeta (BlockId : Type*) where
  loadBlockIds : List BlockId × List Nat
  dumpBlockIds : List BlockId × List Nat

structure Config (Token BlockId : Type*) where
  blockSize : Nat
  blockSize_pos : 0 < blockSize
  requestHasher : BlockId × List Token → BlockId
  seed : BlockId

structure Request (Token ReqId : Type*) where
  requestId : ReqId
  allTokenIds : List Token

/-- `none` is a `RuntimeError`. -/
abbrev Lookup (BlockId : Type*) :=
  (blockIds : List BlockId) → Option { results : List Bool // results.length = blockIds.length }

section GenerateHash

variable (config : Config Token BlockId)

def hashBlocks (tokenIds : List Token) : BlockId → List Nat → List BlockId
  | _, [] => []
  | parent, start :: starts =>
    let blockTokenIds := slice tokenIds start (start + config.blockSize)
    if blockTokenIds.length < config.blockSize then []
    else
      let hashValue := config.requestHasher (parent, blockTokenIds)
      hashValue :: hashBlocks tokenIds hashValue starts

/-- The starts are `range(0, len(token_ids), block_size)`. -/
def generateHash (tokenIds : List Token) (parent : BlockId) : List BlockId :=
  hashBlocks config tokenIds parent
    ((List.range ((tokenIds.length + config.blockSize - 1) / config.blockSize)).map (· * config.blockSize))

theorem length_hashBlocks (tokenIds : List Token) (parent : BlockId) (first count : Nat) :
    (hashBlocks config tokenIds parent ((List.range' first count).map (· * config.blockSize))).length =
      min count (tokenIds.length / config.blockSize - first) := by
  induction count generalizing first parent with
  | zero => simp [hashBlocks]
  | succ count ih =>
    have hfull : config.blockSize ≤ tokenIds.length - first * config.blockSize ↔
        first < tokenIds.length / config.blockSize := by
      have hdiv := Nat.le_div_iff_mul_le config.blockSize_pos (x := first + 1) (y := tokenIds.length)
      have hpos := config.blockSize_pos
      rw [Nat.add_one_mul] at hdiv
      omega
    have hlen : (slice tokenIds (first * config.blockSize) (first * config.blockSize + config.blockSize)).length =
        min config.blockSize (tokenIds.length - first * config.blockSize) := by
      rw [slice, List.length_take, List.length_drop, Nat.add_sub_cancel_left]
    rw [List.range'_succ, List.map_cons, hashBlocks]
    dsimp only
    split_ifs with hshort
    · have hnot : ¬ first < tokenIds.length / config.blockSize := by
        rw [← hfull]
        omega
      simp only [List.length_nil]
      omega
    · have hless : first < tokenIds.length / config.blockSize := by
        rw [← hfull]
        omega
      rw [List.length_cons, ih]
      omega

theorem length_generateHash (tokenIds : List Token) (parent : BlockId) :
    (generateHash config tokenIds parent).length = tokenIds.length / config.blockSize := by
  have hle : tokenIds.length / config.blockSize ≤ (tokenIds.length + config.blockSize - 1) / config.blockSize := by
    have hpos := config.blockSize_pos
    exact Nat.div_le_div_right (by omega)
  rw [generateHash, List.range_eq_range', length_hashBlocks, Nat.sub_zero]
  exact Nat.min_eq_right hle

theorem take_hashBlocks (tokenIds : List Token) (parent : BlockId) (starts : List Nat) (n : Nat) :
    (hashBlocks config tokenIds parent starts).take n = hashBlocks config tokenIds parent (starts.take n) := by
  induction starts generalizing parent n with
  | nil => rw [List.take_nil, hashBlocks, List.take_nil]
  | cons start starts ih =>
    cases n with
    | zero => rfl
    | succ n =>
      rw [List.take_succ_cons, hashBlocks, hashBlocks]
      dsimp only
      split_ifs
      · rfl
      · rw [List.take_succ_cons, ih]

/-- Only the tokens of the blocks count. -/
theorem hashBlocks_take (tokenIds : List Token) (parent : BlockId) {starts : List Nat} {n : Nat}
    (h : ∀ start ∈ starts, start + config.blockSize ≤ n) :
    hashBlocks config (tokenIds.take n) parent starts = hashBlocks config tokenIds parent starts := by
  induction starts generalizing parent with
  | nil => rw [hashBlocks, hashBlocks]
  | cons start starts ih =>
    obtain ⟨hstart, hstarts⟩ := List.forall_mem_cons.mp h
    have hslice : slice (tokenIds.take n) start (start + config.blockSize) =
        slice tokenIds start (start + config.blockSize) := by
      rw [slice, slice, List.drop_take, List.take_take, Nat.min_eq_left (by omega)]
    rw [hashBlocks, hashBlocks, hslice]
    dsimp only
    rw [ih _ hstarts]

/-- The first blocks have the hashes that they have in the longer list. -/
theorem generateHash_take (tokenIds : List Token) (parent : BlockId) {count : Nat}
    (h : count ≤ tokenIds.length / config.blockSize) :
    generateHash config (tokenIds.take (count * config.blockSize)) parent =
      (generateHash config tokenIds parent).take count := by
  have hpos := config.blockSize_pos
  have hle : count * config.blockSize ≤ tokenIds.length := (Nat.le_div_iff_mul_le hpos).mp h
  have hcount : (count * config.blockSize + config.blockSize - 1) / config.blockSize = count := by
    rw [Nat.add_sub_assoc hpos, Nat.mul_comm, Nat.mul_add_div hpos, Nat.div_eq_of_lt (Nat.sub_lt hpos Nat.one_pos),
      Nat.add_zero]
  have hmore : count ≤ (tokenIds.length + config.blockSize - 1) / config.blockSize :=
    h.trans (Nat.div_le_div_right (by omega))
  rw [generateHash, generateHash, take_hashBlocks, List.length_take, Nat.min_eq_left hle, hcount, ← List.map_take,
    List.take_range, Nat.min_eq_left hmore]
  apply hashBlocks_take
  intro start hstart
  obtain ⟨i, hi, rfl⟩ := List.mem_map.mp hstart
  rw [← Nat.add_one_mul]
  exact Nat.mul_le_mul_right _ (List.mem_range.mp hi)

end GenerateHash

section Matched

variable [DecidableEq ReqId] (config : Config Token BlockId) (requestsMeta : Dict ReqId (RequestMeta BlockId))
  (request : Request Token ReqId) (numComputedTokens : Nat) (lookup : Lookup BlockId)

def externalHitBlocks (externalBlockIds : List BlockId) : Nat :=
  let lookupResults := match lookup externalBlockIds with
    | some results => results.val
    | none => []
  (lookupResults.takeWhile (· = true)).length

/-- `none` is the failed assertion. -/
def getNumNewMatchedTokens : Option (Int × Dict ReqId (RequestMeta BlockId)) :=
  if numComputedTokens % config.blockSize ≠ 0 then none
  else
    let hbmHitBlockNum := numComputedTokens / config.blockSize
    let ucmBlockIds := generateHash config request.allTokenIds config.seed
    let externalBlockIds := ucmBlockIds.drop hbmHitBlockNum
    if externalBlockIds.isEmpty then some (0, requestsMeta)
    else
      let externalHitBlocks := externalHitBlocks lookup externalBlockIds
      let totalHitBlockNum := hbmHitBlockNum + externalHitBlocks
      let externalHitTokens : Int := externalHitBlocks * config.blockSize
      let numTotalHitTokens := totalHitBlockNum * config.blockSize
      let externalHitTokens :=
        if numTotalHitTokens = request.allTokenIds.length then externalHitTokens - 1 else externalHitTokens
      some (externalHitTokens, requestsMeta.set request.requestId
        { ucmBlockIds := ucmBlockIds
          hbmHitBlockNum := hbmHitBlockNum
          totalHitBlockNum := totalHitBlockNum
          numTokenIds := request.allTokenIds.length
          vllmBlockIds := []
          tokenProcessed := numTotalHitTokens })

/-- The data of a request whose match looks blocks up. -/
def freshMeta : RequestMeta BlockId :=
  let hbmHitBlockNum := numComputedTokens / config.blockSize
  let ucmBlockIds := generateHash config request.allTokenIds config.seed
  let totalHitBlockNum := hbmHitBlockNum + externalHitBlocks lookup (ucmBlockIds.drop hbmHitBlockNum)
  { ucmBlockIds := ucmBlockIds
    hbmHitBlockNum := hbmHitBlockNum
    totalHitBlockNum := totalHitBlockNum
    numTokenIds := request.allTokenIds.length
    vllmBlockIds := []
    tokenProcessed := totalHitBlockNum * config.blockSize }

variable {config requestsMeta request numComputedTokens lookup}

theorem getNumNewMatchedTokens_cases {v : Int} {requestsMeta' : Dict ReqId (RequestMeta BlockId)}
    (h : getNumNewMatchedTokens config requestsMeta request numComputedTokens lookup = some (v, requestsMeta')) :
    numComputedTokens % config.blockSize = 0 ∧
      (request.allTokenIds.length / config.blockSize ≤ numComputedTokens / config.blockSize ∧ v = 0 ∧
          requestsMeta' = requestsMeta ∨
        numComputedTokens / config.blockSize < request.allTokenIds.length / config.blockSize ∧
          v = (externalHitBlocks lookup ((generateHash config request.allTokenIds config.seed).drop
              (numComputedTokens / config.blockSize)) * config.blockSize -
            if (freshMeta config request numComputedTokens lookup).tokenProcessed = request.allTokenIds.length
            then 1 else 0 : Int) ∧
          requestsMeta' = requestsMeta.set request.requestId (freshMeta config request numComputedTokens lookup)) := by
  unfold getNumNewMatchedTokens at h
  dsimp only at h
  split_ifs at h with hmod hempty hall
  · obtain ⟨rfl, rfl⟩ := Prod.mk.inj (Option.some.inj h)
    rw [List.isEmpty_iff, List.drop_eq_nil_iff, length_generateHash] at hempty
    exact ⟨not_not.mp hmod, Or.inl ⟨hempty, rfl, rfl⟩⟩
  all_goals
    obtain ⟨rfl, rfl⟩ := Prod.mk.inj (Option.some.inj h)
    rw [List.isEmpty_iff, List.drop_eq_nil_iff, length_generateHash, not_le] at hempty
    refine ⟨not_not.mp hmod, Or.inr ⟨hempty, ?_, rfl⟩⟩
    simp [freshMeta, hall]

end Matched

structure NewRequest (ReqId : Type*) where
  reqId : ReqId
  blockIds : List Nat

/-- The older scheduler output, a list of requests, has no `none` here. -/
structure CachedRequest (ReqId : Type*) where
  reqId : ReqId
  newBlockIds : Option (List Nat)
  resumedFromPreemption : Bool

structure SchedulerOutput (ReqId : Type*) where
  scheduledNewReqs : List (NewRequest ReqId)
  scheduledCachedReqs : List (CachedRequest ReqId)
  numScheduledTokens : ReqId → Nat
  finishedReqIds : List ReqId

def generateDispatchMeta (blockSize : Nat) (reqMeta : RequestMeta BlockId) (newTokens : Nat)
    (vllmBlockIds : List Nat) (needLoad : Bool) : RequestDispatchMeta BlockId × RequestMeta BlockId :=
  let hbmHitBlockNum := reqMeta.hbmHitBlockNum
  let totalHitBlockNum := reqMeta.totalHitBlockNum
  let ucmBlockIds := reqMeta.ucmBlockIds
  let reqMeta := { reqMeta with vllmBlockIds := reqMeta.vllmBlockIds ++ vllmBlockIds }
  let load := if needLoad then
      (slice ucmBlockIds hbmHitBlockNum totalHitBlockNum, slice vllmBlockIds hbmHitBlockNum totalHitBlockNum)
    else ([], [])
  if reqMeta.tokenProcessed < reqMeta.numTokenIds then
    let startIdx := reqMeta.tokenProcessed / blockSize
    let endIdx := (reqMeta.tokenProcessed + newTokens) / blockSize
    (⟨load, slice ucmBlockIds startIdx endIdx, slice reqMeta.vllmBlockIds startIdx endIdx⟩,
      { reqMeta with tokenProcessed := reqMeta.tokenProcessed + newTokens })
  else (⟨load, [], []⟩, reqMeta)

section GenerateDispatchMeta

variable (blockSize : Nat) (reqMeta : RequestMeta BlockId) (newTokens : Nat) (vllmBlockIds : List Nat)
  (needLoad : Bool)

theorem loadBlockIds_generateDispatchMeta :
    (generateDispatchMeta blockSize reqMeta newTokens vllmBlockIds needLoad).1.loadBlockIds =
      if needLoad then
        (slice reqMeta.ucmBlockIds reqMeta.hbmHitBlockNum reqMeta.totalHitBlockNum,
          slice vllmBlockIds reqMeta.hbmHitBlockNum reqMeta.totalHitBlockNum)
      else ([], []) := by
  unfold generateDispatchMeta
  dsimp only
  split <;> rfl

theorem dumpBlockIds_generateDispatchMeta :
    (generateDispatchMeta blockSize reqMeta newTokens vllmBlockIds needLoad).1.dumpBlockIds =
      if reqMeta.tokenProcessed < reqMeta.numTokenIds then
        (slice reqMeta.ucmBlockIds (reqMeta.tokenProcessed / blockSize)
            ((reqMeta.tokenProcessed + newTokens) / blockSize),
          slice (reqMeta.vllmBlockIds ++ vllmBlockIds) (reqMeta.tokenProcessed / blockSize)
            ((reqMeta.tokenProcessed + newTokens) / blockSize))
      else ([], []) := by
  unfold generateDispatchMeta
  dsimp only
  split <;> rfl

/-- The block ids are kept, and the tokens counted up to the first step that has them all. -/
theorem generateDispatchMeta_snd :
    (generateDispatchMeta blockSize reqMeta newTokens vllmBlockIds needLoad).2 =
      { reqMeta with
        vllmBlockIds := reqMeta.vllmBlockIds ++ vllmBlockIds
        tokenProcessed :=
          if reqMeta.tokenProcessed < reqMeta.numTokenIds then reqMeta.tokenProcessed + newTokens
          else reqMeta.tokenProcessed } := by
  unfold generateDispatchMeta
  dsimp only
  split <;> rfl

end GenerateDispatchMeta

section Build

variable [DecidableEq ReqId] (blockSize : Nat) (out : SchedulerOutput ReqId)

abbrev Built (BlockId ReqId : Type*) :=
  Dict ReqId (RequestDispatchMeta BlockId) × Dict ReqId (RequestMeta BlockId)

def dispatchRequest (built : Built BlockId ReqId) (reqId : ReqId) (vllmBlockIds : List Nat) (needLoad : Bool) :
    Built BlockId ReqId :=
  match built.2.get? reqId with
  | none => built
  | some reqMeta =>
    let dispatched :=
      generateDispatchMeta blockSize reqMeta (out.numScheduledTokens reqId) vllmBlockIds needLoad
    (built.1.set reqId dispatched.1, built.2.set reqId dispatched.2)

def buildConnectorMeta (requestsMeta : Dict ReqId (RequestMeta BlockId)) : Built BlockId ReqId :=
  let built := out.scheduledNewReqs.foldl (fun built request =>
    dispatchRequest blockSize out built request.reqId request.blockIds true) (Dict.empty, requestsMeta)
  let built := out.scheduledCachedReqs.foldl (fun built request =>
    dispatchRequest blockSize out built request.reqId (request.newBlockIds.getD [])
      request.resumedFromPreemption) built
  (built.1, out.finishedReqIds.foldl Dict.pop built.2)

end Build

end UnifiedCache.Connector
