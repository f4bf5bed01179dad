import UnifiedCache.Connector.Worker

/-! The ids that the sparse attention methods GSA and KVStar give to the full blocks of a prompt,
beside the ids that the direct connector stores them under. -/

namespace UnifiedCache.Sparse

open Connector

/-- The Python values that are hashed or kept as block hashes. -/
inductive PyValue where
  | bytes (data : List UInt8)
  | str (text : String)
  | int (value : Int)
  | tuple (items : List PyValue)

/-- `hashlib.md5(·).digest()`, `pickle.dumps` with the highest protocol, and `str`. -/
structure Library where
  md5 : List UInt8 → List UInt8
  dumps : PyValue → List UInt8
  str : PyValue → String

structure VllmConfig where
  model : String
  dtype : String
  useMla : Bool
  isDeepseekMla : Bool
  tensorParallelSize : Nat
  worldSize : Nat
  rank : Nat
  blockSize : Nat
  blockSize_pos : 0 < blockSize

/-- `f"{model}:{size}:{dtype}:{rank}".encode("utf-8")`. -/
def encodeMeta (model : String) (size : Nat) (dtype : String) (rank : Nat) : List UInt8 :=
  (model ++ ":" ++ toString size ++ ":" ++ dtype ++ ":" ++ toString rank).toUTF8.toList

structure RequestHasher where
  metaBytes : List UInt8

namespace RequestHasher

def init (c : VllmConfig) (rankId : Nat) : RequestHasher where
  metaBytes := encodeMeta c.model c.tensorParallelSize c.dtype rankId

def call (hasher : RequestHasher) (lib : Library) (inputData : PyValue) : List UInt8 :=
  let inputBytes := match inputData with
    | .bytes data => data
    | inputData => lib.dumps inputData
  lib.md5 (hasher.metaBytes ++ inputBytes)

/-- The hash of `(parent_block_hash_value, block_token_ids_tuple)`. -/
def callBlock (hasher : RequestHasher) (lib : Library) (parent : PyValue) (blockTokenIds : List Int) : List UInt8 :=
  hasher.call lib (.tuple [parent, .tuple (blockTokenIds.map .int)])

end RequestHasher

/-- `range(0, num_tokens, block_size)`. -/
def blockStarts (numTokens blockSize : Nat) : List Nat :=
  (List.range ((numTokens + blockSize - 1) / blockSize)).map (· * blockSize)

/-- `int.from_bytes` of the digest, its first byte the highest. -/
def computeParentBlockHash (lib : Library) (model : String) (worldSize : Nat) (dtype : String) (seedRank : Nat) :
    PyValue :=
  let hSeed := lib.md5 (encodeMeta model worldSize dtype seedRank ++ "UCM_HASH_SEED".toUTF8.toList)
  .int (hSeed.foldl (fun value byte => value * 256 + byte.toNat) 0)

section StoredIds

variable (lib : Library) (c : VllmConfig)

/-- The scheduler of the direct connector. -/
def schedulerConfig : Config Int (List UInt8) where
  blockSize := c.blockSize
  blockSize_pos := c.blockSize_pos
  requestHasher := fun (parent, blockTokenIds) =>
    (RequestHasher.init c 0).callBlock lib (.bytes parent) blockTokenIds
  seed := (RequestHasher.init c 0).call lib (.str "UCM_HASH_SEED")

/-- What a worker learns from the tensors that it registers. -/
structure KvCaches where
  isTuple : Bool
  numLayers : Nat
  blockStride : UInt64
  ropeBlockStride : UInt64
  kBasePtrs : Nat → UInt64
  vBasePtrs : Nat → UInt64

/-- The worker of the direct connector. An MLA model whose layers are tuples is taken as DSA. -/
def workerConfig (caches : KvCaches) : WorkerConfig (List UInt8) where
  kind := if c.isDeepseekMla then if caches.isTuple then .dsa else .mla else .keyValue
  tpRank := c.rank
  numLayers := caches.numLayers
  requestHasher := fun ucmBlockId => (RequestHasher.init c c.rank).call lib (.bytes ucmBlockId)
  blockStride := caches.blockStride
  ropeBlockStride := caches.ropeBlockStride
  kBasePtrs := caches.kBasePtrs
  vBasePtrs := caches.vBasePtrs

/-- The ids of the full blocks of a prompt in the store, for the rank of the configuration. -/
def storedIds (caches : KvCaches) (promptTokenIds : List Int) : List (List UInt8) :=
  let ucmBlockIds := generateHash (schedulerConfig lib c) promptTokenIds (schedulerConfig lib c).seed
  let worker := workerConfig lib c caches
  if worker.tpRank ≠ 0 ∧ ¬ worker.shared then ucmBlockIds.map worker.requestHasher else ucmBlockIds

variable {lib c} {caches : KvCaches} {promptTokenIds : List Int} {vllmBlockIds : List Nat}
  {other : List (List UInt8) × List Nat}

theorem length_storedIds : (storedIds lib c caches promptTokenIds).length = promptTokenIds.length / c.blockSize := by
  have hlength := length_generateHash (schedulerConfig lib c) promptTokenIds (schedulerConfig lib c).seed
  rw [storedIds]
  split_ifs
  · rw [List.length_map]
    exact hlength
  · exact hlength

theorem storedIds_eq_nil : storedIds lib c caches promptTokenIds = [] ↔ promptTokenIds.length < c.blockSize := by
  rw [← List.length_eq_zero_iff, length_storedIds, Nat.div_eq_zero_iff]
  have hpos := c.blockSize_pos
  omega

/-- A worker loads the blocks of a prompt under the stored ids. -/
theorem rehashLoad_storedIds :
    ((workerConfig lib c caches).rehashLoad
      ⟨(generateHash (schedulerConfig lib c) promptTokenIds (schedulerConfig lib c).seed, vllmBlockIds), other⟩).loadBlockIds.1 =
      storedIds lib c caches promptTokenIds := by
  rw [WorkerConfig.rehashLoad, storedIds]
  split_ifs <;> rfl

/-- It dumps them under the stored ids too, where it dumps at all. -/
theorem rehashDump_storedIds (h : c.rank = 0 ∨ (workerConfig lib c caches).shared = false) :
    ((workerConfig lib c caches).rehashDump
      ⟨other, (generateHash (schedulerConfig lib c) promptTokenIds (schedulerConfig lib c).seed, vllmBlockIds)⟩).dumpBlockIds.1 =
      storedIds lib c caches promptTokenIds := by
  have hrank : (workerConfig lib c caches).tpRank = c.rank := rfl
  rw [WorkerConfig.rehashDump, storedIds]
  rw [hrank]
  obtain hzero | hshared := h
  · rw [if_neg (not_not.mpr hzero), if_neg fun hand => hand.1 hzero]
  · simp only [hshared, Bool.false_eq_true, not_false_eq_true, and_true]
    split_ifs <;> rfl

end StoredIds

structure GSAReqStat where
  vllmConfig : VllmConfig
  blockSize : Nat
  blockHashes : Option (List PyValue)
  rank : Nat
  useMla : Bool
  requestHasher : RequestHasher

namespace GSAReqStat

def init (c : VllmConfig) : GSAReqStat where
  vllmConfig := c
  blockSize := c.blockSize
  blockHashes := none
  rank := c.rank
  useMla := c.useMla
  requestHasher := RequestHasher.init c 0

variable (lib : Library) (s : GSAReqStat) (tokenIds : List Int)

/-- The loop over the blocks. It chains the hashes, but `block_hashes` stays as it is. -/
def hashBlocks (blockHashes : List PyValue) : PyValue → List Nat → List PyValue
  | _, [] => blockHashes
  | parent, start :: starts =>
    let blockTokenIds := slice tokenIds start (start + s.blockSize)
    if blockTokenIds.length < s.blockSize then blockHashes
    else
      let hashValue := s.requestHasher.callBlock lib parent blockTokenIds
      hashBlocks blockHashes (.bytes hashValue) starts

def setBlockHashes : GSAReqStat :=
  match s.blockHashes with
  | some _ => s
  | none =>
    let parentBlockHashValue := computeParentBlockHash lib s.vllmConfig.model s.vllmConfig.worldSize s.vllmConfig.dtype 0
    let blockHashes := s.hashBlocks lib tokenIds [] parentBlockHashValue (blockStarts tokenIds.length s.blockSize)
    let newRequestHasher := RequestHasher.init s.vllmConfig s.rank
    let blockHashes := if s.rank ≠ 0 ∧ ¬ s.useMla
      then blockHashes.map fun ucmBlockId => .str (lib.str (.bytes (newRequestHasher.call lib ucmBlockId)))
      else blockHashes
    { s with blockHashes := some blockHashes }

/-- The calls on one request, each with the prompt that it is given. -/
def run (calls : List (List Int)) : GSAReqStat := calls.foldl (setBlockHashes lib) s

variable {lib s tokenIds}

theorem hashBlocks_eq (blockHashes : List PyValue) (parent : PyValue) (starts : List Nat) :
    s.hashBlocks lib tokenIds blockHashes parent starts = blockHashes := by
  induction starts generalizing parent with
  | nil => rfl
  | cons start starts ih =>
    rw [hashBlocks]
    dsimp only
    split_ifs
    · rfl
    · exact ih _

/-- Every call leaves the list empty. -/
theorem setBlockHashes_blockHashes (h : s.blockHashes = none ∨ s.blockHashes = some []) :
    (s.setBlockHashes lib tokenIds).blockHashes = some [] := by
  rw [setBlockHashes]
  split
  next blockHashes hsome =>
    rw [hsome] at h ⊢
    simpa using h
  next =>
    simp only [hashBlocks_eq, List.map_nil, ite_self]

theorem run_blockHashes {calls : List (List Int)} (h : s.blockHashes = none ∨ s.blockHashes = some [])
    (hcalls : calls ≠ []) : (s.run lib calls).blockHashes = some [] := by
  induction calls generalizing s with
  | nil => exact absurd rfl hcalls
  | cons tokenIds calls ih =>
    have hcall : (s.setBlockHashes lib tokenIds).blockHashes = some [] := setBlockHashes_blockHashes h
    rw [run, List.foldl_cons]
    cases calls with
    | nil => exact hcall
    | cons next calls => exact ih (.inr hcall) (List.cons_ne_nil next calls)

end GSAReqStat

/-- The part of KVStar that hashes blocks. A hash is found by the request and by the rank. -/
structure KVStarMultiStep where
  vllmConfig : VllmConfig
  blockSize : Nat
  blockHashes : Dict Int (Dict Nat (List PyValue))
  rank : Nat
  isMla : Bool
  requestHasher : RequestHasher

namespace KVStarMultiStep

def init (c : VllmConfig) : KVStarMultiStep where
  vllmConfig := c
  blockSize := c.blockSize
  blockHashes := Dict.empty
  rank := c.rank
  isMla := c.isDeepseekMla
  requestHasher := RequestHasher.init c 0

variable (lib : Library) (s : KVStarMultiStep) (reqId : Int) (tokenIds : List Int)

/-- The loop over the blocks. -/
def hashBlocks (blockHashes : List PyValue) : PyValue → List Nat → List PyValue
  | _, [] => blockHashes
  | parent, start :: starts =>
    let blockTokenIds := slice tokenIds start (start + s.blockSize)
    if blockTokenIds.length < s.blockSize then blockHashes
    else
      let hashValue := s.requestHasher.callBlock lib parent blockTokenIds
      hashBlocks (blockHashes ++ [.str (lib.str (.bytes hashValue))]) (.bytes hashValue) starts

/-- The list of a request that has none. -/
def newBlockHashes : List PyValue :=
  let parentBlockHashValue := computeParentBlockHash lib s.vllmConfig.model s.vllmConfig.worldSize s.vllmConfig.dtype 0
  let blockHashes := s.hashBlocks lib tokenIds [] parentBlockHashValue (blockStarts tokenIds.length s.blockSize)
  let newRequestHasher := RequestHasher.init s.vllmConfig s.rank
  if s.rank ≠ 0 ∧ ¬ s.isMla
    then blockHashes.map fun ucmBlockId => .str (lib.str (.bytes (newRequestHasher.call lib ucmBlockId)))
    else blockHashes

def setBlockHashes : KVStarMultiStep :=
  let ranks := (s.blockHashes.get? reqId).getD Dict.empty
  match ranks.get? s.rank with
  | some _ => { s with blockHashes := s.blockHashes.set reqId ranks }
  | none => { s with blockHashes := s.blockHashes.set reqId (ranks.set s.rank (s.newBlockHashes lib tokenIds)) }

/-- `block_hashes[req_id][rank]`. -/
def hashesOf : Option (List PyValue) := (s.blockHashes.get? reqId).bind (·.get? s.rank)

/-- The calls of a run, each for a request and the prompt that it has then. -/
def run (calls : List (Int × List Int)) : KVStarMultiStep :=
  calls.foldl (fun s call => s.setBlockHashes lib call.1 call.2) s

/-- The prompt of the first of some calls for a request. -/
def firstPrompt (calls : List (Int × List Int)) : Option (List Int) :=
  (calls.find? fun call => call.1 = reqId).map Prod.snd

/-- The chain of hashes that KVStar follows: that of the connector, from a seed of its own. -/
def chainConfig (c : VllmConfig) : Config Int PyValue where
  blockSize := c.blockSize
  blockSize_pos := c.blockSize_pos
  requestHasher := fun (parent, blockTokenIds) =>
    .bytes ((RequestHasher.init c 0).callBlock lib parent blockTokenIds)
  seed := computeParentBlockHash lib c.model c.worldSize c.dtype 0

variable {lib s reqId tokenIds} {c : VllmConfig} {calls : List (Int × List Int)}

theorem hashBlocks_eq (blockHashes : List PyValue) (parent : PyValue) (starts : List Nat) :
    (init c).hashBlocks lib tokenIds blockHashes parent starts =
      blockHashes ++ (Connector.hashBlocks (chainConfig lib c) tokenIds parent starts).map fun v => .str (lib.str v) := by
  induction starts generalizing blockHashes parent with
  | nil => rw [hashBlocks, Connector.hashBlocks, List.map_nil, List.append_nil]
  | cons start starts ih =>
    have hsize : (init c).blockSize = (chainConfig lib c).blockSize := rfl
    rw [hashBlocks, Connector.hashBlocks, hsize]
    dsimp only
    split_ifs with hshort
    · rw [List.map_nil, List.append_nil]
    · rw [ih, List.map_cons, List.append_assoc]
      rfl

/-- On rank 0 the list has the chain's hashes, each made a string. -/
theorem newBlockHashes_of_rank_zero (h : c.rank = 0) :
    (init c).newBlockHashes lib tokenIds =
      (generateHash (chainConfig lib c) tokenIds (chainConfig lib c).seed).map fun v => .str (lib.str v) := by
  rw [newBlockHashes]
  rw [if_neg fun hand => hand.1 h, hashBlocks_eq]
  rfl

theorem length_newBlockHashes : ((init c).newBlockHashes lib tokenIds).length = tokenIds.length / c.blockSize := by
  have hlength := length_generateHash (chainConfig lib c) tokenIds (chainConfig lib c).seed
  rw [newBlockHashes]
  split_ifs
  · rw [List.length_map, hashBlocks_eq, List.nil_append, List.length_map]
    exact hlength
  · rw [hashBlocks_eq, List.nil_append, List.length_map]
    exact hlength

/-- Every hash is a string, and no id of the connector is. -/
theorem exists_str_of_mem {v : PyValue} (h : v ∈ (init c).newBlockHashes lib tokenIds) : ∃ text, v = .str text := by
  rw [newBlockHashes] at h
  split_ifs at h
  · obtain ⟨ucmBlockId, -, rfl⟩ := List.mem_map.mp h
    exact ⟨_, rfl⟩
  · rw [hashBlocks_eq, List.nil_append] at h
    obtain ⟨hashValue, -, rfl⟩ := List.mem_map.mp h
    exact ⟨_, rfl⟩

/-- The lists that are there do not matter to a new one. -/
theorem newBlockHashes_with (known : Dict Int (Dict Nat (List PyValue))) :
    ({ s with blockHashes := known } : KVStarMultiStep).newBlockHashes lib tokenIds = s.newBlockHashes lib tokenIds := by
  have hblocks : ∀ blockHashes parent starts,
      ({ s with blockHashes := known } : KVStarMultiStep).hashBlocks lib tokenIds blockHashes parent starts =
        s.hashBlocks lib tokenIds blockHashes parent starts := by
    intro blockHashes parent starts
    induction starts generalizing blockHashes parent with
    | nil => rw [hashBlocks, hashBlocks]
    | cons start starts ih =>
      rw [hashBlocks, hashBlocks]
      dsimp only
      rw [ih]
  rw [newBlockHashes, newBlockHashes, hblocks]

theorem newBlockHashes_setBlockHashes {promptTokenIds : List Int} :
    (s.setBlockHashes lib reqId tokenIds).newBlockHashes lib promptTokenIds = s.newBlockHashes lib promptTokenIds := by
  rw [setBlockHashes]
  split <;> exact newBlockHashes_with _

theorem hashesOf_setBlockHashes {r : Int} :
    (s.setBlockHashes lib reqId tokenIds).hashesOf r =
      if r = reqId then some ((s.hashesOf reqId).getD (s.newBlockHashes lib tokenIds)) else s.hashesOf r := by
  have hset : s.setBlockHashes lib reqId tokenIds =
      { s with blockHashes := s.blockHashes.setNew reqId s.rank (s.newBlockHashes lib tokenIds) } := by
    rw [setBlockHashes, Dict.setNew]
    split
    next _ hranks => rw [hranks]
    next hranks => rw [hranks]
  rw [hset]
  exact Dict.getIn?_setNew

theorem firstPrompt_cons (call : Int × List Int) :
    firstPrompt reqId (call :: calls) = if call.1 = reqId then some call.2 else firstPrompt reqId calls := by
  rw [firstPrompt, List.find?_cons]
  split <;> simp_all [firstPrompt]

/-- The first call for a request decides on its list. -/
theorem hashesOf_run : (s.run lib calls).hashesOf reqId =
    (s.hashesOf reqId).or ((firstPrompt reqId calls).map (s.newBlockHashes lib)) := by
  induction calls generalizing s with
  | nil => exact Option.or_none.symm
  | cons call calls ih =>
    have hnew : (s.setBlockHashes lib call.1 call.2).newBlockHashes lib = s.newBlockHashes lib :=
      funext fun _ => newBlockHashes_setBlockHashes
    rw [run, List.foldl_cons]
    change ((s.setBlockHashes lib call.1 call.2).run lib calls).hashesOf reqId = _
    rw [ih, hnew, hashesOf_setBlockHashes, firstPrompt_cons]
    by_cases hcall : call.1 = reqId
    · rw [if_pos hcall.symm, if_pos hcall, hcall, Option.some_or, Option.map_some]
      cases s.hashesOf reqId with
      | none => rfl
      | some known => rfl
    · rw [if_neg (Ne.symm hcall), if_neg hcall]

theorem hashesOf_run_init (before after : List (Int × List Int)) :
    ((init c).run lib (before ++ (reqId, tokenIds) :: after)).hashesOf reqId =
      some ((init c).newBlockHashes lib ((firstPrompt reqId before).getD tokenIds)) := by
  have hfirst : firstPrompt reqId (before ++ (reqId, tokenIds) :: after) =
      some ((firstPrompt reqId before).getD tokenIds) := by
    induction before with
    | nil => rw [List.nil_append, firstPrompt_cons, if_pos rfl, firstPrompt, List.find?_nil, Option.map_none,
        Option.getD_none]
    | cons call before ih =>
      rw [List.cons_append, firstPrompt_cons, firstPrompt_cons]
      split_ifs
      · rfl
      · exact ih
  have hstart : (init c).hashesOf reqId = none := rfl
  rw [hashesOf_run, hstart, hfirst, Option.none_or, Option.map_some]

/-- A list of strings is a list of ids of the connector only where both are empty. -/
theorem newBlockHashes_eq_iff {ids : List (List UInt8)} :
    (init c).newBlockHashes lib tokenIds = ids.map .bytes ↔ tokenIds.length < c.blockSize ∧ ids = [] := by
  have hempty : (init c).newBlockHashes lib tokenIds = [] ↔ tokenIds.length < c.blockSize := by
    have hpos := c.blockSize_pos
    rw [← List.length_eq_zero_iff, length_newBlockHashes, Nat.div_eq_zero_iff]
    omega
  constructor
  · intro heq
    have hids : ids = [] := by
      cases ids with
      | nil => rfl
      | cons ucmBlockId ids =>
        have hmem : PyValue.bytes ucmBlockId ∈ (init c).newBlockHashes lib tokenIds := by
          rw [heq]
          exact List.mem_cons_self
        obtain ⟨text, htext⟩ := exists_str_of_mem hmem
        cases htext
    rw [hids, List.map_nil] at heq
    exact ⟨hempty.mp heq, hids⟩
  · rintro ⟨hshort, rfl⟩
    exact hempty.mpr hshort

end KVStarMultiStep

/-- In every run of calls the lists are the stored ids of a prompt just where no block is full, for
KVStar in the first prompt of the request too. -/
theorem blockHashes_eq_storedIds_iff (lib : Library) (c : VllmConfig) (caches : KvCaches) :
    (∀ before promptTokenIds after,
      ((GSAReqStat.init c).run lib (before ++ promptTokenIds :: after)).blockHashes =
          some ((storedIds lib c caches promptTokenIds).map .bytes) ↔
        promptTokenIds.length < c.blockSize) ∧
    (∀ before reqId promptTokenIds after,
      ((KVStarMultiStep.init c).run lib (before ++ (reqId, promptTokenIds) :: after)).hashesOf reqId =
          some ((storedIds lib c caches promptTokenIds).map .bytes) ↔
        promptTokenIds.length < c.blockSize ∧
          ∀ first, KVStarMultiStep.firstPrompt reqId before = some first → first.length < c.blockSize) := by
  constructor
  · intro before promptTokenIds after
    have hrun : ((GSAReqStat.init c).run lib (before ++ promptTokenIds :: after)).blockHashes = some [] :=
      GSAReqStat.run_blockHashes (.inl rfl) (by simp)
    rw [hrun, Option.some_inj, ← @storedIds_eq_nil lib c caches, eq_comm, List.map_eq_nil_iff]
  · intro before reqId promptTokenIds after
    rw [KVStarMultiStep.hashesOf_run_init, Option.some_inj, KVStarMultiStep.newBlockHashes_eq_iff, storedIds_eq_nil]
    cases KVStarMultiStep.firstPrompt reqId before with
    | none => simp
    | some first => simp [and_comm]

/-- A prompt of one full block, on rank 0 without MLA. -/
def oneBlock : VllmConfig where
  model := "m"
  dtype := "torch.bfloat16"
  useMla := false
  isDeepseekMla := false
  tensorParallelSize := 1
  worldSize := 1
  rank := 0
  blockSize := 2
  blockSize_pos := Nat.zero_lt_two

/-- Whatever the hash function, neither list is the stored ids of a prompt of one block. -/
theorem not_blockHashes_eq_storedIds :
    ¬ ∃ lib : Library, ∃ caches : KvCaches,
      ((GSAReqStat.init oneBlock).run lib [[5, 7]]).blockHashes =
          some ((storedIds lib oneBlock caches [5, 7]).map .bytes) ∨
        ((KVStarMultiStep.init oneBlock).run lib [(1, [5, 7])]).hashesOf 1 =
          some ((storedIds lib oneBlock caches [5, 7]).map .bytes) := by
  rintro ⟨lib, caches, hgsa | hkvstar⟩
  · have hrun : ((GSAReqStat.init oneBlock).run lib [[5, 7]]).blockHashes = some [] :=
      GSAReqStat.run_blockHashes (.inl rfl) (List.cons_ne_nil _ _)
    rw [hrun, Option.some_inj, eq_comm, List.map_eq_nil_iff, storedIds_eq_nil] at hgsa
    exact absurd hgsa (by decide)
  · have hrun := @KVStarMultiStep.hashesOf_run_init lib 1 [5, 7] oneBlock [] []
    rw [List.nil_append] at hrun
    rw [hrun, Option.some_inj, KVStarMultiStep.newBlockHashes_eq_iff, storedIds_eq_nil] at hkvstar
    exact absurd hkvstar.2 (by decide)

end UnifiedCache.Sparse
