import UnifiedCache.Sparse.BlockHashes

/-! The blocks of a prompt that ESA retrieves: the ids that it looks them up under, and the shards
and addresses of its loads, beside those of the layer-wise connector. -/

namespace UnifiedCache.Sparse

open Connector

/-- `math.ceil(prompt_len / block_size) - init_window_sz - local_window_sz`. -/
def getSparseRange (initWindowSz localWindowSz promptLen blockSize : Nat) : Int :=
  ((promptLen + blockSize - 1) / blockSize : Nat) - (initWindowSz : Int) - localWindowSz

/-- The part of ESA that hashes blocks. -/
structure ESA where
  vllmConfig : VllmConfig
  blockSize : Nat
  initWindowSz : Nat
  localWindowSz : Nat
  blockHashes : Dict String (Dict Nat (List (List UInt8)))
  rank : Nat
  isMla : Bool
  requestHasher : RequestHasher

namespace ESA

def init (c : VllmConfig) (initWindowSz localWindowSz : Nat) : ESA where
  vllmConfig := c
  blockSize := c.blockSize
  initWindowSz := initWindowSz
  localWindowSz := localWindowSz
  blockHashes := Dict.empty
  rank := c.rank
  isMla := c.isDeepseekMla
  requestHasher := RequestHasher.init c 0

variable (lib : Library) (s : ESA) (reqId : String) (tokenIds : List Int)

/-- The loop over the blocks. -/
def hashBlocks (numTotalBlocks : Nat) : List (List UInt8) → List UInt8 → List Nat → List (List UInt8)
  | blockHashes, _, [] => blockHashes
  | blockHashes, parent, start :: starts =>
    let blockIdx := start / s.blockSize
    if (numTotalBlocks : Int) - s.localWindowSz ≤ blockIdx then hashBlocks numTotalBlocks blockHashes parent starts
    else
      let blockTokenIds := slice tokenIds start (start + s.blockSize)
      if blockTokenIds.length < s.blockSize then blockHashes
      else
        let hashValue := s.requestHasher.callBlock lib (.bytes parent) blockTokenIds
        hashBlocks numTotalBlocks (if s.initWindowSz ≤ blockIdx then blockHashes ++ [hashValue] else blockHashes)
          hashValue starts

/-- The list of a request that has none. -/
def newBlockHashes : List (List UInt8) :=
  let parentBlockHashValue := s.requestHasher.call lib (.str "UCM_HASH_SEED")
  let numTotalBlocks := (tokenIds.length + s.blockSize - 1) / s.blockSize
  let blockHashes := s.hashBlocks lib tokenIds numTotalBlocks [] parentBlockHashValue
    (blockStarts tokenIds.length s.blockSize)
  let newrequestHasher := RequestHasher.init s.vllmConfig s.rank
  if s.rank ≠ 0 ∧ ¬ s.isMla then blockHashes.map fun ucmBlockId => newrequestHasher.call lib (.bytes ucmBlockId)
  else blockHashes

def setBlockHashes : ESA :=
  { s with blockHashes := s.blockHashes.setNew reqId s.rank (s.newBlockHashes lib tokenIds) }

/-- `block_hashes[req_id][rank]`. -/
def hashesOf : Option (List (List UInt8)) := s.blockHashes.getIn? reqId s.rank

/-- The calls of a run, each for a request with its prompt. -/
def run (calls : List (String × List Int)) : ESA :=
  calls.foldl (fun s call => s.setBlockHashes lib call.1 call.2) s

variable {lib s reqId tokenIds} {c : VllmConfig} {initWindowSz localWindowSz : Nat}

theorem slice_cons_zero {α : Type*} (x : α) (xs : List α) {b : Nat} (h : 0 < b) :
    slice (x :: xs) 0 b = x :: slice xs 0 (b - 1) := by
  obtain ⟨b, rfl⟩ := Nat.exists_eq_add_one.mpr h
  rw [slice_zero, slice_zero, List.take_succ_cons, Nat.add_sub_cancel]

theorem slice_cons_pos {α : Type*} (x : α) (xs : List α) {a b : Nat} (h : 0 < a) :
    slice (x :: xs) a b = slice xs (a - 1) (b - 1) := by
  obtain ⟨a, rfl⟩ := Nat.exists_eq_add_one.mpr h
  rw [slice, slice, List.drop_succ_cons, Nat.add_sub_cancel, Nat.sub_sub, Nat.add_comm 1 a]

theorem slice_eq_drop_take {α : Type*} (xs : List α) (a b : Nat) : slice xs a b = (xs.take b).drop a := by
  rw [slice, List.drop_take]

theorem slice_map {α β : Type*} (f : α → β) (xs : List α) (a b : Nat) : slice (xs.map f) a b = (slice xs a b).map f := by
  rw [slice, slice, List.map_take, List.map_drop]

/-- Between the windows the loop follows the connector's. -/
theorem hashBlocks_eq {numTotalBlocks : Nat} (hlocal : 1 ≤ localWindowSz)
    (htotal : numTotalBlocks = (tokenIds.length + c.blockSize - 1) / c.blockSize) (blockHashes : List (List UInt8))
    (parent : List UInt8) (first count : Nat) :
    (init c initWindowSz localWindowSz).hashBlocks lib tokenIds numTotalBlocks blockHashes parent
        ((List.range' first count).map (· * c.blockSize)) =
      blockHashes ++ slice (Connector.hashBlocks (schedulerConfig lib c) tokenIds parent
        ((List.range' first count).map (· * c.blockSize))) (initWindowSz - first)
        (numTotalBlocks - localWindowSz - first) := by
  have hpos := c.blockSize_pos
  induction count generalizing blockHashes parent first with
  | zero => simp [hashBlocks, Connector.hashBlocks, slice]
  | succ count ih =>
    rw [List.range'_succ, List.map_cons, hashBlocks]
    have hidx : first * c.blockSize / (init c initWindowSz localWindowSz).blockSize = first :=
      Nat.mul_div_cancel first hpos
    have hnext := fun hashes value => ih hashes value (first + 1)
    rw [hidx]
    dsimp only
    by_cases hlimit : numTotalBlocks ≤ first + localWindowSz
    · have hcond : (numTotalBlocks : Int) - (init c initWindowSz localWindowSz).localWindowSz ≤ first := by
        change (numTotalBlocks : Int) - localWindowSz ≤ first
        omega
      rw [if_pos hcond, hnext, slice_eq_nil (by omega), slice_eq_nil (by omega)]
    · have hcond : ¬ (numTotalBlocks : Int) - (init c initWindowSz localWindowSz).localWindowSz ≤ first := by
        change ¬ (numTotalBlocks : Int) - localWindowSz ≤ first
        omega
      have hfull : first * c.blockSize + c.blockSize ≤ tokenIds.length := by
        have hdiv : first + 1 + 1 ≤ (tokenIds.length + c.blockSize - 1) / c.blockSize := by omega
        have hmul := (Nat.le_div_iff_mul_le hpos).mp hdiv
        rw [Nat.add_mul, Nat.add_mul, Nat.one_mul] at hmul
        omega
      have hlength := @length_slice Int tokenIds (first * c.blockSize) (first * c.blockSize + c.blockSize) hfull
      have hblock : ¬ (slice tokenIds (first * c.blockSize)
          (first * c.blockSize + (schedulerConfig lib c).blockSize)).length < (schedulerConfig lib c).blockSize := by
        change ¬ (slice tokenIds (first * c.blockSize) (first * c.blockSize + c.blockSize)).length < c.blockSize
        omega
      have hlimit' : numTotalBlocks - localWindowSz - (first + 1) = numTotalBlocks - localWindowSz - first - 1 := by
        omega
      have hinit' : initWindowSz - (first + 1) = initWindowSz - first - 1 := by omega
      have hsize : (init c initWindowSz localWindowSz).blockSize = (schedulerConfig lib c).blockSize := rfl
      rw [if_neg hcond, Connector.hashBlocks, hsize]
      dsimp only
      rw [if_neg hblock, if_neg hblock, hnext]
      change (if initWindowSz ≤ first then _ else _) ++ _ = _
      split_ifs with hinit
      · rw [Nat.sub_eq_zero_of_le hinit, Nat.sub_eq_zero_of_le (hinit.trans (Nat.le_succ first)),
          slice_cons_zero _ _ (by omega), List.append_assoc, hlimit']
        rfl
      · rw [@slice_cons_pos _ _ _ (initWindowSz - first) _ (by omega), hlimit', hinit']
        rfl

/-- The blocks that are no part of a window. -/
theorem sparseRange_toNat (promptLen blockSize : Nat) :
    (initWindowSz + getSparseRange initWindowSz localWindowSz promptLen blockSize).toNat =
      (promptLen + blockSize - 1) / blockSize - localWindowSz := by
  rw [getSparseRange]
  omega

theorem generateHash_append_take {m : Nat} {promptTokenIds outputTokenIds : List Int} (parent : List UInt8)
    (hm : m ≤ promptTokenIds.length / c.blockSize) :
    (generateHash (schedulerConfig lib c) (promptTokenIds ++ outputTokenIds) parent).take m =
      (generateHash (schedulerConfig lib c) promptTokenIds parent).take m := by
  have hpos := c.blockSize_pos
  have hle : m * c.blockSize ≤ promptTokenIds.length := (Nat.le_div_iff_mul_le hpos).mp hm
  have hlonger : m ≤ (promptTokenIds ++ outputTokenIds).length / c.blockSize := by
    rw [List.length_append]
    exact hm.trans (Nat.div_le_div_right (Nat.le_add_right _ _))
  have hprompt := generateHash_take (schedulerConfig lib c) promptTokenIds parent hm
  have hall := generateHash_take (schedulerConfig lib c) (promptTokenIds ++ outputTokenIds) parent hlonger
  rw [← hprompt, ← hall]
  congr 1
  exact List.take_append_of_le_length hle

/-- The list of a request has the stored ids of the blocks between the windows. -/
theorem newBlockHashes_eq (caches : KvCaches) (hlocal : 1 ≤ localWindowSz) (promptTokenIds outputTokenIds : List Int) :
    (init c initWindowSz localWindowSz).newBlockHashes lib promptTokenIds =
      slice (storedIds lib c caches (promptTokenIds ++ outputTokenIds)) initWindowSz
        (initWindowSz + getSparseRange initWindowSz localWindowSz promptTokenIds.length c.blockSize).toNat := by
  have hbound : (promptTokenIds.length + c.blockSize - 1) / c.blockSize - localWindowSz ≤
      promptTokenIds.length / c.blockSize := by
    have hceil : (promptTokenIds.length + c.blockSize - 1) / c.blockSize ≤ promptTokenIds.length / c.blockSize + 1 := by
      rw [← Nat.add_div_right _ c.blockSize_pos]
      exact Nat.div_le_div_right (Nat.sub_le _ _)
    exact Nat.sub_le_iff_le_add.mpr (hceil.trans (Nat.add_le_add_left hlocal _))
  have hsame := @generateHash_append_take lib c _ promptTokenIds outputTokenIds (schedulerConfig lib c).seed hbound
  have hchain : (init c initWindowSz localWindowSz).hashBlocks lib promptTokenIds
      ((promptTokenIds.length + c.blockSize - 1) / c.blockSize) [] (schedulerConfig lib c).seed
        (blockStarts promptTokenIds.length c.blockSize) =
      slice (generateHash (schedulerConfig lib c) (promptTokenIds ++ outputTokenIds) (schedulerConfig lib c).seed)
        initWindowSz ((promptTokenIds.length + c.blockSize - 1) / c.blockSize - localWindowSz) := by
    rw [blockStarts, List.range_eq_range', hashBlocks_eq hlocal rfl, List.nil_append, slice_eq_drop_take,
      slice_eq_drop_take, hsame, generateHash, List.range_eq_range']
    rfl
  have hshared : (workerConfig lib c caches).shared = c.isDeepseekMla := by
    rw [WorkerConfig.shared, workerConfig]
    cases c.isDeepseekMla <;> cases caches.isTuple <;> rfl
  have hnew : (init c initWindowSz localWindowSz).newBlockHashes lib promptTokenIds =
      if (workerConfig lib c caches).tpRank ≠ 0 ∧ ¬ c.isDeepseekMla then
        (slice (generateHash (schedulerConfig lib c) (promptTokenIds ++ outputTokenIds) (schedulerConfig lib c).seed)
          initWindowSz ((promptTokenIds.length + c.blockSize - 1) / c.blockSize - localWindowSz)).map
            (workerConfig lib c caches).requestHasher
      else slice (generateHash (schedulerConfig lib c) (promptTokenIds ++ outputTokenIds) (schedulerConfig lib c).seed)
        initWindowSz ((promptTokenIds.length + c.blockSize - 1) / c.blockSize - localWindowSz) := by
    rw [← hchain]
    rfl
  rw [hnew, sparseRange_toNat, storedIds, ← slice_map, hshared]
  by_cases hrank : (workerConfig lib c caches).tpRank ≠ 0 ∧ ¬ c.isDeepseekMla
  · rw [if_pos hrank, if_pos hrank]
  · rw [if_neg hrank, if_neg hrank]

theorem newBlockHashes_setBlockHashes {promptTokenIds : List Int} :
    (s.setBlockHashes lib reqId tokenIds).newBlockHashes lib promptTokenIds = s.newBlockHashes lib promptTokenIds := by
  have hblocks : ∀ total blockHashes parent starts,
      (s.setBlockHashes lib reqId tokenIds).hashBlocks lib promptTokenIds total blockHashes parent starts =
        s.hashBlocks lib promptTokenIds total blockHashes parent starts := by
    intro total blockHashes parent starts
    induction starts generalizing blockHashes parent with
    | nil => rw [hashBlocks, hashBlocks]
    | cons start starts ih =>
      rw [hashBlocks, hashBlocks]
      simp only [ih]
      rfl
  rw [newBlockHashes, newBlockHashes, hblocks]
  rfl

theorem hashesOf_setBlockHashes {r : String} :
    (s.setBlockHashes lib reqId tokenIds).hashesOf r =
      if r = reqId then some ((s.hashesOf reqId).getD (s.newBlockHashes lib tokenIds)) else s.hashesOf r :=
  Dict.getIn?_setNew

/-- A request has its list from the first call on, if all its calls have the same prompt. -/
theorem hashesOf_run {calls : List (String × List Int)} (hsame : ∀ call ∈ calls, call.1 = reqId → call.2 = tokenIds)
    (h : s.hashesOf reqId = some (s.newBlockHashes lib tokenIds) ∨
      s.hashesOf reqId = none ∧ ∃ call ∈ calls, call.1 = reqId) :
    (s.run lib calls).hashesOf reqId = some (s.newBlockHashes lib tokenIds) := by
  induction calls generalizing s with
  | nil =>
    obtain h | ⟨-, call, hmem, -⟩ := h
    · exact h
    · cases hmem
  | cons call calls ih =>
    obtain ⟨hcall, hcalls⟩ := List.forall_mem_cons.mp hsame
    have hnew := @newBlockHashes_setBlockHashes lib s call.1 call.2 tokenIds
    rw [run, List.foldl_cons, ← hnew]
    refine ih hcalls ?_
    rw [hashesOf_setBlockHashes, hnew]
    by_cases hreq : reqId = call.1
    · left
      rw [if_pos hreq, ← hreq, hcall hreq.symm]
      obtain h | ⟨h, -⟩ := h <;> rw [h] <;> rfl
    · rw [if_neg hreq]
      obtain h | ⟨h, hlater⟩ := h
      · exact Or.inl h
      · obtain ⟨next, hmem, hnext⟩ := hlater
        obtain rfl | hmem := List.mem_cons.mp hmem
        · exact absurd hnext.symm hreq
        · exact Or.inr ⟨h, next, hmem, hnext⟩

end ESA

/-- `numel` of a block of the two caches of a layer, and the item size of the model's dtype. -/
structure LayerSizes where
  kNumel : Nat
  vNumel : Nat
  itemsize : Nat

/-- The tensors that vLLM makes have blocks of one size in all layers, and elements of the model's
dtype. -/
structure LayerSizes.Fits (sizes : LayerSizes) (c : VllmConfig) (caches : KvCaches) : Prop where
  block : caches.blockStride = UInt64.ofNat (sizes.kNumel * sizes.itemsize)
  rope : c.isDeepseekMla = true → caches.isTuple = true →
    caches.ropeBlockStride = UInt64.ofNat (sizes.vNumel * sizes.itemsize)

/-- `vCache` says whether there is one. -/
structure ReqStatePerLayer where
  layerId : Nat
  numLayers : Nat
  isMla : Bool
  vCache : Bool
  sizes : LayerSizes
  kBasePtr : UInt64
  vBasePtr : UInt64

namespace ReqStatePerLayer

/-- The state of a layer once `maybe_register_static_data` has run. -/
def init (c : VllmConfig) (caches : KvCaches) (sizes : LayerSizes) (layerId : Nat) : ReqStatePerLayer where
  layerId := layerId
  numLayers := caches.numLayers
  isMla := c.isDeepseekMla
  vCache := !(c.isDeepseekMla && !caches.isTuple)
  sizes := sizes
  kBasePtr := caches.kBasePtrs layerId
  vBasePtr := caches.vBasePtrs layerId

variable {ReqId : Type*} (s : ReqStatePerLayer)

def launchTransferTask (task : Bool → Connector.Task ReqId) (blockHashes : List (List UInt8)) (vllmBlockIds : List Nat) :
    List (Submission (List UInt8) ReqId) :=
  let blockDataSize := UInt64.ofNat (s.sizes.kNumel * s.sizes.itemsize)
  let shardIndexs := List.replicate blockHashes.length s.layerId
  ⟨.store, task false, blockHashes, shardIndexs,
      vllmBlockIds.map fun b => [UInt64.ofNat b * blockDataSize + s.kBasePtr]⟩ ::
    if !s.isMla then
      [⟨.store, task true, blockHashes, List.replicate blockHashes.length (s.layerId + s.numLayers),
        vllmBlockIds.map fun b => [UInt64.ofNat b * blockDataSize + s.vBasePtr]⟩]
    else if s.vCache then
      let blockDataSize := UInt64.ofNat (s.sizes.vNumel * s.sizes.itemsize)
      [⟨.ropeStore, task true, blockHashes, shardIndexs,
        vllmBlockIds.map fun b => [UInt64.ofNat b * blockDataSize + s.vBasePtr]⟩]
    else []

/-- The loads of a layer go to the shards and addresses of its dumps. -/
theorem launchTransferTask_eq (lib : Library) {c : VllmConfig} {caches : KvCaches} {sizes : LayerSizes}
    (h : sizes.Fits c caches) (layerId : Nat) (task : Nat → Bool → Connector.Task ReqId) (blockHashes : List (List UInt8))
    (vllmBlockIds : List Nat) :
    (init c caches sizes layerId).launchTransferTask (task layerId) blockHashes vllmBlockIds =
      UCMLayerWiseConnector.layerSubmissions (workerConfig lib c caches) task blockHashes vllmBlockIds layerId := by
  have hrope := h.rope
  unfold launchTransferTask UCMLayerWiseConnector.layerSubmissions WorkerConfig.kAddr WorkerConfig.vAddr
    WorkerConfig.ropeAddr workerConfig init
  rw [h.block]
  cases hmla : c.isDeepseekMla with
  | false => rfl
  | true =>
    cases htuple : caches.isTuple with
    | false => rfl
    | true =>
      rw [hrope hmla htuple]
      rfl

end ReqStatePerLayer

/-- ESA finds the blocks between the windows where the connector has put them: under their stored
ids, at the shards and addresses of the layer-wise dumps. -/
theorem esa_agrees (lib : Library) (c : VllmConfig) (caches : KvCaches) {initWindowSz localWindowSz : Nat}
    (hlocal : 1 ≤ localWindowSz) :
    (∀ (calls : List (String × List Int)) (reqId : String) (promptTokenIds outputTokenIds : List Int),
      (∀ call ∈ calls, call.1 = reqId → call.2 = promptTokenIds) → (∃ call ∈ calls, call.1 = reqId) →
      ((ESA.init c initWindowSz localWindowSz).run lib calls).hashesOf reqId =
        some (slice (storedIds lib c caches (promptTokenIds ++ outputTokenIds)) initWindowSz
          (initWindowSz + getSparseRange initWindowSz localWindowSz promptTokenIds.length c.blockSize).toNat)) ∧
    ∀ (sizes : LayerSizes) (layerId : Nat) (task : Nat → Bool → Connector.Task String) (blockHashes : List (List UInt8))
      (vllmBlockIds : List Nat), sizes.Fits c caches →
      (ReqStatePerLayer.init c caches sizes layerId).launchTransferTask (task layerId) blockHashes vllmBlockIds =
        UCMLayerWiseConnector.layerSubmissions (workerConfig lib c caches) task blockHashes vllmBlockIds layerId := by
  constructor
  · intro calls reqId promptTokenIds outputTokenIds hsame hcalled
    rw [ESA.hashesOf_run hsame (Or.inr ⟨rfl, hcalled⟩), ESA.newBlockHashes_eq caches hlocal]
  · intro sizes layerId task blockHashes vllmBlockIds hfits
    exact ReqStatePerLayer.launchTransferTask_eq lib hfits layerId task blockHashes vllmBlockIds

/-- Two layers of bfloat16 on one rank, with blocks of 16 elements. -/
def twoLayers : KvCaches where
  isTuple := false
  numLayers := 2
  blockStride := 32
  ropeBlockStride := 0
  kBasePtrs := fun i => 0x1000 + 0x100 * UInt64.ofNat i
  vBasePtrs := fun i => 0x2000 + 0x100 * UInt64.ofNat i

def firstBytes : Library where
  md5 := List.take 16
  dumps := fun _ => []
  str := fun _ => ""

/-- A prompt of two full blocks and a token, of which ESA retrieves the second block. -/
theorem esa_agrees_twoLayers :
    ((ESA.init oneBlock 1 1).run firstBytes [("r", [5, 7, 8, 6, 9])]).hashesOf "r" =
        some (slice (storedIds firstBytes oneBlock twoLayers [5, 7, 8, 6, 9]) 1 2) ∧
      (ReqStatePerLayer.init oneBlock twoLayers ⟨16, 16, 2⟩ 1).launchTransferTask (Connector.Task.load "r" 1) [[3]] [4] =
        UCMLayerWiseConnector.layerSubmissions (workerConfig firstBytes oneBlock twoLayers) (Connector.Task.load "r") [[3]] [4] 1 := by
  obtain ⟨hashes, loads⟩ := @esa_agrees firstBytes oneBlock twoLayers 1 1 (by decide)
  have hhashes := hashes [("r", [5, 7, 8, 6, 9])] "r" [5, 7, 8, 6, 9] [] (by simp) ⟨_, List.mem_singleton_self _, rfl⟩
  exact ⟨hhashes, loads ⟨16, 16, 2⟩ 1 (Connector.Task.load "r") [[3]] [4] ⟨rfl, fun _ h => by cases h⟩⟩

end UnifiedCache.Sparse
