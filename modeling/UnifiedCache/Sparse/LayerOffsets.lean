import UnifiedCache.Connector.Layout

/-! Where GSA and KVStar look for the tensors of a layer in the file of a block, beside where the
connectors put them. -/

namespace UnifiedCache.Sparse

open Connector

/-- The tensors of the KV cache of a layer. -/
structure CacheShape where
  numBlocks : Nat
  blockSize : Nat
  headNum : Nat
  headSize : Nat
  elementSize : Nat
  pos : 0 < blockSize * headNum * headSize * elementSize

namespace CacheShape

variable (shape : CacheShape)

/-- The bytes of one block of K or of V. -/
def blockBytes : Nat := shape.blockSize * shape.headNum * shape.headSize * shape.elementSize

/-- The bytes of all blocks. -/
def cacheBytes : Nat := shape.numBlocks * shape.blockBytes

end CacheShape

/-- K and V of each layer one after the other. -/
def interleavedOffset (blockDataSize layerId : Nat) (isV isMla : Bool) : Nat :=
  let layerDataSize := if isMla then blockDataSize else blockDataSize * 2
  let kOffset := layerDataSize * layerId
  if isMla then kOffset
  else
    let vOffset := kOffset + blockDataSize
    if isV then vOffset else kOffset

def GSA.computeLayerOffset : Nat → Nat → Bool → Bool → Nat := interleavedOffset

def KVStarMultiStep.computeLayerOffset : Nat → Nat → Bool → Bool → Nat := interleavedOffset

structure GSAPrefetchEngineC where
  useMla : Bool
  blockSize : Nat
  headNum : Nat
  headSize : Nat
  tensorElemSize : Nat
  kvSizeBytes : Nat

namespace GSAPrefetchEngineC

def getOffsetNew (engine : GSAPrefetchEngineC) (layerId : Nat) (isV : Bool) : Nat :=
  let kMinDataBlockSize := engine.blockSize * engine.headNum * engine.headSize * engine.tensorElemSize
  let layerSize := kMinDataBlockSize * 2
  let kOffset := layerSize * layerId
  if engine.useMla then
    let layerSize := kMinDataBlockSize
    layerSize * layerId
  else
    let vOffset := kOffset + kMinDataBlockSize
    if isV then vOffset else kOffset

/-- The engine once it has seen the KV caches. -/
def init (useMla : Bool) (shape : CacheShape) : GSAPrefetchEngineC where
  useMla := useMla
  blockSize := shape.blockSize
  headNum := shape.headNum
  headSize := shape.headSize
  tensorElemSize := shape.elementSize
  kvSizeBytes := shape.blockBytes

end GSAPrefetchEngineC

section Transfers

variable (config : WorkerConfig UnifiedCache.BlockId) (shape : CacheShape)
  (block : UnifiedCache.BlockId × Nat) (layer : Nat)

/-- The task of one block in `LoadKVToHBM`. -/
def GSAPrefetchEngineC.loadKVToHBM : List IoOf :=
  let engine := GSAPrefetchEngineC.init config.shared shape
  let k : IoOf := ⟨(.store, block.1), engine.getOffsetNew layer false, (config.kAddr layer block.2).toNat,
    engine.kvSizeBytes⟩
  if !engine.useMla then
    [k, ⟨(.store, block.1), engine.getOffsetNew layer true, (config.vAddr layer block.2).toNat, engine.kvSizeBytes⟩]
  else [k]

/-- What `launch_transfer_task` of GSA asks for one block. `kv_caches[0][0].numel()` counts the
elements of all blocks. -/
def GSA.launchTransferTask : List IoOf :=
  let blockDataSize := shape.cacheBytes
  let k : IoOf := ⟨(.store, block.1), GSA.computeLayerOffset blockDataSize layer false config.shared,
    (config.kAddr layer block.2).toNat, shape.blockBytes⟩
  if !config.shared then
    [k, ⟨(.store, block.1), GSA.computeLayerOffset blockDataSize layer true config.shared,
      (config.vAddr layer block.2).toNat, shape.blockBytes⟩]
  else [k]

/-- The prefetch of GSA, in Python where there is no CUDA device. -/
def GSA.prefetch (isPythonLoad : Bool) : List IoOf :=
  if isPythonLoad then GSA.launchTransferTask config shape block layer
  else GSAPrefetchEngineC.loadKVToHBM config shape block layer

/-- What `launch_transfer_task` of KVStar asks for one block. An MLA cache has too few dimensions
to be registered. -/
def KVStarMultiStep.launchTransferTask : List IoOf :=
  let blockDataSize := shape.blockBytes
  if !config.shared then
    [⟨(.store, block.1), KVStarMultiStep.computeLayerOffset blockDataSize layer false false,
        (config.kAddr layer block.2).toNat, shape.blockBytes⟩,
      ⟨(.store, block.1), KVStarMultiStep.computeLayerOffset blockDataSize layer true false,
        (config.vAddr layer block.2).toNat, shape.blockBytes⟩]
  else []

end Transfers

/-- Each tensor of a layer is looked for where the dumps of the connectors, which consist of
`layerIos`, have put it. -/
def Matches (config : WorkerConfig UnifiedCache.BlockId)
    (transfers : UnifiedCache.BlockId × Nat → Nat → List IoOf) : Prop :=
  ∀ block, ∀ layer < config.numLayers, (transfers block layer).Sublist (config.layerIos block layer)

/-- GSA and KVStar both find the tensors of the connectors. -/
structure OffsetsMatch (config : WorkerConfig UnifiedCache.BlockId) (shape : CacheShape) (isPythonLoad : Bool) :
    Prop where
  gsa : Matches config fun block layer => GSA.prefetch config shape block layer isPythonLoad
  kvstar : Matches config (KVStarMultiStep.launchTransferTask config shape)

section Offsets

variable {config : WorkerConfig UnifiedCache.BlockId} {shape : CacheShape} {size : Nat}

/-- The transfers with tensors of some size, one after the other by turns. -/
def interleavedIos (config : WorkerConfig UnifiedCache.BlockId) (shape : CacheShape) (size : Nat)
    (block : UnifiedCache.BlockId × Nat) (layer : Nat) : List IoOf :=
  let k : IoOf := ⟨(.store, block.1), interleavedOffset size layer false config.shared,
    (config.kAddr layer block.2).toNat, shape.blockBytes⟩
  if !config.shared then
    [k, ⟨(.store, block.1), interleavedOffset size layer true config.shared, (config.vAddr layer block.2).toNat,
      shape.blockBytes⟩]
  else [k]

theorem getOffsetNew_eq (useMla : Bool) (layer : Nat) (isV : Bool) :
    (GSAPrefetchEngineC.init useMla shape).getOffsetNew layer isV =
      interleavedOffset shape.blockBytes layer isV useMla := by
  unfold GSAPrefetchEngineC.getOffsetNew interleavedOffset
  cases useMla <;> rfl

theorem loadKVToHBM_eq : GSAPrefetchEngineC.loadKVToHBM config shape = interleavedIos config shape shape.blockBytes := by
  funext block layer
  unfold GSAPrefetchEngineC.loadKVToHBM interleavedIos
  dsimp only
  rw [getOffsetNew_eq, getOffsetNew_eq]
  rfl

/-- K and V of the layers in the order of the connectors, and by turns. -/
theorem turns_iff {bytes : Nat} (hpos : 0 < bytes) (L : Nat) :
    (∀ layer < L, size * 2 * layer = bytes * layer ∧ size * 2 * layer + size = bytes * (layer + L)) ↔
      L = 0 ∨ L = 1 ∧ size = bytes := by
  constructor
  · intro h
    by_cases hzero : L = 0
    · exact Or.inl hzero
    · have hfirst := (h 0 (by omega)).2
      rw [Nat.mul_zero, Nat.zero_add, Nat.zero_add] at hfirst
      by_cases hone : L = 1
      · subst hone
        exact Or.inr ⟨rfl, by omega⟩
      · have hsecond := (h 1 (by omega)).1
        have hmore : bytes * 2 ≤ bytes * L := Nat.mul_le_mul_left bytes (by omega)
        omega
  · rintro (rfl | ⟨rfl, rfl⟩) layer hlayer
    · omega
    · obtain rfl : layer = 0 := by omega
      omega

theorem layers_iff (bytes L : Nat) : (∀ layer < L, size * layer = bytes * layer) ↔ L ≤ 1 ∨ size = bytes := by
  constructor
  · intro h
    by_cases hone : L ≤ 1
    · exact Or.inl hone
    · have hsecond := h 1 (by omega)
      right
      omega
  · rintro (hone | rfl) layer hlayer
    · obtain rfl : layer = 0 := by omega
      omega
    · rfl

theorem interleaved_sublist_of_shared (hsize : config.tensorSize .store = shape.blockBytes)
    (hshared : config.shared = true) (block : UnifiedCache.BlockId × Nat) (layer : Nat) :
    (interleavedIos config shape size block layer).Sublist (config.layerIos block layer) ↔
      size * layer = shape.blockBytes * layer := by
  unfold interleavedIos WorkerConfig.layerIos interleavedOffset
  simp only [hshared, hsize, Bool.not_true, Bool.false_eq_true, if_false, if_true, List.singleton_sublist]
  cases hkind : config.kind with
  | keyValue => simp [WorkerConfig.shared, hkind] at hshared
  | mla => simp
  | dsa => simp

theorem interleaved_sublist_of_keyValue (hsize : config.tensorSize .store = shape.blockBytes)
    (hshared : config.shared = false) (block : UnifiedCache.BlockId × Nat) (layer : Nat) :
    (interleavedIos config shape size block layer).Sublist (config.layerIos block layer) ↔
      size * 2 * layer = shape.blockBytes * layer ∧
        size * 2 * layer + size = shape.blockBytes * (layer + config.numLayers) := by
  have hkind : config.kind = .keyValue := by simpa [WorkerConfig.shared] using hshared
  unfold interleavedIos WorkerConfig.layerIos interleavedOffset
  simp only [hshared, hsize, hkind, Bool.not_false, Bool.false_eq_true, if_false, if_true]
  constructor
  · intro h
    have heq := h.eq_of_length rfl
    simpa using heq
  · rintro ⟨hk, hv⟩
    rw [← hk, ← hv]

theorem matches_interleaved_of_shared (hsize : config.tensorSize .store = shape.blockBytes)
    (hshared : config.shared = true) :
    Matches config (interleavedIos config shape size) ↔ config.numLayers ≤ 1 ∨ size = shape.blockBytes := by
  rw [← layers_iff]
  constructor
  · intro h layer hlayer
    exact (interleaved_sublist_of_shared hsize hshared (Vector.replicate 16 0, 0) layer).mp (h _ layer hlayer)
  · intro h block layer hlayer
    exact (interleaved_sublist_of_shared hsize hshared block layer).mpr (h layer hlayer)

theorem matches_interleaved_of_keyValue (hsize : config.tensorSize .store = shape.blockBytes)
    (hshared : config.shared = false) :
    Matches config (interleavedIos config shape size) ↔
      config.numLayers = 0 ∨ config.numLayers = 1 ∧ size = shape.blockBytes := by
  have hpos : 0 < shape.blockBytes := shape.pos
  rw [← turns_iff hpos]
  constructor
  · intro h layer hlayer
    exact (interleaved_sublist_of_keyValue hsize hshared (Vector.replicate 16 0, 0) layer).mp (h _ layer hlayer)
  · intro h block layer hlayer
    exact (interleaved_sublist_of_keyValue hsize hshared block layer).mpr (h layer hlayer)

theorem cacheBytes_eq_iff : shape.cacheBytes = shape.blockBytes ↔ shape.numBlocks = 1 := by
  have hpos : 0 < shape.blockBytes := shape.pos
  rw [CacheShape.cacheBytes, Nat.mul_eq_right hpos.ne']

/-- The prefetch goes by turns through tensors of one block, or of all blocks in Python. -/
theorem prefetch_eq (isPythonLoad : Bool) :
    ∃ size, (fun block layer => GSA.prefetch config shape block layer isPythonLoad) = interleavedIos config shape size ∧
      (size = shape.blockBytes ↔ (isPythonLoad = true → shape.numBlocks = 1)) := by
  cases isPythonLoad with
  | false => exact ⟨shape.blockBytes, loadKVToHBM_eq, by simp⟩
  | true =>
    refine ⟨shape.cacheBytes, rfl, ?_⟩
    rw [cacheBytes_eq_iff]
    simp

end Offsets

/-- The offsets are those of the connectors for MLA models, or with one layer, if the prefetch
does not take the size of all blocks for that of one; for other models with one layer only. -/
theorem offsetsMatch_iff (config : WorkerConfig UnifiedCache.BlockId) (shape : CacheShape) (isPythonLoad : Bool)
    (hsize : config.tensorSize .store = shape.blockBytes) :
    OffsetsMatch config shape isPythonLoad ↔
      config.shared = true ∧ (config.numLayers ≤ 1 ∨ (isPythonLoad = true → shape.numBlocks = 1)) ∨
        config.shared = false ∧
          (config.numLayers = 0 ∨ config.numLayers = 1 ∧ (isPythonLoad = true → shape.numBlocks = 1)) := by
  obtain ⟨size, hprefetch, hone⟩ := @prefetch_eq config shape isPythonLoad
  rw [← hone]
  cases hshared : config.shared with
  | true =>
    have hgsa := @matches_interleaved_of_shared config shape size hsize hshared
    have hkvstar : Matches config (KVStarMultiStep.launchTransferTask config shape) := by
      intro block layer _
      unfold KVStarMultiStep.launchTransferTask
      rw [hshared]
      exact List.nil_sublist _
    simp only [true_and, Bool.true_eq_false, false_and, or_false]
    rw [← hgsa, ← hprefetch]
    exact ⟨fun h => h.gsa, fun h => ⟨h, hkvstar⟩⟩
  | false =>
    have hgsa := @matches_interleaved_of_keyValue config shape size hsize hshared
    have hkvstar := @matches_interleaved_of_keyValue config shape shape.blockBytes hsize hshared
    have hsame : KVStarMultiStep.launchTransferTask config shape = interleavedIos config shape shape.blockBytes := by
      funext block layer
      unfold KVStarMultiStep.launchTransferTask interleavedIos
      rw [hshared]
      rfl
    simp only [Bool.false_eq_true, false_and, true_and, false_or]
    rw [← hgsa, ← hprefetch]
    refine ⟨fun h => h.gsa, fun h => ⟨h, ?_⟩⟩
    rw [hsame, hkvstar]
    rw [hprefetch, hgsa] at h
    exact h.imp_right fun h => ⟨h.1, rfl⟩

/-- A cache of four blocks of 2 bytes. -/
def fourBlocks : CacheShape where
  numBlocks := 4
  blockSize := 1
  headNum := 1
  headSize := 1
  elementSize := 2
  pos := by decide

theorem offsetsMatch_iff_rankOne :
    OffsetsMatch rankOne fourBlocks false ↔
      rankOne.shared = true ∧ (rankOne.numLayers ≤ 1 ∨ (false = true → fourBlocks.numBlocks = 1)) ∨
        rankOne.shared = false ∧
          (rankOne.numLayers = 0 ∨ rankOne.numLayers = 1 ∧ (false = true → fourBlocks.numBlocks = 1)) :=
  offsetsMatch_iff rankOne fourBlocks false (by decide)

/-- With two layers, K of the second one is looked for where V of the first one is. -/
theorem not_offsetsMatch : ¬ OffsetsMatch rankOne fourBlocks false := by
  intro h
  have hlayer := h.gsa (Vector.replicate 16 0, 0) 1 (by decide)
  have heq := hlayer.eq_of_length rfl
  exact absurd (congrArg (List.map PosixStore.Io.offset) heq) (by decide)

end UnifiedCache.Sparse
