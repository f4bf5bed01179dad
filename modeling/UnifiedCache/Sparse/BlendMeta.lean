import UnifiedCache.Connector.Blend

/-! The reduction of a batch to the tokens that blending computes anew. Running requests
come first in the batch, with one token each, and then the new ones. -/

namespace UnifiedCache.Sparse.Blend

open Connector Connector.Blend

structure ReqMeta where
  reqIdx : Nat
  needBlend : Bool
  prefixLen : Int
  prefixBlkLen : Int
  chunksLen : Nat
  chunksBlkLen : Nat
  suffixLen : Int
  suffixBlkLen : Int
  chunkHitMask : List Bool
  chunkHitBlkLen : Nat

structure AttnMetadata (Slot : Type*) where
  queryStartLoc : List Nat
  seqLens : List Nat
  slotMapping : List Slot
  maxQueryLen : Nat
  numActualTokens : Nat

structure BlendMetaData where
  requests : List ReqMeta
  computeMask : List Bool
  queryLens : List Nat
  blendStartReqIdx : Nat
  needReIndex : Bool

/-- `computeMeta` has `int(candidate_len * ratio)` for each of its layers. -/
structure BlendSparseConfig (Layer : Type*) where
  blockSize : Nat
  blockSize_pos : 0 < blockSize
  maxModelLen : Nat
  computeMeta : Layer → Option (Nat → Int)

/-- What `torch.topk` finds in the differences of the keys of a request. -/
structure TopK where
  indices : ReqMeta → (n k : Nat) → List Nat
  nodup : ∀ req n k, (indices req n k).Nodup
  length_eq : ∀ req n k, k ≤ n → (indices req n k).length = k
  lt : ∀ req n k, k ≤ n → ∀ i ∈ indices req n k, i < n

/-- What goes into the attention and comes out of `attention_begin`. -/
structure AttnInput (Row : Type*) where
  query : List Row
  key : List Row
  value : List Row
  output : Option (List Row)

structure BlendState (Slot : Type*) where
  blendReqMetas : BlendMetaData
  attnMetadata : AttnMetadata Slot

variable {Layer Slot Row BlockId ReqId : Type*}

def getNumBlks (numTokens : Int) (blockSize : Nat) : Int := (numTokens + blockSize - 1) / blockSize

/-- Rows selected by a mask, which has to be as long. -/
def maskSelect (rows : List Row) (mask : List Bool) : Option (List Row) :=
  if rows.length = mask.length then some (compress rows mask) else none

def fillTrue (mask : List Bool) (start stop : Nat) : List Bool :=
  mask.mapIdx fun i v => v || (decide (start ≤ i) && decide (i < stop))

def cumsum (lens : List Nat) : List Nat := (lens.scanl (· + ·) 0).tail

namespace BlendMetaData

variable (metas : BlendMetaData)

/-- `forwardMask` is the buffer that the masks of all batches are taken from. -/
def resetBlendMeta (forwardMask : List Bool) (attnMetadata : AttnMetadata Slot) (numCachedReqs : Nat) :
    BlendMetaData where
  requests := []
  computeMask := forwardMask.take (attnMetadata.queryStartLoc.getLast?.getD 0)
  queryLens := attnMetadata.queryStartLoc.tail.zipWith (· - ·) attnMetadata.queryStartLoc.dropLast
  blendStartReqIdx := numCachedReqs
  needReIndex := false

def reqMeta (reqIdx : Nat) (prefixLen : Int) (hitMask : List Bool) (seqLen blockSize : Nat) : ReqMeta :=
  let chunksLen := hitMask.length * blockSize
  let suffixLen := (seqLen : Int) - prefixLen - chunksLen
  { reqIdx := reqIdx
    needBlend := decide (0 < hitMask.count true)
    prefixLen := prefixLen
    prefixBlkLen := getNumBlks prefixLen blockSize
    chunksLen := chunksLen
    chunksBlkLen := hitMask.length
    suffixLen := suffixLen
    suffixBlkLen := getNumBlks suffixLen blockSize
    chunkHitMask := hitMask
    chunkHitBlkLen := hitMask.count true }

def addRequest (idx : Nat) (chunksMeta : List (ChunkMetaData BlockId)) (seqLens : List Nat) (blockSize : Nat) :
    Option BlendMetaData :=
  match chunksMeta with
  | [] => some metas
  | first :: _ =>
    let reqIdxBatch := metas.blendStartReqIdx + idx
    let hitMask := chunksMeta.flatMap ChunkMetaData.storeHits
    seqLens[reqIdxBatch]?.map fun seqLen =>
      { metas with requests := metas.requests ++ [reqMeta reqIdxBatch first.startTokenDix hitMask seqLen blockSize] }

def resetComputeMask : BlendMetaData :=
  { metas with computeMask := metas.computeMask.mapIdx fun i _ => decide (i < metas.blendStartReqIdx) }

def updateQueryLens (reqIdx reusedNumTokens : Nat) : BlendMetaData :=
  { metas with queryLens := metas.queryLens.modify reqIdx (· - reusedNumTokens) }

/-- `none` is a shape that does not fit, or an index that is not there. -/
def updateReqComputeMask (reqQueryStart reqChunkEnd reqQueryEnd : Nat) (chunkHitMask : List Bool)
    (topKIndices : List Nat) : Option BlendMetaData :=
  let chunks := slice metas.computeMask reqQueryStart reqChunkEnd
  if chunks.length % chunkHitMask.length ≠ 0 ∨ ∃ i ∈ topKIndices, chunks.length ≤ i then none
  else
    let width := chunks.length / chunkHitMask.length
    let chunks := chunks.mapIdx fun i v =>
      v || !(chunkHitMask[i / width]?.getD true) || topKIndices.contains i
    let computeMask := metas.computeMask.take reqQueryStart ++ chunks ++ metas.computeMask.drop reqChunkEnd
    some { metas with computeMask := fillTrue computeMask reqChunkEnd reqQueryEnd }

end BlendMetaData

/-- The places of a prompt, a row for each block. -/
def maskIdx (config : BlendSparseConfig Layer) : List (List Nat) :=
  (List.range ((config.maxModelLen + config.blockSize - 1) / config.blockSize)).map fun r =>
    (List.range config.blockSize).map fun c => r * config.blockSize + c

/-- `none` is a new request that has no data. -/
def buildSparseMeta [DecidableEq ReqId] (config : BlendSparseConfig Layer) (forwardMask : List Bool)
    (attnMetadata : AttnMetadata Slot) (numCachedReqs : Nat) (scheduledNewReqs : List ReqId)
    (requestMeta : Dict ReqId (BlendRequestDispatchMeta BlockId)) : Option (BlendState Slot) :=
  let metas := BlendMetaData.resetBlendMeta forwardMask attnMetadata numCachedReqs
  (scheduledNewReqs.zipIdx.foldlM (fun metas p => (requestMeta.get? p.1).bind fun dispatchMeta =>
      metas.addRequest p.2 dispatchMeta.chunksMeta attnMetadata.seqLens config.blockSize) metas).map
    fun metas => ⟨metas, attnMetadata⟩

section AttentionBegin

variable (config : BlendSparseConfig Layer) (topk : TopK)

/-- One round of the loop over the requests, and whether the batch needs an update. -/
def blendRequest (ratio : Nat → Int) (queryStartLoc : List Nat) (acc : BlendMetaData × Bool) (req : ReqMeta) :
    Option (BlendMetaData × Bool) := do
  let (metas, needUpdate) := acc
  let reqQueryStart ← queryStartLoc[req.reqIdx]?
  let reqQueryEnd ← queryStartLoc[req.reqIdx + 1]?
  if req.needBlend = false then
    some ({ metas with computeMask := fillTrue metas.computeMask reqQueryStart reqQueryEnd }, needUpdate)
  else
    let reqChunkEnd := reqQueryStart + req.chunksLen
    let candidateLen := req.chunkHitBlkLen * config.blockSize
    let topKNum := ratio candidateLen
    if topKNum < 0 ∨ (candidateLen : Int) < topKNum then none
    else
      let rows ← maskSelect ((maskIdx config).take req.chunksBlkLen) req.chunkHitMask
      let topKIndices ← (topk.indices req candidateLen topKNum.toNat).mapM fun i => rows.flatten[i]?
      let metas ← metas.updateReqComputeMask reqQueryStart reqChunkEnd reqQueryEnd req.chunkHitMask topKIndices
      some (metas.updateQueryLens req.reqIdx (candidateLen - topKNum.toNat), true)

def updateAttnMetadata (metas : BlendMetaData) (attnMetadata : AttnMetadata Slot) : Option (AttnMetadata Slot) :=
  (maskSelect attnMetadata.slotMapping metas.computeMask).map fun slotMapping =>
    { attnMetadata with
      slotMapping := slotMapping
      queryStartLoc := attnMetadata.queryStartLoc.take 1 ++ cumsum metas.queryLens
      maxQueryLen := metas.queryLens.foldl max 0
      numActualTokens := metas.queryLens.sum }

/-- The state after `attention_begin`, the input that the attention gets, and whether the batch was
reduced. `none` is an exception. -/
def attentionBegin (layer : Layer) (s : BlendState Slot) (input : AttnInput Row) :
    Option (BlendState Slot × AttnInput Row × Bool) :=
  match config.computeMeta layer with
  | none => some (s, input, false)
  | some ratio =>
    let metas := s.blendReqMetas.resetComputeMask
    (metas.requests.foldlM (blendRequest config topk ratio s.attnMetadata.queryStartLoc) (metas, false)).bind
      fun (metas, needUpdate) =>
    if needUpdate = false then some (⟨metas, s.attnMetadata⟩, input, false)
    else
      let metas := { metas with needReIndex := true }
      (updateAttnMetadata metas s.attnMetadata).bind fun attnMetadata =>
      (maskSelect input.query metas.computeMask).bind fun query =>
      (maskSelect input.key metas.computeMask).bind fun key =>
      (maskSelect input.value metas.computeMask).map fun value =>
        let output := input.output.map fun output => output.take (metas.computeMask.count true)
        (⟨metas, attnMetadata⟩, ⟨query, key, value, output⟩, true)

end AttentionBegin

def indexTensor (metas : BlendMetaData) (rows : List Row) : Option (List Row) :=
  if metas.needReIndex then maskSelect rows metas.computeMask else some rows

/-- The positions are reduced where the hidden states already are. -/
def layerBegin (metas : BlendMetaData) (positions : List Nat) (hiddenStates : List Row) : Option (List Nat) :=
  if positions.length ≠ hiddenStates.length then indexTensor metas positions else some positions

end UnifiedCache.Sparse.Blend
