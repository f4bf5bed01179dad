import UnifiedCache.Connector.Schedule

/-! The blend connector, which loads the blocks of a prompt that are found as a prefix, and beyond
them the blocks that are found as parts of text chunks. -/

namespace UnifiedCache.Connector.Blend

variable {Token BlockId ReqId : Type*}

structure ChunkMetaData (BlockId : Type*) where
  startTokenDix : Int
  chunkTokensLen : Int
  startBlkIdx : Int
  chunkBlksLen : Int
  cachedStartPosition : Int
  vllmBlkIds : List Nat
  chunkBlksHash : List BlockId
  storeHits : List Bool

namespace ChunkMetaData

variable (chunk : ChunkMetaData BlockId)

def endBlkIdx : Int := chunk.startBlkIdx + chunk.chunkBlksLen

def hitsVllmBlkIds : List Nat := compress chunk.vllmBlkIds chunk.storeHits

def hitsChunkBlksHash : List BlockId := compress chunk.chunkBlksHash chunk.storeHits

def updateMetaPartialPc (numPcPartBlks blockSize : Nat) : ChunkMetaData BlockId :=
  if 0 < numPcPartBlks then
    { chunk with
      startTokenDix := chunk.startTokenDix + numPcPartBlks * blockSize
      chunkTokensLen := chunk.chunkTokensLen - numPcPartBlks * blockSize
      startBlkIdx := chunk.startBlkIdx + numPcPartBlks
      chunkBlksLen := chunk.chunkBlksLen - numPcPartBlks
      chunkBlksHash := chunk.chunkBlksHash.drop numPcPartBlks
      storeHits := chunk.storeHits.drop numPcPartBlks
      cachedStartPosition := chunk.cachedStartPosition + numPcPartBlks * blockSize }
  else chunk

def setStoreHits (chunkLookupResults : List Bool) : ChunkMetaData BlockId :=
  { chunk with storeHits := intSlice chunkLookupResults chunk.startBlkIdx chunk.endBlkIdx }

def setVllmBlkIds (vllmBlockIds : List Nat) : ChunkMetaData BlockId :=
  { chunk with vllmBlkIds := intSlice vllmBlockIds chunk.startBlkIdx chunk.endBlkIdx }

end ChunkMetaData

inductive BlendStage where
  | buildChunkCache
  | buildPrefixCache
  | cacheBlend
  deriving DecidableEq

structure BlendRequestMeta (BlockId : Type*) where
  ucmBlockHashs : List BlockId
  pcHitBlockNum : Nat
  chunksMeta : List (ChunkMetaData BlockId)
  blendStage : BlendStage

structure BlendRequestDispatchMeta (BlockId : Type*) extends RequestDispatchMeta BlockId where
  chunksMeta : List (ChunkMetaData BlockId)

structure BlendConfig (Token BlockId : Type*) extends Config Token BlockId where
  chunkEndTokenId : Token

def minBlendThreshold : Nat := 16

section ProcessReq

variable [DecidableEq Token] (config : BlendConfig Token BlockId) (allTokenIds : List Token)

/-- The loop over the last tokens of the blocks, with the chunks and their hashes. -/
def splitChunks : (startBlkIdx startTokenDix : Nat) → (ends : List (Nat × Nat)) →
    List (ChunkMetaData BlockId) × List BlockId
  | _, _, [] => ([], [])
  | startBlkIdx, startTokenDix, (endBlkIdx, endTokenIdx) :: ends =>
    if allTokenIds[endTokenIdx]? = some config.chunkEndTokenId then
      let chunkTokenIds := slice allTokenIds startTokenDix (endTokenIdx + 1)
      let chunkBlksHash := generateHash config.toConfig chunkTokenIds config.seed
      let chunkBlksLen : Int := endBlkIdx - startBlkIdx + 1
      let ragChunkMeta : ChunkMetaData BlockId :=
        { startTokenDix := startTokenDix
          chunkTokensLen := chunkBlksLen * config.blockSize
          startBlkIdx := startBlkIdx
          chunkBlksLen := chunkBlksLen
          cachedStartPosition := 0
          vllmBlkIds := []
          chunkBlksHash := chunkBlksHash
          storeHits := [] }
      let (chunksMeta, reqChunksHashes) := splitChunks (endBlkIdx + 1) (endTokenIdx + 1) ends
      (ragChunkMeta :: chunksMeta, chunkBlksHash ++ reqChunksHashes)
    else splitChunks startBlkIdx startTokenDix ends

/-- `enumerate(range(block_size - 1, len(all_token_ids), block_size))`. -/
def blockEnds : List (Nat × Nat) :=
  (List.range ((allTokenIds.length - (config.blockSize - 1) + config.blockSize - 1) / config.blockSize)).map fun i =>
    (i, config.blockSize - 1 + i * config.blockSize)

def processReq : BlendStage × List BlockId × List (ChunkMetaData BlockId) × List BlockId :=
  let prefixBlockHashes := generateHash config.toConfig allTokenIds config.seed
  if allTokenIds.getLast? = some config.chunkEndTokenId ∧ allTokenIds.length % config.blockSize = 0 then
    (.buildChunkCache, prefixBlockHashes, [], [])
  else
    let (chunksMeta, reqChunksHashes) := splitChunks config allTokenIds 0 0 (blockEnds config allTokenIds)
    if chunksMeta.isEmpty then (.buildPrefixCache, prefixBlockHashes, chunksMeta, reqChunksHashes)
    else (.cacheBlend, prefixBlockHashes, chunksMeta, reqChunksHashes)

end ProcessReq

section Matched

def firstHits (results : List Bool) : Nat := (results.takeWhile (· = true)).length

variable (blockSize : Nat) (pcLookup chunkLookup : Lookup BlockId)

/-- The prefix hits are taken off the first chunk, which is dropped when they are all of it. -/
def updateFirstChunk (pcHitBlocks : Nat) : List (ChunkMetaData BlockId) → List (ChunkMetaData BlockId)
  | [] => []
  | firstChunkMeta :: reqChunksMeta =>
    let firstChunkMeta := firstChunkMeta.updateMetaPartialPc pcHitBlocks blockSize
    if firstChunkMeta.chunkTokensLen = 0 then reqChunksMeta else firstChunkMeta :: reqChunksMeta

/-- The prefix hits, the chunk hits and the chunks with their hits. `none` is a `RuntimeError`. -/
def getReqChunkHit (reqStage : BlendStage) (prefixBlockHashes : List BlockId)
    (reqChunksMeta : List (ChunkMetaData BlockId)) (reqChunksHashes : List BlockId) :
    Option (Nat × Nat × List (ChunkMetaData BlockId)) :=
  (pcLookup prefixBlockHashes).bind fun pcLookupResults =>
    let pcHitBlocks := firstHits pcLookupResults.val
    if reqStage ≠ .cacheBlend then some (pcHitBlocks, 0, reqChunksMeta)
    else
      (chunkLookup (reqChunksHashes.drop pcHitBlocks)).map fun chunkLookupResults =>
        let chunkHitBlocks := chunkLookupResults.val.count true
        let chunkLookupResults := pcLookupResults.val.take pcHitBlocks ++ chunkLookupResults.val
        let reqChunksMeta := reqChunksMeta.map fun chunkMeta => chunkMeta.setStoreHits chunkLookupResults
        (pcHitBlocks, chunkHitBlocks, updateFirstChunk blockSize pcHitBlocks reqChunksMeta)

variable [DecidableEq Token] [DecidableEq ReqId] (config : BlendConfig Token BlockId)
  (requestsBlendMeta : Dict ReqId (BlendRequestMeta BlockId)) (request : Request Token ReqId) (numComputedTokens : Nat)

/-- `none` is the failed assertion, or a `RuntimeError` of a lookup. -/
def getNumNewMatchedTokens : Option (Int × Dict ReqId (BlendRequestMeta BlockId)) :=
  if numComputedTokens ≠ 0 then none
  else
    let maxBlkNum := request.allTokenIds.length / config.blockSize
    if maxBlkNum = 0 then some (0, requestsBlendMeta)
    else
      let (reqStage, prefixBlockHashes, reqChunksMeta, reqChunksHashes) := processReq config request.allTokenIds
      (getReqChunkHit config.blockSize pcLookup chunkLookup reqStage prefixBlockHashes reqChunksMeta
          reqChunksHashes).map fun (pcHitBlocks, chunkHitBlocks, reqChunksMeta) =>
        let (reqStage, reqChunksMeta) :=
          if chunkHitBlocks < minBlendThreshold then (.buildPrefixCache, []) else (reqStage, reqChunksMeta)
        let reqBlockHashes := if reqStage = .cacheBlend then reqChunksHashes else prefixBlockHashes
        let pcHitTokens : Int := pcHitBlocks * config.blockSize
        let pcHitTokens := if pcHitTokens = request.allTokenIds.length then pcHitTokens - 1 else pcHitTokens
        (pcHitTokens, requestsBlendMeta.set request.requestId
          { ucmBlockHashs := reqBlockHashes
            pcHitBlockNum := pcHitBlocks
            chunksMeta := reqChunksMeta
            blendStage := reqStage })

end Matched

/-- The dispatched data and, as the chunks are shared with it, the data that is kept. -/
def generateBlendDispatchMeta (reqMeta : BlendRequestMeta BlockId) (vllmBlockIds : List Nat) :
    BlendRequestDispatchMeta BlockId × BlendRequestMeta BlockId :=
  let pcHitBlockNum := reqMeta.pcHitBlockNum
  let ucmBlockHashs := reqMeta.ucmBlockHashs
  let loadUcmBlockIds := ucmBlockHashs.take pcHitBlockNum
  let loadVllmBlockIds := vllmBlockIds.take pcHitBlockNum
  if reqMeta.blendStage = .cacheBlend then
    let chunksMeta := reqMeta.chunksMeta.map fun chunkMeta => chunkMeta.setVllmBlkIds vllmBlockIds
    (⟨⟨(loadUcmBlockIds ++ chunksMeta.flatMap ChunkMetaData.hitsChunkBlksHash,
          loadVllmBlockIds ++ chunksMeta.flatMap ChunkMetaData.hitsVllmBlkIds), ([], [])⟩, chunksMeta⟩,
      { reqMeta with chunksMeta := chunksMeta })
  else
    (⟨⟨(loadUcmBlockIds, loadVllmBlockIds),
        (ucmBlockHashs.drop pcHitBlockNum, slice vllmBlockIds pcHitBlockNum ucmBlockHashs.length)⟩,
        reqMeta.chunksMeta⟩, reqMeta)

section Build

variable [DecidableEq ReqId] (out : SchedulerOutput ReqId)

abbrev Built (BlockId ReqId : Type*) :=
  Dict ReqId (BlendRequestDispatchMeta BlockId) × Dict ReqId (BlendRequestMeta BlockId)

def dispatchRequest (built : Built BlockId ReqId) (reqId : ReqId) (vllmBlockIds : List Nat) : Built BlockId ReqId :=
  match built.2.get? reqId with
  | none => built
  | some reqMeta =>
    let dispatched := generateBlendDispatchMeta reqMeta vllmBlockIds
    (built.1.set reqId dispatched.1, built.2.set reqId dispatched.2)

/-- A request with one token is taken as decoding. `none` is a request without new blocks. -/
def dispatchCached (built : Built BlockId ReqId) (request : CachedRequest ReqId) : Option (Built BlockId ReqId) :=
  if out.numScheduledTokens request.reqId = 1 then some built
  else if (built.2.get? request.reqId).isNone then some built
  else request.newBlockIds.map (dispatchRequest built request.reqId)

def buildConnectorMeta (requestsBlendMeta : Dict ReqId (BlendRequestMeta BlockId)) : Option (Built BlockId ReqId) :=
  out.scheduledCachedReqs.foldlM (dispatchCached out)
    (out.scheduledNewReqs.foldl (fun built request => dispatchRequest built request.reqId request.blockIds)
      (Dict.empty, requestsBlendMeta))

end Build

end UnifiedCache.Connector.Blend
