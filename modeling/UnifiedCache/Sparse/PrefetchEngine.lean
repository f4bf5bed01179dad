import UnifiedCache.Lib.StepSystem
import UnifiedCache.Lib.InverseMaps

/-! The GSA prefetch engine: the residency maps of each request and layer, the free blocks and the
reported blocks of each place in the batch, and the loads that move blocks between indexes. -/

namespace UnifiedCache.Sparse.GSAPrefetch

/-- `mDocsTables` and `mBlocksMap` of one request and layer. -/
structure LayerMaps where
  docs : Std.TreeMap Int Int
  blocks : Std.TreeMap Int Int

/-- `mAllBlcoksHash` and `mPromptLen` of a request that `SetBlocksMap` never saw are the values that
`operator[]` gives them, no hash and `0`. -/
structure RequestMaps (Hash : Type) (layers : Nat) where
  maps : Fin layers → LayerMaps
  allBlocksHash : List Hash
  promptLen : Int

/-- What the tensors hold for one layer and place in the batch: the blocks of `mFreeBlock` up to
`mFreeBlockLen`, what was written to `mLoadSuccessBlocks`, and `mSuccessTableLen`. `asked` are the
indexes that the reported blocks are for. -/
structure Row where
  freeBlock : List Int
  loadSuccess : List Int
  successTableLen : Nat
  asked : List Int

def Row.reported (row : Row) : List Int := row.loadSuccess.take row.successTableLen

/-- What becomes of one load: the request is found in `mDelSeqIds`, `Wait` returns an error and
leaves `left` in the block, or the block is read. `stray` is what an index without a hash reads. -/
inductive Load (Kv : Type) where
  | stop
  | fail (left : Kv)
  | ok (stray : Kv)

structure Hits where
  hitBlocks : Finset Int
  hitBlocksIdx : Std.TreeMap Int Int
  missIdxs : List Int

namespace LayerMaps

variable (m : LayerMaps)

def empty : LayerMaps := ⟨∅, ∅⟩

def put (idx blockID : Int) : LayerMaps where
  docs := m.docs.insert idx blockID
  blocks := m.blocks.insert blockID idx

def ofPairs (pairs : List (Int × Int)) : LayerMaps :=
  pairs.foldl (fun m p => m.put p.1 p.2) empty

/-- The end of a pass of `LoadKVToHBM`, with `operator[]` where the block has no index. -/
def reassign (blockID missIdx : Int) : LayerMaps :=
  let oriIdx := m.blocks.getD blockID 0
  { docs := (m.docs.erase oriIdx).insert missIdx blockID, blocks := m.blocks.insert blockID missIdx }

end LayerMaps

namespace Hits

def empty : Hits := ⟨∅, ∅, []⟩

def hit (h : Hits) (idx blockID : Int) : Hits :=
  { h with hitBlocks := insert blockID h.hitBlocks, hitBlocksIdx := h.hitBlocksIdx.insertIfNew idx blockID }

end Hits

/-- The classification of one index in `GetHitAndMissBlock`. -/
def classify (docs : Std.TreeMap Int Int) (h : Hits) (item : Int) : Hits :=
  match docs[item]? with
  | some blockID => h.hit item blockID
  | none => { h with missIdxs := h.missIdxs ++ [item] }

/-- `limit` is `topkLen - mExtraTopkLen`. -/
def getHitAndMissBlock (docs : Std.TreeMap Int Int) (limit : Nat) : List Int → Hits → Hits
  | [], h => h
  | item :: topk, h =>
    let h' := classify docs h item
    if docs.contains item ∧ h'.hitBlocks.card = limit then h'
    else getHitAndMissBlock docs limit topk h'

/-- The loop of `RunPrefetchH2D`: the free blocks to load into, each with its missed index. -/
def pickFree (limit : Nat) : List Int → List Int → Hits → List (Int × Int) × Hits
  | free :: frees, missIdx :: missIdxs, h =>
    if h.hitBlocks.card < limit then
      if free ∈ h.hitBlocks then pickFree limit frees (missIdx :: missIdxs) h
      else
        let picked := pickFree limit frees missIdxs (h.hit missIdx free)
        ((free, missIdx) :: picked.1, picked.2)
    else ([], h)
  | _, _, h => ([], h)

/-- The loads of one batch from its `k`-th on. `kvOf` is what the store holds for an index. -/
def loadKVToHBM {Kv : Type} (isPythonLoad : Bool) (kvOf : Int → Option Kv) (loads : Nat → Load Kv) :
    List (Int × Int) → Nat → LayerMaps → (Int → Kv) → LayerMaps × (Int → Kv)
  | [], _, m, hbm => (m, hbm)
  | (blockID, missIdx) :: batch, k, m, hbm =>
    if isPythonLoad then loadKVToHBM isPythonLoad kvOf loads batch (k + 1) (m.reassign blockID missIdx) hbm
    else match loads k with
      | .stop => (m, hbm)
      | .fail left => (m, Function.update hbm blockID left)
      | .ok stray => loadKVToHBM isPythonLoad kvOf loads batch (k + 1) (m.reassign blockID missIdx)
          (Function.update hbm blockID ((kvOf missIdx).getD stray))

/-- The free blocks that `RunOneBsPrefetch` writes at its end. -/
def freeList (docs : Std.TreeMap Int Int) (promptLen : Int) (hitBlocksIdx : Std.TreeMap Int Int) : List Int :=
  ((docs.toList.takeWhile fun p => p.1 < promptLen).filter fun p => !hitBlocksIdx.contains p.1).map Prod.snd

/-- The hits of a top-k list, with the batch of loads and the hits that it adds. -/
def prefetchBatch (docs : Std.TreeMap Int Int) (limit : Nat) (topk freeBlock : List Int) :
    List (Int × Int) × Hits :=
  let h := getHitAndMissBlock docs limit topk Hits.empty
  if h.missIdxs ≠ [] ∧ h.hitBlocksIdx.size < limit then pickFree limit freeBlock h.missIdxs h
  else ([], h)

structure LayerRun (Kv : Type) where
  maps : LayerMaps
  row : Row
  hbm : Int → Kv

/-- `RunOneBsPrefetch` for one layer. -/
def runLayer {Kv : Type} (isPythonLoad : Bool) (kvOf : Int → Option Kv) (promptLen : Int) (limit : Nat)
    (topk : List Int) (loads : Nat → Load Kv) (m : LayerMaps) (freeBlock : List Int) (hbm : Int → Kv) :
    LayerRun Kv :=
  let (batch, h) := prefetchBatch m.docs limit topk freeBlock
  let (m, hbm) := loadKVToHBM isPythonLoad kvOf loads batch 0 m hbm
  { maps := m
    row := {
      freeBlock := freeList m.docs promptLen h.hitBlocksIdx
      loadSuccess := h.hitBlocksIdx.toList.map Prod.snd
      successTableLen := h.hitBlocks.card
      asked := topk }
    hbm := hbm }

/-- The engine over `layers` layers. `hbm` is what the blocks of each layer hold, and `slotOf` the
place in the batch that a request has had since its maps were set. -/
structure GSAPrefetchEngine (ReqId Hash Kv : Type) (layers : Nat) where
  requests : ReqId → Option (RequestMaps Hash layers)
  rows : Fin layers → Nat → Row
  delSeqIds : Finset ReqId
  isPrefetchDone : Bool
  hbm : Fin layers → Int → Kv
  slotOf : ReqId → Option Nat

/-- The calls of `GSAPrefetchBase` with what it writes to the tensors beside them, the steps of the
prefetch thread, and a write to a block by the model. -/
inductive PrefetchEvent (ReqId Hash Kv : Type) (layers : Nat) where
  | setBlocksMap (reqId : ReqId) (bsIndex : Nat) (blockTableList : List Int) (prefetchIdx remainIdx : List Nat)
      (blocksHash : List Hash) (maxIdx : Int)
  | setBlocksMapMultiLayer (reqId : ReqId) (bsIndex : Nat) (remainMap prefetchMap : Fin layers → Std.TreeMap Int Int)
      (remainBlocks prefetchBlocks : Fin layers → List Int) (blocksHash : List Hash) (maxIdx : Int)
  | addBlocksMap (reqId : ReqId) (idx blockID : Int)
  | delBlocksMap (reqId : ReqId)
  | runAsyncPrefetchBs
  | runOneBsPrefetch (reqId : ReqId) (topkLen bsIndex : Nat) (topk : Fin layers → List Int)
      (loads : Fin layers → Nat → Load Kv)
  | delReqIDRun
  | setPrefetchStatus
  | write (layer : Fin layers) (blockID : Int) (kv : Kv)

structure PrefetchConfig where
  extraTopkLen : Nat
  isPythonLoad : Bool

/-- `topkLen - mExtraTopkLen` on 32 bits without a sign. -/
def PrefetchConfig.limit (cfg : PrefetchConfig) (topkLen : Nat) : Nat :=
  if cfg.extraTopkLen ≤ topkLen then topkLen - cfg.extraTopkLen else topkLen + 2 ^ 32 - cfg.extraTopkLen

def hashAt {Hash : Type} (hashes : List Hash) (idx : Int) : Option Hash :=
  if 0 ≤ idx then hashes[idx.toNat]? else none

namespace GSAPrefetchEngine

variable {ReqId Hash Kv : Type} [DecidableEq ReqId] {layers : Nat}

/-- `stored` is what the store holds for a block and layer. -/
def kvOf (stored : Hash → Fin layers → Kv) (req : RequestMaps Hash layers) (layer : Fin layers) (idx : Int) : Option Kv :=
  (hashAt req.allBlocksHash idx).map fun h => stored h layer

variable (s : GSAPrefetchEngine ReqId Hash Kv layers)

def init (hbm : Fin layers → Int → Kv) : GSAPrefetchEngine ReqId Hash Kv layers where
  requests := fun _ => none
  rows := fun _ _ => ⟨[], [], 0, []⟩
  delSeqIds := ∅
  isPrefetchDone := true
  hbm := hbm
  slotOf := fun _ => none

/-- Both forms of `SetBlocksMap`, with the row that `_first_topk_deal` writes: the blocks of `remain`
as reported and those of `prefetch` as free. -/
def setMaps (reqId : ReqId) (bsIndex : Nat) (pairs : Fin layers → List (Int × Int)) (row : Fin layers → Row)
    (blocksHash : List Hash) (maxIdx : Int) : GSAPrefetchEngine ReqId Hash Kv layers :=
  { s with
    requests := Function.update s.requests reqId
      (some { maps := fun i => LayerMaps.ofPairs (pairs i), allBlocksHash := blocksHash, promptLen := maxIdx })
    rows := fun i => Function.update (s.rows i) bsIndex (row i)
    slotOf := Function.update s.slotOf reqId (some bsIndex) }

def addBlocksMap (reqId : ReqId) (idx blockID : Int) : GSAPrefetchEngine ReqId Hash Kv layers :=
  let req := match s.requests reqId with
    | none => { maps := fun _ => LayerMaps.empty.put idx blockID, allBlocksHash := [], promptLen := 0 }
    | some req => { req with maps := fun i => (req.maps i).put idx blockID }
  { s with requests := Function.update s.requests reqId (some req) }

def delReqIDRun : GSAPrefetchEngine ReqId Hash Kv layers :=
  { s with
    requests := fun r => if r ∈ s.delSeqIds then none else s.requests r
    slotOf := fun r => if r ∈ s.delSeqIds then none else s.slotOf r
    delSeqIds := ∅ }

def delBlocksMap (reqId : ReqId) : GSAPrefetchEngine ReqId Hash Kv layers :=
  let s := { s with delSeqIds := insert reqId s.delSeqIds }
  if s.isPrefetchDone then s.delReqIDRun else s

/-- One pass of the loop of `CallPrefetchProcessFun`, whose layers do not touch each other's data. -/
def runOneBsPrefetch (cfg : PrefetchConfig) (stored : Hash → Fin layers → Kv) (reqId : ReqId) (topkLen bsIndex : Nat)
    (topk : Fin layers → List Int) (loads : Fin layers → Nat → Load Kv) : GSAPrefetchEngine ReqId Hash Kv layers :=
  match s.requests reqId with
  | none => s
  | some req =>
    if topkLen = 0 then s
    else
      let runs := fun i => runLayer cfg.isPythonLoad (kvOf stored req i) req.promptLen (cfg.limit topkLen) (topk i) (loads i)
        (req.maps i) (s.rows i bsIndex).freeBlock (s.hbm i)
      { s with
        requests := Function.update s.requests reqId (some { req with maps := fun i => (runs i).maps })
        rows := fun i => Function.update (s.rows i) bsIndex (runs i).row
        hbm := fun i => (runs i).hbm }

def step (cfg : PrefetchConfig) (stored : Hash → Fin layers → Kv) (s : GSAPrefetchEngine ReqId Hash Kv layers) :
    PrefetchEvent ReqId Hash Kv layers → Option (GSAPrefetchEngine ReqId Hash Kv layers)
  | .setBlocksMap reqId bsIndex blockTableList prefetchIdx remainIdx blocksHash maxIdx =>
    let block := fun idx : Nat => blockTableList.getD idx 0
    let row : Row := {
      freeBlock := prefetchIdx.map block
      loadSuccess := remainIdx.map block
      successTableLen := remainIdx.length
      asked := remainIdx.map Int.ofNat }
    some (s.setMaps reqId bsIndex (fun _ => (prefetchIdx ++ remainIdx).map fun idx => (Int.ofNat idx, block idx)) (fun _ => row)
      blocksHash maxIdx)
  | .setBlocksMapMultiLayer reqId bsIndex remainMap prefetchMap remainBlocks prefetchBlocks blocksHash maxIdx =>
    let row := fun i => {
      freeBlock := prefetchBlocks i
      loadSuccess := remainBlocks i
      successTableLen := (remainBlocks i).length
      asked := (remainMap i).keys : Row }
    some (s.setMaps reqId bsIndex (fun i => (remainMap i).toList ++ (prefetchMap i).toList) row blocksHash maxIdx)
  | .addBlocksMap reqId idx blockID => some (s.addBlocksMap reqId idx blockID)
  | .delBlocksMap reqId => some (s.delBlocksMap reqId)
  | .runAsyncPrefetchBs => if s.isPrefetchDone then some { s with isPrefetchDone := false } else none
  | .runOneBsPrefetch reqId topkLen bsIndex topk loads =>
    if s.isPrefetchDone then none else some (s.runOneBsPrefetch cfg stored reqId topkLen bsIndex topk loads)
  | .delReqIDRun => if s.isPrefetchDone then none else some s.delReqIDRun
  | .setPrefetchStatus => some { s with isPrefetchDone := true }
  | .write layer blockID kv =>
    some { s with hbm := Function.update s.hbm layer (Function.update (s.hbm layer) blockID kv) }

end GSAPrefetchEngine

end UnifiedCache.Sparse.GSAPrefetch
