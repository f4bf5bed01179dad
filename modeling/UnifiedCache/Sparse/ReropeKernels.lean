import UnifiedCache.Lib.GridStores
import UnifiedCache.Lib.OnlineSoftmax
import UnifiedCache.Lib.WhileLoop

/-! The attention kernels of Rerope, as they run over the tokens of a batch, the heads and the segments
of a sequence, and the plain attention that they are for. Numbers are exact, a masked score is `⊥`.
The entries of a tensor are found by its strides, as the kernels find them. -/

namespace UnifiedCache.Sparse.Rerope

def cdivFn (x y : Nat) : Nat := (x + y - 1) / y

/-- The last of the sequences that begin at the target or before it, nothing where there is none. -/
def findSeqIdx (queryStartLen : Nat → Nat) (targetIdx numSeqs blockQ : Nat) (useQBlockMode : Bool) : Option Nat :=
  (whileLoop (fun s => some (decide (s.1 < s.2)))
    (fun s =>
      let mid := (s.1 + s.2) / 2
      let val := queryStartLen mid
      let midVal := if useQBlockMode then val / blockQ + mid else val
      some (if midVal ≤ targetIdx then (mid + 1, s.2) else (s.1, mid)))
    (numSeqs + 1) (0, numSeqs)).bind fun s => s.1.ppred

/-- `[num_tokens, num_query_heads, head_size]`, with neighbours in the last dimension side by side. -/
structure Query (K : Type*) where
  data : Nat → K
  stride0 : Nat
  stride1 : Nat
  fp8 : Bool

structure Strides where
  stride0 : Nat
  stride1 : Nat
  stride2 : Nat
  stride3 : Nat

/-- `[num_blks, blk_size, num_kv_heads, head_size]`. -/
structure Cache (K : Type*) where
  data : Nat → K
  strides : Strides
  fp8 : Bool

def Query.load {K : Type*} (q : Query K) (token head d : Nat) : K :=
  q.data (token * q.stride0 + head * q.stride1 + d)

def Cache.load {K : Type*} (c : Cache K) (block slot head d : Nat) : K :=
  c.data (block * c.strides.stride0 + head * c.strides.stride2 + d * c.strides.stride3 + slot * c.strides.stride1)

/-- What `unified_attention_rerope` is called with. The shapes are those of `q`, `k` and `v`. -/
structure Args (K : Type*) where
  q : Query K
  k : Cache K
  q2 : Query K
  k2 : Cache K
  v : Cache K
  outStride0 : Nat
  outStride1 : Nat
  numTokens : Nat
  numQueryHeads : Nat
  numKvHeads : Nat
  headSize : Nat
  blockSize : Nat
  elementSize : Nat
  cuSeqlensQ : Nat → Nat
  maxSeqlenQ : Nat
  sequsedK : Nat → Nat
  numSeqs : Nat
  softmaxScale : K
  causal : Bool
  reropeWindow : Int
  windowSize : Int
  blockTable : Nat → Nat
  blockTableStride : Nat
  softcap : K
  qDescale : Option K
  kDescale : K
  vDescale : K
  alibiSlopes : Option (Nat → K)

def blockM : Nat := 16

def numSegments : Nat := 16

namespace Args

variable {K : Type*} (a : Args K)

def numQueriesPerKv : Nat := a.numQueryHeads / a.numKvHeads

def blockQ : Nat := blockM / a.numQueriesPerKv

def totalNumQBlocks : Nat := a.numTokens / a.blockQ + a.numSeqs

/-- `triton.next_power_of_2(head_size)`. -/
def headSizePadded : Nat := 2 ^ Nat.clog 2 a.headSize

def slidingWindow : Int := 1 + a.windowSize

/-- The assertions, and the divisions by zero on the way to the launch. -/
def check : Except String Unit :=
  if !a.causal then .error "Only causal attention is supported"
  else if a.qDescale.isSome then .error "Q scales not supported"
  else if ¬(2 ≤ a.elementSize ∨ 32 ≤ a.blockSize) then .error "Block size must be at least 32 for fp8"
  else if a.numKvHeads = 0 ∨ a.numQueriesPerKv = 0 ∨ a.blockQ = 0 then .error "integer division or modulo by zero"
  else .ok ()

def outOffset (token head d : Nat) : Nat := token * a.outStride0 + head * a.outStride1 + d

def segmOffset (token head segm : Nat) : Nat := token * (a.numQueryHeads * numSegments) + head * numSegments + segm

def segmOutputOffset (token head segm d : Nat) : Nat :=
  token * (a.numQueryHeads * numSegments * a.headSizePadded) + head * (numSegments * a.headSizePadded) +
    segm * a.headSizePadded + d

def blocksPerSegment (seqIdx : Nat) : Nat := cdivFn (a.sequsedK seqIdx) (numSegments * a.blockSize)

end Args

/-- Where a program of the kernels finds itself. -/
structure Place where
  seqIdx : Nat
  qBlockLocalIdx : Nat
  startIndex : Nat
  queryLen : Nat

def Args.place {K : Type*} (a : Args K) (qBlockGlobalIdx : Nat) : Option Place :=
  (findSeqIdx a.cuSeqlensQ qBlockGlobalIdx a.numSeqs a.blockQ true).map fun seqIdx =>
    { seqIdx := seqIdx
      qBlockLocalIdx := qBlockGlobalIdx - (a.cuSeqlensQ seqIdx / a.blockQ + seqIdx)
      startIndex := a.cuSeqlensQ seqIdx
      queryLen := a.cuSeqlensQ (seqIdx + 1) - a.cuSeqlensQ seqIdx }

/-- A row of the tile of a program: a token, by its number in its sequence and in the batch, and a head. -/
structure Row where
  seqIdx : Nat
  queryLen : Nat
  queryPos : Nat
  token : Nat
  kvHeadIdx : Nat
  head : Nat

def Place.row {K : Type*} (p : Place) (a : Args K) (kvHeadIdx offsM : Nat) : Row :=
  let queryPos := p.qBlockLocalIdx * a.blockQ + offsM / a.numQueriesPerKv
  { seqIdx := p.seqIdx
    queryLen := p.queryLen
    queryPos := queryPos
    token := p.startIndex + queryPos
    kvHeadIdx := kvHeadIdx
    head := kvHeadIdx * a.numQueriesPerKv + offsM % a.numQueriesPerKv }

/-- The running values of a row: `M`, `L` and `acc`. -/
structure Acc (K : Type*) where
  max : WithBot K
  sum : K
  acc : Nat → K

section Rows

variable {K : Type*} [Field K] [LinearOrder K] (e : Exponential K) (a : Args K)

def applySoftcap (S x : K) : K :=
  let Sdiv := S / x
  let p1 := e.exp Sdiv
  let p2 := e.exp (-Sdiv)
  x * (p1 - p2) / (p1 + p2)

/-- A number of the cache, scaled if it is in fp8 and what it meets is not. -/
def dequant (cacheFp8 queryFp8 : Bool) (scale x : K) : K :=
  if cacheFp8 then if queryFp8 then x else x * scale else x

namespace Row

variable (r : Row)

/-- `query_mask_0` and `query_mask_1`. -/
def QueryMask : Prop := r.queryPos < r.queryLen ∧ r.head < a.numQueryHeads

instance : Decidable (r.QueryMask a) := inferInstanceAs (Decidable (_ ∧ _))

def contextLen : Int := a.sequsedK r.seqIdx - r.queryLen

def loadQuery (q : Query K) (d : Nat) : K :=
  if d < a.headSize ∧ r.QueryMask a then q.load r.token r.head d else 0

def loadCache (c : Cache K) (j n d : Nat) : K :=
  if d < a.headSize then c.load (a.blockTable (r.seqIdx * a.blockTableStride + j)) n r.kvHeadIdx d else 0

/-- `tl.dot` of a row of `Q` and a column of `K`. -/
def dot (q : Query K) (k : Cache K) (j n : Nat) : K :=
  ∑ d ∈ Finset.range a.headSizePadded,
    r.loadQuery a q d * dequant k.fp8 q.fp8 a.kDescale (r.loadCache a k j n d)

/-- An entry of `S`, for the slot `n` of the block `j`. -/
def score (j n : Nat) : WithBot K :=
  let seqOffset : Int := (j * a.blockSize + n : Nat)
  let S1 := 0 + a.softmaxScale * r.dot a a.q a.k j n
  let S2 := 0 + a.softmaxScale * r.dot a a.q2 a.k2 j n
  let queryPosRerope := r.contextLen a + r.queryPos + 1
  let S1 := if 0 < a.softcap then applySoftcap e S1 a.softcap else S1
  let S2 := if 0 < a.softcap then applySoftcap e S2 a.softcap else S2
  let S := if |queryPosRerope - seqOffset| < a.reropeWindow ∧ r.queryPos < r.queryLen then S1 else S2
  let S : WithBot K := if r.QueryMask a ∧ seqOffset < r.contextLen a + r.queryPos + 1 then (S : WithBot K) else ⊥
  let S := if 0 < a.slidingWindow then
      if r.contextLen a + r.queryPos - seqOffset < a.slidingWindow then S else ⊥
    else S
  match a.alibiSlopes with
  | none => S
  | some alibiSlopes =>
    let alibiSlope := if r.head < a.numQueryHeads then alibiSlopes r.head else 0
    S + ((alibiSlope * ((seqOffset - r.contextLen a : Int) : K) : K) : WithBot K)

/-- The maximum is set to zero where all is masked. -/
def nextMax (st : Acc K) (j : Nat) : K := (st.max ⊔ (Finset.range a.blockSize).sup (r.score e a j)).unbotD 0

/-- A turn of the loop over the blocks. -/
def tile (st : Acc K) (j : Nat) : Acc K :=
  let mj := r.nextMax e a st j
  let P := fun n => e.weight mj (r.score e a j n)
  let alpha := e.weight mj st.max
  { max := mj
    sum := st.sum * alpha + ∑ n ∈ Finset.range a.blockSize, P n
    acc := fun d => st.acc d * alpha +
      ∑ n ∈ Finset.range a.blockSize, P n * dequant a.v.fp8 a.q.fp8 a.vDescale (r.loadCache a a.v j n d) }

/-- The loop over the blocks from `first` on and before `last`. -/
def loop (first last : Nat) : Acc K :=
  (List.range' first (last - first)).foldl (r.tile e a) ⟨⊥, 1, fun _ => 0⟩

end Row

/-- The buffers `segm_output`, `segm_max` and `segm_expsum`. -/
structure Segms (K : Type*) where
  output : Nat → K
  max : Nat → WithBot K
  expsum : Nat → K

/-- The running values of a row for a segment. -/
def Row.segment (r : Row) (segmIdx : Nat) : Acc K :=
  let blocksPerSegment := a.blocksPerSegment r.seqIdx
  r.loop e a (segmIdx * blocksPerSegment)
    (min ((segmIdx + 1) * blocksPerSegment) (cdivFn (a.sequsedK r.seqIdx) a.blockSize))

end Rows

section Launch

variable {K : Type*} [Field K] [LinearOrder K] (e : Exponential K) (a : Args K)

end Launch

/-- What callers keep to. The tokens of the batch are those of its sequences one after another, and the
entries of `out` are apart. -/
structure Args.Batch {K : Type*} (a : Args K) : Prop where
  start : a.cuSeqlensQ 0 = 0
  mono : ∀ i < a.numSeqs, a.cuSeqlensQ i ≤ a.cuSeqlensQ (i + 1)
  tokens : a.cuSeqlensQ a.numSeqs = a.numTokens
  seqLen : ∀ i < a.numSeqs, a.cuSeqlensQ (i + 1) - a.cuSeqlensQ i ≤ a.sequsedK i
  heads : a.numKvHeads ∣ a.numQueryHeads
  block : 0 < a.blockSize
  strides : a.k2.strides = a.k.strides
  apart : ∀ t < a.numTokens, ∀ t' < a.numTokens, ∀ h < a.numQueryHeads, ∀ h' < a.numQueryHeads,
    ∀ d < a.headSize, ∀ d' < a.headSize, a.outOffset t h d = a.outOffset t' h' d' → t = t' ∧ h = h' ∧ d = d'

section Attention

variable {K : Type*} [Field K] [LinearOrder K] (e : Exponential K) (a : Args K)

/-- A number of the cache for a token of a sequence. -/
def Args.cached (c : Cache K) (queryFp8 : Bool) (scale : K) (seqIdx kvHead j d : Nat) : K :=
  dequant c.fp8 queryFp8 scale
    (c.load (a.blockTable (seqIdx * a.blockTableStride + j / a.blockSize)) (j % a.blockSize) kvHead d)

/-- The product of the query of a token with a key of its sequence. -/
def Args.product (q : Query K) (k : Cache K) (seqIdx token head j : Nat) : K :=
  a.softmaxScale * ∑ d ∈ Finset.range a.headSize,
    q.load token head d * a.cached k q.fp8 a.kDescale seqIdx (head / a.numQueriesPerKv) j d

/-- The score of a key `j` for the token at `pos`: inside of the window the rotated query and key count,
outside of it the second ones, which do not tell how far apart they are. -/
def Args.logit (seqIdx token head pos j : Nat) : K :=
  let product := if (pos : Int) + 1 - j < a.reropeWindow then a.product a.q a.k seqIdx token head j
    else a.product a.q2 a.k2 seqIdx token head j
  let capped := if 0 < a.softcap then applySoftcap e product a.softcap else product
  match a.alibiSlopes with
  | none => capped
  | some alibiSlopes => capped + alibiSlopes head * (((j : Int) - pos : Int) : K)

/-- The keys that the token at `pos` attends to. -/
def Args.visible (pos : Nat) : Finset Nat :=
  (Finset.range (pos + 1)).filter fun j => 0 < a.slidingWindow → (pos : Int) - j < a.slidingWindow

/-- Plain attention of the token at `pos` of a sequence, which is `token` in the batch. -/
def attention (seqIdx token head pos d : Nat) : K :=
  (∑ j ∈ a.visible pos, e.exp (a.logit e seqIdx token head pos j) *
      a.cached a.v a.q.fp8 a.vDescale seqIdx (head / a.numQueriesPerKv) j d) /
    ∑ j ∈ a.visible pos, e.exp (a.logit e seqIdx token head pos j)

end Attention

end UnifiedCache.Sparse.Rerope
