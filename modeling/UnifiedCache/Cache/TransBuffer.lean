import UnifiedCache.Types
import UnifiedCache.Lib.LinkedChain

/-! The pinned buffer of the cache store: nodes hashed by (block, shard) into
buckets chained through index links, reference counts taken by handles, and a
clock hand that reuses any node without references. Every call is taken as one
step here, so the locks are left out and `BucketTryLock` succeeds. The index
`invalidIndex` is `none`. A call is `none` where the code would not return: a
walk along a chain with no end, or an `Alloc` that finds every node referenced. -/

namespace UnifiedCache.CacheStore

def nHashTableBucket : Nat := 16411

/-- `std::hash` of a block id's bytes and of a shard index. -/
structure Hashers where
  blockIdHasher : BlockId → UInt64
  shardHasher : Nat → UInt64

def Hashers.hash (hashers : Hashers) (blockId : BlockId) (shard : Nat) : Nat :=
  let goldenSection : UInt64 := 0x9e3779b97f4a7c15
  let h1 : UInt64 := hashers.blockIdHasher blockId
  let h2 : UInt64 := hashers.shardHasher shard
  (h1 ^^^ (h2 + goldenSection + (h1 <<< (6 : UInt64)) + (h1 >>> (2 : UInt64)))).toNat % nHashTableBucket

structure BufferMetaNode where
  block : BlockId
  shard : Nat
  reference : Nat
  hash : Option Nat
  prev : Option Nat
  next : Option Nat
  ready : Bool

structure TransBuffer where
  buckets : Nat → Option Nat
  freeHead : Nat
  nNode : Nat
  metaAt : Nat → BufferMetaNode

namespace TransBuffer

def setup (nNode : Nat) : TransBuffer where
  buckets := fun _ => none
  freeHead := 0
  nNode := nNode
  metaAt := fun _ => ⟨Vector.replicate 16 0, 0, 0, none, none, none, false⟩

def modify (tb : TransBuffer) (i : Nat) (f : BufferMetaNode → BufferMetaNode) : TransBuffer :=
  { tb with metaAt := Function.update tb.metaAt i (f (tb.metaAt i)) }

def setNext (tb : TransBuffer) (i : Nat) (n : Option Nat) : TransBuffer :=
  tb.modify i fun m => { m with next := n }

def setPrev (tb : TransBuffer) (i : Nat) (p : Option Nat) : TransBuffer :=
  tb.modify i fun m => { m with prev := p }

def setHash (tb : TransBuffer) (i : Nat) (h : Option Nat) : TransBuffer :=
  tb.modify i fun m => { m with hash := h }

def setFirst (tb : TransBuffer) (iBucket : Nat) (n : Option Nat) : TransBuffer :=
  { tb with buckets := Function.update tb.buckets iBucket n }

def fetchNode (tb : TransBuffer) : Nat × TransBuffer :=
  (tb.freeHead, { tb with freeHead := if tb.freeHead + 1 = tb.nNode then 0 else tb.freeHead + 1 })

/-- The walk shared by `ExistAt` and `FindAt`, from a node on. -/
def walk (tb : TransBuffer) (blockId : BlockId) (shardIdx : Nat) :
    Nat → Option Nat → Option (Option Nat)
  | _, none => some none
  | 0, some _ => none
  | fuel + 1, some iNode =>
    if (tb.metaAt iNode).block = blockId ∧ (tb.metaAt iNode).shard = shardIdx then some (some iNode)
    else walk tb blockId shardIdx fuel (tb.metaAt iNode).next

def existAt (tb : TransBuffer) (iBucket : Nat) (blockId : BlockId) (shardIdx : Nat) : Option Bool :=
  (tb.walk blockId shardIdx tb.nNode (tb.buckets iBucket)).map Option.isSome

/-- The node found, whether it had no reference before, and the buffer with
the reference taken. -/
def findAt (tb : TransBuffer) (iBucket : Nat) (blockId : BlockId) (shardIdx : Nat) :
    Option (Option (Nat × Bool) × TransBuffer) :=
  (tb.walk blockId shardIdx tb.nNode (tb.buckets iBucket)).map fun
    | none => (none, tb)
    | some iNode => (some (iNode, decide ((tb.metaAt iNode).reference = 0)),
        tb.modify iNode fun m => { m with reference := m.reference + 1 })

def remove (tb : TransBuffer) (iBucket iNode : Nat) : TransBuffer :=
  let tb := match (tb.metaAt iNode).prev with
    | none => tb
    | some p => tb.setNext p (tb.metaAt iNode).next
  let n := (tb.metaAt iNode).next
  let tb := match n with
    | none => tb
    | some n => tb.setPrev n (tb.metaAt iNode).prev
  let tb := if tb.buckets iBucket = some iNode then tb.setFirst iBucket n else tb
  ((tb.setPrev iNode none).setNext iNode none).setHash iNode none

def moveTo (tb : TransBuffer) (iBucket iNode : Nat) : TransBuffer :=
  let n := tb.buckets iBucket
  let tb := tb.setNext iNode n
  let tb := match n with
    | none => tb
    | some n => tb.setPrev n (some iNode)
  (tb.setHash iNode (some iBucket)).setFirst iBucket (some iNode)

/-- The part of a round of `Alloc` that changes the node's bucket. -/
def rebucket (tb : TransBuffer) (iBucket iNode : Nat) : TransBuffer :=
  match (tb.metaAt iNode).hash with
  | none => tb.moveTo iBucket iNode
  | some oldBucket =>
    if oldBucket = iBucket then tb else (tb.remove oldBucket iNode).moveTo iBucket iNode

def allocRound (tb : TransBuffer) (blockId : BlockId) (shardIdx iBucket : Nat) :
    TransBuffer × Option Nat :=
  let (iNode, tb) := tb.fetchNode
  if 0 < (tb.metaAt iNode).reference then (tb, none)
  else ((tb.rebucket iBucket iNode).modify iNode fun m =>
    { m with reference := m.reference + 1, block := blockId, shard := shardIdx, ready := false },
    some iNode)

/-- The clock hand has passed every node after `nNode` rounds, the `fuel` that
`get` gives. -/
def alloc (blockId : BlockId) (shardIdx iBucket : Nat) :
    Nat → TransBuffer → Option (TransBuffer × Nat)
  | 0, _ => none
  | fuel + 1, tb =>
    match tb.allocRound blockId shardIdx iBucket with
    | (tb, some iNode) => some (tb, iNode)
    | (tb, none) => alloc blockId shardIdx iBucket fuel tb

/-- `buf_` is null exactly when `pos_` is `npos`, which is `none`. -/
structure Handle where
  pos : Option Nat
  owner : Bool
  deriving DecidableEq

def Handle.default : Handle := ⟨none, false⟩

def Handle.valid (h : Handle) : Bool := h.pos.isSome

def get (hashers : Hashers) (tb : TransBuffer) (blockId : BlockId) (shardIdx : Nat) :
    Option (Handle × TransBuffer) := do
  let iBucket := hashers.hash blockId shardIdx
  match ← tb.findAt iBucket blockId shardIdx with
  | (some (iNode, owner), tb) => some (⟨some iNode, owner⟩, tb)
  | (none, tb) =>
    let (tb, iNode) ← alloc blockId shardIdx iBucket tb.nNode tb
    some (⟨some iNode, true⟩, tb)

def exist (hashers : Hashers) (tb : TransBuffer) (blockId : BlockId) (shardIdx : Nat) : Option Bool :=
  tb.existAt (hashers.hash blockId shardIdx) blockId shardIdx

def acquire (tb : TransBuffer) (pos : Nat) : TransBuffer :=
  tb.modify pos fun m => { m with reference := m.reference + 1 }

def release (tb : TransBuffer) (pos : Nat) : TransBuffer :=
  tb.modify pos fun m => { m with reference := m.reference - 1 }

def ready (tb : TransBuffer) (pos : Nat) : Bool := (tb.metaAt pos).ready

def markReady (tb : TransBuffer) (pos : Nat) : TransBuffer :=
  tb.modify pos fun m => { m with ready := true }

end TransBuffer

end UnifiedCache.CacheStore
