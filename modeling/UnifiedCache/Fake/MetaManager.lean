import UnifiedCache.Types

/-! The table of the fake store: nodes hashed by block id into buckets chained
through index links, the next node to use under a clock hand. A call is one
step here, so the locks are left out and `BucketTryLock` succeeds. The index
`invalidIndex` is `none`; a call is `none` where a walk along a chain does not end. -/

namespace UnifiedCache.FakeStore

def nHashTableBucket : Nat := 16411

def hash (blockIdHasher : BlockId → UInt64) (blockId : BlockId) : Nat :=
  (blockIdHasher blockId).toNat % nHashTableBucket

structure BufferMetaNode where
  block : BlockId
  hash : Option Nat
  prev : Option Nat
  next : Option Nat

structure MetaTable where
  buckets : Nat → Option Nat
  freeHead : Nat
  nNode : Nat
  metaAt : Nat → BufferMetaNode

namespace MetaTable

/-- A new shared memory file, whose bytes are zero where `Init` leaves them. -/
def setup (nNode : Nat) : MetaTable where
  buckets := fun _ => none
  freeHead := 0
  nNode := nNode
  metaAt := fun _ => ⟨Vector.replicate 16 0, none, none, none⟩

def modify (mt : MetaTable) (i : Nat) (f : BufferMetaNode → BufferMetaNode) : MetaTable :=
  { mt with metaAt := Function.update mt.metaAt i (f (mt.metaAt i)) }

def setNext (mt : MetaTable) (i : Nat) (n : Option Nat) : MetaTable :=
  mt.modify i fun m => { m with next := n }

def setPrev (mt : MetaTable) (i : Nat) (p : Option Nat) : MetaTable :=
  mt.modify i fun m => { m with prev := p }

def setHash (mt : MetaTable) (i : Nat) (h : Option Nat) : MetaTable :=
  mt.modify i fun m => { m with hash := h }

def setBlock (mt : MetaTable) (i : Nat) (block : BlockId) : MetaTable :=
  mt.modify i fun m => { m with block := block }

def setFirst (mt : MetaTable) (iBucket : Nat) (n : Option Nat) : MetaTable :=
  { mt with buckets := Function.update mt.buckets iBucket n }

def fetchNode (mt : MetaTable) : Nat × MetaTable :=
  (mt.freeHead, { mt with freeHead := if mt.freeHead + 1 = mt.nNode then 0 else mt.freeHead + 1 })

/-- The loop of `ExistAt` from a node on. -/
def walk (mt : MetaTable) (block : BlockId) : Nat → Option Nat → Option Bool
  | _, none => some false
  | 0, some _ => none
  | fuel + 1, some iNode =>
    if (mt.metaAt iNode).block = block then some true
    else walk mt block fuel (mt.metaAt iNode).next

def existAt (mt : MetaTable) (iBucket : Nat) (block : BlockId) : Option Bool :=
  mt.walk block mt.nNode (mt.buckets iBucket)

def remove (mt : MetaTable) (iBucket iNode : Nat) : MetaTable :=
  let mt := match (mt.metaAt iNode).prev with
    | none => mt
    | some p => mt.setNext p (mt.metaAt iNode).next
  let n := (mt.metaAt iNode).next
  let mt := match n with
    | none => mt
    | some n => mt.setPrev n (mt.metaAt iNode).prev
  let mt := if mt.buckets iBucket = some iNode then mt.setFirst iBucket n else mt
  ((mt.setPrev iNode none).setNext iNode none).setHash iNode none

def moveTo (mt : MetaTable) (iBucket iNode : Nat) : MetaTable :=
  let n := mt.buckets iBucket
  let mt := mt.setNext iNode n
  let mt := match n with
    | none => mt
    | some n => mt.setPrev n (some iNode)
  (mt.setHash iNode (some iBucket)).setFirst iBucket (some iNode)

def insertAt (mt : MetaTable) (iBucket : Nat) (block : BlockId) : MetaTable :=
  let (iNode, mt) := mt.fetchNode
  let mt := match (mt.metaAt iNode).hash with
    | none => mt.moveTo iBucket iNode
    | some oldBucket =>
      if oldBucket = iBucket then mt else (mt.remove oldBucket iNode).moveTo iBucket iNode
  mt.setBlock iNode block

variable (blockIdHasher : BlockId → UInt64)

def insert (mt : MetaTable) (block : BlockId) : Option MetaTable := do
  let iBucket := hash blockIdHasher block
  let exist ← mt.existAt iBucket block
  if exist then some mt else some (mt.insertAt iBucket block)

def exist (mt : MetaTable) (block : BlockId) : Option Bool :=
  mt.existAt (hash blockIdHasher block) block

end MetaTable

inductive Call where
  | insert (block : BlockId)
  | exist (block : BlockId)

/-- `inserted` lists the keys of the inserts that found their key absent. -/
structure Run where
  table : MetaTable
  inserted : List BlockId

variable (blockIdHasher : BlockId → UInt64)

def Run.call (r : Run) : Call → Option Run
  | .insert block => do
    let exist ← r.table.exist blockIdHasher block
    let table ← r.table.insert blockIdHasher block
    some ⟨table, if exist then r.inserted else r.inserted ++ [block]⟩
  | .exist block => do
    let _ ← r.table.exist blockIdHasher block
    some r

def runCalls (nNode : Nat) (calls : List Call) : Option Run :=
  calls.foldlM (Run.call blockIdHasher) ⟨MetaTable.setup nNode, []⟩

end UnifiedCache.FakeStore
