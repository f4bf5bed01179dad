import UnifiedCache.Cache.TransBuffer
import UnifiedCache.Fake.MetaManager
import UnifiedCache.Lib.InitOnce
import UnifiedCache.Pc.SlotTable

/-! What the processes of a node share under one name: the capacity of the NFS store, the share buffer of
the PC store, the table of the fake store and the buffer of the cache store. Each is filled in by the process
that has created it and waited for by the others. New memory is zero. -/

namespace UnifiedCache

open InitOnce

/-- What the setup of a shared object comes to, for all processes and whatever has failed on the way. -/
structure SetUp {Process Content : Type*} (pub : Publication Content) (s : Host Process Content) : Prop where
  /-- A setup that was reported as done has found all stores of the creator made, and since then there were only
  the operations of processes that were set up as well. -/
  ready : ∀ p x ok, s.stages p = .ready x ok → ∃ i, x = some i ∧ ok = true ∧ (s.objects i).size = pub.size ∧
    (s.objects i).content = (s.objects i).operations.foldl (fun c f => f c) pub.initial
  creator : ∀ p q i k l, (s.stages p).building = some (i, k) → (s.stages q).building = some (i, l) → p = q

theorem setUp_of_reach {Process Content : Type*} [DecidableEq Process] {pub : Publication Content}
    {s : Host Process Content}
    (hreports : pub.reports = true) (h : StepSystem.Reach (Host.step · pub) (Allowed pub) (Host.start pub) s) :
    SetUp pub s where
  ready := by
    intro p x ok hp
    have hinv := inv_of_reach h
    have hpassed := (hinv.fits p).reported hreports
    rw [hp] at hpassed
    cases x with
    | none => cases hpassed
    | some i =>
      cases ok with
      | false => cases hpassed
      | true => exact ⟨i, rfl, rfl, hinv.content_eq hp⟩
  creator := (inv_of_reach h).one

/-- Where a page begins that has nothing of the first `size` bytes. -/
def pageAlign (pageSize size : Nat) : Nat := (size + pageSize - 1) / pageSize * pageSize

theorem le_pageAlign {pageSize : Nat} (h : 0 < pageSize) (size : Nat) : size ≤ pageAlign pageSize size := by
  have hdiv := Nat.lt_div_mul_add (a := size + pageSize - 1) h
  rw [pageAlign]
  omega

/-- One more entry is written. -/
theorem update_range {β : Type*} (v f : Nat → β) (n : Nat) :
    Function.update (fun i => if i < n then v i else f i) n (v n) = fun i => if i < n + 1 then v i else f i := by
  funext i
  by_cases hi : i = n
  · subst hi
    simp
  · have hlt : i < n + 1 ↔ i < n := by omega
    simp [Function.update_of_ne hi, hlt]

namespace NfsStore

structure Property where
  magic : Nat
  padding : Nat
  capacity : Nat

namespace Property

def Magic : Nat := 0x53 * 2 ^ 16 + 0x70 * 2 ^ 8 + 1

def PropertySize : Nat := 256

def blank : Property := ⟨0, 0, 0⟩

/-- The stores of `InitShmProperty` before that of the magic. -/
def writes : List (Property → Property) :=
  [fun _ => blank, fun c => { c with padding := 0 }, fun c => { c with capacity := 0 }]

def setMagic (c : Property) : Property := { c with magic := Magic }

def isReady (c : Property) : Bool := c.magic == Magic

theorem blank_not_ready : isReady blank = false := by decide

theorem writes_not_ready : ∀ f ∈ writes, ∀ c, isReady c = false → isReady (f c) = false := by
  intro f hf c hc
  simp only [writes, List.mem_cons, List.not_mem_nil, or_false] at hf
  rcases hf with rfl | rfl | rfl
  · exact blank_not_ready
  · exact hc
  · exact hc

theorem setMagic_ready (c : Property) : isReady (setMagic c) = true := beq_self_eq_true Magic

/-- `InitShmProperty` and `LoadShmProperty`. -/
def publication : Publication Property where
  size := PropertySize
  blank := blank
  writes := writes
  publish := setMagic
  isReady := isReady
  waitsForSize := true
  truncates := false
  registers := false
  reports := true
  maxTryTime := 100
  blank_not_ready := blank_not_ready
  writes_not_ready := writes_not_ready
  publish_ready := setMagic_ready

/-- The increase of `IncreaseCapacity`. -/
def increase (delta : Nat) (c : Property) : Property := { c with capacity := (c.capacity + delta) % 2 ^ 64 }

/-- The exchange of `DecreaseCapacity`. -/
def exchange (capacity delta : Nat) (c : Property) : Property :=
  if c.capacity = capacity then { c with capacity := capacity - delta } else c

/-- Processes change the capacity in one of two ways, and nobody removes the file. -/
def Allowed {Process : Type*} (s : Host Process Property) : InitOnce.Event Process Property → Prop
  | .operate p f => (s.stages p).attached.isSome ∧ ∃ delta, f = increase delta ∨ ∃ capacity, f = exchange capacity delta
  | .unlink => False
  | _ => True

theorem allowed_of_allowed {Process : Type*} {s : Host Process Property} {e : InitOnce.Event Process Property}
    (h : Allowed s e) :
    InitOnce.Allowed publication s e ∧ e ≠ .unlink := by
  cases e with
  | operate p f =>
    obtain ⟨hready, delta, rfl | ⟨capacity, rfl⟩⟩ := h
    · exact ⟨⟨fun _ hc => hc, hready⟩, by simp⟩
    · refine ⟨⟨fun c hc => ?_, hready⟩, by simp⟩
      unfold exchange
      split_ifs
      · exact hc
      · exact hc
  | unlink => exact h.elim
  | call _ | next _ _ | stop _ => exact ⟨trivial, by simp⟩

/-- All processes whose setup was reported as done share one word, which has what their operations have made of
zero. No process reads behind the end of the file. -/
theorem capacity_shared {Process : Type*} [DecidableEq Process] (s : Host Process Property)
    (h : StepSystem.Reach (Host.step · publication) Allowed (Host.start publication) s) :
    SetUp publication s ∧ (∀ p, s.stages p ≠ .faulted) ∧
      ∀ p x ok, s.stages p = .ready x ok → x = some 0 ∧
        (s.objects 0).content = (s.objects 0).operations.foldl (fun c f => f c) ⟨Magic, 0, 0⟩ := by
  have hone := count_le_one (h.mono fun _ _ => allowed_of_allowed)
  have hallowed : StepSystem.Reach (Host.step · publication) (InitOnce.Allowed publication)
    (Host.start publication) s :=
    h.mono fun _ _ hg => (allowed_of_allowed hg).1
  have hinv := inv_of_reach hallowed
  have hsetUp := setUp_of_reach rfl hallowed
  refine ⟨hsetUp, fun p => (hinv.fits p).faulted (.inl rfl), fun p x ok hp => ?_⟩
  obtain ⟨i, rfl, rfl, -, hcontent⟩ := hsetUp.ready p x ok hp
  have hlt : i < s.count := (hinv.fits p).object_lt i (by rw [hp]; rfl)
  obtain rfl : i = 0 := by omega
  exact ⟨rfl, hcontent⟩

theorem capacity_shared_two : ∃ s : Host Bool Property,
    s.stages true = .ready (some 0) true ∧ s.stages false = .ready (some 0) true ∧
    SetUp publication s ∧ (∀ p, s.stages p ≠ .faulted) ∧
      ∀ p x ok, s.stages p = .ready x ok → x = some 0 ∧
        (s.objects 0).content = (s.objects 0).operations.foldl (fun c f => f c) ⟨Magic, 0, 0⟩ := by
  have hreach : ∀ s, StepSystem.run (Host.step · publication) (Host.start publication) ([true, false].map .call ++
      [true, false, false, true, false, false, false, true, true, true, true, true, false].map
        (.next · true)) = some s →
      StepSystem.Reach (Host.step · publication) Allowed (Host.start publication) s :=
    fun s => reach_of_turns (fun _ _ => trivial) fun _ _ => trivial
  exact ⟨_, rfl, rfl, capacity_shared _ (hreach _ rfl)⟩

end Property

end NfsStore

namespace PcStore.ShareBuffer

/-- `ShareBufferHeader` with the headers of the blocks, of which `locks` and `offsets` are the fields that only
the setup writes. A lock is true once it is initialised. -/
structure ShareBufferHeader where
  mutex : Bool
  magic : Nat
  blockSize : Nat
  blockNumber : Nat
  headers : Nat → ShareBlockHeader
  locks : Nat → Bool
  offsets : Nat → Nat

/-- The sizes of the two headers and of a page. -/
structure Sizes where
  bufferHeader : Nat
  blockHeader : Nat
  page : Nat
  page_pos : 0 < page

namespace ShareBufferHeader

def SHARE_BUFFER_MAGIC : Nat := 0x53 * 2 ^ 16 + 0x62 * 2 ^ 8 + 1

def blank : ShareBufferHeader := ⟨false, 0, 0, 0, fun _ => ⟨zeroId, 0, .init⟩, fun _ => false, fun _ => 0⟩

variable (sizes : Sizes) (blockSize blockNumber : Nat)

def headerOffset (i : Nat) : Nat := sizes.bufferHeader + sizes.blockHeader * i

def dataOffset : Nat := pageAlign sizes.page (sizes.bufferHeader + sizes.blockHeader * blockNumber)

/-- Where the data of a block are, seen from its header. -/
def blockOffset (i : Nat) : Nat := dataOffset sizes blockNumber + blockSize * i - headerOffset sizes i

def shmSize : Nat := dataOffset sizes blockNumber + blockSize * blockNumber

def setHeader (i : Nat) (f : ShareBlockHeader → ShareBlockHeader) (c : ShareBufferHeader) : ShareBufferHeader :=
  { c with headers := Function.update c.headers i (f (c.headers i)) }

/-- The stores of `InitShmBuffer` for a block. -/
def blockWrites (i : Nat) : List (ShareBufferHeader → ShareBufferHeader) :=
  [setHeader i fun h => { h with id := zeroId },
    fun c => { c with locks := Function.update c.locks i true },
    setHeader i fun h => { h with ref := 0 },
    setHeader i fun h => { h with status := .init },
    fun c => { c with offsets := Function.update c.offsets i (blockOffset sizes blockSize blockNumber i) }]

def writes : List (ShareBufferHeader → ShareBufferHeader) :=
  [fun c => { c with magic := 1 }, fun c => { c with mutex := true }, fun c => { c with blockSize := blockSize },
    fun c => { c with blockNumber := blockNumber }] ++
    (List.range blockNumber).flatMap (blockWrites sizes blockSize blockNumber)

def setMagic (c : ShareBufferHeader) : ShareBufferHeader := { c with magic := SHARE_BUFFER_MAGIC }

def isReady (c : ShareBufferHeader) : Bool := c.magic == SHARE_BUFFER_MAGIC

theorem blank_not_ready : isReady blank = false := by decide

variable {sizes blockSize blockNumber}

theorem writes_not_ready :
    ∀ f ∈ writes sizes blockSize blockNumber, ∀ c, isReady c = false → isReady (f c) = false := by
  intro f hf c hc
  rcases List.mem_append.mp hf with hf | hf
  · simp only [List.mem_cons, List.not_mem_nil, or_false] at hf
    rcases hf with rfl | rfl | rfl | rfl
    · rfl
    · exact hc
    · exact hc
    · exact hc
  · obtain ⟨i, -, hf⟩ := List.mem_flatMap.mp hf
    simp only [blockWrites, List.mem_cons, List.not_mem_nil, or_false] at hf
    rcases hf with rfl | rfl | rfl | rfl | rfl <;> exact hc

theorem setMagic_ready (c : ShareBufferHeader) : isReady (setMagic c) = true := beq_self_eq_true SHARE_BUFFER_MAGIC

variable (sizes blockSize blockNumber)

/-- `InitShmBuffer` and `LoadShmBuffer`, which sets the size of the file too. -/
def publication : Publication ShareBufferHeader where
  size := shmSize sizes blockSize blockNumber
  blank := blank
  writes := writes sizes blockSize blockNumber
  publish := setMagic
  isReady := isReady
  waitsForSize := false
  truncates := true
  registers := true
  reports := true
  maxTryTime := 100
  blank_not_ready := blank_not_ready
  writes_not_ready := writes_not_ready
  publish_ready := setMagic_ready

/-- The buffer before its first use: every slot is free and locks can be taken, and the data of the slots lie
one after another behind the headers. -/
structure Fresh (c : ShareBufferHeader) : Prop where
  mutex : c.mutex = true
  blockSize_eq : c.blockSize = blockSize
  blockNumber_eq : c.blockNumber = blockNumber
  headers : ∀ i < blockNumber, c.headers i = SlotTable.start.headers i
  locks : ∀ i < blockNumber, c.locks i = true
  data : ∀ i < blockNumber, headerOffset sizes i + c.offsets i = dataOffset sizes blockNumber + blockSize * i ∧
    headerOffset sizes i + c.offsets i + blockSize ≤ shmSize sizes blockSize blockNumber

variable {sizes blockSize blockNumber}

/-- What the stores for the first blocks come to. -/
theorem foldl_blockWrites (c : ShareBufferHeader) (n : Nat) :
    ((List.range n).flatMap (blockWrites sizes blockSize blockNumber)).foldl (fun c f => f c) c =
      { c with
        headers := fun i => if i < n then ⟨zeroId, 0, .init⟩ else c.headers i
        locks := fun i => if i < n then true else c.locks i
        offsets := fun i => if i < n then blockOffset sizes blockSize blockNumber i else c.offsets i } := by
  induction n with
  | zero => simp
  | succ n ih =>
    rw [List.range_succ, List.flatMap_append, List.foldl_append, ih]
    simp only [List.flatMap_cons, List.flatMap_nil, List.append_nil, blockWrites, List.foldl_cons, List.foldl_nil,
      setHeader, ShareBufferHeader.mk.injEq, true_and]
    refine ⟨?_, update_range _ _ n, update_range _ _ n⟩
    simpa using update_range (fun _ => (⟨zeroId, 0, .init⟩ : ShareBlockHeader)) c.headers n

theorem fresh_initial : Fresh sizes blockSize blockNumber (publication sizes blockSize blockNumber).initial := by
  have hinitial : (publication sizes blockSize blockNumber).initial = setMagic
      (((List.range blockNumber).flatMap (blockWrites sizes blockSize blockNumber)).foldl (fun c f => f c)
        { blank with magic := 1, mutex := true, blockSize := blockSize, blockNumber := blockNumber }) := by
    change setMagic ((writes sizes blockSize blockNumber).foldl (fun c f => f c) blank) = _
    rw [writes, List.foldl_append]
    rfl
  rw [hinitial, foldl_blockWrites]
  refine ⟨rfl, rfl, rfl, fun i hi => ?_, fun i hi => ?_, fun i hi => ?_⟩
  · simp [setMagic, hi, SlotTable.start]
  · simp [setMagic, hi]
  · have hoffset : headerOffset sizes i ≤ dataOffset sizes blockNumber := by
      have halign := le_pageAlign sizes.page_pos (sizes.bufferHeader + sizes.blockHeader * blockNumber)
      have hmul := Nat.mul_le_mul_left sizes.blockHeader hi.le
      rw [headerOffset, dataOffset]
      omega
    have hend := Nat.mul_le_mul_left blockSize (Nat.succ_le_of_lt hi)
    rw [Nat.mul_succ] at hend
    simp only [setMagic, if_pos hi, shmSize, blockOffset]
    omega

/-- However often the buffer is unlinked and made anew, a process that is set up has one that started fresh, and
no process reads behind the end of the file. -/
theorem shareBuffer_setUp {Process : Type*} [DecidableEq Process] (s : Host Process ShareBufferHeader)
    (h : StepSystem.Reach (Host.step · (publication sizes blockSize blockNumber))
      (InitOnce.Allowed (publication sizes blockSize blockNumber))
      (Host.start (publication sizes blockSize blockNumber)) s) :
    SetUp (publication sizes blockSize blockNumber) s ∧ (∀ p, s.stages p ≠ .faulted) ∧
      ∀ p x ok, s.stages p = .ready x ok → ∃ i c, x = some i ∧ Fresh sizes blockSize blockNumber c ∧
        (s.objects i).content = (s.objects i).operations.foldl (fun c f => f c) c := by
  have hsetUp := setUp_of_reach rfl h
  refine ⟨hsetUp, fun p => ((inv_of_reach h).fits p).faulted (.inr rfl), fun p x ok hp => ?_⟩
  obtain ⟨i, rfl, -, -, hcontent⟩ := hsetUp.ready p x ok hp
  exact ⟨i, _, rfl, fresh_initial, hcontent⟩

theorem shareBuffer_setUp_two : ∃ s : Host Bool ShareBufferHeader,
    s.stages true = .ready (some 0) true ∧ s.stages false = .ready (some 0) true ∧
      SetUp (publication ⟨64, 40, 4096, by decide⟩ 8 1) s ∧ (∀ p, s.stages p ≠ .faulted) ∧
      ∀ p x ok, s.stages p = .ready x ok → ∃ i c, x = some i ∧ Fresh ⟨64, 40, 4096, by decide⟩ 8 1 c ∧
        (s.objects i).content = (s.objects i).operations.foldl (fun c f => f c) c := by
  let pub := publication ⟨64, 40, 4096, by decide⟩ 8 1
  let turns := [true, false, false, false, true, false] ++ List.replicate 12 true ++ [false, false]
  have hreach : ∀ s, StepSystem.run (Host.step · pub) (Host.start pub)
      ([true, false].map .call ++ turns.map (.next · true)) = some s →
      StepSystem.Reach (Host.step · pub) (InitOnce.Allowed pub) (Host.start pub) s :=
    fun s => reach_of_turns (fun _ _ => trivial) fun _ _ => trivial
  exact ⟨_, rfl, rfl, shareBuffer_setUp _ (hreach _ rfl)⟩

end ShareBufferHeader

end PcStore.ShareBuffer

/-- The header of the cache store and of the fake store with the nodes behind it. A lock is true once it is
initialised; the fake store has no `nNode` in its header. -/
structure BufferHeader (Node : Type) where
  magic : Nat
  lock : Bool
  nNode : Nat
  freeHead : Nat
  buckets : Nat → Option Nat
  bucketLocks : Nat → Bool
  nodeLocks : Nat → Bool
  metaAt : Nat → Node

namespace BufferHeader

def sharedBufferMagic : Nat := 0x53 * 2 ^ 16 + 0x62 * 2 ^ 8 + 1

variable {Node : Type} (nBucket nNode : Nat) (zero : Node) (keepsNumber : Bool) (nodeInit : List (Node → Node))

/-- The index of new memory is zero, not `invalidIndex`. -/
def blank : BufferHeader Node :=
  ⟨0, false, 0, 0, fun _ => some 0, fun _ => false, fun _ => false, fun _ => zero⟩

def bucketWrites (i : Nat) : List (BufferHeader Node → BufferHeader Node) :=
  [fun c => { c with buckets := Function.update c.buckets i none },
    fun c => { c with bucketLocks := Function.update c.bucketLocks i true }]

def nodeWrites (i : Nat) : List (BufferHeader Node → BufferHeader Node) :=
  (fun c => { c with nodeLocks := Function.update c.nodeLocks i true }) ::
    nodeInit.map fun f c => { c with metaAt := Function.update c.metaAt i (f (c.metaAt i)) }

/-- The stores of `InitShmBuffer` before that of the magic. -/
def writes : List (BufferHeader Node → BufferHeader Node) :=
  [fun c => { c with lock := true }, fun c => if keepsNumber then { c with nNode := nNode } else c,
    fun c => { c with freeHead := 0 }] ++
    (List.range nBucket).flatMap bucketWrites ++ (List.range nNode).flatMap (nodeWrites nodeInit)

def setMagic (c : BufferHeader Node) : BufferHeader Node := { c with magic := sharedBufferMagic }

def isReady (c : BufferHeader Node) : Bool := c.magic == sharedBufferMagic

theorem blank_not_ready : isReady (blank zero) = false := by
  show (0 == sharedBufferMagic) = false
  decide

theorem setMagic_ready (c : BufferHeader Node) : isReady (setMagic c) = true := beq_self_eq_true sharedBufferMagic

theorem writes_not_ready :
    ∀ f ∈ writes nBucket nNode keepsNumber nodeInit, ∀ c, isReady c = false → isReady (f c) = false := by
  intro f hf c hc
  rcases List.mem_append.mp hf with hf | hf
  · rcases List.mem_append.mp hf with hf | hf
    · simp only [List.mem_cons, List.not_mem_nil, or_false] at hf
      rcases hf with rfl | rfl | rfl
      · exact hc
      · cases keepsNumber <;> exact hc
      · exact hc
    · obtain ⟨i, -, hf⟩ := List.mem_flatMap.mp hf
      simp only [bucketWrites, List.mem_cons, List.not_mem_nil, or_false] at hf
      rcases hf with rfl | rfl <;> exact hc
  · obtain ⟨i, -, hf⟩ := List.mem_flatMap.mp hf
    rcases List.mem_cons.mp hf with rfl | hf
    · exact hc
    · obtain ⟨g, -, rfl⟩ := List.mem_map.mp hf
      exact hc

/-- `InitShmBuffer` and `LoadShmBuffer`. -/
def publication (size : Nat) (registers reports : Bool) : Publication (BufferHeader Node) where
  size := size
  blank := blank zero
  writes := writes nBucket nNode keepsNumber nodeInit
  publish := setMagic
  isReady := isReady
  waitsForSize := false
  truncates := false
  registers := registers
  reports := reports
  maxTryTime := 100
  blank_not_ready := blank_not_ready zero
  writes_not_ready := writes_not_ready nBucket nNode keepsNumber nodeInit
  publish_ready := setMagic_ready

/-- The table before its first use: all buckets are empty, all nodes are as `Init` leaves them, all locks can be
taken. -/
structure Fresh (c : BufferHeader Node) : Prop where
  lock : c.lock = true
  freeHead : c.freeHead = 0
  buckets : ∀ i < nBucket, c.buckets i = none ∧ c.bucketLocks i = true
  nodes : ∀ i < nNode, c.metaAt i = nodeInit.foldl (fun m f => f m) zero ∧ c.nodeLocks i = true

variable {nBucket nNode zero nodeInit}

theorem foldl_bucketWrites (c : BufferHeader Node) (n : Nat) :
    ((List.range n).flatMap bucketWrites).foldl (fun c f => f c) c =
      { c with
        buckets := fun i => if i < n then none else c.buckets i
        bucketLocks := fun i => if i < n then true else c.bucketLocks i } := by
  induction n with
  | zero => simp
  | succ n ih =>
    rw [List.range_succ, List.flatMap_append, List.foldl_append, ih]
    simp only [List.flatMap_cons, List.flatMap_nil, List.append_nil, bucketWrites, List.foldl_cons, List.foldl_nil,
      BufferHeader.mk.injEq, true_and, and_true]
    exact ⟨update_range _ _ n, update_range _ _ n⟩

theorem foldl_nodeInit (c : BufferHeader Node) (i : Nat) :
    (nodeInit.map fun f (c : BufferHeader Node) =>
      { c with metaAt := Function.update c.metaAt i (f (c.metaAt i)) }).foldl
        (fun c f => f c) c =
      { c with metaAt := Function.update c.metaAt i (nodeInit.foldl (fun m f => f m) (c.metaAt i)) } := by
  induction nodeInit generalizing c with
  | nil => simp
  | cons f fs ih =>
    rw [List.map_cons, List.foldl_cons, ih, List.foldl_cons]
    simp

theorem foldl_nodeWrites (c : BufferHeader Node) (n : Nat) :
    ((List.range n).flatMap (nodeWrites nodeInit)).foldl (fun c f => f c) c =
      { c with
        nodeLocks := fun i => if i < n then true else c.nodeLocks i
        metaAt := fun i => if i < n then nodeInit.foldl (fun m f => f m) (c.metaAt i) else c.metaAt i } := by
  induction n with
  | zero => simp
  | succ n ih =>
    rw [List.range_succ, List.flatMap_append, List.foldl_append, ih]
    simp only [List.flatMap_cons, List.flatMap_nil, List.append_nil, nodeWrites, List.foldl_cons, foldl_nodeInit,
      BufferHeader.mk.injEq, true_and]
    refine ⟨update_range _ _ n, ?_⟩
    simpa using update_range (fun i => nodeInit.foldl (fun m f => f m) (c.metaAt i)) c.metaAt n

theorem fresh_initial (keepsNumber : Bool) (size : Nat) (registers reports : Bool) : Fresh nBucket nNode zero nodeInit
    (publication nBucket nNode zero keepsNumber nodeInit size registers reports).initial := by
  change Fresh nBucket nNode zero nodeInit (setMagic ((writes nBucket nNode keepsNumber nodeInit).foldl (fun c f => f c)
    (blank zero)))
  rw [writes, List.foldl_append, List.foldl_append, foldl_bucketWrites, foldl_nodeWrites]
  refine ⟨?_, ?_, fun i hi => ?_, fun i hi => ?_⟩
  · cases keepsNumber <;> rfl
  · cases keepsNumber <;> rfl
  · simp [setMagic, hi]
  · cases keepsNumber <;> simp [setMagic, hi, blank]

end BufferHeader

namespace FakeStore.SharedMeta

def zeroNode : BufferMetaNode := ⟨Vector.replicate 16 0, some 0, some 0, some 0⟩

/-- `BufferMetaNode::Init`. -/
def nodeInit : List (BufferMetaNode → BufferMetaNode) :=
  [fun m => { m with hash := none }, fun m => { m with prev := none }, fun m => { m with next := none }]

/-- The header, with a lock and a node for each index. -/
def totalSize (headerSize lockSize nodeSize nNode : Nat) : Nat := headerSize + lockSize * nNode + nodeSize * nNode

def publication (headerSize lockSize nodeSize nNode : Nat) : Publication (BufferHeader BufferMetaNode) :=
  BufferHeader.publication nHashTableBucket nNode zeroNode false nodeInit (totalSize headerSize lockSize nodeSize nNode)
    false true

/-- The table that the processes share starts as that of `MetaManager`, and all they do to it is kept. -/
theorem metaTable_setUp {Process : Type*} [DecidableEq Process] {headerSize lockSize nodeSize nNode : Nat}
    (s : Host Process (BufferHeader BufferMetaNode))
    (h : StepSystem.Reach (Host.step · (publication headerSize lockSize nodeSize nNode))
      (InitOnce.Allowed (publication headerSize lockSize nodeSize nNode))
      (Host.start (publication headerSize lockSize nodeSize nNode)) s) :
    SetUp (publication headerSize lockSize nodeSize nNode) s ∧
      ∀ p x ok, s.stages p = .ready x ok → ∃ i c, x = some i ∧
        BufferHeader.Fresh nHashTableBucket nNode zeroNode nodeInit c ∧
        (∀ j < nNode, c.metaAt j = (MetaTable.setup nNode).metaAt j) ∧
        (s.objects i).content = (s.objects i).operations.foldl (fun c f => f c) c := by
  have hsetUp := setUp_of_reach rfl h
  refine ⟨hsetUp, fun p x ok hp => ?_⟩
  obtain ⟨i, rfl, -, -, hcontent⟩ := hsetUp.ready p x ok hp
  have hfresh : BufferHeader.Fresh nHashTableBucket nNode zeroNode nodeInit _ :=
    BufferHeader.fresh_initial false (totalSize headerSize lockSize nodeSize nNode) false true
  exact ⟨i, _, rfl, hfresh, fun j hj => (hfresh.nodes j hj).1, hcontent⟩

theorem metaTable_setUp_ready : ∃ s : Host Bool (BufferHeader BufferMetaNode),
    s.stages true = .ready (some 0) true ∧ SetUp (publication 64 4 40 2) s ∧
      ∀ p x ok, s.stages p = .ready x ok → ∃ i c, x = some i ∧
        BufferHeader.Fresh nHashTableBucket 2 zeroNode nodeInit c ∧
        (∀ j < 2, c.metaAt j = (MetaTable.setup 2).metaAt j) ∧
        (s.objects i).content = (s.objects i).operations.foldl (fun c f => f c) c := by
  obtain ⟨s, hs, hready⟩ : ∃ s, StepSystem.Reach (Host.step · (publication 64 4 40 2))
      (InitOnce.Allowed (publication 64 4 40 2)) (Host.start (publication 64 4 40 2)) s ∧
      s.stages true = .ready (some 0) true :=
    exists_ready true (fun _ => trivial) fun _ => trivial
  exact ⟨s, hready, metaTable_setUp s hs⟩

end FakeStore.SharedMeta

namespace CacheStore.SharedBuffer

def zeroNode : BufferMetaNode := ⟨Vector.replicate 16 0, 0, 0, some 0, some 0, some 0, false⟩

/-- `BufferMetaNode::Init`. -/
def nodeInit : List (BufferMetaNode → BufferMetaNode) :=
  [fun m => { m with reference := 0 }, fun m => { m with hash := none }, fun m => { m with prev := none },
    fun m => { m with next := none }, fun m => { m with ready := false }]

/-- The header with a lock and a node for each index, and from a new page on the data. -/
def totalSize (headerSize lockSize metaSize pageSize nodeSize nNode : Nat) : Nat :=
  pageAlign pageSize (headerSize + lockSize * nNode + metaSize * nNode) + nodeSize * nNode

/-- `Setup` goes on to `RegisterBuffer` whatever `InitShmBuffer` and `LoadShmBuffer` have returned. -/
def publication (size nNode : Nat) : Publication (BufferHeader BufferMetaNode) :=
  BufferHeader.publication nHashTableBucket nNode zeroNode true nodeInit size true false

/-- While only those processes use the buffer whose `InitShmBuffer` or `LoadShmBuffer` has not failed, they find
it as it is set up, and all they do to it is kept. -/
theorem sharedBuffer_setUp {Process : Type*} [DecidableEq Process] {size nNode : Nat}
    (s : Host Process (BufferHeader BufferMetaNode))
    (h : StepSystem.Reach (Host.step · (publication size nNode)) (InitOnce.Allowed (publication size nNode))
      (Host.start (publication size nNode)) s) :
    (∀ p q i k l, (s.stages p).building = some (i, k) → (s.stages q).building = some (i, l) → p = q) ∧
      ∀ p i, s.stages p = .ready (some i) true → (s.objects i).size = size ∧
        ∃ c, BufferHeader.Fresh nHashTableBucket nNode zeroNode nodeInit c ∧
          (∀ j < nNode, c.metaAt j = (TransBuffer.setup nNode).metaAt j) ∧
          (s.objects i).content = (s.objects i).operations.foldl (fun c f => f c) c := by
  have hinv := inv_of_reach h
  refine ⟨hinv.one, fun p i hp => ?_⟩
  obtain ⟨hsize, hcontent⟩ := hinv.content_eq hp
  have hfresh : BufferHeader.Fresh nHashTableBucket nNode zeroNode nodeInit _ :=
    BufferHeader.fresh_initial true size true false
  exact ⟨hsize, _, hfresh, fun j hj => (hfresh.nodes j hj).1, hcontent⟩

theorem sharedBuffer_setUp_ready : ∃ s : Host Bool (BufferHeader BufferMetaNode),
    s.stages true = .ready (some 0) true ∧
    (∀ p q i k l, (s.stages p).building = some (i, k) → (s.stages q).building = some (i, l) → p = q) ∧
      ∀ p i, s.stages p = .ready (some i) true → (s.objects i).size = 4096 ∧
        ∃ c, BufferHeader.Fresh nHashTableBucket 2 zeroNode nodeInit c ∧
          (∀ j < 2, c.metaAt j = (TransBuffer.setup 2).metaAt j) ∧
          (s.objects i).content = (s.objects i).operations.foldl (fun c f => f c) c := by
  obtain ⟨s, hs, hready⟩ : ∃ s, StepSystem.Reach (Host.step · (publication 4096 2))
      (InitOnce.Allowed (publication 4096 2)) (Host.start (publication 4096 2)) s ∧
      s.stages true = .ready (some 0) true :=
    exists_ready true (fun _ => trivial) fun _ => trivial
  exact ⟨s, hready, sharedBuffer_setUp s hs⟩

end CacheStore.SharedBuffer

end UnifiedCache
