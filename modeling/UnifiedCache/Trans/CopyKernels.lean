import UnifiedCache.Lib.StepSystem
import UnifiedCache.Lib.WhileLoop

/-! The kernels that copy a batch of segments with the threads of a grid, and the plain stream that
copies one segment after another. Memory is flat, an address is a number. -/

namespace UnifiedCache.Trans

open StepSystem

abbrev Memory := Nat → UInt8

abbrev Pointer := UInt64

/-- What a copy reads from or writes to: a pointer for each segment, or one for all of them in a row. -/
inductive Buffer where
  | segments (ptr : UInt64 → Pointer)
  | contiguous (ptr : Pointer)

namespace Buffer

variable (size : UInt64)

/-- Where the unit at `offset` of all the bytes is. -/
def unit (offset : UInt64) : Buffer → Pointer
  | segments ptr => ptr (offset / size) + offset % size
  | contiguous ptr => ptr + offset

/-- Where `SimuStream` finds a segment. -/
def segment (i : UInt64) : Buffer → Pointer
  | segments ptr => ptr i
  | contiguous ptr => ptr + size * i

/-- Where a segment is. -/
def base (i : Nat) : Buffer → Nat
  | segments ptr => (ptr (UInt64.ofNat i)).toNat
  | contiguous ptr => ptr.toNat + size.toNat * i

/-- The byte `j` of the unit at `offset`, by the segment that its pointer belongs to. -/
def unitPlace (offset j : Nat) : Buffer → Nat × Nat
  | segments _ => (offset / size.toNat, offset % size.toNat + j)
  | contiguous _ => (0, offset + j)

/-- The segment that a byte belongs to, and where in the segment it is. -/
def place (k : Nat) : Buffer → Nat × Nat
  | segments _ => (k / size.toNat, k % size.toNat)
  | contiguous _ => (0, k)

end Buffer

inductive Kernel where
  -- The three shapes of `CudaCopyKernel`.
  | segments (src dst : UInt64 → Pointer)
  | gather (src : UInt64 → Pointer) (dst : Pointer)
  | scatter (src : Pointer) (dst : UInt64 → Pointer)
  -- `H2DKernel` and `D2HKernel`.
  | h2d (dst src : UInt64 → Pointer)
  | d2h (dst src : UInt64 → Pointer)

abbrev Word := Fin 16 → UInt8

/-- An access of 16 bytes, into or from a register of the thread. -/
inductive Op where
  | load (r : Nat) (ptr : Pointer)
  | store (r : Nat) (ptr : Pointer)

def blockNumber : Nat := 32

def blockSize : Nat := 256

def threadNumber : Nat := blockNumber * blockSize

namespace Kernel

/-- The registers that a unit takes. -/
def words : Kernel → Nat
  | segments .. | gather .. | scatter .. => 2
  | h2d .. | d2h .. => 1

def src : Kernel → Buffer
  | segments src _ | gather src _ | h2d _ src | d2h _ src => .segments src
  | scatter src _ => .contiguous src

def dst : Kernel → Buffer
  | segments _ dst | scatter _ dst | h2d dst _ | d2h dst _ => .segments dst
  | gather _ dst => .contiguous dst

variable (kernel : Kernel) (size number : UInt64)

/-- `CUDA_TRANS_UNIT_SIZE`. -/
def unitSize : UInt64 := UInt64.ofNat (16 * kernel.words)

/-- The loop of a thread, with the offsets it has been at. -/
def loop (fuel : Nat) (start : UInt64) : Option (UInt64 × List UInt64) :=
  whileLoop (fun s => some (decide (s.1 + kernel.unitSize ≤ size * number)))
    (fun s => some (s.1 + UInt64.ofNat threadNumber * kernel.unitSize, s.2 ++ [s.1])) fuel (start, [])

/-- The offsets of the units that a thread copies, nothing if its loop does not end. -/
def offsets (thread : Nat) : Option (List UInt64) :=
  let blockIdx := thread / blockSize
  let threadIdx := thread % blockSize
  (kernel.loop size number ((size * number).toNat + 1)
    (UInt64.ofNat (blockIdx * blockSize + threadIdx) * kernel.unitSize)).map Prod.snd

/-- `CudaCopyUnit`, `H2DUnit` or `D2HUnit` at an offset: all is loaded before anything is stored. -/
def copyUnit (offset : UInt64) : List Op :=
  ((List.range kernel.words).map fun r => .load r (kernel.src.unit size offset + UInt64.ofNat (16 * r))) ++
    (List.range kernel.words).map fun r => .store r (kernel.dst.unit size offset + UInt64.ofNat (16 * r))

/-- What a thread does. -/
def program (thread : Nat) : List Op :=
  if thread < threadNumber then ((kernel.offsets size number thread).getD []).flatMap (kernel.copyUnit size)
  else []

/-- The bytes that a thread copies, from which place to which. -/
def copied (thread : Nat) : List ((Nat × Nat) × (Nat × Nat)) :=
  ((kernel.offsets size number thread).getD []).flatMap fun offset =>
    (List.range kernel.unitSize.toNat).map fun j =>
      (kernel.src.unitPlace size offset.toNat j, kernel.dst.unitPlace size offset.toNat j)

/-- The bytes that a thread writes. -/
def written (thread : Nat) : List Nat :=
  ((kernel.offsets size number thread).getD []).flatMap fun offset =>
    (List.range kernel.unitSize.toNat).map fun j => (kernel.dst.unit size offset).toNat + j

end Kernel

/-- The threads of the grid on one memory, with what is left to do for each and its registers. -/
structure Grid where
  memory : Memory
  rest : Nat → List Op
  regs : Nat → Nat → Word

namespace Grid

variable (s : Grid)

def word (memory : Memory) (ptr : Pointer) : Word := fun j => memory (ptr.toNat + j)

def storeWord (memory : Memory) (ptr : Pointer) (w : Word) : Memory := fun a =>
  if h : ptr.toNat ≤ a ∧ a < ptr.toNat + 16 then w ⟨a - ptr.toNat, Nat.sub_lt_left_of_lt_add h.1 h.2⟩ else memory a

/-- The next access of a thread. One that is not aligned to its size is undefined. -/
def step (thread : Nat) : Option Grid :=
  match s.rest thread with
  | [] => none
  | .load r ptr :: ops =>
    if 16 ∣ ptr.toNat then
      some { s with
        rest := Function.update s.rest thread ops
        regs := Function.update s.regs thread (Function.update (s.regs thread) r (word s.memory ptr)) }
    else none
  | .store r ptr :: ops =>
    if 16 ∣ ptr.toNat then
      some { s with
        memory := storeWord s.memory ptr (s.regs thread r)
        rest := Function.update s.rest thread ops }
    else none

/-- A kernel is launched. What the registers hold then does not matter. -/
def launch (kernel : Kernel) (size number : UInt64) (memory : Memory) (regs : Nat → Nat → Word) : Grid :=
  ⟨memory, kernel.program size number, regs⟩

end Grid

/-- `std::memcpy`. -/
def memcpy (memory : Memory) (dst src size : Nat) : Memory := fun a =>
  if dst ≤ a ∧ a < dst + size then memory (src + (a - dst)) else memory a

/-- What `SimuStream` leaves of a batch. -/
def simuCopy (src dst : Buffer) (size number : UInt64) (memory : Memory) : Memory :=
  (List.range number.toNat).foldl (fun memory i =>
    memcpy memory (dst.segment size (UInt64.ofNat i)).toNat (src.segment size (UInt64.ofNat i)).toNat size.toNat) memory

/-- The segments of both sides are in memory and pairwise disjoint. -/
structure Apart (src dst : Buffer) (size : UInt64) (number : Nat) : Prop where
  src_inside : ∀ i < number, src.base size i + size.toNat ≤ 2 ^ 64
  dst_inside : ∀ i < number, dst.base size i + size.toNat ≤ 2 ^ 64
  src_src : ∀ i < number, ∀ j < number, i ≠ j →
    src.base size i + size.toNat ≤ src.base size j ∨ src.base size j + size.toNat ≤ src.base size i
  dst_dst : ∀ i < number, ∀ j < number, i ≠ j →
    dst.base size i + size.toNat ≤ dst.base size j ∨ dst.base size j + size.toNat ≤ dst.base size i
  src_dst : ∀ i < number, ∀ j < number,
    src.base size i + size.toNat ≤ dst.base size j ∨ dst.base size j + size.toNat ≤ src.base size i

/-- What a batch copy should be. A unit is copied with the pointers of one segment, behind whose end
nothing belongs to that segment. -/
structure CopiesBatch (kernel : Kernel) (size number : UInt64) : Prop where
  ends : ∀ thread < threadNumber, (kernel.offsets size number thread).isSome
  /-- Each byte is copied once, from its place in the right segment, and nothing else is. -/
  once : ((List.range threadNumber).flatMap (kernel.copied size number)).Perm
    ((List.range (size.toNat * number.toNat)).map fun k => (kernel.src.place size k, kernel.dst.place size k))
  writers : ∀ t < threadNumber, ∀ t' < threadNumber, t ≠ t' →
    (kernel.written size number t).Disjoint (kernel.written size number t')
  /-- However the threads take turns, no access is undefined. -/
  defined : ∀ memory regs s, Reach Grid.step (fun _ _ => True) (Grid.launch kernel size number memory regs) s →
    ∀ thread, s.rest thread ≠ [] → (s.step thread).isSome
  copies : ∀ memory regs s, Reach Grid.step (fun _ _ => True) (Grid.launch kernel size number memory regs) s →
    (∀ thread, s.rest thread = []) → s.memory = simuCopy kernel.src kernel.dst size number memory

end UnifiedCache.Trans
