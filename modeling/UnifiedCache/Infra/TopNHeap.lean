import UnifiedCache.Lib.HeapOrder
import UnifiedCache.Lib.StepSystem

/-! A heap of the `capacity` greatest values pushed into it. An array of
indices is kept in heap order and the values stay in their slots. Indices are
`uint32_t`, so the places below a node are taken modulo 2 ^ 32. -/

namespace UnifiedCache.Infra

structure TopNHeap (α : Type*) where
  val : Nat → α
  idx : Nat → Nat
  capacity : Nat
  size : Nat

namespace TopNHeap

variable {α : Type*} (cmp : α → α → Bool)

def new [Inhabited α] (capacity : Nat) : TopNHeap α := ⟨fun _ => default, fun _ => 0, capacity, 0⟩

def left (i : Nat) : Nat := (2 * i + 1) % 2 ^ 32

def right (i : Nat) : Nat := (2 * i + 2) % 2 ^ 32

/-- The loop of `SiftUp`. -/
def siftUp (val : Nat → α) (idx : Nat → Nat) (pos : Nat) : Nat → Nat :=
  if h : 0 < pos then
    let p := HeapOrder.parent pos
    if cmp (val (idx pos)) (val (idx p)) then siftUp val (idx ∘ Equiv.swap pos p) p else idx
  else idx
termination_by pos
decreasing_by exact HeapOrder.parent_lt h

/-- The place that a round of `SiftDown` goes on with. -/
def best (val : Nat → α) (idx : Nat → Nat) (size pos : Nat) : Nat :=
  let l := left pos
  let r := right pos
  let best := pos
  let best := if l < size ∧ cmp (val (idx l)) (val (idx best)) then l else best
  if r < size ∧ cmp (val (idx r)) (val (idx best)) then r else best

/-- The loop of `SiftDown`, none when it is not at its end after so many rounds.
It goes down one level a round unless an index wraps, and has then no more
rounds than places. -/
def siftDown (val : Nat → α) (size : Nat) : Nat → (Nat → Nat) → Nat → Option (Nat → Nat)
  | 0, _, _ => none
  | rounds + 1, idx, pos =>
    let best := best cmp val idx size pos
    if best = pos then some idx
    else siftDown val size rounds (idx ∘ Equiv.swap pos best) best

def top (t : TopNHeap α) : α := t.val (t.idx 0)

def push (t : TopNHeap α) (value : α) : Option (TopNHeap α) :=
  if t.size < t.capacity then
    let val := Function.update t.val t.size value
    let idx := Function.update t.idx t.size t.size
    some { t with val := val, idx := siftUp cmp val idx t.size, size := t.size + 1 }
  else if cmp (t.val (t.idx 0)) value then
    let val := Function.update t.val (t.idx 0) value
    (siftDown cmp val t.size t.size t.idx 0).map fun idx => { t with val := val, idx := idx }
  else some t

def pop (t : TopNHeap α) : Option (TopNHeap α) :=
  let size := t.size - 1
  let idx := Function.update t.idx 0 (t.idx size)
  if size = 0 then some { t with idx := idx, size := size }
  else (siftDown cmp t.val size size idx 0).map fun idx => { t with idx := idx, size := size }

inductive Call (α : Type*) where
  | push (value : α)
  | pop

/-- `Pop` is called only while there is a value. -/
def call (t : TopNHeap α) : Call α → Option (TopNHeap α)
  | .push value => t.push cmp value
  | .pop => if t.size = 0 then none else t.pop cmp

end TopNHeap

end UnifiedCache.Infra
