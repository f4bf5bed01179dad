import UnifiedCache.Lib.LinearProbe

/-! The sharded open-addressing set used as the failure set of every store.
A key is hashed once; the low bits choose the shard, the bits above them the
slot where its search starts. A shard has no slots at first, is doubled when it
is three quarters full, and a removed key leaves an empty slot behind. An
operation is `none` where the code would not return: a search for room that
finds none, or the recursive `Insert` that waits for the mutex it holds. -/

namespace UnifiedCache

open LinearProbe

structure HashSet.Shard (Key : Type*) where
  keys : List (Option Key)
  used : Nat

structure HashSet (Key : Type*) where
  shards : Nat → HashSet.Shard Key
  size : Nat

namespace HashSet

variable {Key : Type*} [DecidableEq Key]

def empty : HashSet Key := ⟨fun _ => ⟨[], 0⟩, 0⟩

def shardIndex (shardBits h : Nat) : Nat := h &&& (2 ^ shardBits - 1)

def probe (idx cap : Nat) : Nat := (idx + 1) &&& (cap - 1)

def startSlot (shardBits h cap : Nat) : Nat := (h >>> shardBits) &&& (cap - 1)

inductive Search where
  | found (idx : Nat)
  | empty (idx : Nat)
  | full
  deriving DecidableEq, Repr

/-- The loop shared by the three operations. The index is back at `start`
after as many steps as there are slots, which is the `fuel` it is given. -/
def search (keys : List (Option Key)) (key : Key) (start : Nat) : Nat → Nat → Search
  | 0, _ => .full
  | fuel + 1, idx =>
    if slotAt keys idx = some key then .found idx
    else if slotAt keys idx = none then .empty idx
    else if probe idx keys.length = start then .full
    else search keys key start fuel (probe idx keys.length)

def firstEmpty (keys : List (Option Key)) : Nat → Nat → Option Nat
  | 0, _ => none
  | fuel + 1, idx =>
    if slotAt keys idx = none then some idx else firstEmpty keys fuel (probe idx keys.length)

variable (hash : Key → Nat) (shardBits : Nat)

def searchFor (s : Shard Key) (key : Key) : Search :=
  search s.keys key (startSlot shardBits (hash key) s.keys.length) s.keys.length
    (startSlot shardBits (hash key) s.keys.length)

def reinsert (s : Shard Key) (k : Key) : Option (Shard Key) :=
  (firstEmpty s.keys s.keys.length (startSlot shardBits (hash k) s.keys.length)).map
    fun idx => ⟨s.keys.set idx (some k), s.used + 1⟩

def rehashShard (s : Shard Key) : Option (Shard Key) :=
  let newCap := if s.keys.length = 0 then 8 else s.keys.length * 2
  (s.keys.filterMap id).foldlM (reinsert hash shardBits) ⟨List.replicate newCap none, 0⟩

def setShard (hs : HashSet Key) (i : Nat) (s : Shard Key) : HashSet Key :=
  { hs with shards := Function.update hs.shards i s }

def insertInto (hs : HashSet Key) (s : Shard Key) (key : Key) : Option (HashSet Key) :=
  match searchFor hash shardBits s key with
  | .found _ => some (setShard hs (shardIndex shardBits (hash key)) s)
  | .empty idx => some { setShard hs (shardIndex shardBits (hash key))
      ⟨s.keys.set idx (some key), s.used + 1⟩ with size := hs.size + 1 }
  | .full => none

def insert (hs : HashSet Key) (key : Key) : Option (HashSet Key) := do
  let s := hs.shards (shardIndex shardBits (hash key))
  let s ← if s.used * 4 ≥ s.keys.length * 3 then rehashShard hash shardBits s else some s
  let s ← if s.keys.length = 0 then rehashShard hash shardBits s else some s
  insertInto hash shardBits hs s key

def contains (hs : HashSet Key) (key : Key) : Bool :=
  let s := hs.shards (shardIndex shardBits (hash key))
  if s.keys.length = 0 then false
  else match searchFor hash shardBits s key with
    | .found _ => true
    | _ => false

def remove (hs : HashSet Key) (key : Key) : HashSet Key :=
  let s := hs.shards (shardIndex shardBits (hash key))
  if s.keys.length = 0 then hs
  else match searchFor hash shardBits s key with
    | .found idx => { setShard hs (shardIndex shardBits (hash key))
        ⟨s.keys.set idx none, s.used - 1⟩ with size := hs.size - 1 }
    | _ => hs

inductive Call (Key : Type*) where
  | insert (key : Key)
  | remove (key : Key)
  | contains (key : Key)

def call (hs : HashSet Key) : Call Key → Option (HashSet Key × List Bool)
  | .insert k => (insert hash shardBits hs k).map fun hs => (hs, [])
  | .remove k => some (remove hash shardBits hs k, [])
  | .contains k => some (hs, [contains hash shardBits hs k])

/-- A sequence of calls, with what the `Contains` calls among them answer. -/
def run (hs : HashSet Key) (outs : List Bool) : List (Call Key) → Option (HashSet Key × List Bool)
  | [] => some (hs, outs)
  | c :: cs => do
    let (hs, out) ← call hash shardBits hs c
    run hs (outs ++ out) cs

/-- The mathematical set that the calls are meant to keep. -/
def setCall (m : Finset Key) : Call Key → Finset Key × List Bool
  | .insert k => (Insert.insert k m, [])
  | .remove k => (m.erase k, [])
  | .contains k => (m, [decide (k ∈ m)])

def setRun (m : Finset Key) (outs : List Bool) : List (Call Key) → Finset Key × List Bool
  | [] => (m, outs)
  | c :: cs => setRun (setCall m c).1 (outs ++ (setCall m c).2) cs

def lastInserted (k : Key) : List (Call Key) → Bool :=
  List.foldl (fun b c =>
    match c with
    | .insert k' => if k' = k then true else b
    | .remove k' => if k' = k then false else b
    | .contains _ => b) false

theorem run_append (hs : HashSet Key) (outs : List Bool) (cs ds : List (Call Key)) :
    run hash shardBits hs outs (cs ++ ds) =
      (run hash shardBits hs outs cs).bind fun r => run hash shardBits r.1 r.2 ds := by
  induction cs generalizing hs outs with
  | nil => rfl
  | cons c cs ih =>
    simp only [List.cons_append, run]
    cases call hash shardBits hs c with
    | none => rfl
    | some r => exact ih r.1 (outs ++ r.2)

theorem setRun_append (m : Finset Key) (outs : List Bool) (cs ds : List (Call Key)) :
    setRun m outs (cs ++ ds) = setRun (setRun m outs cs).1 (setRun m outs cs).2 ds := by
  induction cs generalizing m outs with
  | nil => rfl
  | cons c cs ih => exact ih (setCall m c).1 (outs ++ (setCall m c).2)

/-- The mathematical set holds the keys whose last change was an insertion. -/
theorem mem_setRun_iff (cs : List (Call Key)) (k : Key) :
    k ∈ (setRun ∅ [] cs).1 ↔ lastInserted k cs = true := by
  induction cs using List.reverseRecOn with
  | nil => simp [setRun, lastInserted]
  | append_singleton cs c ih =>
    rw [setRun_append]
    cases c with
    | insert k' =>
      by_cases he : k' = k
      · simp [setRun, setCall, lastInserted, List.foldl_append, he]
      · simpa [setRun, setCall, lastInserted, List.foldl_append, he, Ne.symm he] using ih
    | remove k' =>
      by_cases he : k' = k
      · simp [setRun, setCall, lastInserted, List.foldl_append, he]
      · simpa [setRun, setCall, lastInserted, List.foldl_append, he, Ne.symm he] using ih
    | contains k' => simpa [setRun, setCall, lastInserted, List.foldl_append] using ih

end HashSet

end UnifiedCache
