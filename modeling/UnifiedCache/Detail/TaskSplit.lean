import UnifiedCache.Types

/-! The tasks of the stores that hand their shards to queues, and how a task is split among them. -/

namespace UnifiedCache.Detail

inductive TaskType where
  | dump
  | load
  deriving DecidableEq

inductive Location where
  | host
  | device
  deriving DecidableEq

/-- `done` says whether the shard has the completion callback. The buffer of a shard comes later. -/
structure Shard where
  type : TaskType
  location : Location
  block : BlockId
  offset : Nat
  address : Addr
  length : Nat
  owner : Nat
  done : Bool
  deriving DecidableEq

/-- The shards that were appended, none of which has the callback. -/
structure Task where
  id : Nat
  type : TaskType
  location : Location
  shards : List Shard
  number : Nat
  size : Nat
  number_eq : number = shards.length
  fresh : ∀ s ∈ shards, s.done = false

namespace Task

def make (id : Nat) (type : TaskType) (location : Location) : Task where
  id := id
  type := type
  location := location
  shards := []
  number := 0
  size := 0
  number_eq := rfl
  fresh := fun _ hs => absurd hs List.not_mem_nil

def append (task : Task) (block : BlockId) (offset : Nat) (address : Addr) (length : Nat) : Task where
  id := task.id
  type := task.type
  location := task.location
  shards := task.shards ++ [⟨task.type, task.location, block, offset, address, length, task.id, false⟩]
  number := task.number + 1
  size := task.size + length
  number_eq := by rw [task.number_eq, List.length_append, List.length_singleton]
  fresh := fun s hs => by
    rcases List.mem_append.mp hs with hs | hs
    · exact task.fresh s hs
    · rw [List.mem_singleton.mp hs]

end Task

/-- `out[i].back().done` is set. -/
def markBack : List Shard → List Shard
  | [] => []
  | [s] => [{ s with done := true }]
  | s :: t :: part => s :: markBack (t :: part)

/-- The loop of `Split` from its round `i` on. It is `none` where it would go past the end of the shards
or ask an empty part for its last one. -/
def splitFrom (base rem : Nat) : Nat → Nat → List Shard → Option (List (List Shard))
  | 0, _, _ => some []
  | rounds + 1, i, it =>
    let count := base + if i < rem then 1 else 0
    if count = 0 ∨ it.length < count then none
    else (splitFrom base rem rounds (i + 1) (it.drop count)).map fun out => markBack (it.take count) :: out

inductive SubmitEvent where
  | setWaiter (expected : Nat)
  | push (queue : Nat) (part : List Shard)
  deriving DecidableEq

/-- `Split` sets the waiter and returns the parts. It is `none` where it divides by zero. -/
def split (task : Task) (n : Nat) : Option (SubmitEvent × List (List Shard)) :=
  let num := min n task.number
  if num = 0 then none
  else (splitFrom (task.number / num) (task.number % num) num 0 task.shards).map fun out => (.setWaiter num, out)

/-- The parts go to the queues in turn. -/
def pushAll (queues : Nat) : Nat → List (List Shard) → List SubmitEvent
  | _, [] => []
  | qIndex, part :: parts => .push qIndex part :: pushAll queues (if qIndex + 1 = queues then 0 else qIndex + 1) parts

/-- What `Submit` does to the waiter and the queues. -/
def submit (task : Task) (queues qIndex : Nat) : Option (List SubmitEvent) :=
  (split task queues).map fun (setWaiter, parts) => setWaiter :: pushAll queues qIndex parts

def Shard.unmarked (s : Shard) : Shard := { s with done := false }

/-- Exactly the last shard has the callback. -/
def LastDone (part : List Shard) : Prop :=
  part.map Shard.done = List.replicate (part.length - 1) false ++ [true]

/-- Nothing is lost in these parts of a task. -/
structure SplitsWell (n : Nat) (task : Task) (parts : List (List Shard)) : Prop where
  nonempty : ∀ part ∈ parts, part ≠ []
  shards : parts.flatten.map Shard.unmarked = task.shards
  even : ∀ part ∈ parts, ∀ part' ∈ parts, part.length ≤ part'.length + 1
  atMost : parts.length ≤ n
  lastDone : ∀ part ∈ parts, LastDone part

variable {part : List Shard} {base n : Nat}

theorem length_markBack : (markBack part).length = part.length := by
  induction part using markBack.induct with
  | case1 => rfl
  | case2 s => rfl
  | case3 s t part ih =>
    rw [markBack, List.length_cons, ih]
    rfl

theorem unmarked_markBack (h : ∀ s ∈ part, s.done = false) : (markBack part).map Shard.unmarked = part := by
  have hself : ∀ s ∈ part, s.unmarked = s := fun s hs => by rw [Shard.unmarked, ← h s hs]
  induction part using markBack.induct with
  | case1 => rfl
  | case2 s =>
    have hs := hself s List.mem_cons_self
    rw [markBack, List.map_singleton]
    exact congrArg (fun s => [s]) hs
  | case3 s t part ih =>
    rw [markBack, List.map_cons, hself s List.mem_cons_self,
      ih (fun x hx => h x (List.mem_cons_of_mem s hx)) fun x hx => hself x (List.mem_cons_of_mem s hx)]

theorem lastDone_markBack (hne : part ≠ []) (h : ∀ s ∈ part, s.done = false) : LastDone (markBack part) := by
  induction part using markBack.induct with
  | case1 => exact absurd rfl hne
  | case2 s => rfl
  | case3 s t part ih =>
    have hrest := ih (by simp) fun x hx => h x (List.mem_cons_of_mem s hx)
    rw [LastDone, length_markBack] at hrest ⊢
    rw [markBack, List.map_cons, hrest, h s List.mem_cons_self]
    rfl

/-- The sizes of the parts add up, so that the loop ends with the last shard. -/
theorem splitFrom_spec (rem rounds i : Nat) (it : List Shard) (hbase : 1 ≤ base) (hrem : i ≤ rem → rem ≤ i + rounds)
    (hlength : it.length = rounds * base + (rem - i)) (hfresh : ∀ s ∈ it, s.done = false) :
    ∃ out, splitFrom base rem rounds i it = some out ∧ out.length = rounds ∧
      out.flatten.map Shard.unmarked = it ∧
      ∀ part ∈ out, base ≤ part.length ∧ part.length ≤ base + 1 ∧ LastDone part := by
  induction rounds generalizing i it with
  | zero =>
    have hnil : it = [] := List.length_eq_zero_iff.mp (by omega)
    exact ⟨[], rfl, rfl, hnil.symm, fun part hp => absurd hp List.not_mem_nil⟩
  | succ rounds ih =>
    have hcount : base ≤ base + (if i < rem then 1 else 0) ∧ base + (if i < rem then 1 else 0) ≤ base + 1 := by
      split_ifs <;> omega
    have hsum : base + (if i < rem then 1 else 0) + (rounds * base + (rem - (i + 1))) = it.length := by
      rw [hlength, Nat.succ_mul]
      split_ifs <;> omega
    have hle : base + (if i < rem then 1 else 0) ≤ it.length := by omega
    obtain ⟨out, hout, hlen, hflat, hparts⟩ := ih (i + 1)
      (it.drop (base + if i < rem then 1 else 0)) (by omega) (by rw [List.length_drop]; omega) fun s hs => hfresh s (List.mem_of_mem_drop hs)
    have hpart : ∀ s ∈ it.take (base + if i < rem then 1 else 0), s.done = false := fun s hs =>
      hfresh s (List.mem_of_mem_take hs)
    have htake : (it.take (base + if i < rem then 1 else 0)).length = base + if i < rem then 1 else 0 := by
      rw [List.length_take, Nat.min_eq_left hle]
    refine ⟨markBack (it.take (base + if i < rem then 1 else 0)) :: out, ?_, by rw [List.length_cons, hlen], ?_, ?_⟩
    · rw [splitFrom, if_neg (by omega), hout, Option.map_some]
    · rw [List.flatten_cons, List.map_append, unmarked_markBack hpart, hflat, List.take_append_drop]
    · refine List.forall_mem_cons.mpr ⟨?_, hparts⟩
      rw [length_markBack, htake]
      refine ⟨hcount.1, hcount.2, lastDone_markBack (fun hnil => ?_) hpart⟩
      rw [hnil] at htake
      exact absurd htake (by rw [List.length_nil]; omega)

theorem split_spec (task : Task) (hn : 1 ≤ n) (hne : task.number ≠ 0) :
    ∃ parts, split task n = some (.setWaiter parts.length, parts) ∧ SplitsWell n task parts := by
  have hnum : 1 ≤ min n task.number := by omega
  have hbase : 1 ≤ task.number / min n task.number := Nat.div_pos (Nat.min_le_right _ _) hnum
  have hsum := Nat.div_add_mod task.number (min n task.number)
  have hmod := Nat.mod_lt task.number hnum
  obtain ⟨out, hout, hlen, hflat, hparts⟩ := splitFrom_spec (task.number % min n task.number) (min n task.number) 0 task.shards hbase
    (fun _ => by omega)
    (by rw [← task.number_eq, Nat.sub_zero]; exact hsum.symm) task.fresh
  refine ⟨out, ?_, ⟨fun part hp hnil => ?_, hflat, fun part hp part' hp' => ?_, by rw [hlen]; exact Nat.min_le_left _ _,
    fun part hp => (hparts part hp).2.2⟩⟩
  · rw [split, if_neg (by omega), hout, Option.map_some, hlen]
  · have hle := (hparts part hp).1
    rw [hnil, List.length_nil] at hle
    omega
  · have hle := (hparts part hp).2.1
    have hge := (hparts part' hp').1
    omega

theorem map_pushAll (queues qIndex : Nat) (parts : List (List Shard)) :
    (pushAll queues qIndex parts).map (fun e => match e with | .push _ part => part | .setWaiter _ => []) = parts := by
  induction parts generalizing qIndex with
  | nil => rfl
  | cons part parts ih => rw [pushAll, List.map_cons, ih]

/-- A task is split without loss, and its waiter set before the parts go to the queues, exactly when it has a shard. -/
theorem submits_iff (task : Task) {queues qIndex : Nat} (hn : 1 ≤ queues) :
    (∃ parts, split task queues = some (.setWaiter parts.length, parts) ∧ SplitsWell queues task parts ∧
      submit task queues qIndex = some (.setWaiter parts.length :: pushAll queues qIndex parts)) ↔ task.shards ≠ [] := by
  constructor
  · rintro ⟨parts, hsplit, -⟩ hnil
    have hzero : min queues task.number = 0 := by
      rw [task.number_eq, hnil]
      exact Nat.min_zero queues
    rw [split, if_pos hzero] at hsplit
    cases hsplit
  · intro hne
    obtain ⟨parts, hsplit, hwell⟩ := split_spec task hn (n := queues)
      (by rw [task.number_eq]; exact fun h => hne (List.length_eq_zero_iff.mp h))
    exact ⟨parts, hsplit, hwell, by rw [submit, hsplit, Option.map_some]⟩

/-- Three shards for two queues, the first part for the second queue. -/
def threeShards : Task :=
  [0, 1, 2].foldl (fun task i => task.append (Vector.replicate 16 0) (8 * i) (64 * i) 8) (Task.make 1 .load .device)

theorem submits_iff_three : ∃ parts, split threeShards 2 = some (.setWaiter parts.length, parts) ∧
    SplitsWell 2 threeShards parts ∧ submit threeShards 2 1 = some (.setWaiter parts.length :: pushAll 2 1 parts) :=
  (submits_iff threeShards (by decide)).mpr (by decide)

/-- A task without shards is divided by zero. -/
theorem split_divides_by_zero : (Task.make 1 .load .host).shards = [] ∧ split (Task.make 1 .load .host) 4 = none ∧
    ¬ ∃ parts, split (Task.make 1 .load .host) 4 = some (.setWaiter parts.length, parts) ∧
      SplitsWell 4 (Task.make 1 .load .host) parts := by
  refine ⟨rfl, rfl, ?_⟩
  rintro ⟨parts, hsplit, -⟩
  cases hsplit

end UnifiedCache.Detail
