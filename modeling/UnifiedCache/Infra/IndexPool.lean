import UnifiedCache.Lib.LinkedChain
import UnifiedCache.Lib.Shares
import UnifiedCache.Lib.StepSystem

/-! The lock-free pool of indices. Free indices are a list that is linked through the nodes,
node `slot` for the index `slot - 1`, with a version beside the head. A call is several
steps: the load of the head, the access to a link and the exchange of the head. -/

namespace UnifiedCache.Infra

open StepSystem LinkedChain

namespace IndexPool

structure Node where
  idx : Nat
  next : Nat

structure Pointer where
  slot : Nat
  ver : Nat
  deriving DecidableEq

end IndexPool

structure IndexPool where
  capacity : Nat
  nodes : Nat → IndexPool.Node
  pointer : IndexPool.Pointer

namespace IndexPool

/-- A write to one of `size` nodes; there is no other node to write to. -/
def writeNode (size : Nat) (nodes : Nat → Node) (slot : Nat) (node : Node) : Option (Nat → Node) :=
  if slot < size then some (Function.update nodes slot node) else none

/-- Indices have 32 bits, so the number of nodes wraps. -/
def setup (capacity : Nat) : Option IndexPool :=
  let size := (capacity + 1) % 2 ^ 32
  ((List.range' 1 capacity).foldlM
    (fun nodes slot => writeNode size nodes slot ⟨slot - 1, slot + 1⟩) fun _ => ⟨0, 0⟩).bind
    fun nodes => (writeNode size nodes capacity { nodes capacity with next := 0 }).map
      fun nodes => { capacity := capacity, nodes := nodes, pointer := ⟨1, 0⟩ }

/-- Slot 0 ends the list. -/
def link : Nat → Option Nat
  | 0 => none
  | slot + 1 => some (slot + 1)

def links (pool : IndexPool) (slot : Nat) : Option Nat := link (pool.nodes slot).next

def setNext (pool : IndexPool) (slot next : Nat) : IndexPool :=
  { pool with nodes := Function.update pool.nodes slot { pool.nodes slot with next := next } }

/-- The indices that are met from the head. -/
def freeList (pool : IndexPool) : List Nat :=
  (walk pool.links pool.capacity (link pool.pointer.slot)).map fun slot => (pool.nodes slot).idx

/-- Where a thread is in a call. `seen` is the number of exchanges before the load of the
head, and `free` the list at the load. -/
inductive Call
  | idle
  | acquiring
  | acquireLoaded (ptr : Pointer) (seen : Nat) (free : List Nat)
  | acquireLinked (ptr : Pointer) (next : Nat) (seen : Nat)
  | acquired (slot : Nat)
  | releasing (slot : Nat)
  | releaseLoaded (slot : Nat) (ptr : Pointer)
  | releaseLinked (slot : Nat) (ptr : Pointer)

/-- The index that a call has taken off the list and not returned yet, or has been given
and not put on the list yet. -/
def Call.inFlight : Call → List Nat
  | .acquired slot => [slot - 1]
  | .releasing slot => [slot - 1]
  | .releaseLoaded slot _ => [slot - 1]
  | .releaseLinked slot _ => [slot - 1]
  | _ => []

/-- The pool with its users. `swaps` counts the exchanges that were made, and `refused` has
the free list at the last load of the head of each `Acquire` that returned `npos`. -/
structure State (Thread : Type) where
  pool : IndexPool
  swaps : Nat := 0
  calls : Thread → Call := fun _ => .idle
  held : Thread → List Nat := fun _ => []
  refused : List (List Nat) := []

inductive Event (Thread : Type)
  | acquire (t : Thread)
  | release (t : Thread) (idx : Nat)
  | load (t : Thread)
  | link (t : Thread)
  | exchange (t : Thread) (spurious : Bool)
  | finish (t : Thread)

variable {Thread : Type} [DecidableEq Thread]

def setCall (s : State Thread) (t : Thread) (c : Call) : State Thread :=
  { s with calls := Function.update s.calls t c }

def step (s : State Thread) : Event Thread → Option (State Thread)
  | .acquire t =>
    match s.calls t with
    | .idle => some (setCall s t .acquiring)
    | _ => none
  | .release t idx =>
    match s.calls t with
    | .idle =>
      if s.pool.capacity ≤ idx then some s
      else some (setCall { s with held := Function.update s.held t ((s.held t).erase idx) } t
        (.releasing (idx + 1)))
    | _ => none
  | .load t =>
    match s.calls t with
    | .acquiring => some (setCall s t (.acquireLoaded s.pool.pointer s.swaps (freeList s.pool)))
    | .releasing slot => some (setCall s t (.releaseLoaded slot s.pool.pointer))
    | _ => none
  | .link t =>
    match s.calls t with
    | .acquireLoaded ptr seen free =>
      if ptr.slot = 0 then some (setCall { s with refused := free :: s.refused } t .idle)
      else some (setCall s t (.acquireLinked ptr (s.pool.nodes ptr.slot).next seen))
    | .releaseLoaded slot ptr =>
      some (setCall { s with pool := s.pool.setNext slot ptr.slot } t (.releaseLinked slot ptr))
    | _ => none
  | .exchange t spurious =>
    match s.calls t with
    | .acquireLinked ptr next _ =>
      if spurious = false ∧ s.pool.pointer = ptr then
        let desired : Pointer := ⟨next, (ptr.ver + 1) % 2 ^ 32⟩
        some (setCall { s with pool := { s.pool with pointer := desired }, swaps := s.swaps + 1 } t
          (.acquired ptr.slot))
      else some (setCall s t .acquiring)
    | .releaseLinked slot ptr =>
      if spurious = false ∧ s.pool.pointer = ptr then
        let desired : Pointer := ⟨slot, (ptr.ver + 1) % 2 ^ 32⟩
        some (setCall { s with pool := { s.pool with pointer := desired }, swaps := s.swaps + 1 } t
          .idle)
      else some (setCall s t (.releasing slot))
    | _ => none
  | .finish t =>
    match s.calls t with
    | .acquired slot =>
      some (setCall { s with
        held := Function.update s.held t ((s.pool.nodes slot).idx :: s.held t) } t .idle)
    | _ => none

/-- A thread releases an index that it holds, and the version does not wrap between the
load of an `Acquire` and its exchange. -/
def Allowed (s : State Thread) : Event Thread → Prop
  | .release t idx => idx ∈ s.held t
  | .exchange t _ =>
    match s.calls t with
    | .acquireLinked _ _ seen => s.swaps < seen + 2 ^ 32
    | _ => True
  | _ => True

/-- Where every index is: on the free list, which has no thread, or with a thread. -/
def places (free : List Nat) (s : State Thread) : Option Thread → List Nat
  | none => free
  | some t => (s.calls t).inFlight ++ s.held t

/-- What the pool promises of a state: no index has two holders, every index is in one
place and there once, and an `Acquire` that got nothing loaded the head of an empty list. -/
structure HandsOut (s : State Thread) : Prop where
  holder : ∀ t t' idx, idx ∈ s.held t → idx ∈ s.held t' → t = t'
  conserved : Shares (places (freeList s.pool) s) (fun idx => idx < s.pool.capacity)
  refused : ∀ free ∈ s.refused, free = []

/-- The pool is set up, and keeps its promise in every run of its threads. -/
def Sound (Thread : Type) [DecidableEq Thread] (capacity : Nat) : Prop :=
  ∃ pool, setup capacity = some pool ∧
    ∀ s : State Thread, Reach step Allowed { pool := pool } s → s.pool.capacity = capacity ∧ HandsOut s

section Setup

variable {capacity n : Nat}

def setupNode (n slot : Nat) : Node :=
  if 1 ≤ slot ∧ slot ≤ n then ⟨slot - 1, slot + 1⟩ else ⟨0, 0⟩

theorem setup_loop {size : Nat} (hn : n < size) :
    (List.range' 1 n).foldlM (fun nodes slot => writeNode size nodes slot ⟨slot - 1, slot + 1⟩)
      (fun _ => ⟨0, 0⟩) = some (setupNode n) := by
  induction n with
  | zero =>
    have h0 : setupNode 0 = fun _ => ⟨0, 0⟩ := by
      funext slot
      exact if_neg (by omega)
    rw [h0]
    rfl
  | succ n ih =>
    have hlt : 1 + n < size := by omega
    rw [List.range'_1_concat, List.foldlM_append, ih (by omega)]
    simp only [Option.bind_eq_bind, Option.bind_some, List.foldlM_cons, List.foldlM_nil, writeNode,
      if_pos hlt]
    refine congrArg some (funext fun slot => ?_)
    by_cases he : slot = 1 + n
    · subst he
      rw [Function.update_self, setupNode, if_pos (by omega)]
    · rw [Function.update_of_ne he]
      exact if_congr (by omega) rfl rfl

/-- The pool with every index on the free list, in order. -/
def fresh (capacity : Nat) : IndexPool where
  capacity := capacity
  nodes := Function.update (setupNode capacity) capacity { setupNode capacity capacity with next := 0 }
  pointer := ⟨1, 0⟩

theorem setup_eq (hlt : capacity + 1 < 2 ^ 32) : setup capacity = some (fresh capacity) := by
  have hsize : (capacity + 1) % 2 ^ 32 = capacity + 1 := Nat.mod_eq_of_lt hlt
  have hw : ∀ nodes node, writeNode (capacity + 1) nodes capacity node =
      some (Function.update nodes capacity node) := fun _ _ => if_pos (Nat.lt_succ_self capacity)
  simp only [setup, hsize, setup_loop (Nat.lt_succ_self capacity), Option.bind_some, hw,
    Option.map_some, fresh]

theorem fresh_node {slot : Nat} (h0 : 0 < slot) (hle : slot ≤ capacity) :
    (fresh capacity).nodes slot = ⟨slot - 1, if slot = capacity then 0 else slot + 1⟩ := by
  have hin : setupNode capacity slot = ⟨slot - 1, slot + 1⟩ := if_pos (by omega)
  simp only [fresh]
  by_cases he : slot = capacity
  · subst he
    rw [Function.update_self, hin, if_pos rfl]
  · rw [Function.update_of_ne he, hin, if_neg he]

theorem fresh_chain (m : Nat) {n : Nat} (hn : n + m + 1 = capacity) :
    Fwd (fresh capacity).links (link (n + 1)) (List.range' (n + 1) (m + 1)) := by
  induction m generalizing n with
  | zero =>
    have hnext : ((fresh capacity).nodes (n + 1)).next = 0 := by
      rw [fresh_node (by omega) (by omega), if_pos (by omega)]
    refine ⟨rfl, ?_⟩
    rw [links, hnext]
    rfl
  | succ m ih =>
    have hnext : ((fresh capacity).nodes (n + 1)).next = n + 1 + 1 := by
      rw [fresh_node (by omega) (by omega), if_neg (by omega)]
    refine ⟨rfl, ?_⟩
    rw [links, hnext]
    exact ih (by omega)

/-- With the largest capacity there is no node at all, and the first write misses. -/
theorem setup_max : setup (2 ^ 32 - 1) = none := by
  have hr : List.range' 1 (2 ^ 32 - 1) = 1 :: List.range' 2 (2 ^ 32 - 2) := List.range'_succ
  have hw : ∀ nodes node, writeNode ((2 ^ 32 - 1 + 1) % 2 ^ 32) nodes 1 node = none :=
    fun _ _ => if_neg (by omega)
  simp only [setup, hr, List.foldlM_cons, hw]
  rfl

end Setup

section Invariant

variable {capacity : Nat} {s s' : State Thread} {e : Event Thread} {t : Thread} {c : Call}
  {pool : IndexPool} {free : List Nat} {idx slot : Nat}

def Call.Ok (pool : IndexPool) (swaps : Nat) : Call → Prop
  | .idle => True
  | .acquiring => True
  | .acquireLoaded ptr seen free =>
    seen ≤ swaps ∧ ptr.ver = seen % 2 ^ 32 ∧ (seen = swaps → ptr = pool.pointer) ∧
      (ptr.slot = 0 → free = [])
  | .acquireLinked ptr next seen =>
    seen ≤ swaps ∧ ptr.ver = seen % 2 ^ 32 ∧ ptr.slot ≠ 0 ∧
      (seen = swaps → ptr = pool.pointer ∧ next = (pool.nodes ptr.slot).next)
  | .acquired slot => 0 < slot
  | .releasing slot => 0 < slot
  | .releaseLoaded slot _ => 0 < slot
  | .releaseLinked slot ptr => 0 < slot ∧ (pool.nodes slot).next = ptr.slot

structure Inv (capacity : Nat) (s : State Thread) : Prop where
  capacity_eq : s.pool.capacity = capacity
  idx : ∀ slot, 0 < slot → slot ≤ capacity → (s.pool.nodes slot).idx = slot - 1
  ver : s.pool.pointer.ver = s.swaps % 2 ^ 32
  free : ∃ free, Fwd s.pool.links (link s.pool.pointer.slot) (free.map (· + 1)) ∧
    Shares (places free s) (fun idx => idx < capacity)
  calls : ∀ t, (s.calls t).Ok s.pool s.swaps
  refused : ∀ free ∈ s.refused, free = []

theorem setNext_idx (pool : IndexPool) (slot next x : Nat) :
    ((pool.setNext slot next).nodes x).idx = (pool.nodes x).idx := by
  by_cases he : x = slot
  · subst he
    simp [setNext]
  · simp [setNext, he]

@[simp] theorem setNext_next_self (pool : IndexPool) (slot next : Nat) :
    ((pool.setNext slot next).nodes slot).next = next := by
  simp [setNext]

theorem setNext_next_of_ne {x next : Nat} (h : x ≠ slot) :
    ((pool.setNext slot next).nodes x).next = (pool.nodes x).next := by
  simp [setNext, h]

@[simp] theorem link_succ (n : Nat) : link (n + 1) = some (n + 1) := rfl

theorem eq_of_link {n : Nat} (h : link n = some slot) : n = slot := by
  cases n with
  | zero => cases h
  | succ n => exact Option.some.inj h

omit [DecidableEq Thread] in
theorem inv_fresh (hc : 1 ≤ capacity) :
    Inv capacity ({ pool := fresh capacity } : State Thread) where
  capacity_eq := rfl
  idx := fun slot h0 hle => congrArg Node.idx (fresh_node h0 hle)
  ver := rfl
  free := by
    have hchain : Fwd (fresh capacity).links (link 1) ((List.range capacity).map (· + 1)) := by
      obtain ⟨m, rfl⟩ := Nat.exists_eq_add_of_le' hc
      have hmap : (List.range (m + 1)).map (· + 1) = List.range' (0 + 1) (m + 1) := by
        rw [List.range'_eq_map_range]
        exact List.map_congr_left fun x _ => by omega
      rw [hmap]
      exact fresh_chain m (by omega)
    refine ⟨List.range capacity, hchain, fun k => ?_, fun k k' x hx hx' => ?_, fun x => ?_⟩
    · cases k with
      | none => exact List.nodup_range
      | some t => exact List.nodup_nil
    · cases k with
      | none =>
        cases k' with
        | none => rfl
        | some t => cases hx'
      | some t => cases hx
    · constructor
      · intro hx
        exact ⟨none, List.mem_range.mpr hx⟩
      · rintro ⟨_ | t, hx⟩
        · exact List.mem_range.mp hx
        · cases hx
  calls := fun _ => trivial
  refused := fun _ h => absurd h List.not_mem_nil

theorem setCall_calls_self : (setCall s t c).calls t = c := Function.update_self ..

theorem setCall_calls_of_ne {t' : Thread} (h : t' ≠ t) : (setCall s t c).calls t' = s.calls t' :=
  Function.update_of_ne h ..

theorem places_setCall_of_ne {k : Option Thread} (h : k ≠ some t) :
    places free (setCall s t c) k = places free s k := by
  cases k with
  | none => rfl
  | some t' =>
    simp only [places]
    rw [setCall_calls_of_ne fun he => h (congrArg some he)]
    rfl

theorem places_setCall_self :
    places free (setCall s t c) (some t) = c.inFlight ++ s.held t := by
  simp only [places]
  rw [setCall_calls_self]
  rfl

theorem calls_setCall {pool : IndexPool} {swaps : Nat} (hc : c.Ok pool swaps)
    (ho : ∀ t', t' ≠ t → (s.calls t').Ok pool swaps) (t' : Thread) :
    ((setCall s t c).calls t').Ok pool swaps := by
  by_cases he : t' = t
  · subst he
    rw [setCall_calls_self]
    exact hc
  · rw [setCall_calls_of_ne he]
    exact ho t' he

/-- A thread goes on without an index changing its place. -/
theorem Inv.setCall (hi : Inv capacity s) (hf : c.inFlight = (s.calls t).inFlight)
    (hok : c.Ok s.pool s.swaps) : Inv capacity (setCall s t c) := by
  obtain ⟨free, hchain, hshares⟩ := hi.free
  refine ⟨hi.capacity_eq, hi.idx, hi.ver, ⟨free, hchain, hshares.perm fun k => ?_⟩,
    calls_setCall hok fun t' _ => hi.calls t', hi.refused⟩
  by_cases hk : k = some t
  · subst hk
    rw [places_setCall_self, hf]
    exact List.Perm.refl _
  · rw [places_setCall_of_ne hk]

theorem Inv.acquire (hi : Inv capacity s) (h : step s (.acquire t) = some s') : Inv capacity s' := by
  simp only [step] at h
  split at h
  next hc =>
    cases h
    exact hi.setCall (by rw [hc]; rfl) trivial
  next => cases h

theorem Inv.release (hi : Inv capacity s) (hg : idx ∈ s.held t)
    (h : step s (.release t idx) = some s') : Inv capacity s' := by
  simp only [step] at h
  split at h
  next hc =>
    split_ifs at h with hle
    · cases h
      exact hi
    · cases h
      obtain ⟨free, hchain, hshares⟩ := hi.free
      refine ⟨hi.capacity_eq, hi.idx, hi.ver, ⟨free, hchain, hshares.perm fun k => ?_⟩,
        calls_setCall (Nat.succ_pos idx) fun t' _ => hi.calls t', hi.refused⟩
      by_cases hk : k = some t
      · subst hk
        rw [places_setCall_self]
        have hheld : Function.update s.held t ((s.held t).erase idx) t = (s.held t).erase idx :=
          Function.update_self ..
        simp only [places, hc, hheld, Call.inFlight, Nat.add_sub_cancel]
        exact (List.perm_cons_erase hg).symm
      · rw [places_setCall_of_ne hk]
        cases k with
        | none => exact List.Perm.refl _
        | some t' =>
          have hne : t' ≠ t := fun he => hk (congrArg some he)
          simp only [places, Function.update_of_ne hne]
          exact List.Perm.refl _
  next => cases h

theorem Inv.load (hi : Inv capacity s) (h : step s (.load t) = some s') : Inv capacity s' := by
  simp only [step] at h
  have hok := hi.calls t
  split at h
  next hc =>
    cases h
    refine hi.setCall (by rw [hc]; rfl) ⟨le_rfl, hi.ver, fun _ => rfl, fun h0 => ?_⟩
    rw [freeList, h0]
    cases s.pool.capacity <;> rfl
  next slot hc =>
    rw [hc] at hok
    cases h
    exact hi.setCall (by rw [hc]; rfl) hok
  next => cases h

/-- Only the thread that releases an index writes its link: the free list and what another
thread has read of it stay. -/
theorem Inv.link (hi : Inv capacity s) (h : step s (.link t) = some s') : Inv capacity s' := by
  simp only [step] at h
  have hok := hi.calls t
  split at h
  next ptr seen free hc =>
    rw [hc] at hok
    obtain ⟨hle, hver, hptr, hempty⟩ := hok
    split_ifs at h with h0
    · cases h
      have hset := hi.setCall (c := .idle) (by rw [hc]; rfl) trivial
      refine ⟨hset.capacity_eq, hset.idx, hset.ver, hset.free, hset.calls, fun free' hm => ?_⟩
      rcases List.mem_cons.mp hm with rfl | hm
      · exact hempty h0
      · exact hi.refused free' hm
    · cases h
      refine hi.setCall (by rw [hc]; rfl) ⟨hle, hver, h0, fun he => ⟨hptr he, ?_⟩⟩
      rfl
  next slot ptr hc =>
    rw [hc] at hok
    cases h
    obtain ⟨free, hchain, hshares⟩ := hi.free
    have hpos : 0 < slot := hok
    have hmine : slot - 1 ∈ places free s (some t) := by simp [places, hc, Call.inFlight]
    have hnot : ∀ x ∈ free.map (· + 1), x ≠ slot := by
      intro x hx he
      obtain ⟨y, hy, rfl⟩ := List.mem_map.mp hx
      have hy' : slot - 1 ∈ places free s none := by
        rw [← he]
        exact hy
      cases hshares.disjoint _ _ _ hy' hmine
    have hlinks : ∀ x ∈ free.map (· + 1), (s.pool.setNext slot ptr.slot).links x = s.pool.links x :=
      fun x hx => congrArg IndexPool.link (setNext_next_of_ne (hnot x hx))
    refine ⟨hi.capacity_eq, fun slot' h0 hle => (setNext_idx ..).trans (hi.idx slot' h0 hle), hi.ver,
      ⟨free, hchain.congr hlinks, hshares.perm fun k => ?_⟩,
      calls_setCall ⟨hpos, setNext_next_self ..⟩ fun t' hne => ?_, hi.refused⟩
    · by_cases hk : k = some t
      · subst hk
        rw [places_setCall_self]
        simp only [places, hc]
        exact List.Perm.refl _
      · rw [places_setCall_of_ne hk]
        cases k <;> exact List.Perm.refl _
    · -- a link that another thread knows is on the free list, or is of an index of its own
      have hok := hi.calls t'
      change (s.calls t').Ok _ _
      cases hc' : s.calls t' with
      | acquireLinked ptr' next seen =>
        rw [hc'] at hok
        obtain ⟨hle, hver, h0, hseen⟩ := hok
        refine ⟨hle, hver, h0, fun he => ?_⟩
        obtain ⟨hptr, hnext⟩ := hseen he
        have hmem : ptr'.slot ∈ free.map (· + 1) := by
          obtain ⟨n, hn⟩ := Nat.exists_eq_succ_of_ne_zero h0
          have hhead := hchain.head_eq
          rw [← hptr, hn] at hhead
          rw [hn]
          exact List.mem_of_mem_head? hhead.symm
        exact ⟨hptr, hnext.trans (setNext_next_of_ne (hnot _ hmem)).symm⟩
      | releaseLinked slot' ptr' =>
        rw [hc'] at hok
        have hne' : slot' ≠ slot := by
          rintro rfl
          have hother : slot' - 1 ∈ places free s (some t') := by simp [places, hc', Call.inFlight]
          exact hne (Option.some.inj (hshares.disjoint _ _ _ hother hmine))
        exact ⟨hok.1, (setNext_next_of_ne hne').trans hok.2⟩
      | _ =>
        rw [hc'] at hok
        exact hok
  next => cases h

/-- What another thread has loaded is out of date after an exchange. -/
theorem Call.Ok.exchange {pointer : Pointer} {swaps : Nat} (h : c.Ok pool swaps) :
    c.Ok { pool with pointer := pointer } (swaps + 1) := by
  cases c with
  | acquireLoaded ptr seen free =>
    exact ⟨Nat.le_succ_of_le h.1, h.2.1, fun he => absurd h.1 (by omega), h.2.2.2⟩
  | acquireLinked ptr next seen =>
    exact ⟨Nat.le_succ_of_le h.1, h.2.1, h.2.2.1, fun he => absurd h.1 (by omega)⟩
  | _ => exact h

theorem ver_succ {ver swaps : Nat} (h : ver = swaps % 2 ^ 32) :
    (ver + 1) % 2 ^ 32 = (swaps + 1) % 2 ^ 32 := by
  omega

theorem Inv.acquireExchange {ptr : Pointer} {next seen : Nat} (hi : Inv capacity s)
    (hc : s.calls t = .acquireLinked ptr next seen) (hg : s.swaps < seen + 2 ^ 32)
    (hp : s.pool.pointer = ptr) :
    Inv capacity (IndexPool.setCall { s with
      pool := { s.pool with pointer := ⟨next, (ptr.ver + 1) % 2 ^ 32⟩ }
      swaps := s.swaps + 1 } t (.acquired ptr.slot)) := by
  have hok := hi.calls t
  rw [hc] at hok
  obtain ⟨hle, hver, h0, hseen⟩ := hok
  obtain ⟨free, hchain, hshares⟩ := hi.free
  have hv := hi.ver
  rw [hp] at hv hchain
  -- equal versions less than a lap apart
  have he : seen = s.swaps := by omega
  obtain ⟨-, hnext⟩ := hseen he
  obtain ⟨n, hn⟩ := Nat.exists_eq_succ_of_ne_zero h0
  rw [hn] at hchain
  cases free with
  | nil => cases hchain
  | cons x free =>
    obtain ⟨hx, htail⟩ := hchain
    have hx : n = x := Nat.succ.inj (Option.some.inj hx)
    subst hx
    refine ⟨hi.capacity_eq, hi.idx, ver_succ hv, ⟨free, ?_, ?_⟩,
      calls_setCall (Nat.pos_of_ne_zero h0) fun t' _ => (hi.calls t').exchange, hi.refused⟩
    · rw [hnext, hn]
      exact htail
    · refine hshares.move (i := none) (j := some t) (x := n) (Option.some_ne_none t).symm
        (List.Perm.refl _) ?_ fun k hk hk' => ?_
      · rw [places_setCall_self]
        simp only [places, hc, Call.inFlight, hn, Nat.succ_sub_one, List.nil_append]
        exact List.Perm.refl _
      · rw [places_setCall_of_ne hk']
        cases k with
        | none => exact absurd rfl hk
        | some t' => rfl

theorem Inv.releaseExchange {ptr : Pointer} (hi : Inv capacity s)
    (hc : s.calls t = .releaseLinked slot ptr) (hp : s.pool.pointer = ptr) :
    Inv capacity (IndexPool.setCall { s with
      pool := { s.pool with pointer := ⟨slot, (ptr.ver + 1) % 2 ^ 32⟩ }
      swaps := s.swaps + 1 } t .idle) := by
  have hok := hi.calls t
  rw [hc] at hok
  obtain ⟨h0, hnext⟩ := hok
  obtain ⟨free, hchain, hshares⟩ := hi.free
  have hv := hi.ver
  rw [hp] at hv hchain
  obtain ⟨n, hn⟩ := Nat.exists_eq_succ_of_ne_zero (Nat.ne_of_gt h0)
  subst hn
  refine ⟨hi.capacity_eq, hi.idx, ver_succ hv, ⟨n :: free, ⟨rfl, ?_⟩, ?_⟩,
    calls_setCall trivial fun t' _ => (hi.calls t').exchange, hi.refused⟩
  · change Fwd s.pool.links (IndexPool.link (s.pool.nodes (n + 1)).next) _
    rw [hnext]
    exact hchain
  · refine hshares.move (i := some t) (j := none) (x := n) (Option.some_ne_none t) ?_
      (List.Perm.refl _) fun k hk hk' => ?_
    · rw [places_setCall_self]
      simp only [places, hc, Call.inFlight, Nat.succ_sub_one, List.nil_append]
      exact List.Perm.refl _
    · rw [places_setCall_of_ne hk]
      cases k with
      | none => exact absurd rfl hk'
      | some t' => rfl

theorem Inv.exchange {spurious : Bool} (hi : Inv capacity s) (hg : Allowed s (.exchange t spurious))
    (h : step s (.exchange t spurious) = some s') : Inv capacity s' := by
  simp only [step] at h
  have hok := hi.calls t
  split at h
  next ptr next seen hc =>
    simp only [Allowed, hc] at hg
    split_ifs at h with hp
    · cases h
      exact hi.acquireExchange hc hg hp.2
    · cases h
      exact hi.setCall (by rw [hc]; rfl) trivial
  next slot ptr hc =>
    rw [hc] at hok
    split_ifs at h with hp
    · cases h
      exact hi.releaseExchange hc hp.2
    · cases h
      exact hi.setCall (by rw [hc]; rfl) hok.1
  next => cases h

theorem Inv.finish (hi : Inv capacity s) (h : step s (.finish t) = some s') : Inv capacity s' := by
  simp only [step] at h
  have hok := hi.calls t
  split at h
  next slot hc =>
    rw [hc] at hok
    cases h
    obtain ⟨free, hchain, hshares⟩ := hi.free
    have hin : slot - 1 < capacity :=
      (hshares.cover _).mpr ⟨some t, by simp [places, hc, Call.inFlight]⟩
    have hidx : (s.pool.nodes slot).idx = slot - 1 := hi.idx slot hok (by omega)
    refine ⟨hi.capacity_eq, hi.idx, hi.ver, ⟨free, hchain, hshares.perm fun k => ?_⟩,
      calls_setCall trivial fun t' _ => hi.calls t', hi.refused⟩
    by_cases hk : k = some t
    · subst hk
      rw [places_setCall_self]
      simp only [places, hc, Call.inFlight, Function.update_self, hidx]
      exact List.Perm.refl _
    · rw [places_setCall_of_ne hk]
      cases k with
      | none => exact List.Perm.refl _
      | some t' =>
        have hne : t' ≠ t := fun he => hk (congrArg some he)
        simp only [places, Function.update_of_ne hne]
        exact List.Perm.refl _
  next => cases h

theorem Inv.step (hi : Inv capacity s) (hg : Allowed s e) (h : step s e = some s') :
    Inv capacity s' := by
  cases e with
  | acquire t => exact hi.acquire h
  | release t idx => exact hi.release hg h
  | load t => exact hi.load h
  | link t => exact hi.link h
  | exchange t spurious => exact hi.exchange hg h
  | finish t => exact hi.finish h

omit [DecidableEq Thread] in
theorem Inv.handsOut (hi : Inv capacity s) : HandsOut s := by
  obtain ⟨free, hchain, hshares⟩ := hi.free
  have hin : ∀ x ∈ free, x < capacity := fun x hx => (hshares.cover x).mpr ⟨none, hx⟩
  have hlen : free.length ≤ capacity := by
    have hsub : free.Subperm (List.range capacity) :=
      (hshares.nodup none).subperm fun x hx => List.mem_range.mpr (hin x hx)
    have hle := hsub.length_le
    rwa [List.length_range] at hle
  have hlist : freeList s.pool = free := by
    rw [freeList, hchain.walk_eq (by simpa [hi.capacity_eq] using hlen), List.map_map]
    conv_rhs => rw [← List.map_id free]
    refine List.map_congr_left fun x hx => ?_
    exact hi.idx (x + 1) (Nat.succ_pos x) (hin x hx)
  refine ⟨fun t t' idx hm hm' => ?_, ?_, hi.refused⟩
  · exact Option.some.inj (hshares.disjoint (some t) (some t') idx (List.mem_append_right _ hm)
      (List.mem_append_right _ hm'))
  · rw [hlist, hi.capacity_eq]
    exact hshares

theorem sound (hc : 1 ≤ capacity) (hlt : capacity + 1 < 2 ^ 32) : Sound Thread capacity := by
  refine ⟨fresh capacity, setup_eq hlt, fun s hs => ?_⟩
  have hi : Inv capacity s := hs.invariant (Inv capacity) (inv_fresh hc) fun _ _ _ hi hg hs => hi.step hg hs
  exact ⟨hi.capacity_eq, hi.handsOut⟩

/-- Every capacity of 32 bits works except the largest one. -/
theorem sound_iff (Thread : Type) [DecidableEq Thread] {capacity : Nat} (hc : 1 ≤ capacity)
    (hw : capacity < 2 ^ 32) : Sound Thread capacity ↔ capacity + 1 < 2 ^ 32 := by
  constructor
  · rintro ⟨pool, hs, -⟩
    by_contra hlt
    have he : capacity = 2 ^ 32 - 1 := by omega
    rw [he, setup_max] at hs
    cases hs
  · exact sound hc

theorem sound_iff_two : Sound Bool 2 ↔ 2 + 1 < 2 ^ 32 :=
  sound_iff Bool (by decide) (by decide)

theorem not_sound_max : ¬ Sound Bool (2 ^ 32 - 1) := by
  rintro ⟨pool, hs, -⟩
  rw [setup_max] at hs
  cases hs

end Invariant

end IndexPool

end UnifiedCache.Infra
