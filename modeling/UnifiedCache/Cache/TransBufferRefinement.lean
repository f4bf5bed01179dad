import UnifiedCache.Cache.TransBufferChains
import UnifiedCache.Lib.PinnedPool

/-! The buffer refines a pool of pinned nodes whose keys are (block, shard)
pairs: the bucket chains are an index of the keys, and a node outside every
chain has no key. -/

namespace UnifiedCache.CacheStore.TransBuffer

open LinkedChain

def keyOf (tb : TransBuffer) (i : Nat) : BlockId × Nat := ((tb.metaAt i).block, (tb.metaAt i).shard)

def pool (tb : TransBuffer) : PinnedPool (BlockId × Nat) where
  nNode := tb.nNode
  hand := tb.freeHead
  key := fun i => if (tb.hashOf i).isSome then some (tb.keyOf i) else none
  reference := fun i => (tb.metaAt i).reference
  ready := fun i => (tb.metaAt i).ready

structure WellFormed (hashers : Hashers) (tb : TransBuffer) : Prop where
  linked : ∃ chain, Linked tb chain
  hashed : ∀ i b, tb.hashOf i = some b → hashers.hash (tb.keyOf i).1 (tb.keyOf i).2 = b
  ok : tb.pool.Ok

variable {hashers : Hashers} {tb tb' : TransBuffer} {chain : Nat → List Nat} {i b : Nat}
  {blockId : BlockId} {shardIdx : Nat}

theorem pool_key_eq_some_iff {k : BlockId × Nat} :
    tb.pool.key i = some k ↔ tb.keyOf i = k ∧ ∃ b, tb.hashOf i = some b := by
  cases h : tb.hashOf i <;> simp [pool, h]

theorem pool_setup (n : Nat) : (setup n).pool = PinnedPool.start n := rfl

theorem wellFormed_setup {n : Nat} (hn : 1 ≤ n) : WellFormed hashers (setup n) :=
  ⟨⟨_, linked_setup n⟩, fun _ _ h => (by cases h), PinnedPool.ok_start hn⟩

/-- A change that leaves the links, the hashes and the keys alone. -/
theorem WellFormed.congr (h : WellFormed hashers tb) (hn : tb'.nextOf = tb.nextOf)
    (hp : tb'.prevOf = tb.prevOf) (hh : tb'.hashOf = tb.hashOf) (hb : tb'.buckets = tb.buckets)
    (hk : tb'.keyOf = tb.keyOf) (hok : tb'.pool.Ok) : WellFormed hashers tb' := by
  obtain ⟨chain, hl⟩ := h.linked
  refine ⟨⟨chain, hl.congr hn hp hh hb⟩, fun i b hi => ?_, hok⟩
  rw [hh] at hi
  rw [hk]
  exact h.hashed i b hi

section Modify

variable {f : BufferMetaNode → BufferMetaNode} (hn : ∀ m, (f m).next = m.next)
  (hp : ∀ m, (f m).prev = m.prev) (hh : ∀ m, (f m).hash = m.hash)
  (hk : ∀ m, ((f m).block, (f m).shard) = (m.block, m.shard))

include hn hp hh hk in
theorem WellFormed.modify (h : WellFormed hashers tb) :
    WellFormed hashers (tb.modify i f) := by
  have hhash : (tb.modify i f).hashOf = tb.hashOf := modify_frame _ hh
  have hkey : (tb.modify i f).keyOf = tb.keyOf :=
    modify_frame (fun m => (m.block, m.shard)) hk
  have hpool : (tb.modify i f).pool.key = tb.pool.key := by
    funext j
    simp only [pool, hhash, hkey]
  refine h.congr (modify_frame _ hn) (modify_frame _ hp) hhash rfl hkey ⟨?_, ?_, h.ok.hand⟩
  · rw [hpool]
    exact h.ok.bound
  · rw [hpool]
    exact h.ok.unique

include hh hk in
theorem pool_modify : (tb.modify i f).pool =
    { tb.pool with
      reference := Function.update tb.pool.reference i (f (tb.metaAt i)).reference
      ready := Function.update tb.pool.ready i (f (tb.metaAt i)).ready } := by
  have hhash : (tb.modify i f).hashOf = tb.hashOf := modify_frame _ hh
  have hkey : (tb.modify i f).keyOf = tb.keyOf :=
    modify_frame (fun m => (m.block, m.shard)) hk
  refine PinnedPool.ext rfl rfl ?_ (modify_field (·.reference) f) (modify_field (·.ready) f)
  funext j
  simp only [pool, hhash, hkey]

end Modify

theorem WellFormed.acquire (h : WellFormed hashers tb) (i : Nat) : WellFormed hashers (tb.acquire i) :=
  h.modify (fun _ => rfl) (fun _ => rfl) (fun _ => rfl) fun _ => rfl

theorem WellFormed.release (h : WellFormed hashers tb) (i : Nat) : WellFormed hashers (tb.release i) :=
  h.modify (fun _ => rfl) (fun _ => rfl) (fun _ => rfl) fun _ => rfl

theorem WellFormed.markReady (h : WellFormed hashers tb) (i : Nat) :
    WellFormed hashers (tb.markReady i) :=
  h.modify (fun _ => rfl) (fun _ => rfl) (fun _ => rfl) fun _ => rfl

theorem pool_acquire (i : Nat) : (tb.acquire i).pool = tb.pool.pin i := by
  have h : (tb.acquire i).pool = _ := pool_modify (fun _ => rfl) fun _ => rfl
  rw [h]
  exact PinnedPool.ext rfl rfl rfl rfl (Function.update_eq_self i _)

theorem pool_release (i : Nat) : (tb.release i).pool = tb.pool.unpin i := by
  have h : (tb.release i).pool = _ := pool_modify (fun _ => rfl) fun _ => rfl
  rw [h]
  exact PinnedPool.ext rfl rfl rfl rfl (Function.update_eq_self i _)

theorem pool_markReady (i : Nat) : (tb.markReady i).pool = tb.pool.markReady i := by
  have h : (tb.markReady i).pool = _ := pool_modify (fun _ => rfl) fun _ => rfl
  rw [h]
  exact PinnedPool.ext rfl rfl rfl (Function.update_eq_self i _) rfl

section Walk

theorem walk_eq_find? {fuel : Nat} {head : Option Nat} {l : List Nat} (h : Fwd tb.nextOf head l)
    (hf : l.length ≤ fuel) : tb.walk blockId shardIdx fuel head =
      some (l.find? fun i => decide (tb.keyOf i = (blockId, shardIdx))) := by
  induction l generalizing head fuel with
  | nil =>
    obtain rfl : head = none := h
    cases fuel <;> rfl
  | cons x l ih =>
    obtain ⟨rfl, h⟩ := h
    obtain ⟨fuel, rfl⟩ : ∃ n, fuel = n + 1 := ⟨fuel - 1, by simp at hf; omega⟩
    rw [walk, List.find?_cons]
    by_cases hx : (tb.metaAt x).block = blockId ∧ (tb.metaAt x).shard = shardIdx
    · simp [keyOf, hx]
    · have hne : tb.keyOf x ≠ (blockId, shardIdx) := fun he => hx (Prod.mk.inj he)
      simp only [hx, if_false, hne, decide_false]
      exact ih h (by simpa using hf)

theorem Linked.length_le (h : Linked tb chain) (hok : tb.pool.Ok) (b : Nat) :
    (chain b).length ≤ tb.nNode := by
  have hs : chain b ⊆ List.range tb.nNode := by
    intro i hi
    exact List.mem_range.mpr (hok.bound i _ (pool_key_eq_some_iff.mpr ⟨rfl, b, (h.mem b i).mp hi⟩))
  simpa using (List.subperm_of_subset (h.nodup b) hs).length_le

/-- The walk of a key's bucket finds the node of the key. -/
theorem WellFormed.walk_eq (h : WellFormed hashers tb) (blockId : BlockId) (shardIdx : Nat) :
    tb.walk blockId shardIdx tb.nNode (tb.buckets (hashers.hash blockId shardIdx)) =
      some (tb.pool.find (blockId, shardIdx)) := by
  obtain ⟨chain, hl⟩ := h.linked
  rw [walk_eq_find? (hl.fwd _) (hl.length_le h.ok _)]
  congr 1
  cases hf : (chain (hashers.hash blockId shardIdx)).find? fun i =>
      decide (tb.keyOf i = (blockId, shardIdx)) with
  | some i =>
    have hk : tb.keyOf i = (blockId, shardIdx) := by simpa using List.find?_some hf
    have hm := (hl.mem _ i).mp (List.mem_of_find?_eq_some hf)
    exact (h.ok.find_eq_some_iff.mpr (pool_key_eq_some_iff.mpr ⟨hk, _, hm⟩)).symm
  | none =>
    refine (h.ok.find_eq_none_iff.mpr fun i hi => ?_).symm
    obtain ⟨hk, b, hb⟩ := pool_key_eq_some_iff.mp hi
    have hm : i ∈ chain (hashers.hash blockId shardIdx) := by
      rw [hl.mem, hb, ← h.hashed i b hb, hk]
    rw [List.find?_eq_none] at hf
    exact hf i hm (by simpa using hk)

theorem WellFormed.exist_eq (h : WellFormed hashers tb) :
    tb.exist hashers blockId shardIdx = some (tb.pool.find (blockId, shardIdx)).isSome := by
  rw [exist, existAt, h.walk_eq]
  rfl

end Walk

section Alloc

/-- The node that a round of `Alloc` takes, after its bucket has been changed. -/
def takeNode (tb : TransBuffer) (blockId : BlockId) (shardIdx iNode : Nat) : TransBuffer :=
  tb.modify iNode fun m =>
    { m with reference := m.reference + 1, block := blockId, shard := shardIdx, ready := false }

variable {x : Nat}

theorem hashOf_takeNode : (tb.takeNode blockId shardIdx x).hashOf = tb.hashOf :=
  modify_frame (·.hash) fun _ => rfl

theorem keyOf_takeNode :
    (tb.takeNode blockId shardIdx x).keyOf = Function.update tb.keyOf x (blockId, shardIdx) :=
  modify_field (fun m => (m.block, m.shard)) _

theorem keyOf_rebucket : (tb.rebucket b x).keyOf = tb.keyOf := by
  funext i
  exact rebucket_frame (fun m => (m.block, m.shard)) (fun _ _ => rfl) (fun _ _ => rfl)
    (fun _ _ => rfl) i

theorem hashOf_taken (h : Linked tb chain) :
    ((tb.rebucket b x).takeNode blockId shardIdx x).hashOf =
      Function.update tb.hashOf x (some b) := by
  obtain ⟨_, _, hh⟩ := h.rebucket (b := b) (x := x)
  rw [hashOf_takeNode, hh]

theorem keyOf_taken : ((tb.rebucket b x).takeNode blockId shardIdx x).keyOf =
    Function.update tb.keyOf x (blockId, shardIdx) := by
  rw [keyOf_takeNode, keyOf_rebucket]

theorem pool_taken (h : Linked tb chain) :
    ((tb.rebucket b x).takeNode blockId shardIdx x).pool = tb.pool.rekey x (blockId, shardIdx) := by
  have hr : ∀ i, ((tb.rebucket b x).metaAt i).reference = (tb.metaAt i).reference :=
    rebucket_frame (·.reference) (fun _ _ => rfl) (fun _ _ => rfl) fun _ _ => rfl
  have hd : ∀ i, ((tb.rebucket b x).metaAt i).ready = (tb.metaAt i).ready :=
    rebucket_frame (·.ready) (fun _ _ => rfl) (fun _ _ => rfl) fun _ _ => rfl
  refine PinnedPool.ext rebucket_nNode.1 rebucket_nNode.2 ?_ ?_ ?_
  · funext i
    simp only [pool, hashOf_taken h, keyOf_taken, PinnedPool.rekey]
    by_cases hi : i = x
    · rw [hi]
      simp
    · simp [hi]
  · refine (modify_field (·.reference) _).trans ?_
    simp only [hr]
    rfl
  · refine (modify_field (·.ready) _).trans ?_
    simp only [hd]
    rfl

theorem WellFormed.taken (h : WellFormed hashers tb) (hx : x < tb.nNode)
    (hk : ∀ j, tb.pool.key j ≠ some (blockId, shardIdx)) :
    WellFormed hashers
      ((tb.rebucket (hashers.hash blockId shardIdx) x).takeNode blockId shardIdx x) := by
  obtain ⟨chain, hl⟩ := h.linked
  obtain ⟨chain', hl', _⟩ := hl.rebucket (b := hashers.hash blockId shardIdx) (x := x)
  refine ⟨⟨chain', ?_⟩, fun i b hi => ?_, ?_⟩
  · exact hl'.congr (modify_frame _ fun _ => rfl) (modify_frame _ fun _ => rfl)
      (modify_frame _ fun _ => rfl) rfl
  · rw [hashOf_taken hl] at hi
    rw [keyOf_taken]
    by_cases hix : i = x
    · rw [hix, Function.update_self] at hi ⊢
      exact Option.some.inj hi
    · rw [Function.update_of_ne hix] at hi ⊢
      exact h.hashed i b hi
  · rw [pool_taken hl]
    exact h.ok.rekey hx hk

theorem pool_fetchNode : tb.fetchNode.2.pool = tb.pool.advance := rfl

theorem WellFormed.fetchNode (h : WellFormed hashers tb) : WellFormed hashers tb.fetchNode.2 :=
  h.congr rfl rfl rfl rfl rfl h.ok.advance

/-- A round of `Alloc` is a round of the clock. -/
theorem WellFormed.allocRound (h : WellFormed hashers tb)
    (hk : ∀ j, tb.pool.key j ≠ some (blockId, shardIdx)) :
    WellFormed hashers (tb.allocRound blockId shardIdx (hashers.hash blockId shardIdx)).1 ∧
      tb.pool.round (blockId, shardIdx) =
        ((tb.allocRound blockId shardIdx (hashers.hash blockId shardIdx)).1.pool,
          (tb.allocRound blockId shardIdx (hashers.hash blockId shardIdx)).2) := by
  obtain ⟨chain, hl⟩ := h.fetchNode.linked
  have hround : tb.allocRound blockId shardIdx (hashers.hash blockId shardIdx) =
      if 0 < tb.pool.reference tb.pool.hand then (tb.fetchNode.2, none)
      else ((tb.fetchNode.2.rebucket (hashers.hash blockId shardIdx) tb.freeHead).takeNode
        blockId shardIdx tb.freeHead, some tb.freeHead) := rfl
  rw [hround]
  rcases tb.pool.round_cases (blockId, shardIdx) with ⟨hr, he⟩ | ⟨hr, he⟩ <;> rw [he]
  · rw [if_pos hr]
    exact ⟨h.fetchNode, rfl⟩
  · rw [if_neg (by omega)]
    refine ⟨h.fetchNode.taken h.ok.hand hk, ?_⟩
    rw [pool_taken hl, pool_fetchNode]
    rfl

theorem WellFormed.alloc (h : WellFormed hashers tb)
    (hk : ∀ j, tb.pool.key j ≠ some (blockId, shardIdx)) (fuel : Nat) :
    (∀ r ∈ alloc blockId shardIdx (hashers.hash blockId shardIdx) fuel tb, WellFormed hashers r.1) ∧
      PinnedPool.clock (blockId, shardIdx) fuel tb.pool =
        (TransBuffer.alloc blockId shardIdx (hashers.hash blockId shardIdx) fuel tb).map
          fun r => (r.1.pool, r.2) := by
  induction fuel generalizing tb with
  | zero => exact ⟨fun r hr => (by cases hr), rfl⟩
  | succ fuel ih =>
    obtain ⟨hw, hround⟩ := h.allocRound hk
    rw [TransBuffer.alloc, PinnedPool.clock, hround]
    cases hr : tb.allocRound blockId shardIdx (hashers.hash blockId shardIdx) with
    | mk q o =>
      rw [hr] at hw hround
      cases o with
      | some i =>
        refine ⟨fun r he => ?_, rfl⟩
        obtain rfl := Option.some.inj he
        exact hw
      | none =>
        refine ih hw fun j => ?_
        rcases tb.pool.round_cases (blockId, shardIdx) with ⟨_, he⟩ | ⟨_, he⟩ <;> rw [he] at hround
        · rw [← (Prod.mk.inj hround).1]
          exact hk j
        · cases (Prod.mk.inj hround).2

/-- `Get` is the pool's: it pins the node of the key, or the one that the clock
gives up for it. -/
theorem WellFormed.get (h : WellFormed hashers tb) (blockId : BlockId) (shardIdx : Nat) :
    (∀ r ∈ tb.get hashers blockId shardIdx, WellFormed hashers r.2) ∧
      (tb.get hashers blockId shardIdx).map (fun r => (r.1, r.2.pool)) =
        (tb.pool.get (blockId, shardIdx)).map fun r => (⟨some r.1.1, r.1.2⟩, r.2) := by
  have hwalk := h.walk_eq blockId shardIdx
  simp only [TransBuffer.get, PinnedPool.get, findAt, hwalk]
  cases hf : tb.pool.find (blockId, shardIdx) with
  | some i =>
    refine ⟨fun r hr => ?_, ?_⟩
    · obtain rfl := Option.some.inj hr
      exact h.acquire i
    · simp only [Option.map_some, Option.bind_eq_bind, Option.bind_some]
      exact congrArg (fun q => some (_, q)) (pool_acquire i)
  | none =>
    obtain ⟨hw, hc⟩ := h.alloc (h.ok.find_eq_none_iff.mp hf) tb.nNode
    have hn : tb.pool.nNode = tb.nNode := rfl
    simp only [Option.map_some, Option.bind_eq_bind, Option.bind_some, hn, hc]
    cases ha : TransBuffer.alloc blockId shardIdx (hashers.hash blockId shardIdx) tb.nNode tb with
    | none => exact ⟨fun r hr => (by cases hr), rfl⟩
    | some r =>
      refine ⟨fun r' hr => ?_, rfl⟩
      obtain rfl := Option.some.inj hr
      exact hw r ha

end Alloc

end UnifiedCache.CacheStore.TransBuffer
