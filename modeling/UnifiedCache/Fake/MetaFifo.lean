import UnifiedCache.Cache.TransBufferChains
import UnifiedCache.Fake.MetaManager
import UnifiedCache.Lib.BoundedFifo

/-! The table of the fake store is a bounded set that forgets its oldest key.
Its links are those of the cache store's buffer, so the chain surgery is read
through them; the nodes are a ring that the clock hand writes in turn. -/

namespace UnifiedCache.FakeStore

open BoundedFifo LinkedChain CacheStore

/-- A node as one of the cache store's that no one refers to. -/
def BufferMetaNode.toBuffer (m : BufferMetaNode) : CacheStore.BufferMetaNode where
  block := m.block
  shard := 0
  reference := 0
  hash := m.hash
  prev := m.prev
  next := m.next
  ready := false

namespace MetaTable

def links (mt : MetaTable) : TransBuffer where
  buckets := mt.buckets
  freeHead := mt.freeHead
  nNode := mt.nNode
  metaAt := fun i => (mt.metaAt i).toBuffer

variable {mt : MetaTable} {i b : Nat} {block : BlockId} {log : List BlockId}
  {blockIdHasher : BlockId → UInt64}

theorem links_modify {f : BufferMetaNode → BufferMetaNode}
    {g : CacheStore.BufferMetaNode → CacheStore.BufferMetaNode}
    (h : ∀ m, (f m).toBuffer = g m.toBuffer) : (mt.modify i f).links = mt.links.modify i g := by
  have hm : (mt.modify i f).links.metaAt = (mt.links.modify i g).metaAt := by
    funext j
    by_cases hj : j = i
    · simp [links, modify, TransBuffer.modify, hj, h]
    · simp [links, modify, TransBuffer.modify, hj]
  exact TransBuffer.mk.injEq _ _ _ _ _ _ _ _ |>.mpr ⟨rfl, rfl, rfl, hm⟩

@[simp] theorem links_setNext (n : Option Nat) : (mt.setNext i n).links = mt.links.setNext i n :=
  links_modify fun _ => rfl

@[simp] theorem links_setPrev (n : Option Nat) : (mt.setPrev i n).links = mt.links.setPrev i n :=
  links_modify fun _ => rfl

@[simp] theorem links_setHash (n : Option Nat) : (mt.setHash i n).links = mt.links.setHash i n :=
  links_modify fun _ => rfl

@[simp] theorem links_setFirst (n : Option Nat) : (mt.setFirst b n).links = mt.links.setFirst b n :=
  rfl

theorem next_links : (mt.links.metaAt i).next = (mt.metaAt i).next := rfl

theorem prev_links : (mt.links.metaAt i).prev = (mt.metaAt i).prev := rfl

theorem hash_links : (mt.links.metaAt i).hash = (mt.metaAt i).hash := rfl

theorem block_links : (mt.links.metaAt i).block = (mt.metaAt i).block := rfl

theorem buckets_links : mt.links.buckets = mt.buckets := rfl

theorem links_moveTo : (mt.moveTo b i).links = mt.links.moveTo b i := by
  rw [moveTo, TransBuffer.moveTo, buckets_links]
  cases mt.buckets b <;> simp

@[simp] theorem buckets_setNext (n : Option Nat) : (mt.setNext i n).buckets = mt.buckets := rfl

@[simp] theorem buckets_setPrev (n : Option Nat) : (mt.setPrev i n).buckets = mt.buckets := rfl

theorem links_remove : (mt.remove b i).links = mt.links.remove b i := by
  cases hp : (mt.metaAt i).prev with
  | none =>
    cases hn : (mt.metaAt i).next <;>
      simp [remove, TransBuffer.remove, hp, hn, next_links, prev_links, apply_ite links, buckets_links]
  | some p =>
    have field_links : ((mt.links.setNext p (mt.metaAt i).next).metaAt i) =
        ((mt.setNext p (mt.metaAt i).next).metaAt i).toBuffer := by
      rw [← links_setNext]
      rfl
    cases hn : ((mt.setNext p (mt.metaAt i).next).metaAt i).next <;>
      simp [remove, TransBuffer.remove, hp, hn, next_links, prev_links, field_links,
        BufferMetaNode.toBuffer, apply_ite links, buckets_links]

/-- The table with its clock hand moved on, before the node is used. -/
theorem links_insertAt (mt : MetaTable) (b : Nat) (block : BlockId) : (mt.insertAt b block).links =
    ((mt.fetchNode.2.links.rebucket b mt.freeHead).modify mt.freeHead fun m =>
      { m with block := block }) := by
  unfold insertAt
  refine (links_modify fun _ => rfl).trans (congrArg (TransBuffer.modify · mt.freeHead _) ?_)
  rw [TransBuffer.rebucket, hash_links]
  simp only [fetchNode]
  cases (mt.metaAt mt.freeHead).hash with
  | none => exact links_moveTo
  | some oldBucket =>
    by_cases ho : oldBucket = b
    · simp only [ho, if_true]
    · simp only [ho, if_false]
      rw [links_moveTo, links_remove]

/-- The key that a node holds for the table, none while it is in no chain. -/
def cell (mt : MetaTable) (i : Nat) : Option BlockId :=
  if (mt.metaAt i).hash.isSome then some (mt.metaAt i).block else none

theorem cell_eq_some_iff :
    mt.cell i = some block ↔ (mt.metaAt i).block = block ∧ ∃ b, (mt.metaAt i).hash = some b := by
  cases h : (mt.metaAt i).hash <;> simp [cell, h]

/-- The nodes are a ring with the clock hand at the oldest key, and the chains
are an index of it. -/
structure Fifo (blockIdHasher : BlockId → UInt64) (n : Nat) (log : List BlockId) (mt : MetaTable) :
    Prop where
  nNode : mt.nNode = n
  freeHead : mt.freeHead = log.length % n
  linked : ∃ chain, mt.links.Linked chain
  hashed : ∀ i b, (mt.metaAt i).hash = some b → hash blockIdHasher (mt.metaAt i).block = b
  ring : Ring n mt.cell log
  nodup : (kept n log).Nodup

variable {n : Nat}

theorem fifo_setup : Fifo blockIdHasher n [] (setup n) := by
  refine ⟨rfl, (Nat.zero_mod n).symm, ⟨fun _ => [], ?_⟩, fun _ _ h => (by cases h), ring_start, ?_⟩
  · exact (TransBuffer.linked_setup n).congr rfl rfl rfl rfl
  · simp [kept]

theorem walk_eq_any {fuel : Nat} {head : Option Nat} {l : List Nat}
    (h : Fwd mt.links.nextOf head l) (hf : l.length ≤ fuel) :
    mt.walk block fuel head = some (l.any fun i => (mt.metaAt i).block = block) := by
  induction l generalizing head fuel with
  | nil =>
    obtain rfl : head = none := h
    cases fuel <;> rfl
  | cons x l ih =>
    obtain ⟨rfl, h⟩ := h
    obtain ⟨fuel, rfl⟩ : ∃ n, fuel = n + 1 := ⟨fuel - 1, by simp at hf; omega⟩
    rw [walk, List.any_cons]
    by_cases hx : (mt.metaAt x).block = block
    · simp [hx]
    · simp only [hx, if_false, decide_false, Bool.false_or]
      exact ih h (by simpa using hf)

theorem Fifo.exist_eq (h : Fifo blockIdHasher n log mt) (hn : 1 ≤ n) (block : BlockId) :
    mt.exist blockIdHasher block = some (decide (block ∈ kept n log)) := by
  obtain ⟨chain, hl⟩ := h.linked
  have mem : ∀ b i, i ∈ chain b ↔ (mt.metaAt i).hash = some b := hl.mem
  have hlen : (chain (hash blockIdHasher block)).length ≤ mt.nNode := by
    have hs : chain (hash blockIdHasher block) ⊆ List.range mt.nNode := by
      intro i hi
      rw [List.mem_range, h.nNode]
      exact h.ring.lt hn (cell_eq_some_iff.mpr ⟨rfl, _, (mem _ i).mp hi⟩)
    simpa using (List.subperm_of_subset (hl.nodup _) hs).length_le
  refine (walk_eq_any (hl.fwd _) hlen).trans (congrArg some ?_)
  rw [Bool.eq_iff_iff, List.any_eq_true, decide_eq_true_iff, h.ring.mem_kept_iff]
  constructor
  · rintro ⟨i, hi, hb⟩
    exact ⟨i, cell_eq_some_iff.mpr ⟨of_decide_eq_true hb, _, (mem _ i).mp hi⟩⟩
  · rintro ⟨i, hi⟩
    obtain ⟨hb, b, hh⟩ := cell_eq_some_iff.mp hi
    refine ⟨i, ?_, decide_eq_true hb⟩
    rw [mem, hh, ← h.hashed i b hh, hb]

section InsertAt

variable (h : Fifo blockIdHasher n log mt)

include h

theorem Fifo.linked_insertAt (b : Nat) (block : BlockId) : ∃ chain, (mt.insertAt b block).links.Linked chain ∧
    (mt.insertAt b block).links.hashOf = Function.update mt.links.hashOf mt.freeHead (some b) := by
  obtain ⟨chain, hl⟩ := h.linked
  have hl' : mt.fetchNode.2.links.Linked chain := hl.congr rfl rfl rfl rfl
  obtain ⟨chain', hr, hh⟩ := hl'.rebucket (b := b) (x := mt.freeHead)
  rw [links_insertAt]
  refine ⟨chain', hr.congr (TransBuffer.modify_frame _ fun _ => rfl)
    (TransBuffer.modify_frame _ fun _ => rfl) (TransBuffer.modify_frame _ fun _ => rfl) rfl, ?_⟩
  have frame : ∀ (tb : TransBuffer) i,
      (tb.modify i fun m => { m with block := block }).hashOf = tb.hashOf :=
    fun _ _ => TransBuffer.modify_frame (·.hash) fun _ => rfl
  rw [frame]
  exact hh

omit h in
theorem block_insertAt : (fun i => ((mt.insertAt b block).metaAt i).block) =
    Function.update (fun i => (mt.metaAt i).block) mt.freeHead block := by
  have hl : (fun i => ((mt.insertAt b block).links.metaAt i).block) =
      Function.update (fun i => (mt.metaAt i).block) mt.freeHead block := by
    rw [links_insertAt, TransBuffer.modify_field (·.block)]
    congr 1
    funext i
    exact TransBuffer.rebucket_frame (·.block) (fun _ _ => rfl) (fun _ _ => rfl) (fun _ _ => rfl) i
  exact hl

theorem Fifo.cell_insertAt :
    (mt.insertAt b block).cell = Function.update mt.cell mt.freeHead (some block) := by
  obtain ⟨_, _, hh⟩ := h.linked_insertAt b block
  funext i
  have hash_eq : ((mt.insertAt b block).metaAt i).hash = _ := congrFun hh i
  have block_eq : ((mt.insertAt b block).metaAt i).block = _ := congrFun block_insertAt i
  rw [cell, hash_eq, block_eq]
  by_cases hi : i = mt.freeHead
  · simp [hi]
  · simp only [Function.update_of_ne hi]
    rfl

omit h in
theorem nNode_insertAt : (mt.insertAt b block).nNode = mt.nNode ∧
    (mt.insertAt b block).freeHead = if mt.freeHead + 1 = mt.nNode then 0 else mt.freeHead + 1 := by
  have hr := @TransBuffer.rebucket_nNode mt.fetchNode.2.links b mt.freeHead
  have hl := links_insertAt mt b block
  exact ⟨(congrArg TransBuffer.nNode hl).trans hr.1, (congrArg TransBuffer.freeHead hl).trans hr.2⟩

theorem Fifo.insertAt (hn : 1 ≤ n) (hb : hash blockIdHasher block = b) (hnew : block ∉ kept n log) :
    Fifo blockIdHasher n (log ++ [block]) (mt.insertAt b block) := by
  obtain ⟨chain, hl, hh⟩ := h.linked_insertAt b block
  have hash_eq : ∀ i, ((mt.insertAt b block).metaAt i).hash = _ := congrFun hh
  have block_eq : ∀ i, ((mt.insertAt b block).metaAt i).block = _ := congrFun block_insertAt
  refine ⟨nNode_insertAt.1.trans h.nNode, ?_, ⟨chain, hl⟩, fun i b' hi => ?_, ?_,
    nodup_kept_append_singleton hn h.nodup hnew⟩
  · rw [nNode_insertAt.2, h.nNode, h.freeHead, next_turn hn, List.length_append, List.length_singleton]
  · rw [hash_eq] at hi
    rw [block_eq]
    by_cases hx : i = mt.freeHead
    · rw [hx, Function.update_self] at hi ⊢
      exact hb.trans (Option.some.inj hi)
    · rw [Function.update_of_ne hx] at hi ⊢
      exact h.hashed i b' hi
  · rw [h.cell_insertAt, h.freeHead]
    exact h.ring.write hn block

/-- An insert of an absent key; the insert of a present one changes nothing. -/
theorem Fifo.insert_eq (hn : 1 ≤ n) : mt.insert blockIdHasher block =
    some (if block ∈ kept n log then mt else mt.insertAt (hash blockIdHasher block) block) := by
  have he : mt.existAt (hash blockIdHasher block) block = _ := h.exist_eq hn block
  simp only [insert, he, Option.bind_eq_bind, Option.bind_some, decide_eq_true_iff]
  split_ifs <;> rfl

end InsertAt

end MetaTable

open MetaTable

variable {blockIdHasher : BlockId → UInt64} {n : Nat} {r : Run}

theorem call_fifo (hn : 1 ≤ n) (h : Fifo blockIdHasher n r.inserted r.table) (c : Call) :
    ∃ r', r.call blockIdHasher c = some r' ∧ Fifo blockIdHasher n r'.inserted r'.table := by
  cases c with
  | insert block =>
    simp only [Run.call, h.exist_eq hn, h.insert_eq hn, Option.bind_eq_bind, Option.bind_some,
      decide_eq_true_iff]
    refine ⟨_, rfl, ?_⟩
    split_ifs with hm
    · exact h
    · exact h.insertAt hn rfl hm
  | exist block => exact ⟨r, by simp [Run.call, h.exist_eq hn], h⟩

theorem runCalls_fifo (blockIdHasher : BlockId → UInt64) (hn : 1 ≤ n) (calls : List Call) :
    ∃ r, runCalls blockIdHasher n calls = some r ∧ Fifo blockIdHasher n r.inserted r.table := by
  induction calls using List.reverseRecOn with
  | nil => exact ⟨_, rfl, fifo_setup⟩
  | append_singleton calls c ih =>
    obtain ⟨r, hr, h⟩ := ih
    obtain ⟨r', hr', h'⟩ := call_fifo hn h c
    refine ⟨r', ?_, h'⟩
    rw [runCalls] at hr ⊢
    rw [List.foldlM_append, hr]
    simpa using hr'

/-- After any calls the table holds the keys of the last `nNode` effective
inserts, each of them in one node, and one more such insert drops the oldest
of them when there are `nNode`. -/
theorem table_is_bounded_fifo (blockIdHasher : BlockId → UInt64) {nNode : Nat} (hn : 1 ≤ nNode)
    (calls : List Call) : ∃ r, runCalls blockIdHasher nNode calls = some r ∧
      (∀ block, r.table.exist blockIdHasher block =
        some (decide (block ∈ kept nNode r.inserted))) ∧
      (kept nNode r.inserted).Nodup ∧
      (∀ i j block, r.table.cell i = some block → r.table.cell j = some block → i = j) ∧
      ∀ block, r.table.exist blockIdHasher block = some false →
        ∃ table, r.table.insert blockIdHasher block = some table ∧
          ∀ b, table.exist blockIdHasher b = some (decide (b ∈
            (if (kept nNode r.inserted).length < nNode then kept nNode r.inserted
              else (kept nNode r.inserted).tail) ++ [block])) := by
  obtain ⟨r, hr, h⟩ := runCalls_fifo blockIdHasher hn calls
  refine ⟨r, hr, h.exist_eq hn, h.nodup, fun i j block => h.ring.unique h.nodup, fun block hb => ?_⟩
  have hm : block ∉ kept nNode r.inserted := by
    rw [h.exist_eq hn] at hb
    simpa using hb
  refine ⟨_, h.insert_eq hn, fun b => ?_⟩
  rw [if_neg hm, (h.insertAt hn rfl hm).exist_eq hn, kept_append_singleton hn]

/-- Two nodes, three keys of which two share a bucket, one of them inserted twice. -/
theorem table_is_bounded_fifo_wraps :
    1 ≤ 2 ∧ ∃ r, runCalls (fun block => block[0]!.toUInt64 % 2) 2
      [.insert (Vector.replicate 16 1), .insert (Vector.replicate 16 2),
        .insert (Vector.replicate 16 1), .exist (Vector.replicate 16 2),
        .insert (Vector.replicate 16 3)] = some r ∧
      r.inserted = [Vector.replicate 16 1, Vector.replicate 16 2, Vector.replicate 16 3] ∧
      r.table.exist (fun block => block[0]!.toUInt64 % 2) (Vector.replicate 16 1) = some false ∧
      r.table.exist (fun block => block[0]!.toUInt64 % 2) (Vector.replicate 16 2) = some true := by
  refine ⟨by decide, ?_⟩
  obtain ⟨r, hr, he, -⟩ := table_is_bounded_fifo (fun block => block[0]!.toUInt64 % 2)
    (show 1 ≤ 2 by decide)
    [.insert (Vector.replicate 16 1), .insert (Vector.replicate 16 2),
      .insert (Vector.replicate 16 1), .exist (Vector.replicate 16 2),
      .insert (Vector.replicate 16 3)]
  have hi : (some r).map Run.inserted =
      some [Vector.replicate 16 1, Vector.replicate 16 2, Vector.replicate 16 3] := by
    rw [← hr]
    decide +kernel
  have hi : r.inserted = _ := Option.some.inj hi
  refine ⟨r, hr, hi, ?_, ?_⟩
  · rw [he, hi]
    decide
  · rw [he, hi]
    decide

end UnifiedCache.FakeStore
