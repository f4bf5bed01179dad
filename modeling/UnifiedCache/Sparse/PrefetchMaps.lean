import UnifiedCache.Sparse.PrefetchRun

/-! The residency maps over runs of the prefetch engine in which no load fails. -/

namespace UnifiedCache.Sparse.GSAPrefetch

open InverseMaps StepSystem

def residentBelow (m : LayerMaps) (promptLen : Int) : Set Int := {b | ∃ i : Int, m.docs[i]? = some b ∧ i < promptLen}

def reportedBelow (m : LayerMaps) (promptLen : Int) (row : Row) : Set Int :=
  {b | b ∈ row.reported ∧ b ∈ residentBelow m promptLen}

/-- The resident prompt blocks are the reported ones and the free ones. -/
structure Split (m : LayerMaps) (promptLen : Int) (row : Row) : Prop where
  union : residentBelow m promptLen = reportedBelow m promptLen row ∪ {b | b ∈ row.freeBlock}
  disjoint : Disjoint (reportedBelow m promptLen row) {b | b ∈ row.freeBlock}

variable {m : LayerMaps} {promptLen : Int} {row : Row} {topk freeBlock scanned : List Int} {h : Hits} {limit : Nat}
  {batch : List (Int × Int)} {i b : Int}

theorem Split.resident (hsplit : Split m promptLen row) (hvalid : m.Valid) :
    ∀ b ∈ row.freeBlock, ∃ i : Int, m.blocks[b]? = some i := by
  intro b hb
  have hmem : b ∈ residentBelow m promptLen := hsplit.union ▸ Or.inr hb
  obtain ⟨i, hi, _⟩ := hmem
  exact ⟨i, (hvalid i b).mp hi⟩

section Run

theorem Hits.mem_pickAll : b ∈ (h.pickAll batch).hitBlocks ↔ b ∈ batch.map Prod.fst ∨ b ∈ h.hitBlocks := by
  induction batch generalizing h with
  | nil => simp [Hits.pickAll]
  | cons p batch ih =>
    have hh := @ih (h.hit p.2 p.1)
    simp only [Hits.hit, Finset.mem_insert] at hh
    rw [List.map_cons, List.mem_cons]
    exact hh.trans (by tauto)

theorem Hits.lookup_pickAll (hnodup : (batch.map Prod.snd).Nodup) (hnew : ∀ p ∈ batch, h.hitBlocksIdx[p.2]? = none) :
    (h.pickAll batch).hitBlocksIdx[i]? = some b ↔ (b, i) ∈ batch ∨ h.hitBlocksIdx[i]? = some b := by
  induction batch generalizing h with
  | nil => simp [Hits.pickAll]
  | cons p batch ih =>
    obtain ⟨hp, hrest⟩ := List.nodup_cons.mp hnodup
    have hlookup : ∀ j : Int, (h.hit p.2 p.1).hitBlocksIdx[j]? = if j = p.2 then some p.1 else h.hitBlocksIdx[j]? := by
      intro j
      rw [Hits.hit, lookup_insertIfNew, hnew p List.mem_cons_self, Option.getD_none]
    have hnew' : ∀ q ∈ batch, (h.hit p.2 p.1).hitBlocksIdx[q.2]? = none := by
      intro q hq
      have hne : q.2 ≠ p.2 := fun heq => hp (heq ▸ List.mem_map_of_mem hq)
      rw [hlookup, if_neg hne, hnew q (List.mem_cons_of_mem p hq)]
    refine (ih hrest hnew').trans ?_
    rw [hlookup, List.mem_cons]
    by_cases hi : i = p.2
    · have hnone : h.hitBlocksIdx[i]? = none := hi ▸ hnew p List.mem_cons_self
      have hpair : (b, i) = p ↔ p.1 = b := by
        rw [Prod.ext_iff]
        exact ⟨fun heq => heq.1.symm, fun heq => ⟨heq.symm, hi⟩⟩
      rw [if_pos hi, hnone, hpair, Option.some_inj]
      simp [or_comm]
    · have hpair : (b, i) ≠ p := fun heq => hi (congrArg Prod.snd heq)
      simp [hi, hpair]

/-- The hits of a run, with its loads among them, are where the maps have them after the loads. -/
theorem matches_reassignAll (hvalid : m.Valid) (hmov : Movable m batch) (hc : Classified m.docs scanned h)
    (hother : ∀ p ∈ batch, ∀ i ∈ scanned, m.docs[i]? ≠ some p.1) :
    (h.pickAll batch).Matches (m.reassignAll batch).docs := by
  obtain ⟨hvalid', _, hloaded, hkept⟩ := hmov.reassignAll hvalid
  have hnew : ∀ p ∈ batch, h.hitBlocksIdx[p.2]? = none := by
    intro p hp
    rw [hc.hitBlocksIdx, hmov.missing p hp, ite_self]
  have hlookup : ∀ i b : Int, (h.pickAll batch).hitBlocksIdx[i]? = some b ↔
      (b, i) ∈ batch ∨ h.hitBlocksIdx[i]? = some b :=
    fun i b => Hits.lookup_pickAll hmov.nodup_missIdxs hnew
  constructor
  · intro i b hi
    apply (hvalid' i b).mpr
    obtain hload | hhit := (hlookup i b).mp hi
    · exact hloaded (b, i) hload
    · rw [hc.hitBlocksIdx] at hhit
      split_ifs at hhit with hscanned
      rw [hkept b, (hvalid i b).mp hhit]
      intro hb
      obtain ⟨p, hp, rfl⟩ := List.mem_map.mp hb
      exact hother p hp i hscanned hhit
  · intro b
    have hblock : b ∈ batch.map Prod.fst ↔ ∃ i, (b, i) ∈ batch := by simp
    rw [Hits.mem_pickAll, hc.hitsMatch.hitBlocks, hblock]
    simp only [hlookup, exists_or]

theorem reported_eq (hmatch : h.Matches m.docs) (hone : OneIndex m.docs) (asked : List Int) :
    b ∈ (Row.mk freeBlock (h.hitBlocksIdx.toList.map Prod.snd) h.hitBlocks.card asked).reported ↔
      ∃ i : Int, h.hitBlocksIdx[i]? = some b := by
  rw [Row.reported, hmatch.card_eq hone, List.take_length, ← hmatch.mem_blocks, hmatch.hitBlocks]

theorem split_of_matches (hvalid : m.Valid) (hmatch : h.Matches m.docs) (asked : List Int) :
    Split m promptLen ⟨freeList m.docs promptLen h.hitBlocksIdx, h.hitBlocksIdx.toList.map Prod.snd,
      h.hitBlocks.card, asked⟩ := by
  have hone := hvalid.oneIndex
  constructor
  · ext b
    simp only [reportedBelow, Set.mem_union, Set.mem_ofPred_eq, reported_eq hmatch hone, mem_freeList]
    constructor
    · rintro ⟨i, hi, hlt⟩
      cases hhit : h.hitBlocksIdx[i]? with
      | none => exact Or.inr ⟨i, hi, hlt, hhit⟩
      | some b' =>
        have heq : some b' = some b := (hmatch.sound i b' hhit).symm.trans hi
        exact Or.inl ⟨⟨i, hhit.trans heq⟩, i, hi, hlt⟩
    · rintro (⟨_, hbelow⟩ | ⟨i, hi, hlt, _⟩)
      · exact hbelow
      · exact ⟨i, hi, hlt⟩
  · rw [Set.disjoint_left]
    rintro b ⟨hreported, _⟩ hfree
    obtain ⟨i, hi⟩ := (reported_eq hmatch hone asked).mp hreported
    obtain ⟨j, hj, _, hnone⟩ := mem_freeList.mp hfree
    have hij : i = j := hone i j b (hmatch.sound i b hi) hj
    rw [hij, hnone] at hi
    cases hi

variable {Kv : Type} {isPythonLoad : Bool} {kvOf : Int → Option Kv} {loads : Nat → Load Kv} {hbm : Int → Kv}

/-- What a run leaves of a layer whose maps were inverse, when its loads are done. -/
theorem runLayer_of_done (hvalid : m.Valid) (htopk : topk.Nodup) (hfree : freeBlock.Nodup)
    (hres : ∀ b ∈ freeBlock, ∃ i : Int, m.blocks[b]? = some i)
    (hdone : isPythonLoad = true ∨ ∀ j < (toLoad m.docs limit topk freeBlock).length, (loads j).Done) :
    let r := runLayer isPythonLoad kvOf promptLen limit topk loads m freeBlock hbm
    r.maps = m.reassignAll (toLoad m.docs limit topk freeBlock) ∧ r.maps.Valid ∧
      values r.maps.docs = values m.docs ∧ Split r.maps promptLen r.row ∧ r.row.freeBlock.Nodup := by
  obtain ⟨scanned, h, hfront, hc, hbatch, hall⟩ := prefetchBatch_spec limit hvalid.oneIndex htopk hfree
  have hmov : Movable m (toLoad m.docs limit topk freeBlock) := toLoad_movable htopk hfree hres
  have hmaps : (loadKVToHBM isPythonLoad kvOf loads (toLoad m.docs limit topk freeBlock) 0 m hbm).1 =
      m.reassignAll (toLoad m.docs limit topk freeBlock) :=
    maps_loadKVToHBM_of_done (hdone.imp_right fun hd j _ hj => hd j (by omega))
  obtain ⟨hvalid', hvalues, _, _⟩ := hmov.reassignAll hvalid
  have hmatch : (h.pickAll (toLoad m.docs limit topk freeBlock)).Matches
      (m.reassignAll (toLoad m.docs limit topk freeBlock)).docs :=
    matches_reassignAll hvalid hmov hc fun p hp i hi => notMem_hits_of_mem_toLoad hp (hfront.subset hi)
  simp only [runLayer, hbatch, hmaps]
  exact ⟨trivial, hvalid', hvalues, split_of_matches hvalid' hmatch topk, nodup_freeList hvalid'.oneIndex⟩

end Run

section SetMaps

variable {pairs remain prefetch : List (Int × Int)}

theorem LayerMaps.put_pairs (hvalid : m.Valid) (hidx : (pairs.map Prod.fst).Nodup) (hblocks : (pairs.map Prod.snd).Nodup)
    (hnew : ∀ p ∈ pairs, m.docs[p.1]? = none ∧ m.blocks[p.2]? = none) :
    let m' := pairs.foldl (fun m p => m.put p.1 p.2) m
    m'.Valid ∧ ∀ i b : Int, m'.docs[i]? = some b ↔ (i, b) ∈ pairs ∨ m.docs[i]? = some b := by
  induction pairs generalizing m with
  | nil => exact ⟨hvalid, fun i b => by simp⟩
  | cons p pairs ih =>
    obtain ⟨hp, hidx⟩ := List.nodup_cons.mp hidx
    obtain ⟨hq, hblocks⟩ := List.nodup_cons.mp hblocks
    obtain ⟨hdocs, hmap⟩ := hnew p List.mem_cons_self
    have hnew' : ∀ q ∈ pairs, (m.put p.1 p.2).docs[q.1]? = none ∧ (m.put p.1 p.2).blocks[q.2]? = none := by
      intro q hqm
      have hold := hnew q (List.mem_cons_of_mem p hqm)
      have hi : q.1 ≠ p.1 := fun heq => hp (heq ▸ List.mem_map_of_mem hqm)
      have hb : q.2 ≠ p.2 := fun heq => hq (heq ▸ List.mem_map_of_mem hqm)
      exact ⟨by rw [put, lookup_insert, if_neg hi, hold.1], by rw [put, lookup_insert, if_neg hb, hold.2]⟩
    obtain ⟨hvalid', hlookup⟩ := ih (m := m.put p.1 p.2) (Inverse.insert hvalid hdocs hmap) hidx hblocks hnew'
    refine ⟨hvalid', fun i b => (hlookup i b).trans ?_⟩
    rw [put, lookup_insert, List.mem_cons]
    by_cases hi : i = p.1
    · have hpair : (i, b) = p ↔ p.2 = b := by
        rw [Prod.ext_iff]
        exact ⟨fun heq => heq.2.symm, fun heq => ⟨hi, heq.symm⟩⟩
      rw [if_pos hi, hi, hdocs, ← hi, hpair, Option.some_inj]
      simp [or_comm]
    · have hpair : (i, b) ≠ p := fun heq => hi (congrArg Prod.fst heq)
      simp [hi, hpair]

theorem LayerMaps.ofPairs_spec (hidx : (pairs.map Prod.fst).Nodup) (hblocks : (pairs.map Prod.snd).Nodup) :
    (ofPairs pairs).Valid ∧ ∀ i b : Int, (ofPairs pairs).docs[i]? = some b ↔ (i, b) ∈ pairs := by
  obtain ⟨hvalid, hlookup⟩ := LayerMaps.put_pairs (m := empty) Inverse.empty hidx hblocks
    fun p _ => ⟨by simp [empty], by simp [empty]⟩
  exact ⟨hvalid, fun i b => by simpa [ofPairs, empty] using hlookup i b⟩

/-- The indexes and blocks that `SetBlocksMap` is given for a layer, with the row written beside them. -/
structure ValidSet (pairs : List (Int × Int)) (row : Row) (maxIdx : Int) : Prop where
  indexes : (pairs.map Prod.fst).Nodup
  blocks : (pairs.map Prod.snd).Nodup
  parts : ∃ remain prefetch : List (Int × Int), pairs.Perm (remain ++ prefetch) ∧
    row.reported.Perm (remain.map Prod.snd) ∧ row.freeBlock.Perm (prefetch.map Prod.snd) ∧ ∀ p ∈ prefetch, p.1 < maxIdx

theorem ValidSet.split {maxIdx : Int} (hset : ValidSet pairs row maxIdx) :
    Split (LayerMaps.ofPairs pairs) maxIdx row ∧ row.freeBlock.Nodup := by
  obtain ⟨remain, prefetch, hperm, hreported, hfree, hbelow⟩ := hset.parts
  obtain ⟨_, hlookup⟩ := LayerMaps.ofPairs_spec hset.indexes hset.blocks
  have hdocs : ∀ i b : Int, (LayerMaps.ofPairs pairs).docs[i]? = some b ↔ (i, b) ∈ remain ∨ (i, b) ∈ prefetch := by
    intro i b
    rw [hlookup, hperm.mem_iff, List.mem_append]
  have hblocks : ((remain ++ prefetch).map Prod.snd).Nodup := (hperm.map Prod.snd).nodup_iff.mp hset.blocks
  rw [List.map_append] at hblocks
  have hmem : ∀ b, b ∈ row.freeBlock ↔ ∃ i, (i, b) ∈ prefetch := fun b => by rw [hfree.mem_iff]; simp
  have hrep : ∀ b, b ∈ row.reported ↔ ∃ i, (i, b) ∈ remain := fun b => by rw [hreported.mem_iff]; simp
  refine ⟨⟨?_, ?_⟩, hfree.nodup_iff.mpr (List.Nodup.of_append_right hblocks)⟩
  · ext b
    simp only [reportedBelow, residentBelow, Set.mem_union, Set.mem_ofPred_eq, hdocs, hmem, hrep]
    constructor
    · rintro ⟨i, hi | hi, hlt⟩
      · exact Or.inl ⟨⟨i, hi⟩, i, Or.inl hi, hlt⟩
      · exact Or.inr ⟨i, hi⟩
    · rintro (⟨_, hi⟩ | ⟨i, hi⟩)
      · exact hi
      · exact ⟨i, Or.inr hi, hbelow (i, b) hi⟩
  · rw [Set.disjoint_left]
    rintro b ⟨hb, _⟩ hb'
    exact List.disjoint_of_nodup_append hblocks (hreported.mem_iff.mp hb) (hfree.mem_iff.mp hb')

end SetMaps

section Engine

variable {ReqId Hash Kv : Type} [DecidableEq ReqId] {layers : Nat}

namespace PrefetchEvent

def NoLoadFails : PrefetchEvent ReqId Hash Kv layers → Prop
  | .runOneBsPrefetch _ _ _ _ loads => ∀ i j, (loads i j).Done
  | _ => True

/-- What `GSAPrefetchBase` keeps to: a request has a place in the batch of its own, sets distinct indexes
with distinct blocks, of which those to prefetch are prompt blocks, appends a new index past the prompt
with a new block, and is run with top-k lists that repeat nothing and are longer than `mExtraTopkLen`. -/
def Kept (cfg : PrefetchConfig) (s : GSAPrefetchEngine ReqId Hash Kv layers) : PrefetchEvent ReqId Hash Kv layers → Prop
  | .setBlocksMap reqId bsIndex blockTableList prefetchIdx remainIdx _ maxIdx =>
    (∀ r ≠ reqId, s.slotOf r ≠ some bsIndex) ∧ (prefetchIdx ++ remainIdx).Nodup ∧
      ((prefetchIdx ++ remainIdx).map fun idx => blockTableList.getD idx 0).Nodup ∧ ∀ idx ∈ prefetchIdx, (idx : Int) < maxIdx
  | .setBlocksMapMultiLayer reqId bsIndex remainMap prefetchMap remainBlocks prefetchBlocks _ maxIdx =>
    (∀ r ≠ reqId, s.slotOf r ≠ some bsIndex) ∧ ∀ i,
      (((remainMap i).toList ++ (prefetchMap i).toList).map Prod.fst).Nodup ∧
      (((remainMap i).toList ++ (prefetchMap i).toList).map Prod.snd).Nodup ∧
      (remainBlocks i).Perm ((remainMap i).toList.map Prod.snd) ∧
      (prefetchBlocks i).Perm ((prefetchMap i).toList.map Prod.snd) ∧ ∀ p ∈ (prefetchMap i).toList, p.1 < maxIdx
  | .addBlocksMap reqId idx blockID => (s.requests reqId = none → 0 ≤ idx) ∧ ∀ req, s.requests reqId = some req →
    req.promptLen ≤ idx ∧ ∀ i, (req.maps i).docs[idx]? = none ∧ (req.maps i).blocks[blockID]? = none
  | .runOneBsPrefetch reqId topkLen bsIndex topk _ => s.requests reqId ≠ none →
    s.slotOf reqId = some bsIndex ∧ cfg.extraTopkLen < topkLen ∧ ∀ i, (topk i).length = topkLen ∧ (topk i).Nodup
  | _ => True

end PrefetchEvent

open PrefetchEvent

/-- The maps of each request and layer are inverse, and its prompt blocks are the reported and the free ones
of its place in the batch; a request that has only had blocks appended has no place and no prompt blocks. -/
structure MapsConsistent (s : GSAPrefetchEngine ReqId Hash Kv layers) : Prop where
  valid : ∀ r req, s.requests r = some req → ∀ i, (req.maps i).Valid
  split : ∀ r req slot, s.requests r = some req → s.slotOf r = some slot →
    ∀ i, Split (req.maps i) req.promptLen (s.rows i slot)
  unplaced : ∀ r req, s.requests r = some req → s.slotOf r = none → ∀ i, residentBelow (req.maps i) req.promptLen = ∅

/-- The invariant of the runs: with the above, free blocks are listed once, and a place in the batch is that of
one request, which has maps. -/
structure EngineInvariant (s : GSAPrefetchEngine ReqId Hash Kv layers) : Prop extends MapsConsistent s where
  free : ∀ r slot, s.slotOf r = some slot → ∀ i, (s.rows i slot).freeBlock.Nodup
  place : ∀ r r' slot, s.slotOf r = some slot → s.slotOf r' = some slot → r = r'
  live : ∀ r slot, s.slotOf r = some slot → ∃ req, s.requests r = some req

/-- All loads of the batch are done, where the engine makes them itself. -/
def PrefetchEvent.Complete (cfg : PrefetchConfig) (s : GSAPrefetchEngine ReqId Hash Kv layers) :
    PrefetchEvent ReqId Hash Kv layers → Prop
  | .runOneBsPrefetch reqId topkLen bsIndex topk loads => ∀ req, s.requests reqId = some req → ∀ i,
    cfg.isPythonLoad = true ∨
      ∀ j < (toLoad (req.maps i).docs (cfg.limit topkLen) (topk i) (s.rows i bsIndex).freeBlock).length, (loads i j).Done
  | _ => True

variable {s s' : GSAPrefetchEngine ReqId Hash Kv layers} {e : PrefetchEvent ReqId Hash Kv layers}
  {cfg : PrefetchConfig} {stored : Hash → Fin layers → Kv} {reqId r : ReqId} {bsIndex topkLen : Nat} {maxIdx idx blockID : Int}

omit [DecidableEq ReqId] in
theorem PrefetchEvent.NoLoadFails.complete (h : e.NoLoadFails) : e.Complete cfg s := by
  cases e with
  | runOneBsPrefetch reqId topkLen bsIndex topk loads => exact fun _ _ i => Or.inr fun j _ => h i j
  | _ => trivial

omit [DecidableEq ReqId] in
theorem init_invariant (hbm : Fin layers → Int → Kv) :
    EngineInvariant (GSAPrefetchEngine.init hbm : GSAPrefetchEngine ReqId Hash Kv layers) where
  valid _ _ h := by cases h
  split _ _ _ h := by cases h
  unplaced _ _ h := by cases h
  free _ _ h := by cases h
  place _ _ _ h := by cases h
  live _ _ h := by cases h

theorem update_eq_some {α β : Type*} [DecidableEq α] {f : α → Option β} {a a' : α} {x y : β} :
    Function.update f a (some x) a' = some y ↔ a' = a ∧ y = x ∨ a' ≠ a ∧ f a' = some y := by
  by_cases h : a' = a
  · simp [h, eq_comm]
  · simp [h]

theorem EngineInvariant.setMaps {pairs : Fin layers → List (Int × Int)} {row : Fin layers → Row} (hashes : List Hash)
    (hinv : EngineInvariant s) (hplace : ∀ r ≠ reqId, s.slotOf r ≠ some bsIndex)
    (hset : ∀ i, ValidSet (pairs i) (row i) maxIdx) : EngineInvariant (s.setMaps reqId bsIndex pairs row hashes maxIdx) := by
  have hslot : ∀ r slot, (s.setMaps reqId bsIndex pairs row hashes maxIdx).slotOf r = some slot →
      r = reqId ∧ slot = bsIndex ∨ r ≠ reqId ∧ slot ≠ bsIndex ∧ s.slotOf r = some slot := by
    intro r slot hr
    obtain heq | ⟨hne, hr⟩ := update_eq_some.mp hr
    · exact Or.inl heq
    · exact Or.inr ⟨hne, fun heq => hplace r hne (heq ▸ hr), hr⟩
  have hnone : ∀ r, (s.setMaps reqId bsIndex pairs row hashes maxIdx).slotOf r = none → r ≠ reqId ∧ s.slotOf r = none := by
    intro r hr
    by_cases heq : r = reqId
    · simp [GSAPrefetchEngine.setMaps, heq] at hr
    · exact ⟨heq, by simpa only [GSAPrefetchEngine.setMaps, Function.update_of_ne heq] using hr⟩
  refine ⟨⟨fun r req hr i => ?_, fun r req slot hr hs i => ?_, fun r req hr hs => ?_⟩, fun r slot hs i => ?_,
    fun r r' slot hs hs' => ?_, fun r slot hs => ?_⟩
  · obtain ⟨rfl, rfl⟩ | ⟨_, hr⟩ := update_eq_some.mp hr
    · exact (LayerMaps.ofPairs_spec (hset i).indexes (hset i).blocks).1
    · exact hinv.valid r req hr i
  · obtain ⟨rfl, rfl⟩ | ⟨hreq, hne, hs⟩ := hslot r slot hs
    · obtain ⟨_, rfl⟩ | ⟨hreq, _⟩ := update_eq_some.mp hr
      · simpa only [GSAPrefetchEngine.setMaps, Function.update_self] using (hset i).split.1
      · exact absurd rfl hreq
    · obtain ⟨heq, _⟩ | ⟨_, hr⟩ := update_eq_some.mp hr
      · exact absurd heq hreq
      · simpa only [GSAPrefetchEngine.setMaps, Function.update_of_ne hne] using hinv.split r req slot hr hs i
  · obtain ⟨hne, hs⟩ := hnone r hs
    obtain ⟨heq, _⟩ | ⟨_, hr⟩ := update_eq_some.mp hr
    · exact absurd heq hne
    · exact hinv.unplaced r req hr hs
  · obtain ⟨rfl, rfl⟩ | ⟨_, hne, hs⟩ := hslot r slot hs
    · simpa only [GSAPrefetchEngine.setMaps, Function.update_self] using (hset i).split.2
    · simpa only [GSAPrefetchEngine.setMaps, Function.update_of_ne hne] using hinv.free r slot hs i
  · obtain ⟨rfl, rfl⟩ | ⟨_, hne, hs⟩ := hslot r slot hs
    · obtain ⟨rfl, _⟩ | ⟨_, hne, _⟩ := hslot r' _ hs'
      · rfl
      · exact absurd rfl hne
    · obtain ⟨_, heq⟩ | ⟨_, _, hs'⟩ := hslot r' slot hs'
      · exact absurd heq hne
      · exact hinv.place r r' slot hs hs'
  · obtain ⟨rfl, _⟩ | ⟨hreq, _, hs⟩ := hslot r slot hs
    · exact ⟨_, Function.update_self ..⟩
    · obtain ⟨req, hr⟩ := hinv.live r slot hs
      exact ⟨req, update_eq_some.mpr (Or.inr ⟨hreq, hr⟩)⟩

/-- A block past the prompt is none of the prompt blocks. -/
theorem residentBelow_put (hidx : promptLen ≤ idx) : residentBelow (m.put idx b) promptLen = residentBelow m promptLen := by
  ext b'
  simp only [residentBelow, Set.mem_ofPred_eq, LayerMaps.put, lookup_insert]
  constructor
  · rintro ⟨i, hi, hlt⟩
    rw [if_neg (by omega)] at hi
    exact ⟨i, hi, hlt⟩
  · rintro ⟨i, hi, hlt⟩
    exact ⟨i, by rw [if_neg (by omega), hi], hlt⟩

theorem Split.put (hsplit : Split m promptLen row) (hidx : promptLen ≤ idx) : Split (m.put idx b) promptLen row := by
  have hbelow : residentBelow (m.put idx b) promptLen = residentBelow m promptLen := residentBelow_put hidx
  have hreported : reportedBelow (m.put idx b) promptLen row = reportedBelow m promptLen row := by
    rw [reportedBelow, hbelow]
    rfl
  exact ⟨by rw [hbelow, hreported]; exact hsplit.union, by rw [hreported]; exact hsplit.disjoint⟩

theorem EngineInvariant.addBlocksMap (hinv : EngineInvariant s) (hfirst : s.requests reqId = none → 0 ≤ idx)
    (hkept : ∀ req, s.requests reqId = some req →
      req.promptLen ≤ idx ∧ ∀ i, (req.maps i).docs[idx]? = none ∧ (req.maps i).blocks[blockID]? = none) :
    EngineInvariant (s.addBlocksMap reqId idx blockID) := by
  have hlive : ∀ r slot, s.slotOf r = some slot → ∃ req, (s.addBlocksMap reqId idx blockID).requests r = some req := by
    intro r slot hs
    obtain ⟨req, hr⟩ := hinv.live r slot hs
    by_cases heq : r = reqId
    · exact ⟨_, update_eq_some.mpr (Or.inl ⟨heq, rfl⟩)⟩
    · exact ⟨req, update_eq_some.mpr (Or.inr ⟨heq, hr⟩)⟩
  refine ⟨⟨fun r req hr i => ?_, fun r req slot hr hs i => ?_, fun r req hr hs i => ?_⟩, hinv.free, hinv.place, hlive⟩
  · obtain ⟨rfl, rfl⟩ | ⟨_, hr⟩ := update_eq_some.mp hr
    · cases hreq : s.requests r with
      | none => exact Inverse.insert Inverse.empty (by simp [LayerMaps.empty]) (by simp [LayerMaps.empty])
      | some old =>
        have hnew := (hkept old hreq).2 i
        exact Inverse.insert (hinv.valid r old hreq i) hnew.1 hnew.2
    · exact hinv.valid r req hr i
  · obtain ⟨rfl, rfl⟩ | ⟨_, hr⟩ := update_eq_some.mp hr
    · obtain ⟨old, hreq⟩ := hinv.live r slot hs
      rw [hreq]
      exact (hinv.split r old slot hreq hs i).put (hkept old hreq).1
    · exact hinv.split r req slot hr hs i
  · obtain ⟨rfl, rfl⟩ | ⟨_, hr⟩ := update_eq_some.mp hr
    · cases hreq : s.requests r with
      | none =>
        have hempty : residentBelow LayerMaps.empty 0 = ∅ := by
          ext b
          simp [residentBelow, LayerMaps.empty]
        exact (residentBelow_put (hfirst hreq)).trans hempty
      | some old => exact (residentBelow_put (hkept old hreq).1).trans (hinv.unplaced r old hreq hs i)
    · exact hinv.unplaced r req hr hs i

theorem requests_of_delReqIDRun {req : RequestMaps Hash layers} (h : s.delReqIDRun.requests r = some req) :
    r ∉ s.delSeqIds ∧ s.requests r = some req := by
  simp only [GSAPrefetchEngine.delReqIDRun] at h
  split_ifs at h with hmem
  exact ⟨hmem, h⟩

theorem EngineInvariant.delReqIDRun (hinv : EngineInvariant s) : EngineInvariant s.delReqIDRun := by
  have hslot : ∀ r slot, s.delReqIDRun.slotOf r = some slot → r ∉ s.delSeqIds ∧ s.slotOf r = some slot := by
    intro r slot hr
    simp only [GSAPrefetchEngine.delReqIDRun] at hr
    split_ifs at hr with hmem
    exact ⟨hmem, hr⟩
  constructor
  · refine ⟨fun r req hr => hinv.valid r req (requests_of_delReqIDRun hr).2,
      fun r req slot hr hs => hinv.split r req slot (requests_of_delReqIDRun hr).2 (hslot r slot hs).2, fun r req hr hs => ?_⟩
    obtain ⟨hmem, hr⟩ := requests_of_delReqIDRun hr
    exact hinv.unplaced r req hr ((if_neg hmem).symm.trans hs)
  · exact fun r slot hs => hinv.free r slot (hslot r slot hs).2
  · exact fun r r' slot hs hs' => hinv.place r r' slot (hslot r slot hs).2 (hslot r' slot hs').2
  · intro r slot hs
    obtain ⟨hmem, hs⟩ := hslot r slot hs
    obtain ⟨req, hr⟩ := hinv.live r slot hs
    exact ⟨req, (if_neg hmem).trans hr⟩

theorem EngineInvariant.delBlocksMap (hinv : EngineInvariant s) (reqId : ReqId) : EngineInvariant (s.delBlocksMap reqId) := by
  have hmark : EngineInvariant { s with delSeqIds := insert reqId s.delSeqIds } :=
    ⟨⟨hinv.valid, hinv.split, hinv.unplaced⟩, hinv.free, hinv.place, hinv.live⟩
  rw [GSAPrefetchEngine.delBlocksMap]
  split_ifs
  · exact hmark.delReqIDRun
  · exact hmark

/-- What the pass over a request with maps leaves of a layer of it. -/
def layerRun (cfg : PrefetchConfig) (stored : Hash → Fin layers → Kv) (s : GSAPrefetchEngine ReqId Hash Kv layers)
    (req : RequestMaps Hash layers) (topkLen bsIndex : Nat) (topk : Fin layers → List Int)
    (loads : Fin layers → Nat → Load Kv) (i : Fin layers) : LayerRun Kv :=
  runLayer cfg.isPythonLoad (GSAPrefetchEngine.kvOf stored req i) req.promptLen (cfg.limit topkLen) (topk i) (loads i)
    (req.maps i) (s.rows i bsIndex).freeBlock (s.hbm i)

section Pass

variable {topk : Fin layers → List Int} {loads : Fin layers → Nat → Load Kv} {req : RequestMaps Hash layers}

theorem runOneBsPrefetch_eq (hreq : s.requests reqId = some req) (hlen : topkLen ≠ 0) :
    s.runOneBsPrefetch cfg stored reqId topkLen bsIndex topk loads =
      { s with
        requests := Function.update s.requests reqId
          (some { req with maps := fun i => (layerRun cfg stored s req topkLen bsIndex topk loads i).maps })
        rows := fun i => Function.update (s.rows i) bsIndex (layerRun cfg stored s req topkLen bsIndex topk loads i).row
        hbm := fun i => (layerRun cfg stored s req topkLen bsIndex topk loads i).hbm } := by
  simp only [GSAPrefetchEngine.runOneBsPrefetch, hreq, if_neg hlen]
  rfl

theorem runOneBsPrefetch_of_none (hreq : s.requests reqId = none) :
    s.runOneBsPrefetch cfg stored reqId topkLen bsIndex topk loads = s := by
  simp only [GSAPrefetchEngine.runOneBsPrefetch, hreq]

omit [DecidableEq ReqId] in
theorem EngineInvariant.layerRun (stored : Hash → Fin layers → Kv) (hinv : EngineInvariant s) (hreq : s.requests reqId = some req)
    (hslot : s.slotOf reqId = some bsIndex) (htopk : ∀ i, (topk i).Nodup)
    (hdone : ∀ i, cfg.isPythonLoad = true ∨
      ∀ j < (toLoad (req.maps i).docs (cfg.limit topkLen) (topk i) (s.rows i bsIndex).freeBlock).length, (loads i j).Done)
    (i : Fin layers) :
    let r := layerRun cfg stored s req topkLen bsIndex topk loads i
    r.maps = (req.maps i).reassignAll (toLoad (req.maps i).docs (cfg.limit topkLen) (topk i) (s.rows i bsIndex).freeBlock) ∧
      r.maps.Valid ∧ values r.maps.docs = values (req.maps i).docs ∧ Split r.maps req.promptLen r.row ∧
      r.row.freeBlock.Nodup :=
  runLayer_of_done (hinv.valid reqId req hreq i) (htopk i) (hinv.free reqId bsIndex hslot i)
    ((hinv.split reqId req bsIndex hreq hslot i).resident (hinv.valid reqId req hreq i)) (hdone i)

theorem EngineInvariant.runOneBsPrefetch
    (hinv : EngineInvariant s) (hkept : (runOneBsPrefetch reqId topkLen bsIndex topk loads).Kept cfg s)
    (hdone : (PrefetchEvent.runOneBsPrefetch reqId topkLen bsIndex topk loads).Complete cfg s) :
    EngineInvariant (s.runOneBsPrefetch cfg stored reqId topkLen bsIndex topk loads) := by
  cases hreq : s.requests reqId with
  | none => rwa [runOneBsPrefetch_of_none hreq]
  | some req =>
    obtain ⟨hslot, hextra, htopk⟩ := hkept (by simp [hreq])
    have hrun := hinv.layerRun stored hreq hslot (fun i => (htopk i).2) (hdone req hreq)
    rw [runOneBsPrefetch_eq hreq (by omega)]
    refine ⟨⟨fun r q hr i => ?_, fun r q slot hr hs i => ?_, fun r q hr hs => ?_⟩, fun r slot hs i => ?_, hinv.place,
      fun r slot hs => ?_⟩
    · obtain ⟨rfl, rfl⟩ | ⟨_, hr⟩ := update_eq_some.mp hr
      · exact (hrun i).2.1
      · exact hinv.valid r q hr i
    · obtain ⟨rfl, rfl⟩ | ⟨hne, hr⟩ := update_eq_some.mp hr
      · obtain rfl : slot = bsIndex := Option.some.inj (hs.symm.trans hslot)
        simpa only [Function.update_self] using (hrun i).2.2.2.1
      · have hplace : slot ≠ bsIndex := fun heq => hne (hinv.place r reqId slot hs (heq ▸ hslot))
        simpa only [Function.update_of_ne hplace] using hinv.split r q slot hr hs i
    · obtain ⟨rfl, _⟩ | ⟨_, hr⟩ := update_eq_some.mp hr
      · cases hs.symm.trans hslot
      · exact hinv.unplaced r q hr hs
    · by_cases hplace : slot = bsIndex
      · simpa only [hplace, Function.update_self] using (hrun i).2.2.2.2
      · simpa only [Function.update_of_ne hplace] using hinv.free r slot hs i
    · obtain ⟨q, hr⟩ := hinv.live r slot hs
      by_cases heq : r = reqId
      · exact ⟨_, update_eq_some.mpr (Or.inl ⟨heq, rfl⟩)⟩
      · exact ⟨q, update_eq_some.mpr (Or.inr ⟨heq, hr⟩)⟩

end Pass

theorem validSet_setBlocksMap {blockTableList : List Int} {prefetchIdx remainIdx : List Nat}
    (hidx : (prefetchIdx ++ remainIdx).Nodup)
    (hblocks : ((prefetchIdx ++ remainIdx).map fun idx => blockTableList.getD idx 0).Nodup)
    (hbelow : ∀ idx ∈ prefetchIdx, (idx : Int) < maxIdx) :
    ValidSet ((prefetchIdx ++ remainIdx).map fun idx => (Int.ofNat idx, blockTableList.getD idx 0))
      ⟨prefetchIdx.map fun idx => blockTableList.getD idx 0, remainIdx.map fun idx => blockTableList.getD idx 0,
        remainIdx.length, remainIdx.map Int.ofNat⟩ maxIdx where
  indexes := by
    rw [List.map_map]
    exact hidx.map (fun _ _ h => Int.ofNat.inj h)
  blocks := by
    rw [List.map_map]
    exact hblocks
  parts := by
    refine ⟨remainIdx.map fun idx => (Int.ofNat idx, blockTableList.getD idx 0),
      prefetchIdx.map fun idx => (Int.ofNat idx, blockTableList.getD idx 0), ?_, ?_, ?_, ?_⟩
    · rw [List.map_append]
      exact List.perm_append_comm
    · rw [Row.reported, List.take_of_length_le (by simp), List.map_map]
      rfl
    · rw [List.map_map]
      rfl
    · simpa using hbelow

theorem EngineInvariant.step (hinv : EngineInvariant s) (hkept : e.Kept cfg s) (hdone : e.Complete cfg s)
    (hs : GSAPrefetchEngine.step cfg stored s e = some s') : EngineInvariant s' := by
  cases e with
  | setBlocksMap reqId bsIndex blockTableList prefetchIdx remainIdx hashes maxIdx =>
    cases hs
    obtain ⟨hplace, hidx, hblocks, hbelow⟩ := hkept
    exact hinv.setMaps hashes hplace fun _ => validSet_setBlocksMap hidx hblocks hbelow
  | setBlocksMapMultiLayer reqId bsIndex remainMap prefetchMap remainBlocks prefetchBlocks hashes maxIdx =>
    cases hs
    obtain ⟨hplace, hset⟩ := hkept
    apply hinv.setMaps hashes hplace
    intro i
    obtain ⟨hidx, hblocks, hremain, hprefetch, hbelow⟩ := hset i
    refine ⟨hidx, hblocks, _, _, List.Perm.refl _, ?_, hprefetch, hbelow⟩
    rwa [Row.reported, List.take_length]
  | addBlocksMap reqId idx blockID =>
    cases hs
    exact hinv.addBlocksMap hkept.1 hkept.2
  | delBlocksMap reqId =>
    cases hs
    exact hinv.delBlocksMap reqId
  | runAsyncPrefetchBs =>
    simp only [GSAPrefetchEngine.step] at hs
    split_ifs at hs
    cases hs
    exact ⟨⟨hinv.valid, hinv.split, hinv.unplaced⟩, hinv.free, hinv.place, hinv.live⟩
  | runOneBsPrefetch reqId topkLen bsIndex topk loads =>
    simp only [GSAPrefetchEngine.step] at hs
    split_ifs at hs
    cases hs
    exact hinv.runOneBsPrefetch hkept hdone
  | delReqIDRun =>
    simp only [GSAPrefetchEngine.step] at hs
    split_ifs at hs
    cases hs
    exact hinv.delReqIDRun
  | setPrefetchStatus =>
    cases hs
    exact ⟨⟨hinv.valid, hinv.split, hinv.unplaced⟩, hinv.free, hinv.place, hinv.live⟩
  | write layer blockID kv =>
    cases hs
    exact ⟨⟨hinv.valid, hinv.split, hinv.unplaced⟩, hinv.free, hinv.place, hinv.live⟩

/-- One layer and one request with five prompt blocks: `0` and `2` remain, `1` is to prefetch. -/
def fivePromptBlocks : PrefetchEvent (Fin 1) Nat Nat 1 :=
  .setBlocksMap 0 5 [10, 11, 12, 13, 14] [1] [0, 2] [0, 10, 20, 30, 40] 5

/-- A top-k list with two misses and room for the first. -/
def askForMisses (load : Load Nat) : PrefetchEvent (Fin 1) Nat Nat 1 :=
  .runOneBsPrefetch 0 4 5 (fun _ => [0, 2, 3, 4]) fun _ _ => load

def oneExtra : PrefetchConfig := ⟨1, false⟩

def storedAsHash (h : Nat) (_ : Fin 1) : Nat := h

/-- Block `10 + i` holds what the store has for index `i`. -/
def promptBlocks (_ : Fin 1) (b : Int) : Nat := 10 * (b - 10).toNat

theorem kept_fivePromptBlocks {s : GSAPrefetchEngine (Fin 1) Nat Nat 1} : fivePromptBlocks.Kept oneExtra s :=
  ⟨fun r hr => absurd (Subsingleton.elim r 0) hr, by decide, by decide, by decide⟩

def beforeMisses : GSAPrefetchEngine (Fin 1) Nat Nat 1 :=
  (run (GSAPrefetchEngine.step oneExtra storedAsHash) (GSAPrefetchEngine.init promptBlocks)
    [fivePromptBlocks, .runAsyncPrefetchBs]).get rfl

def afterMisses (load : Load Nat) : GSAPrefetchEngine (Fin 1) Nat Nat 1 :=
  (GSAPrefetchEngine.step oneExtra storedAsHash beforeMisses (askForMisses load)).get rfl

theorem kept_askForMisses (load : Load Nat) : (askForMisses load).Kept oneExtra beforeMisses :=
  fun _ => ⟨rfl, by decide, fun _ => ⟨rfl, by simp⟩⟩

theorem step_askForMisses (load : Load Nat) :
    GSAPrefetchEngine.step oneExtra storedAsHash beforeMisses (askForMisses load) = some (afterMisses load) :=
  (Option.some_get _).symm

end Engine

end UnifiedCache.Sparse.GSAPrefetch
