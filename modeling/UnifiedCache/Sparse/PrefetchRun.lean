import UnifiedCache.Sparse.PrefetchEngine

/-! What one `RunOneBsPrefetch` does to a layer: the hits it finds, the batch of loads it makes of
the free blocks and the missed indexes, and the maps after the loads that were done. -/

namespace UnifiedCache.Sparse.GSAPrefetch

open InverseMaps

variable {docs : Std.TreeMap Int Int} {m : LayerMaps} {topk freeBlock pre : List Int} {h : Hits}
  {limit : Nat} {batch : List (Int × Int)} {i b item : Int}

/-- The two maps say the same. -/
def LayerMaps.Valid (m : LayerMaps) : Prop := Inverse m.docs m.blocks

/-- No two indexes have one block. -/
def OneIndex (docs : Std.TreeMap Int Int) : Prop := ∀ i j b : Int, docs[i]? = some b → docs[j]? = some b → i = j

theorem LayerMaps.Valid.oneIndex (hvalid : m.Valid) : OneIndex m.docs := fun _ _ _ hi hj => hvalid.key_inj hi hj

theorem lookup_insertIfNew (t : Std.TreeMap Int Int) (k v k' : Int) :
    (t.insertIfNew k v)[k']? = if k' = k then some (t[k]?.getD v) else t[k']? := by
  simp only [Std.TreeMap.getElem?_insertIfNew, compare_eq_iff]
  by_cases hk : k' = k
  · subst hk
    by_cases hmem : k' ∈ t <;> simp [hmem]
  · simp [hk]

/-- Every index of `hitBlocksIdx` has its block in `docs`, and `hitBlocks` are these blocks. -/
structure Hits.Matches (h : Hits) (docs : Std.TreeMap Int Int) : Prop where
  sound : ∀ i b : Int, h.hitBlocksIdx[i]? = some b → docs[i]? = some b
  hitBlocks : ∀ b, b ∈ h.hitBlocks ↔ ∃ i : Int, h.hitBlocksIdx[i]? = some b

namespace Hits.Matches

theorem nodup (hmatch : h.Matches docs) (hone : OneIndex docs) : (h.hitBlocksIdx.toList.map Prod.snd).Nodup := by
  rw [List.Nodup, List.pairwise_map]
  apply (toList_sorted (t := h.hitBlocksIdx)).imp_of_mem
  intro p q hp hq hlt heq
  have hpq : p.1 = q.1 := hone p.1 q.1 p.2 (hmatch.sound _ _ (mem_toList.mp hp))
    (heq ▸ hmatch.sound _ _ (mem_toList.mp hq))
  rw [hpq, Std.LawfulEqOrd.compare_eq_iff_eq.mpr rfl] at hlt
  cases hlt

theorem mem_blocks (hmatch : h.Matches docs) : b ∈ h.hitBlocks ↔ b ∈ h.hitBlocksIdx.toList.map Prod.snd := by
  rw [hmatch.hitBlocks, List.mem_map]
  constructor
  · rintro ⟨i, hi⟩
    exact ⟨(i, b), mem_toList.mpr hi, rfl⟩
  · rintro ⟨⟨i, b⟩, hmem, rfl⟩
    exact ⟨i, mem_toList.mp hmem⟩

theorem card_eq (hmatch : h.Matches docs) (hone : OneIndex docs) :
    h.hitBlocks.card = (h.hitBlocksIdx.toList.map Prod.snd).length := by
  rw [← List.toFinset_card_of_nodup (hmatch.nodup hone)]
  congr 1
  ext b
  rw [List.mem_toFinset, hmatch.mem_blocks]

theorem size_eq (hmatch : h.Matches docs) (hone : OneIndex docs) : h.hitBlocksIdx.size = h.hitBlocks.card := by
  rw [hmatch.card_eq hone, List.length_map, Std.TreeMap.length_toList]

end Hits.Matches

/-- The hits after the indexes `pre` of a top-k list. -/
structure Classified (docs : Std.TreeMap Int Int) (pre : List Int) (h : Hits) : Prop where
  missIdxs : h.missIdxs = pre.filter fun i => docs[i]? = none
  hitBlocks : ∀ b, b ∈ h.hitBlocks ↔ ∃ i ∈ pre, docs[i]? = some b
  hitBlocksIdx : ∀ i : Int, h.hitBlocksIdx[i]? = if i ∈ pre then docs[i]? else none

namespace Classified

theorem empty (docs : Std.TreeMap Int Int) : Classified docs [] Hits.empty where
  missIdxs := rfl
  hitBlocks b := by simp [Hits.empty]
  hitBlocksIdx i := by simp [Hits.empty]

theorem snoc (hc : Classified docs pre h) (item : Int) : Classified docs (pre ++ [item]) (classify docs h item) := by
  cases hitem : docs[item]? with
  | none =>
    simp only [classify, hitem]
    constructor
    · simp only [hc.missIdxs, List.filter_append, List.filter_cons, List.filter_nil, hitem, decide_true, if_true]
    · intro b
      simp [hc.hitBlocks, or_and_right, exists_or, hitem]
    · intro i
      rw [hc.hitBlocksIdx]
      by_cases hi : i = item
      · simp [hi, hitem]
      · simp [hi]
  | some blockID =>
    simp only [classify, hitem, Hits.hit]
    constructor
    · simp only [hc.missIdxs, List.filter_append, List.filter_cons, List.filter_nil, hitem, reduceCtorEq,
        decide_false, Bool.false_eq_true, if_false, List.append_nil]
    · intro b
      rw [Finset.mem_insert, hc.hitBlocks]
      simp [or_and_right, exists_or, hitem, or_comm, eq_comm]
    · intro i
      rw [lookup_insertIfNew, hc.hitBlocksIdx, hc.hitBlocksIdx]
      by_cases hi : i = item
      · subst hi
        by_cases hmem : i ∈ pre <;> simp [hmem, hitem]
      · simp [hi]

theorem hitsMatch (hc : Classified docs pre h) : h.Matches docs where
  sound i b hi := by
    rw [hc.hitBlocksIdx] at hi
    split_ifs at hi
    exact hi
  hitBlocks b := by
    rw [hc.hitBlocks]
    constructor
    · rintro ⟨i, hmem, hi⟩
      exact ⟨i, by rw [hc.hitBlocksIdx, if_pos hmem, hi]⟩
    · rintro ⟨i, hi⟩
      rw [hc.hitBlocksIdx] at hi
      split_ifs at hi with hmem
      exact ⟨i, hmem, hi⟩

end Classified

/-- The scan of a top-k list stops after a prefix, at its end or with `limit` hits. -/
theorem getHitAndMissBlock_spec (limit : Nat) (topk : List Int) (hc : Classified docs pre h) :
    ∃ scanned, scanned <+: topk ∧ Classified docs (pre ++ scanned) (getHitAndMissBlock docs limit topk h) ∧
      (scanned = topk ∨ (getHitAndMissBlock docs limit topk h).hitBlocks.card = limit) := by
  induction topk generalizing pre h with
  | nil => exact ⟨[], List.prefix_rfl, by simpa [getHitAndMissBlock] using hc, Or.inl rfl⟩
  | cons item topk ih =>
    rw [getHitAndMissBlock]
    have hc' := hc.snoc item
    split_ifs with hstop
    · exact ⟨[item], ⟨topk, rfl⟩, hc', Or.inr hstop.2⟩
    · obtain ⟨scanned, hfront, hscan, hend⟩ := ih hc'
      refine ⟨item :: scanned, List.cons_prefix_cons.mpr ⟨rfl, hfront⟩, ?_, ?_⟩
      · rwa [List.append_assoc] at hscan
      · exact hend.imp_left fun heq => by rw [heq]

section Batch

/-- The hits with the pairs of a batch. -/
def Hits.pickAll (h : Hits) (batch : List (Int × Int)) : Hits := batch.foldl (fun h p => h.hit p.2 p.1) h

theorem pickFree_eq (hnodup : freeBlock.Nodup) (missIdxs : List Int) (h : Hits) :
    pickFree limit freeBlock missIdxs h =
      let batch := ((freeBlock.filter fun b => b ∉ h.hitBlocks).zip missIdxs).take (limit - h.hitBlocks.card)
      (batch, h.pickAll batch) := by
  induction freeBlock generalizing missIdxs h with
  | nil => simp [pickFree, Hits.pickAll]
  | cons free frees ih =>
    obtain ⟨hfree, hfrees⟩ := List.nodup_cons.mp hnodup
    cases missIdxs with
    | nil => simp [pickFree, Hits.pickAll]
    | cons missIdx missIdxs =>
      rw [pickFree]
      split_ifs with hcard hmem
      · rw [ih hfrees, List.filter_cons_of_neg (by simpa using hmem)]
      · have hrest : (frees.filter fun b => b ∉ (h.hit missIdx free).hitBlocks) =
            frees.filter fun b => b ∉ h.hitBlocks := by
          apply List.filter_congr
          intro b hb
          have hne : b ≠ free := fun heq => hfree (heq ▸ hb)
          simp [Hits.hit, hne]
        have hsucc : (h.hit missIdx free).hitBlocks.card = h.hitBlocks.card + 1 := Finset.card_insert_of_notMem hmem
        obtain ⟨n, hn⟩ : ∃ n, limit - h.hitBlocks.card = n + 1 := ⟨limit - h.hitBlocks.card - 1, by omega⟩
        have hn' : limit - (h.hit missIdx free).hitBlocks.card = n := by omega
        rw [ih hfrees, hrest, hn', List.filter_cons_of_pos (by simpa using hmem), List.zip_cons_cons, hn,
          List.take_succ_cons]
        rfl
      · simp [Nat.sub_eq_zero_of_le (not_lt.mp hcard), Hits.pickAll]

/-- The loads of a top-k list: the free blocks that are no hit, with the missed indexes in their order, as
many as there is room for beside the hits. -/
def toLoad (docs : Std.TreeMap Int Int) (limit : Nat) (topk freeBlock : List Int) : List (Int × Int) :=
  let hits := topk.filterMap fun i => docs[i]?
  ((freeBlock.filter fun b => b ∉ hits).zip (topk.filter fun i => docs[i]? = none)).take (limit - hits.length)

theorem nodup_hits (hone : OneIndex docs) (htopk : topk.Nodup) : (topk.filterMap fun i => docs[i]?).Nodup := by
  rw [List.Nodup, List.pairwise_filterMap]
  apply htopk.imp
  intro i j hij b hi b' hj heq
  exact hij (hone i j b hi (heq ▸ hj))

theorem Classified.card_eq (hc : Classified docs pre h) (hone : OneIndex docs) (hpre : pre.Nodup) :
    h.hitBlocks.card = (pre.filterMap fun i => docs[i]?).length := by
  rw [← List.toFinset_card_of_nodup (nodup_hits hone hpre)]
  congr 1
  ext b
  rw [hc.hitBlocks, List.mem_toFinset, List.mem_filterMap]

/-- The hits that a run starts its batch from, of a prefix of the top-k list, which is the whole list when
anything is loaded. -/
theorem prefetchBatch_spec (limit : Nat) (hone : OneIndex docs) (htopk : topk.Nodup) (hfree : freeBlock.Nodup) :
    ∃ scanned h, scanned <+: topk ∧ Classified docs scanned h ∧
      prefetchBatch docs limit topk freeBlock =
        (toLoad docs limit topk freeBlock, h.pickAll (toLoad docs limit topk freeBlock)) ∧
      (toLoad docs limit topk freeBlock ≠ [] → scanned = topk) := by
  obtain ⟨scanned, hfront, hc, hend⟩ :=
    getHitAndMissBlock_spec limit topk (Classified.empty docs)
  rw [List.nil_append] at hc
  have hscanned : scanned.Nodup := htopk.sublist hfront.sublist
  have hcard := hc.card_eq hone hscanned
  have hle : (scanned.filterMap fun i => docs[i]?).length ≤ (topk.filterMap fun i => docs[i]?).length :=
    (hfront.sublist.filterMap _).length_le
  have hsize := hc.hitsMatch.size_eq hone
  refine ⟨scanned, _, hfront, hc, ?_, ?_⟩
  · simp only [prefetchBatch]
    split_ifs with hroom
    · have hall : scanned = topk := hend.resolve_right (by omega)
      subst hall
      have hblocks : (freeBlock.filter fun b => b ∉ (getHitAndMissBlock docs limit scanned Hits.empty).hitBlocks) =
          freeBlock.filter fun b => b ∉ scanned.filterMap fun i => docs[i]? := by
        apply List.filter_congr
        intro b _
        simp only [hc.hitBlocks, List.mem_filterMap]
      rw [pickFree_eq hfree, hblocks, hcard, hc.missIdxs]
      rfl
    · have hnone : toLoad docs limit topk freeBlock = [] := by
        simp only [toLoad]
        rw [not_and_or, not_not] at hroom
        by_cases hfull : limit ≤ (topk.filterMap fun i => docs[i]?).length
        · rw [Nat.sub_eq_zero_of_le hfull, List.take_zero]
        · have hall : scanned = topk := hend.resolve_right (by omega)
          subst hall
          have hmiss := hroom.resolve_right (by omega)
          rw [hc.missIdxs] at hmiss
          rw [hmiss, List.zip_nil_right, List.take_nil]
      rw [hnone]
      rfl
  · intro hload
    by_contra hne
    apply hload
    have hfull := hend.resolve_left hne
    simp only [toLoad]
    rw [Nat.sub_eq_zero_of_le (by omega), List.take_zero]

theorem fst_zip_sublist {α β : Type*} (xs : List α) (ys : List β) : ((xs.zip ys).map Prod.fst).Sublist xs := by
  induction xs generalizing ys with
  | nil => simp
  | cons x xs ih =>
    cases ys with
    | nil => simp
    | cons y ys => exact (ih ys).cons_cons x

theorem snd_zip_sublist {α β : Type*} (xs : List α) (ys : List β) : ((xs.zip ys).map Prod.snd).Sublist ys := by
  induction ys generalizing xs with
  | nil => simp
  | cons y ys ih =>
    cases xs with
    | nil => simp
    | cons x xs => exact (ih xs).cons_cons y

end Batch

section Loads

/-- The pairs of a batch can be loaded one after another: each block has an index of its own, and no
missed index has a block. -/
structure Movable (m : LayerMaps) (batch : List (Int × Int)) : Prop where
  nodup_blocks : (batch.map Prod.fst).Nodup
  nodup_missIdxs : (batch.map Prod.snd).Nodup
  resident : ∀ p ∈ batch, ∃ i : Int, m.blocks[p.1]? = some i
  missing : ∀ p ∈ batch, m.docs[p.2]? = none

theorem toLoad_movable (htopk : topk.Nodup) (hfree : freeBlock.Nodup)
    (hres : ∀ b ∈ freeBlock, ∃ i : Int, m.blocks[b]? = some i) : Movable m (toLoad m.docs limit topk freeBlock) := by
  have hsub : ∀ p ∈ toLoad m.docs limit topk freeBlock,
      p.1 ∈ freeBlock ∧ p.2 ∈ topk.filter fun i => m.docs[i]? = none := by
    intro p hp
    obtain ⟨hblock, hmiss⟩ := List.of_mem_zip (a := p.1) (b := p.2) (List.mem_of_mem_take hp)
    exact ⟨(List.mem_filter.mp hblock).1, hmiss⟩
  constructor
  · apply List.Nodup.sublist _ hfree
    rw [toLoad, List.map_take]
    exact (List.take_sublist _ _).trans ((fst_zip_sublist _ _).trans List.filter_sublist)
  · apply List.Nodup.sublist _ htopk
    rw [toLoad, List.map_take]
    exact (List.take_sublist _ _).trans ((snd_zip_sublist _ _).trans List.filter_sublist)
  · exact fun p hp => hres _ (hsub p hp).1
  · exact fun p hp => by simpa only [decide_eq_true_eq] using (List.mem_filter.mp (hsub p hp).2).2

theorem notMem_hits_of_mem_toLoad {p : Int × Int} (hp : p ∈ toLoad docs limit topk freeBlock) (hi : i ∈ topk) :
    docs[i]? ≠ some p.1 := by
  intro heq
  have hblock := (List.of_mem_zip (a := p.1) (b := p.2) (List.mem_of_mem_take hp)).1
  have hnot := (List.mem_filter.mp hblock).2
  simp only [decide_eq_true_eq] at hnot
  exact hnot (List.mem_filterMap.mpr ⟨i, hi, heq⟩)

def LayerMaps.reassignAll (m : LayerMaps) (batch : List (Int × Int)) : LayerMaps :=
  batch.foldl (fun m p => m.reassign p.1 p.2) m

namespace LayerMaps

variable {blockID missIdx oriIdx : Int}

theorem reassign_eq (hblock : m.blocks[blockID]? = some oriIdx) : m.reassign blockID missIdx =
    ⟨(m.docs.erase oriIdx).insert missIdx blockID, m.blocks.insert blockID missIdx⟩ := by
  rw [reassign, Std.TreeMap.getD_eq_getD_getElem?, hblock, Option.getD_some]

theorem Valid.reassign (hvalid : m.Valid) (hblock : m.blocks[blockID]? = some oriIdx)
    (hmiss : m.docs[missIdx]? = none) : (m.reassign blockID missIdx).Valid := by
  rw [reassign_eq hblock]
  exact Inverse.rekey hvalid hblock hmiss

theorem Valid.values_reassign (hvalid : m.Valid) (hblock : m.blocks[blockID]? = some oriIdx)
    (hmiss : m.docs[missIdx]? = none) : values (m.reassign blockID missIdx).docs = values m.docs := by
  rw [reassign_eq hblock]
  exact Inverse.values_rekey hvalid hblock hmiss

theorem blocks_reassign : (m.reassign blockID missIdx).blocks[b]? = if b = blockID then some missIdx else m.blocks[b]? :=
  lookup_insert

theorem docs_reassign_none (hi : m.docs[i]? = none) (hne : i ≠ missIdx) : (m.reassign blockID missIdx).docs[i]? = none := by
  rw [reassign, lookup_insert, if_neg hne, lookup_erase, hi, ite_self]

end LayerMaps

theorem Movable.head {p : Int × Int} (hmov : Movable m (p :: batch)) :
    (∃ i : Int, m.blocks[p.1]? = some i) ∧ m.docs[p.2]? = none ∧ Movable (m.reassign p.1 p.2) batch := by
  have hblocks := List.nodup_cons.mp hmov.nodup_blocks
  have hmiss := List.nodup_cons.mp hmov.nodup_missIdxs
  refine ⟨hmov.resident p List.mem_cons_self, hmov.missing p List.mem_cons_self, hblocks.2, hmiss.2, ?_, ?_⟩
  · intro q hq
    obtain ⟨i, hi⟩ := hmov.resident q (List.mem_cons_of_mem p hq)
    have hne : q.1 ≠ p.1 := fun heq => hblocks.1 (heq ▸ List.mem_map_of_mem hq)
    exact ⟨i, by rw [LayerMaps.blocks_reassign, if_neg hne, hi]⟩
  · intro q hq
    have hne : q.2 ≠ p.2 := fun heq => hmiss.1 (heq ▸ List.mem_map_of_mem hq)
    exact LayerMaps.docs_reassign_none (hmov.missing q (List.mem_cons_of_mem p hq)) hne

/-- After the loads of a batch its blocks have their missed indexes and the others what they had. -/
theorem Movable.reassignAll (hmov : Movable m batch) (hvalid : m.Valid) :
    (m.reassignAll batch).Valid ∧ values (m.reassignAll batch).docs = values m.docs ∧
      (∀ p ∈ batch, (m.reassignAll batch).blocks[p.1]? = some p.2) ∧
      ∀ b ∉ batch.map Prod.fst, (m.reassignAll batch).blocks[b]? = m.blocks[b]? := by
  induction batch generalizing m with
  | nil => exact ⟨hvalid, rfl, by simp, fun _ _ => rfl⟩
  | cons p batch ih =>
    obtain ⟨⟨i, hi⟩, hmiss, htail⟩ := hmov.head
    obtain ⟨hvalid', hvalues, hloaded, hother⟩ := ih htail (hvalid.reassign hi hmiss)
    refine ⟨hvalid', hvalues.trans (hvalid.values_reassign hi hmiss), ?_, ?_⟩
    · intro q hq
      cases hq with
      | head =>
        have hp := hother p.1 (List.nodup_cons.mp hmov.nodup_blocks).1
        rwa [LayerMaps.blocks_reassign, if_pos rfl] at hp
      | tail _ hq => exact hloaded q hq
    · intro b hb
      rw [List.map_cons, List.mem_cons, not_or] at hb
      have hrest := hother b hb.2
      rwa [LayerMaps.blocks_reassign, if_neg hb.1] at hrest

variable {Kv : Type} {isPythonLoad : Bool} {kvOf : Int → Option Kv} {loads : Nat → Load Kv} {k : Nat} {hbm : Int → Kv}

def Load.Done : Load Kv → Prop
  | .ok _ => True
  | _ => False

instance (load : Load Kv) : Decidable load.Done :=
  match load with
  | .ok _ => .isTrue trivial
  | .stop => .isFalse id
  | .fail _ => .isFalse id

theorem maps_loadKVToHBM_of_done
    (hdone : isPythonLoad = true ∨ ∀ j, k ≤ j → j < k + batch.length → (loads j).Done) :
    (loadKVToHBM isPythonLoad kvOf loads batch k m hbm).1 = m.reassignAll batch := by
  induction batch generalizing k m hbm with
  | nil => rfl
  | cons p batch ih =>
    have hrest : isPythonLoad = true ∨ ∀ j, k + 1 ≤ j → j < k + 1 + batch.length → (loads j).Done :=
      hdone.imp_right fun h j hkj hj => h j (by omega) (by rw [List.length_cons]; omega)
    rw [loadKVToHBM]
    split_ifs with hpy
    · exact ih hrest
    · have hk := hdone.resolve_left hpy k le_rfl (by rw [List.length_cons]; omega)
      cases hload : loads k with
      | stop => rw [hload] at hk; exact hk.elim
      | fail left => rw [hload] at hk; exact hk.elim
      | ok stray => exact ih hrest

/-- A load that is not done ends the batch with the loads before it. -/
theorem maps_loadKVToHBM_of_not_done (hpy : isPythonLoad = false)
    (hcut : ∃ j, k ≤ j ∧ j < k + batch.length ∧ ¬(loads j).Done) :
    ∃ n < batch.length, (loadKVToHBM isPythonLoad kvOf loads batch k m hbm).1 = m.reassignAll (batch.take n) := by
  induction batch generalizing k m hbm with
  | nil =>
    obtain ⟨j, hkj, hj, _⟩ := hcut
    rw [List.length_nil] at hj
    omega
  | cons p batch ih =>
    obtain ⟨j, hkj, hj, hnot⟩ := hcut
    rw [List.length_cons] at hj
    rw [loadKVToHBM, if_neg (by simp [hpy])]
    cases hload : loads k with
    | stop => exact ⟨0, by simp, rfl⟩
    | fail left => exact ⟨0, by simp, rfl⟩
    | ok stray =>
      have hne : j ≠ k := by
        rintro rfl
        rw [hload] at hnot
        exact hnot trivial
      obtain ⟨n, hn, heq⟩ := @ih (m.reassign p.1 p.2) (k + 1) (Function.update hbm p.1 ((kvOf p.2).getD stray))
        ⟨j, by omega, by omega, hnot⟩
      exact ⟨n + 1, by simpa using hn, heq⟩

end Loads

section FreeList

variable {promptLen : Int} {hitBlocksIdx : Std.TreeMap Int Int}

theorem mem_takeWhile_toList {p : Int × Int} :
    p ∈ docs.toList.takeWhile (fun p => p.1 < promptLen) ↔ docs[p.1]? = some p.2 ∧ p.1 < promptLen := by
  rw [mem_takeWhile_iff_of_pairwise, decide_eq_true_eq, ← mem_toList]
  apply (toList_sorted (t := docs)).imp
  intro p q hlt hq
  have hpq : p.1 < q.1 := Int.compare_eq_lt.mp hlt
  simp only [decide_eq_true_eq] at hq ⊢
  omega

theorem mem_freeList : b ∈ freeList docs promptLen hitBlocksIdx ↔
    ∃ i : Int, docs[i]? = some b ∧ i < promptLen ∧ hitBlocksIdx[i]? = none := by
  simp only [freeList, List.mem_map, List.mem_filter, mem_takeWhile_toList, Std.TreeMap.contains_eq_isSome_getElem?,
    Bool.not_eq_true', Option.isSome_eq_false_iff, Option.isNone_iff_eq_none]
  constructor
  · rintro ⟨⟨i, b⟩, ⟨⟨hi, hlt⟩, hmiss⟩, rfl⟩
    exact ⟨i, hi, hlt, hmiss⟩
  · rintro ⟨i, hi, hlt, hmiss⟩
    exact ⟨(i, b), ⟨⟨hi, hlt⟩, hmiss⟩, rfl⟩

theorem nodup_freeList (hone : OneIndex docs) : (freeList docs promptLen hitBlocksIdx).Nodup := by
  have hvalues : (docs.toList.map Prod.snd).Nodup := by
    have hmatch : (Hits.mk (docs.toList.map Prod.snd).toFinset docs []).Matches docs :=
      ⟨fun _ _ h => h, fun b => by
        simp only [List.mem_toFinset, List.mem_map, Prod.exists, exists_eq_right, mem_toList]⟩
    exact hmatch.nodup hone
  apply List.Nodup.sublist _ hvalues
  exact (List.filter_sublist.trans (List.takeWhile_sublist _)).map _

end FreeList

end UnifiedCache.Sparse.GSAPrefetch
