import UnifiedCache.Sparse.BlendMask

/-! The mask and the lengths of a batch after the loop over its requests. -/

namespace UnifiedCache.Sparse.Blend

open Connector Connector.Blend

variable {Layer Slot Row BlockId ReqId : Type*}

/-- A new request of a batch, whose chunks are in its query. -/
structure NewQuery (BlockId : Type*) (blockSize : Nat) where
  queryLen : Nat
  queryLen_pos : 0 < queryLen
  chunksMeta : List (ChunkMetaData BlockId)
  fits : (chunksMeta.flatMap ChunkMetaData.storeHits).length * blockSize ≤ queryLen

/-- Running requests with one token each, and new ones. -/
structure Batch (BlockId : Type*) (blockSize : Nat) where
  running : Nat
  news : List (NewQuery BlockId blockSize)

namespace NewQuery

variable {blockSize : Nat} (req : NewQuery BlockId blockSize) (indices : List Nat)

def hits : List Bool := req.chunksMeta.flatMap ChunkMetaData.storeHits

def Blended : Prop := 0 < req.hits.count true

instance : Decidable req.Blended := inferInstanceAs (Decidable (_ < _))

/-- A token of the query that is to be computed, when `indices` of the tokens that were found are. -/
def Kept (i : Nat) : Prop :=
  ¬ req.Blended ∨ req.hits.length * blockSize ≤ i ∨ req.hits[i / blockSize]? = some false ∨
    ∃ j ∈ indices, (hitTokens blockSize req.hits)[j]? = some i

/-- The mask of a request that has chunks. -/
def mask : List Bool :=
  if req.Blended then
    chunkMask blockSize req.hits indices ++ List.replicate (req.queryLen - req.hits.length * blockSize) true
  else List.replicate req.queryLen true

variable {req indices}

theorem hits_le : req.hits.length * blockSize ≤ req.queryLen := req.fits

theorem length_mask : (req.mask indices).length = req.queryLen := by
  rw [mask]
  split_ifs
  · rw [List.length_append, length_chunkMask, List.length_replicate, Nat.add_sub_cancel' hits_le]
  · rw [List.length_replicate]

theorem getElem?_mask (hb : 0 < blockSize) {i : Nat} (hi : i < req.queryLen) :
    (req.mask indices)[i]? = some true ↔ req.Kept indices i := by
  rw [mask, Kept]
  by_cases hblend : req.Blended
  · rw [if_pos hblend]
    rcases Nat.lt_or_ge i (req.hits.length * blockSize) with hc | hc
    · have hlt : i / blockSize < req.hits.length := (Nat.div_lt_iff_lt_mul hb).mpr hc
      rw [List.getElem?_append_left (by rwa [length_chunkMask]), chunkMask, List.getElem?_map,
        List.getElem?_range hc, Option.map_some, List.getElem?_eq_getElem hlt, Option.getD_some]
      simp only [hblend, not_true_eq_false, false_or, Nat.not_le.mpr hc, Option.some.injEq, Bool.or_eq_true,
        Bool.not_eq_true', List.contains_iff_mem, selected, List.mem_filterMap]
    · rw [List.getElem?_append_right (by rwa [length_chunkMask]), length_chunkMask,
        List.getElem?_replicate_of_lt (by omega)]
      simp only [hc, true_or, or_true]
  · rw [if_neg hblend, List.getElem?_replicate_of_lt hi]
    simp only [hblend, not_false_eq_true, true_or]

theorem count_mask (hb : 0 < blockSize) (hnd : indices.Nodup)
    (hlt : ∀ j ∈ indices, j < req.hits.count true * blockSize) : (req.mask indices).count true =
      if req.Blended then req.queryLen - (req.hits.count true * blockSize - indices.length) else req.queryLen := by
  rw [mask]
  split_ifs with hblend
  · have hcount := count_chunkMask hb hnd hlt
    have hfits := req.hits_le
    rw [List.count_append, List.count_replicate_self]
    omega
  · rw [List.count_replicate_self]

end NewQuery

section OneRequest

variable {config : BlendSparseConfig Layer} {topk : TopK} {ratio : Nat → Int}
  {req : NewQuery BlockId config.blockSize}

/-- The tokens that `torch.topk` selects for a request. -/
def picks (topk : TopK) (ratio : Nat → Int) (m : ReqMeta) (req : NewQuery BlockId config.blockSize) : List Nat :=
  topk.indices m (req.hits.count true * config.blockSize) (ratio (req.hits.count true * config.blockSize)).toNat

theorem BlendMetaData.updateReqComputeMask_eq {metas metas' : BlendMetaData} {xs zs : List Bool} {indices : List Nat}
    (hblend : req.Blended)
    (hmask : metas.computeMask = xs ++ (List.replicate req.queryLen false ++ zs))
    (h : metas.updateReqComputeMask xs.length (xs.length + req.hits.length * config.blockSize)
      (xs.length + req.queryLen) req.hits (selected config.blockSize req.hits indices) = some metas') :
    metas' = { metas with computeMask := xs ++ (req.mask indices ++ zs) } := by
  have hn : 0 < req.hits.length := hblend.trans_le List.count_le_length
  have hfits : req.hits.length * config.blockSize ≤ req.queryLen := req.hits_le
  have hsplit : List.replicate req.queryLen false = List.replicate (req.hits.length * config.blockSize) false ++
      List.replicate (req.queryLen - req.hits.length * config.blockSize) false := by
    rw [← List.replicate_add, Nat.add_sub_cancel' hfits]
  have hchunks : slice metas.computeMask xs.length (xs.length + req.hits.length * config.blockSize) =
      List.replicate (req.hits.length * config.blockSize) false := by
    have hs := slice_append_append xs (List.replicate (req.hits.length * config.blockSize) false)
      (List.replicate (req.queryLen - req.hits.length * config.blockSize) false ++ zs)
    rw [List.length_replicate] at hs
    rw [hmask, hsplit, List.append_assoc]
    exact hs
  have hnew : (List.replicate (req.hits.length * config.blockSize) false).mapIdx (fun i v =>
      v || !(req.hits[i / config.blockSize]?.getD true) || (selected config.blockSize req.hits indices).contains i) =
      chunkMask config.blockSize req.hits indices := by
    refine List.mapIdx_eq_iff.mpr fun i => ?_
    rw [chunkMask, List.getElem?_map]
    rcases Nat.lt_or_ge i (req.hits.length * config.blockSize) with hi | hi
    · rw [List.getElem?_range hi, List.getElem?_replicate_of_lt hi]
      rfl
    · have hfalse : (List.replicate (req.hits.length * config.blockSize) false)[i]? = none := by simpa using hi
      rw [hfalse, List.getElem?_eq_none (by rwa [List.length_range])]
      rfl
  simp only [updateReqComputeMask, hchunks, List.length_replicate, Nat.mul_div_cancel_left _ hn, hnew] at h
  split_ifs at h with hshape
  obtain rfl := Option.some.inj h
  have hdrop : metas.computeMask.drop (xs.length + req.hits.length * config.blockSize) =
      List.replicate (req.queryLen - req.hits.length * config.blockSize) false ++ zs := by
    have hd := @List.drop_left Bool (xs ++ List.replicate (req.hits.length * config.blockSize) false)
      (List.replicate (req.queryLen - req.hits.length * config.blockSize) false ++ zs)
    rw [List.length_append, List.length_replicate, List.append_assoc] at hd
    rw [hmask, hsplit, List.append_assoc]
    exact hd
  have htake : metas.computeMask.take xs.length = xs := by
    rw [hmask, List.take_left]
  rw [htake, hdrop]
  have hfill := fillTrue_append (xs ++ chunkMask config.blockSize req.hits indices)
    (List.replicate (req.queryLen - req.hits.length * config.blockSize) false) zs
  rw [List.length_append, length_chunkMask, List.length_replicate, Nat.add_assoc,
    Nat.add_sub_cancel' hfits] at hfill
  rw [hfill, NewQuery.mask, if_pos hblend]
  simp only [List.append_assoc]

/-- The rows of the found blocks, when the shapes fit. -/
theorem flatten_of_maskSelect {n : Nat} {hits : List Bool} {rows : List (List Nat)} (hn : n = hits.length)
    (h : maskSelect ((maskIdx config).take n) hits = some rows) :
    rows.flatten = hitTokens config.blockSize hits := by
  unfold maskSelect at h
  split_ifs at h with hlen
  obtain rfl := Option.some.inj h
  rw [maskIdx, List.length_take, List.length_map, List.length_range] at hlen
  rw [← flatten_compress_rows config.blockSize_pos, maskIdx, ← List.map_take, List.take_range, hn,
    Nat.min_eq_left (by omega)]

/-- How many tokens of the found blocks a request does without. -/
def reused (config : BlendSparseConfig Layer) (ratio : Nat → Int) (req : NewQuery BlockId config.blockSize) : Nat :=
  req.hits.count true * config.blockSize - (ratio (req.hits.count true * config.blockSize)).toNat

/-- The data of a request is that of its chunks. -/
structure ReqMeta.Of (m : ReqMeta) (idx : Nat) (req : NewQuery BlockId config.blockSize) : Prop where
  reqIdx : m.reqIdx = idx
  needBlend : m.needBlend = decide req.Blended
  chunksLen : m.chunksLen = req.hits.length * config.blockSize
  chunksBlkLen : m.chunksBlkLen = req.hits.length
  chunkHitMask : m.chunkHitMask = req.hits
  chunkHitBlkLen : m.chunkHitBlkLen = req.hits.count true

theorem blendRequest_eq {queryStartLoc : List Nat} {metas metas' : BlendMetaData} {upd upd' : Bool}
    {xs zs : List Bool} {idx : Nat} {m : ReqMeta} (hm : m.Of idx req)
    (hstart : queryStartLoc[idx]? = some xs.length)
    (hstop : queryStartLoc[idx + 1]? = some (xs.length + req.queryLen))
    (hmask : metas.computeMask = xs ++ (List.replicate req.queryLen false ++ zs))
    (h : blendRequest config topk ratio queryStartLoc (metas, upd) m = some (metas', upd')) :
    metas' = { metas with
      computeMask := xs ++ (req.mask (picks topk ratio m req) ++ zs)
      queryLens := if req.Blended then metas.queryLens.modify idx (· - reused config ratio req) else metas.queryLens } ∧
    upd' = (upd || decide req.Blended) ∧
    (req.Blended → (ratio (req.hits.count true * config.blockSize)).toNat ≤ req.hits.count true * config.blockSize) := by
  simp only [blendRequest, hm.reqIdx, hstart, hstop, Option.bind_eq_bind, Option.bind_some, hm.chunksLen,
    hm.chunksBlkLen, hm.chunkHitMask, hm.chunkHitBlkLen] at h
  by_cases hblend : req.Blended
  · rw [if_neg (by rw [hm.needBlend]; simpa using hblend)] at h
    split_ifs at h with hratio
    obtain ⟨rows, hrows, h⟩ := Option.bind_eq_some_iff.mp h
    obtain ⟨places, hplaces, h⟩ := Option.bind_eq_some_iff.mp h
    obtain ⟨metas₁, hmetas, h⟩ := Option.bind_eq_some_iff.mp h
    obtain ⟨rfl, rfl⟩ := Prod.mk.inj (Option.some.inj h)
    have hsel : places = selected config.blockSize req.hits (picks topk ratio m req) := by
      rw [mapM_getElem? hplaces, flatten_of_maskSelect rfl hrows]
      rfl
    rw [hsel] at hmetas
    obtain rfl := BlendMetaData.updateReqComputeMask_eq hblend hmask hmetas
    refine ⟨?_, by simp [hblend], fun _ => by omega⟩
    rw [if_pos hblend]
    rfl
  · rw [if_pos (by rw [hm.needBlend]; simpa using hblend)] at h
    obtain ⟨rfl, rfl⟩ := Prod.mk.inj (Option.some.inj h)
    refine ⟨?_, by simp [hblend], fun hb => absurd hb hblend⟩
    have hfill := fillTrue_append xs (List.replicate req.queryLen false) zs
    rw [List.length_replicate] at hfill
    rw [hmask, hfill, NewQuery.mask, if_neg hblend, if_neg hblend]

end OneRequest

section Loop

variable {config : BlendSparseConfig Layer} {topk : TopK} {ratio : Nat → Int} {seqLens : List Nat}

/-- The data that is added for a request, when it has chunks. -/
def NewQuery.meta? (seqLens : List Nat) (idx : Nat) (req : NewQuery BlockId config.blockSize) : Option ReqMeta :=
  req.chunksMeta.head?.map fun first =>
    BlendMetaData.reqMeta idx first.startTokenDix req.hits (seqLens[idx]?.getD 0) config.blockSize

theorem NewQuery.of_meta? {idx : Nat} {req : NewQuery BlockId config.blockSize} {m : ReqMeta}
    (h : req.meta? seqLens idx = some m) : m.Of idx req := by
  obtain ⟨first, -, rfl⟩ := Option.map_eq_some_iff.mp h
  exact ⟨rfl, rfl, rfl, rfl, rfl, rfl⟩

theorem NewQuery.not_blended_of_meta? {idx : Nat} {req : NewQuery BlockId config.blockSize}
    (h : req.meta? seqLens idx = none) : ¬ req.Blended := by
  have hnil : req.chunksMeta = [] := List.head?_eq_none_iff.mp (Option.map_eq_none_iff.mp h)
  rw [Blended, hits, hnil]
  exact Nat.lt_irrefl 0

def metasFrom (seqLens : List Nat) : Nat → List (NewQuery BlockId config.blockSize) → List ReqMeta
  | _, [] => []
  | idx, req :: news => (req.meta? seqLens idx).toList ++ metasFrom seqLens (idx + 1) news

/-- What the loop leaves of the mask at a request. -/
def rowMask (topk : TopK) (ratio : Nat → Int) (seqLens : List Nat) (idx : Nat)
    (req : NewQuery BlockId config.blockSize) : List Bool :=
  match req.meta? seqLens idx with
  | none => List.replicate req.queryLen false
  | some m => req.mask (picks topk ratio m req)

def maskFrom (topk : TopK) (ratio : Nat → Int) (seqLens : List Nat) :
    Nat → List (NewQuery BlockId config.blockSize) → List Bool
  | _, [] => []
  | idx, req :: news => rowMask topk ratio seqLens idx req ++ maskFrom topk ratio seqLens (idx + 1) news

def newLen (ratio : Nat → Int) (req : NewQuery BlockId config.blockSize) : Nat :=
  if req.Blended then req.queryLen - reused config ratio req else req.queryLen

theorem modify_append_cons (f : Nat → Nat) (done : List Nat) (n : Nat) (rest : List Nat) :
    (done ++ n :: rest).modify done.length f = done ++ f n :: rest := by
  induction done with
  | nil => rfl
  | cons d done ih => exact congrArg (List.cons d) ih

theorem blendLoop_eq {news : List (NewQuery BlockId config.blockSize)} {idx : Nat} {queryStartLoc : List Nat}
    {metas metas' : BlendMetaData} {upd upd' : Bool} (xs : List Bool) (done : List Nat)
    (hstarts : ∀ n ≤ news.length,
      queryStartLoc[idx + n]? = some (xs.length + ((news.map NewQuery.queryLen).take n).sum))
    (hmask : metas.computeMask = xs ++ List.replicate (news.map NewQuery.queryLen).sum false)
    (hlens : metas.queryLens = done ++ news.map NewQuery.queryLen) (hdone : done.length = idx)
    (h : (metasFrom seqLens idx news).foldlM (blendRequest config topk ratio queryStartLoc) (metas, upd) =
      some (metas', upd')) :
    metas'.computeMask = xs ++ maskFrom topk ratio seqLens idx news ∧
    metas'.queryLens = done ++ news.map (newLen ratio) ∧
    upd' = (upd || news.any fun req => decide req.Blended) ∧
    ∀ req ∈ news, req.Blended →
      (ratio (req.hits.count true * config.blockSize)).toNat ≤ req.hits.count true * config.blockSize := by
  induction news generalizing idx metas upd xs done with
  | nil =>
    obtain ⟨rfl, rfl⟩ := Prod.mk.inj (Option.some.inj h)
    exact ⟨by simpa [maskFrom] using hmask, by simpa using hlens, by simp, by simp⟩
  | cons req news ih =>
    -- The places of the later requests, when this one has its part of the mask.
    have hstarts' : ∀ ys : List Bool, ys.length = req.queryLen → ∀ n ≤ news.length, queryStartLoc[idx + 1 + n]? =
        some ((xs ++ ys).length + ((news.map NewQuery.queryLen).take n).sum) := by
      intro ys hys n hn
      have hnext := hstarts (n + 1) (Nat.succ_le_succ hn)
      rw [Nat.add_assoc, Nat.add_comm 1 n, hnext, List.length_append, hys, List.map_cons, List.take_succ_cons,
        List.sum_cons, Nat.add_assoc]
    rw [List.map_cons, List.sum_cons, List.replicate_add] at hmask
    rw [List.map_cons] at hlens
    have hdone' : ∀ n : Nat, (done ++ [n]).length = idx + 1 := fun n => by
      rw [List.length_append, hdone, List.length_singleton]
    rw [metasFrom] at h
    cases hm : req.meta? seqLens idx with
    | none =>
      have hblend := NewQuery.not_blended_of_meta? hm
      rw [hm] at h
      obtain ⟨h₁, h₂, h₃, h₄⟩ := ih (xs ++ List.replicate req.queryLen false) (done ++ [req.queryLen])
        (hstarts' _ List.length_replicate) (by rw [hmask, List.append_assoc]) (by simp [hlens]) (hdone' _) h
      refine ⟨?_, ?_, ?_, fun r hr => ?_⟩
      · rw [h₁, maskFrom, rowMask, hm, List.append_assoc]
      · rw [h₂, List.map_cons, newLen, if_neg hblend, List.append_assoc]
        rfl
      · rw [h₃, List.any_cons, decide_eq_false hblend, Bool.false_or]
      · rcases List.mem_cons.mp hr with rfl | hr
        · exact fun hb => absurd hb hblend
        · exact h₄ r hr
    | some m =>
      rw [hm, Option.toList_some, List.singleton_append, List.foldlM_cons] at h
      obtain ⟨⟨metas₁, upd₁⟩, h₁, h⟩ := Option.bind_eq_some_iff.mp h
      have hstart := hstarts 0 (Nat.zero_le _)
      have hstop := hstarts 1 (by simp)
      simp only [List.take_zero, List.sum_nil, Nat.add_zero, List.map_cons, List.take_succ_cons, List.sum_cons]
        at hstart hstop
      obtain ⟨rfl, rfl, hle⟩ := blendRequest_eq (NewQuery.of_meta? hm) hstart hstop hmask h₁
      obtain ⟨h₁, h₂, h₃, h₄⟩ := ih (xs ++ req.mask (picks topk ratio m req)) (done ++ [newLen ratio req])
        (hstarts' _ NewQuery.length_mask) (by simp only [List.append_assoc])
        (by
          rw [newLen]
          simp only [hlens]
          split_ifs
          · rw [← hdone, modify_append_cons, List.append_assoc]
            rfl
          · rw [List.append_assoc]
            rfl) (hdone' _) h
      refine ⟨?_, ?_, ?_, fun r hr => ?_⟩
      · rw [h₁, maskFrom, rowMask, hm, List.append_assoc]
      · rw [h₂, List.map_cons, List.append_assoc]
        rfl
      · rw [h₃, List.any_cons, Bool.or_assoc]
      · rcases List.mem_cons.mp hr with rfl | hr
        · exact hle
        · exact h₄ r hr

end Loop

end UnifiedCache.Sparse.Blend
