import UnifiedCache.Sparse.BlendReduction

/-! When a reduced batch is consistent: each new request of it has to have chunks, as the loop
leaves the tokens of the others out of the mask. -/

namespace UnifiedCache.Sparse.Blend

open Connector Connector.Blend StepSystem

variable {Layer Slot Row BlockId ReqId : Type*} {config : BlendSparseConfig Layer} {topk : TopK} {ratio : Nat → Int}
  {seqLens : List Nat} {b : Batch BlockId config.blockSize}

theorem Batch.length_lens : b.lens.length = b.running + b.news.length := by
  rw [lens, List.length_append, List.length_replicate, List.length_map]

theorem Batch.getElem?_parts_new {k : Nat} {req : NewQuery BlockId config.blockSize} (hk : b.news[k]? = some req) :
    (b.parts topk ratio seqLens)[b.running + k]? = some (rowMask topk ratio seqLens (b.running + k) req) := by
  rw [parts, List.getElem?_append_right (by simp), List.length_replicate, Nat.add_sub_cancel_left,
    List.getElem?_mapIdx, hk]
  rfl

theorem Batch.getElem?_lens_new {k : Nat} {req : NewQuery BlockId config.blockSize} (hk : b.news[k]? = some req) :
    b.lens[b.running + k]? = some req.queryLen := by
  rw [lens, List.getElem?_append_right (by simp), List.length_replicate, Nat.add_sub_cancel_left,
    List.getElem?_map, hk]
  rfl

theorem Batch.getElem?_running (topk : TopK) (ratio : Nat → Int) (seqLens : List Nat) {r : Nat} (hr : r < b.running) :
    (b.parts topk ratio seqLens)[r]? = some [true] ∧ b.lens[r]? = some 1 := by
  rw [parts, lens, List.getElem?_append_left (by simpa using hr), List.getElem?_append_left (by simpa using hr),
    List.getElem?_replicate_of_lt hr, List.getElem?_replicate_of_lt hr]
  exact ⟨rfl, rfl⟩

/-- A request runs already, or it is a new one. -/
theorem Batch.running_or_new {r : Nat} (hr : r < b.lens.length) :
    r < b.running ∨ ∃ k req, r = b.running + k ∧ b.news[k]? = some req := by
  rw [length_lens] at hr
  rcases Nat.lt_or_ge r b.running with h | h
  · exact Or.inl h
  · exact Or.inr ⟨r - b.running, _, by omega, List.getElem?_eq_getElem (by omega)⟩

theorem Batch.rowsOf_parts {r : Nat} {part : List Bool} (h : (b.parts topk ratio seqLens)[r]? = some part) :
    b.rowsOf r (b.parts topk ratio seqLens).flatten = part := by
  rw [rowsOf, ← length_parts topk ratio seqLens]
  exact slice_flatten h

theorem Batch.kept_new {k i : Nat} {req : NewQuery BlockId config.blockSize} (hk : b.news[k]? = some req) :
    b.Kept topk ratio seqLens (b.running + k) i ↔ req.Kept (req.picked topk ratio seqLens (b.running + k)) i := by
  constructor
  · exact fun h => h k req rfl hk
  · intro h k' req' hk' hreq'
    obtain rfl := Nat.add_left_cancel hk'
    obtain rfl := Option.some.inj (hk.symm.trans hreq')
    exact h

theorem exists_meta? (seqLens : List Nat) (idx : Nat) {req : NewQuery BlockId config.blockSize} (h : req.chunksMeta ≠ []) :
    ∃ m, req.meta? seqLens idx = some m := by
  obtain ⟨first, rest, hcons⟩ := List.exists_cons_of_ne_nil h
  exact ⟨_, by rw [NewQuery.meta?, hcons]; rfl⟩

namespace Reduces

variable {s s' : BlendState Slot} {input out : AttnInput Row}

/-- With chunks in every new request the lengths are the numbers of tokens that are kept. -/
theorem queryLens_eq (h : Reduces topk ratio seqLens b s s' input out)
    (hchunks : ∀ req ∈ b.news, req.chunksMeta ≠ []) :
    s'.blendReqMetas.queryLens = (b.parts topk ratio seqLens).map (List.count true) := by
  rw [h.queryLens, Batch.parts, List.map_append, List.map_replicate]
  congr 1
  refine List.ext_getElem? fun k => ?_
  rw [List.getElem?_map, List.getElem?_map, List.getElem?_mapIdx]
  cases hk : b.news[k]? with
  | none => rfl
  | some req =>
    have hreq := List.mem_of_getElem? hk
    obtain ⟨m, hm⟩ := exists_meta? seqLens (b.running + k) (hchunks req hreq)
    exact congrArg some (newLen_of_meta? hm (h.picks_le req hreq)).symm

theorem splits {Entry : Type*} {rows kept : List Entry} (h : Reduces topk ratio seqLens b s s' input out)
    (hchunks : ∀ req ∈ b.news, req.chunksMeta ≠ [])
    (hrows : maskSelect rows s'.blendReqMetas.computeMask = some kept) :
    b.Splits s'.blendReqMetas.computeMask s'.attnMetadata.queryStartLoc rows kept := by
  intro r hr
  obtain ⟨hlen, rfl⟩ := maskSelect_eq_some hrows
  have hparts : (b.parts topk ratio seqLens).length = b.lens.length := by
    rw [← List.length_map, Batch.length_parts topk ratio seqLens]
  rw [h.mask] at hlen ⊢
  have hcount : ((b.parts topk ratio seqLens).map (List.count true)).length = b.lens.length := by
    rw [List.length_map, hparts]
  have hstarts : ∀ r ≤ b.lens.length, s'.attnMetadata.queryStartLoc[r]? =
      some (((b.parts topk ratio seqLens).map (List.count true)).take r).sum := by
    intro r hr
    rw [h.queryStartLoc, h.queryLens_eq hchunks, getElem?_scanl_add _ _ _ (by omega), Nat.zero_add]
  refine ⟨_, _, hstarts r hr.le, hstarts (r + 1) hr, ?_⟩
  rw [Batch.rowsOf, Batch.rowsOf, ← Batch.length_parts topk ratio seqLens]
  exact slice_compress_flatten hlen (by omega)

theorem compress_of_all_true {Entry : Type*} {rows : List Entry} {mask : List Bool} (hlen : rows.length = mask.length)
    (h : ∀ v ∈ mask, v = true) : compress rows mask = rows := by
  induction rows generalizing mask with
  | nil => rfl
  | cons x rows ih =>
    cases mask with
    | nil => cases hlen
    | cons v mask =>
      obtain rfl := h v List.mem_cons_self
      exact congrArg (List.cons x) (ih (Nat.succ_injective hlen) fun v hv => h v (List.mem_cons_of_mem _ hv))

theorem positions_eq (h : Reduces topk ratio seqLens b s s' input out) {positions : List Nat} {hiddenStates : List Row}
    (hp : positions.length = s'.blendReqMetas.computeMask.length)
    (hh : hiddenStates.length = s'.blendReqMetas.computeMask.count true) :
    layerBegin s'.blendReqMetas positions hiddenStates = some (compress positions s'.blendReqMetas.computeMask) := by
  unfold layerBegin
  split_ifs with hne
  · rw [indexTensor, if_pos h.needReIndex, maskSelect, if_pos hp]
  · have hall := List.count_eq_length.mp (hh.symm.trans ((not_ne_iff.mp hne).symm.trans hp))
    rw [compress_of_all_true hp fun v hv => (hall v hv).symm]

/-- The tokens of a request that the mask keeps. -/
theorem kept_iff (h : Reduces topk ratio seqLens b s s' input out) (hchunks : ∀ req ∈ b.news, req.chunksMeta ≠ [])
    {r i : Nat} (hr : r < b.lens.length) (hi : i < b.lens[r]?.getD 0) :
    (b.rowsOf r s'.blendReqMetas.computeMask)[i]? = some true ↔ b.Kept topk ratio seqLens r i := by
  rw [h.mask]
  rcases b.running_or_new hr with hrun | ⟨k, req, rfl, hk⟩
  · obtain ⟨hpart, hlen⟩ := b.getElem?_running topk ratio seqLens hrun
    rw [hlen, Option.getD_some] at hi
    obtain rfl : i = 0 := by omega
    rw [Batch.rowsOf_parts hpart]
    refine iff_of_true rfl fun k req hk _ => ?_
    omega
  · obtain ⟨m, hm⟩ := exists_meta? seqLens (b.running + k)
      (hchunks req (List.mem_of_getElem? hk))
    rw [Batch.getElem?_lens_new hk, Option.getD_some] at hi
    rw [Batch.rowsOf_parts (Batch.getElem?_parts_new hk), Batch.kept_new hk, rowMask, NewQuery.picked, hm]
    exact NewQuery.getElem?_mask config.blockSize_pos hi

/-- A new request without chunks has no token in the mask, and none of it is blended. -/
theorem not_consistent (h : Reduces topk ratio seqLens b s s' input out) {req : NewQuery BlockId config.blockSize}
    (hreq : req ∈ b.news) (hnil : req.chunksMeta = []) : ¬ Consistent topk ratio seqLens b s s' input out := by
  intro hc
  obtain ⟨k, hk⟩ := List.mem_iff_getElem?.mp hreq
  have hlt : b.running + k < b.lens.length := by
    rw [Batch.length_lens]
    exact Nat.add_lt_add_left (List.getElem?_eq_some_iff.mp hk).1 _
  have hm : req.meta? seqLens (b.running + k) = none := by
    rw [NewQuery.meta?, hnil]
    rfl
  have hkept := (hc.kept (b.running + k) hlt 0 (by
    rw [Batch.getElem?_lens_new hk]
    exact req.queryLen_pos)).mpr ((Batch.kept_new hk).mpr (Or.inl (NewQuery.not_blended_of_meta? hm)))
  rw [h.mask, Batch.rowsOf_parts (Batch.getElem?_parts_new hk), rowMask, hm,
    List.getElem?_replicate_of_lt req.queryLen_pos] at hkept
  cases hkept

theorem consistent (h : Reduces topk ratio seqLens b s s' input out) (hchunks : ∀ req ∈ b.news, req.chunksMeta ≠ []) :
    Consistent topk ratio seqLens b s s' input out where
  lens := fun r hr => by
    have hparts : (b.parts topk ratio seqLens).length = b.lens.length := by
      rw [← Batch.length_parts topk ratio seqLens, List.length_map]
    have hpart := List.getElem?_eq_getElem (l := b.parts topk ratio seqLens) (hparts.symm ▸ hr)
    rw [h.queryLens_eq hchunks, h.mask, List.getElem?_map, hpart, Batch.rowsOf_parts hpart]
    rfl
  kept := fun _ hr _ hi => h.kept_iff hchunks hr hi
  query := h.splits hchunks h.query
  key := h.splits hchunks h.key
  value := h.splits hchunks h.value
  slotMapping := h.splits hchunks h.slotMapping
  positions := fun _ _ hp hh => ⟨_, h.positions_eq hp hh, h.splits hchunks (if_pos hp)⟩

end Reduces

/-- A layer of the model, with what the comparison of the keys finds in it. -/
abbrev LayerCall (Layer Row : Type*) := Layer × TopK × AttnInput Row

def layerStep (config : BlendSparseConfig Layer) (s : BlendState Slot) (call : LayerCall Layer Row) :
    Option (BlendState Slot) :=
  (attentionBegin config call.2.1 call.1 s call.2.2).map Prod.fst

section Build

variable [DecidableEq ReqId] {requestMeta : Dict ReqId (BlendRequestDispatchMeta BlockId)}

/-- The requests that are added are those with chunks, each at its place in the batch. -/
theorem addRequests_eq {news : List (NewQuery BlockId config.blockSize)} {reqIds : List ReqId} {n running : Nat}
    {metas metas' : BlendMetaData} {seqLens : List Nat} (hrunning : metas.blendStartReqIdx = running)
    (hreqs : reqIds.map (fun reqId => (requestMeta.get? reqId).map (·.chunksMeta)) =
      news.map fun req => some req.chunksMeta)
    (h : (reqIds.zipIdx n).foldlM (fun metas p => (requestMeta.get? p.1).bind fun dispatchMeta =>
      metas.addRequest p.2 dispatchMeta.chunksMeta seqLens config.blockSize) metas = some metas') :
    metas' = { metas with requests := metas.requests ++ metasFrom seqLens (running + n) news } := by
  induction news generalizing reqIds n metas with
  | nil =>
    obtain rfl := List.map_eq_nil_iff.mp hreqs
    obtain rfl := Option.some.inj h
    rw [metasFrom, List.append_nil]
  | cons req news ih =>
    obtain ⟨reqId, reqIds, rfl⟩ : ∃ reqId rest, reqIds = reqId :: rest := by
      cases reqIds with
      | nil => cases hreqs
      | cons reqId rest => exact ⟨reqId, rest, rfl⟩
    rw [List.map_cons, List.map_cons] at hreqs
    obtain ⟨hreq, hreqs⟩ := List.cons.inj hreqs
    obtain ⟨dispatchMeta, hget, hchunks⟩ := Option.map_eq_some_iff.mp hreq
    rw [List.zipIdx_cons, List.foldlM_cons, hget] at h
    obtain ⟨metas₁, hadd, h⟩ := Option.bind_eq_some_iff.mp h
    change metas.addRequest n dispatchMeta.chunksMeta seqLens config.blockSize = some metas₁ at hadd
    rw [hchunks] at hadd
    have hmetas₁ : metas₁ = { metas with
        requests := metas.requests ++ (req.meta? seqLens (running + n)).toList } := by
      unfold BlendMetaData.addRequest at hadd
      split at hadd
      · rename_i hnil
        obtain rfl := Option.some.inj hadd
        rw [NewQuery.meta?, hnil]
        simp
      · rename_i first rest hcons
        obtain ⟨seqLen, hseq, rfl⟩ := Option.map_eq_some_iff.mp hadd
        rw [hrunning] at hseq ⊢
        rw [NewQuery.meta?, NewQuery.hits, hcons, hseq]
        rfl
    rw [ih (by rw [hmetas₁]; exact hrunning) hreqs h, hmetas₁, metasFrom, List.append_assoc]
    rfl

theorem zipWith_sub_scanl (lens : List Nat) (n : Nat) :
    (lens.scanl (· + ·) n).tail.zipWith (· - ·) (lens.scanl (· + ·) n).dropLast = lens := by
  induction lens generalizing n with
  | nil => rfl
  | cons l lens ih =>
    have ih := ih (n + l)
    cases lens with
    | nil => simp
    | cons l' lens =>
      simp only [List.scanl_cons, List.tail_cons, List.dropLast_cons_cons, List.zipWith_cons_cons] at ih ⊢
      rw [ih, Nat.add_sub_cancel_left]

theorem built_of_buildSparseMeta {forwardMask : List Bool} {attn : AttnMetadata Slot} {reqIds : List ReqId}
    {s : BlendState Slot} (hattn : b.Describes attn)
    (hreqs : reqIds.map (fun reqId => (requestMeta.get? reqId).map (·.chunksMeta)) =
      b.news.map fun req => some req.chunksMeta)
    (h : buildSparseMeta config forwardMask attn b.running reqIds requestMeta = some s) :
    Built attn.seqLens b s := by
  obtain ⟨metas, hmetas, rfl⟩ := Option.map_eq_some_iff.mp h
  obtain rfl := addRequests_eq rfl hreqs hmetas
  refine ⟨List.nil_append _, ?_, rfl, hattn.queryStartLoc, hattn.slotMapping⟩
  change attn.queryStartLoc.tail.zipWith (· - ·) attn.queryStartLoc.dropLast = b.lens
  rw [hattn.queryStartLoc]
  exact zipWith_sub_scanl _ _

end Build

/-- A reduced batch is consistent if and only if each of its new requests has chunks. -/
theorem reduction_consistent_iff [DecidableEq ReqId] (config : BlendSparseConfig Layer)
    (b : Batch BlockId config.blockSize) (attn : AttnMetadata Slot) (hattn : b.Describes attn)
    (forwardMask : List Bool) (reqIds : List ReqId) (requestMeta : Dict ReqId (BlendRequestDispatchMeta BlockId))
    (hreqs : reqIds.map (fun reqId => (requestMeta.get? reqId).map (·.chunksMeta)) =
      b.news.map fun req => some req.chunksMeta)
    (s₀ : BlendState Slot) (h₀ : buildSparseMeta config forwardMask attn b.running reqIds requestMeta = some s₀)
    (s : BlendState Slot) (hs : Reach (@layerStep Layer Slot Row config) (fun _ _ => True) s₀ s)
    (layer : Layer) (ratio : Nat → Int) (hlayer : config.computeMeta layer = some ratio) (topk : TopK)
    (input out : AttnInput Row) (s' : BlendState Slot)
    (h : attentionBegin config topk layer s input = some (s', out, true)) :
    Consistent topk ratio attn.seqLens b s s' input out ↔ ∀ req ∈ b.news, req.chunksMeta ≠ [] := by
  have hinv := hs.invariant (fun s => Built attn.seqLens b s ∨ Mismatched s)
    (Or.inl (built_of_buildSparseMeta hattn hreqs h₀)) fun s call s' hs _ hstep => by
      obtain ⟨⟨s₁, out, reduced⟩, hcall, rfl⟩ := Option.map_eq_some_iff.mp hstep
      rcases hs with hs | hs
      · exact hs.step hcall
      · exact Or.inr (hs.step hcall).2
  rcases hinv with hbuilt | hmis
  · obtain ⟨ratio', hlayer', hr⟩ := hbuilt.reduces h
    obtain rfl := Option.some.inj (hlayer.symm.trans hlayer')
    exact ⟨fun hc req hreq hnil => hr.not_consistent hreq hnil hc, hr.consistent⟩
  · exact absurd (hmis.step h).1 (by simp)

section Runs

/-- Blocks of two tokens, of which one half is computed anew. -/
def halfBlocks : BlendSparseConfig Unit := ⟨2, Nat.zero_lt_two, 8, fun _ => some fun n => (n : Int) / 2⟩

/-- The first tokens are taken as those that differ most. -/
def firstTokens : TopK where
  indices := fun _ _ k => List.range k
  nodup := fun _ _ _ => List.nodup_range
  length_eq := fun _ _ _ _ => List.length_range
  lt := fun _ _ _ hk _ hi => (List.mem_range.mp hi).trans_le hk

def oneChunk (hit : Bool) : ChunkMetaData Nat := ⟨0, 2, 0, 1, 0, [], [], [hit]⟩

def newRequest (chunksMeta : List (ChunkMetaData Nat)) : BlendRequestDispatchMeta Nat := ⟨⟨([], []), ([], [])⟩, chunksMeta⟩

/-- A running request and two new ones of three tokens. -/
def threeRequests (chunks₁ chunks₂ : List (ChunkMetaData Nat))
    (h₁ : (chunks₁.flatMap ChunkMetaData.storeHits).length ≤ 1)
    (h₂ : (chunks₂.flatMap ChunkMetaData.storeHits).length ≤ 1) : Batch Nat halfBlocks.blockSize :=
  ⟨1, [⟨3, by decide, chunks₁, (Nat.mul_le_mul_right 2 h₁).trans (by decide)⟩,
    ⟨3, by decide, chunks₂, (Nat.mul_le_mul_right 2 h₂).trans (by decide)⟩]⟩

def threeAttn : AttnMetadata Nat := ⟨[0, 1, 4, 7], [5, 3, 3], [20, 21, 22, 23, 24, 25, 26], 3, 7⟩

def sevenRows : AttnInput Nat := ⟨List.range 7, List.range 7, List.range 7, none⟩

def threeMeta (chunks₁ chunks₂ : List (ChunkMetaData Nat)) : Dict Nat (BlendRequestDispatchMeta Nat) :=
  (Dict.empty.set 1 (newRequest chunks₁)).set 2 (newRequest chunks₂)

def reduceThree (chunks₁ chunks₂ : List (ChunkMetaData Nat)) :
    Option (BlendState Nat × BlendState Nat × AttnInput Nat × Bool) :=
  (buildSparseMeta halfBlocks (List.replicate 8 true) threeAttn 1 [1, 2] (threeMeta chunks₁ chunks₂)).bind fun s =>
    (attentionBegin halfBlocks firstTokens () s sevenRows).map fun result => (s, result)

theorem reduction_consistent_missed : ∃ (s s' : BlendState Nat) (out : AttnInput Nat),
    attentionBegin halfBlocks firstTokens () s sevenRows = some (s', out, true) ∧
    s'.blendReqMetas.queryLens = [1, 3, 2] ∧ out.query = [0, 1, 2, 3, 4, 6] ∧
    Consistent firstTokens (fun n => (n : Int) / 2) threeAttn.seqLens
      (threeRequests [oneChunk false] [oneChunk true] (by decide) (by decide)) s s' sevenRows out := by
  have hrun : (reduceThree [oneChunk false] [oneChunk true]).map
      (fun r => (r.2.1.blendReqMetas.queryLens, r.2.2.1.query, r.2.2.2)) =
      some ([1, 3, 2], [0, 1, 2, 3, 4, 6], true) := by decide +kernel
  obtain ⟨⟨s, s', out, reduced⟩, hs, heq⟩ := Option.map_eq_some_iff.mp hrun
  simp only [Prod.mk.injEq] at heq
  obtain ⟨hlens, hquery, rfl⟩ := heq
  obtain ⟨s₁, hbuild, hs⟩ := Option.bind_eq_some_iff.mp hs
  obtain ⟨result, hcall, hs⟩ := Option.map_eq_some_iff.mp hs
  simp only [Prod.mk.injEq] at hs
  obtain ⟨rfl, rfl⟩ := hs
  refine ⟨s₁, s', out, hcall, hlens, hquery, ?_⟩
  exact (reduction_consistent_iff halfBlocks
    (threeRequests [oneChunk false] [oneChunk true] (by decide) (by decide)) threeAttn
    ⟨by decide +kernel, rfl, rfl⟩ (List.replicate 8 true) [1, 2]
    (threeMeta [oneChunk false] [oneChunk true]) rfl s₁ hbuild s₁ Reach.start () _ rfl firstTokens sevenRows out s'
    hcall).mpr (by decide)

/-- The tokens of the request without chunks are dropped, and its length is kept. -/
theorem reduction_drops_request : ∃ (s s' : BlendState Nat) (out : AttnInput Nat),
    buildSparseMeta halfBlocks (List.replicate 8 true) threeAttn 1 [1, 2] (threeMeta [] [oneChunk true]) = some s ∧
    attentionBegin halfBlocks firstTokens () s sevenRows = some (s', out, true) ∧
    s'.blendReqMetas.computeMask = [true, false, false, false, true, false, true] ∧
    s'.attnMetadata.queryStartLoc = [0, 1, 4, 6] ∧ out.query = [0, 4, 6] ∧
    ¬ Consistent firstTokens (fun n => (n : Int) / 2) threeAttn.seqLens
      (threeRequests [] [oneChunk true] (by decide) (by decide)) s s' sevenRows out := by
  have hrun : (reduceThree [] [oneChunk true]).map (fun r => (r.2.1.blendReqMetas.computeMask,
      r.2.1.attnMetadata.queryStartLoc, r.2.1.blendReqMetas.queryLens, r.2.2.1.query, r.2.2.2)) =
      some ([true, false, false, false, true, false, true], [0, 1, 4, 6], [1, 3, 2], [0, 4, 6], true) := by
    decide +kernel
  obtain ⟨⟨s, s', out, reduced⟩, hs, heq⟩ := Option.map_eq_some_iff.mp hrun
  simp only [Prod.mk.injEq] at heq
  obtain ⟨hmask, hstarts, hlens, hquery, rfl⟩ := heq
  obtain ⟨s₁, hbuild, hs⟩ := Option.bind_eq_some_iff.mp hs
  obtain ⟨result, hcall, hs⟩ := Option.map_eq_some_iff.mp hs
  simp only [Prod.mk.injEq] at hs
  obtain ⟨rfl, rfl⟩ := hs
  refine ⟨s₁, s', out, hbuild, hcall, hmask, hstarts, hquery, fun hc => ?_⟩
  have hcount := hc.lens 1 (by decide)
  rw [hlens, hmask] at hcount
  exact absurd hcount (by decide)

end Runs

end UnifiedCache.Sparse.Blend
