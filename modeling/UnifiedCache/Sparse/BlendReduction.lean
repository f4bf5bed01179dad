import UnifiedCache.Sparse.BlendRows
import UnifiedCache.Lib.StepSystem

/-! The reduced batch over the layers of a model: the rows of each request are those that its
part of the mask keeps, where no request is without a part. -/

namespace UnifiedCache.Sparse.Blend

open Connector Connector.Blend StepSystem

variable {Layer Slot Row BlockId ReqId : Type*}

section Parts

variable {parts : List (List Bool)} {rows : List Row}

theorem slice_append_add (xs ys : List Row) (a b : Nat) :
    slice (xs ++ ys) (xs.length + a) (xs.length + b) = slice ys a b := by
  rw [slice, List.drop_append, List.drop_of_length_le (Nat.le_add_right _ _), Nat.add_sub_cancel_left,
    Nat.add_sub_add_left, List.nil_append]
  rfl

/-- The part that starts after the lengths of those before it. -/
theorem slice_flatten {r : Nat} {part : List Bool} (h : parts[r]? = some part) :
    slice parts.flatten ((parts.map List.length).take r).sum ((parts.map List.length).take (r + 1)).sum = part := by
  induction parts generalizing r with
  | nil => cases h
  | cons p parts ih =>
    cases r with
    | zero =>
      obtain rfl := Option.some.inj h
      simp [slice]
    | succ r =>
      rw [List.map_cons, List.take_succ_cons, List.take_succ_cons, List.sum_cons, List.sum_cons,
        List.flatten_cons, slice_append_add]
      exact ih h

theorem length_compress_self {part : List Bool} (h : rows.length = part.length) :
    (compress rows part).length = part.count true := by
  induction rows generalizing part with
  | nil =>
    rw [List.eq_nil_of_length_eq_zero h.symm]
    rfl
  | cons x rows ih =>
    cases part with
    | nil => cases h
    | cons v part =>
      have ih := ih (Nat.succ_injective h)
      cases v with
      | false => exact ih
      | true =>
        rw [List.count_cons_self]
        exact congrArg Nat.succ ih

/-- The rows that a part of the mask keeps, between the numbers of rows that are kept before. -/
theorem slice_compress_flatten (h : rows.length = parts.flatten.length) {r : Nat} (hr : r < parts.length) :
    slice (compress rows parts.flatten) ((parts.map (List.count true)).take r).sum
        ((parts.map (List.count true)).take (r + 1)).sum =
      compress (slice rows ((parts.map List.length).take r).sum ((parts.map List.length).take (r + 1)).sum)
        (slice parts.flatten ((parts.map List.length).take r).sum ((parts.map List.length).take (r + 1)).sum) := by
  induction parts generalizing r rows with
  | nil => cases hr
  | cons p parts ih =>
    rw [List.flatten_cons, List.length_append] at h
    obtain ⟨xs, ys, rfl, hxs⟩ : ∃ xs ys, rows = xs ++ ys ∧ xs.length = p.length :=
      ⟨rows.take p.length, rows.drop p.length, (List.take_append_drop _ _).symm, by
        rw [List.length_take]
        omega⟩
    have hys : ys.length = parts.flatten.length := by
      rw [List.length_append] at h
      omega
    have hlen := length_compress_self hxs
    rw [List.flatten_cons, compress_append hxs]
    cases r with
    | zero =>
      simp only [List.take_zero, List.sum_nil, List.map_cons, List.take_succ_cons, List.sum_cons, Nat.add_zero]
      rw [← hlen, slice_zero, List.take_left, slice_zero, slice_zero, List.take_left, ← hxs, List.take_left]
    | succ r =>
      simp only [List.map_cons, List.take_succ_cons, List.sum_cons]
      rw [← hlen, slice_append_add, slice_append_add, ← hxs, slice_append_add]
      exact ih hys (Nat.lt_of_succ_lt_succ hr)

end Parts

section Frame

variable {config : BlendSparseConfig Layer} {topk : TopK} {ratio : Nat → Int}

theorem BlendMetaData.updateReqComputeMask_frame {metas metas' : BlendMetaData} {start chunkEnd stop : Nat}
    {hits : List Bool} {indices : List Nat} (hle : start ≤ chunkEnd)
    (h : metas.updateReqComputeMask start chunkEnd stop hits indices = some metas') :
    metas'.computeMask.length = metas.computeMask.length ∧ metas'.requests = metas.requests ∧
      metas'.blendStartReqIdx = metas.blendStartReqIdx := by
  simp only [updateReqComputeMask] at h
  split_ifs at h
  obtain rfl := Option.some.inj h
  refine ⟨?_, rfl, rfl⟩
  rw [length_fillTrue, List.length_append, List.length_append, List.length_take, List.length_mapIdx, slice,
    List.length_take, List.length_drop, List.length_drop]
  omega

/-- What the loop keeps of any state. -/
structure Keeps (acc acc' : BlendMetaData × Bool) : Prop where
  length_mask : acc'.1.computeMask.length = acc.1.computeMask.length
  requests : acc'.1.requests = acc.1.requests
  blendStartReqIdx : acc'.1.blendStartReqIdx = acc.1.blendStartReqIdx
  queryLens : acc'.2 = false → acc.2 = false ∧ acc'.1.queryLens = acc.1.queryLens

theorem blendRequest_keeps {queryStartLoc : List Nat} {acc acc' : BlendMetaData × Bool} {m : ReqMeta}
    (h : blendRequest config topk ratio queryStartLoc acc m = some acc') : Keeps acc acc' := by
  simp only [blendRequest, Option.bind_eq_bind] at h
  obtain ⟨start, -, h⟩ := Option.bind_eq_some_iff.mp h
  obtain ⟨stop, -, h⟩ := Option.bind_eq_some_iff.mp h
  split_ifs at h
  · obtain rfl := Option.some.inj h
    exact ⟨length_fillTrue _ _, rfl, rfl, fun hf => ⟨hf, rfl⟩⟩
  · obtain ⟨rows, -, h⟩ := Option.bind_eq_some_iff.mp h
    obtain ⟨places, -, h⟩ := Option.bind_eq_some_iff.mp h
    obtain ⟨metas₁, hmetas, h⟩ := Option.bind_eq_some_iff.mp h
    obtain rfl := Option.some.inj h
    obtain ⟨hlen, hr, hb⟩ := BlendMetaData.updateReqComputeMask_frame (Nat.le_add_right _ _) hmetas
    exact ⟨hlen, hr, hb, fun hf => by cases hf⟩

theorem blendLoop_keeps {queryStartLoc : List Nat} {ms : List ReqMeta} {acc acc' : BlendMetaData × Bool}
    (h : ms.foldlM (blendRequest config topk ratio queryStartLoc) acc = some acc') : Keeps acc acc' := by
  induction ms generalizing acc with
  | nil =>
    obtain rfl := Option.some.inj h
    exact ⟨rfl, rfl, rfl, fun hf => ⟨hf, rfl⟩⟩
  | cons m ms ih =>
    rw [List.foldlM_cons] at h
    obtain ⟨acc₁, h₁, h⟩ := Option.bind_eq_some_iff.mp h
    have h₁ := blendRequest_keeps h₁
    have h₂ := ih h
    refine ⟨h₂.length_mask.trans h₁.length_mask, h₂.requests.trans h₁.requests,
      h₂.blendStartReqIdx.trans h₁.blendStartReqIdx, fun hf => ?_⟩
    obtain ⟨hf, hq⟩ := h₂.queryLens hf
    obtain ⟨hf, hq'⟩ := h₁.queryLens hf
    exact ⟨hf, hq.trans hq'⟩

end Frame

namespace Batch

variable {blockSize : Nat} (b : Batch BlockId blockSize)

/-- The numbers of query tokens, which `query_start_loc` adds up. -/
def lens : List Nat := List.replicate b.running 1 ++ b.news.map NewQuery.queryLen

/-- What the attention is told of the batch. -/
structure Describes (attn : AttnMetadata Slot) : Prop where
  queryStartLoc : attn.queryStartLoc = b.lens.scanl (· + ·) 0
  seqLens : attn.seqLens.length = b.lens.length
  slotMapping : attn.slotMapping.length = b.lens.sum

/-- The rows of a request. -/
def rowsOf (r : Nat) (rows : List Row) : List Row := slice rows (b.lens.take r).sum (b.lens.take (r + 1)).sum

end Batch

theorem getElem?_scanl_add (lens : List Nat) (r n : Nat) (hr : r ≤ lens.length) :
    (lens.scanl (· + ·) n)[r]? = some (n + (lens.take r).sum) := by
  induction lens generalizing r n with
  | nil =>
    obtain rfl := Nat.le_zero.mp hr
    rfl
  | cons l lens ih =>
    rw [List.scanl_cons]
    cases r with
    | zero => rfl
    | succ r =>
      rw [List.getElem?_cons_succ, ih r (n + l) (Nat.le_of_succ_le_succ hr), List.take_succ_cons, List.sum_cons,
        Nat.add_assoc]

theorem take_one_append_cumsum (lens lens' : List Nat) :
    (lens.scanl (· + ·) 0).take 1 ++ cumsum lens' = lens'.scanl (· + ·) 0 := by
  cases lens <;> cases lens' <;> simp [cumsum, List.scanl_cons]

section Reduced

variable {config : BlendSparseConfig Layer} (topk : TopK) (ratio : Nat → Int) (seqLens : List Nat)
  (b : Batch BlockId config.blockSize)

/-- The tokens that are selected for a new request, if it has chunks. -/
def NewQuery.picked (idx : Nat) (req : NewQuery BlockId config.blockSize) : List Nat :=
  match req.meta? seqLens idx with
  | none => []
  | some m => picks topk ratio m req

/-- A token of a request that is to be computed. -/
def Batch.Kept (r i : Nat) : Prop :=
  ∀ k req, r = b.running + k → b.news[k]? = some req → req.Kept (req.picked topk ratio seqLens r) i

/-- The rows `kept` of the rows of the batch are those of each request that the mask keeps, where
`starts` says. -/
def Batch.Splits (mask : List Bool) (starts : List Nat) (rows kept : List Row) : Prop :=
  ∀ r < b.lens.length, ∃ start stop, starts[r]? = some start ∧ starts[r + 1]? = some stop ∧
    slice kept start stop = compress (b.rowsOf r rows) (b.rowsOf r mask)

/-- The reduced batch, of the batch that it was. -/
structure Consistent (s s' : BlendState Slot) (input out : AttnInput Row) : Prop where
  lens : ∀ r < b.lens.length,
    s'.blendReqMetas.queryLens[r]? = some ((b.rowsOf r s'.blendReqMetas.computeMask).count true)
  kept : ∀ r < b.lens.length, ∀ i < b.lens[r]?.getD 0,
    (b.rowsOf r s'.blendReqMetas.computeMask)[i]? = some true ↔ b.Kept topk ratio seqLens r i
  query : b.Splits s'.blendReqMetas.computeMask s'.attnMetadata.queryStartLoc input.query out.query
  key : b.Splits s'.blendReqMetas.computeMask s'.attnMetadata.queryStartLoc input.key out.key
  value : b.Splits s'.blendReqMetas.computeMask s'.attnMetadata.queryStartLoc input.value out.value
  slotMapping : b.Splits s'.blendReqMetas.computeMask s'.attnMetadata.queryStartLoc
    s.attnMetadata.slotMapping s'.attnMetadata.slotMapping
  positions : ∀ (positions : List Nat) (hiddenStates : List Row),
    positions.length = s'.blendReqMetas.computeMask.length →
    hiddenStates.length = s'.blendReqMetas.computeMask.count true →
    ∃ kept, layerBegin s'.blendReqMetas positions hiddenStates = some kept ∧
      b.Splits s'.blendReqMetas.computeMask s'.attnMetadata.queryStartLoc positions kept

variable {topk ratio seqLens b}

/-- The parts of the mask after the loop. -/
def Batch.parts (topk : TopK) (ratio : Nat → Int) (seqLens : List Nat) (b : Batch BlockId config.blockSize) :
    List (List Bool) :=
  List.replicate b.running [true] ++
    b.news.mapIdx fun k req => rowMask topk ratio seqLens (b.running + k) req

theorem flatten_replicate_true (n : Nat) : (List.replicate n [true]).flatten = List.replicate n true := by
  induction n with
  | zero => rfl
  | succ n ih => rw [List.replicate_succ, List.flatten_cons, ih, List.replicate_succ, List.singleton_append]

theorem maskFrom_eq (idx : Nat) (news : List (NewQuery BlockId config.blockSize)) :
    maskFrom topk ratio seqLens idx news =
      (news.mapIdx fun k req => rowMask topk ratio seqLens (idx + k) req).flatten := by
  induction news generalizing idx with
  | nil => rfl
  | cons req news ih =>
    rw [maskFrom, ih, List.mapIdx_cons, List.flatten_cons]
    simp only [Nat.add_zero, Nat.add_assoc, Nat.add_comm 1]

theorem length_rowMask (topk : TopK) (ratio : Nat → Int) (seqLens : List Nat) (idx : Nat) (req : NewQuery BlockId config.blockSize) :
    (rowMask topk ratio seqLens idx req).length = req.queryLen := by
  unfold rowMask
  split
  · exact List.length_replicate
  · exact NewQuery.length_mask

theorem Batch.flatten_parts : (b.parts topk ratio seqLens).flatten =
    List.replicate b.running true ++ maskFrom topk ratio seqLens b.running b.news := by
  rw [parts, List.flatten_append, flatten_replicate_true, maskFrom_eq]

theorem Batch.length_parts (topk : TopK) (ratio : Nat → Int) (seqLens : List Nat) : (b.parts topk ratio seqLens).map List.length = b.lens := by
  rw [parts, List.map_append, List.map_replicate, lens]
  congr 1
  refine List.ext_getElem? fun k => ?_
  rw [List.getElem?_map, List.getElem?_mapIdx, List.getElem?_map]
  cases b.news[k]? with
  | none => rfl
  | some req => exact congrArg some (length_rowMask _ _ _ _ req)

/-- The state before a reduction, which the layers before may have reset the mask of. -/
structure Built (seqLens : List Nat) (b : Batch BlockId config.blockSize) (s : BlendState Slot) : Prop where
  requests : s.blendReqMetas.requests = metasFrom seqLens b.running b.news
  queryLens : s.blendReqMetas.queryLens = b.lens
  blendStartReqIdx : s.blendReqMetas.blendStartReqIdx = b.running
  queryStartLoc : s.attnMetadata.queryStartLoc = b.lens.scanl (· + ·) 0
  slotMapping : s.attnMetadata.slotMapping.length = b.lens.sum

/-- No later layer can select with such a mask. -/
def Mismatched (s : BlendState Slot) : Prop :=
  s.attnMetadata.slotMapping.length ≠ s.blendReqMetas.computeMask.length

/-- What a reduction does. -/
structure Reduces (topk : TopK) (ratio : Nat → Int) (seqLens : List Nat) (b : Batch BlockId config.blockSize)
    (s s' : BlendState Slot) (input out : AttnInput Row) : Prop where
  mask : s'.blendReqMetas.computeMask = (b.parts topk ratio seqLens).flatten
  needReIndex : s'.blendReqMetas.needReIndex = true
  queryLens : s'.blendReqMetas.queryLens = List.replicate b.running 1 ++ b.news.map (newLen ratio)
  picks_le : ∀ req ∈ b.news, req.Blended →
    (ratio (req.hits.count true * config.blockSize)).toNat ≤ req.hits.count true * config.blockSize
  queryStartLoc : s'.attnMetadata.queryStartLoc = s'.blendReqMetas.queryLens.scanl (· + ·) 0
  requests : s'.blendReqMetas.requests = s.blendReqMetas.requests
  blendStartReqIdx : s'.blendReqMetas.blendStartReqIdx = s.blendReqMetas.blendStartReqIdx
  slotMapping : maskSelect s.attnMetadata.slotMapping s'.blendReqMetas.computeMask = some s'.attnMetadata.slotMapping
  query : maskSelect input.query s'.blendReqMetas.computeMask = some out.query
  key : maskSelect input.key s'.blendReqMetas.computeMask = some out.key
  value : maskSelect input.value s'.blendReqMetas.computeMask = some out.value

theorem maskSelect_eq_some {rows kept : List Row} {mask : List Bool} (h : maskSelect rows mask = some kept) :
    rows.length = mask.length ∧ kept = compress rows mask := by
  unfold maskSelect at h
  split_ifs at h with hlen
  exact ⟨hlen, (Option.some.inj h).symm⟩

/-- A layer that does not reduce keeps all but the mask, and one that reduces goes through the loop. -/
theorem attentionBegin_cases {layer : Layer} {s s' : BlendState Slot} {input out : AttnInput Row} {reduced : Bool}
    (h : attentionBegin config topk layer s input = some (s', out, reduced)) :
    (reduced = false ∧ s'.attnMetadata = s.attnMetadata ∧
      s'.blendReqMetas.computeMask.length = s.blendReqMetas.computeMask.length ∧
      (s'.blendReqMetas = s.blendReqMetas ∨ ∃ ratio metas, config.computeMeta layer = some ratio ∧
        s.blendReqMetas.requests.foldlM (blendRequest config topk ratio s.attnMetadata.queryStartLoc)
          (s.blendReqMetas.resetComputeMask, false) = some (metas, false) ∧ s'.blendReqMetas = metas)) ∨
    (reduced = true ∧ ∃ ratio metas, config.computeMeta layer = some ratio ∧
      s.blendReqMetas.requests.foldlM (blendRequest config topk ratio s.attnMetadata.queryStartLoc)
        (s.blendReqMetas.resetComputeMask, false) = some (metas, true) ∧
      s'.blendReqMetas = { metas with needReIndex := true } ∧
      updateAttnMetadata { metas with needReIndex := true } s.attnMetadata = some s'.attnMetadata ∧
      maskSelect input.query metas.computeMask = some out.query ∧
      maskSelect input.key metas.computeMask = some out.key ∧
      maskSelect input.value metas.computeMask = some out.value) := by
  unfold attentionBegin at h
  cases hlayer : config.computeMeta layer with
  | none =>
    simp only [hlayer, Option.some.injEq, Prod.mk.injEq] at h
    obtain ⟨rfl, rfl, rfl⟩ := h
    exact Or.inl ⟨rfl, rfl, rfl, Or.inl rfl⟩
  | some ratio =>
    rw [hlayer] at h
    obtain ⟨⟨metas, needUpdate⟩, hloop, h⟩ := Option.bind_eq_some_iff.mp h
    have hkeeps := blendLoop_keeps hloop
    cases needUpdate with
    | false =>
      simp only [if_true, Option.some.injEq, Prod.mk.injEq] at h
      obtain ⟨rfl, rfl, rfl⟩ := h
      refine Or.inl ⟨rfl, rfl, ?_, Or.inr ⟨ratio, metas, rfl, hloop, rfl⟩⟩
      rw [hkeeps.length_mask]
      exact List.length_mapIdx
    | true =>
      simp only [Bool.true_eq_false, if_false] at h
      obtain ⟨attn, hattn, h⟩ := Option.bind_eq_some_iff.mp h
      obtain ⟨query, hquery, h⟩ := Option.bind_eq_some_iff.mp h
      obtain ⟨key, hkey, h⟩ := Option.bind_eq_some_iff.mp h
      obtain ⟨value, hvalue, h⟩ := Option.map_eq_some_iff.mp h
      simp only [Prod.mk.injEq] at h
      obtain ⟨rfl, rfl, rfl⟩ := h
      exact Or.inr ⟨rfl, ratio, metas, rfl, hloop, rfl, hattn, hquery, hkey, hvalue⟩

theorem Batch.sum_lens : b.lens.sum = b.running + (b.news.map NewQuery.queryLen).sum := by
  rw [lens, List.sum_append, List.sum_replicate, smul_eq_mul, Nat.mul_one]

/-- The mask before the loop. -/
theorem Built.resetComputeMask {s : BlendState Slot} (hs : Built seqLens b s)
    (hlen : s.blendReqMetas.computeMask.length = b.lens.sum) :
    s.blendReqMetas.resetComputeMask.computeMask =
      List.replicate b.running true ++ List.replicate (b.news.map NewQuery.queryLen).sum false := by
  refine List.mapIdx_eq_iff.mpr fun i => ?_
  rw [hs.blendStartReqIdx]
  rw [Batch.sum_lens] at hlen
  rcases Nat.lt_or_ge i b.running with hi | hi
  · rw [List.getElem?_append_left (by rwa [List.length_replicate]), List.getElem?_replicate_of_lt hi,
      List.getElem?_eq_getElem (by omega), Option.map_some, decide_eq_true hi]
  · rw [List.getElem?_append_right (by rwa [List.length_replicate]), List.length_replicate, List.getElem?_replicate]
    split_ifs with hsum
    · rw [List.getElem?_eq_getElem (by omega), Option.map_some, decide_eq_false (Nat.not_lt.mpr hi)]
    · rw [List.getElem?_eq_none (by omega)]
      rfl

theorem Built.reduces {layer : Layer} {s s' : BlendState Slot} {input out : AttnInput Row} (hs : Built seqLens b s)
    (h : attentionBegin config topk layer s input = some (s', out, true)) :
    ∃ ratio, config.computeMeta layer = some ratio ∧ Reduces topk ratio seqLens b s s' input out := by
  rcases attentionBegin_cases h with ⟨hf, -⟩ | ⟨-, ratio, metas, hlayer, hloop, hmetas, hattn, hq, hk, hv⟩
  · cases hf
  obtain ⟨slotMapping, hslot, hattn⟩ := Option.map_eq_some_iff.mp hattn
  have hkeeps := blendLoop_keeps hloop
  have hlen : s.blendReqMetas.computeMask.length = b.lens.sum := by
    rw [← hs.slotMapping, (maskSelect_eq_some hslot).1]
    exact (List.length_mapIdx.symm.trans hkeeps.length_mask.symm)
  rw [hs.requests] at hloop
  have hstarts : ∀ n ≤ b.news.length, s.attnMetadata.queryStartLoc[b.running + n]? =
      some ((List.replicate b.running true).length + ((b.news.map NewQuery.queryLen).take n).sum) := by
    intro n hn
    rw [hs.queryStartLoc, getElem?_scanl_add _ _ _ (by simp [Batch.lens, hn]), Batch.lens, List.take_append,
      List.length_replicate, List.length_replicate, Nat.add_sub_cancel_left, List.take_replicate,
      Nat.min_eq_right (Nat.le_add_right _ _), List.sum_append, List.sum_replicate, smul_eq_mul, Nat.mul_one,
      Nat.zero_add]
  obtain ⟨hmask, hlens, -, hle⟩ := blendLoop_eq (List.replicate b.running true) (List.replicate b.running 1) hstarts (hs.resetComputeMask hlen) hs.queryLens
    List.length_replicate hloop
  refine ⟨ratio, hlayer, ?_, ?_, ?_, hle, ?_, ?_, ?_, ?_, ?_, ?_, ?_⟩
  · rw [hmetas, Batch.flatten_parts]
    exact hmask
  · rw [hmetas]
  · rw [hmetas]
    exact hlens
  · rw [← hattn, hmetas]
    change s.attnMetadata.queryStartLoc.take 1 ++ cumsum metas.queryLens = _
    rw [hs.queryStartLoc]
    exact take_one_append_cumsum _ _
  · rw [hmetas]
    exact hkeeps.requests
  · rw [hmetas]
    exact hkeeps.blendStartReqIdx
  · rw [hmetas, ← hattn]
    exact hslot
  · rw [hmetas]
    exact hq
  · rw [hmetas]
    exact hk
  · rw [hmetas]
    exact hv

theorem newLen_of_meta? {idx : Nat} {req : NewQuery BlockId config.blockSize} {m : ReqMeta}
    (hm : req.meta? seqLens idx = some m) (hle : req.Blended →
      (ratio (req.hits.count true * config.blockSize)).toNat ≤ req.hits.count true * config.blockSize) :
    (rowMask topk ratio seqLens idx req).count true = newLen ratio req := by
  rw [rowMask, hm, newLen, reused]
  change (req.mask (picks topk ratio m req)).count true = _
  by_cases hblend : req.Blended
  · have hcount := @NewQuery.count_mask _ _ req _ config.blockSize_pos (topk.nodup m _ _)
      (topk.lt m _ _ (hle hblend))
    rw [topk.length_eq m _ _ (hle hblend)] at hcount
    exact hcount
  · rw [NewQuery.mask, if_neg hblend, if_neg hblend, List.count_replicate_self]

/-- A reduction that drops nothing leaves the lengths. -/
theorem Reduces.newLen_eq {s s' : BlendState Slot} {input out : AttnInput Row}
    (h : Reduces topk ratio seqLens b s s' input out)
    (hall : ∀ v ∈ (b.parts topk ratio seqLens).flatten, v = true) : ∀ req ∈ b.news, newLen ratio req = req.queryLen := by
  intro req hreq
  obtain ⟨k, hk⟩ := List.mem_iff_getElem?.mp hreq
  cases hm : req.meta? seqLens (b.running + k) with
  | none => rw [newLen, if_neg (NewQuery.not_blended_of_meta? hm)]
  | some m =>
    rw [← newLen_of_meta? hm (h.picks_le req hreq), ← length_rowMask topk ratio seqLens (b.running + k) req]
    refine List.count_eq_length.mpr fun v hv => (hall v ?_).symm
    refine List.mem_flatten.mpr ⟨_, List.mem_append_right _ (List.mem_iff_getElem?.mpr ⟨k, ?_⟩), hv⟩
    rw [List.getElem?_mapIdx, hk]
    rfl

/-- After a layer the batch is as it was built, or no later layer reduces it. -/
theorem Built.step {layer : Layer} {s s' : BlendState Slot} {input out : AttnInput Row} {reduced : Bool}
    (hs : Built seqLens b s) (h : attentionBegin config topk layer s input = some (s', out, reduced)) :
    Built seqLens b s' ∨ Mismatched s' := by
  cases reduced with
  | false =>
    rcases attentionBegin_cases h with ⟨-, hattn, -, hmetas⟩ | ⟨hf, -⟩
    · refine Or.inl ?_
      rcases hmetas with hmetas | ⟨ratio, metas, -, hloop, rfl⟩
      · exact ⟨hmetas ▸ hs.requests, hmetas ▸ hs.queryLens, hmetas ▸ hs.blendStartReqIdx,
          hattn ▸ hs.queryStartLoc, hattn ▸ hs.slotMapping⟩
      · have hkeeps := blendLoop_keeps hloop
        exact ⟨hkeeps.requests.trans hs.requests, (hkeeps.queryLens rfl).2.trans hs.queryLens,
          hkeeps.blendStartReqIdx.trans hs.blendStartReqIdx, hattn ▸ hs.queryStartLoc, hattn ▸ hs.slotMapping⟩
    · cases hf
  | true =>
    obtain ⟨ratio, -, hr⟩ := hs.reduces h
    obtain ⟨hlen, hslot⟩ := maskSelect_eq_some hr.slotMapping
    by_cases hmis : Mismatched s'
    · exact Or.inr hmis
    · have heq := not_ne_iff.mp hmis
      rw [hslot, length_compress_self hlen] at heq
      have hall := List.count_eq_length.mp heq
      rw [hr.mask] at hall
      have hnew := hr.newLen_eq fun v hv => (hall v hv).symm
      have hlens : s'.blendReqMetas.queryLens = b.lens := by
        rw [hr.queryLens, Batch.lens, List.map_congr_left hnew]
      refine Or.inl ⟨hr.requests.trans hs.requests, hlens, hr.blendStartReqIdx.trans hs.blendStartReqIdx,
        hr.queryStartLoc.trans (by rw [hlens]), ?_⟩
      rw [hslot, length_compress_self hlen, heq, ← hlen, hs.slotMapping]

theorem Mismatched.step {layer : Layer} {s s' : BlendState Slot} {input out : AttnInput Row} {reduced : Bool}
    (hs : Mismatched s) (h : attentionBegin config topk layer s input = some (s', out, reduced)) :
    reduced = false ∧ Mismatched s' := by
  rcases attentionBegin_cases h with ⟨hf, hattn, hlen, -⟩ | ⟨-, ratio, metas, -, hloop, -, hattn, -⟩
  · refine ⟨hf, ?_⟩
    rw [Mismatched, hattn, hlen]
    exact hs
  · obtain ⟨slotMapping, hslot, -⟩ := Option.map_eq_some_iff.mp hattn
    refine absurd ((maskSelect_eq_some hslot).1.trans ?_) hs
    exact (blendLoop_keeps hloop).length_mask.trans List.length_mapIdx

end Reduced

end UnifiedCache.Sparse.Blend
