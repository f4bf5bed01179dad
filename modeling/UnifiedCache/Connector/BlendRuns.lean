import UnifiedCache.Connector.BlendLoads

/-! The blend connector over a run: a request that is matched, and the first output after that which
schedules it with its full block table. -/

namespace UnifiedCache.Connector.Blend

open StepSystem

variable {Token BlockId ReqId : Type*} [DecidableEq Token] [DecidableEq ReqId]

inductive Op (Token BlockId ReqId : Type*) where
  | matched (request : Request Token ReqId) (numComputedTokens : Nat) (pcLookup chunkLookup : Lookup BlockId)
  | build (out : SchedulerOutput ReqId)

/-- `none` is an exception. -/
def step (config : BlendConfig Token BlockId) (requestsBlendMeta : Dict ReqId (BlendRequestMeta BlockId)) :
    Op Token BlockId ReqId → Option (Dict ReqId (BlendRequestMeta BlockId))
  | .matched request numComputedTokens pcLookup chunkLookup =>
    (getNumNewMatchedTokens pcLookup chunkLookup config requestsBlendMeta request numComputedTokens).map Prod.snd
  | .build out => (buildConnectorMeta out requestsBlendMeta).map Prod.snd

/-- The tokens of a request only grow. -/
def Grows (request : Request Token ReqId) (_ : Dict ReqId (BlendRequestMeta BlockId)) : Op Token BlockId ReqId → Prop
  | .matched earlier _ _ _ =>
    earlier.requestId = request.requestId → earlier.allTokenIds.length ≤ request.allTokenIds.length
  | .build _ => True

/-- Neither a match of the request nor an output that schedules it. -/
def Other (reqId : ReqId) (_ : Dict ReqId (BlendRequestMeta BlockId)) : Op Token BlockId ReqId → Prop
  | .matched request _ _ _ => request.requestId ≠ reqId
  | .build out => reqId ∉ out.entries.map Entry.reqId

/-- A new request, or one of the other list with its new blocks. -/
def Schedules (out : SchedulerOutput ReqId) (reqId : ReqId) (table : List Nat) : Prop :=
  ⟨reqId, table⟩ ∈ out.scheduledNewReqs ∨ ∃ resumed, ⟨reqId, some table, resumed⟩ ∈ out.scheduledCachedReqs

/-- The request is passed over as one that decodes. -/
def Decodes (out : SchedulerOutput ReqId) (reqId : ReqId) : Prop :=
  reqId ∈ out.scheduledCachedReqs.map CachedRequest.reqId ∧ out.numScheduledTokens reqId = 1

instance (out : SchedulerOutput ReqId) (reqId : ReqId) : Decidable (Decodes out reqId) :=
  inferInstanceAs (Decidable (_ ∧ _))

/-- What an output has a request load. -/
def loadsOf (metas : Dict ReqId (BlendRequestDispatchMeta BlockId)) (reqId : ReqId) : List BlockId × List Nat :=
  match metas.get? reqId with
  | some dispatched => dispatched.loadBlockIds
  | none => ([], [])

section Build

variable {out : SchedulerOutput ReqId} {built built' : Built BlockId ReqId} {reqId : ReqId} {table : List Nat}

omit [DecidableEq Token]

/-- What is built for a request, and what is kept of it. -/
def SameAt (reqId : ReqId) (built built' : Built BlockId ReqId) : Prop :=
  built'.1.get? reqId = built.1.get? reqId ∧ built'.2.get? reqId = built.2.get? reqId

theorem SameAt.trans {built'' : Built BlockId ReqId} (h : SameAt reqId built built') (h' : SameAt reqId built' built'') :
    SameAt reqId built built'' :=
  ⟨h'.1.trans h.1, h'.2.trans h.2⟩

theorem dispatchRequest_self : (dispatchRequest built reqId table).1.get? reqId =
    ((built.2.get? reqId).map fun reqMeta => (generateBlendDispatchMeta reqMeta table).1).or (built.1.get? reqId) := by
  rw [dispatchRequest]
  cases built.2.get? reqId with
  | none => rfl
  | some reqMeta => exact Dict.get?_set.trans (if_pos rfl)

theorem dispatchRequest_other {r : ReqId} (h : r ≠ reqId) : SameAt reqId built (dispatchRequest built r table) := by
  rw [dispatchRequest]
  cases built.2.get? r with
  | none => exact ⟨rfl, rfl⟩
  | some reqMeta => exact ⟨Dict.get?_set.trans (if_neg h.symm), Dict.get?_set.trans (if_neg h.symm)⟩

theorem dispatchRequest_none {r : ReqId} (h : built.2.get? reqId = none) :
    (dispatchRequest built r table).2.get? reqId = none := by
  by_cases hr : r = reqId
  · rw [dispatchRequest, hr, h]
    exact h
  · exact (dispatchRequest_other hr).2.trans h

theorem dispatchCached_cases {request : CachedRequest ReqId} (h : dispatchCached out built request = some built') :
    built' = built ∨ ∃ blockIds, built' = dispatchRequest built request.reqId blockIds := by
  rw [dispatchCached] at h
  split_ifs at h
  · exact .inl (Option.some.inj h).symm
  · exact .inl (Option.some.inj h).symm
  · obtain ⟨blockIds, -, rfl⟩ := Option.map_eq_some_iff.mp h
    exact .inr ⟨blockIds, rfl⟩

theorem dispatchNew_other {requests : List (NewRequest ReqId)} (h : reqId ∉ requests.map NewRequest.reqId) :
    SameAt reqId built (requests.foldl (fun built request => dispatchRequest built request.reqId request.blockIds) built) := by
  induction requests generalizing built with
  | nil => exact ⟨rfl, rfl⟩
  | cons request requests ih =>
    rw [List.map_cons, List.mem_cons, not_or] at h
    obtain ⟨hhead, htail⟩ := h
    exact (dispatchRequest_other (Ne.symm hhead)).trans (ih htail)

theorem dispatchCached_other {requests : List (CachedRequest ReqId)} (h : reqId ∉ requests.map CachedRequest.reqId)
    (hb : requests.foldlM (dispatchCached out) built = some built') : SameAt reqId built built' := by
  induction requests generalizing built with
  | nil =>
    obtain rfl := Option.some.inj hb
    exact ⟨rfl, rfl⟩
  | cons request requests ih =>
    rw [List.map_cons, List.mem_cons, not_or] at h
    obtain ⟨hhead, htail⟩ := h
    rw [List.foldlM_cons] at hb
    obtain ⟨next, hnext, hrest⟩ := Option.bind_eq_some_iff.mp hb
    have hrest := ih htail hrest
    obtain rfl | ⟨blockIds, rfl⟩ := dispatchCached_cases hnext
    · exact hrest
    · exact (dispatchRequest_other (Ne.symm hhead)).trans hrest

theorem dispatchNew_none {requests : List (NewRequest ReqId)} (h : built.2.get? reqId = none) :
    (requests.foldl (fun built request => dispatchRequest built request.reqId request.blockIds) built).2.get? reqId =
      none := by
  induction requests generalizing built with
  | nil => exact h
  | cons request requests ih => exact ih (dispatchRequest_none h)

theorem dispatchCached_none {requests : List (CachedRequest ReqId)} (h : built.2.get? reqId = none)
    (hb : requests.foldlM (dispatchCached out) built = some built') : built'.2.get? reqId = none := by
  induction requests generalizing built with
  | nil =>
    obtain rfl := Option.some.inj hb
    exact h
  | cons request requests ih =>
    rw [List.foldlM_cons] at hb
    obtain ⟨next, hnext, hrest⟩ := Option.bind_eq_some_iff.mp hb
    obtain rfl | ⟨blockIds, rfl⟩ := dispatchCached_cases hnext
    · exact ih h hrest
    · exact ih (dispatchRequest_none h) hrest

variable {requestsBlendMeta : Dict ReqId (BlendRequestMeta BlockId)}

theorem buildConnectorMeta_none (h : requestsBlendMeta.get? reqId = none)
    (hb : buildConnectorMeta out requestsBlendMeta = some built) : built.2.get? reqId = none :=
  dispatchCached_none (dispatchNew_none h) hb

omit [DecidableEq ReqId] in
theorem map_entries_reqId : out.entries.map Entry.reqId =
    out.scheduledNewReqs.map NewRequest.reqId ++ out.scheduledCachedReqs.map CachedRequest.reqId := by
  rw [SchedulerOutput.entries, List.map_append, List.map_map, List.map_map]
  rfl

theorem buildConnectorMeta_other (h : reqId ∉ out.entries.map Entry.reqId)
    (hb : buildConnectorMeta out requestsBlendMeta = some built) :
    built.2.get? reqId = requestsBlendMeta.get? reqId := by
  rw [map_entries_reqId, List.mem_append, not_or] at h
  have hnew := @dispatchNew_other BlockId ReqId _ (Dict.empty, requestsBlendMeta) reqId out.scheduledNewReqs h.1
  exact (hnew.trans (dispatchCached_other h.2 hb)).2

/-- A scheduled request is dispatched on its own data, unless it is passed over. -/
theorem buildConnectorMeta_get? (hnodup : (out.entries.map Entry.reqId).Nodup) (h : Schedules out reqId table)
    (hb : buildConnectorMeta out requestsBlendMeta = some built) :
    built.1.get? reqId = if Decodes out reqId then none
      else (requestsBlendMeta.get? reqId).map fun reqMeta => (generateBlendDispatchMeta reqMeta table).1 := by
  rw [map_entries_reqId] at hnodup
  obtain ⟨hnew, hcached, hapart⟩ := List.nodup_append.mp hnodup
  have hempty : (Dict.empty : Dict ReqId (BlendRequestDispatchMeta BlockId)).get? reqId = none := rfl
  obtain h | ⟨resumed, h⟩ := h
  · -- A new request is dispatched, and no cached one is the same.
    have hmem : reqId ∈ out.scheduledNewReqs.map NewRequest.reqId := List.mem_map_of_mem h
    have hother : reqId ∉ out.scheduledCachedReqs.map CachedRequest.reqId := fun hc => hapart _ hmem _ hc rfl
    obtain ⟨earlier, later, hsplit⟩ := List.append_of_mem h
    rw [hsplit, List.map_append, List.map_cons, List.nodup_append] at hnew
    have hbefore : reqId ∉ earlier.map NewRequest.reqId := fun he => hnew.2.2 _ he _ List.mem_cons_self rfl
    have hafter : reqId ∉ later.map NewRequest.reqId := (List.nodup_cons.mp hnew.2.1).1
    rw [buildConnectorMeta, hsplit, List.foldl_append, List.foldl_cons] at hb
    rw [(dispatchCached_other hother hb).1, (dispatchNew_other hafter).1, dispatchRequest_self,
      (dispatchNew_other hbefore).1, (dispatchNew_other hbefore).2, hempty, Option.or_none,
      if_neg fun hdecodes => hother hdecodes.1]
  · -- A cached one is dispatched unless it decodes, and no new one is the same.
    have hmem : reqId ∈ out.scheduledCachedReqs.map CachedRequest.reqId := List.mem_map_of_mem h
    have hother : reqId ∉ out.scheduledNewReqs.map NewRequest.reqId := fun hn => hapart _ hn _ hmem rfl
    obtain ⟨earlier, later, hsplit⟩ := List.append_of_mem h
    rw [hsplit, List.map_append, List.map_cons, List.nodup_append] at hcached
    have hbefore : reqId ∉ earlier.map CachedRequest.reqId := fun he => hcached.2.2 _ he _ List.mem_cons_self rfl
    have hafter : reqId ∉ later.map CachedRequest.reqId := (List.nodup_cons.mp hcached.2.1).1
    rw [buildConnectorMeta, hsplit, List.foldlM_append] at hb
    obtain ⟨before, hb₁, hb⟩ := Option.bind_eq_some_iff.mp hb
    rw [List.foldlM_cons] at hb
    obtain ⟨self, hself, hb⟩ := Option.bind_eq_some_iff.mp hb
    have hstart := (dispatchNew_other hother).trans (dispatchCached_other hbefore hb₁)
    rw [(dispatchCached_other hafter hb).1]
    rw [dispatchCached] at hself
    dsimp only at hself
    split_ifs at hself with hone hnone
    · rw [if_pos ⟨hmem, hone⟩, ← Option.some.inj hself, hstart.1, hempty]
    · rw [if_neg fun hdecodes => hone hdecodes.2, ← Option.some.inj hself, hstart.1, hempty]
      rw [hstart.2, Option.isNone_iff_eq_none] at hnone
      rw [hnone, Option.map_none]
    · rw [if_neg fun hdecodes => hone hdecodes.2, ← Option.some.inj hself, dispatchRequest_self, hstart.1, hstart.2, hempty,
        Option.or_none]

end Build

section Runs

variable {config : BlendConfig Token BlockId} {request : Request Token ReqId} {pcFound chunkFound : Results BlockId}
  {d d' d₀ d₁ d₂ d₃ : Dict ReqId (BlendRequestMeta BlockId)} {out : SchedulerOutput ReqId} {table : List Nat} {v : Int}
  {metas : Dict ReqId (BlendRequestDispatchMeta BlockId)}

/-- A match touches the data of its own request only. -/
theorem getNumNewMatchedTokens_cases {numComputedTokens : Nat} {pcLookup chunkLookup : Lookup BlockId}
    (h : getNumNewMatchedTokens pcLookup chunkLookup config d request numComputedTokens = some (v, d')) :
    d' = d ∨ config.blockSize ≤ request.allTokenIds.length ∧ ∃ reqMeta, d' = d.set request.requestId reqMeta := by
  rw [getNumNewMatchedTokens] at h
  dsimp only at h
  split_ifs at h with hcomputed hblocks
  · exact .inl (Prod.mk.inj (Option.some.inj h)).2.symm
  · obtain ⟨⟨pcHitBlocks, chunkHitBlocks, reqChunksMeta⟩, -, h⟩ := Option.map_eq_some_iff.mp h
    have hfull : config.blockSize ≤ request.allTokenIds.length := by
      by_contra hshort
      exact hblocks (Nat.div_eq_of_lt (not_le.mp hshort))
    exact .inr ⟨hfull, _, (Prod.mk.inj h).2.symm⟩

/-- As long as it has no block, a request has no data. -/
theorem get?_of_short (hshort : request.allTokenIds.length < config.blockSize)
    (h : Reach (step config) (Grows request) Dict.empty d) : d.get? request.requestId = none := by
  refine h.invariant (fun d => d.get? request.requestId = none) rfl fun d op d' hd hg hs => ?_
  cases op with
  | matched earlier numComputedTokens pcLookup chunkLookup =>
    obtain ⟨⟨v, next⟩, hmatch, rfl⟩ := Option.map_eq_some_iff.mp hs
    obtain rfl | ⟨hfull, reqMeta, rfl⟩ := getNumNewMatchedTokens_cases hmatch
    · exact hd
    · have hne : earlier.requestId ≠ request.requestId := fun he => by
        have hle := hg he
        omega
      exact (Dict.get?_set.trans (if_neg hne.symm)).trans hd
  | build out =>
    obtain ⟨built, hbuild, rfl⟩ := Option.map_eq_some_iff.mp hs
    exact buildConnectorMeta_none hd hbuild

/-- What is done for others leaves the data of a request. -/
theorem get?_of_other {reqId : ReqId} (h : Reach (step config) (Other reqId) d₁ d) : d.get? reqId = d₁.get? reqId := by
  refine h.invariant (fun d => d.get? reqId = d₁.get? reqId) rfl fun d op d' hd hg hs => ?_
  cases op with
  | matched request numComputedTokens pcLookup chunkLookup =>
    obtain ⟨⟨v, next⟩, hmatch, rfl⟩ := Option.map_eq_some_iff.mp hs
    obtain rfl | ⟨-, reqMeta, rfl⟩ := getNumNewMatchedTokens_cases hmatch
    · exact hd
    · exact (Dict.get?_set.trans (if_neg (Ne.symm hg))).trans hd
  | build out =>
    obtain ⟨built, hbuild, rfl⟩ := Option.map_eq_some_iff.mp hs
    exact (buildConnectorMeta_other hg hbuild).trans hd

omit [DecidableEq Token] [DecidableEq ReqId] in
/-- Nothing may be loaded just where nothing is reported as computed. -/
theorem loadsFound_nil {prefixHashes chunkHashes : List BlockId} {pcResults chunkResults : List Bool} :
    LoadsFound prefixHashes chunkHashes pcResults chunkResults table ([], []) ↔ firstHits pcResults = 0 := by
  constructor
  · intro h
    by_contra hne
    obtain ⟨_, _, -, -, hmem⟩ := h.computed 0 (Nat.pos_of_ne_zero hne)
    cases hmem
  · intro hzero
    refine ⟨rfl, List.nodup_nil, ?_, ?_⟩
    · intro pair hmem
      cases hmem
    · intro j hj
      omega

/-- In every run the first output after a match that schedules the request has it load what was found,
each block once, just where no prefix hit is beyond the first chunk of a blend; a request that is
passed over loads nothing. -/
theorem loadsFound_iff (hearlier : Reach (step config) (Grows request) Dict.empty d₀)
    (hmatch : getNumNewMatchedTokens (fun keys => some (pcFound keys)) (fun keys => some (chunkFound keys)) config d₀
      request 0 = some (v, d₁))
    (hothers : Reach (step config) (Other request.requestId) d₁ d₂)
    (hbuild : buildConnectorMeta out d₂ = some (metas, d₃)) (hout : (out.entries.map Entry.reqId).Nodup)
    (hsched : Schedules out request.requestId table) (hnodup : table.Nodup)
    (hfull : request.allTokenIds.length / config.blockSize ≤ table.length) :
    LoadsFound (prefixHashes config request.allTokenIds) (chunkHashes config request.allTokenIds)
        (pcResults config request.allTokenIds pcFound) (chunkResults config request.allTokenIds pcFound chunkFound) table
        (loadsOf metas request.requestId) ↔
      if Decodes out request.requestId then firstHits (pcResults config request.allTokenIds pcFound) = 0
      else ¬ Overlaps config request.allTokenIds pcFound chunkFound := by
  have hmetas := buildConnectorMeta_get? hout hsched hbuild
  rw [get?_of_other hothers] at hmetas
  rw [loadsOf]
  split_ifs at hmetas ⊢ with hdecodes
  · rw [hmetas]
    exact loadsFound_nil
  · obtain ⟨w, hw⟩ := @getNumNewMatchedTokens_eq Token BlockId ReqId _ config pcFound chunkFound _ request d₀
    rw [hmatch] at hw
    rw [(Prod.mk.inj (Option.some.inj hw)).2] at hmetas
    by_cases hblocks : request.allTokenIds.length / config.blockSize = 0
    · have hshort : request.allTokenIds.length < config.blockSize :=
        (Nat.div_eq_zero_iff_lt config.blockSize_pos).mp hblocks
      have hzero : firstHits (pcResults config request.allTokenIds pcFound) = 0 := by
        have hle := @firstHits_pcResults_le Token BlockId _ config request.allTokenIds pcFound
        rw [length_prefixHashes, hblocks] at hle
        omega
      rw [if_pos hblocks, get?_of_short hshort hearlier, Option.map_none] at hmetas
      rw [hmetas, loadsFound_nil, iff_true_intro hzero, true_iff]
      rintro ⟨-, hover⟩
      omega
    · rw [if_neg hblocks, Dict.get?_set, if_pos rfl, Option.map_some] at hmetas
      rw [hmetas]
      exact loadsFound_dispatch_iff hnodup hfull

end Runs

/-- Blocks of one token, where 9 ends a chunk. -/
def oneTokenBlocks : BlendConfig Nat Nat where
  blockSize := 1
  blockSize_pos := by decide
  requestHasher := fun p => p.1 * 10 + p.2.sum + 1
  seed := 0
  chunkEndTokenId := 9

/-- A chunk of one block, one of seventeen, and a question. -/
def twoChunks : Request Nat Nat := ⟨0, 9 :: List.replicate 16 1 ++ [9, 5]⟩

def hitsUpTo (n : Nat) : Results Nat := fun keys =>
  ⟨(List.range keys.length).map fun i => decide (i < n), by rw [List.length_map, List.length_range]⟩

def scheduleTwoChunks : SchedulerOutput Nat := ⟨[⟨0, List.range 19⟩], [], fun _ => 17, []⟩

/-- What is loaded when the first `n` blocks are found as a prefix, and all blocks as parts of chunks. -/
def loadsTwoChunks (n : Nat) : Option (List Nat × List Nat) :=
  (getNumNewMatchedTokens (fun keys => some (hitsUpTo n keys)) (fun keys => some (hitsUpTo 19 keys)) oneTokenBlocks
      Dict.empty twoChunks 0).bind fun matched =>
    (buildConnectorMeta scheduleTwoChunks matched.2).map fun built => loadsOf built.1 0

/-- The second block is found as a prefix, and loaded again as the first one of the second chunk. -/
theorem not_loadsFound : ∃ load, loadsTwoChunks 2 = some load ∧
    ¬ LoadsFound (prefixHashes oneTokenBlocks twoChunks.allTokenIds) (chunkHashes oneTokenBlocks twoChunks.allTokenIds)
      (pcResults oneTokenBlocks twoChunks.allTokenIds (hitsUpTo 2))
      (chunkResults oneTokenBlocks twoChunks.allTokenIds (hitsUpTo 2) (hitsUpTo 19)) (List.range 19) load := by
  have hloads : (loadsTwoChunks 2).map Prod.snd = some ([0, 1, 1] ++ List.range' 2 16) := by decide +kernel
  obtain ⟨load, hload, hblocks⟩ := Option.map_eq_some_iff.mp hloads
  refine ⟨load, hload, fun hfound => ?_⟩
  have hnodup := hfound.nodup
  rw [hblocks] at hnodup
  exact absurd hnodup (by decide)

theorem loadsFound_iff_twoChunks : ∃ v d₁ metas d₃,
    getNumNewMatchedTokens (fun keys => some (hitsUpTo 1 keys)) (fun keys => some (hitsUpTo 19 keys)) oneTokenBlocks
        Dict.empty twoChunks 0 = some (v, d₁) ∧
      buildConnectorMeta scheduleTwoChunks d₁ = some (metas, d₃) ∧
      LoadsFound (prefixHashes oneTokenBlocks twoChunks.allTokenIds) (chunkHashes oneTokenBlocks twoChunks.allTokenIds)
        (pcResults oneTokenBlocks twoChunks.allTokenIds (hitsUpTo 1))
        (chunkResults oneTokenBlocks twoChunks.allTokenIds (hitsUpTo 1) (hitsUpTo 19)) (List.range 19)
        (loadsOf metas 0) := by
  obtain ⟨v, hmatch⟩ := @getNumNewMatchedTokens_eq Nat Nat Nat _ oneTokenBlocks (hitsUpTo 1) (hitsUpTo 19) _ twoChunks
    Dict.empty
  have hout : (scheduleTwoChunks.entries.map Entry.reqId).Nodup := by decide
  have hsched : Schedules scheduleTwoChunks twoChunks.requestId (List.range 19) := .inl List.mem_cons_self
  refine ⟨v, _, _, _, hmatch, rfl, ?_⟩
  refine (loadsFound_iff Reach.start hmatch Reach.start rfl hout hsched List.nodup_range (by decide)).mpr ?_
  rw [if_neg (by decide)]
  decide +kernel

end UnifiedCache.Connector.Blend
