import UnifiedCache.Sparse.TokenBlocks

/-! The first decode step of a request under KVStar: the blocks that the scheduler keeps and what
the worker puts into them. -/

namespace UnifiedCache.Sparse

/-- `kvstar_multistep_cfg` with the block size. -/
structure KvstarConfig where
  blockSize : Nat
  blockSize_pos : 0 < blockSize
  initWindowSz : Nat
  localWindowSz : Nat
  retrievalStride : Nat
  stride_pos : 0 < retrievalStride
  /-- `math.ceil(n * sparse_ratio)`, with a ratio between zero and one. -/
  ceilSparse : Nat → Nat
  ceilSparse_le : ∀ n, ceilSparse n ≤ n

/-- When the load of a retrieved block ends: before the wait, at the wait or without the block. -/
inductive LoadEnd where
  | landed
  | late
  | failed
  deriving DecidableEq

structure KvstarWindows where
  initWindow : List Content
  localWindow : Option (List Content)

namespace KvstarConfig

variable (cfg : KvstarConfig)

def numPrefillKeepFixedBlk (numPromptTokens : Nat) : Nat :=
  min (cfg.initWindowSz + cfg.localWindowSz) (numPromptTokens / cfg.blockSize)

def numSparseSavedFullyBlk (numPromptTokens : Nat) : Nat :=
  cfg.ceilSparse (numPromptTokens / cfg.blockSize - cfg.numPrefillKeepFixedBlk numPromptTokens)

def numBlocksBeCompressedPrefill (numPromptTokens : Nat) : Nat :=
  numPromptTokens / cfg.blockSize - cfg.numSparseSavedFullyBlk numPromptTokens -
    cfg.numPrefillKeepFixedBlk numPromptTokens

/-- `none` is `INVALID_SLOT`. -/
def estimateNumSlotsSparsed (numPromptTokens numOutputTokens : Nat) : Option Nat :=
  if numOutputTokens = 0 then none
  else
    let numTokens := numPromptTokens + numOutputTokens
    let numBlocksDenseTotal := cdiv numTokens cfg.blockSize
    let numBlocksThisStepBudget := numBlocksDenseTotal - cfg.numBlocksBeCompressedPrefill numPromptTokens
    let tailBlkValidTokenNum := numTokens % cfg.blockSize
    if tailBlkValidTokenNum ≠ 0 then some ((numBlocksThisStepBudget - 1) * cfg.blockSize + tailBlkValidTokenNum)
    else some (numBlocksThisStepBudget * cfg.blockSize)

/-- The last blocks are kept, and become the list of the request that new blocks are put to. -/
def allocateSlots (allocatedBlocks pool : List Nat) (numSlotsSparsed : Nat) : Option (List Nat × List Nat) :=
  let numBlocksNeed := cdiv numSlotsSparsed cfg.blockSize
  let numReturned := allocatedBlocks.length - numBlocksNeed
  let returnedBlocks := allocatedBlocks.take numReturned
  let keptBlocks := allocatedBlocks.drop numReturned
  allocateNewBlocks keptBlocks (pool ++ returnedBlocks) numBlocksNeed

/-- The blocks that the worker takes for those of a request that is not new. -/
def updateBlockIds (reqSparsedSlots : Option Nat) (resumedFromPreemption : Bool) (blockIds newBlockIds : List Nat) :
    List Nat :=
  if resumedFromPreemption || reqSparsedSlots.isSome then newBlockIds else blockIds ++ newBlockIds

def constructInitAndLocalWindow (vllmBlockIds : List Nat) (cache : Nat → Content) : KvstarWindows :=
  let localWindowSz := min cfg.localWindowSz (vllmBlockIds.drop cfg.initWindowSz).length
  { initWindow := (vllmBlockIds.take cfg.initWindowSz).map cache
    localWindow :=
      if localWindowSz > 0 then some ((intSlice vllmBlockIds (-localWindowSz) vllmBlockIds.length).map cache) else none }

/-- How many blocks have a representation after the last chunk of the prefill. Requests of one
block are no business of the worker. -/
def computeBlockRepre (numPromptTokens : Nat) (vllmBlockIds : List Nat) : Option Nat :=
  if numPromptTokens ≤ cfg.blockSize then none
  else
    let fullBlocks := vllmBlockIds.take (numPromptTokens / cfg.blockSize)
    if fullBlocks.getLast?.any (· < 2) then none
    else if fullBlocks.length ≤ 2 then none
    else some (intSlice fullBlocks cfg.initWindowSz (-cfg.localWindowSz)).length

def getRetrieveCandidateBlockIds (numRepre : Nat) (vllmBlockIds : List Nat) : List Nat :=
  slice vllmBlockIds cfg.initWindowSz (cfg.ceilSparse numRepre + cfg.initWindowSz)

def prepareInitAndLocalWindow (windows : KvstarWindows) (vllmBlockIds : List Nat) (cache : Nat → Content) :
    Option (Nat → Content) := do
  let initWindow ← indexPut (vllmBlockIds.take cfg.initWindowSz) windows.initWindow
  let cache := put cache initWindow
  match windows.localWindow with
  | none => some cache
  | some values =>
    let localWindow ← indexPut (intSlice vllmBlockIds (-cfg.localWindowSz) vllmBlockIds.length) values
    some (put cache localWindow)

/-- The loads of the retrieved blocks that have an effect before the attention of step one. -/
def loadRetrieveResult (numPromptTokens : Nat) (candidates : List Nat) (loads : List (Nat × LoadEnd)) :
    List (Nat × Content) :=
  (candidates.zip loads).filterMap fun (id, block, loadEnd) =>
    if loadEnd = .landed ∨ loadEnd = .late ∧ 1 % cfg.retrievalStride = 1 then
      some (id, tokenBlock cfg.blockSize numPromptTokens block)
    else none

/-- `attention_begin` in step one. -/
def attentionBegin (numPromptTokens : Nat) (windows : KvstarWindows) (blkRepre : Option Nat)
    (vllmBlockIds : List Nat) (loads : List (Nat × LoadEnd)) (cache : Nat → Content) : Option (Nat → Content) :=
  match blkRepre with
  | none => some cache
  | some numRepre => do
    let cache ← cfg.prepareInitAndLocalWindow windows vllmBlockIds cache
    let candidates := cfg.getRetrieveCandidateBlockIds numRepre vllmBlockIds
    some (put cache (cfg.loadRetrieveResult numPromptTokens candidates loads))

/-- What the retrieval may choose among the blocks that have a representation. -/
def Retrievable (blkRepre : Option Nat) (loads : List (Nat × LoadEnd)) : Prop :=
  ∀ load ∈ loads, cfg.initWindowSz ≤ load.1 ∧ load.1 < cfg.initWindowSz + blkRepre.getD 0

end KvstarConfig

/-- A request at the end of its prefill. The free blocks have no token of it. -/
structure KvstarPrefill (cfg : KvstarConfig) where
  numPromptTokens : Nat
  vllmBlockIds : List Nat
  pool : List Nat
  nodup : (vllmBlockIds ++ pool).Nodup
  length_eq : vllmBlockIds.length = cdiv numPromptTokens cfg.blockSize
  cache : Nat → Content
  prefilled : Prefilled cfg.blockSize numPromptTokens vllmBlockIds cache
  blank : ∀ id ∈ pool, ∀ offset, cache id offset = none

namespace KvstarPrefill

variable {cfg : KvstarConfig} (prefill : KvstarPrefill cfg)

/-- The blocks of the request with the scheduler after `allocate_slots` for the first decode step. -/
def reqToBlocks : Option (List Nat) := do
  let numSlotsSparsed ← cfg.estimateNumSlotsSparsed prefill.numPromptTokens 1
  let blocks ← cfg.allocateSlots prefill.vllmBlockIds prefill.pool numSlotsSparsed
  some blocks.1

/-- The cache once the KV of the new token is in its slot, the last one that attention reads. -/
def storeNewToken (numSlotsSparsed : Nat) (table : List Nat) (cache : Nat → Content) : Nat → Content :=
  match table[(numSlotsSparsed - 1) / cfg.blockSize]? with
  | some id => Function.update cache id
      (Function.update (cache id) ((numSlotsSparsed - 1) % cfg.blockSize) (some prefill.numPromptTokens))
  | none => cache

/-- The layout of the first decode step: the table is what the scheduler has kept, in its order,
the new token goes where there is none, before the worker has moved the windows and after it, and
attention reads as many slots as are filled. -/
structure Kept (numSlotsSparsed : Nat) (blocks table : List Nat) (cache : Nat → Content) : Prop where
  table_eq : table = blocks
  kept : ∃ numReturned newBlocks, blocks = prefill.vllmBlockIds.drop numReturned ++ newBlocks ∧
    ∀ id ∈ newBlocks, id ∉ prefill.vllmBlockIds.drop numReturned
  new_token : ∃ id, table[(numSlotsSparsed - 1) / cfg.blockSize]? = some id ∧
    prefill.cache id ((numSlotsSparsed - 1) % cfg.blockSize) = none ∧
    cache id ((numSlotsSparsed - 1) % cfg.blockSize) = none
  seq_len : numSlotsSparsed =
    (table.map fun id => filled cfg.blockSize (prefill.storeNewToken numSlotsSparsed table cache id)).sum

/-- The first decode step comes through and keeps what it should. -/
def KeepsLayout : Prop :=
  ∃ numSlotsSparsed blocks, cfg.estimateNumSlotsSparsed prefill.numPromptTokens 1 = some numSlotsSparsed ∧
    prefill.reqToBlocks = some blocks ∧
    let table := KvstarConfig.updateBlockIds (some numSlotsSparsed) false prefill.vllmBlockIds blocks
    let blkRepre := cfg.computeBlockRepre prefill.numPromptTokens prefill.vllmBlockIds
    ∀ loads, cfg.Retrievable blkRepre loads → ∃ cache,
      cfg.attentionBegin prefill.numPromptTokens
        (cfg.constructInitAndLocalWindow prefill.vllmBlockIds prefill.cache) blkRepre table loads prefill.cache =
          some cache ∧
      prefill.Kept numSlotsSparsed blocks table cache

/-- The full blocks of the prompt, and those that the table has no place for. -/
def numFullBlocks : Nat := prefill.numPromptTokens / cfg.blockSize

def numDropped : Nat := cfg.numBlocksBeCompressedPrefill prefill.numPromptTokens

/-- The prompt does not end at a block, or all of its blocks stay. -/
def Aligned : Prop := prefill.numPromptTokens % cfg.blockSize ≠ 0 ∨ prefill.numDropped = 0

/-- The worker has representations of the blocks, without which it does not move the windows. -/
def Prepared : Prop :=
  2 < prefill.numFullBlocks ∧ ∀ id, prefill.vllmBlockIds[prefill.numFullBlocks - 1]? = some id → 2 ≤ id

/-- The windows have as many blocks where they are read as where they are written. -/
def WindowsFit : Prop :=
  if prefill.numPromptTokens % cfg.blockSize = 0 then
    cfg.initWindowSz ≤ prefill.numFullBlocks ∧ (cfg.localWindowSz = 0 ∨ cfg.initWindowSz = prefill.numFullBlocks)
  else
    cfg.localWindowSz = 0 ∨ cfg.initWindowSz = 0 ∨ prefill.numFullBlocks < cfg.initWindowSz ∨
      cfg.initWindowSz + cfg.localWindowSz ≤ prefill.numFullBlocks + 1

/-- What a block of the table must have: the last one what the prompt has left over. -/
def Steady (table : List Nat) (id : Nat) (content : Content) : Prop :=
  ∀ j, table[j]? = some id →
    (j < prefill.numFullBlocks - prefill.numDropped → ∀ offset < cfg.blockSize, (content offset).isSome) ∧
    (j = prefill.numFullBlocks - prefill.numDropped →
      content = tokenBlock cfg.blockSize prefill.numPromptTokens prefill.numFullBlocks)

section Sizes

variable {prefill}

theorem numDropped_le : prefill.numDropped ≤ prefill.numFullBlocks :=
  (Nat.sub_le _ _).trans (Nat.sub_le _ _)

/-- Either both windows have their places, or all full blocks have. -/
theorem numDropped_cases :
    cfg.initWindowSz + cfg.localWindowSz ≤ prefill.numFullBlocks ∧
        prefill.numFullBlocks = prefill.numDropped + cfg.initWindowSz + cfg.localWindowSz +
          cfg.ceilSparse (prefill.numFullBlocks - (cfg.initWindowSz + cfg.localWindowSz)) ∨
      prefill.numFullBlocks < cfg.initWindowSz + cfg.localWindowSz ∧ prefill.numDropped = 0 := by
  have hle := cfg.ceilSparse_le (prefill.numFullBlocks - (cfg.initWindowSz + cfg.localWindowSz))
  unfold numDropped numFullBlocks KvstarConfig.numBlocksBeCompressedPrefill KvstarConfig.numSparseSavedFullyBlk
    KvstarConfig.numPrefillKeepFixedBlk at *
  by_cases h : cfg.initWindowSz + cfg.localWindowSz ≤ prefill.numPromptTokens / cfg.blockSize
  · rw [Nat.min_eq_left h]
    omega
  · rw [Nat.min_eq_right (by omega)]
    omega

theorem prompt_split :
    prefill.numPromptTokens = prefill.numFullBlocks * cfg.blockSize + prefill.numPromptTokens % cfg.blockSize :=
  (Nat.div_add_mod' _ _).symm

theorem estimate_eq :
    cfg.estimateNumSlotsSparsed prefill.numPromptTokens 1 =
      some ((prefill.numFullBlocks - prefill.numDropped) * cfg.blockSize +
        prefill.numPromptTokens % cfg.blockSize + 1) := by
  have hblock := cfg.blockSize_pos
  have hmod := Nat.mod_lt prefill.numPromptTokens hblock
  have hsplit := @prompt_split cfg prefill
  have hdropped := @numDropped_le cfg prefill
  have hdense : cdiv (prefill.numPromptTokens + 1) cfg.blockSize = prefill.numFullBlocks + 1 := by
    apply Nat.le_antisymm
    · rw [cdiv_le_iff hblock, Nat.add_mul]
      omega
    · rw [Nat.add_one_le_iff, lt_cdiv_iff hblock]
      omega
  have htail : (prefill.numPromptTokens + 1) % cfg.blockSize =
      (prefill.numPromptTokens % cfg.blockSize + 1) % cfg.blockSize := (Nat.mod_add_mod _ _ _).symm
  have hbudget : prefill.numFullBlocks + 1 - prefill.numDropped = prefill.numFullBlocks - prefill.numDropped + 1 := by
    omega
  have hfold : cfg.numBlocksBeCompressedPrefill prefill.numPromptTokens = prefill.numDropped := rfl
  unfold KvstarConfig.estimateNumSlotsSparsed
  simp only [Nat.one_ne_zero, if_false, hdense, hfold, hbudget, htail, Nat.add_sub_cancel]
  by_cases hlast : prefill.numPromptTokens % cfg.blockSize + 1 = cfg.blockSize
  · rw [hlast, Nat.mod_self, if_neg (by decide), Nat.add_mul]
    congr 1
    omega
  · rw [Nat.mod_eq_of_lt (by omega), if_pos (by omega)]
    rfl

theorem length_vllmBlockIds :
    prefill.vllmBlockIds.length =
      if prefill.numPromptTokens % cfg.blockSize = 0 then prefill.numFullBlocks else prefill.numFullBlocks + 1 := by
  have hblock := cfg.blockSize_pos
  rw [prefill.length_eq]
  split
  · rename_i hmod
    have hall := cdiv_of_mod_eq hmod hblock
    have hsplit := @prompt_split cfg prefill
    rw [hmod, Nat.add_zero] at hsplit
    exact Nat.eq_of_mul_eq_mul_right hblock (hall.trans hsplit)
  · rename_i hmod
    exact cdiv_of_mod_ne hmod hblock

theorem reqToBlocks_eq {table : List Nat} (h : prefill.reqToBlocks = some table) :
    table.Nodup ∧ ∃ numReturned newBlocks, numReturned = prefill.vllmBlockIds.length -
        (prefill.numFullBlocks - prefill.numDropped + 1) ∧
      newBlocks = (prefill.pool ++ prefill.vllmBlockIds.take numReturned).take
        (prefill.numFullBlocks - prefill.numDropped + 1 - (prefill.vllmBlockIds.length - numReturned)) ∧
      table = prefill.vllmBlockIds.drop numReturned ++ newBlocks ∧
      table.length = prefill.numFullBlocks - prefill.numDropped + 1 := by
  have hblock := cfg.blockSize_pos
  have hmod := Nat.mod_lt prefill.numPromptTokens hblock
  unfold reqToBlocks KvstarConfig.allocateSlots at h
  rw [estimate_eq] at h
  have hneed : cdiv ((prefill.numFullBlocks - prefill.numDropped) * cfg.blockSize +
      prefill.numPromptTokens % cfg.blockSize + 1) cfg.blockSize = prefill.numFullBlocks - prefill.numDropped + 1 := by
    apply Nat.le_antisymm
    · rw [cdiv_le_iff hblock, Nat.add_mul]
      omega
    · rw [Nat.add_one_le_iff, lt_cdiv_iff hblock]
      omega
  simp only [Option.bind_eq_bind, Option.bind_some, hneed] at h
  obtain ⟨r, hr, hsome⟩ := Option.bind_eq_some_iff.mp h
  cases hsome
  set numReturned := prefill.vllmBlockIds.length - (prefill.numFullBlocks - prefill.numDropped + 1)
  have hperm : (prefill.vllmBlockIds.drop numReturned ++
      (prefill.pool ++ prefill.vllmBlockIds.take numReturned)).Perm (prefill.vllmBlockIds ++ prefill.pool) := by
    have hsplit := List.take_append_drop numReturned prefill.vllmBlockIds
    conv_rhs => rw [← hsplit]
    rw [← List.append_assoc]
    exact List.perm_append_comm.trans (by rw [List.append_assoc])
  obtain ⟨heq, hlength, hnodup⟩ := allocateNewBlocks_eq hr (hperm.nodup_iff.mpr prefill.nodup)
  refine ⟨hnodup, numReturned, _, rfl, rfl, ?_, ?_⟩
  · rw [heq, List.length_drop]
  · rw [hlength, List.length_drop]
    omega

theorem isSome_tokenBlock {i offset : Nat} (hi : i < prefill.numFullBlocks) (hoffset : offset < cfg.blockSize) :
    (tokenBlock cfg.blockSize prefill.numPromptTokens i offset).isSome := by
  have hsplit := @prompt_split cfg prefill
  have hmul : (i + 1) * cfg.blockSize ≤ prefill.numFullBlocks * cfg.blockSize := Nat.mul_le_mul_right _ hi
  rw [Nat.add_mul, Nat.one_mul] at hmul
  unfold tokenBlock
  rw [if_pos ⟨hoffset, by omega⟩]
  rfl

theorem isSome_tokenBlock_last {offset : Nat} :
    (tokenBlock cfg.blockSize prefill.numPromptTokens prefill.numFullBlocks offset).isSome ↔
      offset < prefill.numPromptTokens % cfg.blockSize := by
  have hmod := Nat.mod_lt prefill.numPromptTokens cfg.blockSize_pos
  have hsplit := @prompt_split cfg prefill
  unfold tokenBlock
  split <;> simp <;> omega

/-- The blocks that the scheduler keeps follow each other in the prompt. -/
theorem cache_getElem {table : List Nat} (h : prefill.reqToBlocks = some table) (halign : prefill.Aligned)
    {j id : Nat} (hid : table[j]? = some id) :
    prefill.cache id = tokenBlock cfg.blockSize prefill.numPromptTokens (prefill.numDropped + j) := by
  obtain ⟨hnodup, numReturned, newBlocks, hreturned, hnew, htable, hlength⟩ := reqToBlocks_eq h
  have hdropped := @numDropped_le cfg prefill
  have hids := @length_vllmBlockIds cfg prefill
  have hjlt : j < table.length := (List.getElem?_eq_some_iff.mp hid).1
  by_cases hmod : prefill.numPromptTokens % cfg.blockSize = 0
  · have hzero : prefill.numDropped = 0 := halign.resolve_left (not_not_intro hmod)
    rw [if_pos hmod] at hids
    have hnone : numReturned = 0 := by omega
    rw [hnone, List.drop_zero] at htable
    rw [hzero, Nat.zero_add]
    by_cases hj : j < prefill.vllmBlockIds.length
    · rw [htable, List.getElem?_append_left hj] at hid
      exact prefill.prefilled j id hid
    · have hmem : id ∈ prefill.pool := by
        rw [htable, List.getElem?_append_right (by omega), hnew, hnone, List.take_zero, List.append_nil] at hid
        exact List.mem_of_mem_take (List.mem_of_getElem? hid)
      have hsplit := @prompt_split cfg prefill
      have hjeq : j = prefill.numFullBlocks := by omega
      funext offset
      rw [prefill.blank id hmem offset, hjeq]
      unfold tokenBlock
      rw [if_neg (by omega)]
  · rw [if_neg hmod] at hids
    have hdrop : numReturned = prefill.numDropped := by omega
    have hnil : newBlocks = [] := by
      rw [hnew]
      exact List.take_eq_nil_iff.mpr (Or.inl (by omega))
    rw [htable, hnil, List.append_nil, List.getElem?_drop, hdrop] at hid
    exact prefill.prefilled _ id hid

theorem steady_cache {table : List Nat} (h : prefill.reqToBlocks = some table) (halign : prefill.Aligned) (id : Nat) :
    prefill.Steady table id (prefill.cache id) := by
  intro j hj
  have hdropped := @numDropped_le cfg prefill
  rw [cache_getElem h halign hj]
  refine ⟨fun hlt offset hoffset => isSome_tokenBlock (by omega) hoffset, fun heq => ?_⟩
  rw [heq, Nat.add_sub_cancel' hdropped]

/-- Blocks of the prompt in a row are steady where the last block of the table gets the last one. -/
theorem steady_zip {table : List Nat} {a b k : Nat} (hnodup : table.Nodup)
    (h : ∀ i < k, (a + i < prefill.numFullBlocks - prefill.numDropped → b + i < prefill.numFullBlocks) ∧
      (a + i = prefill.numFullBlocks - prefill.numDropped → b + i = prefill.numFullBlocks)) :
    ∀ copy ∈ (slice table a (a + k)).zip
        ((List.range k).map fun j => tokenBlock cfg.blockSize prefill.numPromptTokens (b + j)),
      prefill.Steady table copy.1 copy.2 := by
  rintro ⟨id, content⟩ hmem j hj
  obtain ⟨i, hi⟩ := List.mem_iff_getElem?.mp hmem
  obtain ⟨hid, hcontent⟩ := List.getElem?_zip_eq_some.mp hi
  rw [List.getElem?_map, Option.map_eq_some_iff] at hcontent
  obtain ⟨i', hi', rfl⟩ := hcontent
  obtain ⟨hlt, rfl⟩ := List.getElem?_eq_some_iff.mp hi'
  rw [List.length_range] at hlt
  rw [List.getElem_range]
  rw [getElem?_slice, if_pos (by omega)] at hid
  have hji : j = a + i := (List.getElem?_inj (List.getElem?_eq_some_iff.mp hj).1 hnodup).mp (hj.trans hid.symm)
  obtain ⟨hfull, hlast⟩ := h i hlt
  refine ⟨fun hjlt offset hoffset => isSome_tokenBlock (hfull (by omega)) hoffset, fun heq => ?_⟩
  rw [hlast (by omega)]

theorem new_token_slot :
    ((prefill.numFullBlocks - prefill.numDropped) * cfg.blockSize + prefill.numPromptTokens % cfg.blockSize + 1 - 1) /
        cfg.blockSize = prefill.numFullBlocks - prefill.numDropped ∧
      ((prefill.numFullBlocks - prefill.numDropped) * cfg.blockSize + prefill.numPromptTokens % cfg.blockSize + 1 - 1) %
        cfg.blockSize = prefill.numPromptTokens % cfg.blockSize := by
  have hblock := cfg.blockSize_pos
  have hmod := Nat.mod_lt prefill.numPromptTokens hblock
  rw [Nat.add_sub_cancel, Nat.mul_comm, Nat.mul_add_div hblock, Nat.mul_add_mod, Nat.div_eq_of_lt hmod, Nat.mod_mod]
  exact ⟨rfl, rfl⟩

theorem sum_filled_of_full {ids : List Nat} {cache : Nat → Content}
    (h : ∀ id ∈ ids, ∀ offset < cfg.blockSize, (cache id offset).isSome) :
    (ids.map fun id => filled cfg.blockSize (cache id)).sum = ids.length * cfg.blockSize := by
  induction ids with
  | nil => simp
  | cons id ids ih =>
    obtain ⟨hid, hids⟩ := List.forall_mem_cons.mp h
    have hfilled : filled cfg.blockSize (cache id) = cfg.blockSize :=
      filled_eq le_rfl fun offset hoffset => ⟨fun _ => hoffset, fun _ => hid offset hoffset⟩
    rw [List.map_cons, List.sum_cons, ih hids, hfilled, List.length_cons, Nat.add_mul, Nat.one_mul, Nat.add_comm]

/-- A steady cache has the new token where it belongs and as many slots filled as are read. -/
theorem kept_of_steady {table : List Nat} {cache : Nat → Content} (h : prefill.reqToBlocks = some table)
    (halign : prefill.Aligned) (hsteady : ∀ id, prefill.Steady table id (cache id)) :
    prefill.Kept ((prefill.numFullBlocks - prefill.numDropped) * cfg.blockSize +
      prefill.numPromptTokens % cfg.blockSize + 1) table table cache := by
  obtain ⟨hnodup, numReturned, newBlocks, -, -, htable, hlength⟩ := reqToBlocks_eq h
  obtain ⟨hindex, hoffset⟩ := @new_token_slot cfg prefill
  have hmod := Nat.mod_lt prefill.numPromptTokens cfg.blockSize_pos
  set n := prefill.numFullBlocks - prefill.numDropped
  have hlast : table[n]? = some table[n] := List.getElem?_eq_getElem (by omega)
  have hnone : ∀ content : Content,
      content = tokenBlock cfg.blockSize prefill.numPromptTokens prefill.numFullBlocks →
        content (prefill.numPromptTokens % cfg.blockSize) = none := by
    rintro content rfl
    rw [← Option.not_isSome_iff_eq_none, isSome_tokenBlock_last]
    exact lt_irrefl _
  have hcontent := (hsteady table[n] n hlast).2 rfl
  constructor
  · rfl
  · refine ⟨numReturned, newBlocks, htable, fun id hid hmem => ?_⟩
    rw [htable] at hnodup
    exact (List.nodup_append.mp hnodup).2.2 id hmem id hid rfl
  · rw [hindex, hoffset]
    exact ⟨table[n], hlast, hnone _ ((steady_cache h halign table[n] n hlast).2 rfl), hnone _ hcontent⟩
  · have hsplit : table = table.take n ++ [table[n]] := by
      conv_lhs => rw [← List.take_append_drop n table, List.drop_eq_getElem_cons (by omega : n < table.length)]
      rw [List.drop_eq_nil_of_le (by omega)]
    have hstore : prefill.storeNewToken (n * cfg.blockSize + prefill.numPromptTokens % cfg.blockSize + 1) table cache =
        Function.update cache table[n] (Function.update (cache table[n]) (prefill.numPromptTokens % cfg.blockSize)
          (some prefill.numPromptTokens)) := by
      unfold storeNewToken
      rw [hindex, hoffset, hlast]
    have hfirst : ∀ id ∈ table.take n, ∀ offset < cfg.blockSize,
        (prefill.storeNewToken (n * cfg.blockSize + prefill.numPromptTokens % cfg.blockSize + 1) table cache id
          offset).isSome := by
      intro id hid offset hoffsetLt
      obtain ⟨j, hj⟩ := List.mem_iff_getElem?.mp hid
      rw [List.getElem?_take] at hj
      split_ifs at hj with hjn
      have hne : id ≠ table[n] := by
        intro heq
        have hjeq := (List.getElem?_inj (by omega) hnodup).mp (hj.trans (heq ▸ hlast.symm))
        omega
      rw [hstore, Function.update_of_ne hne]
      exact (hsteady id j hj).1 hjn offset hoffsetLt
    have hfilled : filled cfg.blockSize
        (prefill.storeNewToken (n * cfg.blockSize + prefill.numPromptTokens % cfg.blockSize + 1) table cache table[n]) =
          prefill.numPromptTokens % cfg.blockSize + 1 := by
      rw [hstore, Function.update_self]
      refine filled_eq hmod fun offset _ => ?_
      by_cases heq : offset = prefill.numPromptTokens % cfg.blockSize
      · rw [heq, Function.update_self]
        simp
      · rw [Function.update_of_ne heq, hcontent, isSome_tokenBlock_last]
        omega
    have hsum : (table.map fun id => filled cfg.blockSize
        (prefill.storeNewToken (n * cfg.blockSize + prefill.numPromptTokens % cfg.blockSize + 1) table cache id)).sum =
          n * cfg.blockSize + (prefill.numPromptTokens % cfg.blockSize + 1) := by
      conv_lhs =>
        arg 1
        arg 2
        rw [hsplit]
      rw [List.map_append, List.sum_append, sum_filled_of_full hfirst, List.length_take, List.map_singleton,
        List.sum_singleton, hfilled, Nat.min_eq_left (by omega)]
    rw [hsum]
    rfl

theorem computeBlockRepre_eq :
    (prefill.Prepared → cfg.computeBlockRepre prefill.numPromptTokens prefill.vllmBlockIds =
        some (if cfg.localWindowSz = 0 then 0 else prefill.numFullBlocks - cfg.localWindowSz - cfg.initWindowSz)) ∧
      (¬ prefill.Prepared → cfg.computeBlockRepre prefill.numPromptTokens prefill.vllmBlockIds = none) := by
  have hblock := cfg.blockSize_pos
  have hids := @length_vllmBlockIds cfg prefill
  have hle : prefill.numFullBlocks ≤ prefill.vllmBlockIds.length := by
    rw [hids]
    split <;> omega
  have hsmall : prefill.numPromptTokens ≤ cfg.blockSize → prefill.numFullBlocks ≤ 1 := fun h =>
    (Nat.div_le_div_right h).trans_eq (Nat.div_self hblock)
  have hfold : prefill.numPromptTokens / cfg.blockSize = prefill.numFullBlocks := rfl
  have hlength : (prefill.vllmBlockIds.take prefill.numFullBlocks).length = prefill.numFullBlocks := by
    rw [List.length_take, Nat.min_eq_left hle]
  have hlast : 0 < prefill.numFullBlocks → (prefill.vllmBlockIds.take prefill.numFullBlocks).getLast? =
      prefill.vllmBlockIds[prefill.numFullBlocks - 1]? := by
    intro hpos
    rw [List.getLast?_eq_getElem?, hlength, List.getElem?_take, if_pos (by omega)]
  unfold KvstarConfig.computeBlockRepre
  simp only [hfold, hlength]
  constructor
  · rintro ⟨htwo, hid⟩
    have hany : (prefill.vllmBlockIds.take prefill.numFullBlocks).getLast?.any (· < 2) = false := by
      rw [hlast (by omega)]
      cases hget : prefill.vllmBlockIds[prefill.numFullBlocks - 1]? with
      | none => rfl
      | some id =>
        rw [Option.any_some, decide_eq_false_iff_not]
        exact Nat.not_lt.mpr (hid id hget)
    have hslice : (intSlice (prefill.vllmBlockIds.take prefill.numFullBlocks) cfg.initWindowSz
        (-cfg.localWindowSz)).length =
          if cfg.localWindowSz = 0 then 0 else prefill.numFullBlocks - cfg.localWindowSz - cfg.initWindowSz := by
      have hstart : intSlice.bound (prefill.vllmBlockIds.take prefill.numFullBlocks) cfg.initWindowSz =
          cfg.initWindowSz := if_neg (by omega)
      have hstop : intSlice.bound (prefill.vllmBlockIds.take prefill.numFullBlocks) (-cfg.localWindowSz) =
          if cfg.localWindowSz = 0 then 0 else prefill.numFullBlocks - cfg.localWindowSz := by
        unfold intSlice.bound
        rw [hlength]
        split_ifs <;> omega
      unfold intSlice
      rw [hstart, hstop]
      split
      · rw [slice_eq_nil (Nat.zero_le _)]
        rfl
      · rw [length_slice (by omega)]
    rw [if_neg (fun h => by have := hsmall h; omega), hany, if_neg (by decide), if_neg (by omega), hslice]
  · intro hno
    split_ifs with hone hany htwo
    · rfl
    · rfl
    · rfl
    · refine absurd ⟨by omega, fun id hid => ?_⟩ hno
      rw [hlast (by omega), hid, Option.any_some, decide_eq_true_iff] at hany
      omega

/-- The windows as the worker reads them at the end of the prefill. -/
theorem constructWindows_eq :
    cfg.constructInitAndLocalWindow prefill.vllmBlockIds prefill.cache =
      { initWindow := (List.range (min cfg.initWindowSz prefill.vllmBlockIds.length)).map fun j =>
          tokenBlock cfg.blockSize prefill.numPromptTokens (0 + j)
        localWindow :=
          if min cfg.localWindowSz (prefill.vllmBlockIds.length - cfg.initWindowSz) > 0 then
            some ((List.range (min cfg.localWindowSz (prefill.vllmBlockIds.length - cfg.initWindowSz))).map fun j =>
              tokenBlock cfg.blockSize prefill.numPromptTokens (prefill.vllmBlockIds.length -
                min cfg.localWindowSz (prefill.vllmBlockIds.length - cfg.initWindowSz) + j))
          else none } := by
  have hinit : prefill.vllmBlockIds.take cfg.initWindowSz =
      slice prefill.vllmBlockIds 0 (min cfg.initWindowSz prefill.vllmBlockIds.length) := by
    rw [slice_zero, List.take_eq_take_min]
  unfold KvstarConfig.constructInitAndLocalWindow
  simp only [List.length_drop]
  rw [hinit, map_slice_of_prefilled prefill.prefilled (Nat.min_le_right _ _), Nat.sub_zero]
  split
  · rename_i hpos
    rw [intSlice_neg hpos, map_slice_of_prefilled prefill.prefilled le_rfl, Nat.sub_sub_self (by omega)]
  · rfl

/-- The room behind the retrieved blocks, and what a place in the table needs. -/
theorem place_cases {i : Nat} (hi : i < cfg.initWindowSz) :
    (i < prefill.numFullBlocks - prefill.numDropped → i < prefill.numFullBlocks) ∧
      (i = prefill.numFullBlocks - prefill.numDropped → i = prefill.numFullBlocks) := by
  obtain ⟨hle, heq⟩ | ⟨hlt, hzero⟩ := @numDropped_cases cfg prefill <;> omega

theorem steady_initWindow {table : List Nat} (h : prefill.reqToBlocks = some table) (halign : prefill.Aligned)
    (hfit : prefill.WindowsFit) :
    ∃ copies, indexPut (table.take cfg.initWindowSz)
        ((List.range (min cfg.initWindowSz prefill.vllmBlockIds.length)).map fun j =>
          tokenBlock cfg.blockSize prefill.numPromptTokens (0 + j)) = some copies ∧
      ∀ id, prefill.Steady table id (put prefill.cache copies id) := by
  obtain ⟨hnodup, -, -, -, -, -, hlength⟩ := reqToBlocks_eq h
  have hids := @length_vllmBlockIds cfg prefill
  have hdropped := @numDropped_le cfg prefill
  have hsame : min cfg.initWindowSz prefill.vllmBlockIds.length = min cfg.initWindowSz table.length := by
    unfold WindowsFit at hfit
    rw [hids, hlength]
    obtain ⟨hle, heq⟩ | ⟨hlt, hzero⟩ := @numDropped_cases cfg prefill <;> split_ifs at hfit ⊢ <;> omega
  have htake : table.take cfg.initWindowSz = slice table 0 (0 + min cfg.initWindowSz table.length) := by
    rw [Nat.zero_add, slice_zero, ← List.take_eq_take_min]
  rw [htake, hsame, indexPut_of_length (by
    rw [List.length_map, List.length_range, length_slice (by rw [Nat.zero_add]; exact Nat.min_le_right _ _)]
    omega)]
  refine ⟨_, rfl, put_induction (steady_cache h halign) (steady_zip hnodup fun i hi => ?_)⟩
  rw [Nat.zero_add]
  exact place_cases (by omega)

theorem steady_localWindow {table : List Nat} {cache : Nat → Content} (h : prefill.reqToBlocks = some table)
    (hfit : prefill.WindowsFit) (hsteady : ∀ id, prefill.Steady table id (cache id))
    (hpos : 0 < min cfg.localWindowSz (prefill.vllmBlockIds.length - cfg.initWindowSz)) :
    ∃ copies, indexPut (intSlice table (-cfg.localWindowSz) table.length)
        ((List.range (min cfg.localWindowSz (prefill.vllmBlockIds.length - cfg.initWindowSz))).map fun j =>
          tokenBlock cfg.blockSize prefill.numPromptTokens (prefill.vllmBlockIds.length -
            min cfg.localWindowSz (prefill.vllmBlockIds.length - cfg.initWindowSz) + j)) = some copies ∧
      ∀ id, prefill.Steady table id (put cache copies id) := by
  obtain ⟨hnodup, -, -, -, -, -, hlength⟩ := reqToBlocks_eq h
  have hids := @length_vllmBlockIds cfg prefill
  have hdropped := @numDropped_le cfg prefill
  have hmod : prefill.numPromptTokens % cfg.blockSize ≠ 0 := by
    intro hmod
    unfold WindowsFit at hfit
    rw [if_pos hmod] at hfit hids
    omega
  unfold WindowsFit at hfit
  rw [if_neg hmod] at hfit hids
  set size := min cfg.localWindowSz (prefill.vllmBlockIds.length - cfg.initWindowSz) with hsize
  have hsame : size = min cfg.localWindowSz table.length := by
    obtain ⟨hle, heq⟩ | ⟨hlt, hzero⟩ := @numDropped_cases cfg prefill <;> omega
  have hslice : intSlice table (-cfg.localWindowSz) table.length =
      slice table (table.length - size) (table.length - size + size) := by
    rw [intSlice_neg (by omega), Nat.sub_add_cancel (by omega)]
    congr 1
    omega
  rw [hslice, indexPut_of_length (by
    rw [List.length_map, List.length_range, length_slice (by omega)]
    omega)]
  exact ⟨_, rfl, put_induction hsteady (steady_zip hnodup fun i hi => by omega)⟩

theorem steady_prepare {table : List Nat} (h : prefill.reqToBlocks = some table) (halign : prefill.Aligned)
    (hfit : prefill.WindowsFit) :
    ∃ cache, cfg.prepareInitAndLocalWindow (cfg.constructInitAndLocalWindow prefill.vllmBlockIds prefill.cache)
        table prefill.cache = some cache ∧ ∀ id, prefill.Steady table id (cache id) := by
  obtain ⟨initCopies, hinit, hsteady⟩ := steady_initWindow h halign hfit
  unfold KvstarConfig.prepareInitAndLocalWindow
  rw [constructWindows_eq]
  simp only [hinit, Option.bind_eq_bind, Option.bind_some]
  by_cases hpos : min cfg.localWindowSz (prefill.vllmBlockIds.length - cfg.initWindowSz) > 0
  · obtain ⟨localCopies, hlocal, hsteady'⟩ := steady_localWindow h hfit hsteady hpos
    rw [if_pos hpos]
    simp only [hlocal, Option.bind_some]
    exact ⟨_, rfl, hsteady'⟩
  · rw [if_neg hpos]
    exact ⟨_, rfl, hsteady⟩

/-- The retrieved blocks are full ones and stay off the last block of the table. -/
theorem steady_loads {table : List Nat} {loads : List (Nat × LoadEnd)} (h : prefill.reqToBlocks = some table)
    (hprepared : prefill.Prepared)
    (hloads : cfg.Retrievable (cfg.computeBlockRepre prefill.numPromptTokens prefill.vllmBlockIds) loads) :
    ∀ copy ∈ cfg.loadRetrieveResult prefill.numPromptTokens (cfg.getRetrieveCandidateBlockIds
        (if cfg.localWindowSz = 0 then 0 else prefill.numFullBlocks - cfg.localWindowSz - cfg.initWindowSz) table) loads,
      prefill.Steady table copy.1 copy.2 := by
  obtain ⟨hnodup, -, -, -, -, -, hlength⟩ := reqToBlocks_eq h
  rw [computeBlockRepre_eq.1 hprepared] at hloads
  rintro copy hcopy j hj
  obtain ⟨⟨id, block, loadEnd⟩, hmem, hsome⟩ := List.mem_filterMap.mp hcopy
  dsimp only at hsome
  split_ifs at hsome with hends
  cases hsome
  obtain ⟨i, hi⟩ := List.mem_iff_getElem?.mp hmem
  obtain ⟨hid, hload⟩ := List.getElem?_zip_eq_some.mp hi
  have hblock := hloads _ (List.mem_of_getElem? hload)
  have hle := cfg.ceilSparse_le (prefill.numFullBlocks - cfg.localWindowSz - cfg.initWindowSz)
  have hnone := cfg.ceilSparse_le 0
  unfold KvstarConfig.getRetrieveCandidateBlockIds at hid
  rw [getElem?_slice, Nat.add_sub_cancel] at hid
  simp only [Option.getD_some] at hblock
  by_cases hzero : cfg.localWindowSz = 0
  · rw [if_pos hzero] at hblock
    omega
  rw [if_neg hzero] at hid hblock
  split_ifs at hid with hi'
  have hji : j = cfg.initWindowSz + i := (List.getElem?_inj (List.getElem?_eq_some_iff.mp hj).1 hnodup).mp (hj.trans hid.symm)
  refine ⟨fun _ offset hoffset => isSome_tokenBlock (by omega) hoffset, fun heq => ?_⟩
  have hsub : prefill.numFullBlocks - cfg.localWindowSz - cfg.initWindowSz =
      prefill.numFullBlocks - (cfg.initWindowSz + cfg.localWindowSz) := by omega
  rw [hsub] at hi' hle
  obtain ⟨hwindows, hall⟩ | ⟨hlt, -⟩ := @numDropped_cases cfg prefill <;> omega

theorem sum_filled_le (ids : List Nat) (cache : Nat → Content) :
    (ids.map fun id => filled cfg.blockSize (cache id)).sum ≤ ids.length * cfg.blockSize := by
  induction ids with
  | nil => simp
  | cons id ids ih =>
    have hfilled := @filled_le cfg.blockSize (cache id)
    rw [List.map_cons, List.sum_cons, List.length_cons, Nat.add_mul, Nat.one_mul]
    omega

theorem indexPut_keys {ids : List Nat} {values : List Content} {copies : List (Nat × Content)}
    (h : indexPut ids values = some copies) : copies.map Prod.fst = ids := by
  unfold indexPut at h
  split_ifs at h with hlength
  · cases h
    rw [List.map_fst_zip hlength.ge]
  · split at h
    · cases h
      rw [List.map_map]
      exact List.map_id _
    · cases h

theorem indexPut_last {ids : List Nat} {values : List Content} {copies : List (Nat × Content)} {id : Nat}
    {value : Content} (h : indexPut ids values = some copies) (hid : ids.getLast? = some id)
    (hvalue : values.getLast? = some value) : (id, value) ∈ copies := by
  unfold indexPut at h
  split_ifs at h with hlength
  · cases h
    rw [List.getLast?_eq_getElem?] at hid hvalue
    rw [hlength] at hvalue
    exact List.mem_of_getElem? (List.getElem?_zip_eq_some.mpr ⟨hid, hvalue⟩)
  · split at h
    · cases h
      cases hvalue
      exact List.mem_map.mpr ⟨id, List.mem_of_getLast? hid, rfl⟩
    · cases h

theorem indexPut_broadcast {ids : List Nat} {values : List Content} {copies : List (Nat × Content)} {value : Content}
    (h : indexPut ids values = some copies) (hne : values.length ≠ ids.length)
    (hvalue : values.getLast? = some value) : ∀ id ∈ ids, (id, value) ∈ copies := by
  unfold indexPut at h
  rw [if_neg hne] at h
  split at h
  · cases h
    cases hvalue
    exact fun id hid => List.mem_map.mpr ⟨id, hid, rfl⟩
  · cases h

/-- The copies of a step that comes through with a local window. -/
theorem attentionBegin_some {table : List Nat} {cache : Nat → Content} (hprepared : prefill.Prepared)
    (h : cfg.attentionBegin prefill.numPromptTokens
      (cfg.constructInitAndLocalWindow prefill.vllmBlockIds prefill.cache)
      (cfg.computeBlockRepre prefill.numPromptTokens prefill.vllmBlockIds) table [] prefill.cache = some cache) :
    ∃ initCopies, indexPut (table.take cfg.initWindowSz)
        ((List.range (min cfg.initWindowSz prefill.vllmBlockIds.length)).map fun j =>
          tokenBlock cfg.blockSize prefill.numPromptTokens (0 + j)) = some initCopies ∧
      (0 < min cfg.localWindowSz (prefill.vllmBlockIds.length - cfg.initWindowSz) → ∃ localCopies,
        indexPut (intSlice table (-cfg.localWindowSz) table.length)
          ((List.range (min cfg.localWindowSz (prefill.vllmBlockIds.length - cfg.initWindowSz))).map fun j =>
            tokenBlock cfg.blockSize prefill.numPromptTokens (prefill.vllmBlockIds.length -
              min cfg.localWindowSz (prefill.vllmBlockIds.length - cfg.initWindowSz) + j)) = some localCopies ∧
        cache = put (put prefill.cache initCopies) localCopies) := by
  rw [computeBlockRepre_eq.1 hprepared, constructWindows_eq] at h
  unfold KvstarConfig.attentionBegin KvstarConfig.prepareInitAndLocalWindow KvstarConfig.loadRetrieveResult at h
  simp only [List.zip_nil_right, List.filterMap_nil, Option.bind_eq_bind] at h
  obtain ⟨prepared, hprepare, hcache⟩ := Option.bind_eq_some_iff.mp h
  obtain ⟨initCopies, hinit, hlocal⟩ := Option.bind_eq_some_iff.mp hprepare
  refine ⟨initCopies, hinit, fun hpos => ?_⟩
  rw [if_pos hpos] at hlocal
  obtain ⟨localCopies, hput, hsome⟩ := Option.bind_eq_some_iff.mp hlocal
  cases hsome
  cases hcache
  exact ⟨localCopies, hput, rfl⟩

theorem getLast?_map_range {k : Nat} (f : Nat → Content) (h : 0 < k) :
    ((List.range k).map f).getLast? = some (f (k - 1)) := by
  rw [List.getLast?_eq_getElem?, List.length_map, List.length_range, List.getElem?_map,
    List.getElem?_range (by omega), Option.map_some]

/-- At the end of a block the new token would go to the first slot of the last full block. -/
theorem aligned_of_kept {table : List Nat} {cache : Nat → Content} (h : prefill.reqToBlocks = some table)
    (hkept : prefill.Kept ((prefill.numFullBlocks - prefill.numDropped) * cfg.blockSize +
      prefill.numPromptTokens % cfg.blockSize + 1) table table cache) : prefill.Aligned := by
  by_contra hno
  simp only [Aligned, not_or, not_not] at hno
  obtain ⟨hmod, hne⟩ := hno
  have hblock := cfg.blockSize_pos
  have hdropped := @numDropped_le cfg prefill
  have hids := @length_vllmBlockIds cfg prefill
  rw [if_pos hmod] at hids
  obtain ⟨-, numReturned, newBlocks, hreturned, -, htable, hlength⟩ := reqToBlocks_eq h
  obtain ⟨id, hid, hnone, -⟩ := hkept.new_token
  obtain ⟨hindex, hoffset⟩ := @new_token_slot cfg prefill
  rw [hindex, htable, List.getElem?_append_left (by rw [List.length_drop]; omega), List.getElem?_drop] at hid
  rw [hoffset, hmod, prefill.prefilled _ id hid, ← Option.not_isSome_iff_eq_none] at hnone
  exact hnone (isSome_tokenBlock (by omega) hblock)

/-- A local window that is written where the prompt ends at a block covers the new token's slot. -/
theorem fit_of_full {table : List Nat} {cache : Nat → Content} (h : prefill.reqToBlocks = some table)
    (hzero : prefill.numDropped = 0) (hprepared : prefill.Prepared)
    (hmod : prefill.numPromptTokens % cfg.blockSize = 0)
    (hcache : cfg.attentionBegin prefill.numPromptTokens
      (cfg.constructInitAndLocalWindow prefill.vllmBlockIds prefill.cache)
      (cfg.computeBlockRepre prefill.numPromptTokens prefill.vllmBlockIds) table [] prefill.cache = some cache)
    (hkept : prefill.Kept ((prefill.numFullBlocks - prefill.numDropped) * cfg.blockSize +
      prefill.numPromptTokens % cfg.blockSize + 1) table table cache) : prefill.WindowsFit := by
  have hblock := cfg.blockSize_pos
  have htwo := hprepared.1
  have hids := @length_vllmBlockIds cfg prefill
  rw [if_pos hmod] at hids
  obtain ⟨hnodup, -, -, -, -, -, hlength⟩ := reqToBlocks_eq h
  obtain ⟨initCopies, hinit, hlocal⟩ := attentionBegin_some hprepared hcache
  unfold WindowsFit
  rw [if_pos hmod]
  have hinitLe : cfg.initWindowSz ≤ prefill.numFullBlocks := by
    by_contra hlt
    unfold indexPut at hinit
    rw [if_neg (by
      rw [List.length_map, List.length_range, List.length_take]
      omega)] at hinit
    split at hinit
    · rename_i value hvalue
      have hone := congrArg List.length hvalue
      rw [List.length_map, List.length_range, List.length_singleton] at hone
      omega
    · cases hinit
  refine ⟨hinitLe, ?_⟩
  by_contra hno
  push Not at hno
  have hpos : 0 < min cfg.localWindowSz (prefill.vllmBlockIds.length - cfg.initWindowSz) := by omega
  obtain ⟨localCopies, hput, rfl⟩ := hlocal hpos
  obtain ⟨id, hid, -, hnone⟩ := hkept.new_token
  obtain ⟨hindex, hoffset⟩ := @new_token_slot cfg prefill
  rw [hindex] at hid
  rw [hoffset, hmod] at hnone
  have hlast : (intSlice table (-cfg.localWindowSz) table.length).getLast? = some id := by
    rw [intSlice_neg (by omega), slice_length, List.getLast?_drop, if_neg (by omega), List.getLast?_eq_getElem?, hlength,
      Nat.add_sub_cancel]
    exact hid
  have hkeys : (localCopies.map Prod.fst).Nodup := by
    rw [indexPut_keys hput]
    exact hnodup.sublist slice_sublist
  rw [put_of_mem hkeys (indexPut_last hput hlast (getLast?_map_range _ hpos)), ← Option.not_isSome_iff_eq_none] at hnone
  exact hnone (isSome_tokenBlock (by omega) hblock)

/-- A local window with too few blocks is broadcast, which leaves two blocks with what the prompt
has left over. -/
theorem fit_of_rest {table : List Nat} {cache : Nat → Content} (h : prefill.reqToBlocks = some table)
    (hprepared : prefill.Prepared) (hmod : prefill.numPromptTokens % cfg.blockSize ≠ 0)
    (hcache : cfg.attentionBegin prefill.numPromptTokens
      (cfg.constructInitAndLocalWindow prefill.vllmBlockIds prefill.cache)
      (cfg.computeBlockRepre prefill.numPromptTokens prefill.vllmBlockIds) table [] prefill.cache = some cache)
    (hkept : prefill.Kept ((prefill.numFullBlocks - prefill.numDropped) * cfg.blockSize +
      prefill.numPromptTokens % cfg.blockSize + 1) table table cache) : prefill.WindowsFit := by
  have hids := @length_vllmBlockIds cfg prefill
  rw [if_neg hmod] at hids
  obtain ⟨hnodup, -, -, -, -, -, hlength⟩ := reqToBlocks_eq h
  obtain ⟨initCopies, hinit, hlocal⟩ := attentionBegin_some hprepared hcache
  unfold WindowsFit
  rw [if_neg hmod]
  by_contra hno
  push Not at hno
  obtain ⟨hlocalPos, hinitPos, hinitLe, hover⟩ := hno
  obtain ⟨hle, -⟩ | ⟨-, hzero⟩ := @numDropped_cases cfg prefill
  · omega
  have hpos : 0 < min cfg.localWindowSz (prefill.vllmBlockIds.length - cfg.initWindowSz) := by omega
  obtain ⟨localCopies, hput, rfl⟩ := hlocal hpos
  have htarget : (intSlice table (-cfg.localWindowSz) table.length).length = min cfg.localWindowSz table.length := by
    rw [intSlice_neg (by omega), length_slice le_rfl]
    omega
  have hkeys : (localCopies.map Prod.fst).Nodup := by
    rw [indexPut_keys hput]
    exact hnodup.sublist slice_sublist
  have hne : ((List.range (min cfg.localWindowSz (prefill.vllmBlockIds.length - cfg.initWindowSz))).map fun j =>
      tokenBlock cfg.blockSize prefill.numPromptTokens (prefill.vllmBlockIds.length -
        min cfg.localWindowSz (prefill.vllmBlockIds.length - cfg.initWindowSz) + j)).length ≠
          (intSlice table (-cfg.localWindowSz) table.length).length := by
    rw [List.length_map, List.length_range, htarget]
    omega
  have hall := indexPut_broadcast hput hne (getLast?_map_range _ hpos)
  -- the last block but one
  have hone := Nat.le_add_left 1 prefill.numFullBlocks
  have hidx : table[prefill.numFullBlocks - 1]? = some table[prefill.numFullBlocks - 1] :=
    List.getElem?_eq_getElem (by omega)
  set id := table[prefill.numFullBlocks - 1]
  have hmem : id ∈ intSlice table (-cfg.localWindowSz) table.length := by
    rw [intSlice_neg (by omega), slice_length]
    refine List.mem_of_getElem? (i := prefill.numFullBlocks - 1 - (table.length - cfg.localWindowSz)) ?_
    rw [List.getElem?_drop, Nat.add_sub_cancel' (by omega)]
    exact hidx
  have hcontent := @put_of_mem (put prefill.cache initCopies) localCopies _ id hkeys (hall _ hmem)
  have hlastBlock : prefill.vllmBlockIds.length - min cfg.localWindowSz (prefill.vllmBlockIds.length - cfg.initWindowSz) +
      (min cfg.localWindowSz (prefill.vllmBlockIds.length - cfg.initWindowSz) - 1) = prefill.numFullBlocks := by omega
  rw [hlastBlock] at hcontent
  set cache := put (put prefill.cache initCopies) localCopies
  obtain ⟨newId, hnewId, -, -⟩ := hkept.new_token
  obtain ⟨hindex, hoffset⟩ := @new_token_slot cfg prefill
  have hstore : prefill.storeNewToken ((prefill.numFullBlocks - prefill.numDropped) * cfg.blockSize +
      prefill.numPromptTokens % cfg.blockSize + 1) table cache id = cache id := by
    have hne : id ≠ newId := by
      intro heq
      rw [hindex, ← heq] at hnewId
      have hjeq := (List.getElem?_inj (by omega) hnodup).mp (hidx.trans hnewId.symm)
      omega
    unfold storeNewToken
    rw [hnewId]
    exact Function.update_of_ne hne _ _
  have hfilled : filled cfg.blockSize (cache id) = prefill.numPromptTokens % cfg.blockSize := by
    rw [hcontent]
    exact filled_eq (Nat.mod_lt _ cfg.blockSize_pos).le fun offset _ => isSome_tokenBlock_last
  obtain ⟨before, after, htable⟩ := List.append_of_mem (List.mem_of_getElem? hidx)
  have hlengths : before.length + after.length = prefill.numFullBlocks := by
    rw [htable, List.length_append, List.length_cons] at hlength
    omega
  have hsum := hkept.seq_len
  have hbefore := @sum_filled_le cfg before (prefill.storeNewToken ((prefill.numFullBlocks - prefill.numDropped) *
    cfg.blockSize + prefill.numPromptTokens % cfg.blockSize + 1) table cache)
  have hafter := @sum_filled_le cfg after (prefill.storeNewToken ((prefill.numFullBlocks - prefill.numDropped) *
    cfg.blockSize + prefill.numPromptTokens % cfg.blockSize + 1) table cache)
  have hsplit : (table.map fun id' => filled cfg.blockSize (prefill.storeNewToken
      ((prefill.numFullBlocks - prefill.numDropped) * cfg.blockSize + prefill.numPromptTokens % cfg.blockSize + 1) table
        cache id')).sum =
      (before.map fun id' => filled cfg.blockSize (prefill.storeNewToken
        ((prefill.numFullBlocks - prefill.numDropped) * cfg.blockSize + prefill.numPromptTokens % cfg.blockSize + 1) table
          cache id')).sum + (prefill.numPromptTokens % cfg.blockSize +
      (after.map fun id' => filled cfg.blockSize (prefill.storeNewToken
        ((prefill.numFullBlocks - prefill.numDropped) * cfg.blockSize + prefill.numPromptTokens % cfg.blockSize + 1) table
          cache id')).sum) := by
    conv_lhs =>
      arg 1
      arg 2
      rw [htable]
    rw [List.map_append, List.sum_append, List.map_cons, List.sum_cons, hstore, hfilled]
  have hmul := congrArg (· * cfg.blockSize) hlengths
  simp only [Nat.add_mul] at hmul
  rw [hsplit] at hsum
  rw [hzero, Nat.sub_zero] at hsum hbefore hafter
  omega

end Sizes

/-- The layout of the first decode step is in order if the prompt does not end at a block, or none
of its blocks goes, and the windows fit where the worker moves them. -/
theorem keepsLayout_iff (h : prefill.reqToBlocks.isSome) :
    prefill.KeepsLayout ↔ prefill.Aligned ∧ (prefill.Prepared → prefill.WindowsFit) := by
  obtain ⟨table, htable⟩ := Option.isSome_iff_exists.mp h
  constructor
  · rintro ⟨numSlots, blocks, hslots, hblocks, hall⟩
    rw [estimate_eq] at hslots
    cases hslots
    rw [htable] at hblocks
    cases hblocks
    obtain ⟨cache, hcache, hkept⟩ := hall [] (fun load hload => by cases hload)
    have halign := aligned_of_kept htable hkept
    refine ⟨halign, fun hprepared => ?_⟩
    by_cases hmod : prefill.numPromptTokens % cfg.blockSize = 0
    · exact fit_of_full htable (halign.resolve_left (not_not_intro hmod)) hprepared hmod hcache hkept
    · exact fit_of_rest htable hprepared hmod hcache hkept
  · rintro ⟨halign, hfit⟩
    refine ⟨_, table, estimate_eq, htable, fun loads hloads => ?_⟩
    by_cases hprepared : prefill.Prepared
    · obtain ⟨cache, hprepare, hsteady⟩ := steady_prepare htable halign (hfit hprepared)
      have hput := put_induction hsteady (steady_loads htable hprepared hloads)
      refine ⟨_, ?_, kept_of_steady htable halign hput⟩
      rw [computeBlockRepre_eq.1 hprepared]
      unfold KvstarConfig.attentionBegin
      simp only [Option.bind_eq_bind]
      exact Option.bind_eq_some_iff.mpr ⟨cache, hprepare, rfl⟩
    · refine ⟨prefill.cache, ?_, kept_of_steady htable halign (steady_cache htable halign)⟩
      rw [computeBlockRepre_eq.2 hprepared]
      rfl

/-- The windows and the ratio of the user guide, with blocks of four slots. -/
def quarter : KvstarConfig where
  blockSize := 4
  blockSize_pos := Nat.succ_pos _
  initWindowSz := 1
  localWindowSz := 2
  retrievalStride := 8
  stride_pos := Nat.succ_pos _
  ceilSparse n := (n + 3) / 4
  ceilSparse_le n := by omega

/-- A prompt of some tokens in the blocks from two on, with as many blocks free. -/
def promptOf (numPromptTokens : Nat) : KvstarPrefill quarter where
  numPromptTokens := numPromptTokens
  vllmBlockIds := List.range' 2 (cdiv numPromptTokens 4)
  pool := List.range' (2 + cdiv numPromptTokens 4) (cdiv numPromptTokens 4)
  nodup := by
    rw [List.range'_append_1]
    exact List.nodup_range'
  length_eq := List.length_range'
  cache id := tokenBlock 4 numPromptTokens (id - 2)
  prefilled i id hid := by
    obtain ⟨hlt, rfl⟩ := List.getElem?_eq_some_iff.mp hid
    rw [List.getElem_range']
    simp [quarter]
  blank id hid offset := by
    have hge := (List.mem_range'_1.mp hid).1
    have hall : numPromptTokens ≤ cdiv numPromptTokens 4 * 4 := (cdiv_le_iff (by decide)).mp le_rfl
    unfold tokenBlock
    rw [if_neg (by omega)]

theorem keepsLayout_iff_quarter :
    (promptOf 30).KeepsLayout ↔ (promptOf 30).Aligned ∧ ((promptOf 30).Prepared → (promptOf 30).WindowsFit) :=
  keepsLayout_iff (promptOf 30) (by decide)

/-- A prompt of eight full blocks: the new token overwrites the first slot of the last one. -/
theorem not_keepsLayout : ¬ (promptOf 32).KeepsLayout := by
  rintro ⟨numSlots, blocks, hslots, hblocks, hall⟩
  rw [estimate_eq] at hslots
  cases hslots
  obtain ⟨cache, -, hkept⟩ := hall [] (fun load hload => by cases hload)
  have halign := aligned_of_kept hblocks hkept
  exact absurd halign (by unfold Aligned; decide)

end KvstarPrefill

end UnifiedCache.Sparse
