import UnifiedCache.Sparse.EsaBlocks
import UnifiedCache.Sparse.TokenBlocks

/-! The first decode step of a request under ESA: the slots that the scheduler estimates and the
blocks that the worker fills. -/

namespace UnifiedCache.Sparse

/-- `esa_cfg` with the block size. The windows fit in the shortest prompt that is sparsed. -/
structure EsaConfig where
  blockSize : Nat
  blockSize_pos : 0 < blockSize
  initWindowSz : Nat
  localWindowSz : Nat
  minBlocks : Nat
  windows_le : initWindowSz + localWindowSz ≤ minBlocks
  retrievalStride : Nat
  stride_pos : 0 < retrievalStride
  /-- `int(n * sparse_ratio)`, with a ratio between zero and one. -/
  intSparse : Int → Int
  intSparse_bounds : ∀ n, 0 ≤ n → 0 ≤ intSparse n ∧ intSparse n ≤ n

/-- `preemptReqOutputTokens` has the output tokens at the last preemption. -/
structure EsaRequest where
  numPromptTokens : Nat
  numOutputTokens : Nat
  numComputedTokens : Nat
  preemptReqOutputTokens : Option Nat

namespace EsaRequest

variable (cfg : EsaConfig) (request : EsaRequest)

def isSparsedRequest : Bool := cfg.blockSize * cfg.minBlocks ≤ request.numPromptTokens

/-- The output tokens since the last preemption. -/
def newOutputTokens : Int :=
  match request.preemptReqOutputTokens with
  | some preempted => (request.numOutputTokens : Int) - preempted
  | none => request.numOutputTokens

/-- `none` is `INVALID_SLOT`. -/
def estimateNumSlotsSparsed : Option Int :=
  if request.numComputedTokens = 0 ∨ request.newOutputTokens = 0 ∨ !request.isSparsedRequest cfg then none
  else
    let promptLen := request.numPromptTokens
    let sparseRange := getSparseRange cfg.initWindowSz cfg.localWindowSz promptLen cfg.blockSize
    let flaw := promptLen % cfg.blockSize
    let localWindowTokens : Int :=
      if flaw = 0 then cfg.blockSize * cfg.localWindowSz else flaw + cfg.blockSize * ((cfg.localWindowSz : Int) - 1)
    let compressedPromptLen := (cfg.initWindowSz : Int) * cfg.blockSize + cfg.intSparse sparseRange * cfg.blockSize +
      localWindowTokens
    some (compressedPromptLen + request.numOutputTokens)

/-- Freed blocks go to the end of the pool, the last one first. -/
def allocateSlots (blocks pool : List Nat) (numSlotsSparsed : Int) : Option (List Nat × List Nat) :=
  let numBlocks := ((numSlotsSparsed + cfg.blockSize - 1) / cfg.blockSize).toNat
  if request.newOutputTokens = 1 then allocateNewBlocks [] (pool ++ blocks.reverse) numBlocks
  else allocateNewBlocks blocks pool numBlocks

end EsaRequest

structure EsaWindows where
  initWindow : List Content
  localWindow : List Content

/-- What the worker copies into the cache in the first decode step. -/
structure EsaCopies where
  initWindow : List (Nat × Content)
  localWindow : List (Nat × Content)
  topk : List (Nat × Content)

namespace EsaConfig

variable (cfg : EsaConfig)

/-- The windows at the end of the prefill. There is no shape for the representations of no block. -/
def blockRepreData (promptLen : Nat) (vllmBlockIds : List Nat) (cache : Nat → Content) : Option EsaWindows :=
  let sparseRange := getSparseRange cfg.initWindowSz cfg.localWindowSz promptLen cfg.blockSize
  let localWindowStart := cfg.initWindowSz + sparseRange
  if intSlice vllmBlockIds cfg.initWindowSz localWindowStart = [] then none
  else some ⟨(vllmBlockIds.take cfg.initWindowSz).map cache,
    (intSlice vllmBlockIds localWindowStart vllmBlockIds.length).map cache⟩

/-- The blocks of a prompt that have a hash to be loaded with, as `newBlockHashes` lists them. -/
def blockHashes (promptLen : Nat) : List Nat :=
  slice (List.range (promptLen / cfg.blockSize)) cfg.initWindowSz (cdiv promptLen cfg.blockSize - cfg.localWindowSz)

/-- The blocks that the retrieval has chosen, by their places in `block_hashes`. -/
def waitRetrievalAndStartLoad (promptLen : Nat) (vllmBlockIds choosed : List Nat) :
    Option (List (Nat × Content)) :=
  let sparseRange := getSparseRange cfg.initWindowSz cfg.localWindowSz promptLen cfg.blockSize
  (choosed.mapM fun id => (cfg.blockHashes promptLen)[id]?).map fun blocks =>
    (intSlice vllmBlockIds cfg.initWindowSz (cfg.initWindowSz + cfg.intSparse sparseRange)).zip
      (blocks.map (tokenBlock cfg.blockSize promptLen))

/-- `attention_begin` in step one. -/
def attentionBegin (promptLen : Nat) (windows : EsaWindows) (vllmBlockIds choosed : List Nat) :
    Option EsaCopies :=
  if 1 % cfg.retrievalStride = 1 then do
    let localWindowSz := windows.localWindow.length
    let initWindow ← indexPut (vllmBlockIds.take cfg.initWindowSz) windows.initWindow
    let localWindow ← indexPut (intSlice vllmBlockIds (-localWindowSz) vllmBlockIds.length) windows.localWindow
    let topk ← cfg.waitRetrievalAndStartLoad promptLen vllmBlockIds choosed
    some ⟨initWindow, localWindow, topk⟩
  else some ⟨[], [], []⟩

/-- What the retrieval may choose: `topk` of the blocks that have a representation. -/
def Choosable (promptLen : Nat) (choosed : List Nat) : Prop :=
  let sparseRange := getSparseRange cfg.initWindowSz cfg.localWindowSz promptLen cfg.blockSize
  choosed.Nodup ∧ (choosed.length : Int) = cfg.intSparse sparseRange ∧ ∀ id ∈ choosed, (id : Int) < sparseRange

end EsaConfig

/-- The copies and the new token fill the slots that attention reads, each part after the one
before it and the tokens of the windows in their order. -/
structure EsaCopies.Fill (copies : EsaCopies) (blockSize : Nat) (table : List Nat) (numSlots : Int) : Prop where
  init_topk : ∀ p t q u, Holds blockSize table copies.initWindow p t → Holds blockSize table copies.topk q u → p < q
  init_local : ∀ p t q u, Holds blockSize table copies.initWindow p t →
    Holds blockSize table copies.localWindow q u → p < q ∧ t < u
  topk_local : ∀ p t q u, Holds blockSize table copies.topk p t → Holds blockSize table copies.localWindow q u → p < q
  init_order : ∀ p t q u, Holds blockSize table copies.initWindow p t →
    Holds blockSize table copies.initWindow q u → p < q → t < u
  local_order : ∀ p t q u, Holds blockSize table copies.localWindow p t →
    Holds blockSize table copies.localWindow q u → p < q → t < u
  pos : 0 < numSlots
  before_new : ∀ p t, Holds blockSize table copies.initWindow p t ∨ Holds blockSize table copies.topk p t ∨
    Holds blockSize table copies.localWindow p t → (p : Int) < numSlots - 1
  covered : ∀ p : Nat, (p : Int) < numSlots - 1 → ∃ t, Holds blockSize table copies.initWindow p t ∨
    Holds blockSize table copies.topk p t ∨ Holds blockSize table copies.localWindow p t

/-- A request at the end of its prefill, or of the recomputation after a preemption. -/
structure EsaPrefill (cfg : EsaConfig) where
  numPromptTokens : Nat
  prompt_pos : 0 < numPromptTokens
  preemptReqOutputTokens : Option Nat
  sparsed : cfg.blockSize * cfg.minBlocks ≤ numPromptTokens
  vllmBlockIds : List Nat
  pool : List Nat
  nodup : (vllmBlockIds ++ pool).Nodup
  length_eq : vllmBlockIds.length = cdiv (numPromptTokens + preemptReqOutputTokens.getD 0) cfg.blockSize
  cache : Nat → Content
  prefilled : Prefilled cfg.blockSize (numPromptTokens + preemptReqOutputTokens.getD 0) vllmBlockIds cache

namespace EsaPrefill

variable {cfg : EsaConfig} (prefill : EsaPrefill cfg)

/-- The tokens that the prefill has computed. -/
def numTokens : Nat := prefill.numPromptTokens + prefill.preemptReqOutputTokens.getD 0

/-- The request in the next step. -/
def request : EsaRequest where
  numPromptTokens := prefill.numPromptTokens
  numOutputTokens := prefill.preemptReqOutputTokens.getD 0 + 1
  numComputedTokens := prefill.numTokens
  preemptReqOutputTokens := prefill.preemptReqOutputTokens

/-- The block table of the first decode step. -/
def table : Option (List Nat) := do
  let numSlotsSparsed ← prefill.request.estimateNumSlotsSparsed cfg
  let blocks ← prefill.request.allocateSlots cfg prefill.vllmBlockIds prefill.pool numSlotsSparsed
  some blocks.1

/-- The first decode step comes through and leaves the layout in order. -/
def LaidOut : Prop :=
  ∃ numSlotsSparsed table windows, prefill.request.estimateNumSlotsSparsed cfg = some numSlotsSparsed ∧
    prefill.table = some table ∧
    cfg.blockRepreData prefill.numPromptTokens prefill.vllmBlockIds prefill.cache = some windows ∧
    ∀ choosed, cfg.Choosable prefill.numPromptTokens choosed → ∃ copies,
      cfg.attentionBegin prefill.numPromptTokens windows table choosed = some copies ∧
      copies.Fill cfg.blockSize table numSlotsSparsed

/-- The blocks between the windows, those that stay of them, and where the local window starts. -/
def sparseRange : Nat := cdiv prefill.numPromptTokens cfg.blockSize - cfg.initWindowSz - cfg.localWindowSz

def topk : Nat := (cfg.intSparse prefill.sparseRange).toNat

def localWindowStart : Nat := cfg.initWindowSz + prefill.sparseRange

section Sizes

variable {prefill}

theorem getSparseRange_eq :
    getSparseRange cfg.initWindowSz cfg.localWindowSz prefill.numPromptTokens cfg.blockSize = prefill.sparseRange ∧
      prefill.localWindowStart = cdiv prefill.numPromptTokens cfg.blockSize - cfg.localWindowSz ∧
      cfg.localWindowSz ≤ cdiv prefill.numPromptTokens cfg.blockSize := by
  have hblocks : cfg.minBlocks ≤ cdiv prefill.numPromptTokens cfg.blockSize := by
    by_contra h
    have hlt := (cdiv_le_iff cfg.blockSize_pos).mp (Nat.le_sub_one_of_lt (Nat.lt_of_not_le h))
    have hsparsed := prefill.sparsed
    rw [Nat.sub_mul, Nat.one_mul, Nat.mul_comm cfg.minBlocks] at hlt
    have hpos := prefill.prompt_pos
    have hblock := cfg.blockSize_pos
    omega
  have hwindows := cfg.windows_le
  unfold localWindowStart sparseRange
  have hrange : getSparseRange cfg.initWindowSz cfg.localWindowSz prefill.numPromptTokens cfg.blockSize =
      (cdiv prefill.numPromptTokens cfg.blockSize : Int) - cfg.initWindowSz - cfg.localWindowSz := rfl
  rw [hrange]
  omega

theorem intSparse_eq :
    cfg.intSparse prefill.sparseRange = prefill.topk ∧ prefill.topk ≤ prefill.sparseRange := by
  obtain ⟨hpos, hle⟩ := cfg.intSparse_bounds prefill.sparseRange (Int.natCast_nonneg _)
  unfold topk
  omega

/-- The tokens from the start of the local window on keep their slots. -/
theorem estimate_eq :
    prefill.request.estimateNumSlotsSparsed cfg =
      some ((((cfg.initWindowSz + prefill.topk) * cfg.blockSize + (prefill.numTokens + 1) : Nat) : Int) -
        ((prefill.localWindowStart * cfg.blockSize : Nat) : Int)) := by
  obtain ⟨hrange, hstart, hlocal⟩ := @getSparseRange_eq cfg prefill
  obtain ⟨htopk, -⟩ := @intSparse_eq cfg prefill
  have hblock := cfg.blockSize_pos
  have hnew : prefill.request.newOutputTokens = 1 := by
    unfold EsaRequest.newOutputTokens request
    cases prefill.preemptReqOutputTokens <;> simp
  have hcomputed : prefill.request.numComputedTokens ≠ 0 := by
    have hpos := prefill.prompt_pos
    simp only [request, numTokens]
    omega
  have hsparsed : prefill.request.isSparsedRequest cfg = true := decide_eq_true prefill.sparsed
  have hprompt : prefill.request.numPromptTokens = prefill.numPromptTokens := rfl
  have houtput : prefill.request.numOutputTokens = prefill.preemptReqOutputTokens.getD 0 + 1 := rfl
  have hwindow : ((if prefill.numPromptTokens % cfg.blockSize = 0 then (cfg.blockSize : Int) * cfg.localWindowSz
      else (prefill.numPromptTokens % cfg.blockSize : Nat) + cfg.blockSize * ((cfg.localWindowSz : Int) - 1)) : Int) =
      prefill.numPromptTokens - ((prefill.localWindowStart * cfg.blockSize : Nat) : Int) := by
    have hsum : prefill.localWindowStart + cfg.localWindowSz = cdiv prefill.numPromptTokens cfg.blockSize := by omega
    have hmul := congrArg (· * cfg.blockSize) hsum
    simp only [Nat.add_mul] at hmul
    split
    · rename_i hflaw
      rw [cdiv_of_mod_eq hflaw hblock] at hmul
      rw [← hmul, Nat.mul_comm cfg.localWindowSz]
      push_cast
      ring
    · rename_i hflaw
      rw [cdiv_of_mod_ne hflaw hblock, Nat.add_mul, Nat.one_mul] at hmul
      have hsplit := Nat.div_add_mod' prefill.numPromptTokens cfg.blockSize
      have hmulComm := Nat.mul_comm cfg.localWindowSz cfg.blockSize
      rw [mul_sub, mul_one, ← Int.natCast_mul]
      omega
  unfold EsaRequest.estimateNumSlotsSparsed
  rw [hnew, hsparsed, if_neg (by simpa using hcomputed)]
  simp only [hprompt, houtput, hrange, htopk, hwindow, numTokens]
  push_cast
  congr 1
  ring

/-- What the scheduler allocates for the step. -/
theorem table_eq {table : List Nat} (h : prefill.table = some table) :
    table.Nodup ∧ (table.length : Int) =
      max 0 ((((cfg.initWindowSz + prefill.topk) * cfg.blockSize + (prefill.numTokens + cfg.blockSize) : Nat) -
        ((prefill.localWindowStart * cfg.blockSize : Nat) : Int)) / cfg.blockSize) := by
  have hnew : prefill.request.newOutputTokens = 1 := by
    unfold EsaRequest.newOutputTokens request
    cases prefill.preemptReqOutputTokens <;> simp
  unfold EsaPrefill.table EsaRequest.allocateSlots at h
  rw [estimate_eq, hnew] at h
  simp only [if_true, Option.bind_eq_bind, Option.bind_some] at h
  obtain ⟨r, hr, hsome⟩ := Option.bind_eq_some_iff.mp h
  cases hsome
  have hnodup : ([] ++ (prefill.pool ++ prefill.vllmBlockIds.reverse)).Nodup := by
    rw [List.nil_append]
    have hperm : (prefill.pool ++ prefill.vllmBlockIds.reverse).Perm (prefill.vllmBlockIds ++ prefill.pool) :=
      List.perm_append_comm.trans ((List.reverse_perm _).append_right _)
    exact hperm.nodup_iff.mpr prefill.nodup
  obtain ⟨-, hlength, htable⟩ := allocateNewBlocks_eq hr hnodup
  refine ⟨htable, ?_⟩
  rw [hlength, List.length_nil, Nat.max_zero, Int.toNat_eq_max, max_comm]
  congr 2
  push_cast
  ring

theorem length_table {table : List Nat} (h : prefill.table = some table)
    (hstart : prefill.localWindowStart * cfg.blockSize ≤ prefill.numTokens) :
    table.length =
      cfg.initWindowSz + prefill.topk + (cdiv (prefill.numTokens + 1) cfg.blockSize - prefill.localWindowStart) := by
  have hblock := cfg.blockSize_pos
  obtain ⟨-, hlength⟩ := table_eq h
  have hupper : prefill.numTokens + 1 ≤ cdiv (prefill.numTokens + 1) cfg.blockSize * cfg.blockSize :=
    (cdiv_le_iff hblock).mp le_rfl
  have hlt : prefill.localWindowStart < cdiv (prefill.numTokens + 1) cfg.blockSize :=
    (lt_cdiv_iff hblock).mpr (Nat.lt_succ_of_le hstart)
  have hlower : (cdiv (prefill.numTokens + 1) cfg.blockSize - 1) * cfg.blockSize < prefill.numTokens + 1 :=
    (lt_cdiv_iff hblock).mp (by omega)
  obtain ⟨m, hm⟩ : ∃ m, cdiv (prefill.numTokens + 1) cfg.blockSize = prefill.localWindowStart + m + 1 :=
    Nat.exists_eq_add_of_lt hlt
  rw [hm] at hupper hlower ⊢
  have hquotient : (((cfg.initWindowSz + prefill.topk) * cfg.blockSize + (prefill.numTokens + cfg.blockSize) : Nat) -
      ((prefill.localWindowStart * cfg.blockSize : Nat) : Int)) / cfg.blockSize =
        ((cfg.initWindowSz + prefill.topk + (m + 1) : Nat) : Int) := by
    rw [Int.ediv_eq_iff_of_pos (by omega)]
    simp only [Nat.add_sub_cancel, Nat.add_mul, Nat.one_mul] at *
    push_cast
    simp only [Int.add_mul, Int.one_mul]
    push_cast at *
    omega
  rw [hquotient] at hlength
  omega

theorem length_vllmBlockIds :
    prefill.vllmBlockIds.length = cdiv prefill.numTokens cfg.blockSize ∧
      prefill.localWindowStart ≤ prefill.vllmBlockIds.length := by
  have hblock := cfg.blockSize_pos
  have hlength : prefill.vllmBlockIds.length = cdiv prefill.numTokens cfg.blockSize := prefill.length_eq
  have hle : cdiv prefill.numPromptTokens cfg.blockSize ≤ cdiv prefill.numTokens cfg.blockSize := by
    rw [cdiv_le_iff hblock]
    exact (Nat.le_add_right _ _).trans ((cdiv_le_iff hblock).mp le_rfl)
  obtain ⟨-, hstart, -⟩ := @getSparseRange_eq cfg prefill
  omega

theorem blockRepreData_eq :
    cfg.blockRepreData prefill.numPromptTokens prefill.vllmBlockIds prefill.cache =
      if prefill.sparseRange = 0 then none
      else some ⟨(List.range cfg.initWindowSz).map fun j => tokenBlock cfg.blockSize prefill.numTokens (0 + j),
        (List.range (prefill.vllmBlockIds.length - prefill.localWindowStart)).map fun j =>
          tokenBlock cfg.blockSize prefill.numTokens (prefill.localWindowStart + j)⟩ := by
  obtain ⟨hrange, -, -⟩ := @getSparseRange_eq cfg prefill
  obtain ⟨-, hstart⟩ := @length_vllmBlockIds cfg prefill
  have hprefilled : Prefilled cfg.blockSize prefill.numTokens prefill.vllmBlockIds prefill.cache := prefill.prefilled
  have hcast : (cfg.initWindowSz : Int) + (prefill.sparseRange : Int) = ((prefill.localWindowStart : Nat) : Int) := by
    unfold localWindowStart
    omega
  have hinit : cfg.initWindowSz ≤ prefill.vllmBlockIds.length := (Nat.le_add_right _ _).trans hstart
  have hdump : (slice prefill.vllmBlockIds cfg.initWindowSz prefill.localWindowStart).length = prefill.sparseRange := by
    rw [length_slice hstart]
    unfold localWindowStart
    omega
  unfold EsaConfig.blockRepreData
  simp only [hrange, hcast, intSlice_natCast]
  by_cases hzero : prefill.sparseRange = 0
  · rw [if_pos hzero, if_pos (List.eq_nil_of_length_eq_zero (hdump.trans hzero))]
  · have hne : slice prefill.vllmBlockIds cfg.initWindowSz prefill.localWindowStart ≠ [] := by
      intro hnil
      rw [hnil] at hdump
      exact hzero hdump.symm
    rw [if_neg hzero, if_neg hne, ← slice_zero, map_slice_of_prefilled hprefilled hinit,
      map_slice_of_prefilled hprefilled le_rfl, Nat.sub_zero]

/-- Blocks between the windows have a hash, except the last one where it is not full and the
local window does not take it. -/
theorem getElem?_blockHashes {id : Nat} (h : id < prefill.sparseRange) :
    (cfg.blockHashes prefill.numPromptTokens)[id]? =
      if cfg.initWindowSz + id < prefill.numPromptTokens / cfg.blockSize then some (cfg.initWindowSz + id) else none := by
  obtain ⟨-, hstart, -⟩ := @getSparseRange_eq cfg prefill
  unfold EsaConfig.blockHashes
  rw [getElem?_slice, ← hstart, if_pos (by unfold localWindowStart; omega)]
  split
  · rename_i hlt
    exact List.getElem?_range hlt
  · rename_i hlt
    exact List.getElem?_eq_none (by simpa using hlt)

theorem waitRetrieval_eq {table choosed : List Nat} (hchoosed : cfg.Choosable prefill.numPromptTokens choosed)
    (hfull : ∀ id ∈ choosed, cfg.initWindowSz + id < prefill.numPromptTokens / cfg.blockSize) :
    cfg.waitRetrievalAndStartLoad prefill.numPromptTokens table choosed =
      some ((slice table cfg.initWindowSz (cfg.initWindowSz + prefill.topk)).zip
        (choosed.map fun id => tokenBlock cfg.blockSize prefill.numPromptTokens (cfg.initWindowSz + id))) := by
  obtain ⟨hrange, -, -⟩ := @getSparseRange_eq cfg prefill
  obtain ⟨htopk, -⟩ := @intSparse_eq cfg prefill
  obtain ⟨-, -, hlt⟩ := hchoosed
  rw [hrange] at hlt
  have hmap : (choosed.mapM fun id => (cfg.blockHashes prefill.numPromptTokens)[id]?) =
      some (choosed.map fun id => cfg.initWindowSz + id) := by
    clear hrange htopk
    induction choosed with
    | nil => rfl
    | cons id choosed ih =>
      obtain ⟨hid, hlt⟩ := List.forall_mem_cons.mp hlt
      obtain ⟨hfullId, hfull⟩ := List.forall_mem_cons.mp hfull
      rw [List.mapM_cons, getElem?_blockHashes (by omega), if_pos hfullId, ih hfull hlt]
      rfl
  have hcast : (cfg.initWindowSz : Int) + (prefill.topk : Int) = ((cfg.initWindowSz + prefill.topk : Nat) : Int) := by
    omega
  unfold EsaConfig.waitRetrievalAndStartLoad
  simp only [hmap, Option.map_some, hrange, htopk, hcast, intSlice_natCast, List.map_map]
  rfl

theorem waitRetrieval_eq_none {table choosed : List Nat} {id : Nat} (hid : id ∈ choosed) (hlt : id < prefill.sparseRange)
    (hpart : ¬ cfg.initWindowSz + id < prefill.numPromptTokens / cfg.blockSize) :
    cfg.waitRetrievalAndStartLoad prefill.numPromptTokens table choosed = none := by
  have hnone : (cfg.blockHashes prefill.numPromptTokens)[id]? = none := by
    rw [getElem?_blockHashes hlt, if_neg hpart]
  have hmap : (choosed.mapM fun id => (cfg.blockHashes prefill.numPromptTokens)[id]?) = none := by
    induction choosed with
    | nil => cases hid
    | cons id' choosed ih =>
      rw [List.mapM_cons]
      obtain rfl | hid := List.mem_cons.mp hid
      · rw [hnone]
        rfl
      · rw [ih hid]
        cases (cfg.blockHashes prefill.numPromptTokens)[id']? <;> rfl
  unfold EsaConfig.waitRetrievalAndStartLoad
  simp only [hmap, Option.map_none]

/-- The copies of a step that comes through, with `m` blocks in the table behind the top-k ones. -/
theorem attentionBegin_eq {table choosed : List Nat} {windows : EsaWindows} {m : Nat}
    (hwindows : cfg.blockRepreData prefill.numPromptTokens prefill.vllmBlockIds prefill.cache = some windows)
    (hlength : table.length = cfg.initWindowSz + prefill.topk + m) (hstride : 1 < cfg.retrievalStride)
    (hlocal : prefill.localWindowStart < prefill.vllmBlockIds.length)
    (hm : prefill.vllmBlockIds.length - prefill.localWindowStart ≤ m) :
    cfg.attentionBegin prefill.numPromptTokens windows table choosed =
      (cfg.waitRetrievalAndStartLoad prefill.numPromptTokens table choosed).map fun topk =>
        ⟨(slice table 0 (0 + cfg.initWindowSz)).zip ((List.range cfg.initWindowSz).map fun j =>
            tokenBlock cfg.blockSize prefill.numTokens (0 + j)),
          (slice table (table.length - (prefill.vllmBlockIds.length - prefill.localWindowStart))
              (table.length - (prefill.vllmBlockIds.length - prefill.localWindowStart) +
                (prefill.vllmBlockIds.length - prefill.localWindowStart))).zip
            ((List.range (prefill.vllmBlockIds.length - prefill.localWindowStart)).map fun j =>
              tokenBlock cfg.blockSize prefill.numTokens (prefill.localWindowStart + j)), topk⟩ := by
  rw [blockRepreData_eq] at hwindows
  split_ifs at hwindows
  cases hwindows
  set localWindowSz := prefill.vllmBlockIds.length - prefill.localWindowStart with hsz
  have hpos : 0 < localWindowSz := by omega
  have hbound : intSlice.bound table (-(localWindowSz : Int)) = table.length - localWindowSz := by
    unfold intSlice.bound
    rw [if_pos (by omega)]
    omega
  have hend : intSlice.bound table (table.length : Int) = table.length - localWindowSz + localWindowSz := by
    unfold intSlice.bound
    rw [if_neg (by omega)]
    omega
  have hslice : intSlice table (-(localWindowSz : Int)) table.length =
      slice table (table.length - localWindowSz) (table.length - localWindowSz + localWindowSz) := by
    unfold intSlice
    rw [hbound, hend]
  have hinit : table.take cfg.initWindowSz = slice table 0 (0 + cfg.initWindowSz) := by
    rw [Nat.zero_add, slice_zero]
  have hinitLength : (slice table 0 (0 + cfg.initWindowSz)).length = cfg.initWindowSz := by
    rw [length_slice (by omega)]
    omega
  have hlocalLength : (slice table (table.length - localWindowSz) (table.length - localWindowSz + localWindowSz)).length =
      localWindowSz := by
    rw [length_slice (by omega)]
    omega
  unfold EsaConfig.attentionBegin
  rw [if_pos (Nat.mod_eq_of_lt hstride)]
  simp only [List.length_map, List.length_range, hslice, hinit]
  rw [indexPut_of_length (by rw [List.length_map, List.length_range, hinitLength]),
    indexPut_of_length (by rw [List.length_map, List.length_range, hlocalLength])]
  cases cfg.waitRetrievalAndStartLoad prefill.numPromptTokens table choosed <;> rfl

theorem holds_topk {table choosed : List Nat} {p : Nat} (hnodup : table.Nodup)
    (hlength : cfg.initWindowSz + prefill.topk ≤ table.length) (hchoosed : cfg.Choosable prefill.numPromptTokens choosed)
    (hfull : ∀ id ∈ choosed, cfg.initWindowSz + id < prefill.numPromptTokens / cfg.blockSize) :
    (∃ t, Holds cfg.blockSize table ((slice table cfg.initWindowSz (cfg.initWindowSz + prefill.topk)).zip
        (choosed.map fun id => tokenBlock cfg.blockSize prefill.numPromptTokens (cfg.initWindowSz + id))) p t) ↔
      cfg.initWindowSz * cfg.blockSize ≤ p ∧ p < (cfg.initWindowSz + prefill.topk) * cfg.blockSize := by
  have hblock := cfg.blockSize_pos
  obtain ⟨hrange, -, -⟩ := @getSparseRange_eq cfg prefill
  obtain ⟨htopk, -⟩ := @intSparse_eq cfg prefill
  obtain ⟨-, hcount, -⟩ := hchoosed
  rw [hrange, htopk] at hcount
  have hvalues : (choosed.map fun id =>
      tokenBlock cfg.blockSize prefill.numPromptTokens (cfg.initWindowSz + id)).length = prefill.topk := by
    rw [List.length_map]
    omega
  have hzip := fun t => @holds_zip_slice cfg.blockSize table cfg.initWindowSz p t
    (choosed.map fun id => tokenBlock cfg.blockSize prefill.numPromptTokens (cfg.initWindowSz + id)) hnodup
    (by rwa [hvalues])
  rw [hvalues] at hzip
  simp only [hzip]
  rw [← Nat.le_div_iff_mul_le hblock, ← Nat.div_lt_iff_lt_mul hblock]
  constructor
  · rintro ⟨t, j, content, hj, hp, -⟩
    have hlt := (List.getElem?_eq_some_iff.mp hj).1
    rw [hvalues] at hlt
    omega
  · rintro ⟨hge, hlt⟩
    have hj : p / cfg.blockSize - cfg.initWindowSz < choosed.length := by omega
    obtain ⟨id, hid⟩ : ∃ id, choosed[p / cfg.blockSize - cfg.initWindowSz]? = some id :=
      ⟨_, List.getElem?_eq_getElem hj⟩
    have hblockEnd : (cfg.initWindowSz + id + 1) * cfg.blockSize ≤ prefill.numPromptTokens :=
      (Nat.le_div_iff_mul_le hblock).mp (hfull id (List.mem_of_getElem? hid))
    have hmod := Nat.mod_lt p hblock
    rw [Nat.add_mul _ 1, Nat.one_mul] at hblockEnd
    refine ⟨(cfg.initWindowSz + id) * cfg.blockSize + p % cfg.blockSize, p / cfg.blockSize - cfg.initWindowSz,
      tokenBlock cfg.blockSize prefill.numPromptTokens (cfg.initWindowSz + id), ?_, by omega, ?_⟩
    · rw [List.getElem?_map, hid, Option.map_some]
    · rw [tokenBlock_eq_some]
      exact ⟨hmod, rfl, by omega⟩

/-- Where the last block has room for the new token, the local window ends in the last block of
the table. -/
theorem fill_of_room {table choosed : List Nat} (hnodup : table.Nodup)
    (hlength : table.length =
      cfg.initWindowSz + prefill.topk + (prefill.vllmBlockIds.length - prefill.localWindowStart))
    (hlocal : prefill.localWindowStart * cfg.blockSize < prefill.numTokens)
    (hchoosed : cfg.Choosable prefill.numPromptTokens choosed)
    (hfull : ∀ id ∈ choosed, cfg.initWindowSz + id < prefill.numPromptTokens / cfg.blockSize) :
    EsaCopies.Fill
      ⟨(slice table 0 (0 + cfg.initWindowSz)).zip ((List.range cfg.initWindowSz).map fun j =>
          tokenBlock cfg.blockSize prefill.numTokens (0 + j)),
        (slice table (table.length - (prefill.vllmBlockIds.length - prefill.localWindowStart))
            (table.length - (prefill.vllmBlockIds.length - prefill.localWindowStart) +
              (prefill.vllmBlockIds.length - prefill.localWindowStart))).zip
          ((List.range (prefill.vllmBlockIds.length - prefill.localWindowStart)).map fun j =>
            tokenBlock cfg.blockSize prefill.numTokens (prefill.localWindowStart + j)),
        (slice table cfg.initWindowSz (cfg.initWindowSz + prefill.topk)).zip
          (choosed.map fun id => tokenBlock cfg.blockSize prefill.numPromptTokens (cfg.initWindowSz + id))⟩
      cfg.blockSize table
      ((((cfg.initWindowSz + prefill.topk) * cfg.blockSize + (prefill.numTokens + 1) : Nat) : Int) -
        ((prefill.localWindowStart * cfg.blockSize : Nat) : Int)) := by
  have hblock := cfg.blockSize_pos
  obtain ⟨hblocks, hstart⟩ := @length_vllmBlockIds cfg prefill
  have hupper : prefill.numTokens ≤ prefill.vllmBlockIds.length * cfg.blockSize := by
    rw [hblocks]
    exact (cdiv_le_iff hblock).mp le_rfl
  have hsub : table.length - (prefill.vllmBlockIds.length - prefill.localWindowStart) =
      cfg.initWindowSz + prefill.topk := by omega
  have hmul : (prefill.localWindowStart + (prefill.vllmBlockIds.length - prefill.localWindowStart)) * cfg.blockSize =
      prefill.vllmBlockIds.length * cfg.blockSize := by rw [Nat.add_sub_cancel' hstart]
  have hinitLe : cfg.initWindowSz * cfg.blockSize ≤ prefill.localWindowStart * cfg.blockSize :=
    Nat.mul_le_mul_right _ (Nat.le_add_right _ _)
  have htopk := fun p => @holds_topk cfg prefill table choosed p hnodup (by omega) hchoosed hfull
  have hinit := fun p t => @holds_tokenBlocks cfg.blockSize prefill.numTokens table 0 0 cfg.initWindowSz p t hblock hnodup
    (by omega)
  have hwindow := fun p t => @holds_tokenBlocks cfg.blockSize prefill.numTokens table (cfg.initWindowSz + prefill.topk)
    prefill.localWindowStart (prefill.vllmBlockIds.length - prefill.localWindowStart) p t hblock hnodup (by omega)
  rw [hsub]
  simp only [Nat.add_mul] at htopk hinit hwindow hmul
  constructor
  · intro p t q u hp hq
    have hp := (hinit p t).mp hp
    have hq := (htopk q).mp ⟨u, hq⟩
    omega
  · intro p t q u hp hq
    have hp := (hinit p t).mp hp
    have hq := (hwindow q u).mp hq
    omega
  · intro p t q u hp hq
    have hp := (htopk p).mp ⟨t, hp⟩
    have hq := (hwindow q u).mp hq
    omega
  · intro p t q u hp hq hlt
    have hp := (hinit p t).mp hp
    have hq := (hinit q u).mp hq
    omega
  · intro p t q u hp hq hlt
    have hp := (hwindow p t).mp hp
    have hq := (hwindow q u).mp hq
    omega
  · omega
  · rintro p t (hp | hp | hp)
    · have hp := (hinit p t).mp hp
      rw [Nat.add_mul]
      omega
    · have hp := (htopk p).mp ⟨t, hp⟩
      rw [Nat.add_mul]
      omega
    · have hp := (hwindow p t).mp hp
      rw [Nat.add_mul]
      omega
  · intro p hp
    rw [Nat.add_mul] at hp
    by_cases hlow : p < cfg.initWindowSz * cfg.blockSize
    · exact ⟨p, Or.inl ((hinit p p).mpr (by omega))⟩
    by_cases hmid : p < cfg.initWindowSz * cfg.blockSize + prefill.topk * cfg.blockSize
    · obtain ⟨t, ht⟩ := (htopk p).mpr ⟨by omega, hmid⟩
      exact ⟨t, Or.inr (Or.inl ht)⟩
    · refine ⟨p + prefill.localWindowStart * cfg.blockSize -
        (cfg.initWindowSz * cfg.blockSize + prefill.topk * cfg.blockSize), Or.inr (Or.inr ((hwindow p _).mpr ?_))⟩
      omega

theorem not_holds_nil {table : List Nat} {p t : Nat} : ¬ Holds cfg.blockSize table [] p t := by
  rintro ⟨id, content, hmem, -⟩
  cases hmem

theorem choosable_of {choosed : List Nat} (hnodup : choosed.Nodup) (hlength : choosed.length = prefill.topk)
    (hlt : ∀ id ∈ choosed, id < prefill.sparseRange) : cfg.Choosable prefill.numPromptTokens choosed := by
  obtain ⟨hrange, -, -⟩ := @getSparseRange_eq cfg prefill
  obtain ⟨htopk, -⟩ := @intSparse_eq cfg prefill
  unfold EsaConfig.Choosable
  simp only [hrange, htopk, hlength]
  exact ⟨hnodup, trivial, fun id hid => by exact_mod_cast hlt id hid⟩

theorem choosable_range : cfg.Choosable prefill.numPromptTokens (List.range prefill.topk) := by
  obtain ⟨-, hle⟩ := @intSparse_eq cfg prefill
  refine choosable_of List.nodup_range List.length_range fun id hid => ?_
  rw [List.mem_range] at hid
  omega

/-- Which blocks can be loaded whatever the retrieval chooses. -/
theorem full_of_choosable {choosed : List Nat} (hchoosed : cfg.Choosable prefill.numPromptTokens choosed)
    (h : cfg.localWindowSz ≠ 0 ∨ prefill.numPromptTokens % cfg.blockSize = 0 ∨ prefill.topk = 0) :
    ∀ id ∈ choosed, cfg.initWindowSz + id < prefill.numPromptTokens / cfg.blockSize := by
  have hblock := cfg.blockSize_pos
  obtain ⟨hrange, hstart, hlocal⟩ := @getSparseRange_eq cfg prefill
  obtain ⟨htopk, -⟩ := @intSparse_eq cfg prefill
  obtain ⟨-, hcount, hlt⟩ := hchoosed
  rw [hrange] at hlt hcount
  rw [htopk] at hcount
  intro id hid
  have hidLt := hlt id hid
  unfold localWindowStart at hstart
  by_cases hmod : prefill.numPromptTokens % cfg.blockSize = 0
  · have hdiv : prefill.numPromptTokens / cfg.blockSize = cdiv prefill.numPromptTokens cfg.blockSize := by
      conv_lhs => rw [← cdiv_of_mod_eq hmod hblock, Nat.mul_div_cancel _ hblock]
    omega
  · have hdiv := cdiv_of_mod_ne hmod hblock
    obtain hwindow | hmod' | hzero := h
    · omega
    · exact absurd hmod' hmod
    · have hpos := List.length_pos_of_mem hid
      omega

/-- Without room in the last block the local window comes one block too late. -/
theorem not_fill_of_full {table choosed : List Nat} {copies : EsaCopies} {windows : EsaWindows}
    (htable : prefill.table = some table)
    (hwindows : cfg.blockRepreData prefill.numPromptTokens prefill.vllmBlockIds prefill.cache = some windows)
    (hstride : 1 < cfg.retrievalStride) (hlocal : prefill.localWindowStart * cfg.blockSize < prefill.numTokens)
    (hmod : prefill.numTokens % cfg.blockSize = 0)
    (hcopies : cfg.attentionBegin prefill.numPromptTokens windows table choosed = some copies) :
    ¬ copies.Fill cfg.blockSize table
      ((((cfg.initWindowSz + prefill.topk) * cfg.blockSize + (prefill.numTokens + 1) : Nat) : Int) -
        ((prefill.localWindowStart * cfg.blockSize : Nat) : Int)) := by
  intro hfill
  have hblock := cfg.blockSize_pos
  obtain ⟨hnodup, -⟩ := table_eq htable
  obtain ⟨hblocks, hstart⟩ := @length_vllmBlockIds cfg prefill
  have hall : prefill.vllmBlockIds.length * cfg.blockSize = prefill.numTokens := by
    rw [hblocks]
    exact cdiv_of_mod_eq hmod hblock
  have hlt : prefill.localWindowStart < prefill.vllmBlockIds.length := by
    rw [hblocks]
    exact (lt_cdiv_iff hblock).mpr hlocal
  have hnext : cdiv (prefill.numTokens + 1) cfg.blockSize = prefill.vllmBlockIds.length + 1 := by
    apply Nat.le_antisymm
    · rw [cdiv_le_iff hblock, Nat.add_mul]
      omega
    · rw [Nat.add_one_le_iff, lt_cdiv_iff hblock]
      omega
  have hlength := length_table htable hlocal.le
  rw [hnext] at hlength
  rw [attentionBegin_eq hwindows hlength hstride hlt (by omega)] at hcopies
  obtain ⟨topk, -, rfl⟩ := Option.map_eq_some_iff.mp hcopies
  -- the first slot of the last block is both the last window block's and the new token's
  have hwindow := (@holds_tokenBlocks cfg.blockSize prefill.numTokens table
    (table.length - (prefill.vllmBlockIds.length - prefill.localWindowStart)) prefill.localWindowStart
    (prefill.vllmBlockIds.length - prefill.localWindowStart) ((table.length - 1) * cfg.blockSize)
    (prefill.numTokens - cfg.blockSize) hblock hnodup (by omega)).mpr ?_
  · have hnew := hfill.before_new _ _ (Or.inr (Or.inr hwindow))
    have hlast : table.length - 1 + prefill.localWindowStart =
        cfg.initWindowSz + prefill.topk + prefill.vllmBlockIds.length := by omega
    have hmul := congrArg (· * cfg.blockSize) hlast
    simp only [Nat.add_mul] at hmul hnew
    omega
  · obtain ⟨m, hm⟩ := Nat.exists_eq_add_of_lt hlt
    have hsub : prefill.vllmBlockIds.length - prefill.localWindowStart = m + 1 := by omega
    have hsub' : table.length - (m + 1) = cfg.initWindowSz + prefill.topk + 1 := by omega
    have hsub'' : table.length - 1 = cfg.initWindowSz + prefill.topk + 1 + m := by omega
    rw [hsub, hsub', hsub'']
    rw [hm] at hall
    simp only [Nat.add_mul, Nat.one_mul] at hall ⊢
    omega

theorem vllmBlockIds_le : prefill.vllmBlockIds.length ≤ cdiv (prefill.numTokens + 1) cfg.blockSize := by
  have hblock := cfg.blockSize_pos
  obtain ⟨hblocks, -⟩ := @length_vllmBlockIds cfg prefill
  rw [hblocks, cdiv_le_iff hblock]
  exact (Nat.le_succ _).trans ((cdiv_le_iff hblock).mp le_rfl)

theorem attentionBegin_of_one {windows : EsaWindows} {table choosed : List Nat} (h : cfg.retrievalStride = 1) :
    cfg.attentionBegin prefill.numPromptTokens windows table choosed = some ⟨[], [], []⟩ := by
  unfold EsaConfig.attentionBegin
  rw [h, if_neg (by decide)]

/-- Without a block behind the retrieved ones, no window can be put into the table. -/
theorem start_lt_of_fill {table choosed : List Nat} {copies : EsaCopies} {windows : EsaWindows}
    (htable : prefill.table = some table)
    (hwindows : cfg.blockRepreData prefill.numPromptTokens prefill.vllmBlockIds prefill.cache = some windows)
    (hstride : 1 < cfg.retrievalStride)
    (hcopies : cfg.attentionBegin prefill.numPromptTokens windows table choosed = some copies)
    (hslots : (0 : Int) < (((cfg.initWindowSz + prefill.topk) * cfg.blockSize + (prefill.numTokens + 1) : Nat) : Int) -
        ((prefill.localWindowStart * cfg.blockSize : Nat) : Int)) :
    prefill.localWindowStart * cfg.blockSize < prefill.numTokens := by
  by_contra hle
  have hblock := cfg.blockSize_pos
  obtain ⟨-, hlength⟩ := table_eq htable
  obtain ⟨hblocks, hstart⟩ := @length_vllmBlockIds cfg prefill
  have hnone : prefill.vllmBlockIds.length - prefill.localWindowStart = 0 := by
    have hge : cdiv prefill.numTokens cfg.blockSize ≤ prefill.localWindowStart :=
      (cdiv_le_iff hblock).mpr (Nat.le_of_not_lt hle)
    omega
  have htablePos : table.length ≠ 0 := by
    have hone : (1 : Int) ≤ (((cfg.initWindowSz + prefill.topk) * cfg.blockSize +
        (prefill.numTokens + cfg.blockSize) : Nat) - ((prefill.localWindowStart * cfg.blockSize : Nat) : Int)) /
          cfg.blockSize := by
      rw [Int.le_ediv_iff_mul_le (by omega)]
      push_cast at *
      omega
    omega
  rw [blockRepreData_eq] at hwindows
  split_ifs at hwindows
  cases hwindows
  have hslice : intSlice table (-((0 : Nat) : Int)) table.length = table := by
    have hzero : (-((0 : Nat) : Int)) = ((0 : Nat) : Int) := rfl
    rw [hzero, intSlice_natCast, slice_length, List.drop_zero]
  have hput : indexPut table [] = none := by
    unfold indexPut
    rw [if_neg (by simpa using htablePos.symm)]
  unfold EsaConfig.attentionBegin at hcopies
  rw [if_pos (Nat.mod_eq_of_lt hstride)] at hcopies
  simp only [hnone, List.range_zero, List.map_nil, List.length_nil, hslice, hput] at hcopies
  cases hinit : indexPut (table.take cfg.initWindowSz) ((List.range cfg.initWindowSz).map fun j =>
      tokenBlock cfg.blockSize prefill.numTokens (0 + j)) <;>
    rw [hinit] at hcopies <;> cases hcopies

end Sizes

/-- The layout of the first decode step is in order if there are blocks between the windows, the
last block that the prefill has filled is not full, and the local window starts in it or before it;
a last block of the prompt that is not full must be in the local window, unless nothing is
retrieved. Where the stride is one no window is written, which does no harm if there are none. -/
theorem laidOut_iff (h : prefill.table.isSome) :
    prefill.LaidOut ↔
      0 < prefill.sparseRange ∧
        (1 < cfg.retrievalStride ∧ prefill.numTokens % cfg.blockSize ≠ 0 ∧
            prefill.localWindowStart * cfg.blockSize < prefill.numTokens ∧
            (cfg.localWindowSz ≠ 0 ∨ prefill.numPromptTokens % cfg.blockSize = 0 ∨ prefill.topk = 0) ∨
          cfg.retrievalStride = 1 ∧ cfg.initWindowSz + prefill.topk + cfg.localWindowSz = 0 ∧
            prefill.numTokens = prefill.localWindowStart * cfg.blockSize) := by
  have hblock := cfg.blockSize_pos
  obtain ⟨table, htable⟩ := Option.isSome_iff_exists.mp h
  obtain ⟨hnodup, -⟩ := table_eq htable
  obtain ⟨hblocks, hstartLe⟩ := @length_vllmBlockIds cfg prefill
  obtain ⟨-, hstart, hlocalLe⟩ := @getSparseRange_eq cfg prefill
  constructor
  · rintro ⟨numSlots, table', windows, hslots, htable', hwindows, hall⟩
    rw [estimate_eq] at hslots
    cases hslots
    rw [htable] at htable'
    cases htable'
    have hrange : 0 < prefill.sparseRange := by
      rw [Nat.pos_iff_ne_zero]
      intro hzero
      rw [blockRepreData_eq, if_pos hzero] at hwindows
      cases hwindows
    obtain ⟨copies, hcopies, hfill⟩ := hall _ choosable_range
    refine ⟨hrange, ?_⟩
    obtain hstride | hstride := Nat.lt_or_eq_of_le cfg.stride_pos
    · have hlocal := start_lt_of_fill htable hwindows hstride hcopies hfill.pos
      refine Or.inl ⟨hstride, fun hmod => not_fill_of_full htable hwindows hstride hlocal hmod hcopies hfill, hlocal, ?_⟩
      by_contra hno
      push Not at hno
      obtain ⟨hwindow, hmod, htopk⟩ := hno
      obtain ⟨-, htopkLe⟩ := @intSparse_eq cfg prefill
      have hdiv := cdiv_of_mod_ne hmod hblock
      -- the retrieval may choose the last block of the prompt, which has no hash
      have hchoosed : cfg.Choosable prefill.numPromptTokens
          ((prefill.sparseRange - 1) :: List.range (prefill.topk - 1)) := by
        apply choosable_of
        · rw [List.nodup_cons, List.mem_range]
          exact ⟨by omega, List.nodup_range⟩
        · rw [List.length_cons, List.length_range]
          omega
        · intro id hid
          obtain rfl | hid := List.mem_cons.mp hid
          · omega
          · rw [List.mem_range] at hid
            omega
      have hnone := @waitRetrieval_eq_none cfg prefill table
        ((prefill.sparseRange - 1) :: List.range (prefill.topk - 1)) (prefill.sparseRange - 1) List.mem_cons_self
        (by omega) (by unfold localWindowStart at hstart; omega)
      obtain ⟨copies', hcopies', -⟩ := hall _ hchoosed
      have hlt : prefill.localWindowStart < prefill.vllmBlockIds.length := by
        rw [hblocks]
        exact (lt_cdiv_iff hblock).mpr hlocal
      have hle := @vllmBlockIds_le cfg prefill
      rw [attentionBegin_eq hwindows (length_table htable hlocal.le) hstride hlt (by omega), hnone] at hcopies'
      cases hcopies'
    · obtain rfl : copies = ⟨[], [], []⟩ := by
        rw [attentionBegin_of_one hstride.symm] at hcopies
        exact (Option.some.inj hcopies).symm
      have hone : ¬ (((0 : Nat) : Int) < (((cfg.initWindowSz + prefill.topk) * cfg.blockSize + (prefill.numTokens + 1) : Nat) : Int) -
          ((prefill.localWindowStart * cfg.blockSize : Nat) : Int) - 1) := by
        intro hlt
        obtain ⟨t, ht | ht | ht⟩ := hfill.covered 0 hlt <;> exact not_holds_nil ht
      have hpos := hfill.pos
      have hprompt : (cdiv prefill.numPromptTokens cfg.blockSize - 1) * cfg.blockSize < prefill.numPromptTokens := by
        have hpromptPos := prefill.prompt_pos
        exact (lt_cdiv_iff hblock).mp (by unfold sparseRange at hrange; omega)
      have htokens : prefill.numPromptTokens ≤ prefill.numTokens := Nat.le_add_right _ _
      have hsum : (cfg.initWindowSz + prefill.topk) * cfg.blockSize + prefill.numTokens =
          prefill.localWindowStart * cfg.blockSize := by omega
      have hwindow : cfg.localWindowSz = 0 := by
        by_contra hne
        have hle : prefill.localWindowStart * cfg.blockSize ≤
            (cdiv prefill.numPromptTokens cfg.blockSize - 1) * cfg.blockSize := Nat.mul_le_mul_right _ (by omega)
        omega
      have hsmall : (cfg.initWindowSz + prefill.topk) * cfg.blockSize < 1 * cfg.blockSize := by
        have hblocksPos : 1 ≤ cdiv prefill.numPromptTokens cfg.blockSize := by
          unfold sparseRange at hrange
          omega
        have hsplit := Nat.sub_mul (cdiv prefill.numPromptTokens cfg.blockSize) 1 cfg.blockSize
        have hle : 1 * cfg.blockSize ≤ cdiv prefill.numPromptTokens cfg.blockSize * cfg.blockSize :=
          Nat.mul_le_mul_right _ hblocksPos
        rw [hstart, hwindow, Nat.sub_zero] at hsum
        omega
      have hzero : cfg.initWindowSz + prefill.topk = 0 := Nat.lt_one_iff.mp (Nat.lt_of_mul_lt_mul_right hsmall)
      refine Or.inr ⟨hstride.symm, by omega, ?_⟩
      rw [hzero, Nat.zero_mul, Nat.zero_add] at hsum
      exact hsum
  · rintro ⟨hrange, ⟨hstride, hmod, hlocal, hret⟩ | ⟨hstride, hzero, hall⟩⟩
    · have hlt : prefill.localWindowStart < prefill.vllmBlockIds.length := by
        rw [hblocks]
        exact (lt_cdiv_iff hblock).mpr hlocal
      have hnext : cdiv (prefill.numTokens + 1) cfg.blockSize = prefill.vllmBlockIds.length := by
        apply Nat.le_antisymm _ vllmBlockIds_le
        rw [hblocks, cdiv_of_mod_ne hmod hblock, cdiv_le_iff hblock, Nat.add_mul, Nat.one_mul]
        have hlast := Nat.mod_lt prefill.numTokens hblock
        have hsplit := Nat.div_add_mod' prefill.numTokens cfg.blockSize
        omega
      have hlength := length_table htable hlocal.le
      rw [hnext] at hlength
      have hwindows := @blockRepreData_eq cfg prefill
      rw [if_neg hrange.ne'] at hwindows
      refine ⟨_, table, _, estimate_eq, htable, hwindows, fun choosed hchoosed => ?_⟩
      have hfull := full_of_choosable hchoosed hret
      rw [attentionBegin_eq hwindows hlength hstride hlt le_rfl, waitRetrieval_eq hchoosed hfull]
      exact ⟨_, rfl, fill_of_room hnodup hlength hlocal hchoosed hfull⟩
    · have hwindows := @blockRepreData_eq cfg prefill
      rw [if_neg hrange.ne'] at hwindows
      refine ⟨_, table, _, estimate_eq, htable, hwindows, fun choosed _ => ⟨_, attentionBegin_of_one hstride, ?_⟩⟩
      have hnone : cfg.initWindowSz + prefill.topk = 0 := by omega
      rw [hnone, ← hall]
      constructor
      · intro p t q u hp
        exact absurd hp not_holds_nil
      · intro p t q u hp
        exact absurd hp not_holds_nil
      · intro p t q u hp
        exact absurd hp not_holds_nil
      · intro p t q u hp
        exact absurd hp not_holds_nil
      · intro p t q u hp
        exact absurd hp not_holds_nil
      · omega
      · rintro p t (hp | hp | hp) <;> exact absurd hp not_holds_nil
      · intro p hp
        omega

/-- Blocks of four slots, a window of one block at either end. -/
def fourSlots : EsaConfig where
  blockSize := 4
  blockSize_pos := by decide
  initWindowSz := 1
  localWindowSz := 1
  minBlocks := 2
  windows_le := by decide
  retrievalStride := 5
  stride_pos := by decide
  intSparse n := n / 2
  intSparse_bounds n hn := by omega

/-- A prompt of some tokens in the blocks from one on, with as many blocks free. -/
def prefillOf (numPromptTokens : Nat) (h : 8 ≤ numPromptTokens) : EsaPrefill fourSlots where
  numPromptTokens := numPromptTokens
  prompt_pos := by omega
  preemptReqOutputTokens := none
  sparsed := h
  vllmBlockIds := List.range' 1 (cdiv numPromptTokens 4)
  pool := List.range' (1 + cdiv numPromptTokens 4) (cdiv numPromptTokens 4)
  nodup := by
    rw [List.range'_append_1]
    exact List.nodup_range'
  length_eq := List.length_range'
  cache id := tokenBlock 4 numPromptTokens (id - 1)
  prefilled i id hid := by
    obtain ⟨hlt, rfl⟩ := List.getElem?_eq_some_iff.mp hid
    rw [List.getElem_range']
    simp [fourSlots]

theorem laidOut_iff_fourSlots :
    (prefillOf 14 (by decide)).LaidOut ↔
      0 < (prefillOf 14 (by decide)).sparseRange ∧
        (1 < fourSlots.retrievalStride ∧ (prefillOf 14 (by decide)).numTokens % fourSlots.blockSize ≠ 0 ∧
            (prefillOf 14 (by decide)).localWindowStart * fourSlots.blockSize < (prefillOf 14 (by decide)).numTokens ∧
            (fourSlots.localWindowSz ≠ 0 ∨ (prefillOf 14 (by decide)).numPromptTokens % fourSlots.blockSize = 0 ∨
              (prefillOf 14 (by decide)).topk = 0) ∨
          fourSlots.retrievalStride = 1 ∧
            fourSlots.initWindowSz + (prefillOf 14 (by decide)).topk + fourSlots.localWindowSz = 0 ∧
            (prefillOf 14 (by decide)).numTokens = (prefillOf 14 (by decide)).localWindowStart * fourSlots.blockSize) :=
  laidOut_iff (prefillOf 14 (by decide)) (by decide)

/-- A prompt of sixteen tokens: the last of its blocks is copied to where the new token goes. -/
theorem not_laidOut : ¬ (prefillOf 16 (by decide)).LaidOut := by
  rintro ⟨numSlots, table, windows, hslots, htable, hwindows, hall⟩
  rw [estimate_eq] at hslots
  cases hslots
  obtain ⟨copies, hcopies, hfill⟩ := hall _ choosable_range
  exact not_fill_of_full htable hwindows (by decide) (by decide) (by decide) hcopies hfill

end EsaPrefill

end UnifiedCache.Sparse
