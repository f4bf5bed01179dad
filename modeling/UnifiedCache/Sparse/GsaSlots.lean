import UnifiedCache.Lib.StepSystem
import UnifiedCache.Sparse.GsaRelocation

/-! The blocks of a request while GSA decodes it: the scheduler cuts the block table down and lets
it grow, and the worker computes what is left of it. -/

namespace UnifiedCache.Sparse.GSA

open StepSystem

structure Request where
  numPromptTokens : Nat
  numOutputTokens : Nat

namespace Request

def numTokens (request : Request) : Nat := request.numPromptTokens + request.numOutputTokens

variable (ptopkPrefetchEnable : Bool) (config : GSAConfig) (request : Request)

/-- `INVALID_SLOT` is `none`. -/
def estimateNumSlotsSparsed : Option Nat :=
  if ptopkPrefetchEnable = false then none
  else if request.numOutputTokens = 0 ∨ request.numPromptTokens < config.blockSize then none
  else if request.numPromptTokens ≤ segPrefillThreshold then none
  else
    let numPromptBlocks := ceilDiv request.numPromptTokens config.blockSize
    let numAllBlocks := ceilDiv request.numTokens config.blockSize
    let numSparseBlocks := numAllBlocks - numPromptBlocks + config.computeTopkLen numPromptBlocks +
      config.prefetchLen numPromptBlocks
    let flaw := request.numTokens % config.blockSize
    let flaw := if flaw ≠ 0 then config.blockSize - flaw else flaw
    some (numSparseBlocks * config.blockSize - flaw)

def numBlocksNeed (numSlotsSparsed : Nat) : Nat :=
  if request.numPromptTokens + 1 = request.numTokens ∧ request.numTokens % config.blockSize = 1 then
    ceilDiv numSlotsSparsed config.blockSize - 1
  else ceilDiv numSlotsSparsed config.blockSize

end Request

namespace GSAConfig

variable (config : GSAConfig)

/-- Which of the allocated blocks `allocate_slots` keeps. -/
def keeps (numBlocksOriginal numBlocksNeed i : Nat) : Bool :=
  decide ((numBlocksOriginal : Int) - numBlocksNeed + config.initWindowsSize ≤ i ∨ i < config.initWindowsSize)

/-- `kept_blocks` and `returned_blocks`, each block with its position. -/
def splitBlocks (allocatedBlocks : List Block) (numBlocksNeed : Nat) : List (Block × Nat) × List (Block × Nat) :=
  allocatedBlocks.zipIdx.partition fun (_, i) => config.keeps allocatedBlocks.length numBlocksNeed i

end GSAConfig

/-- What the worker keeps of a request. -/
structure GSAReqStat where
  blocks : List Block
  remainIdx : Option (List Nat)
  prefetchIdx : Option (List Nat)
  sparseLen : Nat

namespace GSAReqStat

variable (ptopkPrefetchEnable : Bool) (config : GSAConfig) (stat : GSAReqStat)
  (numPromptTokens numComputedTokens : Nat)

def getSparseAndFreeBlock : GSAReqStat :=
  if numPromptTokens ≠ numComputedTokens then { stat with remainIdx := none, prefetchIdx := none }
  else
    let blocksLen := stat.blocks.length
    let reqIdxList := List.range blocksLen
    let remainLen := config.computeTopkLen blocksLen
    if segPrefillThreshold < numPromptTokens ∧ ptopkPrefetchEnable = true ∧ remainLen < blocksLen then
      let prefetchLen := config.prefetchLen blocksLen
      let initWindowsSize := config.initWindowsSize
      { stat with
        remainIdx := some (reqIdxList.take initWindowsSize ++ intSlice reqIdxList (initWindowsSize - remainLen) blocksLen)
        prefetchIdx := some
          (intSlice reqIdxList (initWindowsSize - remainLen - prefetchLen) (initWindowsSize - remainLen))
        sparseLen := remainLen + prefetchLen }
    else { stat with remainIdx := some reqIdxList, prefetchIdx := some [], sparseLen := blocksLen }

/-- The decode branch of `updata_req_state`, for the blocks that the scheduler has sent. -/
def updataReqState (blockIds : List Block) : GSAReqStat :=
  let stat := stat.getSparseAndFreeBlock ptopkPrefetchEnable config numPromptTokens numComputedTokens
  if blockIds.length ≠ stat.sparseLen then
    { stat with blocks := stat.blocks ++ blockIds.getLast?.toList, sparseLen := blockIds.length }
  else stat

end GSAReqStat

/-- A request that is decoded. `table` is its blocks in the scheduler, `free` the blocks of the pool. -/
structure Decode where
  numOutputTokens : Nat
  table : List Block
  free : List Block
  worker : GSAReqStat

/-- The scheduler allocates for the next token, or other requests change the pool. -/
inductive DecodeEvent where
  | allocate
  | pool (free : List Block)

namespace Decode

variable (config : GSAConfig) (numPromptTokens : Nat)

/-- At the end of the prompt, with the first token of the output. -/
def start (table free : List Block) : Decode where
  numOutputTokens := 1
  table := table
  free := free
  worker := ⟨table, none, none, 0⟩

def request (s : Decode) : Request := ⟨numPromptTokens, s.numOutputTokens⟩

/-- `allocate_slots`. When the pool has too few blocks the kept blocks stay what the request has. -/
def allocateSlots (s : Decode) (numSlotsSparsed : Nat) : Decode :=
  let (kept, returned) := config.splitBlocks s.table ((s.request numPromptTokens).numBlocksNeed config numSlotsSparsed)
  let table := kept.map Prod.fst
  let free := s.free ++ returned.map Prod.fst
  let numBlocksToAllocate := ceilDiv numSlotsSparsed config.blockSize - table.length
  if free.length < numBlocksToAllocate then { s with table := table, free := free }
  else
    let table := table ++ free.take numBlocksToAllocate
    { numOutputTokens := s.numOutputTokens + 1
      table := table
      free := free.drop numBlocksToAllocate
      worker := s.worker.updataReqState true config numPromptTokens (numPromptTokens + s.numOutputTokens - 1) table }

def step (s : Decode) : DecodeEvent → Option Decode
  | .allocate => ((s.request numPromptTokens).estimateNumSlotsSparsed true config).map
      (s.allocateSlots config numPromptTokens)
  | .pool free => some { s with free := free }

end Decode

/-- What the scheduler and the worker agree on in every run of a request of `numPromptTokens`, whenever
the scheduler allocates. -/
def Agrees (blockSize numPromptTokens : Nat) : Prop :=
  ∀ table free : List Block, table.length = ceilDiv numPromptTokens blockSize → ∀ s : Decode,
    Reach (Decode.step (setConfig blockSize) numPromptTokens) (fun _ _ => True) (Decode.start table free) s →
    ∀ slots, (s.request numPromptTokens).estimateNumSlotsSparsed true (setConfig blockSize) = some slots →
      let split := (setConfig blockSize).splitBlocks s.table
        ((s.request numPromptTokens).numBlocksNeed (setConfig blockSize) slots)
      let numTokens := (s.request numPromptTokens).numTokens
      (split.1 ++ split.2).Perm s.table.zipIdx ∧
      slots % blockSize = numTokens % blockSize ∧
      (s.numOutputTokens = 1 → s.table = table →
        let worker := s.worker.getSparseAndFreeBlock true (setConfig blockSize) numPromptTokens numPromptTokens
        ∃ remainIdx prefetchIdx, worker.remainIdx = some remainIdx ∧ worker.prefetchIdx = some prefetchIdx ∧
          (split.1.map Prod.snd).Perm (remainIdx ++ prefetchIdx) ∧ split.1.length = worker.sparseLen) ∧
      (1 < s.numOutputTokens → split.2 = []) ∧
      let s' := s.allocateSlots (setConfig blockSize) numPromptTokens slots
      (s'.numOutputTokens = s.numOutputTokens + 1 →
        s'.table.length = ceilDiv slots blockSize ∧ s'.worker.sparseLen = s'.table.length ∧
        (1 < s.numOutputTokens →
          s'.table.length = s.table.length + if (numTokens - 1) % blockSize = 0 then 1 else 0))

section Estimate

variable {bs prompt k slots : Nat}

/-- The sparse blocks at the `k`-th token of the output. -/
def sparseBlocks (bs prompt k : Nat) : Nat :=
  ceilDiv (prompt + k) bs - ceilDiv prompt bs + (setConfig bs).computeTopkLen (ceilDiv prompt bs) +
    (setConfig bs).prefetchLen (ceilDiv prompt bs)

theorem ceilDiv_succ (hbs : 0 < bs) (a : Nat) : ceilDiv (a + 1) bs = ceilDiv a bs + if a % bs = 0 then 1 else 0 := by
  have hdiv := Nat.div_add_mod a bs
  have hmod := Nat.mod_lt a hbs
  have hnext : ceilDiv (a + 1) bs = a / bs + 1 := by
    rw [ceilDiv, show a + 1 + bs - 1 = a + bs by omega, Nat.add_div_right _ hbs]
  rw [hnext]
  split_ifs with h
  · have hle : ceilDiv a bs ≤ a / bs := (ceilDiv_le_iff hbs _ _).mpr (by
      rw [Nat.mul_comm]
      omega)
    have hge := Nat.div_le_div_right (c := bs) (show a ≤ a + bs - 1 by omega)
    rw [ceilDiv] at hle ⊢
    omega
  · have hlt : a / bs < ceilDiv a bs := (lt_ceilDiv_iff hbs _ _).mpr (by
      rw [Nat.mul_comm]
      omega)
    have hle : ceilDiv a bs ≤ a / bs + 1 := (ceilDiv_le_iff hbs _ _).mpr (by
      rw [Nat.add_mul, Nat.mul_comm]
      omega)
    omega

theorem sparseBlocks_succ (hbs : 0 < bs) (prompt k : Nat) :
    sparseBlocks bs prompt (k + 1) = sparseBlocks bs prompt k + if (prompt + k) % bs = 0 then 1 else 0 := by
  have hle := ceilDiv_mono hbs (show prompt ≤ prompt + k by omega)
  rw [sparseBlocks, ← Nat.add_assoc, ceilDiv_succ hbs, sparseBlocks]
  omega

theorem sparseBlocks_zero :
    sparseBlocks bs prompt 0 = (setConfig bs).computeTopkLen (ceilDiv prompt bs) +
      (setConfig bs).prefetchLen (ceilDiv prompt bs) := by
  rw [sparseBlocks, Nat.add_zero, Nat.sub_self, Nat.zero_add]

/-- The last block is filled up to where the tokens of the request are in theirs. -/
theorem slots_of_sparseBlocks (hbs : 0 < bs) {blocks tokens flaw : Nat} (hblocks : 0 < blocks)
    (hflaw : flaw = if tokens % bs ≠ 0 then bs - tokens % bs else tokens % bs) (hslots : slots = blocks * bs - flaw) :
    ceilDiv slots bs = blocks ∧ slots % bs = tokens % bs := by
  obtain ⟨b, rfl⟩ := Nat.exists_eq_add_one.mpr hblocks
  have hmod := Nat.mod_lt tokens hbs
  rw [Nat.add_mul, Nat.one_mul] at hslots
  by_cases h : tokens % bs = 0
  · rw [if_neg (not_not.mpr h), h] at hflaw
    have hsum : slots = (b + 1) * bs := by
      rw [Nat.add_mul]
      omega
    rw [hsum, Nat.mul_mod_left, h]
    refine ⟨?_, rfl⟩
    apply Nat.le_antisymm
    · exact (ceilDiv_le_iff hbs _ _).mpr le_rfl
    · exact (lt_ceilDiv_iff hbs _ _).mpr (Nat.mul_lt_mul_of_pos_right (Nat.lt_succ_self b) hbs)
  · rw [if_pos h] at hflaw
    have hsum : slots = tokens % bs + b * bs := by omega
    rw [hsum, Nat.add_mul_mod_self_right, Nat.mod_mod]
    refine ⟨?_, rfl⟩
    apply Nat.le_antisymm
    · exact (ceilDiv_le_iff hbs _ _).mpr (by rw [Nat.add_mul]; omega)
    · exact (lt_ceilDiv_iff hbs _ _).mpr (by omega)

theorem ceilDiv_pos (hbs : 0 < bs) (hprompt : 0 < prompt) : 0 < ceilDiv prompt bs :=
  (lt_ceilDiv_iff hbs _ _).mpr (by rwa [Nat.zero_mul])

theorem computeTopkLen_pos (hbs : 0 < bs) {n : Nat} (hn : 0 < n) : 0 < (setConfig bs).computeTopkLen n := by
  have hmin := min_initWindowsSize_le hbs n
  have hone := one_le_initWindowsSize hbs
  omega

theorem estimate_spec (hbs : 0 < bs) (h : (Request.mk prompt k).estimateNumSlotsSparsed true (setConfig bs) = some slots) :
    0 < k ∧ bs ≤ prompt ∧ segPrefillThreshold < prompt ∧ ceilDiv slots bs = sparseBlocks bs prompt k ∧
      slots % bs = (prompt + k) % bs := by
  rw [Request.estimateNumSlotsSparsed, if_neg (by decide)] at h
  split_ifs at h with houtput hthreshold
  have hk : 0 < k := Nat.pos_of_ne_zero fun he => houtput (.inl he)
  have hle : bs ≤ prompt := not_lt.mp fun hlt => houtput (.inr hlt)
  have hseg : segPrefillThreshold < prompt := not_le.mp hthreshold
  have hpos := computeTopkLen_pos hbs (ceilDiv_pos hbs (by omega : 0 < prompt))
  have hblocks : 0 < sparseBlocks bs prompt k := by
    rw [sparseBlocks]
    omega
  exact ⟨hk, hle, hseg, slots_of_sparseBlocks hbs hblocks rfl (Option.some.inj h).symm⟩

theorem exists_estimate (hle : bs ≤ prompt) (hseg : segPrefillThreshold < prompt) (hk : 0 < k) :
    ∃ slots, (Request.mk prompt k).estimateNumSlotsSparsed true (setConfig bs) = some slots := by
  have hvalid : ¬ ((Request.mk prompt k).numOutputTokens = 0 ∨
      (Request.mk prompt k).numPromptTokens < (setConfig bs).blockSize) := not_or.mpr ⟨hk.ne', not_lt.mpr hle⟩
  have hlong : ¬ (Request.mk prompt k).numPromptTokens ≤ segPrefillThreshold := not_le.mpr hseg
  rw [Request.estimateNumSlotsSparsed, if_neg (by decide), if_neg hvalid, if_neg hlong]
  exact ⟨_, rfl⟩

/-- At the first token one block less is needed when that token starts a block, unless every token does. -/
theorem numBlocksNeed_one (hbs : 1 < bs) (hslots : ceilDiv slots bs = sparseBlocks bs prompt 1) :
    (Request.mk prompt 1).numBlocksNeed (setConfig bs) slots = sparseBlocks bs prompt 0 := by
  have hstep := sparseBlocks_succ (by omega : 0 < bs) prompt 0
  have hstarts : (prompt + 1) % bs = 1 ↔ prompt % bs = 0 := by
    have hmod := Nat.mod_lt prompt (by omega : 0 < bs)
    rw [Nat.add_mod, Nat.mod_eq_of_lt hbs]
    by_cases hlast : prompt % bs + 1 = bs
    · rw [hlast, Nat.mod_self]
      omega
    · rw [Nat.mod_eq_of_lt (by omega)]
      omega
  have hsize : (setConfig bs).blockSize = bs := rfl
  rw [Request.numBlocksNeed, hsize, hslots]
  rw [Nat.zero_add, Nat.add_zero] at hstep
  rw [hstep]
  change (if prompt + 1 = prompt + 1 ∧ (prompt + 1) % bs = 1 then _ else _) = _
  simp only [true_and, hstarts]
  split_ifs <;> omega

theorem numBlocksNeed_succ (hk : 1 < k) (hslots : ceilDiv slots bs = sparseBlocks bs prompt k) :
    (Request.mk prompt k).numBlocksNeed (setConfig bs) slots = sparseBlocks bs prompt k := by
  have hlater : ¬ (prompt + 1 = (Request.mk prompt k).numTokens ∧ (Request.mk prompt k).numTokens % bs = 1) := by
    rintro ⟨h, -⟩
    change prompt + 1 = prompt + k at h
    omega
  rw [Request.numBlocksNeed]
  exact (if_neg hlater).trans hslots

end Estimate

section Split

variable {bs n need : Nat} {table : List Block}

theorem splitBlocks_eq (config : GSAConfig) (table : List Block) (need : Nat) :
    config.splitBlocks table need =
      (table.zipIdx.filter fun e => config.keeps table.length need e.2,
        table.zipIdx.filter fun e => !config.keeps table.length need e.2) := by
  rw [GSAConfig.splitBlocks, List.partition_eq_filter_filter]
  rfl

theorem splitBlocks_perm (config : GSAConfig) (table : List Block) (need : Nat) :
    ((config.splitBlocks table need).1 ++ (config.splitBlocks table need).2).Perm table.zipIdx := by
  rw [splitBlocks_eq]
  exact List.filter_append_perm _ _

theorem positions_eq (config : GSAConfig) (table : List Block) (need : Nat) :
    (config.splitBlocks table need).1.map Prod.snd = (List.range table.length).filter (config.keeps table.length need) := by
  have hpositions : table.zipIdx.map Prod.snd = List.range table.length := by
    rw [List.zipIdx_map_snd, List.range_eq_range']
  rw [splitBlocks_eq, ← hpositions, List.filter_map]
  rfl

/-- A table that is short enough stays as it is. -/
theorem returned_eq_nil (config : GSAConfig) (h : table.length ≤ need) : (config.splitBlocks table need).2 = [] := by
  rw [splitBlocks_eq]
  apply List.filter_eq_nil_iff.mpr
  intro e he
  have hkeeps : config.keeps table.length need e.2 = true := decide_eq_true (by omega)
  simp [hkeeps]

theorem length_kept_of_le (config : GSAConfig) (h : table.length ≤ need) :
    (config.splitBlocks table need).1.length = table.length := by
  have hlength := (splitBlocks_perm config table need).length_eq
  rwa [returned_eq_nil config h, List.append_nil, List.length_zipIdx] at hlength

/-- The init window and the last blocks, as many as are needed together. -/
theorem positions_perm (config : GSAConfig) (hinit : config.initWindowsSize ≤ need) (hneed : need ≤ table.length) :
    ((config.splitBlocks table need).1.map Prod.snd).Perm
      ((List.range table.length).take config.initWindowsSize ++
        (List.range table.length).drop (table.length + config.initWindowsSize - need)) := by
  have hsub := take_append_drop_sublist (n := table.length) (a := config.initWindowsSize)
    (b := table.length + config.initWindowsSize - need) (by omega)
  rw [positions_eq]
  apply (List.perm_ext_iff_of_nodup (List.nodup_range.filter _) (List.nodup_range.sublist hsub)).mpr
  intro i
  rw [List.mem_filter, List.mem_range, List.mem_append, GSAConfig.keeps, decide_eq_true_iff]
  have htake : i ∈ (List.range table.length).take config.initWindowsSize ↔ i < config.initWindowsSize ∧ i < table.length := by
    rw [List.take_range, List.mem_range]
    omega
  have hdrop : i ∈ (List.range table.length).drop (table.length + config.initWindowsSize - need) ↔
      table.length + config.initWindowsSize - need ≤ i ∧ i < table.length := by
    rw [List.range_eq_range', List.drop_range', List.mem_range'_1]
    omega
  rw [htake, hdrop]
  omega

theorem length_kept (config : GSAConfig) (hinit : config.initWindowsSize ≤ need) (hneed : need ≤ table.length) :
    (config.splitBlocks table need).1.length = need := by
  have hlength := (positions_perm config hinit hneed).length_eq
  rw [List.length_map, List.length_append, List.length_take, List.length_drop, List.length_range] at hlength
  omega

end Split

section Worker

variable {prompt : Nat}

/-- `remain_len` and `prefetch_len` blocks are cut out of more. -/
theorem getSparseAndFreeBlock_cut (config : GSAConfig) (stat : GSAReqStat) (hprompt : segPrefillThreshold < prompt)
    (h : config.computeTopkLen stat.blocks.length < stat.blocks.length) :
    let n := stat.blocks.length
    let worker := stat.getSparseAndFreeBlock true config prompt prompt
    worker.remainIdx = some ((List.range n).take config.initWindowsSize ++
        intSlice (List.range n) (config.initWindowsSize - config.computeTopkLen n) n) ∧
      worker.prefetchIdx = some (intSlice (List.range n)
        (config.initWindowsSize - config.computeTopkLen n - config.prefetchLen n)
        (config.initWindowsSize - config.computeTopkLen n)) ∧
      worker.sparseLen = config.computeTopkLen n + config.prefetchLen n := by
  rw [GSAReqStat.getSparseAndFreeBlock, if_neg (not_not.mpr rfl), if_pos ⟨hprompt, rfl, h⟩]
  exact ⟨rfl, rfl, rfl⟩

theorem getSparseAndFreeBlock_whole (config : GSAConfig) (stat : GSAReqStat) (prompt : Nat)
    (h : ¬ config.computeTopkLen stat.blocks.length < stat.blocks.length) :
    let worker := stat.getSparseAndFreeBlock true config prompt prompt
    worker.remainIdx = some (List.range stat.blocks.length) ∧ worker.prefetchIdx = some [] ∧
      worker.sparseLen = stat.blocks.length := by
  rw [GSAReqStat.getSparseAndFreeBlock, if_neg (not_not.mpr rfl), if_neg fun hc => h hc.2.2]
  exact ⟨rfl, rfl, rfl⟩

/-- The prefetched blocks are those before the last ones that stay. -/
theorem remain_append_prefetch_perm (config : GSAConfig) {n : Nat} (hinit : config.initWindowsSize < config.computeTopkLen n) :
    (((List.range n).take config.initWindowsSize ++
        intSlice (List.range n) (config.initWindowsSize - config.computeTopkLen n) n) ++
      intSlice (List.range n) (config.initWindowsSize - config.computeTopkLen n - config.prefetchLen n)
        (config.initWindowsSize - config.computeTopkLen n)).Perm
    ((List.range n).take config.initWindowsSize ++
      (List.range n).drop (n + config.initWindowsSize - (config.computeTopkLen n + config.prefetchLen n))) := by
  have hle := kept_le config n
  have hlast : n + config.initWindowsSize - config.computeTopkLen n ≤ (List.range n).length := by
    rw [List.length_range]
    omega
  have hremain : intSlice (List.range n) (config.initWindowsSize - config.computeTopkLen n) n =
      slice (List.range n) (n + config.initWindowsSize - config.computeTopkLen n) (List.range n).length := by
    have hslice := intSlice_of_neg (List.range n) (i := config.initWindowsSize - config.computeTopkLen n) (by omega)
    rw [List.length_range] at hslice
    rw [hslice, slice_length]
    congr 1
    omega
  have hprefetch : intSlice (List.range n) (config.initWindowsSize - config.computeTopkLen n - config.prefetchLen n)
        (config.initWindowsSize - config.computeTopkLen n) =
      slice (List.range n) (n + config.initWindowsSize - (config.computeTopkLen n + config.prefetchLen n))
        (n + config.initWindowsSize - config.computeTopkLen n) := by
    rw [intSlice, intSlice.bound, intSlice.bound, if_pos (by omega), if_pos (by omega), List.length_range]
    congr 1 <;> omega
  rw [hremain, hprefetch, List.append_assoc, ← slice_length,
    ← slice_append_slice (show n + config.initWindowsSize - (config.computeTopkLen n + config.prefetchLen n) ≤
      n + config.initWindowsSize - config.computeTopkLen n by omega) hlast]
  exact List.perm_append_comm.append_left _

theorem sparseLen_updataReqState (enable : Bool) (config : GSAConfig) (stat : GSAReqStat) (numPromptTokens numComputedTokens : Nat)
    (blockIds : List Block) :
    (stat.updataReqState enable config numPromptTokens numComputedTokens blockIds).sparseLen = blockIds.length := by
  rw [GSAReqStat.updataReqState]
  split_ifs with h
  · rfl
  · exact (not_not.mp h).symm

end Worker

section Run

variable {bs prompt slots : Nat} {table free : List Block} {s s' : Decode}

/-- The table is what the last allocation has left of it. -/
structure Inv (bs prompt : Nat) (table : List Block) (s : Decode) : Prop where
  outputs : 0 < s.numOutputTokens
  first : s.numOutputTokens = 1 →
    s.worker.blocks = table ∧ (s.table = table ∨ s.table.length = sparseBlocks bs prompt 0)
  later : 1 < s.numOutputTokens → s.table.length = sparseBlocks bs prompt (s.numOutputTokens - 1)

theorem inv_start : Inv bs prompt table (Decode.start table free) where
  outputs := Nat.zero_lt_one
  first _ := ⟨rfl, .inl rfl⟩
  later h := absurd h (Nat.lt_irrefl 1)

/-- The blocks that an allocation keeps, in number and in need. -/
theorem Inv.kept (h : Inv bs prompt table s) (hbs : 1 < bs) (htable : table.length = ceilDiv prompt bs)
    (hslots : ceilDiv slots bs = sparseBlocks bs prompt s.numOutputTokens) :
    let need := (s.request prompt).numBlocksNeed (setConfig bs) slots
    ((setConfig bs).splitBlocks s.table need).1.length = sparseBlocks bs prompt (s.numOutputTokens - 1) ∧
      (s.numOutputTokens = 1 → need = sparseBlocks bs prompt 0) ∧
      (1 < s.numOutputTokens → s.table.length ≤ need) := by
  obtain ⟨k, hk⟩ := Nat.exists_eq_add_one.mpr h.outputs
  have hbs' : 0 < bs := by omega
  by_cases hone : s.numOutputTokens = 1
  · have hneed : (s.request prompt).numBlocksNeed (setConfig bs) slots = sparseBlocks bs prompt 0 := by
      rw [Decode.request, hone]
      exact numBlocksNeed_one hbs (hone ▸ hslots)
    dsimp only
    rw [hneed, hone, Nat.sub_self]
    refine ⟨?_, fun _ => rfl, fun hlt => absurd hlt (Nat.lt_irrefl 1)⟩
    rcases (h.first hone).2 with hfull | hcut
    · have hle := kept_le (setConfig bs) table.length
      have hmin := min_initWindowsSize_le hbs' table.length
      rw [hfull]
      rw [sparseBlocks_zero, ← htable]
      rcases Nat.lt_or_ge ((setConfig bs).computeTopkLen table.length + (setConfig bs).prefetchLen table.length)
        table.length with hlt | hge
      · exact length_kept _ (by omega) hlt.le
      · rw [length_kept_of_le _ hge]
        omega
    · exact (length_kept_of_le _ hcut.le).trans hcut
  · have hlater : 1 < s.numOutputTokens := by omega
    have hneed : (s.request prompt).numBlocksNeed (setConfig bs) slots = sparseBlocks bs prompt s.numOutputTokens :=
      numBlocksNeed_succ hlater hslots
    have hstep := sparseBlocks_succ hbs' prompt k
    have hlength := h.later hlater
    rw [hk, Nat.add_sub_cancel] at hlength
    have hle : s.table.length ≤ sparseBlocks bs prompt s.numOutputTokens := by
      rw [hk, hstep, hlength]
      omega
    dsimp only
    rw [hneed, length_kept_of_le _ hle, hk, Nat.add_sub_cancel, hlength]
    refine ⟨rfl, fun he => by omega, fun _ => ?_⟩
    rw [hstep]
    omega

/-- Either the pool has too few blocks, or the table has the blocks of the slots. -/
theorem allocateSlots_spec (config : GSAConfig) (prompt slots : Nat) (s : Decode)
    (hkept : (config.splitBlocks s.table ((s.request prompt).numBlocksNeed config slots)).1.length ≤
      ceilDiv slots config.blockSize) :
    let s' := s.allocateSlots config prompt slots
    (s'.numOutputTokens = s.numOutputTokens ∧ s'.worker = s.worker ∧ s'.table.length =
        (config.splitBlocks s.table ((s.request prompt).numBlocksNeed config slots)).1.length) ∨
      (s'.numOutputTokens = s.numOutputTokens + 1 ∧ s'.table.length = ceilDiv slots config.blockSize ∧
        s'.worker.sparseLen = s'.table.length) := by
  rw [Decode.allocateSlots]
  dsimp only
  split_ifs with hroom
  · exact .inl ⟨rfl, rfl, List.length_map _⟩
  · refine .inr ⟨rfl, ?_, sparseLen_updataReqState _ _ _ _ _ _⟩
    rw [List.length_append, List.length_map, List.length_take]
    rw [List.length_map] at hroom
    omega

theorem Inv.step (h : Inv bs prompt table s) (hbs : 1 < bs) (htable : table.length = ceilDiv prompt bs) {e : DecodeEvent}
    (hs : Decode.step (setConfig bs) prompt s e = some s') : Inv bs prompt table s' := by
  cases e with
  | pool free =>
    cases hs
    exact ⟨h.outputs, h.first, h.later⟩
  | allocate =>
    obtain ⟨slots, hestimate, rfl⟩ := Option.map_eq_some_iff.mp hs
    obtain ⟨-, -, -, hslots, -⟩ := estimate_spec (by omega) hestimate
    obtain ⟨hkept, -, -⟩ := h.kept hbs htable hslots
    obtain ⟨k, hk⟩ := Nat.exists_eq_add_one.mpr h.outputs
    have hstep := sparseBlocks_succ (by omega : 0 < bs) prompt k
    have hle : sparseBlocks bs prompt (s.numOutputTokens - 1) ≤ sparseBlocks bs prompt s.numOutputTokens := by
      rw [hk, Nat.add_sub_cancel, hstep]
      omega
    rcases allocateSlots_spec (setConfig bs) prompt slots s (hkept.trans_le (hle.trans hslots.ge)) with
      ⟨hsame, hworker, hlength⟩ | ⟨hnext, hlength, -⟩
    · refine ⟨hsame ▸ h.outputs, fun hone => ?_, fun hlater => ?_⟩
      · rw [hsame] at hone
        rw [hworker]
        refine ⟨(h.first hone).1, .inr ?_⟩
        rw [hlength, hkept, hone]
      · rw [hlength, hkept, hsame]
    · refine ⟨by omega, fun hone => ?_, fun _ => ?_⟩
      · have hpos := h.outputs
        omega
      · rw [hnext, Nat.add_sub_cancel, hlength]
        exact hslots

theorem computeTopkLen_of_small (hbs : 0 < bs) (hsmall : bs < 4096) (n : Nat) :
    (setConfig bs).initWindowsSize < (setConfig bs).computeTopkLen n ∨ (setConfig bs).computeTopkLen n = n := by
  have hle := computeTopkLen_le (setConfig bs) n
  have hmax := minTopkLen_le_maxTopkLen hbs
  have hmin : (setConfig bs).initWindowsSize < (setConfig bs).minTopkLen := by
    apply (lt_ceilDiv_iff hbs _ _).mpr
    by_cases h : 128 ≤ bs
    · have hone : (setConfig bs).initWindowsSize ≤ 1 := (ceilDiv_le_iff hbs _ _).mpr (by
        rw [Nat.one_mul, defaultBlockSize]
        omega)
      have hmul := Nat.mul_le_mul_right bs hone
      rw [defaultBlockSize]
      omega
    · have hmul := Nat.div_mul_le_self (1 * defaultBlockSize + bs - 1) bs
      change (setConfig bs).initWindowsSize * bs ≤ _ at hmul
      rw [defaultBlockSize] at hmul ⊢
      omega
  have hlow : min (setConfig bs).minTopkLen n ≤ (setConfig bs).computeTopkLen n := by
    rw [GSAConfig.computeTopkLen]
    split_ifs <;> omega
  omega

theorem ceilThreeTenths_le_one {n : Nat} (hn : 0 < n) : ceilThreeTenths n ≤ 1 ↔ n ≤ 3 := by
  constructor
  · intro h
    by_contra hfour
    obtain ⟨-, hdown⟩ := Rounding.nearest_close 53 n
    obtain ⟨-, hdown'⟩ := Rounding.nearest_close 53 (Rounding.nearest 53 n * 5404319552844595)
    rw [ceilThreeTenths, ceilDiv_le_iff (by decide)] at h
    omega
  · intro h
    interval_cases n
    · decide
    · decide
    · decide

/-- In large blocks the init window is one block, and so may be all that the worker keeps. -/
theorem computeTopkLen_of_large (hlarge : 4096 ≤ bs) {n : Nat} (hn : 0 < n) :
    (setConfig bs).initWindowsSize = 1 ∧ ((setConfig bs).computeTopkLen n = 1 ↔ 6144 ≤ bs ∨ n ≤ 3) := by
  have hbs : 0 < bs := by omega
  have hinit : (setConfig bs).initWindowsSize ≤ 1 := (ceilDiv_le_iff hbs _ _).mpr (by
    rw [Nat.one_mul, defaultBlockSize]
    omega)
  have hmin : (setConfig bs).minTopkLen ≤ 1 := (ceilDiv_le_iff hbs _ _).mpr (by
    rw [Nat.one_mul, defaultBlockSize]
    omega)
  have hmax : (setConfig bs).maxTopkLen ≤ 1 ↔ 6144 ≤ bs := by
    change ceilDiv _ _ ≤ 1 ↔ _
    rw [ceilDiv_le_iff hbs, Nat.one_mul, defaultBlockSize]
  have hpos := computeTopkLen_pos hbs hn
  have hone := one_le_initWindowsSize hbs
  have hceil := ceilThreeTenths_le_one hn
  have hceilPos := (ceilThreeTenths_bounds n).2 hn
  have hle := minTopkLen_le_maxTopkLen hbs
  have hinitMin := initWindowsSize_le_minTopkLen hbs
  refine ⟨by omega, ?_⟩
  rw [GSAConfig.computeTopkLen] at hpos ⊢
  split_ifs at hpos ⊢ <;> omega

/-- Where the worker's slices are those of the scheduler. -/
theorem cut_iff (hbs : 0 < bs) (hprompt : segPrefillThreshold < prompt) :
    (setConfig bs).initWindowsSize < (setConfig bs).computeTopkLen (ceilDiv prompt bs) ∨
        (setConfig bs).computeTopkLen (ceilDiv prompt bs) = ceilDiv prompt bs ↔
      bs < 4096 ∨ prompt ≤ bs ∨ bs < 6144 ∧ 3 * bs < prompt := by
  rcases Nat.lt_or_ge bs 4096 with hsmall | hlarge
  · exact iff_of_true (computeTopkLen_of_small hbs hsmall _) (.inl hsmall)
  · have hpos := ceilDiv_pos hbs (show 0 < prompt by omega)
    obtain ⟨hinit, htopk⟩ := computeTopkLen_of_large hlarge hpos
    have hle := computeTopkLen_le (setConfig bs) (ceilDiv prompt bs)
    have htopkPos := computeTopkLen_pos hbs hpos
    have hsingle : ceilDiv prompt bs ≤ 1 ↔ prompt ≤ bs := by
      rw [ceilDiv_le_iff hbs, Nat.one_mul]
    have hthree : ceilDiv prompt bs ≤ 3 ↔ prompt ≤ 3 * bs := ceilDiv_le_iff hbs _ _
    omega

/-- The first allocation keeps what the worker computes. -/
theorem first_agrees (hprompt : segPrefillThreshold < prompt) {stat : GSAReqStat}
    (hblocks : stat.blocks.length = table.length)
    (hcut : (setConfig bs).initWindowsSize < (setConfig bs).computeTopkLen table.length ∨
      (setConfig bs).computeTopkLen table.length = table.length) {need : Nat}
    (hneed : need = (setConfig bs).computeTopkLen table.length + (setConfig bs).prefetchLen table.length) :
    let split := (setConfig bs).splitBlocks table need
    let worker := stat.getSparseAndFreeBlock true (setConfig bs) prompt prompt
    ∃ remainIdx prefetchIdx, worker.remainIdx = some remainIdx ∧ worker.prefetchIdx = some prefetchIdx ∧
      (split.1.map Prod.snd).Perm (remainIdx ++ prefetchIdx) ∧ split.1.length = worker.sparseLen := by
  subst hneed
  have hle := kept_le (setConfig bs) table.length
  have htopk := computeTopkLen_le (setConfig bs) table.length
  rcases Nat.lt_or_ge ((setConfig bs).computeTopkLen table.length) table.length with hlt | hge
  · obtain ⟨hremain, hprefetch, hlength⟩ := getSparseAndFreeBlock_cut (setConfig bs) stat hprompt (hblocks.symm ▸ hlt)
    have hinit : (setConfig bs).initWindowsSize < (setConfig bs).computeTopkLen table.length := by omega
    refine ⟨_, _, hremain, hprefetch, ?_, ?_⟩
    · rw [hblocks]
      exact (positions_perm _ (by omega) hle).trans (remain_append_prefetch_perm _ hinit).symm
    · rw [hlength, hblocks, length_kept _ (by omega) hle]
  · obtain ⟨hremain, hprefetch, hlength⟩ := getSparseAndFreeBlock_whole (setConfig bs) stat prompt
      (hblocks.symm ▸ not_lt.mpr hge)
    have hall : table.length ≤
        (setConfig bs).computeTopkLen table.length + (setConfig bs).prefetchLen table.length := by omega
    refine ⟨_, _, hremain, hprefetch, ?_, ?_⟩
    · have hperm := (splitBlocks_perm (setConfig bs) table
        ((setConfig bs).computeTopkLen table.length + (setConfig bs).prefetchLen table.length)).map Prod.snd
      rw [returned_eq_nil _ hall, List.append_nil, List.zipIdx_map_snd, ← List.range_eq_range'] at hperm
      rw [hblocks, List.append_nil]
      exact hperm
    · rw [hlength, hblocks, length_kept_of_le _ hall]

theorem agrees_of_cut (hbs : 1 < bs) (hprompt : segPrefillThreshold < prompt)
    (hcut : (setConfig bs).initWindowsSize < (setConfig bs).computeTopkLen (ceilDiv prompt bs) ∨
      (setConfig bs).computeTopkLen (ceilDiv prompt bs) = ceilDiv prompt bs) : Agrees bs prompt := by
  intro table free htable s hreach slots hestimate
  have hbs' : 0 < bs := by omega
  have hinv : Inv bs prompt table s :=
    hreach.invariant (Inv bs prompt table) inv_start fun _ _ _ hi _ hs => hi.step hbs htable hs
  obtain ⟨k, hk⟩ := Nat.exists_eq_add_one.mpr hinv.outputs
  obtain ⟨-, -, -, hslots, hmod⟩ := estimate_spec hbs' hestimate
  obtain ⟨hkept, hfirst, hlater⟩ := hinv.kept hbs htable hslots
  have hstep := sparseBlocks_succ hbs' prompt k
  refine ⟨splitBlocks_perm _ _ _, hmod, ?_, fun hlt => returned_eq_nil _ (hlater hlt), ?_⟩
  · intro hone hfull
    have hblocks : s.worker.blocks.length = s.table.length := by rw [(hinv.first hone).1, hfull]
    apply first_agrees hprompt hblocks
    · rwa [hfull, htable]
    · rw [hfirst hone, sparseBlocks_zero, hfull, htable]
  · dsimp only
    intro hnext
    have hle : sparseBlocks bs prompt (s.numOutputTokens - 1) ≤ sparseBlocks bs prompt s.numOutputTokens := by
      rw [hk, Nat.add_sub_cancel, hstep]
      omega
    rcases allocateSlots_spec (setConfig bs) prompt slots s (hkept.trans_le (hle.trans hslots.ge)) with
      ⟨hsame, -⟩ | ⟨-, hlength, hworker⟩
    · omega
    · refine ⟨hlength, hworker, fun hlt => ?_⟩
      have hold := hinv.later hlt
      change _ = ceilDiv slots bs at hlength
      have htokens : (s.request prompt).numTokens - 1 = prompt + k := by
        change prompt + s.numOutputTokens - 1 = prompt + k
        omega
      rw [hlength, hslots, hold, hk, Nat.add_sub_cancel, hstep, htokens]

/-- Blocks of one token: the scheduler keeps one block more than the worker. -/
theorem not_agrees_one (hprompt : segPrefillThreshold < prompt) : ¬ Agrees 1 prompt := by
  intro h
  have hlong : 8400 < prompt := hprompt
  have hn : ceilDiv prompt 1 = prompt := by rw [ceilDiv, Nat.add_sub_cancel, Nat.div_one]
  have htopk : (setConfig 1).computeTopkLen prompt ≤ 6144 := computeTopkLen_le_maxTopkLen Nat.one_pos prompt
  have hprefetch : (setConfig 1).prefetchLen prompt ≤ 128 := Nat.min_le_left _ _
  have hinit : (setConfig 1).initWindowsSize = 128 := rfl
  have hmin := min_initWindowsSize_le Nat.one_pos prompt
  obtain ⟨slots, hestimate⟩ := exists_estimate (k := 1) (by omega : 1 ≤ prompt) hprompt Nat.one_pos
  obtain ⟨-, -, -, hslots, -⟩ := estimate_spec Nat.one_pos hestimate
  obtain ⟨table, htable⟩ : ∃ table : List Block, table.length = prompt := ⟨List.range prompt, List.length_range⟩
  obtain ⟨-, -, hfirst, -⟩ := h table [] (htable.trans hn.symm) _ Reach.start slots hestimate
  obtain ⟨-, -, -, -, -, hlength⟩ := hfirst rfl rfl
  have hcut : (setConfig 1).computeTopkLen table.length < table.length := by
    rw [htable]
    omega
  obtain ⟨-, -, hsparse⟩ := getSparseAndFreeBlock_cut (setConfig 1) (Decode.start table []).worker hprompt hcut
  have hneed : ((Decode.start table []).request prompt).numBlocksNeed (setConfig 1) slots =
      (setConfig 1).computeTopkLen prompt + (setConfig 1).prefetchLen prompt + 1 := by
    have hnever : ¬ (prompt + 1 = prompt + 1 ∧ (prompt + 1) % 1 = 1) := by
      rw [Nat.mod_one]
      omega
    have hstep := sparseBlocks_succ Nat.one_pos prompt 0
    rw [Nat.add_zero, Nat.mod_one, if_pos rfl, sparseBlocks_zero, hn] at hstep
    exact (if_neg hnever).trans (hslots.trans hstep)
  have hkept : ((setConfig 1).splitBlocks table
      ((setConfig 1).computeTopkLen prompt + (setConfig 1).prefetchLen prompt + 1)).1.length = _ :=
    length_kept _ (by omega) (by omega)
  have hworker : ((Decode.start table []).worker.getSparseAndFreeBlock true (setConfig 1) prompt prompt).sparseLen =
      (setConfig 1).computeTopkLen table.length + (setConfig 1).prefetchLen table.length := hsparse
  rw [hneed, hworker, htable] at hlength
  have hmore := hkept.symm.trans hlength
  omega

/-- The worker's slice starts at the front and is the whole list. -/
theorem not_agrees_of_not_cut (hbs : 0 < bs) (hle : bs ≤ prompt) (hprompt : segPrefillThreshold < prompt)
    (hcut : ¬ ((setConfig bs).initWindowsSize < (setConfig bs).computeTopkLen (ceilDiv prompt bs) ∨
      (setConfig bs).computeTopkLen (ceilDiv prompt bs) = ceilDiv prompt bs)) : ¬ Agrees bs prompt := by
  intro h
  have hmin := min_initWindowsSize_le hbs (ceilDiv prompt bs)
  have htopk := computeTopkLen_le (setConfig bs) (ceilDiv prompt bs)
  have hone := one_le_initWindowsSize hbs
  have hpos := ceilDiv_pos hbs (show 0 < prompt by omega)
  obtain ⟨slots, hestimate⟩ := exists_estimate (k := 1) hle hprompt Nat.one_pos
  obtain ⟨table, htable⟩ : ∃ table : List Block, table.length = ceilDiv prompt bs :=
    ⟨List.range (ceilDiv prompt bs), List.length_range⟩
  obtain ⟨-, -, hfirst, -⟩ := h table [] htable _ Reach.start slots hestimate
  obtain ⟨remainIdx, prefetchIdx, hremain, -, hperm, -⟩ := hfirst rfl rfl
  have hlt : (setConfig bs).computeTopkLen table.length < table.length := by
    rw [htable]
    omega
  obtain ⟨hslice, -, -⟩ := getSparseAndFreeBlock_cut (setConfig bs) (Decode.start table []).worker hprompt hlt
  have hwhole : intSlice (List.range table.length)
      ((setConfig bs).initWindowsSize - (setConfig bs).computeTopkLen table.length) table.length = List.range table.length := by
    have hsame : (setConfig bs).initWindowsSize = (setConfig bs).computeTopkLen table.length := by
      rw [htable]
      omega
    have hfront := intSlice_of_nonneg (List.range table.length) (le_refl (0 : Int))
    rw [List.length_range] at hfront
    rw [hsame, Int.sub_self, hfront]
    rfl
  have hlist : remainIdx = (List.range table.length).take (setConfig bs).initWindowsSize ++ List.range table.length := by
    have hsame := Option.some.inj (hremain.symm.trans hslice)
    change _ = _ ++ intSlice (List.range table.length)
      ((setConfig bs).initWindowsSize - (setConfig bs).computeTopkLen table.length) table.length at hsame
    rw [hwhole] at hsame
    exact hsame
  have hnodup : (remainIdx ++ prefetchIdx).Nodup := by
    rw [← hperm.nodup_iff, positions_eq]
    exact List.nodup_range.filter _
  rw [hlist] at hnodup
  have hfront : 0 ∈ (List.range table.length).take (setConfig bs).initWindowsSize := by
    rw [List.take_range, List.mem_range]
    omega
  have hdisjoint := List.disjoint_of_nodup_append hnodup.of_append_left
  exact hdisjoint hfront (List.mem_range.mpr (by omega))

end Run

/-- Where blocks hold more than one token and the worker's slices count from the end. A prompt shorter than a
block is never allocated for. -/
theorem agrees_iff (bs prompt : Nat) (hbs : 0 < bs) (hprompt : segPrefillThreshold < prompt) :
    Agrees bs prompt ↔ bs ≠ 1 ∧ (bs < 4096 ∨ prompt ≤ bs ∨ bs < 6144 ∧ 3 * bs < prompt) := by
  rw [← cut_iff hbs hprompt]
  constructor
  · intro h
    constructor
    · rintro rfl
      exact not_agrees_one hprompt h
    · by_contra hcut
      rcases Nat.lt_or_ge prompt bs with hlt | hle
      · have hlong : 8400 < prompt := hprompt
        exact hcut ((cut_iff hbs hprompt).mpr (by omega))
      · exact not_agrees_of_not_cut hbs hle hprompt hcut h
  · rintro ⟨hne, hcut⟩
    exact agrees_of_cut (by omega) hprompt hcut

/-- A prompt of 10000 tokens in blocks of 128. -/
theorem agrees_tenThousand : Agrees 128 10000 :=
  (agrees_iff 128 10000 (by decide) (by decide)).mpr (by decide)

/-- Blocks of one token. -/
theorem not_agrees_oneToken : ¬ Agrees 1 10000 :=
  not_agrees_one (by decide)

end UnifiedCache.Sparse.GSA
