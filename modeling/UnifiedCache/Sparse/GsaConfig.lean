import UnifiedCache.Lib.Rounding

/-! The sizes that GSA derives from the block size, and how many blocks of a prompt it keeps. -/

namespace UnifiedCache.Sparse.GSA

def defaultBlockSize : Nat := 128

def segPrefillThreshold : Nat := 8400

/-- `math.ceil(a / b)` of two integers. -/
def ceilDiv (a b : Nat) : Nat := (a + b - 1) / b

structure GSAConfig where
  blockSize : Nat
  minTopkLen : Nat
  maxTopkLen : Nat
  numPrefetchBlocks : Nat
  initWindowsSize : Nat
  numGsaBlocks : Nat
  deriving DecidableEq

def setConfig (blockSize : Nat) : GSAConfig where
  blockSize := blockSize
  minTopkLen := ceilDiv (32 * defaultBlockSize) blockSize
  maxTopkLen := ceilDiv (48 * defaultBlockSize) blockSize
  numPrefetchBlocks := ceilDiv (1 * defaultBlockSize) blockSize
  initWindowsSize := ceilDiv (1 * defaultBlockSize) blockSize
  numGsaBlocks := ceilDiv (1 * defaultBlockSize) blockSize

/-- `math.ceil(n * 0.3)` of floats: the float next to 0.3 is 5404319552844595 / 2 ^ 54. -/
def ceilThreeTenths (n : Nat) : Nat :=
  ceilDiv (Rounding.nearest 53 (Rounding.nearest 53 n * 5404319552844595)) (2 ^ 54)

namespace GSAConfig

variable (config : GSAConfig)

def computeTopkLen (rawSeqLen : Nat) : Nat :=
  let topkLen := ceilThreeTenths rawSeqLen
  if topkLen < config.minTopkLen then min config.minTopkLen rawSeqLen
  else if config.maxTopkLen < topkLen then config.maxTopkLen
  else topkLen

/-- `prefetch_len`, as the scheduler and the worker both compute it. -/
def prefetchLen (blocksLen : Nat) : Nat := min config.numPrefetchBlocks (blocksLen - config.computeTopkLen blocksLen)

end GSAConfig

variable {n bs : Nat}

theorem ceilDiv_le_iff (hbs : 0 < bs) (a k : Nat) : ceilDiv a bs ≤ k ↔ a ≤ k * bs := by
  rw [ceilDiv, ← Nat.lt_add_one_iff, Nat.div_lt_iff_lt_mul hbs, Nat.add_mul]
  omega

theorem lt_ceilDiv_iff (hbs : 0 < bs) (a k : Nat) : k < ceilDiv a bs ↔ k * bs < a := by
  rw [← not_le, ceilDiv_le_iff hbs, not_le]

theorem ceilDiv_mono (hbs : 0 < bs) {a b : Nat} (h : a ≤ b) : ceilDiv a bs ≤ ceilDiv b bs :=
  Nat.div_le_div_right (by omega)

theorem ceilThreeTenths_bounds (n : Nat) : ceilThreeTenths n ≤ n ∧ (0 < n → 0 < ceilThreeTenths n) := by
  obtain ⟨hup, hdown⟩ := Rounding.nearest_close 53 n
  obtain ⟨hup', hdown'⟩ := Rounding.nearest_close 53 (Rounding.nearest 53 n * 5404319552844595)
  rw [ceilThreeTenths, ceilDiv_le_iff (by decide), lt_ceilDiv_iff (by decide)]
  constructor
  · omega
  · omega

section Sizes

theorem one_le_initWindowsSize (hbs : 0 < bs) : 1 ≤ (setConfig bs).initWindowsSize :=
  (lt_ceilDiv_iff hbs _ 0).mpr (by rw [Nat.zero_mul]; decide)

theorem one_le_numPrefetchBlocks (hbs : 0 < bs) : 1 ≤ (setConfig bs).numPrefetchBlocks :=
  one_le_initWindowsSize hbs

theorem initWindowsSize_le_minTopkLen (hbs : 0 < bs) : (setConfig bs).initWindowsSize ≤ (setConfig bs).minTopkLen :=
  ceilDiv_mono hbs (by decide)

theorem minTopkLen_le_maxTopkLen (hbs : 0 < bs) : (setConfig bs).minTopkLen ≤ (setConfig bs).maxTopkLen :=
  ceilDiv_mono hbs (by decide)

theorem computeTopkLen_le (config : GSAConfig) (n : Nat) : config.computeTopkLen n ≤ n := by
  have hceil := (ceilThreeTenths_bounds n).1
  rw [GSAConfig.computeTopkLen]
  split_ifs <;> omega

theorem computeTopkLen_le_maxTopkLen (hbs : 0 < bs) (n : Nat) :
    (setConfig bs).computeTopkLen n ≤ (setConfig bs).maxTopkLen := by
  have hmax := minTopkLen_le_maxTopkLen hbs
  rw [GSAConfig.computeTopkLen]
  split_ifs <;> omega

/-- Short of all blocks, the kept ones are at least as many as the init window. -/
theorem min_initWindowsSize_le (hbs : 0 < bs) (n : Nat) :
    min (setConfig bs).initWindowsSize n ≤ (setConfig bs).computeTopkLen n := by
  have hinit := initWindowsSize_le_minTopkLen hbs
  have hmax := minTopkLen_le_maxTopkLen hbs
  rw [GSAConfig.computeTopkLen]
  split_ifs <;> omega

theorem kept_le (config : GSAConfig) (n : Nat) : config.computeTopkLen n + config.prefetchLen n ≤ n := by
  have hle := computeTopkLen_le config n
  rw [GSAConfig.prefetchLen]
  omega

/-- With the prefetched blocks, more than the init window is kept whenever there is more. -/
theorem initWindowsSize_lt_kept (hbs : 0 < bs) (n : Nat) :
    (setConfig bs).initWindowsSize < (setConfig bs).computeTopkLen n + (setConfig bs).prefetchLen n ↔
      (setConfig bs).initWindowsSize < n := by
  have hle := kept_le (setConfig bs) n
  have hmin := min_initWindowsSize_le hbs n
  have hone := one_le_numPrefetchBlocks hbs
  constructor
  · omega
  · intro hn
    rw [GSAConfig.prefetchLen]
    omega

theorem kept_of_le_initWindowsSize (hbs : 0 < bs) (hn : n ≤ (setConfig bs).initWindowsSize) :
    (setConfig bs).computeTopkLen n = n ∧ (setConfig bs).prefetchLen n = 0 := by
  have hle := computeTopkLen_le (setConfig bs) n
  have hmin := min_initWindowsSize_le hbs n
  have htopk : (setConfig bs).computeTopkLen n = n := by omega
  refine ⟨htopk, ?_⟩
  rw [GSAConfig.prefetchLen, htopk, Nat.sub_self, Nat.min_zero]

end Sizes

end UnifiedCache.Sparse.GSA
