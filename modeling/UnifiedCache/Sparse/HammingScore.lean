import UnifiedCache.Lib.Collections

/-! How far the codes of a block are from the code of a query: the counts of sixteen bytes at a
time that the hash retrieval adds up, and the least of a block. -/

namespace UnifiedCache.Sparse.HashRetrieval

abbrev Byte : Type := BitVec 8

/-- The builds of `vec_popcnt_xor_sum16`. -/
inductive Target where
  | aarch64
  | arm
  | x86
  | portable
deriving DecidableEq

/-- A register of sixteen bytes. -/
abbrev Vec16u : Type := Fin 16 → Byte

namespace Vec16u

variable (v : Vec16u)

def loadu16 (p : Nat → Byte) : Vec16u := fun i => p i

def xor (w : Vec16u) : Vec16u := fun i => v i ^^^ w i

/-- `vcntq_u8`. -/
def cnt : Vec16u := fun i => (v i).cpop

/-- `vaddvq_u8`, whose sum has eight bits. -/
def addv : BitVec 8 := (List.finRange 16).foldl (fun sum i => sum + v i) 0

/-- `vpaddlq_u8`, `vpaddlq_u16` and `vpaddlq_u32` one after the other. -/
def paddl8 (i : Fin 8) : BitVec 16 := (v ⟨2 * i, by omega⟩).setWidth 16 + (v ⟨2 * i + 1, by omega⟩).setWidth 16

def paddl16 (i : Fin 4) : BitVec 32 :=
  (v.paddl8 ⟨2 * i, by omega⟩).setWidth 32 + (v.paddl8 ⟨2 * i + 1, by omega⟩).setWidth 32

def paddl32 (i : Fin 2) : BitVec 64 :=
  (v.paddl16 ⟨2 * i, by omega⟩).setWidth 64 + (v.paddl16 ⟨2 * i + 1, by omega⟩).setWidth 64

/-- `_mm_extract_epi64`: the first byte is the lowest. -/
def extractLow : BitVec 64 := v 7 ++ v 6 ++ v 5 ++ v 4 ++ v 3 ++ v 2 ++ v 1 ++ v 0

def extractHigh : BitVec 64 := v 15 ++ v 14 ++ v 13 ++ v 12 ++ v 11 ++ v 10 ++ v 9 ++ v 8

end Vec16u

def vecPopcntXorSum16 (target : Target) (a b : Nat → Byte) : BitVec 16 :=
  let vx := (Vec16u.loadu16 a).xor (Vec16u.loadu16 b)
  match target with
  | .aarch64 => vx.cnt.addv.setWidth 16
  | .arm => (vx.cnt.paddl32 0 + vx.cnt.paddl32 1).setWidth 16
  | .x86 => vx.extractLow.cpop.setWidth 16 + vx.extractHigh.cpop.setWidth 16
  | .portable => (List.range 16).foldl (fun s i => s + ((a i ^^^ b i).setWidth 32).cpop.setWidth 16) 0

/-- The sum over the vectors of a token and the bytes after them. -/
def tokenDistance (target : Target) (dim : Nat) (q k : Nat → Byte) : Nat :=
  let vecPerDim := dim / 16
  let tailDim := dim % 16
  let tailStart := vecPerDim * 16
  let sum := (List.range vecPerDim).foldl
    (fun sum v => sum + (vecPopcntXorSum16 target (fun i => q (v * 16 + i)) fun i => k (v * 16 + i)).toNat) 0
  if tailDim ≠ 0 then
    (List.range tailDim).foldl
      (fun sum t => sum + ((q (tailStart + t) ^^^ k (tailStart + t)).setWidth 32).cpop.toNat) sum
  else sum

/-- The loop over the tokens. A score of zero ends it. -/
def scoreFrom (distance : Nat → Nat) : Nat → List Nat → Nat
  | score, [] => score
  | score, t :: ts =>
    if distance t < score then
      if distance t = 0 then 0 else scoreFrom distance (distance t) ts
    else scoreFrom distance score ts

def blockScore (target : Target) (dim blockSize : Nat) (q block : Nat → Byte) : Nat :=
  scoreFrom (fun t => tokenDistance target dim q fun j => block (t * dim + j)) 65535 (List.range blockSize)

/-- The number of bits in which two codes differ. -/
def hamming (dim : Nat) (q k : Nat → Byte) : Nat :=
  ((Finset.range (8 * dim)).filter fun i => (q (i / 8)).getLsbD (i % 8) ≠ (k (i / 8)).getLsbD (i % 8)).card

/-- The number of bits in which two bytes differ. -/
def differing (a b : Byte) : Nat := (a ^^^ b).cpop.toNat

theorem differing_le (a b : Byte) : differing a b ≤ 8 := BitVec.toNat_cpop_le _

theorem differing_eq_card (a b : Byte) :
    differing a b = ((Finset.range 8).filter fun i => a.getLsbD i ≠ b.getLsbD i).card := by
  rw [differing, BitVec.toNat_cpop, Finset.card_filter]
  simp only [BitVec.cpopNatRec_succ, BitVec.cpopNatRec_zero_self, BitVec.getLsbD_xor, Finset.sum_range_succ,
    Finset.sum_range_zero]
  have hbit (i : Nat) : (a.getLsbD i ^^ b.getLsbD i).toNat = if a.getLsbD i ≠ b.getLsbD i then 1 else 0 := by
    cases a.getLsbD i <;> cases b.getLsbD i <;> rfl
  simp only [hbit]
  omega

theorem toNat_foldl_add {w : Nat} (f : Nat → BitVec w) (n : Nat) (h : ∑ i ∈ Finset.range n, (f i).toNat < 2 ^ w) :
    ((List.range n).foldl (fun s i => s + f i) 0).toNat = ∑ i ∈ Finset.range n, (f i).toNat := by
  induction n with
  | zero => simp
  | succ n ih =>
    rw [Finset.sum_range_succ] at h
    rw [List.range_succ, List.foldl_append, Finset.sum_range_succ]
    change (_ + f n).toNat = _
    rw [BitVec.toNat_add, ih (by omega), Nat.mod_eq_of_lt h]

theorem sum_differing_le (a b : Nat → Byte) (n : Nat) :
    ∑ i ∈ Finset.range n, differing (a i) (b i) ≤ 8 * n := by
  induction n with
  | zero => simp
  | succ n ih => have := differing_le (a n) (b n); rw [Finset.sum_range_succ]; omega

namespace Vec16u

variable (v : Vec16u)

-- A lane of the next width holds the sum of any two lanes.
theorem toNat_paddl8 (i : Fin 8) :
    (v.paddl8 i).toNat = (v ⟨2 * i, by omega⟩).toNat + (v ⟨2 * i + 1, by omega⟩).toNat := by
  simp only [paddl8, BitVec.toNat_add, BitVec.toNat_setWidth]
  omega

theorem toNat_paddl16 (i : Fin 4) :
    (v.paddl16 i).toNat = (v.paddl8 ⟨2 * i, by omega⟩).toNat + (v.paddl8 ⟨2 * i + 1, by omega⟩).toNat := by
  simp only [paddl16, BitVec.toNat_add, BitVec.toNat_setWidth]
  omega

theorem toNat_paddl32 (i : Fin 2) :
    (v.paddl32 i).toNat = (v.paddl16 ⟨2 * i, by omega⟩).toNat + (v.paddl16 ⟨2 * i + 1, by omega⟩).toNat := by
  simp only [paddl32, BitVec.toNat_add, BitVec.toNat_setWidth]
  omega

end Vec16u

theorem toNat_vecPopcntXorSum16 (target : Target) (a b : Nat → Byte) :
    (vecPopcntXorSum16 target a b).toNat = ∑ i ∈ Finset.range 16, differing (a i) (b i) := by
  have hle := sum_differing_le a b 16
  cases target with
  | aarch64 =>
    have hsum := toNat_foldl_add (fun i => (a i ^^^ b i).cpop) 16 (by simp only [differing] at hle; omega)
    simp only [vecPopcntXorSum16, BitVec.toNat_setWidth]
    change ((List.range 16).foldl (fun s i => s + (a i ^^^ b i).cpop) 0).toNat % _ = _
    rw [hsum]
    exact Nat.mod_eq_of_lt (by simp only [differing] at hle; omega)
  | arm =>
    simp only [vecPopcntXorSum16, BitVec.toNat_setWidth, BitVec.toNat_add, Vec16u.toNat_paddl32,
      Vec16u.toNat_paddl16, Vec16u.toNat_paddl8]
    simp only [Finset.sum_range_succ, Finset.sum_range_zero] at hle ⊢
    simp only [differing] at hle ⊢
    simp [Vec16u.cnt, Vec16u.xor, Vec16u.loadu16]
    omega
  | x86 =>
    simp only [vecPopcntXorSum16, BitVec.toNat_setWidth, BitVec.toNat_add, Vec16u.extractLow,
      Vec16u.extractHigh, BitVec.toNat_cpop_append]
    simp only [Finset.sum_range_succ, Finset.sum_range_zero] at hle ⊢
    simp only [differing] at hle ⊢
    simp [Vec16u.xor, Vec16u.loadu16]
    omega
  | portable =>
    have hbyte (i : Nat) : (((a i ^^^ b i).setWidth 32).cpop.setWidth 16).toNat = differing (a i) (b i) := by
      have := differing_le (a i) (b i)
      rw [BitVec.toNat_setWidth, BitVec.toNat_cpop_setWidth_eq_of_le (by omega)]
      exact Nat.mod_eq_of_lt (by simp only [differing] at this; omega)
    have hsum := toNat_foldl_add (fun i => ((a i ^^^ b i).setWidth 32).cpop.setWidth 16) 16
      (by simp only [hbyte]; omega)
    exact hsum.trans (by simp only [hbyte])

theorem sum_vectors (f : Nat → Nat) (m : Nat) :
    ∑ v ∈ Finset.range m, ∑ i ∈ Finset.range 16, f (v * 16 + i) = ∑ i ∈ Finset.range (m * 16), f i := by
  induction m with
  | zero => simp
  | succ m ih => rw [Finset.sum_range_succ, ih, Nat.succ_mul, Finset.sum_range_add]

theorem tokenDistance_eq (target : Target) (dim : Nat) (q k : Nat → Byte) :
    tokenDistance target dim q k = ∑ i ∈ Finset.range dim, differing (q i) (k i) := by
  have hbyte (i : Nat) : ((q i ^^^ k i).setWidth 32).cpop.toNat = differing (q i) (k i) :=
    BitVec.toNat_cpop_setWidth_eq_of_le (by omega)
  have hvec := sum_vectors (fun i => differing (q i) (k i)) (dim / 16)
  have htail : ∑ i ∈ Finset.range (dim / 16 * 16), differing (q i) (k i) +
      ∑ t ∈ Finset.range (dim % 16), differing (q (dim / 16 * 16 + t)) (k (dim / 16 * 16 + t)) =
      ∑ i ∈ Finset.range dim, differing (q i) (k i) := by
    rw [← Finset.sum_range_add, Nat.div_add_mod']
  simp only [tokenDistance, toNat_vecPopcntXorSum16, foldl_add_eq_sum, hbyte, Nat.zero_add, hvec]
  split_ifs with h
  · exact htail
  · rw [← htail, not_not.mp h, Finset.sum_range_zero, Nat.add_zero]

theorem hamming_succ (dim : Nat) (q k : Nat → Byte) :
    hamming (dim + 1) q k = hamming dim q k + differing (q dim) (k dim) := by
  have hlow (i : Nat) (hi : i < 8) : (8 * dim + i) / 8 = dim ∧ (8 * dim + i) % 8 = i := by omega
  rw [differing_eq_card]
  simp only [hamming, Finset.card_filter]
  rw [Nat.mul_succ, Finset.sum_range_add]
  congr 1
  apply Finset.sum_congr rfl
  intro i hi
  rw [(hlow i (Finset.mem_range.mp hi)).1, (hlow i (Finset.mem_range.mp hi)).2]

theorem hamming_eq (dim : Nat) (q k : Nat → Byte) :
    hamming dim q k = ∑ i ∈ Finset.range dim, differing (q i) (k i) := by
  induction dim with
  | zero => simp [hamming]
  | succ dim ih => rw [hamming_succ, ih, Finset.sum_range_succ]

theorem tokenDistance_eq_hamming (target : Target) (dim : Nat) (q k : Nat → Byte) :
    tokenDistance target dim q k = hamming dim q k := (tokenDistance_eq target dim q k).trans (hamming_eq dim q k).symm

theorem hamming_le (dim : Nat) (q k : Nat → Byte) : hamming dim q k ≤ 8 * dim :=
  (hamming_eq dim q k).trans_le (sum_differing_le q k dim)

-- Nothing is below zero, so the loop may end there.
theorem scoreFrom_eq_foldl (distance : Nat → Nat) (ts : List Nat) (score : Nat) :
    scoreFrom distance score ts = (ts.map distance).foldl min score := by
  have hzero (ds : List Nat) : ds.foldl min 0 = 0 := by
    induction ds with
    | nil => rfl
    | cons d ds ih => rw [List.foldl_cons, Nat.zero_min]; exact ih
  induction ts generalizing score with
  | nil => rfl
  | cons t ts ih =>
    rw [scoreFrom, List.map_cons, List.foldl_cons]
    split_ifs with hlt h0
    · rw [h0, Nat.min_zero]
      exact (hzero _).symm
    · rw [ih, Nat.min_eq_right hlt.le]
    · rw [ih, Nat.min_eq_left (by omega)]

theorem min?_eq_foldl {ds : List Nat} {top : Nat} (hne : ds ≠ []) (hle : ∀ d ∈ ds, d ≤ top) :
    ds.min? = some (ds.foldl min top) := by
  cases ds with
  | nil => exact absurd rfl hne
  | cons d ds =>
    rw [List.min?_cons', List.foldl_cons, Nat.min_eq_right (hle d List.mem_cons_self)]

/-- The score of a block is the least Hamming distance of its tokens, on every build. -/
theorem blockScore_isMin (target : Target) {dim blockSize : Nat} (q block : Nat → Byte)
    (hblock : 0 < blockSize) (hdim : 8 * dim ≤ 65535) :
    ((List.range blockSize).map fun t => hamming dim q fun j => block (t * dim + j)).min? =
      some (blockScore target dim blockSize q block) := by
  simp only [blockScore, scoreFrom_eq_foldl, tokenDistance_eq_hamming]
  apply min?_eq_foldl
  · rw [Ne, List.map_eq_nil_iff, List.range_eq_nil]
    exact hblock.ne'
  · intro d hd
    obtain ⟨t, -, rfl⟩ := List.mem_map.mp hd
    exact (hamming_le dim q _).trans hdim

theorem blockScore_isMin_seventeenBytes :
    ((List.range 2).map fun t => hamming 17 (fun i => BitVec.ofNat 8 i) fun j => BitVec.ofNat 8 (3 * (t * 17 + j))).min? =
      some (blockScore .x86 17 2 (fun i => BitVec.ofNat 8 i) fun j => BitVec.ofNat 8 (3 * j)) ∧
    blockScore .x86 17 2 (fun i => BitVec.ofNat 8 i) (fun j => BitVec.ofNat 8 (3 * j)) = 29 :=
  ⟨blockScore_isMin .x86 (fun i => BitVec.ofNat 8 i) (fun j => BitVec.ofNat 8 (3 * j)) Nat.zero_lt_two (by decide),
    by decide +kernel⟩

end UnifiedCache.Sparse.HashRetrieval
