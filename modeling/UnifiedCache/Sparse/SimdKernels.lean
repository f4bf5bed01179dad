import UnifiedCache.Lib.Collections
import UnifiedCache.Lib.WhileLoop

/-! The vector kernels of the retrieval task: the product of a matrix and a vector in steps of 32, 16
and 8 columns, and the sum of a part of a row. Products and sums are exact. -/

namespace UnifiedCache.Sparse.SimdKernels

variable {F : Type*} [CommRing F]

/-- The sum of two `int` values, which may not overflow. -/
def intAdd (a b : Int) : Option Int :=
  if -2 ^ 31 ≤ a + b ∧ a + b < 2 ^ 31 then some (a + b) else none

inductive Isa
  | neon
  | avx2

def load (n : Nat) (p : Int → F) (offset : Int) : Fin n → F := fun l => p (offset + (l : Nat))

def vpadd (a b : Fin 4 → F) : Fin 4 → F := ![a 0 + a 1, a 2 + a 3, b 0 + b 1, b 2 + b 3]

/-- The lower half and the upper half of a register, lane by lane. -/
def addHalves (n : Nat) (v : Fin (n + n) → F) : Fin n → F := fun l => v (l.castAdd n) + v (l.natAdd n)

/-- `hsum_f16x8`. -/
def hsumF16x8 (v : Fin 8 → F) : F :=
  let s4 := addHalves 4 v
  let p2 := vpadd s4 s4
  p2 0 + p2 1

/-- `hsum_f32x4`. -/
def hsumF32x4 (v : Fin 4 → F) : F :=
  let s2 : Fin 2 → F := addHalves 2 v
  s2 ⟨0, Nat.two_pos⟩ + s2 ⟨1, Nat.one_lt_two⟩

/-- `_avx2_hsum_m256`. -/
def hsumM256 (v : Fin 8 → F) : F :=
  let vlow := addHalves 4 v
  let shuf : Fin 4 → F := ![vlow 1, vlow 1, vlow 3, vlow 3]
  let sums : Fin 4 → F := fun l => vlow l + shuf l
  let shuf : Fin 4 → F := ![sums 2, sums 3, shuf 2, shuf 3]
  sums 0 + shuf 0

namespace Isa

def hsum8 : Isa → (Fin 8 → F) → F
  | neon => hsumF16x8
  | avx2 => hsumM256

def mul (isa : Isa) (a x : Fin 8 → F) : Fin 8 → F :=
  match isa with
  | neon => fun l => a l * x l
  | avx2 => fun l => x l * a l

def fma (isa : Isa) (acc a x : Fin 8 → F) : Fin 8 → F :=
  match isa with
  | neon => fun l => acc l + a l * x l
  | avx2 => fun l => x l * a l + acc l

/-- What a turn that loads `regs` registers adds to `y[i]`. -/
def chunk (isa : Isa) (regs : Nat) (Ai x : Int → F) (j : Int) : F :=
  isa.hsum8 ((List.range regs).foldl
    (fun acc (q : Nat) => isa.fma acc (load 8 Ai (j + q * 8)) (load 8 x (j + q * 8))) fun _ => 0)

end Isa

/-- `y[i]` becomes `f i y[i]` for every `i < N`. -/
def forRows (N : Int) (f : Int → F → F) (y : Int → F) : Int → F :=
  (List.range N.toNat).foldl (fun y (i : Nat) => Function.update y (i : Int) (f i (y i))) y

/-- `for (; j + width <= K; j += width)`. -/
def tier (width : Int) (chunk : (Int → F) → Int → F) (A : Int → F) (K N stride : Int) :
    Int × (Int → F) → Option (Int × (Int → F)) :=
  whileLoop (fun s => (intAdd s.1 width).map fun next => next ≤ K)
    (fun s => (intAdd s.1 width).map fun next =>
      (next, forRows N (fun i yi => yi + chunk (fun jj => A (i * stride + jj)) s.1) s.2))
    (K.toNat + 1)

/-- The remaining columns. The vector is read through `(x + j)[jj]`, where `jj` starts at `j`. -/
def remainder (A x : Int → F) (K N stride : Int) (s : Int × (Int → F)) : Int → F :=
  if s.1 < K then
    forRows N (fun i yi => (List.range (K - s.1).toNat).foldl
      (fun yi (t : Nat) => yi + A (i * stride + (s.1 + t)) * x (s.1 + (s.1 + t))) yi) s.2
  else s.2

/-- `_neon_gemv_fp32_fp16` and `_avx2_matvec_fp32_fp16`. -/
def gemv (isa : Isa) (A x y : Int → F) (K N stride : Int) : Option (Int → F) :=
  (((tier 32 (isa.chunk 4 · x) A K N stride (0, y)).bind
    (tier 16 (isa.chunk 2 · x) A K N stride)).bind
    (tier 8 (fun Ai j => isa.hsum8 (isa.mul (load 8 Ai j) (load 8 x j))) A K N stride)).map
    (remainder A x K N stride)

def addRegs (lanes regs : Nat) (x : Int → F) (p : Int) (y : Fin lanes → F) : Fin lanes → F :=
  (List.range regs).foldl (fun y (q : Nat) l => y l + load lanes x (p + q * lanes) l) y

/-- What is left of the part, where it starts, and the accumulator. -/
structure NeonAcc (F : Type*) where
  N : Int
  x : Int
  y : Fin 4 → F

def neonTier (regs : Nat) (x : Int → F) : NeonAcc F → Nat → Option (NeonAcc F) := fun s fuel =>
  whileLoop (fun s => some (decide (s.N ≥ 4 * regs)))
    (fun s => some ⟨s.N - 4 * regs, s.x + 4 * regs, addRegs 4 regs x s.x s.y⟩) fuel s

/-- `_neon_accumulate_fp32_inplace`. -/
def neonAccumulate (x : Int → F) (y : Fin 4 → F) (r : F) (N : Int) : Option ((Fin 4 → F) × F) :=
  ((neonTier 4 x ⟨N, 0, y⟩ (N.toNat + 1)).bind fun s => neonTier 1 x s (N.toNat + 1)).map fun s =>
    (s.y, (List.range s.N.toNat).foldl (fun r (t : Nat) => r + x (s.x + t)) r)

def avx2Tier (regs : Nat) (x : Int → F) (N : Int) : Int × (Fin 8 → F) → Option (Int × (Fin 8 → F)) :=
  whileLoop (fun s => (intAdd s.1 (8 * regs)).map fun next => next < N)
    (fun s => (intAdd s.1 (8 * regs)).map fun next => (next, addRegs 8 regs x s.1 s.2)) (N.toNat + 1)

/-- `_avx2_accumulate_fp32_inplace`. -/
def avx2Accumulate (x : Int → F) (y : Fin 8 → F) (r : F) (N : Int) : Option ((Fin 8 → F) × F) :=
  (((avx2Tier 4 x N (0, y)).bind (avx2Tier 2 x N)).bind (avx2Tier 1 x N)).map fun s =>
    (s.2, (List.range (N - s.1).toNat).foldl (fun r (t : Nat) => r + x (s.1 + t)) r)

namespace Isa

/-- The lanes of a register of `float`. -/
def lanes : Isa → Nat
  | neon => 4
  | avx2 => 8

def hsum : (isa : Isa) → (Fin isa.lanes → F) → F
  | neon => hsumF32x4
  | avx2 => hsumM256

def accumulate : (isa : Isa) → (Int → F) → (Fin isa.lanes → F) → F → Int → Option ((Fin isa.lanes → F) × F)
  | neon => neonAccumulate
  | avx2 => avx2Accumulate

end Isa

/-- Row by row, `y` with the first `K` columns added. -/
def added (A x y : Int → F) (N stride : Int) (K : Nat) : Int → F := fun i =>
  if 0 ≤ i ∧ i < N then y i + ∑ j ∈ Finset.range K, A (i * stride + j) * x j else y i

theorem hsumF16x8_eq_sum (v : Fin 8 → F) : hsumF16x8 v = ∑ l, v l := by
  simp only [hsumF16x8, vpadd, addHalves, Fin.sum_univ_eight]
  simp
  ring

theorem hsumM256_eq_sum (v : Fin 8 → F) : hsumM256 v = ∑ l, v l := by
  simp only [hsumM256, addHalves, Fin.sum_univ_eight]
  simp
  ring

theorem hsumF32x4_eq_sum (v : Fin 4 → F) : hsumF32x4 v = ∑ l, v l := by
  simp only [hsumF32x4, addHalves, Fin.sum_univ_four]
  simp
  ring

theorem Isa.hsum8_eq_sum (isa : Isa) (v : Fin 8 → F) : isa.hsum8 v = ∑ l, v l := by
  cases isa
  case neon => exact hsumF16x8_eq_sum v
  case avx2 => exact hsumM256_eq_sum v

theorem Isa.hsum_eq_sum (isa : Isa) (v : Fin isa.lanes → F) : isa.hsum v = ∑ l, v l := by
  cases isa
  case neon => exact hsumF32x4_eq_sum v
  case avx2 => exact hsumM256_eq_sum v

variable {isa : Isa} {A x y : Int → F} {K N stride : Int}

theorem sum_load (n : Nat) (p : Int → F) (offset : Int) :
    ∑ l, load n p offset l = ∑ t ∈ Finset.range n, p (offset + t) :=
  Fin.sum_univ_eq_sum_range (fun t => p (offset + t)) n

theorem Isa.sum_mul (a b : Int → F) (j k : Int) :
    ∑ l, isa.mul (load 8 a j) (load 8 b k) l = ∑ t ∈ Finset.range 8, a (j + t) * b (k + t) := by
  have hlane : ∀ l : Fin 8, isa.mul (load 8 a j) (load 8 b k) l = a (j + (l : Nat)) * b (k + (l : Nat)) := by
    intro l
    cases isa
    case neon => rfl
    case avx2 => exact mul_comm _ _
  rw [Finset.sum_congr rfl fun l _ => hlane l]
  exact Fin.sum_univ_eq_sum_range (fun t => a (j + t) * b (k + t)) 8

theorem Isa.fma_eq (acc a b : Fin 8 → F) (l : Fin 8) : isa.fma acc a b l = acc l + isa.mul a b l := by
  cases isa
  case neon => rfl
  case avx2 => exact add_comm _ _

theorem Isa.chunk_eq (regs : Nat) (Ai : Int → F) (j : Int) :
    isa.chunk regs Ai x j = ∑ t ∈ Finset.range (8 * regs), Ai (j + t) * x (j + t) := by
  rw [chunk, hsum8_eq_sum]
  induction regs with
  | zero => simp
  | succ regs ih =>
    rw [List.range_succ, List.foldl_append, List.foldl_cons, List.foldl_nil,
      Finset.sum_congr rfl fun l _ => fma_eq _ _ _ l, Finset.sum_add_distrib, ih, sum_mul, Nat.mul_succ,
      Finset.sum_range_add]
    congr 1
    apply Finset.sum_congr rfl
    intro t _
    rw [show j + regs * 8 + t = j + (8 * regs + t : Nat) by push_cast; ring]

omit [CommRing F] in
theorem forRows_apply (f : Int → F → F) (i : Int) :
    forRows N f y i = if 0 ≤ i ∧ i < N then f i (y i) else y i := by
  have hrows : ∀ n : Nat, (List.range n).foldl (fun y (i : Nat) => Function.update y (i : Int) (f i (y i))) y i =
      if 0 ≤ i ∧ i < n then f i (y i) else y i := by
    intro n
    induction n with
    | zero => simp
    | succ n ih =>
      rw [List.range_succ, List.foldl_append, List.foldl_cons, List.foldl_nil, Function.update_apply]
      by_cases hi : i = n
      · subst hi
        rw [if_pos rfl, ih, if_neg (by omega), if_pos (by omega)]
      · rw [if_neg hi, ih]
        congr 1
        simp only [Nat.cast_add, Nat.cast_one, eq_iff_iff]
        omega
  rw [forRows, hrows]
  congr 1
  simp only [eq_iff_iff]
  omega

theorem forRows_added {f : Int → F} {a b : Nat}
    (hf : ∀ i, f i = ∑ t ∈ Finset.range b, A (i * stride + (a + t)) * x (a + t)) :
    forRows N (fun i yi => yi + f i) (added A x y N stride a) = added A x y N stride (a + b) := by
  funext i
  rw [forRows_apply]
  simp only [added]
  split_ifs with hi
  · rw [hf, Finset.sum_range_add, add_assoc]
    simp only [Nat.cast_add]
  · rfl

theorem intAdd_of_lt {a b : Int} (ha : 0 ≤ a) (hb : 0 ≤ b) (h : a + b < 2 ^ 31) : intAdd a b = some (a + b) :=
  if_pos ⟨by omega, h⟩

theorem intAdd_of_le {a b : Int} (h : 2 ^ 31 ≤ a + b) : intAdd a b = none :=
  if_neg (by omega)

/-- Before the next turn of a loop: the whole registers up to `8 * m` are added. -/
def TierInv (A x y : Int → F) (K N stride : Int) (s : Int × (Int → F)) : Prop :=
  ∃ m : Nat, s = (8 * (m : Int), added A x y N stride (8 * m)) ∧ 8 * (m : Int) ≤ K

theorem tier_spec (regs : Nat) (chunk : (Int → F) → Int → F) (hregs : 0 < regs) (hregs' : regs ≤ 4)
    (hchunk : ∀ Ai j, chunk Ai j = ∑ t ∈ Finset.range (8 * regs), Ai (j + t) * x (j + t))
    (hK : K < 2 ^ 31 - 32) {s : Int × (Int → F)} (hs : TierInv A x y K N stride s) :
    ∃ t, tier (8 * regs) chunk A K N stride s = some t ∧ TierInv A x y K N stride t ∧ K < t.1 + 8 * regs := by
  have hnext : ∀ s, TierInv A x y K N stride s → intAdd s.1 (8 * regs) = some (s.1 + 8 * regs) := by
    rintro s ⟨m, rfl, hm⟩
    exact intAdd_of_lt (by omega) (by omega) (by omega)
  have hloop : ∃ t, tier (8 * regs) chunk A K N stride s = some t ∧ TierInv A x y K N stride t ∧
      (intAdd t.1 (8 * regs)).map (fun next => decide (next ≤ K)) = some false := by
    refine whileLoop_spec (TierInv A x y K N stride) (fun s => (K - s.1).toNat) ?_ hs ?_
    · intro s hs
      simp only [hnext s hs, Option.map_some, Option.some.injEq, decide_eq_false_iff_not, decide_eq_true_eq]
      by_cases hle : s.1 + 8 * regs ≤ K
      · obtain ⟨m, rfl, hm⟩ := hs
        refine .inr ⟨hle, _, rfl, ⟨m + regs, ?_, by push_cast; linarith⟩, by simp only; omega⟩
        simp only at hle ⊢
        rw [Prod.mk.injEq]
        refine ⟨by push_cast; ring, ?_⟩
        rw [Nat.mul_add]
        apply forRows_added
        intro i
        rw [hchunk]
        push_cast
        rfl
      · exact .inl hle
    · obtain ⟨m, rfl, hm⟩ := hs
      simp only
      omega
  obtain ⟨t, ht, hinv, hstop⟩ := hloop
  refine ⟨t, ht, hinv, ?_⟩
  simpa [hnext t hinv] using hstop

/-- What the routine leaves in `y`: the whole registers are right, the remaining columns read the vector too far on. -/
theorem gemv_eq {K : Nat} (hK : K < 2 ^ 31 - 32) : gemv isa A x y K N stride =
    some (remainder A x K N stride ((8 * (K / 8) : Nat), added A x y N stride (8 * (K / 8)))) := by
  have hK' : (K : Int) < 2 ^ 31 - 32 := by omega
  have hstart : TierInv A x y K N stride (0, y) := by
    refine ⟨0, Prod.ext rfl (funext fun i => ?_), by omega⟩
    simp [added]
  obtain ⟨s, hs, hinv, -⟩ := tier_spec 4 _ (by omega) (by omega) (fun Ai j => isa.chunk_eq 4 Ai j) hK' hstart
  obtain ⟨s', hs', hinv', -⟩ := tier_spec 2 _ (by omega) (by omega) (fun Ai j => isa.chunk_eq 2 Ai j) hK' hinv
  obtain ⟨t, ht, ⟨m, rfl, hm⟩, hlt⟩ := tier_spec 1
    (fun Ai j => isa.hsum8 (isa.mul (load 8 Ai j) (load 8 x j))) (by omega) (by omega)
    (fun Ai j => (isa.hsum8_eq_sum _).trans (isa.sum_mul Ai x j j)) hK' hinv'
  have hm : m = K / 8 := by
    simp only at hlt
    omega
  simp only [Nat.cast_ofNat, Int.reduceMul, Nat.cast_one, mul_one] at hs hs' ht
  simp only [gemv, hs, hs', ht, Option.bind_some, Option.map_some, ← hm, Nat.cast_mul, Nat.cast_ofNat]

/-- The guard of the first loop overflows before it turns false. -/
theorem gemv_eq_none (hK : 2 ^ 31 - 32 ≤ K) : gemv isa A x y K N stride = none := by
  have htier : tier 32 (isa.chunk 4 · x) A K N stride (0, y) = none := by
    refine whileLoop_eq_none (fun s => 0 ≤ s.1 ∧ (32 : Int) ∣ s.1) ?_ ⟨le_refl _, dvd_zero _⟩
    rintro ⟨j, y⟩ ⟨hj, hdvd⟩
    simp only at hj hdvd ⊢
    by_cases hlt : j + 32 < 2 ^ 31
    · have hnext := intAdd_of_lt hj (by omega) hlt
      rw [hnext]
      refine .inr ⟨by simp; omega, ?_⟩
      rintro t ht
      obtain rfl := Option.some.inj ht
      exact ⟨by simp only; omega, by simp only; omega⟩
    · exact .inl (by rw [intAdd_of_le (by omega)]; rfl)
  rw [gemv, htier]
  rfl

theorem remainder_apply {m : Nat} {K : Nat} (hm : m ≤ K) (i : Int) :
    remainder A x K N stride (m, added A x y N stride m) i =
      if 0 ≤ i ∧ i < N then added A x y N stride m i +
        ∑ t ∈ Finset.range (K - m), A (i * stride + (m + t)) * x (m + (m + t))
      else y i := by
  simp only [remainder]
  split_ifs with hlt hi hi
  · rw [forRows_apply, if_pos hi, foldl_add_eq_sum, show ((K : Int) - m).toNat = K - m by omega]
  · rw [forRows_apply, if_neg hi, added, if_neg hi]
  · rw [show K - m = 0 by omega, Finset.range_zero, Finset.sum_empty, add_zero]
  · rw [added, if_neg hi]

theorem added_eq {m K : Nat} (hm : m ≤ K) {i : Int} (hi : 0 ≤ i ∧ i < N) : added A x y N stride K i =
    added A x y N stride m i + ∑ t ∈ Finset.range (K - m), A (i * stride + (m + t)) * x (m + t) := by
  obtain ⟨n, rfl⟩ := Nat.exists_eq_add_of_le hm
  simp only [added, if_pos hi]
  rw [Finset.sum_range_add, add_assoc, Nat.add_sub_cancel_left]
  simp only [Nat.cast_add]

theorem gemv_right {K : Nat} (hK : K < 2 ^ 31 - 32) (hcolumns : K < 8 ∨ 8 ∣ K ∨ N ≤ 0) :
    gemv isa A x y K N stride = some (added A x y N stride K) := by
  rw [gemv_eq hK, Option.some.injEq]
  funext i
  have hm : 8 * (K / 8) ≤ K := Nat.mul_div_le K 8
  rw [remainder_apply hm]
  split_ifs with hi
  · rw [added_eq hm hi]
    rcases hcolumns with hlt | hdvd | hN
    · rw [Nat.div_eq_of_lt hlt]
      simp
    · rw [Nat.mul_div_cancel' hdvd]
      simp
    · omega
  · rw [added, if_neg hi]

/-- A matrix and a vector that both have one at `m` and nothing else. -/
def oneAt (m : Nat) (j : Int) : F := if j = m then 1 else 0

theorem gemv_wrong [Nontrivial F] {K : Nat} (hK : K < 2 ^ 31 - 32) (hlong : 8 ≤ K) (hdvd : ¬ 8 ∣ K) (hN : 0 < N) :
    gemv isa (oneAt (F := F) (8 * (K / 8))) (oneAt (8 * (K / 8))) 0 K N stride ≠
      some (added (oneAt (8 * (K / 8))) (oneAt (8 * (K / 8))) 0 N stride K) := by
  have hm : 8 * (K / 8) < K := lt_of_le_of_ne (Nat.mul_div_le K 8) fun h => hdvd ⟨_, h.symm⟩
  generalize hn : 8 * (K / 8) = m at hm
  have hpos : 0 < m := by omega
  rw [gemv_eq hK, Ne, Option.some.injEq, hn]
  intro h
  have hrow := congrFun h 0
  rw [remainder_apply hm.le, if_pos ⟨le_refl _, hN⟩, added_eq hm.le ⟨le_refl _, hN⟩] at hrow
  have hleft : ∑ t ∈ Finset.range (K - m), oneAt m (0 * stride + (m + t)) * (oneAt m (m + (m + t)) : F) = 0 := by
    apply Finset.sum_eq_zero
    intro t _
    have hne : (m : Int) + (m + t) ≠ m := by omega
    rw [oneAt, oneAt, if_neg hne, mul_zero]
  have hright : ∑ t ∈ Finset.range (K - m), oneAt m (0 * stride + (m + t)) * (oneAt m ((m : Int) + t) : F) = 1 := by
    rw [Finset.sum_eq_single_of_mem 0 (Finset.mem_range.mpr (by omega))]
    · simp [oneAt]
    · intro t _ ht
      have hne : (m : Int) + t ≠ m := by omega
      rw [oneAt, oneAt, if_neg hne, mul_zero]
  rw [hleft, hright, add_right_inj] at hrow
  exact zero_ne_one hrow

theorem gemv_adds_iff [Nontrivial F] {K : Nat} :
    (∀ A x y : Int → F, gemv isa A x y K N stride = some (added A x y N stride K)) ↔
      K < 2 ^ 31 - 32 ∧ (K < 8 ∨ 8 ∣ K ∨ N ≤ 0) := by
  constructor
  · intro h
    have hK : K < 2 ^ 31 - 32 := by
      by_contra hK
      have hnone := h 0 0 0
      rw [gemv_eq_none (by omega)] at hnone
      cases hnone
    refine ⟨hK, ?_⟩
    by_contra hwrong
    push Not at hwrong
    exact gemv_wrong hK hwrong.1 hwrong.2.1 hwrong.2.2 (h _ _ _)
  · rintro ⟨hK, hcolumns⟩ A x y
    exact gemv_right hK hcolumns

theorem sum_addRegs (lanes regs : Nat) (x : Int → F) (p : Int) (v : Fin lanes → F) :
    ∑ l, addRegs lanes regs x p v l = ∑ l, v l + ∑ t ∈ Finset.range (lanes * regs), x (p + t) := by
  induction regs with
  | zero => simp [addRegs]
  | succ regs ih =>
    have hlast : addRegs lanes (regs + 1) x p v =
        fun l => addRegs lanes regs x p v l + load lanes x (p + regs * lanes) l := by
      rw [addRegs, List.range_succ, List.foldl_append]
      rfl
    rw [hlast, Finset.sum_add_distrib, ih, sum_load, Nat.mul_succ, Finset.sum_range_add, add_assoc]
    congr 2
    apply Finset.sum_congr rfl
    intro t _
    rw [show p + regs * lanes + t = p + (lanes * regs + t : Nat) by push_cast; ring]

/-- The elements before `p` are in the accumulator. -/
def AccInv {lanes : Nat} (x : Int → F) (y v : Fin lanes → F) (p : Int) : Prop :=
  0 ≤ p ∧ ∑ l, v l = ∑ l, y l + ∑ t ∈ Finset.range p.toNat, x t

theorem AccInv.start {lanes : Nat} (x : Int → F) (y : Fin lanes → F) : AccInv x y y 0 :=
  ⟨le_refl _, by simp⟩

theorem AccInv.next {lanes regs : Nat} {x : Int → F} {y v : Fin lanes → F} {p : Int} (h : AccInv x y v p) :
    AccInv x y (addRegs lanes regs x p v) (p + lanes * regs) := by
  obtain ⟨hp, hsum⟩ := h
  lift p to Nat using hp
  refine ⟨by positivity, ?_⟩
  rw [sum_addRegs, hsum, add_assoc, show ((p : Int) + lanes * regs).toNat = p + lanes * regs by
      rw [← Nat.cast_mul, ← Nat.cast_add, Int.toNat_natCast],
    Finset.sum_range_add, Int.toNat_natCast]
  simp only [Nat.cast_add]

theorem AccInv.finish {lanes : Nat} {x : Int → F} {y v : Fin lanes → F} {p : Int} (h : AccInv x y v p) {N : Nat}
    (hp : p ≤ N) (r : F) :
    ∑ l, v l + (List.range (N - p).toNat).foldl (fun r (t : Nat) => r + x (p + t)) r =
      ∑ l, y l + r + ∑ t ∈ Finset.range N, x t := by
  obtain ⟨hpos, hsum⟩ := h
  lift p to Nat using hpos
  obtain ⟨n, rfl⟩ := Nat.exists_eq_add_of_le (show p ≤ N by omega)
  rw [foldl_add_eq_sum, hsum, show (((p + n : Nat) : Int) - p).toNat = n by omega, Finset.sum_range_add, Int.toNat_natCast]
  simp only [Nat.cast_add]
  ring

def NeonInv (x : Int → F) (y : Fin 4 → F) (N : Nat) (s : NeonAcc F) : Prop :=
  (0 ≤ s.N ∧ s.N + s.x = N) ∧ AccInv x y s.y s.x

theorem neonTier_spec {regs fuel N : Nat} (hregs : 0 < regs) {y : Fin 4 → F} {s : NeonAcc F}
    (hs : NeonInv x y N s) (hfuel : N < fuel) : ∃ t, neonTier regs x s fuel = some t ∧ NeonInv x y N t := by
  have hloop : ∃ t, neonTier regs x s fuel = some t ∧ NeonInv x y N t ∧
      some (decide (t.N ≥ 4 * regs)) = some false := by
    refine whileLoop_spec (NeonInv x y N) (fun t => t.N.toNat) ?_ hs ?_
    · rintro t ⟨hN, hacc⟩
      by_cases hgo : t.N ≥ 4 * regs
      · refine .inr ⟨by simpa using hgo, _, rfl, ⟨?_, hacc.next⟩, ?_⟩
        · simp only
          omega
        · simp only
          omega
      · exact .inl (by simpa using hgo)
    · have hN := hs.1
      have hx := hs.2.1
      omega
  obtain ⟨t, ht, hinv, -⟩ := hloop
  exact ⟨t, ht, hinv⟩

theorem neonAccumulate_adds (x : Int → F) (y : Fin 4 → F) (r : F) (N : Nat) : ∃ y' r',
    neonAccumulate x y r N = some (y', r') ∧ hsumF32x4 y' + r' = hsumF32x4 y + r + ∑ t ∈ Finset.range N, x t := by
  have hstart : NeonInv x y N ⟨N, 0, y⟩ := ⟨⟨by simp, by simp⟩, AccInv.start x y⟩
  obtain ⟨s, hs, hinv⟩ := neonTier_spec (show 0 < 4 by omega) hstart (Nat.lt_succ_self N)
  obtain ⟨t, ht, hN, hacc⟩ := neonTier_spec Nat.one_pos hinv (Nat.lt_succ_self N)
  refine ⟨t.y, (List.range t.N.toNat).foldl (fun r (k : Nat) => r + x (t.x + k)) r, ?_, ?_⟩
  · rw [neonAccumulate, Int.toNat_natCast, hs, Option.bind_some, ht]
    rfl
  · rw [hsumF32x4_eq_sum, hsumF32x4_eq_sum, show t.N = N - t.x by omega]
    exact hacc.finish (by omega) r

def Avx2Inv (x : Int → F) (y : Fin 8 → F) (N : Nat) (s : Int × (Fin 8 → F)) : Prop :=
  (s.1 = 0 ∨ s.1 < N) ∧ AccInv x y s.2 s.1

theorem avx2Tier_spec {regs N : Nat} (hregs : 0 < regs) (hregs' : regs ≤ 4) (hN : N ≤ 2 ^ 31 - 32) {y : Fin 8 → F}
    {s : Int × (Fin 8 → F)} (hs : Avx2Inv x y N s) : ∃ t, avx2Tier regs x N s = some t ∧ Avx2Inv x y N t := by
  have hnext : ∀ t, Avx2Inv x y N t → intAdd t.1 (8 * regs) = some (t.1 + 8 * regs) := by
    rintro t ⟨hlt, hpos, -⟩
    exact intAdd_of_lt hpos (by omega) (by omega)
  have hloop : ∃ t, avx2Tier regs x N s = some t ∧ Avx2Inv x y N t ∧
      (intAdd t.1 (8 * regs)).map (fun next => decide (next < (N : Int))) = some false := by
    refine whileLoop_spec (Avx2Inv x y N) (fun t => (N - t.1).toNat) ?_ hs ?_
    · intro t ht
      simp only [hnext t ht, Option.map_some, Option.some.injEq, decide_eq_false_iff_not, decide_eq_true_eq]
      by_cases hlt : t.1 + 8 * regs < N
      · refine .inr ⟨hlt, _, rfl, ⟨.inr hlt, ht.2.next⟩, ?_⟩
        simp only
        omega
      · exact .inl hlt
    · have := hs.2.1
      simp only [Int.toNat_natCast]
      omega
  obtain ⟨t, ht, hinv, -⟩ := hloop
  exact ⟨t, ht, hinv⟩

theorem avx2Accumulate_adds (x : Int → F) (y : Fin 8 → F) (r : F) {N : Nat} (hN : N ≤ 2 ^ 31 - 32) : ∃ y' r',
    avx2Accumulate x y r N = some (y', r') ∧ hsumM256 y' + r' = hsumM256 y + r + ∑ t ∈ Finset.range N, x t := by
  have hstart : Avx2Inv x y N (0, y) := ⟨.inl rfl, AccInv.start x y⟩
  obtain ⟨s, hs, hinv⟩ := avx2Tier_spec (show 0 < 4 by omega) (le_refl _) hN hstart
  obtain ⟨s', hs', hinv⟩ := avx2Tier_spec (show 0 < 2 by omega) (by omega) hN hinv
  obtain ⟨t, ht, hlt, hacc⟩ := avx2Tier_spec Nat.one_pos (by omega) hN hinv
  refine ⟨t.2, (List.range (N - t.1).toNat).foldl (fun r (k : Nat) => r + x (t.1 + k)) r, ?_, ?_⟩
  · rw [avx2Accumulate, hs, Option.bind_some, hs', Option.bind_some, ht]
    rfl
  · rw [hsumM256_eq_sum, hsumM256_eq_sum]
    exact hacc.finish (by omega) r

theorem avx2Accumulate_eq_none {x : Int → F} {y : Fin 8 → F} {r : F} (hN : 2 ^ 31 - 32 < N) :
    avx2Accumulate x y r N = none := by
  have htier : avx2Tier 4 x N (0, y) = none := by
    refine whileLoop_eq_none (fun s => 0 ≤ s.1 ∧ (32 : Int) ∣ s.1) ?_ ⟨le_refl _, dvd_zero _⟩
    rintro ⟨i, v⟩ ⟨hi, hdvd⟩
    simp only [Nat.cast_ofNat, Int.reduceMul] at hi hdvd ⊢
    by_cases hlt : i + 32 < 2 ^ 31
    · rw [intAdd_of_lt hi (by omega) hlt]
      refine .inr ⟨by simp; omega, ?_⟩
      rintro t ht
      obtain rfl := Option.some.inj ht
      exact ⟨by simp only; omega, by simp only; omega⟩
    · exact .inl (by rw [intAdd_of_le (by omega)]; rfl)
  rw [avx2Accumulate, htier]
  rfl

/-- The part is added in full, to the accumulator or to what is kept beside it. -/
def AddsAll (F : Type*) [CommRing F] (isa : Isa) (N : Nat) : Prop :=
  ∀ (x : Int → F) (y : Fin isa.lanes → F) (r : F), ∃ y' r', isa.accumulate x y r N = some (y', r') ∧
    isa.hsum y' + r' = isa.hsum y + r + ∑ t ∈ Finset.range N, x t

theorem addsAll_iff {N : Nat} : AddsAll F isa N ↔ (isa = .avx2 → N ≤ 2 ^ 31 - 32) := by
  cases isa
  case neon => exact iff_of_true (fun x y r => neonAccumulate_adds x y r N) fun h => by cases h
  case avx2 =>
    constructor
    · intro h _
      by_contra hN
      obtain ⟨y', r', hsome, -⟩ := h 0 0 0
      have hnone := avx2Accumulate_eq_none (x := (0 : Int → F)) (y := 0) (r := 0) (N := N) (by omega)
      exact absurd (hnone.symm.trans hsome) (by simp)
    · intro hN x y r
      exact avx2Accumulate_adds x y r (hN rfl)

end UnifiedCache.Sparse.SimdKernels
