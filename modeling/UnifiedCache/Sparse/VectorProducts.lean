import UnifiedCache.Lib.Collections
import UnifiedCache.Lib.WhileLoop

/-! The dot product of two vectors and the mean of a group of vectors, in steps of one register and a
remainder, as they are compiled for each instruction set. Products, sums and quotients are exact. -/

namespace UnifiedCache.Sparse.VecProduct

inductive Simd where
  | avx512
  | avx2
  | sse2
  | neon
  | scalar

namespace Simd

/-- The numbers that one step takes. -/
def lanes : Simd → Nat
  | avx512 => 16
  | avx2 => 8
  | sse2 | neon | scalar => 4

def vec (simd : Simd) : UInt32 := UInt32.ofNat simd.lanes

end Simd

/-- `for (; i + vec <= dim; i += vec)` from zero on, with where it ends. -/
def vecLoop {σ : Type*} (vec dim : UInt32) (body : Nat → σ → σ) (s : σ) : Option (UInt32 × σ) :=
  whileLoop (fun s => some (decide (s.1 + vec ≤ dim))) (fun s => some (s.1 + vec, body s.1.toNat s.2))
    (dim.toNat + 1) (0, s)

variable {F : Type*} [Field F]

/-- `_mm_hadd_ps`. Of a register only the lanes that it has are ever read. -/
def haddPs (a b : Nat → F) : Nat → F := fun l =>
  if l < 2 then a (2 * l) + a (2 * l + 1) else b (2 * (l - 2)) + b (2 * (l - 2) + 1)

def reduce128 (sum : Nat → F) : F :=
  let sum := haddPs sum sum
  let sum := haddPs sum sum
  sum 0

def reduce256 (sum : Nat → F) : F :=
  let sumHigh := fun l => sum (4 + l)
  let sumLow := sum
  reduce128 fun l => sumHigh l + sumLow l

def reduceUnrolled (sum : Nat → F) : F := sum 0 + sum 1 + sum 2 + sum 3

namespace Simd

/-- What a lane becomes: a fused multiply and add, or a product that is added. -/
def madd (simd : Simd) (sum q k : F) : F :=
  match simd with
  | avx512 | avx2 => q * k + sum
  | sse2 | neon | scalar => sum + q * k

/-- The sum of the lanes. -/
def reduce (simd : Simd) (sum : Nat → F) : F :=
  match simd with
  | avx512 | neon => ∑ l ∈ Finset.range simd.lanes, sum l
  | avx2 => reduce256 sum
  | sse2 => reduce128 sum
  | scalar => reduceUnrolled sum

/-- `VectorDotImpl`. -/
def vectorDot (simd : Simd) (q k : Nat → F) (dim : UInt32) : Option F :=
  (vecLoop simd.vec dim (fun i sum (l : Nat) => simd.madd (sum l) (q (i + l)) (k (i + l))) fun _ => 0).map
    fun s => (List.range' s.1.toNat (dim.toNat - s.1.toNat)).foldl (fun result i => result + q i * k i) (simd.reduce s.2)

end Simd

/-- `n` numbers from `mean` on become what `f` makes of them and of those from `src` on, all of them
read before any is written. -/
def atOnce (f : F → F → F) (n mean src : Nat) (mem : Nat → F) : Nat → F := fun a =>
  if mean ≤ a ∧ a < mean + n then f (mem a) (mem (src + (a - mean))) else mem a

/-- One after another. -/
def inOrder (f : F → F → F) (n mean src : Nat) (mem : Nat → F) : Nat → F :=
  (List.range n).foldl (fun mem l => Function.update mem (mean + l) (f (mem (mean + l)) (mem (src + l)))) mem

namespace Simd

def step (simd : Simd) (f : F → F → F) (mean src : Nat) (mem : Nat → F) : Nat → F :=
  match simd with
  | scalar => inOrder f 4 mean src mem
  | avx512 | avx2 | sse2 | neon => atOnce f simd.lanes mean src mem

/-- One pass over the vector `mean`, with the vector `src` beside it. -/
def pass (simd : Simd) (f : F → F → F) (dim : UInt32) (mean src : Nat) (mem : Nat → F) : Option (Nat → F) :=
  (vecLoop simd.vec dim (fun i mem => simd.step f (mean + i) (src + i) mem) mem).map fun s =>
    inOrder f (dim.toNat - s.1.toNat) (mean + s.1.toNat) (src + s.1.toNat) s.2

/-- The first vector of the group. The scalar code copies it with `memcpy`. -/
def first (simd : Simd) (dim : UInt32) (mean vectors : Nat) (mem : Nat → F) : Option (Nat → F) :=
  match simd with
  | scalar => some (atOnce (fun _ v => v) dim.toNat mean vectors mem)
  | avx512 | avx2 | sse2 | neon => simd.pass (fun _ v => v) dim mean vectors mem

/-- `VectorMeanImpl`, where `vectors` and `mean` point into the same numbers. -/
def vectorMean (simd : Simd) (mem : Nat → F) (vectors mean : Nat) (dim numK : UInt32) : Option (Nat → F) :=
  if numK = 0 then some (atOnce (fun _ _ => 0) dim.toNat mean mean mem)
  else
    let invNumK : F := 1 / (numK.toNat : F)
    ((simd.first dim mean vectors mem).bind fun mem =>
      (List.range' 1 (numK.toNat - 1)).foldlM (fun mem (k : Nat) =>
        -- `k * dim` is a product in `uint32_t`.
        simd.pass (· + ·) dim mean (vectors + (UInt32.ofNat k * dim).toNat) mem) mem).bind fun mem =>
      simd.pass (fun m _ => m * invNumK) dim mean mean mem

end Simd

section VecLoop

variable {σ : Type*} (vec dim : UInt32) (body : Nat → σ → σ) (s : σ)

theorem vecLoop_eq (hv : 0 < vec.toNat) (h : dim.toNat + vec.toNat < 2 ^ 32) :
    ∃ i : UInt32, i.toNat = vec.toNat * (dim.toNat / vec.toNat) ∧ vecLoop vec dim body s =
      some (i, (List.range (dim.toNat / vec.toNat)).foldl (fun s m => body (vec.toNat * m) s) s) := by
  let Inv : UInt32 × σ → Prop := fun t => ∃ m, t.1.toNat = vec.toNat * m ∧ vec.toNat * m ≤ dim.toNat ∧
    t.2 = (List.range m).foldl (fun s m => body (vec.toNat * m) s) s
  have hnext : ∀ t, Inv t → (t.1 + vec).toNat = t.1.toNat + vec.toNat := by
    rintro t ⟨m, hm, hle, -⟩
    rw [UInt32.toNat_add]
    exact Nat.mod_eq_of_lt (by omega)
  have hturn : ∀ t, Inv t → some (decide (t.1 + vec ≤ dim)) = some false ∨
      some (decide (t.1 + vec ≤ dim)) = some true ∧ ∃ t', some (t.1 + vec, body t.1.toNat t.2) = some t' ∧
        Inv t' ∧ dim.toNat - t'.1.toNat < dim.toNat - t.1.toNat := by
    intro t ht
    have hn := hnext t ht
    obtain ⟨m, hm, hle, hs⟩ := ht
    by_cases hgo : t.1 + vec ≤ dim
    · have hgo' := UInt32.le_iff_toNat_le.mp hgo
      refine .inr ⟨by simpa using hgo, _, rfl, ⟨m + 1, ?_, ?_, ?_⟩, by simp only; omega⟩
      · rw [hn, hm, Nat.mul_add_one]
      · rw [Nat.mul_add_one]
        omega
      · rw [List.range_succ, List.foldl_append, ← hs, hm]
        rfl
    · exact .inl (by simpa using hgo)
  have hstart : Inv (0, s) := ⟨0, rfl, Nat.zero_le _, rfl⟩
  obtain ⟨t, hloop, ht, hstop⟩ :=
    whileLoop_spec Inv (fun t => dim.toNat - t.1.toNat) hturn hstart (Nat.lt_succ_of_le (Nat.sub_le _ _))
  have hn := hnext t ht
  obtain ⟨m, hm, hle, hs⟩ := ht
  have hstop' : ¬ t.1 + vec ≤ dim := of_decide_eq_false (Option.some.inj hstop)
  rw [UInt32.le_iff_toNat_le, hn, hm, ← Nat.mul_add_one] at hstop'
  have hdiv : dim.toNat / vec.toNat = m := by
    refine Nat.div_eq_of_lt_le (by rwa [Nat.mul_comm]) ?_
    rw [Nat.mul_comm]
    omega
  exact ⟨t.1, by rw [hm, hdiv], hloop.trans (by rw [hdiv, ← hs])⟩

/-- The guard wraps before it turns false. -/
theorem vecLoop_eq_none (hv : vec.toNat ∣ 2 ^ 32) (h : 2 ^ 32 ≤ dim.toNat + vec.toNat) :
    vecLoop vec dim body s = none := by
  refine whileLoop_eq_none (fun t => vec.toNat ∣ t.1.toNat) ?_ (dvd_zero _)
  intro t ht
  have hlt := t.1.toNat_lt
  have hpos : 0 < vec.toNat := Nat.pos_of_dvd_of_pos hv (by decide)
  have hsum : vec.toNat ∣ t.1.toNat + vec.toNat := ht.add (dvd_refl _)
  have hle : t.1.toNat + vec.toNat ≤ 2 ^ 32 := Nat.le_of_lt_add_of_dvd (by omega) hsum hv
  have hmod : (t.1 + vec).toNat = (t.1.toNat + vec.toNat) % 2 ^ 32 := UInt32.toNat_add t.1 vec
  refine .inr ⟨?_, ?_⟩
  · have hgo : t.1 + vec ≤ dim := by
      rw [UInt32.le_iff_toNat_le, hmod]
      obtain he | hlt := hle.eq_or_lt
      · rw [he, Nat.mod_self]
        exact Nat.zero_le _
      · rw [Nat.mod_eq_of_lt hlt]
        have := Nat.le_of_lt_add_of_dvd (show t.1.toNat + vec.toNat + vec.toNat < 2 ^ 32 + vec.toNat by omega)
          (hsum.add (dvd_refl _)) hv
        omega
    simpa using hgo
  · rintro t' ht'
    obtain rfl := Option.some.inj ht'
    rw [hmod]
    exact (Nat.dvd_mod_iff hv).mpr hsum

end VecLoop

namespace Simd

variable (simd : Simd)

theorem toNat_vec : simd.vec.toNat = simd.lanes := by
  cases simd <;> rfl

theorem lanes_pos : 0 < simd.lanes := by
  cases simd <;> decide

theorem lanes_dvd : simd.lanes ∣ 2 ^ 32 := by
  cases simd <;> decide

theorem madd_eq (sum q k : F) : simd.madd sum q k = sum + q * k := by
  cases simd <;> first | rfl | exact add_comm _ _

theorem reduce128_eq_sum (v : Nat → F) : reduce128 v = ∑ l ∈ Finset.range 4, v l := by
  simp [reduce128, haddPs, Finset.sum_range_succ]
  ring

theorem reduce256_eq_sum (v : Nat → F) : reduce256 v = ∑ l ∈ Finset.range 8, v l := by
  rw [reduce256, reduce128_eq_sum]
  simp only [Finset.sum_range_succ, Finset.sum_range_zero]
  ring

theorem reduce_eq_sum (v : Nat → F) : simd.reduce v = ∑ l ∈ Finset.range simd.lanes, v l := by
  cases simd with
  | avx512 | neon => rfl
  | avx2 => exact reduce256_eq_sum v
  | sse2 => exact reduce128_eq_sum v
  | scalar => simp [reduce, reduceUnrolled, lanes, Finset.sum_range_succ]

/-- The whole registers. -/
theorem reduce_foldl (q k : Nat → F) (m : Nat) :
    simd.reduce ((List.range m).foldl (fun sum (t : Nat) (l : Nat) =>
      simd.madd (sum l) (q (simd.lanes * t + l)) (k (simd.lanes * t + l))) fun _ => 0) =
      ∑ j ∈ Finset.range (simd.lanes * m), q j * k j := by
  induction m with
  | zero => simp [reduce_eq_sum]
  | succ m ih =>
    rw [reduce_eq_sum] at ih ⊢
    rw [List.range_succ, List.foldl_append, List.foldl_cons, List.foldl_nil,
      Finset.sum_congr rfl fun l _ => madd_eq simd _ _ _, Finset.sum_add_distrib, ih, Nat.mul_succ,
      Finset.sum_range_add]

theorem foldl_remainder (f : Nat → F) (start n : Nat) (init : F) :
    (List.range' start n).foldl (fun result i => result + f i) init =
      init + ∑ t ∈ Finset.range n, f (start + t) := by
  rw [List.range'_eq_map_range, List.foldl_map, foldl_add_eq_sum]

theorem vectorDot_eq (q k : Nat → F) {dim : UInt32} (h : dim.toNat + simd.lanes < 2 ^ 32) :
    simd.vectorDot q k dim = some (∑ j ∈ Finset.range dim.toNat, q j * k j) := by
  obtain ⟨i, hi, hloop⟩ := vecLoop_eq simd.vec dim
    (fun i sum (l : Nat) => simd.madd (sum l) (q (i + l)) (k (i + l))) (fun _ => 0)
    (by rw [toNat_vec]; exact simd.lanes_pos) (by rwa [toNat_vec])
  rw [toNat_vec] at hi hloop
  have hle : simd.lanes * (dim.toNat / simd.lanes) ≤ dim.toNat := Nat.mul_div_le _ _
  rw [vectorDot, hloop, Option.map_some, foldl_remainder (fun i => q i * k i), reduce_foldl, hi,
    ← Finset.sum_range_add, Nat.add_sub_cancel' hle]

theorem vectorDot_eq_none (q k : Nat → F) {dim : UInt32} (h : 2 ^ 32 ≤ dim.toNat + simd.lanes) :
    simd.vectorDot q k dim = none := by
  rw [vectorDot, vecLoop_eq_none _ _ _ _ (by rw [toNat_vec]; exact simd.lanes_dvd) (by rwa [toNat_vec])]
  rfl

end Simd

/-- The two stretches of `n` numbers are the same or apart. -/
def Beside (mean src n : Nat) : Prop := src = mean ∨ src + n ≤ mean ∨ mean + n ≤ src

theorem Beside.shift {mean src n a b : Nat} (h : Beside mean src n) (hab : a + b ≤ n) :
    Beside (mean + a) (src + a) b := by
  unfold Beside at *
  omega

theorem Beside.take {mean src n m : Nat} (h : Beside mean src n) (hm : m ≤ n) : Beside mean src m := by
  unfold Beside at *
  omega

/-- No number of the stretch would change. -/
def Still (f : F → F → F) (mem : Nat → F) (mean src n : Nat) : Prop :=
  ∀ d < n, f (mem (mean + d)) (mem (src + d)) = mem (mean + d)

section Stretch

omit [Field F]

variable {f : F → F → F} {mem : Nat → F} {mean src n m : Nat}

theorem atOnce_add (h : Beside mean src (n + m)) :
    atOnce f m (mean + n) (src + n) (atOnce f n mean src mem) = atOnce f (n + m) mean src mem := by
  funext a
  unfold Beside at h
  unfold atOnce
  by_cases hlow : mean ≤ a ∧ a < mean + n
  · rw [if_neg (by omega), if_pos hlow, if_pos (by omega)]
  · by_cases hhigh : mean + n ≤ a ∧ a < mean + n + m
    · have hread : ¬(mean ≤ src + n + (a - (mean + n)) ∧ src + n + (a - (mean + n)) < mean + n) := by omega
      have hall : mean ≤ a ∧ a < mean + (n + m) := by omega
      rw [if_pos hhigh, if_neg hlow, if_neg hread, if_pos hall, show src + n + (a - (mean + n)) = src + (a - mean) by omega]
    · rw [if_neg hhigh, if_neg hlow, if_neg (by omega)]

theorem atOnce_one : atOnce f 1 mean src mem = Function.update mem mean (f (mem mean) (mem src)) := by
  funext a
  unfold atOnce
  by_cases ha : a = mean
  · subst ha
    simp
  · rw [if_neg (by omega), Function.update_of_ne ha]

theorem inOrder_succ : inOrder f (n + 1) mean src mem =
    atOnce f 1 (mean + n) (src + n) (inOrder f n mean src mem) := by
  rw [atOnce_one, inOrder, List.range_succ, List.foldl_append]
  rfl

/-- Where nothing is overwritten that is still to be read, the order does not matter. -/
theorem inOrder_eq (h : Beside mean src n) : inOrder f n mean src mem = atOnce f n mean src mem := by
  induction n with
  | zero =>
    funext a
    rw [atOnce, if_neg (by omega)]
    rfl
  | succ n ih =>
    rw [inOrder_succ, ih (h.take (Nat.le_succ n)), atOnce_add h]

theorem Still.atOnce (h : Still f mem mean src n) : VecProduct.atOnce f n mean src mem = mem := by
  funext a
  unfold VecProduct.atOnce
  split_ifs with ha
  · have := h (a - mean) (by omega)
    rwa [Nat.add_sub_cancel' ha.1] at this
  · rfl

theorem Still.inOrder (h : Still f mem mean src n) : VecProduct.inOrder f n mean src mem = mem := by
  induction n with
  | zero => rfl
  | succ n ih =>
    rw [inOrder_succ, ih fun d hd => h d (by omega), atOnce_one, h n (by omega), Function.update_eq_self]

theorem Still.shift {a b : Nat} (h : Still f mem mean src n) (hab : a + b ≤ n) : Still f mem (mean + a) (src + a) b := by
  intro d hd
  rw [Nat.add_assoc, Nat.add_assoc]
  exact h (a + d) (by omega)

namespace Simd

variable (simd : Simd) {dim : UInt32}

theorem step_eq (h : Beside mean src simd.lanes) : simd.step f mean src mem = atOnce f simd.lanes mean src mem := by
  cases simd with
  | avx512 | avx2 | sse2 | neon => rfl
  | scalar => exact inOrder_eq h

theorem step_still (h : Still f mem mean src simd.lanes) : simd.step f mean src mem = mem := by
  cases simd with
  | avx512 | avx2 | sse2 | neon => exact h.atOnce
  | scalar => exact h.inOrder

theorem pass_eq_map (f : F → F → F) (mean src : Nat) (mem : Nat → F) (h : dim.toNat + simd.lanes < 2 ^ 32) :
    simd.pass f dim mean src mem = some (inOrder f (dim.toNat - simd.lanes * (dim.toNat / simd.lanes))
      (mean + simd.lanes * (dim.toNat / simd.lanes)) (src + simd.lanes * (dim.toNat / simd.lanes))
      ((List.range (dim.toNat / simd.lanes)).foldl
        (fun mem m => simd.step f (mean + simd.lanes * m) (src + simd.lanes * m) mem) mem)) := by
  obtain ⟨i, hi, hloop⟩ := vecLoop_eq simd.vec dim (fun i mem => simd.step f (mean + i) (src + i) mem) mem
    (by rw [toNat_vec]; exact simd.lanes_pos) (by rwa [toNat_vec])
  rw [toNat_vec] at hi hloop
  rw [pass, hloop, Option.map_some, hi]

theorem pass_eq (h : dim.toNat + simd.lanes < 2 ^ 32) (hb : Beside mean src dim.toNat) :
    simd.pass f dim mean src mem = some (atOnce f dim.toNat mean src mem) := by
  have hle : simd.lanes * (dim.toNat / simd.lanes) ≤ dim.toNat := Nat.mul_div_le _ _
  have hwhole : ∀ m, simd.lanes * m ≤ dim.toNat → (List.range m).foldl
      (fun mem m => simd.step f (mean + simd.lanes * m) (src + simd.lanes * m) mem) mem =
        atOnce f (simd.lanes * m) mean src mem := by
    intro m hm
    induction m with
    | zero =>
      funext a
      rw [atOnce, if_neg (by omega)]
      rfl
    | succ m ih =>
      rw [Nat.mul_succ] at hm ⊢
      rw [List.range_succ, List.foldl_append, ih (by omega), List.foldl_cons, List.foldl_nil,
        step_eq simd (hb.shift (by omega)), atOnce_add (hb.take (by omega))]
  rw [pass_eq_map simd f mean src mem h, hwhole _ hle, inOrder_eq (hb.shift (by omega)),
    atOnce_add (hb.take (by omega)), Nat.add_sub_cancel' hle]

theorem pass_still (h : dim.toNat + simd.lanes < 2 ^ 32) (hs : Still f mem mean src dim.toNat) :
    simd.pass f dim mean src mem = some mem := by
  have hle : simd.lanes * (dim.toNat / simd.lanes) ≤ dim.toNat := Nat.mul_div_le _ _
  have hwhole : ∀ m, simd.lanes * m ≤ dim.toNat → (List.range m).foldl
      (fun mem m => simd.step f (mean + simd.lanes * m) (src + simd.lanes * m) mem) mem = mem := by
    intro m hm
    induction m with
    | zero => rfl
    | succ m ih =>
      rw [Nat.mul_succ] at hm
      rw [List.range_succ, List.foldl_append, ih (by omega), List.foldl_cons, List.foldl_nil]
      exact step_still simd (hs.shift (by omega))
  rw [pass_eq_map simd f mean src mem h, hwhole _ hle, (hs.shift (by omega)).inOrder]

end Simd

end Stretch

section Mean

variable {mem : Nat → F} {mean vectors : Nat} {dim numK : UInt32}

/-- The first `n` vectors of the group added up in `mean`. -/
def summed (mem : Nat → F) (mean vectors dim n : Nat) : Nat → F := fun a =>
  if mean ≤ a ∧ a < mean + dim then ∑ r ∈ Finset.range n, mem (vectors + r * dim + (a - mean)) else mem a

theorem toNat_row {k : Nat} (hk : k < 2 ^ 32) (h : k * dim.toNat < 2 ^ 32) :
    (UInt32.ofNat k * dim).toNat = k * dim.toNat := by
  rw [UInt32.toNat_mul, UInt32.toNat_ofNat', Nat.mod_eq_of_lt hk, Nat.mod_eq_of_lt h]

/-- A vector of the group behind the first is not overwritten. -/
theorem atOnce_summed {n : Nat} (hn : 0 < n) (hm : mean = vectors ∨ mean + dim.toNat ≤ vectors) :
    atOnce (· + ·) dim.toNat mean (vectors + n * dim.toNat) (summed mem mean vectors dim.toNat n) =
      summed mem mean vectors dim.toNat (n + 1) := by
  have hrow : dim.toNat ≤ n * dim.toNat := Nat.le_mul_of_pos_left _ hn
  funext a
  unfold atOnce
  by_cases ha : mean ≤ a ∧ a < mean + dim.toNat
  · have hread : ¬(mean ≤ vectors + n * dim.toNat + (a - mean) ∧
        vectors + n * dim.toNat + (a - mean) < mean + dim.toNat) := by omega
    rw [if_pos ha, summed, if_pos ha, summed, if_neg hread, summed, if_pos ha, Finset.sum_range_succ]
  · rw [if_neg ha, summed, if_neg ha, summed, if_neg ha]

namespace Simd

variable (simd : Simd)

theorem first_eq (h : dim.toNat + simd.lanes < 2 ^ 32) (hm : mean = vectors ∨ mean + dim.toNat ≤ vectors) :
    simd.first dim mean vectors mem = some (summed mem mean vectors dim.toNat 1) := by
  have hb : Beside mean vectors dim.toNat := by
    unfold Beside
    omega
  have hsum : atOnce (fun _ v => v) dim.toNat mean vectors mem = summed mem mean vectors dim.toNat 1 := by
    funext a
    simp [atOnce, summed]
  rw [← hsum]
  cases simd with
  | avx512 | avx2 | sse2 | neon => exact pass_eq _ h hb
  | scalar => rfl

theorem foldlM_pass (h : dim.toNat + simd.lanes < 2 ^ 32) (hm : mean = vectors ∨ mean + dim.toNat ≤ vectors) {n : Nat}
    (hn : n < 2 ^ 32) (hrow : n * dim.toNat < 2 ^ 32) :
    (List.range' 1 n).foldlM (fun mem (k : Nat) =>
      simd.pass (· + ·) dim mean (vectors + (UInt32.ofNat k * dim).toNat) mem) (summed mem mean vectors dim.toNat 1) =
      some (summed mem mean vectors dim.toNat (n + 1)) := by
  induction n with
  | zero => rfl
  | succ n ih =>
    have hle : n * dim.toNat ≤ (n + 1) * dim.toNat := Nat.mul_le_mul_right _ (Nat.le_succ n)
    have hfar : dim.toNat ≤ (n + 1) * dim.toNat := Nat.le_mul_of_pos_left _ (Nat.succ_pos n)
    have hb : Beside mean (vectors + (n + 1) * dim.toNat) dim.toNat := by
      unfold Beside
      omega
    rw [List.range'_1_concat, List.foldlM_append, ih (by omega) (by omega), Nat.add_comm 1 n]
    simp only [Option.bind_eq_bind, Option.bind_some, List.foldlM_cons, List.foldlM_nil]
    rw [toNat_row hn hrow, pass_eq simd h hb, atOnce_summed (Nat.succ_pos n) hm]
    rfl

theorem vectorMean_eq (h : dim.toNat + simd.lanes < 2 ^ 32) (hn : numK ≠ 0)
    (hrow : (numK.toNat - 1) * dim.toNat < 2 ^ 32) (hm : mean = vectors ∨ mean + dim.toNat ≤ vectors) :
    simd.vectorMean mem vectors mean dim numK = some fun a =>
      if mean ≤ a ∧ a < mean + dim.toNat then
        (∑ r ∈ Finset.range numK.toNat, mem (vectors + r * dim.toNat + (a - mean))) / numK.toNat
      else mem a := by
  have hlt := numK.toNat_lt
  have hpos : 0 < numK.toNat := Nat.pos_of_ne_zero fun hz => hn (UInt32.toNat_inj.mp hz)
  rw [vectorMean, if_neg hn, first_eq simd h hm, Option.bind_some, foldlM_pass simd h hm (by omega) hrow,
    Option.bind_some, Nat.sub_add_cancel hpos, pass_eq simd h (.inl rfl)]
  congr 1
  funext a
  unfold atOnce
  split_ifs with ha
  · rw [summed, if_pos ha]
    exact mul_one_div _ _
  · rw [summed, if_neg ha]

theorem vectorMean_isSome (mem : Nat → F) (vectors mean : Nat) (numK : UInt32) (h : dim.toNat + simd.lanes < 2 ^ 32) :
    (simd.vectorMean mem vectors mean dim numK).isSome := by
  have hpass : ∀ (f : F → F → F) (src : Nat) (mem : Nat → F), ∃ mem', simd.pass f dim mean src mem = some mem' :=
    fun f src mem => ⟨_, pass_eq_map simd f mean src mem h⟩
  have hfirst : ∃ mem', simd.first dim mean vectors mem = some mem' := by
    cases simd with
    | avx512 | avx2 | sse2 | neon => exact hpass _ _ _
    | scalar => exact ⟨_, rfl⟩
  have hadd : ∀ (ks : List Nat) (mem : Nat → F), ∃ mem', ks.foldlM (fun mem (k : Nat) =>
      simd.pass (· + ·) dim mean (vectors + (UInt32.ofNat k * dim).toNat) mem) mem = some mem' := by
    intro ks
    induction ks with
    | nil => exact fun mem => ⟨mem, rfl⟩
    | cons k ks ih =>
      intro mem
      obtain ⟨mem', hmem⟩ := hpass (· + ·) (vectors + (UInt32.ofNat k * dim).toNat) mem
      rw [List.foldlM_cons, hmem]
      exact ih mem'
  rw [vectorMean]
  split_ifs with hn
  · rfl
  · obtain ⟨mem₁, h₁⟩ := hfirst
    obtain ⟨mem₂, h₂⟩ := hadd (List.range' 1 (numK.toNat - 1)) mem₁
    obtain ⟨mem₃, h₃⟩ := hpass (fun m _ => m * (1 / (numK.toNat : F))) mean mem₂
    rw [h₁, Option.bind_some, h₂, Option.bind_some, h₃]
    rfl

/-- Where every number in reach is zero, nothing changes. -/
theorem vectorMean_zero (h : dim.toNat + simd.lanes < 2 ^ 32) (hn : numK ≠ 0)
    (hmean : ∀ d < dim.toNat, mem (mean + d) = 0)
    (hvectors : ∀ k < numK.toNat, ∀ d < dim.toNat, mem (vectors + (UInt32.ofNat k * dim).toNat + d) = 0) :
    simd.vectorMean mem vectors mean dim numK = some mem := by
  have hpos : 0 < numK.toNat := Nat.pos_of_ne_zero fun hz => hn (UInt32.toNat_inj.mp hz)
  have hcopy : Still (fun _ v => v) mem mean vectors dim.toNat := by
    intro d hd
    rw [hmean d hd]
    simpa using hvectors 0 hpos d hd
  have hscale : Still (fun m _ => m * (1 / (numK.toNat : F))) mem mean mean dim.toNat := by
    intro d hd
    show mem (mean + d) * _ = mem (mean + d)
    rw [hmean d hd, zero_mul]
  have hfirst : simd.first dim mean vectors mem = some mem := by
    cases simd with
    | avx512 | avx2 | sse2 | neon => exact pass_still _ h hcopy
    | scalar => exact congrArg some hcopy.atOnce
  have hadd : ∀ ks : List Nat, (∀ k ∈ ks, k < numK.toNat) → ks.foldlM (fun mem (k : Nat) =>
      simd.pass (· + ·) dim mean (vectors + (UInt32.ofNat k * dim).toNat) mem) mem = some mem := by
    intro ks hks
    induction ks with
    | nil => rfl
    | cons k ks ih =>
      have hstill : Still (· + ·) mem mean (vectors + (UInt32.ofNat k * dim).toNat) dim.toNat := by
        intro d hd
        show mem (mean + d) + mem (vectors + (UInt32.ofNat k * dim).toNat + d) = mem (mean + d)
        rw [hvectors k (hks k List.mem_cons_self) d hd, add_zero]
      rw [List.foldlM_cons, pass_still simd h hstill]
      exact ih fun k hk => hks k (List.mem_cons_of_mem _ hk)
  have hbehind : ∀ k ∈ List.range' 1 (numK.toNat - 1), k < numK.toNat := by
    intro k hk
    have := List.mem_range'_1.mp hk
    omega
  rw [vectorMean, if_neg hn, hfirst, Option.bind_some, hadd _ hbehind, Option.bind_some, pass_still simd h hscale]

end Simd

end Mean

end UnifiedCache.Sparse.VecProduct
