import UnifiedCache.Sparse.ReropeGrid

/-! What the loops of the attention kernels have for a row: sums over the keys of its blocks against the
running maximum, whose quotient is plain attention once all keys are met that the token attends to. -/

namespace UnifiedCache.Sparse.Rerope

section Positions

variable {K : Type*} {a : Args K} {s t h : Nat}

/-- Where a token is in its sequence, behind what was there before the batch. -/
def Args.pos (a : Args K) (seqIdx token : Nat) : Nat :=
  a.sequsedK seqIdx - (a.cuSeqlensQ (seqIdx + 1) - a.cuSeqlensQ seqIdx) + (token - a.cuSeqlensQ seqIdx)

end Positions

section Loads

variable {K : Type*} [Field K] {a : Args K} {r : Row}

def Row.keyValue (a : Args K) (r : Row) (k d : Nat) : K :=
  dequant a.v.fp8 a.q.fp8 a.vDescale (r.loadCache a a.v (k / a.blockSize) (k % a.blockSize) d)

end Loads

variable {K : Type*} [Field K] [LinearOrder K] {e : Exponential K} {a : Args K} {r : Row}

namespace Row

variable (e a r)

/-- The score of a key, by its block and its slot. -/
def keyScore (k : Nat) : WithBot K := r.score e a (k / a.blockSize) (k % a.blockSize)

/-- The running values are sums over some keys. -/
def SumsOver (s : Finset Nat) (st : Acc K) : Prop := e.Sums s (r.keyScore e a) (r.keyValue a) st.max st.sum st.acc

variable {e a r}

/-- The slots of a block are the keys from its first one on. -/
theorem sum_block {M : Type*} [AddCommMonoid M] (f : Nat → Nat → M) (size j : Nat) :
    ∑ k ∈ Finset.Ico (j * size) ((j + 1) * size), f (k / size) (k % size) = ∑ n ∈ Finset.range size, f j n := by
  have hlen : (j + 1) * size - j * size = size := by rw [Nat.add_one_mul, Nat.add_sub_cancel_left]
  rw [Finset.sum_Ico_eq_sum_range, hlen]
  refine Finset.sum_congr rfl fun n hn => ?_
  have hn := Finset.mem_range.mp hn
  have hdiv : (j * size + n) / size = j := by
    rw [Nat.mul_comm, Nat.mul_add_div (Nat.zero_lt_of_lt hn), Nat.div_eq_of_lt hn, Nat.add_zero]
  have hmod : (j * size + n) % size = n := by
    rw [Nat.mul_comm, Nat.mul_add_mod, Nat.mod_eq_of_lt hn]
  rw [hdiv, hmod]

/-- A turn of the loop takes in the keys of a block. -/
theorem SumsOver.tile {st : Acc K} {lo j : Nat} (h : r.SumsOver e a (Finset.Ico lo (j * a.blockSize)) st)
    (hlo : lo ≤ j * a.blockSize) :
    r.SumsOver e a (Finset.Ico lo ((j + 1) * a.blockSize)) (r.tile e a st j) := by
  have hj : j * a.blockSize ≤ (j + 1) * a.blockSize := Nat.mul_le_mul_right _ (Nat.le_succ j)
  have hdisjoint := Finset.Ico_disjoint_Ico_consecutive lo (j * a.blockSize) ((j + 1) * a.blockSize)
  have hsums := Exponential.Sums.absorb h hdisjoint (r.nextMax e a st j)
  rw [Finset.Ico_union_Ico_eq_Ico hlo hj] at hsums
  have htotal := sum_block (fun j' n => e.weight (r.nextMax e a st j) (r.score e a j' n)) a.blockSize j
  have hweighted := fun d => sum_block (fun j' n => e.weight (r.nextMax e a st j) (r.score e a j' n) *
    dequant a.v.fp8 a.q.fp8 a.vDescale (r.loadCache a a.v j' n d)) a.blockSize j
  unfold keyScore keyValue at hsums
  simp only [htotal, hweighted] at hsums
  exact hsums

end Row

/-- The bias of all scores of a row, beside that of the distance. -/
def Args.shift (a : Args K) (seqIdx token head : Nat) : K :=
  match a.alibiSlopes with
  | none => 0
  | some alibiSlopes =>
    alibiSlopes head * (((a.pos seqIdx token : Int) - (a.rowAt seqIdx token head).contextLen a : Int) : K)

section Valid

variable {s t h : Nat}

end Valid

end UnifiedCache.Sparse.Rerope
