import Mathlib

/-! Sums weighted by the exponentials of scores, as they are taken part by part: against a reference
that moves, with what was summed before rescaled. A score may be `⊥`, its exponential is zero. -/

/-- A function that turns sums into products, as the exponential does. -/
structure Exponential (K : Type*) [Field K] [LinearOrder K] where
  exp : K → K
  exp_pos : ∀ x, 0 < exp x
  exp_add : ∀ x y, exp (x + y) = exp x * exp y

namespace Exponential

variable {K ι κ δ : Type*} [Field K] [LinearOrder K] (e : Exponential K)

def expBot (x : WithBot K) : K := WithBot.recBotCoe 0 e.exp x

/-- The exponential of a score against a reference. -/
def weight (m : K) (x : WithBot K) : K := e.expBot (x.map (· - m))

@[simp] theorem expBot_bot : e.expBot ⊥ = 0 := rfl

@[simp] theorem expBot_coe (x : K) : e.expBot x = e.exp x := rfl

@[simp] theorem weight_bot (m : K) : e.weight m ⊥ = 0 := rfl

@[simp] theorem weight_coe (m x : K) : e.weight m x = e.exp (x - m) := rfl

theorem exp_zero : e.exp 0 = 1 := by
  have h := e.exp_add 0 0
  rw [add_zero] at h
  exact (mul_eq_left₀ (e.exp_pos 0).ne').mp h.symm

theorem weight_self (m : K) : e.weight m m = 1 := by
  rw [weight_coe, sub_self, exp_zero]

/-- A weight is rescaled when the reference moves. -/
theorem weight_mul_weight (m n : K) (x : WithBot K) : e.weight m x * e.weight n m = e.weight n x := by
  cases x with
  | bot => simp
  | coe x => rw [weight_coe, weight_coe, weight_coe, ← e.exp_add, sub_add_sub_cancel]

/-- The mean of the values, weighted by the exponentials of their scores. -/
def softmax (s : Finset ι) (score : ι → WithBot K) (value : ι → K) : K :=
  (∑ i ∈ s, e.expBot (score i) * value i) / ∑ i ∈ s, e.expBot (score i)

/-- `l` and `a` are the sums of the weights and of the weighted values over `s`, against the
reference `m`. With `⊥` for the reference they stand for empty sums, whatever they are. -/
structure Sums (s : Finset ι) (score : ι → WithBot K) (value : ι → δ → K) (m : WithBot K) (l : K) (a : δ → K) :
    Prop where
  total : ∀ n : K, l * e.weight n m = ∑ i ∈ s, e.weight n (score i)
  weighted : ∀ (n : K) (d : δ), a d * e.weight n m = ∑ i ∈ s, e.weight n (score i) * value i d

variable {e} {s t : Finset ι} {score : ι → WithBot K} {value : ι → δ → K} {m : WithBot K} {l : K} {a : δ → K}

theorem Sums.start (l : K) (a : δ → K) : e.Sums (∅ : Finset ι) score value ⊥ l a where
  total := by simp
  weighted := by simp

theorem Sums.eq_sums {m : K} (h : e.Sums s score value m l a) :
    l = ∑ i ∈ s, e.weight m (score i) ∧ ∀ d, a d = ∑ i ∈ s, e.weight m (score i) * value i d := by
  constructor
  · have htotal := h.total m
    rwa [weight_self, mul_one] at htotal
  · intro d
    have hweighted := h.weighted m d
    rwa [weight_self, mul_one] at hweighted

theorem Sums.of_eq {m : K} (hl : l = ∑ i ∈ s, e.weight m (score i))
    (ha : ∀ d, a d = ∑ i ∈ s, e.weight m (score i) * value i d) : e.Sums s score value m l a where
  total := by
    intro n
    rw [hl, Finset.sum_mul]
    exact Finset.sum_congr rfl fun i _ => e.weight_mul_weight m n (score i)
  weighted := by
    intro n d
    rw [ha, Finset.sum_mul]
    refine Finset.sum_congr rfl fun i _ => ?_
    rw [mul_right_comm, e.weight_mul_weight]

/-- More terms are taken in, against any reference. -/
theorem Sums.absorb [DecidableEq ι] (h : e.Sums s score value m l a) (hd : Disjoint s t) (n : K) :
    e.Sums (s ∪ t) score value n (l * e.weight n m + ∑ i ∈ t, e.weight n (score i))
      fun d => a d * e.weight n m + ∑ i ∈ t, e.weight n (score i) * value i d := by
  refine Sums.of_eq ?_ fun d => ?_
  · rw [Finset.sum_union hd, h.total]
  · rw [Finset.sum_union hd, h.weighted]

theorem expBot_nonneg (x : WithBot K) : 0 ≤ e.expBot x := by
  cases x with
  | bot => exact le_rfl
  | coe x => exact (e.exp_pos x).le

theorem weight_nonneg (n : K) (x : WithBot K) : 0 ≤ e.weight n x := expBot_nonneg _

theorem weight_pos {n : K} {x : WithBot K} (h : x ≠ ⊥) : 0 < e.weight n x := by
  obtain ⟨x, rfl⟩ := WithBot.ne_bot_iff_exists.mp h
  exact e.exp_pos _

/-- One score above `⊥` makes the sum of the weights positive. -/
theorem Sums.pos [IsStrictOrderedRing K] {m : K} (h : e.Sums s score value m l a) {i : ι} (hi : i ∈ s)
    (hscore : score i ≠ ⊥) : 0 < l := by
  rw [h.eq_sums.1]
  exact Finset.sum_pos' (fun j _ => weight_nonneg m (score j)) ⟨i, hi, weight_pos hscore⟩

end Exponential
