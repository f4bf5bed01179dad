import Mathlib

/-! Naturals rounded to a number of binary digits, to nearest and ties to even, as a product of
floats is rounded. -/

namespace Rounding

variable {p m : Nat}

/-- The digits that `m` has too many. -/
def excess (p m : Nat) : Nat := m.size - p

def nearest (p m : Nat) : Nat :=
  let unit := 2 ^ excess p m
  let up := unit < 2 * (m % unit) ∨ unit = 2 * (m % unit) ∧ m / unit % 2 = 1
  (if up then m / unit + 1 else m / unit) * unit

/-- The unit of the last digit against the number. -/
theorem unit_le (hm : p < m.size) : 2 ^ (p + excess p m) ≤ 2 * m := by
  have hlt : m.size - 1 < m.size := by omega
  have hle : 2 ^ (m.size - 1) ≤ m := Nat.lt_size.mp hlt
  have hsum : p + excess p m = m.size - 1 + 1 := by
    rw [excess]
    omega
  rw [hsum, Nat.pow_succ]
  omega

theorem nearest_of_size_le (hm : m.size ≤ p) : nearest p m = m := by
  have hexcess : excess p m = 0 := Nat.sub_eq_zero_of_le hm
  simp [nearest, hexcess, Nat.mod_one]

theorem nearest_bounds (p m : Nat) :
    2 * nearest p m ≤ 2 * m + 2 ^ excess p m ∧ 2 * m ≤ 2 * nearest p m + 2 ^ excess p m := by
  have hdiv := Nat.div_add_mod m (2 ^ excess p m)
  have hmod := Nat.mod_lt m (Nat.two_pow_pos (excess p m))
  rw [nearest]
  rw [Nat.mul_comm] at hdiv
  split_ifs with hup
  · rw [Nat.add_mul, Nat.one_mul]
    omega
  · omega

/-- The rounded number is off by one in `2 ^ p` at most. -/
theorem nearest_close (p m : Nat) :
    2 ^ p * nearest p m ≤ (2 ^ p + 1) * m ∧ 2 ^ p * m ≤ 2 ^ p * nearest p m + m := by
  by_cases hm : m.size ≤ p
  · rw [nearest_of_size_le hm, Nat.add_mul]
    omega
  · obtain ⟨hup, hdown⟩ := nearest_bounds p m
    have hunit := unit_le (not_le.mp hm)
    rw [Nat.pow_add] at hunit
    have hup' := Nat.mul_le_mul_left (2 ^ p) hup
    have hdown' := Nat.mul_le_mul_left (2 ^ p) hdown
    rw [Nat.mul_add, Nat.mul_left_comm, Nat.mul_left_comm _ 2 m] at hup'
    rw [Nat.mul_add, Nat.mul_left_comm, Nat.mul_left_comm _ 2 (nearest p m)] at hdown'
    rw [Nat.add_mul]
    omega

end Rounding
