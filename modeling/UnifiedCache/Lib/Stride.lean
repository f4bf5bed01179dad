import Mathlib

/-! The numbers below a bound, shared out by their remainder: a walk from a remainder in steps of the
modulus meets the numbers of its share, in order, and the shares make up all of them. -/

/-- The numbers below `n` that have the remainder `t`. -/
def strided (T n t : Nat) : List Nat := (List.range n).filter (· % T = t)

section Strided

variable {T n q t x : Nat}

theorem mem_strided : x ∈ strided T n t ↔ x < n ∧ x % T = t := by
  simp [strided]

theorem strided_nodup (T n t : Nat) : (strided T n t).Nodup := List.nodup_range.filter _

/-- Between two steps of the walk there is no number of the share. -/
theorem mod_ne_of_between (hq : q % T = t) (hx : q < x) (hlt : x < q + T) : x % T ≠ t := by
  intro h
  have hd : (x - q) % T = 0 := Nat.sub_mod_eq_zero_of_mod_eq (h.trans hq.symm)
  rw [Nat.mod_eq_of_lt (by omega)] at hd
  omega

theorem strided_of_le (hq : q % T = t) (hn : n ≤ q) (hlt : q < n + T) : strided T q t = strided T n t := by
  obtain ⟨d, rfl⟩ := Nat.exists_eq_add_of_le hn
  have hnone : ((List.range d).map (n + ·)).filter (· % T = t) = [] := by
    refine List.filter_eq_nil_iff.mpr fun x hx => ?_
    obtain ⟨i, hi, rfl⟩ := List.mem_map.mp hx
    have hi := List.mem_range.mp hi
    have hne : (n + d) % T ≠ (n + i) % T := mod_ne_of_between rfl (by omega) (by omega)
    simpa using fun h : (n + i) % T = t => hne (hq.trans h.symm)
  rw [strided, List.range_add, List.filter_append, hnone, List.append_nil]
  rfl

theorem strided_add (hT : 0 < T) (hq : q % T = t) : strided T (q + T) t = strided T q t ++ [q] := by
  have hone : strided T (q + 1) t = strided T q t ++ [q] := by
    simp [strided, List.range_succ, hq]
  rw [← hone]
  exact strided_of_le (by rw [Nat.add_mod_right, hq]) (by omega) (by omega)

theorem strided_self (ht : t < T) : strided T t t = [] := by
  refine List.filter_eq_nil_iff.mpr fun x hx => ?_
  have hx := List.mem_range.mp hx
  rw [Nat.mod_eq_of_lt (hx.trans ht)]
  simpa using hx.ne

/-- The shares make up all the numbers. -/
theorem strided_perm (hT : 0 < T) (n : Nat) : ((List.range T).flatMap (strided T n)).Perm (List.range n) := by
  refine (List.perm_ext_iff_of_nodup ?_ List.nodup_range).mpr fun x => ?_
  · refine List.nodup_flatMap.mpr ⟨fun t _ => strided_nodup T n t, ?_⟩
    refine List.nodup_range.imp fun hne => ?_
    refine List.disjoint_left.mpr fun x hx hx' => ?_
    exact hne ((mem_strided.mp hx).2.symm.trans (mem_strided.mp hx').2)
  · simp only [List.mem_flatMap, List.mem_range, mem_strided]
    constructor
    · rintro ⟨t, -, hx, -⟩
      exact hx
    · intro hx
      exact ⟨x % T, Nat.mod_lt x hT, hx, rfl⟩

end Strided
