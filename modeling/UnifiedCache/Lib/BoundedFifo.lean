import Mathlib

/-! Keys kept in a ring of `n` cells. Each new key goes into the cell after the
last one, so the ring holds the last `n` keys of its history and forgets the
oldest first. -/

namespace BoundedFifo

variable {Key : Type*} {n i : Nat} {log : List Key} {cell : Nat → Option Key} {k : Key}

/-- The last `n` keys of a history, oldest first. -/
def kept (n : Nat) (log : List Key) : List Key := log.drop (log.length - n)

theorem mem_kept_iff : k ∈ kept n log ↔ ∃ j, log.length ≤ j + n ∧ log[j]? = some k := by
  rw [kept, List.mem_iff_getElem?]
  constructor
  · rintro ⟨j, hj⟩
    rw [List.getElem?_drop] at hj
    exact ⟨log.length - n + j, by omega, hj⟩
  · rintro ⟨j, hj, hk⟩
    refine ⟨j - (log.length - n), ?_⟩
    rw [List.getElem?_drop, show log.length - n + (j - (log.length - n)) = j by omega]
    exact hk

/-- A new key takes the place of the oldest one once the ring is full. -/
theorem kept_append_singleton (hn : 1 ≤ n) : kept n (log ++ [k]) =
    (if (kept n log).length < n then kept n log else (kept n log).tail) ++ [k] := by
  have hlen : (kept n log).length = log.length - (log.length - n) := List.length_drop
  have hle : log.length + 1 - n ≤ log.length := by omega
  rw [kept, List.length_append, List.length_singleton, List.drop_append_of_le_length hle]
  congr 1
  split_ifs with h
  · rw [kept]
    congr 1
    omega
  · rw [kept, List.tail_drop]
    congr 1
    omega

theorem nodup_kept_append_singleton (hn : 1 ≤ n) (h : (kept n log).Nodup) (hk : k ∉ kept n log) :
    (kept n (log ++ [k])).Nodup := by
  rw [kept_append_singleton hn]
  have hs : ((if (kept n log).length < n then kept n log else (kept n log).tail)).Sublist
      (kept n log) := by
    split_ifs
    · exact List.Sublist.refl _
    · exact List.tail_sublist _
  rw [List.nodup_append]
  refine ⟨hs.nodup h, List.nodup_singleton k, fun a ha b hb hab => ?_⟩
  rw [List.mem_singleton.mp hb] at hab
  exact hk (hab ▸ hs.subset ha)

/-- Cell `i` holds the key that came last among those whose turn falls on it. -/
def Ring (n : Nat) (cell : Nat → Option Key) (log : List Key) : Prop :=
  ∀ i k, cell i = some k ↔ ∃ j, log.length ≤ j + n ∧ j % n = i ∧ log[j]? = some k

theorem ring_start : Ring n (fun _ => (none : Option Key)) [] := by
  intro i k
  simp

/-- Two turns of one cell are a whole round apart. -/
theorem eq_of_mod_eq {a b : Nat} (h : a % n = b % n) (hab : a ≤ b) (hlt : b < a + n) : a = b := by
  have hm : n ∣ b - a := (Nat.modEq_iff_dvd' hab).mp h
  have hz : b - a = 0 := Nat.eq_zero_of_dvd_of_lt hm (by omega)
  omega

/-- The clock hand, which starts again behind the last cell, stands at the next turn. -/
theorem next_turn (hn : 1 ≤ n) (a : Nat) :
    (if a % n + 1 = n then 0 else a % n + 1) = (a + 1) % n := by
  have hlt : a % n < n := Nat.mod_lt a hn
  rw [← Nat.mod_add_mod a n 1]
  split_ifs with h
  · rw [h, Nat.mod_self]
  · rw [Nat.mod_eq_of_lt (show a % n + 1 < n by omega)]

theorem Ring.write (h : Ring n cell log) (hn : 1 ≤ n) (k : Key) :
    Ring n (Function.update cell (log.length % n) (some k)) (log ++ [k]) := by
  intro i x
  rw [List.length_append, List.length_singleton]
  by_cases hi : i = log.length % n
  · rw [hi, Function.update_self]
    constructor
    · intro hx
      refine ⟨log.length, by omega, rfl, ?_⟩
      rw [List.getElem?_append_right (Nat.le_refl _), Nat.sub_self]
      exact hx
    · rintro ⟨j, hj, hm, hx⟩
      have hlt : j < (log ++ [k]).length := (List.getElem?_eq_some_iff.mp hx).1
      rw [List.length_append, List.length_singleton] at hlt
      obtain rfl := eq_of_mod_eq hm (by omega) (by omega)
      rw [List.getElem?_append_right (Nat.le_refl _), Nat.sub_self] at hx
      exact hx
  · rw [Function.update_of_ne hi, h i x]
    constructor
    · rintro ⟨j, hj, hm, hx⟩
      have hlt : j < log.length := (List.getElem?_eq_some_iff.mp hx).1
      refine ⟨j, ?_, hm, by rwa [List.getElem?_append_left hlt]⟩
      have hne : log.length ≠ j + n := by
        intro he
        apply hi
        rw [he, Nat.add_mod_right, hm]
      omega
    · rintro ⟨j, hj, hm, hx⟩
      have hlt : j < (log ++ [k]).length := (List.getElem?_eq_some_iff.mp hx).1
      rw [List.length_append, List.length_singleton] at hlt
      have hne : j ≠ log.length := by
        intro he
        apply hi
        rw [← hm, he]
      refine ⟨j, by omega, hm, ?_⟩
      rwa [List.getElem?_append_left (by omega)] at hx

theorem Ring.mem_kept_iff (h : Ring n cell log) : k ∈ kept n log ↔ ∃ i, cell i = some k := by
  rw [BoundedFifo.mem_kept_iff]
  constructor
  · rintro ⟨j, hj, hk⟩
    exact ⟨j % n, (h _ k).mpr ⟨j, hj, rfl, hk⟩⟩
  · rintro ⟨i, hi⟩
    obtain ⟨j, hj, -, hk⟩ := (h i k).mp hi
    exact ⟨j, hj, hk⟩

theorem Ring.lt (h : Ring n cell log) (hn : 1 ≤ n) (hi : cell i = some k) : i < n := by
  obtain ⟨j, -, rfl, -⟩ := (h i k).mp hi
  exact Nat.mod_lt j hn

/-- A key without repetition among the kept ones lies in one cell. -/
theorem Ring.unique (h : Ring n cell log) (hnd : (kept n log).Nodup) {i' : Nat}
    (hi : cell i = some k) (hi' : cell i' = some k) : i = i' := by
  obtain ⟨j, hj, rfl, hk⟩ := (h i k).mp hi
  obtain ⟨j', hj', rfl, hk'⟩ := (h i' k).mp hi'
  have at_drop : ∀ j, log.length ≤ j + n → log[j]? = some k →
      (kept n log)[j - (log.length - n)]? = some k := by
    intro j hj hk
    rw [kept, List.getElem?_drop, show log.length - n + (j - (log.length - n)) = j by omega]
    exact hk
  have h₁ := at_drop j hj hk
  have h₂ := at_drop j' hj' hk'
  have hlt := (List.getElem?_eq_some_iff.mp h₁).1
  have he := (List.getElem?_inj hlt hnd).mp (h₁.trans h₂.symm)
  rw [show j = j' by omega]

end BoundedFifo
