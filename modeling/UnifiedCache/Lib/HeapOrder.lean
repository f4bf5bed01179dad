import Mathlib

/-! The order of a binary heap laid out in an array: the value at a position is
not below the value at its parent. A sift moves one value along a path, and the
order is kept away from that value. -/

namespace HeapOrder

variable {α : Type*} {lt : α → α → Prop} {h h' : Nat → α} {n pos c i : Nat}

def parent (i : Nat) : Nat := (i - 1) / 2

theorem parent_lt (hi : 0 < i) : parent i < i := by
  unfold parent
  omega

/-- The two positions below `pos`. -/
theorem parent_eq_iff (hi : 0 < i) : parent i = pos ↔ i = 2 * pos + 1 ∨ i = 2 * pos + 2 := by
  unfold parent
  omega

def Ordered (lt : α → α → Prop) (h : Nat → α) (n : Nat) : Prop :=
  ∀ i, 0 < i → i < n → ¬ lt (h i) (h (parent i))

/-- The value at `pos` may be below its parent, which is still not above its
grandchildren. -/
structure UpOrdered (lt : α → α → Prop) (h : Nat → α) (n pos : Nat) : Prop where
  except : ∀ i, 0 < i → i < n → i ≠ pos → ¬ lt (h i) (h (parent i))
  grand : 0 < pos → ∀ i, 0 < i → i < n → parent i = pos → ¬ lt (h i) (h (parent pos))

/-- The value at `pos` may be above the values below it, which are still not
below its parent. -/
structure DownOrdered (lt : α → α → Prop) (h : Nat → α) (n pos : Nat) : Prop where
  except : ∀ i, 0 < i → i < n → parent i ≠ pos → ¬ lt (h i) (h (parent i))
  grand : 0 < pos → ∀ i, 0 < i → i < n → parent i = pos → ¬ lt (h i) (h (parent pos))

theorem UpOrdered.finish (hu : UpOrdered lt h n pos) (hp : 0 < pos → ¬ lt (h pos) (h (parent pos))) :
    Ordered lt h n := by
  intro i hi hn
  by_cases he : i = pos
  · subst he
    exact hp hi
  · exact hu.except i hi hn he

theorem DownOrdered.finish (hd : DownOrdered lt h n pos)
    (hp : ∀ i, 0 < i → i < n → parent i = pos → ¬ lt (h i) (h pos)) : Ordered lt h n := by
  intro i hi hn
  by_cases he : parent i = pos
  · rw [he]
    exact hp i hi hn he
  · exact hd.except i hi hn he

/-- The order of the positions that keep their values, below a new root. -/
theorem Ordered.downOrdered {m : Nat} (ho : Ordered lt h m) (hm : n ≤ m)
    (hh : ∀ i, 0 < i → i < n → h' i = h i) : DownOrdered lt h' n 0 := by
  refine ⟨fun i hi hn hp => ?_, fun h0 => absurd h0 (Nat.lt_irrefl 0)⟩
  have := parent_lt hi
  rw [hh i hi hn, hh (parent i) (Nat.pos_of_ne_zero hp) (by omega)]
  exact ho i hi (by omega)

theorem Ordered.upOrdered (ho : Ordered lt h n) (hh : ∀ i < n, h' i = h i) :
    UpOrdered lt h' (n + 1) n := by
  refine ⟨fun i hi hn hne => ?_, fun _ i hi hn hp => ?_⟩
  · have hp := parent_lt hi
    rw [hh i (by omega), hh (parent i) (by omega)]
    exact ho i hi (by omega)
  · have := parent_lt hi
    omega

variable [IsStrictWeakOrder α lt] {a b d : α}

theorem not_lt_trans (hab : ¬ lt a b) (hbd : ¬ lt b d) : ¬ lt a d := by
  intro had
  have hba : ¬ lt b a := fun hba => hbd (trans_of lt hba had)
  have hdb : ¬ lt d b := fun hdb => hab (trans_of lt had hdb)
  exact (IsStrictWeakOrder.incomp_trans a b d ⟨hab, hba⟩ ⟨hbd, hdb⟩).1 had

/-- The root is minimal. -/
theorem Ordered.not_lt_root (ho : Ordered lt h n) (hn : i < n) : ¬ lt (h i) (h 0) := by
  induction i using Nat.strong_induction_on with
  | _ i ih =>
    rcases Nat.eq_zero_or_pos i with rfl | hi
    · exact irrefl _
    · have hp := parent_lt hi
      exact not_lt_trans (ho i hi hn) (ih _ hp (by omega))

/-- A value below its parent changes places with it. -/
theorem UpOrdered.swap (hu : UpOrdered lt h n pos) (h0 : 0 < pos) (hn : pos < n)
    (hlt : lt (h pos) (h (parent pos))) :
    UpOrdered lt (h ∘ Equiv.swap pos (parent pos)) n (parent pos) := by
  have hpp := parent_lt h0
  have at_pos : (h ∘ Equiv.swap pos (parent pos)) pos = h (parent pos) := by simp
  have at_parent : (h ∘ Equiv.swap pos (parent pos)) (parent pos) = h pos := by simp
  have other : ∀ j, j ≠ pos → j ≠ parent pos → (h ∘ Equiv.swap pos (parent pos)) j = h j := by
    intro j h₁ h₂
    rw [Function.comp_apply, Equiv.swap_apply_of_ne_of_ne h₁ h₂]
  have above : 0 < parent pos → ¬ lt (h (parent pos)) (h (parent (parent pos))) := fun hq =>
    hu.except _ hq (by omega) (by omega)
  refine ⟨fun i hi hin hip => ?_, fun hq i hi hin hip => ?_⟩
  · by_cases hie : i = pos
    · subst hie
      rw [at_pos, at_parent]
      exact asymm hlt
    · rw [other i hie hip]
      by_cases h₁ : parent i = pos
      · rw [h₁, at_pos]
        exact hu.grand h0 i hi hin h₁
      · by_cases h₂ : parent i = parent pos
        · rw [h₂, at_parent]
          refine not_lt_trans ?_ (asymm hlt)
          rw [← h₂]
          exact hu.except i hi hin hie
        · rw [other _ h₁ h₂]
          exact hu.except i hi hin hie
  · have hqq := parent_lt hq
    rw [other (parent (parent pos)) (by omega) (by omega)]
    by_cases hie : i = pos
    · rw [hie, at_pos]
      exact above hq
    · have hne : i ≠ parent pos := by
        rintro rfl
        omega
      rw [other i hie hne]
      refine not_lt_trans ?_ (above hq)
      rw [← hip]
      exact hu.except i hi hin hie

/-- A value above one of its children changes places with the least of them. -/
theorem DownOrdered.swap (hd : DownOrdered lt h n pos) (h0 : 0 < c) (hn : c < n)
    (hc : parent c = pos) (hlt : lt (h c) (h pos))
    (hmin : ∀ i, 0 < i → i < n → parent i = pos → ¬ lt (h i) (h c)) :
    DownOrdered lt (h ∘ Equiv.swap pos c) n c := by
  have hpc : pos < c := hc ▸ parent_lt h0
  have at_pos : (h ∘ Equiv.swap pos c) pos = h c := by simp
  have at_child : (h ∘ Equiv.swap pos c) c = h pos := by simp
  have other : ∀ j, j ≠ pos → j ≠ c → (h ∘ Equiv.swap pos c) j = h j := by
    intro j h₁ h₂
    rw [Function.comp_apply, Equiv.swap_apply_of_ne_of_ne h₁ h₂]
  refine ⟨fun i hi hin hip => ?_, fun _ i hi hin hip => ?_⟩
  · by_cases h₁ : parent i = pos
    · rw [h₁, at_pos]
      by_cases hie : i = c
      · rw [hie, at_child]
        exact asymm hlt
      · have hne : i ≠ pos := by
          have := parent_lt hi
          omega
        rw [other i hne hie]
        exact hmin i hi hin h₁
    · rw [other _ h₁ hip]
      by_cases hie : i = pos
      · subst hie
        rw [at_pos]
        exact hd.grand hi c h0 hn hc
      · have hne : i ≠ c := by
          rintro rfl
          exact h₁ hc
        rw [other i hie hne]
        exact hd.except i hi hin h₁
  · have hci : c < i := hip ▸ parent_lt hi
    rw [hc, at_pos, other i (by omega) (by omega), ← hip]
    exact hd.except i hi hin (by omega)

section Values

omit [IsStrictWeakOrder α lt]

variable {m : Nat} {f g : Nat → α} {p : Nat}

/-- The values at the first `n` positions. -/
def values (f : Nat → α) (n : Nat) : Multiset α := (Multiset.range n).map f

theorem values_congr (hfg : ∀ i < n, f i = g i) : values f n = values g n :=
  Multiset.map_congr rfl fun i hi => hfg i (Multiset.mem_range.mp hi)

theorem mem_values_iff {x : α} : x ∈ values f n ↔ ∃ i < n, f i = x := by
  simp [values]

theorem values_succ : values f (n + 1) = f n ::ₘ values f n := by
  rw [values, Multiset.range_succ, Multiset.map_cons]
  rfl

theorem values_swap (f : Nat → α) (hp : p < n) (hm : m < n) :
    values (f ∘ Equiv.swap p m) n = values f n := by
  have hrange : (Multiset.range n).map (Equiv.swap p m) = Multiset.range n := by
    refine (Multiset.Nodup.ext ((Multiset.nodup_range n).map (Equiv.swap p m).injective)
      (Multiset.nodup_range n)).mpr fun j => ?_
    rw [Multiset.mem_map]
    constructor
    · rintro ⟨i, hi, rfl⟩
      rw [Multiset.mem_range] at hi ⊢
      rw [Equiv.swap_apply_def]
      split_ifs <;> assumption
    · intro hj
      refine ⟨Equiv.swap p m j, ?_, Equiv.swap_apply_self p m j⟩
      rw [Multiset.mem_range] at hj ⊢
      rw [Equiv.swap_apply_def]
      split_ifs <;> assumption
  calc values (f ∘ Equiv.swap p m) n = ((Multiset.range n).map (Equiv.swap p m)).map f :=
        (Multiset.map_map f (Equiv.swap p m) _).symm
    _ = values f n := by rw [hrange, values]

/-- The value at `p` and those of the other positions. -/
theorem values_eq_cons (f : Nat → α) (hp : p < n + 1) :
    values f (n + 1) = f p ::ₘ values (f ∘ Equiv.swap p n) n := by
  rw [← values_swap f hp (Nat.lt_succ_self n), values_succ]
  simp

/-- A change at one position changes that value alone. -/
theorem values_update (f : Nat → α) (hp : p < n + 1) (x : α) :
    values (Function.update f p x) (n + 1) = x ::ₘ values (f ∘ Equiv.swap p n) n := by
  rw [values_eq_cons _ hp, Function.update_self]
  congr 1
  refine values_congr fun i hi => ?_
  have hne : Equiv.swap p n i ≠ p := by
    intro he
    have hi' : i = n := by
      rw [← Equiv.swap_apply_self p n i, he, Equiv.swap_apply_left]
    omega
  exact Function.update_of_ne hne _ _

/-- The last value takes the place of the first one. -/
theorem values_pop (f : Nat → α) (n : Nat) :
    values f (n + 1) = f 0 ::ₘ values (Function.update f 0 (f n)) n := by
  rw [values_eq_cons f (Nat.succ_pos n)]
  congr 1
  refine values_congr fun i hi => ?_
  by_cases h0 : i = 0
  · simp [h0]
  · rw [Function.comp_apply, Equiv.swap_apply_of_ne_of_ne h0 (by omega), Function.update_of_ne h0]

/-- Values replaced by `x` show in the number of its occurrences. -/
theorem count_values_le [DecidableEq α] {x : α} (hfg : ∀ i < n, g i = f i ∨ g i = x) :
    (values f n).count x ≤ (values g n).count x ∧
      ((∃ i < n, g i ≠ f i) → (values f n).count x < (values g n).count x) := by
  induction n with
  | zero => exact ⟨le_refl _, fun ⟨i, hi, _⟩ => absurd hi (Nat.not_lt_zero i)⟩
  | succ n ih =>
    obtain ⟨hle, hlt⟩ := ih fun i hi => hfg i (by omega)
    rw [values_succ, values_succ, Multiset.count_cons, Multiset.count_cons]
    by_cases hn : g n = f n
    · rw [hn]
      refine ⟨Nat.add_le_add_right hle _, fun ⟨i, hi, hne⟩ => Nat.add_lt_add_right (hlt ⟨i, ?_, hne⟩) _⟩
      rcases Nat.lt_succ_iff_lt_or_eq.mp hi with h | rfl
      · exact h
      · exact absurd hn hne
    · have hx : g n = x := (hfg n (Nat.lt_succ_self n)).resolve_left hn
      have hf : ¬ x = f n := fun he => hn (hx.trans he)
      rw [if_neg hf, if_pos hx.symm]
      exact ⟨by omega, fun _ => by omega⟩

/-- Values replaced by `x` without a change of the whole are equal to it. -/
theorem eq_of_values_eq {x : α} (hfg : ∀ i < n, g i = f i ∨ g i = x) (he : values g n = values f n) :
    ∀ i < n, g i = f i := by
  classical
  intro i hi
  by_contra hne
  have hlt := (count_values_le hfg).2 ⟨i, hi, hne⟩
  rw [he] at hlt
  exact lt_irrefl _ hlt

end Values

end HeapOrder
