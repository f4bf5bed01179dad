import Mathlib

/-! Things shared out between holders: every thing has exactly one holder and is with it
once. A thing that goes from one holder to another keeps this. -/

variable {κ α : Type*} {all : α → Prop}

structure Shares (part : κ → List α) (all : α → Prop) : Prop where
  nodup : ∀ k, (part k).Nodup
  disjoint : ∀ k k' x, x ∈ part k → x ∈ part k' → k = k'
  cover : ∀ x, all x ↔ ∃ k, x ∈ part k

namespace Shares

variable {part part' : κ → List α} {i j k : κ} {x y : α}

theorem perm (h : Shares part all) (hp : ∀ k, (part' k).Perm (part k)) : Shares part' all where
  nodup := fun k => (hp k).nodup_iff.mpr (h.nodup k)
  disjoint := fun k k' x hx hx' => h.disjoint k k' x ((hp k).mem_iff.mp hx) ((hp k').mem_iff.mp hx')
  cover := fun x => (h.cover x).trans (exists_congr fun k => (hp k).mem_iff.symm)

theorem mem_transfer {l : List α} (h : Shares part all) (hi : (part i).Perm (l ++ part' i))
    (hj : (part' j).Perm (l ++ part j)) (hother : ∀ k, k ≠ i → k ≠ j → part' k = part k) :
    y ∈ part' k ↔ (y ∉ l ∧ y ∈ part k) ∨ (y ∈ l ∧ k = j) := by
  have hl : ∀ x ∈ l, x ∈ part i := fun x hx => hi.mem_iff.mpr (List.mem_append_left _ hx)
  have hnot : ∀ x ∈ l, x ∉ part' i :=
    List.disjoint_left.mp (List.disjoint_of_nodup_append (hi.nodup_iff.mp (h.nodup i)))
  by_cases hkj : k = j
  · subst hkj
    rw [hj.mem_iff, List.mem_append]
    tauto
  · by_cases hki : k = i
    · subst hki
      rw [hi.mem_iff, List.mem_append]
      constructor
      · intro hy
        exact Or.inl ⟨fun hm => hnot y hm hy, Or.inr hy⟩
      · rintro (⟨hm, hy | hy⟩ | ⟨_, hy⟩)
        · exact absurd hy hm
        · exact hy
        · exact absurd hy hkj
    · rw [hother k hki hkj]
      constructor
      · intro hy
        exact Or.inl ⟨fun hm => hki (h.disjoint k i y hy (hl y hm)), hy⟩
      · rintro (⟨_, hy⟩ | ⟨_, hy⟩)
        · exact hy
        · exact absurd hy hkj

/-- The holder `i` hands the things of `l` to the holder `j`. -/
theorem transfer (l : List α) (h : Shares part all) (hne : i ≠ j) (hi : (part i).Perm (l ++ part' i))
    (hj : (part' j).Perm (l ++ part j)) (hother : ∀ k, k ≠ i → k ≠ j → part' k = part k) :
    Shares part' all := by
  have hl : ∀ x ∈ l, x ∈ part i := fun x hx => hi.mem_iff.mpr (List.mem_append_left _ hx)
  have hmem : ∀ k y, y ∈ part' k ↔ (y ∉ l ∧ y ∈ part k) ∨ (y ∈ l ∧ k = j) :=
    fun k y => h.mem_transfer hi hj hother
  have hnodup := hi.nodup_iff.mp (h.nodup i)
  refine ⟨fun k => ?_, fun k k' y hy hy' => ?_, fun y => ?_⟩
  · by_cases hkj : k = j
    · subst hkj
      rw [hj.nodup_iff]
      refine hnodup.of_append_left.append (h.nodup k) (List.disjoint_left.mpr fun x hx hm => ?_)
      exact hne (h.disjoint i k x (hl x hx) hm)
    · by_cases hki : k = i
      · subst hki
        exact hnodup.of_append_right
      · rw [hother k hki hkj]
        exact h.nodup k
  · rcases (hmem k y).mp hy with ⟨hyl, hy⟩ | ⟨hyl, rfl⟩ <;>
      rcases (hmem k' y).mp hy' with ⟨hyl', hy'⟩ | ⟨hyl', rfl⟩
    · exact h.disjoint k k' y hy hy'
    · exact absurd hyl' hyl
    · exact absurd hyl hyl'
    · rfl
  · rw [h.cover y]
    by_cases hyl : y ∈ l
    · exact ⟨fun _ => ⟨j, (hmem j y).mpr (Or.inr ⟨hyl, rfl⟩)⟩, fun _ => ⟨i, hl y hyl⟩⟩
    · exact exists_congr fun k => ⟨fun hy => (hmem k y).mpr (Or.inl ⟨hyl, hy⟩), fun hy =>
        ((hmem k y).mp hy).elim And.right fun he => absurd he.1 hyl⟩

/-- The holder `i` hands `x` to the holder `j`. -/
theorem move (h : Shares part all) (hne : i ≠ j) (hi : (part i).Perm (x :: part' i))
    (hj : (part' j).Perm (x :: part j)) (hother : ∀ k, k ≠ i → k ≠ j → part' k = part k) :
    Shares part' all :=
  h.transfer [x] hne hi hj hother

/-- New things come to the holder `i`. -/
theorem add {all' : α → Prop} (l : List α) (h : Shares part all) (hnodup : l.Nodup)
    (hnew : ∀ x ∈ l, ¬ all x) (hall : ∀ x, all' x ↔ x ∈ l ∨ all x)
    (hi : (part' i).Perm (l ++ part i)) (hother : ∀ k, k ≠ i → part' k = part k) :
    Shares part' all' := by
  have hin : ∀ k x, x ∈ part k → all x := fun k x hx => (h.cover x).mpr ⟨k, hx⟩
  have hmem : ∀ k y, y ∈ part' k ↔ y ∈ part k ∨ (y ∈ l ∧ k = i) := by
    intro k y
    by_cases hk : k = i
    · subst hk
      rw [hi.mem_iff, List.mem_append]
      tauto
    · rw [hother k hk]
      tauto
  refine ⟨fun k => ?_, fun k k' y hy hy' => ?_, fun y => ?_⟩
  · by_cases hk : k = i
    · subst hk
      rw [hi.nodup_iff]
      exact hnodup.append (h.nodup k) (List.disjoint_left.mpr fun x hx hm => hnew x hx (hin k x hm))
    · rw [hother k hk]
      exact h.nodup k
  · rcases (hmem k y).mp hy with hy | ⟨hy, rfl⟩ <;> rcases (hmem k' y).mp hy' with hy' | ⟨hy', rfl⟩
    · exact h.disjoint k k' y hy hy'
    · exact absurd (hin k y hy) (hnew y hy')
    · exact absurd (hin k' y hy') (hnew y hy)
    · rfl
  · rw [hall y, h.cover y]
    constructor
    · rintro (hy | ⟨k, hy⟩)
      · exact ⟨i, (hmem i y).mpr (Or.inr ⟨hy, rfl⟩)⟩
      · exact ⟨k, (hmem k y).mpr (Or.inl hy)⟩
    · rintro ⟨k, hy⟩
      rcases (hmem k y).mp hy with hy | ⟨hy, _⟩
      · exact Or.inr ⟨k, hy⟩
      · exact Or.inl hy

end Shares

/-- What is left of a list when one more of its things is done. -/
theorem List.filter_notMem_cons [DecidableEq α] {l done : List α} {x : α} (hl : l.Nodup) (hx : x ∈ l)
    (hd : x ∉ done) : (l.filter (· ∉ done)).Perm (x :: l.filter (· ∉ x :: done)) := by
  have hnodup : (x :: l.filter (· ∉ x :: done)).Nodup := List.nodup_cons.mpr ⟨by simp, hl.filter _⟩
  refine (List.perm_ext_iff_of_nodup (hl.filter _) hnodup).mpr fun y => ?_
  simp only [List.mem_filter, List.mem_cons, decide_eq_true_eq, not_or]
  by_cases hy : y = x
  · subst hy
    simp [hx, hd]
  · simp [hy]

/-- One holder's share of a sum changes. -/
theorem sum_update_add {ι β M : Type*} [DecidableEq ι] [AddCommMonoid M] {s : Finset ι} {i : ι} (hi : i ∈ s)
    (f : β → M) (g : ι → β) (x : β) :
    ∑ j ∈ s, f (Function.update g i x j) + f (g i) = ∑ j ∈ s, f (g j) + f x := by
  have hrest : ∑ j ∈ s.erase i, f (Function.update g i x j) = ∑ j ∈ s.erase i, f (g j) := by
    refine Finset.sum_congr rfl fun j hj => ?_
    rw [Function.update_of_ne (Finset.ne_of_mem_erase hj)]
  rw [← Finset.add_sum_erase s _ hi, ← Finset.add_sum_erase s (fun j => f (g j)) hi, hrest, Function.update_self]
  ac_rfl
