import Mathlib

/-! Two ordered maps that are each other's inverse, and how a key is added or
replaced in both. -/

set_option linter.unusedSectionVars false

namespace InverseMaps

open Std

variable {K V : Type*} [Ord K] [TransOrd K] [LawfulEqOrd K] [DecidableEq K]
  [Ord V] [TransOrd V] [LawfulEqOrd V] [DecidableEq V]
  {t : TreeMap K V} {u : TreeMap V K} {k k₀ k' : K} {v v' : V}

theorem compare_eq_iff : compare k k' = .eq ↔ k' = k := by
  rw [LawfulEqOrd.compare_eq_iff_eq]
  exact eq_comm

section Lookup

theorem lookup_insert : (t.insert k v)[k']? = if k' = k then some v else t[k']? := by
  simp only [TreeMap.getElem?_insert, compare_eq_iff]

theorem lookup_erase : (t.erase k)[k']? = if k' = k then none else t[k']? := by
  simp only [TreeMap.getElem?_erase, compare_eq_iff]

theorem mem_toList : (k, v) ∈ t.toList ↔ t[k]? = some v :=
  TreeMap.mem_toList_iff_getElem?_eq_some

theorem toList_sorted : t.toList.Pairwise (fun p q => compare p.1 q.1 = .lt) :=
  TreeMap.ordered_keys_toList

/-- The front of a list sorted for `p` is what of it has `p`. -/
theorem mem_takeWhile_iff_of_pairwise {α : Type*} {p : α → Bool} {x : α} {l : List α}
    (h : l.Pairwise fun a b => p b → p a) : x ∈ l.takeWhile p ↔ x ∈ l ∧ p x := by
  induction l with
  | nil => simp
  | cons y l ih =>
    obtain ⟨hfront, hrest⟩ := List.pairwise_cons.mp h
    by_cases hy : p y
    · rw [List.takeWhile_cons_of_pos hy, List.mem_cons, ih hrest, List.mem_cons, or_and_right]
      exact or_congr_left ⟨fun heq => ⟨heq, heq ▸ hy⟩, And.left⟩
    · rw [List.takeWhile_cons_of_neg hy]
      simp only [List.not_mem_nil, List.mem_cons, false_iff, not_and]
      rintro (rfl | hmem) hx
      · exact hy hx
      · exact hy (hfront x hmem hx)

end Lookup

/-- The two maps have the same pairs. -/
def Inverse (t : TreeMap K V) (u : TreeMap V K) : Prop :=
  ∀ (k : K) (v : V), t[k]? = some v ↔ u[v]? = some k

def values (t : TreeMap K V) : Set V := {v | ∃ k : K, t[k]? = some v}

theorem Inverse.key_inj (h : Inverse t u) (hk : t[k]? = some v) (hk' : t[k']? = some v) : k = k' := by
  have hu := (h k v).mp hk
  rw [(h k' v).mp hk'] at hu
  exact (Option.some.inj hu).symm

theorem Inverse.mem_values (h : Inverse t u) : v ∈ values t ↔ ∃ k : K, u[v]? = some k := by
  constructor
  · rintro ⟨k, hk⟩
    exact ⟨k, (h k v).mp hk⟩
  · rintro ⟨k, hk⟩
    exact ⟨k, (h k v).mpr hk⟩

theorem Inverse.empty : Inverse (∅ : TreeMap K V) ∅ := by
  intro k v
  simp

/-- A new key with a new value. -/
theorem Inverse.insert (h : Inverse t u) (hk : t[k]? = none) (hv : u[v]? = none) :
    Inverse (t.insert k v) (u.insert v k) := by
  intro j w
  rw [lookup_insert, lookup_insert]
  have hj := h j w
  split_ifs with hjk hwv hwv
  · simp [hjk, hwv]
  · subst hjk
    rw [hk] at hj
    simp only [reduceCtorEq, false_iff] at hj
    simp [hj, Ne.symm hwv]
  · subst hwv
    rw [hv] at hj
    simp only [reduceCtorEq, iff_false] at hj
    simp [hj, Ne.symm hjk]
  · exact hj

/-- The value of one key goes to a new key. -/
theorem Inverse.rekey (h : Inverse t u) (hv : u[v]? = some k₀) (hk : t[k]? = none) :
    Inverse ((t.erase k₀).insert k v) (u.insert v k) := by
  intro j w
  rw [lookup_insert, lookup_erase, lookup_insert]
  have hj := h j w
  have hold : t[k₀]? = some v := (h k₀ v).mpr hv
  by_cases hwv : w = v
  · subst hwv
    by_cases hjk : j = k
    · simp [hjk]
    · rw [if_neg hjk, if_pos rfl]
      have hne : t[j]? = some w → j = k₀ := fun hjw => h.key_inj hjw hold
      constructor
      · intro hl
        split_ifs at hl with hjk₀
        exact absurd (hne hl) hjk₀
      · intro hl
        exact absurd (Option.some.inj hl).symm hjk
  · rw [if_neg hwv]
    by_cases hjk : j = k
    · subst hjk
      rw [hk] at hj
      simp only [reduceCtorEq, false_iff] at hj
      simp [hj, Ne.symm hwv]
    · rw [if_neg hjk]
      split_ifs with hjk₀
      · subst hjk₀
        rw [← hj, hold]
        simp [Ne.symm hwv]
      · exact hj

theorem Inverse.values_rekey (h : Inverse t u) (hv : u[v]? = some k₀) (hk : t[k]? = none) :
    values ((t.erase k₀).insert k v) = values t := by
  ext w
  rw [(h.rekey hv hk).mem_values, h.mem_values, lookup_insert]
  split_ifs with hwv
  · subst hwv
    exact ⟨fun _ => ⟨k₀, hv⟩, fun _ => ⟨k, rfl⟩⟩
  · rfl

end InverseMaps
