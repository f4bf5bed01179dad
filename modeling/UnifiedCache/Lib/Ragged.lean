import Mathlib

/-! Rows of different lengths that lie one after another in a list. -/

namespace Ragged

variable {α β : Type*}

/-- Where a row starts, given the lengths of the rows. -/
def offset (ns : List Nat) (i : Nat) : Nat := (ns.take i).sum

theorem offset_succ {ns : List Nat} {i n : Nat} (hi : ns[i]? = some n) : offset ns (i + 1) = offset ns i + n := by
  rw [offset, List.take_add_one, List.sum_append, hi]
  rfl

theorem offset_mono (ns : List Nat) {i j : Nat} (h : i ≤ j) : offset ns i ≤ offset ns j := by
  rw [offset, offset, ← Nat.add_sub_cancel' h, List.take_add, List.sum_append]
  exact Nat.le_add_right _ _

/-- Rows that are not empty start at different places. -/
theorem offset_inj {ns : List Nat} {i j m n : Nat} (hi : ns[i]? = some m) (hj : ns[j]? = some n) (hm : 0 < m)
    (hn : 0 < n)
    (h : offset ns i = offset ns j) : i = j := by
  have hi' := offset_succ hi
  have hj' := offset_succ hj
  rcases Nat.lt_trichotomy i j with hlt | heq | hlt
  · have hle := offset_mono ns (show i + 1 ≤ j from hlt)
    omega
  · exact heq
  · have hle := offset_mono ns (show j + 1 ≤ i from hlt)
    omega

/-- The only place in a row where a row starts is its first. -/
theorem eq_zero_of_offset {ns : List Nat} {i j k n : Nat} (hi : ns[i]? = some n) (hk : k < n)
    (h : offset ns j = offset ns i + k) : k = 0 := by
  have hi' := offset_succ hi
  rcases Nat.lt_trichotomy i j with hlt | heq | hlt
  · have hle := offset_mono ns (show i + 1 ≤ j from hlt)
    omega
  · rw [heq] at h
    omega
  · have hle := offset_mono ns (Nat.le_of_lt hlt)
    omega

theorem offset_length (ns : List Nat) : offset ns ns.length = ns.sum := by
  rw [offset, List.take_length]

theorem getElem?_flatMap {xs : List α} {f : α → List β} {i k : Nat} {x : α} (hi : xs[i]? = some x)
    (hk : k < (f x).length) :
    (xs.flatMap f)[offset (xs.map fun x => (f x).length) i + k]? = (f x)[k]? := by
  obtain ⟨hlt, rfl⟩ := List.getElem?_eq_some_iff.mp hi
  have hsplit : xs.flatMap f = (xs.take i).flatMap f ++ (f xs[i] ++ (xs.drop (i + 1)).flatMap f) := by
    nth_rewrite 1 [← List.take_append_drop i xs]
    rw [List.flatMap_append, List.drop_eq_getElem_cons hlt, List.flatMap_cons]
  have hoffset : offset (xs.map fun x => (f x).length) i = ((xs.take i).flatMap f).length := by
    rw [offset, List.length_flatMap, List.map_take]
  rw [hsplit, hoffset, List.getElem?_append_right (Nat.le_add_right _ _), Nat.add_sub_cancel_left,
    List.getElem?_append_left hk]

/-- For each entry, the number of its row. -/
def rows (ns : List Nat) : List Nat := ((List.range ns.length).zip ns).flatMap fun p => List.replicate p.2 p.1

/-- For each entry, its number within the row. -/
def columns (ns : List Nat) : List Nat := ns.flatMap List.range

variable {ns : List Nat} {i k n : Nat}

theorem getElem?_rows (hi : ns[i]? = some n) (hk : k < n) : (rows ns)[offset ns i + k]? = some i := by
  have hlengths : ((List.range ns.length).zip ns).map (fun p => (List.replicate p.2 p.1).length) = ns := by
    simp only [List.length_replicate]
    exact List.map_snd_zip (by rw [List.length_range])
  have hrow : ((List.range ns.length).zip ns)[i]? = some (i, n) := by
    obtain ⟨hlt, -⟩ := List.getElem?_eq_some_iff.mp hi
    rw [List.getElem?_zip_eq_some, List.getElem?_range hlt]
    exact ⟨rfl, hi⟩
  have hentry := getElem?_flatMap (f := fun p : Nat × Nat => List.replicate p.2 p.1) hrow
    (k := k) (by rw [List.length_replicate]; exact hk)
  rw [hlengths] at hentry
  rw [rows, hentry, List.getElem?_replicate, if_pos hk]

theorem getElem?_columns (hi : ns[i]? = some n) (hk : k < n) : (columns ns)[offset ns i + k]? = some k := by
  have hlengths : ns.map (fun n => (List.range n).length) = ns := by
    simp only [List.length_range, List.map_id']
  have hentry := getElem?_flatMap (f := List.range) hi (k := k) (by rw [List.length_range]; exact hk)
  rw [hlengths] at hentry
  rw [columns, hentry, List.getElem?_range hk]

theorem length_columns (ns : List Nat) : (columns ns).length = ns.sum := by
  rw [columns, List.length_flatMap]
  simp only [List.length_range, List.map_id']

theorem length_rows (ns : List Nat) : (rows ns).length = ns.sum := by
  rw [rows, List.length_flatMap]
  simp only [List.length_replicate]
  rw [List.map_snd_zip (by rw [List.length_range])]

/-- Entries that are set at different places. -/
theorem getElem?_foldl_set (place : α → Nat) (val : α → Option β) {as : List α} (hnodup : (as.map place).Nodup)
    (xs : List β) :
    (as.foldl (fun xs a => (val a).elim xs (xs.set (place a))) xs).length = xs.length ∧
      (∀ a ∈ as, place a < xs.length →
        (as.foldl (fun xs a => (val a).elim xs (xs.set (place a))) xs)[place a]? = (val a).or xs[place a]?) ∧
      ∀ j, j ∉ as.map place → (as.foldl (fun xs a => (val a).elim xs (xs.set (place a))) xs)[j]? = xs[j]? := by
  induction as generalizing xs with
  | nil => exact ⟨rfl, fun a ha => absurd ha List.not_mem_nil, fun _ _ => rfl⟩
  | cons a as ih =>
    obtain ⟨hnew, hnodup⟩ := List.nodup_cons.mp hnodup
    obtain ⟨hlength, hset, hother⟩ := ih hnodup ((val a).elim xs (xs.set (place a)))
    have hlength' : ((val a).elim xs (xs.set (place a))).length = xs.length := by
      cases val a with
      | none => rfl
      | some v => exact List.length_set
    have hkept : ∀ j, j ≠ place a → ((val a).elim xs (xs.set (place a)))[j]? = xs[j]? := by
      intro j hj
      cases val a with
      | none => rfl
      | some v => exact List.getElem?_set_ne (Ne.symm hj)
    refine ⟨hlength.trans hlength', fun a' ha' hlt => ?_, fun j hj => ?_⟩
    · rcases List.mem_cons.mp ha' with rfl | ha'
      · refine (hother _ hnew).trans ?_
        cases val a' with
        | none => rfl
        | some v => exact List.getElem?_set_self hlt
      · have hne : place a' ≠ place a := fun heq => hnew (heq ▸ List.mem_map_of_mem ha')
        refine (hset a' ha' (hlength' ▸ hlt)).trans ?_
        rw [hkept _ hne]
    · rw [List.map_cons, List.mem_cons, not_or] at hj
      exact (hother j hj.2).trans (hkept j hj.1)

/-- A fold that cannot fail on lists of the length at hand. -/
theorem foldlM_eq_foldl {f : List β → α → Option (List β)} {g : List β → α → List β} (as : List α) {m : Nat}
    (hf : ∀ xs, xs.length = m → ∀ a ∈ as, f xs a = some (g xs a)) (hg : ∀ xs a, (g xs a).length = xs.length)
    {xs : List β} (hxs : xs.length = m) : as.foldlM f xs = some (as.foldl g xs) := by
  induction as generalizing xs with
  | nil => rfl
  | cons a as ih =>
    rw [List.foldlM_cons, hf xs hxs a List.mem_cons_self]
    exact ih (fun xs hxs a ha => hf xs hxs a (List.mem_cons_of_mem _ ha)) ((hg xs a).trans hxs)

end Ragged
