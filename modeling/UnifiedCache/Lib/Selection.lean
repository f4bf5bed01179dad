import Mathlib

/-! The best elements of a list, as a partial sort or a partition around a place leaves them in
front. -/

namespace Selection

variable {α β : Type*} {better : α → α → Prop} {k n : Nat} {xs chosen : List α}

/-- The chosen are `k` of the elements, or all when there are fewer, and no other is better than one of them. -/
structure Selects (better : α → α → Prop) (k : Nat) (xs chosen : List α) : Prop where
  length_eq : chosen.length = min k xs.length
  exists_rest : ∃ rest, (chosen ++ rest).Perm xs ∧ ∀ c ∈ chosen, ∀ r ∈ rest, ¬ better r c

theorem Selects.subset (h : Selects better k xs chosen) : chosen ⊆ xs := by
  obtain ⟨rest, hperm, -⟩ := h.exists_rest
  exact fun c hc => hperm.subset (List.mem_append_left rest hc)

/-- What `nth_element` promises: the best `n` come first. -/
structure Partition (better : α → α → Prop) where
  split : Nat → List α → List α
  perm (n : Nat) (xs : List α) : (split n xs).Perm xs
  best (n : Nat) (xs : List α) : ∀ a ∈ (split n xs).take n, ∀ b ∈ (split n xs).drop n, ¬ better b a

/-- What `partial_sort` promises: the best `n` come first and in order. -/
structure PartialSort (better : α → α → Prop) extends Partition better where
  sorted (n : Nat) (xs : List α) : ((split n xs).take n).Pairwise fun a b => ¬ better b a

theorem Partition.selects (p : Partition better) (n : Nat) (xs : List α) :
    Selects better n xs ((p.split n xs).take n) where
  length_eq := by rw [List.length_take, (p.perm n xs).length_eq]
  exists_rest := ⟨(p.split n xs).drop n, by rw [List.take_append_drop]; exact p.perm n xs, p.best n xs⟩

theorem Partition.selects_of_min_eq (p : Partition better) (h : min n xs.length = min k xs.length) :
    Selects better k xs ((p.split n xs).take n) :=
  let s := p.selects n xs
  ⟨s.length_eq.trans h, s.exists_rest⟩

/-- Sorting the whole list is one way to do it. -/
def ofInsertionSort (better : α → α → Prop) [DecidableRel better] [Std.Total fun a b => ¬ better b a]
    [IsTrans α fun a b => ¬ better b a] : PartialSort better where
  split _ xs := xs.insertionSort fun a b => ¬ better b a
  perm _ xs := List.perm_insertionSort _ xs
  best n xs := by
    have hp := List.pairwise_insertionSort (fun a b => ¬ better b a) xs
    rw [← List.take_append_drop n (xs.insertionSort _), List.pairwise_append] at hp
    exact hp.2.2
  sorted n xs := (List.pairwise_insertionSort (fun a b => ¬ better b a) xs).sublist (List.take_sublist n _)

section Heap

variable {r : α → α → Prop} [DecidableRel r] [DecidableRel better]

/-- A heap of at most `k` elements, in order, with the first to go in front. -/
def offer (r better : α → α → Prop) [DecidableRel r] [DecidableRel better] (k : Nat) (heap : List α) (x : α) :
    Option (List α) :=
  if heap.length < k then some (heap.orderedInsert r x)
  else
    match heap with
    | [] => none
    | top :: rest => some (if better x top then rest.orderedInsert r x else top :: rest)

variable [Std.Total fun a b => ¬ better b a] [IsTrans α fun a b => ¬ better b a] {heap : List α} {x : α}

omit [DecidableRel better] [IsTrans α fun a b => ¬ better b a] in
theorem not_better_of_better {a b : α} (h : better a b) : ¬ better b a :=
  (total_of (fun a b => ¬ better b a) b a).resolve_left fun hn => hn h

theorem Selects.offer (h : Selects better k xs heap) (hsorted : heap.Pairwise r)
    (hr : ∀ a b, r a b → ¬ better a b) (hk : 0 < k) :
    ∃ heap', Selection.offer r better k heap x = some heap' ∧ Selects better k (xs ++ [x]) heap' := by
  obtain ⟨left, hperm, hbest⟩ := h.exists_rest
  have hlength := hperm.length_eq
  have hheap := h.length_eq
  rw [List.length_append] at hlength
  by_cases hroom : heap.length < k
  · refine ⟨_, if_pos hroom, ?_, left, ?_, ?_⟩
    · rw [List.orderedInsert_length, List.length_append, List.length_singleton]
      omega
    · have hinsert := (List.perm_orderedInsert r x heap).append_right left
      exact hinsert.trans ((hperm.cons x).trans (List.perm_append_singleton x xs).symm)
    · have hnone : left = [] := List.length_eq_zero_iff.mp (by omega)
      simp [hnone]
  · cases heap with
    | nil => exact absurd hk hroom
    | cons top rest =>
      obtain ⟨htop, hrest⟩ := List.pairwise_cons.mp hsorted
      refine ⟨_, if_neg hroom, ?_⟩
      split_ifs with hx
      · refine ⟨?_, top :: left, ?_, ?_⟩
        · rw [List.orderedInsert_length, List.length_append, List.length_singleton, ← List.length_cons, hheap]
          simp only [List.length_cons] at hroom hlength
          omega
        · have hinsert := (List.perm_orderedInsert r x rest).append_right (top :: left)
          have hmiddle : (x :: (rest ++ top :: left)).Perm (x :: (top :: (rest ++ left))) := List.perm_middle.cons x
          exact hinsert.trans (hmiddle.trans ((hperm.cons x).trans (List.perm_append_singleton x xs).symm))
        · intro c hc q hq
          rcases (List.mem_orderedInsert r).mp hc with rfl | hc <;> rcases List.mem_cons.mp hq with rfl | hq
          · exact not_better_of_better hx
          · exact trans_of (fun a b => ¬ better b a) (not_better_of_better hx) (hbest top List.mem_cons_self q hq)
          · exact hr _ _ (htop c hc)
          · exact hbest c (List.mem_cons_of_mem _ hc) q hq
      · refine ⟨?_, left ++ [x], ?_, ?_⟩
        · rw [hheap, List.length_append, List.length_singleton]
          simp only [List.length_cons] at hroom hlength
          omega
        · rw [← List.append_assoc]
          exact hperm.append_right [x]
        · intro c hc q hq
          rcases List.mem_append.mp hq with hq | hq
          · exact hbest c hc q hq
          · obtain rfl := List.mem_singleton.mp hq
            rcases List.mem_cons.mp hc with rfl | hc
            · exact hx
            · exact trans_of (fun a b => ¬ better b a) (hr _ _ (htop c hc)) hx

omit [Std.Total fun a b => ¬ better b a] [IsTrans α fun a b => ¬ better b a] in
theorem pairwise_offer [Std.Total r] [IsTrans α r] {heap' : List α} (hsorted : heap.Pairwise r)
    (h : Selection.offer r better k heap x = some heap') : heap'.Pairwise r := by
  simp only [Selection.offer] at h
  split_ifs at h
  · obtain rfl := Option.some.inj h
    exact hsorted.orderedInsert x heap
  · cases heap with
    | nil => cases h
    | cons top rest =>
      obtain rfl := Option.some.inj h
      split_ifs
      · exact (List.pairwise_cons.mp hsorted).2.orderedInsert x rest
      · exact hsorted

/-- Offered one by one, the best `k` stay in the heap. -/
theorem foldlM_offer [Std.Total r] [IsTrans α r] (hr : ∀ a b, r a b → ¬ better a b) (hk : 0 < k) (xs : List α) :
    ∃ heap, xs.foldlM (Selection.offer r better k) [] = some heap ∧ heap.Pairwise r ∧ Selects better k xs heap := by
  induction xs using List.reverseRecOn with
  | nil => exact ⟨[], rfl, List.Pairwise.nil, by simp, [], by simp, by simp⟩
  | append_singleton xs x ih =>
    obtain ⟨heap, hfold, hsorted, hsel⟩ := ih
    obtain ⟨heap', hoffer, hsel'⟩ := hsel.offer hsorted hr hk (x := x)
    exact ⟨heap', by simp [hfold, hoffer], pairwise_offer hsorted hoffer, hsel'⟩

end Heap

section Stable

variable {r R : α → α → Prop} [DecidableRel r] [Std.Total r] [IsTrans α r] {a : α}

theorem pairwise_orderedInsert (hxs : xs.Pairwise fun a b => r a b ∧ (r b a → R a b)) (ha : ∀ b ∈ xs, R a b) :
    (xs.orderedInsert r a).Pairwise fun a b => r a b ∧ (r b a → R a b) := by
  induction xs with
  | nil => exact List.pairwise_singleton _ a
  | cons x xs ih =>
    obtain ⟨hx, hxs'⟩ := List.pairwise_cons.mp hxs
    rw [List.orderedInsert_cons]
    split_ifs with hax
    · apply List.Pairwise.cons _ hxs
      rintro b (_ | ⟨_, hb⟩)
      · exact ⟨hax, fun _ => ha x List.mem_cons_self⟩
      · exact ⟨trans_of r hax (hx b hb).1, fun _ => ha b (List.mem_cons_of_mem _ hb)⟩
    · apply List.Pairwise.cons _ (ih hxs' fun b hb => ha b (List.mem_cons_of_mem _ hb))
      intro b hb
      rcases (List.mem_orderedInsert r).mp hb with rfl | hb
      · exact ⟨(total_of r b x).resolve_left hax, fun hbx => absurd hbx hax⟩
      · exact hx b hb

/-- Insertion sort is stable: what was in order stays so among equals. -/
theorem pairwise_insertionSort_stable (h : xs.Pairwise R) :
    (xs.insertionSort r).Pairwise fun a b => r a b ∧ (r b a → R a b) := by
  induction xs with
  | nil => exact List.Pairwise.nil
  | cons x xs ih =>
    obtain ⟨hx, hxs⟩ := List.pairwise_cons.mp h
    rw [List.insertionSort_cons]
    exact pairwise_orderedInsert (ih hxs) fun b hb => hx b ((List.mem_insertionSort r).mp hb)

end Stable

/-- In order, an element is among the first `k` when fewer than `k` come before it. -/
theorem mem_take_iff_countP {R : α → α → Prop} [DecidableRel R] (hasymm : ∀ a b, R a b → ¬ R b a)
    (h : xs.Pairwise R) {a : α} (ha : a ∈ xs) : a ∈ xs.take k ↔ xs.countP (fun b => R b a) < k := by
  induction xs generalizing k with
  | nil => cases ha
  | cons x xs ih =>
    obtain ⟨hx, hxs⟩ := List.pairwise_cons.mp h
    cases k with
    | zero => simp
    | succ k =>
      rw [List.take_succ_cons, List.mem_cons, List.countP_cons]
      by_cases hax : a = x
      · subst a
        have hnone : xs.countP (fun b => R b x) = 0 := by
          rw [List.countP_eq_zero]
          intro b hb
          simpa using hasymm x b (hx b hb)
        have hself : ¬ R x x := fun hxx => hasymm x x hxx hxx
        simp [hnone, hself]
      · have ha := (List.mem_cons.mp ha).resolve_left hax
        simp [hax, ih hxs ha, hx a ha]

end Selection
