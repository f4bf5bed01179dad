import UnifiedCache.Cache.BufferManager

/-! What a prefix lookup through the buffer answers. Only the blocks that the
buffer misses go to the backend; the place of the first one that it lacks is
where the prefix of the whole list ends. -/

namespace UnifiedCache.CacheStore

/-- `p` is the index of the last element of the longest prefix of blocks that
are all present, -1 when that prefix is empty. -/
def IsPrefixIndex (present : BlockId → Bool) (blocks : List BlockId) (p : Int) : Prop :=
  -1 ≤ p ∧ IsGreatest {n : Nat | n ≤ blocks.length ∧ ∀ b ∈ blocks.take n, present b = true}
    (p + 1).toNat

theorem isGreatest_length_takeWhile {α : Type*} (present : α → Bool) (l : List α) :
    IsGreatest {n : Nat | n ≤ l.length ∧ ∀ b ∈ l.take n, present b = true}
      (l.takeWhile present).length := by
  constructor
  · refine ⟨(List.takeWhile_sublist present).length_le, fun b hb => ?_⟩
    rw [← (List.prefix_iff_eq_take.mp (List.takeWhile_prefix present))] at hb
    exact List.mem_takeWhile_imp hb
  · rintro n ⟨hn, hall⟩
    have h : l.takeWhile present = l.take n ++ (l.drop n).takeWhile present := by
      conv_lhs => rw [← List.take_append_drop n l]
      exact List.takeWhile_append_of_pos hall
    rw [h, List.length_append, List.length_take_of_le hn]
    exact Nat.le_add_right _ _

theorem isPrefixIndex_iff {present : BlockId → Bool} {blocks : List BlockId} {p : Int} :
    IsPrefixIndex present blocks p ↔ p + 1 = ((blocks.takeWhile present).length : Int) := by
  have hg := isGreatest_length_takeWhile present blocks
  constructor
  · rintro ⟨hp, h⟩
    have he := h.unique hg
    omega
  · intro h
    have he : (p + 1).toNat = (blocks.takeWhile present).length := by omega
    exact ⟨by omega, he ▸ hg⟩

namespace BufferManager

variable {exist stored : BlockId → Bool} {backend : StoreV1} {blocks : List BlockId}

/-- The missed blocks from a place of the list on. -/
def missFrom (exist : BlockId → Bool) (blocks : List BlockId) (k : Nat) : List (BlockId × Nat) :=
  (blocks.zipIdx k).filter fun x => !exist x.1

/-- The missed block after those that the backend has is the first one that is
nowhere, and there is none when every block is somewhere. -/
theorem firstMissing (exist stored : BlockId → Bool) (blocks : List BlockId) (k : Nat) :
    ((missFrom exist blocks k).map Prod.snd)[
      (((missFrom exist blocks k).map Prod.fst).takeWhile stored).length]?.getD (k + blocks.length) =
      k + (blocks.takeWhile fun b => exist b || stored b).length := by
  induction blocks generalizing k with
  | nil => rfl
  | cons b blocks ih =>
    have ih := ih (k + 1)
    have hlen : k + (b :: blocks).length = k + 1 + blocks.length := by
      rw [List.length_cons]
      omega
    rw [hlen]
    by_cases he : exist b = true
    · have hm : missFrom exist (b :: blocks) k = missFrom exist blocks (k + 1) := by
        simp [missFrom, List.zipIdx_cons, he]
      rw [hm, ih, List.takeWhile_cons_of_pos (by simp [he]), List.length_cons]
      omega
    · have hm : missFrom exist (b :: blocks) k = (b, k) :: missFrom exist blocks (k + 1) := by
        simp [missFrom, List.zipIdx_cons, he]
      rw [hm, List.map_cons, List.map_cons]
      by_cases hs : stored b = true
      · rw [List.takeWhile_cons_of_pos hs, List.length_cons, List.getElem?_cons_succ, ih,
          List.takeWhile_cons_of_pos (by simp [hs]), List.length_cons]
        omega
      · rw [List.takeWhile_cons_of_neg hs, List.takeWhile_cons_of_neg (by simp [he, hs])]
        rfl

theorem lookupOnPrefixFast_eq (exist : BlockId → Bool) (blocks : List BlockId)
    (hb : ∀ l, ∃ p, backend.lookupOnPrefix l = some p ∧ IsPrefixIndex stored l p) :
    lookupOnPrefixFast exist backend blocks =
      some (((blocks.takeWhile fun b => exist b || stored b).length : Int) - 1) := by
  have hfirst : ((miss exist blocks).map Prod.snd)[
      (((miss exist blocks).map Prod.fst).takeWhile stored).length]?.getD (0 + blocks.length) = _ :=
    firstMissing exist stored blocks 0
  rw [Nat.zero_add, Nat.zero_add] at hfirst
  unfold lookupOnPrefixFast
  simp only
  split_ifs with hnil
  · have hmiss : miss exist blocks = [] := List.map_eq_nil_iff.mp hnil
    rw [hmiss] at hfirst
    rw [← hfirst]
    rfl
  · obtain ⟨p, hp, hi⟩ := hb ((miss exist blocks).map Prod.fst)
    rw [isPrefixIndex_iff] at hi
    rw [hp, Option.map_some, hi, Int.toNat_natCast, ← hfirst]
    congr 1
    split_ifs with hall
    · rw [hall, List.getElem?_eq_none (Nat.le_refl _)]
      rfl
    · have hle : (((miss exist blocks).map Prod.fst).takeWhile stored).length ≤
          ((miss exist blocks).map Prod.snd).length := by
        rw [List.length_map, ← List.length_map Prod.fst]
        exact (List.takeWhile_sublist stored).length_le
      rw [List.getElem?_eq_getElem (lt_of_le_of_ne hle hall)]
      rfl

/-- Writes that each put the value of `target`, onto a list that agrees with it elsewhere. -/
theorem foldl_set_eq {α : Type*} {target results : List α} {writes : List (Nat × α)}
    (hlen : results.length = target.length) (hw : ∀ x ∈ writes, target[x.1]? = some x.2)
    (hout : ∀ i, i ∈ writes.map Prod.fst ∨ results[i]? = target[i]?) :
    writes.foldl (fun results x => results.set x.1 x.2) results = target := by
  induction writes generalizing results with
  | nil =>
    refine List.ext_getElem? fun i => ?_
    simpa using hout i
  | cons x writes ih =>
    refine ih (by rw [List.length_set, hlen]) (fun y hy => hw y (List.mem_cons_of_mem _ hy)) fun i => ?_
    by_cases hi : x.1 = i
    · right
      have ht := hw x List.mem_cons_self
      have hlt : x.1 < results.length := by
        rw [hlen]
        exact (List.getElem?_eq_some_iff.mp ht).1
      rw [← hi, List.getElem?_set_self hlt, ht]
    · rw [List.getElem?_set_ne hi]
      rcases hout i with h | h
      · rw [List.map_cons, List.mem_cons] at h
        exact Or.inl (h.resolve_left (Ne.symm hi))
      · exact Or.inr h

theorem lookupFast_eq (exist : BlockId → Bool) (blocks : List BlockId)
    (hb : ∀ l, backend.lookup l = some (l.map stored)) :
    lookupFast exist backend blocks = some (blocks.map fun b => exist b || stored b) := by
  have hzip : ((miss exist blocks).map Prod.snd).zip (((miss exist blocks).map Prod.fst).map stored) =
      (miss exist blocks).map fun x => (x.2, stored x.1) := by
    rw [List.map_map, List.zip_map']
    rfl
  have hout : ∀ i, i ∈ (miss exist blocks).map Prod.snd ∨
      (blocks.map exist)[i]? = (blocks.map fun b => exist b || stored b)[i]? := by
    intro i
    rw [List.getElem?_map, List.getElem?_map]
    cases hbi : blocks[i]? with
    | none => exact Or.inr rfl
    | some b =>
      by_cases he : exist b = true
      · right
        simp [he]
      · left
        exact List.mem_map.mpr ⟨_, mem_miss_of_not_exist hbi (by simpa using he), rfl⟩
  have hw : ∀ x ∈ (miss exist blocks).map fun x => (x.2, stored x.1),
      (blocks.map fun b => exist b || stored b)[x.1]? = some x.2 := by
    intro x hx
    obtain ⟨⟨b, i⟩, hm, rfl⟩ := List.mem_map.mp hx
    obtain ⟨hbi, he⟩ := mem_miss hm
    rw [List.getElem?_map, hbi]
    simp [he]
  have hfold := foldl_set_eq (by simp) hw fun i => (hout i).imp_left fun h => by
    rw [List.map_map]
    exact h
  unfold lookupFast
  simp only
  split_ifs with hnil
  · rw [List.map_eq_nil_iff.mp hnil] at hfold
    exact congrArg some hfold
  · rw [hb, Option.map_some, hzip, hfold]

/-- A prefix lookup through the buffer answers for the prefix of blocks that are in
the buffer or in the backend, and agrees with the lookup of each block. -/
theorem lookupOnPrefixFast_isPrefixIndex (exist stored : BlockId → Bool) (backend : StoreV1)
    (hb : ∀ l, ∃ p, backend.lookupOnPrefix l = some p ∧ IsPrefixIndex stored l p)
    (blocks : List BlockId) :
    ∃ p, lookupOnPrefixFast exist backend blocks = some p ∧
      IsPrefixIndex (fun b => exist b || stored b) blocks p ∧
      ((∀ l, backend.lookup l = some (l.map stored)) →
        ∃ results, lookupFast exist backend blocks = some results ∧
          p + 1 = ((results.takeWhile id).length : Int)) := by
  refine ⟨_, lookupOnPrefixFast_eq exist blocks hb, isPrefixIndex_iff.mpr (Int.sub_add_cancel _ _),
    fun hl => ⟨_, lookupFast_eq exist blocks hl, ?_⟩⟩
  rw [List.takeWhile_map, List.length_map, Int.sub_add_cancel]
  rfl

/-- A list with a repetition, whose blocks are in the buffer, in the backend and nowhere. -/
theorem lookupOnPrefixFast_isPrefixIndex_alternates :
    ∃ p, lookupOnPrefixFast (fun b => b[0] = 1)
        ⟨fun l => some (l.map fun b => decide (b[0] = 2)),
          fun l => some (((l.takeWhile fun b => decide (b[0] = 2)).length : Int) - 1)⟩
        [Vector.replicate 16 2, Vector.replicate 16 1, Vector.replicate 16 2, Vector.replicate 16 3,
          Vector.replicate 16 1] = some p ∧
      IsPrefixIndex (fun b => decide (b[0] = 1) || decide (b[0] = 2))
        [Vector.replicate 16 2, Vector.replicate 16 1, Vector.replicate 16 2, Vector.replicate 16 3,
          Vector.replicate 16 1] p := by
  obtain ⟨p, hp, hi, -⟩ := lookupOnPrefixFast_isPrefixIndex (fun b => b[0] = 1) (fun b => b[0] = 2)
    ⟨fun l => some (l.map fun b => decide (b[0] = 2)),
      fun l => some (((l.takeWhile fun b => decide (b[0] = 2)).length : Int) - 1)⟩
    (fun l => ⟨_, rfl, isPrefixIndex_iff.mpr (Int.sub_add_cancel _ _)⟩)
    [Vector.replicate 16 2, Vector.replicate 16 1, Vector.replicate 16 2, Vector.replicate 16 3,
      Vector.replicate 16 1]
  exact ⟨p, hp, hi⟩

end BufferManager

end UnifiedCache.CacheStore
