import UnifiedCache.Sparse.BlendMeta

/-! The mask of one request: the tokens of its chunks that are computed anew, and what the
mask of the batch is where the request has its query. -/

namespace UnifiedCache.Sparse.Blend

open Connector

variable {Layer Slot Row : Type*}

section Masks

variable {xs ys zs : List Bool}

theorem fillTrue_append (xs ys zs : List Bool) : fillTrue (xs ++ (ys ++ zs)) xs.length (xs.length + ys.length) =
    xs ++ (List.replicate ys.length true ++ zs) := by
  rw [fillTrue, List.mapIdx_append, List.mapIdx_append]
  congr 1
  · refine (List.mapIdx_eq_iff.mpr fun i => ?_)
    rcases Nat.lt_or_ge i xs.length with hi | hi
    · rw [List.getElem?_eq_getElem hi, Option.map_some, decide_eq_false (by omega : ¬ xs.length ≤ i),
        Bool.false_and, Bool.or_false]
    · rw [List.getElem?_eq_none hi]
      rfl
  · congr 1
    · refine (List.mapIdx_eq_iff.mpr fun i => ?_)
      rcases Nat.lt_or_ge i ys.length with hi | hi
      · rw [List.getElem?_eq_getElem hi, Option.map_some, List.getElem?_replicate_of_lt hi,
          decide_eq_true (by omega : xs.length ≤ i + xs.length),
          decide_eq_true (by omega : i + xs.length < xs.length + ys.length), Bool.true_and, Bool.or_true]
      · rw [List.getElem?_eq_none hi, List.getElem?_eq_none (by simpa using hi)]
        rfl
    · refine (List.mapIdx_eq_iff.mpr fun i => ?_)
      rcases Nat.lt_or_ge i zs.length with hi | hi
      · rw [List.getElem?_eq_getElem hi, Option.map_some,
          decide_eq_false (by omega : ¬ i + ys.length + xs.length < xs.length + ys.length), Bool.and_false,
          Bool.or_false]
      · rw [List.getElem?_eq_none hi]
        rfl

theorem length_fillTrue (start stop : Nat) : (fillTrue xs start stop).length = xs.length := List.length_mapIdx

/-- The rows between two places of a list of parts. -/
theorem slice_append_append (xs ys zs : List Row) : slice (xs ++ (ys ++ zs)) xs.length (xs.length + ys.length) = ys := by
  rw [slice, List.drop_left, Nat.add_sub_cancel_left, List.take_left]

end Masks

section HitTokens

variable (blockSize : Nat) (hits : List Bool)

/-- The tokens of the blocks that were found. -/
def hitTokens : List Nat :=
  (List.range (hits.length * blockSize)).filter fun i => hits[i / blockSize]? = some true

variable {blockSize hits}

theorem hitTokens_nodup : (hitTokens blockSize hits).Nodup := List.nodup_range.filter _

theorem mem_hitTokens {i : Nat} :
    i ∈ hitTokens blockSize hits ↔ i < hits.length * blockSize ∧ hits[i / blockSize]? = some true := by
  rw [hitTokens, List.mem_filter, List.mem_range, decide_eq_true_iff]

theorem hitTokens_concat (hb : 0 < blockSize) (hit : Bool) : hitTokens blockSize (hits ++ [hit]) =
    hitTokens blockSize hits ++
      if hit then (List.range blockSize).map fun c => hits.length * blockSize + c else [] := by
  have hlen : (hits ++ [hit]).length * blockSize = hits.length * blockSize + blockSize := by
    rw [List.length_append, List.length_singleton, Nat.add_mul, Nat.one_mul]
  rw [hitTokens, hlen, List.range_add, List.filter_append]
  congr 1
  · refine List.filter_congr fun i hi => ?_
    have hlt : i / blockSize < hits.length := (Nat.div_lt_iff_lt_mul hb).mpr (List.mem_range.mp hi)
    rw [List.getElem?_append_left hlt]
  · have hsame : ∀ i ∈ (List.range blockSize).map (hits.length * blockSize + ·),
        (decide ((hits ++ [hit])[i / blockSize]? = some true)) = hit := by
      intro i hi
      obtain ⟨c, hc, rfl⟩ := List.mem_map.mp hi
      have hdiv : (hits.length * blockSize + c) / blockSize = hits.length := by
        rw [Nat.mul_comm, Nat.mul_add_div hb, Nat.div_eq_of_lt (List.mem_range.mp hc), Nat.add_zero]
      rw [hdiv, List.getElem?_concat_length]
      cases hit <;> rfl
    rw [List.filter_congr hsame]
    cases hit <;> simp

theorem length_hitTokens (hb : 0 < blockSize) : (hitTokens blockSize hits).length = hits.count true * blockSize := by
  induction hits using List.reverseRecOn with
  | nil => simp [hitTokens]
  | append_singleton hits hit ih =>
    rw [hitTokens_concat hb, List.length_append, ih, List.count_append, Nat.add_mul]
    cases hit <;> simp

/-- The places of the found blocks, row by row. -/
theorem flatten_compress_rows (hb : 0 < blockSize) :
    (compress ((List.range hits.length).map fun r => (List.range blockSize).map fun c => r * blockSize + c)
      hits).flatten = hitTokens blockSize hits := by
  induction hits using List.reverseRecOn with
  | nil => simp [compress_nil_right, hitTokens]
  | append_singleton hits hit ih =>
    rw [hitTokens_concat hb, List.length_append, List.length_singleton, List.range_succ, List.map_append,
      compress_append (by simp), List.flatten_append, ih]
    cases hit <;> simp [compress]

end HitTokens

/-- The entries of a list at some places. -/
theorem mapM_getElem? {places out : List Nat} {rows : List Nat} (h : places.mapM (fun i => rows[i]?) = some out) :
    out = places.filterMap fun i => rows[i]? := by
  induction places generalizing out with
  | nil =>
    obtain rfl := Option.some.inj h
    rfl
  | cons i places ih =>
    rw [List.mapM_cons] at h
    obtain ⟨x, hx, h⟩ := Option.bind_eq_some_iff.mp h
    obtain ⟨rest, hrest, h⟩ := Option.bind_eq_some_iff.mp h
    obtain rfl := Option.some.inj h
    rw [List.filterMap_cons_some hx, ih hrest]

section ChunkMask

variable (blockSize : Nat) (hits : List Bool) (indices : List Nat)

/-- The selected tokens of the found blocks. -/
def selected : List Nat := indices.filterMap fun j => (hitTokens blockSize hits)[j]?

/-- Which tokens of the chunks are computed. -/
def chunkMask : List Bool := (List.range (hits.length * blockSize)).map fun i =>
  !(hits[i / blockSize]?.getD true) || (selected blockSize hits indices).contains i

variable {blockSize hits indices}

theorem length_chunkMask : (chunkMask blockSize hits indices).length = hits.length * blockSize := by
  rw [chunkMask, List.length_map, List.length_range]

theorem selected_subset : selected blockSize hits indices ⊆ hitTokens blockSize hits := fun _ hi => by
  obtain ⟨j, -, hj⟩ := List.mem_filterMap.mp hi
  exact List.mem_of_getElem? hj

theorem selected_nodup (h : indices.Nodup) : (selected blockSize hits indices).Nodup := by
  refine h.filterMap fun j j' i hj hj' => ?_
  exact (List.getElem?_inj (List.getElem?_eq_some_iff.mp hj).1 hitTokens_nodup).mp (hj.trans hj'.symm)

theorem length_selected (h : ∀ j ∈ indices, j < (hitTokens blockSize hits).length) :
    (selected blockSize hits indices).length = indices.length := by
  rw [selected, List.length_filterMap_eq_countP, List.countP_eq_length]
  intro j hj
  rw [List.getElem?_eq_getElem (h j hj)]
  rfl

/-- The tokens that are left out are those found and not selected. -/
theorem count_chunkMask (hb : 0 < blockSize) (hnd : indices.Nodup)
    (h : ∀ j ∈ indices, j < hits.count true * blockSize) :
    (chunkMask blockSize hits indices).count true + (hits.count true * blockSize - indices.length) =
      hits.length * blockSize := by
  have hfalse : (chunkMask blockSize hits indices).count false =
      ((hitTokens blockSize hits).filter fun i => i ∉ selected blockSize hits indices).length := by
    rw [chunkMask, List.count_eq_countP, List.countP_map, List.countP_eq_length_filter, hitTokens,
      List.filter_filter]
    congr 1
    refine List.filter_congr fun i hi => ?_
    have hlt : i / blockSize < hits.length := (Nat.div_lt_iff_lt_mul hb).mpr (List.mem_range.mp hi)
    simp only [Function.comp_apply, List.getElem?_eq_getElem hlt, Option.getD_some]
    cases hits[i / blockSize] <;> simp
  have hsel : ((hitTokens blockSize hits).filter fun i => i ∈ selected blockSize hits indices).length =
      (selected blockSize hits indices).length := by
    refine List.Perm.length_eq ((List.perm_ext_iff_of_nodup (hitTokens_nodup.filter _) (selected_nodup hnd)).mpr ?_)
    intro i
    rw [List.mem_filter, decide_eq_true_iff]
    exact ⟨And.right, fun hi => ⟨selected_subset hi, hi⟩⟩
  have hsplit := List.length_eq_length_filter_add (l := hitTokens blockSize hits)
    (fun i => decide (i ∈ selected blockSize hits indices))
  have hcount := List.count_true_add_count_false (chunkMask blockSize hits indices)
  rw [length_chunkMask] at hcount
  rw [length_hitTokens hb, hsel, length_selected (by rwa [length_hitTokens hb])] at hsplit
  simp only [← decide_not] at hsplit
  omega

end ChunkMask

end UnifiedCache.Sparse.Blend
