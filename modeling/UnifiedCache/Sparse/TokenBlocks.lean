import Mathlib.Data.List.Nodup
import Mathlib.Data.Nat.Count
import UnifiedCache.Lib.Collections

/-! The blocks of a KV cache by the tokens whose KV they have, and what is copied into them by way
of a block table. -/

namespace UnifiedCache.Sparse

/-- The token at each slot of a block. -/
abbrev Content : Type := Nat → Option Nat

/-- Block `i` of a request with KV for some tokens. -/
def tokenBlock (blockSize numTokens i : Nat) : Content := fun offset =>
  if offset < blockSize ∧ i * blockSize + offset < numTokens then some (i * blockSize + offset) else none

def cdiv (a b : Nat) : Nat := (a + b - 1) / b

/-- `cache[ids] = values`. A single value is broadcast, and `none` is the error for other shapes. -/
def indexPut (ids : List Nat) (values : List Content) : Option (List (Nat × Content)) :=
  if values.length = ids.length then some (ids.zip values)
  else match values with
    | [value] => some (ids.map fun id => (id, value))
    | _ => none

/-- The cache after some copies. -/
def put (cache : Nat → Content) (copies : List (Nat × Content)) : Nat → Content :=
  copies.foldl (fun cache copy => Function.update cache copy.1 copy.2) cache

/-- The slots of a block that have a token. -/
def filled (blockSize : Nat) (content : Content) : Nat := Nat.count (fun offset => (content offset).isSome) blockSize

/-- The blocks of a request once the pool has given it what it lacks, and what is left of the pool. -/
def allocateNewBlocks (blocks pool : List Nat) (numBlocks : Nat) : Option (List Nat × List Nat) :=
  let numNewBlocks := numBlocks - blocks.length
  if numNewBlocks > pool.length then none else some (blocks ++ pool.take numNewBlocks, pool.drop numNewBlocks)

/-- The cache has the tokens of a request in its blocks. -/
def Prefilled (blockSize numTokens : Nat) (blockIds : List Nat) (cache : Nat → Content) : Prop :=
  ∀ i id, blockIds[i]? = some id → cache id = tokenBlock blockSize numTokens i

/-- The copies put a token at a position of a block table. -/
def Holds (blockSize : Nat) (table : List Nat) (copies : List (Nat × Content)) (position token : Nat) : Prop :=
  ∃ id content, (id, content) ∈ copies ∧ table[position / blockSize]? = some id ∧
    content (position % blockSize) = some token

section Put

variable {cache : Nat → Content} {copies : List (Nat × Content)} {blockSize m : Nat} {content : Content}

/-- What the cache and all copies have, the cache has after them. -/
theorem put_induction {P : Nat → Content → Prop} (hcache : ∀ id, P id (cache id))
    (hcopies : ∀ copy ∈ copies, P copy.1 copy.2) (id : Nat) : P id (put cache copies id) := by
  induction copies generalizing cache with
  | nil => exact hcache id
  | cons copy copies ih =>
    obtain ⟨hcopy, hcopies⟩ := List.forall_mem_cons.mp hcopies
    refine @ih (Function.update cache copy.1 copy.2) (fun other => ?_) hcopies
    by_cases h : other = copy.1
    · rw [h, Function.update_self]
      exact hcopy
    · rw [Function.update_of_ne h]
      exact hcache other

theorem put_of_notMem {id : Nat} (h : ∀ copy ∈ copies, copy.1 ≠ id) : put cache copies id = cache id := by
  induction copies generalizing cache with
  | nil => rfl
  | cons copy copies ih =>
    obtain ⟨hcopy, hcopies⟩ := List.forall_mem_cons.mp h
    have hput := @ih (Function.update cache copy.1 copy.2) hcopies
    rwa [Function.update_of_ne hcopy.symm] at hput

theorem put_of_mem {id : Nat} (hnodup : (copies.map Prod.fst).Nodup) (hmem : (id, content) ∈ copies) :
    put cache copies id = content := by
  induction copies generalizing cache with
  | nil => cases hmem
  | cons copy copies ih =>
    obtain ⟨hnotMem, hnodup⟩ := List.nodup_cons.mp hnodup
    obtain rfl | hmem := List.mem_cons.mp hmem
    · have hput := @put_of_notMem (Function.update cache id content) copies id fun other hother heq =>
        hnotMem (List.mem_map.mpr ⟨other, hother, heq⟩)
      rwa [Function.update_self] at hput
    · exact ih hnodup hmem

/-- Slots are filled from the first one on. -/
theorem filled_eq (hm : m ≤ blockSize) (h : ∀ offset < blockSize, (content offset).isSome ↔ offset < m) :
    filled blockSize content = m := by
  obtain ⟨rest, rfl⟩ := Nat.exists_eq_add_of_le hm
  have hfirst : Nat.count (fun offset => (content offset).isSome) m = m :=
    Nat.count_of_forall fun offset hoffset => (h offset (by omega)).mpr hoffset
  have hrest : Nat.count (fun offset => (content (m + offset)).isSome) rest = 0 :=
    Nat.count_of_forall_not fun offset hoffset hsome => by
      have hlt := (h (m + offset) (by omega)).mp hsome
      omega
  unfold filled
  rw [Nat.count_add, hfirst, hrest, Nat.add_zero]

theorem filled_le : filled blockSize content ≤ blockSize := Nat.count_le _

end Put

section Holds

variable {blockSize numTokens : Nat} {table blockIds : List Nat} {cache : Nat → Content} {a b i k p t : Nat}

theorem cdiv_le_iff (h : 0 < b) : cdiv a b ≤ k ↔ a ≤ k * b := by
  unfold cdiv
  rw [Nat.div_le_iff_le_mul_add_pred h]
  rw [Nat.mul_comm]
  omega

theorem lt_cdiv_iff (h : 0 < b) : k < cdiv a b ↔ k * b < a := by
  rw [← not_le, ← not_le, cdiv_le_iff h]

theorem cdiv_of_mod_eq (h : a % b = 0) (hb : 0 < b) : cdiv a b * b = a := by
  obtain ⟨k, rfl⟩ := Nat.dvd_of_mod_eq_zero h
  have hle : cdiv (b * k) b ≤ k := (cdiv_le_iff hb).mpr (by rw [Nat.mul_comm])
  have hge : b * k ≤ cdiv (b * k) b * b := (cdiv_le_iff hb).mp le_rfl
  exact Nat.le_antisymm ((Nat.mul_le_mul_right b hle).trans_eq (Nat.mul_comm k b)) hge

theorem cdiv_of_mod_ne (h : a % b ≠ 0) (hb : 0 < b) : cdiv a b = a / b + 1 := by
  have hmod := Nat.mod_lt a hb
  have hsplit := Nat.div_add_mod' a b
  apply Nat.le_antisymm
  · rw [cdiv_le_iff hb, Nat.add_mul]
    omega
  · rw [Nat.add_one_le_iff, lt_cdiv_iff hb]
    omega

theorem allocateNewBlocks_eq {blocks pool : List Nat} {n : Nat} {r : List Nat × List Nat}
    (h : allocateNewBlocks blocks pool n = some r) (hnodup : (blocks ++ pool).Nodup) :
    r.1 = blocks ++ pool.take (n - blocks.length) ∧ r.1.length = max n blocks.length ∧ r.1.Nodup := by
  unfold allocateNewBlocks at h
  simp only at h
  split_ifs at h with hpool
  cases h
  refine ⟨rfl, ?_, ?_⟩
  · rw [List.length_append, List.length_take]
    omega
  · exact hnodup.sublist ((List.take_sublist _ _).append_left blocks)

theorem tokenBlock_eq_some :
    tokenBlock blockSize numTokens i a = some t ↔
      a < blockSize ∧ t = i * blockSize + a ∧ t < numTokens := by
  unfold tokenBlock
  split
  · rename_i h
    rw [Option.some.injEq]
    constructor
    · rintro rfl
      exact ⟨h.1, rfl, h.2⟩
    · rintro ⟨_, rfl, _⟩
      rfl
  · rename_i h
    constructor
    · intro hsome
      cases hsome
    · rintro ⟨ha, rfl, ht⟩
      exact absurd ⟨ha, ht⟩ h

theorem map_slice_of_prefilled (h : Prefilled blockSize numTokens blockIds cache) (hb : b ≤ blockIds.length) :
    (slice blockIds a b).map cache = (List.range (b - a)).map fun j => tokenBlock blockSize numTokens (a + j) := by
  apply List.ext_getElem?
  intro j
  rw [List.getElem?_map, List.getElem?_map, getElem?_slice]
  by_cases hj : j < b - a
  · have hid : blockIds[a + j]? = some blockIds[a + j] := List.getElem?_eq_getElem (by omega)
    rw [if_pos hj, hid, List.getElem?_range hj, Option.map_some, Option.map_some, h (a + j) _ hid]
  · rw [if_neg hj, List.getElem?_eq_none (by simpa using hj)]
    rfl

theorem intSlice_neg {xs : List Nat} (h : 0 < k) : intSlice xs (-k) xs.length = slice xs (xs.length - k) xs.length := by
  have hstart : intSlice.bound xs (-k) = xs.length - k := by
    unfold intSlice.bound
    rw [if_pos (by omega)]
    omega
  have hstop : intSlice.bound xs (xs.length : Int) = xs.length := if_neg (by omega)
  rw [intSlice, hstart, hstop]

theorem indexPut_of_length {ids : List Nat} {values : List Content} (h : values.length = ids.length) :
    indexPut ids values = some (ids.zip values) := if_pos h

/-- In a table without repetitions a copy to an entry is read at the positions of that entry. -/
theorem holds_zip_slice {values : List Content} (hnodup : table.Nodup) (hlength : a + values.length ≤ table.length) :
    Holds blockSize table ((slice table a (a + values.length)).zip values) p t ↔
      ∃ j content, values[j]? = some content ∧ p / blockSize = a + j ∧ content (p % blockSize) = some t := by
  unfold Holds
  constructor
  · rintro ⟨id, content, hmem, hid, hcontent⟩
    obtain ⟨j, hj⟩ := List.mem_iff_getElem?.mp hmem
    obtain ⟨hjid, hjcontent⟩ := List.getElem?_zip_eq_some.mp hj
    rw [getElem?_slice, if_pos (by have := (List.getElem?_eq_some_iff.mp hjcontent).1; omega)] at hjid
    refine ⟨j, content, hjcontent, ?_, hcontent⟩
    have hlt := (List.getElem?_eq_some_iff.mp hid).1
    exact (List.getElem?_inj hlt hnodup).mp (hid.trans hjid.symm)
  · rintro ⟨j, content, hj, hp, hcontent⟩
    have hlt := (List.getElem?_eq_some_iff.mp hj).1
    have hid : table[a + j]? = some table[a + j] := List.getElem?_eq_getElem (by omega)
    refine ⟨table[a + j], content, List.mem_iff_getElem?.mpr ⟨j, ?_⟩, by rwa [hp], hcontent⟩
    rw [List.getElem?_zip_eq_some, getElem?_slice, if_pos (by omega)]
    exact ⟨hid, hj⟩

/-- Blocks copied in a row to entries in a row. -/
theorem holds_tokenBlocks (hpos : 0 < blockSize) (hnodup : table.Nodup) (hlength : a + k ≤ table.length) :
    Holds blockSize table
        ((slice table a (a + k)).zip ((List.range k).map fun j => tokenBlock blockSize numTokens (i + j))) p t ↔
      a * blockSize ≤ p ∧ p < (a + k) * blockSize ∧ t + a * blockSize = p + i * blockSize ∧ t < numTokens := by
  have hvalues : ((List.range k).map fun j => tokenBlock blockSize numTokens (i + j)).length = k := by simp
  have hzip := @holds_zip_slice blockSize table a p t
    ((List.range k).map fun j => tokenBlock blockSize numTokens (i + j)) hnodup (by rwa [hvalues])
  rw [hvalues] at hzip
  rw [hzip]
  have hdiv := Nat.div_add_mod p blockSize
  have hmod := Nat.mod_lt p hpos
  constructor
  · rintro ⟨j, content, hj, hp, hcontent⟩
    rw [List.getElem?_map, Option.map_eq_some_iff] at hj
    obtain ⟨j', hj', rfl⟩ := hj
    obtain ⟨hlt, rfl⟩ := List.getElem?_eq_some_iff.mp hj'
    rw [List.length_range] at hlt
    rw [List.getElem_range] at hcontent
    obtain ⟨_, rfl, ht⟩ := tokenBlock_eq_some.mp hcontent
    have hpmul : p = a * blockSize + j * blockSize + p % blockSize := by
      rw [hp, Nat.mul_comm, Nat.add_mul] at hdiv
      exact hdiv.symm
    have hjk : (j + 1) * blockSize ≤ k * blockSize := Nat.mul_le_mul_right _ hlt
    rw [Nat.add_mul] at hjk ⊢ ht
    rw [Nat.add_mul]
    omega
  · rintro ⟨hap, hpk, heq, ht⟩
    have ha : a ≤ p / blockSize := (Nat.le_div_iff_mul_le hpos).mpr hap
    have hk : p / blockSize < a + k := (Nat.div_lt_iff_lt_mul hpos).mpr hpk
    refine ⟨p / blockSize - a, tokenBlock blockSize numTokens (i + (p / blockSize - a)), ?_, by omega, ?_⟩
    · rw [List.getElem?_map, List.getElem?_range (by omega), Option.map_some]
    · rw [tokenBlock_eq_some]
      refine ⟨hmod, ?_, ht⟩
      rw [Nat.add_mul, Nat.sub_mul, Nat.mul_comm (p / blockSize)]
      have hle : a * blockSize ≤ blockSize * (p / blockSize) := by
        rw [Nat.mul_comm]
        exact Nat.mul_le_mul_left _ ha
      omega

end Holds

end UnifiedCache.Sparse
