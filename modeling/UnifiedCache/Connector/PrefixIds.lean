import UnifiedCache.Connector.Dispatch
import UnifiedCache.Lib.HashChain

/-! The block ids of a prompt as a chain of hashes over its full blocks: the id of a block stands for all
tokens up to the end of the block. -/

namespace UnifiedCache.Connector

open HashChain

variable {Token BlockId : Type*} (config : Config Token BlockId) {s t : List Token} {i j : Nat}

/-- The first blocks of a prompt, of which there are that many. -/
def blocks (tokenIds : List Token) (count : Nat) : List (List Token) :=
  (List.range count).map fun i => slice tokenIds (i * config.blockSize) (i * config.blockSize + config.blockSize)

/-- The pairs that the hasher is applied to. -/
def hashedPairs (tokenIds : List Token) : List (BlockId × List Token) :=
  pairs config.requestHasher config.seed (blocks config tokenIds (tokenIds.length / config.blockSize))

variable {config}

theorem hashBlocks_eq_ids (tokenIds : List Token) (parent : BlockId) {first count : Nat}
    (h : first + count ≤ tokenIds.length / config.blockSize) :
    hashBlocks config tokenIds parent ((List.range' first count).map (· * config.blockSize)) =
      ids config.requestHasher parent ((List.range' first count).map fun i =>
        slice tokenIds (i * config.blockSize) (i * config.blockSize + config.blockSize)) := by
  induction count generalizing first parent with
  | zero => rfl
  | succ count ih =>
    have hfull : (first + 1) * config.blockSize ≤ tokenIds.length :=
      (Nat.le_div_iff_mul_le config.blockSize_pos).mp (by omega)
    have hlength : ¬ (slice tokenIds (first * config.blockSize) (first * config.blockSize + config.blockSize)).length <
        config.blockSize := by
      rw [length_slice (by rwa [Nat.add_one_mul] at hfull)]
      omega
    rw [List.range'_succ, List.map_cons, List.map_cons, hashBlocks, ids]
    dsimp only
    rw [if_neg hlength, ih _ (by omega)]

theorem generateHash_eq_ids (tokenIds : List Token) (parent : BlockId) :
    generateHash config tokenIds parent =
      ids config.requestHasher parent (blocks config tokenIds (tokenIds.length / config.blockSize)) := by
  have hlength := length_generateHash config tokenIds parent
  have hle : tokenIds.length / config.blockSize ≤ (tokenIds.length + config.blockSize - 1) / config.blockSize := by
    have hpos := config.blockSize_pos
    exact Nat.div_le_div_right (by omega)
  rw [← List.take_of_length_le hlength.le]
  rw [generateHash, take_hashBlocks, ← List.map_take, List.take_range, Nat.min_eq_left hle, blocks, List.range_eq_range']
  exact hashBlocks_eq_ids tokenIds parent (Nat.zero_add _).le

theorem flatten_blocks (tokenIds : List Token) (count : Nat) :
    (blocks config tokenIds count).flatten = tokenIds.take (count * config.blockSize) := by
  induction count with
  | zero => simp [blocks]
  | succ count ih =>
    have hsucc : blocks config tokenIds (count + 1) = blocks config tokenIds count ++
        [slice tokenIds (count * config.blockSize) (count * config.blockSize + config.blockSize)] := by
      rw [blocks, List.range_succ, List.map_append]
      rfl
    rw [hsucc, List.flatten_append, ih, List.flatten_singleton, Nat.add_one_mul, List.take_add, slice,
      Nat.add_sub_cancel_left]

theorem take_blocks (tokenIds : List Token) {count n : Nat} (h : n ≤ count) :
    (blocks config tokenIds count).take n = blocks config tokenIds n := by
  rw [blocks, ← List.map_take, List.take_range, Nat.min_eq_left h]
  rfl

theorem generateHash_prefix (parent : BlockId) (h : s <+: t) :
    generateHash config s parent <+: generateHash config t parent := by
  obtain ⟨rest, rfl⟩ := h
  have hle : s.length / config.blockSize ≤ (s ++ rest).length / config.blockSize :=
    Nat.div_le_div_right (by rw [List.length_append]; omega)
  have htake : (s ++ rest).take (s.length / config.blockSize * config.blockSize) = s.take (s.length / config.blockSize * config.blockSize) :=
    List.take_append_of_le_length (Nat.div_mul_le_self s.length config.blockSize)
  have hs := generateHash_take config s parent (Nat.le_refl (s.length / config.blockSize))
  rw [List.take_of_length_le (length_generateHash config s parent).le] at hs
  rw [← hs, ← htake, generateHash_take config (s ++ rest) parent hle]
  exact List.take_prefix _ _

/-- The ids of two prompts, where the hasher is injective on what it is applied to and never makes the seed. -/
theorem ids_stand_for_prefixes (config : Config Token BlockId) (s t : List Token)
    (hinj : ∀ p ∈ hashedPairs config s ++ hashedPairs config t, ∀ q ∈ hashedPairs config s ++ hashedPairs config t,
      config.requestHasher p = config.requestHasher q → p = q)
    (hseed : ∀ p ∈ hashedPairs config s ++ hashedPairs config t, config.requestHasher p ≠ config.seed) :
    (generateHash config s config.seed).length = s.length / config.blockSize ∧
    (∀ i < min (s.length / config.blockSize) (t.length / config.blockSize),
      ((generateHash config s config.seed)[i]? = (generateHash config t config.seed)[i]? ↔
        s.take ((i + 1) * config.blockSize) = t.take ((i + 1) * config.blockSize))) ∧
    (∀ i < s.length / config.blockSize, ∀ j < t.length / config.blockSize,
      (generateHash config s config.seed)[i]? = (generateHash config t config.seed)[j]? → i = j) ∧
    (generateHash config s config.seed).Nodup ∧
    ∀ u, u <+: s → generateHash config u config.seed <+: generateHash config s config.seed := by
  have hget : ∀ {u : List Token} {i : Nat}, i < u.length / config.blockSize →
      ∃ a, (generateHash config u config.seed)[i]? = some a := fun hi =>
    ⟨_, List.getElem?_eq_getElem (by rw [length_generateHash]; exact hi)⟩
  have hids : ∀ {i j : Nat} {a : BlockId}, (generateHash config s config.seed)[i]? = some a →
      (generateHash config t config.seed)[j]? = some a → i = j ∧
        (blocks config s (s.length / config.blockSize)).take (i + 1) =
          (blocks config t (t.length / config.blockSize)).take (j + 1) := by
    intro i j a hi hj
    rw [generateHash_eq_ids] at hi hj
    exact eq_of_ids_eq hinj hseed hi hj
  refine ⟨length_generateHash config s config.seed, fun i hi => ⟨fun he => ?_, fun he => ?_⟩, fun i hi j hj he => ?_,
    ?_, fun u hu => generateHash_prefix config.seed hu⟩
  · obtain ⟨a, ha⟩ := hget (u := s) (i := i) (by omega)
    obtain ⟨-, htake⟩ := hids ha (he ▸ ha)
    rw [take_blocks s (by omega), take_blocks t (by omega)] at htake
    rw [← flatten_blocks, ← flatten_blocks, htake]
  · have hs := generateHash_take config s config.seed (show i + 1 ≤ _ by omega)
    have ht := generateHash_take config t config.seed (show i + 1 ≤ _ by omega)
    rw [he, ht] at hs
    have hi' := congrArg (·[i]?) hs
    simpa [List.getElem?_take] using hi'.symm
  · obtain ⟨a, ha⟩ := hget hi
    exact (hids ha (he ▸ ha)).1
  · rw [generateHash_eq_ids]
    exact nodup_ids (fun p hp q hq => hinj p (List.mem_append_left _ hp) q (List.mem_append_left _ hq))
      fun p hp => hseed p (List.mem_append_left _ hp)

/-- A hasher of two tokens a block that writes its input out. -/
def writesOut : Config Nat (List Nat) where
  blockSize := 2
  blockSize_pos := Nat.two_pos
  requestHasher := fun p => p.1 ++ 0 :: p.2
  seed := []

theorem ids_stand_for_prefixes_shared :
    (∀ i < 2, ((generateHash writesOut [1, 2, 3, 4, 5] [])[i]? = (generateHash writesOut [1, 2, 3, 7] [])[i]? ↔
      [1, 2, 3, 4, 5].take ((i + 1) * 2) = [1, 2, 3, 7].take ((i + 1) * 2))) ∧
    generateHash writesOut [1, 2, 3, 4, 5] [] = [[0, 1, 2], [0, 1, 2, 0, 3, 4]] ∧
    generateHash writesOut [1, 2, 3, 7] [] = [[0, 1, 2], [0, 1, 2, 0, 3, 7]] := by
  have h := ids_stand_for_prefixes writesOut [1, 2, 3, 4, 5] [1, 2, 3, 7] (by decide +kernel) (by decide +kernel)
  exact ⟨h.2.1, by decide +kernel, by decide +kernel⟩

end UnifiedCache.Connector
