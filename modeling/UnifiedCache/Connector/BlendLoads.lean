import UnifiedCache.Connector.Blend

/-! What the blend connector has a request load. The chunks tile the first blocks of the prompt, so
that their hits together are those of one list of hashes, as far as the prefix hits end in the
first chunk. -/

namespace UnifiedCache.Connector.Blend

variable {Token BlockId ReqId : Type*}

/-- Chunks that follow on each other from a block, each with a hash for each of its blocks. -/
def Tiles (blockSize : Nat) : Nat → List (ChunkMetaData BlockId) → Prop
  | _, [] => True
  | startBlkIdx, chunk :: chunks => ∃ len : Nat, 0 < len ∧ chunk.startBlkIdx = startBlkIdx ∧ chunk.chunkBlksLen = len ∧
      chunk.chunkTokensLen = len * blockSize ∧ chunk.chunkBlksHash.length = len ∧ Tiles blockSize (startBlkIdx + len) chunks

section Split

variable [DecidableEq Token] {config : BlendConfig Token BlockId} {allTokenIds : List Token}

/-- The block ends with the end of a chunk. -/
def endsChunk (config : BlendConfig Token BlockId) (allTokenIds : List Token) (i : Nat) : Bool :=
  allTokenIds[config.blockSize - 1 + i * config.blockSize]? = some config.chunkEndTokenId

/-- The blocks up to the first that ends a chunk. -/
def firstChunkLen (config : BlendConfig Token BlockId) (allTokenIds : List Token) : Nat :=
  ((List.range (allTokenIds.length / config.blockSize)).takeWhile fun i => !endsChunk config allTokenIds i).length + 1

def blockEnd (config : BlendConfig Token BlockId) (i : Nat) : Nat × Nat :=
  (i, config.blockSize - 1 + i * config.blockSize)

omit [DecidableEq Token] in
theorem blockEnds_eq : blockEnds config allTokenIds =
    (List.range' 0 (allTokenIds.length / config.blockSize)).map (blockEnd config) := by
  have hpos := config.blockSize_pos
  have hcount : (allTokenIds.length - (config.blockSize - 1) + config.blockSize - 1) / config.blockSize =
      allTokenIds.length / config.blockSize := by
    by_cases hfull : config.blockSize ≤ allTokenIds.length
    · rw [show allTokenIds.length - (config.blockSize - 1) + config.blockSize - 1 = allTokenIds.length by omega]
    · rw [Nat.div_eq_of_lt (by omega), Nat.div_eq_of_lt (by omega)]
  rw [blockEnds, hcount, List.range_eq_range']
  rfl

/-- One step of the loop over the blocks. -/
theorem splitChunks_cons (startBlkIdx i : Nat) (is : List Nat) :
    splitChunks config allTokenIds startBlkIdx (startBlkIdx * config.blockSize) ((i :: is).map (blockEnd config)) =
      if endsChunk config allTokenIds i then
        let chunkBlksHash := generateHash config.toConfig
          (slice allTokenIds (startBlkIdx * config.blockSize) ((i + 1) * config.blockSize)) config.seed
        let split := splitChunks config allTokenIds (i + 1) ((i + 1) * config.blockSize) (is.map (blockEnd config))
        (⟨startBlkIdx * config.blockSize, (i - startBlkIdx + 1) * config.blockSize, startBlkIdx, i - startBlkIdx + 1,
            0, [], chunkBlksHash, []⟩ :: split.1, chunkBlksHash ++ split.2)
      else splitChunks config allTokenIds startBlkIdx (startBlkIdx * config.blockSize) (is.map (blockEnd config)) := by
  have hpos := config.blockSize_pos
  have hend : config.blockSize - 1 + i * config.blockSize + 1 = (i + 1) * config.blockSize := by
    rw [Nat.add_one_mul]
    omega
  rw [List.map_cons, blockEnd, splitChunks, hend, endsChunk]
  simp only [decide_eq_true_eq, Nat.cast_mul]

/-- The chunks tile the blocks from the first one on, and their hashes follow on each other. -/
theorem tiles_splitChunks {startBlkIdx i count : Nat} (hstart : startBlkIdx ≤ i)
    (hcount : i + count ≤ allTokenIds.length / config.blockSize) :
    let split := splitChunks config allTokenIds startBlkIdx (startBlkIdx * config.blockSize)
      ((List.range' i count).map (blockEnd config))
    Tiles config.blockSize startBlkIdx split.1 ∧ split.2 = split.1.flatMap ChunkMetaData.chunkBlksHash ∧
      startBlkIdx + split.2.length ≤ i + count := by
  induction count generalizing startBlkIdx i with
  | zero =>
    refine ⟨trivial, rfl, ?_⟩
    exact hstart
  | succ count ih =>
    have hpos := config.blockSize_pos
    dsimp only
    rw [List.range'_succ, splitChunks_cons]
    split_ifs
    · obtain ⟨htiles, hhashes, hle⟩ := ih (le_refl (i + 1)) (by omega)
      have hfull : (i + 1) * config.blockSize ≤ allTokenIds.length :=
        (Nat.mul_le_mul_right _ (by omega)).trans (Nat.div_mul_le_self _ config.blockSize)
      have hlength : (generateHash config.toConfig (slice allTokenIds (startBlkIdx * config.blockSize)
          ((i + 1) * config.blockSize)) config.seed).length = i + 1 - startBlkIdx := by
        rw [length_generateHash, length_slice hfull, ← Nat.sub_mul]
        exact Nat.mul_div_cancel _ hpos
      refine ⟨⟨i + 1 - startBlkIdx, by omega, rfl, ?_, ?_, hlength, ?_⟩, ?_, ?_⟩
      · dsimp only
        omega
      · dsimp only
        congr 1
        omega
      · rw [show startBlkIdx + (i + 1 - startBlkIdx) = i + 1 by omega]
        exact htiles
      · rw [List.flatMap_cons, ← hhashes]
      · rw [List.length_append, hlength]
        omega
    · obtain ⟨htiles, hhashes, hle⟩ := @ih startBlkIdx (i + 1) (by omega) (by omega)
      exact ⟨htiles, hhashes, by omega⟩

/-- The first chunk ends with the first block that ends a chunk. -/
theorem splitChunks_first {startBlkIdx i count : Nat} {chunk : ChunkMetaData BlockId}
    {chunks : List (ChunkMetaData BlockId)} (hstart : startBlkIdx ≤ i)
    (h : (splitChunks config allTokenIds startBlkIdx (startBlkIdx * config.blockSize)
      ((List.range' i count).map (blockEnd config))).1 = chunk :: chunks) :
    let stop := i + ((List.range' i count).takeWhile fun i => !endsChunk config allTokenIds i).length + 1
    chunk.chunkBlksLen = stop - startBlkIdx ∧ chunk.chunkBlksHash =
      generateHash config.toConfig (slice allTokenIds (startBlkIdx * config.blockSize) (stop * config.blockSize)) config.seed := by
  induction count generalizing i with
  | zero => cases h
  | succ count ih =>
    rw [List.range'_succ, splitChunks_cons] at h
    rw [List.range'_succ, List.takeWhile_cons]
    split_ifs at h with hend
    · obtain ⟨rfl, -⟩ := List.cons.inj h
      simp only [hend, Bool.not_true, Bool.false_eq_true, if_false, List.length_nil, Nat.add_zero]
      refine ⟨?_, trivial⟩
      push_cast
      omega
    · have ih := ih (by omega) h
      simp only [hend, Bool.not_false, if_true, List.length_cons]
      rw [show i + 1 + ((List.range' (i + 1) count).takeWhile fun i => !endsChunk config allTokenIds i).length + 1 =
        i + (((List.range' (i + 1) count).takeWhile fun i => !endsChunk config allTokenIds i).length + 1) + 1 by omega] at ih
      exact ih

end Split

section Tiles

variable {blockSize b : Nat} {chunk : ChunkMetaData BlockId} {chunks : List (ChunkMetaData BlockId)}
  {results : List Bool} {table : List Nat}

/-- A chunk with its hits and its part of the block table. -/
def withHits (results : List Bool) (table : List Nat) (chunk : ChunkMetaData BlockId) : ChunkMetaData BlockId :=
  (chunk.setStoreHits results).setVllmBlkIds table

theorem withHits_eq {len : Nat} (hstart : chunk.startBlkIdx = b) (hlen : chunk.chunkBlksLen = len) :
    withHits results table chunk =
      { chunk with storeHits := slice results b (b + len), vllmBlkIds := slice table b (b + len) } := by
  have hend : chunk.endBlkIdx = ((b + len : Nat) : Int) := by
    rw [ChunkMetaData.endBlkIdx, hstart, hlen, Nat.cast_add]
  have hkeep : (chunk.setStoreHits results).endBlkIdx = chunk.endBlkIdx := rfl
  rw [withHits, ChunkMetaData.setVllmBlkIds, hkeep, ChunkMetaData.setStoreHits, hend, hstart, intSlice_natCast,
    intSlice_natCast]

/-- The hits of chunks that tile some blocks are the hits of these blocks. -/
theorem hits_withHits (h : Tiles blockSize b chunks)
    (hresults : b + (chunks.flatMap ChunkMetaData.chunkBlksHash).length ≤ results.length)
    (htable : b + (chunks.flatMap ChunkMetaData.chunkBlksHash).length ≤ table.length) :
    let hashes := chunks.flatMap ChunkMetaData.chunkBlksHash
    (chunks.map (withHits results table)).flatMap ChunkMetaData.hitsChunkBlksHash =
        compress hashes (slice results b (b + hashes.length)) ∧
      (chunks.map (withHits results table)).flatMap ChunkMetaData.hitsVllmBlkIds =
        compress (slice table b (b + hashes.length)) (slice results b (b + hashes.length)) := by
  induction chunks generalizing b with
  | nil => exact ⟨rfl, by rw [List.flatMap_nil, List.length_nil, Nat.add_zero, slice_self]; rfl⟩
  | cons chunk chunks ih =>
    obtain ⟨len, -, hstart, hlen, -, hhash, htiles⟩ := h
    rw [List.flatMap_cons, List.length_append, hhash, ← Nat.add_assoc] at hresults htable
    have hrlen : (slice results b (b + len)).length = len := by
      rw [length_slice (by omega)]
      omega
    have htlen : (slice table b (b + len)).length = len := by
      rw [length_slice (by omega)]
      omega
    obtain ⟨hids, hblocks⟩ := ih htiles hresults htable
    dsimp only
    rw [List.flatMap_cons, List.length_append, hhash, ← Nat.add_assoc, List.map_cons, List.flatMap_cons, List.flatMap_cons,
      hids, hblocks, withHits_eq hstart hlen]
    set stop := b + len + (chunks.flatMap ChunkMetaData.chunkBlksHash).length
    have hrs : slice results b stop = slice results b (b + len) ++ slice results (b + len) stop :=
      (slice_append_slice (Nat.le_add_right _ _) (Nat.le_add_right _ _)).symm
    have hts : slice table b stop = slice table b (b + len) ++ slice table (b + len) stop :=
      (slice_append_slice (Nat.le_add_right _ _) (Nat.le_add_right _ _)).symm
    rw [hrs, hts, compress_append (hhash.trans hrlen.symm), compress_append (htlen.trans hrlen.symm)]
    exact ⟨rfl, rfl⟩

theorem updateMetaPartialPc_eq (chunk : ChunkMetaData BlockId) (numPcPartBlks : Nat) :
    chunk.updateMetaPartialPc numPcPartBlks blockSize =
      { chunk with
        startTokenDix := chunk.startTokenDix + numPcPartBlks * blockSize
        chunkTokensLen := chunk.chunkTokensLen - numPcPartBlks * blockSize
        startBlkIdx := chunk.startBlkIdx + numPcPartBlks
        chunkBlksLen := chunk.chunkBlksLen - numPcPartBlks
        chunkBlksHash := chunk.chunkBlksHash.drop numPcPartBlks
        storeHits := chunk.storeHits.drop numPcPartBlks
        cachedStartPosition := chunk.cachedStartPosition + numPcPartBlks * blockSize } := by
  rw [ChunkMetaData.updateMetaPartialPc]
  split_ifs with hpc
  · rfl
  · obtain rfl : numPcPartBlks = 0 := Nat.eq_zero_of_not_pos hpc
    simp only [Nat.cast_zero, zero_mul, add_zero, sub_zero, List.drop_zero]

/-- The hits of the first chunk, with the prefix hits taken off. -/
theorem hits_firstChunk {len pcHitBlocks : Nat} (hstart : chunk.startBlkIdx = 0) (hlen : chunk.chunkBlksLen = len) :
    let first := ((chunk.setStoreHits results).updateMetaPartialPc pcHitBlocks blockSize).setVllmBlkIds table
    first.hitsChunkBlksHash = compress (chunk.chunkBlksHash.drop pcHitBlocks) (slice results pcHitBlocks len) ∧
      first.hitsVllmBlkIds = compress (slice table pcHitBlocks len) (slice results pcHitBlocks len) := by
  have hzero : (0 : Int) = ((0 : Nat) : Int) := rfl
  have hstop : (pcHitBlocks : Int) + (len - pcHitBlocks) = ((len : Nat) : Int) := by omega
  simp only [updateMetaPartialPc_eq, ChunkMetaData.setStoreHits, ChunkMetaData.setVllmBlkIds,
    ChunkMetaData.hitsChunkBlksHash, ChunkMetaData.hitsVllmBlkIds, ChunkMetaData.endBlkIdx, hstart, hlen, zero_add, hstop]
  rw [hzero, intSlice_natCast, intSlice_natCast, drop_slice, Nat.zero_add]
  exact ⟨rfl, rfl⟩

/-- The hits of all chunks, once the prefix hits are taken off the first. -/
theorem hits_updateFirstChunk {len pcHitBlocks : Nat} (hpos : 0 < blockSize) (htiles : Tiles blockSize 0 (chunk :: chunks))
    (hlen : chunk.chunkBlksLen = len)
    (hresults : ((chunk :: chunks).flatMap ChunkMetaData.chunkBlksHash).length ≤ results.length)
    (htable : ((chunk :: chunks).flatMap ChunkMetaData.chunkBlksHash).length ≤ table.length) :
    let stop := ((chunk :: chunks).flatMap ChunkMetaData.chunkBlksHash).length
    let found := (updateFirstChunk blockSize pcHitBlocks ((chunk :: chunks).map fun chunk => chunk.setStoreHits results)).map
      fun chunk => chunk.setVllmBlkIds table
    found.flatMap ChunkMetaData.hitsChunkBlksHash =
        compress (chunk.chunkBlksHash.drop pcHitBlocks) (slice results pcHitBlocks len) ++
          compress (chunks.flatMap ChunkMetaData.chunkBlksHash) (slice results len stop) ∧
      found.flatMap ChunkMetaData.hitsVllmBlkIds =
        compress (slice table pcHitBlocks len) (slice results pcHitBlocks len) ++
          compress (slice table len stop) (slice results len stop) := by
  obtain ⟨len', -, hstart, hlen', htokens, hhash, hothers⟩ := htiles
  obtain rfl : len' = len := by
    rw [hlen'] at hlen
    exact Nat.cast_injective hlen
  have hstop : ((chunk :: chunks).flatMap ChunkMetaData.chunkBlksHash).length =
      len' + (chunks.flatMap ChunkMetaData.chunkBlksHash).length := by
    rw [List.flatMap_cons, List.length_append, hhash]
  rw [hstop] at hresults htable
  rw [Nat.zero_add] at hothers
  obtain ⟨hids, hblocks⟩ := hits_withHits hothers hresults htable
  have hfirst := @hits_firstChunk BlockId blockSize chunk results table len' pcHitBlocks hstart hlen'
  have hkeep : (chunks.map fun chunk => chunk.setStoreHits results).map (fun chunk => chunk.setVllmBlkIds table) =
      chunks.map (withHits results table) := by
    rw [List.map_map]
    rfl
  dsimp only at hids hblocks hfirst ⊢
  rw [hstop, List.map_cons, updateFirstChunk]
  split_ifs with hall
  · have hempty : pcHitBlocks = len' := by
      rw [updateMetaPartialPc_eq] at hall
      have htokens' : (chunk.setStoreHits results).chunkTokensLen = len' * blockSize := htokens
      rw [htokens', ← sub_mul, mul_eq_zero] at hall
      omega
    rw [hkeep, hids, hblocks, hempty, slice_self, slice_self, compress_nil_right, compress_nil_left, List.nil_append,
      List.nil_append]
    exact ⟨rfl, rfl⟩
  · rw [List.map_cons, List.flatMap_cons, List.flatMap_cons, hkeep, hids, hblocks, hfirst.1, hfirst.2]
    exact ⟨rfl, rfl⟩

end Tiles

/-- What a request may load: what was found, each block once, and all that is reported as computed. -/
structure LoadsFound (prefixHashes chunkHashes : List BlockId) (pcResults chunkResults : List Bool) (table : List Nat)
    (load : List BlockId × List Nat) : Prop where
  length_eq : load.1.length = load.2.length
  nodup : load.2.Nodup
  found : ∀ pair ∈ load.1.zip load.2, ∃ j : Nat, table[j]? = some pair.2 ∧
    (prefixHashes[j]? = some pair.1 ∧ pcResults[j]? = some true ∨
      chunkHashes[j]? = some pair.1 ∧ firstHits pcResults ≤ j ∧
        chunkResults[j - firstHits pcResults]? = some true)
  computed : ∀ j < firstHits pcResults, ∃ ucmBlockId vllmBlockId, prefixHashes[j]? = some ucmBlockId ∧
    table[j]? = some vllmBlockId ∧ (ucmBlockId, vllmBlockId) ∈ load.1.zip load.2

theorem firstHits_le (results : List Bool) : firstHits results ≤ results.length :=
  (List.takeWhile_sublist _).length_le

theorem getElem?_of_lt_firstHits {results : List Bool} {j : Nat} (h : j < firstHits results) : results[j]? = some true := by
  induction results generalizing j with
  | nil => exact absurd h (Nat.not_lt_zero j)
  | cons hit results ih =>
    cases hit with
    | false => exact absurd h (Nat.not_lt_zero j)
    | true =>
      cases j with
      | zero => rfl
      | succ j => exact ih (Nat.lt_of_succ_lt_succ h)

section Loads

variable {prefixHashes chunkHashes : List BlockId} {pcResults chunkResults selected : List Bool} {table : List Nat}

/-- The prefix hits with what is selected of the chunks beyond them. -/
theorem loadsFound_append (hpc : firstHits pcResults ≤ prefixHashes.length) (hpre : prefixHashes.length ≤ table.length)
    (hchunks : chunkHashes.length ≤ table.length) (hnodup : table.Nodup)
    (hselected : ∀ i : Nat, selected[i]? = some true → chunkResults[i]? = some true) :
    LoadsFound prefixHashes chunkHashes pcResults chunkResults table
      (prefixHashes.take (firstHits pcResults) ++ compress (chunkHashes.drop (firstHits pcResults)) selected,
        table.take (firstHits pcResults) ++
          compress (slice table (firstHits pcResults) chunkHashes.length) selected) := by
  set P := firstHits pcResults with hP
  have htake : (prefixHashes.take P).length = (table.take P).length := by
    rw [List.length_take, List.length_take]
    omega
  have hdrop : (chunkHashes.drop P).length = (slice table P chunkHashes.length).length := by
    rw [List.length_drop, length_slice hchunks]
  have hzip : (prefixHashes.take P ++ compress (chunkHashes.drop P) selected).zip
      (table.take P ++ compress (slice table P chunkHashes.length) selected) =
        (prefixHashes.take P).zip (table.take P) ++
          compress ((chunkHashes.drop P).zip (slice table P chunkHashes.length)) selected := by
    rw [List.zip_append htake, zip_compress hdrop]
  refine ⟨?_, ?_, ?_, ?_⟩
  · rw [List.length_append, List.length_append, htake, length_compress hdrop]
  · have hsub : (table.take P ++ compress (slice table P chunkHashes.length) selected).Sublist
        (table.take P ++ table.drop P) :=
      (List.Sublist.refl _).append (compress_sublist.trans (List.take_sublist _ _))
    rw [List.take_append_drop] at hsub
    exact hnodup.sublist hsub
  · rintro ⟨ucmBlockId, vllmBlockId⟩ hpair
    rw [hzip, List.mem_append] at hpair
    obtain hpair | hpair := hpair
    · obtain ⟨j, hj⟩ := List.mem_iff_getElem?.mp hpair
      obtain ⟨hid, hblock⟩ := List.getElem?_zip_eq_some.mp hj
      have hlt : j < P := by
        by_contra hnot
        rw [List.getElem?_take_eq_none (by omega)] at hid
        cases hid
      rw [List.getElem?_take_of_lt hlt] at hid hblock
      exact ⟨j, hblock, .inl ⟨hid, getElem?_of_lt_firstHits hlt⟩⟩
    · obtain ⟨i, hi, hsel⟩ := mem_compress.mp hpair
      obtain ⟨hid, hblock⟩ := List.getElem?_zip_eq_some.mp hi
      rw [List.getElem?_drop] at hid
      rw [getElem?_slice] at hblock
      split_ifs at hblock
      refine ⟨P + i, hblock, .inr ⟨hid, Nat.le_add_right _ _, ?_⟩⟩
      rw [Nat.add_sub_cancel_left]
      exact hselected i hsel
  · intro j hj
    have hid : prefixHashes[j]? = some (prefixHashes.get ⟨j, by omega⟩) := List.getElem?_eq_getElem _
    have hblock : table[j]? = some (table.get ⟨j, by omega⟩) := List.getElem?_eq_getElem _
    refine ⟨_, _, hid, hblock, ?_⟩
    rw [hzip, List.mem_append]
    left
    refine List.mem_iff_getElem?.mpr ⟨j, List.getElem?_zip_eq_some.mpr ⟨?_, ?_⟩⟩
    · rw [List.getElem?_take_of_lt hj]
      exact hid
    · rw [List.getElem?_take_of_lt hj]
      exact hblock

end Loads

section ProcessReq

variable [DecidableEq Token] (config : BlendConfig Token BlockId) (allTokenIds : List Token)

def prefixHashes : List BlockId := generateHash config.toConfig allTokenIds config.seed

/-- The chunk hash of each block that is in a chunk. -/
def chunkHashes : List BlockId := (processReq config allTokenIds).2.2.2

variable {config allTokenIds}

omit [DecidableEq Token] in
theorem length_prefixHashes : (prefixHashes config allTokenIds).length = allTokenIds.length / config.blockSize :=
  length_generateHash _ _ _

/-- Without a blend there are no chunks. -/
theorem processReq_of_ne (h : (processReq config allTokenIds).1 ≠ .cacheBlend) : chunkHashes config allTokenIds = [] := by
  rw [chunkHashes]
  rw [processReq] at h ⊢
  dsimp only at h ⊢
  split_ifs at h ⊢ with hbuild hempty
  · rfl
  · obtain ⟨-, hhashes, -⟩ := @tiles_splitChunks Token BlockId _ config allTokenIds 0 0
      (allTokenIds.length / config.blockSize) (le_refl 0) (by omega)
    rw [Nat.zero_mul, ← blockEnds_eq] at hhashes
    rw [hhashes, List.isEmpty_iff.mp hempty, List.flatMap_nil]
  · exact absurd rfl h

/-- With a blend the chunks tile the first blocks, and the first has the hashes of the prefix. -/
theorem processReq_of_eq (h : (processReq config allTokenIds).1 = .cacheBlend) :
    ∃ chunk chunks, (processReq config allTokenIds).2.2.1 = chunk :: chunks ∧
      Tiles config.blockSize 0 (chunk :: chunks) ∧
      chunkHashes config allTokenIds = (chunk :: chunks).flatMap ChunkMetaData.chunkBlksHash ∧
      (chunkHashes config allTokenIds).length ≤ allTokenIds.length / config.blockSize ∧
      chunk.chunkBlksLen = firstChunkLen config allTokenIds ∧
      chunk.chunkBlksHash = (prefixHashes config allTokenIds).take (firstChunkLen config allTokenIds) := by
  have hsplit : (processReq config allTokenIds).2.2 = splitChunks config allTokenIds 0 0 (blockEnds config allTokenIds) ∧
      (splitChunks config allTokenIds 0 0 (blockEnds config allTokenIds)).1 ≠ [] := by
    rw [processReq] at h ⊢
    dsimp only at h ⊢
    split_ifs at h ⊢ with hbuild hempty
    exact ⟨rfl, fun hnil => hempty (List.isEmpty_iff.mpr hnil)⟩
  obtain ⟨hsplit, hne⟩ := hsplit
  rw [chunkHashes, hsplit]
  rw [blockEnds_eq] at hne ⊢
  obtain ⟨htiles, hhashes, hle⟩ := @tiles_splitChunks Token BlockId _ config allTokenIds 0 0
    (allTokenIds.length / config.blockSize) (le_refl 0) (by omega)
  rw [Nat.zero_mul] at htiles hhashes hle
  obtain ⟨chunk, chunks, hchunks⟩ := List.exists_cons_of_ne_nil hne
  have hfirst := @splitChunks_first Token BlockId _ config allTokenIds 0 0 (allTokenIds.length / config.blockSize) chunk chunks
    (le_refl 0) (by rw [Nat.zero_mul]; exact hchunks)
  dsimp only at hfirst
  rw [Nat.zero_add, ← List.range_eq_range'] at hfirst
  obtain ⟨hlen, hhash⟩ := hfirst
  rw [hchunks] at htiles hhashes
  refine ⟨chunk, chunks, hchunks, htiles, hhashes, by omega, ?_, ?_⟩
  · rw [hlen, firstChunkLen, Nat.cast_zero, sub_zero]
  · obtain ⟨len, -, -, hlen', -, hlength, -⟩ := htiles
    have hcount : firstChunkLen config allTokenIds ≤ allTokenIds.length / config.blockSize := by
      rw [hhashes, List.flatMap_cons, List.length_append] at hle
      rw [hlen'] at hlen
      rw [firstChunkLen]
      omega
    rw [hhash, Nat.zero_mul, slice_zero]
    exact generateHash_take config.toConfig allTokenIds config.seed hcount

end ProcessReq

/-- The result vectors of a lookup that does not raise. -/
abbrev Results (BlockId : Type*) := (keys : List BlockId) → { results : List Bool // results.length = keys.length }

section Matched

variable [DecidableEq Token] (config : BlendConfig Token BlockId) (allTokenIds : List Token)
  (pcFound chunkFound : Results BlockId)

def pcResults : List Bool := (pcFound (prefixHashes config allTokenIds)).val

def chunkResults : List Bool :=
  (chunkFound ((chunkHashes config allTokenIds).drop (firstHits (pcResults config allTokenIds pcFound)))).val

/-- There is a blend, and the prefix hits end beyond the first chunk. -/
def Overlaps : Prop :=
  minBlendThreshold ≤ (chunkResults config allTokenIds pcFound chunkFound).count true ∧
    firstChunkLen config allTokenIds < firstHits (pcResults config allTokenIds pcFound)

instance : Decidable (Overlaps config allTokenIds pcFound chunkFound) := inferInstanceAs (Decidable (_ ∧ _))

/-- The data that a match leaves for a request of at least one block. -/
def matchedMeta : BlendRequestMeta BlockId :=
  let pcHitBlocks := firstHits (pcResults config allTokenIds pcFound)
  if minBlendThreshold ≤ (chunkResults config allTokenIds pcFound chunkFound).count true then
    { ucmBlockHashs := chunkHashes config allTokenIds
      pcHitBlockNum := pcHitBlocks
      chunksMeta := updateFirstChunk config.blockSize pcHitBlocks
        ((processReq config allTokenIds).2.2.1.map fun chunk => chunk.setStoreHits
          ((pcResults config allTokenIds pcFound).take pcHitBlocks ++ chunkResults config allTokenIds pcFound chunkFound))
      blendStage := .cacheBlend }
  else
    { ucmBlockHashs := prefixHashes config allTokenIds
      pcHitBlockNum := pcHitBlocks
      chunksMeta := []
      blendStage := .buildPrefixCache }

variable {config allTokenIds pcFound chunkFound}

theorem length_chunkResults : (chunkResults config allTokenIds pcFound chunkFound).length =
    (chunkHashes config allTokenIds).length - firstHits (pcResults config allTokenIds pcFound) := by
  rw [chunkResults, (chunkFound _).property, List.length_drop]

/-- A blend takes some chunk hits. -/
theorem processReq_of_threshold (h : minBlendThreshold ≤ (chunkResults config allTokenIds pcFound chunkFound).count true) :
    (processReq config allTokenIds).1 = .cacheBlend := by
  by_contra hstage
  have hcount := (chunkResults config allTokenIds pcFound chunkFound).count_le_length (a := true)
  rw [length_chunkResults, processReq_of_ne hstage, List.length_nil, Nat.zero_sub] at hcount
  have hpos : 0 < minBlendThreshold := by decide
  omega

theorem getReqChunkHit_processReq (hstage : (processReq config allTokenIds).1 = .cacheBlend) :
    getReqChunkHit config.blockSize (fun keys => some (pcFound keys)) (fun keys => some (chunkFound keys))
        (processReq config allTokenIds).1 (prefixHashes config allTokenIds) (processReq config allTokenIds).2.2.1
        (chunkHashes config allTokenIds) =
      some (firstHits (pcResults config allTokenIds pcFound),
        (chunkResults config allTokenIds pcFound chunkFound).count true,
        updateFirstChunk config.blockSize (firstHits (pcResults config allTokenIds pcFound))
          ((processReq config allTokenIds).2.2.1.map fun chunk => chunk.setStoreHits
            ((pcResults config allTokenIds pcFound).take (firstHits (pcResults config allTokenIds pcFound)) ++
              chunkResults config allTokenIds pcFound chunkFound))) := by
  rw [getReqChunkHit, Option.bind_some, if_neg (not_not.mpr hstage), Option.map_some]
  rfl

theorem getReqChunkHit_of_ne (hstage : (processReq config allTokenIds).1 ≠ .cacheBlend) :
    getReqChunkHit config.blockSize (fun keys => some (pcFound keys)) (fun keys => some (chunkFound keys))
        (processReq config allTokenIds).1 (prefixHashes config allTokenIds) (processReq config allTokenIds).2.2.1
        (chunkHashes config allTokenIds) =
      some (firstHits (pcResults config allTokenIds pcFound), 0, (processReq config allTokenIds).2.2.1) := by
  rw [getReqChunkHit, Option.bind_some, if_pos hstage]
  rfl

variable [DecidableEq ReqId] {request : Request Token ReqId} {requestsBlendMeta : Dict ReqId (BlendRequestMeta BlockId)}

/-- A match leaves the data of the request, if it has a block, and else nothing. -/
theorem getNumNewMatchedTokens_eq : ∃ v : Int,
    getNumNewMatchedTokens (fun keys => some (pcFound keys)) (fun keys => some (chunkFound keys)) config requestsBlendMeta
        request 0 =
      some (v, if request.allTokenIds.length / config.blockSize = 0 then requestsBlendMeta
        else requestsBlendMeta.set request.requestId (matchedMeta config request.allTokenIds pcFound chunkFound)) := by
  rw [getNumNewMatchedTokens, if_neg (not_not.mpr rfl)]
  dsimp only
  by_cases hblocks : request.allTokenIds.length / config.blockSize = 0
  · rw [if_pos hblocks, if_pos hblocks]
    exact ⟨0, rfl⟩
  · rw [if_neg hblocks, if_neg hblocks]
    have hpre : (processReq config request.allTokenIds).2.1 = prefixHashes config request.allTokenIds := by
      rw [processReq]
      dsimp only
      split_ifs <;> rfl
    have hhashes : (processReq config request.allTokenIds).2.2.2 = chunkHashes config request.allTokenIds := rfl
    rw [hpre, hhashes, matchedMeta]
    by_cases hstage : (processReq config request.allTokenIds).1 = .cacheBlend
    · rw [getReqChunkHit_processReq hstage, Option.map_some]
      dsimp only
      by_cases hhits : minBlendThreshold ≤ (chunkResults config request.allTokenIds pcFound chunkFound).count true
      · rw [if_neg (not_lt.mpr hhits), if_pos hhits]
        dsimp only
        rw [if_pos hstage, hstage]
        exact ⟨_, rfl⟩
      · rw [if_pos (not_le.mp hhits), if_neg hhits]
        exact ⟨_, rfl⟩
    · have hhits : ¬ minBlendThreshold ≤ (chunkResults config request.allTokenIds pcFound chunkFound).count true :=
        fun hle => hstage (processReq_of_threshold hle)
      rw [getReqChunkHit_of_ne hstage, Option.map_some, if_neg hhits]
      exact ⟨_, rfl⟩

end Matched

section Dispatch

variable [DecidableEq Token] {config : BlendConfig Token BlockId} {allTokenIds : List Token}
  {pcFound chunkFound : Results BlockId} {table : List Nat}

theorem firstHits_pcResults_le : firstHits (pcResults config allTokenIds pcFound) ≤ (prefixHashes config allTokenIds).length := by
  have hle := firstHits_le (pcResults config allTokenIds pcFound)
  rw [pcResults, (pcFound _).property] at hle
  exact hle

theorem loadsFound_of_prefix (hnodup : table.Nodup) (hfull : allTokenIds.length / config.blockSize ≤ table.length)
    (hhits : ¬ minBlendThreshold ≤ (chunkResults config allTokenIds pcFound chunkFound).count true) :
    LoadsFound (prefixHashes config allTokenIds) (chunkHashes config allTokenIds) (pcResults config allTokenIds pcFound)
      (chunkResults config allTokenIds pcFound chunkFound) table
      (generateBlendDispatchMeta (matchedMeta config allTokenIds pcFound chunkFound) table).1.loadBlockIds := by
  have hchunks : (chunkHashes config allTokenIds).length ≤ table.length := by
    by_cases hstage : (processReq config allTokenIds).1 = .cacheBlend
    · obtain ⟨_, _, -, -, -, hle, -⟩ := processReq_of_eq hstage
      exact hle.trans hfull
    · rw [processReq_of_ne hstage]
      exact Nat.zero_le _
  have hfound := @loadsFound_append BlockId (prefixHashes config allTokenIds) (chunkHashes config allTokenIds)
    (pcResults config allTokenIds pcFound) (chunkResults config allTokenIds pcFound chunkFound) [] table
    firstHits_pcResults_le (length_prefixHashes.trans_le hfull) hchunks hnodup (fun i hi => by cases hi)
  rw [compress_nil_right, compress_nil_right, List.append_nil, List.append_nil] at hfound
  rw [matchedMeta, if_neg hhits, generateBlendDispatchMeta]
  exact hfound

/-- What a blend loads beyond the prefix hits. -/
theorem loadBlockIds_of_blend (hfull : allTokenIds.length / config.blockSize ≤ table.length)
    (hhits : minBlendThreshold ≤ (chunkResults config allTokenIds pcFound chunkFound).count true) :
    let len := firstChunkLen config allTokenIds
    let pcHitBlocks := firstHits (pcResults config allTokenIds pcFound)
    let hashes := chunkHashes config allTokenIds
    let results := (pcResults config allTokenIds pcFound).take pcHitBlocks ++
      chunkResults config allTokenIds pcFound chunkFound
    (generateBlendDispatchMeta (matchedMeta config allTokenIds pcFound chunkFound) table).1.loadBlockIds =
      (hashes.take pcHitBlocks ++ (compress ((hashes.take len).drop pcHitBlocks) (slice results pcHitBlocks len) ++
          compress (hashes.drop len) (slice results len hashes.length)),
        table.take pcHitBlocks ++ (compress (slice table pcHitBlocks len) (slice results pcHitBlocks len) ++
          compress (slice table len hashes.length) (slice results len hashes.length))) ∧
      hashes.take len = (prefixHashes config allTokenIds).take len ∧ len ≤ hashes.length ∧ hashes.length ≤ table.length := by
  obtain ⟨chunk, chunks, hmeta, htiles, hhashes, hle, hlen, hhash⟩ := processReq_of_eq (processReq_of_threshold hhits)
  have hclen : chunk.chunkBlksHash.length = firstChunkLen config allTokenIds := by
    obtain ⟨len, -, -, hlen', -, hlength, -⟩ := htiles
    rw [hlen'] at hlen
    rw [hlength]
    exact Nat.cast_injective hlen
  have htake : (chunkHashes config allTokenIds).take (firstChunkLen config allTokenIds) = chunk.chunkBlksHash := by
    rw [hhashes, List.flatMap_cons, ← hclen, List.take_left]
  have hdrop : (chunkHashes config allTokenIds).drop (firstChunkLen config allTokenIds) =
      chunks.flatMap ChunkMetaData.chunkBlksHash := by
    rw [hhashes, List.flatMap_cons, ← hclen, List.drop_left]
  have hlength : (chunkHashes config allTokenIds).length ≤
      ((pcResults config allTokenIds pcFound).take (firstHits (pcResults config allTokenIds pcFound)) ++
        chunkResults config allTokenIds pcFound chunkFound).length := by
    rw [List.length_append, List.length_take, Nat.min_eq_left (firstHits_le _), length_chunkResults]
    omega
  rw [hhashes] at hle hlength
  have hfound := @hits_updateFirstChunk BlockId config.blockSize chunk chunks _ table _
    (firstHits (pcResults config allTokenIds pcFound)) config.blockSize_pos htiles hlen hlength (hle.trans hfull)
  rw [← hhashes] at hle
  dsimp only at hfound ⊢
  refine ⟨?_, htake.trans hhash, ?_, hle.trans hfull⟩
  · rw [matchedMeta, if_pos hhits, generateBlendDispatchMeta]
    dsimp only
    rw [if_pos rfl, hmeta, htake, hdrop, hhashes]
    exact congrArg₂ (fun ids blocks => (_ ++ ids, _ ++ blocks)) hfound.1 hfound.2
  · rw [hhashes, List.flatMap_cons, List.length_append, hclen]
    exact Nat.le_add_right _ _

theorem loadsFound_of_blend (hnodup : table.Nodup) (hfull : allTokenIds.length / config.blockSize ≤ table.length)
    (hhits : minBlendThreshold ≤ (chunkResults config allTokenIds pcFound chunkFound).count true)
    (hfirst : firstHits (pcResults config allTokenIds pcFound) ≤ firstChunkLen config allTokenIds) :
    LoadsFound (prefixHashes config allTokenIds) (chunkHashes config allTokenIds) (pcResults config allTokenIds pcFound)
      (chunkResults config allTokenIds pcFound chunkFound) table
      (generateBlendDispatchMeta (matchedMeta config allTokenIds pcFound chunkFound) table).1.loadBlockIds := by
  obtain ⟨hloads, hpre, hlen, hle⟩ := loadBlockIds_of_blend hfull hhits
  have hlength := @length_chunkResults Token BlockId _ config allTokenIds pcFound chunkFound
  set P := firstHits (pcResults config allTokenIds pcFound)
  set L := firstChunkLen config allTokenIds
  set hashes := chunkHashes config allTokenIds
  set found := chunkResults config allTokenIds pcFound chunkFound
  have hpc : ((pcResults config allTokenIds pcFound).take P).length = P := by
    rw [List.length_take, Nat.min_eq_left (firstHits_le _)]
  have hfits : hashes.length ≤ ((pcResults config allTokenIds pcFound).take P ++ found).length := by
    rw [List.length_append, hpc, hlength]
    omega
  -- Beyond the prefix hits the results are those of the chunk lookup.
  have hresults : slice ((pcResults config allTokenIds pcFound).take P ++ found) P hashes.length = found := by
    have hstop : hashes.length = ((pcResults config allTokenIds pcFound).take P ++ found).length := by
      rw [List.length_append, hpc, hlength]
      omega
    rw [hstop, slice_length]
    exact List.drop_left' hpc
  have hids : compress ((hashes.take L).drop P) (slice ((pcResults config allTokenIds pcFound).take P ++ found) P L) ++
      compress (hashes.drop L) (slice ((pcResults config allTokenIds pcFound).take P ++ found) L hashes.length) =
        compress (hashes.drop P) found := by
    have hslice : (hashes.take L).drop P = slice hashes P L := List.drop_take
    rw [hslice, ← slice_length hashes, ← slice_length hashes, compress_slice_append hfirst hlen (le_refl _) hfits, hresults]
  have hblocks := compress_slice_append hfirst hlen hle hfits
  rw [hresults] at hblocks
  have htake : hashes.take P = (prefixHashes config allTokenIds).take P := by
    have hcut := congrArg (List.take P) hpre
    rw [List.take_take, List.take_take, Nat.min_eq_left hfirst] at hcut
    exact hcut
  rw [hloads, hids, hblocks, htake]
  exact loadsFound_append firstHits_pcResults_le (length_prefixHashes.trans_le hfull) hle hnodup fun _ hi => hi

theorem not_nodup_of_overlaps (hfull : allTokenIds.length / config.blockSize ≤ table.length)
    (h : Overlaps config allTokenIds pcFound chunkFound) :
    ¬ (generateBlendDispatchMeta (matchedMeta config allTokenIds pcFound chunkFound) table).1.loadBlockIds.2.Nodup := by
  obtain ⟨hhits, hover⟩ := h
  obtain ⟨hloads, -, hlen, hle⟩ := loadBlockIds_of_blend hfull hhits
  have hcount := (chunkResults config allTokenIds pcFound chunkFound).count_le_length (a := true)
  have hpos : 0 < minBlendThreshold := by decide
  rw [length_chunkResults] at hcount
  set P := firstHits (pcResults config allTokenIds pcFound)
  set L := firstChunkLen config allTokenIds
  set hashes := chunkHashes config allTokenIds
  set results := (pcResults config allTokenIds pcFound).take P ++ chunkResults config allTokenIds pcFound chunkFound
  have hlt : L < table.length := by omega
  have hblock : table[L]? = some table[L] := List.getElem?_eq_getElem hlt
  -- The block after the first chunk is there with the prefix.
  have hpre : table[L] ∈ table.take P := by
    refine List.mem_iff_getElem?.mpr ⟨L, ?_⟩
    rw [List.getElem?_take_of_lt hover]
    exact hblock
  -- It is there with the second chunk too, for which the prefix hit counts as a hit.
  have hchunk : table[L] ∈ compress (slice table L hashes.length) (slice results L hashes.length) := by
    have hresult : results[L]? = some true := by
      rw [List.getElem?_append_left (by rw [List.length_take, Nat.min_eq_left (firstHits_le _)]; exact hover),
        List.getElem?_take_of_lt hover]
      exact getElem?_of_lt_firstHits hover
    refine mem_compress.mpr ⟨0, ?_, ?_⟩
    · rw [getElem?_slice, if_pos (by omega), Nat.add_zero]
      exact hblock
    · rw [getElem?_slice, if_pos (by omega), Nat.add_zero]
      exact hresult
  intro hnodup
  rw [hloads] at hnodup
  exact List.disjoint_of_nodup_append hnodup hpre (List.mem_append_right _ hchunk)

/-- With a full block table of distinct blocks, only an overlap goes wrong. -/
theorem loadsFound_dispatch_iff (hnodup : table.Nodup) (hfull : allTokenIds.length / config.blockSize ≤ table.length) :
    LoadsFound (prefixHashes config allTokenIds) (chunkHashes config allTokenIds) (pcResults config allTokenIds pcFound)
        (chunkResults config allTokenIds pcFound chunkFound) table
        (generateBlendDispatchMeta (matchedMeta config allTokenIds pcFound chunkFound) table).1.loadBlockIds ↔
      ¬ Overlaps config allTokenIds pcFound chunkFound := by
  constructor
  · intro hfound hover
    exact not_nodup_of_overlaps hfull hover hfound.nodup
  · intro hnot
    by_cases hhits : minBlendThreshold ≤ (chunkResults config allTokenIds pcFound chunkFound).count true
    · exact loadsFound_of_blend hnodup hfull hhits (not_lt.mp fun hlt => hnot ⟨hhits, hlt⟩)
    · exact loadsFound_of_prefix hnodup hfull hhits

end Dispatch

end UnifiedCache.Connector.Blend
