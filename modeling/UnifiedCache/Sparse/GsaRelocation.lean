import UnifiedCache.Lib.Collections
import UnifiedCache.Lib.Relocation
import UnifiedCache.Sparse.GsaConfig

/-! GSA's switch to the sparse block set at the end of a prompt: the chosen blocks are moved to the
blocks that the request keeps. A block is its number in the KV cache, and a layer of the cache the
content of each block. -/

namespace UnifiedCache.Sparse.GSA

abbrev Block := Nat

section MvMap

variable (blocks : List Block) (remainIdxs : List Nat)

/-- The first loop: what `new_block` is, where the block is to stay. -/
def stayingBlocks (topkValues : List Nat) : Option (List (Option Block)) :=
  topkValues.mapM fun idx => if idx ∈ remainIdxs then (blocks[idx]?).map some else some none

/-- The third loop, with `new_block` and `mv_map`. It fails where `free_block` is empty. -/
def fillBlocks : List Nat → List (Option Block) → List Nat → Dict Block Block → Option (List Block × Dict Block Block)
  | idx :: topkValues, none :: newBlock, freeBlock, mvMap =>
    match freeBlock with
    | [] => none
    | oneFreeIdx :: freeBlock => do
      let target ← blocks[oneFreeIdx]?
      let source ← blocks[idx]?
      let (newBlock, mvMap) ← fillBlocks topkValues newBlock freeBlock (mvMap.set source target)
      return (target :: newBlock, mvMap)
  | _ :: topkValues, some block :: newBlock, freeBlock, mvMap => do
    let (newBlock, mvMap) ← fillBlocks topkValues newBlock freeBlock mvMap
    return (block :: newBlock, mvMap)
  | _, _, _, mvMap => some ([], mvMap)

structure MvMap where
  mvMap : Dict Block Block
  remainMap : Dict Nat Block
  prefetchMap : Dict Nat Block

def getMvMap (topkValues : List Nat) (remainLen : Nat) : Option MvMap := do
  let hitBlock := topkValues.filter (· ∈ remainIdxs)
  let freeBlock := remainIdxs.filter (· ∉ hitBlock)
  let newBlock ← stayingBlocks blocks remainIdxs topkValues
  let (newBlock, mvMap) ← fillBlocks blocks topkValues newBlock freeBlock Dict.empty
  let entries := topkValues.zip newBlock
  return {
    mvMap := mvMap
    remainMap := (entries.take remainLen).foldl (fun m e => m.set e.1 e.2) Dict.empty
    prefetchMap := (entries.drop remainLen).foldl (fun m e => m.set e.1 e.2) Dict.empty }

end MvMap

namespace GSAConfig

variable (config : GSAConfig)

/-- `remain_idx` of `kvcache_init_last_chunk`. -/
def remainIdx (blocksLen : Nat) : List Nat :=
  (List.range blocksLen).take config.initWindowsSize ++
    intSlice (List.range blocksLen)
      (config.initWindowsSize - config.computeTopkLen blocksLen - config.prefetchLen blocksLen : Int) blocksLen

/-- The layer after the copies, and the maps of the request. -/
def kvcacheInitLastChunk {Content : Type*} (blocks : List Block) (topkValue : List Nat) (layer : Block → Content) :
    Option (MvMap × (Block → Content)) :=
  let remainLen := config.computeTopkLen blocks.length
  let remainIdx := config.remainIdx blocks.length
  if remainIdx.length = topkValue.length then
    (getMvMap blocks remainIdx topkValue remainLen).map fun maps => (maps, Relocation.run maps.mvMap.items layer)
  else none

/-- The kept set has the number of blocks that the configuration gives. -/
def SelectsKept (n : Nat) : Prop :=
  (config.remainIdx n).length = config.computeTopkLen n + config.prefetchLen n ∧
    (config.remainIdx n).Nodup ∧ ∀ i ∈ config.remainIdx n, i < n

/-- The chosen blocks come to lie in the kept blocks, each where the maps of the request say. -/
def MovesBlocks (Content : Type*) (n : Nat) : Prop :=
  ∀ blocks topkValue : List Nat, blocks.length = n → blocks.Nodup → topkValue.Nodup → (∀ i ∈ topkValue, i < n) →
    topkValue.length = config.computeTopkLen n + config.prefetchLen n → ∀ layer : Block → Content,
      ∃ maps layer', config.kvcacheInitLastChunk blocks topkValue layer = some (maps, layer') ∧
        (maps.remainMap.items ++ maps.prefetchMap.items).map Prod.fst = topkValue ∧
        ((maps.remainMap.items ++ maps.prefetchMap.items).map Prod.snd).Perm
          ((config.remainIdx n).filterMap (blocks[·]?)) ∧
        maps.mvMap.items.Pairwise (fun p q => p.2 ≠ q.1) ∧
        ∀ e ∈ maps.remainMap.items ++ maps.prefetchMap.items, ∃ block, blocks[e.1]? = some block ∧ layer' e.2 = layer block

end GSAConfig

section RemainIdx

variable {n a b bs : Nat}

theorem take_append_drop_sublist (h : a ≤ b) : ((List.range n).take a ++ (List.range n).drop b).Sublist (List.range n) := by
  have hdrop : ((List.range n).drop a).drop (b - a) = (List.range n).drop b := by
    rw [List.drop_drop, Nat.add_sub_cancel' h]
  calc ((List.range n).take a ++ (List.range n).drop b).Sublist _ := by
        rw [← hdrop]
        exact (List.drop_sublist (b - a) ((List.range n).drop a)).append_left _
    _ = List.range n := List.take_append_drop a _

theorem intSlice_of_nonneg (xs : List Nat) {i : Int} (h : 0 ≤ i) : intSlice xs i xs.length = xs.drop i.toNat := by
  have hstart : intSlice.bound xs i = i.toNat := if_neg (by omega)
  have hstop : intSlice.bound xs xs.length = xs.length := if_neg (by omega)
  rw [intSlice, hstart, hstop, slice_length]

theorem intSlice_of_neg (xs : List Nat) {i : Int} (h : i < 0) : intSlice xs i xs.length = xs.drop (i + xs.length).toNat := by
  have hstart : intSlice.bound xs i = (i + xs.length).toNat := if_pos h
  have hstop : intSlice.bound xs xs.length = xs.length := if_neg (by omega)
  rw [intSlice, hstart, hstop, slice_length]

/-- Where the kept blocks are more than the init window, the slice counts from the end. -/
theorem remainIdx_eq (config : GSAConfig) (h : config.initWindowsSize < config.computeTopkLen n + config.prefetchLen n) :
    config.remainIdx n = (List.range n).take config.initWindowsSize ++
      (List.range n).drop (n + config.initWindowsSize - (config.computeTopkLen n + config.prefetchLen n)) := by
  have hle := kept_le config n
  have hslice := intSlice_of_neg (List.range n)
    (i := config.initWindowsSize - config.computeTopkLen n - config.prefetchLen n) (by omega)
  rw [List.length_range] at hslice
  rw [GSAConfig.remainIdx, hslice]
  congr 2
  omega

/-- The slice is only right when it counts from the end, or when it is empty. -/
theorem selectsKept_iff (hbs : 0 < bs) (n : Nat) :
    (setConfig bs).SelectsKept n ↔ 2 * n ≤ (setConfig bs).initWindowsSize ∨ (setConfig bs).initWindowsSize < n := by
  rcases Nat.lt_or_ge (setConfig bs).initWindowsSize n with hn | hn
  · have hle := kept_le (setConfig bs) n
    have hkept := (initWindowsSize_lt_kept hbs n).mpr hn
    have hsub := take_append_drop_sublist (n := n) (a := (setConfig bs).initWindowsSize)
      (b := n + (setConfig bs).initWindowsSize - ((setConfig bs).computeTopkLen n + (setConfig bs).prefetchLen n))
      (by omega)
    refine iff_of_true ⟨?_, ?_, ?_⟩ (.inr hn)
    · rw [remainIdx_eq _ hkept, List.length_append, List.length_take, List.length_drop, List.length_range]
      omega
    · rw [remainIdx_eq _ hkept]
      exact List.nodup_range.sublist hsub
    · intro i hi
      rw [remainIdx_eq _ hkept] at hi
      exact List.mem_range.mp (hsub.subset hi)
  · obtain ⟨htopk, hprefetch⟩ := kept_of_le_initWindowsSize hbs hn
    have hslice := intSlice_of_nonneg (List.range n)
      (i := (setConfig bs).initWindowsSize - (setConfig bs).computeTopkLen n - (setConfig bs).prefetchLen n) (by omega)
    rw [List.length_range] at hslice
    have hremain : (setConfig bs).remainIdx n =
        List.range n ++ (List.range n).drop ((setConfig bs).initWindowsSize - n) := by
      rw [GSAConfig.remainIdx, hslice, List.take_of_length_le (by rwa [List.length_range])]
      congr 2
      omega
    rw [GSAConfig.SelectsKept, htopk, hprefetch, hremain, List.length_append, List.length_drop, List.length_range]
    constructor
    · intro h
      omega
    · intro h
      have hnil : (List.range n).drop ((setConfig bs).initWindowsSize - n) = [] :=
        List.drop_eq_nil_of_le (by rw [List.length_range]; omega)
      rw [hnil, List.append_nil]
      exact ⟨by omega, List.nodup_range, fun i hi => List.mem_range.mp hi⟩

end RemainIdx

section Moves

variable {blocks : List Block} {remainIdxs topkValues freeBlock : List Nat} {mvMap : Dict Block Block} {n : Nat}

/-- The block of an index that there is. -/
def blockAt (blocks : List Block) (idx : Nat) : Block := blocks.getD idx 0

theorem getElem?_blockAt {idx : Nat} (h : idx < blocks.length) : blocks[idx]? = some (blockAt blocks idx) := by
  rw [blockAt, List.getD_eq_getElem _ _ h]
  exact List.getElem?_eq_getElem h

theorem blockAt_inj (hn : blocks.Nodup) {i j : Nat} (hi : i < blocks.length) (hj : j < blocks.length)
    (h : blockAt blocks i = blockAt blocks j) : i = j := by
  rw [blockAt, blockAt, List.getD_eq_getElem _ _ hi, List.getD_eq_getElem _ _ hj] at h
  exact (hn.getElem_inj_iff).mp h

theorem nodup_map_blockAt (hn : blocks.Nodup) {l : List Nat} (hl : l.Nodup) (hvalid : ∀ i ∈ l, i < blocks.length) :
    (l.map (blockAt blocks)).Nodup :=
  hl.map_on fun _ hi _ hj h => blockAt_inj hn (hvalid _ hi) (hvalid _ hj) h

/-- What `new_block` has at an index after the first loop. -/
def staying (blocks : List Block) (remainIdxs : List Nat) (idx : Nat) : Option Block :=
  if idx ∈ remainIdxs then some (blockAt blocks idx) else none

theorem stayingBlocks_eq (hvalid : ∀ i ∈ topkValues, i < blocks.length) :
    stayingBlocks blocks remainIdxs topkValues = some (topkValues.map (staying blocks remainIdxs)) := by
  induction topkValues with
  | nil => rfl
  | cons idx topkValues ih =>
    have hidx := getElem?_blockAt (hvalid idx List.mem_cons_self)
    have hrest := ih fun i hi => hvalid i (List.mem_cons_of_mem idx hi)
    rw [stayingBlocks] at hrest ⊢
    rw [List.mapM_cons, hrest, hidx, List.map_cons, staying]
    split_ifs <;> rfl

def misses (remainIdxs topkValues : List Nat) : List Nat := topkValues.filter (· ∉ remainIdxs)

def hits (remainIdxs topkValues : List Nat) : List Nat := topkValues.filter (· ∈ remainIdxs)

/-- The missing blocks go to the free blocks in turn. -/
theorem fillBlocks_spec (mvMap : Dict Block Block) (hvalid : ∀ i ∈ topkValues, i < blocks.length) (hfree : ∀ i ∈ freeBlock, i < blocks.length)
    (hlen : (misses remainIdxs topkValues).length ≤ freeBlock.length)
    (hkeys : (mvMap.items.map Prod.fst ++ (misses remainIdxs topkValues).map (blockAt blocks)).Nodup) :
    ∃ newBlock mvMap', fillBlocks blocks topkValues (topkValues.map (staying blocks remainIdxs)) freeBlock mvMap =
        some (newBlock, mvMap') ∧
      newBlock.length = topkValues.length ∧
      mvMap'.items = mvMap.items ++
        ((misses remainIdxs topkValues).zip freeBlock).map (Prod.map (blockAt blocks) (blockAt blocks)) ∧
      newBlock.Perm ((hits remainIdxs topkValues).map (blockAt blocks) ++
        (freeBlock.take (misses remainIdxs topkValues).length).map (blockAt blocks)) ∧
      ∀ e ∈ topkValues.zip newBlock, (e.1 ∈ remainIdxs ∧ e.2 = blockAt blocks e.1) ∨
        ∃ f, (e.1, f) ∈ (misses remainIdxs topkValues).zip freeBlock ∧ e.2 = blockAt blocks f := by
  induction topkValues generalizing freeBlock mvMap with
  | nil => exact ⟨[], mvMap, rfl, rfl, by simp [misses], by simp [misses, hits], fun e he => absurd he List.not_mem_nil⟩
  | cons idx topkValues ih =>
    have hvalid' := fun i hi => hvalid i (List.mem_cons_of_mem idx hi)
    by_cases hidx : idx ∈ remainIdxs
    · have hm : misses remainIdxs (idx :: topkValues) = misses remainIdxs topkValues :=
        List.filter_cons_of_neg (by simpa using hidx)
      have hh : hits remainIdxs (idx :: topkValues) = idx :: hits remainIdxs topkValues :=
        List.filter_cons_of_pos (by simpa using hidx)
      rw [hm] at hlen hkeys
      obtain ⟨newBlock, mvMap', hfill, hlength, hitems, hperm, hplaces⟩ := ih mvMap hvalid' hfree hlen hkeys
      refine ⟨blockAt blocks idx :: newBlock, mvMap', ?_, congrArg Nat.succ hlength, ?_, ?_, ?_⟩
      · rw [List.map_cons, staying, if_pos hidx, fillBlocks, hfill]
        rfl
      · rw [hm, hitems]
      · rw [hm, hh, List.map_cons, List.cons_append]
        exact hperm.cons _
      · intro e he
        rw [hm]
        rcases List.mem_cons.mp he with rfl | he
        · exact .inl ⟨hidx, rfl⟩
        · exact hplaces e he
    · have hm : misses remainIdxs (idx :: topkValues) = idx :: misses remainIdxs topkValues :=
        List.filter_cons_of_pos (by simpa using hidx)
      have hh : hits remainIdxs (idx :: topkValues) = hits remainIdxs topkValues :=
        List.filter_cons_of_neg (by simpa using hidx)
      rw [hm] at hlen hkeys
      cases freeBlock with
      | nil => cases hlen
      | cons f freeBlock =>
        have hsource := getElem?_blockAt (hvalid idx List.mem_cons_self)
        have htarget := getElem?_blockAt (hfree f List.mem_cons_self)
        have hnew : blockAt blocks idx ∉ mvMap.items.map Prod.fst := by
          intro hmem
          exact List.disjoint_of_nodup_append hkeys hmem List.mem_cons_self
        have hset := mvMap.items_set_of_notMem hnew (v := blockAt blocks f)
        have hkeys' : ((mvMap.set (blockAt blocks idx) (blockAt blocks f)).items.map Prod.fst ++
            (misses remainIdxs topkValues).map (blockAt blocks)).Nodup := by
          rw [hset, List.map_append, List.append_assoc]
          exact hkeys
        obtain ⟨newBlock, mvMap', hfill, hlength, hitems, hperm, hplaces⟩ :=
          ih _ hvalid' (fun i hi => hfree i (List.mem_cons_of_mem f hi)) (Nat.le_of_succ_le_succ hlen) hkeys'
        refine ⟨blockAt blocks f :: newBlock, mvMap', ?_, congrArg Nat.succ hlength, ?_, ?_, ?_⟩
        · rw [List.map_cons, staying, if_neg hidx, fillBlocks, htarget, hsource]
          dsimp only [Option.bind_eq_bind, Option.bind_some]
          rw [hfill]
          rfl
        · rw [hm, hitems, hset, List.append_assoc]
          rfl
        · rw [hm, hh, List.length_cons, List.take_succ_cons, List.map_cons]
          exact (hperm.cons _).trans List.perm_middle.symm
        · intro e he
          rw [hm, List.zip_cons_cons]
          rcases List.mem_cons.mp he with rfl | he
          · exact .inr ⟨f, List.mem_cons_self, rfl⟩
          · rcases hplaces e he with hstay | ⟨f', hf', he'⟩
            · exact .inl hstay
            · exact .inr ⟨f', List.mem_cons_of_mem _ hf', he'⟩

/-- The chosen blocks that stay and the free ones make up the kept set. -/
theorem hits_append_free_perm (htopk : topkValues.Nodup) (hremain : remainIdxs.Nodup) :
    (hits remainIdxs topkValues ++ remainIdxs.filter (· ∉ hits remainIdxs topkValues)).Perm remainIdxs := by
  have hsame : (remainIdxs.filter (· ∈ hits remainIdxs topkValues)).Perm (hits remainIdxs topkValues) := by
    apply (List.perm_ext_iff_of_nodup (hremain.filter _) (htopk.filter _)).mpr
    intro i
    simp only [hits, List.mem_filter, decide_eq_true_eq]
    exact ⟨And.right, fun h => ⟨h.2, h⟩⟩
  have hsplit := List.filter_append_perm (· ∈ hits remainIdxs topkValues) remainIdxs
  have hnot : remainIdxs.filter (fun i => !decide (i ∈ hits remainIdxs topkValues)) =
      remainIdxs.filter (· ∉ hits remainIdxs topkValues) := by
    simp only [decide_not]
  rw [hnot] at hsplit
  exact (hsame.symm.append_right _).trans hsplit

theorem length_hits_add_misses (remainIdxs topkValues : List Nat) : (hits remainIdxs topkValues).length + (misses remainIdxs topkValues).length = topkValues.length := by
  have hsplit := (List.filter_append_perm (· ∈ remainIdxs) topkValues).length_eq
  have hnot : topkValues.filter (fun i => !decide (i ∈ remainIdxs)) = misses remainIdxs topkValues := by
    simp only [misses, decide_not]
  rwa [hnot, List.length_append] at hsplit

theorem filterMap_getElem? {l : List Nat} (h : ∀ i ∈ l, i < blocks.length) :
    l.filterMap (blocks[·]?) = l.map (blockAt blocks) := by
  rw [← List.filterMap_eq_map]
  exact List.filterMap_congr fun i hi => getElem?_blockAt (h i hi)

/-- Every copy goes from a chosen block that is not kept to a kept block that is not chosen. -/
theorem mem_copies {p : Block × Block} {missing free : List Nat}
    (hp : p ∈ (missing.zip free).map (Prod.map (blockAt blocks) (blockAt blocks))) :
    ∃ i ∈ missing, ∃ f ∈ free, p = (blockAt blocks i, blockAt blocks f) := by
  obtain ⟨⟨i, f⟩, hmem, rfl⟩ := List.mem_map.mp hp
  obtain ⟨hi, hf⟩ := List.of_mem_zip hmem
  exact ⟨i, hi, f, hf, rfl⟩

theorem ordered_copies (hnodup : blocks.Nodup) {missing free : List Nat} (hlen : missing.length = free.length)
    (hmissing : ∀ i ∈ missing, i < blocks.length) (hfree : ∀ i ∈ free, i < blocks.length) (hn : free.Nodup)
    (hdisjoint : ∀ f ∈ free, f ∉ missing) :
    Relocation.Ordered ((missing.zip free).map (Prod.map (blockAt blocks) (blockAt blocks))) := by
  apply Relocation.ordered_of_disjoint
  · have htargets : ((missing.zip free).map (Prod.map (blockAt blocks) (blockAt blocks))).map Prod.snd =
        free.map (blockAt blocks) := by
      calc ((missing.zip free).map (Prod.map (blockAt blocks) (blockAt blocks))).map Prod.snd =
            ((missing.zip free).map Prod.snd).map (blockAt blocks) := by rw [List.map_map, List.map_map]; rfl
        _ = free.map (blockAt blocks) := by rw [List.map_snd_zip hlen.ge]
    rw [htargets]
    exact nodup_map_blockAt hnodup hn hfree
  · intro p hp q hq he
    obtain ⟨_, -, f, hf, rfl⟩ := mem_copies hp
    obtain ⟨i, hi, _, -, rfl⟩ := mem_copies hq
    have hsame : f = i := blockAt_inj hnodup (hfree f hf) (hmissing i hi) he
    exact hdisjoint f hf (hsame ▸ hi)

theorem GSAConfig.SelectsKept.movesBlocks {config : GSAConfig} (h : config.SelectsKept n) (Content : Type*) :
    config.MovesBlocks Content n := by
  intro blocks topkValues hblocks hnodup htopk hvalid hlength layer
  obtain ⟨hcount, hremain, hbound⟩ := h
  subst hblocks
  let free := (config.remainIdx blocks.length).filter (· ∉ hits (config.remainIdx blocks.length) topkValues)
  let missing := misses (config.remainIdx blocks.length) topkValues
  have hfree : ∀ i ∈ free, i < blocks.length := fun i hi => hbound i (List.mem_of_mem_filter hi)
  have hmissing : ∀ i ∈ missing, i < blocks.length := fun i hi => hvalid i (List.mem_of_mem_filter hi)
  have hkept := hits_append_free_perm htopk hremain
  have hlen : missing.length = free.length := by
    have hall := length_hits_add_misses (config.remainIdx blocks.length) topkValues
    have hsame := hkept.length_eq
    rw [List.length_append] at hsame
    change _ + missing.length = _ at hall
    change _ + free.length = _ at hsame
    omega
  obtain ⟨newBlock, mvMap, hfill, hnew, hitems, hperm, hplaces⟩ :=
    fillBlocks_spec Dict.empty hvalid hfree hlen.le (nodup_map_blockAt hnodup (htopk.filter _) hmissing)
  rw [hlen, List.take_length] at hperm
  have hordered := ordered_copies hnodup hlen hmissing hfree (hremain.filter _) (fun f hf hm =>
    of_decide_eq_true (List.mem_filter.mp hm).2 (List.mem_of_mem_filter hf))
  let entries := topkValues.zip newBlock
  have hkeys : entries.map Prod.fst = topkValues := List.map_fst_zip hnew.ge
  have hvalues : entries.map Prod.snd = newBlock := List.map_snd_zip hnew.le
  have hentries : ((entries.take (config.computeTopkLen blocks.length)).foldl (fun m e => m.set e.1 e.2) Dict.empty).items ++
      ((entries.drop (config.computeTopkLen blocks.length)).foldl (fun m e => m.set e.1 e.2) Dict.empty).items = entries := by
    have htake := (List.take_sublist (config.computeTopkLen blocks.length) entries).map Prod.fst
    have hdrop := (List.drop_sublist (config.computeTopkLen blocks.length) entries).map Prod.fst
    rw [hkeys] at htake hdrop
    rw [Dict.items_foldl_set (htopk.sublist htake) fun e _ => List.not_mem_nil,
      Dict.items_foldl_set (htopk.sublist hdrop) fun e _ => List.not_mem_nil]
    have hnil : (Dict.empty : Dict Nat Block).items = [] := rfl
    rw [hnil, List.nil_append, List.nil_append, List.take_append_drop]
  obtain ⟨maps, hmaps, rfl, hassigned⟩ : ∃ maps, getMvMap blocks (config.remainIdx blocks.length) topkValues
      (config.computeTopkLen blocks.length) = some maps ∧ maps.mvMap = mvMap ∧
        maps.remainMap.items ++ maps.prefetchMap.items = entries := by
    refine ⟨⟨mvMap, (entries.take _).foldl _ _, (entries.drop _).foldl _ _⟩, ?_, rfl, hentries⟩
    rw [getMvMap, stayingBlocks_eq hvalid]
    change (fillBlocks blocks topkValues (topkValues.map (staying blocks (config.remainIdx blocks.length))) free
      Dict.empty).bind _ = _
    rw [hfill]
    rfl
  refine ⟨maps, Relocation.run maps.mvMap.items layer, ?_, ?_, ?_, ?_, ?_⟩
  · rw [GSAConfig.kvcacheInitLastChunk, if_pos (hcount.trans hlength.symm), hmaps]
    rfl
  · rw [hassigned, hkeys]
  · rw [hassigned, hvalues, filterMap_getElem? hbound]
    have hkept' := hkept.map (blockAt blocks)
    rw [List.map_append] at hkept'
    exact hperm.trans hkept'
  · rw [hitems]
    exact hordered.imp And.left
  · rw [hassigned, hitems]
    intro e he
    have hidx : e.1 ∈ topkValues := (List.of_mem_zip he).1
    refine ⟨blockAt blocks e.1, getElem?_blockAt (hvalid _ hidx), ?_⟩
    rcases hplaces e he with ⟨hstays, hblock⟩ | ⟨f, hmoved, hblock⟩
    · rw [hblock]
      apply Relocation.run_of_notMem
      intro hmem
      obtain ⟨p, hp, hpe⟩ := List.mem_map.mp hmem
      obtain ⟨_, -, f, hf, rfl⟩ := mem_copies hp
      have hsame : f = e.1 := blockAt_inj hnodup (hfree f hf) (hvalid _ hidx) hpe
      have hnot : e.1 ∉ hits (config.remainIdx blocks.length) topkValues :=
        hsame ▸ of_decide_eq_true (List.mem_filter.mp hf).2
      exact hnot (List.mem_filter.mpr ⟨hidx, decide_eq_true hstays⟩)
    · rw [hblock]
      exact Relocation.run_of_mem (p := (blockAt blocks e.1, blockAt blocks f)) hordered
        (List.mem_map_of_mem (f := Prod.map (blockAt blocks) (blockAt blocks)) hmoved)

end Moves

/-- Of the prompts that GSA switches, only one that lies in a single block is within the init window. -/
theorem beyond_initWindow_iff {bs prompt : Nat} (hbs : 0 < bs) (hprompt : segPrefillThreshold < prompt) :
    2 * ceilDiv prompt bs ≤ (setConfig bs).initWindowsSize ∨ (setConfig bs).initWindowsSize < ceilDiv prompt bs ↔
      bs < prompt := by
  have hthreshold : 8400 < prompt := hprompt
  have hone := one_le_initWindowsSize hbs
  have hinit : (setConfig bs).initWindowsSize * bs < 128 + bs := by
    have hmul := Nat.div_mul_le_self (128 + bs - 1) bs
    change (1 * 128 + bs - 1) / bs * bs < 128 + bs
    rw [Nat.one_mul]
    omega
  have hblocks : ceilDiv prompt bs ≤ 1 ↔ prompt ≤ bs := by
    rw [ceilDiv_le_iff hbs, Nat.one_mul]
  constructor
  · intro h
    by_contra hsmall
    have hsingle : ceilDiv prompt bs ≤ 1 := hblocks.mpr (not_lt.mp hsmall)
    have hpos : 0 < ceilDiv prompt bs := (lt_ceilDiv_iff hbs _ _).mpr (by omega)
    have hwindow : (setConfig bs).initWindowsSize ≤ 1 := (ceilDiv_le_iff hbs _ _).mpr (by
      rw [Nat.one_mul, defaultBlockSize]
      omega)
    omega
  · intro h
    right
    by_contra hle
    have hprompt' : prompt ≤ (setConfig bs).initWindowsSize * bs := (ceilDiv_le_iff hbs _ _).mp (not_lt.mp hle)
    have hwindow : (setConfig bs).initWindowsSize ≤ 1 := (ceilDiv_le_iff hbs _ _).mpr (by
      rw [Nat.one_mul, defaultBlockSize]
      omega)
    have hsingle := hblocks.mp ((not_lt.mp hle).trans hwindow)
    omega

/-- The switch is right exactly where the kept set is, and that is where the slice counts from the end. -/
theorem switches_iff (bs : Nat) (hbs : 0 < bs) (Content : Type*) :
    (∀ n, (setConfig bs).SelectsKept n ∧ (setConfig bs).MovesBlocks Content n ↔
      2 * n ≤ (setConfig bs).initWindowsSize ∨ (setConfig bs).initWindowsSize < n) ∧
    ∀ prompt, segPrefillThreshold < prompt →
      ((setConfig bs).SelectsKept (ceilDiv prompt bs) ∧ (setConfig bs).MovesBlocks Content (ceilDiv prompt bs) ↔
        bs < prompt) := by
  have hall (n : Nat) : (setConfig bs).SelectsKept n ∧ (setConfig bs).MovesBlocks Content n ↔
      2 * n ≤ (setConfig bs).initWindowsSize ∨ (setConfig bs).initWindowsSize < n := by
    rw [← selectsKept_iff hbs]
    exact ⟨And.left, fun h => ⟨h, h.movesBlocks Content⟩⟩
  exact ⟨hall, fun prompt hprompt => (hall _).trans (beyond_initWindow_iff hbs hprompt)⟩

/-- A prompt of 10000 tokens in blocks of 128. -/
theorem switches_tenThousand :
    (setConfig 128).SelectsKept (ceilDiv 10000 128) ∧ (setConfig 128).MovesBlocks Nat (ceilDiv 10000 128) :=
  ((switches_iff 128 (by decide) Nat).2 10000 (by decide)).mpr (by decide)

/-- A prompt of 9000 tokens in one block, which the kept set names twice. -/
theorem switch_singleBlock :
    (setConfig 16384).remainIdx (ceilDiv 9000 16384) = [0, 0] ∧
      (setConfig 16384).kvcacheInitLastChunk [7] [0] (fun block => block) = none ∧
      ¬ ((setConfig 16384).SelectsKept (ceilDiv 9000 16384) ∧
        (setConfig 16384).MovesBlocks Nat (ceilDiv 9000 16384)) := by
  refine ⟨by decide +kernel, by decide +kernel, ?_⟩
  rintro ⟨⟨hcount, -⟩, -⟩
  exact absurd hcount (by decide +kernel)

end UnifiedCache.Sparse.GSA
