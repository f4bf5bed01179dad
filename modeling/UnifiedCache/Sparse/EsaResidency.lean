import UnifiedCache.Lib.Collections
import UnifiedCache.Lib.StepSystem

/-! The chosen blocks of a request that ESA keeps in its top-k region: what of them is there
already, and what is loaded over the rest. -/

namespace UnifiedCache.Sparse.EsaResidency

open StepSystem

/-- An order in which sets are iterated. -/
structure SetOrder (α : Type*) [DecidableEq α] where
  list : Finset α → List α
  nodup : ∀ s, (list s).Nodup
  mem_iff : ∀ s a, a ∈ list s ↔ a ∈ s

section DiffTwoMap

variable {K V : Type*} [DecidableEq K] [DecidableEq V]

/-- The first loop. `remove` fails on what the set has not, or no longer has. -/
def sharedLoop (map2 : Dict K V) : List (K × V) → Dict K V → Finset K → Finset V → Option (Dict K V × Finset K × Finset V)
  | [], updatedMap, keys2Set, values2Set => some (updatedMap, keys2Set, values2Set)
  | (k1, v1) :: items, updatedMap, keys2Set, values2Set =>
    if k1 ∈ map2.items.map Prod.fst ∧ v1 ∈ map2.items.map Prod.snd then
      if k1 ∈ keys2Set ∧ v1 ∈ values2Set then
        sharedLoop map2 items (updatedMap.set k1 v1) (keys2Set.erase k1) (values2Set.erase v1)
      else none
    else sharedLoop map2 items updatedMap keys2Set values2Set

/-- `updated_map` and `diff_map`. -/
def diffTwoMap (keyOrder : SetOrder K) (valueOrder : SetOrder V) (map1 map2 : Dict K V) : Option (Dict K V × Dict K V) :=
  (sharedLoop map2 map1.items Dict.empty (map2.items.map Prod.fst).toFinset (map2.items.map Prod.snd).toFinset).map
    fun (updatedMap, keys2Set, values2Set) =>
      let pairs := (keyOrder.list keys2Set).zip (valueOrder.list values2Set)
      (pairs.foldl (fun m p => m.set p.1 p.2) updatedMap, pairs.foldl (fun m p => m.set p.1 p.2) Dict.empty)

/-- No two keys have one value. -/
def Injective (m : Dict K V) : Prop := (m.items.map Prod.snd).Nodup

variable {map1 map2 : Dict K V} {items : List (K × V)} {updatedMap : Dict K V} {keys2Set : Finset K} {values2Set : Finset V}

/-- The entries that stay. -/
def shared (map2 : Dict K V) (items : List (K × V)) : List (K × V) :=
  items.filter fun p => p.1 ∈ map2.items.map Prod.fst ∧ p.2 ∈ map2.items.map Prod.snd

theorem mem_shared {p : K × V} :
    p ∈ shared map2 items ↔ p ∈ items ∧ p.1 ∈ map2.items.map Prod.fst ∧ p.2 ∈ map2.items.map Prod.snd := by
  rw [shared, List.mem_filter, decide_eq_true_iff]

theorem sharedLoop_spec (map2 updatedMap : Dict K V) (hkeys : (items.map Prod.fst).Nodup) (hvalues : (items.map Prod.snd).Nodup)
    (hin : ∀ p ∈ shared map2 items, p.1 ∈ keys2Set ∧ p.2 ∈ values2Set)
    (hfresh : ∀ p ∈ items, p.1 ∉ updatedMap.items.map Prod.fst) :
    ∃ updatedMap', sharedLoop map2 items updatedMap keys2Set values2Set =
        some (updatedMap', keys2Set \ ((shared map2 items).map Prod.fst).toFinset,
          values2Set \ ((shared map2 items).map Prod.snd).toFinset) ∧
      updatedMap'.items = updatedMap.items ++ shared map2 items := by
  induction items generalizing updatedMap keys2Set values2Set with
  | nil => exact ⟨updatedMap, by simp [sharedLoop, shared], by simp [shared]⟩
  | cons p items ih =>
    obtain ⟨k, v⟩ := p
    obtain ⟨hk, hkeys'⟩ := List.nodup_cons.mp hkeys
    obtain ⟨hv, hvalues'⟩ := List.nodup_cons.mp hvalues
    rw [sharedLoop]
    by_cases hboth : k ∈ map2.items.map Prod.fst ∧ v ∈ map2.items.map Prod.snd
    · have hshared : shared map2 ((k, v) :: items) = (k, v) :: shared map2 items :=
        List.filter_cons_of_pos (decide_eq_true hboth)
      have hhead := hin (k, v) (hshared ▸ List.mem_cons_self)
      have hset := updatedMap.items_set_of_notMem (hfresh (k, v) List.mem_cons_self) (v := v)
      rw [if_pos hboth, if_pos hhead]
      obtain ⟨updatedMap', hloop, hitems⟩ := @ih (keys2Set.erase k) (values2Set.erase v) (updatedMap.set k v) hkeys' hvalues'
        (by
          intro p hp
          obtain ⟨hpk, hpv⟩ := hin p (hshared ▸ List.mem_cons_of_mem _ hp)
          have hmem := (mem_shared.mp hp).1
          exact ⟨Finset.mem_erase.mpr ⟨fun he => hk (List.mem_map.mpr ⟨p, hmem, he⟩), hpk⟩,
            Finset.mem_erase.mpr ⟨fun he => hv (List.mem_map.mpr ⟨p, hmem, he⟩), hpv⟩⟩)
        (by
          intro p hp hmem
          rw [hset, List.map_append, List.mem_append] at hmem
          rcases hmem with hmem | hmem
          · exact hfresh p (List.mem_cons_of_mem _ hp) hmem
          · exact hk (List.mem_singleton.mp hmem ▸ List.mem_map_of_mem hp))
      refine ⟨updatedMap', ?_, ?_⟩
      · rw [hloop, hshared, List.map_cons, List.map_cons, List.toFinset_cons, List.toFinset_cons,
          Finset.sdiff_insert, Finset.sdiff_insert, ← Finset.erase_sdiff_comm, ← Finset.erase_sdiff_comm]
      · rw [hitems, hset, hshared, List.append_assoc]
        rfl
    · have hshared : shared map2 ((k, v) :: items) = shared map2 items :=
        List.filter_cons_of_neg (by rw [decide_eq_true_iff]; exact hboth)
      rw [if_neg hboth, hshared]
      rw [hshared] at hin
      exact ih updatedMap hkeys' hvalues' hin fun p hp => hfresh p (List.mem_cons_of_mem _ hp)

/-- The rest of a set in the order of its iteration. -/
theorem append_rest_perm {α : Type*} [DecidableEq α] (order : SetOrder α) {l kept : List α} (hl : l.Nodup) (hkept : kept.Nodup)
    (hsub : ∀ a ∈ kept, a ∈ l) : (kept ++ order.list (l.toFinset \ kept.toFinset)).Perm l := by
  have hdisjoint : kept.Disjoint (order.list (l.toFinset \ kept.toFinset)) := by
    intro a ha hrest
    exact (Finset.mem_sdiff.mp ((order.mem_iff _ a).mp hrest)).2 (List.mem_toFinset.mpr ha)
  apply (List.perm_ext_iff_of_nodup (hkept.append (order.nodup _) hdisjoint) hl).mpr
  intro a
  rw [List.mem_append, order.mem_iff, Finset.mem_sdiff, List.mem_toFinset, List.mem_toFinset]
  constructor
  · rintro (ha | ⟨ha, -⟩)
    · exact hsub a ha
    · exact ha
  · intro ha
    by_cases hk : a ∈ kept
    · exact .inl hk
    · exact .inr ⟨ha, hk⟩

/-- What `diff_two_map` returns, in terms of its arguments. -/
structure Difference (map1 map2 updatedMap diffMap : Dict K V) : Prop where
  keys : (updatedMap.items.map Prod.fst).Perm (map2.items.map Prod.fst)
  values : (updatedMap.items.map Prod.snd).Perm (map2.items.map Prod.snd)
  either : ∀ p ∈ updatedMap.items, (p ∈ map1.items ∧ p ∉ diffMap.items) ∨ (p ∈ diffMap.items ∧ p ∉ map1.items)
  diff : ∀ p ∈ diffMap.items, p ∈ updatedMap.items

theorem diffTwoMap_spec (keyOrder : SetOrder K) (valueOrder : SetOrder V) (h1 : Injective map1) (h2 : Injective map2) :
    ∃ updatedMap diffMap, diffTwoMap keyOrder valueOrder map1 map2 = some (updatedMap, diffMap) ∧
      Difference map1 map2 updatedMap diffMap := by
  let kept := shared map2 map1.items
  let keys := keyOrder.list ((map2.items.map Prod.fst).toFinset \ (kept.map Prod.fst).toFinset)
  let values := valueOrder.list ((map2.items.map Prod.snd).toFinset \ (kept.map Prod.snd).toFinset)
  obtain ⟨updatedMap, hloop, hupdated⟩ := sharedLoop_spec map2 Dict.empty map1.nodup h1
    (fun p hp => ⟨List.mem_toFinset.mpr (mem_shared.mp hp).2.1, List.mem_toFinset.mpr (mem_shared.mp hp).2.2⟩)
    (fun p hp => List.not_mem_nil)
  have hkept : kept.Sublist map1.items := List.filter_sublist
  have hkeys : (kept.map Prod.fst ++ keys).Perm (map2.items.map Prod.fst) :=
    append_rest_perm keyOrder map2.nodup (map1.nodup.sublist (hkept.map _)) fun k hk => by
      obtain ⟨p, hp, rfl⟩ := List.mem_map.mp hk
      exact (mem_shared.mp hp).2.1
  have hvalues : (kept.map Prod.snd ++ values).Perm (map2.items.map Prod.snd) :=
    append_rest_perm valueOrder h2 (h1.sublist (hkept.map _)) fun v hv => by
      obtain ⟨p, hp, rfl⟩ := List.mem_map.mp hv
      exact (mem_shared.mp hp).2.2
  have hlength : keys.length = values.length := by
    have hk := hkeys.length_eq
    have hv := hvalues.length_eq
    simp only [List.length_append, List.length_map] at hk hv
    omega
  have hfst : (keys.zip values).map Prod.fst = keys := List.map_fst_zip hlength.le
  have hsnd : (keys.zip values).map Prod.snd = values := List.map_snd_zip hlength.ge
  have hn : ((keys.zip values).map Prod.fst).Nodup := by
    rw [hfst]
    exact keyOrder.nodup _
  have hnew : ∀ p ∈ keys.zip values, p.1 ∉ kept.map Prod.fst := by
    intro p hp hmem
    have hkey := (keyOrder.mem_iff _ _).mp (List.of_mem_zip hp).1
    exact (Finset.mem_sdiff.mp hkey).2 (List.mem_toFinset.mpr hmem)
  have hitems : ((keys.zip values).foldl (fun m p => m.set p.1 p.2) updatedMap).items = kept ++ keys.zip values := by
    rw [Dict.items_foldl_set hn (by rw [hupdated]; exact hnew), hupdated]
    rfl
  have hdiff : ((keys.zip values).foldl (fun m p => m.set p.1 p.2) Dict.empty).items = keys.zip values :=
    Dict.items_foldl_set hn fun p _ => List.not_mem_nil
  refine ⟨_, _, by rw [diffTwoMap, hloop]; rfl, ?_, ?_, ?_, ?_⟩
  · rw [hitems, List.map_append, hfst]
    exact hkeys
  · rw [hitems, List.map_append, hsnd]
    exact hvalues
  · rw [hitems, hdiff]
    intro p hp
    rcases List.mem_append.mp hp with hp | hp
    · exact .inl ⟨(mem_shared.mp hp).1, fun hd => hnew p hd (List.mem_map_of_mem hp)⟩
    · refine .inr ⟨hp, fun hold => hnew p hp (List.mem_map_of_mem (mem_shared.mpr ⟨hold, ?_, ?_⟩))⟩
      · exact hkeys.subset (List.mem_append_right _ (List.of_mem_zip hp).1)
      · exact hvalues.subset (List.mem_append_right _ (List.of_mem_zip hp).2)
  · rw [hitems, hdiff]
    exact fun p hp => List.mem_append_right _ hp

end DiffTwoMap

section Residency

variable {Block Hash Content : Type*} [DecidableEq Block] [DecidableEq Hash]

/-- One request and layer, with the content of the KV cache. `slots` has the slot of each block of
`block_hashes`, in the order of the prompt. `target` is what the last call was to load, by block. -/
structure ReqStatePerLayer (Block Hash Content : Type*) where
  slots : List Nat
  blockHashes : List Hash
  preTopkBlockHashes : Dict Block Hash
  cache : Block → Content
  tasks : List (Block × Hash)
  target : List (Block × Hash)

/-- `top_k` is `int(sparse_range * sparse_ratio)`. -/
structure EsaConfig where
  initWindowSz : Nat
  topK : Nat

/-- A call comes with the block table and the slots of its retrieval, and with what the cache
holds by then. A load that was launched ends at any time after. -/
inductive Event (Block Hash Content : Type*) [DecidableEq Block] [DecidableEq Hash] where
  | call (vllmBlockIds : List Block) (choosedSlots : List Nat) (cache : Block → Content)
      (keyOrder : SetOrder Block) (valueOrder : SetOrder Hash)
  | loaded (i : Nat)

namespace ReqStatePerLayer

variable (config : EsaConfig) (stored : Hash → Content)

/-- The blocks of the top-k region. -/
def region (vllmBlockIds : List Block) : List Block :=
  slice vllmBlockIds config.initWindowSz (config.initWindowSz + config.topK)

/-- `slots_to_relative_indexes`. -/
def relativeIndex (s : ReqStatePerLayer Block Hash Content) (slot : Nat) : Option Nat :=
  if slot ∈ s.slots then some (s.slots.idxOf slot) else none

/-- The hashes of the chosen slots. -/
def chosenHashes (s : ReqStatePerLayer Block Hash Content) : List Nat → Option (List Hash)
  | [] => some []
  | slot :: choosedSlots =>
    ((s.relativeIndex slot).bind fun id => s.blockHashes[id]?).bind fun hash =>
      (s.chosenHashes choosedSlots).map (hash :: ·)

def waitRetrievalAndStartLoad (s : ReqStatePerLayer Block Hash Content) (vllmBlockIds : List Block)
    (choosedSlots : List Nat) (keyOrder : SetOrder Block) (valueOrder : SetOrder Hash) :
    Option (ReqStatePerLayer Block Hash Content) :=
  (s.chosenHashes choosedSlots).bind fun blockHashes =>
    let pairs := (region config vllmBlockIds).zip blockHashes
    let targetMap := pairs.foldl (fun m p => m.set p.1 p.2) Dict.empty
    (diffTwoMap keyOrder valueOrder s.preTopkBlockHashes targetMap).map fun (preTopkBlockHashes, diffBlocks) =>
      { s with
        preTopkBlockHashes := preTopkBlockHashes
        tasks := s.tasks ++ diffBlocks.items
        target := pairs }

def step (s : ReqStatePerLayer Block Hash Content) : Event Block Hash Content → Option (ReqStatePerLayer Block Hash Content)
  | .call vllmBlockIds choosedSlots cache keyOrder valueOrder =>
    waitRetrievalAndStartLoad config { s with cache := cache } vllmBlockIds choosedSlots keyOrder valueOrder
  | .loaded i => s.tasks[i]?.map fun (block, hash) =>
      { s with cache := Function.update s.cache block (stored hash), tasks := s.tasks.eraseIdx i }

/-- The loads of a call are waited for before the next one. The retrieval gives `top_k` slots of the
request, the table has a region of that size, and a block that is in the region of two calls in a
row is the request's all the time between them. -/
def Guard (s : ReqStatePerLayer Block Hash Content) : Event Block Hash Content → Prop
  | .call vllmBlockIds choosedSlots cache _ _ =>
    s.tasks = [] ∧ vllmBlockIds.Nodup ∧ config.initWindowSz + config.topK ≤ vllmBlockIds.length ∧
      choosedSlots.Nodup ∧ choosedSlots.length = config.topK ∧ (∀ e ∈ choosedSlots, e ∈ s.slots) ∧
      ∀ block ∈ region config vllmBlockIds, block ∈ s.target.map Prod.fst → cache block = s.cache block
  | .loaded _ => True

/-- After the prompt, with a slot for each block. -/
def start (slots : List Nat) (blockHashes : List Hash) (cache : Block → Content) : ReqStatePerLayer Block Hash Content where
  slots := slots
  blockHashes := blockHashes
  preTopkBlockHashes := Dict.empty
  cache := cache
  tasks := []
  target := []

/-- The recorded hashes are those to be loaded, and each block holds its own or is about to. -/
structure Inv (slots : List Nat) (blockHashes : List Hash) (s : ReqStatePerLayer Block Hash Content) : Prop where
  slots : s.slots = slots
  blockHashes : s.blockHashes = blockHashes
  keys : (s.preTopkBlockHashes.items.map Prod.fst).Perm (s.target.map Prod.fst)
  values : (s.preTopkBlockHashes.items.map Prod.snd).Perm (s.target.map Prod.snd)
  distinct : (s.target.map Prod.snd).Nodup
  holds : ∀ p ∈ s.preTopkBlockHashes.items, p ∈ s.tasks ∨ s.cache p.1 = stored p.2
  tasks : ∀ p ∈ s.tasks, p ∈ s.preTopkBlockHashes.items

variable {config stored} {slots choosedSlots : List Nat} {blockHashes : List Hash} {cache : Block → Content}
  {vllmBlockIds : List Block} {s s' : ReqStatePerLayer Block Hash Content}

omit [DecidableEq Block] [DecidableEq Hash] in
theorem inv_start : Inv stored slots blockHashes (start slots blockHashes cache) where
  slots := rfl
  blockHashes := rfl
  keys := List.Perm.refl _
  values := List.Perm.refl _
  distinct := List.nodup_nil
  holds _ hp := absurd hp List.not_mem_nil
  tasks _ hp := absurd hp List.not_mem_nil

omit [DecidableEq Block] [DecidableEq Hash] in
/-- Distinct slots have distinct hashes. -/
theorem chosenHashes_spec (hhashes : s.blockHashes.Nodup) (hlen : s.slots.length ≤ s.blockHashes.length)
    (hn : choosedSlots.Nodup) (hin : ∀ e ∈ choosedSlots, e ∈ s.slots) :
    ∃ hashes, s.chosenHashes choosedSlots = some hashes ∧ hashes.length = choosedSlots.length ∧ hashes.Nodup ∧
      ∀ h ∈ hashes, ∃ e ∈ choosedSlots, s.blockHashes[s.slots.idxOf e]? = some h := by
  induction choosedSlots with
  | nil => exact ⟨[], rfl, rfl, List.nodup_nil, fun h hh => absurd hh List.not_mem_nil⟩
  | cons e choosedSlots ih =>
    obtain ⟨he, hn'⟩ := List.nodup_cons.mp hn
    obtain ⟨hashes, hchosen, hlength, hnodup, hfrom⟩ := ih hn' fun e' he' => hin e' (List.mem_cons_of_mem e he')
    have hidx : s.slots.idxOf e < s.slots.length := List.idxOf_lt_length_iff.mpr (hin e List.mem_cons_self)
    have hlt : s.slots.idxOf e < s.blockHashes.length := by omega
    refine ⟨s.blockHashes[s.slots.idxOf e] :: hashes, ?_, congrArg Nat.succ hlength, List.nodup_cons.mpr ⟨?_, hnodup⟩, ?_⟩
    · rw [chosenHashes, hchosen, relativeIndex, if_pos (hin e List.mem_cons_self), Option.bind_some,
        List.getElem?_eq_getElem hlt]
      rfl
    · intro hmem
      obtain ⟨e', he', hh⟩ := hfrom _ hmem
      obtain ⟨hlt', heq⟩ := List.getElem?_eq_some_iff.mp hh
      have hsame : s.slots.idxOf e' = s.slots.idxOf e := hhashes.getElem_inj_iff.mp heq
      have hee : e' = e := List.idxOf_inj (hin e' (List.mem_cons_of_mem e he')) |>.mp hsame
      exact he (hee ▸ he')
    · intro h hh
      rcases List.mem_cons.mp hh with rfl | hh
      · exact ⟨e, List.mem_cons_self, List.getElem?_eq_getElem hlt⟩
      · obtain ⟨e', he', hh'⟩ := hfrom h hh
        exact ⟨e', List.mem_cons_of_mem e he', hh'⟩

omit [DecidableEq Block] [DecidableEq Hash] in
theorem chosenHashes_cache (s : ReqStatePerLayer Block Hash Content) (cache : Block → Content) (choosedSlots : List Nat) :
    chosenHashes { s with cache := cache } choosedSlots = s.chosenHashes choosedSlots := by
  induction choosedSlots with
  | nil => rfl
  | cons e choosedSlots ih =>
    rw [chosenHashes, chosenHashes, ih]
    rfl

omit [DecidableEq Block] in
theorem nodup_region (h : vllmBlockIds.Nodup) : (region config vllmBlockIds).Nodup :=
  h.sublist slice_sublist

omit [DecidableEq Block] in
theorem length_region (h : config.initWindowSz + config.topK ≤ vllmBlockIds.length) :
    (region config vllmBlockIds).length = config.topK := by
  rw [region, length_slice h, Nat.add_sub_cancel_left]

variable {keyOrder : SetOrder Block} {valueOrder : SetOrder Hash}

/-- A call records the chosen hashes for the blocks of the region, and loads what they do not hold. -/
theorem call_spec (hi : Inv stored slots blockHashes s) (hhashes : blockHashes.Nodup) (hlen : slots.length ≤ blockHashes.length)
    (hg : Guard config s (.call vllmBlockIds choosedSlots cache keyOrder valueOrder)) :
    ∃ s', step config stored s (.call vllmBlockIds choosedSlots cache keyOrder valueOrder) = some s' ∧
      Inv stored slots blockHashes s' ∧ s'.target.map Prod.fst = region config vllmBlockIds ∧
      s.chosenHashes choosedSlots = some (s'.target.map Prod.snd) := by
  obtain ⟨htasks, htable, hroom, hchosen, hcount, hin, hkept⟩ := hg
  obtain ⟨hashes, hmap, hlength, hnodup, -⟩ := chosenHashes_spec (s := s) (hi.blockHashes ▸ hhashes)
    (hi.slots ▸ hi.blockHashes ▸ hlen) hchosen hin
  have hsize : (region config vllmBlockIds).length = hashes.length := by
    rw [length_region hroom, hlength, hcount]
  have hfst : ((region config vllmBlockIds).zip hashes).map Prod.fst = region config vllmBlockIds :=
    List.map_fst_zip hsize.le
  have hsnd : ((region config vllmBlockIds).zip hashes).map Prod.snd = hashes := List.map_snd_zip hsize.ge
  let targetMap : Dict Block Hash := ((region config vllmBlockIds).zip hashes).foldl (fun m p => m.set p.1 p.2) Dict.empty
  have htarget : targetMap.items = (region config vllmBlockIds).zip hashes :=
    Dict.items_foldl_set (by rw [hfst]; exact nodup_region htable) fun p _ => List.not_mem_nil
  have hold : Injective s.preTopkBlockHashes := hi.values.nodup_iff.mpr hi.distinct
  have hnew : Injective targetMap := by
    rw [Injective, htarget, hsnd]
    exact hnodup
  obtain ⟨updatedMap, diffMap, hdiff, hspec⟩ := diffTwoMap_spec keyOrder valueOrder hold hnew
  have hcall : step config stored s (.call vllmBlockIds choosedSlots cache keyOrder valueOrder) =
      some { s with cache := cache, preTopkBlockHashes := updatedMap, tasks := s.tasks ++ diffMap.items,
                    target := (region config vllmBlockIds).zip hashes } := by
    rw [step, waitRetrievalAndStartLoad, chosenHashes_cache, hmap, Option.bind_some]
    change (diffTwoMap keyOrder valueOrder s.preTopkBlockHashes targetMap).map _ = _
    rw [hdiff]
    rfl
  refine ⟨_, hcall, ?_, hfst, by rw [hsnd, hmap]⟩
  refine ⟨hi.slots, hi.blockHashes, ?_, ?_, ?_, ?_, ?_⟩
  · rw [← htarget]
    exact hspec.keys
  · rw [← htarget]
    exact hspec.values
  · rw [hsnd]
    exact hnodup
  · intro p hp
    rcases hspec.either p hp with ⟨hres, -⟩ | ⟨hload, -⟩
    · right
      have hregion : p.1 ∈ region config vllmBlockIds := by
        rw [← hfst, ← htarget]
        exact hspec.keys.subset (List.mem_map_of_mem hp)
      have htarget' : p.1 ∈ s.target.map Prod.fst := hi.keys.subset (List.mem_map_of_mem hres)
      rcases hi.holds p hres with hmem | hcontent
      · rw [htasks] at hmem
        cases hmem
      · exact (hkept p.1 hregion htarget').trans hcontent
    · exact .inl (List.mem_append_right _ hload)
  · intro p hp
    rw [htasks, List.nil_append] at hp
    exact hspec.diff p hp

theorem Inv.loaded (hi : Inv stored slots blockHashes s) {i : Nat} (hs : step config stored s (.loaded i) = some s') :
    Inv stored slots blockHashes s' := by
  obtain ⟨⟨block, hash⟩, htask, rfl⟩ := Option.map_eq_some_iff.mp hs
  have hrecorded := hi.tasks _ (List.mem_of_getElem? htask)
  refine ⟨hi.slots, hi.blockHashes, hi.keys, hi.values, hi.distinct, ?_, ?_⟩
  · intro p hp
    by_cases hblock : p.1 = block
    · have hsame : p = (block, hash) := Dict.mem_items_inj hp hrecorded hblock
      right
      rw [hsame]
      exact Function.update_self _ _ _
    · rcases hi.holds p hp with hmem | hcontent
      · obtain ⟨j, hj⟩ := List.mem_iff_getElem?.mp hmem
        have hne : j ≠ i := by
          rintro rfl
          exact hblock (congrArg Prod.fst (Option.some.inj (hj.symm.trans htask)))
        exact .inl (List.mem_eraseIdx_iff_getElem?.mpr ⟨j, hne, hj⟩)
      · exact .inr ((Function.update_of_ne hblock _ _).trans hcontent)
  · exact fun p hp => hi.tasks p (List.mem_of_mem_eraseIdx hp)

theorem Inv.step (hi : Inv stored slots blockHashes s) (hhashes : blockHashes.Nodup) (hlen : slots.length ≤ blockHashes.length)
    {e : Event Block Hash Content} (hg : Guard config s e) (hs : step config stored s e = some s') :
    Inv stored slots blockHashes s' := by
  cases e with
  | call vllmBlockIds choosedSlots cache keyOrder valueOrder =>
    obtain ⟨s'', hcall, hi', -⟩ := call_spec hi hhashes hlen hg
    cases hcall.symm.trans hs
    exact hi'
  | loaded i => exact hi.loaded hs

end ReqStatePerLayer

/-- The two maps, for any order of the sets; and the top-k region, in any run of calls and loads: a call gives each
block of the region one of the chosen hashes, and when no load is left each block holds its own. -/
theorem residency_exact :
    (∀ (keyOrder : SetOrder Block) (valueOrder : SetOrder Hash) (map1 map2 : Dict Block Hash),
      Injective map1 → Injective map2 → ∃ updatedMap diffMap,
        diffTwoMap keyOrder valueOrder map1 map2 = some (updatedMap, diffMap) ∧ Difference map1 map2 updatedMap diffMap) ∧
    ∀ (config : EsaConfig) (stored : Hash → Content) (slots : List Nat) (blockHashes : List Hash) (cache : Block → Content),
      blockHashes.Nodup → slots.length ≤ blockHashes.length → ∀ s : ReqStatePerLayer Block Hash Content,
      Reach (ReqStatePerLayer.step config stored) (ReqStatePerLayer.Guard config)
          (ReqStatePerLayer.start slots blockHashes cache) s →
        (∀ vllmBlockIds choosedSlots cache' keyOrder valueOrder,
          ReqStatePerLayer.Guard config s (.call vllmBlockIds choosedSlots cache' keyOrder valueOrder) →
          ∃ s', ReqStatePerLayer.step config stored s (.call vllmBlockIds choosedSlots cache' keyOrder valueOrder) = some s' ∧
            s'.target.map Prod.fst = ReqStatePerLayer.region config vllmBlockIds ∧
            s.chosenHashes choosedSlots = some (s'.target.map Prod.snd)) ∧
        (s.preTopkBlockHashes.items.map Prod.fst).Perm (s.target.map Prod.fst) ∧
        (s.preTopkBlockHashes.items.map Prod.snd).Perm (s.target.map Prod.snd) ∧
        (s.target.map Prod.snd).Nodup ∧
        (s.tasks = [] → ∀ p ∈ s.preTopkBlockHashes.items, s.cache p.1 = stored p.2) := by
  refine ⟨fun keyOrder valueOrder map1 map2 h1 h2 => diffTwoMap_spec keyOrder valueOrder h1 h2, ?_⟩
  intro config stored slots blockHashes cache hhashes hlen s hreach
  have hi : ReqStatePerLayer.Inv stored slots blockHashes s :=
    hreach.invariant (ReqStatePerLayer.Inv stored slots blockHashes) ReqStatePerLayer.inv_start
      fun _ _ _ hi hg hs => hi.step hhashes hlen hg hs
  refine ⟨?_, hi.keys, hi.values, hi.distinct, ?_⟩
  · intro vllmBlockIds choosedSlots cache' keyOrder valueOrder hg
    obtain ⟨s', hcall, -, hregion, hchosen⟩ := ReqStatePerLayer.call_spec hi hhashes hlen hg
    exact ⟨s', hcall, hregion, hchosen⟩
  · intro hnone p hp
    rcases hi.holds p hp with hmem | hcontent
    · rw [hnone] at hmem
      cases hmem
    · exact hcontent

end Residency

/-- Sets of numbers in increasing order. -/
def increasing : SetOrder Nat where
  list s := s.sort (· ≤ ·)
  nodup s := s.sort_nodup (· ≤ ·)
  mem_iff _ _ := Finset.mem_sort (· ≤ ·)

/-- Two maps with one entry in common, and a call that takes two of three blocks. -/
theorem residency_exact_twoOfThree :
    (∃ updatedMap diffMap, diffTwoMap increasing increasing ⟨[(1, 10), (2, 20)], by decide⟩ ⟨[(2, 20), (3, 10)], by decide⟩ =
      some (updatedMap, diffMap) ∧
        Difference ⟨[(1, 10), (2, 20)], by decide⟩ ⟨[(2, 20), (3, 10)], by decide⟩ updatedMap diffMap) ∧
    ∃ s : ReqStatePerLayer Nat Nat Nat,
      Reach (ReqStatePerLayer.step ⟨1, 2⟩ (· + 1)) (ReqStatePerLayer.Guard ⟨1, 2⟩)
        (ReqStatePerLayer.start [5, 6, 7] [100, 101, 102] fun _ => 0) s ∧
      (s.preTopkBlockHashes.items.map Prod.fst).Perm [31, 32] ∧
      (s.preTopkBlockHashes.items.map Prod.snd).Perm [102, 100] := by
  have hexact := @residency_exact Nat Nat Nat _ _
  refine ⟨hexact.1 _ _ _ _ (by unfold Injective; decide) (by unfold Injective; decide), ?_⟩
  have hstart : Reach (ReqStatePerLayer.step ⟨1, 2⟩ (· + 1)) (ReqStatePerLayer.Guard ⟨1, 2⟩)
      (ReqStatePerLayer.start [5, 6, 7] [100, 101, 102] fun _ : Nat => 0)
      (ReqStatePerLayer.start [5, 6, 7] [100, 101, 102] fun _ : Nat => 0) := Reach.start
  have hg : ReqStatePerLayer.Guard ⟨1, 2⟩ (ReqStatePerLayer.start [5, 6, 7] [100, 101, 102] fun _ : Nat => 0)
      (.call [30, 31, 32, 33] [7, 5] (fun _ : Nat => 0) increasing increasing) :=
    ⟨rfl, by decide, by decide, by decide, rfl, by decide, fun _ _ hb => absurd hb List.not_mem_nil⟩
  obtain ⟨hcalls, -⟩ := hexact.2 ⟨1, 2⟩ (· + 1) [5, 6, 7] [100, 101, 102] (fun _ => 0) (by decide) (by decide) _ hstart
  obtain ⟨s, hs, hregion, hchosen⟩ := hcalls _ _ _ _ _ hg
  have hreach := hstart.next hg hs
  obtain ⟨-, hkeys, hvalues, -⟩ :=
    hexact.2 ⟨1, 2⟩ (· + 1) [5, 6, 7] [100, 101, 102] (fun _ => 0) (by decide) (by decide) s hreach
  refine ⟨s, hreach, ?_, ?_⟩
  · rw [hregion] at hkeys
    exact hkeys
  · have hhashes : s.target.map Prod.snd = [102, 100] := (Option.some.inj hchosen).symm
    rw [hhashes] at hvalues
    exact hvalues

end UnifiedCache.Sparse.EsaResidency
