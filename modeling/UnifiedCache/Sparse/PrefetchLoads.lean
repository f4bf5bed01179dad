import UnifiedCache.Sparse.PrefetchMaps

/-! What the reported blocks hold: the contents of the blocks through loads that are done, fail or are
stopped. -/

namespace UnifiedCache.Sparse.GSAPrefetch

open InverseMaps StepSystem

section Layer

variable {Kv : Type} {isPythonLoad : Bool} {kvOf : Int → Option Kv} {loads : Nat → Load Kv} {hbm : Int → Kv}
  {m : LayerMaps} {topk freeBlock : List Int} {limit k : Nat} {promptLen b : Int} {batch : List (Int × Int)}

theorem hbm_loadKVToHBM_of_notMem (hb : b ∉ batch.map Prod.fst) :
    (loadKVToHBM isPythonLoad kvOf loads batch k m hbm).2 b = hbm b := by
  induction batch generalizing k m hbm with
  | nil => rfl
  | cons p batch ih =>
    rw [List.map_cons, List.mem_cons, not_or] at hb
    rw [loadKVToHBM]
    split_ifs
    · exact ih hb.2
    · cases loads k with
      | stop => rfl
      | fail left => exact Function.update_of_ne hb.1 _ _
      | ok stray => exact (ih hb.2).trans (Function.update_of_ne hb.1 _ _)

theorem hbm_loadKVToHBM_of_python (hpy : isPythonLoad = true) :
    (loadKVToHBM isPythonLoad kvOf loads batch k m hbm).2 = hbm := by
  induction batch generalizing k m with
  | nil => rfl
  | cons p batch ih =>
    rw [loadKVToHBM, if_pos hpy]
    exact ih

/-- A block that is loaded holds what the store has for its new index. -/
theorem hbm_loadKVToHBM_of_mem (hpy : isPythonLoad = false) (hnodup : (batch.map Prod.fst).Nodup)
    (hdone : ∀ j, k ≤ j → j < k + batch.length → (loads j).Done) {p : Int × Int} (hp : p ∈ batch) {kv : Kv}
    (hkv : kvOf p.2 = some kv) : (loadKVToHBM isPythonLoad kvOf loads batch k m hbm).2 p.1 = kv := by
  induction batch generalizing k m hbm with
  | nil => cases hp
  | cons q batch ih =>
    obtain ⟨hq, hnodup⟩ := List.nodup_cons.mp hnodup
    have hk := hdone k le_rfl (by rw [List.length_cons]; omega)
    rw [loadKVToHBM, if_neg (by simp [hpy])]
    cases hload : loads k with
    | stop => rw [hload] at hk; exact hk.elim
    | fail left => rw [hload] at hk; exact hk.elim
    | ok stray =>
      cases hp with
      | head =>
        refine (hbm_loadKVToHBM_of_notMem hq).trans ?_
        rw [Function.update_self, hkv, Option.getD_some]
      | tail _ hp =>
        exact ih hnodup (fun j hkj hj => hdone j (by omega) (by rw [List.length_cons]; omega)) hp

variable (hvalid : m.Valid) (htopk : topk.Nodup) (hfree : freeBlock.Nodup)
  (hres : ∀ b ∈ freeBlock, ∃ i : Int, m.blocks[b]? = some i)

include hvalid htopk hfree hres

/-- A run reports its hits and the blocks of its loads, whatever becomes of the loads. -/
theorem runLayer_reported (isPythonLoad : Bool) (kvOf : Int → Option Kv) (promptLen : Int) (limit : Nat)
    (loads : Nat → Load Kv) (hbm : Int → Kv) : ∃ scanned, scanned <+: topk ∧
    ∀ b, b ∈ (runLayer isPythonLoad kvOf promptLen limit topk loads m freeBlock hbm).row.reported ↔
      (∃ i ∈ scanned, m.docs[i]? = some b) ∨ b ∈ (toLoad m.docs limit topk freeBlock).map Prod.fst := by
  obtain ⟨scanned, h, hfront, hc, hbatch, _⟩ := prefetchBatch_spec limit hvalid.oneIndex htopk hfree
  have hmov : Movable m (toLoad m.docs limit topk freeBlock) := toLoad_movable htopk hfree hres
  have hmatch : (h.pickAll (toLoad m.docs limit topk freeBlock)).Matches
      (m.reassignAll (toLoad m.docs limit topk freeBlock)).docs :=
    matches_reassignAll hvalid hmov hc fun p hp i hi => notMem_hits_of_mem_toLoad hp (hfront.subset hi)
  refine ⟨scanned, hfront, fun b => ?_⟩
  simp only [runLayer, hbatch]
  rw [reported_eq hmatch (hmov.reassignAll hvalid).1.oneIndex, ← hmatch.hitBlocks, Hits.mem_pickAll, hc.hitBlocks, or_comm]

/-- With its loads done a run reports blocks that the maps have for indexes of the top-k list. -/
theorem runLayer_reported_of_done
    (hdone : isPythonLoad = true ∨ ∀ j < (toLoad m.docs limit topk freeBlock).length, (loads j).Done) :
    let r := runLayer isPythonLoad kvOf promptLen limit topk loads m freeBlock hbm
    ∀ b ∈ r.row.reported, ∃ idx ∈ topk, r.maps.blocks[b]? = some idx := by
  obtain ⟨scanned, hfront, hreported⟩ := runLayer_reported hvalid htopk hfree hres isPythonLoad kvOf promptLen limit loads hbm
  have hmov : Movable m (toLoad m.docs limit topk freeBlock) := toLoad_movable htopk hfree hres
  obtain ⟨_, _, hloaded, hkept⟩ := hmov.reassignAll hvalid
  intro r b hb
  have hmaps : r.maps = m.reassignAll (toLoad m.docs limit topk freeBlock) :=
    (runLayer_of_done hvalid htopk hfree hres hdone).1
  rw [hmaps]
  by_cases hload : b ∈ (toLoad m.docs limit topk freeBlock).map Prod.fst
  · obtain ⟨p, hp, rfl⟩ := List.mem_map.mp hload
    have hmiss := (List.of_mem_zip (a := p.1) (b := p.2) (List.mem_of_mem_take hp)).2
    exact ⟨p.2, (List.mem_filter.mp hmiss).1, hloaded p hp⟩
  · obtain ⟨i, hi, hdocs⟩ := ((hreported b).mp hb).resolve_right hload
    exact ⟨i, hfront.subset hi, by rw [hkept b hload, (hvalid i b).mp hdocs]⟩

/-- A load that is not done leaves a reported block with the index that it had, which is not in the top-k list. -/
theorem runLayer_reported_of_not_done (hpy : isPythonLoad = false)
    (hcut : ∃ j < (toLoad m.docs limit topk freeBlock).length, ¬(loads j).Done) :
    let r := runLayer isPythonLoad kvOf promptLen limit topk loads m freeBlock hbm
    ∃ b ∈ r.row.reported, ∀ idx ∈ topk, r.maps.blocks[b]? ≠ some idx := by
  obtain ⟨scanned, _, hreported⟩ := runLayer_reported hvalid htopk hfree hres isPythonLoad kvOf promptLen limit loads hbm
  obtain ⟨_, _, _, _, hbatch, _⟩ := prefetchBatch_spec limit hvalid.oneIndex htopk hfree
  have hmov : Movable m (toLoad m.docs limit topk freeBlock) := toLoad_movable htopk hfree hres
  obtain ⟨j, hj, hnot⟩ := hcut
  have hleft : ∃ n < (toLoad m.docs limit topk freeBlock).length,
      (loadKVToHBM isPythonLoad kvOf loads (toLoad m.docs limit topk freeBlock) 0 m hbm).1 =
        m.reassignAll ((toLoad m.docs limit topk freeBlock).take n) :=
    maps_loadKVToHBM_of_not_done hpy ⟨j, Nat.zero_le j, by omega, hnot⟩
  obtain ⟨n, hn, hmaps⟩ := hleft
  have hmem := List.getElem_mem hn
  refine ⟨_, (hreported _).mpr (Or.inr (List.mem_map_of_mem hmem)), ?_⟩
  simp only [runLayer, hbatch, hmaps]
  have hfront : Movable m ((toLoad m.docs limit topk freeBlock).take n) :=
    ⟨hmov.nodup_blocks.sublist ((List.take_sublist n _).map _), hmov.nodup_missIdxs.sublist ((List.take_sublist n _).map _),
      fun p hp => hmov.resident p (List.mem_of_mem_take hp), fun p hp => hmov.missing p (List.mem_of_mem_take hp)⟩
  obtain ⟨_, _, _, hkept⟩ := hfront.reassignAll hvalid
  have hlater : (toLoad m.docs limit topk freeBlock)[n].1 ∉ ((toLoad m.docs limit topk freeBlock).take n).map Prod.fst := by
    have hnodup := hmov.nodup_blocks
    rw [← List.take_append_drop n (toLoad m.docs limit topk freeBlock), List.map_append] at hnodup
    intro hearlier
    apply List.disjoint_of_nodup_append hnodup hearlier
    rw [List.drop_eq_getElem_cons hn]
    exact List.mem_cons_self
  intro idx hidx hold
  rw [hkept _ hlater] at hold
  exact notMem_hits_of_mem_toLoad hmem hidx ((hvalid idx _).mpr hold)

end Layer

section Engine

variable {ReqId Hash Kv : Type} [DecidableEq ReqId] {layers : Nat}

/-- The blocks of `pairs` hold what the store has for their indexes and are resident for no other request. -/
def BlocksSupplied (stored : Hash → Fin layers → Kv) (s : GSAPrefetchEngine ReqId Hash Kv layers) (reqId : ReqId)
    (hashes : List Hash) (i : Fin layers) (pairs : List (Int × Int)) : Prop :=
  ∀ p ∈ pairs, (∀ h, hashAt hashes p.1 = some h → s.hbm i p.2 = stored h i) ∧
    ∀ r ≠ reqId, ∀ req, s.requests r = some req → (req.maps i).blocks[p.2]? = none

/-- What the model and the block pool keep to: the engine is given blocks as above, a load is stopped only for a
request that is being deleted, and the model writes to no block that is resident for a prompt index. -/
def PrefetchEvent.Supplied (stored : Hash → Fin layers → Kv) (s : GSAPrefetchEngine ReqId Hash Kv layers) :
    PrefetchEvent ReqId Hash Kv layers → Prop
  | .setBlocksMap reqId _ blockTableList prefetchIdx remainIdx hashes _ => ∀ i, BlocksSupplied stored s reqId hashes i
    ((prefetchIdx ++ remainIdx).map fun idx => (Int.ofNat idx, blockTableList.getD idx 0))
  | .setBlocksMapMultiLayer reqId _ remainMap prefetchMap _ _ hashes _ => ∀ i, BlocksSupplied stored s reqId hashes i
    ((remainMap i).toList ++ (prefetchMap i).toList)
  | .addBlocksMap reqId idx blockID => ∀ i, BlocksSupplied stored s reqId
    ((s.requests reqId).elim [] RequestMaps.allBlocksHash) i [(idx, blockID)]
  | .runOneBsPrefetch reqId _ _ _ loads => ∀ i j, loads i j = .stop → reqId ∈ s.delSeqIds
  | .write layer blockID _ => ∀ r req, s.requests r = some req → ∀ idx : Int,
    (req.maps layer).blocks[blockID]? = some idx → hashAt req.allBlocksHash idx = none
  | _ => True

/-- All loads of the batch succeed. An engine that leaves the loads to Python has nothing to load. -/
def PrefetchEvent.LoadsSucceed (cfg : PrefetchConfig) (stored : Hash → Fin layers → Kv)
    (s : GSAPrefetchEngine ReqId Hash Kv layers) : PrefetchEvent ReqId Hash Kv layers → Prop
  | .runOneBsPrefetch reqId topkLen bsIndex topk loads => ∀ req, s.requests reqId = some req → ∀ i,
    let batch := toLoad (req.maps i).docs (cfg.limit topkLen) (topk i) (s.rows i bsIndex).freeBlock
    if cfg.isPythonLoad then ∀ p ∈ batch, ∀ h, hashAt req.allBlocksHash p.2 = some h → s.hbm i p.1 = stored h i
    else ∀ j < batch.length, (loads i j).Done
  | _ => True

/-- Every reported block has an index that was asked for and holds its KV, and the maps describe what the blocks
of prompt indexes hold. -/
structure ReportsLoaded (stored : Hash → Fin layers → Kv) (s : GSAPrefetchEngine ReqId Hash Kv layers) : Prop where
  reported : ∀ r req slot, s.requests r = some req → s.slotOf r = some slot → ∀ i, ∀ b ∈ (s.rows i slot).reported,
    ∃ idx ∈ (s.rows i slot).asked, (req.maps i).blocks[b]? = some idx ∧
      ∀ h, hashAt req.allBlocksHash idx = some h → s.hbm i b = stored h i
  described : ∀ r req, s.requests r = some req → ∀ (i : Fin layers) (b idx : Int), (req.maps i).blocks[b]? = some idx →
    ∀ h, hashAt req.allBlocksHash idx = some h → s.hbm i b = stored h i

/-- No block is resident for two requests. -/
def Separate (s : GSAPrefetchEngine ReqId Hash Kv layers) : Prop := ∀ r r' req req', r ≠ r' →
  s.requests r = some req → s.requests r' = some req' → ∀ (i : Fin layers) (b idx : Int),
    (req.maps i).blocks[b]? = some idx → (req'.maps i).blocks[b]? = none

variable {s s' : GSAPrefetchEngine ReqId Hash Kv layers} {e : PrefetchEvent ReqId Hash Kv layers}
  {cfg : PrefetchConfig} {stored : Hash → Fin layers → Kv} {reqId r : ReqId} {bsIndex topkLen : Nat} {maxIdx idx blockID : Int}

omit [DecidableEq ReqId] in
theorem PrefetchEvent.LoadsSucceed.complete (h : e.LoadsSucceed cfg stored s) : e.Complete cfg s := by
  cases e with
  | runOneBsPrefetch reqId topkLen bsIndex topk loads =>
    intro req hreq i
    have hi := h req hreq i
    cases hpy : cfg.isPythonLoad with
    | true => exact Or.inl rfl
    | false => exact Or.inr (by simpa [hpy] using hi)
  | _ => trivial

omit [DecidableEq ReqId] in
theorem reportsLoaded_of (hlisted : ∀ r req slot, s.requests r = some req → s.slotOf r = some slot → ∀ i,
      ∀ b ∈ (s.rows i slot).reported, ∃ idx ∈ (s.rows i slot).asked, (req.maps i).blocks[b]? = some idx)
    (hdescribed : ∀ r req, s.requests r = some req → ∀ (i : Fin layers) (b idx : Int), (req.maps i).blocks[b]? = some idx →
      ∀ h, hashAt req.allBlocksHash idx = some h → s.hbm i b = stored h i) : ReportsLoaded stored s where
  reported r req slot hr hs i b hb := by
    obtain ⟨idx, hidx, hblock⟩ := hlisted r req slot hr hs i b hb
    exact ⟨idx, hidx, hblock, hdescribed r req hr i b idx hblock⟩
  described := hdescribed

structure LoadInvariant (stored : Hash → Fin layers → Kv) (s : GSAPrefetchEngine ReqId Hash Kv layers) : Prop
    extends EngineInvariant s, ReportsLoaded stored s where
  separate : Separate s

omit [DecidableEq ReqId] in
theorem LoadInvariant.listed (hinv : LoadInvariant stored s) {req : RequestMaps Hash layers} (hr : s.requests r = some req)
    (hs : s.slotOf r = some bsIndex) (i : Fin layers) {b : Int} (hb : b ∈ (s.rows i bsIndex).reported) :
    ∃ idx ∈ (s.rows i bsIndex).asked, (req.maps i).blocks[b]? = some idx := by
  obtain ⟨idx, hidx, hblock, _⟩ := hinv.reported r req bsIndex hr hs i b hb
  exact ⟨idx, hidx, hblock⟩

section Calls

variable {pairs : Fin layers → List (Int × Int)} {row : Fin layers → Row} {hashes : List Hash}

theorem blocks_ofPairs {ps : List (Int × Int)} {idx b : Int} (hidx : (ps.map Prod.fst).Nodup)
    (hblocks : (ps.map Prod.snd).Nodup) : (LayerMaps.ofPairs ps).blocks[b]? = some idx ↔ (idx, b) ∈ ps := by
  obtain ⟨hvalid, hlookup⟩ := LayerMaps.ofPairs_spec hidx hblocks
  exact (hvalid idx b).symm.trans (hlookup idx b)

theorem LoadInvariant.setMaps (hinv : LoadInvariant stored s) (hplace : ∀ r ≠ reqId, s.slotOf r ≠ some bsIndex)
    (hset : ∀ i, ValidSet (pairs i) (row i) maxIdx)
    (hasked : ∀ i, ∀ b ∈ (row i).reported, ∃ idx ∈ (row i).asked, (idx, b) ∈ pairs i)
    (hsup : ∀ i, BlocksSupplied stored s reqId hashes i (pairs i)) :
    LoadInvariant stored (s.setMaps reqId bsIndex pairs row hashes maxIdx) := by
  have hblocks : ∀ i (b idx : Int), (LayerMaps.ofPairs (pairs i)).blocks[b]? = some idx ↔ (idx, b) ∈ pairs i :=
    fun i b idx => blocks_ofPairs (hset i).indexes (hset i).blocks
  refine ⟨hinv.toEngineInvariant.setMaps hashes hplace hset, reportsLoaded_of ?_ ?_, ?_⟩
  · intro r req slot hr hs i b hb
    obtain ⟨rfl, rfl⟩ | ⟨hne, hs⟩ := update_eq_some.mp hs
    · obtain ⟨_, rfl⟩ | ⟨hne, _⟩ := update_eq_some.mp hr
      · simp only [GSAPrefetchEngine.setMaps, Function.update_self] at hb ⊢
        obtain ⟨idx, hidx, hpair⟩ := hasked i b hb
        exact ⟨idx, hidx, (hblocks i b idx).mpr hpair⟩
      · exact absurd rfl hne
    · have hslot : slot ≠ bsIndex := fun heq => hplace r hne (heq ▸ hs)
      obtain ⟨heq, _⟩ | ⟨_, hr⟩ := update_eq_some.mp hr
      · exact absurd heq hne
      · simp only [GSAPrefetchEngine.setMaps, Function.update_of_ne hslot] at hb ⊢
        exact hinv.listed hr hs i hb
  · intro r req hr i b idx hb h hh
    obtain ⟨rfl, rfl⟩ | ⟨_, hr⟩ := update_eq_some.mp hr
    · exact (hsup i _ ((hblocks i b idx).mp hb)).1 h hh
    · exact hinv.described r req hr i b idx hb h hh
  · intro r r' req req' hne hr hr' i b idx hb
    obtain ⟨rfl, rfl⟩ | ⟨_, hold⟩ := update_eq_some.mp hr
    · obtain ⟨heq, _⟩ | ⟨hne', hold'⟩ := update_eq_some.mp hr'
      · exact absurd heq.symm hne
      · exact (hsup i _ ((hblocks i b idx).mp hb)).2 r' hne' req' hold'
    · obtain ⟨rfl, rfl⟩ | ⟨_, hold'⟩ := update_eq_some.mp hr'
      · apply Option.eq_none_iff_forall_ne_some.mpr
        intro idx' hnew
        have hnone := (hsup i _ ((hblocks i b idx').mp hnew)).2 r hne req hold
        rw [hb] at hnone
        cases hnone
      · exact hinv.separate r r' req req' hne hold hold' i b idx hb

/-- The maps of a request before a block is appended, those of an unknown request being empty. -/
theorem blocks_addBlocksMap {req : RequestMaps Hash layers} (h : (s.addBlocksMap reqId idx blockID).requests reqId = some req) :
    req.allBlocksHash = (s.requests reqId).elim [] RequestMaps.allBlocksHash ∧ ∀ i (b j : Int),
      (req.maps i).blocks[b]? = some j ↔
        b = blockID ∧ j = idx ∨ b ≠ blockID ∧ ∃ old, s.requests reqId = some old ∧ (old.maps i).blocks[b]? = some j := by
  obtain ⟨_, rfl⟩ | ⟨hne, _⟩ := update_eq_some.mp h
  · cases hreq : s.requests reqId with
    | none =>
      refine ⟨rfl, fun i b j => ?_⟩
      simp only [LayerMaps.put, lookup_insert]
      by_cases hb : b = blockID
      · simp [hb, eq_comm]
      · simp [hb, LayerMaps.empty]
    | some old =>
      refine ⟨rfl, fun i b j => ?_⟩
      simp only [LayerMaps.put, lookup_insert]
      by_cases hb : b = blockID
      · simp [hb, eq_comm]
      · simp [hb]
  · exact absurd rfl hne

theorem LoadInvariant.addBlocksMap (cfg : PrefetchConfig) (hinv : LoadInvariant stored s)
    (hkept : (PrefetchEvent.addBlocksMap reqId idx blockID : PrefetchEvent ReqId Hash Kv layers).Kept cfg s)
    (hsup : (PrefetchEvent.addBlocksMap reqId idx blockID : PrefetchEvent ReqId Hash Kv layers).Supplied stored s) :
    LoadInvariant stored (s.addBlocksMap reqId idx blockID) := by
  have hnew : ∀ i, (∀ h, hashAt ((s.requests reqId).elim [] RequestMaps.allBlocksHash) idx = some h →
      s.hbm i blockID = stored h i) ∧
      ∀ r ≠ reqId, ∀ req, s.requests r = some req → (req.maps i).blocks[blockID]? = none :=
    fun i => hsup i _ List.mem_cons_self
  refine ⟨hinv.toEngineInvariant.addBlocksMap hkept.1 hkept.2, reportsLoaded_of ?_ ?_, ?_⟩
  · intro r req slot hr hs i b hb
    by_cases heq : r = reqId
    · subst heq
      obtain ⟨old, hold⟩ := hinv.live r slot hs
      obtain ⟨j, hj, hblock⟩ := hinv.listed hold hs i hb
      have hne : b ≠ blockID := by
        rintro rfl
        rw [((hkept.2 old hold).2 i).2] at hblock
        cases hblock
      exact ⟨j, hj, ((blocks_addBlocksMap hr).2 i b j).mpr (Or.inr ⟨hne, old, hold, hblock⟩)⟩
    · obtain ⟨h, _⟩ | ⟨_, hr⟩ := update_eq_some.mp hr
      · exact absurd h heq
      · exact hinv.listed hr hs i hb
  · intro r req hr i b j hb h hh
    by_cases heq : r = reqId
    · subst heq
      obtain ⟨hhashes, hblocks⟩ := blocks_addBlocksMap hr
      rw [hhashes] at hh
      obtain ⟨rfl, rfl⟩ | ⟨_, old, hold, hblock⟩ := (hblocks i b j).mp hb
      · exact (hnew i).1 h hh
      · rw [hold] at hh
        exact hinv.described r old hold i b j hblock h hh
    · obtain ⟨hreq, _⟩ | ⟨_, hr⟩ := update_eq_some.mp hr
      · exact absurd hreq heq
      · exact hinv.described r req hr i b j hb h hh
  · intro r r' req req' hne hr hr' i b j hb
    have hold : ∀ r req, r ≠ reqId → (s.addBlocksMap reqId idx blockID).requests r = some req → s.requests r = some req := by
      intro r req hreq hr
      exact ((update_eq_some.mp hr).resolve_left fun h => hreq h.1).2
    by_cases heq : r = reqId
    · subst heq
      have hother := hold r' req' (Ne.symm hne) hr'
      obtain ⟨rfl, rfl⟩ | ⟨_, old, hreq, hblock⟩ := ((blocks_addBlocksMap hr).2 i b j).mp hb
      · exact (hnew i).2 r' (Ne.symm hne) req' hother
      · exact hinv.separate r r' old req' hne hreq hother i b j hblock
    · have hother := hold r req heq hr
      by_cases heq' : r' = reqId
      · subst heq'
        apply Option.eq_none_iff_forall_ne_some.mpr
        intro j' hb'
        obtain ⟨rfl, rfl⟩ | ⟨_, old, hreq, hblock⟩ := ((blocks_addBlocksMap hr').2 i b j').mp hb'
        · rw [(hnew i).2 r heq req hother] at hb
          cases hb
        · rw [hinv.separate r r' req old hne hother hreq i b j hb] at hblock
          cases hblock
      · exact hinv.separate r r' req req' hne hother (hold r' req' heq' hr') i b j hb

omit [DecidableEq ReqId] in
/-- Requests may go and blocks that no prompt index has may be written to. -/
theorem LoadInvariant.of_requests (hinv : LoadInvariant stored s) (hengine : EngineInvariant s')
    (hreq : ∀ r req, s'.requests r = some req → s.requests r = some req)
    (hslot : ∀ r slot, s'.slotOf r = some slot → s.slotOf r = some slot) (hrows : s'.rows = s.rows)
    (hhbm : ∀ r req, s.requests r = some req → ∀ (i : Fin layers) (b j : Int), (req.maps i).blocks[b]? = some j →
      hashAt req.allBlocksHash j ≠ none → s'.hbm i b = s.hbm i b) : LoadInvariant stored s' := by
  refine ⟨hengine, reportsLoaded_of ?_ ?_, ?_⟩
  · intro r req slot hr hs i b hb
    rw [hrows] at hb ⊢
    exact hinv.listed (hreq r req hr) (hslot r slot hs) i hb
  · intro r req hr i b j hb h hh
    rw [hhbm r req (hreq r req hr) i b j hb (by simp [hh])]
    exact hinv.described r req (hreq r req hr) i b j hb h hh
  · exact fun r r' req req' hne hr hr' => hinv.separate r r' req req' hne (hreq r req hr) (hreq r' req' hr')

theorem slotOf_of_delReqIDRun {slot : Nat} (h : s.delReqIDRun.slotOf r = some slot) : s.slotOf r = some slot := by
  simp only [GSAPrefetchEngine.delReqIDRun] at h
  split_ifs at h
  exact h

theorem LoadInvariant.delReqIDRun (hinv : LoadInvariant stored s) : LoadInvariant stored s.delReqIDRun :=
  hinv.of_requests hinv.toEngineInvariant.delReqIDRun (fun _ _ h => (requests_of_delReqIDRun h).2)
    (fun _ _ h => slotOf_of_delReqIDRun h) rfl fun _ _ _ _ _ _ _ _ => rfl

theorem LoadInvariant.delBlocksMap (hinv : LoadInvariant stored s) (reqId : ReqId) :
    LoadInvariant stored (s.delBlocksMap reqId) := by
  have hmark : LoadInvariant stored { s with delSeqIds := insert reqId s.delSeqIds } :=
    ⟨⟨⟨hinv.valid, hinv.split, hinv.unplaced⟩, hinv.free, hinv.place, hinv.live⟩, ⟨hinv.reported, hinv.described⟩, hinv.separate⟩
  rw [GSAPrefetchEngine.delBlocksMap]
  split_ifs
  · exact hmark.delReqIDRun
  · exact hmark

end Calls

section Pass

variable {topk : Fin layers → List Int} {loads : Fin layers → Nat → Load Kv} {req : RequestMaps Hash layers}

omit [DecidableEq ReqId] in
/-- What the pass over a layer leaves in a block: the new KV in a block that the engine loaded, else what it was. -/
theorem hbm_layerRun (cfg : PrefetchConfig) (stored : Hash → Fin layers → Kv) (topkLen : Nat)
    (loads : Fin layers → Nat → Load Kv) (hinv : EngineInvariant s) (hreq : s.requests reqId = some req) (hslot : s.slotOf reqId = some bsIndex)
    (htopk : ∀ i, (topk i).Nodup) (i : Fin layers) :
    let batch := toLoad (req.maps i).docs (cfg.limit topkLen) (topk i) (s.rows i bsIndex).freeBlock
    (∀ b, b ∉ batch.map Prod.fst → (layerRun cfg stored s req topkLen bsIndex topk loads i).hbm b = s.hbm i b) ∧
    (cfg.isPythonLoad = true → (layerRun cfg stored s req topkLen bsIndex topk loads i).hbm = s.hbm i) ∧
    (cfg.isPythonLoad = false → (∀ j < batch.length, (loads i j).Done) → ∀ p ∈ batch, ∀ h,
      hashAt req.allBlocksHash p.2 = some h → (layerRun cfg stored s req topkLen bsIndex topk loads i).hbm p.1 = stored h i) := by
  have hvalid := hinv.valid reqId req hreq i
  have hfree := hinv.free reqId bsIndex hslot i
  have hres := (hinv.split reqId req bsIndex hreq hslot i).resident hvalid
  obtain ⟨_, _, _, _, hbatch, _⟩ := prefetchBatch_spec (cfg.limit topkLen) hvalid.oneIndex (htopk i) hfree
  have hmov : Movable (req.maps i) (toLoad (req.maps i).docs (cfg.limit topkLen) (topk i) (s.rows i bsIndex).freeBlock) :=
    toLoad_movable (htopk i) hfree hres
  simp only [layerRun, runLayer, hbatch]
  refine ⟨fun b hb => hbm_loadKVToHBM_of_notMem hb, hbm_loadKVToHBM_of_python, fun hpy hdone p hp h hh => ?_⟩
  apply hbm_loadKVToHBM_of_mem hpy hmov.nodup_blocks (fun j _ hj => hdone j (by omega)) hp
  rw [GSAPrefetchEngine.kvOf, hh, Option.map_some]

omit [DecidableEq ReqId] in
/-- A block of the batch is of the request that is run, and of no other. -/
theorem LoadInvariant.other_notMem (hinv : LoadInvariant stored s) (hreq : s.requests reqId = some req)
    (hslot : s.slotOf reqId = some bsIndex) (i : Fin layers) {req' : RequestMaps Hash layers} (hne : r ≠ reqId)
    (hr : s.requests r = some req') {b idx : Int} (hb : (req'.maps i).blocks[b]? = some idx) :
    b ∉ (toLoad (req.maps i).docs (cfg.limit topkLen) (topk i) (s.rows i bsIndex).freeBlock).map Prod.fst := by
  intro hmem
  obtain ⟨p, hp, rfl⟩ := List.mem_map.mp hmem
  have hfree := (List.mem_filter.mp (List.of_mem_zip (a := p.1) (b := p.2) (List.mem_of_mem_take hp)).1).1
  obtain ⟨j, hj⟩ := (hinv.split reqId req bsIndex hreq hslot i).resident (hinv.valid reqId req hreq i) p.1 hfree
  rw [hinv.separate r reqId req' req hne hr hreq i p.1 idx hb] at hj
  cases hj

omit [DecidableEq ReqId] in
/-- Where the maps have a block after a pass: at its missed index if it was loaded, else where it was. -/
theorem blocks_layerRun (hinv : EngineInvariant s) (hreq : s.requests reqId = some req) (hslot : s.slotOf reqId = some bsIndex)
    (htopk : ∀ i, (topk i).Nodup) (i : Fin layers)
    (hdone : (PrefetchEvent.runOneBsPrefetch reqId topkLen bsIndex topk loads).Complete cfg s) {b idx : Int}
    (hb : (layerRun cfg stored s req topkLen bsIndex topk loads i).maps.blocks[b]? = some idx) :
    (b, idx) ∈ toLoad (req.maps i).docs (cfg.limit topkLen) (topk i) (s.rows i bsIndex).freeBlock ∨
      b ∉ (toLoad (req.maps i).docs (cfg.limit topkLen) (topk i) (s.rows i bsIndex).freeBlock).map Prod.fst ∧
        (req.maps i).blocks[b]? = some idx := by
  have hvalid := hinv.valid reqId req hreq i
  have hmov : Movable (req.maps i) (toLoad (req.maps i).docs (cfg.limit topkLen) (topk i) (s.rows i bsIndex).freeBlock) :=
    toLoad_movable (htopk i) (hinv.free reqId bsIndex hslot i) ((hinv.split reqId req bsIndex hreq hslot i).resident hvalid)
  obtain ⟨_, _, hloaded, hkept⟩ := hmov.reassignAll hvalid
  rw [(hinv.layerRun stored hreq hslot htopk (hdone req hreq) i).1] at hb
  by_cases hmem : b ∈ (toLoad (req.maps i).docs (cfg.limit topkLen) (topk i) (s.rows i bsIndex).freeBlock).map Prod.fst
  · obtain ⟨p, hp, rfl⟩ := List.mem_map.mp hmem
    rw [hloaded p hp] at hb
    obtain rfl := Option.some.inj hb
    exact Or.inl hp
  · rw [hkept b hmem] at hb
    exact Or.inr ⟨hmem, hb⟩

theorem LoadInvariant.runOneBsPrefetch (hinv : LoadInvariant stored s)
    (hkept : (PrefetchEvent.runOneBsPrefetch reqId topkLen bsIndex topk loads).Kept cfg s)
    (hloads : (PrefetchEvent.runOneBsPrefetch reqId topkLen bsIndex topk loads).LoadsSucceed cfg stored s) :
    LoadInvariant stored (s.runOneBsPrefetch cfg stored reqId topkLen bsIndex topk loads) := by
  have hengine : EngineInvariant (s.runOneBsPrefetch cfg stored reqId topkLen bsIndex topk loads) :=
    hinv.toEngineInvariant.runOneBsPrefetch hkept hloads.complete
  cases hreq : s.requests reqId with
  | none => rwa [runOneBsPrefetch_of_none hreq]
  | some req =>
    obtain ⟨hslot, hextra, htopk⟩ := hkept (by simp [hreq])
    have hnodup : ∀ i, (topk i).Nodup := fun i => (htopk i).2
    have hrun := hinv.layerRun stored hreq hslot hnodup (hloads.complete req hreq)
    have hhbm := fun i => hbm_layerRun cfg stored topkLen loads hinv.toEngineInvariant hreq hslot hnodup i
    rw [runOneBsPrefetch_eq hreq (by omega)] at hengine ⊢
    refine ⟨hengine, reportsLoaded_of ?_ ?_, ?_⟩
    · intro r q slot hr hs i b hb
      obtain ⟨rfl, rfl⟩ | ⟨hne, hr⟩ := update_eq_some.mp hr
      · obtain rfl : slot = bsIndex := Option.some.inj (hs.symm.trans hslot)
        simp only [Function.update_self] at hb ⊢
        exact runLayer_reported_of_done (hinv.valid r req hreq i) (hnodup i) (hinv.free r slot hslot i)
          ((hinv.split r req slot hreq hslot i).resident (hinv.valid r req hreq i)) (hloads.complete req hreq i) b hb
      · have hplace : slot ≠ bsIndex := fun heq => hne (hinv.place r reqId slot hs (heq ▸ hslot))
        simp only [Function.update_of_ne hplace] at hb ⊢
        exact hinv.listed hr hs i hb
    · intro r q hr i b idx hb h hh
      obtain ⟨rfl, rfl⟩ | ⟨hne, hr⟩ := update_eq_some.mp hr
      · obtain hload | ⟨hnot, hold⟩ := blocks_layerRun hinv.toEngineInvariant hreq hslot hnodup i hloads.complete hb
        · have hi := hloads req hreq i
          cases hpy : cfg.isPythonLoad with
          | true =>
            simp only [hpy, if_true] at hi
            exact (congrFun ((hhbm i).2.1 hpy) b).trans (hi (b, idx) hload h hh)
          | false =>
            simp only [hpy, Bool.false_eq_true, if_false] at hi
            exact (hhbm i).2.2 hpy hi (b, idx) hload h hh
        · exact ((hhbm i).1 b hnot).trans (hinv.described r req hreq i b idx hold h hh)
      · exact ((hhbm i).1 b (hinv.other_notMem hreq hslot i hne hr hb)).trans (hinv.described r q hr i b idx hb h hh)
    · have hresident : ∀ i (b idx : Int), (GSAPrefetch.layerRun cfg stored s req topkLen bsIndex topk loads i).maps.blocks[b]? =
        some idx → ∃ j : Int, (req.maps i).blocks[b]? = some j := by
        intro i b idx hb
        apply (hinv.valid reqId req hreq i).mem_values.mp
        rw [← (hrun i).2.2.1]
        exact (hrun i).2.1.mem_values.mpr ⟨idx, hb⟩
      intro r r' q q' hne hr hr' i b idx hb
      obtain ⟨rfl, rfl⟩ | ⟨_, hold⟩ := update_eq_some.mp hr
      · obtain ⟨heq, _⟩ | ⟨_, hold'⟩ := update_eq_some.mp hr'
        · exact absurd heq.symm hne
        · obtain ⟨j, hj⟩ := hresident i b idx hb
          exact hinv.separate r r' req q' hne hreq hold' i b j hj
      · obtain ⟨rfl, rfl⟩ | ⟨_, hold'⟩ := update_eq_some.mp hr'
        · apply Option.eq_none_iff_forall_ne_some.mpr
          intro idx' hb'
          obtain ⟨j, hj⟩ := hresident i b idx' hb'
          rw [hinv.separate r r' q req hne hold hreq i b idx hb] at hj
          cases hj
        · exact hinv.separate r r' q q' hne hold hold' i b idx hb

/-- A pass with a load that is not done reports a block that was not loaded, or its blocks do not hold what
the maps say. -/
theorem LoadInvariant.loadsSucceed_of_runOneBsPrefetch (hinv : LoadInvariant stored s)
    (hkept : (PrefetchEvent.runOneBsPrefetch reqId topkLen bsIndex topk loads).Kept cfg s)
    (hloaded : ReportsLoaded stored (s.runOneBsPrefetch cfg stored reqId topkLen bsIndex topk loads)) :
    (PrefetchEvent.runOneBsPrefetch reqId topkLen bsIndex topk loads).LoadsSucceed cfg stored s := by
  intro req hreq i
  obtain ⟨hslot, hextra, htopk⟩ := hkept (by simp [hreq])
  have hnodup : ∀ i, (topk i).Nodup := fun i => (htopk i).2
  have hvalid := hinv.valid reqId req hreq i
  have hfree := hinv.free reqId bsIndex hslot i
  have hres := (hinv.split reqId req bsIndex hreq hslot i).resident hvalid
  rw [runOneBsPrefetch_eq hreq (by omega)] at hloaded
  cases hpy : cfg.isPythonLoad with
  | true =>
    simp only [if_true]
    intro p hp h hh
    have hmov : Movable (req.maps i) (toLoad (req.maps i).docs (cfg.limit topkLen) (topk i) (s.rows i bsIndex).freeBlock) :=
      toLoad_movable (hnodup i) hfree hres
    have hmaps : (GSAPrefetch.layerRun cfg stored s req topkLen bsIndex topk loads i).maps =
        (req.maps i).reassignAll (toLoad (req.maps i).docs (cfg.limit topkLen) (topk i) (s.rows i bsIndex).freeBlock) :=
      (hinv.layerRun stored hreq hslot hnodup (fun i => Or.inl hpy) i).1
    have hblock := (hmov.reassignAll hvalid).2.2.1 p hp
    rw [← hmaps] at hblock
    have hdescribed := hloaded.described reqId _ (Function.update_self ..) i p.1 p.2 hblock h hh
    have hsame := (hbm_layerRun cfg stored topkLen loads hinv.toEngineInvariant hreq hslot hnodup i).2.1 hpy
    exact (congrFun hsame p.1).symm.trans hdescribed
  | false =>
    simp only [Bool.false_eq_true, if_false]
    by_contra hcut
    have hleft : ∃ b ∈ (GSAPrefetch.layerRun cfg stored s req topkLen bsIndex topk loads i).row.reported, ∀ idx ∈ topk i,
        (GSAPrefetch.layerRun cfg stored s req topkLen bsIndex topk loads i).maps.blocks[b]? ≠ some idx :=
      runLayer_reported_of_not_done hvalid (hnodup i) hfree hres hpy (by simpa using hcut)
    obtain ⟨b, hb, hnot⟩ := hleft
    obtain ⟨idx, hidx, hblock, _⟩ := hloaded.reported reqId _ bsIndex (Function.update_self ..) hslot i b
      (by simpa only [Function.update_self] using hb)
    simp only [Function.update_self] at hidx
    exact hnot idx hidx hblock

end Pass

theorem LoadInvariant.step (hinv : LoadInvariant stored s) (hkept : e.Kept cfg s) (hsup : e.Supplied stored s)
    (hloads : e.LoadsSucceed cfg stored s) (hs : GSAPrefetchEngine.step cfg stored s e = some s') : LoadInvariant stored s' := by
  have hengine : EngineInvariant s' := hinv.toEngineInvariant.step hkept hloads.complete hs
  cases e with
  | setBlocksMap reqId bsIndex blockTableList prefetchIdx remainIdx hashes maxIdx =>
    cases hs
    obtain ⟨hplace, hidx, hblocks, hbelow⟩ := hkept
    apply hinv.setMaps hplace (fun _ => validSet_setBlocksMap hidx hblocks hbelow) _ hsup
    intro i b hb
    rw [Row.reported, List.take_of_length_le (by simp)] at hb
    obtain ⟨idx, hmem, rfl⟩ := List.mem_map.mp hb
    exact ⟨idx, List.mem_map_of_mem hmem, List.mem_map.mpr ⟨idx, List.mem_append_right _ hmem, rfl⟩⟩
  | setBlocksMapMultiLayer reqId bsIndex remainMap prefetchMap remainBlocks prefetchBlocks hashes maxIdx =>
    cases hs
    obtain ⟨hplace, hset⟩ := hkept
    refine hinv.setMaps hplace (fun i => ?_) (fun i b hb => ?_) hsup
    · obtain ⟨hidx, hblocks, hremain, hprefetch, hbelow⟩ := hset i
      refine ⟨hidx, hblocks, _, _, List.Perm.refl _, ?_, hprefetch, hbelow⟩
      rwa [Row.reported, List.take_length]
    · rw [Row.reported, List.take_length] at hb
      obtain ⟨p, hp, rfl⟩ := List.mem_map.mp ((hset i).2.2.1.mem_iff.mp hb)
      refine ⟨p.1, ?_, List.mem_append_left _ hp⟩
      rw [← Std.TreeMap.map_fst_toList_eq_keys]
      exact List.mem_map_of_mem hp
  | addBlocksMap reqId idx blockID =>
    cases hs
    exact hinv.addBlocksMap cfg hkept hsup
  | delBlocksMap reqId =>
    cases hs
    exact hinv.delBlocksMap reqId
  | runAsyncPrefetchBs =>
    simp only [GSAPrefetchEngine.step] at hs
    split_ifs at hs
    cases hs
    exact hinv.of_requests hengine (fun _ _ h => h) (fun _ _ h => h) rfl fun _ _ _ _ _ _ _ _ => rfl
  | runOneBsPrefetch reqId topkLen bsIndex topk loads =>
    simp only [GSAPrefetchEngine.step] at hs
    split_ifs at hs
    cases hs
    exact hinv.runOneBsPrefetch hkept hloads
  | delReqIDRun =>
    simp only [GSAPrefetchEngine.step] at hs
    split_ifs at hs
    cases hs
    exact hinv.delReqIDRun
  | setPrefetchStatus =>
    cases hs
    exact hinv.of_requests hengine (fun _ _ h => h) (fun _ _ h => h) rfl fun _ _ _ _ _ _ _ _ => rfl
  | write layer blockID kv =>
    cases hs
    refine hinv.of_requests hengine (fun _ _ h => h) (fun _ _ h => h) rfl fun r req hr i b j hb hh => ?_
    by_cases hi : i = layer
    · subst hi
      simp only [Function.update_self]
      apply Function.update_of_ne
      rintro rfl
      exact hh (hsup r req hr j hb)
    · simp only [Function.update_of_ne hi]

omit [DecidableEq ReqId] in
theorem init_loadInvariant (hbm : Fin layers → Int → Kv) :
    LoadInvariant stored (GSAPrefetchEngine.init hbm : GSAPrefetchEngine ReqId Hash Kv layers) where
  toEngineInvariant := init_invariant hbm
  reported _ _ _ h := by cases h
  described _ _ h := by cases h
  separate _ _ _ _ _ h := by cases h

/-- In a run whose loads all succeed every state reports loaded blocks only and has maps that describe the contents,
and the first step of which a load does not succeed ends that. -/
theorem reportsLoaded_iff {hbm : Fin layers → Int → Kv} (h : Reach (GSAPrefetchEngine.step cfg stored)
      (fun s e => e.Kept cfg s ∧ e.Supplied stored s ∧ e.LoadsSucceed cfg stored s) (GSAPrefetchEngine.init hbm) s) :
    ReportsLoaded stored s ∧ ∀ e s', e.Kept cfg s → e.Supplied stored s → GSAPrefetchEngine.step cfg stored s e = some s' →
      (ReportsLoaded stored s' ↔ e.LoadsSucceed cfg stored s) := by
  have hinv : LoadInvariant stored s := h.invariant (LoadInvariant stored) (init_loadInvariant hbm)
    fun _ _ _ hinv hg hs => hinv.step hg.1 hg.2.1 hg.2.2 hs
  refine ⟨hinv.toReportsLoaded, fun e s' hkept hsup hs => ⟨fun hloaded => ?_, fun hloads => ?_⟩⟩
  · cases e with
    | runOneBsPrefetch reqId topkLen bsIndex topk loads =>
      simp only [GSAPrefetchEngine.step] at hs
      split_ifs at hs
      cases hs
      exact hinv.loadsSucceed_of_runOneBsPrefetch hkept hloaded
    | _ => trivial
  · exact (hinv.step hkept hsup hloads hs).toReportsLoaded

theorem supplied_fivePromptBlocks : fivePromptBlocks.Supplied storedAsHash (GSAPrefetchEngine.init promptBlocks) := by
  intro i p hp
  refine ⟨fun h hh => ?_, fun r hr => absurd (Subsingleton.elim r 0) hr⟩
  simp only [List.cons_append, List.nil_append, List.map_cons, List.map_nil, List.mem_cons, List.not_mem_nil, or_false] at hp
  obtain rfl | rfl | rfl := hp <;> (cases hh; rfl)

theorem reach_beforeMisses_of_loads : Reach (GSAPrefetchEngine.step oneExtra storedAsHash)
    (fun s e => e.Kept oneExtra s ∧ e.Supplied storedAsHash s ∧ e.LoadsSucceed oneExtra storedAsHash s)
    (GSAPrefetchEngine.init promptBlocks) beforeMisses := by
  have hstep : GSAPrefetchEngine.step oneExtra storedAsHash (GSAPrefetchEngine.init promptBlocks) fivePromptBlocks =
      some { beforeMisses with isPrefetchDone := true } := rfl
  exact (Reach.start.next ⟨kept_fivePromptBlocks, supplied_fivePromptBlocks, trivial⟩ hstep).next
    (e := .runAsyncPrefetchBs) ⟨trivial, trivial, trivial⟩ rfl

theorem reportsLoaded_iff_misses : ReportsLoaded storedAsHash (afterMisses (.ok 0)) := by
  apply ((reportsLoaded_iff reach_beforeMisses_of_loads).2 _ _ (kept_askForMisses _) _ (step_askForMisses (.ok 0))).mpr
  · intro req _ i
    exact fun _ _ => trivial
  · exact fun _ _ h => by cases h

/-- The load of index `3` into block `11` fails with half of it overwritten. The block is reported, the maps still have
it for index `1`, and it holds neither. -/
theorem reports_failed_load : ¬∀ s : GSAPrefetchEngine (Fin 1) Nat Nat 1, Reach (GSAPrefetchEngine.step oneExtra storedAsHash)
    (fun s e => e.Kept oneExtra s ∧ e.Supplied storedAsHash s) (GSAPrefetchEngine.init promptBlocks) s →
    ReportsLoaded storedAsHash s := by
  intro hclaim
  have hreach : Reach (GSAPrefetchEngine.step oneExtra storedAsHash)
      (fun s e => e.Kept oneExtra s ∧ e.Supplied storedAsHash s) (GSAPrefetchEngine.init promptBlocks)
      (afterMisses (.fail 77)) :=
    (reach_beforeMisses_of_loads.mono fun _ _ hg => ⟨hg.1, hg.2.1⟩).next
      ⟨kept_askForMisses _, fun _ _ h => by cases h⟩ (step_askForMisses (.fail 77))
  have hreported : (11 : Int) ∈ ((afterMisses (.fail 77)).rows 0 5).reported := by decide +kernel
  obtain ⟨req, hreq⟩ : ∃ req, (afterMisses (.fail 77)).requests 0 = some req := Option.isSome_iff_exists.mp rfl
  obtain ⟨idx, _, hblock, hholds⟩ := (hclaim _ hreach).reported 0 req 5 hreq rfl 0 11 hreported
  have hindex : ((afterMisses (.fail 77)).requests 0).map (fun req => ((req.maps 0).blocks[(11 : Int)]?, req.allBlocksHash)) =
      some (some 1, [0, 10, 20, 30, 40]) := by decide +kernel
  rw [hreq, Option.map_some, Option.some_inj, Prod.mk.injEq, hblock, Option.some_inj] at hindex
  have hcontent := hholds 10 (by rw [hindex.1, hindex.2]; rfl)
  have hfailed : (afterMisses (.fail 77)).hbm 0 11 = 77 := by decide +kernel
  rw [hfailed] at hcontent
  cases hcontent

end Engine

end UnifiedCache.Sparse.GSAPrefetch
