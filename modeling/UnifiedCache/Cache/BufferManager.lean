import UnifiedCache.Cache.Handles

/-! Lookups of the cache store. A block counts as a hit when the buffer has a node for
its first shard, and the backend is asked about the others only. -/

namespace UnifiedCache.CacheStore

open PinnedPool StepSystem

/-- The lookups of a backend. -/
structure StoreV1 where
  lookup : List BlockId → Option (List Bool)
  lookupOnPrefix : List BlockId → Option Int

/-- A backend answers hits for blocks that are present only. -/
structure StoreV1.Sound (backend : StoreV1) (present : BlockId → Prop) : Prop where
  lookup : ∀ (blocks : List BlockId) (results : List Bool), backend.lookup blocks = some results →
    ∀ (i : Nat) (b : BlockId), blocks[i]? = some b → results[i]? = some true → present b
  lookupOnPrefix : ∀ (blocks : List BlockId) (n : Int), backend.lookupOnPrefix blocks = some n →
    -1 ≤ n ∧ n < blocks.length ∧ ∀ (i : Nat) (b : BlockId), blocks[i]? = some b → i ≤ n → present b

namespace BufferManager

/-- The blocks that the buffer misses, with their places. -/
def miss (exist : BlockId → Bool) (blocks : List BlockId) : List (BlockId × Nat) :=
  blocks.zipIdx.filter fun x => !exist x.1

def lookupFast (exist : BlockId → Bool) (backend : StoreV1) (blocks : List BlockId) : Option (List Bool) :=
  let results := blocks.map exist
  let missBlk := (miss exist blocks).map Prod.fst
  let missIdx := (miss exist blocks).map Prod.snd
  if missBlk = [] then some results
  else (backend.lookup missBlk).map fun backendVec =>
    (missIdx.zip backendVec).foldl (fun results x => results.set x.1 x.2) results

def lookupOnPrefixFast (exist : BlockId → Bool) (backend : StoreV1) (blocks : List BlockId) : Option Int :=
  let missBlk := (miss exist blocks).map Prod.fst
  let missIdx := (miss exist blocks).map Prod.snd
  if missBlk = [] then some ((blocks.length : Int) - 1)
  else (backend.lookupOnPrefix missBlk).map fun result : Int =>
    if (result + 1).toNat = missIdx.length then (blocks.length : Int) - 1
    else ((missIdx[(result + 1).toNat]?.getD 0 : Nat) : Int) - 1

/-- Without a buffer the backend answers. -/
def lookup (buffer : Option (BlockId → Bool)) (backend : StoreV1) (blocks : List BlockId) :
    Option (List Bool) :=
  match buffer with
  | none => backend.lookup blocks
  | some exist => lookupFast exist backend blocks

def lookupOnPrefix (buffer : Option (BlockId → Bool)) (backend : StoreV1) (blocks : List BlockId) :
    Option Int :=
  match buffer with
  | none => backend.lookupOnPrefix blocks
  | some exist => lookupOnPrefixFast exist backend blocks

variable {exist : BlockId → Bool} {backend : StoreV1} {present : BlockId → Prop} {blocks : List BlockId}
  {b : BlockId} {i : Nat}

theorem mem_miss (h : (b, i) ∈ miss exist blocks) : blocks[i]? = some b ∧ exist b = false := by
  obtain ⟨hm, he⟩ := List.mem_filter.mp h
  exact ⟨List.mk_mem_zipIdx_iff_getElem?.mp hm, by simpa using he⟩

theorem mem_miss_of_not_exist (hb : blocks[i]? = some b) (he : exist b = false) :
    (b, i) ∈ miss exist blocks :=
  List.mem_filter.mpr ⟨List.mk_mem_zipIdx_iff_getElem?.mpr hb, by simp [he]⟩

theorem miss_sorted (exist : BlockId → Bool) (blocks : List BlockId) :
    (miss exist blocks).Pairwise fun x y => x.2 < y.2 := by
  have hp : (blocks.zipIdx.map Prod.snd).Pairwise (· < ·) := by
    rw [List.zipIdx_map_snd]
    exact List.pairwise_lt_range'
  exact (List.pairwise_map.mp hp).sublist List.filter_sublist

theorem getElem?_foldl_set {l : List (Nat × Bool)} {results : List Bool}
    (h : (l.foldl (fun results x => results.set x.1 x.2) results)[i]? = some true) :
    results[i]? = some true ∨ (i, true) ∈ l := by
  induction l generalizing results with
  | nil => exact Or.inl h
  | cons x l ih =>
    rcases ih h with h | h
    · by_cases hx : x.1 = i
      · obtain ⟨j, v⟩ := x
        obtain rfl : j = i := hx
        rw [List.getElem?_set_self'] at h
        obtain ⟨_, _, hv⟩ := Option.map_eq_some_iff.mp h
        obtain rfl : v = true := hv
        exact Or.inr List.mem_cons_self
      · rw [List.getElem?_set_ne hx] at h
        exact Or.inl h
    · exact Or.inr (List.mem_cons_of_mem _ h)

theorem hit_of_lookup {results : List Bool} (hs : backend.Sound present)
    (h : lookupFast exist backend blocks = some results) (hb : blocks[i]? = some b)
    (hi : results[i]? = some true) : exist b = true ∨ present b := by
  have hmap : (blocks.map exist)[i]? = some true → exist b = true := by
    intro he
    simpa [hb] using he
  simp only [lookupFast] at h
  split_ifs at h with hm
  · obtain rfl := Option.some.inj h
    exact Or.inl (hmap hi)
  · obtain ⟨backendVec, hl, rfl⟩ := Option.map_eq_some_iff.mp h
    rcases getElem?_foldl_set hi with he | hz
    · exact Or.inl (hmap he)
    · obtain ⟨m, hm, he⟩ := List.mem_iff_getElem.mp hz
      rw [List.getElem_zip] at he
      obtain ⟨hidx, hv⟩ := Prod.mk.inj he
      obtain ⟨hm₁, hm₂⟩ := Nat.lt_min.mp (List.length_zip ▸ hm)
      rw [List.length_map] at hm₁
      rw [List.getElem_map] at hidx
      have hmiss := mem_miss (i := i) (b := (miss exist blocks)[m].1) (by
        rw [← hidx]
        exact List.getElem_mem hm₁)
      obtain rfl := Option.some.inj (hb.symm.trans hmiss.1)
      refine Or.inr (hs.lookup _ _ hl m _ ?_ ?_)
      · rw [List.getElem?_map, List.getElem?_eq_getElem hm₁]
        rfl
      · rw [List.getElem?_eq_getElem hm₂, hv]

theorem hit_of_lookupOnPrefix {n : Int} (hs : backend.Sound present)
    (h : lookupOnPrefixFast exist backend blocks = some n) (hb : blocks[i]? = some b)
    (hi : (i : Int) ≤ n) : exist b = true ∨ present b := by
  by_cases he : exist b = true
  · exact Or.inl he
  obtain ⟨m, hm, hmi⟩ := List.mem_iff_getElem.mp (mem_miss_of_not_exist hb (by simpa using he))
  simp only [lookupOnPrefixFast] at h
  split_ifs at h with hnil
  · rw [List.map_eq_nil_iff] at hnil
    simp [hnil] at hm
  · obtain ⟨result, hl, rfl⟩ := Option.map_eq_some_iff.mp h
    obtain ⟨hge, hlt, hpresent⟩ := hs.lookupOnPrefix _ _ hl
    rw [List.length_map] at hlt
    refine Or.inr (hpresent m b ?_ ?_)
    · rw [List.getElem?_map, List.getElem?_eq_getElem hm, hmi]
      rfl
    · split_ifs at hi with hall
      · rw [List.length_map] at hall
        omega
      · rw [List.length_map] at hall
        have hr : (result + 1).toNat < (miss exist blocks).length := by omega
        rw [List.getElem?_map, List.getElem?_eq_getElem hr] at hi
        simp only [Option.map_some, Option.getD_some] at hi
        by_contra hgt
        have hle : (result + 1).toNat ≤ m := by omega
        rcases Nat.eq_or_lt_of_le hle with he | hlt'
        · simp only [he, hmi] at hi
          omega
        · have := List.pairwise_iff_getElem.mp (miss_sorted exist blocks) _ _ hr hm hlt'
          rw [hmi] at this
          omega

end BufferManager

namespace Store

variable {Data : Type} {config : Config Data} {data : Nat → Data} {s s' : Store Data} {n : Nat}

def exist (s : Store Data) (b : BlockId) : Bool := (s.pool.find (b, 0)).isSome

/-- A ready node has the data of a shard, other than node `i`. -/
def ReadyBut (s : Store Data) (i : Nat) (k : BlockId × Nat) : Prop :=
  ∃ j, j ≠ i ∧ s.pool.key j = some k ∧ s.pool.ready j = true

/-- Each of the `n` shards of a block can be read from a ready node or from the backend. -/
def Served (n : Nat) (s : Store Data) (b : BlockId) : Prop :=
  ∀ i < n, (∃ j, s.pool.key j = some (b, i) ∧ s.pool.ready j = true) ∨ (b, i) ∈ s.stored

/-- Whatever block a lookup counts as a hit is served, with any backend that answers
for the blocks it has all shards of. -/
def ServesHits (n : Nat) (s : Store Data) : Prop :=
  ∀ backend : StoreV1, backend.Sound (fun b => ∀ i < n, (b, i) ∈ s.stored) →
    ∀ buffer, buffer = some s.exist ∨ buffer = none → ∀ blocks : List BlockId,
      (∀ results, BufferManager.lookup buffer backend blocks = some results →
        ∀ (i : Nat) (b : BlockId), blocks[i]? = some b → results[i]? = some true → Served n s b) ∧
      ∀ m, BufferManager.lookupOnPrefix buffer backend blocks = some m →
        ∀ (i : Nat) (b : BlockId), blocks[i]? = some b → (i : Int) ≤ m → Served n s b

/-- The key that a step takes the node under the hand for. -/
def taking (s : Store Data) : Event Data → Option (BlockId × Nat)
  | .load .takeNode => s.loader.allocKey
  | .dump .takeNode => s.dumper.allocKey
  | _ => none

/-- A node is taken for the first shard of a block only when all its shards can be read
elsewhere, and from a ready shard of a block that can be hit only when it is stored. -/
def TakesServed (n : Nat) (s : Store Data) (e : Event Data) : Prop :=
  ∀ k ∈ s.taking e, s.pool.reference s.pool.hand = 0 →
    (k.2 = 0 → ∀ i < n, s.ReadyBut s.pool.hand (k.1, i) ∨ (k.1, i) ∈ s.stored) ∧
    ∀ b, ∀ i < n, s.pool.key s.pool.hand = some (b, i) → s.pool.ready s.pool.hand = true →
      (∃ j, j ≠ s.pool.hand ∧ s.pool.key j = some (b, 0)) → (b, i) ∈ s.stored

theorem exist_iff (hb : Base s) {b : BlockId} : s.exist b = true ↔ ∃ j, s.pool.key j = some (b, 0) := by
  rw [exist, Option.isSome_iff_exists]
  constructor
  · rintro ⟨j, hj⟩
    exact ⟨j, find_some hj⟩
  · rintro ⟨j, hj⟩
    exact ⟨j, hb.held.ok.find_eq_some_iff.mpr hj⟩

theorem servesHits_iff (hb : Base s) :
    ServesHits n s ↔ ∀ b j, s.pool.key j = some (b, 0) → Served n s b := by
  constructor
  · intro h b j hk
    -- A backend that has nothing leaves the answer to the buffer.
    have hs : StoreV1.Sound ⟨fun blocks => some (blocks.map fun _ => false), fun _ => none⟩
        fun b => ∀ i < n, (b, i) ∈ s.stored := by
      refine ⟨fun blocks results hl i b hbi hi => ?_, fun _ _ hl => (by cases hl)⟩
      obtain rfl := Option.some.inj hl
      rw [List.getElem?_map, hbi] at hi
      cases hi
    have he : s.exist b = true := (exist_iff hb).mpr ⟨j, hk⟩
    refine (h _ hs _ (Or.inl rfl) [b]).1 [true] ?_ 0 b rfl rfl
    simp [BufferManager.lookup, BufferManager.lookupFast, BufferManager.miss, he]
  · intro h backend hs buffer hbuffer blocks
    have hserved : ∀ b, s.exist b = true ∨ (∀ i < n, (b, i) ∈ s.stored) → Served n s b := by
      rintro b (he | hp)
      · obtain ⟨j, hj⟩ := (exist_iff hb).mp he
        exact h b j hj
      · exact fun i hi => Or.inr (hp i hi)
    refine ⟨fun results hl i b hbi hi => hserved b ?_, fun m hl i b hbi hi => hserved b ?_⟩
    · rcases hbuffer with rfl | rfl
      · exact BufferManager.hit_of_lookup hs hl hbi hi
      · exact Or.inr (hs.lookup blocks results hl i b hbi hi)
    · rcases hbuffer with rfl | rfl
      · exact BufferManager.hit_of_lookupOnPrefix hs hl hbi hi
      · exact Or.inr ((hs.lookupOnPrefix blocks m hl).2.2 i b hbi hi)

/-- A step takes the node under the hand for a new key, or leaves every key and mark. -/
theorem step_taking {e : Event Data} (hs : s.step config e = some s') :
    (∃ k, s.taking e = some k ∧ s.pool.reference s.pool.hand = 0 ∧
      s'.pool = s.pool.advance.rekey s.pool.hand k ∧ s'.stored = s.stored) ∨
    s.taking e = none ∧ s'.pool.key = s.pool.key ∧
      (∀ i, s.pool.ready i = true → s'.pool.ready i = true) ∧ ∀ x ∈ s.stored, x ∈ s'.stored := by
  have hsame : ∀ {t : Store Data}, t.pool.key = s.pool.key → t.pool.ready = s.pool.ready →
      t.stored = s.stored → t.pool.key = s.pool.key ∧
        (∀ i, s.pool.ready i = true → t.pool.ready i = true) ∧ ∀ x ∈ s.stored, x ∈ t.stored :=
    fun hk hr hst => ⟨hk, fun _ h => hr ▸ h, fun _ h => hst ▸ h⟩
  have hmark : ∀ j i, s.pool.ready i = true → (s.pool.markReady j).ready i = true := by
    intro j i h
    simp only [markReady, Function.update_apply, h, ite_self]
  cases e with
  | load e =>
    change s.loadStep config e = some s' at hs
    cases e with
    | takeNode =>
      simp only [loadStep] at hs
      split at hs
      · rename_i hl
        split_ifs at hs with hr
        obtain rfl := Option.some.inj hs
        exact Or.inl ⟨_, by rw [taking, hl]; rfl, hr, rfl, rfl⟩
      · cases hs
    | skipNode =>
      simp only [loadStep] at hs
      split at hs
      · split_ifs at hs
        obtain rfl := Option.some.inj hs
        exact Or.inr ⟨rfl, hsame rfl rfl rfl⟩
      · cases hs
    | _ =>
      refine Or.inr ⟨rfl, ?_⟩
      cases loadStep_inv hs with
      | takeNode hl => simp [loadStep, hl] at hs
      | _ => exact hsame rfl rfl rfl
  | transfer e =>
    change s.transferStep e = some s' at hs
    refine Or.inr ⟨rfl, ?_⟩
    cases transferStep_inv hs with
    | mark => exact ⟨rfl, hmark _, fun _ => id⟩
    | _ => exact hsame rfl rfl rfl
  | dump e =>
    change s.dumpStep config e = some s' at hs
    cases e with
    | takeNode =>
      simp only [dumpStep] at hs
      split at hs
      · rename_i hd
        split_ifs at hs with hr
        obtain rfl := Option.some.inj hs
        exact Or.inl ⟨_, by rw [taking, hd]; rfl, hr, rfl, rfl⟩
      · cases hs
    | skipNode =>
      simp only [dumpStep] at hs
      split at hs
      · split_ifs at hs
        obtain rfl := Option.some.inj hs
        exact Or.inr ⟨rfl, hsame rfl rfl rfl⟩
      · cases hs
    | _ =>
      refine Or.inr ⟨rfl, ?_⟩
      cases dumpStep_inv hs with
      | takeNode hd => simp [dumpStep, hd] at hs
      | mark => exact ⟨rfl, hmark _, fun _ => id⟩
      | _ => exact hsame rfl rfl rfl
  | backendDump e =>
    change s.backendDumpStep e = some s' at hs
    cases backendDumpStep_inv hs <;> exact Or.inr ⟨rfl, hsame rfl rfl rfl⟩
  | backend e =>
    change s.backendStep config e = some s' at hs
    refine Or.inr ⟨rfl, ?_⟩
    cases backendStep_inv hs with
    | @dumpDone job success =>
      refine ⟨rfl, fun _ => id, fun x hx => ?_⟩
      cases success
      · exact hx
      · exact List.mem_append_right _ hx
    | archive => exact ⟨rfl, fun _ => id, fun _ => List.mem_cons_of_mem _⟩
    | _ => exact hsame rfl rfl rfl
  | user e =>
    change s.userStep config e = some s' at hs
    cases userStep_inv hs <;> exact Or.inr ⟨rfl, hsame rfl rfl rfl⟩

/-- A step from a state that serves what it counts as hits leads to one exactly when it
takes nodes as required. -/
theorem servesHits_step {e : Event Data} (hs : s.step config e = some s') (hb : Base s)
    (h : ServesHits n s) : ServesHits n s' ↔ TakesServed n s e := by
  rw [servesHits_iff hb] at h
  rw [servesHits_iff ((step_inv hs).base hb)]
  rcases step_taking hs with ⟨k, hk, hr, hpool, hstored⟩ | ⟨hnone, hkey, hready, hstored⟩
  · have hfresh : ∀ j, s.pool.key j ≠ some k := by
      cases e with
      | load e =>
        cases e with
        | takeNode => exact hb.loadKey k hk
        | _ => cases hk
      | dump e =>
        cases e with
        | takeNode => exact hb.dumpKey k hk
        | _ => cases hk
      | _ => cases hk
    have hself : s'.pool.key s.pool.hand = some k := by simp [hpool, rekey]
    have hunready : s'.pool.ready s.pool.hand = false := by simp [hpool, rekey]
    have hother : ∀ j, j ≠ s.pool.hand → s'.pool.key j = s.pool.key j ∧
        s'.pool.ready j = s.pool.ready j := by
      intro j hj
      simp [hpool, rekey, hj]
    have hbut : ∀ x, (∃ j, s'.pool.key j = some x ∧ s'.pool.ready j = true) ↔ s.ReadyBut s.pool.hand x := by
      intro x
      constructor
      · rintro ⟨j, hj, hd⟩
        have hne : j ≠ s.pool.hand := by
          rintro rfl
          rw [hunready] at hd
          cases hd
        rw [(hother j hne).1] at hj
        rw [(hother j hne).2] at hd
        exact ⟨j, hne, hj, hd⟩
      · rintro ⟨j, hne, hj, hd⟩
        exact ⟨j, by rw [(hother j hne).1, hj], by rw [(hother j hne).2, hd]⟩
    simp only [Served, hbut, hstored]
    constructor
    · intro h' k' hk' _
      obtain rfl := Option.some.inj (hk.symm.trans hk')
      refine ⟨fun h0 i hi => ?_, fun b i hi hold hd hcopy => ?_⟩
      · exact h' k.1 s.pool.hand (by rw [hself, ← h0]) i hi
      · obtain ⟨j, hne, hj⟩ := hcopy
        rcases h' b j (by rw [(hother j hne).1, hj]) i hi with ⟨j', hne', hj', _⟩ | hst
        · exact absurd (hb.held.ok.unique _ _ _ hj' hold) hne'
        · exact hst
    · intro hg b j hj i hi
      obtain ⟨hnew, hold⟩ := hg k hk hr
      by_cases hjh : j = s.pool.hand
      · subst hjh
        obtain rfl := Option.some.inj (hself.symm.trans hj)
        exact hnew rfl i hi
      · rw [(hother j hjh).1] at hj
        rcases h b j hj i hi with ⟨j', hj', hd⟩ | hst
        · by_cases hjh' : j' = s.pool.hand
          · subst hjh'
            exact Or.inr (hold b i hi hj' hd ⟨j, hjh, hj⟩)
          · exact Or.inl ⟨j', hjh', hj', hd⟩
        · exact Or.inr hst
  · constructor
    · intro _ k hk
      rw [hnone] at hk
      cases hk
    · intro _ b j hj i hi
      rw [hkey] at hj
      rcases h b j hj i hi with ⟨j', hj', hr⟩ | hst
      · exact Or.inl ⟨j', by rw [hkey]; exact hj', hready j' hr⟩
      · exact Or.inr (hstored _ hst)

theorem servesHits_setup (hn : 1 ≤ config.nNode) : ServesHits n (setup config data) :=
  (servesHits_iff (base_setup hn data)).mpr fun _ _ h => by cases h

/-- In a run whose steps all meet the condition every hit is served, and the next step
keeps this exactly when it meets the condition. -/
theorem servesHits_of_takesServed (hc : config.Accepted)
    (h : Reach (step config) (TakesServed n) (setup config data) s) : ServesHits n s ∧
      ∀ e s', s.step config e = some s' → (ServesHits n s' ↔ TakesServed n s e) := by
  have hn : 1 ≤ config.nNode := le_trans (by norm_num) hc.1
  have hinv := h.invariant (fun s => Base s ∧ ServesHits n s) ⟨base_setup hn data, servesHits_setup hn⟩
    fun s e s' hi hg hs => ⟨(step_inv hs).base hi.1, (servesHits_step hs hi.1 hi.2).mpr hg⟩
  exact ⟨hinv.2, fun e s' hs => servesHits_step hs hinv.1 hinv.2⟩

/-- A node without a key is taken for a block that is stored. -/
def TakesStored (n : Nat) (s : Store Data) (e : Event Data) : Prop :=
  ∀ k ∈ s.taking e, s.pool.key s.pool.hand = none ∧ ∀ i < n, (k.1, i) ∈ s.stored

instance (n : Nat) (s : Store Data) (e : Event Data) : Decidable (TakesStored n s e) :=
  inferInstanceAs (Decidable (∀ k ∈ s.taking e, _))

theorem TakesStored.takesServed {e : Event Data} (h : TakesStored n s e) : TakesServed n s e := by
  intro k hk _
  obtain ⟨hnone, hst⟩ := h k hk
  refine ⟨fun _ i hi => Or.inr (hst i hi), fun b i _ hkey => ?_⟩
  rw [hnone] at hkey
  cases hkey

theorem servesHits_takeStored : ∃ s, Reach (step Config.smallest) (TakesServed 2)
    (setup .smallest fun _ => 0) s ∧ s.exist (Vector.replicate 16 0) = true ∧ ServesHits 2 s := by
  have hrun : (run (checked (fun s e => decide (TakesStored 2 s e)) (step Config.smallest))
      (setup .smallest fun _ => 0)
      [.backend (.archive (Vector.replicate 16 0, 0)), .backend (.archive (Vector.replicate 16 0, 1)),
        .user (.submit .load [⟨Vector.replicate 16 0, 0, [1]⟩]), .load .pop, .load .check, .load .find,
        .load .takeNode]).any fun s => s.exist (Vector.replicate 16 0) := by decide +kernel
  obtain ⟨s, hs, he⟩ := (Option.any_eq_true _ _).mp hrun
  have hreach := Reach.start.checked (fun s e he => (of_decide_eq_true he : TakesStored 2 s e).takesServed) hs
  exact ⟨s, hreach, he, (servesHits_of_takesServed Config.accepted_smallest hreach).1⟩

/-- The backend refuses a load, whose node keeps its key. -/
theorem not_servesHits_refused : ¬ ∀ (n : Nat) (config : Config Nat) (data : Nat → Nat) (s : Store Nat),
    1 ≤ n → config.Accepted → Reach (step config) (fun _ _ => True) (setup config data) s →
    ServesHits n s := by
  intro hall
  have hrun : (run (step Config.smallest) (setup .smallest fun _ => 0)
      [.user (.submit .load [⟨Vector.replicate 16 0, 0, [1]⟩]), .load .pop, .load .check, .load .find,
        .load .takeNode, .load .find, .load (.submit none), .load .fail, .load .done, .load .release,
        .load .release]).any fun s => s.pool.key 0 = some (Vector.replicate 16 0, 0) ∧
          s.pool.ready 0 = false ∧ s.stored = [] := by decide +kernel
  obtain ⟨s, hs, he⟩ := (Option.any_eq_true _ _).mp hrun
  obtain ⟨hk, hd, hst⟩ := of_decide_eq_true he
  have hreach : Reach (step Config.smallest) (fun _ _ => True) (setup .smallest fun _ => 0) s :=
    Reach.start.run (fun _ _ _ => trivial) hs
  have hb := base_of_reach (by decide) hreach
  have hserves := (servesHits_iff hb).mp (hall 1 _ _ s (le_refl _) Config.accepted_smallest hreach)
  rcases hserves _ 0 hk 0 (by norm_num) with ⟨j, hj, hr⟩ | hmem
  · obtain rfl := hb.held.ok.unique _ _ _ hj hk
    rw [hd] at hr
    cases hr
  · rw [hst] at hmem
    cases hmem

end Store

end UnifiedCache.CacheStore
