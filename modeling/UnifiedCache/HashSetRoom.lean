import UnifiedCache.HashSetRefinement

/-! An insertion returns after any calls, also where an unsafe removal has hidden a key: a shard
always has an empty slot, and the search comes to it. -/

namespace UnifiedCache.HashSet

open LinearProbe

variable {Key : Type*}

structure Roomy (s : Shard Key) : Prop where
  cap : s.keys.length = 0 ∨ ∃ n, 3 ≤ n ∧ s.keys.length = 2 ^ n
  used : s.used = occupied s.keys
  room : s.keys.length ≠ 0 → s.used < s.keys.length

theorem empty_room (i : Nat) : Roomy ((empty : HashSet Key).shards i) :=
  ⟨Or.inl rfl, rfl, fun h => absurd rfl h⟩

theorem Roomy.set {s : Shard Key} (h : Roomy s) (hr : s.used + 1 < s.keys.length) {i : Nat}
    (hi : i < s.keys.length) (hn : slotAt s.keys i = none) (k : Key) :
    Roomy ⟨s.keys.set i (some k), s.used + 1⟩ := by
  have hocc := occupied_set hi (some k)
  simp only [hn, Option.isSome_none, Option.isSome_some, if_true] at hocc
  refine ⟨by simpa using h.cap, ?_, fun _ => by simpa using hr⟩
  simpa [h.used] using hocc.symm

theorem Roomy.remove {s : Shard Key} (h : Roomy s) {i : Nat} {k : Key} (hi : slotAt s.keys i = some k) :
    Roomy ⟨s.keys.set i none, s.used - 1⟩ := by
  have hocc := occupied_set (slotAt_lt hi) none
  have hroom := h.room (by have := slotAt_lt hi; omega)
  simp only [hi, Option.isSome_none, Option.isSome_some, if_true] at hocc
  refine ⟨by simpa using h.cap, ?_, fun _ => by simp only [List.length_set]; omega⟩
  simp only [h.used]
  simp at hocc
  omega

variable (hash : Key → Nat) (shardBits : Nat)

theorem reinsert_room {s : Shard Key} {n : Nat} (hc : s.keys.length = 2 ^ n) (hu : s.used = occupied s.keys)
    (hr : s.used < s.keys.length) (k : Key) :
    ∃ s', reinsert hash shardBits s k = some s' ∧ s'.keys.length = s.keys.length ∧
      s'.used = occupied s'.keys ∧ s'.used = s.used + 1 := by
  obtain ⟨i, hi, hn⟩ := exists_empty (hu ▸ hr)
  obtain ⟨d, hd, hdi⟩ := exists_ringSlot (home hash shardBits k) hi
  have hex : ∃ d, slotAt s.keys (ringSlot s.keys.length (home hash shardBits k) d) = none :=
    ⟨d, hdi ▸ hn⟩
  classical
  have hfirst := Nat.find_spec hex
  have hle : Nat.find hex ≤ d := Nat.find_min' hex (hdi ▸ hn)
  have hfill : Filled s.keys (home hash shardBits k) (Nat.find hex) := fun e he => Nat.find_min hex he
  have hlt := ringSlot_lt (by omega : 0 < s.keys.length) (home hash shardBits k) (Nat.find hex)
  have hocc := occupied_set hlt (some k)
  simp only [hfirst, Option.isSome_none, Option.isSome_some, if_true] at hocc
  refine ⟨⟨s.keys.set (ringSlot s.keys.length (home hash shardBits k) (Nat.find hex)) (some k),
    s.used + 1⟩, ?_, by simp, ?_, rfl⟩
  · have hstart : startSlot shardBits (hash k) s.keys.length =
        ringSlot s.keys.length (home hash shardBits k) 0 := by rw [hc, startSlot_eq]
    rw [reinsert, hstart, firstEmpty_eq hc hfill hfirst 0 _ (Nat.zero_le _) (by omega), Option.map_some]
  · simpa [hu] using hocc.symm

theorem reinsert_all_room {n : Nat} (ks : List Key) (s : Shard Key) (hc : s.keys.length = 2 ^ n)
    (hu : s.used = occupied s.keys) (hr : s.used + ks.length < s.keys.length) :
    ∃ s', ks.foldlM (reinsert hash shardBits) s = some s' ∧ s'.keys.length = s.keys.length ∧
      s'.used = occupied s'.keys ∧ s'.used = s.used + ks.length := by
  induction ks generalizing s with
  | nil => exact ⟨s, rfl, rfl, hu, rfl⟩
  | cons k ks ih =>
    simp only [List.length_cons] at hr
    obtain ⟨s₁, he₁, hl₁, hu₁, ho₁⟩ :=
      reinsert_room hash shardBits hc hu (by omega) k
    obtain ⟨s₂, he₂, hl₂, hu₂, ho₂⟩ := ih s₁ (by omega) hu₁ (by omega)
    refine ⟨s₂, ?_, by omega, hu₂, by simp only [List.length_cons]; omega⟩
    simp [List.foldlM_cons, he₁, he₂]

theorem Roomy.rehash {s : Shard Key} (h : Roomy s) :
    ∃ s', rehashShard hash shardBits s = some s' ∧ Roomy s' ∧ s'.used + 1 < s'.keys.length := by
  have hpow : ∃ n, 3 ≤ n ∧ (if s.keys.length = 0 then 8 else s.keys.length * 2) = 2 ^ n := by
    rcases h.cap with hc | ⟨n, hn, he⟩
    · exact ⟨3, le_refl _, by simp [hc]⟩
    · have hc : s.keys.length ≠ 0 := by
        rw [he]
        positivity
      exact ⟨n + 1, by omega, by rw [if_neg hc, he, Nat.pow_succ]⟩
  obtain ⟨n, hn, hcap⟩ := hpow
  have hroom : (s.keys.filterMap id).length + 1 < 2 ^ n := by
    rw [length_keys, ← h.used, ← hcap]
    by_cases hc : s.keys.length = 0
    · have : s.used = 0 := by rw [h.used, List.length_eq_zero_iff.mp hc]; rfl
      simp [hc, this]
    · have := h.room hc
      rw [if_neg hc]
      omega
  have hocc : occupied (List.replicate (2 ^ n) (none : Option Key)) = 0 := by
    simp [occupied, List.countP_replicate]
  obtain ⟨s', he, hl, hu, ho⟩ := reinsert_all_room hash shardBits (n := n)
    (s.keys.filterMap id) ⟨List.replicate (2 ^ n) none, 0⟩ (by simp) (by simp [hocc])
    (by simp only [List.length_replicate]; omega)
  simp only [List.length_replicate, Nat.zero_add] at hl ho
  exact ⟨s', by simpa only [rehashShard, hcap] using he, ⟨Or.inr ⟨n, hn, hl⟩, hu, fun _ => by omega⟩, by omega⟩

variable [DecidableEq Key]

theorem Roomy.searchFor {s : Shard Key} (h : Roomy s) (hc : s.keys.length ≠ 0) (k : Key) :
    ∃ i < s.keys.length, (slotAt s.keys i = some k ∧ HashSet.searchFor hash shardBits s k = .found i) ∨
      (slotAt s.keys i = none ∧ HashSet.searchFor hash shardBits s k = .empty i) := by
  obtain ⟨n, _, hn⟩ := h.cap.resolve_left hc
  obtain ⟨d, hd, hstop⟩ := exists_stops (h.used ▸ h.room hc) (home hash shardBits k) k
  have hstart : startSlot shardBits (hash k) s.keys.length =
      ringSlot s.keys.length (home hash shardBits k) 0 := by rw [hn, startSlot_eq]
  have he := search_eq hn hd hstop 0 s.keys.length (Nat.zero_le _) (by omega)
  rw [← hstart] at he
  refine ⟨ringSlot s.keys.length (home hash shardBits k) d, ringSlot_lt (by omega) _ _, ?_⟩
  rcases hstop.2 with hs | hs
  · exact Or.inr ⟨hs, he.trans (if_neg (by simp [hs]))⟩
  · exact Or.inl ⟨hs, he.trans (if_pos hs)⟩

theorem insertInto_room {hs : HashSet Key} (h : ∀ i, Roomy (hs.shards i)) {s : Shard Key} (hs' : Roomy s)
    (hr : s.used + 1 < s.keys.length) (k : Key) :
    ∃ hs₁, insertInto hash shardBits hs s k = some hs₁ ∧ ∀ i, Roomy (hs₁.shards i) := by
  have hset : ∀ s, Roomy s → ∀ i, Roomy ((setShard hs (shardIndex shardBits (hash k)) s).shards i) := by
    intro s hs' i
    by_cases hi : i = shardIndex shardBits (hash k)
    · simpa [setShard, hi] using hs'
    · simpa [setShard, hi] using h i
  obtain ⟨i, hi, ⟨_, he⟩ | ⟨hn, he⟩⟩ := hs'.searchFor hash shardBits (by omega) k
  · exact ⟨_, by rw [insertInto, he], hset s hs'⟩
  · have hins : insertInto hash shardBits hs s k = some { setShard hs (shardIndex shardBits (hash k))
        ⟨s.keys.set i (some k), s.used + 1⟩ with size := hs.size + 1 } := by rw [insertInto, he]
    exact ⟨_, hins, hset _ (hs'.set hr hi hn k)⟩

theorem insert_room {hs : HashSet Key} (h : ∀ i, Roomy (hs.shards i)) (k : Key) :
    ∃ hs₁, insert hash shardBits hs k = some hs₁ ∧ ∀ i, Roomy (hs₁.shards i) := by
  have hok := h (shardIndex shardBits (hash k))
  by_cases hload : (hs.shards (shardIndex shardBits (hash k))).used * 4 ≥
      (hs.shards (shardIndex shardBits (hash k))).keys.length * 3
  · obtain ⟨s, he, hs', hr⟩ := hok.rehash hash shardBits
    obtain ⟨hs₁, h₁, h₂⟩ := insertInto_room hash shardBits h hs' hr k
    have hc : s.keys.length ≠ 0 := by omega
    exact ⟨hs₁, by simp [insert, hload, he, List.length_eq_zero_iff.not.mp hc, h₁], h₂⟩
  · have hc : (hs.shards (shardIndex shardBits (hash k))).keys.length ≠ 0 := by omega
    have hr : (hs.shards (shardIndex shardBits (hash k))).used + 1 <
        (hs.shards (shardIndex shardBits (hash k))).keys.length := by
      obtain ⟨n, hn, he⟩ := hok.cap.resolve_left hc
      have : 2 ^ 3 ≤ 2 ^ n := Nat.pow_le_pow_right (by omega) hn
      omega
    obtain ⟨hs₁, h₁, h₂⟩ := insertInto_room hash shardBits h hok hr k
    exact ⟨hs₁, by simp [insert, hload, List.length_eq_zero_iff.not.mp hc, h₁], h₂⟩

theorem remove_room {hs : HashSet Key} (h : ∀ i, Roomy (hs.shards i)) (k : Key) :
    ∀ i, Roomy ((remove hash shardBits hs k).shards i) := by
  intro i
  by_cases hc : (hs.shards (shardIndex shardBits (hash k))).keys.length = 0
  · simpa [remove, hc] using h i
  · obtain ⟨j, hj, ⟨hs', he⟩ | ⟨_, he⟩⟩ :=
      (h (shardIndex shardBits (hash k))).searchFor hash shardBits hc k
    · by_cases hi : i = shardIndex shardBits (hash k)
      · subst hi
        simpa [remove, hc, he, setShard] using (h _).remove hs'
      · simpa [remove, hc, he, setShard, hi] using h i
    · simpa [remove, hc, he] using h i

end UnifiedCache.HashSet
