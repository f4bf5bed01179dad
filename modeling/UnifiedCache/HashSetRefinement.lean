import UnifiedCache.HashSet

/-! The hash set against the mathematical set. Every call keeps the shards
sound except a `Remove` whose slot lies on the way to another key; such a call
hides that key, and no other call ever gives a wrong answer. -/

namespace UnifiedCache.HashSet

open LinearProbe

variable {Key : Type*} {hash : Key → Nat} {shardBits : Nat}

def home (hash : Key → Nat) (shardBits : Nat) (k : Key) : Nat := hash k >>> shardBits

structure ShardOk (hash : Key → Nat) (shardBits : Nat) (s : Shard Key) : Prop where
  cap : s.keys.length = 0 ∨ ∃ n, 3 ≤ n ∧ s.keys.length = 2 ^ n
  sound : Sound (home hash shardBits) s.keys
  used : s.used = occupied s.keys
  room : s.keys.length ≠ 0 → s.used < s.keys.length

theorem probe_eq {n : Nat} (idx : Nat) : probe idx (2 ^ n) = (idx + 1) % 2 ^ n :=
  Nat.and_two_pow_sub_one_eq_mod _ _

theorem startSlot_eq {n : Nat} (k : Key) :
    startSlot shardBits (hash k) (2 ^ n) = ringSlot (2 ^ n) (home hash shardBits k) 0 :=
  Nat.and_two_pow_sub_one_eq_mod _ _

theorem probe_ringSlot {keys : List (Option Key)} {n : Nat} (hc : keys.length = 2 ^ n) (h d : Nat) :
    probe (ringSlot keys.length h d) keys.length = ringSlot keys.length h (d + 1) := by
  rw [hc, probe_eq, ringSlot_succ]

theorem firstEmpty_eq {keys : List (Option Key)} {n h d : Nat} (hc : keys.length = 2 ^ n)
    (hfill : Filled keys h d) (hn : slotAt keys (ringSlot keys.length h d) = none)
    (e fuel : Nat) (he : e ≤ d) (hf : d < e + fuel) :
    firstEmpty keys fuel (ringSlot keys.length h e) = some (ringSlot keys.length h d) := by
  induction fuel generalizing e with
  | zero => omega
  | succ fuel ih =>
    rcases Nat.lt_or_eq_of_le he with hlt | rfl
    · simp only [firstEmpty, hfill e hlt, if_false, probe_ringSlot hc]
      exact ih (e + 1) hlt (by omega)
    · simp [firstEmpty, hn]

/-- One key moved into a table that has room and does not hold it. -/
theorem reinsert_eq {s : Shard Key} {n : Nat} (hc : s.keys.length = 2 ^ n)
    (hs : Sound (home hash shardBits) s.keys) (hu : s.used = occupied s.keys)
    (hr : occupied s.keys < s.keys.length) {k : Key} (hk : ¬ Stored s.keys k) :
    ∃ s', reinsert hash shardBits s k = some s' ∧ s'.keys.length = s.keys.length ∧
      Sound (home hash shardBits) s'.keys ∧ s'.used = occupied s'.keys ∧
      occupied s'.keys = occupied s.keys + 1 ∧
      ∀ x, Stored s'.keys x ↔ x = k ∨ Stored s.keys x := by
  obtain ⟨d, hd, hstop⟩ := exists_stops hr (home hash shardBits k) k
  have hn : slotAt s.keys (ringSlot s.keys.length (home hash shardBits k) d) = none :=
    hstop.2.resolve_right fun h => hk ⟨_, h⟩
  have hi := ringSlot_lt (by omega : 0 < s.keys.length) (home hash shardBits k) d
  have hocc := occupied_set hi (some k)
  simp only [hn, Option.isSome_none, Option.isSome_some, if_true] at hocc
  refine ⟨⟨s.keys.set (ringSlot s.keys.length (home hash shardBits k) d) (some k), s.used + 1⟩, ?_,
    by simp, hs.fill hd hstop.filled hk, ?_, by simpa using hocc, stored_set hi k hn⟩
  · have hstart : startSlot shardBits (hash k) s.keys.length =
        ringSlot s.keys.length (home hash shardBits k) 0 := by rw [hc, startSlot_eq]
    rw [reinsert, hstart,
      firstEmpty_eq hc hstop.filled hn 0 _ (Nat.zero_le _) (by omega), Option.map_some]
  · simpa [hu] using hocc.symm

theorem reinsert_all (hash : Key → Nat) (shardBits : Nat) {n : Nat} (ks : List Key) (s : Shard Key)
    (hc : s.keys.length = 2 ^ n)
    (hs : Sound (home hash shardBits) s.keys) (hu : s.used = occupied s.keys)
    (hr : occupied s.keys + ks.length < s.keys.length) (hnd : ks.Nodup)
    (hk : ∀ k ∈ ks, ¬ Stored s.keys k) :
    ∃ s', ks.foldlM (reinsert hash shardBits) s = some s' ∧ s'.keys.length = s.keys.length ∧
      Sound (home hash shardBits) s'.keys ∧ s'.used = occupied s'.keys ∧
      occupied s'.keys = occupied s.keys + ks.length ∧
      ∀ x, Stored s'.keys x ↔ x ∈ ks ∨ Stored s.keys x := by
  induction ks generalizing s with
  | nil => exact ⟨s, rfl, rfl, hs, hu, rfl, by simp⟩
  | cons k ks ih =>
    simp only [List.length_cons] at hr
    obtain ⟨s₁, he₁, hl₁, hs₁, hu₁, ho₁, hst₁⟩ :=
      reinsert_eq hc hs hu (by omega) (hk k (by simp))
    have hnd' := List.nodup_cons.mp hnd
    have hk₁ : ∀ x ∈ ks, ¬ Stored s₁.keys x := by
      intro x hx hst
      rcases (hst₁ x).mp hst with rfl | hst
      · exact hnd'.1 hx
      · exact hk x (by simp [hx]) hst
    obtain ⟨s₂, he₂, hl₂, hs₂, hu₂, ho₂, hst₂⟩ :=
      ih s₁ (by omega) hs₁ hu₁ (by omega) hnd'.2 hk₁
    refine ⟨s₂, ?_, by omega, hs₂, hu₂, by simp only [List.length_cons]; omega, ?_⟩
    · simp [List.foldlM_cons, he₁, he₂]
    · intro x
      rw [hst₂, hst₁, List.mem_cons]
      tauto

theorem ShardOk.exists_pow {s : Shard Key} (hs : ShardOk hash shardBits s)
    (hc : s.keys.length ≠ 0) : ∃ n, 3 ≤ n ∧ s.keys.length = 2 ^ n :=
  hs.cap.resolve_left hc

theorem mem_keys_iff (keys : List (Option Key)) (k : Key) :
    k ∈ keys.filterMap id ↔ Stored keys k := by
  simp only [List.mem_filterMap, id, exists_eq_right, Stored, slotAt]
  constructor
  · intro h
    obtain ⟨i, hi, he⟩ := List.getElem_of_mem h
    exact ⟨i, by simp [hi, he]⟩
  · rintro ⟨i, hi⟩
    have hlt : i < keys.length := slotAt_lt hi
    rw [List.getElem?_eq_getElem hlt, Option.getD_some] at hi
    exact hi ▸ List.getElem_mem hlt

theorem length_keys (keys : List (Option Key)) : (keys.filterMap id).length = occupied keys := by
  simp [List.length_filterMap_eq_countP, occupied]

theorem nodup_keys {keys : List (Option Key)}
    (hu : ∀ i j k, slotAt keys i = some k → slotAt keys j = some k → i = j) :
    (keys.filterMap id).Nodup := by
  induction keys with
  | nil => simp
  | cons a keys ih =>
    have htail : (keys.filterMap id).Nodup := ih fun i j k hi hj =>
      Nat.succ.inj (hu (i + 1) (j + 1) k (by simpa [slotAt] using hi) (by simpa [slotAt] using hj))
    cases a with
    | none => simpa using htail
    | some x =>
      simp only [List.filterMap_cons, id, List.nodup_cons]
      refine ⟨fun hx => ?_, htail⟩
      obtain ⟨i, hi⟩ := (mem_keys_iff keys x).mp hx
      have := hu 0 (i + 1) x (by simp [slotAt]) (by simpa [slotAt] using hi)
      omega

/-- The shards together hold `m`: a key is in the shard its hash chooses. -/
structure Represents (hash : Key → Nat) (shardBits : Nat) (hs : HashSet Key) (m : Finset Key) :
    Prop where
  shard : ∀ i, ShardOk hash shardBits (hs.shards i)
  stored : ∀ i k, Stored (hs.shards i).keys k ↔ shardIndex shardBits (hash k) = i ∧ k ∈ m
  size : hs.size = m.card

theorem represents_empty : Represents hash shardBits (empty : HashSet Key) ∅ := by
  refine ⟨fun i => ⟨Or.inl rfl, ?_, rfl, by simp [empty]⟩, ?_, rfl⟩
  · exact sound_replicate _ 0
  · intro i k
    simp [Stored, empty, slotAt]

theorem shardOk_fill {s : Shard Key} (hs : ShardOk hash shardBits s) (hr : s.used + 1 < s.keys.length)
    {k : Key} {d : Nat} (hd : d < s.keys.length)
    (hstop : Stops s.keys (home hash shardBits k) k d)
    (hn : slotAt s.keys (ringSlot s.keys.length (home hash shardBits k) d) = none) :
    ShardOk hash shardBits
      ⟨s.keys.set (ringSlot s.keys.length (home hash shardBits k) d) (some k), s.used + 1⟩ := by
  have hi := ringSlot_lt (by omega : 0 < s.keys.length) (home hash shardBits k) d
  have hocc := occupied_set hi (some k)
  simp only [hn, Option.isSome_none, Option.isSome_some, if_true] at hocc
  refine ⟨by simpa using hs.cap, hs.sound.fill hd hstop.filled (hs.sound.not_stored hstop hn), ?_, ?_⟩
  · simpa [hs.used] using hocc.symm
  · intro _
    simpa using hr

theorem shardOk_remove {s : Shard Key} (hs : ShardOk hash shardBits s) {i : Nat} {k : Key}
    (hi : slotAt s.keys i = some k) (hr : RunsAvoid (home hash shardBits) s.keys i) :
    ShardOk hash shardBits ⟨s.keys.set i none, s.used - 1⟩ := by
  have hlt := slotAt_lt hi
  have hocc := occupied_set hlt none
  simp only [hi, Option.isSome_none, Option.isSome_some, if_true] at hocc
  refine ⟨by simpa using hs.cap, hs.sound.empty hlt hr, ?_, ?_⟩
  · simp only [hs.used]
    simp at hocc
    omega
  · intro _
    have := hs.room (by omega)
    simp only [List.length_set]
    omega

/-- Rehashing keeps the keys and leaves room for one more. -/
theorem ShardOk.rehash {s : Shard Key} (hs : ShardOk hash shardBits s) :
    ∃ s', rehashShard hash shardBits s = some s' ∧ ShardOk hash shardBits s' ∧
      s'.keys.length ≠ 0 ∧ s'.used + 1 < s'.keys.length ∧
      ∀ x, Stored s'.keys x ↔ Stored s.keys x := by
  have hpow : ∃ n, 3 ≤ n ∧ (if s.keys.length = 0 then 8 else s.keys.length * 2) = 2 ^ n := by
    by_cases hc : s.keys.length = 0
    · exact ⟨3, le_refl _, by simp [hc]⟩
    · obtain ⟨n, hn, he⟩ := hs.exists_pow hc
      exact ⟨n + 1, by omega, by rw [if_neg hc, he, Nat.pow_succ]⟩
  obtain ⟨n, hn, hcap⟩ := hpow
  have hroom : (s.keys.filterMap id).length + 1 < 2 ^ n := by
    rw [length_keys, ← hs.used, ← hcap]
    by_cases hc : s.keys.length = 0
    · have : s.used = 0 := by rw [hs.used, List.length_eq_zero_iff.mp hc]; rfl
      simp [hc, this]
    · have := hs.room hc
      rw [if_neg hc]
      omega
  have hocc : occupied (List.replicate (2 ^ n) (none : Option Key)) = 0 := by
    simp [occupied, List.countP_replicate]
  obtain ⟨s', he, hl, hs', hu, ho, hst⟩ := reinsert_all hash shardBits
    (n := n) (s.keys.filterMap id) ⟨List.replicate (2 ^ n) none, 0⟩ (by simp)
    (sound_replicate _ _) (by simp [hocc]) (by simp only [hocc, List.length_replicate]; omega)
    (nodup_keys hs.sound.unique) (fun k _ h => by
      obtain ⟨i, hi⟩ := h
      simp [slotAt_replicate] at hi)
  simp only [List.length_replicate, hocc, Nat.zero_add] at hl ho
  refine ⟨s', by simpa only [rehashShard, hcap] using he, ⟨Or.inr ⟨n, hn, hl⟩, hs', hu, ?_⟩, ?_, ?_, ?_⟩
  · intro _
    omega
  · omega
  · omega
  · intro x
    rw [hst, mem_keys_iff]
    refine or_iff_left ?_
    rintro ⟨i, hi⟩
    simp [slotAt_replicate] at hi

variable [DecidableEq Key]

theorem search_eq {keys : List (Option Key)} {k : Key} {n h d : Nat} (hc : keys.length = 2 ^ n)
    (hd : d < keys.length) (hs : Stops keys h k d) (e fuel : Nat) (he : e ≤ d) (hf : d < e + fuel) :
    search keys k (ringSlot keys.length h 0) fuel (ringSlot keys.length h e) =
      if slotAt keys (ringSlot keys.length h d) = some k then .found (ringSlot keys.length h d)
      else .empty (ringSlot keys.length h d) := by
  induction fuel generalizing e with
  | zero => omega
  | succ fuel ih =>
    rcases Nat.lt_or_eq_of_le he with hlt | rfl
    · have hn := hs.1 e hlt
      have hne : ringSlot keys.length h (e + 1) ≠ ringSlot keys.length h 0 := fun hh =>
        absurd (ringSlot_inj (by omega) (by omega) hh) (by omega)
      simp only [search, hn.1, hn.2, if_false, probe_ringSlot hc, hne]
      exact ih (e + 1) hlt (by omega)
    · rcases hs.2 with hn | hn <;> simp [search, hn]

/-- The search of the three operations ends at the key if it is stored, else at
the first empty slot of its run. -/
theorem ShardOk.searchFor_eq {s : Shard Key} (hs : ShardOk hash shardBits s)
    (hc : s.keys.length ≠ 0) (k : Key) :
    ∃ d < s.keys.length, Stops s.keys (home hash shardBits k) k d ∧
      searchFor hash shardBits s k =
        if slotAt s.keys (ringSlot s.keys.length (home hash shardBits k) d) = some k
        then .found (ringSlot s.keys.length (home hash shardBits k) d)
        else .empty (ringSlot s.keys.length (home hash shardBits k) d) := by
  obtain ⟨n, _, hn⟩ := hs.exists_pow hc
  obtain ⟨d, hd, hstop⟩ := exists_stops (hs.used ▸ hs.room hc) (home hash shardBits k) k
  refine ⟨d, hd, hstop, ?_⟩
  have hstart : startSlot shardBits (hash k) s.keys.length =
      ringSlot s.keys.length (home hash shardBits k) 0 := by rw [hn, startSlot_eq]
  rw [searchFor, hstart]
  exact search_eq hn hd hstop 0 _ (Nat.zero_le _) (by omega)

theorem insertInto_represents {hs : HashSet Key} {m : Finset Key}
    (hr : Represents hash shardBits hs m) {s : Shard Key} (hs' : ShardOk hash shardBits s) (k : Key)
    (hroom : s.used + 1 < s.keys.length)
    (hst : ∀ x, Stored s.keys x ↔ Stored (hs.shards (shardIndex shardBits (hash k))).keys x) :
    ∃ hs₁, insertInto hash shardBits hs s k = some hs₁ ∧
      Represents hash shardBits hs₁ (Insert.insert k m) := by
  obtain ⟨d, hd, hstop, he⟩ := hs'.searchFor_eq (by omega) k
  have hmem : ∀ x, Stored s.keys x ↔
      shardIndex shardBits (hash x) = shardIndex shardBits (hash k) ∧ x ∈ m := fun x =>
    (hst x).trans (hr.stored _ x)
  rcases hstop.2 with hn | hf
  · have hni : k ∉ m := fun h => hs'.sound.not_stored hstop hn ((hmem k).mpr ⟨rfl, h⟩)
    have hi := ringSlot_lt (by omega : 0 < s.keys.length) (home hash shardBits k) d
    rw [insertInto, he, if_neg (by simp [hn])]
    refine ⟨_, rfl, ?_, ?_, ?_⟩
    · intro i
      by_cases hii : i = shardIndex shardBits (hash k)
      · simpa [setShard, hii] using shardOk_fill hs' hroom hd hstop hn
      · simpa [setShard, hii] using hr.shard i
    · intro i x
      by_cases hii : i = shardIndex shardBits (hash k)
      · simp only [setShard, hii, Function.update_self]
        rw [stored_set hi k hn x, hmem, Finset.mem_insert]
        constructor
        · rintro (rfl | ⟨h1, h2⟩)
          · exact ⟨rfl, Or.inl rfl⟩
          · exact ⟨h1, Or.inr h2⟩
        · rintro ⟨h1, rfl | h2⟩
          · exact Or.inl rfl
          · exact Or.inr ⟨h1, h2⟩
      · simp only [setShard, Function.update_of_ne hii]
        rw [hr.stored, Finset.mem_insert]
        constructor
        · exact fun h => ⟨h.1, Or.inr h.2⟩
        · rintro ⟨h1, rfl | h2⟩
          · exact absurd h1.symm hii
          · exact ⟨h1, h2⟩
    · rw [Finset.card_insert_of_notMem hni]
      exact congrArg (· + 1) hr.size
  · have hin : k ∈ m := ((hmem k).mp ⟨_, hf⟩).2
    rw [insertInto, he, if_pos hf, Finset.insert_eq_of_mem hin]
    refine ⟨_, rfl, ?_, ?_, hr.size⟩
    · intro i
      by_cases hii : i = shardIndex shardBits (hash k)
      · simpa [setShard, hii] using hs'
      · simpa [setShard, hii] using hr.shard i
    · intro i x
      by_cases hii : i = shardIndex shardBits (hash k)
      · simp only [setShard, hii, Function.update_self]
        exact hmem x
      · simp only [setShard, Function.update_of_ne hii]
        exact hr.stored i x

theorem insert_represents {hs : HashSet Key} {m : Finset Key}
    (hr : Represents hash shardBits hs m) (k : Key) :
    ∃ hs₁, insert hash shardBits hs k = some hs₁ ∧
      Represents hash shardBits hs₁ (Insert.insert k m) := by
  have hok := hr.shard (shardIndex shardBits (hash k))
  by_cases hload : (hs.shards (shardIndex shardBits (hash k))).used * 4 ≥
      (hs.shards (shardIndex shardBits (hash k))).keys.length * 3
  · obtain ⟨s, he, hs', hc, hroom, hst⟩ := hok.rehash
    obtain ⟨hs₁, h₁, h₂⟩ := insertInto_represents hr hs' k hroom hst
    exact ⟨hs₁, by simp [insert, hload, he, List.length_eq_zero_iff.not.mp hc, h₁], h₂⟩
  · have hc : (hs.shards (shardIndex shardBits (hash k))).keys.length ≠ 0 := by omega
    have hroom : (hs.shards (shardIndex shardBits (hash k))).used + 1 <
        (hs.shards (shardIndex shardBits (hash k))).keys.length := by
      obtain ⟨n, hn, he⟩ := hok.exists_pow hc
      have : 2 ^ 3 ≤ 2 ^ n := Nat.pow_le_pow_right (by omega) hn
      omega
    obtain ⟨hs₁, h₁, h₂⟩ := insertInto_represents hr hok k hroom (fun _ => Iff.rfl)
    exact ⟨hs₁, by simp [insert, hload, List.length_eq_zero_iff.not.mp hc, h₁], h₂⟩

theorem contains_represents {hs : HashSet Key} {m : Finset Key}
    (hr : Represents hash shardBits hs m) (k : Key) :
    contains hash shardBits hs k = decide (k ∈ m) := by
  have hok := hr.shard (shardIndex shardBits (hash k))
  have hmem := hr.stored (shardIndex shardBits (hash k)) k
  by_cases hc : (hs.shards (shardIndex shardBits (hash k))).keys.length = 0
  · have hno : k ∉ m := by
      intro h
      obtain ⟨i, hi⟩ := hmem.mpr ⟨rfl, h⟩
      have := slotAt_lt hi
      omega
    simp [contains, hc, hno]
  · obtain ⟨d, hd, hstop, he⟩ := hok.searchFor_eq hc k
    rcases hstop.2 with hn | hf
    · have hno : k ∉ m := fun h => hok.sound.not_stored hstop hn (hmem.mpr ⟨rfl, h⟩)
      simp [contains, hc, he, hn, hno]
    · have hin : k ∈ m := (hmem.mp ⟨_, hf⟩).2
      simp [contains, hc, he, hf, hin]

/-- The state before `Remove(k)`: no key of the shard is searched for across
the slot that holds `k`. -/
def RemovalSafe (hash : Key → Nat) (shardBits : Nat) (hs : HashSet Key) (k : Key) : Prop :=
  ∀ i, slotAt (hs.shards (shardIndex shardBits (hash k))).keys i = some k →
    RunsAvoid (home hash shardBits) (hs.shards (shardIndex shardBits (hash k))).keys i

theorem remove_absent {hs : HashSet Key} {m : Finset Key} (hr : Represents hash shardBits hs m)
    {k : Key} (hk : k ∉ m) : remove hash shardBits hs k = hs := by
  have hok := hr.shard (shardIndex shardBits (hash k))
  by_cases hc : (hs.shards (shardIndex shardBits (hash k))).keys.length = 0
  · simp [remove, hc]
  · obtain ⟨d, hd, hstop, he⟩ := hok.searchFor_eq hc k
    have hnf : slotAt (hs.shards (shardIndex shardBits (hash k))).keys (ringSlot
        (hs.shards (shardIndex shardBits (hash k))).keys.length (home hash shardBits k) d) ≠ some k :=
      fun hf => hk ((hr.stored _ k).mp ⟨_, hf⟩).2
    simp [remove, hc, he, hnf]

theorem remove_present {hs : HashSet Key} {m : Finset Key} (hr : Represents hash shardBits hs m)
    {k : Key} (hk : k ∈ m) :
    ∃ i, slotAt (hs.shards (shardIndex shardBits (hash k))).keys i = some k ∧
      remove hash shardBits hs k = { setShard hs (shardIndex shardBits (hash k))
        ⟨(hs.shards (shardIndex shardBits (hash k))).keys.set i none,
          (hs.shards (shardIndex shardBits (hash k))).used - 1⟩ with size := hs.size - 1 } := by
  have hok := hr.shard (shardIndex shardBits (hash k))
  have hst : Stored (hs.shards (shardIndex shardBits (hash k))).keys k := (hr.stored _ k).mpr ⟨rfl, hk⟩
  have hc : (hs.shards (shardIndex shardBits (hash k))).keys.length ≠ 0 := by
    obtain ⟨i, hi⟩ := hst
    have := slotAt_lt hi
    omega
  obtain ⟨d, hd, hstop, he⟩ := hok.searchFor_eq hc k
  have hf := hstop.2.resolve_left fun hn => hok.sound.not_stored hstop hn hst
  exact ⟨_, hf, by simp [remove, hc, he, hf]⟩

theorem remove_represents {hs : HashSet Key} {m : Finset Key} (hr : Represents hash shardBits hs m)
    (k : Key) (hsafe : RemovalSafe hash shardBits hs k) :
    Represents hash shardBits (remove hash shardBits hs k) (m.erase k) := by
  by_cases hk : k ∈ m
  · obtain ⟨i, hi, he⟩ := remove_present hr hk
    have hok := hr.shard (shardIndex shardBits (hash k))
    rw [he]
    refine ⟨?_, ?_, ?_⟩
    · intro j
      by_cases hj : j = shardIndex shardBits (hash k)
      · simpa [setShard, hj] using shardOk_remove hok hi (hsafe i hi)
      · simpa [setShard, hj] using hr.shard j
    · intro j x
      by_cases hj : j = shardIndex shardBits (hash k)
      · simp only [setShard, hj, Function.update_self]
        rw [stored_empty hok.sound hi x, hr.stored, Finset.mem_erase]
        tauto
      · simp only [setShard, Function.update_of_ne hj]
        rw [hr.stored, Finset.mem_erase]
        constructor
        · rintro ⟨h1, h2⟩
          refine ⟨h1, ?_, h2⟩
          rintro rfl
          exact hj h1.symm
        · exact fun h => ⟨h.1, h.2.2⟩
    · rw [Finset.card_erase_of_mem hk]
      exact congrArg (· - 1) hr.size
  · rw [remove_absent hr hk, Finset.erase_eq_of_notMem hk]
    exact hr

/-- An unsafe removal makes the set deny a key that it still holds. -/
theorem remove_hides {hs : HashSet Key} {m : Finset Key} (hr : Represents hash shardBits hs m)
    {k : Key} (hsafe : ¬ RemovalSafe hash shardBits hs k) :
    ∃ x ∈ m.erase k, contains hash shardBits (remove hash shardBits hs k) x = false := by
  have hok := hr.shard (shardIndex shardBits (hash k))
  simp only [RemovalSafe, RunsAvoid, not_forall, not_not] at hsafe
  obtain ⟨i, hi, j, x, hji, hx, hcross⟩ := hsafe
  have hk : k ∈ m := ((hr.stored _ k).mp ⟨i, hi⟩).2
  obtain ⟨i', hi', he⟩ := remove_present hr hk
  obtain rfl := hok.sound.unique i i' k hi hi'
  obtain ⟨hsx, hxm⟩ := (hr.stored _ x).mp ⟨j, hx⟩
  have hne : x ≠ k := by
    rintro rfl
    exact hji (hok.sound.unique j i x hx hi)
  refine ⟨x, Finset.mem_erase.mpr ⟨hne, hxm⟩, ?_⟩
  have hlt := slotAt_lt hi
  obtain ⟨n, _, hn⟩ := hok.exists_pow (by omega)
  obtain ⟨e, hel, hstop, hnone⟩ := hok.sound.hidden hlt hx hcross
  have hsearch := search_eq (k := x) (by simpa using hn) (by simpa using hel) hstop 0
    ((hs.shards (shardIndex shardBits (hash k))).keys.set i none).length (Nat.zero_le _)
    (by simpa using hel)
  have hstart : startSlot shardBits (hash x) (hs.shards (shardIndex shardBits (hash k))).keys.length =
      ringSlot (hs.shards (shardIndex shardBits (hash k))).keys.length (home hash shardBits x) 0 := by
    rw [hn, startSlot_eq]
  have hc : ¬ (hs.shards (shardIndex shardBits (hash k))).keys = [] :=
    fun h => by simp [h] at hlt
  simp only [List.length_set] at hsearch
  rw [he]
  simp [contains, setShard, hsx, hc, searchFor, hstart, hsearch, hnone]

/-- Every `Remove` among the calls is safe in the state it is made in. -/
def RemovalsSafe (hash : Key → Nat) (shardBits : Nat) (cs : List (Call Key)) : Prop :=
  ∀ pre k, pre ++ [.remove k] <+: cs → ∀ hs outs,
    run hash shardBits empty [] pre = some (hs, outs) → RemovalSafe hash shardBits hs k

/-- The calls return, their answers are those of the mathematical set, and the
size at the end is the number of keys in it. -/
def RefinesSet (hash : Key → Nat) (shardBits : Nat) (cs : List (Call Key)) : Prop :=
  ∃ hs, run hash shardBits empty [] cs = some (hs, (setRun ∅ [] cs).2) ∧
    hs.size = (setRun ∅ [] cs).1.card

theorem RemovalsSafe.initial {cs ds : List (Call Key)} (h : RemovalsSafe hash shardBits ds)
    (hp : cs <+: ds) : RemovalsSafe hash shardBits cs :=
  fun pre k hk => h pre k (hk.trans hp)

theorem RemovalsSafe.represents {cs : List (Call Key)} (h : RemovalsSafe hash shardBits cs) :
    ∃ hs, run hash shardBits empty [] cs = some (hs, (setRun ∅ [] cs).2) ∧
      Represents hash shardBits hs (setRun ∅ [] cs).1 := by
  induction cs using List.reverseRecOn with
  | nil => exact ⟨empty, rfl, represents_empty⟩
  | append_singleton cs c ih =>
    obtain ⟨hs, he, hr⟩ := ih (h.initial (List.prefix_append cs [c]))
    rw [run_append, setRun_append, he, Option.bind_some]
    cases c with
    | insert k =>
      obtain ⟨hs₁, h₁, h₂⟩ := insert_represents hr k
      exact ⟨hs₁, by simp [run, call, h₁, setRun, setCall], h₂⟩
    | remove k =>
      have hsafe := h cs k (List.prefix_refl _) hs _ he
      exact ⟨_, by simp [run, call, setRun, setCall], remove_represents hr k hsafe⟩
    | contains k =>
      exact ⟨hs, by simp [run, call, setRun, setCall, contains_represents hr k], hr⟩

theorem RemovalsSafe.refinesSet {cs : List (Call Key)} (h : RemovalsSafe hash shardBits cs) :
    RefinesSet hash shardBits cs := by
  obtain ⟨hs, he, hr⟩ := h.represents
  exact ⟨hs, he, hr.size⟩

theorem RemovalsSafe.append_contains {cs : List (Call Key)} (h : RemovalsSafe hash shardBits cs)
    (k : Key) : RemovalsSafe hash shardBits (cs ++ [.contains k]) := by
  intro pre k' hp
  rcases List.prefix_concat_iff.mp hp with he | hp
  · have := (List.append_inj' he rfl).2
    simp at this
  · exact h pre k' hp

theorem removalsSafe_of_refinesSet {cs : List (Call Key)}
    (h : ∀ pre q, pre <+: cs → RefinesSet hash shardBits (pre ++ [.contains q])) :
    RemovalsSafe hash shardBits cs := by
  induction cs using List.reverseRecOn with
  | nil =>
    intro pre k hp
    simp at hp
  | append_singleton cs c ih =>
    have hcs := ih fun pre q hp => h pre q (hp.trans (List.prefix_append cs [c]))
    intro pre k hp hs outs hrun
    rcases List.prefix_concat_iff.mp hp with he | hp
    · obtain ⟨rfl, hc⟩ := List.append_inj' he rfl
      obtain rfl := (List.cons.inj hc).1
      by_contra hsafe
      obtain ⟨hs', he', hr⟩ := hcs.represents
      obtain ⟨rfl, rfl⟩ := Prod.mk.inj (Option.some.inj (hrun.symm.trans he'))
      obtain ⟨x, hx, hno⟩ := remove_hides hr hsafe
      obtain ⟨_, hans, _⟩ := h _ x (List.prefix_refl _)
      rw [run_append, run_append, hrun, setRun_append, setRun_append] at hans
      simp [run, call, setRun, setCall, hno] at hans
      exact absurd hans.2 (by simpa using hx)
    · exact hcs pre k hp hs outs hrun

/-- The set answers every question asked after any part of a sequence of calls
as a mathematical set would, exactly when no removal in the sequence empties a
slot on the way to another key. -/
theorem refinesSet_iff_removalsSafe (hash : Key → Nat) (shardBits : Nat) (cs : List (Call Key)) :
    ((∀ pre q, pre <+: cs → RefinesSet hash shardBits (pre ++ [.contains q])) ↔
      RemovalsSafe hash shardBits cs) ∧
    (RemovalsSafe hash shardBits cs → RefinesSet hash shardBits cs) :=
  ⟨⟨removalsSafe_of_refinesSet, fun h _ q hp => ((h.initial hp).append_contains q).refinesSet⟩,
    fun h => h.refinesSet⟩

/-- Two keys with one home slot: removing the first hides the second. -/
theorem not_refinesSet_colliding : ¬ RefinesSet (id : Nat → Nat) 10
    [.insert 0, .insert 8192, .remove 0, .contains 8192] := by
  rintro ⟨hs, h, _⟩
  have hrun : (run (id : Nat → Nat) 10 empty []
      [.insert 0, .insert 8192, .remove 0, .contains 8192]).map Prod.snd = some [false] := by
    decide
  have hset : (setRun (∅ : Finset Nat) [] [.insert 0, .insert 8192, .remove 0, .contains 8192]).2 =
      [true] := by decide
  rw [h, Option.map_some, hset] at hrun
  exact absurd (Option.some.inj hrun) (by decide)

end UnifiedCache.HashSet
