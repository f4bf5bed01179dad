import Mathlib

/-! Linear probing on a ring of slots. A stored key is found as long as every
slot between its home and its place is occupied; filling the first empty slot
of a run keeps this, emptying a slot keeps it exactly when no run crosses it. -/

namespace LinearProbe

variable {α : Type*}

/-- The contents of slot `i`; there is nothing outside the table. -/
def slotAt (slots : List (Option α)) (i : Nat) : Option α := slots[i]?.getD none

/-- The slot `d` steps after `home`. -/
def ringSlot (cap home d : Nat) : Nat := (home + d) % cap

/-- The `d` slots from `home` on are occupied. -/
def Filled (slots : List (Option α)) (home d : Nat) : Prop :=
  ∀ e < d, slotAt slots (ringSlot slots.length home e) ≠ none

/-- `d` is where a search from `home` stops: all slots before are occupied by
other keys, and this one is empty or holds the key. -/
def Stops (slots : List (Option α)) (home : Nat) (k : α) (d : Nat) : Prop :=
  (∀ e < d, slotAt slots (ringSlot slots.length home e) ≠ none ∧
    slotAt slots (ringSlot slots.length home e) ≠ some k) ∧
  (slotAt slots (ringSlot slots.length home d) = none ∨
    slotAt slots (ringSlot slots.length home d) = some k)

def Stored (slots : List (Option α)) (k : α) : Prop := ∃ i, slotAt slots i = some k

def occupied (slots : List (Option α)) : Nat := slots.countP Option.isSome

/-- Every stored key ends an occupied run from its home and is stored once. -/
structure Sound (home : α → Nat) (slots : List (Option α)) : Prop where
  reach : ∀ i k, slotAt slots i = some k →
    ∃ d < slots.length, ringSlot slots.length (home k) d = i ∧ Filled slots (home k) d
  unique : ∀ i j k, slotAt slots i = some k → slotAt slots j = some k → i = j

/-- Going from `home` to `j` the search passes slot `i`. -/
def Crosses (cap home i j : Nat) : Prop :=
  ∃ d < cap, ringSlot cap home d = j ∧ ∃ e < d, ringSlot cap home e = i

instance (cap home i j : Nat) : Decidable (Crosses cap home i j) :=
  inferInstanceAs (Decidable (∃ d < cap, ringSlot cap home d = j ∧ ∃ e < d, ringSlot cap home e = i))

theorem slotAt_lt {slots : List (Option α)} {i : Nat} {k : α} (h : slotAt slots i = some k) :
    i < slots.length := by
  by_contra hi
  simp [slotAt, List.getElem?_eq_none (Nat.le_of_not_lt hi)] at h

theorem slotAt_set {slots : List (Option α)} {i : Nat} (hi : i < slots.length) (v : Option α)
    (j : Nat) : slotAt (slots.set i v) j = if i = j then v else slotAt slots j := by
  by_cases he : i = j <;> simp [slotAt, List.getElem?_set, he]
  simp [← he, hi]

theorem slotAt_replicate (n i : Nat) : slotAt (List.replicate n (none : Option α)) i = none := by
  by_cases hi : i < n <;> simp [slotAt, hi]

theorem ringSlot_lt {cap : Nat} (hc : 0 < cap) (home d : Nat) : ringSlot cap home d < cap :=
  Nat.mod_lt _ hc

theorem ringSlot_zero {cap home : Nat} (h : home < cap) : ringSlot cap home 0 = home :=
  Nat.mod_eq_of_lt h

theorem ringSlot_succ (cap home d : Nat) :
    (ringSlot cap home d + 1) % cap = ringSlot cap home (d + 1) := by
  simp [ringSlot, Nat.add_assoc]

theorem ringSlot_mod (cap home d : Nat) : ringSlot cap (home % cap) d = ringSlot cap home d := by
  simp [ringSlot]

theorem ringSlot_inj {cap home d e : Nat} (hd : d < cap) (he : e < cap)
    (h : ringSlot cap home d = ringSlot cap home e) : d = e := by
  have hm : d ≡ e [MOD cap] := Nat.ModEq.add_left_cancel' home h
  have hh : d % cap = e % cap := hm
  rwa [Nat.mod_eq_of_lt hd, Nat.mod_eq_of_lt he] at hh

/-- Every slot lies on the ring from any home. -/
theorem exists_ringSlot {cap : Nat} (home : Nat) {i : Nat} (hi : i < cap) :
    ∃ d < cap, ringSlot cap home d = i := by
  have hc : 0 < cap := by omega
  have hm := Nat.mod_lt home hc
  refine ⟨(i + (cap - home % cap)) % cap, Nat.mod_lt _ hc, ?_⟩
  have he : home % cap + (i + (cap - home % cap)) = i + cap := by omega
  calc (home + (i + (cap - home % cap)) % cap) % cap
      = (home % cap + (i + (cap - home % cap))) % cap := by simp [Nat.add_mod]
    _ = i := by rw [he, Nat.add_mod_right, Nat.mod_eq_of_lt hi]

theorem occupied_set {slots : List (Option α)} {i : Nat} (hi : i < slots.length) (v : Option α) :
    occupied (slots.set i v) + (if (slotAt slots i).isSome then 1 else 0) =
      occupied slots + (if v.isSome then 1 else 0) := by
  have hs : slotAt slots i = slots[i] := by simp [slotAt, hi]
  have hp : slots[i].isSome = true → 0 < slots.countP Option.isSome := fun h =>
    List.countP_pos_iff.mpr ⟨slots[i], List.getElem_mem hi, h⟩
  rw [occupied, List.countP_set hi, hs, occupied]
  by_cases h : slots[i].isSome = true
  · have := hp h
    simp only [h, if_true]
    omega
  · simp only [h]
    simp

/-- A table that is not full has an empty slot. -/
theorem exists_empty {slots : List (Option α)} (h : occupied slots < slots.length) :
    ∃ i < slots.length, slotAt slots i = none := by
  by_contra hno
  push Not at hno
  apply Nat.ne_of_lt h
  apply List.countP_eq_length.mpr
  intro a ha
  obtain ⟨i, hi, rfl⟩ := List.getElem_of_mem ha
  have hh := hno i hi
  simp only [slotAt, List.getElem?_eq_getElem hi, Option.getD_some] at hh
  exact Option.isSome_iff_ne_none.mpr hh

/-- A search in a table that is not full stops within one turn of the ring. -/
theorem exists_stops {slots : List (Option α)} (h : occupied slots < slots.length)
    (home : Nat) (k : α) : ∃ d < slots.length, Stops slots home k d := by
  classical
  obtain ⟨i, hi, hn⟩ := exists_empty h
  obtain ⟨d, hd, he⟩ := exists_ringSlot home hi
  have hex : ∃ d, slotAt slots (ringSlot slots.length home d) = none ∨
      slotAt slots (ringSlot slots.length home d) = some k := ⟨d, Or.inl (by rw [he, hn])⟩
  refine ⟨Nat.find hex, (Nat.find_min' hex (Or.inl (by rw [he, hn]))).trans_lt hd, ?_, Nat.find_spec hex⟩
  intro e hlt
  exact not_or.mp (Nat.find_min hex hlt)

theorem Stops.filled {slots : List (Option α)} {home d : Nat} {k : α} (h : Stops slots home k d) :
    Filled slots home d := fun e he => (h.1 e he).1

/-- A search that ends in an empty slot has proved the key absent. -/
theorem Sound.not_stored {home : α → Nat} {slots : List (Option α)} (hs : Sound home slots)
    {k : α} {d : Nat} (h : Stops slots (home k) k d)
    (hn : slotAt slots (ringSlot slots.length (home k) d) = none) : ¬ Stored slots k := by
  rintro ⟨i, hi⟩
  obtain ⟨d', _, rfl, hf⟩ := hs.reach i k hi
  rcases Nat.lt_trichotomy d d' with hlt | rfl | hlt
  · exact hf d hlt hn
  · rw [hn] at hi; cases hi
  · exact (h.1 d' hlt).2 hi

theorem sound_replicate (home : α → Nat) (n : Nat) :
    Sound home (List.replicate n (none : Option α)) := by
  constructor
  · intro i k h
    rw [slotAt_replicate] at h
    cases h
  · intro i j k h
    rw [slotAt_replicate] at h
    cases h

theorem stored_set {slots : List (Option α)} {i : Nat} (hi : i < slots.length) (k : α)
    (hn : slotAt slots i = none) (x : α) :
    Stored (slots.set i (some k)) x ↔ x = k ∨ Stored slots x := by
  constructor
  · rintro ⟨j, hj⟩
    rw [slotAt_set hi] at hj
    split_ifs at hj with he
    · exact Or.inl (Option.some.inj hj).symm
    · exact Or.inr ⟨j, hj⟩
  · rintro (rfl | ⟨j, hj⟩)
    · exact ⟨i, by rw [slotAt_set hi, if_pos rfl]⟩
    · refine ⟨j, ?_⟩
      rw [slotAt_set hi, if_neg (fun he => ?_), hj]
      rw [he, hj] at hn
      cases hn

/-- Filling the empty slot at which the search for an absent key stopped. -/
theorem Sound.fill {home : α → Nat} {slots : List (Option α)} (hs : Sound home slots)
    {k : α} {d : Nat} (hd : d < slots.length) (hf : Filled slots (home k) d)
    (hk : ¬ Stored slots k) :
    Sound home (slots.set (ringSlot slots.length (home k) d) (some k)) := by
  have hi := ringSlot_lt (by omega : 0 < slots.length) (home k) d
  have hmono : ∀ h n, Filled slots h n →
      Filled (slots.set (ringSlot slots.length (home k) d) (some k)) h n := by
    intro h n hfill e he
    rw [List.length_set, slotAt_set hi]
    split_ifs
    · simp
    · exact hfill e he
  constructor
  · intro i x hx
    rw [slotAt_set hi] at hx
    rw [List.length_set]
    split_ifs at hx with he
    · obtain rfl := Option.some.inj hx
      exact ⟨d, hd, he, hmono _ _ hf⟩
    · obtain ⟨d', hd', hr, hf'⟩ := hs.reach i x hx
      exact ⟨d', hd', hr, hmono _ _ hf'⟩
  · intro i j x hx hy
    rw [slotAt_set hi] at hx hy
    split_ifs at hx hy with h1 h2 h2
    · exact h1.symm.trans h2
    · obtain rfl := Option.some.inj hx
      exact absurd ⟨j, hy⟩ hk
    · obtain rfl := Option.some.inj hy
      exact absurd ⟨i, hx⟩ hk
    · exact hs.unique i j x hx hy

/-- No key other than the one in slot `i` is searched for across slot `i`. -/
def RunsAvoid (home : α → Nat) (slots : List (Option α)) (i : Nat) : Prop :=
  ∀ j x, j ≠ i → slotAt slots j = some x → ¬ Crosses slots.length (home x) i j

/-- Emptying a slot that no run crosses leaves every other key in reach. -/
theorem Sound.empty {home : α → Nat} {slots : List (Option α)} (hs : Sound home slots)
    {i : Nat} (hi : i < slots.length) (hr : RunsAvoid home slots i) :
    Sound home (slots.set i none) := by
  constructor
  · intro j x hx
    rw [slotAt_set hi] at hx
    split_ifs at hx with he
    obtain ⟨d, hd, hj, hf⟩ := hs.reach j x hx
    refine ⟨d, by simpa using hd, by simpa using hj, ?_⟩
    intro e hlt
    rw [List.length_set, slotAt_set hi, if_neg]
    · exact hf e hlt
    · exact fun hc => hr j x (Ne.symm he) hx ⟨d, hd, hj, e, hlt, hc.symm⟩
  · intro j j' x hx hy
    rw [slotAt_set hi] at hx hy
    split_ifs at hx hy
    exact hs.unique j j' x hx hy

/-- Emptying a slot that a run crosses hides the key at the end of that run:
the search for it now stops at the hole. -/
theorem Sound.hidden {home : α → Nat} {slots : List (Option α)} (hs : Sound home slots)
    {i j : Nat} {x : α} (hi : i < slots.length) (hx : slotAt slots j = some x)
    (hc : Crosses slots.length (home x) i j) :
    ∃ e < slots.length, Stops (slots.set i none) (home x) x e ∧
      slotAt (slots.set i none) (ringSlot slots.length (home x) e) = none := by
  obtain ⟨d, hd, rfl, e, he, rfl⟩ := hc
  have hn : slotAt (slots.set (ringSlot slots.length (home x) e) none)
      (ringSlot slots.length (home x) e) = none := by rw [slotAt_set hi, if_pos rfl]
  refine ⟨e, by omega, ⟨?_, Or.inl (by rw [List.length_set, hn])⟩, hn⟩
  intro e' he'
  obtain ⟨d', hd', hr, hf⟩ := hs.reach _ x hx
  obtain rfl := ringSlot_inj hd' hd hr
  have hne : ringSlot slots.length (home x) e ≠ ringSlot slots.length (home x) e' := fun h =>
    absurd (ringSlot_inj (by omega) (by omega) h) (by omega)
  rw [List.length_set, slotAt_set hi, if_neg hne]
  refine ⟨hf e' (by omega), fun h => ?_⟩
  have := ringSlot_inj (by omega) hd (hs.unique _ _ x h hx)
  omega

theorem stored_empty {home : α → Nat} {slots : List (Option α)} (hs : Sound home slots)
    {i : Nat} {k : α} (hk : slotAt slots i = some k) (x : α) :
    Stored (slots.set i none) x ↔ x ≠ k ∧ Stored slots x := by
  have hi := slotAt_lt hk
  constructor
  · rintro ⟨j, hj⟩
    rw [slotAt_set hi] at hj
    split_ifs at hj with he
    refine ⟨?_, j, hj⟩
    rintro rfl
    exact he (hs.unique i j x hk hj)
  · rintro ⟨hne, j, hj⟩
    refine ⟨j, ?_⟩
    rw [slotAt_set hi, if_neg (fun he => ?_), hj]
    rw [← he, hk] at hj
    exact hne (Option.some.inj hj).symm

end LinearProbe
