import UnifiedCache.Infra.TopNHeap

/-! The heap as a bounded priority queue. A push that adds a value writes the slot
`size`, which after a pop may be the slot of a value that is still held; while
no such slot is written the heap holds what the queue does. -/

namespace UnifiedCache.Infra.TopNHeap

open HeapOrder StepSystem

variable {α : Type*} {cmp : α → α → Bool} {val : Nat → α} {idx : Nat → Nat} {size pos n : Nat}
  {t t' : TopNHeap α}

section Sift

theorem siftUp_values (hn : pos < n) :
    HeapOrder.values (fun i => val (siftUp cmp val idx pos i)) n =
      HeapOrder.values (fun i => val (idx i)) n := by
  induction idx, pos using siftUp.induct cmp val with
  | case1 idx pos h p hlt ih =>
    rw [siftUp, dif_pos h, if_pos hlt, ih (lt_trans (parent_lt h) hn)]
    exact values_swap (fun i => val (idx i)) hn (lt_trans (parent_lt h) hn)
  | case2 idx pos h p hlt => rw [siftUp, dif_pos h, if_neg hlt]
  | case3 idx pos h => rw [siftUp, dif_neg h]

variable [IsStrictWeakOrder α fun a b => cmp a b = true]

theorem siftUp_ordered (hn : pos < n)
    (hu : UpOrdered (fun a b => cmp a b = true) (fun i => val (idx i)) n pos) :
    Ordered (fun a b => cmp a b = true) (fun i => val (siftUp cmp val idx pos i)) n := by
  induction idx, pos using siftUp.induct cmp val with
  | case1 idx pos h p hlt ih =>
    rw [siftUp, dif_pos h, if_pos hlt]
    exact ih (lt_trans (parent_lt h) hn) (hu.swap h hn hlt)
  | case2 idx pos h p hlt =>
    rw [siftUp, dif_pos h, if_neg hlt]
    exact hu.finish fun _ => hlt
  | case3 idx pos h =>
    rw [siftUp, dif_neg h]
    exact hu.finish fun h0 => absurd h0 h

/-- A round of `SiftDown` stays when no child is less, and goes to the least child otherwise. -/
theorem best_spec (cmp : α → α → Bool) [IsStrictWeakOrder α fun a b => cmp a b = true]
    (val : Nat → α) (idx : Nat → Nat) (hs : size < 2 ^ 31) (hp : pos < size) :
    (best cmp val idx size pos = pos ∧
      ∀ i, 0 < i → i < size → parent i = pos → ¬ cmp (val (idx i)) (val (idx pos)) = true) ∨
    (0 < best cmp val idx size pos ∧ best cmp val idx size pos < size ∧
      parent (best cmp val idx size pos) = pos ∧
      cmp (val (idx (best cmp val idx size pos))) (val (idx pos)) = true ∧
      ∀ i, 0 < i → i < size → parent i = pos →
        ¬ cmp (val (idx i)) (val (idx (best cmp val idx size pos))) = true) := by
  have hl : left pos = 2 * pos + 1 := Nat.mod_eq_of_lt (by omega)
  have hr : right pos = 2 * pos + 2 := Nat.mod_eq_of_lt (by omega)
  have hself : ∀ a : α, ¬ cmp a a = true := fun a => irrefl_of (fun a b => cmp a b = true) a
  have hpl : parent (2 * pos + 1) = pos := (parent_eq_iff (by omega)).mpr (Or.inl rfl)
  have hpr : parent (2 * pos + 2) = pos := (parent_eq_iff (by omega)).mpr (Or.inr rfl)
  unfold best
  simp only [hl, hr]
  by_cases h₁ : 2 * pos + 1 < size ∧ cmp (val (idx (2 * pos + 1))) (val (idx pos)) = true
  · rw [if_pos h₁]
    by_cases h₂ : 2 * pos + 2 < size ∧
        cmp (val (idx (2 * pos + 2))) (val (idx (2 * pos + 1))) = true
    · rw [if_pos h₂]
      refine Or.inr ⟨by omega, h₂.1, hpr, ?_, fun i hi hn hc => ?_⟩
      · exact trans_of (fun a b => cmp a b = true) h₂.2 h₁.2
      · rcases (parent_eq_iff hi).mp hc with rfl | rfl
        · exact asymm_of (fun a b => cmp a b = true) h₂.2
        · exact hself _
    · rw [if_neg h₂]
      refine Or.inr ⟨by omega, h₁.1, hpl, h₁.2, fun i hi hn hc => ?_⟩
      rcases (parent_eq_iff hi).mp hc with rfl | rfl
      · exact hself _
      · exact fun hlt => h₂ ⟨hn, hlt⟩
  · rw [if_neg h₁]
    by_cases h₂ : 2 * pos + 2 < size ∧ cmp (val (idx (2 * pos + 2))) (val (idx pos)) = true
    · rw [if_pos h₂]
      refine Or.inr ⟨by omega, h₂.1, hpr, h₂.2, fun i hi hn hc => ?_⟩
      rcases (parent_eq_iff hi).mp hc with rfl | rfl
      · have hle : ¬ cmp (val (idx (2 * pos + 1))) (val (idx pos)) = true := fun hlt => h₁ ⟨hn, hlt⟩
        exact fun hlt => hle (trans_of (fun a b => cmp a b = true) hlt h₂.2)
      · exact hself _
    · rw [if_neg h₂]
      refine Or.inl ⟨rfl, fun i hi hn hc hlt => ?_⟩
      rcases (parent_eq_iff hi).mp hc with rfl | rfl
      · exact h₁ ⟨hn, hlt⟩
      · exact h₂ ⟨hn, hlt⟩

/-- `SiftDown` comes to its end, keeps the values and mends the order. -/
theorem siftDown_spec (cmp : α → α → Bool) [IsStrictWeakOrder α fun a b => cmp a b = true]
    (val : Nat → α) (idx : Nat → Nat) {rounds : Nat} (hs : size < 2 ^ 31) (hp : pos < size)
    (hrounds : size ≤ rounds + pos) : ∃ idx', siftDown cmp val size rounds idx pos = some idx' ∧
      HeapOrder.values (fun i => val (idx' i)) size = HeapOrder.values (fun i => val (idx i)) size ∧
      (DownOrdered (fun a b => cmp a b = true) (fun i => val (idx i)) size pos →
        Ordered (fun a b => cmp a b = true) (fun i => val (idx' i)) size) := by
  induction rounds generalizing idx pos with
  | zero => omega
  | succ rounds ih =>
    rcases best_spec cmp val idx hs hp with
      ⟨he, hmin⟩ | ⟨h0, hlt, hparent, hless, hmin⟩
    · refine ⟨idx, by rw [siftDown, if_pos he], rfl, fun hd => hd.finish hmin⟩
    · have hdown := hparent ▸ parent_lt h0
      obtain ⟨idx', hi, hv, ho⟩ := ih (idx ∘ Equiv.swap pos (best cmp val idx size pos)) hlt
        (by omega)
      refine ⟨idx', ?_, ?_, fun hd => ho (hd.swap h0 hlt hparent hless hmin)⟩
      · rw [siftDown, if_neg (by omega), hi]
      · rw [hv]
        exact values_swap (fun i => val (idx i)) hp hlt

end Sift

section Slots

/-- The indices are moved among themselves. -/
theorem siftUp_slots (hn : pos < n) :
    HeapOrder.values (siftUp cmp val idx pos) n = HeapOrder.values idx n := by
  induction idx, pos using siftUp.induct cmp val with
  | case1 idx pos h p hlt ih =>
    rw [siftUp, dif_pos h, if_pos hlt, ih (lt_trans (parent_lt h) hn)]
    exact values_swap idx hn (lt_trans (parent_lt h) hn)
  | case2 idx pos h p hlt => rw [siftUp, dif_pos h, if_neg hlt]
  | case3 idx pos h => rw [siftUp, dif_neg h]

theorem best_lt (hp : pos < size) : best cmp val idx size pos < size := by
  simp only [best]
  split_ifs with hl hr hr
  · exact hr.1
  · exact hl.1
  · exact hr.1
  · exact hp

theorem siftDown_slots {rounds : Nat} {idx' : Nat → Nat} (hp : pos < size)
    (h : siftDown cmp val size rounds idx pos = some idx') :
    HeapOrder.values idx' size = HeapOrder.values idx size := by
  induction rounds generalizing idx pos with
  | zero => cases h
  | succ rounds ih =>
    rw [siftDown] at h
    split at h
    · rw [Option.some.inj h]
    · have hlt : best cmp val idx size pos < size := best_lt hp
      rw [ih hlt h]
      exact values_swap idx hp hlt

end Slots

/-- The values reachable through `idx_[0..size_)`. -/
def values (t : TopNHeap α) : Multiset α := HeapOrder.values (fun i => t.val (t.idx i)) t.size

/-- A bounded priority queue: a push into a full one replaces a minimal element if
the value is greater, a pop takes a minimal element out. -/
def Reference (cmp : α → α → Bool) (capacity : Nat) (s : Multiset α) : Call α → Multiset α → Prop
  | .push value, s' =>
    if s.card < capacity then s' = value ::ₘ s
    else ∃ m rest, s = m ::ₘ rest ∧ (∀ x ∈ s, ¬ cmp x m = true) ∧
      s' = if cmp m value then value ::ₘ rest else s
  | .pop, s' => ∃ m, s = m ::ₘ s' ∧ ∀ x ∈ s, ¬ cmp x m = true

def TopMinimal (cmp : α → α → Bool) (t : TopNHeap α) : Prop :=
  t.size ≠ 0 → t.top ∈ t.values ∧ ∀ x ∈ t.values, ¬ cmp x t.top = true

/-- The slot that a push writes is free, or the one value in it is to be replaced. -/
def KeepsLive (cmp : α → α → Bool) (t : TopNHeap α) : Call α → Prop
  | .push value =>
    if t.size < t.capacity then ∀ i < t.size, t.idx i = t.size → t.val t.size = value
    else cmp t.top value = true → ∀ i, 0 < i → i < t.size → t.idx i ≠ t.idx 0
  | .pop => True

/-- Each of the first slots is that of one of the values. -/
def Slots (t : TopNHeap α) : Prop := HeapOrder.values t.idx t.size = Multiset.range t.size

theorem Slots.lt (h : t.Slots) {i : Nat} (hi : i < t.size) : t.idx i < t.size := by
  have hmem : t.idx i ∈ HeapOrder.values t.idx t.size := mem_values_iff.mpr ⟨i, hi, rfl⟩
  rw [h] at hmem
  exact Multiset.mem_range.mp hmem

theorem Slots.inj (h : t.Slots) {i j : Nat} (hi : i < t.size) (hj : j < t.size) (he : t.idx i = t.idx j) : i = j := by
  have hnodup : (HeapOrder.values t.idx t.size).Nodup := by
    rw [h]
    exact Multiset.nodup_range _
  exact Multiset.inj_on_of_nodup_map hnodup i (Multiset.mem_range.mpr hi) j (Multiset.mem_range.mpr hj) he

theorem Slots.keepsLive (h : t.Slots) (value : α) : t.KeepsLive cmp (.push value) := by
  rw [KeepsLive]
  split_ifs
  · exact fun i hi he => absurd he (h.lt hi).ne
  · exact fun _ i h0 hi he => h0.ne' (h.inj hi (h0.trans hi) he)

theorem Slots.push (h : t.Slots) {value : α} (hs : t.push cmp value = some t') : t'.Slots := by
  rw [TopNHeap.push] at hs
  split at hs
  · obtain rfl := Option.some.inj hs
    show HeapOrder.values (siftUp _ _ _ _) (t.size + 1) = Multiset.range (t.size + 1)
    rw [siftUp_slots (Nat.lt_succ_self _), values_succ, Function.update_self, Multiset.range_succ]
    refine congrArg _ ((values_congr fun i hi => ?_).trans h)
    exact Function.update_of_ne hi.ne _ _
  · split at hs
    · obtain ⟨idx', hidx, rfl⟩ := Option.map_eq_some_iff.mp hs
      by_cases h0 : t.size = 0
      · rw [h0] at hidx
        cases hidx
      · exact (siftDown_slots (Nat.pos_of_ne_zero h0) hidx).trans h
    · exact Option.some.inj hs ▸ h

/-- No index that a sift computes wraps. -/
def NoWrap (t : TopNHeap α) : Call α → Prop
  | .push _ => t.size < t.capacity ∨ t.size < 2 ^ 31
  | .pop => t.size ≤ 2 ^ 31

structure Valid (cmp : α → α → Bool) (capacity : Nat) (t : TopNHeap α) : Prop where
  ordered : Ordered (fun a b => cmp a b = true) (fun i => t.val (t.idx i)) t.size
  capacity_eq : t.capacity = capacity
  size_le : t.size ≤ capacity

theorem card_values (t : TopNHeap α) : t.values.card = t.size := by
  simp [values, HeapOrder.values]

section Step

variable [IsStrictWeakOrder α fun a b => cmp a b = true] {capacity : Nat} {value : α}

theorem Valid.topMinimal (h : Valid cmp capacity t) : t.TopMinimal cmp := by
  intro h0
  refine ⟨mem_values_iff.mpr ⟨0, Nat.pos_of_ne_zero h0, rfl⟩, fun x hx => ?_⟩
  obtain ⟨i, hi, rfl⟩ := mem_values_iff.mp hx
  exact h.ordered.not_lt_root hi

/-- A push that adds its value. -/
theorem Valid.push_add (h : Valid cmp capacity t) (hc : t.size < capacity) :
    ∃ t', t.push cmp value = some t' ∧
      (t.KeepsLive cmp (.push value) → Valid cmp capacity t') ∧
      (Reference cmp capacity t.values (.push value) t'.values ↔ t.KeepsLive cmp (.push value)) := by
  have hadd : t.size < t.capacity := h.capacity_eq.symm ▸ hc
  rw [push, if_pos hadd]
  refine ⟨_, rfl, ?_⟩
  -- The values under the old indices once the slot is written.
  have hidx : ∀ i < t.size, Function.update t.idx t.size t.size i = t.idx i := fun i hi =>
    Function.update_of_ne (Nat.ne_of_lt hi) _ _
  have hself : Function.update t.idx t.size t.size t.size = t.size := Function.update_self ..
  have hwrite : ∀ i, t.KeepsLive cmp (.push value) → i < t.size →
      Function.update t.val t.size value (t.idx i) = t.val (t.idx i) := by
    intro i hk hi
    rw [KeepsLive, if_pos hadd] at hk
    by_cases he : t.idx i = t.size
    · rw [he, Function.update_self, hk i hi he]
    · exact Function.update_of_ne he _ _
  have hvalues : HeapOrder.values (fun i => Function.update t.val t.size value
      (siftUp cmp (Function.update t.val t.size value) (Function.update t.idx t.size t.size) t.size i))
      (t.size + 1) = value ::ₘ HeapOrder.values
        (fun i => Function.update t.val t.size value (t.idx i)) t.size := by
    rw [siftUp_values (Nat.lt_succ_self _), values_succ, hself, Function.update_self]
    congr 1
    refine values_congr fun i hi => ?_
    simp only [hidx i hi]
  refine ⟨fun hk => ⟨?_, h.capacity_eq, hc⟩, ?_⟩
  · refine siftUp_ordered (Nat.lt_succ_self _) (h.ordered.upOrdered fun i hi => ?_)
    simp only [hidx i hi]
    exact hwrite i hk hi
  · rw [Reference, if_pos (by rw [card_values]; exact hc)]
    change HeapOrder.values _ _ = _ ↔ _
    rw [hvalues, Multiset.cons_inj_right]
    constructor
    · intro he
      rw [KeepsLive, if_pos hadd]
      intro i hi hlive
      have hfg : ∀ i < t.size, Function.update t.val t.size value (t.idx i) = t.val (t.idx i) ∨
          Function.update t.val t.size value (t.idx i) = value := by
        intro i hi
        by_cases he : t.idx i = t.size
        · exact Or.inr (by rw [he, Function.update_self])
        · exact Or.inl (Function.update_of_ne he _ _)
      have := eq_of_values_eq hfg he i hi
      rw [hlive, Function.update_self] at this
      exact this.symm
    · intro hk
      exact values_congr fun i hi => hwrite i hk hi

/-- A push into a full heap whose least value is less. -/
theorem Valid.push_replace (h : Valid cmp capacity t) (hcap : 1 ≤ capacity)
    (hfull : ¬ t.size < capacity) (hs : t.size < 2 ^ 31) (hlt : cmp t.top value = true) :
    ∃ t', t.push cmp value = some t' ∧
      (t.KeepsLive cmp (.push value) → Valid cmp capacity t') ∧
      (Reference cmp capacity t.values (.push value) t'.values ↔ t.KeepsLive cmp (.push value)) := by
  classical
  have hadd : ¬ t.size < t.capacity := h.capacity_eq.symm ▸ hfull
  have h0 : 0 < t.size := by omega
  obtain ⟨n, hn⟩ : ∃ n, t.size = n + 1 := ⟨t.size - 1, by omega⟩
  obtain ⟨idx', hi, hv, ho⟩ := siftDown_spec cmp (Function.update t.val (t.idx 0) value) t.idx hs h0
    (Nat.le_refl _)
  refine ⟨{ t with val := Function.update t.val (t.idx 0) value, idx := idx' }, ?_, ?_⟩
  · have hlt' : cmp (t.val (t.idx 0)) value = true := hlt
    rw [push, if_neg hadd, if_pos hlt']
    simp only [hi, Option.map_some]
  -- The values under the old indices once the slot is written, and how they would be if only
  -- the first of them were.
  have hroot : ∀ i, (t.KeepsLive cmp (.push value)) → i < t.size →
      Function.update t.val (t.idx 0) value (t.idx i) =
        Function.update (fun i => t.val (t.idx i)) 0 value i := by
    intro i hk hi
    rw [KeepsLive, if_neg hadd] at hk
    by_cases hi0 : i = 0
    · rw [hi0, Function.update_self, Function.update_self]
    · rw [Function.update_of_ne (hk hlt i (Nat.pos_of_ne_zero hi0) hi), Function.update_of_ne hi0]
  have hroot_values : HeapOrder.values (Function.update (fun i => t.val (t.idx i)) 0 value) t.size =
      value ::ₘ HeapOrder.values ((fun i => t.val (t.idx i)) ∘ Equiv.swap 0 n) n := by
    rw [hn]
    exact values_update _ (Nat.succ_pos n) value
  have hold : t.values = t.top ::ₘ HeapOrder.values ((fun i => t.val (t.idx i)) ∘ Equiv.swap 0 n) n := by
    rw [values, hn]
    exact values_eq_cons _ (Nat.succ_pos n)
  have hmin := (h.topMinimal (by omega)).2
  refine ⟨fun hk => ⟨ho ?_, h.capacity_eq, h.size_le⟩, ?_⟩
  · refine h.ordered.downOrdered (Nat.le_refl _) fun i hi hn => ?_
    rw [hroot i hk hn, Function.update_of_ne (by omega)]
  · rw [Reference, if_neg (by rw [card_values]; exact hfull)]
    change (∃ m rest, _ ∧ _ ∧ HeapOrder.values (fun i => Function.update t.val (t.idx 0) value (idx' i))
      t.size = _) ↔ _
    rw [hv]
    constructor
    · rintro ⟨m, rest, hsplit, hm, hnew⟩
      have hmv : cmp m value = true := by
        by_contra hge
        have hle := hm t.top (h.topMinimal (by omega)).1
        exact @not_lt_trans α (fun a b => cmp a b = true) _ _ _ _ hle hge hlt
      have ne_of_lt : ∀ x, cmp x value = true → value ≠ x := by
        rintro x hx rfl
        exact irrefl_of (fun a b => cmp a b = true) value hx
      have hcount := congrArg (Multiset.count value) (hold.symm.trans hsplit)
      rw [Multiset.count_cons_of_ne (ne_of_lt _ hlt), Multiset.count_cons_of_ne (ne_of_lt _ hmv)] at hcount
      have hfg : ∀ i < t.size, Function.update t.val (t.idx 0) value (t.idx i) =
          Function.update (fun i => t.val (t.idx i)) 0 value i ∨
            Function.update t.val (t.idx 0) value (t.idx i) = value := by
        intro i hi
        by_cases he : t.idx i = t.idx 0
        · exact Or.inr (by rw [he, Function.update_self])
        · have hi0 : i ≠ 0 := fun h0 => he (by rw [h0])
          exact Or.inl (by rw [Function.update_of_ne he, Function.update_of_ne hi0])
      rw [KeepsLive, if_neg hadd]
      intro _ i hi0 hi he
      have hlt_count := (count_values_le hfg).2 ⟨i, hi, ?_⟩
      · rw [hnew, if_pos hmv, hroot_values, Multiset.count_cons_self, Multiset.count_cons_self,
          hcount] at hlt_count
        exact lt_irrefl _ hlt_count
      · rw [he, Function.update_self, Function.update_of_ne (by omega), he]
        exact ne_of_lt _ hlt
    · intro hk
      refine ⟨t.top, _, hold, hmin, ?_⟩
      rw [if_pos hlt, ← hroot_values]
      exact values_congr fun i hi => hroot i hk hi

/-- A pop takes the top out. -/
theorem Valid.pop_top (h : Valid cmp capacity t) (h0 : t.size ≠ 0) (hs : t.size ≤ 2 ^ 31) :
    ∃ t', t.pop cmp = some t' ∧ Valid cmp capacity t' ∧ t.values = t.top ::ₘ t'.values := by
  obtain ⟨n, hn⟩ : ∃ n, t.size = n + 1 := ⟨t.size - 1, by omega⟩
  have hsize : t.size - 1 = n := by omega
  have hle := h.size_le
  have hidx : (fun i => t.val (Function.update t.idx 0 (t.idx n) i)) =
      Function.update (fun i => t.val (t.idx i)) 0 (t.val (t.idx n)) := by
    funext i
    by_cases hi : i = 0
    · rw [hi, Function.update_self, Function.update_self]
    · rw [Function.update_of_ne hi, Function.update_of_ne hi]
  have hpop : t.values = t.top ::ₘ
      HeapOrder.values (fun i => t.val (Function.update t.idx 0 (t.idx n) i)) n := by
    rw [values, hn, hidx]
    exact values_pop _ n
  unfold TopNHeap.pop
  simp only [hsize]
  by_cases hz : n = 0
  · rw [if_pos hz]
    refine ⟨_, rfl, ⟨fun i _ hi => ?_, h.capacity_eq, ?_⟩, hpop⟩
    · exact absurd (hz ▸ hi) (Nat.not_lt_zero i)
    · exact Nat.le_trans (by omega : n ≤ t.size) hle
  · rw [if_neg hz]
    obtain ⟨idx', hi, hv, ho⟩ := siftDown_spec cmp t.val
      (Function.update t.idx 0 (t.idx n)) (by omega : n < 2 ^ 31) (Nat.pos_of_ne_zero hz)
      (Nat.le_refl n)
    rw [hi]
    refine ⟨_, rfl, ⟨ho ?_, h.capacity_eq, ?_⟩, ?_⟩
    · refine h.ordered.downOrdered (by omega : n ≤ t.size) fun i hi _ => ?_
      rw [Function.update_of_ne (by omega)]
    · exact Nat.le_trans (by omega : n ≤ t.size) hle
    · rw [hpop, ← hv]
      rfl

theorem Valid.pop (h : Valid cmp capacity t) (h0 : t.size ≠ 0) (hs : t.size ≤ 2 ^ 31) :
    ∃ t', t.pop cmp = some t' ∧ Valid cmp capacity t' ∧
      Reference cmp capacity t.values .pop t'.values := by
  obtain ⟨t', ht, hv, htop⟩ := h.pop_top h0 hs
  exact ⟨t', ht, hv, t.top, htop, (h.topMinimal h0).2⟩

/-- What a call comes to: it returns, keeps the heap order while it keeps the values that
are held, and does what the queue does exactly then. -/
theorem Valid.call (h : Valid cmp capacity t) (hcap : 1 ≤ capacity) {c : Call α} (hw : t.NoWrap c)
    (hpop : c = .pop → t.size ≠ 0) : ∃ t', t.call cmp c = some t' ∧
      (t.KeepsLive cmp c → Valid cmp capacity t') ∧
      (Reference cmp capacity t.values c t'.values ↔ t.KeepsLive cmp c) := by
  cases c with
  | push value =>
    by_cases hadd : t.size < capacity
    · exact h.push_add hadd
    · have hadd' : ¬ t.size < t.capacity := h.capacity_eq.symm ▸ hadd
      by_cases hlt : cmp t.top value = true
      · exact h.push_replace hcap hadd (hw.resolve_left hadd') hlt
      · -- The value is not greater than the least one.
        have hk : t.KeepsLive cmp (.push value) := by
          rw [KeepsLive, if_neg hadd']
          exact fun h => absurd h hlt
        have hlt' : ¬ cmp (t.val (t.idx 0)) value = true := hlt
        refine ⟨t, by rw [TopNHeap.call, push, if_neg hadd', if_neg hlt'], fun _ => h, fun _ => hk,
          fun _ => ?_⟩
        obtain ⟨hmem, hmin⟩ := h.topMinimal (by omega)
        obtain ⟨rest, hrest⟩ := Multiset.exists_cons_of_mem hmem
        rw [Reference, if_neg (by rw [card_values]; exact hadd)]
        exact ⟨t.top, rest, hrest, hmin, by rw [if_neg hlt]⟩
  | pop =>
    have h0 := hpop rfl
    obtain ⟨t', ht, hv, hr⟩ := h.pop h0 hw
    exact ⟨t', by rw [TopNHeap.call, if_neg h0, ht], fun _ => hv, fun _ => trivial, fun _ => hr⟩

end Step

section Runs

variable [IsStrictWeakOrder α fun a b => cmp a b = true] [Inhabited α] {capacity : Nat}

/-- In a run whose calls all write free slots the heap is the bounded queue, and the next
call does what the queue does exactly when it writes a free slot. -/
theorem follows_reference_iff_keepsLive (hcap : 1 ≤ capacity)
    (h : Reach (call cmp) (fun t c => t.NoWrap c ∧ t.KeepsLive cmp c) (new capacity) t) :
    t.TopMinimal cmp ∧ ∀ c, t.NoWrap c → (c = .pop → t.size ≠ 0) → ∃ t', t.call cmp c = some t' ∧
      ((Reference cmp capacity t.values c t'.values ∧ t'.TopMinimal cmp) ↔ t.KeepsLive cmp c) := by
  have hv : Valid cmp capacity t := by
    refine h.invariant (Valid cmp capacity) ⟨fun i _ hi => absurd hi (Nat.not_lt_zero i), rfl,
      Nat.zero_le _⟩ fun t c t' hv ⟨hw, hk⟩ hs => ?_
    have hpop : c = .pop → t.size ≠ 0 := by
      rintro rfl h0
      rw [TopNHeap.call, if_pos h0] at hs
      cases hs
    obtain ⟨t₁, ht, hv', -⟩ := hv.call hcap hw hpop
    obtain rfl := Option.some.inj (ht.symm.trans hs)
    exact hv' hk
  refine ⟨hv.topMinimal, fun c hw hpop => ?_⟩
  obtain ⟨t', ht, hv', hr⟩ := hv.call hcap hw hpop
  exact ⟨t', ht, fun ⟨hr', _⟩ => hr.mp hr', fun hk => ⟨hr.mpr hk, (hv' hk).topMinimal⟩⟩

end Runs

instance : IsStrictWeakOrder Nat fun a b => decide (a < b) = true where
  irrefl a := by simp
  trans a b c := by
    simp only [decide_eq_true_iff]
    exact Nat.lt_trans
  incomp_trans a b c := by
    simp only [decide_eq_true_iff]
    omega

/-- Two places, filled by 1 and 2; a pop frees slot 0 and the next push writes slot 1. -/
theorem push_overwrites_held : ¬ ∀ (capacity : Nat) (t t' : TopNHeap Nat) (c : Call Nat),
    1 ≤ capacity → Reach (call fun a b => decide (a < b)) (fun _ _ => True) (new capacity) t →
    t.call (fun a b => decide (a < b)) c = some t' →
    Reference (fun a b => decide (a < b)) capacity t.values c t'.values := by
  intro hall
  have hrun : ((run (call fun a b => decide (a < b)) (new 2) [.push 1, .push 2, .pop]).bind fun t =>
      (t.call (fun a b => decide (a < b)) (.push 3)).map fun t' => (t, t')).any fun x =>
        x.1.size = 1 ∧ x.1.val (x.1.idx 0) = 2 ∧ x.2.size = 2 ∧ x.2.val (x.2.idx 0) = 3 ∧
          x.2.val (x.2.idx 1) = 3 := by decide +kernel
  obtain ⟨⟨t, t'⟩, ht, hv⟩ := (Option.any_eq_true _ _).mp hrun
  obtain ⟨s, hs, ht⟩ := Option.bind_eq_some_iff.mp ht
  obtain ⟨s', hcall, he⟩ := Option.map_eq_some_iff.mp ht
  obtain ⟨rfl, rfl⟩ := Prod.mk.inj he
  obtain ⟨hsize, hval, hsize', hval₀, hval₁⟩ := of_decide_eq_true hv
  have hr := hall 2 s s' (.push 3) (by decide) (Reach.start.run (fun _ _ _ => trivial) hs) hcall
  have hold : s.values = {2} := by
    rw [values, hsize, values_succ, hval]
    rfl
  have hnew : s'.values = {3, 3} := by
    rw [values, hsize', values_succ, values_succ, hval₀, hval₁]
    rfl
  rw [hold, hnew, Reference, if_pos (by decide)] at hr
  exact absurd hr (by decide)

/-- The heap is full of 2 and 3, and the least of them gives way to 4. -/
theorem follows_reference_iff_keepsLive_replaces : ∃ t : TopNHeap Nat,
    Reach (call fun a b => decide (a < b)) (fun t c => t.NoWrap c ∧ t.KeepsLive (fun a b => decide (a < b)) c)
      (new 2) t ∧ t.TopMinimal (fun a b => decide (a < b)) ∧
    ∃ t', t.call (fun a b => decide (a < b)) (.push 4) = some t' ∧
      Reference (fun a b => decide (a < b)) 2 t.values (.push 4) t'.values := by
  have hrun : (run (checked (fun (t : TopNHeap Nat) _ => decide (t.size < t.capacity ∧ t.capacity ≤ 2 ∧
        ∀ i < t.size, t.idx i ≠ t.size)) (call fun a b => decide (a < b)))
      (new 2) [.push 3, .push 2]).any fun t => t.size = 2 ∧ t.capacity = 2 ∧ t.idx 1 ≠ t.idx 0 := by
    decide +kernel
  obtain ⟨t, hs, hv⟩ := (Option.any_eq_true _ _).mp hrun
  obtain ⟨hsize, hcapacity, hslots⟩ := of_decide_eq_true hv
  have hreach : Reach (call fun a b => decide (a < b))
      (fun t c => t.NoWrap c ∧ t.KeepsLive (fun a b => decide (a < b)) c) (new 2) t := by
    refine Reach.start.checked (fun t c hok => ?_) hs
    obtain ⟨hlt, hcap, hfree⟩ := of_decide_eq_true hok
    cases c with
    | push value =>
      refine ⟨Or.inl hlt, ?_⟩
      rw [KeepsLive, if_pos hlt]
      exact fun i hi he => absurd he (hfree i hi)
    | pop => exact ⟨show t.size ≤ 2 ^ 31 by omega, trivial⟩
  obtain ⟨htop, hcalls⟩ := follows_reference_iff_keepsLive (by decide) hreach
  obtain ⟨t', ht, hr⟩ := hcalls (.push 4) (Or.inr (by omega)) (fun h => by cases h)
  refine ⟨t, hreach, htop, t', ht, (hr.mpr ?_).1⟩
  rw [KeepsLive, if_neg (by omega)]
  intro _ i h0 hi
  obtain rfl : i = 1 := by omega
  exact hslots

end UnifiedCache.Infra.TopNHeap
