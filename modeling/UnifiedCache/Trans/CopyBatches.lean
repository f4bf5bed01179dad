import UnifiedCache.Lib.Stride
import UnifiedCache.Trans.CopyKernels

/-! What the copy kernels do to a batch of segments, however the threads of the grid take turns. -/

namespace UnifiedCache.Trans

open StepSystem

variable {kernel : Kernel} {size number : UInt64}

namespace Kernel

theorem words_cases (kernel : Kernel) : kernel.words = 1 ∨ kernel.words = 2 := by
  cases kernel <;> simp [words]

/-- The size of a unit. -/
def unitBytes (kernel : Kernel) : Nat := 16 * kernel.words

theorem toNat_unitSize (kernel : Kernel) : kernel.unitSize.toNat = kernel.unitBytes := by
  cases kernel <;> rfl

theorem unitBytes_bounds (kernel : Kernel) : 16 ≤ kernel.unitBytes ∧ kernel.unitBytes ≤ 32 := by
  unfold unitBytes
  obtain h | h := kernel.words_cases <;> rw [h] <;> decide

/-- The units that fit into the bytes of the batch. -/
def units (kernel : Kernel) (size number : UInt64) : Nat := size.toNat * number.toNat / kernel.unitBytes

variable (hroom : 2 * (size.toNat * number.toNat) ≤ 2 ^ 64)

include hroom

theorem toNat_length : (size * number).toNat = size.toNat * number.toNat := by
  rw [UInt64.toNat_mul]
  exact Nat.mod_eq_of_lt (by omega)

theorem units_mul_le : kernel.units size number * kernel.unitBytes ≤ 2 ^ 63 := by
  have := Nat.div_mul_le_self (size.toNat * number.toNat) kernel.unitBytes
  unfold units
  omega

/-- No offset of the loop wraps. -/
theorem toNat_offset {q : Nat} (hq : q ≤ kernel.units size number + threadNumber) :
    (UInt64.ofNat (q * kernel.unitBytes)).toNat = q * kernel.unitBytes ∧ q * kernel.unitBytes + 32 < 2 ^ 64 := by
  have hu : kernel.units size number * kernel.unitBytes ≤ 2 ^ 63 := units_mul_le hroom
  have hb := kernel.unitBytes_bounds
  have hm : q * kernel.unitBytes ≤ kernel.units size number * kernel.unitBytes + threadNumber * kernel.unitBytes := by
    rw [← Nat.add_mul]
    exact Nat.mul_le_mul_right _ hq
  have ht : threadNumber * kernel.unitBytes ≤ 8192 * 32 := Nat.mul_le_mul_left _ hb.2
  refine ⟨?_, by omega⟩
  rw [UInt64.toNat_ofNat']
  exact Nat.mod_eq_of_lt (by omega)

/-- The guard of the loop. -/
theorem guard_iff {q : Nat} (hq : q ≤ kernel.units size number + threadNumber) :
    UInt64.ofNat (q * kernel.unitBytes) + kernel.unitSize ≤ size * number ↔ q < kernel.units size number := by
  obtain ⟨ho, hlt⟩ := toNat_offset hroom hq
  have hb := kernel.unitBytes_bounds
  have hsum : (UInt64.ofNat (q * kernel.unitBytes) + kernel.unitSize).toNat = (q + 1) * kernel.unitBytes := by
    rw [UInt64.toNat_add, ho, toNat_unitSize, Nat.add_one_mul]
    exact Nat.mod_eq_of_lt (by omega)
  rw [UInt64.le_iff_toNat_le, hsum, toNat_length hroom, ← Nat.le_div_iff_mul_le (by omega)]
  exact Nat.succ_le_iff

omit hroom in
theorem next_offset (q : Nat) : UInt64.ofNat (q * kernel.unitBytes) + UInt64.ofNat threadNumber * kernel.unitSize =
    UInt64.ofNat ((q + threadNumber) * kernel.unitBytes) := by
  rw [Nat.add_mul, UInt64.ofNat_add, UInt64.ofNat_mul threadNumber]
  rfl

/-- A thread copies every `threadNumber`th unit. -/
theorem offsets_eq {t : Nat} (ht : t < threadNumber) :
    kernel.offsets size number t =
      some ((strided threadNumber (kernel.units size number) t).map fun q => UInt64.ofNat (q * kernel.unitBytes)) := by
  let Inv : UInt64 × List UInt64 → Prop := fun s =>
    ∃ q, s = (UInt64.ofNat (q * kernel.unitBytes),
      (strided threadNumber q t).map fun q => UInt64.ofNat (q * kernel.unitBytes)) ∧
      q % threadNumber = t ∧ q < kernel.units size number + threadNumber
  let measure : UInt64 × List UInt64 → Nat := fun s => (size * number).toNat - s.1.toNat
  have hpos : 0 < threadNumber := by decide
  have hstart : UInt64.ofNat (t / blockSize * blockSize + t % blockSize) * kernel.unitSize =
      UInt64.ofNat (t * kernel.unitBytes) := by
    rw [Nat.div_add_mod', UInt64.ofNat_mul]
    rfl
  have hturn : ∀ s, Inv s → some (decide (s.1 + kernel.unitSize ≤ size * number)) = some false ∨
      some (decide (s.1 + kernel.unitSize ≤ size * number)) = some true ∧
        ∃ s', some (s.1 + UInt64.ofNat threadNumber * kernel.unitSize, s.2 ++ [s.1]) = some s' ∧
          Inv s' ∧ measure s' < measure s := by
    rintro s ⟨q, rfl, hq, hlt⟩
    by_cases hu : q < kernel.units size number
    · refine .inr ⟨by simpa using (guard_iff hroom hlt.le).mpr hu, _, rfl, ⟨q + threadNumber, ?_, ?_, ?_⟩, ?_⟩
      · rw [next_offset, strided_add hpos hq, List.map_append]
        rfl
      · rw [Nat.add_mod_right, hq]
      · omega
      · have hb := kernel.unitBytes_bounds
        have hle : (q + 1) * kernel.unitBytes ≤ kernel.units size number * kernel.unitBytes :=
          Nat.mul_le_mul_right _ hu
        have hlen : kernel.units size number * kernel.unitBytes ≤ size.toNat * number.toNat :=
          Nat.div_mul_le_self _ _
        simp only [measure, next_offset, toNat_length hroom, (toNat_offset hroom hlt.le).1,
          (toNat_offset hroom (show q + threadNumber ≤ kernel.units size number + threadNumber by omega)).1]
        have hstep : 0 < threadNumber * kernel.unitBytes := Nat.mul_pos hpos (by omega)
        rw [Nat.add_one_mul] at hle
        rw [Nat.add_mul]
        omega
    · exact .inl (by simpa using mt (guard_iff hroom hlt.le).mp hu)
  have hfirst : Inv (UInt64.ofNat (t * kernel.unitBytes), []) := by
    refine ⟨t, ?_, Nat.mod_eq_of_lt ht, by omega⟩
    rw [strided_self ht, List.map_nil]
  have hfuel : measure (UInt64.ofNat (t * kernel.unitBytes), []) < (size * number).toNat + 1 :=
    Nat.lt_succ_of_le (Nat.sub_le _ _)
  obtain ⟨s, hloop, ⟨q, rfl, hq, hlt⟩, hstop⟩ := whileLoop_spec Inv measure hturn hfirst hfuel
  have hend : kernel.units size number ≤ q := by
    by_contra hu
    have hgo := (guard_iff hroom hlt.le).mpr (Nat.lt_of_not_le hu)
    exact of_decide_eq_false (Option.some.inj hstop) hgo
  rw [offsets, loop, hstart, hloop, Option.map_some, strided_of_le hq hend hlt]

end Kernel

namespace Buffer

/-- Where a byte is in memory. -/
def addr (size : UInt64) (buffer : Buffer) (k : Nat) : Nat := buffer.base size (k / size.toNat) + k % size.toNat

variable {buffer : Buffer} {n k k' : Nat}

theorem addr_add {o d : Nat} (h : o % size.toNat + d < size.toNat) :
    buffer.addr size (o + d) = buffer.addr size o + d := by
  have hsplit : o + d = size.toNat * (o / size.toNat) + (o % size.toNat + d) := by
    rw [← Nat.add_assoc, Nat.div_add_mod]
  have hdiv : (o + d) / size.toNat = o / size.toNat := by
    rw [hsplit, Nat.mul_add_div (by omega), Nat.div_eq_of_lt h, Nat.add_zero]
  have hmod : (o + d) % size.toNat = o % size.toNat + d := by
    rw [hsplit, Nat.mul_add_mod, Nat.mod_eq_of_lt h]
  rw [addr, addr, hdiv, hmod, Nat.add_assoc]

theorem segment_lt (hk : k < size.toNat * n) : k / size.toNat < n ∧ k % size.toNat < size.toNat := by
  have hs : 0 < size.toNat := Nat.pos_of_ne_zero fun h => by simp [h] at hk
  exact ⟨Nat.div_lt_of_lt_mul hk, Nat.mod_lt _ hs⟩

theorem addr_inj (h : ∀ i < n, ∀ j < n, i ≠ j → buffer.base size i + size.toNat ≤ buffer.base size j ∨
      buffer.base size j + size.toNat ≤ buffer.base size i) (hk : k < size.toNat * n) (hk' : k' < size.toNat * n)
    (he : buffer.addr size k = buffer.addr size k') : k = k' := by
  obtain ⟨hi, hr⟩ := segment_lt hk
  obtain ⟨hi', hr'⟩ := segment_lt hk'
  unfold addr at he
  have hdiv : k / size.toNat = k' / size.toNat := by
    by_contra hne
    obtain hd | hd := h _ hi _ hi' hne <;> omega
  rw [hdiv] at he
  rw [← Nat.div_add_mod k size.toNat, ← Nat.div_add_mod k' size.toNat, hdiv, Nat.add_left_cancel he]

theorem addr_lt (h : ∀ i < n, buffer.base size i + size.toNat ≤ 2 ^ 64) (hk : k < size.toNat * n) :
    buffer.addr size k < 2 ^ 64 := by
  obtain ⟨hi, hr⟩ := segment_lt hk
  have := h _ hi
  unfold addr
  omega

theorem toNat_unit {o : Nat} (h : ∀ i < n, buffer.base size i + size.toNat ≤ 2 ^ 64) (ho : o < size.toNat * n)
    (ho' : o < 2 ^ 64) : (buffer.unit size (UInt64.ofNat o)).toNat = buffer.addr size o := by
  have hof : (UInt64.ofNat o).toNat = o := by
    rw [UInt64.toNat_ofNat']
    exact Nat.mod_eq_of_lt ho'
  have hlt := addr_lt h ho
  cases buffer with
  | segments ptr =>
    have hi : UInt64.ofNat o / size = UInt64.ofNat (o / size.toNat) := by
      refine UInt64.toNat_inj.mp ?_
      rw [UInt64.toNat_div, hof, UInt64.toNat_ofNat']
      exact (Nat.mod_eq_of_lt ((Nat.div_le_self o _).trans_lt ho')).symm
    rw [unit, UInt64.toNat_add, UInt64.toNat_mod, hof, hi]
    exact Nat.mod_eq_of_lt hlt
  | contiguous ptr =>
    have ha : addr size (contiguous ptr) o = ptr.toNat + o := by
      rw [addr, base, Nat.add_assoc, Nat.div_add_mod]
    rw [ha] at hlt
    rw [unit, UInt64.toNat_add, hof, ha]
    exact Nat.mod_eq_of_lt hlt

/-- A word of a unit that lies in one segment. -/
theorem toNat_unit_add {o d : Nat} (h : ∀ i < n, buffer.base size i + size.toNat ≤ 2 ^ 64)
    (ho : o < size.toNat * n) (ho' : o < 2 ^ 64) (hd : o % size.toNat + d < size.toNat) :
    (buffer.unit size (UInt64.ofNat o) + UInt64.ofNat d).toNat = buffer.addr size (o + d) := by
  obtain ⟨hi, -⟩ := segment_lt ho
  have hin := h _ hi
  have haddr : buffer.addr size (o + d) = buffer.addr size o + d := addr_add hd
  have hof : (UInt64.ofNat d).toNat = d := by
    rw [UInt64.toNat_ofNat']
    exact Nat.mod_eq_of_lt (by omega)
  rw [UInt64.toNat_add, toNat_unit h ho ho', hof, ← haddr]
  refine Nat.mod_eq_of_lt ?_
  rw [haddr]
  unfold addr
  omega

end Buffer

namespace Apart

variable {src dst : Buffer} {n : Nat}

theorem addr_ne (h : Apart src dst size n) {k k' : Nat} (hk : k < size.toNat * n) (hk' : k' < size.toNat * n) :
    src.addr size k ≠ dst.addr size k' := by
  obtain ⟨hi, hr⟩ := Buffer.segment_lt hk
  obtain ⟨hi', hr'⟩ := Buffer.segment_lt hk'
  unfold Buffer.addr
  obtain hd | hd := h.src_dst _ hi _ hi' <;> omega

/-- All the bytes have an address of their own. -/
theorem room (h : Apart src dst size n) : 2 * (size.toNat * n) ≤ 2 ^ 64 := by
  have hs : ((Finset.range (size.toNat * n)).image (src.addr size)).card = size.toNat * n := by
    rw [Finset.card_image_of_injOn, Finset.card_range]
    intro k hk k' hk' he
    exact Buffer.addr_inj h.src_src (Finset.mem_range.mp hk) (Finset.mem_range.mp hk') he
  have hd : ((Finset.range (size.toNat * n)).image (dst.addr size)).card = size.toNat * n := by
    rw [Finset.card_image_of_injOn, Finset.card_range]
    intro k hk k' hk' he
    exact Buffer.addr_inj h.dst_dst (Finset.mem_range.mp hk) (Finset.mem_range.mp hk') he
  have hdisj : Disjoint ((Finset.range (size.toNat * n)).image (src.addr size))
      ((Finset.range (size.toNat * n)).image (dst.addr size)) := by
    refine Finset.disjoint_left.mpr fun a ha ha' => ?_
    obtain ⟨k, hk, rfl⟩ := Finset.mem_image.mp ha
    obtain ⟨k', hk', he⟩ := Finset.mem_image.mp ha'
    exact h.addr_ne (Finset.mem_range.mp hk) (Finset.mem_range.mp hk') he.symm
  have hsub : (Finset.range (size.toNat * n)).image (src.addr size) ∪
      (Finset.range (size.toNat * n)).image (dst.addr size) ⊆ Finset.range (2 ^ 64) := by
    refine Finset.union_subset ?_ ?_
    · refine Finset.image_subset_iff.mpr fun k hk => Finset.mem_range.mpr ?_
      exact Buffer.addr_lt h.src_inside (Finset.mem_range.mp hk)
    · refine Finset.image_subset_iff.mpr fun k hk => Finset.mem_range.mpr ?_
      exact Buffer.addr_lt h.dst_inside (Finset.mem_range.mp hk)
  have hcard := Finset.card_le_card hsub
  rw [Finset.card_union_of_disjoint hdisj, hs, hd, Finset.card_range] at hcard
  omega

end Apart

namespace Op

def ptr : Op → Pointer
  | load _ ptr | store _ ptr => ptr

end Op

/-- What holds of the words that a thread stores, when all that it loads is as in `memory`. -/
def Stores (memory : Memory) (loads : Pointer → Prop) (stores : Pointer → Word → Prop) : List Op → (Nat → Word) → Prop
  | [], _ => True
  | .load r ptr :: ops, regs =>
    loads ptr ∧ Stores memory loads stores ops (Function.update regs r (Grid.word memory ptr))
  | .store r ptr :: ops, regs => stores ptr (regs r) ∧ Stores memory loads stores ops regs

section Stores

variable {memory : Memory} {loads : Pointer → Prop} {stores : Pointer → Word → Prop}

theorem Stores.copyUnit {o : UInt64} {ops : List Op}
    (hl : ∀ r < kernel.words, loads (kernel.src.unit size o + UInt64.ofNat (16 * r)))
    (hs : ∀ r < kernel.words, stores (kernel.dst.unit size o + UInt64.ofNat (16 * r))
      (Grid.word memory (kernel.src.unit size o + UInt64.ofNat (16 * r))))
    (hops : ∀ regs, Stores memory loads stores ops regs) (regs : Nat → Word) :
    Stores memory loads stores (kernel.copyUnit size o ++ ops) regs := by
  unfold Kernel.copyUnit
  obtain hw | hw := kernel.words_cases
  · rw [hw] at hl hs ⊢
    refine ⟨hl 0 Nat.one_pos, ?_, hops _⟩
    simpa using hs 0 Nat.one_pos
  · rw [hw] at hl hs ⊢
    refine ⟨hl 0 Nat.two_pos, hl 1 Nat.one_lt_two, ?_, ?_, hops _⟩
    · simpa using hs 0 Nat.two_pos
    · simpa using hs 1 Nat.one_lt_two

theorem Stores.flatMap {offsets : List UInt64}
    (hl : ∀ o ∈ offsets, ∀ r < kernel.words, loads (kernel.src.unit size o + UInt64.ofNat (16 * r)))
    (hs : ∀ o ∈ offsets, ∀ r < kernel.words, stores (kernel.dst.unit size o + UInt64.ofNat (16 * r))
      (Grid.word memory (kernel.src.unit size o + UInt64.ofNat (16 * r)))) (regs : Nat → Word) :
    Stores memory loads stores (offsets.flatMap (kernel.copyUnit size)) regs := by
  induction offsets generalizing regs with
  | nil => trivial
  | cons o offsets ih =>
    rw [List.flatMap_cons]
    refine Stores.copyUnit (hl o List.mem_cons_self) (hs o List.mem_cons_self) ?_ regs
    exact ih (fun o ho => hl o (List.mem_cons_of_mem _ ho)) (fun o ho => hs o (List.mem_cons_of_mem _ ho))

end Stores

/-- The word is one of the bytes to read. -/
def Reads (S : Nat → Nat) (N : Nat) (ptr : Pointer) : Prop := ∃ k, k + 16 ≤ N ∧ ∀ j < 16, ptr.toNat + j = S (k + j)

/-- The word is one of the bytes to write, and what is written is right. -/
def Writes (S D : Nat → Nat) (N : Nat) (memory : Memory) (ptr : Pointer) (w : Word) : Prop :=
  ∃ k, k + 16 ≤ N ∧ (∀ j < 16, ptr.toNat + j = D (k + j)) ∧ ∀ j : Fin 16, w j = memory (S (k + j))

namespace Grid

/-- While the byte `k` is copied from `S k` to `D k`, for all `k` below `N`. -/
structure Inv (S D : Nat → Nat) (N : Nat) (memory : Memory) (s : Grid) : Prop where
  src : ∀ k < N, s.memory (S k) = memory (S k)
  dst : ∀ k < N, s.memory (D k) = memory (S k) ∨
    ∃ t r ptr, Op.store r ptr ∈ s.rest t ∧ ptr.toNat ≤ D k ∧ D k < ptr.toNat + 16
  others : ∀ a, (∀ k < N, a ≠ D k) → s.memory a = memory a
  stores : ∀ t, Stores memory (Reads S N) (Writes S D N memory) (s.rest t) (s.regs t)

theorem storeWord_of_notMem {memory : Memory} {ptr : Pointer} {w : Word} {a : Nat}
    (h : ¬(ptr.toNat ≤ a ∧ a < ptr.toNat + 16)) : storeWord memory ptr w a = memory a := dif_neg h

theorem storeWord_add {memory : Memory} {ptr : Pointer} {w : Word} (j : Fin 16) :
    storeWord memory ptr w (ptr.toNat + j) = w j := by
  have h : ptr.toNat ≤ ptr.toNat + j ∧ ptr.toNat + j < ptr.toNat + 16 := by omega
  rw [storeWord, dif_pos h]
  congr 1
  exact Fin.ext (Nat.add_sub_cancel_left _ _)

variable {S D : Nat → Nat} {N : Nat} {memory : Memory} {s s' : Grid} {t r : Nat} {ptr : Pointer} {ops : List Op}

theorem Inv.load (hi : s.Inv S D N memory) (ht : s.rest t = .load r ptr :: ops) :
    Inv S D N memory { s with
      rest := Function.update s.rest t ops
      regs := Function.update s.regs t (Function.update (s.regs t) r (word s.memory ptr)) } where
  src := hi.src
  dst k hk := by
    obtain h | ⟨u, r', ptr', hm, hle, hlt⟩ := hi.dst k hk
    · exact .inl h
    · refine .inr ⟨u, r', ptr', ?_, hle, hlt⟩
      by_cases hu : u = t
      · subst hu
        rw [ht] at hm
        simp only [Function.update_self]
        exact (List.mem_cons.mp hm).resolve_left (by simp)
      · simpa only [Function.update_of_ne hu] using hm
  others := hi.others
  stores u := by
    by_cases hu : u = t
    · subst hu
      have hst := hi.stores u
      rw [ht] at hst
      obtain ⟨⟨k, hk, hptr⟩, hst⟩ := hst
      have hword : word s.memory ptr = word memory ptr := by
        funext j
        rw [word, word, hptr j j.isLt]
        exact hi.src _ (by omega)
      simp only [Function.update_self, hword]
      exact hst
    · simp only [Function.update_of_ne hu]
      exact hi.stores u

theorem Inv.store (hD : ∀ k < N, ∀ k' < N, D k = D k' → k = k') (hSD : ∀ k < N, ∀ k' < N, S k ≠ D k')
    (hi : s.Inv S D N memory) (ht : s.rest t = .store r ptr :: ops) :
    Inv S D N memory { s with
      memory := storeWord s.memory ptr (s.regs t r)
      rest := Function.update s.rest t ops } := by
  have hst := hi.stores t
  rw [ht] at hst
  obtain ⟨⟨k₀, hk₀, hptr, hw⟩, hst⟩ := hst
  -- What is written are bytes of the destination.
  have hin : ∀ a, ptr.toNat ≤ a ∧ a < ptr.toNat + 16 → ∃ j : Fin 16, a = ptr.toNat + j ∧ a = D (k₀ + j) := by
    rintro a ⟨hle, hlt⟩
    refine ⟨⟨a - ptr.toNat, by omega⟩, by simp only; omega, ?_⟩
    rw [← hptr _ (by omega)]
    simp only
    omega
  constructor
  · intro k hk
    rw [← hi.src k hk]
    refine storeWord_of_notMem fun ha => ?_
    obtain ⟨j, -, hj⟩ := hin _ ha
    exact hSD k hk _ (by omega) hj
  · intro k hk
    by_cases ha : ptr.toNat ≤ D k ∧ D k < ptr.toNat + 16
    · obtain ⟨j, hj, hj'⟩ := hin _ ha
      have hkj : k = k₀ + j := hD k hk _ (by omega) hj'
      left
      simp only
      rw [hj, storeWord_add, hw, hkj]
    · obtain h | ⟨u, r', ptr', hm, hle, hlt⟩ := hi.dst k hk
      · exact .inl ((storeWord_of_notMem ha).trans h)
      · refine .inr ⟨u, r', ptr', ?_, hle, hlt⟩
        by_cases hu : u = t
        · subst hu
          rw [ht] at hm
          simp only [Function.update_self]
          refine (List.mem_cons.mp hm).resolve_left fun he => ?_
          cases he
          exact ha ⟨hle, hlt⟩
        · simpa only [Function.update_of_ne hu] using hm
  · intro a hne
    refine (storeWord_of_notMem fun ha => ?_).trans (hi.others a hne)
    obtain ⟨j, -, hj⟩ := hin _ ha
    exact hne _ (by omega) hj
  · intro u
    by_cases hu : u = t
    · subst hu
      simpa only [Function.update_self] using hst
    · simpa only [Function.update_of_ne hu] using hi.stores u

theorem step_cases (h : s.step t = some s') :
    (∃ r ptr ops, s.rest t = .load r ptr :: ops ∧ 16 ∣ ptr.toNat ∧ s' = { s with
      rest := Function.update s.rest t ops
      regs := Function.update s.regs t (Function.update (s.regs t) r (word s.memory ptr)) }) ∨
    ∃ r ptr ops, s.rest t = .store r ptr :: ops ∧ 16 ∣ ptr.toNat ∧ s' = { s with
      memory := storeWord s.memory ptr (s.regs t r)
      rest := Function.update s.rest t ops } := by
  unfold step at h
  split at h
  · cases h
  · split_ifs at h with ha
    exact .inl ⟨_, _, _, ‹_›, ha, (Option.some.inj h).symm⟩
  · split_ifs at h with ha
    exact .inr ⟨_, _, _, ‹_›, ha, (Option.some.inj h).symm⟩

theorem Inv.step (hD : ∀ k < N, ∀ k' < N, D k = D k' → k = k') (hSD : ∀ k < N, ∀ k' < N, S k ≠ D k')
    (hi : s.Inv S D N memory) (h : s.step t = some s') : s'.Inv S D N memory := by
  obtain ⟨r, ptr, ops, ht, -, rfl⟩ | ⟨r, ptr, ops, ht, -, rfl⟩ := step_cases h
  · exact hi.load ht
  · exact hi.store hD hSD ht

/-- At the end all is copied. -/
theorem Inv.done (hi : s.Inv S D N memory) (h : ∀ t, s.rest t = []) : ∀ k < N, s.memory (D k) = memory (S k) := by
  intro k hk
  obtain he | ⟨t, r, ptr, hm, -⟩ := hi.dst k hk
  · exact he
  · rw [h t] at hm
    cases hm

/-- What a thread has left to do is what is behind what it has done. -/
theorem rest_suffix {kernel : Kernel} {size number : UInt64} {regs : Nat → Nat → Word}
    (h : Reach step (fun _ _ => True) (launch kernel size number memory regs) s) (t : Nat) :
    s.rest t <:+ kernel.program size number t := by
  refine h.invariant (fun s => s.rest t <:+ kernel.program size number t) (List.suffix_refl _) ?_
  intro s u s' hs _ hu
  have hrest : ∃ op ops, s.rest u = op :: ops ∧ s'.rest = Function.update s.rest u ops := by
    obtain ⟨r, ptr, ops, ht, -, rfl⟩ | ⟨r, ptr, ops, ht, -, rfl⟩ := step_cases hu <;> exact ⟨_, _, ht, rfl⟩
  obtain ⟨op, ops, ht, hr⟩ := hrest
  by_cases hut : t = u
  · subst hut
    rw [ht] at hs
    rw [hr, Function.update_self]
    exact (List.suffix_cons op ops).trans hs
  · rwa [hr, Function.update_of_ne hut]

theorem step_isSome {op : Op} (h : s.rest t = op :: ops) : (s.step t).isSome ↔ 16 ∣ op.ptr.toNat := by
  unfold step
  cases op <;> simp only [h, Op.ptr] <;> split_ifs with ha <;> simp [ha]

end Grid

namespace Kernel

theorem load_mem_copyUnit (o : UInt64) {r : Nat} (hr : r < kernel.words) :
    Op.load r (kernel.src.unit size o + UInt64.ofNat (16 * r)) ∈ kernel.copyUnit size o :=
  List.mem_append_left _ (List.mem_map.mpr ⟨r, List.mem_range.mpr hr, rfl⟩)

theorem store_mem_copyUnit (o : UInt64) {r : Nat} (hr : r < kernel.words) :
    Op.store r (kernel.dst.unit size o + UInt64.ofNat (16 * r)) ∈ kernel.copyUnit size o :=
  List.mem_append_right _ (List.mem_map.mpr ⟨r, List.mem_range.mpr hr, rfl⟩)

/-- Some thread copies each unit. -/
theorem mem_program_of_unit (hroom : 2 * (size.toNat * number.toNat) ≤ 2 ^ 64) {q : Nat}
    (hq : q < kernel.units size number) :
    ∃ t < threadNumber, ∀ op ∈ kernel.copyUnit size (UInt64.ofNat (q * kernel.unitBytes)),
      op ∈ kernel.program size number t := by
  have ht : q % threadNumber < threadNumber := Nat.mod_lt q (by decide)
  refine ⟨q % threadNumber, ht, fun op hop => ?_⟩
  rw [program, if_pos ht, offsets_eq hroom ht, Option.getD_some]
  exact List.mem_flatMap.mpr ⟨_, List.mem_map.mpr ⟨q, mem_strided.mpr ⟨hq, rfl⟩, rfl⟩, hop⟩

end Kernel

/-- Every unit lies in one segment, and the units make up the batch. -/
structure Fits (kernel : Kernel) (size number : UInt64) : Prop where
  dvd : kernel.unitBytes ∣ size.toNat * number.toNat
  inside : ∀ q < kernel.units size number, q * kernel.unitBytes % size.toNat + kernel.unitBytes ≤ size.toNat

theorem Fits.of_dvd (h : number = 0 ∨ kernel.unitBytes ∣ size.toNat) : Fits kernel size number := by
  obtain rfl | h := h
  · constructor
    · simp
    · intro q hq
      simp [Kernel.units] at hq
  · refine ⟨h.mul_right _, fun q hq => ?_⟩
    have hs : 0 < size.toNat := Nat.pos_of_ne_zero fun hs => by simp [Kernel.units, hs] at hq
    have hmod : kernel.unitBytes ∣ q * kernel.unitBytes % size.toNat :=
      (Nat.dvd_mod_iff h).mpr (Nat.dvd_mul_left kernel.unitBytes q)
    have hlt := Nat.mod_lt (q * kernel.unitBytes) hs
    exact Nat.le_of_lt_add_of_dvd (Nat.add_lt_add_right hlt _) (hmod.add (dvd_refl _)) h

namespace Fits

variable (h : Fits kernel size number) (hapart : Apart kernel.src kernel.dst size number.toNat)

include h

theorem units_mul : kernel.units size number * kernel.unitBytes = size.toNat * number.toNat :=
  Nat.div_mul_cancel h.dvd

theorem byte_lt {q j : Nat} (hq : q < kernel.units size number) (hj : j < kernel.unitBytes) :
    q * kernel.unitBytes + j < size.toNat * number.toNat := by
  have hle : (q + 1) * kernel.unitBytes ≤ kernel.units size number * kernel.unitBytes := Nat.mul_le_mul_right _ hq
  rw [h.units_mul, Nat.add_one_mul] at hle
  omega

/-- The bytes of a word. -/
theorem word_addr {buffer : Buffer} (hin : ∀ i < number.toNat, buffer.base size i + size.toNat ≤ 2 ^ 64)
    (hroom : 2 * (size.toNat * number.toNat) ≤ 2 ^ 64) {q r : Nat} (hq : q < kernel.units size number)
    (hr : r < kernel.words) (j : Nat) (hj : j < 16) :
    (buffer.unit size (UInt64.ofNat (q * kernel.unitBytes)) + UInt64.ofNat (16 * r)).toNat + j =
      buffer.addr size (q * kernel.unitBytes + 16 * r + j) := by
  have hu : 16 * r + 16 ≤ kernel.unitBytes := by
    unfold Kernel.unitBytes
    omega
  have hfit := h.inside q hq
  have hlt : q * kernel.unitBytes < size.toNat * number.toNat := by
    have := h.byte_lt hq (j := 0) (by omega)
    omega
  rw [Buffer.toNat_unit_add hin hlt (by omega) (by omega), Nat.add_assoc, Buffer.addr_add (by omega),
    Buffer.addr_add (by omega), Nat.add_assoc]

theorem word_le {q r : Nat} (hq : q < kernel.units size number) (hr : r < kernel.words) :
    q * kernel.unitBytes + 16 * r + 16 ≤ size.toNat * number.toNat := by
  have hu : 16 * r + 16 ≤ kernel.unitBytes := by
    unfold Kernel.unitBytes
    omega
  have := h.byte_lt hq (j := 16 * r + 15) (by omega)
  omega

include hapart

theorem inv_launch (memory : Memory) (regs : Nat → Nat → Word) :
    (Grid.launch kernel size number memory regs).Inv (kernel.src.addr size) (kernel.dst.addr size)
      (size.toNat * number.toNat) memory := by
  have hroom := hapart.room
  have hb := kernel.unitBytes_bounds
  constructor
  · exact fun _ _ => rfl
  · intro k hk
    right
    have hq : k / kernel.unitBytes < kernel.units size number :=
      (Nat.div_lt_iff_lt_mul (by omega)).mpr (by rwa [h.units_mul])
    obtain ⟨t, -, hops⟩ := Kernel.mem_program_of_unit hroom hq
    have hk' : k / kernel.unitBytes * kernel.unitBytes + k % kernel.unitBytes = k := Nat.div_add_mod' _ _
    have hmod := Nat.mod_lt k (show 0 < kernel.unitBytes by omega)
    have hr : k % kernel.unitBytes / 16 < kernel.words := by
      rw [Nat.div_lt_iff_lt_mul (by omega), Nat.mul_comm]
      exact hmod
    have hj : k % kernel.unitBytes % 16 < 16 := Nat.mod_lt _ (by omega)
    have haddr := h.word_addr hapart.dst_inside hroom hq hr _ hj
    rw [Nat.add_assoc, Nat.div_add_mod, hk'] at haddr
    exact ⟨t, k % kernel.unitBytes / 16, _, hops _ (Kernel.store_mem_copyUnit _ hr), by omega, by omega⟩
  · exact fun _ _ => rfl
  · intro t
    simp only [Grid.launch, Kernel.program]
    split_ifs with ht
    · rw [Kernel.offsets_eq hroom ht, Option.getD_some]
      refine Stores.flatMap ?_ ?_ _
      · intro o ho r hr
        obtain ⟨q, hq, rfl⟩ := List.mem_map.mp ho
        have hq := (mem_strided.mp hq).1
        exact ⟨_, h.word_le hq hr, h.word_addr hapart.src_inside hroom hq hr⟩
      · intro o ho r hr
        obtain ⟨q, hq, rfl⟩ := List.mem_map.mp ho
        have hq := (mem_strided.mp hq).1
        refine ⟨_, h.word_le hq hr, h.word_addr hapart.dst_inside hroom hq hr, fun j => ?_⟩
        rw [Grid.word, h.word_addr hapart.src_inside hroom hq hr j j.isLt]
    · trivial

end Fits

namespace Buffer

variable {buffer : Buffer} {n i : Nat}

theorem addr_segment {j : Nat} (hj : j < size.toNat) : buffer.addr size (size.toNat * i + j) = buffer.base size i + j := by
  rw [addr, Nat.mul_add_div (by omega), Nat.div_eq_of_lt hj, Nat.add_zero, Nat.mul_add_mod, Nat.mod_eq_of_lt hj]

theorem toNat_segment (h : ∀ i < n, buffer.base size i + size.toNat ≤ 2 ^ 64) (hs : 0 < size) (hi : i < n)
    (hn : n < 2 ^ 64) : (buffer.segment size (UInt64.ofNat i)).toNat = buffer.base size i := by
  cases buffer with
  | segments ptr => rfl
  | contiguous ptr =>
    have hin := h i hi
    have hpos : 0 < size.toNat := UInt64.lt_iff_toNat_lt.mp hs
    simp only [base] at hin
    have hof : (UInt64.ofNat i).toNat = i := by
      rw [UInt64.toNat_ofNat']
      exact Nat.mod_eq_of_lt (by omega)
    have hmul : (size * UInt64.ofNat i).toNat = size.toNat * i := by
      rw [UInt64.toNat_mul, hof]
      exact Nat.mod_eq_of_lt (by omega)
    rw [segment, UInt64.toNat_add, hmul]
    exact Nat.mod_eq_of_lt (by omega)

end Buffer

section SimuCopy

variable {src dst : Buffer} (hapart : Apart src dst size number.toNat) (hs : 0 < size)

include hapart hs

/-- What is copied after the first `m` segments. -/
theorem simuCopy_range (memory : Memory) {m : Nat} (hm : m ≤ number.toNat) :
    let memory' := (List.range m).foldl (fun memory i =>
      memcpy memory (dst.segment size (UInt64.ofNat i)).toNat (src.segment size (UInt64.ofNat i)).toNat size.toNat) memory
    (∀ k < size.toNat * m, memory' (dst.addr size k) = memory (src.addr size k)) ∧
      ∀ a, (∀ k < size.toNat * m, a ≠ dst.addr size k) → memory' a = memory a := by
  induction m with
  | zero => simp
  | succ m ih =>
    obtain ⟨hcopied, hothers⟩ := ih (by omega)
    have hmul : size.toNat * (m + 1) ≤ size.toNat * number.toNat := Nat.mul_le_mul_left _ hm
    have hsplit : size.toNat * (m + 1) = size.toNat * m + size.toNat := Nat.mul_add_one _ _
    have hdst := Buffer.toNat_segment hapart.dst_inside hs (show m < number.toNat by omega) number.toNat_lt
    have hsrc := Buffer.toNat_segment hapart.src_inside hs (show m < number.toNat by omega) number.toNat_lt
    simp only [List.range_succ, List.foldl_append, List.foldl_cons, List.foldl_nil, hdst, hsrc]
    generalize (List.range m).foldl _ memory = memory' at hcopied hothers
    -- What the copy of a segment writes are the bytes of that segment.
    have hin : ∀ a, dst.base size m ≤ a ∧ a < dst.base size m + size.toNat →
        ∃ j < size.toNat, a = dst.base size m + j ∧ a = dst.addr size (size.toNat * m + j) := by
      intro a ha
      refine ⟨a - dst.base size m, by omega, by omega, ?_⟩
      rw [Buffer.addr_segment (by omega)]
      omega
    constructor
    · intro k hk
      unfold memcpy
      split_ifs with ha
      · obtain ⟨j, hj, he, he'⟩ := hin _ ha
        have hkj : k = size.toNat * m + j := Buffer.addr_inj hapart.dst_dst (by omega) (by omega) he'
        rw [he, Nat.add_sub_cancel_left, ← Buffer.addr_segment hj, ← hkj]
        exact hothers _ fun k' hk' => hapart.addr_ne (by omega) (by omega)
      · refine hcopied k ?_
        by_contra hle
        have hsub : k - size.toNat * m < size.toNat := by omega
        have haddr : dst.addr size (size.toNat * m + (k - size.toNat * m)) = dst.base size m + (k - size.toNat * m) :=
          Buffer.addr_segment hsub
        rw [Nat.add_sub_cancel' (by omega)] at haddr
        exact ha (by omega)
    · intro a hne
      unfold memcpy
      split_ifs with ha
      · obtain ⟨j, hj, -, he⟩ := hin _ ha
        exact absurd he (hne _ (by omega))
      · exact hothers a fun k hk => hne k (by omega)

theorem simuCopy_addr (memory : Memory) {k : Nat} (hk : k < size.toNat * number.toNat) :
    simuCopy src dst size number memory (dst.addr size k) = memory (src.addr size k) :=
  (simuCopy_range hapart hs memory le_rfl).1 k hk

theorem simuCopy_of_ne (memory : Memory) {a : Nat} (ha : ∀ k < size.toNat * number.toNat, a ≠ dst.addr size k) :
    simuCopy src dst size number memory a = memory a :=
  (simuCopy_range hapart hs memory le_rfl).2 a ha

end SimuCopy

namespace Buffer

variable {buffer : Buffer} {o j : Nat}

theorem unitPlace_eq (h : o % size.toNat + j < size.toNat) : buffer.unitPlace size o j = buffer.place size (o + j) := by
  cases buffer with
  | segments ptr =>
    have hsplit : o + j = size.toNat * (o / size.toNat) + (o % size.toNat + j) := by
      rw [← Nat.add_assoc, Nat.div_add_mod]
    rw [unitPlace, place, hsplit, Nat.mul_add_div (by omega), Nat.div_eq_of_lt h, Nat.add_zero, Nat.mul_add_mod,
      Nat.mod_eq_of_lt h]
  | contiguous ptr => rfl

end Buffer

theorem range_flatMap_range (n U : Nat) :
    ((List.range n).flatMap fun q => (List.range U).map fun j => q * U + j) = List.range (n * U) := by
  induction n with
  | zero => simp
  | succ n ih => rw [List.range_succ, List.flatMap_append, ih, List.flatMap_singleton, Nat.add_one_mul, List.range_add]

section Batch

variable (hapart : Apart kernel.src kernel.dst size number.toNat)

include hapart

theorem Kernel.copied_eq {t : Nat} (ht : t < threadNumber) :
    kernel.copied size number t = (strided threadNumber (kernel.units size number) t).flatMap fun q =>
      (List.range kernel.unitBytes).map fun j =>
        (kernel.src.unitPlace size (q * kernel.unitBytes) j, kernel.dst.unitPlace size (q * kernel.unitBytes) j) := by
  rw [copied, offsets_eq hapart.room ht, Option.getD_some, List.flatMap_map, toNat_unitSize]
  refine List.flatMap_congr fun q hq => ?_
  have hq := (mem_strided.mp hq).1
  rw [(toNat_offset hapart.room (by omega)).1]

/-- Whatever the sizes are, all the units that fit are copied, and no others. -/
theorem Kernel.copied_perm : ((List.range threadNumber).flatMap (kernel.copied size number)).Perm
    ((List.range (kernel.units size number)).flatMap fun q => (List.range kernel.unitBytes).map fun j =>
      (kernel.src.unitPlace size (q * kernel.unitBytes) j, kernel.dst.unitPlace size (q * kernel.unitBytes) j)) := by
  have heq : (List.range threadNumber).flatMap (kernel.copied size number) =
      ((List.range threadNumber).flatMap (strided threadNumber (kernel.units size number))).flatMap fun q =>
        (List.range kernel.unitBytes).map fun j =>
          (kernel.src.unitPlace size (q * kernel.unitBytes) j, kernel.dst.unitPlace size (q * kernel.unitBytes) j) := by
    rw [List.flatMap_assoc]
    exact List.flatMap_congr fun t ht => Kernel.copied_eq hapart (List.mem_range.mp ht)
  rw [heq]
  exact (strided_perm (by decide) _).flatMap_right _

theorem Fits.once (h : Fits kernel size number) :
    ((List.range threadNumber).flatMap (kernel.copied size number)).Perm
      ((List.range (size.toNat * number.toNat)).map fun k => (kernel.src.place size k, kernel.dst.place size k)) := by
  refine (Kernel.copied_perm hapart).trans (List.Perm.of_eq ?_)
  rw [← h.units_mul, ← range_flatMap_range, List.map_flatMap]
  refine List.flatMap_congr fun q hq => ?_
  rw [List.map_map]
  refine List.map_congr_left fun j hj => ?_
  have hfit := h.inside q (List.mem_range.mp hq)
  have hj := List.mem_range.mp hj
  rw [Function.comp_apply, Buffer.unitPlace_eq (by omega), Buffer.unitPlace_eq (by omega)]

theorem Kernel.written_of_mem {t a : Nat} (ht : t < threadNumber) (ha : a ∈ kernel.written size number t) :
    ∃ q < kernel.units size number, q % threadNumber = t ∧ ∃ j < kernel.unitBytes,
      a = (kernel.dst.unit size (UInt64.ofNat (q * kernel.unitBytes))).toNat + j := by
  rw [written, offsets_eq hapart.room ht, Option.getD_some, toNat_unitSize] at ha
  obtain ⟨o, ho, ha⟩ := List.mem_flatMap.mp ha
  obtain ⟨q, hq, rfl⟩ := List.mem_map.mp ho
  obtain ⟨j, hj, rfl⟩ := List.mem_map.mp ha
  obtain ⟨hq, hmod⟩ := mem_strided.mp hq
  exact ⟨q, hq, hmod, j, List.mem_range.mp hj, rfl⟩

theorem Fits.written_addr (h : Fits kernel size number) {t a : Nat} (ht : t < threadNumber)
    (ha : a ∈ kernel.written size number t) :
    ∃ q < kernel.units size number, q % threadNumber = t ∧ ∃ j < kernel.unitBytes,
      a = kernel.dst.addr size (q * kernel.unitBytes + j) := by
  obtain ⟨q, hq, hmod, j, hj, rfl⟩ := Kernel.written_of_mem hapart ht ha
  refine ⟨q, hq, hmod, j, hj, ?_⟩
  have hfit := h.inside q hq
  have hlt := h.byte_lt hq (j := 0) (by omega)
  have hroom := hapart.room
  rw [Buffer.addr_add (by omega), Buffer.toNat_unit hapart.dst_inside (by omega) (by omega)]

theorem Fits.writers (h : Fits kernel size number) : ∀ t < threadNumber, ∀ t' < threadNumber, t ≠ t' →
    (kernel.written size number t).Disjoint (kernel.written size number t') := by
  intro t ht t' ht' hne a ha ha'
  obtain ⟨q, hq, hmod, j, hj, he⟩ := h.written_addr hapart ht ha
  obtain ⟨q', hq', hmod', j', hj', he'⟩ := h.written_addr hapart ht' ha'
  have hk := Buffer.addr_inj hapart.dst_dst (h.byte_lt hq hj) (h.byte_lt hq' hj') (he.symm.trans he')
  have hqq : q = q' := by
    have hdiv := congrArg (· / kernel.unitBytes) hk
    simp only [Nat.mul_comm _ kernel.unitBytes, Nat.mul_add_div (show 0 < kernel.unitBytes by omega),
      Nat.div_eq_of_lt hj, Nat.div_eq_of_lt hj', Nat.add_zero] at hdiv
    exact hdiv
  exact hne (hmod.symm.trans (hqq ▸ hmod'))

theorem Kernel.dvd_of_units {q : Nat} (h : number = 0 ∨ kernel.unitBytes ∣ size.toNat)
    (hq : q < kernel.units size number) : kernel.unitBytes ∣ size.toNat := by
  obtain rfl | h := h
  · simp [units] at hq
  · exact h

/-- Where the segments are aligned, so are all accesses. -/
theorem Kernel.aligned (h : number = 0 ∨ kernel.unitBytes ∣ size.toNat)
    (halign : ∀ i < number.toNat, 16 ∣ kernel.src.base size i ∧ 16 ∣ kernel.dst.base size i) {t : Nat} {op : Op}
    (hop : op ∈ kernel.program size number t) : 16 ∣ op.ptr.toNat := by
  have hfits := Fits.of_dvd h
  have hroom := hapart.room
  unfold program at hop
  split_ifs at hop with ht
  · rw [offsets_eq hroom ht, Option.getD_some] at hop
    obtain ⟨o, ho, hop⟩ := List.mem_flatMap.mp hop
    obtain ⟨q, hq, rfl⟩ := List.mem_map.mp ho
    have hq := (mem_strided.mp hq).1
    have hu : 16 ∣ kernel.unitBytes := Nat.dvd_mul_right 16 kernel.words
    have hsize := hu.trans (dvd_of_units hapart h hq)
    have hword : ∀ r < kernel.words, ∀ buffer : Buffer, (∀ i < number.toNat, 16 ∣ buffer.base size i) →
        16 ∣ buffer.addr size (q * kernel.unitBytes + 16 * r) := by
      intro r hr buffer hb
      have hlt := hfits.word_le hq hr
      have hi := (Buffer.segment_lt (show q * kernel.unitBytes + 16 * r < size.toNat * number.toNat by omega)).1
      refine Nat.dvd_add (hb _ hi) ((Nat.dvd_mod_iff hsize).mpr ?_)
      exact Nat.dvd_add (hu.mul_left q) (Nat.dvd_mul_right 16 r)
    obtain hop | hop := List.mem_append.mp hop
    · obtain ⟨r, hr, rfl⟩ := List.mem_map.mp hop
      have hr := List.mem_range.mp hr
      have haddr := hfits.word_addr hapart.src_inside hroom hq hr 0 (by decide)
      simp only [Nat.add_zero] at haddr
      rw [Op.ptr, haddr]
      exact hword r hr _ fun i hi => (halign i hi).1
    · obtain ⟨r, hr, rfl⟩ := List.mem_map.mp hop
      have hr := List.mem_range.mp hr
      have haddr := hfits.word_addr hapart.dst_inside hroom hq hr 0 (by decide)
      simp only [Nat.add_zero] at haddr
      rw [Op.ptr, haddr]
      exact hword r hr _ fun i hi => (halign i hi).2
  · cases hop

theorem Kernel.copiesBatch (hs : 0 < size) (h : number = 0 ∨ kernel.unitBytes ∣ size.toNat)
    (halign : ∀ i < number.toNat, 16 ∣ kernel.src.base size i ∧ 16 ∣ kernel.dst.base size i) :
    CopiesBatch kernel size number := by
  have hfits := Fits.of_dvd h
  constructor
  · intro t ht
    rw [offsets_eq hapart.room ht]
    rfl
  · exact hfits.once hapart
  · exact hfits.writers hapart
  · intro memory regs s hr t hrest
    obtain ⟨op, ops, he⟩ := List.exists_cons_of_ne_nil hrest
    have hsuffix := Grid.rest_suffix hr t
    exact (Grid.step_isSome he).mpr (aligned hapart h halign (hsuffix.subset (he ▸ List.mem_cons_self)))
  · intro memory regs s hr hdone
    have hi := hr.invariant _ (hfits.inv_launch hapart memory regs) fun _ _ _ hi _ hs =>
      hi.step (fun _ hk _ hk' => Buffer.addr_inj hapart.dst_dst hk hk') (fun _ hk _ hk' => hapart.addr_ne hk hk') hs
    funext a
    by_cases ha : ∃ k < size.toNat * number.toNat, a = kernel.dst.addr size k
    · obtain ⟨k, hk, rfl⟩ := ha
      rw [hi.done hdone k hk, simuCopy_addr hapart hs memory hk]
    · have hne : ∀ k < size.toNat * number.toNat, a ≠ kernel.dst.addr size k := fun k hk he => ha ⟨k, hk, he⟩
      rw [hi.others a hne, simuCopy_of_ne hapart hs memory hne]

end Batch

namespace CopiesBatch

variable (h : CopiesBatch kernel size number)

include h

/-- Every access of a thread is its next one at some time, since none before it is undefined. -/
theorem aligned {t : Nat} {op : Op} (hop : op ∈ kernel.program size number t) : 16 ∣ op.ptr.toNat := by
  have hreach : ∀ pre ops, kernel.program size number t = pre ++ ops → ∃ s,
      Reach Grid.step (fun _ _ => True) (Grid.launch kernel size number (fun _ => 0) fun _ _ _ => 0) s ∧
        s.rest t = ops := by
    intro pre
    induction pre using List.reverseRecOn with
    | nil => exact fun ops he => ⟨_, Reach.start, he⟩
    | append_singleton pre op ih =>
      intro ops he
      obtain ⟨s, hr, hrest⟩ := ih (op :: ops) (by rw [he, List.append_assoc, List.singleton_append])
      obtain ⟨s', hs⟩ := Option.isSome_iff_exists.mp (h.defined _ _ s hr t (by simp [hrest]))
      refine ⟨s', hr.next trivial hs, ?_⟩
      obtain ⟨_, _, _, ht, -, rfl⟩ | ⟨_, _, _, ht, -, rfl⟩ := Grid.step_cases hs
      all_goals
        rw [hrest] at ht
        obtain ⟨-, rfl⟩ := List.cons.inj ht
        exact Function.update_self ..
  obtain ⟨pre, ops, he⟩ := List.append_of_mem hop
  obtain ⟨s, hr, hrest⟩ := hreach pre (op :: ops) he
  exact (Grid.step_isSome hrest).mp (h.defined _ _ s hr t (by simp [hrest]))

variable (hapart : Apart kernel.src kernel.dst size number.toNat)

include hapart

theorem dvd_length : kernel.unitBytes ∣ size.toNat * number.toNat := by
  have hlen := ((Kernel.copied_perm hapart).symm.trans h.once).length_eq
  simp only [List.length_flatMap, List.length_map, List.length_range, List.map_const', List.sum_replicate,
    smul_eq_mul] at hlen
  exact ⟨kernel.units size number, hlen.symm.trans (Nat.mul_comm _ _)⟩

theorem place_of_unit {q j : Nat} (hq : q < kernel.units size number) (hj : j < kernel.unitBytes) :
    ∃ k, kernel.src.place size k = kernel.src.unitPlace size (q * kernel.unitBytes) j ∧
      kernel.dst.place size k = kernel.dst.unitPlace size (q * kernel.unitBytes) j := by
  have hmem := ((Kernel.copied_perm hapart).symm.trans h.once).mem_iff.mp
    (List.mem_flatMap.mpr ⟨q, List.mem_range.mpr hq, List.mem_map.mpr ⟨j, List.mem_range.mpr hj, rfl⟩⟩)
  obtain ⟨k, -, hk⟩ := List.mem_map.mp hmem
  exact ⟨k, Prod.mk.inj hk⟩

/-- The unit that crosses the end of the first segment would leave it. -/
theorem dvd_size (hs : 0 < size) (hn : number ≠ 0) : kernel.unitBytes ∣ size.toNat := by
  have hpos : 0 < size.toNat := UInt64.lt_iff_toNat_lt.mp hs
  have hnum : 0 < number.toNat := Nat.pos_of_ne_zero fun hz => hn (UInt64.toNat_inj.mp hz)
  have hb := kernel.unitBytes_bounds
  by_contra hndvd
  have hmod : 0 < size.toNat % kernel.unitBytes :=
    Nat.pos_of_ne_zero fun hz => hndvd (Nat.dvd_of_mod_eq_zero hz)
  have hdiv := Nat.div_add_mod' size.toNat kernel.unitBytes
  have hrem := Nat.mod_lt size.toNat (show 0 < kernel.unitBytes by omega)
  have hlen : size.toNat ≤ size.toNat * number.toNat := Nat.le_mul_of_pos_right _ hnum
  have hq : size.toNat / kernel.unitBytes < kernel.units size number := by
    refine Nat.lt_of_mul_lt_mul_right (a := kernel.unitBytes) ?_
    rw [Kernel.units, Nat.div_mul_cancel (h.dvd_length hapart)]
    omega
  have hplace : ∀ ptr k, (Buffer.segments ptr).place size k ≠
      (Buffer.segments ptr).unitPlace size (size.toNat / kernel.unitBytes * kernel.unitBytes) (kernel.unitBytes - 1) := by
    intro ptr k he
    have hoff := (Prod.mk.inj he).2
    have hlt := Nat.mod_lt k hpos
    rw [Nat.mod_eq_of_lt (show size.toNat / kernel.unitBytes * kernel.unitBytes < size.toNat by omega)] at hoff
    omega
  obtain ⟨k, hsrc, hdst⟩ := h.place_of_unit hapart hq (j := kernel.unitBytes - 1) (by omega)
  cases kernel with
  | segments src dst | gather src dst | h2d dst src | d2h dst src => exact hplace src k hsrc
  | scatter src dst => exact hplace dst k hdst

theorem aligned_base (hn : number ≠ 0) (hs : 0 < size) {i : Nat} (hi : i < number.toNat) :
    16 ∣ kernel.src.base size i ∧ 16 ∣ kernel.dst.base size i := by
  have hdvd := h.dvd_size hapart hs hn
  have hfits : Fits kernel size number := Fits.of_dvd (.inr hdvd)
  have hroom := hapart.room
  have hb := kernel.unitBytes_bounds
  have hpos : 0 < size.toNat := UInt64.lt_iff_toNat_lt.mp hs
  have hw : 0 < kernel.words := by
    unfold Kernel.unitBytes at hb
    omega
  have hq : size.toNat * i / kernel.unitBytes * kernel.unitBytes = size.toNat * i :=
    Nat.div_mul_cancel (hdvd.mul_right i)
  have hlt : size.toNat * i / kernel.unitBytes < kernel.units size number := by
    refine Nat.lt_of_mul_lt_mul_right (a := kernel.unitBytes) ?_
    rw [hq, hfits.units_mul]
    exact Nat.mul_lt_mul_of_pos_left hi hpos
  obtain ⟨t, -, hops⟩ := Kernel.mem_program_of_unit hroom hlt
  have hsrc := h.aligned (hops _ (Kernel.load_mem_copyUnit _ hw))
  have hdst := h.aligned (hops _ (Kernel.store_mem_copyUnit _ hw))
  have hasrc := hfits.word_addr hapart.src_inside hroom hlt hw 0 (by decide)
  have hadst := hfits.word_addr hapart.dst_inside hroom hlt hw 0 (by decide)
  simp only [Nat.add_zero, hq] at hasrc hadst
  have hbase : ∀ buffer : Buffer, buffer.addr size (size.toNat * i) = buffer.base size i :=
    fun buffer => Buffer.addr_segment (j := 0) hpos
  rw [Op.ptr, hq, hasrc, hbase] at hsrc
  rw [Op.ptr, hq, hadst, hbase] at hdst
  exact ⟨hsrc, hdst⟩

end CopiesBatch

theorem copiesBatch_iff (kernel : Kernel) (size number : UInt64) (hs : 0 < size)
    (hapart : Apart kernel.src kernel.dst size number.toNat) :
    CopiesBatch kernel size number ↔ number = 0 ∨ kernel.unitSize.toNat ∣ size.toNat ∧
      ∀ i < number.toNat, 16 ∣ kernel.src.base size i ∧ 16 ∣ kernel.dst.base size i := by
  rw [Kernel.toNat_unitSize]
  constructor
  · intro h
    by_cases hn : number = 0
    · exact .inl hn
    · exact .inr ⟨h.dvd_size hapart hs hn, fun i hi => h.aligned_base hapart hn hs hi⟩
  · rintro (rfl | ⟨hdvd, halign⟩)
    · exact Kernel.copiesBatch hapart hs (.inl rfl) fun i hi => absurd hi (Nat.not_lt_zero i)
    · exact Kernel.copiesBatch hapart hs (.inr hdvd) halign

/-- Two segments on each side, one every 64 bytes. -/
def twoSegments : Kernel := .segments (fun i => 64 * i) (fun i => 4096 + 64 * i)

theorem copiesBatch_whole : CopiesBatch twoSegments 64 2 :=
  (copiesBatch_iff twoSegments 64 2 (by decide) ⟨by decide, by decide, by decide, by decide, by decide⟩).mpr
    (.inr ⟨by decide, by decide⟩)

/-- The second unit crosses the end of the first segment. -/
theorem not_copiesBatch_split : ¬ ∀ (kernel : Kernel) (size number : UInt64), 0 < size →
    Apart kernel.src kernel.dst size number.toNat → CopiesBatch kernel size number := by
  intro h
  have hapart : Apart twoSegments.src twoSegments.dst 48 (2 : UInt64).toNat :=
    ⟨by decide, by decide, by decide, by decide, by decide⟩
  have hdvd := (h twoSegments 48 2 (by decide) hapart).dvd_size hapart (by decide) (by decide)
  exact absurd hdvd (by decide)


end UnifiedCache.Trans
