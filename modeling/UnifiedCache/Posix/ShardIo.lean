import UnifiedCache.Posix.BlockCommit

/-! The reads and writes of `H2S` and `S2H` on files and on memory, one for each address. What is
written is read back when the writes to one file do not overlap. -/

namespace UnifiedCache.PosixStore

abbrev Memory := Addr → UInt8

/-- The rounds of the loops of `H2S` and `S2H`: each address with its offset in the file. -/
def rounds (ioSize : Nat) : Nat → List Addr → List (Nat × Addr)
  | _, [] => []
  | offset, addr :: addrs => (offset, addr) :: rounds ioSize (offset + ioSize) addrs

section Rounds

variable {ioSize offset : Nat} {addrs : List Addr}

/-- The queue writes at the same offsets. -/
theorem getElem?_rounds (i : Nat) :
    (rounds ioSize offset addrs)[i]? = addrs[i]?.map fun addr => (offset + ioSize * i, addr) := by
  induction addrs generalizing offset i with
  | nil => rfl
  | cons addr addrs ih =>
    cases i with
    | zero => rfl
    | succ i =>
      rw [rounds, List.getElem?_cons_succ, List.getElem?_cons_succ, ih, Nat.mul_succ, Nat.add_assoc,
        Nat.add_comm ioSize]

theorem length_rounds : (rounds ioSize offset addrs).length = addrs.length := by
  induction addrs generalizing offset with
  | nil => rfl
  | cons addr addrs ih => rw [rounds, List.length_cons, List.length_cons, ih]

theorem rounds_append (as bs : List Addr) :
    rounds ioSize offset (as ++ bs) = rounds ioSize offset as ++ rounds ioSize (offset + ioSize * as.length) bs := by
  induction as generalizing offset with
  | nil => simp [rounds]
  | cons a as ih =>
    rw [List.cons_append, rounds, ih, rounds, List.cons_append, List.length_cons, Nat.mul_succ, Nat.add_assoc,
      Nat.add_comm ioSize]

theorem rounds_range (n : Nat) (f : Nat → Addr) :
    rounds ioSize offset ((List.range n).map f) = (List.range n).map fun i => (offset + ioSize * i, f i) := by
  apply List.ext_getElem?
  intro i
  rw [getElem?_rounds, List.getElem?_map, List.getElem?_map, Option.map_map]
  cases hi : (List.range n)[i]? with
  | none => rfl
  | some j =>
    obtain ⟨_, he⟩ := List.getElem?_eq_some_iff.mp hi
    rw [List.getElem_range] at he
    rw [he]
    rfl

end Rounds

/-- One address of a shard. -/
structure Io (Name : Type*) where
  file : Name
  offset : Nat
  addr : Addr
  size : Nat

namespace Io

variable {Name : Type*} [DecidableEq Name] {memory memory₀ : Memory} {files : Name → File} {io io' : Io Name}

/-- `Write` in `H2S`. -/
def write (memory : Memory) (files : Name → File) (io : Io Name) : Name → File :=
  Function.update files io.file ((files io.file).pwrite io.offset io.size fun k => memory (io.addr + k))

omit [DecidableEq Name] in
/-- `Read` in `S2H`, which fails when it is short. -/
def read (files : Name → File) (memory : Memory) (io : Io Name) : Option Memory :=
  if io.size = 0 ∨ io.offset + io.size ≤ (files io.file).size then
    some fun p => if io.addr ≤ p ∧ p < io.addr + io.size then (files io.file).bytes (io.offset + (p - io.addr))
      else memory p
  else none

/-- The file has the bytes that the memory has at the address. -/
def Stored (memory : Memory) (files : Name → File) (io : Io Name) : Prop :=
  ∀ k < io.size, (files io.file).byteAt (io.offset + k) = some (memory (io.addr + k))

/-- In one file they write the same bytes to one place, or to places apart. -/
def Agrees (memory : Memory) (io io' : Io Name) : Prop :=
  io.file = io'.file →
    (io.offset = io'.offset ∧ io.size = io'.size ∧ ∀ k < io.size, memory (io.addr + k) = memory (io'.addr + k)) ∨
      io.offset + io.size ≤ io'.offset ∨ io'.offset + io'.size ≤ io.offset

theorem stored_write_self (memory : Memory) (files : Name → File) (io : Io Name) :
    io.Stored memory (io.write memory files) := by
  intro k hk
  rw [write, Function.update_self, TransQueue.File.byteAt_pwrite_inside (by omega), Nat.add_sub_cancel_left]

theorem Stored.write (h : io.Stored memory files) (hagrees : io.Agrees memory io') :
    io.Stored memory (io'.write memory files) := by
  by_cases hf : io.file = io'.file
  · obtain ⟨hoffset, hsize, hbytes⟩ | hoff := hagrees hf
    · intro k hk
      have hself := stored_write_self memory files io' k (hsize ▸ hk)
      rw [hf, hoffset, hself, hbytes k hk]
    · intro k hk
      rw [Io.write, hf, Function.update_self]
      exact TransQueue.File.byteAt_pwrite_outside (by omega) (hf ▸ h k hk)
  · intro k hk
    rw [Io.write, Function.update_of_ne hf]
    exact h k hk

/-- After all writes, in any order, each address is stored. -/
theorem stored_foldl {ios : List (Io Name)} (hagree : ∀ io ∈ ios, ∀ io' ∈ ios, io.Agrees memory io') (hmem : io ∈ ios) :
    io.Stored memory (ios.foldl (Io.write memory) files) := by
  have hkeep : ∀ rest : List (Io Name), (∀ io' ∈ rest, io.Agrees memory io') → ∀ files, io.Stored memory files →
      io.Stored memory (rest.foldl (Io.write memory) files) := by
    intro rest hrest files h
    apply List.foldlRecOn (motive := io.Stored memory) _ _ h
    intro files h io' hio'
    exact h.write (hrest io' hio')
  obtain ⟨before, after, rfl⟩ := List.append_of_mem hmem
  rw [List.foldl_append, List.foldl_cons]
  apply hkeep after _ _ (stored_write_self memory _ io)
  intro io' hio'
  exact hagree io hmem io' (by simp [hio'])

omit [DecidableEq Name] in
theorem Stored.read (h : io.Stored memory files) (memory₀ : Memory) : ∃ memory', io.read files memory₀ = some memory' ∧
    ∀ p, memory' p = if io.addr ≤ p ∧ p < io.addr + io.size then memory p else memory₀ p := by
  have hbyte : ∀ k < io.size, io.offset + k < (files io.file).size ∧
      (files io.file).bytes (io.offset + k) = memory (io.addr + k) := by
    intro k hk
    have hk' := h k hk
    unfold File.byteAt at hk'
    split_ifs at hk' with hlt
    exact ⟨hlt, Option.some.inj hk'⟩
  have hsize : io.size = 0 ∨ io.offset + io.size ≤ (files io.file).size := by
    cases hz : io.size with
    | zero => exact Or.inl rfl
    | succ n =>
      have hlast := (hbyte n (by omega)).1
      exact Or.inr (by omega)
  refine ⟨_, if_pos hsize, ?_⟩
  intro p
  by_cases hp : io.addr ≤ p ∧ p < io.addr + io.size
  · have hin := (hbyte (p - io.addr) (Nat.sub_lt_left_of_lt_add hp.1 hp.2)).2
    rw [Nat.add_sub_cancel' hp.1] at hin
    rw [if_pos hp, if_pos hp, hin]
  · rw [if_neg hp, if_neg hp]

omit [DecidableEq Name] in
/-- Reading back what is stored. -/
theorem stored_foldlM {ios : List (Io Name)} (h : ∀ io ∈ ios, io.Stored memory files) (memory₀ : Memory) :
    ∃ memory', ios.foldlM (Io.read files) memory₀ = some memory' ∧
      ∀ p, (memory₀ p = memory p ∨ ∃ io ∈ ios, io.addr ≤ p ∧ p < io.addr + io.size) → memory' p = memory p := by
  induction ios generalizing memory₀ with
  | nil =>
    refine ⟨memory₀, rfl, ?_⟩
    intro p hp
    simpa using hp
  | cons io ios ih =>
    obtain ⟨memory₁, hread, hbytes⟩ := (h io List.mem_cons_self).read memory₀
    obtain ⟨memory', hrest, hall⟩ := ih (fun io hio => h io (List.mem_cons_of_mem _ hio)) memory₁
    refine ⟨memory', ?_, ?_⟩
    · rw [List.foldlM_cons, hread]
      exact hrest
    · intro p hp
      apply hall
      by_cases hin : io.addr ≤ p ∧ p < io.addr + io.size
      · exact Or.inl ((hbytes p).trans (if_pos hin))
      · obtain hp | ⟨io', hio', hp⟩ := hp
        · exact Or.inl (((hbytes p).trans (if_neg hin)).trans hp)
        · obtain rfl | hio' := List.mem_cons.mp hio'
          · exact absurd hp hin
          · exact Or.inr ⟨io', hio', hp⟩

end Io

end UnifiedCache.PosixStore
