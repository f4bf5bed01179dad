import UnifiedCache.Nfs.Processes

/-! The capacity word under several processes: a `NewBlock` that its check has admitted adds
a block to the word only later, so the check has to leave room for all that are on their way. -/

namespace UnifiedCache.NfsStore

/-- The blocks that a call will still add to the word: one, from the check to the increase. -/
def Call.pending : Call → Nat
  | .checked _ => 1
  | .making _ => 1
  | .made _ => 1
  | .absent _ => 1
  | .present _ => 1
  | .reopened _ _ => 1
  | .stated _ _ => 1
  | .opened _ => 1
  | .truncated _ => 1
  | _ => 0

namespace Processes

open StepSystem

variable {Process : Type} [DecidableEq Process] [Fintype Process] {config : SpaceConfig}
  {s s' : Processes Process} {p : Process} {c : Call} {io : Bool} {e : ProcessEvent Process}

def pending (s : Processes Process) : Nat := ∑ p, (s.calls p).pending

/-- A `NewBlock` that its check admits finds room for its block and for those of all the
calls that were admitted before and have not added theirs. -/
def LeavesRoom (config : SpaceConfig) (s : Processes Process) : ProcessEvent Process → Prop
  | .newBlock _ _ =>
    Admits config s → s.property + (pending s + 1) * config.blockSize ≤ config.capacity
  | _ => True

instance (e : ProcessEvent Process) : Decidable (LeavesRoom config s e) :=
  match e with
  | .newBlock _ _ => inferInstanceAs (Decidable
      (Admits config s → s.property + (pending s + 1) * config.blockSize ≤ config.capacity))
  | .commitBlock _ _ _ => instDecidableTrue
  | .next _ _ => instDecidableTrue
  | .tick _ => instDecidableTrue

theorem pending_of_calls (s s' : Processes Process) (h : s'.calls = Function.update s.calls p c) :
    pending s' + (s.calls p).pending = pending s + c.pending := by
  have hrest : ∑ q ∈ Finset.univ.erase p, (s'.calls q).pending =
      ∑ q ∈ Finset.univ.erase p, (s.calls q).pending := by
    refine Finset.sum_congr rfl fun q hq => ?_
    rw [h, Function.update_of_ne (Finset.ne_of_mem_erase hq)]
  have hnew : (s'.calls p).pending + ∑ q ∈ Finset.univ.erase p, (s'.calls q).pending = pending s' :=
    Finset.add_sum_erase _ (fun q => (s'.calls q).pending) (Finset.mem_univ p)
  have hold : (s.calls p).pending + ∑ q ∈ Finset.univ.erase p, (s.calls q).pending = pending s :=
    Finset.add_sum_erase _ (fun q => (s.calls q).pending) (Finset.mem_univ p)
  have hself : s'.calls p = c := by rw [h, Function.update_self]
  rw [hself] at hnew
  omega

omit [Fintype Process] in
/-- The step of a process either adds the block that was pending, or adds nothing to the word
and nothing to what is pending. -/
theorem next_word (h : next config s p io (s.calls p) = some s') :
    (s'.property ≤ s.property + config.blockSize ∧ ∃ c, s'.calls = Function.update s.calls p c ∧
      c.pending + 1 = (s.calls p).pending) ∨
    (s'.property ≤ s.property ∧ ∃ c, s'.calls = Function.update s.calls p c ∧
      c.pending ≤ (s.calls p).pending) := by
  generalize hc : s.calls p = call at h
  cases call <;> simp only [next] at h
  case idle => cases h
  case truncated id =>
    cases h
    exact Or.inl ⟨Nat.mod_le _ _, _, rfl, rfl⟩
  case decreasing status =>
    split_ifs at h <;> cases h <;> exact Or.inr ⟨le_rfl, _, rfl, le_rfl⟩
  case exchanging capacity status =>
    split_ifs at h with he
    · cases h
      have hle : capacity - config.blockSize ≤ s.property := by omega
      exact Or.inr ⟨hle, _, rfl, le_rfl⟩
    · cases h
      exact Or.inr ⟨le_rfl, _, rfl, le_rfl⟩
  case removing id success status =>
    cases h
    refine Or.inr ⟨le_rfl, _, rfl, ?_⟩
    split_ifs <;> exact le_rfl
  all_goals
    first
    | cases h
      exact Or.inr ⟨le_rfl, _, rfl, le_rfl⟩
    | split_ifs at h <;> cases h <;> exact Or.inr ⟨le_rfl, _, rfl, by simp [Call.pending]⟩

/-- The word with everything that is on its way fits. -/
def Fits (config : SpaceConfig) (s : Processes Process) : Prop :=
  s.property + pending s * config.blockSize ≤ config.capacity

omit [DecidableEq Process] in
theorem fits_start : Fits config (start : Processes Process) := by
  have h0 : pending (start : Processes Process) = 0 := Finset.sum_eq_zero fun _ _ => rfl
  rw [Fits, h0, Nat.zero_mul]
  exact Nat.zero_le _

theorem Fits.next (hf : Fits config s) (h : next config s p io (s.calls p) = some s') :
    Fits config s' := by
  rcases next_word h with ⟨hw, c, hcalls, hp⟩ | ⟨hw, c, hcalls, hp⟩
  · have hsum := pending_of_calls s s' hcalls
    have he : pending s = pending s' + 1 := by omega
    have hmul : pending s * config.blockSize =
        pending s' * config.blockSize + config.blockSize := by rw [he, Nat.add_one_mul]
    simp only [Fits] at hf ⊢
    omega
  · have hsum := pending_of_calls s s' hcalls
    have hle : pending s' ≤ pending s := by omega
    have hmul := Nat.mul_le_mul_right config.blockSize hle
    simp only [Fits] at hf ⊢
    omega

theorem Fits.step (hf : Fits config s) (hg : LeavesRoom config s e) (h : step config s e = some s') :
    Fits config s' := by
  cases e with
  | newBlock p id =>
    simp only [Processes.step] at h
    split_ifs at h with hidle hadmits
    · cases h
      have hroom := hg hadmits
      have hsum := pending_of_calls s (s.goTo p (.checked id)) rfl
      have hone : pending (s.goTo p (.checked id)) ≤ pending s + 1 := Nat.le_of_add_right_le hsum.le
      exact (Nat.add_le_add_left (Nat.mul_le_mul_right _ hone) _).trans hroom
    · cases h
      have hsum := pending_of_calls s (s.finish p .noSpace) rfl
      rw [hidle] at hsum
      have he : pending (s.finish p .noSpace) = pending s := hsum
      simp only [Fits, he]
      exact hf
  | commitBlock p id success =>
    simp only [Processes.step] at h
    have hsame : ∀ c : Call, c.pending = 0 → s.calls p = .idle → Fits config (s.goTo p c) := by
      intro c hc hidle
      have hsum := pending_of_calls s (s.goTo p c) rfl
      rw [hidle, hc] at hsum
      have he : pending (s.goTo p c) = pending s := hsum
      simp only [Fits, he]
      exact hf
    split_ifs at h with hidle <;> cases h <;> exact hsame _ rfl hidle
  | next p io => exact hf.next h
  | tick nanoseconds =>
    cases h
    exact hf

/-- The word is within the capacity whenever a `NewBlock` returns OK, as long as every check
that admits a block leaves room for the blocks on their way. -/
theorem property_le_capacity (config : SpaceConfig) {s : Processes Process}
    (h : Reach (step config) (LeavesRoom config) start s) (p : Process) (id : BlockId)
    (_ : s.calls p = .increased id) : s.property ≤ config.capacity := by
  have hf : Fits config s :=
    h.invariant (Fits config) fits_start fun _ _ _ hf hg hs => hf.step hg hs
  exact (Nat.le_add_right _ _).trans hf

end Processes

theorem page_lt : 4096 < 2 ^ 64 := by decide

/-- Room for one block. -/
def SpaceConfig.oneBlock : SpaceConfig where
  layout := ⟨false, fun _ => 0⟩
  blockSize := 4096
  blockSize_pos := Nat.succ_pos _
  blockSize_lt := page_lt
  capacity := 4096
  recycleEnable := false
  capacityRecycleThreshold := 0
  recycleNum := 1

/-- Room for less than a block. -/
def SpaceConfig.noBlock : SpaceConfig := { SpaceConfig.oneBlock with capacity := 1024 }

namespace Processes

open StepSystem

/-- The steps of a process that makes a new file, after its check. -/
def createFile {Process : Type} (p : Process) : List (ProcessEvent Process) :=
  List.replicate 6 (.next p true)

theorem property_le_capacity_oneCall : ∃ s : Processes Bool,
    Reach (step .oneBlock) (LeavesRoom .oneBlock) start s ∧ s.calls true = .increased ⟨1, 1⟩ ∧
      s.property ≤ SpaceConfig.oneBlock.capacity := by
  have hrun : (run (checked (fun s e => decide (LeavesRoom .oneBlock s e)) (step .oneBlock))
      (start : Processes Bool) (.newBlock true ⟨1, 1⟩ :: createFile true)).any
      fun s => s.calls true = .increased ⟨1, 1⟩ := by decide +kernel
  obtain ⟨s, hs, he⟩ := (Option.any_eq_true _ _).mp hrun
  have hcall : s.calls true = .increased ⟨1, 1⟩ := of_decide_eq_true he
  have hreach := Reach.start.checked (fun s e he => of_decide_eq_true he) hs
  exact ⟨s, hreach, hcall, property_le_capacity .oneBlock hreach true ⟨1, 1⟩ hcall⟩

/-- Two calls that pass the check before either has added its block, and one call whose block
is larger than the capacity, where the difference in the check wraps. -/
theorem not_property_le_capacity :
    (∃ s : Processes Bool, Reach (step .oneBlock) (fun _ _ => True) start s ∧
      s.calls true = .increased ⟨1, 1⟩ ∧ SpaceConfig.oneBlock.capacity < s.property) ∧
    ∃ s : Processes Bool, Reach (step .noBlock) (fun _ _ => True) start s ∧
      s.calls true = .increased ⟨1, 1⟩ ∧ SpaceConfig.noBlock.capacity < s.property := by
  have hrun : (run (step .oneBlock) (start : Processes Bool)
      (.newBlock false ⟨2, 1⟩ :: .newBlock true ⟨1, 1⟩ :: createFile false ++ createFile true)).any
      fun s => s.calls true = .increased ⟨1, 1⟩ ∧ SpaceConfig.oneBlock.capacity < s.property := by
    decide +kernel
  have hrun' : (run (step .noBlock) (start : Processes Bool)
      (.newBlock true ⟨1, 1⟩ :: createFile true)).any
      fun s => s.calls true = .increased ⟨1, 1⟩ ∧ SpaceConfig.noBlock.capacity < s.property := by
    decide +kernel
  obtain ⟨s, hs, he⟩ := (Option.any_eq_true _ _).mp hrun
  obtain ⟨s', hs', he'⟩ := (Option.any_eq_true _ _).mp hrun'
  exact ⟨⟨s, Reach.start.run (fun _ _ _ => trivial) hs, of_decide_eq_true he⟩,
    s', Reach.start.run (fun _ _ _ => trivial) hs', of_decide_eq_true he'⟩

end Processes

end UnifiedCache.NfsStore
