import UnifiedCache.Nfs.Capacity
import UnifiedCache.Nfs.Processes

/-! Who owns a block that is not committed: a `NewBlock` that has the active file, by making
it or by taking it over, and has not returned yet, or the last one that returned OK. -/

namespace UnifiedCache.NfsStore

namespace Disk

variable {d : Disk} {file newFile : FilePath} {io : Bool} {now : Int}

theorem openCreate_files :
    (d.openCreate file io now).2.fs.files =
      if (d.openCreate file io now).1 = .ok then insert file d.fs.files else d.fs.files := by
  by_cases h : (d.openCreate file io now).1 = .ok
  · have hok : (d.fs.openCreate file io).1 = .ok := h
    have hfs : (d.openCreate file io now).2.fs = (d.fs.openCreate file io).2 :=
      congrArg Disk.fs (if_pos hok)
    rw [if_pos h, hfs]
    simp only [FileSystem.openCreate] at hok ⊢
    split_ifs at hok ⊢
    rfl
  · rw [if_neg h]
    have hok : ¬ (d.fs.openCreate file io).1 = .ok := h
    have hd : (d.openCreate file io now).2 = d := if_neg hok
    rw [hd]

theorem notMem_of_openCreate (h : (d.openCreate file io now).1 = .ok) : file ∉ d.fs.files := by
  intro hm
  simp only [openCreate, FileSystem.openCreate] at h
  split_ifs at h

end Disk

def Call.Holds (id : BlockId) : Call → Prop
  | .opened id' => id' = id
  | .truncated id' => id' = id
  | .increased id' => id' = id
  | _ => False

instance (id : BlockId) (c : Call) : Decidable (c.Holds id) :=
  match c with
  | .opened id' => inferInstanceAs (Decidable (id' = id))
  | .truncated id' => inferInstanceAs (Decidable (id' = id))
  | .increased id' => inferInstanceAs (Decidable (id' = id))
  | .idle | .checked _ | .making _ | .made _ | .absent _ | .present _ | .reopened _ _ | .stated _ _
  | .archiving _ | .moving _ | .removing _ _ _ | .clearing _ _ | .decreasing _
  | .exchanging _ _ => instDecidableFalse

namespace Processes

open StepSystem

variable {Process : Type} [DecidableEq Process] {config : SpaceConfig} {s s' : Processes Process}
  {p : Process} {c : Call} {io : Bool} {e : ProcessEvent Process} {id : BlockId}

/-- A file is taken over only while it is there and nobody has it, and when its access time
is not older than the last return of OK. A commit takes away a file that nobody has. -/
def Leaves (config : SpaceConfig) (s : Processes Process) (io : Bool) : Call → Prop
  | .stated id lastAccess =>
    minReuseBlockAge * 10 ^ 9 < s.now - lastAccess * 10 ^ 9 →
      activeFile config id ∈ s.disk.fs.files ∧ (∀ q, ¬ (s.calls q).Holds id) ∧
        ∀ t ∈ s.granted id, t ≤ lastAccess * 10 ^ 9
  | .moving id => io = true → ∀ q, ¬ (s.calls q).Holds id
  | .removing id _ _ => io = true → ∀ q, ¬ (s.calls q).Holds id
  | _ => True

def Undisturbed (config : SpaceConfig) (s : Processes Process) : ProcessEvent Process → Prop
  | .next p io => Leaves config s io (s.calls p)
  | _ => True

instance [Fintype Process] (s : Processes Process) (io : Bool) (c : Call) :
    Decidable (Leaves config s io c) :=
  match c with
  | .stated id lastAccess => inferInstanceAs (Decidable
      (minReuseBlockAge * 10 ^ 9 < s.now - lastAccess * 10 ^ 9 →
        activeFile config id ∈ s.disk.fs.files ∧ (∀ q, ¬ (s.calls q).Holds id) ∧
          ∀ t ∈ s.granted id, t ≤ lastAccess * 10 ^ 9))
  | .moving id => inferInstanceAs (Decidable (io = true → ∀ q, ¬ (s.calls q).Holds id))
  | .removing id _ _ => inferInstanceAs (Decidable (io = true → ∀ q, ¬ (s.calls q).Holds id))
  | .idle | .checked _ | .making _ | .made _ | .absent _ | .present _ | .reopened _ _ | .opened _
  | .truncated _ | .increased _ | .archiving _ | .clearing _ _ | .decreasing _
  | .exchanging _ _ => instDecidableTrue

instance [Fintype Process] (s : Processes Process) (e : ProcessEvent Process) :
    Decidable (Undisturbed config s e) :=
  match e with
  | .next p io => inferInstanceAs (Decidable (Leaves config s io (s.calls p)))
  | .newBlock _ _ | .commitBlock _ _ _ | .tick _ => instDecidableTrue

/-- A block that someone has or was granted has its active file, it is with one call only,
and a call that has it after a grant came when the grant had run out. -/
structure Owned (config : SpaceConfig) (s : Processes Process) : Prop where
  single : ∀ p q id, (s.calls p).Holds id → (s.calls q).Holds id → p = q
  held : ∀ p id, (s.calls p).Holds id → activeFile config id ∈ s.disk.fs.files
  granted : ∀ id t, s.granted id = some t → activeFile config id ∈ s.disk.fs.files ∧
    ∀ p, (s.calls p).Holds id → t + minReuseBlockAge * 10 ^ 9 ≤ s.now

omit [DecidableEq Process] in
theorem owned_start : Owned config (start : Processes Process) where
  single := fun _ _ _ h => h.elim
  held := fun _ _ h => h.elim
  granted := fun _ _ h => by cases h

theorem holds_of_calls {q : Process} (hcalls : s'.calls = Function.update s.calls p c)
    (hc : c.Holds id → (s.calls p).Holds id) (h : (s'.calls q).Holds id) : (s.calls q).Holds id := by
  rw [hcalls] at h
  by_cases hq : q = p
  · subst hq
    rw [Function.update_self] at h
    exact hc h
  · rwa [Function.update_of_ne hq] at h

/-- A step that gives nobody a block, and takes a file away only from a block that nobody has
and whose grant ends. -/
theorem Owned.keep (ho : Owned config s) (hcalls : s'.calls = Function.update s.calls p c)
    (hc : ∀ id, c.Holds id → (s.calls p).Holds id) (hnow : s.now ≤ s'.now)
    (hgranted : ∀ id t, s'.granted id = some t → s.granted id = some t)
    (hfiles : ∀ id, activeFile config id ∈ s.disk.fs.files →
      activeFile config id ∈ s'.disk.fs.files ∨
        (∀ q, ¬ (s.calls q).Holds id) ∧ s'.granted id = none) : Owned config s' where
  single := fun q r id hq hr => ho.single q r id (holds_of_calls hcalls (hc id) hq)
    (holds_of_calls hcalls (hc id) hr)
  held := fun q id hq => by
    have hold := holds_of_calls hcalls (hc id) hq
    rcases hfiles id (ho.held q id hold) with h | ⟨h, _⟩
    · exact h
    · exact absurd hold (h q)
  granted := fun id t ht => by
    obtain ⟨hfile, hage⟩ := ho.granted id t (hgranted id t ht)
    constructor
    · rcases hfiles id hfile with h | ⟨_, h⟩
      · exact h
      · rw [h] at ht
        cases ht
    · intro q hq
      exact (hage q (holds_of_calls hcalls (hc id) hq)).trans hnow

theorem activeFile_ne {id id' : BlockId} (h : id' ≠ id) :
    activeFile config id' ≠ activeFile config id :=
  fun he => h (config.layout.dataFilePath_inj he).1

theorem activeFile_ne_archivedFile (id id' : BlockId) :
    activeFile config id ≠ archivedFile config id' := by
  intro he
  cases (config.layout.dataFilePath_inj he).2

theorem granted_of_update {granted : BlockId → Option Int} {id' : BlockId} {t : Int}
    (h : Function.update granted id none id' = some t) : granted id' = some t := by
  by_cases hid : id' = id
  · subst hid
    rw [Function.update_self] at h
    cases h
  · rwa [Function.update_of_ne hid] at h

/-- A step that gives a block to the process, which nobody else has. -/
theorem Owned.take (ho : Owned config s) (hcalls : s'.calls = Function.update s.calls p c)
    (hc : ∀ id', c.Holds id' → id' = id) (hfree : ∀ q, ¬ (s.calls q).Holds id)
    (hnow : s'.now = s.now) (hgranted : s'.granted = s.granted)
    (hold : ∀ t, s.granted id = some t → t + minReuseBlockAge * 10 ^ 9 ≤ s.now)
    (hsub : s.disk.fs.files ⊆ s'.disk.fs.files) (hfile : activeFile config id ∈ s'.disk.fs.files) :
    Owned config s' := by
  have hothers : ∀ q id', (s'.calls q).Holds id' → q = p ∧ id' = id ∨ (s.calls q).Holds id' := by
    intro q id' hq
    by_cases he : q = p
    · subst he
      rw [hcalls, Function.update_self] at hq
      exact Or.inl ⟨rfl, hc id' hq⟩
    · rw [hcalls, Function.update_of_ne he] at hq
      exact Or.inr hq
  refine ⟨fun q r id' hq hr => ?_, fun q id' hq => ?_, fun id' t ht => ?_⟩
  · rcases hothers q id' hq with ⟨rfl, rfl⟩ | hq
    · rcases hothers r id' hr with ⟨rfl, _⟩ | hr
      · rfl
      · exact absurd hr (hfree r)
    · rcases hothers r id' hr with ⟨rfl, rfl⟩ | hr
      · exact absurd hq (hfree q)
      · exact ho.single q r id' hq hr
  · rcases hothers q id' hq with ⟨rfl, rfl⟩ | hq
    · exact hfile
    · exact hsub (ho.held q id' hq)
  · rw [hgranted] at ht
    obtain ⟨hm, hage⟩ := ho.granted id' t ht
    refine ⟨hsub hm, fun q hq => ?_⟩
    rw [hnow]
    rcases hothers q id' hq with ⟨rfl, rfl⟩ | hq
    · exact hold t ht
    · exact hage q hq

/-- `NewBlock` returns OK: its process no longer has the block, which is granted from now on. -/
theorem Owned.finish (ho : Owned config s) (hp : s.calls p = .increased id) :
    Owned config ({ s with granted := Function.update s.granted id (some s.now) }.finish p .ok) := by
  have hmine : (s.calls p).Holds id := by
    rw [hp]
    exact rfl
  have hothers : ∀ q id', (Function.update s.calls p .idle q).Holds id' →
      q ≠ p ∧ (s.calls q).Holds id' := by
    intro q id' hq
    by_cases he : q = p
    · subst he
      rw [Function.update_self] at hq
      exact hq.elim
    · rw [Function.update_of_ne he] at hq
      exact ⟨he, hq⟩
  refine ⟨fun q r id' hq hr => ho.single q r id' (hothers q id' hq).2 (hothers r id' hr).2,
    fun q id' hq => ho.held q id' (hothers q id' hq).2, fun id' t ht => ?_⟩
  by_cases hid : id' = id
  · subst hid
    refine ⟨ho.held p id' hmine, fun q hq => ?_⟩
    obtain ⟨hne, hq⟩ := hothers q id' hq
    exact absurd (ho.single q p id' hq hmine) hne
  · have hold : s.granted id' = some t := by
      rw [← ht]
      exact (Function.update_of_ne hid _ _).symm
    obtain ⟨hm, hage⟩ := ho.granted id' t hold
    exact ⟨hm, fun q hq => hage q (hothers q id' hq).2⟩

theorem Owned.absent (ho : Owned config s)
    (h : next config s p io (.absent id) = some s') : Owned config s' := by
  simp only [next] at h
  have hfiles := @Disk.openCreate_files s.disk (activeFile config id) io s.now
  split_ifs at h with hok hdup
  · cases h
    have hnot := Disk.notMem_of_openCreate hok
    rw [if_pos hok] at hfiles
    have hfree : ∀ q, ¬ (s.calls q).Holds id := fun q hq => hnot (ho.held q id hq)
    have hnone : ∀ t, s.granted id = some t → t + minReuseBlockAge * 10 ^ 9 ≤ s.now :=
      fun t ht => absurd (ho.granted id t ht).1 hnot
    refine ho.take rfl (fun id' he => Eq.symm he) hfree rfl rfl hnone ?_ ?_
    · change _ ⊆ (s.disk.openCreate (activeFile config id) io s.now).2.fs.files
      rw [hfiles]
      exact Finset.subset_insert _ _
    · change _ ∈ (s.disk.openCreate (activeFile config id) io s.now).2.fs.files
      rw [hfiles]
      exact Finset.mem_insert_self _ _
  all_goals
    cases h
    rw [if_neg hok] at hfiles
    refine ho.keep rfl (fun _ he => he.elim) le_rfl (fun _ _ ht => ht) fun id' hm => Or.inl ?_
    change _ ∈ (s.disk.openCreate (activeFile config id) io s.now).2.fs.files
    rwa [hfiles]

theorem Owned.stated {lastAccess : Int} (ho : Owned config s) (hp : s.calls p = .stated id lastAccess)
    (hg : Undisturbed config s (.next p io)) (h : next config s p io (.stated id lastAccess) = some s') :
    Owned config s' := by
  simp only [next] at h
  simp only [Undisturbed, hp, Leaves] at hg
  split_ifs at h with hage
  · cases h
    exact ho.keep rfl (fun _ he => he.elim) le_rfl (fun _ _ ht => ht) fun _ hm => Or.inl hm
  · cases h
    obtain ⟨hfile, hfree, hlast⟩ := hg (by omega)
    have hold : ∀ t, s.granted id = some t → t + minReuseBlockAge * 10 ^ 9 ≤ s.now := by
      intro t ht
      have := hlast t ht
      omega
    exact ho.take rfl (fun id' he => Eq.symm he) hfree rfl rfl hold subset_rfl hfile

theorem Owned.moving (ho : Owned config s) (hp : s.calls p = .moving id)
    (hg : Undisturbed config s (.next p io)) (h : next config s p io (.moving id) = some s') :
    Owned config s' := by
  simp only [next] at h
  simp only [Undisturbed, hp, Leaves] at hg
  cases h
  have hfiles := @FileSystem.rename_files s.disk.fs (activeFile config id) (archivedFile config id) io
  by_cases hok : (s.disk.fs.rename (activeFile config id) (archivedFile config id) io).1 = .ok
  · have hio : io = true := (FileSystem.rename_eq_ok.mp hok).1
    have hgranted : (if (s.disk.rename (activeFile config id) (archivedFile config id) io).1 = .ok then
        Function.update s.granted id none else s.granted) = Function.update s.granted id none := if_pos hok
    rw [if_pos hok] at hfiles
    rw [hgranted]
    refine ho.keep rfl (fun _ he => he.elim) le_rfl (fun id' t ht => ?_) fun id' hm => ?_
    · exact granted_of_update ht
    · by_cases hid : id' = id
      · subst hid
        exact Or.inr ⟨hg hio, Function.update_self ..⟩
      · refine Or.inl ?_
        change _ ∈ (s.disk.fs.rename (activeFile config id) (archivedFile config id) io).2.files
        rw [hfiles]
        exact Finset.mem_insert_of_mem (Finset.mem_erase.mpr ⟨activeFile_ne hid, hm⟩)
  · have hgranted : (if (s.disk.rename (activeFile config id) (archivedFile config id) io).1 = .ok then
        Function.update s.granted id none else s.granted) = s.granted := if_neg hok
    rw [if_neg hok] at hfiles
    rw [hgranted]
    refine ho.keep rfl (fun _ he => he.elim) le_rfl (fun _ _ ht => ht) fun id' hm => Or.inl ?_
    change _ ∈ (s.disk.fs.rename (activeFile config id) (archivedFile config id) io).2.files
    rwa [hfiles]

theorem Owned.removing {success : Bool} {status : Status} (ho : Owned config s)
    (hp : s.calls p = .removing id success status) (hg : Undisturbed config s (.next p io))
    (h : next config s p io (.removing id success status) = some s') : Owned config s' := by
  simp only [next] at h
  simp only [Undisturbed, hp, Leaves] at hg
  cases h
  have hcall : ∀ id', (if (!success || parentsDiffer config id) = true then Call.clearing id status
      else .decreasing status).Holds id' → (s.calls p).Holds id' := by
    intro id' he
    split_ifs at he <;> exact he.elim
  have hfiles := @FileSystem.remove_files s.disk.fs (activeFile config id) io
  cases io with
  | false =>
    refine ho.keep rfl hcall le_rfl (fun _ _ ht => ht) fun id' hm => Or.inl ?_
    change _ ∈ (s.disk.fs.remove (activeFile config id) false).files
    rw [hfiles]
    exact hm
  | true =>
    refine ho.keep rfl hcall le_rfl (fun id' t ht => ?_) fun id' hm => ?_
    · exact granted_of_update ht
    · by_cases hid : id' = id
      · subst hid
        exact Or.inr ⟨hg rfl, Function.update_self ..⟩
      · refine Or.inl ?_
        change _ ∈ (s.disk.fs.remove (activeFile config id) true).files
        rw [hfiles, if_pos rfl]
        exact Finset.mem_erase.mpr ⟨activeFile_ne hid, hm⟩

theorem Owned.next (ho : Owned config s) (hg : Undisturbed config s (.next p io))
    (h : next config s p io (s.calls p) = some s') : Owned config s' := by
  have hkeep : ∀ c s', s'.calls = Function.update s.calls p c → s'.now = s.now →
      s'.granted = s.granted → s'.disk.fs.files = s.disk.fs.files →
      (∀ id, c.Holds id → (s.calls p).Holds id) → Owned config s' := by
    intro c s' hcalls hnow hgranted hfiles hc
    refine ho.keep hcalls hc hnow.ge (fun id t ht => ?_) fun id hm => Or.inl ?_
    · rwa [hgranted] at ht
    · rwa [hfiles]
  generalize hp : s.calls p = call at h
  rw [hp] at hkeep
  cases call with
  | absent id => exact ho.absent h
  | stated id lastAccess => exact ho.stated hp hg h
  | moving id => exact ho.moving hp hg h
  | removing id success status => exact ho.removing hp hg h
  | idle => cases h
  | increased id =>
    cases h
    exact ho.finish hp
  | making id =>
    simp only [Processes.next] at h
    split_ifs at h <;> cases h <;>
      exact hkeep _ _ rfl rfl rfl FileSystem.mkDir_files fun _ he => he.elim
  | archiving id =>
    simp only [Processes.next] at h
    split_ifs at h <;> cases h <;>
      exact hkeep _ _ rfl rfl rfl FileSystem.mkDir_files fun _ he => he.elim
  | clearing id status =>
    cases h
    exact hkeep _ _ rfl rfl rfl FileSystem.rmDir_files fun _ he => he.elim
  | opened id =>
    simp only [Processes.next] at h
    split_ifs at h <;> cases h
    · exact hkeep _ _ rfl rfl rfl rfl fun _ he => he
    · exact hkeep _ _ rfl rfl rfl rfl fun _ he => he.elim
  | truncated id =>
    cases h
    exact hkeep _ _ rfl rfl rfl rfl fun _ he => he
  | _ =>
    simp only [Processes.next] at h
    split_ifs at h <;> cases h <;> exact hkeep _ _ rfl rfl rfl rfl fun _ he => he.elim

theorem Owned.step (ho : Owned config s) (hg : Undisturbed config s e)
    (h : step config s e = some s') : Owned config s' := by
  cases e with
  | newBlock p id =>
    simp only [Processes.step] at h
    split_ifs at h <;> cases h <;>
      exact ho.keep rfl (fun _ he => he.elim) le_rfl (fun _ _ ht => ht) fun _ hm => Or.inl hm
  | commitBlock p id success =>
    simp only [Processes.step] at h
    split_ifs at h <;> cases h <;>
      exact ho.keep rfl (fun _ he => he.elim) le_rfl (fun _ _ ht => ht) fun _ hm => Or.inl hm
  | next p io => exact ho.next hg h
  | tick nanoseconds =>
    cases h
    refine ⟨ho.single, ho.held, fun id t ht => ?_⟩
    obtain ⟨hm, hage⟩ := ho.granted id t ht
    refine ⟨hm, fun p hp => (hage p hp).trans ?_⟩
    exact Int.le_add_of_nonneg_right (Int.natCast_nonneg nanoseconds)

/-- A block that was granted is granted again, without a commit, only five minutes later. -/
theorem granted_exclusively (config : SpaceConfig) {s : Processes Process}
    (h : Reach (step config) (Undisturbed config) start s) (p : Process) (id : BlockId) (t : Int)
    (hp : s.calls p = .increased id) (ht : s.granted id = some t) :
    t + minReuseBlockAge * 10 ^ 9 ≤ s.now := by
  have ho : Owned config s :=
    h.invariant (Owned config) owned_start fun _ _ _ ho hg hs => ho.step hg hs
  refine (ho.granted id t ht).2 p ?_
  rw [hp]
  exact rfl

/-- A call of `NewBlock` up to its return, for a file that is not there and for one that is. -/
def makesBlock (p : Bool) (id : BlockId) : List (ProcessEvent Bool) :=
  .newBlock p id :: List.replicate 6 (.next p true)

def reusesBlock (p : Bool) (id : BlockId) : List (ProcessEvent Bool) :=
  .newBlock p id :: List.replicate 9 (.next p true)

def afterFiveMinutes : ProcessEvent Bool := .tick 300000000001

/-- A block that is taken over once, five minutes after the grant. -/
theorem granted_exclusively_takenOver : ∃ s : Processes Bool,
    Reach (step .fourBlocks) (Undisturbed .fourBlocks) start s ∧
      s.calls true = .increased ⟨1, 1⟩ ∧ s.granted ⟨1, 1⟩ = some 0 ∧
      0 + minReuseBlockAge * 10 ^ 9 ≤ s.now := by
  have hrun : (run (checked (fun s e => decide (Undisturbed .fourBlocks s e)) (step .fourBlocks))
      (start : Processes Bool) (makesBlock false ⟨1, 1⟩ ++ .next false true :: afterFiveMinutes ::
        reusesBlock true ⟨1, 1⟩)).any fun s =>
      s.calls true = .increased ⟨1, 1⟩ ∧ s.granted ⟨1, 1⟩ = some 0 := by decide +kernel
  obtain ⟨s, hs, he⟩ := (Option.any_eq_true _ _).mp hrun
  obtain ⟨hcall, hgranted⟩ := of_decide_eq_true he
  have hreach := Reach.start.checked (fun s e he => of_decide_eq_true he) hs
  exact ⟨s, hreach, hcall, hgranted,
    granted_exclusively .fourBlocks hreach true ⟨1, 1⟩ 0 hcall hgranted⟩

/-- A block that is taken over twice in a row: the first takeover does not refresh the access
time of the file, so the second one finds it as old. -/
theorem not_granted_exclusively : ∃ (s : Processes Bool) (t : Int),
    Reach (step .fourBlocks) (fun _ _ => True) start s ∧ s.calls false = .increased ⟨1, 1⟩ ∧
      s.granted ⟨1, 1⟩ = some t ∧ s.now < t + minReuseBlockAge * 10 ^ 9 := by
  have hrun : (run (step .fourBlocks) (start : Processes Bool)
      (makesBlock false ⟨1, 1⟩ ++ .next false true :: afterFiveMinutes :: reusesBlock true ⟨1, 1⟩ ++
        .next true true :: reusesBlock false ⟨1, 1⟩)).any fun s =>
      s.calls false = .increased ⟨1, 1⟩ ∧ s.granted ⟨1, 1⟩ = some 300000000001 ∧
        s.now = 300000000001 := by decide +kernel
  obtain ⟨s, hs, he⟩ := (Option.any_eq_true _ _).mp hrun
  obtain ⟨hcall, hgranted, hnow⟩ := of_decide_eq_true he
  refine ⟨s, _, Reach.start.run (fun _ _ _ => trivial) hs, hcall, hgranted, ?_⟩
  rw [hnow]
  decide

end Processes

end UnifiedCache.NfsStore
