import UnifiedCache.Nfs.SpaceManager

/-! The capacity word against the block files that are there: what each operation does to the
two, and the steps that keep them together. -/

namespace UnifiedCache.NfsStore

namespace FileSystem

variable {fs : FileSystem} {dir : DirPath} {file newFile : FilePath} {io : Bool}

@[simp] theorem mkDir_files : (fs.mkDir dir io).2.files = fs.files := by
  unfold mkDir
  split_ifs <;> rfl

theorem mkDir_eq_osApiError : (fs.mkDir dir io).1 = .osApiError ↔ io = false := by
  unfold mkDir
  split_ifs <;> simp_all

theorem mem_mkDir (h : io = true) : dir ∈ (fs.mkDir dir io).2.dirs := by
  subst h
  by_cases hd : dir ∈ fs.dirs
  · simp [mkDir, hd]
  · simp [mkDir, hd]

@[simp] theorem rmDir_files : (fs.rmDir dir io).files = fs.files := by
  unfold rmDir
  split_ifs <;> rfl

theorem remove_files : (fs.remove file io).files = if io then fs.files.erase file else fs.files := by
  unfold remove
  split_ifs <;> rfl

theorem card_remove :
    (fs.remove file io).files.card = fs.files.card - if file ∈ fs.files ∧ io = true then 1 else 0 := by
  rw [remove_files]
  by_cases hf : file ∈ fs.files <;> cases io <;> simp [hf, Finset.card_erase_of_mem]

theorem access_eq_ok : fs.access file io = .ok ↔ io = true ∧ file ∈ fs.files := by
  unfold access
  split_ifs <;> simp_all

theorem openCreate_old (h : io = true) (hf : file ∈ fs.files) : fs.openCreate file io = (.duplicateKey, fs) := by
  simp [openCreate, h, hf]

theorem openCreate_new (h : io = true) (hf : file ∉ fs.files) (hd : file.parent ∈ fs.dirs) :
    ∃ fs', fs.openCreate file io = (.ok, fs') ∧ fs'.files = insert file fs.files := by
  simp [openCreate, h, hf, hd]

theorem rename_eq_ok :
    (fs.rename file newFile io).1 = .ok ↔ io = true ∧ file ∈ fs.files ∧ newFile.parent ∈ fs.dirs := by
  unfold rename
  split_ifs <;> simp_all

theorem rename_files :
    (fs.rename file newFile io).2.files =
      if (fs.rename file newFile io).1 = .ok then insert newFile (fs.files.erase file) else fs.files := by
  unfold rename
  split_ifs <;> simp_all

end FileSystem

namespace SpaceManager

variable {config : SpaceConfig} {s s' : SpaceManager} {id : BlockId} {success : Bool} {io : Bool}

/-- The word is the size of all block files. -/
def Exact (config : SpaceConfig) (s : SpaceManager) : Prop :=
  s.property = config.blockSize * s.fs.files.card

@[simp] theorem decreaseCapacity_fs {delta : Nat} : (s.decreaseCapacity delta).fs = s.fs := by
  unfold decreaseCapacity
  split_ifs <;> rfl

section NewBlock

variable {calls : NewBlockCalls}

/-- `NewBlock` comes as far as to `Open` the active file. -/
def Opens (config : SpaceConfig) (s : SpaceManager) (id : BlockId) (calls : NewBlockCalls) : Prop :=
  (s.capacityCheck config).1 = .ok ∧ calls.make = true ∧ calls.mkDir = true ∧
    ¬ (calls.access = true ∧ config.layout.dataFilePath id false ∈ s.fs.files) ∧ calls.openCreate = true

def Aged (calls : NewBlockCalls) : Prop :=
  ∃ atime ∈ calls.atime, ¬ calls.now - atime * 10 ^ 9 ≤ minReuseBlockAge * 10 ^ 9

def Creates (config : SpaceConfig) (s : SpaceManager) (id : BlockId) (calls : NewBlockCalls) : Prop :=
  Opens config s id calls ∧ config.layout.dataFilePath id true ∉ s.fs.files

def Reuses (config : SpaceConfig) (s : SpaceManager) (id : BlockId) (calls : NewBlockCalls) : Prop :=
  Opens config s id calls ∧ config.layout.dataFilePath id true ∈ s.fs.files ∧ calls.openExisting = true ∧
    Aged calls

instance : Decidable (Aged calls) := inferInstanceAs (Decidable (∃ atime ∈ calls.atime, _))

instance : Decidable (Opens config s id calls) := inferInstanceAs (Decidable (_ ∧ _))

instance : Decidable (Creates config s id calls) := inferInstanceAs (Decidable (_ ∧ _))

instance : Decidable (Reuses config s id calls) := inferInstanceAs (Decidable (_ ∧ _ ∧ _ ∧ _))

@[simp] theorem capacityCheck_fs : (s.capacityCheck config).2.fs = s.fs := by
  unfold capacityCheck trigger
  dsimp only
  split_ifs <;> rfl

@[simp] theorem capacityCheck_property : (s.capacityCheck config).2.property = s.property := by
  unfold capacityCheck trigger
  dsimp only
  split_ifs <;> rfl

/-- The block counts when `Truncate` succeeds. -/
theorem truncateBlock_spec (config : SpaceConfig) (s : SpaceManager) (io : Bool) :
    (s.truncateBlock config io).2.fs = s.fs ∧
      (s.truncateBlock config io).2.property =
        if io then (s.property + config.blockSize) % 2 ^ 64 else s.property := by
  cases io <;> exact ⟨rfl, rfl⟩

/-- The block counts again when its file is old enough. -/
theorem reuseBlock_spec (config : SpaceConfig) (calls : NewBlockCalls) {file : FilePath} (hf : file ∈ s.fs.files) :
    (s.reuseBlock config file calls).2.fs = s.fs ∧
      (s.reuseBlock config file calls).2.property =
        if (calls.openExisting = true ∧ Aged calls) ∧ calls.truncate = true then
          (s.property + config.blockSize) % 2 ^ 64
        else s.property := by
  unfold reuseBlock
  by_cases ho : calls.openExisting = true
  · have hopen : s.fs.openExisting file calls.openExisting = .ok := by simp [FileSystem.openExisting, hf, ho]
    rw [if_neg (not_not.mpr hopen)]
    cases ha : calls.atime with
    | none => simp [Aged, ha]
    | some atime =>
      by_cases hage : calls.now - atime * 10 ^ 9 ≤ minReuseBlockAge * 10 ^ 9
      · have hnot : ¬ Aged calls := by
          intro ⟨_, hm, hold⟩
          exact hold (Option.some.inj (ha.symm.trans hm) ▸ hage)
        simp only [if_pos hage, hnot, and_false, false_and, if_false, and_self]
      · have hold : Aged calls := ⟨atime, ha, hage⟩
        simpa only [if_neg hage, ho, hold, true_and] using truncateBlock_spec config s calls.truncate
  · have hopen : s.fs.openExisting file calls.openExisting ≠ .ok := by simp [FileSystem.openExisting, ho]
    rw [if_pos hopen]
    simp [ho]

@[simp] theorem enterBlock_files {fs : FileSystem} : (enterBlock config fs id calls).2.files = fs.files := by
  unfold enterBlock
  dsimp only
  split_ifs <;> simp

theorem enterBlock_eq_ok {fs : FileSystem} :
    (enterBlock config fs id calls).1 = .ok ↔
      calls.make = true ∧ calls.mkDir = true ∧
        ¬ (calls.access = true ∧ config.layout.dataFilePath id false ∈ fs.files) := by
  unfold enterBlock
  dsimp only
  split_ifs with hmake hmade haccess
  · simp_all
  · have hd := FileSystem.mkDir_eq_osApiError.mp hmade
    rw [hmade]
    simp [hd]
  · have hd := FileSystem.access_eq_ok.mp haccess
    simp_all
  · have hd := mt FileSystem.mkDir_eq_osApiError.mpr hmade
    have ha := mt FileSystem.access_eq_ok.mpr haccess
    simp_all

theorem mem_enterBlock {fs : FileSystem} (h : (enterBlock config fs id calls).1 = .ok) :
    config.layout.dataFileParent id true ∈ (enterBlock config fs id calls).2.dirs := by
  have hd := (enterBlock_eq_ok.mp h).2.1
  unfold enterBlock at h ⊢
  dsimp only at h ⊢
  split_ifs at h ⊢ <;> simp_all [FileSystem.mem_mkDir]

theorem newBlock_of_not_opens (h : ¬ Opens config s id calls) :
    (s.newBlock config id calls).2.fs.files = s.fs.files ∧
      (s.newBlock config id calls).2.property = s.property := by
  unfold newBlock
  dsimp only
  split_ifs with hcheck henter
  · exact ⟨by rw [capacityCheck_fs], capacityCheck_property⟩
  · exact ⟨enterBlock_files, capacityCheck_property⟩
  · have hclosed : calls.openCreate = false := by
      have hcalls := enterBlock_eq_ok.mp (not_not.mp henter)
      by_contra hopen
      exact h ⟨not_not.mp hcheck, hcalls.1, hcalls.2.1, hcalls.2.2, by simpa using hopen⟩
    simp [FileSystem.openCreate, hclosed]

theorem newBlock_of_opens (h : Opens config s id calls) :
    (s.newBlock config id calls).2.fs.files = insert (config.layout.dataFilePath id true) s.fs.files ∧
      (s.newBlock config id calls).2.property =
        if (Creates config s id calls ∨ Reuses config s id calls) ∧ calls.truncate = true then
          (s.property + config.blockSize) % 2 ^ 64
        else s.property := by
  have henter : (enterBlock config s.fs id calls).1 = .ok := enterBlock_eq_ok.mpr ⟨h.2.1, h.2.2.1, h.2.2.2.1⟩
  have hparent := mem_enterBlock henter
  have hopen := h.2.2.2.2
  unfold newBlock
  dsimp only
  rw [if_neg (not_not.mpr h.1), if_neg (not_not.mpr henter)]
  by_cases hf : config.layout.dataFilePath id true ∈ s.fs.files
  · have hold : config.layout.dataFilePath id true ∈ (enterBlock config s.fs id calls).2.files := by
      rwa [enterBlock_files]
    have hcounts : (Creates config s id calls ∨ Reuses config s id calls) ↔
        calls.openExisting = true ∧ Aged calls := by
      simp [Creates, Reuses, h, hf]
    have hreuse := reuseBlock_spec config calls
      (s := { (s.capacityCheck config).2 with fs := (enterBlock config s.fs id calls).2 }) hold
    simp only [hcounts]
    rw [FileSystem.openCreate_old hopen hold]
    constructor
    · exact (congrArg FileSystem.files hreuse.1).trans (by simp [hf])
    · exact hreuse.2.trans (by simp)
  · have hcounts : Creates config s id calls ∨ Reuses config s id calls := Or.inl ⟨h, hf⟩
    have hnew : config.layout.dataFilePath id true ∉ (enterBlock config s.fs id calls).2.files := by
      rwa [enterBlock_files]
    obtain ⟨fs, hcreate, hfiles⟩ := FileSystem.openCreate_new hopen hnew hparent
    have ht := truncateBlock_spec config { (s.capacityCheck config).2 with fs := fs } calls.truncate
    rw [hcreate]
    constructor
    · exact (congrArg FileSystem.files ht.1).trans (by simp [hfiles])
    · exact ht.2.trans (by simp [hcounts])

theorem truncateBlock_eq_ok : (s.truncateBlock config io).1 = .ok ↔ io = true := by
  cases io
  · exact iff_of_false (fun h => by cases h) (fun h => by cases h)
  · exact iff_of_true rfl rfl

theorem reuseBlock_eq_ok {file : FilePath} (hf : file ∈ s.fs.files)
    (h : (calls.openExisting = true ∧ Aged calls) ∧ calls.truncate = true) :
    (s.reuseBlock config file calls).1 = .ok := by
  obtain ⟨⟨ho, atime, ha, hage⟩, ht⟩ := h
  have hopen : s.fs.openExisting file calls.openExisting = .ok := by simp [FileSystem.openExisting, hf, ho]
  rw [reuseBlock, if_neg (not_not.mpr hopen), Option.mem_def.mp ha]
  dsimp only
  rw [if_neg hage]
  exact truncateBlock_eq_ok.mpr ht

/-- A file that `Truncate` succeeds on makes `NewBlock` succeed. -/
theorem newBlock_eq_ok (h : (Creates config s id calls ∨ Reuses config s id calls) ∧ calls.truncate = true) :
    (s.newBlock config id calls).1 = .ok := by
  have hopens : Opens config s id calls := h.1.elim And.left And.left
  have henter : (enterBlock config s.fs id calls).1 = .ok :=
    enterBlock_eq_ok.mpr ⟨hopens.2.1, hopens.2.2.1, hopens.2.2.2.1⟩
  unfold newBlock
  dsimp only
  rw [if_neg (not_not.mpr hopens.1), if_neg (not_not.mpr henter)]
  rcases h with ⟨⟨-, hf⟩ | ⟨-, hf, hreuse⟩, ht⟩
  · have hnew : config.layout.dataFilePath id true ∉ (enterBlock config s.fs id calls).2.files := by
      rwa [enterBlock_files]
    obtain ⟨fs, hcreate, -⟩ := FileSystem.openCreate_new hopens.2.2.2.2 hnew (mem_enterBlock henter)
    rw [hcreate]
    exact truncateBlock_eq_ok.mpr ht
  · have hold : config.layout.dataFilePath id true ∈ (enterBlock config s.fs id calls).2.files := by
      rwa [enterBlock_files]
    rw [FileSystem.openCreate_old hopens.2.2.2.2 hold]
    exact reuseBlock_eq_ok hold ⟨hreuse, ht⟩

/-- `NewBlock` fails and nothing of it is left. -/
def LeavesNoTrace (config : SpaceConfig) (s : SpaceManager) (id : BlockId) (calls : NewBlockCalls) : Prop :=
  (s.newBlock config id calls).1 ≠ .ok →
    (s.newBlock config id calls).2.fs.files = s.fs.files ∧
      (s.newBlock config id calls).2.property = s.property

instance : Decidable (LeavesNoTrace config s id calls) := inferInstanceAs (Decidable (_ → _))

/-- Only the file that `NewBlock` has created itself stays, when `Truncate` fails on it. -/
theorem leavesNoTrace_iff (config : SpaceConfig) (s : SpaceManager) (id : BlockId) (calls : NewBlockCalls) :
    LeavesNoTrace config s id calls ↔ ¬ (Creates config s id calls ∧ calls.truncate = false) := by
  by_cases hopens : Opens config s id calls
  · obtain ⟨hfiles, hproperty⟩ := newBlock_of_opens hopens
    constructor
    · rintro htrace ⟨hcreates, ht⟩
      have hfail : (s.newBlock config id calls).1 ≠ .ok := by
        have henter : (enterBlock config s.fs id calls).1 = .ok :=
          enterBlock_eq_ok.mpr ⟨hopens.2.1, hopens.2.2.1, hopens.2.2.2.1⟩
        have hnew : config.layout.dataFilePath id true ∉ (enterBlock config s.fs id calls).2.files := by
          rw [enterBlock_files]
          exact hcreates.2
        obtain ⟨fs, hcreate, -⟩ := FileSystem.openCreate_new hopens.2.2.2.2 hnew (mem_enterBlock henter)
        unfold newBlock
        dsimp only
        rw [if_neg (not_not.mpr hopens.1), if_neg (not_not.mpr henter), hcreate]
        exact mt truncateBlock_eq_ok.mp (by rw [ht]; decide)
      have hsame := (htrace hfail).1
      rw [hfiles] at hsame
      exact hcreates.2 (hsame ▸ Finset.mem_insert_self _ _)
    · intro hnot hfail
      have hcounts : ¬ ((Creates config s id calls ∨ Reuses config s id calls) ∧ calls.truncate = true) :=
        mt newBlock_eq_ok hfail
      have hold : config.layout.dataFilePath id true ∈ s.fs.files := by
        by_contra hf
        cases ht : calls.truncate
        · exact hnot ⟨⟨hopens, hf⟩, ht⟩
        · exact hcounts ⟨Or.inl ⟨hopens, hf⟩, ht⟩
      rw [hfiles, hproperty, if_neg hcounts, Finset.insert_eq_of_mem hold]
      exact ⟨rfl, rfl⟩
  · exact iff_of_true (fun _ => newBlock_of_not_opens hopens) fun h => hopens h.1.1

end NewBlock

section CommitBlock

variable {calls : CommitBlockCalls} {fs : FileSystem}

/-- The active file is renamed to the archived one. -/
def Archives (config : SpaceConfig) (fs : FileSystem) (id : BlockId) (calls : CommitBlockCalls) : Prop :=
  (config.layout.dataFileParent id false ≠ config.layout.dataFileParent id true → calls.mkDir = true) ∧
    calls.rename = true ∧ config.layout.dataFilePath id true ∈ fs.files

instance : Decidable (Archives config fs id calls) := inferInstanceAs (Decidable ((_ → _) ∧ _ ∧ _))

/-- One file less: the rename replaces an archived file, or the active one is removed. -/
def TakesFile (config : SpaceConfig) (s : SpaceManager) (id : BlockId) (success : Bool)
    (calls : CommitBlockCalls) : Prop :=
  if success = true ∧ Archives config s.fs id calls then config.layout.dataFilePath id false ∈ s.fs.files
  else config.layout.dataFilePath id true ∈ s.fs.files ∧ calls.remove = true

instance : Decidable (TakesFile config s id success calls) := by
  unfold TakesFile
  infer_instance

/-- The rename happens in a file system that has the archived directory, if there is a file
to rename. -/
theorem archiveBlock_of_mkDir (fs : FileSystem)
    (h : config.layout.dataFileParent id false ≠ config.layout.dataFileParent id true → calls.mkDir = true) :
    ∃ fs' : FileSystem, fs'.files = fs.files ∧
      (config.layout.dataFilePath id true ∈ fs.files → config.layout.dataFileParent id false ∈ fs'.dirs) ∧
      archiveBlock config fs id calls =
        fs'.rename (config.layout.dataFilePath id true) (config.layout.dataFilePath id false) calls.rename := by
  by_cases hp : config.layout.dataFileParent id false = config.layout.dataFileParent id true
  · have hdir := fs.parent_mem (config.layout.dataFilePath id true)
    exact ⟨fs, rfl, fun hf => hp ▸ hdir hf, by simp [archiveBlock, hp]⟩
  · have hmade : (fs.mkDir (config.layout.dataFileParent id false) calls.mkDir).1 ≠ .osApiError := by
      simp [FileSystem.mkDir_eq_osApiError, h hp]
    exact ⟨_, FileSystem.mkDir_files, fun _ => FileSystem.mem_mkDir (h hp), by simp [archiveBlock, hp, hmade]⟩

theorem archiveBlock_spec (config : SpaceConfig) (fs : FileSystem) (id : BlockId) (calls : CommitBlockCalls) :
    ((archiveBlock config fs id calls).1 = .ok ↔ Archives config fs id calls) ∧
    (archiveBlock config fs id calls).2.files =
      if Archives config fs id calls then
        insert (config.layout.dataFilePath id false) (fs.files.erase (config.layout.dataFilePath id true))
      else fs.files := by
  by_cases h : config.layout.dataFileParent id false ≠ config.layout.dataFileParent id true → calls.mkDir = true
  · obtain ⟨fs', hfiles, hdir, he⟩ := archiveBlock_of_mkDir fs h
    have hok : (archiveBlock config fs id calls).1 = .ok ↔ Archives config fs id calls := by
      rw [he, FileSystem.rename_eq_ok, hfiles]
      exact ⟨fun hr => ⟨h, hr.1, hr.2.1⟩, fun hr => ⟨hr.2.1, hr.2.2, hdir hr.2.2⟩⟩
    refine ⟨hok, ?_⟩
    rw [he] at hok ⊢
    simp only [FileSystem.rename_files, hok, hfiles]
  · have hnot : ¬ Archives config fs id calls := fun hr => h hr.1
    obtain ⟨hp, hm⟩ := Classical.not_imp.mp h
    have hmade : (fs.mkDir (config.layout.dataFileParent id false) calls.mkDir).1 = .osApiError := by
      simpa [FileSystem.mkDir_eq_osApiError] using hm
    simp [archiveBlock, hp, hmade, hnot]

theorem commitBlock_card :
    (s.commitBlock config id success calls).2.fs.files.card =
      s.fs.files.card - if TakesFile config s id success calls then 1 else 0 := by
  have hne : config.layout.dataFilePath id true ≠ config.layout.dataFilePath id false := by
    intro he
    cases (config.layout.dataFilePath_inj he).2
  have hfiles : (s.commitBlock config id success calls).2.fs.files =
      ((if success then archiveBlock config s.fs id calls else (.ok, s.fs)).2.remove
        (config.layout.dataFilePath id true) calls.remove).files := by
    unfold commitBlock
    dsimp only
    split_ifs <;> simp
  rw [hfiles, FileSystem.card_remove]
  have hmoved := (archiveBlock_spec config s.fs id calls).2
  by_cases hs : success = true ∧ Archives config s.fs id calls
  · have htakes : TakesFile config s id success calls ↔ config.layout.dataFilePath id false ∈ s.fs.files := by
      rw [TakesFile, if_pos hs]
    have hactive : config.layout.dataFilePath id true ∈ s.fs.files := hs.2.2.2
    have hpos := Finset.card_pos.mpr ⟨_, hactive⟩
    rw [if_pos hs.2] at hmoved
    simp only [htakes]
    simp only [hs.1, if_true, hmoved]
    by_cases hf : config.layout.dataFilePath id false ∈ s.fs.files
    · have hkept := Finset.mem_erase.mpr ⟨hne.symm, hf⟩
      simp [hf, Finset.insert_eq_of_mem hkept, Finset.card_erase_of_mem hactive]
    · have hnew : config.layout.dataFilePath id false ∉ s.fs.files.erase (config.layout.dataFilePath id true) :=
        fun he => hf (Finset.mem_of_mem_erase he)
      have hcard := Finset.card_insert_of_notMem hnew
      simp [hf, hne, hcard, Finset.card_erase_of_mem hactive]
      omega
  · have htakes : TakesFile config s id success calls ↔
        config.layout.dataFilePath id true ∈ s.fs.files ∧ calls.remove = true := by
      rw [TakesFile, if_neg hs]
    have hsame : (if success then archiveBlock config s.fs id calls else (.ok, s.fs)).2.files = s.fs.files := by
      cases success with
      | false => rfl
      | true => simpa [show ¬ Archives config s.fs id calls from fun h => hs ⟨rfl, h⟩] using hmoved
    simp only [hsame, htakes]

end CommitBlock

/-- The word follows a file that goes only while it holds more than one block. -/
theorem exact_decreaseCapacity {t : SpaceManager} {takes : Prop} [Decidable takes] (h : Exact config s)
    (hp : t.property = s.property)
    (hcard : (t.decreaseCapacity config.blockSize).fs.files.card = s.fs.files.card - if takes then 1 else 0)
    (hpos : takes → 0 < s.fs.files.card) :
    Exact config (t.decreaseCapacity config.blockSize) ↔ (takes ↔ 2 ≤ s.fs.files.card) := by
  have hb := config.blockSize_pos
  have hword : config.blockSize < t.property ↔ 2 ≤ s.fs.files.card := by
    rw [hp, h]
    exact Nat.lt_mul_iff_one_lt_right hb
  have hdown : (t.decreaseCapacity config.blockSize).property =
      if 2 ≤ s.fs.files.card then config.blockSize * s.fs.files.card - config.blockSize
      else config.blockSize * s.fs.files.card := by
    unfold decreaseCapacity
    simp only [gt_iff_lt, hword]
    split_ifs with htwo
    · exact congrArg (· - config.blockSize) (hp.trans h)
    · exact hp.trans h
  rw [Exact, hdown, hcard]
  by_cases htwo : 2 ≤ s.fs.files.card
  · have hle : config.blockSize ≤ config.blockSize * s.fs.files.card := Nat.le_mul_of_pos_right _ (by omega)
    by_cases ht : takes
    · simp [ht, htwo, Nat.mul_sub_one]
    · simp only [ht, htwo, if_true, if_false, Nat.sub_zero, iff_true, iff_false]
      omega
  · by_cases ht : takes
    · have hone : s.fs.files.card = 1 := by
        have := hpos ht
        omega
      simp [ht, hone, hb.ne']
    · simp [ht, htwo]

/-- What an operation has to meet for the word to follow the files. -/
def Accounted (config : SpaceConfig) (s : SpaceManager) : Event → Prop
  | .newBlock id calls =>
    (Creates config s id calls → calls.truncate = true ∧ s.property + config.blockSize < 2 ^ 64) ∧
      (Reuses config s id calls → calls.truncate = false)
  | .commitBlock id success calls => TakesFile config s id success calls ↔ 2 ≤ s.fs.files.card
  | .recycleOne remove _ =>
    ∀ file ∈ s.recycler.bind List.head?, (file ∈ s.fs.files ∧ remove = true ↔ 2 ≤ s.fs.files.card)
  | _ => True

instance (e : Event) : Decidable (Accounted config s e) := by
  cases e <;> unfold Accounted <;> infer_instance

theorem exact_newBlock {calls : NewBlockCalls} (h : Exact config s) :
    Exact config (s.newBlock config id calls).2 ↔ Accounted config s (.newBlock id calls) := by
  have hb := config.blockSize_pos
  have hlt := config.blockSize_lt
  have hword : s.property = config.blockSize * s.fs.files.card := h
  unfold Accounted Exact
  by_cases hopens : Opens config s id calls
  · obtain ⟨hfiles, hproperty⟩ := newBlock_of_opens hopens
    rw [hfiles, hproperty]
    by_cases hf : config.layout.dataFilePath id true ∈ s.fs.files
    · have hcreates : ¬ Creates config s id calls := fun hc => hc.2 hf
      rw [Finset.insert_eq_of_mem hf, ← hword]
      by_cases hr : Reuses config s id calls ∧ calls.truncate = true
      · have hmoved : (s.property + config.blockSize) % 2 ^ 64 ≠ s.property := by omega
        rw [if_pos ⟨Or.inr hr.1, hr.2⟩]
        exact iff_of_false hmoved fun ha => absurd hr.2 (by simp [ha.2 hr.1])
      · have hkept : Reuses config s id calls → calls.truncate = false := by
          intro hreuses
          simpa using fun ht => hr ⟨hreuses, ht⟩
        rw [if_neg fun hc => hr ⟨hc.1.resolve_left hcreates, hc.2⟩]
        exact iff_of_true rfl ⟨fun hc => absurd hc hcreates, hkept⟩
    · have hcreates : Creates config s id calls := ⟨hopens, hf⟩
      have hreuses : ¬ Reuses config s id calls := fun hr => hf hr.2.1
      rw [Finset.card_insert_of_notMem hf, Nat.mul_add_one, ← hword]
      by_cases ht : calls.truncate = true
      · have hfits : (s.property + config.blockSize) % 2 ^ 64 = s.property + config.blockSize ↔
            s.property + config.blockSize < 2 ^ 64 := by omega
        rw [if_pos ⟨Or.inl hcreates, ht⟩, hfits]
        exact ⟨fun hs => ⟨fun _ => ⟨ht, hs⟩, fun hr => absurd hr hreuses⟩, fun ha => (ha.1 hcreates).2⟩
      · rw [if_neg fun hc => ht hc.2]
        exact iff_of_false (by omega) fun ha => ht (ha.1 hcreates).1
  · have hcreates : ¬ Creates config s id calls := fun hc => hopens hc.1
    have hreuses : ¬ Reuses config s id calls := fun hr => hopens hr.1
    obtain ⟨hfiles, hproperty⟩ := newBlock_of_not_opens hopens
    simp [hfiles, hproperty, hcreates, hreuses, hword]

theorem exact_setup : Exact config setup := by
  simp [Exact, setup]

theorem exact_step {e : Event} (h : Exact config s) (hs : step config s e = some s') :
    Exact config s' ↔ Accounted config s e := by
  cases e with
  | newBlock id calls => exact Option.some.inj hs ▸ exact_newBlock h
  | commitBlock id success calls =>
    have hpos : TakesFile config s id success calls → 0 < s.fs.files.card := by
      intro ht
      unfold TakesFile at ht
      split_ifs at ht
      · exact Finset.card_pos.mpr ⟨_, ht⟩
      · exact Finset.card_pos.mpr ⟨_, ht.1⟩
    exact Option.some.inj hs ▸ exact_decreaseCapacity h rfl commitBlock_card hpos
  | scan files =>
    simp only [step] at hs
    split_ifs at hs
    have he := Option.some.inj hs
    subst he
    exact ⟨fun _ => trivial, fun _ => h⟩
  | recycleOne remove rmDir =>
    simp only [step] at hs
    split at hs
    · rename_i file files hr
      have hcard : (s.recycleBlock config file remove rmDir).fs.files.card =
          s.fs.files.card - if file ∈ s.fs.files ∧ remove = true then 1 else 0 := by
        simp [recycleBlock, FileSystem.card_remove]
      have hpos : file ∈ s.fs.files ∧ remove = true → 0 < s.fs.files.card :=
        fun ht => Finset.card_pos.mpr ⟨_, ht.1⟩
      have hdown : Exact config (s.recycleBlock config file remove rmDir) ↔
          (file ∈ s.fs.files ∧ remove = true ↔ 2 ≤ s.fs.files.card) := exact_decreaseCapacity h rfl hcard hpos
      have he := Option.some.inj hs
      subst he
      have haccounted : Accounted config s (.recycleOne remove rmDir) ↔
          (file ∈ s.fs.files ∧ remove = true ↔ 2 ≤ s.fs.files.card) := by
        simp [Accounted, hr]
      exact hdown.trans haccounted.symm
    · cases hs
  | recycled =>
    simp only [step] at hs
    split at hs
    · have he := Option.some.inj hs
      subst he
      exact ⟨fun _ => trivial, fun _ => h⟩
    · cases hs

/-- The word is exact as long as every operation so far was `Accounted`, and no longer. -/
theorem exact_of_accounted (h : StepSystem.Reach (step config) (Accounted config) setup s) :
    Exact config s ∧ ∀ e s', step config s e = some s' → (Exact config s' ↔ Accounted config s e) := by
  have hexact : Exact config s :=
    h.invariant (Exact config) exact_setup fun _ _ _ hi hg hs => (exact_step hi hs).mpr hg
  exact ⟨hexact, fun _ _ hs => exact_step hexact hs⟩

end SpaceManager

def NewBlockCalls.good : NewBlockCalls := ⟨true, true, true, true, true, none, 0, true⟩

def CommitBlockCalls.good : CommitBlockCalls := ⟨true, true, true, true⟩

/-- Room for four blocks, which are not recycled. -/
def SpaceConfig.fourBlocks : SpaceConfig where
  layout := ⟨false, fun _ => 0⟩
  blockSize := 4096
  blockSize_pos := by decide
  blockSize_lt := by decide
  capacity := 16384
  recycleEnable := false
  capacityRecycleThreshold := 0
  recycleNum := 1

namespace SpaceManager

/-- The disk is full after the file of the block was created. -/
theorem leavesTrace_truncate :
    ¬ LeavesNoTrace .fourBlocks setup ⟨1, 1⟩ { NewBlockCalls.good with truncate := false } := by
  decide +kernel

/-- A block that is canceled while another one is there. -/
theorem exact_cancelSecond : ∃ s,
    StepSystem.Reach (step .fourBlocks) (Accounted .fourBlocks) setup s ∧ s.fs.files.card = 1 ∧
      Exact .fourBlocks s := by
  have hrun : (StepSystem.run (StepSystem.checked (fun s e => decide (Accounted .fourBlocks s e))
      (step .fourBlocks)) setup [.newBlock ⟨1, 1⟩ .good, .newBlock ⟨2, 1⟩ .good,
      .commitBlock ⟨2, 1⟩ false .good]).any fun s => s.fs.files.card = 1 := by decide +kernel
  obtain ⟨s, hs, he⟩ := (Option.any_eq_true _ _).mp hrun
  have hreach := StepSystem.Reach.start.checked (fun s e he => of_decide_eq_true he) hs
  exact ⟨s, hreach, of_decide_eq_true he, (exact_of_accounted hreach).1⟩

/-- A block that is committed while another one is there: both files stay, the word loses a block. -/
theorem not_exact_commitFirst : ¬ ∀ (config : SpaceConfig) (s : SpaceManager), 0 < config.capacity →
    StepSystem.Reach (step config) (fun _ _ => True) setup s → Exact config s := by
  intro hall
  have hrun : (StepSystem.run (step .fourBlocks) setup [.newBlock ⟨1, 1⟩ .good,
      .newBlock ⟨2, 1⟩ .good, .commitBlock ⟨1, 1⟩ true .good]).any fun s =>
        s.fs.files.card = 2 ∧ s.property = 4096 := by decide +kernel
  obtain ⟨s, hs, he⟩ := (Option.any_eq_true _ _).mp hrun
  obtain ⟨hcard, hproperty⟩ := of_decide_eq_true he
  have hreach : StepSystem.Reach (step .fourBlocks) (fun _ _ => True) setup s :=
    StepSystem.Reach.start.run (fun _ _ _ => trivial) hs
  have hexact : s.property = 4096 * s.fs.files.card := hall .fourBlocks s (by decide) hreach
  rw [hcard, hproperty] at hexact
  cases hexact

end SpaceManager

end UnifiedCache.NfsStore
