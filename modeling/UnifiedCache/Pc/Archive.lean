import UnifiedCache.Pc.FileWorker

/-! When the archived file of a block is whole. All dumps of a block share one temporary name,
so a rename may give the archived name to a file that another dump has just made. -/

namespace UnifiedCache.PcStore

open PosixStore StepSystem

namespace Space

variable {Worker : Type} [DecidableEq Worker] {config : Config} {content : BlockId → Nat → UInt8}
  {blockOf : Nat → BlockId} {s s' : Space Worker} {w : Worker} {pc : FileWorker} {fs : FileSystem}
  {task : BlockTask} {iFile nBytes : Nat} {b : BlockId}

/-- A dump of all shards of its block. -/
def Whole (config : Config) (content : BlockId → Nat → UInt8) (task : BlockTask) : Prop :=
  config.ioSize * task.shards.length = config.blockSize ∧
    ∀ k < config.blockSize, task.buffer k = content task.block k

/-- Dumps list all shards of their block, and those of one block carry the same bytes. -/
def Dumps (config : Config) (content : BlockId → Nat → UInt8) : DumpEvent Worker → Prop
  | .dump _ task => Whole config content task
  | _ => True

/-- What a rename archives is a file that a dump of the block has written whole. -/
def RenamesWhole (config : Config) (s : Space Worker) : DumpEvent Worker → Prop
  | .rename w true => ∀ task, s.workers w = .moving task → ∀ iFile,
      s.fs.names (config.layout.dataFilePath task.block true) = some iFile →
        (iFile, task.block) ∈ s.written
  | _ => True

/-- The first bytes of a file are those of the block. -/
def Holds (content : BlockId → Nat → UInt8) (fs : FileSystem) (iFile : Nat) (b : BlockId) (n : Nat) :
    Prop :=
  ∀ k < n, (fs.files iFile).byteAt k = some (content b k)

def ArchivesWhole (config : Config) (content : BlockId → Nat → UInt8) (s : Space Worker) : Prop :=
  ∀ b iFile, s.fs.names (config.layout.dataFilePath b false) = some iFile →
    Holds content s.fs iFile b config.blockSize

/-- What is known of the dump of a worker, given the block of each file. -/
def Sound (config : Config) (content : BlockId → Nat → UInt8) (blockOf : Nat → BlockId)
    (fs : FileSystem) : FileWorker → Prop
  | .opening task => Whole config content task
  | .writing task iFile nBytes => Whole config content task ∧ iFile < fs.nFile ∧
      blockOf iFile = task.block ∧ nBytes ≤ config.blockSize ∧
      Holds content fs iFile task.block nBytes
  | _ => True

structure Inv (config : Config) (content : BlockId → Nat → UInt8) (blockOf : Nat → BlockId)
    (s : Space Worker) : Prop where
  workers : ∀ w, Sound config content blockOf s.fs (s.workers w)
  names : ∀ b activated iFile,
    s.fs.names (config.layout.dataFilePath b activated) = some iFile →
      iFile < s.fs.nFile ∧ blockOf iFile = b
  written : ∀ r ∈ s.written, r.1 < s.fs.nFile ∧ blockOf r.1 = r.2 ∧
    Holds content s.fs r.1 r.2 config.blockSize
  archived : ∀ b iFile, s.fs.names (config.layout.dataFilePath b false) = some iFile →
    (iFile, b) ∈ s.written

omit [DecidableEq Worker] in
theorem Inv.archivesWhole (h : Inv config content blockOf s) : ArchivesWhole config content s :=
  fun b iFile hn => (h.written _ (h.archived b iFile hn)).2.2

omit [DecidableEq Worker] in
theorem inv_start : Inv config content blockOf (start : Space Worker) where
  workers := fun _ => trivial
  names := fun _ _ _ h => by cases h
  written := fun _ h => by cases h
  archived := fun _ _ h => by cases h

theorem Inv.setWorker (h : Inv config content blockOf s)
    (hpc : Sound config content blockOf s.fs pc) : Inv config content blockOf (s.setWorker w pc) := by
  refine ⟨fun v => ?_, h.names, h.written, h.archived⟩
  change Sound config content blockOf s.fs (Function.update s.workers w pc v)
  by_cases he : v = w
  · rw [he, Function.update_self]
    exact hpc
  · rw [Function.update_of_ne he]
    exact h.workers v

/-- What the files hold stays, where names may go and new names get a whole file. -/
theorem Sound.mono {blockOf' : Nat → BlockId} {fs' : FileSystem} (h : Sound config content blockOf fs pc)
    (hn : fs.nFile ≤ fs'.nFile) (hb : ∀ i < fs.nFile, blockOf' i = blockOf i)
    (hf : ∀ i < fs.nFile, ∀ n ≤ config.blockSize, Holds content fs i (blockOf i) n →
      Holds content fs' i (blockOf i) n) : Sound config content blockOf' fs' pc := by
  cases pc with
  | opening task => exact h
  | writing task iFile nBytes =>
    obtain ⟨hw, hlt, hblock, hle, hh⟩ := h
    rw [← hblock] at hh
    have hkeep := hf iFile hlt nBytes hle hh
    rw [hblock] at hkeep
    exact ⟨hw, Nat.lt_of_lt_of_le hlt hn, (hb iFile hlt).trans hblock, hle, hkeep⟩
  | _ => trivial

omit [DecidableEq Worker] in
theorem Inv.withFs {blockOf' : Nat → BlockId} {fs' : FileSystem} (h : Inv config content blockOf s)
    (hn : s.fs.nFile ≤ fs'.nFile) (hb : ∀ i < s.fs.nFile, blockOf' i = blockOf i)
    (hf : ∀ i < s.fs.nFile, ∀ n ≤ config.blockSize, Holds content s.fs i (blockOf i) n →
      Holds content fs' i (blockOf i) n)
    (hnames : ∀ b activated iFile, fs'.names (config.layout.dataFilePath b activated) = some iFile →
      iFile < fs'.nFile ∧ blockOf' iFile = b)
    (harchived : ∀ b iFile, fs'.names (config.layout.dataFilePath b false) = some iFile →
      (iFile, b) ∈ s.written) : Inv config content blockOf' { s with fs := fs' } := by
  refine ⟨fun w => (h.workers w).mono hn hb hf, hnames, fun r hr => ?_, harchived⟩
  obtain ⟨hlt, hblock, hh⟩ := h.written r hr
  rw [← hblock] at hh
  have hkeep := hf r.1 hlt _ le_rfl hh
  rw [hblock] at hkeep
  exact ⟨Nat.lt_of_lt_of_le hlt hn, (hb r.1 hlt).trans hblock, hkeep⟩

/-- A file of the block's temporary name is open, with the block that the file is for. -/
theorem Inv.openFile (h : Inv config content blockOf s) (hw : Whole config content task) :
    ∃ blockOf', Inv config content blockOf' ({ s with
      fs := (s.fs.openCreate (config.layout.dataFilePath task.block true)).2 }.setWorker w
        (.writing task (s.fs.openCreate (config.layout.dataFilePath task.block true)).1 0)) := by
  have hbyte := fun {i : Nat} (hi : i < s.fs.nFile) =>
    TransQueue.byteAt_openCreate s.fs (config.layout.dataFilePath task.block true) hi
  have hle := TransQueue.nFile_openCreate s.fs (config.layout.dataFilePath task.block true)
  cases hn : s.fs.names (config.layout.dataFilePath task.block true) with
  | some iFile =>
    have ho : s.fs.openCreate (config.layout.dataFilePath task.block true) = (iFile, s.fs) := by
      simp [FileSystem.openCreate, hn]
    obtain ⟨hlt, hb⟩ := h.names _ _ _ hn
    rw [ho]
    exact ⟨blockOf, h.setWorker ⟨hw, hlt, hb, Nat.zero_le _, fun k hk => absurd hk (Nat.not_lt_zero k)⟩⟩
  | none =>
    have ho : s.fs.openCreate (config.layout.dataFilePath task.block true) = (s.fs.nFile,
        { names := Function.update s.fs.names (config.layout.dataFilePath task.block true)
            (some s.fs.nFile)
          files := Function.update s.fs.files s.fs.nFile ⟨0, fun _ => 0⟩
          nFile := s.fs.nFile + 1 }) := by
      simp [FileSystem.openCreate, hn]
    have hb : ∀ i < s.fs.nFile, Function.update blockOf s.fs.nFile task.block i = blockOf i :=
      fun i hi => Function.update_of_ne (Nat.ne_of_lt hi) _ _
    rw [ho] at hbyte hle ⊢
    refine ⟨Function.update blockOf s.fs.nFile task.block, Inv.setWorker ?_
      ⟨hw, Nat.lt_succ_self _, Function.update_self .., Nat.zero_le _,
        fun k hk => absurd hk (Nat.not_lt_zero k)⟩⟩
    refine h.withFs hle hb (fun i hi n _ hh k hk => ?_) (fun b a i hi => ?_) fun b i hi => ?_
    · rw [hbyte hi]
      exact hh k hk
    · dsimp only at hi ⊢
      by_cases hp : config.layout.dataFilePath b a = config.layout.dataFilePath task.block true
      · have hbi := (config.layout.dataFilePath_inj hp).1
        rw [hp, Function.update_self, Option.some.injEq] at hi
        subst hi hbi
        exact ⟨Nat.lt_succ_self _, Function.update_self ..⟩
      · rw [Function.update_of_ne hp] at hi
        obtain ⟨hlt, hblock⟩ := h.names b a i hi
        exact ⟨Nat.lt_succ_of_lt hlt, (hb i hlt).trans hblock⟩
    · have hp : config.layout.dataFilePath b false ≠ config.layout.dataFilePath task.block true := by
        intro he
        cases (config.layout.dataFilePath_inj he).2
      dsimp only at hi
      rw [Function.update_of_ne hp] at hi
      exact h.archived b i hi

/-- A part of a block is written over bytes of the same block. -/
theorem Inv.writePart {part : Nat} {success : Bool} (h : Inv config content blockOf s)
    (hpc : s.workers w = .writing task iFile nBytes) :
    Inv config content blockOf (s.writePart config w task iFile nBytes part success) := by
  have hsound := h.workers w
  rw [hpc] at hsound
  obtain ⟨⟨hlen, hbytes⟩, hlt, hb, hle, hh⟩ := hsound
  simp only [Space.writePart, hlen]
  have hmin : nBytes + min part (config.blockSize - nBytes) ≤ config.blockSize := by omega
  generalize min part (config.blockSize - nBytes) = n at hmin ⊢
  have hpart : ∀ k, nBytes ≤ k ∧ k < nBytes + n →
      ((s.fs.files iFile).pwrite nBytes n fun k => task.buffer (nBytes + k)).byteAt k =
        some (content task.block k) := by
    intro k hk
    have hbuf : nBytes + (k - nBytes) = k := by omega
    rw [TransQueue.File.byteAt_pwrite_inside hk, hbuf, hbytes k (by omega)]
  have hkeep : ∀ i < s.fs.nFile, ∀ m ≤ config.blockSize, Holds content s.fs i (blockOf i) m →
      Holds content (s.fs.pwrite iFile nBytes n fun k => task.buffer (nBytes + k)) i (blockOf i) m := by
    intro i hi m hm hold k hk
    simp only [FileSystem.pwrite]
    by_cases he : i = iFile
    · subst he
      rw [Function.update_self, hb]
      rw [hb] at hold
      by_cases hin : nBytes ≤ k ∧ k < nBytes + n
      · exact hpart k hin
      · exact TransQueue.File.byteAt_pwrite_outside hin (hold k hk)
    · rw [Function.update_of_ne he]
      exact hold k hk
  have hinv : Inv config content blockOf
      { s with fs := s.fs.pwrite iFile nBytes n fun k => task.buffer (nBytes + k) } :=
    h.withFs le_rfl (fun _ _ => rfl) hkeep h.names h.archived
  have hmore : Holds content (s.fs.pwrite iFile nBytes n fun k => task.buffer (nBytes + k)) iFile
      task.block (nBytes + n) := by
    intro k hk
    simp only [FileSystem.pwrite, Function.update_self]
    by_cases hin : nBytes ≤ k ∧ k < nBytes + n
    · exact hpart k hin
    · exact TransQueue.File.byteAt_pwrite_outside hin (hh k (by omega))
  split_ifs with hfail hmid
  · exact hinv.setWorker trivial
  · exact hinv.setWorker ⟨⟨hlen, hbytes⟩, hlt, hb, hmid.le, hmore⟩
  · have hfull : nBytes + n = config.blockSize := by omega
    rw [hfull] at hmore
    refine Inv.setWorker ⟨hinv.workers, hinv.names, fun r hr => ?_, fun b i hi => ?_⟩ trivial
    · rcases List.mem_cons.mp hr with rfl | hr
      · exact ⟨hlt, hb, hmore⟩
      · exact hinv.written r hr
    · exact List.mem_cons_of_mem _ (hinv.archived b i hi)

omit [DecidableEq Worker] in
theorem Inv.remove (h : Inv config content blockOf s) (b : BlockId) :
    Inv config content blockOf
      { s with fs := s.fs.remove (config.layout.dataFilePath b true) } := by
  have hnames : ∀ b' a i, (s.fs.remove (config.layout.dataFilePath b true)).names
      (config.layout.dataFilePath b' a) = some i →
        s.fs.names (config.layout.dataFilePath b' a) = some i := by
    intro b' a i hi
    by_cases hp : config.layout.dataFilePath b' a = config.layout.dataFilePath b true
    · simp [FileSystem.remove, hp] at hi
    · simpa [FileSystem.remove, hp] using hi
  exact h.withFs le_rfl (fun _ _ => rfl) (fun _ _ _ _ hh => hh)
    (fun b' a i hi => h.names b' a i (hnames b' a i hi))
    fun b' i hi => h.archived b' i (hnames b' false i hi)

omit [DecidableEq Worker] in
theorem Inv.rename (h : Inv config content blockOf s)
    (hr : s.fs.rename (config.layout.dataFilePath b true) (config.layout.dataFilePath b false) = some fs)
    (hg : ∀ iFile, s.fs.names (config.layout.dataFilePath b true) = some iFile →
      (iFile, b) ∈ s.written) : Inv config content blockOf { s with fs := fs } := by
  obtain ⟨iFile, hn, rfl⟩ := Option.map_eq_some_iff.mp hr
  have hnames : ∀ b' a i, Function.update (Function.update s.fs.names
      (config.layout.dataFilePath b true) none) (config.layout.dataFilePath b false) (some iFile)
        (config.layout.dataFilePath b' a) = some i →
      (b' = b ∧ i = iFile) ∨ s.fs.names (config.layout.dataFilePath b' a) = some i := by
    intro b' a i hi
    by_cases hp : config.layout.dataFilePath b' a = config.layout.dataFilePath b false
    · rw [hp, Function.update_self] at hi
      exact Or.inl ⟨(config.layout.dataFilePath_inj hp).1, (Option.some.inj hi).symm⟩
    · rw [Function.update_of_ne hp] at hi
      by_cases hp' : config.layout.dataFilePath b' a = config.layout.dataFilePath b true
      · rw [hp', Function.update_self] at hi
        cases hi
      · rw [Function.update_of_ne hp'] at hi
        exact Or.inr hi
  refine h.withFs le_rfl (fun _ _ => rfl) (fun _ _ _ _ hh => hh) (fun b' a i hi => ?_)
    fun b' i hi => ?_
  · rcases hnames b' a i hi with ⟨rfl, rfl⟩ | hi
    · exact h.names _ _ _ hn
    · exact h.names b' a i hi
  · rcases hnames b' false i hi with ⟨rfl, rfl⟩ | hi
    · exact hg _ hn
    · exact h.archived b' i hi

theorem Inv.step {e : DumpEvent Worker} (h : Inv config content blockOf s)
    (hd : Dumps config content e) (hg : RenamesWhole config s e) (hs : step config s e = some s') :
    ∃ blockOf', Inv config content blockOf' s' := by
  cases e with
  | dump w task =>
    simp only [Space.step] at hs
    split at hs
    · cases hs
      exact ⟨blockOf, h.setWorker hd⟩
    · cases hs
  | openFile w success =>
    simp only [Space.step] at hs
    split at hs
    next task hw =>
      have hsound := h.workers w
      rw [hw] at hsound
      split_ifs at hs with hok
      · cases hs
        exact h.openFile hsound
      · cases hs
        exact ⟨blockOf, h.setWorker trivial⟩
    next => cases hs
  | write w part success =>
    simp only [Space.step] at hs
    split at hs
    next task iFile nBytes hw =>
      cases hs
      exact ⟨blockOf, h.writePart hw⟩
    next => cases hs
  | mkDir w success =>
    simp only [Space.step] at hs
    split at hs
    · split_ifs at hs
      · cases hs
        exact ⟨blockOf, h.setWorker trivial⟩
      · cases hs
        exact ⟨blockOf, h.setWorker trivial⟩
    · cases hs
  | rename w success =>
    simp only [Space.step] at hs
    split at hs
    next task hw =>
      split at hs
      next fs hr =>
        cases hs
        cases success with
        | false => cases hr
        | true =>
          have hinv := h.rename hr (hg task hw)
          exact ⟨blockOf, hinv.setWorker trivial⟩
      next =>
        cases hs
        exact ⟨blockOf, h.setWorker trivial⟩
    next => cases hs
  | remove w =>
    simp only [Space.step] at hs
    split at hs
    next task hw =>
      cases hs
      have hinv := h.remove task.block
      exact ⟨blockOf, hinv.setWorker trivial⟩
    next => cases hs

/-- The archived files are whole as long as every rename finds a whole file. -/
theorem archivesWhole_of_renamesWhole (config : Config) (content : BlockId → Nat → UInt8)
    {s : Space Worker}
    (h : Reach (step config) (fun s e => Dumps config content e ∧ RenamesWhole config s e) start s) :
    ArchivesWhole config content s := by
  have hinv : ∃ blockOf, Inv config content blockOf s :=
    h.invariant (fun s => ∃ blockOf, Inv config content blockOf s) ⟨fun _ => Vector.replicate 16 0, inv_start⟩
      fun _ _ _ hi hg hs => hi.elim fun _ hi => hi.step hg.1 hg.2 hs
  obtain ⟨blockOf, hinv⟩ := hinv
  exact hinv.archivesWhole

end Space

/-- Blocks of one shard of two bytes. -/
def Config.twoBytes : Config where
  layout := ⟨[['/']], false, fun _ => 0⟩
  ioSize := 2
  blockSize := 2

def BlockTask.ones : BlockTask := ⟨Vector.replicate 16 0, [0], fun _ => 1⟩

namespace Space

theorem dumps_ones (w : Bool) : Dumps .twoBytes (fun _ _ => 1) (.dump w .ones) :=
  ⟨rfl, fun _ _ => rfl⟩

def moving (s : Space Bool) (w : Bool) : Option BlockId :=
  match s.workers w with
  | .moving task => some task.block
  | _ => none

/-- A dump in two parts, up to its rename. -/
def dumpsOnes (w : Bool) : List (DumpEvent Bool) :=
  [.dump w .ones, .openFile w true, .write w 1 true, .write w 1 true, .mkDir w true]

theorem archivesWhole_dumpsOnes : ∃ s₁ s : Space Bool,
    run (step .twoBytes) start (dumpsOnes false) = some s₁ ∧
      step .twoBytes s₁ (.rename false true) = some s ∧ ArchivesWhole .twoBytes (fun _ _ => 1) s := by
  have hend : (run (step .twoBytes) start (dumpsOnes false)).map (fun s => (moving s false,
      s.fs.names (Config.twoBytes.layout.dataFilePath (Vector.replicate 16 0) true), s.written)) =
        some (some (Vector.replicate 16 0), some 0, [(0, Vector.replicate 16 0)]) := by decide +kernel
  obtain ⟨s₁, hs₁, he⟩ := Option.map_eq_some_iff.mp hend
  obtain ⟨hmoving, hname, hwritten⟩ : moving s₁ false = some (Vector.replicate 16 0) ∧ _ ∧ _ :=
    ⟨congrArg Prod.fst he, congrArg (fun x => x.2.1) he, congrArg (fun x => x.2.2) he⟩
  dsimp only at hname hwritten
  obtain ⟨task, hw, hblock⟩ : ∃ task, s₁.workers false = .moving task ∧
      task.block = Vector.replicate 16 0 := by
    simp only [moving] at hmoving
    split at hmoving
    next task hw => exact ⟨task, hw, Option.some.inj hmoving⟩
    next => cases hmoving
  obtain ⟨s, hs⟩ : ∃ s, step .twoBytes s₁ (.rename false true) = some s := by
    simp only [step, hw, if_true]
    split
    · exact ⟨_, rfl⟩
    · exact ⟨_, rfl⟩
  have hreach : Reach (step .twoBytes)
      (fun s e => Dumps .twoBytes (fun _ _ => 1) e ∧ RenamesWhole .twoBytes s e) start s₁ :=
    Reach.start.run (fun s e he => by
      fin_cases he
      · exact ⟨dumps_ones false, trivial⟩
      all_goals exact ⟨trivial, trivial⟩) hs₁
  refine ⟨s₁, s, hs₁, hs, archivesWhole_of_renamesWhole .twoBytes _
    (hreach.next (e := .rename false true) ⟨trivial, fun task' hw' iFile hn => ?_⟩ hs)⟩
  rw [hw] at hw'
  obtain rfl := FileWorker.moving.inj hw'
  rw [hblock] at hn ⊢
  rw [hname] at hn
  rw [hwritten, ← Option.some.inj hn]
  exact List.mem_singleton_self _

/-- The second dump has opened the file that the first one archives; the third one makes a new
file, which the second one archives empty. -/
def renamesEmpty : List (DumpEvent Bool) :=
  [.dump true .ones, .openFile true true] ++ dumpsOnes false ++ [.rename false true,
    .dump false .ones, .openFile false true, .write true 2 true, .mkDir true true, .rename true true]

theorem not_archivesWhole_renamesEmpty : ¬ ∀ (config : Config) (content : BlockId → Nat → UInt8)
    (s : Space Bool), Reach (step config) (fun _ e => Dumps config content e) start s →
      ArchivesWhole config content s := by
  intro hall
  have hend : (run (step .twoBytes) start renamesEmpty).map (fun s =>
      (s.fs.names (Config.twoBytes.layout.dataFilePath (Vector.replicate 16 0) false),
        (s.fs.files 1).byteAt 0)) = some (some 1, none) := by decide +kernel
  obtain ⟨s, hs, he⟩ := Option.map_eq_some_iff.mp hend
  obtain ⟨hname, hbyte⟩ := Prod.mk.inj he
  have hreach : Reach (step .twoBytes) (fun _ e => Dumps .twoBytes (fun _ _ => 1) e) start s :=
    Reach.start.run (fun s e he => by
      fin_cases he
      all_goals first | exact trivial | exact dumps_ones _) hs
  have hwhole := hall .twoBytes (fun _ _ => 1) s hreach _ 1 hname 0 (by decide)
  rw [hbyte] at hwhole
  cases hwhole

end Space

end UnifiedCache.PcStore
