import UnifiedCache.Ds3fs.TransQueue

/-! What a load puts into memory. The first address of each shard makes the round trip;
the further ones are neither written to the file nor read from it. -/

namespace UnifiedCache.Ds3fsStore

open PosixStore (File Memory)

variable {config : Config} {s : Ds3fs} {b b' : BlockId} {a a' : Bool} {ios : IoUnit} {r : IoResults}
  {d : Dumped}

theorem dataFilePath_inj : dataFilePath config b a = dataFilePath config b' a' ↔ b = b' ∧ a = a' := by
  constructor
  · intro h
    have hb : b = b' := PosixStore.dataFileName_inj (PosixStore.append_slash_inj
      (PosixStore.slash_not_mem_dataFileName b) (PosixStore.slash_not_mem_dataFileName b') h)
    subst hb
    refine ⟨rfl, ?_⟩
    have hlen := congrArg List.length h
    have hname := PosixStore.dataFileName_length b
    cases a <;> cases a' <;> simp [dataFilePath, dataParentName, tempFileRoot, hname] at hlen ⊢
  · rintro ⟨rfl, rfl⟩
    rfl

/-- The file has the first tensor of the shard as it was dumped. -/
def HoldsFirst (config : Config) (file : File) (index : Nat) (d : Dumped) : Prop :=
  ∀ k < config.ioSize, file.byteAt (config.shardSize * index + k) = some (d.memory (d.addrs.headD 0 + k))

/-- The notes about both files of each block are right. -/
def Noted (config : Config) (files : Files) (note : BlockId → Nat → Option Dumped) (activated : Bool) :
    Prop :=
  ∀ b i d, note b i = some d →
    ∃ file, files (dataFilePath config b activated) = some file ∧ HoldsFirst config file i d

structure Sound (config : Config) (s : Ds3fs) : Prop where
  temp : Noted config s.files s.temp true
  archived : Noted config s.files s.archived false

theorem sound_setup (files : Files) (memory : Memory) : Sound config (setup files memory) :=
  ⟨fun _ _ _ h => (by cases h), fun _ _ _ h => (by cases h)⟩

theorem Config.Accepted.sizes (h : config.Accepted) : 0 < config.tensorSize ∧
    config.tensorSize ≤ config.shardSize ∧ 0 < config.nShardPerBlock := by
  obtain ⟨hok, hdevice⟩ := h
  unfold checkConfig at hok
  split_ifs at hok with h₁ h₂ h₃ h₄ h₅
  · omega
  · push Not at h₄
    refine ⟨by omega, by omega, Nat.div_pos (by omega) (by omega)⟩

/-- Writing within the place of one shard leaves the other shards. -/
theorem HoldsFirst.pwrite {file : File} {i j n : Nat} {buffer : Nat → UInt8}
    (h : HoldsFirst config file i d) (hs : config.tensorSize ≤ config.shardSize) (hij : i ≠ j)
    (hn : n ≤ config.ioSize) : HoldsFirst config (file.pwrite (config.shardSize * j) n buffer) i d := by
  intro k hk
  have hn' : n ≤ config.tensorSize := hn
  have hk' : k < config.tensorSize := hk
  refine PosixStore.TransQueue.File.byteAt_pwrite_outside ?_ (h k hk)
  rcases Nat.lt_or_gt_of_ne hij with hlt | hlt
  · have := Nat.mul_le_mul_left config.shardSize (Nat.succ_le_of_lt hlt)
    rw [Nat.mul_succ] at this
    omega
  · have := Nat.mul_le_mul_left config.shardSize (Nat.succ_le_of_lt hlt)
    rw [Nat.mul_succ] at this
    omega

section H2S

variable {files : Files} {memory : Memory}

/-- A file that keeps the other shards, and has this one when the write succeeds. -/
structure Wrote (config : Config) (files : Files) (memory : Memory) (ios : IoUnit)
    (out : Files × Bool) : Prop where
  frame : ∀ p, p ≠ dataFilePath config ios.shard.owner true → out.1 p = files p
  keep : ∀ file i d, files (dataFilePath config ios.shard.owner true) = some file →
    HoldsFirst config file i d → i ≠ ios.shard.index →
    ∃ file', out.1 (dataFilePath config ios.shard.owner true) = some file' ∧ HoldsFirst config file' i d
  done : out.2 = true → ∃ file', out.1 (dataFilePath config ios.shard.owner true) = some file' ∧
    HoldsFirst config file' ios.shard.index ⟨memory, ios.shard.addrs⟩

theorem wrote_unchanged : Wrote config files memory ios (files, false) :=
  ⟨fun _ _ => rfl, fun file _ _ hf h _ => ⟨file, hf, h⟩, fun h => by cases h⟩

theorem Wrote.of_file {file' : File} {success : Bool}
    (hkeep : ∀ file i d, files (dataFilePath config ios.shard.owner true) = some file →
      HoldsFirst config file i d → i ≠ ios.shard.index → HoldsFirst config file' i d)
    (hdone : success = true → HoldsFirst config file' ios.shard.index ⟨memory, ios.shard.addrs⟩) :
    Wrote config files memory ios
      (Function.update files (dataFilePath config ios.shard.owner true) (some file'), success) := by
  refine ⟨fun p hp => Function.update_of_ne hp _ _, fun file i d hf h hi => ?_, fun hs => ?_⟩
  · exact ⟨file', Function.update_self .., hkeep file i d hf h hi⟩
  · exact ⟨file', Function.update_self .., hdone hs⟩

theorem wrote_h2s (hc : config.Accepted) (files : Files) (memory : Memory) (ios : IoUnit)
    (r : IoResults) : Wrote config files memory ios (h2s config files memory ios r) := by
  have hsize := hc.sizes.2.1
  unfold h2s
  simp only
  by_cases hopen : r.opened = false
  · rw [if_pos hopen]
    exact wrote_unchanged
  · rw [if_neg hopen]
    have hfile : ∀ file, files (dataFilePath config ios.shard.owner true) = some file →
        (files (dataFilePath config ios.shard.owner true)).getD ⟨0, fun _ => 0⟩ = file := by
      intro file hf
      rw [hf]
      rfl
    have hcreated : Wrote config files memory ios (Function.update files
        (dataFilePath config ios.shard.owner true)
        (some ((files (dataFilePath config ios.shard.owner true)).getD ⟨0, fun _ => 0⟩)), false) :=
      Wrote.of_file (fun file i d hf h _ => by rw [hfile file hf]; exact h) fun h => by cases h
    by_cases hreg : 0 < r.registered
    · rw [if_pos hreg]
      exact hcreated
    · rw [if_neg hreg]
      unfold doIoWrite
      simp only [Function.update_idem]
      split_ifs
      · exact hcreated
      · refine Wrote.of_file (fun file i d hf h hi => ?_) fun h => by cases h
        rw [hfile file hf]
        exact h.pwrite hsize hi (Nat.min_le_right _ _)
      · refine Wrote.of_file (fun file i d hf h hi => ?_) fun _ k hk => ?_
        · rw [hfile file hf]
          exact h.pwrite hsize hi (Nat.le_refl _)
        · rw [PosixStore.TransQueue.File.byteAt_pwrite_inside (by omega), Nat.add_sub_cancel_left]

theorem h2s_of_succeed (hr : r.Succeed) : (h2s config files memory ios r).2 = true := by
  obtain ⟨hopen, hreg, hprep, hsub, hwait, hres, -⟩ := hr
  unfold h2s doIoWrite
  simp only [hopen, Bool.true_eq_false, if_false]
  rw [if_neg (by omega), if_neg (by omega), if_neg (by omega)]

end H2S

section Worker

/-- The notes after a dump of one shard, before the file is committed. -/
theorem Wrote.noted {out : Files × Bool} (hw : Wrote config s.files s.memory ios out)
    (h : Noted config s.files s.temp true) : Noted config out.1
      (Function.update s.temp ios.shard.owner (Function.update (s.temp ios.shard.owner) ios.shard.index
        (if out.2 then some ⟨s.memory, ios.shard.addrs⟩ else none))) true := by
  intro b i d hd
  by_cases hb : b = ios.shard.owner
  · subst hb
    rw [Function.update_self] at hd
    by_cases hi : i = ios.shard.index
    · rw [hi, Function.update_self] at hd
      split_ifs at hd with hout
      obtain rfl := Option.some.inj hd
      rw [hi]
      exact hw.done hout
    · rw [Function.update_of_ne hi] at hd
      obtain ⟨file, hf, hh⟩ := h _ i d hd
      exact hw.keep file i d hf hh hi
  · rw [Function.update_of_ne hb] at hd
    obtain ⟨file, hf, hh⟩ := h b i d hd
    refine ⟨file, ?_, hh⟩
    rw [hw.frame _ fun he => hb (dataFilePath_inj.mp he).1]
    exact hf

/-- The archived files do not change while a shard is written. -/
theorem Wrote.noted_archived {out : Files × Bool} (hw : Wrote config s.files s.memory ios out)
    (h : Noted config s.files s.archived false) : Noted config out.1 s.archived false := by
  intro b i d hd
  obtain ⟨file, hf, hh⟩ := h b i d hd
  refine ⟨file, ?_, hh⟩
  rw [hw.frame _ fun he => by cases (dataFilePath_inj.mp he).2]
  exact hf

variable {files : Files} {temp archived : BlockId → Nat → Option Dumped}

theorem noted_commitFile (ht : Noted config files temp true) (ha : Noted config files archived false)
    (b : BlockId) (success : Bool) (r : IoResults) :
    Noted config (commitFile config files b success r).1 (Function.update temp b fun _ => none) true ∧
    Noted config (commitFile config files b success r).1
      (if (commitFile config files b success r).2 then Function.update archived b (temp b) else archived)
      false := by
  have path_ne : ∀ {b₁ b₂ a₁ a₂}, ¬ (b₁ = b₂ ∧ a₁ = a₂) →
      dataFilePath config b₁ a₁ ≠ dataFilePath config b₂ a₂ := fun hne he => hne (dataFilePath_inj.mp he)
  unfold commitFile
  by_cases hcommit : success = true ∧ r.made = true ∧ r.renamed = true
  · simp only [if_pos hcommit, if_true]
    constructor
    · intro b' i d hd
      by_cases hb : b' = b
      · rw [hb, Function.update_self] at hd
        cases hd
      · rw [Function.update_of_ne hb] at hd
        obtain ⟨file, hf, hh⟩ := ht b' i d hd
        refine ⟨file, ?_, hh⟩
        rw [Function.update_of_ne (path_ne (by simp)), Function.update_of_ne (path_ne (by simp [hb]))]
        exact hf
    · intro b' i d hd
      by_cases hb : b' = b
      · subst hb
        rw [Function.update_self] at hd
        obtain ⟨file, hf, hh⟩ := ht b' i d hd
        exact ⟨file, by rw [Function.update_self]; exact hf, hh⟩
      · rw [Function.update_of_ne hb] at hd
        obtain ⟨file, hf, hh⟩ := ha b' i d hd
        refine ⟨file, ?_, hh⟩
        rw [Function.update_of_ne (path_ne (by simp [hb])), Function.update_of_ne (path_ne (by simp))]
        exact hf
  · simp only [if_neg hcommit, Bool.false_eq_true, if_false]
    constructor
    · intro b' i d hd
      by_cases hb : b' = b
      · rw [hb, Function.update_self] at hd
        cases hd
      · rw [Function.update_of_ne hb] at hd
        obtain ⟨file, hf, hh⟩ := ht b' i d hd
        exact ⟨file, by rw [Function.update_of_ne (path_ne (by simp [hb]))]; exact hf, hh⟩
    · intro b' i d hd
      obtain ⟨file, hf, hh⟩ := ha b' i d hd
      exact ⟨file, by rw [Function.update_of_ne (path_ne (by simp))]; exact hf, hh⟩

theorem Sound.dumpWorker (h : Sound config s) (hc : config.Accepted) :
    Sound config (dumpWorker config s ios r) := by
  have hw := wrote_h2s hc s.files s.memory ios r
  have ht := hw.noted h.temp
  have ha := hw.noted_archived h.archived
  have hcommit := noted_commitFile ht ha ios.shard.owner (h2s config s.files s.memory ios r).2 r
  unfold Ds3fsStore.dumpWorker
  by_cases hlast : ios.shard.index + 1 = config.nShardPerBlock
  · simp only [if_pos hlast]
    exact ⟨hcommit.1, hcommit.2⟩
  · simp only [if_neg hlast]
    exact ⟨ht, ha⟩

theorem Sound.step (h : Sound config s) (hc : config.Accepted) (e : Event) :
    Sound config (step config s e) := by
  cases e with
  | program memory => exact ⟨h.temp, h.archived⟩
  | work ios r =>
    unfold Ds3fsStore.step worker
    simp only
    split_ifs
    · exact h
    · cases ios.type with
      | dump => exact h.dumpWorker hc
      | load => exact ⟨h.temp, h.archived⟩

def run (config : Config) (es : List Event) (s : Ds3fs) : Ds3fs := es.foldl (Ds3fsStore.step config) s

theorem sound_run (hc : config.Accepted) (es : List Event) (h : Sound config s) :
    Sound config (run config es s) :=
  List.foldlRecOn es _ h fun _ h e _ => h.step hc e

end Worker

/-- The dump of one shard: what the program put into memory before, the shard, and how the
system calls went. -/
structure ShardDump where
  memory : Memory
  ios : IoUnit
  results : IoResults

def ShardDump.dumped (x : ShardDump) : Dumped := ⟨x.memory, x.ios.shard.addrs⟩

def dumpEvents (dumps : List ShardDump) : List Event :=
  dumps.flatMap fun x => [.program x.memory, .work x.ios x.results]

def nAddr (config : Config) : Nat := config.shardSize / config.tensorSize

/-- All shards of a block, the last one last, with all I/O succeeding. -/
structure DumpsBlock (config : Config) (s : Ds3fs) (b : BlockId) (dumps : List ShardDump) : Prop where
  type : ∀ x ∈ dumps, x.ios.type = .dump ∧ x.ios.shard.owner = b
  addrs : ∀ x ∈ dumps, x.ios.shard.addrs.length = nAddr config
  succeed : ∀ x ∈ dumps, x.results.Succeed ∧ x.ios.owner ∉ s.failureSet
  indices : (dumps.map fun x => x.ios.shard.index).Perm (List.range config.nShardPerBlock)
  last : ∃ x, dumps.getLast? = some x ∧ x.ios.shard.index + 1 = config.nShardPerBlock

/-- A successful load of a shard that was dumped. -/
structure LoadsShard (config : Config) (s : Ds3fs) (x : ShardDump) (ios : IoUnit) (r : IoResults) :
    Prop where
  type : ios.type = .load
  owner : ios.shard.owner = x.ios.shard.owner
  index : ios.shard.index = x.ios.shard.index
  addrs : ios.shard.addrs.length = nAddr config
  succeed : r.Succeed ∧ ios.owner ∉ s.failureSet

def Event.DumpsOf (b : BlockId) : Event → Prop
  | .program _ => False
  | .work ios _ => ios.type = .dump ∧ ios.shard.owner = b

section Dump

variable {dumps : List ShardDump} {x : ShardDump}

/-- What a successful dump of a shard notes. -/
theorem step_dump (config : Config) (s : Ds3fs) (htype : x.ios.type = .dump)
    (hr : x.results.Succeed) (hf : x.ios.owner ∉ s.failureSet) :
    (run config (dumpEvents [x]) s).failureSet = s.failureSet ∧
    (x.ios.shard.index + 1 ≠ config.nShardPerBlock → (run config (dumpEvents [x]) s).temp =
      Function.update s.temp x.ios.shard.owner
        (Function.update (s.temp x.ios.shard.owner) x.ios.shard.index (some x.dumped))) ∧
    (x.ios.shard.index + 1 = config.nShardPerBlock →
      (run config (dumpEvents [x]) s).archived x.ios.shard.owner =
        Function.update (s.temp x.ios.shard.owner) x.ios.shard.index (some x.dumped)) := by
  have hdone : (h2s config s.files x.memory x.ios x.results).2 = true := h2s_of_succeed hr
  have hwork : run config (dumpEvents [x]) s =
      dumpWorker config { s with memory := x.memory } x.ios x.results := by
    simp [run, dumpEvents, Ds3fsStore.step, worker, hf, htype]
  rw [hwork]
  unfold dumpWorker
  by_cases hlast : x.ios.shard.index + 1 = config.nShardPerBlock
  · simp only [if_pos hlast, hdone, if_true, commitFile, hr.2.2.2.2.2.2, and_self, Function.update_self]
    exact ⟨trivial, fun h => absurd hlast h, fun _ => rfl⟩
  · simp only [if_neg hlast, hdone, if_true]
    exact ⟨trivial, fun _ => rfl, fun h => absurd h hlast⟩

theorem run_dumpEvents_cons (x : ShardDump) (dumps : List ShardDump) (s : Ds3fs) :
    run config (dumpEvents (x :: dumps)) s = run config (dumpEvents dumps) (run config (dumpEvents [x]) s) :=
  rfl

/-- The shards before the last one leave a note each, and change no other note of the block. -/
theorem temp_of_dumps (config : Config) (s : Ds3fs) (dumps : List ShardDump)
    (htype : ∀ x ∈ dumps, x.ios.type = .dump ∧ x.ios.shard.owner = b)
    (hr : ∀ x ∈ dumps, x.results.Succeed ∧ x.ios.owner ∉ s.failureSet)
    (hlast : ∀ x ∈ dumps, x.ios.shard.index + 1 ≠ config.nShardPerBlock)
    (hnd : (dumps.map fun x => x.ios.shard.index).Nodup) :
    (run config (dumpEvents dumps) s).failureSet = s.failureSet ∧
    (∀ x ∈ dumps, (run config (dumpEvents dumps) s).temp b x.ios.shard.index = some x.dumped) ∧
    ∀ i, (∀ x ∈ dumps, x.ios.shard.index ≠ i) →
      (run config (dumpEvents dumps) s).temp b i = s.temp b i := by
  induction dumps generalizing s with
  | nil => exact ⟨rfl, fun _ hx => (by cases hx), fun _ _ => rfl⟩
  | cons x dumps ih =>
    obtain ⟨hx, hown⟩ := htype x List.mem_cons_self
    obtain ⟨hfs, htemp, -⟩ := step_dump config s hx (hr x List.mem_cons_self).1
      (hr x List.mem_cons_self).2
    have htemp := htemp (hlast x List.mem_cons_self)
    obtain ⟨hx_new, hnd⟩ := List.nodup_cons.mp hnd
    obtain ⟨hfs', hin, hout⟩ := ih (run config (dumpEvents [x]) s)
      (fun y hy => htype y (List.mem_cons_of_mem _ hy))
      (fun y hy => hfs.symm ▸ hr y (List.mem_cons_of_mem _ hy))
      (fun y hy => hlast y (List.mem_cons_of_mem _ hy)) hnd
    rw [run_dumpEvents_cons]
    refine ⟨hfs'.trans hfs, fun y hy => ?_, fun i hi => ?_⟩
    · rcases List.mem_cons.mp hy with rfl | hy
      · rw [hout _ fun z hz he => hx_new (List.mem_map.mpr ⟨z, hz, he⟩), htemp, hown,
          Function.update_self, Function.update_self]
      · exact hin y hy
    · rw [hout i fun y hy => hi y (List.mem_cons_of_mem _ hy), htemp, hown, Function.update_self,
        Function.update_of_ne (Ne.symm (hi x List.mem_cons_self))]

/-- A dumped block is archived as it was dumped. -/
theorem DumpsBlock.archived (h : DumpsBlock config s b dumps) (hx : x ∈ dumps) :
    (run config (dumpEvents dumps) s).archived b x.ios.shard.index = some x.dumped := by
  obtain ⟨y, hy, hlast⟩ := h.last
  obtain ⟨init, rfl⟩ := List.getLast?_eq_some_iff.mp hy
  have hnd : ((init ++ [y]).map fun x => x.ios.shard.index).Nodup := h.indices.nodup_iff.mpr List.nodup_range
  rw [List.map_append, List.map_singleton, List.nodup_append] at hnd
  have hymem : y ∈ init ++ [y] := by simp
  have hinit : ∀ x ∈ init, x.ios.shard.index ≠ y.ios.shard.index := fun x hx =>
    hnd.2.2 _ (List.mem_map.mpr ⟨x, hx, rfl⟩) _ (List.mem_singleton.mpr rfl)
  obtain ⟨hfs, hin, -⟩ := temp_of_dumps config s init
    (fun x hx => h.type x (List.mem_append_left _ hx))
    (fun x hx => h.succeed x (List.mem_append_left _ hx))
    (fun x hx he => hinit x hx (Nat.succ.inj (he.trans hlast.symm))) hnd.1
  obtain ⟨hytype, hyown⟩ := h.type y hymem
  have hfy : y.ios.owner ∉ (run config (dumpEvents init) s).failureSet :=
    hfs.symm ▸ (h.succeed y hymem).2
  have harch := (step_dump config _ hytype (h.succeed y hymem).1 hfy).2.2 hlast
  have hrun : run config (dumpEvents (init ++ [y])) s =
      run config (dumpEvents [y]) (run config (dumpEvents init) s) := by
    simp only [run, dumpEvents, List.flatMap_append, List.foldl_append]
  rw [hyown] at harch
  rw [hrun, harch]
  rcases List.mem_append.mp hx with hx | hx
  · rw [Function.update_of_ne (hinit x hx), hin x hx]
  · rw [List.mem_singleton.mp hx, Function.update_self]

end Dump

section Load

variable {e : Event} {dumps : List ShardDump} {x : ShardDump}

theorem archived_step (he : ¬ e.DumpsOf b) : (Ds3fsStore.step config s e).archived b = s.archived b := by
  cases e with
  | program memory => rfl
  | work ios r =>
    unfold Ds3fsStore.step worker
    simp only
    split_ifs
    · rfl
    · cases htype : ios.type with
      | load => rfl
      | dump =>
        have hb : b ≠ ios.shard.owner := fun hb => he ⟨htype, hb.symm⟩
        have other : ∀ (c : Bool) x, (if c = true then Function.update s.archived ios.shard.owner x
            else s.archived) b = s.archived b := by
          intro c x
          split_ifs
          · exact Function.update_of_ne hb _ _
          · rfl
        unfold dumpWorker
        by_cases hlast : ios.shard.index + 1 = config.nShardPerBlock
        · simp only [if_pos hlast]
          exact other _ _
        · simp only [if_neg hlast]

theorem archived_run {later : List Event} (hl : ∀ e ∈ later, ¬ e.DumpsOf b) (s : Ds3fs) :
    (run config later s).archived b = s.archived b := by
  induction later generalizing s with
  | nil => rfl
  | cons e later ih =>
    exact (ih (fun e he => hl e (List.mem_cons_of_mem _ he)) _).trans
      (archived_step (hl e List.mem_cons_self))

/-- The bytes at each address of the shard are those that were dumped. -/
def Restored (config : Config) (memory : Memory) (addrs : List Addr) (d : Dumped) : Prop :=
  ∀ k < nAddr config, ∀ p < config.tensorSize,
    memory (addrs.getD k 0 + p) = d.memory (d.addrs.getD k 0 + p)

/-- The bytes at the further addresses are there before the load, or come with the
tensor of the first address where the tensors overlap. -/
def AlreadyThere (config : Config) (memory : Memory) (addrs : List Addr) (d : Dumped) : Prop :=
  ∀ k, 0 < k → k < nAddr config → ∀ p < config.tensorSize,
    let q := addrs.getD k 0 + p
    if addrs.headD 0 ≤ q ∧ q < addrs.headD 0 + config.tensorSize then
      d.memory (d.addrs.headD 0 + (q - addrs.headD 0)) = d.memory (d.addrs.getD k 0 + p)
    else memory q = d.memory (d.addrs.getD k 0 + p)

/-- A successful load puts the first tensor of the shard at its first address. -/
theorem memory_load (h : Sound config s) (harch : s.archived ios.shard.owner ios.shard.index = some d)
    (htype : ios.type = .load) (hr : r.Succeed) (hf : ios.owner ∉ s.failureSet) :
    (Ds3fsStore.step config s (.work ios r)).memory = fun p =>
      if ios.shard.addrs.headD 0 ≤ p ∧ p < ios.shard.addrs.headD 0 + config.tensorSize then
        d.memory (d.addrs.headD 0 + (p - ios.shard.addrs.headD 0))
      else s.memory p := by
  obtain ⟨file, hfile, hfirst⟩ := h.archived _ _ d harch
  obtain ⟨hopen, hreg, hprep, hsub, hwait, hres, -⟩ := hr
  have hfails : ¬ (r.prepared < 0 ∨ r.submitted < 0 ∨ r.waited ≤ 0 ∨ r.result < 0) := by omega
  have hopens : ¬ (r.opened = false ∨ 0 < r.registered) := by
    rw [hopen]
    simp only [Bool.true_eq_false, false_or]
    omega
  funext p
  simp only [Ds3fsStore.step, worker, hf, if_false, htype, loadWorker, s2h, hfile, if_neg hopens,
    doIoRead, if_neg hfails]
  change (if ios.shard.addrs.headD 0 ≤ p ∧ p < ios.shard.addrs.headD 0 + config.tensorSize then _ else _) = _
  split_ifs with hp
  · rw [hfirst (p - ios.shard.addrs.headD 0) (Nat.sub_lt_left_of_lt_add hp.1 hp.2)]
    rfl
  · rfl

theorem restored_iff_alreadyThere {addrs : List Addr} {memory : Memory} :
    Restored config (fun p => if addrs.headD 0 ≤ p ∧ p < addrs.headD 0 + config.tensorSize then
      d.memory (d.addrs.headD 0 + (p - addrs.headD 0)) else memory p) addrs d ↔
      AlreadyThere config memory addrs d := by
  have getD_zero : ∀ l : List Addr, l.getD 0 0 = l.headD 0 := by
    intro l
    cases l <;> rfl
  constructor
  · intro h k _ hk p hp
    have hkp := h k hk p hp
    simp only at hkp ⊢
    split_ifs at hkp ⊢ with hin
    · exact hkp
    · exact hkp
  · intro h k hk p hp
    rcases Nat.eq_zero_or_pos k with rfl | h0
    · simp only [getD_zero]
      rw [if_pos ⟨Nat.le_add_right _ _, Nat.add_lt_add_left hp _⟩, Nat.add_sub_cancel_left]
    · have hkp := h k h0 hk p hp
      simp only at hkp ⊢
      split_ifs at hkp ⊢ with hin
      · exact hkp
      · exact hkp

/-- A block is dumped, anything but a dump of it happens, and one of its shards is loaded:
that restores the shard exactly when all but its first tensor were there already. -/
theorem load_restores_iff (hc : config.Accepted) (files : Files) (memory : Memory)
    (before later : List Event)
    (hdumps : DumpsBlock config (run config before (setup files memory)) b dumps)
    (hlater : ∀ e ∈ later, ¬ e.DumpsOf b) (hx : x ∈ dumps)
    (hload : LoadsShard config
      (run config (before ++ dumpEvents dumps ++ later) (setup files memory)) x ios r) :
    Restored config
      (run config (before ++ dumpEvents dumps ++ later ++ [.work ios r]) (setup files memory)).memory
      ios.shard.addrs x.dumped ↔
    AlreadyThere config (run config (before ++ dumpEvents dumps ++ later) (setup files memory)).memory
      ios.shard.addrs x.dumped := by
  have hrun : ∀ es es' s, run config (es ++ es') s = run config es' (run config es s) := by
    intro es es' s
    simp only [run, List.foldl_append]
  have hsound := sound_run hc (before ++ dumpEvents dumps ++ later) (sound_setup files memory)
  have harch : (run config (before ++ dumpEvents dumps ++ later) (setup files memory)).archived
      ios.shard.owner ios.shard.index = some x.dumped := by
    rw [hload.owner, hload.index, (hdumps.type x hx).2, hrun, archived_run hlater, hrun]
    exact hdumps.archived hx
  have hmemory := memory_load hsound harch hload.type hload.succeed.1 hload.succeed.2
  have hlast : run config (before ++ dumpEvents dumps ++ later ++ [.work ios r]) (setup files memory) =
      Ds3fsStore.step config (run config (before ++ dumpEvents dumps ++ later) (setup files memory))
        (.work ios r) := hrun _ [.work ios r] _
  rw [hlast, hmemory]
  exact restored_iff_alreadyThere

end Load

section TwoTensors

/-- One shard of two tensors of one byte to a block. -/
def twoTensors : Config := ⟨[['/']], 0, 1, 2, 2, 1⟩

theorem accepted_twoTensors : twoTensors.Accepted := ⟨rfl, by decide⟩

def success : IoResults := ⟨true, 0, 0, 0, 1, 1, (0, fun _ => 0), fun _ => 0, true, true⟩

theorem succeed_success : success.Succeed := by
  refine ⟨rfl, ?_, ?_, ?_, ?_, ?_, rfl, rfl⟩ <;> decide

/-- The bytes 1 and 2 at the addresses 0 and 1. -/
def dumpTwo : ShardDump where
  memory := fun p => if p = 0 then 1 else if p = 1 then 2 else 0
  ios := ⟨1, .dump, ⟨Vector.replicate 16 0, 0, [0, 1]⟩⟩
  results := success

/-- A load to the addresses 2 and 3. -/
def loadTwo : IoUnit := ⟨2, .load, ⟨Vector.replicate 16 0, 0, [2, 3]⟩⟩

theorem dumpsBlock_dumpTwo : DumpsBlock twoTensors (run twoTensors [] (setup (fun _ => none) fun _ => 0))
    (Vector.replicate 16 0) [dumpTwo] where
  type := by
    intro x hx
    rw [List.mem_singleton.mp hx]
    exact ⟨rfl, rfl⟩
  addrs := by
    intro x hx
    rw [List.mem_singleton.mp hx]
    rfl
  succeed := by
    intro x hx
    rw [List.mem_singleton.mp hx]
    exact ⟨succeed_success, List.not_mem_nil⟩
  indices := List.Perm.refl _
  last := ⟨dumpTwo, rfl, rfl⟩

theorem loadsShard_loadTwo (memory : Memory) : LoadsShard twoTensors
    (run twoTensors ([] ++ dumpEvents [dumpTwo] ++ [.program memory]) (setup (fun _ => none) fun _ => 0))
    dumpTwo loadTwo success := by
  refine ⟨rfl, rfl, rfl, rfl, succeed_success, ?_⟩
  have h := (@step_dump dumpTwo twoTensors (setup (fun _ => none) fun _ => 0) rfl succeed_success
    List.not_mem_nil).1
  change _ ∉ (run twoTensors (dumpEvents [dumpTwo]) (setup (fun _ => none) fun _ => 0)).failureSet
  rw [h]
  exact List.not_mem_nil

/-- The second address has the byte already. -/
theorem load_restores_iff_there : AlreadyThere twoTensors (fun p => if p = 3 then 2 else 0)
    loadTwo.shard.addrs dumpTwo.dumped ∧
    Restored twoTensors (run twoTensors ([] ++ dumpEvents [dumpTwo] ++
      [.program fun p => if p = 3 then 2 else 0] ++ [.work loadTwo success])
      (setup (fun _ => none) fun _ => 0)).memory loadTwo.shard.addrs dumpTwo.dumped := by
  have hthere : AlreadyThere twoTensors (fun p => if p = 3 then 2 else 0)
      loadTwo.shard.addrs dumpTwo.dumped := by
    intro k h0 hk p hp
    have hk2 : k < 2 := hk
    have hp1 : p < 1 := hp
    obtain rfl : k = 1 := by omega
    obtain rfl : p = 0 := by omega
    decide
  refine ⟨hthere, (load_restores_iff accepted_twoTensors _ _ [] [.program fun p => if p = 3 then 2 else 0]
    dumpsBlock_dumpTwo ?_ List.mem_cons_self (loadsShard_loadTwo _)).mpr hthere⟩
  intro e he
  rw [List.mem_singleton.mp he]
  exact id

/-- The second tensor is not read back. -/
theorem not_restored_second : ¬ ∀ (config : Config) (files : Files) (memory : Memory)
    (before later : List Event) (b : BlockId) (dumps : List ShardDump) (x : ShardDump) (ios : IoUnit)
    (r : IoResults), config.Accepted → DumpsBlock config (run config before (setup files memory)) b dumps →
    (∀ e ∈ later, ¬ e.DumpsOf b) → x ∈ dumps →
    LoadsShard config (run config (before ++ dumpEvents dumps ++ later) (setup files memory)) x ios r →
    Restored config
      (run config (before ++ dumpEvents dumps ++ later ++ [.work ios r]) (setup files memory)).memory
      ios.shard.addrs x.dumped := by
  intro hall
  have h := hall twoTensors (fun _ => none) (fun _ => 0) [] [.program fun _ => 0] (Vector.replicate 16 0)
    [dumpTwo] dumpTwo loadTwo success accepted_twoTensors dumpsBlock_dumpTwo
    (fun e he => by rw [List.mem_singleton.mp he]; exact id) List.mem_cons_self (loadsShard_loadTwo _)
    1 (by decide) 0 (by decide)
  revert h
  decide +kernel

end TwoTensors

end UnifiedCache.Ds3fsStore
