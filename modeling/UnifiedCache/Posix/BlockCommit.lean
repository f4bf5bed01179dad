import UnifiedCache.Posix.TransQueue

/-! When the archived file of a block holds the whole block. A worker that has
written the shard with the last index renames the temporary file whatever the
other shards of the block have come to; the file is whole when they have all been
written to it before. -/

namespace UnifiedCache.PosixStore

namespace TransQueue

variable (config : Config)

def shardByte (shard : Shard) (k : Nat) : UInt8 :=
  config.memory (shard.addrs.getD (k / config.tensorSize) 0) (k % config.tensorSize)

/-- A dump of one block that lists each of its shards once. -/
def WholeBlock (desc : TaskDesc) : Prop :=
  (∃ b, ∀ shard ∈ desc, shard.owner = b ∧
    shard.addrs.length * config.tensorSize = config.shardSize) ∧
    (desc.map Shard.index).Perm (List.range config.nShardPerBlock)

def SameBytes (s s' : Shard) : Prop :=
  s.owner = s'.owner → s.index = s'.index → ∀ k < config.shardSize,
    shardByte config s k = shardByte config s' k

def dumped (q : TransQueue) : List Shard :=
  (q.pushed.filter fun task => task.type = .dump).flatMap TransTask.desc

/-- The tasks that callers submit: dumps are of whole blocks, and two dumps of a
block carry the same bytes. -/
def Submits (q : TransQueue) : Event → Prop
  | .push task => task.type = .dump → WholeBlock config task.desc ∧
      ∀ shard ∈ task.desc, ∀ shard' ∈ q.dumped, SameBytes config shard shard'
  | _ => True

/-- No rename leaves a shard behind: every shard of the block has been written
whole to the file that the temporary name has at that moment. -/
def CommitsWhole (q : TransQueue) : Event → Prop
  | .commit w true => ∀ ios iFile, q.workers w = .committing ios true →
      q.fs.names (path config ios true) = some iFile → ∀ i < config.nShardPerBlock,
        ∃ shard, (iFile, shard) ∈ q.written ∧ shard.owner = ios.shard.owner ∧ shard.index = i
  | _ => True

/-- The archived file of a block holds every shard that a dump of it lists. -/
def ArchivesWhole (q : TransQueue) : Prop :=
  ∀ shard ∈ q.dumped, ∀ iFile,
    q.fs.names (config.layout.dataFilePath shard.owner false) = some iFile →
      ∀ k < config.shardSize, (q.fs.files iFile).byteAt (config.shardSize * shard.index + k) =
        some (shardByte config shard k)

def Holds (fs : FileSystem) (iFile : Nat) (shard : Shard) (n : Nat) : Prop :=
  ∀ k < n, (fs.files iFile).byteAt (config.shardSize * shard.index + k) =
    some (shardByte config shard k)

end TransQueue

open TransQueue

/-- What is known of the unit of a worker, given the block of each file. -/
def Worker.Sound (config : Config) (blockOf : Nat → BlockId) (dumped : List Shard)
    (fs : FileSystem) : Worker → Prop
  | .check ios => ios.type = .dump → ios.shard ∈ dumped
  | .opening ios => ios.shard ∈ dumped
  | .writing ios iFile iAddr => ios.shard ∈ dumped ∧ iFile < fs.nFile ∧
      blockOf iFile = ios.shard.owner ∧ iAddr ≤ ios.shard.addrs.length ∧
      Holds config fs iFile ios.shard (config.tensorSize * iAddr)
  | _ => True

namespace TransQueue

structure Inv (config : Config) (blockOf : Nat → BlockId) (q : TransQueue) : Prop where
  lists : ∀ shard ∈ q.dumped, shard.index < config.nShardPerBlock ∧
    shard.addrs.length * config.tensorSize = config.shardSize
  same : ∀ s ∈ q.dumped, ∀ s' ∈ q.dumped, SameBytes config s s'
  queued : ∀ ios ∈ q.taskQ, ios.type = .dump → ios.shard ∈ q.dumped
  workers : ∀ w, (q.workers w).Sound config blockOf q.dumped q.fs
  names : ∀ b activated iFile, q.fs.names (config.layout.dataFilePath b activated) = some iFile →
    iFile < q.fs.nFile ∧ blockOf iFile = b
  written : ∀ r ∈ q.written, r.2 ∈ q.dumped ∧ r.1 < q.fs.nFile ∧ blockOf r.1 = r.2.owner ∧
    Holds config q.fs r.1 r.2 config.shardSize
  archived : ∀ b iFile, q.fs.names (config.layout.dataFilePath b false) = some iFile →
    ∀ i < config.nShardPerBlock, ∃ shard, (iFile, shard) ∈ q.written ∧ shard.owner = b ∧
      shard.index = i

variable {config : Config} {blockOf : Nat → BlockId} {q q' : TransQueue} {fs : FileSystem}
  {shard : Shard} {iFile w : Nat} {pc : Worker} {ios : IoUnit}

theorem inv_setup : Inv config blockOf setup where
  lists := fun _ h => by cases h
  same := fun _ h => by cases h
  queued := fun _ h => by cases h
  workers := fun _ => trivial
  names := fun _ _ _ h => by cases h
  written := fun _ h => by cases h
  archived := fun _ _ h => by cases h

theorem Inv.archivesWhole (h : Inv config blockOf q) : ArchivesWhole config q := by
  intro shard hs iFile hn k hk
  obtain ⟨shard', hw, ho, hi⟩ := h.archived _ _ hn _ (h.lists shard hs).1
  obtain ⟨hd, _, _, hholds⟩ := h.written _ hw
  have hbyte := hholds k hk
  simp only [hi] at hbyte
  rw [hbyte, h.same shard' hd shard hs ho hi k hk]

theorem Inv.setWorker (h : Inv config blockOf q) (hpc : pc.Sound config blockOf q.dumped q.fs) :
    Inv config blockOf (q.setWorker w pc) := by
  refine ⟨h.lists, h.same, h.queued, fun v => ?_, h.names, h.written, h.archived⟩
  show (Function.update q.workers w pc v).Sound config blockOf q.dumped q.fs
  by_cases he : v = w
  · rw [he, Function.update_self]
    exact hpc
  · rw [Function.update_of_ne he]
    exact h.workers v

section Push

variable {task : TransTask}

theorem dumped_push (hp : q.push task = some q') :
    q'.dumped = (if task.type = .dump then task.desc else []) ++ q.dumped := by
  unfold TransQueue.push at hp
  split_ifs at hp
  obtain rfl := Option.some.inj hp
  by_cases ht : task.type = .dump <;> simp [dumped, ht]

theorem Worker.Sound.mono {dumped dumped' : List Shard} (h : pc.Sound config blockOf dumped fs)
    (hsub : dumped ⊆ dumped') : pc.Sound config blockOf dumped' fs := by
  cases pc with
  | check ios => exact fun ht => hsub (h ht)
  | opening ios => exact hsub h
  | writing ios iFile iAddr => exact ⟨hsub h.1, h.2⟩
  | _ => trivial

theorem WholeBlock.index_lt {desc : TaskDesc} (h : WholeBlock config desc) (hs : shard ∈ desc) :
    shard.index < config.nShardPerBlock :=
  List.mem_range.mp (h.2.mem_iff.mp (List.mem_map_of_mem hs))

theorem WholeBlock.sameBytes {desc : TaskDesc} (h : WholeBlock config desc) {s s' : Shard}
    (hs : s ∈ desc) (hs' : s' ∈ desc) : SameBytes config s s' := by
  intro _ hi k _
  have hnd : (desc.map Shard.index).Nodup := h.2.nodup_iff.mpr List.nodup_range
  rw [List.inj_on_of_nodup_map hnd hs hs' hi]

theorem Inv.push (h : Inv config blockOf q) (hg : Submits config q (.push task))
    (hp : q.push task = some q') : Inv config blockOf q' := by
  have hd := dumped_push hp
  have hsub : q.dumped ⊆ q'.dumped := fun s hs => by
    rw [hd]
    exact List.mem_append_right _ hs
  have hnew : ∀ s ∈ q'.dumped, s ∈ q.dumped ∨ (task.type = .dump ∧ s ∈ task.desc) := by
    intro s hs
    rw [hd] at hs
    by_cases ht : task.type = .dump <;> simp [ht] at hs ⊢ <;> tauto
  unfold TransQueue.push at hp
  split_ifs at hp
  obtain rfl := Option.some.inj hp
  refine ⟨fun s hs => ?_, fun s hs s' hs' => ?_, fun ios hios ht => ?_,
    fun w => Worker.Sound.mono (h.workers w) hsub, h.names, fun r hr => ?_, h.archived⟩
  · rcases hnew s hs with hs | ⟨ht, hs⟩
    · exact h.lists s hs
    · obtain ⟨b, hb⟩ := (hg ht).1.1
      exact ⟨(hg ht).1.index_lt hs, (hb s hs).2⟩
  · rcases hnew s hs with hs | ⟨ht, hs⟩ <;> rcases hnew s' hs' with hs' | ⟨ht', hs'⟩
    · exact h.same s hs s' hs'
    · exact fun ho hi k hk => ((hg ht').2 s' hs' s hs ho.symm hi.symm k hk).symm
    · exact (hg ht).2 s hs s' hs'
    · exact (hg ht).1.sameBytes hs hs'
  · rcases List.mem_append.mp hios with hios | hios
    · exact hsub (h.queued ios hios ht)
    · obtain ⟨s, hs, rfl⟩ := List.mem_map.mp hios
      have ht : task.type = .dump := ht
      rw [hd]
      simp [ht, hs]
  · obtain ⟨hr, hrest⟩ := h.written r hr
    exact ⟨hsub hr, hrest⟩

end Push

section Open

theorem byteAt_openCreate (fs : FileSystem) (path : Path) {i : Nat} (hi : i < fs.nFile) :
    (fs.openCreate path).2.files i = fs.files i := by
  unfold FileSystem.openCreate
  cases fs.names path with
  | some j => rfl
  | none => exact Function.update_of_ne (Nat.ne_of_lt hi) _ _

theorem nFile_openCreate (fs : FileSystem) (path : Path) : fs.nFile ≤ (fs.openCreate path).2.nFile := by
  unfold FileSystem.openCreate
  cases fs.names path <;> simp

/-- Opening the temporary file of a block names an old file of the block or a new one. -/
theorem Inv.openFile (h : Inv config blockOf q) (hs : ios.shard ∈ q.dumped) :
    ∃ blockOf', Inv config blockOf' (q.openFile config w ios true) := by
  have hsound : ∀ (f : Nat → BlockId), (∀ i < q.fs.nFile, f i = blockOf i) → ∀ pc : Worker,
      pc.Sound config blockOf q.dumped q.fs →
        pc.Sound config f q.dumped (q.fs.openCreate (path config ios true)).2 := by
    intro f hf pc hpc
    cases pc with
    | writing ios' i j =>
      obtain ⟨hd, hi, hb, hj, hh⟩ := hpc
      refine ⟨hd, Nat.lt_of_lt_of_le hi (nFile_openCreate _ _), (hf i hi).trans hb, hj, ?_⟩
      exact fun k hk => by rw [byteAt_openCreate _ _ hi]; exact hh k hk
    | check ios' => exact hpc
    | opening ios' => exact hpc
    | _ => trivial
  cases hn : q.fs.names (path config ios true) with
  | some iFile =>
    have ho : q.fs.openCreate (path config ios true) = (iFile, q.fs) := by
      simp [FileSystem.openCreate, hn]
    obtain ⟨hlt, hb⟩ := h.names _ _ _ hn
    refine ⟨blockOf, ?_⟩
    simp only [TransQueue.openFile, if_true, ho]
    exact h.setWorker ⟨hs, hlt, hb, Nat.zero_le _, fun k hk => absurd hk (by simp)⟩
  | none =>
    have ho : q.fs.openCreate (path config ios true) = (q.fs.nFile,
        { names := Function.update q.fs.names (path config ios true) (some q.fs.nFile)
          files := Function.update q.fs.files q.fs.nFile ⟨0, fun _ => 0⟩
          nFile := q.fs.nFile + 1 }) := by
      simp [FileSystem.openCreate, hn]
    have hf : ∀ i < q.fs.nFile, Function.update blockOf q.fs.nFile ios.shard.owner i = blockOf i :=
      fun i hi => Function.update_of_ne (Nat.ne_of_lt hi) _ _
    have hsound := hsound _ hf
    have hbyte := fun {i : Nat} (hi : i < q.fs.nFile) =>
      byteAt_openCreate q.fs (path config ios true) hi
    rw [ho] at hsound hbyte
    refine ⟨Function.update blockOf q.fs.nFile ios.shard.owner, ?_⟩
    simp only [TransQueue.openFile, if_true, ho]
    refine Inv.setWorker ⟨h.lists, h.same, h.queued, fun v => hsound _ (h.workers v),
      fun b a i hi => ?_, fun r hr => ?_, fun b i hi => ?_⟩
      ⟨hs, by simp, by simp, Nat.zero_le _, fun k hk => absurd hk (by simp)⟩
    · by_cases hp : config.layout.dataFilePath b a = path config ios true
      · have hbi := (config.layout.dataFilePath_inj.mp hp).1
        simp only [hp, Function.update_self, Option.some.injEq] at hi
        subst hi
        simp [hbi]
      · simp only [Function.update_of_ne hp] at hi
        obtain ⟨hlt, hb⟩ := h.names b a i hi
        exact ⟨Nat.lt_succ_of_lt hlt, (hf i hlt).trans hb⟩
    · obtain ⟨hd, hlt, hb, hh⟩ := h.written r hr
      refine ⟨hd, Nat.lt_succ_of_lt hlt, (hf _ hlt).trans hb, fun k hk => ?_⟩
      rw [hbyte hlt]
      exact hh k hk
    · have hp : config.layout.dataFilePath b false ≠ path config ios true := fun he =>
        absurd (config.layout.dataFilePath_inj.mp he).2 (by simp)
      simp only [Function.update_of_ne hp] at hi
      exact h.archived b i hi

end Open

section Pwrite

theorem File.byteAt_pwrite_inside {f : File} {offset n k : Nat} {buffer : Nat → UInt8}
    (h : offset ≤ k ∧ k < offset + n) :
    (f.pwrite offset n buffer).byteAt k = some (buffer (k - offset)) := by
  have hn : n ≠ 0 := by omega
  have hk : k < max f.size (offset + n) := lt_of_lt_of_le h.2 (le_max_right _ _)
  simp [File.pwrite, File.byteAt, hn, hk, h]

theorem File.byteAt_pwrite_outside {f : File} {offset n k : Nat} {buffer : Nat → UInt8} {x : UInt8}
    (h : ¬ (offset ≤ k ∧ k < offset + n)) (hx : f.byteAt k = some x) :
    (f.pwrite offset n buffer).byteAt k = some x := by
  unfold File.byteAt at hx
  split_ifs at hx with hk
  by_cases hn : n = 0
  · simp [File.pwrite, File.byteAt, hn, hk, Option.some.inj hx]
  · have hmax : k < max f.size (offset + n) := lt_of_lt_of_le hk (le_max_left _ _)
    simp [File.pwrite, File.byteAt, hn, hmax, h, hk, Option.some.inj hx]

variable {s : Shard} {addr : Addr} {i j m n : Nat}

theorem shardByte_addr (ha : s.addrs[j]? = some addr) (hm : m < config.tensorSize) :
    shardByte config s (config.tensorSize * j + m) = config.memory addr m := by
  have hpos : 0 < config.tensorSize := Nat.zero_lt_of_lt hm
  have hdiv : (config.tensorSize * j + m) / config.tensorSize = j := by
    rw [Nat.mul_add_div hpos, Nat.div_eq_of_lt hm, Nat.add_zero]
  rw [shardByte, hdiv, Nat.mul_add_mod, Nat.mod_eq_of_lt hm, List.getD_eq_getElem?_getD, ha, Option.getD_some]

theorem addr_end_le (hs : s.addrs.length * config.tensorSize = config.shardSize)
    (ha : s.addrs[j]? = some addr) :
    config.tensorSize * j + config.tensorSize ≤ config.shardSize := by
  obtain ⟨hj, _⟩ := List.getElem?_eq_some_iff.mp ha
  rw [← hs, Nat.mul_comm s.addrs.length, ← Nat.mul_succ]
  exact Nat.mul_le_mul_left _ hj

/-- Writing one address of a shard keeps what any shard of the block has in the file. -/
theorem Holds.pwrite (h : Holds config fs i shard m) (hm : m ≤ config.shardSize)
    (hs : s.addrs.length * config.tensorSize = config.shardSize)
    (ha : s.addrs[j]? = some addr) (hn : n ≤ config.tensorSize)
    (hsame : i = iFile → s.owner = shard.owner) (hbytes : SameBytes config s shard) :
    Holds config (fs.pwrite iFile (config.shardSize * s.index + config.tensorSize * j) n
      (config.memory addr)) i shard m := by
  intro k hk
  by_cases hi : i = iFile
  · subst hi
    have hend := addr_end_le hs ha
    simp only [FileSystem.pwrite, Function.update_self]
    by_cases hin : config.shardSize * s.index + config.tensorSize * j ≤
        config.shardSize * shard.index + k ∧ config.shardSize * shard.index + k <
          config.shardSize * s.index + config.tensorSize * j + n
    · rw [File.byteAt_pwrite_inside hin]
      obtain ⟨d, hd⟩ := Nat.exists_eq_add_of_le hin.1
      have hdn : d < n := by omega
      have hidx : s.index = shard.index := by
        have hl : (config.shardSize * shard.index + k) / config.shardSize = shard.index := by
          rw [Nat.mul_add_div (by omega), Nat.div_eq_of_lt (by omega), Nat.add_zero]
        rw [hd, Nat.add_assoc, Nat.mul_add_div (by omega), Nat.div_eq_of_lt (by omega),
          Nat.add_zero] at hl
        exact hl
      have hk' : k = config.tensorSize * j + d := by
        rw [hidx] at hd
        omega
      rw [hd, Nat.add_sub_cancel_left, ← hbytes (hsame rfl) hidx k (by omega), hk',
        shardByte_addr ha (by omega)]
    · exact File.byteAt_pwrite_outside hin (h k hk)
  · simp only [FileSystem.pwrite, Function.update_of_ne hi]
    exact h k hk

theorem Holds.extend (h : Holds config fs iFile s (config.tensorSize * j))
    (ha : s.addrs[j]? = some addr) :
    Holds config (fs.pwrite iFile (config.shardSize * s.index + config.tensorSize * j)
      config.tensorSize (config.memory addr)) iFile s (config.tensorSize * (j + 1)) := by
  intro k hk
  simp only [FileSystem.pwrite, Function.update_self]
  rw [Nat.mul_succ] at hk
  by_cases hj : config.tensorSize * j ≤ k
  · obtain ⟨d, rfl⟩ := Nat.exists_eq_add_of_le hj
    rw [File.byteAt_pwrite_inside (by omega), shardByte_addr ha (by omega)]
    congr 2
    omega
  · exact File.byteAt_pwrite_outside (by omega) (h k (by omega))

theorem sound_afterH2S (success : Bool) :
    (afterH2S config ios success).Sound config blockOf q.dumped q.fs := by
  unfold afterH2S
  split_ifs <;> trivial

/-- A change to the files that keeps what the shards of a file's block have in it. -/
theorem Inv.withFs (h : Inv config blockOf q) (fs : FileSystem) (hnames : fs.names = q.fs.names)
    (hn : fs.nFile = q.fs.nFile) (hkeep : ∀ i s m, Holds config q.fs i s m → m ≤ config.shardSize →
      s ∈ q.dumped → blockOf i = s.owner → Holds config fs i s m) :
    Inv config blockOf { q with fs := fs } := by
  refine ⟨h.lists, h.same, h.queued, fun v => ?_, fun b a i hi => ?_, fun r hr => ?_,
    fun b i hi => ?_⟩
  · have hv := h.workers v
    show (q.workers v).Sound config blockOf q.dumped fs
    cases hpc : q.workers v with
    | writing ios' i j =>
      rw [hpc] at hv
      obtain ⟨hd, hlt, hb, hj, hh⟩ := hv
      refine ⟨hd, hn ▸ hlt, hb, hj, hkeep _ _ _ hh ?_ hd hb⟩
      rw [← (h.lists _ hd).2, Nat.mul_comm]
      exact Nat.mul_le_mul_right _ hj
    | check ios' =>
      rw [hpc] at hv
      exact hv
    | opening ios' =>
      rw [hpc] at hv
      exact hv
    | _ => trivial
  · simp only [hnames, hn] at hi ⊢
    exact h.names b a i hi
  · obtain ⟨hd, hlt, hb, hh⟩ := h.written r hr
    exact ⟨hd, hn ▸ hlt, hb, hkeep _ _ _ hh le_rfl hd hb⟩
  · simp only [hnames] at hi
    exact h.archived b i hi

theorem Inv.writeAddr {iAddr nBytes : Nat} (h : Inv config blockOf q)
    (hw : q.workers w = .writing ios iFile iAddr) :
    Inv config blockOf (q.writeAddr config w ios iFile iAddr nBytes) := by
  have hsound := h.workers w
  rw [hw] at hsound
  obtain ⟨hd, hlt, hb, hj, hh⟩ := hsound
  have hlen := (h.lists _ hd).2
  unfold TransQueue.writeAddr
  cases ha : ios.shard.addrs[iAddr]? with
  | none =>
    refine Inv.setWorker ⟨h.lists, h.same, h.queued, h.workers, h.names, fun r hr => ?_,
      fun b i hi x hx => ?_⟩ (sound_afterH2S true)
    · rcases List.mem_cons.mp hr with rfl | hr
      · refine ⟨hd, hlt, hb, ?_⟩
        rw [List.getElem?_eq_none_iff] at ha
        rwa [Nat.le_antisymm hj ha, Nat.mul_comm, hlen] at hh
      · exact h.written r hr
    · obtain ⟨shard, hm, hs⟩ := h.archived b i hi x hx
      exact ⟨shard, List.mem_cons_of_mem _ hm, hs⟩
  | some addr =>
    have hn : min nBytes config.tensorSize ≤ config.tensorSize := min_le_right _ _
    have hinv := h.withFs (q.fs.pwrite iFile (config.shardSize * ios.shard.index +
        config.tensorSize * iAddr) (min nBytes config.tensorSize) (config.memory addr)) rfl rfl
      fun i s m hs hm hsd hbs => hs.pwrite hm hlen ha hn (fun he => by rw [← hb, ← hbs, he])
        (h.same _ hd s hsd)
    simp only
    split_ifs with hfull
    · refine hinv.setWorker ⟨hd, hlt, hb, (List.getElem?_eq_some_iff.mp ha).1, ?_⟩
      rw [hfull]
      exact hh.extend ha
    · exact hinv.setWorker (sound_afterH2S false)

end Pwrite

section Commit

theorem Inv.remove (h : Inv config blockOf q) (b : BlockId) :
    Inv config blockOf { q with fs := q.fs.remove (config.layout.dataFilePath b true) } := by
  have hnames : ∀ b' a i, (q.fs.remove (config.layout.dataFilePath b true)).names
      (config.layout.dataFilePath b' a) = some i →
        q.fs.names (config.layout.dataFilePath b' a) = some i := by
    intro b' a i hi
    by_cases hp : config.layout.dataFilePath b' a = config.layout.dataFilePath b true
    · simp [FileSystem.remove, hp] at hi
    · simpa [FileSystem.remove, hp] using hi
  exact ⟨h.lists, h.same, h.queued, h.workers, fun b' a i hi => h.names b' a i (hnames b' a i hi),
    h.written, fun b' i hi => h.archived b' i (hnames b' false i hi)⟩

theorem Inv.rename (h : Inv config blockOf q) {b : BlockId}
    (hr : q.fs.rename (config.layout.dataFilePath b true) (config.layout.dataFilePath b false) =
      some fs)
    (hall : ∀ iFile, q.fs.names (config.layout.dataFilePath b true) = some iFile →
      ∀ i < config.nShardPerBlock, ∃ shard, (iFile, shard) ∈ q.written ∧ shard.owner = b ∧
        shard.index = i) :
    Inv config blockOf { q with fs := fs } := by
  obtain ⟨iFile, hn, rfl⟩ := Option.map_eq_some_iff.mp hr
  have hnames : ∀ b' a i, Function.update (Function.update q.fs.names
      (config.layout.dataFilePath b true) none) (config.layout.dataFilePath b false) (some iFile)
        (config.layout.dataFilePath b' a) = some i →
      (b' = b ∧ i = iFile) ∨ q.fs.names (config.layout.dataFilePath b' a) = some i := by
    intro b' a i hi
    by_cases hp : config.layout.dataFilePath b' a = config.layout.dataFilePath b false
    · rw [hp, Function.update_self] at hi
      exact Or.inl ⟨(config.layout.dataFilePath_inj.mp hp).1, (Option.some.inj hi).symm⟩
    · rw [Function.update_of_ne hp] at hi
      by_cases hp' : config.layout.dataFilePath b' a = config.layout.dataFilePath b true
      · rw [hp', Function.update_self] at hi
        cases hi
      · rw [Function.update_of_ne hp'] at hi
        exact Or.inr hi
  refine ⟨h.lists, h.same, h.queued, h.workers, fun b' a i hi => ?_, h.written, fun b' i hi => ?_⟩
  · rcases hnames b' a i hi with ⟨rfl, rfl⟩ | hi
    · exact h.names _ _ _ hn
    · exact h.names b' a i hi
  · rcases hnames b' false i hi with ⟨rfl, rfl⟩ | hi
    · exact hall _ hn
    · exact h.archived b' i hi

theorem Inv.commitFile {success renamed : Bool} (h : Inv config blockOf q)
    (hw : q.workers w = .committing ios success)
    (hg : CommitsWhole config q (.commit w renamed)) :
    Inv config blockOf (q.commitFile config w ios success renamed) := by
  unfold TransQueue.commitFile
  split_ifs with hc
  · obtain ⟨rfl, rfl⟩ : success = true ∧ renamed = true := by simpa using hc
    split
    · rename_i fs' hr
      exact (h.rename hr fun iFile hn => hg ios iFile hw hn).setWorker trivial
    · exact h.setWorker trivial
  · exact h.setWorker trivial

end Commit

/-- What a step keeps when its submission is of whole blocks and its rename leaves
no shard behind. -/
theorem Inv.step {e : Event} (h : Inv config blockOf q) (hs : Submits config q e)
    (hc : CommitsWhole config q e) (hstep : q.step config e = some q') :
    ∃ blockOf', Inv config blockOf' q' := by
  cases e with
  | push task => exact ⟨blockOf, h.push hs hstep⟩
  | pop w =>
    simp only [TransQueue.step] at hstep
    split at hstep
    · rename_i ios taskQ hw hq
      split_ifs at hstep
      obtain rfl := Option.some.inj hstep
      have hmem : ∀ ios' ∈ taskQ, ios' ∈ q.taskQ := fun ios' hios => by simp [hq, hios]
      refine ⟨blockOf, Inv.setWorker ⟨h.lists, h.same, fun ios' hios => h.queued ios' (hmem ios' hios),
        h.workers, h.names, h.written, h.archived⟩ ?_⟩
      exact h.queued ios (by simp [hq])
    · cases hstep
  | check w =>
    simp only [TransQueue.step] at hstep
    split at hstep
    · rename_i ios hw
      obtain rfl := Option.some.inj hstep
      have hsound := h.workers w
      rw [hw] at hsound
      unfold TransQueue.check
      split_ifs
      · exact ⟨blockOf, Inv.setWorker ⟨h.lists, h.same, h.queued, h.workers, h.names, h.written,
          h.archived⟩ trivial⟩
      · refine ⟨blockOf, h.setWorker ?_⟩
        cases ht : ios.type with
        | dump => exact hsound ht
        | load => trivial
    · cases hstep
  | openFile w success =>
    simp only [TransQueue.step] at hstep
    split at hstep
    · rename_i ios hw
      obtain rfl := Option.some.inj hstep
      have hsound := h.workers w
      rw [hw] at hsound
      cases success with
      | true => exact h.openFile hsound
      | false => exact ⟨blockOf, h.setWorker (sound_afterH2S false)⟩
    · cases hstep
  | pwrite w nBytes =>
    simp only [TransQueue.step] at hstep
    split at hstep
    · rename_i ios iFile iAddr hw
      obtain rfl := Option.some.inj hstep
      exact ⟨blockOf, h.writeAddr hw⟩
    · cases hstep
  | commit w renamed =>
    simp only [TransQueue.step] at hstep
    split at hstep
    · rename_i ios success hw
      obtain rfl := Option.some.inj hstep
      exact ⟨blockOf, h.commitFile hw hc⟩
    · cases hstep
  | remove w =>
    simp only [TransQueue.step] at hstep
    split at hstep
    · obtain rfl := Option.some.inj hstep
      exact ⟨blockOf, (h.remove _).setWorker trivial⟩
    · cases hstep
  | read w success =>
    simp only [TransQueue.step] at hstep
    split at hstep
    · obtain rfl := Option.some.inj hstep
      exact ⟨blockOf, h.setWorker trivial⟩
    · cases hstep
  | finish w =>
    simp only [TransQueue.step] at hstep
    split at hstep
    · obtain ⟨failureSet, _, rfl⟩ := Option.map_eq_some_iff.mp hstep
      exact ⟨blockOf, Inv.setWorker ⟨h.lists, h.same, h.queued, h.workers, h.names, h.written,
        h.archived⟩ trivial⟩
    · cases hstep
  | timeout id =>
    obtain ⟨failureSet, _, rfl⟩ := Option.map_eq_some_iff.mp hstep
    exact ⟨blockOf, h.lists, h.same, h.queued, h.workers, h.names, h.written, h.archived⟩
  | waited id =>
    simp only [TransQueue.step] at hstep
    split_ifs at hstep
    obtain rfl := Option.some.inj hstep
    exact ⟨blockOf, h.lists, h.same, h.queued, h.workers, h.names, h.written, h.archived⟩

/-- In every run whose renames leave no shard behind, an archived file holds its
whole block in every state. -/
theorem archivesWhole_of_commitsWhole
    (h : StepSystem.Reach (step config) (fun q e => Submits config q e ∧ CommitsWhole config q e)
      setup q) : ArchivesWhole config q := by
  obtain ⟨blockOf, hinv⟩ : ∃ blockOf, Inv config blockOf q :=
    h.invariant (fun q => ∃ blockOf, Inv config blockOf q)
      ⟨fun _ => Vector.replicate 16 0, inv_setup⟩
      fun q e q' ⟨_, hi⟩ hg hs => hi.step hg.1 hg.2 hs
  exact hinv.archivesWhole

def twoShards : Config where
  layout := ⟨[['/']], 3, fun _ => 0⟩
  tensorSize := 1
  shardSize := 1
  blockSize := 2
  dataTransConcurrency := 2
  memory := fun _ _ => 1
  taskIdHasher := id

def dumpTwoShards : TransTask :=
  ⟨1, .dump, [⟨Vector.replicate 16 0, 0, [0]⟩, ⟨Vector.replicate 16 0, 1, [0]⟩]⟩

theorem submits_dumpTwoShards : Submits twoShards setup (.push dumpTwoShards) := by
  intro _
  refine ⟨⟨⟨Vector.replicate 16 0, by decide⟩, List.Perm.refl _⟩, fun _ _ shard' hs => ?_⟩
  cases hs

/-- One worker writes both shards in order. -/
def writeInOrder : List Event :=
  [.pop 0, .check 0, .openFile 0 true, .pwrite 0 1, .pwrite 0 1, .finish 0,
    .pop 0, .check 0, .openFile 0 true, .pwrite 0 1, .pwrite 0 1]

theorem archivesWhole_writeInOrder : ∃ q₁ q, StepSystem.run (step twoShards) setup
    (.push dumpTwoShards :: writeInOrder) = some q₁ ∧
      step twoShards q₁ (.commit 0 true) = some q ∧ ArchivesWhole twoShards q := by
  obtain ⟨q₀, hq₀⟩ : ∃ q, step twoShards setup (.push dumpTwoShards) = some q := ⟨_, rfl⟩
  obtain ⟨q₁, hq₁⟩ : ∃ q, StepSystem.run (step twoShards) q₀ writeInOrder = some q := by
    obtain rfl := Option.some.inj hq₀
    exact Option.isSome_iff_exists.mp (by decide)
  have hrun : StepSystem.run (step twoShards) setup (.push dumpTwoShards :: writeInOrder) = some q₁ := by
    rw [StepSystem.run, hq₀, Option.bind_some, hq₁]
  have hend : (StepSystem.run (step twoShards) setup (.push dumpTwoShards :: writeInOrder)).map
      (fun q => (q.workers 0, q.fs.names (twoShards.layout.dataFilePath (Vector.replicate 16 0) true),
        q.written)) = some (.committing ⟨1, .dump, ⟨Vector.replicate 16 0, 1, [0]⟩⟩ true, some 0,
          [(0, ⟨Vector.replicate 16 0, 1, [0]⟩), (0, ⟨Vector.replicate 16 0, 0, [0]⟩)]) := by decide
  rw [hrun] at hend
  simp only [Option.map_some, Option.some.injEq, Prod.mk.injEq] at hend
  obtain ⟨hw, hname, hwritten⟩ := hend
  obtain ⟨q, hq⟩ : ∃ q, step twoShards q₁ (.commit 0 true) = some q := by simp [step, hw]
  have hreach : StepSystem.Reach (step twoShards)
      (fun q e => Submits twoShards q e ∧ CommitsWhole twoShards q e) setup q₁ :=
    (StepSystem.Reach.start.next ⟨submits_dumpTwoShards, trivial⟩ hq₀).run
      (fun s e he => by fin_cases he <;> exact ⟨trivial, trivial⟩) hq₁
  refine ⟨q₁, q, hrun, hq, archivesWhole_of_commitsWhole (hreach.next (e := .commit 0 true) ⟨trivial, ?_⟩ hq)⟩
  intro ios iFile hios hn i hi
  rw [hw] at hios
  obtain ⟨rfl, _⟩ := Worker.committing.inj hios
  obtain rfl : 0 = iFile := Option.some.inj (hname.symm.trans hn)
  rw [hwritten]
  have hi : i < 2 := hi
  interval_cases i
  · exact ⟨⟨Vector.replicate 16 0, 0, [0]⟩, by simp, rfl, rfl⟩
  · exact ⟨⟨Vector.replicate 16 0, 1, [0]⟩, by simp, rfl, rfl⟩

/-- The second worker writes its shard and commits before the first has opened the file. -/
def earlyCommit : List Event :=
  [.pop 0, .pop 1, .check 1, .openFile 1 true, .pwrite 1 1, .pwrite 1 0, .commit 1 true]

/-- The first byte of the archived file is the zero of a hole, not the byte of the first shard. -/
theorem not_archivesWhole_earlyCommit : ¬ ∀ (config : Config) (q : TransQueue), config.Accepted →
    StepSystem.Reach (step config) (Submits config) setup q → ArchivesWhole config q := by
  intro hall
  obtain ⟨q₁, hq₁⟩ : ∃ q, step twoShards setup (.push dumpTwoShards) = some q := ⟨_, rfl⟩
  obtain ⟨q, hq⟩ : ∃ q, StepSystem.run (step twoShards) q₁ earlyCommit = some q := by
    obtain rfl := Option.some.inj hq₁
    exact ⟨_, rfl⟩
  have hreach : StepSystem.Reach (step twoShards) (Submits twoShards) setup q :=
    (StepSystem.Reach.start.next submits_dumpTwoShards hq₁).run
      (fun s e he => by fin_cases he <;> trivial) hq
  have hend : (StepSystem.run (step twoShards) setup (.push dumpTwoShards :: earlyCommit)).map
      (fun q => (q.dumped, q.fs.names (twoShards.layout.dataFilePath (Vector.replicate 16 0) false),
        (q.fs.files 0).byteAt 0)) = some (dumpTwoShards.desc, some 0, some 0) := by decide
  rw [StepSystem.run, hq₁, Option.bind_some, hq] at hend
  simp only [Option.map_some, Option.some.injEq, Prod.mk.injEq] at hend
  obtain ⟨hdumped, hname, hbyte⟩ := hend
  have hwhole := hall twoShards q (by simp [Config.Accepted, twoShards]) hreach
    ⟨Vector.replicate 16 0, 0, [0]⟩ (by rw [hdumped]; decide) 0 hname 0 (by decide)
  rw [Nat.mul_zero, Nat.add_zero, hbyte] at hwhole
  exact absurd hwhole (by decide)

end TransQueue

end UnifiedCache.PosixStore
