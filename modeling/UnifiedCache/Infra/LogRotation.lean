import UnifiedCache.Lib.StepSystem

/-! The log sink that renames its file when it gets too large, compresses what it has renamed and
removes the oldest compressed files. Others use the same directory. -/

namespace UnifiedCache.Infra.LogRotation

open StepSystem

abbrev Filename := List Char

/-- What the constructor admits. `basename` and `ext` are what `split_by_extension` makes of `base_filename_`. -/
structure Config where
  basename : Filename
  ext : Filename
  maxSize : Nat
  maxFiles : Nat
  maxSize_ne_zero : maxSize ≠ 0
  maxFiles_le : maxFiles ≤ 200000

/-- A reading of the clock as `time_str_with_ms`. -/
structure TimeStr where
  text : List Char
  length_eq : text.length = 23

def Config.baseFilename (cfg : Config) : Filename := cfg.basename ++ cfg.ext

def Config.target (cfg : Config) (time : TimeStr) : Filename := cfg.basename ++ '_' :: (time.text ++ cfg.ext)

def gz (file : Filename) : Filename := file ++ ['.', 'g', 'z']

/-- Where a call of `sink_it_` is: in the loop of `rotate_`, or in `compress_`, with `src_path` and the
size of its message. -/
inductive Phase where
  | idle
  | trimming (srcPath : Filename) (formatted : Nat)
  | compressing (srcPath : Filename) (formatted : Nat)
deriving DecidableEq

def Phase.srcPath : Phase → Filename
  | .idle => []
  | .trimming srcPath _ => srcPath
  | .compressing srcPath _ => srcPath

/-- `rotated` are the files on the disk that this sink has renamed or compressed, `turns` those of the
loop in the last call of `rotate_`. -/
structure Sink where
  compressedFiles : List Filename
  currentSize : Nat
  phase : Phase
  turns : Nat
  disk : Finset Filename
  rotated : Finset Filename

inductive RenameEnd where
  | done
  | failed (reopened : Bool)
deriving DecidableEq

/-- What a rotation meets: the clock, whether `remove` takes away what has the target's name, and the renaming. -/
structure Rotation where
  time : TimeStr
  removed : Bool
  renamed : RenameEnd

inductive CompressEnd where
  | sourceNotOpen
  | destNotOpen
  | writeFailed
  | done (removed : Bool)
deriving DecidableEq

inductive Event where
  | sinkIt (formatted fileSize : Nat) (written : Bool) (rotation : Rotation)
  /-- A turn of the loop over the files to remove. -/
  | turn (removed : Bool)
  /-- The loop has ended. -/
  | reopen (opened : Bool)
  | compress (result : CompressEnd) (written : Bool)
  | outsideRemove (file : Filename)
  | outsideCreate (file : Filename)

namespace Sink

variable (cfg : Config) (s : Sink)

def init (currentSize : Nat) (disk : Finset Filename) : Sink :=
  ⟨[], currentSize, .idle, 0, insert cfg.baseFilename disk, ∅⟩

def remove (file : Filename) : Sink := { s with disk := s.disk.erase file, rotated := s.rotated.erase file }

/-- A write that throws leaves the size as it was. -/
def write (newSize : Nat) (written : Bool) : Sink :=
  { s with phase := .idle, currentSize := if written then newSize else s.currentSize }

/-- `rotate_` up to its loop. -/
def rotate (formatted : Nat) (rotation : Rotation) : Sink :=
  if cfg.baseFilename ∈ s.disk then
    let target := cfg.target rotation.time
    let s := if rotation.removed then s.remove target else s
    match rotation.renamed with
    | .failed reopened =>
      { s with
        phase := .idle
        turns := 0
        currentSize := if reopened then 0 else s.currentSize }
    | .done =>
      { s with
        compressedFiles := s.compressedFiles ++ [target]
        phase := .trimming target formatted
        turns := 0
        disk := insert target (s.disk.erase cfg.baseFilename)
        rotated := insert target s.rotated }
  else { s with phase := .trimming [] formatted, turns := 0 }

/-- The constructor, with what its rotation meets. -/
def construct (rotateOnOpen : Bool) (currentSize : Nat) (disk : Finset Filename) (rotation : Rotation) : Sink :=
  if rotateOnOpen && currentSize > 0 then (init cfg currentSize disk).rotate cfg 0 rotation
  else init cfg currentSize disk

/-- Whether `sink_it_` rotates. -/
def Rotates (formatted fileSize : Nat) : Prop := s.currentSize + formatted > cfg.maxSize ∧ fileSize > 0

instance (formatted fileSize : Nat) : Decidable (Rotates cfg s formatted fileSize) :=
  inferInstanceAs (Decidable (_ ∧ _))

def trim (removed : Bool) : List Filename → Sink
  | [] => s
  | front :: rest =>
    if gz front ∈ s.disk then
      { (if removed then s.remove (gz front) else s) with compressedFiles := rest, turns := s.turns + 1 }
    else { s with turns := s.turns + 1 }

/-- Whether a file can be read. None has the empty name, which `src_path` has where nothing was renamed. -/
def IsOpen (srcPath : Filename) : Prop := srcPath ≠ [] ∧ srcPath ∈ s.disk

instance (srcPath : Filename) : Decidable (IsOpen s srcPath) := inferInstanceAs (Decidable (_ ∧ _))

/-- `compress_` and the rest of the call. -/
def compress (srcPath : Filename) (formatted : Nat) (result : CompressEnd) (written : Bool) : Option Sink :=
  if cfg.maxFiles = 0 then some (s.write formatted written)
  else
    match result with
    | .sourceNotOpen => some { s with phase := .idle }
    | .destNotOpen => if s.IsOpen srcPath then some { s with phase := .idle } else none
    | .writeFailed =>
      if s.IsOpen srcPath then
        some { s with
          phase := .idle
          disk := insert (gz srcPath) s.disk
          rotated := insert (gz srcPath) s.rotated }
      else none
    | .done removed =>
      if s.IsOpen srcPath then
        let s := { s with disk := insert (gz srcPath) s.disk, rotated := insert (gz srcPath) s.rotated }
        some ((if removed then s.remove srcPath else s).write formatted written)
      else none

def step : Event → Option Sink
  | .sinkIt formatted fileSize written rotation =>
    if s.phase = .idle then
      some (if s.Rotates cfg formatted fileSize then s.rotate cfg formatted rotation
        else s.write (s.currentSize + formatted) written)
    else none
  | .turn removed =>
    match s.phase with
    | .trimming _ _ =>
      if s.compressedFiles.length > cfg.maxFiles then some (s.trim removed s.compressedFiles) else none
    | _ => none
  | .reopen opened =>
    match s.phase with
    | .trimming srcPath formatted =>
      if s.compressedFiles.length > cfg.maxFiles then none
      else if opened then
        some { s with phase := .compressing srcPath formatted, disk := insert cfg.baseFilename s.disk }
      else some { s with phase := .idle }
    | _ => none
  | .compress result written =>
    match s.phase with
    | .compressing srcPath formatted => s.compress cfg srcPath formatted result written
    | _ => none
  | .outsideRemove file => some (s.remove file)
  | .outsideCreate file => some { s with disk := insert file s.disk }

/-- The loop makes a bounded number of turns in every call. -/
def Terminates (guard : Sink → Event → Prop) : Prop :=
  ∃ n, ∀ t, Reach (step cfg) guard s t → t.turns ≤ n

/-- After the loop no more than `max_files_` names are tracked and files on the disk. -/
def Bounded : Prop :=
  (∀ srcPath formatted, s.phase ≠ .trimming srcPath formatted) →
    s.compressedFiles.length ≤ cfg.maxFiles ∧ s.rotated.card ≤ cfg.maxFiles

/-- The tracked names alone keep their bound in every run, whatever fails. -/
def TracksFew (cfg : Config) (s : Sink) : Prop :=
  (∀ srcPath formatted, s.phase ≠ .trimming srcPath formatted) → s.compressedFiles.length ≤ cfg.maxFiles

/-- The names are new, the removals, the reopening and the compression of a renamed file succeed, and
others leave the compressed files alone that the sink still needs. -/
def Healthy : Event → Prop
  | .sinkIt formatted fileSize _ rotation =>
    s.Rotates cfg formatted fileSize → cfg.target rotation.time ∉ s.compressedFiles
  | .turn removed => removed = true
  | .reopen opened => opened = true
  | .compress result _ =>
    ∀ srcPath formatted, s.phase = .compressing srcPath formatted → srcPath ≠ [] → result = .done true
  | .outsideRemove file => file ∉ s.compressedFiles.map gz
  | .outsideCreate _ => True

section Names

variable {cfg : Config} {time time' : TimeStr} {file file' : Filename}

theorem gz_inj : gz file = gz file' ↔ file = file' := List.append_left_inj _

theorem length_target : (cfg.target time).length = cfg.baseFilename.length + 24 := by
  simp only [Config.target, Config.baseFilename, List.length_append, List.length_cons, time.length_eq]
  omega

theorem length_gz : (gz file).length = file.length + 3 := List.length_append

theorem target_ne_gz : cfg.target time ≠ gz (cfg.target time') := by
  intro h
  have hlength := congrArg List.length h
  rw [length_gz, length_target, length_target] at hlength
  omega

theorem gz_target_ne_base : gz (cfg.target time) ≠ cfg.baseFilename := by
  intro h
  have hlength := congrArg List.length h
  rw [length_gz, length_target] at hlength
  omega

theorem target_ne_nil : cfg.target time ≠ [] := by
  intro h
  have hlength := congrArg List.length h
  rw [length_target, List.length_nil] at hlength
  omega

end Names

section Steps

variable {cfg : Config} {s t : Sink}

theorem step_turn {removed : Bool} (ht : s.step cfg (.turn removed) = some t) :
    ∃ srcPath formatted, s.phase = .trimming srcPath formatted ∧ s.compressedFiles.length > cfg.maxFiles ∧
      t = s.trim removed s.compressedFiles := by
  unfold step at ht
  cases hphase : s.phase with
  | idle => simp [hphase] at ht
  | compressing srcPath formatted => simp [hphase] at ht
  | trimming srcPath formatted =>
    simp only [hphase] at ht
    split_ifs at ht with hlong
    exact ⟨srcPath, formatted, rfl, hlong, (Option.some.inj ht).symm⟩

theorem step_reopen {opened : Bool} (ht : s.step cfg (.reopen opened) = some t) :
    ∃ srcPath formatted, s.phase = .trimming srcPath formatted ∧ s.compressedFiles.length ≤ cfg.maxFiles ∧
      t = if opened then { s with phase := .compressing srcPath formatted, disk := insert cfg.baseFilename s.disk }
        else { s with phase := .idle } := by
  unfold step at ht
  cases hphase : s.phase with
  | idle => simp [hphase] at ht
  | compressing srcPath formatted => simp [hphase] at ht
  | trimming srcPath formatted =>
    simp only [hphase] at ht
    split_ifs at ht with hlong hopened
    · exact ⟨srcPath, formatted, rfl, Nat.le_of_not_lt hlong, by rw [if_pos hopened, Option.some.inj ht]⟩
    · exact ⟨srcPath, formatted, rfl, Nat.le_of_not_lt hlong, by rw [if_neg hopened, Option.some.inj ht]⟩

theorem step_compress {result : CompressEnd} {written : Bool} (ht : s.step cfg (.compress result written) = some t) :
    ∃ srcPath formatted, s.phase = .compressing srcPath formatted ∧
      s.compress cfg srcPath formatted result written = some t := by
  unfold step at ht
  cases hphase : s.phase with
  | idle => simp [hphase] at ht
  | trimming srcPath formatted => simp [hphase] at ht
  | compressing srcPath formatted =>
    simp only [hphase] at ht
    exact ⟨srcPath, formatted, rfl, ht⟩

theorem phase_trim (removed : Bool) (files : List Filename) : (s.trim removed files).phase = s.phase := by
  cases files with
  | nil => rfl
  | cons front rest =>
    rw [trim]
    split_ifs <;> rfl

end Steps

/-- A tracked name, with the file that is there for it while `src_path` waits for its compression. -/
def onDisk (srcPath file : Filename) : Filename := if file = srcPath then file else gz file

section Healthy

variable {cfg : Config} {s t : Sink} {e : Event}

/-- What healthy steps keep. -/
structure Kept (cfg : Config) (s : Sink) : Prop where
  nodup : s.compressedFiles.Nodup
  named : ∀ file ∈ s.compressedFiles, ∃ time, file = cfg.target time
  compressed : ∀ file ∈ s.compressedFiles, file ≠ s.phase.srcPath → gz file ∈ s.disk
  rotated : ∀ file ∈ s.rotated, ∃ tracked ∈ s.compressedFiles, file = onDisk s.phase.srcPath tracked
  last : s.phase.srcPath ≠ [] → ∃ older, s.compressedFiles = older ++ [s.phase.srcPath]
  turns : s.turns ≤ 1
  loop : s.turns + s.compressedFiles.length ≤ cfg.maxFiles + 1
  short : (∀ srcPath formatted, s.phase ≠ .trimming srcPath formatted) → s.compressedFiles.length ≤ cfg.maxFiles

theorem kept_init (currentSize : Nat) (disk : Finset Filename) : Kept cfg (init cfg currentSize disk) where
  nodup := List.nodup_nil
  named _ h := absurd h List.not_mem_nil
  compressed _ h := absurd h List.not_mem_nil
  rotated _ h := absurd h (Finset.notMem_empty _)
  last h := absurd rfl h
  turns := Nat.zero_le _
  loop := Nat.zero_le _
  short _ := Nat.zero_le _

theorem Kept.bounded (h : Kept cfg s) : s.Bounded cfg := by
  intro hphase
  refine ⟨h.short hphase, ?_⟩
  have hsub : s.rotated ⊆ (s.compressedFiles.map (onDisk s.phase.srcPath)).toFinset := by
    intro file hfile
    obtain ⟨tracked, htracked, rfl⟩ := h.rotated file hfile
    exact List.mem_toFinset.mpr (List.mem_map_of_mem htracked)
  calc s.rotated.card ≤ (s.compressedFiles.map (onDisk s.phase.srcPath)).toFinset.card := Finset.card_le_card hsub
    _ ≤ (s.compressedFiles.map (onDisk s.phase.srcPath)).length := List.toFinset_card_le _
    _ = s.compressedFiles.length := List.length_map _
    _ ≤ cfg.maxFiles := h.short hphase

theorem Kept.nil_notMem (h : Kept cfg s) : [] ∉ s.compressedFiles := by
  intro hnil
  obtain ⟨time, heq⟩ := h.named [] hnil
  exact target_ne_nil heq.symm

/-- A file that is the compressed file of no tracked name can be removed. -/
theorem Kept.remove (h : Kept cfg s) {file : Filename} (hfile : file ∉ s.compressedFiles.map gz) :
    Kept cfg (s.remove file) := by
  constructor
  case nodup => exact h.nodup
  case named => exact h.named
  case compressed =>
    intro tracked htracked hne
    refine Finset.mem_erase.mpr ⟨?_, h.compressed tracked htracked hne⟩
    exact fun heq => hfile (heq ▸ List.mem_map_of_mem htracked)
  case rotated => exact fun f hf => h.rotated f (Finset.mem_of_mem_erase hf)
  case last => exact h.last
  case turns => exact h.turns
  case loop => exact h.loop
  case short => exact h.short

theorem Kept.create (h : Kept cfg s) (file : Filename) : Kept cfg { s with disk := insert file s.disk } :=
  ⟨h.nodup, h.named, fun f hf hne => Finset.mem_insert_of_mem (h.compressed f hf hne), h.rotated, h.last, h.turns,
    h.loop, h.short⟩

/-- Nothing is left to compress at the end of a call. -/
theorem Kept.idle (h : Kept cfg s) (hsrc : s.phase.srcPath ∉ s.compressedFiles)
    (hshort : s.compressedFiles.length ≤ cfg.maxFiles) (currentSize : Nat) :
    Kept cfg { s with phase := .idle, currentSize := currentSize } := by
  constructor
  case nodup => exact h.nodup
  case named => exact h.named
  case compressed => exact fun file hfile _ => h.compressed file hfile fun heq => hsrc (heq ▸ hfile)
  case rotated =>
    intro file hfile
    obtain ⟨tracked, htracked, rfl⟩ := h.rotated file hfile
    refine ⟨tracked, htracked, ?_⟩
    have hnil : tracked ≠ [] := fun heq => h.nil_notMem (heq ▸ htracked)
    have hne : tracked ≠ s.phase.srcPath := fun heq => hsrc (heq ▸ htracked)
    exact (if_neg hne).trans (if_neg hnil).symm
  case last => exact fun hsome => absurd rfl hsome
  case turns => exact h.turns
  case loop => exact h.loop
  case short => exact fun _ => hshort

theorem Kept.rename (h : Kept cfg s) (hphase : s.phase = .idle) {time : TimeStr} (formatted : Nat)
    (hnew : cfg.target time ∉ s.compressedFiles) :
    Kept cfg { s with
      compressedFiles := s.compressedFiles ++ [cfg.target time]
      phase := .trimming (cfg.target time) formatted
      turns := 0
      disk := insert (cfg.target time) (s.disk.erase cfg.baseFilename)
      rotated := insert (cfg.target time) s.rotated } := by
  have hshort := h.short fun _ _ heq => by rw [hphase] at heq; cases heq
  constructor
  case nodup => exact h.nodup.append (List.nodup_singleton _) (List.disjoint_singleton.mpr hnew)
  case named =>
    intro file hfile
    rcases List.mem_append.mp hfile with hfile | hfile
    · exact h.named file hfile
    · exact ⟨time, List.mem_singleton.mp hfile⟩
  case compressed =>
    intro file hfile hne
    rcases List.mem_append.mp hfile with hfile | hfile
    · obtain ⟨time', rfl⟩ := h.named file hfile
      refine Finset.mem_insert_of_mem (Finset.mem_erase.mpr ⟨gz_target_ne_base, h.compressed _ hfile ?_⟩)
      rw [hphase]
      exact target_ne_nil
    · exact absurd (List.mem_singleton.mp hfile) hne
  case rotated =>
    intro file hfile
    rcases Finset.mem_insert.mp hfile with rfl | hfile
    · exact ⟨cfg.target time, List.mem_append_right _ (List.mem_singleton_self _), (if_pos rfl).symm⟩
    · obtain ⟨tracked, htracked, rfl⟩ := h.rotated file hfile
      refine ⟨tracked, List.mem_append_left _ htracked, ?_⟩
      have hne : tracked ≠ cfg.target time := fun heq => hnew (heq ▸ htracked)
      have hnil : tracked ≠ [] := fun heq => h.nil_notMem (heq ▸ htracked)
      rw [hphase]
      exact (if_neg hnil).trans (if_neg hne).symm
  case last => exact fun _ => ⟨s.compressedFiles, rfl⟩
  case turns => exact Nat.zero_le _
  case loop =>
    have hlength : (s.compressedFiles ++ [cfg.target time]).length = s.compressedFiles.length + 1 := List.length_append
    change 0 + (s.compressedFiles ++ [cfg.target time]).length ≤ cfg.maxFiles + 1
    omega
  case short => exact fun hno => absurd rfl (hno _ _)

theorem Kept.phase (h : Kept cfg s) (hshort : s.compressedFiles.length ≤ cfg.maxFiles) {phase : Phase}
    (hsrc : phase.srcPath = s.phase.srcPath) {turns : Nat} (hturns : turns ≤ 1) (currentSize : Nat) :
    Kept cfg { s with phase := phase, turns := turns, currentSize := currentSize } := by
  constructor
  case nodup => exact h.nodup
  case named => exact h.named
  case compressed => exact hsrc ▸ h.compressed
  case rotated => exact hsrc ▸ h.rotated
  case last => exact hsrc ▸ h.last
  case turns => exact hturns
  case loop =>
    change turns + s.compressedFiles.length ≤ cfg.maxFiles + 1
    omega
  case short => exact fun _ => hshort

theorem Kept.rotate (h : Kept cfg s) (hphase : s.phase = .idle) (formatted : Nat) {rotation : Rotation}
    (hnew : cfg.target rotation.time ∉ s.compressedFiles) : Kept cfg (s.rotate cfg formatted rotation) := by
  have hshort := h.short fun _ _ heq => by rw [hphase] at heq; cases heq
  have htarget : cfg.target rotation.time ∉ s.compressedFiles.map gz := by
    intro hin
    obtain ⟨file, hfile, heq⟩ := List.mem_map.mp hin
    obtain ⟨time, rfl⟩ := h.named file hfile
    exact target_ne_gz heq.symm
  have hremoved : ∃ u, u = (if rotation.removed then s.remove (cfg.target rotation.time) else s) ∧ Kept cfg u ∧
      u.phase = .idle ∧ u.compressedFiles = s.compressedFiles := by
    refine ⟨_, rfl, ?_⟩
    split_ifs
    · exact ⟨h.remove htarget, hphase, rfl⟩
    · exact ⟨h, hphase, rfl⟩
  obtain ⟨u, hu, hkept, huphase, hfiles⟩ := hremoved
  rw [Sink.rotate]
  by_cases hbase : cfg.baseFilename ∈ s.disk
  · rw [if_pos hbase]
    dsimp only
    rw [← hu]
    cases rotation.renamed with
    | done => exact hkept.rename huphase formatted (hfiles ▸ hnew)
    | failed reopened => exact hkept.phase (hfiles ▸ hshort) (by rw [huphase]) (Nat.zero_le 1) _
  · rw [if_neg hbase]
    exact h.phase hshort (by rw [hphase]; rfl) (Nat.zero_le 1) _

theorem Kept.front_ne (h : Kept cfg s) {front : Filename} {rest : List Filename}
    (hfiles : s.compressedFiles = front :: rest) (hrest : rest ≠ []) : front ≠ s.phase.srcPath := by
  rintro rfl
  have hnodup := h.nodup
  have hmem : s.phase.srcPath ∈ s.compressedFiles := hfiles ▸ List.mem_cons_self
  obtain ⟨older, holder⟩ := h.last fun hnil => h.nil_notMem (hnil ▸ hmem)
  rw [hfiles] at hnodup holder
  cases older with
  | nil => exact hrest (List.cons.inj holder).2
  | cons file older =>
    have hin : s.phase.srcPath ∈ rest := by
      rw [(List.cons.inj holder).2]
      exact List.mem_append_right _ (List.mem_singleton_self _)
    exact (List.nodup_cons.mp hnodup).1 hin

/-- The oldest name is that of a compressed file, since the newest is not yet to be removed. -/
theorem Kept.trim (h : Kept cfg s) (hmax : 1 ≤ cfg.maxFiles) {srcPath : Filename} {formatted : Nat}
    (hphase : s.phase = .trimming srcPath formatted) (hlong : s.compressedFiles.length > cfg.maxFiles) :
    Kept cfg (s.trim true s.compressedFiles) := by
  have hloop := h.loop
  have hnodup := h.nodup
  cases hfiles : s.compressedFiles with
  | nil =>
    rw [hfiles] at hlong
    exact absurd hlong (Nat.not_lt_zero _)
  | cons front rest =>
    rw [hfiles] at hloop hlong hnodup
    rw [List.length_cons] at hloop hlong
    have hrest : rest ≠ [] := by
      rintro rfl
      rw [List.length_nil] at hlong
      omega
    have hmem : ∀ file ∈ rest, file ∈ s.compressedFiles := fun file hfile => hfiles ▸ List.mem_cons_of_mem _ hfile
    have hother : ∀ file ∈ rest, file ≠ front :=
      fun file hfile heq => (List.nodup_cons.mp hnodup).1 (heq ▸ hfile)
    have hfront : gz front ∈ s.disk := h.compressed front (hfiles ▸ List.mem_cons_self) (h.front_ne hfiles hrest)
    rw [Sink.trim, if_pos hfront, if_pos rfl]
    constructor
    case nodup => exact (List.nodup_cons.mp hnodup).2
    case named => exact fun file hfile => h.named file (hmem file hfile)
    case compressed =>
      intro file hfile hne
      refine Finset.mem_erase.mpr ⟨?_, h.compressed file (hmem file hfile) hne⟩
      exact fun heq => hother file hfile (gz_inj.mp heq)
    case rotated =>
      intro file hfile
      obtain ⟨hne, hfile⟩ := Finset.mem_erase.mp hfile
      obtain ⟨tracked, htracked, rfl⟩ := h.rotated file hfile
      rw [hfiles] at htracked
      rcases List.mem_cons.mp htracked with rfl | htracked
      · exact absurd (if_neg (h.front_ne hfiles hrest)) hne
      · exact ⟨tracked, htracked, rfl⟩
    case last =>
      intro hsome
      obtain ⟨older, holder⟩ := h.last hsome
      rw [hfiles] at holder
      cases older with
      | nil => exact absurd (List.cons.inj holder).2 hrest
      | cons file older => exact ⟨older, (List.cons.inj holder).2⟩
    case turns =>
      change s.turns + 1 ≤ 1
      omega
    case loop =>
      change s.turns + 1 + rest.length ≤ cfg.maxFiles + 1
      omega
    case short => exact fun hno => absurd hphase (hno _ _)

/-- A file that is renamed is replaced by its compressed file. -/
theorem Kept.compressed_source (h : Kept cfg s) (hsrc : s.phase.srcPath ∈ s.compressedFiles)
    (hshort : s.compressedFiles.length ≤ cfg.maxFiles) (currentSize : Nat) :
    Kept cfg { s with
      phase := .idle
      currentSize := currentSize
      disk := (insert (gz s.phase.srcPath) s.disk).erase s.phase.srcPath
      rotated := (insert (gz s.phase.srcPath) s.rotated).erase s.phase.srcPath } := by
  obtain ⟨time, htime⟩ := h.named _ hsrc
  constructor
  case nodup => exact h.nodup
  case named => exact h.named
  case compressed =>
    intro file hfile _
    obtain ⟨time', rfl⟩ := h.named file hfile
    refine Finset.mem_erase.mpr ⟨htime ▸ target_ne_gz.symm, ?_⟩
    by_cases heq : cfg.target time' = s.phase.srcPath
    · exact heq ▸ Finset.mem_insert_self _ _
    · exact Finset.mem_insert_of_mem (h.compressed _ hfile heq)
  case rotated =>
    have honDisk : ∀ tracked ∈ s.compressedFiles, gz tracked = onDisk [] tracked := by
      intro tracked htracked
      have hnil : tracked ≠ [] := fun heq => h.nil_notMem (heq ▸ htracked)
      exact (if_neg hnil).symm
    intro file hfile
    obtain ⟨hne, hfile⟩ := Finset.mem_erase.mp hfile
    rcases Finset.mem_insert.mp hfile with rfl | hfile
    · exact ⟨_, hsrc, honDisk _ hsrc⟩
    · obtain ⟨tracked, htracked, rfl⟩ := h.rotated file hfile
      refine ⟨tracked, htracked, (if_neg ?_).trans (honDisk _ htracked)⟩
      exact fun heq => hne ((if_pos heq).trans heq)
  case last => exact fun hsome => absurd rfl hsome
  case turns => exact h.turns
  case loop => exact h.loop
  case short => exact fun _ => hshort

theorem Kept.compress (h : Kept cfg s) (hmax : 1 ≤ cfg.maxFiles) {srcPath : Filename} {formatted : Nat}
    {result : CompressEnd} {written : Bool} (hphase : s.phase = .compressing srcPath formatted)
    (hresult : srcPath ≠ [] → result = .done true) (ht : s.compress cfg srcPath formatted result written = some t) :
    Kept cfg t := by
  have hshort := h.short fun _ _ heq => by rw [hphase] at heq; cases heq
  have hsrc : s.phase.srcPath = srcPath := congrArg Phase.srcPath hphase
  unfold Sink.compress at ht
  rw [if_neg (Nat.ne_of_gt hmax)] at ht
  by_cases hnil : srcPath = []
  · have hclosed : ¬ s.IsOpen srcPath := fun hopen => hopen.1 hnil
    have hnone : s.phase.srcPath ∉ s.compressedFiles := by
      rw [hsrc, hnil]
      exact h.nil_notMem
    cases result with
    | sourceNotOpen => exact Option.some.inj ht ▸ h.idle hnone hshort s.currentSize
    | destNotOpen => cases (if_neg hclosed).symm.trans ht
    | writeFailed => cases (if_neg hclosed).symm.trans ht
    | done removed => cases (if_neg hclosed).symm.trans ht
  · obtain rfl := hresult hnil
    obtain ⟨older, holder⟩ := h.last (hsrc ▸ hnil)
    have hmem : s.phase.srcPath ∈ s.compressedFiles := holder ▸ List.mem_append_right _ (List.mem_singleton_self _)
    dsimp only at ht
    by_cases hopen : s.IsOpen srcPath
    · rw [if_pos hopen, if_pos rfl, ← hsrc] at ht
      exact Option.some.inj ht ▸ h.compressed_source hmem hshort _
    · rw [if_neg hopen] at ht
      cases ht

theorem Kept.step (h : Kept cfg s) (hmax : 1 ≤ cfg.maxFiles) (hhealthy : s.Healthy cfg e) (ht : s.step cfg e = some t) :
    Kept cfg t := by
  cases e with
  | sinkIt formatted fileSize written rotation =>
    rw [Sink.step] at ht
    split_ifs at ht with hphase hrotates
    · exact Option.some.inj ht ▸ h.rotate hphase formatted (hhealthy hrotates)
    · have hshort := h.short fun _ _ heq => by rw [hphase] at heq; cases heq
      exact Option.some.inj ht ▸ h.phase hshort (by rw [hphase]) h.turns _
  | turn removed =>
    obtain rfl : removed = true := hhealthy
    obtain ⟨srcPath, formatted, hphase, hlong, rfl⟩ := step_turn ht
    exact h.trim hmax hphase hlong
  | reopen opened =>
    obtain rfl : opened = true := hhealthy
    obtain ⟨srcPath, formatted, hphase, hshort, rfl⟩ := step_reopen ht
    rw [if_pos rfl]
    exact (h.create cfg.baseFilename).phase hshort (by rw [hphase]; rfl) h.turns s.currentSize
  | compress result written =>
    obtain ⟨srcPath, formatted, hphase, hcompress⟩ := step_compress ht
    exact h.compress hmax hphase (hhealthy srcPath formatted hphase) hcompress
  | outsideRemove file => exact Option.some.inj ht ▸ h.remove hhealthy
  | outsideCreate file => exact Option.some.inj ht ▸ h.create file

theorem kept_construct (rotateOnOpen : Bool) (currentSize : Nat) (disk : Finset Filename) (rotation : Rotation) :
    Kept cfg (construct cfg rotateOnOpen currentSize disk rotation) := by
  rw [construct]
  split_ifs
  · exact (kept_init currentSize disk).rotate rfl 0 List.not_mem_nil
  · exact kept_init currentSize disk

theorem compressedFiles_compress {srcPath : Filename} {formatted : Nat}
    {result : CompressEnd} {written : Bool} (ht : s.compress cfg srcPath formatted result written = some t) :
    t.compressedFiles = s.compressedFiles := by
  unfold compress at ht
  cases result <;> dsimp only at ht <;> split_ifs at ht <;> exact Option.some.inj ht ▸ rfl

theorem TracksFew.rotate (h : TracksFew cfg s) (hphase : s.phase = .idle) (formatted : Nat)
    (rotation : Rotation) : TracksFew cfg (s.rotate cfg formatted rotation) := by
  have hshort := h fun _ _ heq => by rw [hphase] at heq; cases heq
  rw [Sink.rotate]
  cases rotation.renamed with
  | done =>
    dsimp only
    split_ifs
    · exact fun hno => absurd rfl (hno _ _)
    · exact fun hno => absurd rfl (hno _ _)
    · exact fun hno => absurd rfl (hno _ _)
  | failed reopened =>
    dsimp only
    split_ifs
    · exact fun _ => hshort
    · exact fun _ => hshort
    · exact fun _ => hshort
    · exact fun _ => hshort
    · exact fun hno => absurd rfl (hno _ _)

theorem TracksFew.step (h : TracksFew cfg s) (ht : s.step cfg e = some t) :
    TracksFew cfg t := by
  cases e with
  | sinkIt formatted fileSize written rotation =>
    rw [Sink.step] at ht
    split_ifs at ht with hphase hrotates
    · exact Option.some.inj ht ▸ h.rotate hphase formatted rotation
    · exact Option.some.inj ht ▸ fun _ => h fun _ _ heq => by rw [hphase] at heq; cases heq
  | turn removed =>
    obtain ⟨srcPath, formatted, hphase, -, rfl⟩ := step_turn ht
    exact fun hno => absurd ((phase_trim removed _).trans hphase) (hno srcPath formatted)
  | reopen opened =>
    obtain ⟨srcPath, formatted, -, hshort, rfl⟩ := step_reopen ht
    split_ifs
    · exact fun _ => hshort
    · exact fun _ => hshort
  | compress result written =>
    obtain ⟨srcPath, formatted, hphase, hcompress⟩ := step_compress ht
    have hshort := h fun _ _ heq => by rw [hphase] at heq; cases heq
    exact fun _ => (compressedFiles_compress hcompress).symm ▸ hshort
  | outsideRemove file => exact Option.some.inj ht ▸ h
  | outsideCreate file => exact Option.some.inj ht ▸ h

end Healthy

/-- The tracked names keep their bound in every run. In the runs in which the names are new, what the sink
does to its files succeeds and others leave its compressed files alone, no call makes more than one turn of
the loop, and what is on the disk keeps to `max_files_` too. -/
theorem rotation_bounded (cfg : Config) (hmax : 1 ≤ cfg.maxFiles) (rotateOnOpen : Bool) (currentSize : Nat)
    (disk : Finset Filename) (rotation : Rotation) :
    (∀ t, Reach (step cfg) (fun _ _ => True) (construct cfg rotateOnOpen currentSize disk rotation) t →
      t.TracksFew cfg) ∧
    (construct cfg rotateOnOpen currentSize disk rotation).Terminates cfg (Healthy cfg) ∧
    ∀ t, Reach (step cfg) (Healthy cfg) (construct cfg rotateOnOpen currentSize disk rotation) t → t.Bounded cfg := by
  have hstart : Kept cfg (construct cfg rotateOnOpen currentSize disk rotation) := kept_construct ..
  have hkept : ∀ t, Reach (step cfg) (Healthy cfg) (construct cfg rotateOnOpen currentSize disk rotation) t →
      Kept cfg t := by
    intro t hreach
    exact hreach.invariant (Kept cfg) hstart fun _ _ _ h hhealthy ht => h.step hmax hhealthy ht
  refine ⟨?_, ⟨1, fun t hreach => (hkept t hreach).turns⟩, fun t hreach => (hkept t hreach).bounded⟩
  intro t hreach
  exact hreach.invariant (TracksFew cfg) hstart.short fun _ _ _ h _ ht => h.step ht

def rotationAt (digit : Char) : Rotation := ⟨⟨List.replicate 23 digit, List.length_replicate⟩, true, .done⟩

def keeps (maxFiles : Nat) (h : maxFiles ≤ 200000) : Config := ⟨['u'], ['.', 'l'], 8, maxFiles, Nat.succ_ne_zero 7, h⟩

/-- Three rotations, of which the last removes the oldest file. -/
def threeRotations : List Event :=
  [.sinkIt 5 0 true (rotationAt '0'),
    .sinkIt 5 5 true (rotationAt '0'), .reopen true, .compress (.done true) true,
    .sinkIt 5 5 true (rotationAt '1'), .reopen true, .compress (.done true) true,
    .sinkIt 5 5 true (rotationAt '2'), .turn true, .reopen true, .compress (.done true) true]

theorem rotation_bounded_keepsTwo :
    (∀ t, Reach (step (keeps 2 (Nat.le_of_ble_eq_true rfl))) (Healthy (keeps 2 (Nat.le_of_ble_eq_true rfl)))
      (construct (keeps 2 (Nat.le_of_ble_eq_true rfl)) false 0 ∅ (rotationAt '0')) t →
        t.Bounded (keeps 2 (Nat.le_of_ble_eq_true rfl))) ∧
    (run (step (keeps 2 (Nat.le_of_ble_eq_true rfl)))
      (construct (keeps 2 (Nat.le_of_ble_eq_true rfl)) false 0 ∅ (rotationAt '0')) threeRotations).map
        (fun t => (t.turns, t.compressedFiles.length, t.rotated.card)) = some (1, 2, 2) :=
  ⟨(rotation_bounded (keeps 2 (Nat.le_of_ble_eq_true rfl)) (Nat.le_succ 1) false 0 ∅ (rotationAt '0')).2.2, by decide⟩

/-- The loop stays where it is while the oldest compressed file is not there. -/
theorem run_turn_missing {cfg : Config} {s : Sink} {srcPath front : Filename} {formatted : Nat} {rest : List Filename}
    (hphase : s.phase = .trimming srcPath formatted) (hfiles : s.compressedFiles = front :: rest)
    (hlong : s.compressedFiles.length > cfg.maxFiles) (hmissing : gz front ∉ s.disk) (removed : Bool) (n : Nat) :
    run (step cfg) s (List.replicate n (.turn removed)) = some { s with turns := s.turns + n } := by
  induction n generalizing s with
  | zero => rfl
  | succ n ih =>
    have htrim : ∀ files, files = front :: rest → s.trim removed files = { s with turns := s.turns + 1 } := by
      rintro files rfl
      exact if_neg hmissing
    have hturn : s.step cfg (.turn removed) = some { s with turns := s.turns + 1 } := by
      rw [← htrim _ hfiles, step, hphase]
      exact if_pos hlong
    have hrest := ih (s := { s with turns := s.turns + 1 }) hphase hfiles hlong hmissing
    rw [List.replicate_succ, run, hturn, Option.bind_some, hrest]
    simp only [Nat.add_assoc, Nat.add_comm 1 n]

/-- The first rotation of a sink that keeps no files does not end. -/
theorem not_terminates_keepsNone : ¬ (construct (keeps 0 (Nat.zero_le _)) false 0 ∅ (rotationAt '0')).Terminates (keeps 0 (Nat.zero_le _)) fun _ _ => True := by
  rintro ⟨n, hn⟩
  have hrun : ((run (step (keeps 0 (Nat.zero_le _))) (construct (keeps 0 (Nat.zero_le _)) false 0 ∅ (rotationAt '0'))
      [.sinkIt 5 0 true (rotationAt '0'), .sinkIt 5 5 true (rotationAt '0')]).map fun s =>
        (s.phase, s.compressedFiles, decide (gz ((keeps 0 (Nat.zero_le _)).target (rotationAt '0').time) ∈ s.disk))) =
      some (.trimming ((keeps 0 (Nat.zero_le _)).target (rotationAt '0').time) 5, [(keeps 0 (Nat.zero_le _)).target (rotationAt '0').time], false) := by
    decide
  obtain ⟨s, hs, heq⟩ := Option.map_eq_some_iff.mp hrun
  obtain ⟨hphase, hfiles, hmissing⟩ : s.phase = .trimming ((keeps 0 (Nat.zero_le _)).target (rotationAt '0').time) 5 ∧
    s.compressedFiles = [(keeps 0 (Nat.zero_le _)).target (rotationAt '0').time] ∧ gz ((keeps 0 (Nat.zero_le _)).target (rotationAt '0').time) ∉ s.disk := by
      simpa only [Prod.mk.injEq, decide_eq_false_iff_not] using heq
  have hlong : s.compressedFiles.length > (keeps 0 (Nat.zero_le _)).maxFiles := by
    rw [hfiles]
    exact Nat.one_pos
  have hturns := run_turn_missing hphase hfiles hlong hmissing true (n + 1)
  have hreach := (Reach.start.run (fun _ _ _ => trivial) hs).run (fun _ _ _ => trivial) hturns
  have hle : s.turns + (n + 1) ≤ n := hn _ hreach
  omega

end Sink

end UnifiedCache.Infra.LogRotation
