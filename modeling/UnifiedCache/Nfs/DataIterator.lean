import Mathlib.Data.List.Infix
import UnifiedCache.Nfs.SpaceManager

/-! The iterator over the archived files of the NFS store and the loop of the recycler that asks
it for the next file. -/

namespace UnifiedCache.NfsStore

abbrev Name : Type := List Char

/-- The format `{:016x}`. -/
def hex (x : UInt64) : Name := (List.range 16).map fun i => Nat.digitChar (x.toNat / 16 ^ (15 - i) % 16)

def FileSuffix.name : FileSuffix → Name
  | .act => ['a', 'c', 't']
  | .dat => ['d', 'a', 't']

def dataFileName (back : UInt64) (suffix : FileSuffix) : Name := hex back ++ '.' :: suffix.name

/-- The names on the way from the `data` directory of a storage backend. -/
structure Path where
  storageBackend : Nat
  names : List Name
  deriving DecidableEq

namespace Path

def dataRoot (storageBackend : Nat) : Path := ⟨storageBackend, []⟩

def child (dir : Path) (name : Name) : Path := { dir with names := dir.names ++ [name] }

theorem child_ne (dir : Path) (name : Name) : dir.child name ≠ dir := by
  intro h
  have hlength := congrArg (fun path => path.names.length) h
  simp [child] at hlength

theorem child_inj {dir : Path} {name name' : Name} (h : dir.child name = dir.child name') : name = name' := by
  simpa [child] using h

end Path

/-- The path of a file below a `data` directory. -/
def FilePath.path (file : FilePath) : Path :=
  ((Path.dataRoot file.parent.storageBackend).child (hex file.parent.front)).child
    (dataFileName file.back file.suffix)

def isActivatedFile (filePath : Name) : Bool := FileSuffix.act.name.isSuffixOf filePath

/-- The names the iterator stops at. -/
def Visible (name : Name) : Bool := name.head? != some '.' && !isActivatedFile name

/-- `stk` has the open directories with the names that `readdir64` has still to give. -/
structure DataIterator where
  root : Path
  current : Option Path
  stk : List (List Name × Path)

namespace DataIterator

/-- The names left in open directories that are the root. -/
def rootLeft (it : DataIterator) : Nat :=
  (it.stk.map fun frame => if frame.2 = it.root then frame.1.length else 0).sum

def left (it : DataIterator) : Nat := (it.stk.map fun frame => frame.1.length + 1).sum

/-- Each pass of the loop has less to read: of the root, or of the directories that are open. -/
def Shorter (it' it : DataIterator) : Prop :=
  Prod.Lex (· < ·) (· < ·) (it'.rootLeft, it'.left) (it.rootLeft, it.left)

section Shorter

variable {root : Path} {current current' : Option Path} {name : Name} {names : List Name} {dir : Path}
  {stk : List (List Name × Path)}

theorem Shorter.trans {it₁ it₂ it₃ : DataIterator} (h : Shorter it₁ it₂) (h' : Shorter it₂ it₃) :
    Shorter it₁ it₃ := by
  unfold Shorter at *
  rw [Prod.lex_def] at *
  omega

theorem shorter_pop : Shorter ⟨root, current', stk⟩ ⟨root, current, ([], dir) :: stk⟩ := by
  have hroot : rootLeft ⟨root, current, ([], dir) :: stk⟩ = rootLeft ⟨root, current', stk⟩ := by simp [rootLeft]
  have hleft : left ⟨root, current, ([], dir) :: stk⟩ = left ⟨root, current', stk⟩ + 1 := by
    simp [left, Nat.add_comm]
  unfold Shorter
  rw [Prod.lex_def]
  omega

theorem shorter_read :
    Shorter ⟨root, current', (names, dir) :: stk⟩ ⟨root, current, (name :: names, dir) :: stk⟩ := by
  have hroot : rootLeft ⟨root, current', (names, dir) :: stk⟩ ≤
      rootLeft ⟨root, current, (name :: names, dir) :: stk⟩ := by
    simp only [rootLeft, List.map_cons, List.sum_cons, List.length_cons]
    split <;> omega
  have hleft : left ⟨root, current, (name :: names, dir) :: stk⟩ =
      left ⟨root, current', (names, dir) :: stk⟩ + 1 := by
    simp only [left, List.map_cons, List.sum_cons, List.length_cons]
    omega
  unfold Shorter
  rw [Prod.lex_def]
  omega

theorem shorter_push {sub : List Name} (h : dir = root) :
    Shorter ⟨root, current', (sub, dir.child name) :: (names, dir) :: stk⟩
      ⟨root, current, (name :: names, dir) :: stk⟩ := by
  subst h
  unfold Shorter
  rw [Prod.lex_def]
  left
  simp only [rootLeft, List.map_cons, List.sum_cons, List.length_cons, if_neg (dir.child_ne name), if_pos]
  omega

end Shorter

variable (openDir : Path → Option (List Name))

def setup (root : Path) : Option DataIterator := (openDir root).map fun names => ⟨root, none, [(names, root)]⟩

/-- The loop of `Next`. -/
def advance (it : DataIterator) : Status × DataIterator :=
  match it with
  | ⟨root, current, []⟩ => (.notFound, ⟨root, current, []⟩)
  | ⟨root, current, ([], _) :: stk⟩ => advance ⟨root, current, stk⟩
  | ⟨root, current, (name :: names, dir) :: stk⟩ =>
    if name.head? = some '.' then advance ⟨root, current, (names, dir) :: stk⟩
    else if isActivatedFile name then advance ⟨root, current, (names, dir) :: stk⟩
    else
      let fullpath := dir.child name
      if _h : dir = root then
        match openDir fullpath with
        | none => (.osApiError, ⟨root, current, (names, dir) :: stk⟩)
        | some sub => advance ⟨root, current, (sub, fullpath) :: (names, dir) :: stk⟩
      else (.ok, ⟨root, some fullpath, (names, dir) :: stk⟩)
termination_by (it.rootLeft, it.left)
decreasing_by
  · exact shorter_pop
  · exact shorter_read
  · exact shorter_read
  · exact shorter_push _h

def next (it : DataIterator) : Status × DataIterator := advance openDir { it with current := none }

theorem advance_shorter (it : DataIterator) (h : (advance openDir it).1 = .ok) :
    Shorter (advance openDir it).2 it := by
  fun_induction advance openDir it with
  | case1 => cases h
  | case2 root current dir stk ih => exact (ih h).trans shorter_pop
  | case3 root current name names dir stk hdot ih => exact (ih h).trans shorter_read
  | case4 root current name names dir stk hdot hact ih => exact (ih h).trans shorter_read
  | case5 => cases h
  | case6 root current name names stk hdot hact fullpath sub hsub ih => exact (ih h).trans (shorter_push rfl)
  | case7 => exact shorter_read

/-- `none` is the empty string. -/
def nextDataFilePath (it : DataIterator) : Option Path × DataIterator :=
  let r := next openDir it
  if r.1 = .ok then (r.2.current, r.2) else (none, r.2)

theorem nextDataFilePath_shorter {it : DataIterator} {file : Path}
    (h : (nextDataFilePath openDir it).1 = some file) : Shorter (nextDataFilePath openDir it).2 it := by
  by_cases hok : (next openDir it).1 = .ok
  · simp only [nextDataFilePath, if_pos hok]
    exact advance_shorter openDir _ hok
  · simp [nextDataFilePath, hok] at h

/-- The files that the recycler gets before it is given none. -/
def scan (it : DataIterator) : List Path :=
  match _h : (nextDataFilePath openDir it).1 with
  | some file => file :: scan (nextDataFilePath openDir it).2
  | none => []
termination_by (it.rootLeft, it.left)
decreasing_by exact nextDataFilePath_shorter openDir _h

section Scan

variable {openDir} {root dir : Path} {current : Option Path} {name : Name} {names : List Name}
  {stk : List (List Name × Path)}

theorem scan_of_some {it it' : DataIterator} {file : Path} (h : nextDataFilePath openDir it = (some file, it')) :
    scan openDir it = file :: scan openDir it' := by
  rw [scan]
  split
  · rename_i file' hsome
    rw [h] at hsome ⊢
    cases hsome
    rfl
  · rename_i hnone
    rw [h] at hnone
    cases hnone

theorem scan_of_none {it : DataIterator} (h : (nextDataFilePath openDir it).1 = none) : scan openDir it = [] := by
  rw [scan]
  split
  · rename_i file hsome
    rw [h] at hsome
    cases hsome
  · rfl

theorem scan_congr {it it' : DataIterator} (h : next openDir it = next openDir it') :
    scan openDir it = scan openDir it' := by
  have hpath : nextDataFilePath openDir it = nextDataFilePath openDir it' := by
    unfold nextDataFilePath
    rw [h]
  cases hfile : nextDataFilePath openDir it with
  | mk file? rest =>
    cases file? with
    | none => rw [scan_of_none (by rw [hfile]), scan_of_none (by rw [← hpath, hfile])]
    | some file => rw [scan_of_some hfile, scan_of_some (hpath.symm.trans hfile)]

theorem scan_nil : scan openDir ⟨root, current, []⟩ = [] := by
  apply scan_of_none
  simp [nextDataFilePath, next, advance]

theorem scan_pop : scan openDir ⟨root, current, ([], dir) :: stk⟩ = scan openDir ⟨root, none, stk⟩ := by
  apply scan_congr
  unfold next
  rw [advance]

theorem scan_skip (h : Visible name = false) :
    scan openDir ⟨root, current, (name :: names, dir) :: stk⟩ =
      scan openDir ⟨root, none, (names, dir) :: stk⟩ := by
  apply scan_congr
  unfold next
  rw [advance]
  by_cases hdot : name.head? = some '.'
  · rw [if_pos hdot]
  · have hact : isActivatedFile name = true := by simpa [Visible, hdot] using h
    rw [if_neg hdot, if_pos hact]

theorem scan_push {sub : List Name} (h : Visible name = true) (hsub : openDir (root.child name) = some sub) :
    scan openDir ⟨root, current, (name :: names, root) :: stk⟩ =
      scan openDir ⟨root, none, (sub, root.child name) :: (names, root) :: stk⟩ := by
  apply scan_congr
  have hdot : ¬ name.head? = some '.' ∧ isActivatedFile name = false := by simpa [Visible] using h
  unfold next
  rw [advance]
  simp [hdot, hsub]

theorem scan_error (h : Visible name = true) (hsub : openDir (root.child name) = none) :
    scan openDir ⟨root, current, (name :: names, root) :: stk⟩ = [] := by
  have hdot : ¬ name.head? = some '.' ∧ isActivatedFile name = false := by simpa [Visible] using h
  apply scan_of_none
  unfold nextDataFilePath next
  rw [advance]
  simp [hdot, hsub]

theorem scan_yield (h : Visible name = true) (hdir : dir ≠ root) :
    scan openDir ⟨root, current, (name :: names, dir) :: stk⟩ =
      dir.child name :: scan openDir ⟨root, none, (names, dir) :: stk⟩ := by
  have hdot : ¬ name.head? = some '.' ∧ isActivatedFile name = false := by simpa [Visible] using h
  have hpath : nextDataFilePath openDir ⟨root, current, (name :: names, dir) :: stk⟩ =
      (some (dir.child name), ⟨root, some (dir.child name), (names, dir) :: stk⟩) := by
    unfold nextDataFilePath next
    rw [advance]
    simp [hdot, hdir]
  rw [scan_of_some hpath]
  congr 1
  exact scan_congr rfl

/-- In a directory below the root all visible names are given, whatever they are. -/
theorem scan_shard (hdir : dir ≠ root) :
    scan openDir ⟨root, current, (names, dir) :: stk⟩ =
      (names.filter Visible).map dir.child ++ scan openDir ⟨root, none, stk⟩ := by
  induction names generalizing current with
  | nil => exact scan_pop
  | cons name names ih =>
    cases h : Visible name with
    | false =>
      rw [scan_skip h, ih, List.filter_cons_of_neg (by simp [h])]
    | true =>
      rw [scan_yield h hdir, ih, List.filter_cons_of_pos h, List.map_cons, List.cons_append]

variable (openDir) in
def files (dir : Path) : List Path := (((openDir dir).getD []).filter Visible).map dir.child

/-- The directories in the root that come before the first one that fails to open. -/
theorem scan_root :
    scan openDir ⟨root, current, [(names, root)]⟩ =
      ((names.filter Visible).takeWhile fun name => (openDir (root.child name)).isSome).flatMap
        fun name => files openDir (root.child name) := by
  induction names generalizing current with
  | nil => rw [scan_pop, scan_nil, List.filter_nil, List.takeWhile_nil, List.flatMap_nil]
  | cons name names ih =>
    cases h : Visible name with
    | false => rw [scan_skip h, ih, List.filter_cons_of_neg (by simp [h])]
    | true =>
      rw [List.filter_cons_of_pos h]
      cases hsub : openDir (root.child name) with
      | none => rw [scan_error h hsub, List.takeWhile_cons_of_neg (by simp [hsub]), List.flatMap_nil]
      | some sub =>
        have hfiles : files openDir (root.child name) = (sub.filter Visible).map (root.child name).child := by
          rw [files, hsub, Option.getD_some]
        rw [scan_push h hsub, scan_shard (root.child_ne name), ih, List.takeWhile_cons_of_pos (by simp [hsub]),
          List.flatMap_cons, hfiles]

end Scan

end DataIterator

theorem mem_takeWhile_iff {α : Type*} {p : α → Bool} {x : α} {l : List α} (h : l.Nodup) :
    x ∈ l.takeWhile p ↔ x ∈ l ∧ p x ∧ ∀ y, [y, x].Sublist l → p y := by
  induction l with
  | nil => simp
  | cons y l ih =>
    obtain ⟨hnotMem, hnodup⟩ := List.nodup_cons.mp h
    by_cases hy : p y
    · rw [List.takeWhile_cons_of_pos hy, List.mem_cons, ih hnodup]
      constructor
      · rintro (rfl | ⟨hmem, hx, hbefore⟩)
        · refine ⟨List.mem_cons_self, hy, fun z hz => ?_⟩
          cases hz with
          | cons _ hz => exact absurd (hz.subset (by simp)) hnotMem
          | cons_cons _ hz => exact hy
        · refine ⟨List.mem_cons_of_mem y hmem, hx, fun z hz => ?_⟩
          cases hz with
          | cons _ hz => exact hbefore z hz
          | cons_cons _ hz => exact hy
      · rintro ⟨hmem, hx, hbefore⟩
        obtain rfl | hmem := List.mem_cons.mp hmem
        · exact Or.inl rfl
        · exact Or.inr ⟨hmem, hx, fun z hz => hbefore z (hz.cons y)⟩
    · rw [List.takeWhile_cons_of_neg hy]
      constructor
      · intro hmem
        cases hmem
      · rintro ⟨hmem, hx, hbefore⟩
        obtain rfl | hmem := List.mem_cons.mp hmem
        · exact absurd hx hy
        · exact absurd (hbefore y ((List.singleton_sublist.mpr hmem).cons_cons y)) hy

/-! ### The names of a space -/

theorem getLast_hex (x : UInt64) : ∃ pre, hex x = pre ++ [Nat.digitChar (x.toNat % 16)] := by
  refine ⟨(List.range 15).map fun i => Nat.digitChar (x.toNat / 16 ^ (15 - i) % 16), ?_⟩
  rw [hex, List.range_succ, List.map_append]
  simp

theorem head_hex (x : UInt64) : ∃ rest, hex x = Nat.digitChar (x.toNat / 16 ^ 15 % 16) :: rest := by
  rw [hex, List.range_succ_eq_map, List.map_cons]
  exact ⟨_, rfl⟩

theorem digitChar_ne {n : Nat} (h : n < 16) : Nat.digitChar n ≠ '.' ∧ Nat.digitChar n ≠ 't' := by
  decide +revert

theorem isActivatedFile_hex (x : UInt64) : isActivatedFile (hex x) = false := by
  obtain ⟨pre, hlast⟩ := getLast_hex x
  rw [Bool.eq_false_iff]
  intro h
  have hsuffix : ['a', 'c'] ++ ['t'] <:+ pre ++ [Nat.digitChar (x.toNat % 16)] := by
    rw [← hlast]
    exact List.isSuffixOf_iff_suffix.mp h
  have hlength : ['t'].length = [Nat.digitChar (x.toNat % 16)].length := rfl
  have hchar := ((List.suffix_append_inj_of_length_eq hlength).mp hsuffix).2
  exact (digitChar_ne (Nat.mod_lt _ (by decide))).2 (List.singleton_inj.mp hchar).symm

theorem isActivatedFile_dataFileName (back : UInt64) (suffix : FileSuffix) :
    isActivatedFile (dataFileName back suffix) = decide (suffix = .act) := by
  have hsplit : dataFileName back suffix = (hex back ++ ['.']) ++ suffix.name := by
    rw [dataFileName, List.append_assoc]
    rfl
  have hlength : FileSuffix.act.name.length = suffix.name.length := by cases suffix <;> rfl
  rw [Bool.eq_iff_iff, decide_eq_true_iff, isActivatedFile, List.isSuffixOf_iff_suffix, hsplit,
    ← List.nil_append FileSuffix.act.name, List.suffix_append_inj_of_length_eq hlength]
  cases suffix <;> simp [FileSuffix.name]

theorem head?_hex_ne (x : UInt64) (rest : Name) : (hex x ++ rest).head? ≠ some '.' := by
  obtain ⟨tail, hhead⟩ := head_hex x
  rw [hhead, List.cons_append, List.head?_cons]
  intro h
  exact (digitChar_ne (Nat.mod_lt _ (by decide))).1 (Option.some.inj h)

theorem visible_hex (x : UInt64) : Visible (hex x) = true := by
  have hhead := head?_hex_ne x []
  rw [List.append_nil] at hhead
  simp [Visible, hhead, isActivatedFile_hex]

theorem visible_dataFileName (back : UInt64) (suffix : FileSuffix) :
    Visible (dataFileName back suffix) = true ↔ suffix = .dat := by
  have hhead : (dataFileName back suffix).head? ≠ some '.' := head?_hex_ne back _
  have hact := isActivatedFile_dataFileName back suffix
  cases suffix <;> simp [Visible, hhead, hact]

theorem visible_of_hidden {name : Name} (h : name.head? = some '.') : Visible name = false := by
  simp [Visible, h]

/-- The `data` directories of a space, as `opendir` and `readdir64` show them: `none` is a
directory that is missing or unreadable when it is opened. -/
structure DataSpace where
  storageBackends : Nat
  pos : 0 < storageBackends
  openDir : Path → Option (List Name)
  nodup : ∀ {dir names}, openDir dir = some names → names.Nodup
  shards : ∀ {backend names}, openDir (.dataRoot backend) = some names →
    ∀ name ∈ names, name.head? = some '.' ∨ ∃ front, name = hex front
  blocks : ∀ {backend front names}, openDir ((Path.dataRoot backend).child (hex front)) = some names →
    ∀ name ∈ names, name.head? = some '.' ∨ ∃ back suffix, name = dataFileName back suffix

namespace DataSpace

variable (space : DataSpace)

/-- A block file that can be found in the space. -/
structure Holds (suffix : FileSuffix) (backend : Nat) (front : UInt64) (file : Path) : Prop where
  backend_lt : backend < space.storageBackends
  listed : ∃ names, space.openDir (.dataRoot backend) = some names ∧ hex front ∈ names
  readable : ∃ names back, space.openDir ((Path.dataRoot backend).child (hex front)) = some names ∧
    dataFileName back suffix ∈ names ∧ file = ((Path.dataRoot backend).child (hex front)).child (dataFileName back suffix)

/-- The directories of the first storage backend that are listed before a shard can be opened. -/
def Reached (front : UInt64) : Prop :=
  ∀ names, space.openDir (.dataRoot 0) = some names → ∀ front', [hex front', hex front].Sublist names →
    (space.openDir ((Path.dataRoot 0).child (hex front'))).isSome

/-- What the recycler sees, that of the iterator over the first storage backend. -/
def recyclable : List Path :=
  match DataIterator.setup space.openDir (.dataRoot 0) with
  | some it => it.scan space.openDir
  | none => []

/-- `DoRecycle` offers its heap the files with a time. -/
def offered (getFileTimestamp : Path → Nat) : List (Path × Nat) :=
  (space.recyclable.map fun file => (file, getFileTimestamp file)).filter fun info => info.2 ≠ 0

/-- Each archived block is seen once, and nothing else. -/
structure SeesAll : Prop where
  archived : ∀ file, file ∈ space.recyclable ↔ ∃ backend front, space.Holds .dat backend front file
  active : ∀ backend front file, space.Holds .act backend front file → file ∉ space.recyclable
  once : space.recyclable.Nodup
  offered : ∀ getFileTimestamp file timestamp, (file, timestamp) ∈ space.offered getFileTimestamp ↔
    timestamp = getFileTimestamp file ∧ timestamp ≠ 0 ∧ ∃ backend front, space.Holds .dat backend front file

section Recyclable

variable {space}

theorem recyclable_of_none (h : space.openDir (.dataRoot 0) = none) : space.recyclable = [] := by
  rw [recyclable, DataIterator.setup, h, Option.map_none]

theorem recyclable_of_some {names : List Name} (h : space.openDir (.dataRoot 0) = some names) :
    space.recyclable =
      ((names.filter Visible).takeWhile fun name => (space.openDir ((Path.dataRoot 0).child name)).isSome).flatMap
        fun name => DataIterator.files space.openDir ((Path.dataRoot 0).child name) := by
  rw [recyclable, DataIterator.setup, h, Option.map_some]
  exact DataIterator.scan_root

theorem mem_files {backend : Nat} {front : UInt64} {file : Path} :
    file ∈ DataIterator.files space.openDir ((Path.dataRoot backend).child (hex front)) ↔
      ∃ names back, space.openDir ((Path.dataRoot backend).child (hex front)) = some names ∧
        dataFileName back .dat ∈ names ∧
          file = ((Path.dataRoot backend).child (hex front)).child (dataFileName back .dat) := by
  unfold DataIterator.files
  rw [List.mem_map]
  constructor
  · rintro ⟨name, hname, rfl⟩
    obtain ⟨hmem, hvisible⟩ := List.mem_filter.mp hname
    cases hopen : space.openDir ((Path.dataRoot backend).child (hex front)) with
    | none => simp [hopen] at hmem
    | some names =>
      rw [hopen, Option.getD_some] at hmem
      obtain hhidden | ⟨back, suffix, rfl⟩ := space.blocks hopen name hmem
      · rw [visible_of_hidden hhidden] at hvisible
        cases hvisible
      · obtain rfl := (visible_dataFileName back suffix).mp hvisible
        exact ⟨names, back, rfl, hmem, rfl⟩
  · rintro ⟨names, back, hopen, hmem, rfl⟩
    refine ⟨dataFileName back .dat, List.mem_filter.mpr ⟨?_, (visible_dataFileName back .dat).mpr rfl⟩, rfl⟩
    rw [hopen, Option.getD_some]
    exact hmem

theorem mem_recyclable {file : Path} :
    file ∈ space.recyclable ↔ ∃ front, space.Holds .dat 0 front file ∧ space.Reached front := by
  cases hopen : space.openDir (.dataRoot 0) with
  | none =>
    rw [recyclable_of_none hopen]
    constructor
    · intro h
      cases h
    · rintro ⟨front, hholds, _⟩
      obtain ⟨names, hnames, _⟩ := hholds.listed
      rw [hopen] at hnames
      cases hnames
  | some names =>
    have hnodup : (names.filter Visible).Nodup := (space.nodup hopen).filter _
    rw [recyclable_of_some hopen, List.mem_flatMap]
    constructor
    · rintro ⟨name, hname, hfile⟩
      obtain ⟨hmem, hsome, hbefore⟩ := (mem_takeWhile_iff hnodup).mp hname
      obtain ⟨hmem, hvisible⟩ := List.mem_filter.mp hmem
      obtain hhidden | ⟨front, rfl⟩ := space.shards hopen name hmem
      · rw [visible_of_hidden hhidden] at hvisible
        cases hvisible
      · refine ⟨front, ⟨space.pos, ⟨names, hopen, hmem⟩, mem_files.mp hfile⟩, fun names' hnames' front' hfront' => ?_⟩
        rw [hopen] at hnames'
        cases hnames'
        apply hbefore
        have hsublist := hfront'.filter Visible
        rwa [List.filter_eq_self.mpr (by simp [visible_hex])] at hsublist
    · rintro ⟨front, hholds, hreached⟩
      obtain ⟨names', hnames', hmem⟩ := hholds.listed
      rw [hopen] at hnames'
      cases hnames'
      refine ⟨hex front, (mem_takeWhile_iff hnodup).mpr ⟨List.mem_filter.mpr ⟨hmem, visible_hex front⟩, ?_, ?_⟩,
        mem_files.mpr hholds.readable⟩
      · obtain ⟨sub, back, hsub, _⟩ := hholds.readable
        rw [hsub, Option.isSome_some]
      · intro name hname
        obtain ⟨hname', hvisible⟩ := List.mem_filter.mp (hname.subset List.mem_cons_self)
        obtain hhidden | ⟨front', rfl⟩ := space.shards hopen name hname'
        · rw [visible_of_hidden hhidden] at hvisible
          cases hvisible
        · exact hreached names hopen front' (hname.trans List.filter_sublist)

/-- What a scan of the space manager may have in it. -/
theorem recyclable_of_mem {file : Path} (h : file ∈ space.recyclable) :
    ∃ dataFile : FilePath, SpaceLayout.Recyclable dataFile ∧ dataFile.path = file := by
  obtain ⟨front, hholds, _⟩ := mem_recyclable.mp h
  obtain ⟨_, back, _, _, rfl⟩ := hholds.readable
  exact ⟨⟨⟨0, .data, front⟩, back, .dat⟩, ⟨rfl, rfl, rfl⟩, rfl⟩

theorem nodup_files (dir : Path) : (DataIterator.files space.openDir dir).Nodup := by
  unfold DataIterator.files
  apply List.Nodup.map fun _ _ => Path.child_inj
  apply List.Nodup.filter
  cases hopen : space.openDir dir with
  | none => exact List.nodup_nil
  | some names => exact space.nodup hopen

theorem child_child_inj {dir dir' : Path} {shard shard' name name' : Name}
    (h : (dir.child shard).child name = (dir'.child shard').child name') :
    dir = dir' ∧ shard = shard' ∧ name = name' := by
  simp only [Path.child, Path.mk.injEq] at h
  obtain ⟨hbackend, hnames⟩ := h
  obtain ⟨hnames, hname⟩ := List.append_inj' hnames rfl
  obtain ⟨hnames, hshard⟩ := List.append_inj' hnames rfl
  obtain ⟨backend, dirNames⟩ := dir
  subst hbackend hnames
  exact ⟨rfl, List.singleton_inj.mp hshard, List.singleton_inj.mp hname⟩

theorem nodup_recyclable : space.recyclable.Nodup := by
  cases hopen : space.openDir (.dataRoot 0) with
  | none =>
    rw [recyclable_of_none hopen]
    exact List.nodup_nil
  | some names =>
    rw [recyclable_of_some hopen, List.nodup_flatMap]
    refine ⟨fun name _ => nodup_files _, ?_⟩
    have hnodup := ((space.nodup hopen).filter Visible).sublist
      (List.takeWhile_sublist fun name => (space.openDir ((Path.dataRoot 0).child name)).isSome)
    refine hnodup.imp fun {name name'} hne file hfile hfile' => hne ?_
    obtain ⟨_, _, rfl⟩ := List.mem_map.mp hfile
    obtain ⟨_, _, heq⟩ := List.mem_map.mp hfile'
    exact (child_child_inj heq.symm).2.1

end Recyclable

/-- The recycler sees all blocks if they are on the first storage backend, in directories that
are listed before the first one that cannot be opened. -/
theorem seesAll_iff :
    space.SeesAll ↔
      ∀ backend front file, space.Holds .dat backend front file → backend = 0 ∧ space.Reached front := by
  constructor
  · intro h backend front file hholds
    obtain ⟨front', hholds', hreached⟩ := mem_recyclable.mp ((h.archived file).mpr ⟨backend, front, hholds⟩)
    obtain ⟨_, _, _, _, heq⟩ := hholds.readable
    obtain ⟨_, _, _, _, heq'⟩ := hholds'.readable
    obtain ⟨hdir, hname, _⟩ := child_child_inj (heq.symm.trans heq')
    refine ⟨congrArg Path.storageBackend hdir, ?_⟩
    unfold Reached
    rw [hname]
    exact hreached
  · intro h
    have harchived : ∀ file, file ∈ space.recyclable ↔ ∃ backend front, space.Holds .dat backend front file := by
      intro file
      rw [mem_recyclable]
      constructor
      · rintro ⟨front, hholds, _⟩
        exact ⟨0, front, hholds⟩
      · rintro ⟨backend, front, hholds⟩
        obtain ⟨rfl, hreached⟩ := h backend front file hholds
        exact ⟨front, hholds, hreached⟩
    refine ⟨harchived, ?_, nodup_recyclable, ?_⟩
    · intro backend front file hact hmem
      obtain ⟨front', hholds', _⟩ := mem_recyclable.mp hmem
      obtain ⟨_, back, _, _, heq⟩ := hact.readable
      obtain ⟨_, back', _, _, heq'⟩ := hholds'.readable
      have hname := (child_child_inj (heq.symm.trans heq')).2.2
      have hvisible := (visible_dataFileName back' .dat).mpr rfl
      rw [← hname, visible_dataFileName] at hvisible
      cases hvisible
    · intro getFileTimestamp file timestamp
      rw [DataSpace.offered, List.mem_filter, List.mem_map, ← harchived]
      constructor
      · rintro ⟨⟨_, hmem, heq⟩, htime⟩
        cases heq
        exact ⟨rfl, by simpa using htime, hmem⟩
      · rintro ⟨rfl, htime, hmem⟩
        exact ⟨⟨file, hmem, rfl⟩, by simpa using htime⟩

/-- A block on the second of two storage backends. -/
def twoBackends : DataSpace where
  storageBackends := 2
  pos := Nat.zero_lt_two
  openDir dir :=
    if dir = .dataRoot 1 then some [hex 7]
    else if dir = (Path.dataRoot 1).child (hex 7) then some [dataFileName 3 .dat]
    else if dir = .dataRoot 0 then some []
    else none
  nodup h := by
    split_ifs at h <;> cases h <;> simp
  shards h name hname := by
    split_ifs at h <;> cases h <;> simp_all [Path.dataRoot, Path.child]
  blocks h name hname := by
    split_ifs at h <;> cases h <;> simp_all [Path.dataRoot, Path.child]

/-- The recycler looks at the first storage backend only. -/
theorem not_seesAll : ¬ twoBackends.SeesAll := by
  intro h
  have hholds : twoBackends.Holds .dat 1 7 (((Path.dataRoot 1).child (hex 7)).child (dataFileName 3 .dat)) :=
    ⟨by decide, ⟨[hex 7], rfl, List.mem_singleton_self _⟩,
      ⟨[dataFileName 3 .dat], 3, rfl, List.mem_singleton_self _, rfl⟩⟩
  obtain ⟨front, hzero, _⟩ := mem_recyclable.mp ((h.archived _).mpr ⟨1, 7, hholds⟩)
  obtain ⟨_, back, _, _, heq⟩ := hzero.readable
  cases (child_child_inj heq).1


end DataSpace

end UnifiedCache.NfsStore
