import UnifiedCache.Posix.SpaceLayout

/-! The directories of the data files: `Setup` lists them by counting, `DataFilePath` takes the
start of the name of the file. -/

namespace UnifiedCache.PosixStore

def hexChars : Path := ['0', '1', '2', '3', '4', '5', '6', '7', '8', '9', 'a', 'b', 'c', 'd', 'e', 'f']

/-- The inner loop of `GenerateHexStrings`, from the place before `j` down. -/
def fillHex : Nat → Nat → Path → Path
  | 0, _, s => s
  | j + 1, temp, s => fillHex j (temp / 16) (s.set j (hexChars.getD (temp % 16) '0'))

def hexString (n i : Nat) : Path := fillHex n i (List.replicate n '0')

/-- From 16 digits on the source shifts by all bits of its word, which is undefined. -/
def generateHexStrings (n : Nat) : List Path :=
  if n = 0 then [] else (List.range ((1 <<< (n * 4)) % 2 ^ 64)).map (hexString n)

inductive DirStatus where
  | ok
  | duplicateKey
  | notFound
  | osApiError (errno : Nat)
  deriving DecidableEq

/-- What the file system answers to a path after the paths asked before. -/
structure DirCalls where
  mkDir : List Path → Path → DirStatus
  access : List Path → Path → DirStatus

namespace SpaceLayout

structure Config where
  storageBackends : List Path
  dataDirShardBytes : Nat

/-- What `CheckConfig` asks of the two fields. -/
def Config.Accepted (config : Config) : Prop :=
  config.storageBackends ≠ [] ∧ config.dataDirShardBytes ≤ 5

instance (config : Config) : Decidable config.Accepted :=
  inferInstanceAs (Decidable (_ ∧ _))

def relativeRoots (layout : SpaceLayout) : List Path :=
  if 0 < layout.dataDirShardBytes then generateHexStrings layout.dataDirShardBytes else [dataRoot]

/-- The loop over the roots, with the directories it went through. -/
def eachRoot (call : List Path → Path → DirStatus) (path : Path) :
    List Path → List Path → Except DirStatus (List Path)
  | dirs, [] => .ok dirs
  | dirs, root :: roots =>
    match call dirs (path ++ root) with
    | .ok => eachRoot call path (dirs ++ [path ++ root]) roots
    | status => .error status

/-- A directory that is there already is as good as a new one. -/
def madeDir : DirStatus → DirStatus
  | .duplicateKey => .ok
  | status => status

def addFirstStorageBackend (calls : DirCalls) (layout : SpaceLayout) (dirs : List Path) (path : Path) :
    Except DirStatus (SpaceLayout × List Path) := do
  let dirs ← eachRoot (fun dirs dir => madeDir (calls.mkDir dirs dir)) path dirs layout.relativeRoots
  return ({ layout with storageBackends := layout.storageBackends ++ [path] }, dirs)

def addSecondaryStorageBackend (calls : DirCalls) (layout : SpaceLayout) (dirs : List Path) (path : Path) :
    Except DirStatus (SpaceLayout × List Path) :=
  if path ∈ layout.storageBackends then return (layout, dirs) else do
    let dirs ← eachRoot calls.access path dirs layout.relativeRoots
    return ({ layout with storageBackends := layout.storageBackends ++ [path] }, dirs)

/-- The back of an empty path is undefined. It is taken for no slash here. -/
def normalizedPath (path : Path) : Path := if path.getLast? = some '/' then path else path ++ ['/']

def addStorageBackend (calls : DirCalls) (layout : SpaceLayout) (dirs : List Path) (path : Path) :
    Except DirStatus (SpaceLayout × List Path) :=
  if layout.storageBackends = [] then addFirstStorageBackend calls layout dirs (normalizedPath path)
  else addSecondaryStorageBackend calls layout dirs (normalizedPath path)

/-- `Setup` of a new layout, with the directories that it created or checked. -/
def setup (calls : DirCalls) (hasher : BlockId → UInt64) (config : Config) :
    Except DirStatus (SpaceLayout × List Path) :=
  config.storageBackends.foldlM (fun (layout, dirs) path => addStorageBackend calls layout dirs path)
    (⟨[], config.dataDirShardBytes, hasher⟩, [])

end SpaceLayout

/-- The path up to its last slash. -/
def parentPath (path : Path) : Path := ((path.reverse.dropWhile (· ≠ '/')).drop 1).reverse

section HexStrings

variable {n i j : Nat} {s : Path}

theorem getD_hexChars (hi : i < 16) : hexChars.getD i '0' = Nat.digitChar i := by
  have hall : ∀ i : Fin 16, hexChars.getD i '0' = Nat.digitChar i := by decide
  exact hall ⟨i, hi⟩

theorem fillHex_append (t : Path) (hs : s.length = j) : fillHex j i (s ++ t) = fillHex j i s ++ t := by
  induction j generalizing s t i with
  | zero => rfl
  | succ j ih =>
    obtain ⟨s, c, rfl⟩ := (List.eq_nil_or_concat' s).resolve_left (by rintro rfl; cases hs)
    have hj : s.length = j := by simpa using hs
    have hset (d : Char) : (s ++ [c]).set j d = s ++ [d] := by
      rw [List.set_append_right _ _ hj.le, hj, Nat.sub_self, List.set_cons_zero]
    have hset' (d : Char) : (s ++ [c] ++ t).set j d = s ++ ([d] ++ t) := by
      rw [List.set_append_left _ _ (by simp [hj]), hset, List.append_assoc]
    rw [fillHex, fillHex, hset, hset', ih _ hj, ih _ hj, List.append_assoc]

/-- The last digit is the one filled first. -/
theorem hexString_succ (n i : Nat) : hexString (n + 1) i = hexString n (i / 16) ++ [Nat.digitChar (i % 16)] := by
  have hn : (List.replicate n '0').length = n := List.length_replicate
  have hset (d : Char) : (List.replicate (n + 1) '0').set n d = List.replicate n '0' ++ [d] := by
    rw [List.replicate_succ', List.set_append_right _ _ hn.le, hn, Nat.sub_self, List.set_cons_zero]
  rw [hexString, fillHex, hset, fillHex_append _ hn, getD_hexChars (Nat.mod_lt _ (by decide))]
  rfl

theorem length_hexString (n i : Nat) : (hexString n i).length = n := by
  induction n generalizing i with
  | zero => rfl
  | succ n ih => rw [hexString_succ, List.length_append, ih, List.length_singleton]

theorem digitChar_mem_hexChars (hi : i < 16) : Nat.digitChar i ∈ hexChars := by
  have hall : ∀ i : Fin 16, Nat.digitChar i ∈ hexChars := by decide
  exact hall ⟨i, hi⟩

theorem mem_hexChars {c : Char} (hc : c ∈ hexChars) : ∃ i < 16, Nat.digitChar i = c := by
  have hall : hexChars = (List.range 16).map Nat.digitChar := by decide
  rw [hall] at hc
  obtain ⟨i, hi, rfl⟩ := List.mem_map.mp hc
  exact ⟨i, List.mem_range.mp hi, rfl⟩

theorem mem_hexString (n i : Nat) : ∀ c ∈ hexString n i, c ∈ hexChars := by
  induction n generalizing i with
  | zero => exact fun c hc => absurd hc List.not_mem_nil
  | succ n ih =>
    intro c hc
    rw [hexString_succ] at hc
    rcases List.mem_append.mp hc with hc | hc
    · exact ih _ c hc
    · rw [List.mem_singleton.mp hc]
      exact digitChar_mem_hexChars (Nat.mod_lt _ (by decide))

theorem hexString_inj (hi : i < 16 ^ n) (hj : j < 16 ^ n) (h : hexString n i = hexString n j) : i = j := by
  induction n generalizing i j with
  | zero => omega
  | succ n ih =>
    rw [hexString_succ, hexString_succ] at h
    obtain ⟨hinit, hlast⟩ := List.append_inj h (by rw [length_hexString, length_hexString])
    have hhigh : i / 16 = j / 16 := ih (by omega) (by omega) hinit
    have hlow : i % 16 = j % 16 :=
      digitChar_inj (Nat.mod_lt _ (by decide)) (Nat.mod_lt _ (by decide)) (List.cons.inj hlast).1
    omega

theorem exists_hexString (hs : ∀ c ∈ s, c ∈ hexChars) : ∃ i < 16 ^ s.length, hexString s.length i = s := by
  induction s using List.reverseRecOn with
  | nil => exact ⟨0, by decide, rfl⟩
  | append_singleton s c ih =>
    obtain ⟨i, hi, hinit⟩ := ih fun c hc => hs c (List.mem_append_left _ hc)
    obtain ⟨d, hd, hlast⟩ := mem_hexChars (hs c (List.mem_append_right _ (List.mem_singleton_self c)))
    have hlen : (s ++ [c]).length = s.length + 1 := List.length_append
    refine ⟨i * 16 + d, by rw [hlen]; omega, ?_⟩
    rw [hlen, hexString_succ, show (i * 16 + d) / 16 = i by omega, show (i * 16 + d) % 16 = d by omega, hinit, hlast]

theorem generateHexStrings_eq (hn : 0 < n) (h16 : n < 16) :
    generateHexStrings n = (List.range (16 ^ n)).map (hexString n) := by
  have hpow : (1 <<< (n * 4)) = 16 ^ n := by
    rw [Nat.one_shiftLeft, Nat.mul_comm, Nat.pow_mul]
  have hlt : 16 ^ n < 2 ^ 64 := by
    calc 16 ^ n < 16 ^ 16 := Nat.pow_lt_pow_right (by decide) h16
      _ = 2 ^ 64 := by decide
  rw [generateHexStrings, if_neg hn.ne', hpow, Nat.mod_eq_of_lt hlt]

theorem nodup_generateHexStrings (hn : 0 < n) (h16 : n < 16) : (generateHexStrings n).Nodup := by
  rw [generateHexStrings_eq hn h16]
  apply List.Nodup.map_on _ List.nodup_range
  intro i hi j hj h
  exact hexString_inj (List.mem_range.mp hi) (List.mem_range.mp hj) h

theorem mem_generateHexStrings (hn : 0 < n) (h16 : n < 16) :
    s ∈ generateHexStrings n ↔ s.length = n ∧ ∀ c ∈ s, c ∈ hexChars := by
  rw [generateHexStrings_eq hn h16, List.mem_map]
  constructor
  · rintro ⟨i, -, rfl⟩
    exact ⟨length_hexString n i, mem_hexString n i⟩
  · rintro ⟨rfl, hs⟩
    obtain ⟨i, hi, h⟩ := exists_hexString hs
    exact ⟨i, List.mem_range.mpr hi, h⟩

end HexStrings

/-- The bytes of an id are written with the digits that the directories are named with. -/
theorem mem_dataFileName (b : BlockId) : ∀ c ∈ dataFileName b, c ∈ hexChars := by
  intro c hc
  obtain ⟨x, -, hx⟩ := List.mem_flatMap.mp hc
  have hlt := x.toNat_lt
  simp only [hexByte, List.mem_cons, List.not_mem_nil, or_false] at hx
  rcases hx with rfl | rfl
  · exact digitChar_mem_hexChars (by omega)
  · exact digitChar_mem_hexChars (by omega)

theorem parentPath_append {parent name : Path} (hname : '/' ∉ name) : parentPath (parent ++ '/' :: name) = parent := by
  have hdrop : (name.reverse ++ '/' :: parent.reverse).dropWhile (· ≠ '/') = '/' :: parent.reverse := by
    rw [List.dropWhile_append_of_pos]
    · simp
    · intro c hc
      have hne : c ≠ '/' := ne_of_mem_of_not_mem (List.mem_reverse.mp hc) hname
      simpa using hne
  rw [parentPath, List.reverse_append, List.reverse_cons, List.append_assoc, List.singleton_append, hdrop,
    List.drop_one, List.tail_cons, List.reverse_reverse]

namespace SpaceLayout

variable {calls : DirCalls} {layout layout' : SpaceLayout} {dirs dirs' roots : List Path} {path : Path}

theorem eachRoot_spec {call : List Path → Path → DirStatus} (h : eachRoot call path dirs roots = .ok dirs') :
    dirs' = dirs ++ roots.map (path ++ ·) := by
  induction roots generalizing dirs with
  | nil =>
    rw [List.map_nil, List.append_nil]
    exact (Except.ok.inj h).symm
  | cons root roots ih =>
    rw [eachRoot] at h
    split at h
    · rw [ih h, List.map_cons, List.append_assoc, List.singleton_append]
    · cases h

/-- Every backend with every root is a directory that was created or checked. -/
def Closed (layout : SpaceLayout) (dirs : List Path) : Prop :=
  ∀ backend ∈ layout.storageBackends, ∀ root ∈ layout.relativeRoots, backend ++ root ∈ dirs

/-- A backend that is added is added with all its roots. -/
theorem addStorageBackend_spec (h : addStorageBackend calls layout dirs path = .ok (layout', dirs')) :
    (layout' = layout ∧ dirs' = dirs ∧ layout.storageBackends ≠ []) ∨
    (layout' = { layout with storageBackends := layout.storageBackends ++ [normalizedPath path] } ∧
      dirs' = dirs ++ layout.relativeRoots.map (normalizedPath path ++ ·)) := by
  have hadded {call : List Path → Path → DirStatus}
      (h : (do let dirs ← eachRoot call (normalizedPath path) dirs layout.relativeRoots
               return ({ layout with storageBackends := layout.storageBackends ++ [normalizedPath path] }, dirs) :
          Except DirStatus (SpaceLayout × List Path)) = .ok (layout', dirs')) :
      layout' = { layout with storageBackends := layout.storageBackends ++ [normalizedPath path] } ∧
        dirs' = dirs ++ layout.relativeRoots.map (normalizedPath path ++ ·) := by
    cases hroots : eachRoot call (normalizedPath path) dirs layout.relativeRoots with
    | error status =>
      rw [hroots] at h
      cases h
    | ok dirs'' =>
      rw [hroots] at h
      obtain ⟨rfl, rfl⟩ := Prod.mk.inj (Except.ok.inj h)
      exact ⟨rfl, eachRoot_spec hroots⟩
  rw [addStorageBackend] at h
  split at h
  · exact .inr (hadded h)
  · rename_i hne
    rw [addSecondaryStorageBackend] at h
    split at h
    · obtain ⟨rfl, rfl⟩ := Prod.mk.inj (Except.ok.inj h)
      exact .inl ⟨rfl, rfl, hne⟩
    · exact .inr (hadded h)

theorem Closed.addStorageBackend (hc : Closed layout dirs)
    (h : addStorageBackend calls layout dirs path = .ok (layout', dirs')) :
    Closed layout' dirs' ∧ layout'.dataDirShardBytes = layout.dataDirShardBytes ∧ layout'.storageBackends ≠ [] := by
  obtain ⟨rfl, rfl, hne⟩ | ⟨rfl, rfl⟩ := addStorageBackend_spec h
  · exact ⟨hc, rfl, hne⟩
  · refine ⟨?_, rfl, List.append_ne_nil_of_right_ne_nil _ (List.cons_ne_nil _ _)⟩
    intro backend hbackend root hroot
    rcases List.mem_append.mp hbackend with hbackend | hbackend
    · exact List.mem_append_left _ (hc backend hbackend root hroot)
    · rw [List.mem_singleton.mp hbackend]
      exact List.mem_append_right _ (List.mem_map_of_mem hroot)

theorem Closed.foldlM {paths : List Path} (hc : Closed layout dirs)
    (h : paths.foldlM (fun (layout, dirs) path => SpaceLayout.addStorageBackend calls layout dirs path)
      (layout, dirs) = .ok (layout', dirs')) :
    Closed layout' dirs' ∧ layout'.dataDirShardBytes = layout.dataDirShardBytes ∧
      (paths ≠ [] ∨ layout.storageBackends ≠ [] → layout'.storageBackends ≠ []) := by
  induction paths generalizing layout dirs with
  | nil =>
    obtain ⟨rfl, rfl⟩ := Prod.mk.inj (Except.ok.inj h)
    exact ⟨hc, rfl, fun hne => hne.resolve_left fun he => he rfl⟩
  | cons path paths ih =>
    rw [List.foldlM_cons] at h
    dsimp only at h
    cases hadd : SpaceLayout.addStorageBackend calls layout dirs path with
    | error status =>
      rw [hadd] at h
      cases h
    | ok added =>
      rw [hadd] at h
      obtain ⟨hc', hshard, hne⟩ := hc.addStorageBackend hadd
      obtain ⟨hclosed, hshard', hne'⟩ := ih hc' h
      exact ⟨hclosed, hshard'.trans hshard, fun _ => hne' (.inr hne)⟩

theorem storageBackend_mem (layout : SpaceLayout) (b : BlockId) (hne : layout.storageBackends ≠ []) :
    layout.storageBackend b ∈ layout.storageBackends := by
  have hpos := List.length_pos_of_ne_nil hne
  rw [storageBackend]
  split
  · rw [List.headD_eq_head?_getD, List.head?_eq_some_head hne]
    exact List.head_mem hne
  · have hlt := Nat.mod_lt (layout.blockIdHasher b).toNat hpos
    rw [List.getD_eq_getElem _ _ hlt]
    exact List.getElem_mem hlt

/-- The directory that `DataFilePath` puts a file in. -/
def shardOf (layout : SpaceLayout) (b : BlockId) : Path :=
  if 0 < layout.dataDirShardBytes then layout.fileShardName (dataFileName b) else dataRoot

theorem shardOf_mem (layout : SpaceLayout) (b : BlockId) (h5 : layout.dataDirShardBytes ≤ 5) :
    layout.shardOf b ∈ layout.relativeRoots := by
  rw [shardOf, relativeRoots]
  split
  · rename_i hpos
    rw [mem_generateHexStrings hpos (by omega)]
    have hlen : (layout.fileShardName (dataFileName b)).length = layout.dataDirShardBytes := by
      rw [fileShardName, List.length_take, dataFileName_length]
      omega
    exact ⟨hlen, fun c hc => mem_dataFileName b c (List.mem_of_mem_take hc)⟩
  · exact List.mem_singleton_self _

theorem parentPath_dataFilePath (layout : SpaceLayout) (b : BlockId) (activated : Bool) :
    parentPath (layout.dataFilePath b activated) = layout.storageBackend b ++ layout.shardOf b := by
  have hslash : '/' ∉ dataFileName b ++ if activated then activatedFileExtension else [] := by
    intro hm
    rcases List.mem_append.mp hm with hm | hm
    · exact slash_not_mem_dataFileName b hm
    · cases activated
      · cases hm
      · exact absurd hm (by decide)
  exact parentPath_append hslash

/-- Every data file has a name of its own in a directory that `Setup` went through. -/
theorem dataFilePath_closed (calls : DirCalls) (hasher : BlockId → UInt64) (config : Config)
    (haccepted : config.Accepted) (h : setup calls hasher config = .ok (layout, dirs)) :
    (∀ b b' a a', layout.dataFilePath b a = layout.dataFilePath b' a' → b = b' ∧ a = a') ∧
    (∀ b a, parentPath (layout.dataFilePath b a) ∈ dirs ∧
      ∃ backend ∈ layout.storageBackends, ∃ root ∈ layout.relativeRoots,
        parentPath (layout.dataFilePath b a) = backend ++ root) ∧
    ∀ n, 1 ≤ n → n < 16 → (generateHexStrings n).Nodup ∧
      ∀ s, s ∈ generateHexStrings n ↔ s.length = n ∧ ∀ c ∈ s, c ∈ hexChars := by
  obtain ⟨hclosed, hshard, hne⟩ := Closed.foldlM (fun backend hb => absurd hb List.not_mem_nil) h
  have h5 : layout.dataDirShardBytes ≤ 5 := hshard ▸ haccepted.2
  refine ⟨fun b b' a a' hpath => layout.dataFilePath_inj.mp hpath, ?_, ?_⟩
  · intro b a
    have hbackend := layout.storageBackend_mem b (hne (.inl haccepted.1))
    have hroot := layout.shardOf_mem b h5
    rw [parentPath_dataFilePath]
    exact ⟨hclosed _ hbackend _ hroot, _, hbackend, _, hroot, rfl⟩
  · intro n hn h16
    exact ⟨nodup_generateHexStrings hn h16, fun s => mem_generateHexStrings hn h16⟩

/-- Two backends, the second one given twice, without shards. -/
theorem dataFilePath_closed_two :
    ∃ layout dirs, dirs = [['a', '/', 'd', 'a', 't', 'a'], ['b', '/', 'd', 'a', 't', 'a']] ∧
      ∀ b a, parentPath (SpaceLayout.dataFilePath layout b a) ∈ dirs := by
  refine ⟨⟨[['a', '/'], ['b', '/']], 0, fun _ => 0⟩, _, rfl, fun b a => ?_⟩
  exact ((dataFilePath_closed ⟨fun _ _ => .duplicateKey, fun _ _ => .ok⟩ (fun _ => 0)
    ⟨[['a'], ['b', '/'], ['b']], 0⟩ (by decide) rfl).2.1 b a).1

/-- The one string without digits is left out. -/
theorem generateHexStrings_zero :
    ¬ ∀ n s, s ∈ generateHexStrings n ↔ s.length = n ∧ ∀ c ∈ s, c ∈ hexChars := by
  intro h
  exact absurd ((h 0 []).mpr ⟨rfl, fun c hc => absurd hc List.not_mem_nil⟩) List.not_mem_nil

end SpaceLayout

end UnifiedCache.PosixStore
