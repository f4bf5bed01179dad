import UnifiedCache.Types

/-! Where the posix store keeps the data of a block. -/

namespace UnifiedCache.PosixStore

abbrev Path := List Char

/-- The backends end with a slash, as `AddStorageBackend` leaves them. -/
structure SpaceLayout where
  storageBackends : List Path
  dataDirShardBytes : Nat
  blockIdHasher : BlockId → UInt64

def dataRoot : Path := ['d', 'a', 't', 'a']

def activatedFileExtension : Path := ['.', 't', 'm', 'p']

def hexByte (b : UInt8) : Path := [Nat.digitChar (b.toNat / 16), Nat.digitChar (b.toNat % 16)]

def dataFileName (blockId : BlockId) : Path := blockId.toList.flatMap hexByte

namespace SpaceLayout

variable (layout : SpaceLayout)

def storageBackend (blockId : BlockId) : Path :=
  if layout.storageBackends.length = 1 then layout.storageBackends.headD []
  else layout.storageBackends.getD
    ((layout.blockIdHasher blockId).toNat % layout.storageBackends.length) []

def fileShardName (fileName : Path) : Path := fileName.take layout.dataDirShardBytes

def dataFilePath (blockId : BlockId) (activated : Bool) : Path :=
  let file := dataFileName blockId
  let shard := if 0 < layout.dataDirShardBytes then layout.fileShardName file else dataRoot
  layout.storageBackend blockId ++ shard ++ '/' ::
    (file ++ if activated then activatedFileExtension else [])

end SpaceLayout

theorem digitChar_inj {m n : Nat} (hm : m < 16) (hn : n < 16) (h : Nat.digitChar m = Nat.digitChar n) :
    m = n := by
  have hall : ∀ m n : Fin 16, Nat.digitChar m = Nat.digitChar n → m = n := by decide
  exact congrArg Fin.val (hall ⟨m, hm⟩ ⟨n, hn⟩ h)

theorem digitChar_ne_slash {n : Nat} (hn : n < 16) : Nat.digitChar n ≠ '/' := by
  have hall : ∀ n : Fin 16, Nat.digitChar n ≠ '/' := by decide
  exact hall ⟨n, hn⟩

theorem hexByte_inj {a b : UInt8} (h : hexByte a = hexByte b) : a = b := by
  have ha := a.toNat_lt
  have hb := b.toNat_lt
  simp only [hexByte, List.cons.injEq, and_true] at h
  have hhigh := digitChar_inj (by omega) (by omega) h.1
  have hlow := digitChar_inj (by omega) (by omega) h.2
  apply UInt8.toNat_inj.mp
  omega

theorem flatMap_hexByte_inj {l l' : List UInt8} (h : l.flatMap hexByte = l'.flatMap hexByte) :
    l = l' := by
  induction l generalizing l' with
  | nil =>
    cases l' with
    | nil => rfl
    | cons b l' => simp [hexByte] at h
  | cons a l ih =>
    cases l' with
    | nil => simp [hexByte] at h
    | cons b l' =>
      obtain ⟨hab, hl⟩ := List.append_inj h rfl
      rw [hexByte_inj hab, ih hl]

theorem dataFileName_inj {a b : BlockId} (h : dataFileName a = dataFileName b) : a = b :=
  Vector.toList_inj.mp (flatMap_hexByte_inj h)

theorem dataFileName_length (b : BlockId) : (dataFileName b).length = 32 := by
  simp [dataFileName, hexByte, List.length_flatMap]

theorem slash_not_mem_dataFileName (b : BlockId) : '/' ∉ dataFileName b := by
  intro h
  obtain ⟨x, _, hx⟩ := List.mem_flatMap.mp h
  have := x.toNat_lt
  simp only [hexByte, List.mem_cons, List.not_mem_nil, or_false] at hx
  rcases hx with hx | hx
  · exact digitChar_ne_slash (by omega) hx.symm
  · exact digitChar_ne_slash (by omega) hx.symm

/-- What follows the last slash of a path. -/
theorem append_slash_inj {x x' y y' : Path} (hy : '/' ∉ y) (hy' : '/' ∉ y')
    (h : x ++ '/' :: y = x' ++ '/' :: y') : y = y' := by
  have hlast : ∀ x y : Path, '/' ∉ y → (x ++ '/' :: y).reverse.takeWhile (· ≠ '/') = y.reverse := by
    intro x y hy
    rw [List.reverse_append, List.reverse_cons, List.append_assoc, List.takeWhile_append_of_pos]
    · simp
    · intro c hc
      have hne : c ≠ '/' := ne_of_mem_of_not_mem (List.mem_reverse.mp hc) hy
      simpa using hne
  have := hlast x y hy
  rw [h, hlast x' y' hy'] at this
  exact (List.reverse_inj.mp this).symm

/-- No two blocks share a data file, and no data file is a temporary one. -/
theorem SpaceLayout.dataFilePath_inj (layout : SpaceLayout) {b b' : BlockId} {a a' : Bool} :
    layout.dataFilePath b a = layout.dataFilePath b' a' ↔ b = b' ∧ a = a' := by
  constructor
  · intro h
    have hslash : ∀ (b : BlockId) (a : Bool),
        '/' ∉ dataFileName b ++ if a then activatedFileExtension else [] := by
      intro b a hm
      rcases List.mem_append.mp hm with hm | hm
      · exact slash_not_mem_dataFileName b hm
      · cases a
        · cases hm
        · exact absurd hm (by decide)
    obtain ⟨hname, hext⟩ := List.append_inj (append_slash_inj (hslash b a) (hslash b' a') h)
      (by rw [dataFileName_length, dataFileName_length])
    refine ⟨dataFileName_inj hname, ?_⟩
    cases a <;> cases a' <;> simp [activatedFileExtension] at hext ⊢
  · rintro ⟨rfl, rfl⟩
    rfl

end UnifiedCache.PosixStore
