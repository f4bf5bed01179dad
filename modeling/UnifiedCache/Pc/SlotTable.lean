import UnifiedCache.Lib.LinearProbe
import UnifiedCache.Pc.ShareBuffer

/-! The headers of the share buffer as a table that is probed from the hash of a block, with `AcquireBlock`
and `ReleaseBlock` as one step each. -/

namespace UnifiedCache.PcStore.ShareBuffer

open LinearProbe StepSystem

/-- What comes after the loop of `AcquireBlock`. -/
def takeReused (headers : Nat → ShareBlockHeader) (block : BlockId) :
    Option Nat → Option Nat × (Nat → ShareBlockHeader)
  | some pos => (some pos, Function.update headers pos (.occupy block))
  | none => (none, headers)

/-- The loop of `AcquireBlock`, with the rounds that are left. -/
def probe (config : Config) (headers : Nat → ShareBlockHeader) (block : BlockId) :
    Nat → Nat → Option Nat → Option Nat × (Nat → ShareBlockHeader)
  | 0, _, reusedPos => takeReused headers block reusedPos
  | rounds + 1, pos, reusedPos =>
    let header := headers pos
    if header.id = block then (some pos, Function.update headers pos header.refer)
    else if !header.used then
      match reusedPos with
      | some _ => takeReused headers block reusedPos
      | none => (some pos, Function.update headers pos (.occupy block))
    else
      probe config headers block rounds ((pos + 1) % config.blockNumber)
        (if header.ref ≤ 0 ∧ reusedPos = none then some pos else reusedPos)

/-- `AcquireBlock`, which returns no position where it fails. -/
def acquireBlockAt (config : Config) (headers : Nat → ShareBlockHeader) (block : BlockId) :
    Option Nat × (Nat → ShareBlockHeader) :=
  probe config headers block config.blockNumber (config.hasher block % config.blockNumber) none

section Rounds

variable {Party : Type} [DecidableEq Party] {config : Config} {s : ShareBuffer Party} {party : Party}
  {block : BlockId} {i pos : Nat} {reusedPos : Option Nat}

theorem acquire_round {n : Nat} {s' s'' : ShareBuffer Party} (hcall : s.calls party = .acquiring block i pos reusedPos)
    (hs : s.acquireBlock config party block i pos reusedPos = s')
    (hrun : run (step config) s' (List.replicate n (.acquire party)) = some s'') :
    run (step config) s (List.replicate (n + 1) (.acquire party)) = some s'' := by
  rw [List.replicate_succ, run, step, hcall]
  simp only [hs, Option.bind_some]
  exact hrun

theorem run_takeReused (hcall : s.calls party = .acquiring block i pos reusedPos) (hi : ¬ i < config.blockNumber) :
    ∃ s', run (step config) s (List.replicate 1 (.acquire party)) = some s' ∧
      s'.headers = (takeReused s.headers block reusedPos).2 ∧
      s'.calls party = .live ⟨block, (takeReused s.headers block reusedPos).1, false, .made⟩ := by
  refine ⟨_, acquire_round hcall rfl rfl, ?_, ?_⟩
  · simp only [acquireBlock, if_neg hi]
    cases reusedPos <;> rfl
  · simp only [acquireBlock, if_neg hi]
    cases reusedPos <;> exact Function.update_self ..

/-- The rounds of a thread in `AcquireBlock` that nothing comes between. -/
theorem run_probe {rounds : Nat} (hcall : s.calls party = .acquiring block i pos reusedPos)
    (hi : i + rounds = config.blockNumber) :
    ∃ n s', run (step config) s (List.replicate n (.acquire party)) = some s' ∧
      s'.headers = (probe config s.headers block rounds pos reusedPos).2 ∧
      s'.calls party = .live ⟨block, (probe config s.headers block rounds pos reusedPos).1, false, .made⟩ := by
  induction rounds generalizing s i pos reusedPos with
  | zero => exact ⟨1, run_takeReused hcall (by omega)⟩
  | succ rounds ih =>
    have hlt : i < config.blockNumber := by omega
    simp only [probe]
    by_cases hid : (s.headers pos).id = block
    · refine ⟨1, _, acquire_round hcall rfl rfl, ?_, ?_⟩
      · simp only [acquireBlock, if_pos hlt, if_pos hid]
        rfl
      · simp only [acquireBlock, if_pos hlt, if_pos hid]
        exact Function.update_self ..
    · rw [if_neg hid]
      by_cases hused : (s.headers pos).used = true
      · rw [if_neg (by simpa using hused)]
        have hround : s.acquireBlock config party block i pos reusedPos = s.setCall party
            (.acquiring block (i + 1) ((pos + 1) % config.blockNumber)
              (if (s.headers pos).ref ≤ 0 ∧ reusedPos = none then some pos else reusedPos)) := by
          simp only [acquireBlock, if_pos hlt, if_neg hid, hused, Bool.not_true, Bool.false_eq_true, if_false]
        obtain ⟨n, s', hrun, hs'⟩ := ih (s := s.setCall party _) (Function.update_self ..) (by omega : i + 1 + rounds = _)
        exact ⟨n + 1, s', acquire_round hcall hround hrun, hs'⟩
      · rw [if_pos (by simpa using hused)]
        rw [Bool.not_eq_true] at hused
        cases reusedPos with
        | some r =>
          have hround : s.acquireBlock config party block i pos (some r) =
              s.setCall party (.acquiring block config.blockNumber pos (some r)) := by
            simp only [acquireBlock, if_pos hlt, if_neg hid, hused, Bool.not_false, if_true]
          have hcall' : (s.setCall party (.acquiring block config.blockNumber pos (some r))).calls party =
              .acquiring block config.blockNumber pos (some r) := Function.update_self ..
          obtain ⟨s', hrun, hs'⟩ := run_takeReused hcall' (lt_irrefl config.blockNumber)
          exact ⟨2, s', acquire_round hcall hround hrun, hs'⟩
        | none =>
          refine ⟨1, _, acquire_round hcall rfl rfl, ?_, ?_⟩
          · simp only [acquireBlock, if_pos hlt, if_neg hid, hused, Bool.not_false, if_true]
            rfl
          · simp only [acquireBlock, if_pos hlt, if_neg hid, hused, Bool.not_false, if_true]
            exact Function.update_self ..

end Rounds

/-- `held` counts the acquisitions of a slot that are not released. -/
structure SlotTable where
  headers : Nat → ShareBlockHeader
  held : Nat → Nat

inductive SlotEvent where
  | acquire (block : BlockId)
  | release (index : Nat)
  deriving DecidableEq

namespace SlotTable

def start : SlotTable := ⟨fun _ => ⟨zeroId, 0, .init⟩, fun _ => 0⟩

def step (config : Config) (s : SlotTable) : SlotEvent → Option SlotTable
  | .acquire block =>
    if block = zeroId then none
    else
      match acquireBlockAt config s.headers block with
      | (some pos, headers) => some ⟨headers, Function.update s.held pos (s.held pos + 1)⟩
      | (none, headers) => some ⟨headers, s.held⟩
  | .release index =>
    if 0 < s.held index then
      let header := s.headers index
      some ⟨Function.update s.headers index { header with ref := header.ref - 1 },
        Function.update s.held index (s.held index - 1)⟩
    else none

end SlotTable

variable {config : Config} {headers : Nat → ShareBlockHeader} {block : BlockId} {p q d : Nat}

/-- The table of the ids. -/
def slots (config : Config) (headers : Nat → ShareBlockHeader) : List (Option BlockId) :=
  (List.range config.blockNumber).map fun p => if (headers p).used then some (headers p).id else none

theorem length_slots : (slots config headers).length = config.blockNumber := by
  rw [slots, List.length_map, List.length_range]

theorem slotAt_slots (hp : p < config.blockNumber) :
    slotAt (slots config headers) p = if (headers p).used then some (headers p).id else none := by
  simp [slotAt, slots, hp]

theorem slotAt_eq_some : slotAt (slots config headers) p = some block ↔
    p < config.blockNumber ∧ (headers p).used = true ∧ (headers p).id = block := by
  constructor
  · intro h
    have hp := slotAt_lt h
    rw [length_slots] at hp
    rw [slotAt_slots hp] at h
    split_ifs at h with hu
    exact ⟨hp, hu, Option.some.inj h⟩
  · rintro ⟨hp, hu, rfl⟩
    rw [slotAt_slots hp, if_pos hu]

/-- A header with the same id. -/
theorem slots_update_same {header : ShareBlockHeader} (hid : header.id = (headers p).id) :
    slots config (Function.update headers p header) = slots config headers := by
  refine List.map_congr_left fun q _ => ?_
  by_cases he : q = p
  · have hu : header.used = (headers p).used := by rw [ShareBlockHeader.used, ShareBlockHeader.used, hid]
    rw [he, Function.update_self, hu, hid]
  · rw [Function.update_of_ne he]

theorem slots_update {header : ShareBlockHeader} (hu : header.used = true) :
    slots config (Function.update headers p header) = (slots config headers).set p (some header.id) := by
  refine List.ext_getElem (by rw [List.length_set, length_slots, length_slots]) fun q hq _ => ?_
  rw [length_slots] at hq
  rw [List.getElem_set]
  simp only [slots, List.getElem_map, List.getElem_range, Function.update_apply]
  by_cases he : p = q
  · rw [if_pos he.symm, if_pos hu, if_pos he]
  · rw [if_neg (Ne.symm he), if_neg he]

/-- The slots that the loop has passed. -/
structure Passed (config : Config) (headers : Nat → ShareBlockHeader) (block : BlockId) (d : Nat)
    (reusedPos : Option Nat) : Prop where
  used : ∀ e < d, (headers (ringSlot config.blockNumber (config.hasher block) e)).used = true
  other : ∀ e < d, (headers (ringSlot config.blockNumber (config.hasher block) e)).id ≠ block
  referenced : reusedPos = none → ∀ e < d, 0 < (headers (ringSlot config.blockNumber (config.hasher block) e)).ref
  reusable : ∀ pos, reusedPos = some pos → ∃ e < d, pos = ringSlot config.blockNumber (config.hasher block) e ∧
    (headers pos).ref ≤ 0

theorem Passed.next {reusedPos : Option Nat} (h : Passed config headers block d reusedPos)
    (hused : (headers (ringSlot config.blockNumber (config.hasher block) d)).used = true)
    (hother : (headers (ringSlot config.blockNumber (config.hasher block) d)).id ≠ block) :
    Passed config headers block (d + 1)
      (if (headers (ringSlot config.blockNumber (config.hasher block) d)).ref ≤ 0 ∧ reusedPos = none then
        some (ringSlot config.blockNumber (config.hasher block) d) else reusedPos) := by
  have hsplit : ∀ {P : Nat → Prop}, (∀ e < d, P e) → P d → ∀ e < d + 1, P e := by
    intro P hlt hd e he
    rcases Nat.lt_or_eq_of_le (Nat.le_of_lt_succ he) with he | rfl
    · exact hlt e he
    · exact hd
  refine ⟨hsplit h.used hused, hsplit h.other hother, fun hnone => ?_, fun pos hpos => ?_⟩
  · split_ifs at hnone with hc
    refine hsplit (h.referenced hnone) ?_
    by_contra hle
    exact hc ⟨not_lt.mp hle, hnone⟩
  · split_ifs at hpos with hc
    · obtain rfl := Option.some.inj hpos
      exact ⟨d, Nat.lt_succ_self d, rfl, hc.1⟩
    · obtain ⟨e, he, hr⟩ := h.reusable pos hpos
      exact ⟨e, Nat.lt_succ_of_lt he, hr⟩

/-- What `AcquireBlock` comes to: the block is found, or it is in no slot and gets an unused or an unreferenced
one, or it fails. -/
inductive Acquired (config : Config) (headers : Nat → ShareBlockHeader) (block : BlockId) :
    Option Nat × (Nat → ShareBlockHeader) → Prop
  | found (pos : Nat) (hpos : pos < config.blockNumber) (hid : (headers pos).id = block) :
    Acquired config headers block (some pos, Function.update headers pos (headers pos).refer)
  | taken (d : Nat) (hd : d < config.blockNumber) (hfilled : Filled (slots config headers) (config.hasher block) d)
    (habsent : ¬ Stored (slots config headers) block)
    (hfree : (headers (ringSlot config.blockNumber (config.hasher block) d)).used = false ∨
      (headers (ringSlot config.blockNumber (config.hasher block) d)).ref ≤ 0) :
    Acquired config headers block (some (ringSlot config.blockNumber (config.hasher block) d),
      Function.update headers (ringSlot config.blockNumber (config.hasher block) d) (.occupy block))
  | failed (hall : ∀ p < config.blockNumber, (headers p).id ≠ block ∧ (headers p).used = true ∧ 0 < (headers p).ref) :
    Acquired config headers block (none, headers)

section Probe

variable {reusedPos : Option Nat} {rounds : Nat} (hn : 1 ≤ config.blockNumber)
  (hsound : Sound config.hasher (slots config headers))

include hn

theorem Passed.filled (h : Passed config headers block d reusedPos) {e : Nat} (he : e ≤ d) :
    Filled (slots config headers) (config.hasher block) e := by
  intro c hc
  rw [length_slots, slotAt_slots (ringSlot_lt hn _ _), if_pos (h.used c (by omega))]
  exact Option.some_ne_none _

theorem Passed.takeReused (h : Passed config headers block d reusedPos) (hd : d ≤ config.blockNumber)
    (habsent : ¬ Stored (slots config headers) block) (hend : reusedPos = none → d = config.blockNumber) :
    Acquired config headers block (ShareBuffer.takeReused headers block reusedPos) := by
  cases hr : reusedPos with
  | none =>
    refine .failed fun p hp => ?_
    obtain ⟨e, he, rfl⟩ := exists_ringSlot (config.hasher block) hp
    rw [← hend hr] at he
    exact ⟨h.other e he, h.used e he, h.referenced hr e he⟩
  | some pos =>
    obtain ⟨e, he, rfl, href⟩ := h.reusable pos hr
    exact .taken e (by omega) (h.filled hn he.le) habsent (Or.inr href)

include hsound

theorem probe_acquired (h : Passed config headers block d reusedPos) (hd : d + rounds = config.blockNumber) :
    Acquired config headers block
      (probe config headers block rounds (ringSlot config.blockNumber (config.hasher block) d) reusedPos) := by
  induction rounds generalizing d reusedPos with
  | zero =>
    refine h.takeReused hn (by omega) ?_ fun _ => by omega
    rintro ⟨p, hp⟩
    obtain ⟨hlt, -, hid⟩ := slotAt_eq_some.mp hp
    obtain ⟨e, he, rfl⟩ := exists_ringSlot (config.hasher block) hlt
    exact h.other e (by omega) hid
  | succ rounds ih =>
    simp only [probe]
    have hlt : ringSlot config.blockNumber (config.hasher block) d < config.blockNumber := ringSlot_lt hn _ _
    by_cases hid : (headers (ringSlot config.blockNumber (config.hasher block) d)).id = block
    · rw [if_pos hid]
      exact .found _ hlt hid
    rw [if_neg hid]
    by_cases hused : (headers (ringSlot config.blockNumber (config.hasher block) d)).used = true
    · rw [if_neg (by simpa using hused), ringSlot_succ]
      exact ih (h.next hused hid) (by omega)
    · rw [if_pos (by simpa using hused)]
      -- The run from the hash ends here, so that the block is in no slot.
      have hnone : slotAt (slots config headers) (ringSlot config.blockNumber (config.hasher block) d) = none := by
        rw [slotAt_slots hlt, if_neg (by simpa using hused)]
      have hstops : Stops (slots config headers) (config.hasher block) block d := by
        refine ⟨fun e he => ?_, Or.inl (by rw [length_slots, hnone])⟩
        refine ⟨h.filled hn (Nat.le_refl d) e he, fun hs => h.other e he ?_⟩
        rw [length_slots] at hs
        exact (slotAt_eq_some.mp hs).2.2
      have habsent := hsound.not_stored hstops (by rw [length_slots, hnone])
      cases hr : reusedPos with
      | none => exact .taken d (by omega) (h.filled hn (Nat.le_refl d)) habsent (Or.inl (by simpa using hused))
      | some pos =>
        exact Passed.takeReused hn (hr ▸ h) (by omega) habsent fun hc => by cases hc

theorem acquireBlockAt_acquired (block : BlockId) : Acquired config headers block (acquireBlockAt config headers block) := by
  refine probe_acquired hn hsound (d := 0) ⟨?_, ?_, ?_, fun pos hpos => by cases hpos⟩ (Nat.zero_add _)
  · exact fun e he => absurd he (Nat.not_lt_zero e)
  · exact fun e he => absurd he (Nat.not_lt_zero e)
  · exact fun _ e he => absurd he (Nat.not_lt_zero e)

end Probe

namespace SlotTable

variable {s s' : SlotTable} {e : SlotEvent}

/-- Every id is where the probe finds it, and the references are those that are held. -/
structure Inv (config : Config) (s : SlotTable) : Prop where
  sound : Sound config.hasher (slots config s.headers)
  ref : ∀ p, (s.headers p).ref = s.held p
  unused : ∀ p, (s.headers p).used = false → s.held p = 0

theorem inv_start (config : Config) : Inv config start where
  sound := by
    have hempty : slots config start.headers = List.replicate config.blockNumber none := by
      rw [slots, ← List.length_range (n := config.blockNumber), ← List.map_const']
      simp [start, ShareBlockHeader.used]
    rw [hempty]
    exact sound_replicate _ _
  ref := fun _ => rfl
  unused := fun _ _ => rfl

theorem used_occupy (h : block ≠ zeroId) : (ShareBlockHeader.occupy block).used = true := by
  simp [ShareBlockHeader.used, ShareBlockHeader.occupy, h]

theorem Inv.step (h : Inv config s) (hn : 1 ≤ config.blockNumber) (hs : s.step config e = some s') :
    Inv config s' ∧ ∀ p, 0 < (s.headers p).ref → (s'.headers p).id = (s.headers p).id := by
  cases e with
  | acquire block =>
    simp only [SlotTable.step] at hs
    split_ifs at hs with hzero
    have hacq := acquireBlockAt_acquired hn h.sound block
    generalize acquireBlockAt config s.headers block = result at hacq hs
    cases hacq with
    | found pos hpos hid =>
      cases hs
      have hsame : (s.headers pos).refer.id = (s.headers pos).id := rfl
      refine ⟨⟨?_, fun p => ?_, fun p hu => ?_⟩, fun p _ => ?_⟩
      · simp only [slots_update_same hsame]
        exact h.sound
      · simp only [Function.update_apply]
        split_ifs with he
        · rw [ShareBlockHeader.refer, h.ref pos]
          push_cast
          rfl
        · exact h.ref p
      · simp only [Function.update_apply] at hu ⊢
        split_ifs at hu ⊢ with he
        · have hused : (s.headers pos).used = true := by simp [ShareBlockHeader.used, hid, hzero]
          exact absurd (hu.symm.trans hused) Bool.false_ne_true
        · exact h.unused p hu
      · simp only [Function.update_apply]
        split_ifs with he
        · rw [he, hsame]
        · rfl
    | taken d hd hfilled habsent hfree =>
      cases hs
      set pos := ringSlot config.blockNumber (config.hasher block) d
      have hpos : pos < config.blockNumber := ringSlot_lt hn _ _
      have hheld : s.held pos = 0 := by
        rcases hfree with hfree | hfree
        · exact h.unused pos hfree
        · have href := h.ref pos
          omega
      refine ⟨⟨?_, fun p => ?_, fun p hu => ?_⟩, fun p hp => ?_⟩
      · simp only [slots_update (used_occupy hzero)]
        have hfill := h.sound.fill (by rw [length_slots]; exact hd) hfilled habsent
        rw [length_slots] at hfill
        exact hfill
      · simp only [Function.update_apply]
        split_ifs with he
        · rw [hheld]
          rfl
        · exact h.ref p
      · simp only [Function.update_apply] at hu ⊢
        split_ifs at hu ⊢ with he
        · exact absurd (hu.symm.trans (used_occupy hzero)) Bool.false_ne_true
        · exact h.unused p hu
      · simp only [Function.update_apply]
        split_ifs with he
        · rw [h.ref p, he, hheld] at hp
          exact absurd hp (lt_irrefl 0)
        · rfl
    | failed hall =>
      cases hs
      exact ⟨⟨h.sound, h.ref, h.unused⟩, fun _ _ => rfl⟩
  | release index =>
    simp only [SlotTable.step] at hs
    split_ifs at hs with hheld
    cases hs
    refine ⟨⟨?_, fun p => ?_, fun p hu => ?_⟩, fun p _ => ?_⟩
    · have hsame : ({ s.headers index with ref := (s.headers index).ref - 1 } : ShareBlockHeader).id =
          (s.headers index).id := rfl
      simp only [slots_update_same hsame]
      exact h.sound
    · simp only [Function.update_apply]
      split_ifs with he
      · show (s.headers index).ref - 1 = _
        rw [h.ref index]
        omega
      · exact h.ref p
    · simp only [Function.update_apply] at hu ⊢
      split_ifs at hu ⊢ with he
      · have hzero := h.unused index hu
        omega
      · exact h.unused p hu
    · simp only [Function.update_apply]
      split_ifs with he
      · rw [he]
      · rfl

theorem Inv.acquire_found (h : Inv config s) (hn : 1 ≤ config.blockNumber) (hp : p < config.blockNumber)
    (hu : (s.headers p).used = true) : (acquireBlockAt config s.headers (s.headers p).id).1 = some p := by
  have hstored : slotAt (slots config s.headers) p = some (s.headers p).id := slotAt_eq_some.mpr ⟨hp, hu, rfl⟩
  have hacq := acquireBlockAt_acquired hn h.sound (s.headers p).id
  generalize acquireBlockAt config s.headers (s.headers p).id = result at hacq
  cases hacq with
  | found pos hpos hid =>
    have hused : (s.headers pos).used = true := by
      simp only [ShareBlockHeader.used, hid] at hu ⊢
      exact hu
    rw [h.sound.unique pos p _ (slotAt_eq_some.mpr ⟨hpos, hused, hid⟩) hstored]
  | taken d hd hfilled habsent hfree => exact absurd ⟨p, hstored⟩ habsent
  | failed hall => exact absurd rfl (hall p hp).1

theorem Inv.acquire_fails_iff (h : Inv config s) (hn : 1 ≤ config.blockNumber) :
    (acquireBlockAt config s.headers block).1 = none ↔
      (∀ p < config.blockNumber, (s.headers p).id ≠ block) ∧
      ∀ p < config.blockNumber, (s.headers p).used = true ∧ 0 < (s.headers p).ref := by
  have hacq := acquireBlockAt_acquired hn h.sound block
  generalize acquireBlockAt config s.headers block = result at hacq
  cases hacq with
  | found pos hpos hid => exact iff_of_false (fun hc => by cases hc) fun hc => hc.1 pos hpos hid
  | taken d hd hfilled habsent hfree =>
    refine iff_of_false (fun hc => by cases hc) fun hc => ?_
    obtain ⟨hused, href⟩ := hc.2 _ (ringSlot_lt hn (config.hasher block) d)
    rcases hfree with hfree | hfree
    · exact Bool.false_ne_true (hfree.symm.trans hused)
    · exact absurd href (not_lt.mpr hfree)
  | failed hall => exact iff_of_true rfl ⟨fun p hp => (hall p hp).1, fun p hp => (hall p hp).2⟩

theorem inv_of_reach (hn : 1 ≤ config.blockNumber) (h : Reach (step config) (fun _ _ => True) start s) : Inv config s :=
  h.invariant (Inv config) (inv_start config) fun _ _ _ hinv _ hs => (hinv.step hn hs).1

/-- A slot is referenced as often as it is held. No two slots have one id, a referenced id is found in its slot,
it stays in it over every call, and `AcquireBlock` fails exactly for a new id in a table with no slot to spare. -/
theorem keeps_places (config : Config) (hn : 1 ≤ config.blockNumber) (s : SlotTable)
    (h : Reach (step config) (fun _ _ => True) start s) :
    (∀ p, (s.headers p).ref = s.held p) ∧
    (∀ p < config.blockNumber, ∀ q < config.blockNumber, (s.headers p).used = true →
      (s.headers p).id = (s.headers q).id → p = q) ∧
    (∀ p < config.blockNumber, 0 < (s.headers p).ref →
      (acquireBlockAt config s.headers (s.headers p).id).1 = some p) ∧
    (∀ e s', s.step config e = some s' → ∀ p, 0 < (s.headers p).ref → (s'.headers p).id = (s.headers p).id) ∧
    ∀ block, block ≠ zeroId → ((acquireBlockAt config s.headers block).1 = none ↔
      (∀ p < config.blockNumber, (s.headers p).id ≠ block) ∧
      ∀ p < config.blockNumber, (s.headers p).used = true ∧ 0 < (s.headers p).ref) := by
  have hinv := inv_of_reach hn h
  refine ⟨hinv.ref, fun p hp q hq hu he => ?_, fun p hp href => ?_, fun e s' hs => (hinv.step hn hs).2, fun block _ =>
    hinv.acquire_fails_iff hn⟩
  · have hu' : (s.headers q).used = true := by
      simp only [ShareBlockHeader.used, ← he] at hu ⊢
      exact hu
    exact hinv.sound.unique p q _ (slotAt_eq_some.mpr ⟨hp, hu, rfl⟩) (slotAt_eq_some.mpr ⟨hq, hu', he.symm⟩)
  · refine hinv.acquire_found hn hp (Bool.eq_true_of_not_eq_false fun hu => ?_)
    rw [hinv.ref p, hinv.unused p hu] at href
    exact absurd href (lt_irrefl 0)

/-- Two slots, and every block has the same hash. -/
def twoSlots : Config := ⟨2, 1, fun _ => 1, fun _ _ => 0⟩

def blockOf (b : UInt8) : BlockId := Vector.replicate 16 b

/-- The third block takes the slot of the first one, which is released. -/
def reusesSlot : List SlotEvent :=
  [.acquire (blockOf 1), .acquire (blockOf 2), .release 1, .acquire (blockOf 3)]

theorem keeps_places_two : ∃ s, Reach (step twoSlots) (fun _ _ => True) start s ∧
    (s.headers 1).id = blockOf 3 ∧ (s.headers 0).id = blockOf 2 ∧
    (acquireBlockAt twoSlots s.headers (blockOf 2)).1 = some 0 ∧
    (acquireBlockAt twoSlots s.headers (blockOf 4)).1 = none := by
  have hrun : (run (step twoSlots) start reusesSlot).map (fun s => (s.headers 1, s.headers 0)) =
      some (⟨blockOf 3, 1, .init⟩, ⟨blockOf 2, 1, .init⟩) := by
    decide +kernel
  obtain ⟨s, hs, heq⟩ := Option.map_eq_some_iff.mp hrun
  obtain ⟨h₁, h₀⟩ := Prod.mk.inj heq
  have hreach := Reach.start.run (fun _ _ _ => trivial) hs
  obtain ⟨-, -, hfound, -, hfails⟩ := keeps_places twoSlots (by decide) s hreach
  have hfound₀ := hfound 0 (by decide) (by rw [h₀]; decide)
  refine ⟨s, hreach, by rw [h₁], by rw [h₀], by rw [h₀] at hfound₀; exact hfound₀, ?_⟩
  refine (hfails (blockOf 4) (by decide +kernel)).mpr ⟨fun p hp => ?_, fun p hp => ?_⟩
  · rcases Nat.lt_succ_iff_lt_or_eq.mp hp with hp | rfl
    · obtain rfl : p = 0 := Nat.lt_one_iff.mp hp
      rw [h₀]
      decide +kernel
    · rw [h₁]
      decide +kernel
  · rcases Nat.lt_succ_iff_lt_or_eq.mp hp with hp | rfl
    · obtain rfl : p = 0 := Nat.lt_one_iff.mp hp
      rw [h₀]
      decide +kernel
    · rw [h₁]
      decide +kernel

end SlotTable

end UnifiedCache.PcStore.ShareBuffer
