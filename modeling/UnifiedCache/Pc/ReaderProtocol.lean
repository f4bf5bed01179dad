import UnifiedCache.Pc.ShareBuffer

/-! The readers on a slot of the share buffer, and what the status of the slot says about its
bytes. -/

namespace UnifiedCache.PcStore.ShareBuffer

open StepSystem

variable {Party : Type} {config : Config} {s s' : ShareBuffer Party} {p p' : Party}
  {pos : Nat} {reader : Reader} {block : BlockId} {c : Call}

/-- The bytes of the block. -/
def Holds (config : Config) (f : Nat → UInt8) (block : BlockId) : Prop :=
  ∀ k < config.blockSize, f k = config.content block k

def Stage.loads : Stage → Bool
  | .reading => true
  | .publishing _ => true
  | _ => false

/-- The call of a reader that is on the slot. -/
def Call.on (pos : Nat) : Call → Prop
  | .live reader => reader.place = some pos
  | _ => False

def Call.loads (pos : Nat) : Call → Prop
  | .live reader => reader.place = some pos ∧ reader.stage.loads = true
  | _ => False

/-- The reference count of the slot is the number of readers that are on it. -/
def Counted (s : ShareBuffer Party) (pos : Nat) : Prop :=
  ∃ readers : Finset Party, (∀ p, p ∈ readers ↔ (s.calls p).on pos) ∧ (s.headers pos).ref = readers.card

/-- What the protocol promises at any moment. -/
structure Protocol (config : Config) (s : ShareBuffer Party) : Prop where
  loader : ∀ pos p p', (s.calls p).loads pos → (s.calls p').loads pos → p = p'
  loaded : ∀ pos, (s.headers pos).status = .loaded → Holds config (s.data pos) (s.headers pos).id
  ready : ∀ p reader, s.calls p = .live reader → reader.ready = true →
    Holds config (s.getData p reader) reader.block
  counted : ∀ pos, Counted s pos

/-- `AcquireBlock` takes no slot for unused that a reader of the all-zero block id is on. -/
def UnusedFree (config : Config) (s : ShareBuffer Party) : Event Party → Prop
  | .acquire p =>
    match s.calls p with
    | .acquiring block i pos none => i < config.blockNumber → (s.headers pos).id ≠ block →
        (s.headers pos).used = false → (s.headers pos).ref = 0
    | _ => True
  | _ => True

/-- What is known of a reader from the step it is at. -/
def Known (config : Config) (s : ShareBuffer Party) (p : Party) : Call → Prop
  | .idle => True
  | .acquiring _ _ _ reusedPos => s.holder = some p ∧ ∀ q, reusedPos = some q → (s.headers q).ref ≤ 0
  | .live reader =>
    match reader.place with
    | none => reader.ready = true → Holds config (s.buffers p) reader.block
    | some pos => (s.headers pos).id = reader.block ∧
        (reader.stage.loads = true → (s.headers pos).status = .loading) ∧
        (reader.stage = .publishing true → Holds config (s.data pos) reader.block) ∧
        (reader.ready = true → (s.headers pos).status = .loaded)

structure Inv (config : Config) (s : ShareBuffer Party) : Prop where
  known : ∀ p, Known config s p (s.calls p)
  loader : ∀ pos p p', (s.calls p).loads pos → (s.calls p').loads pos → p = p'
  loaded : ∀ pos, (s.headers pos).status = .loaded → Holds config (s.data pos) (s.headers pos).id
  counted : ∀ pos, Counted s pos

theorem Inv.protocol (h : Inv config s) : Protocol config s where
  loader := h.loader
  loaded := h.loaded
  ready := by
    intro p reader hp hready
    have hk := h.known p
    rw [hp] at hk
    cases hplace : reader.place with
    | none =>
      simp only [Known, hplace] at hk
      simpa only [getData, hplace] using hk hready
    | some pos =>
      simp only [Known, hplace] at hk
      have hloaded := h.loaded pos (hk.2.2.2 hready)
      rw [hk.1] at hloaded
      simpa only [getData, hplace] using hloaded
  counted := h.counted

theorem Call.on_of_loads (hl : c.loads pos) : c.on pos := by
  cases c with
  | live reader => exact hl.1
  | _ => exact hl

/-- A slot without references has no readers. -/
theorem Inv.not_on (h : Inv config s) (href : (s.headers pos).ref ≤ 0) (p : Party) :
    ¬ (s.calls p).on pos := by
  intro hon
  obtain ⟨readers, hmem, hcard⟩ := h.counted pos
  have hpos := Finset.card_pos.mpr ⟨p, (hmem p).mpr hon⟩
  omega

theorem Inv.ref_nonneg (h : Inv config s) (pos : Nat) : 0 ≤ (s.headers pos).ref := by
  obtain ⟨readers, _, hcard⟩ := h.counted pos
  omega

/-- What another party does to the shared state leaves what is known of this one. -/
theorem Known.keep (h : Known config s p c)
    (hacq : ∀ block i pos reusedPos, c = .acquiring block i pos reusedPos →
      s'.holder = s.holder ∧ ∀ q, (s'.headers q).ref ≤ (s.headers q).ref)
    (hlive : ∀ reader pos, c = .live reader → reader.place = some pos →
      (s'.headers pos).id = (s.headers pos).id ∧
      (reader.stage.loads = true → (s'.headers pos).status = (s.headers pos).status ∧ s'.data pos = s.data pos) ∧
      (reader.ready = true → (s'.headers pos).status = (s.headers pos).status))
    (hbuffers : s'.buffers p = s.buffers p) : Known config s' p c := by
  cases c with
  | idle => trivial
  | acquiring block i pos reusedPos =>
    obtain ⟨hholder, href⟩ := hacq block i pos reusedPos rfl
    exact ⟨hholder.trans h.1, fun q hq => (href q).trans (h.2 q hq)⟩
  | live reader =>
    cases hplace : reader.place with
    | none =>
      simp only [Known, hplace] at h ⊢
      rw [hbuffers]
      exact h
    | some pos =>
      simp only [Known, hplace] at h ⊢
      obtain ⟨hid, hloads, hready⟩ := hlive reader pos rfl hplace
      refine ⟨hid.trans h.1, fun hl => (hloads hl).1.trans (h.2.1 hl), fun hp => ?_,
        fun hr => (hready hr).trans (h.2.2.2 hr)⟩
      rw [(hloads (by rw [hp]; rfl)).2]
      exact h.2.2.1 hp

variable [DecidableEq Party]

theorem Counted.same (h : Counted s pos) (hcalls : s'.calls = Function.update s.calls p c)
    (hon : c.on pos ↔ (s.calls p).on pos) (href : (s'.headers pos).ref = (s.headers pos).ref) :
    Counted s' pos := by
  obtain ⟨readers, hmem, hcard⟩ := h
  refine ⟨readers, fun q => ?_, href.trans hcard⟩
  rw [hmem, hcalls]
  by_cases hq : q = p
  · subst hq
    rw [Function.update_self]
    exact hon.symm
  · rw [Function.update_of_ne hq]

theorem Counted.enter (h : Counted s pos) (hcalls : s'.calls = Function.update s.calls p c)
    (hnot : ¬ (s.calls p).on pos) (hon : c.on pos)
    (href : (s'.headers pos).ref = (s.headers pos).ref + 1) : Counted s' pos := by
  obtain ⟨readers, hmem, hcard⟩ := h
  have hp : p ∉ readers := fun hp => hnot ((hmem p).mp hp)
  refine ⟨insert p readers, fun q => ?_, ?_⟩
  · rw [Finset.mem_insert, hmem, hcalls]
    by_cases hq : q = p
    · subst hq
      rw [Function.update_self]
      exact iff_of_true (Or.inl rfl) hon
    · rw [Function.update_of_ne hq]
      exact or_iff_right hq
  · rw [Finset.card_insert_of_notMem hp, href, hcard]
    push_cast
    rfl

theorem Counted.leave (h : Counted s pos) (hcalls : s'.calls = Function.update s.calls p c)
    (hon : (s.calls p).on pos) (hnot : ¬ c.on pos)
    (href : (s'.headers pos).ref = (s.headers pos).ref - 1) : Counted s' pos := by
  obtain ⟨readers, hmem, hcard⟩ := h
  have hp : p ∈ readers := (hmem p).mpr hon
  refine ⟨readers.erase p, fun q => ?_, ?_⟩
  · rw [Finset.mem_erase, hmem, hcalls]
    by_cases hq : q = p
    · subst hq
      rw [Function.update_self]
      exact iff_of_false (fun h => h.1 rfl) hnot
    · rw [Function.update_of_ne hq]
      exact and_iff_right hq
  · have hpos := Finset.card_pos.mpr ⟨p, hp⟩
    rw [Finset.card_erase_of_mem hp, href, hcard]
    omega

/-- A step of one party. -/
theorem Inv.of_step (h : Inv config s) (hcalls : s'.calls = Function.update s.calls p c)
    (hself : Known config s' p c)
    (hother : ∀ q, q ≠ p → Known config s' q (s.calls q))
    (hloader : ∀ pos, c.loads pos → ∀ q, q ≠ p → ¬ (s.calls q).loads pos)
    (hloaded : ∀ pos, (s'.headers pos).status = .loaded → Holds config (s'.data pos) (s'.headers pos).id)
    (hcounted : ∀ pos, Counted s' pos) : Inv config s' := by
  have hat : s'.calls p = c := by rw [hcalls, Function.update_self]
  have hne : ∀ q, q ≠ p → s'.calls q = s.calls q := fun q hq => by rw [hcalls, Function.update_of_ne hq]
  refine ⟨fun q => ?_, fun pos q q' hq hq' => ?_, hloaded, hcounted⟩
  · by_cases he : q = p
    · subst he
      exact hat ▸ hself
    · rw [hne q he]
      exact hother q he
  · by_cases he : q = p <;> by_cases he' : q' = p
    · rw [he, he']
    · subst he
      rw [hat] at hq
      rw [hne q' he'] at hq'
      exact absurd hq' (hloader pos hq q' he')
    · subst he'
      rw [hat] at hq'
      rw [hne q he] at hq
      exact absurd hq (hloader pos hq' q he)
    · rw [hne q he] at hq
      rw [hne q' he'] at hq'
      exact h.loader pos q q' hq hq'

/-- A step of a reader that changes neither the slots nor the buffers. -/
theorem Inv.setCall (h : Inv config s) (hself : Known config s p c)
    (hloads : ∀ pos, c.loads pos → (s.calls p).loads pos)
    (hon : ∀ pos, c.on pos ↔ (s.calls p).on pos) : Inv config (s.setCall p c) := by
  refine h.of_step rfl ?_ (fun q _ => ?_) (fun pos hl q hq hlq => ?_) h.loaded fun pos => ?_
  · exact hself.keep (fun _ _ _ _ _ => ⟨rfl, fun _ => le_rfl⟩) (fun _ _ _ _ => ⟨rfl, fun _ => ⟨rfl, rfl⟩, fun _ => rfl⟩) rfl
  · exact (h.known q).keep (fun _ _ _ _ _ => ⟨rfl, fun _ => le_rfl⟩)
      (fun _ _ _ _ => ⟨rfl, fun _ => ⟨rfl, rfl⟩, fun _ => rfl⟩) rfl
  · exact hq (h.loader pos q p hlq (hloads pos hl))
  · exact (h.counted pos).same rfl (hon pos) rfl

/-- The reader comes to the slot, where nothing changes for those that are on it. -/
theorem Inv.enter {i pos' : Nat} {reusedPos : Option Nat} {header : ShareBlockHeader} (h : Inv config s)
    (hp : s.calls p = .acquiring block i pos' reusedPos) (hid : header.id = block)
    (href : header.ref = (s.headers pos).ref + 1)
    (hstatus : header.id = (s.headers pos).id ∧ header.status = (s.headers pos).status ∨
      (s.headers pos).ref = 0 ∧ header.status = .init) :
    Inv config ((s.setHeader pos header).makeOn p block (some pos)) := by
  have hk := h.known p
  rw [hp] at hk
  have hheaders : ∀ q, q ≠ pos → ((s.setHeader pos header).makeOn p block (some pos)).headers q = s.headers q :=
    fun q hq => Function.update_of_ne hq ..
  have hat : ((s.setHeader pos header).makeOn p block (some pos)).headers pos = header :=
    Function.update_self ..
  refine h.of_step (c := .live ⟨block, some pos, false, .made⟩) rfl ?_ (fun q hq => ?_)
    (fun _ hl => absurd hl.2 (by simp [Stage.loads])) (fun q hl => ?_) fun q => ?_
  · simp [Known, hat, hid, Stage.loads]
  · refine (h.known q).keep (fun block i pos reusedPos hc => ?_) (fun reader q' hc hplace => ?_) rfl
    · have hkq := h.known q
      rw [hc] at hkq
      exact absurd (Option.some.inj (hkq.1.symm.trans hk.1)) hq
    · by_cases hq' : q' = pos
      · subst hq'
        have hon : (s.calls q).on q' := by rw [hc]; exact hplace
        have hne : (s.headers q').ref ≠ 0 := fun h0 => h.not_on h0.le q hon
        obtain ⟨hid', hs⟩ := hstatus.resolve_right fun h0 => hne h0.1
        rw [hat]
        exact ⟨hid', fun _ => ⟨hs, rfl⟩, fun _ => hs⟩
      · rw [hheaders q' hq']
        exact ⟨rfl, fun _ => ⟨rfl, rfl⟩, fun _ => rfl⟩
  · by_cases hq : q = pos
    · subst hq
      rw [hat] at hl ⊢
      rcases hstatus with ⟨hid', hs⟩ | ⟨_, hs⟩
      · rw [hid']
        exact h.loaded q (hs ▸ hl)
      · rw [hs] at hl
        cases hl
    · rw [hheaders q hq] at hl ⊢
      exact h.loaded q hl
  · by_cases hq : q = pos
    · subst hq
      refine (h.counted q).enter (p := p) (c := .live ⟨block, some q, false, .made⟩) rfl ?_ rfl ?_
      · rw [hp]
        exact fun h => h
      · rw [hat]
        exact href
    · refine (h.counted q).same (p := p) (c := .live ⟨block, some pos, false, .made⟩) rfl ?_ ?_
      · rw [hp]
        exact iff_of_false (fun he => hq (Option.some.inj he).symm) fun h => h
      · rw [hheaders q hq]

theorem ShareBlockHeader.refer_status (header : ShareBlockHeader) :
    header.refer.status = header.status ∨ header.ref = 0 ∧ header.refer.status = .init := by
  by_cases hr : header.ref = 0 ∧ header.status ≠ .loaded
  · exact Or.inr ⟨hr.1, if_pos hr⟩
  · exact Or.inl (if_neg hr)

theorem Inv.occupy {i pos' : Nat} {reusedPos : Option Nat} (h : Inv config s)
    (hp : s.calls p = .acquiring block i pos' reusedPos) (href : (s.headers pos).ref = 0) :
    Inv config ((s.setHeader pos (.occupy block)).makeOn p block (some pos)) :=
  h.enter hp rfl (by rw [href]; rfl) (Or.inr ⟨href, rfl⟩)

/-- A reader that finds no slot has nothing to share. -/
theorem Inv.makeLocal {i : Nat} {reusedPos : Option Nat} (h : Inv config s)
    (hp : s.calls p = .acquiring block i pos reusedPos) : Inv config (s.makeOn p block none) := by
  have hk := h.known p
  rw [hp] at hk
  refine h.of_step (c := .live ⟨block, none, false, .made⟩) rfl (fun hr => by cases hr) (fun q hq => ?_)
    (fun _ hl => by cases hl.1) h.loaded fun pos => ?_
  · refine (h.known q).keep (fun block i pos reusedPos hc => ?_)
      (fun _ _ _ _ => ⟨rfl, fun _ => ⟨rfl, rfl⟩, fun _ => rfl⟩) rfl
    have hkq := h.known q
    rw [hc] at hkq
    exact absurd (Option.some.inj (hkq.1.symm.trans hk.1)) hq
  · refine (h.counted pos).same (p := p) (c := .live ⟨block, none, false, .made⟩) rfl ?_ rfl
    rw [hp]
    exact iff_of_false (fun he => by cases he) fun h => h

theorem Inv.acquireBlock {i : Nat} {reusedPos : Option Nat} (h : Inv config s)
    (hp : s.calls p = .acquiring block i pos reusedPos)
    (hg : reusedPos = none → i < config.blockNumber → (s.headers pos).id ≠ block →
      (s.headers pos).used = false → (s.headers pos).ref = 0) :
    Inv config (s.acquireBlock config p block i pos reusedPos) := by
  have hk := h.known p
  rw [hp] at hk
  have hgoOn : ∀ i' pos' reused', (∀ q, reused' = some q → (s.headers q).ref ≤ 0) →
      Inv config (s.setCall p (.acquiring block i' pos' reused')) := by
    intro i' pos' reused' hreused
    refine h.setCall ⟨hk.1, hreused⟩ (fun _ hl => hl.elim) fun _ => ?_
    rw [hp]
    exact Iff.rfl
  unfold ShareBuffer.acquireBlock
  by_cases hi : i < config.blockNumber
  · rw [if_pos hi]
    by_cases hid : (s.headers pos).id = block
    · simp only [hid, if_true]
      refine h.enter hp hid rfl ?_
      rcases (s.headers pos).refer_status with hs | hs
      · exact Or.inl ⟨rfl, hs⟩
      · exact Or.inr hs
    · simp only [hid, if_false]
      by_cases hu : (s.headers pos).used = true
      · simp only [hu, Bool.not_true, Bool.false_eq_true, if_false]
        refine hgoOn _ _ _ fun q hq => ?_
        split_ifs at hq with hr
        · exact Option.some.inj hq ▸ hr.1
        · exact hk.2 q hq
      · have hu : (s.headers pos).used = false := by simpa using hu
        simp only [hu, Bool.not_false, if_true]
        cases hreused : reusedPos with
        | none => exact h.occupy hp (hg hreused hi hid hu)
        | some q => exact hgoOn _ _ _ (hreused ▸ hk.2)
  · rw [if_neg hi]
    cases hreused : reusedPos with
    | none => exact h.makeLocal hp
    | some q =>
      have href := hk.2 q hreused
      exact h.occupy hp (le_antisymm href (h.ref_nonneg q))

/-- A step of a shared reader that changes the status or the bytes of its slot. -/
theorem Inv.atSlot {r : Reader} (h : Inv config s) (hp : s.calls p = .live reader)
    (hplace : reader.place = some pos) (hplace' : r.place = some pos)
    (hcalls : s'.calls = Function.update s.calls p (.live r))
    (hheaders : ∀ q, q ≠ pos → s'.headers q = s.headers q)
    (hid : (s'.headers pos).id = (s.headers pos).id) (href : (s'.headers pos).ref = (s.headers pos).ref)
    (hdata : ∀ q, q ≠ pos → s'.data q = s.data q) (hholder : s'.holder = s.holder)
    (hbuffers : s'.buffers = s.buffers)
    (hself : Known config s' p (.live r))
    (hloads : r.stage.loads = true → ∀ q, q ≠ p → ¬ (s.calls q).loads pos)
    (hsame : ∀ q reader, q ≠ p → s.calls q = .live reader → reader.place = some pos →
      (reader.stage.loads = true → (s'.headers pos).status = (s.headers pos).status ∧ s'.data pos = s.data pos) ∧
      (reader.ready = true → (s'.headers pos).status = (s.headers pos).status))
    (hloaded : (s'.headers pos).status = .loaded → Holds config (s'.data pos) (s.headers pos).id) :
    Inv config s' := by
  refine h.of_step hcalls hself (fun q hq => ?_) (fun q hl q' hq' => ?_) (fun q hs => ?_) fun q => ?_
  · refine (h.known q).keep (fun _ _ _ _ _ => ⟨hholder, fun q' => ?_⟩) (fun reader q' hc hpl => ?_) (by rw [hbuffers])
    · by_cases hq' : q' = pos
      · rw [hq', href]
      · rw [hheaders q' hq']
    · by_cases hq' : q' = pos
      · subst hq'
        exact ⟨hid, (hsame q reader hq hc hpl).1, (hsame q reader hq hc hpl).2⟩
      · rw [hheaders q' hq', hdata q' hq']
        exact ⟨rfl, fun _ => ⟨rfl, rfl⟩, fun _ => rfl⟩
  · obtain rfl : pos = q := Option.some.inj (hplace'.symm.trans hl.1)
    exact hloads hl.2 q' hq'
  · by_cases hq : q = pos
    · subst hq
      rw [hid]
      exact hloaded hs
    · rw [hheaders q hq] at hs ⊢
      rw [hdata q hq]
      exact h.loaded q hs
  · refine (h.counted q).same hcalls ?_ ?_
    · rw [hp]
      show r.place = some q ↔ reader.place = some q
      rw [hplace, hplace']
    · by_cases hq : q = pos
      · rw [hq, href]
      · rw [hheaders q hq]

omit [DecidableEq Party] in
theorem Known.shared (h : Known config s p (.live reader)) (hplace : reader.place = some pos) :
    (s.headers pos).id = reader.block ∧
      (reader.stage.loads = true → (s.headers pos).status = .loading) ∧
      (reader.stage = .publishing true → Holds config (s.data pos) reader.block) ∧
      (reader.ready = true → (s.headers pos).status = .loaded) := by
  simpa only [Known, hplace] using h

omit [DecidableEq Party] in
theorem Known.of_shared (hplace : reader.place = some pos) (hid : (s.headers pos).id = reader.block)
    (hloads : reader.stage.loads = true → (s.headers pos).status = .loading)
    (hpub : reader.stage = .publishing true → Holds config (s.data pos) reader.block)
    (hready : reader.ready = true → (s.headers pos).status = .loaded) :
    Known config s p (.live reader) := by
  simpa only [Known, hplace] using ⟨hid, hloads, hpub, hready⟩

theorem Inv.setStage {stage : Stage} (h : Inv config s) (hp : s.calls p = .live reader)
    (hplace : reader.place = some pos) (hstage : stage.loads = true → reader.stage.loads = true)
    (hpub : stage ≠ .publishing true) : Inv config (s.setStage p reader stage) := by
  have hk := h.known p
  rw [hp] at hk
  obtain ⟨hid, hloads, _, hready⟩ := hk.shared hplace
  have hself : Known config s p (.live { reader with stage := stage }) :=
    Known.of_shared hplace hid (fun hl => hloads (hstage hl)) (fun he => absurd he hpub) hready
  refine h.setCall hself (fun q hl => ?_) fun q => ?_
  · rw [hp]
    exact ⟨hl.1, hstage hl.2⟩
  · rw [hp]
    exact Iff.rfl

omit [DecidableEq Party] in
/-- What the other readers on the slot of a reader that loads it are not at. -/
theorem Inv.alone (h : Inv config s) (hp : s.calls p = .live reader) (hplace : reader.place = some pos)
    (hl : reader.stage.loads = true) :
    (∀ q, q ≠ p → ¬ (s.calls q).loads pos) ∧
      ∀ q reader, s.calls q = .live reader → reader.place = some pos → ¬ reader.ready = true := by
  have hk := h.known p
  rw [hp] at hk
  have hloading := (hk.shared hplace).2.1 hl
  refine ⟨fun q hq hlq => hq (h.loader pos q p hlq ?_), fun q reader' hc hpl hr => ?_⟩
  · rw [hp]
    exact ⟨hplace, hl⟩
  · have hkq := h.known q
    rw [hc] at hkq
    have hloaded := (hkq.shared hpl).2.2.2 hr
    rw [hloading] at hloaded
    cases hloaded

theorem Inv.startLoading (h : Inv config s) (hp : s.calls p = .live reader) (hplace : reader.place = some pos)
    (hstatus : (s.headers pos).status = .init) :
    Inv config ((s.setStatus pos .loading).setStage p reader .reading) := by
  have hk := h.known p
  rw [hp] at hk
  obtain ⟨hid, _, _, hready⟩ := hk.shared hplace
  have hat : ((s.setStatus pos .loading).setStage p reader .reading).headers pos =
      { s.headers pos with status := .loading } := Function.update_self ..
  have hquiet : ∀ q reader, s.calls q = .live reader → reader.place = some pos →
      ¬ reader.stage.loads = true ∧ ¬ reader.ready = true := by
    intro q reader' hc hpl
    have hkq := h.known q
    rw [hc] at hkq
    refine ⟨fun hl => ?_, fun hr => ?_⟩
    · have hloading := (hkq.shared hpl).2.1 hl
      rw [hstatus] at hloading
      cases hloading
    · have hloaded := (hkq.shared hpl).2.2.2 hr
      rw [hstatus] at hloaded
      cases hloaded
  refine h.atSlot (r := { reader with stage := .reading }) hp hplace hplace rfl
    (fun q hq => Function.update_of_ne hq ..) (by rw [hat]) (by rw [hat]) (fun _ _ => rfl) rfl rfl ?_
    (fun _ q _ hl => ?_) (fun q reader' _ hc hpl => ?_) (fun hl => ?_)
  · refine Known.of_shared hplace (by rw [hat]; exact hid) (fun _ => by rw [hat]) (fun he => by cases he) fun hr => ?_
    exact absurd hr (hquiet p reader hp hplace).2
  · cases hc : s.calls q with
    | live reader' =>
      rw [hc] at hl
      exact (hquiet q reader' hc hl.1).1 hl.2
    | _ =>
      rw [hc] at hl
      exact hl
  · obtain ⟨hl, hr⟩ := hquiet q reader' hc hpl
    exact ⟨fun h => absurd h hl, fun h => absurd h hr⟩
  · rw [hat] at hl
    cases hl

theorem Inv.publish {success : Bool} (h : Inv config s) (hp : s.calls p = .live reader)
    (hplace : reader.place = some pos) (hstage : reader.stage = .publishing success) :
    Inv config ((s.setStatus pos (if success then .loaded else .failure)).setCall p
      (.live { reader with stage := .made, ready := success || reader.ready })) := by
  have hk := h.known p
  rw [hp] at hk
  obtain ⟨hid, hloads, hpub, hready⟩ := hk.shared hplace
  have hl : reader.stage.loads = true := by rw [hstage]; rfl
  obtain ⟨halone, hunready⟩ := h.alone hp hplace hl
  have hat : ((s.setStatus pos (if success then .loaded else .failure)).setCall p
      (.live { reader with stage := .made, ready := success || reader.ready })).headers pos =
      { s.headers pos with status := if success then .loaded else .failure } := Function.update_self ..
  refine h.atSlot (r := { reader with stage := .made, ready := success || reader.ready }) hp hplace
    hplace rfl (fun q hq => Function.update_of_ne hq ..) (by rw [hat]) (by rw [hat]) (fun _ _ => rfl) rfl rfl ?_
    (fun hl => by cases hl) (fun q reader' hq hc hpl => ?_) (fun hl => ?_)
  · refine Known.of_shared hplace (by rw [hat]; exact hid) (fun hl => by cases hl) (fun he => by cases he)
      fun hr => ?_
    have hs : success = true := by
      rcases Bool.or_eq_true_iff.mp hr with hs | hr
      · exact hs
      · exact absurd hr (hunready p reader hp hplace)
    rw [hat]
    simp [hs]
  · refine ⟨fun hl' => absurd ?_ (halone q hq), fun hr => absurd hr (hunready q reader' hc hpl)⟩
    rw [hc]
    exact ⟨hpl, hl'⟩
  · rw [hat] at hl
    have hs : success = true := by
      cases success with
      | true => rfl
      | false => cases hl
    rw [hid]
    exact hpub (hstage.trans (by rw [hs]))

theorem Inv.sharedNext (h : Inv config s) (hp : s.calls p = .live reader) (hplace : reader.place = some pos)
    (hs : s.sharedNext p reader pos = some s') : Inv config s' := by
  cases hstage : reader.stage with
  | made =>
    simp only [ShareBuffer.sharedNext, hstage] at hs
    split_ifs at hs with hl
    · obtain rfl := Option.some.inj hs
      have hk := h.known p
      rw [hp] at hk
      obtain ⟨hid, _, _, _⟩ := hk.shared hplace
      refine h.setCall (Known.of_shared hplace hid (fun hl => by cases hl) (fun he => by cases he) fun _ => hl)
        (fun q hl => by cases hl.2) fun q => ?_
      rw [hp]
      exact Iff.rfl
    · exact Option.some.inj hs ▸ h.setStage hp hplace (fun hl => by cases hl) (by simp)
  | checkingFailure =>
    simp only [ShareBuffer.sharedNext, hstage] at hs
    refine Option.some.inj hs ▸ h.setStage hp hplace (fun hl => ?_) ?_
    · split_ifs at hl <;> cases hl
    · split_ifs <;> simp
  | checkingLoading =>
    simp only [ShareBuffer.sharedNext, hstage] at hs
    refine Option.some.inj hs ▸ h.setStage hp hplace (fun hl => ?_) ?_
    · split_ifs at hl <;> cases hl
    · split_ifs <;> simp
  | locking =>
    simp only [ShareBuffer.sharedNext, hstage] at hs
    split_ifs at hs with hinit
    · exact Option.some.inj hs ▸ h.startLoading hp hplace hinit
    · exact Option.some.inj hs ▸ h.setStage hp hplace (fun hl => by cases hl) (by simp)
  | reading =>
    simp only [ShareBuffer.sharedNext, hstage] at hs
    cases hs
  | publishing success =>
    simp only [ShareBuffer.sharedNext, hstage] at hs
    exact Option.some.inj hs ▸ h.publish hp hplace hstage

theorem holds_fill {f : Nat → UInt8} {nBytes : Nat} (block : BlockId) (h : Holds config f block) :
    Holds config (fun k => if k < nBytes then config.content block k else f k) block := by
  intro k hk
  by_cases hn : k < nBytes
  · exact if_pos hn
  · exact (if_neg hn).trans (h k hk)

theorem holds_fill_all (f : Nat → UInt8) (block : BlockId) :
    Holds config (fun k => if k < config.blockSize then config.content block k else f k) block :=
  fun _ hk => if_pos hk

/-- The bytes of a slot change only under the one reader that loads it. -/
theorem Inv.fillShared {stage : Stage} {nBytes : Nat} (h : Inv config s) (hp : s.calls p = .live reader)
    (hplace : reader.place = some pos) (hstage : reader.stage = .reading)
    (hpub : stage = .publishing true → nBytes = config.blockSize) :
    Inv config ((s.fill config p reader nBytes).setStage p reader stage) := by
  have hk := h.known p
  rw [hp] at hk
  obtain ⟨hid, hloads, _, hready⟩ := hk.shared hplace
  have hreading : reader.stage.loads = true := by rw [hstage]; rfl
  obtain ⟨halone, hunready⟩ := h.alone hp hplace hreading
  have hfill : s.fill config p reader nBytes = { s with data := Function.update s.data pos (fun k =>
      if k < nBytes then config.content reader.block k else s.data pos k) } := by
    simp only [fill, hplace]
  rw [hfill]
  refine h.atSlot (r := { reader with stage := stage }) hp hplace hplace rfl (fun _ _ => rfl) rfl rfl
    (fun q hq => Function.update_of_ne hq ..) rfl rfl ?_ (fun _ => halone) (fun q reader' hq hc hpl => ?_)
    (fun hloaded => ?_)
  · refine Known.of_shared hplace hid (fun _ => hloads hreading) (fun he => ?_) fun hr => ?_
    · show Holds config (Function.update s.data pos _ pos) reader.block
      rw [Function.update_self, hpub he]
      exact holds_fill_all _ _
    · exact absurd hr (hunready p reader hp hplace)
  · refine ⟨fun hl' => absurd ?_ (halone q hq), fun hr => absurd hr (hunready q reader' hc hpl)⟩
    rw [hc]
    exact ⟨hpl, hl'⟩
  · have hloading := hloads hreading
    rw [show (s.headers pos).status = .loaded from hloaded] at hloading
    cases hloading

/-- A local reader has its buffer for itself. -/
theorem Inv.atBuffer {r : Reader} (h : Inv config s) (hp : s.calls p = .live reader)
    (hplace : reader.place = none) (hplace' : r.place = none) (f : Nat → UInt8)
    (hready : r.ready = true → Holds config f r.block) :
    Inv config ({ s with buffers := Function.update s.buffers p f }.setCall p (.live r)) := by
  refine h.of_step rfl ?_ (fun q hq => ?_) (fun pos hl => ?_) h.loaded fun pos => ?_
  · simp only [Known, hplace']
    intro hr
    show Holds config (Function.update s.buffers p f p) _
    rw [Function.update_self]
    exact hready hr
  · exact (h.known q).keep (fun _ _ _ _ _ => ⟨rfl, fun _ => le_rfl⟩)
      (fun _ _ _ _ => ⟨rfl, fun _ => ⟨rfl, rfl⟩, fun _ => rfl⟩) (Function.update_of_ne hq ..)
  · have hnone : r.place = some pos := hl.1
    rw [hplace'] at hnone
    cases hnone
  · refine (h.counted pos).same (p := p) (c := .live r) rfl ?_ rfl
    rw [hp]
    show r.place = some pos ↔ reader.place = some pos
    rw [hplace, hplace']

theorem fill_local (hplace : reader.place = none) (nBytes : Nat) :
    s.fill config p reader nBytes = { s with buffers := Function.update s.buffers p (fun k =>
      if k < nBytes then config.content reader.block k else s.buffers p k) } := by
  simp only [fill, hplace]

theorem setStage_self (hp : s.calls p = .live reader) : s.setStage p reader reader.stage = s := by
  have hcalls : Function.update s.calls p (.live reader) = s.calls := by
    rw [← hp]
    exact Function.update_eq_self _ _
  show { s with calls := Function.update s.calls p (.live reader) } = s
  rw [hcalls]

theorem calls_fill (nBytes : Nat) : (s.fill config p reader nBytes).calls = s.calls := by
  cases hplace : reader.place with
  | some pos => simp only [fill, hplace]
  | none => simp only [fill, hplace]

theorem Inv.readSome {nBytes : Nat} (h : Inv config s) (hp : s.calls p = .live reader)
    (hstage : reader.stage = .reading) : Inv config (s.fill config p reader nBytes) := by
  have hp' : (s.fill config p reader nBytes).calls p = .live reader := by rw [calls_fill, hp]
  rw [← setStage_self hp']
  cases hplace : reader.place with
  | some pos =>
    exact h.fillShared hp hplace hstage fun he => by rw [hstage] at he; cases he
  | none =>
    have hk := h.known p
    rw [hp] at hk
    simp only [Known, hplace] at hk
    rw [fill_local hplace]
    exact h.atBuffer hp hplace hplace _ fun hr => holds_fill _ (hk hr)

theorem Inv.readEnd {success : Bool} (h : Inv config s) (hp : s.calls p = .live reader)
    (hstage : reader.stage = .reading)
    (hs : (match reader.place with
      | some _ => some ((if success then s.fill config p reader config.blockSize else s).setStage p reader
          (.publishing success))
      | none => some ((if success then s.fill config p reader config.blockSize else s).setCall p
          (.live { reader with stage := .made, ready := success || reader.ready }))) = some s') :
    Inv config s' := by
  cases hplace : reader.place with
  | some pos =>
    simp only [hplace] at hs
    obtain rfl := Option.some.inj hs
    cases success with
    | true => exact h.fillShared hp hplace hstage fun _ => rfl
    | false => exact h.setStage hp hplace (fun _ => by rw [hstage]; rfl) (by simp)
  | none =>
    have hk := h.known p
    rw [hp] at hk
    simp only [Known, hplace] at hk
    simp only [hplace] at hs
    obtain rfl := Option.some.inj hs
    cases success with
    | true =>
      simp only [if_true]
      rw [fill_local hplace]
      exact h.atBuffer hp hplace rfl _ fun _ => holds_fill_all _ _
    | false =>
      refine h.setCall (fun hr => hk hr) (fun pos hl => by cases hl.1) fun pos => ?_
      rw [hp]
      refine iff_of_false (fun he => by cases he) fun (he : reader.place = some pos) => ?_
      rw [hplace] at he
      cases he

theorem Inv.destroy (h : Inv config s) (hp : s.calls p = .live reader) :
    Inv config ((match reader.place with
      | some pos => s.releaseBlock pos
      | none => s).setCall p .idle) := by
  cases hplace : reader.place with
  | none =>
    refine h.setCall trivial (fun _ hl => hl.elim) fun pos => ?_
    rw [hp]
    exact iff_of_false (fun h => h) fun (he : reader.place = some pos) => by rw [hplace] at he; cases he
  | some pos =>
    have hat : ((s.releaseBlock pos).setCall p .idle).headers pos =
        { s.headers pos with ref := (s.headers pos).ref - 1 } := Function.update_self ..
    have hother : ∀ q, q ≠ pos → ((s.releaseBlock pos).setCall p .idle).headers q = s.headers q :=
      fun q hq => Function.update_of_ne hq ..
    have hsame : ∀ q, (((s.releaseBlock pos).setCall p .idle).headers q).id = (s.headers q).id ∧
        (((s.releaseBlock pos).setCall p .idle).headers q).status = (s.headers q).status ∧
        (((s.releaseBlock pos).setCall p .idle).headers q).ref ≤ (s.headers q).ref := by
      intro q
      by_cases hq : q = pos
      · rw [hq, hat]
        exact ⟨rfl, rfl, by simp⟩
      · rw [hother q hq]
        exact ⟨rfl, rfl, le_rfl⟩
    refine h.of_step (c := .idle) rfl trivial (fun q hq => ?_) (fun _ hl => hl.elim) (fun q hl => ?_)
      fun q => ?_
    · exact (h.known q).keep (fun _ _ _ _ _ => ⟨rfl, fun q' => (hsame q').2.2⟩)
        (fun _ q' _ _ => ⟨(hsame q').1, fun _ => ⟨(hsame q').2.1, rfl⟩, fun _ => (hsame q').2.1⟩) rfl
    · rw [(hsame q).2.1] at hl
      rw [(hsame q).1]
      exact h.loaded q hl
    · by_cases hq : q = pos
      · subst hq
        refine (h.counted q).leave (p := p) (c := .idle) rfl ?_ (fun h => h) (by rw [hat])
        rw [hp]
        exact hplace
      · refine (h.counted q).same (p := p) (c := .idle) rfl ?_ (by rw [hother q hq])
        rw [hp]
        refine iff_of_false (fun h => h) fun (he : reader.place = some q) => hq ?_
        exact Option.some.inj (he.symm.trans hplace)

omit [DecidableEq Party] in
theorem inv_initShmBuffer : Inv config (initShmBuffer : ShareBuffer Party) where
  known := fun _ => trivial
  loader := fun _ _ _ h => h.elim
  loaded := fun _ h => by cases h
  counted := fun _ => ⟨∅, fun _ => iff_of_false (Finset.notMem_empty _) fun h => h, rfl⟩

theorem Inv.step {e : Event Party} (h : Inv config s) (hg : UnusedFree config s e)
    (hs : s.step config e = some s') : Inv config s' := by
  cases e with
  | makeReader p block =>
    simp only [ShareBuffer.step] at hs
    split at hs
    next hp =>
      split_ifs at hs with hc
      obtain rfl := Option.some.inj hs
      refine h.of_step rfl ⟨rfl, fun _ hq => by cases hq⟩ (fun q hq => ?_) (fun _ hl => hl.elim) h.loaded
        fun pos => ?_
      · refine (h.known q).keep (fun block i pos reusedPos hcall => ?_)
          (fun _ _ _ _ => ⟨rfl, fun _ => ⟨rfl, rfl⟩, fun _ => rfl⟩) rfl
        have hkq := h.known q
        rw [hcall] at hkq
        have hholder := hkq.1
        rw [hc.1] at hholder
        cases hholder
      · refine (h.counted pos).same (p := p) rfl ?_ rfl
        rw [hp]
        exact Iff.rfl
    next => cases hs
  | acquire p =>
    simp only [ShareBuffer.step] at hs
    split at hs
    next block i pos reusedPos hp =>
      refine Option.some.inj hs ▸ h.acquireBlock hp fun hreused => ?_
      simpa only [UnusedFree, hp, hreused] using hg
    next => cases hs
  | next p =>
    simp only [ShareBuffer.step] at hs
    split at hs
    next reader hp =>
      split at hs
      next pos hplace => exact h.sharedNext hp hplace hs
      next hplace hstage =>
        have hk := h.known p
        rw [hp] at hk
        refine Option.some.inj hs ▸ h.setCall ?_ (fun pos hl => ?_) fun pos => ?_
        · simpa only [Known, hplace] using hk
        · rw [show ({ reader with stage := .reading } : Reader).place = none from hplace] at hl
          cases hl.1
        · rw [hp]
          exact Iff.rfl
      next => cases hs
    next => cases hs
  | readSome p nBytes =>
    simp only [ShareBuffer.step] at hs
    split at hs
    next reader hp =>
      split_ifs at hs with hc
      exact Option.some.inj hs ▸ h.readSome hp hc.1
    next => cases hs
  | readEnd p success =>
    simp only [ShareBuffer.step] at hs
    split at hs
    next reader hp =>
      by_cases hc : reader.stage = .reading
      · rw [if_pos hc] at hs
        exact h.readEnd hp hc hs
      · rw [if_neg hc] at hs
        cases hs
    next => cases hs
  | destroy p =>
    simp only [ShareBuffer.step] at hs
    split at hs
    next reader hp =>
      split_ifs at hs with hc
      exact Option.some.inj hs ▸ h.destroy hp
    next => cases hs

/-- Whatever the readers do, the protocol holds as long as the slots of the all-zero block id are
left alone. -/
theorem protocol_of_reach (h : Reach (step config) (UnusedFree config) initShmBuffer s) :
    Protocol config s := by
  have hi := h.invariant (Inv config) inv_initShmBuffer fun s e s' hi hg hs => hi.step hg hs
  exact hi.protocol

def Config.oneSlot : Config := ⟨1, 1, fun _ => 0, fun block _ => block[0]!⟩

def ones : BlockId := Vector.replicate 16 1

/-- A reader up to the read of its file. -/
def startsLoad (p : Bool) (block : BlockId) : List (Event Bool) :=
  [.makeReader p block, .acquire p, .next p, .next p, .next p, .next p]

def findsFree (s : ShareBuffer Bool) : Event Bool → Bool
  | .acquire p =>
    match s.calls p with
    | .acquiring _ _ pos _ => (s.headers pos).used || (s.headers pos).ref == 0
    | _ => true
  | _ => true

theorem unusedFree_of_findsFree (s : ShareBuffer Bool) (e : Event Bool) (h : findsFree s e = true) :
    UnusedFree .oneSlot s e := by
  cases e with
  | acquire p =>
    cases hp : s.calls p with
    | acquiring block i pos reusedPos =>
      cases reusedPos with
      | none =>
        simp only [findsFree, hp, Bool.or_eq_true, beq_iff_eq] at h
        simp only [UnusedFree, hp]
        intro _ _ hu
        exact h.resolve_left (by simp [hu])
      | some q => simp only [UnusedFree, hp]
    | _ => simp only [UnusedFree, hp]
  | _ => trivial

/-- A block that one reader loads and another finds loaded. -/
theorem protocol_twoReaders : ∃ s : ShareBuffer Bool,
    Reach (step .oneSlot) (UnusedFree .oneSlot) initShmBuffer s ∧
    (s.headers 0).ref = 2 ∧ s.calls false = .live ⟨ones, some 0, true, .made⟩ ∧ Protocol .oneSlot s := by
  have hrun : (run (checked findsFree (step .oneSlot)) initShmBuffer
      (startsLoad true ones ++ [.readEnd true true, .next true, .makeReader false ones, .acquire false,
        .next false])).any fun s =>
      (s.headers 0).ref = 2 ∧ s.calls false = .live ⟨ones, some 0, true, .made⟩ := by decide +kernel
  obtain ⟨s, hs, he⟩ := (Option.any_eq_true _ _).mp hrun
  obtain ⟨href, hcall⟩ := of_decide_eq_true he
  have hreach := Reach.start.checked unusedFree_of_findsFree hs
  exact ⟨s, hreach, href, hcall, protocol_of_reach hreach⟩

/-- A slot with a reader of the all-zero block id is taken for unused, and its file and that of
the other block are read into it at once. -/
theorem not_protocol_zeroId : ¬ ∀ s : ShareBuffer Bool,
    Reach (step .oneSlot) (fun _ _ => True) initShmBuffer s → Protocol .oneSlot s := by
  intro h
  have hrun : (run (step .oneSlot) initShmBuffer (startsLoad true zeroId ++ startsLoad false ones)).any
      fun s => s.calls true = .live ⟨zeroId, some 0, false, .reading⟩ ∧
        s.calls false = .live ⟨ones, some 0, false, .reading⟩ := by decide +kernel
  obtain ⟨s, hs, he⟩ := (Option.any_eq_true _ _).mp hrun
  obtain ⟨htrue, hfalse⟩ := of_decide_eq_true he
  have hloader := (h s (Reach.start.run (fun _ _ _ => trivial) hs)).loader 0 true false
    (by rw [htrue]; exact ⟨rfl, rfl⟩) (by rw [hfalse]; exact ⟨rfl, rfl⟩)
  cases hloader

end UnifiedCache.PcStore.ShareBuffer
