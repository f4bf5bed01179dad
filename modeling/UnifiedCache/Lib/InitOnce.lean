import UnifiedCache.Lib.StepSystem

/-! Objects of shared memory under one name. Who creates the object under the name fills it in and then
marks it as ready; who finds it there waits for the mark. Processes take turns step by step, any of their
system calls may fail, any process may stop at any point, and the name may be taken away from an object. -/

namespace InitOnce

/-- What is known of an object and of the two ways to set it up. `writes` are the stores of the creator in
their order, all but the last one. -/
structure Publication (Content : Type*) where
  size : Nat
  blank : Content
  writes : List (Content → Content)
  publish : Content → Content
  isReady : Content → Bool
  waitsForSize : Bool
  truncates : Bool
  registers : Bool
  reports : Bool
  maxTryTime : Nat
  blank_not_ready : isReady blank = false
  writes_not_ready : ∀ f ∈ writes, ∀ c, isReady c = false → isReady (f c) = false
  publish_ready : ∀ c, isReady (publish c) = true

/-- Where a process is in its setup. The objects have numbers; `ok` is false where a failure is passed over. -/
inductive Stage where
  | idle
  | opening
  | truncating (i : Nat)
  | mapping (i : Nat)
  | writing (i k : Nat)
  | reopening
  | sizing (i tryTime : Nat)
  | extending (i : Nat)
  | loadMapping (i : Nat)
  | waiting (i tryTime : Nat)
  | registering (i : Option Nat) (ok : Bool)
  | ready (i : Option Nat) (ok : Bool)
  | failed
  | faulted

namespace Stage

/-- The object that a process knows. -/
def object : Stage → Option Nat
  | truncating i | mapping i | writing i _ | sizing i _ | extending i | loadMapping i | waiting i _ => some i
  | registering i _ | ready i _ => i
  | idle | opening | reopening | failed | faulted => none

/-- The object that a process has created and not marked yet, with the stores it has made. -/
def building : Stage → Option (Nat × Nat)
  | truncating i | mapping i => some (i, 0)
  | writing i k => some (i, k)
  | _ => none

/-- The object that a process has created and given its size. -/
def grown : Stage → Option Nat
  | mapping i | writing i _ => some i
  | _ => none

/-- The object that a process has seen the mark of. -/
def attached : Stage → Option Nat
  | registering i true | ready i true => i
  | _ => none

/-- The object that a process that has not created it maps or has mapped. -/
def mapped : Stage → Option Nat
  | loadMapping i | waiting i _ => some i
  | _ => none

/-- A setup goes on or has ended well after a failure. -/
def passedOver : Stage → Bool
  | registering i ok | ready i ok => i.isNone || !ok
  | _ => false

end Stage

/-- An object, with what was done to it by processes that were through with their setup. -/
structure Object (Content : Type*) where
  size : Nat
  content : Content
  operations : List (Content → Content)

structure Host (Process Content : Type*) where
  bound : Option Nat
  count : Nat
  objects : Nat → Object Content
  stages : Process → Stage

/-- `next` is the next step of a process, with `ok` false where the system call fails. -/
inductive Event (Process Content : Type*) where
  | call (p : Process)
  | next (p : Process) (ok : Bool)
  | operate (p : Process) (f : Content → Content)
  | stop (p : Process)
  | unlink

variable {Process Content : Type*}

namespace Publication

variable (pub : Publication Content)

def filled (k : Nat) : Content := (pub.writes.take k).foldl (fun c f => f c) pub.blank

/-- What the creator leaves. -/
def initial : Content := pub.publish (pub.writes.foldl (fun c f => f c) pub.blank)

/-- Where a setup goes on that has failed on the way. -/
def fail (i : Option Nat) : Stage := if pub.reports then .failed else .registering i false

def done (i : Nat) : Stage := if pub.registers then .registering (some i) true else .ready (some i) true

end Publication

namespace Host

variable [DecidableEq Process] (s : Host Process Content) (pub : Publication Content)

def start : Host Process Content where
  bound := none
  count := 0
  objects := fun _ => ⟨0, pub.blank, []⟩
  stages := fun _ => .idle

def goTo (p : Process) (stage : Stage) : Host Process Content := { s with stages := Function.update s.stages p stage }

def modify (i : Nat) (f : Object Content → Object Content) : Host Process Content :=
  { s with objects := Function.update s.objects i (f (s.objects i)) }

def resize (i : Nat) : Host Process Content := s.modify i fun o => { o with size := pub.size }

def store (i : Nat) (f : Content → Content) : Host Process Content :=
  s.modify i fun o => { o with content := f o.content }

/-- The step of a process where no system call fails. -/
def advance (p : Process) : Stage → Option (Host Process Content)
  | .idle | .ready _ _ | .failed | .faulted => none
  | .opening =>
    match s.bound with
    | none => some { s.goTo p (.truncating s.count) with bound := some s.count, count := s.count + 1 }
    | some _ => some (s.goTo p .reopening)
  | .truncating i => some ((s.resize pub i).goTo p (.mapping i))
  | .mapping i => some (s.goTo p (.writing i 0))
  | .writing i k =>
    match pub.writes[k]? with
    | some f => some ((s.store i f).goTo p (.writing i (k + 1)))
    | none => some ((s.store i pub.publish).goTo p (pub.done i))
  | .reopening =>
    match s.bound with
    | none => some (s.goTo p (pub.fail none))
    | some i => some (s.goTo p
      (if pub.waitsForSize then .sizing i 0 else if pub.truncates then .extending i else .loadMapping i))
  | .sizing i tryTime =>
    if pub.maxTryTime < tryTime then some (s.goTo p (pub.fail none))
    else some (s.goTo p (if (s.objects i).size = pub.size then .loadMapping i else .sizing i (tryTime + 1)))
  | .extending i => some ((s.resize pub i).goTo p (.loadMapping i))
  | .loadMapping i => some (s.goTo p (.waiting i 0))
  | .waiting i tryTime =>
    -- What lies behind the end of the file cannot be read.
    if (s.objects i).size < pub.size then some (s.goTo p .faulted)
    else if pub.isReady (s.objects i).content then some (s.goTo p (pub.done i))
    else if pub.maxTryTime < tryTime then some (s.goTo p (pub.fail (some i)))
    else some (s.goTo p (.waiting i (tryTime + 1)))
  | .registering i ok => some (s.goTo p (.ready i ok))

/-- The step of a process whose system call fails. A store or a load is none. -/
def failing (p : Process) : Stage → Option (Host Process Content)
  | .idle | .ready _ _ | .failed | .faulted | .writing _ _ | .waiting _ _ => none
  | .opening | .registering _ _ => some (s.goTo p .failed)
  | .truncating _ | .mapping _ | .reopening | .sizing _ _ | .extending _ | .loadMapping _ =>
    some (s.goTo p (pub.fail none))

def step : Event Process Content → Option (Host Process Content)
  | .call p =>
    match s.stages p with
    | .idle => some (s.goTo p .opening)
    | _ => none
  | .next p ok => if ok then s.advance pub p (s.stages p) else s.failing pub p (s.stages p)
  | .operate p f =>
    match s.stages p with
    | .ready (some i) _ => some
      (s.modify i fun o => { o with content := f o.content, operations := o.operations ++ [f] })
    | _ => none
  | .stop p => some (s.goTo p .failed)
  | .unlink => some { s with bound := none }

end Host

/-- An operation does not touch the mark, and is made by a process that has seen it. -/
def Allowed (pub : Publication Content) (s : Host Process Content) : Event Process Content → Prop
  | .operate p f => (∀ c, pub.isReady c = true → pub.isReady (f c) = true) ∧ (s.stages p).attached.isSome
  | _ => True

namespace Publication

variable {pub : Publication Content}

theorem not_ready_foldl {fs : List (Content → Content)} (hfs : ∀ f ∈ fs, f ∈ pub.writes) {c : Content}
    (hc : pub.isReady c = false) : pub.isReady (fs.foldl (fun c f => f c) c) = false := by
  induction fs generalizing c with
  | nil => exact hc
  | cons f fs ih =>
    exact ih (fun g hg => hfs g (List.mem_cons_of_mem _ hg)) (pub.writes_not_ready f (hfs f List.mem_cons_self) c hc)

theorem filled_not_ready (k : Nat) : pub.isReady (pub.filled k) = false :=
  not_ready_foldl (fun _ hf => List.mem_of_mem_take hf) pub.blank_not_ready

theorem filled_succ {k : Nat} {f : Content → Content} (hf : pub.writes[k]? = some f) :
    pub.filled (k + 1) = f (pub.filled k) := by
  rw [filled, List.take_add_one, hf, List.foldl_append]
  rfl

theorem publish_filled {k : Nat} (hk : pub.writes[k]? = none) : pub.publish (pub.filled k) = pub.initial := by
  rw [filled, List.take_of_length_le (List.getElem?_eq_none_iff.mp hk), initial]

end Publication

/-- What holds for the stage of any process: what it builds is not marked, what it has seen the mark of is. -/
structure Stage.Fits (pub : Publication Content) (count : Nat) (objects : Nat → Object Content)
    (stage : Stage) : Prop where
  object_lt : ∀ i, stage.object = some i → i < count
  building : ∀ i k, stage.building = some (i, k) → (objects i).content = pub.filled k ∧ (objects i).operations = []
  sized : ∀ i, stage.grown = some i → (objects i).size = pub.size
  attached : ∀ i, stage.attached = some i → pub.isReady (objects i).content = true
  mapped : pub.waitsForSize = true ∨ pub.truncates = true → ∀ i, stage.mapped = some i → (objects i).size = pub.size
  faulted : pub.waitsForSize = true ∨ pub.truncates = true → stage ≠ .faulted
  reported : pub.reports = true → stage.passedOver = false

/-- A marked object is what its creator left and the operations since then have made of it. -/
structure Object.Sound (pub : Publication Content) (o : Object Content) : Prop where
  marked : pub.isReady o.content = true → o.content = o.operations.foldl (fun c f => f c) pub.initial ∧
    o.size = pub.size
  unmarked : pub.isReady o.content = false → o.operations = []

structure Inv (pub : Publication Content) (s : Host Process Content) : Prop where
  bound_lt : ∀ i, s.bound = some i → i < s.count
  new : ∀ i, s.count ≤ i → s.objects i = ⟨0, pub.blank, []⟩
  sound : ∀ i, (s.objects i).Sound pub
  fits : ∀ p, (s.stages p).Fits pub s.count s.objects
  one : ∀ p q i k l, (s.stages p).building = some (i, k) → (s.stages q).building = some (i, l) → p = q

namespace Stage.Fits

variable {pub : Publication Content} {count i : Nat} {objects : Nat → Object Content} {stage : Stage}

/-- A stage in which a process neither builds nor has mapped an object. -/
theorem of_knows (hobject : ∀ i, stage.object = some i → i < count) (hbuilding : stage.building = none)
    (hgrown : stage.grown = none) (hattached : stage.attached = none) (hmapped : stage.mapped = none)
    (hfaulted : stage ≠ .faulted) (hpassed : stage.passedOver = false) : stage.Fits pub count objects where
  object_lt := hobject
  building := by simp [hbuilding]
  sized := by simp [hgrown]
  attached := by simp [hattached]
  mapped := by simp [hmapped]
  faulted := fun _ => hfaulted
  reported := fun _ => hpassed

theorem failed : Stage.failed.Fits pub count objects :=
  of_knows (by simp [Stage.object]) rfl rfl rfl rfl (by simp) rfl

theorem fail {x : Option Nat} (hx : ∀ i, x = some i → i < count) : (pub.fail x).Fits pub count objects := by
  unfold Publication.fail
  split_ifs with hreports
  · exact failed
  · exact {
      object_lt := hx
      building := by simp [Stage.building]
      sized := by simp [Stage.grown]
      attached := by simp [Stage.attached]
      mapped := by simp [Stage.mapped]
      faulted := by simp
      reported := fun h => absurd h hreports }

theorem done (hi : i < count) (hready : pub.isReady (objects i).content = true) :
    (pub.done i).Fits pub count objects := by
  have hshape : (pub.done i).object = some i ∧ (pub.done i).building = none ∧ (pub.done i).grown = none ∧
      (pub.done i).attached = some i ∧ (pub.done i).mapped = none ∧ pub.done i ≠ .faulted ∧
      (pub.done i).passedOver = false := by
    unfold Publication.done
    split_ifs <;>
      simp [Stage.object, Stage.building, Stage.grown, Stage.attached, Stage.mapped, Stage.passedOver]
  obtain ⟨hobject, hbuilding, hgrown, hattached, hmapped, hfaulted, hpassed⟩ := hshape
  refine ⟨fun j hj => ?_, by simp [hbuilding], by simp [hgrown], fun j hj => ?_, by simp [hmapped], fun _ => hfaulted,
    fun _ => hpassed⟩
  · rw [hobject, Option.some_inj] at hj
    exact hj ▸ hi
  · rw [hattached, Option.some_inj] at hj
    exact hj ▸ hready

/-- The stages of a creator. -/
theorem creates {k : Nat} (hstage : stage = .truncating i ∧ k = 0 ∨
      (stage = .mapping i ∧ k = 0 ∨ stage = .writing i k) ∧ (objects i).size = pub.size) (hi : i < count)
    (hcontent : (objects i).content = pub.filled k) (hoperations : (objects i).operations = []) :
    stage.Fits pub count objects := by
  have hshape : stage.building = some (i, k) ∧ stage.object = some i ∧ stage.attached = none ∧ stage.mapped = none ∧
      stage ≠ .faulted ∧ stage.passedOver = false := by
    rcases hstage with ⟨rfl, rfl⟩ | ⟨⟨rfl, rfl⟩ | rfl, -⟩ <;>
      simp [Stage.building, Stage.object, Stage.attached, Stage.mapped, Stage.passedOver]
  obtain ⟨hbuilding, hobject, hattached, hmapped, hfaulted, hpassed⟩ := hshape
  refine ⟨fun j hj => ?_, fun j l hj => ?_, fun j hj => ?_, by simp [hattached], by simp [hmapped], fun _ => hfaulted,
    fun _ => hpassed⟩
  · rw [hobject, Option.some_inj] at hj
    exact hj ▸ hi
  · rw [hbuilding, Option.some_inj, Prod.mk.injEq] at hj
    obtain ⟨rfl, rfl⟩ := hj
    exact ⟨hcontent, hoperations⟩
  · rcases hstage with ⟨rfl, -⟩ | ⟨⟨rfl, -⟩ | rfl, hsize⟩
    · cases hj
    · cases hj
      exact hsize
    · cases hj
      exact hsize

/-- The stages of a process that has found an object and maps it. -/
theorem maps (hstage : stage = .loadMapping i ∨ ∃ t, stage = .waiting i t) (hi : i < count)
    (hsize : pub.waitsForSize = true ∨ pub.truncates = true → (objects i).size = pub.size) :
    stage.Fits pub count objects := by
  have hshape : stage.object = some i ∧ stage.mapped = some i ∧ stage.building = none ∧ stage.grown = none ∧
      stage.attached = none ∧ stage ≠ .faulted ∧ stage.passedOver = false := by
    rcases hstage with rfl | ⟨t, rfl⟩ <;>
      simp [Stage.object, Stage.mapped, Stage.building, Stage.grown, Stage.attached, Stage.passedOver]
  obtain ⟨hobject, hmapped, hbuilding, hgrown, hattached, hfaulted, hpassed⟩ := hshape
  refine ⟨fun j hj => ?_, by simp [hbuilding], by simp [hgrown], by simp [hattached], fun hpub j hj => ?_,
    fun _ => hfaulted, fun _ => hpassed⟩
  · rw [hobject, Option.some_inj] at hj
    exact hj ▸ hi
  · rw [hmapped, Option.some_inj] at hj
    exact hj ▸ hsize hpub

end Stage.Fits

section Objects

variable {pub : Publication Content} {s : Host Process Content} {p : Process} {i : Nat}

/-- An object is changed so that nobody is misled. -/
structure Changes (pub : Publication Content) (s : Host Process Content) (i : Nat) (o : Object Content) : Prop where
  lt : i < s.count
  size : o.size = (s.objects i).size ∨ o.size = pub.size
  ready : pub.isReady (s.objects i).content = true → pub.isReady o.content = true
  building : ∀ q k, (s.stages q).building = some (i, k) →
    o.content = (s.objects i).content ∧ o.operations = (s.objects i).operations
  sound : o.Sound pub

variable {o : Object Content}

theorem Changes.size_eq (hc : Changes pub s i o) {j : Nat} (hj : (s.objects j).size = pub.size) :
    (Function.update s.objects i o j).size = pub.size := by
  by_cases heq : j = i
  · subst heq
    rw [Function.update_self]
    exact hc.size.elim (fun hs => hs.trans hj) id
  · rwa [Function.update_of_ne heq]

theorem Inv.modify (h : Inv pub s) (hc : Changes pub s i o) :
    Inv pub { s with objects := Function.update s.objects i o } where
  bound_lt := h.bound_lt
  new := by
    intro j hj
    have hne : j ≠ i := (Nat.lt_of_lt_of_le hc.lt hj).ne'
    rw [← h.new j hj]
    exact Function.update_of_ne hne ..
  sound := by
    intro j
    show (Function.update s.objects i o j).Sound pub
    by_cases heq : j = i
    · rw [heq, Function.update_self]
      exact hc.sound
    · rw [Function.update_of_ne heq]
      exact h.sound j
  fits := by
    intro q
    have hq := h.fits q
    refine ⟨hq.object_lt, fun j k hj => ?_, fun j hj => hc.size_eq (hq.sized j hj), fun j hj => ?_,
      fun hpub j hj => hc.size_eq (hq.mapped hpub j hj), hq.faulted, hq.reported⟩
    · show (Function.update s.objects i o j).content = _ ∧ (Function.update s.objects i o j).operations = _
      by_cases heq : j = i
      · rw [heq, Function.update_self]
        rw [heq] at hj
        obtain ⟨hcontent, hoperations⟩ := hc.building q k hj
        rw [hcontent, hoperations]
        exact hq.building i k hj
      · rw [Function.update_of_ne heq]
        exact hq.building j k hj
    · show pub.isReady (Function.update s.objects i o j).content = true
      by_cases heq : j = i
      · rw [heq, Function.update_self]
        rw [heq] at hj
        exact hc.ready (hq.attached i hj)
      · rw [Function.update_of_ne heq]
        exact hq.attached j hj
  one := h.one

theorem Inv.not_ready_of_building (h : Inv pub s) {q : Process} {k : Nat} (hq : (s.stages q).building = some (i, k)) :
    pub.isReady (s.objects i).content = false := by
  rw [((h.fits q).building i k hq).1]
  exact Publication.filled_not_ready k

theorem Inv.resize (h : Inv pub s) (hi : i < s.count) :
    Changes pub s i { s.objects i with size := pub.size } where
  lt := hi
  size := .inr rfl
  ready := id
  building := fun _ _ _ => ⟨rfl, rfl⟩
  sound := ⟨fun hready => ⟨((h.sound i).marked hready).1, rfl⟩, (h.sound i).unmarked⟩

/-- An operation finds its object marked and leaves it so. -/
theorem Inv.operate (h : Inv pub s) (hready : (s.stages p).attached = some i) {f : Content → Content}
    (hf : ∀ c, pub.isReady c = true → pub.isReady (f c) = true) :
    Inv pub (s.modify i fun o => { o with content := f o.content, operations := o.operations ++ [f] }) := by
  have hmarked := (h.fits p).attached i hready
  obtain ⟨hcontent, hsize⟩ := (h.sound i).marked hmarked
  have hobject : (s.stages p).object = some i := by
    cases hstage : s.stages p with
    | registering x ok | ready x ok =>
      rw [hstage] at hready
      cases ok with
      | true => exact hready
      | false => cases hready
    | idle | opening | truncating _ | mapping _ | writing _ _ | reopening | sizing _ _ | extending _ | loadMapping _
      | waiting _ _ | failed | faulted =>
      rw [hstage] at hready
      cases hready
  refine h.modify {
    lt := (h.fits p).object_lt i hobject
    size := .inl rfl
    ready := hf _
    building := fun q k hq => absurd ((h.not_ready_of_building hq).symm.trans hmarked) (by simp)
    sound := ⟨fun _ => ⟨?_, hsize⟩, fun hnot => ?_⟩ }
  · rw [List.foldl_append, ← hcontent]
    rfl
  · rw [hf _ hmarked] at hnot
    cases hnot

theorem Inv.start (pub : Publication Content) : Inv pub (Host.start pub : Host Process Content) where
  bound_lt := by simp [Host.start]
  new := fun _ _ => rfl
  sound := fun _ => ⟨fun h => absurd (h.symm.trans pub.blank_not_ready) (by simp), fun _ => rfl⟩
  fits := fun _ => Stage.Fits.of_knows (by simp [Host.start, Stage.object]) rfl rfl rfl rfl (by simp [Host.start]) rfl
  one := by simp [Host.start, Stage.building]

/-- A process that is through with its setup has an object that was filled in before anything was done to
it, and never again. -/
theorem Inv.content_eq (h : Inv pub s) (hp : s.stages p = .ready (some i) true) :
    (s.objects i).size = pub.size ∧
      (s.objects i).content = (s.objects i).operations.foldl (fun c f => f c) pub.initial := by
  have hready := (h.fits p).attached i (by rw [hp]; rfl)
  exact ((h.sound i).marked hready).symm

end Objects

variable [DecidableEq Process]

section Host

variable (s : Host Process Content) (p : Process) (stage : Stage)

@[simp] theorem goTo_stages_self : (s.goTo p stage).stages p = stage := Function.update_self ..

@[simp] theorem goTo_goTo (stage' : Stage) : (s.goTo p stage).goTo p stage' = s.goTo p stage' := by
  simp [Host.goTo]

theorem goTo_stages_of_ne {q : Process} (hq : q ≠ p) : (s.goTo p stage).stages q = s.stages q :=
  Function.update_of_ne hq ..

end Host

section Changes

variable {pub : Publication Content} {s : Host Process Content} {p : Process} {stage : Stage} {i : Nat}

/-- A process goes on without a change of an object. -/
theorem Inv.goTo (h : Inv pub s) (hstage : stage.Fits pub s.count s.objects)
    (hone : ∀ i k, stage.building = some (i, k) → ∀ q l, (s.stages q).building = some (i, l) → q = p) :
    Inv pub (s.goTo p stage) where
  bound_lt := h.bound_lt
  new := h.new
  sound := h.sound
  fits := by
    intro q
    by_cases hq : q = p
    · rw [hq, goTo_stages_self]
      exact hstage
    · rw [goTo_stages_of_ne s p stage hq]
      exact h.fits q
  one := by
    intro q q' i k l hk hl
    by_cases hq : q = p
    · by_cases hq' : q' = p
      · rw [hq, hq']
      · rw [hq, goTo_stages_self] at hk
        rw [goTo_stages_of_ne s p stage hq'] at hl
        rw [hq, hone i k hk q' l hl]
    · rw [goTo_stages_of_ne s p stage hq] at hk
      by_cases hq' : q' = p
      · rw [hq', goTo_stages_self] at hl
        rw [hq', hone i l hl q k hk]
      · rw [goTo_stages_of_ne s p stage hq'] at hl
        exact h.one q q' i k l hk hl

/-- A store of the creator, with which it goes on. -/
theorem Inv.store (h : Inv pub s) {k : Nat} (hp : s.stages p = .writing i k) {f : Content → Content}
    (hsound : (Object.mk (s.objects i).size (f (s.objects i).content) (s.objects i).operations).Sound pub)
    (hstage : stage.Fits pub s.count
      (Function.update s.objects i { s.objects i with content := f (s.objects i).content }))
    (hone : ∀ j l, stage.building = some (j, l) → j = i) : Inv pub ((s.store i f).goTo p stage) := by
  have hbuilding : (s.stages p).building = some (i, k) := by rw [hp]; rfl
  have halone : ∀ q l, (s.stages q).building = some (i, l) → q = p := fun q l hq => h.one q p i l k hq hbuilding
  have hlt : i < s.count := (h.fits p).object_lt i (by rw [hp]; rfl)
  have hleft : Inv pub (s.goTo p .failed) := h.goTo Stage.Fits.failed (by simp [Stage.building])
  have hnone : ∀ q l, ((s.goTo p .failed).stages q).building ≠ some (i, l) := by
    intro q l hq
    by_cases heq : q = p
    · rw [heq, goTo_stages_self] at hq
      cases hq
    · rw [goTo_stages_of_ne s p _ heq] at hq
      exact heq (halone q l hq)
  have hchanges : Changes pub (s.goTo p .failed) i { s.objects i with content := f (s.objects i).content } :=
    { lt := hlt
      size := .inl rfl
      ready := fun hready => absurd (hready.symm.trans (h.not_ready_of_building hbuilding)) (by simp)
      building := fun q l hq => absurd hq (hnone q l)
      sound := hsound }
  have hmodified := hleft.modify hchanges
  have hlast : Inv pub (Host.goTo { s.goTo p .failed with
      objects := Function.update (s.goTo p .failed).objects i { s.objects i with content := f (s.objects i).content } }
      p stage) := hmodified.goTo hstage ?_
  · rwa [show Host.goTo { s.goTo p .failed with
      objects := Function.update (s.goTo p .failed).objects i { s.objects i with content := f (s.objects i).content } }
      p stage = (s.store i f).goTo p stage by simp [Host.goTo, Host.store, Host.modify]] at hlast
  · intro j l hj q l' hq
    rw [hone j l hj] at hq
    exact absurd hq (hnone q l')

/-- A new object under the name. -/
theorem Inv.create (h : Inv pub s) :
    Inv pub { s.goTo p (.truncating s.count) with bound := some s.count, count := s.count + 1 } where
  bound_lt := by
    rintro i hi
    rw [Option.some_inj] at hi
    exact hi ▸ Nat.lt_succ_self _
  new := fun i hi => h.new i (Nat.le_of_succ_le hi)
  sound := h.sound
  fits := by
    intro q
    show (Function.update s.stages p (.truncating s.count) q).Fits pub (s.count + 1) s.objects
    by_cases hq : q = p
    · rw [hq, Function.update_self]
      refine Stage.Fits.creates (k := 0) (.inl ⟨rfl, rfl⟩) (Nat.lt_succ_self _) ?_ ?_
      · rw [h.new s.count le_rfl]
        rfl
      · rw [h.new s.count le_rfl]
    · rw [Function.update_of_ne hq]
      have hfits := h.fits q
      exact { hfits with object_lt := fun i hi => Nat.lt_succ_of_lt (hfits.object_lt i hi) }
  one := by
    have hold : ∀ q l, (s.stages q).building ≠ some (s.count, l) := by
      intro q l hq
      have hobject : (s.stages q).object = some s.count := by
        cases hstage : s.stages q <;> simp_all [Stage.building, Stage.object]
      exact Nat.lt_irrefl _ ((h.fits q).object_lt _ hobject)
    intro q q' i k l
    show (Function.update s.stages p (.truncating s.count) q).building = some (i, k) →
      (Function.update s.stages p (.truncating s.count) q').building = some (i, l) → q = q'
    by_cases hq : q = p
    · by_cases hq' : q' = p
      · intro _ _
        rw [hq, hq']
      · rw [hq, Function.update_self, Function.update_of_ne hq']
        intro hk hl
        cases hk
        exact absurd hl (hold q' l)
    · rw [Function.update_of_ne hq]
      by_cases hq' : q' = p
      · rw [hq', Function.update_self]
        intro hk hl
        cases hl
        exact absurd hk (hold q k)
      · rw [Function.update_of_ne hq']
        exact h.one q q' i k l

/-- A process that builds nothing goes on. -/
theorem Inv.pass (h : Inv pub s) (hstage : stage.Fits pub s.count s.objects) (hbuilding : stage.building = none) :
    Inv pub (s.goTo p stage) :=
  h.goTo hstage fun i k hk => by simp [hbuilding] at hk

/-- The next store of the creator, or the mark. -/
theorem Inv.advance_writing (h : Inv pub s) {k : Nat} (hp : s.stages p = .writing i k) {s' : Host Process Content}
    (hs : s.advance pub p (.writing i k) = some s') : Inv pub s' := by
  have hfits := h.fits p
  rw [hp] at hfits
  obtain ⟨hcontent, hoperations⟩ := hfits.building i k rfl
  have hlt := hfits.object_lt i rfl
  have hsize := hfits.sized i rfl
  rw [Host.advance] at hs
  cases hf : pub.writes[k]? with
  | some f =>
    rw [hf] at hs
    cases hs
    have hfilled : f (s.objects i).content = pub.filled (k + 1) := by rw [hcontent, Publication.filled_succ hf]
    refine h.store hp ⟨fun hready => ?_, fun _ => hoperations⟩ (Stage.Fits.creates (k := k + 1) ?_ hlt ?_ ?_) ?_
    · rw [hfilled, Publication.filled_not_ready] at hready
      cases hready
    · refine .inr ⟨.inr rfl, ?_⟩
      rwa [Function.update_self]
    · rw [Function.update_self]
      exact hfilled
    · rwa [Function.update_self]
    · intro j l hj
      simp only [Stage.building, Option.some_inj, Prod.mk.injEq] at hj
      exact hj.1.symm
  | none =>
    rw [hf] at hs
    cases hs
    have hinitial : pub.publish (s.objects i).content = pub.initial := by rw [hcontent, Publication.publish_filled hf]
    refine h.store hp ⟨fun _ => ⟨?_, hsize⟩, fun hready => ?_⟩ (Stage.Fits.done hlt ?_) ?_
    · rw [hoperations]
      exact hinitial
    · rw [pub.publish_ready] at hready
      cases hready
    · rw [Function.update_self]
      exact pub.publish_ready _
    · intro j l hj
      unfold Publication.done at hj
      split_ifs at hj <;> cases hj

theorem Inv.advance_waiting (h : Inv pub s) {t : Nat} (hp : s.stages p = .waiting i t) {s' : Host Process Content}
    (hs : s.advance pub p (.waiting i t) = some s') : Inv pub s' := by
  have hfits := h.fits p
  rw [hp] at hfits
  have hlt := hfits.object_lt i rfl
  rw [Host.advance] at hs
  split_ifs at hs with hshort hready htimeout
  · cases hs
    refine h.pass ⟨by simp [Stage.object], by simp [Stage.building], by simp [Stage.grown], by simp [Stage.attached],
      by simp [Stage.mapped], fun hpub => ?_, fun _ => rfl⟩ rfl
    have hsize := hfits.mapped hpub i rfl
    omega
  · cases hs
    refine h.pass (Stage.Fits.done hlt hready) ?_
    unfold Publication.done
    split_ifs <;> rfl
  · cases hs
    refine h.pass (Stage.Fits.fail fun j hj => ?_) ?_
    · obtain rfl := Option.some_injective _ hj
      exact hlt
    · unfold Publication.fail
      split_ifs <;> rfl
  · cases hs
    exact h.pass (Stage.Fits.maps (.inr ⟨_, rfl⟩) hlt fun hpub => hfits.mapped hpub i rfl) rfl

theorem Inv.fail (h : Inv pub s) {x : Option Nat} (hx : ∀ i, x = some i → i < s.count) :
    Inv pub (s.goTo p (pub.fail x)) := by
  refine h.pass (Stage.Fits.fail hx) ?_
  unfold Publication.fail
  split_ifs <;> rfl

theorem Inv.advance (h : Inv pub s) {s' : Host Process Content} (hs : s.advance pub p (s.stages p) = some s') :
    Inv pub s' := by
  have hfits := h.fits p
  cases hp : s.stages p with
  | idle | ready _ _ | failed | faulted =>
    rw [hp] at hs
    cases hs
  | opening =>
    rw [hp, Host.advance] at hs
    cases hbound : s.bound with
    | none =>
      rw [hbound] at hs
      cases hs
      exact h.create
    | some i =>
      rw [hbound] at hs
      cases hs
      exact h.pass (Stage.Fits.of_knows (by simp [Stage.object]) rfl rfl rfl rfl (by simp) rfl) rfl
  | truncating i =>
    rw [hp] at hs hfits
    cases hs
    have hlt := hfits.object_lt i rfl
    obtain ⟨hcontent, hoperations⟩ := hfits.building i 0 rfl
    refine (h.modify (h.resize hlt)).goTo (Stage.Fits.creates (k := 0) (.inr ⟨.inl ⟨rfl, rfl⟩, ?_⟩) hlt ?_ ?_) ?_
    · show (Function.update s.objects i _ i).size = _
      rw [Function.update_self]
    · show (Function.update s.objects i _ i).content = _
      rwa [Function.update_self]
    · show (Function.update s.objects i _ i).operations = _
      rwa [Function.update_self]
    · intro j k hj q l hq
      obtain ⟨rfl, -⟩ := Prod.mk.inj (Option.some_injective _ hj)
      exact h.one q p i l 0 hq (by rw [hp]; rfl)
  | mapping i =>
    rw [hp] at hs hfits
    cases hs
    obtain ⟨hcontent, hoperations⟩ := hfits.building i 0 rfl
    refine h.goTo (Stage.Fits.creates (k := 0) (.inr ⟨.inr rfl, hfits.sized i rfl⟩) (hfits.object_lt i rfl) hcontent
      hoperations) fun j k hj q l hq => ?_
    obtain ⟨rfl, -⟩ := Prod.mk.inj (Option.some_injective _ hj)
    exact h.one q p i l 0 hq (by rw [hp]; rfl)
  | writing i k =>
    rw [hp] at hs
    exact h.advance_writing hp hs
  | reopening =>
    rw [hp, Host.advance] at hs
    cases hbound : s.bound with
    | none =>
      rw [hbound] at hs
      cases hs
      exact h.fail (by simp)
    | some i =>
      rw [hbound] at hs
      cases hs
      have hlt := h.bound_lt i hbound
      have hknows : ∀ stage : Stage, stage.object = some i → ∀ j, stage.object = some j → j < s.count := by
        intro stage hi j hj
        rw [hi, Option.some_inj] at hj
        exact hj ▸ hlt
      split_ifs with hwaits htruncates
      · exact h.pass (Stage.Fits.of_knows (hknows _ rfl) rfl rfl rfl rfl (by simp) rfl) rfl
      · exact h.pass (Stage.Fits.of_knows (hknows _ rfl) rfl rfl rfl rfl (by simp) rfl) rfl
      · refine h.pass (Stage.Fits.maps (.inl rfl) hlt fun hpub => ?_) rfl
        exact absurd hpub (by simp [hwaits, htruncates])
  | sizing i tryTime =>
    rw [hp] at hs hfits
    have hlt := hfits.object_lt i rfl
    rw [Host.advance] at hs
    split_ifs at hs with htimeout hsize
    · cases hs
      exact h.fail (by simp)
    · cases hs
      exact h.pass (Stage.Fits.maps (.inl rfl) hlt fun _ => hsize) rfl
    · cases hs
      refine h.pass (Stage.Fits.of_knows (fun j hj => ?_) rfl rfl rfl rfl (by simp) rfl) rfl
      obtain rfl := Option.some_injective _ hj
      exact hlt
  | extending i =>
    rw [hp] at hs hfits
    cases hs
    have hlt := hfits.object_lt i rfl
    refine (h.modify (h.resize hlt)).pass (Stage.Fits.maps (.inl rfl) hlt fun _ => ?_) rfl
    show (Function.update s.objects i _ i).size = _
    rw [Function.update_self]
  | loadMapping i =>
    rw [hp] at hs hfits
    cases hs
    exact h.pass (Stage.Fits.maps (.inr ⟨0, rfl⟩) (hfits.object_lt i rfl) fun hpub => hfits.mapped hpub i rfl) rfl
  | waiting i tryTime =>
    rw [hp] at hs
    exact h.advance_waiting hp hs
  | registering i ok =>
    rw [hp] at hs hfits
    cases hs
    refine h.pass ⟨hfits.object_lt, by simp [Stage.building], by simp [Stage.grown], ?_, by simp [Stage.mapped],
      by simp, ?_⟩ rfl
    · cases ok with
      | true => exact hfits.attached
      | false => simp [Stage.attached]
    · exact hfits.reported

theorem Inv.failing (h : Inv pub s) {s' : Host Process Content} (hs : s.failing pub p (s.stages p) = some s') :
    Inv pub s' := by
  cases hp : s.stages p with
  | idle | ready _ _ | failed | faulted | writing _ _ | waiting _ _ =>
    rw [hp] at hs
    cases hs
  | opening | registering _ _ =>
    rw [hp] at hs
    cases hs
    exact h.pass Stage.Fits.failed rfl
  | truncating _ | mapping _ | reopening | sizing _ _ | extending _ | loadMapping _ =>
    rw [hp] at hs
    cases hs
    exact h.fail (by simp)

theorem Inv.step (h : Inv pub s) {e : Event Process Content} (hg : Allowed pub s e) {s' : Host Process Content}
    (hs : s.step pub e = some s') : Inv pub s' := by
  cases e with
  | call p =>
    cases hp : s.stages p with
    | idle =>
      rw [Host.step, hp] at hs
      cases hs
      exact h.pass (Stage.Fits.of_knows (by simp [Stage.object]) rfl rfl rfl rfl (by simp) rfl) rfl
    | _ =>
      rw [Host.step, hp] at hs
      cases hs
  | next p ok =>
    rw [Host.step] at hs
    cases ok with
    | true => exact h.advance hs
    | false => exact h.failing hs
  | operate p f =>
    cases hp : s.stages p with
    | ready x ok =>
      rw [Host.step, hp] at hs
      cases x with
      | none => cases hs
      | some i =>
        cases hs
        refine h.operate (p := p) ?_ hg.1
        have hattached := hg.2
        rw [hp] at hattached ⊢
        cases ok with
        | true => rfl
        | false => cases hattached
    | _ =>
      rw [Host.step, hp] at hs
      cases hs
  | stop p =>
    cases hs
    exact h.pass Stage.Fits.failed rfl
  | unlink =>
    cases hs
    exact { h with bound_lt := by simp }

end Changes

section Runs

variable {pub : Publication Content} {s : Host Process Content}

theorem inv_of_reach (h : StepSystem.Reach (Host.step · pub) (Allowed pub) (Host.start pub) s) : Inv pub s :=
  h.invariant (Inv pub) (Inv.start pub) fun _ _ _ hinv hg hs => hinv.step hg hs

/-- Processes that are called and take turns then. -/
theorem reach_of_turns {guard : Host Process Content → Event Process Content → Prop} (hcall : ∀ t p, guard t (.call p))
    (hnext : ∀ t p, guard t (.next p true)) {calls turns : List Process}
    (hs : StepSystem.run (Host.step · pub) (Host.start pub) (calls.map .call ++ turns.map (.next · true)) = some s) :
    StepSystem.Reach (Host.step · pub) guard (Host.start pub) s := by
  refine StepSystem.Reach.start.run (fun t e he => ?_) hs
  rcases List.mem_append.mp he with he | he
  · obtain ⟨p, -, rfl⟩ := List.mem_map.mp he
    exact hcall t p
  · obtain ⟨p, -, rfl⟩ := List.mem_map.mp he
    exact hnext t p

/-- A process that is alone at first creates the object and makes all its stores. -/
theorem exists_writing {guard : Host Process Content → Event Process Content → Prop} (p : Process)
    (hcall : ∀ t, guard t (.call p)) (hnext : ∀ t, guard t (.next p true)) {k : Nat} (hk : k ≤ pub.writes.length) :
    ∃ s, StepSystem.Reach (Host.step · pub) guard (Host.start pub) s ∧ s.stages p = .writing 0 k := by
  induction k with
  | zero =>
    have hs : StepSystem.run (Host.step · pub) (Host.start pub) [.call p, .next p true, .next p true, .next p true] =
        some ((((Host.start pub).goTo p .opening).goTo p (.truncating 0)).resize pub 0 |>.goTo p (.mapping 0)
          |>.goTo p (.writing 0 0) |> fun s => { s with bound := some 0, count := 1 }) := by
      simp [StepSystem.run, Host.step, Host.start, Host.advance, Host.goTo, Host.resize, Host.modify]
    refine ⟨_, StepSystem.Reach.start.run (fun t e he => ?_) hs, by simp [Host.goTo]⟩
    simp only [List.mem_cons, List.not_mem_nil, or_false] at he
    rcases he with rfl | rfl | rfl | rfl
    · exact hcall t
    · exact hnext t
    · exact hnext t
    · exact hnext t
  | succ k ih =>
    obtain ⟨s, hs, hp⟩ := ih (by omega)
    have hf := List.getElem?_eq_getElem (l := pub.writes) (i := k) (by omega)
    have hstep : s.step pub (.next p true) = some ((s.store 0 pub.writes[k]).goTo p (.writing 0 (k + 1))) := by
      simp only [Host.step, if_true, hp, Host.advance, hf]
    exact ⟨_, hs.next (hnext s) hstep, goTo_stages_self ..⟩

/-- It is through then. -/
theorem exists_ready {guard : Host Process Content → Event Process Content → Prop} (p : Process)
    (hcall : ∀ t, guard t (.call p)) (hnext : ∀ t, guard t (.next p true)) :
    ∃ s, StepSystem.Reach (Host.step · pub) guard (Host.start pub) s ∧ s.stages p = .ready (some 0) true := by
  obtain ⟨s, hs, hp⟩ := exists_writing p hcall hnext (Nat.le_refl pub.writes.length)
  have hdone : StepSystem.Reach (Host.step · pub) guard (Host.start pub)
      ((s.store 0 pub.publish).goTo p (pub.done 0)) := by
    refine hs.next (e := .next p true) (hnext s) ?_
    simp [Host.step, hp, Host.advance]
  cases hregisters : pub.registers with
  | false =>
    refine ⟨_, hdone, ?_⟩
    rw [goTo_stages_self, Publication.done, hregisters]
    rfl
  | true =>
    have hstep : ((s.store 0 pub.publish).goTo p (pub.done 0)).step pub (.next p true) =
        some ((s.store 0 pub.publish).goTo p (.ready (some 0) true)) := by
      simp [Host.step, Publication.done, hregisters, Host.advance]
    exact ⟨_, hdone.next (hnext _) hstep, goTo_stages_self ..⟩

theorem bound_of_advance {p : Process} {stage : Stage} {s' : Host Process Content}
    (hs : s.advance pub p stage = some s') :
    s'.bound = s.bound ∧ s'.count = s.count ∨ s.bound = none ∧ s'.bound = some s.count ∧ s'.count = s.count + 1 := by
  cases stage with
  | idle | ready _ _ | failed | faulted => cases hs
  | opening =>
    cases hbound : s.bound with
    | none =>
      rw [Host.advance, hbound] at hs
      cases hs
      exact .inr ⟨rfl, rfl, rfl⟩
    | some i =>
      rw [Host.advance, hbound] at hs
      cases hs
      exact .inl ⟨hbound, rfl⟩
  | truncating _ | mapping _ | extending _ | loadMapping _ | registering _ _ =>
    cases hs
    exact .inl ⟨rfl, rfl⟩
  | writing i k =>
    rw [Host.advance] at hs
    cases hf : pub.writes[k]? with
    | some f | none =>
      rw [hf] at hs
      cases hs
      exact .inl ⟨rfl, rfl⟩
  | reopening =>
    rw [Host.advance] at hs
    cases hbound : s.bound with
    | none | some i =>
      rw [hbound] at hs
      cases hs
      exact .inl ⟨hbound, rfl⟩
  | sizing i t =>
    rw [Host.advance] at hs
    split_ifs at hs <;> cases hs <;> exact .inl ⟨rfl, rfl⟩
  | waiting i t =>
    rw [Host.advance] at hs
    split_ifs at hs <;> cases hs <;> exact .inl ⟨rfl, rfl⟩

/-- A step leaves what the name stands for, but where a process creates an object under it. -/
theorem bound_of_step {e : Event Process Content} (he : e ≠ .unlink) {s' : Host Process Content}
    (hs : s.step pub e = some s') :
    s'.bound = s.bound ∧ s'.count = s.count ∨ s.bound = none ∧ s'.bound = some s.count ∧ s'.count = s.count + 1 := by
  cases e with
  | unlink => exact absurd rfl he
  | call p =>
    cases hp : s.stages p <;> rw [Host.step, hp] at hs <;> cases hs
    exact .inl ⟨rfl, rfl⟩
  | stop p =>
    cases hs
    exact .inl ⟨rfl, rfl⟩
  | operate p f =>
    cases hp : s.stages p with
    | ready x ok =>
      cases x <;> rw [Host.step, hp] at hs <;> cases hs
      exact .inl ⟨rfl, rfl⟩
    | _ =>
      rw [Host.step, hp] at hs
      cases hs
  | next p ok =>
    rw [Host.step] at hs
    cases ok with
    | true => exact bound_of_advance hs
    | false => cases hp : s.stages p <;> rw [hp] at hs <;> cases hs <;> exact .inl ⟨rfl, rfl⟩

/-- While the name is not taken away there is one object for all. -/
theorem count_le_one (h : StepSystem.Reach (Host.step · pub) (fun s e => Allowed pub s e ∧ e ≠ .unlink)
    (Host.start pub) s) :
    s.count ≤ 1 := by
  have hone : s.bound = none ∧ s.count = 0 ∨ s.bound = some 0 ∧ s.count = 1 := by
    refine h.invariant (fun s => s.bound = none ∧ s.count = 0 ∨ s.bound = some 0 ∧ s.count = 1) (.inl ⟨rfl, rfl⟩) ?_
    intro s e s' hone hg hs
    rcases bound_of_step hg.2 hs with ⟨hbound, hcount⟩ | ⟨hnone, hbound, hcount⟩
    · rwa [hbound, hcount]
    · rcases hone with ⟨-, hzero⟩ | ⟨hsome, -⟩
      · rw [hbound, hcount, hzero]
        exact .inr ⟨rfl, rfl⟩
      · rw [hsome] at hnone
        cases hnone
  omega

end Runs

end InitOnce
