import UnifiedCache.SharedMetrics.Metrics

/-! What one step of a writer or of the collector does, and what always holds of the
locks and of the place of the collector. -/

set_option linter.unusedSectionVars false

namespace UnifiedCache.SharedMetrics

open StepSystem

variable {Thread Name V : Type}

/-- The half that was switched away, once it was. -/
def Stage.old? : Stage → Option Bool
  | start => none
  | loaded _ => none
  | switched old => some old
  | locked old => some old
  | read old => some old
  | cleared old => some old

namespace Metrics

variable {s s' : Metrics Thread Name V} {t t' : Thread} {i j : Bool}

section Fields

variable (w : Writer Name V) (buf : InnerBuffer Name V) (c : Collector Thread Name V)

@[simp] theorem half_setCollector : (s.setCollector c).half = s.half := rfl

variable [DecidableEq Thread]

@[simp] theorem half_setWriter : (s.setWriter t w).half = s.half := rfl

@[simp] theorem half_setWriteIdx : (s.setWriteIdx t i).half = s.half := by
  funext t' j
  by_cases h : t' = t
  · simp [half, setWriteIdx, h]
  · simp [half, setWriteIdx, h]

theorem half_setHalf : (s.setHalf t i buf).half t' j = if t' = t ∧ j = i then buf else s.half t' j := by
  by_cases ht : t' = t
  · subst ht
    by_cases hj : j = i
    · simp [half, setHalf, hj]
    · simp [half, setHalf, hj]
  · simp [half, setHalf, ht]

@[simp] theorem place_setWriter : (s.setWriter t w).place = s.place := rfl

@[simp] theorem place_setHalf : (s.setHalf t i buf).place = s.place := rfl

theorem writeIdx_setHalf : ((s.setHalf t i buf).bufs t').writeIdx = (s.bufs t').writeIdx := by
  by_cases h : t' = t
  · simp [setHalf, h]
  · simp [setHalf, h]

theorem writeIdx_setWriteIdx :
    ((s.setWriteIdx t i).bufs t').writeIdx = if t' = t then i else (s.bufs t').writeIdx := by
  by_cases h : t' = t
  · simp [setWriteIdx, h]
  · simp [setWriteIdx, h]

end Fields

variable [DecidableEq Thread] [DecidableEq Name] {config : Config Thread Name V} {e : Event Thread Name V}

/-- What a step does. -/
inductive Step (config : Config Thread Name V) (s : Metrics Thread Name V) :
    Event Thread Name V → Metrics Thread Name V → Prop
  | load {t : Thread} {name : Name} {value : V} (w : Writer Name V) (hw : s.writers t = .idle)
      (ht : t ∈ config.buffers) (hw' : w = .idle ∨ ∃ type, config.statsType name = some type ∧
        w = .loaded type name value (s.bufs t).writeIdx) : Step config s (.load t name value) (s.setWriter t w)
  | lock {t : Thread} {type : MetricType} {name : Name} {value : V} {idx : Bool}
      (hw : s.writers t = .loaded type name value idx) (hu : ¬ s.Unique t idx) :
      Step config s (.lock t) (s.setWriter t (.locked type name value idx))
  | update {t : Thread} {type : MetricType} {name : Name} {value : V} {idx : Bool}
      (hw : s.writers t = .locked type name value idx) {buf : InnerBuffer Name V} {stored : Bool}
      (hbuf : (s.half t idx).update config s.stored.length type name value = (buf, stored)) :
      Step config s (.update t) { (s.setHalf t idx buf).setWriter t (.updated idx) with
        stored := if stored then s.stored ++ [(t, name, value)] else s.stored }
  | unlock {t : Thread} {idx : Bool} (hw : s.writers t = .updated idx) :
      Step config s (.unlock t) (s.setWriter t .idle)
  | collect (hc : s.collector = .idle) :
      Step config s .collect (s.setCollector (.collecting config.buffers .start Totals.empty))
  | loadIdx {t : Thread} {rest : List Thread} {total : Totals Name V}
      (hc : s.collector = .collecting (t :: rest) .start total) :
      Step config s .loadIdx (s.setCollector (.collecting (t :: rest) (.loaded (s.bufs t).writeIdx) total))
  | exchange {t : Thread} {rest : List Thread} {idx : Bool} {total : Totals Name V}
      (hc : s.collector = .collecting (t :: rest) (.loaded idx) total) :
      Step config s .exchange ((s.setWriteIdx t !idx).setCollector
        (.collecting (t :: rest) (.switched (s.bufs t).writeIdx) total))
  | lockBuffer {t : Thread} {rest : List Thread} {old : Bool} {total : Totals Name V}
      (hc : s.collector = .collecting (t :: rest) (.switched old) total) (hs : ¬ s.Shared t old) :
      Step config s .lockBuffer (s.setCollector (.collecting (t :: rest) (.locked old) total))
  | read {t : Thread} {rest : List Thread} {old : Bool} {total : Totals Name V}
      (hc : s.collector = .collecting (t :: rest) (.locked old) total) :
      Step config s .read (s.setCollector
        (.collecting (t :: rest) (.read old) (total.read config (s.half t old))))
  | clear {t : Thread} {rest : List Thread} {old : Bool} {total : Totals Name V}
      (hc : s.collector = .collecting (t :: rest) (.read old) total) :
      Step config s .clear
        ((s.setHalf t old InnerBuffer.empty).setCollector (.collecting (t :: rest) (.cleared old) total))
  | unlockBuffer {t : Thread} {rest : List Thread} {old : Bool} {total : Totals Name V}
      (hc : s.collector = .collecting (t :: rest) (.cleared old) total) :
      Step config s .unlockBuffer (s.setCollector (.collecting rest .start total))
  | finish {stage : Stage} {total : Totals Name V} (hc : s.collector = .collecting [] stage total) :
      Step config s .finish { s.setCollector .idle with results := s.results ++ [total] }

theorem load_inv {name : Name} {value : V} (h : s.load config t name value = some s') :
    Step config s (.load t name value) s' := by
  unfold load at h
  split at h
  · rename_i hw
    split_ifs at h with ht
    split at h
    · obtain rfl := Option.some.inj h
      have hself : s = s.setWriter t .idle := by
        rw [setWriter, ← hw, Function.update_eq_self]
      have hload : Step config s (.load t name value) (s.setWriter t .idle) :=
        .load .idle hw ht (Or.inl rfl)
      rwa [← hself] at hload
    · rename_i type htype
      obtain rfl := Option.some.inj h
      exact .load _ hw ht (Or.inr ⟨type, htype, rfl⟩)
  · cases h

theorem step_inv (h : s.step config e = some s') : Step config s e s' := by
  cases e with
  | load t name value => exact load_inv h
  | lock t =>
    simp only [step, lock] at h
    split at h
    · split_ifs at h with hu
      obtain rfl := Option.some.inj h
      exact .lock ‹_› hu
    · cases h
  | update t =>
    simp only [step, update] at h
    split at h
    · obtain rfl := Option.some.inj h
      exact .update ‹_› rfl
    · cases h
  | unlock t =>
    simp only [step, unlock] at h
    split at h
    · obtain rfl := Option.some.inj h
      exact .unlock ‹_›
    · cases h
  | lockBuffer =>
    simp only [step] at h
    split at h
    · split_ifs at h with hs
      obtain rfl := Option.some.inj h
      exact .lockBuffer ‹_› hs
    · cases h
  | collect | loadIdx | exchange | read | clear | unlockBuffer | finish =>
    simp only [step] at h
    split at h
    · obtain rfl := Option.some.inj h
      constructor
      assumption
    · cases h

theorem Stage.old?_of_held {stage : Stage} (h : stage.held = some i) : stage.old? = some i := by
  cases stage <;> first | exact h | cases h

/-- The locks exclude each other, and the collector goes through the buffers in order. -/
structure Base (config : Config Thread Name V) (s : Metrics Thread Name V) : Prop where
  excl : ∀ t i, s.Shared t i → ¬ s.Unique t i
  writer : ∀ t, s.writers t ≠ .idle → t ∈ config.buffers
  typed : ∀ t type name value idx, s.writers t = .loaded type name value idx ∨
    s.writers t = .locked type name value idx → config.statsType name = some type
  suffix : ∀ rest stage total, s.collector = .collecting rest stage total → rest <:+ config.buffers
  loadedIdx : ∀ t idx, s.place = some (t, .loaded idx) → (s.bufs t).writeIdx = idx
  switched : ∀ t stage old, s.place = some (t, stage) → stage.old? = some old → (s.bufs t).writeIdx = !old

theorem base_start : Base config start where
  excl := fun _ _ h => by cases h
  writer := fun _ h => absurd rfl h
  typed := fun _ _ _ _ _ h => by rcases h with h | h <;> cases h
  suffix := fun _ _ _ h => by cases h
  loadedIdx := fun _ _ h => by cases h
  switched := fun _ _ _ h => by cases h

/-- A step of a writer that takes the lock of a free half only. -/
theorem Base.setWriter (h : Base config s) {w : Writer Name V} (ht : t ∈ config.buffers)
    (hw : ∀ i, w.held = some i → ¬ s.Unique t i)
    (htyped : ∀ type name value idx, w = .loaded type name value idx ∨ w = .locked type name value idx →
      config.statsType name = some type) : Base config (s.setWriter t w) := by
  refine ⟨fun t' i hs => ?_, fun t' hidle => ?_, fun t' type name value idx hl => ?_, h.suffix, h.loadedIdx,
    h.switched⟩
  · by_cases htt : t' = t
    · subst htt
      exact hw i (by simpa [Shared, Metrics.setWriter] using hs)
    · exact h.excl t' i (by simpa [Shared, Metrics.setWriter, htt] using hs)
  · by_cases htt : t' = t
    · rw [htt]
      exact ht
    · exact h.writer t' (by simpa [Metrics.setWriter, htt] using hidle)
  · by_cases htt : t' = t
    · exact htyped type name value idx (by simpa [Metrics.setWriter, htt] using hl)
    · exact h.typed t' type name value idx (by simpa [Metrics.setWriter, htt] using hl)

theorem Base.setHalf (h : Base config s) (buf : InnerBuffer Name V) : Base config (s.setHalf t i buf) := by
  refine ⟨h.excl, h.writer, h.typed, h.suffix, fun t' idx hp => ?_, fun t' stage old hp ho => ?_⟩
  · rw [writeIdx_setHalf]
    exact h.loadedIdx t' idx hp
  · rw [writeIdx_setHalf]
    exact h.switched t' stage old hp ho

/-- The collector goes on with the buffer it is at, which keeps its halves' places. -/
theorem Base.advance (h : Base config s) {rest : List Thread} {stage stage' : Stage}
    {total total' : Totals Name V} (hc : s.collector = .collecting (t :: rest) stage total)
    (hold : stage'.old? = stage.old?) (hfree : ∀ i, stage'.held = some i → ¬ s.Shared t i)
    (hloaded : ∀ idx, stage' = .loaded idx → (s.bufs t).writeIdx = idx) :
    Base config (s.setCollector (.collecting (t :: rest) stage' total')) := by
  have hp : s.place = some (t, stage) := by rw [place, hc]
  refine ⟨?_, h.writer, h.typed, ?_, ?_, ?_⟩
  · rintro t' i hs ⟨stage₁, hplace, hheld⟩
    obtain ⟨rfl, rfl⟩ := Prod.mk.inj (Option.some.inj hplace)
    exact hfree i hheld hs
  · intro rest' stage₁ total₁ he
    obtain ⟨rfl, -, -⟩ := Collector.collecting.inj he
    exact h.suffix _ _ _ hc
  · intro t' idx hplace
    obtain ⟨rfl, hst⟩ := Prod.mk.inj (Option.some.inj hplace)
    exact hloaded idx hst
  · intro t' stage₁ old hplace ho
    obtain ⟨rfl, rfl⟩ := Prod.mk.inj (Option.some.inj hplace)
    exact h.switched t stage old hp (hold ▸ ho)

/-- The collector comes to a buffer, or to the end of the loop. -/
theorem Base.arrive (h : Base config s) {rest : List Thread} {total : Totals Name V}
    (hr : rest <:+ config.buffers) : Base config (s.setCollector (.collecting rest .start total)) := by
  have hstart : ∀ t stage, (s.setCollector (.collecting rest .start total)).place = some (t, stage) →
      stage = .start := by
    intro t stage hp
    cases rest with
    | nil => cases hp
    | cons t' rest =>
      obtain ⟨-, rfl⟩ := Prod.mk.inj (Option.some.inj hp)
      rfl
  refine ⟨?_, h.writer, h.typed, ?_, ?_, ?_⟩
  · rintro t i - ⟨stage, hp, hheld⟩
    rw [hstart t stage hp] at hheld
    cases hheld
  · intro rest' stage₁ total₁ he
    obtain ⟨rfl, -, -⟩ := Collector.collecting.inj he
    exact hr
  · intro t idx hp
    cases hstart t _ hp
  · intro t stage old hp ho
    rw [hstart t stage hp] at ho
    cases ho

theorem Step.base (hs : Step config s e s') (h : Base config s) : Base config s' := by
  cases hs with
  | @load t name value w hw ht hw' =>
    refine h.setWriter ht (fun i hi => ?_) fun type name₁ value₁ idx hl => ?_
    · rcases hw' with rfl | ⟨type, -, rfl⟩ <;> cases hi
    · rcases hw' with rfl | ⟨type', htype, rfl⟩
      · rcases hl with hl | hl <;> cases hl
      · rcases hl with hl | hl
        · obtain ⟨rfl, rfl, -, -⟩ := Writer.loaded.inj hl
          exact htype
        · cases hl
  | @lock t type name value idx hw hu =>
    refine h.setWriter (h.writer t (by simp [hw])) (fun i hi => ?_) fun type₁ name₁ value₁ idx₁ hl => ?_
    · obtain rfl := Option.some.inj hi
      exact hu
    · rcases hl with hl | hl
      · cases hl
      · obtain ⟨rfl, rfl, -, -⟩ := Writer.locked.inj hl
        exact h.typed t _ _ _ _ (Or.inl hw)
  | @update t type name value idx hw buf stored hbuf =>
    have hexcl : ¬ s.Unique t idx := h.excl t idx (by simp [Shared, hw, Writer.held])
    have hset := (h.setHalf (t := t) (i := idx) buf).setWriter (w := .updated idx)
      (h.writer t (by simp [hw])) (fun i hi => ?_) fun type₁ name₁ value₁ idx₁ hl => ?_
    · exact ⟨hset.excl, hset.writer, hset.typed, hset.suffix, hset.loadedIdx, hset.switched⟩
    · obtain rfl := Option.some.inj hi
      exact hexcl
    · rcases hl with hl | hl <;> cases hl
  | @unlock t idx hw =>
    refine h.setWriter (h.writer t (by simp [hw])) (fun i hi => by cases hi) fun _ _ _ _ hl => ?_
    rcases hl with hl | hl <;> cases hl
  | collect hc => exact h.arrive List.suffix_rfl
  | loadIdx hc =>
    refine h.advance hc rfl (fun i hi => by cases hi) fun idx hi => ?_
    exact Stage.loaded.inj hi
  | @exchange t rest idx total hc =>
    have hidx : (s.bufs t).writeIdx = idx := h.loadedIdx t idx (by rw [place, hc])
    refine ⟨?_, h.writer, h.typed, ?_, ?_, ?_⟩
    · rintro t' i - ⟨stage, hp, hheld⟩
      obtain ⟨-, rfl⟩ := Prod.mk.inj (Option.some.inj hp)
      cases hheld
    · intro rest' stage₁ total₁ he
      obtain ⟨rfl, -, -⟩ := Collector.collecting.inj he
      exact h.suffix _ _ _ hc
    · intro t' idx' hp
      obtain ⟨-, hst⟩ := Prod.mk.inj (Option.some.inj hp)
      cases hst
    · intro t' stage old hp ho
      obtain ⟨rfl, rfl⟩ := Prod.mk.inj (Option.some.inj hp)
      obtain rfl := Option.some.inj ho
      change ((s.setWriteIdx t !idx).bufs t).writeIdx = _
      rw [writeIdx_setWriteIdx, if_pos rfl, hidx]
  | lockBuffer hc hs =>
    refine h.advance hc rfl (fun i hi => ?_) fun idx hi => by cases hi
    obtain rfl := Option.some.inj hi
    exact hs
  | @read t rest old total hc =>
    refine h.advance hc rfl (fun i hi hs => ?_) fun idx hi => by cases hi
    obtain rfl := Option.some.inj hi
    exact h.excl t _ hs ⟨_, by rw [place, hc], rfl⟩
  | @clear t rest old total hc =>
    refine (h.setHalf InnerBuffer.empty).advance hc rfl (fun i hi hs => ?_) fun idx hi => by cases hi
    obtain rfl := Option.some.inj hi
    exact h.excl t _ hs ⟨_, by rw [place, hc], rfl⟩
  | unlockBuffer hc => exact h.arrive ((List.suffix_cons _ _).trans (h.suffix _ _ _ hc))
  | finish hc =>
    exact ⟨fun _ _ _ ⟨_, hp, _⟩ => (by cases hp), h.writer, h.typed, fun _ _ _ he => (by cases he),
      fun _ _ hp => (by cases hp), fun _ _ _ hp => (by cases hp)⟩

theorem base_of_reach {guard : Metrics Thread Name V → Event Thread Name V → Prop}
    (h : Reach (step config) guard start s) : Base config s :=
  h.invariant (Base config) base_start fun _ _ _ hb _ hs => (step_inv hs).base hb

end Metrics

end UnifiedCache.SharedMetrics
