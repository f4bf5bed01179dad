import UnifiedCache.SharedMetrics.Reports

/-! Two collections without an update empty both halves of every buffer: each of them
clears the half that the other leaves. -/

set_option linter.unusedSectionVars false

namespace UnifiedCache.SharedMetrics

open StepSystem

variable {Thread Name V : Type} [DecidableEq Thread] [DecidableEq Name] {config : Config Thread Name V}

namespace Metrics

variable {s s' : Metrics Thread Name V} {t : Thread} {i : Bool} {e : Event Thread Name V} {w : Thread → Bool}

def IsUpdate : Event Thread Name V → Prop
  | .update _ => True
  | _ => False

/-- This collection has switched the halves of the thread. -/
def SwitchedYet (s : Metrics Thread Name V) (t : Thread) : Prop :=
  match s.collector with
  | .idle => False
  | .collecting rest stage _ => t ∉ rest ∨ rest.head? = some t ∧ stage.old? ≠ none

/-- This collection has cleared a half of the thread. -/
def ClearedYet (s : Metrics Thread Name V) (t : Thread) : Prop :=
  match s.collector with
  | .idle => False
  | .collecting rest stage _ => t ∉ rest ∨ rest.head? = some t ∧ ∃ old, stage = .cleared old

/-- Before this collection the threads wrote to the halves `w`. -/
structure Sweep (config : Config Thread Name V) (w : Thread → Bool) (s : Metrics Thread Name V) : Prop where
  before : ∀ t ∈ config.buffers, ¬ s.SwitchedYet t → (s.bufs t).writeIdx = w t
  after : ∀ t ∈ config.buffers, s.SwitchedYet t → (s.bufs t).writeIdx = !w t
  empty : ∀ t ∈ config.buffers, s.ClearedYet t → s.half t (w t) = InnerBuffer.empty

theorem sweep_idle (h : s.collector = .idle) : Sweep config (fun t => (s.bufs t).writeIdx) s := by
  refine ⟨fun _ _ _ => rfl, fun t _ hs => ?_, fun t _ hc => ?_⟩
  · simp [SwitchedYet, h] at hs
  · simp [ClearedYet, h] at hc

/-- The collector goes on, with the thread it is at neither switched nor cleared by this. -/
theorem Sweep.advance (h : Sweep config w s) {rest : List Thread} {stage stage' : Stage}
    {total total' : Totals Name V} (hc : s.collector = .collecting rest stage total)
    (hold : stage'.old? = none ↔ stage.old? = none) (hclear : ∀ old, stage' ≠ .cleared old) :
    Sweep config w (s.setCollector (.collecting rest stage' total')) := by
  have hswitched : ∀ t, (s.setCollector (.collecting rest stage' total')).SwitchedYet t ↔ s.SwitchedYet t := by
    intro t
    simp only [SwitchedYet, setCollector, hc, ne_eq, hold]
  refine ⟨fun t ht hn => h.before t ht fun hs => hn ((hswitched t).mpr hs),
    fun t ht hs => h.after t ht ((hswitched t).mp hs), fun t ht hcl => h.empty t ht ?_⟩
  simp only [ClearedYet, setCollector, hc] at hcl ⊢
  rcases hcl with hcl | ⟨-, old, ho⟩
  · exact Or.inl hcl
  · exact absurd ho (hclear old)

theorem Step.sweep (hs : Step config s e s') (hb : Base config s) (hnd : config.buffers.Nodup)
    (hno : ¬ IsUpdate e) (h : Sweep config w s) :
    (s'.results = s.results ∧ Sweep config w s') ∨
    (s'.results.length = s.results.length + 1 ∧ Sweep config (fun t => !w t) s' ∧
      ∀ t ∈ config.buffers, s'.half t (w t) = InnerBuffer.empty) := by
  cases hs with
  | load w' hw ht hw' => exact Or.inl ⟨rfl, h.before, h.after, h.empty⟩
  | lock hw hu => exact Or.inl ⟨rfl, h.before, h.after, h.empty⟩
  | update hw hbuf => exact absurd trivial hno
  | unlock hw => exact Or.inl ⟨rfl, h.before, h.after, h.empty⟩
  | collect hc =>
    have hnone : ∀ t, ¬ s.SwitchedYet t := fun t hs => by simp [SwitchedYet, hc] at hs
    refine Or.inl ⟨rfl, fun t ht _ => h.before t ht (hnone t), fun t ht hs => ?_, fun t ht hcl => ?_⟩
    · simp [SwitchedYet, setCollector, ht, Stage.old?] at hs
    · simp [ClearedYet, setCollector, ht] at hcl
  | loadIdx hc => exact Or.inl ⟨rfl, h.advance hc Iff.rfl fun old => by simp⟩
  | @exchange t rest idx total hc =>
    have ht : t ∈ config.buffers := (hb.suffix _ _ _ hc).subset List.mem_cons_self
    have hidx : (s.bufs t).writeIdx = idx := hb.loadedIdx t idx (by rw [place, hc])
    have hbefore : (s.bufs t).writeIdx = w t := by
      refine h.before t ht fun hs => ?_
      simp [SwitchedYet, hc, Stage.old?] at hs
    have hother : ∀ t', t' ≠ t → (SwitchedYet ((s.setWriteIdx t !idx).setCollector
        (.collecting (t :: rest) (.switched (s.bufs t).writeIdx) total)) t' ↔ s.SwitchedYet t') := by
      intro t' hne
      simp [SwitchedYet, setCollector, hc, Ne.symm hne]
    refine Or.inl ⟨rfl, fun t' ht' hn => ?_, fun t' ht' hs => ?_, fun t' ht' hcl => ?_⟩
    · change ((s.setWriteIdx t !idx).bufs t').writeIdx = w t'
      rw [writeIdx_setWriteIdx]
      split_ifs with he
      · refine absurd (Or.inr ⟨?_, ?_⟩) hn
        · rw [he]
          rfl
        · simp [Stage.old?]
      · exact h.before t' ht' fun hs => hn ((hother t' he).mpr hs)
    · change ((s.setWriteIdx t !idx).bufs t').writeIdx = !w t'
      rw [writeIdx_setWriteIdx]
      split_ifs with he
      · rw [he, ← hbefore, hidx]
      · exact h.after t' ht' ((hother t' he).mp hs)
    · rw [half_setCollector, half_setWriteIdx]
      refine h.empty t' ht' ?_
      rcases hcl with hcl | ⟨-, old, ho⟩
      · simp only [ClearedYet, hc]
        exact Or.inl hcl
      · cases ho
  | lockBuffer hc hs => exact Or.inl ⟨rfl, h.advance hc (by simp [Stage.old?]) fun old => by simp⟩
  | read hc => exact Or.inl ⟨rfl, h.advance hc (by simp [Stage.old?]) fun old => by simp⟩
  | @clear t rest old total hc =>
    have ht : t ∈ config.buffers := (hb.suffix _ _ _ hc).subset List.mem_cons_self
    have hold : old = w t := by
      have h₁ := hb.switched t (.read old) old (by rw [place, hc]) rfl
      have h₂ := h.after t ht (by simp [SwitchedYet, hc, Stage.old?])
      exact Bool.not_inj (h₁.symm.trans h₂)
    have hswitched : ∀ t', (SwitchedYet ((s.setHalf t old InnerBuffer.empty).setCollector
        (.collecting (t :: rest) (.cleared old) total)) t' ↔ s.SwitchedYet t') := by
      intro t'
      simp [SwitchedYet, setCollector, hc, Stage.old?]
    refine Or.inl ⟨rfl, fun t' ht' hn => ?_, fun t' ht' hs => ?_, fun t' ht' hcl => ?_⟩
    · change ((s.setHalf t old InnerBuffer.empty).bufs t').writeIdx = w t'
      rw [writeIdx_setHalf]
      exact h.before t' ht' fun hs => hn ((hswitched t').mpr hs)
    · change ((s.setHalf t old InnerBuffer.empty).bufs t').writeIdx = !w t'
      rw [writeIdx_setHalf]
      exact h.after t' ht' ((hswitched t').mp hs)
    · rw [half_setCollector, half_setHalf]
      split_ifs with he
      · rfl
      · refine h.empty t' ht' ?_
        rcases hcl with hcl | ⟨hhead, -⟩
        · simp only [ClearedYet, hc]
          exact Or.inl hcl
        · obtain rfl := Option.some.inj hhead
          exact absurd ⟨rfl, hold.symm⟩ he
  | @unlockBuffer t rest old total hc =>
    have hrest : (t :: rest).Nodup := (hb.suffix _ _ _ hc).sublist.nodup hnd
    have ht : t ∉ rest := (List.nodup_cons.mp hrest).1
    have hswitched : ∀ t', ((s.setCollector (.collecting rest .start total)).SwitchedYet t' ↔
        s.SwitchedYet t') := by
      intro t'
      simp only [SwitchedYet, setCollector, hc, Stage.old?, ne_eq, not_true_eq_false, and_false, or_false,
        List.mem_cons, not_or, List.head?_cons, Option.some.injEq, reduceCtorEq, not_false_eq_true, and_true]
      constructor
      · intro hn
        by_cases he : t = t'
        · exact Or.inr he
        · exact Or.inl ⟨Ne.symm he, hn⟩
      · rintro (⟨-, hn⟩ | rfl)
        · exact hn
        · exact ht
    refine Or.inl ⟨rfl, fun t' ht' hn => h.before t' ht' fun hs => hn ((hswitched t').mpr hs),
      fun t' ht' hs => h.after t' ht' ((hswitched t').mp hs), fun t' ht' hcl => h.empty t' ht' ?_⟩
    simp only [ClearedYet, setCollector, hc] at hcl ⊢
    rcases hcl with hcl | ⟨-, old', ho⟩
    · by_cases he : t' = t
      · exact Or.inr ⟨by rw [he]; rfl, old, rfl⟩
      · exact Or.inl (by simp [he, hcl])
    · cases ho
  | @finish stage total hc =>
    have hall : ∀ t, s.SwitchedYet t ∧ s.ClearedYet t := fun t => by
      simp [SwitchedYet, ClearedYet, hc]
    refine Or.inr ⟨by simp, ⟨fun t ht _ => h.after t ht (hall t).1, fun t _ hs => hs.elim,
      fun t _ hcl => hcl.elim⟩, fun t ht => h.empty t ht (hall t).2⟩

/-- Without an update an empty half stays empty. -/
theorem Step.half_empty (hs : Step config s e s') (hno : ¬ IsUpdate e)
    (h : s.half t i = InnerBuffer.empty) : s'.half t i = InnerBuffer.empty := by
  cases hs with
  | update hw hbuf => exact absurd trivial hno
  | exchange hc =>
    rw [half_setCollector, half_setWriteIdx]
    exact h
  | clear hc =>
    rw [half_setCollector, half_setHalf]
    split_ifs
    · rfl
    · exact h
  | _ => exact h

/-- How far two collections have come since the last update. -/
def Phase (config : Config Thread Name V) (w : Thread → Bool) (s : Metrics Thread Name V) : Nat → Prop
  | 0 => Sweep config w s
  | 1 => Sweep config (fun t => !w t) s ∧ ∀ t ∈ config.buffers, s.half t (w t) = InnerBuffer.empty
  | _ => ∀ t ∈ config.buffers, ∀ i, s.half t i = InnerBuffer.empty

theorem Step.phase (hs : Step config s e s') (hb : Base config s) (hnd : config.buffers.Nodup)
    (hno : ¬ IsUpdate e) {n : Nat} (h : Phase config w s n) :
    s'.results.length = s.results.length ∧ Phase config w s' n ∨
      s'.results.length = s.results.length + 1 ∧ Phase config w s' (n + 1) := by
  match n, h with
  | 0, h =>
    rcases hs.sweep hb hnd hno h with ⟨hr, hw⟩ | ⟨hr, hw, he⟩
    · exact Or.inl ⟨by rw [hr], hw⟩
    · exact Or.inr ⟨hr, hw, he⟩
  | 1, ⟨h, hempty⟩ =>
    rcases hs.sweep hb hnd hno h with ⟨hr, hw⟩ | ⟨hr, -, he⟩
    · exact Or.inl ⟨by rw [hr], hw, fun t ht => hs.half_empty hno (hempty t ht)⟩
    · refine Or.inr ⟨hr, fun t ht i => ?_⟩
      by_cases hi : i = w t
      · rw [hi]
        exact hs.half_empty hno (hempty t ht)
      · rw [Bool.eq_not.mpr hi]
        exact he t ht
  | n + 2, h =>
    have hempty : ∀ t ∈ config.buffers, ∀ i, s'.half t i = InnerBuffer.empty := fun t ht i =>
      hs.half_empty hno (h t ht i)
    have hr : s'.results.length = s.results.length ∨ s'.results.length = s.results.length + 1 := by
      cases hs with
      | finish hc => exact Or.inr (by simp)
      | _ => exact Or.inl rfl
    exact hr.imp (fun hr => ⟨hr, hempty⟩) fun hr => ⟨hr, hempty⟩

theorem phase_run (hnd : config.buffers.Nodup) {es : List (Event Thread Name V)} (hno : ∀ e ∈ es, ¬ IsUpdate e)
    (hb : Base config s) {n : Nat} (h : Phase config w s n) (hrun : run (step config) s es = some s') :
    ∃ k, s'.results.length = s.results.length + k ∧ Phase config w s' (n + k) := by
  induction es generalizing s n with
  | nil =>
    obtain rfl := Option.some.inj hrun
    exact ⟨0, rfl, h⟩
  | cons e es ih =>
    obtain ⟨s₁, hs, hrun⟩ := Option.bind_eq_some_iff.mp hrun
    have hs := step_inv hs
    have hno' := fun e he => hno e (List.mem_cons_of_mem _ he)
    rcases hs.phase hb hnd (hno e List.mem_cons_self) h with ⟨hr, hp⟩ | ⟨hr, hp⟩
    · obtain ⟨k, hk, hp⟩ := ih hno' (hs.base hb) hp hrun
      exact ⟨k, by rw [hk, hr], hp⟩
    · obtain ⟨k, hk, hp⟩ := ih hno' (hs.base hb) hp hrun
      refine ⟨k + 1, by omega, ?_⟩
      rwa [show n + (k + 1) = n + 1 + k by omega]

/-- Two collections after the last update leave nothing in any half. -/
theorem drained (hnd : config.buffers.Nodup) (hb : Base config s) (hidle : s.collector = .idle)
    {es : List (Event Thread Name V)} (hno : ∀ e ∈ es, ¬ IsUpdate e)
    (hrun : run (step config) s es = some s') (htwo : s.results.length + 2 ≤ s'.results.length) :
    ∀ t ∈ config.buffers, ∀ i, s'.half t i = InnerBuffer.empty := by
  obtain ⟨k, hk, hp⟩ := phase_run (n := 0) hnd hno hb (sweep_idle hidle) hrun
  obtain ⟨k, rfl⟩ : ∃ m, k = m + 2 := ⟨k - 2, by omega⟩
  rwa [Nat.zero_add] at hp

end Metrics

end UnifiedCache.SharedMetrics
