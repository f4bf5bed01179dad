import UnifiedCache.Sparse.TopkPipelineRuns

/-! What the destructor has done, and where the two threads can be then. -/

namespace UnifiedCache.Sparse.TopkPipeline.CalKpreAndTopk

open StepSystem

variable {layerNum : Nat} {kpre : Bool} {issued handled : List CopyInfo} {s s' : CalKpreAndTopk}
  {r : CopyInfo} {e : Event}

/-- What the destructor has done, and that a thread ends only once it has started. -/
structure Closing (s : CalKpreAndTopk) : Prop where
  running : s.running = true ↔ s.destructor = .none
  copyEnded : s.copyThread = .ended → s.running = false
  calculateEnded : s.calculateThread = .ended → s.running = false
  leaves : s.running = false → s.leaves = true
  joined : s.destructor ≠ .none → s.destructor ≠ .joinCalculate → s.calculateThread = .ended
  stopped : s.stopped = true → s.calculateThread = .ended
  joinCopy : s.destructor = .joinCopy → s.stopped = true

theorem closing_start : Closing start where
  running := iff_of_true rfl rfl
  copyEnded := fun h => by cases h
  calculateEnded := fun h => by cases h
  leaves := fun h => by cases h
  joined := fun h => absurd rfl h
  stopped := fun h => by cases h
  joinCopy := fun h => by cases h

theorem calculateNext_frame (hs : s.calculateNext layerNum = some s') :
    s'.running = s.running ∧ s'.destructor = s.destructor ∧ s'.copyThread = s.copyThread ∧
      s'.stopped = s.stopped ∧ s'.toPush = s.toPush ∧ s'.copyQueue = s.copyQueue := by
  cases hc : s.calculateThread with
  | layer kind i =>
    cases kind <;> simp only [calculateNext, hc] at hs <;> (try split at hs) <;> cases hs <;>
    exact ⟨rfl, rfl, rfl, rfl, rfl, rfl⟩
  | _ =>
    simp only [calculateNext, hc] at hs
    first
    | (split at hs <;> cases hs <;> exact ⟨rfl, rfl, rfl, rfl, rfl, rfl⟩)
    | (cases hs; exact ⟨rfl, rfl, rfl, rfl, rfl, rfl⟩)
    | cases hs

/-- Once `m_running` is off, `Calculate` goes on to its end. -/
theorem leaves_calculate (hs : s.calculateNext layerNum = some s') (hrunning : s.running = false)
    (hleaves : s.leaves = true) : s'.leaves = true := by
  have hcoming : s'.allComing = s.allComing := by
    obtain ⟨-, -, hcopy, -, hpush, hqueue⟩ := calculateNext_frame hs
    rw [allComing, allComing, hcopy, hpush, hqueue]
  cases hc : s.calculateThread with
  | top =>
    simp only [calculateNext, hc, hrunning] at hs
    cases hs
    rfl
  | locking | readNeed | readRunning need | asleep =>
    simp only [leaves, hc] at hleaves
    cases hleaves
  | readReady need =>
    simp only [leaves, hc, Bool.and_eq_true] at hleaves
    simp only [calculateNext, hc, hleaves.1] at hs
    cases hs
    exact hleaves.2
  | layer kind i =>
    simp only [leaves, hc] at hleaves
    cases kind with
    | k =>
      simp only [calculateNext, hc] at hs
      split at hs
      · cases hs
        split
        · exact hleaves
        · exact hleaves
      · cases hs
        rfl
    | q =>
      simp only [calculateNext, hc] at hs
      cases hs
      split
      · exact hleaves
      · exact hleaves
  | spin kind i =>
    simp only [leaves, hc] at hleaves
    simp only [calculateNext, hc] at hs
    split at hs
    · cases hs
      cases kind <;> exact hleaves
    · cases hs
  | finish i =>
    simp only [leaves, hc] at hleaves
    simp only [calculateNext, hc] at hs
    cases hs
    exact hleaves
  | resetTest kind =>
    simp only [calculateNext, hc] at hs
    cases hs
    split
    · rfl
    · cases kind <;> rfl
  | reset kind i =>
    simp only [calculateNext, hc] at hs
    split at hs
    · cases hs
      rfl
    · cases hs
      cases kind <;> rfl
  | resetTopk | resetPre | unlock =>
    simp only [calculateNext, hc] at hs
    cases hs
    rfl
  | ended =>
    simp only [calculateNext, hc] at hs
    cases hs

theorem calculateNext_ended (hs : s.calculateNext layerNum = some s') (hended : s'.calculateThread = .ended) :
    s.running = false := by
  cases hc : s.calculateThread with
  | top =>
    simp only [calculateNext, hc] at hs
    cases hs
    cases hr : s.running with
    | false => rfl
    | true =>
      rw [hr] at hended
      cases hended
  | layer kind i =>
    cases kind <;> simp only [calculateNext, hc] at hs <;> (try split at hs) <;> cases hs <;>
    (try split at hended) <;> cases hended
  | spin kind i | reset kind i =>
    simp only [calculateNext, hc] at hs
    split at hs <;> cases hs <;> cases kind <;> cases hended
  | resetTest kind =>
    simp only [calculateNext, hc] at hs
    cases hs
    split at hended
    · cases hended
    · cases kind <;> cases hended
  | _ =>
    simp only [calculateNext, hc] at hs
    first
    | (split at hs <;> cases hs <;> cases hended)
    | (cases hs; cases hended)
    | cases hs

theorem Closing.calculate (h : Closing s) (hs : s.calculateNext layerNum = some s') : Closing s' := by
  obtain ⟨hrunning, hdestructor, hcopy, hstopped, -, -⟩ := calculateNext_frame hs
  have hnot : s.calculateThread ≠ .ended := fun hc => by
    simp only [calculateNext, hc] at hs
    cases hs
  refine ⟨by rw [hrunning, hdestructor]; exact h.running, fun hc => ?_, fun hc => ?_, fun hr => ?_, fun h₁ h₂ => ?_,
    fun hst => ?_, fun hj => ?_⟩
  · rw [hrunning]
    exact h.copyEnded (hcopy ▸ hc)
  · rw [hrunning]
    exact calculateNext_ended hs hc
  · exact leaves_calculate hs (hrunning ▸ hr) (h.leaves (hrunning ▸ hr))
  · rw [hdestructor] at h₁ h₂
    exact absurd (h.joined h₁ h₂) hnot
  · exact absurd (h.stopped (hstopped ▸ hst)) hnot
  · rw [hstopped]
    exact h.joinCopy (hdestructor ▸ hj)

theorem copyNext_frame {popped : CopyInfo} (hs : s.copyNext popped = some s') :
    s'.running = s.running ∧ s'.destructor = s.destructor ∧ s'.calculateThread = s.calculateThread ∧
      s'.stopped = s.stopped ∧ (s'.copyThread = .ended → s.running = false) := by
  cases hc : s.copyThread with
  | top =>
    simp only [copyNext, hc] at hs
    cases hs
    refine ⟨rfl, rfl, rfl, rfl, fun he => ?_⟩
    cases hr : s.running with
    | false => rfl
    | true =>
      rw [hr] at he
      cases he
  | pop =>
    simp only [copyNext, hc] at hs
    split at hs
    · cases hs
      exact ⟨rfl, rfl, rfl, rfl, fun he => by cases he⟩
    · split at hs
      · cases hs
        exact ⟨rfl, rfl, rfl, rfl, fun he => by cases he⟩
      · cases hs
  | branch r =>
    simp only [copyNext, hc] at hs
    cases hs
    refine ⟨rfl, rfl, rfl, rfl, fun he => ?_⟩
    split at he <;> cases he
  | lock r =>
    simp only [copyNext, hc] at hs
    split at hs
    · cases hs
    · cases hs
      exact ⟨rfl, rfl, rfl, rfl, fun he => by cases he⟩
  | store r held =>
    simp only [copyNext, hc] at hs
    cases hs
    refine ⟨rfl, rfl, rfl, rfl, fun he => ?_⟩
    cases held <;> cases he
  | start r | locked r | notify =>
    simp only [copyNext, hc] at hs
    cases hs
    exact ⟨rfl, rfl, rfl, rfl, fun he => by cases he⟩
  | ended =>
    simp only [copyNext, hc] at hs
    cases hs

theorem copyNext_keeps {popped : CopyInfo} (hs : s.copyNext popped = some s') :
    (∀ f, s.ready f = true → s'.ready f = true) ∧ (s.allComing = true → s'.allComing = true) := by
  cases hc : s.copyThread with
  | pop =>
    simp only [copyNext, hc] at hs
    split at hs
    · rename_i r queue hq
      cases hs
      refine ⟨fun _ => id, fun hcoming => ?_⟩
      simp only [allComing, hq, List.length_cons, Bool.and_eq_true, Bool.or_eq_true, decide_eq_true_eq] at hcoming
      obtain ⟨hpush, hnil | ⟨-, hlen⟩⟩ := hcoming
      · cases hnil
      · have hqueue : queue = [] := List.length_eq_zero_iff.mp (Nat.succ_inj.mp hlen)
        simp [allComing, goCopy, hpush, hqueue]
    · rename_i hq
      split at hs
      · cases hs
        refine ⟨fun _ => id, fun hcoming => ?_⟩
        simp only [allComing, hq, Bool.and_eq_true] at hcoming
        simp [allComing, goCopy, hq, hcoming.1]
      · cases hs
  | store r held =>
    simp only [copyNext, hc] at hs
    cases hs
    refine ⟨fun f hf => ?_, fun hcoming => ?_⟩
    · show Function.update s.ready r.flag true f = true
      rw [Function.update_apply]
      split_ifs
      · rfl
      · exact hf
    · simp only [allComing, hc, Bool.and_eq_true, Bool.or_eq_true, decide_eq_true_eq, reduceCtorEq, false_and,
        or_false] at hcoming
      simp [allComing, goCopy, raiseFlag, hcoming.1, hcoming.2]
  | lock r =>
    simp only [copyNext, hc] at hs
    split at hs
    · cases hs
    · cases hs
      refine ⟨fun _ => id, fun hcoming => ?_⟩
      simp only [allComing, hc, Bool.and_eq_true, Bool.or_eq_true, decide_eq_true_eq, reduceCtorEq, false_and,
        or_false] at hcoming
      simp [allComing, goCopy, hcoming.1, hcoming.2]
  | top | start r | branch r | locked r | notify =>
    simp only [copyNext, hc] at hs
    cases hs
    refine ⟨fun _ => id, fun hcoming => ?_⟩
    simp only [allComing, hc, Bool.and_eq_true, Bool.or_eq_true, decide_eq_true_eq, reduceCtorEq, false_and,
      or_false] at hcoming
    simp [allComing, goCopy, hcoming.1, hcoming.2]
  | ended =>
    simp only [copyNext, hc] at hs
    cases hs

theorem leaves_mono (hcalc : s'.calculateThread = s.calculateThread) (hready : ∀ f, s.ready f = true → s'.ready f = true)
    (hcoming : s.allComing = true → s'.allComing = true) (hleaves : s.leaves = true) : s'.leaves = true := by
  cases hc : s.calculateThread with
  | readReady need =>
    simp only [leaves, hcalc, hc, Bool.and_eq_true] at hleaves ⊢
    exact ⟨hready _ hleaves.1, hcoming hleaves.2⟩
  | layer kind i | spin kind i | finish i =>
    simp only [leaves, hcalc, hc] at hleaves ⊢
    exact hcoming hleaves
  | locking | readNeed | readRunning need | asleep =>
    simp only [leaves, hc] at hleaves
    cases hleaves
  | _ => simp only [leaves, hcalc, hc]

theorem Closing.copyData {popped : CopyInfo} (h : Closing s) (hs : s.copyNext popped = some s') : Closing s' := by
  obtain ⟨hrunning, hdestructor, hcalc, hstopped, hended⟩ := copyNext_frame hs
  obtain ⟨hready, hcoming⟩ := copyNext_keeps hs
  refine ⟨by rw [hrunning, hdestructor]; exact h.running, fun hc => ?_, fun hc => ?_, fun hr => ?_, fun h₁ h₂ => ?_,
    fun hst => ?_, fun hj => ?_⟩
  · rw [hrunning]
    exact hended hc
  · rw [hrunning]
    exact h.calculateEnded (hcalc ▸ hc)
  · exact leaves_mono hcalc hready hcoming (h.leaves (hrunning ▸ hr))
  · rw [hcalc]
    exact h.joined (hdestructor ▸ h₁) (hdestructor ▸ h₂)
  · rw [hcalc]
    exact h.stopped (hstopped ▸ hst)
  · rw [hstopped]
    exact h.joinCopy (hdestructor ▸ hj)

theorem Closing.destroy (h : Closing s) (hleaves : s.leaves = true) (hd : s.destructor = .none) :
    Closing { s with destructor := .joinCalculate, running := false } := by
  have hrunning : s.running = true := h.running.mpr hd
  refine ⟨iff_of_false Bool.false_ne_true (fun he => by cases he), fun _ => rfl, fun _ => rfl, fun _ => ?_,
    fun _ h₂ => absurd rfl h₂, h.stopped, fun he => by cases he⟩
  exact leaves_mono (s := s) rfl (fun _ => id) id hleaves

theorem Closing.join (h : Closing s) (hs : s.step layerNum .join = some s') : Closing s' := by
  have hrunning : s.destructor ≠ .none → s.running = false := fun hd =>
    Bool.eq_false_iff.mpr fun hr => hd (h.running.mp hr)
  cases hd : s.destructor with
  | none | ended =>
    simp only [step, hd] at hs
    cases hs
  | joinCalculate =>
    simp only [step, hd] at hs
    split at hs
    · rename_i hc
      cases hs
      exact ⟨iff_of_false (by rw [hrunning (by simp [hd])]; exact Bool.false_ne_true) (fun he => by cases he),
        h.copyEnded, h.calculateEnded, h.leaves, fun _ _ => hc, fun _ => hc, fun he => by cases he⟩
    · cases hs
  | stopQueue =>
    have hc := h.joined (by simp [hd]) (by simp [hd])
    simp only [step, hd] at hs
    cases hs
    exact ⟨iff_of_false (by rw [hrunning (by simp [hd])]; exact Bool.false_ne_true) (fun he => by cases he),
      h.copyEnded, h.calculateEnded, h.leaves, fun _ _ => hc, fun _ => hc, fun _ => rfl⟩
  | joinCopy =>
    have hc := h.joined (by simp [hd]) (by simp [hd])
    simp only [step, hd] at hs
    split at hs
    · cases hs
      exact ⟨iff_of_false (by rw [hrunning (by simp [hd])]; exact Bool.false_ne_true) (fun he => by cases he),
        h.copyEnded, h.calculateEnded, h.leaves, fun _ _ => hc, h.stopped, fun he => by cases he⟩
    · cases hs

/-- What holds in every run whose steps are in turn. -/
structure Sound (layerNum : Nat) (s : CalKpreAndTopk) : Prop where
  closing : Closing s
  lost : s.lost = []
  inv : s.calculateThread ≠ .ended → ∃ kpre issued handled, Inv layerNum kpre issued handled s

theorem sound_start (layerNum : Nat) : Sound layerNum start := ⟨closing_start, rfl, fun _ => ⟨_, _, _, inv_start⟩⟩

theorem lost_copyNext {popped : CopyInfo} (hs : s.copyNext popped = some s') : s'.lost = s.lost := by
  cases hc : s.copyThread <;> simp only [copyNext, hc] at hs <;> (try split at hs) <;> (try split at hs) <;> cases hs <;>
  rfl

theorem Sound.keep (h : Sound layerNum s) (hturn : s.inTurn e = true) (hs : s.step layerNum e = some s') :
    Sound layerNum s' := by
  cases e with
  | isCalculateFinish =>
    simp only [CalKpreAndTopk.step] at hs
    split at hs
    · cases hs
      refine ⟨?_, h.lost, fun hc => ?_⟩
      · have hclosing := h.closing
        exact { hclosing with leaves := fun hr => leaves_mono (s := s) rfl (fun _ => id) id (hclosing.leaves hr) }
      · obtain ⟨kpre, issued, handled, hinv⟩ := h.inv hc
        exact ⟨kpre, issued, handled, { hinv with }⟩
    · cases hs
  | setParam isCalKpre ids =>
    simp only [CalKpreAndTopk.step] at hs
    split at hs
    · rename_i hg
      obtain ⟨hd, hpush, -, hids⟩ := hg
      cases hs
      have hrunning : s.running = true := h.closing.running.mpr hd
      simp only [inTurn, Bool.and_eq_true, Bool.not_eq_true', decide_eq_true_eq] at hturn
      refine ⟨?_, h.lost, fun hc => ?_⟩
      · have hclosing := h.closing
        exact { hclosing with leaves := fun hr => absurd (hrunning.symm.trans hr) Bool.true_eq_false.mp }
      · obtain ⟨kpre, issued, handled, hinv⟩ := h.inv hc
        exact ⟨_, _, _, hinv.setParam hids hturn.1 hturn.2⟩
    · cases hs
  | addCopyReq =>
    simp only [CalKpreAndTopk.step] at hs
    split at hs
    · rename_i r toPush hd hp
      cases hs
      have hrunning : s.running = true := h.closing.running.mpr hd
      refine ⟨?_, h.lost, fun hc => ?_⟩
      · have hclosing := h.closing
        exact { hclosing with leaves := fun hr => absurd (hrunning.symm.trans hr) Bool.true_eq_false.mp }
      · obtain ⟨kpre, issued, handled, hinv⟩ := h.inv hc
        exact ⟨kpre, issued, handled, hinv.addCopyReq hp⟩
    · cases hs
  | copyData popped =>
    refine ⟨h.closing.copyData hs, (lost_copyNext hs).trans h.lost, fun hc => ?_⟩
    rw [(copyNext_frame hs).2.2.1] at hc
    obtain ⟨kpre, issued, handled, hinv⟩ := h.inv hc
    have hstopped : s.stopped = false := Bool.eq_false_iff.mpr fun hst => hc (h.closing.stopped hst)
    obtain ⟨handled', hinv'⟩ := hinv.copyData hs hturn hstopped
    exact ⟨kpre, issued, handled', hinv'⟩
  | calculate =>
    have hnot : s.calculateThread ≠ .ended := fun hc => by
      simp only [CalKpreAndTopk.step, calculateNext, hc] at hs
      cases hs
    obtain ⟨kpre, issued, handled, hinv⟩ := h.inv hnot
    obtain ⟨kpre', issued', handled', hinv'⟩ := hinv.calculate hs
    exact ⟨h.closing.calculate hs, hinv'.lost, fun _ => ⟨kpre', issued', handled', hinv'⟩⟩
  | destroy =>
    simp only [CalKpreAndTopk.step] at hs
    split at hs
    · rename_i hd
      cases hs
      refine ⟨h.closing.destroy hturn hd, h.lost, fun hc => ?_⟩
      obtain ⟨kpre, issued, handled, hinv⟩ := h.inv hc
      exact ⟨kpre, issued, handled, { hinv with }⟩
    · cases hs
  | join =>
    refine ⟨h.closing.join hs, ?_, fun hc => ?_⟩
    · simp only [CalKpreAndTopk.step] at hs
      split at hs <;> (try split at hs) <;> cases hs <;> exact h.lost
    · have hsame : s'.calculateThread = s.calculateThread := by
        simp only [CalKpreAndTopk.step] at hs
        split at hs <;> (try split at hs) <;> cases hs <;> rfl
      obtain ⟨kpre, issued, handled, hinv⟩ := h.inv (hsame ▸ hc)
      refine ⟨kpre, issued, handled, ?_⟩
      simp only [CalKpreAndTopk.step] at hs
      split at hs <;> (try split at hs) <;> cases hs <;> exact { hinv with }

theorem sound_of_reach (h : Reach (step layerNum) (fun s e => s.inTurn e = true) start s) : Sound layerNum s :=
  h.invariant (Sound layerNum) (sound_start layerNum) fun _ _ _ hsound hturn hs => hsound.keep hturn hs

end UnifiedCache.Sparse.TopkPipeline.CalKpreAndTopk
