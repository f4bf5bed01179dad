import UnifiedCache.Sparse.TopkPipelineSteps

/-! The steps of `CopyData` and of the caller, and what holds in every run whose steps are in turn. -/

namespace UnifiedCache.Sparse.TopkPipeline.CalKpreAndTopk

open StepSystem

variable {layerNum : Nat} {kpre : Bool} {issued handled : List CopyInfo} {s s' : CalKpreAndTopk}
  {r : CopyInfo} {f : Flag}

theorem readsTopk_iff : s.readsTopk = true ↔ s.calculateThread.hasRead = some false := by
  cases hc : s.calculateThread <;> simp [readsTopk, hc, Calculate.hasRead]

namespace Inv

/-- `CopyData` goes on with the request that it has, and no flag is raised. -/
theorem goCopy (h : Inv layerNum kpre issued handled s) {c : CopyData} (hin : c.inHand = s.copyThread.inHand)
    (hnoted : handled ≠ [] ∨ c.Noted ↔ handled ≠ [] ∨ s.copyThread.Noted)
    (hlocking : ∀ r, c.locking = some r → r.layerId = 0 ∧ (r.kind = .q → kpre = false))
    (hstoring : ∀ r, c.storing = some r → r.layerId = 0 → r.kind = .q ∧ kpre = true)
    (hexclusive : s.calculateThread.holds = true → c.holds = false) :
    Inv layerNum kpre issued handled (s.goCopy c) := by
  have hpending : (s.goCopy c).pending = s.pending := by
    simp only [pending, CalKpreAndTopk.goCopy, hin]
  exact { h with
    split := by rw [hpending]; exact h.split
    noted := fun hne => (h.noted hne).trans (and_congr_right fun _ => hnoted.symm)
    opened := fun hc => by rw [hpending]; exact h.opened hc
    locking := hlocking
    storing := hstoring
    exclusive := hexclusive }

variable (h : Inv layerNum kpre issued handled s)

include h

theorem copy_idle (hin : s.copyThread.inHand = []) {c : CopyData} (hc : c = .top ∨ c = .pop ∨ c = .ended) :
    Inv layerNum kpre issued handled (s.goCopy c) := by
  have hnoted : ¬ s.copyThread.Noted := by
    cases hcopy : s.copyThread with
    | branch r | lock r | locked r | store r held =>
      rw [hcopy] at hin
      cases hin
    | _ => exact id
  rcases hc with rfl | rfl | rfl <;>
  exact h.goCopy hin.symm (or_congr_right (iff_of_false id hnoted)) (fun _ he => by cases he) (fun _ he => by cases he)
    (fun _ => rfl)

theorem pops {queue : List CopyInfo} (hc : s.copyThread = .pop) (hq : s.copyQueue = r :: queue) :
    Inv layerNum kpre issued handled { s.goCopy (.start r) with copyQueue := queue } := by
  have hpending : s.pending = r :: queue ++ s.toPush := by
    rw [pending, hc, hq]
    rfl
  have hpending' : ({ s.goCopy (.start r) with copyQueue := queue } : CalKpreAndTopk).pending = s.pending := by
    rw [hpending]
    rfl
  exact { h with
    split := by rw [hpending']; exact h.split
    noted := fun hne => (h.noted hne).trans (and_congr_right fun _ => or_congr_right (by rw [hc]; exact Iff.rfl))
    opened := fun he => by rw [hpending']; exact h.opened he
    locking := fun _ he => by cases he
    storing := fun _ he => by cases he
    exclusive := fun _ => rfl }

/-- `m_needCalPre` is set with the first request of a step. -/
theorem notes (hc : s.copyThread = .start r) :
    Inv layerNum kpre issued handled { s.goCopy (.branch r) with
      needCalPre := if r.flag = (.q, 0) then r.needCalKpre else s.needCalPre } := by
  have hpending : s.pending = r :: s.copyQueue ++ s.toPush := by
    rw [pending, hc]
    rfl
  have hr : r ∈ s.pending := by
    rw [hpending]
    exact List.mem_cons_self
  obtain ⟨-, -, hneed, -⟩ := h.of_mem r (h.mem_pending hr)
  have hne : s.calculateThread ≠ .resetPre := fun he => by
    have hissued := (h.idle (h.closing he)).1
    rw [h.split, List.append_eq_nil_iff] at hissued
    rw [hissued.2] at hr
    cases hr
  have hpre : (if r.flag = (.q, 0) then r.needCalKpre else s.needCalPre) = kpre := by
    split_ifs with hf
    · exact hneed
    · rw [Bool.eq_iff_iff, h.noted hne, hc]
      refine and_iff_left (Or.inl fun hh => hf ?_)
      exact h.first hh hpending
  have hread : ∀ need, s.calculateThread.hasRead = some need →
      if need then (if r.flag = (.q, 0) then r.needCalKpre else s.needCalPre) = true
      else kpre = true → handled = [] := by
    intro need hn
    have hold := h.hasRead need hn
    rw [hpre]
    split_ifs at hold ⊢
    · exact ((h.noted hne).mp hold).1
    · exact hold
  exact { h with
    split := h.split.trans (by rw [pending, hc]; rfl)
    noted := fun _ => by
      show (if r.flag = (.q, 0) then r.needCalKpre else s.needCalPre) = true ↔ _
      rw [hpre]
      exact (and_iff_left (Or.inr trivial)).symm
    opened := fun he => by
      obtain ⟨hcur, hh, hpos⟩ := h.opened he
      exact ⟨hcur, hh, fun r' hr' => hpos r' (by rw [hpending]; exact hr')⟩
    hasRead := hread
    locking := fun _ he => by cases he
    storing := fun _ he => by cases he
    exclusive := fun _ => rfl }

theorem branches (hc : s.copyThread = .branch r) :
    Inv layerNum kpre issued handled (s.goCopy (if s.takesLock r then .lock r else .store r false)) := by
  have hr : r ∈ s.pending := by
    rw [pending, hc]
    exact List.mem_cons_self
  have hissued := h.mem_pending hr
  have hne : s.calculateThread ≠ .resetPre := fun he => by
    have hnil := (h.idle (h.closing he)).1
    rw [hnil] at hissued
    cases hissued
  have hpre : s.needCalPre = kpre := by
    rw [Bool.eq_iff_iff, h.noted hne, hc]
    exact and_iff_left (Or.inr trivial)
  have htakes : s.takesLock r = true ↔ r.layerId = 0 ∧ (r.kind = .q → kpre = false) := by
    cases hkind : r.kind <;> simp [takesLock, hkind, hpre, and_comm]
  split_ifs with ht
  · refine h.goCopy (by rw [hc]; rfl) (by rw [hc]; exact Iff.rfl) (fun r' he => ?_) (fun _ he => by cases he)
      (fun _ => rfl)
    rw [← Option.some.inj he]
    exact htakes.mp ht
  · refine h.goCopy (by rw [hc]; rfl) (by rw [hc]; exact Iff.rfl) (fun _ he => by cases he) (fun r' he hlayer => ?_)
      (fun _ => rfl)
    obtain rfl : r = r' := Option.some.inj he
    rw [htakes] at ht
    push Not at ht
    obtain ⟨hkind, hk⟩ := ht hlayer
    exact ⟨hkind, Bool.eq_true_of_not_eq_false hk⟩

theorem copyLocks (hc : s.copyThread = .lock r) (hfree : s.calculateThread.holds = false) :
    Inv layerNum kpre issued handled (s.goCopy (.locked r)) := by
  refine h.goCopy (by rw [hc]; rfl) (by rw [hc]; exact Iff.rfl) (fun r' he => ?_) (fun _ he => by cases he)
    (fun hn => by rw [hfree] at hn; cases hn)
  exact h.locking r' (by rw [hc]; exact he)

theorem copyLocked (hc : s.copyThread = .locked r) :
    Inv layerNum kpre issued handled { s.goCopy (.store r true) with
      needCalPre := r.kind = .k || s.needCalPre
      topkFlag := fun _ => false } := by
  have hr : r ∈ s.pending := by
    rw [pending, hc]
    exact List.mem_cons_self
  have hexcl : s.calculateThread.holds ≠ true := fun hn => by
    have hfree := h.exclusive hn
    rw [hc] at hfree
    cases hfree
  have hne : s.calculateThread ≠ .resetPre := fun he => hexcl (by rw [he]; rfl)
  have hpre : s.needCalPre = kpre := by
    rw [Bool.eq_iff_iff, h.noted hne, hc]
    exact and_iff_left (Or.inr trivial)
  have hkept : (r.kind = .k || s.needCalPre) = s.needCalPre := by
    rw [hpre]
    cases hkind : r.kind with
    | q => rfl
    | k => rw [(h.of_mem r (h.mem_pending hr)).2.2.2 hkind]; rfl
  have hgo : Inv layerNum kpre issued handled (s.goCopy (.store r true)) := by
    refine h.goCopy (by rw [hc]; rfl) (by rw [hc]; exact Iff.rfl) (fun r' he => ?_) (fun _ he => by cases he)
      (fun hn => absurd hn hexcl)
    exact h.locking r' (by rw [hc]; exact he)
  rw [hkept]
  exact { hgo with }

/-- The next flag of the step is raised. -/
theorem stores {held : Bool} (hc : s.copyThread = .store r held)
    (hturn : ¬ (r.flag = (.q, 0) ∧ r.needCalKpre = true ∧ s.readsTopk = true)) :
    Inv layerNum kpre issued (handled ++ [r])
      ((s.raiseFlag r.flag r.step).goCopy (if held then .notify else .top)) := by
  have hpending : s.pending = r :: s.copyQueue ++ s.toPush := by
    rw [pending, hc]
    rfl
  have hr : r ∈ s.pending := by
    rw [hpending]
    exact List.mem_cons_self
  have hissued := h.mem_pending hr
  obtain ⟨-, hstep, hneed, hk⟩ := h.of_mem r hissued
  have hthere : ((s.raiseFlag r.flag r.step).goCopy (if held then .notify else .top)).pending =
      s.copyQueue ++ s.toPush := by
    cases held <;> rfl
  have htopk : s.needCalTopk = true := h.needCalTopk hissued
  have hne : s.calculateThread ≠ .resetPre := fun he => by
    rw [h.closing he] at htopk
    cases htopk
  -- The flags are reset only when all of them were waited for.
  have hcleared : ¬ s.calculateThread.Cleared r.flag := by
    intro hcl
    have hpassed : ∀ f, s.calculateThread.Passed f := by
      cases hcalc : s.calculateThread with
      | resetTest kind | reset kind i | resetTopk => exact fun _ => trivial
      | _ => rw [hcalc] at hcl; exact hcl.elim
    rw [h.pending_nil hpassed] at hr
    cases hr
  have hready : ∀ g, Function.update s.ready r.flag true g = true ↔ g = r.flag ∨ s.ready g = true := by
    intro g
    rw [Function.update_apply]
    split_ifs with he
    · exact iff_of_true rfl (Or.inl he)
    · exact (or_iff_right he).symm
  refine { h with
    split := ?_
    raised := fun g => ?_
    stamped := fun g hg => ?_
    noted := fun _ => ?_
    opened := fun he => ?_
    passed := fun g hw hp => ?_
    hasRead := fun need hn => ?_
    locking := fun _ he => by cases held <;> cases he
    storing := fun _ he => by cases held <;> cases he
    exclusive := fun hn => ?_ }
  · rw [hthere, List.append_assoc, List.singleton_append, ← List.cons_append, ← hpending]
    exact h.split
  · refine (hready g).trans ?_
    rw [h.raised g]
    constructor
    · rintro (rfl | ⟨⟨r', hr', hf⟩, hcl⟩)
      · exact ⟨⟨r, List.mem_append_right _ (List.mem_singleton_self r), rfl⟩, hcleared⟩
      · exact ⟨⟨r', List.mem_append_left _ hr', hf⟩, hcl⟩
    · rintro ⟨⟨r', hr', hf⟩, hcl⟩
      rcases List.mem_append.mp hr' with hr' | hr'
      · exact Or.inr ⟨⟨r', hr', hf⟩, hcl⟩
      · rw [List.mem_singleton.mp hr'] at hf
        exact Or.inl hf.symm
  · show Function.update s.stamp r.flag r.step g = s.begun
    rw [Function.update_apply]
    split_ifs with he
    · exact hstep
    · exact h.stamped g (((hready g).mp hg).resolve_left he)
  · refine (h.noted hne).trans (and_congr_right fun _ => iff_of_true ?_ (Or.inl (by simp)))
    rw [hc]
    exact Or.inr trivial
  · obtain ⟨hcur, -, hpos⟩ := h.opened he
    refine ⟨hcur, by simp, fun r' hr' => hpos r' ?_⟩
    rw [hthere] at hr'
    rw [hpending]
    exact List.mem_cons_of_mem _ hr'
  · obtain ⟨hcons, r', hr', hf⟩ := h.passed g hw hp
    exact ⟨hcons, r', List.mem_append_left _ hr', hf⟩
  · have hold := h.hasRead need hn
    cases need with
    | true => exact hold
    | false =>
      intro hk'
      have hh : handled = [] := hold hk'
      refine absurd ⟨h.first hh hpending, hneed.trans hk', ?_⟩ hturn
      exact readsTopk_iff.mpr hn
  · have hfree := h.exclusive hn
    rw [hc] at hfree
    have hheld : held = false := hfree
    rw [hheld]
    rfl

theorem calculate (hs : s.calculateNext layerNum = some s') :
    ∃ kpre issued handled, Inv layerNum kpre issued handled s' := by
  cases hc : s.calculateThread with
  | top =>
    simp only [calculateNext, hc, Option.some.injEq] at hs
    exact ⟨_, _, _, hs ▸ h.top hc⟩
  | locking =>
    simp only [calculateNext, hc] at hs
    split at hs
    · cases hs
    · rename_i hfree
      exact ⟨_, _, _, Option.some.inj hs ▸ h.locks hc (Bool.eq_false_iff.mpr hfree)⟩
  | readNeed =>
    simp only [calculateNext, hc, Option.some.injEq] at hs
    exact ⟨_, _, _, hs ▸ h.readsNeed hc⟩
  | readRunning need =>
    simp only [calculateNext, hc, Option.some.injEq] at hs
    exact ⟨_, _, _, hs ▸ h.readsRunning hc⟩
  | readReady need =>
    simp only [calculateNext, hc] at hs
    split at hs
    · rename_i hready
      exact ⟨_, _, _, Option.some.inj hs ▸ h.starts hc hready⟩
    · exact ⟨_, _, _, Option.some.inj hs ▸ h.sleeps hc⟩
  | asleep =>
    simp only [calculateNext, hc, Option.some.injEq] at hs
    exact ⟨_, _, _, hs ▸ h.wakes hc⟩
  | layer kind i =>
    cases kind with
    | k =>
      simp only [calculateNext, hc] at hs
      split at hs
      · rename_i hi
        exact ⟨_, _, _, Option.some.inj hs ▸ h.layer_k hc hi⟩
      · rename_i hi
        exact ⟨_, _, _, Option.some.inj hs ▸ h.computed hc hi⟩
    | q =>
      simp only [calculateNext, hc, Option.some.injEq] at hs
      exact ⟨_, _, _, hs ▸ h.layer_q hc⟩
  | spin kind i =>
    simp only [calculateNext, hc] at hs
    split at hs
    · rename_i hready
      exact ⟨_, _, _, Option.some.inj hs ▸ h.spins hc hready⟩
    · cases hs
  | finish i =>
    simp only [calculateNext, hc, Option.some.injEq] at hs
    exact ⟨_, _, _, hs ▸ h.finishes hc⟩
  | resetTest kind =>
    simp only [calculateNext, hc, Option.some.injEq] at hs
    cases kind with
    | k => exact ⟨_, _, _, hs ▸ h.resetTest_k hc⟩
    | q =>
      have htopk : s.need .q = true := (h.computes (by rw [hc]; trivial)).1
      rw [if_pos htopk] at hs
      exact ⟨_, _, _, hs ▸ h.resetTest_q hc⟩
  | reset kind i =>
    simp only [calculateNext, hc] at hs
    split at hs
    · exact ⟨_, _, _, Option.some.inj hs ▸ h.resets hc⟩
    · rename_i hi
      exact ⟨_, _, _, Option.some.inj hs ▸ h.reset_done hc hi⟩
  | resetTopk =>
    simp only [calculateNext, hc, Option.some.injEq] at hs
    exact ⟨_, _, _, hs ▸ h.resetsTopk hc⟩
  | resetPre =>
    simp only [calculateNext, hc, Option.some.injEq] at hs
    exact ⟨_, _, _, hs ▸ h.resetsPre hc⟩
  | unlock =>
    simp only [calculateNext, hc, Option.some.injEq] at hs
    exact ⟨_, _, _, hs ▸ h.unlocks hc⟩
  | ended =>
    simp only [calculateNext, hc] at hs
    cases hs

theorem copyData {popped : CopyInfo} (hs : s.copyNext popped = some s') (hturn : s.inTurn (.copyData popped) = true)
    (hstopped : s.stopped = false) : ∃ handled, Inv layerNum kpre issued handled s' := by
  cases hc : s.copyThread with
  | top =>
    simp only [copyNext, hc, Option.some.injEq] at hs
    refine ⟨_, hs ▸ h.copy_idle (by rw [hc]; rfl) ?_⟩
    split
    · exact Or.inr (Or.inl rfl)
    · exact Or.inr (Or.inr rfl)
  | pop =>
    simp only [copyNext, hc] at hs
    cases hq : s.copyQueue with
    | nil =>
      rw [hq, hstopped] at hs
      cases hs
    | cons r queue =>
      rw [hq] at hs
      exact ⟨_, Option.some.inj hs ▸ h.pops hc hq⟩
  | start r =>
    simp only [copyNext, hc, Option.some.injEq] at hs
    exact ⟨_, hs ▸ h.notes hc⟩
  | branch r =>
    simp only [copyNext, hc, Option.some.injEq] at hs
    exact ⟨_, hs ▸ h.branches hc⟩
  | lock r =>
    simp only [copyNext, hc] at hs
    split at hs
    · cases hs
    · rename_i hfree
      exact ⟨_, Option.some.inj hs ▸ h.copyLocks hc (Bool.eq_false_iff.mpr hfree)⟩
  | locked r =>
    simp only [copyNext, hc, Option.some.injEq] at hs
    exact ⟨_, hs ▸ h.copyLocked hc⟩
  | store r held =>
    simp only [copyNext, hc, Option.some.injEq] at hs
    refine ⟨_, hs ▸ h.stores hc fun ⟨hf, hneed, hread⟩ => ?_⟩
    simp only [inTurn, hc, hf, hneed, hread] at hturn
    cases hturn
  | notify =>
    simp only [copyNext, hc, Option.some.injEq] at hs
    exact ⟨_, hs ▸ h.copy_idle (by rw [hc]; rfl) (Or.inl rfl)⟩
  | ended =>
    simp only [copyNext, hc] at hs
    cases hs

theorem setParam {isCalKpre : Bool} {ids : List Int} (hids : ids ≠ []) (htopk : s.needCalTopk = false)
    (hne : s.calculateThread ≠ .resetPre) :
    Inv layerNum isCalKpre (requests layerNum isCalKpre ids (s.begun + 1)) [] { s with
      needCalTopk := true
      isTopkDone := false
      toPush := requests layerNum isCalKpre ids (s.begun + 1)
      begun := s.begun + 1 } := by
  obtain ⟨rfl, rfl⟩ := h.idle htopk
  obtain ⟨rfl, hpending⟩ := List.append_eq_nil_iff.mp h.split.symm
  have hcopy := (List.append_eq_nil_iff.mp (List.append_eq_nil_iff.mp hpending).1)
  have hlow : ∀ f, s.ready f ≠ true := fun f hf => by
    obtain ⟨⟨r, hr, -⟩, -⟩ := (h.raised f).mp hf
    cases hr
  have hout : ¬ s.calculateThread.Computing := fun hc => (h.opened hc).2.1 rfl
  obtain ⟨-, hpassed, -⟩ := Calculate.outside hout
  have hpre : s.needCalPre ≠ true := fun hp => Bool.false_ne_true ((h.noted hne).mp hp).1
  have hidle : ¬ s.copyThread.Noted ∧ s.copyThread.locking = none ∧ s.copyThread.storing = none := by
    have hin := hcopy.1
    cases hc : s.copyThread with
    | branch r | lock r | locked r | store r held =>
      rw [hc] at hin
      cases hin
    | _ => exact ⟨id, rfl, rfl⟩
  exact {
    split := by
      show _ = [] ++ (s.copyThread.inHand ++ s.copyQueue ++ _)
      rw [hcopy.1, hcopy.2]
      rfl
    ordered := requests_ordered hids
    of_mem := fun r hr => of_mem_requests hids hr
    complete := fun _ f hf => mem_requests_of_wanted hids hf
    idle := fun hn => by cases hn
    raised := fun f => iff_of_false (hlow f) fun ⟨⟨r, hr, _⟩, _⟩ => absurd hr List.not_mem_nil
    stamped := fun f hf => absurd hf (hlow f)
    closing := fun he => absurd he hne
    noted := fun _ => iff_of_false hpre fun ⟨_, hn⟩ => hn.elim (fun hn => hn rfl) hidle.1
    opened := fun hc => absurd hc hout
    passed := fun f _ hp => absurd hp (hpassed f)
    inRange := fun f hf => by
      rw [(Calculate.outside hout).2.2] at hf
      cases hf
    hasRead := fun need hn => by
      have hold := h.hasRead need hn
      split_ifs at hold ⊢ with hneed
      · exact absurd hold hpre
      · exact fun _ => rfl
    locking := fun r hr => by
      rw [hidle.2.1] at hr
      cases hr
    storing := fun r hr => by
      rw [hidle.2.2] at hr
      cases hr
    exclusive := h.exclusive
    lost := h.lost }

theorem addCopyReq {toPush : List CopyInfo} (hp : s.toPush = r :: toPush) :
    Inv layerNum kpre issued handled { s with copyQueue := s.copyQueue ++ [r], toPush := toPush } := by
  have hpending : ({ s with copyQueue := s.copyQueue ++ [r], toPush := toPush } : CalKpreAndTopk).pending =
      s.pending := by
    simp [pending, hp]
  exact { h with
    split := by rw [hpending]; exact h.split
    opened := fun hc => by rw [hpending]; exact h.opened hc }

end Inv

end UnifiedCache.Sparse.TopkPipeline.CalKpreAndTopk
