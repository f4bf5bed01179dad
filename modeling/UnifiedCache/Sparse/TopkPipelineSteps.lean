import UnifiedCache.Sparse.TopkPipelineRequests

/-! What each step of the two threads and of the caller does to the requests of the current step. -/

namespace UnifiedCache.Sparse.TopkPipeline.CalKpreAndTopk.Inv

variable {layerNum : Nat} {kpre : Bool} {issued handled : List CopyInfo} {s s' : CalKpreAndTopk}
  {r : CopyInfo} {i : Nat}

attribute [local simp] Calculate.Computing

/-- `Calculate` moves among the places outside of its computation. -/
theorem goOutside (h : Inv layerNum kpre issued handled s) {c : Calculate}
    (hs : ¬ s.calculateThread.Computing ∧ s.calculateThread ≠ .resetPre) (hc : ¬ c.Computing ∧ c ≠ .resetPre)
    (hread : ∀ need, c.hasRead = some need → if need then s.needCalPre = true else kpre = true → handled = [])
    (hexclusive : c.holds = true → s.copyThread.holds = false) :
    Inv layerNum kpre issued handled (s.goCalculate c) := by
  obtain ⟨hcleared, -, -⟩ := Calculate.outside hs.1
  obtain ⟨hcleared', hpassed, hflag⟩ := Calculate.outside hc.1
  exact { h with
    closing := fun he => absurd he hc.2
    raised := fun f => (h.raised f).trans (and_congr_right fun _ => iff_of_true (hcleared f) (hcleared' f))
    noted := fun _ => h.noted hs.2
    opened := fun he => absurd he hc.1
    passed := fun f _ hp => absurd hp (hpassed f)
    inRange := fun f hf => by rw [show c.flag = some f from hf] at hflag; cases hflag
    hasRead := hread
    exclusive := hexclusive }

/-- `Calculate` goes on in its computation, and no flag is waited for or reset. -/
theorem goInside (h : Inv layerNum kpre issued handled s) {c : Calculate} (hs : s.calculateThread.Computing)
    (hc : c.Computing) (hcleared : ∀ r ∈ handled, c.Cleared r.flag ↔ s.calculateThread.Cleared r.flag)
    (hpassed : ∀ f, Wanted layerNum kpre f → c.Passed f → s.calculateThread.Passed f)
    (hrange : ∀ f, c.flag = some f → Wanted layerNum kpre f) :
    Inv layerNum kpre issued handled (s.goCalculate c) := by
  obtain ⟨hholds, -, hne⟩ := Calculate.inside hs
  obtain ⟨-, hread, hne'⟩ := Calculate.inside hc
  exact { h with
    closing := fun he => absurd he hne'
    raised := fun f => (h.raised f).trans (and_congr_right fun ⟨r, hr, hf⟩ => by
      rw [← hf]
      exact not_congr (hcleared r hr).symm)
    noted := fun _ => h.noted hne
    opened := fun _ => h.opened hs
    passed := fun f hw hp => h.passed f hw (hpassed f hw hp)
    inRange := hrange
    hasRead := fun need hn => by rw [show c.hasRead = some need from hn] at hread; cases hread
    exclusive := fun _ => h.exclusive hholds }

/-- `Calculate` moves to a place where it has read nothing and holds no lock. -/
theorem goFree (h : Inv layerNum kpre issued handled s) {c : Calculate}
    (hs : ¬ s.calculateThread.Computing ∧ s.calculateThread ≠ .resetPre) (hc : ¬ c.Computing ∧ c ≠ .resetPre)
    (hread : c.hasRead = none) (hholds : c.holds = false) : Inv layerNum kpre issued handled (s.goCalculate c) := by
  refine h.goOutside hs hc (fun need hn => ?_) (fun hn => ?_)
  · rw [hread] at hn
    cases hn
  · rw [hholds] at hn
    cases hn

section Waiting

variable (h : Inv layerNum kpre issued handled s)

include h

theorem top (hc : s.calculateThread = .top) :
    Inv layerNum kpre issued handled (s.goCalculate (if s.running then .locking else .ended)) := by
  split <;>
  exact h.goFree (by simp [hc]) (by simp) rfl rfl

theorem locks (hc : s.calculateThread = .locking) (hfree : s.copyThread.holds = false) :
    Inv layerNum kpre issued handled (s.goCalculate .readNeed) :=
  h.goOutside (by simp [hc]) (by simp) (fun _ hn => by cases hn) (fun _ => hfree)

theorem readsNeed (hc : s.calculateThread = .readNeed) :
    Inv layerNum kpre issued handled (s.goCalculate (.readRunning s.needCalPre)) := by
  refine h.goOutside (by simp [hc]) (by simp) (fun need hn => ?_)
    (fun _ => h.exclusive (by rw [hc]; rfl))
  obtain rfl : s.needCalPre = need := Option.some.inj hn
  split_ifs with hneed
  · exact hneed
  · intro hk
    by_contra hh
    exact hneed ((h.noted (by simp [hc])).mpr ⟨hk, Or.inl hh⟩)

theorem readsRunning {need : Bool} (hc : s.calculateThread = .readRunning need) :
    Inv layerNum kpre issued handled (s.goCalculate (if s.running then .readReady need else .asleep)) := by
  have hread := h.hasRead need (by rw [hc]; rfl)
  split
  · refine h.goOutside (by simp [hc]) (by simp) (fun need' hn => ?_)
      (fun _ => h.exclusive (by rw [hc]; rfl))
    obtain rfl : need = need' := Option.some.inj hn
    exact hread
  · exact h.goFree (by simp [hc]) (by simp) rfl rfl

theorem sleeps {need : Bool} (hc : s.calculateThread = .readReady need) :
    Inv layerNum kpre issued handled (s.goCalculate .asleep) :=
  h.goFree (by simp [hc]) (by simp) rfl rfl

theorem wakes (hc : s.calculateThread = .asleep) : Inv layerNum kpre issued handled (s.goCalculate .locking) :=
  h.goFree (by simp [hc]) (by simp) rfl rfl

theorem unlocks (hc : s.calculateThread = .unlock) : Inv layerNum kpre issued handled (s.goCalculate .top) :=
  h.goFree (by simp [hc]) (by simp) rfl rfl

/-- The flag that `CheckDataStatus` finds up is the last of those that are raised under the lock. -/
theorem starts {need : Bool} (hc : s.calculateThread = .readReady need)
    (hready : s.ready (statusFlag need) = true) :
    Inv layerNum kpre issued handled { s.goCalculate (.layer .k 0) with current := s.begun } := by
  obtain ⟨⟨r, hr, hf⟩, -⟩ := (h.raised _).mp hready
  obtain ⟨hkind, hlayer⟩ := Prod.mk.inj hf
  have hread := h.hasRead need (by rw [hc]; rfl)
  have hnoted : s.calculateThread ≠ .resetPre := by simp [hc]
  have hk : kpre = true → r.kind = .k := by
    intro hk
    rw [hkind]
    split_ifs at hread ⊢ with hneed
    · rfl
    · rw [hread hk] at hr
      exact absurd hr List.not_mem_nil
  exact { h with
    closing := fun he => by cases he
    raised := fun f => (h.raised f).trans (and_congr_right fun _ => by rw [hc]; exact Iff.rfl)
    noted := fun _ => h.noted hnoted
    opened := fun _ => ⟨rfl, List.ne_nil_of_mem hr, h.pending_pos hr hlayer hk⟩
    passed := fun f _ hp => absurd hp (Nat.not_lt_zero _)
    inRange := fun f hf => by cases hf
    hasRead := fun f hf => by cases hf
    exclusive := fun _ => h.exclusive (by rw [hc]; rfl) }

end Waiting

theorem passed_afterSpin {kind : Kind} {f : Flag} (hc : s.calculateThread = .spin kind i) (hp : (Calculate.afterSpin i kind).Passed f) :
    f = (kind, i) ∨ s.calculateThread.Passed f := by
  rw [hc]
  cases kind with
  | k => exact hp.symm
  | q =>
    obtain ⟨kind, j⟩ := f
    rcases Nat.lt_or_eq_of_le (show j ≤ i from hp) with hlt | rfl
    · exact Or.inr (Or.inl hlt)
    · cases kind with
      | k => exact Or.inr (Or.inr rfl)
      | q => exact Or.inl rfl

section Computing

variable (h : Inv layerNum kpre issued handled s)

include h

theorem computes (hc : s.calculateThread.Computing) :
    s.needCalTopk = true ∧ (s.calculateThread ≠ .resetPre) ∧ s.needCalPre = kpre := by
  obtain ⟨-, hne, -⟩ := h.opened hc
  have hnot : s.calculateThread ≠ .resetPre := by
    intro he
    rw [he] at hc
    exact hc
  refine ⟨h.needCalTopk (h.mem_handled (List.head_mem hne)), hnot, ?_⟩
  rw [Bool.eq_iff_iff, h.noted hnot]
  exact and_iff_left (Or.inl hne)

theorem layer_k (hc : s.calculateThread = .layer .k i) (hi : i < layerNum) :
    Inv layerNum kpre issued handled (s.goCalculate (if s.needCalPre then .spin .k i else .layer .q i)) := by
  have hin : s.calculateThread.Computing := by rw [hc]; trivial
  rw [(h.computes hin).2.2]
  split_ifs with hk
  · refine h.goInside hin trivial (fun r _ => by rw [hc]; exact Iff.rfl) (fun f _ hp => by rw [hc]; exact hp)
      (fun f hf => ?_)
    rw [← Option.some.inj hf]
    exact ⟨hi, fun _ => hk⟩
  · refine h.goInside hin trivial (fun r _ => by rw [hc]; exact Iff.rfl) (fun f hw hp => ?_) (fun f hf => ?_)
    · rw [hc]
      rcases hp with hlt | rfl
      · exact hlt
      · exact absurd (hw.2 rfl) hk
    · rw [← Option.some.inj hf]
      exact ⟨hi, fun hq => by cases hq⟩

theorem layer_q (hc : s.calculateThread = .layer .q i) :
    Inv layerNum kpre issued handled (s.goCalculate (if s.needCalTopk then .spin .q i else .finish i)) := by
  have hin : s.calculateThread.Computing := by rw [hc]; trivial
  rw [if_pos (h.computes hin).1]
  exact h.goInside hin trivial (fun r _ => by rw [hc]; exact Iff.rfl) (fun f _ hp => by rw [hc]; exact hp)
    (fun f hf => h.inRange f (by rw [hc]; exact hf))

theorem spins {kind : Kind} (hc : s.calculateThread = .spin kind i) (hready : s.ready (kind, i) = true) :
    Inv layerNum kpre issued handled ((s.consume (kind, i)).goCalculate (.afterSpin i kind)) := by
  obtain ⟨htopk, hnot, -⟩ := h.computes (by rw [hc]; trivial)
  obtain ⟨hcurrent, hopened⟩ := h.opened (by rw [hc]; trivial)
  have hwanted := h.inRange (kind, i) (by rw [hc]; rfl)
  have hexcl := h.exclusive (by rw [hc]; rfl)
  exact { h with
    closing := fun he => by cases kind <;> cases he
    raised := fun f => (h.raised f).trans (and_congr_right fun _ => by rw [hc]; cases kind <;> exact Iff.rfl)
    noted := fun _ => h.noted hnot
    opened := fun _ => ⟨hcurrent, hopened⟩
    passed := fun f hw hp => by
      change (f, s.begun) ∈ ((kind, i), s.current) :: s.consumed ∧ _
      rw [hcurrent]
      rcases passed_afterSpin hc hp with rfl | hp
      · exact ⟨List.mem_cons_self, ((h.raised _).mp hready).1⟩
      · exact ⟨List.mem_cons_of_mem _ (h.passed f hw hp).1, (h.passed f hw hp).2⟩
    inRange := fun f hf => by
      cases kind <;> obtain rfl := Option.some.inj hf <;> exact ⟨hwanted.1, fun hq => by cases hq⟩
    hasRead := fun _ hn => by cases kind <;> cases hn
    exclusive := fun _ => hexcl }

theorem finishes (hc : s.calculateThread = .finish i) :
    Inv layerNum kpre issued handled
      { s.goCalculate (.layer .k (i + 1)) with topkFlag := Function.update s.topkFlag i true } := by
  have hgo := h.goInside (c := .layer .k (i + 1)) (by rw [hc]; trivial) trivial (fun r _ => by rw [hc]; exact Iff.rfl)
    (fun f _ hp => by rw [hc]; exact Nat.le_of_lt_succ hp) (fun f hf => by cases hf)
  exact { hgo with }

theorem computed (hc : s.calculateThread = .layer .k i) (hi : ¬ i < layerNum) :
    Inv layerNum kpre issued handled (s.goCalculate (.resetTest .q)) := by
  refine h.goInside (by rw [hc]; trivial) trivial (fun r _ => by rw [hc]; exact Iff.rfl) (fun f hw _ => ?_)
    (fun f hf => by cases hf)
  rw [hc]
  have hlt : f.2 < layerNum := hw.1
  show f.2 < i
  omega

theorem resetTest_q (hc : s.calculateThread = .resetTest .q) :
    Inv layerNum kpre issued handled (s.goCalculate (.reset .q 0)) := by
  refine h.goInside (by rw [hc]; trivial) trivial (fun r _ => ?_) (fun f _ _ => by rw [hc]; trivial)
    (fun f hf => by cases hf)
  rw [hc]
  exact iff_of_false (fun hr => Nat.not_lt_zero _ hr.2) id

theorem resetTest_k (hc : s.calculateThread = .resetTest .k) :
    Inv layerNum kpre issued handled (s.goCalculate (if s.needCalPre then .reset .k 0 else .resetTopk)) := by
  have hin : s.calculateThread.Computing := by rw [hc]; trivial
  rw [(h.computes hin).2.2]
  split_ifs with hk
  · refine h.goInside hin trivial (fun r _ => ?_) (fun f _ _ => by rw [hc]; trivial) (fun f hf => by cases hf)
    rw [hc]
    exact or_iff_left (Nat.not_lt_zero _)
  · refine h.goInside hin trivial (fun r hr => ?_) (fun f _ _ => by rw [hc]; trivial) (fun f hf => by cases hf)
    rw [hc]
    -- There are no flags of the other kind.
    refine iff_of_true trivial ?_
    show r.kind = .q
    cases hkind : r.kind with
    | q => rfl
    | k => exact absurd ((h.of_mem r (h.mem_handled hr)).2.2.2 hkind) hk

theorem resets {kind : Kind} (hc : s.calculateThread = .reset kind i) :
    Inv layerNum kpre issued handled ((s.clearFlag (kind, i)).goCalculate (.reset kind (i + 1))) := by
  obtain ⟨-, hnot, -⟩ := h.computes (by rw [hc]; trivial)
  have hopened := h.opened (by rw [hc]; trivial)
  have hexcl := h.exclusive (by rw [hc]; rfl)
  have hcleared : ∀ f, (Calculate.reset kind (i + 1)).Cleared f ↔ f = (kind, i) ∨ s.calculateThread.Cleared f := by
    rintro ⟨kind', j⟩
    rw [hc, Prod.mk.injEq]
    cases kind <;> cases kind' <;> simp [Calculate.Cleared] <;> omega
  have hready : ∀ f, (s.clearFlag (kind, i)).ready f = true ↔ f ≠ (kind, i) ∧ s.ready f = true := by
    intro f
    show Function.update s.ready (kind, i) false f = true ↔ _
    rw [Function.update_apply]
    split_ifs with he
    · simp [he]
    · simp [he]
  refine { h with
    closing := fun he => by cases he
    raised := fun f => ?_
    stamped := fun f hf => h.stamped f ((hready f).mp hf).2
    noted := fun _ => h.noted hnot
    opened := fun _ => hopened
    passed := fun f hw _ => h.passed f hw (by rw [hc]; trivial)
    inRange := fun f hf => by cases hf
    hasRead := fun _ hn => by cases hn
    exclusive := fun _ => hexcl
    lost := ?_ }
  · refine (hready f).trans ?_
    rw [h.raised f]
    show _ ↔ _ ∧ ¬ (Calculate.reset kind (i + 1)).Cleared f
    rw [hcleared]
    tauto
  · -- A flag that is up is that of a request of the step, and was waited for.
    have hkept : ¬ (s.ready (kind, i) = true ∧ ((kind, i), s.stamp (kind, i)) ∉ s.consumed) := by
      rintro ⟨hup, hnot⟩
      obtain ⟨⟨r, hr, hf⟩, -⟩ := (h.raised _).mp hup
      obtain ⟨hlt, -, -, hk⟩ := h.of_mem r (h.mem_handled hr)
      obtain ⟨hkind, hlayer⟩ := Prod.mk.inj hf
      have hw : Wanted layerNum kpre (kind, i) := ⟨hlayer ▸ hlt, fun he => hk (hkind.trans he)⟩
      rw [h.stamped _ hup] at hnot
      exact hnot (h.passed _ hw (by rw [hc]; trivial)).1
    exact (if_neg hkept).trans h.lost

theorem reset_done {kind : Kind} (hc : s.calculateThread = .reset kind i) (hi : ¬ i < layerNum) :
    Inv layerNum kpre issued handled (s.goCalculate (.afterReset kind)) := by
  have hlt : ∀ r ∈ handled, r.layerId < i := fun r hr =>
    (h.of_mem r (h.mem_handled hr)).1.trans_le (Nat.le_of_not_lt hi)
  cases kind with
  | q =>
    refine h.goInside (by rw [hc]; trivial) trivial (fun r hr => ?_) (fun f _ _ => by rw [hc]; trivial)
      (fun f hf => by cases hf)
    rw [hc]
    exact (and_iff_left (hlt r hr)).symm
  | k =>
    refine h.goInside (by rw [hc]; trivial) trivial (fun r hr => ?_) (fun f _ _ => by rw [hc]; trivial)
      (fun f hf => by cases hf)
    rw [hc]
    exact iff_of_true trivial (Or.inr (hlt r hr))

/-- The flags of all requests were waited for, so that all were raised. -/
theorem pending_nil (hp : ∀ f, s.calculateThread.Passed f) : s.pending = [] := by
  refine List.eq_nil_iff_forall_not_mem.mpr fun r hr => ?_
  obtain ⟨hlt, -, -, hk⟩ := h.of_mem r (h.mem_pending hr)
  obtain ⟨-, r', hr', hf⟩ := h.passed r.flag ⟨hlt, hk⟩ (hp _)
  exact (h.before hr' hr).flag_ne hf

theorem resetsTopk (hc : s.calculateThread = .resetTopk) :
    Inv layerNum false [] [] { s.goCalculate .resetPre with needCalTopk := false } := by
  have hpending := h.pending_nil fun f => by rw [hc]; trivial
  have hlow : ∀ f, s.ready f ≠ true := fun f hf => ((h.raised f).mp hf).2 (by rw [hc]; trivial)
  have hinHand : s.copyThread.inHand = [] := (List.append_eq_nil_iff.mp (List.append_eq_nil_iff.mp hpending).1).1
  have hidle : s.copyThread.locking = none ∧ s.copyThread.storing = none := by
    cases hcopy : s.copyThread with
    | lock r | locked r | store r held =>
      rw [hcopy] at hinHand
      cases hinHand
    | _ => exact ⟨rfl, rfl⟩
  exact {
    split := hpending.symm
    ordered := List.Pairwise.nil
    of_mem := fun r hr => absurd hr List.not_mem_nil
    complete := fun hn => by cases hn
    idle := fun _ => ⟨rfl, rfl⟩
    closing := fun _ => rfl
    raised := fun f => iff_of_false (hlow f) fun ⟨⟨r, hr, _⟩, _⟩ => absurd hr List.not_mem_nil
    stamped := fun f hf => absurd hf (hlow f)
    noted := fun hne => absurd rfl hne
    opened := False.elim
    passed := fun f _ => False.elim
    inRange := fun f hf => by cases hf
    hasRead := fun _ hn => by cases hn
    locking := fun r hr => by rw [show s.copyThread.locking = some r from hr] at hidle; cases hidle.1
    storing := fun r hr => by rw [show s.copyThread.storing = some r from hr] at hidle; cases hidle.2
    exclusive := fun _ => h.exclusive (by rw [hc]; rfl)
    lost := h.lost }

end Computing

theorem resetsPre (h : Inv layerNum kpre issued handled s) (hc : s.calculateThread = .resetPre) :
    Inv layerNum kpre issued handled { s.goCalculate .unlock with needCalPre := false } := by
  have hk : kpre ≠ true := by
    rw [(h.idle (h.closing hc)).2]
    exact Bool.false_ne_true
  exact { h with
    closing := fun he => by cases he
    raised := fun f => (h.raised f).trans (and_congr_right fun _ => by rw [hc]; exact Iff.rfl)
    noted := fun _ => iff_of_false Bool.false_ne_true fun hn => hk hn.1
    opened := False.elim
    passed := fun f _ => False.elim
    inRange := fun f hf => by cases hf
    hasRead := fun _ hn => by cases hn
    exclusive := fun _ => h.exclusive (by rw [hc]; rfl) }

end UnifiedCache.Sparse.TopkPipeline.CalKpreAndTopk.Inv
