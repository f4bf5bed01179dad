import UnifiedCache.Sparse.TopkPipelineClosing

/-! The handshake of the pipeline: no ready flag is lost, `Calculate` waits only for flags that are to
come, and the destructor does not wait in vain. -/

namespace UnifiedCache.Sparse.TopkPipeline.CalKpreAndTopk

open StepSystem

variable {layerNum : Nat} {s s' : CalKpreAndTopk} {P : CalKpreAndTopk → Prop} {e : Event} {kind : Kind} {i : Nat}

/-- The condition can still become true. -/
def CanStill (layerNum : Nat) (s : CalKpreAndTopk) (P : CalKpreAndTopk → Prop) : Prop :=
  ∃ es s', run (step layerNum) s es = some s' ∧ P s'

structure Handshake (layerNum : Nat) (s : CalKpreAndTopk) : Prop where
  lost : s.lost = []
  awaited : ∀ kind i, s.calculateThread = .spin kind i → s.ready (kind, i) = false →
    (∃ r ∈ s.pending, r.flag = (kind, i) ∧ r.step = s.current) ∧
      CanStill layerNum s fun s' => s'.ready (kind, i) = true
  joinCalculate : s.destructor = .joinCalculate → CanStill layerNum s s.calculateThread.Awaits
  joinCopy : s.destructor = .joinCopy → CanStill layerNum s s.copyThread.Awaits

theorem canStill_now (h : P s) : CanStill layerNum s P := ⟨[], s, rfl, h⟩

theorem CanStill.next (hs : s.step layerNum e = some s') (h : CanStill layerNum s' P) : CanStill layerNum s P := by
  obtain ⟨es, s'', hrun, hP⟩ := h
  exact ⟨e :: es, s'', by rw [run, hs]; exact hrun, hP⟩

/-- How far `CopyData` is from having handled everything. -/
def work (s : CalKpreAndTopk) : Nat :=
  7 * s.toPush.length + 6 * s.copyQueue.length +
    match s.copyThread with
    | .start _ => 5
    | .branch _ => 4
    | .store _ _ => 3
    | .top => 1
    | _ => 0

/-- The request of a flag that `Calculate` waits for. -/
theorem Sound.pending_of_spin (h : Sound layerNum s) (hc : s.calculateThread = .spin kind i)
    (hlow : s.ready (kind, i) = false) : ∃ r ∈ s.pending, r.flag = (kind, i) ∧ r.step = s.current := by
  obtain ⟨kpre, issued, handled, hinv⟩ := h.inv (by simp [hc])
  have hin : s.calculateThread.Computing := by rw [hc]; trivial
  obtain ⟨r, hr, hf⟩ := hinv.complete (hinv.computes hin).1 (kind, i) (hinv.inRange _ (by rw [hc]; rfl))
  refine ⟨r, ?_, hf, (hinv.of_mem r hr).2.1.trans (hinv.opened hin).1.symm⟩
  rw [hinv.split] at hr
  refine (List.mem_append.mp hr).resolve_left fun hr => ?_
  rw [(hinv.raised _).mpr ⟨⟨r, hr, hf⟩, by rw [hc]; exact id⟩] at hlow
  cases hlow

/-- While `Calculate` waits for a flag, the rest of the pipeline can go on. -/
theorem Sound.goes_on (h : Sound layerNum s) (hc : s.calculateThread = .spin kind i)
    (hlow : s.ready (kind, i) = false) :
    ∃ e s', s.inTurn e = true ∧ s.step layerNum e = some s' ∧ s'.calculateThread = s.calculateThread ∧
      s'.work < s.work := by
  obtain ⟨r₀, hr₀, -⟩ := h.pending_of_spin hc hlow
  obtain ⟨kpre, issued, handled, hinv⟩ := h.inv (by simp [hc])
  have hin : s.calculateThread.Computing := by rw [hc]; trivial
  have hpos := (hinv.opened hin).2.2
  have hexcl := hinv.exclusive (by rw [hc]; rfl)
  have hcoming : s.running = false → s.allComing = true := fun hr => by
    have hleaves := h.closing.leaves hr
    simpa only [leaves, hc] using hleaves
  have hmem : s.pending ≠ [] := List.ne_nil_of_mem hr₀
  cases hcopy : s.copyThread with
  | top =>
    cases hr : s.running with
    | true =>
      refine ⟨.copyData r₀, s.goCopy .pop, by simp [inTurn, hcopy], ?_, rfl, ?_⟩
      · simp [step, copyNext, hcopy, hr]
      · simp [work, hcopy, goCopy]
    | false =>
      have hall := hcoming hr
      simp only [allComing, hcopy, Bool.and_eq_true, Bool.or_eq_true, decide_eq_true_eq, reduceCtorEq, false_and,
        or_false] at hall
      exact absurd (by simp [pending, hcopy, CopyData.inHand, hall.1, hall.2]) hmem
  | pop =>
    cases hq : s.copyQueue with
    | cons r queue =>
      refine ⟨.copyData r, { s.goCopy (.start r) with copyQueue := queue }, by simp [inTurn, hcopy], ?_, rfl, ?_⟩
      · simp [step, copyNext, hcopy, hq]
      · simp [work, hcopy, hq, goCopy]
        omega
    | nil =>
      cases hp : s.toPush with
      | nil => exact absurd (by simp [pending, hcopy, CopyData.inHand, hq, hp]) hmem
      | cons r toPush =>
        have hd : s.destructor = .none := by
          refine h.closing.running.mp (Bool.eq_true_of_not_eq_false fun hr => ?_)
          have hall := hcoming hr
          simp [allComing, hp] at hall
        refine ⟨.addCopyReq, { s with copyQueue := s.copyQueue ++ [r], toPush := toPush }, rfl, ?_, rfl, ?_⟩
        · simp [step, hd, hp]
        · simp [work, hcopy, hq, hp]
          omega
  | start r =>
    refine ⟨.copyData r, { s.goCopy (.branch r) with
      needCalPre := if r.flag = (.q, 0) then r.needCalKpre else s.needCalPre }, by simp [inTurn, hcopy], ?_, rfl, ?_⟩
    · simp [step, copyNext, hcopy]
    · simp [work, hcopy, goCopy]
  | branch r =>
    have hr : 0 < r.layerId := hpos r (by rw [pending, hcopy]; exact List.mem_cons_self)
    have hfree : s.takesLock r = false := by simp [takesLock, hr.ne']
    refine ⟨.copyData r, s.goCopy (.store r false), by simp [inTurn, hcopy], ?_, rfl, ?_⟩
    · simp [step, copyNext, hcopy, hfree]
    · simp [work, hcopy, goCopy]
  | store r held =>
    have hfree : held = false := by
      rw [hcopy] at hexcl
      exact hexcl
    refine ⟨.copyData r, (s.raiseFlag r.flag r.step).goCopy .top, ?_, ?_, rfl, ?_⟩
    · simp [inTurn, hcopy, readsTopk, hc]
    · simp [step, copyNext, hcopy, hfree]
    · simp [work, hcopy, goCopy, raiseFlag]
  | lock r =>
    have hr : 0 < r.layerId := hpos r (by rw [pending, hcopy]; exact List.mem_cons_self)
    have hzero := (hinv.locking r (by rw [hcopy]; rfl)).1
    omega
  | locked r =>
    rw [hcopy] at hexcl
    cases hexcl
  | notify =>
    rw [hcopy] at hexcl
    cases hexcl
  | ended =>
    have hall := hcoming (h.closing.copyEnded hcopy)
    simp only [allComing, hcopy, Bool.and_eq_true, Bool.or_eq_true, decide_eq_true_eq, reduceCtorEq, false_and,
      or_false] at hall
    exact absurd (by simp [pending, hcopy, CopyData.inHand, hall.1, hall.2]) hmem

theorem Sound.can_raise (h : Sound layerNum s) (hc : s.calculateThread = .spin kind i) :
    CanStill layerNum s fun s' => s'.ready (kind, i) = true := by
  induction hn : s.work using Nat.strong_induction_on generalizing s with
  | _ n ih =>
    cases hlow : s.ready (kind, i) with
    | true => exact canStill_now hlow
    | false =>
      obtain ⟨e, s', hturn, hs, hsame, hlt⟩ := h.goes_on hc hlow
      exact (ih _ (hn ▸ hlt) (h.keep hturn hs) (hsame.trans hc) rfl).next hs

/-- The handshake holds over every run in which the parameters of a step are set after the reset of the
step before, the first flag of a step with block representations does not come between two reads of
`CheckDataStatus`, and the destructor does not start where `Calculate` is to go to sleep or is to
wait for requests that are not handled any more. -/
theorem handshakes (layerNum : Nat) (s : CalKpreAndTopk)
    (h : Reach (step layerNum) (fun s e => s.inTurn e = true) start s) : Handshake layerNum s := by
  have hsound := sound_of_reach h
  refine ⟨hsound.lost, fun kind i hc hlow => ⟨hsound.pending_of_spin hc hlow, hsound.can_raise hc⟩, fun hd => ?_,
    fun hd => ?_⟩
  · have hrunning : s.running = false := Bool.eq_false_iff.mpr fun hr => by
      rw [hsound.closing.running.mp hr] at hd
      cases hd
    have hleaves := hsound.closing.leaves hrunning
    cases hc : s.calculateThread with
    | asleep | locking =>
      simp only [leaves, hc] at hleaves
      cases hleaves
    | spin kind i => exact hsound.can_raise hc
    | _ => exact canStill_now trivial
  · have hended := hsound.closing.joined (by simp [hd]) (by simp [hd])
    cases hc : s.copyThread with
    | pop => exact canStill_now (Or.inr (hsound.closing.joinCopy hd))
    | lock r => exact canStill_now (by rw [CopyData.Awaits, hended]; rfl)
    | _ => exact canStill_now trivial

/-- A run of two steps over one layer and of the destructor, which starts while the second step is computed. -/
def twoSteps : List Event :=
  [.isCalculateFinish, .setParam false [0], .addCopyReq] ++ List.replicate 8 (.copyData ⟨false, 0, [], 0⟩) ++
    List.replicate 17 .calculate ++ [.isCalculateFinish, .setParam true [0], .addCopyReq, .addCopyReq] ++
    List.replicate 13 (.copyData ⟨false, 0, [], 0⟩) ++ List.replicate 5 .calculate ++ [.destroy] ++
    List.replicate 16 .calculate ++ [.join, .join]

theorem handshakes_two : ∃ s, Reach (step 1) (fun s e => s.inTurn e = true) start s ∧
    s.destructor = .joinCopy ∧ s.begun = 2 ∧ Handshake 1 s := by
  have hrun : (run (checked inTurn (step 1)) start twoSteps).map (fun s => (s.destructor, s.begun)) =
      some (.joinCopy, 2) := by
    decide +kernel
  obtain ⟨s, hs, heq⟩ := Option.map_eq_some_iff.mp hrun
  obtain ⟨hd, hb⟩ := Prod.mk.inj heq
  have hreach := Reach.start.checked (fun _ _ h => h) hs
  exact ⟨s, hreach, hd, hb, handshakes 1 s hreach⟩

/-- What `pop` finds plays no part in these runs. -/
def copies (n : Nat) : List Event := List.replicate n (.copyData ⟨false, 0, [], 0⟩)

/-- `Calculate` is done with the only layer of the first step and not with `ResetReady`, when the parameters of
the next step are set. -/
def earlyStep : List Event :=
  [.isCalculateFinish, .setParam false [0], .addCopyReq] ++ copies 8 ++ List.replicate 11 .calculate ++
    [.isCalculateFinish, .setParam true [0], .addCopyReq] ++ copies 5 ++ [.calculate]

/-- `CheckDataStatus` reads `m_needCalPre` before the first request of a step is handled, and the ready flag after it. -/
def tornCheck : List Event :=
  List.replicate 4 .calculate ++ [.isCalculateFinish, .setParam true [0], .addCopyReq, .addCopyReq] ++ copies 5 ++
    List.replicate 2 .calculate

/-- `Calculate` sleeps when the destructor starts. -/
def destroyAsleep : List Event := List.replicate 5 .calculate ++ [.destroy]

/-- What no step makes false holds at the end of a run. -/
theorem run_keeps {Q : CalKpreAndTopk → Prop} (hkeep : ∀ s e s', Q s → s.step layerNum e = some s' → Q s')
    {es : List Event} (hs : run (step layerNum) s es = some s') (h : Q s) : Q s' := by
  induction es generalizing s with
  | nil => exact Option.some.inj hs ▸ h
  | cons e es ih =>
    obtain ⟨t, ht, hs⟩ := Option.bind_eq_some_iff.mp hs
    exact ih hs (hkeep s e t h ht)

theorem running_off (hs : s.step layerNum e = some s') (h : s.running = false) : s'.running = false := by
  cases e with
  | copyData popped => exact (copyNext_frame hs).1.trans h
  | calculate => exact (calculateNext_frame hs).1.trans h
  | destroy =>
    simp only [step] at hs
    split at hs
    · cases hs
      rfl
    · cases hs
  | _ =>
    simp only [step] at hs
    split at hs <;> (try split at hs) <;> cases hs <;> exact h

/-- Where `Calculate` is in its wait once `m_running` is off, it waits forever. -/
theorem asleep_forever (hrunning : s.running = false) (hc : s.calculateThread = .asleep) :
    ¬ CanStill layerNum s s.calculateThread.Awaits := by
  rintro ⟨es, s', hrun, hawaits⟩
  rw [hc] at hawaits
  have hon : s'.running = true := hawaits.1
  have hoff := run_keeps (fun _ _ _ h hs => running_off hs h) hrun hrunning
  rw [hoff] at hon
  cases hon

/-- `Calculate` waits for the first representations with the lock that `CopyData` needs to have them ready. -/
structure Blocked (s : CalKpreAndTopk) : Prop where
  spins : s.calculateThread = .spin .k 0
  low : s.ready (.k, 0) = false
  free : s.copyThread.holds = false
  other : ∀ r, s.copyThread.storing = some r → r.flag ≠ (.k, 0)

theorem Blocked.copyData {popped : CopyInfo} (h : Blocked s) (hs : s.copyNext popped = some s') : Blocked s' := by
  have hspins := (copyNext_frame hs).2.2.1.trans h.spins
  cases hc : s.copyThread with
  | top =>
    simp only [copyNext, hc] at hs
    cases hs
    refine ⟨hspins, h.low, ?_, fun r hr => ?_⟩
    · cases s.running <;> rfl
    · cases hr' : s.running <;> simp [goCopy, hr', CopyData.storing] at hr
  | pop =>
    simp only [copyNext, hc] at hs
    split at hs
    · cases hs
      exact ⟨hspins, h.low, rfl, fun r hr => by cases hr⟩
    · split at hs
      · cases hs
        exact ⟨hspins, h.low, rfl, fun r hr => by cases hr⟩
      · cases hs
  | start r =>
    simp only [copyNext, hc] at hs
    cases hs
    exact ⟨hspins, h.low, rfl, fun r hr => by cases hr⟩
  | branch r =>
    simp only [copyNext, hc] at hs
    cases hs
    split_ifs at hspins ⊢ with ht
    · exact ⟨hspins, h.low, rfl, fun r hr => by cases hr⟩
    · refine ⟨hspins, h.low, rfl, fun r' hr => ?_⟩
      rintro hf
      obtain rfl : r = r' := Option.some.inj hr
      obtain ⟨hkind, hlayer⟩ := Prod.mk.inj hf
      simp [takesLock, hkind, hlayer] at ht
  | lock r =>
    simp only [copyNext, hc, h.spins] at hs
    cases hs
  | store r held =>
    have hheld : held = false := by
      have hfree := h.free
      rw [hc] at hfree
      exact hfree
    have hne := h.other r (by rw [hc, hheld]; rfl)
    simp only [copyNext, hc, hheld] at hs
    cases hs
    refine ⟨hspins, ?_, rfl, fun r hr => by cases hr⟩
    show Function.update s.ready r.flag true (.k, 0) = false
    rw [Function.update_of_ne hne.symm]
    exact h.low
  | locked r | notify =>
    have hfree := h.free
    rw [hc] at hfree
    cases hfree
  | ended =>
    simp only [copyNext, hc] at hs
    cases hs

theorem Blocked.keep (h : Blocked s) (hs : s.step layerNum e = some s') : Blocked s' := by
  cases e with
  | copyData popped => exact h.copyData hs
  | calculate =>
    simp only [step, calculateNext, h.spins, h.low] at hs
    cases hs
  | _ =>
    simp only [step] at hs
    split at hs <;> (try split at hs) <;> cases hs <;> exact { h with }

theorem Blocked.forever (h : Blocked s) : ¬ CanStill layerNum s fun s' => s'.ready (.k, 0) = true := by
  rintro ⟨es, s', hrun, hready⟩
  rw [(run_keeps (fun _ _ _ h hs => Blocked.keep h hs) hrun h).low] at hready
  cases hready

/-- The flag of the next step is reset, the wait for representations has no end, and the destructor waits
for a thread that sleeps. -/
theorem handshake_breaks :
    (∃ s, Reach (step 1) (fun _ _ => True) start s ∧ s.lost = [((.q, 0), 2)] ∧ ¬ Handshake 1 s) ∧
    (∃ s, Reach (step 1) (fun _ _ => True) start s ∧ s.running = true ∧ s.calculateThread = .spin .k 0 ∧
      ¬ CanStill 1 s (fun s' => s'.ready (.k, 0) = true) ∧ ¬ Handshake 1 s) ∧
    ∃ s, Reach (step 1) (fun _ _ => True) start s ∧ s.destructor = .joinCalculate ∧
      ¬ CanStill 1 s s.calculateThread.Awaits ∧ ¬ Handshake 1 s := by
  refine ⟨?_, ?_, ?_⟩
  · have hrun : (run (step 1) start earlyStep).map (fun s => s.lost) = some [((.q, 0), 2)] := by decide +kernel
    obtain ⟨s, hs, hlost⟩ := Option.map_eq_some_iff.mp hrun
    refine ⟨s, Reach.start.run (fun _ _ _ => trivial) hs, hlost, fun h => ?_⟩
    rw [h.lost] at hlost
    cases hlost
  · have hrun : (run (step 1) start tornCheck).map
        (fun s => (s.running, s.calculateThread, s.ready (.k, 0), s.copyThread)) =
        some (true, .spin .k 0, false, .top) := by
      decide +kernel
    obtain ⟨s, hs, heq⟩ := Option.map_eq_some_iff.mp hrun
    simp only [Prod.mk.injEq] at heq
    obtain ⟨hrunning, hc, hlow, hcopy⟩ := heq
    have hblocked : Blocked s := ⟨hc, hlow, by rw [hcopy]; rfl, fun r hr => by rw [hcopy] at hr; cases hr⟩
    exact ⟨s, Reach.start.run (fun _ _ _ => trivial) hs, hrunning, hc, hblocked.forever,
      fun h => hblocked.forever (h.awaited _ _ hc hlow).2⟩
  · have hrun : (run (step 1) start destroyAsleep).map (fun s => (s.running, s.calculateThread, s.destructor)) =
        some (false, .asleep, .joinCalculate) := by
      decide +kernel
    obtain ⟨s, hs, heq⟩ := Option.map_eq_some_iff.mp hrun
    simp only [Prod.mk.injEq] at heq
    obtain ⟨hrunning, hc, hd⟩ := heq
    exact ⟨s, Reach.start.run (fun _ _ _ => trivial) hs, hd, asleep_forever hrunning hc,
      fun h => asleep_forever hrunning hc (h.joinCalculate hd)⟩

end UnifiedCache.Sparse.TopkPipeline.CalKpreAndTopk
