import UnifiedCache.Infra.ThreadPoolSupervision

/-! The tasks that are blamed for a timeout. The monitor reads the start time and the task of a
worker one after the other; a task is blamed for its own call when both are still those of the
call that the worker is in. -/

namespace UnifiedCache.Infra.ThreadPool

open StepSystem

/-- The task that the monitor has got from a worker. -/
def Stage.task? : Stage → Option Nat
  | locked _ task => task
  | overdue task => some task
  | blamed task => some task
  | start => none
  | loaded _ => none
  | stopped => none

def Blame.Justified (config : Config) (b : Blame) : Prop :=
  b.returned = false ∧ ∃ started, b.started = some started ∧ started + config.timeoutMs < b.time

namespace Pool

variable {config : Config} {s s' : Pool} {e : Event} {w : Nat}

/-- The monitor has blamed the task of a worker and not yet asked it to stop. -/
def Blaming (s : Pool) (w : Nat) : Prop :=
  ∃ it task, s.monitor = .scanning it (.blamed task) ∧ s.workers[it]? = some w

/-- A task is blamed once, as its worker is taken out then. -/
structure BlamedOnce (s : Pool) : Prop where
  nodup : (s.blamed.map Blame.task).Nodup
  stopped : ∀ b ∈ s.blamed, ∃ w, b.task ∈ (s.worker w).taken ∧ ((s.worker w).stop = true ∨ s.Blaming w)
  task : ∀ it stage w task, s.monitor = .scanning it stage → s.workers[it]? = some w → stage.task? = some task →
    task ∈ (s.worker w).taken

theorem blamedOnce_start (config : Config) : BlamedOnce (start config) :=
  ⟨List.nodup_nil, fun _ hb => (by cases hb), fun _ _ _ _ hm => (by cases hm)⟩

/-- The workers and the queue go on, with the monitor where it is. -/
theorem BlamedOnce.frame (h : BlamedOnce s) (hm : s'.monitor = s.monitor) (hl : s'.workers = s.workers)
    (hb : s'.blamed = s.blamed) (hstop : ∀ w, (s'.worker w).stop = (s.worker w).stop)
    (htaken : ∀ w, (s.worker w).taken ⊆ (s'.worker w).taken) : BlamedOnce s' := by
  refine ⟨by rw [hb]; exact h.nodup, fun b hmem => ?_, fun it stage w task hmon hw ht => ?_⟩
  · rw [hb] at hmem
    obtain ⟨w, ht, hor⟩ := h.stopped b hmem
    refine ⟨w, htaken w ht, ?_⟩
    rw [hstop]
    unfold Blaming at hor ⊢
    rwa [hm, hl]
  · rw [hm] at hmon
    rw [hl] at hw
    exact htaken w (h.task it stage w task hmon hw ht)

/-- The monitor goes on, and is not between the blame of a task and the request to stop. -/
theorem BlamedOnce.go (h : BlamedOnce s) (hnot : ∀ w, ¬ s.Blaming w) (hb : s'.blamed = s.blamed)
    (hworker : s'.worker = s.worker) (htask : ∀ it stage w task, s'.monitor = .scanning it stage →
      s'.workers[it]? = some w → stage.task? = some task → task ∈ (s.worker w).taken) : BlamedOnce s' := by
  refine ⟨by rw [hb]; exact h.nodup, fun b hmem => ?_, by rw [hworker]; exact htask⟩
  rw [hb] at hmem
  obtain ⟨w, ht, hor⟩ := h.stopped b hmem
  rw [hworker]
  exact ⟨w, ht, Or.inl (hor.resolve_right (hnot w))⟩

/-- The monitor has nothing of a worker. -/
theorem BlamedOnce.leave (h : BlamedOnce s) (hnot : ∀ w, ¬ s.Blaming w) (hb : s'.blamed = s.blamed)
    (hworker : s'.worker = s.worker) (hnone : ∀ it stage, s'.monitor = .scanning it stage → stage.task? = none) :
    BlamedOnce s' :=
  h.go hnot hb hworker fun it stage w task hm _ ht => by
    rw [hnone it stage hm] at ht
    cases ht

theorem not_blaming {m : Monitor} (hm : s.monitor = m) (hne : ∀ it task, m ≠ .scanning it (.blamed task)) (w : Nat) :
    ¬ s.Blaming w := by
  rintro ⟨it, task, hm', -⟩
  exact hne it task (hm.symm.trans hm')

theorem taken_setWorker {wk : Worker} (h : (s.worker w).taken ⊆ wk.taken) (w' : Nat) :
    (s.worker w').taken ⊆ ((s.setWorker w wk).worker w').taken := by
  rw [worker_setWorker]
  split_ifs with he
  · exact he ▸ h
  · exact List.Subset.refl _

theorem Step.blamedOnce (hs : Step config s e s') (hl : Listing config s) (ht : Tasks s) (h : BlamedOnce s) :
    BlamedOnce s' := by
  cases hs with
  | push n => exact h.frame rfl rfl rfl (fun _ => rfl) fun _ => List.Subset.refl _
  | tick => exact h.frame rfl rfl rfl (fun _ => rfl) fun _ => List.Subset.refl _
  | take hw hphase hq =>
    exact h.frame rfl rfl rfl (stop_setWorker rfl) (taken_setWorker (List.subset_append_left _ _))
  | call hw hphase => exact h.frame rfl rfl rfl (stop_setWorker rfl) (taken_setWorker (List.Subset.refl _))
  | returns hw hphase => exact h.frame rfl rfl rfl (stop_setWorker rfl) (taken_setWorker (List.Subset.refl _))
  | turn hw hturn =>
    exact h.frame rfl rfl rfl (stop_setWorker hturn.stop) (taken_setWorker (by rw [hturn.taken]; exact List.Subset.refl _))
  | wake hm =>
    refine h.leave (not_blaming hm fun _ _ => by simp) rfl rfl fun it stage he => ?_
    obtain ⟨-, rfl⟩ := Monitor.scanning.inj he
    rfl
  | load hm hw =>
    refine h.leave (not_blaming hm fun _ _ => by simp) rfl rfl fun it stage he => ?_
    obtain ⟨-, rfl⟩ := Monitor.scanning.inj he
    rfl
  | @lock it w tp hm hw =>
    refine h.go (not_blaming hm fun _ _ => by simp) rfl rfl fun it' stage w' task he hw' htask => ?_
    obtain ⟨rfl, rfl⟩ := Monitor.scanning.inj he
    obtain rfl := Option.some.inj (hw.symm.trans hw')
    change (s.worker w).lock = some task at htask
    unfold Worker.lock at htask
    split_ifs at htask
    exact (ht.sound w).current task htask
  | @overdue it w tp task hm hw hover =>
    refine h.go (not_blaming hm fun _ _ => by simp) rfl rfl fun it' stage w' task' he hw' htask => ?_
    obtain ⟨rfl, rfl⟩ := Monitor.scanning.inj he
    exact h.task it _ w' task' hm hw' htask
  | pass hm hw =>
    refine h.leave (not_blaming hm fun _ _ => by simp) rfl rfl fun it stage he => ?_
    obtain ⟨-, rfl⟩ := Monitor.scanning.inj he
    rfl
  | @blame it w task hm hw =>
    have htaken : task ∈ (s.worker w).taken := h.task it _ w task hm hw rfl
    have hactive : s.active = s.workers := by rw [active, hm]
    have hrunning : (s.worker w).stop = false := ((hl.active w).mp (hactive ▸ List.mem_of_getElem? hw)).2
    have hnot : ∀ w', ¬ s.Blaming w' := not_blaming hm fun _ _ => by simp
    have hnew : task ∉ s.blamed.map Blame.task := by
      intro hmem
      obtain ⟨b, hb, rfl⟩ := List.mem_map.mp hmem
      obtain ⟨w', hw', hor⟩ := h.stopped b hb
      obtain rfl := ht.eq_of_taken htaken hw'
      rw [hor.resolve_right (hnot _)] at hrunning
      cases hrunning
    refine ⟨?_, fun b hb => ?_, fun it' stage w' task' he hw' htask => ?_⟩
    · change ((s.blamed ++ [_]).map Blame.task).Nodup
      rw [List.map_append]
      exact List.nodup_append.mpr ⟨h.nodup, List.nodup_singleton _, fun a ha b hb hab => by
        rw [List.map_singleton, List.mem_singleton] at hb
        exact hnew (by rw [hab, hb] at ha; exact ha)⟩
    · rcases List.mem_append.mp hb with hb | hb
      · obtain ⟨w', hw', hor⟩ := h.stopped b hb
        exact ⟨w', hw', Or.inl (hor.resolve_right (hnot w'))⟩
      · rw [List.mem_singleton.mp hb]
        exact ⟨w, htaken, Or.inr ⟨it, task, rfl, hw⟩⟩
    · obtain ⟨rfl, rfl⟩ := Monitor.scanning.inj he
      exact h.task it _ w' task' hm hw' htask
  | @requestStop it w task hm hw =>
    have hworker : ∀ w', ((s.setWorker w { s.worker w with stop := true }).worker w').taken =
        (s.worker w').taken := fun w' => by
      rw [worker_setWorker]
      split_ifs with he
      · rw [he]
      · rfl
    refine ⟨h.nodup, fun b hb => ?_, fun it' stage w' task' he _ htask => ?_⟩
    · obtain ⟨w', hw', hor⟩ := h.stopped b hb
      refine ⟨w', by rw [← hworker w'] at hw'; exact hw', Or.inl ?_⟩
      change ((s.setWorker w _).worker w').stop = true
      rw [worker_setWorker]
      split_ifs with he
      · rfl
      · refine hor.resolve_right ?_
        rintro ⟨it', task', hm', hget⟩
        rw [hm] at hm'
        obtain ⟨rfl, -⟩ := Monitor.scanning.inj hm'
        exact he (Option.some.inj (hw.symm.trans hget)).symm
    · obtain ⟨rfl, rfl⟩ := Monitor.scanning.inj he
      cases htask
  | erase hm hw =>
    refine h.leave (not_blaming hm fun _ _ => by simp) rfl rfl fun it stage he => ?_
    obtain ⟨-, rfl⟩ := Monitor.scanning.inj he
    rfl
  | @scanned it stage hm hw =>
    refine h.leave (fun w => ?_) rfl rfl fun it stage he => by cases he
    rintro ⟨it', task, hm', hget⟩
    rw [hm] at hm'
    obtain ⟨rfl, -⟩ := Monitor.scanning.inj hm'
    rw [hw] at hget
    cases hget
  | added hm hi => exact h.leave (not_blaming hm fun _ _ => by simp) rfl rfl fun it stage he => by cases he
  | list hm => exact h.leave (not_blaming hm fun _ _ => by simp) rfl rfl fun it stage he => by cases he
  | create hm hi =>
    have hself : s.setWorker s.created Worker.fresh = s := by
      rw [Pool.setWorker, ← ht.fresh s.created le_rfl, Function.update_eq_self]
    rw [hself]
    exact h.leave (not_blaming hm fun _ _ => by simp) rfl rfl fun it stage he => by cases he
  | notCreated hm hi => exact h.leave (not_blaming hm fun _ _ => by simp) rfl rfl fun it stage he => by cases he

/-- Nothing comes between what the monitor reads of an overdue worker and the callback, or between
the start time of a call and the call. -/
def undisturbed (config : Config) (s : Pool) : Event → Bool
  | .work w =>
    match (s.worker w).phase with
    -- `fn_` is called at the clock reading that was stored.
    | .stamped _ => (s.worker w).tp = some s.clock
    -- `fn_` does not return once the worker was found overdue.
    | .calling _ =>
      match s.monitor with
      | .scanning it (.overdue _) => s.workers[it]? ≠ some w
      | _ => true
    | _ => true
  | .monitor =>
    match s.monitor with
    -- An overdue worker is still in the call that its start time and its task were read of.
    | .scanning it (.locked (some tp) (some task)) =>
      !decide (Overdue config tp s.clock) ||
        s.workers[it]?.all fun w => decide ((s.worker w).phase = .calling task ∧ (s.worker w).tp = some tp)
    | _ => true
  | _ => true

/-- A call of `fn_` has the start time that its worker stored, and a task that was found overdue is in
its call. -/
structure Measured (config : Config) (s : Pool) : Prop where
  calling : ∀ w task, (s.worker w).phase = .calling task → s.started task = (s.worker w).tp ∧ task ∉ s.returned
  overdue : ∀ it w task, s.monitor = .scanning it (.overdue task) → s.workers[it]? = some w →
    (s.worker w).phase = .calling task ∧ ∃ tp, (s.worker w).tp = some tp ∧ tp + config.timeoutMs < s.clock
  returned : ∀ task ∈ s.returned, task ∈ s.handed
  justified : ∀ b ∈ s.blamed, b.Justified config

theorem measured_start (config : Config) : Measured config (start config) :=
  ⟨fun _ _ h => (by cases h), fun _ _ _ h => (by cases h), fun _ h => (by cases h), fun _ h => (by cases h)⟩

/-- A worker goes on outside of its call. -/
theorem Measured.setWorker (h : Measured config s) (wk : Worker) (hbefore : ∀ task, (s.worker w).phase ≠ .calling task)
    (hafter : ∀ task, wk.phase ≠ .calling task) : Measured config (s.setWorker w wk) := by
  refine ⟨fun w' task hphase => ?_, fun it w' task hm hw => ?_, h.returned, h.justified⟩
  · rw [worker_setWorker] at hphase ⊢
    split_ifs at hphase ⊢
    · exact absurd hphase (hafter task)
    · exact h.calling w' task hphase
  · have hover := h.overdue it w' task hm hw
    have hne : w' ≠ w := fun he => hbefore task (he ▸ hover.1)
    rw [worker_setWorker, if_neg hne]
    exact hover

/-- The monitor goes on, and has found no worker overdue. -/
theorem Measured.go (h : Measured config s) {m : Monitor} (hm : ∀ it task, m ≠ .scanning it (.overdue task)) :
    Measured config (s.setMonitor m) :=
  ⟨h.calling, fun it _ task he => absurd he (hm it task), h.returned, h.justified⟩

theorem Step.measured (hs : Step config s e s') (ht : Tasks s) (hok : undisturbed config s e = true)
    (h : Measured config s) : Measured config s' := by
  cases hs with
  | push n => exact ⟨h.calling, h.overdue, h.returned, h.justified⟩
  | tick =>
    refine ⟨h.calling, fun it w task hm hw => ?_, h.returned, h.justified⟩
    obtain ⟨hphase, tp, htp, hlt⟩ := h.overdue it w task hm hw
    exact ⟨hphase, tp, htp, hlt.trans (Nat.lt_succ_self _)⟩
  | @take w task taskQ hw hphase hq =>
    have hset := h.setWorker (w := w) { s.worker w with phase := .took task, taken := (s.worker w).taken ++ [task] }
      (by simp [hphase]) (by simp)
    exact ⟨hset.calling, hset.overdue, hset.returned, hset.justified⟩
  | @call w task hw hphase =>
    simp only [undisturbed, hphase, decide_eq_true_iff] at hok
    have hhand : (s.worker w).phase.hand = some task := by
      rw [hphase]
      rfl
    have htaken : task ∈ (s.worker w).taken := (ht.sound w).task task (Phase.task?_of_hand hhand)
    have hnew : task ∉ s.returned := fun hm => by
      obtain ⟨w', hm, hne⟩ := (ht.handed task).mp (h.returned task hm)
      rw [ht.eq_of_taken hm htaken] at hne
      exact hne hhand
    refine ⟨fun w' task' hphase' => ?_, fun it w' task' hm hw' => ?_, fun t hm => List.mem_append_left _ (h.returned t hm),
      h.justified⟩
    · change ((s.setWorker w _).worker w').phase = _ at hphase'
      change Function.update s.started task (some s.clock) task' = ((s.setWorker w _).worker w').tp ∧ _
      rw [worker_setWorker] at hphase' ⊢
      split_ifs at hphase' ⊢ with he
      · obtain rfl := Phase.calling.inj hphase'
        rw [Function.update_self]
        exact ⟨hok.symm, hnew⟩
      · have hne : task' ≠ task := by
          rintro rfl
          refine he (ht.eq_of_taken ((ht.sound w').task task' ?_) htaken)
          rw [hphase']
          rfl
        rw [Function.update_of_ne hne]
        exact h.calling w' task' hphase'
    · have hover := h.overdue it w' task' hm hw'
      have hne : w' ≠ w := by
        rintro rfl
        rw [hphase] at hover
        cases hover.1
      change ((s.setWorker w _).worker w').phase = _ ∧ ∃ tp, ((s.setWorker w _).worker w').tp = some tp ∧ _
      rw [worker_setWorker, if_neg hne]
      exact hover
  | @returns w task hw hphase =>
    have htaken : task ∈ (s.worker w).taken := (ht.sound w).task task (by rw [hphase]; rfl)
    have hhanded : task ∈ s.handed := (ht.handed task).mpr ⟨w, htaken, by rw [hphase]; simp [Phase.hand]⟩
    have hnot : ∀ w' task', w' ≠ w → (s.worker w').phase = .calling task' → task' ≠ task := by
      rintro w' task' hne hphase' rfl
      exact hne (ht.eq_of_taken ((ht.sound w').task task' (by rw [hphase']; rfl)) htaken)
    refine ⟨fun w' task' hphase' => ?_, fun it w' task' hm hw' => ?_, fun t hm => ?_, h.justified⟩
    · change ((s.setWorker w _).worker w').phase = _ at hphase'
      change s.started task' = ((s.setWorker w _).worker w').tp ∧ task' ∉ s.returned ++ [task]
      rw [worker_setWorker] at hphase' ⊢
      split_ifs at hphase' ⊢ with he
      obtain ⟨hstart, hret⟩ := h.calling w' task' hphase'
      refine ⟨hstart, fun hm => ?_⟩
      rcases List.mem_append.mp hm with hm | hm
      · exact hret hm
      · exact hnot w' task' he hphase' (List.mem_singleton.mp hm)
    · have hmon : s.monitor = .scanning it (.overdue task') := hm
      simp only [undisturbed, hphase, hmon, decide_eq_true_iff] at hok
      have hne : w' ≠ w := fun he => hok (he ▸ hw')
      change ((s.setWorker w _).worker w').phase = _ ∧ ∃ tp, ((s.setWorker w _).worker w').tp = some tp ∧ _
      rw [worker_setWorker, if_neg hne]
      exact h.overdue it w' task' hm hw'
    · rcases List.mem_append.mp hm with hm | hm
      · exact h.returned t hm
      · rwa [List.mem_singleton.mp hm]
  | @turn w wk hw hturn =>
    exact h.setWorker wk (fun task => (hturn.not_calling task).1) fun task => (hturn.not_calling task).2
  | wake hm | load hm hw | lock hm hw | pass hm hw | scanned hm hw | added hm hi | notCreated hm hi =>
    exact h.go fun it task => by simp
  | @overdue it w tp task hm hw hover =>
    simp only [undisturbed, hm, hw, Option.all_some, Bool.or_eq_true, Bool.not_eq_true', decide_eq_false_iff_not,
      decide_eq_true_iff] at hok
    obtain ⟨hphase, htp⟩ := hok.resolve_left (not_not_intro hover)
    refine ⟨h.calling, fun it' w' task' he hw' => ?_, h.returned, h.justified⟩
    obtain ⟨rfl, hst⟩ := Monitor.scanning.inj he
    obtain rfl := Stage.overdue.inj hst
    obtain rfl := Option.some.inj (hw.symm.trans hw')
    exact ⟨hphase, tp, htp, hover⟩
  | @blame it w task hm hw =>
    obtain ⟨hphase, tp, htp, hlt⟩ := h.overdue it w task hm hw
    obtain ⟨hstart, hret⟩ := h.calling w task hphase
    have hgo := h.go (m := .scanning it (.blamed task)) fun it task => by simp
    refine ⟨hgo.calling, hgo.overdue, hgo.returned, fun b hb => ?_⟩
    rcases List.mem_append.mp hb with hb | hb
    · exact h.justified b hb
    · rw [List.mem_singleton.mp hb]
      exact ⟨decide_eq_false hret, tp, hstart.trans htp, hlt⟩
  | @requestStop it w task hm hw =>
    refine ⟨fun w' task' hphase => ?_, fun it' _ task' he => (by cases he), h.returned, h.justified⟩
    change ((s.setWorker w _).worker w').phase = _ at hphase
    change s.started task' = ((s.setWorker w _).worker w').tp ∧ _
    rw [worker_setWorker] at hphase ⊢
    split_ifs at hphase ⊢ with he
    · exact he ▸ h.calling w task' hphase
    · exact h.calling w' task' hphase
  | erase hm hw => exact ⟨h.calling, fun it _ task he => (by cases he), h.returned, h.justified⟩
  | list hm => exact ⟨h.calling, fun it _ task he => (by cases he), h.returned, h.justified⟩
  | create hm hi =>
    have hself : s.setWorker s.created Worker.fresh = s := by
      rw [Pool.setWorker, ← ht.fresh s.created le_rfl, Function.update_eq_self]
    rw [hself]
    exact ⟨h.calling, fun it _ task he => (by cases he), h.returned, h.justified⟩

/-- Every task that was pushed is queued, in the hand of one worker, or was handed to `fn_` once. -/
structure Accounted (s : Pool) : Prop where
  queue : s.taskQ.Nodup
  handed : s.handed.Nodup
  covers : ∀ task, task < s.pushed ↔
    task ∈ s.taskQ ∨ (∃ w, (s.worker w).phase.hand = some task) ∨ task ∈ s.handed
  queued : ∀ task ∈ s.taskQ, task ∉ s.handed ∧ ∀ w, (s.worker w).phase.hand ≠ some task
  inHand : ∀ w task, (s.worker w).phase.hand = some task → task ∉ s.handed ∧
    ∀ w', (s.worker w').phase.hand = some task → w' = w

theorem Tasks.accounted (h : Tasks s) : Accounted s := by
  have htaken : ∀ w task, (s.worker w).phase.hand = some task → task ∈ (s.worker w).taken := fun w task hh =>
    (h.sound w).task task (Phase.task?_of_hand hh)
  have hnot : ∀ w task, (s.worker w).phase.hand = some task → task ∉ s.handed := by
    intro w task hh hm
    obtain ⟨w', hm, hne⟩ := (h.handed task).mp hm
    rw [h.eq_of_taken hm (htaken w task hh)] at hne
    exact hne hh
  refine ⟨h.shares.nodup none, h.nodup, fun task => (h.shares.cover task).trans ?_, fun task hq => ⟨?_, ?_⟩,
    fun w task hh => ⟨hnot w task hh, fun w' hh' => h.eq_of_taken (htaken w' task hh') (htaken w task hh)⟩⟩
  · constructor
    · rintro ⟨k, hk⟩
      cases k with
      | none => exact Or.inl hk
      | some w =>
        by_cases hh : (s.worker w).phase.hand = some task
        · exact Or.inr (Or.inl ⟨w, hh⟩)
        · exact Or.inr (Or.inr ((h.handed task).mpr ⟨w, hk, hh⟩))
    · rintro (hq | ⟨w, hh⟩ | hm)
      · exact ⟨none, hq⟩
      · exact ⟨some w, htaken w task hh⟩
      · obtain ⟨w, hm, -⟩ := (h.handed task).mp hm
        exact ⟨some w, hm⟩
  · intro hm
    obtain ⟨w, hm, -⟩ := (h.handed task).mp hm
    cases h.shares.disjoint none (some w) task hq hm
  · intro w hh
    cases h.shares.disjoint none (some w) task hq (htaken w task hh)

theorem run_work {s₁ : Pool} {task : Nat} (hs : s.step config (.work w) = some s₁)
    (h : ∃ n s', run (step config) s₁ (List.replicate n (.work w)) = some s' ∧ task ∈ s'.handed) :
    ∃ n s', run (step config) s (List.replicate n (.work w)) = some s' ∧ task ∈ s'.handed := by
  obtain ⟨n, s', hrun, hm⟩ := h
  exact ⟨n + 1, s', by rw [List.replicate_succ, run, hs]; exact hrun, hm⟩

theorem worker_self (s : Pool) (w : Nat) (wk : Worker) : (s.setWorker w wk).worker w = wk := by
  rw [worker_setWorker, if_pos rfl]

section Hands

variable {task : Nat} (hw : w < s.created)
include hw

theorem hands_stamped (hphase : (s.worker w).phase = .stamped task) :
    ∃ n s', run (step config) s (List.replicate n (.work w)) = some s' ∧ task ∈ s'.handed := by
  have hwork : s.work w = some { s.setWorker w { s.worker w with phase := .calling task } with
      handed := s.handed ++ [task]
      started := Function.update s.started task (some s.clock) } := by
    simp only [work, hphase]
  exact run_work ((if_pos hw).trans hwork) ⟨0, _, rfl, List.mem_append_right _ List.mem_cons_self⟩

theorem hands_clocked {now : Nat} (hphase : (s.worker w).phase = .clocked task now) :
    ∃ n s', run (step config) s (List.replicate n (.work w)) = some s' ∧ task ∈ s'.handed := by
  have hwork : s.work w = some (s.setWorker w { s.worker w with phase := .stamped task, tp := some now }) := by
    simp only [work, hphase]
  exact run_work ((if_pos hw).trans hwork) (hands_stamped hw (by rw [worker_self]))

theorem hands_assigned (hphase : (s.worker w).phase = .assigned task) :
    ∃ n s', run (step config) s (List.replicate n (.work w)) = some s' ∧ task ∈ s'.handed := by
  have hwork : s.work w = some (s.setWorker w { s.worker w with phase := .clocked task s.clock }) := by
    simp only [work, hphase]
  exact run_work ((if_pos hw).trans hwork) (hands_clocked hw (by rw [worker_self]))

theorem hands_took (hphase : (s.worker w).phase = .took task) :
    ∃ n s', run (step config) s (List.replicate n (.work w)) = some s' ∧ task ∈ s'.handed := by
  have hwork : s.work w =
      some (s.setWorker w { s.worker w with phase := .assigned task, current := some task }) := by
    simp only [work, hphase]
  exact run_work ((if_pos hw).trans hwork) (hands_assigned hw (by rw [worker_self]))

/-- A worker hands over the task that it took, whether it is asked to stop or not. -/
theorem hands_over (hhand : (s.worker w).phase.hand = some task) :
    ∃ n s', run (step config) s (List.replicate n (.work w)) = some s' ∧ task ∈ s'.handed := by
  cases hphase : (s.worker w).phase with
  | took t =>
    rw [hphase] at hhand
    obtain rfl := Option.some.inj hhand
    exact hands_took hw hphase
  | assigned t =>
    rw [hphase] at hhand
    obtain rfl := Option.some.inj hhand
    exact hands_assigned hw hphase
  | clocked t now =>
    rw [hphase] at hhand
    obtain rfl := Option.some.inj hhand
    exact hands_clocked hw hphase
  | stamped t =>
    rw [hphase] at hhand
    obtain rfl := Option.some.inj hhand
    exact hands_stamped hw hphase
  | waiting | calling _ | returned _ | goesOn _ | unassigned _ | exited =>
    rw [hphase] at hhand
    cases hhand

end Hands

/-- The workers that are not asked to stop. -/
def running (s : Pool) : List Nat := (List.range s.created).filter fun w => !(s.worker w).stop

theorem Listing.length_running (h : Listing config s) (hm : s.monitor = .sleeping true) :
    s.running.length = config.nWorker := by
  have hactive : s.active = s.workers := by rw [Pool.active, hm]
  have hperm : s.running.Perm s.workers := by
    refine (List.perm_ext_iff_of_nodup (List.nodup_range.filter _) h.nodup).mpr fun w => ?_
    rw [← hactive, h.active w, List.mem_filter, List.mem_range, Bool.not_eq_true']
  have hsized := h.sized
  unfold Sized at hsized
  rw [hm] at hsized
  rw [hperm.length_eq]
  exact hsized.2 rfl

theorem inv_of_reach {guard : Pool → Event → Prop} (h : Reach (step config) guard (start config) s) :
    Tasks s ∧ Listing config s ∧ BlamedOnce s :=
  h.invariant (fun s => Tasks s ∧ Listing config s ∧ BlamedOnce s)
    ⟨tasks_start config, listing_start config, blamedOnce_start config⟩ fun s e s' ⟨ht, hl, hb⟩ _ hs => by
      have hs := step_inv hs
      exact ⟨hs.tasks hl.lt ht, hs.listing hl, hs.blamedOnce hl ht hb⟩

theorem measured_of_reach (h : Reach (step config) (fun s e => undisturbed config s e = true) (start config) s) :
    Measured config s := by
  have hall := h.invariant (fun s => (Tasks s ∧ Listing config s) ∧ Measured config s)
    ⟨⟨tasks_start config, listing_start config⟩, measured_start config⟩ fun s e s' ⟨⟨ht, hl⟩, hm⟩ hok hs => by
      have hs := step_inv hs
      exact ⟨⟨hs.tasks hl.lt ht, hs.listing hl⟩, hs.measured ht hok hm⟩
  exact hall.2

/-- The tasks, the blame and the list of workers over any run, and what tasks are blamed for in a run
where nothing comes between what the monitor reads of a worker and what it does then. -/
theorem supervises (config : Config) :
    (∀ s, Reach (step config) (fun _ _ => True) (start config) s → Accounted s ∧
      (∀ w task, (s.worker w).phase.hand = some task →
        ∃ n s', run (step config) s (List.replicate n (.work w)) = some s' ∧ task ∈ s'.handed) ∧
      (s.blamed.map Blame.task).Nodup ∧
      (s.monitor = .sleeping true → s.running.length = config.nWorker)) ∧
    ∀ s, Reach (step config) (fun s e => undisturbed config s e = true) (start config) s →
      ∀ b ∈ s.blamed, b.Justified config := by
  refine ⟨fun s h => ?_, fun s h => (measured_of_reach h).justified⟩
  obtain ⟨ht, hl, hb⟩ := inv_of_reach h
  refine ⟨ht.accounted, fun w task hhand => hands_over ?_ hhand, hb.nodup, hl.length_running⟩
  by_contra hw
  rw [ht.fresh w (Nat.le_of_not_lt hw)] at hhand
  cases hhand

/-- One worker, and a timeout of two. -/
def oneWorker : Config := ⟨1, 2⟩

/-- The worker takes a task, and calls `fn_`. -/
def takesTask : List Event := List.replicate 5 (.work 0)

/-- The monitor reads the worker, blames its task and puts another worker in its place. -/
def replacesWorker : List Event := List.replicate 8 .monitor ++ [.create true] ++ List.replicate 2 .monitor

theorem supervises_overdue : ∃ s, Reach (step oneWorker) (fun s e => undisturbed oneWorker s e = true) (start oneWorker) s ∧
    s.blamed = [⟨0, 4, some 1, false⟩] ∧ (∀ b ∈ s.blamed, b.Justified oneWorker) ∧ s.running.length = 1 := by
  let es := [.push 1] ++ takesTask ++ List.replicate 3 .tick ++ replacesWorker
  have hrun : (run (checked (undisturbed oneWorker) (step oneWorker)) (start oneWorker) es).map
      (fun s => (s.blamed, s.monitor)) = some ([⟨0, 4, some 1, false⟩], .sleeping true) := by
    decide +kernel
  obtain ⟨s, hs, heq⟩ := Option.map_eq_some_iff.mp hrun
  obtain ⟨hblamed, hmon⟩ := Prod.mk.inj heq
  have hreach := Reach.start.checked (fun s e h => h) hs
  exact ⟨s, hreach, hblamed, (supervises oneWorker).2 s hreach,
    ((supervises oneWorker).1 s (hreach.mono fun _ _ _ => trivial)).2.2.2 hmon⟩

/-- The start time is that of a task that has returned since, and the task is the next one, for which
`fn_` was not called yet. -/
theorem blames_next_task : ∃ s, Reach (step oneWorker) (fun _ _ => True) (start oneWorker) s ∧
    s.blamed = [⟨1, 4, none, false⟩] ∧ ¬ ∀ b ∈ s.blamed, b.Justified oneWorker := by
  -- The worker ends its first task and takes the second one after the monitor has read its start time.
  let es := [.push 2] ++ takesTask ++ List.replicate 3 .tick ++ List.replicate 2 .monitor ++
    List.replicate 6 (.work 0) ++ List.replicate 3 .monitor
  have hrun : (run (step oneWorker) (start oneWorker) es).map (fun s => s.blamed) = some [⟨1, 4, none, false⟩] := by
    decide +kernel
  obtain ⟨s, hs, hblamed⟩ := Option.map_eq_some_iff.mp hrun
  refine ⟨s, Reach.start.run (fun _ _ _ => trivial) hs, hblamed, fun hall => ?_⟩
  obtain ⟨-, started, hstarted, -⟩ := hall _ (by rw [hblamed]; exact List.mem_cons_self)
  cases hstarted

end Pool

end UnifiedCache.Infra.ThreadPool
