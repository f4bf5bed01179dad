import UnifiedCache.Lib.StepSystem

/-! The start and the rounds of the recycle thread under any interleaving of the triggers. A
critical section of the mutex is one step. -/

namespace UnifiedCache.NfsStore

inductive TriggerStage where
  | idle
  | checking
  | creating
  | locking
  deriving DecidableEq

/-- `waiting` is inside the condition variable. -/
inductive RecyclerStage where
  | starting
  | checking
  | waiting
  | recycling
  | clearing
  | exited
  deriving DecidableEq

/-- `workers` are the threads that were ever created, `accepted` the triggers that found the
worker idle and `rounds` the runs of `DoRecycle`. -/
structure SpaceRecycle (Caller : Type) where
  stop : Bool
  recycling : Bool
  serviceRunning : Bool
  triggers : Caller → TriggerStage
  workers : List RecyclerStage
  terminated : Bool
  accepted : Nat
  rounds : Nat

/-- `wake` is a return from the condition variable for no reason. -/
inductive RecycleEvent (Caller : Type) where
  | trigger (p : Caller)
  | next (p : Caller)
  | work (w : Nat)
  | wake (w : Nat)
  | destroy

namespace SpaceRecycle

variable {Caller : Type} [DecidableEq Caller] (s : SpaceRecycle Caller)

def setup : SpaceRecycle Caller where
  stop := false
  recycling := false
  serviceRunning := false
  triggers := fun _ => .idle
  workers := []
  terminated := false
  accepted := 0
  rounds := 0

def goTo (p : Caller) (stage : TriggerStage) : SpaceRecycle Caller :=
  { s with triggers := Function.update s.triggers p stage }

/-- `cv_.notify_all()`. -/
def notifyAll : SpaceRecycle Caller :=
  { s with workers := s.workers.map fun stage => if stage = .waiting then .checking else stage }

/-- The assignment to `worker_`, which ends the program where the thread in it is joinable. -/
def create : SpaceRecycle Caller :=
  { s with workers := s.workers ++ [.starting], terminated := !s.workers.isEmpty }

def trigger (p : Caller) : TriggerStage → Option (SpaceRecycle Caller)
  | .idle => none
  | .checking => some (s.goTo p (if s.serviceRunning then .locking else .creating))
  | .creating => some (s.create.goTo p .locking)
  | .locking =>
    if s.recycling then some (s.goTo p .idle)
    else some ({ s with recycling := true, accepted := s.accepted + 1 }.notifyAll.goTo p .idle)

def recycler (w : Nat) : RecyclerStage → Option (SpaceRecycle Caller)
  | .starting => some { s with serviceRunning := true, workers := s.workers.set w .checking }
  | .checking =>
    if s.stop then some { s with workers := s.workers.set w .exited }
    else if s.recycling then some { s with workers := s.workers.set w .recycling, rounds := s.rounds + 1 }
    else some { s with workers := s.workers.set w .waiting }
  | .waiting => none
  | .recycling => some { s with workers := s.workers.set w .clearing }
  | .clearing => some { s with recycling := false, workers := s.workers.set w .checking }
  | .exited => none

def step (e : RecycleEvent Caller) : Option (SpaceRecycle Caller) :=
  if s.terminated then none
  else match e with
    | .trigger p => if s.triggers p = .idle then some (s.goTo p .checking) else none
    | .next p => s.trigger p (s.triggers p)
    | .work w => (s.workers[w]?).bind (s.recycler w)
    | .wake w => if s.workers[w]? = some .waiting then some { s with workers := s.workers.set w .checking } else none
    | .destroy => some { s with stop := true }.notifyAll

/-- At most one thread was created and none assigned over, and unless the object is being
destroyed every trigger that found the worker idle has had a round of its own or gets it by the
next steps of the worker. -/
structure Served : Prop where
  one : s.workers.length ≤ 1
  alive : s.terminated = false
  round : s.stop = false → s.rounds ≤ s.accepted ∧
    ∃ n s', StepSystem.run step s (List.replicate n (.work 0)) = some s' ∧ s'.rounds = s.accepted

/-- No trigger finds the service not running after another one did. -/
def Alone (s : SpaceRecycle Caller) : RecycleEvent Caller → Prop
  | .next p => s.triggers p = .checking → s.serviceRunning = false →
    s.workers = [] ∧ ∀ q, s.triggers q ≠ .creating
  | _ => True

/-- What is known while the worker is at a stage. -/
def Holds : RecyclerStage → Prop
  | .starting | .checking => s.accepted = s.rounds + s.recycling.toNat
  | .waiting => s.recycling = false ∧ s.accepted = s.rounds
  | .recycling | .clearing => s.recycling = true ∧ s.accepted = s.rounds
  | .exited => s.stop = true

structure Lone : Prop where
  alive : s.terminated = false
  creating : ∀ p, s.triggers p = .creating → s.workers = [] ∧ ∀ q, s.triggers q = .creating → q = p
  locking : ∀ p, s.triggers p = .locking → s.workers ≠ []
  running : s.serviceRunning = true → s.workers ≠ []
  worker : (s.workers = [] ∧ s.recycling = false ∧ s.accepted = s.rounds) ∨
    ∃ stage, s.workers = [stage] ∧ s.Holds stage

section Steps

variable {s} {s' : SpaceRecycle Caller} {p : Caller} {stage : RecyclerStage}

omit [DecidableEq Caller] in
theorem lone_setup : (setup : SpaceRecycle Caller).Lone where
  alive := rfl
  creating _ h := by cases h
  locking _ h := by cases h
  running h := by cases h
  worker := Or.inl ⟨rfl, rfl, rfl⟩

/-- A caller that does not come to create a thread. -/
theorem Lone.goTo (h : s.Lone) {next : TriggerStage} (hcreating : next ≠ .creating)
    (hlocking : next = .locking → s.workers ≠ []) : (s.goTo p next).Lone := by
  refine ⟨h.alive, fun q hq => ?_, fun q hq => ?_, h.running, h.worker⟩
  · have hold : ∀ q, (s.goTo p next).triggers q = .creating → s.triggers q = .creating := by
      intro q hq
      by_cases hqp : q = p
      · subst hqp
        exact absurd (by simpa [SpaceRecycle.goTo] using hq) hcreating
      · simpa [SpaceRecycle.goTo, Function.update_of_ne hqp] using hq
    obtain ⟨hnone, hone⟩ := h.creating q (hold q hq)
    exact ⟨hnone, fun q' hq' => hone q' (hold q' hq')⟩
  · by_cases hqp : q = p
    · subst hqp
      exact hlocking (by simpa [SpaceRecycle.goTo] using hq)
    · exact h.locking q (by simpa [SpaceRecycle.goTo, Function.update_of_ne hqp] using hq)

/-- The first trigger goes to create the thread. -/
theorem Lone.goTo_creating (h : s.Lone) (hnone : s.workers = []) (halone : ∀ q, s.triggers q ≠ .creating) :
    (s.goTo p .creating).Lone := by
  have hself : ∀ q, (s.goTo p .creating).triggers q = .creating → q = p := by
    intro q hq
    by_contra hqp
    exact halone q (by simpa [SpaceRecycle.goTo, Function.update_of_ne hqp] using hq)
  refine ⟨h.alive, fun q hq => ⟨hnone, fun q' hq' => (hself q' hq').trans (hself q hq).symm⟩, fun q hq => ?_,
    h.running, h.worker⟩
  by_cases hqp : q = p
  · subst hqp
    simp [SpaceRecycle.goTo] at hq
  · exact h.locking q (by simpa [SpaceRecycle.goTo, Function.update_of_ne hqp] using hq)

theorem Lone.create (h : s.Lone) (hp : s.triggers p = .creating) : (s.create.goTo p .locking).Lone := by
  obtain ⟨hnone, hone⟩ := h.creating p hp
  have hcreated : s.create.workers = [.starting] := by simp [SpaceRecycle.create, hnone]
  refine ⟨by simp [SpaceRecycle.goTo, SpaceRecycle.create, hnone], fun q hq => ?_, fun _ _ => ?_, fun _ => ?_, Or.inr ?_⟩
  · exfalso
    by_cases hqp : q = p
    · subst hqp
      simp [SpaceRecycle.goTo] at hq
    · exact hqp (hone q (by simpa [SpaceRecycle.goTo, SpaceRecycle.create, Function.update_of_ne hqp] using hq))
  · simp [SpaceRecycle.goTo, hcreated]
  · simp [SpaceRecycle.goTo, hcreated]
  · obtain ⟨-, hidle, heq⟩ | ⟨stage, hstage, -⟩ := h.worker
    · refine ⟨.starting, hcreated, ?_⟩
      simp [Holds, SpaceRecycle.goTo, SpaceRecycle.create, hidle, heq]
    · rw [hnone] at hstage
      cases hstage

omit [DecidableEq Caller] in
/-- The worker goes on. -/
theorem Lone.work (h : s.Lone) (stage' : RecyclerStage) (hstage : s.workers = [stage])
    (hterminated : s'.terminated = s.terminated) (htriggers : s'.triggers = s.triggers)
    (hworkers : s'.workers = [stage']) (hholds : s'.Holds stage') : s'.Lone := by
  refine ⟨hterminated.trans h.alive, fun q hq => ?_, fun q _ => ?_, fun _ => ?_, Or.inr ⟨stage', hworkers, hholds⟩⟩
  · rw [htriggers] at hq
    have hnone := (h.creating q hq).1
    rw [hstage] at hnone
    cases hnone
  · simp [hworkers]
  · simp [hworkers]

omit [DecidableEq Caller] in
theorem getElem?_worker (hone : s.workers = [stage]) {w : Nat} {stage' : RecyclerStage}
    (hw : s.workers[w]? = some stage') :
    w = 0 ∧ stage' = stage := by
  rw [hone] at hw
  cases w with
  | zero => exact ⟨rfl, (Option.some.inj hw).symm⟩
  | succ w => simp at hw

omit [DecidableEq Caller] in
theorem Lone.recycler (h : s.Lone) {w : Nat} (hw : s.workers[w]? = some stage)
    (hs : s.recycler w stage = some s') : s'.Lone := by
  obtain ⟨hnone, -, -⟩ | ⟨stage', hone, hholds⟩ := h.worker
  · simp [hnone] at hw
  · obtain ⟨rfl, rfl⟩ := getElem?_worker hone hw
    cases stage with
    | starting =>
      obtain rfl := Option.some.inj hs
      exact h.work .checking hone rfl rfl (by simp [hone]) hholds
    | checking =>
      simp only [SpaceRecycle.recycler] at hs
      split_ifs at hs with hstop hrecycling <;> obtain rfl := Option.some.inj hs
      · exact h.work .exited hone rfl rfl (by simp [hone]) hstop
      · refine h.work .recycling hone rfl rfl (by simp [hone]) ⟨hrecycling, ?_⟩
        have he : s.accepted = s.rounds + s.recycling.toNat := hholds
        simpa [hrecycling] using he
      · refine h.work .waiting hone rfl rfl (by simp [hone]) ?_
        have he : s.accepted = s.rounds + s.recycling.toNat := hholds
        simp only [Bool.not_eq_true] at hrecycling
        exact ⟨hrecycling, by simpa [hrecycling] using he⟩
    | waiting => cases hs
    | recycling =>
      obtain rfl := Option.some.inj hs
      exact h.work .clearing hone rfl rfl (by simp [hone]) hholds
    | clearing =>
      obtain rfl := Option.some.inj hs
      refine h.work .checking hone rfl rfl (by simp [hone]) ?_
      have he : s.recycling = true ∧ s.accepted = s.rounds := hholds
      simp [Holds, he.2]
    | exited => cases hs

omit [DecidableEq Caller] in
theorem Lone.notifyAll (h : s.Lone) (stage : RecyclerStage) (hone : s.workers = [stage])
    (hterminated : s'.terminated = s.terminated) (htriggers : s'.triggers = s.triggers)
    (hworkers : s'.workers = s.workers)
    (hholds : s'.Holds (if stage = .waiting then .checking else stage)) : s'.notifyAll.Lone := by
  refine h.work (if stage = .waiting then .checking else stage) hone hterminated htriggers ?_ ?_
  · simp [SpaceRecycle.notifyAll, hworkers, hone]
  · cases stage <;> exact hholds

omit [DecidableEq Caller] in
/-- A trigger that finds the worker idle. -/
theorem Lone.accept (h : s.Lone) (hp : s.triggers p = .locking) (hidle : s.recycling = false) :
    ({ s with recycling := true, accepted := s.accepted + 1 } : SpaceRecycle Caller).notifyAll.Lone := by
  obtain ⟨hnone, -, -⟩ | ⟨stage, hone, hholds⟩ := h.worker
  · exact absurd hnone (h.locking p hp)
  · refine h.notifyAll stage hone rfl rfl rfl ?_
    cases stage with
    | starting | checking =>
      have he : s.accepted = s.rounds + s.recycling.toNat := hholds
      simp [Holds, he, hidle]
    | waiting =>
      have he : s.recycling = false ∧ s.accepted = s.rounds := hholds
      simp [Holds, he.2]
    | recycling | clearing =>
      have he : s.recycling = true ∧ s.accepted = s.rounds := hholds
      rw [hidle] at he
      cases he.1
    | exited => exact hholds

theorem Lone.trigger (h : s.Lone) (halone : Alone s (.next p)) (hs : s.trigger p (s.triggers p) = some s') :
    s'.Lone := by
  cases hp : s.triggers p with
  | idle => simp [hp, SpaceRecycle.trigger] at hs
  | checking =>
    rw [hp, SpaceRecycle.trigger] at hs
    obtain rfl := Option.some.inj hs
    cases hrunning : s.serviceRunning with
    | true => exact h.goTo (by simp) fun _ => h.running hrunning
    | false =>
      obtain ⟨hnone, halone⟩ := halone hp hrunning
      exact h.goTo_creating hnone halone
  | creating =>
    rw [hp, SpaceRecycle.trigger] at hs
    exact Option.some.inj hs ▸ h.create hp
  | locking =>
    rw [hp, SpaceRecycle.trigger] at hs
    split_ifs at hs with hrecycling <;> obtain rfl := Option.some.inj hs
    · exact h.goTo (by simp) (by simp)
    · simp only [Bool.not_eq_true] at hrecycling
      exact (h.accept hp hrecycling).goTo (by simp) (by simp)

theorem Lone.step (h : s.Lone) {e : RecycleEvent Caller} (halone : Alone s e) (hs : s.step e = some s') :
    s'.Lone := by
  unfold SpaceRecycle.step at hs
  rw [if_neg (by simp [h.alive])] at hs
  cases e with
  | trigger p =>
    simp only at hs
    split_ifs at hs with hidle
    exact Option.some.inj hs ▸ h.goTo (by simp) (by simp)
  | next p => exact h.trigger halone hs
  | work w =>
    obtain ⟨stage, hw, hs⟩ := Option.bind_eq_some_iff.mp hs
    exact h.recycler hw hs
  | wake w =>
    simp only at hs
    split_ifs at hs with hw
    obtain ⟨hnone, -, -⟩ | ⟨stage, hone, hholds⟩ := h.worker
    · simp [hnone] at hw
    · obtain ⟨rfl, rfl⟩ := getElem?_worker hone hw
      obtain rfl := Option.some.inj hs
      have he : s.recycling = false ∧ s.accepted = s.rounds := hholds
      exact h.work .checking hone rfl rfl (by simp [hone]) (by simp [Holds, he])
  | destroy =>
    obtain rfl := Option.some.inj hs
    obtain ⟨hnone, hidle, heq⟩ | ⟨stage, hone, hholds⟩ := h.worker
    · have hnone' : (SpaceRecycle.notifyAll { s with stop := true }).workers = [] := by
        simp [SpaceRecycle.notifyAll, hnone]
      exact ⟨h.alive, fun q hq => ⟨hnone', (h.creating q hq).2⟩, fun q hq => absurd hnone (h.locking q hq),
        fun hr => absurd hnone (h.running hr), Or.inl ⟨hnone', hidle, heq⟩⟩
    · refine h.notifyAll stage hone rfl rfl rfl ?_
      cases stage with
      | starting | checking | recycling | clearing => exact hholds
      | waiting =>
        have he : s.recycling = false ∧ s.accepted = s.rounds := hholds
        simp [Holds, he]
      | exited => rfl

theorem Lone.served (h : s.Lone) : s.Served := by
  obtain ⟨hnone, hidle, heq⟩ | ⟨stage, hone, hholds⟩ := h.worker
  · exact ⟨by simp [hnone], h.alive, fun _ => ⟨heq.ge, 0, s, rfl, heq.symm⟩⟩
  · refine ⟨by simp [hone], h.alive, fun hstop => ?_⟩
    cases stage with
    | starting =>
      have he : s.accepted = s.rounds + s.recycling.toNat := hholds
      refine ⟨by omega, ?_⟩
      cases hrecycling : s.recycling with
      | false => exact ⟨0, s, rfl, by simp [he, hrecycling]⟩
      | true =>
        refine ⟨2, { s with serviceRunning := true, workers := [.recycling], rounds := s.rounds + 1 }, ?_, ?_⟩
        · simp [StepSystem.run, SpaceRecycle.step, SpaceRecycle.recycler, h.alive, hone, hstop, hrecycling]
        · simp [he, hrecycling]
    | checking =>
      have he : s.accepted = s.rounds + s.recycling.toNat := hholds
      refine ⟨by omega, ?_⟩
      cases hrecycling : s.recycling with
      | false => exact ⟨0, s, rfl, by simp [he, hrecycling]⟩
      | true =>
        refine ⟨1, { s with workers := [.recycling], rounds := s.rounds + 1 }, ?_, ?_⟩
        · simp [StepSystem.run, SpaceRecycle.step, SpaceRecycle.recycler, h.alive, hone, hstop, hrecycling]
        · simp [he, hrecycling]
    | waiting | recycling | clearing =>
      have he : _ ∧ s.accepted = s.rounds := hholds
      exact ⟨he.2.ge, 0, s, rfl, he.2.symm⟩
    | exited =>
      have he : s.stop = true := hholds
      rw [hstop] at he
      cases he

end Steps

/-- Where no trigger finds the service not running after another one did, every run has one
thread at most, and no trigger is lost. -/
theorem served_of_alone {s : SpaceRecycle Caller} (h : StepSystem.Reach step Alone setup s) : s.Served :=
  (h.invariant Lone lone_setup fun _ _ _ hs hg hstep => hs.step hg hstep).served

/-- The second of two triggers comes when the thread has started. -/
theorem served_of_alone_two :
    ∃ s : SpaceRecycle Bool, StepSystem.Reach step Alone setup s ∧ s.Served ∧ s.accepted = 2 ∧ s.rounds = 1 := by
  let ok : SpaceRecycle Bool → RecycleEvent Bool → Bool := fun s e => match e with
    | .next p => s.triggers p != .checking || s.serviceRunning ||
      s.workers.isEmpty && s.triggers true != .creating && s.triggers false != .creating
    | _ => true
  have hok : ∀ s e, ok s e = true → Alone s e := by
    intro s e h
    cases e with
    | next p =>
      intro hp hrunning
      simp only [ok, hp, hrunning, bne_self_eq_false, Bool.false_or, Bool.and_eq_true, bne_iff_ne,
        List.isEmpty_iff] at h
      exact ⟨h.1.1, fun q => by cases q <;> simp [h]⟩
    | trigger | work | wake | destroy => trivial
  let run : Option (SpaceRecycle Bool) := StepSystem.run (StepSystem.checked ok step) setup
    [.trigger true, .next true, .next true, .next true, .work 0, .work 0, .trigger false, .next false, .work 0,
      .work 0, .next false]
  have hrun : run.map (fun s => (s.accepted, s.rounds)) = some (2, 1) := by decide +kernel
  obtain ⟨s, hs, he⟩ := Option.map_eq_some_iff.mp hrun
  have hreach : StepSystem.Reach step Alone setup s := StepSystem.Reach.start.checked hok hs
  exact ⟨s, hreach, served_of_alone hreach, (Prod.mk.inj he).1, (Prod.mk.inj he).2⟩

/-- Two triggers follow each other before the thread has taken its first step. -/
theorem not_served :
    ¬ ∀ s : SpaceRecycle Unit, StepSystem.Reach step (fun _ _ => True) setup s → s.Served := by
  intro h
  let run : Option (SpaceRecycle Unit) := StepSystem.run step setup
    [.trigger (), .next (), .next (), .next (), .trigger (), .next (), .next ()]
  have hrun : run.map terminated = some true := by decide +kernel
  obtain ⟨s, hs, he⟩ := Option.map_eq_some_iff.mp hrun
  have hserved := h s (StepSystem.Reach.start.run (fun _ _ _ => trivial) hs)
  rw [hserved.alive] at he
  cases he

end SpaceRecycle

end UnifiedCache.NfsStore
