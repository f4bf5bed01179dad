import UnifiedCache.Lib.StepSystem

/-! The retrieve tasks of KVStar: the manager with its queues, one worker each, and the threads that
wait for a task. Each use of a queue, of a result, of the failure set or of a latch is one step. -/

namespace UnifiedCache.Sparse.KVStar

inductive Status where
  | ok
  | error
  | outOfMemory
  | notFound
  deriving DecidableEq

inductive TaskStatus where
  | pending
  | running
  | success
  | failure
  deriving DecidableEq

/-- Where the worker of a queue is with the task that it took. -/
inductive Worker where
  | idle
  | taken (task : Nat)
  | marked (task : Nat)
  | running (task : Nat)
  | ran (task : Nat) (status : Status)
  | completing (task : Nat)
  | notifying (task : Nat)
  deriving DecidableEq

/-- Where a thread is in `Wait`. At `preparing` it has found the latch up and is not asleep yet. -/
inductive Waiting where
  | idle
  | entering (task : Nat)
  | preparing (task : Nat)
  | asleep (task : Nat)
  | checking (task : Nat)
  | removing (task : Nat) (failure : Bool)
  deriving DecidableEq

/-- A task is named by its id. `executed` says of a task whether its `Execute` ran to completion,
and `waited` what the `Wait` that found its waiter returned. -/
structure RetrieveTaskManager (Caller : Type) where
  taskIdSeed : Nat
  lastTimeScheduledQueueIdx : Nat
  taskQ : Nat → List Nat
  workers : Nat → Worker
  waiters : Finset Nat
  latch : Nat → Nat
  results : Nat → Option TaskStatus
  failureSet : Finset Nat
  callers : Caller → Waiting
  executed : Nat → Option Bool
  waited : Nat → Option Status

/-- `execute` is `KVStar::Execute`, which may throw, and `wake` a return from the condition
variable for no reason. -/
inductive RetrieveEvent (Caller : Type) where
  | submit
  | worker (w : Nat)
  | execute (w : Nat) (throws : Bool)
  | wait (p : Caller) (task : Nat)
  | next (p : Caller)
  | wake (p : Caller)

namespace RetrieveTaskManager

variable {Caller : Type} [DecidableEq Caller] (threadNum : Nat) (s : RetrieveTaskManager Caller)

def setup : RetrieveTaskManager Caller where
  taskIdSeed := 0
  lastTimeScheduledQueueIdx := 0
  taskQ := fun _ => []
  workers := fun _ => .idle
  waiters := ∅
  latch := fun _ => 0
  results := fun _ => none
  failureSet := ∅
  callers := fun _ => .idle
  executed := fun _ => none
  waited := fun _ => none

def setWorker (w : Nat) (worker : Worker) : RetrieveTaskManager Caller :=
  { s with workers := Function.update s.workers w worker }

def setResult (task : Nat) (status : TaskStatus) : RetrieveTaskManager Caller :=
  { s with results := Function.update s.results task (some status) }

def setCaller (p : Caller) (waiting : Waiting) : RetrieveTaskManager Caller :=
  { s with callers := Function.update s.callers p waiting }

def submitSingleTask : Status × RetrieveTaskManager Caller :=
  let taskId := s.taskIdSeed + 1
  let queue := s.lastTimeScheduledQueueIdx
  if taskId ∈ s.waiters ∨ s.results taskId ≠ none then (.outOfMemory, { s with taskIdSeed := taskId })
  else (.ok, { s.setResult taskId .pending with
    taskIdSeed := taskId
    waiters := insert taskId s.waiters
    latch := Function.update s.latch taskId 1
    taskQ := Function.update s.taskQ queue (s.taskQ queue ++ [taskId])
    lastTimeScheduledQueueIdx := (queue + 1) % threadNum })

/-- `RetrieveTaskRunner::Run`, which catches what `Execute` throws. -/
def run (task : Nat) (throws : Bool) : Status × RetrieveTaskManager Caller :=
  let s := { s with executed := Function.update s.executed task (some !throws) }
  (.ok, if throws then s.setResult task .failure else s)

/-- `Latch::Notify`. -/
def notify (task : Nat) : RetrieveTaskManager Caller :=
  { s with callers := fun p => if s.callers p = .asleep task then .entering task else s.callers p }

/-- The steps of a worker outside `Execute`. -/
def work (w : Nat) : Worker → Option (RetrieveTaskManager Caller)
  | .idle => match s.taskQ w with
    | [] => none
    | task :: rest => some ({ s with taskQ := Function.update s.taskQ w rest }.setWorker w (.taken task))
  | .taken task => some ((s.setResult task .running).setWorker w (.marked task))
  | .marked task => some (s.setWorker w (if task ∈ s.failureSet then .completing task else .running task))
  | .running _ => none
  | .ran task status =>
    if status ≠ .ok then
      some (({ s with failureSet := insert task s.failureSet }.setResult task .failure).setWorker w (.completing task))
    else some ((s.setResult task .success).setWorker w (.completing task))
  | .completing task =>
    let count := s.latch task - 1
    some ({ s with latch := Function.update s.latch task count }.setWorker w
      (if count = 0 then .notifying task else .idle))
  | .notifying task => some ((s.notify task).setWorker w .idle)

def wait (p : Caller) : Waiting → Option (RetrieveTaskManager Caller)
  | .idle => none
  | .entering task => some (s.setCaller p (if s.latch task = 0 then .checking task else .preparing task))
  | .preparing task => some (s.setCaller p (.asleep task))
  | .asleep _ => none
  | .checking task => some (s.setCaller p (.removing task (decide (task ∈ s.failureSet))))
  | .removing task failure =>
    some ({ s with
      failureSet := s.failureSet.erase task
      waited := Function.update s.waited task (some (if failure then .error else .ok)) }.setCaller p .idle)

/-- A `Wait` for a task that has no waiter returns `NotFound` at once. -/
def step : RetrieveEvent Caller → Option (RetrieveTaskManager Caller)
  | .submit => some (s.submitSingleTask threadNum).2
  | .worker w => s.work w (s.workers w)
  | .execute w throws => match s.workers w with
    | .running task => some ((s.run task throws).2.setWorker w (.ran task (s.run task throws).1))
    | _ => none
  | .wait p task =>
    if s.callers p ≠ .idle then none
    else if task ∈ s.waiters then
      some ({ s with waiters := s.waiters.erase task }.setCaller p (.entering task))
    else some s
  | .next p => s.wait p (s.callers p)
  | .wake p => match s.callers p with
    | .asleep task => some (s.setCaller p (.entering task))
    | _ => none

/-- What the `Wait` of a task returned and the status of its result say how `Execute` ended. -/
def Honest (task : Nat) (status : Status) : Prop :=
  (status = .ok ∧ s.results task = some .success ↔ s.executed task = some true) ∧
    (s.executed task = some false → status ≠ .ok)

section Steps

variable {threadNum s} {s' : RetrieveTaskManager Caller} {w task : Nat} {p : Caller}

def Submitted (s : RetrieveTaskManager Caller) (task : Nat) : Prop := 0 < task ∧ task ≤ s.taskIdSeed

/-- The task that a worker still has to complete. -/
def held : Worker → Option Nat
  | .taken task | .marked task | .running task | .ran task _ | .completing task => some task
  | .idle | .notifying _ => none

/-- The task that the worker of a queue has, and those behind it. -/
def line (s : RetrieveTaskManager Caller) (w : Nat) : List Nat := (held (s.workers w)).toList ++ s.taskQ w

def Finished (s : RetrieveTaskManager Caller) (task : Nat) : Prop :=
  s.executed task ≠ none ∧ s.results task = some .success

def WorkerHolds (s : RetrieveTaskManager Caller) : Worker → Prop
  | .idle | .notifying _ => True
  | .taken task | .marked task | .running task => s.executed task = none
  | .ran task status => status = .ok ∧ s.executed task ≠ none
  | .completing task => Finished s task

def CallerHolds (s : RetrieveTaskManager Caller) : Waiting → Prop
  | .idle => True
  | .entering task | .preparing task | .asleep task => Submitted s task
  | .checking task => Submitted s task ∧ s.latch task = 0
  | .removing task failure => Submitted s task ∧ s.latch task = 0 ∧ failure = false

structure Steady (threadNum : Nat) (s : RetrieveTaskManager Caller) : Prop where
  idx : s.lastTimeScheduledQueueIdx = s.taskIdSeed % threadNum
  fresh : ∀ task, s.taskIdSeed < task → s.results task = none ∧ s.executed task = none
  waiters : ∀ task ∈ s.waiters, Submitted s task
  nodup : ∀ w, (line s w).Nodup
  line_mem : ∀ w, ∀ task ∈ line s w, Submitted s task ∧ (task - 1) % threadNum = w ∧ s.latch task = 1
  queued : ∀ w, ∀ task ∈ s.taskQ w, s.executed task = none
  finished : ∀ task, Submitted s task → task ∈ line s ((task - 1) % threadNum) ∨ Finished s task
  failureSet : s.failureSet = ∅
  worker : ∀ w, WorkerHolds s (s.workers w)
  caller : ∀ p, CallerHolds s (s.callers p)
  waited : ∀ task status, s.waited task = some status → status = .ok ∧ Submitted s task ∧ s.latch task = 0

omit [DecidableEq Caller] in
theorem steady_setup : Steady threadNum (setup : RetrieveTaskManager Caller) where
  idx := (Nat.zero_mod _).symm
  fresh _ _ := ⟨rfl, rfl⟩
  waiters _ h := absurd h (Finset.notMem_empty _)
  nodup _ := List.nodup_nil
  line_mem _ _ h := absurd h List.not_mem_nil
  queued _ _ h := absurd h List.not_mem_nil
  finished _ h := absurd h.1 (Nat.not_lt.mpr h.2)
  failureSet := rfl
  worker _ := trivial
  caller _ := trivial
  waited _ _ h := by cases h

omit [DecidableEq Caller] in
theorem Steady.finished_of_latch (h : Steady threadNum s) (ht : Submitted s task) (hlatch : s.latch task = 0) :
    Finished s task := by
  obtain hline | hdone := h.finished task ht
  · have hup := (h.line_mem _ task hline).2.2
    omega
  · exact hdone

omit [DecidableEq Caller] in
/-- A worker goes on with its task, or completes it. -/
theorem Steady.work (h : Steady threadNum s) (new : Worker) (hheld : held (s.workers w) = some task)
    (hs : ({ s' with results := s.results, executed := s.executed, latch := s.latch, workers := s.workers } :
      RetrieveTaskManager Caller) = s)
    (hworkers : s'.workers = Function.update s.workers w new)
    (hother : ∀ t, t ≠ task → s'.results t = s.results t ∧ s'.executed t = s.executed t ∧ s'.latch t = s.latch t)
    (hnew : held new = some task ∧ s'.latch task = s.latch task ∨
      held new = none ∧ s'.latch task = 0 ∧ Finished s' task)
    (hholds : WorkerHolds s' new) : Steady threadNum s' := by
  have hseed : s'.taskIdSeed = s.taskIdSeed := by rw [← hs]
  have hidx : s'.lastTimeScheduledQueueIdx = s.lastTimeScheduledQueueIdx := by rw [← hs]
  have htaskQ : s'.taskQ = s.taskQ := by rw [← hs]
  have hcallers : s'.callers = s.callers := by rw [← hs]
  have hwaited : s'.waited = s.waited := by rw [← hs]
  have hwaiters : s'.waiters = s.waiters := by rw [← hs]
  have hfailure : s'.failureSet = s.failureSet := by rw [← hs]
  have hline : line s w = task :: s.taskQ w := by simp [line, hheld]
  obtain ⟨hsubmitted, hassigned, hup⟩ := h.line_mem w task (by simp [hline])
  have hqueue : task ∉ s.taskQ w := (List.nodup_cons.mp (hline ▸ h.nodup w)).1
  have hline' : ∀ w', line s' w' = if w' = w then (held new).toList ++ s.taskQ w else line s w' := by
    intro w'
    unfold line
    rw [hworkers, htaskQ]
    split_ifs with hw
    · subst hw
      rw [Function.update_self]
    · rw [Function.update_of_ne hw]
  have hsub : ∀ w', (line s' w').Sublist (line s w') := by
    intro w'
    rw [hline']
    split_ifs with hw
    · subst hw
      rw [hline]
      obtain ⟨hn, -⟩ | ⟨hn, -⟩ := hnew
      · simp [hn]
      · simp [hn]
    · exact List.Sublist.refl _
  have hlatch : ∀ t, s.latch t = 0 → s'.latch t = 0 := by
    intro t ht
    have hne : t ≠ task := by
      rintro rfl
      omega
    rw [(hother t hne).2.2]
    exact ht
  have hafter : ∀ t, Submitted s' t ↔ Submitted s t := fun t => by unfold Submitted; rw [hseed]
  refine ⟨by rw [hidx, hseed]; exact h.idx, fun t ht => ?_, fun t ht => ?_, fun w' => ?_, fun w' t ht => ?_,
    fun w' t ht => ?_, fun t ht => ?_, hfailure.trans h.failureSet, fun w' => ?_, fun p => ?_, fun t status ht => ?_⟩
  · rw [hseed] at ht
    have hne : t ≠ task := by
      rintro rfl
      exact absurd hsubmitted.2 (by omega)
    obtain ⟨hresults, hexecuted, -⟩ := hother t hne
    rw [hresults, hexecuted]
    exact h.fresh t ht
  · exact (hafter t).mpr (h.waiters t (hwaiters ▸ ht))
  · exact (h.nodup w').sublist (hsub w')
  · obtain ⟨ht', hw', hup'⟩ := h.line_mem w' t ((hsub w').subset ht)
    refine ⟨(hafter t).mpr ht', hw', ?_⟩
    by_cases hne : t = task
    · subst hne
      obtain ⟨-, hsame⟩ | ⟨hnone, -, -⟩ := hnew
      · exact hsame.trans hup
      · exfalso
        obtain rfl : w' = w := hw'.symm.trans hassigned
        rw [hline', if_pos rfl, hnone] at ht
        exact hqueue (by simpa using ht)
    · rw [(hother t hne).2.2]
      exact hup'
  · rw [htaskQ] at ht
    have hne : t ≠ task := by
      rintro rfl
      obtain rfl : w' = w := (h.line_mem w' t (List.mem_append_right _ ht)).2.1.symm.trans hassigned
      exact hqueue ht
    rw [(hother t hne).2.1]
    exact h.queued w' t ht
  · by_cases hne : t = task
    · subst hne
      obtain ⟨hsame, -⟩ | ⟨-, -, hdone⟩ := hnew
      · left
        rw [hassigned, hline', if_pos rfl, hsame]
        simp
      · exact Or.inr hdone
    · obtain ⟨hresults, hexecuted, -⟩ := hother t hne
      obtain hmem | hdone := h.finished t ((hafter t).mp ht)
      · left
        rw [hline']
        split_ifs with hw
        · rw [hw, hline] at hmem
          obtain he | hmem := List.mem_cons.mp hmem
          · exact absurd he hne
          · exact List.mem_append_right _ hmem
        · exact hmem
      · right
        unfold Finished
        rw [hresults, hexecuted]
        exact hdone
  · rw [hworkers]
    by_cases hw : w' = w
    · subst hw
      rw [Function.update_self]
      exact hholds
    · rw [Function.update_of_ne hw]
      have hw' := h.worker w'
      have hne : ∀ t, held (s.workers w') = some t → t ≠ task := by
        rintro t ht rfl
        have hmem : t ∈ line s w' := by simp [line, ht]
        exact hw ((h.line_mem w' t hmem).2.1.symm.trans hassigned)
      cases hstage : s.workers w' with
      | idle | notifying => trivial
      | taken t | marked t | running t | ran t status | completing t =>
        obtain ⟨hresults, hexecuted, -⟩ := hother t (hne t (by rw [hstage]; rfl))
        rw [hstage] at hw'
        simpa [WorkerHolds, Finished, hresults, hexecuted] using hw'
  · rw [hcallers]
    have hp := h.caller p
    cases hstage : s.callers p with
    | idle => trivial
    | entering t | preparing t | asleep t =>
      rw [hstage] at hp
      exact (hafter t).mpr hp
    | checking t =>
      rw [hstage] at hp
      exact ⟨(hafter t).mpr hp.1, hlatch t hp.2⟩
    | removing t failure =>
      rw [hstage] at hp
      exact ⟨(hafter t).mpr hp.1, hlatch t hp.2.1, hp.2.2⟩
  · rw [hwaited] at ht
    obtain ⟨hok, ht', hzero⟩ := h.waited t status ht
    exact ⟨hok, (hafter t).mpr ht', hlatch t hzero⟩

omit [DecidableEq Caller] in
/-- The workers are left alone. -/
theorem Steady.call (h : Steady threadNum s) {callers : Caller → Waiting} {waiters : Finset Nat}
    {waited : Nat → Option Status} (hcallers : ∀ p, CallerHolds s (callers p)) (hwaiters : waiters ⊆ s.waiters)
    (hwaited : ∀ task status, waited task = some status →
      status = .ok ∧ Submitted s task ∧ s.latch task = 0) :
    Steady threadNum { s with callers := callers, waiters := waiters, waited := waited } :=
  ⟨h.idx, h.fresh, fun task ht => h.waiters task (hwaiters ht), h.nodup, h.line_mem, h.queued, h.finished,
    h.failureSet, h.worker, hcallers, hwaited⟩

theorem Steady.setCaller (h : Steady threadNum s) {waiting : Waiting} (hp : CallerHolds s waiting) :
    Steady threadNum (s.setCaller p waiting) := by
  refine h.call (fun q => ?_) subset_rfl h.waited
  by_cases hq : q = p
  · subst hq
    rw [Function.update_self]
    exact hp
  · rw [Function.update_of_ne hq]
    exact h.caller q

omit [DecidableEq Caller] in
theorem Steady.notify (h : Steady threadNum s) (task : Nat) : Steady threadNum (s.notify task) := by
  refine h.call (fun q => ?_) subset_rfl h.waited
  have hq := h.caller q
  split_ifs with hasleep
  · rw [hasleep] at hq
    exact hq
  · exact hq

omit [DecidableEq Caller] in
/-- A worker that has no task takes the first of its queue, or has notified. -/
theorem Steady.setLine (h : Steady threadNum s) (w : Nat) (new : Worker) {queue : List Nat}
    (hline : (held new).toList ++ queue = line s w) (hqueue : queue ⊆ s.taskQ w) (hholds : WorkerHolds s new) :
    Steady threadNum ({ s with taskQ := Function.update s.taskQ w queue }.setWorker w new) := by
  have hsame : ∀ w', line ({ s with taskQ := Function.update s.taskQ w queue }.setWorker w new) w' = line s w' := by
    intro w'
    by_cases hw : w' = w
    · subst hw
      simpa [line, setWorker] using hline
    · simp [line, setWorker, Function.update_of_ne hw]
  refine ⟨h.idx, h.fresh, h.waiters, fun w' => ?_, fun w' task ht => ?_, fun w' task ht => ?_, fun task ht => ?_,
    h.failureSet, fun w' => ?_, h.caller, h.waited⟩
  · rw [hsame]
    exact h.nodup w'
  · rw [hsame] at ht
    exact h.line_mem w' task ht
  · by_cases hw : w' = w
    · subst hw
      refine h.queued w' task (hqueue ?_)
      simpa [setWorker] using ht
    · refine h.queued w' task ?_
      simpa [setWorker, Function.update_of_ne hw] using ht
  · rw [hsame]
    exact h.finished task ht
  · by_cases hw : w' = w
    · subst hw
      simp only [setWorker, Function.update_self]
      exact hholds
    · simp only [setWorker, Function.update_of_ne hw]
      exact h.worker w'

omit [DecidableEq Caller] in
theorem Steady.submit (h : Steady threadNum s) : Steady threadNum (s.submitSingleTask threadNum).2 := by
  have hnew := h.fresh (s.taskIdSeed + 1) (by omega)
  have hwaiter : s.taskIdSeed + 1 ∉ s.waiters := fun hmem => by
    have hle := (h.waiters _ hmem).2
    omega
  have hs : (s.submitSingleTask threadNum).2 = { s.setResult (s.taskIdSeed + 1) .pending with
      taskIdSeed := s.taskIdSeed + 1
      waiters := insert (s.taskIdSeed + 1) s.waiters
      latch := Function.update s.latch (s.taskIdSeed + 1) 1
      taskQ := Function.update s.taskQ s.lastTimeScheduledQueueIdx
        (s.taskQ s.lastTimeScheduledQueueIdx ++ [s.taskIdSeed + 1])
      lastTimeScheduledQueueIdx := (s.lastTimeScheduledQueueIdx + 1) % threadNum } := by
    unfold submitSingleTask
    rw [if_neg (by simp [hwaiter, hnew.1])]
  generalize (s.submitSingleTask threadNum).2 = s' at hs ⊢
  have hresults : ∀ t, t ≠ s.taskIdSeed + 1 → s'.results t = s.results t := fun t ht => by
    simp [hs, setResult, Function.update_of_ne ht]
  have hlatch : ∀ t, t ≠ s.taskIdSeed + 1 → s'.latch t = s.latch t := fun t ht => by
    simp [hs, Function.update_of_ne ht]
  have hexecuted : s'.executed = s.executed := by rw [hs]; rfl
  have hseed : s'.taskIdSeed = s.taskIdSeed + 1 := by rw [hs]
  have hold : ∀ t, Submitted s t → Submitted s' t ∧ t ≠ s.taskIdSeed + 1 := by
    intro t ht
    have hle := ht.2
    exact ⟨⟨ht.1, by omega⟩, by omega⟩
  have hassigned : (s.taskIdSeed + 1 - 1) % threadNum = s.lastTimeScheduledQueueIdx := by
    rw [h.idx, Nat.add_sub_cancel]
  have hline : ∀ w, line s' w = line s w ++ if w = s.lastTimeScheduledQueueIdx then [s.taskIdSeed + 1] else [] := by
    intro w
    split_ifs with hw
    · subst hw
      simp [line, hs, setResult]
    · simp [line, hs, setResult, Function.update_of_ne hw]
  have hin : ∀ w t, t ∈ line s' w → t ∈ line s w ∨ t = s.taskIdSeed + 1 ∧ w = s.lastTimeScheduledQueueIdx := by
    intro w t ht
    rw [hline] at ht
    split_ifs at ht with hw
    · obtain ht | ht := List.mem_append.mp ht
      · exact Or.inl ht
      · exact Or.inr ⟨List.mem_singleton.mp ht, hw⟩
    · exact Or.inl (by simpa using ht)
  refine ⟨?_, fun t ht => ?_, fun t ht => ?_, fun w => ?_, fun w t ht => ?_, fun w t ht => ?_,
    fun t ht => ?_, ?_, fun w => ?_, fun p => ?_, fun t status ht => ?_⟩
  · rw [hs]
    simp only
    rw [h.idx, Nat.mod_add_mod]
  · rw [hseed] at ht
    rw [hresults t (by omega), hexecuted]
    exact h.fresh t (by omega)
  · have ht' : t ∈ insert (s.taskIdSeed + 1) s.waiters := by rwa [hs] at ht
    obtain rfl | ht' := Finset.mem_insert.mp ht'
    · exact ⟨by omega, by omega⟩
    · exact (hold t (h.waiters t ht')).1
  · rw [hline]
    split_ifs
    · refine List.nodup_append.mpr ⟨h.nodup w, List.nodup_singleton _, fun t ht t' ht' he => ?_⟩
      exact (hold t (h.line_mem w t ht).1).2 (he.trans (List.mem_singleton.mp ht'))
    · rw [List.append_nil]
      exact h.nodup w
  · obtain ht | ⟨rfl, rfl⟩ := hin w t ht
    · obtain ⟨hsub, hw, hup⟩ := h.line_mem w t ht
      obtain ⟨hsub', hne⟩ := hold t hsub
      exact ⟨hsub', hw, (hlatch t hne).trans hup⟩
    · exact ⟨⟨by omega, by omega⟩, hassigned, by simp [hs]⟩
  · rw [hexecuted]
    obtain hmem | ⟨rfl, -⟩ : t ∈ s.taskQ w ∨ t = s.taskIdSeed + 1 ∧ w = s.lastTimeScheduledQueueIdx := by
      rw [hs] at ht
      by_cases hw : w = s.lastTimeScheduledQueueIdx
      · subst hw
        simpa using ht
      · left
        simpa [Function.update_of_ne hw] using ht
    · exact h.queued w t hmem
    · exact hnew.2
  · by_cases hne : t = s.taskIdSeed + 1
    · subst hne
      left
      rw [hline, if_pos hassigned]
      simp
    · have ht' : Submitted s t := ⟨ht.1, by have hle := ht.2; omega⟩
      obtain hmem | hdone := h.finished t ht'
      · left
        rw [hline]
        exact List.mem_append_left _ hmem
      · right
        unfold Finished
        rw [hresults t hne, hexecuted]
        exact hdone
  · rw [hs]
    exact h.failureSet
  · have hw := h.worker w
    have hsame : s'.workers = s.workers := by rw [hs]; rfl
    rw [hsame]
    cases hstage : s.workers w with
    | idle | notifying => trivial
    | taken t | marked t | running t | ran t status | completing t =>
      have hmem : t ∈ line s w := by simp [line, hstage, held]
      rw [hstage] at hw
      simpa [WorkerHolds, Finished, hresults t (hold t (h.line_mem w t hmem).1).2, hexecuted] using hw
  · have hp := h.caller p
    have hsame : s'.callers = s.callers := by rw [hs]; rfl
    rw [hsame]
    cases hstage : s.callers p with
    | idle => trivial
    | entering t | preparing t | asleep t =>
      rw [hstage] at hp
      exact (hold t hp).1
    | checking t =>
      rw [hstage] at hp
      obtain ⟨hsub, hne⟩ := hold t hp.1
      exact ⟨hsub, (hlatch t hne).trans hp.2⟩
    | removing t failure =>
      rw [hstage] at hp
      obtain ⟨hsub, hne⟩ := hold t hp.1
      exact ⟨hsub, (hlatch t hne).trans hp.2.1, hp.2.2⟩
  · have ht' : s.waited t = some status := by rwa [hs] at ht
    obtain ⟨hok, hsub, hzero⟩ := h.waited t status ht'
    obtain ⟨hsub', hne⟩ := hold t hsub
    exact ⟨hok, hsub', (hlatch t hne).trans hzero⟩

omit [DecidableEq Caller] in
theorem Steady.worker_step (h : Steady threadNum s) (hs : s.work w (s.workers w) = some s') : Steady threadNum s' := by
  have hw := h.worker w
  cases hstage : s.workers w with
  | idle =>
    rw [hstage, RetrieveTaskManager.work] at hs
    cases hqueue : s.taskQ w with
    | nil => simp [hqueue] at hs
    | cons task rest =>
      simp only [hqueue, Option.some.injEq] at hs
      subst hs
      refine h.setLine w (.taken task) (by simp [line, held, hstage, hqueue]) (by simp [hqueue]) ?_
      exact h.queued w task (by simp [hqueue])
  | taken task =>
    rw [hstage] at hs hw
    obtain rfl := Option.some.inj hs
    refine h.work (.marked task) (by rw [hstage]; rfl) rfl rfl (fun t ht => ?_) (Or.inl ⟨rfl, rfl⟩) hw
    simp [setWorker, setResult, Function.update_of_ne ht]
  | marked task =>
    rw [hstage] at hs hw
    rw [RetrieveTaskManager.work, h.failureSet, if_neg (Finset.notMem_empty task)] at hs
    obtain rfl := Option.some.inj hs
    exact h.work (.running task) (by rw [hstage]; rfl) rfl rfl (fun t ht => ⟨rfl, rfl, rfl⟩) (Or.inl ⟨rfl, rfl⟩) hw
  | running task => simp [hstage, RetrieveTaskManager.work] at hs
  | ran task status =>
    rw [hstage] at hs hw
    rw [RetrieveTaskManager.work, if_neg (by simp [hw.1])] at hs
    obtain rfl := Option.some.inj hs
    refine h.work (.completing task) (by rw [hstage]; rfl) rfl rfl (fun t ht => ?_) (Or.inl ⟨rfl, rfl⟩) ?_
    · simp [setWorker, setResult, Function.update_of_ne ht]
    · exact ⟨hw.2, by simp [setWorker, setResult]⟩
  | completing task =>
    have hup : s.latch task = 1 := (h.line_mem w task (by simp [line, hstage, held])).2.2
    rw [hstage] at hs hw
    rw [RetrieveTaskManager.work, hup] at hs
    obtain rfl := Option.some.inj hs
    refine h.work (.notifying task) (by rw [hstage]; rfl) rfl rfl (fun t ht => ?_)
      (Or.inr ⟨rfl, by simp [setWorker], hw⟩) trivial
    simp [setWorker, Function.update_of_ne ht]
  | notifying task =>
    rw [hstage] at hs
    obtain rfl := Option.some.inj hs
    have hset := (h.notify task).setLine w .idle (by simp [line, held, hstage, RetrieveTaskManager.notify])
      (List.Subset.refl _) trivial
    rwa [Function.update_eq_self] at hset

theorem Steady.step (h : Steady threadNum s) {e : RetrieveEvent Caller} (hs : s.step threadNum e = some s') :
    Steady threadNum s' := by
  cases e with
  | submit => exact Option.some.inj hs ▸ h.submit
  | worker w => exact h.worker_step hs
  | execute w throws =>
    cases hstage : s.workers w with
    | running task =>
      simp only [RetrieveTaskManager.step, hstage, Option.some.injEq] at hs
      subst hs
      refine h.work (.ran task .ok) (by rw [hstage]; rfl) ?_ ?_ (fun t ht => ?_) (Or.inl ⟨rfl, ?_⟩) ⟨rfl, ?_⟩ <;>
        cases throws <;> simp [run, setWorker, setResult]
      · simp [Function.update_of_ne ht]
      · simp [Function.update_of_ne ht]
    | idle | taken | marked | ran | completing | notifying => simp [RetrieveTaskManager.step, hstage] at hs
  | wait p task =>
    simp only [RetrieveTaskManager.step] at hs
    split_ifs at hs with hidle hmem
    · obtain rfl := Option.some.inj hs
      have hcall : Steady threadNum { s with waiters := s.waiters.erase task } :=
        h.call h.caller (Finset.erase_subset _ _) h.waited
      exact hcall.setCaller (h.waiters task hmem)
    · exact Option.some.inj hs ▸ h
  | next p =>
    have hp := h.caller p
    simp only [RetrieveTaskManager.step] at hs
    cases hstage : s.callers p with
    | idle => simp [hstage, RetrieveTaskManager.wait] at hs
    | entering task =>
      rw [hstage] at hs hp
      obtain rfl := Option.some.inj hs
      refine h.setCaller ?_
      split_ifs with hzero
      · exact ⟨hp, hzero⟩
      · exact hp
    | preparing task =>
      rw [hstage] at hs hp
      exact Option.some.inj hs ▸ h.setCaller hp
    | asleep task => simp [hstage, RetrieveTaskManager.wait] at hs
    | checking task =>
      rw [hstage] at hs hp
      refine Option.some.inj hs ▸ h.setCaller ⟨hp.1, hp.2, ?_⟩
      rw [h.failureSet]
      rfl
    | removing task failure =>
      rw [hstage] at hs hp
      obtain ⟨hsub, hzero, rfl⟩ := hp
      obtain rfl := Option.some.inj hs
      have hcall : Steady threadNum { s with waited := Function.update s.waited task (some .ok) } := by
        refine h.call h.caller subset_rfl fun t status ht => ?_
        by_cases hne : t = task
        · subst hne
          rw [Function.update_self] at ht
          exact ⟨(Option.some.inj ht).symm, hsub, hzero⟩
        · rw [Function.update_of_ne hne] at ht
          exact h.waited t status ht
      have hset : Steady threadNum (RetrieveTaskManager.setCaller _ p .idle) := hcall.setCaller trivial
      simpa [RetrieveTaskManager.setCaller, h.failureSet] using hset
  | wake p =>
    have hp := h.caller p
    simp only [RetrieveTaskManager.step] at hs
    cases hstage : s.callers p with
    | asleep task =>
      rw [hstage] at hs hp
      exact Option.some.inj hs ▸ h.setCaller hp
    | idle | entering | preparing | checking | removing => simp [hstage] at hs

end Steps

/-- What a `Wait` says is right exactly when the `Execute` of its task did not throw. -/
theorem honest_iff {threadNum : Nat} {s : RetrieveTaskManager Caller} {task : Nat} {status : Status}
    (h : StepSystem.Reach (step threadNum) (fun _ _ => True) setup s) (hw : s.waited task = some status) :
    s.Honest task status ↔ s.executed task ≠ some false := by
  have hsteady : Steady threadNum s :=
    h.invariant (Steady threadNum) steady_setup fun _ _ _ hs _ hstep => hs.step hstep
  obtain ⟨rfl, hsub, hzero⟩ := hsteady.waited task status hw
  obtain ⟨hexecuted, hresult⟩ := hsteady.finished_of_latch hsub hzero
  unfold Honest
  cases hrun : s.executed task with
  | none => exact absurd hrun hexecuted
  | some completed => cases completed <;> simp [hresult]

/-- The steps of a task on the first queue from its `Submit` to the return of its `Wait`. -/
def waitedFor (throws : Bool) : List (RetrieveEvent Unit) :=
  [.submit, .worker 0, .wait () 1, .worker 0, .next (), .worker 0, .execute 0 throws, .next (), .worker 0,
    .worker 0, .worker 0, .next (), .next (), .next ()]

theorem honest_iff_waitedFor :
    ∃ s : RetrieveTaskManager Unit, (s.Honest 1 .ok ↔ s.executed 1 ≠ some false) ∧ s.executed 1 = some true := by
  have hrun : (StepSystem.run (step 1) setup (waitedFor false)).map (fun s => (s.waited 1, s.executed 1)) =
    some (some .ok, some true) := by decide +kernel
  obtain ⟨s, hs, he⟩ := Option.map_eq_some_iff.mp hrun
  obtain ⟨hw, hexecuted⟩ := Prod.mk.inj he
  exact ⟨s, honest_iff (StepSystem.Reach.start.run (fun _ _ _ => trivial) hs) hw, hexecuted⟩

/-- An `Execute` that throws, after which `Wait` returns OK and the result says success. -/
theorem not_honest :
    ¬ ∀ (s : RetrieveTaskManager Unit) (task : Nat) (status : Status),
      StepSystem.Reach (step 1) (fun _ _ => True) setup s → s.waited task = some status → s.Honest task status := by
  intro h
  have hrun : (StepSystem.run (step 1) setup (waitedFor true)).map (fun s => (s.waited 1, s.executed 1)) =
    some (some .ok, some false) := by decide +kernel
  obtain ⟨s, hs, he⟩ := Option.map_eq_some_iff.mp hrun
  obtain ⟨hw, hexecuted⟩ := Prod.mk.inj he
  have hhonest := h s 1 .ok (StepSystem.Reach.start.run (fun _ _ _ => trivial) hs) hw
  exact hhonest.2 hexecuted rfl

end RetrieveTaskManager

end UnifiedCache.Sparse.KVStar
