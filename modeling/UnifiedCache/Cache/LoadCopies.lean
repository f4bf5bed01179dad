import UnifiedCache.Cache.Completion
import UnifiedCache.Cache.Pipeline

/-! The copies to the device. `holder_` has the shards whose copies were enqueued since
the last `Synchronize`, which only the last shard of a task calls, so a last shard that
leaves earlier leaves the copies of its task on the streams. -/

namespace UnifiedCache.CacheStore.Store

open StepSystem

variable {Data : Type} {config : Config Data} {s s' : Store Data}
  {tr : List (Store Data × Event Data)} {e : Event Data}

/-- The shard that a step enqueues a copy for. -/
def enqueued (s : Store Data) : Event Data → Option ShardTask
  | .transfer (.copy true) =>
    match s.transfer with
    | .copy task => some task
    | _ => none
  | _ => none

def synchronizes : Event Data → Bool
  | .transfer (.sync _) => true
  | _ => false

/-- The shards whose copies no `Synchronize` has followed. -/
def unsynced : List (Store Data × Event Data) → List ShardTask
  | [] => []
  | (s, e) :: tr => if synchronizes e then [] else (s.enqueued e).toList ++ unsynced tr

/-- The shard that leaves `TransferOneTask` before `Synchronize`. -/
def exiting (s : Store Data) : Event Data → Option ShardTask
  | .transfer .check =>
    match s.transfer with
    | .check task => if task.taskHandle ∈ s.failureSet then some task else none
    | _ => none
  | .transfer .spinFailed =>
    match s.transfer with
    | .spin task => some task
    | _ => none
  | .transfer .waited =>
    match s.transfer with
    | .backendWait task => if s.results task.backendTaskHandle = some false then some task else none
    | _ => none
  | .transfer (.copy false) =>
    match s.transfer with
    | .copy task => some task
    | _ => none
  | _ => none

/-- A last shard that leaves early has nothing of its task in `holder_`. -/
def ExitsClean (s : Store Data) (e : Event Data) : Prop :=
  ∀ task ∈ s.exiting e, task.waiter = true → ∀ held ∈ s.holder, held.taskHandle ≠ task.taskHandle

instance (s : Store Data) (e : Event Data) : Decidable (ExitsClean s e) :=
  inferInstanceAs (Decidable (∀ task ∈ s.exiting e, _))

/-- A latch is up at most once, for a task that was submitted. -/
def Single (s : Store Data) : Prop := ∀ id, s.latches id ≤ if id < s.nextId then 1 else 0

structure Pending (tr : List (Store Data × Event Data)) (s : Store Data) : Prop where
  h2d : ∀ c ∈ s.h2d, ∃ task ∈ unsynced tr, task.taskHandle = c.taskHandle
  holder : ∀ task ∈ unsynced tr, (∃ held ∈ s.holder, held.taskHandle = task.taskHandle) ∨
    ∃ last, s.transfer = .sync last ∧ last.taskHandle = task.taskHandle
  cleared : ∀ task success, s.transfer = .clear task success → unsynced tr = []
  held : (∀ task success, s.transfer ≠ .clear task success) → ∀ held ∈ s.holder, held ∈ unsynced tr
  ahead : ∀ held ∈ s.holder, ∃ w ∈ s.pipe, w.waiter = true ∧ w.taskHandle = held.taskHandle
  left : ∀ task, s.transfer = .fail task ∨ s.transfer = .done task → task.waiter = true →
    ∀ held ∈ s.holder, held.taskHandle ≠ task.taskHandle

theorem LoadStep.pipe_subset (h : LoadStep config s s') {t : ShardTask} (ht : t ∈ s.pipe) :
    t ∈ s'.pipe := by
  cases h <;> simp_all [Store.pipe, Loader.pushing, markFailed, latchDone, Store.release] <;> tauto

/-- A step of another thread. -/
theorem Pending.frame (hp : Pending tr s) (hu : unsynced ((s, e) :: tr) = unsynced tr)
    (hc : ∀ c ∈ s'.h2d, c ∈ s.h2d) (hh : s'.holder = s.holder) (ht : s'.transfer = s.transfer)
    (hpipe : ∀ t ∈ s.pipe, t ∈ s'.pipe) : Pending ((s, e) :: tr) s' := by
  refine ⟨?_, ?_, ?_, ?_, ?_, ?_⟩
  · rw [hu]
    exact fun c hm => hp.h2d c (hc c hm)
  · rw [hu, hh, ht]
    exact hp.holder
  · rw [hu, ht]
    exact hp.cleared
  · rw [hu, hh, ht]
    exact hp.held
  · rw [hh]
    intro held hm
    obtain ⟨w, hw, hwt⟩ := hp.ahead held hm
    exact ⟨w, hpipe w hw, hwt⟩
  · rw [hh, ht]
    exact hp.left

/-- A step of the transfer thread that neither enqueues nor waits for copies. -/
theorem Pending.move (hp : Pending tr s) (hu : unsynced ((s, e) :: tr) = unsynced tr)
    (hc : s'.h2d = s.h2d) (hh : s'.holder = s.holder) (hsync : ∀ last, s.transfer ≠ .sync last)
    (hclear : ∀ task b, s.transfer ≠ .clear task b) (hclear' : ∀ task b, s'.transfer ≠ .clear task b)
    (hpipe : ∀ w ∈ s.pipe, w.waiter = true → (∃ held ∈ s.holder, held.taskHandle = w.taskHandle) →
      w ∈ s'.pipe)
    (hleft : ∀ task, s'.transfer = .fail task ∨ s'.transfer = .done task → task.waiter = true →
      ∀ held ∈ s.holder, held.taskHandle ≠ task.taskHandle) : Pending ((s, e) :: tr) s' := by
  constructor
  · rw [hu, hc]
    exact hp.h2d
  · rw [hu, hh]
    intro task hm
    rcases hp.holder task hm with h | ⟨last, hl, _⟩
    · exact Or.inl h
    · exact absurd hl (hsync last)
  · exact fun task b h => absurd h (hclear' task b)
  · rw [hu, hh]
    exact fun _ => hp.held hclear
  · rw [hh]
    intro held hm
    obtain ⟨w, hw, hww, he⟩ := hp.ahead held hm
    exact ⟨w, hpipe w hw hww ⟨held, hm, he.symm⟩, hww, he⟩
  · rw [hh]
    exact hleft

theorem pipe_of_task {task : ShardTask} (ht : s.transfer.front = [task]) :
    s.pipe = task :: (s.running ++ s.loader.pushing) := by
  rw [pipe, ht]
  rfl

theorem unsynced_copy {task : ShardTask} (ht : s.transfer = .copy task) :
    unsynced ((s, .transfer (.copy true)) :: tr) = task :: unsynced tr := by
  simp [unsynced, synchronizes, enqueued, ht]

theorem Pending.h2d_cons {task : ShardTask} (hp : Pending tr s) (ht : s.transfer = .copy task) :
    ∀ c ∈ (⟨task.taskHandle, task.bufferHandle.key, task.bufferHandle.node, task.shard.addrs⟩ ::
      s.h2d : List Copy), ∃ t ∈ unsynced ((s, .transfer (.copy true)) :: tr), t.taskHandle = c.taskHandle := by
  rw [unsynced_copy ht]
  intro c hc
  rcases List.mem_cons.mp hc with rfl | hc
  · exact ⟨task, List.mem_cons_self, rfl⟩
  · obtain ⟨t, hm, he⟩ := hp.h2d c hc
    exact ⟨t, List.mem_cons_of_mem _ hm, he⟩

theorem Pending.exists_held {t : ShardTask} (hp : Pending tr s) (ht : ∀ last, s.transfer ≠ .sync last)
    (hm : t ∈ unsynced tr) : ∃ held ∈ s.holder, held.taskHandle = t.taskHandle := by
  rcases hp.holder t hm with h | ⟨last, hl, _⟩
  · exact h
  · exact absurd hl (ht last)

theorem Pending.copyLast {task : ShardTask} (hp : Pending tr s) (ht : s.transfer = .copy task) :
    Pending ((s, .transfer (.copy true)) :: tr) { s with
      h2d := ⟨task.taskHandle, task.bufferHandle.key, task.bufferHandle.node, task.shard.addrs⟩ :: s.h2d
      transfer := .sync task } := by
  have hpipe := pipe_of_task (s := s) (by rw [ht]; rfl)
  constructor
  · exact hp.h2d_cons ht
  · rw [unsynced_copy ht]
    intro t hm
    rcases List.mem_cons.mp hm with rfl | hm
    · exact Or.inr ⟨t, rfl, rfl⟩
    · exact Or.inl (hp.exists_held (by simp [ht]) hm)
  · simp
  · rw [unsynced_copy ht]
    exact fun _ held hm => List.mem_cons_of_mem _ (hp.held (by simp [ht]) held hm)
  · intro held hm
    obtain ⟨w, hw, hwt⟩ := hp.ahead held hm
    rw [hpipe] at hw
    exact ⟨w, by simpa [pipe, Transfer.front, Transfer.task] using hw, hwt⟩
  · simp

/-- A shard that does not wait has the last shard of its task behind it. -/
theorem Pending.copy {task : ShardTask} (hp : Pending tr s) (hcov : Covered s.pipe)
    (ht : s.transfer = .copy task) (hw : task.waiter = false) :
    Pending ((s, .transfer (.copy true)) :: tr) { s with
      h2d := ⟨task.taskHandle, task.bufferHandle.key, task.bufferHandle.node, task.shard.addrs⟩ :: s.h2d
      transfer := .idle
      holder := s.holder ++ [task] } := by
  have hpipe := pipe_of_task (s := s) (by rw [ht]; rfl)
  constructor
  · exact hp.h2d_cons ht
  · rw [unsynced_copy ht]
    intro t hm
    rcases List.mem_cons.mp hm with rfl | hm
    · exact Or.inl ⟨t, by simp, rfl⟩
    · obtain ⟨held, hh, he⟩ := hp.exists_held (by simp [ht]) hm
      exact Or.inl ⟨held, List.mem_append_left _ hh, he⟩
  · simp
  · rw [unsynced_copy ht]
    intro _ held hm
    rcases List.mem_append.mp hm with hm | hm
    · exact List.mem_cons_of_mem _ (hp.held (by simp [ht]) held hm)
    · obtain rfl := List.mem_singleton.mp hm
      exact List.mem_cons_self
  · intro held hm
    have hahead : ∃ w ∈ s.pipe, w.waiter = true ∧ w.taskHandle = held.taskHandle := by
      rcases List.mem_append.mp hm with hm | hm
      · exact hp.ahead held hm
      · obtain rfl := List.mem_singleton.mp hm
        rw [hpipe] at hcov ⊢
        exact hcov.1
    obtain ⟨w, hwp, hww, he⟩ := hahead
    rw [hpipe] at hwp
    rcases List.mem_cons.mp hwp with rfl | hwp
    · rw [hw] at hww
      cases hww
    · exact ⟨w, hwp, hww, he⟩
  · simp

theorem Pending.sync {task : ShardTask} {success : Bool} (hp : Pending tr s) (ht : s.transfer = .sync task) :
    Pending ((s, .transfer (.sync success)) :: tr)
      { s with h2d := [], transfer := .clear task success } := by
  have hpipe := pipe_of_task (s := s) (by rw [ht]; rfl)
  constructor
  · simp
  · simp [unsynced, synchronizes]
  · exact fun _ _ _ => rfl
  · exact fun h => absurd rfl (h task success)
  · intro held hm
    obtain ⟨w, hw, hwt⟩ := hp.ahead held hm
    rw [hpipe] at hw
    exact ⟨w, by simpa [pipe, Transfer.front, Transfer.task] using hw, hwt⟩
  · simp

theorem Pending.h2d_eq_nil (hp : Pending tr s) (hu : unsynced tr = []) : s.h2d = [] := by
  apply List.eq_nil_iff_forall_not_mem.mpr
  intro c hc
  obtain ⟨t, hm, _⟩ := hp.h2d c hc
  rw [hu] at hm
  cases hm

theorem Pending.clear (hp : Pending tr s) (h : s.transferStep .clear = some s') :
    Pending ((s, .transfer .clear) :: tr) s' := by
  have hu : ∀ task success, s.transfer = .clear task success →
      unsynced ((s, .transfer .clear) :: tr) = [] := fun task success ht => hp.cleared task success ht
  simp only [transferStep] at h
  split at h
  · rename_i task success held holder ht hh
    have hnil := hp.h2d_eq_nil (hp.cleared _ _ ht)
    obtain rfl := Option.some.inj h
    constructor
    · simp [Store.release, hnil]
    · simp [hu _ _ ht]
    · exact fun _ _ _ => hu _ _ ht
    · exact fun h => absurd ht (h task success)
    · intro x hm
      obtain ⟨w, hw, hwt⟩ := hp.ahead x (by rw [hh]; exact List.mem_cons_of_mem _ hm)
      exact ⟨w, hw, hwt⟩
    · simp [Store.release, ht]
  · rename_i task success ht hh
    have hnil := hp.h2d_eq_nil (hp.cleared _ _ ht)
    obtain rfl := Option.some.inj h
    constructor
    · simp [hnil]
    · simp [hu _ _ ht]
    · exact fun _ _ _ => hu _ _ ht
    · simp [hh]
    · simp [hh]
    · simp [hh]
  · cases h

theorem Pending.transfer {te : TransferEvent} (hp : Pending tr s) (hcov : Covered s.pipe)
    (hg : ExitsClean s (.transfer te)) (h : s.transferStep te = some s') :
    Pending ((s, .transfer te) :: tr) s' := by
  cases te with
  | pop =>
    simp only [transferStep] at h
    split at h
    · rename_i ht hr
      obtain rfl := Option.some.inj h
      refine hp.move rfl rfl rfl (by simp [ht]) (by simp [ht]) (by simp) (fun w hw _ _ => ?_) (by simp)
      simpa [pipe, ht, hr, Transfer.front, Transfer.task] using hw
    · cases h
  | check =>
    simp only [transferStep] at h
    split at h
    · rename_i task ht
      obtain rfl := Option.some.inj h
      split_ifs with hf
      · refine hp.move rfl rfl rfl (by simp [ht]) (by simp [ht]) (by simp) (fun w hw _ _ => ?_) ?_
        · simpa [pipe, ht, Transfer.front, Transfer.task] using hw
        · simpa using hg task (by simp [exiting, ht, hf])
      · refine hp.move rfl rfl rfl (by simp [ht]) (by simp [ht]) (by simp) (fun w hw _ _ => ?_) (by simp)
        simpa [pipe, ht, Transfer.front, Transfer.task] using hw
    · cases h
  | ready =>
    simp only [transferStep] at h
    split at h
    · rename_i task ht
      obtain rfl := Option.some.inj h
      refine hp.move rfl rfl rfl (by simp [ht]) (by simp [ht]) ?_ (fun w hw _ _ => ?_) ?_
      · grind
      · have hw : w ∈ task :: (s.running ++ s.loader.pushing) := by
          simpa [pipe, ht, Transfer.front, Transfer.task] using hw
        simp only [pipe]
        split_ifs <;> simpa [Transfer.front, Transfer.task] using hw
      · grind
    · cases h
  | spinFailed =>
    simp only [transferStep] at h
    split at h
    · rename_i task ht
      split_ifs at h
      obtain rfl := Option.some.inj h
      refine hp.move rfl rfl rfl (by simp [ht]) (by simp [ht]) (by simp) (fun w hw _ _ => ?_) ?_
      · simpa [pipe, ht, Transfer.front, Transfer.task] using hw
      · simpa using hg task (by simp [exiting, ht])
    · cases h
  | spinReady =>
    simp only [transferStep] at h
    split at h
    · rename_i task ht
      split_ifs at h
      obtain rfl := Option.some.inj h
      refine hp.move rfl rfl rfl (by simp [ht]) (by simp [ht]) (by simp) (fun w hw _ _ => ?_) (by simp)
      simpa [pipe, ht, Transfer.front, Transfer.task] using hw
    · cases h
  | waited =>
    simp only [transferStep] at h
    split at h
    · rename_i task ht
      split at h
      · cases h
      · rename_i success hr
        obtain rfl := Option.some.inj h
        cases success with
        | true =>
          refine hp.move rfl rfl rfl (by simp [ht]) (by simp [ht]) (by simp) (fun w hw _ _ => ?_) (by simp)
          simpa [pipe, ht, Transfer.front, Transfer.task] using hw
        | false =>
          refine hp.move rfl rfl rfl (by simp [ht]) (by simp [ht]) (by simp) (fun w hw _ _ => ?_) ?_
          · simpa [pipe, ht, Transfer.front, Transfer.task] using hw
          · simpa using hg task (by simp [exiting, ht, hr])
    · cases h
  | mark =>
    simp only [transferStep] at h
    split at h
    · rename_i task ht
      obtain rfl := Option.some.inj h
      refine hp.move rfl rfl rfl (by simp [ht]) (by simp [ht]) (by simp) (fun w hw _ _ => ?_) (by simp)
      simpa [pipe, ht, Transfer.front, Transfer.task] using hw
    · cases h
  | copy success =>
    simp only [transferStep] at h
    split at h
    · rename_i task ht
      split_ifs at h with hs hw
      · obtain rfl := Option.some.inj h
        obtain rfl : success = false := by simpa using hs
        refine hp.move rfl rfl rfl (by simp [ht]) (by simp [ht]) (by simp) (fun w hw _ _ => ?_) ?_
        · simpa [pipe, ht, Transfer.front, Transfer.task] using hw
        · simpa using hg task (by simp [exiting, ht])
      · obtain rfl := Option.some.inj h
        obtain rfl : success = true := by simpa using hs
        exact hp.copyLast ht
      · obtain rfl := Option.some.inj h
        obtain rfl : success = true := by simpa using hs
        exact hp.copy hcov ht (by simpa using hw)
    · cases h
  | sync success =>
    simp only [transferStep] at h
    split at h
    · rename_i task ht
      split_ifs at h with hs hh
      · obtain rfl := Option.some.inj h
        obtain rfl : success = false := by simpa using hs
        exact hp.sync ht
      · obtain rfl := Option.some.inj h
        obtain rfl : success = true := by simpa using hs
        have hsync : Pending ((s, .transfer (.sync true)) :: tr)
            { s with h2d := [], transfer := .clear task true } := hp.sync ht
        rwa [← hh] at hsync
    · cases h
  | clear => exact hp.clear h
  | fail =>
    simp only [transferStep] at h
    split at h
    · rename_i task ht
      obtain rfl := Option.some.inj h
      refine hp.move rfl rfl rfl (by simp [ht]) (by simp [ht]) (by simp) (fun w hw _ _ => ?_) ?_
      · simpa [pipe, ht, Transfer.front, Transfer.task, markFailed] using hw
      · have := hp.left task (Or.inl ht)
        simpa using this
    · cases h
  | done =>
    simp only [transferStep] at h
    split at h
    · rename_i task ht
      have hpipe : s.pipe = task :: (s.running ++ s.loader.pushing) := by
        simp [pipe, ht, Transfer.front, Transfer.task]
      have hbehind : ∀ w ∈ s.pipe, w.waiter = true →
          (∃ held ∈ s.holder, held.taskHandle = w.taskHandle) → w ∈ s.running ++ s.loader.pushing := by
        rintro w hm hww ⟨held, hh, he⟩
        rw [hpipe] at hm
        rcases List.mem_cons.mp hm with rfl | hm
        · exact absurd he (hp.left w (Or.inr ht) hww held hh)
        · exact hm
      split_ifs at h with hw
      · obtain rfl := Option.some.inj h
        exact hp.move rfl rfl rfl (by simp [ht]) (by simp [ht]) (by simp)
          (by simpa [pipe, Transfer.front, latchDone] using hbehind) (by simp)
      · obtain rfl := Option.some.inj h
        exact hp.move rfl rfl rfl (by simp [ht]) (by simp [ht]) (by simp)
          (by simpa [pipe, Transfer.front] using hbehind) (by simp)
    · cases h
  | release =>
    simp only [transferStep] at h
    split at h
    · rename_i task ht
      obtain rfl := Option.some.inj h
      refine hp.move rfl rfl rfl (by simp [ht]) (by simp [ht]) (by simp)
        (fun w hw _ _ => ?_) (by simp)
      simpa [pipe, ht, Transfer.front, Transfer.task, Store.release] using hw
    · cases h

theorem Step.pending (h : s.step config e = some s') (hp : Pending tr s) (hcov : Covered s.pipe)
    (hg : ExitsClean s e) : Pending ((s, e) :: tr) s' := by
  cases e with
  | load e =>
    have hs : LoadStep config s s' := loadStep_inv h
    have heq : s'.h2d = s.h2d ∧ s'.holder = s.holder ∧ s'.transfer = s.transfer := by
      cases hs <;> exact ⟨rfl, rfl, rfl⟩
    exact hp.frame rfl (by simp [heq]) heq.2.1 heq.2.2 fun t => hs.pipe_subset
  | transfer e => exact hp.transfer hcov hg h
  | dump e =>
    have heq : s'.h2d = s.h2d ∧ s'.holder = s.holder ∧ s'.transfer = s.transfer ∧ s'.pipe = s.pipe := by
      cases dumpStep_inv h <;> exact ⟨rfl, rfl, rfl, rfl⟩
    exact hp.frame rfl (by simp [heq]) heq.2.1 heq.2.2.1 (by simp [heq])
  | backendDump e =>
    have heq : s'.h2d = s.h2d ∧ s'.holder = s.holder ∧ s'.transfer = s.transfer ∧ s'.pipe = s.pipe := by
      cases backendDumpStep_inv h <;> exact ⟨rfl, rfl, rfl, rfl⟩
    exact hp.frame rfl (by simp [heq]) heq.2.1 heq.2.2.1 (by simp [heq])
  | backend e =>
    have heq : s'.h2d ⊆ s.h2d ∧ s'.holder = s.holder ∧ s'.transfer = s.transfer ∧ s'.pipe = s.pipe := by
      cases backendStep_inv h with
      | h2d => exact ⟨List.eraseIdx_subset, rfl, rfl, rfl⟩
      | _ => exact ⟨List.Subset.refl _, rfl, rfl, rfl⟩
    exact hp.frame rfl (fun c hc => heq.1 hc) heq.2.1 heq.2.2.1 (by simp [heq])
  | user e =>
    have heq : s'.h2d = s.h2d ∧ s'.holder = s.holder ∧ s'.transfer = s.transfer ∧ s'.pipe = s.pipe := by
      cases userStep_inv h <;> exact ⟨rfl, rfl, rfl, rfl⟩
    exact hp.frame rfl (by simp [heq]) heq.2.1 heq.2.2.1 (by simp [heq])

theorem nextId_step (h : s.step config e = some s') :
    s.nextId ≤ s'.nextId ∧ ∀ id, s.raises e = some id → id = s.nextId ∧ s'.nextId = s.nextId + 1 := by
  cases e with
  | load e =>
    have heq : s'.nextId = s.nextId := by
      cases loadStep_inv h <;> rfl
    exact ⟨heq.ge, fun _ hr => by cases hr⟩
  | transfer e =>
    have heq : s'.nextId = s.nextId := by
      cases transferStep_inv h <;> rfl
    exact ⟨heq.ge, fun _ hr => by cases hr⟩
  | dump e =>
    have heq : s'.nextId = s.nextId := by
      cases dumpStep_inv h <;> rfl
    exact ⟨heq.ge, fun _ hr => by cases hr⟩
  | backendDump e =>
    have heq : s'.nextId = s.nextId := by
      cases backendDumpStep_inv h <;> rfl
    exact ⟨heq.ge, fun _ hr => by cases hr⟩
  | backend e =>
    have heq : s'.nextId = s.nextId := by
      cases backendStep_inv h <;> rfl
    exact ⟨heq.ge, fun _ hr => by cases hr⟩
  | user e =>
    cases e with
    | submit type desc =>
      have heq : s'.nextId = s.nextId + 1 := by
        simp only [step, userStep] at h
        split_ifs at h
        · obtain rfl := Option.some.inj h
          rfl
        · cases type <;> obtain rfl := Option.some.inj h <;> rfl
      exact ⟨heq ▸ Nat.le_succ _, fun id hr => ⟨(Option.some.inj hr).symm, heq⟩⟩
    | wait id =>
      simp only [step, userStep] at h
      split_ifs at h
      obtain rfl := Option.some.inj h
      exact ⟨le_refl _, fun _ hr => by cases hr⟩
    | timeout id =>
      simp only [step, userStep] at h
      split_ifs at h
      obtain rfl := Option.some.inj h
      exact ⟨le_refl _, fun _ hr => by cases hr⟩
    | waited id =>
      change s.userStep config (.waited id) = some s' at h
      have hle : s.nextId ≤ s'.nextId := by
        cases userStep_inv h <;> first | exact le_refl _ | exact Nat.le_succ _
      exact ⟨hle, fun _ hr => by cases hr⟩

end UnifiedCache.CacheStore.Store
