import UnifiedCache.Cache.LoadCopies
import UnifiedCache.Cache.ReadyData

/-! What a load task that succeeds has done. As long as a task is not in the failure set,
the shards that were copied and those that still wait are together the shards of the task,
and its last shard synchronizes after all of them. -/

namespace UnifiedCache.CacheStore

open PinnedPool StepSystem

/-- The shards of a task that are not with the transfer thread yet. -/
def Loader.remaining (id : TaskHandle) : Loader → List Shard
  | .check task => if task.id = id then task.desc else []
  | .find t got rest => if t = id then got.map Gathered.shard ++ rest else []
  | .alloc t got shard rest => if t = id then got.map Gathered.shard ++ shard :: rest else []
  | .submit t got => if t = id then got.map Gathered.shard else []
  | .push tasks => (tasks.filter fun t => t.taskHandle = id).map ShardTask.shard
  | _ => []

def Transfer.remaining (id : TaskHandle) : Transfer → List Shard
  | .check t => if t.taskHandle = id then [t.shard] else []
  | .ready t => if t.taskHandle = id then [t.shard] else []
  | .spin t => if t.taskHandle = id then [t.shard] else []
  | .backendWait t => if t.taskHandle = id then [t.shard] else []
  | .mark t => if t.taskHandle = id then [t.shard] else []
  | .copy t => if t.taskHandle = id then [t.shard] else []
  | _ => []

namespace Store

variable {Data : Type} {config : Config Data} {s s' : Store Data}
  {tr : List (Store Data × Event Data)} {e : Event Data} {id : TaskHandle}

/-- The shards of a task for which copies were enqueued, the first one first. -/
def sent (id : TaskHandle) : List (Store Data × Event Data) → List Shard
  | [] => []
  | (s, e) :: tr => sent id tr ++
      ((s.enqueued e).toList.filter fun t => t.taskHandle = id).map ShardTask.shard

/-- The node of a shard was ready and had its key when the copy was enqueued. -/
def SentReady (tr : List (Store Data × Event Data)) : Prop :=
  ∀ x ∈ tr, ∀ task ∈ x.1.enqueued x.2, x.1.pool.ready task.bufferHandle.node = true ∧
    x.1.pool.key task.bufferHandle.node = some task.shard.key

/-- All shards of a task were copied from ready nodes of their keys, and a `Synchronize`
succeeded after that. -/
def Loaded (id : TaskHandle) (desc : TaskDesc) (tr : List (Store Data × Event Data)) : Prop :=
  ∃ tr₁ s₁ tr₂, tr = tr₁ ++ (s₁, .transfer (.sync true)) :: tr₂ ∧ sent id tr₂ = desc ∧ SentReady tr₂

def remaining (s : Store Data) (id : TaskHandle) : List Shard :=
  s.transfer.remaining id ++ ((s.running.filter fun t => t.taskHandle = id).map ShardTask.shard ++
    (s.loader.remaining id ++ (s.loadWaiting.filter fun task => task.id = id).flatMap TransTask.desc))

/-- A thread is about to put the task into the failure set. -/
def Failing (s : Store Data) (id : TaskHandle) : Prop :=
  (∃ task, s.transfer = .fail task ∧ task.taskHandle = id) ∨ ∃ got, s.loader = .fail id got

theorem Loaded.cons (h : Loaded id desc tr) : Loaded id desc ((s, e) :: tr) := by
  obtain ⟨tr₁, s₁, tr₂, rfl, h⟩ := h
  exact ⟨(s, e) :: tr₁, s₁, tr₂, rfl, h⟩

theorem filter_shardTasks (t h : TaskHandle) (got : List Gathered) :
    ((shardTasks t h got).filter fun x => x.taskHandle = id).map ShardTask.shard =
      if t = id then got.map Gathered.shard else [] := by
  induction got with
  | nil => simp [shardTasks]
  | cons g got ih =>
    cases got with
    | nil => by_cases he : t = id <;> simp [shardTasks, he]
    | cons g' got =>
      simp only [shardTasks, List.filter_cons]
      by_cases he : t = id
      · simpa [he] using ih
      · simpa [he] using ih

theorem LoadStep.remaining (h : LoadStep config s s') (id : TaskHandle) :
    id ∈ s'.failureSet ∨ s'.Failing id ∨ s'.remaining id = s.remaining id := by
  cases h with
  | @refuse task hl hf =>
    by_cases he : task.id = id
    · exact Or.inl (he ▸ hf)
    · refine Or.inr (Or.inr ?_)
      simp [Store.remaining, Loader.remaining, hl, he, latchDone]
  | @refused t got hl =>
    by_cases he : t = id
    · exact Or.inr (Or.inl (Or.inr ⟨got, by rw [he]⟩))
    · refine Or.inr (Or.inr ?_)
      simp [Store.remaining, Loader.remaining, hl, he]
  | pop hl hw =>
    refine Or.inr (Or.inr ?_)
    simp only [Store.remaining, Loader.remaining, hl, hw, List.filter_cons, decide_eq_true_eq]
    split_ifs <;> simp
  | allReady hl =>
    refine Or.inr (Or.inr ?_)
    simp [Store.remaining, Loader.remaining, hl, filter_shardTasks]
  | submit hl =>
    refine Or.inr (Or.inr ?_)
    simp [Store.remaining, Loader.remaining, hl, filter_shardTasks]
  | push hl =>
    refine Or.inr (Or.inr ?_)
    simp only [Store.remaining, Loader.remaining, hl, List.filter_cons, List.filter_append,
      List.filter_nil, decide_eq_true_eq]
    split_ifs <;> simp
  | _ =>
    refine Or.inr (Or.inr ?_)
    simp [Store.remaining, Loader.remaining, markFailed, latchDone, Store.release, *]

theorem TransferStep.remaining {te : TransferEvent} (h : s.transferStep te = some s') (id : TaskHandle) :
    id ∈ s'.failureSet ∨ s'.Failing id ∨
      ((s.enqueued (.transfer te)).toList.filter fun t => t.taskHandle = id).map ShardTask.shard ++
        s'.remaining id = s.remaining id := by
  cases te with
  | copy success =>
    simp only [transferStep] at h
    split at h
    · rename_i task ht
      split_ifs at h with hs hw
      · obtain rfl := Option.some.inj h
        by_cases he : task.taskHandle = id
        · exact Or.inr (Or.inl (Or.inl ⟨task, rfl, he⟩))
        · refine Or.inr (Or.inr ?_)
          obtain rfl : success = false := by simpa using hs
          simp [Store.remaining, Transfer.remaining, enqueued, ht, he]
      · obtain rfl := Option.some.inj h
        obtain rfl : success = true := by simpa using hs
        refine Or.inr (Or.inr ?_)
        by_cases he : task.taskHandle = id <;>
          simp [Store.remaining, Transfer.remaining, enqueued, ht, he]
      · obtain rfl := Option.some.inj h
        obtain rfl : success = true := by simpa using hs
        refine Or.inr (Or.inr ?_)
        by_cases he : task.taskHandle = id <;>
          simp [Store.remaining, Transfer.remaining, enqueued, ht, he]
    · cases h
  | _ =>
    cases transferStep_inv h with
    | @refuse task ht hf =>
      by_cases he : task.taskHandle = id
      · exact Or.inl (he ▸ hf)
      · refine Or.inr (Or.inr ?_)
        simp [Store.remaining, Transfer.remaining, enqueued, ht, he]
    | @spinFailed task ht =>
      by_cases he : task.taskHandle = id
      · exact Or.inr (Or.inl (Or.inl ⟨task, rfl, he⟩))
      · refine Or.inr (Or.inr ?_)
        simp [Store.remaining, Transfer.remaining, enqueued, ht, he]
    | @waitFailed task ht =>
      by_cases he : task.taskHandle = id
      · exact Or.inr (Or.inl (Or.inl ⟨task, rfl, he⟩))
      · refine Or.inr (Or.inr ?_)
        simp [Store.remaining, Transfer.remaining, enqueued, ht, he]
    | copyFailed ht => simp [transferStep, ht] at h
    | copyLast ht => simp [transferStep, ht] at h
    | copy ht => simp [transferStep, ht] at h
    | pop ht hr =>
      refine Or.inr (Or.inr ?_)
      simp only [Store.remaining, Transfer.remaining, ht, hr, enqueued, List.filter_cons, decide_eq_true_eq]
      split_ifs <;> simp
    | _ =>
      refine Or.inr (Or.inr ?_)
      simp [Store.remaining, Transfer.remaining, enqueued, markFailed, latchDone, Store.release, *]

/-- A step keeps the shards of a task together as long as the task does not fail. -/
theorem remaining_step (h : s.step config e = some s') (hid : id < s.nextId) :
    id ∈ s'.failureSet ∨ s'.Failing id ∨
      sent id ((s, e) :: tr) ++ s'.remaining id = sent id tr ++ s.remaining id := by
  cases e with
  | load e =>
    rcases (loadStep_inv h).remaining id with hf | hf | he
    · exact Or.inl hf
    · exact Or.inr (Or.inl hf)
    · exact Or.inr (Or.inr (by simp [sent, enqueued, he]))
  | transfer e =>
    rcases TransferStep.remaining h id with hf | hf | he
    · exact Or.inl hf
    · exact Or.inr (Or.inl hf)
    · exact Or.inr (Or.inr (by rw [sent, List.append_assoc, he]))
  | dump e =>
    have he : s'.remaining id = s.remaining id := by
      cases dumpStep_inv h <;> rfl
    exact Or.inr (Or.inr (by simp [sent, enqueued, he]))
  | backendDump e =>
    have he : s'.remaining id = s.remaining id := by
      cases backendDumpStep_inv h <;> rfl
    exact Or.inr (Or.inr (by simp [sent, enqueued, he]))
  | backend e =>
    have he : s'.remaining id = s.remaining id := by
      cases backendStep_inv h <;> rfl
    exact Or.inr (Or.inr (by simp [sent, enqueued, he]))
  | user e =>
    have he : s'.remaining id = s.remaining id := by
      cases userStep_inv h with
      | load => simp [remaining, enter, List.filter_append, hid.ne']
      | _ => rfl
    exact Or.inr (Or.inr (by simp [sent, enqueued, he]))

theorem failing_step (h : Step config s e s') (hf : s.Failing id) :
    s'.Failing id ∨ id ∈ s'.failureSet := by
  rcases hf with ⟨task, ht, rfl⟩ | ⟨got, hl⟩
  · have hkeep : s'.transfer = s.transfer → s'.Failing task.taskHandle ∨ task.taskHandle ∈ s'.failureSet :=
      fun he => Or.inl (Or.inl ⟨task, he.trans ht, rfl⟩)
    cases h with
    | load h => cases h <;> exact hkeep rfl
    | transfer h =>
      cases h with
      | @fail task' ht' =>
        obtain rfl := Transfer.fail.inj (ht'.symm.trans ht)
        exact Or.inr (Finset.mem_insert_self _ _)
      | clear ht' => simp [ht] at ht'
      | _ => simp_all
    | dump h => cases h <;> exact hkeep rfl
    | backendDump h => cases h <;> exact hkeep rfl
    | backend h => cases h <;> exact hkeep rfl
    | user h => cases h <;> exact hkeep rfl
  · have hkeep : s'.loader = s.loader → s'.Failing id ∨ id ∈ s'.failureSet :=
      fun he => Or.inl (Or.inr ⟨got, he.trans hl⟩)
    cases h with
    | load h =>
      cases h with
      | @fail id' got' hl' =>
        obtain ⟨rfl, _⟩ := Loader.fail.inj (hl'.symm.trans hl)
        exact Or.inr (Finset.mem_insert_self _ _)
      | skipNode hl' => simp [hl] at hl'
      | _ => simp_all
    | transfer h => cases h <;> exact hkeep rfl
    | dump h => cases h <;> exact hkeep rfl
    | backendDump h => cases h <;> exact hkeep rfl
    | backend h => cases h <;> exact hkeep rfl
    | user h => cases h <;> exact hkeep rfl

theorem tokens_le_step (h : s.step config e = some s') (hc : Counted s) (hid : id < s.nextId) :
    s'.tokens id ≤ s.tokens id := by
  have hl := latches_step h id
  have hr : s.raises e ≠ some id := fun he => hid.ne ((nextId_step h).2 id he).1
  rw [if_neg hr] at hl
  rcases (step_inv h).balances hc id with hb | ⟨_, hb⟩ <;> omega

/-- The tasks in the queues are those that were submitted to them. -/
structure Submitted (s : Store Data) : Prop where
  id_lt : ∀ task ∈ s.tasks, task.id < s.nextId
  unique : ∀ task ∈ s.tasks, ∀ task' ∈ s.tasks, task.id = task'.id → task = task'
  dump : ∀ task ∈ s.dumpWaiting ++ s.dumper.task.toList, task ∈ s.tasks ∧ task.type = .dump

theorem Submitted.enter {type : TransTask.TaskType} {desc : TaskDesc} (hs : Submitted s)
    (hn : s'.nextId = s.nextId + 1) (ht : s'.tasks = ⟨s.nextId, type, desc⟩ :: s.tasks)
    (hd : ∀ task ∈ s'.dumpWaiting ++ s'.dumper.task.toList,
      task ∈ s.dumpWaiting ++ s.dumper.task.toList ∨ task = ⟨s.nextId, .dump, desc⟩ ∧ type = .dump) :
    Submitted s' := by
  constructor
  · rw [ht, hn]
    intro task hm
    rcases List.mem_cons.mp hm with rfl | hm
    · exact Nat.lt_succ_self _
    · exact (hs.id_lt task hm).trans (Nat.lt_succ_self _)
  · rw [ht]
    intro task hm task' hm' he
    rcases List.mem_cons.mp hm with rfl | hm <;> rcases List.mem_cons.mp hm' with rfl | hm'
    · rfl
    · exact absurd he.symm (Nat.ne_of_lt (hs.id_lt task' hm'))
    · exact absurd he (Nat.ne_of_lt (hs.id_lt task hm))
    · exact hs.unique task hm task' hm' he
  · rw [ht]
    intro task hm
    rcases hd task hm with hm | ⟨rfl, rfl⟩
    · exact ⟨List.mem_cons_of_mem _ (hs.dump task hm).1, (hs.dump task hm).2⟩
    · exact ⟨List.mem_cons_self, rfl⟩

theorem Step.submitted (h : Step config s e s') (hs : Submitted s) : Submitted s' := by
  cases h with
  | load h => cases h <;> exact ⟨hs.id_lt, hs.unique, hs.dump⟩
  | transfer h => cases h <;> exact ⟨hs.id_lt, hs.unique, hs.dump⟩
  | dump h =>
    have hsub : ∀ task ∈ s'.dumpWaiting ++ s'.dumper.task.toList,
        task ∈ s.dumpWaiting ++ s.dumper.task.toList := by
      cases h <;> (simp_all [Dumper.task, markFailed, latchDone, Store.release]; try tauto)
    have heq : s'.tasks = s.tasks ∧ s'.nextId = s.nextId := by
      cases h <;> exact ⟨rfl, rfl⟩
    constructor
    · rw [heq.1, heq.2]
      exact hs.id_lt
    · rw [heq.1]
      exact hs.unique
    · rw [heq.1]
      exact fun task hm => hs.dump task (hsub task hm)
  | backendDump h => cases h <;> exact ⟨hs.id_lt, hs.unique, hs.dump⟩
  | backend h => cases h <;> exact ⟨hs.id_lt, hs.unique, hs.dump⟩
  | user h =>
    cases h with
    | @full type desc => exact hs.enter rfl rfl fun task hm => Or.inl hm
    | @load desc => exact hs.enter rfl rfl fun task hm => Or.inl hm
    | @dump desc =>
      refine hs.enter rfl rfl fun task hm => ?_
      simp only [List.mem_append, List.mem_singleton] at hm ⊢
      tauto
    | _ => exact ⟨hs.id_lt, hs.unique, hs.dump⟩

/-- Handles have the keys of their shards, and a shard is copied once its node is ready. -/
structure Carried (s : Store Data) : Prop where
  keyed : ∀ t ∈ s.pipe, t.bufferHandle.key = t.shard.key
  gathered : ∀ g ∈ s.loader.gathered, g.bufferHandle.key = g.shard.key
  ready : ∀ t, s.transfer = .copy t → s.pool.ready t.bufferHandle.node = true
  failed : ∀ id got, s.loader = .done id got → id ∈ s.failureSet

theorem LoadStep.keyed (h : LoadStep config s s') (hc : Carried s) :
    ∀ t ∈ s'.pipe, t.bufferHandle.key = t.shard.key := by
  have hnew : ∀ {id h got}, s.loader = .submit id got → ∀ t ∈ shardTasks id h got,
      t.bufferHandle.key = t.shard.key := by
    intro id h got hl t ht
    obtain ⟨_, g, hg, hb, hs, _⟩ := mem_shardTasks ht
    rw [hb, hs]
    exact hc.gathered g (by rw [hl]; exact hg)
  have hsub : (∀ t ∈ s'.pipe, t ∈ s.pipe) → ∀ t ∈ s'.pipe, t.bufferHandle.key = t.shard.key :=
    fun hsub t ht => hc.keyed t (hsub t ht)
  cases h with
  | @allReady id got hl =>
    intro t ht
    have ht : t ∈ s.pipe ∨ t ∈ shardTasks id 0 got := by
      simpa [Store.pipe, hl, Loader.pushing, or_assoc] using ht
    exact ht.elim (hc.keyed t) (hnew hl t)
  | @submit id got h hl =>
    intro t ht
    have ht : t ∈ s.pipe ∨ t ∈ shardTasks id h got := by
      simpa [Store.pipe, hl, Loader.pushing, or_assoc] using ht
    exact ht.elim (hc.keyed t) (hnew hl t)
  | _ =>
    apply hsub
    simp [Store.pipe, Loader.pushing, markFailed, latchDone, Store.release, *]

/-- Nothing is left of a task that nobody counts for. -/
theorem remaining_eq_nil (hcov : Covered s.pipe) (ht : s.tokens id = 0) : s.remaining id = [] := by
  have hno : ∀ t ∈ s.pipe, t.taskHandle ≠ id := by
    rintro t hm rfl
    exact absurd (tokens_pos_of_covered hcov hm) (by omega)
  have hwait : ∀ task ∈ s.loadWaiting, task.id ≠ id := by
    intro task hm he
    have : 0 < s.loadWaiting.countP fun task => task.id = id :=
      List.countP_pos_iff.mpr ⟨task, hm, by simp [he]⟩
    simp only [tokens] at ht
    omega
  have hl : s.loader.tokens id = 0 := by
    simp only [tokens] at ht
    omega
  have htransfer : s.transfer.remaining id = [] := by
    have hfront : ∀ t ∈ s.transfer.front, t.taskHandle ≠ id :=
      fun t hm => hno t (List.mem_append_left _ hm)
    cases he : s.transfer <;> simp_all [Transfer.remaining, Transfer.front, Transfer.task]
  have hrunning : (s.running.filter fun t => t.taskHandle = id) = [] := by
    apply List.filter_eq_nil_iff.mpr
    intro t hm
    simpa using hno t (List.mem_append_right _ (List.mem_append_left _ hm))
  have hloader : s.loader.remaining id = [] := by
    have hpush : ∀ t ∈ s.loader.pushing, t.taskHandle ≠ id :=
      fun t hm => hno t (List.mem_append_right _ (List.mem_append_right _ hm))
    cases he : s.loader <;> simp_all [Loader.remaining, Loader.tokens, Loader.pushing]
  have hwaiting : (s.loadWaiting.filter fun task => task.id = id) = [] := by
    apply List.filter_eq_nil_iff.mpr
    intro task hm
    simpa using hwait task hm
  rw [remaining, htransfer, hrunning, hloader, hwaiting]
  rfl

/-- When the last shard of a task is copied, nothing is left of the task. -/
theorem remaining_of_sync {task : ShardTask} (hcov : Covered s.pipe) (hc : Counted s) (hone : Single s)
    (ht : s.transfer = .sync task) (hw : task.waiter = true) : s.remaining task.taskHandle = [] := by
  have hle : s.tokens task.taskHandle ≤ 1 :=
    (hc _).trans ((hone _).trans (by split_ifs <;> simp))
  have hpipe := pipe_of_task (s := s) (by rw [ht]; rfl)
  have hnil : Store.remaining { s with transfer := .release task } task.taskHandle = [] := by
    apply remaining_eq_nil
    · rw [hpipe] at hcov
      exact hcov.2
    · have hlast : ([task].countP fun x => x.waiter ∧ x.taskHandle = task.taskHandle) = 1 := by
        simp [hw]
      simp only [tokens, ht, Transfer.front, Transfer.task, Option.toList, hlast, List.countP_nil] at hle ⊢
      omega
  simpa [Store.remaining, ht, Transfer.remaining] using hnil

theorem sent_eq_nil (h : ∀ x ∈ tr, ∀ task ∈ x.1.enqueued x.2, task.taskHandle ≠ id) : sent id tr = [] := by
  induction tr with
  | nil => rfl
  | cons x tr ih =>
    have hx : ((x.1.enqueued x.2).toList.filter fun t => t.taskHandle = id) = [] := by
      apply List.filter_eq_nil_iff.mpr
      intro task hm
      simpa using h x List.mem_cons_self task (by simpa using hm)
    rw [sent, hx, ih fun y hy => h y (List.mem_cons_of_mem _ hy)]
    rfl

/-- What has been copied so far, and that a last shard that goes on has synchronized. -/
structure Sending (tr : List (Store Data × Event Data)) (s : Store Data) : Prop where
  ready : SentReady tr
  known : ∀ x ∈ tr, ∀ task ∈ x.1.enqueued x.2, task.taskHandle < s.nextId
  together : ∀ task ∈ s.tasks, task.type = .load → 0 < s.tokens task.id → task.id ∉ s.failureSet →
    ¬ s.Failing task.id → sent task.id tr ++ s.remaining task.id = task.desc
  loaded : ∀ t, s.transfer = .clear t true ∨ s.transfer = .done t → t.waiter = true →
    t.taskHandle ∉ s.failureSet → ∀ task ∈ s.tasks, task.type = .load → task.id = t.taskHandle →
      Loaded task.id task.desc tr

theorem transfer_of_enqueued {task : ShardTask} (h : s.enqueued e = some task) : s.transfer = .copy task := by
  unfold enqueued at h
  split at h
  · split at h
    · rename_i ht
      obtain rfl := Option.some.inj h
      exact ht
    · cases h
  · cases h

theorem tasks_step (h : Step config s e s') : s'.tasks = s.tasks ∨
    ∃ desc, s'.tasks = ⟨s.nextId, .dump, desc⟩ :: s.tasks ∨ s'.tasks = ⟨s.nextId, .load, desc⟩ :: s.tasks ∧
      (s.nextId ∈ s'.failureSet ∨ s'.remaining s.nextId = s.remaining s.nextId ++ desc ∧
        s.enqueued e = none) := by
  cases h with
  | load h => cases h <;> exact Or.inl rfl
  | transfer h => cases h <;> exact Or.inl rfl
  | dump h => cases h <;> exact Or.inl rfl
  | backendDump h => cases h <;> exact Or.inl rfl
  | backend h => cases h <;> exact Or.inl rfl
  | user h =>
    cases h with
    | @full type desc =>
      cases type with
      | load => exact Or.inr ⟨desc, Or.inr ⟨rfl, Or.inl (Finset.mem_insert_self _ _)⟩⟩
      | dump => exact Or.inr ⟨desc, Or.inl rfl⟩
    | @load desc =>
      have hrem : Store.remaining { s.enter ⟨s.nextId, .load, desc⟩ with
          loadWaiting := s.loadWaiting ++ [⟨s.nextId, .load, desc⟩] } s.nextId =
          s.remaining s.nextId ++ desc := by
        simp [Store.remaining, enter, List.filter_append]
      exact Or.inr ⟨desc, Or.inr ⟨rfl, Or.inr ⟨hrem, rfl⟩⟩⟩
    | @dump desc => exact Or.inr ⟨desc, Or.inl rfl⟩
    | _ => exact Or.inl rfl

theorem together_step (h : s.step config e = some s') (hpipe : Pipe s) (hc : Counted s) (hone : Single s)
    (hsub : Submitted s) (hs : Sending tr s) : ∀ task ∈ s'.tasks, task.type = .load →
      0 < s'.tokens task.id → task.id ∉ s'.failureSet → ¬ s'.Failing task.id →
        sent task.id ((s, e) :: tr) ++ s'.remaining task.id = task.desc := by
  have hstep := step_inv h
  have hold : ∀ task ∈ s.tasks, task.type = .load → 0 < s'.tokens task.id → task.id ∉ s'.failureSet →
      ¬ s'.Failing task.id → sent task.id ((s, e) :: tr) ++ s'.remaining task.id = task.desc := by
    intro task hm htype hpos hf hfail
    have hid := hsub.id_lt task hm
    have hpos₀ : 0 < s.tokens task.id := lt_of_lt_of_le hpos (tokens_le_step h hc hid)
    have hf₀ : task.id ∉ s.failureSet := fun hin => hf (hstep.failureSet hc hin hpos₀)
    have hfail₀ : ¬ s.Failing task.id := fun hin => (failing_step hstep hin).elim hfail hf
    rcases remaining_step h hid with hin | hin | he
    · exact absurd hin hf
    · exact absurd hin hfail
    · rw [he]
      exact hs.together task hm htype hpos₀ hf₀ hfail₀
  rcases tasks_step hstep with he | ⟨desc, he | ⟨he, hnew⟩⟩
  · rw [he]
    exact hold
  · rw [he]
    intro task hm htype
    rcases List.mem_cons.mp hm with rfl | hm
    · cases htype
    · exact hold task hm htype
  · rw [he]
    intro task hm htype hpos hf hfail
    rcases List.mem_cons.mp hm with rfl | hm
    · obtain ⟨hrem, hnone⟩ := hnew.resolve_left hf
      have hzero : s.tokens s.nextId = 0 := by
        have := (hc s.nextId).trans (hone s.nextId)
        rw [if_neg (lt_irrefl _)] at this
        omega
      have hsent : sent s.nextId tr = [] :=
        sent_eq_nil fun x hx task ht => (hs.known x hx task ht).ne
      rw [sent, hsent, hnone, hrem, remaining_eq_nil hpipe.covered hzero]
      rfl
    · exact hold task hm htype hpos hf hfail

/-- The copies of the last shard's task are complete when it synchronizes. -/
theorem Sending.loaded_sync {task : ShardTask} (hs : Sending tr s) (hpipe : Pipe s) (hc : Counted s)
    (hone : Single s) (ht : s.transfer = .sync task) (hw : task.waiter = true)
    (hf : task.taskHandle ∉ s.failureSet) {t : TransTask} (hm : t ∈ s.tasks) (htype : t.type = .load)
    (hid : t.id = task.taskHandle) : Loaded t.id t.desc ((s, .transfer (.sync true)) :: tr) := by
  have hpos : 0 < s.tokens t.id := by
    rw [hid]
    exact hpipe.tokens_pos (by rw [pipe_of_task (by rw [ht]; rfl)]; exact List.mem_cons_self)
  have hfail : ¬ s.Failing t.id := by
    rintro (⟨task', ht', _⟩ | ⟨got, hl⟩)
    · rw [ht] at ht'
      cases ht'
    · have hle := (hc t.id).trans (hone t.id)
      have hlast : ([task].countP fun x => x.waiter ∧ x.taskHandle = t.id) = 1 := by
        simp [hw, hid]
      simp only [tokens, ht, hl, Transfer.front, Transfer.task, Option.toList, Loader.tokens, if_true,
        hlast] at hle
      split_ifs at hle <;> omega
  have htogether := hs.together t hm htype hpos (hid ▸ hf) hfail
  rw [hid, remaining_of_sync hpipe.covered hc hone ht hw, List.append_nil, ← hid] at htogether
  exact ⟨[], s, tr, rfl, htogether, hs.ready⟩

theorem mem_pipe_of_front {task : ShardTask} (ht : s.transfer.front = [task]) : task ∈ s.pipe := by
  rw [pipe_of_task ht]
  exact List.mem_cons_self

theorem id_lt_of_pipe {t : ShardTask} (hpipe : Pipe s) (hc : Counted s) (hone : Single s) (hm : t ∈ s.pipe) :
    t.taskHandle < s.nextId := by
  have hpos := hpipe.tokens_pos hm
  have hle := (hc t.taskHandle).trans (hone t.taskHandle)
  by_contra hlt
  rw [if_neg hlt] at hle
  omega

/-- A task that is there already, seen after a step. -/
theorem mem_tasks_of_lt {t : TransTask} (h : Step config s e s') (hm : t ∈ s'.tasks) (hid : t.id < s.nextId) :
    t ∈ s.tasks := by
  rcases tasks_step h with he | ⟨desc, he | ⟨he, _⟩⟩
  · exact he ▸ hm
  · rw [he] at hm
    rcases List.mem_cons.mp hm with rfl | hm
    · exact absurd hid (lt_irrefl _)
    · exact hm
  · rw [he] at hm
    rcases List.mem_cons.mp hm with rfl | hm
    · exact absurd hid (lt_irrefl _)
    · exact hm

theorem loaded_step (h : s.step config e = some s') (hpipe : Pipe s) (hc : Counted s) (hone : Single s)
    (hs : Sending tr s) : ∀ t, s'.transfer = .clear t true ∨ s'.transfer = .done t →
      t.waiter = true → t.taskHandle ∉ s'.failureSet → ∀ task ∈ s'.tasks, task.type = .load →
        task.id = t.taskHandle → Loaded task.id task.desc ((s, e) :: tr) := by
  have hstep := step_inv h
  intro t ht hw hf task hm htype hid
  have hfront : s.transfer.front = [t] → task ∈ s.tasks ∧ t.taskHandle ∉ s.failureSet := by
    intro hfront
    have hmem := mem_pipe_of_front hfront
    have hlt : task.id < s.nextId := hid ▸ id_lt_of_pipe hpipe hc hone hmem
    exact ⟨mem_tasks_of_lt hstep hm hlt, fun hin => hf (hstep.failureSet hc hin (hpipe.tokens_pos hmem))⟩
  have hkeep : s.transfer = .clear t true ∨ s.transfer = .done t →
      Loaded task.id task.desc ((s, e) :: tr) := by
    intro ht₀
    have hfr : s.transfer.front = [t] := by
      rcases ht₀ with ht₀ | ht₀ <;> rw [ht₀] <;> rfl
    obtain ⟨hm₀, hf₀⟩ := hfront hfr
    exact (hs.loaded t ht₀ hw hf₀ task hm₀ htype hid).cons
  have hsame : s'.transfer = s.transfer → Loaded task.id task.desc ((s, e) :: tr) :=
    fun he => hkeep (he ▸ ht)
  cases e with
  | load e => exact hsame (by cases loadStep_inv h <;> rfl)
  | dump e => exact hsame (by cases dumpStep_inv h <;> rfl)
  | backendDump e => exact hsame (by cases backendDumpStep_inv h <;> rfl)
  | backend e => exact hsame (by cases backendStep_inv h <;> rfl)
  | user e => exact hsame (by cases userStep_inv h <;> rfl)
  | transfer e =>
    change s.transferStep e = some s' at h
    cases e with
    | sync success =>
      simp only [transferStep] at h
      split at h
      · rename_i task' ht₀
        split_ifs at h with hb hh
        · obtain rfl := Option.some.inj h
          simp at ht
        · obtain rfl := Option.some.inj h
          obtain rfl : success = true := by simpa using hb
          obtain rfl : task' = t := by simpa using ht
          obtain ⟨hm₀, hf₀⟩ := hfront (by rw [ht₀]; rfl)
          exact hs.loaded_sync hpipe hc hone ht₀ hw hf₀ hm₀ htype hid
      · cases h
    | _ =>
      cases transferStep_inv h with
      | @refuse task' _ hin =>
        obtain rfl : task' = t := by simpa using ht
        exact absurd hin hf
      | fail =>
        obtain rfl := Transfer.done.inj (ht.resolve_left (by simp))
        exact absurd (Finset.mem_insert_self _ _) hf
      | cleared ht₀ =>
        obtain rfl := Transfer.done.inj (ht.resolve_left (by simp))
        exact hkeep (Or.inl ht₀)
      | sync ht₀ => simp [transferStep, ht₀] at h
      | clear => exact hkeep ht
      | _ => simp at ht

theorem Sending.step (h : s.step config e = some s') (hb : Base s) (hpipe : Pipe s) (hc : Counted s)
    (hone : Single s) (hsub : Submitted s) (hcarried : Carried s) (hs : Sending tr s) :
    Sending ((s, e) :: tr) s' := by
  have hcopy : ∀ task ∈ s.enqueued e, task ∈ s.pipe ∧ s.transfer = .copy task := by
    intro task hm
    have ht := transfer_of_enqueued hm
    exact ⟨mem_pipe_of_front (by rw [ht]; rfl), ht⟩
  constructor
  · intro x hx task hm
    rcases List.mem_cons.mp hx with rfl | hx
    · obtain ⟨hp, ht⟩ := hcopy task hm
      have hkey := hb.held.key _ (mem_handles_of_load (mem_loadHandles_of_pipe hp))
      exact ⟨hcarried.ready task ht, hcarried.keyed task hp ▸ hkey⟩
    · exact hs.ready x hx task hm
  · intro x hx task hm
    have hnext := (nextId_step h).1
    rcases List.mem_cons.mp hx with rfl | hx
    · exact lt_of_lt_of_le (id_lt_of_pipe hpipe hc hone (hcopy task hm).1) hnext
    · exact lt_of_lt_of_le (hs.known x hx task hm) hnext
  · exact together_step h hpipe hc hone hsub hs
  · exact loaded_step h hpipe hc hone hs

end Store

end UnifiedCache.CacheStore
