import UnifiedCache.Cache.Handles

/-! The jobs of the backend and the latches of the tasks. A handle stands for one
job, which has a result exactly when it is over. The latch of a task is up while a
thread or queue still has to count it down. -/

namespace UnifiedCache.CacheStore

def Loader.tokens (id : TaskHandle) : Loader → Nat
  | .check task => if task.id = id then 1 else 0
  | .find t _ _ => if t = id then 1 else 0
  | .alloc t _ _ _ => if t = id then 1 else 0
  | .submit t _ => if t = id then 1 else 0
  | .push tasks => tasks.countP fun x => x.waiter ∧ x.taskHandle = id
  | .fail t _ => if t = id then 1 else 0
  | .done t _ => if t = id then 1 else 0
  | _ => 0

/-- The shard that the transfer thread is at, as long as its task can learn of it. -/
def Transfer.front : Transfer → List ShardTask
  | .release _ => []
  | t => t.task.toList

def Dumper.task : Dumper → Option TransTask
  | .idle => none
  | .check task => some task
  | .find task _ _ => some task
  | .alloc task _ _ _ => some task
  | .got task _ _ _ _ => some task
  | .sync task _ => some task
  | .mark task _ _ => some task
  | .push task _ _ => some task
  | .drop task _ => some task
  | .fail task => some task
  | .done task => some task

namespace Store

variable {Data : Type} {config : Config Data} {s s' : Store Data}

def jobHandles (s : Store Data) : List TaskHandle :=
  s.loadJobs.map LoadJob.handle ++ s.dumpJobs.map DumpJob.handle

structure Jobs (s : Store Data) : Prop where
  nodup : s.jobHandles.Nodup
  none : ∀ h ∈ s.jobHandles, s.results h = none
  le : ∀ h ∈ s.jobHandles, h ≤ s.lastJob
  result_le : ∀ h, s.results h ≠ Option.none → h ≤ s.lastJob

theorem jobs_setup {data : Nat → Data} : Jobs (setup config data) :=
  ⟨List.nodup_nil, fun _ h => absurd h List.not_mem_nil, fun _ h => absurd h List.not_mem_nil,
    fun _ h => absurd rfl h⟩

theorem Jobs.submit {h : TaskHandle} (hj : Jobs s) (hh : s.lastJob < h)
    (hp : s'.jobHandles.Perm (h :: s.jobHandles)) (hr : s'.results = s.results) (hl : s'.lastJob = h) :
    Jobs s' := by
  refine ⟨hp.nodup_iff.mpr (List.nodup_cons.mpr ⟨fun hm => ?_, hj.nodup⟩), fun x hx => ?_,
    fun x hx => ?_, fun x hx => ?_⟩
  · exact absurd (hj.le h hm) (Nat.not_le_of_lt hh)
  · rw [hr]
    rcases List.mem_cons.mp (hp.mem_iff.mp hx) with rfl | hx
    · by_contra hne
      exact absurd (hj.result_le x hne) (Nat.not_le_of_lt hh)
    · exact hj.none x hx
  · rw [hl]
    rcases List.mem_cons.mp (hp.mem_iff.mp hx) with rfl | hx
    · exact le_refl _
    · exact le_trans (hj.le x hx) hh.le
  · rw [hr] at hx
    exact hl ▸ le_trans (hj.result_le x hx) hh.le

theorem Jobs.finish {h : TaskHandle} {b : Bool} (hj : Jobs s) (hp : s.jobHandles.Perm (h :: s'.jobHandles))
    (hr : s'.results = Function.update s.results h (some b)) (hl : s'.lastJob = s.lastJob) : Jobs s' := by
  obtain ⟨hm, hn⟩ := List.nodup_cons.mp (hp.nodup_iff.mp hj.nodup)
  refine ⟨hn, fun x hx => ?_, fun x hx => ?_, fun x hx => ?_⟩
  · have hne : x ≠ h := by
      rintro rfl
      exact hm hx
    rw [hr, Function.update_of_ne hne]
    exact hj.none x (hp.mem_iff.mpr (List.mem_cons_of_mem _ hx))
  · rw [hl]
    exact hj.le x (hp.mem_iff.mpr (List.mem_cons_of_mem _ hx))
  · rw [hl]
    by_cases he : x = h
    · exact hj.le x (hp.mem_iff.mpr (by simp [he]))
    · rw [hr, Function.update_of_ne he] at hx
      exact hj.result_le x hx

theorem LoadStep.jobs (h : LoadStep config s s') (hj : Jobs s) : Jobs s' := by
  cases h with
  | submit hl hi hh => exact hj.submit hh (by simp [jobHandles]) rfl rfl
  | _ => exact ⟨hj.nodup, hj.none, hj.le, hj.result_le⟩

theorem DumpStep.jobs (h : DumpStep config s s') (hj : Jobs s) : Jobs s' := by
  cases h with
  | submit hd hh => exact hj.submit hh (by simp [jobHandles]) rfl rfl
  | _ => exact ⟨hj.nodup, hj.none, hj.le, hj.result_le⟩

theorem perm_jobHandles_load {job : LoadJob} (hm : job ∈ s.loadJobs) : s.jobHandles.Perm
    (job.handle :: ((s.loadJobs.erase job).map LoadJob.handle ++ s.dumpJobs.map DumpJob.handle)) :=
  ((List.perm_cons_erase hm).map LoadJob.handle).append_right _

theorem perm_jobHandles_dump {job : DumpJob} (hm : job ∈ s.dumpJobs) : s.jobHandles.Perm
    (job.handle :: (s.loadJobs.map LoadJob.handle ++ (s.dumpJobs.erase job).map DumpJob.handle)) :=
  (((List.perm_cons_erase hm).map DumpJob.handle).append_left _).trans List.perm_middle

theorem BackendStep.jobs (h : BackendStep config s s') (hj : Jobs s) : Jobs s' := by
  cases h with
  | loadDone content hm => exact hj.finish (perm_jobHandles_load hm) rfl rfl
  | loadFailed hm => exact hj.finish (perm_jobHandles_load hm) rfl rfl
  | dumpDone hm => exact hj.finish (perm_jobHandles_dump hm) rfl rfl
  | _ => exact ⟨hj.nodup, hj.none, hj.le, hj.result_le⟩

theorem Step.jobs {e : Event Data} (h : Step config s e s') (hj : Jobs s) : Jobs s' := by
  cases h with
  | load h => exact h.jobs hj
  | transfer h => cases h <;> exact ⟨hj.nodup, hj.none, hj.le, hj.result_le⟩
  | dump h => exact h.jobs hj
  | backendDump h => cases h <;> exact ⟨hj.nodup, hj.none, hj.le, hj.result_le⟩
  | backend h => exact h.jobs hj
  | user h => cases h <;> exact ⟨hj.nodup, hj.none, hj.le, hj.result_le⟩

/-- A result stays. -/
theorem Step.results {e : Event Data} (h : Step config s e s') (hj : Jobs s) {j : TaskHandle}
    (hr : s.results j ≠ none) : s'.results j = s.results j := by
  have hne : ∀ i ∈ s.jobHandles, j ≠ i := by
    rintro i hi rfl
    exact hr (hj.none j hi)
  cases h with
  | load h => cases h <;> rfl
  | transfer h => cases h <;> rfl
  | dump h => cases h <;> rfl
  | backendDump h => cases h <;> rfl
  | backend h =>
    cases h with
    | loadDone content hm =>
      exact Function.update_of_ne (hne _ (List.mem_append_left _ (List.mem_map_of_mem hm))) _ _
    | loadFailed hm =>
      exact Function.update_of_ne (hne _ (List.mem_append_left _ (List.mem_map_of_mem hm))) _ _
    | dumpDone hm =>
      exact Function.update_of_ne (hne _ (List.mem_append_right _ (List.mem_map_of_mem hm))) _ _
    | _ => rfl
  | user h => cases h <;> rfl

/-- How often the latch of a task is still to be counted down. -/
def tokens (s : Store Data) (id : TaskHandle) : Nat :=
  s.loadWaiting.countP (fun task => task.id = id) + s.loader.tokens id +
    (s.running.countP (fun x => x.waiter ∧ x.taskHandle = id) +
      s.transfer.front.countP (fun x => x.waiter ∧ x.taskHandle = id)) +
    (s.dumpWaiting.countP (fun task => task.id = id) + s.dumper.task.toList.countP fun task => task.id = id)

def Counted (s : Store Data) : Prop := ∀ id, s.tokens id ≤ s.latches id

theorem counted_setup {data : Nat → Data} : Counted (setup config data) := fun _ => le_refl _

/-- The last shard of a task carries its one token. -/
theorem countP_shardTasks {got : List Gathered} (id h t : TaskHandle) (hg : got ≠ []) :
    ((shardTasks id h got).countP fun x => x.waiter ∧ x.taskHandle = t) = if id = t then 1 else 0 := by
  induction got with
  | nil => exact absurd rfl hg
  | cons g got ih =>
    cases got with
    | nil => simp [shardTasks, List.countP_cons]
    | cons g' got => simpa [shardTasks, List.countP_cons] using ih (List.cons_ne_nil g' got)

/-- A step moves the tokens of a task as it moves the latch, unless the load dispatcher
is done with a task without shards, whose token it drops. -/
def Balances (s s' : Store Data) (id : TaskHandle) : Prop :=
  s'.tokens id + s.latches id = s.tokens id + s'.latches id ∨
    s.loader = .submit id [] ∧ s'.tokens id + s.latches id + 1 = s.tokens id + s'.latches id

theorem Balances.le {id : TaskHandle} (h : Balances s s' id) (hc : s.tokens id ≤ s.latches id) :
    s'.tokens id ≤ s'.latches id := by
  rcases h with h | ⟨_, h⟩ <;> omega

theorem LoadStep.balances (h : LoadStep config s s') (hc : Counted s) (t : TaskHandle) :
    Balances s s' t := by
  have ht := hc t
  cases h with
  | pop hl hw =>
    refine Or.inl ?_
    simp only [tokens, hl, hw, Loader.tokens, List.countP_cons, decide_eq_true_eq]
    omega
  | @refuse task hl =>
    refine Or.inl ?_
    simp only [tokens, hl, Loader.tokens, latchDone, Function.update_apply] at ht ⊢
    by_cases he : t = task.id <;> grind
  | @allReady id got hl =>
    by_cases hg : got = []
    · subst hg
      by_cases he : id = t
      · subst he
        refine Or.inr ⟨hl, ?_⟩
        simp only [tokens, hl, Loader.tokens, shardTasks, List.countP_nil, if_true]
        omega
      · refine Or.inl ?_
        simp only [tokens, hl, Loader.tokens, shardTasks, List.countP_nil, if_neg he]
    · refine Or.inl ?_
      simp only [tokens, hl, Loader.tokens, countP_shardTasks id 0 t hg]
  | @submit id got h hl hi =>
    have hg : got ≠ [] := by
      rintro rfl
      exact hi rfl
    refine Or.inl ?_
    simp only [tokens, hl, Loader.tokens, countP_shardTasks id h t hg]
  | push hl =>
    refine Or.inl ?_
    simp only [tokens, hl, Loader.tokens, List.countP_cons, List.countP_append, List.countP_nil]
    omega
  | @done id got hl =>
    refine Or.inl ?_
    simp only [tokens, hl, Loader.tokens, latchDone, Function.update_apply] at ht ⊢
    by_cases he : t = id <;> grind
  | _ =>
    refine Or.inl ?_
    simp_all [tokens, Loader.tokens, markFailed, Store.release]

theorem TransferStep.balances (h : TransferStep s s') (hc : Counted s) (t : TaskHandle) :
    s'.tokens t + s.latches t = s.tokens t + s'.latches t := by
  have ht := hc t
  cases h with
  | pop hl hw =>
    simp only [tokens, hl, hw, Transfer.front, Transfer.task, Option.toList, List.countP_cons,
      List.countP_nil]
    omega
  | @doneLast task hl hw =>
    simp only [tokens, hl, Transfer.front, Transfer.task, latchDone, Function.update_apply, hw,
      Option.toList, List.countP_cons, List.countP_nil] at ht ⊢
    by_cases he : t = task.taskHandle <;> grind
  | _ => simp_all [tokens, Transfer.front, Transfer.task, markFailed, Store.release]

theorem DumpStep.balances (h : DumpStep config s s') (hc : Counted s) (t : TaskHandle) :
    s'.tokens t + s.latches t = s.tokens t + s'.latches t := by
  have ht := hc t
  cases h with
  | pop hl hw =>
    simp only [tokens, hl, hw, Dumper.task, Option.toList, List.countP_cons, List.countP_nil]
    omega
  | @done task hl =>
    simp only [tokens, hl, Dumper.task, latchDone, Function.update_apply, Option.toList,
      List.countP_cons, List.countP_nil] at ht ⊢
    by_cases he : t = task.id <;> grind
  | _ => simp_all [tokens, Dumper.task, markFailed, Store.release]

theorem UserStep.balances (h : UserStep s s') (t : TaskHandle) :
    s'.tokens t + s.latches t = s.tokens t + s'.latches t := by
  cases h with
  | full =>
    simp only [tokens, enter, markFailed, latchDone, Function.update_self, Function.update_apply]
    split_ifs <;> simp_all
  | load =>
    simp only [tokens, enter, Function.update_apply, List.countP_append, List.countP_cons,
      List.countP_nil]
    by_cases he : t = s.nextId <;> grind
  | dump =>
    simp only [tokens, enter, Function.update_apply, List.countP_append, List.countP_cons,
      List.countP_nil]
    by_cases he : t = s.nextId <;> grind
  | _ => rfl

theorem Step.balances {e : Event Data} (h : Step config s e s') (hc : Counted s) (t : TaskHandle) :
    Balances s s' t := by
  cases h with
  | load h => exact h.balances hc t
  | transfer h => exact Or.inl (h.balances hc t)
  | dump h => exact Or.inl (h.balances hc t)
  | backendDump h => cases h <;> exact Or.inl rfl
  | backend h => cases h <;> exact Or.inl rfl
  | user h => exact Or.inl (h.balances t)

theorem Step.counted {e : Event Data} (h : Step config s e s') (hc : Counted s) : Counted s' :=
  fun t => (h.balances hc t).le (hc t)

/-- The failure set keeps a task while its latch is still to be counted down. -/
theorem Step.failureSet {e : Event Data} (h : Step config s e s') (hc : Counted s) {id : TaskHandle}
    (hf : id ∈ s.failureSet) (ht : 0 < s.tokens id) : id ∈ s'.failureSet := by
  have hl : s.latches id ≠ 0 := Nat.pos_iff_ne_zero.mp (Nat.lt_of_lt_of_le ht (hc id))
  cases h with
  | load h => cases h <;> first | exact hf | exact Finset.mem_insert_of_mem hf
  | transfer h => cases h <;> first | exact hf | exact Finset.mem_insert_of_mem hf
  | dump h => cases h <;> first | exact hf | exact Finset.mem_insert_of_mem hf
  | backendDump h => cases h <;> exact hf
  | backend h => cases h <;> exact hf
  | user h =>
    cases h with
    | error hl' =>
      refine Finset.mem_erase.mpr ⟨?_, hf⟩
      rintro rfl
      exact hl hl'
    | timedOut hl' =>
      refine Finset.mem_erase.mpr ⟨?_, hf⟩
      rintro rfl
      exact hl hl'
    | full => exact Finset.mem_insert_of_mem hf
    | timeout => exact Finset.mem_insert_of_mem hf
    | _ => exact hf

end Store

end UnifiedCache.CacheStore
