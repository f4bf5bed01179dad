import UnifiedCache.Cache.Jobs

/-! The shards between the dispatcher of the load queue and its transfer thread. They
stay in order, a shard of a task is followed by the one that carries the waiter, and
the shards of a failed job belong to one task, which is then in the failure set. -/

namespace UnifiedCache.CacheStore

def Loader.pushing : Loader → List ShardTask
  | .push tasks => tasks
  | _ => []

/-- Each shard is the last of its task or has the last one behind it. -/
def Covered : List ShardTask → Prop
  | [] => True
  | t :: l => (∃ w ∈ t :: l, w.waiter = true ∧ w.taskHandle = t.taskHandle) ∧ Covered l

/-- Jobs of later shards are later jobs, and a job belongs to one task. -/
def ShardTask.Before (a b : ShardTask) : Prop :=
  b.backendTaskHandle ≠ 0 → a.backendTaskHandle ≤ b.backendTaskHandle ∧
    (a.backendTaskHandle = b.backendTaskHandle → a.taskHandle = b.taskHandle)

theorem Covered.append {l l' : List ShardTask} (h : Covered l) (h' : Covered l') : Covered (l ++ l') := by
  induction l with
  | nil => exact h'
  | cons t l ih =>
    obtain ⟨⟨w, hw, he⟩, ht⟩ := h
    exact ⟨⟨w, List.mem_append_left l' hw, he⟩, ih ht⟩

theorem Covered.suffix {l l' : List ShardTask} (h : Covered l) (hs : l' <:+ l) : Covered l' := by
  obtain ⟨l₀, rfl⟩ := hs
  induction l₀ with
  | nil => exact h
  | cons t l₀ ih => exact ih h.2

theorem Covered.exists_waiter {l : List ShardTask} {t : ShardTask} (h : Covered l) (ht : t ∈ l) :
    ∃ w ∈ l, w.waiter = true ∧ w.taskHandle = t.taskHandle := by
  induction l with
  | nil => cases ht
  | cons u l ih =>
    rcases List.mem_cons.mp ht with rfl | ht
    · exact h.1
    · obtain ⟨w, hw, he⟩ := ih h.2 ht
      exact ⟨w, List.mem_cons_of_mem _ hw, he⟩

namespace Store

variable {Data : Type} {config : Config Data} {s s' : Store Data}

theorem mem_shardTasks {id h : TaskHandle} {got : List Gathered} {t : ShardTask}
    (ht : t ∈ shardTasks id h got) : t.taskHandle = id ∧
      ∃ g ∈ got, t.bufferHandle = g.bufferHandle ∧ t.shard = g.shard ∧
        t.backendTaskHandle = if g.fill then h else 0 := by
  induction got with
  | nil => cases ht
  | cons g got ih =>
    cases got with
    | nil =>
      obtain rfl := List.mem_singleton.mp ht
      exact ⟨rfl, g, List.mem_cons_self, rfl, rfl, rfl⟩
    | cons g' got =>
      rcases List.mem_cons.mp ht with rfl | ht
      · exact ⟨rfl, g, List.mem_cons_self, rfl, rfl, rfl⟩
      · obtain ⟨hid, x, hx, he⟩ := ih ht
        exact ⟨hid, x, List.mem_cons_of_mem _ hx, he⟩

theorem covered_shardTasks (id h : TaskHandle) (got : List Gathered) : Covered (shardTasks id h got) := by
  induction got with
  | nil => trivial
  | cons g got ih =>
    cases got with
    | nil => exact ⟨⟨_, List.mem_cons_self, rfl, rfl⟩, trivial⟩
    | cons g' got =>
      refine ⟨?_, ih⟩
      obtain ⟨t, ht⟩ : ∃ t, t ∈ shardTasks id h (g' :: got) := by
        cases got <;> exact ⟨_, List.mem_cons_self⟩
      obtain ⟨w, hw, hwt, he⟩ := ih.exists_waiter ht
      exact ⟨w, List.mem_cons_of_mem _ hw, hwt, he.trans (mem_shardTasks ht).1⟩

theorem before_shardTasks (id h : TaskHandle) (got : List Gathered) :
    (shardTasks id h got).Pairwise ShardTask.Before := by
  refine List.pairwise_of_forall_mem_list fun a ha b hb hne => ?_
  obtain ⟨hida, ga, _, _, _, hha⟩ := mem_shardTasks ha
  obtain ⟨hidb, gb, _, _, _, hhb⟩ := mem_shardTasks hb
  rw [hhb] at hne ⊢
  rw [hha]
  split_ifs at hne ⊢ <;> simp_all

def pipe (s : Store Data) : List ShardTask := s.transfer.front ++ (s.running ++ s.loader.pushing)

structure Pipe (s : Store Data) : Prop where
  covered : Covered s.pipe
  before : s.pipe.Pairwise ShardTask.Before
  finished : ∀ t ∈ s.pipe, t.backendTaskHandle ≠ 0 → s.finishedLoad ≤ t.backendTaskHandle
  last : ∀ t ∈ s.pipe, t.backendTaskHandle ≤ s.lastJob
  finished_le : s.finishedLoad ≤ s.lastJob
  known : s.finishedLoad ≠ 0 → s.results s.finishedLoad ≠ none
  failed : ∀ t ∈ s.pipe, t.backendTaskHandle ≠ 0 → t.backendTaskHandle = s.finishedLoad →
    s.results t.backendTaskHandle = some false →
    t.taskHandle ∈ s.failureSet ∨ ∃ task, s.transfer = .fail task ∧ task.taskHandle = t.taskHandle
  passed : ∀ task, s.transfer = .ready task → task.backendTaskHandle ≠ 0 →
    task.backendTaskHandle = s.finishedLoad → s.results task.backendTaskHandle ≠ some false

theorem pipe_setup {data : Nat → Data} : Pipe (setup config data) :=
  ⟨trivial, List.Pairwise.nil, fun _ h => absurd h List.not_mem_nil, fun _ h => absurd h List.not_mem_nil,
    le_refl _, fun h => absurd rfl h, fun _ h => absurd h List.not_mem_nil, fun _ h => by cases h⟩

theorem tokens_pos_of_covered {t : ShardTask} (hcov : Covered s.pipe) (ht : t ∈ s.pipe) :
    0 < s.tokens t.taskHandle := by
  obtain ⟨w, hw, hww, he⟩ := hcov.exists_waiter ht
  have hcount : ∀ l : List ShardTask, w ∈ l →
      0 < l.countP fun x => x.waiter ∧ x.taskHandle = t.taskHandle :=
    fun l hl => List.countP_pos_iff.mpr ⟨w, hl, by simp [hww, he]⟩
  rw [tokens]
  rcases List.mem_append.mp hw with hw | hw
  · have := hcount _ hw
    omega
  · rcases List.mem_append.mp hw with hw | hw
    · have := hcount _ hw
      omega
    · cases hl : s.loader with
      | push tasks =>
        rw [hl] at hw
        have := hcount tasks hw
        simp only [Loader.tokens]
        omega
      | _ =>
        rw [hl] at hw
        cases hw

theorem Pipe.tokens_pos {t : ShardTask} (hp : Pipe s) (ht : t ∈ s.pipe) : 0 < s.tokens t.taskHandle :=
  tokens_pos_of_covered hp.covered ht

/-- A step that takes shards from the front and waits for no job. -/
theorem Pipe.frame {e : Event Data} (hp : Pipe s) (h : Step config s e s') (hj : Jobs s) (hc : Counted s)
    (hs : s'.pipe <:+ s.pipe) (hf : s'.finishedLoad = s.finishedLoad) (hl : s.lastJob ≤ s'.lastJob)
    (ht : ∀ task, s.transfer = .fail task → s'.transfer = .fail task ∨ task.taskHandle ∈ s'.failureSet)
    (hr : ∀ task, s'.transfer = .ready task → s.transfer = .ready task ∨
      task ∈ s.pipe ∧ task.taskHandle ∉ s.failureSet ∧ ∀ t, s.transfer ≠ .fail t) : Pipe s' := by
  have hres : ∀ j, j ≠ 0 → j = s.finishedLoad → s'.results j = s.results j := by
    rintro j hj0 rfl
    exact h.results hj (hp.known hj0)
  refine ⟨hp.covered.suffix hs, hp.before.sublist hs.sublist, fun t hm => ?_, fun t hm => ?_, ?_, ?_, ?_, ?_⟩
  · rw [hf]
    exact hp.finished t (hs.subset hm)
  · exact le_trans (hp.last t (hs.subset hm)) hl
  · rw [hf]
    exact le_trans hp.finished_le hl
  · rw [hf]
    intro hne
    rw [hres _ hne rfl]
    exact hp.known hne
  · intro t hm hne he hfalse
    rw [hf] at he
    rw [hres _ hne he] at hfalse
    rcases hp.failed t (hs.subset hm) hne he hfalse with hin | ⟨task, htask, hid⟩
    · exact Or.inl (h.failureSet hc hin (hp.tokens_pos (hs.subset hm)))
    · rcases ht task htask with hfail | hin
      · exact Or.inr ⟨task, hfail, hid⟩
      · exact Or.inl (hid ▸ hin)
  · intro task htask hne he
    rw [hf] at he
    rw [hres _ hne he]
    rcases hr task htask with hready | ⟨hm, hnot, hno⟩
    · exact hp.passed task hready hne he
    · intro hfalse
      rcases hp.failed task hm hne he hfalse with hin | ⟨t, ht', _⟩
      · exact hnot hin
      · exact hno t ht'

theorem Pipe.append {id h : TaskHandle} {got : List Gathered} (hp : Pipe s)
    (hpipe : s'.pipe = s.pipe ++ shardTasks id h got) (hh : h = 0 ∨ s.lastJob < h)
    (hf : s'.finishedLoad = s.finishedLoad) (hl : s'.lastJob = max s.lastJob h)
    (hr : s'.results = s.results) (hset : s'.failureSet = s.failureSet)
    (ht : s'.transfer = s.transfer) : Pipe s' := by
  have hnew : ∀ t ∈ shardTasks id h got, t.backendTaskHandle ≠ 0 →
      t.backendTaskHandle = h ∧ s.lastJob < t.backendTaskHandle := by
    intro t hm hne
    obtain ⟨_, g, _, _, _, he⟩ := mem_shardTasks hm
    split_ifs at he
    · rcases hh with rfl | hh
      · exact absurd he hne
      · exact ⟨he, he ▸ hh⟩
    · exact absurd he hne
  refine ⟨hpipe ▸ hp.covered.append (covered_shardTasks id h got), ?_, ?_, ?_, ?_, ?_, ?_, ?_⟩
  · rw [hpipe, List.pairwise_append]
    refine ⟨hp.before, before_shardTasks id h got, fun a ha b hb hne => ?_⟩
    have hlt := Nat.lt_of_le_of_lt (hp.last a ha) (hnew b hb hne).2
    exact ⟨hlt.le, fun he => absurd he (Nat.ne_of_lt hlt)⟩
  · intro t hm hne
    rw [hpipe] at hm
    rw [hf]
    rcases List.mem_append.mp hm with hm | hm
    · exact hp.finished t hm hne
    · exact le_trans hp.finished_le (hnew t hm hne).2.le
  · intro t hm
    rw [hpipe] at hm
    rw [hl]
    rcases List.mem_append.mp hm with hm | hm
    · exact le_trans (hp.last t hm) (le_max_left _ _)
    · by_cases hne : t.backendTaskHandle = 0
      · exact hne ▸ Nat.zero_le _
      · exact (hnew t hm hne).1 ▸ le_max_right _ _
  · rw [hf, hl]
    exact le_trans hp.finished_le (le_max_left _ _)
  · rw [hf, hr]
    exact hp.known
  · intro t hm hne he hfalse
    rw [hpipe] at hm
    rw [hf] at he
    rw [hr] at hfalse
    rw [hset, ht]
    rcases List.mem_append.mp hm with hm | hm
    · exact hp.failed t hm hne he hfalse
    · have := (hnew t hm hne).2
      rw [he] at this
      exact absurd this (Nat.not_lt_of_le hp.finished_le)
  · rw [hf, hr, ht]
    exact hp.passed

theorem Pipe.wait {task : ShardTask} {b : Bool} {transfer : Transfer} (hp : Pipe s)
    (ht : s.transfer = .backendWait task) (hr : s.results task.backendTaskHandle = some b)
    (hfront : transfer.front = [task]) (hnot : ∀ t, transfer ≠ .ready t)
    (hfail : b = false → transfer = .fail task) :
    Pipe { s with finishedLoad := task.backendTaskHandle, transfer := transfer } := by
  have hpipe : s.pipe = task :: (s.running ++ s.loader.pushing) := by
    rw [pipe, ht]
    rfl
  have hpipe' : Store.pipe { s with finishedLoad := task.backendTaskHandle, transfer := transfer } =
      s.pipe := by
    rw [hpipe, pipe, hfront]
    rfl
  have hbefore : ∀ t ∈ s.pipe, t.backendTaskHandle ≠ 0 → task.backendTaskHandle ≤ t.backendTaskHandle ∧
      (task.backendTaskHandle = t.backendTaskHandle → task.taskHandle = t.taskHandle) := by
    intro t hm hne
    have hb := hp.before
    rw [hpipe] at hm hb
    rcases List.mem_cons.mp hm with rfl | hm
    · exact ⟨le_refl _, fun _ => rfl⟩
    · exact (List.pairwise_cons.mp hb).1 t hm hne
  refine ⟨hpipe' ▸ hp.covered, hpipe' ▸ hp.before, ?_, ?_, ?_, ?_, ?_, ?_⟩
  · rw [hpipe']
    exact fun t hm hne => (hbefore t hm hne).1
  · rw [hpipe']
    exact hp.last
  · exact hp.last task (by rw [hpipe]; exact List.mem_cons_self)
  · intro _
    simp [hr]
  · intro t hm hne he hfalse
    rw [hpipe'] at hm
    simp only at he hfalse
    rw [he, hr] at hfalse
    exact Or.inr ⟨task, hfail (Option.some.inj hfalse), (hbefore t hm hne).2 he.symm⟩
  · intro t hready
    exact absurd hready (hnot t)

theorem LoadStep.pipe {e : Event Data} (h : LoadStep config s s') (hs : Step config s e s')
    (hp : Pipe s) (hj : Jobs s) (hc : Counted s) : Pipe s' := by
  cases h with
  | @allReady id got hl =>
    have hpipe : s.transfer.front ++ (s.running ++ shardTasks id 0 got) = s.pipe ++ shardTasks id 0 got := by
      simp [Store.pipe, hl, Loader.pushing]
    exact hp.append hpipe (Or.inl rfl) rfl (max_eq_left (Nat.zero_le _)).symm rfl rfl rfl
  | @submit id got h hl _ hh =>
    have hpipe : s.transfer.front ++ (s.running ++ shardTasks id h got) = s.pipe ++ shardTasks id h got := by
      simp [Store.pipe, hl, Loader.pushing]
    exact hp.append hpipe (Or.inr hh) rfl (max_eq_right hh.le).symm rfl rfl rfl
  | _ =>
    refine hp.frame hs hj hc ?_ rfl (le_refl _) (fun _ => Or.inl) (fun _ => Or.inl)
    simp [Store.pipe, Loader.pushing, markFailed, latchDone, Store.release, *]

theorem TransferStep.pipe {e : Event Data} (h : TransferStep s s') (hs : Step config s e s')
    (hp : Pipe s) (hj : Jobs s) (hc : Counted s) : Pipe s' := by
  cases h with
  | waited ht hr => exact hp.wait ht hr rfl (fun _ h => by cases h) (fun h => by cases h)
  | waitFailed ht hr => exact hp.wait ht hr rfl (fun _ h => by cases h) (fun _ => rfl)
  | @check task ht hf =>
    refine hp.frame hs hj hc ?_ rfl (le_refl _) (by simp [ht]) ?_
    · simp [Store.pipe, Transfer.front, Transfer.task, ht]
    · intro t h
      obtain rfl := Transfer.ready.inj h
      exact Or.inr ⟨by simp [Store.pipe, Transfer.front, Transfer.task, ht], hf, by simp [ht]⟩
  | fail ht =>
    refine hp.frame hs hj hc ?_ rfl (le_refl _) ?_ (by simp)
    · simp [Store.pipe, Transfer.front, Transfer.task, ht, markFailed]
    · intro t h
      rw [ht] at h
      obtain rfl := Transfer.fail.inj h
      exact Or.inr (Finset.mem_insert_self _ _)
  | clear ht =>
    refine hp.frame hs hj hc ?_ rfl (le_refl _) (by simp [ht]) (by simp [Store.release, ht])
    simp [Store.pipe, Transfer.front, Transfer.task, ht, Store.release]
  | copy ht =>
    refine hp.frame hs hj hc ?_ rfl (le_refl _) (by simp [ht]) (by simp)
    simp [Store.pipe, Transfer.front, Transfer.task, ht]
  | doneLast ht =>
    refine hp.frame hs hj hc ?_ rfl (le_refl _) (by simp [ht]) (by simp)
    simp [Store.pipe, Transfer.front, Transfer.task, ht, latchDone]
  | done ht =>
    refine hp.frame hs hj hc ?_ rfl (le_refl _) (by simp [ht]) (by simp)
    simp [Store.pipe, Transfer.front, Transfer.task, ht]
  | _ =>
    refine hp.frame hs hj hc ?_ rfl (le_refl _) (by simp [*]) (by simp)
    simp [Store.pipe, Transfer.front, Transfer.task, Store.release, *]

theorem Step.pipe {e : Event Data} (h : Step config s e s') (hp : Pipe s) (hj : Jobs s) (hc : Counted s) :
    Pipe s' := by
  have hs := h
  cases h with
  | load h => exact h.pipe hs hp hj hc
  | transfer h => exact h.pipe hs hp hj hc
  | dump h =>
    cases h with
    | submit hd hh =>
      exact hp.frame hs hj hc (List.suffix_refl _) rfl hh.le (fun _ => Or.inl) fun _ => Or.inl
    | _ => exact hp.frame hs hj hc (List.suffix_refl _) rfl (le_refl _) (fun _ => Or.inl) fun _ => Or.inl
  | backendDump h =>
    cases h <;>
      exact hp.frame hs hj hc (List.suffix_refl _) rfl (le_refl _) (fun _ => Or.inl) fun _ => Or.inl
  | backend h =>
    cases h <;>
      exact hp.frame hs hj hc (List.suffix_refl _) rfl (le_refl _) (fun _ => Or.inl) fun _ => Or.inl
  | user h =>
    cases h <;>
      exact hp.frame hs hj hc (List.suffix_refl _) rfl (le_refl _) (fun _ => Or.inl) fun _ => Or.inl

end Store

end UnifiedCache.CacheStore
