import UnifiedCache.Cache.Pipeline

/-! Who can come to release a reference. The threads behind the dispatchers always can, and a
dispatcher can once it has gathered its handles. -/

namespace UnifiedCache.CacheStore

open PinnedPool StepSystem

/-- The keys that a dispatcher has handles for while it gathers, and those that it still asks for. -/
def Loader.gathering : Loader → List (BlockId × Nat)
  | .find _ got rest => got.map (fun g => g.bufferHandle.key) ++ rest.map Shard.key
  | .alloc _ got shard rest => got.map (fun g => g.bufferHandle.key) ++ shard.key :: rest.map Shard.key
  | _ => []

def Dumper.gathering : Dumper → List (BlockId × Nat)
  | .find _ ctx rest => ctx.map (fun x => x.2.key) ++ rest.map Shard.key
  | .alloc _ ctx shard rest => ctx.map (fun x => x.2.key) ++ shard.key :: rest.map Shard.key
  | .got _ ctx _ handle rest => ctx.map (fun x => x.2.key) ++ handle.key :: rest.map Shard.key
  | _ => []

/-- A dump that has gathered has handles. -/
def Dumper.Laden : Dumper → Prop
  | .sync _ ctx => ctx ≠ []
  | .mark _ ctx _ => ctx ≠ []
  | .push _ _ ctx => ctx ≠ []
  | _ => True

def BackendDumper.Laden : BackendDumper → Prop
  | .check ctx => ctx.bufferHandles ≠ []
  | .wait ctx => ctx.bufferHandles ≠ []
  | _ => True

namespace Store

variable {Data : Type} (config : Config Data) (s : Store Data)

/-- No load shard is under way. -/
def AtRest : Prop := s.transfer = .idle ∧ s.running = [] ∧ s.loader.pushing = []

instance : Decidable (AtRest s) := inferInstanceAs (Decidable (_ ∧ _ ∧ _))

variable {config} {s} {s' : Store Data}

section Known

/-- A job that was started is running or has a result. -/
def Started (s : Store Data) (h : TaskHandle) : Prop := h ∈ s.jobHandles ∨ s.results h ≠ none

theorem Step.started {e : Event Data} (hs : Step config s e s') (hj : Jobs s) {h : TaskHandle} (hh : s.Started h) :
    s'.Started h := by
  rcases hh with hh | hh
  · cases hs with
    | load hs => cases hs <;> first | exact .inl hh | exact .inl (List.mem_cons_of_mem _ hh)
    | transfer hs => cases hs <;> exact .inl hh
    | dump hs =>
      cases hs with
      | submit =>
        left
        simp only [jobHandles, List.map_cons, List.mem_append, List.mem_cons] at hh ⊢
        tauto
      | _ => exact .inl hh
    | backendDump hs => cases hs <;> exact .inl hh
    | backend hs =>
      cases hs with
      | loadDone content hm =>
        rcases List.mem_cons.mp ((perm_jobHandles_load hm).mem_iff.mp hh) with rfl | hh
        · exact .inr (by simp)
        · exact .inl hh
      | loadFailed hm =>
        rcases List.mem_cons.mp ((perm_jobHandles_load hm).mem_iff.mp hh) with rfl | hh
        · exact .inr (by simp)
        · exact .inl hh
      | dumpDone hm =>
        rcases List.mem_cons.mp ((perm_jobHandles_dump hm).mem_iff.mp hh) with rfl | hh
        · exact .inr (by simp)
        · exact .inl hh
      | _ => exact .inl hh
    | user hs => cases hs <;> exact .inl hh
  · exact .inr (by rwa [hs.results hj hh])

/-- A task whose latch is up can still be waited for, or has failed. -/
def Unanswered (s : Store Data) : Prop :=
  ∀ id, s.latches id ≠ 0 → s.waits id = .submitted ∨ s.waits id = .waiting ∨
    s.waits id = .timedOut ∧ id ∈ s.failureSet

theorem Unanswered.frame (h : Unanswered s) (hw : s'.waits = s.waits) (hl : ∀ id, s'.latches id ≠ 0 → s.latches id ≠ 0)
    (hf : ∀ id ∈ s.failureSet, id ∈ s'.failureSet) : Unanswered s' := by
  intro id hid
  rw [hw]
  rcases h id (hl id hid) with h | h | ⟨h, hfailed⟩
  · exact .inl h
  · exact .inr (.inl h)
  · exact .inr (.inr ⟨h, hf id hfailed⟩)

theorem latchDone_ne_zero {t id : TaskHandle} (h : (s.latchDone t).latches id ≠ 0) : s.latches id ≠ 0 := by
  simp only [latchDone, Function.update_apply] at h
  split_ifs at h with heq
  · subst heq
    omega
  · exact h

/-- What the caller learns of one task. -/
theorem Unanswered.update {t : TaskHandle} {w : WaitState} (h : Unanswered s)
    (hw : s'.waits = Function.update s.waits t w) (hl : ∀ id ≠ t, s'.latches id ≠ 0 → s.latches id ≠ 0)
    (hf : ∀ id ≠ t, id ∈ s.failureSet → id ∈ s'.failureSet)
    (ht : s'.latches t ≠ 0 → w = .submitted ∨ w = .waiting ∨ w = .timedOut ∧ t ∈ s'.failureSet) : Unanswered s' := by
  intro id hid
  rw [hw]
  by_cases heq : id = t
  · subst heq
    rw [Function.update_self]
    exact ht hid
  · rw [Function.update_of_ne heq]
    rcases h id (hl id heq hid) with h | h | ⟨h, hfailed⟩
    · exact .inl h
    · exact .inr (.inl h)
    · exact .inr (.inr ⟨h, hf id heq hfailed⟩)

theorem UserStep.unanswered (hs : UserStep s s') (h : Unanswered s) : Unanswered s' := by
  cases hs with
  | full =>
    refine h.update (t := s.nextId) (w := .submitted) rfl ?_ (fun id _ hf => Finset.mem_insert_of_mem hf)
      fun _ => .inl rfl
    intro id hne hid
    simpa [latchDone, markFailed, enter, hne] using hid
  | load =>
    refine h.update (t := s.nextId) (w := .submitted) rfl ?_ (fun id _ hf => hf) fun _ => .inl rfl
    intro id hne hid
    simpa [enter, hne] using hid
  | dump =>
    refine h.update (t := s.nextId) (w := .submitted) rfl ?_ (fun id _ hf => hf) fun _ => .inl rfl
    intro id hne hid
    simpa [enter, hne] using hid
  | wait => exact h.update rfl (fun _ _ hid => hid) (fun _ _ hf => hf) fun _ => .inr (.inl rfl)
  | timeout =>
    exact h.update rfl (fun _ _ hid => hid) (fun _ _ hf => Finset.mem_insert_of_mem hf)
      fun _ => .inr (.inr ⟨rfl, Finset.mem_insert_self _ _⟩)
  | error hl =>
    exact h.update rfl (fun _ _ hid => hid) (fun _ hne hf => Finset.mem_erase.mpr ⟨hne, hf⟩) fun hid => absurd hl hid
  | ok hl => exact h.update rfl (fun _ _ hid => hid) (fun _ _ hf => hf) fun hid => absurd hl hid
  | timedOut hl =>
    exact h.update rfl (fun _ _ hid => hid) (fun _ hne hf => Finset.mem_erase.mpr ⟨hne, hf⟩) fun hid => absurd hl hid

theorem Step.unanswered {e : Event Data} (hs : Step config s e s') (h : Unanswered s) : Unanswered s' := by
  have hgrow : ∀ {t id : TaskHandle}, id ∈ s.failureSet → id ∈ insert t s.failureSet := Finset.mem_insert_of_mem
  cases hs with
  | load hs =>
    cases hs <;> first
      | exact h.frame rfl (fun _ hid => hid) fun _ hf => hf
      | exact h.frame rfl (fun _ hid => latchDone_ne_zero hid) fun _ hf => hf
      | exact h.frame rfl (fun _ hid => hid) fun _ hf => hgrow hf
  | transfer hs =>
    cases hs <;> first
      | exact h.frame rfl (fun _ hid => hid) fun _ hf => hf
      | exact h.frame rfl (fun _ hid => latchDone_ne_zero hid) fun _ hf => hf
      | exact h.frame rfl (fun _ hid => hid) fun _ hf => hgrow hf
  | dump hs =>
    cases hs <;> first
      | exact h.frame rfl (fun _ hid => hid) fun _ hf => hf
      | exact h.frame rfl (fun _ hid => latchDone_ne_zero hid) fun _ hf => hf
      | exact h.frame rfl (fun _ hid => hid) fun _ hf => hgrow hf
  | backendDump hs => cases hs <;> exact h.frame rfl (fun _ hid => hid) fun _ hf => hf
  | backend hs => cases hs <;> exact h.frame rfl (fun _ hid => hid) fun _ hf => hf
  | user hs => exact hs.unanswered h

/-- Every job that a thread waits for was started. -/
structure Serving (s : Store Data) : Prop where
  load : ∀ t ∈ s.pipe, t.backendTaskHandle ≠ 0 → s.Started t.backendTaskHandle
  push : ∀ task h ctx, s.dumper = .push task h ctx → s.Started h
  dumping : ∀ ctx ∈ s.dumping, s.Started ctx.backendTaskHandle
  backend : ∀ ctx, s.backendDumper = .check ctx ∨ s.backendDumper = .wait ctx → s.Started ctx.backendTaskHandle

/-- The threads behind the dump dispatcher rest. -/
theorem Serving.of_pipe {e : Event Data} (h : Serving s) (hs : Step config s e s') (hj : Jobs s)
    (hload : ∀ t ∈ s'.pipe, t.backendTaskHandle ≠ 0 → s'.Started t.backendTaskHandle)
    (hpush : ∀ task h ctx, s'.dumper = .push task h ctx → s.dumper = .push task h ctx)
    (hd : s'.dumping = s.dumping) (hb : s'.backendDumper = s.backendDumper) : Serving s' := by
  constructor
  case load => exact hload
  case push => exact fun task j ctx hd => hs.started hj (h.push task j ctx (hpush task j ctx hd))
  case dumping =>
    rw [hd]
    exact fun ctx hctx => hs.started hj (h.dumping ctx hctx)
  case backend =>
    rw [hb]
    exact fun ctx hctx => hs.started hj (h.backend ctx hctx)

theorem Serving.frame {e : Event Data} (h : Serving s) (hs : Step config s e s') (hj : Jobs s)
    (hp : ∀ t ∈ s'.pipe, t ∈ s.pipe) (hpush : ∀ task h ctx, s'.dumper = .push task h ctx → s.dumper = .push task h ctx)
    (hd : s'.dumping = s.dumping) (hb : s'.backendDumper = s.backendDumper) : Serving s' :=
  h.of_pipe hs hj (fun t ht hne => hs.started hj (h.load t (hp t ht) hne)) hpush hd hb

theorem LoadStep.serving {e : Event Data} (hl : LoadStep config s s') (hs : Step config s e s') (h : Serving s)
    (hj : Jobs s) : Serving s' := by
  have hkeep : ∀ {t : ShardTask}, t ∈ s.transfer.front ∨ t ∈ s.running → t.backendTaskHandle ≠ 0 →
      s'.Started t.backendTaskHandle := by
    intro t ht hne
    refine hs.started hj (h.load t ?_ hne)
    simp only [Store.pipe, List.mem_append]
    tauto
  cases hl with
  | allReady hl =>
    refine h.of_pipe hs hj ?_ (fun _ _ _ hd => hd) rfl rfl
    intro t ht hne
    simp only [Store.pipe, Loader.pushing, List.mem_append] at ht
    rcases ht with ht | ht | ht
    · exact hkeep (.inl ht) hne
    · exact hkeep (.inr ht) hne
    · obtain ⟨-, g, -, -, -, hzero⟩ := mem_shardTasks ht
      exact absurd (hzero.trans (ite_self 0)) hne
  | @submit id got j hl hi hh =>
    refine h.of_pipe hs hj ?_ (fun _ _ _ hd => hd) rfl rfl
    intro t ht hne
    simp only [Store.pipe, Loader.pushing, List.mem_append] at ht
    rcases ht with ht | ht | ht
    · exact hkeep (.inl ht) hne
    · exact hkeep (.inr ht) hne
    · obtain ⟨-, g, -, -, -, hhandle⟩ := mem_shardTasks ht
      split_ifs at hhandle
      · rw [hhandle]
        exact .inl List.mem_cons_self
      · exact absurd hhandle hne
  | push hl =>
    refine h.frame hs hj ?_ (fun _ _ _ hd => hd) rfl rfl
    intro t ht
    simp only [Store.pipe, Loader.pushing, hl, List.mem_append, List.mem_cons] at ht ⊢
    tauto
  | _ =>
    refine h.frame hs hj ?_ (fun _ _ _ hd => hd) rfl rfl
    intro t ht
    simp_all [Store.pipe, Loader.pushing, latchDone, markFailed, Store.release]

theorem TransferStep.serving {e : Event Data} (ht : TransferStep s s') (hs : Step config s e s') (h : Serving s)
    (hj : Jobs s) : Serving s' := by
  cases ht with
  | pop ht hr =>
    refine h.frame hs hj ?_ (fun _ _ _ hd => hd) rfl rfl
    intro t ht'
    simpa [Store.pipe, Transfer.front, Transfer.task, ht, hr] using ht'
  | _ =>
    refine h.frame hs hj ?_ (fun _ _ _ hd => hd) rfl rfl
    intro t ht'
    simp_all [Store.pipe, Transfer.front, Transfer.task, latchDone, markFailed, Store.release]

theorem DumpStep.serving {e : Event Data} (hd : DumpStep config s s') (hs : Step config s e s') (h : Serving s)
    (hj : Jobs s) : Serving s' := by
  cases hd with
  | submit hd hh =>
    refine ⟨fun t ht hne => hs.started hj (h.load t ht hne), ?_, fun ctx hctx => hs.started hj (h.dumping ctx hctx),
      fun ctx hctx => hs.started hj (h.backend ctx hctx)⟩
    intro task j ctx hpush
    injection hpush with _ heq _
    subst heq
    exact .inl (List.mem_append_right _ List.mem_cons_self)
  | push hd hr =>
    refine ⟨fun t ht hne => hs.started hj (h.load t ht hne), fun task j ctx hpush => (by cases hpush), ?_,
      fun ctx hctx => hs.started hj (h.backend ctx hctx)⟩
    intro ctx hctx
    rcases List.mem_append.mp hctx with hctx | hctx
    · exact hs.started hj (h.dumping ctx hctx)
    · obtain rfl := List.mem_singleton.mp hctx
      exact hs.started hj (h.push _ _ _ hd)
  | mark hd => exact h.frame hs hj (fun _ ht => ht) (fun _ _ _ hpush => by cases hpush) rfl rfl
  | skipNode hd =>
    exact h.frame hs hj (fun _ ht => ht) (fun _ _ _ hpush => hpush) rfl rfl
  | _ => exact h.frame hs hj (fun _ ht => ht) (fun _ _ _ hpush => by cases hpush) rfl rfl

theorem BackendDumpStep.serving {e : Event Data} (hb : BackendDumpStep s s') (hs : Step config s e s') (h : Serving s)
    (hj : Jobs s) : Serving s' := by
  have hload : ∀ t ∈ s'.pipe, t.backendTaskHandle ≠ 0 → s'.Started t.backendTaskHandle := by
    intro t ht hne
    refine hs.started hj (h.load t ?_ hne)
    cases hb <;> exact ht
  have hpush : ∀ task j ctx, s'.dumper = .push task j ctx → s'.Started j := by
    intro task j ctx hd
    refine hs.started hj (h.push task j ctx ?_)
    cases hb <;> exact hd
  refine ⟨hload, hpush, ?_, ?_⟩
  · intro ctx hctx
    refine hs.started hj (h.dumping ctx ?_)
    cases hb with
    | pop hb hd => exact hd ▸ List.mem_cons_of_mem _ hctx
    | _ => exact hctx
  · intro ctx hctx
    cases hb with
    | pop hb hd =>
      rcases hctx with hctx | hctx
      · injection hctx with heq
        subst heq
        exact hs.started hj (h.dumping _ (hd ▸ List.mem_cons_self))
      · cases hctx
    | unfinished hb =>
      rcases hctx with hctx | hctx
      · cases hctx
      · injection hctx with heq
        subst heq
        exact hs.started hj (h.backend _ (.inl hb))
    | _ => rcases hctx with hctx | hctx <;> cases hctx

theorem Step.serving {e : Event Data} (hs : Step config s e s') (h : Serving s) (hj : Jobs s) : Serving s' := by
  have hstep := hs
  cases hs with
  | load hl => exact hl.serving hstep h hj
  | transfer ht => exact ht.serving hstep h hj
  | dump hd => exact hd.serving hstep h hj
  | backendDump hb => exact hb.serving hstep h hj
  | backend hb => cases hb <;> exact h.frame hstep hj (fun _ ht => ht) (fun _ _ _ hpush => hpush) rfl rfl
  | user hu => cases hu <;> exact h.frame hstep hj (fun _ ht => ht) (fun _ _ _ hpush => hpush) rfl rfl

/-- The transfer thread waits only for jobs. -/
def WaitsForJob (s : Store Data) : Prop := ∀ task, s.transfer = .backendWait task → task.backendTaskHandle ≠ 0

theorem Step.waitsForJob {e : Event Data} (hs : Step config s e s') (h : WaitsForJob s) : WaitsForJob s' := by
  intro task ht
  cases hs with
  | load hs => cases hs <;> exact h task ht
  | transfer hs =>
    cases hs with
    | unfinished _ _ _ hh =>
      injection ht with heq
      subst heq
      exact Nat.ne_zero_of_lt hh
    | clear => exact h task ht
    | _ => cases ht
  | dump hs => cases hs <;> exact h task ht
  | backendDump hs => cases hs <;> exact h task ht
  | backend hs => cases hs <;> exact h task ht
  | user hs => cases hs <;> exact h task ht

/-- Every dump under way has handles to give back. -/
structure Laden (s : Store Data) : Prop where
  dumper : s.dumper.Laden
  dumping : ∀ ctx ∈ s.dumping, ctx.bufferHandles ≠ []
  backend : s.backendDumper.Laden

theorem DumpStep.laden (hd : DumpStep config s s') (h : Laden s) : Laden s' := by
  have hdumper := h.dumper
  cases hd with
  | gathered hd hc => exact ⟨hc, h.dumping, h.backend⟩
  | skipNode hd => exact ⟨hdumper, h.dumping, h.backend⟩
  | sync hd | mark hd | submit hd =>
    rw [hd] at hdumper
    exact ⟨hdumper, h.dumping, h.backend⟩
  | push hd =>
    rw [hd] at hdumper
    refine ⟨trivial, fun ctx hctx => ?_, h.backend⟩
    rcases List.mem_append.mp hctx with hctx | hctx
    · exact h.dumping ctx hctx
    · obtain rfl := List.mem_singleton.mp hctx
      exact mt List.map_eq_nil_iff.mp hdumper
  | _ => exact ⟨trivial, h.dumping, h.backend⟩

theorem BackendDumpStep.laden (hb : BackendDumpStep s s') (h : Laden s) : Laden s' := by
  cases hb with
  | pop hb hd =>
    exact ⟨h.dumper, fun ctx hctx => h.dumping ctx (hd ▸ List.mem_cons_of_mem _ hctx),
      h.dumping _ (hd ▸ List.mem_cons_self)⟩
  | unfinished hb =>
    have hbackend := h.backend
    rw [hb] at hbackend
    exact ⟨h.dumper, h.dumping, hbackend⟩
  | _ => exact ⟨h.dumper, h.dumping, trivial⟩

theorem Step.laden {e : Event Data} (hs : Step config s e s') (h : Laden s) : Laden s' := by
  cases hs with
  | load hs => cases hs <;> exact ⟨h.dumper, h.dumping, h.backend⟩
  | transfer hs => cases hs <;> exact ⟨h.dumper, h.dumping, h.backend⟩
  | dump hs => exact hs.laden h
  | backendDump hs => exact hs.laden h
  | backend hs => cases hs <;> exact ⟨h.dumper, h.dumping, h.backend⟩
  | user hs => cases hs <;> exact ⟨h.dumper, h.dumping, h.backend⟩

/-- What holds in every run and keeps the threads other than the dispatchers going. -/
structure Live (s : Store Data) : Prop where
  base : Base s
  jobs : Jobs s
  counted : Counted s
  pipe : Pipe s
  serving : Serving s
  unanswered : Unanswered s
  waitsForJob : WaitsForJob s
  laden : Laden s

theorem Live.step {e : Event Data} (h : Live s) (hs : s.step config e = some s') : Live s' where
  base := (step_inv hs).base h.base
  jobs := (step_inv hs).jobs h.jobs
  counted := (step_inv hs).counted h.counted
  pipe := (step_inv hs).pipe h.pipe h.jobs h.counted
  serving := (step_inv hs).serving h.serving h.jobs
  unanswered := (step_inv hs).unanswered h.unanswered
  waitsForJob := (step_inv hs).waitsForJob h.waitsForJob
  laden := (step_inv hs).laden h.laden

end Known

section TransferReleases

variable {task : ShardTask}

/-- The backend can bring any job that was started to its end. -/
theorem Started.finish (config : Config Data) {h : TaskHandle} (hstarted : s.Started h) :
    s.results h ≠ none ∨ ∃ e s', s.step config (.backend e) = some s' ∧ s'.results h ≠ none ∧
      s'.transfer = s.transfer ∧ s'.backendDumper = s.backendDumper ∧ s'.dumping = s.dumping := by
  rcases hstarted with hjob | hresult
  · right
    rcases List.mem_append.mp hjob with hjob | hjob
    · have hfind : (s.loadJobs.find? fun job => job.handle = h).isSome := by
        obtain ⟨job, hmem, rfl⟩ := List.mem_map.mp hjob
        exact List.find?_isSome.mpr ⟨job, hmem, by simp⟩
      obtain ⟨job, hjob⟩ := Option.isSome_iff_exists.mp hfind
      refine ⟨.loadFailed h, { s with
        loadJobs := s.loadJobs.erase job
        results := Function.update s.results h (some false) }, ?_, by simp, rfl, rfl, rfl⟩
      simp [Store.step, backendStep, hjob]
    · have hfind : (s.dumpJobs.find? fun job => job.handle = h).isSome := by
        obtain ⟨job, hmem, rfl⟩ := List.mem_map.mp hjob
        exact List.find?_isSome.mpr ⟨job, hmem, by simp⟩
      obtain ⟨job, hjob⟩ := Option.isSome_iff_exists.mp hfind
      refine ⟨.dumpDone h false, { s with
        dumpJobs := s.dumpJobs.erase job
        results := Function.update s.results h (some false) }, ?_, by simp, rfl, rfl, rfl⟩
      simp [Store.step, backendStep, hjob]
  · exact .inl hresult

end TransferReleases

section LoaderReleases

variable {id : TaskHandle} {got : List Gathered}

end LoaderReleases

section DumpReleases

variable {task : TransTask} {ctx : List (Shard × BufferHandle)}

end DumpReleases

end Store

end UnifiedCache.CacheStore
