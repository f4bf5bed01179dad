import UnifiedCache.Cache.ReadyData

/-! What a successful dump has handed on. The dump dispatcher passes over the shards
whose nodes somebody else holds, so a dump delivers what it lists only when the others
deliver the same bytes. -/

namespace UnifiedCache.CacheStore

open PinnedPool

/-- The task at work with what is kept of it and what is still to be looked at. -/
def Dumper.progress : Dumper → Option (TransTask × List (Shard × BufferHandle) × List Shard)
  | .find task ctx rest => some (task, ctx, rest)
  | .alloc task ctx shard rest => some (task, ctx, shard :: rest)
  | .got task ctx shard _ rest => some (task, ctx, shard :: rest)
  | .sync task ctx => some (task, ctx, [])
  | .mark task ctx _ => some (task, ctx, [])
  | _ => none

namespace Store

variable {Data : Type} {config : Config Data} {s s' : Store Data} {x : Shard × BufferHandle} {shard : Shard}
  {ctx : List (Shard × BufferHandle)} {id : TaskHandle}

/-- The backend has the shard, or has been asked to dump these bytes for it. -/
def Delivered (config : Config Data) (s : Store Data) (shard : Shard) : Prop :=
  (shard.key, config.device shard.addrs) ∈ s.handed ∨ shard.key ∈ s.stored

/-- A kept shard has the same key and bytes. -/
def Covers (config : Config Data) (ctx : List (Shard × BufferHandle)) (shard : Shard) : Prop :=
  ∃ x ∈ ctx, x.1.key = shard.key ∧ config.device x.1.addrs = config.device shard.addrs

def HasBytes (config : Config Data) (s : Store Data) (x : Shard × BufferHandle) : Prop :=
  s.Quiet x.2.node ∧ s.data x.2.node = config.device x.1.addrs

def CopyOf (s : Store Data) (x : Shard × BufferHandle) : Prop :=
  ∃ c ∈ s.d2h, c.node = x.2.node ∧ c.addrs = x.1.addrs

/-- The task has failed as far as its caller will learn. -/
def Failed (s : Store Data) (id : TaskHandle) : Prop :=
  id ∈ s.failureSet ∨ s.waits id = .error ∨ s.waits id = .timedOut ∨ s.waits id = .timeout

structure Delivering (config : Config Data) (s : Store Data) : Prop where
  pending : ∀ task ctx rest, s.dumper.progress = some (task, ctx, rest) → ∀ shard ∈ task.desc,
    shard ∈ rest ∨ Covers config ctx shard ∨ Delivered config s shard
  kept : ∀ x ∈ s.dumper.kept, x.2.key = x.1.key ∧
    (Delivered config s x.1 ∨ HasBytes config s x ∨ CopyOf s x)
  got : ∀ task ctx shard handle rest, s.dumper = .got task ctx shard handle rest → handle.key = shard.key
  marking : ∀ task ctx todo, s.dumper = .mark task ctx todo → ∀ x ∈ ctx,
    Delivered config s x.1 ∨ HasBytes config s x
  pushing : ∀ task h ctx, s.dumper = .push task h ctx → ∀ shard ∈ task.desc, Delivered config s shard
  finished : ∀ task, s.dumper = .done task →
    (∀ shard ∈ task.desc, Delivered config s shard) ∨ Failed s task.id

/-- Each dump task waits, is at work, has delivered or has failed. -/
structure Tracked (config : Config Data) (s : Store Data) : Prop where
  ids : ∀ t ∈ s.tasks, t.id < s.nextId
  waiting : ∀ t ∈ s.dumpWaiting, t ∈ s.tasks
  working : ∀ t ∈ s.dumper.task, t ∈ s.tasks
  tracked : ∀ t ∈ s.tasks, t.type = .dump → t ∈ s.dumpWaiting ∨ s.dumper.task = some t ∨
    (∀ shard ∈ t.desc, Delivered config s shard) ∨ Failed s t.id
  complete : ∀ t ∈ s.tasks, t.type = .dump → s.waits t.id = .ok →
    ∀ shard ∈ t.desc, Delivered config s shard

theorem Delivered.mono (h : Delivered config s shard) (hh : ∀ x ∈ s.handed, x ∈ s'.handed)
    (hs : ∀ k ∈ s.stored, k ∈ s'.stored) : Delivered config s' shard :=
  h.imp (hh _) (hs _)

theorem Step.delivered {e : Event Data} (h : Step config s e s') (hd : Delivered config s shard) :
    Delivered config s' shard := by
  cases h with
  | load h => cases h <;> exact hd
  | transfer h => cases h <;> exact hd
  | dump h =>
    cases h with
    | submit => exact hd.mono (fun _ => List.mem_append_right _) fun _ => id
    | _ => exact hd
  | backendDump h => cases h <;> exact hd
  | backend h =>
    cases h with
    | @dumpDone job success =>
      refine hd.mono (fun _ => id) fun k hk => ?_
      cases success
      · exact hk
      · exact List.mem_append_right _ hk
    | archive => exact hd.mono (fun _ => id) fun _ => List.mem_cons_of_mem _
    | _ => exact hd
  | user h => cases h <;> exact hd

/-- A failure is kept until the caller has learnt of it. -/
theorem Step.failed {e : Event Data} (h : Step config s e s') (hid : id < s.nextId) (hf : Failed s id) :
    Failed s' id := by
  have hinsert : ∀ t, id ∈ s.failureSet → id ∈ insert t s.failureSet := fun _ => Finset.mem_insert_of_mem
  cases h with
  | load h => cases h <;> first | exact hf | exact hf.imp_left (hinsert _)
  | transfer h => cases h <;> first | exact hf | exact hf.imp_left (hinsert _)
  | dump h => cases h <;> first | exact hf | exact hf.imp_left (hinsert _)
  | backendDump h => cases h <;> exact hf
  | backend h => cases h <;> exact hf
  | user h =>
    have hne : id ≠ s.nextId := Nat.ne_of_lt hid
    cases h with
    | full => simpa [Failed, enter, markFailed, latchDone, hne] using hf
    | load => simpa [Failed, enter, hne] using hf
    | dump => simpa [Failed, enter, hne] using hf
    | @wait t hw =>
      by_cases he : id = t
      · subst he
        simpa [Failed, hw] using hf
      · simpa [Failed, he] using hf
    | @timeout t hw =>
      by_cases he : id = t
      · subst he
        simp [Failed]
      · simpa [Failed, markFailed, he] using hf
    | @error t hl hw =>
      by_cases he : id = t
      · subst he
        simp [Failed]
      · simpa [Failed, he] using hf
    | @ok t hl hw hnot =>
      by_cases he : id = t
      · subst he
        simp [Failed, hw, hnot] at hf
      · simpa [Failed, he] using hf
    | @timedOut t hl hw =>
      by_cases he : id = t
      · subst he
        simp [Failed]
      · simpa [Failed, he] using hf

theorem HasBytes.keeps (h : HasBytes config s x) (hk : Keeps s s' x.2.node) : HasBytes config s' x :=
  ⟨hk.quiet h.1, by rw [hk.data h.1]; exact h.2⟩

theorem Step.keeps_kept {e : Event Data} (h : Step config s e s') (hi : Inv s) (hx : x ∈ s.dumper.kept) :
    Keeps s s' x.2.node := by
  have hmem : x.2 ∈ s.dumper.handles := Dumper.mem_handles hx
  have hpos := hi.base.held.reference_pos (mem_handles_of_dumper hmem)
  have ho := (hi.keeping.kept x hx).1
  cases h with
  | load h =>
    refine h.keeps hi.base hpos fun id got hl => ?_
    exact hi.gathering.submit_ne hi.base hl (List.mem_append_right _ (List.mem_append_left _ hmem)) ho
  | transfer h => exact h.keeps hpos
  | dump h => exact h.keeps_kept hi.base hx ho
  | backendDump h => exact h.keeps hpos
  | backend h => exact h.keeps
  | user h => exact h.keeps

theorem Covers.append {more : List (Shard × BufferHandle)} (h : Covers config ctx shard) :
    Covers config (ctx ++ more) shard := by
  obtain ⟨x, hx, hkey⟩ := h
  exact ⟨x, List.mem_append_left _ hx, hkey⟩

/-- What is kept for a shard with the same key and bytes is delivered with it. -/
theorem Covers.delivered (h : Covers config ctx shard) (hall : ∀ x ∈ ctx, Delivered config s x.1) :
    Delivered config s shard := by
  obtain ⟨x, hx, hkey, hdata⟩ := h
  have hd := hall x hx
  rw [Delivered, hkey, hdata] at hd
  exact hd

/-- A step that leaves the dump dispatcher where it is. -/
theorem Delivering.frame (h : Delivering config s) (hd : s'.dumper = s.dumper)
    (hdel : ∀ shard, Delivered config s shard → Delivered config s' shard)
    (hbytes : ∀ x ∈ s.dumper.kept, HasBytes config s x → HasBytes config s' x)
    (hcopy : ∀ x ∈ s.dumper.kept, CopyOf s x → CopyOf s' x ∨ HasBytes config s' x)
    (hfailed : ∀ task, s.dumper = .done task → Failed s task.id → Failed s' task.id) : Delivering config s' where
  pending := by
    rw [hd]
    intro task ctx rest hp shard hm
    exact (h.pending task ctx rest hp shard hm).imp_right fun hc => hc.imp_right (hdel shard)
  kept := by
    rw [hd]
    intro x hx
    obtain ⟨hkey, hx'⟩ := h.kept x hx
    refine ⟨hkey, ?_⟩
    obtain hx' | hx' | hx' := hx'
    · exact .inl (hdel _ hx')
    · exact .inr (.inl (hbytes x hx hx'))
    · exact .inr (hcopy x hx hx').symm
  got := by
    rw [hd]
    exact h.got
  marking := by
    rw [hd]
    intro task ctx todo hm x hx
    have hk : x ∈ s.dumper.kept := by
      rw [hm]
      exact hx
    exact (h.marking task ctx todo hm x hx).imp (hdel _) (hbytes x hk)
  pushing := by
    rw [hd]
    exact fun task h' ctx hp shard hm => hdel shard (h.pushing task h' ctx hp shard hm)
  finished := by
    rw [hd]
    exact fun task hdone => (h.finished task hdone).imp (fun hall shard hm => hdel shard (hall shard hm)) (hfailed task hdone)

/-- A dump task that waits or is at work has its latch up. -/
theorem latches_ne_zero {task : TransTask} (hc : Counted s)
    (h : task ∈ s.dumpWaiting ∨ s.dumper.task = some task) : s.latches task.id ≠ 0 := by
  have hle := hc task.id
  have hpos : 0 < s.dumpWaiting.countP (fun t => t.id = task.id) +
      s.dumper.task.toList.countP fun t => t.id = task.id := by
    obtain h | h := h
    · have hcount : 0 < s.dumpWaiting.countP fun t => t.id = task.id :=
        List.countP_pos_iff.mpr ⟨task, h, by simp⟩
      omega
    · rw [h]
      simp
  rw [tokens] at hle
  omega

/-- A step that has nothing to do with the tasks of the dump queue. -/
theorem Tracked.frame (ht : Tracked config s) (htasks : s'.tasks = s.tasks) (hnext : s'.nextId = s.nextId)
    (hwaiting : s'.dumpWaiting = s.dumpWaiting) (hdumper : s'.dumper.task = s.dumper.task) (hwaits : s'.waits = s.waits)
    (hdel : ∀ shard, Delivered config s shard → Delivered config s' shard)
    (hfailed : ∀ t ∈ s.tasks, Failed s t.id → Failed s' t.id) : Tracked config s' where
  ids := by
    rw [htasks, hnext]
    exact ht.ids
  waiting := by
    rw [htasks, hwaiting]
    exact ht.waiting
  working := by
    rw [htasks, hdumper]
    exact ht.working
  tracked := by
    rw [htasks, hwaiting, hdumper]
    intro t hm hdump
    refine (ht.tracked t hm hdump).imp_right fun h => h.imp_right fun h => ?_
    exact h.imp (fun hall shard hs => hdel shard (hall shard hs)) (hfailed t hm)
  complete := by
    rw [htasks, hwaits]
    exact fun t hm hdump hok shard hs => hdel shard (ht.complete t hm hdump hok shard hs)

theorem DumpStep.tracked (h : DumpStep config s s') (hd : Delivering config s) (ht : Tracked config s)
    (hdel : ∀ shard, Delivered config s shard → Delivered config s' shard)
    (hfailed : ∀ t ∈ s.tasks, Failed s t.id → Failed s' t.id) : Tracked config s' := by
  cases h with
  | @pop task tasks hidle hw =>
    refine ⟨ht.ids, fun t hm => ht.waiting t ?_, fun t hm => ht.waiting t ?_, fun t hm hdump => ?_, fun t hm hdump hok => ?_⟩
    · rw [hw]
      exact List.mem_cons_of_mem _ hm
    · obtain rfl := Option.some.inj hm
      rw [hw]
      exact List.mem_cons_self
    · obtain hwait | hwork | hdone := ht.tracked t hm hdump
      · rw [hw] at hwait
        obtain rfl | hwait := List.mem_cons.mp hwait
        · exact .inr (.inl rfl)
        · exact .inl hwait
      · rw [hidle] at hwork
        cases hwork
      · exact .inr (.inr hdone)
    · exact ht.complete t hm hdump hok
  | @done task hdone =>
    refine ⟨ht.ids, ht.waiting, fun t hm => (by cases hm), fun t hm hdump => ?_, ht.complete⟩
    obtain hwait | hwork | hall := ht.tracked t hm hdump
    · exact .inl hwait
    · rw [hdone] at hwork
      obtain rfl := Option.some.inj hwork
      exact .inr (.inr (hd.finished task hdone))
    · exact .inr (.inr hall)
  | skipNode => exact ht.frame rfl rfl rfl rfl rfl hdel hfailed
  | _ =>
    refine ht.frame rfl rfl rfl ?_ rfl hdel hfailed
    simp only [Dumper.task, *]

/-- A new task, which waits or has failed. -/
theorem Tracked.enter {task : TransTask} (ht : Tracked config s) (hid : task.id = s.nextId)
    (htasks : s'.tasks = task :: s.tasks) (hnext : s'.nextId = s.nextId + 1)
    (hsub : ∀ t ∈ s.dumpWaiting, t ∈ s'.dumpWaiting) (hnew : ∀ t ∈ s'.dumpWaiting, t ∈ s.dumpWaiting ∨ t = task)
    (hdumper : s'.dumper = s.dumper) (hwaits : s'.waits = Function.update s.waits task.id .submitted)
    (htask : task.type = .dump → task ∈ s'.dumpWaiting ∨ Failed s' task.id)
    (hdel : ∀ shard, Delivered config s shard → Delivered config s' shard)
    (hfailed : ∀ t ∈ s.tasks, Failed s t.id → Failed s' t.id) : Tracked config s' where
  ids := by
    rw [htasks, hnext, List.forall_mem_cons, hid]
    exact ⟨Nat.lt_succ_self _, fun t hm => Nat.lt_succ_of_lt (ht.ids t hm)⟩
  waiting := by
    rw [htasks]
    intro t hm
    obtain hm | rfl := hnew t hm
    · exact List.mem_cons_of_mem _ (ht.waiting t hm)
    · exact List.mem_cons_self
  working := by
    rw [htasks, hdumper]
    exact fun t hm => List.mem_cons_of_mem _ (ht.working t hm)
  tracked := by
    rw [htasks, hdumper, List.forall_mem_cons]
    refine ⟨fun hdump => (htask hdump).imp_right fun hf => .inr (.inr hf), fun t hm hdump => ?_⟩
    refine (ht.tracked t hm hdump).imp (hsub t) fun h => h.imp_right fun h => ?_
    exact h.imp (fun hall shard hs => hdel shard (hall shard hs)) (hfailed t hm)
  complete := by
    rw [htasks, hwaits, List.forall_mem_cons]
    refine ⟨fun hdump hok => ?_, fun t hm hdump hok => ?_⟩
    · rw [Function.update_self] at hok
      cases hok
    · have hne : t.id ≠ task.id := by
        rw [hid]
        exact Nat.ne_of_lt (ht.ids t hm)
      rw [Function.update_of_ne hne] at hok
      exact fun shard hs => hdel shard (ht.complete t hm hdump hok shard hs)

/-- A change of what the caller of a task knows. -/
theorem Tracked.wait {id : TaskHandle} {w : WaitState} (ht : Tracked config s) (htasks : s'.tasks = s.tasks)
    (hnext : s'.nextId = s.nextId) (hwaiting : s'.dumpWaiting = s.dumpWaiting) (hdumper : s'.dumper = s.dumper)
    (hwaits : s'.waits = Function.update s.waits id w)
    (hok : w = .ok → ∀ t ∈ s.tasks, t.type = .dump → t.id = id → ∀ shard ∈ t.desc, Delivered config s' shard)
    (hdel : ∀ shard, Delivered config s shard → Delivered config s' shard)
    (hfailed : ∀ t ∈ s.tasks, Failed s t.id → Failed s' t.id) : Tracked config s' where
  ids := by
    rw [htasks, hnext]
    exact ht.ids
  waiting := by
    rw [htasks, hwaiting]
    exact ht.waiting
  working := by
    rw [htasks, hdumper]
    exact ht.working
  tracked := by
    rw [htasks, hwaiting, hdumper]
    intro t hm hdump
    refine (ht.tracked t hm hdump).imp_right fun h => h.imp_right fun h => ?_
    exact h.imp (fun hall shard hs => hdel shard (hall shard hs)) (hfailed t hm)
  complete := by
    rw [htasks, hwaits]
    intro t hm hdump hw
    by_cases he : t.id = id
    · rw [he, Function.update_self] at hw
      exact hok hw t hm hdump he
    · rw [Function.update_of_ne he] at hw
      exact fun shard hs => hdel shard (ht.complete t hm hdump hw shard hs)

theorem UserStep.tracked (h : UserStep s s') (hc : Counted s) (ht : Tracked config s)
    (hdel : ∀ shard, Delivered config s shard → Delivered config s' shard)
    (hfailed : ∀ t ∈ s.tasks, Failed s t.id → Failed s' t.id) : Tracked config s' := by
  cases h with
  | @full type desc =>
    refine @Tracked.enter _ _ _ _ ⟨s.nextId, type, desc⟩ ht rfl rfl rfl (fun _ h => h) (fun _ h => .inl h) rfl rfl ?_ hdel
      hfailed
    exact fun _ => .inr (.inl (Finset.mem_insert_self _ _))
  | @load desc =>
    refine @Tracked.enter _ _ _ _ ⟨s.nextId, .load, desc⟩ ht rfl rfl rfl (fun _ h => h) (fun _ h => .inl h) rfl rfl ?_ hdel
      hfailed
    exact fun hdump => by cases hdump
  | @dump desc =>
    refine @Tracked.enter _ _ _ _ ⟨s.nextId, .dump, desc⟩ ht rfl rfl rfl (fun _ => List.mem_append_left _) ?_ rfl rfl ?_
      hdel hfailed
    · exact fun t hm => (List.mem_append.mp hm).imp_right List.mem_singleton.mp
    · exact fun _ => .inl (List.mem_append_right _ List.mem_cons_self)
  | wait => exact ht.wait rfl rfl rfl rfl rfl (fun h => by cases h) hdel hfailed
  | timeout => exact ht.wait rfl rfl rfl rfl rfl (fun h => by cases h) hdel hfailed
  | error => exact ht.wait rfl rfl rfl rfl rfl (fun h => by cases h) hdel hfailed
  | @ok id hl hw hf =>
    refine ht.wait rfl rfl rfl rfl rfl (fun _ t hm hdump he shard hs => ?_) hdel hfailed
    subst he
    obtain hwait | hwork | hall | hfail := ht.tracked t hm hdump
    · exact absurd hl (latches_ne_zero hc (.inl hwait))
    · exact absurd hl (latches_ne_zero hc (.inr hwork))
    · exact hdel shard (hall shard hs)
    · simp [Failed, hf, hw] at hfail
  | timedOut => exact ht.wait rfl rfl rfl rfl rfl (fun h => by cases h) hdel hfailed

theorem Step.tracked {e : Event Data} (h : Step config s e s') (hi : Inv s) (hd : Delivering config s)
    (ht : Tracked config s) : Tracked config s' := by
  have hdel : ∀ shard, Delivered config s shard → Delivered config s' shard := fun _ => h.delivered
  have hfailed : ∀ t ∈ s.tasks, Failed s t.id → Failed s' t.id := fun t hm => h.failed (ht.ids t hm)
  cases h with
  | load h => cases h <;> exact ht.frame rfl rfl rfl rfl rfl hdel hfailed
  | transfer h => cases h <;> exact ht.frame rfl rfl rfl rfl rfl hdel hfailed
  | dump h => exact h.tracked hd ht hdel hfailed
  | backendDump h => cases h <;> exact ht.frame rfl rfl rfl rfl rfl hdel hfailed
  | backend h => cases h <;> exact ht.frame rfl rfl rfl rfl rfl hdel hfailed
  | user h => exact h.tracked hi.counted ht hdel hfailed

open StepSystem

section Check

variable [DecidableEq Data]

instance : Decidable (Delivered config s shard) := inferInstanceAs (Decidable (_ ∨ _))

instance : Decidable (Covers config ctx shard) := inferInstanceAs (Decidable (∃ x ∈ ctx, _))

end Check

end Store

end UnifiedCache.CacheStore
