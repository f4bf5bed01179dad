import UnifiedCache.Cache.Steps

/-! Where the handles of the cache store are. Every step moves the buffer and the
handles as the pool allows, so the reference counts are those of the handles that
the threads and queues hold. -/

namespace UnifiedCache.CacheStore

open PinnedPool

def Loader.handles : Loader → List BufferHandle
  | .find _ got _ => got.map Gathered.bufferHandle
  | .alloc _ got _ _ => got.map Gathered.bufferHandle
  | .submit _ got => got.map Gathered.bufferHandle
  | .push tasks => tasks.map ShardTask.bufferHandle
  | .fail _ got => got.map Gathered.bufferHandle
  | .done _ got => got.map Gathered.bufferHandle
  | .release got => got.map Gathered.bufferHandle
  | _ => []

def Transfer.task : Transfer → Option ShardTask
  | .idle => none
  | .check task => some task
  | .ready task => some task
  | .spin task => some task
  | .backendWait task => some task
  | .mark task => some task
  | .copy task => some task
  | .sync task => some task
  | .clear task _ => some task
  | .fail task => some task
  | .done task => some task
  | .release task => some task

def Transfer.handles (t : Transfer) : List BufferHandle := (t.task.map ShardTask.bufferHandle).toList

def Dumper.handles : Dumper → List BufferHandle
  | .find _ ctx _ => ctx.map Prod.snd
  | .alloc _ ctx _ _ => ctx.map Prod.snd
  | .got _ ctx _ handle _ => handle :: ctx.map Prod.snd
  | .sync _ ctx => ctx.map Prod.snd
  | .mark _ ctx _ => ctx.map Prod.snd
  | .push _ _ ctx => ctx.map Prod.snd
  | .drop _ handles => handles
  | _ => []

def BackendDumper.handles : BackendDumper → List BufferHandle
  | .check ctx => ctx.bufferHandles
  | .wait ctx => ctx.bufferHandles
  | .release handles => handles
  | .idle => []

/-- The handle that the next step of the thread releases. -/
def Loader.dropping : Loader → Option BufferHandle
  | .release (g :: _) => some g.bufferHandle
  | _ => none

def Transfer.dropping (holder : List ShardTask) : Transfer → Option BufferHandle
  | .clear _ _ => holder.head?.map ShardTask.bufferHandle
  | .release task => some task.bufferHandle
  | _ => none

def Dumper.dropping : Dumper → Option BufferHandle
  | .got _ _ _ handle _ => if handle.owner then none else some handle
  | .drop _ handles => handles.head?
  | _ => none

def BackendDumper.dropping : BackendDumper → Option BufferHandle
  | .release handles => handles.head?
  | _ => none

namespace Store

variable {Data : Type} {config : Config Data} {s s' : Store Data}

/-- The handles of the load queue. -/
def loadHandles (s : Store Data) : List BufferHandle :=
  s.loader.handles ++ (s.running.map ShardTask.bufferHandle ++
    (s.transfer.handles ++ s.holder.map ShardTask.bufferHandle))

/-- The handles that wait for the backend to finish a dump. -/
def dumpedHandles (s : Store Data) : List BufferHandle :=
  s.dumping.flatMap DumpCtx.bufferHandles ++ s.backendDumper.handles

def handles (s : Store Data) : List BufferHandle :=
  s.loadHandles ++ (s.dumper.handles ++ s.dumpedHandles)

def dropping (s : Store Data) : Event Data → Option BufferHandle
  | .load _ => s.loader.dropping
  | .transfer _ => s.transfer.dropping s.holder
  | .dump _ => s.dumper.dropping
  | .backendDump _ => s.backendDumper.dropping
  | _ => none

/-- The counts are right, and a key that a dispatcher allocates a node for is not in
the table. -/
structure Base (s : Store Data) : Prop where
  held : Held s.pool s.handles
  loadKey : ∀ k, s.loader.allocKey = some k → ∀ j, s.pool.key j ≠ some k
  dumpKey : ∀ k, s.dumper.allocKey = some k → ∀ j, s.pool.key j ≠ some k
  apart : ∀ k k', s.loader.allocKey = some k → s.dumper.allocKey = some k' → k ≠ k'

theorem base_setup (h : 1 ≤ config.nNode) (data : Nat → Data) : Base (setup config data) :=
  ⟨held_start h, fun _ h => (by cases h), fun _ h => (by cases h), fun _ _ h => (by cases h)⟩

theorem map_bufferHandle_shardTasks (id h : TaskHandle) (got : List Gathered) :
    (shardTasks id h got).map ShardTask.bufferHandle = got.map Gathered.bufferHandle := by
  induction got with
  | nil => rfl
  | cons g got ih =>
    cases got with
    | nil => rfl
    | cons g' got => simpa [shardTasks] using ih

theorem LoadStep.move (h : LoadStep config s s') (hb : Base s) :
    Move s.pool s.handles s.loader.dropping s'.pool s'.handles := by
  cases h with
  | pop hl =>
    rw [hl]
    exact .keep (by simp [handles, loadHandles, dumpedHandles, Loader.handles, hl])
  | refuse hl =>
    rw [hl]
    exact .keep (by simp [handles, loadHandles, dumpedHandles, Loader.handles, hl, latchDone])
  | check hl =>
    rw [hl]
    exact .keep (by simp [handles, loadHandles, dumpedHandles, Loader.handles, hl])
  | gathered hl =>
    rw [hl]
    exact .keep (by simp [handles, loadHandles, dumpedHandles, Loader.handles, hl])
  | miss hl =>
    rw [hl]
    exact .keep (by simp [handles, loadHandles, dumpedHandles, Loader.handles, hl])
  | hit hl _ hp =>
    rw [hl]
    refine .hit (find_some hp) (List.perm_iff_count.mpr fun x => ?_)
    simp [handles, loadHandles, dumpedHandles, Loader.handles, hl, Store.hit, List.count_cons]
    omega
  | skipNode hl =>
    rw [hl]
    exact .pass (by simp [handles, loadHandles, dumpedHandles, Loader.handles, hl])
  | takeNode hl hr =>
    rw [hl]
    refine .take hr (hb.loadKey _ (by rw [hl]; rfl)) (List.perm_iff_count.mpr fun x => ?_)
    simp [handles, loadHandles, dumpedHandles, Loader.handles, hl, List.count_cons]
    omega
  | allReady hl =>
    rw [hl]
    exact .keep (by simp [handles, loadHandles, dumpedHandles, Loader.handles, hl, map_bufferHandle_shardTasks])
  | refused hl =>
    rw [hl]
    exact .keep (by simp [handles, loadHandles, dumpedHandles, Loader.handles, hl])
  | submit hl =>
    rw [hl]
    exact .keep (by simp [handles, loadHandles, dumpedHandles, Loader.handles, hl, map_bufferHandle_shardTasks])
  | pushed hl =>
    rw [hl]
    exact .keep (by simp [handles, loadHandles, dumpedHandles, Loader.handles, hl])
  | push hl =>
    rw [hl]
    refine .keep (List.perm_iff_count.mpr fun x => ?_)
    simp [handles, loadHandles, dumpedHandles, Loader.handles, hl, List.count_cons]
    omega
  | fail hl =>
    rw [hl]
    exact .keep (by simp [handles, loadHandles, dumpedHandles, Loader.handles, hl, markFailed])
  | done hl =>
    rw [hl]
    exact .keep (by simp [handles, loadHandles, dumpedHandles, Loader.handles, hl, latchDone])
  | released hl =>
    rw [hl]
    exact .keep (by simp [handles, loadHandles, dumpedHandles, Loader.handles, hl])
  | release hl =>
    rw [hl]
    exact .drop (by simp [handles, loadHandles, dumpedHandles, Loader.handles, hl, Store.release])

theorem TransferStep.move (h : TransferStep s s') : Move s.pool s.handles (s.transfer.dropping s.holder) s'.pool s'.handles := by
  cases h with
  | pop ht hr =>
    rw [ht]
    refine .keep (List.perm_iff_count.mpr fun x => ?_)
    simp [handles, loadHandles, dumpedHandles, Transfer.handles, Transfer.task, ht, hr, List.count_cons]
    omega
  | refuse ht =>
    rw [ht]
    exact .keep (by simp [handles, loadHandles, dumpedHandles, Transfer.handles, Transfer.task, ht])
  | check ht =>
    rw [ht]
    exact .keep (by simp [handles, loadHandles, dumpedHandles, Transfer.handles, Transfer.task, ht])
  | isReady ht =>
    rw [ht]
    exact .keep (by simp [handles, loadHandles, dumpedHandles, Transfer.handles, Transfer.task, ht])
  | notOwner ht =>
    rw [ht]
    exact .keep (by simp [handles, loadHandles, dumpedHandles, Transfer.handles, Transfer.task, ht])
  | unfinished ht =>
    rw [ht]
    exact .keep (by simp [handles, loadHandles, dumpedHandles, Transfer.handles, Transfer.task, ht])
  | finished ht =>
    rw [ht]
    exact .keep (by simp [handles, loadHandles, dumpedHandles, Transfer.handles, Transfer.task, ht])
  | spinFailed ht =>
    rw [ht]
    exact .keep (by simp [handles, loadHandles, dumpedHandles, Transfer.handles, Transfer.task, ht])
  | spinReady ht =>
    rw [ht]
    exact .keep (by simp [handles, loadHandles, dumpedHandles, Transfer.handles, Transfer.task, ht])
  | waited ht =>
    rw [ht]
    exact .keep (by simp [handles, loadHandles, dumpedHandles, Transfer.handles, Transfer.task, ht])
  | waitFailed ht =>
    rw [ht]
    exact .keep (by simp [handles, loadHandles, dumpedHandles, Transfer.handles, Transfer.task, ht])
  | mark ht =>
    rw [ht]
    exact .mark (by simp [handles, loadHandles, dumpedHandles, Transfer.handles, Transfer.task, ht])
  | copyFailed ht =>
    rw [ht]
    exact .keep (by simp [handles, loadHandles, dumpedHandles, Transfer.handles, Transfer.task, ht])
  | copyLast ht =>
    rw [ht]
    exact .keep (by simp [handles, loadHandles, dumpedHandles, Transfer.handles, Transfer.task, ht])
  | copy ht =>
    rw [ht]
    refine .keep (List.perm_iff_count.mpr fun x => ?_)
    simp [handles, loadHandles, dumpedHandles, Transfer.handles, Transfer.task, ht, List.count_cons]
    omega
  | syncFailed ht =>
    rw [ht]
    exact .keep (by simp [handles, loadHandles, dumpedHandles, Transfer.handles, Transfer.task, ht])
  | sync ht =>
    rw [ht]
    exact .keep (by simp [handles, loadHandles, dumpedHandles, Transfer.handles, Transfer.task, ht])
  | clear ht hh =>
    rw [ht, hh]
    refine .drop (List.perm_iff_count.mpr fun x => ?_)
    simp [handles, loadHandles, dumpedHandles, Transfer.handles, Transfer.task, ht, hh, List.count_cons, Store.release]
    omega
  | cleared ht hh =>
    rw [ht, hh]
    exact .keep (by simp [handles, loadHandles, dumpedHandles, Transfer.handles, Transfer.task, ht, hh])
  | clearedFailed ht hh =>
    rw [ht, hh]
    exact .keep (by simp [handles, loadHandles, dumpedHandles, Transfer.handles, Transfer.task, ht, hh])
  | fail ht =>
    rw [ht]
    exact .keep (by simp [handles, loadHandles, dumpedHandles, Transfer.handles, Transfer.task, ht, markFailed])
  | doneLast ht =>
    rw [ht]
    exact .keep (by simp [handles, loadHandles, dumpedHandles, Transfer.handles, Transfer.task, ht, latchDone])
  | done ht =>
    rw [ht]
    exact .keep (by simp [handles, loadHandles, dumpedHandles, Transfer.handles, Transfer.task, ht])
  | release ht =>
    rw [ht]
    refine .drop (List.perm_iff_count.mpr fun x => ?_)
    simp [handles, loadHandles, dumpedHandles, Transfer.handles, Transfer.task, ht, List.count_cons, Store.release]
    omega

theorem DumpStep.move (h : DumpStep config s s') (hb : Base s) :
    Move s.pool s.handles s.dumper.dropping s'.pool s'.handles := by
  cases h with
  | pop hd =>
    rw [hd]
    exact .keep (by simp [handles, loadHandles, dumpedHandles, Dumper.handles, hd])
  | refuse hd =>
    rw [hd]
    exact .keep (by simp [handles, loadHandles, dumpedHandles, Dumper.handles, hd])
  | check hd =>
    rw [hd]
    exact .keep (by simp [handles, loadHandles, dumpedHandles, Dumper.handles, hd])
  | nothing hd =>
    rw [hd]
    exact .keep (by simp [handles, loadHandles, dumpedHandles, Dumper.handles, hd])
  | gathered hd =>
    rw [hd]
    exact .keep (by simp [handles, loadHandles, dumpedHandles, Dumper.handles, hd])
  | miss hd =>
    rw [hd]
    exact .keep (by simp [handles, loadHandles, dumpedHandles, Dumper.handles, hd])
  | hit hd _ hp =>
    rw [hd]
    refine .hit (find_some hp) (List.perm_iff_count.mpr fun x => ?_)
    simp [handles, loadHandles, dumpedHandles, Dumper.handles, hd, Store.hit, List.count_cons]
    omega
  | skipNode hd =>
    rw [hd]
    exact .pass (by simp [handles, loadHandles, dumpedHandles, Dumper.handles, hd])
  | takeNode hd hr =>
    rw [hd]
    refine .take hr (hb.dumpKey _ (by rw [hd]; rfl)) (List.perm_iff_count.mpr fun x => ?_)
    simp [handles, loadHandles, dumpedHandles, Dumper.handles, hd, List.count_cons]
    omega
  | skip hd ho =>
    rw [hd, Dumper.dropping, ho]
    refine .drop (List.perm_iff_count.mpr fun x => ?_)
    simp [handles, loadHandles, dumpedHandles, Dumper.handles, hd, List.count_cons, Store.release]
    omega
  | keep hd ho =>
    rw [hd, Dumper.dropping, ho]
    refine .keep (List.perm_iff_count.mpr fun x => ?_)
    simp [handles, loadHandles, dumpedHandles, Dumper.handles, hd, List.count_cons]
    omega
  | copy hd ho =>
    rw [hd, Dumper.dropping, ho]
    refine .keep (List.perm_iff_count.mpr fun x => ?_)
    simp [handles, loadHandles, dumpedHandles, Dumper.handles, hd, List.count_cons]
    omega
  | copyFailed hd ho =>
    rw [hd, Dumper.dropping, ho]
    exact .keep (by simp [handles, loadHandles, dumpedHandles, Dumper.handles, hd])
  | syncFailed hd =>
    rw [hd]
    exact .keep (by simp [handles, loadHandles, dumpedHandles, Dumper.handles, hd])
  | sync hd =>
    rw [hd]
    exact .keep (by simp [handles, loadHandles, dumpedHandles, Dumper.handles, hd])
  | mark hd =>
    rw [hd]
    exact .mark (by simp [handles, loadHandles, dumpedHandles, Dumper.handles, hd])
  | refused hd =>
    rw [hd]
    exact .keep (by simp [handles, loadHandles, dumpedHandles, Dumper.handles, hd])
  | submit hd =>
    rw [hd]
    exact .keep (by simp [handles, loadHandles, dumpedHandles, Dumper.handles, hd])
  | push hd =>
    rw [hd]
    refine .keep (List.perm_iff_count.mpr fun x => ?_)
    simp [handles, loadHandles, dumpedHandles, Dumper.handles, hd]
    omega
  | drop hd =>
    rw [hd]
    refine .drop (List.perm_iff_count.mpr fun x => ?_)
    simp [handles, loadHandles, dumpedHandles, Dumper.handles, hd, List.count_cons, Store.release]
    omega
  | dropped hd =>
    rw [hd]
    exact .keep (by simp [handles, loadHandles, dumpedHandles, Dumper.handles, hd])
  | fail hd =>
    rw [hd]
    exact .keep (by simp [handles, loadHandles, dumpedHandles, Dumper.handles, hd, markFailed])
  | done hd =>
    rw [hd]
    exact .keep (by simp [handles, loadHandles, dumpedHandles, Dumper.handles, hd, latchDone])

theorem BackendDumpStep.move (h : BackendDumpStep s s') : Move s.pool s.handles s.backendDumper.dropping s'.pool s'.handles := by
  cases h with
  | pop hb hd =>
    rw [hb]
    refine .keep (List.perm_iff_count.mpr fun x => ?_)
    simp [handles, loadHandles, dumpedHandles, BackendDumper.handles, hb, hd]
    omega
  | unfinished hb =>
    rw [hb]
    exact .keep (by simp [handles, loadHandles, dumpedHandles, BackendDumper.handles, hb])
  | finished hb =>
    rw [hb]
    exact .keep (by simp [handles, loadHandles, dumpedHandles, BackendDumper.handles, hb])
  | waited hb =>
    rw [hb]
    exact .keep (by simp [handles, loadHandles, dumpedHandles, BackendDumper.handles, hb])
  | released hb =>
    rw [hb]
    exact .keep (by simp [handles, loadHandles, dumpedHandles, BackendDumper.handles, hb])
  | release hb =>
    rw [hb]
    refine .drop (List.perm_iff_count.mpr fun x => ?_)
    simp [handles, loadHandles, dumpedHandles, BackendDumper.handles, hb, List.count_cons, Store.release]
    omega

theorem BackendStep.pool_eq (h : BackendStep config s s') : s'.pool = s.pool ∧ s'.handles = s.handles := by
  cases h <;> exact ⟨rfl, rfl⟩

theorem UserStep.pool_eq (h : UserStep s s') : s'.pool = s.pool ∧ s'.handles = s.handles := by
  cases h <;> exact ⟨rfl, rfl⟩

theorem Step.move {e : Event Data} (h : Step config s e s') (hb : Base s) :
    Move s.pool s.handles (s.dropping e) s'.pool s'.handles := by
  cases h with
  | load h => exact h.move hb
  | transfer h => exact h.move
  | dump h => exact h.move hb
  | backendDump h => exact h.move
  | backend h => exact h.pool_eq.1 ▸ h.pool_eq.2 ▸ .keep (List.Perm.refl _)
  | user h => exact h.pool_eq.1 ▸ h.pool_eq.2 ▸ .keep (List.Perm.refl _)

theorem key_ne_of_bucketFree {o : Option (BlockId × Nat)} {k k' : BlockId × Nat}
    (h : bucketFree config o k = true) (ho : o = some k') : k ≠ k' := by
  rintro rfl
  simp [bucketFree, ho] at h

theorem Base.frame {o : Option BufferHandle} (hb : Base s)
    (hm : Move s.pool s.handles o s'.pool s'.handles)
    (hk : s'.pool.key = s.pool.key) (hl : s'.loader.allocKey = s.loader.allocKey)
    (hd : s'.dumper.allocKey = s.dumper.allocKey) : Base s' := by
  refine ⟨hb.held.move hm, ?_, ?_, ?_⟩
  · rw [hl, hk]
    exact hb.loadKey
  · rw [hd, hk]
    exact hb.dumpKey
  · rw [hl, hd]
    exact hb.apart

theorem LoadStep.base (h : LoadStep config s s') (hb : Base s) : Base s' := by
  refine ⟨hb.held.move (h.move hb), ?_, ?_, ?_⟩
  · intro k hk
    cases h with
    | miss hl _ hp =>
      obtain rfl := Option.some.inj hk
      exact hb.held.ok.find_eq_none_iff.mp hp
    | skipNode hl => exact hb.loadKey k hk
    | _ => cases hk
  · intro k hk j
    cases h with
    | takeNode hl =>
      have hne := hb.apart _ k (by rw [hl]; rfl) hk
      by_cases hj : j = s.pool.hand
      · simpa [rekey, hj] using hne
      · simpa [rekey, hj] using hb.dumpKey k hk j
    | _ => exact hb.dumpKey k hk j
  · intro k k' hk hk'
    cases h with
    | miss hl hf =>
      obtain rfl := Option.some.inj hk
      exact key_ne_of_bucketFree hf hk'
    | skipNode hl => exact hb.apart k k' hk hk'
    | _ => cases hk

theorem DumpStep.base (h : DumpStep config s s') (hb : Base s) : Base s' := by
  refine ⟨hb.held.move (h.move hb), ?_, ?_, ?_⟩
  · intro k hk j
    cases h with
    | takeNode hd =>
      have hne := hb.apart k _ hk (by rw [hd]; rfl)
      by_cases hj : j = s.pool.hand
      · simpa [rekey, hj] using hne.symm
      · simpa [rekey, hj] using hb.loadKey k hk j
    | _ => exact hb.loadKey k hk j
  · intro k hk
    cases h with
    | miss hd _ hp =>
      obtain rfl := Option.some.inj hk
      exact hb.held.ok.find_eq_none_iff.mp hp
    | skipNode hd => exact hb.dumpKey k hk
    | _ => cases hk
  · intro k k' hk hk'
    cases h with
    | miss hd hf =>
      obtain rfl := Option.some.inj hk'
      exact (key_ne_of_bucketFree hf hk).symm
    | skipNode hd => exact hb.apart k k' hk hk'
    | _ => cases hk'

theorem Step.base {e : Event Data} (h : Step config s e s') (hb : Base s) : Base s' := by
  have hm := h.move hb
  cases h with
  | load h => exact h.base hb
  | transfer h => cases h <;> exact hb.frame hm rfl rfl rfl
  | dump h => exact h.base hb
  | backendDump h => cases h <;> exact hb.frame hm rfl rfl rfl
  | backend h => cases h <;> exact hb.frame hm rfl rfl rfl
  | user h => cases h <;> exact hb.frame hm rfl rfl rfl

theorem base_of_reach {guard : Store Data → Event Data → Prop} {data : Nat → Data}
    (hn : 1 ≤ config.nNode) (h : StepSystem.Reach (step config) guard (setup config data) s) : Base s :=
  h.invariant Base (base_setup hn data) fun _ _ _ hb _ hs => (step_inv hs).base hb

end Store

end UnifiedCache.CacheStore
