import UnifiedCache.Cache.Gather
import UnifiedCache.Cache.Owners
import UnifiedCache.Cache.Writers

/-! When a node is marked ready. The transfer thread concludes from the last job it
has waited for, and the dump dispatcher from its stream, that the bytes have arrived;
both are right as long as nobody else writes to the node, that is, as long as a node
that can still be written keeps a handle. -/

namespace UnifiedCache.CacheStore

open PinnedPool

def Loader.gathered : Loader → List Gathered
  | .find _ got _ => got
  | .alloc _ got _ _ => got
  | .submit _ got => got
  | _ => []

/-- The shards that the dump dispatcher has copied or found ready. -/
def Dumper.kept : Dumper → List (Shard × BufferHandle)
  | .find _ ctx _ => ctx
  | .alloc _ ctx _ _ => ctx
  | .got _ ctx _ _ _ => ctx
  | .sync _ ctx => ctx
  | .mark _ ctx _ => ctx
  | _ => []

theorem Loader.mem_handles {l : Loader} {g : Gathered} (h : g ∈ l.gathered) : g.bufferHandle ∈ l.handles := by
  cases l with
  | find => exact List.mem_map_of_mem h
  | alloc => exact List.mem_map_of_mem h
  | submit => exact List.mem_map_of_mem h
  | _ => cases h

theorem Loader.mem_handles_of_pushing {l : Loader} {task : ShardTask} (h : task ∈ l.pushing) :
    task.bufferHandle ∈ l.handles := by
  cases l with
  | push => exact List.mem_map_of_mem h
  | _ => cases h

theorem Transfer.mem_handles {t : Transfer} {task : ShardTask} (h : task ∈ t.front) :
    task.bufferHandle ∈ t.handles := by
  cases t with
  | idle => cases h
  | release => cases h
  | _ =>
    obtain rfl := List.mem_singleton.mp h
    exact List.mem_singleton.mpr rfl

theorem Dumper.mem_handles {d : Dumper} {x : Shard × BufferHandle} (h : x ∈ d.kept) : x.2 ∈ d.handles := by
  cases d with
  | find => exact List.mem_map_of_mem h
  | alloc => exact List.mem_map_of_mem h
  | got => exact List.mem_cons_of_mem _ (List.mem_map_of_mem h)
  | sync => exact List.mem_map_of_mem h
  | mark => exact List.mem_map_of_mem h
  | _ => cases h

namespace Store

variable {Data : Type} {config : Config Data} {s s' : Store Data} {x y : BufferHandle}

theorem mem_loadHandles_of_pipe {t : ShardTask} (h : t ∈ s.pipe) : t.bufferHandle ∈ s.loadHandles := by
  simp only [pipe, loadHandles, List.mem_append] at h ⊢
  rcases h with h | h | h
  · exact Or.inr (Or.inr (Or.inl (Transfer.mem_handles h)))
  · exact Or.inr (Or.inl (List.mem_map_of_mem h))
  · exact Or.inl (Loader.mem_handles_of_pushing h)

theorem mem_handles_of_load (h : x ∈ s.loadHandles) : x ∈ s.handles := List.mem_append_left _ h

theorem mem_handles_of_loader (h : x ∈ s.loader.handles) : x ∈ s.handles :=
  mem_handles_of_load (List.mem_append_left _ h)

theorem mem_handles_of_dumper (h : x ∈ s.dumper.handles) : x ∈ s.handles :=
  List.mem_append_right _ (List.mem_append_left _ h)

/-- An owner of the load queue and one of the dump dispatcher own different nodes. -/
theorem Base.load_ne_dump (hb : Base s) (hx : x ∈ s.loadHandles) (hy : y ∈ s.dumper.handles)
    (hox : x.owner = true) (hoy : y.owner = true) : x.node ≠ y.node :=
  hb.held.node_ne (List.Perm.refl _) hx (List.mem_append_left _ hy) hox hoy

theorem perm_handles_loader : s.handles.Perm (s.loader.handles ++
    ((s.running.map ShardTask.bufferHandle ++ (s.transfer.handles ++ s.holder.map ShardTask.bufferHandle)) ++
      (s.dumper.handles ++ s.dumpedHandles))) := by
  rw [handles, loadHandles, List.append_assoc]

theorem Base.loader_ne_transfer (hb : Base s) (hx : x ∈ s.loader.handles) (hy : y ∈ s.transfer.handles)
    (hox : x.owner = true) (hoy : y.owner = true) : x.node ≠ y.node :=
  hb.held.node_ne perm_handles_loader hx
    (List.mem_append_left _ (List.mem_append_right _ (List.mem_append_left _ hy))) hox hoy

theorem Base.loader_ne_running {t : ShardTask} (hb : Base s) (hx : x ∈ s.loader.handles)
    (ht : t ∈ s.running) (hox : x.owner = true) (hoy : t.bufferHandle.owner = true) :
    x.node ≠ t.bufferHandle.node :=
  hb.held.node_ne perm_handles_loader hx
    (List.mem_append_left _ (List.mem_append_left _ (List.mem_map_of_mem ht))) hox hoy

/-- The node is ready, or its bytes have arrived. -/
def Settled (s : Store Data) (x : BufferHandle) : Prop := s.pool.ready x.node = true ∨ Filled s x

theorem Settled.keeps (h : Settled s x) (hk : Keeps s s' x.node) : Settled s' x :=
  h.imp hk.ready fun hf => hf.keeps hk

/-- What the load dispatcher asks the backend for is its own and not ready. -/
structure Gathering (s : Store Data) : Prop where
  fill : ∀ g ∈ s.loader.gathered, g.fill = true → g.bufferHandle.owner = true ∧
    s.pool.ready g.bufferHandle.node = false ∧ s.Quiet g.bufferHandle.node
  skip : ∀ g ∈ s.loader.gathered, g.fill = false → g.bufferHandle.owner = true →
    s.pool.ready g.bufferHandle.node = true

/-- What an owner on its way to the transfer thread waits for, and what it marks. -/
structure Transferring (s : Store Data) : Prop where
  pending : ∀ t ∈ s.pipe, t.bufferHandle.owner = true → s.pool.ready t.bufferHandle.node = true ∨
    t.backendTaskHandle ≠ 0 ∧ Loading s t.backendTaskHandle t.bufferHandle
  waiting : ∀ t, s.transfer = .backendWait t → t.bufferHandle.owner = true
  marking : ∀ t, s.transfer = .mark t → t.bufferHandle.owner = true ∧ Settled s t.bufferHandle

/-- What the dump dispatcher keeps is its own, and copied before it marks it. -/
structure Keeping (s : Store Data) : Prop where
  got : ∀ task ctx shard handle rest, s.dumper = .got task ctx shard handle rest → handle.owner = true →
    s.pool.ready handle.node = false → s.Quiet handle.node
  kept : ∀ x ∈ s.dumper.kept, x.2.owner = true ∧ (Settled s x.2 ∨ Copying s x.2)
  marking : ∀ task ctx todo, s.dumper = .mark task ctx todo →
    (∀ x ∈ todo, x ∈ ctx) ∧ ∀ x ∈ ctx, Settled s x.2

theorem Gathering.frame (hg : Gathering s) (hl : s'.loader.gathered = s.loader.gathered)
    (hk : ∀ x ∈ s.loader.handles, x.owner = true → Keeps s s' x.node)
    (hn : ∀ x ∈ s.loader.handles, x.owner = true → s.pool.ready x.node = false →
      s'.pool.ready x.node = false) : Gathering s' := by
  refine ⟨fun g hm hf => ?_, fun g hm hf ho => ?_⟩
  · rw [hl] at hm
    obtain ⟨ho, hr, hq⟩ := hg.fill g hm hf
    exact ⟨ho, hn _ (Loader.mem_handles hm) ho hr, (hk _ (Loader.mem_handles hm) ho).quiet hq⟩
  · rw [hl] at hm
    exact (hk _ (Loader.mem_handles hm) ho).ready (hg.skip g hm hf ho)

theorem Transferring.frame (ht : Transferring s) (hs : ∀ t ∈ s'.pipe, t ∈ s.pipe)
    (hk : ∀ t ∈ s.pipe, t.bufferHandle.owner = true → Keeps s s' t.bufferHandle.node)
    (hl : ∀ n x, Keeps s s' x.node → Loading s n x → Loading s' n x)
    (hwait : ∀ t, s'.transfer = .backendWait t → t.bufferHandle.owner = true)
    (hm : ∀ t, s'.transfer = .mark t → t.bufferHandle.owner = true ∧ Settled s' t.bufferHandle) :
    Transferring s' := by
  refine ⟨fun t hmem ho => ?_, hwait, hm⟩
  have hkt := hk t (hs t hmem) ho
  rcases ht.pending t (hs t hmem) ho with hr | ⟨hne, hload⟩
  · exact Or.inl (hkt.ready hr)
  · exact Or.inr ⟨hne, hl _ _ hkt hload⟩

theorem Transferring.keeps_marking (ht : Transferring s) (he : s'.transfer = s.transfer)
    (hk : ∀ t ∈ s.pipe, t.bufferHandle.owner = true → Keeps s s' t.bufferHandle.node) (t : ShardTask)
    (hm : s'.transfer = .mark t) : t.bufferHandle.owner = true ∧ Settled s' t.bufferHandle := by
  rw [he] at hm
  obtain ⟨ho, hset⟩ := ht.marking t hm
  have hmem : t ∈ s.pipe := List.mem_append_left _ (by rw [hm]; exact List.mem_singleton.mpr rfl)
  exact ⟨ho, hset.keeps (hk t hmem ho)⟩

theorem Keeping.frame (hc : Keeping s) (hd : s'.dumper = s.dumper)
    (hk : ∀ x ∈ s.dumper.handles, x.owner = true → Keeps s s' x.node)
    (hcopy : ∀ x, Copying s x → Copying s' x ∨ Filled s' x) : Keeping s' := by
  refine ⟨fun task ctx shard handle rest hgot ho hr => ?_, fun x hx => ?_, fun task ctx todo hm => ?_⟩
  · rw [hd] at hgot
    have hkh := hk handle (by rw [hgot]; exact List.mem_cons_self) ho
    refine hkh.quiet (hc.got task ctx shard handle rest hgot ho ?_)
    by_contra hne
    rw [hkh.ready (by simpa using hne)] at hr
    cases hr
  · rw [hd] at hx
    obtain ⟨ho, h⟩ := hc.kept x hx
    refine ⟨ho, ?_⟩
    rcases h with h | h
    · exact Or.inl (h.keeps (hk _ (Dumper.mem_handles hx) ho))
    · rcases hcopy _ h with h | h
      · exact Or.inr h
      · exact Or.inl (Or.inr h)
  · rw [hd] at hm
    obtain ⟨hsub, hset⟩ := hc.marking task ctx todo hm
    refine ⟨hsub, fun x hx => ?_⟩
    have hxk : x ∈ s.dumper.kept := by
      rw [hm]
      exact hx
    exact (hset x hx).keeps (hk _ (Dumper.mem_handles hxk) (hc.kept x hxk).1)

section Load

theorem mem_rest_of_pipe {id : TaskHandle} {got : List Gathered} {t : ShardTask}
    (hl : s.loader = .submit id got) (ht : t ∈ s.pipe) : t.bufferHandle ∈
      s.running.map ShardTask.bufferHandle ++ (s.transfer.handles ++ s.holder.map ShardTask.bufferHandle) ++
        (s.dumper.handles ++ s.dumpedHandles) := by
  simp only [pipe, hl, Loader.pushing, List.append_nil, List.mem_append] at ht ⊢
  rcases ht with ht | ht
  · exact Or.inl (Or.inr (Or.inl (Transfer.mem_handles ht)))
  · exact Or.inl (Or.inl (List.mem_map_of_mem ht))

theorem Gathering.submit_ne {id : TaskHandle} {got : List Gathered} (hg : Gathering s) (hb : Base s)
    (hl : s.loader = .submit id got) (hx : x ∈ s.running.map ShardTask.bufferHandle ++
      (s.transfer.handles ++ s.holder.map ShardTask.bufferHandle) ++ (s.dumper.handles ++ s.dumpedHandles))
    (ho : x.owner = true) : ∀ g ∈ got, g.fill = true → g.bufferHandle.node ≠ x.node := by
  intro g hm hf
  have hmem : g ∈ s.loader.gathered := by
    rw [hl]
    exact hm
  exact hb.held.node_ne perm_handles_loader (Loader.mem_handles hmem) hx (hg.fill g hmem hf).1 ho

theorem LoadStep.writing (h : LoadStep config s s') (hb : Base s) (hw : Writing s) (hg : Gathering s)
    (hq : ∀ y ∈ s.loader.dropping, s.pool.reference y.node = 1 → s.Quiet y.node) : Writing s' := by
  have hm := h.move hb
  cases h with
  | takeNode hl hr =>
    refine hw.move hm hq (List.Sublist.refl _) rfl rfl fun i hd => Or.inl ?_
    by_cases hi : i = s.pool.hand
    · simp [rekey, hi] at hd
    · simpa [rekey, hi] using hd
  | @submit id got h hl =>
    have hfill : ∀ w ∈ loadItems got, ∃ g ∈ s.loader.gathered, g.fill = true ∧
        w = (g.bufferHandle.key, g.bufferHandle.node) := by
      rw [hl]
      exact fun w hw => mem_loadItems hw
    refine hw.add (loadItems got) (List.perm_append_comm_assoc _ _ _) rfl rfl rfl ?_ ?_ ?_ ?_ ?_
    · intro w hmem
      obtain ⟨g, hgm, _, rfl⟩ := hfill w hmem
      exact hb.held.key _ (mem_handles_of_loader (Loader.mem_handles hgm))
    · intro w hmem
      obtain ⟨g, hgm, _, rfl⟩ := hfill w hmem
      exact hb.held.reference_pos (mem_handles_of_loader (Loader.mem_handles hgm))
    · intro w hmem
      obtain ⟨g, hgm, hf, rfl⟩ := hfill w hmem
      exact (hg.fill g hgm hf).2.1
    · intro w hmem
      obtain ⟨g, hgm, hf, rfl⟩ := hfill w hmem
      exact (hg.fill g hgm hf).2.2
    · have hnodup := hb.held.nodup_nodes (l := (got.filter Gathered.fill).map Gathered.bufferHandle)
        perm_handles_loader (by rw [hl]; exact List.filter_sublist.map _) ?_
      · rw [List.map_map] at hnodup
        rw [loadItems, List.map_map]
        exact hnodup
      · intro x hx
        obtain ⟨g, hgm, rfl⟩ := List.mem_map.mp hx
        obtain ⟨hgm, hf⟩ := List.mem_filter.mp hgm
        exact (hg.fill g (by rw [hl]; exact hgm) hf).1
  | _ => exact hw.move hm hq (List.Sublist.refl _) rfl rfl fun _ => Or.inl

theorem LoadStep.gathering (h : LoadStep config s s') (hb : Base s) (hw : Writing s) (hg : Gathering s) :
    Gathering s' := by
  cases h with
  | @hit id got shard rest i hl _ hp =>
    refine ⟨fun g hm hf => ?_, fun g hm hf ho => ?_⟩
    · rcases List.mem_append.mp hm with hm | hm
      · exact hg.fill g (by rw [hl]; exact hm) hf
      · obtain rfl := List.mem_singleton.mp hm
        rw [Bool.and_eq_true, Bool.not_eq_true'] at hf
        exact ⟨hf.1, hf.2, hw.quiet_of_reference (of_decide_eq_true hf.1)⟩
    · rcases List.mem_append.mp hm with hm | hm
      · exact hg.skip g (by rw [hl]; exact hm) hf ho
      · obtain rfl := List.mem_singleton.mp hm
        simp only at hf ho
        rw [ho, Bool.true_and, Bool.not_eq_false'] at hf
        exact hf
  | @takeNode id got shard rest hl hr =>
    have hold : ∀ g ∈ got, g.bufferHandle.node ≠ s.pool.hand ∧ g ∈ s.loader.gathered := by
      intro g hm
      have hmem : g ∈ s.loader.gathered := by
        rw [hl]
        exact hm
      exact ⟨hb.held.reference_eq_zero hr (mem_handles_of_loader (Loader.mem_handles hmem)), hmem⟩
    refine ⟨fun g hm hf => ?_, fun g hm hf ho => ?_⟩
    · rcases List.mem_append.mp hm with hm | hm
      · obtain ⟨hne, hmem⟩ := hold g hm
        obtain ⟨ho, hd, hq⟩ := hg.fill g hmem hf
        exact ⟨ho, by simpa [rekey, hne] using hd, hq⟩
      · obtain rfl := List.mem_singleton.mp hm
        exact ⟨rfl, by simp [rekey], hw.quiet_of_reference hr⟩
    · rcases List.mem_append.mp hm with hm | hm
      · obtain ⟨hne, hmem⟩ := hold g hm
        simpa [rekey, hne] using hg.skip g hmem hf ho
      · obtain rfl := List.mem_singleton.mp hm
        cases hf
  | gathered hl =>
    exact hg.frame (by rw [hl]; rfl) (fun _ _ _ => ⟨id, id, fun _ => rfl, fun _ => id⟩) fun _ _ _ => id
  | miss hl =>
    exact hg.frame (by rw [hl]; rfl) (fun _ _ _ => ⟨id, id, fun _ => rfl, fun _ => id⟩) fun _ _ _ => id
  | skipNode => exact ⟨hg.fill, hg.skip⟩
  | _ => exact ⟨fun _ h => (by cases h), fun _ h => (by cases h)⟩

theorem LoadStep.transferring {e : Event Data} (h : LoadStep config s s') (hs : Step config s e s')
    (hb : Base s) (hj : Jobs s) (hw : Writing s) (hg : Gathering s) (ht : Transferring s) :
    Transferring s' := by
  have hk : ∀ t ∈ s.pipe, t.bufferHandle.owner = true → Keeps s s' t.bufferHandle.node :=
    fun t hm ho => h.keeps hb (hb.held.reference_pos (mem_handles_of_load (mem_loadHandles_of_pipe hm)))
      fun id got hl => hg.submit_ne hb hl (mem_rest_of_pipe hl hm) ho
  have hload : ∀ n x, Keeps s s' x.node → Loading s n x → Loading s' n x :=
    fun n x hk hl => hs.loading hw hj hk hl
  cases h with
  | @allReady id got hl hi =>
    refine ⟨fun t hm ho => ?_, ht.waiting, ht.keeps_marking rfl hk⟩
    have hm : t ∈ s.pipe ∨ t ∈ shardTasks id 0 got := by
      simpa [Store.pipe, hl, Loader.pushing, or_assoc] using hm
    rcases hm with hm | hm
    · exact (ht.pending t hm ho).imp_right fun h => ⟨h.1, hload _ _ (hk t hm ho) h.2⟩
    · obtain ⟨_, g, hgm, hbuf, _, _⟩ := mem_shardTasks hm
      have hfill : g.fill = false := by
        by_contra hf
        exact List.ne_nil_of_mem (List.mem_map_of_mem (List.mem_filter.mpr ⟨hgm, by simpa using hf⟩)) hi
      rw [hbuf] at ho ⊢
      exact Or.inl (hg.skip g (by rw [hl]; exact hgm) hfill ho)
  | @submit id got h hl hi hh =>
    refine ⟨fun t hm ho => ?_, ht.waiting, ht.keeps_marking rfl hk⟩
    have hm : t ∈ s.pipe ∨ t ∈ shardTasks id h got := by
      simpa [Store.pipe, hl, Loader.pushing, or_assoc] using hm
    rcases hm with hm | hm
    · exact (ht.pending t hm ho).imp_right fun h => ⟨h.1, hload _ _ (hk t hm ho) h.2⟩
    · obtain ⟨_, g, hgm, hbuf, _, hhandle⟩ := mem_shardTasks hm
      rw [hbuf] at ho ⊢
      cases hf : g.fill with
      | false => exact Or.inl (hg.skip g (by rw [hl]; exact hgm) hf ho)
      | true =>
        rw [hf, if_pos rfl] at hhandle
        rw [hhandle]
        refine Or.inr ⟨Nat.ne_of_gt (Nat.lt_of_le_of_lt (Nat.zero_le _) hh), Or.inl ⟨⟨h, loadItems got⟩,
          List.mem_cons_self, rfl, ?_⟩⟩
        exact List.mem_map.mpr ⟨g, List.mem_filter.mpr ⟨hgm, hf⟩, rfl⟩
  | _ =>
    refine ht.frame (fun t => ?_) hk hload ht.waiting (ht.keeps_marking rfl hk)
    simp [Store.pipe, Loader.pushing, markFailed, latchDone, Store.release, *]

theorem LoadStep.keeping (h : LoadStep config s s') (hb : Base s) (hg : Gathering s) (hc : Keeping s) :
    Keeping s' := by
  have hk : ∀ x ∈ s.dumper.handles, x.owner = true → Keeps s s' x.node := fun x hx ho =>
    h.keeps hb (hb.held.reference_pos (mem_handles_of_dumper hx)) fun id got hl =>
      hg.submit_ne hb hl (List.mem_append_right _ (List.mem_append_left _ hx)) ho
  cases h <;> exact hc.frame rfl hk fun _ => Or.inl

end Load

section Transfer

theorem TransferStep.writing (h : TransferStep s s') (hb : Base s) (hw : Writing s) (ht : Transferring s)
    (hq : ∀ y ∈ s.transfer.dropping s.holder, s.pool.reference y.node = 1 → s.Quiet y.node) :
    Writing s' := by
  have hm := h.move
  cases h with
  | @mark task htask =>
    refine hw.move hm hq (List.Sublist.refl _) rfl rfl fun i hd => ?_
    by_cases hi : i = task.bufferHandle.node
    · subst hi
      obtain ⟨_, hr | hf⟩ := ht.marking task htask
      · exact Or.inl hr
      · refine Or.inr ⟨hf.quiet, fun k hk => ?_⟩
        have hmem : task.bufferHandle ∈ s.transfer.handles := by
          rw [htask]
          exact List.mem_singleton.mpr rfl
        rw [hb.held.key _ (mem_handles_of_load (by simp [loadHandles, hmem]))] at hk
        obtain rfl := Option.some.inj hk
        exact hf.bytes
    · exact Or.inl (by simpa [markReady, hi] using hd)
  | _ => exact hw.move hm hq (List.Sublist.refl _) rfl rfl fun _ => Or.inl

theorem TransferStep.gathering (h : TransferStep s s') (hb : Base s) (hg : Gathering s)
    (ht : Transferring s) : Gathering s' := by
  have hk : ∀ x ∈ s.loader.handles, x.owner = true → Keeps s s' x.node := fun x hx _ =>
    h.keeps (hb.held.reference_pos (mem_handles_of_loader hx))
  cases h with
  | @mark task htask =>
    refine hg.frame rfl hk fun x hx ho hd => ?_
    have hmem : task.bufferHandle ∈ s.transfer.handles := by
      rw [htask]
      exact List.mem_singleton.mpr rfl
    have hne := hb.loader_ne_transfer hx hmem ho (ht.marking task htask).1
    simpa [markReady, hne] using hd
  | _ => exact hg.frame rfl hk fun _ _ _ => id

/-- The owner at the front that has been told that its job is over, and not that it
has failed, has its bytes. -/
theorem Transferring.settled {task : ShardTask} (ht : Transferring s) (hm : task ∈ s.pipe)
    (ho : task.bufferHandle.owner = true)
    (hr : task.backendTaskHandle ≠ 0 → s.results task.backendTaskHandle = some true) (hj : Jobs s) :
    Settled s task.bufferHandle := by
  rcases ht.pending task hm ho with hd | ⟨hne, hload⟩
  · exact Or.inl hd
  · rcases hload with ⟨job, hmem, he, _⟩ | ⟨_, hf⟩ | hfalse
    · have hnone := hj.none job.handle (List.mem_append_left _ (List.mem_map_of_mem hmem))
      rw [he, hr hne] at hnone
      cases hnone
    · exact Or.inr hf
    · rw [hr hne] at hfalse
      cases hfalse

theorem TransferStep.transferring {e : Event Data} (h : TransferStep s s') (hs : Step config s e s')
    (hb : Base s) (hj : Jobs s) (hp : Pipe s) (hw : Writing s) (ht : Transferring s) : Transferring s' := by
  have hk : ∀ t ∈ s.pipe, t.bufferHandle.owner = true → Keeps s s' t.bufferHandle.node :=
    fun t hm _ => h.keeps (hb.held.reference_pos (mem_handles_of_load (mem_loadHandles_of_pipe hm)))
  have hload : ∀ n x, Keeps s s' x.node → Loading s n x → Loading s' n x :=
    fun n x hk hl => hs.loading hw hj hk hl
  cases h with
  | @finished task htask hd ho hh =>
    have hm : task ∈ s.pipe := List.mem_append_left _ (by rw [htask]; exact List.mem_singleton.mpr rfl)
    have hset := ht.settled hm ho (fun hne => ?_) hj
    · refine ht.frame (fun t hm => ?_) hk hload (by simp) fun t hmark => ?_
      · simpa [Store.pipe, htask, Transfer.front, Transfer.task] using hm
      · obtain rfl := Transfer.mark.inj hmark
        exact ⟨ho, hset.keeps (hk _ hm ho)⟩
    · have he : task.backendTaskHandle = s.finishedLoad := le_antisymm hh (hp.finished task hm hne)
      have hpassed := hp.passed task htask hne he
      have hknown := hp.known (he ▸ hne)
      rw [← he] at hknown
      obtain ⟨b, hb⟩ := Option.ne_none_iff_exists'.mp hknown
      cases b with
      | true => exact hb
      | false => exact absurd hb hpassed
  | @waited task htask hr =>
    have hm : task ∈ s.pipe := List.mem_append_left _ (by rw [htask]; exact List.mem_singleton.mpr rfl)
    have hset := ht.settled hm (ht.waiting task htask) (fun _ => hr) hj
    refine ht.frame (fun t hm => ?_) hk hload (by simp) fun t hmark => ?_
    · simpa [Store.pipe, htask, Transfer.front, Transfer.task] using hm
    · obtain rfl := Transfer.mark.inj hmark
      exact ⟨ht.waiting _ htask, hset.keeps (hk _ hm (ht.waiting _ htask))⟩
  | @unfinished task htask hd ho =>
    refine ht.frame (fun t hm => ?_) hk hload (fun t hwait => ?_) (by simp)
    · simpa [Store.pipe, htask, Transfer.front, Transfer.task] using hm
    · obtain rfl := Transfer.backendWait.inj hwait
      exact ho
  | clear htask =>
    exact ht.frame (fun t => id) hk hload (by simp [Store.release, htask]) (ht.keeps_marking rfl hk)
  | _ =>
    refine ht.frame (fun t hm => ?_) hk hload (by simp) (by simp)
    simp_all [Store.pipe, Transfer.front, Transfer.task, markFailed, latchDone, Store.release]

theorem TransferStep.keeping (h : TransferStep s s') (hb : Base s) (hc : Keeping s) : Keeping s' := by
  have hk : ∀ x ∈ s.dumper.handles, x.owner = true → Keeps s s' x.node := fun x hx _ =>
    h.keeps (hb.held.reference_pos (mem_handles_of_dumper hx))
  cases h <;> exact hc.frame rfl hk fun _ => Or.inl

end Transfer

section Dump

theorem DumpStep.keeps_load (h : DumpStep config s s') (hb : Base s) (hx : x ∈ s.loadHandles)
    (hox : x.owner = true) : Keeps s s' x.node := by
  refine h.keeps hb (hb.held.reference_pos (mem_handles_of_load hx)) fun task ctx shard handle rest hd ho _ => ?_
  exact (hb.load_ne_dump hx (by rw [hd]; exact List.mem_cons_self) hox ho).symm

/-- The node that is about to be copied to is none of those kept before. -/
theorem Base.got_ne_kept {task : TransTask} {ctx : List (Shard × BufferHandle)} {shard : Shard}
    {handle : BufferHandle} {rest : List Shard} {x : Shard × BufferHandle} (hb : Base s)
    (hd : s.dumper = .got task ctx shard handle rest) (hx : x ∈ ctx) (ho : handle.owner = true)
    (hox : x.2.owner = true) : handle.node ≠ x.2.node := by
  have hp : s.handles.Perm ([handle] ++ (s.loadHandles ++ (ctx.map Prod.snd ++ s.dumpedHandles))) := by
    rw [handles, hd]
    exact List.perm_middle
  exact hb.held.node_ne hp List.mem_cons_self
    (List.mem_append_right _ (List.mem_append_left _ (List.mem_map_of_mem hx))) ho hox

theorem DumpStep.keeps_kept {x : Shard × BufferHandle} (h : DumpStep config s s') (hb : Base s)
    (hx : x ∈ s.dumper.kept) (hox : x.2.owner = true) : Keeps s s' x.2.node := by
  refine h.keeps hb (hb.held.reference_pos (mem_handles_of_dumper (Dumper.mem_handles hx)))
    fun task ctx shard handle rest hd ho _ => ?_
  rw [hd] at hx
  exact hb.got_ne_kept hd hx ho hox

theorem DumpStep.writing (h : DumpStep config s s') (hb : Base s) (hw : Writing s) (hc : Keeping s)
    (hq : ∀ y ∈ s.dumper.dropping, s.pool.reference y.node = 1 → s.Quiet y.node) : Writing s' := by
  have hm := h.move hb
  cases h with
  | takeNode hd hr =>
    refine hw.move hm hq (List.Sublist.refl _) rfl rfl fun i hd => Or.inl ?_
    by_cases hi : i = s.pool.hand
    · simp [rekey, hi] at hd
    · simpa [rekey, hi] using hd
  | @copy task ctx shard handle rest hd ho hr =>
    have hmem : handle ∈ s.handles := mem_handles_of_dumper (by rw [hd]; exact List.mem_cons_self)
    refine hw.add [(handle.key, handle.node)] (List.Perm.refl _) rfl rfl rfl ?_ ?_ ?_ ?_
      (List.nodup_singleton _)
    · simpa using hb.held.key _ hmem
    · simpa using hb.held.reference_pos hmem
    · simpa using hr
    · simpa using hc.got task ctx shard handle rest hd ho hr
  | syncFailed => exact hw.move hm hq (List.sublist_append_right _ _) rfl rfl fun _ => Or.inl
  | @mark task ctx x todo hd =>
    obtain ⟨hsub, hset⟩ := hc.marking task ctx _ hd
    refine hw.move hm hq (List.Sublist.refl _) rfl rfl fun i hi => ?_
    by_cases he : i = x.2.node
    · subst he
      rcases hset x (hsub x List.mem_cons_self) with hr | hf
      · exact Or.inl hr
      · refine Or.inr ⟨hf.quiet, fun k hk => ?_⟩
        have hmem : x.2 ∈ s.dumper.handles := by
          rw [hd]
          exact List.mem_map_of_mem (hsub x List.mem_cons_self)
        rw [hb.held.key _ (mem_handles_of_dumper hmem)] at hk
        obtain rfl := Option.some.inj hk
        exact hf.bytes
    · exact Or.inl (by simpa [markReady, he] using hi)
  | _ => exact hw.move hm hq (List.Sublist.refl _) rfl rfl fun _ => Or.inl

theorem DumpStep.gathering (h : DumpStep config s s') (hb : Base s) (hg : Gathering s) (hc : Keeping s) :
    Gathering s' := by
  have hk : ∀ x ∈ s.loader.handles, x.owner = true → Keeps s s' x.node := fun x hx ho =>
    h.keeps_load hb (List.mem_append_left _ hx) ho
  cases h with
  | takeNode hd hr =>
    refine hg.frame rfl hk fun x hx ho hr => ?_
    simp only [rekey, advance_ready, Function.update_apply, hr]
    split_ifs <;> rfl
  | @mark task ctx y todo hd =>
    refine hg.frame rfl hk fun x hx ho hr => ?_
    have hy : y ∈ s.dumper.kept := by
      rw [hd]
      exact (hc.marking task ctx _ hd).1 y List.mem_cons_self
    have hne := hb.load_ne_dump (List.mem_append_left _ hx) (Dumper.mem_handles hy) ho (hc.kept y hy).1
    simpa [markReady, hne] using hr
  | _ => exact hg.frame rfl hk fun _ _ _ => id

theorem DumpStep.transferring {e : Event Data} (h : DumpStep config s s') (hs : Step config s e s')
    (hb : Base s) (hj : Jobs s) (hw : Writing s) (ht : Transferring s) : Transferring s' := by
  have hk : ∀ t ∈ s.pipe, t.bufferHandle.owner = true → Keeps s s' t.bufferHandle.node :=
    fun t hm ho => h.keeps_load hb (mem_loadHandles_of_pipe hm) ho
  have hload : ∀ n x, Keeps s s' x.node → Loading s n x → Loading s' n x :=
    fun n x hk hl => hs.loading hw hj hk hl
  cases h <;> exact ht.frame (fun _ => id) hk hload ht.waiting (ht.keeps_marking rfl hk)

theorem DumpStep.keeping (h : DumpStep config s s') (hb : Base s) (hw : Writing s) (hc : Keeping s) :
    Keeping s' := by
  have hkeep : ∀ x ∈ s.dumper.kept, Settled s x.2 → Settled s' x.2 := fun x hx hset =>
    hset.keeps (h.keeps_kept hb hx (hc.kept x hx).1)
  have hk : ∀ x ∈ s.dumper.kept, x.2.owner = true ∧ (Settled s' x.2 ∨ Copying s x.2) := fun x hx =>
    ⟨(hc.kept x hx).1, (hc.kept x hx).2.imp_left (hkeep x hx)⟩
  have hfind : ∀ task ctx rest, s'.dumper = .find task ctx rest → (∀ x ∈ ctx, x.2.owner = true ∧
      (Settled s' x.2 ∨ Copying s' x.2)) → Keeping s' := by
    intro task ctx rest hd hctx
    refine ⟨?_, ?_, ?_⟩
    · rw [hd]
      exact fun _ _ _ _ _ h => by cases h
    · rw [hd]
      exact hctx
    · rw [hd]
      exact fun _ _ _ h => by cases h
  cases h with
  | @hit task ctx shard rest i hd =>
    rw [hd] at hk
    refine ⟨fun task' ctx' shard' handle rest' h ho hr => ?_, hk, fun _ _ _ h => by cases h⟩
    obtain ⟨rfl, rfl, rfl, rfl, rfl⟩ := Dumper.got.inj h
    exact hw.quiet_of_reference (of_decide_eq_true ho)
  | @takeNode task ctx shard rest hd hr =>
    rw [hd] at hk
    refine ⟨fun task' ctx' shard' handle rest' h ho _ => ?_, hk, fun _ _ _ h => by cases h⟩
    obtain ⟨rfl, rfl, rfl, rfl, rfl⟩ := Dumper.got.inj h
    exact hw.quiet_of_reference hr
  | gathered hd =>
    rw [hd] at hk
    exact ⟨fun _ _ _ _ _ h => (by cases h), hk, fun _ _ _ h => by cases h⟩
  | miss hd =>
    rw [hd] at hk
    exact ⟨fun _ _ _ _ _ h => (by cases h), hk, fun _ _ _ h => by cases h⟩
  | @skipNode task ctx shard rest hd =>
    exact ⟨hc.got, hk, fun task ctx todo h => by rw [hd] at h; cases h⟩
  | @skip task ctx shard handle rest hd =>
    rw [hd] at hk
    exact hfind task ctx rest rfl hk
  | @keep task ctx shard handle rest hd ho hr =>
    rw [hd] at hk
    refine hfind task _ rest rfl fun x hx => ?_
    rcases List.mem_append.mp hx with hx | hx
    · exact hk x hx
    · obtain rfl := List.mem_singleton.mp hx
      exact ⟨ho, Or.inl (Or.inl hr)⟩
  | @copy task ctx shard handle rest hd ho hr =>
    rw [hd] at hk
    refine hfind task _ rest rfl fun x hx => ?_
    rcases List.mem_append.mp hx with hx | hx
    · obtain ⟨hox, hset | ⟨c, hm, he⟩⟩ := hk x hx
      · exact ⟨hox, Or.inl hset⟩
      · exact ⟨hox, Or.inr ⟨c, List.mem_cons_of_mem _ hm, he⟩⟩
    · obtain rfl := List.mem_singleton.mp hx
      exact ⟨ho, Or.inr ⟨_, List.mem_cons_self, rfl⟩⟩
  | @sync task ctx hd hempty =>
    rw [hd] at hk
    have hset := fun x hx => (hk x hx).2.resolve_right fun ⟨c, hm, _⟩ => by
      rw [hempty] at hm
      cases hm
    refine ⟨fun _ _ _ _ _ h => (by cases h), fun x hx => ⟨(hk x hx).1, Or.inl (hset x hx)⟩,
      fun task' ctx' todo h => ?_⟩
    obtain ⟨rfl, rfl, rfl⟩ := Dumper.mark.inj h
    exact ⟨fun _ => id, hset⟩
  | @mark task ctx y todo hd =>
    obtain ⟨hsub, hset⟩ := hc.marking task ctx _ hd
    rw [hd] at hk hkeep
    refine ⟨fun _ _ _ _ _ h => (by cases h), fun x hx => ⟨(hk x hx).1, Or.inl (hkeep x hx (hset x hx))⟩,
      fun task' ctx' todo' h => ?_⟩
    obtain ⟨rfl, rfl, rfl⟩ := Dumper.mark.inj h
    exact ⟨fun x hx => hsub x (List.mem_cons_of_mem _ hx), fun x hx => hkeep x hx (hset x hx)⟩
  | check hd => exact hfind _ [] _ rfl fun _ h => by cases h
  | _ => exact ⟨fun _ _ _ _ _ h => (by cases h), fun _ h => (by cases h), fun _ _ _ h => by cases h⟩

end Dump

theorem BackendStep.writing (h : BackendStep config s s') (hw : Writing s) : Writing s' := by
  have hsame : ∀ i, s.pool.ready i = true → s.pool.ready i = true ∨
      s.Quiet i ∧ ∀ k, s.pool.key i = some k → (k, s.data i) ∈ s.filled := fun _ => Or.inl
  cases h with
  | @loadWrite job node bytes hj hn =>
    refine ⟨hw.key, hw.held, hw.notReady, hw.nodup, fun i k hk hd => ?_⟩
    have hne : i ≠ node := by
      rintro rfl
      obtain ⟨w, hm, he⟩ := List.mem_map.mp hn
      exact hw.quiet_of_ready hd w (List.mem_append_right _ (List.mem_flatMap.mpr ⟨job, hj, hm⟩)) he
    simpa [hne] using hw.right i k hk hd
  | loadDone content hm => exact hw.complete content (perm_writers_load hm) rfl rfl rfl
  | @loadFailed job hm =>
    have hsub : List.Sublist (s.loadJobs.erase job) s.loadJobs := List.erase_sublist
    exact hw.move (.keep (List.Perm.refl _)) (fun _ h => by cases h)
      ((hsub.flatMap _).append_left _) rfl rfl hsame
  | @d2h _ c hc => exact hw.complete (fun _ => config.device c.addrs) (perm_writers_copy hc) rfl rfl rfl
  | _ => exact hw.move (.keep (List.Perm.refl _)) (fun _ h => by cases h) (List.Sublist.refl _) rfl rfl hsame

/-- What holds in every state of a run that releases no node before its writers are done. -/
structure Inv (s : Store Data) : Prop where
  base : Base s
  jobs : Jobs s
  counted : Counted s
  pipe : Pipe s
  writing : Writing s
  gathering : Gathering s
  transferring : Transferring s
  keeping : Keeping s

theorem inv_setup {data : Nat → Data} (hn : 1 ≤ config.nNode) : Inv (setup config data) :=
  ⟨base_setup hn data, jobs_setup, counted_setup, pipe_setup, writing_setup,
    ⟨fun _ h => (by cases h), fun _ h => (by cases h)⟩,
    ⟨fun _ h => (by cases h), fun _ h => (by cases h), fun _ h => (by cases h)⟩,
    ⟨fun _ _ _ _ _ h => (by cases h), fun _ h => (by cases h), fun _ _ _ h => (by cases h)⟩⟩

/-- The last handle of a node is released only when nothing can write to the node. -/
def ReleasesQuiet (s : Store Data) (e : Event Data) : Prop :=
  ∀ y ∈ s.dropping e, s.pool.reference y.node = 1 → s.Quiet y.node

instance (s : Store Data) (e : Event Data) : Decidable (ReleasesQuiet s e) :=
  inferInstanceAs (Decidable (∀ y ∈ s.dropping e, _))

theorem Inv.step {e : Event Data} (h : Inv s) (hq : ReleasesQuiet s e) (hs : Step config s e s') : Inv s' := by
  obtain ⟨hb, hj, hc, hp, hw, hg, ht, hk⟩ := h
  have hkeep : ∀ {x}, x ∈ s.handles → (∀ i, 0 < s.pool.reference i → Keeps s s' i) → Keeps s s' x.node :=
    fun hx hall => hall _ (hb.held.reference_pos hx)
  have hload : ∀ n x, Keeps s s' x.node → Loading s n x → Loading s' n x :=
    fun n x hk hl => hs.loading hw hj hk hl
  refine ⟨hs.base hb, hs.jobs hj, hs.counted hc, hs.pipe hp hj hc, ?_, ?_, ?_, ?_⟩
  · cases hs with
    | load h => exact h.writing hb hw hg hq
    | transfer h => exact h.writing hb hw ht hq
    | dump h => exact h.writing hb hw hk hq
    | backendDump h =>
      have hm := h.move
      cases h <;> exact hw.move hm hq (List.Sublist.refl _) rfl rfl fun _ => Or.inl
    | backend h => exact h.writing hw
    | user h => cases h <;> exact ⟨hw.key, hw.held, hw.notReady, hw.nodup, hw.right⟩
  · cases hs with
    | load h => exact h.gathering hb hw hg
    | transfer h => exact h.gathering hb hg ht
    | dump h => exact h.gathering hb hg hk
    | backendDump h =>
      have hall : ∀ i, 0 < s.pool.reference i → Keeps s s' i := fun _ hi => h.keeps hi
      cases h <;> exact hg.frame rfl (fun x hx _ => hkeep (mem_handles_of_loader hx) hall) fun _ _ _ => id
    | backend h =>
      have hall : ∀ i, Keeps s s' i := fun _ => h.keeps
      cases h <;> exact hg.frame rfl (fun x _ _ => hall _) fun _ _ _ => id
    | user h =>
      have hall : ∀ i, Keeps s s' i := fun _ => h.keeps
      cases h <;> exact hg.frame rfl (fun x _ _ => hall _) fun _ _ _ => id
  · have hs' := hs
    cases hs with
    | load h => exact h.transferring hs' hb hj hw hg ht
    | transfer h => exact h.transferring hs' hb hj hp hw ht
    | dump h => exact h.transferring hs' hb hj hw ht
    | backendDump h =>
      have hpipe : ∀ t ∈ s.pipe, t.bufferHandle.owner = true → Keeps s s' t.bufferHandle.node :=
        fun t hm _ => h.keeps (hb.held.reference_pos (mem_handles_of_load (mem_loadHandles_of_pipe hm)))
      cases h <;> exact ht.frame (fun _ => id) hpipe hload ht.waiting (ht.keeps_marking rfl hpipe)
    | backend h =>
      have hpipe : ∀ t ∈ s.pipe, t.bufferHandle.owner = true → Keeps s s' t.bufferHandle.node :=
        fun _ _ _ => h.keeps
      cases h <;> exact ht.frame (fun _ => id) hpipe hload ht.waiting (ht.keeps_marking rfl hpipe)
    | user h =>
      have hpipe : ∀ t ∈ s.pipe, t.bufferHandle.owner = true → Keeps s s' t.bufferHandle.node :=
        fun _ _ _ => h.keeps
      cases h <;> exact ht.frame (fun _ => id) hpipe hload ht.waiting (ht.keeps_marking rfl hpipe)
  · cases hs with
    | load h => exact h.keeping hb hg hk
    | transfer h => exact h.keeping hb hk
    | dump h => exact h.keeping hb hw hk
    | backendDump h =>
      have hall : ∀ i, 0 < s.pool.reference i → Keeps s s' i := fun _ hi => h.keeps hi
      cases h <;>
        exact hk.frame rfl (fun x hx _ => hkeep (mem_handles_of_dumper hx) hall) fun _ => Or.inl
    | backend h =>
      have hall : ∀ i, Keeps s s' i := fun _ => h.keeps
      have hcopy : ∀ x, Copying s x → Copying s' x ∨ Filled s' x := fun _ hx => h.copying hw hx
      cases h <;> exact hk.frame rfl (fun x _ _ => hall _) hcopy
    | user h =>
      have hall : ∀ i, Keeps s s' i := fun _ => h.keeps
      cases h <;> exact hk.frame rfl (fun x _ _ => hall _) fun _ => Or.inl

theorem inv_of_reach {guard : Store Data → Event Data → Prop} {data : Nat → Data} (hn : 1 ≤ config.nNode)
    (hg : ∀ s e, guard s e → ReleasesQuiet s e)
    (h : StepSystem.Reach (step config) guard (setup config data) s) : Inv s :=
  h.invariant Inv (inv_setup hn) fun s e _ hi hge hs => hi.step (hg s e hge) (step_inv hs)

open StepSystem

end Store

end UnifiedCache.CacheStore
