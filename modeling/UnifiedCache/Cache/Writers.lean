import UnifiedCache.Cache.Pipeline

/-! What can still write to a node: a copy that has been enqueued, or a load that the
backend has not finished. -/

namespace UnifiedCache.CacheStore.Store

open PinnedPool

variable {Data : Type} {config : Config Data} {s s' : Store Data} {i : Nat} {x : BufferHandle}

/-- The nodes that can still be written, each with the key of what is written. -/
def writers (s : Store Data) : List ((BlockId × Nat) × Nat) :=
  s.d2h.map (fun c => (c.key, c.node)) ++ s.loadJobs.flatMap LoadJob.items

def Quiet (s : Store Data) (i : Nat) : Prop := ∀ w ∈ s.writers, w.2 ≠ i

instance (s : Store Data) (i : Nat) : Decidable (Quiet s i) :=
  inferInstanceAs (Decidable (∀ w ∈ s.writers, w.2 ≠ i))

/-- The bytes of the handle's key have arrived in its node. -/
structure Filled (s : Store Data) (x : BufferHandle) : Prop where
  quiet : s.Quiet x.node
  bytes : (x.key, s.data x.node) ∈ s.filled

/-- Writers write to held nodes of their own key that are not ready, one to each, and
a ready node holds bytes of its key. -/
structure Writing (s : Store Data) : Prop where
  key : ∀ w ∈ s.writers, s.pool.key w.2 = some w.1
  held : ∀ w ∈ s.writers, 0 < s.pool.reference w.2
  notReady : ∀ w ∈ s.writers, s.pool.ready w.2 = false
  nodup : (s.writers.map Prod.snd).Nodup
  right : ∀ i k, s.pool.key i = some k → s.pool.ready i = true → (k, s.data i) ∈ s.filled

theorem writing_setup {data : Nat → Data} : Writing (setup config data) :=
  ⟨fun _ h => absurd h List.not_mem_nil, fun _ h => absurd h List.not_mem_nil,
    fun _ h => absurd h List.not_mem_nil, List.nodup_nil, fun _ _ h => by cases h⟩

theorem Writing.quiet_of_ready (hw : Writing s) (hd : s.pool.ready i = true) : s.Quiet i := by
  rintro w hm rfl
  rw [hw.notReady w hm] at hd
  cases hd

theorem Writing.quiet_of_reference (hw : Writing s) (hr : s.pool.reference i = 0) : s.Quiet i := by
  rintro w hm rfl
  have := hw.held w hm
  omega

/-- A step that moves the pool, starts no writer and marks no node before it is filled. -/
theorem Writing.move {o : Option BufferHandle} (hw : Writing s)
    (hm : Move s.pool s.handles o s'.pool s'.handles)
    (ho : ∀ y ∈ o, s.pool.reference y.node = 1 → s.Quiet y.node) (hws : s'.writers.Sublist s.writers)
    (hdata : s'.data = s.data) (hfilled : s'.filled = s.filled)
    (hready : ∀ i, s'.pool.ready i = true → s.pool.ready i = true ∨
      s.Quiet i ∧ ∀ k, s.pool.key i = some k → (k, s.data i) ∈ s.filled) : Writing s' := by
  refine ⟨fun w hm' => ?_, fun w hm' => ?_, fun w hm' => ?_, hw.nodup.sublist (hws.map _),
    fun i k hk hd => ?_⟩
  · rw [(hm.keeps (hw.held w (hws.subset hm'))).1]
    exact hw.key w (hws.subset hm')
  · refine hm.reference_pos (hw.held w (hws.subset hm')) fun y hy he h1 => ?_
    exact ho y hy (he ▸ h1) w (hws.subset hm') he.symm
  · by_contra hd
    rcases hready w.2 (by simpa using hd) with h | ⟨h, _⟩
    · rw [hw.notReady w (hws.subset hm')] at h
      cases h
    · exact h w (hws.subset hm') rfl
  · rw [hdata, hfilled]
    rw [hm.key_of_ready hd] at hk
    rcases hready i hd with h | ⟨_, h⟩
    · exact hw.right i k hk h
    · exact h k hk

theorem Writing.add (new : List ((BlockId × Nat) × Nat)) (hw : Writing s)
    (hp : s'.writers.Perm (new ++ s.writers)) (hpool : s'.pool = s.pool) (hdata : s'.data = s.data)
    (hfilled : s'.filled = s.filled) (hk : ∀ w ∈ new, s.pool.key w.2 = some w.1)
    (hh : ∀ w ∈ new, 0 < s.pool.reference w.2) (hr : ∀ w ∈ new, s.pool.ready w.2 = false)
    (hq : ∀ w ∈ new, s.Quiet w.2) (hn : (new.map Prod.snd).Nodup) : Writing s' := by
  refine ⟨fun w hm => ?_, fun w hm => ?_, fun w hm => ?_, ?_, ?_⟩
  · rw [hpool]
    rcases List.mem_append.mp (hp.mem_iff.mp hm) with hm | hm
    · exact hk w hm
    · exact hw.key w hm
  · rw [hpool]
    rcases List.mem_append.mp (hp.mem_iff.mp hm) with hm | hm
    · exact hh w hm
    · exact hw.held w hm
  · rw [hpool]
    rcases List.mem_append.mp (hp.mem_iff.mp hm) with hm | hm
    · exact hr w hm
    · exact hw.notReady w hm
  · rw [(hp.map Prod.snd).nodup_iff, List.map_append, List.nodup_append]
    refine ⟨hn, hw.nodup, fun a ha b hb => ?_⟩
    obtain ⟨w, hm, rfl⟩ := List.mem_map.mp ha
    obtain ⟨v, hv, rfl⟩ := List.mem_map.mp hb
    exact (hq w hm v hv).symm
  · rw [hpool, hdata, hfilled]
    exact hw.right

theorem fill_data_of_ne {items : List ((BlockId × Nat) × Nat)} (content : (BlockId × Nat) → Data)
    (h : ∀ w ∈ items, w.2 ≠ i) : (s.fill items content).data i = s.data i := by
  simp only [fill]
  generalize s.data = data
  induction items generalizing data with
  | nil => rfl
  | cons w items ih =>
    rw [List.foldl_cons, ih fun v hv => h v (List.mem_cons_of_mem _ hv)]
    exact Function.update_of_ne (h w List.mem_cons_self).symm _ _

theorem fill_data_of_mem {items : List ((BlockId × Nat) × Nat)} {content : (BlockId × Nat) → Data}
    {w : (BlockId × Nat) × Nat} (hn : (items.map Prod.snd).Nodup) (hm : w ∈ items) :
    (s.fill items content).data w.2 = content w.1 := by
  simp only [fill]
  generalize s.data = data
  induction items generalizing data with
  | nil => cases hm
  | cons v items ih =>
    obtain ⟨hnot, hn⟩ := List.nodup_cons.mp hn
    rcases List.mem_cons.mp hm with rfl | hm
    · have hne : ∀ v ∈ items, v.2 ≠ w.2 := by
        rintro v hv he
        exact hnot (he ▸ List.mem_map_of_mem hv)
      have := fill_data_of_ne (s := { s with data := Function.update data w.2 (content w.1) }) content hne
      simpa [fill] using this
    · exact ih hn hm _

/-- Writers of one job or copy have written. -/
theorem Writing.complete {items : List ((BlockId × Nat) × Nat)} (content : (BlockId × Nat) → Data)
    (hw : Writing s) (hp : s.writers.Perm (items ++ s'.writers)) (hpool : s'.pool = s.pool)
    (hdata : s'.data = (s.fill items content).data) (hfilled : s'.filled = (s.fill items content).filled) :
    Writing s' := by
  have hsub : ∀ w ∈ s'.writers, w ∈ s.writers := fun w hm => hp.mem_iff.mpr (List.mem_append_right _ hm)
  have hn := hw.nodup
  rw [(hp.map Prod.snd).nodup_iff, List.map_append, List.nodup_append] at hn
  refine ⟨fun w hm => ?_, fun w hm => ?_, fun w hm => ?_, hn.2.1, fun i k hk hd => ?_⟩
  · rw [hpool]
    exact hw.key w (hsub w hm)
  · rw [hpool]
    exact hw.held w (hsub w hm)
  · rw [hpool]
    exact hw.notReady w (hsub w hm)
  · rw [hpool] at hk hd
    have hq := hw.quiet_of_ready hd
    rw [hfilled, hdata, fill_data_of_ne _ fun w hm => hq w (hp.mem_iff.mpr (List.mem_append_left _ hm))]
    exact List.mem_append_right _ (hw.right i k hk hd)

theorem Writing.fills {items : List ((BlockId × Nat) × Nat)} (content : (BlockId × Nat) → Data)
    (hw : Writing s) (hp : s.writers.Perm (items ++ s'.writers))
    (hdata : s'.data = (s.fill items content).data) (hfilled : s'.filled = (s.fill items content).filled)
    (hx : (x.key, x.node) ∈ items) : Filled s' x := by
  have hn := hw.nodup
  rw [(hp.map Prod.snd).nodup_iff, List.map_append, List.nodup_append] at hn
  refine ⟨fun w hm he => ?_, ?_⟩
  · exact hn.2.2 _ (List.mem_map_of_mem hx) _ (List.mem_map_of_mem hm) he.symm
  · rw [hfilled, hdata, fill_data_of_mem hn.1 hx]
    exact List.mem_append_left _ (List.mem_map.mpr ⟨_, hx, rfl⟩)

/-- What a step leaves to the holder of a node. -/
structure Keeps (s s' : Store Data) (i : Nat) : Prop where
  ready : s.pool.ready i = true → s'.pool.ready i = true
  quiet : s.Quiet i → s'.Quiet i
  data : s.Quiet i → s'.data i = s.data i
  filled : ∀ f ∈ s.filled, f ∈ s'.filled

theorem Filled.keeps (h : Filled s x) (hk : Keeps s s' x.node) : Filled s' x := by
  refine ⟨hk.quiet h.quiet, ?_⟩
  rw [hk.data h.quiet]
  exact hk.filled _ h.bytes

theorem Keeps.move {o : Option BufferHandle} (hm : Move s.pool s.handles o s'.pool s'.handles)
    (hi : 0 < s.pool.reference i) (hws : ∀ w ∈ s'.writers, w ∈ s.writers) (hdata : s'.data = s.data)
    (hfilled : s'.filled = s.filled) : Keeps s s' i :=
  ⟨(hm.keeps hi).2, fun hq w hw => hq w (hws w hw), fun _ => by rw [hdata], fun f hf => hfilled ▸ hf⟩

theorem Keeps.add (new : List ((BlockId × Nat) × Nat)) (hp : s'.writers.Perm (new ++ s.writers))
    (hpool : s'.pool = s.pool) (hdata : s'.data = s.data) (hfilled : s'.filled = s.filled)
    (hne : ∀ w ∈ new, w.2 ≠ i) : Keeps s s' i := by
  refine ⟨fun hd => hpool ▸ hd, fun hq w hw => ?_, fun _ => by rw [hdata], fun f hf => hfilled ▸ hf⟩
  rcases List.mem_append.mp (hp.mem_iff.mp hw) with hw | hw
  · exact hne w hw
  · exact hq w hw

theorem Keeps.complete {items : List ((BlockId × Nat) × Nat)} (content : (BlockId × Nat) → Data)
    (hp : s.writers.Perm (items ++ s'.writers)) (hpool : s'.pool = s.pool)
    (hdata : s'.data = (s.fill items content).data) (hfilled : s'.filled = (s.fill items content).filled) :
    Keeps s s' i := by
  refine ⟨fun hd => hpool ▸ hd, fun hq w hw => hq w (hp.mem_iff.mpr (List.mem_append_right _ hw)),
    fun hq => ?_, fun f hf => ?_⟩
  · rw [hdata]
    exact fill_data_of_ne _ fun w hw => hq w (hp.mem_iff.mpr (List.mem_append_left _ hw))
  · rw [hfilled]
    exact List.mem_append_right _ hf

theorem mem_loadItems {got : List Gathered} {w : (BlockId × Nat) × Nat} (hm : w ∈ loadItems got) :
    ∃ g ∈ got, g.fill = true ∧ w = (g.bufferHandle.key, g.bufferHandle.node) := by
  obtain ⟨g, hg, rfl⟩ := List.mem_map.mp hm
  exact ⟨g, List.mem_of_mem_filter hg, (List.mem_filter.mp hg).2, rfl⟩

theorem LoadStep.keeps (h : LoadStep config s s') (hb : Base s) (hi : 0 < s.pool.reference i)
    (hne : ∀ id got, s.loader = .submit id got → ∀ g ∈ got, g.fill = true → g.bufferHandle.node ≠ i) :
    Keeps s s' i := by
  have hm := h.move hb
  cases h with
  | @submit id got h hl =>
    refine .add (loadItems got) ?_ rfl rfl rfl fun w hw => ?_
    · exact List.perm_append_comm_assoc _ _ _
    · obtain ⟨g, hg, hf, rfl⟩ := mem_loadItems hw
      exact hne id got hl g hg hf
  | _ => exact .move hm hi (fun _ => id) rfl rfl

theorem TransferStep.keeps (h : TransferStep s s') (hi : 0 < s.pool.reference i) : Keeps s s' i := by
  have hm := h.move
  cases h <;> exact .move hm hi (fun _ => id) rfl rfl

theorem DumpStep.keeps (h : DumpStep config s s') (hb : Base s) (hi : 0 < s.pool.reference i)
    (hne : ∀ task ctx shard handle rest, s.dumper = .got task ctx shard handle rest →
      handle.owner = true → s.pool.ready handle.node = false → handle.node ≠ i) : Keeps s s' i := by
  have hm := h.move hb
  cases h with
  | @copy task ctx shard handle rest hd ho hr =>
    refine .add [(handle.key, handle.node)] (List.Perm.refl _) rfl rfl rfl fun w hw => ?_
    obtain rfl := List.mem_singleton.mp hw
    exact hne task ctx shard handle rest hd ho hr
  | syncFailed => exact .move hm hi (fun _ => List.mem_append_right _) rfl rfl
  | _ => exact .move hm hi (fun _ => id) rfl rfl

theorem BackendDumpStep.keeps (h : BackendDumpStep s s') (hi : 0 < s.pool.reference i) : Keeps s s' i := by
  have hm := h.move
  cases h <;> exact .move hm hi (fun _ => id) rfl rfl

theorem UserStep.keeps (h : UserStep s s') : Keeps s s' i := by
  cases h <;> exact ⟨id, id, fun _ => rfl, fun _ => id⟩

theorem perm_writers_load {job : LoadJob} (hm : job ∈ s.loadJobs) : s.writers.Perm (job.items ++
    (s.d2h.map (fun c => (c.key, c.node)) ++ (s.loadJobs.erase job).flatMap LoadJob.items)) :=
  (((List.perm_cons_erase hm).flatMap_right _).append_left _).trans (List.perm_append_comm_assoc _ _ _)

theorem perm_writers_copy {c : Copy} {n : Nat} (hc : s.d2h[n]? = some c) : s.writers.Perm
    ([(c.key, c.node)] ++ ((s.d2h.eraseIdx n).map (fun c => (c.key, c.node)) ++
      s.loadJobs.flatMap LoadJob.items)) := by
  obtain ⟨hn, rfl⟩ := List.getElem?_eq_some_iff.mp hc
  exact ((List.getElem_cons_eraseIdx_perm hn).symm.map _).append_right _

theorem BackendStep.keeps (h : BackendStep config s s') : Keeps s s' i := by
  cases h with
  | @loadWrite job node bytes hj hn =>
    refine ⟨id, id, fun hq => Function.update_of_ne ?_ _ _, fun _ => id⟩
    rintro rfl
    obtain ⟨w, hw, he⟩ := List.mem_map.mp hn
    exact hq w (List.mem_append_right _ (List.mem_flatMap.mpr ⟨job, hj, hw⟩)) he
  | loadDone content hm => exact .complete content (perm_writers_load hm) rfl rfl rfl
  | loadFailed hm =>
    refine ⟨id, fun hq w hw => hq w ?_, fun _ => rfl, fun _ => id⟩
    exact (perm_writers_load hm).mem_iff.mpr (List.mem_append_right _ hw)
  | @d2h _ c hc =>
    exact .complete (fun _ => config.device c.addrs) (perm_writers_copy hc) rfl rfl rfl
  | _ => exact ⟨id, id, fun _ => rfl, fun _ => id⟩

/-- A job loads the node of a handle, or has a result and has filled it if that is good. -/
def Loading (s : Store Data) (h : TaskHandle) (x : BufferHandle) : Prop :=
  (∃ job ∈ s.loadJobs, job.handle = h ∧ (x.key, x.node) ∈ job.items) ∨
    s.results h = some true ∧ Filled s x ∨ s.results h = some false

theorem Step.loading {e : Event Data} {n : TaskHandle} (h : Step config s e s') (hw : Writing s)
    (hj : Jobs s) (hk : Keeps s s' x.node) (hl : Loading s n x) : Loading s' n x := by
  have hstep := h
  rcases hl with ⟨job, hm, hn, hx⟩ | ⟨hr, hf⟩ | hr
  · cases h with
    | load h =>
      cases h with
      | submit => exact Or.inl ⟨job, List.mem_cons_of_mem _ hm, hn, hx⟩
      | _ => exact Or.inl ⟨job, hm, hn, hx⟩
    | transfer h => cases h <;> exact Or.inl ⟨job, hm, hn, hx⟩
    | dump h => cases h <;> exact Or.inl ⟨job, hm, hn, hx⟩
    | backendDump h => cases h <;> exact Or.inl ⟨job, hm, hn, hx⟩
    | backend h =>
      cases h with
      | @loadDone job' content hm' =>
        by_cases he : job = job'
        · subst he
          exact Or.inr (Or.inl ⟨by simp [hn], hw.fills content (perm_writers_load hm) rfl rfl hx⟩)
        · exact Or.inl ⟨job, (List.mem_erase_of_ne he).mpr hm, hn, hx⟩
      | @loadFailed job' hm' =>
        by_cases he : job = job'
        · subst he
          exact Or.inr (Or.inr (by simp [hn]))
        · exact Or.inl ⟨job, (List.mem_erase_of_ne he).mpr hm, hn, hx⟩
      | _ => exact Or.inl ⟨job, hm, hn, hx⟩
    | user h => cases h <;> exact Or.inl ⟨job, hm, hn, hx⟩
  · exact Or.inr (Or.inl ⟨by rw [hstep.results hj (by simp [hr]), hr], hf.keeps hk⟩)
  · exact Or.inr (Or.inr (by rw [hstep.results hj (by simp [hr]), hr]))

/-- A copy into the node of a handle is enqueued. -/
def Copying (s : Store Data) (x : BufferHandle) : Prop := ∃ c ∈ s.d2h, (c.key, c.node) = (x.key, x.node)

theorem BackendStep.copying (h : BackendStep config s s') (hw : Writing s) (hc : Copying s x) :
    Copying s' x ∨ Filled s' x := by
  obtain ⟨c, hm, hx⟩ := hc
  cases h with
  | @d2h n c' hc' =>
    by_cases he : (c'.key, c'.node) = (x.key, x.node)
    · have hmem : (x.key, x.node) ∈ [(c'.key, c'.node)] := by simp [he]
      exact Or.inr (hw.fills (fun _ => config.device c'.addrs) (perm_writers_copy hc') rfl rfl hmem)
    · obtain ⟨hn, rfl⟩ := List.getElem?_eq_some_iff.mp hc'
      rcases List.mem_cons.mp ((List.getElem_cons_eraseIdx_perm hn).mem_iff.mpr hm) with rfl | hm
      · exact absurd hx he
      · exact Or.inl ⟨c, hm, hx⟩
  | _ => exact Or.inl ⟨c, hm, hx⟩

end UnifiedCache.CacheStore.Store
