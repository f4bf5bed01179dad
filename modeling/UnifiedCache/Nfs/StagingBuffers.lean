import UnifiedCache.Nfs.QueueShards

/-! The staging buffers of one queue. A buffer that a copy under way reads is not handed out again, and it
is not released either when only the last shard of a part reads a buffer of its own. -/

namespace UnifiedCache.NfsStore.PosixQueue

variable {contains : Nat → Bool} {q q' : PosixQueue} {ok : Bool} {effect : Effect} {stage : Stage}
  {shard : Detail.Shard} {buffer : Option Buffer}

/-- The buffer was handed out since the pool was reset. -/
def Known (q : PosixQueue) : Buffer → Prop
  | .slot i => i < q.device.buffer.index
  | .own n => n < q.device.made

/-- A shard holds a buffer as soon as it needs one, and all buffers that are read are known. -/
structure Staged (q : PosixQueue) : Prop where
  bufferless : ∀ stage shard buffer, q.job = .running stage shard buffer → stage.bufferless = true → buffer = none
  needed : ∀ stage shard buffer, q.job = .running stage shard buffer →
    stage = .enqueuing ∨ stage = .reading ∧ shard.location = .device → buffer ≠ none
  held : ∀ stage shard b, q.job = .running stage shard (some b) → q.Known b
  copied : ∀ c ∈ q.device.copies, q.Known c.2

theorem Staged.of_job {stage' : Stage} (h : q.Staged) (hj : q.job = .running stage shard buffer)
    (hj' : q'.job = .running stage' shard buffer)
    (hd : q'.device.buffer = q.device.buffer ∧ q'.device.made = q.device.made)
    (hb : stage'.bufferless = true → stage.bufferless = true)
    (hn : stage' = .enqueuing ∨ stage' = .reading ∧ shard.location = .device →
      stage = .enqueuing ∨ stage = .reading ∧ shard.location = .device)
    (hc : ∀ c ∈ q'.device.copies, c ∈ q.device.copies ∨ buffer = some c.2) : q'.Staged := by
  have hknown : ∀ b, q'.Known b ↔ q.Known b := by
    intro b
    cases b <;> simp only [Known, hd.1, hd.2]
  constructor
  case bufferless =>
    intro stage'' shard' buffer' hj'' hs
    obtain ⟨rfl, rfl, rfl⟩ := Job.running.inj (hj'.symm.trans hj'')
    exact h.bufferless _ _ _ hj (hb hs)
  case needed =>
    intro stage'' shard' buffer' hj'' hs
    obtain ⟨rfl, rfl, rfl⟩ := Job.running.inj (hj'.symm.trans hj'')
    exact h.needed _ _ _ hj (hn hs)
  case held =>
    intro stage'' shard' b hj''
    obtain ⟨rfl, rfl, rfl⟩ := Job.running.inj (hj'.symm.trans hj'')
    exact (hknown b).mpr (h.held _ _ _ hj)
  case copied =>
    intro c hmem
    rcases hc c hmem with hmem | rfl
    · exact (hknown c.2).mpr (h.copied c hmem)
    · exact (hknown c.2).mpr (h.held _ _ _ hj)

theorem not_bufferless_of_late (h : stage.early = false) : stage.bufferless = false := by
  cases stage <;> first | rfl | cases h

theorem not_needed_of_late (h : stage.early = false) :
    ¬ (stage = .enqueuing ∨ stage = .reading ∧ shard.location = .device) := by
  rintro (rfl | ⟨rfl, -⟩) <;> cases h

/-- The shard needs no buffer any more. -/
theorem Staged.of_late {stage' : Stage} (h : q.Staged) (hj : q.job = .running stage shard buffer)
    (hj' : q'.job = .running stage' shard buffer) (hs' : stage'.early = false)
    (hd : q'.device.buffer = q.device.buffer ∧ q'.device.made = q.device.made)
    (hc : ∀ c ∈ q'.device.copies, c ∈ q.device.copies ∨ buffer = some c.2) : q'.Staged :=
  h.of_job hj hj' hd (fun hb => by rw [not_bufferless_of_late hs'] at hb; cases hb)
    (fun hn => absurd hn (not_needed_of_late hs')) hc

/-- The shard is handed a buffer. -/
theorem Staged.of_taken {b : Buffer} (h : q.Staged) (hj' : q'.job = .running (transfer shard) shard (some b))
    (hb : q'.Known b) (hk : ∀ b, q.Known b → q'.Known b) (hc : q'.device.copies = q.device.copies) : q'.Staged := by
  constructor
  case bufferless =>
    intro stage' shard' buffer' hj'' hs
    obtain ⟨rfl, rfl, rfl⟩ := Job.running.inj (hj'.symm.trans hj'')
    unfold transfer at hs
    cases ht : shard.type <;> simp [ht, Stage.bufferless] at hs
  case needed =>
    intro stage' shard' buffer' hj'' _
    obtain ⟨rfl, rfl, rfl⟩ := Job.running.inj (hj'.symm.trans hj'')
    exact Option.some_ne_none b
  case held =>
    intro stage' shard' b' hj''
    obtain ⟨rfl, rfl, heq⟩ := Job.running.inj (hj'.symm.trans hj'')
    exact Option.some.inj heq ▸ hb
  case copied =>
    intro c hmem
    exact hk c.2 (h.copied c (hc ▸ hmem))

/-- The shard is without a buffer and has nothing to do with one. -/
theorem Staged.of_none (hj' : q'.job = .running stage shard none)
    (hn : ¬ (stage = .enqueuing ∨ stage = .reading ∧ shard.location = .device))
    (hc : ∀ c ∈ q'.device.copies, q'.Known c.2) : q'.Staged := by
  constructor
  case bufferless =>
    intro stage' shard' buffer' hj'' _
    obtain ⟨rfl, rfl, rfl⟩ := Job.running.inj (hj'.symm.trans hj'')
    rfl
  case needed =>
    intro stage' shard' buffer' hj'' hs
    obtain ⟨rfl, rfl, rfl⟩ := Job.running.inj (hj'.symm.trans hj'')
    exact absurd hs hn
  case held =>
    intro stage' shard' b hj''
    cases hj'.symm.trans hj''
  case copied => exact hc

theorem Next.staged (h : Next contains q ok q' effect) (hs : q.Staged) : q'.Staged := by
  cases h with
  | pop hj hb => exact .of_none rfl (by simp) hs.copied
  | skip hj => exact hs.of_late hj rfl settle_late ⟨rfl, rfl⟩ fun _ hc => .inl hc
  | advance hj _ _ hr he hb =>
    refine hs.of_job hj rfl ⟨rfl, rfl⟩ hb ?_ fun _ hc => .inl hc
    rintro (heq | ⟨heq, hl⟩)
    · exact .inr (he heq)
    · cases hl.symm.trans (hr heq)
  | recycled hj =>
    obtain rfl := hs.bufferless _ _ _ hj rfl
    exact .of_none rfl (by simp) fun _ hc => absurd hc List.not_mem_nil
  | stuck hj =>
    obtain rfl := hs.bufferless _ _ _ hj rfl
    exact .of_none rfl (by simp) fun _ hc => absurd hc List.not_mem_nil
  | takeSlot hj =>
    refine hs.of_taken rfl (Nat.lt_succ_self _) ?_ rfl
    intro b hb
    cases b with
    | slot i => exact Nat.lt_succ_of_lt hb
    | own n => exact hb
  | takeNull hj =>
    refine .of_none rfl (by simp) ?_
    intro c hc
    have hk := hs.copied c hc
    cases hb : c.2 with
    | slot i =>
      rw [hb] at hk
      exact Nat.lt_succ_of_lt hk
    | own n =>
      rw [hb] at hk
      exact hk
  | takeOwn hj =>
    refine hs.of_taken rfl (Nat.lt_succ_self _) ?_ rfl
    intro b hb
    cases b with
    | slot i => exact hb
    | own n => exact Nat.lt_succ_of_lt hb
  | takeNone hj => exact .of_none rfl (by simp) hs.copied
  | moved hj => exact hs.of_late hj rfl settle_late ⟨rfl, rfl⟩ fun _ hc => .inl hc
  | enqueued hj =>
    refine hs.of_late hj rfl settle_late ⟨rfl, rfl⟩ ?_
    intro c hc
    rcases List.mem_append.mp hc with hc | hc
    · exact .inl hc
    · rw [List.mem_singleton.mp hc]
      exact .inr rfl
  | failed hj => exact hs.of_late hj rfl settle_late ⟨rfl, rfl⟩ fun _ hc => .inl hc
  | synced hj => exact hs.of_late hj rfl rfl ⟨rfl, rfl⟩ fun _ hc => absurd hc List.not_mem_nil
  | unsynced hj => exact hs.of_late hj rfl rfl ⟨rfl, rfl⟩ fun _ hc => absurd hc List.not_mem_nil
  | blamed hj => exact hs.of_late hj rfl rfl ⟨rfl, rfl⟩ fun _ hc => .inl hc
  | finished hj => exact hs.of_late hj rfl rfl ⟨rfl, rfl⟩ fun _ hc => .inl hc
  | left hj =>
    exact ⟨fun _ _ _ hj' => absurd hj' Job.noConfusion, fun _ _ _ hj' => absurd hj' Job.noConfusion,
      fun _ _ _ hj' => absurd hj' Job.noConfusion, hs.copied⟩

/-- Only the shard that is about to synchronise has a copy under way from a buffer of its own. -/
def SyncsOwn (q : PosixQueue) : Prop :=
  ∀ c ∈ q.device.copies, ∀ n, c.2 = .own n → q.job = .running .syncing c.1 (some c.2)

theorem SyncsOwn.of_job (h : q.SyncsOwn) (hj : ∀ shard b, q.job ≠ .running .syncing shard (some b))
    (hc : ∀ c ∈ q'.device.copies, c ∈ q.device.copies) : q'.SyncsOwn :=
  fun c hmem n hn => absurd (h c (hc c hmem) n hn) (hj c.1 c.2)

/-- A buffer of its own is read for a shard with the callback alone. -/
def EnqueuesMarked (q : PosixQueue) (ok : Bool) : Prop :=
  ∀ shard n, q.job = .running .enqueuing shard (some (.own n)) → ok = true → shard.done = true

theorem Next.syncsOwn (h : Next contains q ok q' effect) (hs : q.SyncsOwn) (hg : q.EnqueuesMarked ok) :
    q'.SyncsOwn := by
  have hkeep : ∀ {q' : PosixQueue} {stage : Stage} {shard : Detail.Shard} {buffer : Option Buffer},
      q.job = .running stage shard buffer → stage ≠ .syncing → (∀ c ∈ q'.device.copies, c ∈ q.device.copies) →
        q'.SyncsOwn := by
    intro q' stage shard buffer hj hne hc
    refine hs.of_job ?_ hc
    intro shard' b hj'
    exact hne (Job.running.inj (hj.symm.trans hj')).1
  cases h with
  | pop hj hb => exact hs.of_job (fun _ _ hj' => by cases hj.symm.trans hj') fun _ hc => hc
  | skip hj => exact hkeep hj Stage.noConfusion fun _ hc => hc
  | advance hj hearly =>
    refine hkeep hj ?_ fun _ hc => hc
    rintro rfl
    cases hearly
  | recycled hj => exact fun _ hc => absurd hc List.not_mem_nil
  | stuck hj => exact fun _ hc => absurd hc List.not_mem_nil
  | takeSlot hj => exact hkeep hj Stage.noConfusion fun _ hc => hc
  | takeNull hj => exact hkeep hj Stage.noConfusion fun _ hc => hc
  | takeOwn hj => exact hkeep hj Stage.noConfusion fun _ hc => hc
  | takeNone hj => exact hkeep hj Stage.noConfusion fun _ hc => hc
  | moved hj hearly =>
    refine hkeep hj ?_ fun _ hc => hc
    rintro rfl
    simp at hearly
  | @enqueued shard b hj hok =>
    intro c hc n hn
    rcases List.mem_append.mp hc with hc | hc
    · cases hj.symm.trans (hs c hc n hn)
    · obtain rfl := List.mem_singleton.mp hc
      obtain rfl := hn
      show Job.running (settle shard) shard (some (.own n)) = _
      rw [settle_of_done (hg shard n hj hok)]
  | failed hj => exact hkeep hj Stage.noConfusion fun _ hc => hc
  | synced hj => exact fun _ hc => absurd hc List.not_mem_nil
  | unsynced hj => exact fun _ hc => absurd hc List.not_mem_nil
  | blamed hj => exact hkeep hj Stage.noConfusion fun _ hc => hc
  | finished hj => exact hkeep hj Stage.noConfusion fun _ hc => hc
  | left hj => exact hkeep hj Stage.noConfusion fun _ hc => hc

/-- A buffer that is handed out is not read by a copy under way. -/
theorem Staged.not_read_of_handsOut (h : q.Staged) {b : Buffer} (hb : q.handsOut ok = some b) :
    ∀ c ∈ q.device.copies, c.2 ≠ b := by
  intro c hc heq
  have hk := h.copied c hc
  rw [heq] at hk
  unfold handsOut at hb
  split at hb
  · split_ifs at hb with ha hok
    · unfold LinearBuffer.get at hb
      split_ifs at hb
      obtain rfl := Option.some.inj hb
      exact lt_irrefl _ hk
    · obtain rfl := Option.some.inj hb
      exact lt_irrefl _ hk
  · cases hb

theorem SyncsOwn.not_read_of_releases (h : q.SyncsOwn) {b : Buffer} (hb : q.releases = some b) :
    ∀ c ∈ q.device.copies, c.2 ≠ b := by
  intro c hc heq
  unfold releases at hb
  split at hb
  · rename_i n hj
    obtain rfl := Option.some.inj hb
    cases hj.symm.trans (h c hc n heq)
  · cases hb

/-- A worker with something to do goes on. -/
theorem exists_next (h : q.Staged) (hq : q.job ≠ .idle ∨ q.backend ≠ []) (contains : Nat → Bool) (ok : Bool) :
    ∃ p, q.next contains ok = some p := by
  cases hj : q.job with
  | idle =>
    obtain ⟨shard, backend, hb⟩ := List.exists_cons_of_ne_nil (hq.resolve_left (absurd hj))
    exact ⟨_, by rw [next, hj, hb]⟩
  | running stage shard buffer =>
    rw [next, hj]
    cases stage with
    | enqueuing =>
      obtain ⟨b, rfl⟩ := Option.ne_none_iff_exists'.mp (h.needed _ _ _ hj (.inl rfl))
      exact ⟨_, rfl⟩
    | _ => exact ⟨_, rfl⟩

/-- What the queues keep. -/
structure Orderly (q : PosixQueue) : Prop where
  ends : Ends q.awaited
  marked : q.Marked
  owned : q.Owned
  staged : q.Staged
  syncsOwn : q.SyncsOwn

theorem Awaits.ends (h : Awaits q q' effect) (he : Ends q.awaited) : Ends q'.awaited := by
  cases h with
  | same _ hq => exact hq ▸ he
  | drop _ hq => exact (hq ▸ he).tail
  | done hq => exact (hq ▸ he).tail

theorem Next.orderly (h : Next contains q ok q' effect) (hq : q.Orderly) (hg : q.EnqueuesMarked ok) : q'.Orderly where
  ends := (h.awaits hq.marked).ends hq.ends
  marked := h.marked hq.marked
  owned := h.owned hq.ends hq.owned
  staged := h.staged hq.staged
  syncsOwn := h.syncsOwn hq.syncsOwn hg

theorem Orderly.push {part : List Detail.Shard} (h : q.Orderly) (hp : Ends part) : (q.push part).Orderly where
  ends := by
    rw [awaited_push]
    exact h.ends.append hp
  marked := h.marked
  owned := h.owned.push
  staged := ⟨h.staged.bufferless, h.staged.needed, h.staged.held, h.staged.copied⟩
  syncsOwn := h.syncsOwn

theorem orderly_setup (bufferSize bufferNumber : Nat) : (setup bufferSize bufferNumber).Orderly where
  ends := trivial
  marked _ _ _ hj := absurd hj Job.noConfusion
  owned _ hc := absurd hc List.not_mem_nil
  staged := ⟨fun _ _ _ hj => absurd hj Job.noConfusion, fun _ _ _ hj => absurd hj Job.noConfusion,
    fun _ _ _ hj => absurd hj Job.noConfusion, fun _ hc => absurd hc List.not_mem_nil⟩
  syncsOwn _ hc := absurd hc List.not_mem_nil

end UnifiedCache.NfsStore.PosixQueue
