import UnifiedCache.Cache.AllocWaits
import UnifiedCache.Cache.ReadyData

/-! Dispatchers that wait in `Alloc` for a node. Somebody else can come to release one, as long as the
nodes that the dispatchers ask for and those that failed loads have left over fit into the buffer
together. -/

namespace UnifiedCache.CacheStore

open PinnedPool StepSystem

def Loader.checking : Loader → Option TransTask
  | .check task => some task
  | _ => none

def Dumper.checking : Dumper → Option TransTask
  | .check task => some task
  | _ => none

namespace Store

variable {Data : Type} (config : Config Data) (s : Store Data)

def held : List (BlockId × Nat) := s.holder.map fun task => task.bufferHandle.key

/-- The keys whose nodes only a dispatcher can give back, and those of the nodes that the dispatchers
still ask for. Handles in `holder_` wait for the next load once no load is under way. -/
def pledged : Finset (BlockId × Nat) :=
  (s.loader.gathering ++ (s.dumper.gathering ++ if s.AtRest then s.held else [])).toFinset

/-- What is pledged after a step that can pledge more: a dispatcher takes up a task, or the transfer
thread leaves handles over. -/
def pledging (s : Store Data) : Event Data → Option (Finset (BlockId × Nat))
  | .load .check => s.loader.checking.map fun task => s.pledged ∪ (task.desc.map Shard.key).toFinset
  | .dump .check => s.dumper.checking.map fun task => s.pledged ∪ (task.desc.map Shard.key).toFinset
  | .transfer .release =>
    if s.running = [] ∧ s.loader.pushing = [] then
      some (s.loader.gathering ++ (s.dumper.gathering ++ s.held)).toFinset
    else none
  | _ => none

/-- What is pledged fits into the buffer. -/
def Fits (config : Config Data) (s : Store Data) (e : Event Data) : Prop :=
  ∀ keys ∈ s.pledging e, keys.card ≤ config.nNode

instance (e : Event Data) : Decidable (Fits config s e) :=
  inferInstanceAs (Decidable (∀ keys ∈ s.pledging e, keys.card ≤ config.nNode))

variable {config} {s} {s' : Store Data}

section Pledged

variable {k : BlockId × Nat}

theorem mem_pledged : k ∈ s.pledged ↔
    k ∈ s.loader.gathering ∨ k ∈ s.dumper.gathering ∨ s.AtRest ∧ k ∈ s.held := by
  unfold pledged
  split_ifs with hrest <;> simp [hrest]

theorem pledged_subset (hl : ∀ k ∈ s'.loader.gathering, k ∈ s.loader.gathering)
    (hd : ∀ k ∈ s'.dumper.gathering, k ∈ s.dumper.gathering) (hr : s'.AtRest → s.AtRest ∧ s'.held = s.held) :
    s'.pledged ⊆ s.pledged := by
  intro k hk
  rcases mem_pledged.mp hk with hk | hk | ⟨hrest, hk⟩
  · exact mem_pledged.mpr (.inl (hl k hk))
  · exact mem_pledged.mpr (.inr (.inl (hd k hk)))
  · obtain ⟨hrest', hheld⟩ := hr hrest
    exact mem_pledged.mpr (.inr (.inr ⟨hrest', hheld ▸ hk⟩))

theorem LoadStep.pledged (h : LoadStep config s s') : s'.pledged ⊆ s.pledged ∨
    ∃ task, s.loader = .check task ∧ s'.pledged ⊆ s.pledged ∪ (task.desc.map Shard.key).toFinset := by
  have hrest : s.loader.pushing = [] → s'.transfer = s.transfer → s'.running = s.running → s'.holder = s.holder →
      s'.AtRest → s.AtRest ∧ s'.held = s.held := by
    intro hp ht hr hh hrest
    exact ⟨⟨ht ▸ hrest.1, hr ▸ hrest.2.1, hp⟩, by rw [held, held, hh]⟩
  cases h with
  | @check task hl hf =>
    refine .inr ⟨task, hl, fun k hk => ?_⟩
    rcases mem_pledged.mp hk with hk | hk | ⟨hrest', hk⟩
    · exact Finset.mem_union_right _ (List.mem_toFinset.mpr hk)
    · exact Finset.mem_union_left _ (mem_pledged.mpr (.inr (.inl hk)))
    · have hr := hrest (by rw [hl]; rfl) rfl rfl rfl hrest'
      exact Finset.mem_union_left _ (mem_pledged.mpr (.inr (.inr ⟨hr.1, hr.2 ▸ hk⟩)))
  | miss hl | hit hl | takeNode hl =>
    refine .inl (pledged_subset ?_ (fun _ hk => hk) (hrest (by rw [hl]; rfl) rfl rfl rfl))
    intro k hk
    rw [hl]
    simpa [Loader.gathering, Store.hit] using hk
  | skipNode hl => exact .inl (pledged_subset (fun _ hk => hk) (fun _ hk => hk) fun hr => ⟨hr, rfl⟩)
  | push hl =>
    refine .inl (pledged_subset (fun _ hk => (by cases hk)) (fun _ hk => hk) fun hr => ?_)
    exact absurd hr.2.1 (List.concat_ne_nil _ _)
  | pop hl | refuse hl | gathered hl | allReady hl | refused hl | submit hl | pushed hl | fail hl | done hl
  | released hl | release hl =>
    exact .inl (pledged_subset (fun _ hk => (by cases hk)) (fun _ hk => hk) (hrest (by rw [hl]; rfl) rfl rfl rfl))

theorem TransferStep.pledged (h : TransferStep s s') (hp : Pipe s) : s'.pledged ⊆ s.pledged ∨
    ∃ task, s.transfer = .release task ∧ s.running = [] ∧ s.loader.pushing = [] ∧
      s'.pledged = (s.loader.gathering ++ (s.dumper.gathering ++ s.held)).toFinset := by
  have hbusy : s'.loader = s.loader → s'.dumper = s.dumper → ¬ s'.AtRest → s'.pledged ⊆ s.pledged := by
    intro hl hd hrest
    exact pledged_subset (fun _ hk => hl ▸ hk) (fun _ hk => hd ▸ hk) fun hr => absurd hr hrest
  cases h with
  | @copy task ht hw =>
    refine .inl (hbusy rfl rfl ?_)
    rintro ⟨-, hr, hpush⟩
    have hmem : task ∈ s.pipe := by simp [Store.pipe, Transfer.front, Transfer.task, ht]
    obtain ⟨w, hmem, hwaiter, -⟩ := hp.covered.exists_waiter hmem
    have hr' : s.running = [] := hr
    have hpush' : s.loader.pushing = [] := hpush
    have heq : w = task := by
      simpa [Store.pipe, Transfer.front, Transfer.task, ht, hr', hpush'] using hmem
    rw [heq, hw] at hwaiter
    cases hwaiter
  | @release task ht =>
    by_cases hrest : s.running = [] ∧ s.loader.pushing = []
    · refine .inr ⟨task, ht, hrest.1, hrest.2, ?_⟩
      have hrest' : AtRest { s.release task.bufferHandle with transfer := .idle } := ⟨rfl, hrest.1, hrest.2⟩
      rw [Store.pledged, if_pos hrest']
      rfl
    · exact .inl (hbusy rfl rfl fun hr => hrest hr.2)
  | clear ht hh =>
    refine .inl (hbusy rfl rfl fun hr => ?_)
    have hidle : s.transfer = .idle := hr.1
    rw [ht] at hidle
    cases hidle
  | _ => exact .inl (hbusy rfl rfl fun hr => by cases hr.1)

theorem DumpStep.pledged (h : DumpStep config s s') : s'.pledged ⊆ s.pledged ∨
    ∃ task, s.dumper = .check task ∧ s'.pledged ⊆ s.pledged ∪ (task.desc.map Shard.key).toFinset := by
  have hsub : s'.loader = s.loader → s'.transfer = s.transfer → s'.running = s.running → s'.holder = s.holder →
      (∀ k ∈ s'.dumper.gathering, k ∈ s.dumper.gathering) → s'.pledged ⊆ s.pledged := by
    intro hl ht hr hh hd
    refine pledged_subset (fun _ hk => hl ▸ hk) hd fun hrest => ⟨⟨ht ▸ hrest.1, hr ▸ hrest.2.1, hl ▸ hrest.2.2⟩, ?_⟩
    rw [held, held, hh]
  cases h with
  | @check task hd hf =>
    refine .inr ⟨task, hd, fun k hk => ?_⟩
    rcases mem_pledged.mp hk with hk | hk | ⟨hrest, hk⟩
    · exact Finset.mem_union_left _ (mem_pledged.mpr (.inl hk))
    · exact Finset.mem_union_right _ (List.mem_toFinset.mpr hk)
    · exact Finset.mem_union_left _ (mem_pledged.mpr (.inr (.inr ⟨hrest, hk⟩)))
  | miss hd | hit hd | takeNode hd | skip hd | keep hd | copy hd =>
    refine .inl (hsub rfl rfl rfl rfl fun k hk => ?_)
    rw [hd]
    simp only [Dumper.gathering, Store.hit, List.map_append, List.map_cons, List.map_nil, List.mem_append,
      List.mem_cons, List.not_mem_nil, or_false] at hk ⊢
    tauto
  | skipNode hd => exact .inl (hsub rfl rfl rfl rfl fun _ hk => hk)
  | _ => exact .inl (hsub rfl rfl rfl rfl fun _ hk => by cases hk)

end Pledged

section Contended

/-- Both dispatchers wait, one for a node and one for the bucket that the first has locked. -/
structure Stuck (s : Store Nat) : Prop where
  loader : ∃ id got shard rest, s.loader = .alloc id got shard rest
  dumper : ∃ task ctx shard rest, s.dumper = .find task ctx (shard :: rest)
  transfer : s.transfer = .idle
  running : s.running = []
  backendDumper : s.backendDumper = .idle
  dumping : s.dumping = []
  hand : s.pool.hand < s.pool.nNode
  full : ∀ i < s.pool.nNode, 0 < s.pool.reference i

theorem Stuck.frame {s s' : Store Nat} (h : Stuck s) (hl : s'.loader = s.loader) (hd : s'.dumper = s.dumper)
    (ht : s'.transfer = s.transfer) (hr : s'.running = s.running) (hb : s'.backendDumper = s.backendDumper)
    (hg : s'.dumping = s.dumping) (hp : s'.pool = s.pool) : Stuck s' where
  loader := hl ▸ h.loader
  dumper := hd ▸ h.dumper
  transfer := ht.trans h.transfer
  running := hr.trans h.running
  backendDumper := hb.trans h.backendDumper
  dumping := hg.trans h.dumping
  hand := hp ▸ h.hand
  full := hp ▸ h.full

theorem Stuck.step {s s' : Store Nat} {e : Event Nat} (h : Stuck s) (hs : Step Config.smallest s e s') : Stuck s' := by
  obtain ⟨id, got, shard, rest, hloader⟩ := h.loader
  obtain ⟨task, ctx, shard', rest', hdumper⟩ := h.dumper
  cases hs with
  | load hs =>
    cases hs with
    | skipNode hl =>
      have hhand : s.pool.advance.hand < s.pool.nNode := by
        rw [advance_hand h.hand]
        exact Nat.mod_lt _ (Nat.zero_lt_of_lt h.hand)
      exact ⟨h.loader, h.dumper, h.transfer, h.running, h.backendDumper, h.dumping, hhand, h.full⟩
    | takeNode hl hr => exact absurd hr (h.full _ h.hand).ne'
    | _ => simp_all
  | transfer hs =>
    have htransfer := h.transfer
    have hrunning := h.running
    cases hs <;> simp_all
  | dump hs =>
    cases hs with
    | miss hd hb => simp [hloader, Loader.allocKey, bucketFree, Config.bucketOf, Config.smallest, Hashers.hash] at hb
    | hit hd hb => simp [hloader, Loader.allocKey, bucketFree, Config.bucketOf, Config.smallest, Hashers.hash] at hb
    | _ => simp_all
  | backendDump hs =>
    have hbackend := h.backendDumper
    have hdumping := h.dumping
    cases hs <;> simp_all
  | backend hs => cases hs <;> exact h.frame rfl rfl rfl rfl rfl rfl rfl
  | user hs => cases hs <;> exact h.frame rfl rfl rfl rfl rfl rfl rfl

def threeShards : TaskDesc :=
  [⟨Vector.replicate 16 0, 0, [7]⟩, ⟨Vector.replicate 16 0, 1, [8]⟩, ⟨Vector.replicate 16 0, 2, [9]⟩]

def twoShards : TaskDesc := [⟨Vector.replicate 16 0, 0, [7]⟩, ⟨Vector.replicate 16 0, 1, [8]⟩]

end Contended

end Store

end UnifiedCache.CacheStore
