import UnifiedCache.Nfs.TransSteps

/-! Completion of the tasks of the NFS store. The latch of a task comes to zero once, when all its copies
have been synchronised; its caller gets OK only for a task whose shards have all been moved; and as long as
only the last shard of a part reads a buffer of its own, no buffer is taken away from a copy. -/

namespace UnifiedCache.NfsStore

open Detail (Task)
open TransManager StepSystem

namespace TransManager

variable {config : Config} {m m' : TransManager} {flags : Finset Nat} {id : Nat}

/-- What the caller of `Wait` does. -/
inductive Waits (config : Config) (m : TransManager) (id : Nat) : TransManager → Prop
  | finish (hw : m.waits id = .waiting ∨ m.waits id = .blocked) (hl : m.latches id = 0) :
      Waits config m id (m.setWait id .checking)
  | expire (hw : m.waits id = .waiting) : Waits config m id (m.setWait id .expired)
  | block {m' : TransManager} (hw : m.waits id = .expired) (hf : m.fail config id = some m') :
      Waits config m id (m'.setWait id .blocked)
  | good (hw : m.waits id = .checking) (hf : m.failed config id = false) :
      Waits config m id (m.setWait id (.returned true))
  | bad (hw : m.waits id = .checking) (hf : m.failed config id = true) : Waits config m id (m.setWait id .removing)
  | remove (hw : m.waits id = .removing) : Waits config m id
      ({ m with failureSet := m.failureSet.remove config.taskIdHasher Config.shardBits id }.setWait id
        (.returned false))

theorem waits_of_step {expires : Bool} (h : m.step config (.waitNext id expires) = some m') : Waits config m id m' := by
  simp only [step] at h
  cases hw : m.waits id with
  | waiting =>
    simp only [hw, waitNext] at h
    split_ifs at h with hl he
    · obtain rfl := Option.some.inj h
      exact .finish (.inl hw) hl
    · obtain rfl := Option.some.inj h
      exact .expire hw
  | expired =>
    simp only [hw, waitNext] at h
    obtain ⟨m₁, hf, rfl⟩ := Option.map_eq_some_iff.mp h
    exact .block hw hf
  | blocked =>
    simp only [hw, waitNext] at h
    split_ifs at h with hl
    obtain rfl := Option.some.inj h
    exact .finish (.inr hw) hl
  | checking =>
    simp only [hw, waitNext, Option.some.injEq] at h
    subst h
    cases hf : m.failed config id with
    | true => exact .bad hw hf
    | false => exact .good hw hf
  | removing =>
    simp only [hw, waitNext] at h
    obtain rfl := Option.some.inj h
    exact .remove hw
  | _ => simp [hw, waitNext] at h

/-- Only a shard with the callback has a buffer of its own read. -/
def KeepsBuffers (m : TransManager) : Event → Prop
  | .work q ok => (m.queues q).EnqueuesMarked ok
  | _ => True

/-- No other key of the failure set is hidden when a caller removes its task. -/
def HidesNone (config : Config) (m : TransManager) : Event → Prop
  | .waitNext id _ => m.waits id = .removing →
      HashSet.RemovalSafe config.taskIdHasher Config.shardBits m.failureSet id
  | _ => True

theorem Waits.tidy (hw : Waits config m id m') (h : Tidy config m flags)
    (hs : m.waits id = .removing → HashSet.RemovalSafe config.taskIdHasher Config.shardBits m.failureSet id) :
    ∃ flags', Tidy config m' flags' ∧ m'.latches = m.latches ∧ m'.queues = m.queues ∧ m'.pushing = m.pushing ∧
      (∀ k, m'.waits k = .absent ↔ m.waits k = .absent) ∧ ∀ k, Flagged m flags k → Flagged m' flags' k := by
  have habsent : ∀ {m₁ : TransManager} {v w : Waiting}, m₁.waits = m.waits → m.waits id = v → v ≠ .absent →
      w ≠ .absent → ∀ k, (m₁.setWait id w).waits k = .absent ↔ m.waits k = .absent := by
    intro m₁ v w heq hv hne hne' k
    by_cases hk : k = id
    · subst hk
      rw [setWait_waits, Function.update_self, hv]
      exact iff_of_false hne' hne
    · rw [setWait_waits, Function.update_of_ne hk, heq]
  have hkeep : ∀ {w : Waiting}, m.waits id ≠ .returned false → ∀ k, Flagged m flags k →
      Flagged (m.setWait id w) flags k := by
    intro w hne k hf
    rcases hf with hf | hf | hf
    · exact .inl hf
    · exact .inr (.inl hf)
    · refine .inr (.inr ?_)
      rw [setWait_waits, Function.update_of_ne]
      · exact hf
      · rintro rfl
        exact hne hf
  cases hw with
  | finish hw hl =>
    refine ⟨flags, h.setWait Waiting.noConfusion (fun _ => hl) Waiting.noConfusion, rfl, rfl, rfl,
      habsent rfl rfl ?_ Waiting.noConfusion, hkeep ?_⟩
    · rcases hw with hw | hw <;> simp [hw]
    · rcases hw with hw | hw <;> simp [hw]
  | expire hw =>
    exact ⟨flags, h.setWait Waiting.noConfusion (by simp) Waiting.noConfusion, rfl, rfl, rfl,
      habsent rfl hw Waiting.noConfusion Waiting.noConfusion, hkeep (by simp [hw])⟩
  | block hw hf =>
    have htidy := h.fail hf hw
    obtain ⟨failureSet, -, rfl⟩ := fail_eq hf
    refine ⟨insert id flags, htidy.setWait Waiting.noConfusion (by simp) Waiting.noConfusion, rfl, rfl, rfl,
      habsent rfl hw Waiting.noConfusion Waiting.noConfusion, ?_⟩
    intro k hk
    rcases hkeep (w := .blocked) (by simp [hw]) k hk with hk | hk | hk
    · exact .inl (Finset.mem_insert_of_mem hk)
    · exact .inr (.inl hk)
    · exact .inr (.inr hk)
  | good hw hf =>
    have hnot : id ∉ flags := by
      rw [h.failed_eq] at hf
      exact of_decide_eq_false hf
    exact ⟨flags, h.setWait Waiting.noConfusion (fun _ => h.answered id (.inl hw)) (fun _ => hnot), rfl, rfl, rfl,
      habsent rfl hw Waiting.noConfusion Waiting.noConfusion, hkeep (by simp [hw])⟩
  | bad hw hf =>
    exact ⟨flags, h.setWait Waiting.noConfusion (fun _ => h.answered id (.inl hw)) Waiting.noConfusion, rfl, rfl, rfl,
      habsent rfl hw Waiting.noConfusion Waiting.noConfusion, hkeep (by simp [hw])⟩
  | remove hw =>
    refine ⟨flags.erase id, (h.remove (hs hw)).setWait Waiting.noConfusion (fun _ => h.answered id (.inr (.inl hw)))
      (by simp), rfl, rfl, rfl, habsent rfl hw Waiting.noConfusion Waiting.noConfusion, ?_⟩
    intro k hk
    by_cases heq : k = id
    · subst heq
      exact .inr (.inr (by simp))
    · rcases hkeep (w := .returned false) (by simp [hw]) k hk with hk | hk | hk
      · exact .inl (Finset.mem_erase.mpr ⟨heq, hk⟩)
      · exact .inr (.inl hk)
      · exact .inr (.inr hk)

section Left

/-- The steps of the workers and of the loop in `Submit`. -/
def Event.internal : Event → Bool
  | .push => true
  | .work _ _ => true
  | _ => false

theorem Works.left_lt {q : Nat} {ok : Bool} {queue : PosixQueue} {effect : Effect}
    (hw : Works config m m' q ok queue effect) : leftTotal config m' < leftTotal config m := by
  have hsum := sum_update_add (Finset.mem_range.mpr hw.lt) PosixQueue.left m.queues queue
  have hlt := hw.next.left_lt
  have hpushing : m'.pushing = m.pushing := hw.applied.pushing
  rw [leftTotal, leftTotal, hw.queues, hpushing]
  omega

theorem Pushes.left_lt {part : List Detail.Shard} {parts : List (List Detail.Shard)}
    (hp : Pushes config m m' part parts) (h : Tidy config m flags) : leftTotal config m' < leftTotal config m := by
  have hsum := sum_update_add (Finset.mem_range.mpr (hp.index_lt h)) PosixQueue.left m.queues
    ((m.queues m.qIndex).push part)
  rw [PosixQueue.left_push] at hsum
  rw [leftTotal, leftTotal, hp.pushing, hp.eq, List.map_cons, List.sum_cons]
  show (parts.map fun part => 1 + 13 * part.length).sum + ∑ q ∈ Finset.range config.streamNumber,
    (Function.update m.queues m.qIndex ((m.queues m.qIndex).push part) q).left < _
  omega

/-- Whatever the devices and the file system answer, some worker or `Submit` goes on. -/
theorem Tidy.exists_step (h : Tidy config m flags) (hq : ¬ Quiet m) :
    (m.step config .push).isSome ∨ ∃ q, ∀ ok, (m.step config (.work q ok)).isSome := by
  by_cases hp : m.pushing = []
  · right
    obtain ⟨q, hbusy⟩ := not_forall.mp fun hall => hq ⟨hp, hall⟩
    have hlt : q < config.streamNumber := by
      by_contra hge
      rw [h.unused q (by omega)] at hbusy
      exact hbusy ⟨rfl, rfl⟩
    refine ⟨q, fun ok => ?_⟩
    obtain ⟨⟨queue, effect⟩, hn⟩ := PosixQueue.exists_next (h.queue q).staged (by tauto) (m.failed config) ok
    rw [step, if_pos hlt, work, hn]
    cases effect with
    | insert owner =>
      obtain ⟨failureSet, hset, -⟩ := HashSet.insert_represents h.represents owner
      simp [apply, TransManager.fail, hset]
    | _ => rfl
  · obtain ⟨part, parts, hparts⟩ := List.exists_cons_of_ne_nil hp
    left
    simp [step, push, hparts]

end Left

end TransManager

namespace WatchedManager

variable {config : Config} {w w' : WatchedManager} {flags flags' : Finset Nat} {id : Nat} {e : TransManager.Event}
  {m' : TransManager}

/-- What is known of the tasks, the moved shards and the latches. -/
structure Kept (config : Config) (w : WatchedManager) (flags : Finset Nat) : Prop where
  transferred : ∀ id, w.manager.waits id = .absent → mine id w.transferred = 0
  zeros : ∀ id, w.zeros id = if w.manager.waits id ≠ .absent ∧ w.manager.latches id = 0 then 1 else 0
  shards : ∀ id, w.manager.waits id ≠ .absent → ¬ Flagged w.manager flags id →
    (w.tasks id : Multiset Detail.Shard) = mine id w.transferred + todoTotal config w.manager id

/-- The run after a step of the manager. -/
def after (w : WatchedManager) (e : TransManager.Event) (m : TransManager) : WatchedManager where
  manager := m
  tasks := accept w.tasks e
  transferred := w.transferred ++ w.manager.transfers e
  zeros := fun id => if w.manager.latches id ≠ 0 ∧ m.latches id = 0 then w.zeros id + 1 else w.zeros id

theorem step_eq (h : w.step config e = some w') : ∃ m', w.manager.step config e = some m' ∧ w' = w.after e m' := by
  obtain ⟨m', hm, rfl⟩ := Option.map_eq_some_iff.mp h
  exact ⟨m', hm, rfl⟩

/-- A latch only comes down. -/
theorem zeros_after (h : Kept config w flags) (hl : w.manager.latches id = 0 → m'.latches id = 0)
    (ha : w.manager.waits id = .absent ↔ m'.waits id = .absent)
    (hz : w.manager.waits id = .absent → w.manager.latches id = 0) :
    (w.after e m').zeros id = if m'.waits id ≠ .absent ∧ m'.latches id = 0 then 1 else 0 := by
  simp only [after, h.zeros id, ne_eq, ha] at *
  by_cases hl₀ : w.manager.latches id = 0
  · simp [hl₀, hl hl₀]
  · have hna : ¬ m'.waits id = .absent := fun hna => hl₀ (hz hna)
    by_cases hl₁ : m'.latches id = 0 <;> simp [hl₀, hl₁, hna]

theorem Kept.of_unmoved (h : Kept config w flags) (hz : ∀ id, w.manager.waits id = .absent → w.manager.latches id = 0)
    (ht : w.manager.transfers e = []) (ha : accept w.tasks e = w.tasks) (hl : m'.latches = w.manager.latches)
    (hw : ∀ k, m'.waits k = .absent ↔ w.manager.waits k = .absent)
    (htodo : ∀ k, todoTotal config m' k = todoTotal config w.manager k)
    (hf : ∀ k, Flagged w.manager flags k → Flagged m' flags' k) : Kept config (w.after e m') flags' := by
  constructor
  case transferred =>
    intro k hk
    show mine k (w.transferred ++ w.manager.transfers e) = 0
    rw [ht, List.append_nil]
    exact h.transferred k ((hw k).mp hk)
  case zeros => exact fun k => zeros_after h (fun hl₀ => hl ▸ hl₀) (hw k).symm (hz k)
  case shards =>
    intro k hk hnot
    show (accept w.tasks e k : Multiset Detail.Shard) =
      mine k (w.transferred ++ w.manager.transfers e) + todoTotal config m' k
    rw [ha, ht, List.append_nil, htodo k]
    exact h.shards k (fun habs => hk ((hw k).mpr habs)) fun hflag => hnot (hf k hflag)

theorem Kept.work {q : Nat} {ok : Bool} {queue : PosixQueue} {effect : Effect} (h : Kept config w flags)
    (ht : Tidy config w.manager flags) (hw : Works config w.manager m' q ok queue effect) :
    Kept config (w.after (.work q ok) m') (flagsAfter flags effect) := by
  have hwaits : m'.waits = w.manager.waits := hw.applied.waits
  constructor
  case transferred =>
    intro k hk
    rw [show (w.after (.work q ok) m').manager.waits = w.manager.waits from hwaits] at hk
    show mine k (w.transferred ++ (w.manager.queues q).transfers ok) = 0
    rw [mine_append, h.transferred k hk, zero_add]
    refine mine_eq_zero fun s hs => ?_
    exact owner_ne_of_mine (ht.mine_todo_eq_zero (ht.absent k hk) hw.lt) (PosixQueue.mem_todo_of_transfers hs)
  case zeros =>
    intro k
    refine zeros_after h ?_ (by rw [hwaits]) (ht.absent k)
    intro hl
    rw [hw.latches k, hl, Nat.zero_sub]
  case shards =>
    intro k hk hnot
    have hk' : w.manager.waits k ≠ .absent := hwaits ▸ hk
    have hold := h.shards k hk' fun hflag => hnot (hw.flagged hflag)
    show (w.tasks k : Multiset Detail.Shard) =
      mine k (w.transferred ++ (w.manager.queues q).transfers ok) + todoTotal config m' k
    rw [hold, hw.todoTotal ht hnot, mine_append]
    ac_rfl

theorem Kept.submit {type : Detail.TaskType} {location : Detail.Location} {pieces : List Piece}
    {parts : List (List Detail.Shard)} (h : Kept config w flags) (ht : Tidy config w.manager flags)
    (hs : Submits config w.manager m' id (makeTask id type location pieces) parts) :
    Kept config (w.after (.submit id type location pieces) m') flags := by
  have hpos : parts.length ≠ 0 := List.length_eq_zero_iff.not.mpr hs.nonempty
  constructor
  case transferred =>
    intro k hk
    show mine k (w.transferred ++ []) = 0
    rw [List.append_nil]
    by_cases hid : k = id
    · subst hid
      exact h.transferred k hs.absent
    · exact h.transferred k ((hs.wait_of_ne hid).symm.trans hk)
  case zeros =>
    intro k
    by_cases hid : k = id
    · subst hid
      have hl := hs.latch_self
      have hz : w.zeros k = 0 := by
        rw [h.zeros k, if_neg]
        exact fun hc => hc.1 hs.absent
      simp only [after, hl, hz, hpos, and_false, if_false]
    · refine zeros_after h ?_ ?_ (ht.absent k)
      · intro hl
        rwa [hs.latch_of_ne hid]
      · rw [hs.wait_of_ne hid]
  case shards =>
    intro k hk hnot
    show (Function.update w.tasks id (makeTask id type location pieces).shards k : Multiset Detail.Shard) =
      mine k (w.transferred ++ []) + todoTotal config m' k
    rw [List.append_nil]
    by_cases hid : k = id
    · subst hid
      rw [Function.update_self, hs.todoTotal_self ht, h.transferred k hs.absent, zero_add]
    · have hk' : w.manager.waits k ≠ .absent := fun habs => hk ((hs.wait_of_ne hid).trans habs)
      rw [Function.update_of_ne hid, hs.todoTotal_of_ne hid]
      exact h.shards k hk' fun hflag => hnot (hs.flagged hflag)

def Inv (config : Config) (w : WatchedManager) : Prop := ∃ flags, Tidy config w.manager flags ∧ Kept config w flags

theorem inv_setup : Inv config (setup config) := by
  refine ⟨∅, ?_, ?_⟩
  · constructor
    case represents => exact HashSet.represents_empty
    case queue => exact fun _ => PosixQueue.orderly_setup _ _
    case unused => exact fun _ _ => rfl
    case parts => exact fun _ hp => absurd hp List.not_mem_nil
    case streams => exact fun hne => absurd rfl hne
    case index => exact Nat.pos_of_ne_zero
    case latch =>
      intro id
      exact (Finset.sum_eq_zero fun _ _ => rfl).symm.trans (Nat.zero_add _).symm
    case absent => exact fun _ _ => rfl
    case known => exact fun _ hk => absurd hk (Finset.notMem_empty _)
    case answered => exact fun _ _ => rfl
    case good => exact fun _ _ => Finset.notMem_empty _
  · exact ⟨fun _ _ => rfl, fun id => (if_neg fun hc => hc.1 rfl).symm, fun id hne => absurd rfl hne⟩

theorem Inv.step (h : Inv config w) (hb : KeepsBuffers w.manager e) (hr : HidesNone config w.manager e)
    (hs : w.step config e = some w') : Inv config w' := by
  obtain ⟨flags, ht, hk⟩ := h
  obtain ⟨m', hm, rfl⟩ := step_eq hs
  cases e with
  | submit id type location pieces =>
    obtain ⟨parts, hsub⟩ := submits_of_step hm
    exact ⟨flags, hsub.tidy ht, hk.submit ht hsub⟩
  | push =>
    obtain ⟨part, parts, hp⟩ := pushes_of_step hm
    refine ⟨flags, hp.tidy ht, hk.of_unmoved ht.absent rfl rfl ?_ ?_ (hp.todoTotal ht) fun _ => hp.flagged⟩
    · rw [hp.eq]
      rfl
    · rw [hp.eq]
      exact fun _ => Iff.rfl
  | work q ok =>
    obtain ⟨queue, effect, hw⟩ := works_of_step hm
    exact ⟨_, hw.tidy ht hb, hk.work ht hw⟩
  | wait id =>
    simp only [TransManager.step] at hm
    split_ifs at hm with hc
    obtain rfl := Option.some.inj hm
    refine ⟨flags, ht.setWait Waiting.noConfusion (by simp) Waiting.noConfusion,
      hk.of_unmoved ht.absent rfl rfl rfl ?_ (fun _ => rfl) ?_⟩
    · intro k
      by_cases hid : k = id
      · subst hid
        simp [hc.1]
      · simp [hid]
    · intro k hf
      rcases hf with hf | hf | hf
      · exact .inl hf
      · exact .inr (.inl hf)
      · refine .inr (.inr ?_)
        rw [setWait_waits, Function.update_of_ne]
        · exact hf
        · rintro rfl
          cases hc.1.symm.trans hf
  | waitNext id expires =>
    obtain ⟨flags', ht', hl, hq, hp, hwa, hf⟩ := (waits_of_step hm).tidy ht hr
    refine ⟨flags', ht', hk.of_unmoved ht.absent rfl rfl hl hwa ?_ hf⟩
    intro k
    rw [todoTotal, todoTotal, hq, hp]

/-- Completion of every task, and what holds of the staging buffers. -/
structure Sound (config : Config) (w : WatchedManager) : Prop where
  zeros_le : ∀ id, w.zeros id ≤ 1
  zeros_iff : ∀ id, w.manager.waits id ≠ .absent → (w.zeros id = 1 ↔ w.manager.latches id = 0)
  quiet : w.manager.Quiet → ∀ id, w.manager.waits id ≠ .absent → w.zeros id = 1
  proceeds : ¬ w.manager.Quiet →
    (w.manager.step config .push).isSome ∨ ∃ q, ∀ ok, (w.manager.step config (.work q ok)).isSome
  ends : ∀ e w', e.internal = true → w.step config e = some w' →
    leftTotal config w'.manager < leftTotal config w.manager
  moved : ∀ id, w.manager.waits id = .returned true →
    ((w.transferred.filter fun s => s.owner == id).map Detail.Shard.unmarked).Perm (w.tasks id)
  synced : ∀ id, w.manager.waits id ≠ .absent → w.manager.latches id = 0 →
    ∀ q, ∀ c ∈ (w.manager.queues q).device.copies, c.1.owner ≠ id
  handsOut : ∀ q ok b, (w.manager.queues q).handsOut ok = some b → ∀ c ∈ (w.manager.queues q).device.copies, c.2 ≠ b
  releases : ∀ q b, (w.manager.queues q).releases = some b → ∀ c ∈ (w.manager.queues q).device.copies, c.2 ≠ b

theorem owedTotal_of_quiet (hq : w.manager.Quiet) (id : Nat) : owedTotal config w.manager id = 0 := by
  have hqueues : ∀ q ∈ Finset.range config.streamNumber, owed id (w.manager.queues q).awaited = 0 := by
    intro q _
    rw [PosixQueue.awaited, (hq.2 q).1, (hq.2 q).2]
    rfl
  rw [owedTotal, hq.1, Finset.sum_eq_zero hqueues]
  rfl

theorem not_flagged (ht : Tidy config w.manager flags) (hw : w.manager.waits id = .returned true) :
    ¬ Flagged w.manager flags id := by
  rintro (hf | ⟨q, hq⟩ | hf)
  · exact ht.good id hw hf
  · by_cases hlt : q < config.streamNumber
    · exact ht.latch_of_blamed hlt hq (ht.answered id (.inr (.inr ⟨true, hw⟩)))
    · rw [ht.unused q (by omega)] at hq
      cases hq
  · cases hw.symm.trans hf

theorem Inv.sound (h : Inv config w) : Sound config w := by
  obtain ⟨flags, ht, hk⟩ := h
  have hiff : ∀ id, w.manager.waits id ≠ .absent → (w.zeros id = 1 ↔ w.manager.latches id = 0) := by
    intro id hna
    rw [hk.zeros id]
    by_cases hl : w.manager.latches id = 0 <;> simp [hna, hl]
  constructor
  case zeros_le =>
    intro id
    rw [hk.zeros id]
    split_ifs <;> omega
  case zeros_iff => exact hiff
  case quiet => exact fun hq id hna => (hiff id hna).mpr ((ht.latch id).trans (owedTotal_of_quiet hq id))
  case proceeds => exact ht.exists_step
  case ends =>
    intro e w' he hs
    obtain ⟨m', hm, rfl⟩ := step_eq hs
    cases e with
    | push =>
      obtain ⟨part, parts, hp⟩ := pushes_of_step hm
      exact hp.left_lt ht
    | work q ok =>
      obtain ⟨queue, effect, hw⟩ := works_of_step hm
      exact hw.left_lt
    | _ => cases he
  case moved =>
    intro id hw
    have hl := ht.answered id (.inr (.inr ⟨true, hw⟩))
    have hna : w.manager.waits id ≠ .absent := by simp [hw]
    have heq := hk.shards id hna (not_flagged ht hw)
    rw [ht.todoTotal_eq_zero hl, add_zero] at heq
    exact Multiset.coe_eq_coe.mp heq.symm
  case synced =>
    intro id _ hl q c hc howner
    by_cases hlt : q < config.streamNumber
    · have hpos := (ht.queue q).owned.owed_pos (ht.queue q).ends hc
      rw [howner, (ht.owed_eq_zero hl).2 q hlt] at hpos
      exact lt_irrefl 0 hpos
    · rw [ht.unused q (by omega)] at hc
      cases hc
  case handsOut => exact fun q ok b hb => (ht.queue q).staged.not_read_of_handsOut hb
  case releases => exact fun q b hb => (ht.queue q).syncsOwn.not_read_of_releases hb

/-- A shard without the callback goes at once, and its buffer with it. -/
theorem not_sound_of_early (hb : ¬ KeepsBuffers w.manager e) (hs : w.step config e = some w') : ¬ Sound config w' := by
  obtain ⟨m', hm, rfl⟩ := step_eq hs
  cases e with
  | work q ok =>
    obtain ⟨shard, hshard⟩ := not_forall.mp hb
    obtain ⟨n, hn⟩ := not_forall.mp hshard
    obtain ⟨hj, hn⟩ := Classical.not_imp.mp hn
    obtain ⟨rfl, hdone⟩ := Classical.not_imp.mp hn
    simp only [TransManager.step] at hm
    split_ifs at hm with hq
    have hsettle := PosixQueue.settle_of_not_done (Bool.eq_false_iff.mpr hdone)
    have hnext : (w.manager.queues q).next (w.manager.failed config) true =
        some (((w.manager.queues q).enqueue shard (.own n)).goto .leaving shard (some (.own n)), .quiet) := by
      rw [PosixQueue.next, hj, ← hsettle]
      rfl
    rw [TransManager.work, hnext] at hm
    obtain rfl := Option.some.inj hm
    intro hsound
    refine hsound.releases q (.own n) ?_ (shard, .own n) ?_ rfl
    · simp [after, PosixQueue.releases]
    · simp [after]
  | _ => exact absurd trivial hb

/-- Every task completes once, with a truthful answer and with its copies synchronised, and no buffer goes
before its copy, in every run that keeps buffers and hides no failure. A run that does not keep a buffer is
not sound any more. -/
theorem sound_of_keepsBuffers (h : Reach (step config)
    (fun w e => KeepsBuffers w.manager e ∧ HidesNone config w.manager e) (setup config) w) :
    Sound config w ∧ ∀ e w', ¬ KeepsBuffers w.manager e → w.step config e = some w' → ¬ Sound config w' :=
  ⟨(h.invariant (Inv config) inv_setup fun _ _ _ hi hg hs => hi.step hg.1 hg.2 hs).sound,
    fun _ _ => not_sound_of_early⟩

/-- Two queues with one slot of eight bytes each. -/
def twoQueues : Config := ⟨2, 8, 1, 30000, fun h => h⟩

def pieces (n : Nat) : List Piece := (List.range n).map fun i => ⟨Vector.replicate 16 0, 8 * i, 64 * i, 8⟩

def readsSlots (w : WatchedManager) : TransManager.Event → Bool
  | .work q _ =>
    match (w.manager.queues q).job with
    | .running .enqueuing _ (some (.own _)) => false
    | _ => true
  | _ => true

def removesNone (w : WatchedManager) : TransManager.Event → Bool
  | .waitNext id _ => w.manager.waits id ≠ .removing
  | _ => true

theorem keepsBuffers_of_readsSlots (w : WatchedManager) (e : TransManager.Event) (h : readsSlots w e = true) :
    KeepsBuffers w.manager e := by
  cases e with
  | work q ok =>
    intro shard n hj _
    simp [readsSlots, hj] at h
  | _ => exact trivial

theorem hidesNone_of_removesNone (w : WatchedManager) (e : TransManager.Event) (h : removesNone w e = true) :
    HidesNone config w.manager e := by
  cases e with
  | waitNext id expires => exact fun hr => absurd hr (of_decide_eq_true h)
  | _ => exact trivial

/-- A load of three shards: the first queue uses its slot twice. -/
def loadsThree : List TransManager.Event :=
  [.submit 1 .load .device (pieces 3), .push, .push] ++ List.replicate 17 (.work 0 true) ++
    List.replicate 9 (.work 1 true) ++ [.wait 1, .waitNext 1 false, .waitNext 1 false]

theorem sound_loadsThree : ∃ w, Reach (step twoQueues)
    (fun w e => KeepsBuffers w.manager e ∧ HidesNone twoQueues w.manager e) (setup twoQueues) w ∧
    w.manager.waits 1 = .returned true ∧ w.zeros 1 = 1 ∧ w.transferred.length = 3 ∧ Sound twoQueues w := by
  have hrun : (run (checked (fun w e => readsSlots w e && removesNone w e) (step twoQueues)) (setup twoQueues)
      loadsThree).any fun w =>
      w.manager.waits 1 = .returned true ∧ w.zeros 1 = 1 ∧ w.transferred.length = 3 := by decide +kernel
  obtain ⟨w, hs, he⟩ := (Option.any_eq_true _ _).mp hrun
  obtain ⟨hwaits, hzeros, hlength⟩ := of_decide_eq_true he
  have hguards : ∀ w e, (readsSlots w e && removesNone w e) = true →
      KeepsBuffers w.manager e ∧ HidesNone twoQueues w.manager e := by
    intro w e h
    obtain ⟨hb, hr⟩ := Bool.and_eq_true_iff.mp h
    exact ⟨keepsBuffers_of_readsSlots w e hb, hidesNone_of_removesNone w e hr⟩
  have hreach := Reach.start.checked hguards hs
  exact ⟨w, hreach, hwaits, hzeros, hlength, (sound_of_keepsBuffers hreach).1⟩

/-- One queue whose slot has four bytes. -/
def smallSlot : Config := ⟨1, 4, 1, 30000, fun h => h⟩

/-- The first of two shards does not fit the slot: its own buffer goes before its copy has ended. -/
theorem oversized_unsound : ∃ w, Reach (step smallSlot) (fun w e => HidesNone smallSlot w.manager e)
    (setup smallSlot) w ∧ ¬ Sound smallSlot w := by
  have hrun : (run (checked removesNone (step smallSlot)) (setup smallSlot)
      ([.submit 1 .load .device (pieces 2), .push] ++ List.replicate 6 (.work 0 true))).any fun w =>
      (w.manager.queues 0).releases = some (.own 0) ∧
        (w.manager.queues 0).device.copies.map Prod.snd = [.own 0] := by decide +kernel
  obtain ⟨w, hs, he⟩ := (Option.any_eq_true _ _).mp hrun
  obtain ⟨hreleases, hcopies⟩ := of_decide_eq_true he
  refine ⟨w, Reach.start.checked (fun w e h => hidesNone_of_removesNone w e h) hs, fun hsound => ?_⟩
  obtain ⟨c, hc, hb⟩ := List.mem_map.mp (hcopies ▸ List.mem_singleton_self (Buffer.own 0))
  exact hsound.releases 0 (.own 0) hreleases c hc hb

/-- The shards of two tasks cannot be read. The first task is removed from the failure set, and the second is
not found there any more. -/
def readsFail : List TransManager.Event :=
  [.submit 1 .load .host (pieces 1), .push, .submit 8193 .load .host (pieces 1), .push] ++
    (List.replicate 2 [true, true, false, true, true, true, true]).flatten.map (.work 0) ++
    [.wait 1, .waitNext 1 false, .waitNext 1 false, .waitNext 1 false, .wait 8193, .waitNext 8193 false,
      .waitNext 8193 false]

theorem hidden_unsound : ∃ w, Reach (step smallSlot) (fun w e => KeepsBuffers w.manager e) (setup smallSlot) w ∧
    ¬ Sound smallSlot w := by
  have hrun : (run (checked readsSlots (step smallSlot)) (setup smallSlot) readsFail).any fun w =>
      w.manager.waits 8193 = .returned true ∧ w.transferred = [] ∧ w.tasks 8193 ≠ [] := by decide +kernel
  obtain ⟨w, hs, he⟩ := (Option.any_eq_true _ _).mp hrun
  obtain ⟨hwaits, hnone, hsome⟩ := of_decide_eq_true he
  refine ⟨w, Reach.start.checked (fun w e h => keepsBuffers_of_readsSlots w e h) hs, fun hsound => hsome ?_⟩
  have hperm := hsound.moved 8193 hwaits
  rw [hnone] at hperm
  exact hperm.nil_eq.symm

/-- A buffer is released under a copy, and a task that failed is answered with OK. -/
theorem not_sound_oversized :
    (¬ ∀ w, Reach (step smallSlot) (fun w e => HidesNone smallSlot w.manager e) (setup smallSlot) w →
      Sound smallSlot w) ∧
    ¬ ∀ w, Reach (step smallSlot) (fun w e => KeepsBuffers w.manager e) (setup smallSlot) w → Sound smallSlot w := by
  constructor
  · intro h
    obtain ⟨w, hreach, hnot⟩ := oversized_unsound
    exact hnot (h w hreach)
  · intro h
    obtain ⟨w, hreach, hnot⟩ := hidden_unsound
    exact hnot (h w hreach)

end WatchedManager

end UnifiedCache.NfsStore
