import UnifiedCache.HashSetRefinement
import UnifiedCache.Lib.Shares
import UnifiedCache.Nfs.StagingBuffers
import UnifiedCache.Nfs.TransManager

/-! What each step of the transfer manager keeps. The latch of a task is the number of callbacks that are
still to come, and the shards of a task that has not failed are moved or still to be moved. -/

namespace UnifiedCache.NfsStore

open Detail (Task TaskType Location LastDone SplitsWell split)
open TransManager

section Parts

variable {id : Nat} {part : List Detail.Shard} {parts : List (List Detail.Shard)}

theorem ends_of_lastDone (howner : ∀ s ∈ part, s.owner = id) (h : LastDone part) : Ends part := by
  induction part with
  | nil => exact trivial
  | cons s part ih =>
    cases part with
    | nil => exact (List.cons.inj h).1
    | cons t rest =>
      refine ⟨.inr ((howner t (by simp)).trans (howner s (by simp)).symm), ih (fun u hu => howner u (by simp [hu])) ?_⟩
      exact (List.cons.inj h).2

theorem owed_of_lastDone (howner : ∀ s ∈ part, s.owner = id) (h : LastDone part) : owed id part = 1 := by
  have hdone : owed id part = (part.map Detail.Shard.done).count true := by
    rw [owed, List.count, List.countP_map]
    refine List.countP_congr fun s hs => ?_
    simp [howner s hs]
  rw [hdone, h, List.count_append, List.count_replicate]
  rfl

theorem owed_flatten (howner : ∀ part ∈ parts, ∀ s ∈ part, s.owner = id) (h : ∀ part ∈ parts, LastDone part) :
    owed id parts.flatten = parts.length := by
  induction parts with
  | nil => rfl
  | cons part parts ih =>
    rw [List.flatten_cons, owed_append, owed_of_lastDone (howner part List.mem_cons_self) (h part List.mem_cons_self),
      ih (fun p hp => howner p (List.mem_cons_of_mem _ hp)) fun p hp => h p (List.mem_cons_of_mem _ hp),
      List.length_cons, Nat.add_comm]

theorem owner_foldl (pieces : List Piece) (task : Task) (h : ∀ s ∈ task.shards, s.owner = task.id) :
    let task' := pieces.foldl (fun task p => task.append p.block p.offset p.address p.length) task
    task'.id = task.id ∧ ∀ s ∈ task'.shards, s.owner = task.id := by
  induction pieces generalizing task with
  | nil => exact ⟨rfl, h⟩
  | cons p pieces ih =>
    refine ih (task.append p.block p.offset p.address p.length) ?_
    intro s hs
    rcases List.mem_append.mp hs with hs | hs
    · exact h s hs
    · rw [List.mem_singleton.mp hs]
      rfl

theorem owner_makeTask (type : TaskType) (location : Location) (pieces : List Piece) :
    ∀ s ∈ (makeTask id type location pieces).shards, s.owner = id :=
  (owner_foldl pieces (Task.make id type location) fun _ hs => absurd hs List.not_mem_nil).2

/-- The parts of a task are its own and end with the callback. -/
theorem owner_of_splitsWell {n : Nat} {task : Task} (h : SplitsWell n task parts)
    (howner : ∀ s ∈ task.shards, s.owner = id) :
    ∀ part ∈ parts, ∀ s ∈ part, s.owner = id := by
  intro part hpart s hs
  have hmem : s.unmarked ∈ task.shards :=
    h.shards ▸ List.mem_map_of_mem (List.mem_flatten.mpr ⟨part, hpart, hs⟩)
  exact howner s.unmarked hmem

theorem mine_of_splitsWell {n : Nat} {task : Task} (h : SplitsWell n task parts)
    (howner : ∀ s ∈ task.shards, s.owner = id) :
    mine id parts.flatten = (task.shards : Multiset Detail.Shard) := by
  have hall : (parts.flatten.filter fun s => s.owner == id) = parts.flatten := by
    refine List.filter_eq_self.mpr fun s hs => ?_
    obtain ⟨part, hpart, hs⟩ := List.mem_flatten.mp hs
    exact beq_iff_eq.mpr (owner_of_splitsWell h howner part hpart s hs)
  rw [mine, hall, h.shards]

theorem mine_of_owner {other : Nat} (howner : ∀ part ∈ parts, ∀ s ∈ part, s.owner = id) (hne : other ≠ id) :
    mine other parts.flatten = 0 := by
  refine mine_eq_zero fun s hs => ?_
  obtain ⟨part, hpart, hs⟩ := List.mem_flatten.mp hs
  rw [howner part hpart s hs]
  exact hne.symm

theorem owed_of_owner {other : Nat} (howner : ∀ part ∈ parts, ∀ s ∈ part, s.owner = id) (hne : other ≠ id) :
    owed other parts.flatten = 0 := by
  refine List.countP_eq_zero.mpr fun s hs => ?_
  obtain ⟨part, hpart, hs⟩ := List.mem_flatten.mp hs
  simp [howner part hpart s hs, hne.symm]

theorem ends_flatten (h : ∀ part ∈ parts, Ends part) : Ends parts.flatten := by
  induction parts with
  | nil => exact trivial
  | cons part parts ih =>
    rw [List.flatten_cons]
    exact (h part List.mem_cons_self).append (ih fun p hp => h p (List.mem_cons_of_mem _ hp))

/-- A task that nobody waits for has no shards here. -/
theorem mine_eq_zero_of_owed {l : List Detail.Shard} (he : Ends l) (h : owed id l = 0) : mine id l = 0 :=
  mine_eq_zero fun s hs howner => absurd (he.owed_pos hs howner) (by omega)

end Parts

namespace TransManager

variable {config : Config} {m m' : TransManager} {id : Nat}

/-- The callbacks of a task that are still to come. -/
def owedTotal (config : Config) (m : TransManager) (id : Nat) : Nat :=
  owed id m.pushing.flatten + ∑ q ∈ Finset.range config.streamNumber, owed id (m.queues q).awaited

/-- The shards of a task that are still to be moved. -/
def todoTotal (config : Config) (m : TransManager) (id : Nat) : Multiset Detail.Shard :=
  mine id m.pushing.flatten + ∑ q ∈ Finset.range config.streamNumber, mine id (m.queues q).todo

/-- What the workers and `Submit` still have to do. -/
def leftTotal (config : Config) (m : TransManager) : Nat :=
  (m.pushing.map fun part => 1 + 13 * part.length).sum + ∑ q ∈ Finset.range config.streamNumber, (m.queues q).left

/-- Nothing is under way. -/
def Quiet (m : TransManager) : Prop := m.pushing = [] ∧ ∀ q, (m.queues q).job = .idle ∧ (m.queues q).backend = []

/-- A task that failed, or is about to be marked. -/
def Flagged (m : TransManager) (flags : Finset Nat) (id : Nat) : Prop :=
  id ∈ flags ∨ (∃ q, (m.queues q).job.blamed = some id) ∨ m.waits id = .returned false

/-- The state of the manager itself. -/
structure Tidy (config : Config) (m : TransManager) (flags : Finset Nat) : Prop where
  represents : HashSet.Represents config.taskIdHasher Config.shardBits m.failureSet flags
  queue : ∀ q, (m.queues q).Orderly
  unused : ∀ q, config.streamNumber ≤ q → m.queues q = .setup config.ioSize config.bufferNumber
  parts : ∀ part ∈ m.pushing, Ends part
  streams : m.pushing ≠ [] → config.streamNumber ≠ 0
  index : config.streamNumber ≠ 0 → m.qIndex < config.streamNumber
  latch : ∀ id, m.latches id = owedTotal config m id
  absent : ∀ id, m.waits id = .absent → m.latches id = 0
  known : ∀ id ∈ flags, m.waits id ≠ .absent
  answered : ∀ id, m.waits id = .checking ∨ m.waits id = .removing ∨ (∃ success, m.waits id = .returned success) →
    m.latches id = 0
  good : ∀ id, m.waits id = .returned true → id ∉ flags

variable {flags : Finset Nat}

theorem Tidy.failed_eq (h : Tidy config m flags) (id : Nat) : m.failed config id = decide (id ∈ flags) :=
  HashSet.contains_represents h.represents id

/-- A task that is about to be marked as failed has a callback to come. -/
theorem Tidy.latch_of_blamed (h : Tidy config m flags) {q : Nat} (hq : q < config.streamNumber)
    (hb : (m.queues q).job.blamed = some id) : m.latches id ≠ 0 := by
  have hpos := PosixQueue.owed_pos_of_blamed (h.queue q).ends (h.queue q).marked hb
  have hle : owed id (m.queues q).awaited ≤ ∑ q ∈ Finset.range config.streamNumber, owed id (m.queues q).awaited :=
    Finset.single_le_sum (f := fun q => owed id (m.queues q).awaited) (fun _ _ => Nat.zero_le _)
      (Finset.mem_range.mpr hq)
  rw [h.latch id, owedTotal]
  omega

/-- Nothing is left of a task whose latch is down. -/
theorem Tidy.owed_eq_zero (h : Tidy config m flags) (hl : m.latches id = 0) :
    owed id m.pushing.flatten = 0 ∧ ∀ q < config.streamNumber, owed id (m.queues q).awaited = 0 := by
  have htotal := (h.latch id).symm.trans hl
  obtain ⟨hp, hs⟩ := Nat.add_eq_zero_iff.mp htotal
  exact ⟨hp, fun q hq => Finset.sum_eq_zero_iff.mp hs q (Finset.mem_range.mpr hq)⟩

theorem Tidy.mine_todo_eq_zero (h : Tidy config m flags) (hl : m.latches id = 0) {q : Nat}
    (hq : q < config.streamNumber) : mine id (m.queues q).todo = 0 :=
  PosixQueue.mine_todo_eq_zero (h.queue q).owned (h.queue q).ends ((h.owed_eq_zero hl).2 q hq)

theorem Tidy.todoTotal_eq_zero (h : Tidy config m flags) (hl : m.latches id = 0) : todoTotal config m id = 0 := by
  have hpushing := mine_eq_zero_of_owed (ends_flatten h.parts) (h.owed_eq_zero hl).1
  have hqueues := Finset.sum_eq_zero fun q hq => h.mine_todo_eq_zero hl (Finset.mem_range.mp hq)
  rw [todoTotal, hpushing, hqueues, add_zero]

section Work

/-- What an effect does to the failure set and to the latches. -/
structure Applied (config : Config) (m m' : TransManager) (effect : Effect) : Prop where
  failureSet : ∀ id, effect = .insert id →
    m.failureSet.insert config.taskIdHasher Config.shardBits id = some m'.failureSet
  unchanged : (∀ id, effect ≠ .insert id) → m'.failureSet = m.failureSet
  latches : ∀ id, m'.latches id = m.latches id - if effect = .done id then 1 else 0
  waits : m'.waits = m.waits
  qIndex : m'.qIndex = m.qIndex
  pushing : m'.pushing = m.pushing
  queues : m'.queues = m.queues

theorem fail_eq (h : m.fail config id = some m') : ∃ failureSet,
    m.failureSet.insert config.taskIdHasher Config.shardBits id = some failureSet ∧
      m' = { m with failureSet := failureSet } := by
  obtain ⟨failureSet, hset, rfl⟩ := Option.map_eq_some_iff.mp h
  exact ⟨failureSet, hset, rfl⟩

theorem applied_of_apply {effect : Effect} (h : m.apply config effect = some m') : Applied config m m' effect := by
  cases effect with
  | quiet =>
    obtain rfl := Option.some.inj h
    exact ⟨by simp, fun _ => rfl, by simp, rfl, rfl, rfl, rfl⟩
  | insert owner =>
    obtain ⟨failureSet, hset, rfl⟩ := fail_eq h
    refine ⟨?_, fun hne => absurd rfl (hne owner), by simp, rfl, rfl, rfl, rfl⟩
    intro id heq
    rw [← Effect.insert.inj heq]
    exact hset
  | done owner =>
    obtain rfl := Option.some.inj h
    refine ⟨by simp, fun _ => rfl, ?_, rfl, rfl, rfl, rfl⟩
    intro id
    by_cases hid : id = owner
    · subst hid
      simp
    · simp [hid, Ne.symm hid]

def flagsAfter (flags : Finset Nat) : Effect → Finset Nat
  | .insert owner => insert owner flags
  | _ => flags

theorem subset_flagsAfter (flags : Finset Nat) (effect : Effect) : flags ⊆ flagsAfter flags effect := by
  cases effect with
  | insert owner => exact Finset.subset_insert owner flags
  | _ => exact Finset.Subset.refl flags

theorem Applied.represents {effect : Effect} (ha : Applied config m m' effect)
    (h : HashSet.Represents config.taskIdHasher Config.shardBits m.failureSet flags) :
    HashSet.Represents config.taskIdHasher Config.shardBits m'.failureSet (flagsAfter flags effect) := by
  cases effect with
  | insert owner =>
    obtain ⟨failureSet, hset, hr⟩ := HashSet.insert_represents h owner
    obtain rfl := Option.some.inj (hset.symm.trans (ha.failureSet owner rfl))
    exact hr
  | quiet =>
    rw [ha.unchanged (by simp)]
    exact h
  | done owner =>
    rw [ha.unchanged (by simp)]
    exact h

/-- One queue takes a step. -/
structure Works (config : Config) (m m' : TransManager) (q : Nat) (ok : Bool) (queue : PosixQueue) (effect : Effect) :
    Prop where
  lt : q < config.streamNumber
  next : PosixQueue.Next (m.failed config) (m.queues q) ok queue effect
  applied : Applied config (m.setQueue q queue) m' effect

theorem works_of_step {q : Nat} {ok : Bool} (h : m.step config (.work q ok) = some m') :
    ∃ queue effect, Works config m m' q ok queue effect := by
  simp only [step] at h
  split_ifs at h with hq
  obtain ⟨⟨queue, effect⟩, hn, ha⟩ := Option.bind_eq_some_iff.mp h
  exact ⟨queue, effect, hq, .of_step hn, applied_of_apply ha⟩

variable {q : Nat} {ok : Bool} {queue : PosixQueue} {effect : Effect}

theorem Works.queues (hw : Works config m m' q ok queue effect) : m'.queues = Function.update m.queues q queue :=
  hw.applied.queues

theorem Works.latches (hw : Works config m m' q ok queue effect) (id : Nat) :
    m'.latches id = m.latches id - if effect = .done id then 1 else 0 := hw.applied.latches id

theorem Works.owedTotal (hw : Works config m m' q ok queue effect) (h : Tidy config m flags) (id : Nat) :
    owedTotal config m id = owedTotal config m' id + if effect = .done id then 1 else 0 := by
  have hsum := sum_update_add (Finset.mem_range.mpr hw.lt) (fun queue => owed id queue.awaited) m.queues queue
  have hone := (hw.next.awaits (h.queue q).marked).owed id
  rw [TransManager.owedTotal, TransManager.owedTotal, hw.queues, hw.applied.pushing]
  simp only [setQueue_pushing] at *
  omega

theorem Works.latch_of_insert (hw : Works config m m' q ok queue (.insert id)) (h : Tidy config m flags) :
    m.latches id ≠ 0 := h.latch_of_blamed hw.lt hw.next.blamed_of_insert

theorem Works.mem_flagsAfter (hw : Works config m m' q ok queue effect) (h : Tidy config m flags)
    (hid : id ∈ flagsAfter flags effect) : id ∈ flags ∨ m.latches id ≠ 0 := by
  cases effect with
  | insert owner =>
    rcases Finset.mem_insert.mp hid with rfl | hid
    · exact .inr (hw.latch_of_insert h)
    · exact .inl hid
  | _ => exact .inl hid

theorem Works.tidy (hw : Works config m m' q ok queue effect) (h : Tidy config m flags)
    (hg : (m.queues q).EnqueuesMarked ok) : Tidy config m' (flagsAfter flags effect) := by
  have hwaits : m'.waits = m.waits := hw.applied.waits
  have hpushing : m'.pushing = m.pushing := hw.applied.pushing
  have hle : ∀ id, m.latches id = 0 → m'.latches id = 0 := by
    intro id hl
    rw [hw.latches id, hl, Nat.zero_sub]
  constructor
  case represents => exact hw.applied.represents h.represents
  case queue =>
    intro k
    rw [hw.queues]
    by_cases hk : k = q
    · subst hk
      rw [Function.update_self]
      exact hw.next.orderly (h.queue k) hg
    · rw [Function.update_of_ne hk]
      exact h.queue k
  case unused =>
    intro k hk
    rw [hw.queues, Function.update_of_ne (by have := hw.lt; omega)]
    exact h.unused k hk
  case parts => exact hpushing ▸ h.parts
  case streams => exact hpushing ▸ h.streams
  case index =>
    have hindex : m'.qIndex = m.qIndex := hw.applied.qIndex
    exact hindex ▸ h.index
  case latch =>
    intro id
    have htotal := hw.owedTotal h id
    rw [hw.latches id, h.latch id, htotal]
    omega
  case absent =>
    intro id ha
    rw [hwaits] at ha
    exact hle id (h.absent id ha)
  case known =>
    intro id hid
    rw [hwaits]
    rcases hw.mem_flagsAfter h hid with hid | hl
    · exact h.known id hid
    · exact fun ha => hl (h.absent id ha)
  case answered =>
    intro id ha
    rw [hwaits] at ha
    exact hle id (h.answered id ha)
  case good =>
    intro id ha hid
    rw [hwaits] at ha
    rcases hw.mem_flagsAfter h hid with hid | hl
    · exact h.good id ha hid
    · exact hl (h.answered id (.inr (.inr ⟨true, ha⟩)))

theorem Works.flagged (hw : Works config m m' q ok queue effect) (hf : Flagged m flags id) :
    Flagged m' (flagsAfter flags effect) id := by
  rcases hf with hf | ⟨k, hk⟩ | hf
  · exact .inl (subset_flagsAfter flags effect hf)
  · by_cases hkq : k = q
    · subst hkq
      obtain rfl := hw.next.insert_of_blamed hk
      exact .inl (Finset.mem_insert_self id flags)
    · refine .inr (.inl ⟨k, ?_⟩)
      rw [hw.queues, Function.update_of_ne hkq]
      exact hk
  · have hwaits : m'.waits = m.waits := hw.applied.waits
    exact .inr (.inr (hwaits ▸ hf))

theorem Works.todoTotal (hw : Works config m m' q ok queue effect) (h : Tidy config m flags)
    (hf : ¬ Flagged m' (flagsAfter flags effect) id) :
    todoTotal config m id = todoTotal config m' id + mine id ((m.queues q).transfers ok) := by
  have hc : m.failed config id = false := by
    rw [h.failed_eq]
    exact decide_eq_false fun hid => hf (.inl (subset_flagsAfter flags effect hid))
  have hsum := sum_update_add (Finset.mem_range.mpr hw.lt) (fun queue => mine id queue.todo) m.queues queue
  have hpushing : m'.pushing = m.pushing := hw.applied.pushing
  rcases hw.next.conserves (h.queue q).owned hc with hb | rfl | heq
  · refine absurd (.inr (.inl ⟨q, ?_⟩)) hf
    rw [hw.queues, Function.update_self]
    exact hb
  · exact absurd (.inl (Finset.mem_insert_self id flags)) hf
  · rw [heq] at hsum
    rw [TransManager.todoTotal, TransManager.todoTotal, hw.queues, hpushing, add_assoc]
    have hcancel : ∑ k ∈ Finset.range config.streamNumber, mine id (m.queues k).todo =
        ∑ k ∈ Finset.range config.streamNumber, mine id (Function.update m.queues q queue k).todo +
          mine id ((m.queues q).transfers ok) := by
      refine add_right_cancel (b := mine id queue.todo) ?_
      rw [← hsum]
      ac_rfl
    rw [hcancel]

end Work

section Submit

variable {type : TaskType} {location : Location} {pieces : List Piece} {parts : List (List Detail.Shard)}

/-- A task is accepted. -/
structure Submits (config : Config) (m m' : TransManager) (id : Nat) (task : Task) (parts : List (List Detail.Shard)) :
    Prop where
  absent : m.waits id = .absent
  idle : m.pushing = []
  streams : config.streamNumber ≠ 0
  well : SplitsWell config.streamNumber task parts
  owner : ∀ s ∈ task.shards, s.owner = id
  nonempty : parts ≠ []
  eq : m' = { m with latches := Function.update m.latches id parts.length, pushing := parts }.setWait id .submitted

theorem submits_of_step (h : m.step config (.submit id type location pieces) = some m') :
    ∃ parts, Submits config m m' id (makeTask id type location pieces) parts := by
  simp only [step] at h
  split_ifs at h with hg
  obtain ⟨p, hsplit, rfl⟩ := Option.map_eq_some_iff.mp h
  have hnum : ¬ min config.streamNumber (makeTask id type location pieces).number = 0 := by
    intro hzero
    rw [split, if_pos hzero] at hsplit
    cases hsplit
  obtain ⟨parts, hparts, hwell⟩ := Detail.split_spec (makeTask id type location pieces) (n := config.streamNumber)
    (by omega) (by omega)
  obtain rfl := Option.some.inj (hparts.symm.trans hsplit)
  refine ⟨parts, hg.1, hg.2, by omega, hwell, owner_makeTask type location pieces, ?_, rfl⟩
  rintro rfl
  have hnil : (makeTask id type location pieces).shards = [] := hwell.shards.symm
  rw [(makeTask id type location pieces).number_eq, hnil] at hnum
  simp at hnum

variable {task : Task} {other : Nat}

theorem Submits.latch_self (hs : Submits config m m' id task parts) : m'.latches id = parts.length := by
  rw [hs.eq]
  exact Function.update_self ..

theorem Submits.latch_of_ne (hs : Submits config m m' id task parts) (hne : other ≠ id) :
    m'.latches other = m.latches other := by
  rw [hs.eq]
  exact Function.update_of_ne hne ..

theorem Submits.wait_self (hs : Submits config m m' id task parts) : m'.waits id = .submitted := by
  rw [hs.eq]
  exact Function.update_self ..

theorem Submits.wait_of_ne (hs : Submits config m m' id task parts) (hne : other ≠ id) :
    m'.waits other = m.waits other := by
  rw [hs.eq]
  exact Function.update_of_ne hne ..

theorem Submits.owners (hs : Submits config m m' id task parts) : ∀ part ∈ parts, ∀ s ∈ part, s.owner = id :=
  owner_of_splitsWell hs.well hs.owner

theorem Submits.owedTotal_self (hs : Submits config m m' id task parts) (h : Tidy config m flags) :
    owedTotal config m' id = parts.length := by
  have hzero := Finset.sum_eq_zero fun q hq =>
    (h.owed_eq_zero (h.absent id hs.absent)).2 q (Finset.mem_range.mp hq)
  have hflat := owed_flatten hs.owners hs.well.lastDone
  rw [owedTotal, hs.eq]
  show owed id parts.flatten + ∑ q ∈ Finset.range config.streamNumber, owed id (m.queues q).awaited = _
  rw [hzero, hflat, Nat.add_zero]

theorem Submits.owedTotal_of_ne (hs : Submits config m m' id task parts) (hne : other ≠ id) :
    owedTotal config m' other = owedTotal config m other := by
  rw [owedTotal, owedTotal, hs.eq, hs.idle]
  show owed other parts.flatten + _ = _
  rw [owed_of_owner hs.owners hne]
  rfl

theorem Submits.todoTotal_self (hs : Submits config m m' id task parts) (h : Tidy config m flags) :
    todoTotal config m' id = (task.shards : Multiset Detail.Shard) := by
  have hzero := Finset.sum_eq_zero fun q hq =>
    h.mine_todo_eq_zero (h.absent id hs.absent) (Finset.mem_range.mp hq)
  rw [todoTotal, hs.eq]
  show mine id parts.flatten + ∑ q ∈ Finset.range config.streamNumber, mine id (m.queues q).todo = _
  rw [hzero, add_zero, mine_of_splitsWell hs.well hs.owner]

theorem Submits.todoTotal_of_ne (hs : Submits config m m' id task parts) (hne : other ≠ id) :
    todoTotal config m' other = todoTotal config m other := by
  rw [todoTotal, todoTotal, hs.eq, hs.idle]
  show mine other parts.flatten + _ = _
  rw [mine_of_owner hs.owners hne]
  rfl

theorem Submits.flagged (hs : Submits config m m' id task parts) (hf : Flagged m flags other) :
    Flagged m' flags other := by
  rcases hf with hf | ⟨q, hq⟩ | hf
  · exact .inl hf
  · refine .inr (.inl ⟨q, ?_⟩)
    rw [hs.eq]
    exact hq
  · refine .inr (.inr ?_)
    rw [hs.wait_of_ne ?_]
    · exact hf
    · rintro rfl
      cases hs.absent.symm.trans hf

theorem Submits.tidy (hs : Submits config m m' id task parts) (h : Tidy config m flags) : Tidy config m' flags := by
  constructor
  case represents =>
    rw [hs.eq]
    exact h.represents
  case queue =>
    rw [hs.eq]
    exact h.queue
  case unused =>
    rw [hs.eq]
    exact h.unused
  case parts =>
    rw [hs.eq]
    exact fun part hp => ends_of_lastDone (hs.owners part hp) (hs.well.lastDone part hp)
  case streams => exact fun _ => hs.streams
  case index =>
    rw [hs.eq]
    exact h.index
  case latch =>
    intro k
    by_cases hk : k = id
    · subst hk
      rw [hs.latch_self, hs.owedTotal_self h]
    · rw [hs.latch_of_ne hk, hs.owedTotal_of_ne hk, h.latch k]
  case absent =>
    intro k ha
    by_cases hk : k = id
    · subst hk
      cases hs.wait_self.symm.trans ha
    · rw [hs.latch_of_ne hk]
      exact h.absent k ((hs.wait_of_ne hk).symm.trans ha)
  case known =>
    intro k hflag
    by_cases hk : k = id
    · subst hk
      exact absurd hs.absent (h.known k hflag)
    · rw [hs.wait_of_ne hk]
      exact h.known k hflag
  case answered =>
    intro k ha
    by_cases hk : k = id
    · subst hk
      rw [hs.wait_self] at ha
      simp at ha
    · rw [hs.wait_of_ne hk] at ha
      rw [hs.latch_of_ne hk]
      exact h.answered k ha
  case good =>
    intro k ha
    by_cases hk : k = id
    · subst hk
      cases hs.wait_self.symm.trans ha
    · exact h.good k ((hs.wait_of_ne hk).symm.trans ha)

end Submit

section Push

/-- A part goes to its queue. -/
structure Pushes (config : Config) (m m' : TransManager) (part : List Detail.Shard) (parts : List (List Detail.Shard)) :
    Prop where
  pushing : m.pushing = part :: parts
  eq : m' = { m.setQueue m.qIndex ((m.queues m.qIndex).push part) with
    qIndex := if m.qIndex + 1 = config.streamNumber then 0 else m.qIndex + 1
    pushing := parts }

theorem pushes_of_step (h : m.step config .push = some m') : ∃ part parts, Pushes config m m' part parts := by
  simp only [step, push] at h
  cases hp : m.pushing with
  | nil => simp [hp] at h
  | cons part parts =>
    rw [hp] at h
    exact ⟨part, parts, hp, (Option.some.inj h).symm⟩

variable {part : List Detail.Shard} {parts : List (List Detail.Shard)}

theorem Pushes.index_lt (hp : Pushes config m m' part parts) (h : Tidy config m flags) :
    m.qIndex < config.streamNumber := by
  refine h.index (h.streams ?_)
  rw [hp.pushing]
  exact List.cons_ne_nil part parts

theorem Pushes.owedTotal (hp : Pushes config m m' part parts) (h : Tidy config m flags) (id : Nat) :
    owedTotal config m' id = owedTotal config m id := by
  have hsum := sum_update_add (Finset.mem_range.mpr (hp.index_lt h)) (fun queue => owed id queue.awaited) m.queues
    ((m.queues m.qIndex).push part)
  rw [PosixQueue.awaited_push, owed_append] at hsum
  rw [TransManager.owedTotal, TransManager.owedTotal, hp.pushing, hp.eq, List.flatten_cons, owed_append]
  show owed id parts.flatten + ∑ q ∈ Finset.range config.streamNumber,
    owed id (Function.update m.queues m.qIndex ((m.queues m.qIndex).push part) q).awaited = _
  omega

theorem Pushes.todoTotal (hp : Pushes config m m' part parts) (h : Tidy config m flags) (id : Nat) :
    todoTotal config m' id = todoTotal config m id := by
  have hsum := sum_update_add (Finset.mem_range.mpr (hp.index_lt h)) (fun queue => mine id queue.todo) m.queues
    ((m.queues m.qIndex).push part)
  rw [PosixQueue.mine_todo_push] at hsum
  rw [TransManager.todoTotal, TransManager.todoTotal, hp.pushing, hp.eq, List.flatten_cons, mine_append]
  show mine id parts.flatten + ∑ q ∈ Finset.range config.streamNumber,
    mine id (Function.update m.queues m.qIndex ((m.queues m.qIndex).push part) q).todo = _
  refine add_right_cancel (b := mine id (m.queues m.qIndex).todo) ?_
  rw [add_assoc, hsum]
  ac_rfl

theorem Pushes.flagged {id : Nat} (hp : Pushes config m m' part parts) (hf : Flagged m flags id) :
    Flagged m' flags id := by
  rcases hf with hf | ⟨q, hq⟩ | hf
  · exact .inl hf
  · refine .inr (.inl ⟨q, ?_⟩)
    rw [hp.eq]
    show (Function.update m.queues m.qIndex ((m.queues m.qIndex).push part) q).job.blamed = _
    by_cases hk : q = m.qIndex
    · subst hk
      rw [Function.update_self]
      exact hq
    · rw [Function.update_of_ne hk]
      exact hq
  · refine .inr (.inr ?_)
    rw [hp.eq]
    exact hf

theorem Pushes.tidy (hp : Pushes config m m' part parts) (h : Tidy config m flags) : Tidy config m' flags := by
  have hends := h.parts
  rw [hp.pushing] at hends
  have hlt := hp.index_lt h
  constructor
  case represents =>
    rw [hp.eq]
    exact h.represents
  case queue =>
    intro k
    rw [hp.eq]
    show (Function.update m.queues m.qIndex ((m.queues m.qIndex).push part) k).Orderly
    by_cases hk : k = m.qIndex
    · subst hk
      rw [Function.update_self]
      exact (h.queue _).push (hends part List.mem_cons_self)
    · rw [Function.update_of_ne hk]
      exact h.queue k
  case unused =>
    intro k hk
    rw [hp.eq]
    show Function.update m.queues m.qIndex ((m.queues m.qIndex).push part) k = _
    rw [Function.update_of_ne (by omega)]
    exact h.unused k hk
  case parts =>
    rw [hp.eq]
    exact fun p hmem => hends p (List.mem_cons_of_mem part hmem)
  case streams => exact fun _ => by omega
  case index =>
    intro hne
    rw [hp.eq]
    show (if m.qIndex + 1 = config.streamNumber then 0 else m.qIndex + 1) < config.streamNumber
    split_ifs <;> omega
  case latch =>
    intro k
    rw [hp.owedTotal h k, hp.eq]
    exact h.latch k
  case absent =>
    rw [hp.eq]
    exact h.absent
  case known =>
    rw [hp.eq]
    exact h.known
  case answered =>
    rw [hp.eq]
    exact h.answered
  case good =>
    rw [hp.eq]
    exact h.good

end Push

section Wait

/-- A caller goes on. -/
theorem Tidy.setWait (h : Tidy config m flags) {w : Waiting} (hw : w ≠ .absent)
    (hl : w = .checking ∨ w = .removing ∨ (∃ success, w = .returned success) → m.latches id = 0)
    (hg : w = .returned true → id ∉ flags) : Tidy config (m.setWait id w) flags := by
  have hcases : ∀ k v, (m.setWait id w).waits k = v → k = id ∧ v = w ∨ m.waits k = v := by
    intro k v hv
    by_cases hk : k = id
    · subst hk
      rw [setWait_waits, Function.update_self] at hv
      exact .inl ⟨rfl, hv.symm⟩
    · rw [setWait_waits, Function.update_of_ne hk] at hv
      exact .inr hv
  constructor
  case represents => exact h.represents
  case queue => exact h.queue
  case unused => exact h.unused
  case parts => exact h.parts
  case streams => exact h.streams
  case index => exact h.index
  case latch => exact h.latch
  case absent =>
    intro k ha
    rcases hcases k _ ha with ⟨-, heq⟩ | ha
    · exact absurd heq.symm hw
    · exact h.absent k ha
  case known =>
    intro k hflag ha
    rcases hcases k _ ha with ⟨-, heq⟩ | ha
    · exact absurd heq.symm hw
    · exact h.known k hflag ha
  case answered =>
    intro k ha
    by_cases hk : k = id
    · subst hk
      rw [setWait_waits, Function.update_self] at ha
      exact hl ha
    · rw [setWait_waits, Function.update_of_ne hk] at ha
      exact h.answered k ha
  case good =>
    intro k ha
    rcases hcases k _ ha with ⟨rfl, heq⟩ | ha
    · exact hg heq.symm
    · exact h.good k ha

/-- A caller whose time has run out marks its task as failed. -/
theorem Tidy.fail (h : Tidy config m flags) (hf : m.fail config id = some m') (hw : m.waits id = .expired) :
    Tidy config m' (insert id flags) := by
  obtain ⟨failureSet, hset, rfl⟩ := fail_eq hf
  obtain ⟨failureSet', hset', hr⟩ := HashSet.insert_represents h.represents id
  obtain rfl := Option.some.inj (hset.symm.trans hset')
  constructor
  case represents => exact hr
  case queue => exact h.queue
  case unused => exact h.unused
  case parts => exact h.parts
  case streams => exact h.streams
  case index => exact h.index
  case latch => exact h.latch
  case absent => exact h.absent
  case known =>
    intro k hflag
    rcases Finset.mem_insert.mp hflag with rfl | hflag
    · show m.waits k ≠ .absent
      rw [hw]
      exact Waiting.noConfusion
    · exact h.known k hflag
  case answered => exact h.answered
  case good =>
    intro k ha hflag
    rcases Finset.mem_insert.mp hflag with rfl | hflag
    · cases hw.symm.trans ha
    · exact h.good k ha hflag

/-- A task that failed is forgotten once its caller has seen it. -/
theorem Tidy.remove (h : Tidy config m flags)
    (hs : HashSet.RemovalSafe config.taskIdHasher Config.shardBits m.failureSet id) :
    Tidy config { m with failureSet := m.failureSet.remove config.taskIdHasher Config.shardBits id }
      (flags.erase id) where
  represents := HashSet.remove_represents h.represents id hs
  queue := h.queue
  unused := h.unused
  parts := h.parts
  streams := h.streams
  index := h.index
  latch := h.latch
  absent := h.absent
  known := fun k hk => h.known k (Finset.mem_of_mem_erase hk)
  answered := h.answered
  good := fun k ha hk => h.good k ha (Finset.mem_of_mem_erase hk)

end Wait

end TransManager

end UnifiedCache.NfsStore
