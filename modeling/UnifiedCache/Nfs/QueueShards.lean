import UnifiedCache.Nfs.PosixQueue

/-! The shards of one queue. Those that its worker still has to finish come in parts that end with the
callback, the copies under way are of the part that it is at, and a shard is not lost unless its task is to
be marked as failed. -/

namespace UnifiedCache.NfsStore

/-- Every shard without the callback is followed by one of the same task. -/
def Ends : List Detail.Shard → Prop
  | [] => True
  | [s] => s.done = true
  | s :: t :: rest => (s.done = true ∨ t.owner = s.owner) ∧ Ends (t :: rest)

variable {s : Detail.Shard} {l l' : List Detail.Shard} {id : Nat}

theorem Ends.tail (h : Ends (s :: l)) : Ends l := by
  cases l with
  | nil => exact trivial
  | cons t rest => exact h.2

theorem Ends.append (h : Ends l) (h' : Ends l') : Ends (l ++ l') := by
  induction l with
  | nil => exact h'
  | cons s l ih =>
    cases l with
    | nil =>
      cases l' with
      | nil => exact h
      | cons t l' => exact ⟨.inl h, h'⟩
    | cons t l => exact ⟨h.1, ih h.2⟩

theorem Ends.exists_done (h : Ends (s :: l)) : ∃ t ∈ s :: l, t.done = true ∧ t.owner = s.owner := by
  induction l generalizing s with
  | nil => exact ⟨s, List.mem_cons_self, h, rfl⟩
  | cons t l ih =>
    rcases h.1 with hs | hs
    · exact ⟨s, List.mem_cons_self, hs, rfl⟩
    · obtain ⟨u, hu, hdone, howner⟩ := ih h.2
      exact ⟨u, List.mem_cons_of_mem s hu, hdone, howner.trans hs⟩

theorem Ends.head (h : Ends (s :: l)) (hs : s.done = false) : ∃ t ∈ l.head?, t.owner = s.owner := by
  cases l with
  | nil => cases hs.symm.trans h
  | cons t l => exact ⟨t, rfl, h.1.resolve_left (by simp [hs])⟩

/-- The callbacks of a task among these shards. -/
def owed (id : Nat) (l : List Detail.Shard) : Nat := l.countP fun s => s.done && s.owner == id

@[simp]
theorem owed_nil : owed id [] = 0 := rfl

theorem owed_append : owed id (l ++ l') = owed id l + owed id l' := List.countP_append

theorem owed_cons : owed id (s :: l) = owed id l + if s.done = true ∧ s.owner = id then 1 else 0 := by
  simp [owed, List.countP_cons]

theorem owed_pos (hs : s ∈ l) (hdone : s.done = true) (howner : s.owner = id) : 0 < owed id l :=
  List.countP_pos_iff.mpr ⟨s, hs, by simp [hdone, howner]⟩

theorem Ends.owed_pos (h : Ends l) (hs : s ∈ l) (howner : s.owner = id) : 0 < owed id l := by
  induction l with
  | nil => cases hs
  | cons t l ih =>
    rcases List.mem_cons.mp hs with rfl | hs
    · obtain ⟨u, hu, hdone, heq⟩ := h.exists_done
      exact NfsStore.owed_pos hu hdone (heq.trans howner)
    · rw [owed_cons]
      exact Nat.add_pos_left (ih h.tail hs) _

/-- The shards of a task among these. -/
def mine (id : Nat) (l : List Detail.Shard) : Multiset Detail.Shard :=
  ↑((l.filter fun s => s.owner == id).map Detail.Shard.unmarked)

@[simp]
theorem mine_nil : mine id [] = 0 := rfl

theorem mine_append : mine id (l ++ l') = mine id l + mine id l' := by
  simp only [mine, List.filter_append, List.map_append, Multiset.coe_add]

theorem mine_eq_zero (h : ∀ s ∈ l, s.owner ≠ id) : mine id l = 0 := by
  have hnil : (l.filter fun s => s.owner == id) = [] := by simpa using h
  rw [mine, hnil]
  rfl

theorem owner_ne_of_mine (h : mine id l = 0) (hs : s ∈ l) : s.owner ≠ id := by
  intro howner
  have hmem : s ∈ l.filter fun s => s.owner == id := List.mem_filter.mpr ⟨hs, beq_iff_eq.mpr howner⟩
  exact List.ne_nil_of_mem (List.mem_map_of_mem hmem) (Multiset.coe_eq_zero _ |>.mp h)

/-- Before `Done` has decided whether the shard synchronises. -/
def Stage.early : Stage → Bool
  | .syncing => false
  | .blaming => false
  | .finishing => false
  | .leaving => false
  | _ => true

/-- The steps that the worker still makes for its shard. -/
def Stage.left : Stage → Nat
  | .checking => 12
  | .getting => 11
  | .recycling => 10
  | .taking => 9
  | .copying => 8
  | .writing => 7
  | .reading => 7
  | .enqueuing => 6
  | .failing => 5
  | .syncing => 4
  | .blaming => 3
  | .finishing => 2
  | .leaving => 1

def Job.left : Job → Nat
  | .idle => 0
  | .running stage _ _ => stage.left

/-- Before the shard gets its buffer. -/
def Stage.bufferless : Stage → Bool
  | .checking => true
  | .getting => true
  | .recycling => true
  | .taking => true
  | _ => false

/-- The worker still comes to `shard.done()`, if the shard has it. -/
def Job.awaited : Job → List Detail.Shard
  | .running .leaving _ _ => []
  | .running _ shard _ => [shard]
  | .idle => []

/-- The worker still comes to the `Synchronized` in `Done`, if the shard has the callback. -/
def Job.unsynced : Job → List Detail.Shard
  | .running .syncing shard _ => [shard]
  | .running stage shard _ => if stage.early then [shard] else []
  | .idle => []

/-- The shard has not been moved. -/
def Job.todo : Job → List Detail.Shard
  | .running stage shard _ => if stage.early then [shard] else []
  | .idle => []

/-- The task that the worker is about to mark as failed. -/
def Job.blamed : Job → Option Nat
  | .running .failing shard _ => some shard.owner
  | .running .blaming shard _ => some shard.owner
  | _ => none

namespace PosixQueue

def awaited (q : PosixQueue) : List Detail.Shard := q.job.awaited ++ q.backend

def unsynced (q : PosixQueue) : List Detail.Shard := q.job.unsynced ++ q.backend

def todo (q : PosixQueue) : List Detail.Shard := q.device.copies.map Prod.fst ++ q.job.todo ++ q.backend

variable {contains : Nat → Bool} {q q' : PosixQueue} {ok : Bool} {effect : Effect} {stage : Stage}
  {shard : Detail.Shard} {buffer : Option Buffer}

/-- What a step of the worker does. -/
inductive Next (contains : Nat → Bool) (q : PosixQueue) (ok : Bool) : PosixQueue → Effect → Prop
  | pop {shard : Detail.Shard} {backend : List Detail.Shard} (hj : q.job = .idle) (hb : q.backend = shard :: backend) :
      Next contains q ok ({ q with backend := backend }.goto .checking shard none) .quiet
  | skip {shard : Detail.Shard} {buffer : Option Buffer} (hj : q.job = .running .checking shard buffer)
      (hc : contains shard.owner = true) : Next contains q ok (q.goto (settle shard) shard buffer) .quiet
  | advance {stage stage' : Stage} {shard : Detail.Shard} {buffer : Option Buffer}
      (hj : q.job = .running stage shard buffer) (hs : stage.early = true) (hs' : stage'.early = true)
      (hr : stage' = .reading → shard.location = .host)
      (he : stage' = .enqueuing → stage = .reading ∧ shard.location = .device)
      (hb : stage'.bufferless = true → stage.bufferless = true) (hn : stage ≠ .failing) (hl : stage'.left < stage.left)
      (ht : q.transfers ok = []) : Next contains q ok (q.goto stage' shard buffer) .quiet
  | recycled {shard : Detail.Shard} {buffer : Option Buffer} (hj : q.job = .running .recycling shard buffer)
      (hok : ok = true) : Next contains q ok (q.synchronized.recycle.goto .taking shard buffer) .quiet
  | stuck {shard : Detail.Shard} {buffer : Option Buffer} (hj : q.job = .running .recycling shard buffer)
      (hok : ok = false) : Next contains q ok (q.synchronized.goto .failing shard buffer) .quiet
  | takeSlot {shard : Detail.Shard} {buffer : Option Buffer} (hj : q.job = .running .taking shard buffer) :
      Next contains q ok (q.getSlot.goto (transfer shard) shard (some (.slot q.device.buffer.index))) .quiet
  | takeNull {shard : Detail.Shard} {buffer : Option Buffer} (hj : q.job = .running .taking shard buffer) :
      Next contains q ok (q.getSlot.goto .failing shard none) .quiet
  | takeOwn {shard : Detail.Shard} {buffer : Option Buffer} (hj : q.job = .running .taking shard buffer) :
      Next contains q ok (q.makeBuffer.goto (transfer shard) shard (some (.own q.device.made))) .quiet
  | takeNone {shard : Detail.Shard} {buffer : Option Buffer} (hj : q.job = .running .taking shard buffer) :
      Next contains q ok (q.goto .failing shard none) .quiet
  | moved {stage : Stage} {shard : Detail.Shard} {buffer : Option Buffer} (hj : q.job = .running stage shard buffer)
      (hs : stage = .writing ∨ stage = .reading ∧ shard.location = .host) (hok : ok = true)
      (ht : q.transfers ok = [shard]) :
      Next contains q ok (q.goto (settle shard) shard buffer) .quiet
  | enqueued {shard : Detail.Shard} {b : Buffer} (hj : q.job = .running .enqueuing shard (some b)) (hok : ok = true) :
      Next contains q ok ((q.enqueue shard b).goto (settle shard) shard (some b)) .quiet
  | failed {shard : Detail.Shard} {buffer : Option Buffer} (hj : q.job = .running .failing shard buffer) :
      Next contains q ok (q.goto (settle shard) shard buffer) (.insert shard.owner)
  | synced {shard : Detail.Shard} {buffer : Option Buffer} (hj : q.job = .running .syncing shard buffer)
      (hok : ok = true) : Next contains q ok (q.synchronized.goto .finishing shard buffer) .quiet
  | unsynced {shard : Detail.Shard} {buffer : Option Buffer} (hj : q.job = .running .syncing shard buffer)
      (hok : ok = false) : Next contains q ok (q.synchronized.goto .blaming shard buffer) .quiet
  | blamed {shard : Detail.Shard} {buffer : Option Buffer} (hj : q.job = .running .blaming shard buffer) :
      Next contains q ok (q.goto .finishing shard buffer) (.insert shard.owner)
  | finished {shard : Detail.Shard} {buffer : Option Buffer} (hj : q.job = .running .finishing shard buffer) :
      Next contains q ok (q.goto .leaving shard buffer) (.done shard.owner)
  | left {shard : Detail.Shard} {buffer : Option Buffer} (hj : q.job = .running .leaving shard buffer) :
      Next contains q ok { q with job := .idle } .quiet

theorem Next.of_take (hj : q.job = .running .taking shard buffer) : Next contains q ok (q.take ok shard) .quiet := by
  unfold take
  split_ifs with ha hok
  · cases hg : q.device.buffer.addr with
    | true =>
      simp only [LinearBuffer.get, hg]
      exact .takeSlot hj
    | false =>
      simp only [LinearBuffer.get, hg]
      exact .takeNull hj
  · exact .takeOwn hj
  · exact .takeNone hj

theorem Next.of_start (hj : q.job = .running .checking shard buffer) :
    Next contains q ok (q.goto (start shard) shard buffer) .quiet := by
  refine .advance hj rfl ?_ ?_ ?_ (fun _ => rfl) Stage.noConfusion ?_ (by simp [transfers, hj])
  all_goals
    unfold start
    cases shard.location <;> cases shard.type <;> simp [Stage.early, Stage.left]

theorem Next.of_fail (hj : q.job = .running stage shard buffer) (hs : stage.early = true) (hn : stage ≠ .failing)
    (ht : q.transfers ok = []) : Next contains q ok (q.goto .failing shard buffer) .quiet := by
  refine .advance hj hs rfl Stage.noConfusion Stage.noConfusion Bool.noConfusion hn ?_ ht
  cases stage <;> simp_all [Stage.early, Stage.left]

theorem Next.of_step (h : q.next contains ok = some (q', effect)) : Next contains q ok q' effect := by
  unfold next at h
  cases hj : q.job with
  | idle =>
    cases hb : q.backend with
    | nil => simp [hj, hb] at h
    | cons shard backend =>
      simp only [hj, hb, Option.some.injEq, Prod.mk.injEq] at h
      obtain ⟨rfl, rfl⟩ := h
      exact .pop hj hb
  | running stage shard buffer =>
    simp only [hj] at h
    cases stage with
    | checking =>
      obtain ⟨rfl, rfl⟩ := Prod.mk.inj (Option.some.inj h)
      by_cases hc : contains shard.owner = true
      · rw [if_pos hc]
        exact .skip hj hc
      · rw [if_neg hc]
        exact .of_start hj
    | getting =>
      obtain ⟨rfl, rfl⟩ := Prod.mk.inj (Option.some.inj h)
      have ht : q.transfers ok = [] := by simp [transfers, hj]
      cases q.device.buffer.full with
      | true =>
        exact .advance hj rfl rfl Stage.noConfusion Stage.noConfusion (fun _ => rfl) Stage.noConfusion
          (Nat.lt_succ_self 10) ht
      | false =>
        refine .advance hj rfl rfl Stage.noConfusion Stage.noConfusion (fun _ => rfl) Stage.noConfusion ?_ ht
        exact Nat.lt_add_of_pos_right Nat.two_pos
    | recycling =>
      obtain ⟨rfl, rfl⟩ := Prod.mk.inj (Option.some.inj h)
      cases ok with
      | true => exact .recycled hj rfl
      | false => exact .stuck hj rfl
    | taking =>
      obtain ⟨rfl, rfl⟩ := Prod.mk.inj (Option.some.inj h)
      exact .of_take hj
    | copying =>
      obtain ⟨rfl, rfl⟩ := Prod.mk.inj (Option.some.inj h)
      have ht : q.transfers ok = [] := by simp [transfers, hj]
      cases ok with
      | true =>
        exact .advance hj rfl rfl Stage.noConfusion Stage.noConfusion Bool.noConfusion Stage.noConfusion
          (Nat.lt_succ_self 7) ht
      | false => exact .of_fail hj rfl Stage.noConfusion ht
    | writing =>
      obtain ⟨rfl, rfl⟩ := Prod.mk.inj (Option.some.inj h)
      cases ok with
      | true => exact .moved hj (.inl rfl) rfl (by simp [transfers, hj])
      | false => exact .of_fail hj rfl Stage.noConfusion (by simp [transfers, hj])
    | reading =>
      obtain ⟨rfl, rfl⟩ := Prod.mk.inj (Option.some.inj h)
      cases ok with
      | true =>
        cases hl : shard.location with
        | host => exact .moved hj (.inr ⟨rfl, hl⟩) rfl (by simp [transfers, hj, hl])
        | device =>
          exact .advance hj rfl rfl Stage.noConfusion (fun _ => ⟨rfl, hl⟩) Bool.noConfusion Stage.noConfusion
            (Nat.lt_succ_self 6) (by simp [transfers, hj, hl])
      | false => exact .of_fail hj rfl Stage.noConfusion (by simp [transfers, hj])
    | enqueuing =>
      cases buffer with
      | none => cases h
      | some b =>
        obtain ⟨rfl, rfl⟩ := Prod.mk.inj (Option.some.inj h)
        cases ok with
        | true => exact .enqueued hj rfl
        | false => exact .of_fail hj rfl Stage.noConfusion (by simp [transfers, hj])
    | failing =>
      obtain ⟨rfl, rfl⟩ := Prod.mk.inj (Option.some.inj h)
      exact .failed hj
    | syncing =>
      obtain ⟨rfl, rfl⟩ := Prod.mk.inj (Option.some.inj h)
      cases ok with
      | true => exact .synced hj rfl
      | false => exact .unsynced hj rfl
    | blaming =>
      obtain ⟨rfl, rfl⟩ := Prod.mk.inj (Option.some.inj h)
      exact .blamed hj
    | finishing =>
      obtain ⟨rfl, rfl⟩ := Prod.mk.inj (Option.some.inj h)
      exact .finished hj
    | leaving =>
      obtain ⟨rfl, rfl⟩ := Prod.mk.inj (Option.some.inj h)
      exact .left hj

/-- A shard that `Done` has seen has the callback until the worker leaves it. -/
def Marked (q : PosixQueue) : Prop :=
  ∀ stage shard buffer, q.job = .running stage shard buffer → stage.early = false → stage ≠ .leaving → shard.done = true

theorem settle_of_done (h : shard.done = true) : settle shard = .syncing := if_pos h

theorem settle_of_not_done (h : shard.done = false) : settle shard = .leaving := if_neg (by simp [h])

theorem settle_late : (settle shard).early = false := by
  unfold settle
  split_ifs <;> rfl

theorem early_transfer : (transfer shard).early = true := by
  unfold transfer
  cases shard.type <;> rfl

theorem early_of_moves (hs : stage = .writing ∨ stage = .reading ∧ shard.location = .host) : stage.early = true := by
  rcases hs with rfl | ⟨rfl, -⟩ <;> rfl

theorem awaited_early (hj : q.job = .running stage shard buffer) (hs : stage.early = true) :
    q.awaited = shard :: q.backend := by
  rw [awaited, hj]
  cases stage <;> first | rfl | cases hs

theorem unsynced_early (hj : q.job = .running stage shard buffer) (hs : stage.early = true) :
    q.unsynced = shard :: q.backend := by
  rw [PosixQueue.unsynced, hj]
  cases stage <;> first | rfl | cases hs

/-- What a shard leaves to do once it is settled. -/
theorem awaited_settle (hj : q.job = .running (settle shard) shard buffer) :
    shard.done = true ∧ q.awaited = shard :: q.backend ∨ shard.done = false ∧ q.awaited = q.backend := by
  cases hdone : shard.done with
  | true =>
    rw [settle_of_done hdone] at hj
    exact .inl ⟨rfl, by rw [awaited, hj]; rfl⟩
  | false =>
    rw [settle_of_not_done hdone] at hj
    exact .inr ⟨rfl, by rw [awaited, hj]; rfl⟩

theorem unsynced_settle (hj : q.job = .running (settle shard) shard buffer) :
    shard.done = true ∧ q.unsynced = shard :: q.backend ∨ shard.done = false ∧ q.unsynced = q.backend := by
  cases hdone : shard.done with
  | true =>
    rw [settle_of_done hdone] at hj
    exact .inl ⟨rfl, by rw [PosixQueue.unsynced, hj]; rfl⟩
  | false =>
    rw [settle_of_not_done hdone] at hj
    exact .inr ⟨rfl, by rw [PosixQueue.unsynced, hj]; rfl⟩

/-- How the shards that are awaited change. -/
inductive Awaits (q q' : PosixQueue) : Effect → Prop
  | same {effect : Effect} (he : ∀ id, effect ≠ .done id) (h : q'.awaited = q.awaited) : Awaits q q' effect
  | drop {effect : Effect} {s : Detail.Shard} (he : ∀ id, effect ≠ .done id) (h : q.awaited = s :: q'.awaited)
      (hs : s.done = false) : Awaits q q' effect
  | done {s : Detail.Shard} (h : q.awaited = s :: q'.awaited) (hs : s.done = true) : Awaits q q' (.done s.owner)

theorem Awaits.owed (h : Awaits q q' effect) (id : Nat) :
    NfsStore.owed id q.awaited = NfsStore.owed id q'.awaited + if effect = .done id then 1 else 0 := by
  cases h with
  | same he hq => rw [hq, if_neg (he id), Nat.add_zero]
  | drop he hq hs => rw [hq, owed_cons, if_neg (by simp [hs]), if_neg (he id)]
  | done hq hs => simp only [hq, owed_cons, hs, true_and, Effect.done.injEq]

theorem Awaits.of_settle (hj : q.job = .running stage shard buffer) (hs : stage.early = true)
    (hj' : q'.job = .running (settle shard) shard buffer) (hb : q'.backend = q.backend)
    (he : ∀ id, effect ≠ .done id) : Awaits q q' effect := by
  have hq := awaited_early hj hs
  rcases awaited_settle hj' with ⟨-, hq'⟩ | ⟨hdone, hq'⟩
  · exact .same he (by rw [hq', hb, hq])
  · exact .drop he (by rw [hq', hb, hq]) hdone

theorem Awaits.of_early {stage' : Stage} {buffer' : Option Buffer} (hj : q.job = .running stage shard buffer)
    (hs : stage.early = true) (hj' : q'.job = .running stage' shard buffer') (hs' : stage'.early = true)
    (hb : q'.backend = q.backend) (he : ∀ id, effect ≠ .done id) : Awaits q q' effect :=
  .same he (by rw [awaited_early hj' hs', hb, awaited_early hj hs])

theorem Next.awaits (h : Next contains q ok q' effect) (hm : q.Marked) : Awaits q q' effect := by
  cases h with
  | pop hj hb => exact .same (by simp) (by rw [awaited, awaited, hj, hb]; rfl)
  | skip hj hc => exact .of_settle hj rfl rfl rfl (by simp)
  | advance hj hs hs' => exact .of_early hj hs rfl hs' rfl (by simp)
  | recycled hj hok => exact .of_early hj rfl rfl rfl rfl (by simp)
  | stuck hj hok => exact .of_early hj rfl rfl rfl rfl (by simp)
  | takeSlot hj => exact .of_early hj rfl rfl early_transfer rfl (by simp)
  | takeNull hj => exact .of_early hj rfl rfl rfl rfl (by simp)
  | takeOwn hj => exact .of_early hj rfl rfl early_transfer rfl (by simp)
  | takeNone hj => exact .of_early hj rfl rfl rfl rfl (by simp)
  | moved hj hs => exact .of_settle hj (early_of_moves hs) rfl rfl (by simp)
  | enqueued hj hok => exact .of_settle hj rfl rfl rfl (by simp)
  | failed hj => exact .of_settle hj rfl rfl rfl (by simp)
  | synced hj hok => exact .same (by simp) (by rw [awaited, awaited, hj]; rfl)
  | unsynced hj hok => exact .same (by simp) (by rw [awaited, awaited, hj]; rfl)
  | blamed hj => exact .same (by simp) (by rw [awaited, awaited, hj]; rfl)
  | finished hj => exact .done (by rw [awaited, awaited, hj]; rfl) (hm _ _ _ hj rfl Stage.noConfusion)
  | left hj => exact .same (by simp) (by rw [awaited, awaited, hj]; rfl)

theorem Next.marked (h : Next contains q ok q' effect) (hm : q.Marked) : q'.Marked := by
  have hsettle : ∀ {q' : PosixQueue} {shard : Detail.Shard} {buffer : Option Buffer},
      q'.job = .running (settle shard) shard buffer → q'.Marked := by
    intro q' shard buffer hj stage shard' buffer' hj' _ hl
    obtain ⟨rfl, rfl, rfl⟩ := Job.running.inj (hj.symm.trans hj')
    by_contra hdone
    exact hl (settle_of_not_done (by simpa using hdone))
  have hearly : ∀ {q' : PosixQueue} {stage : Stage} {shard : Detail.Shard} {buffer : Option Buffer},
      q'.job = .running stage shard buffer → stage.early = true → q'.Marked := by
    intro q' stage shard buffer hj hs stage' shard' buffer' hj' hs'
    obtain ⟨rfl, rfl, rfl⟩ := Job.running.inj (hj.symm.trans hj')
    rw [hs] at hs'
    cases hs'
  have hkeep : ∀ {q' : PosixQueue} {stage stage' : Stage} {shard : Detail.Shard} {buffer : Option Buffer},
      q.job = .running stage shard buffer → stage.early = false → stage ≠ .leaving →
        q'.job = .running stage' shard buffer → q'.Marked := by
    intro q' stage stage' shard buffer hj hs hl hj' stage'' shard' buffer' hj'' _ _
    obtain ⟨rfl, rfl, rfl⟩ := Job.running.inj (hj'.symm.trans hj'')
    exact hm _ _ _ hj hs hl
  cases h with
  | pop => exact hearly rfl rfl
  | skip => exact hsettle rfl
  | advance _ _ hs' => exact hearly rfl hs'
  | recycled => exact hearly rfl rfl
  | stuck => exact hearly rfl rfl
  | takeSlot => exact hearly rfl early_transfer
  | takeNull => exact hearly rfl rfl
  | takeOwn => exact hearly rfl early_transfer
  | takeNone => exact hearly rfl rfl
  | moved => exact hsettle rfl
  | enqueued => exact hsettle rfl
  | failed => exact hsettle rfl
  | synced hj => exact hkeep hj rfl Stage.noConfusion rfl
  | unsynced hj => exact hkeep hj rfl Stage.noConfusion rfl
  | blamed hj => exact hkeep hj rfl Stage.noConfusion rfl
  | finished hj => exact hkeep hj rfl Stage.noConfusion rfl
  | left => exact fun _ _ _ hj => by cases hj

/-- The copies under way are of the task whose shard the worker is at. -/
def Owned (q : PosixQueue) : Prop := ∀ c ∈ q.device.copies, ∃ s ∈ q.unsynced.head?, s.owner = c.1.owner

theorem Owned.of_same (h : q.Owned) (hc : ∀ c ∈ q'.device.copies, c ∈ q.device.copies) (hu : q'.unsynced = q.unsynced) :
    q'.Owned := by
  intro c hmem
  rw [hu]
  exact h c (hc c hmem)

/-- A shard without the callback leaves its copy to the next one. -/
theorem owned_settle (hj' : q'.job = .running (settle shard) shard buffer) (he : Ends (shard :: q'.backend))
    (hc : ∀ c ∈ q'.device.copies, c.1.owner = shard.owner) : q'.Owned := by
  intro c hmem
  rcases unsynced_settle hj' with ⟨-, hu⟩ | ⟨hdone, hu⟩
  · rw [hu]
    exact ⟨shard, rfl, (hc c hmem).symm⟩
  · obtain ⟨t, ht, howner⟩ := he.head hdone
    rw [hu]
    exact ⟨t, ht, howner.trans (hc c hmem).symm⟩

theorem Owned.owner_eq (h : q.Owned) (hu : q.unsynced = shard :: q.backend) :
    ∀ c ∈ q.device.copies, c.1.owner = shard.owner := by
  intro c hc
  obtain ⟨s, hs, howner⟩ := h c hc
  rw [hu] at hs
  obtain rfl := Option.some.inj hs
  exact howner.symm

theorem Next.owned (h : Next contains q ok q' effect) (he : Ends q.awaited) (ho : q.Owned) : q'.Owned := by
  have hearly : ∀ {stage : Stage} {shard : Detail.Shard} {buffer : Option Buffer},
      q.job = .running stage shard buffer → stage.early = true →
        Ends (shard :: q.backend) ∧ ∀ c ∈ q.device.copies, c.1.owner = shard.owner := by
    intro stage shard buffer hj hs
    exact ⟨awaited_early hj hs ▸ he, ho.owner_eq (unsynced_early hj hs)⟩
  have hsame : ∀ {q' : PosixQueue} {stage stage' : Stage} {shard : Detail.Shard} {buffer buffer' : Option Buffer},
      q.job = .running stage shard buffer → stage.early = true → q'.job = .running stage' shard buffer' →
        stage'.early = true → q'.backend = q.backend → (∀ c ∈ q'.device.copies, c ∈ q.device.copies) → q'.Owned := by
    intro q' stage stage' shard buffer buffer' hj hs hj' hs' hb hc
    refine ho.of_same hc ?_
    rw [unsynced_early hj' hs', hb, unsynced_early hj hs]
  cases h with
  | pop hj hb =>
    refine ho.of_same (fun _ hc => hc) ?_
    rw [PosixQueue.unsynced, PosixQueue.unsynced, hj, hb]
    rfl
  | skip hj => exact owned_settle rfl (hearly hj rfl).1 (hearly hj rfl).2
  | advance hj hs hs' => exact hsame hj hs rfl hs' rfl fun _ hc => hc
  | recycled hj => exact fun _ hc => absurd hc List.not_mem_nil
  | stuck hj => exact fun _ hc => absurd hc List.not_mem_nil
  | takeSlot hj => exact hsame hj rfl rfl early_transfer rfl fun _ hc => hc
  | takeNull hj => exact hsame hj rfl rfl rfl rfl fun _ hc => hc
  | takeOwn hj => exact hsame hj rfl rfl early_transfer rfl fun _ hc => hc
  | takeNone hj => exact hsame hj rfl rfl rfl rfl fun _ hc => hc
  | moved hj hs => exact owned_settle rfl (hearly hj (early_of_moves hs)).1 (hearly hj (early_of_moves hs)).2
  | enqueued hj =>
    refine owned_settle rfl (hearly hj rfl).1 ?_
    intro c hc
    rcases List.mem_append.mp hc with hc | hc
    · exact (hearly hj rfl).2 c hc
    · rw [List.mem_singleton.mp hc]
  | failed hj => exact owned_settle rfl (hearly hj rfl).1 (hearly hj rfl).2
  | synced hj => exact fun _ hc => absurd hc List.not_mem_nil
  | unsynced hj => exact fun _ hc => absurd hc List.not_mem_nil
  | blamed hj =>
    refine ho.of_same (fun _ hc => hc) ?_
    rw [PosixQueue.unsynced, PosixQueue.unsynced, hj]
    rfl
  | finished hj =>
    refine ho.of_same (fun _ hc => hc) ?_
    rw [PosixQueue.unsynced, PosixQueue.unsynced, hj]
    rfl
  | left hj =>
    refine ho.of_same (fun _ hc => hc) ?_
    rw [PosixQueue.unsynced, PosixQueue.unsynced, hj]
    rfl

theorem mine_todo :
    mine id q.todo = mine id (q.device.copies.map Prod.fst) + mine id q.job.todo + mine id q.backend := by
  rw [todo, mine_append, mine_append]

theorem todo_early (hj : q.job = .running stage shard buffer) (hs : stage.early = true) : q.job.todo = [shard] := by
  rw [hj]
  exact if_pos hs

theorem todo_late (hj : q.job = .running stage shard buffer) (hs : stage.early = false) : q.job.todo = [] := by
  rw [hj]
  exact if_neg (by simp [hs])

theorem mine_singleton (h : shard.owner ≠ id) : mine id [shard] = 0 :=
  mine_eq_zero fun s hs => by rwa [List.mem_singleton.mp hs]

/-- Until a task is marked as failed, a shard is not lost but moved. -/
theorem Next.conserves (h : Next contains q ok q' effect) (ho : q.Owned) (hc : contains id = false) :
    q'.job.blamed = some id ∨ effect = .insert id ∨ mine id q.todo = mine id q'.todo + mine id (q.transfers ok) := by
  have hlost : ∀ {stage : Stage} {shard : Detail.Shard} {buffer : Option Buffer}, q.job = .running stage shard buffer →
      q.unsynced = shard :: q.backend → shard.owner ≠ id → mine id (q.device.copies.map Prod.fst) = 0 := by
    intro stage shard buffer hj hu hne
    refine mine_eq_zero fun s hs => ?_
    obtain ⟨c, hcopy, rfl⟩ := List.mem_map.mp hs
    rwa [ho.owner_eq hu c hcopy]
  have hsame : ∀ {stage stage' : Stage} {shard : Detail.Shard} {buffer buffer' : Option Buffer} {q' : PosixQueue},
      q.job = .running stage shard buffer → q'.job = .running stage' shard buffer' → stage'.early = stage.early →
        q'.device.copies = q.device.copies → q'.backend = q.backend → q.transfers ok = [] →
          mine id q.todo = mine id q'.todo + mine id (q.transfers ok) := by
    intro stage stage' shard buffer buffer' q' hj hj' hs hd hb ht
    rw [ht, mine_nil, add_zero, todo, todo, hd, hb, hj, hj', Job.todo, Job.todo, hs]
  have hsettle : ∀ {stage : Stage} {shard : Detail.Shard} {buffer : Option Buffer},
      q.job = .running stage shard buffer → stage.early = true →
        mine id (q.transfers ok) = mine id [shard] →
          mine id q.todo = mine id (q.goto (settle shard) shard buffer).todo + mine id (q.transfers ok) := by
    intro stage shard buffer hj hs ht
    rw [mine_todo, mine_todo, ht, todo_early hj hs, todo_late (goto_job ..) settle_late, mine_nil, add_zero]
    exact add_right_comm _ _ _
  cases h with
  | pop hj hb =>
    refine .inr (.inr ?_)
    have ht : q.transfers ok = [] := by simp [transfers, hj]
    rw [mine_todo, mine_todo, hj, hb, ht]
    show _ + 0 + mine id ([_] ++ _) = _
    rw [mine_append, mine_nil, add_zero, add_zero, add_assoc]
    rfl
  | @skip shard buffer hj howner =>
    have hne : shard.owner ≠ id := by
      rintro rfl
      cases hc.symm.trans howner
    exact .inr (.inr (hsettle hj rfl (by rw [mine_singleton hne]; simp [transfers, hj])))
  | advance hj hs hs' _ _ _ _ _ ht => exact .inr (.inr (hsame hj rfl (hs'.trans hs.symm) rfl rfl ht))
  | recycled hj hok =>
    refine .inr (.inr ?_)
    have ht : q.transfers ok = q.device.copies.map Prod.fst := by simp [transfers, hj, hok]
    rw [mine_todo, mine_todo, ht, todo_early hj rfl, todo_early (goto_job ..) rfl]
    show _ = 0 + _ + _ + _
    rw [zero_add, add_comm _ (mine id (q.device.copies.map Prod.fst)), ← add_assoc]
    rfl
  | @stuck shard buffer hj hok =>
    by_cases howner : shard.owner = id
    · exact .inl (congrArg some howner)
    · refine .inr (.inr ?_)
      have ht : q.transfers ok = [] := by simp [transfers, hj, hok]
      rw [mine_todo, mine_todo, ht, todo_early hj rfl, todo_early (goto_job ..) rfl,
        hlost hj (unsynced_early hj rfl) howner, mine_nil, add_zero]
      rfl
  | takeSlot hj => exact .inr (.inr (hsame hj rfl early_transfer rfl rfl (by simp [transfers, hj])))
  | takeNull hj => exact .inr (.inr (hsame hj rfl rfl rfl rfl (by simp [transfers, hj])))
  | takeOwn hj => exact .inr (.inr (hsame hj rfl early_transfer rfl rfl (by simp [transfers, hj])))
  | takeNone hj => exact .inr (.inr (hsame hj rfl rfl rfl rfl (by simp [transfers, hj])))
  | moved hj hs hok ht => exact .inr (.inr (hsettle hj (early_of_moves hs) (by rw [ht])))
  | @enqueued shard b hj hok =>
    refine .inr (.inr ?_)
    have ht : q.transfers ok = [] := by simp [transfers, hj]
    rw [mine_todo, mine_todo, ht, todo_early hj rfl, todo_late (goto_job ..) settle_late]
    show _ = mine id ((q.device.copies ++ [(shard, b)]).map Prod.fst) + 0 + _ + 0
    rw [List.map_append, mine_append, add_zero, add_zero]
    rfl
  | @failed shard buffer hj =>
    by_cases howner : shard.owner = id
    · exact .inr (.inl (congrArg Effect.insert howner))
    · exact .inr (.inr (hsettle hj rfl (by rw [mine_singleton howner]; simp [transfers, hj])))
  | synced hj hok =>
    refine .inr (.inr ?_)
    have ht : q.transfers ok = q.device.copies.map Prod.fst := by simp [transfers, hj, hok]
    rw [mine_todo, mine_todo, ht, todo_late hj rfl, todo_late (goto_job ..) rfl]
    show _ = 0 + _ + _ + _
    rw [zero_add, add_comm _ (mine id (q.device.copies.map Prod.fst)), ← add_assoc]
    rfl
  | @unsynced shard buffer hj hok =>
    by_cases howner : shard.owner = id
    · exact .inl (congrArg some howner)
    · refine .inr (.inr ?_)
      have ht : q.transfers ok = [] := by simp [transfers, hj, hok]
      have hu : q.unsynced = shard :: q.backend := by rw [PosixQueue.unsynced, hj]; rfl
      rw [mine_todo, mine_todo, ht, todo_late hj rfl, todo_late (goto_job ..) rfl, hlost hj hu howner, mine_nil,
        add_zero, add_zero]
      rfl
  | blamed hj => exact .inr (.inr (hsame hj rfl rfl rfl rfl (by simp [transfers, hj])))
  | finished hj => exact .inr (.inr (hsame hj rfl rfl rfl rfl (by simp [transfers, hj])))
  | left hj =>
    refine .inr (.inr ?_)
    have ht : q.transfers ok = [] := by simp [transfers, hj]
    rw [mine_todo, mine_todo, ht, todo_late hj rfl, mine_nil, add_zero, add_zero]
    show _ = _ + 0 + _
    rw [add_zero]

/-- The task that is to be marked as failed is. -/
theorem Next.insert_of_blamed (h : Next contains q ok q' effect) (hb : q.job.blamed = some id) :
    effect = .insert id := by
  have hne : ∀ {stage : Stage} {shard : Detail.Shard} {buffer : Option Buffer}, q.job = .running stage shard buffer →
      stage ≠ .failing → stage ≠ .blaming → effect = .insert id := by
    intro stage shard buffer hj hf hbl
    rw [hj] at hb
    cases stage <;> first | exact absurd rfl hf | exact absurd rfl hbl | cases hb
  cases h with
  | failed hj =>
    rw [hj] at hb
    exact congrArg Effect.insert (Option.some.inj hb)
  | blamed hj =>
    rw [hj] at hb
    exact congrArg Effect.insert (Option.some.inj hb)
  | pop hj =>
    rw [hj] at hb
    cases hb
  | advance hj hs _ _ _ _ hn =>
    refine hne hj hn ?_
    rintro rfl
    cases hs
  | moved hj hs =>
    refine hne hj ?_ ?_
    · rintro rfl
      simp at hs
    · rintro rfl
      simp at hs
  | _ hj => exact hne hj Stage.noConfusion Stage.noConfusion

theorem Next.blamed_of_insert (h : Next contains q ok q' (.insert id)) : q.job.blamed = some id := by
  cases h with
  | failed hj => rw [hj, Job.blamed]
  | blamed hj => rw [hj, Job.blamed]

theorem unsynced_awaited (q : PosixQueue) : q.awaited = q.unsynced ∨ ∃ s, q.awaited = s :: q.unsynced := by
  cases hj : q.job with
  | idle => exact .inl (by rw [awaited, PosixQueue.unsynced, hj]; rfl)
  | running stage shard buffer =>
    cases stage with
    | blaming => exact .inr ⟨shard, by rw [awaited, PosixQueue.unsynced, hj]; rfl⟩
    | finishing => exact .inr ⟨shard, by rw [awaited, PosixQueue.unsynced, hj]; rfl⟩
    | _ => exact .inl (by rw [awaited, PosixQueue.unsynced, hj]; rfl)

/-- A copy under way is waited for by a shard with the callback. -/
theorem Owned.owed_pos (h : q.Owned) (he : Ends q.awaited) {c : Detail.Shard × Buffer} (hc : c ∈ q.device.copies) :
    0 < owed c.1.owner q.awaited := by
  obtain ⟨s, hs, howner⟩ := h c hc
  have hmem : s ∈ q.unsynced := List.mem_of_mem_head? hs
  rcases unsynced_awaited q with hu | ⟨t, hu⟩
  · rw [hu] at he ⊢
    exact he.owed_pos hmem howner
  · rw [hu] at he ⊢
    rw [owed_cons]
    exact Nat.add_pos_left (he.tail.owed_pos hmem howner) _

theorem owed_pos_of_blamed (he : Ends q.awaited) (hm : q.Marked) (hb : q.job.blamed = some id) :
    0 < owed id q.awaited := by
  cases hj : q.job with
  | idle =>
    rw [hj] at hb
    cases hb
  | running stage shard buffer =>
    rw [hj] at hb
    cases stage with
    | failing =>
      rw [awaited_early hj rfl] at he ⊢
      exact he.owed_pos List.mem_cons_self (Option.some.inj hb)
    | blaming =>
      rw [awaited, hj]
      exact NfsStore.owed_pos List.mem_cons_self (hm _ _ _ hj rfl Stage.noConfusion) (Option.some.inj hb)
    | _ => cases hb

/-- A task that nobody waits for is moved. -/
theorem mine_todo_eq_zero (ho : q.Owned) (he : Ends q.awaited) (h : owed id q.awaited = 0) : mine id q.todo = 0 := by
  refine mine_eq_zero fun s hs howner => ?_
  have hmem : s ∈ q.awaited → False := fun hmem => absurd (he.owed_pos hmem howner) (by omega)
  rcases List.mem_append.mp hs with hs | hs
  · rcases List.mem_append.mp hs with hs | hs
    · obtain ⟨c, hc, rfl⟩ := List.mem_map.mp hs
      have hpos := ho.owed_pos he hc
      rw [howner] at hpos
      omega
    · cases hj : q.job with
      | idle =>
        rw [hj] at hs
        cases hs
      | running stage shard buffer =>
        cases hearly : stage.early with
        | true =>
          rw [todo_early hj hearly] at hs
          obtain rfl := List.mem_singleton.mp hs
          exact hmem (awaited_early hj hearly ▸ List.mem_cons_self)
        | false =>
          rw [todo_late hj hearly] at hs
          cases hs
  · exact hmem (List.mem_append_right _ hs)

/-- The steps that the worker still makes for the shards that it has. -/
def left (q : PosixQueue) : Nat := 13 * q.backend.length + q.job.left

theorem left_settle : (settle shard).left ≤ 4 := by
  unfold settle
  split_ifs <;> simp [Stage.left]

theorem left_transfer : (transfer shard).left < 9 := by
  unfold transfer
  cases shard.type <;> simp [Stage.left]

theorem Next.left_lt (h : Next contains q ok q' effect) : q'.left < q.left := by
  have hstage : ∀ {q' : PosixQueue} {stage stage' : Stage} {shard : Detail.Shard} {buffer buffer' : Option Buffer},
      q.job = .running stage shard buffer → q'.job = .running stage' shard buffer' → q'.backend = q.backend →
        stage'.left < stage.left → q'.left < q.left := by
    intro q' stage stage' shard buffer buffer' hj hj' hb hlt
    rw [PosixQueue.left, PosixQueue.left, hj, hj', hb]
    exact Nat.add_lt_add_left hlt _
  cases h with
  | pop hj hb =>
    rw [PosixQueue.left, PosixQueue.left, hj, hb]
    simp only [goto_backend, goto_job, Job.left, Stage.left, List.length_cons]
    omega
  | skip hj => exact hstage hj rfl rfl (left_settle.trans_lt (by simp [Stage.left]))
  | advance hj _ _ _ _ _ _ hl => exact hstage hj rfl rfl hl
  | recycled hj => exact hstage hj rfl rfl (by simp [Stage.left])
  | stuck hj => exact hstage hj rfl rfl (by simp [Stage.left])
  | takeSlot hj => exact hstage hj rfl rfl left_transfer
  | takeNull hj => exact hstage hj rfl rfl (by simp [Stage.left])
  | takeOwn hj => exact hstage hj rfl rfl left_transfer
  | takeNone hj => exact hstage hj rfl rfl (by simp [Stage.left])
  | moved hj hs =>
    refine hstage hj rfl rfl (left_settle.trans_lt ?_)
    rcases hs with rfl | ⟨rfl, -⟩ <;> simp [Stage.left]
  | enqueued hj => exact hstage hj rfl rfl (left_settle.trans_lt (by simp [Stage.left]))
  | failed hj => exact hstage hj rfl rfl (left_settle.trans_lt (by simp [Stage.left]))
  | synced hj => exact hstage hj rfl rfl (by simp [Stage.left])
  | unsynced hj => exact hstage hj rfl rfl (by simp [Stage.left])
  | blamed hj => exact hstage hj rfl rfl (by simp [Stage.left])
  | finished hj => exact hstage hj rfl rfl (by simp [Stage.left])
  | left hj =>
    rw [PosixQueue.left, PosixQueue.left, hj]
    exact Nat.lt_succ_self _

theorem mem_todo_of_transfers (hs : s ∈ q.transfers ok) : s ∈ q.todo := by
  have hcopies : s ∈ q.device.copies.map Prod.fst → s ∈ q.todo := fun h =>
    List.mem_append_left _ (List.mem_append_left _ h)
  have hjob : ∀ {stage : Stage} {shard : Detail.Shard} {buffer : Option Buffer}, q.job = .running stage shard buffer →
      stage.early = true → s = shard → s ∈ q.todo := by
    rintro stage shard buffer hj hearly rfl
    refine List.mem_append_left _ (List.mem_append_right _ ?_)
    rw [todo_early hj hearly]
    exact List.mem_singleton_self s
  unfold transfers at hs
  split at hs
  · split_ifs at hs
    · exact hcopies hs
    · cases hs
  · split_ifs at hs
    · exact hcopies hs
    · cases hs
  · rename_i shard buffer hj
    split_ifs at hs
    · exact hjob hj rfl (List.mem_singleton.mp hs)
    · cases hs
  · rename_i shard buffer hj
    split_ifs at hs
    · exact hjob hj rfl (List.mem_singleton.mp hs)
    · cases hs
  · cases hs

section Push

variable {part : List Detail.Shard}

theorem awaited_push : (q.push part).awaited = q.awaited ++ part := (List.append_assoc ..).symm

theorem mine_todo_push : mine id (q.push part).todo = mine id q.todo + mine id part := by
  rw [mine_todo, mine_todo, push_backend, mine_append]
  exact (add_assoc (mine id (q.device.copies.map Prod.fst) + mine id q.job.todo) _ _).symm

theorem left_push : (q.push part).left = q.left + 13 * part.length := by
  simp only [PosixQueue.left, push_backend, push_job, List.length_append]
  omega

theorem Owned.push (h : q.Owned) : (q.push part).Owned := by
  intro c hc
  obtain ⟨s, hs, howner⟩ := h c hc
  have hu : (q.push part).unsynced = q.unsynced ++ part := (List.append_assoc ..).symm
  refine ⟨s, ?_, howner⟩
  rw [hu, List.head?_append, Option.mem_def.mp hs]
  rfl

end Push

end PosixQueue

end UnifiedCache.NfsStore
