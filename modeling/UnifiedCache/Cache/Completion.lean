import UnifiedCache.Cache.Jobs

/-! Every `Up` of a latch is matched by one `Done`, provided that a load task that is
dispatched has a shard: the last shard carries the waiter. -/

namespace UnifiedCache.CacheStore

open StepSystem

/-- The load dispatcher never holds a task without shards. -/
def Loader.HasShard : Loader → Prop
  | .find _ got rest => got ≠ [] ∨ rest ≠ []
  | .submit _ got => got ≠ []
  | _ => True

namespace Store

variable {Data : Type} {config : Config Data} {s s' : Store Data}

def queueFull (config : Config Data) (s : Store Data) : TransTask.TaskType → Bool
  | .load => decide (s.loadWaiting.length + 1 ≥ config.waitingQueueDepth)
  | .dump => decide (s.dumpWaiting.length + 1 ≥ config.waitingQueueDepth)

/-- The task for which a step calls `Latch::Up`. -/
def raises (s : Store Data) : Event Data → Option TaskHandle
  | .user (.submit _ _) => some s.nextId
  | _ => none

/-- The task for which a step calls `Latch::Done`. -/
def lowers (config : Config Data) (s : Store Data) : Event Data → Option TaskHandle
  | .load .check =>
    match s.loader with
    | .check task => if task.id ∈ s.failureSet then some task.id else none
    | _ => none
  | .load .done =>
    match s.loader with
    | .done id _ => some id
    | _ => none
  | .transfer .done =>
    match s.transfer with
    | .done task => if task.waiter then some task.taskHandle else none
    | _ => none
  | .dump .done =>
    match s.dumper with
    | .done task => some task.id
    | _ => none
  | .user (.submit type _) => if s.queueFull config type then some s.nextId else none
  | _ => none

def raised (tr : List (Store Data × Event Data)) (id : TaskHandle) : Nat :=
  tr.countP fun x => x.1.raises x.2 = some id

def lowered (config : Config Data) (tr : List (Store Data × Event Data)) (id : TaskHandle) : Nat :=
  tr.countP fun x => x.1.lowers config x.2 = some id

/-- The queues are empty and the threads idle. -/
def Quiescent (s : Store Data) : Prop :=
  s.loadWaiting = [] ∧ s.loader = .idle ∧ s.running = [] ∧ s.transfer = .idle ∧ s.dumpWaiting = [] ∧
    s.dumper = .idle ∧ s.dumping = [] ∧ s.backendDumper = .idle

instance (s : Store Data) : Decidable (Quiescent s) := inferInstanceAs (Decidable (_ ∧ _))

/-- Each latch has been counted down as often as it was raised and is not yet, never
more often, and when nothing is left to do it is down and every `Wait` returns. -/
structure Completes (config : Config Data) (tr : List (Store Data × Event Data)) (s : Store Data) :
    Prop where
  balanced : ∀ id, lowered config tr id + s.latches id = raised tr id
  positive : ∀ e id s', s.step config e = some s' → s.lowers config e = some id →
    s.raises e = some id ∨ 0 < s.latches id
  quiet : s.Quiescent → ∀ id, s.latches id = 0
  returns : s.Quiescent → ∀ id, s.waits id = .waiting ∨ s.waits id = .timedOut →
    (s.step config (.user (.waited id))).isSome

/-- The load task that passes the check of the failure set. -/
def dispatched (s : Store Data) : Event Data → Option TransTask
  | .load .check =>
    match s.loader with
    | .check task => if task.id ∈ s.failureSet then none else some task
    | _ => none
  | _ => none

def DispatchesShards (s : Store Data) (e : Event Data) : Prop := ∀ task ∈ s.dispatched e, task.desc ≠ []

instance (s : Store Data) (e : Event Data) : Decidable (DispatchesShards s e) :=
  inferInstanceAs (Decidable (∀ task ∈ s.dispatched e, _))

theorem tokens_of_lowers {e : Event Data} {id : TaskHandle} (h : s.lowers config e = some id) :
    s.raises e = some id ∨ 0 < s.tokens id := by
  unfold lowers at h
  split at h
  · split at h
    · split_ifs at h
      obtain rfl := Option.some.inj h
      refine Or.inr ?_
      simp_all [tokens, Loader.tokens]
    · cases h
  · split at h
    · obtain rfl := Option.some.inj h
      refine Or.inr ?_
      simp_all [tokens, Loader.tokens]
    · cases h
  · split at h
    · split_ifs at h
      obtain rfl := Option.some.inj h
      refine Or.inr ?_
      simp_all [tokens, Transfer.front, Transfer.task]
    · cases h
  · split at h
    · obtain rfl := Option.some.inj h
      refine Or.inr ?_
      simp_all [tokens, Dumper.task]
    · cases h
  · split_ifs at h
    exact Or.inl h
  · cases h

theorem latches_step {e : Event Data} (h : s.step config e = some s') (id : TaskHandle) :
    s'.latches id = s.latches id + (if s.raises e = some id then 1 else 0) -
      (if s.lowers config e = some id then 1 else 0) := by
  cases e with
  | load e =>
    change s.loadStep config e = some s' at h
    cases e with
    | check =>
      simp only [loadStep] at h
      split at h
      · split_ifs at h with hf
        · obtain rfl := Option.some.inj h
          simp [raises, lowers, latchDone, Function.update_apply, *]
          grind
        · obtain rfl := Option.some.inj h
          simp [raises, lowers, *]
      · cases h
    | done =>
      simp only [loadStep] at h
      split at h
      · obtain rfl := Option.some.inj h
        simp [raises, lowers, latchDone, Function.update_apply, *]
        grind
      · cases h
    | _ => grind [loadStep, raises, lowers, markFailed, release]
  | transfer e =>
    change s.transferStep e = some s' at h
    cases e with
    | done =>
      simp only [transferStep] at h
      split at h
      · split_ifs at h with hw
        · obtain rfl := Option.some.inj h
          simp [raises, lowers, latchDone, Function.update_apply, *]
          grind
        · obtain rfl := Option.some.inj h
          simp [raises, lowers, *]
      · cases h
    | _ => grind [transferStep, raises, lowers, markFailed, release]
  | dump e =>
    change s.dumpStep config e = some s' at h
    cases e with
    | done =>
      simp only [dumpStep] at h
      split at h
      · obtain rfl := Option.some.inj h
        simp [raises, lowers, latchDone, Function.update_apply, *]
        grind
      · cases h
    | _ => grind [dumpStep, raises, lowers, markFailed, release]
  | backendDump e =>
    have : s'.latches = s.latches := by
      cases backendDumpStep_inv h <;> rfl
    simp [this, raises, lowers]
  | backend e =>
    have : s'.latches = s.latches := by
      cases backendStep_inv h <;> rfl
    simp [this, raises, lowers]
  | user e =>
    change s.userStep config e = some s' at h
    cases e with
    | submit type desc =>
      simp only [userStep] at h
      split_ifs at h with hf
      · obtain rfl := Option.some.inj h
        have hq : s.queueFull config type = true := by
          cases type <;> exact hf
        simp [raises, lowers, hq, latchDone, markFailed]
      · have hq : s.queueFull config type = false := by
          cases type <;> simpa [queueFull] using hf
        cases type <;> obtain rfl := Option.some.inj h <;>
          simp [raises, lowers, hq, Function.update_apply] <;> grind
    | _ => grind [userStep, raises, lowers, markFailed]

theorem raised_cons {e : Event Data} {tr : List (Store Data × Event Data)} (id : TaskHandle) :
    raised ((s, e) :: tr) id = raised tr id + if s.raises e = some id then 1 else 0 := by
  simp [raised, List.countP_cons]

theorem lowered_cons {e : Event Data} {tr : List (Store Data × Event Data)} (id : TaskHandle) :
    lowered config ((s, e) :: tr) id =
      lowered config tr id + if s.lowers config e = some id then 1 else 0 := by
  simp [lowered, List.countP_cons]

theorem balanced_step {e : Event Data} {tr : List (Store Data × Event Data)} {id : TaskHandle}
    (hc : Counted s) (hb : lowered config tr id + s.latches id = raised tr id)
    (h : s.step config e = some s') :
    lowered config ((s, e) :: tr) id + s'.latches id = raised ((s, e) :: tr) id := by
  have hl := latches_step h id
  have ht := hc id
  rw [raised_cons, lowered_cons]
  by_cases hd : s.lowers config e = some id
  · have hpos := tokens_of_lowers hd
    rw [if_pos hd] at hl ⊢
    split_ifs at hl ⊢ with hr
    · omega
    · have := hpos.resolve_left hr
      omega
  · rw [if_neg hd] at hl ⊢
    omega

theorem hasShard_step {e : Event Data} (hl : s.loader.HasShard) (hg : s.DispatchesShards e)
    (h : s.step config e = some s') : s'.loader.HasShard := by
  cases e with
  | load e =>
    change s.loadStep config e = some s' at h
    cases e with
    | check =>
      simp only [loadStep] at h
      split at h
      · split_ifs at h with hf
        · obtain rfl := Option.some.inj h
          trivial
        · obtain rfl := Option.some.inj h
          exact Or.inr (hg _ (by simp [dispatched, *]))
      · cases h
    | _ =>
      cases loadStep_inv h with
      | check hc => simp [loadStep, hc] at h
      | gathered hc =>
        rw [hc] at hl
        exact hl.resolve_right (absurd rfl)
      | hit => exact Or.inl (by simp)
      | takeNode => exact Or.inl (by simp)
      | skipNode => exact hl
      | _ => trivial
  | transfer e =>
    have : s'.loader = s.loader := by
      cases transferStep_inv h <;> rfl
    rwa [this]
  | dump e =>
    have : s'.loader = s.loader := by
      cases dumpStep_inv h <;> rfl
    rwa [this]
  | backendDump e =>
    have : s'.loader = s.loader := by
      cases backendDumpStep_inv h <;> rfl
    rwa [this]
  | backend e =>
    have : s'.loader = s.loader := by
      cases backendStep_inv h <;> rfl
    rwa [this]
  | user e =>
    have : s'.loader = s.loader := by
      cases userStep_inv h <;> rfl
    rwa [this]

/-- With shards in each dispatched task no token gets lost. -/
theorem tokens_eq_step {e : Event Data} (hl : s.loader.HasShard) (ht : ∀ id, s.tokens id = s.latches id)
    (h : s.step config e = some s') (id : TaskHandle) : s'.tokens id = s'.latches id := by
  have hc : Counted s := fun id => (ht id).le
  rcases (step_inv h).balances hc id with hb | ⟨hn, _⟩
  · have := ht id
    omega
  · rw [hn] at hl
    exact absurd rfl hl

theorem latches_of_quiescent (ht : ∀ id, s.tokens id = s.latches id) (hq : s.Quiescent)
    (id : TaskHandle) : s.latches id = 0 := by
  obtain ⟨hw, hl, hr, htr, hdw, hd, _, _⟩ := hq
  rw [← ht id]
  simp [tokens, hw, hl, hr, htr, hdw, hd, Loader.tokens, Transfer.front, Transfer.task, Dumper.task]

theorem isSome_waited {id : TaskHandle} (hl : s.latches id = 0)
    (hw : s.waits id = .waiting ∨ s.waits id = .timedOut) :
    (s.step config (.user (.waited id))).isSome := by
  show (s.userStep config (.waited id)).isSome
  rcases hw with hw | hw
  · by_cases hf : id ∈ s.failureSet <;> simp [userStep, hl, hw, hf]
  · simp [userStep, hl, hw]

/-- The load dispatcher has a task without shards, or has dropped its token. -/
def Stranded (s : Store Data) (id : TaskHandle) : Prop :=
  s.tokens id < s.latches id ∨ s.loader = .find id [] [] ∨ s.loader = .submit id []

theorem LoadStep.stranded {id : TaskHandle} (h : LoadStep config s s') (hc : Counted s)
    (hs : Stranded s id) : Stranded s' id := by
  have ht := hc id
  have hb := h.balances hc id
  rcases hs with hlt | hs | hs
  · have hlt' : s'.tokens id < s'.latches id := by
      rcases hb with hb | ⟨_, hb⟩ <;> omega
    exact Or.inl hlt'
  · cases h with
    | gathered hl =>
      obtain ⟨rfl, rfl, _⟩ := Loader.find.inj (hl.symm.trans hs)
      exact Or.inr (Or.inr rfl)
    | _ => simp_all
  · cases h with
    | allReady hl =>
      obtain ⟨rfl, rfl⟩ := Loader.submit.inj (hl.symm.trans hs)
      simp only [tokens, hs, Loader.tokens, if_true] at ht
      refine Or.inl ?_
      simp only [tokens, Loader.tokens, shardTasks, List.countP_nil]
      omega
    | _ => simp_all [loadItems]

theorem Step.stranded {e : Event Data} {id : TaskHandle} (h : Step config s e s') (hc : Counted s)
    (hs : Stranded s id) : Stranded s' id := by
  have hb := h.balances hc id
  have hless : s.tokens id < s.latches id → s'.tokens id < s'.latches id := by
    intro hlt
    rcases hb with hb | ⟨_, hb⟩ <;> omega
  cases h with
  | load h => exact h.stranded hc hs
  | transfer h => cases h <;> exact hs.imp hless fun hl => hl
  | dump h => cases h <;> exact hs.imp hless fun hl => hl
  | backendDump h => cases h <;> exact hs.imp hless fun hl => hl
  | backend h => cases h <;> exact hs.imp hless fun hl => hl
  | user h => cases h <;> exact hs.imp hless fun hl => hl

theorem exists_stranded {e : Event Data} (hg : ¬ s.DispatchesShards e) (h : s.step config e = some s') :
    ∃ id, Stranded s' id := by
  simp only [DispatchesShards, not_forall, not_not] at hg
  obtain ⟨task, hd, hdesc⟩ := hg
  unfold dispatched at hd
  split at hd
  · split at hd
    · rename_i task' hl
      split_ifs at hd with hf
      · cases hd
      obtain rfl := Option.some.inj hd
      have hs : s' = { s with loader := .find task'.id [] task'.desc } := by
        simpa [step, loadStep, hl, hf] using h.symm
      subst hs
      exact ⟨task'.id, Or.inr (Or.inl (by rw [hdesc]))⟩
    · cases hd
  · cases hd

theorem Stranded.latches_ne_zero {id : TaskHandle} (hs : Stranded s id) (hq : s.Quiescent) :
    s.latches id ≠ 0 := by
  obtain ⟨_, hl, _⟩ := hq
  rcases hs with hs | hs | hs
  · exact Nat.ne_of_gt (Nat.zero_lt_of_lt hs)
  · rw [hl] at hs
    cases hs
  · rw [hl] at hs
    cases hs

/-- With shards in each dispatched task every latch is counted down exactly once. A step
that dispatches a task without shards leaves a latch up for good. -/
theorem completes_of_dispatchesShards {data : Nat → Data} {tr : List (Store Data × Event Data)}
    (h : Trace (step config) DispatchesShards (setup config data) tr s) :
    Completes config tr s ∧ ∀ e s' t, s.step config e = some s' → ¬ s.DispatchesShards e →
      Reach (step config) (fun _ _ => True) s' t → t.Quiescent → ∃ id, t.latches id ≠ 0 := by
  have hinv := h.invariant
    (fun tr s => (∀ id, lowered config tr id + s.latches id = raised tr id) ∧ s.loader.HasShard ∧
      ∀ id, s.tokens id = s.latches id)
    ⟨fun _ => rfl, trivial, fun _ => rfl⟩
    (by
      rintro tr s e s' ⟨hb, hl, ht⟩ hg hs
      have hc : Counted s := fun id => (ht id).le
      exact ⟨fun id => balanced_step hc (hb id) hs, hasShard_step hl hg hs, tokens_eq_step hl ht hs⟩)
  obtain ⟨hb, _, ht⟩ := hinv
  have hc : Counted s := fun id => (ht id).le
  have hpos : ∀ e id s', s.step config e = some s' → s.lowers config e = some id →
      s.raises e = some id ∨ 0 < s.latches id := by
    intro e id s' _ hd
    have := tokens_of_lowers hd
    rwa [ht id] at this
  have hquiet : s.Quiescent → ∀ id, s.latches id = 0 := latches_of_quiescent ht
  refine ⟨⟨hb, hpos, hquiet, fun hq id hw => isSome_waited (hquiet hq id) hw⟩, ?_⟩
  intro e s' t hs hg hreach hq
  obtain ⟨id, hstr⟩ := exists_stranded hg hs
  have hend := hreach.invariant (fun s => Counted s ∧ Stranded s id) ⟨(step_inv hs).counted hc, hstr⟩
    fun s e s' hi _ hs => ⟨(step_inv hs).counted hi.1, (step_inv hs).stranded hi.1 hi.2⟩
  exact ⟨id, hend.2.latches_ne_zero hq⟩

/-- A load of one shard and a dump of none. -/
def loadAndDump : List (Event Nat) :=
  [.user (.submit .load [⟨Vector.replicate 16 0, 0, [1]⟩]), .user (.submit .dump []), .user (.wait 1),
    .user (.wait 2), .load .pop, .load .check, .load .find, .load .takeNode, .load .find,
    .load (.submit (some 1)), .load .push, .load .push, .backend (.loadDone 1 fun _ => 5), .transfer .pop,
    .transfer .check, .transfer .ready, .transfer .waited, .transfer .mark, .transfer (.copy true),
    .backend (.h2d 0), .transfer (.sync true), .transfer .clear, .transfer .done, .transfer .release,
    .dump .pop, .dump .check, .dump .find, .dump .done]

theorem completes_loadAndDump : ∃ tr s, Trace (step Config.smallest) DispatchesShards
    (setup .smallest fun _ => 0) tr s ∧ raised tr 1 = 1 ∧ lowered Config.smallest tr 1 = 1 ∧
    s.Quiescent ∧ Completes Config.smallest tr s := by
  have hrun : (traced (fun s e => decide (DispatchesShards s e)) (step Config.smallest) []
      (setup .smallest fun _ => 0) loadAndDump).any fun x => raised x.1 1 = 1 ∧
        lowered Config.smallest x.1 1 = 1 ∧ x.2.Quiescent := by decide +kernel
  obtain ⟨⟨tr, s⟩, hs, he⟩ := (Option.any_eq_true _ _).mp hrun
  obtain ⟨hr, hl, hq⟩ := of_decide_eq_true he
  have htrace := Trace.start.traced (fun s e he => of_decide_eq_true he) hs
  exact ⟨tr, s, htrace, hr, hl, hq, (completes_of_dispatchesShards htrace).1⟩

/-- A load without shards, whose waiter nobody carries. -/
theorem not_completes_noShards : ¬ ∀ (config : Config Nat) (data : Nat → Nat)
    (tr : List (Store Nat × Event Nat)) (s : Store Nat), config.Accepted →
    Trace (step config) (fun _ _ => True) (setup config data) tr s → Completes config tr s := by
  intro hall
  have hrun : (traced (fun _ _ => true) (step Config.smallest) [] (setup .smallest fun _ => 0)
      [.user (.submit .load []), .load .pop, .load .check, .load .find, .load (.submit none),
        .load .push]).any fun x => x.2.Quiescent ∧ x.2.latches 1 = 1 := by decide +kernel
  obtain ⟨⟨tr, s⟩, hs, he⟩ := (Option.any_eq_true _ _).mp hrun
  obtain ⟨hq, hl⟩ := of_decide_eq_true he
  have htrace : Trace (step Config.smallest) (fun _ _ => True) (setup .smallest fun _ => 0) tr s :=
    Trace.start.traced (fun _ _ _ => trivial) hs
  have hzero := (hall _ _ tr s Config.accepted_smallest htrace).quiet hq 1
  rw [hl] at hzero
  cases hzero

end Store

end UnifiedCache.CacheStore
