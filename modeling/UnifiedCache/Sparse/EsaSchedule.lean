import UnifiedCache.Lib.Collections

/-! When ESA starts the retrievals of a request in a layer, waits for them, and waits for the
transfers that bring in what they found. -/

namespace UnifiedCache.Sparse.EsaSchedule

/-- What a layer asks of the retrieval worker and of the stores, in the order in which it does.
`replaced` is what the request kept where it now keeps the new task. -/
inductive Action where
  | submit (retrieval : Nat) (replaced : Option Nat)
  | waitRetrieval (retrieval : Option Nat)
  | load (transfer : Nat) (replaced : Option Nat)
  | waitTransfer (transfer : Nat)
  | attention
deriving DecidableEq

/-- The caches of a layer: those of keys and of values, one of both, or one beside that of the rope. -/
inductive Caches where
  | keyValue
  | latent
  | latentRope
deriving DecidableEq

inductive TensorType where
  | key
  | value
deriving DecidableEq

structure Config (Hash : Type*) where
  retrievalStride : Nat
  caches : Caches
  taskHashFunc : List Hash → TensorType → Int

/-- A step of the request. `diffBlocks` are the hashes that a load in this step finds missing. -/
structure Step (Hash : Type*) where
  isLastChunk : Bool
  diffBlocks : List Hash

structure ReqStatePerLayer where
  step : Nat
  retrievalTask : Option Nat
  tasks : Dict Int Nat
  ropeTasks : Dict Int Nat
  /-- The numbers that the next retrieval and the next transfer get. -/
  nextRetrieval : Nat
  nextTransfer : Nat
  actions : List Action

namespace ReqStatePerLayer

def init : ReqStatePerLayer := ⟨0, none, Dict.empty, Dict.empty, 0, 0, []⟩

variable {Hash : Type*} (config : Config Hash) (s : ReqStatePerLayer)

def act (actions : List Action) : ReqStatePerLayer := { s with actions := s.actions ++ actions }

/-- `self.tasks[task_hash] = self.store.load_data(...)`. -/
def loadData (taskHash : Int) : ReqStatePerLayer :=
  { s.act [.load s.nextTransfer (s.tasks.get? taskHash)] with
    tasks := s.tasks.set taskHash s.nextTransfer
    nextTransfer := s.nextTransfer + 1 }

def loadRope (taskHash : Int) : ReqStatePerLayer :=
  { s.act [.load s.nextTransfer (s.ropeTasks.get? taskHash)] with
    ropeTasks := s.ropeTasks.set taskHash s.nextTransfer
    nextTransfer := s.nextTransfer + 1 }

def launchTransferTask (blockHashes : List Hash) : ReqStatePerLayer :=
  let s := s.loadData (config.taskHashFunc blockHashes .key)
  match config.caches with
  | .keyValue => s.loadData (config.taskHashFunc blockHashes .value)
  | .latent => s
  | .latentRope => s.loadRope (config.taskHashFunc blockHashes .value)

def waitTransferTaskDone : ReqStatePerLayer :=
  { s.act ((s.tasks.items ++ s.ropeTasks.items).map fun p => .waitTransfer p.2) with
    tasks := Dict.empty
    ropeTasks := Dict.empty }

def startRetrieval : ReqStatePerLayer :=
  { s.act [.submit s.nextRetrieval s.retrievalTask] with
    retrievalTask := some s.nextRetrieval
    nextRetrieval := s.nextRetrieval + 1 }

/-- The worker raises on a task that is `None`. -/
def waitRetrievalAndStartLoad (diffBlocks : List Hash) : Except ReqStatePerLayer ReqStatePerLayer :=
  let waited := s.act [.waitRetrieval s.retrievalTask]
  match s.retrievalTask with
  | none => .error waited
  | some _ =>
    .ok { (if diffBlocks = [] then waited else waited.launchTransferTask config diffBlocks) with
      retrievalTask := none }

def attentionBegin (diffBlocks : List Hash) : Except ReqStatePerLayer ReqStatePerLayer := do
  if s.step % config.retrievalStride = 1 then
    let s ← if s.step = 1 then s.startRetrieval.waitRetrievalAndStartLoad config diffBlocks else .ok s
    if s.tasks.items.length > 0 then .ok s.waitTransferTaskDone else .ok s
  else .ok s

def attentionFinished (step : Step Hash) : Except ReqStatePerLayer ReqStatePerLayer := do
  if s.step = 0 then
    .ok (if step.isLastChunk then { s with step := s.step + 1 } else s)
  else
    let s := if s.step % config.retrievalStride = 2 then s.startRetrieval else s
    let s ← if s.step % config.retrievalStride = 0 then s.waitRetrievalAndStartLoad config step.diffBlocks else .ok s
    .ok { s with step := s.step + 1 }

/-- The two hooks of a step of the model around the attention of the layer. -/
def runStep (step : Step Hash) : Except ReqStatePerLayer ReqStatePerLayer := do
  let s ← s.attentionBegin config step.diffBlocks
  (s.act [.attention]).attentionFinished config step

def run : List (Step Hash) → ReqStatePerLayer → Except ReqStatePerLayer ReqStatePerLayer
  | [], s => .ok s
  | step :: steps, s => (s.runStep config step).bind (run steps)

end ReqStatePerLayer

/-- What was done up to the end of a run, or up to where it raised. -/
def done : Except ReqStatePerLayer ReqStatePerLayer → List Action
  | .ok s => s.actions
  | .error s => s.actions

/-- The retrievals that were started and not yet waited for, and the transfers. -/
structure Pending where
  retrievals : List Nat
  transfers : List Nat
deriving DecidableEq

/-- A wait takes the only retrieval that is pending, attention starts when no transfer is pending,
and nothing pending is replaced. -/
def Pending.next (pending : Pending) : Action → Option Pending
  | .submit retrieval replaced =>
    if replaced = none then some { pending with retrievals := pending.retrievals ++ [retrieval] } else none
  | .waitRetrieval retrieval =>
    if pending.retrievals = retrieval.toList ∧ retrieval.isSome then some { pending with retrievals := [] } else none
  | .load transfer replaced =>
    if replaced = none then some { pending with transfers := pending.transfers ++ [transfer] } else none
  | .waitTransfer transfer =>
    if transfer ∈ pending.transfers then some { pending with transfers := pending.transfers.erase transfer } else none
  | .attention => if pending.transfers = [] then some pending else none

def after (actions : List Action) : Option Pending := actions.foldlM Pending.next ⟨[], []⟩

/-- All starts and waits are paired. -/
def Paired (actions : List Action) : Prop := (after actions).isSome

theorem after_append {actions more : List Action} :
    after (actions ++ more) = (after actions).bind fun pending => more.foldlM Pending.next pending :=
  List.foldlM_append ..

theorem Paired.of_append {actions more : List Action} (h : Paired (actions ++ more)) : Paired actions := by
  rw [Paired, after_append] at h
  exact Option.isSome_of_isSome_bind h

theorem foldlM_waitTransfer (retrievals transfers : List Nat) :
    (transfers.map Action.waitTransfer).foldlM Pending.next ⟨retrievals, transfers⟩ = some ⟨retrievals, []⟩ := by
  induction transfers with
  | nil => rfl
  | cons transfer transfers ih =>
    rw [List.map_cons, List.foldlM_cons]
    simpa [Pending.next] using ih

namespace ReqStatePerLayer

/-- What is pending is what the request keeps. -/
def Synced (s : ReqStatePerLayer) : Prop :=
  after s.actions = some ⟨s.retrievalTask.toList, (s.tasks.items ++ s.ropeTasks.items).map Prod.snd⟩

variable {Hash : Type*} {config : Config Hash} {s : ReqStatePerLayer}

theorem Synced.paired (h : s.Synced) : Paired s.actions := by
  rw [Paired, h]
  rfl

theorem Synced.startRetrieval (h : s.Synced) (hnone : s.retrievalTask = none) : s.startRetrieval.Synced := by
  have hact : after s.startRetrieval.actions =
      some ⟨[s.nextRetrieval], (s.tasks.items ++ s.ropeTasks.items).map Prod.snd⟩ := by
    rw [ReqStatePerLayer.startRetrieval, act]
    simp only [after_append, hnone]
    rw [h, hnone]
    rfl
  exact hact

theorem Synced.waitTransferTaskDone (h : s.Synced) : s.waitTransferTaskDone.Synced := by
  have hact : after s.waitTransferTaskDone.actions = some ⟨s.retrievalTask.toList, []⟩ := by
    rw [ReqStatePerLayer.waitTransferTaskDone, act]
    simp only [after_append]
    have hmap : (s.tasks.items ++ s.ropeTasks.items).map (fun p => Action.waitTransfer p.2) =
        ((s.tasks.items ++ s.ropeTasks.items).map Prod.snd).map Action.waitTransfer := List.map_map.symm
    rw [h, Option.bind_some, hmap]
    exact foldlM_waitTransfer _ _
  exact hact

theorem Synced.attention (h : s.Synced) (htasks : s.tasks.items = []) (hrope : s.ropeTasks.items = []) :
    (s.act [.attention]).Synced := by
  rw [Synced, htasks, hrope] at h
  have hact : after (s.act [.attention]).actions = some ⟨s.retrievalTask.toList, []⟩ := by
    rw [act]
    simp only [after_append]
    rw [h]
    rfl
  rw [Synced, hact]
  simp only [act, htasks, hrope]
  rfl

/-- The two transfers of a load are kept under keys of their own. -/
def KeysDiffer (config : Config Hash) (diffBlocks : List Hash) : Prop :=
  config.caches = .keyValue → diffBlocks ≠ [] → config.taskHashFunc diffBlocks .key ≠ config.taskHashFunc diffBlocks .value

theorem tasks_loadData {taskHash : Int} (hfresh : taskHash ∉ s.tasks.items.map Prod.fst) :
    (s.loadData taskHash).tasks.items = s.tasks.items ++ [(taskHash, s.nextTransfer)] :=
  Dict.items_set_of_notMem hfresh

theorem Synced.loadData {taskHash : Int} (h : s.Synced) (hfresh : taskHash ∉ s.tasks.items.map Prod.fst)
    (hrope : s.ropeTasks.items = []) : (s.loadData taskHash).Synced := by
  have hact : after (s.loadData taskHash).actions =
      some ⟨s.retrievalTask.toList, s.tasks.items.map Prod.snd ++ [s.nextTransfer]⟩ := by
    rw [ReqStatePerLayer.loadData, act]
    simp only [after_append, Dict.get?_of_notMem hfresh]
    rw [h, hrope, List.append_nil]
    rfl
  rw [Synced, hact, tasks_loadData hfresh]
  simp only [ReqStatePerLayer.loadData, act, hrope, List.append_nil, List.map_append, List.map_singleton]

theorem Synced.loadRope {taskHash : Int} (h : s.Synced) (hrope : s.ropeTasks.items = []) :
    (s.loadRope taskHash).Synced := by
  have hfresh : taskHash ∉ s.ropeTasks.items.map Prod.fst := by rw [hrope]; exact List.not_mem_nil
  have hact : after (s.loadRope taskHash).actions =
      some ⟨s.retrievalTask.toList, s.tasks.items.map Prod.snd ++ [s.nextTransfer]⟩ := by
    rw [ReqStatePerLayer.loadRope, act]
    simp only [after_append, Dict.get?_of_notMem hfresh]
    rw [h, hrope, List.append_nil]
    rfl
  rw [Synced, hact]
  simp only [ReqStatePerLayer.loadRope, act, Dict.items_set_of_notMem hfresh, hrope, List.nil_append, List.map_append,
    List.map_singleton]

/-- A load under a key that is taken. -/
theorem not_paired_loadData {taskHash : Int} (htaken : taskHash ∈ s.tasks.items.map Prod.fst) :
    ¬ Paired (s.loadData taskHash).actions := by
  intro hpaired
  obtain ⟨⟨_, task⟩, hmem, rfl⟩ := List.mem_map.mp htaken
  have hget := Dict.mem_items.mp hmem
  rw [Paired, ReqStatePerLayer.loadData, act] at hpaired
  simp only [after_append, hget] at hpaired
  cases hafter : after s.actions with
  | none => simp [hafter] at hpaired
  | some pending => simp [hafter, Pending.next] at hpaired

/-- A load into a request that keeps no transfers. -/
theorem Synced.launchTransferTask {blockHashes : List Hash} (h : s.Synced) (htasks : s.tasks.items = [])
    (hrope : s.ropeTasks.items = []) (hne : blockHashes ≠ []) (hkeys : KeysDiffer config blockHashes) :
    (s.launchTransferTask config blockHashes).Synced ∧ (s.launchTransferTask config blockHashes).tasks.items ≠ [] := by
  have hfresh : config.taskHashFunc blockHashes .key ∉ s.tasks.items.map Prod.fst := by
    rw [htasks]
    exact List.not_mem_nil
  have hkey := h.loadData hfresh hrope
  have hitems : (s.loadData (config.taskHashFunc blockHashes .key)).tasks.items =
      [(config.taskHashFunc blockHashes .key, s.nextTransfer)] := by
    rw [tasks_loadData hfresh, htasks, List.nil_append]
  have hropes : (s.loadData (config.taskHashFunc blockHashes .key)).ropeTasks.items = [] := hrope
  rw [ReqStatePerLayer.launchTransferTask]
  cases hcaches : config.caches with
  | keyValue =>
    have hvalue : config.taskHashFunc blockHashes .value ∉
        (s.loadData (config.taskHashFunc blockHashes .key)).tasks.items.map Prod.fst := by
      rw [hitems]
      simpa using (hkeys hcaches hne).symm
    refine ⟨hkey.loadData hvalue hropes, ?_⟩
    dsimp only
    rw [tasks_loadData hvalue]
    exact List.append_ne_nil_of_right_ne_nil _ (List.cons_ne_nil _ _)
  | latent =>
    refine ⟨hkey, ?_⟩
    rw [hitems]
    exact List.cons_ne_nil _ _
  | latentRope =>
    refine ⟨hkey.loadRope hropes, ?_⟩
    change (s.loadData (config.taskHashFunc blockHashes .key)).tasks.items ≠ []
    rw [hitems]
    exact List.cons_ne_nil _ _

variable (config s) in
theorem launchTransferTask_frame (blockHashes : List Hash) :
    (s.launchTransferTask config blockHashes).retrievalTask = s.retrievalTask ∧
      (s.launchTransferTask config blockHashes).step = s.step := by
  rw [launchTransferTask]
  cases config.caches <;> exact ⟨rfl, rfl⟩

theorem not_paired_launchTransferTask {blockHashes : List Hash} (htasks : s.tasks.items = [])
    (hkeys : ¬ KeysDiffer config blockHashes) : ¬ Paired (s.launchTransferTask config blockHashes).actions := by
  simp only [KeysDiffer, not_forall, ne_eq, not_not] at hkeys
  obtain ⟨hcaches, _, hsame⟩ := hkeys
  rw [launchTransferTask, hcaches]
  apply not_paired_loadData
  rw [tasks_loadData (by rw [htasks]; exact List.not_mem_nil), hsame]
  simp

theorem Synced.waitRetrieval {retrieval : Nat} (h : s.Synced) (htask : s.retrievalTask = some retrieval) :
    ({ s.act [.waitRetrieval s.retrievalTask] with retrievalTask := none } : ReqStatePerLayer).Synced := by
  rw [Synced, htask] at h
  have hact : after (s.act [.waitRetrieval s.retrievalTask]).actions =
      some ⟨[], (s.tasks.items ++ s.ropeTasks.items).map Prod.snd⟩ := by
    rw [act, htask]
    simp only [after_append]
    rw [h]
    simp [Pending.next]
  exact hact

theorem launchTransferTask_retrievalTask (blockHashes : List Hash) :
    ({ s with retrievalTask := none } : ReqStatePerLayer).launchTransferTask config blockHashes =
      { s.launchTransferTask config blockHashes with retrievalTask := none } := by
  rw [launchTransferTask, launchTransferTask]
  cases config.caches <;> rfl

/-- The wait for a retrieval that was started, by a request that keeps no transfers. -/
theorem Synced.waitRetrievalAndStartLoad {retrieval : Nat} {diffBlocks : List Hash} (h : s.Synced)
    (htask : s.retrievalTask = some retrieval) (htasks : s.tasks.items = []) (hrope : s.ropeTasks.items = [])
    (hkeys : KeysDiffer config diffBlocks) :
    ∃ s', s.waitRetrievalAndStartLoad config diffBlocks = .ok s' ∧ s'.Synced ∧ s'.retrievalTask = none ∧
      s'.step = s.step ∧ (s'.tasks.items = [] → s'.ropeTasks.items = []) := by
  have hwaited := h.waitRetrieval htask
  rw [ReqStatePerLayer.waitRetrievalAndStartLoad, htask]
  rw [htask] at hwaited
  dsimp only
  by_cases hdiff : diffBlocks = []
  · rw [if_pos hdiff]
    exact ⟨_, rfl, hwaited, rfl, rfl, fun _ => hrope⟩
  · rw [if_neg hdiff, ← launchTransferTask_retrievalTask]
    obtain ⟨hsynced, hitems⟩ := hwaited.launchTransferTask htasks hrope hdiff hkeys
    obtain ⟨hretrieval, hstep⟩ := launchTransferTask_frame config
      { s.act [.waitRetrieval (some retrieval)] with retrievalTask := none } diffBlocks
    exact ⟨_, rfl, hsynced, hretrieval, hstep, fun hempty => absurd hempty hitems⟩

theorem not_paired_waitRetrieval {diffBlocks : List Hash} (hnone : s.retrievalTask = none) :
    ¬ Paired (done (s.waitRetrievalAndStartLoad config diffBlocks)) := by
  rw [waitRetrievalAndStartLoad, hnone]
  intro hpaired
  rw [Paired, done, act] at hpaired
  simp only [after_append] at hpaired
  cases hafter : after s.actions with
  | none => simp [hafter] at hpaired
  | some pending => simp [hafter, Pending.next] at hpaired

theorem not_paired_startLoad {retrieval : Nat} {diffBlocks : List Hash} (htask : s.retrievalTask = some retrieval)
    (htasks : s.tasks.items = []) (hkeys : ¬ KeysDiffer config diffBlocks) :
    ¬ Paired (done (s.waitRetrievalAndStartLoad config diffBlocks)) := by
  have hdiff : diffBlocks ≠ [] := fun hdiff => hkeys fun _ hne => absurd hdiff hne
  rw [waitRetrievalAndStartLoad, htask]
  dsimp only [done]
  rw [if_neg hdiff]
  exact not_paired_launchTransferTask htasks hkeys

/-- The retrieval that a decode step finds pending was started in the second step of a period, and
the transfers that it finds in the last step of the one before. -/
structure Inv (config : Config Hash) (s : ReqStatePerLayer) : Prop where
  synced : s.Synced
  step_pos : 0 < s.step
  retrieval : s.retrievalTask.isSome ↔ 1 < s.step ∧ 2 ≤ (s.step - 1) % config.retrievalStride
  transfers : s.tasks.items ≠ [] → 1 < s.step ∧ s.step % config.retrievalStride = 1
  rope : s.tasks.items = [] → s.ropeTasks.items = []

/-- What the attention of a decode step needs. -/
structure Ready (config : Config Hash) (step : Nat) (s : ReqStatePerLayer) : Prop where
  synced : s.Synced
  step_eq : s.step = step
  retrieval : s.retrievalTask.isSome ↔ 1 < step ∧ 2 ≤ (step - 1) % config.retrievalStride
  tasks : s.tasks.items = []
  rope : s.ropeTasks.items = []

theorem add_one_mod {m k : Nat} (hk : 0 < k) : (m + 1) % k = if m % k + 1 = k then 0 else m % k + 1 := by
  have hlt := Nat.mod_lt m hk
  rw [Nat.add_mod, Nat.add_mod_mod]
  split_ifs with h
  · rw [h, Nat.mod_self]
  · exact Nat.mod_eq_of_lt (by omega)

/-- What a load in a decode step needs. In the first step of a period of one or two steps no
retrieval was started that its last step could wait for. -/
def Good (config : Config Hash) (step : Nat) (diffBlocks : List Hash) : Prop :=
  (3 ≤ config.retrievalStride ∨ step % config.retrievalStride ≠ 0) ∧
    (step = 1 ∨ step % config.retrievalStride = 0 → KeysDiffer config diffBlocks)

theorem Inv.attentionBegin {diffBlocks : List Hash} (h : s.Inv config)
    (hkeys : s.step = 1 → config.retrievalStride ≠ 1 → KeysDiffer config diffBlocks) :
    ∃ s', s.attentionBegin config diffBlocks = .ok s' ∧ s'.Ready config s.step := by
  rw [ReqStatePerLayer.attentionBegin]
  by_cases hperiod : s.step % config.retrievalStride = 1
  · rw [if_pos hperiod]
    by_cases hfirst : s.step = 1
    · have hnone : s.retrievalTask = none := by
        rw [← Option.not_isSome_iff_eq_none, h.retrieval, hfirst]
        omega
      have htasks : s.tasks.items = [] := by
        by_contra hne
        have := h.transfers hne
        omega
      obtain ⟨s₁, hload, hsynced, htask, hstep, hrope⟩ := (h.synced.startRetrieval hnone).waitRetrievalAndStartLoad rfl
        htasks (h.rope htasks) (hkeys hfirst fun hone => by rw [hone, Nat.mod_one] at hperiod; cases hperiod)
      have hiff : s₁.retrievalTask.isSome ↔ 1 < s.step ∧ 2 ≤ (s.step - 1) % config.retrievalStride := by
        rw [htask, hfirst]
        simp
      rw [if_pos hfirst, hload]
      dsimp only [bind, Except.bind]
      by_cases htransfers : s₁.tasks.items.length > 0
      · rw [if_pos htransfers]
        exact ⟨_, rfl, hsynced.waitTransferTaskDone, hstep, hiff, rfl, rfl⟩
      · have hempty : s₁.tasks.items = [] := List.eq_nil_of_length_eq_zero (by omega)
        rw [if_neg htransfers]
        exact ⟨_, rfl, hsynced, hstep, hiff, hempty, hrope hempty⟩
    · rw [if_neg hfirst]
      dsimp only [bind, Except.bind]
      by_cases htransfers : s.tasks.items.length > 0
      · rw [if_pos htransfers]
        exact ⟨_, rfl, h.synced.waitTransferTaskDone, rfl, h.retrieval, rfl, rfl⟩
      · have hempty : s.tasks.items = [] := List.eq_nil_of_length_eq_zero (by omega)
        rw [if_neg htransfers]
        exact ⟨_, rfl, h.synced, rfl, h.retrieval, hempty, h.rope hempty⟩
  · have hempty : s.tasks.items = [] := by
      by_contra hne
      exact hperiod (h.transfers hne).2
    rw [if_neg hperiod]
    exact ⟨s, rfl, h.synced, rfl, h.retrieval, hempty, h.rope hempty⟩

theorem attentionFinished_eq {n : Nat} (step : Step Hash) (hstep : s.step = n + 1) :
    s.attentionFinished config step =
      if (n + 1) % config.retrievalStride = 0 then
        ((if (n + 1) % config.retrievalStride = 2 then s.startRetrieval else s).waitRetrievalAndStartLoad config
          step.diffBlocks).map fun s => { s with step := s.step + 1 }
      else .ok { (if (n + 1) % config.retrievalStride = 2 then s.startRetrieval else s) with step := n + 2 } := by
  have hkept : (if (n + 1) % config.retrievalStride = 2 then s.startRetrieval else s).step = n + 1 := by
    split_ifs
    · exact hstep
    · exact hstep
  rw [attentionFinished, if_neg (by rw [hstep]; exact Nat.succ_ne_zero n), hstep]
  dsimp only
  rw [hkept]
  by_cases hlast : (n + 1) % config.retrievalStride = 0
  · rw [if_pos hlast, if_pos hlast]
    cases (if (n + 1) % config.retrievalStride = 2 then s.startRetrieval else s).waitRetrievalAndStartLoad config
        step.diffBlocks <;> rfl
  · rw [if_neg hlast, if_neg hlast]
    simp only [bind, Except.bind, hkept]

theorem Ready.attentionFinished {n : Nat} {step : Step Hash} (hn : 0 < n) (hstride : 0 < config.retrievalStride)
    (h : s.Ready config n)
    (hlong : 3 ≤ config.retrievalStride ∨ n % config.retrievalStride ≠ 0)
    (hkeys : n % config.retrievalStride = 0 → KeysDiffer config step.diffBlocks) :
    ∃ s', s.attentionFinished config step = .ok s' ∧ s'.Inv config ∧ s'.step = n + 1 := by
  obtain ⟨n, rfl⟩ := Nat.exists_eq_add_one.mpr hn
  have hmod := add_one_mod (m := n) hstride
  have hnext := add_one_mod (m := n + 1) hstride
  have hretrieval := h.retrieval
  rw [Nat.add_sub_cancel] at hretrieval
  have hle := Nat.mod_le n config.retrievalStride
  rw [attentionFinished_eq step h.step_eq]
  by_cases hsecond : (n + 1) % config.retrievalStride = 2
  · have hnone : s.retrievalTask = none := by
      rw [← Option.not_isSome_iff_eq_none, hretrieval]
      split_ifs at hmod <;> omega
    have hnot : (n + 1) % config.retrievalStride ≠ 0 := by rw [hsecond]; exact two_ne_zero
    rw [if_neg hnot, if_pos hsecond]
    refine ⟨_, rfl, ⟨h.synced.startRetrieval hnone, Nat.succ_pos _, ?_, fun hne => absurd h.tasks hne, fun _ => h.rope⟩, rfl⟩
    apply iff_of_true rfl
    show 1 < n + 2 ∧ 2 ≤ (n + 1) % config.retrievalStride
    omega
  · rw [if_neg hsecond]
    by_cases hlast : (n + 1) % config.retrievalStride = 0
    · have hsome : s.retrievalTask.isSome := by
        rw [hretrieval]
        split_ifs at hmod <;> omega
      obtain ⟨retrieval, htask⟩ := Option.isSome_iff_exists.mp hsome
      obtain ⟨s₁, hload, hsynced, htask₁, hstep, hrope⟩ := h.synced.waitRetrievalAndStartLoad htask h.tasks h.rope (hkeys hlast)
      rw [if_pos hlast, hload]
      rw [h.step_eq] at hstep
      refine ⟨_, rfl, ⟨hsynced, Nat.succ_pos _, ?_, ?_, hrope⟩, congrArg (· + 1) hstep⟩
      · apply iff_of_false
        · dsimp only
          rw [htask₁]
          exact Bool.false_ne_true
        · dsimp only
          rw [hstep, Nat.add_sub_cancel, hlast]
          omega
      · intro _
        dsimp only
        rw [hstep, hnext, if_neg (by omega)]
        omega
    · rw [if_neg hlast]
      refine ⟨_, rfl, ⟨h.synced, Nat.succ_pos _, ?_, fun hne => absurd h.tasks hne, fun _ => h.rope⟩, rfl⟩
      show s.retrievalTask.isSome ↔ 1 < n + 2 ∧ 2 ≤ (n + 1) % config.retrievalStride
      rw [hretrieval]
      split_ifs at hmod <;> omega

/-- A step that needs what is not there. -/
theorem Ready.not_paired {n : Nat} {step : Step Hash} (hn : 0 < n) (hstride : 0 < config.retrievalStride)
    (h : s.Ready config n) (hlast : n % config.retrievalStride = 0)
    (hbad : config.retrievalStride < 3 ∨ ¬ KeysDiffer config step.diffBlocks) :
    ¬ Paired (done (s.attentionFinished config step)) := by
  have hlt : config.retrievalStride < 3 → s.retrievalTask = none := by
    intro hlt
    have := Nat.mod_lt (n - 1) hstride
    rw [← Option.not_isSome_iff_eq_none, h.retrieval]
    omega
  have hdone : done (s.attentionFinished config step) =
      done (s.waitRetrievalAndStartLoad config step.diffBlocks) := by
    obtain ⟨n, rfl⟩ := Nat.exists_eq_add_one.mpr hn
    rw [attentionFinished_eq step h.step_eq, if_pos hlast, if_neg (by omega)]
    cases s.waitRetrievalAndStartLoad config step.diffBlocks with
    | ok s => rfl
    | error s => rfl
  rw [hdone]
  cases htask : s.retrievalTask with
  | none => exact not_paired_waitRetrieval htask
  | some retrieval =>
    obtain hshort | hkeys := hbad
    · rw [hlt hshort] at htask
      cases htask
    · exact not_paired_startLoad htask h.tasks hkeys

/-- The load of the first step needs keys of its own too. -/
theorem Inv.not_paired {diffBlocks : List Hash} (h : s.Inv config) (hfirst : s.step = 1)
    (hstride : 1 < config.retrievalStride) (hkeys : ¬ KeysDiffer config diffBlocks) :
    ¬ Paired (done (s.attentionBegin config diffBlocks)) := by
  have htasks : s.tasks.items = [] := by
    by_contra hne
    have := h.transfers hne
    omega
  have hload : ¬ Paired (done (s.startRetrieval.waitRetrievalAndStartLoad config diffBlocks)) :=
    not_paired_startLoad rfl htasks hkeys
  rw [ReqStatePerLayer.attentionBegin, hfirst, if_pos (Nat.mod_eq_of_lt hstride), if_pos rfl]
  cases hwait : s.startRetrieval.waitRetrievalAndStartLoad config diffBlocks with
  | error s₁ =>
    rw [hwait] at hload
    exact hload
  | ok s₁ =>
    rw [hwait] at hload
    dsimp only [bind, Except.bind]
    split_ifs
    · exact fun hpaired => hload (hpaired.of_append)
    · exact hload

end ReqStatePerLayer

section Actions

variable {Hash : Type*} {config : Config Hash} {s : ReqStatePerLayer}

theorem Paired.of_prefix {actions actions' : List Action} (h : Paired actions') (hpre : actions <+: actions') :
    Paired actions := by
  obtain ⟨more, rfl⟩ := hpre
  exact h.of_append

theorem prefix_bind {actions : List Action} {r : Except ReqStatePerLayer ReqStatePerLayer}
    {f : ReqStatePerLayer → Except ReqStatePerLayer ReqStatePerLayer} (h : actions <+: done r)
    (hf : ∀ s, s.actions <+: done (f s)) : actions <+: done (r.bind f) := by
  cases r with
  | error s => exact h
  | ok s => exact h.trans (hf s)

namespace ReqStatePerLayer

theorem prefix_act (actions : List Action) : s.actions <+: (s.act actions).actions := List.prefix_append _ _

theorem prefix_startRetrieval : s.actions <+: s.startRetrieval.actions := prefix_act _

theorem prefix_waitTransferTaskDone : s.actions <+: s.waitTransferTaskDone.actions := prefix_act _

theorem prefix_launchTransferTask (blockHashes : List Hash) :
    s.actions <+: (s.launchTransferTask config blockHashes).actions := by
  rw [launchTransferTask]
  cases config.caches with
  | keyValue => exact (List.prefix_append s.actions _).trans (List.prefix_append _ _)
  | latent => exact List.prefix_append s.actions _
  | latentRope => exact (List.prefix_append s.actions _).trans (List.prefix_append _ _)

theorem prefix_waitRetrievalAndStartLoad (diffBlocks : List Hash) :
    s.actions <+: done (s.waitRetrievalAndStartLoad config diffBlocks) := by
  rw [waitRetrievalAndStartLoad]
  split
  · exact prefix_act _
  · dsimp only [done]
    split_ifs
    · exact prefix_act _
    · exact (prefix_act _).trans (prefix_launchTransferTask diffBlocks)

theorem prefix_attentionBegin (diffBlocks : List Hash) : s.actions <+: done (s.attentionBegin config diffBlocks) := by
  have hwait : ∀ s₁ : ReqStatePerLayer, s₁.actions <+:
      done (if s₁.tasks.items.length > 0 then .ok s₁.waitTransferTaskDone else .ok s₁) := by
    intro s₁
    split_ifs
    · exact prefix_waitTransferTaskDone
    · exact List.prefix_rfl
  rw [attentionBegin]
  split_ifs
  · exact prefix_bind (prefix_startRetrieval.trans (prefix_waitRetrievalAndStartLoad diffBlocks)) hwait
  · exact prefix_bind List.prefix_rfl hwait
  · exact List.prefix_rfl

theorem prefix_attentionFinished (step : Step Hash) : s.actions <+: done (s.attentionFinished config step) := by
  cases hn : s.step with
  | zero =>
    rw [attentionFinished, if_pos hn]
    split_ifs
    · exact List.prefix_rfl
    · exact List.prefix_rfl
  | succ n =>
    have hstarted : s.actions <+:
        (if (n + 1) % config.retrievalStride = 2 then s.startRetrieval else s).actions := by
      split_ifs
      · exact prefix_startRetrieval
      · exact List.prefix_rfl
    rw [attentionFinished_eq step hn]
    by_cases hlast : (n + 1) % config.retrievalStride = 0
    · have hload : s.actions <+: done ((if (n + 1) % config.retrievalStride = 2 then s.startRetrieval
          else s).waitRetrievalAndStartLoad config step.diffBlocks) :=
        hstarted.trans (prefix_waitRetrievalAndStartLoad step.diffBlocks)
      rw [if_pos hlast]
      revert hload
      cases (if (n + 1) % config.retrievalStride = 2 then s.startRetrieval else s).waitRetrievalAndStartLoad config
          step.diffBlocks with
      | error s₁ => exact id
      | ok s₁ => exact id
    · rw [if_neg hlast]
      exact hstarted

theorem prefix_runStep (step : Step Hash) : s.actions <+: done (s.runStep config step) :=
  prefix_bind (prefix_attentionBegin step.diffBlocks)
    fun _ => (prefix_act _).trans (prefix_attentionFinished step)

theorem prefix_run (steps : List (Step Hash)) : s.actions <+: done (s.run config steps) := by
  induction steps generalizing s with
  | nil => exact List.prefix_rfl
  | cons step steps ih => exact prefix_bind (prefix_runStep step) fun _ => ih

/-- A decode step that has what it needs leads to the next one. -/
theorem Inv.runStep {step : Step Hash} (h : s.Inv config) (hstride : 0 < config.retrievalStride)
    (hgood : Good config s.step step.diffBlocks) :
    ∃ s', s.runStep config step = .ok s' ∧ s'.Inv config ∧ s'.step = s.step + 1 := by
  obtain ⟨hlong, hkeys⟩ := hgood
  obtain ⟨s₁, hbegin, hready⟩ := h.attentionBegin fun hfirst _ => hkeys (.inl hfirst)
  have hattention : (s₁.act [.attention]).Ready config s.step :=
    ⟨hready.synced.attention hready.tasks hready.rope, hready.step_eq, hready.retrieval, hready.tasks, hready.rope⟩
  obtain ⟨s₂, hfinished, hinv, hstep⟩ := hattention.attentionFinished h.step_pos hstride hlong fun hlast => hkeys (.inr hlast)
  refine ⟨s₂, ?_, hinv, hstep⟩
  rw [ReqStatePerLayer.runStep, hbegin]
  exact hfinished

theorem Inv.not_paired_runStep {step : Step Hash} (h : s.Inv config) (hstride : 0 < config.retrievalStride)
    (hbad : ¬ Good config s.step step.diffBlocks) : ¬ Paired (done (s.runStep config step)) := by
  by_cases hbegin : s.step = 1 → config.retrievalStride ≠ 1 → KeysDiffer config step.diffBlocks
  · obtain ⟨s₁, hbegin', hready⟩ := h.attentionBegin hbegin
    have hattention : (s₁.act [.attention]).Ready config s.step :=
      ⟨hready.synced.attention hready.tasks hready.rope, hready.step_eq, hready.retrieval, hready.tasks, hready.rope⟩
    have hlast : s.step % config.retrievalStride = 0 ∧
        (config.retrievalStride < 3 ∨ ¬ KeysDiffer config step.diffBlocks) := by
      by_cases hlast : s.step % config.retrievalStride = 0
      · refine ⟨hlast, ?_⟩
        by_contra hnot
        obtain ⟨hlong, hkeys⟩ := not_or.mp hnot
        exact hbad ⟨.inl (not_lt.mp hlong), fun _ => not_not.mp hkeys⟩
      · -- Only the load of the first step is left.
        refine absurd ⟨.inr hlast, ?_⟩ hbad
        intro hload
        have hfirst := hload.resolve_right hlast
        refine hbegin hfirst ?_
        intro hone
        rw [hone, Nat.mod_one] at hlast
        exact hlast rfl
    have hfinished := hattention.not_paired h.step_pos hstride hlast.1 hlast.2
    rw [ReqStatePerLayer.runStep, hbegin']
    exact hfinished
  · simp only [not_forall] at hbegin
    obtain ⟨hfirst, hone, hkeys⟩ := hbegin
    have hnot := h.not_paired hfirst (by omega) hkeys
    intro hpaired
    apply hnot
    refine hpaired.of_prefix (prefix_bind List.prefix_rfl ?_)
    exact fun _ => (prefix_act _).trans (prefix_attentionFinished step)

/-- The decode steps of a run. -/
theorem Inv.run {steps : List (Step Hash)} (h : s.Inv config) (hstride : 0 < config.retrievalStride) :
    Paired (done (s.run config steps)) ↔
      ∀ i step, steps[i]? = some step → Good config (s.step + i) step.diffBlocks := by
  induction steps generalizing s with
  | nil => exact iff_of_true h.synced.paired (by simp)
  | cons step steps ih =>
    by_cases hgood : Good config s.step step.diffBlocks
    · obtain ⟨s₁, hstep, hinv, hnext⟩ := h.runStep hstride hgood
      rw [ReqStatePerLayer.run, hstep]
      refine (ih hinv).trans ⟨?_, ?_⟩
      · intro hrest i
        cases i with
        | zero =>
          intro step' hstep'
          cases hstep'
          exact hgood
        | succ i =>
          intro step' hstep'
          have hi := hrest i step' hstep'
          rwa [hnext, Nat.add_right_comm, Nat.add_assoc] at hi
      · intro hall i step' hstep'
        have hi := hall (i + 1) step' hstep'
        rwa [hnext, Nat.add_right_comm, Nat.add_assoc]
    · refine iff_of_false ?_ fun hall => hgood (hall 0 step rfl)
      intro hpaired
      apply h.not_paired_runStep hstride hgood
      exact hpaired.of_prefix (prefix_bind List.prefix_rfl fun _ => prefix_run steps)

/-- Before the last chunk of the prompt nothing is started. -/
structure Fresh (s : ReqStatePerLayer) : Prop where
  synced : s.Synced
  step : s.step = 0
  retrieval : s.retrievalTask = none
  tasks : s.tasks.items = []
  rope : s.ropeTasks.items = []

theorem fresh_init : init.Fresh := ⟨rfl, rfl, rfl, rfl, rfl⟩

theorem Fresh.runStep (h : s.Fresh) (step : Step Hash) :
    ∃ s', s.runStep config step = .ok s' ∧ if step.isLastChunk then s'.Inv config ∧ s'.step = 1 else s'.Fresh := by
  have hattention := h.synced.attention h.tasks h.rope
  have hbegin : s.attentionBegin config step.diffBlocks = .ok s := by
    rw [ReqStatePerLayer.attentionBegin, h.step, Nat.zero_mod, if_neg Nat.zero_ne_one]
  rw [ReqStatePerLayer.runStep, hbegin]
  refine ⟨_, if_pos h.step, ?_⟩
  cases step.isLastChunk with
  | false => exact ⟨hattention, h.step, h.retrieval, h.tasks, h.rope⟩
  | true =>
    refine ⟨⟨hattention, Nat.succ_pos _, ?_, fun hne => absurd h.tasks hne, fun _ => h.rope⟩, congrArg (· + 1) h.step⟩
    show s.retrievalTask.isSome ↔ 1 < s.step + 1 ∧ _
    rw [h.retrieval, h.step]
    simp

/-- The steps after the last chunk of the prompt. -/
def decodeSteps (steps : List (Step Hash)) : List (Step Hash) := (steps.dropWhile fun step => !step.isLastChunk).tail

theorem Fresh.run {steps : List (Step Hash)} (h : s.Fresh) (hstride : 0 < config.retrievalStride) :
    Paired (done (s.run config steps)) ↔
      ∀ i step, (decodeSteps steps)[i]? = some step → Good config (i + 1) step.diffBlocks := by
  induction steps generalizing s with
  | nil => exact iff_of_true h.synced.paired (by simp [decodeSteps])
  | cons step steps ih =>
    obtain ⟨s₁, hstep, hnext⟩ : ∃ s', s.runStep config step = .ok s' ∧
        if step.isLastChunk then s'.Inv config ∧ s'.step = 1 else s'.Fresh := h.runStep step
    rw [ReqStatePerLayer.run, hstep]
    cases hlast : step.isLastChunk with
    | false =>
      rw [if_neg (by rw [hlast]; exact Bool.false_ne_true)] at hnext
      have hdrop : decodeSteps (step :: steps) = decodeSteps steps := by
        rw [decodeSteps, List.dropWhile_cons_of_pos (by simp [hlast]), decodeSteps]
      rw [hdrop]
      exact ih hnext
    | true =>
      rw [if_pos hlast] at hnext
      have hdrop : decodeSteps (step :: steps) = steps := by
        rw [decodeSteps, List.dropWhile_cons_of_neg (by simp [hlast]), List.tail_cons]
      rw [hdrop]
      have hrun : Paired (done (s₁.run config steps)) ↔ _ := hnext.1.run hstride
      simp only [hnext.2, Nat.add_comm 1] at hrun
      exact hrun

end ReqStatePerLayer

end Actions

open ReqStatePerLayer

/-- The starts and waits of a request are paired exactly when a period has three steps or is not
over, and every load keeps its two transfers under two keys. -/
theorem paired_iff {Hash : Type*} (config : Config Hash) (hstride : 1 ≤ config.retrievalStride)
    (steps : List (Step Hash)) :
    Paired (done (init.run config steps)) ↔
      (3 ≤ config.retrievalStride ∨ (decodeSteps steps).length < config.retrievalStride) ∧
        ∀ i step, (decodeSteps steps)[i]? = some step → i = 0 ∨ (i + 1) % config.retrievalStride = 0 →
          KeysDiffer config step.diffBlocks := by
  rw [fresh_init.run hstride]
  constructor
  · intro hall
    refine ⟨?_, fun i step hstep hload => (hall i step hstep).2 (hload.imp_left fun hi => by rw [hi])⟩
    by_contra hnot
    obtain ⟨hshort, hover⟩ := not_or.mp hnot
    have hlast : config.retrievalStride - 1 < (decodeSteps steps).length := by omega
    have hgood := (hall _ _ (List.getElem?_eq_getElem hlast)).1
    rw [Nat.sub_add_cancel hstride, Nat.mod_self] at hgood
    exact hgood.elim hshort fun hne => hne rfl
  · intro ⟨hlong, hkeys⟩ i step hstep
    refine ⟨hlong.imp_right fun hlt => ?_, fun hload => hkeys i step hstep (hload.imp_left fun hi => by omega)⟩
    have hi := (List.getElem?_eq_some_iff.mp hstep).1
    rw [Nat.mod_eq_of_lt (by omega)]
    exact Nat.succ_ne_zero i

def everyThirdStep : Config Nat := ⟨3, .keyValue, fun blockHashes type => blockHashes.length * 2 + if type = .key then 0 else 1⟩

/-- A prompt in two chunks and five decode steps, each of which would load a block. -/
theorem paired_everyThirdStep :
    Paired (done (init.run everyThirdStep (⟨false, [0]⟩ :: List.replicate 6 ⟨true, [0]⟩))) := by
  refine (paired_iff everyThirdStep (by decide) _).mpr ⟨.inl (by decide), ?_⟩
  intro _ _ _ _ _ _
  simp [everyThirdStep]

/-- With a period of two steps, the second decode step waits for a retrieval that was not started. -/
theorem not_paired_twoSteps :
    ¬ ∀ (config : Config Nat) (steps : List (Step Nat)), 1 ≤ config.retrievalStride →
      (∀ blockHashes, config.taskHashFunc blockHashes .key ≠ config.taskHashFunc blockHashes .value) →
      Paired (done (init.run config steps)) := by
  intro h
  have hpaired := h { everyThirdStep with retrievalStride := 2 } (List.replicate 3 ⟨true, []⟩) (by decide)
    (by simp [everyThirdStep])
  revert hpaired
  unfold Paired
  decide

end UnifiedCache.Sparse.EsaSchedule
