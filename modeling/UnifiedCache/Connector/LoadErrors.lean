import UnifiedCache.Connector.Worker
import UnifiedCache.Lib.StepSystem

/-! The block ids that a step reports are those of the requests of which a load or a wait raised. -/

namespace UnifiedCache.Connector

variable {BlockId ReqId : Type*}

/-- A load or a wait of the request raised in the step. -/
def Worker.LoadFailed (raises : Raises ReqId) (w : Worker BlockId ReqId) (requestId : ReqId) : Prop :=
  (∃ x ∈ w.submitted, x.task.request = some requestId ∧ raises.submit x.task = true) ∨
    ∃ x ∈ w.waited, x.2.request = some requestId ∧ raises.wait x.1 x.2 = true

variable {raises : Raises ReqId} {w : Worker BlockId ReqId} {requestId : ReqId}

theorem exists_mem_attempt_request {α : Type*} (raises : α → Bool) {task : α → Task ReqId} {as : List α}
    (r : ReqId) (h : ∀ a ∈ as, (task a).request = some requestId) :
    (∃ a ∈ attempt raises as, (task a).request = some r ∧ raises a = true) ↔
      r = requestId ∧ as.any raises = true := by
  rw [← exists_mem_attempt]
  constructor
  · intro ⟨a, ha, hr, hraises⟩
    have hid := hr.symm.trans (h a (mem_of_mem_attempt ha))
    exact ⟨Option.some.inj hid, a, ha, hraises⟩
  · intro ⟨hr, a, ha, hraises⟩
    exact ⟨a, ha, hr ▸ h a (mem_of_mem_attempt ha), hraises⟩

theorem loadFailed_submit {submissions : List (Submission BlockId ReqId)} (r : ReqId)
    (h : ∀ x ∈ submissions, x.task.request = some requestId) :
    (w.submit raises submissions).LoadFailed raises r ↔
      w.LoadFailed raises r ∨ r = requestId ∧ submissions.any (fun x => raises.submit x.task) = true := by
  have hnew := exists_mem_attempt_request (fun x => raises.submit x.task) r h
  unfold Worker.LoadFailed Worker.submit
  simp only [List.mem_append, or_and_right, exists_or, hnew]
  exact or_right_comm

theorem loadFailed_wait {waits : List (StoreName × Task ReqId)} (r : ReqId)
    (h : ∀ x ∈ waits, x.2.request = some requestId) :
    (w.wait raises waits).LoadFailed raises r ↔
      w.LoadFailed raises r ∨ r = requestId ∧ waits.any (fun x => raises.wait x.1 x.2) = true := by
  have hnew := exists_mem_attempt_request (fun x => raises.wait x.1 x.2) r h
  unfold Worker.LoadFailed Worker.wait
  simp only [List.mem_append, or_and_right, exists_or, hnew]
  exact or_assoc.symm

theorem loadFailed_submit_dump {submissions : List (Submission BlockId ReqId)} (r : ReqId)
    (h : ∀ x ∈ submissions, x.task.request = none) :
    (w.submit raises submissions).LoadFailed raises r ↔ w.LoadFailed raises r := by
  have hnone : ¬ ∃ x ∈ attempt (fun x => raises.submit x.task) submissions,
      x.task.request = some r ∧ raises.submit x.task = true := by
    intro ⟨x, hx, hr, _⟩
    rw [h x (mem_of_mem_attempt hx)] at hr
    cases hr
  unfold Worker.LoadFailed Worker.submit
  simp only [List.mem_append, or_and_right, exists_or, hnone, or_false]

theorem loadFailed_wait_dump {waits : List (StoreName × Task ReqId)} (r : ReqId)
    (h : ∀ x ∈ waits, x.2.request = none) :
    (w.wait raises waits).LoadFailed raises r ↔ w.LoadFailed raises r := by
  have hnone : ¬ ∃ x ∈ attempt (fun x => raises.wait x.1 x.2) waits,
      x.2.request = some r ∧ raises.wait x.1 x.2 = true := by
    intro ⟨x, hx, hr, _⟩
    rw [h x (mem_of_mem_attempt hx)] at hr
    cases hr
  unfold Worker.LoadFailed Worker.wait
  simp only [List.mem_append, or_and_right, exists_or, hnone, or_false]

variable [DecidableEq ReqId] {metadata : Dict ReqId (RequestDispatchMeta BlockId)}

/-- The invalid blocks are those of the requests that failed so far. -/
structure Reported (metadata : Dict ReqId (RequestDispatchMeta BlockId)) (raises : Raises ReqId)
    (w : Worker BlockId ReqId) : Prop where
  vllmBlockIds : ∀ requestId, (w.metadata.get? requestId).map (fun request => request.loadBlockIds.2) =
    (metadata.get? requestId).map fun request => request.loadBlockIds.2
  invalid : ∀ b, b ∈ w.invalidBlockIds ↔ ∃ requestId request, metadata.get? requestId = some request ∧
    w.LoadFailed raises requestId ∧ b ∈ request.loadBlockIds.2

/-- The tasks that are kept for a request are its own. -/
def TasksOf (metadata : Dict ReqId (RequestDispatchMeta BlockId)) (tasks : Dict ReqId (List (Task ReqId))) : Prop :=
  ∀ item ∈ tasks.items, (metadata.get? item.1).isSome ∧ ∀ task ∈ item.2, task.request = some item.1

theorem Reported.of_same {t : Worker BlockId ReqId} (hr : Reported metadata raises w)
    (hmeta : ∀ r, (t.metadata.get? r).map (fun request => request.loadBlockIds.2) =
      (w.metadata.get? r).map fun request => request.loadBlockIds.2)
    (hinvalid : t.invalidBlockIds = w.invalidBlockIds)
    (hfailed : ∀ r, t.LoadFailed raises r ↔ w.LoadFailed raises r) : Reported metadata raises t where
  vllmBlockIds r := (hmeta r).trans (hr.vllmBlockIds r)
  invalid b := by
    rw [hinvalid, hr.invalid]
    simp only [hfailed]

/-- The failure of a request is added to what is reported. -/
theorem Reported.of_failed {t : Worker BlockId ReqId} {failed : Bool} (hr : Reported metadata raises w)
    (hid : (metadata.get? requestId).isSome) (hmeta : t.metadata = w.metadata)
    (hinvalid : t.invalidBlockIds = w.invalidBlockIds)
    (hfailed : ∀ r, t.LoadFailed raises r ↔ w.LoadFailed raises r ∨ r = requestId ∧ failed = true) :
    Reported metadata raises (if failed then t.loadFailed requestId else t) := by
  cases failed with
  | false =>
    have hsame : ∀ r, t.LoadFailed raises r ↔ w.LoadFailed raises r := by simpa using hfailed
    constructor
    · simpa [hmeta] using hr.vllmBlockIds
    · simpa [hinvalid, hsame] using hr.invalid
  | true =>
    obtain ⟨request, hrequest⟩ := Option.isSome_iff_exists.mp hid
    have hids := hr.vllmBlockIds requestId
    rw [hrequest, ← hmeta] at hids
    obtain ⟨request', hrequest', hsame⟩ := Option.map_eq_some_iff.mp hids
    have hunion : (t.loadFailed requestId).invalidBlockIds =
        w.invalidBlockIds ∪ request'.loadBlockIds.2.toFinset := by
      rw [Worker.loadFailed, hrequest', ← hinvalid]
    have hkept : (t.loadFailed requestId).metadata = w.metadata := by
      rw [Worker.loadFailed, hrequest', ← hmeta]
    have hmore : ∀ r, (t.loadFailed requestId).LoadFailed raises r ↔ w.LoadFailed raises r ∨ r = requestId := by
      have hsimple : ∀ r, t.LoadFailed raises r ↔ w.LoadFailed raises r ∨ r = requestId := by simpa using hfailed
      rw [Worker.loadFailed, hrequest']
      exact hsimple
    rw [if_pos rfl]
    constructor
    · rw [hkept]
      exact hr.vllmBlockIds
    · intro b
      rw [hunion, Finset.mem_union, List.mem_toFinset, hr.invalid, hsame]
      constructor
      · intro hb
        obtain ⟨r, request'', hr', hf, hb⟩ | hb := hb
        · exact ⟨r, request'', hr', (hmore r).mpr (Or.inl hf), hb⟩
        · exact ⟨requestId, request, hrequest, (hmore requestId).mpr (Or.inr rfl), hb⟩
      · rintro ⟨r, request'', hr', hf, hb⟩
        obtain hf | rfl := (hmore r).mp hf
        · exact Or.inl ⟨r, request'', hr', hf, hb⟩
        · exact Or.inr (Option.some.inj (hrequest.symm.trans hr') ▸ hb)

theorem Reported.tryLoad {submissions : List (Submission BlockId ReqId)} (hr : Reported metadata raises w)
    (hid : (metadata.get? requestId).isSome) (h : ∀ x ∈ submissions, x.task.request = some requestId) :
    Reported metadata raises (w.tryLoad raises requestId submissions) :=
  hr.of_failed hid rfl rfl fun r => loadFailed_submit r h

theorem Reported.tryWait {waits : List (StoreName × Task ReqId)} (hr : Reported metadata raises w)
    (hid : (metadata.get? requestId).isSome) (h : ∀ x ∈ waits, x.2.request = some requestId) :
    Reported metadata raises (w.tryWait raises requestId waits) :=
  hr.of_failed hid rfl rfl fun r => loadFailed_wait r h

theorem Reported.submit_dump {submissions : List (Submission BlockId ReqId)} (hr : Reported metadata raises w)
    (h : ∀ x ∈ submissions, x.task.request = none) : Reported metadata raises (w.submit raises submissions) :=
  hr.of_same (fun _ => rfl) rfl fun r => loadFailed_submit_dump r h

theorem Reported.wait_dump (hr : Reported metadata raises w) (waits : List (StoreName × Task ReqId))
    (h : ∀ x ∈ waits, x.2.request = none) : Reported metadata raises (w.wait raises waits) :=
  hr.of_same (fun _ => rfl) rfl fun r => loadFailed_wait_dump r h

theorem TasksOf.set {tasks : Dict ReqId (List (Task ReqId))} {ts : List (Task ReqId)} (h : TasksOf metadata tasks)
    (hid : (metadata.get? requestId).isSome) (hts : ∀ task ∈ ts, task.request = some requestId) :
    TasksOf metadata (tasks.set requestId ts) := by
  intro ⟨r, ts'⟩ hitem
  rw [Dict.mem_set] at hitem
  split_ifs at hitem with he
  · subst he hitem
    exact ⟨hid, hts⟩
  · exact h _ hitem

theorem TasksOf.pop {tasks : Dict ReqId (List (Task ReqId))} (h : TasksOf metadata tasks) :
    TasksOf metadata (tasks.pop requestId) :=
  fun item hitem => h item (List.mem_of_mem_filter hitem)

theorem tasksOf_empty : TasksOf metadata (Dict.empty : Dict ReqId (List (Task ReqId))) := by
  intro item hitem
  cases hitem

theorem reported_bind (h : w.invalidBlockIds = ∅) : Reported metadata raises (w.bindConnectorMetadata metadata) where
  vllmBlockIds _ := rfl
  invalid b := by
    simp [Worker.bindConnectorMetadata, Worker.LoadFailed, h]

variable {config : WorkerConfig BlockId}

theorem get?_rehashLoad (d : Dict ReqId (RequestDispatchMeta BlockId)) (r : ReqId) :
    ((d.mapVals config.rehashLoad).get? r).map (fun request => request.loadBlockIds.2) =
      (d.get? r).map fun request => request.loadBlockIds.2 := by
  rw [Dict.get?_mapVals, Option.map_map]
  congr 1
  funext request
  simp only [Function.comp_apply, WorkerConfig.rehashLoad]
  split_ifs <;> rfl

theorem get?_rehashDump (d : Dict ReqId (RequestDispatchMeta BlockId)) (r : ReqId) :
    ((d.mapVals config.rehashDump).get? r).map (fun request => request.loadBlockIds.2) =
      (d.get? r).map fun request => request.loadBlockIds.2 := by
  rw [Dict.get?_mapVals, Option.map_map]
  congr 1
  funext request
  simp only [Function.comp_apply, WorkerConfig.rehashDump]
  split_ifs <;> rfl

/-- The requests of a step stay those that it was bound to. -/
theorem Reported.known (hr : Reported metadata raises w) {item : ReqId × RequestDispatchMeta BlockId}
    (h : item ∈ w.metadata.items) : (metadata.get? item.1).isSome := by
  have hids := hr.vllmBlockIds item.1
  rw [Dict.mem_items.mp h] at hids
  obtain ⟨request, hrequest, _⟩ := Option.map_eq_some_iff.mp hids.symm
  exact Option.isSome_of_mem hrequest

namespace UCMDirectConnector

omit [DecidableEq ReqId] in
theorem request_of_mem_submissions {task : Bool → Task ReqId} {blockIds : List BlockId} {vllmBlockIds : List Nat}
    {r : Option ReqId} (h : ∀ second, (task second).request = r)
    {x : Submission BlockId ReqId} (hx : x ∈ submissions config task blockIds vllmBlockIds) : x.task.request = r := by
  unfold submissions at hx
  obtain _ | ⟨_, hx⟩ := hx
  · exact h false
  · obtain ⟨ropeTensors, _, rfl⟩ := Option.map_eq_some_iff.mp (Option.mem_toList.mp hx)
    exact h true

theorem reported_loadRequest {loaded : Worker BlockId ReqId × Dict ReqId (List (Task ReqId))}
    {item : ReqId × RequestDispatchMeta BlockId} (hid : (metadata.get? item.1).isSome)
    (h : Reported metadata raises loaded.1 ∧ TasksOf metadata loaded.2) :
    Reported metadata raises (loadRequest config raises loaded item).1 ∧
      TasksOf metadata (loadRequest config raises loaded item).2 := by
  unfold loadRequest
  split_ifs
  · exact h
  · have hrequest : ∀ x ∈ submissions config (.load item.1 0) item.2.loadBlockIds.1 item.2.loadBlockIds.2,
        x.task.request = some item.1 := fun x hx => request_of_mem_submissions (r := some item.1) (fun _ => rfl) hx
    dsimp only
    refine ⟨h.1.tryLoad hid hrequest, ?_⟩
    split_ifs
    · exact h.2
    · apply h.2.set hid
      intro task htask
      obtain ⟨x, hx, rfl⟩ := List.mem_map.mp htask
      exact hrequest x ((List.takeWhile_prefix _).subset hx)

theorem reported_loads (hr : Reported metadata raises w) :
    let loaded := w.metadata.items.foldl (loadRequest config raises) (w, Dict.empty)
    Reported metadata raises (loaded.2.items.foldl (waitRequest raises) loaded.1) := by
  have hloaded : Reported metadata raises (w.metadata.items.foldl (loadRequest config raises) (w, Dict.empty)).1 ∧
      TasksOf metadata (w.metadata.items.foldl (loadRequest config raises) (w, Dict.empty)).2 :=
    List.foldlRecOn (motive := fun loaded : Worker BlockId ReqId × Dict ReqId (List (Task ReqId)) =>
      Reported metadata raises loaded.1 ∧ TasksOf metadata loaded.2) _ _ ⟨hr, tasksOf_empty⟩
      fun _ h item hitem => reported_loadRequest (hr.known hitem) h
  apply List.foldlRecOn (motive := Reported metadata raises) _ _ hloaded.1
  intro w hr item hitem
  obtain ⟨hid, htasks⟩ := hloaded.2 item hitem
  exact hr.tryWait hid fun x hx => htasks x.2 (mem_of_mem_indexed hx)

theorem reported_startLoadKv (hr : Reported metadata raises w) :
    Reported metadata raises (startLoadKv config raises w) :=
  reported_loads (hr.of_same (get?_rehashLoad w.metadata) rfl fun _ => Iff.rfl)

theorem reported_waitForSave (hr : Reported metadata raises w) :
    Reported metadata raises (waitForSave config raises w) := by
  unfold waitForSave
  split_ifs
  · exact hr
  · have hr₁ : Reported metadata raises { w with metadata := w.metadata.mapVals config.rehashDump } :=
      hr.of_same (get?_rehashDump w.metadata) rfl fun _ => Iff.rfl
    by_cases hsave : savesAny (w.metadata.mapVals config.rehashDump) = true
    · dsimp only
      rw [if_pos hsave]
      have hsubmit : ∀ x : Submission BlockId ReqId,
          x ∈ submissions config (.dump 0) (totalDump (w.metadata.mapVals config.rehashDump)).1
            (totalDump (w.metadata.mapVals config.rehashDump)).2 → x.task.request = none :=
        fun x hx => request_of_mem_submissions (r := none) (fun _ => rfl) hx
      have hr₂ := fun places => (hr₁.submit_dump hsubmit).wait_dump (indexed ((returned (fun x =>
        raises.submit x.task) _).map Submission.task) places) fun x hx => by
          obtain ⟨y, hy, he⟩ := List.mem_map.mp (mem_of_mem_indexed hx)
          rw [← he]
          exact hsubmit y ((List.takeWhile_prefix _).subset hy)
      exact (hr₂ _).of_same (fun _ => rfl) rfl fun _ => Iff.rfl
    · dsimp only
      rw [if_neg hsave]
      exact hr₁

end UCMDirectConnector

/-- Nothing is left of an earlier step. -/
structure Worker.Idle (w : Worker BlockId ReqId) : Prop where
  invalidBlockIds : w.invalidBlockIds = ∅
  dumpTasks : w.dumpTasks = []
  isSave : w.isSave = false

namespace UCMLayerWiseConnector

/-- What holds between the layers. -/
structure Layered (metadata : Dict ReqId (RequestDispatchMeta BlockId)) (raises : Raises ReqId)
    (w : Worker BlockId ReqId) : Prop where
  reported : Reported metadata raises w
  loads : TasksOf metadata w.loadTasks
  dumps : ∀ task ∈ w.dumpTasks, task.request = none
  saves : w.isSave = false → w.dumpTasks = []

omit [DecidableEq ReqId] in
theorem request_of_mem_layerSubmissions {task : Nat → Bool → Task ReqId} {blockIds : List BlockId}
    {vllmBlockIds : List Nat} {layer : Nat} {r : Option ReqId} (h : ∀ second, (task layer second).request = r)
    {x : Submission BlockId ReqId} (hx : x ∈ layerSubmissions config task blockIds vllmBlockIds layer) :
    x.task.request = r := by
  rw [layerSubmissions, List.mem_cons] at hx
  obtain rfl | hx := hx
  · exact h false
  · cases hk : config.kind with
    | mla => simp [hk] at hx
    | dsa =>
      simp only [hk, List.mem_singleton] at hx
      exact hx ▸ h true
    | keyValue =>
      simp only [hk, List.mem_singleton] at hx
      exact hx ▸ h true

theorem layered_loadRequest {item : ReqId × RequestDispatchMeta BlockId} (hid : (metadata.get? item.1).isSome)
    (h : Layered metadata raises w) : Layered metadata raises (loadRequest config raises w item) := by
  unfold loadRequest
  split_ifs with hempty
  · exact h
  · have hrequest : ∀ x : Submission BlockId ReqId, x ∈ (List.range config.numLayers).flatMap
        (layerSubmissions config (.load item.1) item.2.loadBlockIds.1 item.2.loadBlockIds.2) →
        x.task.request = some item.1 := by
      intro x hx
      obtain ⟨layer, _, hx⟩ := List.mem_flatMap.mp hx
      exact request_of_mem_layerSubmissions (r := some item.1) (fun _ => rfl) hx
    constructor
    · exact (h.reported.tryLoad hid hrequest).of_same (fun _ => rfl) rfl fun _ => Iff.rfl
    · dsimp only
      split_ifs
      · exact h.loads.pop
      · exact h.loads
      · apply h.loads.set hid
        intro task htask
        obtain ⟨x, hx, rfl⟩ := List.mem_map.mp htask
        exact hrequest x hx
    · simpa using h.dumps
    · simpa using h.saves

theorem layered_startLoadKv (config : WorkerConfig BlockId) (hr : Reported metadata raises w) (hdump : w.dumpTasks = []) :
    Layered metadata raises (startLoadKv config raises w) := by
  have hr₁ : Reported metadata raises { w with
      metadata := w.metadata.mapVals config.rehashLoad
      loadTasks := Dict.empty } := hr.of_same (get?_rehashLoad w.metadata) rfl fun _ => Iff.rfl
  apply List.foldlRecOn (motive := Layered metadata raises) _ _
  · exact ⟨hr₁, tasksOf_empty, by simp [hdump], fun _ => hdump⟩
  · intro w h item hitem
    exact layered_loadRequest (hr₁.known hitem) h

theorem layered_waitForLayerLoad {layer : Nat} (h : Layered metadata raises w) :
    Layered metadata raises (waitForLayerLoad config raises w layer) := by
  apply List.foldlRecOn (motive := Layered metadata raises) _ _ h
  intro t ht item hitem
  obtain ⟨hid, htasks⟩ := h.loads item hitem
  constructor
  · exact ht.reported.tryWait hid fun x hx => htasks x.2 (mem_of_mem_indexed hx)
  · simpa using ht.loads
  · simpa using ht.dumps
  · simpa using ht.saves

theorem layered_saveKvLayer {layer : Nat} (h : Layered metadata raises w) :
    Layered metadata raises (saveKvLayer config raises w layer) := by
  unfold saveKvLayer
  by_cases hshared : config.shared = true ∧ config.tpRank ≠ 0
  · rw [if_pos hshared]
    exact h
  · rw [if_neg hshared]
    have hmeta : ∀ r, ((if layer = 0 then w.metadata.mapVals config.rehashDump else w.metadata).get? r).map
        (fun request => request.loadBlockIds.2) =
        (w.metadata.get? r).map fun request => request.loadBlockIds.2 := by
      intro r
      split_ifs
      · exact get?_rehashDump w.metadata r
      · rfl
    dsimp only
    generalize (if layer = 0 then w.metadata.mapVals config.rehashDump else w.metadata) = saved at hmeta ⊢
    have h₁ : Layered metadata raises { w with metadata := saved, isSave := w.isSave || savesAny saved } :=
      ⟨h.reported.of_same hmeta rfl fun _ => Iff.rfl, h.loads, h.dumps,
        fun hsave => h.saves (Bool.or_eq_false_iff.mp hsave).1⟩
    by_cases hsave : (w.isSave || savesAny saved) = true
    · rw [if_pos hsave]
      have hsubmit : ∀ x : Submission BlockId ReqId, x ∈ layerSubmissions config .dump (totalDump saved).1
          (totalDump saved).2 layer → x.task.request = none :=
        fun x hx => request_of_mem_layerSubmissions (r := none) (fun _ => rfl) hx
      constructor
      · exact (h₁.reported.submit_dump hsubmit).of_same (fun _ => rfl) rfl fun _ => Iff.rfl
      · exact h₁.loads
      · intro task htask
        obtain htask | htask := List.mem_append.mp htask
        · exact h.dumps task htask
        · obtain ⟨x, hx, rfl⟩ := List.mem_map.mp htask
          exact hsubmit x ((List.takeWhile_prefix _).subset hx)
      · intro hno
        have hno' : (w.isSave || savesAny saved) = false := hno
        exact absurd hsave (by simp [hno'])
    · rw [if_neg hsave]
      exact h₁

theorem reported_waitForSave (h : Layered metadata raises w) :
    Reported metadata raises (waitForSave config raises w) := by
  unfold waitForSave
  split_ifs
  · have hwait := fun places => h.reported.wait_dump (indexed w.dumpTasks places) fun x hx =>
      h.dumps x.2 (mem_of_mem_indexed hx)
    exact (hwait _).of_same (fun _ => rfl) rfl fun _ => Iff.rfl
  · exact h.reported

theorem idle_waitForSave (h : Layered metadata raises w) :
    (waitForSave config raises w).getBlockIdsWithLoadErrors.2.Idle := by
  unfold waitForSave
  split_ifs with hsave
  · exact ⟨rfl, rfl, rfl⟩
  · have hno := Bool.eq_false_of_not_eq_true hsave
    exact ⟨rfl, h.saves hno, hno⟩

theorem layered_layers (config : WorkerConfig BlockId) (h : Layered metadata raises w) (layers : List Nat) :
    Layered metadata raises (layers.foldl (fun w layer =>
      saveKvLayer config raises (waitForLayerLoad config raises w layer) layer) w) :=
  List.foldlRecOn (motive := Layered metadata raises) _ _ h fun _ h _ _ =>
    layered_saveKvLayer (layered_waitForLayerLoad h)

end UCMLayerWiseConnector

omit [DecidableEq ReqId] in
theorem Worker.idle_initial : (Worker.initial : Worker BlockId ReqId).Idle :=
  ⟨rfl, rfl, rfl⟩

theorem Worker.Idle.reported_step (h : w.Idle) (mode : Mode) :
    Reported metadata raises (mode.step config raises w metadata) := by
  have hbind : Reported metadata raises (w.bindConnectorMetadata metadata) := reported_bind h.invalidBlockIds
  cases mode with
  | direct => exact UCMDirectConnector.reported_waitForSave (UCMDirectConnector.reported_startLoadKv hbind)
  | layerWise =>
    have hloaded := UCMLayerWiseConnector.layered_startLoadKv config hbind h.dumpTasks
    exact UCMLayerWiseConnector.reported_waitForSave (UCMLayerWiseConnector.layered_layers config hloaded _)

theorem UCMDirectConnector.startLoadKv_saves (config : WorkerConfig BlockId) (raises : Raises ReqId)
    (w : Worker BlockId ReqId) :
    (startLoadKv config raises w).dumpTasks = w.dumpTasks ∧ (startLoadKv config raises w).isSave = w.isSave := by
  let Kept := fun t : Worker BlockId ReqId => t.dumpTasks = w.dumpTasks ∧ t.isSave = w.isSave
  have hloaded : ∀ items : List (ReqId × RequestDispatchMeta BlockId), ∀ loaded, Kept loaded.1 →
      Kept (items.foldl (loadRequest config raises) loaded).1 := by
    intro items loaded h
    have hitem : ∀ loaded, Kept loaded.1 → ∀ item ∈ items, Kept (loadRequest config raises loaded item).1 := by
      intro loaded h item _
      unfold loadRequest
      split_ifs
      · exact h
      · simpa [Kept] using h
    exact List.foldlRecOn (motive := fun loaded : Worker BlockId ReqId × Dict ReqId (List (Task ReqId)) =>
      Kept loaded.1) _ _ h hitem
  apply List.foldlRecOn (motive := Kept) _ _ (hloaded _ _ ⟨rfl, rfl⟩)
  intro t h item _
  simpa [Kept, waitRequest] using h

omit [DecidableEq ReqId] in
theorem UCMDirectConnector.waitForSave_saves (config : WorkerConfig BlockId) (raises : Raises ReqId)
    (w : Worker BlockId ReqId) :
    (waitForSave config raises w).dumpTasks = w.dumpTasks ∧ (waitForSave config raises w).isSave = w.isSave := by
  unfold waitForSave
  split_ifs
  · exact ⟨rfl, rfl⟩
  · dsimp only
    split_ifs <;> exact ⟨rfl, rfl⟩

theorem UCMDirectConnector.idle_step (h : w.Idle) :
    (step config raises w metadata).getBlockIdsWithLoadErrors.2.Idle := by
  obtain ⟨hdump, hsave⟩ := waitForSave_saves config raises
    (startLoadKv config raises (w.bindConnectorMetadata metadata))
  obtain ⟨hdump', hsave'⟩ := startLoadKv_saves config raises (w.bindConnectorMetadata metadata)
  exact ⟨rfl, (hdump.trans hdump').trans h.dumpTasks, (hsave.trans hsave').trans h.isSave⟩

theorem Worker.Idle.next {mode : Mode} {event : Dict ReqId (RequestDispatchMeta BlockId) × Raises ReqId}
    {w' : Worker BlockId ReqId} (h : w.Idle) (hs : mode.next config w event = some w') : w'.Idle := by
  obtain rfl := Option.some.inj hs
  cases mode with
  | direct => exact UCMDirectConnector.idle_step h
  | layerWise =>
    have hbind : Reported event.1 event.2 (w.bindConnectorMetadata event.1) := reported_bind h.invalidBlockIds
    have hloaded := UCMLayerWiseConnector.layered_startLoadKv config hbind h.dumpTasks
    exact UCMLayerWiseConnector.idle_waitForSave (UCMLayerWiseConnector.layered_layers config hloaded _)

/-- The workers between two steps, after any steps. -/
def Mode.Reach (mode : Mode) (config : WorkerConfig BlockId) (w : Worker BlockId ReqId) : Prop :=
  StepSystem.Reach (mode.next config) (fun _ _ => True) Worker.initial w

theorem Mode.Reach.idle {mode : Mode} (h : mode.Reach config w) : w.Idle :=
  StepSystem.Reach.invariant h Worker.Idle Worker.idle_initial fun _ _ _ hw _ hs => hw.next hs

/-- After every step the load errors are the blocks of the requests of which a load or a wait
raised, and they are taken once. -/
theorem loadErrors_of_reach {mode : Mode} (h : mode.Reach config w)
    (metadata : Dict ReqId (RequestDispatchMeta BlockId)) (raises : Raises ReqId) :
    let after := mode.step config raises w metadata
    (∀ b, b ∈ after.getBlockIdsWithLoadErrors.1 ↔ ∃ requestId request, metadata.get? requestId = some request ∧
      after.LoadFailed raises requestId ∧ b ∈ request.loadBlockIds.2) ∧
    after.getBlockIdsWithLoadErrors.2.getBlockIdsWithLoadErrors.1 = ∅ :=
  ⟨(h.idle.reported_step mode).invalid, rfl⟩

/-- Request 0 loads blocks 5 and 6, request 1 loads block 7 and dumps block 8. -/
def twoRequests : Dict Nat (RequestDispatchMeta Nat) where
  items := [(0, ⟨([1, 2], [5, 6]), ([], [])⟩), (1, ⟨([1], [7]), ([2], [8])⟩)]
  nodup := by decide

/-- The wait of request 0 on the second transfer of layer 1 raises. -/
def raisesOne : Raises Nat := ⟨fun _ => false, fun _ task => decide (task = .load 0 1 true)⟩

example : (Mode.layerWise.step (WorkerConfig.twoLayers .dsa) raisesOne Worker.initial twoRequests).invalidBlockIds =
    {5, 6} := by decide

theorem loadErrors_raisesOne :
    let after := Mode.layerWise.step (WorkerConfig.twoLayers .dsa) raisesOne Worker.initial twoRequests
    (∀ b, b ∈ after.getBlockIdsWithLoadErrors.1 ↔ ∃ requestId request, twoRequests.get? requestId = some request ∧
      after.LoadFailed raisesOne requestId ∧ b ∈ request.loadBlockIds.2) ∧
    after.getBlockIdsWithLoadErrors.2.getBlockIdsWithLoadErrors.1 = ∅ :=
  loadErrors_of_reach StepSystem.Reach.start twoRequests raisesOne

end UnifiedCache.Connector
