import UnifiedCache.Connector.LoadErrors

/-! When each handle that the stores return in a step is waited for. -/

namespace UnifiedCache.Connector

variable {BlockId ReqId : Type*}

def Submission.call (x : Submission BlockId ReqId) : StoreName × Task ReqId := (x.store, x.task)

namespace Raises

variable (raises : Raises ReqId)

def atSubmit (call : StoreName × Task ReqId) : Bool := raises.submit call.2

def atWait (call : StoreName × Task ReqId) : Bool := raises.wait call.1 call.2

/-- The calls of a try block that return a handle. -/
def accepted (calls : List (StoreName × Task ReqId)) : List (StoreName × Task ReqId) :=
  returned raises.atSubmit calls

end Raises

/-- What happens from one state of a worker to a later one: the calls to the stores, and the waits. -/
structure Worker.Makes (w w' : Worker BlockId ReqId) [DecidableEq ReqId] (made waits : List (StoreName × Task ReqId)) :
    Prop where
  known : ∀ r, (w'.metadata.get? r).isSome = (w.metadata.get? r).isSome
  saves : savesAny w'.metadata = savesAny w.metadata
  submitted : w'.submitted.map Submission.call = w.submitted.map Submission.call ++ made
  waited : w'.waited = w.waited ++ waits
  raised : w'.raised = w.raised

variable [DecidableEq ReqId] {config : WorkerConfig BlockId} {raises : Raises ReqId} {w w' w'' : Worker BlockId ReqId}
  {requestId : ReqId} {made made' waits waits' : List (StoreName × Task ReqId)}

/-- Every handle of the step is waited for once, by the store that returned it, and no method raised. -/
def Worker.Settled (raises : Raises ReqId) (w : Worker BlockId ReqId) : Prop :=
  w.raised = false ∧ ∀ x ∈ w.submitted, raises.submit x.task = false →
    (w.waited.filter fun y => y.2 = x.task) = [(x.store, x.task)]

instance : Decidable (w.Settled raises) :=
  inferInstanceAs (Decidable (_ ∧ _))

theorem Worker.settled_iff : w.Settled raises ↔ w.raised = false ∧
    ServedOnce Prod.snd ((w.submitted.map Submission.call).filter fun c => !raises.atSubmit c) w.waited := by
  unfold Settled ServedOnce
  simp [Submission.call, Raises.atSubmit]

namespace Worker.Makes

theorem refl (w : Worker BlockId ReqId) : Makes w w [] [] :=
  ⟨fun _ => rfl, rfl, by simp, by simp, rfl⟩

theorem trans (h : Makes w w' made waits) (h' : Makes w' w'' made' waits') :
    Makes w w'' (made ++ made') (waits ++ waits') where
  known r := (h'.known r).trans (h.known r)
  saves := h'.saves.trans h.saves
  submitted := by rw [h'.submitted, h.submitted, List.append_assoc]
  waited := by rw [h'.waited, h.waited, List.append_assoc]
  raised := h'.raised.trans h.raised

theorem foldl {σ α : Type*} {f : σ → α → σ} (worker : σ → Worker BlockId ReqId)
    (made waits : α → List (StoreName × Task ReqId)) (Inv : σ → Prop) {as : List α} {s : σ} (h : Inv s)
    (hstep : ∀ a ∈ as, ∀ s, Inv s → Makes (worker s) (worker (f s a)) (made a) (waits a) ∧ Inv (f s a)) :
    Makes (worker s) (worker (as.foldl f s)) (as.flatMap made) (as.flatMap waits) ∧ Inv (as.foldl f s) := by
  induction as generalizing s with
  | nil => exact ⟨refl _, h⟩
  | cons a as ih =>
    obtain ⟨hmakes, hinv⟩ := hstep a List.mem_cons_self s h
    obtain ⟨hrest, hend⟩ := ih hinv fun b hb => hstep b (List.mem_cons_of_mem a hb)
    exact ⟨hmakes.trans hrest, hend⟩

theorem metadata {m : Dict ReqId (RequestDispatchMeta BlockId)} {tasks : Dict ReqId (List (Task ReqId))}
    {dumpTasks : List (Task ReqId)} {isSave : Bool}
    (hknown : ∀ r, (m.get? r).isSome = (w.metadata.get? r).isSome) (hsaves : savesAny m = savesAny w.metadata) :
    Makes w { w with metadata := m, loadTasks := tasks, dumpTasks := dumpTasks, isSave := isSave } [] [] :=
  ⟨hknown, hsaves, by simp, by simp, rfl⟩

theorem submit (raises : Raises ReqId) (submissions : List (Submission BlockId ReqId)) : Makes w (w.submit raises submissions)
    (attempt raises.atSubmit (submissions.map Submission.call)) [] where
  known _ := rfl
  saves := rfl
  submitted := by
    rw [Worker.submit, List.map_append, ← attempt_map]
    rfl
  waited := by simp [Worker.submit]
  raised := rfl

theorem wait (raises : Raises ReqId) (waits : List (StoreName × Task ReqId)) : Makes w (w.wait raises waits) [] (attempt raises.atWait waits) :=
  ⟨fun _ => rfl, rfl, by simp [Worker.wait], rfl, rfl⟩

theorem loadFailed (h : (w.metadata.get? requestId).isSome) : Makes w (w.loadFailed requestId) [] [] := by
  obtain ⟨request, hrequest⟩ := Option.isSome_iff_exists.mp h
  rw [Worker.loadFailed, hrequest]
  exact ⟨fun _ => rfl, rfl, by simp, by simp, rfl⟩

theorem tryLoad (raises : Raises ReqId) (h : (w.metadata.get? requestId).isSome)
    (submissions : List (Submission BlockId ReqId)) :
    Makes w (w.tryLoad raises requestId submissions)
      (attempt raises.atSubmit (submissions.map Submission.call)) [] := by
  unfold Worker.tryLoad
  split_ifs
  · simpa using (submit raises submissions).trans (loadFailed h)
  · exact submit raises submissions

theorem tryWait (raises : Raises ReqId) (h : (w.metadata.get? requestId).isSome)
    (waits : List (StoreName × Task ReqId)) :
    Makes w (w.tryWait raises requestId waits) [] (attempt raises.atWait waits) := by
  unfold Worker.tryWait
  split_ifs
  · simpa using (wait raises waits).trans (loadFailed h)
  · exact wait raises waits

theorem foldl_tryWait (raises : Raises ReqId) (entries : List (ReqId × List (Task ReqId)))
    (h : ∀ e ∈ entries, (w.metadata.get? e.1).isSome) (waits : ReqId × List (Task ReqId) → List (StoreName × Task ReqId)) :
    Makes w (entries.foldl (fun w e => w.tryWait raises e.1 (waits e)) w) []
      (entries.flatMap fun e => attempt raises.atWait (waits e)) := by
  induction entries generalizing w with
  | nil => exact refl w
  | cons e entries ih =>
    have hfirst := tryWait raises (h e List.mem_cons_self) (waits e)
    exact hfirst.trans (ih fun e he => (hfirst.known e.1).symm ▸ h e (List.mem_cons_of_mem _ he))

theorem settled_bind_iff {metadata : Dict ReqId (RequestDispatchMeta BlockId)}
    (h : (w.bindConnectorMetadata metadata).Makes w' made waits) :
    w'.Settled raises ↔ ServedOnce Prod.snd (made.filter fun c => !raises.atSubmit c) waits := by
  have hsubmitted : w'.submitted.map Submission.call = made := h.submitted
  have hwaited : w'.waited = waits := h.waited
  have hraised : w'.raised = false := h.raised
  rw [Worker.settled_iff, hsubmitted, hwaited, hraised]
  simp

end Worker.Makes

omit [DecidableEq ReqId] in
theorem filter_attempts {α : Type*} (raises : Raises ReqId) (as : List α) (f : α → List (StoreName × Task ReqId)) :
    ((as.flatMap fun a => attempt raises.atSubmit (f a)).filter fun c => !raises.atSubmit c) =
      as.flatMap fun a => raises.accepted (f a) := by
  rw [List.filter_flatMap]
  simp only [filter_attempt]
  rfl

theorem isSome_rehash {f : RequestDispatchMeta BlockId → RequestDispatchMeta BlockId}
    (metadata : Dict ReqId (RequestDispatchMeta BlockId)) (r : ReqId) :
    ((metadata.mapVals f).get? r).isSome = (metadata.get? r).isSome := by
  rw [Dict.get?_mapVals, Option.isSome_map]

omit [DecidableEq ReqId] in
theorem savesAny_rehashLoad (config : WorkerConfig BlockId) (metadata : Dict ReqId (RequestDispatchMeta BlockId)) :
    savesAny (metadata.mapVals config.rehashLoad) = savesAny metadata := by
  unfold savesAny Dict.mapVals
  rw [List.any_map]
  congr 1
  funext item
  simp only [Function.comp_apply, WorkerConfig.rehashLoad]
  split_ifs <;> rfl

omit [DecidableEq ReqId] in
theorem savesAny_rehashDump (config : WorkerConfig BlockId) (metadata : Dict ReqId (RequestDispatchMeta BlockId)) :
    savesAny (metadata.mapVals config.rehashDump) = savesAny metadata := by
  unfold savesAny Dict.mapVals
  rw [List.any_map]
  congr 1
  funext item
  simp only [Function.comp_apply, WorkerConfig.rehashDump]
  split_ifs <;> simp

omit [DecidableEq ReqId] in
theorem isEmpty_rehashLoad (config : WorkerConfig BlockId) (request : RequestDispatchMeta BlockId) :
    (config.rehashLoad request).loadBlockIds.1.isEmpty = request.loadBlockIds.1.isEmpty := by
  unfold WorkerConfig.rehashLoad
  split_ifs <;> simp

/-- Whether the rank dumps the blocks of the step. -/
def WorkerConfig.dumps (config : WorkerConfig BlockId) (metadata : Dict ReqId (RequestDispatchMeta BlockId)) : Bool :=
  decide (¬ (config.shared ∧ config.tpRank ≠ 0)) && savesAny metadata

omit [DecidableEq ReqId] in
theorem accepted_submissions (raises : Raises ReqId) (submissions : List (Submission BlockId ReqId)) :
    ((returned (fun x => raises.submit x.task) submissions).map Submission.task) =
      (raises.accepted (submissions.map Submission.call)).map Prod.snd := by
  rw [Raises.accepted, ← returned_map, List.map_map]
  rfl

namespace UCMDirectConnector

/-- The calls of a transfer. -/
def calls (kind : CacheKind) (task : Bool → Task ReqId) : List (StoreName × Task ReqId) :=
  (.store, task false) :: if kind = .dsa then [(.ropeStore, task true)] else []

def loadCalls (config : WorkerConfig BlockId) (item : ReqId × RequestDispatchMeta BlockId) :
    List (StoreName × Task ReqId) :=
  if item.2.loadBlockIds.1.isEmpty then [] else calls config.kind (.load item.1 0)

def dumpCalls (config : WorkerConfig BlockId) (metadata : Dict ReqId (RequestDispatchMeta BlockId)) :
    List (StoreName × Task ReqId) :=
  if config.dumps metadata then calls config.kind (.dump 0) else []

omit [DecidableEq ReqId] in
theorem calls_submissions (config : WorkerConfig BlockId) (task : Bool → Task ReqId) (blockIds : List BlockId)
    (vllmBlockIds : List Nat) :
    (submissions config task blockIds vllmBlockIds).map Submission.call = calls config.kind task := by
  unfold submissions calls WorkerConfig.generateTask
  cases config.kind <;> rfl

omit [DecidableEq ReqId] in
/-- The waits of a try block go to the stores of the handles. -/
theorem indexed_accepted (raises : Raises ReqId) (kind : CacheKind) (task : Bool → Task ReqId) :
    let tasks := (raises.accepted (calls kind task)).map Prod.snd
    indexed tasks ((if tasks.isEmpty then [] else [(.store, 0)]) ++ if tasks.length > 1 then [(.ropeStore, 1)] else []) =
      raises.accepted (calls kind task) := by
  unfold calls Raises.accepted returned Raises.atSubmit
  cases hfirst : raises.submit (task false) with
  | true => simp [hfirst, indexed]
  | false =>
    by_cases hk : kind = .dsa
    · cases hsecond : raises.submit (task true) <;> simp [hfirst, hk, hsecond, indexed]
    · simp [hfirst, hk, indexed]

def loadEntry (config : WorkerConfig BlockId) (raises : Raises ReqId) (item : ReqId × RequestDispatchMeta BlockId) :
    List (ReqId × List (Task ReqId)) :=
  let tasks := (raises.accepted (loadCalls config item)).map Prod.snd
  if tasks.isEmpty then [] else [(item.1, tasks)]

omit [DecidableEq ReqId] in
theorem fst_of_mem_loadEntry (item : ReqId × RequestDispatchMeta BlockId) (e : ReqId × List (Task ReqId))
    (he : e ∈ loadEntry config raises item) : e.1 = item.1 := by
  unfold loadEntry at he
  dsimp only at he
  split_ifs at he
  · cases he
  · rw [List.mem_singleton.mp he]

variable (config raises) in
theorem makes_loadRequest {loaded : Worker BlockId ReqId × Dict ReqId (List (Task ReqId))}
    {item : ReqId × RequestDispatchMeta BlockId} (h : (loaded.1.metadata.get? item.1).isSome) :
    loaded.1.Makes (loadRequest config raises loaded item).1
      (attempt raises.atSubmit (loadCalls config item)) [] := by
  unfold loadRequest loadCalls
  split_ifs
  · exact Worker.Makes.refl _
  · have hload := Worker.Makes.tryLoad raises h
      (submissions config (.load item.1 0) item.2.loadBlockIds.1 item.2.loadBlockIds.2)
    rwa [calls_submissions] at hload

theorem items_loadRequest {loaded : Worker BlockId ReqId × Dict ReqId (List (Task ReqId))}
    {item : ReqId × RequestDispatchMeta BlockId} (h : item.1 ∉ loaded.2.items.map Prod.fst) :
    (loadRequest config raises loaded item).2.items = loaded.2.items ++ loadEntry config raises item := by
  unfold loadRequest loadEntry loadCalls
  dsimp only
  by_cases hempty : item.2.loadBlockIds.1.isEmpty = true
  · simp [hempty, Raises.accepted, returned]
  · rw [if_neg hempty, if_neg hempty, accepted_submissions, calls_submissions]
    split_ifs
    · simp
    · exact Dict.items_set_of_notMem h

omit [DecidableEq ReqId] in
theorem waits_loadEntry (item : ReqId × RequestDispatchMeta BlockId) :
    ((loadEntry config raises item).flatMap fun e => attempt raises.atWait
      (indexed e.2 ((.store, 0) :: if e.2.length > 1 then [(.ropeStore, 1)] else []))) =
      attempt raises.atWait (raises.accepted (loadCalls config item)) := by
  unfold loadEntry loadCalls
  by_cases hempty : item.2.loadBlockIds.1.isEmpty = true
  · simp [hempty, Raises.accepted, returned, attempt]
  · have hplaces := indexed_accepted raises config.kind (.load item.1 0)
    rw [if_neg hempty]
    dsimp only at hplaces ⊢
    generalize raises.accepted (calls config.kind (.load item.1 0)) = cs at hplaces ⊢
    cases cs with
    | nil => rfl
    | cons c cs =>
      show attempt raises.atWait (indexed _ _) ++ [] = _
      rw [List.append_nil]
      exact congrArg (attempt raises.atWait) hplaces

omit [DecidableEq ReqId] in
theorem loadCalls_rehashLoad (item : ReqId × RequestDispatchMeta BlockId) :
    loadCalls config (item.1, config.rehashLoad item.2) = loadCalls config item := by
  simp only [loadCalls, isEmpty_rehashLoad]

variable (config raises) in
theorem makes_startLoadKv (w : Worker BlockId ReqId) :
    w.Makes (startLoadKv config raises w)
      (w.metadata.items.flatMap fun item => attempt raises.atSubmit (loadCalls config item))
      (w.metadata.items.flatMap fun item => attempt raises.atWait (raises.accepted (loadCalls config item))) := by
  let w₁ : Worker BlockId ReqId := { w with metadata := w.metadata.mapVals config.rehashLoad }
  have hrehash : w.Makes w₁ [] [] := Worker.Makes.metadata (isSome_rehash _) (savesAny_rehashLoad config _)
  have hitem : ∀ item ∈ w₁.metadata.items, (w₁.metadata.get? item.1).isSome := by
    intro item hitem
    rw [Dict.mem_items.mp hitem]
    rfl
  let loaded := w₁.metadata.items.foldl (loadRequest config raises) (w₁, Dict.empty)
  have hloads : w₁.Makes loaded.1
      (w₁.metadata.items.flatMap fun item => attempt raises.atSubmit (loadCalls config item))
      (w₁.metadata.items.flatMap fun _ => []) := by
    let Inv := fun loaded : Worker BlockId ReqId × Dict ReqId (List (Task ReqId)) =>
      ∀ item ∈ w₁.metadata.items, (loaded.1.metadata.get? item.1).isSome
    have hstep : ∀ item ∈ w₁.metadata.items, ∀ loaded, Inv loaded →
        loaded.1.Makes (loadRequest config raises loaded item).1
          (attempt raises.atSubmit (loadCalls config item)) [] ∧ Inv (loadRequest config raises loaded item) := by
      intro item hi loaded hinv
      have hmakes := makes_loadRequest config raises (hinv item hi)
      exact ⟨hmakes, fun item hi => (hmakes.known item.1).symm ▸ hinv item hi⟩
    exact (Worker.Makes.foldl Prod.fst _ _ Inv (s := (w₁, Dict.empty)) hitem hstep).1
  have hentries : loaded.2.items = w₁.metadata.items.flatMap (loadEntry config raises) :=
    Dict.items_foldl Prod.snd Prod.fst _ fst_of_mem_loadEntry (fun _ _ h => items_loadRequest h) w₁.metadata.nodup
      (s := (w₁, Dict.empty)) fun _ _ h => by cases h
  have hwaits := Worker.Makes.foldl_tryWait raises loaded.2.items (w := loaded.1)
    (fun e he => by
      rw [hentries] at he
      obtain ⟨item, hi, he⟩ := List.mem_flatMap.mp he
      rw [hloads.known, fst_of_mem_loadEntry item e he]
      exact hitem item hi)
    fun e => indexed e.2 ((.store, 0) :: if e.2.length > 1 then [(.ropeStore, 1)] else [])
  have hmakes := hrehash.trans (hloads.trans hwaits)
  have hall : (loaded.2.items.flatMap fun e => attempt raises.atWait
      (indexed e.2 ((.store, 0) :: if e.2.length > 1 then [(.ropeStore, 1)] else []))) =
      w₁.metadata.items.flatMap fun item => attempt raises.atWait (raises.accepted (loadCalls config item)) := by
    rw [hentries, List.flatMap_assoc]
    simp only [waits_loadEntry]
  rw [hall, List.flatMap_eq_nil_iff.mpr fun _ _ => rfl, List.append_nil] at hmakes
  rw [Dict.flatMap_mapVals _ _ fun item => by rw [loadCalls_rehashLoad],
    Dict.flatMap_mapVals _ _ fun item => by rw [loadCalls_rehashLoad]] at hmakes
  exact hmakes

variable (config raises) in
omit [DecidableEq ReqId] in
theorem waitForSave_of_dumps (h : config.dumps w.metadata = true) :
    ∃ submissions : List (Submission BlockId ReqId), submissions.map Submission.call = calls config.kind (.dump 0) ∧
      waitForSave config raises w =
        { (w.submit raises submissions).wait raises (raises.accepted (calls config.kind (.dump 0))) with
          metadata := w.metadata.mapVals config.rehashDump
          raised := w.raised || (raises.accepted (calls config.kind (.dump 0))).any raises.atWait } := by
  obtain ⟨hrank, hsaves⟩ := Bool.and_eq_true_iff.mp h
  let total := totalDump (w.metadata.mapVals config.rehashDump)
  refine ⟨submissions config (.dump 0) total.1 total.2, calls_submissions config _ _ _, ?_⟩
  have hplaces := indexed_accepted raises config.kind (Task.dump 0 : Bool → Task ReqId)
  dsimp only at hplaces
  rw [← hplaces, ← calls_submissions config (.dump 0) total.1 total.2, ← accepted_submissions]
  unfold waitForSave
  rw [if_neg (of_decide_eq_true hrank)]
  dsimp only
  rw [savesAny_rehashDump, if_pos hsaves]
  rfl

variable (config raises) in
theorem waitForSave_of_not_dumps (h : config.dumps w.metadata = false) :
    ∃ metadata : Dict ReqId (RequestDispatchMeta BlockId), waitForSave config raises w = { w with metadata := metadata } ∧
      (∀ r, (metadata.get? r).isSome = (w.metadata.get? r).isSome) ∧ savesAny metadata = savesAny w.metadata := by
  by_cases hrank : config.shared ∧ config.tpRank ≠ 0
  · exact ⟨w.metadata, if_pos hrank, fun _ => rfl, rfl⟩
  · have hsaves : savesAny w.metadata = false := by simpa [WorkerConfig.dumps, hrank] using h
    refine ⟨w.metadata.mapVals config.rehashDump, ?_, isSome_rehash _, savesAny_rehashDump config _⟩
    unfold waitForSave
    rw [if_neg hrank]
    dsimp only
    rw [savesAny_rehashDump, hsaves]
    rfl

theorem makes_waitForSave (hraised : (waitForSave config raises w).raised = w.raised) :
    w.Makes (waitForSave config raises w) (attempt raises.atSubmit (dumpCalls config w.metadata))
      (attempt raises.atWait (raises.accepted (dumpCalls config w.metadata))) := by
  unfold dumpCalls
  cases hdumps : config.dumps w.metadata with
  | true =>
    obtain ⟨submissions, hcalls, he⟩ := waitForSave_of_dumps config raises hdumps
    have hmakes := (Worker.Makes.submit (w := w) raises submissions).trans
      (Worker.Makes.wait raises (raises.accepted (calls config.kind (.dump 0))))
    rw [hcalls, List.append_nil, List.nil_append] at hmakes
    rw [if_pos rfl]
    constructor
    · intro r
      rw [he]
      exact isSome_rehash _ r
    · rw [he]
      exact savesAny_rehashDump config _
    · rw [he]
      exact hmakes.submitted
    · rw [he]
      exact hmakes.waited
    · exact hraised
  | false =>
    obtain ⟨metadata, he, hknown, hsaves⟩ := waitForSave_of_not_dumps config raises hdumps
    rw [he]
    exact Worker.Makes.metadata hknown hsaves

theorem raised_waitForSave (w : Worker BlockId ReqId) : (waitForSave config raises w).raised =
    (w.raised || (raises.accepted (dumpCalls config w.metadata)).any raises.atWait) := by
  unfold dumpCalls
  cases hdumps : config.dumps w.metadata with
  | true =>
    obtain ⟨submissions, _, he⟩ := waitForSave_of_dumps config raises hdumps
    rw [he]
    rfl
  | false =>
    obtain ⟨metadata, he, _⟩ := waitForSave_of_not_dumps config raises hdumps
    rw [he]
    simp [Raises.accepted, returned]

/-- The waits that may raise are those on the last handle of a request that loads. -/
def WaitsAll (config : WorkerConfig BlockId) (raises : Raises ReqId)
    (metadata : Dict ReqId (RequestDispatchMeta BlockId)) : Prop :=
  (∀ item ∈ metadata.items, ∀ c ∈ (raises.accepted (loadCalls config item)).dropLast, raises.atWait c = false) ∧
    ∀ c ∈ raises.accepted (dumpCalls config metadata), raises.atWait c = false

omit [DecidableEq ReqId] in
theorem request_of_mem_calls {kind : CacheKind} {task : Bool → Task ReqId} {r : Option ReqId}
    (h : ∀ second, (task second).request = r) {c : StoreName × Task ReqId} (hc : c ∈ calls kind task) :
    c.2.request = r := by
  unfold calls at hc
  split_ifs at hc with hk
  · simp only [List.mem_cons, List.not_mem_nil, or_false] at hc
    obtain rfl | rfl := hc
    · exact h false
    · exact h true
  · rw [List.mem_singleton.mp hc]
    exact h false

omit [DecidableEq ReqId] in
theorem request_of_mem_loadCalls {item : ReqId × RequestDispatchMeta BlockId} {c : StoreName × Task ReqId}
    (hc : c ∈ raises.accepted (loadCalls config item)) : c.2.request = some item.1 := by
  have hmem := (List.takeWhile_prefix _).subset hc
  unfold loadCalls at hmem
  split_ifs at hmem
  · cases hmem
  · exact request_of_mem_calls (r := some item.1) (fun _ => rfl) hmem

omit [DecidableEq ReqId] in
theorem request_of_mem_dumpCalls {metadata : Dict ReqId (RequestDispatchMeta BlockId)} {c : StoreName × Task ReqId}
    (hc : c ∈ raises.accepted (dumpCalls config metadata)) : c.2.request = none := by
  have hmem := (List.takeWhile_prefix _).subset hc
  unfold dumpCalls at hmem
  split_ifs at hmem
  · exact request_of_mem_calls (r := none) (fun _ => rfl) hmem
  · cases hmem

omit [DecidableEq ReqId] in
theorem nodup_calls {kind : CacheKind} {task : Bool → Task ReqId} (h : task false ≠ task true) :
    ((calls kind task).map Prod.snd).Nodup := by
  unfold calls
  split_ifs <;> simp [h]

omit [DecidableEq ReqId] in
theorem nodup_loadCalls (item : ReqId × RequestDispatchMeta BlockId) :
    ((raises.accepted (loadCalls config item)).map Prod.snd).Nodup := by
  have hcalls : ((loadCalls config item).map Prod.snd).Nodup := by
    unfold loadCalls
    split_ifs
    · exact List.nodup_nil
    · exact nodup_calls (by simp)
  exact hcalls.sublist ((List.takeWhile_sublist _).map Prod.snd)

omit [DecidableEq ReqId] in
theorem nodup_dumpCalls (metadata : Dict ReqId (RequestDispatchMeta BlockId)) :
    ((raises.accepted (dumpCalls config metadata)).map Prod.snd).Nodup := by
  have hcalls : ((dumpCalls config metadata).map Prod.snd).Nodup := by
    unfold dumpCalls
    split_ifs
    · exact nodup_calls (by simp)
    · exact List.nodup_nil
  exact hcalls.sublist ((List.takeWhile_sublist _).map Prod.snd)

/-- Every handle of a step is waited for once exactly when no wait raises that others follow. -/
theorem settled_step_iff (w : Worker BlockId ReqId) (metadata : Dict ReqId (RequestDispatchMeta BlockId)) :
    (step config raises w metadata).Settled raises ↔ WaitsAll config raises metadata := by
  have hstart := makes_startLoadKv config raises (w.bindConnectorMetadata metadata)
  let w₁ := startLoadKv config raises (w.bindConnectorMetadata metadata)
  have hraised₁ : w₁.raised = false := hstart.raised
  have hdumps : dumpCalls config w₁.metadata = dumpCalls config metadata := by
    have hsaves : savesAny w₁.metadata = savesAny metadata := hstart.saves
    rw [dumpCalls, dumpCalls, WorkerConfig.dumps, WorkerConfig.dumps, hsaves]
  have hraised : (step config raises w metadata).raised =
      (raises.accepted (dumpCalls config metadata)).any raises.atWait := by
    rw [step, raised_waitForSave, hraised₁, hdumps, Bool.false_or]
  by_cases hquiet : ∀ c ∈ raises.accepted (dumpCalls config metadata), raises.atWait c = false
  · have hany : (raises.accepted (dumpCalls config metadata)).any raises.atWait = false := by
      rw [List.any_eq_false]
      intro c hc
      rw [hquiet c hc]
      exact Bool.false_ne_true
    have hsave : w₁.Makes (step config raises w metadata) _ _ :=
      makes_waitForSave ((hraised.trans hany).trans hraised₁.symm)
    rw [hdumps] at hsave
    rw [(hstart.trans hsave).settled_bind_iff, List.filter_append, filter_attempts, filter_attempt,
      servedOnce_append, servedOnce_flatMap]
    · apply and_congr
      · apply forall_congr'
        intro item
        exact imp_congr_right fun _ => servedOnce_attempt (nodup_loadCalls item)
      · have hserved : ServedOnce Prod.snd (raises.accepted (dumpCalls config metadata))
            (attempt raises.atWait (raises.accepted (dumpCalls config metadata))) :=
          (servedOnce_attempt (nodup_dumpCalls metadata)).mpr fun c hc => hquiet c (List.dropLast_subset _ hc)
        exact iff_of_true hserved hquiet
    · exact metadata.nodup.of_map
    · intro item hitem item' hitem' x hx y hy he
      have hx' := request_of_mem_loadCalls hx
      have hy' := request_of_mem_loadCalls (mem_of_mem_attempt hy)
      rw [he, hx'] at hy'
      exact Dict.mem_items_inj hitem' hitem (Option.some.inj hy').symm
    · intro x hx y hy he
      obtain ⟨item, _, hx⟩ := List.mem_flatMap.mp hx
      have hx' := request_of_mem_loadCalls hx
      rw [← he, request_of_mem_dumpCalls (mem_of_mem_attempt hy)] at hx'
      cases hx'
    · intro x hx y hy he
      obtain ⟨item, _, hy⟩ := List.mem_flatMap.mp hy
      have hy' := request_of_mem_loadCalls (mem_of_mem_attempt hy)
      rw [he, request_of_mem_dumpCalls hx] at hy'
      cases hy'
  · have hany : (step config raises w metadata).raised = true := by
      rw [hraised, List.any_eq_true]
      push Not at hquiet
      simpa using hquiet
    constructor
    · intro hs
      exact absurd (hany.symm.trans hs.1) Bool.true_eq_false.mp
    · intro hs
      exact absurd hs.2 hquiet

end UCMDirectConnector

end UnifiedCache.Connector
