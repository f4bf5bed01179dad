import UnifiedCache.Connector.Transfers

/-! The same for the layer-wise connector, which finds the handles by their places in a list. -/

namespace UnifiedCache.Connector

namespace UCMLayerWiseConnector

variable {BlockId ReqId : Type*} {config : WorkerConfig BlockId} {raises : Raises ReqId} {kind : CacheKind}

/-- The stores that are called for a layer. -/
def stores : CacheKind → List StoreName
  | .mla => [.store]
  | .dsa => [.store, .ropeStore]
  | .keyValue => [.store, .store]

def calls (kind : CacheKind) (task : Nat → Bool → Task ReqId) (layer : Nat) : List (StoreName × Task ReqId) :=
  (stores kind).zip [task layer false, task layer true]

def loadCalls (config : WorkerConfig BlockId) (item : ReqId × RequestDispatchMeta BlockId) (layer : Nat) :
    List (StoreName × Task ReqId) :=
  if item.2.loadBlockIds.1.isEmpty then [] else calls config.kind (.load item.1) layer

def dumpCalls (config : WorkerConfig BlockId) (metadata : Dict ReqId (RequestDispatchMeta BlockId)) (layer : Nat) :
    List (StoreName × Task ReqId) :=
  if config.dumps metadata then calls config.kind .dump layer else []

/-- All that is submitted for a request that loads. -/
def allLoads (config : WorkerConfig BlockId) (item : ReqId × RequestDispatchMeta BlockId) :
    List (StoreName × Task ReqId) :=
  (List.range config.numLayers).flatMap (loadCalls config item)

/-- The dump handles, with the stores that returned them. -/
def dumped (config : WorkerConfig BlockId) (raises : Raises ReqId)
    (metadata : Dict ReqId (RequestDispatchMeta BlockId)) (layers : List Nat) : List (StoreName × Task ReqId) :=
  layers.flatMap fun layer => raises.accepted (dumpCalls config metadata layer)

section Places

theorem length_calls (kind : CacheKind) (task : Nat → Bool → Task ReqId) (layer : Nat) :
    (calls kind task layer).length = (stores kind).length := by
  cases kind <;> rfl

theorem task_of_mem_calls {task : Nat → Bool → Task ReqId} {layer : Nat} {c : StoreName × Task ReqId}
    (h : c ∈ calls kind task layer) : ∃ second, c.2 = task layer second := by
  have hmem := (List.of_mem_zip h).2
  simp only [List.mem_cons, List.not_mem_nil, or_false] at hmem
  obtain he | he := hmem
  · exact ⟨false, he⟩
  · exact ⟨true, he⟩

theorem zip_stores (kind : CacheKind) (task : Nat → Bool → Task ReqId) (layer : Nat) (tasks : List (Task ReqId)) :
    (stores kind).zip ((calls kind task layer).map Prod.snd ++ tasks) = calls kind task layer := by
  cases kind <;> rfl

theorem calls_layerSubmissions (config : WorkerConfig BlockId) (task : Nat → Bool → Task ReqId)
    (blockIds : List BlockId) (vllmBlockIds : List Nat) (layer : Nat) :
    (layerSubmissions config task blockIds vllmBlockIds layer).map Submission.call = calls config.kind task layer := by
  unfold layerSubmissions
  cases config.kind <;> rfl

theorem layerPlaces_eq (config : WorkerConfig BlockId) (layer : Nat) : layerPlaces config layer =
    (stores config.kind).zip (List.range' (layer * (stores config.kind).length) (stores config.kind).length) := by
  unfold layerPlaces
  cases config.kind <;> simp [stores, List.range']

/-- Waiting at the places from `k` on asks the stores in turn. -/
theorem indexed_zip (tasks : List (Task ReqId)) (names : List StoreName) (k : Nat) :
    indexed tasks (names.zip (List.range' k names.length)) = names.zip (tasks.drop k) := by
  induction names generalizing k with
  | nil => rfl
  | cons name names ih =>
    rw [List.length_cons, List.range'_succ, List.zip_cons_cons, indexed]
    cases ht : tasks[k]? with
    | none =>
      have hlength := List.getElem?_eq_none_iff.mp ht
      rw [List.drop_of_length_le hlength]
      rfl
    | some task =>
      obtain ⟨hk, he⟩ := List.getElem?_eq_some_iff.mp ht
      rw [List.drop_eq_getElem_cons hk, he, List.zip_cons_cons]
      exact congrArg _ (ih (k + 1))

theorem flatMap_layerPlaces (config : WorkerConfig BlockId) (n : Nat) :
    (List.range n).flatMap (layerPlaces config) = ((List.replicate n (stores config.kind)).flatten).zip
      (List.range' 0 (List.replicate n (stores config.kind)).flatten.length) := by
  induction n with
  | zero => rfl
  | succ n ih =>
    have hlength : (List.replicate n (stores config.kind)).flatten.length = n * (stores config.kind).length := by simp
    rw [List.range_succ, List.flatMap_append, ih, List.flatMap_singleton, layerPlaces_eq, List.replicate_succ',
      List.flatten_concat, List.length_append, ← List.zip_append (by simp), ← hlength, ← List.range'_append_1,
      Nat.zero_add]

theorem drop_flatMap {α : Type*} {f : Nat → List α} {width layer n : Nat} (hf : ∀ i, (f i).length = width)
    (h : layer < n) : ∃ rest, ((List.range n).flatMap f).drop (layer * width) = f layer ++ rest := by
  obtain ⟨m, rfl⟩ := Nat.exists_eq_add_of_lt h
  have hlength : ((List.range layer).flatMap f).length = layer * width := by
    simp [List.length_flatMap, hf]
  rw [Nat.add_assoc, List.range_add, List.flatMap_append, List.drop_left' hlength, List.range_succ_eq_map]
  exact ⟨_, List.flatMap_cons⟩

/-- The tasks of a layer are found at its places when all layers were accepted. -/
theorem indexed_calls (config : WorkerConfig BlockId) (task : Nat → Bool → Task ReqId) {layer n : Nat} (h : layer < n) :
    indexed (((List.range n).flatMap (calls config.kind task)).map Prod.snd) (layerPlaces config layer) =
      calls config.kind task layer := by
  obtain ⟨rest, hrest⟩ := drop_flatMap (length_calls config.kind task) h
  rw [layerPlaces_eq, indexed_zip, ← List.map_drop, hrest, List.map_append]
  exact zip_stores _ _ _ _

end Places

section Order

theorem zip_eq_iff (names : List StoreName) (cs : List (StoreName × Task ReqId)) :
    names.zip (cs.map Prod.snd) = cs ↔ cs.map Prod.fst <+: names := by
  induction cs generalizing names with
  | nil => simp
  | cons c cs ih =>
    cases names with
    | nil => simp
    | cons name names =>
      rw [List.map_cons, List.map_cons, List.zip_cons_cons, List.cons.injEq, List.cons_prefix_cons, ih]
      apply and_congr_left'
      constructor
      · intro he
        exact (congrArg Prod.fst he).symm
      · intro he
        exact Prod.ext he.symm rfl

theorem snd_zip_isPrefix {α β : Type*} (xs : List α) (ys : List β) : (xs.zip ys).map Prod.snd <+: ys := by
  induction ys generalizing xs with
  | nil => simp
  | cons y ys ih =>
    cases xs with
    | nil => exact List.nil_prefix
    | cons x xs => exact List.cons_prefix_cons.mpr ⟨rfl, ih xs⟩

/-- A layer whose rope part was refused, and a later one with an accepted K part. -/
def Shifts (raises : Raises ReqId) (i j : Nat) : Prop :=
  raises.submit (.dump i false) = false ∧ raises.submit (.dump i true) = true ∧ raises.submit (.dump j false) = false

def accepts (raises : Raises ReqId) (kind : CacheKind) (layers : List Nat) : List (StoreName × Task ReqId) :=
  layers.flatMap fun layer => raises.accepted (calls kind .dump layer)

theorem accepts_cons (raises : Raises ReqId) (kind : CacheKind) (layer : Nat) (layers : List Nat) :
    accepts raises kind (layer :: layers) = raises.accepted (calls kind .dump layer) ++ accepts raises kind layers :=
  List.flatMap_cons

theorem fst_of_head_accepts {layers : List Nat} {c : StoreName × Task ReqId} {cs : List (StoreName × Task ReqId)}
    (h : accepts raises .dsa layers = c :: cs) : c.1 = .store := by
  induction layers with
  | nil => cases h
  | cons layer layers ih =>
    rw [accepts_cons] at h
    cases hk : raises.submit (.dump layer false) with
    | true =>
      apply ih
      simpa [Raises.accepted, returned, calls, stores, Raises.atSubmit, hk] using h
    | false =>
      simp only [Raises.accepted, returned, calls, stores, Raises.atSubmit, hk, List.zip_cons_cons,
        List.takeWhile_cons_of_pos, Bool.not_false, List.cons_append, List.cons.injEq] at h
      exact congrArg Prod.fst h.1.symm

theorem accepts_eq_nil_iff {layers : List Nat} :
    accepts raises .dsa layers = [] ↔ ∀ j ∈ layers, raises.submit (.dump j false) = true := by
  rw [accepts, List.flatMap_eq_nil_iff]
  apply forall₂_congr
  intro layer _
  cases hk : raises.submit (.dump layer false) <;>
    simp [Raises.accepted, returned, calls, stores, Raises.atSubmit, hk]

/-- The stores of the handles alternate as the waits do unless a K handle follows a lone one. -/
theorem accepts_isPrefix_iff {layers : List Nat} {n : Nat} (h : layers.length ≤ n) :
    (accepts raises .dsa layers).map Prod.fst <+: (List.replicate n (stores .dsa)).flatten ↔
      layers.Pairwise fun i j => ¬ Shifts raises i j := by
  induction layers generalizing n with
  | nil => simp [accepts]
  | cons layer layers ih =>
    rw [accepts_cons, List.map_append, List.pairwise_cons]
    cases hk : raises.submit (.dump layer false) with
    | true =>
      have hnone : raises.accepted (calls .dsa .dump layer) = [] := by
        simp [Raises.accepted, returned, calls, stores, Raises.atSubmit, hk]
      have hfirst : ∀ j ∈ layers, ¬ Shifts raises layer j := fun j _ hs => by simp [hs.1] at hk
      rw [hnone, List.map_nil, List.nil_append, ih (Nat.le_of_succ_le h)]
      exact (and_iff_right hfirst).symm
    | false =>
      obtain ⟨n, rfl⟩ := Nat.exists_eq_add_of_lt (Nat.lt_of_lt_of_le (Nat.zero_lt_succ _) h)
      have hstores : (List.replicate (0 + n + 1) (stores .dsa)).flatten =
          .store :: .ropeStore :: (List.replicate n (stores .dsa)).flatten := by
        rw [Nat.zero_add, List.replicate_succ, List.flatten_cons]
        rfl
      rw [hstores]
      cases hr : raises.submit (.dump layer true) with
      | true =>
        -- the handle of the next accepted K part would be waited for by the rope store
        have hone : raises.accepted (calls .dsa .dump layer) = [(.store, .dump layer false)] := by
          simp [Raises.accepted, returned, calls, stores, Raises.atSubmit, hk, hr]
        have hshift : ∀ j, Shifts raises layer j ↔ raises.submit (.dump j false) = false := by
          intro j
          simp [Shifts, hk, hr]
        have hnil : (accepts raises .dsa layers).map Prod.fst <+: .ropeStore :: (List.replicate n (stores .dsa)).flatten ↔
            accepts raises .dsa layers = [] := by
          cases hrest : accepts raises .dsa layers with
          | nil => simp
          | cons c cs => simp [List.cons_prefix_cons, fst_of_head_accepts hrest]
        rw [hone]
        simp only [List.map_cons, List.map_nil, List.cons_append, List.nil_append, List.cons_prefix_cons, true_and]
        rw [hnil, accepts_eq_nil_iff]
        constructor
        · intro hall
          constructor
          · intro j hj hs
            rw [hshift, hall j hj] at hs
            cases hs
          · apply List.pairwise_of_forall_mem_list
            intro i _ j hj hs
            exact Bool.false_ne_true (hs.2.2.symm.trans (hall j hj))
        · intro hall j hj
          have hno := hall.1 j hj
          rwa [hshift, Bool.not_eq_false] at hno
      | false =>
        have htwo : raises.accepted (calls .dsa .dump layer) =
            [(.store, .dump layer false), (.ropeStore, .dump layer true)] := by
          simp [Raises.accepted, returned, calls, stores, Raises.atSubmit, hk, hr]
        have hfirst : ∀ j ∈ layers, ¬ Shifts raises layer j := fun j _ hs => by simp [hs.2.1] at hr
        rw [htwo]
        simp only [List.map_cons, List.map_nil, List.cons_append, List.nil_append, List.cons_prefix_cons, true_and]
        rw [ih (by simp at h; omega)]
        exact (and_iff_right hfirst).symm

theorem accepts_sublist (raises : Raises ReqId) (kind : CacheKind) (layers : List Nat) :
    (accepts raises kind layers).Sublist (layers.flatMap (calls kind .dump)) := by
  induction layers with
  | nil => exact List.Sublist.refl _
  | cons layer layers ih =>
    rw [accepts_cons, List.flatMap_cons]
    exact (List.takeWhile_sublist _).append ih

theorem fst_flatMap_calls (kind : CacheKind) (task : Nat → Bool → Task ReqId) (layers : List Nat) :
    (layers.flatMap (calls kind task)).map Prod.fst = (List.replicate layers.length (stores kind)).flatten := by
  induction layers with
  | nil => rfl
  | cons layer layers ih =>
    rw [List.flatMap_cons, List.map_append, ih, List.length_cons, List.replicate_succ, List.flatten_cons]
    cases kind <;> rfl

variable (raises) in
/-- With one store the places may shift. -/
theorem accepts_isPrefix (layers : List Nat) (h : kind ≠ .dsa) :
    (accepts raises kind layers).map Prod.fst <+: (List.replicate layers.length (stores kind)).flatten := by
  have hall : ∀ name ∈ (List.replicate layers.length (stores kind)).flatten, name = .store := by
    intro name hname
    obtain ⟨names, hnames, hname⟩ := List.mem_flatten.mp hname
    rw [List.eq_of_mem_replicate hnames] at hname
    cases kind with
    | mla => simpa [stores] using hname
    | dsa => exact absurd rfl h
    | keyValue => simpa [stores] using hname
  have hsub := (accepts_sublist raises kind layers).map Prod.fst
  rw [fst_flatMap_calls, List.eq_replicate_of_mem hall] at hsub
  obtain ⟨n, hn, he⟩ := List.sublist_replicate_iff.mp hsub
  rw [he, List.eq_replicate_of_mem hall, ← Nat.add_sub_cancel' hn, List.replicate_add]
  exact List.prefix_append _ _

theorem nodup_flatMap_calls (kind : CacheKind) (task : Nat → Bool → Task ReqId) (h : ∀ i j a b, task i a = task j b → i = j ∧ a = b)
    {layers : List Nat} (hnd : layers.Nodup) : ((layers.flatMap (calls kind task)).map Prod.snd).Nodup := by
  rw [List.map_flatMap, List.nodup_flatMap]
  constructor
  · intro layer _
    have hne : task layer false ≠ task layer true := fun he => Bool.false_ne_true (h _ _ _ _ he).2
    cases kind <;> simp [calls, stores, hne]
  · apply hnd.imp
    intro i j hij x hx hx'
    obtain ⟨c, hc, rfl⟩ := List.mem_map.mp hx
    obtain ⟨c', hc', he⟩ := List.mem_map.mp hx'
    obtain ⟨a, ha⟩ := task_of_mem_calls hc
    obtain ⟨b, hb⟩ := task_of_mem_calls hc'
    exact hij (h i j a b (ha.symm.trans (he.symm.trans hb))).1

end Order

section Steps

variable [DecidableEq ReqId] {w : Worker BlockId ReqId} {item : ReqId × RequestDispatchMeta BlockId}

def loadEntry (config : WorkerConfig BlockId) (raises : Raises ReqId) (item : ReqId × RequestDispatchMeta BlockId) :
    List (ReqId × List (Task ReqId)) :=
  if (allLoads config item).any raises.atSubmit || (allLoads config item).isEmpty then []
  else [(item.1, (allLoads config item).map Prod.snd)]

omit [DecidableEq ReqId] in
theorem fst_of_mem_loadEntry (item : ReqId × RequestDispatchMeta BlockId) (e : ReqId × List (Task ReqId))
    (he : e ∈ loadEntry config raises item) : e.1 = item.1 := by
  unfold loadEntry at he
  split_ifs at he
  · cases he
  · rw [List.mem_singleton.mp he]

/-- The submissions of a request that loads. -/
def loadSubmissions (config : WorkerConfig BlockId) (item : ReqId × RequestDispatchMeta BlockId) :
    List (Submission BlockId ReqId) :=
  (List.range config.numLayers).flatMap
    (layerSubmissions config (.load item.1) item.2.loadBlockIds.1 item.2.loadBlockIds.2)

omit [DecidableEq ReqId] in
theorem calls_loadSubmissions (h : item.2.loadBlockIds.1.isEmpty = false) :
    (loadSubmissions config item).map Submission.call = allLoads config item := by
  unfold loadSubmissions allLoads loadCalls
  rw [List.map_flatMap]
  simp only [calls_layerSubmissions, h, Bool.false_eq_true, if_false]

omit [DecidableEq ReqId] in
theorem allLoads_of_isEmpty (h : item.2.loadBlockIds.1.isEmpty = true) : allLoads config item = [] :=
  List.flatMap_eq_nil_iff.mpr fun _ _ => if_pos h

omit [DecidableEq ReqId] in
theorem allLoads_rehashLoad (item : ReqId × RequestDispatchMeta BlockId) :
    allLoads config (item.1, config.rehashLoad item.2) = allLoads config item := by
  have hcalls : loadCalls config (item.1, config.rehashLoad item.2) = loadCalls config item := by
    funext layer
    simp only [loadCalls, isEmpty_rehashLoad]
  rw [allLoads, hcalls, allLoads]

variable (config raises) in
theorem makes_loadRequest (h : (w.metadata.get? item.1).isSome) :
    w.Makes (loadRequest config raises w item) (attempt raises.atSubmit (allLoads config item)) [] := by
  unfold loadRequest
  cases hempty : item.2.loadBlockIds.1.isEmpty with
  | true =>
    rw [allLoads_of_isEmpty hempty]
    exact Worker.Makes.refl w
  | false =>
    have hload := Worker.Makes.tryLoad raises h (loadSubmissions config item)
    rw [calls_loadSubmissions hempty] at hload
    exact ⟨hload.known, hload.saves, hload.submitted, hload.waited, hload.raised⟩

theorem items_loadRequest (h : item.1 ∉ w.loadTasks.items.map Prod.fst) :
    (loadRequest config raises w item).loadTasks.items = w.loadTasks.items ++ loadEntry config raises item := by
  unfold loadRequest loadEntry
  cases hempty : item.2.loadBlockIds.1.isEmpty with
  | true => simp [allLoads_of_isEmpty hempty]
  | false =>
    have hany : (loadSubmissions config item).any (fun x => raises.submit x.task) =
        (allLoads config item).any raises.atSubmit := by
      rw [← calls_loadSubmissions hempty, List.any_map]
      rfl
    have htasks : (loadSubmissions config item).map Submission.task = (allLoads config item).map Prod.snd := by
      rw [← calls_loadSubmissions hempty, List.map_map]
      rfl
    rw [if_neg Bool.false_ne_true]
    change (if (loadSubmissions config item).any (fun x => raises.submit x.task) then w.loadTasks.pop item.1
      else if ((loadSubmissions config item).map Submission.task).isEmpty then w.loadTasks
      else w.loadTasks.set item.1 ((loadSubmissions config item).map Submission.task)).items = _
    rw [hany, htasks, List.isEmpty_map]
    cases (allLoads config item).any raises.atSubmit with
    | true =>
      rw [if_pos rfl, Bool.true_or, if_pos rfl, List.append_nil]
      exact Dict.items_pop_of_notMem h
    | false =>
      rw [if_neg Bool.false_ne_true, Bool.false_or]
      split_ifs
      · exact (List.append_nil _).symm
      · exact Dict.items_set_of_notMem h

variable (config raises) in
theorem makes_startLoadKv (w : Worker BlockId ReqId) :
    w.Makes (startLoadKv config raises w)
        (w.metadata.items.flatMap fun item => attempt raises.atSubmit (allLoads config item)) [] ∧
      (startLoadKv config raises w).loadTasks.items = w.metadata.items.flatMap (loadEntry config raises) := by
  let w₁ : Worker BlockId ReqId := { w with metadata := w.metadata.mapVals config.rehashLoad, loadTasks := Dict.empty }
  have hrehash : w.Makes w₁ [] [] := Worker.Makes.metadata (isSome_rehash _) (savesAny_rehashLoad config _)
  have hitem : ∀ item ∈ w₁.metadata.items, (w₁.metadata.get? item.1).isSome := by
    intro item hitem
    rw [Dict.mem_items.mp hitem]
    rfl
  let Inv := fun t : Worker BlockId ReqId => ∀ item ∈ w₁.metadata.items, (t.metadata.get? item.1).isSome
  have hstep : ∀ item ∈ w₁.metadata.items, ∀ t, Inv t →
      Worker.Makes t (loadRequest config raises t item) (attempt raises.atSubmit (allLoads config item)) [] ∧
        Inv (loadRequest config raises t item) := by
    intro item hi t hinv
    have hmakes := makes_loadRequest config raises (hinv item hi)
    exact ⟨hmakes, fun item hi => (hmakes.known item.1).symm ▸ hinv item hi⟩
  have hloads := (Worker.Makes.foldl (fun t => t) _ _ Inv hitem hstep).1
  have hentries := Dict.items_foldl Worker.loadTasks Prod.fst (loadEntry config raises) fst_of_mem_loadEntry
    (fun _ _ h => items_loadRequest h) w₁.metadata.nodup (s := w₁) fun _ _ h => by cases h
  constructor
  · have hmakes := hrehash.trans hloads
    rw [List.flatMap_eq_nil_iff.mpr fun _ _ => rfl,
      Dict.flatMap_mapVals _ _ fun item => by rw [allLoads_rehashLoad]] at hmakes
    exact hmakes
  · rw [Dict.flatMap_mapVals _ _ fun item => by simp only [loadEntry, allLoads_rehashLoad]] at hentries
    exact hentries

variable (config raises) in
theorem startLoadKv_kept (w : Worker BlockId ReqId) :
    (startLoadKv config raises w).dumpTasks = w.dumpTasks ∧ (startLoadKv config raises w).isSave = w.isSave := by
  let w₁ : Worker BlockId ReqId := { w with metadata := w.metadata.mapVals config.rehashLoad, loadTasks := Dict.empty }
  let Kept := fun t : Worker BlockId ReqId => t.dumpTasks = w.dumpTasks ∧ t.isSave = w.isSave
  have hkept : Kept w₁ := ⟨rfl, rfl⟩
  apply List.foldlRecOn (motive := Kept) _ _ hkept
  intro t h item _
  unfold loadRequest
  dsimp only [Kept] at h ⊢
  split_ifs
  · exact h
  · simpa using h
  · simpa using h
  · simpa using h

variable (config raises) in
theorem makes_waitForLayerLoad (layer : Nat) (h : ∀ e ∈ w.loadTasks.items, (w.metadata.get? e.1).isSome) :
    w.Makes (waitForLayerLoad config raises w layer) [] (w.loadTasks.items.flatMap fun e =>
      attempt raises.atWait (indexed e.2 (layerPlaces config layer))) :=
  Worker.Makes.foldl_tryWait raises w.loadTasks.items h fun e => indexed e.2 (layerPlaces config layer)

variable (config raises) in
theorem waitForLayerLoad_kept (w : Worker BlockId ReqId) (layer : Nat) :
    (waitForLayerLoad config raises w layer).loadTasks = w.loadTasks ∧
      (waitForLayerLoad config raises w layer).dumpTasks = w.dumpTasks ∧
      (waitForLayerLoad config raises w layer).isSave = w.isSave := by
  apply List.foldlRecOn (motive := fun t : Worker BlockId ReqId =>
    t.loadTasks = w.loadTasks ∧ t.dumpTasks = w.dumpTasks ∧ t.isSave = w.isSave) _ _ ⟨rfl, rfl, rfl⟩
  intro t h item _
  simpa using h

variable (config raises) in
theorem makes_saveKvLayer (layer : Nat) (h : w.isSave = true → config.dumps w.metadata = true) :
    w.Makes (saveKvLayer config raises w layer) (attempt raises.atSubmit (dumpCalls config w.metadata layer)) [] ∧
      (saveKvLayer config raises w layer).loadTasks = w.loadTasks ∧
      (saveKvLayer config raises w layer).dumpTasks =
        w.dumpTasks ++ (raises.accepted (dumpCalls config w.metadata layer)).map Prod.snd ∧
      ((saveKvLayer config raises w layer).isSave = true → config.dumps w.metadata = true) := by
  unfold saveKvLayer
  by_cases hrank : config.shared ∧ config.tpRank ≠ 0
  · have hdumps : config.dumps w.metadata = false := by simp [WorkerConfig.dumps, hrank]
    rw [if_pos hrank, dumpCalls, hdumps]
    exact ⟨Worker.Makes.refl w, rfl, (List.append_nil _).symm, fun hsave => hdumps.symm.trans (h hsave)⟩
  · rw [if_neg hrank]
    have hknown : ∀ r, ((if layer = 0 then w.metadata.mapVals config.rehashDump else w.metadata).get? r).isSome =
        (w.metadata.get? r).isSome := by
      intro r
      split_ifs
      · exact isSome_rehash _ r
      · rfl
    have hsaves : savesAny (if layer = 0 then w.metadata.mapVals config.rehashDump else w.metadata) =
        savesAny w.metadata := by
      split_ifs
      · exact savesAny_rehashDump config _
      · rfl
    dsimp only
    generalize (if layer = 0 then w.metadata.mapVals config.rehashDump else w.metadata) = saved at hknown hsaves ⊢
    have hdumps : config.dumps w.metadata = savesAny w.metadata := by simp [WorkerConfig.dumps, hrank]
    have hsave : (w.isSave || savesAny saved) = config.dumps w.metadata := by
      rw [hsaves, hdumps]
      cases hs : w.isSave with
      | false => rfl
      | true => rw [← hdumps, h hs, Bool.true_or]
    rw [hsave]
    unfold dumpCalls
    have hmeta : w.Makes { w with metadata := saved, isSave := config.dumps w.metadata } [] [] :=
      Worker.Makes.metadata hknown hsaves
    cases hd : config.dumps w.metadata with
    | false =>
      rw [hd] at hmeta
      exact ⟨hmeta, rfl, (List.append_nil _).symm, fun hs => hs⟩
    | true =>
      let submissions := layerSubmissions config (Task.dump : Nat → Bool → Task ReqId) (totalDump saved).1 (totalDump saved).2 layer
      have hmakes := hmeta.trans (Worker.Makes.submit raises submissions)
      rw [calls_layerSubmissions] at hmakes
      refine ⟨⟨hmakes.known, hmakes.saves, hmakes.submitted, hmakes.waited, hmakes.raised⟩, rfl, ?_, fun _ => rfl⟩
      change w.dumpTasks ++ _ = _
      rw [accepted_submissions, calls_layerSubmissions]
      rfl

omit [DecidableEq ReqId] in
theorem dumpCalls_of_saves {metadata metadata' : Dict ReqId (RequestDispatchMeta BlockId)}
    (h : savesAny metadata' = savesAny metadata) : dumpCalls config metadata' = dumpCalls config metadata := by
  unfold dumpCalls WorkerConfig.dumps
  rw [h]

variable (config raises) in
theorem makes_layers (layers : List Nat) (hknown : ∀ e ∈ w.loadTasks.items, (w.metadata.get? e.1).isSome)
    (hsave : w.isSave = true → config.dumps w.metadata = true) :
    let after := layers.foldl (fun w layer =>
      saveKvLayer config raises (waitForLayerLoad config raises w layer) layer) w
    w.Makes after (layers.flatMap fun layer => attempt raises.atSubmit (dumpCalls config w.metadata layer))
        (layers.flatMap fun layer => w.loadTasks.items.flatMap fun e =>
          attempt raises.atWait (indexed e.2 (layerPlaces config layer))) ∧
      after.dumpTasks = w.dumpTasks ++ (dumped config raises w.metadata layers).map Prod.snd := by
  induction layers generalizing w with
  | nil => exact ⟨Worker.Makes.refl w, (List.append_nil _).symm⟩
  | cons layer layers ih =>
    have hwait := makes_waitForLayerLoad config raises layer hknown
    obtain ⟨hloads₁, hdumps₁, hsave₁⟩ := waitForLayerLoad_kept config raises w layer
    let w₁ := waitForLayerLoad config raises w layer
    have hd₁ : config.dumps w₁.metadata = config.dumps w.metadata := by
      rw [WorkerConfig.dumps, WorkerConfig.dumps, hwait.saves]
    obtain ⟨hmakes, hloads₂, hdumps₂, hsave₂⟩ := makes_saveKvLayer config raises (w := w₁) layer fun hs => hd₁.trans (hsave (hsave₁.symm.trans hs))
    have hboth := hwait.trans hmakes
    have hcalls : dumpCalls config w₁.metadata = dumpCalls config w.metadata := dumpCalls_of_saves hwait.saves
    have hcalls' : dumpCalls config (saveKvLayer config raises w₁ layer).metadata = dumpCalls config w.metadata :=
      dumpCalls_of_saves hboth.saves
    have hloads : (saveKvLayer config raises w₁ layer).loadTasks = w.loadTasks := hloads₂.trans hloads₁
    obtain ⟨hrest, hdumped⟩ := ih (w := saveKvLayer config raises w₁ layer)
      (fun e he => by
        rw [hloads] at he
        rw [hboth.known]
        exact hknown e he)
      (fun hs => by
        rw [WorkerConfig.dumps, hboth.saves]
        exact hd₁.symm.trans (hsave₂ hs))
    rw [hcalls] at hboth
    rw [hloads, hcalls'] at hrest
    constructor
    · have hall := hboth.trans hrest
      simpa using hall
    · rw [List.foldl_cons, hdumped, hdumps₂, hdumps₁, hcalls, dumped, hcalls', dumped, List.flatMap_cons,
        List.map_append, List.append_assoc]

variable (config raises) in
theorem makes_waitForSave (h : w.isSave = false → w.dumpTasks = []) :
    w.Makes (waitForSave config raises w) [] (attempt raises.atWait
      ((List.replicate config.numLayers (stores config.kind)).flatten.zip w.dumpTasks)) := by
  rw [← List.drop_zero (l := w.dumpTasks), ← indexed_zip, ← flatMap_layerPlaces]
  unfold waitForSave
  cases hs : w.isSave with
  | true =>
    have hwait := Worker.Makes.wait (w := w) raises
      (indexed w.dumpTasks ((List.range config.numLayers).flatMap (layerPlaces config)))
    exact ⟨hwait.known, hwait.saves, hwait.submitted, hwait.waited, hwait.raised⟩
  | false =>
    have hnone : ∀ places, indexed ([] : List (Task ReqId)) places = [] := by
      intro places
      cases places <;> rfl
    rw [h hs, hnone]
    exact Worker.Makes.refl w

end Steps

section Settled

variable [DecidableEq ReqId]

/-- A load that is refused is the first one of its request. The waits that may raise are those on
the last load handle of a layer and on the last dump handle, and the dump handles stand at the
places of their layers. -/
structure WaitsAll (config : WorkerConfig BlockId) (raises : Raises ReqId)
    (metadata : Dict ReqId (RequestDispatchMeta BlockId)) : Prop where
  loads : ∀ item ∈ metadata.items, (allLoads config item).any raises.atSubmit = true →
    raises.accepted (allLoads config item) = []
  loadWaits : ∀ item ∈ metadata.items, (allLoads config item).any raises.atSubmit = false →
    ∀ layer < config.numLayers, ∀ c ∈ (loadCalls config item layer).dropLast, raises.atWait c = false
  places : config.kind = .dsa → config.dumps metadata = true →
    (List.range config.numLayers).Pairwise fun i j => ¬ Shifts raises i j
  dumpWaits : ∀ c ∈ (dumped config raises metadata (List.range config.numLayers)).dropLast, raises.atWait c = false

omit [DecidableEq ReqId] in
theorem task_of_mem_loadCalls {item : ReqId × RequestDispatchMeta BlockId} {layer : Nat} {c : StoreName × Task ReqId}
    (h : c ∈ loadCalls config item layer) : ∃ second, c.2 = .load item.1 layer second := by
  unfold loadCalls at h
  split_ifs at h
  · cases h
  · exact task_of_mem_calls h

omit [DecidableEq ReqId] in
theorem nodup_loadCalls (item : ReqId × RequestDispatchMeta BlockId) (layer : Nat) :
    ((loadCalls config item layer).map Prod.snd).Nodup := by
  unfold loadCalls
  split_ifs
  · exact List.nodup_nil
  · cases hk : config.kind <;> simp [calls, stores]

omit [DecidableEq ReqId] in
/-- Once all loads of a request are accepted, each layer waits for its own. -/
theorem waits_loadEntry {item : ReqId × RequestDispatchMeta BlockId} {layer : Nat}
    (hany : (allLoads config item).any raises.atSubmit = false) (h : layer < config.numLayers) :
    ((loadEntry config raises item).flatMap fun e =>
      attempt raises.atWait (indexed e.2 (layerPlaces config layer))) =
      attempt raises.atWait (loadCalls config item layer) := by
  unfold loadEntry
  rw [hany, Bool.false_or]
  cases hempty : item.2.loadBlockIds.1.isEmpty with
  | true =>
    rw [allLoads_of_isEmpty hempty, loadCalls, if_pos hempty]
    rfl
  | false =>
    have hcalls : loadCalls config item = calls config.kind (.load item.1) := by
      funext i
      rw [loadCalls, if_neg (by simp [hempty])]
    have hmem : ∀ c ∈ calls config.kind (.load item.1) layer, c ∈ allLoads config item := by
      intro c hc
      rw [allLoads, hcalls]
      exact List.mem_flatMap.mpr ⟨layer, List.mem_range.mpr h, hc⟩
    have hne : (allLoads config item).isEmpty = false := by
      rw [List.isEmpty_eq_false_iff_exists_mem]
      exact ⟨_, hmem (.store, .load item.1 layer false) (by cases hk : config.kind <;> simp [calls, stores])⟩
    rw [hne, if_neg Bool.false_ne_true, List.flatMap_singleton, allLoads, hcalls, indexed_calls config _ h]

theorem servedOnce_item (item : ReqId × RequestDispatchMeta BlockId) :
    ServedOnce Prod.snd (raises.accepted (allLoads config item)) ((List.range config.numLayers).flatMap fun layer =>
      (loadEntry config raises item).flatMap fun e =>
        attempt raises.atWait (indexed e.2 (layerPlaces config layer))) ↔
      ((allLoads config item).any raises.atSubmit = true → raises.accepted (allLoads config item) = []) ∧
      ((allLoads config item).any raises.atSubmit = false →
        ∀ layer < config.numLayers, ∀ c ∈ (loadCalls config item layer).dropLast, raises.atWait c = false) := by
  cases hany : (allLoads config item).any raises.atSubmit with
  | true =>
    have hnone : loadEntry config raises item = [] := by
      rw [loadEntry, hany, Bool.true_or, if_pos rfl]
    rw [hnone, List.flatMap_eq_nil_iff.mpr fun _ _ => List.flatMap_nil, servedOnce_nil_iff]
    simp
  | false =>
    have hwaits : ((List.range config.numLayers).flatMap fun layer => (loadEntry config raises item).flatMap fun e =>
        attempt raises.atWait (indexed e.2 (layerPlaces config layer))) =
        (List.range config.numLayers).flatMap fun layer => attempt raises.atWait (loadCalls config item layer) :=
      List.flatMap_congr fun layer hlayer => waits_loadEntry hany (List.mem_range.mp hlayer)
    rw [hwaits, Raises.accepted, returned_eq_self_iff.mpr hany, allLoads, servedOnce_flatMap List.nodup_range]
    · simp only [List.mem_range, servedOnce_attempt (nodup_loadCalls item _)]
      simp
    · intro i _ j _ x hx y hy he
      obtain ⟨a, ha⟩ := task_of_mem_loadCalls hx
      obtain ⟨b, hb⟩ := task_of_mem_loadCalls (mem_of_mem_attempt hy)
      rw [ha, hb] at he
      exact (Task.load.inj he).2.1

omit [DecidableEq ReqId] in
theorem dumped_eq (metadata : Dict ReqId (RequestDispatchMeta BlockId)) (layers : List Nat) :
    dumped config raises metadata layers =
      if config.dumps metadata then accepts raises config.kind layers else [] := by
  unfold dumped dumpCalls accepts
  split_ifs
  · rfl
  · exact List.flatMap_eq_nil_iff.mpr fun _ _ => rfl

variable (config raises) in
omit [DecidableEq ReqId] in
theorem nodup_dumped (metadata : Dict ReqId (RequestDispatchMeta BlockId)) :
    ((dumped config raises metadata (List.range config.numLayers)).map Prod.snd).Nodup := by
  rw [dumped_eq]
  split_ifs
  · have hcalls := nodup_flatMap_calls config.kind (Task.dump : Nat → Bool → Task ReqId)
      (fun i j a b he => Task.dump.inj he) (List.nodup_range (n := config.numLayers))
    exact hcalls.sublist ((accepts_sublist raises config.kind _).map Prod.snd)
  · exact List.nodup_nil

omit [DecidableEq ReqId] in
/-- The waits ask the stores of the dump handles. -/
theorem zip_dumped_iff (metadata : Dict ReqId (RequestDispatchMeta BlockId)) :
    (List.replicate config.numLayers (stores config.kind)).flatten.zip
        ((dumped config raises metadata (List.range config.numLayers)).map Prod.snd) =
        dumped config raises metadata (List.range config.numLayers) ↔
      (config.kind = .dsa → config.dumps metadata = true →
        (List.range config.numLayers).Pairwise fun i j => ¬ Shifts raises i j) := by
  rw [zip_eq_iff, dumped_eq]
  cases hd : config.dumps metadata with
  | false => simp
  | true =>
    rw [if_pos rfl]
    by_cases hk : config.kind = .dsa
    · rw [hk, accepts_isPrefix_iff (by simp)]
      simp
    · have hprefix := accepts_isPrefix raises (List.range config.numLayers) hk
      rw [List.length_range] at hprefix
      exact iff_of_true hprefix fun h => absurd h hk

variable (config raises) in
theorem servedOnce_dumped (metadata : Dict ReqId (RequestDispatchMeta BlockId)) :
    ServedOnce Prod.snd (dumped config raises metadata (List.range config.numLayers)) (attempt raises.atWait
        ((List.replicate config.numLayers (stores config.kind)).flatten.zip
          ((dumped config raises metadata (List.range config.numLayers)).map Prod.snd))) ↔
      (config.kind = .dsa → config.dumps metadata = true →
        (List.range config.numLayers).Pairwise fun i j => ¬ Shifts raises i j) ∧
      ∀ c ∈ (dumped config raises metadata (List.range config.numLayers)).dropLast, raises.atWait c = false := by
  have hnd := nodup_dumped config raises metadata
  rw [← zip_dumped_iff]
  generalize dumped config raises metadata (List.range config.numLayers) = cs at hnd ⊢
  generalize (List.replicate config.numLayers (stores config.kind)).flatten = names
  have htags := snd_zip_isPrefix names (cs.map Prod.snd)
  rw [servedOnce_iff_eq hnd (((isPrefix_attempt _ _).map Prod.snd).trans htags)]
  constructor
  · intro he
    have hprefix := isPrefix_attempt raises.atWait (names.zip (cs.map Prod.snd))
    rw [he] at hprefix
    have hlength := htags.length_le
    rw [List.length_map, List.length_map] at hlength
    have hzip := hprefix.eq_of_length_le hlength
    rw [← hzip] at he ⊢
    exact ⟨rfl, attempt_eq_self_iff.mp he⟩
  · intro ⟨hzip, hwaits⟩
    rw [hzip]
    exact attempt_eq_self_iff.mpr hwaits

omit [DecidableEq ReqId] in
theorem request_of_mem_allLoads {item : ReqId × RequestDispatchMeta BlockId} {c : StoreName × Task ReqId}
    (h : c ∈ allLoads config item) : c.2.request = some item.1 := by
  obtain ⟨layer, _, h⟩ := List.mem_flatMap.mp h
  obtain ⟨second, he⟩ := task_of_mem_loadCalls h
  rw [he]
  rfl

omit [DecidableEq ReqId] in
theorem request_of_mem_waits {item : ReqId × RequestDispatchMeta BlockId} {c : StoreName × Task ReqId} {layer : Nat}
    (h : c ∈ (loadEntry config raises item).flatMap fun e =>
      attempt raises.atWait (indexed e.2 (layerPlaces config layer))) : c.2.request = some item.1 := by
  obtain ⟨e, he, h⟩ := List.mem_flatMap.mp h
  have htask := mem_of_mem_indexed (mem_of_mem_attempt h)
  unfold loadEntry at he
  split_ifs at he
  · cases he
  · rw [List.mem_singleton.mp he] at htask
    obtain ⟨c', hc', he'⟩ := List.mem_map.mp htask
    rw [← he']
    exact request_of_mem_allLoads hc'

omit [DecidableEq ReqId] in
theorem request_of_mem_dumped {metadata : Dict ReqId (RequestDispatchMeta BlockId)} {layers : List Nat}
    {c : StoreName × Task ReqId} (h : c ∈ dumped config raises metadata layers) : c.2.request = none := by
  rw [dumped_eq] at h
  split_ifs at h
  · obtain ⟨layer, _, hc⟩ := List.mem_flatMap.mp ((accepts_sublist raises config.kind layers).subset h)
    obtain ⟨second, he⟩ := task_of_mem_calls hc
    rw [he]
    rfl
  · cases h

/-- The calls and the waits of a step. -/
theorem makes_step {w : Worker BlockId ReqId} (h : w.Idle) (metadata : Dict ReqId (RequestDispatchMeta BlockId)) :
    (w.bindConnectorMetadata metadata).Makes (step config raises w metadata)
      ((metadata.items.flatMap fun item => attempt raises.atSubmit (allLoads config item)) ++
        (List.range config.numLayers).flatMap fun layer =>
          attempt raises.atSubmit (dumpCalls config metadata layer))
      (((List.range config.numLayers).flatMap fun layer => metadata.items.flatMap fun item =>
          (loadEntry config raises item).flatMap fun e =>
            attempt raises.atWait (indexed e.2 (layerPlaces config layer))) ++
        attempt raises.atWait ((List.replicate config.numLayers (stores config.kind)).flatten.zip
          ((dumped config raises metadata (List.range config.numLayers)).map Prod.snd))) := by
  let w₁ := startLoadKv config raises (w.bindConnectorMetadata metadata)
  obtain ⟨hstart, hentries⟩ := makes_startLoadKv config raises (w.bindConnectorMetadata metadata)
  obtain ⟨hdump₁, hsave₁⟩ := startLoadKv_kept config raises (w.bindConnectorMetadata metadata)
  have hknown : ∀ e ∈ w₁.loadTasks.items, (w₁.metadata.get? e.1).isSome := by
    intro e he
    rw [hentries] at he
    obtain ⟨item, hi, he⟩ := List.mem_flatMap.mp he
    rw [hstart.known, fst_of_mem_loadEntry item e he, Dict.mem_items.mp hi]
    rfl
  have hidle : w₁.isSave = false := hsave₁.trans h.isSave
  have hcalls : dumpCalls config w₁.metadata = dumpCalls config metadata := dumpCalls_of_saves hstart.saves
  obtain ⟨hlayers, hdumped⟩ := makes_layers config raises (List.range config.numLayers) hknown fun hs => absurd (hidle.symm.trans hs) Bool.false_ne_true
  have hbind : Reported metadata raises (w.bindConnectorMetadata metadata) := reported_bind h.invalidBlockIds
  have hlayered := layered_layers config (layered_startLoadKv config hbind h.dumpTasks) (List.range config.numLayers)
  have hsave := makes_waitForSave config raises hlayered.saves
  rw [hdumped, hdump₁, dumped, hcalls] at hsave
  rw [hcalls, hentries] at hlayers
  have hstep := hstart.trans (hlayers.trans hsave)
  rw [List.append_nil] at hstep
  simp only [List.flatMap_assoc, List.nil_append] at hstep
  have hnone : (w.bindConnectorMetadata metadata).dumpTasks = [] := h.dumpTasks
  rw [hnone, List.nil_append] at hstep
  exact hstep

/-- Every handle of a step is waited for once exactly when no list loses one and none shifts. -/
theorem settled_step_iff {w : Worker BlockId ReqId} (h : w.Idle)
    (metadata : Dict ReqId (RequestDispatchMeta BlockId)) :
    (step config raises w metadata).Settled raises ↔ WaitsAll config raises metadata := by
  rw [Worker.Makes.settled_bind_iff (makes_step h metadata), List.filter_append, filter_attempts, filter_attempts,
    servedOnce_append]
  · have hitems := flatMap_flatMap_perm (List.range config.numLayers) metadata.items fun layer item =>
      (loadEntry config raises item).flatMap fun e => attempt raises.atWait (indexed e.2 (layerPlaces config layer))
    have hloads : ServedOnce Prod.snd (metadata.items.flatMap fun item => raises.accepted (allLoads config item))
        ((List.range config.numLayers).flatMap fun layer => metadata.items.flatMap fun item =>
          (loadEntry config raises item).flatMap fun e =>
            attempt raises.atWait (indexed e.2 (layerPlaces config layer))) ↔ ∀ item ∈ metadata.items,
        ((allLoads config item).any raises.atSubmit = true → raises.accepted (allLoads config item) = []) ∧
        ((allLoads config item).any raises.atSubmit = false →
          ∀ layer < config.numLayers, ∀ c ∈ (loadCalls config item layer).dropLast, raises.atWait c = false) := by
      rw [ServedOnce.perm_iff hitems, servedOnce_flatMap metadata.nodup.of_map]
      · exact forall₂_congr fun item _ => servedOnce_item item
      · intro item hi item' hi' x hx y hy he
        obtain ⟨layer, _, hy⟩ := List.mem_flatMap.mp hy
        have hx' := request_of_mem_allLoads ((List.takeWhile_prefix _).subset hx)
        have hy' := request_of_mem_waits hy
        rw [he, hx'] at hy'
        exact Dict.mem_items_inj hi' hi (Option.some.inj hy').symm
    have hdumps := servedOnce_dumped config raises metadata
    rw [hloads]
    constructor
    · intro ⟨hl, hd⟩
      obtain ⟨hplaces, hwaits⟩ := hdumps.mp hd
      exact ⟨fun item hi => (hl item hi).1, fun item hi => (hl item hi).2, hplaces, hwaits⟩
    · intro hw
      exact ⟨fun item hi => ⟨hw.loads item hi, hw.loadWaits item hi⟩, hdumps.mpr ⟨hw.places, hw.dumpWaits⟩⟩
  · intro x hx y hy he
    obtain ⟨item, _, hx⟩ := List.mem_flatMap.mp hx
    have hx' := request_of_mem_allLoads ((List.takeWhile_prefix _).subset hx)
    have hy' := (snd_zip_isPrefix _ _).subset (List.mem_map_of_mem (mem_of_mem_attempt hy))
    obtain ⟨c, hc, hc'⟩ := List.mem_map.mp hy'
    rw [← he, ← hc', request_of_mem_dumped hc] at hx'
    cases hx'
  · intro x hx y hy he
    obtain ⟨layer, _, hy⟩ := List.mem_flatMap.mp hy
    obtain ⟨item, _, hy⟩ := List.mem_flatMap.mp hy
    have hx' := request_of_mem_dumped hx
    rw [← he, request_of_mem_waits hy] at hx'
    cases hx'

end Settled

end UCMLayerWiseConnector

variable {BlockId ReqId : Type*} [DecidableEq ReqId] {config : WorkerConfig BlockId} {w : Worker BlockId ReqId}

/-- No handle of the step is left behind. -/
def Mode.WaitsAll (config : WorkerConfig BlockId) (raises : Raises ReqId)
    (metadata : Dict ReqId (RequestDispatchMeta BlockId)) : Mode → Prop
  | .direct => UCMDirectConnector.WaitsAll config raises metadata
  | .layerWise => UCMLayerWiseConnector.WaitsAll config raises metadata

theorem settled_iff_waitsAll {mode : Mode} (h : mode.Reach config w)
    (metadata : Dict ReqId (RequestDispatchMeta BlockId)) (raises : Raises ReqId) :
    (mode.step config raises w metadata).Settled raises ↔ mode.WaitsAll config raises metadata := by
  cases mode with
  | direct => exact UCMDirectConnector.settled_step_iff w metadata
  | layerWise => exact UCMLayerWiseConnector.settled_step_iff h.idle metadata

/-- The first load of request 0 is refused, and the last wait for a dump raises. -/
def raisesEnds : Raises Nat where
  submit task := decide (task = .load 0 0 false)
  wait _ task := decide (task = .dump 1 true)

theorem settled_raisesEnds :
    (Mode.layerWise.step (WorkerConfig.twoLayers .dsa) raisesEnds Worker.initial twoRequests).Settled raisesEnds := by
  have hreach : Mode.layerWise.Reach (WorkerConfig.twoLayers .dsa) (Worker.initial : Worker Nat Nat) :=
    StepSystem.Reach.start
  apply (settled_iff_waitsAll hreach twoRequests raisesEnds).mpr
  exact ⟨by decide, by decide, fun _ _ => by simp [UCMLayerWiseConnector.Shifts, raisesEnds, List.pairwise_of_forall], by decide⟩

/-- The second layer of request 0 is refused, and the wait for the dump raises. -/
def raisesLater : Raises Nat where
  submit task := decide (task = .load 0 1 false)
  wait _ task := decide (task = .dump 0 false)

theorem not_settled_raisesLater :
    ¬ (Mode.direct.step (WorkerConfig.twoLayers .keyValue) raisesLater Worker.initial twoRequests).Settled raisesLater ∧
      ¬ (Mode.layerWise.step (WorkerConfig.twoLayers .keyValue) raisesLater Worker.initial twoRequests).Settled
        raisesLater := by
  decide

end UnifiedCache.Connector
