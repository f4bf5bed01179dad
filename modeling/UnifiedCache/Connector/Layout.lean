import UnifiedCache.Connector.LayerTransfers
import UnifiedCache.Posix.ShardIo

/-! Where the connectors put the tensors of a block: both write and read the same files. -/

namespace UnifiedCache.Connector

open PosixStore (Io Memory File)

variable {ReqId : Type*}

/-- A file of a store: the one of a block. -/
abbrev FileName := StoreName × UnifiedCache.BlockId

abbrev IoOf := Io FileName

/-- No call raises. -/
def Raises.quiet : Raises ReqId := ⟨fun _ => false, fun _ _ => false⟩

namespace WorkerConfig

variable (config : WorkerConfig UnifiedCache.BlockId)

/-- `tensor_size` of the store, which is the stride of its blocks. -/
def tensorSize : StoreName → Nat
  | .store => config.blockStride.toNat
  | .ropeStore => config.ropeBlockStride.toNat

/-- `chunk_block_size` of the store. -/
def chunkBlockSize : StoreName → Nat
  | .store => config.tensorSize .store * config.numLayers * if config.shared then 1 else 2
  | .ropeStore => config.tensorSize .ropeStore * config.numLayers

end WorkerConfig

/-- The `shard_size` with which `_create_store` makes a store. -/
def Mode.shardSize (config : WorkerConfig UnifiedCache.BlockId) (name : StoreName) : Mode → Nat
  | .direct => config.chunkBlockSize name
  | .layerWise => config.tensorSize name

/-- `MakeTaskDesc`, which throws when the dimensions differ. -/
def Submission.makeTaskDesc (x : Submission UnifiedCache.BlockId ReqId) : TaskDesc :=
  if x.blockIds.length = x.shardIndexs.length ∧ x.blockIds.length = x.addrs.length then
    (x.blockIds.zip (x.shardIndexs.zip x.addrs)).map fun p => ⟨p.1, p.2.1, p.2.2.map UInt64.toNat⟩
  else []

/-- What the store does for a submission. -/
def Submission.ios (mode : Mode) (config : WorkerConfig UnifiedCache.BlockId)
    (x : Submission UnifiedCache.BlockId ReqId) : List IoOf :=
  x.makeTaskDesc.flatMap fun shard =>
    (PosixStore.rounds (config.tensorSize x.store) (mode.shardSize config x.store * shard.index) shard.addrs).map
      fun io => ⟨(x.store, shard.owner), io.1, io.2, config.tensorSize x.store⟩

namespace Mode

variable [DecidableEq ReqId] (mode : Mode) (config : WorkerConfig UnifiedCache.BlockId)
  (w : Worker UnifiedCache.BlockId ReqId) (metadata : Dict ReqId (RequestDispatchMeta UnifiedCache.BlockId))

/-- What is written in a step without failures. -/
def dumpIos : List IoOf :=
  ((mode.step config .quiet w metadata).submitted.filter fun x => x.task.request.isNone).flatMap
    (Submission.ios mode config)

/-- What is read in a step without failures. -/
def loadIos : List IoOf :=
  ((mode.step config .quiet w metadata).submitted.filter fun x => x.task.request.isSome).flatMap
    (Submission.ios mode config)

end Mode

namespace WorkerConfig

variable (config : WorkerConfig UnifiedCache.BlockId)

/-- The key of a block: its id, hashed once on the ranks that have their own files. -/
def blockKey (blockId : UnifiedCache.BlockId) : UnifiedCache.BlockId :=
  if config.tpRank ≠ 0 ∧ ¬ config.shared then config.requestHasher blockId else blockId

/-- The tensors of a layer, each at its offset. -/
def layerIos (block : UnifiedCache.BlockId × Nat) (layer : Nat) : List IoOf :=
  let size := config.tensorSize .store
  let k : IoOf := ⟨(.store, block.1), size * layer, (config.kAddr layer block.2).toNat, size⟩
  match config.kind with
  | .mla => [k]
  | .dsa =>
    let ropeSize := config.tensorSize .ropeStore
    [k, ⟨(.ropeStore, block.1), ropeSize * layer, (config.ropeAddr layer block.2).toNat, ropeSize⟩]
  | .keyValue =>
    [k, ⟨(.store, block.1), size * (layer + config.numLayers), (config.vAddr layer block.2).toNat, size⟩]

def blockIos (block : UnifiedCache.BlockId × Nat) : List IoOf :=
  (List.range config.numLayers).flatMap (config.layerIos block)

end WorkerConfig

section Rows

variable (mode : Mode) (config : WorkerConfig UnifiedCache.BlockId)

/-- The blocks of a transfer with their keys, one row of addresses each. -/
def blockPairs (blockIds : List UnifiedCache.BlockId) (vllmBlockIds : List Nat) : List (UnifiedCache.BlockId × Nat) :=
  if blockIds.length = vllmBlockIds.length then blockIds.zip vllmBlockIds else []

/-- The reads or writes of one row. -/
def rowIos (name : StoreName) (start : Nat) (key : UnifiedCache.BlockId) (row : List UInt64) : List IoOf :=
  (PosixStore.rounds (config.tensorSize name) start (row.map UInt64.toNat)).map
    fun io => ⟨(name, key), io.1, io.2, config.tensorSize name⟩

theorem zip_replicate_zip {α β γ : Type*} (as : List α) (bs : List β) (c : γ) :
    as.zip ((List.replicate as.length c).zip bs) = (as.zip bs).map fun p => (p.1, c, p.2) := by
  induction as generalizing bs with
  | nil => rfl
  | cons a as ih =>
    cases bs with
    | nil => rfl
    | cons b bs => exact congrArg _ (ih bs)

theorem ios_replicate (name : StoreName) (task : Task ReqId) (blockIds : List UnifiedCache.BlockId)
    (vllmBlockIds : List Nat) (index : Nat) (row : Nat → List UInt64) :
    Submission.ios mode config ⟨name, task, blockIds, List.replicate blockIds.length index, vllmBlockIds.map row⟩ =
      (blockPairs blockIds vllmBlockIds).flatMap fun p =>
        rowIos config name (mode.shardSize config name * index) p.1 (row p.2) := by
  unfold Submission.ios Submission.makeTaskDesc blockPairs
  dsimp only
  rw [List.length_replicate, List.length_map]
  by_cases hlength : blockIds.length = vllmBlockIds.length
  · rw [if_pos ⟨rfl, hlength⟩, if_pos hlength]
    rw [zip_replicate_zip, List.zip_map_right, List.map_map, List.map_map, List.flatMap_map]
    rfl
  · rw [if_neg fun h => hlength h.2, if_neg hlength]
    rfl

/-- The `i`-th tensor of a file. -/
def tensorIo (name : StoreName) (key : UnifiedCache.BlockId) (i : Nat) (addr : UInt64) : IoOf :=
  ⟨(name, key), config.tensorSize name * i, addr.toNat, config.tensorSize name⟩

theorem rowIos_range (name : StoreName) (start : Nat) (key : UnifiedCache.BlockId) (n : Nat) (addr : Nat → UInt64) :
    rowIos config name (config.tensorSize name * start) key ((List.range n).map addr) =
      (List.range n).flatMap fun i => [tensorIo config name key (i + start) (addr i)] := by
  unfold rowIos
  rw [List.map_map, PosixStore.rounds_range, List.map_map, List.map_eq_flatMap]
  apply List.flatMap_congr
  intro i _
  rw [Function.comp_apply, ← Nat.mul_add, Nat.add_comm]
  rfl

theorem rowIos_append (name : StoreName) (start : Nat) (key : UnifiedCache.BlockId) (xs ys : List UInt64) :
    rowIos config name start key (xs ++ ys) = rowIos config name start key xs ++
      rowIos config name (start + config.tensorSize name * xs.length) key ys := by
  unfold rowIos
  rw [List.map_append, PosixStore.rounds_append, List.map_append, List.length_map]

end Rows

namespace UCMDirectConnector

variable (config : WorkerConfig UnifiedCache.BlockId)

theorem ios_submissions (task : Bool → Task ReqId) (blockIds : List UnifiedCache.BlockId) (vllmBlockIds : List Nat) :
    ((submissions config task blockIds vllmBlockIds).flatMap (Submission.ios .direct config)).Perm
      ((blockPairs blockIds vllmBlockIds).flatMap config.blockIos) := by
  have hrow : ∀ name, ∀ p : UnifiedCache.BlockId × Nat, ∀ addr : Nat → UInt64,
      rowIos config name (Mode.direct.shardSize config name * 0) p.1 ((List.range config.numLayers).map addr) =
        (List.range config.numLayers).flatMap fun i => [tensorIo config name p.1 i (addr i)] :=
    fun name p addr => rowIos_range config name 0 p.1 config.numLayers addr
  unfold submissions WorkerConfig.generateTask WorkerConfig.blockIos WorkerConfig.layerIos
  cases config.kind with
  | mla =>
    simp only [Option.map_none, Option.toList_none, List.flatMap_singleton]
    rw [ios_replicate]
    simp only [hrow]
    exact List.Perm.refl _
  | dsa =>
    simp only [Option.map_some, Option.toList_some, List.flatMap_cons, List.flatMap_nil, List.append_nil]
    rw [ios_replicate, ios_replicate]
    simp only [hrow]
    apply (List.flatMap_append_perm _ _ _).trans
    apply List.Perm.flatMap_left
    intro p _
    exact List.flatMap_append_perm _ _ _
  | keyValue =>
    simp only [Option.map_none, Option.toList_none, List.flatMap_singleton]
    rw [List.zipWith_map, List.zipWith_self, ios_replicate]
    apply List.Perm.flatMap_left
    intro p _
    have hlength : ((List.range config.numLayers).map fun i => config.kAddr i p.2).length = config.numLayers := by simp
    rw [rowIos_append, hrow, hlength, Nat.mul_zero, Nat.zero_add, rowIos_range]
    exact List.flatMap_append_perm _ _ _

end UCMDirectConnector

namespace UCMLayerWiseConnector

variable (config : WorkerConfig UnifiedCache.BlockId)

theorem ios_layerSubmissions (task : Nat → Bool → Task ReqId) (blockIds : List UnifiedCache.BlockId)
    (vllmBlockIds : List Nat) :
    (((List.range config.numLayers).flatMap (layerSubmissions config task blockIds vllmBlockIds)).flatMap
      (Submission.ios .layerWise config)).Perm ((blockPairs blockIds vllmBlockIds).flatMap config.blockIos) := by
  have hlayer : ∀ layer, ((layerSubmissions config task blockIds vllmBlockIds layer).flatMap
      (Submission.ios .layerWise config)).Perm
        ((blockPairs blockIds vllmBlockIds).flatMap fun p => config.layerIos p layer) := by
    intro layer
    unfold layerSubmissions WorkerConfig.layerIos
    cases config.kind with
    | mla =>
      rw [List.flatMap_singleton, ios_replicate]
      exact List.Perm.refl _
    | dsa =>
      rw [List.flatMap_cons, List.flatMap_singleton, ios_replicate, ios_replicate]
      exact List.flatMap_append_perm _ _ _
    | keyValue =>
      rw [List.flatMap_cons, List.flatMap_singleton, ios_replicate, ios_replicate]
      exact List.flatMap_append_perm _ _ _
  rw [List.flatMap_assoc]
  apply (List.Perm.flatMap_left _ fun layer _ => hlayer layer).trans
  exact flatMap_flatMap_perm _ _ _

end UCMLayerWiseConnector

section Submitted

variable [DecidableEq ReqId] {config : WorkerConfig UnifiedCache.BlockId} {w : Worker UnifiedCache.BlockId ReqId}
  {metadata : Dict ReqId (RequestDispatchMeta UnifiedCache.BlockId)}

omit [DecidableEq ReqId] in
theorem attempt_quiet (submissions : List (Submission UnifiedCache.BlockId ReqId)) :
    attempt (fun x => Raises.quiet.submit x.task) submissions = submissions :=
  attempt_of_forall fun _ _ => rfl

/-- What a step submits: the loads of its requests, and the dump of them all. -/
def stepSubmissions (config : WorkerConfig UnifiedCache.BlockId)
    (load : ReqId × RequestDispatchMeta UnifiedCache.BlockId → List (Submission UnifiedCache.BlockId ReqId))
    (dump : List UnifiedCache.BlockId × List Nat → List (Submission UnifiedCache.BlockId ReqId))
    (metadata : Dict ReqId (RequestDispatchMeta UnifiedCache.BlockId)) : List (Submission UnifiedCache.BlockId ReqId) :=
  (metadata.mapVals config.rehashLoad).items.flatMap
      (fun item => if item.2.loadBlockIds.1.isEmpty then [] else load item) ++
    if config.dumps metadata then dump (totalDump ((metadata.mapVals config.rehashLoad).mapVals config.rehashDump)) else []

omit [DecidableEq ReqId] in
theorem savesAny_rehash (config : WorkerConfig UnifiedCache.BlockId)
    {m metadata : Dict ReqId (RequestDispatchMeta UnifiedCache.BlockId)} (h : m = metadata.mapVals config.rehashLoad) :
    savesAny m = savesAny metadata := by
  rw [h, savesAny_rehashLoad]

namespace UCMDirectConnector

def load (config : WorkerConfig UnifiedCache.BlockId) (item : ReqId × RequestDispatchMeta UnifiedCache.BlockId) :
    List (Submission UnifiedCache.BlockId ReqId) :=
  submissions config (.load item.1 0) item.2.loadBlockIds.1 item.2.loadBlockIds.2

variable (config) in
theorem submitted_loads (items : List (ReqId × RequestDispatchMeta UnifiedCache.BlockId))
    (loaded : Worker UnifiedCache.BlockId ReqId × Dict ReqId (List (Task ReqId))) :
    (items.foldl (loadRequest config .quiet) loaded).1.submitted = loaded.1.submitted ++
        items.flatMap (fun item => if item.2.loadBlockIds.1.isEmpty then [] else load config item) ∧
      (items.foldl (loadRequest config .quiet) loaded).1.metadata = loaded.1.metadata := by
  induction items generalizing loaded with
  | nil => simp
  | cons item items ih =>
    obtain ⟨hsubmitted, hmeta⟩ := ih (loadRequest config .quiet loaded item)
    rw [List.foldl_cons, hsubmitted, hmeta, List.flatMap_cons]
    unfold loadRequest
    split_ifs
    · exact ⟨rfl, rfl⟩
    · dsimp only
      rw [Worker.tryLoad_submitted, Worker.tryLoad_metadata, attempt_quiet, List.append_assoc]
      exact ⟨rfl, rfl⟩

variable (config) in
theorem submitted_startLoadKv (w : Worker UnifiedCache.BlockId ReqId) :
    (startLoadKv config .quiet w).submitted = w.submitted ++ (w.metadata.mapVals config.rehashLoad).items.flatMap
        (fun item => if item.2.loadBlockIds.1.isEmpty then [] else load config item) ∧
      (startLoadKv config .quiet w).metadata = w.metadata.mapVals config.rehashLoad := by
  let w₁ : Worker UnifiedCache.BlockId ReqId := { w with metadata := w.metadata.mapVals config.rehashLoad }
  have hloads := submitted_loads config w₁.metadata.items (w₁, Dict.empty)
  apply List.foldlRecOn (motive := fun t : Worker UnifiedCache.BlockId ReqId =>
    t.submitted = w.submitted ++ (w.metadata.mapVals config.rehashLoad).items.flatMap
        (fun item => if item.2.loadBlockIds.1.isEmpty then [] else load config item) ∧
      t.metadata = w.metadata.mapVals config.rehashLoad) _ _ hloads
  intro t h item _
  simpa [waitRequest] using h

theorem submitted_step (w : Worker UnifiedCache.BlockId ReqId)
    (metadata : Dict ReqId (RequestDispatchMeta UnifiedCache.BlockId)) :
    (step config .quiet w metadata).submitted =
      stepSubmissions config (load config) (fun total => submissions config (.dump 0) total.1 total.2) metadata := by
  obtain ⟨hsubmitted, hmeta⟩ := submitted_startLoadKv config (w.bindConnectorMetadata metadata)
  unfold step waitForSave stepSubmissions
  by_cases hrank : config.shared ∧ config.tpRank ≠ 0
  · have hdumps : config.dumps metadata = false := by simp [WorkerConfig.dumps, hrank]
    rw [if_pos hrank, hsubmitted, hdumps]
    exact (List.append_nil _).symm
  · have hdumps : config.dumps metadata = savesAny metadata := by simp [WorkerConfig.dumps, hrank]
    rw [if_neg hrank]
    dsimp only
    have hsaves : savesAny (startLoadKv config .quiet (w.bindConnectorMetadata metadata)).metadata = savesAny metadata :=
      savesAny_rehash config hmeta
    rw [savesAny_rehashDump, hsaves, hdumps]
    cases savesAny metadata with
    | false => exact hsubmitted.trans (List.append_nil _).symm
    | true =>
      rw [if_pos rfl, if_pos rfl]
      change (startLoadKv config .quiet (w.bindConnectorMetadata metadata)).submitted ++ attempt _ _ = _
      rw [hsubmitted, hmeta, attempt_quiet]
      rfl

end UCMDirectConnector

namespace UCMLayerWiseConnector

variable (config) in
theorem submitted_startLoadKv (w : Worker UnifiedCache.BlockId ReqId) :
    (startLoadKv config .quiet w).submitted = w.submitted ++ (w.metadata.mapVals config.rehashLoad).items.flatMap
        (fun item => if item.2.loadBlockIds.1.isEmpty then [] else loadSubmissions config item) ∧
      (startLoadKv config .quiet w).metadata = w.metadata.mapVals config.rehashLoad := by
  have hfold : ∀ (items : List (ReqId × RequestDispatchMeta UnifiedCache.BlockId)) (w : Worker UnifiedCache.BlockId ReqId),
      (items.foldl (loadRequest config .quiet) w).submitted = w.submitted ++
          items.flatMap (fun item => if item.2.loadBlockIds.1.isEmpty then [] else loadSubmissions config item) ∧
        (items.foldl (loadRequest config .quiet) w).metadata = w.metadata := by
    intro items
    induction items with
    | nil => simp
    | cons item items ih =>
      intro w
      obtain ⟨hsubmitted, hmeta⟩ := ih (loadRequest config .quiet w item)
      rw [List.foldl_cons, hsubmitted, hmeta, List.flatMap_cons]
      unfold loadRequest
      cases item.2.loadBlockIds.1.isEmpty with
      | true => exact ⟨rfl, rfl⟩
      | false =>
        dsimp only
        rw [if_neg Bool.false_ne_true, if_neg Bool.false_ne_true, Worker.tryLoad_submitted, Worker.tryLoad_metadata,
          attempt_quiet, List.append_assoc]
        exact ⟨rfl, rfl⟩
  exact hfold _ { w with metadata := w.metadata.mapVals config.rehashLoad, loadTasks := Dict.empty }

variable (config) in
theorem submitted_waitForLayerLoad (w : Worker UnifiedCache.BlockId ReqId) (layer : Nat) :
    (waitForLayerLoad config .quiet w layer).submitted = w.submitted ∧
      (waitForLayerLoad config .quiet w layer).metadata = w.metadata ∧
      (waitForLayerLoad config .quiet w layer).isSave = w.isSave := by
  apply List.foldlRecOn (motive := fun t : Worker UnifiedCache.BlockId ReqId =>
    t.submitted = w.submitted ∧ t.metadata = w.metadata ∧ t.isSave = w.isSave) _ _ ⟨rfl, rfl, rfl⟩
  intro t h item _
  simpa using h

omit [DecidableEq ReqId] in
/-- The ids of a dump are hashed at layer 0. -/
theorem submitted_saveKvLayer (hrank : ¬ (config.shared ∧ config.tpRank ≠ 0)) (layer : Nat)
    (hsave : w.isSave = true → savesAny w.metadata = true) :
    let saved := if layer = 0 then w.metadata.mapVals config.rehashDump else w.metadata
    let after := saveKvLayer config .quiet w layer
    after.submitted = w.submitted ++ (if savesAny w.metadata then
        layerSubmissions config .dump (totalDump saved).1 (totalDump saved).2 layer else []) ∧
      after.metadata = saved ∧ (after.isSave = true → savesAny w.metadata = true) := by
  dsimp only
  have hsaves : savesAny (if layer = 0 then w.metadata.mapVals config.rehashDump else w.metadata) =
      savesAny w.metadata := by
    split_ifs
    · exact savesAny_rehashDump config _
    · rfl
  unfold saveKvLayer
  rw [if_neg hrank]
  dsimp only
  generalize (if layer = 0 then w.metadata.mapVals config.rehashDump else w.metadata) = saved at hsaves ⊢
  have hboth : (w.isSave || savesAny saved) = savesAny w.metadata := by
    rw [hsaves]
    cases hs : w.isSave with
    | false => rfl
    | true => rw [hsave hs, Bool.true_or]
  rw [hboth]
  cases savesAny w.metadata with
  | false => exact ⟨(List.append_nil _).symm, rfl, fun h => h⟩
  | true =>
    rw [if_pos rfl, if_pos rfl]
    exact ⟨congrArg (w.submitted ++ ·) (attempt_quiet _), rfl, fun _ => rfl⟩

/-- From layer 1 on the ids stay. -/
theorem submitted_layers (hrank : ¬ (config.shared ∧ config.tpRank ≠ 0)) {layers : List Nat} (hlayers : 0 ∉ layers)
    (hsave : w.isSave = true → savesAny w.metadata = true) :
    (layers.foldl (fun w layer => saveKvLayer config .quiet (waitForLayerLoad config .quiet w layer) layer) w).submitted =
      w.submitted ++ (if savesAny w.metadata then
        layers.flatMap (layerSubmissions config .dump (totalDump w.metadata).1 (totalDump w.metadata).2) else []) := by
  induction layers generalizing w with
  | nil => simp
  | cons layer layers ih =>
    obtain ⟨hsubmitted, hmeta, hisSave⟩ := submitted_waitForLayerLoad config w layer
    have hsave' := hsave
    rw [← hisSave, ← hmeta] at hsave'
    obtain ⟨hsubmitted', hmeta', hsaved⟩ := submitted_saveKvLayer hrank layer hsave'
    have hne : layer ≠ 0 := fun he => hlayers (he ▸ List.mem_cons_self)
    rw [if_neg hne] at hsubmitted' hmeta'
    rw [List.foldl_cons, ih (fun h => hlayers (List.mem_cons_of_mem _ h)) (by rwa [hmeta']), hsubmitted', hmeta',
      hsubmitted, hmeta, List.append_assoc]
    split_ifs
    · rfl
    · rfl

/-- The layers of a rank that dumps. -/
theorem submitted_range (hrank : ¬ (config.shared ∧ config.tpRank ≠ 0)) (hsave : w.isSave = false) :
    ((List.range config.numLayers).foldl (fun w layer =>
      saveKvLayer config .quiet (waitForLayerLoad config .quiet w layer) layer) w).submitted =
      w.submitted ++ if savesAny w.metadata then
        (List.range config.numLayers).flatMap (layerSubmissions config .dump
          (totalDump (w.metadata.mapVals config.rehashDump)).1 (totalDump (w.metadata.mapVals config.rehashDump)).2)
      else [] := by
  cases config.numLayers with
  | zero => simp
  | succ n =>
    obtain ⟨hsubmitted, hmeta, hisSave⟩ := submitted_waitForLayerLoad config w 0
    have hidle : (waitForLayerLoad config .quiet w 0).isSave = true →
        savesAny (waitForLayerLoad config .quiet w 0).metadata = true :=
      fun h => absurd (h.symm.trans (hisSave.trans hsave)) Bool.false_ne_true.symm
    obtain ⟨hsubmitted', hmeta', hsaved⟩ := submitted_saveKvLayer hrank 0 hidle
    rw [if_pos rfl, hmeta] at hsubmitted' hmeta'
    have hsaves : savesAny (w.metadata.mapVals config.rehashDump) = savesAny w.metadata := savesAny_rehashDump config _
    have hlayers : 0 ∉ (List.range n).map Nat.succ := by simp
    rw [List.range_succ_eq_map, List.foldl_cons,
      submitted_layers hrank hlayers (by rw [hmeta', hsaves, ← hmeta]; exact hsaved), hsubmitted', hmeta', hsaves,
      hsubmitted, List.append_assoc]
    split_ifs
    · rfl
    · rfl

theorem submitted_step (h : w.Idle) (metadata : Dict ReqId (RequestDispatchMeta UnifiedCache.BlockId)) :
    (step config .quiet w metadata).submitted = stepSubmissions config (loadSubmissions config)
      (fun total => (List.range config.numLayers).flatMap (layerSubmissions config .dump total.1 total.2)) metadata := by
  obtain ⟨hsubmitted, hmeta⟩ := submitted_startLoadKv config (w.bindConnectorMetadata metadata)
  obtain ⟨_, hisSave⟩ := startLoadKv_kept config .quiet (w.bindConnectorMetadata metadata)
  have hsave : ∀ t : Worker UnifiedCache.BlockId ReqId, (waitForSave config .quiet t).submitted = t.submitted := by
    intro t
    unfold waitForSave
    split_ifs <;> rfl
  unfold step stepSubmissions
  dsimp only
  rw [hsave]
  by_cases hrank : config.shared ∧ config.tpRank ≠ 0
  · have hdumps : config.dumps metadata = false := by simp [WorkerConfig.dumps, hrank]
    rw [hdumps, if_neg Bool.false_ne_true, List.append_nil]
    apply List.foldlRecOn (motive := fun t : Worker UnifiedCache.BlockId ReqId => t.submitted = _) _ _ hsubmitted
    intro t ht layer _
    rw [saveKvLayer, if_pos hrank, (submitted_waitForLayerLoad config t layer).1, ht]
  · have hdumps : config.dumps metadata = savesAny metadata := by simp [WorkerConfig.dumps, hrank]
    have hsaves : savesAny (startLoadKv config .quiet (w.bindConnectorMetadata metadata)).metadata = savesAny metadata :=
      savesAny_rehash config hmeta
    rw [submitted_range hrank (hisSave.trans h.isSave), hsaves, hdumps, hsubmitted, hmeta]
    rfl

end UCMLayerWiseConnector

end Submitted

section Blocks

variable (config : WorkerConfig UnifiedCache.BlockId)

/-- The blocks that a step loads, by their keys. -/
def loadPairs (metadata : Dict ReqId (RequestDispatchMeta UnifiedCache.BlockId)) : List (UnifiedCache.BlockId × Nat) :=
  metadata.items.flatMap fun item => blockPairs (item.2.loadBlockIds.1.map config.blockKey) item.2.loadBlockIds.2

/-- The blocks that a step dumps, by their keys. -/
def dumpPairs (metadata : Dict ReqId (RequestDispatchMeta UnifiedCache.BlockId)) : List (UnifiedCache.BlockId × Nat) :=
  if config.dumps metadata then blockPairs ((totalDump metadata).1.map config.blockKey) (totalDump metadata).2 else []

theorem totalDump_mapVals {f : RequestDispatchMeta UnifiedCache.BlockId → RequestDispatchMeta UnifiedCache.BlockId}
    {key : UnifiedCache.BlockId → UnifiedCache.BlockId}
    (h : ∀ request, (f request).dumpBlockIds = (request.dumpBlockIds.1.map key, request.dumpBlockIds.2))
    (metadata : Dict ReqId (RequestDispatchMeta UnifiedCache.BlockId)) :
    totalDump (metadata.mapVals f) = ((totalDump metadata).1.map key, (totalDump metadata).2) := by
  have hids : ∀ items : List (ReqId × RequestDispatchMeta UnifiedCache.BlockId),
      ((items.map fun p => (p.1, f p.2)).map Prod.snd).filter (fun request => !request.dumpBlockIds.1.isEmpty) =
        ((items.map Prod.snd).filter fun request => !request.dumpBlockIds.1.isEmpty).map f := by
    intro items
    rw [List.map_map, List.filter_map, List.filter_map, List.map_map]
    simp [Function.comp_def, h]
  unfold totalDump Dict.mapVals
  rw [hids]
  dsimp only
  rw [List.flatMap_map, List.flatMap_map, List.map_flatMap]
  simp only [h]

theorem rehashLoad_blockKey (request : RequestDispatchMeta UnifiedCache.BlockId) :
    (config.rehashLoad request).loadBlockIds = (request.loadBlockIds.1.map config.blockKey, request.loadBlockIds.2) := by
  unfold WorkerConfig.rehashLoad
  split_ifs with h
  · have hkey : config.blockKey = config.requestHasher := funext fun _ => if_pos h
    rw [hkey]
  · have hkey : config.blockKey = id := funext fun _ => if_neg h
    rw [hkey, List.map_id]

theorem rehashDump_blockKey (h : ¬ (config.shared ∧ config.tpRank ≠ 0))
    (request : RequestDispatchMeta UnifiedCache.BlockId) :
    (config.rehashDump request).dumpBlockIds = (request.dumpBlockIds.1.map config.blockKey, request.dumpBlockIds.2) := by
  unfold WorkerConfig.rehashDump
  split_ifs with hrank
  · have hkey : config.blockKey = config.requestHasher := funext fun _ => if_pos ⟨hrank, fun hs => h ⟨hs, hrank⟩⟩
    rw [hkey]
  · have hkey : config.blockKey = id := funext fun _ => if_neg fun hk => hrank hk.1
    rw [hkey, List.map_id]

theorem dumpBlockIds_rehashLoad (request : RequestDispatchMeta UnifiedCache.BlockId) :
    (config.rehashLoad request).dumpBlockIds = (request.dumpBlockIds.1.map id, request.dumpBlockIds.2) := by
  rw [List.map_id]
  unfold WorkerConfig.rehashLoad
  split_ifs <;> rfl

variable {mode : Mode} {metadata : Dict ReqId (RequestDispatchMeta UnifiedCache.BlockId)}
  {load : ReqId × RequestDispatchMeta UnifiedCache.BlockId → List (Submission UnifiedCache.BlockId ReqId)}
  {dump : List UnifiedCache.BlockId × List Nat → List (Submission UnifiedCache.BlockId ReqId)}

theorem loads_stepSubmissions (hload : ∀ item, ∀ x ∈ load item, x.task.request = some item.1)
    (hdump : ∀ total, ∀ x ∈ dump total, x.task.request = none) :
    (stepSubmissions config load dump metadata).filter (fun x => x.task.request.isSome) =
      (metadata.mapVals config.rehashLoad).items.flatMap
        fun item => if item.2.loadBlockIds.1.isEmpty then [] else load item := by
  unfold stepSubmissions
  rw [List.filter_append, List.filter_eq_self.mpr, List.filter_eq_nil_iff.mpr, List.append_nil]
  · intro x hx
    split_ifs at hx
    · simp [hdump _ x hx]
    · cases hx
  · intro x hx
    obtain ⟨item, _, hx⟩ := List.mem_flatMap.mp hx
    split_ifs at hx
    · cases hx
    · simp [hload item x hx]

theorem dumps_stepSubmissions (hload : ∀ item, ∀ x ∈ load item, x.task.request = some item.1)
    (hdump : ∀ total, ∀ x ∈ dump total, x.task.request = none) :
    (stepSubmissions config load dump metadata).filter (fun x => x.task.request.isNone) =
      if config.dumps metadata then dump (totalDump ((metadata.mapVals config.rehashLoad).mapVals config.rehashDump))
      else [] := by
  unfold stepSubmissions
  rw [List.filter_append, List.filter_eq_nil_iff.mpr, List.filter_eq_self.mpr, List.nil_append]
  · intro x hx
    split_ifs at hx
    · simp [hdump _ x hx]
    · cases hx
  · intro x hx
    obtain ⟨item, _, hx⟩ := List.mem_flatMap.mp hx
    split_ifs at hx
    · cases hx
    · simp [hload item x hx]

/-- Each block is read from its tensors' places under its key. -/
theorem loads_perm (hios : ∀ item, ((load item).flatMap (Submission.ios mode config)).Perm
      ((blockPairs item.2.loadBlockIds.1 item.2.loadBlockIds.2).flatMap config.blockIos)) :
    (((metadata.mapVals config.rehashLoad).items.flatMap fun item =>
        if item.2.loadBlockIds.1.isEmpty then [] else load item).flatMap (Submission.ios mode config)).Perm
      ((loadPairs config metadata).flatMap config.blockIos) := by
  unfold loadPairs Dict.mapVals
  rw [List.flatMap_assoc, List.flatMap_map, List.flatMap_assoc]
  apply List.Perm.flatMap_left
  intro item _
  have hids := rehashLoad_blockKey config item.2
  have hperm := hios (item.1, config.rehashLoad item.2)
  rw [hids] at hperm
  cases hempty : (config.rehashLoad item.2).loadBlockIds.1.isEmpty with
  | true =>
    have hnil : item.2.loadBlockIds.1.map config.blockKey = [] := by
      rw [hids] at hempty
      exact List.isEmpty_iff.mp hempty
    rw [if_pos rfl, hnil]
    unfold blockPairs
    split_ifs <;> exact List.Perm.refl _
  | false =>
    rw [if_neg Bool.false_ne_true]
    exact hperm

/-- And written to them. -/
theorem dumps_perm (hios : ∀ total, ((dump total).flatMap (Submission.ios mode config)).Perm
      ((blockPairs total.1 total.2).flatMap config.blockIos)) :
    ((if config.dumps metadata then dump (totalDump ((metadata.mapVals config.rehashLoad).mapVals config.rehashDump))
      else []).flatMap (Submission.ios mode config)).Perm ((dumpPairs config metadata).flatMap config.blockIos) := by
  unfold dumpPairs
  cases hdumps : config.dumps metadata with
  | false => exact List.Perm.refl _
  | true =>
    have hrank : ¬ (config.shared ∧ config.tpRank ≠ 0) := of_decide_eq_true (Bool.and_eq_true_iff.mp hdumps).1
    have htotal := totalDump_mapVals (rehashDump_blockKey config hrank) (metadata.mapVals config.rehashLoad)
    rw [totalDump_mapVals (dumpBlockIds_rehashLoad config) metadata, List.map_id] at htotal
    have hperm := hios (totalDump ((metadata.mapVals config.rehashLoad).mapVals config.rehashDump))
    rw [htotal] at hperm ⊢
    exact hperm

end Blocks

section Files

variable [DecidableEq ReqId] {config : WorkerConfig UnifiedCache.BlockId} {mode : Mode}
  {w : Worker UnifiedCache.BlockId ReqId}

/-- A step reads the tensors of the blocks that it loads, and writes those of the blocks that it
dumps, at places that do not depend on the connector. -/
theorem ios_step (h : mode.Reach config w) (metadata : Dict ReqId (RequestDispatchMeta UnifiedCache.BlockId)) :
    (mode.loadIos config w metadata).Perm ((loadPairs config metadata).flatMap config.blockIos) ∧
      (mode.dumpIos config w metadata).Perm ((dumpPairs config metadata).flatMap config.blockIos) := by
  unfold Mode.loadIos Mode.dumpIos
  cases mode with
  | direct =>
    have hload : ∀ item : ReqId × RequestDispatchMeta UnifiedCache.BlockId, ∀ x ∈ UCMDirectConnector.load config item,
        x.task.request = some item.1 := fun item x hx =>
      UCMDirectConnector.request_of_mem_submissions (r := some item.1) (fun _ => rfl) hx
    have hdump : ∀ total : List UnifiedCache.BlockId × List Nat,
        ∀ x ∈ UCMDirectConnector.submissions config (Task.dump 0 : Bool → Task ReqId) total.1 total.2,
        x.task.request = none := fun total x hx =>
      UCMDirectConnector.request_of_mem_submissions (r := none) (fun _ => rfl) hx
    rw [Mode.step, UCMDirectConnector.submitted_step, loads_stepSubmissions config hload hdump,
      dumps_stepSubmissions config hload hdump]
    exact ⟨loads_perm config fun item => UCMDirectConnector.ios_submissions config _ _ _,
      dumps_perm config fun total => UCMDirectConnector.ios_submissions config _ _ _⟩
  | layerWise =>
    have hload : ∀ item : ReqId × RequestDispatchMeta UnifiedCache.BlockId,
        ∀ x ∈ UCMLayerWiseConnector.loadSubmissions config item, x.task.request = some item.1 := by
      intro item x hx
      obtain ⟨layer, _, hx⟩ := List.mem_flatMap.mp hx
      exact UCMLayerWiseConnector.request_of_mem_layerSubmissions (r := some item.1) (fun _ => rfl) hx
    have hdump : ∀ total : List UnifiedCache.BlockId × List Nat,
        ∀ x ∈ (List.range config.numLayers).flatMap (UCMLayerWiseConnector.layerSubmissions config
          (Task.dump : Nat → Bool → Task ReqId) total.1 total.2), x.task.request = none := by
      intro total x hx
      obtain ⟨layer, _, hx⟩ := List.mem_flatMap.mp hx
      exact UCMLayerWiseConnector.request_of_mem_layerSubmissions (r := none) (fun _ => rfl) hx
    rw [Mode.step, UCMLayerWiseConnector.submitted_step h.idle, loads_stepSubmissions config hload hdump,
      dumps_stepSubmissions config hload hdump]
    exact ⟨loads_perm config fun item => UCMLayerWiseConnector.ios_layerSubmissions config _ _ _,
      dumps_perm config fun total => UCMLayerWiseConnector.ios_layerSubmissions config _ _ _⟩

/-- The address of the `i`-th tensor of a block in a store. -/
def WorkerConfig.tensorAddr (config : WorkerConfig UnifiedCache.BlockId) (vllmBlockId i : Nat) : StoreName → UInt64
  | .store => if i < config.numLayers then config.kAddr i vllmBlockId else config.vAddr (i - config.numLayers) vllmBlockId
  | .ropeStore => config.ropeAddr i vllmBlockId

theorem eq_tensorIo_of_mem_blockIos {p : UnifiedCache.BlockId × Nat} {io : IoOf} (h : io ∈ config.blockIos p) :
    ∃ name i, io = tensorIo config name p.1 i (config.tensorAddr p.2 i name) := by
  obtain ⟨layer, hlayer, h⟩ := List.mem_flatMap.mp h
  have hlt := List.mem_range.mp hlayer
  have hk : config.tensorAddr p.2 layer .store = config.kAddr layer p.2 := if_pos hlt
  have hv : config.tensorAddr p.2 (layer + config.numLayers) .store = config.vAddr layer p.2 := by
    rw [WorkerConfig.tensorAddr, if_neg (by omega), Nat.add_sub_cancel]
  unfold WorkerConfig.layerIos at h
  cases hkind : config.kind with
  | mla =>
    rw [hkind] at h
    exact ⟨.store, layer, by rw [hk]; exact List.mem_singleton.mp h⟩
  | dsa =>
    rw [hkind] at h
    obtain rfl | h := List.mem_cons.mp h
    · exact ⟨.store, layer, by rw [hk]; rfl⟩
    · exact ⟨.ropeStore, layer, List.mem_singleton.mp h⟩
  | keyValue =>
    rw [hkind] at h
    obtain rfl | h := List.mem_cons.mp h
    · exact ⟨.store, layer, by rw [hk]; rfl⟩
    · exact ⟨.store, layer + config.numLayers, by rw [hv]; exact List.mem_singleton.mp h⟩

/-- Tensors with one place in a file hold the same bytes. So it is when each key is dumped from
one block, or from blocks of the same tokens. -/
def WorkerConfig.OneContent (config : WorkerConfig UnifiedCache.BlockId) (memory : Memory)
    (blocks : List (UnifiedCache.BlockId × Nat)) : Prop :=
  ∀ p ∈ blocks, ∀ q ∈ blocks, p.1 = q.1 → ∀ io ∈ config.blockIos p, ∀ io' ∈ config.blockIos q,
    io.file = io'.file → io.offset = io'.offset → ∀ k < io.size, memory (io.addr + k) = memory (io'.addr + k)

theorem agrees_of_mem_dump {memory : Memory} {blocks : List (UnifiedCache.BlockId × Nat)}
    (hone : config.OneContent memory blocks) {io io' : IoOf} (h : io ∈ blocks.flatMap config.blockIos)
    (h' : io' ∈ blocks.flatMap config.blockIos) : io.Agrees memory io' := by
  obtain ⟨p, hp, h⟩ := List.mem_flatMap.mp h
  obtain ⟨q, hq, h'⟩ := List.mem_flatMap.mp h'
  obtain ⟨name, i, hio⟩ := eq_tensorIo_of_mem_blockIos h
  obtain ⟨name', j, hio'⟩ := eq_tensorIo_of_mem_blockIos h'
  intro hfile
  have hsame := hfile
  rw [hio, hio'] at hsame
  obtain ⟨rfl, hkey⟩ := Prod.mk.inj hsame
  obtain hij | hij | hij := Nat.lt_trichotomy i j
  · have hnext := Nat.mul_le_mul_left (config.tensorSize name) hij
    rw [hio, hio']
    exact Or.inr (Or.inl hnext)
  · have hoffset : io.offset = io'.offset := by
      rw [hio, hio', hij]
      rfl
    have hsize : io.size = io'.size := by
      rw [hio, hio']
      rfl
    exact Or.inl ⟨hoffset, hsize, hone p hp q hq hkey io h io' h' hfile hoffset⟩
  · have hnext := Nat.mul_le_mul_left (config.tensorSize name) hij
    rw [hio, hio']
    exact Or.inr (Or.inr hnext)

theorem oneContent_of_keys {memory : Memory} {blocks : List (UnifiedCache.BlockId × Nat)}
    (hkeys : ∀ p ∈ blocks, ∀ q ∈ blocks, p.1 = q.1 → p = q) : config.OneContent memory blocks := by
  intro p hp q hq hkey io hio io' hio' hfile hoffset k hk
  obtain rfl := hkeys p hp q hq hkey
  obtain ⟨name, i, he⟩ := eq_tensorIo_of_mem_blockIos hio
  obtain ⟨name', j, he'⟩ := eq_tensorIo_of_mem_blockIos hio'
  rw [he] at hk hfile hoffset ⊢
  rw [he'] at hfile hoffset ⊢
  obtain ⟨rfl, _⟩ := Prod.mk.inj hfile
  have hij : i = j := Nat.eq_of_mul_eq_mul_left (Nat.zero_lt_of_lt hk) hoffset
  rw [hij]

/-- A step of either connector writes the tensors of its dumped blocks, and reads those of its
loaded blocks, at places that do not depend on the connector; what one has written, in any order,
the other reads back, in any order, to the addresses that it came from. -/
theorem sameFiles {writer reader : Mode} {w w' : Worker UnifiedCache.BlockId ReqId} (hw : writer.Reach config w)
    (hr : reader.Reach config w') (dumped loaded : Dict ReqId (RequestDispatchMeta UnifiedCache.BlockId)) :
    (writer.dumpIos config w dumped).Perm ((dumpPairs config dumped).flatMap config.blockIos) ∧
    (reader.loadIos config w' loaded).Perm ((loadPairs config loaded).flatMap config.blockIos) ∧
    ∀ memory memory₀ : Memory, ∀ files : FileName → File, ∀ writes reads : List IoOf,
      writes.Perm (writer.dumpIos config w dumped) → reads.Perm (reader.loadIos config w' loaded) →
      config.OneContent memory (dumpPairs config dumped) → loadPairs config loaded ⊆ dumpPairs config dumped →
      ∃ memory', reads.foldlM (Io.read (writes.foldl (Io.write memory) files)) memory₀ = some memory' ∧
        ∀ p ∈ loadPairs config loaded, ∀ io ∈ config.blockIos p, ∀ k < io.size,
          memory' (io.addr + k) = memory (io.addr + k) := by
  have hdump := (ios_step hw dumped).2
  have hload := (ios_step hr loaded).1
  refine ⟨hdump, hload, ?_⟩
  intro memory memory₀ files writes reads hwrites hreads hone hsub
  have hwritten := hwrites.trans hdump
  have hread := hreads.trans hload
  have hstored : ∀ io ∈ reads, io.Stored memory (writes.foldl (Io.write memory) files) := by
    intro io hio
    obtain ⟨p, hp, hio⟩ := List.mem_flatMap.mp (hread.mem_iff.mp hio)
    apply PosixStore.Io.stored_foldl
    · intro a ha b hb
      exact agrees_of_mem_dump hone (hwritten.mem_iff.mp ha) (hwritten.mem_iff.mp hb)
    · exact hwritten.mem_iff.mpr (List.mem_flatMap.mpr ⟨p, hsub hp, hio⟩)
  obtain ⟨memory', hfold, hbytes⟩ := PosixStore.Io.stored_foldlM hstored memory₀
  refine ⟨memory', hfold, ?_⟩
  intro p hp io hio k hk
  apply hbytes
  have hmem : io ∈ reads := hread.mem_iff.mpr (List.mem_flatMap.mpr ⟨p, hp, hio⟩)
  exact Or.inr ⟨io, hmem, Nat.le_add_right _ _, Nat.add_lt_add_left hk _⟩

/-- Rank 1 of a model with two layers, whose blocks have 2 bytes. -/
def rankOne : WorkerConfig UnifiedCache.BlockId where
  kind := .keyValue
  tpRank := 1
  numLayers := 2
  requestHasher := fun b => Vector.replicate 16 (b[0]! + 1)
  blockStride := 2
  ropeBlockStride := 0
  kBasePtrs := fun i => 0x100 + 0x10 * UInt64.ofNat i
  vBasePtrs := fun i => 0x200 + 0x10 * UInt64.ofNat i

def oneBlock : RequestDispatchMeta UnifiedCache.BlockId → Dict Nat (RequestDispatchMeta UnifiedCache.BlockId) :=
  fun request => ⟨[(0, request)], by simp⟩

/-- Block 3 is dumped by the direct connector and loaded by the layer-wise one. -/
theorem sameFiles_rankOne :
    let dumped := oneBlock ⟨([], []), ([Vector.replicate 16 0], [3])⟩
    let loaded := oneBlock ⟨([Vector.replicate 16 0], [3]), ([], [])⟩
    let files := (Mode.direct.dumpIos rankOne Worker.initial dumped).foldl (Io.write fun p => UInt8.ofNat p)
      fun _ => ⟨0, fun _ => 0⟩
    ∃ memory', (Mode.layerWise.loadIos rankOne Worker.initial loaded).foldlM (Io.read files) (fun _ => 0) =
      some memory' ∧ ∀ p ∈ loadPairs rankOne loaded, ∀ io ∈ rankOne.blockIos p, ∀ k < io.size,
        memory' (io.addr + k) = UInt8.ofNat (io.addr + k) := by
  intro dumped loaded files
  have hdirect : Mode.direct.Reach rankOne (Worker.initial : Worker UnifiedCache.BlockId Nat) := StepSystem.Reach.start
  have hlayerWise : Mode.layerWise.Reach rankOne (Worker.initial : Worker UnifiedCache.BlockId Nat) :=
    StepSystem.Reach.start
  have hdumped : dumpPairs rankOne dumped = [(Vector.replicate 16 1, 3)] := by decide
  have hloaded : loadPairs rankOne loaded = [(Vector.replicate 16 1, 3)] := by decide
  apply (sameFiles hdirect hlayerWise dumped loaded).2.2 _ _ _ _ _ (List.Perm.refl _) (List.Perm.refl _)
  · apply oneContent_of_keys
    rw [hdumped]
    simp
  · rw [hdumped, hloaded]
    exact List.Subset.refl _

end Files

end UnifiedCache.Connector
