import UnifiedCache.Integration.Worker

/-! The worker follows the scheduler: after each output its batch holds the scheduled requests, with the blocks that
the manager has for them. -/

namespace UnifiedCache.Integration

variable {ReqId Group Queue Kv Rest : Type} [DecidableEq ReqId]

def BlockTable.row (table : BlockTable) (i : Nat) : List Nat :=
  (List.range (table.numBlocksPerRow i)).map (table.blockTable i)

structure Row (Group : Type) where
  numComputedTokens : Int
  blockIds : Blocks Group

namespace InputBatch

variable (spec : KvCacheSpec Group) (b : InputBatch ReqId Group Rest)

def rowAt (i : Nat) : Row Group := ⟨b.numComputedTokensCpu i, fun g => (b.blockTable g).row i⟩

/-- What the batch has for a request. -/
def row (r : ReqId) : Option (Row Group) := (b.reqIdToIndex.get? r).map b.rowAt

structure Valid : Prop where
  distinct : ∀ r r' i, b.reqIdToIndex.get? r = some i → b.reqIdToIndex.get? r' = some i → r = r'
  columns : ∀ g, (b.blockTable g).maxNumBlocksPerReq = spec.maxNumBlocksPerReq g

/-- The rows are those from the first on. -/
def Packed : Prop := ∀ r i, b.reqIdToIndex.get? r = some i → i < b.reqIdToIndex.items.length

end InputBatch

/-- What the persistent batch does, seen as the rows of the requests. -/
structure BatchLaws (ops : BatchOps ReqId Group Rest) (spec : KvCacheSpec Group) (maxNumReqs : Nat) : Prop where
  setDifference : ∀ xs ys r, r ∈ ops.setDifference xs ys ↔ r ∈ xs ∧ r ∉ ys
  append : ∀ table ids i, (table.row i ++ ids).length ≤ table.maxNumBlocksPerReq →
    (ops.appendRow table ids i).row i = table.row i ++ ids
  append_other : ∀ table ids i j, j ≠ i → (ops.appendRow table ids i).row j = table.row j
  append_columns : ∀ table ids i, (ops.appendRow table ids i).maxNumBlocksPerReq = table.maxNumBlocksPerReq
  remove : ∀ b r, b.Valid spec → (ops.removeRequest b r).Valid spec ∧
    ∀ r', (ops.removeRequest b r).row r' = if r' = r then none else b.row r'
  add : ∀ b state, b.Valid spec → b.row state.reqId = none → b.reqIdToIndex.items.length < maxNumReqs →
    (∀ g, (state.blockIds g).length ≤ spec.maxNumBlocksPerReq g) → (ops.addRequest b state).Valid spec ∧
    ∀ r', (ops.addRequest b state).row r' =
      if r' = state.reqId then some ⟨state.numComputedTokens, state.blockIds⟩ else b.row r'
  condense : ∀ b, b.Valid spec → (ops.condense b).Valid spec ∧ (ops.condense b).Packed ∧
    ∀ r, (ops.condense b).row r = b.row r
  reorder : ∀ o b, b.Valid spec → b.Packed → (ops.mayReorderBatch o b).Valid spec ∧ (ops.mayReorderBatch o b).Packed ∧
    ∀ r, (ops.mayReorderBatch o b).row r = b.row r
  refresh : ∀ b, b.Valid spec → b.Packed → (ops.refreshMetadata b).Valid spec ∧ (ops.refreshMetadata b).Packed ∧
    ∀ r, (ops.refreshMetadata b).row r = b.row r
  reqIds : ∀ b, b.Valid spec → b.Packed → ∀ i r, (ops.reqIds b)[i]? = some r ↔ b.reqIdToIndex.get? r = some i

variable {ops : BatchOps ReqId Group Rest} {spec : KvCacheSpec Group} {maxNumReqs : Nat}
  {b : InputBatch ReqId Group Rest} {r : ReqId}

namespace InputBatch

theorem mem_keys_iff : r ∈ b.reqIdToIndex.items.map Prod.fst ↔ (b.row r).isSome := by
  rw [row, Option.isSome_map]
  constructor
  · intro hr
    obtain ⟨p, hp, rfl⟩ := List.mem_map.mp hr
    rw [Dict.mem_items.mp hp]
    rfl
  · intro hr
    obtain ⟨i, hi⟩ := Option.isSome_iff_exists.mp hr
    exact List.mem_map_of_mem (Dict.mem_items.mpr hi)

theorem row_resetRow (table : BlockTable) (i : Nat) : (table.resetRow i).row i = [] := by
  simp only [BlockTable.row, BlockTable.resetRow, Function.update_self, List.range_zero, List.map_nil]

theorem row_resetRow_other (table : BlockTable) {i j : Nat} (h : j ≠ i) : (table.resetRow i).row j = table.row j := by
  simp only [BlockTable.row, BlockTable.resetRow, Function.update_of_ne h]

/-- The row of a request with its new blocks. -/
theorem Valid.updateRow (hlaws : BatchLaws ops spec maxNumReqs) (h : b.Valid spec) {i : Nat}
    (hi : b.reqIdToIndex.get? r = some i) (computed : Int) (new blocks : Blocks Group) (slots : Int)
    (hblocks : ∀ g, blocks g = Blocks.extend (fun g => (b.blockTable g).row i) new slots g)
    (hfits : ∀ g, (blocks g).length ≤ spec.maxNumBlocksPerReq g) :
    (b.updateRow ops i computed new (slots ≠ INVALID_SLOT)).Valid spec ∧
      ∀ r', (b.updateRow ops i computed new (slots ≠ INVALID_SLOT)).row r' =
        if r' = r then some ⟨computed, blocks⟩ else b.row r' := by
  set tables : Group → BlockTable := fun g =>
    if decide (slots ≠ INVALID_SLOT) = true then (b.blockTable g).resetRow i else b.blockTable g with htables
  have hcolumns : ∀ g, (tables g).maxNumBlocksPerReq = spec.maxNumBlocksPerReq g := by
    intro g
    rw [htables]
    dsimp only
    split_ifs <;> exact h.columns g
  have hown : ∀ g, (tables g).row i ++ new g = blocks g := by
    intro g
    rw [hblocks g, htables, Blocks.extend]
    by_cases hinvalid : slots = INVALID_SLOT
    · simp only [hinvalid, ne_eq, not_true_eq_false, decide_false, Bool.false_eq_true, if_false, if_true]
    · simp only [hinvalid, ne_eq, not_false_eq_true, decide_true, if_true, if_false, row_resetRow, List.nil_append]
  have hother : ∀ g j, j ≠ i → (tables g).row j = (b.blockTable g).row j := by
    intro g j hj
    rw [htables]
    dsimp only
    split_ifs
    · exact row_resetRow_other _ hj
    · rfl
  have happend : ∀ g, (ops.appendRow (tables g) (new g) i).row i = blocks g := fun g =>
    (hlaws.append (tables g) (new g) i (by rw [hown, hcolumns]; exact hfits g)).trans (hown g)
  refine ⟨⟨h.distinct, fun g => (hlaws.append_columns _ _ _).trans (hcolumns g)⟩, fun r' => ?_⟩
  by_cases heq : r' = r
  · rw [if_pos heq, heq]
    refine (congrArg (Option.map _) hi).trans (congrArg some ?_)
    refine congrArg₂ Row.mk (Function.update_self ..) ?_
    funext g
    exact happend g
  · rw [if_neg heq, row, row]
    show Option.map _ (b.reqIdToIndex.get? r') = _
    cases hj : b.reqIdToIndex.get? r' with
    | none => rfl
    | some j =>
      have hne : j ≠ i := fun hji => heq (h.distinct r' r j hj (hji ▸ hi))
      refine congrArg some (congrArg₂ Row.mk (Function.update_of_ne hne ..) ?_)
      funext g
      exact (hlaws.append_other _ _ _ _ hne).trans (hother g j hne)

theorem Valid.foldl_remove (hlaws : BatchLaws ops spec maxNumReqs) (h : b.Valid spec) (rs : List ReqId) :
    (rs.foldl ops.removeRequest b).Valid spec ∧
      ∀ r, (rs.foldl ops.removeRequest b).row r = if r ∈ rs then none else b.row r := by
  induction rs generalizing b with
  | nil => exact ⟨h, fun r => (if_neg List.not_mem_nil).symm⟩
  | cons r rs ih =>
    obtain ⟨hvalid, hrow⟩ := hlaws.remove b r h
    obtain ⟨hvalid', hrow'⟩ := ih hvalid
    refine ⟨hvalid', fun r' => (hrow' r').trans ?_⟩
    by_cases hmem : r' ∈ rs
    · rw [if_pos hmem, if_pos (List.mem_cons_of_mem r hmem)]
    · rw [if_neg hmem, hrow, if_congr (List.mem_cons.trans (or_iff_left hmem)) rfl rfl]

end InputBatch

/-- A fold that sets different keys. -/
theorem get?_foldl_set {α K V : Type} [DecidableEq K] (key : α → K) (val : α → V) {as : List α}
    (hnodup : (as.map key).Nodup) (d : Dict K V) :
      (∀ a ∈ as, (as.foldl (fun d a => d.set (key a) (val a)) d).get? (key a) = some (val a)) ∧
      ∀ k, k ∉ as.map key → (as.foldl (fun d a => d.set (key a) (val a)) d).get? k = d.get? k := by
  induction as generalizing d with
  | nil => exact ⟨fun a ha => absurd ha List.not_mem_nil, fun _ _ => rfl⟩
  | cons a as ih =>
    obtain ⟨hnew, hnodup⟩ := List.nodup_cons.mp hnodup
    obtain ⟨hset, hother⟩ := ih hnodup (d.set (key a) (val a))
    refine ⟨fun a' ha' => ?_, fun k hk => ?_⟩
    · rcases List.mem_cons.mp ha' with rfl | ha'
      · exact (hother _ hnew).trans (Dict.get?_set.trans (if_pos rfl))
      · exact hset a' ha'
    · rw [List.map_cons, List.mem_cons, not_or] at hk
      exact (hother k hk.2).trans (Dict.get?_set.trans (if_neg hk.1))

section Follow

variable (vllm : Vllm ReqId Group Queue Kv) (contents : Queue → Multiset ReqId) (spec : KvCacheSpec Group)

/-- Between two outputs the worker has the state of those who run, and of those who have run and wait, and there is
nobody else in its batch but those who have finished. -/
structure Agrees (s : Scheduler ReqId Queue Kv) (w : GPUModelRunner ReqId Group Rest) : Prop where
  valid : w.inputBatch.Valid spec
  ids : ∀ r state, w.requests.get? r = some state → state.reqId = r
  running : ∀ r ∈ s.running, ∃ state, w.requests.get? r = some state ∧ state.blockIds = vllm.getBlockIds s.kv r
  waiting : ∀ r ∈ contents s.waiting, (s.requests r).status = .preempted → ∃ state, w.requests.get? r = some state
  batch : ∀ r row, w.inputBatch.row r = some row →
    r ∈ s.finishedReqIds ∨ r ∈ s.running ∧ row.blockIds = vllm.getBlockIds s.kv r
  finished : ∀ r ∈ s.finishedReqIds, r ∉ s.running ∧ (r ∈ contents s.waiting → (s.requests r).status ≠ .preempted)

/-- The row of a request that is scheduled. -/
def scheduledRow (o : SchedulerOutput ReqId Group) (s : Scheduler ReqId Queue Kv) (r : ReqId) : Option (Row Group) :=
  (o.numScheduledTokens.get? r).map fun n => ⟨(s.requests r).numComputedTokens - n, vllm.getBlockIds s.kv r⟩

/-- The batch holds the scheduled requests, one after another, with what the scheduler has of them. -/
structure Represents (o : SchedulerOutput ReqId Group) (s : Scheduler ReqId Queue Kv)
    (b : InputBatch ReqId Group Rest) :
    Prop where
  valid : b.Valid spec
  packed : b.Packed
  rows : ∀ r, b.row r = scheduledRow vllm o s r

/-- The update of the worker on its way: the data `todo` of requests that ran before are still to come, and the
requests `toAdd` are still to be entered in the batch. -/
structure Updating (s : Scheduler ReqId Queue Kv) (o : SchedulerOutput ReqId Group) (s' : Scheduler ReqId Queue Kv)
    (w₀ : GPUModelRunner ReqId Group Rest) (todo : List (CachedRequestData ReqId Group)) (toAdd : List ReqId)
    (w : GPUModelRunner ReqId Group Rest) : Prop where
  valid : w.inputBatch.Valid spec
  ids : ∀ r state, w.requests.get? r = some state → state.reqId = r
  state : ∀ d ∈ todo, ∃ state, w.requests.get? d.reqId = some state ∧
    (d.resumedFromPreemption = false → state.blockIds = vllm.getBlockIds s.kv d.reqId)
  row : ∀ d ∈ todo, ∀ row, w.inputBatch.row d.reqId = some row →
    d.resumedFromPreemption = false ∧ row.blockIds = vllm.getBlockIds s.kv d.reqId
  done : ∀ r row, scheduledRow vllm o s' r = some row → r ∉ todo.map CachedRequestData.reqId →
    w.requests.get? r = some ⟨r, row.blockIds, row.numComputedTokens⟩ ∧
      w.inputBatch.row r = if r ∈ toAdd then none else some row
  unscheduled : ∀ r, scheduledRow vllm o s' r = none → w.inputBatch.row r = none ∧
    w.requests.get? r = if r ∈ o.finishedReqIds then none else w₀.requests.get? r
  nodup : toAdd.Nodup
  added : ∀ r ∈ toAdd, (scheduledRow vllm o s' r).isSome ∧ r ∉ todo.map CachedRequestData.reqId

variable {vllm contents spec} {config : SchedulerConfig} {s s' : Scheduler ReqId Queue Kv}
    {o : SchedulerOutput ReqId Group}
  {w w₀ : GPUModelRunner ReqId Group Rest} {known : ReqId → Prop} {d : CachedRequestData ReqId Group}
  {todo : List (CachedRequestData ReqId Group)} {toAdd : List ReqId}

theorem scheduledRow_isSome : (scheduledRow vllm o s r).isSome ↔ r ∈ o.numScheduledTokens.items.map Prod.fst := by
  rw [scheduledRow, Option.isSome_map]
  constructor
  · intro hr
    obtain ⟨n, hn⟩ := Option.isSome_iff_exists.mp hr
    exact List.mem_map_of_mem (Dict.mem_items.mpr hn)
  · intro hr
    obtain ⟨p, hp, rfl⟩ := List.mem_map.mp hr
    rw [Dict.mem_items.mp hp]
    rfl

/-- The row of a request that ran before, from its data. -/
theorem exists_row (hs : s.Schedules config contents o s') (hh : s.Hands vllm contents spec known o s')
    (hd : d ∈ o.scheduledCachedReqs) : ∃ n slots, o.numScheduledTokens.get? d.reqId = some n ∧
      o.reqSparsedSlots.get? d.reqId = some slots ∧
      scheduledRow vllm o s' d.reqId = some ⟨d.numComputedTokens, vllm.getBlockIds s'.kv d.reqId⟩ ∧
      (d.resumedFromPreemption = true → d.newBlockIds = vllm.getBlockIds s'.kv d.reqId) ∧
      (d.resumedFromPreemption = false →
        vllm.getBlockIds s'.kv d.reqId = (vllm.getBlockIds s.kv d.reqId).extend d.newBlockIds slots) := by
  have hkey : d.reqId ∈ o.numScheduledTokens.items.map Prod.fst :=
    hs.handed.mem_iff.mpr (List.mem_append_right _ (List.mem_map_of_mem hd))
  obtain ⟨p, hp, hkey⟩ := List.mem_map.mp hkey
  have hn : o.numScheduledTokens.get? d.reqId = some p.2 := hkey ▸ Dict.mem_items.mp hp
  obtain ⟨slots, hslots, -⟩ := hh.covers d.reqId p.2 hn
  refine ⟨p.2, slots, hn, hslots, ?_, fun hresumed => (hh.resumed d hd hresumed).2.2, fun hran => ?_⟩
  · rw [scheduledRow, hn, ← hh.computed_cached d hd p.2 hn, Option.map_some, Int.add_sub_cancel]
  · obtain ⟨-, slots', hslots', hblocks⟩ := hh.ran d hd hran
    rw [hslots, Option.some_inj] at hslots'
    exact hslots' ▸ hblocks

/-- The data of a request that ran before come in. -/
theorem Updating.cached (hlaws : BatchLaws ops spec maxNumReqs)
    (hfits : ∀ r g, (vllm.getBlockIds s'.kv r g).length ≤ spec.maxNumBlocksPerReq g)
    (hs : s.Schedules config contents o s') (hh : s.Hands vllm contents spec known o s')
    (hd : d ∈ o.scheduledCachedReqs) (hnew : d.reqId ∉ todo.map CachedRequestData.reqId)
    (h : Updating vllm spec s o s' w₀ (d :: todo) toAdd w) :
    ∃ current, GPUModelRunner.updateCached ops o (w, toAdd) d = some current ∧
      Updating vllm spec s o s' w₀ todo current.2 current.1 := by
  obtain ⟨n, slots, hn, hslots, hrow, hresumed, hran⟩ := exists_row hs hh hd
  obtain ⟨state, hstate, hold⟩ := h.state d List.mem_cons_self
  have hblocks : (if d.resumedFromPreemption || (slots ≠ INVALID_SLOT : Bool) then d.newBlockIds
      else fun g => state.blockIds g ++ d.newBlockIds g) = vllm.getBlockIds s'.kv d.reqId := by
    cases hpre : d.resumedFromPreemption with
    | true => exact hresumed hpre
    | false =>
      rw [hran hpre, ← hold hpre, Blocks.extend]
      by_cases hinvalid : slots = INVALID_SLOT
      · simp only [hinvalid, ne_eq, not_true_eq_false, decide_false, Bool.or_self, Bool.false_eq_true, if_false,
        if_true]
      · simp only [hinvalid, ne_eq, not_false_eq_true, decide_true, Bool.or_true, if_true, if_false]
  set w₁ : GPUModelRunner ReqId Group Rest := { w with
    requests := w.requests.set d.reqId
      { state with numComputedTokens := d.numComputedTokens, blockIds := vllm.getBlockIds s'.kv d.reqId } } with hw₁
  have hupdate : GPUModelRunner.updateCached ops o (w, toAdd) d =
      some (w₁.updateBatch ops d (slots ≠ INVALID_SLOT) toAdd) := by
    rw [GPUModelRunner.updateCached, hstate, hslots, hw₁, ← hblocks]
    rfl
  have hget : ∀ r, w₁.requests.get? r = if r = d.reqId
      then some ⟨d.reqId, vllm.getBlockIds s'.kv d.reqId, d.numComputedTokens⟩ else w.requests.get? r := by
    intro r
    refine Dict.get?_set.trans ?_
    rw [← h.ids d.reqId state hstate]
  have hother : ∀ d' ∈ todo, d'.reqId ≠ d.reqId := fun d' hd' heq => hnew (heq ▸ List.mem_map_of_mem hd')
  have hids : ∀ r state, w₁.requests.get? r = some state → state.reqId = r := by
    intro r state' hstate'
    rw [hget] at hstate'
    split_ifs at hstate' with heq
    · rw [← Option.some.inj hstate', heq]
    · exact h.ids r state' hstate'
  have hstates : ∀ d' ∈ todo, ∃ state, w₁.requests.get? d'.reqId = some state ∧
      (d'.resumedFromPreemption = false → state.blockIds = vllm.getBlockIds s.kv d'.reqId) := by
    intro d' hd'
    rw [hget, if_neg (hother d' hd')]
    exact h.state d' (List.mem_cons_of_mem d hd')
  have hunscheduled : ∀ r, scheduledRow vllm o s' r = none → r ≠ d.reqId := by
    intro r hr heq
    rw [heq, hrow] at hr
    cases hr
  have hdone : ∀ r row, scheduledRow vllm o s' r = some row → r ∉ todo.map CachedRequestData.reqId →
      w₁.requests.get? r = some ⟨r, row.blockIds, row.numComputedTokens⟩ ∧
        (r ≠ d.reqId → w.inputBatch.row r = if r ∈ toAdd then none else some row) := by
    intro r row hr htodo
    rw [hget]
    by_cases heq : r = d.reqId
    · rw [if_pos heq, heq]
      rw [heq, hrow, Option.some_inj] at hr
      exact ⟨by rw [← hr], fun hne => absurd rfl hne⟩
    · rw [if_neg heq]
      obtain ⟨hdone, hbatch⟩ := h.done r row hr (List.not_mem_cons_of_ne_of_not_mem heq htodo)
      exact ⟨hdone, fun _ => hbatch⟩
  have htoAdd : d.reqId ∉ toAdd := fun hmem => (h.added d.reqId hmem).2 List.mem_cons_self
  refine ⟨_, hupdate, ?_⟩
  cases hindex : w.inputBatch.reqIdToIndex.get? d.reqId with
  | none =>
    have hnone : w.inputBatch.row d.reqId = none := congrArg (Option.map _) hindex
    have hbatch : w₁.updateBatch ops d (slots ≠ INVALID_SLOT) toAdd = (w₁, toAdd ++ [d.reqId]) := by
      simp only [GPUModelRunner.updateBatch, hw₁, hindex]
    rw [hbatch]
    refine ⟨h.valid, hids, hstates, fun d' hd' => h.row d' (List.mem_cons_of_mem d hd'), fun r row hr htodo => ?_,
      fun r hr => ?_, ?_, fun r hr => ?_⟩
    · obtain ⟨hdone, hrows⟩ := hdone r row hr htodo
      refine ⟨hdone, ?_⟩
      by_cases heq : r = d.reqId
      · rw [if_pos (by simp [heq]), heq]
        exact hnone
      · refine (hrows heq).trans (if_congr ?_ rfl rfl)
        rw [List.mem_append, List.mem_singleton, or_iff_left heq]
    · rw [hget, if_neg (hunscheduled r hr)]
      exact h.unscheduled r hr
    · rw [← List.concat_eq_append]
      exact List.Nodup.concat htoAdd h.nodup
    · rcases List.mem_append.mp hr with hr | hr
      · obtain ⟨hsome, htodo⟩ := h.added r hr
        exact ⟨hsome, fun hmem => htodo (List.mem_cons_of_mem _ hmem)⟩
      · rw [List.mem_singleton.mp hr]
        exact ⟨by rw [hrow]; rfl, hnew⟩
  | some i =>
    have hsome : w.inputBatch.row d.reqId = some (w.inputBatch.rowAt i) := congrArg (Option.map _) hindex
    obtain ⟨hpre, hold'⟩ := h.row d List.mem_cons_self _ hsome
    have hbatch : w₁.updateBatch ops d (slots ≠ INVALID_SLOT) toAdd = ({ w₁ with
        inputBatch := w.inputBatch.updateRow ops i d.numComputedTokens d.newBlockIds
          (slots ≠ INVALID_SLOT) }, toAdd) := by
      simp only [GPUModelRunner.updateBatch, hw₁, hindex]
    rw [hbatch]
    obtain ⟨hvalid, hrows'⟩ := h.valid.updateRow hlaws hindex d.numComputedTokens d.newBlockIds
      (vllm.getBlockIds s'.kv d.reqId) slots (fun g => by rw [hran hpre, ← hold']; rfl) (hfits d.reqId)
    refine ⟨hvalid, hids, hstates, fun d' hd' row hrow' => ?_, fun r row hr htodo => ?_, fun r hr => ?_, h.nodup,
      fun r hr => ?_⟩
    · rw [hrows', if_neg (hother d' hd')] at hrow'
      exact h.row d' (List.mem_cons_of_mem d hd') row hrow'
    · obtain ⟨hdone, hrows⟩ := hdone r row hr htodo
      refine ⟨hdone, (hrows' r).trans ?_⟩
      by_cases heq : r = d.reqId
      · rw [heq, hrow, Option.some_inj] at hr
        rw [if_pos heq, heq, if_neg htoAdd, ← hr]
      · rw [if_neg heq]
        exact hrows heq
    · rw [hrows', hget, if_neg (hunscheduled r hr), if_neg (hunscheduled r hr)]
      exact h.unscheduled r hr
    · obtain ⟨hsome, htodo⟩ := h.added r hr
      exact ⟨hsome, fun hmem => htodo (List.mem_cons_of_mem _ hmem)⟩

/-- Who has finished or is not scheduled is removed, and who is new is known. -/
theorem Agrees.updating (hlaws : BatchLaws ops spec maxNumReqs) (hs : s.Schedules config contents o s')
    (hh : s.Hands vllm contents spec known o s')
    (hknown : ∀ r, known r → r ∉ s.finishedReqIds ∧ ∃ state, w.requests.get? r = some state)
    (h : Agrees vllm contents spec s w) :
    Updating vllm spec s o s' w o.scheduledCachedReqs (o.scheduledNewReqs.map NewRequestData.reqId)
      (((w.removeFinished ops o).removeUnscheduled ops o).addNew o) := by
  obtain ⟨hvalid₁, hrow₁⟩ := h.valid.foldl_remove hlaws o.finishedReqIds
  obtain ⟨hvalid₂, hrow₂⟩ := hvalid₁.foldl_remove hlaws (ops.setDifference
    ((o.finishedReqIds.foldl ops.removeRequest w.inputBatch).reqIdToIndex.items.map Prod.fst)
    (o.numScheduledTokens.items.map Prod.fst))
  have hids := hs.handed.nodup_iff.mp o.numScheduledTokens.nodup
  have hdisjoint := List.disjoint_of_nodup_append hids
  obtain ⟨hset, hother⟩ := get?_foldl_set NewRequestData.reqId
    (fun d => (⟨d.reqId, d.blockIds, d.numComputedTokens⟩ : CachedRequestState ReqId Group))
    (List.Nodup.of_append_left hids) (o.finishedReqIds.foldl Dict.pop w.requests)
  have hrows : ∀ r, (((w.removeFinished ops o).removeUnscheduled ops o).addNew o).inputBatch.row r =
      if r ∈ o.numScheduledTokens.items.map Prod.fst ∧ r ∉ o.finishedReqIds then w.inputBatch.row r else none := by
    intro r
    refine (hrow₂ r).trans ?_
    rw [if_congr ((hlaws.setDifference _ _ r).trans (and_congr_left' InputBatch.mem_keys_iff)) rfl rfl, hrow₁]
    by_cases hkey : r ∈ o.numScheduledTokens.items.map Prod.fst <;> by_cases hfin : r ∈ o.finishedReqIds <;>
      simp [hkey, hfin]
  have hold : ∀ r, r ∉ o.scheduledNewReqs.map NewRequestData.reqId →
      (((w.removeFinished ops o).removeUnscheduled ops o).addNew o).requests.get? r =
        if r ∈ o.finishedReqIds then none else w.requests.get? r := fun r hr =>
    (hother r hr).trans (Dict.get?_foldl_pop o.finishedReqIds)
  have hfinished : o.finishedReqIds = s.finishedReqIds := hh.finished.1
  have hkey : ∀ r, r ∈ o.numScheduledTokens.items.map Prod.fst ↔ r ∈ o.scheduledNewReqs.map NewRequestData.reqId ∨
      r ∈ o.scheduledCachedReqs.map CachedRequestData.reqId := fun r => hs.handed.mem_iff.trans List.mem_append
  refine ⟨hvalid₂, fun r state hstate => ?_, fun d hd => ?_, fun d hd row hrow => ?_, fun r row hrow htodo => ?_,
    fun r hr => ?_, List.Nodup.of_append_left hids, fun r hr => ⟨?_, fun hcached => hdisjoint hr hcached⟩⟩
  · by_cases hnew : r ∈ o.scheduledNewReqs.map NewRequestData.reqId
    · obtain ⟨d, hd, rfl⟩ := List.mem_map.mp hnew
      rw [← Option.some.inj ((hset d hd).symm.trans hstate)]
    · rw [hold r hnew] at hstate
      split_ifs at hstate
      exact h.ids r state hstate
  · have hcached : d.reqId ∈ o.scheduledCachedReqs.map CachedRequestData.reqId := List.mem_map_of_mem hd
    rw [hold d.reqId fun hnew => hdisjoint hnew hcached, hfinished]
    cases hpre : d.resumedFromPreemption with
    | true =>
      obtain ⟨hfin, state, hstate⟩ := hknown d.reqId (hh.resumed d hd hpre).2.1
      exact ⟨state, (if_neg hfin).trans hstate, fun hran => absurd hran (by simp)⟩
    | false =>
      have hran := (hh.ran d hd hpre).1
      obtain ⟨state, hstate, hblocks⟩ := h.running d.reqId hran
      exact ⟨state, (if_neg fun hfin => (h.finished d.reqId hfin).1 hran).trans hstate, fun _ => hblocks⟩
  · rw [hrows] at hrow
    split_ifs at hrow with hcond
    obtain ⟨hran, hblocks⟩ := (h.batch d.reqId row hrow).resolve_left (hfinished ▸ hcond.2)
    refine ⟨?_, hblocks⟩
    cases hpre : d.resumedFromPreemption with
    | true => exact absurd hran (hh.resumed d hd hpre).1
    | false => rfl
  · have hmem : r ∈ o.numScheduledTokens.items.map Prod.fst := scheduledRow_isSome.mp (by rw [hrow]; rfl)
    have hnew := ((hkey r).mp hmem).resolve_right htodo
    rw [if_pos hnew]
    obtain ⟨d, hd, rfl⟩ := List.mem_map.mp hnew
    obtain ⟨hfresh, hblocks⟩ := hh.new d hd
    refine ⟨(hset d hd).trans (congrArg some ?_), ?_⟩
    · obtain ⟨n, hn, hrow⟩ := Option.map_eq_some_iff.mp hrow
      rw [← hrow, hblocks, ← hh.computed_new d hd n hn, Int.add_sub_cancel]
    · rw [hrows]
      split_ifs with hcond
      · cases hold' : w.inputBatch.row d.reqId with
        | none => rfl
        | some row' => exact absurd ((h.batch d.reqId row' hold').resolve_left (hfinished ▸ hcond.2)).1 hfresh
      · rfl
  · have hmem : r ∉ o.numScheduledTokens.items.map Prod.fst := fun hmem => by
      have hsome : (scheduledRow vllm o s' r).isSome := scheduledRow_isSome.mpr hmem
      rw [hr] at hsome
      cases hsome
    exact ⟨(hrows r).trans (if_neg fun hcond => hmem hcond.1), hold r fun hnew => hmem ((hkey r).mpr (.inl hnew))⟩
  · exact scheduledRow_isSome.mpr ((hkey r).mpr (.inl hr))

/-- A request is entered in the batch, where there is room for it. -/
theorem Updating.add (hlaws : BatchLaws ops spec maxNumReqs)
    (hfits : ∀ r g, (vllm.getBlockIds s'.kv r g).length ≤ spec.maxNumBlocksPerReq g)
    (hroom : o.numScheduledTokens.items.length ≤ maxNumReqs) (h : Updating vllm spec s o s' w₀ [] (r :: toAdd) w) :
    ∃ w', GPUModelRunner.addToBatch ops w r = some w' ∧ Updating vllm spec s o s' w₀ [] toAdd w' := by
  obtain ⟨hnew, hnodup⟩ := List.nodup_cons.mp h.nodup
  obtain ⟨row, hrow⟩ := Option.isSome_iff_exists.mp (h.added r List.mem_cons_self).1
  obtain ⟨hstate, hnone⟩ := h.done r row hrow List.not_mem_nil
  rw [if_pos List.mem_cons_self] at hnone
  have hkeys : ∀ r', r' ∈ w.inputBatch.reqIdToIndex.items.map Prod.fst →
      r' ∈ (o.numScheduledTokens.items.map Prod.fst).erase r := by
    intro r' hr'
    rw [InputBatch.mem_keys_iff] at hr'
    rw [List.Nodup.mem_erase_iff o.numScheduledTokens.nodup]
    have hscheduled : (scheduledRow vllm o s' r').isSome := by
      by_contra hcontra
      rw [(h.unscheduled r' (Option.not_isSome_iff_eq_none.mp hcontra)).1] at hr'
      cases hr'
    refine ⟨fun heq => ?_, scheduledRow_isSome.mp hscheduled⟩
    rw [heq, hnone] at hr'
    cases hr'
  have hmem : r ∈ o.numScheduledTokens.items.map Prod.fst := scheduledRow_isSome.mp (by rw [hrow]; rfl)
  have hlength := (w.inputBatch.reqIdToIndex.nodup.subperm hkeys).length_le
  have hpos := List.length_pos_of_mem hmem
  rw [List.length_erase_of_mem hmem, List.length_map, List.length_map] at hlength
  rw [List.length_map] at hpos
  have hblocks : row.blockIds = vllm.getBlockIds s'.kv r := by
    obtain ⟨n, -, hrow⟩ := Option.map_eq_some_iff.mp hrow
    rw [← hrow]
  obtain ⟨hvalid, hrows⟩ := hlaws.add w.inputBatch ⟨r, row.blockIds, row.numComputedTokens⟩ h.valid hnone (by omega)
    (fun g => by
      rw [hblocks]
      exact hfits r g)
  have hadd : GPUModelRunner.addToBatch ops w r = some
      { w with inputBatch := ops.addRequest w.inputBatch ⟨r, row.blockIds, row.numComputedTokens⟩ } := by
    rw [GPUModelRunner.addToBatch, hstate]
    rfl
  refine ⟨_, hadd, hvalid, h.ids, fun d hd => absurd hd List.not_mem_nil,
    fun d hd => absurd hd List.not_mem_nil, fun r' row' hrow' htodo => ?_, fun r' hr' => ?_, hnodup, fun r' hr' => ?_⟩
  · obtain ⟨hdone, hbatch⟩ := h.done r' row' hrow' htodo
    refine ⟨hdone, (hrows r').trans ?_⟩
    by_cases heq : r' = r
    · rw [heq, hrow, Option.some_inj] at hrow'
      rw [if_pos heq, heq, if_neg hnew, ← hrow']
    · rw [if_neg heq, hbatch, if_congr (List.mem_cons.trans (or_iff_right heq)) rfl rfl]
  · have hne : r' ≠ r := fun heq => by
      rw [heq, hrow] at hr'
      cases hr'
    obtain ⟨hnone', hget⟩ := h.unscheduled r' hr'
    exact ⟨(hrows r').trans ((if_neg hne).trans hnone'), hget⟩
  · exact h.added r' (List.mem_cons_of_mem r hr')

theorem Updating.cachedAll (hlaws : BatchLaws ops spec maxNumReqs)
    (hfits : ∀ r g, (vllm.getBlockIds s'.kv r g).length ≤ spec.maxNumBlocksPerReq g)
    (hs : s.Schedules config contents o s') (hh : s.Hands vllm contents spec known o s')
    (hsub : ∀ d ∈ todo, d ∈ o.scheduledCachedReqs) (hnodup : (todo.map CachedRequestData.reqId).Nodup)
    (h : Updating vllm spec s o s' w₀ todo toAdd w) :
    ∃ current, todo.foldlM (GPUModelRunner.updateCached ops o) (w, toAdd) = some current ∧
      Updating vllm spec s o s' w₀ [] current.2 current.1 := by
  induction todo generalizing w toAdd with
  | nil => exact ⟨_, rfl, h⟩
  | cons d todo ih =>
    obtain ⟨hnew, hnodup⟩ := List.nodup_cons.mp hnodup
    obtain ⟨current, hresult, h'⟩ := h.cached hlaws hfits hs hh (hsub d List.mem_cons_self) hnew
    obtain ⟨current', hresult', h''⟩ := ih (fun d' hd' => hsub d' (List.mem_cons_of_mem d hd')) hnodup h'
    refine ⟨current', ?_, h''⟩
    rw [List.foldlM_cons, hresult]
    exact hresult'

theorem Updating.addAll (hlaws : BatchLaws ops spec maxNumReqs)
    (hfits : ∀ r g, (vllm.getBlockIds s'.kv r g).length ≤ spec.maxNumBlocksPerReq g)
    (hroom : o.numScheduledTokens.items.length ≤ maxNumReqs) (h : Updating vllm spec s o s' w₀ [] toAdd w) :
    ∃ w', toAdd.foldlM (GPUModelRunner.addToBatch ops) w = some w' ∧ Updating vllm spec s o s' w₀ [] [] w' := by
  induction toAdd generalizing w with
  | nil => exact ⟨_, rfl, h⟩
  | cons r toAdd ih =>
    obtain ⟨w', hresult, h'⟩ := h.add hlaws hfits hroom
    obtain ⟨w'', hresult', h''⟩ := ih h'
    refine ⟨w'', ?_, h''⟩
    rw [List.foldlM_cons, hresult]
    exact hresult'

/-- An output brings the worker to where the scheduler is. -/
theorem Agrees.updateStates (hlaws : BatchLaws ops spec config.maxNumRunningReqs)
    (hfits : ∀ r g, (vllm.getBlockIds s'.kv r g).length ≤ spec.maxNumBlocksPerReq g)
    (hs : s.Schedules config contents o s') (hh : s.Hands vllm contents spec known o s')
    (hknown : ∀ r, known r → r ∉ s.finishedReqIds ∧ ∃ state, w.requests.get? r = some state)
    (h : Agrees vllm contents spec s w) :
    ∃ w', w.updateStates ops o = some w' ∧ Agrees vllm contents spec s' w' ∧
      Represents vllm spec o s' w'.inputBatch := by
  have hroom : o.numScheduledTokens.items.length ≤ config.maxNumRunningReqs := by
    have hsub : ∀ r ∈ o.numScheduledTokens.items.map Prod.fst, r ∈ s'.running := fun r hr => by
      obtain ⟨p, hp, rfl⟩ := List.mem_map.mp hr
      exact hs.running p hp
    have hlength := (o.numScheduledTokens.nodup.subperm hsub).length_le
    rw [List.length_map] at hlength
    exact hlength.trans hs.inv.room
  have hcachedIds : (o.scheduledCachedReqs.map CachedRequestData.reqId).Nodup :=
    List.Nodup.of_append_right (hs.handed.nodup_iff.mp o.numScheduledTokens.nodup)
  obtain ⟨current, hcached, h₁⟩ := (h.updating hlaws hs hh hknown).cachedAll hlaws hfits hs hh
    (fun _ hd => hd) hcachedIds
  obtain ⟨w₂, hadd, h₂⟩ := h₁.addAll hlaws hfits hroom
  obtain ⟨hvalid₃, hpacked₃, hrows₃⟩ := hlaws.condense w₂.inputBatch h₂.valid
  obtain ⟨hvalid₄, hpacked₄, hrows₄⟩ := hlaws.reorder o _ hvalid₃ hpacked₃
  obtain ⟨hvalid₅, hpacked₅, hrows₅⟩ := hlaws.refresh _ hvalid₄ hpacked₄
  set w' : GPUModelRunner ReqId Group Rest :=
    { w₂ with inputBatch := ops.refreshMetadata (ops.mayReorderBatch o (ops.condense w₂.inputBatch)) } with hw'
  have hresult : w.updateStates ops o = some w' := by
    rw [GPUModelRunner.updateStates, hcached, Option.bind_some, hadd]
    rfl
  have hrows : ∀ r, w'.inputBatch.row r = scheduledRow vllm o s' r := by
    intro r
    refine ((hrows₅ r).trans ((hrows₄ r).trans (hrows₃ r))).trans ?_
    cases hrow : scheduledRow vllm o s' r with
    | none => exact (h₂.unscheduled r hrow).1
    | some row => exact (h₂.done r row hrow List.not_mem_nil).2.trans (if_neg List.not_mem_nil)
  have hstate : ∀ r row, scheduledRow vllm o s' r = some row →
      ∃ state, w'.requests.get? r = some state ∧ state.blockIds = vllm.getBlockIds s'.kv r := by
    intro r row hrow
    refine ⟨_, (h₂.done r row hrow List.not_mem_nil).1, ?_⟩
    obtain ⟨n, -, hrow⟩ := Option.map_eq_some_iff.mp hrow
    rw [← hrow]
  have hfin := hh.finished.1
  refine ⟨w', hresult, ⟨hvalid₅, h₂.ids, fun r hr => ?_, fun r hr hstatus => ?_, fun r row hrow => ?_, fun r hr => ?_⟩,
    ⟨hvalid₅, hpacked₅, hrows⟩⟩
  · cases hrow : scheduledRow vllm o s' r with
    | some row => exact hstate r row hrow
    | none =>
      have hmem : r ∉ o.numScheduledTokens.items.map Prod.fst := fun hmem => by
        have hsome : (scheduledRow vllm o s' r).isSome := scheduledRow_isSome.mpr hmem
        rw [hrow] at hsome
        cases hsome
      obtain ⟨hran, hblocks⟩ := hh.unscheduled r hr hmem
      obtain ⟨state, hget, hold⟩ := h.running r hran
      refine ⟨state, (h₂.unscheduled r hrow).2.trans ?_, hold.trans hblocks.symm⟩
      exact (if_neg fun hmem => (h.finished r (hfin ▸ hmem)).1 hran).trans hget
  · cases hrow : scheduledRow vllm o s' r with
    | some row =>
      obtain ⟨state, hget, -⟩ := hstate r row hrow
      exact ⟨state, hget⟩
    | none =>
      obtain ⟨hnew, state, hget⟩ := hknown r (hh.waiting r hr hstatus)
      exact ⟨state, (h₂.unscheduled r hrow).2.trans ((if_neg fun hmem => hnew (hfin ▸ hmem)).trans hget)⟩
  · rw [hrows] at hrow
    obtain ⟨n, hn, hrow⟩ := Option.map_eq_some_iff.mp hrow
    exact .inr ⟨hs.running _ (Dict.mem_items.mpr hn), by rw [← hrow]⟩
  · rw [hh.finished.2] at hr
    cases hr

end Follow

end UnifiedCache.Integration
