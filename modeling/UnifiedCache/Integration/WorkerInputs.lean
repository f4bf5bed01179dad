import UnifiedCache.Integration.WorkerUpdate
import UnifiedCache.Lib.Ragged

/-! The inputs of the model: each scheduled token has its position, and its slot in the blocks that the manager has
for its request. -/

namespace UnifiedCache.Integration

variable {ReqId Group Queue Kv Rest : Type} [DecidableEq ReqId]

namespace InputBatch

variable {spec : KvCacheSpec Group} {b : InputBatch ReqId Group Rest} {o : SchedulerOutput ReqId Group} {ns : List Nat}
  {i k n : Nat}

theorem reqIndices_eq (ns : List Nat) : reqIndices ns = Ragged.rows ns := rfl

theorem arange_eq (ns : List Nat) : (getCumsumAndArange ns).2 = Ragged.columns ns := rfl

theorem getElem?_queryStartLoc (hi : i ≤ ns.length) :
    (0 :: (getCumsumAndArange ns).1)[i]? = some (Ragged.offset ns i) := by
  cases i with
  | zero => rfl
  | succ i =>
    rw [List.getElem?_cons_succ, getCumsumAndArange, List.getElem?_map, List.getElem?_range hi]
    rfl

omit [DecidableEq ReqId] in
theorem length_positions (b : InputBatch ReqId Group Rest) (ns : List Nat) : (b.positions ns).length = ns.sum := by
  rw [positions, List.length_zipWith, reqIndices_eq, arange_eq, Ragged.length_rows, Ragged.length_columns, Nat.min_self]

omit [DecidableEq ReqId] in
theorem getElem?_positions (hi : ns[i]? = some n) (hk : k < n) :
    (b.positions ns)[Ragged.offset ns i + k]? = some (b.numComputedTokensCpu i + k) := by
  rw [positions, List.getElem?_zipWith, reqIndices_eq, arange_eq, Ragged.getElem?_rows hi hk,
    Ragged.getElem?_columns hi hk]

/-- The requests of the batch, row by row, have counts `ns` of tokens and estimates `slots`. -/
structure Counted (b : InputBatch ReqId Group Rest) (o : SchedulerOutput ReqId Group) (ns : List Nat)
    (slots : ReqId → Int) : Prop where
  distinct : ∀ r r' i, b.reqIdToIndex.get? r = some i → b.reqIdToIndex.get? r' = some i → r = r'
  count : ∀ r i, b.reqIdToIndex.get? r = some i → ∃ n, ns[i]? = some n ∧ 0 < n
  slots : ∀ r i, b.reqIdToIndex.get? r = some i → o.reqSparsedSlots.get? r = some (slots r)

variable {slots : ReqId → Int}

theorem Counted.nodup (h : Counted b o ns slots) (place : Nat → Nat)
    (hplace : ∀ i j m n, ns[i]? = some m → ns[j]? = some n → 0 < m → 0 < n → place i = place j → i = j) :
    (b.reqIdToIndex.items.map fun p => place p.2).Nodup := by
  refine List.Nodup.map_on (fun p hp q hq heq => ?_) (List.Nodup.of_map _ b.reqIdToIndex.nodup)
  have hp := Dict.mem_items.mp hp
  have hq := Dict.mem_items.mp hq
  obtain ⟨m, hm, hmpos⟩ := h.count p.1 p.2 hp
  obtain ⟨n, hn, hnpos⟩ := h.count q.1 q.2 hq
  have hindex := hplace p.2 q.2 m n hm hn hmpos hnpos heq
  exact Prod.ext (h.distinct p.1 q.1 p.2 hp (hindex ▸ hq)) hindex

/-- The first position of each sparse request is set, and no other. -/
theorem Counted.sparsedPositions (h : Counted b o ns slots) :
    ∃ ps, b.sparsedPositions o ns = some ps ∧ ∀ r i n, b.reqIdToIndex.get? r = some i → ns[i]? = some n → ∀ k < n,
      ps[Ragged.offset ns i + k]? =
        some (if slots r ≠ INVALID_SLOT ∧ k = 0 then slots r - 1 else b.numComputedTokensCpu i + k) := by
  set val : ReqId × Nat → Option Int := fun p => if slots p.1 = INVALID_SLOT then none else some
    (slots p.1 - 1) with hval
  have hoffset : ∀ r i, b.reqIdToIndex.get? r = some i →
      (if i = 0 then some 0 else (getCumsumAndArange ns).1[i - 1]?) = some (Ragged.offset ns i) := by
    intro r i hi
    obtain ⟨n, hn, -⟩ := h.count r i hi
    obtain ⟨hlt, -⟩ := List.getElem?_eq_some_iff.mp hn
    rw [← getElem?_queryStartLoc hlt.le]
    cases i with
    | zero => rfl
    | succ i => rfl
  have hinside : ∀ r i, b.reqIdToIndex.get? r = some i → Ragged.offset ns i < ns.sum := by
    intro r i hi
    obtain ⟨n, hn, hpos⟩ := h.count r i hi
    obtain ⟨hlt, -⟩ := List.getElem?_eq_some_iff.mp hn
    have hnext := Ragged.offset_succ hn
    have hmono := Ragged.offset_mono ns (show i + 1 ≤ ns.length from hlt)
    rw [Ragged.offset_length] at hmono
    omega
  have hfold := Ragged.foldlM_eq_foldl b.reqIdToIndex.items (m := ns.sum)
    (f := fun positions p => (o.reqSparsedSlots.get? p.1).bind fun slots =>
      (if p.2 = 0 then some 0 else (getCumsumAndArange ns).1[p.2 - 1]?).bind fun offset =>
        if slots = INVALID_SLOT then some positions
        else if offset < positions.length then some (positions.set offset (slots - 1))
        else none)
    (g := fun xs p => (val p).elim xs (xs.set (Ragged.offset ns p.2))) (fun xs hxs p hp => ?_) (fun xs p => ?_)
    (length_positions b ns)
  · obtain ⟨hlength, hset, hother⟩ := Ragged.getElem?_foldl_set (fun p => Ragged.offset ns p.2) val
      (h.nodup _ fun i j m n hm hn hmpos hnpos => Ragged.offset_inj hm hn hmpos hnpos) (b.positions ns)
    refine ⟨_, hfold, fun r i n hi hn k hk => ?_⟩
    have hmem : (r, i) ∈ b.reqIdToIndex.items := Dict.mem_items.mpr hi
    cases k with
    | zero =>
      refine (hset (r, i) hmem (by rw [length_positions]; exact hinside r i hi)).trans ?_
      have hposition := getElem?_positions (b := b) hn hk
      rw [Nat.add_zero] at hposition
      rw [hval]
      dsimp only
      rw [hposition]
      split_ifs with hinvalid hcond hcond
      · exact absurd hinvalid hcond.1
      · rfl
      · rfl
      · exact absurd ⟨hinvalid, rfl⟩ hcond
    | succ k =>
      rw [if_neg fun hcond => Nat.succ_ne_zero k hcond.2, ← getElem?_positions hn hk]
      refine hother _ fun hplace => ?_
      obtain ⟨p, -, hplace⟩ := List.mem_map.mp hplace
      exact Nat.succ_ne_zero k (Ragged.eq_zero_of_offset hn hk hplace)
  · have hi := Dict.mem_items.mp hp
    have hlt : Ragged.offset ns p.2 < xs.length := hxs ▸ hinside p.1 p.2 hi
    rw [h.slots p.1 p.2 hi, Option.bind_some, hoffset p.1 p.2 hi, Option.bind_some, if_pos hlt, hval]
    dsimp only
    split_ifs <;> rfl
  · cases val p with
    | none => rfl
    | some v => exact List.length_set

/-- The lengths of the sparse requests are set, and no others. -/
theorem Counted.seqLens (h : Counted b o ns slots) :
    ∃ lens, b.seqLens o ns = some lens ∧ ∀ r i n, b.reqIdToIndex.get? r = some i → ns[i]? = some n →
      lens[i]? = some (if slots r = INVALID_SLOT then b.numComputedTokensCpu i + n else slots r) := by
  set val : ReqId × Nat → Option Int := fun p => if slots p.1 = INVALID_SLOT then none else some (slots p.1) with hval
  set dense : List Int := ns.mapIdx fun (i n : Nat) => b.numComputedTokensCpu i + (n : Int) with hdense
  have hfold := Ragged.foldlM_eq_foldl b.reqIdToIndex.items (m := dense.length)
    (f := fun seqLens p => (o.reqSparsedSlots.get? p.1).map fun slots =>
      if slots = INVALID_SLOT then seqLens else seqLens.set p.2 slots)
    (g := fun xs p => (val p).elim xs (xs.set p.2)) (fun xs _ p hp => ?_) (fun xs p => ?_) rfl
  · obtain ⟨-, hset, -⟩ := Ragged.getElem?_foldl_set Prod.snd val (h.nodup id fun i j _ _ _ _ _ _ heq => heq) dense
    refine ⟨_, hfold, fun r i n hi hn => ?_⟩
    have hentry : dense[i]? = some (b.numComputedTokensCpu i + n) := by
      rw [hdense, List.getElem?_mapIdx, hn]
      rfl
    obtain ⟨hlt, -⟩ := List.getElem?_eq_some_iff.mp hentry
    refine (hset (r, i) (Dict.mem_items.mpr hi) hlt).trans ?_
    rw [hval]
    dsimp only [id]
    rw [hentry]
    split_ifs <;> rfl
  · rw [h.slots p.1 p.2 (Dict.mem_items.mp hp), Option.map_some, hval]
    dsimp only
    split_ifs <;> rfl
  · cases val p with
    | none => rfl
    | some v => exact List.length_set

end InputBatch

section Prepare

variable {vllm : Vllm ReqId Group Queue Kv} {config : SchedulerConfig} {contents : Queue → Multiset ReqId}
  {spec : KvCacheSpec Group} {ops : BatchOps ReqId Group Rest} {maxNumReqs : Nat} {s s' : Scheduler ReqId Queue Kv}
  {o : SchedulerOutput ReqId Group} {b : InputBatch ReqId Group Rest} {known : ReqId → Prop}

end Prepare

end UnifiedCache.Integration
