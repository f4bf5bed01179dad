import UnifiedCache.Connector.Schedule

/-! A prompt that is scheduled without being preempted: what is found is loaded in its first
step, and what is not found is dumped as its tokens are computed. -/

namespace UnifiedCache.Connector

variable {Token BlockId ReqId : Type*}

/-- Block ids with the entries of a table, from `start` to `stop`. -/
def pairs (ucmBlockIds : List BlockId) (blockTable : List Nat) (start stop : Nat) : List (BlockId × Nat) :=
  (slice ucmBlockIds start stop).zip (slice blockTable start stop)

section Pairs

variable {ucmBlockIds : List BlockId} {blockTable : List Nat} {a b c : Nat}

theorem pairs_of_le (h : b ≤ a) : pairs ucmBlockIds blockTable a b = [] := by
  simp [pairs, slice, Nat.sub_eq_zero_of_le h]

theorem pairs_append_pairs (hab : a ≤ b) (hbc : b ≤ c) :
    pairs ucmBlockIds blockTable a b ++ pairs ucmBlockIds blockTable b c = pairs ucmBlockIds blockTable a c := by
  unfold pairs
  rw [zip_slice, zip_slice, zip_slice, slice_append_slice hab hbc]

theorem pairs_append (newBlockIds : List Nat) (h : b ≤ blockTable.length) :
    pairs ucmBlockIds (blockTable ++ newBlockIds) a b = pairs ucmBlockIds blockTable a b := by
  rw [pairs, slice_append newBlockIds h, pairs]

/-- The pairs are those of the places from `a` to `b`, each once and in order. -/
def Exactly (ucmBlockIds : List BlockId) (blockTable : List Nat) (a b : Nat) (ps : List (BlockId × Nat)) : Prop :=
  ps.length = b - a ∧ ∀ j, a ≤ j → j < b → ∃ ucmBlockId vllmBlockId, ucmBlockIds[j]? = some ucmBlockId ∧
    blockTable[j]? = some vllmBlockId ∧ ps[j - a]? = some (ucmBlockId, vllmBlockId)

theorem exactly_pairs (hids : b ≤ ucmBlockIds.length) (htable : b ≤ blockTable.length) :
    Exactly ucmBlockIds blockTable a b (pairs ucmBlockIds blockTable a b) := by
  constructor
  · rw [pairs, List.length_zip, length_slice hids, length_slice htable, Nat.min_self]
  · intro j haj hjb
    have hi : ucmBlockIds[j]? = some ucmBlockIds[j] := List.getElem?_eq_getElem (by omega)
    have ht : blockTable[j]? = some blockTable[j] := List.getElem?_eq_getElem (by omega)
    refine ⟨_, _, hi, ht, ?_⟩
    rw [pairs, zip_slice, getElem?_slice, if_pos (by omega), Nat.add_sub_cancel' haj]
    exact List.getElem?_zip_eq_some.mpr ⟨hi, ht⟩

end Pairs

section Matched

variable {config : Config Token BlockId} {request : Request Token ReqId} {numComputedTokens : Nat}
  {lookup : Lookup BlockId}

theorem externalHitBlocks_le (lookup : Lookup BlockId) (externalBlockIds : List BlockId) :
    externalHitBlocks lookup externalBlockIds ≤ externalBlockIds.length := by
  unfold externalHitBlocks
  cases lookup externalBlockIds with
  | none => exact Nat.zero_le _
  | some results => exact (List.takeWhile_prefix _).length_le.trans_eq results.2

/-- Every hit is a full block of the prompt. -/
theorem totalHitBlockNum_le (h : numComputedTokens ≤ request.allTokenIds.length) :
    (freshMeta config request numComputedTokens lookup).totalHitBlockNum ≤
      request.allTokenIds.length / config.blockSize := by
  have hle := externalHitBlocks_le lookup ((generateHash config request.allTokenIds config.seed).drop
    (numComputedTokens / config.blockSize))
  have hhbm := Nat.div_le_div_right (c := config.blockSize) h
  rw [List.length_drop, length_generateHash] at hle
  change numComputedTokens / config.blockSize + _ ≤ _
  omega

/-- The last token of a prompt is left to compute. -/
theorem matched_value [DecidableEq ReqId] {requestsMeta requestsMeta' : Dict ReqId (RequestMeta BlockId)} {v : Int}
    (hv : getNumNewMatchedTokens config requestsMeta request numComputedTokens lookup = some (v, requestsMeta'))
    (h : numComputedTokens < request.allTokenIds.length) :
    0 ≤ v ∧ numComputedTokens + v < request.allTokenIds.length ∧
      numComputedTokens + v =
        (freshMeta config request numComputedTokens lookup).tokenProcessed -
          if (freshMeta config request numComputedTokens lookup).tokenProcessed = request.allTokenIds.length
          then 1 else 0 := by
  obtain ⟨hmod, hcases⟩ := getNumNewMatchedTokens_cases hv
  have hnc : numComputedTokens / config.blockSize * config.blockSize = numComputedTokens :=
    Nat.div_mul_cancel (Nat.dvd_of_mod_eq_zero hmod)
  have htotal : (freshMeta config request numComputedTokens lookup).tokenProcessed = numComputedTokens +
      externalHitBlocks lookup ((generateHash config request.allTokenIds config.seed).drop
        (numComputedTokens / config.blockSize)) * config.blockSize := by
    change (_ + _) * _ = _
    rw [Nat.add_mul, hnc]
  have hle : (freshMeta config request numComputedTokens lookup).tokenProcessed ≤ request.allTokenIds.length := by
    exact (Nat.mul_le_mul_right _ (totalHitBlockNum_le h.le)).trans (Nat.div_mul_le_self _ _)
  obtain ⟨hall, rfl, _⟩ | ⟨_, hv, _⟩ := hcases
  · have hnone : externalHitBlocks lookup ((generateHash config request.allTokenIds config.seed).drop
        (numComputedTokens / config.blockSize)) = 0 := by
      have hhits := externalHitBlocks_le lookup ((generateHash config request.allTokenIds config.seed).drop
        (numComputedTokens / config.blockSize))
      rw [List.length_drop, length_generateHash] at hhits
      omega
    rw [htotal, hnone]
    simp
    omega
  · rw [hv, htotal] at *
    split_ifs <;> omega

end Matched

def RequestDispatchMeta.zipped (dispatchMeta : RequestDispatchMeta BlockId) : List (BlockId × Nat) × List (BlockId × Nat) :=
  (dispatchMeta.loadBlockIds.1.zip dispatchMeta.loadBlockIds.2,
    dispatchMeta.dumpBlockIds.1.zip dispatchMeta.dumpBlockIds.2)

section Followed

/-- The counts of a match. -/
structure Hits (config : Config Token BlockId) (request : Request Token ReqId) (fresh : RequestMeta BlockId) :
    Prop where
  hbm_le : fresh.hbmHitBlockNum ≤ fresh.totalHitBlockNum
  total_le : fresh.totalHitBlockNum ≤ request.allTokenIds.length / config.blockSize
  ucmBlockIds : fresh.ucmBlockIds.length = request.allTokenIds.length / config.blockSize
  numTokenIds : fresh.numTokenIds = request.allTokenIds.length
  tokenProcessed : fresh.tokenProcessed = fresh.totalHitBlockNum * config.blockSize

/-- Where the prompt is between its match and its last token. -/
structure Followed (config : Config Token BlockId) (request : Request Token ReqId) (fresh : RequestMeta BlockId)
    (r : RequestState) (known : Option (RequestMeta BlockId)) : Prop where
  phase : r.phase = .waiting ∨ r.phase = .running
  computed_le : r.numComputedTokens ≤ request.allTokenIds.length
  hits_le : fresh.tokenProcessed ≤ r.numComputedTokens + 1
  waiting : r.phase = .waiting → r.numComputedTokens < request.allTokenIds.length ∧
    r.numComputedTokens / config.blockSize ≤ fresh.totalHitBlockNum
  running : r.phase = .running → r.numComputedTokens ≤ r.blockTable.length * config.blockSize ∧
    fresh.totalHitBlockNum ≤ r.blockTable.length
  kept : ∀ reqMeta ∈ known, reqMeta =
    { fresh with
      vllmBlockIds := if r.phase = .running then r.blockTable else []
      tokenProcessed := reqMeta.tokenProcessed }
  counted : ∀ reqMeta ∈ known,
    fresh.tokenProcessed = request.allTokenIds.length ∧ reqMeta.tokenProcessed = request.allTokenIds.length ∨
      fresh.tokenProcessed ≤ r.numComputedTokens ∧ reqMeta.tokenProcessed = r.numComputedTokens
  unknown : known = none → request.allTokenIds.length / config.blockSize ≤ fresh.hbmHitBlockNum

variable {config : Config Token BlockId} {request : Request Token ReqId} {fresh : RequestMeta BlockId}
  {r : RequestState} {known : Option (RequestMeta BlockId)} {e : Entry ReqId} {n : Nat}

/-- A step that schedules `n` tokens of the prompt. -/
structure Schedules (config : Config Token BlockId) (request : Request Token ReqId) (r : RequestState)
    (e : Entry ReqId) (n : Nat) : Prop where
  phase : r.phase = e.phase
  pos : 0 < n
  le : r.numComputedTokens + n ≤ request.allTokenIds.length
  cover : r.numComputedTokens + n ≤ (r.advance e n).blockTable.length * config.blockSize

theorem Followed.blockTable (h : Followed config request fresh r known) (hn : Schedules config request r e n)
    {reqMeta : RequestMeta BlockId} (hm : reqMeta ∈ known) :
    reqMeta.vllmBlockIds ++ e.blockIds = (r.advance e n).blockTable := by
  rw [h.kept reqMeta hm]
  unfold RequestState.advance
  by_cases hr : r.phase = .running
  · simp [← hn.phase, hr]
  · simp [← hn.phase, hr]

theorem Followed.advance (hf : Hits config request fresh) (h : Followed config request fresh r known)
    (hn : Schedules config request r e n) :
    Followed config request fresh (r.advance e n) (known.map fun reqMeta =>
      (generateDispatchMeta config.blockSize reqMeta n e.blockIds e.needLoad).2) where
  phase := Or.inr rfl
  computed_le := hn.le
  hits_le := h.hits_le.trans (by simp [RequestState.advance])
  waiting := fun hw => (by cases hw)
  running := fun _ => by
    have hpos := hn.pos
    have hhits := h.hits_le
    have hcover := hn.cover
    have hmul : fresh.totalHitBlockNum * config.blockSize ≤ (r.advance e n).blockTable.length * config.blockSize := by
      rw [← hf.tokenProcessed]
      omega
    exact ⟨hcover, Nat.le_of_mul_le_mul_right hmul config.blockSize_pos⟩
  kept := by
    intro reqMeta hm
    obtain ⟨old, hold, rfl⟩ := Option.map_eq_some_iff.mp hm
    have htable := h.blockTable hn hold
    rw [generateDispatchMeta_snd, htable, h.kept old hold]
    rfl
  counted := by
    intro reqMeta hm
    obtain ⟨old, hold, rfl⟩ := Option.map_eq_some_iff.mp hm
    have hnum : old.numTokenIds = request.allTokenIds.length := by
      rw [h.kept old hold]
      exact hf.numTokenIds
    rw [generateDispatchMeta_snd]
    obtain ⟨hall, hold⟩ | ⟨hle, hold⟩ := h.counted old hold
    · left
      simp [hall, hold, hnum]
    · right
      have hless : old.tokenProcessed < old.numTokenIds := by
        have := hn.le
        have := hn.pos
        omega
      have hcount : (r.advance e n).numComputedTokens = r.numComputedTokens + n := rfl
      simp only [hless, if_true]
      omega
  unknown := fun hnone => h.unknown (Option.map_eq_none_iff.mp hnone)

/-- What the step has the request load and dump. -/
def dispatchPairs (blockSize : Nat) (known : Option (RequestMeta BlockId)) (e : Entry ReqId) (n : Nat) :
    List (BlockId × Nat) × List (BlockId × Nat) :=
  (known.map fun reqMeta => (generateDispatchMeta blockSize reqMeta n e.blockIds e.needLoad).1.zipped).getD
    ([], [])

theorem Followed.loads (hf : Hits config request fresh) (h : Followed config request fresh r known)
    (hn : Schedules config request r e n) :
    (dispatchPairs config.blockSize known e n).1 =
      if r.phase = .waiting then
        pairs fresh.ucmBlockIds (r.advance e n).blockTable fresh.hbmHitBlockNum fresh.totalHitBlockNum
      else [] := by
  cases hk : known with
  | none =>
    have hempty : fresh.totalHitBlockNum ≤ fresh.hbmHitBlockNum := hf.total_le.trans (h.unknown hk)
    simp [dispatchPairs, pairs_of_le hempty]
  | some reqMeta =>
    have hkept := h.kept reqMeta hk
    simp only [dispatchPairs, RequestDispatchMeta.zipped, Option.map_some, Option.getD_some,
      loadBlockIds_generateDispatchMeta]
    rw [hkept]
    cases h.phase with
    | inl hw =>
      have hload : e.needLoad = true := by simp [Entry.needLoad, ← hn.phase, hw]
      have htable : (r.advance e n).blockTable = e.blockIds := by simp [RequestState.advance, ← hn.phase, hw]
      rw [hload, htable, if_pos hw]
      rfl
    | inr hr =>
      have hload : e.needLoad = false := by simp [Entry.needLoad, ← hn.phase, hr]
      simp [hload, hr]

theorem Followed.dispatched_dumps (hf : Hits config request fresh) (h : Followed config request fresh r known)
    (hn : Schedules config request r e n) :
    (dispatchPairs config.blockSize known e n).2 =
      if request.allTokenIds.length / config.blockSize ≤ fresh.totalHitBlockNum then []
      else pairs fresh.ucmBlockIds (r.advance e n).blockTable (r.numComputedTokens / config.blockSize)
        ((r.numComputedTokens + n) / config.blockSize) := by
  cases hk : known with
  | none =>
    rw [if_pos ((h.unknown hk).trans hf.hbm_le)]
    rfl
  | some reqMeta =>
    have htable := h.blockTable hn hk
    have hkept := h.kept reqMeta hk
    have hids : reqMeta.ucmBlockIds = fresh.ucmBlockIds := by rw [hkept]
    have hnum : reqMeta.numTokenIds = request.allTokenIds.length := by
      rw [hkept]
      exact hf.numTokenIds
    simp only [dispatchPairs, RequestDispatchMeta.zipped, Option.map_some, Option.getD_some,
      dumpBlockIds_generateDispatchMeta]
    rw [htable, hids, hnum]
    obtain ⟨hall, hold⟩ | ⟨hle, hold⟩ := h.counted reqMeta hk
    · have hfull : request.allTokenIds.length / config.blockSize = fresh.totalHitBlockNum := by
        rw [← hall, hf.tokenProcessed, Nat.mul_div_cancel _ config.blockSize_pos]
      simp [hold, hfull]
    · have hless : reqMeta.tokenProcessed < request.allTokenIds.length := by
        have := hn.le
        have := hn.pos
        omega
      rw [if_pos hless, hold]
      split_ifs with hfull
      · -- all hits are computed, so the step stays in the last, unfinished block
        have hhits : fresh.totalHitBlockNum ≤ r.numComputedTokens / config.blockSize :=
          (Nat.le_div_iff_mul_le config.blockSize_pos).mpr (hf.tokenProcessed ▸ hle)
        have hlast : (r.numComputedTokens + n) / config.blockSize ≤ request.allTokenIds.length / config.blockSize :=
          Nat.div_le_div_right hn.le
        exact pairs_of_le ((hlast.trans hfull).trans hhits)
      · rfl

theorem Followed.dumps (hf : Hits config request fresh) (h : Followed config request fresh r known)
    (hn : Schedules config request r e n) :
    pairs fresh.ucmBlockIds r.blockTable fresh.totalHitBlockNum (r.numComputedTokens / config.blockSize) ++
        (dispatchPairs config.blockSize known e n).2 =
      pairs fresh.ucmBlockIds (r.advance e n).blockTable fresh.totalHitBlockNum
        ((r.numComputedTokens + n) / config.blockSize) := by
  have hnext : r.numComputedTokens / config.blockSize ≤ (r.numComputedTokens + n) / config.blockSize :=
    Nat.div_le_div_right (Nat.le_add_right _ _)
  have hlast : (r.numComputedTokens + n) / config.blockSize ≤ request.allTokenIds.length / config.blockSize :=
    Nat.div_le_div_right hn.le
  rw [h.dispatched_dumps hf hn]
  split_ifs with hfull
  · rw [pairs_of_le ((hnext.trans hlast).trans hfull), pairs_of_le (hlast.trans hfull)]
    rfl
  · have hhits : fresh.totalHitBlockNum ≤ r.numComputedTokens / config.blockSize := by
      cases hk : known with
      | none => exact absurd ((h.unknown hk).trans hf.hbm_le) hfull
      | some reqMeta =>
        obtain ⟨hall, _⟩ | ⟨hle, _⟩ := h.counted reqMeta hk
        · rw [← hall, hf.tokenProcessed, Nat.mul_div_cancel _ config.blockSize_pos] at hfull
          exact absurd le_rfl hfull
        · exact (Nat.le_div_iff_mul_le config.blockSize_pos).mpr (hf.tokenProcessed ▸ hle)
    have hsame : pairs fresh.ucmBlockIds r.blockTable fresh.totalHitBlockNum
          (r.numComputedTokens / config.blockSize) =
        pairs fresh.ucmBlockIds (r.advance e n).blockTable fresh.totalHitBlockNum
          (r.numComputedTokens / config.blockSize) := by
      cases h.phase with
      | inl hw => rw [pairs_of_le (h.waiting hw).2, pairs_of_le (h.waiting hw).2]
      | inr hr =>
        have htable : (r.advance e n).blockTable = r.blockTable ++ e.blockIds := by
          simp [RequestState.advance, ← hn.phase, hr]
        have hcovered : r.numComputedTokens / config.blockSize ≤ r.blockTable.length :=
          Nat.div_le_of_le_mul (Nat.mul_comm _ _ ▸ (h.running hr).1)
        rw [htable, pairs_append e.blockIds hcovered]
    rw [hsame, pairs_append_pairs hhits hnext]

/-- What is dumped has been computed. -/
theorem Followed.inTime (hf : Hits config request fresh) (h : Followed config request fresh r known)
    (hn : Schedules config request r e n) {p : BlockId × Nat} (hp : p ∈ (dispatchPairs config.blockSize known e n).2) :
    ∃ j : Nat, fresh.ucmBlockIds[j]? = some p.1 ∧ (r.advance e n).blockTable[j]? = some p.2 ∧
      (j + 1) * config.blockSize ≤ r.numComputedTokens + n := by
  rw [h.dispatched_dumps hf hn] at hp
  split_ifs at hp
  · cases hp
  · obtain ⟨j, _, hj, hids, htable⟩ := exists_of_mem_zip_slice hp
    exact ⟨j, hids, htable, (Nat.le_div_iff_mul_le config.blockSize_pos).mp hj⟩

/-- Every block id that is dispatched comes with its entry of the table. -/
theorem Followed.aligned (hf : Hits config request fresh) (h : Followed config request fresh r known)
    (hn : Schedules config request r e n) {reqMeta : RequestMeta BlockId} (hm : reqMeta ∈ known) :
    let dispatched := (generateDispatchMeta config.blockSize reqMeta n e.blockIds e.needLoad).1
    dispatched.loadBlockIds.1.length = dispatched.loadBlockIds.2.length ∧
      dispatched.dumpBlockIds.1.length = dispatched.dumpBlockIds.2.length := by
  have hkept := h.kept reqMeta hm
  have htable := h.blockTable hn hm
  have hids : reqMeta.ucmBlockIds = fresh.ucmBlockIds := by rw [hkept]
  have hnext := (h.advance hf hn).running rfl
  dsimp only
  rw [loadBlockIds_generateDispatchMeta, dumpBlockIds_generateDispatchMeta, htable, hids]
  constructor
  · split_ifs with hload
    · have hnew : (r.advance e n).blockTable = e.blockIds := if_neg (of_decide_eq_true hload)
      rw [hnew] at hnext
      rw [hkept]
      rw [length_slice (hf.ucmBlockIds ▸ hf.total_le), length_slice hnext.2]
    · rfl
  · split_ifs with hless
    · have hcount : reqMeta.tokenProcessed = r.numComputedTokens := by
        obtain ⟨_, hold⟩ | ⟨_, hold⟩ := h.counted reqMeta hm
        · have hnum : reqMeta.numTokenIds = request.allTokenIds.length := by
            rw [hkept]
            exact hf.numTokenIds
          omega
        · exact hold
      have hlast : (r.numComputedTokens + n) / config.blockSize ≤ fresh.ucmBlockIds.length :=
        hf.ucmBlockIds ▸ Nat.div_le_div_right hn.le
      have hcovered : (r.numComputedTokens + n) / config.blockSize ≤ (r.advance e n).blockTable.length :=
        Nat.div_le_of_le_mul (Nat.mul_comm _ _ ▸ hn.cover)
      rw [hcount, length_slice hlast, length_slice hcovered]
    · rfl

theorem hits_freshMeta {numComputedTokens : Nat} {lookup : Lookup BlockId}
    (h : numComputedTokens < request.allTokenIds.length) :
    Hits config request (freshMeta config request numComputedTokens lookup) where
  hbm_le := Nat.le_add_right _ _
  total_le := totalHitBlockNum_le h.le
  ucmBlockIds := length_generateHash config _ _
  numTokenIds := rfl
  tokenProcessed := rfl

end Followed

section Prompt

variable [DecidableEq ReqId] (config : Config Token BlockId) (request : Request Token ReqId)

/-- A step that leaves the request alone, or schedules some of the tokens of its prompt, with
blocks for them. -/
def PromptStep (s : State BlockId ReqId) : Event Token BlockId ReqId → Prop
  | .matched request' _ _ => request'.requestId ≠ request.requestId
  | .preempt reqId => reqId ≠ request.requestId
  | .schedule out => request.requestId ∉ out.finishedReqIds ∧ ∀ e ∈ out.entry? request.requestId,
      0 < out.numScheduledTokens request.requestId ∧
        ((s.requests request.requestId).advance e
          (out.numScheduledTokens request.requestId)).numComputedTokens ≤ request.allTokenIds.length ∧
        ((s.requests request.requestId).advance e
          (out.numScheduledTokens request.requestId)).numComputedTokens ≤
          ((s.requests request.requestId).advance e
            (out.numScheduledTokens request.requestId)).blockTable.length * config.blockSize

instance (ev : Event Token BlockId ReqId) (s : State BlockId ReqId) : Decidable (PromptStep config request s ev) :=
  match ev with
  | .matched .. => by unfold PromptStep; infer_instance
  | .preempt _ => by unfold PromptStep; infer_instance
  | .schedule _ => by unfold PromptStep; infer_instance

/-- What a step has the request load, and what it has it dump. -/
def stepPairs (reqId : ReqId) : State BlockId ReqId × Event Token BlockId ReqId →
    List (BlockId × Nat) × List (BlockId × Nat)
  | (s, .schedule out) => ((dispatched config s out reqId).map RequestDispatchMeta.zipped).getD ([], [])
  | _ => ([], [])

/-- The dumps of a run, whose last step comes first. -/
def dumps (reqId : ReqId) : List (State BlockId ReqId × Event Token BlockId ReqId) → List (BlockId × Nat)
  | [] => []
  | x :: tr => dumps reqId tr ++ (stepPairs config reqId x).2

variable {config request} {s s' : State BlockId ReqId} {numComputedTokens : Nat} {lookup : Lookup BlockId}

theorem stepPairs_schedule (out : SchedulerOutput ReqId) (reqId : ReqId) :
    stepPairs config reqId (s, .schedule out) =
      ((dispatched config s out reqId).map RequestDispatchMeta.zipped).getD ([], []) := rfl

/-- A step that does not schedule the request changes nothing about it. -/
theorem promptStep_other {ev : Event Token BlockId ReqId} (hg : PromptStep config request s ev)
    (hs : step config s ev = some s')
    (hnone : ∀ out e, ev = .schedule out → out.entry? request.requestId ≠ some e) :
    s'.requests request.requestId = s.requests request.requestId ∧
      s'.requestsMeta.get? request.requestId = s.requestsMeta.get? request.requestId ∧
      stepPairs config request.requestId (s, ev) = ([], []) := by
  cases ev with
  | matched request' nc lookup =>
    obtain ⟨_, v, hv, hrequests⟩ := step_matched hs
    obtain ⟨_, hcases⟩ := getNumNewMatchedTokens_cases hv
    have hne : request.requestId ≠ request'.requestId := Ne.symm hg
    refine ⟨by rw [hrequests, Function.update_of_ne hne], ?_, rfl⟩
    obtain ⟨_, _, hsame⟩ | ⟨_, _, hset⟩ := hcases
    · rw [hsame]
    · rw [hset, Dict.get?_set, if_neg hne]
  | preempt reqId =>
    obtain ⟨_, rfl⟩ := step_preempt hs
    exact ⟨Function.update_of_ne (Ne.symm hg) _ _, rfl, rfl⟩
  | schedule out =>
    obtain ⟨ha, hmeta, hrequests⟩ := step_schedule hs
    have he : out.entry? request.requestId = none :=
      Option.eq_none_iff_forall_ne_some.mpr fun e => hnone out e rfl
    rw [stepPairs_schedule, dispatched_eq ha, hmeta, hrequests, he]
    simp only [if_neg hg.1]
    exact ⟨trivial, rfl, rfl⟩

theorem promptStep_schedule {out : SchedulerOutput ReqId} {e : Entry ReqId}
    (hg : PromptStep config request s (.schedule out)) (hs : step config s (.schedule out) = some s')
    (he : out.entry? request.requestId = some e) :
    Schedules config request (s.requests request.requestId) e (out.numScheduledTokens request.requestId) ∧
      s'.requests request.requestId =
        (s.requests request.requestId).advance e (out.numScheduledTokens request.requestId) ∧
      s'.requestsMeta.get? request.requestId = ((s.requestsMeta.get? request.requestId).map fun reqMeta =>
        (generateDispatchMeta config.blockSize reqMeta (out.numScheduledTokens request.requestId) e.blockIds
          e.needLoad).2) ∧
      dispatched config s out request.requestId = ((s.requestsMeta.get? request.requestId).map fun reqMeta =>
        (generateDispatchMeta config.blockSize reqMeta (out.numScheduledTokens request.requestId) e.blockIds
          e.needLoad).1) ∧
      stepPairs config request.requestId (s, .schedule out) =
        dispatchPairs config.blockSize (s.requestsMeta.get? request.requestId) e
          (out.numScheduledTokens request.requestId) := by
  obtain ⟨hunfinished, hprompt⟩ := hg
  obtain ⟨ha, hmeta, hrequests⟩ := step_schedule hs
  obtain ⟨hmem, hid⟩ := SchedulerOutput.mem_of_entry? he
  obtain ⟨hpos, hle, hcover⟩ := hprompt e he
  have hphase := (ha.2.1 e hmem).1
  rw [hid] at hphase
  rw [stepPairs_schedule, dispatched_eq ha, hmeta, hrequests, he]
  simp only [if_neg hunfinished]
  refine ⟨⟨hphase, hpos, hle, hcover⟩, trivial, ?_⟩
  rw [← hid]
  cases s.requestsMeta.get? e.reqId with
  | none => exact ⟨rfl, rfl, rfl⟩
  | some reqMeta => exact ⟨rfl, rfl, rfl⟩

variable {fresh : RequestMeta BlockId} {s₁ : State BlockId ReqId}
  {tr : List (State BlockId ReqId × Event Token BlockId ReqId)}

/-- The prompt is followed, and what was dumped are its blocks up to the computed tokens. -/
theorem followed_trace (hf : Hits config request fresh)
    (h₁ : Followed config request fresh (s₁.requests request.requestId) (s₁.requestsMeta.get? request.requestId))
    (hwaiting : (s₁.requests request.requestId).phase = .waiting)
    (htr : StepSystem.Trace (step config) (PromptStep config request) s₁ tr s) :
    Followed config request fresh (s.requests request.requestId) (s.requestsMeta.get? request.requestId) ∧
      dumps config request.requestId tr =
        pairs fresh.ucmBlockIds (s.requests request.requestId).blockTable fresh.totalHitBlockNum
          ((s.requests request.requestId).numComputedTokens / config.blockSize) := by
  induction htr with
  | start => exact ⟨h₁, (pairs_of_le (h₁.waiting hwaiting).2).symm⟩
  | @next tr s s' ev _ hg hs ih =>
    obtain ⟨hfollowed, hdumps⟩ := ih
    by_cases hev : ∃ out e, ev = .schedule out ∧ out.entry? request.requestId = some e
    · obtain ⟨out, e, rfl, he⟩ := hev
      obtain ⟨hn, hr, hm, _, hp⟩ := promptStep_schedule hg hs he
      rw [hr, hm]
      refine ⟨hfollowed.advance hf hn, ?_⟩
      simp only [dumps, hdumps, hp]
      exact hfollowed.dumps hf hn
    · obtain ⟨hr, hm, hp⟩ := promptStep_other hg hs fun out e h he => hev ⟨out, e, h, he⟩
      rw [hr, hm]
      refine ⟨hfollowed, ?_⟩
      simp only [dumps, hdumps, hp, List.append_nil]

theorem followed_matched (hnew : s.requestsMeta.get? request.requestId = none)
    (hwaiting : (s.requests request.requestId).phase = .waiting)
    (h : numComputedTokens < request.allTokenIds.length)
    (hs : step config s (.matched request numComputedTokens lookup) = some s') :
    Followed config request (freshMeta config request numComputedTokens lookup)
        (s'.requests request.requestId) (s'.requestsMeta.get? request.requestId) ∧
      (s'.requests request.requestId).phase = .waiting := by
  obtain ⟨_, v, hv, hrequests⟩ := step_matched hs
  obtain ⟨hpos, hless, hvalue⟩ := matched_value hv h
  obtain ⟨_, hcases⟩ := getNumNewMatchedTokens_cases hv
  have hf : Hits config request (freshMeta config request numComputedTokens lookup) := hits_freshMeta h
  have hhits : (freshMeta config request numComputedTokens lookup).tokenProcessed ≤ request.allTokenIds.length := by
    rw [hf.tokenProcessed]
    exact (Nat.mul_le_mul_right _ hf.total_le).trans (Nat.div_mul_le_self _ _)
  have hcount : ((numComputedTokens + v : Int).toNat : Int) = numComputedTokens + v := Int.toNat_of_nonneg (by omega)
  rw [← hcount] at hless hvalue
  have hle : (numComputedTokens + v : Int).toNat ≤
      (freshMeta config request numComputedTokens lookup).tokenProcessed := by
    split_ifs at hvalue <;> omega
  have hblocks := Nat.div_le_div_right (c := config.blockSize) hle
  rw [hf.tokenProcessed, Nat.mul_div_cancel _ config.blockSize_pos] at hblocks
  have hknown : s'.requestsMeta.get? request.requestId = none ∧
        request.allTokenIds.length / config.blockSize ≤ numComputedTokens / config.blockSize ∨
      s'.requestsMeta.get? request.requestId = some (freshMeta config request numComputedTokens lookup) := by
    obtain ⟨hall, _, hsame⟩ | ⟨_, _, hset⟩ := hcases
    · exact Or.inl ⟨hsame ▸ hnew, hall⟩
    · exact Or.inr (by rw [hset, Dict.get?_set, if_pos rfl])
  rw [hrequests, Function.update_self]
  refine ⟨?_, hwaiting⟩
  exact
    { phase := Or.inl hwaiting
      computed_le := by
        dsimp only
        omega
      hits_le := by
        dsimp only
        split_ifs at hvalue <;> omega
      waiting := fun _ => ⟨by dsimp only; omega, hblocks⟩
      running := fun hr => absurd (hwaiting.symm.trans hr) (by decide)
      kept := by
        intro reqMeta hm
        obtain ⟨hnone, _⟩ | hsome := hknown
        · rw [hnone] at hm
          cases hm
        · obtain rfl := Option.some.inj (hsome.symm.trans hm)
          simp [hwaiting, freshMeta]
      counted := by
        intro reqMeta hm
        obtain ⟨hnone, _⟩ | hsome := hknown
        · rw [hnone] at hm
          cases hm
        · obtain rfl := Option.some.inj (hsome.symm.trans hm)
          dsimp only
          split_ifs at hvalue with hall
          · exact Or.inl ⟨hall, hall⟩
          · right
            omega
      unknown := by
        intro hnone
        obtain ⟨_, hall⟩ | hsome := hknown
        · exact hall
        · rw [hsome] at hnone
          cases hnone }

/-- What the dispatch of a prompt has to be: each step that schedules it loads the hits if it is
the first and nothing else, dumps what it has computed, and all of them together dump every full
block that was not found. -/
structure Covers (config : Config Token BlockId) (request : Request Token ReqId) (fresh : RequestMeta BlockId)
    (tr : List (State BlockId ReqId × Event Token BlockId ReqId)) (s : State BlockId ReqId) : Prop where
  loads : ∀ t out e, (t, .schedule out) ∈ tr → out.entry? request.requestId = some e →
    if (t.requests request.requestId).phase = .waiting then
      Exactly fresh.ucmBlockIds
        ((t.requests request.requestId).advance e (out.numScheduledTokens request.requestId)).blockTable
        fresh.hbmHitBlockNum fresh.totalHitBlockNum (stepPairs config request.requestId (t, .schedule out)).1
    else (stepPairs config request.requestId (t, .schedule out)).1 = []
  others : ∀ t ev, (t, ev) ∈ tr → (∀ out e, ev = .schedule out → out.entry? request.requestId ≠ some e) →
    stepPairs config request.requestId (t, ev) = ([], [])
  inTime : ∀ t out e, (t, .schedule out) ∈ tr → out.entry? request.requestId = some e →
    ∀ p ∈ (stepPairs config request.requestId (t, .schedule out)).2, ∃ j : Nat,
      fresh.ucmBlockIds[j]? = some p.1 ∧
        ((t.requests request.requestId).advance e
          (out.numScheduledTokens request.requestId)).blockTable[j]? = some p.2 ∧
        (j + 1) * config.blockSize ≤
          (t.requests request.requestId).numComputedTokens + out.numScheduledTokens request.requestId
  aligned : ∀ t out, (t, .schedule out) ∈ tr → ∀ d, dispatched config t out request.requestId = some d →
    d.loadBlockIds.1.length = d.loadBlockIds.2.length ∧ d.dumpBlockIds.1.length = d.dumpBlockIds.2.length
  dumps : (s.requests request.requestId).numComputedTokens = request.allTokenIds.length →
    Exactly fresh.ucmBlockIds (s.requests request.requestId).blockTable fresh.totalHitBlockNum
      (request.allTokenIds.length / config.blockSize) (dumps config request.requestId tr)

theorem covers_prompt {s₀ : State BlockId ReqId} (hnew : s₀.requestsMeta.get? request.requestId = none)
    (hwaiting : (s₀.requests request.requestId).phase = .waiting)
    (h : numComputedTokens < request.allTokenIds.length)
    (hs : step config s₀ (.matched request numComputedTokens lookup) = some s₁)
    (htr : StepSystem.Trace (step config) (PromptStep config request) s₁ tr s) :
    (∃ v requestsMeta, getNumNewMatchedTokens config s₀.requestsMeta request numComputedTokens lookup =
        some (v, requestsMeta) ∧ 0 ≤ v ∧ numComputedTokens + v < request.allTokenIds.length) ∧
      Covers config request (freshMeta config request numComputedTokens lookup) tr s := by
  obtain ⟨_, v, hv, _⟩ := step_matched hs
  obtain ⟨hpos, hless, _⟩ := matched_value hv h
  obtain ⟨h₁, hwaiting₁⟩ := followed_matched hnew hwaiting h hs
  have hf : Hits config request (freshMeta config request numComputedTokens lookup) := hits_freshMeta h
  -- each step starts where the prompt is followed
  have hstep : ∀ t ev, (t, ev) ∈ tr → Followed config request (freshMeta config request numComputedTokens lookup)
      (t.requests request.requestId) (t.requestsMeta.get? request.requestId) ∧ PromptStep config request t ev ∧
        ∃ t', step config t ev = some t' := by
    intro t ev hmem
    obtain ⟨tr', t', htr', hg, hs'⟩ := htr.of_mem hmem
    exact ⟨(followed_trace hf h₁ hwaiting₁ htr').1, hg, t', hs'⟩
  refine ⟨⟨v, _, hv, hpos, hless⟩, ?_, ?_, ?_, ?_, ?_⟩
  · intro t out e hmem he
    obtain ⟨hfollowed, hg, t', hs'⟩ := hstep t _ hmem
    obtain ⟨hn, _, _, _, hp⟩ := promptStep_schedule hg hs' he
    have hloads := hfollowed.loads hf hn
    rw [hp]
    split_ifs with hfirst
    · rw [hloads, if_pos hfirst]
      exact exactly_pairs (hf.ucmBlockIds ▸ hf.total_le) ((hfollowed.advance hf hn).running rfl).2
    · rw [hloads, if_neg hfirst]
  · intro t ev hmem hnone
    obtain ⟨_, hg, t', hs'⟩ := hstep t ev hmem
    exact (promptStep_other hg hs' hnone).2.2
  · intro t out e hmem he p hp
    obtain ⟨hfollowed, hg, t', hs'⟩ := hstep t _ hmem
    obtain ⟨hn, _, _, _, hpairs⟩ := promptStep_schedule hg hs' he
    exact hfollowed.inTime hf hn (hpairs ▸ hp)
  · intro t out hmem d hd
    obtain ⟨hfollowed, hg, t', hs'⟩ := hstep t _ hmem
    cases he : out.entry? request.requestId with
    | none =>
      rw [dispatched_eq (step_schedule hs').1, he] at hd
      cases hd
    | some e =>
      obtain ⟨hn, _, _, hdispatched, _⟩ := promptStep_schedule hg hs' he
      rw [hdispatched] at hd
      obtain ⟨reqMeta, hm, rfl⟩ := Option.map_eq_some_iff.mp hd
      exact hfollowed.aligned hf hn hm
  · intro hall
    obtain ⟨hfollowed, hdumps⟩ := followed_trace hf h₁ hwaiting₁ htr
    have hrunning : (s.requests request.requestId).phase = .running :=
      hfollowed.phase.resolve_left fun hw => absurd hall (hfollowed.waiting hw).1.ne
    have hcovered : request.allTokenIds.length / config.blockSize ≤ (s.requests request.requestId).blockTable.length :=
      Nat.div_le_of_le_mul (Nat.mul_comm _ _ ▸ hall ▸ (hfollowed.running hrunning).1)
    rw [hdumps, hall]
    exact exactly_pairs hf.ucmBlockIds.ge hcovered

end Prompt

/-- The first block is found, the second one dumped by the second chunk. -/
theorem covers_fiveTokens : ∃ s₁ tr s,
    step Config.pairs .initial (.matched fiveTokens 0 hitFirst) = some s₁ ∧
      StepSystem.Trace (step .pairs) (PromptStep .pairs fiveTokens) s₁ tr s ∧
      (s.requests 0).numComputedTokens = 5 ∧ dumps .pairs 0 tr = [(2, 4)] ∧
      Covers .pairs fiveTokens (freshMeta .pairs fiveTokens 0 hitFirst) tr s := by
  have hrun : (step Config.pairs .initial (.matched fiveTokens 0 hitFirst)).any fun s₁ =>
      (StepSystem.traced (fun s e => decide (PromptStep .pairs fiveTokens s e)) (step .pairs) [] s₁
        [.schedule (scheduleNew [3, 4] 1), .schedule (scheduleRunning [5] 2)]).any fun x =>
          (x.2.requests 0).numComputedTokens = 5 ∧ dumps .pairs 0 x.1 = [(2, 4)] := by decide +kernel
  obtain ⟨s₁, hs₁, hrun⟩ := (Option.any_eq_true _ _).mp hrun
  obtain ⟨⟨tr, s⟩, hs, he⟩ := (Option.any_eq_true _ _).mp hrun
  obtain ⟨hcomputed, hdumps⟩ := of_decide_eq_true he
  have htrace := StepSystem.Trace.start.traced (fun s e he => of_decide_eq_true he) hs
  exact ⟨s₁, tr, s, hs₁, htrace, hcomputed, hdumps, (covers_prompt rfl rfl (by decide) hs₁ htrace).2⟩

end UnifiedCache.Connector
