import UnifiedCache.Connector.Schedule

/-! Which block table the dispatched pairs come from, when requests are preempted and resumed. -/

namespace UnifiedCache.Connector

variable {Token BlockId ReqId : Type*}

/-- No full block of the request is left to dump. -/
def RequestMeta.Spent (blockSize : Nat) (reqMeta : RequestMeta BlockId) : Prop :=
  reqMeta.ucmBlockIds.length ≤ reqMeta.tokenProcessed / blockSize

/-- The recorded blocks are those of the request, none before it is scheduled. -/
def RequestMeta.Current (blockSize : Nat) (reqMeta : RequestMeta BlockId) (request : RequestState) : Prop :=
  reqMeta.Spent blockSize ∨
    (request.phase = .running → reqMeta.vllmBlockIds = request.blockTable) ∧
      (request.phase ≠ .running → request.matched = true → reqMeta.vllmBlockIds = [])

/-- A pair is a block id and the entry of the table at the same place. -/
def TableEntry (ucmBlockIds : List BlockId) (blockTable : List Nat) (p : BlockId × Nat) : Prop :=
  ∃ j : Nat, ucmBlockIds[j]? = some p.1 ∧ blockTable[j]? = some p.2

def RequestDispatchMeta.InTable (dispatchMeta : RequestDispatchMeta BlockId) (ucmBlockIds : List BlockId)
    (blockTable : List Nat) : Prop :=
  (∀ p ∈ dispatchMeta.loadBlockIds.1.zip dispatchMeta.loadBlockIds.2, TableEntry ucmBlockIds blockTable p) ∧
    ∀ p ∈ dispatchMeta.dumpBlockIds.1.zip dispatchMeta.dumpBlockIds.2, TableEntry ucmBlockIds blockTable p

theorem tableEntry_of_mem_slice {ucmBlockIds : List BlockId} {blockTable : List Nat} {a b : Nat}
    {p : BlockId × Nat} (h : p ∈ (slice ucmBlockIds a b).zip (slice blockTable a b)) :
    TableEntry ucmBlockIds blockTable p := by
  obtain ⟨j, _, _, hj⟩ := exists_of_mem_zip_slice h
  exact ⟨j, hj⟩

section Advance

variable {blockSize newTokens : Nat} {reqMeta : RequestMeta BlockId} {request : RequestState} {e : Entry ReqId}

theorem RequestMeta.Spent.generateDispatchMeta (h : reqMeta.Spent blockSize) (ids : List Nat) (needLoad : Bool) :
    (generateDispatchMeta blockSize reqMeta newTokens ids needLoad).2.Spent blockSize := by
  rw [generateDispatchMeta_snd]
  have hle : reqMeta.tokenProcessed ≤ if reqMeta.tokenProcessed < reqMeta.numTokenIds then
      reqMeta.tokenProcessed + newTokens else reqMeta.tokenProcessed := by
    split_ifs <;> omega
  exact h.trans (Nat.div_le_div_right hle)

/-- The recorded blocks and the new ones make the table that the request goes on with. -/
theorem append_blockIds
    (hc : (request.phase = .running → reqMeta.vllmBlockIds = request.blockTable) ∧
      (request.phase ≠ .running → request.matched = true → reqMeta.vllmBlockIds = []))
    (he : request.phase = e.phase) (hm : e.phase ≠ .running → request.matched = true) :
    reqMeta.vllmBlockIds ++ e.blockIds = (request.advance e newTokens).blockTable := by
  unfold RequestState.advance
  by_cases hr : e.phase = .running
  · simp only [hr, if_true]
    rw [hc.1 (he.trans hr)]
  · simp only [hr, if_false]
    rw [hc.2 (he ▸ hr) (hm hr), List.nil_append]

theorem RequestMeta.Current.advance (h : reqMeta.Current blockSize request) (he : request.phase = e.phase)
    (hm : e.phase ≠ .running → request.matched = true) :
    (generateDispatchMeta blockSize reqMeta newTokens e.blockIds e.needLoad).2.Current blockSize
      (request.advance e newTokens) := by
  cases h with
  | inl hspent => exact Or.inl (hspent.generateDispatchMeta _ _)
  | inr hc =>
    right
    rw [generateDispatchMeta_snd]
    exact ⟨fun _ => append_blockIds hc he hm, fun hne => absurd rfl hne⟩

theorem RequestMeta.Current.inTable (h : reqMeta.Current blockSize request) (he : request.phase = e.phase)
    (hm : e.phase ≠ .running → request.matched = true) :
    (generateDispatchMeta blockSize reqMeta newTokens e.blockIds e.needLoad).1.InTable reqMeta.ucmBlockIds
      (request.advance e newTokens).blockTable := by
  constructor
  · rw [loadBlockIds_generateDispatchMeta]
    intro p hp
    split_ifs at hp with hload
    · have htable : (request.advance e newTokens).blockTable = e.blockIds := if_neg (of_decide_eq_true hload)
      rw [htable]
      exact tableEntry_of_mem_slice hp
    · cases hp
  · rw [dumpBlockIds_generateDispatchMeta]
    intro p hp
    split_ifs at hp with hless
    · cases h with
      | inl hspent =>
        rw [slice_of_length_le hspent] at hp
        cases hp
      | inr hc =>
        rw [append_blockIds hc he hm] at hp
        exact tableEntry_of_mem_slice hp
    · cases hp

end Advance

section Run

variable [DecidableEq ReqId] {config : Config Token BlockId} {s s' : State BlockId ReqId}

/-- A match that finds every full block in HBM keeps the data of the request. It should not keep
blocks of an earlier table while blocks are left to dump. -/
def RenewsMeta (config : Config Token BlockId) (s : State BlockId ReqId) : Event Token BlockId ReqId → Prop
  | .matched request numComputedTokens _ =>
    request.allTokenIds.length / config.blockSize ≤ numComputedTokens / config.blockSize →
      ∀ reqMeta ∈ s.requestsMeta.get? request.requestId,
        reqMeta.vllmBlockIds = [] ∨ reqMeta.Spent config.blockSize
  | _ => True

instance (e : Event Token BlockId ReqId) : Decidable (RenewsMeta config s e) := by
  cases e <;> unfold RenewsMeta RequestMeta.Spent <;> infer_instance

def AllCurrent (config : Config Token BlockId) (s : State BlockId ReqId) : Prop :=
  ∀ reqId, ∀ reqMeta ∈ s.requestsMeta.get? reqId, reqMeta.Current config.blockSize (s.requests reqId)

theorem AllCurrent.matched {request : Request Token ReqId} {numComputedTokens : Nat} {lookup : Lookup BlockId}
    (h : AllCurrent config s) (hg : RenewsMeta config s (.matched request numComputedTokens lookup))
    (hs : step config s (.matched request numComputedTokens lookup) = some s') : AllCurrent config s' := by
  obtain ⟨hphase, v, hv, hrequests⟩ := step_matched hs
  obtain ⟨_, hcases⟩ := getNumNewMatchedTokens_cases hv
  intro reqId reqMeta hm
  rw [hrequests]
  by_cases he : reqId = request.requestId
  · subst he
    rw [Function.update_self]
    obtain ⟨hall, _, hsame⟩ | ⟨_, _, hset⟩ := hcases
    · rw [hsame] at hm
      cases hg hall reqMeta hm with
      | inl hnil => exact Or.inr ⟨fun hr => absurd hr hphase, fun _ _ => hnil⟩
      | inr hspent => exact Or.inl hspent
    · rw [hset, Dict.get?_set, if_pos rfl] at hm
      obtain rfl := Option.some.inj hm
      exact Or.inr ⟨fun hr => absurd hr hphase, fun _ _ => rfl⟩
  · rw [Function.update_of_ne he]
    apply h reqId reqMeta
    obtain ⟨_, _, hsame⟩ | ⟨_, _, hset⟩ := hcases
    · exact hsame ▸ hm
    · rwa [hset, Dict.get?_set, if_neg he] at hm

theorem AllCurrent.preempt {reqId : ReqId} (h : AllCurrent config s)
    (hs : step config s (.preempt reqId) = some s') : AllCurrent config s' := by
  obtain ⟨_, rfl⟩ := step_preempt hs
  intro reqId' reqMeta hm
  by_cases he : reqId' = reqId
  · subst he
    dsimp only
    rw [Function.update_self]
    exact Or.inr ⟨fun hr => (by cases hr), fun _ hmatched => (by cases hmatched)⟩
  · dsimp only
    rw [Function.update_of_ne he]
    exact h reqId' reqMeta hm

theorem AllCurrent.schedule {out : SchedulerOutput ReqId} (h : AllCurrent config s)
    (hs : step config s (.schedule out) = some s') : AllCurrent config s' := by
  obtain ⟨ha, hmeta, hrequests⟩ := step_schedule hs
  intro reqId reqMeta hm
  rw [hmeta] at hm
  rw [hrequests]
  by_cases hfinished : reqId ∈ out.finishedReqIds
  · rw [if_pos hfinished] at hm
    cases hm
  rw [if_neg hfinished] at hm
  cases he : out.entry? reqId with
  | none =>
    rw [he] at hm
    dsimp only
    rw [if_neg hfinished]
    exact h reqId reqMeta hm
  | some e =>
    obtain ⟨hmem, rfl⟩ := SchedulerOutput.mem_of_entry? he
    obtain ⟨hphase, hmatched⟩ := ha.2.1 e hmem
    cases hold : s.requestsMeta.get? e.reqId with
    | none =>
      rw [hold, he] at hm
      cases hm
    | some old =>
      rw [hold, he] at hm
      obtain rfl := Option.some.inj hm
      exact (h _ old hold).advance hphase hmatched

theorem AllCurrent.step {e : Event Token BlockId ReqId} (h : AllCurrent config s) (hg : RenewsMeta config s e)
    (hs : step config s e = some s') : AllCurrent config s' := by
  cases e with
  | matched request numComputedTokens lookup => exact h.matched hg hs
  | preempt reqId => exact h.preempt hs
  | schedule out => exact h.schedule hs

/-- Every pair that an output has a request load or dump is in the table of the request. -/
def InTables (config : Config Token BlockId) (s : State BlockId ReqId) : Prop :=
  ∀ out s', Connector.step config s (.schedule out) = some s' → ∀ reqId dispatchMeta,
    dispatched config s out reqId = some dispatchMeta →
      ∃ reqMeta ∈ s.requestsMeta.get? reqId,
        dispatchMeta.InTable reqMeta.ucmBlockIds (s'.requests reqId).blockTable

theorem inTables_of_renewsMeta (h : StepSystem.Reach (step config) (RenewsMeta config) .initial s) :
    InTables config s := by
  have hcurrent : AllCurrent config s :=
    h.invariant (AllCurrent config) (fun _ _ hm => (by cases hm)) fun _ _ _ hi hg hs => hi.step hg hs
  intro out s' hs reqId dispatchMeta hd
  obtain ⟨ha, _, hrequests⟩ := step_schedule hs
  rw [dispatched_eq ha] at hd
  rw [hrequests]
  cases he : out.entry? reqId with
  | none =>
    rw [he] at hd
    cases hd
  | some e =>
    obtain ⟨hmem, rfl⟩ := SchedulerOutput.mem_of_entry? he
    obtain ⟨hphase, hmatched⟩ := ha.2.1 e hmem
    cases hold : s.requestsMeta.get? e.reqId with
    | none =>
      rw [hold, he] at hd
      cases hd
    | some reqMeta =>
      rw [hold, he] at hd
      obtain rfl := Option.some.inj hd
      exact ⟨reqMeta, rfl, (hcurrent _ reqMeta hold).inTable hphase hmatched⟩

end Run

/-- A prompt is preempted after its first chunk, and resumed on a table of which the first
`numComputedTokens` tokens are hit in HBM. -/
def preemptedPrompt (numComputedTokens : Nat) : List (Event Nat Nat Nat) :=
  [.matched fiveTokens 0 missAll, .schedule (scheduleNew [1, 2] 3), .preempt 0,
    .matched fiveTokens numComputedTokens missAll]

/-- One block is hit on the way back, so the data is new. -/
theorem inTables_preemptedPrompt : ∃ s, StepSystem.Reach (step Config.pairs) (RenewsMeta .pairs) .initial s ∧
    ((dispatched .pairs s (scheduleResumed [1, 7, 9] 3) 0).map fun d => d.dumpBlockIds) = some ([2], [7]) ∧
      InTables .pairs s := by
  have hrun : (StepSystem.run (StepSystem.checked (fun s e => decide (RenewsMeta .pairs s e))
      (step .pairs)) .initial (preemptedPrompt 2)).any fun s =>
        ((dispatched .pairs s (scheduleResumed [1, 7, 9] 3) 0).map fun d => d.dumpBlockIds) = some ([2], [7]) := by
    decide +kernel
  obtain ⟨s, hs, he⟩ := (Option.any_eq_true _ _).mp hrun
  have hreach := StepSystem.Reach.start.checked (fun s e he => of_decide_eq_true he) hs
  exact ⟨s, hreach, of_decide_eq_true he, inTables_of_renewsMeta hreach⟩

/-- All blocks are hit on the way back, another request having computed the second one: the
dump takes it from the table before the preemption. -/
theorem not_inTables_preemptedPrompt : ¬ ∀ s : State Nat Nat,
    StepSystem.Reach (step Config.pairs) (fun _ _ => True) .initial s → InTables Config.pairs s := by
  intro hall
  have hrun : (StepSystem.run (step Config.pairs) .initial (preemptedPrompt 4)).any fun s =>
      ((dispatched .pairs s (scheduleResumed [1, 7, 9] 1) 0).any fun d => d.dumpBlockIds = ([2], [2])) ∧
        ((step .pairs s (.schedule (scheduleResumed [1, 7, 9] 1))).any fun s' =>
          (s'.requests 0).blockTable = [1, 7, 9]) := by decide +kernel
  obtain ⟨s, hs, he⟩ := (Option.any_eq_true _ _).mp hrun
  obtain ⟨hdispatched, hstep⟩ := of_decide_eq_true he
  obtain ⟨d, hd, hdump⟩ := (Option.any_eq_true _ _).mp hdispatched
  obtain ⟨s', hs', htable⟩ := (Option.any_eq_true _ _).mp hstep
  have hreach : StepSystem.Reach (step Config.pairs) (fun _ _ => True) .initial s :=
    StepSystem.Reach.start.run (fun _ _ _ => trivial) hs
  obtain ⟨reqMeta, _, hin⟩ := hall s hreach _ s' hs' 0 d hd
  have hpair : (2, 2) ∈ d.dumpBlockIds.1.zip d.dumpBlockIds.2 := by
    rw [of_decide_eq_true hdump]
    decide
  obtain ⟨j, _, hj⟩ := hin.2 _ hpair
  have hmem : 2 ∈ [1, 7, 9] := of_decide_eq_true htable ▸ List.mem_of_getElem? hj
  exact absurd hmem (by decide)

end UnifiedCache.Connector
