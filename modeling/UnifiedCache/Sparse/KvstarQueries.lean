import UnifiedCache.Lib.Collections

/-! The queries of the last prompt tokens that KVStar saves for the first retrieval, over the
chunks in which a prompt is prefilled. -/

namespace UnifiedCache.Sparse.KvstarMultiStep

/-- Under which `standby_query_group` has a group: `"prefill"`, or `"decode"` with its first step. -/
inductive Record where
  | prefill
  | decode (step : Int)
deriving DecidableEq

inductive ReqStage where
  | prefill
  | decode
deriving DecidableEq

structure ReqMeta where
  numPromptTokens : Nat
  numOutputTokens : Nat
  numScheduledTokens : Nat
  numComputedTokens : Nat
  queryStartLoc : Nat
  queryLen : Nat
  retrievalStride : Nat

/-- The integers from one up to another. -/
def intRange (start stop : Int) : List Int := (List.range (stop - start).toNat).map fun i : Nat => start + i

namespace ReqMeta

variable (reqMeta : ReqMeta)

def step : Nat := reqMeta.numOutputTokens

def stage : ReqStage := if reqMeta.numOutputTokens > 0 then .decode else .prefill

def queryOffloadInfo : Option (List Int) :=
  if reqMeta.stage = .prefill then
    let curStepParsePromptLenEndPos := reqMeta.numComputedTokens + reqMeta.numScheduledTokens
    if (curStepParsePromptLenEndPos : Int) < reqMeta.numPromptTokens - reqMeta.retrievalStride then none
    else
      let validTokenEndPos : Int := reqMeta.retrievalStride - (reqMeta.numPromptTokens - curStepParsePromptLenEndPos)
      let validTokenNum := min validTokenEndPos reqMeta.numScheduledTokens
      some (intRange (validTokenEndPos - validTokenNum) validTokenEndPos)
  else some [(reqMeta.numOutputTokens % reqMeta.retrievalStride : Nat)]

end ReqMeta

/-- `xs[i] = x`. An index below zero counts from the end. -/
def setItem {α : Type*} (xs : List α) (i : Int) (x : α) : Option (List α) :=
  if 0 ≤ i ∧ i < xs.length then some (xs.set i.toNat x)
  else if -xs.length ≤ i ∧ i < 0 then some (xs.set (i + xs.length).toNat x)
  else none

abbrev Standby (Query : Type*) : Type _ := Dict Record (List (Option Query))

variable {Query : Type*}

/-- `tokens_to_offload[query_relative_idx]` fails beyond the slice. -/
def saveToStandby (retrievalStride : Nat) (standby : Standby Query) (groupRecord : Record) (inQueryGroupIdx : Int)
    (queryRelativeIdx : Nat) (tokensToOffload : List Query) : Option (Standby Query) := do
  let group := (standby.get? groupRecord).getD (List.replicate retrievalStride none)
  let token ← tokensToOffload[queryRelativeIdx]?
  let group ← setItem group inQueryGroupIdx (some token)
  some (standby.set groupRecord group)

/-- The loop over `enumerate(chunk_prefill_query_offload_info)`. -/
def saveAll (retrievalStride : Nat) (tokensToOffload : List Query) :
    List Int → Nat → Standby Query → Option (Standby Query)
  | [], _, standby => some standby
  | inQueryGroupIdx :: info, queryRelativeIdx, standby =>
    (saveToStandby retrievalStride standby .prefill inQueryGroupIdx queryRelativeIdx tokensToOffload).bind
      (saveAll retrievalStride tokensToOffload info (queryRelativeIdx + 1))

def offloadPrefillQuery (reqMeta : ReqMeta) (query : List Query) (standby : Standby Query) :
    Option (Standby Query) :=
  match reqMeta.queryOffloadInfo with
  | none | some [] => some standby
  | some info =>
    if reqMeta.queryLen < info.length then none
    else
      saveAll reqMeta.retrievalStride
        (slice query (reqMeta.queryStartLoc + reqMeta.queryLen - info.length)
          (reqMeta.queryStartLoc + reqMeta.queryLen)) info 0 standby

/-- The `attention_begin` of one layer in the steps of a prefill, each with the queries of its batch. -/
def prefillSteps : List (ReqMeta × List Query) → Standby Query → Option (Standby Query)
  | [], standby => some standby
  | (reqMeta, query) :: steps, standby =>
    (offloadPrefillQuery reqMeta query standby).bind (prefillSteps steps)

section Prefill

variable (numPromptTokens retrievalStride : Nat) (token : Nat → Query)

/-- The steps take the prompt from some computed tokens to its end, and each finds in its batch the
queries of the tokens that it computes. -/
def Chunks : Nat → List (ReqMeta × List Query) → Prop
  | computed, [] => computed = numPromptTokens
  | computed, (reqMeta, query) :: steps =>
    reqMeta.numPromptTokens = numPromptTokens ∧ reqMeta.retrievalStride = retrievalStride ∧
      reqMeta.numOutputTokens = 0 ∧ reqMeta.numComputedTokens = computed ∧
      reqMeta.queryLen = reqMeta.numScheduledTokens ∧
      slice query reqMeta.queryStartLoc (reqMeta.queryStartLoc + reqMeta.queryLen) =
        (List.range' computed reqMeta.numScheduledTokens).map token ∧
      Chunks (computed + reqMeta.numScheduledTokens) steps

/-- The positions from one up to another that are among the last of the prompt. -/
def window (start stop : Nat) : List Nat :=
  List.range' (max start (numPromptTokens - retrievalStride)) (stop - max start (numPromptTokens - retrievalStride))

/-- Where the query of a prompt position goes. -/
def groupIdx (position : Nat) : Int := position - (numPromptTokens - retrievalStride : Int)

/-- A group with the queries of the positions from one up to another. -/
def groupOf (start stop : Nat) : List (Option Query) :=
  (List.range retrievalStride).map fun i : Nat =>
    let position : Int := (numPromptTokens - retrievalStride : Int) + i
    if start ≤ position ∧ position < stop then some (token position.toNat) else none

theorem mem_window {start stop position : Nat} :
    position ∈ window numPromptTokens retrievalStride start stop ↔
      start ≤ position ∧ numPromptTokens - retrievalStride ≤ position ∧ position < stop := by
  rw [window, List.mem_range'_1]
  omega

theorem window_append {start mid stop : Nat} (hsm : start ≤ mid) (hms : mid ≤ stop) :
    window numPromptTokens retrievalStride start mid ++ window numPromptTokens retrievalStride mid stop =
      window numPromptTokens retrievalStride start stop := by
  by_cases h : mid ≤ numPromptTokens - retrievalStride
  · have hempty : mid - max start (numPromptTokens - retrievalStride) = 0 := by omega
    rw [window, hempty, List.range'_zero, List.nil_append, window, window, max_eq_right h,
      max_eq_right (hsm.trans h)]
  · have happend := @List.range'_append_1 (max start (numPromptTokens - retrievalStride))
      (mid - max start (numPromptTokens - retrievalStride)) (stop - mid)
    rw [show max start (numPromptTokens - retrievalStride) + (mid - max start (numPromptTokens - retrievalStride)) = mid by
        omega,
      show mid - max start (numPromptTokens - retrievalStride) + (stop - mid) =
        stop - max start (numPromptTokens - retrievalStride) by omega] at happend
    rw [window, window, window, max_eq_left (not_le.mp h).le]
    exact happend

theorem length_window {start stop : Nat} (h : start ≤ stop) (hstop : stop = numPromptTokens) :
    (window numPromptTokens retrievalStride start stop).length = min retrievalStride (numPromptTokens - start) := by
  rw [window, List.length_range']
  omega

variable {numPromptTokens retrievalStride}

/-- The slots of a chunk are those of its positions in the window. -/
theorem queryOffloadInfo_eq {reqMeta : ReqMeta} (hout : reqMeta.numOutputTokens = 0) :
    reqMeta.queryOffloadInfo.getD [] =
      (window reqMeta.numPromptTokens reqMeta.retrievalStride reqMeta.numComputedTokens
        (reqMeta.numComputedTokens + reqMeta.numScheduledTokens)).map
          (groupIdx reqMeta.numPromptTokens reqMeta.retrievalStride) := by
  have hstage : reqMeta.stage = .prefill := by rw [ReqMeta.stage, hout]; rfl
  rw [ReqMeta.queryOffloadInfo, if_pos hstage]
  dsimp only
  split_ifs with hbefore
  · have hempty : reqMeta.numComputedTokens + reqMeta.numScheduledTokens -
        max reqMeta.numComputedTokens (reqMeta.numPromptTokens - reqMeta.retrievalStride) = 0 := by omega
    rw [window, hempty]
    rfl
  · rw [Option.getD_some, intRange, window]
    apply List.ext_getElem
    · simp only [List.length_map, List.length_range, List.length_range']
      omega
    · intro i hi _
      simp only [List.length_map, List.length_range] at hi
      simp only [List.getElem_map, List.getElem_range, List.getElem_range', groupIdx]
      omega

theorem length_groupOf (start stop : Nat) :
    (groupOf numPromptTokens retrievalStride token start stop).length = retrievalStride := by
  rw [groupOf, List.length_map, List.length_range]

theorem getElem_groupOf {start stop i : Nat} (hi : i < (groupOf numPromptTokens retrievalStride token start stop).length) :
    (groupOf numPromptTokens retrievalStride token start stop)[i] =
      if start ≤ (numPromptTokens - retrievalStride : Int) + i ∧ (numPromptTokens - retrievalStride : Int) + i < stop then
        some (token ((numPromptTokens - retrievalStride : Int) + i).toNat)
      else none := by
  simp only [groupOf, List.getElem_map, List.getElem_range]

theorem groupOf_eq_replicate {start stop : Nat} (h : window numPromptTokens retrievalStride start stop = []) :
    groupOf numPromptTokens retrievalStride token start stop = List.replicate retrievalStride none := by
  have hnone : stop - max start (numPromptTokens - retrievalStride) = 0 := by
    simpa [window] using h
  apply List.ext_getElem
  · rw [length_groupOf, List.length_replicate]
  · intro i hi _
    rw [getElem_groupOf, List.getElem_replicate, if_neg]
    omega

/-- The query of a position is the next one of the group. -/
theorem setItem_groupOf {start position : Nat} (hstart : start ≤ position)
    (hwindow : numPromptTokens - retrievalStride ≤ position) (hlt : position < numPromptTokens) :
    setItem (groupOf numPromptTokens retrievalStride token start position)
        (groupIdx numPromptTokens retrievalStride position) (some (token position)) =
      some (groupOf numPromptTokens retrievalStride token start (position + 1)) := by
  have hidx : 0 ≤ groupIdx numPromptTokens retrievalStride position ∧
      groupIdx numPromptTokens retrievalStride position < retrievalStride := by
    rw [groupIdx]
    omega
  rw [setItem, length_groupOf, if_pos hidx, Option.some_inj]
  apply List.ext_getElem
  · rw [List.length_set, length_groupOf, length_groupOf]
  · intro i hi _
    rw [List.getElem_set, getElem_groupOf, getElem_groupOf]
    have hiff : (groupIdx numPromptTokens retrievalStride position).toNat = i ↔
        (numPromptTokens - retrievalStride : Int) + i = position := by
      rw [groupIdx]
      omega
    by_cases heq : (numPromptTokens - retrievalStride : Int) + i = position
    · rw [if_pos (hiff.mpr heq), if_pos (by omega), heq, Int.toNat_natCast]
    · rw [if_neg (hiff.not.mpr heq)]
      apply if_congr _ rfl rfl
      omega

variable (numPromptTokens retrievalStride) in
/-- What the standby group has when the steps are at a position. -/
structure Saved (start stop : Nat) (standby : Standby Query) : Prop where
  group : (standby.get? .prefill).getD (List.replicate retrievalStride none) =
    groupOf numPromptTokens retrievalStride token start stop
  isSome : (standby.get? .prefill).isSome ↔ window numPromptTokens retrievalStride start stop ≠ []

theorem groupOf_congr {start stop stop' : Nat}
    (h : max stop (numPromptTokens - retrievalStride) = max stop' (numPromptTokens - retrievalStride)) :
    groupOf numPromptTokens retrievalStride token start stop = groupOf numPromptTokens retrievalStride token start stop' := by
  apply List.ext_getElem
  · rw [length_groupOf, length_groupOf]
  · intro i hi _
    rw [getElem_groupOf, getElem_groupOf]
    apply if_congr _ rfl rfl
    omega

variable {token}

theorem saveAll_range' {start a k queryRelativeIdx : Nat} {tokensToOffload : List Query} {standby : Standby Query}
    (hstart : start ≤ a) (hwindow : numPromptTokens - retrievalStride ≤ a) (hend : a + k ≤ numPromptTokens)
    (htokens : ∀ j < k, tokensToOffload[queryRelativeIdx + j]? = some (token (a + j)))
    (hgroup : (standby.get? .prefill).getD (List.replicate retrievalStride none) =
      groupOf numPromptTokens retrievalStride token start a) :
    ∃ standby', saveAll retrievalStride tokensToOffload
        ((List.range' a k).map (groupIdx numPromptTokens retrievalStride)) queryRelativeIdx standby = some standby' ∧
      (standby'.get? .prefill).getD (List.replicate retrievalStride none) =
        groupOf numPromptTokens retrievalStride token start (a + k) ∧
      ((standby'.get? .prefill).isSome ↔ k ≠ 0 ∨ (standby.get? .prefill).isSome) := by
  induction k generalizing a queryRelativeIdx standby with
  | zero => exact ⟨standby, rfl, hgroup, by simp⟩
  | succ k ih =>
    have hsave : saveToStandby retrievalStride standby .prefill (groupIdx numPromptTokens retrievalStride a)
        queryRelativeIdx tokensToOffload =
          some (standby.set .prefill (groupOf numPromptTokens retrievalStride token start (a + 1))) := by
      have htoken : tokensToOffload[queryRelativeIdx]? = some (token a) := htokens 0 (Nat.succ_pos k)
      rw [saveToStandby, hgroup]
      simp only [htoken, setItem_groupOf token hstart hwindow (by omega), Option.bind_eq_bind, Option.bind_some]
    have hget : (standby.set .prefill (groupOf numPromptTokens retrievalStride token start (a + 1))).get? .prefill =
        some (groupOf numPromptTokens retrievalStride token start (a + 1)) := by
      rw [Dict.get?_set, if_pos rfl]
    have hrest : ∀ j < k, tokensToOffload[queryRelativeIdx + 1 + j]? = some (token (a + 1 + j)) := by
      intro j hj
      have hj' := htokens (j + 1) (by omega)
      rwa [← Nat.add_assoc, Nat.add_right_comm, ← Nat.add_assoc, Nat.add_right_comm a] at hj'
    have hgroup₁ : ((standby.set .prefill (groupOf numPromptTokens retrievalStride token start (a + 1))).get? .prefill).getD
        (List.replicate retrievalStride none) = groupOf numPromptTokens retrievalStride token start (a + 1) := by
      rw [hget, Option.getD_some]
    obtain ⟨standby', hall, hgroup', hsome⟩ := ih (by omega) (by omega) (by omega) hrest hgroup₁
    refine ⟨standby', ?_, ?_, ?_⟩
    · rw [List.range'_succ, List.map_cons, saveAll, hsave, Option.bind_some]
      exact hall
    · rwa [show a + (k + 1) = a + 1 + k by omega]
    · rw [hsome, hget]
      simp

theorem offloadPrefillQuery_eq (reqMeta : ReqMeta) (query : List Query) (standby : Standby Query) :
    offloadPrefillQuery reqMeta query standby =
      if reqMeta.queryOffloadInfo.getD [] = [] then some standby
      else if reqMeta.queryLen < (reqMeta.queryOffloadInfo.getD []).length then none
      else
        saveAll reqMeta.retrievalStride
          (slice query (reqMeta.queryStartLoc + reqMeta.queryLen - (reqMeta.queryOffloadInfo.getD []).length)
            (reqMeta.queryStartLoc + reqMeta.queryLen)) (reqMeta.queryOffloadInfo.getD []) 0 standby := by
  rw [offloadPrefillQuery]
  cases reqMeta.queryOffloadInfo with
  | none => rfl
  | some info =>
    cases info with
    | nil => rfl
    | cons i info => rfl

/-- A chunk saves the queries of its positions in the window. -/
theorem Saved.step {start computed : Nat} {reqMeta : ReqMeta} {query : List Query} {standby : Standby Query}
    (h : Saved numPromptTokens retrievalStride token start computed standby)
    (hprompt : reqMeta.numPromptTokens = numPromptTokens) (hstride : reqMeta.retrievalStride = retrievalStride)
    (hout : reqMeta.numOutputTokens = 0) (hcomputed : reqMeta.numComputedTokens = computed)
    (hlen : reqMeta.queryLen = reqMeta.numScheduledTokens)
    (hquery : slice query reqMeta.queryStartLoc (reqMeta.queryStartLoc + reqMeta.queryLen) =
      (List.range' computed reqMeta.numScheduledTokens).map token)
    (hstart : start ≤ computed) (hend : computed + reqMeta.numScheduledTokens ≤ numPromptTokens) :
    ∃ standby', offloadPrefillQuery reqMeta query standby = some standby' ∧
      Saved numPromptTokens retrievalStride token start
        (computed + reqMeta.numScheduledTokens) standby' := by
  have hinfo := queryOffloadInfo_eq hout
  rw [hprompt, hstride, hcomputed] at hinfo
  have happend := window_append numPromptTokens retrievalStride hstart
    (Nat.le_add_right computed reqMeta.numScheduledTokens)
  rw [offloadPrefillQuery_eq, hinfo]
  by_cases hempty : window numPromptTokens retrievalStride computed (computed + reqMeta.numScheduledTokens) = []
  · rw [hempty, List.map_nil, if_pos rfl]
    rw [hempty, List.append_nil] at happend
    refine ⟨standby, rfl, ?_, ?_⟩
    · rw [h.group]
      apply groupOf_congr
      simp only [window, List.range'_eq_nil_iff] at hempty
      omega
    · rw [h.isSome, happend]
  · have hpos : 0 < computed + reqMeta.numScheduledTokens - max computed (numPromptTokens - retrievalStride) := by
      simp only [window, List.range'_eq_nil_iff] at hempty
      omega
    have hlength : ((window numPromptTokens retrievalStride computed (computed + reqMeta.numScheduledTokens)).map
        (groupIdx numPromptTokens retrievalStride)).length =
          computed + reqMeta.numScheduledTokens - max computed (numPromptTokens - retrievalStride) := by
      rw [List.length_map, window, List.length_range']
    rw [if_neg (by simpa using hempty), hlength, if_neg (by omega), hstride]
    -- The slice ends with the query of the last position.
    have htokens : ∀ j < computed + reqMeta.numScheduledTokens - max computed (numPromptTokens - retrievalStride),
        (slice query (reqMeta.queryStartLoc + reqMeta.queryLen -
          (computed + reqMeta.numScheduledTokens - max computed (numPromptTokens - retrievalStride)))
          (reqMeta.queryStartLoc + reqMeta.queryLen))[0 + j]? =
            some (token (max computed (numPromptTokens - retrievalStride) + j)) := by
      intro j hj
      have hat := congrArg (fun tokens => tokens[max computed (numPromptTokens - retrievalStride) - computed + j]?) hquery
      simp only [getElem?_slice, List.getElem?_map] at hat
      rw [if_pos (by omega), List.getElem?_range' (by omega), Option.map_some] at hat
      rw [getElem?_slice, if_pos (by omega), ← show reqMeta.queryStartLoc + (max computed (numPromptTokens - retrievalStride) -
        computed + j) = reqMeta.queryStartLoc + reqMeta.queryLen - (computed + reqMeta.numScheduledTokens -
          max computed (numPromptTokens - retrievalStride)) + (0 + j) by omega, hat]
      congr 2
      omega
    have hgroup : (standby.get? .prefill).getD (List.replicate retrievalStride none) =
        groupOf numPromptTokens retrievalStride token start (max computed (numPromptTokens - retrievalStride)) := by
      rw [h.group]
      apply groupOf_congr
      omega
    obtain ⟨standby', hall, hgroup', hsome⟩ := saveAll_range' (hstart.trans (le_max_left _ _)) (le_max_right _ _)
      (by omega) htokens hgroup
    refine ⟨standby', hall, ?_, ?_⟩
    · rw [hgroup']
      congr 1
      omega
    · rw [hsome, ← happend]
      simp [hempty, hpos.ne']

theorem Chunks.le {computed : Nat} {steps : List (ReqMeta × List Query)}
    (h : Chunks numPromptTokens retrievalStride token computed steps) : computed ≤ numPromptTokens := by
  induction steps generalizing computed with
  | nil => exact le_of_eq h
  | cons step steps ih =>
    obtain ⟨_, _, _, _, _, _, hrest⟩ := h
    exact (Nat.le_add_right _ _).trans (ih hrest)

theorem Saved.steps {start computed : Nat} {steps : List (ReqMeta × List Query)} {standby : Standby Query}
    (h : Saved numPromptTokens retrievalStride token start computed standby) (hstart : start ≤ computed)
    (hchunks : Chunks numPromptTokens retrievalStride token computed steps) :
    ∃ standby', prefillSteps steps standby = some standby' ∧
      Saved numPromptTokens retrievalStride token start numPromptTokens standby' := by
  induction steps generalizing computed standby with
  | nil => exact ⟨standby, rfl, hchunks ▸ h⟩
  | cons step steps ih =>
    obtain ⟨hprompt, hstride, hout, hcomputed, hlen, hquery, hrest⟩ := hchunks
    obtain ⟨standby₁, hstep, h₁⟩ := h.step hprompt hstride hout hcomputed hlen hquery hstart hrest.le
    obtain ⟨standby₂, hsteps, h₂⟩ := ih h₁ (hstart.trans (Nat.le_add_right _ _)) hrest
    exact ⟨standby₂, by rw [prefillSteps, hstep, Option.bind_some, hsteps], h₂⟩

theorem flatMap_queryOffloadInfo {computed : Nat} {steps : List (ReqMeta × List Query)}
    (hchunks : Chunks numPromptTokens retrievalStride token computed steps) :
    (steps.flatMap fun step => step.1.queryOffloadInfo.getD []) =
      (window numPromptTokens retrievalStride computed numPromptTokens).map (groupIdx numPromptTokens retrievalStride) := by
  induction steps generalizing computed with
  | nil =>
    have hempty : window numPromptTokens retrievalStride computed numPromptTokens = [] := by
      have hcomputed : computed = numPromptTokens := hchunks
      simp only [window, List.range'_eq_nil_iff]
      omega
    rw [List.flatMap_nil, hempty, List.map_nil]
  | cons step steps ih =>
    obtain ⟨hprompt, hstride, hout, hcomputed, _, _, hrest⟩ := hchunks
    rw [List.flatMap_cons, ih hrest, queryOffloadInfo_eq hout, hprompt, hstride, hcomputed, ← List.map_append,
      window_append _ _ (Nat.le_add_right _ _) hrest.le]

theorem window_end {computed : Nat} (h : computed ≤ numPromptTokens) :
    window numPromptTokens retrievalStride computed numPromptTokens =
      List.range' (numPromptTokens - min retrievalStride (numPromptTokens - computed))
        (min retrievalStride (numPromptTokens - computed)) := by
  rw [window]
  congr 1 <;> omega

/-- The slots are those of the last prompt tokens that are computed, each once, and the group has
the queries of these tokens in their slots. -/
theorem offload_exact {computed : Nat} {steps : List (ReqMeta × List Query)}
    (h : Chunks numPromptTokens retrievalStride token computed steps) :
    let slots := steps.flatMap fun step => step.1.queryOffloadInfo.getD []
    let count := min retrievalStride (numPromptTokens - computed)
    slots = (List.range' (numPromptTokens - count) count).map (groupIdx numPromptTokens retrievalStride) ∧
      slots.Nodup ∧ (∀ slot ∈ slots, 0 ≤ slot ∧ slot < retrievalStride) ∧
      ∃ standby, prefillSteps steps Dict.empty = some standby ∧
        standby.get? .prefill =
          if count = 0 then none else some (groupOf numPromptTokens retrievalStride token computed numPromptTokens) := by
  intro slots count
  have hslots : slots = (List.range' (numPromptTokens - count) count).map (groupIdx numPromptTokens retrievalStride) := by
    rw [← window_end h.le]
    exact flatMap_queryOffloadInfo h
  have hempty : window numPromptTokens retrievalStride computed computed = [] := by
    simp only [window, List.range'_eq_nil_iff]
    omega
  have hstart : Saved numPromptTokens retrievalStride token computed computed Dict.empty := by
    constructor
    · rw [Dict.get?_empty, Option.getD_none, groupOf_eq_replicate token hempty]
    · simp [Dict.get?_empty, hempty]
  obtain ⟨standby, hsteps, hsaved⟩ := hstart.steps le_rfl h
  refine ⟨hslots, ?_, ?_, standby, hsteps, ?_⟩
  · rw [hslots]
    apply List.Nodup.map _ List.nodup_range'
    intro p q hpq
    simp only [groupIdx] at hpq
    omega
  · intro slot hslot
    rw [hslots, List.mem_map] at hslot
    obtain ⟨position, hposition, rfl⟩ := hslot
    rw [List.mem_range'_1] at hposition
    rw [groupIdx]
    omega
  · have hsome := hsaved.isSome
    rw [window_end h.le, ne_eq, List.range'_eq_nil_iff] at hsome
    split_ifs with hcount
    · exact Option.not_isSome_iff_eq_none.mp fun hget => hsome.mp hget hcount
    · obtain ⟨group, hget⟩ := Option.isSome_iff_exists.mp (hsome.mpr hcount)
      have hgroup := hsaved.group
      rw [hget, Option.getD_some] at hgroup
      rw [hget, hgroup]

/-- Two chunks of two tokens after one that is computed, with the last three queries saved. -/
theorem offload_exact_twoChunks :
    let steps : List (ReqMeta × List Nat) := [(⟨5, 0, 2, 1, 0, 2, 3⟩, [1, 2]), (⟨5, 0, 2, 3, 1, 2, 3⟩, [9, 3, 4])]
    (steps.flatMap fun step => step.1.queryOffloadInfo.getD []) = [0, 1, 2] ∧
      ∃ standby, prefillSteps steps Dict.empty = some standby ∧
        standby.get? .prefill = some [some 2, some 3, some 4] := by
  intro steps
  have hchunks : Chunks 5 3 id 1 steps := by
    simp [steps, Chunks, slice]
    decide
  obtain ⟨hslots, -, -, standby, hsteps, hget⟩ := offload_exact hchunks
  exact ⟨hslots.trans (by decide), standby, hsteps, hget.trans (by decide)⟩

end Prefill

end UnifiedCache.Sparse.KvstarMultiStep
