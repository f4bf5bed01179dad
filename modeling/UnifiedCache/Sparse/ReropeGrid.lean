import UnifiedCache.Sparse.ReropeKernels

/-! The programs of the attention kernels find the sequence that their block of queries belongs to, and
together they have a row for each token and head of the batch and for no others. -/

namespace UnifiedCache.Sparse.Rerope

/-- The first target that belongs to a sequence. -/
def firstTarget (queryStartLen : Nat → Nat) (blockQ : Nat) (useQBlockMode : Bool) (seqIdx : Nat) : Nat :=
  if useQBlockMode then queryStartLen seqIdx / blockQ + seqIdx else queryStartLen seqIdx

section FindSeqIdx

variable {queryStartLen : Nat → Nat} {target numSeqs blockQ : Nat} {mode : Bool}

/-- What lies before `left` begins at the target or before it, what lies behind `right` after it. -/
structure Bracket (queryStartLen : Nat → Nat) (target numSeqs blockQ : Nat) (mode : Bool) (s : Nat × Nat) : Prop where
  le : s.1 ≤ s.2
  right_le : s.2 ≤ numSeqs
  left : ∀ i < s.1, firstTarget queryStartLen blockQ mode i ≤ target
  right : ∀ i, s.2 ≤ i → i < numSeqs → target < firstTarget queryStartLen blockQ mode i

/-- A turn of the search, with the two halves in terms of `firstTarget`. -/
def halve (queryStartLen : Nat → Nat) (target blockQ : Nat) (mode : Bool) (s : Nat × Nat) : Nat × Nat :=
  if firstTarget queryStartLen blockQ mode ((s.1 + s.2) / 2) ≤ target then ((s.1 + s.2) / 2 + 1, s.2)
  else (s.1, (s.1 + s.2) / 2)

theorem Bracket.halve (hmono : ∀ i j, i ≤ j → j < numSeqs →
      firstTarget queryStartLen blockQ mode i ≤ firstTarget queryStartLen blockQ mode j)
    {s : Nat × Nat} (h : Bracket queryStartLen target numSeqs blockQ mode s) (hlt : s.1 < s.2) :
    Bracket queryStartLen target numSeqs blockQ mode (halve queryStartLen target blockQ mode s) ∧
      (Rerope.halve queryStartLen target blockQ mode s).2 - (Rerope.halve queryStartLen target blockQ mode s).1 <
        s.2 - s.1 := by
  have hle := h.right_le
  unfold Rerope.halve
  split_ifs with hmid
  · refine ⟨⟨?_, hle, fun i hi => ?_, h.right⟩, ?_⟩
    · change (s.1 + s.2) / 2 + 1 ≤ s.2
      omega
    · exact (hmono i _ (Nat.le_of_lt_succ hi) (by omega)).trans hmid
    · change s.2 - ((s.1 + s.2) / 2 + 1) < s.2 - s.1
      omega
  · refine ⟨⟨?_, ?_, h.left, fun i hi hin => ?_⟩, ?_⟩
    · change s.1 ≤ (s.1 + s.2) / 2
      omega
    · change (s.1 + s.2) / 2 ≤ numSeqs
      omega
    · exact (Nat.lt_of_not_le hmid).trans_le (hmono _ i hi hin)
    · change (s.1 + s.2) / 2 - s.1 < s.2 - s.1
      omega

theorem findSeqIdx_spec (hmono : ∀ i j, i ≤ j → j < numSeqs →
      firstTarget queryStartLen blockQ mode i ≤ firstTarget queryStartLen blockQ mode j)
    (hn : 0 < numSeqs) (hzero : firstTarget queryStartLen blockQ mode 0 ≤ target) :
    ∃ s < numSeqs, findSeqIdx queryStartLen target numSeqs blockQ mode = some s ∧
      firstTarget queryStartLen blockQ mode s ≤ target ∧
      ∀ i, s < i → i < numSeqs → target < firstTarget queryStartLen blockQ mode i := by
  have hstart : Bracket queryStartLen target numSeqs blockQ mode (0, numSeqs) :=
    ⟨Nat.zero_le _, le_rfl, fun i hi => absurd hi (Nat.not_lt_zero i), fun i hi hlt => absurd hlt hi.not_gt⟩
  obtain ⟨t, hloop, hinv, hstop⟩ : ∃ t, whileLoop (fun s : Nat × Nat => some (decide (s.1 < s.2)))
      (fun s => some (halve queryStartLen target blockQ mode s)) (numSeqs + 1) (0, numSeqs) = some t ∧
      Bracket queryStartLen target numSeqs blockQ mode t ∧ some (decide (t.1 < t.2)) = some false := by
    refine whileLoop_spec _ (fun s => s.2 - s.1) (fun s hs => ?_) hstart (Nat.lt_succ_self _)
    by_cases hlt : s.1 < s.2
    · exact .inr ⟨congrArg some (decide_eq_true hlt), _, rfl, hs.halve hmono hlt⟩
    · exact .inl (congrArg some (decide_eq_false hlt))
  obtain ⟨left, right⟩ := t
  have hend : left = right := by
    have hge : ¬left < right := by simpa using hstop
    exact Nat.le_antisymm hinv.le (Nat.le_of_not_lt hge)
  subst hend
  have hpos : 0 < left := by
    by_contra h0
    exact absurd hzero (hinv.right 0 (by omega) hn).not_ge
  obtain ⟨s, rfl⟩ := Nat.exists_eq_add_one_of_ne_zero hpos.ne'
  refine ⟨s, hinv.right_le, ?_, hinv.left s (Nat.lt_succ_self s), fun i hi => hinv.right i hi⟩
  exact congrArg (Option.bind · fun s : Nat × Nat => s.1.ppred) hloop

end FindSeqIdx

/-- A token of a sequence. -/
structure Args.InSeq {K : Type*} (a : Args K) (seqIdx token : Nat) : Prop where
  seq_lt : seqIdx < a.numSeqs
  le : a.cuSeqlensQ seqIdx ≤ token
  lt : token < a.cuSeqlensQ (seqIdx + 1)

/-- The row of a token and a head. -/
def Args.rowAt {K : Type*} (a : Args K) (seqIdx token head : Nat) : Row where
  seqIdx := seqIdx
  queryLen := a.cuSeqlensQ (seqIdx + 1) - a.cuSeqlensQ seqIdx
  queryPos := token - a.cuSeqlensQ seqIdx
  token := token
  kvHeadIdx := head / a.numQueriesPerKv
  head := head

section Batch

variable {K : Type*} {a : Args K}

theorem Args.Batch.cu_le (hb : a.Batch) {i j : Nat} (hij : i ≤ j) (hj : j ≤ a.numSeqs) :
    a.cuSeqlensQ i ≤ a.cuSeqlensQ j := by
  induction j, hij using Nat.le_induction with
  | base => exact le_rfl
  | succ j hij ih => exact (ih (by omega)).trans (hb.mono j (by omega))

theorem Args.Batch.firstTarget_le (hb : a.Batch) (mode : Bool) {i j : Nat} (hij : i ≤ j) (hj : j ≤ a.numSeqs) :
    firstTarget a.cuSeqlensQ a.blockQ mode i ≤ firstTarget a.cuSeqlensQ a.blockQ mode j := by
  have hcu := hb.cu_le hij hj
  cases mode with
  | false => exact hcu
  | true => exact Nat.add_le_add (Nat.div_le_div_right hcu) hij

theorem Args.Batch.firstTarget_zero (hb : a.Batch) (mode : Bool) : firstTarget a.cuSeqlensQ a.blockQ mode 0 = 0 := by
  cases mode <;> simp [firstTarget, hb.start]

theorem Args.Batch.findSeqIdx_spec (hb : a.Batch) (hn : 0 < a.numSeqs) (target : Nat) (mode : Bool) :
    ∃ s < a.numSeqs, findSeqIdx a.cuSeqlensQ target a.numSeqs a.blockQ mode = some s ∧
      firstTarget a.cuSeqlensQ a.blockQ mode s ≤ target ∧
      ∀ i, s < i → i < a.numSeqs → target < firstTarget a.cuSeqlensQ a.blockQ mode i :=
  Rerope.findSeqIdx_spec (fun _ _ hij hj => hb.firstTarget_le mode hij hj.le) hn
    ((hb.firstTarget_zero mode).trans_le (Nat.zero_le _))

theorem Args.Batch.findSeqIdx_eq (hb : a.Batch) {target s : Nat} {mode : Bool} (hs : s < a.numSeqs)
    (hle : firstTarget a.cuSeqlensQ a.blockQ mode s ≤ target)
    (hlt : target < firstTarget a.cuSeqlensQ a.blockQ mode (s + 1)) :
    findSeqIdx a.cuSeqlensQ target a.numSeqs a.blockQ mode = some s := by
  obtain ⟨s', hs', hfind, hle', hlater⟩ := hb.findSeqIdx_spec (Nat.zero_lt_of_lt hs) target mode
  rcases Nat.lt_trichotomy s s' with h | rfl | h
  · have hge := hb.firstTarget_le mode (show s + 1 ≤ s' from h) hs'.le
    omega
  · exact hfind
  · have hlt := hlater s h hs
    omega

theorem Args.Batch.numQueryHeads_eq (hb : a.Batch) : a.numKvHeads * a.numQueriesPerKv = a.numQueryHeads :=
  Nat.mul_div_cancel' hb.heads

/-- The first program of a block of queries that belongs to a sequence. -/
theorem Args.Batch.place_eq (hb : a.Batch) {s b : Nat} (hs : s < a.numSeqs)
    (hbq : 0 < a.blockQ) (hlen : b * a.blockQ < a.cuSeqlensQ (s + 1) - a.cuSeqlensQ s) :
    a.cuSeqlensQ s / a.blockQ + s + b < a.totalNumQBlocks ∧
      a.place (a.cuSeqlensQ s / a.blockQ + s + b) = some
        { seqIdx := s
          qBlockLocalIdx := b
          startIndex := a.cuSeqlensQ s
          queryLen := a.cuSeqlensQ (s + 1) - a.cuSeqlensQ s } := by
  have hblocks : a.cuSeqlensQ s / a.blockQ + b ≤ a.cuSeqlensQ (s + 1) / a.blockQ := by
    rw [← Nat.add_mul_div_right _ _ hbq]
    exact Nat.div_le_div_right (by omega)
  constructor
  · have htokens := Nat.div_le_div_right (c := a.blockQ) (hb.cu_le (show s + 1 ≤ a.numSeqs from hs) le_rfl)
    rw [hb.tokens] at htokens
    rw [totalNumQBlocks]
    omega
  · have hfind : findSeqIdx a.cuSeqlensQ (a.cuSeqlensQ s / a.blockQ + s + b) a.numSeqs a.blockQ true = some s := by
      refine hb.findSeqIdx_eq hs ?_ ?_
      · rw [firstTarget, if_pos rfl]
        omega
      · rw [firstTarget, if_pos rfl]
        omega
    rw [place, hfind, Option.map_some, Nat.add_sub_cancel_left]

theorem Args.Batch.place_spec (hb : a.Batch) (hn : 0 < a.numSeqs) (g : Nat) :
    ∃ p, a.place g = some p ∧ p.seqIdx < a.numSeqs ∧ p.startIndex = a.cuSeqlensQ p.seqIdx ∧
      p.queryLen = a.cuSeqlensQ (p.seqIdx + 1) - a.cuSeqlensQ p.seqIdx ∧
      g = a.cuSeqlensQ p.seqIdx / a.blockQ + p.seqIdx + p.qBlockLocalIdx := by
  obtain ⟨s, hs, hfind, hle, -⟩ := hb.findSeqIdx_spec hn g true
  rw [firstTarget, if_pos rfl] at hle
  refine ⟨_, by rw [place, hfind, Option.map_some], hs, rfl, rfl, ?_⟩
  exact (Nat.add_sub_cancel' hle).symm

/-- There is a row for every token and head. -/
theorem Args.Batch.exists_row (hb : a.Batch) (hbq : 0 < a.blockQ) (hq : 0 < a.numQueriesPerKv) {s token head : Nat}
    (ht : a.InSeq s token) (hh : head < a.numQueryHeads) :
    ∃ g < a.totalNumQBlocks, ∃ kv < a.numKvHeads, ∃ m < blockM, ∃ p, a.place g = some p ∧
      ¬p.queryLen ≤ p.qBlockLocalIdx * a.blockQ ∧ p.row a kv m = a.rowAt s token head := by
  have hle := ht.le
  have hlt := ht.lt
  obtain ⟨hg, hplace⟩ := hb.place_eq (b := (token - a.cuSeqlensQ s) / a.blockQ) ht.seq_lt hbq
    ((Nat.div_mul_le_self _ _).trans_lt (by omega))
  have hkv : head / a.numQueriesPerKv < a.numKvHeads := by
    rw [Nat.div_lt_iff_lt_mul hq, hb.numQueryHeads_eq]
    exact hh
  have hm : (token - a.cuSeqlensQ s) % a.blockQ * a.numQueriesPerKv + head % a.numQueriesPerKv < blockM := by
    have hrow := Nat.mod_lt (token - a.cuSeqlensQ s) hbq
    have hhead := Nat.mod_lt head hq
    have hmul := Nat.mul_le_mul_right a.numQueriesPerKv (show _ + 1 ≤ a.blockQ from hrow)
    have htile : a.blockQ * a.numQueriesPerKv ≤ blockM := Nat.div_mul_le_self _ _
    rw [Nat.add_one_mul] at hmul
    omega
  refine ⟨_, hg, _, hkv, _, hm, _, hplace, ?_, ?_⟩
  · have hmul := Nat.div_mul_le_self (token - a.cuSeqlensQ s) a.blockQ
    dsimp only
    omega
  · have hdiv : ((token - a.cuSeqlensQ s) % a.blockQ * a.numQueriesPerKv + head % a.numQueriesPerKv) /
        a.numQueriesPerKv = (token - a.cuSeqlensQ s) % a.blockQ := by
      rw [Nat.mul_comm, Nat.mul_add_div hq, Nat.div_eq_of_lt (Nat.mod_lt head hq), Nat.add_zero]
    have hmod : ((token - a.cuSeqlensQ s) % a.blockQ * a.numQueriesPerKv + head % a.numQueriesPerKv) %
        a.numQueriesPerKv = head % a.numQueriesPerKv := by
      rw [Nat.mul_comm, Nat.mul_add_mod, Nat.mod_mod]
    have hpos : (token - a.cuSeqlensQ s) / a.blockQ * a.blockQ + (token - a.cuSeqlensQ s) % a.blockQ =
        token - a.cuSeqlensQ s := Nat.div_add_mod' _ _
    have hhead : head / a.numQueriesPerKv * a.numQueriesPerKv + head % a.numQueriesPerKv = head := Nat.div_add_mod' _ _
    rw [Place.row, rowAt, hdiv, hmod, hpos, hhead]
    exact Row.mk.injEq .. |>.mpr ⟨rfl, rfl, rfl, Nat.add_sub_cancel' hle, rfl, rfl⟩

/-- Each block of queries of a sequence is the part of one program. -/
theorem Args.Batch.existsUnique_program (hb : a.Batch) (hbq : 0 < a.blockQ) {s b : Nat} (hs : s < a.numSeqs)
    (hlen : b * a.blockQ < a.cuSeqlensQ (s + 1) - a.cuSeqlensQ s) :
    ∃! g, g < a.totalNumQBlocks ∧ ∃ p, a.place g = some p ∧ p.seqIdx = s ∧ p.qBlockLocalIdx = b := by
  obtain ⟨hg, hplace⟩ := hb.place_eq hs hbq hlen
  refine ⟨_, ⟨hg, _, hplace, rfl, rfl⟩, ?_⟩
  rintro g ⟨-, p, hp, rfl, rfl⟩
  obtain ⟨p', hplace', -, -, -, heq⟩ := hb.place_spec (Nat.zero_lt_of_lt hs) g
  obtain rfl : p' = p := Option.some_injective _ (hplace'.symm.trans hp)
  exact heq

theorem existsUnique_program_three : ∃ a : Args Nat, a.totalNumQBlocks = 3 ∧
    ∃! g, g < a.totalNumQBlocks ∧ ∃ p, a.place g = some p ∧ p.seqIdx = 0 ∧ p.qBlockLocalIdx = 1 := by
  let cache : Cache Nat := ⟨id, ⟨4, 2, 2, 1⟩, false⟩
  let a : Args Nat := {
    q := ⟨id, 16, 1, false⟩, k := cache, q2 := ⟨id, 16, 1, false⟩, k2 := cache, v := cache
    outStride0 := 16, outStride1 := 1, numTokens := 2, numQueryHeads := 16, numKvHeads := 1, headSize := 1
    blockSize := 2, elementSize := 2, cuSeqlensQ := fun i => 2 * i, maxSeqlenQ := 2, sequsedK := fun _ => 5, numSeqs := 1
    softmaxScale := 1, causal := true, reropeWindow := 2, windowSize := -1, blockTable := id, blockTableStride := 3
    softcap := 0, qDescale := none, kDescale := 1, vDescale := 1, alibiSlopes := none }
  have hb : a.Batch := by
    refine ⟨rfl, by decide, rfl, by decide, by decide, by decide, rfl, ?_⟩
    intro t ht t' ht' h hh h' hh' d hd d' hd' heq
    change t * 16 + h * 1 + d = t' * 16 + h' * 1 + d' at heq
    change h < 16 at hh
    change h' < 16 at hh'
    change d < 1 at hd
    change d' < 1 at hd'
    omega
  exact ⟨a, by decide, hb.existsUnique_program (by decide) (by decide) (by decide)⟩

end Batch

end UnifiedCache.Sparse.Rerope
