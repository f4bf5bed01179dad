import UnifiedCache.Lib.Collections
import UnifiedCache.Lib.Selection

/-! Selecting the blocks of a batch: the windows at both ends and, between them, the blocks with the
highest scores. -/

namespace UnifiedCache.Sparse.SelectTopkBlock

open Selection

/-- `VecProduct`, whose `VectorMean` may write where it reads. -/
structure VecProduct (F : Type*) where
  vectorDot (q k : Nat → F) (headSize : Nat) : F
  vectorMean (q : Nat → F) (vectors mean headSize groupSize : Nat) : Nat → F

structure TopkBlockSelector where
  startWindow : UInt32 := 1
  endWindow : UInt32 := 2

variable {F : Type*}

def validateParameters (q kRepre : Option (Nat → F)) (numBlock kHead qHead numKrepre headSize : UInt32) : Bool :=
  q.isSome && kRepre.isSome && numBlock > 0 && kHead > 0 && qHead > 0 && numKrepre > 0 && headSize > 0

section Scores

variable [Zero F] [Add F] [Max F] (vecProduct : VecProduct F) (lowest : F)

def computeBlockScore (qMean blockBase : Nat → F) (kHead numKrepre headSize : UInt32) : F :=
  (List.range kHead.toNat).foldl (fun blockScore idxHead =>
    let q := fun d => qMean (idxHead * headSize.toNat + d)
    let headBase := fun d => blockBase (idxHead * (numKrepre.toNat * headSize.toNat) + d)
    blockScore + (List.range numKrepre.toNat).foldl (fun maxScore idxNorm =>
      max maxScore (vecProduct.vectorDot q (fun d => headBase (idxNorm * headSize.toNat + d)) headSize.toNat)) lowest) 0

/-- `blockOffset` is a product in `uint32_t`. -/
def computeKQDotScores (qMean kRepre : Nat → F) (kHead numKrepre headSize : UInt32) (idxBlock : Nat) : F :=
  let blockOffset := (kHead * numKrepre * headSize).toNat
  computeBlockScore vecProduct lowest qMean (fun d => kRepre (idxBlock * blockOffset + d)) kHead numKrepre headSize

def computeQHeadMean (q : Nat → F) (kHead qHead headSize : UInt32) : Nat → F :=
  if kHead = qHead then q
  else
    let groupSize := qHead / kHead
    (List.range kHead.toNat).foldl (fun q kIdx =>
      let sourceIdx := UInt32.ofNat kIdx * groupSize
      vecProduct.vectorMean q (sourceIdx * headSize).toNat (UInt32.ofNat kIdx * headSize).toNat headSize.toNat
        groupSize.toNat) q

end Scores

variable (sel : TopkBlockSelector)

section Select

variable [LT F] [DecidableLT F]

/-- The indexes from the start window to the end window, as `stable_sort` leaves them. -/
def sortedMiddle (scores : Nat → F) (numScores : UInt32) : List Nat :=
  (List.range' sel.startWindow.toNat ((numScores - sel.endWindow).toNat - sel.startWindow.toNat)).insertionSort
    fun lhs rhs => ¬ scores rhs > scores lhs

/-- What is written to `topkIndices`, from its first entry on. -/
def topKImpl (scores : Nat → F) (numScores k : UInt32) : List Int32 :=
  if sel.startWindow + sel.endWindow ≥ numScores ∨ k ≥ numScores ∨ k = 0 then
    (List.range numScores.toNat).map Int32.ofNat
  else
    let windows := List.range sel.startWindow.toNat ++
      (List.range sel.endWindow.toNat).map fun i => (numScores - sel.endWindow + UInt32.ofNat i).toNat
    let midCount := (k - sel.startWindow - sel.endWindow).toInt32
    let middle := if midCount > 0 then (sortedMiddle sel scores numScores).take midCount.toInt.toNat else []
    (windows ++ middle).map Int32.ofNat

variable [Zero F] [Add F] [Max F] (vecProduct : VecProduct F) (lowest : F)

/-- What is written to `topkResult`. -/
def selectTopK (q kRepre : Option (Nat → F)) (numBlock kHead qHead numKrepre headSize topkLength : UInt32)
    (topkResult : Option (Nat → Int32)) : List Int32 :=
  if !validateParameters q kRepre numBlock kHead qHead numKrepre headSize || topkResult.isNone || topkLength == 0 then []
  else
    match q, kRepre with
    | some q, some kRepre =>
      let qMean := computeQHeadMean vecProduct q kHead qHead headSize
      topKImpl sel (computeKQDotScores vecProduct lowest qMean kRepre kHead numKrepre headSize) numBlock topkLength
    | _, _ => []

/-- The arguments of `SelectTopKBS`. -/
structure Batch (F : Type*) where
  qCacheVec : List (Option (Nat → F))
  kfCacheVec : List (Option (Nat → F))
  topkCacheVec : List (Option (Nat → Int32))
  numBatch : Nat
  numBlockVec : List UInt32
  kHead : UInt32
  qHead : UInt32
  numKrepre : UInt32
  headSize : UInt32
  topkLengthVec : List UInt32

/-- What is written to each of the results. -/
def selectTopKBS (batch : Batch F) : Option (List (List Int32)) :=
  (List.range batch.numBatch).mapM fun bs =>
    batch.numBlockVec[bs]?.bind fun numBlock =>
    batch.topkLengthVec[bs]?.bind fun topkLength =>
    batch.qCacheVec[bs]?.bind fun q =>
    batch.kfCacheVec[bs]?.bind fun kRepre =>
    batch.topkCacheVec[bs]?.map fun topkResult =>
      selectTopK sel vecProduct lowest q kRepre numBlock batch.kHead batch.qHead batch.numKrepre batch.headSize
        topkLength topkResult

end Select

theorem toInt_ofNat {i : Nat} (hi : i < 2 ^ 32) :
    (Int32.ofNat i).toInt = if i < 2 ^ 31 then (i : Int) else i - 2 ^ 32 := by
  have hsize : Int32.size = 4294967296 := rfl
  rw [Int32.toInt_ofNat', hsize, Int.bmod_def]
  split_ifs <;> omega

section Cases

variable [LT F] [DecidableLT F] {sel : TopkBlockSelector} {scores : Nat → F} {numScores k : UInt32}

theorem sortedMiddle_perm (hle : sel.endWindow.toNat ≤ numScores.toNat) : (sortedMiddle sel scores numScores).Perm
    (List.range' sel.startWindow.toNat (numScores.toNat - sel.endWindow.toNat - sel.startWindow.toNat)) := by
  rw [← UInt32.toNat_sub_of_le _ _ (UInt32.le_iff_toNat_le.mpr hle)]
  exact List.perm_insertionSort _ _

theorem toInt_toInt32 (x : UInt32) :
    x.toInt32.toInt = if x.toNat < 2 ^ 31 then (x.toNat : Int) else x.toNat - 2 ^ 32 := by
  rw [← toInt_ofNat x.toNat_lt, ← UInt32.toInt32_ofNat', UInt32.ofNat_toNat]

theorem toNat_midCount (hk : sel.startWindow.toNat + sel.endWindow.toNat ≤ k.toNat) :
    (k - sel.startWindow - sel.endWindow).toNat = k.toNat - sel.startWindow.toNat - sel.endWindow.toNat := by
  have hstart : (k - sel.startWindow).toNat = k.toNat - sel.startWindow.toNat :=
    UInt32.toNat_sub_of_le _ _ (UInt32.le_iff_toNat_le.mpr (by omega))
  rw [UInt32.toNat_sub_of_le _ _ (UInt32.le_iff_toNat_le.mpr (by omega)), hstart]

theorem endWindow_eq (hle : sel.endWindow.toNat ≤ numScores.toNat) :
    ((List.range sel.endWindow.toNat).map fun i => (numScores - sel.endWindow + UInt32.ofNat i).toNat) =
      List.range' (numScores.toNat - sel.endWindow.toNat) sel.endWindow.toNat := by
  rw [List.range'_eq_map_range]
  apply List.map_congr_left
  intro i hi
  have hlt := List.mem_range.mp hi
  have hn := numScores.toNat_lt
  rw [UInt32.toNat_add, UInt32.toNat_sub_of_le _ _ (UInt32.le_iff_toNat_le.mpr hle), UInt32.toNat_ofNat']
  omega

theorem topKImpl_cases (hk : sel.startWindow.toNat + sel.endWindow.toNat ≤ k.toNat) (hpos : 1 ≤ k.toNat) :
    topKImpl sel scores numScores k =
      if numScores.toNat ≤ k.toNat then (List.range numScores.toNat).map Int32.ofNat
      else (List.range sel.startWindow.toNat ++ List.range' (numScores.toNat - sel.endWindow.toNat) sel.endWindow.toNat ++
        if k.toNat - sel.startWindow.toNat - sel.endWindow.toNat < 2 ^ 31 then
          (sortedMiddle sel scores numScores).take (k.toNat - sel.startWindow.toNat - sel.endWindow.toNat)
        else []).map Int32.ofNat := by
  have hsum : (sel.startWindow + sel.endWindow).toNat = sel.startWindow.toNat + sel.endWindow.toNat := by
    rw [UInt32.toNat_add, Nat.mod_eq_of_lt (by have := k.toNat_lt; omega)]
  have hcopy : (sel.startWindow + sel.endWindow ≥ numScores ∨ k ≥ numScores ∨ k = 0) ↔
      numScores.toNat ≤ k.toNat := by
    simp only [ge_iff_le, UInt32.le_iff_toNat_le, hsum, ← UInt32.toNat_inj, UInt32.toNat_zero]
    omega
  simp only [topKImpl, hcopy]
  split_ifs with hle h₁ h₂ h₂
  · rfl
  · rw [endWindow_eq (by omega), toInt_toInt32, toNat_midCount hk, if_pos h₂, Int.toNat_natCast]
  all_goals rw [endWindow_eq (by omega)]
  all_goals
    rw [gt_iff_lt, Int32.lt_iff_toInt_lt, toInt_toInt32, toNat_midCount hk, Int32.toInt_zero] at h₁
  · rw [if_neg h₂] at h₁
    have := k.toNat_lt
    omega
  · rw [if_pos h₂] at h₁
    have hzero : k.toNat - sel.startWindow.toNat - sel.endWindow.toNat = 0 := by omega
    rw [hzero, List.take_zero]

end Cases

section Spec

variable [Preorder F] [DecidableLE F] (scores : Nat → F)

/-- The higher score comes first, of equal ones the lower index. -/
def Before (i j : Nat) : Prop := scores j ≤ scores i ∧ (scores i ≤ scores j → i < j)

instance : DecidableRel (Before scores) := fun i j =>
  inferInstanceAs (Decidable (scores j ≤ scores i ∧ (scores i ≤ scores j → i < j)))

/-- The right choice of blocks. -/
structure Chosen (startWindow endWindow n k : Nat) (chosen : List Nat) : Prop where
  length_eq : chosen.length = min k n
  nodup : chosen.Nodup
  lt : ∀ i ∈ chosen, i < n
  start_mem : ∀ i < n, i < startWindow → i ∈ chosen
  end_mem : ∀ i < n, n ≤ i + endWindow → i ∈ chosen
  best : ∀ i ∈ chosen, startWindow ≤ i → i + endWindow < n → ∀ j < n, j ∉ chosen → Before scores i j
  stable : (chosen.filter fun i => startWindow ≤ i ∧ i + endWindow < n).Pairwise fun i j =>
    scores i ≤ scores j → scores j ≤ scores i → i < j

/-- The indexes written are those of a right choice. -/
def Right (startWindow endWindow n k : Nat) (out : List Int32) : Prop :=
  ∃ chosen, Chosen scores startWindow endWindow n k chosen ∧ out.map Int32.toInt = chosen.map fun i : Nat => (i : Int)

/-- The index is to be selected: all are, or it is in a window, or few indexes between them come before it. -/
def Wanted (startWindow endWindow n k i : Nat) : Prop :=
  n ≤ k ∨ i < startWindow ∨ n ≤ i + endWindow ∨
  (List.range' startWindow (n - endWindow - startWindow)).countP (fun j => Before scores j i) < k - startWindow - endWindow

/-- `int32_t` holds the indexes to be selected and the number of those between the windows. -/
def Fits (startWindow endWindow n k : Nat) : Prop :=
  (k < n → k - startWindow - endWindow < 2 ^ 31) ∧ ∀ i < n, Wanted scores startWindow endWindow n k i → i < 2 ^ 31

variable {scores}

omit [DecidableLE F] in
theorem Before.asymm {i j : Nat} (h : Before scores i j) : ¬ Before scores j i :=
  fun h' => Nat.lt_asymm (h.2 h'.1) (h'.2 h.1)

/-- What is selected when the indexes between the windows are sorted as they are. -/
def choice (startWindow endWindow n k : Nat) (sorted : List Nat) : List Nat :=
  if n ≤ k then List.range n
  else List.range startWindow ++ List.range' (n - endWindow) endWindow ++ sorted.take (k - startWindow - endWindow)

variable {s e n k i : Nat} {sorted : List Nat}

theorem mem_choice (hk : s + e ≤ k) (hi : i < n) :
    i ∈ choice s e n k sorted ↔ n ≤ k ∨ i < s ∨ n ≤ i + e ∨ i ∈ sorted.take (k - s - e) := by
  rw [choice]
  split_ifs with hnk
  · simp [hi, hnk]
  · simp only [List.mem_append, List.mem_range, List.mem_range'_1, or_assoc]
    have hend : n - e ≤ i ∧ i < n - e + e ↔ n ≤ i + e := by omega
    rw [hend]
    tauto

variable (hk : s + e ≤ k) (hsorted : sorted.Pairwise (Before scores))
  (hperm : k < n → sorted.Perm (List.range' s (n - e - s)))
include hk hsorted hperm

theorem mem_choice_iff_wanted (hi : i < n) : i ∈ choice s e n k sorted ↔ Wanted scores s e n k i := by
  rw [mem_choice hk hi, Wanted]
  by_cases hwindow : n ≤ k ∨ i < s ∨ n ≤ i + e
  · tauto
  · have hperm := hperm (by omega)
    have hmem : i ∈ sorted := hperm.mem_iff.mpr (List.mem_range'_1.mpr (by omega))
    rw [mem_take_iff_countP (fun _ _ => Before.asymm) hsorted hmem, hperm.countP_eq]

omit hsorted in
theorem length_choice : (choice s e n k sorted).length = min k n := by
  rw [choice]
  split_ifs with hnk
  · rw [List.length_range, Nat.min_eq_right hnk]
  · have hlength : sorted.length = n - e - s := by rw [(hperm (by omega)).length_eq, List.length_range']
    simp only [List.length_append, List.length_range, List.length_range', List.length_take, hlength]
    omega

omit hsorted in
theorem nodup_choice : (choice s e n k sorted).Nodup := by
  rw [choice]
  split_ifs with hnk
  · exact List.nodup_range
  · have hperm := hperm (by omega)
    refine List.Nodup.append (List.Nodup.append List.nodup_range List.nodup_range' ?_) ?_ ?_
    · intro i hi hi'
      rw [List.mem_range] at hi
      rw [List.mem_range'_1] at hi'
      omega
    · exact (hperm.nodup_iff.mpr List.nodup_range').sublist (List.take_sublist _ _)
    · intro i hi hi'
      have := List.mem_range'_1.mp (hperm.subset (List.mem_of_mem_take hi'))
      simp only [List.mem_append, List.mem_range, List.mem_range'_1] at hi
      omega

omit hsorted in
theorem lt_of_mem_choice (hi : i ∈ choice s e n k sorted) : i < n := by
  rw [choice] at hi
  split_ifs at hi with hnk
  · exact List.mem_range.mp hi
  · simp only [List.mem_append, List.mem_range, List.mem_range'_1] at hi
    rcases hi with (hi | hi) | hi
    · omega
    · omega
    · have := List.mem_range'_1.mp ((hperm (by omega)).subset (List.mem_of_mem_take hi))
      omega

omit [DecidableLE F] in
theorem chosen_choice : Chosen scores s e n k (choice s e n k sorted) := by
  constructor
  case length_eq => exact length_choice hk hperm
  case nodup => exact nodup_choice hk hperm
  case lt => exact fun i hi => lt_of_mem_choice hk hperm hi
  case start_mem => exact fun i hi hs => (mem_choice hk hi).mpr (.inr (.inl hs))
  case end_mem => exact fun i hi he => (mem_choice hk hi).mpr (.inr (.inr (.inl he)))
  case best =>
    intro i hi hs he j hj hnot
    rw [mem_choice hk hj] at hnot
    rw [mem_choice hk (by omega)] at hi
    have htake : i ∈ sorted.take (k - s - e) :=
      ((hi.resolve_left fun hnk => hnot (.inl hnk)).resolve_left (by omega)).resolve_left (by omega)
    have hmem : j ∈ sorted := (hperm (by omega)).mem_iff.mpr (List.mem_range'_1.mpr (by omega))
    have hdrop : j ∈ sorted.drop (k - s - e) := by
      rw [← List.take_append_drop (k - s - e) sorted, List.mem_append] at hmem
      tauto
    rw [← List.take_append_drop (k - s - e) sorted, List.pairwise_append] at hsorted
    exact hsorted.2.2 i htake j hdrop
  case stable =>
    rw [choice]
    split_ifs with hnk
    · exact (List.pairwise_lt_range.sublist List.filter_sublist).imp fun hlt _ _ => hlt
    · have hwindows : (List.range s ++ List.range' (n - e) e).filter (fun i => s ≤ i ∧ i + e < n) = [] := by
        rw [List.filter_eq_nil_iff]
        intro i hi
        simp only [List.mem_append, List.mem_range, List.mem_range'_1] at hi
        simp only [decide_eq_true_eq]
        omega
      rw [List.filter_append, hwindows, List.nil_append]
      apply (hsorted.sublist (List.filter_sublist.trans (List.take_sublist _ _))).imp
      exact fun hbefore hle _ => hbefore.2 hle

end Spec

section Written

variable [Preorder F] [Std.Total fun a b : F => a ≤ b]

theorem not_gt_iff (a b : F) : ¬ a > b ↔ a ≤ b := by
  constructor
  · intro h
    rcases Std.Total.total (r := fun a b : F => a ≤ b) a b with hab | hba
    · exact hab
    · exact by_contra fun hab => h (lt_of_le_not_ge hba hab)
  · exact fun h => h.not_gt

instance sorted_total (scores : Nat → F) : Std.Total fun i j => ¬ scores j > scores i where
  total i j := by
    simp only [not_gt_iff]
    exact (Std.Total.total (r := fun a b : F => a ≤ b) (scores i) (scores j)).symm

instance sorted_trans (scores : Nat → F) : IsTrans Nat fun i j => ¬ scores j > scores i where
  trans i j l := by
    simp only [not_gt_iff]
    exact fun hij hjl => hjl.trans hij

variable [DecidableLT F] {sel : TopkBlockSelector} {scores : Nat → F} {numScores k : UInt32}

theorem pairwise_sortedMiddle : (sortedMiddle sel scores numScores).Pairwise (Before scores) := by
  have hrange := List.pairwise_lt_range' (s := sel.startWindow.toNat)
    (n := (numScores - sel.endWindow).toNat - sel.startWindow.toNat)
  apply (pairwise_insertionSort_stable hrange).imp
  simp only [not_gt_iff]
  exact fun h => h

variable (hk : sel.startWindow.toNat + sel.endWindow.toNat ≤ k.toNat)
include hk

omit [Std.Total fun a b : F => a ≤ b] in
theorem perm_of_lt (hlt : k.toNat < numScores.toNat) : (sortedMiddle sel scores numScores).Perm
    (List.range' sel.startWindow.toNat (numScores.toNat - sel.endWindow.toNat - sel.startWindow.toNat)) :=
  sortedMiddle_perm (by omega)

omit [Std.Total fun a b : F => a ≤ b] in
theorem topKImpl_eq_choice (hpos : 1 ≤ k.toNat)
    (hfit : k.toNat < numScores.toNat → k.toNat - sel.startWindow.toNat - sel.endWindow.toNat < 2 ^ 31) :
    topKImpl sel scores numScores k = (choice sel.startWindow.toNat sel.endWindow.toNat numScores.toNat k.toNat
      (sortedMiddle sel scores numScores)).map Int32.ofNat := by
  rw [topKImpl_cases hk hpos, choice]
  split_ifs with hle hlt
  · rfl
  · rfl
  · exact absurd (hfit (by omega)) hlt

variable [DecidableLE F]

variable (sel numScores) in
theorem fits_of_right (hpos : 1 ≤ k.toNat)
    (h : Right scores sel.startWindow.toNat sel.endWindow.toNat numScores.toNat k.toNat
      (topKImpl sel scores numScores k)) :
    Fits scores sel.startWindow.toNat sel.endWindow.toNat numScores.toNat k.toNat := by
  obtain ⟨chosen, hchosen, hout⟩ := h
  have hfit : k.toNat < numScores.toNat → k.toNat - sel.startWindow.toNat - sel.endWindow.toNat < 2 ^ 31 := by
    intro hlt
    by_contra hbig
    have hlength := congrArg List.length hout
    rw [topKImpl_cases hk hpos, if_neg (by omega), if_neg hbig] at hlength
    simp only [List.append_nil, List.length_map, List.length_append, List.length_range, List.length_range',
      hchosen.length_eq] at hlength
    omega
  refine ⟨hfit, ?_⟩
  intro i hi hwanted
  rw [topKImpl_eq_choice hk hpos hfit, List.map_map] at hout
  have hmem := (mem_choice_iff_wanted hk pairwise_sortedMiddle (perm_of_lt hk) hi).mpr hwanted
  have hcast : (Int32.ofNat i).toInt ∈ chosen.map fun i : Nat => (i : Int) := hout ▸ List.mem_map_of_mem hmem
  obtain ⟨j, -, hj⟩ := List.mem_map.mp hcast
  have hlt := hi.trans numScores.toNat_lt
  rw [toInt_ofNat hlt] at hj
  split_ifs at hj with hsmall
  · exact hsmall
  · omega

theorem right_of_fits (hpos : 1 ≤ k.toNat)
    (h : Fits scores sel.startWindow.toNat sel.endWindow.toNat numScores.toNat k.toNat) :
    Right scores sel.startWindow.toNat sel.endWindow.toNat numScores.toNat k.toNat (topKImpl sel scores numScores k) := by
  refine ⟨_, chosen_choice hk pairwise_sortedMiddle (perm_of_lt hk), ?_⟩
  rw [topKImpl_eq_choice hk hpos h.1, List.map_map]
  apply List.map_congr_left
  intro i hi
  have hn := lt_of_mem_choice hk (perm_of_lt hk) hi
  have hsmall := h.2 i hn ((mem_choice_iff_wanted hk pairwise_sortedMiddle (perm_of_lt hk) hn).mp hi)
  exact (toInt_ofNat (hn.trans numScores.toNat_lt)).trans (if_pos hsmall)

end Written

section Batch

/-- Entry `bs` asks for blocks: its pointers and sizes are valid and its length holds both windows. -/
structure Asks (batch : Batch F) (bs : Nat) (numBlock topkLength : UInt32) (q kRepre : Nat → F) : Prop where
  lt : bs < batch.numBatch
  numBlock_eq : batch.numBlockVec[bs]? = some numBlock
  topkLength_eq : batch.topkLengthVec[bs]? = some topkLength
  q_eq : batch.qCacheVec[bs]? = some (some q)
  kRepre_eq : batch.kfCacheVec[bs]? = some (some kRepre)
  topkResult_eq : ∃ topkResult, batch.topkCacheVec[bs]? = some (some topkResult)
  valid : validateParameters (some q) (some kRepre) numBlock batch.kHead batch.qHead batch.numKrepre batch.headSize = true
  windows : sel.startWindow.toNat + sel.endWindow.toNat ≤ topkLength.toNat
  pos : 1 ≤ topkLength.toNat

variable [Zero F] [Add F] [Max F] (vecProduct : VecProduct F) (lowest : F)

def blockScores (batch : Batch F) (q kRepre : Nat → F) : Nat → F :=
  computeKQDotScores vecProduct lowest (computeQHeadMean vecProduct q batch.kHead batch.qHead batch.headSize) kRepre
    batch.kHead batch.numKrepre batch.headSize

variable {vecProduct lowest} {sel} {batch : Batch F} {outs : List (List Int32)} {bs : Nat}
  {numBlock topkLength : UInt32} {q kRepre : Nat → F}

/-- Each entry is served with its own scores, number of blocks and length. -/
theorem getElem?_selectTopKBS [LT F] [DecidableLT F] (h : selectTopKBS sel vecProduct lowest batch = some outs)
    (ha : Asks sel batch bs numBlock topkLength q kRepre) :
    outs[bs]? = some (topKImpl sel (blockScores vecProduct lowest batch q kRepre) numBlock topkLength) := by
  obtain ⟨hlength, hout⟩ := getElem?_mapM_range h
  have hlt : bs < outs.length := hlength ▸ ha.lt
  have hbs := hout bs _ (List.getElem?_eq_getElem hlt)
  obtain ⟨topkResult, hres⟩ := ha.topkResult_eq
  have hne : topkLength ≠ 0 := by
    rintro rfl
    exact absurd ha.pos (by decide)
  simp only [ha.numBlock_eq, ha.topkLength_eq, ha.q_eq, ha.kRepre_eq, hres, Option.bind_some, Option.map_some,
    Option.some.injEq] at hbs
  rw [List.getElem?_eq_getElem hlt, ← hbs]
  simp [selectTopK, ha.valid, hne, blockScores]

/-- The blocks written for a request are a right choice exactly when `int32_t` holds them. -/
theorem topkBlockSelector_right_iff [Preorder F] [Std.Total fun a b : F => a ≤ b] [DecidableLT F] [DecidableLE F] :
    (∀ (sel : TopkBlockSelector) (scores : Nat → F) (numScores k : UInt32),
      sel.startWindow.toNat + sel.endWindow.toNat ≤ k.toNat → 1 ≤ k.toNat →
      (Right scores sel.startWindow.toNat sel.endWindow.toNat numScores.toNat k.toNat (topKImpl sel scores numScores k) ↔
        Fits scores sel.startWindow.toNat sel.endWindow.toNat numScores.toNat k.toNat)) ∧
    (∀ (sel : TopkBlockSelector) (vecProduct : VecProduct F) (lowest : F) (batch : Batch F) (outs : List (List Int32)),
      selectTopKBS sel vecProduct lowest batch = some outs →
      ∀ bs numBlock topkLength q kRepre, Asks sel batch bs numBlock topkLength q kRepre →
      ((∃ out, outs[bs]? = some out ∧ Right (blockScores vecProduct lowest batch q kRepre) sel.startWindow.toNat
          sel.endWindow.toNat numBlock.toNat topkLength.toNat out) ↔
        Fits (blockScores vecProduct lowest batch q kRepre) sel.startWindow.toNat sel.endWindow.toNat numBlock.toNat
          topkLength.toNat)) := by
  constructor
  · exact fun sel scores numScores k hk hpos => ⟨fits_of_right sel numScores hk hpos, right_of_fits hk hpos⟩
  · intro sel vecProduct lowest batch outs h bs numBlock topkLength q kRepre ha
    rw [getElem?_selectTopKBS h ha]
    constructor
    · rintro ⟨out, hout, hright⟩
      obtain rfl := Option.some.inj hout
      exact fits_of_right sel numBlock ha.windows ha.pos hright
    · exact fun hfits => ⟨_, rfl, right_of_fits ha.windows ha.pos hfits⟩

def product : VecProduct Int := ⟨fun q k n => ∑ d ∈ Finset.range n, q d * k d, fun q _ _ _ _ => q⟩

def fiveScores (i : Nat) : Int := [7, 3, 9, 1, 4].getD i 0

def fiveBlocks : Batch Int :=
  { qCacheVec := [some fun _ => 1], kfCacheVec := [some fiveScores], topkCacheVec := [some fun _ => 0], numBatch := 1,
    numBlockVec := [5], kHead := 1, qHead := 1, numKrepre := 1, headSize := 1, topkLengthVec := [4] }

theorem topkBlockSelector_right_iff_five :
    Right fiveScores 1 2 5 4 (topKImpl {} fiveScores 5 4) ∧ topKImpl {} fiveScores 5 4 = [0, 3, 4, 2] ∧
    ∃ out, [([0, 3, 4, 2] : List Int32)][0]? = some out ∧
      Right (blockScores product 0 fiveBlocks (fun _ => 1) fiveScores) 1 2 5 4 out := by
  refine ⟨(topkBlockSelector_right_iff.1 {} fiveScores 5 4 (by decide) (by decide)).mpr ?_, by decide,
    (topkBlockSelector_right_iff.2 {} product 0 fiveBlocks _ (by decide) 0 5 4 (fun _ => 1) fiveScores ?_).mpr ?_⟩
  · exact ⟨by decide, fun i hi _ => hi.trans (by decide)⟩
  · exact ⟨by decide, rfl, rfl, rfl, rfl, ⟨_, rfl⟩, rfl, by decide, by decide⟩
  · exact ⟨by decide, fun i hi _ => hi.trans (by decide)⟩

/-- The count between the windows is negative as an `int32_t`, so nothing is written. -/
theorem not_right_manyBlocks :
    ¬ Right (fun _ => (0 : Int)) 0 0 2147483649 2147483648
      (topKImpl ⟨0, 0⟩ (fun _ => (0 : Int)) 2147483649 2147483648) := by
  intro h
  have hfits := fits_of_right (k := 2147483648) ⟨0, 0⟩ 2147483649 (by decide) (by decide) h
  exact absurd (hfits.1 (by decide)) (by decide)

end Batch

end UnifiedCache.Sparse.SelectTopkBlock
