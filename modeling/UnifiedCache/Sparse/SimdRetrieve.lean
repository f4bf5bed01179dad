import UnifiedCache.Lib.Collections
import UnifiedCache.Lib.Selection
import UnifiedCache.Sparse.RetrievalBackend
import UnifiedCache.Sparse.SimdKernels

/-! A retrieval task with the vector kernels and with the scalar loops: which blocks it ranks first. -/

namespace UnifiedCache.Sparse.SimdKernels

open Selection (Selects offer foldlM_offer)
open RetrievalWorkerBackend (asInt)

structure PlainTensor (α : Type*) where
  data : Int → α
  shape : List Nat

structure RetrieveTask (F : Type*) where
  queryGroup : PlainTensor F
  blkRepre : PlainTensor F
  dPrunedIndex : Option (PlainTensor Int)
  topK : Int

inductive Fault
  | runtimeError (message : String)
  /-- A division by zero, an overflow or an access that C++ does not define. -/
  | undefined
  deriving DecidableEq

structure Sizes where
  numTokens : Nat
  numQHeads : Nat
  numBlocks : Nat
  M : Nat
  numKvHeads : Nat
  dPruned : Nat

namespace Sizes

def g (d : Sizes) : Nat := d.numQHeads / d.numKvHeads

def S (d : Sizes) : Nat := d.numBlocks * d.M

/-- The rows of the score matrix in their order: a token, a head of the keys and a head of its group. -/
def rows (d : Sizes) : List (Nat × Nat × Nat) :=
  (List.range d.numTokens).flatMap fun x =>
    (List.range d.numKvHeads).flatMap fun h => (List.range d.g).map fun gg => (x, h, gg)

def queryRow (d : Sizes) (row : Nat × Nat × Nat) : Nat :=
  row.1 * d.numQHeads + (row.2.1 * d.g + row.2.2)

end Sizes

variable {F : Type*}

/-- `pruned_q_vec`, in memory that holds `fresh`. -/
def prunedQVec (fresh q : Int → F) (prunedIndices : Int → Int) (d : Sizes) (dOrig : Nat) : Int → F :=
  d.rows.foldl (fun v row =>
    (List.range d.dPruned).foldl (fun v (dP : Nat) =>
      Function.update v ((d.queryRow row * d.dPruned + dP : Nat) : Int)
        (q ((d.queryRow row * dOrig : Nat) + prunedIndices (row.2.1 * d.dPruned + dP : Nat)))) v) fresh

/-- What all three versions do first. -/
def prepare (fresh : Int → F) (task : RetrieveTask F) : Except Fault (Sizes × (Int → F)) :=
  match task.queryGroup.shape with
  | [numTokens, numQHeads, dOrig] =>
    match task.blkRepre.shape with
    | [numBlocks, M, numKvHeads, dPruned] =>
      let d : Sizes := ⟨numTokens, numQHeads, numBlocks, M, numKvHeads, dPruned⟩
      if numKvHeads = 0 then .error .undefined
      else if numQHeads % numKvHeads ≠ 0 then
        .error (.runtimeError "Num_q_heads must be a divisible by num_kv_heads.")
      else
        match task.dPrunedIndex with
        | some prunedSpec =>
          if prunedSpec.shape ≠ [numKvHeads, dPruned] then
            .error (.runtimeError "dPrunedIndex shape is inconsistent with K's shape.")
          else .ok (d, prunedQVec fresh task.queryGroup.data prunedSpec.data d dOrig)
        | none =>
          if dOrig ≠ dPruned then
            .error (.runtimeError "Dimension mismatch: No dPrunedIndex, but Q and K head dims differ.")
          else .ok (d, task.queryGroup.data)
    | _ => .error (.runtimeError "BlockRep shape must be 4D (n, M, h, d).")
  | _ => .error (.runtimeError "Query shape must be 3D (x, H, d).")

section Scores

variable [CommRing F]

/-- The products, each row at its offset. The sizes are passed on as `int`. -/
def simdScores (isa : Isa) (d : Sizes) (q k : Int → F) : Option (List (Int → F)) :=
  d.rows.mapM fun row =>
    gemv isa (fun o => k ((row.2.1 * d.dPruned : Nat) + o)) (fun o => q ((d.queryRow row * d.dPruned : Nat) + o)) 0
      (asInt d.dPruned) (asInt d.S) (asInt (d.numKvHeads * d.dPruned))

def scalarScores (d : Sizes) (q k : Int → F) : List (Int → F) :=
  d.rows.map fun row =>
    forRows d.S (fun s _ => (List.range d.dPruned).foldl (fun score (i : Nat) =>
      score + q ((d.queryRow row * d.dPruned : Nat) + i) * k ((s * d.numKvHeads + row.2.1) * d.dPruned + i)) 0) 0

/-- What the rows give a block. -/
def partSum (isa : Isa) (d : Sizes) (rows : List (Int → F)) (n : Nat) : Option F :=
  (rows.foldlM (fun (s : (Fin isa.lanes → F) × F) row =>
    isa.accumulate (fun t => row ((n * d.M : Nat) + t)) s.1 s.2 (asInt d.M)) (fun _ => 0, 0)).map fun s =>
      isa.hsum s.1 + s.2

variable (softmax : Int → (Int → F) → Int → F)

/-- What the vector versions subtract from zero, block by block. -/
def simdFinalScores (isa : Isa) (d : Sizes) (q k : Int → F) : Option (List F) :=
  (simdScores isa d q k).bind fun rows =>
    (List.range d.numBlocks).mapM (partSum isa d (rows.map (softmax (asInt d.S))))

def blockSums (d : Sizes) (rows : List (Int → F)) : Nat → F :=
  rows.foldl (fun final row =>
    (List.range d.S).foldl (fun final (s : Nat) =>
      Function.update final (s / d.M) (final (s / d.M) + row s)) final) fun _ => 0

/-- The scalar version reads the first score of a row even where there is none. -/
def scalarFinalScores (d : Sizes) (q k : Int → F) : Option (List F) :=
  if d.rows ≠ [] ∧ d.S = 0 then none
  else some ((List.range d.numBlocks).map (blockSums d ((scalarScores d q k).map (softmax d.S))))

end Scores

section TopK

variable [CommRing F] [LinearOrder F]

def pairLt (a b : F × Nat) : Prop := a.1 < b.1 ∨ a.1 = b.1 ∧ a.2 < b.2

def pairLe (a b : F × Nat) : Prop := a.1 < b.1 ∨ a.1 = b.1 ∧ a.2 ≤ b.2

instance : DecidableRel (pairLt (F := F)) := fun _ _ => inferInstanceAs (Decidable (_ ∨ _))

instance : DecidableRel (pairLe (F := F)) := fun _ _ => inferInstanceAs (Decidable (_ ∨ _))

variable (nthElement : Selection.Partition (pairLt (F := F)))

/-- A place outside of the scores is not defined. -/
def simdTopK (scores : List F) (topK : Int) : Option (List Nat) :=
  if 1 ≤ topK ∧ topK ≤ scores.length then
    some (((nthElement.split topK.toNat (scores.zipIdx.map fun p => (0 - p.1, p.2))).take topK.toNat).map Prod.snd)
  else none

def higher (a b : F × Nat) : Prop := a.1 > b.1

instance : DecidableRel (higher (F := F)) := fun a b => inferInstanceAs (Decidable (a.1 > b.1))

/-- The heap's size is compared with `topK` as a `size_t`. -/
def scalarTopK (scores : List F) (topK : Int) : Option (List Nat) :=
  (scores.zipIdx.foldlM (offer pairLe higher (topK % 2 ^ 64).toNat) []).map fun heap => (heap.map Prod.snd).reverse

def orUndefined {α : Type*} : Option α → Except Fault α
  | some a => .ok a
  | none => .error .undefined

variable (softmax : Int → (Int → F) → Int → F) (fresh : Int → F)

/-- `execute_impl` of `neon_impl` and `avx2_impl`. -/
def simdExecute (isa : Isa) (task : RetrieveTask F) : Except Fault (List Nat) :=
  (prepare fresh task).bind fun p =>
    orUndefined ((simdFinalScores softmax isa p.1 p.2 task.blkRepre.data).bind (simdTopK nthElement · task.topK))

/-- `execute_impl` of `scalar_impl`. -/
def scalarExecute (task : RetrieveTask F) : Except Fault (List Nat) :=
  (prepare fresh task).bind fun p =>
    orUndefined ((scalarFinalScores softmax p.1 p.2 task.blkRepre.data).bind (scalarTopK · task.topK))

end TopK

section Sums

variable [CommRing F] {isa : Isa} {d : Sizes} {q k : Int → F}

theorem foldl_update_div (row : Int → F) (M : Nat) (final : Nat → F) (S n : Nat) :
    (List.range S).foldl (fun final (s : Nat) => Function.update final (s / M) (final (s / M) + row s)) final n =
      final n + ∑ s ∈ Finset.range S with s / M = n, row s := by
  induction S with
  | zero => simp
  | succ S ih =>
    rw [List.range_succ, List.foldl_append, List.foldl_cons, List.foldl_nil, Function.update_apply, Finset.range_add_one,
      Finset.filter_insert]
    by_cases hn : n = S / M
    · rw [if_pos hn, if_pos hn.symm, ← hn, ih, Finset.sum_insert (by simp), add_assoc]
      congr 1
      exact add_comm _ _
    · rw [if_neg hn, if_neg (Ne.symm hn), ih]

/-- The scores of a block are the ones that the division sends to it. -/
theorem sum_div_eq {numBlocks M n : Nat} (hM : 0 < M) (hn : n < numBlocks) (row : Int → F) :
    ∑ s ∈ Finset.range (numBlocks * M) with s / M = n, row s =
      ∑ t ∈ Finset.range M, row ((n * M : Nat) + (t : Int)) := by
  have hle : (n + 1) * M ≤ numBlocks * M := Nat.mul_le_mul_right M hn
  rw [Nat.succ_mul] at hle
  apply Finset.sum_nbij' (· - n * M) (n * M + ·)
  · intro s hs
    obtain ⟨hs, rfl⟩ := Finset.mem_filter.mp hs
    rw [Finset.mem_range]
    have := Nat.div_add_mod' s M
    have := Nat.mod_lt s hM
    omega
  · intro t ht
    have ht := Finset.mem_range.mp ht
    rw [Finset.mem_filter, Finset.mem_range]
    refine ⟨by omega, ?_⟩
    rw [Nat.mul_comm, Nat.mul_add_div hM, Nat.div_eq_of_lt ht, add_zero]
  · intro s hs
    obtain ⟨hs, rfl⟩ := Finset.mem_filter.mp hs
    exact Nat.add_sub_of_le (Nat.div_mul_le_self s M)
  · intro t _
    exact Nat.add_sub_cancel_left _ _
  · intro s hs
    obtain ⟨hs, rfl⟩ := Finset.mem_filter.mp hs
    rw [← Nat.cast_add, Nat.add_sub_of_le (Nat.div_mul_le_self s M)]

theorem blockSums_eq {n : Nat} (hM : 0 < d.M) (hn : n < d.numBlocks) (rows : List (Int → F)) :
    blockSums d rows n = (rows.map fun row => ∑ t ∈ Finset.range d.M, row ((n * d.M : Nat) + (t : Int))).sum := by
  have hfold : ∀ final : Nat → F, rows.foldl (fun final row =>
      (List.range d.S).foldl (fun final (s : Nat) =>
        Function.update final (s / d.M) (final (s / d.M) + row s)) final) final n =
      final n + (rows.map fun row => ∑ t ∈ Finset.range d.M, row ((n * d.M : Nat) + (t : Int))).sum := by
    induction rows with
    | nil => simp
    | cons row rows ih =>
      intro final
      rw [List.foldl_cons, ih, foldl_update_div, Sizes.S, sum_div_eq hM hn, List.map_cons, List.sum_cons, add_assoc]
  rw [blockSums, hfold, zero_add]

theorem partSum_eq (hadds : AddsAll F isa d.M) (hM : asInt d.M = d.M) (rows : List (Int → F)) (n : Nat) :
    partSum isa d rows n =
      some (rows.map fun row => ∑ t ∈ Finset.range d.M, row ((n * d.M : Nat) + (t : Int))).sum := by
  have hfold : ∀ s : (Fin isa.lanes → F) × F, ∃ s' : (Fin isa.lanes → F) × F,
      rows.foldlM (fun (s : (Fin isa.lanes → F) × F) row =>
        isa.accumulate (fun t => row ((n * d.M : Nat) + t)) s.1 s.2 (asInt d.M)) s = some s' ∧
      isa.hsum s'.1 + s'.2 = isa.hsum s.1 + s.2 +
        (rows.map fun row => ∑ t ∈ Finset.range d.M, row ((n * d.M : Nat) + (t : Int))).sum := by
    induction rows with
    | nil => exact fun s => ⟨s, rfl, by simp⟩
    | cons row rows ih =>
      intro s
      obtain ⟨y, r, hrow, hsum⟩ := hadds (fun t => row ((n * d.M : Nat) + t)) s.1 s.2
      obtain ⟨s', hrows, hsum'⟩ := ih (y, r)
      refine ⟨s', ?_, ?_⟩
      · rw [List.foldlM_cons, hM, hrow]
        rw [hM] at hrows
        exact hrows
      · rw [hsum', hsum, List.map_cons, List.sum_cons, add_assoc]
  obtain ⟨s, hs, hsum⟩ := hfold (fun _ => 0, 0)
  rw [partSum, hs, Option.map_some, hsum, Isa.hsum_eq_sum]
  simp

/-- The sizes that the vector versions pass on as `int` keep their values, and no guard overflows. -/
structure Sizes.Fits (d : Sizes) (isa : Isa) : Prop where
  dPruned_lt : d.dPruned < 2 ^ 31 - 32
  S_lt : d.S < 2 ^ 31
  stride_lt : d.numKvHeads * d.dPruned < 2 ^ 31
  S_pos : 0 < d.S
  M_le : isa = .avx2 → d.M ≤ 2 ^ 31 - 32

theorem asInt_of_lt {n : Nat} (h : n < 2 ^ 31) : asInt n = n := by
  exact Int.bmod_eq_of_le (by norm_num) (by norm_num; omega)

namespace Sizes.Fits

variable (h : d.Fits isa)
include h

theorem M_pos : 0 < d.M := Nat.pos_of_mul_pos_left h.S_pos

theorem numBlocks_pos : 0 < d.numBlocks := Nat.pos_of_mul_pos_right h.S_pos

theorem asInt_M : asInt d.M = d.M :=
  asInt_of_lt ((Nat.le_mul_of_pos_left d.M h.numBlocks_pos).trans_lt h.S_lt)

theorem asInt_dPruned : asInt d.dPruned = d.dPruned :=
  asInt_of_lt (h.dPruned_lt.trans_le (Nat.sub_le _ _))

end Sizes.Fits

/-- A row of the scores, as the exact products. -/
def exactRow (d : Sizes) (q k : Int → F) (row : Nat × Nat × Nat) : Int → F :=
  added (fun o => k ((row.2.1 * d.dPruned : Nat) + o)) (fun o => q ((d.queryRow row * d.dPruned : Nat) + o)) 0 d.S
    ((d.numKvHeads * d.dPruned : Nat) : Int) d.dPruned

theorem scalarScores_eq : scalarScores d q k = d.rows.map (exactRow d q k) := by
  apply List.map_congr_left
  rintro row -
  have hfold : ∀ (s : Int) (n : Nat), (List.range n).foldl (fun score (i : Nat) => score +
      q ((d.queryRow row * d.dPruned : Nat) + i) * k ((s * d.numKvHeads + row.2.1) * d.dPruned + i)) 0 =
      ∑ i ∈ Finset.range n,
        k ((row.2.1 * d.dPruned : Nat) + (s * ((d.numKvHeads * d.dPruned : Nat) : Int) + i)) *
          q ((d.queryRow row * d.dPruned : Nat) + i) := by
    intro s n
    induction n with
    | zero => rfl
    | succ n ih =>
      rw [List.range_succ, List.foldl_append, List.foldl_cons, List.foldl_nil, ih, Finset.sum_range_succ, mul_comm (q _)]
      congr 3
      push_cast
      ring
  funext s
  rw [forRows_apply, exactRow, added]
  split_ifs with hs
  · rw [hfold, Pi.zero_apply, zero_add]
  · rfl

theorem simdScores_eq (hfits : d.Fits isa) : simdScores isa d q k =
    some (d.rows.map fun row =>
      remainder (fun o => k ((row.2.1 * d.dPruned : Nat) + o)) (fun o => q ((d.queryRow row * d.dPruned : Nat) + o))
        d.dPruned d.S ((d.numKvHeads * d.dPruned : Nat) : Int) ((8 * (d.dPruned / 8) : Nat),
          added (fun o => k ((row.2.1 * d.dPruned : Nat) + o)) (fun o => q ((d.queryRow row * d.dPruned : Nat) + o)) 0
            d.S ((d.numKvHeads * d.dPruned : Nat) : Int) (8 * (d.dPruned / 8)))) := by
  apply mapM_eq_map
  rintro row -
  rw [hfits.asInt_dPruned, asInt_of_lt hfits.S_lt, asInt_of_lt hfits.stride_lt]
  exact gemv_eq hfits.dPruned_lt

theorem simdScores_exact (hfits : d.Fits isa) (hcolumns : d.dPruned < 8 ∨ 8 ∣ d.dPruned) :
    simdScores isa d q k = some (d.rows.map (exactRow d q k)) := by
  apply mapM_eq_map
  rintro row -
  rw [hfits.asInt_dPruned, asInt_of_lt hfits.S_lt, asInt_of_lt hfits.stride_lt]
  exact gemv_right hfits.dPruned_lt (by tauto)

variable {softmax : Int → (Int → F) → Int → F}

theorem simdFinalScores_eq (hfits : d.Fits isa) {rows : List (Int → F)} (hrows : simdScores isa d q k = some rows) :
    simdFinalScores softmax isa d q k =
      some ((List.range d.numBlocks).map (blockSums d (rows.map (softmax d.S)))) := by
  rw [simdFinalScores, hrows, Option.bind_some, asInt_of_lt hfits.S_lt]
  apply mapM_eq_map
  intro n hn
  rw [blockSums_eq hfits.M_pos (List.mem_range.mp hn)]
  exact partSum_eq (addsAll_iff.mpr hfits.M_le) hfits.asInt_M _ n

theorem scalarFinalScores_eq (hfits : d.Fits isa) : scalarFinalScores softmax d q k =
    some ((List.range d.numBlocks).map (blockSums d ((d.rows.map (exactRow d q k)).map (softmax d.S)))) := by
  rw [scalarFinalScores, scalarScores_eq, if_neg fun h => hfits.S_pos.ne' h.2]

end Sums

section Difference

variable [CommRing F] {isa : Isa} {d : Sizes} {m : Nat}

theorem mul_oneAt (a : F) {j : Int} (h : j ≠ m) : a * oneAt m j = 0 := by
  rw [oneAt, if_neg h, mul_zero]

theorem blockSums_eq_zero (hfits : d.Fits isa) {rows : List (Int → F)}
    (hzero : ∀ row ∈ rows, ∀ s : Nat, s < d.S → row s = 0) : blockSums d rows 0 = 0 := by
  rw [blockSums_eq hfits.M_pos hfits.numBlocks_pos]
  apply List.sum_eq_zero
  intro v hv
  obtain ⟨row, hrow, rfl⟩ := List.mem_map.mp hv
  apply Finset.sum_eq_zero
  intro t ht
  have hle : d.M ≤ d.S := Nat.le_mul_of_pos_left d.M hfits.numBlocks_pos
  simpa using hzero row hrow t ((Finset.mem_range.mp ht).trans_le hle)

variable [LinearOrder F] [IsStrictOrderedRing F]

theorem oneAt_nonneg (j : Int) : (0 : F) ≤ oneAt m j := by
  rw [oneAt]
  split_ifs
  · exact zero_le_one
  · exact le_refl _

theorem blockSums_pos (hfits : d.Fits isa) {rows : List (Int → F)} (hnonneg : ∀ row ∈ rows, ∀ s, 0 ≤ row s)
    {row : Int → F} (hrow : row ∈ rows) (hpos : 0 < row 0) : 0 < blockSums d rows 0 := by
  rw [blockSums_eq hfits.M_pos hfits.numBlocks_pos]
  have hfirst : row 0 ≤ ∑ t ∈ Finset.range d.M, row ((0 * d.M : Nat) + (t : Int)) := by
    have hsingle := Finset.single_le_sum (f := fun t : Nat => row ((0 * d.M : Nat) + (t : Int)))
      (fun t _ => hnonneg row hrow _) (Finset.mem_range.mpr hfits.M_pos)
    simpa using hsingle
  refine hpos.trans_le (hfirst.trans (List.single_le_sum ?_ _ (List.mem_map_of_mem hrow)))
  intro v hv
  obtain ⟨row, hrow, rfl⟩ := List.mem_map.mp hv
  exact Finset.sum_nonneg fun t _ => hnonneg row hrow _

theorem head_mem_rows (h : d.rows ≠ []) : (0, 0, 0) ∈ d.rows := by
  obtain ⟨⟨x, h', gg⟩, hmem⟩ := List.exists_mem_of_ne_nil _ h
  simp only [Sizes.rows, List.mem_flatMap, List.mem_map, List.mem_range, Prod.mk.injEq] at hmem ⊢
  obtain ⟨x, hx, h', hh, gg, hgg, -⟩ := hmem
  exact ⟨0, by omega, 0, by omega, 0, by omega, rfl, rfl, rfl⟩

/-- One for the scalar loops, nothing for the vector loops. -/
theorem scores_differ (hfits : d.Fits isa) (hrows : d.rows ≠ []) (hlong : 8 ≤ d.dPruned) (hdvd : ¬ 8 ∣ d.dPruned) :
    simdFinalScores (F := F) (fun _ row => row) isa d (oneAt (8 * (d.dPruned / 8))) (oneAt (8 * (d.dPruned / 8))) ≠
      scalarFinalScores (fun _ row => row) d (oneAt (8 * (d.dPruned / 8))) (oneAt (8 * (d.dPruned / 8))) := by
  rw [simdFinalScores_eq hfits (simdScores_eq hfits), scalarFinalScores_eq hfits, List.map_id', List.map_id']
  have hm : 8 * (d.dPruned / 8) < d.dPruned := lt_of_le_of_ne (Nat.mul_div_le _ 8) fun h => hdvd ⟨_, h.symm⟩
  generalize hn : 8 * (d.dPruned / 8) = m at hm
  have hpos : 0 < m := by omega
  intro h
  have hfirst := congrArg List.head? (Option.some.inj h)
  obtain ⟨n, hblocks⟩ := Nat.exists_eq_succ_of_ne_zero hfits.numBlocks_pos.ne'
  rw [hblocks, List.range_succ_eq_map, List.map_cons, List.map_cons, List.head?_cons, List.head?_cons,
    Option.some.injEq] at hfirst
  rw [blockSums_eq_zero hfits] at hfirst
  · refine (blockSums_pos hfits ?_ (List.mem_map_of_mem (head_mem_rows hrows)) ?_).ne hfirst
    · intro row hrow s
      obtain ⟨r, -, rfl⟩ := List.mem_map.mp hrow
      simp only [exactRow, added]
      split_ifs
      · exact add_nonneg le_rfl (Finset.sum_nonneg fun j _ => mul_nonneg (oneAt_nonneg _) (oneAt_nonneg _))
      · exact le_rfl
    · rw [exactRow, added, if_pos ⟨le_rfl, by exact_mod_cast hfits.S_pos⟩,
        Finset.sum_eq_single_of_mem m (Finset.mem_range.mpr hm)]
      · simp [oneAt, Sizes.queryRow]
      · intro j _ hj
        have hne : (((d.queryRow (0, 0, 0)) * d.dPruned : Nat) : Int) + j ≠ m := by
          simp only [Sizes.queryRow, Nat.zero_mul, Nat.add_zero]
          omega
        exact mul_oneAt _ hne
  · intro row hrow s hs
    obtain ⟨r, -, rfl⟩ := List.mem_map.mp hrow
    rw [remainder_apply hm.le, if_pos ⟨Int.natCast_nonneg s, by exact_mod_cast hs⟩, added,
      if_pos ⟨Int.natCast_nonneg s, by exact_mod_cast hs⟩]
    rw [Finset.sum_eq_zero, Finset.sum_eq_zero, Pi.zero_apply, add_zero, add_zero]
    · intro t _
      exact mul_oneAt _ (by omega)
    · intro j hj
      have hj := Finset.mem_range.mp hj
      apply mul_oneAt
      -- The one is beyond what the first row's registers cover, and before every later row.
      rcases Nat.eq_zero_or_pos (d.queryRow r) with h0 | hr
      · rw [h0, Nat.zero_mul]
        omega
      · have hle := Nat.le_mul_of_pos_left d.dPruned hr
        omega

end Difference

section Best

variable [LinearOrder F]

/-- Distinct blocks, as many as asked for, none of which scores less than a block left out. -/
structure BestBlocks (scores : List F) (topK : Int) (out : List Nat) : Prop where
  length_eq : (out.length : Int) = topK
  nodup : out.Nodup
  lt : ∀ b ∈ out, b < scores.length
  best : ∀ b ∈ out, ∀ c, c ∉ out → ∀ sb sc, scores[b]? = some sb → scores[c]? = some sc → sc ≤ sb

theorem BestBlocks.reverse {scores : List F} {topK : Int} {out : List Nat} (h : BestBlocks scores topK out) :
    BestBlocks scores topK out.reverse := by
  obtain ⟨hlength, hnodup, hlt, hbest⟩ := h
  exact ⟨by rwa [List.length_reverse], List.nodup_reverse.mpr hnodup, by simpa using hlt, by simpa using hbest⟩

/-- The pairs keep the blocks and change the scores. -/
theorem bestBlocks_of_selects {better : F × Nat → F × Nat → Prop} {scores : List F} (enc : F → F) {topK : Int}
    {chosen : List (F × Nat)} (h : Selects better topK.toNat (scores.zipIdx.map fun p => (enc p.1, p.2)) chosen)
    (hpos : 0 ≤ topK) (hle : topK ≤ scores.length)
    (henc : ∀ a b : F × Nat, ¬ better (enc a.1, a.2) (enc b.1, b.2) → a.1 ≤ b.1) :
    BestBlocks scores topK (chosen.map Prod.snd) := by
  obtain ⟨hlength, left, hperm, hbest⟩ := h
  have hblocks : (chosen.map Prod.snd ++ left.map Prod.snd).Perm (List.range scores.length) := by
    rw [← List.map_append]
    have hmap := hperm.map Prod.snd
    rwa [List.map_map, show Prod.snd ∘ (fun p : F × Nat => (enc p.1, p.2)) = Prod.snd from rfl, List.zipIdx_map_snd,
      ← List.range_eq_range'] at hmap
  have hpair : ∀ {y : F} {b : Nat}, (y, b) ∈ chosen ++ left → ∃ sb, scores[b]? = some sb ∧ y = enc sb := by
    intro y b hmem
    obtain ⟨⟨sb, b'⟩, hsb, heq⟩ := List.mem_map.mp (hperm.mem_iff.mp hmem)
    obtain ⟨rfl, rfl⟩ := Prod.mk.inj heq
    exact ⟨sb, List.mem_zipIdx_iff_getElem?.mp hsb, rfl⟩
  constructor
  case length_eq =>
    rw [List.length_map, hlength, List.length_map, List.length_zipIdx]
    omega
  case nodup => exact (List.nodup_append.mp (hblocks.nodup_iff.mpr List.nodup_range)).1
  case lt =>
    intro b hb
    exact List.mem_range.mp (hblocks.mem_iff.mp (List.mem_append_left _ hb))
  case best =>
    intro b hb c hc sb sc hsb hsc
    obtain ⟨⟨y, b'⟩, hchosen, rfl⟩ := List.mem_map.mp hb
    obtain ⟨sb', hsb', rfl⟩ := hpair (List.mem_append_left _ hchosen)
    obtain rfl := Option.some.inj (hsb'.symm.trans hsb)
    have hall : (enc sc, c) ∈ chosen ++ left :=
      hperm.mem_iff.mpr (List.mem_map.mpr ⟨(sc, c), List.mem_zipIdx_iff_getElem?.mpr hsc, rfl⟩)
    rcases List.mem_append.mp hall with hmem | hmem
    · exact absurd (List.mem_map.mpr ⟨_, hmem, rfl⟩) hc
    · exact henc (sc, c) (sb', b') (hbest _ hchosen _ hmem)

instance : Std.Total (pairLe (F := F)) where
  total a b := by
    rcases lt_trichotomy a.1 b.1 with h | h | h
    · exact .inl (.inl h)
    · rcases le_total a.2 b.2 with hle | hle
      · exact .inl (.inr ⟨h, hle⟩)
      · exact .inr (.inr ⟨h.symm, hle⟩)
    · exact .inr (.inl h)

instance : IsTrans (F × Nat) pairLe where
  trans a b c := by
    rintro (hab | ⟨hab, hab'⟩) (hbc | ⟨hbc, hbc'⟩)
    · exact .inl (hab.trans hbc)
    · exact .inl (hbc ▸ hab)
    · exact .inl (hab ▸ hbc)
    · exact .inr ⟨hab.trans hbc, hab'.trans hbc'⟩

theorem not_pairLt {a b : F × Nat} : ¬ pairLt b a ↔ pairLe a b := by
  simp only [pairLt, pairLe, not_or, not_and, not_lt]
  constructor
  · rintro ⟨hle, heq⟩
    rcases hle.lt_or_eq with h | h
    · exact .inl h
    · exact .inr ⟨h, heq h.symm⟩
  · rintro (h | ⟨h, hle⟩)
    · exact ⟨h.le, fun heq => absurd heq.symm h.ne⟩
    · exact ⟨h.le, fun _ => hle⟩

instance : Std.Total fun a b : F × Nat => ¬ pairLt b a where
  total a b := (total_of pairLe a b).imp not_pairLt.mpr not_pairLt.mpr

instance : IsTrans (F × Nat) fun a b => ¬ pairLt b a where
  trans _ _ _ hab hbc := not_pairLt.mpr (trans_of pairLe (not_pairLt.mp hab) (not_pairLt.mp hbc))

instance : Std.Total fun a b : F × Nat => ¬ higher b a where
  total a b := by
    rcases le_total a.1 b.1 with h | h
    · exact .inr (not_lt_of_ge h)
    · exact .inl (not_lt_of_ge h)

instance : IsTrans (F × Nat) fun a b => ¬ higher b a where
  trans _ _ _ hab hbc := not_lt_of_ge ((not_lt.mp hbc).trans (not_lt.mp hab))

theorem scalarTopK_best {scores : List F} {topK : Int} (hpos : 1 ≤ topK) (hle : topK ≤ scores.length)
    (hlt : topK < 2 ^ 64) : ∃ out, scalarTopK scores topK = some out ∧ BestBlocks scores topK out := by
  have hlimit : topK % 2 ^ 64 = topK := Int.emod_eq_of_lt (by omega) hlt
  have hr : ∀ a b : F × Nat, pairLe a b → ¬ higher a b := by
    rintro a b (h | ⟨h, -⟩)
    · exact not_lt_of_ge h.le
    · exact not_lt_of_ge h.le
  obtain ⟨heap, hfold, -, hsel⟩ := foldlM_offer hr (show 0 < topK.toNat by omega) scores.zipIdx
  refine ⟨(heap.map Prod.snd).reverse, ?_, BestBlocks.reverse ?_⟩
  · rw [scalarTopK, hlimit, hfold]
    rfl
  · rw [← List.map_id' scores.zipIdx] at hsel
    exact bestBlocks_of_selects id hsel (by omega) hle fun a b h => not_lt.mp h

variable [CommRing F] [IsStrictOrderedRing F]

theorem simdTopK_best (nthElement : Selection.Partition (pairLt (F := F))) {scores : List F} {topK : Int}
    (hpos : 1 ≤ topK) (hle : topK ≤ scores.length) :
    ∃ out, simdTopK nthElement scores topK = some out ∧ BestBlocks scores topK out := by
  refine ⟨_, if_pos ⟨hpos, hle⟩, ?_⟩
  refine bestBlocks_of_selects (fun s => 0 - s) (nthElement.selects topK.toNat _) (by omega) hle ?_
  intro a b h
  have hge : ¬ 0 - a.1 < 0 - b.1 := fun hlt => h (.inl hlt)
  simpa using hge

end Best

section Right

variable [CommRing F] [LinearOrder F] [IsStrictOrderedRing F]

/-- No column is left to the remainder, unless it starts at the first column. -/
def Sizes.Aligned (d : Sizes) : Prop := d.rows = [] ∨ d.dPruned < 8 ∨ 8 ∣ d.dPruned

variable {isa : Isa} {d : Sizes} {q k : Int → F} {softmax : Int → (Int → F) → Int → F}

omit [LinearOrder F] [IsStrictOrderedRing F] in
theorem sameScores (hfits : d.Fits isa) (haligned : d.Aligned) :
    simdFinalScores softmax isa d q k = scalarFinalScores softmax d q k := by
  rw [scalarFinalScores_eq hfits]
  apply simdFinalScores_eq hfits
  rcases haligned with hnone | hcolumns
  · rw [simdScores, hnone]
    rfl
  · exact simdScores_exact hfits hcolumns

theorem sameScores_iff (hfits : d.Fits isa) :
    (∀ (softmax : Int → (Int → F) → Int → F) (q k : Int → F),
      simdFinalScores softmax isa d q k = scalarFinalScores softmax d q k) ↔ d.Aligned := by
  constructor
  · intro h
    by_contra haligned
    simp only [Sizes.Aligned, not_or, not_lt] at haligned
    exact scores_differ hfits haligned.1 haligned.2.1 haligned.2.2 (h _ _ _)
  · intro haligned softmax q k
    exact sameScores hfits haligned

theorem executes_best {nthElement : Selection.Partition (pairLt (F := F))} {fresh : Int → F} {task : RetrieveTask F}
    (hprepare : prepare fresh task = .ok (d, q)) (hfits : d.Fits isa) (haligned : d.Aligned)
    (hpos : 1 ≤ task.topK) (hle : task.topK ≤ d.numBlocks) : ∃ scores out out',
      simdFinalScores softmax isa d q task.blkRepre.data = some scores ∧
      scalarFinalScores softmax d q task.blkRepre.data = some scores ∧
      simdExecute nthElement softmax fresh isa task = .ok out ∧ BestBlocks scores task.topK out ∧
      scalarExecute softmax fresh task = .ok out' ∧ BestBlocks scores task.topK out' := by
  have hscores : scalarFinalScores softmax d q task.blkRepre.data = _ := scalarFinalScores_eq hfits
  have hsimd := (sameScores hfits haligned).trans hscores
  generalize hs : (List.range d.numBlocks).map _ = scores at hscores hsimd
  have hlength : scores.length = d.numBlocks := by rw [← hs, List.length_map, List.length_range]
  have hblocks : d.numBlocks ≤ d.S := Nat.le_mul_of_pos_right _ hfits.M_pos
  have hlt := hfits.S_lt
  obtain ⟨out, hout, hbest⟩ := simdTopK_best nthElement hpos (hlength ▸ hle)
  obtain ⟨out', hout', hbest'⟩ := scalarTopK_best hpos (hlength ▸ hle) (by omega)
  refine ⟨scores, out, out', hsimd, hscores, ?_, hbest, ?_, hbest'⟩
  · simp only [simdExecute, hprepare, Except.bind, hsimd, Option.bind_some, hout, orUndefined]
  · simp only [scalarExecute, hprepare, Except.bind, hscores, Option.bind_some, hout', orUndefined]

variable (F) in
/-- The vector kernels compute what the scalar loops compute when no column is left to the remainder. -/
theorem kernels_right_iff (isa : Isa) :
    (∀ K N stride : Int, 0 ≤ K → 0 ≤ N → K ≤ stride →
      ((∀ A x y : Int → F, gemv isa A x y K N stride = some (added A x y N stride K.toNat)) ↔
        K < 2 ^ 31 - 32 ∧ (K < 8 ∨ 8 ∣ K ∨ N = 0))) ∧
    (∀ N : Nat, AddsAll F isa N ↔ (isa = .avx2 → N ≤ 2 ^ 31 - 32)) ∧
    (∀ d : Sizes, d.Fits isa →
      ((∀ (softmax : Int → (Int → F) → Int → F) (q k : Int → F),
        simdFinalScores softmax isa d q k = scalarFinalScores softmax d q k) ↔ d.Aligned)) ∧
    ∀ (nthElement : Selection.Partition (pairLt (F := F))) (softmax : Int → (Int → F) → Int → F) (fresh : Int → F)
      (task : RetrieveTask F) (d : Sizes) (q : Int → F), prepare fresh task = .ok (d, q) → d.Fits isa → d.Aligned →
      1 ≤ task.topK → task.topK ≤ d.numBlocks → ∃ scores out out',
        simdFinalScores softmax isa d q task.blkRepre.data = some scores ∧
        scalarFinalScores softmax d q task.blkRepre.data = some scores ∧
        simdExecute nthElement softmax fresh isa task = .ok out ∧ BestBlocks scores task.topK out ∧
        scalarExecute softmax fresh task = .ok out' ∧ BestBlocks scores task.topK out' := by
  refine ⟨?_, fun N => addsAll_iff, fun d hfits => sameScores_iff hfits, ?_⟩
  · intro K N stride hK hN _
    lift K to Nat using hK
    rw [Int.toNat_natCast, gemv_adds_iff]
    omega
  · intro nthElement softmax fresh task d q hprepare hfits haligned hpos hle
    exact executes_best hprepare hfits haligned hpos hle

/-- Two blocks of one vector with eight columns. -/
def eightColumns : RetrieveTask Int where
  queryGroup := ⟨fun _ => 1, [1, 1, 8]⟩
  blkRepre := ⟨fun i => i, [2, 1, 1, 8]⟩
  dPrunedIndex := none
  topK := 1

theorem kernels_right_iff_eightColumns :
    (∀ A x y : Int → Int, gemv .neon A x y 16 3 16 = some (added A x y 3 16 16)) ∧ AddsAll Int .neon 21 ∧
    ∃ scores out out',
      simdFinalScores (fun _ row => row) .neon ⟨1, 1, 2, 1, 1, 8⟩ (fun _ => 1) eightColumns.blkRepre.data = some scores ∧
      scalarFinalScores (fun _ row => row) ⟨1, 1, 2, 1, 1, 8⟩ (fun _ => 1) eightColumns.blkRepre.data = some scores ∧
      simdExecute (Selection.ofInsertionSort pairLt).toPartition (fun _ row => row) 0 .neon eightColumns = .ok out ∧
      BestBlocks scores 1 out ∧
      scalarExecute (fun _ row => row) 0 eightColumns = .ok out' ∧ BestBlocks scores 1 out' := by
  obtain ⟨hgemv, hadds, -, hbest⟩ := kernels_right_iff Int .neon
  refine ⟨(hgemv 16 3 16 (by decide) (by decide) (by decide)).mpr (by decide),
    (hadds 21).mpr (by simp), ?_⟩
  exact hbest _ _ 0 eightColumns ⟨1, 1, 2, 1, 1, 8⟩ (fun _ => 1) rfl
    ⟨by decide, by decide, by decide, by decide, by simp⟩ (.inr (.inr (by decide))) (by decide) (by decide)

/-- The ninth column is multiplied with what lies behind the vector. -/
theorem not_added_ninthColumn :
    (gemv .neon (oneAt 8) (oneAt 8) 0 9 1 9).map (· 0) = some (0 : Int) ∧
    (gemv .avx2 (oneAt 8) (oneAt 8) 0 9 1 9).map (· 0) = some (0 : Int) ∧
    added (oneAt 8) (oneAt 8) 0 1 9 9 0 = (1 : Int) := by
  decide

end Right

end UnifiedCache.Sparse.SimdKernels
