import UnifiedCache.Sparse.TopkBlockSelector
import UnifiedCache.Sparse.VectorProducts

/-! The scores of the blocks: for every key head the mean of its query heads, against which the
representatives of a block are measured. -/

open UnifiedCache.Sparse.VecProduct (Simd)

namespace UnifiedCache.Sparse.SelectTopkBlock

variable {F : Type*} [Field F] [LinearOrder F]

/-- `std::numeric_limits<float>::max()`. -/
def floatMax : F := (2 ^ 24 - 1) * 2 ^ 104

/-- The products as they are compiled. A loop that does not end gives nothing. -/
def compiled (simd : Simd) : VecProduct F where
  vectorDot q k headSize := (simd.vectorDot q k (UInt32.ofNat headSize)).getD 0
  vectorMean q vectors mean headSize groupSize :=
    (simd.vectorMean q vectors mean (UInt32.ofNat headSize) (UInt32.ofNat groupSize)).getD q

section Meaning

variable (q kRepre : Nat → F) (kHead numKrepre headSize g : Nat)

/-- The mean of the query heads `h * g` to `h * g + g - 1`. -/
def headMean (h j : Nat) : F := (∑ r ∈ Finset.range g, q ((h * g + r) * headSize + j)) / g

def repreDot (b h r : Nat) : F :=
  ∑ j ∈ Finset.range headSize, headMean q headSize g h j * kRepre (((b * kHead + h) * numKrepre + r) * headSize + j)

/-- The largest of the values, of which there is at least one. -/
def largest (n : Nat) (f : Nat → F) : F :=
  if h : (Finset.range n).Nonempty then (Finset.range n).sup' h f else 0

def blockScore (b : Nat) : F :=
  ∑ h ∈ Finset.range kHead, largest numKrepre (repreDot q kRepre kHead numKrepre headSize g b h)

/-- Some representative of every block and head is at `-floatMax` or above. -/
def AboveFloor (numBlock : Nat) : Prop :=
  ∀ b < numBlock, ∀ h < kHead, -floatMax ≤ largest numKrepre (repreDot q kRepre kHead numKrepre headSize g b h)

/-- One at the last of the first `n` numbers. -/
def lastOf (n : Nat) : Nat → F := fun a => if a + 1 = n then 1 else 0

end Meaning

section Sizes

variable (simd : Simd) (numBlock kHead qHead numKrepre headSize : UInt32) (g : Nat)

/-- The blocks are scored as they should be. -/
structure Scored (q kRepre : Nat → F) : Prop where
  dotEnds : ∀ q k : Nat → F, (simd.vectorDot q k headSize).isSome
  meanEnds : kHead ≠ qHead → ∀ (mem : Nat → F) (vectors mean : Nat),
    (simd.vectorMean mem vectors mean headSize (qHead / kHead)).isSome
  means : ∀ h < kHead.toNat, ∀ j < headSize.toNat,
    computeQHeadMean (compiled simd) q kHead qHead headSize (h * headSize.toNat + j) = headMean q headSize.toNat g h j
  scores : ∀ b < numBlock.toNat,
    computeKQDotScores (compiled simd) (-floatMax) (computeQHeadMean (compiled simd) q kHead qHead headSize) kRepre
      kHead numKrepre headSize b = blockScore q kRepre kHead.toNat numKrepre.toNat headSize.toNat g b

/-- No product in `uint32_t` and no guard of a loop wraps. -/
structure NoWrap : Prop where
  guard : headSize.toNat + simd.lanes < 2 ^ 32
  row : 1 < g → (g - 1) * headSize.toNat < 2 ^ 32
  group : 1 < g → (kHead.toNat - 1) * g * headSize.toNat < 2 ^ 32
  block : 1 < numBlock.toNat → kHead.toNat * numKrepre.toNat * headSize.toNat < 2 ^ 32

end Sizes

section Largest

variable {n : Nat} {f : Nat → F} {lowest : F}

theorem largest_succ (hn : 0 < n) : largest (n + 1) f = max (largest n f) (f n) := by
  have hrange : (Finset.range n).Nonempty := Finset.nonempty_range_iff.mpr hn.ne'
  rw [largest, dif_pos Finset.nonempty_range_add_one, largest, dif_pos hrange, max_comm]
  simp only [Finset.range_add_one]
  exact Finset.sup'_insert hrange f

theorem le_largest {r : Nat} (hr : r < n) : f r ≤ largest n f := by
  have hrange : (Finset.range n).Nonempty := ⟨r, Finset.mem_range.mpr hr⟩
  rw [largest, dif_pos hrange]
  exact Finset.le_sup' f (Finset.mem_range.mpr hr)

theorem largest_eq_zero (hn : 0 < n) (h : ∀ r < n, f r = 0) : largest n f = 0 := by
  have hrange : (Finset.range n).Nonempty := Finset.nonempty_range_iff.mpr hn.ne'
  obtain ⟨r, hr, hmax⟩ := Finset.exists_mem_eq_sup' hrange f
  rw [largest, dif_pos hrange, hmax, h r (Finset.mem_range.mp hr)]

theorem largest_nonneg (hn : 0 < n) (h : ∀ r, 0 ≤ f r) : 0 ≤ largest n f :=
  (h 0).trans (le_largest hn)

/-- What the loop over the representatives finds. -/
theorem foldl_max (hn : 0 < n) :
    (List.range n).foldl (fun best r => max best (f r)) lowest = max lowest (largest n f) := by
  induction n, hn using Nat.le_induction with
  | base => simp [largest]
  | succ n hn ih => rw [List.range_succ, List.foldl_append, ih, largest_succ hn, ← max_assoc]; rfl

end Largest

section Run

variable {simd : Simd} {numBlock kHead qHead numKrepre headSize : UInt32} {g : Nat} {q kRepre : Nat → F}

omit [LinearOrder F] in
theorem vectorDot_compiled (h : headSize.toNat + simd.lanes < 2 ^ 32) (a b : Nat → F) :
    (compiled simd).vectorDot a b headSize.toNat = ∑ j ∈ Finset.range headSize.toNat, a j * b j := by
  simp only [compiled, UInt32.ofNat_toNat]
  rw [simd.vectorDot_eq a b h, Option.getD_some]

theorem floatMax_nonneg [IsStrictOrderedRing F] : (0 : F) ≤ floatMax :=
  mul_nonneg (by norm_num) (by positivity)

/-- What the code adds up, wherever it takes the block to begin. -/
theorem computeKQDotScores_eq (h : headSize.toNat + simd.lanes < 2 ^ 32) (hr : 0 < numKrepre.toNat) (lowest : F)
    (qMean : Nat → F) (b : Nat) :
    computeKQDotScores (compiled simd) lowest qMean kRepre kHead numKrepre headSize b =
      ∑ h ∈ Finset.range kHead.toNat, max lowest (largest numKrepre.toNat fun r =>
        ∑ j ∈ Finset.range headSize.toNat, qMean (h * headSize.toNat + j) *
          kRepre (b * (kHead * numKrepre * headSize).toNat +
            (h * (numKrepre.toNat * headSize.toNat) + (r * headSize.toNat + j)))) := by
  simp only [computeKQDotScores, computeBlockScore, vectorDot_compiled h, foldl_max hr]
  rw [foldl_add_eq_sum, zero_add]

/-- A turn of the loop over the heads. -/
def headTurn (vecProduct : VecProduct F) (kHead qHead headSize : UInt32) (q : Nat → F) (kIdx : Nat) : Nat → F :=
  vecProduct.vectorMean q (UInt32.ofNat kIdx * (qHead / kHead) * headSize).toNat (UInt32.ofNat kIdx * headSize).toNat
    headSize.toNat (qHead / kHead).toNat

omit [Field F] [LinearOrder F] in
theorem computeQHeadMean_eq_foldl (vecProduct : VecProduct F) :
    computeQHeadMean vecProduct q kHead qHead headSize =
      if kHead = qHead then q else (List.range kHead.toNat).foldl (headTurn vecProduct kHead qHead headSize) q := rfl

theorem toNat_blockOffset : (kHead * numKrepre * headSize).toNat =
    kHead.toNat * numKrepre.toNat * headSize.toNat % 2 ^ 32 := by
  rw [UInt32.toNat_mul, UInt32.toNat_mul, Nat.mod_mul_mod]

theorem aboveFloor_of_nonneg [IsStrictOrderedRing F] {numBlock kHead numKrepre headSize : Nat} (hr : 0 < numKrepre)
    (h : ∀ b h r, 0 ≤ repreDot q kRepre kHead numKrepre headSize g b h r) :
    AboveFloor q kRepre kHead numKrepre headSize g numBlock := by
  intro b _ hd _
  have hzero : -floatMax ≤ (0 : F) := neg_nonpos.mpr floatMax_nonneg
  exact hzero.trans (largest_nonneg hr (h b hd))

omit [LinearOrder F] in
theorem headMean_lastOf {kHead headSize : Nat} (hk : 0 < kHead) (hg : 0 < g) (hpos : 0 < headSize) :
    headMean (lastOf (kHead * g * headSize)) headSize g (kHead - 1) (headSize - 1) = (1 : F) / g := by
  obtain ⟨last, rfl⟩ : ∃ last, kHead = last + 1 := ⟨kHead - 1, by omega⟩
  have hrow : ∀ r, (last * g + r) * headSize + (headSize - 1) + 1 = (last + 1) * g * headSize ↔ r = g - 1 := by
    intro r
    have hend : (last * g + r) * headSize + (headSize - 1) + 1 = (last * g + (r + 1)) * headSize := by
      rw [Nat.add_assoc, Nat.sub_add_cancel hpos]
      ring
    rw [hend, Nat.succ_mul, Nat.mul_left_inj hpos.ne']
    omega
  rw [headMean, Nat.add_sub_cancel, Finset.sum_eq_single_of_mem (g - 1) (Finset.mem_range.mpr (by omega))]
  · rw [lastOf, if_pos ((hrow _).mpr rfl)]
  · intro r _ hne
    rw [lastOf, if_neg (mt (hrow r).mp hne)]

omit [LinearOrder F] in
theorem headMean_ones {headSize h j : Nat} (hg : (g : F) ≠ 0) : headMean (fun _ => (1 : F)) headSize g h j = 1 := by
  rw [headMean, Finset.sum_const, Finset.card_range, nsmul_one, div_self hg]

theorem lastOf_nonneg [IsStrictOrderedRing F] {n : Nat} (a : Nat) : (0 : F) ≤ lastOf n a := by
  rw [lastOf]
  split_ifs
  · exact zero_le_one
  · exact le_rfl

theorem repreDot_lastOf_nonneg [IsStrictOrderedRing F] {kHead numKrepre headSize n b h r : Nat} (hg : 0 < g) :
    0 ≤ repreDot (fun _ => (1 : F)) (lastOf n) kHead numKrepre headSize g b h r := by
  refine Finset.sum_nonneg fun j _ => ?_
  rw [headMean_ones (Nat.cast_ne_zero.mpr hg.ne'), one_mul]
  exact lastOf_nonneg _

theorem one_le_blockScore [IsStrictOrderedRing F] {kHead numKrepre headSize : Nat} (hg : 0 < g) (hk : 0 < kHead)
    (hr : 0 < numKrepre) (hpos : 0 < headSize) : 1 ≤ blockScore (fun _ => (1 : F))
      (lastOf (2 * (kHead * numKrepre * headSize))) kHead numKrepre headSize g 1 := by
  obtain ⟨k, rfl⟩ : ∃ k, kHead = k + 1 := ⟨kHead - 1, by omega⟩
  obtain ⟨r, rfl⟩ : ∃ r, numKrepre = r + 1 := ⟨numKrepre - 1, by omega⟩
  obtain ⟨n, rfl⟩ : ∃ n, headSize = n + 1 := ⟨headSize - 1, by omega⟩
  have hend : ((k + 1 + k) * (r + 1) + r) * (n + 1) + n + 1 = 2 * ((k + 1) * (r + 1) * (n + 1)) := by ring
  generalize hcells : 2 * ((k + 1) * (r + 1) * (n + 1)) = cells at hend ⊢
  have hg' : (g : F) ≠ 0 := Nat.cast_ne_zero.mpr hg.ne'
  have hdot : 1 ≤ repreDot (fun _ => (1 : F)) (lastOf cells) (k + 1) (r + 1) (n + 1) g 1 k r := by
    rw [repreDot, Finset.sum_range_succ, headMean_ones hg', Nat.one_mul, one_mul, lastOf, if_pos hend]
    refine le_add_of_nonneg_left (Finset.sum_nonneg fun j _ => ?_)
    rw [headMean_ones hg', one_mul]
    exact lastOf_nonneg _
  have hhead : 1 ≤ largest (r + 1)
      (repreDot (fun _ => (1 : F)) (lastOf cells) (k + 1) (r + 1) (n + 1) g 1 k) :=
    hdot.trans (le_largest (Nat.lt_succ_self r))
  rw [blockScore, Finset.sum_range_succ]
  refine hhead.trans (le_add_of_nonneg_left (Finset.sum_nonneg fun h _ => ?_))
  exact largest_nonneg hr fun r => repreDot_lastOf_nonneg hg

section Mean

variable (hg : 0 < g) (hq : qHead.toNat = g * kHead.toNat) (hk : 0 < kHead.toNat)
include hg hq hk

omit hg in
theorem toNat_groupSize : (qHead / kHead).toNat = g := by
  rw [UInt32.toNat_div, hq, Nat.mul_div_cancel _ hk]

theorem groupSize_ne_zero : qHead / kHead ≠ 0 := by
  intro hz
  have := toNat_groupSize hq hk
  rw [hz] at this
  exact hg.ne this

omit hg in
theorem kHead_eq_qHead_iff : kHead = qHead ↔ g = 1 := by
  rw [← UInt32.toNat_inj, hq]
  constructor
  · intro h
    exact Nat.eq_of_mul_eq_mul_right hk (by rw [← h, Nat.one_mul])
  · rintro rfl
    exact (Nat.one_mul _).symm

omit hg in
theorem toNat_sourceIdx {n : Nat} (hn : n < kHead.toNat) : (UInt32.ofNat n * (qHead / kHead)).toNat = n * g := by
  have hlt := kHead.toNat_lt
  have hgroup := toNat_groupSize hq hk
  have hle : n * g ≤ qHead.toNat := by
    rw [hq, Nat.mul_comm]
    exact Nat.mul_le_mul_left g hn.le
  rw [VecProduct.toNat_row (by omega), hgroup]
  rw [hgroup]
  exact hle.trans_lt qHead.toNat_lt

section Fits

variable (hguard : headSize.toNat + simd.lanes < 2 ^ 32) (hrow : 1 < g → (g - 1) * headSize.toNat < 2 ^ 32)
  (hgroup : 1 < g → (kHead.toNat - 1) * g * headSize.toNat < 2 ^ 32)
include hguard hrow hgroup

omit [LinearOrder F] in
/-- The vectors of a group begin at the mean or behind it. -/
theorem headTurn_eq (h1 : 1 < g) {n : Nat} (hn : n < kHead.toNat) (mem : Nat → F) :
    headTurn (compiled simd) kHead qHead headSize mem n = fun a =>
        if n * headSize.toNat ≤ a ∧ a < n * headSize.toNat + headSize.toNat then
          (∑ r ∈ Finset.range g, mem (n * g * headSize.toNat + r * headSize.toNat + (a - n * headSize.toNat))) / g
        else mem a := by
  have hlt := kHead.toNat_lt
  have hsource : n * g * headSize.toNat < 2 ^ 32 :=
    (Nat.mul_le_mul_right _ (Nat.mul_le_mul_right g (Nat.le_sub_one_of_lt hn))).trans_lt (hgroup h1)
  have hle : n * headSize.toNat ≤ n * g * headSize.toNat := Nat.mul_le_mul_right _ (Nat.le_mul_of_pos_right n hg)
  have hmean : n * headSize.toNat = n * g * headSize.toNat ∨
      n * headSize.toNat + headSize.toNat ≤ n * g * headSize.toNat := by
    obtain rfl | hpos := Nat.eq_zero_or_pos n
    · simp
    · right
      calc n * headSize.toNat + headSize.toNat = (n + 1) * headSize.toNat := (Nat.succ_mul _ _).symm
        _ ≤ n * g * headSize.toNat := Nat.mul_le_mul_right _ (by nlinarith)
  have hvectors : (UInt32.ofNat n * (qHead / kHead) * headSize).toNat = n * g * headSize.toNat := by
    rw [UInt32.toNat_mul, toNat_sourceIdx hq hk hn, Nat.mod_eq_of_lt hsource]
  have hrows : ((qHead / kHead).toNat - 1) * headSize.toNat < 2 ^ 32 := by
    rw [toNat_groupSize hq hk]
    exact hrow h1
  simp only [headTurn, compiled, UInt32.ofNat_toNat]
  rw [hvectors, VecProduct.toNat_row (by omega) (by omega),
    simd.vectorMean_eq hguard (groupSize_ne_zero hg hq hk) hrows hmean, Option.getD_some, toNat_groupSize hq hk]

omit [LinearOrder F] in
/-- After `n` turns the first `n` rows are means, and behind them nothing has changed. -/
theorem foldl_headTurn (h1 : 1 < g) {n : Nat} (hn : n ≤ kHead.toNat) :
    (∀ h < n, ∀ j < headSize.toNat,
      (List.range n).foldl (headTurn (compiled simd) kHead qHead headSize) q (h * headSize.toNat + j) =
        headMean q headSize.toNat g h j) ∧
    ∀ a, n * headSize.toNat ≤ a →
      (List.range n).foldl (headTurn (compiled simd) kHead qHead headSize) q a = q a := by
  induction n with
  | zero => exact ⟨fun h hh => absurd hh (Nat.not_lt_zero h), fun a _ => rfl⟩
  | succ n ih =>
    obtain ⟨hmeans, hrest⟩ := ih (by omega)
    rw [List.range_succ, List.foldl_append, List.foldl_cons, List.foldl_nil,
      headTurn_eq hg hq hk hguard hrow hgroup h1 (by omega)]
    constructor
    · intro h hh j hj
      obtain rfl | hlt := Nat.eq_or_lt_of_le (Nat.le_of_lt_succ hh)
      · have hin : h * headSize.toNat ≤ h * headSize.toNat + j ∧
            h * headSize.toNat + j < h * headSize.toNat + headSize.toNat := by omega
        simp only [if_pos hin, headMean, Nat.add_sub_cancel_left]
        congr 1
        refine Finset.sum_congr rfl fun r _ => ?_
        have hle : h * headSize.toNat ≤ h * g * headSize.toNat :=
          Nat.mul_le_mul_right _ (Nat.le_mul_of_pos_right h hg)
        rw [hrest _ (by omega), Nat.add_mul]
      · have hbefore : h * headSize.toNat + headSize.toNat ≤ n * headSize.toNat := by
          rw [← Nat.succ_mul]
          exact Nat.mul_le_mul_right _ hlt
        have hout : ¬(n * headSize.toNat ≤ h * headSize.toNat + j ∧
            h * headSize.toNat + j < n * headSize.toNat + headSize.toNat) := by omega
        simp only [if_neg hout]
        exact hmeans h hlt j hj
    · intro a ha
      rw [Nat.succ_mul] at ha
      have hout : ¬(n * headSize.toNat ≤ a ∧ a < n * headSize.toNat + headSize.toNat) := by omega
      simp only [if_neg hout]
      exact hrest a (by omega)

omit [LinearOrder F] in
theorem computeQHeadMean_eq {h j : Nat} (hh : h < kHead.toNat) (hj : j < headSize.toNat) :
    computeQHeadMean (compiled simd) q kHead qHead headSize (h * headSize.toNat + j) =
      headMean q headSize.toNat g h j := by
  rw [computeQHeadMean_eq_foldl]
  split_ifs with heads
  · obtain rfl := (kHead_eq_qHead_iff hq hk).mp heads
    simp [headMean]
  · have h1 : 1 < g := by
      have := mt (kHead_eq_qHead_iff hq hk).mpr heads
      omega
    exact (foldl_headTurn hg hq hk hguard hrow hgroup h1 le_rfl).1 h hh j hj

theorem computeKQDotScores_means (hr : 0 < numKrepre.toNat)
    (hblock : 1 < numBlock.toNat → kHead.toNat * numKrepre.toNat * headSize.toNat < 2 ^ 32) (lowest : F) {b : Nat}
    (hb : b < numBlock.toNat) :
    computeKQDotScores (compiled simd) lowest (computeQHeadMean (compiled simd) q kHead qHead headSize) kRepre kHead
      numKrepre headSize b = ∑ h ∈ Finset.range kHead.toNat,
        max lowest (largest numKrepre.toNat
          (repreDot q kRepre kHead.toNat numKrepre.toNat headSize.toNat g b h)) := by
  have hbase : b * (kHead * numKrepre * headSize).toNat =
      b * (kHead.toNat * numKrepre.toNat * headSize.toNat) := by
    obtain rfl | hpos := Nat.eq_zero_or_pos b
    · rw [Nat.zero_mul, Nat.zero_mul]
    · rw [toNat_blockOffset, Nat.mod_eq_of_lt (hblock (by omega))]
  rw [computeKQDotScores_eq hguard hr, hbase]
  refine Finset.sum_congr rfl fun h hh => ?_
  congr 2
  funext r
  refine Finset.sum_congr rfl fun j hj => ?_
  rw [computeQHeadMean_eq hg hq hk hguard hrow hgroup (Finset.mem_range.mp hh) (Finset.mem_range.mp hj)]
  congr 2
  ring

end Fits

variable [IsStrictOrderedRing F]

theorem scored_of_noWrap (hr : 0 < numKrepre.toNat) (hw : NoWrap simd numBlock kHead numKrepre headSize g) :
    Scored simd numBlock kHead qHead numKrepre headSize g q kRepre ↔
      AboveFloor q kRepre kHead.toNat numKrepre.toNat headSize.toNat g numBlock.toNat := by
  have hscores : ∀ b < numBlock.toNat, computeKQDotScores (compiled simd) (-floatMax)
      (computeQHeadMean (compiled simd) q kHead qHead headSize) kRepre kHead numKrepre headSize b =
        ∑ h ∈ Finset.range kHead.toNat, max (-floatMax) (largest numKrepre.toNat
          (repreDot q kRepre kHead.toNat numKrepre.toNat headSize.toNat g b h)) := fun b hb =>
    computeKQDotScores_means hg hq hk hw.guard hw.row hw.group hr hw.block _ hb
  have hfloor : ∀ b, (blockScore q kRepre kHead.toNat numKrepre.toNat headSize.toNat g b =
      ∑ h ∈ Finset.range kHead.toNat, max (-floatMax) (largest numKrepre.toNat
        (repreDot q kRepre kHead.toNat numKrepre.toNat headSize.toNat g b h))) ↔
      ∀ h < kHead.toNat, -floatMax ≤ largest numKrepre.toNat
        (repreDot q kRepre kHead.toNat numKrepre.toNat headSize.toNat g b h) := by
    intro b
    rw [blockScore, Finset.sum_eq_sum_iff_of_le fun h _ => le_max_right _ _]
    simp only [Finset.mem_range, right_eq_sup]
  constructor
  · intro hs b hb
    exact (hfloor b).mp ((hs.scores b hb).symm.trans (hscores b hb))
  · intro ha
    exact {
      dotEnds := fun q k => by rw [simd.vectorDot_eq q k hw.guard]; rfl
      meanEnds := fun _ mem vectors mean => simd.vectorMean_isSome mem vectors mean _ hw.guard
      means := fun h hh j hj => computeQHeadMean_eq hg hq hk hw.guard hw.row hw.group hh hj
      scores := fun b hb => (hscores b hb).trans ((hfloor b).mpr (ha b hb)).symm }

omit [LinearOrder F] [IsStrictOrderedRing F] in
/-- The last number of the queries is out of reach, and so every number in reach is zero. -/
theorem headTurn_lastOf (hguard : headSize.toNat + simd.lanes < 2 ^ 32) (h1 : 1 < g)
    (hwrap : 2 ^ 32 ≤ (g - 1) * headSize.toNat ∨ 2 ^ 32 ≤ (kHead.toNat - 1) * g * headSize.toNat) {n : Nat}
    (hn : n < kHead.toNat) :
    headTurn (compiled simd) kHead qHead headSize (lastOf (kHead.toNat * g * headSize.toNat) : Nat → F) n =
      lastOf (kHead.toNat * g * headSize.toNat) := by
  have hlt := kHead.toNat_lt
  obtain ⟨last, hlast⟩ : ∃ last, kHead.toNat = last + 1 := ⟨kHead.toNat - 1, by omega⟩
  obtain ⟨above, rfl⟩ : ∃ above, g = above + 1 := ⟨g - 1, by omega⟩
  have hall : kHead.toNat * (above + 1) * headSize.toNat =
      last * (above + 1) * headSize.toNat + (above * headSize.toNat + headSize.toNat) := by
    rw [hlast]
    ring
  have hgroups : n * (above + 1) * headSize.toNat = last * (above + 1) * headSize.toNat ∨
      n * (above + 1) * headSize.toNat + (above * headSize.toNat + headSize.toNat) ≤
        last * (above + 1) * headSize.toNat := by
    obtain rfl | hlt := Nat.eq_or_lt_of_le (show n ≤ last by omega)
    · exact .inl rfl
    · right
      calc n * (above + 1) * headSize.toNat + (above * headSize.toNat + headSize.toNat) =
            (n + 1) * (above + 1) * headSize.toNat := by ring
        _ ≤ last * (above + 1) * headSize.toNat := Nat.mul_le_mul_right _ (Nat.mul_le_mul_right _ hlt)
  have hrows : ∀ {k m : Nat}, k ≤ m → k * headSize.toNat = m * headSize.toNat ∨
      k * headSize.toNat + headSize.toNat ≤ m * headSize.toNat := by
    intro k m hkm
    obtain rfl | hlt := Nat.eq_or_lt_of_le hkm
    · exact .inl rfl
    · right
      rw [← Nat.succ_mul]
      exact Nat.mul_le_mul_right _ hlt
  have hmod : ∀ {k : Nat}, k < 2 ^ 32 →
      (UInt32.ofNat k * headSize).toNat = k * headSize.toNat % 2 ^ 32 := by
    intro k hk
    rw [UInt32.toNat_mul, UInt32.toNat_ofNat', Nat.mod_eq_of_lt hk]
  rw [hlast, Nat.add_sub_cancel, Nat.add_sub_cancel] at hwrap
  simp only [headTurn, compiled, UInt32.ofNat_toNat]
  rw [simd.vectorMean_zero hguard (groupSize_ne_zero hg hq hk), Option.getD_some]
  · intro d hd
    have hmean := hrows (show n ≤ last by omega)
    have hfirst := hrows (show 1 ≤ above by omega)
    have hle : last * headSize.toNat ≤ last * (above + 1) * headSize.toNat :=
      Nat.mul_le_mul_right _ (Nat.le_mul_of_pos_right _ hg)
    rw [lastOf, if_neg]
    rw [hall, hmod (by omega)]
    omega
  · intro k hkg d hd
    rw [toNat_groupSize hq hk] at hkg
    have hrow := hrows (show k ≤ above by omega)
    have hpart : above + 1 ≤ qHead.toNat := hq ▸ Nat.le_mul_of_pos_right _ hk
    have hsize := qHead.toNat_lt
    rw [lastOf, if_neg]
    rw [hall, hmod (by omega), UInt32.toNat_mul, toNat_sourceIdx hq hk hn]
    omega

omit [LinearOrder F] [IsStrictOrderedRing F] in
theorem computeQHeadMean_lastOf (hguard : headSize.toNat + simd.lanes < 2 ^ 32) (h1 : 1 < g)
    (hwrap : 2 ^ 32 ≤ (g - 1) * headSize.toNat ∨ 2 ^ 32 ≤ (kHead.toNat - 1) * g * headSize.toNat) :
    computeQHeadMean (compiled simd) (lastOf (kHead.toNat * g * headSize.toNat) : Nat → F) kHead qHead headSize =
      lastOf (kHead.toNat * g * headSize.toNat) := by
  have hturns : ∀ ns : List Nat, (∀ n ∈ ns, n < kHead.toNat) →
      ns.foldl (headTurn (compiled simd) kHead qHead headSize) (lastOf (kHead.toNat * g * headSize.toNat) : Nat → F) =
        lastOf (kHead.toNat * g * headSize.toNat) := by
    intro ns hns
    induction ns with
    | nil => rfl
    | cons n ns ih =>
      rw [List.foldl_cons, headTurn_lastOf hg hq hk hguard h1 hwrap (hns n List.mem_cons_self)]
      exact ih fun m hm => hns m (List.mem_cons_of_mem n hm)
  rw [computeQHeadMean_eq_foldl]
  split_ifs
  · rfl
  · exact hturns _ fun n hn => List.mem_range.mp hn

/-- The last mean lacks the last number. -/
theorem not_scored_lastOf (hguard : headSize.toNat + simd.lanes < 2 ^ 32) (h1 : 1 < g)
    (hwrap : 2 ^ 32 ≤ (g - 1) * headSize.toNat ∨ 2 ^ 32 ≤ (kHead.toNat - 1) * g * headSize.toNat) :
    ¬ Scored simd numBlock kHead qHead numKrepre headSize g
      (lastOf (kHead.toNat * g * headSize.toNat) : Nat → F) kRepre := by
  intro hs
  have hpos : 0 < headSize.toNat := by
    by_contra hz
    rw [Nat.eq_zero_of_not_pos hz] at hwrap
    omega
  have hlast := hs.means (kHead.toNat - 1) (by omega) (headSize.toNat - 1) (by omega)
  rw [computeQHeadMean_lastOf hg hq hk hguard h1 hwrap, headMean_lastOf hk hg hpos, lastOf, if_neg] at hlast
  · have hne : (1 : F) / g ≠ 0 := one_div_ne_zero (Nat.cast_ne_zero.mpr hg.ne')
    exact hne hlast.symm
  · have hlt : kHead.toNat * headSize.toNat < kHead.toNat * g * headSize.toNat :=
      Nat.mul_lt_mul_of_pos_right (lt_mul_of_one_lt_right hk h1) hpos
    have hend : (kHead.toNat - 1) * headSize.toNat + headSize.toNat = kHead.toNat * headSize.toNat := by
      rw [← Nat.succ_mul, Nat.succ_eq_add_one, Nat.sub_add_cancel hk]
    omega

end Mean

section Block

variable [IsStrictOrderedRing F] (hk : 0 < kHead.toNat) (hr : 0 < numKrepre.toNat)
include hr

/-- The last number of the second block is out of reach. -/
theorem computeKQDotScores_lastOf (hguard : headSize.toNat + simd.lanes < 2 ^ 32)
    (hwrap : 2 ^ 32 ≤ kHead.toNat * numKrepre.toNat * headSize.toNat) (qMean : Nat → F) :
    computeKQDotScores (compiled simd) (-floatMax) qMean
      (lastOf (2 * (kHead.toNat * numKrepre.toNat * headSize.toNat))) kHead numKrepre headSize 1 = 0 := by
  rw [computeKQDotScores_eq hguard hr]
  refine Finset.sum_eq_zero fun h hh => ?_
  have hdots : ∀ r < numKrepre.toNat, ∑ j ∈ Finset.range headSize.toNat, qMean (h * headSize.toNat + j) *
      lastOf (2 * (kHead.toNat * numKrepre.toNat * headSize.toNat)) (1 * (kHead * numKrepre * headSize).toNat +
        (h * (numKrepre.toNat * headSize.toNat) + (r * headSize.toNat + j))) = 0 := by
    intro r hlt
    refine Finset.sum_eq_zero fun j hj => ?_
    have hoffset : (kHead * numKrepre * headSize).toNat =
        kHead.toNat * numKrepre.toNat * headSize.toNat % 2 ^ 32 := toNat_blockOffset
    have hheads : h * (numKrepre.toNat * headSize.toNat) + numKrepre.toNat * headSize.toNat ≤
        kHead.toNat * numKrepre.toNat * headSize.toNat := by
      rw [← Nat.succ_mul, Nat.mul_assoc]
      exact Nat.mul_le_mul_right _ (Finset.mem_range.mp hh)
    have hrows : r * headSize.toNat + headSize.toNat ≤ numKrepre.toNat * headSize.toNat := by
      rw [← Nat.succ_mul]
      exact Nat.mul_le_mul_right _ hlt
    have hcol := Finset.mem_range.mp hj
    rw [lastOf, if_neg (by omega), mul_zero]
  rw [largest_eq_zero hr hdots]
  exact max_eq_right (neg_nonpos.mpr floatMax_nonneg)

/-- The second block scores nothing. -/
theorem not_scored_second (hg : 0 < g) (hk : 0 < kHead.toNat) (hguard : headSize.toNat + simd.lanes < 2 ^ 32)
    (hn : 1 < numBlock.toNat) (hwrap : 2 ^ 32 ≤ kHead.toNat * numKrepre.toNat * headSize.toNat) :
    ¬ Scored simd numBlock kHead qHead numKrepre headSize g (fun _ => (1 : F))
      (lastOf (2 * (kHead.toNat * numKrepre.toNat * headSize.toNat))) := by
  intro hs
  have hpos : 0 < headSize.toNat := by
    by_contra hz
    rw [Nat.eq_zero_of_not_pos hz] at hwrap
    omega
  have hone := one_le_blockScore (F := F) hg hk hr hpos
  rw [← hs.scores 1 hn, computeKQDotScores_lastOf hr hguard hwrap] at hone
  exact hone.not_gt zero_lt_one

end Block

end Run

/-- The scores are right of all numbers in range exactly when nothing wraps. -/
theorem forall_scored_iff [IsStrictOrderedRing F] (simd : Simd) (numBlock kHead qHead numKrepre headSize : UInt32)
    (g : Nat) (hg : 0 < g) (hq : qHead.toNat = g * kHead.toNat) (hk : 0 < kHead.toNat) (hr : 0 < numKrepre.toNat) :
    (∀ q kRepre : Nat → F, Scored simd numBlock kHead qHead numKrepre headSize g q kRepre ↔
      AboveFloor q kRepre kHead.toNat numKrepre.toNat headSize.toNat g numBlock.toNat) ↔
    NoWrap simd numBlock kHead numKrepre headSize g := by
  constructor
  · intro h
    have hguard : headSize.toNat + simd.lanes < 2 ^ 32 := by
      by_contra hwrap
      have hs := (h (fun _ => 0) fun _ => 0).mpr (aboveFloor_of_nonneg hr fun b h r => by simp [repreDot])
      have hends := hs.dotEnds (fun _ => 0) fun _ => 0
      rw [simd.vectorDot_eq_none _ _ (Nat.le_of_not_lt hwrap)] at hends
      exact Bool.false_ne_true hends
    have hmeans : 1 < g → ¬(2 ^ 32 ≤ (g - 1) * headSize.toNat ∨ 2 ^ 32 ≤ (kHead.toNat - 1) * g * headSize.toNat) := by
      intro h1 hwrap
      have hs := (h (lastOf (kHead.toNat * g * headSize.toNat)) fun _ => 0).mpr
        (aboveFloor_of_nonneg hr fun b h r => by simp [repreDot])
      exact not_scored_lastOf hg hq hk hguard h1 hwrap hs
    have hblock : 1 < numBlock.toNat → ¬ 2 ^ 32 ≤ kHead.toNat * numKrepre.toNat * headSize.toNat := by
      intro hn1 hwrap
      have hs := (h (fun _ => 1) (lastOf (2 * (kHead.toNat * numKrepre.toNat * headSize.toNat)))).mpr
        (aboveFloor_of_nonneg hr fun b h r => repreDot_lastOf_nonneg hg)
      exact not_scored_second hr hg hk hguard hn1 hwrap hs
    exact {
      guard := hguard
      row := fun h1 => Nat.lt_of_not_le fun hwrap => hmeans h1 (.inl hwrap)
      group := fun h1 => Nat.lt_of_not_le fun hwrap => hmeans h1 (.inr hwrap)
      block := fun hn1 => Nat.lt_of_not_le (hblock hn1) }
  · intro hw q kRepre
    exact scored_of_noWrap hg hq hk hr hw

theorem forall_scored_iff_pairs : Scored .avx2 3 2 4 2 13 2 (fun a => (a : ℚ)) fun _ => 1 := by
  have hw : NoWrap .avx2 3 2 2 13 2 := {
    guard := by decide
    row := fun _ => by decide
    group := fun _ => by decide
    block := fun _ => by decide }
  have hscored := (forall_scored_iff (F := ℚ) .avx2 3 2 4 2 13 2 (by decide) (by decide) (by decide)
    (by decide)).mpr hw
  refine (hscored (fun a => (a : ℚ)) fun _ => 1).mpr (aboveFloor_of_nonneg (by decide) fun b h r => ?_)
  refine Finset.sum_nonneg fun j _ => mul_nonneg (div_nonneg ?_ (Nat.cast_nonneg _)) zero_le_one
  exact Finset.sum_nonneg fun r _ => Nat.cast_nonneg _

/-- Blocks of `2 ^ 32` numbers: the second is read where the first begins. -/
theorem not_scored_whole : AboveFloor (fun _ => (1 : ℚ)) (lastOf (2 * (1 * 65536 * 65536))) 1 65536 65536 1 2 ∧
    ¬ Scored .avx2 2 1 1 65536 65536 1 (fun _ => (1 : ℚ)) (lastOf (2 * (1 * 65536 * 65536))) := by
  constructor
  · exact aboveFloor_of_nonneg (by decide) fun b h r => repreDot_lastOf_nonneg (by decide)
  · exact not_scored_second (show 0 < (65536 : UInt32).toNat by decide) (by decide)
      (show 0 < (1 : UInt32).toNat by decide) (show (65536 : UInt32).toNat + Simd.avx2.lanes < 2 ^ 32 by decide)
      (show 1 < (2 : UInt32).toNat by decide) (by decide)

end UnifiedCache.Sparse.SelectTopkBlock
