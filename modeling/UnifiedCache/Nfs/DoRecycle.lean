import UnifiedCache.Infra.TopNHeapOrder

/-! A round of the recycle thread: of the files with a time the oldest ones go through a heap of the
recycle number, and are removed. -/

namespace UnifiedCache.NfsStore

open Infra

structure BlockInfo where
  path : String
  timestamp : Nat
  deriving DecidableEq, Inhabited

/-- `CmpTimestamp`. -/
def cmpTimestamp (lhs rhs : BlockInfo) : Bool := rhs.timestamp < lhs.timestamp

def maxRecycleNum : Nat := 10240

/-- The number that `Setup` takes, where `percent` is the product with `recyclePercent`. -/
def recycleNum (percent : Nat → Nat) (totalNumber : Nat) : Nat :=
  let recycleNum := percent totalNumber
  let recycleNum := if recycleNum = 0 then 1 else recycleNum
  if maxRecycleNum < recycleNum then maxRecycleNum else recycleNum

theorem recycleNum_bounds (percent : Nat → Nat) (totalNumber : Nat) :
    1 ≤ recycleNum percent totalNumber ∧ recycleNum percent totalNumber < 2 ^ 31 := by
  simp only [recycleNum, maxRecycleNum]
  split_ifs <;> omega

/-- A path that the iterator yields, with what `Stat` says of it: the seconds of the modification time,
or `none` where it fails. -/
abbrev Yielded := String × Option Nat

def getFileTimestamp (file : Yielded) : Nat := file.2.getD 0

/-- The first loop of `DoRecycle`. The iterator is at its end with an empty path. -/
def offer : List Yielded → TopNHeap BlockInfo → Option (TopNHeap BlockInfo)
  | [], earliestHeap => some earliestHeap
  | file :: it, earliestHeap =>
    if file.1 = "" then some earliestHeap
    else if getFileTimestamp file = 0 then offer it earliestHeap
    else (earliestHeap.push cmpTimestamp ⟨file.1, getFileTimestamp file⟩).bind (offer it)

/-- The files with a time, up to the end of the iterator. -/
def readable (files : List Yielded) : List BlockInfo :=
  ((files.takeWhile (·.1 ≠ "")).map fun file => ⟨file.1, getFileTimestamp file⟩).filter (·.timestamp ≠ 0)

instance : IsStrictWeakOrder BlockInfo fun a b => cmpTimestamp a b = true where
  irrefl a := by simp [cmpTimestamp]
  trans a b c := by
    simp only [cmpTimestamp, decide_eq_true_iff]
    omega
  incomp_trans a b c := by
    simp only [cmpTimestamp, decide_eq_true_iff]
    omega

/-- The heap has the oldest of the files that it was offered. -/
structure Oldest (recycleNum : Nat) (t : TopNHeap BlockInfo) (offered : Multiset BlockInfo) : Prop where
  valid : TopNHeap.Valid cmpTimestamp recycleNum t
  slots : t.Slots
  size : t.size = min recycleNum offered.card
  rest : ∃ rest, t.values + rest = offered ∧ ∀ a ∈ t.values, ∀ b ∈ rest, a.timestamp ≤ b.timestamp

variable {n : Nat} {t : TopNHeap BlockInfo} {offered : Multiset BlockInfo} {files : List Yielded}

theorem Oldest.push (h : Oldest n t offered) (hn : 1 ≤ n) (hw : n < 2 ^ 31 ∨ offered.card < 2 ^ 31) (value : BlockInfo) :
    ∃ t', t.push cmpTimestamp value = some t' ∧ Oldest n t' (value ::ₘ offered) := by
  have hsize := h.size
  have hnoWrap : t.NoWrap (.push value) := by
    refine Or.inr ?_
    omega
  have hkeeps : t.KeepsLive cmpTimestamp (.push value) := h.slots.keepsLive value
  obtain ⟨t', hpush, hvalid, href⟩ := h.valid.call hn hnoWrap (fun hc => by cases hc)
  have hpush : t.push cmpTimestamp value = some t' := hpush
  have href := href.mpr hkeeps
  have hvalid := hvalid hkeeps
  obtain ⟨rest, hrest, hold⟩ := h.rest
  have hcard : t.size + rest.card = offered.card := by
    rw [← hrest, Multiset.card_add, TopNHeap.card_values]
  suffices hnew : t'.size = min n (value ::ₘ offered).card ∧ ∃ rest, t'.values + rest = value ::ₘ offered ∧
      ∀ a ∈ t'.values, ∀ b ∈ rest, a.timestamp ≤ b.timestamp from
    ⟨t', hpush, hvalid, h.slots.push hpush, hnew.1, hnew.2⟩
  rw [TopNHeap.Reference, TopNHeap.card_values] at href
  split_ifs at href with hfree
  · -- There is room, so that all files offered are in the heap.
    have hnil : rest = 0 := Multiset.card_eq_zero.mp (by omega)
    have hvalues : t'.values = value ::ₘ offered := by rw [href, ← hrest, hnil, add_zero]
    refine ⟨?_, 0, by rw [hvalues, add_zero], fun _ _ b hb => absurd hb (Multiset.notMem_zero b)⟩
    rw [← TopNHeap.card_values, href, Multiset.card_cons, Multiset.card_cons, TopNHeap.card_values]
    omega
  · -- The heap is full, and the newest file in it gives way to an older one.
    obtain ⟨m, others, hsplit, hmax, hnew⟩ := href
    have hle : ∀ x ∈ t.values, x.timestamp ≤ m.timestamp := fun x hx => by
      have hnot := hmax x hx
      simpa [cmpTimestamp] using hnot
    have hm : m ∈ t.values := hsplit ▸ Multiset.mem_cons_self m others
    have hsize' : t'.size = t.size := by
      rw [← TopNHeap.card_values, ← TopNHeap.card_values, hnew]
      split_ifs
      · rw [hsplit, Multiset.card_cons, Multiset.card_cons]
      · rfl
    refine ⟨by rw [hsize', Multiset.card_cons]; omega, ?_⟩
    split_ifs at hnew with hlt
    · have hlt : value.timestamp < m.timestamp := by simpa [cmpTimestamp] using hlt
      refine ⟨m ::ₘ rest, ?_, fun a ha b hb => ?_⟩
      · rw [hnew, ← hrest, hsplit, Multiset.cons_add, Multiset.add_cons, Multiset.cons_add]
      · have hb' : m.timestamp ≤ b.timestamp := by
          rcases Multiset.mem_cons.mp hb with rfl | hb
          · exact Nat.le_refl _
          · exact hold m hm b hb
        rw [hnew] at ha
        rcases Multiset.mem_cons.mp ha with rfl | ha
        · omega
        · exact (hle a (hsplit ▸ Multiset.mem_cons_of_mem ha)).trans hb'
    · have hge : m.timestamp ≤ value.timestamp := by simpa [cmpTimestamp] using hlt
      refine ⟨value ::ₘ rest, ?_, fun a ha b hb => ?_⟩
      · rw [hnew, Multiset.add_cons, hrest]
      · rw [hnew] at ha
        rcases Multiset.mem_cons.mp hb with rfl | hb
        · exact (hle a ha).trans hge
        · exact hold a ha b hb

theorem readable_cons (file : Yielded) (it : List Yielded) : readable (file :: it) =
    if file.1 = "" then [] else
      if getFileTimestamp file = 0 then readable it else ⟨file.1, getFileTimestamp file⟩ :: readable it := by
  by_cases h : file.1 = ""
  · simp [readable, h]
  · by_cases ht : getFileTimestamp file = 0 <;> simp [readable, h, ht]

theorem Oldest.offer (h : Oldest n t offered) (hn : 1 ≤ n) (files : List Yielded)
    (hw : n < 2 ^ 31 ∨ offered.card + (readable files).length ≤ 2 ^ 31) :
    ∃ t', offer files t = some t' ∧ Oldest n t' (offered + readable files) := by
  induction files generalizing t offered with
  | nil => exact ⟨t, rfl, by simpa [readable] using h⟩
  | cons file it ih =>
    rw [readable_cons] at hw ⊢
    rw [NfsStore.offer]
    split_ifs at hw ⊢ with hend htime
    · exact ⟨t, rfl, by simpa using h⟩
    · exact ih h hw
    · rw [List.length_cons] at hw
      obtain ⟨t', hpush, h'⟩ := h.push hn (by omega) ⟨file.1, getFileTimestamp file⟩
      obtain ⟨t'', hoffer, h''⟩ := ih h' (by rw [Multiset.card_cons]; omega)
      refine ⟨t'', by rw [hpush]; exact hoffer, ?_⟩
      rw [← Multiset.cons_coe, Multiset.add_cons, ← Multiset.cons_add]
      exact h''

end UnifiedCache.NfsStore
