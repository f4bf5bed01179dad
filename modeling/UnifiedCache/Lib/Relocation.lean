import Mathlib

/-! Copies between cells that run one after another. When no copy overwrites what a later one
reads, they come to what they would all do at once. -/

namespace Relocation

variable {Cell Content : Type*} [DecidableEq Cell] {copies : List (Cell × Cell)} {cells : Cell → Content}
  {p : Cell × Cell} {c : Cell}

/-- Each copy from its first cell to its second. -/
def run (copies : List (Cell × Cell)) (cells : Cell → Content) : Cell → Content :=
  copies.foldl (fun cells p => Function.update cells p.2 (cells p.1)) cells

/-- No copy overwrites a cell that a later copy reads, or the target of a later one. -/
def Ordered (copies : List (Cell × Cell)) : Prop :=
  copies.Pairwise fun p q => p.2 ≠ q.1 ∧ p.2 ≠ q.2

theorem run_of_notMem (h : c ∉ copies.map Prod.snd) : run copies cells c = cells c := by
  induction copies generalizing cells with
  | nil => rfl
  | cons p copies ih =>
    rw [List.map_cons, List.mem_cons, not_or] at h
    rw [run, List.foldl_cons]
    exact (ih h.2).trans (Function.update_of_ne h.1 _ _)

theorem run_of_mem (h : Ordered copies) (hp : p ∈ copies) : run copies cells p.2 = cells p.1 := by
  induction copies generalizing cells with
  | nil => cases hp
  | cons q copies ih =>
    obtain ⟨hq, hrest⟩ := List.pairwise_cons.mp h
    rw [run, List.foldl_cons]
    rcases List.mem_cons.mp hp with rfl | hp
    · have hlast : p.2 ∉ copies.map Prod.snd := by
        intro hmem
        obtain ⟨r, hr, he⟩ := List.mem_map.mp hmem
        exact (hq r hr).2 he.symm
      exact (run_of_notMem hlast).trans (Function.update_self _ _ _)
    · exact (ih hrest hp).trans (Function.update_of_ne (hq p hp).1.symm _ _)

omit [DecidableEq Cell] in
/-- Copies to distinct cells none of which is read. -/
theorem ordered_of_disjoint (hn : (copies.map Prod.snd).Nodup) (hd : ∀ p ∈ copies, ∀ q ∈ copies, p.2 ≠ q.1) :
    Ordered copies := by
  have hne : copies.Pairwise fun p q => p.2 ≠ q.2 := List.pairwise_map.mp hn
  apply hne.imp_of_mem
  intro p q hp hq h
  exact ⟨hd p hp q hq, h⟩

end Relocation
