import UnifiedCache.Sparse.CalKpreAndTopk

/-! The requests of a step in the order of their flags, and what holds between the two threads while
each step of the caller waits for the reset of the step before. -/

namespace UnifiedCache.Sparse.TopkPipeline

open StepSystem

variable {layerNum n : Nat} {isCalKpre kpre : Bool} {ids : List Int} {r : CopyInfo} {f : Flag}

/-- The order in which the flags of a step are raised. -/
def CopyInfo.Before (r r' : CopyInfo) : Prop :=
  r.layerId < r'.layerId ∨ r.layerId = r'.layerId ∧ r.kind = .q ∧ r'.kind = .k

/-- The flags that `Calculate` waits for in a step. -/
def Wanted (layerNum : Nat) (kpre : Bool) (f : Flag) : Prop := f.2 < layerNum ∧ (f.1 = .k → kpre = true)

theorem mem_requests : r ∈ requests layerNum isCalKpre ids n ↔ ∃ layer < layerNum,
    r = ⟨isCalKpre, layer, ids, n⟩ ∨ isCalKpre = true ∧ r = ⟨true, layer, [], n⟩ := by
  simp only [requests, List.mem_flatMap, List.mem_range, List.mem_cons]
  refine exists_congr fun layer => and_congr_right fun _ => or_congr_right ?_
  cases isCalKpre <;> simp

theorem kind_q (h : ids ≠ []) (b : Bool) (layer : Nat) : (CopyInfo.mk b layer ids n).kind = .q := if_neg h

theorem requests_ordered (h : ids ≠ []) : (requests layerNum isCalKpre ids n).Pairwise CopyInfo.Before := by
  rw [requests, List.pairwise_flatMap]
  constructor
  · intro layer _
    cases isCalKpre with
    | false => exact List.pairwise_singleton _ _
    | true =>
      have hlt : CopyInfo.Before ⟨true, layer, ids, n⟩ ⟨true, layer, [], n⟩ := Or.inr ⟨rfl, kind_q h _ _, rfl⟩
      simpa using hlt
  · refine List.pairwise_lt_range.imp fun {a b} hlt x hx y hy => Or.inl ?_
    have hlayer : ∀ c, ∀ z ∈ (⟨isCalKpre, c, ids, n⟩ :: if isCalKpre then [⟨true, c, [], n⟩] else [] : List CopyInfo),
        z.layerId = c := by
      intro c z hz
      cases isCalKpre with
      | false => rw [List.mem_singleton.mp hz]
      | true =>
        rcases List.mem_cons.mp hz with rfl | hz
        · rfl
        · rw [List.mem_singleton.mp hz]
    rw [hlayer a x hx, hlayer b y hy]
    exact hlt

theorem of_mem_requests (h : ids ≠ []) (hr : r ∈ requests layerNum isCalKpre ids n) :
    r.layerId < layerNum ∧ r.step = n ∧ r.needCalKpre = isCalKpre ∧ (r.kind = .k → isCalKpre = true) := by
  obtain ⟨layer, hlt, rfl | ⟨hk, rfl⟩⟩ := mem_requests.mp hr
  · refine ⟨hlt, rfl, rfl, fun hkind => ?_⟩
    rw [kind_q h] at hkind
    cases hkind
  · exact ⟨hlt, rfl, hk.symm, fun _ => hk⟩

theorem mem_requests_of_wanted (h : ids ≠ []) (hf : Wanted layerNum isCalKpre f) :
    ∃ r ∈ requests layerNum isCalKpre ids n, r.flag = f := by
  obtain ⟨kind, layer⟩ := f
  cases kind with
  | q => exact ⟨_, mem_requests.mpr ⟨layer, hf.1, Or.inl rfl⟩, by rw [CopyInfo.flag, kind_q h]⟩
  | k => exact ⟨_, mem_requests.mpr ⟨layer, hf.1, Or.inr ⟨hf.2 rfl, rfl⟩⟩, rfl⟩

theorem CopyInfo.Before.flag_ne {r' : CopyInfo} (h : r.Before r') : r.flag ≠ r'.flag := by
  intro he
  obtain ⟨hkind, hlayer⟩ := Prod.mk.inj he
  rcases h with hlt | ⟨-, hq, hk⟩
  · omega
  · rw [hq, hk] at hkind
    cases hkind

namespace CopyData

/-- Past the assignment of `m_needCalPre`. -/
def Noted : CopyData → Prop
  | branch _ => True
  | lock _ => True
  | locked _ => True
  | store _ _ => True
  | _ => False

/-- The request that it takes `m_calLock` for. -/
def locking : CopyData → Option CopyInfo
  | lock r => some r
  | locked r => some r
  | store r held => if held then some r else none
  | _ => none

/-- The request whose flag it raises without the lock. -/
def storing : CopyData → Option CopyInfo
  | store r held => if held then none else some r
  | _ => none

end CopyData

namespace Calculate

/-- Between the wait and the end of `ResetReady`. -/
def Computing : Calculate → Prop
  | layer _ _ => True
  | spin _ _ => True
  | finish _ => True
  | resetTest _ => True
  | reset _ _ => True
  | resetTopk => True
  | _ => False

/-- The flags that it has waited for. -/
def Passed : Calculate → Flag → Prop
  | layer .k i, f => f.2 < i
  | spin .k i, f => f.2 < i
  | layer .q i, f => f.2 < i ∨ f = (.k, i)
  | spin .q i, f => f.2 < i ∨ f = (.k, i)
  | finish i, f => f.2 ≤ i
  | resetTest _, _ => True
  | reset _ _, _ => True
  | resetTopk, _ => True
  | _, _ => False

/-- The flags that it has reset. -/
def Cleared : Calculate → Flag → Prop
  | resetTest .k, f => f.1 = .q
  | reset .q i, f => f.1 = .q ∧ f.2 < i
  | reset .k i, f => f.1 = .q ∨ f.2 < i
  | resetTopk, _ => True
  | _, _ => False

/-- The flag that it is about to wait for, or has just waited for. -/
def flag : Calculate → Option Flag
  | layer .q i => some (.q, i)
  | spin kind i => some (kind, i)
  | finish i => some (.q, i)
  | _ => none

/-- What it has read of `m_needCalPre` in `CheckDataStatus`. -/
def hasRead : Calculate → Option Bool
  | readRunning need => some need
  | readReady need => some need
  | _ => none

variable {c : Calculate}

theorem outside (h : ¬ c.Computing) : (∀ f, ¬ c.Cleared f) ∧ (∀ f, ¬ c.Passed f) ∧ c.flag = none := by
  cases c with
  | layer kind i | spin kind i | finish i | resetTest kind | reset kind i | resetTopk => exact absurd trivial h
  | _ => exact ⟨fun _ => id, fun _ => id, rfl⟩

theorem inside (h : c.Computing) : c.holds = true ∧ c.hasRead = none ∧ c ≠ .resetPre := by
  cases c with
  | layer kind i | spin kind i | finish i | resetTest kind | reset kind i | resetTopk =>
    exact ⟨rfl, rfl, fun he => by cases he⟩
  | _ => exact h.elim

end Calculate

namespace CalKpreAndTopk

/-- The requests of the current step, of which `CopyData` has handled the first ones. Between two
steps there are none. -/
structure Inv (layerNum : Nat) (kpre : Bool) (issued handled : List CopyInfo) (s : CalKpreAndTopk) : Prop where
  split : issued = handled ++ s.pending
  ordered : issued.Pairwise CopyInfo.Before
  of_mem : ∀ r ∈ issued, r.layerId < layerNum ∧ r.step = s.begun ∧ r.needCalKpre = kpre ∧ (r.kind = .k → kpre = true)
  complete : s.needCalTopk = true → ∀ f, Wanted layerNum kpre f → ∃ r ∈ issued, r.flag = f
  idle : s.needCalTopk = false → issued = [] ∧ kpre = false
  raised : ∀ f, s.ready f = true ↔ (∃ r ∈ handled, r.flag = f) ∧ ¬ s.calculateThread.Cleared f
  stamped : ∀ f, s.ready f = true → s.stamp f = s.begun
  closing : s.calculateThread = .resetPre → s.needCalTopk = false
  noted : s.calculateThread ≠ .resetPre →
    (s.needCalPre = true ↔ kpre = true ∧ (handled ≠ [] ∨ s.copyThread.Noted))
  opened : s.calculateThread.Computing → s.current = s.begun ∧ handled ≠ [] ∧ ∀ r ∈ s.pending, 0 < r.layerId
  passed : ∀ f, Wanted layerNum kpre f → s.calculateThread.Passed f →
    (f, s.begun) ∈ s.consumed ∧ ∃ r ∈ handled, r.flag = f
  inRange : ∀ f, s.calculateThread.flag = some f → Wanted layerNum kpre f
  hasRead : ∀ need, s.calculateThread.hasRead = some need →
    if need then s.needCalPre = true else kpre = true → handled = []
  locking : ∀ r, s.copyThread.locking = some r → r.layerId = 0 ∧ (r.kind = .q → kpre = false)
  storing : ∀ r, s.copyThread.storing = some r → r.layerId = 0 → r.kind = .q ∧ kpre = true
  exclusive : s.calculateThread.holds = true → s.copyThread.holds = false
  lost : s.lost = []

theorem inv_start : Inv layerNum false [] [] start where
  split := rfl
  ordered := List.Pairwise.nil
  of_mem := fun r hr => absurd hr List.not_mem_nil
  complete := fun h => by cases h
  idle := fun _ => ⟨rfl, rfl⟩
  raised := fun f => by simp [start]
  stamped := fun f h => by cases h
  closing := fun h => by cases h
  noted := fun _ => by simp [start]
  opened := False.elim
  passed := fun f _ h => False.elim h
  inRange := fun f h => by cases h
  hasRead := fun f h => by cases h
  locking := fun f h => by cases h
  storing := fun f h => by cases h
  exclusive := fun h => by cases h
  lost := rfl

variable {issued handled : List CopyInfo} {s s' : CalKpreAndTopk}

namespace Inv

theorem mem_handled (h : Inv layerNum kpre issued handled s) (hr : r ∈ handled) : r ∈ issued := by
  rw [h.split]
  exact List.mem_append_left _ hr

theorem mem_pending (h : Inv layerNum kpre issued handled s) (hr : r ∈ s.pending) : r ∈ issued := by
  rw [h.split]
  exact List.mem_append_right _ hr

theorem before (h : Inv layerNum kpre issued handled s) {r' : CopyInfo} (hr : r ∈ handled) (hr' : r' ∈ s.pending) :
    r.Before r' := by
  have hord := h.ordered
  rw [h.split] at hord
  exact (List.pairwise_append.mp hord).2.2 r hr r' hr'

/-- A step is going on. -/
theorem needCalTopk (h : Inv layerNum kpre issued handled s) (hr : r ∈ issued) : s.needCalTopk = true := by
  by_contra hn
  rw [(h.idle (Bool.eq_false_iff.mpr hn)).1] at hr
  exact absurd hr List.not_mem_nil

/-- Once the flag that `CheckDataStatus` reads is up, only requests of later layers are to come. -/
theorem pending_pos (h : Inv layerNum kpre issued handled s) (hr : r ∈ handled) (hlayer : r.layerId = 0)
    (hkind : kpre = true → r.kind = .k) : ∀ r' ∈ s.pending, 0 < r'.layerId := by
  intro r' hr'
  rcases h.before hr hr' with hlt | ⟨-, hq, hk⟩
  · omega
  · have hpre := (h.of_mem r' (h.mem_pending hr')).2.2.2 hk
    rw [hkind hpre] at hq
    cases hq

/-- The first request of a step is that for the queries of the first layer. -/
theorem first (h : Inv layerNum kpre issued handled s) (hh : handled = []) {rest : List CopyInfo}
    (hp : s.pending = r :: rest) : r.flag = (.q, 0) := by
  have hissued : issued = r :: rest := by rw [h.split, hh, hp, List.nil_append]
  have hr : r ∈ issued := hissued ▸ List.mem_cons_self
  have hlt := (h.of_mem r hr).1
  obtain ⟨r₀, hr₀, hf⟩ := h.complete (h.needCalTopk hr) (.q, 0) ⟨Nat.zero_lt_of_lt hlt, fun hc => by cases hc⟩
  rw [hissued] at hr₀
  rcases List.mem_cons.mp hr₀ with rfl | hr₀
  · exact hf
  · have hord := h.ordered
    rw [hissued] at hord
    obtain ⟨hkind, hlayer⟩ := Prod.mk.inj hf
    rcases (List.pairwise_cons.mp hord).1 r₀ hr₀ with hlt | ⟨-, -, hk⟩
    · omega
    · rw [hkind] at hk
      cases hk

end Inv

end CalKpreAndTopk

end UnifiedCache.Sparse.TopkPipeline
