import UnifiedCache.Lib.CallHistory
import UnifiedCache.Lib.StepSystem

/-! The capacity word that the processes of the NFS store share: its increases and decreases under
any interleaving of their atomic steps. -/

namespace UnifiedCache.NfsStore

open CallHistory (Record Sequential Effects)

inductive CapacityCall where
  | increaseCapacity (delta : Nat)
  | decreaseCapacity (delta : Nat)
  deriving DecidableEq

/-- What a call is for: a decrease is left out only where it would pass zero. -/
def CapacityCall.apply : CapacityCall → Nat → Nat
  | increaseCapacity delta, capacity => (capacity + delta) % 2 ^ 64
  | decreaseCapacity delta, capacity => if delta ≤ capacity then capacity - delta else capacity

/-- Where a process is in a call. The call has its place in the history. -/
inductive CapacityStage where
  | idle
  | increasing (call delta : Nat)
  | loading (call delta : Nat)
  | exchanging (call delta capacity : Nat)
  deriving DecidableEq

def CapacityStage.pending : CapacityStage → Option (Nat × CapacityCall)
  | idle => none
  | increasing call delta => some (call, .increaseCapacity delta)
  | loading call delta => some (call, .decreaseCapacity delta)
  | exchanging call delta _ => some (call, .decreaseCapacity delta)

structure SpaceProperty (Process : Type) where
  capacity : Nat
  stages : Process → CapacityStage
  history : List (Record CapacityCall)
  returned : Finset Nat

/-- `next` is the next step of a process, `weak` where an exchange fails for no reason. -/
inductive CapacityEvent (Process : Type) where
  | call (p : Process) (operation : CapacityCall)
  | next (p : Process) (weak : Bool)

namespace SpaceProperty

variable {Process : Type} [DecidableEq Process] (s : SpaceProperty Process)

def start (capacity : Nat) : SpaceProperty Process where
  capacity := capacity
  stages := fun _ => .idle
  history := []
  returned := ∅

def goTo (p : Process) (stage : CapacityStage) : SpaceProperty Process :=
  { s with stages := Function.update s.stages p stage }

def finish (p : Process) (call : Nat) : SpaceProperty Process :=
  { s.goTo p .idle with returned := insert call s.returned }

def begin (p : Process) (operation : CapacityCall) : SpaceProperty Process :=
  let call := s.history.length
  { s.goTo p (match operation with
      | .increaseCapacity delta => .increasing call delta
      | .decreaseCapacity delta => .loading call delta) with
    history := s.history ++ [⟨operation, s.returned⟩] }

def next (p : Process) (weak : Bool) : CapacityStage → Option (SpaceProperty Process)
  | .idle => none
  | .increasing call delta =>
    some ({ s with capacity := (s.capacity + delta) % 2 ^ 64 }.finish p call)
  | .loading call delta =>
    if s.capacity > delta then some (s.goTo p (.exchanging call delta s.capacity)) else some (s.finish p call)
  | .exchanging call delta capacity =>
    if weak = false ∧ s.capacity = capacity then some ({ s with capacity := capacity - delta }.finish p call)
    else some (s.goTo p (.loading call delta))

def step : CapacityEvent Process → Option (SpaceProperty Process)
  | .call p operation => if s.stages p = .idle then some (s.begin p operation) else none
  | .next p weak => s.next p weak (s.stages p)

/-- Every decrease has an increase of its own that returned before it began, and so has every
increase a decrease. -/
structure Matched (history : List (Record CapacityCall)) (partner : Nat → Nat) : Prop where
  before : ∀ j r delta, history[j]? = some r → r.operation = .decreaseCapacity delta →
    partner j ∈ r.before ∧ ∃ r', history[partner j]? = some r' ∧ r'.operation = .increaseCapacity delta
  inj : ∀ i j r r' delta delta', history[i]? = some r → history[j]? = some r' →
    r.operation = .decreaseCapacity delta → r'.operation = .decreaseCapacity delta' → partner i = partner j → i = j
  surj : ∀ i r delta, history[i]? = some r → r.operation = .increaseCapacity delta →
    ∃ j r', history[j]? = some r' ∧ r'.operation = .decreaseCapacity delta ∧ partner j = i

def increase (history : List (Record CapacityCall)) (i : Nat) : Nat :=
  match history[i]? with
  | some ⟨.increaseCapacity delta, _⟩ => delta
  | _ => 0

def decrease (history : List (Record CapacityCall)) (i : Nat) : Nat :=
  match history[i]? with
  | some ⟨.decreaseCapacity delta, _⟩ => delta
  | _ => 0

/-- When all calls have returned, the word is what some order of them gives, and what it was
before where increases and decreases match and the increases do not pass its size. -/
def Exact (capacity : Nat) : Prop :=
  (∀ p, s.stages p = .idle) →
    Sequential CapacityCall.apply s.history capacity s.capacity ∧
    ∀ partner, Matched s.history partner →
      capacity + ((List.range s.history.length).map (increase s.history)).sum < 2 ^ 64 → s.capacity = capacity

section Pairs

variable {history : List (Record CapacityCall)} {partner : Nat → Nat} {order : List Nat} {capacity : Nat}

theorem increase_of {i delta : Nat} {r : Record CapacityCall} (hr : history[i]? = some r)
    (h : r.operation = .increaseCapacity delta) : increase history i = delta := by
  obtain ⟨operation, before⟩ := r
  subst h
  simp [increase, hr]

theorem decrease_of {i delta : Nat} {r : Record CapacityCall} (hr : history[i]? = some r)
    (h : r.operation = .decreaseCapacity delta) : decrease history i = delta := by
  obtain ⟨operation, before⟩ := r
  subst h
  simp [decrease, hr]

theorem exists_of_increase_ne_zero {i : Nat} (h : increase history i ≠ 0) :
    ∃ r, history[i]? = some r ∧ r.operation = .increaseCapacity (increase history i) := by
  cases hr : history[i]? with
  | none => simp [increase, hr] at h
  | some r =>
    obtain ⟨operation, before⟩ := r
    cases operation with
    | increaseCapacity delta => exact ⟨_, rfl, by simp [increase, hr]⟩
    | decreaseCapacity delta => simp [increase, hr] at h

theorem exists_of_decrease_ne_zero {i : Nat} (h : decrease history i ≠ 0) :
    ∃ r, history[i]? = some r ∧ r.operation = .decreaseCapacity (decrease history i) := by
  cases hr : history[i]? with
  | none => simp [decrease, hr] at h
  | some r =>
    obtain ⟨operation, before⟩ := r
    cases operation with
    | increaseCapacity delta => simp [decrease, hr] at h
    | decreaseCapacity delta => exact ⟨_, rfl, by simp [decrease, hr]⟩

theorem Matched.increase_partner (h : Matched history partner) {j : Nat} (hj : decrease history j ≠ 0) :
    increase history (partner j) = decrease history j := by
  obtain ⟨r, hr, hop⟩ := exists_of_decrease_ne_zero hj
  obtain ⟨-, r', hr', hop'⟩ := h.before j r _ hr hop
  exact increase_of hr' hop'

theorem Matched.sum_decrease (h : Matched history partner) (calls : Finset Nat) :
    ∑ j ∈ calls, decrease history j =
      ∑ i ∈ (calls.filter fun j => decrease history j ≠ 0).image partner, increase history i := by
  rw [Finset.sum_image, ← Finset.sum_filter_ne_zero]
  · exact Finset.sum_congr rfl fun j hj => (h.increase_partner (Finset.mem_filter.mp hj).2).symm
  · intro i hi j hj he
    obtain ⟨r, hr, hop⟩ := exists_of_decrease_ne_zero (Finset.mem_filter.mp hi).2
    obtain ⟨r', hr', hop'⟩ := exists_of_decrease_ne_zero (Finset.mem_filter.mp hj).2
    exact h.inj i j r r' _ _ hr hr' hop hop' he

/-- The partner of a decrease comes before it in every order that real time allows. -/
theorem Matched.partner_mem (h : Matched history partner) {pre suf : List Nat} {i j : Nat}
    (hall : ∀ k < history.length, k ∈ pre ++ i :: suf) (hp : (pre ++ i :: suf).Pairwise (CallHistory.MayPrecede history))
    (hj : j ∈ pre ++ [i]) (hdec : decrease history j ≠ 0) : partner j ∈ pre := by
  obtain ⟨r, hr, hop⟩ := exists_of_decrease_ne_zero hdec
  obtain ⟨hbefore, r', hr', hop'⟩ := h.before j r _ hr hop
  have hne : partner j ≠ j := by
    intro he
    rw [he, hr] at hr'
    rw [Option.some.inj hr', hop'] at hop
    cases hop
  obtain ⟨-, hright, hcross⟩ := List.pairwise_append.mp hp
  have hnot : ¬ CallHistory.MayPrecede history j (partner j) := fun hmay => hmay r hr hbefore
  obtain hmem | hmem := List.mem_append.mp (hall _ (List.getElem?_eq_some_iff.mp hr').1)
  · exact hmem
  · exfalso
    obtain hj | hj := List.mem_append.mp hj
    · exact hnot (hcross j hj _ hmem)
    · obtain rfl : j = i := List.mem_singleton.mp hj
      obtain he | hmem := List.mem_cons.mp hmem
      · exact hne he
      · exact hnot ((List.pairwise_cons.mp hright).1 _ hmem)

theorem Matched.sum_take (h : Matched history partner) {pre suf : List Nat} {i : Nat}
    (hnodup : (pre ++ i :: suf).Nodup) (hall : ∀ k < history.length, k ∈ pre ++ i :: suf)
    (hp : (pre ++ i :: suf).Pairwise (CallHistory.MayPrecede history)) :
    (pre.map (decrease history)).sum + decrease history i ≤ (pre.map (increase history)).sum := by
  have hpre : (pre ++ [i]).Nodup := by
    refine hnodup.sublist ?_
    exact List.Sublist.append_left (List.singleton_sublist.mpr (List.mem_cons_self)) pre
  have hsum := h.sum_decrease (pre ++ [i]).toFinset
  rw [List.sum_toFinset _ hpre] at hsum
  have hsub : (((pre ++ [i]).toFinset.filter fun j => decrease history j ≠ 0).image partner) ⊆ pre.toFinset := by
    intro k hk
    obtain ⟨j, hj, rfl⟩ := Finset.mem_image.mp hk
    obtain ⟨hj, hdec⟩ := Finset.mem_filter.mp hj
    exact List.mem_toFinset.mpr (h.partner_mem hall hp (List.mem_toFinset.mp hj) hdec)
  have hle := Finset.sum_le_sum_of_subset (f := increase history) hsub
  rw [← hsum, List.sum_toFinset _ (hpre.of_append_left)] at hle
  simpa using hle

theorem Matched.sum_eq (h : Matched history partner) :
    ((List.range history.length).map (decrease history)).sum =
      ((List.range history.length).map (increase history)).sum := by
  have hsum := h.sum_decrease (List.range history.length).toFinset
  rw [List.sum_toFinset _ List.nodup_range] at hsum
  rw [hsum, ← List.sum_toFinset _ List.nodup_range]
  refine (Finset.sum_subset_zero_on_sdiff ?_ ?_ fun _ _ => rfl)
  · intro k hk
    obtain ⟨j, hj, rfl⟩ := Finset.mem_image.mp hk
    obtain ⟨r, hr, hop⟩ := exists_of_decrease_ne_zero (Finset.mem_filter.mp hj).2
    obtain ⟨-, r', hr', -⟩ := h.before j r _ hr hop
    exact List.mem_toFinset.mpr (List.mem_range.mpr (List.getElem?_eq_some_iff.mp hr').1)
  · intro i hi
    by_contra hinc
    obtain ⟨r, hr, hop⟩ := exists_of_increase_ne_zero hinc
    obtain ⟨j, r', hr', hop', rfl⟩ := h.surj i r _ hr hop
    have hdec := decrease_of hr' hop'
    refine (Finset.mem_sdiff.mp hi).2 (Finset.mem_image.mpr ⟨j, Finset.mem_filter.mpr ⟨?_, ?_⟩, rfl⟩)
    · exact List.mem_toFinset.mpr (List.mem_range.mpr (List.getElem?_eq_some_iff.mp hr').1)
    · rwa [hdec]

/-- One call after the other, none of the matching calls is left out. -/
theorem Matched.outcome_take (h : Matched history partner) (hnodup : order.Nodup)
    (hall : ∀ k, k < history.length ↔ k ∈ order) (hp : order.Pairwise (CallHistory.MayPrecede history))
    (hfit : capacity + (order.map (increase history)).sum < 2 ^ 64) {pre suf : List Nat} (ho : order = pre ++ suf) :
    CallHistory.outcome CapacityCall.apply history capacity pre + (pre.map (decrease history)).sum =
      capacity + (pre.map (increase history)).sum := by
  induction pre using List.reverseRecOn generalizing suf with
  | nil => rfl
  | append_singleton pre i ih =>
    subst ho
    rw [List.append_assoc, List.singleton_append] at hnodup hall hp hfit ih
    have hpre := ih rfl
    have htake := h.sum_take hnodup (fun k hk => (hall k).mp hk) hp
    obtain ⟨r, hr⟩ : ∃ r, history[i]? = some r :=
      ⟨_, List.getElem?_eq_getElem ((hall i).mpr (by simp))⟩
    rw [CallHistory.outcome_append, hr]
    simp only [Option.map_some, Option.getD_some, List.map_append, List.sum_append, List.map_cons, List.map_nil,
      List.sum_cons, List.sum_nil, Nat.add_zero] at hfit ⊢
    cases hop : r.operation with
    | increaseCapacity delta =>
      have hinc := increase_of hr hop
      have hdec : decrease history i = 0 := by
        by_contra hne
        obtain ⟨r', hr', hop'⟩ := exists_of_decrease_ne_zero hne
        rw [hr] at hr'
        rw [← Option.some.inj hr', hop] at hop'
        cases hop'
      simp only [CapacityCall.apply]
      rw [Nat.mod_eq_of_lt (by omega)]
      omega
    | decreaseCapacity delta =>
      have hdec := decrease_of hr hop
      have hinc : increase history i = 0 := by
        by_contra hne
        obtain ⟨r', hr', hop'⟩ := exists_of_increase_ne_zero hne
        rw [hr] at hr'
        rw [← Option.some.inj hr', hop] at hop'
        cases hop'
      simp only [CapacityCall.apply]
      rw [if_pos (by omega)]
      omega

theorem Matched.eq_of_sequential (h : Matched history partner) {value : Nat}
    (hs : Sequential CapacityCall.apply history capacity value)
    (hfit : capacity + ((List.range history.length).map (increase history)).sum < 2 ^ 64) : value = capacity := by
  obtain ⟨order, hperm, hp, rfl⟩ := hs
  have hnodup : order.Nodup := hperm.nodup_iff.mpr List.nodup_range
  have hall : ∀ k, k < history.length ↔ k ∈ order := fun k => by rw [hperm.mem_iff, List.mem_range]
  have hinc := (hperm.map (increase history)).sum_eq
  have hdec := (hperm.map (decrease history)).sum_eq
  have htake := h.outcome_take hnodup hall hp (hinc ▸ hfit) (List.append_nil order).symm
  have hsum := h.sum_eq
  omega

end Pairs

section Steps

variable {s} {capacity : Nat} {order : List Nat} {p : Process}

/-- The calls that have taken effect are those that have returned. -/
structure Steady (capacity : Nat) (s : SpaceProperty Process) (order : List Nat) : Prop where
  effects : Effects CapacityCall.apply s.history capacity order s.capacity
  returned : s.returned = order.toFinset
  pending : ∀ p call operation, (s.stages p).pending = some (call, operation) →
    call ∉ order ∧ ∃ r, s.history[call]? = some r ∧ r.operation = operation
  inj : ∀ p q call operation operation', (s.stages p).pending = some (call, operation) →
    (s.stages q).pending = some (call, operation') → p = q
  cover : ∀ call < s.history.length, call ∈ order ∨ ∃ p operation, (s.stages p).pending = some (call, operation)
  loaded : ∀ p call delta c, s.stages p = .exchanging call delta c → delta < c

omit [DecidableEq Process] in
theorem steady_start (capacity : Nat) : Steady capacity (start capacity : SpaceProperty Process) [] where
  effects := Effects.nil
  returned := rfl
  pending _ _ _ h := by cases h
  inj _ _ _ _ _ h := by cases h
  cover call h := absurd h (Nat.not_lt_zero call)
  loaded _ _ _ _ h := by cases h

/-- A process stays in its call. -/
theorem Steady.goTo (h : Steady capacity s order) {stage : CapacityStage}
    (hsame : stage.pending = (s.stages p).pending)
    (hloaded : ∀ call delta c, stage = .exchanging call delta c → delta < c) :
    Steady capacity (s.goTo p stage) order := by
  have hpending : ∀ q, ((s.goTo p stage).stages q).pending = (s.stages q).pending := by
    intro q
    by_cases hq : q = p
    · subst hq
      simp [SpaceProperty.goTo, hsame]
    · simp [SpaceProperty.goTo, Function.update_of_ne hq]
  refine ⟨h.effects, h.returned, fun q call operation hq => ?_, fun q q' call operation operation' hq hq' => ?_,
    fun call hlt => ?_, fun q call delta c hq => ?_⟩
  · exact h.pending q call operation (hpending q ▸ hq)
  · exact h.inj q q' call operation operation' (hpending q ▸ hq) (hpending q' ▸ hq')
  · obtain hmem | ⟨q, operation, hq⟩ := h.cover call hlt
    · exact Or.inl hmem
    · exact Or.inr ⟨q, operation, (hpending q).trans hq⟩
  · by_cases hqp : q = p
    · subst hqp
      have he : stage = .exchanging call delta c := by simpa [SpaceProperty.goTo] using hq
      exact hloaded call delta c he
    · have he : s.stages q = .exchanging call delta c := by
        simpa [SpaceProperty.goTo, Function.update_of_ne hqp] using hq
      exact h.loaded q call delta c he

/-- A call takes effect and returns. -/
theorem Steady.finish (h : Steady capacity s order) {call value : Nat} (operation : CapacityCall)
    (hp : (s.stages p).pending = some (call, operation)) (hvalue : value = operation.apply s.capacity) :
    Steady capacity ({ s with capacity := value }.finish p call) (order ++ [call]) := by
  obtain ⟨hnot, r, hr, hoperation⟩ := h.pending p call operation hp
  have hother : ∀ q c o, ((({ s with capacity := value } : SpaceProperty Process).finish p call).stages q).pending =
      some (c, o) → q ≠ p ∧ (s.stages q).pending = some (c, o) := by
    intro q c o hq
    by_cases hqp : q = p
    · subst hqp
      simp [SpaceProperty.finish, SpaceProperty.goTo, CapacityStage.pending] at hq
    · exact ⟨hqp, by simpa [SpaceProperty.finish, SpaceProperty.goTo, Function.update_of_ne hqp] using hq⟩
  refine ⟨?_, ?_, fun q c o hq => ?_, fun q q' c o o' hq hq' => ?_, fun c hlt => ?_, fun q c delta c' hq => ?_⟩
  · have he := h.effects.effect hnot hr
    rwa [hoperation, ← hvalue] at he
  · simp only [SpaceProperty.finish, SpaceProperty.goTo, h.returned, List.toFinset_append, List.toFinset_cons,
      List.toFinset_nil, insert_empty_eq]
    rw [Finset.insert_eq, Finset.union_comm]
  · obtain ⟨hqp, hq'⟩ := hother q c o hq
    obtain ⟨hc, hrec⟩ := h.pending q c o hq'
    refine ⟨fun hmem => ?_, hrec⟩
    obtain hmem | hmem := List.mem_append.mp hmem
    · exact hc hmem
    · have he : c = call := List.mem_singleton.mp hmem
      exact hqp (h.inj q p c o operation hq' (he ▸ hp))
  · exact h.inj q q' c o o' (hother q c o hq).2 (hother q' c o' hq').2
  · obtain hmem | ⟨q, o, hq⟩ := h.cover c hlt
    · exact Or.inl (List.mem_append_left _ hmem)
    · by_cases hqp : q = p
      · subst hqp
        have he : (call, operation) = (c, o) := Option.some.inj (hp.symm.trans hq)
        left
        simp [(Prod.mk.inj he).1]
      · right
        exact ⟨q, o, by simpa [SpaceProperty.finish, SpaceProperty.goTo, Function.update_of_ne hqp] using hq⟩
  · by_cases hqp : q = p
    · subst hqp
      simp [SpaceProperty.finish, SpaceProperty.goTo] at hq
    · refine h.loaded q c delta c' ?_
      simpa [SpaceProperty.finish, SpaceProperty.goTo, Function.update_of_ne hqp] using hq

theorem Steady.begin (h : Steady capacity s order) (hidle : s.stages p = .idle) (operation : CapacityCall) :
    Steady capacity (s.begin p operation) order := by
  have hself : ((s.begin p operation).stages p).pending = some (s.history.length, operation) := by
    cases operation <;> simp [SpaceProperty.begin, SpaceProperty.goTo, CapacityStage.pending]
  have hother : ∀ q, q ≠ p → (s.begin p operation).stages q = s.stages q := fun q hq =>
    Function.update_of_ne hq _ _
  have hlt : ∀ q c o, (s.stages q).pending = some (c, o) → c < s.history.length := by
    intro q c o hq
    obtain ⟨-, r, hr, -⟩ := h.pending q c o hq
    exact (List.getElem?_eq_some_iff.mp hr).1
  refine ⟨h.effects.push fun i hi => ?_, h.returned, fun q c o hq => ?_, fun q q' c o o' hq hq' => ?_,
    fun c hc => ?_, fun q c delta c' hq => ?_⟩
  · exact List.mem_toFinset.mp (h.returned ▸ hi)
  · by_cases hqp : q = p
    · subst hqp
      obtain ⟨rfl, rfl⟩ := Prod.mk.inj (Option.some.inj (hself.symm.trans hq))
      refine ⟨fun hmem => Nat.lt_irrefl _ (h.effects.lt _ hmem), ⟨operation, s.returned⟩, ?_, rfl⟩
      simp [SpaceProperty.begin]
    · rw [hother q hqp] at hq
      obtain ⟨hnot, r, hr, ho⟩ := h.pending q c o hq
      refine ⟨hnot, r, ?_, ho⟩
      exact (List.getElem?_append_left (hlt q c o hq)).trans hr
  · by_cases hqp : q = p <;> by_cases hqp' : q' = p
    · rw [hqp, hqp']
    · subst hqp
      rw [hother q' hqp'] at hq'
      have hc := hlt q' c o' hq'
      have he := (Prod.mk.inj (Option.some.inj (hself.symm.trans hq))).1
      omega
    · subst hqp'
      rw [hother q hqp] at hq
      have hc := hlt q c o hq
      have he := (Prod.mk.inj (Option.some.inj (hself.symm.trans hq'))).1
      omega
    · rw [hother q hqp] at hq
      rw [hother q' hqp'] at hq'
      exact h.inj q q' c o o' hq hq'
  · have hc' : c < s.history.length + 1 := by simpa [SpaceProperty.begin] using hc
    obtain hc' | rfl := Nat.lt_succ_iff_lt_or_eq.mp hc'
    · obtain hmem | ⟨q, o, hq⟩ := h.cover c hc'
      · exact Or.inl hmem
      · have hqp : q ≠ p := by
          intro he
          simp [he, hidle, CapacityStage.pending] at hq
        exact Or.inr ⟨q, o, by rw [hother q hqp]; exact hq⟩
    · exact Or.inr ⟨p, operation, hself⟩
  · by_cases hqp : q = p
    · subst hqp
      cases operation <;> simp [SpaceProperty.begin, SpaceProperty.goTo] at hq
    · exact h.loaded q c delta c' (hother q hqp ▸ hq)

/-- No decrease finds the word at its own delta. -/
def Apart (s : SpaceProperty Process) : CapacityEvent Process → Prop
  | .next p _ => ∀ call delta, s.stages p = .loading call delta → s.capacity = delta → delta = 0
  | .call _ _ => True

theorem Steady.step (h : Steady capacity s order) {e : CapacityEvent Process} (hapart : Apart s e)
    {s' : SpaceProperty Process} (hs : s.step e = some s') : ∃ order', Steady capacity s' order' := by
  cases e with
  | call p operation =>
    simp only [SpaceProperty.step] at hs
    split_ifs at hs with hidle
    exact ⟨order, Option.some.inj hs ▸ h.begin hidle operation⟩
  | next p weak =>
    simp only [SpaceProperty.step] at hs
    cases hp : s.stages p with
    | idle => simp [hp, SpaceProperty.next] at hs
    | increasing call delta =>
      rw [hp, SpaceProperty.next] at hs
      have hdone := h.finish (.increaseCapacity delta) (by rw [hp]; rfl) rfl
      exact ⟨_, Option.some.inj hs ▸ hdone⟩
    | loading call delta =>
      rw [hp, SpaceProperty.next] at hs
      split_ifs at hs with hgt
      · have hsame : (CapacityStage.exchanging call delta s.capacity).pending = (s.stages p).pending := by
          rw [hp]
          rfl
        refine ⟨order, Option.some.inj hs ▸ h.goTo hsame fun _ _ _ he => ?_⟩
        obtain ⟨rfl, rfl, rfl⟩ := CapacityStage.exchanging.inj he
        exact hgt
      · have hnone : s.capacity = (CapacityCall.decreaseCapacity delta).apply s.capacity := by
          have hzero := hapart call delta hp
          simp only [CapacityCall.apply]
          split_ifs with hle
          · have := hzero (by omega)
            omega
          · rfl
        have hdone := h.finish (.decreaseCapacity delta) (by rw [hp]; rfl) hnone
        exact ⟨_, Option.some.inj hs ▸ hdone⟩
    | exchanging call delta c =>
      rw [hp, SpaceProperty.next] at hs
      split_ifs at hs with hsame
      · have hlt := h.loaded p call delta c hp
        have hvalue : c - delta = (CapacityCall.decreaseCapacity delta).apply s.capacity := by
          rw [hsame.2]
          exact (if_pos (by omega)).symm
        have hdone := h.finish (.decreaseCapacity delta) (by rw [hp]; rfl) hvalue
        exact ⟨_, Option.some.inj hs ▸ hdone⟩
      · have hsame : (CapacityStage.loading call delta).pending = (s.stages p).pending := by
          rw [hp]
          rfl
        exact ⟨order, Option.some.inj hs ▸ h.goTo hsame fun _ _ _ he => by cases he⟩

theorem exists_steady (h : StepSystem.Reach SpaceProperty.step Apart (start capacity) s) :
    ∃ order, Steady capacity s order := by
  refine h.invariant (fun s => ∃ order, Steady capacity s order) ⟨[], steady_start capacity⟩ ?_
  intro s e s' hs hg hstep
  obtain ⟨order, hs⟩ := hs
  exact hs.step hg hstep

omit [DecidableEq Process] in
theorem Steady.sequential (h : Steady capacity s order) (hidle : ∀ p, s.stages p = .idle) :
    Sequential CapacityCall.apply s.history capacity s.capacity := by
  refine h.effects.sequential fun call hlt => ?_
  obtain hmem | ⟨p, operation, hp⟩ := h.cover call hlt
  · exact hmem
  · rw [hidle p] at hp
    cases hp

end Steps

/-- Where no decrease meets its own delta, the word is exact in every run. -/
theorem exact_of_apart {s : SpaceProperty Process} {capacity : Nat}
    (h : StepSystem.Reach step Apart (start capacity) s) : s.Exact capacity := by
  intro hidle
  obtain ⟨order, hs⟩ := exists_steady h
  have hsequential := hs.sequential hidle
  exact ⟨hsequential, fun partner hmatched hfit => hmatched.eq_of_sequential hsequential hfit⟩

/-- A process increases the word and takes the same away again, while another one adds to it. -/
theorem exact_of_apart_two :
    ∃ s : SpaceProperty Bool, StepSystem.Reach step Apart (start 0) s ∧ s.Exact 0 ∧ s.capacity = 512 := by
  let ok : SpaceProperty Bool → CapacityEvent Bool → Bool := fun s e => match e with
    | .next p _ => match s.stages p with
      | .loading _ delta => s.capacity != delta || delta == 0
      | _ => true
    | .call _ _ => true
  have hok : ∀ s e, ok s e = true → Apart s e := by
    intro s e h
    cases e with
    | call p operation => trivial
    | next p weak =>
      intro call delta hp hsame
      simpa [ok, hp, hsame] using h
  let run : Option (SpaceProperty Bool) := StepSystem.run (StepSystem.checked ok step) (start 0)
    [.call true (.increaseCapacity 4096), .next true false, .call true (.decreaseCapacity 4096),
      .call false (.increaseCapacity 512), .next false false, .next true false, .next true false]
  have hrun : run.map capacity = some 512 := by decide +kernel
  obtain ⟨s, hs, hcapacity⟩ := Option.map_eq_some_iff.mp hrun
  have hreach : StepSystem.Reach step Apart (start 0) s := StepSystem.Reach.start.checked hok hs
  exact ⟨s, hreach, exact_of_apart hreach, hcapacity⟩

/-- A process increases an empty word and takes the same away again, which leaves it there. -/
theorem not_exact :
    ¬ ∀ s : SpaceProperty Unit, StepSystem.Reach step (fun _ _ => True) (start 0) s → s.Exact 0 := by
  intro h
  let run : Option (SpaceProperty Unit) := StepSystem.run step (start 0)
    [.call () (.increaseCapacity 4096), .next () false, .call () (.decreaseCapacity 4096), .next () false]
  have hrun : run.map capacity = some 4096 := by decide +kernel
  have hhistory : run.map history = some [⟨.increaseCapacity 4096, ∅⟩, ⟨.decreaseCapacity 4096, {0}⟩] := by rfl
  have hstages : run.map (fun s => s.stages ()) = some .idle := by decide +kernel
  obtain ⟨s, hs, hcapacity⟩ := Option.map_eq_some_iff.mp hrun
  rw [hs, Option.map_some, Option.some.injEq] at hhistory hstages
  have hexact := h s (StepSystem.Reach.start.run (fun _ _ _ => trivial) hs) fun _ => hstages
  obtain ⟨-, hmatched⟩ := hexact
  have hzero : s.capacity = 0 := by
    refine hmatched (fun _ => 0) ?_ ?_
    · rw [hhistory]
      refine ⟨fun j r delta hr hop => ?_, fun i j r r' delta delta' hr hr' hop hop' _ => ?_, fun i r delta hr hop => ?_⟩
      · match j with
        | 0 => cases hr; cases hop
        | 1 => cases hr; cases hop; exact ⟨by simp, _, rfl, rfl⟩
        | n + 2 => simp at hr
      · match i, j with
        | 0, _ => cases hr; cases hop
        | _, 0 => cases hr'; cases hop'
        | 1, 1 => rfl
        | n + 2, _ => simp at hr
        | _, n + 2 => simp at hr'
      · match i with
        | 0 => cases hr; cases hop; exact ⟨1, _, rfl, rfl, rfl⟩
        | 1 => cases hr; cases hop
        | n + 2 => simp at hr
    · rw [hhistory]
      decide +kernel
  omega

end SpaceProperty

end UnifiedCache.NfsStore
