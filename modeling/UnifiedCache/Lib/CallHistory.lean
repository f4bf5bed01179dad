import Mathlib

/-! Histories of the calls of a shared object and the sequential orders that explain them. A call
is named by its place in the history. -/

namespace CallHistory

/-- A call with the calls that had returned when it began. -/
structure Record (Operation : Type*) where
  operation : Operation
  before : Finset Nat

variable {Operation Value : Type*} {apply : Operation → Value → Value} {history : List (Record Operation)}
  {order : List Nat} {start : Value}

/-- The call `i` did not begin after `j` had returned. -/
def MayPrecede (history : List (Record Operation)) (i j : Nat) : Prop :=
  ∀ r, history[i]? = some r → j ∉ r.before

def outcome (apply : Operation → Value → Value) (history : List (Record Operation)) (start : Value)
    (order : List Nat) : Value :=
  (order.filterMap fun i => history[i]?).foldl (fun v r => apply r.operation v) start

/-- All calls have an order that real time allows in which one after the other gives the value. -/
def Sequential (apply : Operation → Value → Value) (history : List (Record Operation)) (start value : Value) : Prop :=
  ∃ order : List Nat, order.Perm (List.range history.length) ∧ order.Pairwise (MayPrecede history) ∧
    value = outcome apply history start order

theorem outcome_append (i : Nat) :
    outcome apply history start (order ++ [i]) =
      ((history[i]?).map fun r => apply r.operation (outcome apply history start order)).getD
        (outcome apply history start order) := by
  unfold outcome
  rw [List.filterMap_append, List.foldl_append]
  cases h : history[i]? with
  | none => simp [h]
  | some r => simp [h]

/-- The calls that have taken effect, in that order, while others go on. -/
structure Effects (apply : Operation → Value → Value) (history : List (Record Operation)) (start : Value)
    (order : List Nat) (value : Value) : Prop where
  nodup : order.Nodup
  lt : ∀ i ∈ order, i < history.length
  before_sub : ∀ r ∈ history, ∀ i ∈ r.before, i ∈ order
  pairwise : order.Pairwise (MayPrecede history)
  value_eq : value = outcome apply history start order

namespace Effects

variable {value : Value}

theorem nil : Effects apply [] start [] start where
  nodup := List.nodup_nil
  lt _ h := absurd h List.not_mem_nil
  before_sub _ h := absurd h List.not_mem_nil
  pairwise := List.Pairwise.nil
  value_eq := rfl

/-- A call begins. -/
theorem push (h : Effects apply history start order value) {r : Record Operation}
    (hr : ∀ i ∈ r.before, i ∈ order) : Effects apply (history ++ [r]) start order value := by
  have hget : ∀ i ∈ order, (history ++ [r])[i]? = history[i]? := fun i hi =>
    List.getElem?_append_left (h.lt i hi)
  refine ⟨h.nodup, fun i hi => ?_, fun r' hr' => ?_, ?_, ?_⟩
  · have hlt := h.lt i hi
    simp only [List.length_append, List.length_singleton]
    omega
  · obtain hr' | hr' := List.mem_append.mp hr'
    · exact h.before_sub r' hr'
    · exact List.mem_singleton.mp hr' ▸ hr
  · refine h.pairwise.imp_of_mem fun {i j} hi _ hij r' hr' => ?_
    exact hij r' (hget i hi ▸ hr')
  · have hmap : order.filterMap (fun i => (history ++ [r])[i]?) = order.filterMap fun i => history[i]? :=
      List.filterMap_congr hget
    rw [h.value_eq]
    unfold outcome
    rw [hmap]

/-- A call that is going on takes effect. -/
theorem effect (h : Effects apply history start order value) {i : Nat} {r : Record Operation}
    (hi : i ∉ order) (hr : history[i]? = some r) :
    Effects apply history start (order ++ [i]) (apply r.operation value) := by
  obtain ⟨hlt, -⟩ := List.getElem?_eq_some_iff.mp hr
  refine ⟨?_, ?_, fun r' hr' j hj => ?_, ?_, ?_⟩
  · exact List.nodup_append.mpr ⟨h.nodup, List.nodup_singleton i, fun j hj k hk hjk =>
      hi (List.mem_singleton.mp hk ▸ hjk ▸ hj)⟩
  · intro j hj
    obtain hj | hj := List.mem_append.mp hj
    · exact h.lt j hj
    · exact List.mem_singleton.mp hj ▸ hlt
  · exact List.mem_append_left _ (h.before_sub r' hr' j hj)
  · refine List.pairwise_append.mpr ⟨h.pairwise, List.pairwise_singleton _ _, fun j _ k hk r' hr' hmem => ?_⟩
    have hmem' := h.before_sub r' (List.mem_of_getElem? hr') k hmem
    exact hi (List.mem_singleton.mp hk ▸ hmem')
  · rw [outcome_append, hr, h.value_eq]
    rfl

theorem sequential (h : Effects apply history start order value)
    (hall : ∀ i < history.length, i ∈ order) : Sequential apply history start value := by
  refine ⟨order, ?_, h.pairwise, h.value_eq⟩
  refine (List.perm_ext_iff_of_nodup h.nodup List.nodup_range).mpr fun i => ?_
  rw [List.mem_range]
  exact ⟨h.lt i, hall i⟩

end Effects

end CallHistory
