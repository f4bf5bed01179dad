import Mathlib

/-! Doubly linked lists threaded through two link functions. The forward and
the backward links are separate predicates, so that a list whose links are
being changed one at a time can be described between the changes. -/

namespace LinkedChain

variable {ι : Type*}

/-- Following `next` from `head` visits exactly the nodes of the list. -/
def Fwd (next : ι → Option ι) : Option ι → List ι → Prop
  | head, [] => head = none
  | head, x :: l => head = some x ∧ Fwd next (next x) l

/-- The node before each node of the list, `before` for the first one. -/
def Bwd (prev : ι → Option ι) : Option ι → List ι → Prop
  | _, [] => True
  | before, x :: l => prev x = before ∧ Bwd prev (some x) l

/-- The nodes met from `head`, at most so many. -/
def walk (next : ι → Option ι) : Nat → Option ι → List ι
  | 0, _ => []
  | _ + 1, none => []
  | n + 1, some x => x :: walk next n (next x)

variable {next next' prev prev' : ι → Option ι} {head before : Option ι} {l l₁ l₂ : List ι} {p x n : ι}

theorem Fwd.head_eq (h : Fwd next head l) : head = l.head? := by
  cases l with
  | nil => exact h
  | cons x l => exact h.1

theorem Fwd.walk_eq {n : Nat} (h : Fwd next head l) (hn : l.length ≤ n) : walk next n head = l := by
  induction l generalizing head n with
  | nil =>
    rw [show head = none from h]
    cases n <;> rfl
  | cons x l ih =>
    cases n with
    | zero => cases hn
    | succ n =>
      rw [h.1, walk, ih h.2 (Nat.le_of_succ_le_succ hn)]

theorem Fwd.congr (h : Fwd next head l) (he : ∀ i ∈ l, next' i = next i) : Fwd next' head l := by
  induction l generalizing head with
  | nil => exact h
  | cons x l ih =>
    refine ⟨h.1, ?_⟩
    rw [he x (by simp)]
    exact ih h.2 fun i hi => he i (by simp [hi])

theorem Bwd.congr (h : Bwd prev before l) (he : ∀ i ∈ l, prev' i = prev i) : Bwd prev' before l := by
  induction l generalizing before with
  | nil => trivial
  | cons x l ih => exact ⟨(he x (by simp)).trans h.1, ih h.2 fun i hi => he i (by simp [hi])⟩

theorem Fwd.append (h : Fwd next head (l₁ ++ x :: l₂)) : Fwd next (some x) (x :: l₂) := by
  induction l₁ generalizing head with
  | nil => exact ⟨rfl, h.2⟩
  | cons y l₁ ih => exact ih h.2

theorem Fwd.next_eq (h : Fwd next head (l₁ ++ x :: l₂)) : next x = l₂.head? :=
  h.append.2.head_eq

theorem Bwd.prev_eq (h : Bwd prev before (l₁ ++ x :: l₂)) :
    prev x = l₁.getLast?.or before := by
  induction l₁ generalizing before with
  | nil => simpa using h.1
  | cons y l₁ ih =>
    rw [ih h.2, List.getLast?_cons]
    cases l₁.getLast? <;> rfl

theorem Bwd.left (h : Bwd prev before (l₁ ++ l₂)) : Bwd prev before l₁ := by
  induction l₁ generalizing before with
  | nil => trivial
  | cons y l₁ ih => exact ⟨h.1, ih h.2⟩

variable [DecidableEq ι]

/-- Pointing the predecessor past `x` takes `x` out of the forward list. -/
theorem Fwd.bypass (h : Fwd next head (l₁ ++ p :: x :: l₂)) (hnd : (l₁ ++ p :: x :: l₂).Nodup) :
    Fwd (Function.update next p (next x)) head (l₁ ++ p :: l₂) := by
  induction l₁ generalizing head with
  | nil =>
    have hp : p ∉ l₂ := fun hm => (List.nodup_cons.mp hnd).1 (by simp [hm])
    refine ⟨h.1, ?_⟩
    rw [Function.update_self]
    exact h.2.2.congr fun i hi => Function.update_of_ne (ne_of_mem_of_not_mem hi hp) _ _
  | cons y l₁ ih =>
    have hy : y ≠ p := fun he => (List.nodup_cons.mp hnd).1 (by simp [he])
    refine ⟨h.1, ?_⟩
    rw [Function.update_of_ne hy]
    exact ih h.2 (List.nodup_cons.mp hnd).2

/-- Pointing the successor back past `x` takes `x` out of the backward list. -/
theorem Bwd.bypass (h : Bwd prev before (l₁ ++ x :: n :: l₂)) (hnd : (l₁ ++ x :: n :: l₂).Nodup) :
    Bwd (Function.update prev n (prev x)) before (l₁ ++ n :: l₂) := by
  induction l₁ generalizing before with
  | nil =>
    have hn : n ∉ l₂ := (List.nodup_cons.mp (List.nodup_cons.mp hnd).2).1
    refine ⟨by rw [Function.update_self]; exact h.1, ?_⟩
    exact h.2.2.congr fun i hi => Function.update_of_ne (ne_of_mem_of_not_mem hi hn) _ _
  | cons y l₁ ih =>
    have hy : y ≠ n := fun he => (List.nodup_cons.mp hnd).1 (by simp [he])
    refine ⟨by rw [Function.update_of_ne hy]; exact h.1, ?_⟩
    exact ih h.2 (List.nodup_cons.mp hnd).2

theorem Fwd.push (h : Fwd next head l) (hx : x ∉ l) :
    Fwd (Function.update next x head) (some x) (x :: l) := by
  refine ⟨rfl, ?_⟩
  rw [Function.update_self]
  exact h.congr fun i hi => Function.update_of_ne (ne_of_mem_of_not_mem hi hx) _ _

theorem Bwd.push (h : Bwd prev none (n :: l)) (hx : prev x = none) (hne : x ≠ n) (hn : n ∉ l) :
    Bwd (Function.update prev n (some x)) none (x :: n :: l) := by
  refine ⟨by rw [Function.update_of_ne hne]; exact hx, by rw [Function.update_self], ?_⟩
  exact h.2.congr fun i hi => Function.update_of_ne (ne_of_mem_of_not_mem hi hn) _ _

end LinkedChain
