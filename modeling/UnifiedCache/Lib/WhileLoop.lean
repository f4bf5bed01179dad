import Mathlib

/-! Loops with a guard and a body that may be undefined, run on fuel. -/

variable {σ : Type*}

/-- `while (cond) body`, nothing once the fuel is used up. -/
def whileLoop (cond : σ → Option Bool) (body : σ → Option σ) : Nat → σ → Option σ
  | 0, _ => none
  | fuel + 1, s => (cond s).bind fun go => if go then (body s).bind (whileLoop cond body fuel) else some s

section Rules

variable {cond : σ → Option Bool} {body : σ → Option σ} {fuel : Nat} {s t : σ}

theorem whileLoop_of_stop (h : cond s = some false) : whileLoop cond body (fuel + 1) s = some s := by
  simp [whileLoop, h]

theorem whileLoop_of_turn (h : cond s = some true) (hbody : body s = some t) :
    whileLoop cond body (fuel + 1) s = whileLoop cond body fuel t := by
  simp [whileLoop, h, hbody]

theorem whileLoop_of_undefined (h : cond s = none) : whileLoop cond body fuel s = none := by
  cases fuel <;> simp [whileLoop, h]

/-- An invariant that every turn keeps holds at the end, and the end is reached while a measure goes down. -/
theorem whileLoop_spec (Inv : σ → Prop) (measure : σ → Nat)
    (hturn : ∀ s, Inv s → cond s = some false ∨
      cond s = some true ∧ ∃ t, body s = some t ∧ Inv t ∧ measure t < measure s)
    (hs : Inv s) (hfuel : measure s < fuel) :
    ∃ t, whileLoop cond body fuel s = some t ∧ Inv t ∧ cond t = some false := by
  induction fuel generalizing s with
  | zero => exact absurd hfuel (Nat.not_lt_zero _)
  | succ fuel ih =>
    rcases hturn s hs with hstop | ⟨hgo, t, hbody, ht, hlt⟩
    · exact ⟨s, whileLoop_of_stop hstop, hs, hstop⟩
    · rw [whileLoop_of_turn hgo hbody]
      exact ih ht (Nat.lt_of_lt_of_le hlt (Nat.le_of_lt_succ hfuel))

/-- A loop that every turn keeps away from a defined end has none. -/
theorem whileLoop_eq_none (Inv : σ → Prop) (hturn : ∀ s, Inv s → cond s = none ∨
      cond s = some true ∧ ∀ t, body s = some t → Inv t) (hs : Inv s) : whileLoop cond body fuel s = none := by
  induction fuel generalizing s with
  | zero => rfl
  | succ fuel ih =>
    rcases hturn s hs with hnone | ⟨hgo, hkeep⟩
    · exact whileLoop_of_undefined hnone
    · cases hbody : body s with
      | none => simp [whileLoop, hgo, hbody]
      | some t => rw [whileLoop_of_turn hgo hbody, ih (hkeep t hbody)]

end Rules
