import Mathlib

/-! Runs of a system whose step function says what an event does to a state,
and is `none` where the event cannot happen. A guard restricts the events that
a run takes. -/

namespace StepSystem

variable {State Event : Type*} {step : State → Event → Option State}
  {guard guard' : State → Event → Prop} {s s' s₀ : State} {es : List Event}

def run (step : State → Event → Option State) : State → List Event → Option State
  | s, [] => some s
  | s, e :: es => (step s e).bind fun s' => run step s' es

inductive Reach (step : State → Event → Option State) (guard : State → Event → Prop) (s₀ : State) :
    State → Prop
  | start : Reach step guard s₀ s₀
  | next {s s' : State} {e : Event} (h : Reach step guard s₀ s) (hg : guard s e)
      (hs : step s e = some s') : Reach step guard s₀ s'

/-- What holds at the start and is kept by every allowed step holds in every
reachable state. -/
theorem Reach.invariant (h : Reach step guard s₀ s) (Inv : State → Prop) (h₀ : Inv s₀)
    (hstep : ∀ s e s', Inv s → guard s e → step s e = some s' → Inv s') : Inv s := by
  induction h with
  | start => exact h₀
  | next _ hg hs ih => exact hstep _ _ _ ih hg hs

theorem Reach.mono (h : Reach step guard s₀ s) (hg : ∀ s e, guard s e → guard' s e) :
    Reach step guard' s₀ s := by
  induction h with
  | start => exact Reach.start
  | next _ he hs ih => exact ih.next (hg _ _ he) hs

/-- The steps that pass a check. -/
def checked (ok : State → Event → Bool) (step : State → Event → Option State) (s : State) (e : Event) :
    Option State :=
  if ok s e then step s e else none

theorem Reach.checked {ok : State → Event → Bool} (hok : ∀ s e, ok s e = true → guard s e)
    (h : Reach step guard s₀ s) (hr : StepSystem.run (StepSystem.checked ok step) s es = some s') :
    Reach step guard s₀ s' := by
  induction es generalizing s with
  | nil => exact Option.some.inj hr ▸ h
  | cons e es ih =>
    obtain ⟨t, ht, hr⟩ := Option.bind_eq_some_iff.mp hr
    simp only [StepSystem.checked] at ht
    split_ifs at ht with he
    exact ih (h.next (hok s e he) ht) hr

theorem Reach.run (h : Reach step guard s₀ s) (hg : ∀ s, ∀ e ∈ es, guard s e)
    (hr : StepSystem.run step s es = some s') : Reach step guard s₀ s' := by
  induction es generalizing s with
  | nil => exact Option.some.inj hr ▸ h
  | cons e es ih =>
    obtain ⟨t, ht, hr⟩ := Option.bind_eq_some_iff.mp hr
    exact ih (h.next (hg s e (by simp)) ht) (fun s e he => hg s e (by simp [he])) hr

/-- A run with the state before each of its steps, the last step first. -/
inductive Trace (step : State → Event → Option State) (guard : State → Event → Prop) (s₀ : State) :
    List (State × Event) → State → Prop
  | start : Trace step guard s₀ [] s₀
  | next {tr : List (State × Event)} {s s' : State} {e : Event} (h : Trace step guard s₀ tr s)
      (hg : guard s e) (hs : step s e = some s') : Trace step guard s₀ ((s, e) :: tr) s'

namespace Trace

variable {tr : List (State × Event)}

theorem reach (h : Trace step guard s₀ tr s) : Reach step guard s₀ s := by
  induction h with
  | start => exact Reach.start
  | next _ hg hs ih => exact ih.next hg hs

theorem invariant (h : Trace step guard s₀ tr s) (Inv : List (State × Event) → State → Prop)
    (h₀ : Inv [] s₀)
    (hstep : ∀ tr s e s', Inv tr s → guard s e → step s e = some s' → Inv ((s, e) :: tr) s') :
    Inv tr s := by
  induction h with
  | start => exact h₀
  | next _ hg hs ih => exact hstep _ _ _ _ ih hg hs

theorem mono (h : Trace step guard s₀ tr s) (hg : ∀ s e, guard s e → guard' s e) :
    Trace step guard' s₀ tr s := by
  induction h with
  | start => exact start
  | next _ he hs ih => exact ih.next (hg _ _ he) hs

theorem of_mem (h : Trace step guard s₀ tr s) {x : State × Event} (hx : x ∈ tr) :
    ∃ tr' s', Trace step guard s₀ tr' x.1 ∧ guard x.1 x.2 ∧ step x.1 x.2 = some s' := by
  induction h with
  | start => cases hx
  | next h hg hs ih =>
    cases hx with
    | head => exact ⟨_, _, h, hg, hs⟩
    | tail _ hx => exact ih hx

end Trace

/-- The trace and the last state of a run whose steps pass a check. -/
def traced (ok : State → Event → Bool) (step : State → Event → Option State) :
    List (State × Event) → State → List Event → Option (List (State × Event) × State)
  | tr, s, [] => some (tr, s)
  | tr, s, e :: es => (checked ok step s e).bind fun s' => traced ok step ((s, e) :: tr) s' es

theorem Trace.traced {ok : State → Event → Bool} {tr tr' : List (State × Event)}
    (hok : ∀ s e, ok s e = true → guard s e) (h : Trace step guard s₀ tr s)
    (hr : StepSystem.traced ok step tr s es = some (tr', s')) : Trace step guard s₀ tr' s' := by
  induction es generalizing tr s with
  | nil =>
    obtain ⟨rfl, rfl⟩ := Prod.mk.inj (Option.some.inj hr)
    exact h
  | cons e es ih =>
    obtain ⟨t, ht, hr⟩ := Option.bind_eq_some_iff.mp hr
    simp only [checked] at ht
    split_ifs at ht with he
    exact ih (h.next (hok s e he) ht) hr

end StepSystem
