import UnifiedCache.Lib.StepSystem

/-! The countdown latch, used by any number of threads. A thread takes one step at a time: a load, a
compare-and-swap, an operation of the mutex or of the condition variable. What an epilog does with the
latch is a call of another thread. -/

namespace UnifiedCache.Infra

open StepSystem

namespace Latch

abbrev ThreadId := Nat

/-- A function that is called when the counter reaches zero, by its name. -/
abbrev Epilog := Nat

inductive Op where
  | done (finish : Option Epilog)
  | up
  | wait
  | waitFor (timeoutMs : UInt64)
  deriving DecidableEq

/-- Where a thread is. A wait is `timed` when it is that of `WaitFor`, and it has no `timeoutMs` otherwise.
The result is `false` only where `WaitFor` returns it. -/
inductive Phase where
  | outside
  -- `Done`
  | loading (finish : Option Epilog)
  | comparing (finish : Option Epilog) (counter : UInt64)
  | finishing (finish : Option Epilog)
  | calling (fn : Epilog)
  | locking
  | notifying
  -- `Up`
  | raising
  -- `Wait` and `WaitFor`
  | entering (timeoutMs : Option UInt64)
  | checking (timeoutMs : Option UInt64)
  | measuring (timeoutMs : UInt64)
  | testing (timed : Bool)
  | waiting (timed : Bool)
  | asleep (timed : Bool)
  | woken (timed : Bool)
  | rechecking
  -- The mutex goes out of scope.
  | leaving (result : Bool)
  | returned (result : Bool)
  deriving DecidableEq

/-- What a step does to what the threads share. -/
inductive Effect where
  | silent
  | store (counter : UInt64)
  | lock
  | unlock
  | notifyAll
  deriving DecidableEq

/-- Whether the thread must hold the mutex. -/
def Effect.needsMutex : Effect → Bool
  | .unlock | .notifyAll => true
  | .silent | .store _ | .lock => false

def Effect.holdsAfter : Effect → Bool → Bool
  | .lock, _ => true
  | .unlock, _ => false
  | .silent, held | .store _, held | .notifyAll, held => held

def Effect.counterAfter (counter : UInt64) : Effect → UInt64
  | .store counter => counter
  | .silent | .lock | .unlock | .notifyAll => counter

/-- What decides a step: nothing, the compare-and-swap fails without a reason, the sleep ends without a
reason or with the time, the wait says that the time is over, or a reading of the clock. -/
inductive Choice where
  | turn
  | weakFail
  | wake
  | expire
  | elapsed (elapsedMs : Int)
  deriving DecidableEq

namespace Phase

def enter : Op → Phase
  | .done finish => .loading finish
  | .up => .raising
  | .wait => .entering none
  | .waitFor timeoutMs => .entering (if timeoutMs = 0 then none else some timeoutMs)

/-- The guard of the loop in `Done`, for what was loaded. -/
def reload (finish : Option Epilog) (counter : UInt64) : Phase :=
  if 0 < counter then .comparing finish counter else .returned true

def exchanged (finish : Option Epilog) (desired : UInt64) : Phase :=
  if desired = 0 then .finishing finish else .returned true

/-- `fn`, where there is one. -/
def callEpilog : Option Epilog → Phase
  | some fn => .calling fn
  | none => .locking

/-- The next step of a thread, by the program text, where nothing but the counter decides it. -/
def turn (finish_ : Option Epilog) (counter : UInt64) : Phase → Option (Phase × Effect)
  | loading finish => some (reload finish counter, .silent)
  | comparing finish expected =>
    if counter = expected then some (exchanged finish (expected - 1), .store (expected - 1))
    else some (reload finish counter, .silent)
  | finishing finish => some (callEpilog (finish <|> finish_), .silent)
  | calling _ => some (locking, .silent)
  | locking => some (notifying, .lock)
  | notifying => some (leaving true, .notifyAll)
  | raising => some (returned true, .store (counter + 1))
  | entering timeoutMs => some (checking timeoutMs, .lock)
  | checking timeoutMs =>
    some (if counter = 0 then leaving true else timeoutMs.elim (testing false) measuring, .silent)
  | testing timed => some (if counter = 0 then leaving true else waiting timed, .silent)
  | waiting timed => some (asleep timed, .unlock)
  | woken timed => some (testing timed, .lock)
  | rechecking => some (leaving (counter == 0), .silent)
  | leaving result => some (returned result, .unlock)
  | outside | measuring _ | asleep _ | returned _ => none

def next (finish_ : Option Epilog) (counter : UInt64) (p : Phase) : Choice → Option (Phase × Effect)
  | .turn => p.turn finish_ counter
  | .weakFail =>
    match p with
    | comparing finish _ => some (reload finish counter, .silent)
    | _ => none
  | .wake =>
    match p with
    | asleep timed => some (woken timed, .silent)
    | _ => none
  | .expire =>
    match p with
    | woken true => some (rechecking, .lock)
    | _ => none
  | .elapsed elapsedMs =>
    match p with
    | measuring timeoutMs =>
      some (if timeoutMs.toInt64.toInt ≤ elapsedMs then leaving false else testing true, .silent)
    | _ => none

/-- The thread is in none of the latch's functions. -/
def free : Phase → Bool
  | outside | returned _ => true
  | _ => false

def holds : Phase → Bool
  | notifying | checking _ | measuring _ | testing _ | waiting _ | rechecking | leaving _ => true
  | outside | loading _ | comparing _ _ | finishing _ | calling _ | locking | raising | entering _ | asleep _
  | woken _ | returned _ => false

def notified : Phase → Phase
  | asleep timed => woken timed
  | p => p

/-- The epilog that the thread is in. -/
def epilog : Phase → Option Epilog
  | calling fn => some fn
  | _ => none

/-- A `Done` that has taken the counter to zero and has not notified yet. -/
def willNotify : Phase → Bool
  | finishing _ | calling _ | locking | notifying => true
  | _ => false

def isAsleep : Phase → Bool
  | asleep _ => true
  | _ => false

/-- A waiter that has seen the counter above zero and has not been woken since. -/
def drowsy : Phase → Bool
  | waiting _ | asleep _ => true
  | _ => false

end Phase

inductive Event where
  | call (t : ThreadId) (op : Op)
  | take (t : ThreadId) (choice : Choice)
  deriving DecidableEq

def Event.thread : Event → ThreadId
  | call t _ => t
  | take t _ => t

end Latch

structure Latch where
  counter : UInt64
  mutex : Option Latch.ThreadId
  phase : Latch.ThreadId → Latch.Phase

namespace Latch

section Step

variable (finish_ : Option Epilog) (s : Latch)

/-- After `Set`. -/
def set (expected : UInt64) : Latch := ⟨expected, none, fun _ => .outside⟩

def setPhase (t : ThreadId) (p : Phase) : Latch := { s with phase := Function.update s.phase t p }

def apply (t : ThreadId) (p : Phase) : Effect → Option Latch
  | .silent => some (s.setPhase t p)
  | .store counter => some { s.setPhase t p with counter := counter }
  | .lock => if s.mutex = none then some { s.setPhase t p with mutex := some t } else none
  | .unlock => some { s.setPhase t p with mutex := none }
  | .notifyAll => some { s with phase := Function.update (fun u => (s.phase u).notified) t p }

def step : Event → Option Latch
  | .call t op => if (s.phase t).free then some (s.setPhase t (Phase.enter op)) else none
  | .take t choice => ((s.phase t).next finish_ s.counter choice).bind fun x => s.apply t x.1 x.2

/-- No `Up` finds the counter at its largest value. -/
def NoWrap : Event → Prop
  | .take t _ => s.phase t = .raising → s.counter + 1 ≠ 0
  | .call _ _ => True

instance (e : Event) : Decidable (s.NoWrap e) :=
  match e with
  | .take _ _ => inferInstanceAs (Decidable (_ → _))
  | .call _ _ => inferInstanceAs (Decidable True)

end Step

/-- What is seen of a call from outside: by how much its steps have lowered and raised the counter, how
often they have taken it to zero, which epilogs it has called, and what the counter has been since it began. -/
structure Call where
  op : Op
  lowered : Nat
  raised : Nat
  zeroed : Nat
  epilogs : List Epilog
  sawZero : Bool
  sawPositive : Bool
  deriving DecidableEq

namespace Call

variable (finish_ : Option Epilog) (c : Call)

def begin (op : Op) : Call := ⟨op, 0, 0, 0, [], false, false⟩

/-- A step of the call that leads to `p`. -/
def note (before after : UInt64) (p : Phase) : Call :=
  { c with
    lowered := c.lowered + (before.toNat - after.toNat)
    raised := c.raised + (after.toNat - before.toNat)
    zeroed := c.zeroed + if before ≠ 0 ∧ after = 0 then 1 else 0
    epilogs := c.epilogs ++ p.epilog.toList }

def see (counter : UInt64) : Call :=
  { c with sawZero := c.sawZero || counter == 0, sawPositive := c.sawPositive || counter != 0 }

/-- The epilog that belongs to the call. -/
def due : List Epilog :=
  match c.op with
  | .done finish => (finish <|> finish_).toList
  | _ => []

def isDone : Bool :=
  match c.op with
  | .done _ => true
  | _ => false

/-- A call that is at `p` has done what it should: it lowers the counter by one at most and only in
`Done`, raises it only in `Up`, runs its epilog once if it has taken the counter to zero, and does
not return before it may. -/
structure Right (p : Phase) : Prop where
  lowered : c.lowered ≤ if c.isDone then 1 else 0
  raised : c.raised ≤ if c.op = .up then 1 else 0
  zeroed : c.zeroed ≤ c.lowered
  epilogs : (∃ finish, p = .finishing finish) ∧ c.zeroed = 1 ∧ c.epilogs = [] ∨
    (∀ finish, p ≠ .finishing finish) ∧ c.epilogs = if c.zeroed = 1 then c.due finish_ else []
  done : ∀ result, p = .returned result → c.isDone →
    c.lowered = 1 ∧ c.sawPositive ∨ c.lowered = 0 ∧ c.sawZero
  up : ∀ result, p = .returned result → c.op = .up → c.raised = 1
  wait : ∀ result, p = .returned result → c.op = .wait → c.sawZero
  waitFor : ∀ timeoutMs, p = .returned true → c.op = .waitFor timeoutMs → c.sawZero

end Call

/-- The latch with its threads' last calls. -/
structure Watched where
  latch : Latch
  call : ThreadId → Call

namespace Watched

variable (finish_ : Option Epilog) (w : Watched)

def set (expected : UInt64) : Watched := ⟨Latch.set expected, fun _ => (Call.begin .wait).see expected⟩

def observe (e : Event) (latch : Latch) (t : ThreadId) : Call :=
  if t = e.thread then
    match e with
    | .call _ op => Call.begin op
    | .take _ _ => (w.call t).note w.latch.counter latch.counter (latch.phase t)
  else w.call t

def step (e : Event) : Option Watched :=
  (w.latch.step finish_ e).map fun latch => ⟨latch, fun t => (w.observe e latch t).see latch.counter⟩

def NoWrap (e : Event) : Prop := w.latch.NoWrap e

instance (e : Event) : Decidable (w.NoWrap e) := inferInstanceAs (Decidable (w.latch.NoWrap e))

structure Sound : Prop where
  calls : ∀ t, w.latch.phase t ≠ .outside → (w.call t).Right finish_ (w.latch.phase t)
  awake : w.latch.counter = 0 → ∀ t, (w.latch.phase t).isAsleep → ∃ d, (w.latch.phase d).willNotify

end Watched

/-- What a step takes a thread from and to, and does, where the counter is `counter`. -/
inductive Move (finish_ : Option Epilog) (counter : UInt64) : Phase → Phase → Effect → Prop
  | load (finish : Option Epilog) (h : 0 < counter) :
    Move finish_ counter (.loading finish) (.comparing finish counter) .silent
  | loadZero (finish : Option Epilog) (h : counter = 0) :
    Move finish_ counter (.loading finish) (.returned true) .silent
  | reload (finish : Option Epilog) (expected : UInt64) (h : 0 < counter) :
    Move finish_ counter (.comparing finish expected) (.comparing finish counter) .silent
  | reloadZero (finish : Option Epilog) (expected : UInt64) (h : counter = 0) :
    Move finish_ counter (.comparing finish expected) (.returned true) .silent
  | take (finish : Option Epilog) (h : counter - 1 ≠ 0) :
    Move finish_ counter (.comparing finish counter) (.returned true) (.store (counter - 1))
  | takeLast (finish : Option Epilog) (h : counter - 1 = 0) :
    Move finish_ counter (.comparing finish counter) (.finishing finish) (.store (counter - 1))
  | epilog (finish : Option Epilog) (fn : Epilog) (h : (finish <|> finish_) = some fn) :
    Move finish_ counter (.finishing finish) (.calling fn) .silent
  | noEpilog (finish : Option Epilog) (h : (finish <|> finish_) = none) :
    Move finish_ counter (.finishing finish) .locking .silent
  | called (fn : Epilog) : Move finish_ counter (.calling fn) .locking .silent
  | lock : Move finish_ counter .locking .notifying .lock
  | notify : Move finish_ counter .notifying (.leaving true) .notifyAll
  | raise : Move finish_ counter .raising (.returned true) (.store (counter + 1))
  | enter (timeoutMs : Option UInt64) :
    Move finish_ counter (.entering timeoutMs) (.checking timeoutMs) .lock
  | checkZero (timeoutMs : Option UInt64) (h : counter = 0) :
    Move finish_ counter (.checking timeoutMs) (.leaving true) .silent
  | check (h : counter ≠ 0) : Move finish_ counter (.checking none) (.testing false) .silent
  | checkFor (timeoutMs : UInt64) (h : counter ≠ 0) :
    Move finish_ counter (.checking (some timeoutMs)) (.measuring timeoutMs) .silent
  | late (timeoutMs : UInt64) : Move finish_ counter (.measuring timeoutMs) (.leaving false) .silent
  | inTime (timeoutMs : UInt64) : Move finish_ counter (.measuring timeoutMs) (.testing true) .silent
  | testZero (timed : Bool) (h : counter = 0) :
    Move finish_ counter (.testing timed) (.leaving true) .silent
  | test (timed : Bool) (h : counter ≠ 0) :
    Move finish_ counter (.testing timed) (.waiting timed) .silent
  | sleep (timed : Bool) : Move finish_ counter (.waiting timed) (.asleep timed) .unlock
  | wake (timed : Bool) : Move finish_ counter (.asleep timed) (.woken timed) .silent
  | relock (timed : Bool) : Move finish_ counter (.woken timed) (.testing timed) .lock
  | expire : Move finish_ counter (.woken true) .rechecking .lock
  | recheck : Move finish_ counter .rechecking (.leaving (counter == 0)) .silent
  | leave (result : Bool) : Move finish_ counter (.leaving result) (.returned result) .unlock

namespace Move

variable {finish_ : Option Epilog} {counter : UInt64} {p p' : Phase} {choice : Choice} {eff : Effect}

theorem of_turn (h : p.turn finish_ counter = some (p', eff)) : Move finish_ counter p p' eff := by
  cases p with
  | outside | measuring | asleep | returned => cases h
  | loading finish =>
    obtain ⟨rfl, rfl⟩ := Prod.mk.inj (Option.some.inj h)
    unfold Phase.reload
    split_ifs with h
    · exact load finish h
    · exact loadZero finish (by simpa using h)
  | comparing finish expected =>
    simp only [Phase.turn] at h
    split_ifs at h with he <;> obtain ⟨rfl, rfl⟩ := Prod.mk.inj (Option.some.inj h)
    · subst he
      unfold Phase.exchanged
      split_ifs with h
      · exact takeLast finish h
      · exact take finish h
    · unfold Phase.reload
      split_ifs with h
      · exact reload finish expected h
      · exact reloadZero finish expected (by simpa using h)
  | finishing finish =>
    obtain ⟨rfl, rfl⟩ := Prod.mk.inj (Option.some.inj h)
    cases he : finish <|> finish_ with
    | some fn => exact epilog finish fn he
    | none => exact noEpilog finish he
  | checking timeoutMs =>
    obtain ⟨rfl, rfl⟩ := Prod.mk.inj (Option.some.inj h)
    split_ifs with hc
    · exact checkZero timeoutMs hc
    · cases timeoutMs with
      | none => exact check hc
      | some timeoutMs => exact checkFor timeoutMs hc
  | testing timed =>
    obtain ⟨rfl, rfl⟩ := Prod.mk.inj (Option.some.inj h)
    split_ifs with h
    · exact testZero timed h
    · exact test timed h
  | _ =>
    obtain ⟨rfl, rfl⟩ := Prod.mk.inj (Option.some.inj h)
    constructor

theorem of_next (h : p.next finish_ counter choice = some (p', eff)) : Move finish_ counter p p' eff := by
  cases choice with
  | turn => exact of_turn h
  | weakFail =>
    cases p with
    | comparing finish expected =>
      obtain ⟨rfl, rfl⟩ := Prod.mk.inj (Option.some.inj h)
      unfold Phase.reload
      split_ifs with h
      · exact reload finish expected h
      · exact reloadZero finish expected (by simpa using h)
    | _ => cases h
  | wake =>
    cases p with
    | asleep timed =>
      obtain ⟨rfl, rfl⟩ := Prod.mk.inj (Option.some.inj h)
      exact wake timed
    | _ => cases h
  | expire =>
    cases p with
    | woken timed =>
      cases timed with
      | true =>
        obtain ⟨rfl, rfl⟩ := Prod.mk.inj (Option.some.inj h)
        exact expire
      | false => cases h
    | _ => cases h
  | elapsed elapsedMs =>
    cases p with
    | measuring timeoutMs =>
      obtain ⟨rfl, rfl⟩ := Prod.mk.inj (Option.some.inj h)
      split_ifs
      · exact late timeoutMs
      · exact inTime timeoutMs
    | _ => cases h

theorem holds (h : Move finish_ counter p p' eff) :
    (eff.needsMutex → p.holds) ∧ p'.holds = eff.holdsAfter p.holds := by
  cases h <;> simp [Phase.holds, Effect.needsMutex, Effect.holdsAfter]

theorem willNotify (h : Move finish_ counter p p' eff) (hp : p.willNotify) :
    p'.willNotify ∨ eff = .notifyAll := by
  cases h <;> simp_all [Phase.willNotify]

theorem drowsy (h : Move finish_ counter p p' eff) (hp : p'.drowsy) : p.drowsy ∨ counter ≠ 0 := by
  cases h <;> simp_all [Phase.drowsy]

/-- The counter is at zero for the first time only where the thread goes on to notify. -/
theorem zero (h : Move finish_ counter p p' eff) (hc : eff.counterAfter counter = 0)
    (hp : p = .raising → counter + 1 ≠ 0) : counter = 0 ∨ p'.willNotify := by
  cases h with
  | take finish h => exact absurd hc h
  | takeLast => exact .inr rfl
  | raise => exact absurd hc (hp rfl)
  | _ => exact .inl hc

theorem notifier (h : Move finish_ counter p p' .notifyAll) : p = .notifying ∧ p' = .leaving true := by
  cases h
  exact ⟨rfl, rfl⟩

end Move

@[simp] theorem Phase.holds_notified (p : Phase) : p.notified.holds = p.holds := by
  cases p <;> rfl

@[simp] theorem Phase.drowsy_notified (p : Phase) (h : p.holds = false) : p.notified.drowsy = false := by
  cases p <;> first | rfl | cases h

/-- What the mutex does, and what the order of the last decrement, the lock and the notification does. -/
structure Inv (s : Latch) : Prop where
  mutex : ∀ t, (s.phase t).holds ↔ s.mutex = some t
  awake : s.counter = 0 → ∀ t, (s.phase t).drowsy → ∃ d, (s.phase d).willNotify

section Apply

variable {finish_ : Option Epilog} {s s' : Latch} {t : ThreadId} {p : Phase} {eff : Effect}

theorem Inv.mutex_apply (hi : s.Inv) (hm : Move finish_ s.counter (s.phase t) p eff)
    (h : s.apply t p eff = some s') (u : ThreadId) : (s'.phase u).holds ↔ s'.mutex = some u := by
  have ht := hi.mutex t
  have hu := hi.mutex u
  obtain ⟨hneeds, hp⟩ := hm.holds
  have he : u = t ∨ u ≠ t := eq_or_ne u t
  cases eff with
  | silent =>
    cases h
    obtain rfl | he := he
    · simpa [setPhase, hp, Effect.holdsAfter] using ht
    · simpa [setPhase, he] using hu
  | store counter =>
    cases h
    obtain rfl | he := he
    · simpa [setPhase, hp, Effect.holdsAfter] using ht
    · simpa [setPhase, he] using hu
  | lock =>
    simp only [Latch.apply] at h
    split_ifs at h with hn
    cases h
    obtain rfl | he := he
    · simp [setPhase, hp, Effect.holdsAfter]
    · rw [hn] at hu
      simpa [setPhase, he, Ne.symm he] using hu
  | unlock =>
    cases h
    obtain rfl | he := he
    · simp [setPhase, hp, Effect.holdsAfter]
    · rw [ht.mp (hneeds rfl)] at hu
      simpa [setPhase, he, Ne.symm he] using hu
  | notifyAll =>
    cases h
    obtain rfl | he := he
    · simpa [hp, Effect.holdsAfter] using ht
    · simpa [he] using hu

theorem phase_apply (h : s.apply t p eff = some s') (hn : eff ≠ .notifyAll) :
    s'.phase = Function.update s.phase t p := by
  cases eff with
  | silent | store | unlock =>
    cases h
    rfl
  | lock =>
    simp only [Latch.apply] at h
    split_ifs at h with hm
    cases h
    rfl
  | notifyAll => exact absurd rfl hn

theorem counter_apply (h : s.apply t p eff = some s') : s'.counter = eff.counterAfter s.counter := by
  cases eff with
  | silent | store | unlock | notifyAll =>
    cases h
    rfl
  | lock =>
    simp only [Latch.apply] at h
    split_ifs at h with hm
    cases h
    rfl

/-- The notifying thread holds the mutex, so that none is between its look at the counter and its sleep. -/
theorem Inv.awake_notifyAll (hi : s.Inv) (hm : Move finish_ s.counter (s.phase t) p .notifyAll)
    (h : s.apply t p .notifyAll = some s') (u : ThreadId) : (s'.phase u).drowsy = false := by
  obtain ⟨ht, rfl⟩ := hm.notifier
  have hown : s.mutex = some t := (hi.mutex t).mp (by rw [ht]; rfl)
  cases h
  by_cases hu : u = t
  · subst hu
    simp [Phase.drowsy]
  · simp only [Function.update_of_ne hu]
    refine (s.phase u).drowsy_notified ?_
    by_contra hh
    have := (hi.mutex u).mp (by simpa using hh)
    exact hu (Option.some.inj (this.symm.trans hown))

theorem Inv.awake_apply (hi : s.Inv) (hm : Move finish_ s.counter (s.phase t) p eff)
    (hw : s.phase t = .raising → s.counter + 1 ≠ 0) (h : s.apply t p eff = some s') (hc : s'.counter = 0)
    (u : ThreadId) (hu : (s'.phase u).drowsy) : ∃ d, (s'.phase d).willNotify := by
  by_cases hn : eff = .notifyAll
  · subst hn
    rw [hi.awake_notifyAll hm h u] at hu
    cases hu
  have hp := phase_apply h hn
  obtain hz | hz := hm.zero (counter_apply h ▸ hc) hw
  · -- Whoever is drowsy now was so before, since the counter is at zero.
    have hu' : (s.phase u).drowsy := by
      rw [hp] at hu
      by_cases he : u = t
      · subst he
        rw [Function.update_self] at hu
        exact (hm.drowsy hu).resolve_right (fun h => h hz)
      · rwa [Function.update_of_ne he] at hu
    obtain ⟨d, hd⟩ := hi.awake hz u hu'
    refine ⟨d, ?_⟩
    rw [hp]
    by_cases he : d = t
    · subst he
      rw [Function.update_self]
      exact (hm.willNotify hd).resolve_right hn
    · rwa [Function.update_of_ne he]
  · exact ⟨t, by rwa [hp, Function.update_self]⟩

theorem Inv.apply (hi : s.Inv) (hm : Move finish_ s.counter (s.phase t) p eff)
    (hw : s.phase t = .raising → s.counter + 1 ≠ 0) (h : s.apply t p eff = some s') : s'.Inv :=
  ⟨hi.mutex_apply hm h, hi.awake_apply hm hw h⟩

end Apply

theorem Phase.enter_idle (op : Op) :
    (enter op).holds = false ∧ (enter op).drowsy = false ∧ (enter op).willNotify = false := by
  cases op <;> exact ⟨rfl, rfl, rfl⟩

theorem Phase.of_free {p : Phase} (h : p.free) : p.holds = false ∧ p.willNotify = false := by
  cases p <;> first | exact ⟨rfl, rfl⟩ | cases h

theorem Inv.call {s : Latch} {t : ThreadId} (hi : s.Inv) (hf : (s.phase t).free) (op : Op) :
    (s.setPhase t (Phase.enter op)).Inv := by
  obtain ⟨hh, hd, hn⟩ := Phase.enter_idle op
  obtain ⟨hth, htn⟩ := Phase.of_free hf
  constructor
  · intro u
    by_cases hu : u = t
    · subst hu
      simpa [setPhase, hh, hth] using hi.mutex u
    · simpa [setPhase, hu] using hi.mutex u
  · intro hc u hu
    have hne : u ≠ t := by
      rintro rfl
      simp [setPhase, hd] at hu
    simp only [setPhase, Function.update_of_ne hne] at hu
    obtain ⟨d, hd⟩ := hi.awake hc u hu
    have hdt : d ≠ t := by
      rintro rfl
      rw [htn] at hd
      cases hd
    exact ⟨d, by simpa only [setPhase, Function.update_of_ne hdt] using hd⟩

theorem Inv.step {finish_ : Option Epilog} {s s' : Latch} {e : Event} (hi : s.Inv) (hw : s.NoWrap e)
    (h : s.step finish_ e = some s') : s'.Inv := by
  cases e with
  | call t op =>
    simp only [Latch.step] at h
    split_ifs at h with hf
    cases h
    exact hi.call hf op
  | take t choice =>
    obtain ⟨⟨p, eff⟩, hn, ha⟩ := Option.bind_eq_some_iff.mp h
    exact hi.apply (Move.of_next hn) hw ha

theorem Inv.set (expected : UInt64) : (Latch.set expected).Inv :=
  ⟨fun _ => by simp [Latch.set, Phase.holds], fun _ _ h => by cases h⟩

namespace Call

variable {finish_ : Option Epilog} {c : Call} {p : Phase}

structure Fresh (c : Call) : Prop where
  lowered : c.lowered = 0
  raised : c.raised = 0
  zeroed : c.zeroed = 0
  epilogs : c.epilogs = []

/-- A `Done` that has taken the counter to zero and run `epilogs`. -/
structure Took (c : Call) (epilogs : List Epilog) : Prop where
  lowered : c.lowered = 1
  raised : c.raised = 0
  zeroed : c.zeroed = 1
  epilogs : c.epilogs = epilogs
  sawPositive : c.sawPositive

def Waits (c : Call) (timed : Bool) : Prop := c.op = .wait ∧ timed = false ∨ ∃ timeoutMs, c.op = .waitFor timeoutMs

/-- What a call has done when it is at a phase. -/
def At (finish_ : Option Epilog) (c : Call) : Phase → Prop
  | .outside => True
  | .loading finish => c.op = .done finish ∧ c.Fresh
  | .comparing finish counter => c.op = .done finish ∧ c.Fresh ∧ 0 < counter
  | .finishing finish => c.op = .done finish ∧ c.Took []
  | .calling _ | .locking | .notifying => c.isDone ∧ c.Took (c.due finish_)
  | .raising => c.op = .up ∧ c.Fresh
  | .entering timeoutMs | .checking timeoutMs => c.Waits timeoutMs.isSome ∧ c.Fresh
  | .measuring _ | .rechecking => c.Waits true ∧ c.Fresh
  | .testing timed | .waiting timed | .asleep timed | .woken timed => c.Waits timed ∧ c.Fresh
  | .leaving result =>
    (c.isDone ∧ c.Took (c.due finish_)) ∨ c.Waits (!result) ∧ c.Fresh ∧ (result → c.sawZero)
  | .returned result => c.Right finish_ (.returned result)

theorem note_self (k : UInt64) (hp : p.epilog = none) : c.note k k p = c := by
  simp [note, hp]

theorem Fresh.right (h : c.Fresh) (hp : ∀ finish, p ≠ .finishing finish) (hr : ∀ result, p ≠ .returned result) :
    c.Right finish_ p where
  lowered := by rw [h.lowered]; exact Nat.zero_le _
  raised := by rw [h.raised]; exact Nat.zero_le _
  zeroed := by rw [h.zeroed]; exact Nat.zero_le _
  epilogs := .inr ⟨hp, by simp [h.zeroed, h.epilogs]⟩
  done result he := absurd he (hr result)
  up result he := absurd he (hr result)
  wait result he := absurd he (hr result)
  waitFor _ he := absurd he (hr true)

theorem Took.right (h : c.Took (c.due finish_)) (hd : c.isDone) (hp : ∀ finish, p ≠ .finishing finish) :
    c.Right finish_ p where
  lowered := by simp [h.lowered, hd]
  raised := by rw [h.raised]; exact Nat.zero_le _
  zeroed := by rw [h.zeroed, h.lowered]
  epilogs := .inr ⟨hp, by simp [h.zeroed, h.epilogs]⟩
  done _ _ _ := .inl ⟨h.lowered, h.sawPositive⟩
  up _ _ ho := by simp [isDone, ho] at hd
  wait _ _ ho := by simp [isDone, ho] at hd
  waitFor _ _ ho := by simp [isDone, ho] at hd

theorem At.right (h : c.At finish_ p) (hp : p ≠ .outside) : c.Right finish_ p := by
  cases p with
  | outside => exact absurd rfl hp
  | loading | comparing | raising | entering | checking | measuring | testing | waiting | asleep | woken |
    rechecking =>
    have hf : c.Fresh := by simp only [At] at h; tauto
    exact hf.right (by simp) (by simp)
  | finishing finish =>
    obtain ⟨ho, ht⟩ := h
    exact
      { lowered := by simp [ht.lowered, isDone, ho]
        raised := by rw [ht.raised]; exact Nat.zero_le _
        zeroed := by rw [ht.zeroed, ht.lowered]
        epilogs := .inl ⟨⟨finish, rfl⟩, ht.zeroed, ht.epilogs⟩
        done := by simp
        up := by simp
        wait := by simp
        waitFor := by simp }
  | calling | locking | notifying => exact h.2.right h.1 (by simp)
  | leaving result =>
    obtain ⟨hd, ht⟩ | ⟨-, hf, -⟩ := h
    · exact ht.right hd (by simp)
    · exact hf.right (by simp) (by simp)
  | returned => exact h

theorem Right.see (h : c.Right finish_ p) (k : UInt64) : (c.see k).Right finish_ p where
  lowered := h.lowered
  raised := h.raised
  zeroed := h.zeroed
  epilogs := h.epilogs
  done result hp hd := by
    obtain ⟨hl, hs⟩ | ⟨hl, hs⟩ := h.done result hp hd
    · exact .inl ⟨hl, by simp [Call.see, hs]⟩
    · exact .inr ⟨hl, by simp [Call.see, hs]⟩
  up := h.up
  wait result hp ho := by simp [Call.see, h.wait result hp ho]
  waitFor timeoutMs hp ho := by simp [Call.see, h.waitFor timeoutMs hp ho]

theorem Fresh.see (h : c.Fresh) (k : UInt64) : (c.see k).Fresh := ⟨h.lowered, h.raised, h.zeroed, h.epilogs⟩

theorem Took.see {epilogs : List Epilog} (h : c.Took epilogs) (k : UInt64) : (c.see k).Took epilogs :=
  ⟨h.lowered, h.raised, h.zeroed, h.epilogs, by simp [Call.see, h.sawPositive]⟩

theorem At.see (h : c.At finish_ p) (k : UInt64) : (c.see k).At finish_ p := by
  cases p with
  | outside => trivial
  | loading | raising | entering | checking | measuring | testing | waiting | asleep | woken | rechecking =>
    exact ⟨h.1, h.2.see k⟩
  | comparing => exact ⟨h.1, h.2.1.see k, h.2.2⟩
  | finishing | calling | locking | notifying => exact ⟨h.1, h.2.see k⟩
  | leaving result =>
    obtain ⟨hd, ht⟩ | ⟨hw, hf, hs⟩ := h
    · exact .inl ⟨hd, ht.see k⟩
    · exact .inr ⟨hw, hf.see k, fun hr => by simp [Call.see, hs hr]⟩
  | returned => exact Right.see h k

theorem At.notified (h : c.At finish_ p) : c.At finish_ p.notified := by
  cases p <;> exact h

theorem At.enter (op : Op) : (begin op).At finish_ (Phase.enter op) := by
  have hf : (begin op).Fresh := ⟨rfl, rfl, rfl, rfl⟩
  cases op with
  | done finish => exact ⟨rfl, hf⟩
  | up => exact ⟨rfl, hf⟩
  | wait => exact ⟨.inl ⟨rfl, rfl⟩, hf⟩
  | waitFor timeoutMs => exact ⟨.inr ⟨timeoutMs, rfl⟩, hf⟩

theorem Waits.untimed {timed : Bool} (h : c.Waits timed) : c.Waits false := by
  obtain ⟨ho, -⟩ | h := h
  · exact .inl ⟨ho, rfl⟩
  · exact .inr h

theorem Waits.isDone {timed : Bool} (h : c.Waits timed) : c.isDone = false := by
  obtain ⟨ho, -⟩ | ⟨_, ho⟩ := h <;> simp [Call.isDone, ho]

/-- A wait has seen the counter at zero when it returns `true`. -/
theorem Waits.returned {result : Bool} (h : c.Waits !result) (hf : c.Fresh) (hs : result → c.sawZero) :
    c.Right finish_ (.returned result) where
  lowered := by rw [hf.lowered]; exact Nat.zero_le _
  raised := by rw [hf.raised]; exact Nat.zero_le _
  zeroed := by rw [hf.zeroed]; exact Nat.zero_le _
  epilogs := .inr ⟨by simp, by simp [hf.zeroed, hf.epilogs]⟩
  done _ _ hd := by simp [h.isDone] at hd
  up _ _ ho := by simp [Waits, ho] at h
  wait _ _ ho := by
    obtain ⟨-, hr⟩ | ⟨_, hw⟩ := h
    · exact hs (by simpa using hr)
    · simp [ho] at hw
  waitFor _ hr _ := hs (by simpa using hr)

/-- A `Done` that has taken nothing off returns since the counter is at zero. -/
theorem Fresh.done_returned {finish : Option Epilog} (hf : c.Fresh) (ho : c.op = .done finish) (hs : c.sawZero) :
    c.Right finish_ (.returned true) where
  lowered := by rw [hf.lowered]; exact Nat.zero_le _
  raised := by rw [hf.raised]; exact Nat.zero_le _
  zeroed := by rw [hf.zeroed]; exact Nat.zero_le _
  epilogs := .inr ⟨by simp, by simp [hf.zeroed, hf.epilogs]⟩
  done _ _ _ := .inr ⟨hf.lowered, hs⟩
  up := by simp [ho]
  wait := by simp [ho]
  waitFor := by simp [ho]

theorem toNat_sub_one {counter : UInt64} (h : 0 < counter) : (counter - 1).toNat + 1 = counter.toNat := by
  have hc : 0 < counter.toNat := UInt64.lt_iff_toNat_lt.mp h
  have h1 : (1 : UInt64) ≤ counter := UInt64.le_iff_toNat_le.mpr hc
  rw [UInt64.toNat_sub_of_le _ _ h1]
  exact Nat.sub_add_cancel hc

theorem toNat_add_one {counter : UInt64} (h : counter + 1 ≠ 0) : (counter + 1).toNat = counter.toNat + 1 := by
  have hm : (counter + 1).toNat = (counter.toNat + 1) % 2 ^ 64 := UInt64.toNat_add counter 1
  have hn : (counter + 1).toNat ≠ 0 := fun hn => h (UInt64.toNat_inj.mp hn)
  have := counter.toNat_lt
  omega

theorem Fresh.taken {finish : Option Epilog} {counter : UInt64} (hf : c.Fresh) (ho : c.op = .done finish)
    (hp : c.sawPositive) (hc : 0 < counter) (hn : counter - 1 ≠ 0) :
    (c.note counter (counter - 1) (.returned true)).Right finish_ (.returned true) := by
  have h1 := toNat_sub_one hc
  have hl : (c.note counter (counter - 1) (.returned true)).lowered = 1 := by
    simp only [note, hf.lowered]
    omega
  have hr : (c.note counter (counter - 1) (.returned true)).raised = 0 := by
    simp only [note, hf.raised]
    omega
  have hz : (c.note counter (counter - 1) (.returned true)).zeroed = 0 := by simp [note, hf.zeroed, hn]
  exact
    { lowered := by
        rw [hl]
        simp [isDone, note, ho]
      raised := by simp [hr]
      zeroed := by simp [hz]
      epilogs := .inr ⟨by simp, by simp [hz]; simp [note, hf.epilogs, Phase.epilog]⟩
      done := fun _ _ _ => .inl ⟨hl, hp⟩
      up := by simp [note, ho]
      wait := by simp [note, ho]
      waitFor := by simp [note, ho] }

theorem Fresh.took {counter : UInt64} (hf : c.Fresh) (hp : c.sawPositive) (hc : 0 < counter) (hn : counter - 1 = 0)
    (finish : Option Epilog) : (c.note counter (counter - 1) (.finishing finish)).Took [] := by
  have h1 := toNat_sub_one hc
  have hne := UInt64.pos_iff_ne_zero.mp hc
  constructor
  · simp only [note, hf.lowered]
    omega
  · simp only [note, hf.raised]
    omega
  · simp [note, hf.zeroed, hn, hne]
  · simp [note, hf.epilogs, Phase.epilog]
  · exact hp

theorem Took.ran {counter : UInt64} {fn : Epilog} (h : c.Took []) (hd : c.due finish_ = [fn]) :
    (c.note counter counter (.calling fn)).Took ((c.note counter counter (.calling fn)).due finish_) where
  lowered := by simp [note, h.lowered]
  raised := by simp [note, h.raised]
  zeroed := by simp [note, h.zeroed]
  epilogs := by
    have : (c.note counter counter (.calling fn)).due finish_ = c.due finish_ := rfl
    rw [this, hd]
    simp [note, h.epilogs, Phase.epilog]
  sawPositive := h.sawPositive

theorem Fresh.raised_up {counter : UInt64} (hf : c.Fresh) (ho : c.op = .up) (hn : counter + 1 ≠ 0) :
    (c.note counter (counter + 1) (.returned true)).Right finish_ (.returned true) := by
  have h1 := toNat_add_one hn
  have hr : (c.note counter (counter + 1) (.returned true)).raised = 1 := by
    simp only [note, hf.raised]
    omega
  have hz : (c.note counter (counter + 1) (.returned true)).zeroed = 0 := by simp [note, hf.zeroed, hn]
  exact
    { lowered := by
        simp only [note, hf.lowered]
        omega
      raised := by
        rw [hr]
        simp [note, ho]
      zeroed := by simp [hz]
      epilogs := .inr ⟨by simp, by simp [hz]; simp [note, hf.epilogs, Phase.epilog]⟩
      done := by simp [note, isDone, ho]
      up := fun _ _ _ => hr
      wait := by simp [note, ho]
      waitFor := by simp [note, ho] }

end Call

section Tally

variable {finish_ : Option Epilog} {counter : UInt64} {p p' : Phase} {eff : Effect} {c : Call}

theorem Move.at (hm : Move finish_ counter p p' eff) (hw : p = .raising → counter + 1 ≠ 0)
    (hz : counter = 0 → c.sawZero) (hp : counter ≠ 0 → c.sawPositive) (h : c.At finish_ p) :
    (c.note counter (eff.counterAfter counter) p').At finish_ p' := by
  cases hm with
  | load finish hc =>
    rw [Effect.counterAfter, Call.note_self _ rfl]
    exact ⟨h.1, h.2, hc⟩
  | loadZero finish hc =>
    rw [Effect.counterAfter, Call.note_self _ rfl]
    exact h.2.done_returned h.1 (hz hc)
  | reload finish expected hc =>
    rw [Effect.counterAfter, Call.note_self _ rfl]
    exact ⟨h.1, h.2.1, hc⟩
  | reloadZero finish expected hc =>
    rw [Effect.counterAfter, Call.note_self _ rfl]
    exact h.2.1.done_returned h.1 (hz hc)
  | take finish hn =>
    exact h.2.1.taken h.1 (hp (UInt64.pos_iff_ne_zero.mp h.2.2)) h.2.2 hn
  | takeLast finish hn =>
    exact ⟨h.1, h.2.1.took (hp (UInt64.pos_iff_ne_zero.mp h.2.2)) h.2.2 hn finish⟩
  | epilog finish fn hf =>
    obtain ⟨ho, ht⟩ := h
    exact ⟨by simp [Call.isDone, Call.note, ho], ht.ran (by simp [Call.due, ho, hf])⟩
  | noEpilog finish hf =>
    rw [Effect.counterAfter, Call.note_self _ rfl]
    obtain ⟨ho, ht⟩ := h
    have hd : c.due finish_ = [] := by simp [Call.due, ho, hf]
    exact ⟨by simp [Call.isDone, ho], hd.symm ▸ ht⟩
  | called | lock =>
    rw [Effect.counterAfter, Call.note_self _ rfl]
    exact h
  | notify =>
    rw [Effect.counterAfter, Call.note_self _ rfl]
    exact .inl h
  | raise => exact h.2.raised_up h.1 (hw rfl)
  | checkZero timeoutMs hc =>
    rw [Effect.counterAfter, Call.note_self _ rfl]
    exact .inr ⟨h.1.untimed, h.2, fun _ => hz hc⟩
  | late =>
    rw [Effect.counterAfter, Call.note_self _ rfl]
    exact .inr ⟨h.1, h.2, by simp⟩
  | testZero timed hc =>
    rw [Effect.counterAfter, Call.note_self _ rfl]
    exact .inr ⟨h.1.untimed, h.2, fun _ => hz hc⟩
  | recheck =>
    rw [Effect.counterAfter, Call.note_self _ rfl]
    refine .inr ⟨?_, h.2, fun hr => hz (by simpa using hr)⟩
    cases counter == 0
    · exact h.1
    · exact h.1.untimed
  | leave result =>
    rw [Effect.counterAfter, Call.note_self _ rfl]
    obtain ⟨hd, ht⟩ | ⟨hw, hf, hs⟩ := h
    · exact ht.right hd (by simp)
    · exact hw.returned hf hs
  | enter | check | checkFor | inTime | test | sleep | wake | relock | expire =>
    rw [Effect.counterAfter, Call.note_self _ rfl]
    exact h

end Tally

theorem phase_apply_self {s s' : Latch} {t : ThreadId} {p : Phase} {eff : Effect} (h : s.apply t p eff = some s') :
    s'.phase t = p := by
  by_cases hn : eff = .notifyAll
  · subst hn
    cases h
    simp only [Function.update_self]
  · rw [phase_apply h hn, Function.update_self]

theorem phase_apply_of_ne {s s' : Latch} {t u : ThreadId} {p : Phase} {eff : Effect}
    (h : s.apply t p eff = some s') (hu : u ≠ t) :
    s'.phase u = s.phase u ∨ s'.phase u = (s.phase u).notified := by
  by_cases hn : eff = .notifyAll
  · subst hn
    cases h
    exact .inr (by simp only [Function.update_of_ne hu])
  · exact .inl (by rw [phase_apply h hn, Function.update_of_ne hu])

namespace Watched

variable {finish_ : Option Epilog} {w w' : Watched} {e : Event}

structure Inv (finish_ : Option Epilog) (w : Watched) : Prop where
  latch : w.latch.Inv
  calls : ∀ t, (w.call t).At finish_ (w.latch.phase t)
  zero : w.latch.counter = 0 → ∀ t, (w.call t).sawZero
  positive : w.latch.counter ≠ 0 → ∀ t, (w.call t).sawPositive

theorem observe_of_ne {latch : Latch} {u : ThreadId} (hu : u ≠ e.thread) : w.observe e latch u = w.call u := if_neg hu

theorem Inv.call {t : ThreadId} (hi : w.Inv finish_) (op : Op) (u : ThreadId) :
    ((w.observe (.call t op) (w.latch.setPhase t (Phase.enter op)) u).see w.latch.counter).At finish_
      ((w.latch.setPhase t (Phase.enter op)).phase u) := by
  by_cases hu : u = t
  · subst hu
    simp only [observe, Event.thread, if_true, setPhase, Function.update_self]
    exact (Call.At.enter op).see _
  · rw [observe_of_ne hu]
    simp only [setPhase, Function.update_of_ne hu]
    exact (hi.calls u).see _

theorem Inv.take {t : ThreadId} {choice : Choice} {p : Phase} {eff : Effect} {latch : Latch} (hi : w.Inv finish_)
    (hm : Move finish_ w.latch.counter (w.latch.phase t) p eff)
    (hw : w.latch.phase t = .raising → w.latch.counter + 1 ≠ 0) (ha : w.latch.apply t p eff = some latch)
    (u : ThreadId) : ((w.observe (.take t choice) latch u).see latch.counter).At finish_ (latch.phase u) := by
  by_cases hu : u = t
  · subst hu
    simp only [observe, Event.thread, if_true, phase_apply_self ha, counter_apply ha]
    exact (hm.at hw (fun hz => hi.zero hz u) (fun hp => hi.positive hp u) (hi.calls u)).see _
  · rw [observe_of_ne hu]
    obtain hp | hp := phase_apply_of_ne ha hu
    · rw [hp]
      exact (hi.calls u).see _
    · rw [hp]
      exact (hi.calls u).notified.see _

theorem Inv.step (hi : w.Inv finish_) (hw : w.NoWrap e) (h : w.step finish_ e = some w') : w'.Inv finish_ := by
  obtain ⟨latch, hs, rfl⟩ := Option.map_eq_some_iff.mp h
  refine ⟨hi.latch.step hw hs, ?_, ?_, ?_⟩
  · cases e with
    | call t op =>
      simp only [Latch.step] at hs
      split_ifs at hs
      cases hs
      exact hi.call op
    | take t choice =>
      obtain ⟨⟨p, eff⟩, hn, ha⟩ := Option.bind_eq_some_iff.mp hs
      exact hi.take (Move.of_next hn) hw ha
  · intro hz t
    simp only at hz
    simp [Call.see, hz]
  · intro hp t
    simp only at hp
    simp [Call.see, hp]

theorem Inv.set (expected : UInt64) : (Watched.set expected).Inv finish_ :=
  ⟨Latch.Inv.set expected, fun _ => trivial,
    fun hz _ => by simp [Watched.set, Call.see, show expected = 0 from hz],
    fun hp _ => by simp [Watched.set, Call.see, show expected ≠ 0 from hp]⟩

theorem Inv.sound (hi : w.Inv finish_) : w.Sound finish_ where
  calls t ht := (hi.calls t).right ht
  awake hz t ht := hi.latch.awake hz t (by
    cases hp : w.latch.phase t <;> simp_all [Phase.isAsleep, Phase.drowsy])

theorem sound_of_noWrap {expected : UInt64}
    (h : Reach (step finish_) NoWrap (Watched.set expected) w) : w.Sound finish_ :=
  (h.invariant (Inv finish_) (Inv.set expected) fun _ _ _ hi hw hs => hi.step hw hs).sound

/-- A waiter falls asleep, the last `Done` runs its epilog and wakes it. -/
def woken : List Event :=
  [.call 0 .wait, .take 0 .turn, .take 0 .turn, .take 0 .turn, .take 0 .turn,
    .call 1 (.done (some 7)), .take 1 .turn, .take 1 .weakFail, .take 1 .turn, .take 1 .turn, .take 1 .turn,
    .take 1 .turn, .take 1 .turn, .take 1 .turn,
    .take 0 .turn, .take 0 .turn, .take 0 .turn]

/-- `Up` takes the counter from its largest value to zero, behind a waiter that sleeps. -/
def wrapped : List Event :=
  [.call 0 .wait, .take 0 .turn, .take 0 .turn, .take 0 .turn, .take 0 .turn, .call 1 .up, .take 1 .turn]

theorem sound_woken : ∃ w : Watched, w.latch.phase 0 = .returned true ∧ (w.call 1).epilogs = [7] ∧ w.Sound none := by
  have hr : ∃ w, run (checked (fun w e => decide (NoWrap w e)) (step none)) (Watched.set 1) woken = some w ∧
      w.latch.phase 0 = .returned true ∧ (w.call 1).epilogs = [7] := ⟨_, rfl, rfl, rfl⟩
  obtain ⟨w, hr, hp, he⟩ := hr
  exact ⟨w, hp, he, sound_of_noWrap (Reach.start.checked (fun _ _ h => of_decide_eq_true h) hr)⟩

theorem not_sound_wrapped : ¬ ∀ (finish_ : Option Epilog) (expected : UInt64) (w : Watched),
    Reach (step finish_) (fun _ _ => True) (Watched.set expected) w → w.Sound finish_ := by
  intro h
  have hr : ∃ w, run (step none) (Watched.set 18446744073709551615) wrapped = some w ∧ w.latch.counter = 0 ∧
      w.latch.phase 0 = .asleep false ∧ w.latch.phase 1 = .returned true ∧ ∀ d, w.latch.phase (d + 2) = .outside :=
    ⟨_, rfl, rfl, rfl, rfl, fun _ => rfl⟩
  obtain ⟨w, hr, hz, h0, h1, h2⟩ := hr
  obtain ⟨d, hd⟩ := (h none _ w (Reach.start.run (fun _ _ _ => trivial) hr)).awake hz 0 (by rw [h0]; rfl)
  cases d with
  | zero => rw [h0] at hd; cases hd
  | succ d =>
    cases d with
    | zero => rw [h1] at hd; cases hd
    | succ d => rw [h2] at hd; cases hd

end Watched

end Latch

end UnifiedCache.Infra
