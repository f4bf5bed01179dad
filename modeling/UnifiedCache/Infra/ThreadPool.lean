import UnifiedCache.Lib.StepSystem

/-! The thread pool, with its workers and the monitor that takes overdue workers out of it and
makes up for them. A task is named by its place among all that were pushed. The pool is running
and is not destroyed. -/

namespace UnifiedCache.Infra.ThreadPool

structure Config where
  nWorker : Nat
  timeoutMs : Nat

/-- Where a worker is in `WorkerLoop`. -/
inductive Phase where
  | waiting
  | took (task : Nat)
  | assigned (task : Nat)
  | clocked (task now : Nat)
  | stamped (task : Nat)
  | calling (task : Nat)
  | returned (task : Nat)
  | goesOn (task : Nat)
  | unassigned (task : Nat)
  | exited
  deriving DecidableEq

/-- The task that was taken and not yet handed to `fn_`. -/
def Phase.hand : Phase → Option Nat
  | took task => some task
  | assigned task => some task
  | clocked task _ => some task
  | stamped task => some task
  | _ => none

/-- The start time is `none` where it is `time_point{}`; `taken` notes the tasks that the worker took. -/
structure Worker where
  phase : Phase
  stop : Bool
  current : Option Nat
  tp : Option Nat
  taken : List Nat
  deriving DecidableEq

def Worker.fresh : Worker := ⟨.waiting, false, none, none, []⟩

/-- `current.lock()`. The task is gone once the worker has left its loop. -/
def Worker.lock (worker : Worker) : Option Nat := if worker.phase = .exited then none else worker.current

/-- Where `Monitor` is with a worker. -/
inductive Stage where
  | start
  | loaded (tp : Option Nat)
  | locked (tp task : Option Nat)
  | overdue (task : Nat)
  | blamed (task : Nat)
  | stopped
  deriving DecidableEq

/-- `complete` says that the round before created all the workers it had to, `failed` that one of this
round was not created. `new` runs already and is not yet listed. -/
inductive Monitor where
  | sleeping (complete : Bool)
  | scanning (it : Nat) (stage : Stage)
  | adding (i : Nat) (failed : Bool) (new : Option Nat)
  deriving DecidableEq

/-- A call of `timeoutFn_`: when it was, when the task's own call of `fn_` had started, and whether
that had returned. -/
structure Blame where
  task : Nat
  time : Nat
  started : Option Nat
  returned : Bool
  deriving DecidableEq

/-- `handed`, `started` and `returned` note the calls of `fn_`, `blamed` those of `timeoutFn_`. -/
structure Pool where
  clock : Nat
  taskQ : List Nat
  pushed : Nat
  worker : Nat → Worker
  created : Nat
  workers : List Nat
  monitor : Monitor
  handed : List Nat
  started : Nat → Option Nat
  returned : List Nat
  blamed : List Blame

inductive Event where
  | push (n : Nat)
  | tick
  | work (w : Nat)
  | monitor
  | create (success : Bool)
  deriving DecidableEq

namespace Pool

/-- After `Run`. -/
def start (config : Config) : Pool where
  -- No reading of the clock is `time_point{}`.
  clock := 1
  taskQ := []
  pushed := 0
  worker := fun _ => Worker.fresh
  created := config.nWorker
  workers := List.range config.nWorker
  monitor := .sleeping true
  handed := []
  started := fun _ => none
  returned := []
  blamed := []

variable (config : Config) (s : Pool)

def setWorker (w : Nat) (worker : Worker) : Pool := { s with worker := Function.update s.worker w worker }

def setMonitor (monitor : Monitor) : Pool := { s with monitor := monitor }

/-- A worker waits for the queue to have a task, which it takes in the same critical section. -/
def take (w : Nat) : Option Pool :=
  if (s.worker w).stop then some (s.setWorker w { s.worker w with phase := .exited })
  else
    match s.taskQ with
    | [] => none
    | task :: taskQ =>
      some { s.setWorker w { s.worker w with phase := .took task, taken := (s.worker w).taken ++ [task] } with
        taskQ := taskQ }

/-- The next step of a worker in `WorkerLoop`. -/
def work (w : Nat) : Option Pool :=
  let worker := s.worker w
  match worker.phase with
  | .waiting => s.take w
  | .took task => some (s.setWorker w { worker with phase := .assigned task, current := some task })
  | .assigned task => some (s.setWorker w { worker with phase := .clocked task s.clock })
  | .clocked task now => some (s.setWorker w { worker with phase := .stamped task, tp := some now })
  | .stamped task =>
    some { s.setWorker w { worker with phase := .calling task } with
      handed := s.handed ++ [task]
      started := Function.update s.started task (some s.clock) }
  | .calling task =>
    some { s.setWorker w { worker with phase := .returned task } with returned := s.returned ++ [task] }
  | .returned task =>
    some (s.setWorker w { worker with phase := if worker.stop then .exited else .goesOn task })
  | .goesOn task => some (s.setWorker w { worker with phase := .unassigned task, current := none })
  | .unassigned _ => some (s.setWorker w { worker with phase := .waiting, tp := none })
  | .exited => none

/-- `now - tp > timeout`. -/
def Overdue (tp now : Nat) : Prop := tp + config.timeoutMs < now

instance (tp now : Nat) : Decidable (Overdue config tp now) := inferInstanceAs (Decidable (_ < _))

/-- The next step of `Monitor` at the worker `w`, which is at the place `it`. -/
def scan (it w : Nat) : Stage → Pool
  | .start => s.setMonitor (.scanning it (.loaded (s.worker w).tp))
  | .loaded tp => s.setMonitor (.scanning it (.locked tp (s.worker w).lock))
  | .locked (some tp) (some task) =>
    if Overdue config tp s.clock then s.setMonitor (.scanning it (.overdue task))
    else s.setMonitor (.scanning (it + 1) .start)
  | .locked _ _ => s.setMonitor (.scanning (it + 1) .start)
  | .overdue task =>
    { s.setMonitor (.scanning it (.blamed task)) with
      blamed := s.blamed ++ [⟨task, s.clock, s.started task, decide (task ∈ s.returned)⟩] }
  | .blamed _ => (s.setWorker w { s.worker w with stop := true }).setMonitor (.scanning it .stopped)
  | .stopped => { s.setMonitor (.scanning it .start) with workers := s.workers.eraseIdx it }

/-- The next step of the monitor, other than the creation of a worker. -/
def monitorNext : Option Pool :=
  match s.monitor with
  | .sleeping _ => some (s.setMonitor (.scanning 0 .start))
  | .scanning it stage =>
    match s.workers[it]? with
    | some w => some (s.scan config it w stage)
    | none => some (s.setMonitor (.adding s.workers.length false none))
  | .adding i failed none => if i < config.nWorker then none else some (s.setMonitor (.sleeping !failed))
  | .adding i failed (some w) =>
    some { s.setMonitor (.adding (i + 1) failed none) with workers := s.workers ++ [w] }

/-- `AddOneWorker` up to the end of the new worker's initialisation. -/
def create (success : Bool) : Option Pool :=
  match s.monitor with
  | .adding i failed none =>
    if i < config.nWorker then
      if success then
        some { s.setWorker s.created Worker.fresh with
          created := s.created + 1
          monitor := .adding i failed (some s.created) }
      else some (s.setMonitor (.adding (i + 1) true none))
    else none
  | _ => none

def step : Event → Option Pool
  | .push n => some { s with taskQ := s.taskQ ++ List.range' s.pushed n, pushed := s.pushed + n }
  | .tick => some { s with clock := s.clock + 1 }
  | .work w => if w < s.created then s.work w else none
  | .monitor => s.monitorNext config
  | .create success => s.create config success

end Pool

end UnifiedCache.Infra.ThreadPool
