import UnifiedCache.Lib.StepSystem
import UnifiedCache.Types

/-! The lookup service of the posix store: its callers, the workers of its thread pool and the
monitor of the pool. Each use of a status word, of a latch, of the queue or of the file system is
one step. -/

namespace UnifiedCache.PosixStore.SpaceManager

/-- `PosixFile::Access` of the data file of a block. -/
inductive Access where
  | ok
  | notFound
  | osApiError
  deriving DecidableEq

/-- `Lookup` of one block. -/
def lookup (s : Access) : UInt8 := if s = .ok then 1 else 0

inductive Status where
  | ok
  | timeout
  deriving DecidableEq

/-- `call` stands for the result vector, the status word and the latch that the contexts of a call
of `Lookup` share. -/
structure LookupContext where
  block : BlockId
  index : Nat
  call : Nat
  deriving DecidableEq

/-- Where a worker of the pool is in `OnLookup`. -/
inductive Job where
  | idle
  | checkingStatus (ctx : LookupContext)
  | accessing (ctx : LookupContext)
  | storing (ctx : LookupContext) (found : UInt8)
  | finishing (ctx : LookupContext)
  | returning (ctx : LookupContext)
  deriving DecidableEq

/-- Where the monitor is, in `OnLookupTimeout` or before it stops the worker. -/
inductive Monitor where
  | idle
  | exchanging (ctx : LookupContext)
  | finishing (ctx : LookupContext)
  | stopping
  deriving DecidableEq

inductive Caller where
  | idle
  | pushing (i : Nat)
  | waiting
  | reading
  | moving
  | returned (founds : Option (List UInt8))
  deriving DecidableEq

structure Config where
  lookupConcurrency : Nat

inductive Event where
  | lookup (call : Nat) (blocks : List BlockId)
  | caller (call : Nat)
  | pop (w : Nat)
  | worker (w : Nat) (access : Access)
  | timeout (w : Nat)
  | monitor (spurious : Bool)

end SpaceManager

open SpaceManager

/-- `watched` is the worker that the monitor is at, `stopped` has those that it has told to stop.
`checked`, `finished` and `early`, the results of the checks, the contexts that a worker is done
with and the calls with a context that was timed out before its check, are no part of the code. -/
structure SpaceManager where
  queue : List LookupContext
  jobs : Nat → Job
  monitor : Monitor
  watched : Nat
  stopped : List Nat
  callers : Nat → Caller
  blocks : Nat → List BlockId
  founds : Nat → List UInt8
  statuses : Nat → Status
  counters : Nat → Nat
  checked : LookupContext → Option Access
  finished : List LookupContext
  early : Nat → Bool

namespace SpaceManager

variable (config : Config) (s : SpaceManager)

def setup : SpaceManager where
  queue := []
  jobs := fun _ => .idle
  monitor := .idle
  watched := 0
  stopped := []
  callers := fun _ => .idle
  blocks := fun _ => []
  founds := fun _ => []
  statuses := fun _ => .ok
  counters := fun _ => 0
  checked := fun _ => none
  finished := []
  early := fun _ => false

def setJob (w : Nat) (job : Job) : SpaceManager := { s with jobs := Function.update s.jobs w job }

def setCaller (call : Nat) (caller : Caller) : SpaceManager :=
  { s with callers := Function.update s.callers call caller }

/-- `Latch::Done`, which leaves a counter of zero. -/
def done (call : Nat) : SpaceManager :=
  { s with counters := Function.update s.counters call (s.counters call - 1) }

/-- `Lookup` of many blocks. -/
def callerNext (call : Nat) : Caller → Option SpaceManager
  | .pushing i =>
    match (s.blocks call)[i]? with
    | some block => some ({ s with queue := s.queue ++ [LookupContext.mk block i call] }.setCaller call (.pushing (i + 1)))
    | none => some (s.setCaller call .waiting)
  | .waiting => if s.counters call = 0 then some (s.setCaller call .reading) else none
  | .reading => some (s.setCaller call (if s.statuses call = .ok then .moving else .returned none))
  | .moving => some (s.setCaller call (.returned (some (s.founds call))))
  | _ => none

/-- `OnLookup`. -/
def workerNext (w : Nat) (access : Access) : Job → Option SpaceManager
  | .checkingStatus ctx =>
    some (s.setJob w (if s.statuses ctx.call = .ok then .accessing ctx else .finishing ctx))
  | .accessing ctx =>
    some ({ s with checked := Function.update s.checked ctx (some access) }.setJob w
      (.storing ctx (lookup access)))
  | .storing ctx found =>
    some ({ s with
      founds := Function.update s.founds ctx.call ((s.founds ctx.call).set ctx.index found) }.setJob w
        (.finishing ctx))
  | .finishing ctx =>
    some ({ s.done ctx.call with finished := ctx :: s.finished }.setJob w (.returning ctx))
  | .returning _ => some (s.setJob w .idle)
  | .idle => none

/-- `compare_exchange_weak`, which may fail for no reason. -/
def exchange (spurious : Bool) : Status → Status
  | .ok => if spurious then .ok else .timeout
  | .timeout => .timeout

/-- `OnLookupTimeout`, and the end of the worker after it. -/
def monitorNext (spurious : Bool) : Monitor → Option SpaceManager
  | .idle => none
  | .exchanging ctx => some { s with
      statuses := Function.update s.statuses ctx.call (exchange spurious (s.statuses ctx.call))
      early := Function.update s.early ctx.call (s.early ctx.call || (s.checked ctx).isNone)
      monitor := .finishing ctx }
  | .finishing ctx => some { s.done ctx.call with monitor := .stopping }
  | .stopping => some { s with stopped := s.watched :: s.stopped, monitor := .idle }

def Job.context : Job → Option LookupContext
  | .idle => none
  | .checkingStatus ctx => some ctx
  | .accessing ctx => some ctx
  | .storing ctx _ => some ctx
  | .finishing ctx => some ctx
  | .returning ctx => some ctx

/-- A stopped worker is replaced by a new one. -/
def step (s : SpaceManager) : Event → Option SpaceManager
  | .lookup call blocks =>
    match s.callers call with
    | .idle => some ({ s with
        blocks := Function.update s.blocks call blocks
        founds := Function.update s.founds call (List.replicate blocks.length 0)
        statuses := Function.update s.statuses call .ok
        counters := Function.update s.counters call blocks.length }.setCaller call (.pushing 0))
    | _ => none
  | .caller call => s.callerNext call (s.callers call)
  | .pop w =>
    match s.jobs w, s.queue with
    | .idle, ctx :: queue =>
      if w < config.lookupConcurrency + s.stopped.length ∧ w ∉ s.stopped then
        some ({ s with queue := queue }.setJob w (.checkingStatus ctx))
      else none
    | _, _ => none
  | .worker w access => s.workerNext w access (s.jobs w)
  | .timeout w =>
    match s.monitor, (s.jobs w).context with
    | .idle, some ctx =>
      if w ∈ s.stopped then none else some { s with watched := w, monitor := .exchanging ctx }
    | _, _ => none
  | .monitor spurious => s.monitorNext spurious s.monitor

end SpaceManager

end UnifiedCache.PosixStore
