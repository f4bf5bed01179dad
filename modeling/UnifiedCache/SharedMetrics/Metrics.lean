import UnifiedCache.Lib.StepSystem

/-! The metrics that writer threads update and one collector takes. Each thread has
a double buffer; a writer chooses the half before it locks it, the collector switches the
halves before it locks the one that was written. All threads are registered and the types
of the stats are fixed. -/

namespace UnifiedCache.SharedMetrics

inductive MetricType where
  | counter
  | gauge
  | histogram
  deriving DecidableEq

/-- `add` is the addition of `double`, which need not be associative. -/
structure Config (Thread Name V : Type) where
  statsType : Name → Option MetricType
  maxVectorLen : Nat
  buffers : List Thread
  add : V → V → V
  zero : V

/-- A stored update, named by its place among all of them. -/
structure Entry (Name V : Type) where
  seq : Nat
  name : Name
  value : V

/-- `log` notes the updates stored since the last `Clear`. -/
structure InnerBuffer (Name V : Type) where
  counterStats : Name → Option V
  gaugeStats : Name → Option V
  histogramStats : Name → Option (List V)
  log : List (Entry Name V)

structure MetricBuffer (Name V : Type) where
  innerBufs : Bool → InnerBuffer Name V
  writeIdx : Bool

/-- The three maps of `GetAllStatsAndClear`; `parts` notes what was read from each buffer. -/
structure Totals (Name V : Type) where
  counter : Name → Option V
  gauge : Name → Option V
  histogram : Name → Option (List V)
  parts : List (List (Entry Name V))

/-- Where a thread is in `UpdateStats`. -/
inductive Writer (Name V : Type) where
  | idle
  | loaded (type : MetricType) (name : Name) (value : V) (idx : Bool)
  | locked (type : MetricType) (name : Name) (value : V) (idx : Bool)
  | updated (idx : Bool)

/-- The half whose shared lock the thread has. -/
def Writer.held {Name V : Type} : Writer Name V → Option Bool
  | idle => none
  | loaded _ _ _ _ => none
  | locked _ _ _ idx => some idx
  | updated idx => some idx

/-- Where the collector is with the first of the buffers that are left. -/
inductive Stage where
  | start
  | loaded (idx : Bool)
  | switched (old : Bool)
  | locked (old : Bool)
  | read (old : Bool)
  | cleared (old : Bool)
  deriving DecidableEq

/-- The half whose lock the collector has. -/
def Stage.held : Stage → Option Bool
  | start => none
  | loaded _ => none
  | switched _ => none
  | locked old => some old
  | read old => some old
  | cleared old => some old

inductive Collector (Thread Name V : Type) where
  | idle
  | collecting (rest : List Thread) (stage : Stage) (total : Totals Name V)

structure Metrics (Thread Name V : Type) where
  bufs : Thread → MetricBuffer Name V
  writers : Thread → Writer Name V
  collector : Collector Thread Name V
  results : List (Totals Name V)
  stored : List (Thread × Name × V)

inductive Event (Thread Name V : Type) where
  | load (t : Thread) (name : Name) (value : V)
  | lock (t : Thread)
  | update (t : Thread)
  | unlock (t : Thread)
  | collect
  | loadIdx
  | exchange
  | lockBuffer
  | read
  | clear
  | unlockBuffer
  | finish

variable {Thread Name V : Type} [DecidableEq Thread] [DecidableEq Name] (config : Config Thread Name V)

def InnerBuffer.empty : InnerBuffer Name V := ⟨fun _ => none, fun _ => none, fun _ => none, []⟩

def Totals.empty : Totals Name V := ⟨fun _ => none, fun _ => none, fun _ => none, []⟩

/-- The buffer after an update, and whether the value was stored. -/
def InnerBuffer.update (buf : InnerBuffer Name V) (seq : Nat) (type : MetricType) (name : Name) (value : V) :
    InnerBuffer Name V × Bool :=
  match type with
  | .counter =>
    ({ buf with
        counterStats := Function.update buf.counterStats name
          (some (config.add ((buf.counterStats name).getD config.zero) value))
        log := buf.log ++ [⟨seq, name, value⟩] }, true)
  | .gauge =>
    ({ buf with
        gaugeStats := Function.update buf.gaugeStats name (some value)
        log := buf.log ++ [⟨seq, name, value⟩] }, true)
  | .histogram =>
    let values := (buf.histogramStats name).getD []
    if values.length < config.maxVectorLen then
      ({ buf with
          histogramStats := Function.update buf.histogramStats name (some (values ++ [value]))
          log := buf.log ++ [⟨seq, name, value⟩] }, true)
    else ({ buf with histogramStats := Function.update buf.histogramStats name (some values) }, false)

def Totals.read (total : Totals Name V) (buf : InnerBuffer Name V) : Totals Name V where
  counter := fun name => match buf.counterStats name with
    | none => total.counter name
    | some value => some (config.add ((total.counter name).getD config.zero) value)
  gauge := fun name => match buf.gaugeStats name with
    | none => total.gauge name
    | some value => some value
  histogram := fun name => match buf.histogramStats name with
    | none => total.histogram name
    | some values => some ((total.histogram name).getD [] ++ values)
  parts := total.parts ++ [buf.log]

namespace Metrics

def start : Metrics Thread Name V where
  bufs := fun _ => ⟨fun _ => InnerBuffer.empty, false⟩
  writers := fun _ => .idle
  collector := .idle
  results := []
  stored := []

def half (s : Metrics Thread Name V) (t : Thread) (i : Bool) : InnerBuffer Name V := (s.bufs t).innerBufs i

/-- The buffer that the collector is at. -/
def place (s : Metrics Thread Name V) : Option (Thread × Stage) :=
  match s.collector with
  | .collecting (t :: _) stage _ => some (t, stage)
  | _ => none

/-- The writer has the shared lock of a half. -/
def Shared (s : Metrics Thread Name V) (t : Thread) (i : Bool) : Prop := (s.writers t).held = some i

/-- The collector has the lock of a half. -/
def Unique (s : Metrics Thread Name V) (t : Thread) (i : Bool) : Prop :=
  ∃ stage, s.place = some (t, stage) ∧ stage.held = some i

instance (s : Metrics Thread Name V) (t : Thread) (i : Bool) : Decidable (s.Shared t i) :=
  inferInstanceAs (Decidable ((s.writers t).held = some i))

instance (s : Metrics Thread Name V) (t : Thread) (i : Bool) : Decidable (s.Unique t i) :=
  decidable_of_iff (s.place.any fun p => p.1 = t ∧ p.2.held = some i) (by
    simp only [Unique, Option.any_eq_true, decide_eq_true_iff, Prod.exists]
    constructor
    · rintro ⟨t', stage, hp, rfl, hh⟩
      exact ⟨stage, hp, hh⟩
    · rintro ⟨stage, hp, hh⟩
      exact ⟨t, stage, hp, rfl, hh⟩)

def setWriter (s : Metrics Thread Name V) (t : Thread) (w : Writer Name V) : Metrics Thread Name V :=
  { s with writers := Function.update s.writers t w }

def setHalf (s : Metrics Thread Name V) (t : Thread) (i : Bool) (buf : InnerBuffer Name V) :
    Metrics Thread Name V :=
  let innerBufs := Function.update (s.bufs t).innerBufs i buf
  { s with bufs := Function.update s.bufs t ⟨innerBufs, (s.bufs t).writeIdx⟩ }

def setWriteIdx (s : Metrics Thread Name V) (t : Thread) (i : Bool) : Metrics Thread Name V :=
  { s with bufs := Function.update s.bufs t { s.bufs t with writeIdx := i } }

def setCollector (s : Metrics Thread Name V) (c : Collector Thread Name V) : Metrics Thread Name V :=
  { s with collector := c }

/-- `UpdateStats` up to the choice of the half. -/
def load (s : Metrics Thread Name V) (t : Thread) (name : Name) (value : V) : Option (Metrics Thread Name V) :=
  match s.writers t with
  | .idle =>
    if t ∈ config.buffers then
      match config.statsType name with
      | none => some s
      | some type => some (s.setWriter t (.loaded type name value (s.bufs t).writeIdx))
    else none
  | _ => none

def lock (s : Metrics Thread Name V) (t : Thread) : Option (Metrics Thread Name V) :=
  match s.writers t with
  | .loaded type name value idx =>
    if s.Unique t idx then none else some (s.setWriter t (.locked type name value idx))
  | _ => none

def update (s : Metrics Thread Name V) (t : Thread) : Option (Metrics Thread Name V) :=
  match s.writers t with
  | .locked type name value idx =>
    let (buf, stored) := (s.half t idx).update config s.stored.length type name value
    let s' := (s.setHalf t idx buf).setWriter t (.updated idx)
    some { s' with stored := if stored then s.stored ++ [(t, name, value)] else s.stored }
  | _ => none

def unlock (s : Metrics Thread Name V) (t : Thread) : Option (Metrics Thread Name V) :=
  match s.writers t with
  | .updated _ => some (s.setWriter t .idle)
  | _ => none

/-- `GetAllStatsAndClear`; `SwitchBuffer` is `loadIdx` and `exchange`. -/
def step (s : Metrics Thread Name V) : Event Thread Name V → Option (Metrics Thread Name V)
  | .load t name value => s.load config t name value
  | .lock t => s.lock t
  | .update t => s.update config t
  | .unlock t => s.unlock t
  | .collect =>
    match s.collector with
    | .idle => some (s.setCollector (.collecting config.buffers .start Totals.empty))
    | _ => none
  | .loadIdx =>
    match s.collector with
    | .collecting (t :: rest) .start total =>
      some (s.setCollector (.collecting (t :: rest) (.loaded (s.bufs t).writeIdx) total))
    | _ => none
  | .exchange =>
    match s.collector with
    | .collecting (t :: rest) (.loaded idx) total =>
      some ((s.setWriteIdx t !idx).setCollector
        (.collecting (t :: rest) (.switched (s.bufs t).writeIdx) total))
    | _ => none
  | .lockBuffer =>
    match s.collector with
    | .collecting (t :: rest) (.switched old) total =>
      if s.Shared t old then none else some (s.setCollector (.collecting (t :: rest) (.locked old) total))
    | _ => none
  | .read =>
    match s.collector with
    | .collecting (t :: rest) (.locked old) total =>
      some (s.setCollector (.collecting (t :: rest) (.read old) (total.read config (s.half t old))))
    | _ => none
  | .clear =>
    match s.collector with
    | .collecting (t :: rest) (.read old) total =>
      some ((s.setHalf t old InnerBuffer.empty).setCollector (.collecting (t :: rest) (.cleared old) total))
    | _ => none
  | .unlockBuffer =>
    match s.collector with
    | .collecting (_ :: rest) (.cleared _) total => some (s.setCollector (.collecting rest .start total))
    | _ => none
  | .finish =>
    match s.collector with
    | .collecting [] _ total => some { s.setCollector .idle with results := s.results ++ [total] }
    | _ => none

end Metrics

end UnifiedCache.SharedMetrics
