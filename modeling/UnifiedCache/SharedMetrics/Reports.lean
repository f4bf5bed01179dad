import UnifiedCache.SharedMetrics.Conservation

/-! What the maps of a half and of the totals show of the updates behind them: counters
the sum in the order of the updates, gauges the last value, histograms all values. -/

set_option linter.unusedSectionVars false

namespace UnifiedCache.SharedMetrics

open StepSystem

variable {Thread Name V : Type} [DecidableEq Thread] [DecidableEq Name] {config : Config Thread Name V}

/-- The updates of one name. -/
def updatesOf (log : List (Entry Name V)) (name : Name) : List (Entry Name V) :=
  log.filter fun e => e.name = name

/-- `+=` on an entry of a map of sums, which starts at zero. -/
def addTo (config : Config Thread Name V) (sum : Option V) (value : V) : Option V :=
  some (config.add (sum.getD config.zero) value)

def sumOf (config : Config Thread Name V) (log : List (Entry Name V)) (name : Name) : Option V :=
  (updatesOf log name).foldl (fun sum e => addTo config sum e.value) none

def lastOf (log : List (Entry Name V)) (name : Name) : Option (Entry Name V) := (updatesOf log name).getLast?

theorem updatesOf_append (log log' : List (Entry Name V)) (name : Name) :
    updatesOf (log ++ log') name = updatesOf log name ++ updatesOf log' name := List.filter_append _ _

theorem updatesOf_singleton (e : Entry Name V) (name : Name) :
    updatesOf [e] name = if e.name = name then [e] else [] := by
  rw [updatesOf, List.filter_singleton]
  simp

theorem sumOf_append_singleton (log : List (Entry Name V)) (e : Entry Name V) (name : Name) :
    sumOf config (log ++ [e]) name =
      if e.name = name then addTo config (sumOf config log name) e.value else sumOf config log name := by
  rw [sumOf, updatesOf_append, updatesOf_singleton]
  split_ifs
  · rw [List.foldl_append]
    rfl
  · rw [List.append_nil]
    rfl

theorem lastOf_append_singleton (log : List (Entry Name V)) (e : Entry Name V) (name : Name) :
    lastOf (log ++ [e]) name = if e.name = name then some e else lastOf log name := by
  rw [lastOf, updatesOf_append, updatesOf_singleton]
  split_ifs
  · rw [List.getLast?_append]
    rfl
  · rw [List.append_nil]
    rfl

theorem mem_of_lastOf {log : List (Entry Name V)} {name : Name} {e : Entry Name V}
    (h : lastOf log name = some e) : e ∈ log ∧ e.name = name := by
  have hm := List.mem_filter.mp (List.mem_of_getLast? h)
  exact ⟨hm.1, of_decide_eq_true hm.2⟩

/-- The maps of a half show its updates. -/
structure InnerBuffer.Shows (config : Config Thread Name V) (buf : InnerBuffer Name V) : Prop where
  counter : ∀ name, config.statsType name = some .counter → buf.counterStats name = sumOf config buf.log name
  gauge : ∀ name, config.statsType name = some .gauge →
    buf.gaugeStats name = (lastOf buf.log name).map Entry.value
  histogram : ∀ name, config.statsType name = some .histogram →
    (buf.histogramStats name).getD [] = (updatesOf buf.log name).map Entry.value

/-- The maps of the totals show what was read from each buffer. -/
structure Totals.Shows (config : Config Thread Name V) (total : Totals Name V) : Prop where
  counter : ∀ name, config.statsType name = some .counter → total.counter name =
    (total.parts.filterMap fun part => sumOf config part name).foldl (addTo config) none
  gauge : ∀ name, config.statsType name = some .gauge →
    total.gauge name = (total.parts.filterMap fun part => lastOf part name).getLast?.map Entry.value
  histogram : ∀ name, config.statsType name = some .histogram →
    (total.histogram name).getD [] = (updatesOf total.parts.flatten name).map Entry.value

theorem InnerBuffer.shows_empty : InnerBuffer.Shows config InnerBuffer.empty :=
  ⟨fun _ _ => rfl, fun _ _ => rfl, fun _ _ => rfl⟩

theorem Totals.shows_empty : Totals.Shows config Totals.empty :=
  ⟨fun _ _ => rfl, fun _ _ => rfl, fun _ _ => rfl⟩

theorem InnerBuffer.Shows.update {buf : InnerBuffer Name V} (h : buf.Shows config) {type : MetricType}
    {name : Name} (htype : config.statsType name = some type) (seq : Nat) (value : V) :
    (buf.update config seq type name value).1.Shows config := by
  -- A name of another type is another name.
  have ne_of_type : ∀ {name' type'}, config.statsType name' = some type' → type' ≠ type → name ≠ name' := by
    rintro name' type' ht hne rfl
    exact hne (Option.some.inj (ht.symm.trans htype))
  cases type with
  | counter =>
    refine ⟨fun name' ht => ?_, fun name' ht => ?_, fun name' ht => ?_⟩
    · change Function.update buf.counterStats name _ name' = sumOf config (buf.log ++ [_]) name'
      rw [sumOf_append_singleton]
      by_cases hn : name = name'
      · rw [← hn, Function.update_self, if_pos rfl, ← h.counter name htype]
        rfl
      · rw [Function.update_of_ne (Ne.symm hn), if_neg hn]
        exact h.counter name' ht
    · change buf.gaugeStats name' = (lastOf (buf.log ++ [_]) name').map _
      rw [lastOf_append_singleton, if_neg (ne_of_type ht (by decide))]
      exact h.gauge name' ht
    · change (buf.histogramStats name').getD [] = (updatesOf (buf.log ++ [_]) name').map _
      rw [updatesOf_append, updatesOf_singleton, if_neg (ne_of_type ht (by decide)), List.append_nil]
      exact h.histogram name' ht
  | gauge =>
    refine ⟨fun name' ht => ?_, fun name' ht => ?_, fun name' ht => ?_⟩
    · change buf.counterStats name' = sumOf config (buf.log ++ [_]) name'
      rw [sumOf_append_singleton, if_neg (ne_of_type ht (by decide))]
      exact h.counter name' ht
    · change Function.update buf.gaugeStats name _ name' = (lastOf (buf.log ++ [_]) name').map _
      rw [lastOf_append_singleton]
      by_cases hn : name = name'
      · rw [← hn, Function.update_self, if_pos rfl]
        rfl
      · rw [Function.update_of_ne (Ne.symm hn), if_neg hn]
        exact h.gauge name' ht
    · change (buf.histogramStats name').getD [] = (updatesOf (buf.log ++ [_]) name').map _
      rw [updatesOf_append, updatesOf_singleton, if_neg (ne_of_type ht (by decide)), List.append_nil]
      exact h.histogram name' ht
  | histogram =>
    simp only [InnerBuffer.update]
    by_cases hlen : ((buf.histogramStats name).getD []).length < config.maxVectorLen
    · rw [if_pos hlen]
      refine ⟨fun name' ht => ?_, fun name' ht => ?_, fun name' ht => ?_⟩
      · change buf.counterStats name' = sumOf config (buf.log ++ [_]) name'
        rw [sumOf_append_singleton, if_neg (ne_of_type ht (by decide))]
        exact h.counter name' ht
      · change buf.gaugeStats name' = (lastOf (buf.log ++ [_]) name').map _
        rw [lastOf_append_singleton, if_neg (ne_of_type ht (by decide))]
        exact h.gauge name' ht
      · change (Function.update buf.histogramStats name _ name').getD [] = (updatesOf (buf.log ++ [_]) name').map _
        rw [updatesOf_append, updatesOf_singleton, List.map_append]
        by_cases hn : name = name'
        · rw [← hn, Function.update_self, if_pos rfl, ← h.histogram name htype]
          rfl
        · rw [Function.update_of_ne (Ne.symm hn), if_neg hn, List.map_nil, List.append_nil]
          exact h.histogram name' ht
    · rw [if_neg hlen]
      refine ⟨h.counter, h.gauge, fun name' ht => ?_⟩
      change (Function.update buf.histogramStats name _ name').getD [] = _
      by_cases hn : name' = name
      · rw [hn, Function.update_self]
        exact h.histogram name htype
      · rw [Function.update_of_ne hn]
        exact h.histogram name' ht

theorem Totals.Shows.read {total : Totals Name V} (h : total.Shows config) {buf : InnerBuffer Name V}
    (hb : buf.Shows config) : (total.read config buf).Shows config := by
  have hparts : (total.read config buf).parts = total.parts ++ [buf.log] := rfl
  refine ⟨fun name ht => ?_, fun name ht => ?_, fun name ht => ?_⟩
  · rw [hparts, List.filterMap_append, List.foldl_append, ← h.counter name ht]
    simp only [Totals.read, hb.counter name ht]
    cases hs : sumOf config buf.log name <;> simp [hs, addTo]
  · rw [hparts, List.filterMap_append, List.getLast?_append]
    simp only [Totals.read, hb.gauge name ht, h.gauge name ht]
    cases hs : lastOf buf.log name <;> simp [hs]
  · rw [hparts, List.flatten_append, updatesOf_append, List.map_append, ← h.histogram name ht]
    have hv := hb.histogram name ht
    simp only [Totals.read]
    cases hs : buf.histogramStats name with
    | none =>
      rw [hs] at hv
      simp [← hv]
    | some values =>
      rw [hs] at hv
      simp [← hv]

namespace Metrics

variable {s s' : Metrics Thread Name V} {t : Thread} {i : Bool} {e : Event Thread Name V}

/-- All maps show what is behind them. -/
structure Shown (config : Config Thread Name V) (s : Metrics Thread Name V) : Prop where
  half : ∀ t i, (s.half t i).Shows config
  total : ∀ rest stage total, s.collector = .collecting rest stage total → total.Shows config
  results : ∀ total ∈ s.results, total.Shows config

theorem shown_start : Shown config start :=
  ⟨fun _ _ => InnerBuffer.shows_empty, fun _ _ _ h => (by cases h), fun _ h => (by cases h)⟩

theorem Step.shown (hs : Step config s e s') (hb : Base config s) (h : Shown config s) :
    Shown config s' := by
  -- The collector goes on without reading.
  have advance : ∀ {rest stage total rest' stage'}, s.collector = .collecting rest stage total →
      Shown config (s.setCollector (.collecting rest' stage' total)) := by
    intro rest stage total rest' stage' hc
    refine ⟨h.half, fun rest₁ stage₁ total₁ he => ?_, h.results⟩
    obtain ⟨-, -, rfl⟩ := Collector.collecting.inj he
    exact h.total _ _ _ hc
  cases hs with
  | load w hw ht hw' => exact ⟨h.half, h.total, h.results⟩
  | lock hw hu => exact ⟨h.half, h.total, h.results⟩
  | @update t type name value idx hw buf stored hbuf =>
    refine ⟨fun t' i' => ?_, h.total, h.results⟩
    change ((s.setHalf t idx buf).half t' i').Shows config
    rw [half_setHalf]
    split_ifs
    · have hu := (h.half t idx).update (hb.typed t _ _ _ _ (Or.inr hw)) s.stored.length value
      rwa [hbuf] at hu
    · exact h.half t' i'
  | unlock hw => exact ⟨h.half, h.total, h.results⟩
  | collect hc =>
    refine ⟨h.half, fun rest stage total he => ?_, h.results⟩
    obtain ⟨-, -, rfl⟩ := Collector.collecting.inj he
    exact Totals.shows_empty
  | loadIdx hc => exact advance hc
  | exchange hc =>
    refine ⟨fun t' i' => ?_, fun rest stage total he => ?_, h.results⟩
    · rw [half_setCollector, half_setWriteIdx]
      exact h.half t' i'
    · obtain ⟨-, -, rfl⟩ := Collector.collecting.inj he
      exact h.total _ _ _ hc
  | lockBuffer hc hs => exact advance hc
  | @read t rest old total hc =>
    refine ⟨h.half, fun rest stage total₁ he => ?_, h.results⟩
    obtain ⟨-, -, rfl⟩ := Collector.collecting.inj he
    exact (h.total _ _ _ hc).read (h.half t old)
  | @clear t rest old total hc =>
    refine ⟨fun t' i' => ?_, fun rest stage total he => ?_, h.results⟩
    · rw [half_setCollector, half_setHalf]
      split_ifs
      · exact InnerBuffer.shows_empty
      · exact h.half t' i'
    · obtain ⟨-, -, rfl⟩ := Collector.collecting.inj he
      exact h.total _ _ _ hc
  | unlockBuffer hc => exact advance hc
  | @finish stage total hc =>
    refine ⟨h.half, fun _ _ _ he => (by cases he), fun total' hm => ?_⟩
    rcases List.mem_append.mp hm with hm | hm
    · exact h.results total' hm
    · rw [List.mem_singleton.mp hm]
      exact h.total _ _ _ hc

end Metrics

end UnifiedCache.SharedMetrics
