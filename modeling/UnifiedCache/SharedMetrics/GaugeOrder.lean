import UnifiedCache.SharedMetrics.Drain

/-! The order in which the values of a gauge of one thread are reported. The half that is
to be read next has to hold the older value of the two. -/

set_option linter.unusedSectionVars false

namespace UnifiedCache.SharedMetrics

open StepSystem

variable {Thread Name V : Type} [DecidableEq Thread] [DecidableEq Name] {config : Config Thread Name V}

/-- The update behind the value that the totals have of a gauge. -/
def gaugeSeq (name : Name) (total : Totals Name V) : Option Nat :=
  (total.parts.filterMap fun part => lastOf part name).getLast?.map Entry.seq

/-- The half that was switched away and is not cleared. -/
def Stage.unread? : Stage → Option Bool
  | start => none
  | loaded _ => none
  | switched old => some old
  | locked old => some old
  | read old => some old
  | cleared _ => none

/-- The name and the half of the update that a thread is at. -/
def Writer.target : Writer Name V → Option (Name × Bool)
  | locked _ name _ idx => some (name, idx)
  | _ => none

namespace Metrics

variable {s s' : Metrics Thread Name V} {t : Thread} {i : Bool} {e : Event Thread Name V} {name : Name}

/-- The half of a thread that the collector reads next. -/
def nextRead (s : Metrics Thread Name V) (t : Thread) : Bool :=
  match s.place with
  | some (t', stage) => if t' = t then stage.unread?.getD (s.bufs t).writeIdx else (s.bufs t).writeIdx
  | none => (s.bufs t).writeIdx

/-- No value of a gauge is stored in the half that is read next while the other half has one. -/
def KeepsOrder (name : Name) (s : Metrics Thread Name V) : Event Thread Name V → Prop
  | .update t => ∀ idx, (s.writers t).target = some (name, idx) →
      idx = s.nextRead t → (s.half t (!idx)).gaugeStats name = none
  | _ => True

instance (name : Name) (s : Metrics Thread Name V) (e : Event Thread Name V) : Decidable (KeepsOrder name s e) :=
  match e with
  | .update t => inferInstanceAs (Decidable (∀ idx, (s.writers t).target = some (name, idx) →
      idx = s.nextRead t → (s.half t (!idx)).gaugeStats name = none))
  | .load .. | .lock .. | .unlock .. | .collect | .loadIdx | .exchange | .lockBuffer | .read | .clear
  | .unlockBuffer | .finish => inferInstanceAs (Decidable True)

def lastSeq (s : Metrics Thread Name V) (name : Name) (t : Thread) (i : Bool) : Option Nat :=
  (lastOf (s.half t i).log name).map Entry.seq

/-- The updates whose values were reported, that of the collection going on last. -/
def reported (s : Metrics Thread Name V) (name : Name) : List Nat :=
  s.results.filterMap (gaugeSeq name) ++
    match s.collector with
    | .idle => []
    | .collecting _ _ total => (gaugeSeq name total).toList

structure Ordered (name : Name) (t : Thread) (s : Metrics Thread Name V) : Prop where
  reports : (s.reported name).Pairwise (· < ·)
  ahead : ∀ r ∈ s.reported name, ∀ i, s.reading ≠ some (t, i) → ∀ q ∈ s.lastSeq name t i, r < q
  halves : ∀ p ∈ s.lastSeq name t (s.nextRead t), ∀ q ∈ s.lastSeq name t (!s.nextRead t), p < q
  bound : ∀ r ∈ s.reported name, r < s.stored.length

theorem ordered_start (name : Name) (t : Thread) : Ordered name t (start : Metrics Thread Name V) :=
  ⟨List.Pairwise.nil, fun _ hr => (by cases hr), fun _ hp => (by cases hp), fun _ hr => (by cases hr)⟩

theorem nextRead_of_place {t' : Thread} {stage : Stage} (hp : s.place = some (t', stage)) : s.nextRead t =
    if t' = t then stage.unread?.getD (s.bufs t).writeIdx else (s.bufs t).writeIdx := by
  rw [nextRead, hp]

theorem nextRead_eq_writeIdx (h : ∀ stage, s.place = some (t, stage) → stage.unread? = none) :
    s.nextRead t = (s.bufs t).writeIdx := by
  rw [nextRead]
  split
  · rename_i t' stage hp
    split_ifs with ht
    · subst ht
      rw [h stage hp]
      rfl
    · rfl
  · rfl

/-- Nothing of the thread's gauge moves. -/
theorem Ordered.move (h : Ordered name t s) (hreported : s'.reported name = s.reported name)
    (hhalf : ∀ i, s'.lastSeq name t i = s.lastSeq name t i) (hnext : s'.nextRead t = s.nextRead t)
    (hread : ∀ i, s'.reading ≠ some (t, i) → s.reading ≠ some (t, i))
    (hstored : s.stored.length ≤ s'.stored.length) : Ordered name t s' := by
  refine ⟨by rw [hreported]; exact h.reports, fun r hr i hi q hq => ?_, ?_, fun r hr => ?_⟩
  · rw [hreported] at hr
    rw [hhalf] at hq
    exact h.ahead r hr i (hread i hi) q hq
  · rw [hnext, hhalf, hhalf]
    exact h.halves
  · rw [hreported] at hr
    exact (h.bound r hr).trans_le hstored

theorem reported_collecting {rest : List Thread} {stage : Stage} {total : Totals Name V}
    (hc : s.collector = .collecting rest stage total) :
    s.reported name = s.results.filterMap (gaugeSeq name) ++ (gaugeSeq name total).toList := by
  rw [reported, hc]

theorem reported_idle (hc : s.collector = .idle) : s.reported name = s.results.filterMap (gaugeSeq name) := by
  rw [reported, hc, List.append_nil]

/-- The collector goes on without reading. -/
theorem Ordered.advance (h : Ordered name t s) {rest rest' : List Thread} {stage stage' : Stage}
    {total : Totals Name V} (hc : s.collector = .collecting rest stage total)
    (hnext : (s.setCollector (.collecting rest' stage' total)).nextRead t = s.nextRead t)
    (hread : s.reading = none) : Ordered name t (s.setCollector (.collecting rest' stage' total)) := by
  refine h.move ?_ (fun _ => rfl) hnext (fun i _ => by simp [hread]) le_rfl
  rw [reported_collecting hc, reported_collecting rfl]
  rfl

theorem gaugeSeq_read (total : Totals Name V) (buf : InnerBuffer Name V) : gaugeSeq name (total.read config buf) =
    ((lastOf buf.log name).map Entry.seq).or (gaugeSeq name total) := by
  simp only [gaugeSeq, Totals.read, List.filterMap_append, List.getLast?_append]
  cases hl : lastOf buf.log name with
  | none => simp [hl]
  | some e => simp [hl]

/-- A value of the gauge that is stored by another thread. -/
theorem lastSeq_other (hr : Recorded s) (hsingle : ∀ u ∈ s.stored, u.2.1 = name → u.1 = t) {t' : Thread}
    (ht : t' ≠ t) : s.lastSeq name t' i = none := by
  cases hl : lastOf (s.half t' i).log name with
  | none => rw [lastSeq, hl]; rfl
  | some e =>
    obtain ⟨hm, hn⟩ := mem_of_lastOf hl
    exact absurd (hsingle _ (List.mem_of_getElem? (hr.half t' i e hm)) hn) ht

theorem lastSeq_lt (hr : Recorded s) {q : Nat} (hq : q ∈ s.lastSeq name t i) : q < s.stored.length := by
  obtain ⟨e, he, rfl⟩ := Option.map_eq_some_iff.mp hq
  exact (List.getElem?_eq_some_iff.mp (hr.half t i e (mem_of_lastOf he).1)).1

/-- The first stage at a buffer. -/
theorem stage_of_place_start {rest : List Thread} {stage : Stage} {total : Totals Name V}
    (hp : (s.setCollector (.collecting rest .start total)).place = some (t, stage)) : stage.unread? = none := by
  cases rest with
  | nil => cases hp
  | cons t' rest =>
    obtain ⟨-, rfl⟩ := Prod.mk.inj (Option.some.inj hp)
    rfl

/-- The collector reads the older of the two values. -/
theorem Ordered.read (h : Ordered name t s) {t' : Thread} {rest : List Thread} {old : Bool} {total : Totals Name V}
    (hc : s.collector = .collecting (t' :: rest) (.locked old) total) (hr : Recorded s)
    (hsingle : ∀ u ∈ s.stored, u.2.1 = name → u.1 = t) :
    Ordered name t (s.setCollector (.collecting (t' :: rest) (.read old) (total.read config (s.half t' old)))) := by
  have hplace : s.place = some (t', .locked old) := by rw [place, hc]
  have hnone : s.reading = none := reading_eq hc fun _ => by simp
  have hnext : nextRead (s.setCollector (.collecting (t' :: rest) (.read old)
      (total.read config (s.half t' old)))) t = s.nextRead t := by
    rw [nextRead_of_place rfl, nextRead_of_place hplace]
    rfl
  have hreported : reported (s.setCollector (.collecting (t' :: rest) (.read old)
      (total.read config (s.half t' old)))) name = s.results.filterMap (gaugeSeq name) ++
        ((s.lastSeq name t' old).or (gaugeSeq name total)).toList := by
    rw [reported_collecting rfl, gaugeSeq_read]
    rfl
  have hbefore : s.reported name = s.results.filterMap (gaugeSeq name) ++ (gaugeSeq name total).toList :=
    reported_collecting hc
  cases hlast : s.lastSeq name t' old with
  | none =>
    refine h.move ?_ (fun _ => rfl) hnext (fun i _ => by simp [hnone]) le_rfl
    rw [hreported, hlast, hbefore]
    rfl
  | some p =>
    obtain rfl : t' = t := by
      by_contra ht
      rw [lastSeq_other hr hsingle ht] at hlast
      cases hlast
    have hold : s.nextRead t' = old := by
      rw [nextRead_of_place hplace, if_pos rfl]
      rfl
    have hmem : ∀ r, r ∈ s.results.filterMap (gaugeSeq name) → r ∈ s.reported name := fun r hr' => by
      rw [hbefore]
      exact List.mem_append_left _ hr'
    have hlt : ∀ r ∈ s.reported name, r < p := fun r hr' => h.ahead r hr' old (by simp [hnone]) p hlast
    have hcases : ∀ r, r ∈ s.results.filterMap (gaugeSeq name) ++ [p] → r ∈ s.reported name ∨ r = p :=
      fun r hr' => (List.mem_append.mp hr').imp (hmem r) List.mem_singleton.mp
    rw [hlast] at hreported
    change reported _ name = s.results.filterMap (gaugeSeq name) ++ [p] at hreported
    refine ⟨?_, fun r hr' i hi q hq => ?_, ?_, fun r hr' => ?_⟩
    · rw [hreported]
      have hsub := h.reports
      rw [hbefore] at hsub
      refine List.pairwise_append.mpr ⟨(List.pairwise_append.mp hsub).1, List.pairwise_singleton _ _, ?_⟩
      intro r hr' q hq
      rw [List.mem_singleton.mp hq]
      exact hlt r (hmem r hr')
    · rw [hreported] at hr'
      rcases hcases r hr' with hr' | rfl
      · exact h.ahead r hr' i (by simp [hnone]) q hq
      · -- What was read is older than what the other half has.
        have hne : i = !old := Bool.eq_not.mpr fun he => hi (by rw [he]; rfl)
        refine h.halves r ?_ q ?_
        · rw [hold]
          exact hlast
        · rw [hold, ← hne]
          exact hq
    · rw [hnext]
      exact h.halves
    · rw [hreported] at hr'
      rcases hcases r hr' with hr' | rfl
      · exact h.bound r hr'
      · exact lastSeq_lt hr hlast

/-- What an update does to the last value of a gauge in each half. -/
theorem lastSeq_update (name : Name) {type : MetricType} {name' : Name} {value : V} {idx stored : Bool} {t' : Thread}
    {buf : InnerBuffer Name V} (hbuf : (s.half t' idx).update config s.stored.length type name' value = (buf, stored))
    (stored' : List (Thread × Name × V)) (t₁ : Thread) (i₁ : Bool) :
    ({ (s.setHalf t' idx buf).setWriter t' (.updated idx) with stored := stored' } :
      Metrics Thread Name V).lastSeq name t₁ i₁ =
      if (t₁ = t' ∧ i₁ = idx) ∧ name' = name ∧ stored = true then some s.stored.length else s.lastSeq name t₁ i₁ := by
  change (lastOf ((s.setHalf t' idx buf).half t₁ i₁).log name).map Entry.seq = _
  rw [half_setHalf]
  by_cases hti : t₁ = t' ∧ i₁ = idx
  · have hlog := InnerBuffer.log_update config (s.half t' idx) s.stored.length type name' value
    rw [hbuf] at hlog
    obtain ⟨rfl, rfl⟩ := hti
    rw [if_pos ⟨rfl, rfl⟩, hlog]
    cases stored with
    | false => simp [lastSeq]
    | true =>
      rw [if_pos rfl, lastOf_append_singleton]
      by_cases hn : name' = name
      · simp [hn]
      · simp [hn, lastSeq]
  · rw [if_neg hti, if_neg fun he => hti he.1]
    rfl

theorem nextRead_update {w : Writer Name V} {idx : Bool} {t' : Thread} {buf : InnerBuffer Name V}
    {stored' : List (Thread × Name × V)} :
    ({ (s.setHalf t' idx buf).setWriter t' w with stored := stored' } : Metrics Thread Name V).nextRead t =
      s.nextRead t := by
  change (match s.place with | some (t'', stage) => _ | none => _) = _
  simp only [nextRead]
  rw [show (({ (s.setHalf t' idx buf).setWriter t' w with stored := stored' } :
    Metrics Thread Name V).bufs t).writeIdx = (s.bufs t).writeIdx from writeIdx_setHalf buf]

theorem Step.ordered (hs : Step config s e s') (hb : Base config s) (hr : Recorded s) (hsh : Shown config s)
    (hgauge : config.statsType name = some .gauge) (hk : KeepsOrder name s e)
    (hsingle : ∀ u ∈ s'.stored, u.2.1 = name → u.1 = t) (h : Ordered name t s) : Ordered name t s' := by
  have hsingle₀ : ∀ u ∈ s.stored, u.2.1 = name → u.1 = t := fun u hu =>
    hsingle u (hs.stored_prefix.subset hu)
  cases hs with
  | load w hw ht hw' => exact h.move rfl (fun _ => rfl) rfl (fun _ hi => hi) le_rfl
  | lock hw hu => exact h.move rfl (fun _ => rfl) rfl (fun _ hi => hi) le_rfl
  | @update t' type name' value idx hw buf stored hbuf =>
    have hlast := fun i => lastSeq_update name hbuf
      (if stored then s.stored ++ [(t', name', value)] else s.stored) t i
    by_cases hn : name' = name ∧ stored = true
    · obtain ⟨rfl, rfl⟩ := hn
      obtain rfl : t' = t := hsingle (t', name', value) (by simp) rfl
      have htarget : (s.writers t').target = some (name', idx) := by
        rw [hw]
        rfl
      refine ⟨h.reports, fun r hr' i hi q hq => ?_, ?_, fun r hr' => ?_⟩
      · rw [hlast] at hq
        split_ifs at hq with hidx
        · obtain rfl := Option.some.inj hq
          exact h.bound r hr'
        · exact h.ahead r hr' i hi q hq
      · rw [nextRead_update, hlast, hlast]
        by_cases hidx : idx = s.nextRead t'
        · -- The other half has no value of the gauge.
          have hnone := hk idx htarget hidx
          rw [(hsh.half t' (!idx)).gauge _ hgauge, Option.map_eq_none_iff] at hnone
          intro p _ q hq
          rw [← hidx, if_neg (by simp), lastSeq, hnone] at hq
          cases hq
        · have hother : (!s.nextRead t') = idx := (Bool.eq_not.mpr hidx).symm
          rw [hother, if_neg fun he => hidx he.1.2.symm, if_pos ⟨⟨rfl, rfl⟩, rfl, rfl⟩]
          intro p hp q hq
          obtain rfl := Option.some.inj hq
          exact lastSeq_lt hr hp
      · change r < (s.stored ++ [(t', name', value)]).length
        rw [List.length_append]
        exact Nat.lt_add_right 1 (h.bound r hr')
    · refine h.move rfl (fun i => ?_) nextRead_update (fun _ hi => hi) ?_
      · rw [hlast, if_neg fun he => hn he.2]
      · cases stored <;> simp
  | unlock hw => exact h.move rfl (fun _ => rfl) rfl (fun _ hi => hi) le_rfl
  | collect hc =>
    have hplace : s.place = none := by rw [place, hc]
    have hnext : s.nextRead t = (s.bufs t).writeIdx := by rw [nextRead, hplace]
    refine h.move ?_ (fun _ => rfl) (hnext ▸ nextRead_eq_writeIdx fun stage hp => ?_)
      (fun i _ => by simp [reading, hc]) le_rfl
    · rw [reported_idle hc, reported_collecting rfl]
      exact List.append_nil _
    · exact stage_of_place_start hp
  | @loadIdx t' rest total hc =>
    have hnext : s.nextRead t = _ := nextRead_of_place (by rw [place, hc])
    refine h.advance hc ((nextRead_of_place rfl).trans ?_) (reading_eq hc fun _ => by simp)
    rw [hnext]
    rfl
  | @exchange t' rest idx total hc =>
    have hnext : s.nextRead t = _ := nextRead_of_place (by rw [place, hc])
    refine h.move ?_ (fun i => ?_) ((nextRead_of_place rfl).trans ?_)
      (fun i _ => by rw [reading_eq hc fun _ => by simp]; simp) le_rfl
    · rw [reported_collecting hc, reported_collecting rfl]
      rfl
    · rw [lastSeq, half_setCollector, half_setWriteIdx]
      rfl
    · rw [hnext]
      change (if t' = t then (s.bufs t').writeIdx else ((s.setWriteIdx t' !idx).bufs t).writeIdx) = _
      by_cases ht : t' = t
      · simp [ht, Stage.unread?]
      · rw [if_neg ht, if_neg ht, writeIdx_setWriteIdx, if_neg (Ne.symm ht)]
  | @lockBuffer t' rest old total hc hs =>
    have hnext : s.nextRead t = _ := nextRead_of_place (by rw [place, hc])
    refine h.advance hc ((nextRead_of_place rfl).trans ?_) (reading_eq hc fun _ => by simp)
    rw [hnext]
    rfl
  | @read t' rest old total hc =>
    exact h.read hc hr hsingle₀
  | @clear t' rest old total hc =>
    have hplace : s.place = some (t', .read old) := by rw [place, hc]
    have hreading : s.reading = some (t', old) := by rw [reading, hc]
    have hwrite : (s.bufs t').writeIdx = !old := hb.switched t' _ old hplace rfl
    have hlast : ∀ i, lastSeq ((s.setHalf t' old InnerBuffer.empty).setCollector
        (.collecting (t' :: rest) (.cleared old) total)) name t i =
        if t = t' ∧ i = old then none else s.lastSeq name t i := by
      intro i
      rw [lastSeq, half_setCollector, half_setHalf]
      split_ifs
      · rfl
      · rfl
    have hnext : nextRead ((s.setHalf t' old InnerBuffer.empty).setCollector
        (.collecting (t' :: rest) (.cleared old) total)) t = (s.bufs t).writeIdx := by
      rw [nextRead_of_place rfl]
      rw [show (((s.setHalf t' old InnerBuffer.empty).setCollector (.collecting (t' :: rest)
        (.cleared old) total)).bufs t).writeIdx = (s.bufs t).writeIdx from writeIdx_setHalf _]
      split_ifs
      · rfl
      · rfl
    have hreported : reported ((s.setHalf t' old InnerBuffer.empty).setCollector
        (.collecting (t' :: rest) (.cleared old) total)) name = s.reported name := by
      rw [reported_collecting hc, reported_collecting rfl]
      rfl
    refine ⟨by rw [hreported]; exact h.reports, fun r hr' i _ q hq => ?_, fun p hp q hq => ?_, fun r hr' => ?_⟩
    · rw [hlast] at hq
      split_ifs at hq with he
      · cases hq
      · rw [hreported] at hr'
        refine h.ahead r hr' i (fun hi => he ?_) q hq
        obtain ⟨rfl, rfl⟩ := Prod.mk.inj (Option.some.inj (hreading.symm.trans hi))
        exact ⟨rfl, rfl⟩
    · rw [hlast, hnext] at hp hq
      by_cases ht : t = t'
      · subst ht
        rw [hwrite, Bool.not_not, if_pos ⟨rfl, rfl⟩] at hq
        cases hq
      · rw [if_neg fun he => ht he.1] at hp hq
        have hbefore : s.nextRead t = (s.bufs t).writeIdx := by
          rw [nextRead_of_place hplace, if_neg (Ne.symm ht)]
        refine h.halves p ?_ q ?_
        · rw [hbefore]
          exact hp
        · rw [hbefore]
          exact hq
    · rw [hreported] at hr'
      exact h.bound r hr'
  | @unlockBuffer t' rest old total hc =>
    have hnext : s.nextRead t = (s.bufs t).writeIdx := nextRead_eq_writeIdx fun stage hp => by
      rw [place, hc] at hp
      obtain ⟨-, rfl⟩ := Prod.mk.inj (Option.some.inj hp)
      rfl
    refine h.advance hc (hnext ▸ nextRead_eq_writeIdx fun stage hp => ?_) (reading_eq hc fun _ => by simp)
    exact stage_of_place_start hp
  | @finish stage total hc =>
    have hplace : s.place = none := by rw [place, hc]
    have hnext : s.nextRead t = (s.bufs t).writeIdx := by rw [nextRead, hplace]
    refine h.move ?_ (fun _ => rfl) ?_ (fun i _ => by simp [reading, hc]) le_rfl
    · rw [reported_collecting hc, reported_idle rfl, List.filterMap_append]
      cases hseq : gaugeSeq name total <;> simp [hseq]
    · rw [hnext]
      rfl

/-- What holds of every reachable state, and of those that keep the order of a gauge. -/
theorem ordered_of_reach (hgauge : config.statsType name = some .gauge)
    (h : Reach (step config) (KeepsOrder name) start s) (hsingle : ∀ u ∈ s.stored, u.2.1 = name → u.1 = t) :
    Ordered name t s := by
  have hall := h.invariant (fun s => (Base config s ∧ Recorded s ∧ Shown config s) ∧
    ((∀ u ∈ s.stored, u.2.1 = name → u.1 = t) → Ordered name t s))
    ⟨⟨base_start, recorded_start, shown_start⟩, fun _ => ordered_start name t⟩
    fun s e s' ⟨⟨hb, hr, hsh⟩, ho⟩ hk hs => by
      have hs := step_inv hs
      refine ⟨⟨hs.base hb, hs.recorded hr, hs.shown hb hsh⟩, fun hsingle => ?_⟩
      refine hs.ordered hb hr hsh hgauge hk hsingle (ho fun u hu => ?_)
      exact hsingle u (hs.stored_prefix.subset hu)
  exact hall.2 hsingle

theorem conserved_of_reach (hnd : config.buffers.Nodup) {guard : Metrics Thread Name V → Event Thread Name V → Prop}
    (h : Reach (step config) guard start s) : Conserved config s ∧ Recorded s ∧ Shown config s := by
  have hall := h.invariant (fun s => Base config s ∧ Conserved config s ∧ Recorded s ∧ Shown config s)
    ⟨base_start, conserved_start, recorded_start, shown_start⟩ fun s e s' ⟨hb, hc, hr, hsh⟩ _ hs => by
      have hs := step_inv hs
      exact ⟨hs.base hb, hs.conserved hb hnd hc, hs.recorded hr, hs.shown hb hsh⟩
  exact hall.2

/-- Empty halves leave nothing that waits. -/
theorem waiting_empty (h : ∀ t ∈ config.buffers, ∀ i, s.half t i = InnerBuffer.empty) : s.waiting config = 0 := by
  refine List.sum_eq_zero fun x hx => ?_
  obtain ⟨t, ht, rfl⟩ := List.mem_map.mp hx
  simp [unread, h t ht, InnerBuffer.empty]

/-- Each stored update is collected once, and gauges are reported in the order of their updates where
no value is stored in the half that is read next while the other half has an older one. -/
theorem collected_once (config : Config Thread Name V) (hnd : config.buffers.Nodup) :
    (∀ s, Reach (step config) (fun _ _ => True) start s → Conserved config s ∧ Recorded s ∧ Shown config s ∧
      ∀ es s', s.collector = .idle → (∀ e ∈ es, ¬ IsUpdate e) → run (step config) s es = some s' →
        s.results.length + 2 ≤ s'.results.length →
          (∀ t ∈ config.buffers, ∀ i, s'.half t i = InnerBuffer.empty) ∧
          s'.collected + s'.current = Multiset.range s'.stored.length) ∧
    ∀ name t, config.statsType name = some .gauge → ∀ s, Reach (step config) (KeepsOrder name) start s →
      (∀ u ∈ s.stored, u.2.1 = name → u.1 = t) → (s.results.filterMap (gaugeSeq name)).Pairwise (· < ·) := by
  constructor
  · intro s h
    obtain ⟨hc, hr, hsh⟩ := conserved_of_reach hnd h
    refine ⟨hc, hr, hsh, fun es s' hidle hno hrun htwo => ?_⟩
    have hempty := drained hnd (base_of_reach h) hidle hno hrun htwo
    have hc' : Conserved config s' := (conserved_of_reach hnd (h.run (fun _ _ _ => trivial) hrun)).1
    rw [Conserved, waiting_empty hempty, add_zero] at hc'
    exact ⟨hempty, hc'⟩
  · intro name t hgauge s h hsingle
    exact (List.pairwise_append.mp (ordered_of_reach hgauge h hsingle).reports).1

/-- One thread with one gauge. -/
def oneGauge : Config Unit Unit Nat := ⟨fun _ => some .gauge, 1, [()], (· + ·), 0⟩

def collection : List (Event Unit Unit Nat) :=
  [.collect, .loadIdx, .exchange, .lockBuffer, .read, .clear, .unlockBuffer, .finish]

def storing : List (Event Unit Unit Nat) := [.lock (), .update (), .unlock ()]

theorem collected_once_gauge : oneGauge.buffers.Nodup ∧ ∃ s, Reach (step oneGauge) (KeepsOrder ()) start s ∧
    s.results.map (fun total => total.gauge ()) = [some 5, some 7] ∧
    (s.results.filterMap (gaugeSeq ())).Pairwise (· < ·) := by
  have hnd : oneGauge.buffers.Nodup := by decide
  let es := [.load () () 5] ++ storing ++ collection ++ [.load () () 7] ++ storing ++ collection
  have hsome : (run (checked (fun s e => decide (KeepsOrder () s e)) (step oneGauge)) start es).isSome := by
    decide +kernel
  obtain ⟨s, hs⟩ := Option.isSome_iff_exists.mp hsome
  have hreach : Reach (step oneGauge) (KeepsOrder ()) start s :=
    Reach.start.checked (fun s e h => of_decide_eq_true h) hs
  refine ⟨hnd, s, hreach, ?_, (collected_once oneGauge hnd).2 () () rfl s hreach fun _ _ _ => rfl⟩
  have hres : (run (checked (fun s e => decide (KeepsOrder () s e)) (step oneGauge)) start es).map
      (fun s => s.results.map fun total => total.gauge ()) = some [some 5, some 7] := by
    decide +kernel
  rw [hs] at hres
  exact Option.some.inj hres

/-- A value is stored late, in the half that was just cleared, and reported after the next one. -/
theorem reported_back : ∃ s, Reach (step oneGauge) (fun _ _ => True) start s ∧
    s.stored = [((), (), 5), ((), (), 7)] ∧
    s.results.map (fun total => total.gauge ()) = [none, some 7, some 5] ∧
    ¬ (s.results.filterMap (gaugeSeq ())).Pairwise (· ≤ ·) := by
  let es := [.load () () 5] ++ collection ++ storing ++ [.load () () 7] ++ storing ++ collection ++ collection
  have hrun : (run (step oneGauge) start es).map (fun s => (s.stored,
      s.results.map fun total => total.gauge (), s.results.filterMap (gaugeSeq ()))) =
      some ([((), (), 5), ((), (), 7)], [none, some 7, some 5], [1, 0]) := by
    decide +kernel
  obtain ⟨s, hs, he⟩ := Option.map_eq_some_iff.mp hrun
  obtain ⟨hstored, hres, hseq⟩ := Prod.mk.inj he |>.imp_right Prod.mk.inj
  refine ⟨s, Reach.start.run (fun _ _ _ => trivial) hs, hstored, hres, ?_⟩
  rw [hseq]
  decide

end Metrics

end UnifiedCache.SharedMetrics
