import UnifiedCache.SharedMetrics.Steps

/-! Every stored update is in one place: in a half that waits to be read, in the totals
of the collection that is going on, or in the result of one that is done. -/

set_option linter.unusedSectionVars false

namespace UnifiedCache.SharedMetrics

open StepSystem

variable {Thread Name V : Type} [DecidableEq Thread] [DecidableEq Name] {config : Config Thread Name V}

def seqs (log : List (Entry Name V)) : Multiset Nat := (log.map Entry.seq : List Nat)

@[simp] theorem seqs_nil : seqs ([] : List (Entry Name V)) = 0 := rfl

@[simp] theorem seqs_append (log log' : List (Entry Name V)) : seqs (log ++ log') = seqs log + seqs log' := by
  simp [seqs]

def Totals.seqs (total : Totals Name V) : Multiset Nat := SharedMetrics.seqs total.parts.flatten

theorem Totals.seqs_read (total : Totals Name V) (buf : InnerBuffer Name V) :
    (total.read config buf).seqs = total.seqs + SharedMetrics.seqs buf.log := by
  simp [Totals.seqs, Totals.read]

theorem InnerBuffer.log_update (config : Config Thread Name V) (buf : InnerBuffer Name V) (seq : Nat) (type : MetricType) (name : Name)
    (value : V) : (buf.update config seq type name value).1.log =
      if (buf.update config seq type name value).2 then buf.log ++ [⟨seq, name, value⟩] else buf.log := by
  cases type with
  | counter => rfl
  | gauge => rfl
  | histogram =>
    simp only [update]
    by_cases hlen : ((buf.histogramStats name).getD []).length < config.maxVectorLen
    · simp only [if_pos hlen, if_true]
    · simp only [if_neg hlen, Bool.false_eq_true, if_false]

/-- A sum with one place for each thread, of which one is changed. -/
theorem sum_map_add {M : Type*} [AddCommMonoid M] {l : List Thread} (hl : l.Nodup) {t : Thread} (ht : t ∈ l)
    {f g : Thread → M} (hg : ∀ x, x ≠ t → g x = f x) : (l.map g).sum + f t = (l.map f).sum + g t := by
  induction l with
  | nil => cases ht
  | cons a l ih =>
    obtain ⟨ha, hl⟩ := List.nodup_cons.mp hl
    rw [List.map_cons, List.map_cons, List.sum_cons, List.sum_cons]
    rcases List.mem_cons.mp ht with rfl | ht
    · have he : l.map g = l.map f := List.map_congr_left fun x hx => hg x (ne_of_mem_of_not_mem hx ha)
      rw [he]
      abel
    · rw [add_assoc, ih hl ht, hg a (ne_of_mem_of_not_mem ht ha).symm, add_assoc]

namespace Metrics

variable {s s' : Metrics Thread Name V} {t : Thread} {i : Bool} {e : Event Thread Name V}

/-- The half that was read and not yet cleared. -/
def reading (s : Metrics Thread Name V) : Option (Thread × Bool) :=
  match s.collector with
  | .collecting (t :: _) (.read old) _ => some (t, old)
  | _ => none

/-- The updates of a half that no total has. -/
def unread (s : Metrics Thread Name V) (t : Thread) (i : Bool) : Multiset Nat :=
  if s.reading = some (t, i) then 0 else seqs (s.half t i).log

def waiting (config : Config Thread Name V) (s : Metrics Thread Name V) : Multiset Nat :=
  (config.buffers.map fun t => s.unread t false + s.unread t true).sum

def current (s : Metrics Thread Name V) : Multiset Nat :=
  match s.collector with
  | .collecting _ _ total => total.seqs
  | .idle => 0

def collected (s : Metrics Thread Name V) : Multiset Nat := (s.results.map Totals.seqs).sum

def Conserved (config : Config Thread Name V) (s : Metrics Thread Name V) : Prop :=
  s.collected + s.current + s.waiting config = Multiset.range s.stored.length

theorem conserved_start : Conserved config start := by
  have hw : (start : Metrics Thread Name V).waiting config = 0 := by
    refine List.sum_eq_zero fun x hx => ?_
    obtain ⟨t, -, rfl⟩ := List.mem_map.mp hx
    rfl
  rw [Conserved, hw]
  rfl

theorem waiting_congr (h : ∀ t i, s'.unread t i = s.unread t i) : s'.waiting config = s.waiting config := by
  simp only [waiting, h]

theorem waiting_single (s s' : Metrics Thread Name V) (i : Bool) (hnd : config.buffers.Nodup) (ht : t ∈ config.buffers)
    (h : ∀ t' i', ¬ (t' = t ∧ i' = i) → s'.unread t' i' = s.unread t' i') :
    s'.waiting config + s.unread t i = s.waiting config + s'.unread t i := by
  have hsum := sum_map_add hnd ht (f := fun t => s.unread t false + s.unread t true)
    (g := fun t => s'.unread t false + s'.unread t true) fun x hx => by
      rw [h x false fun he => hx he.1, h x true fun he => hx he.1]
  have hother : s'.unread t (!i) = s.unread t (!i) := h t (!i) fun he => by cases i <;> cases he.2
  change s'.waiting config + _ = s.waiting config + _ at hsum
  cases i with
  | false =>
    rw [show s'.unread t true = s.unread t true from hother, ← add_assoc, ← add_assoc] at hsum
    exact add_right_cancel hsum
  | true =>
    rw [show s'.unread t false = s.unread t false from hother, add_comm (s.unread t false),
      add_comm (s.unread t false), ← add_assoc, ← add_assoc] at hsum
    exact add_right_cancel hsum

/-- The collector moves on without reading. -/
theorem Conserved.move (h : Conserved config s) (hr : s'.results = s.results) (hst : s'.stored = s.stored)
    (hhalf : s'.half = s.half) (hc : s'.current = s.current) (h₁ : s.reading = none)
    (h₂ : s'.reading = none) : Conserved config s' := by
  have hw : s'.waiting config = s.waiting config := waiting_congr fun t i => by
    simp only [unread, h₁, h₂, hhalf]
  rw [Conserved, collected, hr, hc, hw, hst]
  exact h

theorem reading_eq {rest : List Thread} {stage : Stage} {total : Totals Name V}
    (hc : s.collector = .collecting (t :: rest) stage total) (hst : ∀ old, stage ≠ .read old) :
    s.reading = none := by
  unfold reading
  rw [hc]
  cases stage with
  | read old => exact absurd rfl (hst old)
  | _ => rfl

theorem place_of_reading (hr : s.reading = some (t, i)) : s.place = some (t, .read i) := by
  unfold reading at hr
  unfold place
  split at hr
  · rename_i hc
    obtain ⟨rfl, rfl⟩ := Prod.mk.inj (Option.some.inj hr)
    rw [hc]
  · cases hr

theorem Step.conserved (hs : Step config s e s') (hb : Base config s) (hnd : config.buffers.Nodup)
    (h : Conserved config s) : Conserved config s' := by
  cases hs with
  | load w hw ht hw' => exact h
  | lock hw hu => exact h
  | @update t type name value idx hw buf stored hbuf =>
    have hread : s.reading ≠ some (t, idx) := fun hr =>
      hb.excl t idx (by simp [Shared, hw, Writer.held]) ⟨.read idx, place_of_reading hr, rfl⟩
    have hlog := InnerBuffer.log_update config (s.half t idx) s.stored.length type name value
    rw [hbuf] at hlog
    have hw := waiting_single s { (s.setHalf t idx buf).setWriter t (.updated idx) with
      stored := if stored then s.stored ++ [(t, name, value)] else s.stored } idx hnd
      (hb.writer t (by simp [hw])) fun t' i' hne => by
        change (if s.reading = _ then 0 else seqs ((s.setHalf t idx buf).half t' i').log) = _
        rw [half_setHalf, if_neg hne]
        rfl
    have hnew : ({ (s.setHalf t idx buf).setWriter t (.updated idx) with
        stored := if stored then s.stored ++ [(t, name, value)] else s.stored } :
        Metrics Thread Name V).unread t idx = seqs buf.log := by
      refine (if_neg hread).trans ?_
      change seqs ((s.setHalf t idx buf).half t idx).log = _
      rw [half_setHalf, if_pos ⟨rfl, rfl⟩]
    have hold : s.unread t idx = seqs (s.half t idx).log := if_neg hread
    rw [hnew, hold, hlog] at hw
    cases stored with
    | true =>
      simp only [if_true, seqs_append] at hw ⊢
      rw [add_comm (seqs _), ← add_assoc] at hw
      have hw := add_right_cancel hw
      change s.collected + s.current + _ = Multiset.range (s.stored ++ [(t, name, value)]).length
      rw [hw, ← add_assoc, h, List.length_append, List.length_singleton, Multiset.range_succ, add_comm]
      rfl
    | false =>
      simp only [Bool.false_eq_true, if_false] at hw ⊢
      have hw := add_right_cancel hw
      change s.collected + s.current + _ = Multiset.range s.stored.length
      rw [hw]
      exact h
  | unlock hw => exact h
  | collect hc =>
    refine h.move rfl rfl rfl ?_ ?_ ?_
    · simp [current, hc, setCollector, Totals.empty, Totals.seqs]
    · simp [reading, hc]
    · simp only [reading, setCollector]
      cases config.buffers <;> rfl
  | loadIdx hc =>
    exact h.move rfl rfl rfl (by simp [current, hc, setCollector]) (reading_eq hc fun _ => by simp) rfl
  | exchange hc =>
    exact h.move rfl rfl (half_setWriteIdx) (by simp [current, hc, setCollector])
      (reading_eq hc fun _ => by simp) rfl
  | lockBuffer hc hs =>
    exact h.move rfl rfl rfl (by simp [current, hc, setCollector]) (reading_eq hc fun _ => by simp) rfl
  | @read t rest old total hc =>
    have hnone : s.reading = none := reading_eq hc fun _ => by simp
    have ht : t ∈ config.buffers := (hb.suffix _ _ _ hc).subset List.mem_cons_self
    have hw := waiting_single s (s.setCollector
      (.collecting (t :: rest) (.read old) (total.read config (s.half t old)))) old hnd ht
      fun t' i' hne => by
        have hne' : ¬ some (t, old) = some (t', i') := fun he => by
          obtain ⟨rfl, rfl⟩ := Prod.mk.inj (Option.some.inj he)
          exact hne ⟨rfl, rfl⟩
        rw [unread, unread, hnone]
        exact if_neg hne'
    have hold : s.unread t old = seqs (s.half t old).log := by
      rw [unread, hnone]
      rfl
    have hnew : (s.setCollector (.collecting (t :: rest) (.read old)
        (total.read config (s.half t old)))).unread t old = 0 := if_pos rfl
    rw [hold, hnew, add_zero] at hw
    have hcur : s.current = total.seqs := by rw [current, hc]
    rw [Conserved, hcur, ← hw] at h
    refine Eq.trans ?_ h
    change s.collected + (total.read config (s.half t old)).seqs + _ = _
    rw [Totals.seqs_read]
    abel
  | @clear t rest old total hc =>
    have hreading : s.reading = some (t, old) := by rw [reading, hc]
    have hw : ((s.setHalf t old InnerBuffer.empty).setCollector
        (.collecting (t :: rest) (.cleared old) total)).waiting config = s.waiting config := by
      refine waiting_congr fun t' i' => ?_
      have hnone : ((s.setHalf t old InnerBuffer.empty).setCollector
        (.collecting (t :: rest) (.cleared old) total)).reading = none := rfl
      rw [unread, unread, hreading, hnone, half_setCollector, half_setHalf]
      by_cases he : t' = t ∧ i' = old
      · obtain ⟨rfl, rfl⟩ := he
        simp [InnerBuffer.empty]
      · have hne : ¬ some (t, old) = some (t', i') := fun hs => by
          obtain ⟨rfl, rfl⟩ := Prod.mk.inj (Option.some.inj hs)
          exact he ⟨rfl, rfl⟩
        rw [if_neg (by simp), if_neg he, if_neg hne]
    have hcur : s.current = total.seqs := by rw [current, hc]
    rw [Conserved, hcur] at h
    rw [Conserved, hw]
    exact h
  | @unlockBuffer t rest old total hc =>
    refine h.move rfl rfl rfl (by simp [current, hc, setCollector]) (reading_eq hc fun _ => by simp) ?_
    simp only [reading, setCollector]
  | @finish stage total hc =>
    have hnone : s.reading = none := by rw [reading, hc]
    have hw : ({ s.setCollector .idle with results := s.results ++ [total] } :
        Metrics Thread Name V).waiting config = s.waiting config := waiting_congr fun t' i' => by
      rw [unread, unread, hnone]
      rfl
    have hcur : s.current = total.seqs := by rw [current, hc]
    rw [Conserved, hcur] at h
    rw [Conserved, hw]
    change ((s.results ++ [total]).map Totals.seqs).sum + 0 + _ = _
    rw [List.map_append, List.sum_append, List.map_singleton, List.sum_singleton, add_zero]
    exact h

/-- Every entry is the stored update at its place. -/
structure Recorded (s : Metrics Thread Name V) : Prop where
  half : ∀ t i, ∀ e ∈ (s.half t i).log, s.stored[e.seq]? = some (t, e.name, e.value)
  total : ∀ rest stage total, s.collector = .collecting rest stage total →
    ∀ e ∈ total.parts.flatten, ∃ t, s.stored[e.seq]? = some (t, e.name, e.value)
  results : ∀ total ∈ s.results, ∀ e ∈ total.parts.flatten, ∃ t, s.stored[e.seq]? = some (t, e.name, e.value)

theorem recorded_start : Recorded (start : Metrics Thread Name V) :=
  ⟨fun _ _ _ he => (by cases he), fun _ _ _ h => (by cases h), fun _ h => (by cases h)⟩

theorem Step.stored_prefix (hs : Step config s e s') : s.stored <+: s'.stored := by
  cases hs with
  | @update t type name value idx hw buf stored hbuf =>
    cases stored with
    | true => exact List.prefix_append _ _
    | false => exact List.prefix_rfl
  | _ => exact List.prefix_rfl

theorem Step.recorded (hs : Step config s e s') (h : Recorded s) : Recorded s' := by
  have grow : ∀ {n : Nat} {x : Thread × Name × V}, s.stored[n]? = some x → s'.stored[n]? = some x := by
    intro n x hn
    obtain ⟨more, hmore⟩ := hs.stored_prefix
    obtain ⟨hlt, -⟩ := List.getElem?_eq_some_iff.mp hn
    rw [← hmore, List.getElem?_append_left hlt, hn]
  -- The collector goes on without reading.
  have advance : ∀ {rest stage total rest' stage'}, s.collector = .collecting rest stage total →
      Recorded (s.setCollector (.collecting rest' stage' total)) := by
    intro rest stage total rest' stage' hc
    refine ⟨h.half, fun rest₁ stage₁ total₁ he => ?_, h.results⟩
    obtain ⟨-, -, rfl⟩ := Collector.collecting.inj he
    exact h.total _ _ _ hc
  cases hs with
  | load w hw ht hw' => exact ⟨h.half, h.total, h.results⟩
  | lock hw hu => exact ⟨h.half, h.total, h.results⟩
  | @update t type name value idx hw buf stored hbuf =>
    refine ⟨fun t' i' e' he => ?_, fun rest stage total hc e' he => ?_, fun total hm e' he => ?_⟩
    · change e' ∈ ((s.setHalf t idx buf).half t' i').log at he
      rw [half_setHalf] at he
      split_ifs at he with hti
      · have hlog := InnerBuffer.log_update config (s.half t idx) s.stored.length type name value
        rw [hbuf] at hlog
        rw [hlog] at he
        obtain ⟨rfl, rfl⟩ := hti
        cases stored with
        | false => exact grow (h.half _ _ e' he)
        | true =>
          rcases List.mem_append.mp he with he | he
          · exact grow (h.half _ _ e' he)
          · rw [List.mem_singleton.mp he]
            exact List.getElem?_concat_length
      · exact grow (h.half _ _ e' he)
    · obtain ⟨t', ht'⟩ := h.total _ _ _ hc e' he
      exact ⟨t', grow ht'⟩
    · obtain ⟨t', ht'⟩ := h.results total hm e' he
      exact ⟨t', grow ht'⟩
  | unlock hw => exact ⟨h.half, h.total, h.results⟩
  | collect hc =>
    refine ⟨h.half, fun rest stage total he => ?_, h.results⟩
    obtain ⟨-, -, rfl⟩ := Collector.collecting.inj he
    exact fun e he => by cases he
  | loadIdx hc => exact advance hc
  | exchange hc =>
    refine ⟨fun t' i' => ?_, fun rest stage total he => ?_, h.results⟩
    · rw [half_setCollector, half_setWriteIdx]
      exact h.half t' i'
    · obtain ⟨-, -, rfl⟩ := Collector.collecting.inj he
      exact h.total _ _ _ hc
  | lockBuffer hc hs => exact advance hc
  | @read t rest old total hc =>
    refine ⟨h.half, fun rest stage total₁ he e' hm => ?_, h.results⟩
    obtain ⟨-, -, rfl⟩ := Collector.collecting.inj he
    simp only [Totals.read, List.flatten_append, List.flatten_singleton, List.mem_append] at hm
    rcases hm with hm | hm
    · exact h.total _ _ _ hc e' hm
    · exact ⟨t, h.half t old e' hm⟩
  | @clear t rest old total hc =>
    refine ⟨fun t' i' e' he => ?_, fun rest stage total he => ?_, h.results⟩
    · rw [half_setCollector, half_setHalf] at he
      split_ifs at he
      · cases he
      · exact h.half t' i' e' he
    · obtain ⟨-, -, rfl⟩ := Collector.collecting.inj he
      exact h.total _ _ _ hc
  | unlockBuffer hc => exact advance hc
  | @finish stage total hc =>
    refine ⟨h.half, fun _ _ _ he => (by cases he), fun total' hm => ?_⟩
    rcases List.mem_append.mp hm with hm | hm
    · exact h.results total' hm
    · rw [List.mem_singleton.mp hm]
      exact h.total _ _ _ hc

end Metrics

end UnifiedCache.SharedMetrics
