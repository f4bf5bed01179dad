import UnifiedCache.Lib.Shares
import UnifiedCache.Posix.Lookup

/-! A lookup that returns has the result of a check for each block: the caller finds the status
still good only where each context has gone through its worker. -/

namespace UnifiedCache.PosixStore.SpaceManager

open StepSystem

variable {config : Config} {s s' : SpaceManager} {call w i : Nat} {ctx : LookupContext} {job : Job}
  {caller : Caller}

/-- The contexts that a call of `Lookup` makes. -/
def contexts (s : SpaceManager) (call : Nat) : List LookupContext :=
  (s.blocks call).mapIdx fun i block => ⟨block, i, call⟩

/-- What holds a context that no worker is done with. -/
inductive Place where
  | caller (call : Nat)
  | queue
  | job (w : Nat)
  | finished
  deriving DecidableEq

def Caller.owed (ctxs : List LookupContext) : Caller → List LookupContext
  | .pushing i => ctxs.drop i
  | _ => []

def Job.owed : Job → List LookupContext
  | .idle => []
  | .checkingStatus ctx => [ctx]
  | .accessing ctx => [ctx]
  | .storing ctx _ => [ctx]
  | .finishing ctx => [ctx]
  | .returning _ => []

def places (s : SpaceManager) : Place → List LookupContext
  | .caller call => (s.callers call).owed (s.contexts call)
  | .queue => s.queue
  | .job w => (s.jobs w).owed
  | .finished => s.finished

/-- The result of the check is in the result vector. -/
def Stored (s : SpaceManager) (ctx : LookupContext) : Prop :=
  ∃ access, s.checked ctx = some access ∧ (s.founds ctx.call)[ctx.index]? = some (lookup access)

def Settled (s : SpaceManager) (ctx : LookupContext) : Prop := s.statuses ctx.call ≠ .ok ∨ Stored s ctx

def Caller.hasRead : Caller → Prop
  | .moving => True
  | .returned _ => True
  | _ => False

def Caller.answers : Caller → Prop
  | .moving => True
  | .returned (some _) => True
  | _ => False

def JobOk (s : SpaceManager) : Job → Prop
  | .storing ctx found => ∃ access, s.checked ctx = some access ∧ found = lookup access
  | .finishing ctx => Settled s ctx
  | .returning ctx => ctx ∈ s.finished
  | _ => True

/-- The latch counts the contexts that no worker is done with. -/
def Counted (s : SpaceManager) (call : Nat) : Prop :=
  s.counters call = ((s.contexts call).filter (· ∉ s.finished)).length

def CallerOk (s : SpaceManager) (call : Nat) : Caller → Prop
  | .idle => s.blocks call = [] ∧ s.early call = false
  | .pushing _ => s.statuses call = .ok → Counted s call
  | .waiting => s.statuses call = .ok → Counted s call
  | .reading => s.statuses call = .ok → ∀ ctx ∈ s.contexts call, ctx ∈ s.finished
  | .moving => ∀ ctx ∈ s.contexts call, ctx ∈ s.finished ∧ Stored s ctx
  | .returned none => s.statuses call ≠ .ok
  | .returned (some founds) => founds.length = (s.blocks call).length ∧ ∀ ctx ∈ s.contexts call,
      ctx ∈ s.finished ∧ ∃ access, s.checked ctx = some access ∧ founds[ctx.index]? = some (lookup access)

def MonitorOk (s : SpaceManager) : Monitor → Prop
  | .exchanging ctx => ctx ∈ s.contexts ctx.call
  | .finishing ctx => ctx ∈ s.contexts ctx.call ∧
      (s.statuses ctx.call ≠ .ok ∨ (s.callers ctx.call).hasRead)
  | _ => True

structure Inv (s : SpaceManager) : Prop where
  shares : Shares s.places fun ctx => ctx ∈ s.contexts ctx.call
  jobs : ∀ w, JobOk s (s.jobs w)
  done : ∀ ctx ∈ s.finished, Settled s ctx
  callers : ∀ call, CallerOk s call (s.callers call)
  monitor : MonitorOk s s.monitor
  early : ∀ call, s.early call = true → s.statuses call ≠ .ok ∧ ¬ (s.callers call).answers
  lengths : ∀ call, (s.founds call).length = (s.blocks call).length

/-- The exchange of a timeout fails without a reason only where the caller has read the status. -/
def LateSpurious (s : SpaceManager) : Event → Prop
  | .monitor spurious =>
    spurious = true → ∀ ctx, s.monitor = .exchanging ctx → (s.callers ctx.call).hasRead
  | _ => True

theorem mem_contexts_iff : ctx ∈ s.contexts call ↔
    (s.blocks call)[ctx.index]? = some ctx.block ∧ ctx.call = call := by
  simp only [contexts, List.mem_mapIdx]
  constructor
  · rintro ⟨i, hi, rfl⟩
    exact ⟨List.getElem?_eq_getElem hi, rfl⟩
  · rintro ⟨hb, rfl⟩
    obtain ⟨hi, he⟩ := List.getElem?_eq_some_iff.mp hb
    exact ⟨ctx.index, hi, by rw [he]⟩

theorem nodup_contexts (s : SpaceManager) (call : Nat) : (s.contexts call).Nodup := by
  have hindex : ((s.contexts call).map LookupContext.index).Nodup := by
    have hmap : (s.contexts call).map LookupContext.index = List.range (s.blocks call).length := by
      refine List.ext_getElem (by simp [contexts]) fun i h₁ h₂ => ?_
      simp [contexts]
    rw [hmap]
    exact List.nodup_range
  exact List.Nodup.of_map _ hindex

theorem contexts_congr (h : s'.blocks call = s.blocks call) : s'.contexts call = s.contexts call := by
  simp only [contexts, h]

theorem Inv.mem_contexts (h : Inv s) (hj : ctx ∈ (s.jobs w).owed) : ctx ∈ s.contexts ctx.call :=
  (h.shares.cover ctx).mpr ⟨.job w, hj⟩

theorem Inv.not_finished (h : Inv s) (hj : ctx ∈ (s.jobs w).owed) : ctx ∉ s.finished :=
  fun hf => by cases h.shares.disjoint (.job w) .finished ctx hj hf

theorem eq_of_index {ctx' : LookupContext} (h : ctx ∈ s.contexts call) (h' : ctx' ∈ s.contexts call)
    (he : ctx.index = ctx'.index) : ctx = ctx' := by
  obtain ⟨hb, hc⟩ := mem_contexts_iff.mp h
  obtain ⟨hb', hc'⟩ := mem_contexts_iff.mp h'
  rw [he, hb'] at hb
  cases ctx
  cases ctx'
  simp_all

structure Untouched (s s' : SpaceManager) (ctx : LookupContext) : Prop where
  checked : s'.checked ctx = s.checked ctx
  founds : (s'.founds ctx.call)[ctx.index]? = (s.founds ctx.call)[ctx.index]?

theorem Stored.keep (h : Stored s ctx) (hu : Untouched s s' ctx) : Stored s' ctx := by
  obtain ⟨access, hc, hf⟩ := h
  exact ⟨access, hu.checked.trans hc, hu.founds.trans hf⟩

theorem Settled.keep (h : Settled s ctx) (hu : Untouched s s' ctx)
    (hs : s'.statuses ctx.call = .ok → s.statuses ctx.call = .ok) : Settled s' ctx :=
  h.imp (fun hne he => hne (hs he)) fun h => h.keep hu

theorem JobOk.keep (h : JobOk s job) (hu : ∀ ctx ∈ job.owed, Untouched s s' ctx)
    (hs : ∀ call, s'.statuses call = .ok → s.statuses call = .ok) (hf : s.finished ⊆ s'.finished) :
    JobOk s' job := by
  cases job with
  | storing ctx found =>
    obtain ⟨access, hc, hf⟩ := h
    exact ⟨access, (hu ctx (List.mem_singleton_self _)).checked.trans hc, hf⟩
  | finishing ctx => exact h.keep (hu ctx (List.mem_singleton_self _)) (hs ctx.call)
  | returning ctx => exact hf h
  | _ => trivial

theorem CallerOk.keep (h : CallerOk s call caller) (hb : s'.blocks call = s.blocks call)
    (he : caller = .idle → s'.early call = s.early call)
    (hs : s'.statuses call = .ok → s.statuses call = .ok) (hf : s.finished ⊆ s'.finished)
    (hu : ∀ ctx ∈ s.finished, Untouched s s' ctx)
    (hc : ¬ caller.hasRead → s'.statuses call = .ok → Counted s call → Counted s' call) :
    CallerOk s' call caller := by
  cases caller with
  | idle => exact ⟨hb.trans h.1, (he rfl).trans h.2⟩
  | pushing i => exact fun hok => hc (fun h => h) hok (h (hs hok))
  | waiting => exact fun hok => hc (fun h => h) hok (h (hs hok))
  | reading =>
    intro hok ctx hm
    rw [contexts_congr hb] at hm
    exact hf (h (hs hok) ctx hm)
  | moving =>
    intro ctx hm
    rw [contexts_congr hb] at hm
    obtain ⟨hfin, hst⟩ := h ctx hm
    exact ⟨hf hfin, hst.keep (hu ctx hfin)⟩
  | returned founds =>
    cases founds with
    | none => exact fun hok => h (hs hok)
    | some founds =>
      refine ⟨h.1.trans (by rw [hb]), fun ctx hm => ?_⟩
      rw [contexts_congr hb] at hm
      obtain ⟨hfin, access, hch, hfound⟩ := h.2 ctx hm
      exact ⟨hf hfin, access, (hu ctx hfin).checked.trans hch, hfound⟩

def Monitor.context : Monitor → Option LookupContext
  | .exchanging ctx => some ctx
  | .finishing ctx => some ctx
  | _ => none

theorem MonitorOk.keep {monitor : Monitor} (h : MonitorOk s monitor)
    (hm : ∀ ctx ∈ monitor.context, ctx ∈ s.contexts ctx.call → ctx ∈ s'.contexts ctx.call)
    (hs : ∀ ctx ∈ monitor.context, s'.statuses ctx.call = .ok → s.statuses ctx.call = .ok)
    (hr : ∀ ctx ∈ monitor.context, (s.callers ctx.call).hasRead → (s'.callers ctx.call).hasRead) :
    MonitorOk s' monitor := by
  cases monitor with
  | exchanging ctx => exact hm ctx rfl h
  | finishing ctx =>
    exact ⟨hm ctx rfl h.1, h.2.imp (fun hne he => hne (hs ctx rfl he)) fun hread => hr ctx rfl hread⟩
  | _ => trivial

theorem MonitorOk.mem_contexts {monitor : Monitor} (h : MonitorOk s monitor) :
    ∀ ctx ∈ monitor.context, ctx ∈ s.contexts ctx.call := by
  intro ctx hctx
  cases monitor with
  | exchanging ctx' =>
    cases hctx
    exact h
  | finishing ctx' =>
    cases hctx
    exact h.1
  | idle => cases hctx
  | stopping => cases hctx

/-- The contexts change hands, and no more than that. -/
theorem Inv.sameRest (h : Inv s) (hshares : Shares s'.places fun ctx => ctx ∈ s'.contexts ctx.call)
    (hb : s'.blocks = s.blocks) (hf : s'.founds = s.founds) (hs : s'.statuses = s.statuses)
    (hc : s'.counters = s.counters) (hch : s'.checked = s.checked) (hfin : s'.finished = s.finished)
    (he : s'.early = s.early) (hcallers : s'.callers = s.callers) (hjobs : ∀ w, JobOk s' (s'.jobs w))
    (hm : MonitorOk s' s'.monitor) : Inv s' := by
  have hu : ∀ ctx, Untouched s s' ctx := fun ctx => ⟨by rw [hch], by rw [hf]⟩
  refine ⟨hshares, hjobs, fun ctx hd => ?_, fun call => ?_, hm, ?_, ?_⟩
  · exact (h.done ctx (hfin ▸ hd)).keep (hu ctx) (by rw [hs]; exact fun h => h)
  · rw [hcallers]
    refine (h.callers call).keep (by rw [hb]) (fun _ => by rw [he]) (by rw [hs]; exact fun h => h)
      (by rw [hfin]; exact List.Subset.refl _) (fun ctx _ => hu ctx) fun _ _ hcount => ?_
    rw [Counted, hc, contexts_congr (congrFun hb call), hfin]
    exact hcount
  · rw [he, hs, hcallers]
    exact h.early
  · rw [hf, hb]
    exact h.lengths

theorem places_congr (hq : s'.queue = s.queue) (hf : s'.finished = s.finished)
    (hcallers : ∀ call, (s'.callers call).owed (s'.contexts call) = (s.callers call).owed (s.contexts call))
    (hj : ∀ w, (s'.jobs w).owed = (s.jobs w).owed) : s'.places = s.places := by
  funext p
  cases p with
  | caller call => exact hcallers call
  | queue => exact hq
  | job w => exact hj w
  | finished => exact hf

theorem owed_setJob (hj : job.owed = (s.jobs w).owed) (w' : Nat) :
    ((s.setJob w job).jobs w').owed = (s.jobs w').owed := by
  by_cases hw : w' = w
  · subst hw
    simp only [setJob, Function.update_self]
    exact hj
  · simp only [setJob, Function.update_of_ne hw]

theorem contexts_of_idle (h : Inv s) (hidle : s.callers call = .idle) : s.contexts call = [] := by
  have hk := h.callers call
  rw [hidle] at hk
  simp only [contexts, hk.1, List.mapIdx_nil]

/-- A call of `Lookup` goes on; the contexts of other calls are left alone. -/
theorem Inv.ofCaller (h : Inv s) {queue : List LookupContext}
    (hshares : Shares ({ s with queue := queue }.setCaller call caller).places
      fun ctx => ctx ∈ s.contexts ctx.call)
    (hself : CallerOk s call caller) (hread : (s.callers call).hasRead → caller.hasRead)
    (hearly : s.early call = true → ¬ caller.answers) :
    Inv ({ s with queue := queue }.setCaller call caller) := by
  have hat : ({ s with queue := queue }.setCaller call caller).callers call = caller := Function.update_self ..
  have hne : ∀ c, c ≠ call → ({ s with queue := queue }.setCaller call caller).callers c = s.callers c :=
    fun c hc => Function.update_of_ne hc ..
  have hkeep : ∀ c caller', CallerOk s c caller' →
      CallerOk ({ s with queue := queue }.setCaller call caller) c caller' := by
    intro c caller' hc
    exact hc.keep rfl (fun _ => rfl) (fun h => h) (List.Subset.refl _) (fun _ _ => ⟨rfl, rfl⟩) fun _ _ h => h
  refine ⟨hshares, fun w => (h.jobs w).keep (fun _ _ => ⟨rfl, rfl⟩) (fun _ h => h) fun _ h => h,
    fun ctx hd => (h.done ctx hd).keep ⟨rfl, rfl⟩ fun h => h, fun c => ?_, ?_, fun c he => ?_, h.lengths⟩
  · by_cases hc : c = call
    · subst hc
      rw [hat]
      exact hkeep c caller hself
    · rw [hne c hc]
      exact hkeep c _ (h.callers c)
  · refine h.monitor.keep (fun _ _ h => h) (fun _ _ h => h) fun ctx _ hr => ?_
    by_cases hc : ctx.call = call
    · rw [hc, hat]
      exact hread (hc ▸ hr)
    · rw [hne _ hc]
      exact hr
  · by_cases hc : c = call
    · subst hc
      rw [hat]
      exact ⟨(h.early c he).1, hearly he⟩
    · rw [hne c hc]
      exact h.early c he

theorem shares_setCaller (h : Inv s) (howed : caller.owed (s.contexts call) = (s.callers call).owed (s.contexts call)) :
    Shares (s.setCaller call caller).places fun ctx => ctx ∈ s.contexts ctx.call := by
  have hp : (s.setCaller call caller).places = s.places := by
    refine places_congr rfl rfl (fun c => ?_) fun _ => rfl
    show ((Function.update s.callers call caller) c).owed (s.contexts c) = _
    by_cases hc : c = call
    · subst hc
      rw [Function.update_self]
      exact howed
    · rw [Function.update_of_ne hc]
  rw [hp]
  exact h.shares

theorem Inv.callerNext (h : Inv s) (hs : s.callerNext call (s.callers call) = some s') : Inv s' := by
  have hk := h.callers call
  cases hc : s.callers call with
  | idle =>
    rw [hc] at hs
    cases hs
  | pushing i =>
    rw [hc] at hs hk
    simp only [SpaceManager.callerNext] at hs
    cases hb : (s.blocks call)[i]? with
    | some block =>
      rw [hb] at hs
      obtain rfl := Option.some.inj hs
      refine h.ofCaller ?_ hk (by rw [hc]; exact fun h => h) fun _ h => h
      obtain ⟨hi, hblock⟩ := List.getElem?_eq_some_iff.mp hb
      have hdrop : (s.contexts call).drop i = ⟨block, i, call⟩ :: (s.contexts call).drop (i + 1) := by
        rw [List.drop_eq_getElem_cons (by simpa [contexts] using hi)]
        simp [contexts, hblock]
      have hp : ({ s with queue := s.queue ++ [LookupContext.mk block i call] }.setCaller call
          (.pushing (i + 1))).places =
          Function.update (Function.update s.places (.caller call) ((s.contexts call).drop (i + 1))) .queue
            (s.queue ++ [⟨block, i, call⟩]) := by
        funext p
        cases p with
        | caller c =>
          rw [Function.update_of_ne (by simp)]
          by_cases hcc : c = call
          · subst hcc
            rw [Function.update_self]
            show ((Function.update s.callers c _) c).owed _ = _
            rw [Function.update_self]
            rfl
          · rw [Function.update_of_ne (by simp [hcc])]
            show ((Function.update s.callers call _) c).owed _ = _
            rw [Function.update_of_ne hcc]
            rfl
        | queue => rw [Function.update_self]; rfl
        | job w => rw [Function.update_of_ne (by simp), Function.update_of_ne (by simp)]; rfl
        | finished => rw [Function.update_of_ne (by simp), Function.update_of_ne (by simp)]; rfl
      rw [hp]
      refine h.shares.move (i := .caller call) (j := .queue) (x := ⟨block, i, call⟩) (by simp) ?_ ?_
        fun p hp₁ hp₂ => ?_
      · rw [Function.update_of_ne (by simp), Function.update_self]
        refine List.Perm.of_eq ?_
        rw [← hdrop, places, hc]
        rfl
      · rw [Function.update_self]
        exact List.perm_append_comm
      · rw [Function.update_of_ne hp₂, Function.update_of_ne hp₁]
    | none =>
      rw [hb] at hs
      obtain rfl := Option.some.inj hs
      refine h.ofCaller (shares_setCaller h ?_) hk (by rw [hc]; exact fun h => h) fun _ h => h
      have hlen : (s.contexts call).length ≤ i := by
        simpa [contexts] using List.getElem?_eq_none_iff.mp hb
      rw [hc]
      exact (List.drop_eq_nil_of_le hlen).symm
  | waiting =>
    rw [hc] at hs hk
    simp only [SpaceManager.callerNext] at hs
    split_ifs at hs with hzero
    obtain rfl := Option.some.inj hs
    refine h.ofCaller (shares_setCaller h (by rw [hc]; rfl)) (fun hok ctx hm => ?_) (by rw [hc]; exact fun h => h)
      fun _ h => h
    have hcount := hk hok
    rw [Counted, hzero] at hcount
    have hnil := List.filter_eq_nil_iff.mp (List.length_eq_zero_iff.mp hcount.symm) ctx hm
    simpa using hnil
  | reading =>
    rw [hc] at hs hk
    simp only [SpaceManager.callerNext] at hs
    obtain rfl := Option.some.inj hs
    by_cases hok : s.statuses call = .ok
    · rw [if_pos hok]
      refine h.ofCaller (shares_setCaller h (by rw [hc]; rfl)) (fun ctx hm => ⟨hk hok ctx hm, ?_⟩)
        (fun _ => trivial) fun he _ => (h.early call he).1 hok
      refine (h.done ctx (hk hok ctx hm)).resolve_left fun hne => hne ?_
      rw [(mem_contexts_iff.mp hm).2]
      exact hok
    · rw [if_neg hok]
      exact h.ofCaller (shares_setCaller h (by rw [hc]; rfl)) hok (fun _ => trivial) fun _ h => h
  | moving =>
    rw [hc] at hs hk
    obtain rfl := Option.some.inj hs
    refine h.ofCaller (shares_setCaller h (by rw [hc]; rfl)) ⟨h.lengths call, fun ctx hm => ?_⟩ (fun _ => trivial)
      fun he _ => (h.early call he).2 (by rw [hc]; trivial)
    obtain ⟨hfin, access, hch, hf⟩ := hk ctx hm
    rw [(mem_contexts_iff.mp hm).2] at hf
    exact ⟨hfin, access, hch, hf⟩
  | returned founds =>
    rw [hc] at hs
    cases hs

/-- A worker goes on with the context that it holds. -/
theorem Inv.ofWorker {j : Job} (h : Inv s) (hjob : j.owed = (s.jobs w).owed) (hself : JobOk s' j)
    (hjobs : s'.jobs = Function.update s.jobs w j) (hqueue : s'.queue = s.queue)
    (hfin : s'.finished = s.finished) (hcallers : s'.callers = s.callers) (hb : s'.blocks = s.blocks)
    (hs : s'.statuses = s.statuses) (hc : s'.counters = s.counters) (he : s'.early = s.early)
    (hm : s'.monitor = s.monitor) (hl : ∀ call, (s'.founds call).length = (s.founds call).length)
    (hu : ∀ ctx, ctx ∈ s.finished ∨ (∃ w', w' ≠ w ∧ ctx ∈ (s.jobs w').owed) → Untouched s s' ctx) :
    Inv s' := by
  have hstatus : ∀ call, s'.statuses call = .ok → s.statuses call = .ok := fun call => by rw [hs]; exact fun h => h
  have hplaces : s'.places = s.places := by
    refine places_congr hqueue hfin (fun call => ?_) fun w' => ?_
    · rw [hcallers, contexts_congr (congrFun hb call)]
    · rw [hjobs]
      exact owed_setJob hjob w'
  refine ⟨?_, fun w' => ?_, fun ctx hd => ?_, fun call => ?_, ?_, fun call => ?_, fun call => ?_⟩
  · rw [hplaces]
    simpa only [contexts, hb] using h.shares
  · rw [hjobs]
    by_cases hw : w' = w
    · rw [hw, Function.update_self]
      exact hself
    · rw [Function.update_of_ne hw]
      exact (h.jobs w').keep (fun ctx hctx => hu ctx (Or.inr ⟨w', hw, hctx⟩)) hstatus (by rw [hfin]; exact fun _ h => h)
  · rw [hfin] at hd
    exact (h.done ctx hd).keep (hu ctx (Or.inl hd)) (hstatus ctx.call)
  · rw [hcallers]
    refine (h.callers call).keep (by rw [hb]) (fun _ => by rw [he]) (hstatus call)
      (by rw [hfin]; exact List.Subset.refl _) (fun ctx hd => hu ctx (Or.inl hd)) fun _ _ hcount => ?_
    rw [Counted, hc, contexts_congr (congrFun hb call), hfin]
    exact hcount
  · rw [hm]
    refine h.monitor.keep (fun ctx _ h => ?_) (fun ctx _ => hstatus ctx.call) fun ctx _ hr => by rw [hcallers]; exact hr
    rw [contexts_congr (congrFun hb ctx.call)]
    exact h
  · rw [he, hs, hcallers]
    exact h.early call
  · rw [hl, hb]
    exact h.lengths call

theorem Inv.ne_of_owed {ctx' : LookupContext} (h : Inv s) (hj : ctx ∈ (s.jobs w).owed)
    (hc : ctx' ∈ s.finished ∨ ∃ w', w' ≠ w ∧ ctx' ∈ (s.jobs w').owed) : ctx' ≠ ctx := by
  rintro rfl
  rcases hc with hf | ⟨w', hw, hj'⟩
  · exact h.not_finished hj hf
  · exact hw (Place.job.inj (h.shares.disjoint (.job w') (.job w) ctx' hj' hj))

theorem Inv.mem_contexts_of {ctx' : LookupContext} (h : Inv s)
    (hc : ctx' ∈ s.finished ∨ ∃ w', w' ≠ w ∧ ctx' ∈ (s.jobs w').owed) : ctx' ∈ s.contexts ctx'.call := by
  rcases hc with hf | ⟨w', _, hj'⟩
  · exact (h.shares.cover ctx').mpr ⟨.finished, hf⟩
  · exact h.mem_contexts hj'

theorem Inv.finish (h : Inv s) (hj : s.jobs w = .finishing ctx) :
    Inv ({ s.done ctx.call with finished := ctx :: s.finished }.setJob w (.returning ctx)) := by
  have howed : ctx ∈ (s.jobs w).owed := by rw [hj]; exact List.mem_singleton_self _
  have hsettled := h.jobs w
  rw [hj] at hsettled
  have hnot := h.not_finished howed
  refine ⟨?_, fun w' => ?_, fun c hd => ?_, fun call => ?_, ?_, h.early, h.lengths⟩
  · refine h.shares.move (i := .job w) (j := .finished) (x := ctx) (by simp) ?_ (List.Perm.refl _)
      fun p hp₁ hp₂ => ?_
    · show ((s.jobs w).owed).Perm (ctx :: ((Function.update s.jobs w (.returning ctx)) w).owed)
      rw [hj, Function.update_self]
      exact List.Perm.refl _
    · cases p with
      | caller call => rfl
      | queue => rfl
      | job w' =>
        show ((Function.update s.jobs w (.returning ctx)) w').owed = _
        rw [Function.update_of_ne fun he : w' = w => hp₁ (by rw [he])]
        rfl
      | finished => exact absurd rfl hp₂
  · show JobOk _ ((Function.update s.jobs w (.returning ctx)) w')
    by_cases hw : w' = w
    · rw [hw, Function.update_self]
      exact List.mem_cons_self ..
    · rw [Function.update_of_ne hw]
      exact (h.jobs w').keep (fun _ _ => ⟨rfl, rfl⟩) (fun _ h => h) (List.subset_cons_self ..)
  · rcases List.mem_cons.mp hd with rfl | hd
    · exact Settled.keep hsettled ⟨rfl, rfl⟩ fun h => h
    · exact (h.done c hd).keep ⟨rfl, rfl⟩ fun h => h
  · refine (h.callers call).keep rfl (fun _ => rfl) (fun h => h) (List.subset_cons_self ..) (fun _ _ => ⟨rfl, rfl⟩)
      fun _ _ hcount => ?_
    show Function.update s.counters ctx.call (s.counters ctx.call - 1) call =
      ((s.contexts call).filter (· ∉ ctx :: s.finished)).length
    by_cases hc : call = ctx.call
    · subst hc
      have hperm := List.filter_notMem_cons (nodup_contexts s ctx.call) (h.mem_contexts howed) hnot
      have hlength := hperm.length_eq
      rw [List.length_cons] at hlength
      rw [Function.update_self, hcount, hlength, Nat.add_sub_cancel]
    · rw [Function.update_of_ne hc, hcount]
      refine congrArg List.length (List.filter_congr fun x hx => ?_)
      have hne : x ≠ ctx := fun he => hc ((mem_contexts_iff.mp hx).2.symm.trans (by rw [he]))
      simp [hne]
  · exact h.monitor.keep (fun _ _ h => h) (fun _ _ h => h) fun _ _ h => h

theorem Inv.workerNext {access : Access} (h : Inv s) (hs : s.workerNext w access (s.jobs w) = some s') :
    Inv s' := by
  cases hj : s.jobs w with
  | idle =>
    rw [hj] at hs
    cases hs
  | checkingStatus ctx =>
    rw [hj] at hs
    obtain rfl := Option.some.inj hs
    refine h.ofWorker (w := w) ?_ ?_ rfl rfl rfl rfl rfl rfl rfl rfl rfl (fun _ => rfl) fun _ _ => ⟨rfl, rfl⟩
    · rw [hj]
      split_ifs <;> rfl
    · by_cases hok : s.statuses ctx.call = .ok
      · rw [if_pos hok]
        trivial
      · rw [if_neg hok]
        exact Or.inl hok
  | accessing ctx =>
    rw [hj] at hs
    obtain rfl := Option.some.inj hs
    have howed : ctx ∈ (s.jobs w).owed := by rw [hj]; exact List.mem_singleton_self _
    refine h.ofWorker (w := w) (j := .storing ctx (lookup access)) (by rw [hj]; rfl)
      ⟨access, Function.update_self .., rfl⟩ rfl rfl rfl rfl rfl rfl rfl rfl rfl
      (fun _ => rfl) fun c hc => ⟨Function.update_of_ne (h.ne_of_owed howed hc) .., rfl⟩
  | storing ctx found =>
    rw [hj] at hs
    obtain rfl := Option.some.inj hs
    have howed : ctx ∈ (s.jobs w).owed := by rw [hj]; exact List.mem_singleton_self _
    have hctx := h.mem_contexts howed
    have hch := h.jobs w
    rw [hj] at hch
    obtain ⟨access, hch, rfl⟩ := hch
    have hindex : ctx.index < (s.founds ctx.call).length := by
      rw [h.lengths]
      exact (List.getElem?_eq_some_iff.mp (mem_contexts_iff.mp hctx).1).1
    refine h.ofWorker (w := w) (j := .finishing ctx) (by rw [hj]; rfl) (Or.inr ⟨access, hch, ?_⟩) rfl rfl rfl rfl rfl rfl rfl rfl rfl
      (fun call => ?_) fun c hc => ⟨rfl, ?_⟩
    · show (Function.update s.founds ctx.call ((s.founds ctx.call).set ctx.index (lookup access)) ctx.call)[ctx.index]? = _
      rw [Function.update_self, List.getElem?_set_self hindex]
    · show (Function.update s.founds ctx.call ((s.founds ctx.call).set ctx.index (lookup access)) call).length = _
      by_cases hcall : call = ctx.call
      · rw [hcall, Function.update_self, List.length_set]
      · rw [Function.update_of_ne hcall]
    · show (Function.update s.founds ctx.call ((s.founds ctx.call).set ctx.index (lookup access)) c.call)[c.index]? = _
      by_cases hcall : c.call = ctx.call
      · have hne : ctx.index ≠ c.index := fun he =>
          h.ne_of_owed howed hc (eq_of_index (h.mem_contexts_of hc) (hcall ▸ hctx) he.symm)
        rw [hcall, Function.update_self, List.getElem?_set_ne hne]
      · rw [Function.update_of_ne hcall]
  | finishing ctx =>
    rw [hj] at hs
    exact Option.some.inj hs ▸ h.finish hj
  | returning ctx =>
    rw [hj] at hs
    obtain rfl := Option.some.inj hs
    exact h.ofWorker (w := w) (j := .idle) (by rw [hj]; rfl) trivial rfl rfl rfl rfl rfl rfl rfl rfl rfl (fun _ => rfl)
      fun _ _ => ⟨rfl, rfl⟩

theorem Inv.lookup {blocks : List BlockId} (h : Inv s) (hidle : s.callers call = .idle) :
    Inv ({ s with
      blocks := Function.update s.blocks call blocks
      founds := Function.update s.founds call (List.replicate blocks.length 0)
      statuses := Function.update s.statuses call .ok
      counters := Function.update s.counters call blocks.length }.setCaller call (.pushing 0)) := by
  set s₁ := { s with
    blocks := Function.update s.blocks call blocks
    founds := Function.update s.founds call (List.replicate blocks.length 0)
    statuses := Function.update s.statuses call .ok
    counters := Function.update s.counters call blocks.length }.setCaller call (.pushing 0) with hs₁
  have hnil := contexts_of_idle h hidle
  have hold : ∀ ctx, ctx ∈ s.contexts ctx.call → ctx.call ≠ call := by
    intro ctx hm hc
    rw [hc, hnil] at hm
    cases hm
  have hblocks : ∀ c, c ≠ call → s₁.blocks c = s.blocks c := fun c hc => Function.update_of_ne hc ..
  have hcontexts : ∀ c, c ≠ call → s₁.contexts c = s.contexts c := fun c hc => contexts_congr (hblocks c hc)
  have hstatus : ∀ c, c ≠ call → s₁.statuses c = s.statuses c := fun c hc => Function.update_of_ne hc ..
  have hcallers : ∀ c, c ≠ call → s₁.callers c = s.callers c := fun c hc => Function.update_of_ne hc ..
  have hat : s₁.callers call = .pushing 0 := Function.update_self ..
  have hu : ∀ ctx, ctx ∈ s.contexts ctx.call → Untouched s s₁ ctx := by
    intro ctx hm
    refine ⟨rfl, ?_⟩
    show (Function.update s.founds call (List.replicate blocks.length 0) ctx.call)[ctx.index]? = _
    rw [Function.update_of_ne (hold ctx hm)]
  have hjob : ∀ w, ∀ ctx ∈ (s.jobs w).owed, ctx ∈ s.contexts ctx.call := fun w ctx => h.mem_contexts
  have hdone : ∀ ctx ∈ s.finished, ctx ∈ s.contexts ctx.call := fun ctx hd =>
    (h.shares.cover ctx).mpr ⟨.finished, hd⟩
  have hlength : (s₁.contexts call).length = blocks.length := by
    simp [contexts, s₁, setCaller]
  refine ⟨?_, fun w => ?_, fun ctx hd => ?_, fun c => ?_, ?_, fun c he => ?_, fun c => ?_⟩
  · refine h.shares.add (i := .caller call) (s₁.contexts call) (nodup_contexts s₁ call) (fun x hx hm => ?_)
      (fun x => ?_) ?_ fun p hp => ?_
    · exact hold x hm (mem_contexts_iff.mp hx).2
    · by_cases hc : x.call = call
      · rw [hc, hnil]
        simp
      · rw [hcontexts _ hc]
        exact (or_iff_right fun hx => hc (mem_contexts_iff.mp hx).2).symm
    · show ((s₁.callers call).owed (s₁.contexts call)).Perm
        (s₁.contexts call ++ (s.callers call).owed (s.contexts call))
      rw [hat, hidle]
      simp [Caller.owed]
    · cases p with
      | caller c =>
        have hc : c ≠ call := fun he => hp (he ▸ rfl)
        show (s₁.callers c).owed (s₁.contexts c) = _
        rw [hcallers c hc, hcontexts c hc]
        rfl
      | queue => rfl
      | job w => rfl
      | finished => rfl
  · show JobOk s₁ (s.jobs w)
    cases hj : s.jobs w with
    | storing ctx found =>
      have hk := h.jobs w
      rw [hj] at hk
      exact hk
    | finishing ctx =>
      have hk := h.jobs w
      rw [hj] at hk
      have hm := hjob w ctx (by rw [hj]; exact List.mem_singleton_self _)
      exact Settled.keep hk (hu ctx hm) (by rw [hstatus _ (hold ctx hm)]; exact fun h => h)
    | returning ctx =>
      have hk := h.jobs w
      rw [hj] at hk
      exact hk
    | _ => trivial
  · exact (h.done ctx hd).keep (hu ctx (hdone ctx hd)) (by rw [hstatus _ (hold ctx (hdone ctx hd))]; exact fun h => h)
  · by_cases hc : c = call
    · subst hc
      rw [hat]
      intro _
      show Function.update s.counters c blocks.length c = _
      rw [Function.update_self, ← hlength]
      refine congrArg List.length (List.filter_eq_self.mpr fun x hx => ?_).symm
      have hnot : x ∉ s₁.finished := fun hf => hold x (hdone x hf) (mem_contexts_iff.mp hx).2
      exact decide_eq_true hnot
    · rw [hcallers c hc]
      refine (h.callers c).keep (hblocks c hc) (fun _ => rfl) (by rw [hstatus c hc]; exact fun h => h)
        (List.Subset.refl _) (fun ctx hd => hu ctx (hdone ctx hd)) fun _ _ hcount => ?_
      show Function.update s.counters call blocks.length c = _
      rw [Function.update_of_ne hc, hcontexts c hc]
      exact hcount
  · show MonitorOk s₁ s.monitor
    have hctx := h.monitor.mem_contexts
    refine h.monitor.keep (fun ctx hc hm => ?_) (fun ctx hc => ?_) fun ctx hc hr => ?_
    · rw [hcontexts _ (hold ctx hm)]
      exact hm
    · rw [hstatus _ (hold ctx (hctx ctx hc))]
      exact fun h => h
    · rw [hcallers _ (hold ctx (hctx ctx hc))]
      exact hr
  · by_cases hc : c = call
    · subst hc
      have hk := h.callers c
      rw [hidle] at hk
      have hfalse : s.early c = true := he
      rw [hk.2] at hfalse
      cases hfalse
    · rw [hstatus c hc, hcallers c hc]
      exact h.early c he
  · show (Function.update s.founds call (List.replicate blocks.length 0) c).length =
      (Function.update s.blocks call blocks c).length
    by_cases hc : c = call
    · subst hc
      rw [Function.update_self, Function.update_self, List.length_replicate]
    · rw [Function.update_of_ne hc, Function.update_of_ne hc]
      exact h.lengths c

theorem Inv.pop {queue : List LookupContext} (h : Inv s) (hj : s.jobs w = .idle)
    (hq : s.queue = ctx :: queue) : Inv ({ s with queue := queue }.setJob w (.checkingStatus ctx)) := by
  refine h.sameRest ?_ rfl rfl rfl rfl rfl rfl rfl rfl (fun w' => ?_) ?_
  · refine h.shares.move (i := .queue) (j := .job w) (x := ctx) (by simp) (List.Perm.of_eq hq) ?_ fun p hp₁ hp₂ => ?_
    · show ((Function.update s.jobs w (.checkingStatus ctx)) w).owed.Perm (ctx :: (s.jobs w).owed)
      rw [Function.update_self, hj]
      exact List.Perm.refl _
    · cases p with
      | caller call => rfl
      | queue => exact absurd rfl hp₁
      | job w' =>
        show ((Function.update s.jobs w (.checkingStatus ctx)) w').owed = _
        rw [Function.update_of_ne fun he : w' = w => hp₂ (by rw [he])]
        rfl
      | finished => rfl
  · show JobOk _ (Function.update s.jobs w (.checkingStatus ctx) w')
    by_cases hw : w' = w
    · rw [hw, Function.update_self]
      trivial
    · rw [Function.update_of_ne hw]
      exact (h.jobs w').keep (fun _ _ => ⟨rfl, rfl⟩) (fun _ h => h) fun _ h => h
  · exact h.monitor.keep (fun _ _ h => h) (fun _ _ h => h) fun _ _ h => h

/-- A timeout is for a context that a worker holds or has just done. -/
theorem Inv.timeout (h : Inv s) (hc : (s.jobs w).context = some ctx) :
    Inv { s with watched := w, monitor := .exchanging ctx } := by
  refine h.sameRest h.shares rfl rfl rfl rfl rfl rfl rfl rfl (fun w' => ?_) ?_
  · exact (h.jobs w').keep (fun _ _ => ⟨rfl, rfl⟩) (fun _ h => h) fun _ h => h
  · show ctx ∈ s.contexts ctx.call
    cases hj : s.jobs w with
    | returning ctx' =>
      have hk := h.jobs w
      rw [hj] at hk hc
      cases hc
      exact (h.shares.cover ctx).mpr ⟨.finished, hk⟩
    | idle =>
      rw [hj] at hc
      cases hc
    | _ =>
      rw [hj] at hc
      cases hc
      exact h.mem_contexts (w := w) (by rw [hj]; exact List.mem_singleton_self _)

theorem exchange_ok {spurious : Bool} {status : Status} (h : exchange spurious status = .ok) :
    status = .ok ∧ spurious = true := by
  cases status with
  | ok =>
    cases spurious with
    | true => exact ⟨rfl, rfl⟩
    | false => cases h
  | timeout => cases h

/-- A caller that answers has seen the checks of all its contexts. -/
theorem Inv.checked_of_answers (h : Inv s) (ha : (s.callers call).answers) (hm : ctx ∈ s.contexts call) :
    s.checked ctx ≠ none := by
  have hk := h.callers call
  cases hc : s.callers call with
  | moving =>
    rw [hc] at hk
    obtain ⟨_, found, hch, _⟩ := hk ctx hm
    simp [hch]
  | returned founds =>
    rw [hc] at hk ha
    cases founds with
    | none => exact ha.elim
    | some founds =>
      obtain ⟨_, found, hch, _⟩ := hk.2 ctx hm
      simp [hch]
  | _ =>
    rw [hc] at ha
    exact ha.elim

theorem Inv.status_of_hasRead (h : Inv s) (hr : (s.callers call).hasRead) (ha : ¬ (s.callers call).answers) :
    s.statuses call ≠ .ok := by
  have hk := h.callers call
  cases hc : s.callers call with
  | returned founds =>
    rw [hc] at hk ha
    cases founds with
    | none => exact hk
    | some founds => exact absurd trivial ha
  | moving =>
    rw [hc] at ha
    exact absurd trivial ha
  | _ =>
    rw [hc] at hr
    exact hr.elim

/-- The status of the call is no longer good, or its caller has read it before. -/
theorem Inv.exchange {spurious : Bool} (h : Inv s) (hm : s.monitor = .exchanging ctx)
    (hg : spurious = true → (s.callers ctx.call).hasRead) :
    Inv { s with
      statuses := Function.update s.statuses ctx.call (exchange spurious (s.statuses ctx.call))
      early := Function.update s.early ctx.call (s.early ctx.call || (s.checked ctx).isNone)
      monitor := .finishing ctx } := by
  have hctx : ctx ∈ s.contexts ctx.call := h.monitor.mem_contexts ctx (by rw [hm]; rfl)
  have hstatus : ∀ call, Function.update s.statuses ctx.call
      (SpaceManager.exchange spurious (s.statuses ctx.call)) call = .ok → s.statuses call = .ok := by
    intro call hok
    by_cases hc : call = ctx.call
    · rw [hc, Function.update_self] at hok
      rw [hc]
      exact (exchange_ok hok).1
    · rwa [Function.update_of_ne hc] at hok
  refine ⟨h.shares, fun w => ?_, fun c hd => ?_, fun call => ?_, ⟨hctx, ?_⟩, fun call he => ?_, h.lengths⟩
  · exact (h.jobs w).keep (fun _ _ => ⟨rfl, rfl⟩) hstatus fun _ h => h
  · exact (h.done c hd).keep ⟨rfl, rfl⟩ (hstatus c.call)
  · refine (h.callers call).keep rfl (fun hidle => ?_) (hstatus call) (fun _ h => h) (fun _ _ => ⟨rfl, rfl⟩)
      fun _ _ h => h
    refine Function.update_of_ne ?_ ..
    rintro rfl
    rw [contexts_of_idle h hidle] at hctx
    cases hctx
  · show Function.update s.statuses ctx.call _ ctx.call ≠ .ok ∨ (s.callers ctx.call).hasRead
    rw [Function.update_self]
    by_cases hr : (s.callers ctx.call).hasRead
    · exact Or.inr hr
    · exact Or.inl fun hok => hr (hg (exchange_ok hok).2)
  · show Function.update s.statuses ctx.call _ call ≠ .ok ∧ ¬ (s.callers call).answers
    have hnew : s.early call = true ∨ call = ctx.call ∧ s.checked ctx = none := by
      by_cases hc : call = ctx.call
      · subst hc
        have he' : (s.early ctx.call || (s.checked ctx).isNone) = true := by
          simpa only [Function.update_self] using he
        exact (Bool.or_eq_true_iff.mp he').imp_right fun hn => ⟨rfl, Option.isNone_iff_eq_none.mp hn⟩
      · exact Or.inl (by simpa only [Function.update_of_ne hc] using he)
    rcases hnew with he | ⟨rfl, hnone⟩
    · exact ⟨fun hok => (h.early call he).1 (hstatus call hok), (h.early call he).2⟩
    · have ha : ¬ (s.callers ctx.call).answers := fun ha => h.checked_of_answers ha hctx hnone
      refine ⟨fun hok => ?_, ha⟩
      rw [Function.update_self] at hok
      obtain ⟨hok, hs⟩ := exchange_ok hok
      exact h.status_of_hasRead (hg hs) ha hok

/-- The monitor's call of `Done` is for a call whose latch no longer matters. -/
theorem Inv.monitorDone (h : Inv s) (hm : s.monitor = .finishing ctx) :
    Inv { s.done ctx.call with monitor := .stopping } := by
  have hk := h.monitor
  rw [hm] at hk
  refine ⟨h.shares, fun w => ?_, fun c hd => ?_, fun call => ?_, trivial, h.early, h.lengths⟩
  · exact (h.jobs w).keep (fun _ _ => ⟨rfl, rfl⟩) (fun _ h => h) fun _ h => h
  · exact (h.done c hd).keep ⟨rfl, rfl⟩ fun h => h
  · refine (h.callers call).keep rfl (fun _ => rfl) (fun h => h) (fun _ h => h) (fun _ _ => ⟨rfl, rfl⟩)
      fun hr hok hcount => ?_
    show Function.update s.counters ctx.call _ call = _
    have hc : call ≠ ctx.call := by
      rintro rfl
      exact hk.2.elim (fun hne => hne hok) hr
    rw [Function.update_of_ne hc]
    exact hcount

theorem Inv.step {e : Event} (h : Inv s) (hg : LateSpurious s e) (hs : s.step config e = some s') :
    Inv s' := by
  cases e with
  | lookup call blocks =>
    simp only [SpaceManager.step] at hs
    split at hs
    next hc => exact Option.some.inj hs ▸ h.lookup hc
    next => cases hs
  | caller call => exact h.callerNext hs
  | pop w =>
    simp only [SpaceManager.step] at hs
    split at hs
    next ctx queue hj hq =>
      split_ifs at hs with hw
      exact Option.some.inj hs ▸ h.pop hj hq
    next => cases hs
  | worker w access => exact h.workerNext hs
  | timeout w =>
    simp only [SpaceManager.step] at hs
    split at hs
    next ctx hm hc =>
      split_ifs at hs with hw
      exact Option.some.inj hs ▸ h.timeout hc
    next => cases hs
  | monitor spurious =>
    cases hm : s.monitor with
    | idle =>
      simp only [SpaceManager.step, monitorNext, hm] at hs
      cases hs
    | exchanging ctx =>
      simp only [SpaceManager.step, monitorNext, hm] at hs
      exact Option.some.inj hs ▸ h.exchange hm fun hsp => hg hsp ctx hm
    | finishing ctx =>
      simp only [SpaceManager.step, monitorNext, hm] at hs
      exact Option.some.inj hs ▸ h.monitorDone hm
    | stopping =>
      simp only [SpaceManager.step, monitorNext, hm] at hs
      obtain rfl := Option.some.inj hs
      exact h.sameRest h.shares rfl rfl rfl rfl rfl rfl rfl rfl
        (fun w => (h.jobs w).keep (fun _ _ => ⟨rfl, rfl⟩) (fun _ h => h) fun _ h => h) trivial

theorem inv_setup : Inv setup where
  shares :=
    { nodup := fun p => by cases p <;> exact List.nodup_nil
      disjoint := fun p _ _ h => by cases p <;> cases h
      cover := fun ctx => iff_of_false (fun h => by cases h) fun ⟨p, h⟩ => by cases p <;> cases h }
  jobs := fun _ => trivial
  done := fun _ h => by cases h
  callers := fun _ => ⟨rfl, rfl⟩
  monitor := trivial
  early := fun _ h => by cases h
  lengths := fun _ => rfl

/-- The answer has an entry for each block, the result of its check, and there is none where a
context was timed out before its check. -/
def Real (s : SpaceManager) : Prop :=
  ∀ call answer, s.callers call = .returned answer →
    (∀ founds, answer = some founds → founds.length = (s.blocks call).length ∧
      ∀ i block, (s.blocks call)[i]? = some block →
        ∃ access, s.checked ⟨block, i, call⟩ = some access ∧ founds[i]? = some (lookup access)) ∧
    (s.early call = true → answer = none)

theorem Inv.real (h : Inv s) : Real s := by
  intro call answer hc
  have hk := h.callers call
  rw [hc] at hk
  refine ⟨fun founds ha => ?_, fun he => ?_⟩
  · subst ha
    refine ⟨hk.1, fun i block hb => ?_⟩
    obtain ⟨_, access, hch, hf⟩ := hk.2 ⟨block, i, call⟩ (mem_contexts_iff.mpr ⟨hb, rfl⟩)
    exact ⟨access, hch, hf⟩
  · cases answer with
    | none => rfl
    | some founds => exact absurd (by rw [hc]; trivial) (h.early call he).2

theorem real_of_reach (h : Reach (step config) LateSpurious setup s) : Real s := by
  have hi := h.invariant Inv inv_setup fun s e s' hi hg hs => hi.step hg hs
  exact hi.real

def Config.twoWorkers : Config := ⟨2⟩

/-- Two checks that are done in the other order. -/
def lookupsTwo : List Event :=
  [.lookup 0 [Vector.replicate 16 1, Vector.replicate 16 2], .caller 0, .caller 0, .caller 0, .pop 0, .pop 1,
    .worker 1 .ok, .worker 0 .ok, .worker 1 .notFound, .worker 0 .ok, .worker 1 .ok, .worker 1 .ok,
    .worker 0 .ok, .worker 0 .ok, .caller 0, .caller 0, .caller 0]

def isExact : Event → Bool
  | .monitor spurious => !spurious
  | _ => true

theorem real_lookupsTwo : ∃ s, Reach (step .twoWorkers) LateSpurious setup s ∧
    s.callers 0 = .returned (some [1, 0]) ∧ Real s := by
  have hrun : (run (StepSystem.checked (fun _ e => isExact e) (step .twoWorkers)) setup lookupsTwo).any
      fun s => s.callers 0 = .returned (some [1, 0]) := by decide +kernel
  obtain ⟨s, hs, he⟩ := (Option.any_eq_true _ _).mp hrun
  have hguard : ∀ s e, isExact e = true → LateSpurious s e := by
    intro s e he
    cases e with
    | monitor spurious =>
      intro hsp
      rw [hsp] at he
      cases he
    | _ => trivial
  have hreach := Reach.start.checked hguard hs
  exact ⟨s, hreach, of_decide_eq_true he, real_of_reach hreach⟩

/-- The exchange of a timeout fails for no reason: the answer says that the block is absent, and
nobody has looked. -/
theorem not_real_spurious : ∃ s, Reach (step .twoWorkers) (fun _ _ => True) setup s ∧
    s.callers 0 = .returned (some [0]) ∧ s.checked ⟨Vector.replicate 16 1, 0, 0⟩ = none ∧ ¬ Real s := by
  have hrun : (run (step .twoWorkers) setup
      [.lookup 0 [Vector.replicate 16 1], .caller 0, .caller 0, .pop 0, .timeout 0, .monitor true,
        .monitor true, .caller 0, .caller 0, .caller 0]).any fun s =>
      s.callers 0 = .returned (some [0]) ∧ s.checked ⟨Vector.replicate 16 1, 0, 0⟩ = none ∧
        s.early 0 = true := by decide +kernel
  obtain ⟨s, hs, he⟩ := (Option.any_eq_true _ _).mp hrun
  obtain ⟨hcaller, hchecked, hearly⟩ := of_decide_eq_true he
  refine ⟨s, Reach.start.run (fun _ _ _ => trivial) hs, hcaller, hchecked, fun hreal => ?_⟩
  have hnone := (hreal 0 _ hcaller).2 hearly
  cases hnone

end UnifiedCache.PosixStore.SpaceManager
