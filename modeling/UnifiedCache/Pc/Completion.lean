import UnifiedCache.HashSetRoom
import UnifiedCache.Pc.Watching

/-! Every unit of a task is finished once, and the latch of the task counts the units that are not
finished. -/

namespace UnifiedCache.PcStore.TransManager

open StepSystem

variable {config : Config} {m m' m₁ : TransManager} {id : TaskHandle} {k : WorkerId} {unit : BlockTask}
  {stage : Stage} {w : Nat} {e : Event}

/-- Each unit of a task is at one place, and the latch counts those that are not finished. -/
structure Owed (m : TransManager) : Prop where
  shares : Shares m.places fun unit => ∃ p ∈ m.tasks, unit ∈ p.2.units p.1
  counters : ∀ p ∈ m.tasks, m.counters p.1 = ((p.2.units p.1).filter (· ∉ m.finished)).length
  ids : (m.tasks.map Prod.fst).Nodup
  old : ∀ p ∈ m.tasks, p.1 < m.nextId
  fresh : ∀ id, m.nextId ≤ id → m.places (.dispatch id) = []

theorem units_nodup (task : TransTask) (id : TaskHandle) : (task.units id).Nodup := by
  have hblocks : ((task.units id).map BlockTask.block).Nodup := by
    have h := task.nodup
    simpa [TransTask.units, Function.comp_def] using h
  exact List.Nodup.of_map _ hblocks

theorem owner_of_mem_units {task : TransTask} (h : unit ∈ task.units id) : unit.owner = id := by
  obtain ⟨g, _, rfl⟩ := List.mem_map.mp h
  rfl

theorem length_units (task : TransTask) (id : TaskHandle) : (task.units id).length = task.groupNumber :=
  List.length_map ..

namespace Effect

theorem owed_done (ho : Owed m) {i : Place} (hne : i ≠ .finished) (hu : unit ∈ m.places i)
    (hf : m'.finished = unit :: m.finished) (ht : m'.tasks = m.tasks)
    (hc : m'.counters = Function.update m.counters unit.owner (m.counters unit.owner - 1)) :
    ∀ p ∈ m'.tasks, m'.counters p.1 = ((p.2.units p.1).filter (· ∉ m'.finished)).length := by
  intro p hp
  rw [ht] at hp
  have hnot : unit ∉ m.finished := fun h => hne (ho.shares.disjoint i .finished unit hu h)
  obtain ⟨q, hq, huq⟩ := (ho.shares.cover unit).mpr ⟨i, hu⟩
  have howner := owner_of_mem_units huq
  have hcount := ho.counters p hp
  rw [hc, hf]
  by_cases hid : p.1 = unit.owner
  · have hpq : p = q := List.inj_on_of_nodup_map ho.ids hp hq (hid.trans howner)
    subst hpq
    have hsplit : ((p.2.units p.1).filter (· ∉ m.finished)).Perm
        (unit :: (p.2.units p.1).filter (· ∉ unit :: m.finished)) :=
      List.filter_notMem_cons (units_nodup p.2 p.1) huq hnot
    have hlength := hsplit.length_eq
    rw [List.length_cons] at hlength
    rw [hid, Function.update_self, ← hid]
    omega
  · rw [Function.update_of_ne hid, hcount]
    refine congrArg List.length (List.filter_congr fun x hx => ?_)
    have hx : x ≠ unit := by
      rintro rfl
      exact hid (owner_of_mem_units hx).symm
    simp [hx]

theorem owed (h : Effect m m') (ho : Owed m) : Owed m' := by
  induction h with
  | @keep m m' hp ht hc =>
    have hf : m'.finished = m.finished := congrFun hp .finished
    refine ⟨?_, ?_, ?_, ?_, fun id hid => ?_⟩
    · rw [hp, ht.1]
      exact ho.shares
    · rw [ht.1, hc, hf]
      exact ho.counters
    · rw [ht.1]
      exact ho.ids
    · rw [ht.1, ht.2]
      exact ho.old
    · rw [hp]
      exact ho.fresh id (ht.2 ▸ hid)
  | @move m m' l i j hne hi' hj' hi hj hother ht hc =>
    have hf : m'.finished = m.finished := hother .finished hi'.symm hj'.1.symm
    refine ⟨?_, ?_, ?_, ?_, fun id hid => ?_⟩
    · rw [ht.1]
      exact ho.shares.transfer l hne hi hj hother
    · rw [ht.1, hc, hf]
      exact ho.counters
    · rw [ht.1]
      exact ho.ids
    · rw [ht.1, ht.2]
      exact ho.old
    · have hnil := ho.fresh id (ht.2 ▸ hid)
      by_cases hid' : Place.dispatch id = i
      · subst hid'
        rw [hnil] at hi
        exact (List.append_eq_nil_iff.mp hi.symm.eq_nil).2
      · rw [hother _ hid' (hj'.2 id).symm]
        exact hnil
  | @finish m m' unit i hne hi hj hother ht hc =>
    have hu : unit ∈ m.places i := hi.mem_iff.mpr (List.mem_cons_self ..)
    refine ⟨?_, owed_done ho hne hu hj ht.1 hc, ?_, ?_, fun id hid => ?_⟩
    · rw [ht.1]
      exact ho.shares.move hne hi (List.Perm.of_eq hj) hother
    · rw [ht.1]
      exact ho.ids
    · rw [ht.1, ht.2]
      exact ho.old
    · have hnil := ho.fresh id (ht.2 ▸ hid)
      by_cases hid' : Place.dispatch id = i
      · subst hid'
        rw [hnil] at hu
        cases hu
      · rw [hother _ hid' (by simp)]
        exact hnil
  | @submit m m' task hp ht hn hc =>
    have hf : m'.finished = m.finished := by
      show m'.places .finished = m.places .finished
      rw [hp, Function.update_of_ne (by simp)]
    have hnew : ∀ unit ∈ task.units m.nextId, ¬ ∃ p ∈ m.tasks, unit ∈ p.2.units p.1 := by
      rintro unit hu ⟨p, hpm, hup⟩
      have hold := ho.old p hpm
      rw [← owner_of_mem_units hup, owner_of_mem_units hu] at hold
      exact lt_irrefl _ hold
    refine ⟨?_, fun p hpm => ?_, ?_, fun p hpm => ?_, fun id hid => ?_⟩
    · refine ho.shares.add (i := .dispatch m.nextId) (task.units m.nextId) (units_nodup _ _) hnew ?_ ?_ ?_
      · intro unit
        rw [ht]
        simp
      · rw [hp, Function.update_self, ho.fresh m.nextId le_rfl, List.append_nil]
      · intro k hk
        rw [hp, Function.update_of_ne hk]
    · rw [ht] at hpm
      rw [hc, hf]
      rcases List.mem_cons.mp hpm with rfl | hpm
      · rw [Function.update_self, ← length_units task m.nextId]
        refine congrArg List.length (List.filter_eq_self.mpr fun unit hu => ?_).symm
        have hnot : unit ∉ m.finished := fun h => hnew unit hu ((ho.shares.cover unit).mpr ⟨.finished, h⟩)
        exact decide_eq_true hnot
      · rw [Function.update_of_ne (ho.old p hpm).ne]
        exact ho.counters p hpm
    · rw [ht, List.map_cons, List.nodup_cons]
      refine ⟨fun hm => ?_, ho.ids⟩
      obtain ⟨p, hpm, he⟩ := List.mem_map.mp hm
      exact (ho.old p hpm).ne he
    · rw [ht] at hpm
      rw [hn]
      rcases List.mem_cons.mp hpm with rfl | hpm
      · exact Nat.lt_succ_self _
      · exact Nat.lt_succ_of_lt (ho.old p hpm)
    · rw [hn] at hid
      have hne : Place.dispatch id ≠ .dispatch m.nextId := fun h => (Place.dispatch.inj h ▸ hid).not_gt (Nat.lt_succ_self _)
      rw [hp, Function.update_of_ne hne]
      exact ho.fresh id (Nat.le_of_succ_le hid)
  | trans _ _ ih ih' => exact ih' (ih ho)

/-- No latch is counted up. -/
theorem counters_le (h : Effect m m') :
    m.nextId ≤ m'.nextId ∧ ∀ id, id < m.nextId → m'.counters id ≤ m.counters id := by
  induction h with
  | keep hp ht hc => exact ⟨ht.2.ge, fun id _ => by rw [hc]⟩
  | move l i j hne hi' hj' hi hj hother ht hc => exact ⟨ht.2.ge, fun id _ => by rw [hc]⟩
  | @finish m m' unit i hne hi hj hother ht hc =>
    refine ⟨ht.2.ge, fun id _ => ?_⟩
    rw [hc]
    by_cases hid : id = unit.owner
    · rw [hid, Function.update_self]
      omega
    · rw [Function.update_of_ne hid]
  | @submit m m' task hp ht hn hc =>
    refine ⟨hn ▸ Nat.le_succ _, fun id hid => ?_⟩
    rw [hc, Function.update_of_ne hid.ne]
  | trans _ _ ih ih' =>
    exact ⟨ih.1.trans ih'.1, fun id hid => (ih'.2 id (hid.trans_le ih.1)).trans (ih.2 id hid)⟩

end Effect

/-- A `Wait` that has passed the latch found it at zero. -/
structure Waited (m : TransManager) : Prop where
  submitted : ∀ id, m.waits id ≠ .idle → id < m.nextId
  passed : ∀ id, (m.waits id).passed → m.counters id = 0

theorem Waiting.ne_idle_of_passed {wait : Waiting} (h : wait.passed) : wait ≠ .idle := by
  rintro rfl
  exact h

theorem Waited.keep (h : Waited m) (hn : m.nextId ≤ m'.nextId)
    (hle : ∀ id, id < m.nextId → m'.counters id ≤ m.counters id) (hw : m'.waits = m.waits) : Waited m' := by
  refine ⟨fun id hid => (h.submitted id (hw ▸ hid)).trans_le hn, fun id hpass => ?_⟩
  rw [hw] at hpass
  have hlt := h.submitted id (Waiting.ne_idle_of_passed hpass)
  exact Nat.le_zero.mp ((h.passed id hpass) ▸ hle id hlt)

theorem Waited.wait {wait : Waiting} (h : Waited m) (hn : m.nextId ≤ m'.nextId)
    (hle : ∀ id, id < m.nextId → m'.counters id ≤ m.counters id)
    (hw : m'.waits = Function.update m.waits id wait) (hid : m.waits id ≠ .idle ∨ id < m.nextId)
    (hpass : wait.passed → (m.waits id).passed ∨ m.counters id = 0) : Waited m' := by
  have hlt : id < m.nextId := hid.elim (h.submitted id) fun h => h
  refine ⟨fun id' hid' => ?_, fun id' hpass' => ?_⟩
  · by_cases he : id' = id
    · exact he ▸ hlt.trans_le hn
    · rw [hw, Function.update_of_ne he] at hid'
      exact (h.submitted id' hid').trans_le hn
  · by_cases he : id' = id
    · subst he
      rw [hw, Function.update_self] at hpass'
      have hzero := (hpass hpass').elim (h.passed id') fun h => h
      exact Nat.le_zero.mp (hzero ▸ hle id' hlt)
    · rw [hw, Function.update_of_ne he] at hpass'
      have hlt' := h.submitted id' (Waiting.ne_idle_of_passed hpass')
      exact Nat.le_zero.mp ((h.passed id' hpass') ▸ hle id' hlt')

/-- What holds in every run whose late loads hang. -/
structure Inv (m : TransManager) : Prop where
  typed : Typed m
  watching : Watching m
  owed : Owed m
  room : m.Room
  waited : Waited m

theorem places_setup (p : Place) : setup.places p = [] := by
  cases p with
  | pool pool => cases pool <;> rfl
  | _ => rfl

theorem inv_setup : Inv setup where
  typed := ⟨fun _ _ h => (List.not_mem_nil h).elim, fun _ _ _ h => by cases h⟩
  watching := ⟨fun _ h => (List.not_mem_nil h).elim, fun _ h => (List.not_mem_nil h).elim,
    fun _ _ h => by cases h⟩
  owed :=
    { shares :=
        { nodup := fun p => places_setup p ▸ List.nodup_nil
          disjoint := fun p _ _ h => (List.not_mem_nil (places_setup p ▸ h)).elim
          cover := fun unit => ⟨fun ⟨_, h, _⟩ => (List.not_mem_nil h).elim,
            fun ⟨p, h⟩ => (List.not_mem_nil (places_setup p ▸ h)).elim⟩ }
      counters := fun _ h => (List.not_mem_nil h).elim
      ids := List.nodup_nil
      old := fun _ h => (List.not_mem_nil h).elim
      fresh := fun _ _ => rfl }
  room := HashSet.empty_room
  waited := ⟨fun _ h => absurd rfl h, fun _ h => h.elim⟩

theorem Inv.step (h : Inv m) (hg : HungLoads m e) (hs : m.step config e = some m') : Inv m' := by
  have hc := step_change h.typed hg hs
  have he := step_effect h.typed h.watching hg hs
  obtain ⟨hn, hle⟩ := he.counters_le
  have hrest : m'.Room ∧ Waited m' := by
    cases hc with
    | work k job hk hworks hw hfile => exact ⟨hworks.room h.room, h.waited.keep hn hle hworks.waits⟩
    | turn job hworks ht => exact ⟨hworks.room h.room, h.waited.keep hn hle hworks.waits⟩
    | dispatch id success d _ hd _ => exact ⟨hd.room h.room, h.waited.keep hn hle hd.waits⟩
    | submit d hd ht hf hj hw hwait hdrop hr => exact ⟨hr h.room, h.waited.keep hn hle hwait⟩
    | wait id wait hwait hid hpass hd hj hw hdrop hr =>
      exact ⟨hr h.room, h.waited.wait hn hle hwait hid hpass⟩
  exact ⟨hc.typed h.typed, hc.watching h.watching, he.owed h.owed, hrest.1, hrest.2⟩

theorem inv_of_reach {guard : TransManager → Event → Prop} (h : Reach (step config) guard setup m)
    (hg : ∀ m e, guard m e → HungLoads m e) : Inv m :=
  h.invariant Inv inv_setup fun m e _ hi he hs => hi.step (hg m e he) hs

/-- No unit of a dump is given up. -/
structure NoneDropped (m : TransManager) : Prop where
  few : ∀ id, (m.dispatches id).few
  dropped : m.dropped = []

theorem NoneDropped.step (h : NoneDropped m) (ht : Typed m) (hg : HungLoads m e)
    (hd : SmallFailedDumps m e) (hs : m.step config e = some m') : NoneDropped m' := by
  have hsame : m'.dispatches = m.dispatches → m'.dropped = m.dropped → NoneDropped m' := fun hd hdrop =>
    ⟨by rw [hd]; exact h.few, by rw [hdrop]; exact h.dropped⟩
  have hupdate : ∀ id d, m'.dispatches = Function.update m.dispatches id d → d.few →
      m'.dropped = m.dropped → NoneDropped m' := by
    intro id d hd hf hdrop
    refine ⟨fun id' => ?_, by rw [hdrop]; exact h.dropped⟩
    rw [hd]
    by_cases hid : id' = id
    · rw [hid, Function.update_self]
      exact hf
    · rw [Function.update_of_ne hid]
      exact h.few id'
  cases step_change ht hg hs with
  | work k job hk hworks hw hfile => exact hsame hworks.dispatches hworks.dropped
  | turn job hworks hturn => exact hsame hworks.dispatches hworks.dropped
  | dispatch id success d he hdis hf =>
    subst he
    exact hupdate id d hdis.dispatches (hf (h.few id) hd) (hdis.dropped (h.few id))
  | submit d hd htype hf hj hw hwait hdrop hr => exact hupdate m.nextId d hd hf hdrop
  | wait id wait hwait hid hpass hd hj hw hdrop hr => exact hsame hd hdrop

def doneCalls (m : TransManager) (id : TaskHandle) : Nat := m.finished.countP (·.owner = id)

/-- Nothing is under way, but for file workers that hang. -/
structure Quiet (m : TransManager) : Prop where
  dispatches : ∀ id, m.dispatches id = .none
  queues : ∀ pool, m.queues pool = []
  jobs : ∀ k, m.jobs k = .idle ∨ k = .monitor ∨ ∃ w ∈ m.hung, k = .file w

/-- A `Wait` for the task, left alone, returns. -/
def WaitReturns (config : Config) (m : TransManager) (id : TaskHandle) : Prop :=
  ∃ n m', run (step config) m (List.replicate n (.waitNext id false)) = some m' ∧ m'.waits id = .returned

def Completes (config : Config) (m : TransManager) : Prop :=
  ∀ p ∈ m.tasks, doneCalls m p.1 + m.counters p.1 = p.2.groupNumber ∧
    (m.Quiet → doneCalls m p.1 = p.2.groupNumber ∧ m.counters p.1 = 0 ∧
      (m.waits p.1 ≠ .idle → WaitReturns config m p.1))

def Config.oneWorker : Config := ⟨1, 1, fun h => h⟩

/-- The steps of a run without timeouts and failing copies. -/
def undisturbed (m : TransManager) : Event → Bool
  | .next (.file w) _ => w ∉ m.hung
  | .next .monitor _ => false
  | .dispatch _ success => success
  | _ => true

end UnifiedCache.PcStore.TransManager
