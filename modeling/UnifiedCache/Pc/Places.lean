import UnifiedCache.Lib.Shares
import UnifiedCache.Pc.TransManager

/-! Where the units of a task are, and what a step of the transfer manager does to them. -/

namespace UnifiedCache.PcStore.TransManager

/-- What holds a unit that is not finished, or has given it up. A dump in the file pool is
finished already. -/
inductive Place where
  | dispatch (id : TaskHandle)
  | pool (pool : Pool)
  | job (k : WorkerId)
  | dropped
  | finished
  deriving DecidableEq

def Dispatch.owed : Dispatch → List BlockTask
  | .none => []
  | .pushing units => units
  | .sharing units => units
  | .syncing units => units
  | .marking units => units
  | .failing units => units
  | .handing units => units
  | .acking unit units => unit :: units

def Pool.owed (units : List BlockTask) : Pool → List BlockTask
  | .file => units.filter (·.type = .load)
  | _ => units

variable {config : Config} {m m' m₁ : TransManager} {id : TaskHandle} {k : WorkerId} {unit : BlockTask}
  {stage : Stage} {w : Nat} {e : Event}

/-- A worker that has called `Done` or has handed its unit on has nothing left to do for it, and a
worker that hangs after a timeout does nothing any more. -/
def owed (m : TransManager) (k : WorkerId) : Job → List BlockTask
  | .idle => []
  | .running stage unit =>
    match k with
    | .file w => if unit.type = .load ∧ stage ≠ .returning ∧ w ∉ m.hung then [unit] else []
    | .monitor => []
    | .dev _ => [unit]
    | .share _ => [unit]

def places (m : TransManager) : Place → List BlockTask
  | .dispatch id => (m.dispatches id).owed
  | .pool pool => pool.owed (m.queues pool)
  | .job k => m.owed k (m.jobs k)
  | .dropped => m.dropped
  | .finished => m.finished

theorem Pool.owed_append (pool : Pool) (l l' : List BlockTask) :
    pool.owed (l ++ l') = pool.owed l ++ pool.owed l' := by
  cases pool with
  | file => exact List.filter_append l l'
  | _ => rfl

theorem places_ext (hd : m'.dispatches = m.dispatches) (hq : m'.queues = m.queues)
    (hj : m'.jobs = m.jobs) (hh : m'.hung = m.hung) (hr : m'.dropped = m.dropped)
    (hf : m'.finished = m.finished) : m'.places = m.places := by
  funext p
  cases p with
  | dispatch id => simp only [places, hd]
  | pool pool => simp only [places, hq]
  | job k =>
    simp only [places, hj]
    cases m.jobs k with
    | idle => rfl
    | running stage unit => simp only [owed, hh]
  | dropped => exact hr
  | finished => exact hf

theorem places_setDispatch (id : TaskHandle) (d : Dispatch) :
    (m.setDispatch id d).places = Function.update m.places (.dispatch id) d.owed := by
  funext p
  cases p with
  | dispatch id' =>
    by_cases hid : id' = id
    · subst hid
      simp [places]
    · simp [places, hid]
  | pool pool => simp [places]
  | job k => rw [Function.update_of_ne (by simp)]; rfl
  | dropped => simp [places]
  | finished => simp [places]

theorem places_push (pool : Pool) (units : List BlockTask) :
    (m.push pool units).places =
      Function.update m.places (.pool pool) (m.places (.pool pool) ++ pool.owed units) := by
  funext p
  cases p with
  | dispatch id => simp [places]
  | pool pool' =>
    by_cases hp : pool' = pool
    · subst hp
      simp [places, Pool.owed_append]
    · simp [places, hp]
  | job k => rw [Function.update_of_ne (by simp)]; rfl
  | dropped => simp [places]
  | finished => simp [places]

theorem places_setJob (k : WorkerId) (job : Job) :
    (m.setJob k job).places = Function.update m.places (.job k) (m.owed k job) := by
  funext p
  cases p with
  | dispatch id => simp [places]
  | pool pool => simp [places]
  | job k' =>
    by_cases hk : k' = k
    · subst hk
      rw [Function.update_self]
      simp only [places, setJob_jobs, Function.update_self]
      rfl
    · rw [Function.update_of_ne (by simp [hk])]
      simp only [places, setJob_jobs, Function.update_of_ne hk]
      rfl
  | dropped => simp [places]
  | finished => simp [places]

theorem places_setJob_of_owed {job : Job} (h : m.owed k job = m.owed k (m.jobs k)) :
    (m.setJob k job).places = m.places := by
  rw [places_setJob, h]
  exact Function.update_eq_self _ _

theorem places_done (unit : BlockTask) :
    (m.done unit).places = Function.update m.places .finished (unit :: m.finished) := by
  funext p
  cases p with
  | dispatch id => simp [places]
  | pool pool => simp [places]
  | job k => rw [Function.update_of_ne (by simp)]; rfl
  | dropped => simp [places]
  | finished => simp [places]

theorem places_setQueue (pool : Pool) (units : List BlockTask) :
    ({ m with queues := Function.update m.queues pool units } : TransManager).places =
      Function.update m.places (.pool pool) (pool.owed units) := by
  funext p
  cases p with
  | dispatch id => simp [places]
  | pool pool' =>
    by_cases hp : pool' = pool
    · subst hp
      simp [places]
    · simp [places, hp]
  | job k => rw [Function.update_of_ne (by simp)]; rfl
  | dropped => simp [places]
  | finished => simp [places]

/-- What a step does to the units: they go from one place to another, one is finished, or those of
a new task come in. -/
inductive Effect : TransManager → TransManager → Prop
  | keep {m m' : TransManager} (hp : m'.places = m.places)
      (ht : m'.tasks = m.tasks ∧ m'.nextId = m.nextId) (hc : m'.counters = m.counters) : Effect m m'
  | move {m m' : TransManager} (l : List BlockTask) (i j : Place) (hne : i ≠ j) (hi' : i ≠ .finished)
      (hj' : j ≠ .finished ∧ ∀ id, j ≠ .dispatch id) (hi : (m.places i).Perm (l ++ m'.places i))
      (hj : (m'.places j).Perm (l ++ m.places j))
      (hother : ∀ p, p ≠ i → p ≠ j → m'.places p = m.places p)
      (ht : m'.tasks = m.tasks ∧ m'.nextId = m.nextId) (hc : m'.counters = m.counters) : Effect m m'
  | finish {m m' : TransManager} (unit : BlockTask) (i : Place) (hne : i ≠ .finished)
      (hi : (m.places i).Perm (unit :: m'.places i)) (hj : m'.finished = unit :: m.finished)
      (hother : ∀ p, p ≠ i → p ≠ .finished → m'.places p = m.places p)
      (ht : m'.tasks = m.tasks ∧ m'.nextId = m.nextId)
      (hc : m'.counters = Function.update m.counters unit.owner (m.counters unit.owner - 1)) : Effect m m'
  | submit {m m' : TransManager} (task : TransTask)
      (hp : m'.places = Function.update m.places (.dispatch m.nextId) (task.units m.nextId))
      (ht : m'.tasks = (m.nextId, task) :: m.tasks) (hn : m'.nextId = m.nextId + 1)
      (hc : m'.counters = Function.update m.counters m.nextId task.groupNumber) : Effect m m'
  | trans {m m₁ m' : TransManager} (h : Effect m m₁) (h' : Effect m₁ m') : Effect m m'

namespace Effect

theorem setJob {job : Job} (h : m.owed k job = m.owed k (m.jobs k)) : Effect m (m.setJob k job) :=
  keep (places_setJob_of_owed h) ⟨rfl, rfl⟩ rfl

theorem take {pool : Pool} {units : List BlockTask} {job : Job} (hidle : m.jobs k = .idle)
    (hq : (m.queues pool).Perm (unit :: units)) (hjob : m.owed k job = pool.owed [unit]) :
    Effect m ({ m with queues := Function.update m.queues pool units }.setJob k job) := by
  have hp : ({ m with queues := Function.update m.queues pool units }.setJob k job).places =
      Function.update (Function.update m.places (.pool pool) (pool.owed units)) (.job k)
        (m.owed k job) := by
    rw [places_setJob, places_setQueue]
    rfl
  have hk : m.places (.job k) = [] := by simp only [places, hidle, owed]
  have hpool : (m.places (.pool pool)).Perm (pool.owed [unit] ++ pool.owed units) := by
    have hperm : (pool.owed (m.queues pool)).Perm (pool.owed (unit :: units)) := by
      cases pool with
      | file => exact hq.filter _
      | _ => exact hq
    exact hperm.trans (Pool.owed_append pool [unit] units ▸ List.Perm.refl _)
  refine move (pool.owed [unit]) (.pool pool) (.job k) (by simp) (by simp) ⟨by simp, by simp⟩ ?_ ?_
    (fun p hi hj => ?_) ⟨rfl, rfl⟩ rfl
  · rw [hp, Function.update_of_ne (by simp), Function.update_self]
    exact hpool
  · rw [hp, Function.update_self, hjob, hk, List.append_nil]
  · rw [hp, Function.update_of_ne hj, Function.update_of_ne hi]

theorem put {pool : Pool} {job : Job} (how : m.owed k (m.jobs k) = pool.owed [unit])
    (hjob : m.owed k job = []) : Effect m ((m.push pool [unit]).setJob k job) := by
  have hp : ((m.push pool [unit]).setJob k job).places =
      Function.update (Function.update m.places (.pool pool) (m.places (.pool pool) ++ pool.owed [unit]))
        (.job k) [] := by
    rw [places_setJob, places_push, ← hjob]
    rfl
  refine move (pool.owed [unit]) (.job k) (.pool pool) (by simp) (by simp) ⟨by simp, by simp⟩ ?_ ?_
    (fun p hi hj => ?_) ⟨rfl, rfl⟩ rfl
  · rw [hp, Function.update_self, List.append_nil]
    exact List.Perm.of_eq how
  · rw [hp, Function.update_of_ne (by simp), Function.update_self]
    exact List.perm_append_comm
  · rw [hp, Function.update_of_ne hi, Function.update_of_ne hj]

theorem doneJob {job : Job} (how : m.owed k (m.jobs k) = [unit]) (hjob : m.owed k job = []) :
    Effect m ((m.done unit).setJob k job) := by
  have hp : ((m.done unit).setJob k job).places =
      Function.update (Function.update m.places .finished (unit :: m.finished)) (.job k) [] := by
    rw [places_setJob, places_done, ← hjob]
    rfl
  refine finish unit (.job k) (by simp) ?_ rfl (fun p hi hj => ?_) ⟨rfl, rfl⟩ rfl
  · rw [hp, Function.update_self]
    exact List.Perm.of_eq how
  · rw [hp, Function.update_of_ne hi, Function.update_of_ne hj]

theorem setDispatch {d : Dispatch} (h : d.owed = (m.dispatches id).owed) :
    Effect m (m.setDispatch id d) := by
  refine keep ?_ ⟨rfl, rfl⟩ rfl
  rw [places_setDispatch, h]
  exact Function.update_eq_self _ _

theorem pushDispatch {pool : Pool} {units : List BlockTask} {d : Dispatch}
    (h : (m.dispatches id).owed = pool.owed units ++ d.owed) :
    Effect m ((m.push pool units).setDispatch id d) := by
  have hp : ((m.push pool units).setDispatch id d).places =
      Function.update (Function.update m.places (.pool pool) (m.places (.pool pool) ++ pool.owed units))
        (.dispatch id) d.owed := by rw [places_setDispatch, places_push]
  refine move (pool.owed units) (.dispatch id) (.pool pool) (by simp) (by simp) ⟨by simp, by simp⟩ ?_ ?_
    (fun p hi hj => ?_) ⟨rfl, rfl⟩ rfl
  · rw [hp, Function.update_self]
    exact List.Perm.of_eq h
  · rw [hp, Function.update_of_ne (by simp), Function.update_self]
    exact List.perm_append_comm
  · rw [hp, Function.update_of_ne hi, Function.update_of_ne hj]

theorem doneDispatch {d : Dispatch} (h : (m.dispatches id).owed = unit :: d.owed) :
    Effect m ((m.done unit).setDispatch id d) := by
  have hp : ((m.done unit).setDispatch id d).places =
      Function.update (Function.update m.places .finished (unit :: m.finished)) (.dispatch id) d.owed := by
    rw [places_setDispatch, places_done]
  refine finish unit (.dispatch id) (by simp) ?_ rfl (fun p hi hj => ?_) ⟨rfl, rfl⟩ rfl
  · rw [hp, Function.update_self]
    exact List.Perm.of_eq h
  · rw [hp, Function.update_of_ne hi, Function.update_of_ne hj]

theorem dropDispatch {units : List BlockTask} (h : (m.dispatches id).owed = units) :
    Effect m ({ m with dropped := units ++ m.dropped }.setDispatch id .none) := by
  have hd : ({ m with dropped := units ++ m.dropped } : TransManager).places =
      Function.update m.places .dropped (units ++ m.dropped) := by
    funext p
    cases p with
    | dropped => simp [places]
    | job k => rw [Function.update_of_ne (by simp)]; rfl
    | _ => simp [places]
  have hp : ({ m with dropped := units ++ m.dropped }.setDispatch id .none).places =
      Function.update (Function.update m.places .dropped (units ++ m.dropped)) (.dispatch id) [] := by
    rw [places_setDispatch, hd]
    rfl
  refine move units (.dispatch id) .dropped (by simp) (by simp) ⟨by simp, by simp⟩ ?_ ?_
    (fun p hi hj => ?_) ⟨rfl, rfl⟩ rfl
  · rw [hp, Function.update_self, List.append_nil]
    exact List.Perm.of_eq h
  · rw [hp, Function.update_of_ne (by simp), Function.update_self]
    rfl
  · rw [hp, Function.update_of_ne hi, Function.update_of_ne hj]

theorem fail (h : m.fail config id = some m') : Effect m m' := by
  obtain ⟨failureSet, _, rfl⟩ := Option.map_eq_some_iff.mp h
  exact keep (places_ext rfl rfl rfl rfl rfl rfl) ⟨rfl, rfl⟩ rfl

end Effect

/-- The monitor calls `Done` for a load only as long as the file worker has not called it and has
not handed the load on, and the worker then never comes back. -/
def HungLoads (m : TransManager) : Event → Prop
  | .next (.file w) _ => w ∉ m.hung
  | .next .monitor _ => ∀ unit, m.jobs .monitor = .running .finishing unit → unit.type = .load →
      unit ∉ m.moved → ∃ stage, stage ≠ .returning ∧ m.jobs (.file m.watched) = .running stage unit
  | _ => True

/-- Copies from the device fail only for a dump of one block. -/
def SmallFailedDumps (m : TransManager) : Event → Prop
  | .dispatch id success =>
    success = false → ∀ units, m.dispatches id = .syncing units → units.length ≤ 1
  | _ => True

def Dispatch.type : Dispatch → TaskType
  | .none => .load
  | .pushing _ => .load
  | .sharing _ => .load
  | _ => .dump

structure Typed (m : TransManager) : Prop where
  dispatches : ∀ id, ∀ unit ∈ (m.dispatches id).owed, unit.type = (m.dispatches id).type
  files : ∀ w stage unit, m.jobs (.file w) = .running stage unit → stage = .failing ∨ stage = .finishing →
    unit.type = .load

/-- A worker that hangs has its load and is stopped by the monitor at once. -/
structure Watching (m : TransManager) : Prop where
  busy : ∀ w ∈ m.hung, m.jobs (.file w) ≠ .idle
  hung : ∀ w ∈ m.hung, w ∈ m.stopped ∨ w = m.watched ∧ ∃ unit, m.jobs .monitor = .running .returning unit
  watched : ∀ stage unit, m.jobs .monitor = .running stage unit → m.watched ∉ m.stopped

theorem exists_of_fail (h : m.fail config id = some m') : ∃ failureSet, m' = { m with failureSet := failureSet } := by
  obtain ⟨failureSet, _, rfl⟩ := Option.map_eq_some_iff.mp h
  exact ⟨failureSet, rfl⟩

theorem effect_dispatch {success : Bool} (ht : Typed m)
    (hs : m.dispatch config id success (m.dispatches id) = some m') : Effect m m' := by
  have htype := ht.dispatches id
  cases hd : m.dispatches id with
  | none =>
    rw [hd] at hs
    cases hs
  | pushing units =>
    rw [hd] at hs htype
    cases units with
    | nil =>
      obtain rfl := Option.some.inj hs
      exact Effect.setDispatch (by rw [hd]; rfl)
    | cons unit units =>
      obtain rfl := Option.some.inj hs
      have hload : unit.type = .load := htype unit (List.mem_cons_self ..)
      exact Effect.pushDispatch (by rw [hd]; simp [Dispatch.owed, Pool.owed, hload])
  | sharing units =>
    rw [hd] at hs
    obtain rfl := Option.some.inj hs
    exact Effect.pushDispatch (by rw [hd]; simp [Dispatch.owed, Pool.owed])
  | syncing units =>
    rw [hd] at hs
    obtain rfl := Option.some.inj hs
    exact Effect.setDispatch (by rw [hd]; cases success <;> rfl)
  | marking units =>
    rw [hd] at hs
    obtain ⟨m₁, hm, rfl⟩ := Option.map_eq_some_iff.mp hs
    obtain ⟨failureSet, hm'⟩ := exists_of_fail hm
    exact (Effect.fail hm).trans (Effect.setDispatch (by rw [hm', hd]; rfl))
  | failing units =>
    rw [hd] at hs
    cases units with
    | nil =>
      obtain rfl := Option.some.inj hs
      exact Effect.setDispatch (by rw [hd]; rfl)
    | cons unit units =>
      obtain rfl := Option.some.inj hs
      have hdone : Effect m ((m.done unit).setDispatch id (.failing units)) :=
        Effect.doneDispatch (by rw [hd]; rfl)
      have hdrop : Effect ((m.done unit).setDispatch id (.failing units))
          ({ (m.done unit).setDispatch id (.failing units) with
            dropped := units ++ m.dropped }.setDispatch id .none) :=
        Effect.dropDispatch (by rw [setDispatch_dispatches, Function.update_self]; rfl)
      have he : { m.done unit with dropped := units ++ m.dropped }.setDispatch id .none =
          { (m.done unit).setDispatch id (.failing units) with
            dropped := units ++ m.dropped }.setDispatch id .none := by simp [setDispatch, done]
      rw [he]
      exact hdone.trans hdrop
  | handing units =>
    rw [hd] at hs htype
    cases units with
    | nil =>
      obtain rfl := Option.some.inj hs
      exact Effect.setDispatch (by rw [hd]; rfl)
    | cons unit units =>
      obtain rfl := Option.some.inj hs
      have hdump : unit.type = .dump := htype unit (List.mem_cons_self ..)
      exact Effect.pushDispatch (by rw [hd]; simp [Dispatch.owed, Pool.owed, hdump])
  | acking unit units =>
    rw [hd] at hs
    obtain rfl := Option.some.inj hs
    exact Effect.doneDispatch (by rw [hd]; rfl)

theorem effect_failJob {job : Job} (hjob : ∀ m' : TransManager, m'.hung = m.hung → m'.jobs = m.jobs →
      m'.owed k job = m'.owed k (m'.jobs k))
    (hs : (m.fail config id).map (fun m => m.setJob k job) = some m') : Effect m m' := by
  obtain ⟨m₁, hm, rfl⟩ := Option.map_eq_some_iff.mp hs
  obtain ⟨failureSet, hm'⟩ := exists_of_fail hm
  exact (Effect.fail hm).trans (Effect.setJob (hjob m₁ (by rw [hm']) (by rw [hm'])))

theorem TaskType.eq_load {type : TaskType} (h : type ≠ .dump) : type = .load := by
  cases type with
  | dump => exact absurd rfl h
  | load => rfl

theorem owed_file (hw : w ∉ m.hung) (stage : Stage) (unit : BlockTask) :
    m.owed (.file w) (.running stage unit) =
      if unit.type = .load ∧ stage ≠ .returning then [unit] else [] := by simp [owed, hw]

theorem effect_fileNext {outcome : Outcome} (ht : Typed m) (hw : w ∉ m.hung)
    (hj : m.jobs (.file w) = .running stage unit)
    (hs : m.fileNext config (.file w) outcome unit stage = some m') : Effect m m' := by
  cases stage with
  | checking =>
    simp only [fileNext] at hs
    by_cases hf : m.failed config unit.owner = true
    · rw [if_pos hf] at hs
      obtain rfl := Option.some.inj hs
      refine Effect.setJob ?_
      rw [hj, owed_file hw, owed_file hw]
      cases unit.type <;> simp
    · rw [if_neg hf] at hs
      obtain rfl := Option.some.inj hs
      refine Effect.setJob ?_
      rw [hj, owed_file hw, owed_file hw]
      simp
  | transferring =>
    simp only [fileNext] at hs
    split_ifs at hs with hd ho
    · obtain rfl := Option.some.inj hs
      refine Effect.setJob ?_
      rw [hj, owed_file hw, owed_file hw]
      simp [hd]
    · obtain rfl := Option.some.inj hs
      have hload := TaskType.eq_load hd
      have hmoved : Effect m { m with moved := unit :: m.moved } :=
        Effect.keep (places_ext rfl rfl rfl rfl rfl rfl) ⟨rfl, rfl⟩ rfl
      refine hmoved.trans (Effect.put ?_ ?_)
      · simp [hj, owed, hw, hload, Pool.owed]
      · simp [owed]
    · obtain rfl := Option.some.inj hs
      refine Effect.setJob ?_
      rw [hj, owed_file hw, owed_file hw]
      simp
  | failing =>
    refine effect_failJob (fun m' hh hjobs => ?_) hs
    rw [hjobs, hj, owed_file (hh ▸ hw), owed_file (hh ▸ hw)]
    simp
  | finishing =>
    obtain rfl := Option.some.inj hs
    have hload := ht.files w _ unit hj (Or.inr rfl)
    refine Effect.doneJob ?_ ?_
    · rw [hj, owed_file hw]
      simp [hload]
    · rw [owed_file hw]
      simp
  | returning =>
    obtain rfl := Option.some.inj hs
    refine Effect.setJob ?_
    rw [hj, owed_file hw]
    simp [owed]
  | loading => cases hs
  | reading => cases hs
  | ready success => cases hs

theorem effect_devNext {outcome : Outcome} (hj : m.jobs (.dev w) = .running stage unit)
    (hs : m.devNext config (.dev w) outcome unit stage = some m') : Effect m m' := by
  cases stage with
  | checking =>
    obtain rfl := Option.some.inj hs
    exact Effect.setJob (by rw [hj]; rfl)
  | transferring =>
    simp only [devNext] at hs
    split_ifs at hs with ho hd
    · obtain rfl := Option.some.inj hs
      have hpush : Effect m (m.push .file [unit]) := by
        refine Effect.keep ?_ ⟨rfl, rfl⟩ rfl
        rw [places_push]
        simp [Pool.owed, hd]
      exact hpush.trans (Effect.setJob (by rw [push_jobs, hj]; rfl))
    · obtain rfl := Option.some.inj hs
      exact Effect.setJob (by rw [hj]; rfl)
    · obtain rfl := Option.some.inj hs
      exact Effect.setJob (by rw [hj]; rfl)
  | failing => exact effect_failJob (fun m' _ hjobs => by rw [hjobs, hj]; rfl) hs
  | finishing =>
    obtain rfl := Option.some.inj hs
    exact Effect.doneJob (by rw [hj]; rfl) rfl
  | loading => cases hs
  | reading => cases hs
  | ready success => cases hs
  | returning => cases hs

theorem effect_shareNext {outcome : Outcome} (hj : m.jobs (.share w) = .running stage unit)
    (hs : m.shareNext config (.share w) outcome unit stage = some m') : Effect m m' := by
  have hstay : ∀ stage, Effect m (m.setJob (.share w) (.running stage unit)) :=
    fun stage => Effect.setJob (by rw [hj]; rfl)
  cases stage with
  | loading =>
    obtain rfl := Option.some.inj hs
    exact hstay _
  | reading =>
    cases outcome with
    | ok =>
      obtain rfl := Option.some.inj hs
      exact hstay _
    | fail =>
      obtain rfl := Option.some.inj hs
      exact hstay _
    | retry =>
      obtain rfl := Option.some.inj hs
      exact Effect.put (by rw [hj]; rfl) rfl
  | ready success =>
    simp only [shareNext] at hs
    by_cases hf : m.failed config unit.owner = true
    · rw [if_pos hf] at hs
      obtain rfl := Option.some.inj hs
      exact hstay _
    · rw [if_neg hf] at hs
      obtain rfl := Option.some.inj hs
      exact hstay _
  | transferring =>
    obtain rfl := Option.some.inj hs
    exact hstay _
  | failing => exact effect_failJob (fun m' _ hjobs => by rw [hjobs, hj]; rfl) hs
  | finishing =>
    obtain rfl := Option.some.inj hs
    exact Effect.doneJob (by rw [hj]; rfl) rfl
  | checking => cases hs
  | returning => cases hs

/-- A `Done` of the monitor is for the load that the hanging worker holds. -/
theorem effect_hang {stage₁ : Stage} (hw : m.watched ∉ m.hung) (hload : unit.type = .load)
    (hstage : stage₁ ≠ .returning) (hj : m.jobs (.file m.watched) = .running stage₁ unit)
    (hk : m.jobs .monitor = .running stage unit) :
    Effect m ({ m with hung := m.watched :: m.hung }.done unit |>.setJob .monitor
      (.running .returning unit)) := by
  have hother : ∀ k, k ≠ .file m.watched → ∀ job,
      TransManager.owed { m with hung := m.watched :: m.hung } k job = m.owed k job := by
    intro k hne job
    cases job with
    | idle => rfl
    | running stage unit =>
      cases k with
      | file w =>
        have hw' : w ≠ m.watched := fun h => hne (h ▸ rfl)
        simp [owed, hw']
      | _ => rfl
  refine Effect.finish unit (.job (.file m.watched)) (by simp) ?_ rfl (fun p hi hj' => ?_) ⟨rfl, rfl⟩ rfl
  · rw [places_setJob, Function.update_of_ne (by simp), places_done, Function.update_of_ne (by simp)]
    simp [places, hj, owed, hload, hstage, hw]
  · by_cases hm : p = .job .monitor
    · subst hm
      rw [places_setJob, Function.update_self]
      simp [places, hk, owed]
    · rw [places_setJob, Function.update_of_ne hm, places_done, Function.update_of_ne hj']
      cases p with
      | job k => exact hother k (fun h => hi (h ▸ rfl)) _
      | _ => rfl

theorem effect_monitorNext (hwatch : Watching m) (hj : m.jobs .monitor = .running stage unit)
    (hhung : stage = .finishing → unit.type = .load → unit ∉ m.moved →
      ∃ stage, stage ≠ .returning ∧ m.jobs (.file m.watched) = .running stage unit)
    (hs : m.monitorNext config unit stage = some m') : Effect m m' := by
  cases stage with
  | failing =>
    simp only [monitorNext] at hs
    split_ifs at hs with hd
    · obtain rfl := Option.some.inj hs
      exact Effect.setJob (by rw [hj]; rfl)
    · exact effect_failJob (fun m' _ hjobs => by rw [hjobs, hj]; rfl) hs
  | finishing =>
    simp only [monitorNext] at hs
    split_ifs at hs with hd
    · obtain rfl := Option.some.inj hs
      exact Effect.setJob (by rw [hj]; rfl)
    · obtain rfl := Option.some.inj hs
      obtain ⟨hd, hm⟩ := not_or.mp hd
      obtain ⟨stage, hstage, hfile⟩ := hhung rfl (TaskType.eq_load hd) hm
      have hw : m.watched ∉ m.hung := by
        intro hw
        rcases hwatch.hung _ hw with hw | ⟨_, unit', hj'⟩
        · exact hwatch.watched _ _ hj hw
        · rw [hj] at hj'
          cases hj'
      exact effect_hang hw (TaskType.eq_load hd) hstage hfile hj
  | checking => cases hs
  | transferring => cases hs
  | loading => cases hs
  | reading => cases hs
  | ready success => cases hs
  | returning => cases hs

theorem effect_submit (task : TransTask) : Effect m (m.submit config task) := by
  refine Effect.submit task ?_ rfl rfl rfl
  obtain ⟨d, hd, hsubmit⟩ : ∃ d : Dispatch, d.owed = task.units m.nextId ∧
      m.submit config task = ({ m with
        nextId := m.nextId + 1
        tasks := (m.nextId, task) :: m.tasks
        counters := Function.update m.counters m.nextId task.groupNumber } : TransManager).setDispatch
          m.nextId d := by
    refine ⟨_, ?_, rfl⟩
    cases task.type with
    | dump => rfl
    | load => by_cases hr : config.rankSize > 1 <;> simp [hr, Dispatch.owed]
  calc (m.submit config task).places
      = Function.update ({ m with
          nextId := m.nextId + 1
          tasks := (m.nextId, task) :: m.tasks
          counters := Function.update m.counters m.nextId task.groupNumber } : TransManager).places
          (.dispatch m.nextId) (task.units m.nextId) := by rw [← hd, hsubmit]; exact places_setDispatch _ _
    _ = _ := congrArg (fun places => Function.update places _ _) (places_ext rfl rfl rfl rfl rfl rfl)

theorem effect_waitNext {expires : Bool} {wait : Waiting} (hs : m.waitNext config id expires wait = some m') :
    Effect m m' := by
  have hset : ∀ m : TransManager, ∀ wait, Effect m (m.setWait id wait) :=
    fun m wait => Effect.keep (places_ext rfl rfl rfl rfl rfl rfl) ⟨rfl, rfl⟩ rfl
  have hforgive : Effect m (m.forgive config id) :=
    Effect.keep (places_ext rfl rfl rfl rfl rfl rfl) ⟨rfl, rfl⟩ rfl
  cases wait with
  | waiting =>
    simp only [waitNext] at hs
    split_ifs at hs
    · exact Option.some.inj hs ▸ hset m _
    · exact Option.some.inj hs ▸ hset m _
  | expired =>
    obtain ⟨m₁, hm, rfl⟩ := Option.map_eq_some_iff.mp hs
    exact (Effect.fail hm).trans (hset m₁ _)
  | blocked =>
    simp only [waitNext] at hs
    split_ifs at hs
    exact Option.some.inj hs ▸ hset m _
  | clearing =>
    obtain rfl := Option.some.inj hs
    exact hforgive.trans (hset _ _)
  | checking =>
    obtain rfl := Option.some.inj hs
    exact hset m _
  | removing =>
    obtain rfl := Option.some.inj hs
    exact hforgive.trans (hset _ _)
  | idle => cases hs
  | returned => cases hs

theorem step_effect (ht : Typed m) (hw : Watching m) (hg : HungLoads m e) (hs : m.step config e = some m') :
    Effect m m' := by
  have hmonitor : ∀ watched stopped job,
      m.owed .monitor job = m.owed .monitor (m.jobs .monitor) →
      Effect m ({ m with watched := watched, stopped := stopped }.setJob .monitor job) := by
    intro watched stopped job hjob
    have hkeep : Effect m { m with watched := watched, stopped := stopped } :=
      Effect.keep (places_ext rfl rfl rfl rfl rfl rfl) ⟨rfl, rfl⟩ rfl
    exact hkeep.trans (Effect.setJob hjob)
  cases e with
  | submit task => exact Option.some.inj hs ▸ effect_submit task
  | dispatch id success => exact effect_dispatch ht hs
  | pop w =>
    simp only [step] at hs
    split at hs
    next unit units hj hq =>
      split_ifs at hs with h
      obtain rfl := Option.some.inj hs
      have hnot : w ∉ m.hung := fun hm => hw.busy w hm hj
      refine Effect.take hj (List.Perm.of_eq hq) ?_
      rw [owed_file hnot]
      cases hd : unit.type <;> simp [Pool.owed, hd]
    next => cases hs
  | popDev w =>
    simp only [step] at hs
    split at hs
    next unit units hj hq =>
      split_ifs at hs with h
      exact Option.some.inj hs ▸ Effect.take hj (List.Perm.of_eq hq) rfl
    next => cases hs
  | fetch w =>
    simp only [step] at hs
    split at hs
    next unit units hj hq =>
      split_ifs at hs with h
      exact Option.some.inj hs ▸ Effect.take hj (List.Perm.of_eq hq) rfl
    next => cases hs
  | pick w i success =>
    simp only [step] at hs
    split at hs
    next unit hj hq =>
      split_ifs at hs with h
      obtain ⟨hi, hget⟩ := List.getElem?_eq_some_iff.mp hq
      have hperm : (m.queues .load).Perm (unit :: (m.queues .load).eraseIdx i) := by
        rw [← hget]
        exact (List.getElem_cons_eraseIdx_perm hi).symm
      exact Option.some.inj hs ▸ Effect.take hj hperm rfl
    next => cases hs
  | next k outcome =>
    simp only [step, next] at hs
    split at hs
    next => cases hs
    next stage unit hj =>
      cases k with
      | file w => exact effect_fileNext ht hg hj hs
      | monitor => exact effect_monitorNext hw hj (fun h => hg unit (h ▸ hj)) hs
      | dev w => exact effect_devNext hj hs
      | share w => exact effect_shareNext hj hs
  | timeout w =>
    simp only [step] at hs
    split at hs
    next stage unit hj hf =>
      split_ifs at hs with h
      exact Option.some.inj hs ▸ hmonitor w m.stopped _ (by rw [hj]; rfl)
    next => cases hs
  | stop =>
    simp only [step] at hs
    split at hs
    next unit hj => exact Option.some.inj hs ▸ hmonitor m.watched (m.watched :: m.stopped) _ (by rw [hj]; rfl)
    next => cases hs
  | wait id =>
    simp only [step] at hs
    split_ifs at hs
    obtain rfl := Option.some.inj hs
    exact Effect.keep (places_ext rfl rfl rfl rfl rfl rfl) ⟨rfl, rfl⟩ rfl
  | waitNext id expires => exact effect_waitNext hs

end UnifiedCache.PcStore.TransManager
