import UnifiedCache.HashSetRoom
import UnifiedCache.Pc.Places

/-! What a step of the transfer manager changes apart from the units: the stage of a worker, of the
monitor, of `Dispatch` or of a `Wait`. -/

namespace UnifiedCache.PcStore.TransManager

variable {config : Config} {m m' m₁ : TransManager} {id : TaskHandle} {k : WorkerId} {unit : BlockTask}
  {stage : Stage} {w : Nat} {e : Event}

def Dispatch.few : Dispatch → Prop
  | .marking units => units.length ≤ 1
  | .failing units => units.length ≤ 1
  | _ => True

/-- There is room for an insertion into the failure set. -/
def Room (m : TransManager) : Prop := ∀ i, HashSet.Roomy (m.failureSet.shards i)

theorem fail_room (h : m.fail config id = some m') (hr : m.Room) : m'.Room := by
  obtain ⟨failureSet, hs, rfl⟩ := Option.map_eq_some_iff.mp h
  obtain ⟨failureSet', hs', hroom⟩ := HashSet.insert_room config.taskIdHasher Config.shardBits hr id
  rw [hs] at hs'
  exact Option.some.inj hs' ▸ hroom

theorem forgive_room (hr : m.Room) : (m.forgive config id).Room :=
  HashSet.remove_room config.taskIdHasher Config.shardBits hr id

/-- A step that gives a worker another job. -/
structure Works (m m' : TransManager) (k : WorkerId) (job : Job) : Prop where
  jobs : m'.jobs = Function.update m.jobs k job
  dispatches : m'.dispatches = m.dispatches
  waits : m'.waits = m.waits
  dropped : m'.dropped = m.dropped
  room : m.Room → m'.Room

structure SameWatch (m m' : TransManager) : Prop where
  watched : m'.watched = m.watched
  stopped : m'.stopped = m.stopped
  hung : m'.hung = m.hung

def Job.failing : Job → Option BlockTask
  | .running .failing unit => some unit
  | .running .finishing unit => some unit
  | _ => none

theorem works_failJob {job : Job} (hs : (m.fail config id).map (fun m => m.setJob k job) = some m') :
    Works m m' k job ∧ SameWatch m m' := by
  obtain ⟨m₁, hm, rfl⟩ := Option.map_eq_some_iff.mp hs
  obtain ⟨failureSet, rfl⟩ := exists_of_fail hm
  exact ⟨⟨rfl, rfl, rfl, rfl, fun hr => have h := fail_room hm hr; h⟩, ⟨rfl, rfl, rfl⟩⟩

theorem works_fileNext {outcome : Outcome} (ht : Typed m) (hj : m.jobs (.file w) = .running stage unit)
    (hs : m.fileNext config (.file w) outcome unit stage = some m') :
    ∃ job, (Works m m' (.file w) job ∧ SameWatch m m') ∧ ∀ unit ∈ job.failing, unit.type = .load := by
  cases stage with
  | checking =>
    simp only [fileNext] at hs
    by_cases hf : m.failed config unit.owner = true
    · rw [if_pos hf] at hs
      obtain rfl := Option.some.inj hs
      refine ⟨_, ⟨⟨rfl, rfl, rfl, rfl, fun h => h⟩, ⟨rfl, rfl, rfl⟩⟩, ?_⟩
      cases hd : unit.type <;> simp [Job.failing, hd]
    · rw [if_neg hf] at hs
      obtain rfl := Option.some.inj hs
      exact ⟨_, ⟨⟨rfl, rfl, rfl, rfl, fun h => h⟩, ⟨rfl, rfl, rfl⟩⟩, by simp [Job.failing]⟩
  | transferring =>
    simp only [fileNext] at hs
    split_ifs at hs with hd ho
    · obtain rfl := Option.some.inj hs
      exact ⟨_, ⟨⟨rfl, rfl, rfl, rfl, fun h => h⟩, ⟨rfl, rfl, rfl⟩⟩, by simp [Job.failing]⟩
    · obtain rfl := Option.some.inj hs
      exact ⟨_, ⟨⟨rfl, rfl, rfl, rfl, fun h => h⟩, ⟨rfl, rfl, rfl⟩⟩, by simp [Job.failing]⟩
    · obtain rfl := Option.some.inj hs
      exact ⟨_, ⟨⟨rfl, rfl, rfl, rfl, fun h => h⟩, ⟨rfl, rfl, rfl⟩⟩, by simp [Job.failing, TaskType.eq_load hd]⟩
  | failing =>
    have hload := ht.files w _ unit hj (Or.inl rfl)
    exact ⟨_, works_failJob hs, by simp [Job.failing, hload]⟩
  | finishing =>
    obtain rfl := Option.some.inj hs
    exact ⟨_, ⟨⟨rfl, rfl, rfl, rfl, fun h => h⟩, ⟨rfl, rfl, rfl⟩⟩, by simp [Job.failing]⟩
  | returning =>
    obtain rfl := Option.some.inj hs
    exact ⟨_, ⟨⟨rfl, rfl, rfl, rfl, fun h => h⟩, ⟨rfl, rfl, rfl⟩⟩, by simp [Job.failing]⟩
  | loading => cases hs
  | reading => cases hs
  | ready success => cases hs

theorem works_devNext {outcome : Outcome} (hs : m.devNext config k outcome unit stage = some m') :
    ∃ job, Works m m' k job ∧ SameWatch m m' := by
  cases stage with
  | checking => exact Option.some.inj hs ▸ ⟨_, ⟨rfl, rfl, rfl, rfl, fun h => h⟩, ⟨rfl, rfl, rfl⟩⟩
  | transferring =>
    simp only [devNext] at hs
    split_ifs at hs
    all_goals exact Option.some.inj hs ▸ ⟨_, ⟨rfl, rfl, rfl, rfl, fun h => h⟩, ⟨rfl, rfl, rfl⟩⟩
  | failing => exact ⟨_, works_failJob hs⟩
  | finishing => exact Option.some.inj hs ▸ ⟨_, ⟨rfl, rfl, rfl, rfl, fun h => h⟩, ⟨rfl, rfl, rfl⟩⟩
  | loading => cases hs
  | reading => cases hs
  | ready success => cases hs
  | returning => cases hs

theorem works_shareNext {outcome : Outcome} (hs : m.shareNext config k outcome unit stage = some m') :
    ∃ job, Works m m' k job ∧ SameWatch m m' := by
  cases stage with
  | loading => exact Option.some.inj hs ▸ ⟨_, ⟨rfl, rfl, rfl, rfl, fun h => h⟩, ⟨rfl, rfl, rfl⟩⟩
  | reading =>
    cases outcome with
    | _ => exact Option.some.inj hs ▸ ⟨_, ⟨rfl, rfl, rfl, rfl, fun h => h⟩, ⟨rfl, rfl, rfl⟩⟩
  | ready success =>
    simp only [shareNext] at hs
    by_cases hf : m.failed config unit.owner = true
    · rw [if_pos hf] at hs
      exact Option.some.inj hs ▸ ⟨_, ⟨rfl, rfl, rfl, rfl, fun h => h⟩, ⟨rfl, rfl, rfl⟩⟩
    · rw [if_neg hf] at hs
      exact Option.some.inj hs ▸ ⟨_, ⟨rfl, rfl, rfl, rfl, fun h => h⟩, ⟨rfl, rfl, rfl⟩⟩
  | transferring => exact Option.some.inj hs ▸ ⟨_, ⟨rfl, rfl, rfl, rfl, fun h => h⟩, ⟨rfl, rfl, rfl⟩⟩
  | failing => exact ⟨_, works_failJob hs⟩
  | finishing => exact Option.some.inj hs ▸ ⟨_, ⟨rfl, rfl, rfl, rfl, fun h => h⟩, ⟨rfl, rfl, rfl⟩⟩
  | checking => cases hs
  | returning => cases hs

/-- A step of the monitor: it goes on with a load, or calls `Done` for one. -/
theorem works_monitorNext (hs : m.monitorNext config unit stage = some m') :
    (stage ≠ .returning) ∧ ∃ stage', Works m m' .monitor (.running stage' unit) ∧
      m'.watched = m.watched ∧ m'.stopped = m.stopped ∧
      (m'.hung = m.hung ∨ stage = .finishing ∧ stage' = .returning ∧ m'.hung = m.watched :: m.hung ∧
        unit.type = .load ∧ unit ∉ m.moved) := by
  cases stage with
  | failing =>
    simp only [monitorNext] at hs
    refine ⟨by simp, .finishing, ?_⟩
    split_ifs at hs
    · exact Option.some.inj hs ▸ ⟨⟨rfl, rfl, rfl, rfl, fun h => h⟩, rfl, rfl, Or.inl rfl⟩
    · obtain ⟨hworks, hsame⟩ := works_failJob hs
      exact ⟨hworks, hsame.watched, hsame.stopped, Or.inl hsame.hung⟩
  | finishing =>
    simp only [monitorNext] at hs
    refine ⟨by simp, .returning, ?_⟩
    split_ifs at hs with hd
    · exact Option.some.inj hs ▸ ⟨⟨rfl, rfl, rfl, rfl, fun h => h⟩, rfl, rfl, Or.inl rfl⟩
    · obtain ⟨hd, hm⟩ := not_or.mp hd
      exact Option.some.inj hs ▸ ⟨⟨rfl, rfl, rfl, rfl, fun h => h⟩, rfl, rfl,
        Or.inr ⟨rfl, rfl, rfl, TaskType.eq_load hd, hm⟩⟩
  | checking => cases hs
  | transferring => cases hs
  | loading => cases hs
  | reading => cases hs
  | ready success => cases hs
  | returning => cases hs

/-- What a step of `Dispatch` does to its task; it gives units up only where more than one was
left when the copies failed. -/
structure Dispatches (m m' : TransManager) (id : TaskHandle) (d : Dispatch) : Prop where
  dispatches : m'.dispatches = Function.update m.dispatches id d
  jobs : m'.jobs = m.jobs
  waits : m'.waits = m.waits
  watch : SameWatch m m'
  owed : d.owed ⊆ (m.dispatches id).owed
  type : d.type = (m.dispatches id).type ∨ d.owed = []
  room : m.Room → m'.Room
  dropped : (m.dispatches id).few → m'.dropped = m.dropped

theorem dispatches_dispatch {success : Bool} (hs : m.dispatch config id success (m.dispatches id) = some m') :
    ∃ d, Dispatches m m' id d ∧ ((m.dispatches id).few → (success = false → ∀ units,
      m.dispatches id = .syncing units → units.length ≤ 1) → d.few) := by
  cases hd : m.dispatches id with
  | none =>
    rw [hd] at hs
    cases hs
  | pushing units =>
    rw [hd] at hs
    cases units with
    | nil => exact Option.some.inj hs ▸ ⟨.none, ⟨rfl, rfl, rfl, ⟨rfl, rfl, rfl⟩, by simp [Dispatch.owed],
        Or.inr rfl, fun h => h, fun _ => rfl⟩, fun _ _ => trivial⟩
    | cons unit units => exact Option.some.inj hs ▸ ⟨.pushing units, ⟨rfl, rfl, rfl, ⟨rfl, rfl, rfl⟩,
        by simp [Dispatch.owed, hd], Or.inl (by rw [hd]; rfl), fun h => h, fun _ => rfl⟩, fun _ _ => trivial⟩
  | sharing units =>
    rw [hd] at hs
    exact Option.some.inj hs ▸ ⟨.none, ⟨rfl, rfl, rfl, ⟨rfl, rfl, rfl⟩, by simp [Dispatch.owed],
      Or.inr rfl, fun h => h, fun _ => rfl⟩, fun _ _ => trivial⟩
  | syncing units =>
    rw [hd] at hs
    cases success with
    | true => exact Option.some.inj hs ▸ ⟨.handing units, ⟨rfl, rfl, rfl, ⟨rfl, rfl, rfl⟩,
        by simp [Dispatch.owed, hd], Or.inl (by rw [hd]; rfl), fun h => h, fun _ => rfl⟩, fun _ _ => trivial⟩
    | false => exact Option.some.inj hs ▸ ⟨.marking units, ⟨rfl, rfl, rfl, ⟨rfl, rfl, rfl⟩,
        by simp [Dispatch.owed, hd], Or.inl (by rw [hd]; rfl), fun h => h, fun _ => rfl⟩, fun _ h => h rfl units rfl⟩
  | marking units =>
    rw [hd] at hs
    obtain ⟨m₁, hm, rfl⟩ := Option.map_eq_some_iff.mp hs
    obtain ⟨failureSet, rfl⟩ := exists_of_fail hm
    exact ⟨.failing units, ⟨rfl, rfl, rfl, ⟨rfl, rfl, rfl⟩, by simp [Dispatch.owed, hd],
      Or.inl (by rw [hd]; rfl), fun hr => have h := fail_room hm hr; h, fun _ => rfl⟩, fun h _ => h⟩
  | failing units =>
    rw [hd] at hs
    cases units with
    | nil => exact Option.some.inj hs ▸ ⟨.none, ⟨rfl, rfl, rfl, ⟨rfl, rfl, rfl⟩, by simp [Dispatch.owed],
        Or.inr rfl, fun h => h, fun _ => rfl⟩, fun _ _ => trivial⟩
    | cons unit units =>
      refine Option.some.inj hs ▸ ⟨.none, ⟨rfl, rfl, rfl, ⟨rfl, rfl, rfl⟩, by simp [Dispatch.owed],
        Or.inr rfl, fun h => h, fun hf => ?_⟩, fun _ _ => trivial⟩
      rw [hd] at hf
      have hnil : units = [] := List.length_eq_zero_iff.mp (Nat.le_zero.mp (Nat.le_of_succ_le_succ hf))
      simp [hnil]
  | handing units =>
    rw [hd] at hs
    cases units with
    | nil => exact Option.some.inj hs ▸ ⟨.none, ⟨rfl, rfl, rfl, ⟨rfl, rfl, rfl⟩, by simp [Dispatch.owed],
        Or.inr rfl, fun h => h, fun _ => rfl⟩, fun _ _ => trivial⟩
    | cons unit units => exact Option.some.inj hs ▸ ⟨.acking unit units, ⟨rfl, rfl, rfl, ⟨rfl, rfl, rfl⟩,
        by simp [Dispatch.owed, hd], Or.inl (by rw [hd]; rfl), fun h => h, fun _ => rfl⟩, fun _ _ => trivial⟩
  | acking unit units =>
    rw [hd] at hs
    exact Option.some.inj hs ▸ ⟨.handing units, ⟨rfl, rfl, rfl, ⟨rfl, rfl, rfl⟩,
      by simp [Dispatch.owed, hd], Or.inl (by rw [hd]; rfl), fun h => h, fun _ => rfl⟩, fun _ _ => trivial⟩

/-- A turn of the monitor: it comes to a load that is late, goes on with it, calls `Done` for it
or stops its worker. -/
inductive Turn (m m' : TransManager) : Job → Prop
  | start (unit : BlockTask) (hj : m.jobs .monitor = .idle) (hw : m'.watched ∉ m.stopped)
      (hs : m'.stopped = m.stopped) (hh : m'.hung = m.hung) : Turn m m' (.running .failing unit)
  | goOn (stage stage' : Stage) (unit : BlockTask) (hj : m.jobs .monitor = .running stage unit)
      (hr : stage ≠ .returning) (h : SameWatch m m') : Turn m m' (.running stage' unit)
  | hang (stage : Stage) (unit : BlockTask) (hj : m.jobs .monitor = .running stage unit)
      (hr : stage ≠ .returning) (hb : m.jobs (.file m.watched) ≠ .idle) (hw : m'.watched = m.watched)
      (hs : m'.stopped = m.stopped) (hh : m'.hung = m.watched :: m.hung) :
      Turn m m' (.running .returning unit)
  | stop (unit : BlockTask) (hj : m.jobs .monitor = .running .returning unit)
      (hw : m'.watched = m.watched) (hs : m'.stopped = m.watched :: m.stopped) (hh : m'.hung = m.hung) :
      Turn m m' .idle

def Waiting.passed : Waiting → Prop
  | .clearing => True
  | .checking => True
  | .removing => True
  | .returned => True
  | _ => False

inductive Change (m m' : TransManager) (e : Event) : Prop
  | work (k : WorkerId) (job : Job) (hk : k ≠ .monitor) (h : Works m m' k job) (hw : SameWatch m m')
      (hfile : ∀ w, k = .file w → (∀ unit ∈ job.failing, unit.type = .load) ∧ (w ∈ m.hung → job ≠ .idle))
  | turn (job : Job) (h : Works m m' .monitor job) (ht : Turn m m' job)
  | dispatch (id : TaskHandle) (success : Bool) (d : Dispatch) (he : e = .dispatch id success)
      (h : Dispatches m m' id d) (hf : (m.dispatches id).few → (success = false → ∀ units,
        m.dispatches id = .syncing units → units.length ≤ 1) → d.few)
  | submit (d : Dispatch) (hd : m'.dispatches = Function.update m.dispatches m.nextId d)
      (ht : ∀ unit ∈ d.owed, unit.type = d.type) (hf : d.few) (hj : m'.jobs = m.jobs)
      (hw : SameWatch m m') (hwait : m'.waits = m.waits) (hdrop : m'.dropped = m.dropped)
      (hr : m.Room → m'.Room)
  | wait (id : TaskHandle) (wait : Waiting) (hwait : m'.waits = Function.update m.waits id wait)
      (hid : m.waits id ≠ .idle ∨ id < m.nextId)
      (hpass : wait.passed → (m.waits id).passed ∨ m.counters id = 0) (hd : m'.dispatches = m.dispatches)
      (hj : m'.jobs = m.jobs) (hw : SameWatch m m') (hdrop : m'.dropped = m.dropped)
      (hr : m.Room → m'.Room)

theorem change_waitNext {expires : Bool} (hs : m.waitNext config id expires (m.waits id) = some m') :
    Change m m' e := by
  cases hw : m.waits id with
  | waiting =>
    rw [hw] at hs
    simp only [waitNext] at hs
    split_ifs at hs with hc
    · exact Option.some.inj hs ▸ .wait id .checking rfl (Or.inl (by simp [hw])) (fun _ => Or.inr hc) rfl
        rfl ⟨rfl, rfl, rfl⟩ rfl (fun h => h)
    · exact Option.some.inj hs ▸ .wait id .expired rfl (Or.inl (by simp [hw])) (fun h => h.elim) rfl rfl
        ⟨rfl, rfl, rfl⟩ rfl (fun h => h)
  | expired =>
    rw [hw] at hs
    obtain ⟨m₁, hm, rfl⟩ := Option.map_eq_some_iff.mp hs
    obtain ⟨failureSet, rfl⟩ := exists_of_fail hm
    exact .wait id .blocked rfl (Or.inl (by simp [hw])) (fun h => h.elim) rfl rfl ⟨rfl, rfl, rfl⟩ rfl fun hr => have h := fail_room hm hr; h
  | blocked =>
    rw [hw] at hs
    simp only [waitNext] at hs
    split_ifs at hs with hc
    exact Option.some.inj hs ▸ .wait id .clearing rfl (Or.inl (by simp [hw])) (fun _ => Or.inr hc) rfl rfl
      ⟨rfl, rfl, rfl⟩ rfl (fun h => h)
  | clearing =>
    rw [hw] at hs
    exact Option.some.inj hs ▸ .wait id .returned rfl (Or.inl (by simp [hw]))
      (fun _ => Or.inl (hw ▸ trivial)) rfl rfl ⟨rfl, rfl, rfl⟩ rfl forgive_room
  | checking =>
    rw [hw] at hs
    exact Option.some.inj hs ▸ .wait id _ rfl (Or.inl (by simp [hw])) (fun _ => Or.inl (hw ▸ trivial)) rfl
      rfl ⟨rfl, rfl, rfl⟩ rfl (fun h => h)
  | removing =>
    rw [hw] at hs
    exact Option.some.inj hs ▸ .wait id .returned rfl (Or.inl (by simp [hw]))
      (fun _ => Or.inl (hw ▸ trivial)) rfl rfl ⟨rfl, rfl, rfl⟩ rfl forgive_room
  | idle =>
    rw [hw] at hs
    cases hs
  | returned =>
    rw [hw] at hs
    cases hs

theorem change_submit (task : TransTask) : Change m (m.submit config task) e := by
  have hunit : ∀ unit ∈ task.units m.nextId, unit.type = task.type := by
    intro unit hu
    obtain ⟨g, _, rfl⟩ := List.mem_map.mp hu
    rfl
  refine .submit _ rfl ?_ ?_ rfl ⟨rfl, rfl, rfl⟩ rfl rfl fun h => h
  · cases ht : task.type with
    | dump => exact fun unit hu => (hunit unit hu).trans ht
    | load =>
      have hload : ∀ unit ∈ task.units m.nextId, unit.type = .load := fun unit hu => (hunit unit hu).trans ht
      by_cases hr : config.rankSize > 1
      · simp only [hr, if_true]
        exact hload
      · simp only [hr, if_false]
        exact hload
  · cases task.type with
    | dump => trivial
    | load =>
      by_cases hr : config.rankSize > 1
      · simp only [hr, if_true, Dispatch.few]
      · simp only [hr, if_false, Dispatch.few]

theorem change_next {outcome : Outcome} (ht : Typed m) (hg : HungLoads m (.next k outcome))
    (hs : m.next config k outcome = some m') : Change m m' e := by
  simp only [next] at hs
  split at hs
  next => cases hs
  next stage unit hj =>
    cases k with
    | file w =>
      obtain ⟨job, ⟨hworks, hsame⟩, hload⟩ := works_fileNext ht hj hs
      refine .work _ job (by simp) hworks hsame fun w' hw' => ?_
      cases hw'
      exact ⟨hload, fun hm => absurd hm hg⟩
    | monitor =>
      obtain ⟨hr, stage', hworks, hw, hs', hh⟩ := works_monitorNext hs
      refine .turn _ hworks ?_
      rcases hh with hh | ⟨rfl, rfl, hh, hload, hm⟩
      · exact .goOn stage stage' unit hj hr ⟨hw, hs', hh⟩
      · obtain ⟨stage, _, hfile⟩ := hg unit hj hload hm
        exact .hang _ unit hj hr (by rw [hfile]; simp) hw hs' hh
    | dev w =>
      obtain ⟨job, hworks, hsame⟩ := works_devNext hs
      exact .work _ job (by simp) hworks hsame fun w' hw' => by cases hw'
    | share w =>
      obtain ⟨job, hworks, hsame⟩ := works_shareNext hs
      exact .work _ job (by simp) hworks hsame fun w' hw' => by cases hw'

theorem step_change (ht : Typed m) (hg : HungLoads m e) (hs : m.step config e = some m') : Change m m' e := by
  cases e with
  | submit task => exact Option.some.inj hs ▸ change_submit task
  | dispatch id success =>
    obtain ⟨d, hd, hf⟩ := dispatches_dispatch hs
    exact .dispatch id success d rfl hd hf
  | pop w =>
    simp only [step] at hs
    split at hs
    next unit units hj hq =>
      split_ifs at hs with h
      refine Option.some.inj hs ▸ .work (.file w) _ (by simp) ⟨rfl, rfl, rfl, rfl, fun h => h⟩ ⟨rfl, rfl, rfl⟩
        fun w' _ => ⟨by simp [Job.failing], by simp⟩
    next => cases hs
  | popDev w =>
    simp only [step] at hs
    split at hs
    next unit units hj hq =>
      split_ifs at hs with h
      refine Option.some.inj hs ▸ .work (.dev w) _ (by simp) ⟨rfl, rfl, rfl, rfl, fun h => h⟩ ⟨rfl, rfl, rfl⟩
        fun w' hw' => by cases hw'
    next => cases hs
  | fetch w =>
    simp only [step] at hs
    split at hs
    next unit units hj hq =>
      split_ifs at hs with h
      refine Option.some.inj hs ▸ .work (.share w) _ (by simp) ⟨rfl, rfl, rfl, rfl, fun h => h⟩ ⟨rfl, rfl, rfl⟩
        fun w' hw' => by cases hw'
    next => cases hs
  | pick w i success =>
    simp only [step] at hs
    split at hs
    next unit hj hq =>
      split_ifs at hs with h
      refine Option.some.inj hs ▸ .work (.share w) _ (by simp) ⟨rfl, rfl, rfl, rfl, fun h => h⟩ ⟨rfl, rfl, rfl⟩
        fun w' hw' => by cases hw'
    next => cases hs
  | next k outcome => exact change_next ht hg hs
  | timeout w =>
    simp only [step] at hs
    split at hs
    next stage unit hj hf =>
      split_ifs at hs with h
      exact Option.some.inj hs ▸ .turn _ ⟨rfl, rfl, rfl, rfl, fun h => h⟩ (.start unit hj h rfl rfl)
    next => cases hs
  | stop =>
    simp only [step] at hs
    split at hs
    next unit hj => exact Option.some.inj hs ▸ .turn _ ⟨rfl, rfl, rfl, rfl, fun h => h⟩ (.stop unit hj rfl rfl rfl)
    next => cases hs
  | wait id =>
    simp only [step] at hs
    split_ifs at hs with h
    exact Option.some.inj hs ▸ .wait id .waiting rfl (Or.inr h.2.1) (fun h => h.elim) rfl rfl
      ⟨rfl, rfl, rfl⟩ rfl (fun h => h)
  | waitNext id expires => exact change_waitNext hs

namespace Change

theorem typed (h : Change m m' e) (ht : Typed m) : Typed m' := by
  have hsame : m'.dispatches = m.dispatches → ∀ id, ∀ unit ∈ (m'.dispatches id).owed,
      unit.type = (m'.dispatches id).type := fun h => h ▸ ht.dispatches
  have hkept : m'.jobs = m.jobs → ∀ w stage unit, m'.jobs (.file w) = .running stage unit →
      stage = .failing ∨ stage = .finishing → unit.type = .load := fun h => h ▸ ht.files
  cases h with
  | work k job hk h hw hfile =>
    refine ⟨hsame h.dispatches, fun w stage unit hj hstage => ?_⟩
    rw [h.jobs] at hj
    by_cases hkw : WorkerId.file w = k
    · subst hkw
      rw [Function.update_self] at hj
      refine (hfile w rfl).1 unit ?_
      rcases hstage with rfl | rfl <;> simp [hj, Job.failing]
    · rw [Function.update_of_ne hkw] at hj
      exact ht.files w stage unit hj hstage
  | turn job h hturn =>
    refine ⟨hsame h.dispatches, fun w stage unit hj hstage => ?_⟩
    rw [h.jobs, Function.update_of_ne (by simp)] at hj
    exact ht.files w stage unit hj hstage
  | dispatch id success d he h hf =>
    refine ⟨fun id' unit hu => ?_, hkept h.jobs⟩
    rw [h.dispatches] at hu ⊢
    by_cases hid : id' = id
    · subst hid
      rw [Function.update_self] at hu ⊢
      rcases h.type with htype | hnil
      · exact htype ▸ ht.dispatches id' unit (h.owed hu)
      · rw [hnil] at hu
        cases hu
    · rw [Function.update_of_ne hid] at hu ⊢
      exact ht.dispatches id' unit hu
  | submit d hd htype hf hj hw hwait hdrop hr =>
    refine ⟨fun id' unit hu => ?_, hkept hj⟩
    rw [hd] at hu ⊢
    by_cases hid : id' = m.nextId
    · subst hid
      rw [Function.update_self] at hu ⊢
      exact htype unit hu
    · rw [Function.update_of_ne hid] at hu ⊢
      exact ht.dispatches id' unit hu
  | wait id wait hwait hid hpass hd hj hw hdrop hr => exact ⟨hsame hd, hkept hj⟩

theorem watching (h : Change m m' e) (hwatch : Watching m) : Watching m' := by
  have hkept : m'.jobs = m.jobs → SameWatch m m' → Watching m' := by
    intro hj hw
    exact ⟨by rw [hw.hung, hj]; exact hwatch.busy, by rw [hw.hung, hw.stopped, hw.watched, hj]; exact hwatch.hung,
      by rw [hw.stopped, hw.watched, hj]; exact hwatch.watched⟩
  cases h with
  | work k job hk h hw hfile =>
    have hmonitor : m'.jobs .monitor = m.jobs .monitor := by
      rw [h.jobs, Function.update_of_ne hk.symm]
    refine ⟨fun w hm => ?_, ?_, ?_⟩
    · rw [hw.hung] at hm
      rw [h.jobs]
      by_cases hkw : WorkerId.file w = k
      · rw [hkw, Function.update_self]
        exact (hfile w hkw.symm).2 hm
      · rw [Function.update_of_ne hkw]
        exact hwatch.busy w hm
    · rw [hw.hung, hw.stopped, hw.watched, hmonitor]
      exact hwatch.hung
    · rw [hw.stopped, hw.watched, hmonitor]
      exact hwatch.watched
  | turn job h hturn =>
    have hfile : ∀ w, m'.jobs (.file w) = m.jobs (.file w) := by
      intro w
      rw [h.jobs, Function.update_of_ne (by simp)]
    have hmonitor : m'.jobs .monitor = job := by rw [h.jobs, Function.update_self]
    have hstopped : m.jobs .monitor = .idle ∨ (∃ stage unit, m.jobs .monitor = .running stage unit ∧
        stage ≠ .returning) → ∀ w ∈ m.hung, w ∈ m.stopped := by
      intro hj w hm
      rcases hwatch.hung w hm with hs | ⟨_, unit, hr⟩
      · exact hs
      · rcases hj with hj | ⟨stage, unit', hj, hne⟩
        · rw [hj] at hr
          cases hr
        · rw [hj] at hr
          cases hr
          exact absurd rfl hne
    cases hturn with
    | start unit hj hw hs hh =>
      refine ⟨fun w hm => ?_, fun w hm => ?_, fun stage unit _ => hs ▸ hw⟩
      · rw [hfile]
        exact hwatch.busy w (hh ▸ hm)
      · exact Or.inl (hs ▸ hstopped (Or.inl hj) w (hh ▸ hm))
    | goOn stage stage' unit hj hr hsame =>
      refine ⟨fun w hm => ?_, fun w hm => ?_, fun _ _ _ => ?_⟩
      · rw [hfile]
        exact hwatch.busy w (hsame.hung ▸ hm)
      · exact Or.inl (hsame.stopped ▸ hstopped (Or.inr ⟨stage, unit, hj, hr⟩) w (hsame.hung ▸ hm))
      · rw [hsame.watched, hsame.stopped]
        exact hwatch.watched stage unit hj
    | hang stage unit hj hr hb hw hs hh =>
      refine ⟨fun w hm => ?_, fun w hm => ?_, fun _ _ _ => ?_⟩
      · rw [hfile]
        rw [hh] at hm
        rcases List.mem_cons.mp hm with rfl | hm
        · exact hb
        · exact hwatch.busy w hm
      · rw [hh] at hm
        rcases List.mem_cons.mp hm with rfl | hm
        · exact Or.inr ⟨hw.symm, unit, hmonitor⟩
        · exact Or.inl (hs ▸ hstopped (Or.inr ⟨stage, unit, hj, hr⟩) w hm)
      · rw [hw, hs]
        exact hwatch.watched stage unit hj
    | stop unit hj hw hs hh =>
      refine ⟨fun w hm => ?_, fun w hm => ?_, fun stage unit' hj' => ?_⟩
      · rw [hfile]
        exact hwatch.busy w (hh ▸ hm)
      · rw [hs]
        rcases hwatch.hung w (hh ▸ hm) with hm | ⟨rfl, _⟩
        · exact Or.inl (List.mem_cons_of_mem _ hm)
        · exact Or.inl (List.mem_cons_self ..)
      · rw [hmonitor] at hj'
        cases hj'
  | dispatch id success d he h hf => exact hkept h.jobs h.watch
  | submit d hd htype hf hj hw hwait hdrop hr => exact hkept hj hw
  | wait id wait hwait hid hpass hd hj hw hdrop hr => exact hkept hj hw

end Change

end UnifiedCache.PcStore.TransManager
