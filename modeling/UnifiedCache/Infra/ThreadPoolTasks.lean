import UnifiedCache.Infra.ThreadPool
import UnifiedCache.Lib.Shares

/-! What the steps of the pool do, and what becomes of the tasks: each is in the queue or was
taken by one worker, which hands it to `fn_` once. -/

namespace UnifiedCache.Infra.ThreadPool

open StepSystem

/-- The steps of a worker that concern nothing else. -/
inductive Turn (now : Nat) (wk : Worker) : Worker → Prop
  | assign {task : Nat} (h : wk.phase = .took task) :
      Turn now wk { wk with phase := .assigned task, current := some task }
  | readClock {task : Nat} (h : wk.phase = .assigned task) : Turn now wk { wk with phase := .clocked task now }
  | stamp {task time : Nat} (h : wk.phase = .clocked task time) :
      Turn now wk { wk with phase := .stamped task, tp := some time }
  | leave (h : wk.phase = .waiting ∨ ∃ task, wk.phase = .returned task) (hstop : wk.stop = true) :
      Turn now wk { wk with phase := .exited }
  | goOn {task : Nat} (h : wk.phase = .returned task) (hstop : wk.stop = false) :
      Turn now wk { wk with phase := .goesOn task }
  | unassign {task : Nat} (h : wk.phase = .goesOn task) :
      Turn now wk { wk with phase := .unassigned task, current := none }
  | rest {task : Nat} (h : wk.phase = .unassigned task) : Turn now wk { wk with phase := .waiting, tp := none }

namespace Pool

/-- What a step does. -/
inductive Step (config : Config) (s : Pool) : Event → Pool → Prop
  | push (n : Nat) :
      Step config s (.push n) { s with taskQ := s.taskQ ++ List.range' s.pushed n, pushed := s.pushed + n }
  | tick : Step config s .tick { s with clock := s.clock + 1 }
  | take {w task : Nat} {taskQ : List Nat} (hw : w < s.created) (hphase : (s.worker w).phase = .waiting)
      (hq : s.taskQ = task :: taskQ) : Step config s (.work w)
        { s.setWorker w { s.worker w with phase := .took task, taken := (s.worker w).taken ++ [task] } with
          taskQ := taskQ }
  | call {w task : Nat} (hw : w < s.created) (hphase : (s.worker w).phase = .stamped task) :
      Step config s (.work w) { s.setWorker w { s.worker w with phase := .calling task } with
        handed := s.handed ++ [task]
        started := Function.update s.started task (some s.clock) }
  | returns {w task : Nat} (hw : w < s.created) (hphase : (s.worker w).phase = .calling task) :
      Step config s (.work w) { s.setWorker w { s.worker w with phase := .returned task } with
        returned := s.returned ++ [task] }
  | turn {w : Nat} {wk : Worker} (hw : w < s.created) (h : Turn s.clock (s.worker w) wk) :
      Step config s (.work w) (s.setWorker w wk)
  | wake {complete : Bool} (hm : s.monitor = .sleeping complete) :
      Step config s .monitor (s.setMonitor (.scanning 0 .start))
  | load {it w : Nat} (hm : s.monitor = .scanning it .start) (hw : s.workers[it]? = some w) :
      Step config s .monitor (s.setMonitor (.scanning it (.loaded (s.worker w).tp)))
  | lock {it w : Nat} {tp : Option Nat} (hm : s.monitor = .scanning it (.loaded tp)) (hw : s.workers[it]? = some w) :
      Step config s .monitor (s.setMonitor (.scanning it (.locked tp (s.worker w).lock)))
  | overdue {it w tp task : Nat} (hm : s.monitor = .scanning it (.locked (some tp) (some task)))
      (hw : s.workers[it]? = some w) (hover : Overdue config tp s.clock) :
      Step config s .monitor (s.setMonitor (.scanning it (.overdue task)))
  | pass {it w : Nat} {tp task : Option Nat} (hm : s.monitor = .scanning it (.locked tp task))
      (hw : s.workers[it]? = some w) : Step config s .monitor (s.setMonitor (.scanning (it + 1) .start))
  | blame {it w task : Nat} (hm : s.monitor = .scanning it (.overdue task)) (hw : s.workers[it]? = some w) :
      Step config s .monitor { s.setMonitor (.scanning it (.blamed task)) with
        blamed := s.blamed ++ [⟨task, s.clock, s.started task, decide (task ∈ s.returned)⟩] }
  | requestStop {it w task : Nat} (hm : s.monitor = .scanning it (.blamed task)) (hw : s.workers[it]? = some w) :
      Step config s .monitor ((s.setWorker w { s.worker w with stop := true }).setMonitor (.scanning it .stopped))
  | erase {it w : Nat} (hm : s.monitor = .scanning it .stopped) (hw : s.workers[it]? = some w) :
      Step config s .monitor { s.setMonitor (.scanning it .start) with workers := s.workers.eraseIdx it }
  | scanned {it : Nat} {stage : Stage} (hm : s.monitor = .scanning it stage) (hw : s.workers[it]? = none) :
      Step config s .monitor (s.setMonitor (.adding s.workers.length false none))
  | added {i : Nat} {failed : Bool} (hm : s.monitor = .adding i failed none) (hi : ¬ i < config.nWorker) :
      Step config s .monitor (s.setMonitor (.sleeping !failed))
  | list {i w : Nat} {failed : Bool} (hm : s.monitor = .adding i failed (some w)) :
      Step config s .monitor { s.setMonitor (.adding (i + 1) failed none) with workers := s.workers ++ [w] }
  | create {i : Nat} {failed : Bool} (hm : s.monitor = .adding i failed none) (hi : i < config.nWorker) :
      Step config s (.create true) { s.setWorker s.created Worker.fresh with
        created := s.created + 1
        monitor := .adding i failed (some s.created) }
  | notCreated {i : Nat} {failed : Bool} (hm : s.monitor = .adding i failed none) (hi : i < config.nWorker) :
      Step config s (.create false) (s.setMonitor (.adding (i + 1) true none))

variable {config : Config} {s s' : Pool} {e : Event} {w : Nat}

theorem work_inv (hw : w < s.created) (h : s.work w = some s') : Step config s (.work w) s' := by
  unfold work at h
  dsimp only at h
  split at h
  · rename_i hphase
    unfold take at h
    split_ifs at h with hstop
    · obtain rfl := Option.some.inj h
      exact .turn hw (.leave (Or.inl hphase) hstop)
    · split at h
      · cases h
      · obtain rfl := Option.some.inj h
        exact .take hw hphase ‹_›
  · obtain rfl := Option.some.inj h
    exact .turn hw (.assign ‹_›)
  · obtain rfl := Option.some.inj h
    exact .turn hw (.readClock ‹_›)
  · obtain rfl := Option.some.inj h
    exact .turn hw (.stamp ‹_›)
  · obtain rfl := Option.some.inj h
    exact .call hw ‹_›
  · obtain rfl := Option.some.inj h
    exact .returns hw ‹_›
  · rename_i hphase
    obtain rfl := Option.some.inj h
    split_ifs with hstop
    · exact .turn hw (.leave (Or.inr ⟨_, hphase⟩) hstop)
    · exact .turn hw (.goOn hphase (Bool.not_eq_true _ ▸ hstop))
  · obtain rfl := Option.some.inj h
    exact .turn hw (.unassign ‹_›)
  · obtain rfl := Option.some.inj h
    exact .turn hw (.rest ‹_›)
  · cases h

theorem scan_inv {it : Nat} {stage : Stage} (hm : s.monitor = .scanning it stage) (hw : s.workers[it]? = some w) :
    Step config s .monitor (s.scan config it w stage) := by
  cases stage with
  | start => exact .load hm hw
  | loaded tp => exact .lock hm hw
  | locked tp task =>
    cases tp with
    | none => exact .pass hm hw
    | some tp =>
      cases task with
      | none => exact .pass hm hw
      | some task =>
        simp only [scan]
        split_ifs with hover
        · exact .overdue hm hw hover
        · exact .pass hm hw
  | overdue task => exact .blame hm hw
  | blamed task => exact .requestStop hm hw
  | stopped => exact .erase hm hw

theorem step_inv (h : s.step config e = some s') : Step config s e s' := by
  cases e with
  | push n =>
    obtain rfl := Option.some.inj h
    exact .push n
  | tick =>
    obtain rfl := Option.some.inj h
    exact .tick
  | work w =>
    simp only [step] at h
    split_ifs at h with hw
    exact work_inv hw h
  | monitor =>
    simp only [step, monitorNext] at h
    split at h
    · obtain rfl := Option.some.inj h
      exact .wake ‹_›
    · split at h
      · obtain rfl := Option.some.inj h
        exact scan_inv ‹_› ‹_›
      · obtain rfl := Option.some.inj h
        exact .scanned ‹_› ‹_›
    · split_ifs at h with hi
      obtain rfl := Option.some.inj h
      exact .added ‹_› hi
    · obtain rfl := Option.some.inj h
      exact .list ‹_›
  | create success =>
    simp only [step, create] at h
    split at h
    · split_ifs at h with hi hsuccess
      · obtain rfl := Option.some.inj h
        subst hsuccess
        exact .create ‹_› hi
      · obtain rfl := Option.some.inj h
        rw [Bool.not_eq_true] at hsuccess
        subst hsuccess
        exact .notCreated ‹_› hi
    · cases h

end Pool

/-- The task of the round that a worker is in. -/
def Phase.task? : Phase → Option Nat
  | took task => some task
  | assigned task => some task
  | clocked task _ => some task
  | stamped task => some task
  | calling task => some task
  | returned task => some task
  | goesOn task => some task
  | unassigned task => some task
  | waiting => none
  | exited => none

theorem Phase.task?_of_hand {phase : Phase} {task : Nat} (h : phase.hand = some task) : phase.task? = some task := by
  cases phase <;> first | exact h | cases h

/-- A worker has only tasks that it took. -/
structure Worker.Sound (wk : Worker) : Prop where
  task : ∀ task, wk.phase.task? = some task → task ∈ wk.taken
  current : ∀ task, wk.current = some task → task ∈ wk.taken

section Turn

variable {now : Nat} {wk wk' : Worker}

theorem Turn.taken (h : Turn now wk wk') : wk'.taken = wk.taken := by
  cases h <;> rfl

theorem Turn.stop (h : Turn now wk wk') : wk'.stop = wk.stop := by
  cases h <;> rfl

theorem Turn.hand (h : Turn now wk wk') : wk'.phase.hand = wk.phase.hand := by
  cases h with
  | leave h hstop => rcases h with h | ⟨task, h⟩ <;> rw [h] <;> rfl
  | assign h | readClock h | stamp h | goOn h | unassign h | rest h =>
    rw [h]
    rfl

theorem Turn.sound (h : Turn now wk wk') (hs : wk.Sound) : wk'.Sound := by
  cases h with
  | assign h =>
    have hmem := hs.task _ (by rw [h]; rfl)
    exact ⟨fun t ht => by obtain rfl := Option.some.inj ht; exact hmem,
      fun t ht => by obtain rfl := Option.some.inj ht; exact hmem⟩
  | readClock h | stamp h | goOn h =>
    exact ⟨fun t ht => hs.task t (by rw [h]; exact ht), hs.current⟩
  | leave h hstop => exact ⟨fun t ht => (by cases ht), hs.current⟩
  | unassign h => exact ⟨fun t ht => hs.task t (by rw [h]; exact ht), fun t ht => by cases ht⟩
  | rest h => exact ⟨fun t ht => (by cases ht), hs.current⟩

theorem Turn.not_calling (h : Turn now wk wk') (task : Nat) :
    wk.phase ≠ .calling task ∧ wk'.phase ≠ .calling task := by
  cases h with
  | leave h hstop => rcases h with h | ⟨task', h⟩ <;> simp [h]
  | assign h | readClock h | stamp h | goOn h | unassign h | rest h => simp [h]

end Turn

namespace Pool

variable {config : Config} {s s' : Pool} {e : Event} {w : Nat}

theorem worker_setWorker (s : Pool) (w : Nat) (wk : Worker) (w' : Nat) :
    (s.setWorker w wk).worker w' = if w' = w then wk else s.worker w' := by
  change Function.update s.worker w wk w' = _
  rw [Function.update_apply]

/-- The queue and the workers, as those who have the tasks. -/
def part (s : Pool) : Option Nat → List Nat
  | none => s.taskQ
  | some w => (s.worker w).taken

/-- Every task that was pushed is in the queue or was taken by one worker, and is handed over once. -/
structure Tasks (s : Pool) : Prop where
  shares : Shares s.part (· < s.pushed)
  fresh : ∀ w, s.created ≤ w → s.worker w = Worker.fresh
  sound : ∀ w, (s.worker w).Sound
  nodup : s.handed.Nodup
  handed : ∀ task, task ∈ s.handed ↔ ∃ w, task ∈ (s.worker w).taken ∧ (s.worker w).phase.hand ≠ some task

theorem tasks_start (config : Config) : Tasks (start config) where
  shares :=
    { nodup := fun k => by cases k <;> exact List.nodup_nil
      disjoint := fun k k' x hx => by cases k <;> cases hx
      cover := fun x => ⟨fun h => absurd h (Nat.not_lt_zero x), fun ⟨k, hk⟩ => by cases k <;> cases hk⟩ }
  fresh := fun _ _ => rfl
  sound := fun _ => ⟨fun _ h => (by cases h), fun _ h => (by cases h)⟩
  nodup := List.nodup_nil
  handed := fun task => ⟨fun h => (by cases h), fun ⟨_, h, _⟩ => (by cases h)⟩

/-- A worker goes on with the tasks that it has. -/
theorem Tasks.setWorker (h : Tasks s) (wk : Worker) (hw : w < s.created) (htaken : wk.taken = (s.worker w).taken)
    (hhand : wk.phase.hand = (s.worker w).phase.hand) (hsound : wk.Sound) : Tasks (s.setWorker w wk) := by
  have hworker : ∀ w', ((s.setWorker w wk).worker w').taken = (s.worker w').taken ∧
      ((s.setWorker w wk).worker w').phase.hand = (s.worker w').phase.hand := by
    intro w'
    rw [worker_setWorker]
    split_ifs with hw'
    · exact hw' ▸ ⟨htaken, hhand⟩
    · exact ⟨rfl, rfl⟩
  refine ⟨h.shares.perm fun k => ?_, fun w' hw' => ?_, fun w' => ?_, h.nodup, fun task => (h.handed task).trans ?_⟩
  · cases k with
    | none => exact List.Perm.refl _
    | some w' => exact List.Perm.of_eq (hworker w').1
  · rw [worker_setWorker, if_neg (by
      have hle : s.created ≤ w' := hw'
      omega)]
    exact h.fresh w' hw'
  · rw [worker_setWorker]
    split_ifs
    · exact hsound
    · exact h.sound w'
  · refine exists_congr fun w' => ?_
    rw [(hworker w').1, (hworker w').2]

theorem Tasks.eq_of_taken (h : Tasks s) {w' task : Nat} (hw : task ∈ (s.worker w).taken)
    (hw' : task ∈ (s.worker w').taken) : w = w' :=
  Option.some.inj (h.shares.disjoint (some w) (some w') task hw hw')

theorem Step.tasks (hs : Step config s e s') (hl : ∀ w ∈ s.workers, w < s.created) (h : Tasks s) : Tasks s' := by
  cases hs with
  | push n =>
    refine ⟨h.shares.add (List.range' s.pushed n) List.nodup_range' (fun x hx => ?_) (fun x => ?_) (i := none) ?_
      fun k hk => ?_, h.fresh, h.sound, h.nodup, h.handed⟩
    · have := List.mem_range'_1.mp hx
      omega
    · rw [List.mem_range'_1]
      change x < s.pushed + n ↔ _
      omega
    · exact List.perm_append_comm
    · cases k with
      | none => exact absurd rfl hk
      | some w => rfl
  | tick => exact ⟨h.shares, h.fresh, h.sound, h.nodup, h.handed⟩
  | @take w task taskQ hw hphase hq =>
    have hqueued : task ∈ s.part none := by
      change task ∈ s.taskQ
      rw [hq]
      exact List.mem_cons_self
    have hnot : ∀ w', task ∉ (s.worker w').taken := fun w' hm => by
      cases h.shares.disjoint none (some w') task hqueued hm
    refine ⟨h.shares.move (x := task) (i := none) (j := some w) (by simp) ?_ ?_ ?_, fun w' hw' => ?_,
      fun w' => ?_, h.nodup, fun t => (h.handed t).trans (exists_congr fun w' => ?_)⟩
    · exact List.Perm.of_eq hq
    · change ((s.setWorker w _).worker w).taken.Perm _
      rw [worker_setWorker, if_pos rfl]
      exact List.perm_append_comm
    · intro k hk hk'
      cases k with
      | none => exact absurd rfl hk
      | some w' =>
        change ((s.setWorker w _).worker w').taken = (s.worker w').taken
        rw [worker_setWorker, if_neg fun he => hk' (congrArg some he)]
    · change (s.setWorker w _).worker w' = _
      rw [worker_setWorker, if_neg (by
        have hle : s.created ≤ w' := hw'
        omega)]
      exact h.fresh w' hw'
    · change ((s.setWorker w _).worker w').Sound
      rw [worker_setWorker]
      split_ifs
      · refine ⟨fun t ht => ?_, fun t ht => List.mem_append_left _ ((h.sound w).current t ht)⟩
        obtain rfl := Option.some.inj ht
        exact List.mem_append_right _ List.mem_cons_self
      · exact h.sound w'
    · change _ ↔ t ∈ ((s.setWorker w _).worker w').taken ∧ ((s.setWorker w _).worker w').phase.hand ≠ some t
      rw [worker_setWorker]
      split_ifs with he
      · subst he
        rw [hphase]
        constructor
        · rintro ⟨ht, -⟩
          refine ⟨List.mem_append_left _ ht, fun heq => hnot w' ?_⟩
          rwa [Option.some.inj heq]
        · rintro ⟨ht, hne⟩
          rcases List.mem_append.mp ht with ht | ht
          · exact ⟨ht, fun heq => by cases heq⟩
          · exact absurd (congrArg some (List.mem_singleton.mp ht).symm) hne
      · rfl
  | @call w task hw hphase =>
    have hhand : (s.worker w).phase.hand = some task := by
      rw [hphase]
      rfl
    have htaken : task ∈ (s.worker w).taken := (h.sound w).task task (Phase.task?_of_hand hhand)
    have hnot : task ∉ s.handed := fun hm => by
      obtain ⟨w', hm, hne⟩ := (h.handed task).mp hm
      rw [h.eq_of_taken hm htaken] at hne
      exact hne hhand
    have hworker : ∀ w', ((s.setWorker w { s.worker w with phase := .calling task }).worker w').taken =
        (s.worker w').taken := fun w' => by
      rw [worker_setWorker]
      split_ifs with he
      · rw [he]
      · rfl
    refine ⟨h.shares.perm fun k => ?_, fun w' hw' => ?_, fun w' => ?_, ?_, fun t => ?_⟩
    · cases k with
      | none => exact List.Perm.refl _
      | some w' => exact List.Perm.of_eq (hworker w')
    · change (s.setWorker w _).worker w' = _
      rw [worker_setWorker, if_neg (by
        have hle : s.created ≤ w' := hw'
        omega)]
      exact h.fresh w' hw'
    · change ((s.setWorker w _).worker w').Sound
      rw [worker_setWorker]
      split_ifs
      · exact ⟨fun t ht => (h.sound w).task t (by rw [hphase]; exact ht), (h.sound w).current⟩
      · exact h.sound w'
    · exact List.nodup_append.mpr ⟨h.nodup, List.nodup_singleton _, fun a ha b hb hab => by
        rw [List.mem_singleton.mp hb] at hab
        exact hnot (hab ▸ ha)⟩
    · change t ∈ s.handed ++ [task] ↔ ∃ w', t ∈ ((s.setWorker w _).worker w').taken ∧
        ((s.setWorker w _).worker w').phase.hand ≠ some t
      rw [List.mem_append, List.mem_singleton, h.handed t]
      constructor
      · rintro (⟨w', hm, hne⟩ | rfl)
        · refine ⟨w', by rwa [hworker], ?_⟩
          rw [worker_setWorker]
          split_ifs
          · exact fun heq => by cases heq
          · exact hne
        · refine ⟨w, by rwa [hworker], ?_⟩
          rw [worker_setWorker, if_pos rfl]
          exact fun heq => by cases heq
      · rintro ⟨w', hm, hne⟩
        rw [hworker] at hm
        by_cases ht : t = task
        · exact Or.inr ht
        · refine Or.inl ⟨w', hm, ?_⟩
          rw [worker_setWorker] at hne
          split_ifs at hne with he
          · rw [he, hhand]
            exact fun heq => ht (Option.some.inj heq).symm
          · exact hne
  | @returns w task hw hphase =>
    have hset := h.setWorker { s.worker w with phase := .returned task } hw rfl
      (by rw [hphase]; rfl) ⟨fun t ht => (h.sound w).task t (by rw [hphase]; exact ht), (h.sound w).current⟩
    exact ⟨hset.shares, hset.fresh, hset.sound, hset.nodup, hset.handed⟩
  | @turn w wk hw ht => exact h.setWorker wk hw ht.taken ht.hand (ht.sound (h.sound w))
  | wake hm | load hm hw | lock hm hw | overdue hm hw hover | pass hm hw | blame hm hw | erase hm hw
  | scanned hm hw | added hm hi | list hm | notCreated hm hi =>
    exact ⟨h.shares, h.fresh, h.sound, h.nodup, h.handed⟩
  | @requestStop it w task hm hw =>
    have hset := h.setWorker { s.worker w with stop := true } (hl w (List.mem_of_getElem? hw)) rfl rfl
      ⟨(h.sound w).task, (h.sound w).current⟩
    exact ⟨hset.shares, hset.fresh, hset.sound, hset.nodup, hset.handed⟩
  | create hm hi =>
    have hself : s.setWorker s.created Worker.fresh = s := by
      rw [Pool.setWorker, ← h.fresh s.created le_rfl, Function.update_eq_self]
    rw [hself]
    exact ⟨h.shares, fun w hw => h.fresh w (Nat.le_of_succ_le hw), h.sound, h.nodup, h.handed⟩

end Pool

end UnifiedCache.Infra.ThreadPool
