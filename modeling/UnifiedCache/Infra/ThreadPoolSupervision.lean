import UnifiedCache.Infra.ThreadPoolTasks

/-! The list of workers, which a complete round of the monitor fills up, and the tasks that are
blamed for a timeout, each once. -/

namespace UnifiedCache.Infra.ThreadPool

open StepSystem

namespace Pool

variable {config : Config} {s s' : Pool} {e : Event} {w : Nat}

/-- The listed workers, without the one that is being taken out and with the one that is being added. -/
def active (s : Pool) : List Nat :=
  match s.monitor with
  | .scanning it .stopped => s.workers.eraseIdx it
  | .adding _ _ (some w) => s.workers ++ [w]
  | _ => s.workers

/-- How many workers are listed. -/
def Sized (config : Config) (s : Pool) : Prop :=
  match s.monitor with
  | .sleeping complete => s.workers.length ≤ config.nWorker ∧ (complete = true → s.workers.length = config.nWorker)
  | .scanning _ _ => s.workers.length ≤ config.nWorker
  | .adding i failed none =>
    s.workers.length ≤ i ∧ i ≤ config.nWorker ∧ (failed = false → s.workers.length = i)
  | .adding i failed (some _) =>
    s.workers.length ≤ i ∧ i < config.nWorker ∧ (failed = false → s.workers.length = i)

/-- The workers that are not asked to stop are those in the list. -/
structure Listing (config : Config) (s : Pool) : Prop where
  lt : ∀ w ∈ s.workers, w < s.created
  nodup : s.workers.Nodup
  active_nodup : s.active.Nodup
  active : ∀ w, w ∈ s.active ↔ w < s.created ∧ (s.worker w).stop = false
  sized : Sized config s

theorem listing_start (config : Config) : Listing config (start config) where
  lt := fun _ hw => List.mem_range.mp hw
  nodup := List.nodup_range
  active_nodup := List.nodup_range
  active := fun _ => ⟨fun hw => ⟨List.mem_range.mp hw, rfl⟩, fun hw => List.mem_range.mpr hw.1⟩
  sized := ⟨le_of_eq List.length_range, fun _ => List.length_range⟩

theorem Listing.frame (h : Listing config s) (hm : s'.monitor = s.monitor) (hl : s'.workers = s.workers)
    (hc : s'.created = s.created) (hstop : ∀ w, (s'.worker w).stop = (s.worker w).stop) : Listing config s' := by
  have hactive : s'.active = s.active := by
    rw [Pool.active, Pool.active, hm, hl]
  refine ⟨by rw [hl, hc]; exact h.lt, by rw [hl]; exact h.nodup, by rw [hactive]; exact h.active_nodup, fun w => ?_, ?_⟩
  · rw [hactive, hc, hstop]
    exact h.active w
  · have hsized := h.sized
    unfold Sized at hsized ⊢
    rw [hm, hl]
    exact hsized

/-- The monitor goes on with the list as it is. -/
theorem Listing.go (h : Listing config s) {m : Monitor} (h₁ : s.active = s.workers)
    (h₂ : (s.setMonitor m).active = s.workers) (hsized : Sized config (s.setMonitor m)) :
    Listing config (s.setMonitor m) := by
  refine ⟨h.lt, h.nodup, ?_, fun w => ?_, hsized⟩
  · rw [h₂, ← h₁]
    exact h.active_nodup
  · rw [h₂, ← h₁]
    exact h.active w

theorem stop_setWorker {wk : Worker} (h : wk.stop = (s.worker w).stop) (w' : Nat) :
    ((s.setWorker w wk).worker w').stop = (s.worker w').stop := by
  rw [worker_setWorker]
  split_ifs with he
  · rw [he, h]
  · rfl

theorem Listing.le (h : Listing config s) {it : Nat} {stage : Stage} (hm : s.monitor = .scanning it stage) :
    s.workers.length ≤ config.nWorker := by
  have hsized := h.sized
  unfold Sized at hsized
  rwa [hm] at hsized

theorem Step.listing (hs : Step config s e s') (h : Listing config s) : Listing config s' := by
  cases hs with
  | push n => exact h.frame rfl rfl rfl fun _ => rfl
  | tick => exact h.frame rfl rfl rfl fun _ => rfl
  | take hw hphase hq => exact h.frame rfl rfl rfl (stop_setWorker rfl)
  | call hw hphase => exact h.frame rfl rfl rfl (stop_setWorker rfl)
  | returns hw hphase => exact h.frame rfl rfl rfl (stop_setWorker rfl)
  | turn hw ht => exact h.frame rfl rfl rfl (stop_setWorker ht.stop)
  | wake hm =>
    have hsized := h.sized
    unfold Sized at hsized
    rw [hm] at hsized
    exact h.go (by rw [Pool.active, hm]) rfl hsized.1
  | load hm hw => exact h.go (by rw [Pool.active, hm]) rfl (h.le hm)
  | lock hm hw => exact h.go (by rw [Pool.active, hm]) rfl (h.le hm)
  | overdue hm hw hover => exact h.go (by rw [Pool.active, hm]) rfl (h.le hm)
  | pass hm hw => exact h.go (by rw [Pool.active, hm]) rfl (h.le hm)
  | @blame it w task hm hw =>
    have hgo := h.go (m := .scanning it (.blamed task)) (by rw [Pool.active, hm]) rfl (h.le hm)
    exact ⟨hgo.lt, hgo.nodup, hgo.active_nodup, hgo.active, hgo.sized⟩
  | @requestStop it w task hm hw =>
    have hactive : s.active = s.workers := by rw [Pool.active, hm]
    refine ⟨h.lt, h.nodup, h.nodup.sublist (List.eraseIdx_sublist _ _), fun w' => ?_, h.le hm⟩
    change w' ∈ s.workers.eraseIdx it ↔ w' < s.created ∧ ((s.setWorker w _).worker w').stop = false
    have hmem : w' ∈ s.workers.eraseIdx it ↔ w' ≠ w ∧ w' ∈ s.workers := by
      obtain ⟨hit, hget⟩ := List.getElem?_eq_some_iff.mp hw
      rw [← h.nodup.erase_getElem it hit, hget, h.nodup.mem_erase_iff]
    rw [hmem, worker_setWorker]
    split_ifs with he
    · simp [he]
    · rw [← hactive, h.active w']
      exact ⟨And.right, fun hw' => ⟨he, hw'⟩⟩
  | @erase it w hm hw =>
    have hactive : s.active = s.workers.eraseIdx it := by rw [Pool.active, hm]
    refine ⟨fun w' hw' => h.lt w' (List.mem_of_mem_eraseIdx hw'), h.nodup.sublist (List.eraseIdx_sublist _ _), ?_,
      fun w' => ?_, (List.length_eraseIdx_le _ _).trans (h.le hm)⟩
    · change (s.workers.eraseIdx it).Nodup
      exact h.nodup.sublist (List.eraseIdx_sublist _ _)
    · change w' ∈ s.workers.eraseIdx it ↔ _
      rw [← hactive]
      exact h.active w'
  | @scanned it stage hm hw =>
    have hactive : s.active = s.workers := by
      unfold Pool.active
      rw [hm]
      cases stage with
      | stopped => exact List.eraseIdx_of_length_le (List.getElem?_eq_none_iff.mp hw)
      | _ => rfl
    exact h.go hactive rfl ⟨le_rfl, h.le hm, fun _ => rfl⟩
  | @added i failed hm hi =>
    have hsized := h.sized
    unfold Sized at hsized
    rw [hm] at hsized
    obtain ⟨hlen, hle, heq⟩ := hsized
    refine h.go (by rw [Pool.active, hm]) rfl ⟨hlen.trans hle, fun hc => ?_⟩
    exact (heq (by simpa using hc)).trans (by omega)
  | @list i w failed hm =>
    have hsized := h.sized
    unfold Sized at hsized
    rw [hm] at hsized
    obtain ⟨hlen, hlt, heq⟩ := hsized
    have hactive : s.active = s.workers ++ [w] := by rw [Pool.active, hm]
    have hnd := h.active_nodup
    have hact := h.active
    rw [hactive] at hnd hact
    refine ⟨fun w' hw' => ((hact w').mp hw').1, hnd, hnd, hact, ?_, hlt, fun hf => ?_⟩
    · change (s.workers ++ [w]).length ≤ i + 1
      rw [List.length_append]
      exact Nat.succ_le_succ hlen
    · change (s.workers ++ [w]).length = i + 1
      rw [List.length_append, heq hf]
      rfl
  | @create i failed hm hi =>
    have hsized := h.sized
    unfold Sized at hsized
    rw [hm] at hsized
    obtain ⟨hlen, hle, heq⟩ := hsized
    have hactive : s.active = s.workers := by rw [Pool.active, hm]
    have hnd := h.active_nodup
    have hact := h.active
    rw [hactive] at hnd hact
    have hnew : s.created ∉ s.workers := fun hm => Nat.lt_irrefl _ (h.lt _ hm)
    refine ⟨fun w' hw' => (h.lt w' hw').trans (Nat.lt_succ_self _), h.nodup, ?_, fun w' => ?_, hlen, hi, heq⟩
    · change (s.workers ++ [s.created]).Nodup
      exact List.nodup_append.mpr ⟨hnd, List.nodup_singleton _, fun a ha b hb hab => by
        rw [List.mem_singleton.mp hb] at hab
        exact hnew (hab ▸ ha)⟩
    · change w' ∈ s.workers ++ [s.created] ↔ w' < s.created + 1 ∧
        ((s.setWorker s.created Worker.fresh).worker w').stop = false
      rw [List.mem_append, List.mem_singleton, worker_setWorker]
      split_ifs with he
      · simp [he, Worker.fresh]
      · rw [hact w']
        constructor
        · rintro (⟨hlt, hstop⟩ | rfl)
          · exact ⟨hlt.trans (Nat.lt_succ_self _), hstop⟩
          · exact absurd rfl he
        · rintro ⟨hlt, hstop⟩
          exact Or.inl ⟨by omega, hstop⟩
  | @notCreated i failed hm hi =>
    have hsized := h.sized
    unfold Sized at hsized
    rw [hm] at hsized
    exact h.go (by rw [Pool.active, hm]) rfl ⟨hsized.1.trans (Nat.le_succ _), hi, fun hf => by cases hf⟩

end Pool

end UnifiedCache.Infra.ThreadPool
