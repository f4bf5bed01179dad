import UnifiedCache.Lib.StepSystem

/-! The ring queue between one producer and one consumer. Its indices are shared, so a
call is several steps: each load and each store of an index, and each access to a slot. -/

namespace UnifiedCache.Infra

open StepSystem

/-- Indices stay below the capacity, so `size_t` never wraps. -/
structure SpscRingQueue (T : Type) where
  head : Nat
  tail : Nat
  pow2 : Bool
  mask : Nat
  capacity : Nat
  buffer : Nat → T

namespace SpscRingQueue

variable {T : Type}

def mod (q : SpscRingQueue T) (n : Nat) : Nat :=
  if q.pow2 then n &&& q.mask else n % q.capacity

/-- `initial` is the value that `make_unique` puts in every slot. -/
def setup (initial : T) (capacity : Nat) : SpscRingQueue T where
  head := 0
  tail := 0
  pow2 := capacity &&& (capacity - 1) == 0
  mask := capacity - 1
  capacity := capacity
  buffer := fun _ => initial

/-- Where the producer is: `spin` marks a `Push`, which tries again when the queue is
full, while a `TryPush` returns false. -/
inductive Producer (T : Type)
  | idle
  | calling (spin : Bool) (value : T)
  | loadedHead (spin : Bool) (value : T) (currentHead nextHead : Nat)
  | admitted (value : T) (currentHead nextHead : Nat)
  | written (value : T) (nextHead : Nat)
  deriving DecidableEq

/-- Where the consumer is in a `TryPop`. -/
inductive Consumer (T : Type)
  | idle
  | loadedHead (currentHead : Nat)
  | admitted (currentTail : Nat)
  | taken (value : T) (currentTail : Nat)
  deriving DecidableEq

/-- The queue with its two users. `pushed` and `popped` are the values whose index store
is done, `loaded` is what the queue held when the producer last loaded the head, and
`refused` has that number for every `TryPush` that returned false. -/
structure State (T : Type) where
  queue : SpscRingQueue T
  producer : Producer T := .idle
  consumer : Consumer T := .idle
  pushed : List T := []
  popped : List T := []
  loaded : Nat := 0
  refused : List Nat := []

inductive Event (T : Type)
  | call (spin : Bool) (value : T)
  | loadHead
  | loadTail
  | write
  | storeHead
  | popLoadHead
  | popLoadTail
  | take (left : T)
  | storeTail

/-- A value that is moved out of a slot leaves some value behind, which the event names. -/
def step (s : State T) : Event T → Option (State T)
  | .call spin value =>
    match s.producer with
    | .idle => some { s with producer := .calling spin value }
    | _ => none
  | .loadHead =>
    match s.producer with
    | .calling spin value =>
      some { s with
        producer := .loadedHead spin value s.queue.head (s.queue.mod (s.queue.head + 1))
        loaded := s.pushed.length - s.popped.length }
    | _ => none
  | .loadTail =>
    match s.producer with
    | .loadedHead spin value currentHead nextHead =>
      if nextHead ≠ s.queue.tail then
        some { s with producer := .admitted value currentHead nextHead }
      else if spin then
        some { s with producer := .calling spin value }
      else
        some { s with producer := .idle, refused := s.loaded :: s.refused }
    | _ => none
  | .write =>
    match s.producer with
    | .admitted value currentHead nextHead =>
      some { s with
        queue := { s.queue with buffer := Function.update s.queue.buffer currentHead value }
        producer := .written value nextHead }
    | _ => none
  | .storeHead =>
    match s.producer with
    | .written value nextHead =>
      some { s with
        queue := { s.queue with head := nextHead }
        producer := .idle
        pushed := s.pushed ++ [value] }
    | _ => none
  | .popLoadHead =>
    match s.consumer with
    | .idle => some { s with consumer := .loadedHead s.queue.head }
    | _ => none
  | .popLoadTail =>
    match s.consumer with
    | .loadedHead currentHead =>
      if s.queue.tail = currentHead then some { s with consumer := .idle }
      else some { s with consumer := .admitted s.queue.tail }
    | _ => none
  | .take left =>
    match s.consumer with
    | .admitted currentTail =>
      some { s with
        queue := { s.queue with buffer := Function.update s.queue.buffer currentTail left }
        consumer := .taken (s.queue.buffer currentTail) currentTail }
    | _ => none
  | .storeTail =>
    match s.consumer with
    | .taken value currentTail =>
      some { s with
        queue := { s.queue with tail := s.queue.mod (currentTail + 1) }
        consumer := .idle
        popped := s.popped ++ [value] }
    | _ => none

def start (initial : T) (capacity : Nat) : State T := { queue := setup initial capacity }

/-- Every interleaving of the two users. -/
abbrev Reachable (initial : T) (capacity : Nat) : State T → Prop :=
  Reach step (fun _ _ => True) (start initial capacity)

/-- The slot of an unpopped value: one whose head store is done and whose tail store is not. -/
def Occupied (s : State T) (slot : Nat) : Prop :=
  ∃ k, s.popped.length ≤ k ∧ k < s.pushed.length ∧ k % s.queue.capacity = slot

/-- The queue with the modulo in place of the mask. -/
def State.modulo (s : State T) : State T := { s with queue := { s.queue with pow2 := false } }

section Index

variable {capacity n m : Nat}

theorem and_mask_eq_mod (hc : capacity ≠ 0) (hp : capacity &&& (capacity - 1) = 0) (n : Nat) :
    n &&& (capacity - 1) = n % capacity := by
  obtain ⟨k, rfl⟩ := (Nat.and_sub_one_eq_zero_iff_isPowerOfTwo hc).mp hp
  exact Nat.and_two_pow_sub_one_eq_mod n k

theorem mod_setup (initial : T) (hc : capacity ≠ 0) (n : Nat) :
    (setup initial capacity).mod n = n % capacity := by
  by_cases hp : capacity &&& (capacity - 1) = 0
  · simpa [mod, setup, hp] using and_mask_eq_mod hc hp n
  · simp [mod, setup, hp]

/-- Two positions less than a lap apart have different slots. -/
theorem eq_of_mod_eq (hle : n ≤ m) (hlt : m < n + capacity) (h : n % capacity = m % capacity) :
    n = m := by
  have hdvd : capacity ∣ m - n := (Nat.modEq_iff_dvd' hle).mp h
  have hzero : m - n = 0 := Nat.eq_zero_of_dvd_of_lt hdvd (by omega)
  omega

end Index

section Invariant

variable {capacity : Nat} {s s' : State T} {e : Event T}

def Producer.Ok (capacity : Nat) (s : State T) : Producer T → Prop
  | .idle => True
  | .calling _ _ => True
  | .loadedHead _ _ currentHead nextHead =>
    currentHead = s.pushed.length % capacity ∧ nextHead = (s.pushed.length + 1) % capacity ∧
      s.pushed.length ≤ s.popped.length + s.loaded ∧ s.loaded < capacity
  | .admitted _ currentHead nextHead =>
    currentHead = s.pushed.length % capacity ∧ nextHead = (s.pushed.length + 1) % capacity ∧
      s.pushed.length + 1 < s.popped.length + capacity
  | .written value nextHead =>
    nextHead = (s.pushed.length + 1) % capacity ∧
      s.pushed.length + 1 < s.popped.length + capacity ∧
      s.queue.buffer (s.pushed.length % capacity) = value

def Consumer.Ok (capacity : Nat) (s : State T) : Consumer T → Prop
  | .idle => True
  | .loadedHead currentHead =>
    ∃ p, s.popped.length ≤ p ∧ p ≤ s.pushed.length ∧ currentHead = p % capacity
  | .admitted currentTail =>
    currentTail = s.popped.length % capacity ∧ s.popped.length < s.pushed.length
  | .taken value currentTail =>
    currentTail = s.popped.length % capacity ∧ s.pushed[s.popped.length]? = some value

/-- The first position whose value is still in its slot. -/
def front (s : State T) : Nat :=
  match s.consumer with
  | .taken _ _ => s.popped.length + 1
  | _ => s.popped.length

structure Inv (capacity : Nat) (s : State T) : Prop where
  mod_eq : ∀ n, s.queue.mod n = n % capacity
  capacity_eq : s.queue.capacity = capacity
  popped : s.popped <+: s.pushed
  head_eq : s.queue.head = s.pushed.length % capacity
  tail_eq : s.queue.tail = s.popped.length % capacity
  room : s.pushed.length < s.popped.length + capacity
  slots : ∀ k, front s ≤ k → k < s.pushed.length →
    s.pushed[k]? = some (s.queue.buffer (k % capacity))
  producer : s.producer.Ok capacity s
  consumer : s.consumer.Ok capacity s
  refused : ∀ held ∈ s.refused, held = capacity - 1

theorem popped_length_le_front (s : State T) : s.popped.length ≤ front s := by
  unfold front
  split <;> omega

theorem inv_start (initial : T) (hc : 2 ≤ capacity) : Inv capacity (start initial capacity) where
  mod_eq := mod_setup initial (by omega)
  capacity_eq := rfl
  popped := List.prefix_rfl
  head_eq := (Nat.zero_mod _).symm
  tail_eq := (Nat.zero_mod _).symm
  room := by change 0 < 0 + capacity; omega
  slots := fun k _ hk => absurd hk (Nat.not_lt_zero k)
  producer := trivial
  consumer := trivial
  refused := fun _ h => absurd h List.not_mem_nil

theorem Inv.loadHead (hi : Inv capacity s) (h : step s .loadHead = some s') : Inv capacity s' := by
  simp only [step] at h
  split at h
  · cases h
    have hle := hi.popped.length_le
    have hroom := hi.room
    have hn : s.queue.mod (s.queue.head + 1) = (s.pushed.length + 1) % capacity := by
      rw [hi.mod_eq, hi.head_eq, Nat.mod_add_mod]
    have hp : s.pushed.length ≤ s.popped.length + (s.pushed.length - s.popped.length) := by omega
    have hl : s.pushed.length - s.popped.length < capacity := by omega
    exact { hi with producer := ⟨hi.head_eq, hn, hp, hl⟩ }
  · cases h

/-- A full queue was already full when the producer loaded the head, as only the producer
adds to it. -/
theorem Inv.loadTail (hi : Inv capacity s) (h : step s .loadTail = some s') : Inv capacity s' := by
  simp only [step] at h
  split at h
  next spin value currentHead nextHead hp =>
    have hok := hi.producer
    rw [hp] at hok
    obtain ⟨hh, hn, hl, hb⟩ := hok
    have hle := hi.popped.length_le
    have hroom := hi.room
    split_ifs at h with hne hspin
    · cases h
      have hlt : s.pushed.length + 1 < s.popped.length + capacity := by
        by_contra hge
        have he : s.pushed.length + 1 = s.popped.length + capacity := by omega
        rw [he, Nat.add_mod_right] at hn
        exact hne (hn.trans hi.tail_eq.symm)
      exact { hi with producer := ⟨hh, hn, hlt⟩ }
    · cases h
      exact { hi with producer := trivial }
    · cases h
      have hfull : s.loaded = capacity - 1 := by
        have ht : s.popped.length % capacity = (s.pushed.length + 1) % capacity := by
          rw [← hn, ← hi.tail_eq]
          exact (not_not.mp hne).symm
        by_contra hne'
        have := eq_of_mod_eq (by omega) (by omega) ht
        omega
      refine { hi with producer := trivial, refused := fun held hm => ?_ }
      rcases List.mem_cons.mp hm with rfl | hm
      · exact hfull
      · exact hi.refused held hm
  next => cases h

/-- The slot that the producer writes is a lap or less ahead of every unpopped value. -/
theorem ne_slot (hlt : s.pushed.length + 1 < s.popped.length + capacity) {k : Nat}
    (hk : s.popped.length ≤ k) (hk' : k < s.pushed.length) :
    k % capacity ≠ s.pushed.length % capacity := by
  intro he
  have := eq_of_mod_eq (by omega) (by omega) he
  omega

theorem Inv.write (hi : Inv capacity s) (h : step s .write = some s') : Inv capacity s' := by
  simp only [step] at h
  split at h
  next value currentHead nextHead hp =>
    cases h
    have hok := hi.producer
    rw [hp] at hok
    obtain ⟨hh, hn, hlt⟩ := hok
    have hslots : ∀ k, front s ≤ k → k < s.pushed.length → s.pushed[k]? =
        some (Function.update s.queue.buffer currentHead value (k % capacity)) := by
      intro k hk hk'
      have hle := popped_length_le_front s
      rw [Function.update_of_ne (hh ▸ ne_slot hlt (by omega) hk')]
      exact hi.slots k hk hk'
    have hbuf : Function.update s.queue.buffer currentHead value (s.pushed.length % capacity) =
        value := by
      rw [← hh]
      exact Function.update_self ..
    exact { hi with slots := hslots, producer := ⟨hn, hlt, hbuf⟩ }
  next => cases h

theorem Inv.storeHead (hi : Inv capacity s) (h : step s .storeHead = some s') :
    Inv capacity s' := by
  simp only [step] at h
  split at h
  next value nextHead hp =>
    cases h
    have hok := hi.producer
    rw [hp] at hok
    obtain ⟨hn, hlt, hbuf⟩ := hok
    have hlen : (s.pushed ++ [value]).length = s.pushed.length + 1 := by simp
    refine { hi with
      popped := hi.popped.trans (List.prefix_append _ _)
      head_eq := by rw [hlen]; exact hn
      room := by rw [hlen]; exact hlt
      producer := trivial
      slots := fun k hk hk' => ?_
      consumer := ?_ }
    · by_cases he : k = s.pushed.length
      · rw [he, List.getElem?_concat_length, hbuf]
      · have hold : k < s.pushed.length := by rw [hlen] at hk'; omega
        rw [List.getElem?_append_left hold]
        exact hi.slots k hk hold
    · have hok := hi.consumer
      change s.consumer.Ok capacity _
      cases hc : s.consumer with
      | idle => trivial
      | loadedHead currentHead =>
        rw [hc] at hok
        obtain ⟨p, hp, hp', he⟩ := hok
        exact ⟨p, hp, by rw [hlen]; omega, he⟩
      | admitted currentTail =>
        rw [hc] at hok
        exact ⟨hok.1, by rw [hlen]; exact Nat.lt_succ_of_lt hok.2⟩
      | taken v currentTail =>
        rw [hc] at hok
        obtain ⟨hlt, _⟩ := List.getElem?_eq_some_iff.mp hok.2
        exact ⟨hok.1, by rw [List.getElem?_append_left hlt]; exact hok.2⟩
  next => cases h

theorem Inv.popLoadTail (hi : Inv capacity s) (h : step s .popLoadTail = some s') :
    Inv capacity s' := by
  simp only [step] at h
  split at h
  next currentHead hp =>
    have hok := hi.consumer
    rw [hp] at hok
    obtain ⟨p, hle, hle', he⟩ := hok
    have hf : front s = s.popped.length := by simp [front, hp]
    have hslots := hi.slots
    rw [hf] at hslots
    split_ifs at h with ht
    · cases h
      exact { hi with slots := hslots, consumer := trivial }
    · cases h
      have hne : p ≠ s.popped.length := by
        rintro rfl
        exact ht (hi.tail_eq.trans he.symm)
      have hlt : s.popped.length < s.pushed.length := by omega
      exact { hi with slots := hslots, consumer := ⟨hi.tail_eq, hlt⟩ }
  next => cases h

theorem Inv.take {left : T} (hi : Inv capacity s) (h : step s (.take left) = some s') :
    Inv capacity s' := by
  simp only [step] at h
  split at h
  next currentTail hp =>
    cases h
    have hok := hi.consumer
    rw [hp] at hok
    obtain ⟨ht, hlt⟩ := hok
    have hf : front s = s.popped.length := by simp [front, hp]
    have hroom := hi.room
    have hother : ∀ k, s.popped.length < k → k ≤ s.pushed.length →
        Function.update s.queue.buffer currentTail left (k % capacity) =
          s.queue.buffer (k % capacity) := by
      intro k hk hk'
      refine Function.update_of_ne (fun he => ?_) _ _
      have := eq_of_mod_eq (n := s.popped.length) (m := k) (by omega) (by omega) (he.trans ht).symm
      omega
    refine { hi with
      slots := fun k hk hk' => ?_
      producer := ?_
      consumer := ⟨ht, ?_⟩ }
    · change s.pushed[k]? = some (Function.update s.queue.buffer currentTail left (k % capacity))
      rw [hother k hk (Nat.le_of_lt hk')]
      exact hi.slots k (by rw [hf]; exact Nat.le_of_succ_le hk) hk'
    · have hok := hi.producer
      change s.producer.Ok capacity _
      cases hc : s.producer with
      | idle => trivial
      | calling spin value => trivial
      | loadedHead spin value currentHead nextHead =>
        rw [hc] at hok
        exact hok
      | admitted value currentHead nextHead =>
        rw [hc] at hok
        exact hok
      | written value nextHead =>
        rw [hc] at hok
        exact ⟨hok.1, hok.2.1, (hother _ hlt le_rfl).trans hok.2.2⟩
    · rw [ht]
      exact hi.slots _ (le_of_eq hf) hlt
  next => cases h

theorem Inv.storeTail (hi : Inv capacity s) (h : step s .storeTail = some s') :
    Inv capacity s' := by
  simp only [step] at h
  split at h
  next value currentTail hp =>
    cases h
    have hok := hi.consumer
    rw [hp] at hok
    obtain ⟨ht, hv⟩ := hok
    obtain ⟨hlt, hv⟩ := List.getElem?_eq_some_iff.mp hv
    have hlen : (s.popped ++ [value]).length = s.popped.length + 1 := by simp
    have hgrow : ∀ n, s.popped.length + n ≤ (s.popped ++ [value]).length + n := by
      intro n
      omega
    have hf : front s = s.popped.length + 1 := by simp [front, hp]
    refine { hi with
      popped := ?_
      tail_eq := ?_
      room := hi.room.trans_le (hgrow capacity)
      slots := fun k hk hk' => hi.slots k ?_ hk'
      producer := ?_
      consumer := trivial }
    · have htake := List.prefix_iff_eq_take.mp hi.popped
      rw [List.prefix_iff_eq_take, hlen, List.take_succ_eq_append_getElem hlt, ← htake, hv]
    · change s.queue.mod (currentTail + 1) = _
      rw [hi.mod_eq, ht, Nat.mod_add_mod, hlen]
    · change (s.popped ++ [value]).length ≤ k at hk
      omega
    · have hok := hi.producer
      change s.producer.Ok capacity _
      cases hc : s.producer with
      | idle => trivial
      | calling spin value => trivial
      | loadedHead spin v currentHead nextHead =>
        rw [hc] at hok
        exact ⟨hok.1, hok.2.1, hok.2.2.1.trans (hgrow s.loaded), hok.2.2.2⟩
      | admitted v currentHead nextHead =>
        rw [hc] at hok
        exact ⟨hok.1, hok.2.1, hok.2.2.trans_le (hgrow capacity)⟩
      | written v nextHead =>
        rw [hc] at hok
        exact ⟨hok.1, hok.2.1.trans_le (hgrow capacity), hok.2.2⟩
  next => cases h

theorem Inv.step (hi : Inv capacity s) (h : step s e = some s') : Inv capacity s' := by
  cases e with
  | call spin value =>
    simp only [SpscRingQueue.step] at h
    split at h
    · cases h
      exact { hi with producer := trivial }
    · cases h
  | loadHead => exact hi.loadHead h
  | loadTail => exact hi.loadTail h
  | write => exact hi.write h
  | storeHead => exact hi.storeHead h
  | popLoadHead =>
    simp only [SpscRingQueue.step] at h
    split at h
    next hp =>
      cases h
      have hslots := hi.slots
      have hf : front s = s.popped.length := by simp [front, hp]
      rw [hf] at hslots
      exact { hi with slots := hslots
                      consumer := ⟨s.pushed.length, hi.popped.length_le, le_rfl, hi.head_eq⟩ }
    next => cases h
  | popLoadTail => exact hi.popLoadTail h
  | take left => exact hi.take h
  | storeTail => exact hi.storeTail h

theorem inv_of_reachable {initial : T} (hc : 2 ≤ capacity) (h : Reachable initial capacity s) :
    Inv capacity s :=
  h.invariant (Inv capacity) (inv_start initial hc) fun _ _ _ hi _ hs => hi.step hs

end Invariant

section Modulo

variable {capacity : Nat} {s s' : State T} {e : Event T}

/-- The step that takes the modulo does the same as the one that takes the mask. -/
theorem step_modulo (hm : ∀ n, s.queue.mod n = n % s.queue.capacity) :
    step s.modulo e = (step s e).map State.modulo := by
  have hmod : ∀ n, s.modulo.queue.mod n = s.queue.mod n := fun n => (hm n).symm
  cases e with
  | loadTail =>
    simp only [step, State.modulo]
    split
    · simp only [apply_ite (Option.map _), Option.map_some]
      rfl
    · rfl
  | popLoadTail =>
    simp only [step, State.modulo]
    split
    · simp only [apply_ite (Option.map _), Option.map_some]
      rfl
    · rfl
  | _ =>
    simp only [step, hmod]
    simp only [State.modulo]
    split <;> rfl

theorem run_modulo (es : List (Event T)) (hi : Inv capacity s) :
    run step s.modulo es = (run step s es).map State.modulo := by
  induction es generalizing s with
  | nil => rfl
  | cons e es ih =>
    have hm : ∀ n, s.queue.mod n = n % s.queue.capacity := by
      rw [hi.capacity_eq]
      exact hi.mod_eq
    simp only [run]
    rw [step_modulo hm]
    cases hs : step s e with
    | none => rfl
    | some s' => exact ih (hi.step hs)

end Modulo

/-- The queue is a lossless FIFO: what is popped is a prefix of what is pushed, a slot is
written only when no unpopped value is in it, the queue holds less than its capacity, a
push is refused only on a full queue, and the mask gives what the modulo gives. -/
theorem lossless {capacity : Nat} (initial : T) (hc : 2 ≤ capacity) :
    (∀ s, Reachable initial capacity s →
      s.popped <+: s.pushed ∧
      (∀ value currentHead nextHead, s.producer = .admitted value currentHead nextHead →
        ¬ Occupied s currentHead) ∧
      s.pushed.length - s.popped.length ≤ capacity - 1 ∧
      ∀ held ∈ s.refused, held = capacity - 1) ∧
    (∀ n, capacity &&& (capacity - 1) = 0 → n &&& (capacity - 1) = n % capacity) ∧
    ∀ es, run step (start initial capacity).modulo es =
      (run step (start initial capacity) es).map State.modulo := by
  refine ⟨fun s hs => ?_, fun n hp => and_mask_eq_mod (by omega) hp n,
    fun es => run_modulo es (inv_start initial hc)⟩
  have hi := inv_of_reachable hc hs
  have hroom := hi.room
  refine ⟨hi.popped, fun value currentHead nextHead hp => ?_, by omega, hi.refused⟩
  have hok := hi.producer
  rw [hp] at hok
  rintro ⟨k, hk, hk', he⟩
  rw [hi.capacity_eq, hok.1] at he
  exact ne_slot hok.2.2 hk hk' he

theorem lossless_three : (∀ s, Reachable 0 3 s → s.popped <+: s.pushed ∧
      (∀ value currentHead nextHead, s.producer = .admitted value currentHead nextHead →
        ¬ Occupied s currentHead) ∧
      s.pushed.length - s.popped.length ≤ 3 - 1 ∧ ∀ held ∈ s.refused, held = 3 - 1) ∧
    (∀ n, 3 &&& (3 - 1) = 0 → n &&& (3 - 1) = n % 3) ∧
    ∀ es, run step (start 0 3).modulo es = (run step (start 0 3) es).map State.modulo :=
  lossless 0 (by decide)

end SpscRingQueue

end UnifiedCache.Infra
