import UnifiedCache.Lib.LinearProbe

/-! A fixed set of nodes that hold keys. A node is pinned while its reference
count is positive; a clock hand reuses any unpinned node for a new key. -/

structure PinnedPool (Key : Type*) where
  nNode : Nat
  hand : Nat
  key : Nat → Option Key
  reference : Nat → Nat
  ready : Nat → Bool

namespace PinnedPool

variable {Key : Type*}

@[ext] theorem ext {p q : PinnedPool Key} (hn : p.nNode = q.nNode) (hh : p.hand = q.hand)
    (hk : p.key = q.key) (hr : p.reference = q.reference) (hd : p.ready = q.ready) : p = q := by
  cases p
  cases q
  simp_all

def start (nNode : Nat) : PinnedPool Key := ⟨nNode, 0, fun _ => none, fun _ => 0, fun _ => false⟩

def pin (p : PinnedPool Key) (i : Nat) : PinnedPool Key :=
  { p with reference := Function.update p.reference i (p.reference i + 1) }

def unpin (p : PinnedPool Key) (i : Nat) : PinnedPool Key :=
  { p with reference := Function.update p.reference i (p.reference i - 1) }

def markReady (p : PinnedPool Key) (i : Nat) : PinnedPool Key :=
  { p with ready := Function.update p.ready i true }

def advance (p : PinnedPool Key) : PinnedPool Key :=
  { p with hand := if p.hand + 1 = p.nNode then 0 else p.hand + 1 }

def rekey (p : PinnedPool Key) (i : Nat) (k : Key) : PinnedPool Key :=
  { p with
    key := Function.update p.key i (some k)
    reference := Function.update p.reference i (p.reference i + 1)
    ready := Function.update p.ready i false }

section Fields

variable (p : PinnedPool Key) (i : Nat)

@[simp] theorem pin_key : (p.pin i).key = p.key := rfl

@[simp] theorem pin_ready : (p.pin i).ready = p.ready := rfl

@[simp] theorem unpin_key : (p.unpin i).key = p.key := rfl

@[simp] theorem unpin_ready : (p.unpin i).ready = p.ready := rfl

@[simp] theorem markReady_key : (p.markReady i).key = p.key := rfl

@[simp] theorem markReady_reference : (p.markReady i).reference = p.reference := rfl

@[simp] theorem advance_key : p.advance.key = p.key := rfl

@[simp] theorem advance_reference : p.advance.reference = p.reference := rfl

@[simp] theorem advance_ready : p.advance.ready = p.ready := rfl

end Fields

/-- One round of the clock: the node under the hand is reused unless pinned. -/
def round (p : PinnedPool Key) (k : Key) : PinnedPool Key × Option Nat :=
  if 0 < p.reference p.hand then (p.advance, none)
  else (p.advance.rekey p.hand k, some p.hand)

def clock (k : Key) : Nat → PinnedPool Key → Option (PinnedPool Key × Nat)
  | 0, _ => none
  | fuel + 1, p =>
    match p.round k with
    | (q, some i) => some (q, i)
    | (q, none) => clock k fuel q

structure Ok (p : PinnedPool Key) : Prop where
  bound : ∀ i k, p.key i = some k → i < p.nNode
  unique : ∀ i j k, p.key i = some k → p.key j = some k → i = j
  hand : p.hand < p.nNode

variable {p : PinnedPool Key} {i : Nat} {k : Key}

theorem ok_start {n : Nat} (hn : 1 ≤ n) : (start n : PinnedPool Key).Ok :=
  ⟨fun i k h => (by cases h), fun i j k h => (by cases h), hn⟩

theorem advance_hand (h : p.hand < p.nNode) : p.advance.hand = (p.hand + 1) % p.nNode := by
  by_cases he : p.hand + 1 = p.nNode
  · simp [advance, he]
  · simp [advance, he, Nat.mod_eq_of_lt (by omega : p.hand + 1 < p.nNode)]

theorem Ok.pin (h : p.Ok) (i : Nat) : (p.pin i).Ok := ⟨h.bound, h.unique, h.hand⟩

theorem Ok.unpin (h : p.Ok) (i : Nat) : (p.unpin i).Ok := ⟨h.bound, h.unique, h.hand⟩

theorem Ok.markReady (h : p.Ok) (i : Nat) : (p.markReady i).Ok := ⟨h.bound, h.unique, h.hand⟩

theorem Ok.advance (h : p.Ok) : p.advance.Ok := by
  refine ⟨h.bound, h.unique, ?_⟩
  have hpos : 0 < p.nNode := Nat.zero_lt_of_lt h.hand
  rw [advance_hand h.hand]
  exact Nat.mod_lt _ hpos

theorem Ok.rekey (h : p.Ok) (hi : i < p.nNode) (hk : ∀ j, p.key j ≠ some k) : (p.rekey i k).Ok := by
  refine ⟨fun j x hj => ?_, fun j j' x hj hj' => ?_, h.hand⟩
  · by_cases he : j = i
    · rw [he]
      exact hi
    · exact h.bound j x (by simpa [PinnedPool.rekey, he] using hj)
  · by_cases he : j = i <;> by_cases he' : j' = i
    · rw [he, he']
    · simp only [PinnedPool.rekey, he, Function.update_self, Function.update_of_ne he'] at hj hj'
      rw [← hj] at hj'
      exact absurd hj' (hk j')
    · simp only [PinnedPool.rekey, he', Function.update_self, Function.update_of_ne he] at hj hj'
      rw [← hj'] at hj
      exact absurd hj (hk j)
    · simp only [PinnedPool.rekey, Function.update_of_ne he, Function.update_of_ne he'] at hj hj'
      exact h.unique j j' x hj hj'

/-- What a round of the clock can do. -/
theorem round_cases (p : PinnedPool Key) (k : Key) :
    (0 < p.reference p.hand ∧ p.round k = (p.advance, none)) ∨
    (p.reference p.hand = 0 ∧ p.round k = (p.advance.rekey p.hand k, some p.hand)) := by
  by_cases h : 0 < p.reference p.hand
  · exact Or.inl ⟨h, by simp [round, h]⟩
  · exact Or.inr ⟨by omega, by simp [round, h]⟩

theorem Ok.round (h : p.Ok) (hk : ∀ j, p.key j ≠ some k) : (p.round k).1.Ok := by
  rcases round_cases p k with ⟨_, he⟩ | ⟨_, he⟩ <;> rw [he]
  · exact h.advance
  · exact h.advance.rekey h.hand hk

/-- The node that the clock finds is not pinned, and only the hand moves before it is reused. -/
theorem clock_spec {q : PinnedPool Key} {fuel : Nat} (h : p.Ok) (hc : clock k fuel p = some (q, i)) :
    p.reference i = 0 ∧ i < p.nNode ∧ ∃ n, q = { p with hand := n }.rekey i k ∧ n < p.nNode := by
  induction fuel generalizing p with
  | zero => cases hc
  | succ fuel ih =>
    rcases round_cases p k with ⟨_, he⟩ | ⟨hr, he⟩ <;> simp only [clock, he] at hc
    · exact ih (p := p.advance) h.advance hc
    · obtain ⟨rfl, rfl⟩ := Prod.mk.inj (Option.some.inj hc)
      exact ⟨hr, h.hand, p.advance.hand, rfl, h.advance.hand⟩

/-- The clock finds a node within one turn if there is an unpinned one. -/
theorem clock_isSome (h : p.Ok) {j : Nat} (hj : j < p.nNode) (hr : p.reference j = 0) :
    (clock k p.nNode p).isSome := by
  obtain ⟨d, hd, he⟩ := LinearProbe.exists_ringSlot p.hand hj
  suffices hs : ∀ d (q : PinnedPool Key) fuel, q.Ok → q.nNode = p.nNode → q.reference = p.reference →
      LinearProbe.ringSlot p.nNode q.hand d = j → d < fuel → (clock k fuel q).isSome from
    hs d p p.nNode h rfl rfl he hd
  intro d
  induction d with
  | zero =>
    intro q fuel hq hn href hs hf
    obtain ⟨fuel, rfl⟩ : ∃ m, fuel = m + 1 := ⟨fuel - 1, by omega⟩
    rw [LinearProbe.ringSlot_zero (hn ▸ hq.hand)] at hs
    rcases round_cases q k with ⟨hpos, _⟩ | ⟨_, he⟩
    · rw [hs, href] at hpos
      omega
    · simp [clock, he]
  | succ d ih =>
    intro q fuel hq hn href hs hf
    obtain ⟨fuel, rfl⟩ : ∃ m, fuel = m + 1 := ⟨fuel - 1, by omega⟩
    rcases round_cases q k with ⟨_, he⟩ | ⟨_, he⟩
    · simp only [clock, he]
      refine ih q.advance fuel hq.advance hn href ?_ (by omega)
      rw [advance_hand hq.hand, hn, LinearProbe.ringSlot_mod, ← hs]
      simp only [LinearProbe.ringSlot]
      congr 1
      omega
    · simp [clock, he]

section Find

variable [DecidableEq Key]

def find (p : PinnedPool Key) (k : Key) : Option Nat :=
  (List.range p.nNode).find? fun i => decide (p.key i = some k)

theorem find_some (h : p.find k = some i) : p.key i = some k := by
  simpa using List.find?_some h

theorem Ok.find_eq_some_iff (h : p.Ok) : p.find k = some i ↔ p.key i = some k := by
  refine ⟨find_some, fun hk => ?_⟩
  cases hf : p.find k with
  | none =>
    rw [find, List.find?_eq_none] at hf
    exact absurd hk (by simpa using hf i (List.mem_range.mpr (h.bound i k hk)))
  | some j => rw [h.unique i j k hk (find_some hf)]

theorem find_eq_none (h : ∀ i, p.key i ≠ some k) : p.find k = none := by
  cases hf : p.find k with
  | none => rfl
  | some i => exact absurd (find_some hf) (h i)

theorem Ok.find_eq_none_iff (h : p.Ok) : p.find k = none ↔ ∀ i, p.key i ≠ some k := by
  constructor
  · intro hf i hk
    rw [h.find_eq_some_iff.mpr hk] at hf
    cases hf
  · exact find_eq_none

/-- Pin the node of a key, which is reused for it if no node has it. The node
is returned with whether the caller is its only holder. -/
def get (p : PinnedPool Key) (k : Key) : Option ((Nat × Bool) × PinnedPool Key) :=
  match p.find k with
  | some i => some ((i, decide (p.reference i = 0)), p.pin i)
  | none => (clock k p.nNode p).map fun r => ((r.2, true), r.1)

theorem find_pin (i : Nat) : (p.pin i).find k = p.find k := rfl

/-- What a call for a key can do: pin the node that has the key, or reuse one
that nobody has pinned. -/
theorem get_cases {q : PinnedPool Key} {o : Bool} (hp : p.Ok) (h : p.get k = some ((i, o), q)) :
    (p.key i = some k ∧ o = decide (p.reference i = 0) ∧ q = p.pin i) ∨
    ((∀ j, p.key j ≠ some k) ∧ o = true ∧ p.reference i = 0 ∧ i < p.nNode ∧
      ∃ n, q = { p with hand := n }.rekey i k ∧ n < p.nNode) := by
  unfold get at h
  cases hf : p.find k with
  | some j =>
    simp only [hf, Option.some.injEq, Prod.mk.injEq] at h
    obtain ⟨⟨rfl, rfl⟩, rfl⟩ := h
    exact Or.inl ⟨find_some hf, rfl, rfl⟩
  | none =>
    simp only [hf, Option.map_eq_some_iff, Prod.mk.injEq] at h
    obtain ⟨⟨q', j⟩, hc, ⟨rfl, rfl⟩, rfl⟩ := h
    exact Or.inr ⟨hp.find_eq_none_iff.mp hf, rfl, clock_spec hp hc⟩

/-- A call keeps the key and the mark of every pinned node. -/
theorem get_keeps {q : PinnedPool Key} {o : Bool} {j : Nat} (hp : p.Ok)
    (h : p.get k = some ((i, o), q)) (hj : 0 < p.reference j) :
    q.key j = p.key j ∧ (p.ready j = true → q.ready j = true) := by
  rcases get_cases hp h with ⟨_, _, rfl⟩ | ⟨_, _, hr, _, n, rfl, _⟩
  · exact ⟨rfl, id⟩
  · have hji : j ≠ i := by
      rintro rfl
      omega
    simp [rekey, hji]

end Find

/-- A holder of a node: the key it asked for, and whether it was told that
nobody else held the node. -/
structure Pin (Key : Type*) where
  node : Nat
  key : Key
  owner : Bool
  deriving DecidableEq

/-- The reference counts are those of the holders, who all hold the node of
their key, and no two of them were told that they are alone. -/
structure Held (p : PinnedPool Key) (held : List (Pin Key)) : Prop where
  ok : p.Ok
  count : ∀ i, p.reference i = held.countP fun x => x.node = i
  key : ∀ x ∈ held, p.key x.node = some x.key
  alone : ∀ i, (held.countP fun x => x.node = i ∧ x.owner) ≤ 1

section Held

variable {held held' : List (Pin Key)} {x y : Pin Key}

theorem held_start {n : Nat} (hn : 1 ≤ n) : Held (start n : PinnedPool Key) [] :=
  ⟨ok_start hn, fun _ => rfl, fun _ h => absurd h List.not_mem_nil, fun _ => by simp⟩

theorem Held.perm (h : Held p held) (hp : held.Perm held') : Held p held' := by
  refine ⟨h.ok, fun i => ?_, fun x hx => h.key x (hp.mem_iff.mpr hx), fun i => ?_⟩
  · rw [h.count, hp.countP_eq]
  · rw [← hp.countP_eq]
    exact h.alone i

theorem Held.reference_pos (h : Held p held) (hx : x ∈ held) : 0 < p.reference x.node := by
  rw [h.count]
  exact List.countP_pos_iff.mpr ⟨x, hx, by simp⟩

theorem Held.exists_mem (h : Held p held) (hi : 0 < p.reference i) : ∃ x ∈ held, x.node = i := by
  rw [h.count] at hi
  simpa using List.countP_pos_iff.mp hi

theorem Held.reference_eq_zero (h : Held p held) (hi : p.reference i = 0) (hx : x ∈ held) :
    x.node ≠ i := by
  rintro rfl
  have := h.reference_pos hx
  omega

theorem Held.node_lt (h : Held p held) (hx : x ∈ held) : x.node < p.nNode :=
  h.ok.bound _ _ (h.key x hx)

/-- Holders of one key hold one node, and of different keys different nodes. -/
theorem Held.key_eq_iff (h : Held p held) (hx : x ∈ held) (hy : y ∈ held) :
    x.key = y.key ↔ x.node = y.node := by
  have hkx := h.key x hx
  have hky := h.key y hy
  constructor
  · intro he
    exact h.ok.unique _ _ _ (he ▸ hkx) hky
  · intro he
    rw [he, hky] at hkx
    exact (Option.some.inj hkx).symm

theorem Held.markReady (h : Held p held) (i : Nat) : Held (p.markReady i) held :=
  ⟨h.ok.markReady i, h.count, h.key, h.alone⟩

theorem Held.advance (h : Held p held) : Held p.advance held :=
  ⟨h.ok.advance, h.count, h.key, h.alone⟩

theorem Held.pin (h : Held p held) (hk : p.key x.node = some x.key)
    (ho : x.owner = true → p.reference x.node = 0) : Held (p.pin x.node) (x :: held) := by
  refine ⟨h.ok.pin _, fun i => ?_, fun y hy => ?_, fun i => ?_⟩
  · rw [List.countP_cons]
    by_cases hi : x.node = i
    · subst hi
      simp [PinnedPool.pin, h.count]
    · simp [PinnedPool.pin, Function.update_of_ne (Ne.symm hi), h.count, hi]
  · rcases List.mem_cons.mp hy with rfl | hy
    · exact hk
    · exact h.key y hy
  · rw [List.countP_cons]
    by_cases hi : x.node = i ∧ x.owner = true
    · have hzero : (held.countP fun y => y.node = i ∧ y.owner) = 0 := by
        rw [List.countP_eq_zero]
        intro y hy hyi
        have := h.reference_eq_zero (ho hi.2) hy
        simp only [decide_eq_true_eq] at hyi
        exact this (hyi.1.trans hi.1.symm)
      rw [hzero]
      split_ifs <;> omega
    · have := h.alone i
      simp only [hi, decide_false, Bool.false_eq_true, if_false]
      omega

theorem Held.unpin (h : Held p (x :: held)) : Held (p.unpin x.node) held := by
  refine ⟨h.ok.unpin _, fun i => ?_, fun y hy => h.key y (by simp [hy]), fun i => ?_⟩
  · have hc := h.count i
    rw [List.countP_cons] at hc
    by_cases hi : x.node = i
    · subst hi
      simp only [PinnedPool.unpin, Function.update_self]
      simp only [decide_true, if_true] at hc
      omega
    · simpa [PinnedPool.unpin, Function.update_of_ne (Ne.symm hi), hi] using hc
  · have := h.alone i
    rw [List.countP_cons] at this
    omega

theorem Held.rekey (h : Held p held) (hi : i < p.nNode) (hr : p.reference i = 0)
    (hk : ∀ j, p.key j ≠ some k) (o : Bool) : Held (p.rekey i k) (⟨i, k, o⟩ :: held) := by
  have hne : ∀ y ∈ held, y.node ≠ i := fun y hy => h.reference_eq_zero hr hy
  refine ⟨h.ok.rekey hi hk, fun j => ?_, fun y hy => ?_, fun j => ?_⟩
  · rw [List.countP_cons]
    by_cases hj : i = j
    · subst hj
      simp [PinnedPool.rekey, h.count]
    · simp [PinnedPool.rekey, Function.update_of_ne (Ne.symm hj), h.count, hj]
  · rcases List.mem_cons.mp hy with rfl | hy
    · simp [PinnedPool.rekey]
    · simp only [PinnedPool.rekey, Function.update_of_ne (hne y hy)]
      exact h.key y hy
  · rw [List.countP_cons]
    by_cases hj : i = j
    · have hzero : (held.countP fun y => y.node = j ∧ y.owner) = 0 := by
        rw [List.countP_eq_zero]
        intro y hy hyj
        simp only [decide_eq_true_eq] at hyj
        exact hne y hy (hyj.1.trans hj.symm)
      rw [hzero]
      split_ifs <;> omega
    · have := h.alone j
      simp only [hj, false_and, decide_false, Bool.false_eq_true, if_false]
      omega

theorem Held.hand (h : Held p held) {n : Nat} (hn : n < p.nNode) : Held { p with hand := n } held :=
  ⟨⟨h.ok.bound, h.ok.unique, hn⟩, h.count, h.key, h.alone⟩

theorem Held.get [DecidableEq Key] {q : PinnedPool Key} {o : Bool} (h : Held p held)
    (hg : p.get k = some ((i, o), q)) : Held q (⟨i, k, o⟩ :: held) := by
  rcases get_cases h.ok hg with ⟨hk, ho, rfl⟩ | ⟨hk, _, hr, hi, n, rfl, hn⟩
  · exact h.pin (x := ⟨i, k, o⟩) hk fun he => by simpa [ho] using he
  · exact (h.hand hn).rekey hi hr hk o

/-- What can happen to a pool and its holders in one step, and which holder leaves. -/
inductive Move (p : PinnedPool Key) (held : List (Pin Key)) :
    Option (Pin Key) → PinnedPool Key → List (Pin Key) → Prop
  | keep {l : List (Pin Key)} (hp : held.Perm l) : Move p held none p l
  | hit {j : Nat} {c : Key} {l : List (Pin Key)} (hk : p.key j = some c)
      (hp : l.Perm (⟨j, c, decide (p.reference j = 0)⟩ :: held)) : Move p held none (p.pin j) l
  | pass {l : List (Pin Key)} (hp : held.Perm l) : Move p held none p.advance l
  | take {c : Key} {l : List (Pin Key)} (hr : p.reference p.hand = 0) (hk : ∀ j, p.key j ≠ some c)
      (hp : l.Perm (⟨p.hand, c, true⟩ :: held)) : Move p held none (p.advance.rekey p.hand c) l
  | drop {y : Pin Key} {l : List (Pin Key)} (hp : held.Perm (y :: l)) :
      Move p held (some y) (p.unpin y.node) l
  | mark {j : Nat} {l : List (Pin Key)} (hp : held.Perm l) : Move p held none (p.markReady j) l

variable {q : PinnedPool Key} {o : Option (Pin Key)}

theorem Held.move (h : Held p held) (hm : Move p held o q held') : Held q held' := by
  cases hm with
  | keep hp => exact h.perm hp
  | hit hk hp => exact (h.pin (x := ⟨_, _, _⟩) hk (by simp)).perm hp.symm
  | pass hp => exact (h.perm hp).advance
  | take hr hk hp => exact (h.advance.rekey h.ok.hand hr hk true).perm hp.symm
  | drop hp => exact (h.perm hp).unpin
  | mark hp => exact (h.perm hp).markReady _

/-- A held node keeps its key and stays ready. -/
theorem Move.keeps (hm : Move p held o q held') (hi : 0 < p.reference i) :
    q.key i = p.key i ∧ (p.ready i = true → q.ready i = true) := by
  cases hm with
  | keep => exact ⟨rfl, id⟩
  | hit => exact ⟨rfl, id⟩
  | pass => exact ⟨rfl, id⟩
  | take hr =>
    have hne : i ≠ p.hand := by
      rintro rfl
      omega
    simp [PinnedPool.rekey, PinnedPool.advance, hne]
  | drop => exact ⟨rfl, id⟩
  | mark =>
    refine ⟨rfl, fun hd => ?_⟩
    simp only [PinnedPool.markReady, Function.update_apply]
    split_ifs
    · rfl
    · exact hd

/-- A ready node has kept its key. -/
theorem Move.key_of_ready (hm : Move p held o q held') (hd : q.ready i = true) : q.key i = p.key i := by
  cases hm with
  | take =>
    have hne : i ≠ p.hand := by
      rintro rfl
      simp [PinnedPool.rekey] at hd
    simp [PinnedPool.rekey, PinnedPool.advance, hne]
  | _ => rfl

theorem Move.reference_pos (hm : Move p held o q held') (hi : 0 < p.reference i)
    (ho : ∀ y ∈ o, y.node = i → p.reference i ≠ 1) : 0 < q.reference i := by
  cases hm with
  | keep => exact hi
  | hit =>
    simp only [PinnedPool.pin, Function.update_apply]
    split_ifs <;> omega
  | pass => exact hi
  | take =>
    simp only [PinnedPool.rekey, PinnedPool.advance, Function.update_apply]
    split_ifs <;> omega
  | @drop y =>
    have := ho y rfl
    by_cases he : i = y.node
    · subst he
      simp only [PinnedPool.unpin, Function.update_self]
      have := this rfl
      omega
    · simpa [PinnedPool.unpin, he] using hi
  | mark => exact hi

/-- Whoever waits for a node to become ready, some holder of it was told to be alone. -/
def Owned (p : PinnedPool Key) (held : List (Pin Key)) : Prop :=
  ∀ i, 0 < p.reference i → p.ready i = false → ∃ x ∈ held, x.node = i ∧ x.owner = true

theorem Owned.move (h : Owned p held) (hm : Move p held o q held')
    (ho : ∀ y ∈ o, y.owner = true → p.ready y.node = false → p.reference y.node = 1) :
    Owned q held' := by
  intro i hi hd
  cases hm with
  | keep hp =>
    obtain ⟨x, hx, he⟩ := h i hi hd
    exact ⟨x, hp.mem_iff.mp hx, he⟩
  | @hit j c l hk hp =>
    by_cases hr : 0 < p.reference i
    · obtain ⟨x, hx, he⟩ := h i hr hd
      exact ⟨x, hp.mem_iff.mpr (List.mem_cons_of_mem _ hx), he⟩
    · have hij : i = j := by
        by_contra hne
        simp only [PinnedPool.pin, Function.update_of_ne hne] at hi
        exact hr hi
      subst hij
      exact ⟨_, hp.mem_iff.mpr List.mem_cons_self, rfl, by simpa using hr⟩
  | pass hp =>
    obtain ⟨x, hx, he⟩ := h i hi hd
    exact ⟨x, hp.mem_iff.mp hx, he⟩
  | take hr hk hp =>
    by_cases hih : i = p.hand
    · exact ⟨_, hp.mem_iff.mpr List.mem_cons_self, hih.symm, rfl⟩
    · simp only [PinnedPool.rekey, Function.update_of_ne hih] at hi hd
      obtain ⟨x, hx, he⟩ := h i hi hd
      exact ⟨x, hp.mem_iff.mpr (List.mem_cons_of_mem _ hx), he⟩
  | @drop y l hp =>
    by_cases hiy : i = y.node
    · subst hiy
      simp only [PinnedPool.unpin, Function.update_self] at hi
      obtain ⟨x, hx, hn, hxo⟩ := h y.node (by omega) hd
      rcases List.mem_cons.mp (hp.mem_iff.mp hx) with rfl | hx
      · have := ho x rfl hxo hd
        omega
      · exact ⟨x, hx, hn, hxo⟩
    · simp only [PinnedPool.unpin, Function.update_of_ne hiy] at hi
      obtain ⟨x, hx, hn, hxo⟩ := h i hi hd
      rcases List.mem_cons.mp (hp.mem_iff.mp hx) with rfl | hx
      · exact absurd hn.symm hiy
      · exact ⟨x, hx, hn, hxo⟩
  | @mark j l hp =>
    have hij : i ≠ j := by
      rintro rfl
      simp [PinnedPool.markReady] at hd
    obtain ⟨x, hx, he⟩ := h i hi (by simpa [PinnedPool.markReady, hij] using hd)
    exact ⟨x, hp.mem_iff.mp hx, he⟩

/-- An owner that leaves a node to others before it is ready leaves nobody to fill it. -/
theorem Held.not_owned_drop (h : Held p held) (hm : Move p held (some y) q held')
    (hy : y.owner = true) (hd : p.ready y.node = false) (hr : p.reference y.node ≠ 1) :
    ¬ Owned q held' := by
  intro ho
  cases hm with
  | drop hp =>
    have hpos := h.reference_pos (hp.mem_iff.mpr List.mem_cons_self)
    have hq : 0 < (p.unpin y.node).reference y.node := by
      simp only [PinnedPool.unpin, Function.update_self]
      omega
    obtain ⟨x, hx, hn, hxo⟩ := ho y.node hq hd
    have hle := (h.perm hp).alone y.node
    have hx' : 0 < held'.countP fun z => z.node = y.node ∧ z.owner :=
      List.countP_pos_iff.mpr ⟨x, hx, by simp [hn, hxo]⟩
    rw [List.countP_cons_of_pos (by simp [hy])] at hle
    omega

/-- Two different holders of one node are not both told that they are alone. -/
theorem Held.node_ne {l₁ l₂ : List (Pin Key)} (h : Held p held) (hp : held.Perm (l₁ ++ l₂))
    (hx : x ∈ l₁) (hy : y ∈ l₂) (hox : x.owner = true) (hoy : y.owner = true) : x.node ≠ y.node := by
  intro he
  have hle := (h.perm hp).alone y.node
  rw [List.countP_append] at hle
  have h₁ : 0 < l₁.countP fun z => z.node = y.node ∧ z.owner :=
    List.countP_pos_iff.mpr ⟨x, hx, by simp [he, hox]⟩
  have h₂ : 0 < l₂.countP fun z => z.node = y.node ∧ z.owner :=
    List.countP_pos_iff.mpr ⟨y, hy, by simp [hoy]⟩
  omega

/-- Owners hold different nodes. -/
theorem Held.nodup_nodes {l l₁ l₂ : List (Pin Key)} (h : Held p held) (hp : held.Perm (l₁ ++ l₂))
    (hs : l.Sublist l₁) (ho : ∀ x ∈ l, x.owner = true) : (l.map Pin.node).Nodup := by
  rw [List.nodup_iff_count_le_one]
  intro i
  calc (l.map Pin.node).count i = l.countP fun x => x.node = i ∧ x.owner := by
        rw [List.count, List.countP_map]
        exact List.countP_congr fun x hx => by simp [ho x hx]
    _ ≤ l₁.countP fun x => x.node = i ∧ x.owner := hs.countP_le
    _ ≤ (l₁ ++ l₂).countP fun x => x.node = i ∧ x.owner := (List.sublist_append_left _ _).countP_le
    _ ≤ 1 := (h.perm hp).alone i

end Held

end PinnedPool
