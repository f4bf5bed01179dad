import UnifiedCache.Cache.TransBuffer

/-! The bucket chains of the buffer as lists. `Remove` and `MoveTo` take a node
out of the list of one bucket and put it in front of the list of another, and
change nothing else of any node. -/

namespace UnifiedCache.CacheStore.TransBuffer

open LinkedChain

def nextOf (tb : TransBuffer) (i : Nat) : Option Nat := (tb.metaAt i).next

def prevOf (tb : TransBuffer) (i : Nat) : Option Nat := (tb.metaAt i).prev

def hashOf (tb : TransBuffer) (i : Nat) : Option Nat := (tb.metaAt i).hash

variable {tb : TransBuffer} {chain : Nat → List Nat} {i j b x : Nat}

theorem modify_field {α : Type*} (g : BufferMetaNode → α) (f : BufferMetaNode → BufferMetaNode) :
    (fun j => g ((tb.modify i f).metaAt j)) =
      Function.update (fun j => g (tb.metaAt j)) i (g (f (tb.metaAt i))) := by
  funext j
  by_cases h : j = i <;> simp [modify, h]

theorem modify_frame {α : Type*} (g : BufferMetaNode → α) {f : BufferMetaNode → BufferMetaNode}
    (h : ∀ m, g (f m) = g m) : (fun j => g ((tb.modify i f).metaAt j)) = fun j => g (tb.metaAt j) := by
  rw [modify_field, h]
  exact Function.update_eq_self i _

@[simp] theorem nextOf_setNext (n : Option Nat) :
    (tb.setNext i n).nextOf = Function.update tb.nextOf i n := modify_field _ _

@[simp] theorem prevOf_setNext (n : Option Nat) : (tb.setNext i n).prevOf = tb.prevOf :=
  modify_frame (·.prev) fun _ => rfl

@[simp] theorem hashOf_setNext (n : Option Nat) : (tb.setNext i n).hashOf = tb.hashOf :=
  modify_frame (·.hash) fun _ => rfl

@[simp] theorem nextOf_setPrev (n : Option Nat) : (tb.setPrev i n).nextOf = tb.nextOf :=
  modify_frame (·.next) fun _ => rfl

@[simp] theorem prevOf_setPrev (n : Option Nat) :
    (tb.setPrev i n).prevOf = Function.update tb.prevOf i n := modify_field _ _

@[simp] theorem hashOf_setPrev (n : Option Nat) : (tb.setPrev i n).hashOf = tb.hashOf :=
  modify_frame (·.hash) fun _ => rfl

@[simp] theorem nextOf_setHash (n : Option Nat) : (tb.setHash i n).nextOf = tb.nextOf :=
  modify_frame (·.next) fun _ => rfl

@[simp] theorem prevOf_setHash (n : Option Nat) : (tb.setHash i n).prevOf = tb.prevOf :=
  modify_frame (·.prev) fun _ => rfl

@[simp] theorem hashOf_setHash (n : Option Nat) :
    (tb.setHash i n).hashOf = Function.update tb.hashOf i n := modify_field _ _

@[simp] theorem nextOf_setFirst (n : Option Nat) : (tb.setFirst b n).nextOf = tb.nextOf := rfl

@[simp] theorem prevOf_setFirst (n : Option Nat) : (tb.setFirst b n).prevOf = tb.prevOf := rfl

@[simp] theorem hashOf_setFirst (n : Option Nat) : (tb.setFirst b n).hashOf = tb.hashOf := rfl

@[simp] theorem buckets_setFirst (n : Option Nat) :
    (tb.setFirst b n).buckets = Function.update tb.buckets b n := rfl

@[simp] theorem buckets_setNext (n : Option Nat) : (tb.setNext i n).buckets = tb.buckets := rfl

@[simp] theorem buckets_setPrev (n : Option Nat) : (tb.setPrev i n).buckets = tb.buckets := rfl

@[simp] theorem buckets_setHash (n : Option Nat) : (tb.setHash i n).buckets = tb.buckets := rfl

/-- The lists of nodes that the chains run through. -/
structure Linked (tb : TransBuffer) (chain : Nat → List Nat) : Prop where
  fwd : ∀ b, Fwd tb.nextOf (tb.buckets b) (chain b)
  bwd : ∀ b, Bwd tb.prevOf none (chain b)
  nodup : ∀ b, (chain b).Nodup
  mem : ∀ b i, i ∈ chain b ↔ tb.hashOf i = some b
  free : ∀ i, tb.hashOf i = none → tb.prevOf i = none

theorem linked_setup (n : Nat) : Linked (setup n) fun _ => [] := by
  refine ⟨fun _ => rfl, fun _ => trivial, fun _ => List.nodup_nil, fun b i => ?_, fun _ _ => rfl⟩
  simp [setup, hashOf]

theorem Linked.congr {tb' : TransBuffer} (h : Linked tb chain) (hn : tb'.nextOf = tb.nextOf)
    (hp : tb'.prevOf = tb.prevOf) (hh : tb'.hashOf = tb.hashOf) (hb : tb'.buckets = tb.buckets) :
    Linked tb' chain := by
  refine ⟨fun b => ?_, fun b => ?_, h.nodup, fun b i => ?_, fun i hi => ?_⟩
  · rw [hn, hb]
    exact h.fwd b
  · rw [hp]
    exact h.bwd b
  · rw [hh]
    exact h.mem b i
  · rw [hh] at hi
    rw [hp]
    exact h.free i hi

section Remove

variable (hx : tb.prevOf x ≠ some x)

include hx

theorem setNext_prev_metaAt {p : Nat} (hp : tb.prevOf x = some p) (n : Option Nat) :
    (tb.setNext p n).metaAt x = tb.metaAt x := by
  have hpx : x ≠ p := fun h => hx (by rw [hp, h])
  simp [setNext, modify, hpx]

theorem nextOf_remove :
    (tb.remove b x).nextOf = Function.update (match tb.prevOf x with
      | none => tb.nextOf
      | some p => Function.update tb.nextOf p (tb.nextOf x)) x none := by
  cases hp : (tb.metaAt x).prev with
  | none => cases hn : (tb.metaAt x).next <;> simp [remove, prevOf, hp, hn] <;> split_ifs <;> simp
  | some p =>
    have he := fun n => setNext_prev_metaAt hx hp n
    cases hn : (tb.metaAt x).next <;>
      simp [remove, prevOf, nextOf, hp, hn, he] <;> split_ifs <;> simp

theorem prevOf_remove :
    (tb.remove b x).prevOf = Function.update (match tb.nextOf x with
      | none => tb.prevOf
      | some n => Function.update tb.prevOf n (tb.prevOf x)) x none := by
  cases hp : (tb.metaAt x).prev with
  | none => cases hn : (tb.metaAt x).next <;> simp [remove, nextOf, prevOf, hp, hn] <;> split_ifs <;> simp
  | some p =>
    have he := fun n => setNext_prev_metaAt hx hp n
    cases hn : (tb.metaAt x).next <;>
      simp [remove, prevOf, nextOf, hp, hn, he] <;> split_ifs <;> simp

theorem hashOf_remove : (tb.remove b x).hashOf = Function.update tb.hashOf x none := by
  cases hp : (tb.metaAt x).prev with
  | none => cases hn : (tb.metaAt x).next <;> simp [remove, hp, hn] <;> split_ifs <;> simp
  | some p =>
    have he := fun n => setNext_prev_metaAt hx hp n
    cases hn : (tb.metaAt x).next <;> simp [remove, hp, hn, he] <;> split_ifs <;> simp

theorem buckets_remove : (tb.remove b x).buckets =
    if tb.buckets b = some x then Function.update tb.buckets b (tb.nextOf x) else tb.buckets := by
  cases hp : (tb.metaAt x).prev with
  | none => cases hn : (tb.metaAt x).next <;> simp [remove, nextOf, hp, hn] <;> split_ifs <;> simp
  | some p =>
    have he := fun n => setNext_prev_metaAt hx hp n
    cases hn : (tb.metaAt x).next <;> simp [remove, nextOf, hp, hn, he] <;> split_ifs <;> simp

end Remove

/-- A node that is in a list is not in another one. -/
theorem Linked.ne_of_mem (h : Linked tb chain) {b' : Nat} (hi : i ∈ chain b) (hj : j ∈ chain b')
    (hb : b' ≠ b) : j ≠ i := by
  rintro rfl
  have h₁ := (h.mem b j).mp hi
  have h₂ := (h.mem b' j).mp hj
  exact hb (Option.some.inj (h₂.symm.trans h₁))

theorem Linked.exists_split (h : Linked tb chain) (hx : tb.hashOf x = some b) :
    ∃ l₁ l₂, chain b = l₁ ++ x :: l₂ :=
  List.append_of_mem ((h.mem b x).mpr hx)

theorem Linked.prevOf_ne (h : Linked tb chain) (hx : tb.hashOf x = some b) : tb.prevOf x ≠ some x := by
  obtain ⟨l₁, l₂, hl⟩ := h.exists_split hx
  have hb := h.bwd b
  have hnd := h.nodup b
  rw [hl] at hb hnd
  rw [hb.prev_eq, Option.or_none]
  intro he
  exact (List.nodup_append.mp hnd).2.2 x (List.mem_of_getLast? he) x (by simp) rfl

section LinkedRemove

variable {l₁ l₂ : List Nat} (h : Linked tb chain) (hx : tb.hashOf x = some b)
  (hl : chain b = l₁ ++ x :: l₂)

include h hl

theorem Linked.not_mem_rest : x ∉ l₁ ++ l₂ :=
  (List.nodup_cons.mp (List.nodup_middle.mp (hl ▸ h.nodup b))).1

theorem Linked.prevOf_eq : tb.prevOf x = l₁.getLast? := by
  have hb := h.bwd b
  rw [hl] at hb
  rw [hb.prev_eq, Option.or_none]

theorem Linked.nextOf_eq : tb.nextOf x = l₂.head? := by
  have hf := h.fwd b
  rw [hl] at hf
  exact hf.next_eq

/-- The lists of the other buckets do not see the nodes around `x`. -/
theorem Linked.ne_around {b' y : Nat} (hb : b' ≠ b) (hy : y ∈ l₁ ++ x :: l₂) (hi : i ∈ chain b') :
    i ≠ y :=
  h.ne_of_mem (hl ▸ hy) hi hb

include hx

theorem Linked.fwd_remove_self :
    Fwd (tb.remove b x).nextOf ((tb.remove b x).buckets b) (l₁ ++ l₂) := by
  have hfwd := h.fwd b
  have hnd := h.nodup b
  have hxl := h.not_mem_rest hl
  have hprev := h.prevOf_eq hl
  rw [hl] at hfwd hnd
  rw [nextOf_remove (h.prevOf_ne hx), buckets_remove (h.prevOf_ne hx)]
  cases l₁ using List.reverseRecOn with
  | nil =>
    rw [hprev, if_pos (by simpa using hfwd.head_eq), Function.update_self]
    exact hfwd.2.congr fun i hi => Function.update_of_ne (ne_of_mem_of_not_mem hi hxl) _ _
  | append_singleton l₁ p =>
    simp only [List.append_assoc, List.singleton_append] at hfwd hnd hxl ⊢
    have hhead : tb.buckets b ≠ some x := by
      rw [hfwd.head_eq]
      intro he
      exact hxl (List.mem_of_head? (l := l₁ ++ p :: l₂) (by cases l₁ <;> simpa using he))
    simp only [hprev, List.getLast?_append, List.getLast?_singleton, Option.some_or]
    rw [if_neg hhead]
    exact (hfwd.bypass hnd).congr fun i hi =>
      Function.update_of_ne (ne_of_mem_of_not_mem hi hxl) _ _

theorem Linked.fwd_remove_other {b' : Nat} (hb : b' ≠ b) :
    Fwd (tb.remove b x).nextOf ((tb.remove b x).buckets b') (chain b') := by
  rw [nextOf_remove (h.prevOf_ne hx), buckets_remove (h.prevOf_ne hx)]
  have hbk : (if tb.buckets b = some x then Function.update tb.buckets b (tb.nextOf x)
      else tb.buckets) b' = tb.buckets b' := by
    split_ifs
    · exact Function.update_of_ne hb _ _
    · rfl
  rw [hbk]
  refine (h.fwd b').congr fun i hi => ?_
  rw [Function.update_of_ne (h.ne_around hl hb (by simp) hi)]
  cases hp : l₁.getLast? with
  | none => rw [h.prevOf_eq hl, hp]
  | some p =>
    simp only [h.prevOf_eq hl, hp]
    exact Function.update_of_ne (h.ne_around hl hb (by simp [List.mem_of_getLast? hp]) hi) _ _

theorem Linked.bwd_remove_self : Bwd (tb.remove b x).prevOf none (l₁ ++ l₂) := by
  have hbwd := h.bwd b
  have hnd := h.nodup b
  have hxl := h.not_mem_rest hl
  have hnext := h.nextOf_eq hl
  rw [hl] at hbwd hnd
  rw [prevOf_remove (h.prevOf_ne hx)]
  cases l₂ with
  | nil =>
    rw [hnext]
    simp only [List.append_nil] at hxl ⊢
    exact hbwd.left.congr fun i hi => Function.update_of_ne (ne_of_mem_of_not_mem hi hxl) _ _
  | cons n l₂ =>
    rw [hnext]
    exact (hbwd.bypass hnd).congr fun i hi =>
      Function.update_of_ne (ne_of_mem_of_not_mem hi hxl) _ _

/-- Only `x` and its successor lose or change their backward link. -/
theorem Linked.prevOf_remove_of_ne (hi : i ≠ x) (hn : ∀ n, l₂.head? = some n → i ≠ n) :
    (tb.remove b x).prevOf i = tb.prevOf i := by
  rw [prevOf_remove (h.prevOf_ne hx), Function.update_of_ne hi, h.nextOf_eq hl]
  cases hh : l₂.head? with
  | none => rfl
  | some n => exact Function.update_of_ne (hn n hh) _ _

theorem Linked.mem_remove (b' : Nat) :
    i ∈ Function.update chain b (l₁ ++ l₂) b' ↔ (tb.remove b x).hashOf i = some b' := by
  have hxl := h.not_mem_rest hl
  rw [hashOf_remove (h.prevOf_ne hx)]
  by_cases hb : b' = b
  · rw [hb, Function.update_self]
    by_cases hi : i = x
    · rw [hi, Function.update_self]
      simp only [hxl, reduceCtorEq]
    · rw [Function.update_of_ne hi, ← h.mem, hl]
      simp [hi]
  · rw [Function.update_of_ne hb, h.mem]
    by_cases hi : i = x
    · rw [hi, Function.update_self, hx]
      simp [Ne.symm hb]
    · rw [Function.update_of_ne hi]

theorem Linked.remove : Linked (tb.remove b x) (Function.update chain b (l₁ ++ l₂)) := by
  refine ⟨fun b' => ?_, fun b' => ?_, fun b' => ?_, fun b' i => h.mem_remove hx hl b', fun i hi => ?_⟩
  · by_cases hb : b' = b
    · rw [hb, Function.update_self]
      exact h.fwd_remove_self hx hl
    · rw [Function.update_of_ne hb]
      exact h.fwd_remove_other hx hl hb
  · by_cases hb : b' = b
    · rw [hb, Function.update_self]
      exact h.bwd_remove_self hx hl
    · rw [Function.update_of_ne hb]
      exact (h.bwd b').congr fun i hi => h.prevOf_remove_of_ne hx hl
        (h.ne_around hl hb (by simp) hi)
        fun n hn => h.ne_around hl hb (by simp [List.mem_of_head? hn]) hi
  · by_cases hb : b' = b
    · rw [hb, Function.update_self]
      exact (List.nodup_cons.mp (List.nodup_middle.mp (hl ▸ h.nodup b))).2
    · rw [Function.update_of_ne hb]
      exact h.nodup b'
  · by_cases hix : i = x
    · rw [hix, prevOf_remove (h.prevOf_ne hx), Function.update_self]
    · rw [hashOf_remove (h.prevOf_ne hx), Function.update_of_ne hix] at hi
      rw [h.prevOf_remove_of_ne hx hl hix]
      · exact h.free i hi
      · rintro n hn rfl
        have hm := (h.mem b i).mp (by rw [hl]; simp [List.mem_of_head? hn])
        rw [hi] at hm
        cases hm

end LinkedRemove

section MoveTo

@[simp] theorem nextOf_moveTo :
    (tb.moveTo b x).nextOf = Function.update tb.nextOf x (tb.buckets b) := by
  cases hn : tb.buckets b <;> simp [moveTo, hn]

@[simp] theorem prevOf_moveTo : (tb.moveTo b x).prevOf = (match tb.buckets b with
    | none => tb.prevOf
    | some n => Function.update tb.prevOf n (some x)) := by
  cases hn : tb.buckets b <;> simp [moveTo, hn]

@[simp] theorem hashOf_moveTo : (tb.moveTo b x).hashOf = Function.update tb.hashOf x (some b) := by
  cases hn : tb.buckets b <;> simp [moveTo, hn]

@[simp] theorem buckets_moveTo :
    (tb.moveTo b x).buckets = Function.update tb.buckets b (some x) := by
  cases hn : tb.buckets b <;> simp [moveTo, hn]

variable (h : Linked tb chain) (hx : tb.hashOf x = none)

include h hx

theorem Linked.not_mem_of_free (b' : Nat) : x ∉ chain b' := by
  rw [h.mem, hx]
  simp

theorem Linked.fwd_moveTo (b' : Nat) : Fwd (tb.moveTo b x).nextOf ((tb.moveTo b x).buckets b')
    (Function.update chain b (x :: chain b) b') := by
  have hxc := h.not_mem_of_free hx
  rw [nextOf_moveTo, buckets_moveTo]
  by_cases hb : b' = b
  · rw [hb, Function.update_self, Function.update_self]
    exact (h.fwd b).push (hxc b)
  · rw [Function.update_of_ne hb, Function.update_of_ne hb]
    exact (h.fwd b').congr fun i hi => Function.update_of_ne (ne_of_mem_of_not_mem hi (hxc b')) _ _

theorem Linked.bwd_moveTo (b' : Nat) : Bwd (tb.moveTo b x).prevOf none
    (Function.update chain b (x :: chain b) b') := by
  have hxc := h.not_mem_of_free hx
  have hhead := (h.fwd b).head_eq
  rw [prevOf_moveTo]
  by_cases hb : b' = b
  · rw [hb, Function.update_self]
    cases hc : chain b with
    | nil =>
      rw [hhead, hc]
      exact ⟨h.free x hx, trivial⟩
    | cons n l =>
      have hnd := hc ▸ h.nodup b
      rw [hhead, hc]
      exact (hc ▸ h.bwd b).push (h.free x hx) (fun he => hxc b (by simp [hc, he]))
        (List.nodup_cons.mp hnd).1
  · rw [Function.update_of_ne hb]
    refine (h.bwd b').congr fun i hi => ?_
    cases hn : tb.buckets b with
    | none => rfl
    | some n =>
      have hmem : n ∈ chain b := List.mem_of_head? (hhead.symm.trans hn)
      exact Function.update_of_ne (h.ne_of_mem hmem hi hb) _ _

theorem Linked.moveTo : Linked (tb.moveTo b x) (Function.update chain b (x :: chain b)) := by
  have hxc := h.not_mem_of_free hx
  refine ⟨h.fwd_moveTo hx, h.bwd_moveTo hx, fun b' => ?_, fun b' i => ?_, fun i hi => ?_⟩
  · by_cases hb : b' = b
    · rw [hb, Function.update_self]
      exact List.nodup_cons.mpr ⟨hxc b, h.nodup b⟩
    · rw [Function.update_of_ne hb]
      exact h.nodup b'
  · rw [hashOf_moveTo]
    by_cases hi : i = x
    · rw [hi, Function.update_self]
      by_cases hb : b' = b
      · rw [hb, Function.update_self]
        simp
      · rw [Function.update_of_ne hb]
        simp [hxc b', Ne.symm hb]
    · rw [Function.update_of_ne hi, ← h.mem]
      by_cases hb : b' = b
      · rw [hb, Function.update_self]
        simp [hi]
      · rw [Function.update_of_ne hb]
  · rw [hashOf_moveTo] at hi
    have hix : i ≠ x := by
      rintro rfl
      rw [Function.update_self] at hi
      cases hi
    rw [Function.update_of_ne hix] at hi
    rw [prevOf_moveTo]
    cases hn : tb.buckets b with
    | none => exact h.free i hi
    | some n =>
      have hmem : n ∈ chain b := List.mem_of_head? ((h.fwd b).head_eq.symm.trans hn)
      have hin : i ≠ n := by
        rintro rfl
        exact h.not_mem_of_free hi b hmem
      exact (Function.update_of_ne hin _ _).trans (h.free i hi)

end MoveTo

/-- A round of `Alloc` leaves the node in front of its new bucket, or where it
was when that bucket is its old one. -/
theorem Linked.rebucket (h : Linked tb chain) :
    ∃ chain', Linked (tb.rebucket b x) chain' ∧
      (tb.rebucket b x).hashOf = Function.update tb.hashOf x (some b) := by
  unfold TransBuffer.rebucket
  cases hh : (tb.metaAt x).hash with
  | none =>
    have hx : tb.hashOf x = none := hh
    exact ⟨_, h.moveTo hx, hashOf_moveTo⟩
  | some old =>
    have hx : tb.hashOf x = some old := hh
    by_cases ho : old = b
    · subst ho
      refine ⟨chain, by simpa using h, ?_⟩
      simp only [if_true]
      rw [← hx, Function.update_eq_self]
    · obtain ⟨l₁, l₂, hl⟩ := h.exists_split hx
      have hr := h.remove hx hl
      have hnone : (tb.remove old x).hashOf x = none := by
        rw [hashOf_remove (h.prevOf_ne hx), Function.update_self]
      simp only [ho, if_false]
      refine ⟨_, hr.moveTo hnone, ?_⟩
      rw [hashOf_moveTo, hashOf_remove (h.prevOf_ne hx), Function.update_idem]

/-- `Remove` and `MoveTo` keep every field that is not a link or the hash. -/
theorem rebucket_frame {α : Type*} (g : BufferMetaNode → α)
    (hn : ∀ m n, g { m with next := n } = g m) (hp : ∀ m n, g { m with prev := n } = g m)
    (hh : ∀ m n, g { m with hash := n } = g m) (i : Nat) :
    g ((tb.rebucket b x).metaAt i) = g (tb.metaAt i) := by
  have setNext_g : ∀ (t : TransBuffer) j n i, g ((t.setNext j n).metaAt i) = g (t.metaAt i) :=
    fun t j n => congrFun (modify_frame g fun m => hn m n)
  have setPrev_g : ∀ (t : TransBuffer) j n i, g ((t.setPrev j n).metaAt i) = g (t.metaAt i) :=
    fun t j n => congrFun (modify_frame g fun m => hp m n)
  have setHash_g : ∀ (t : TransBuffer) j n i, g ((t.setHash j n).metaAt i) = g (t.metaAt i) :=
    fun t j n => congrFun (modify_frame g fun m => hh m n)
  have setFirst_g : ∀ (t : TransBuffer) j n i, g ((t.setFirst j n).metaAt i) = g (t.metaAt i) :=
    fun _ _ _ _ => rfl
  have moveTo_g : ∀ (t : TransBuffer) i, g ((t.moveTo b x).metaAt i) = g (t.metaAt i) := by
    intro t i
    unfold TransBuffer.moveTo
    cases t.buckets b <;> simp only [setFirst_g, setHash_g, setPrev_g, setNext_g]
  have remove_g : ∀ (t : TransBuffer) b i, g ((t.remove b x).metaAt i) = g (t.metaAt i) := by
    intro t b i
    unfold TransBuffer.remove
    simp only [setHash_g, setNext_g, setPrev_g]
    (repeat' split) <;> simp only [setFirst_g, setPrev_g, setNext_g]
  unfold TransBuffer.rebucket
  split
  · exact moveTo_g tb i
  · split_ifs
    · rfl
    · rw [moveTo_g, remove_g]

theorem moveTo_nNode : (tb.moveTo b x).nNode = tb.nNode ∧ (tb.moveTo b x).freeHead = tb.freeHead := by
  unfold TransBuffer.moveTo
  cases tb.buckets b <;> exact ⟨rfl, rfl⟩

theorem remove_nNode : (tb.remove b x).nNode = tb.nNode ∧ (tb.remove b x).freeHead = tb.freeHead := by
  have setNext_n : ∀ (t : TransBuffer) j n, (t.setNext j n).nNode = t.nNode ∧
      (t.setNext j n).freeHead = t.freeHead := fun _ _ _ => ⟨rfl, rfl⟩
  have setPrev_n : ∀ (t : TransBuffer) j n, (t.setPrev j n).nNode = t.nNode ∧
      (t.setPrev j n).freeHead = t.freeHead := fun _ _ _ => ⟨rfl, rfl⟩
  have setHash_n : ∀ (t : TransBuffer) j n, (t.setHash j n).nNode = t.nNode ∧
      (t.setHash j n).freeHead = t.freeHead := fun _ _ _ => ⟨rfl, rfl⟩
  have setFirst_n : ∀ (t : TransBuffer) j n, (t.setFirst j n).nNode = t.nNode ∧
      (t.setFirst j n).freeHead = t.freeHead := fun _ _ _ => ⟨rfl, rfl⟩
  unfold TransBuffer.remove
  simp only [setHash_n, setNext_n, setPrev_n]
  (repeat' split) <;> simp only [setFirst_n, setPrev_n, setNext_n, and_self]

theorem rebucket_nNode : (tb.rebucket b x).nNode = tb.nNode ∧
    (tb.rebucket b x).freeHead = tb.freeHead := by
  unfold TransBuffer.rebucket
  split
  · exact moveTo_nNode
  · split_ifs
    · exact ⟨rfl, rfl⟩
    · exact ⟨moveTo_nNode.1.trans remove_nNode.1, moveTo_nNode.2.trans remove_nNode.2⟩

end UnifiedCache.CacheStore.TransBuffer
