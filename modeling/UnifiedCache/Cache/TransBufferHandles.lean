import UnifiedCache.Cache.TransBufferRefinement

/-! Runs of a client of the buffer: it gets handles, copies, moves, assigns and
destroys them, asks which keys exist and marks nodes ready, each call taken as
one step. -/

namespace UnifiedCache.CacheStore

namespace TransBuffer

def acquireHandle (tb : TransBuffer) (h : Handle) : TransBuffer :=
  match h.pos with
  | none => tb
  | some pos => tb.acquire pos

def destroyHandle (tb : TransBuffer) (h : Handle) : TransBuffer :=
  match h.pos with
  | none => tb
  | some pos => tb.release pos

end TransBuffer

/-- A live handle object. The key it was obtained for and whether it is one
that `Get` returned are no part of the code. -/
structure HandleVar where
  handle : TransBuffer.Handle
  key : BlockId × Nat
  fromGet : Bool

def HandleVar.default : HandleVar := ⟨TransBuffer.Handle.default, (Vector.replicate 16 0, 0), false⟩

def HandleVar.copied (v : HandleVar) : HandleVar := { v with fromGet := false }

inductive HandleAction where
  | get (blockId : BlockId) (shardIdx : Nat)
  | exist (blockId : BlockId) (shardIdx : Nat)
  | default
  | copy (other : Nat)
  | move (other : Nat)
  | copyAssign (self other : Nat)
  | moveAssign (self other : Nat)
  | destroy (self : Nat)
  | markReady (self : Nat)

structure Client where
  buf : TransBuffer
  vars : List HandleVar

namespace Client

def setup (nNode : Nat) : Client := ⟨TransBuffer.setup nNode, []⟩

/-- Both assignments build `tmp` from the other handle, swap it in and destroy
what the assigned handle was. -/
def step (hashers : Hashers) (c : Client) : HandleAction → Option Client
  | .get blockId shardIdx => do
    let (h, tb) ← c.buf.get hashers blockId shardIdx
    some ⟨tb, ⟨h, (blockId, shardIdx), true⟩ :: c.vars⟩
  | .exist blockId shardIdx => do
    let _ ← c.buf.exist hashers blockId shardIdx
    some c
  | .default => some { c with vars := HandleVar.default :: c.vars }
  | .copy other => do
    let v ← c.vars[other]?
    some ⟨c.buf.acquireHandle v.handle, v.copied :: c.vars⟩
  | .move other => do
    let v ← c.vars[other]?
    some { c with vars := v :: c.vars.set other HandleVar.default }
  | .copyAssign self other => do
    let v ← c.vars[other]?
    let old ← c.vars[self]?
    if self = other then some c
    else some ⟨(c.buf.acquireHandle v.handle).destroyHandle old.handle, c.vars.set self v.copied⟩
  | .moveAssign self other => do
    let v ← c.vars[other]?
    let vars := c.vars.set other HandleVar.default
    let old ← vars[self]?
    some ⟨c.buf.destroyHandle old.handle, vars.set self v⟩
  | .destroy self => do
    let v ← c.vars[self]?
    some ⟨c.buf.destroyHandle v.handle, c.vars.eraseIdx self⟩
  | .markReady self => do
    let v ← c.vars[self]?
    let pos ← v.handle.pos
    some { c with buf := c.buf.markReady pos }

def run (hashers : Hashers) (c : Client) : List HandleAction → Option Client
  | [] => some c
  | a :: as => do
    let c ← c.step hashers a
    c.run hashers as

end Client

open TransBuffer PinnedPool

variable {hashers : Hashers} {c c' : Client} {tb : TransBuffer} {vars vars' : List HandleVar}
  {v : HandleVar} {n : Nat}

def HandleVar.pin (v : HandleVar) : Option (Pin (BlockId × Nat)) :=
  v.handle.pos.map fun i => ⟨i, v.key, v.fromGet && v.handle.owner⟩

namespace Client

/-- The chains index the keys, and the references are those of the live handles. -/
structure Inv (hashers : Hashers) (c : Client) : Prop where
  wellFormed : WellFormed hashers c.buf
  held : Held c.buf.pool (c.vars.filterMap HandleVar.pin)

theorem inv_setup (hn : 1 ≤ n) : Inv hashers (setup n) :=
  ⟨wellFormed_setup hn, held_start hn⟩

theorem Inv.perm (h : Inv hashers ⟨tb, vars⟩) (hp : vars.Perm vars') : Inv hashers ⟨tb, vars'⟩ :=
  ⟨h.wellFormed, h.held.perm (hp.filterMap _)⟩

theorem Inv.default (h : Inv hashers ⟨tb, vars⟩) : Inv hashers ⟨tb, HandleVar.default :: vars⟩ :=
  ⟨h.wellFormed, h.held⟩

theorem Inv.copy (h : Inv hashers ⟨tb, vars⟩) (hv : v ∈ vars) :
    Inv hashers ⟨tb.acquireHandle v.handle, v.copied :: vars⟩ := by
  cases hp : v.handle.pos with
  | none =>
    refine ⟨?_, ?_⟩
    · simpa only [acquireHandle, hp] using h.wellFormed
    · simpa [acquireHandle, hp, HandleVar.pin, HandleVar.copied] using h.held
  | some i =>
    simp only [acquireHandle, hp]
    refine ⟨h.wellFormed.acquire i, ?_⟩
    have hmem : (⟨i, v.key, v.fromGet && v.handle.owner⟩ : Pin _) ∈ vars.filterMap HandleVar.pin :=
      List.mem_filterMap.mpr ⟨v, hv, by simp [HandleVar.pin, hp]⟩
    have hk : tb.pool.key i = some v.key := h.held.key _ hmem
    have hheld := h.held.pin (x := ⟨i, v.key, false⟩) hk (by simp)
    simpa [pool_acquire, HandleVar.pin, HandleVar.copied, hp] using hheld

theorem Inv.destroy (h : Inv hashers ⟨tb, v :: vars⟩) :
    Inv hashers ⟨tb.destroyHandle v.handle, vars⟩ := by
  have hheld := h.held
  cases hp : v.handle.pos with
  | none =>
    simp only [destroyHandle, hp]
    refine ⟨h.wellFormed, ?_⟩
    simpa [HandleVar.pin, hp] using hheld
  | some i =>
    simp only [destroyHandle, hp]
    refine ⟨h.wellFormed.release i, ?_⟩
    simp only [List.filterMap_cons, HandleVar.pin, hp, Option.map_some] at hheld
    rw [pool_release]
    exact hheld.unpin

theorem Inv.get {blockId : BlockId} {shardIdx : Nat} {r : Handle × TransBuffer}
    (h : Inv hashers ⟨tb, vars⟩) (hr : tb.get hashers blockId shardIdx = some r) :
    Inv hashers ⟨r.2, ⟨r.1, (blockId, shardIdx), true⟩ :: vars⟩ := by
  obtain ⟨hw, hg⟩ := h.wellFormed.get blockId shardIdx
  rw [hr, Option.map_some, eq_comm, Option.map_eq_some_iff] at hg
  obtain ⟨⟨⟨i, o⟩, q⟩, hget, he⟩ := hg
  obtain ⟨hh, hq⟩ := Prod.mk.inj he
  refine ⟨hw r hr, ?_⟩
  have hheld := h.held.get hget
  simp only at hq
  rw [← hq]
  simpa [HandleVar.pin, ← hh] using hheld

theorem perm_eraseIdx {i : Nat} (h : vars[i]? = some v) : vars.Perm (v :: vars.eraseIdx i) := by
  obtain ⟨hi, rfl⟩ := List.getElem?_eq_some_iff.mp h
  exact (List.getElem_cons_eraseIdx_perm hi).symm

theorem perm_set {i : Nat} (h : vars[i]? = some v) (w : HandleVar) :
    (vars.set i w).Perm (w :: vars.eraseIdx i) :=
  List.set_perm_cons_eraseIdx (List.getElem?_eq_some_iff.mp h).1 w

/-- What a step can do, with the lists of handles that it leaves. -/
theorem step_cases {a : HandleAction} (hs : c.step hashers a = some c') :
    (∃ b s r, a = .get b s ∧ c.buf.get hashers b s = some r ∧
      c' = ⟨r.2, ⟨r.1, (b, s), true⟩ :: c.vars⟩) ∨
    c' = c ∨ c' = { c with vars := HandleVar.default :: c.vars } ∨
    (∃ v ∈ c.vars, c' = ⟨c.buf.acquireHandle v.handle, v.copied :: c.vars⟩) ∨
    (∃ i v, c.vars[i]? = some v ∧ c' = { c with vars := v :: c.vars.set i HandleVar.default }) ∨
    (∃ i v, ∃ w ∈ c.vars, c.vars[i]? = some v ∧
      c' = ⟨(c.buf.acquireHandle w.handle).destroyHandle v.handle, c.vars.set i w.copied⟩) ∨
    (∃ i j v w, c.vars[j]? = some w ∧ (c.vars.set j HandleVar.default)[i]? = some v ∧
      c' = ⟨c.buf.destroyHandle v.handle, (c.vars.set j HandleVar.default).set i w⟩) ∨
    (∃ i v, c.vars[i]? = some v ∧ c' = ⟨c.buf.destroyHandle v.handle, c.vars.eraseIdx i⟩) ∨
    ∃ pos, c' = { c with buf := c.buf.markReady pos } := by
  cases a with
  | get b s =>
    obtain ⟨r, hr, he⟩ := Option.bind_eq_some_iff.mp hs
    exact Or.inl ⟨b, s, r, rfl, hr, (Option.some.inj he).symm⟩
  | exist b s =>
    obtain ⟨_, _, he⟩ := Option.bind_eq_some_iff.mp hs
    exact Or.inr (Or.inl (Option.some.inj he).symm)
  | default => exact Or.inr (Or.inr (Or.inl (Option.some.inj hs).symm))
  | copy other =>
    obtain ⟨v, hv, he⟩ := Option.bind_eq_some_iff.mp hs
    have hm := List.mem_of_getElem? hv
    exact Or.inr (Or.inr (Or.inr (Or.inl ⟨v, hm, (Option.some.inj he).symm⟩)))
  | move other =>
    obtain ⟨v, hv, he⟩ := Option.bind_eq_some_iff.mp hs
    exact Or.inr (Or.inr (Or.inr (Or.inr (Or.inl ⟨other, v, hv, (Option.some.inj he).symm⟩))))
  | copyAssign self other =>
    obtain ⟨w, hw, hs⟩ := Option.bind_eq_some_iff.mp hs
    obtain ⟨v, hv, he⟩ := Option.bind_eq_some_iff.mp hs
    split_ifs at he
    · exact Or.inr (Or.inl (Option.some.inj he).symm)
    · have hm := List.mem_of_getElem? hw
      exact Or.inr (Or.inr (Or.inr (Or.inr (Or.inr (Or.inl
        ⟨self, v, w, hm, hv, (Option.some.inj he).symm⟩)))))
  | moveAssign self other =>
    obtain ⟨w, hw, hs⟩ := Option.bind_eq_some_iff.mp hs
    obtain ⟨v, hv, he⟩ := Option.bind_eq_some_iff.mp hs
    exact Or.inr (Or.inr (Or.inr (Or.inr (Or.inr (Or.inr (Or.inl
      ⟨self, other, v, w, hw, hv, (Option.some.inj he).symm⟩))))))
  | destroy self =>
    obtain ⟨v, hv, he⟩ := Option.bind_eq_some_iff.mp hs
    exact Or.inr (Or.inr (Or.inr (Or.inr (Or.inr (Or.inr (Or.inr (Or.inl
      ⟨self, v, hv, (Option.some.inj he).symm⟩)))))))
  | markReady self =>
    obtain ⟨v, _, hs⟩ := Option.bind_eq_some_iff.mp hs
    obtain ⟨pos, _, he⟩ := Option.bind_eq_some_iff.mp hs
    exact Or.inr (Or.inr (Or.inr (Or.inr (Or.inr (Or.inr (Or.inr (Or.inr
      ⟨pos, (Option.some.inj he).symm⟩)))))))

theorem Inv.step {a : HandleAction} (h : Inv hashers c) (hs : c.step hashers a = some c') :
    Inv hashers c' := by
  rcases step_cases hs with ⟨b, s, r, _, hr, rfl⟩ | rfl | rfl | ⟨v, hv, rfl⟩ | ⟨i, v, hv, rfl⟩ |
    ⟨i, v, w, hw, hv, rfl⟩ | ⟨i, j, v, w, hw, hv, rfl⟩ | ⟨i, v, hv, rfl⟩ | ⟨pos, rfl⟩
  · exact h.get hr
  · exact h
  · exact h.default
  · exact h.copy hv
  · refine h.default.perm ?_
    calc
      (HandleVar.default :: c.vars).Perm (HandleVar.default :: v :: c.vars.eraseIdx i) :=
        (perm_eraseIdx hv).cons _
      _ |>.Perm (v :: HandleVar.default :: c.vars.eraseIdx i) := List.Perm.swap _ _ _
      _ |>.Perm (v :: c.vars.set i HandleVar.default) := ((perm_set hv _).symm).cons _
  · have hp : (w.copied :: c.vars).Perm (v :: w.copied :: c.vars.eraseIdx i) :=
      ((perm_eraseIdx hv).cons _).trans (List.Perm.swap _ _ _)
    exact ((h.copy hw).perm hp).destroy.perm (perm_set hv _).symm
  · refine (Inv.destroy (h.default.perm ?_)).perm (perm_set hv w).symm
    calc
      (HandleVar.default :: c.vars).Perm (HandleVar.default :: w :: c.vars.eraseIdx j) :=
        (perm_eraseIdx hw).cons _
      _ |>.Perm (w :: HandleVar.default :: c.vars.eraseIdx j) := List.Perm.swap _ _ _
      _ |>.Perm (w :: c.vars.set j HandleVar.default) := ((perm_set hw _).symm).cons _
      _ |>.Perm (w :: v :: (c.vars.set j HandleVar.default).eraseIdx i) := (perm_eraseIdx hv).cons _
      _ |>.Perm (v :: w :: (c.vars.set j HandleVar.default).eraseIdx i) := List.Perm.swap _ _ _
  · exact (h.perm (perm_eraseIdx hv)).destroy
  · refine ⟨h.wellFormed.markReady pos, ?_⟩
    rw [pool_markReady]
    exact h.held.markReady pos

theorem Inv.run {as : List HandleAction} (h : Inv hashers c) (hr : c.run hashers as = some c') :
    Inv hashers c' := by
  induction as generalizing c with
  | nil => exact Option.some.inj hr ▸ h
  | cons a as ih =>
    obtain ⟨d, hd, hr⟩ := Option.bind_eq_some_iff.mp hr
    exact ih (h.step hd) hr

theorem Inv.get_isSome (h : Inv hashers c) {blockId : BlockId} {shardIdx : Nat}
    (hf : (∃ i < c.buf.nNode, (c.buf.metaAt i).reference = 0) ∨
      c.buf.exist hashers blockId shardIdx = some true) :
    (c.step hashers (.get blockId shardIdx)).isSome := by
  have hg := (h.wellFormed.get blockId shardIdx).2
  suffices hs : (c.buf.pool.get (blockId, shardIdx)).isSome by
    rw [← Option.isSome_map, ← hg, Option.isSome_map] at hs
    obtain ⟨r, hr⟩ := Option.isSome_iff_exists.mp hs
    simp [Client.step, hr]
  cases hfind : c.buf.pool.find (blockId, shardIdx) with
  | some i => simp [PinnedPool.get, hfind]
  | none =>
    rw [h.wellFormed.exist_eq, hfind] at hf
    obtain ⟨i, hi, hr⟩ := hf.resolve_right (by simp)
    simpa [PinnedPool.get, hfind] using clock_isSome h.wellFormed.ok hi hr

/-- In every reachable state the chains are an index of the keys, `Exist` says
whether a chained node has the key, and `Get` returns when it may be called. -/
theorem chains_of_run {as : List HandleAction} (hn : 1 ≤ n)
    (hr : (setup n).run hashers as = some c) :
    ∃ chain : Nat → List Nat,
      (∀ b, LinkedChain.Fwd c.buf.nextOf (c.buf.buckets b) (chain b) ∧ (chain b).Nodup ∧
        LinkedChain.Bwd c.buf.prevOf none (chain b) ∧ ∀ i, i ∈ chain b ↔ c.buf.hashOf i = some b) ∧
      (∀ b, ∀ i ∈ chain b, hashers.hash (c.buf.keyOf i).1 (c.buf.keyOf i).2 = b) ∧
      (∀ b b', ∀ i ∈ chain b, ∀ j ∈ chain b', c.buf.keyOf i = c.buf.keyOf j → i = j) ∧
      (∀ blockId shardIdx, ∃ found, c.buf.exist hashers blockId shardIdx = some found ∧
        (found = true ↔ ∃ b, ∃ i ∈ chain b, c.buf.keyOf i = (blockId, shardIdx))) ∧
      ∀ blockId shardIdx, ((∃ i < c.buf.nNode, (c.buf.metaAt i).reference = 0) ∨
        c.buf.exist hashers blockId shardIdx = some true) →
          (c.step hashers (.get blockId shardIdx)).isSome := by
  have h := (inv_setup hn).run hr
  obtain ⟨chain, hl⟩ := h.wellFormed.linked
  have hkey : ∀ {b i}, i ∈ chain b → c.buf.pool.key i = some (c.buf.keyOf i) := fun hi =>
    pool_key_eq_some_iff.mpr ⟨rfl, _, (hl.mem _ _).mp hi⟩
  refine ⟨chain, fun b => ⟨hl.fwd b, hl.nodup b, hl.bwd b, hl.mem b⟩, fun b i hi => ?_,
    fun b b' i hi j hj he => ?_, fun blockId shardIdx => ⟨_, h.wellFormed.exist_eq, ?_⟩,
    fun _ _ => h.get_isSome⟩
  · exact h.wellFormed.hashed i b ((hl.mem b i).mp hi)
  · exact h.wellFormed.ok.unique i j _ (hkey hi) (he ▸ hkey hj)
  · rw [Option.isSome_iff_exists]
    constructor
    · rintro ⟨i, hi⟩
      obtain ⟨hk, b, hb⟩ := pool_key_eq_some_iff.mp (find_some hi)
      exact ⟨b, i, (hl.mem b i).mpr hb, hk⟩
    · rintro ⟨b, i, hi, hk⟩
      exact ⟨i, h.wellFormed.ok.find_eq_some_iff.mpr (hk ▸ hkey hi)⟩

/-- Two nodes under one hash: the second `get` takes the other node, and the
third steals the node that was given back. -/
def reuseRun : List HandleAction :=
  [.get (Vector.replicate 16 0) 0, .destroy 0, .get (Vector.replicate 16 1) 0,
    .get (Vector.replicate 16 0) 1, .copy 0, .markReady 1, .moveAssign 0 2]

def flatHashers : Hashers := ⟨fun _ => 0, fun _ => 0⟩

theorem reuseRun_isSome : ((setup 2).run flatHashers reuseRun).isSome := by decide

theorem chains_reuseRun : ∃ c, (setup 2).run flatHashers reuseRun = some c ∧
    ∃ chain : Nat → List Nat, ∀ b, LinkedChain.Fwd c.buf.nextOf (c.buf.buckets b) (chain b) ∧
      (chain b).Nodup ∧ LinkedChain.Bwd c.buf.prevOf none (chain b) ∧
      ∀ i, i ∈ chain b ↔ c.buf.hashOf i = some b := by
  obtain ⟨c, hc⟩ := Option.isSome_iff_exists.mp reuseRun_isSome
  obtain ⟨chain, hl, _⟩ := chains_of_run (by decide) hc
  exact ⟨c, hc, chain, hl⟩

theorem countP_filterMap_pin (i : Nat) :
    (vars.filterMap HandleVar.pin).countP (fun x => x.node = i) =
      vars.countP fun v => v.handle.pos = some i := by
  induction vars with
  | nil => rfl
  | cons v vars ih =>
    cases hp : v.handle.pos with
    | none => simp [HandleVar.pin, hp, ih]
    | some j => simp [HandleVar.pin, hp, ih, List.countP_cons]

theorem countP_filterMap_pin_owner (i : Nat) :
    (vars.filterMap HandleVar.pin).countP (fun x => x.node = i ∧ x.owner) =
      vars.countP fun v => v.handle.pos = some i ∧ v.fromGet ∧ v.handle.owner := by
  induction vars with
  | nil => rfl
  | cons v vars ih =>
    cases hp : v.handle.pos with
    | none => simpa [HandleVar.pin, hp] using ih
    | some j => simpa [HandleVar.pin, hp, List.countP_cons] using ih

theorem Inv.pin_mem (hv : v ∈ vars) {i : Nat} (hp : v.handle.pos = some i) :
    ⟨i, v.key, v.fromGet && v.handle.owner⟩ ∈ vars.filterMap HandleVar.pin :=
  List.mem_filterMap.mpr ⟨v, hv, by simp [HandleVar.pin, hp]⟩

theorem pool_acquireHandle (tb : TransBuffer) (h : Handle) : (tb.acquireHandle h).pool.key = tb.pool.key ∧
    (tb.acquireHandle h).pool.ready = tb.pool.ready := by
  cases hp : h.pos with
  | none => simp [acquireHandle, hp]
  | some i => simp [acquireHandle, hp, pool_acquire, PinnedPool.pin]

theorem pool_destroyHandle (tb : TransBuffer) (h : Handle) : (tb.destroyHandle h).pool.key = tb.pool.key ∧
    (tb.destroyHandle h).pool.ready = tb.pool.ready := by
  cases hp : h.pos with
  | none => simp [destroyHandle, hp]
  | some i => simp [destroyHandle, hp, pool_release, PinnedPool.unpin]

/-- A step keeps the key of a referenced node, and never unmarks it. -/
theorem Inv.step_keeps {a : HandleAction} {i : Nat} (h : Inv hashers c)
    (hs : c.step hashers a = some c') (hr : 0 < c.buf.pool.reference i) :
    c'.buf.pool.key i = c.buf.pool.key i ∧ (c.buf.pool.ready i = true → c'.buf.pool.ready i = true) := by
  rcases step_cases hs with ⟨b, s, r, _, hg, rfl⟩ | rfl | rfl | ⟨v, hv, rfl⟩ | ⟨j, v, hv, rfl⟩ |
    ⟨j, v, w, hw, hv, rfl⟩ | ⟨j, j', v, w, hw, hv, rfl⟩ | ⟨j, v, hv, rfl⟩ | ⟨pos, rfl⟩
  · obtain ⟨hw, hp⟩ := h.wellFormed.get b s
    rw [hg, Option.map_some, eq_comm, Option.map_eq_some_iff] at hp
    obtain ⟨⟨⟨j, o⟩, q⟩, hget, he⟩ := hp
    obtain ⟨_, hq⟩ := Prod.mk.inj he
    simp only at hq
    rw [← hq]
    exact get_keeps h.wellFormed.ok hget hr
  · exact ⟨rfl, id⟩
  · exact ⟨rfl, id⟩
  · obtain ⟨hk, hd⟩ := pool_acquireHandle c.buf v.handle
    simp only [hk, hd, true_and]
    exact id
  · exact ⟨rfl, id⟩
  · obtain ⟨hk, hd⟩ := pool_acquireHandle c.buf w.handle
    obtain ⟨hk', hd'⟩ := pool_destroyHandle (c.buf.acquireHandle w.handle) v.handle
    simp only [hk', hd', hk, hd, true_and]
    exact id
  · obtain ⟨hk, hd⟩ := pool_destroyHandle c.buf v.handle
    simp only [hk, hd, true_and]
    exact id
  · obtain ⟨hk, hd⟩ := pool_destroyHandle c.buf v.handle
    simp only [hk, hd, true_and]
    exact id
  · simp only [pool_markReady]
    exact ⟨rfl, fun hd => by by_cases he : i = pos <;> simp [PinnedPool.markReady, he, hd]⟩

/-- In every reachable state the references are the live handles, a referenced
node keeps its key, its bucket and its mark, handles share a node exactly when
they share a key, and at most one live handle from `Get` owns a node. -/
theorem pinned_of_run {as : List HandleAction} (hn : 1 ≤ n)
    (hr : (setup n).run hashers as = some c) :
    (∀ i, (c.buf.metaAt i).reference = c.vars.countP fun v => v.handle.pos = some i) ∧
      (∀ a c' i, c.step hashers a = some c' → 0 < (c.buf.metaAt i).reference →
        (∃ b, c.buf.hashOf i = some b) ∧ c'.buf.hashOf i = c.buf.hashOf i ∧
        c'.buf.keyOf i = c.buf.keyOf i ∧ (c.buf.ready i = true → c'.buf.ready i = true)) ∧
      (∀ v ∈ c.vars, ∀ w ∈ c.vars, v.handle.valid = true → w.handle.valid = true →
        (v.key = w.key ↔ v.handle.pos = w.handle.pos)) ∧
      ∀ i, (c.vars.countP fun v => v.handle.pos = some i ∧ v.fromGet ∧ v.handle.owner) ≤ 1 := by
  have h := (inv_setup hn).run hr
  refine ⟨fun i => ?_, fun a c' i hs hpos => ?_, fun v hv w hw hvv hvw => ?_, fun i => ?_⟩
  · rw [← countP_filterMap_pin]
    exact h.held.count i
  · obtain ⟨x, hx, rfl⟩ := h.held.exists_mem (i := i) hpos
    have hk := h.held.key x hx
    obtain ⟨hk', hd⟩ := h.step_keeps hs hpos
    rw [hk] at hk'
    obtain ⟨hkey, b, hb⟩ := pool_key_eq_some_iff.mp hk
    obtain ⟨hkey', b', hb'⟩ := pool_key_eq_some_iff.mp hk'
    have hbb : b' = b := by
      rw [← h.wellFormed.hashed _ b hb, ← (h.step hs).wellFormed.hashed _ b' hb', hkey, hkey']
    exact ⟨⟨b, hb⟩, by rw [hb, hb', hbb], by rw [hkey, hkey'], hd⟩
  · obtain ⟨i, hi⟩ := Option.isSome_iff_exists.mp hvv
    obtain ⟨j, hj⟩ := Option.isSome_iff_exists.mp hvw
    have := h.held.key_eq_iff (Inv.pin_mem hv hi) (Inv.pin_mem hw hj)
    simpa [hi, hj] using this
  · rw [← countP_filterMap_pin_owner]
    exact h.held.alone i

theorem pinned_reuseRun : ∃ c, (setup 2).run flatHashers reuseRun = some c ∧
    ∀ i, (c.buf.metaAt i).reference = c.vars.countP fun v => v.handle.pos = some i := by
  obtain ⟨c, hc⟩ := Option.isSome_iff_exists.mp reuseRun_isSome
  exact ⟨c, hc, (pinned_of_run (by decide) hc).1⟩

end Client

end UnifiedCache.CacheStore
