import UnifiedCache.Cache.Handles

/-! Who fills a node. A shard that is not the owner of its node waits until the node
is ready, so an owner that gives up a node that is not ready must be the last to
hold it. -/

namespace UnifiedCache.CacheStore.Store

open PinnedPool StepSystem

variable {Data : Type} {config : Config Data} {data : Nat → Data} {s s' : Store Data}

/-- A handle that owns a node that is not ready is released only when nobody else has
a handle of the node. -/
def HandsBack (s : Store Data) (e : Event Data) : Prop :=
  ∀ y ∈ s.dropping e, y.owner = true → s.pool.ready y.node = false → s.pool.reference y.node = 1

instance (s : Store Data) (e : Event Data) : Decidable (HandsBack s e) :=
  inferInstanceAs (Decidable (∀ y ∈ s.dropping e, _))

theorem owned_setup : Owned (setup config data).pool (setup config data).handles := by
  intro i hi
  cases hi

/-- A step from a state without orphans leaves none exactly when it hands back what it
does not fill. -/
theorem Step.owned_iff {e : Event Data} (h : Step config s e s') (hb : Base s)
    (ho : Owned s.pool s.handles) : Owned s'.pool s'.handles ↔ HandsBack s e := by
  have hm := h.move hb
  constructor
  · intro ho' y hy hyo hd
    rw [Option.mem_def.mp hy] at hm
    by_contra hr
    exact hb.held.not_owned_drop hm hyo hd hr ho'
  · intro hg
    exact ho.move hm hg

/-- In a run whose steps all meet the condition every node that is waited for has its
owner, and the next step keeps this exactly when it meets the condition. -/
theorem owned_of_handsBack (hc : config.Accepted)
    (h : Reach (step config) HandsBack (setup config data) s) :
    Owned s.pool s.handles ∧
      ∀ e s', s.step config e = some s' → (Owned s'.pool s'.handles ↔ HandsBack s e) := by
  have hn : 1 ≤ config.nNode := le_trans (by norm_num) hc.1
  have ho : Owned s.pool s.handles := by
    have hinv := h.invariant (fun s => Base s ∧ Owned s.pool s.handles)
      ⟨base_setup hn data, owned_setup⟩ fun s e s' hi hg hs =>
        ⟨(step_inv hs).base hi.1, ((step_inv hs).owned_iff hi.1 hi.2).mpr hg⟩
    exact hinv.2
  exact ⟨ho, fun e s' hs => (step_inv hs).owned_iff (base_of_reach hn h) ho⟩

/-- Two loads of one shard, of which the first has its handle and the second hits it. -/
def sharedLoad : List (Event Nat) :=
  [.user (.submit .load [⟨Vector.replicate 16 0, 0, [1]⟩]),
    .user (.submit .load [⟨Vector.replicate 16 0, 0, [2]⟩]),
    .load .pop, .load .check, .load .find, .load .takeNode, .load .find, .load (.submit (some 1)),
    .load .push, .load .push,
    .load .pop, .load .check, .load .find, .load .find, .load (.submit none), .load .push, .load .push]

def fillShared : List (Event Nat) :=
  [.backend (.loadDone 1 fun _ => 5), .transfer .pop, .transfer .check, .transfer .ready,
    .transfer .waited, .transfer .mark, .transfer (.copy true), .transfer (.sync false),
    .transfer .clear, .transfer .fail, .transfer .done]

theorem owned_fillShared : ∃ s, Reach (step Config.smallest) HandsBack (setup .smallest fun _ => 0) s ∧
    s.transfer.dropping s.holder = some ⟨0, (Vector.replicate 16 0, 0), true⟩ ∧
    s.pool.reference 0 = 2 ∧ Owned s.pool s.handles := by
  have hrun : ((run (checked (fun s e => decide (HandsBack s e)) (step Config.smallest))
      (setup .smallest fun _ => 0) (sharedLoad ++ fillShared)).map fun s =>
        (s.transfer.dropping s.holder, s.pool.reference 0)) =
      some (some ⟨0, (Vector.replicate 16 0, 0), true⟩, 2) := by decide +kernel
  obtain ⟨s, hs, he⟩ := Option.map_eq_some_iff.mp hrun
  obtain ⟨hd, hr⟩ := Prod.mk.inj he
  have hreach := Reach.start.checked (fun s e he => of_decide_eq_true he) hs
  exact ⟨s, hreach, hd, hr, (owned_of_handsBack Config.accepted_smallest hreach).1⟩

/-- The backend fails the load, and the first task releases its handle. -/
def loseShared : List (Event Nat) :=
  [.backend (.loadFailed 1), .transfer .pop, .transfer .check, .transfer .ready, .transfer .waited,
    .transfer .fail, .transfer .done, .transfer .release]

theorem not_owned_loseShared : ¬ ∀ (config : Config Nat) (data : Nat → Nat) (s : Store Nat),
    config.Accepted → Reach (step config) (fun _ _ => True) (setup config data) s →
    Owned s.pool s.handles := by
  intro hall
  have hrun : ((run (step Config.smallest) (setup .smallest fun _ => 0) (sharedLoad ++ loseShared)).map
      fun s => (s.pool.reference 0, s.pool.ready 0, s.handles.any Pin.owner)) =
      some (1, false, false) := by decide +kernel
  obtain ⟨s, hs, he⟩ := Option.map_eq_some_iff.mp hrun
  simp only [Prod.mk.injEq] at he
  obtain ⟨hr, hd, hh⟩ := he
  have hreach : Reach (step Config.smallest) (fun _ _ => True) (setup .smallest fun _ => 0) s :=
    Reach.start.run (fun _ _ _ => trivial) hs
  obtain ⟨x, hx, _, hxo⟩ := hall _ _ s Config.accepted_smallest hreach 0 (by omega) hd
  rw [List.any_eq_true.mpr ⟨x, hx, hxo⟩] at hh
  cases hh

end UnifiedCache.CacheStore.Store
