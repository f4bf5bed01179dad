import Mathlib

/-! A sequence of items whose ids are hashed one after the other, each with the id before it. Where
the hash is injective on what it is applied to, an id stands for all items up to its own. -/

namespace HashChain

variable {Id Item : Type*} (hash : Id × Item → Id)

def ids : Id → List Item → List Id
  | _, [] => []
  | parent, item :: items => hash (parent, item) :: ids (hash (parent, item)) items

/-- What the hash is applied to. -/
def pairs : Id → List Item → List (Id × Item)
  | _, [] => []
  | parent, item :: items => (parent, item) :: pairs (hash (parent, item)) items

variable {hash} {parent a : Id} {xs ys : List Item} {i j : Nat}

theorem length_ids : (ids hash parent xs).length = xs.length := by
  induction xs generalizing parent with
  | nil => rfl
  | cons x xs ih => rw [ids, List.length_cons, List.length_cons, ih]

theorem ids_eq_map : ids hash parent xs = (pairs hash parent xs).map hash := by
  induction xs generalizing parent with
  | nil => rfl
  | cons x xs ih => rw [ids, pairs, List.map_cons, ih]

theorem take_ids (n : Nat) : (ids hash parent xs).take n = ids hash parent (xs.take n) := by
  induction xs generalizing parent n with
  | nil => rw [List.take_nil, ids, List.take_nil]
  | cons x xs ih =>
    cases n with
    | zero => rfl
    | succ n => rw [List.take_succ_cons, ids, ids, List.take_succ_cons, ih]

theorem ids_prefix (h : xs <+: ys) : ids hash parent xs <+: ids hash parent ys := by
  rw [List.prefix_iff_eq_take.mp h, ← take_ids]
  exact List.take_prefix _ _

theorem pairs_zero : (pairs hash parent xs)[0]? = xs[0]?.map fun x => (parent, x) := by
  cases xs <;> rfl

theorem pairs_succ : (pairs hash parent xs)[i + 1]? =
    (ids hash parent xs)[i]?.bind fun id => xs[i + 1]?.map fun x => (id, x) := by
  induction xs generalizing parent i with
  | nil => rfl
  | cons x xs ih =>
    rw [pairs, ids, List.getElem?_cons_succ]
    cases i with
    | zero => rw [pairs_zero, List.getElem?_cons_zero, List.getElem?_cons_succ, Option.bind_some]
    | succ i => rw [ih, List.getElem?_cons_succ, List.getElem?_cons_succ]

theorem exists_pair (h : (ids hash parent xs)[i]? = some a) :
    ∃ p ∈ pairs hash parent xs, (pairs hash parent xs)[i]? = some p ∧ hash p = a := by
  rw [ids_eq_map, List.getElem?_map] at h
  obtain ⟨p, hp, rfl⟩ := Option.map_eq_some_iff.mp h
  exact ⟨p, List.mem_of_getElem? hp, hp, rfl⟩

/-- Two equal ids have the same place and the same items up to it. -/
theorem eq_of_ids_eq
    (hinj : ∀ p ∈ pairs hash parent xs ++ pairs hash parent ys, ∀ q ∈ pairs hash parent xs ++ pairs hash parent ys,
      hash p = hash q → p = q)
    (hseed : ∀ p ∈ pairs hash parent xs ++ pairs hash parent ys, hash p ≠ parent)
    (hi : (ids hash parent xs)[i]? = some a) (hj : (ids hash parent ys)[j]? = some a) :
    i = j ∧ xs.take (i + 1) = ys.take (j + 1) := by
  induction i generalizing j a with
  | zero =>
    obtain ⟨p, hp, hpi, rfl⟩ := exists_pair hi
    obtain ⟨q, hq, hqj, hpq⟩ := exists_pair hj
    obtain rfl := hinj p (List.mem_append_left _ hp) q (List.mem_append_right _ hq) hpq.symm
    rw [pairs_zero] at hpi
    obtain ⟨x, hx, rfl⟩ := Option.map_eq_some_iff.mp hpi
    cases j with
    | zero =>
      rw [pairs_zero] at hqj
      obtain ⟨y, hy, heq⟩ := Option.map_eq_some_iff.mp hqj
      obtain rfl := (Prod.mk.inj heq).2
      refine ⟨rfl, ?_⟩
      rw [List.take_add_one, List.take_add_one, List.take_zero, List.take_zero, hx, hy]
    | succ j =>
      -- The parent is no seed in the middle of a sequence.
      rw [pairs_succ] at hqj
      obtain ⟨b, hb, hqj⟩ := Option.bind_eq_some_iff.mp hqj
      obtain ⟨y, -, heq⟩ := Option.map_eq_some_iff.mp hqj
      obtain ⟨q, hq', -, rfl⟩ := exists_pair hb
      exact absurd (Prod.mk.inj heq).1 (hseed q (List.mem_append_right _ hq'))
  | succ i ih =>
    obtain ⟨p, hp, hpi, rfl⟩ := exists_pair hi
    obtain ⟨q, hq, hqj, hpq⟩ := exists_pair hj
    obtain rfl := hinj p (List.mem_append_left _ hp) q (List.mem_append_right _ hq) hpq.symm
    rw [pairs_succ] at hpi
    obtain ⟨b, hb, hpi⟩ := Option.bind_eq_some_iff.mp hpi
    obtain ⟨x, hx, rfl⟩ := Option.map_eq_some_iff.mp hpi
    cases j with
    | zero =>
      rw [pairs_zero] at hqj
      obtain ⟨y, -, heq⟩ := Option.map_eq_some_iff.mp hqj
      obtain ⟨p, hp', -, rfl⟩ := exists_pair hb
      exact absurd (Prod.mk.inj heq).1.symm (hseed p (List.mem_append_left _ hp'))
    | succ j =>
      rw [pairs_succ] at hqj
      obtain ⟨c, hc, hqj⟩ := Option.bind_eq_some_iff.mp hqj
      obtain ⟨y, hy, heq⟩ := Option.map_eq_some_iff.mp hqj
      obtain ⟨rfl, rfl⟩ := Prod.mk.inj heq
      obtain ⟨rfl, htake⟩ := ih hb hc
      refine ⟨rfl, ?_⟩
      rw [List.take_add_one (i := i + 1), List.take_add_one (i := i + 1), hx, hy, htake]

theorem nodup_ids
    (hinj : ∀ p ∈ pairs hash parent xs, ∀ q ∈ pairs hash parent xs, hash p = hash q → p = q)
    (hseed : ∀ p ∈ pairs hash parent xs, hash p ≠ parent) : (ids hash parent xs).Nodup := by
  have hmem : ∀ p ∈ pairs hash parent xs ++ pairs hash parent xs, p ∈ pairs hash parent xs := fun p hp =>
    (List.mem_append.mp hp).elim id id
  refine List.nodup_iff_getElem?_ne_getElem?.mpr fun i j hij hj he => ?_
  rw [List.getElem?_eq_getElem hj] at he
  have heq := eq_of_ids_eq (fun p hp q hq => hinj p (hmem p hp) q (hmem q hq)) (fun p hp => hseed p (hmem p hp)) he
    (List.getElem?_eq_getElem hj)
  exact hij.ne heq.1

end HashChain
