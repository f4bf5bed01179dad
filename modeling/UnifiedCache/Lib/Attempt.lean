import Mathlib

/-! The calls of a try block: those up to the first one that raises are made. What a list of
calls returned is served once by another list if each of it stands there once. -/

variable {α : Type*}

def attempt (raises : α → Bool) : List α → List α
  | [] => []
  | a :: as => if raises a then [a] else a :: attempt raises as

/-- The calls that return. -/
def returned (raises : α → Bool) (as : List α) : List α := as.takeWhile fun a => !raises a

section Attempt

variable {raises : α → Bool} {a b : α} {as : List α}

theorem isPrefix_attempt (raises : α → Bool) (as : List α) : attempt raises as <+: as := by
  induction as with
  | nil => exact List.prefix_rfl
  | cons a as ih =>
    unfold attempt
    split_ifs
    · exact List.cons_prefix_cons.mpr ⟨rfl, List.nil_prefix⟩
    · exact List.cons_prefix_cons.mpr ⟨rfl, ih⟩

theorem any_attempt (raises : α → Bool) (as : List α) : (attempt raises as).any raises = as.any raises := by
  induction as with
  | nil => rfl
  | cons a as ih =>
    unfold attempt
    cases h : raises a <;> simp [h, ih]

theorem mem_of_mem_attempt (h : a ∈ attempt raises as) : a ∈ as := (isPrefix_attempt raises as).subset h

/-- Some call that is made raises if some call of the block would. -/
theorem exists_mem_attempt : (∃ a ∈ attempt raises as, raises a = true) ↔ as.any raises = true := by
  rw [← any_attempt, List.any_eq_true]

theorem filter_attempt (raises : α → Bool) (as : List α) :
    (attempt raises as).filter (fun a => !raises a) = returned raises as := by
  induction as with
  | nil => rfl
  | cons a as ih =>
    unfold attempt returned
    cases h : raises a <;> simp [h, ih, returned]

theorem attempt_of_forall (h : ∀ a ∈ as, raises a = false) : attempt raises as = as := by
  induction as with
  | nil => rfl
  | cons a as ih =>
    rw [attempt, h a List.mem_cons_self, ih fun b hb => h b (List.mem_cons_of_mem a hb)]
    rfl

theorem returned_of_forall (h : ∀ a ∈ as, raises a = false) : returned raises as = as :=
  List.takeWhile_eq_self_iff.mpr fun a ha => by simp [h a ha]

/-- All calls are made unless one before the last raises. -/
theorem attempt_eq_self_iff : attempt raises as = as ↔ ∀ a ∈ as.dropLast, raises a = false := by
  induction as with
  | nil => simp [attempt]
  | cons a as ih =>
    cases as with
    | nil => cases h : raises a <;> simp [attempt, h]
    | cons b as =>
      cases h : raises a with
      | false => simpa [attempt, h] using ih
      | true => simp [attempt, h]

theorem attempt_map {β : Type*} (raises : β → Bool) (f : α → β) (as : List α) :
    (attempt (raises ∘ f) as).map f = attempt raises (as.map f) := by
  induction as with
  | nil => rfl
  | cons a as ih => cases h : raises (f a) <;> simp [attempt, h, ih]

theorem returned_map {β : Type*} (raises : β → Bool) (f : α → β) (as : List α) :
    (returned (raises ∘ f) as).map f = returned raises (as.map f) := by
  rw [returned, returned, List.takeWhile_map]
  rfl

theorem returned_eq_self_iff : returned raises as = as ↔ as.any raises = false := by
  rw [returned, List.takeWhile_eq_self_iff, List.any_eq_false]
  simp

end Attempt

section Served

variable {τ κ : Type*} [DecidableEq τ] {tag : α → τ} {xs ys served served' : List α}

/-- Each of the calls is served once, and as itself. -/
def ServedOnce (tag : α → τ) (xs served : List α) : Prop :=
  ∀ x ∈ xs, (served.filter fun y => tag y = tag x) = [x]

theorem filter_tag_eq {x : α} (hnd : (xs.map tag).Nodup) (hx : x ∈ xs) :
    (xs.filter fun y => tag y = tag x) = [x] := by
  induction xs with
  | nil => cases hx
  | cons a xs ih =>
    rw [List.map_cons, List.nodup_cons] at hnd
    rw [List.mem_cons] at hx
    obtain rfl | hx := hx
    · have hnone : (xs.filter fun y => tag y = tag x) = [] := by
        rw [List.filter_eq_nil_iff]
        intro y hy he
        exact hnd.1 (of_decide_eq_true he ▸ List.mem_map_of_mem hy)
      simp [hnone]
    · have hne : tag a ≠ tag x := fun he => hnd.1 (he ▸ List.mem_map_of_mem hx)
      rw [List.filter_cons_of_neg (by simpa using hne)]
      exact ih hnd.2 hx

/-- Serving in order, one loses nothing only by serving all. -/
theorem servedOnce_iff_eq (hnd : (xs.map tag).Nodup) (h : served.map tag <+: xs.map tag) :
    ServedOnce tag xs served ↔ served = xs := by
  constructor
  · intro hs
    have hmem : ∀ x ∈ xs, x ∈ served := by
      intro x hx
      have hx' : x ∈ served.filter fun y => tag y = tag x := by simp [hs x hx]
      exact List.mem_of_mem_filter hx'
    have hlength : xs.length ≤ served.length := by
      have hsub : xs.map tag ⊆ served.map tag := by
        intro t ht
        obtain ⟨x, hx, rfl⟩ := List.mem_map.mp ht
        exact List.mem_map_of_mem (hmem x hx)
      simpa using (hnd.subperm hsub).length_le
    have htags : served.map tag = xs.map tag := h.eq_of_length_le (by simpa using hlength)
    apply List.ext_getElem (by simpa using congrArg List.length htags)
    intro i hi hi'
    have htag : tag served[i] = tag xs[i] := by
      have hget := List.getElem_of_eq htags (i := i) (by simpa using hi)
      simpa using hget
    have hin : served[i] ∈ served.filter fun y => tag y = tag xs[i] := by simp [htag]
    rw [hs xs[i] (List.getElem_mem hi')] at hin
    exact List.mem_singleton.mp hin
  · intro he x hx
    rw [he]
    exact filter_tag_eq hnd hx

/-- A try block serves all but nothing after the call that raises. -/
theorem servedOnce_attempt {raises : α → Bool} (hnd : (xs.map tag).Nodup) :
    ServedOnce tag xs (attempt raises xs) ↔ ∀ x ∈ xs.dropLast, raises x = false := by
  rw [servedOnce_iff_eq hnd ((isPrefix_attempt raises xs).map tag), attempt_eq_self_iff]

theorem servedOnce_nil_iff : ServedOnce tag xs [] ↔ xs = [] := by
  constructor
  · intro hs
    apply List.eq_nil_iff_forall_not_mem.mpr
    intro x hx
    cases hs x hx
  · intro he x hx
    rw [he] at hx
    cases hx

theorem ServedOnce.perm (hs : ServedOnce tag xs served) (h : served.Perm served') : ServedOnce tag xs served' := by
  intro x hx
  have hfilter := h.filter fun y => decide (tag y = tag x)
  rw [hs x hx] at hfilter
  exact List.perm_singleton.mp hfilter.symm

theorem ServedOnce.perm_iff (h : served.Perm served') : ServedOnce tag xs served ↔ ServedOnce tag xs served' :=
  ⟨fun hs => hs.perm h, fun hs => hs.perm h.symm⟩

/-- Calls and those that serve them, side by side. -/
theorem servedOnce_append (h : ∀ x ∈ xs, ∀ y ∈ served', tag y ≠ tag x) (h' : ∀ x ∈ ys, ∀ y ∈ served, tag y ≠ tag x) :
    ServedOnce tag (xs ++ ys) (served ++ served') ↔ ServedOnce tag xs served ∧ ServedOnce tag ys served' := by
  have hleft : ∀ x ∈ xs, (served'.filter fun y => tag y = tag x) = [] := fun x hx =>
    List.filter_eq_nil_iff.mpr fun y hy => by simpa using h x hx y hy
  have hright : ∀ x ∈ ys, (served.filter fun y => tag y = tag x) = [] := fun x hx =>
    List.filter_eq_nil_iff.mpr fun y hy => by simpa using h' x hx y hy
  constructor
  · intro hs
    constructor
    · intro x hx
      have hx' := hs x (List.mem_append_left _ hx)
      rwa [List.filter_append, hleft x hx, List.append_nil] at hx'
    · intro x hx
      have hx' := hs x (List.mem_append_right _ hx)
      rwa [List.filter_append, hright x hx, List.nil_append] at hx'
  · intro ⟨hs, hs'⟩ x hx
    rw [List.filter_append]
    obtain hx | hx := List.mem_append.mp hx
    · rw [hs x hx, hleft x hx]
      rfl
    · rw [hs' x hx, hright x hx]
      rfl

theorem servedOnce_flatMap {keys : List κ} {f g : κ → List α} (hnd : keys.Nodup)
    (h : ∀ k ∈ keys, ∀ k' ∈ keys, ∀ x ∈ f k, ∀ y ∈ g k', tag y = tag x → k' = k) :
    ServedOnce tag (keys.flatMap f) (keys.flatMap g) ↔ ∀ k ∈ keys, ServedOnce tag (f k) (g k) := by
  induction keys with
  | nil => simp [ServedOnce]
  | cons k keys ih =>
    rw [List.nodup_cons] at hnd
    rw [List.flatMap_cons, List.flatMap_cons, servedOnce_append, List.forall_mem_cons]
    · rw [ih hnd.2 fun j hj j' hj' => h j (List.mem_cons_of_mem k hj) j' (List.mem_cons_of_mem k hj')]
    · intro x hx y hy he
      obtain ⟨k', hk', hy⟩ := List.mem_flatMap.mp hy
      have hkey := h k List.mem_cons_self k' (List.mem_cons_of_mem k hk') x hx y hy he
      exact hnd.1 (hkey ▸ hk')
    · intro x hx y hy he
      obtain ⟨k', hk', hx⟩ := List.mem_flatMap.mp hx
      have hkey := h k' (List.mem_cons_of_mem k hk') k List.mem_cons_self x hx y hy he
      exact hnd.1 (hkey ▸ hk')

theorem flatMap_flatMap_perm {β γ : Type*} (as : List β) (bs : List γ) (f : β → γ → List α) :
    (as.flatMap fun a => bs.flatMap fun b => f a b).Perm (bs.flatMap fun b => as.flatMap fun a => f a b) := by
  have hbind := Multiset.bind_bind (as : Multiset β) (bs : Multiset γ) (f := fun a b => (f a b : Multiset α))
  simpa only [Multiset.coe_bind, Multiset.coe_eq_coe] using hbind

end Served
