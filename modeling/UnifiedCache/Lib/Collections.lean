import Mathlib

/-! Slices and sums of lists, and dictionaries that keep the order in which their keys came in. -/

def slice {α : Type*} (xs : List α) (start stop : Nat) : List α := (xs.drop start).take (stop - start)

section Slice

variable {α β : Type*} {xs : List α} {ys : List β} {a b c i : Nat}

theorem getElem?_slice : (slice xs a b)[i]? = if i < b - a then xs[a + i]? else none := by
  rw [slice, List.getElem?_take, List.getElem?_drop]

theorem slice_self : slice xs a a = [] := by
  simp [slice]

theorem slice_of_length_le (h : xs.length ≤ a) : slice xs a b = [] := by
  simp [slice, List.drop_eq_nil_of_le h]

theorem length_slice (h : b ≤ xs.length) : (slice xs a b).length = b - a := by
  rw [slice, List.length_take, List.length_drop]
  omega

theorem slice_append_slice (hab : a ≤ b) (hbc : b ≤ c) : slice xs a b ++ slice xs b c = slice xs a c := by
  have hsplit : (xs.drop a).take (b - a + (c - b)) = (xs.drop a).take (b - a) ++ ((xs.drop a).drop (b - a)).take (c - b) :=
    List.take_add
  rw [List.drop_drop, show a + (b - a) = b by omega, show b - a + (c - b) = c - a by omega] at hsplit
  exact hsplit.symm

theorem slice_append (zs : List α) (h : b ≤ xs.length) : slice (xs ++ zs) a b = slice xs a b := by
  apply List.ext_getElem?
  intro i
  rw [getElem?_slice, getElem?_slice]
  split_ifs with hi
  · exact List.getElem?_append_left (by omega)
  · rfl

theorem zip_slice : (slice xs a b).zip (slice ys a b) = slice (xs.zip ys) a b := by
  simp only [slice, List.zip_eq_zipWith, List.take_zipWith, List.drop_zipWith]

theorem exists_of_mem_slice {x : α} (h : x ∈ slice xs a b) : ∃ i, a ≤ i ∧ i < b ∧ xs[i]? = some x := by
  obtain ⟨i, hi⟩ := List.mem_iff_getElem?.mp h
  rw [getElem?_slice] at hi
  split_ifs at hi with hlt
  exact ⟨a + i, by omega, by omega, hi⟩

theorem exists_of_mem_zip_slice {p : α × β} (h : p ∈ (slice xs a b).zip (slice ys a b)) :
    ∃ i, a ≤ i ∧ i < b ∧ xs[i]? = some p.1 ∧ ys[i]? = some p.2 := by
  rw [zip_slice] at h
  obtain ⟨i, hai, hib, hi⟩ := exists_of_mem_slice h
  exact ⟨i, hai, hib, List.getElem?_zip_eq_some.mp hi⟩

/-- A slice with bounds that count from the end where they are negative. -/
def intSlice {α : Type*} (xs : List α) (start stop : Int) : List α :=
  slice xs (bound start) (bound stop)
where
  bound (i : Int) : Nat := if i < 0 then (i + xs.length).toNat else i.toNat

theorem intSlice_natCast (a b : Nat) : intSlice xs a b = slice xs a b := by
  have hbound : ∀ n : Nat, intSlice.bound xs n = n := fun n => if_neg (by omega)
  rw [intSlice, hbound, hbound]

theorem slice_eq_nil (h : b ≤ a) : slice xs a b = [] := by
  rw [slice, Nat.sub_eq_zero_of_le h, List.take_zero]

theorem drop_slice (n : Nat) : (slice xs a b).drop n = slice xs (a + n) b := by
  rw [slice, slice, List.drop_take, List.drop_drop, Nat.sub_sub]

theorem slice_length (xs : List α) : slice xs a xs.length = xs.drop a := by
  rw [slice, ← List.length_drop, List.take_length]

theorem slice_sublist : (slice xs a b).Sublist xs :=
  (List.take_sublist _ _).trans (List.drop_sublist _ _)

theorem slice_zero : slice xs 0 b = xs.take b := by
  rw [slice, List.drop_zero, Nat.sub_zero]

end Slice

/-- The entries of a list that are selected, up to the end of the shorter list. -/
def compress {α : Type*} (data : List α) (selectors : List Bool) : List α :=
  ((data.zip selectors).filter Prod.snd).map Prod.fst

section Compress

variable {α β : Type*} {xs xs' : List α} {ys : List β} {selectors selectors' : List Bool}

theorem compress_nil_left : compress ([] : List α) selectors = [] := rfl

theorem compress_nil_right : compress xs [] = [] := by
  rw [compress, List.zip_nil_right]
  rfl

theorem compress_append (h : xs.length = selectors.length) :
    compress (xs ++ xs') (selectors ++ selectors') = compress xs selectors ++ compress xs' selectors' := by
  rw [compress, List.zip_append h, List.filter_append, List.map_append]
  rfl

theorem compress_slice_append {a b c : Nat} (hab : a ≤ b) (hbc : b ≤ c) (hxs : c ≤ xs.length) (hsel : c ≤ selectors.length) :
    compress (slice xs a b) (slice selectors a b) ++ compress (slice xs b c) (slice selectors b c) =
      compress (slice xs a c) (slice selectors a c) := by
  have hlength : (slice xs a b).length = (slice selectors a b).length := by
    rw [length_slice (hbc.trans hxs), length_slice (hbc.trans hsel)]
  rw [← slice_append_slice hab hbc, ← slice_append_slice hab hbc, compress_append hlength]

theorem compress_sublist : (compress xs selectors).Sublist xs := by
  induction xs generalizing selectors with
  | nil => exact List.Sublist.refl _
  | cons x xs ih =>
    cases selectors with
    | nil => exact List.nil_sublist _
    | cons selected selectors =>
      cases selected with
      | false => exact ih.cons x
      | true => exact ih.cons_cons x

theorem mem_compress {x : α} : x ∈ compress xs selectors ↔ ∃ i : Nat, xs[i]? = some x ∧ selectors[i]? = some true := by
  rw [compress, List.mem_map]
  constructor
  · rintro ⟨⟨x', selected⟩, hmem, rfl⟩
    obtain ⟨hmem, hselected⟩ := List.mem_filter.mp hmem
    obtain ⟨i, hi⟩ := List.mem_iff_getElem?.mp hmem
    obtain ⟨hx, hs⟩ := List.getElem?_zip_eq_some.mp hi
    dsimp only at hselected hs
    rw [hselected] at hs
    exact ⟨i, hx, hs⟩
  · rintro ⟨i, hx, hs⟩
    refine ⟨(x, true), List.mem_filter.mpr ⟨?_, rfl⟩, rfl⟩
    exact List.mem_iff_getElem?.mpr ⟨i, List.getElem?_zip_eq_some.mpr ⟨hx, hs⟩⟩

/-- The same entries are selected from two lists of one length. -/
theorem zip_compress (h : xs.length = ys.length) :
    (compress xs selectors).zip (compress ys selectors) = compress (xs.zip ys) selectors := by
  induction xs generalizing ys selectors with
  | nil => rfl
  | cons x xs ih =>
    cases ys with
    | nil => exact absurd h (Nat.succ_ne_zero _)
    | cons y ys =>
      cases selectors with
      | nil => simp only [compress_nil_right, List.zip_nil_right]
      | cons selected selectors =>
        have ih := @ih ys selectors (Nat.succ_injective h)
        cases selected with
        | false => exact ih
        | true => exact congrArg (List.cons (x, y)) ih

theorem length_compress (h : xs.length = ys.length) :
    (compress xs selectors).length = (compress ys selectors).length := by
  induction xs generalizing ys selectors with
  | nil => rw [List.eq_nil_of_length_eq_zero h.symm, compress_nil_left, compress_nil_left, List.length_nil, List.length_nil]
  | cons x xs ih =>
    cases ys with
    | nil => exact absurd h (Nat.succ_ne_zero _)
    | cons y ys =>
      cases selectors with
      | nil => simp only [compress_nil_right, List.length_nil]
      | cons selected selectors =>
        have ih := @ih ys selectors (Nat.succ_injective h)
        cases selected with
        | false => exact ih
        | true => exact congrArg Nat.succ ih

end Compress

theorem foldl_add_eq_sum {M : Type*} [AddCommMonoid M] (f : Nat → M) (n : Nat) (init : M) :
    (List.range n).foldl (fun sum i => sum + f i) init = init + ∑ i ∈ Finset.range n, f i := by
  induction n with
  | zero => simp
  | succ n ih =>
    rw [List.range_succ, List.foldl_append, List.foldl_cons, List.foldl_nil, ih, Finset.sum_range_succ, add_assoc]

theorem mapM_eq_some {α β : Type*} {f : α → Option β} {xs : List α} {ys : List β} :
    xs.mapM f = some ys ↔ List.Forall₂ (fun x y => f x = some y) xs ys := by
  induction xs generalizing ys with
  | nil => simp [eq_comm]
  | cons x xs ih =>
    rw [List.mapM_cons, List.forall₂_cons_left_iff]
    simp only [Option.bind_eq_bind, Option.bind_eq_some_iff, Option.pure_def, Option.some.injEq]
    constructor
    · rintro ⟨y, hy, zs, hzs, rfl⟩
      exact ⟨y, zs, hy, ih.mp hzs, rfl⟩
    · rintro ⟨y, zs, hy, hzs, rfl⟩
      exact ⟨y, hy, zs, ih.mpr hzs, rfl⟩

theorem mapM_eq_map {α β : Type*} {f : α → Option β} {g : α → β} {xs : List α} (h : ∀ x ∈ xs, f x = some (g x)) :
    xs.mapM f = some (xs.map g) :=
  mapM_eq_some.mpr (List.forall₂_map_right_iff.mpr (List.forall₂_same.mpr h))

theorem getElem?_mapM_range {β : Type*} {f : Nat → Option β} {n : Nat} {ys : List β} (h : (List.range n).mapM f = some ys) :
    ys.length = n ∧ ∀ i y, ys[i]? = some y → f i = some y := by
  have hall := List.forall₂_iff_get.mp (mapM_eq_some.mp h)
  refine ⟨by rw [← hall.1, List.length_range], ?_⟩
  intro i y hi
  obtain ⟨hlt, rfl⟩ := List.getElem?_eq_some_iff.mp hi
  simpa using hall.2 i (hall.1 ▸ hlt) hlt

structure Dict (K V : Type*) where
  items : List (K × V)
  nodup : (items.map Prod.fst).Nodup

namespace Dict

variable {K V : Type*} {d : Dict K V} {k k' : K} {v : V}

def empty : Dict K V := ⟨[], List.nodup_nil⟩

theorem mem_items_inj {p q : K × V} (hp : p ∈ d.items) (hq : q ∈ d.items) (h : p.1 = q.1) : p = q :=
  List.inj_on_of_nodup_map d.nodup hp hq h

def mapVals {W : Type*} (d : Dict K V) (f : V → W) : Dict K W where
  items := d.items.map fun p => (p.1, f p.2)
  nodup := by
    rw [List.map_map]
    exact d.nodup

theorem flatMap_mapVals {α : Type*} (f : K × V → List α) (g : V → V) (h : ∀ p, f (p.1, g p.2) = f p) :
    (d.mapVals g).items.flatMap f = d.items.flatMap f := by
  rw [mapVals, List.flatMap_map]
  simp only [h]

variable [DecidableEq K]

def get? (d : Dict K V) (k : K) : Option V := d.items.lookup k

/-- A key that is there keeps its place, and a new one comes last. -/
def set (d : Dict K V) (k : K) (v : V) : Dict K V where
  items :=
    if k ∈ d.items.map Prod.fst then d.items.map fun p => if p.1 = k then (p.1, v) else p
    else d.items ++ [(k, v)]
  nodup := by
    split_ifs with h
    · have hkeys : (d.items.map fun p => if p.1 = k then (p.1, v) else p).map Prod.fst =
          d.items.map Prod.fst := by
        rw [List.map_map]
        apply List.map_congr_left
        intro p _
        dsimp only [Function.comp_apply]
        split_ifs <;> rfl
      exact hkeys ▸ d.nodup
    · rw [List.map_append, List.map_singleton, ← List.concat_eq_append]
      exact List.Nodup.concat h d.nodup

def pop (d : Dict K V) (k : K) : Dict K V where
  items := d.items.filter fun p => p.1 ≠ k
  nodup := d.nodup.sublist (List.filter_sublist.map Prod.fst)

theorem get?_empty : (empty : Dict K V).get? k = none := rfl

theorem mem_items : (k, v) ∈ d.items ↔ d.get? k = some v := by
  constructor
  · intro hm
    have hsome : (d.get? k).isSome := List.lookup_isSome_iff.mpr ⟨(k, v), hm, by simp⟩
    obtain ⟨w, hw⟩ := Option.isSome_iff_exists.mp hsome
    obtain ⟨l₁, l₂, hitems, _⟩ := List.lookup_eq_some_iff.mp hw
    have he := mem_items_inj hm (q := (k, w)) (by rw [hitems]; simp) rfl
    exact hw.trans (congrArg some (Prod.mk.inj he).2.symm)
  · intro hg
    obtain ⟨l₁, l₂, hitems, _⟩ := List.lookup_eq_some_iff.mp hg
    rw [hitems]
    simp

theorem get?_mapVals {W : Type*} (f : V → W) : (d.mapVals f).get? k = (d.get? k).map f := by
  apply Option.ext
  intro w
  rw [← mem_items, Option.map_eq_some_iff]
  simp only [mapVals, List.mem_map, Prod.exists, Prod.mk.injEq, ← mem_items]
  constructor
  · intro ⟨j, u, hmem, hj, hu⟩
    exact ⟨u, hj ▸ hmem, hu⟩
  · intro ⟨u, hmem, hu⟩
    exact ⟨k, u, hmem, rfl, hu⟩

theorem mem_set {w : V} : (k', w) ∈ (d.set k v).items ↔ if k' = k then w = v else (k', w) ∈ d.items := by
  unfold set
  dsimp only
  by_cases hk : k ∈ d.items.map Prod.fst
  · rw [if_pos hk, List.mem_map]
    obtain ⟨⟨j, u⟩, hu, hj⟩ := List.mem_map.mp hk
    by_cases he : k' = k
    · rw [if_pos he]
      constructor
      · intro ⟨p, _, hp⟩
        split_ifs at hp with hpk
        · exact (Prod.mk.inj hp).2.symm
        · exact absurd ((congrArg Prod.fst hp).trans he) hpk
      · intro hw
        exact ⟨(j, u), hu, by simp_all⟩
    · rw [if_neg he]
      constructor
      · intro ⟨p, hmem, hp⟩
        split_ifs at hp with hpk
        · exact absurd ((congrArg Prod.fst hp).symm.trans hpk) he
        · exact hp ▸ hmem
      · intro hmem
        exact ⟨(k', w), hmem, if_neg he⟩
  · rw [if_neg hk, List.mem_append, List.mem_singleton, Prod.mk.injEq]
    by_cases he : k' = k
    · have hnew : (k', w) ∉ d.items := fun hmem => hk (he ▸ List.mem_map_of_mem hmem)
      simp [he, he ▸ hnew]
    · simp [he]

theorem get?_set : (d.set k v).get? k' = if k' = k then some v else d.get? k' := by
  apply Option.ext
  intro w
  rw [← mem_items, mem_set]
  split_ifs
  · simp [eq_comm]
  · exact mem_items

theorem get?_pop : (d.pop k).get? k' = if k' = k then none else d.get? k' := by
  apply Option.ext
  intro w
  rw [← mem_items]
  by_cases he : k' = k
  · simp [pop, he]
  · simpa [pop, he] using mem_items

theorem get?_foldl_pop (ks : List K) : (ks.foldl pop d).get? k = if k ∈ ks then none else d.get? k := by
  induction ks generalizing d with
  | nil => simp
  | cons k' ks ih =>
    rw [List.foldl_cons, ih, get?_pop]
    by_cases hk : k = k' <;> by_cases hm : k ∈ ks <;> simp [hk, hm]

theorem get?_of_notMem (h : k ∉ d.items.map Prod.fst) : d.get? k = none := by
  rw [Option.eq_none_iff_forall_not_mem]
  intro v hv
  exact h (List.mem_map_of_mem (mem_items.mpr hv))

theorem items_set_of_notMem (h : k ∉ d.items.map Prod.fst) : (d.set k v).items = d.items ++ [(k, v)] :=
  if_neg h

theorem items_pop_of_notMem (h : k ∉ d.items.map Prod.fst) : (d.pop k).items = d.items := by
  apply List.filter_eq_self.mpr
  intro p hp
  have hne : p.1 ≠ k := fun he => h (he ▸ List.mem_map_of_mem hp)
  simpa using hne

omit [DecidableEq K] in
/-- A fold that meets each key once appends its entries. -/
theorem items_foldl {σ α : Type*} {f : σ → α → σ} (dict : σ → Dict K V) (key : α → K) (entry : α → List (K × V))
    (hkey : ∀ a, ∀ e ∈ entry a, e.1 = key a)
    (hstep : ∀ s a, key a ∉ (dict s).items.map Prod.fst → (dict (f s a)).items = (dict s).items ++ entry a)
    {as : List α} (hnd : (as.map key).Nodup) {s : σ} (hfresh : ∀ a ∈ as, key a ∉ (dict s).items.map Prod.fst) :
    (dict (as.foldl f s)).items = (dict s).items ++ as.flatMap entry := by
  induction as generalizing s with
  | nil => simp
  | cons a as ih =>
    rw [List.map_cons, List.nodup_cons] at hnd
    have hitems := hstep s a (hfresh a List.mem_cons_self)
    rw [List.foldl_cons, List.flatMap_cons, ih hnd.2, hitems, List.append_assoc]
    intro b hb hmem
    rw [hitems, List.map_append, List.mem_append] at hmem
    obtain hmem | hmem := hmem
    · exact hfresh b (List.mem_cons_of_mem a hb) hmem
    · obtain ⟨e, he, hek⟩ := List.mem_map.mp hmem
      have hsame : key a = key b := (hkey a e he).symm.trans hek
      exact hnd.1 (hsame ▸ List.mem_map_of_mem hb)

/-- New keys come in one after another. -/
theorem items_foldl_set {entries : List (K × V)} (hn : (entries.map Prod.fst).Nodup)
    (hfresh : ∀ e ∈ entries, e.1 ∉ d.items.map Prod.fst) :
    (entries.foldl (fun d e => d.set e.1 e.2) d).items = d.items ++ entries := by
  have hitems := items_foldl (f := fun (d : Dict K V) (e : K × V) => d.set e.1 e.2) id Prod.fst (fun e => [e])
    (fun a e he => congrArg Prod.fst (List.mem_singleton.mp he)) (fun d e h => d.items_set_of_notMem h) hn (s := d) hfresh
  rw [List.flatMap_singleton'] at hitems
  exact hitems

section Nested

variable {R : Type*} [DecidableEq R] {d : Dict K (Dict R V)} {r : R}

/-- The entry `r` of the dictionary at `k`. -/
def getIn? (d : Dict K (Dict R V)) (k : K) (r : R) : Option V := (d.get? k).bind (·.get? r)

/-- An entry that is there stays as it is. -/
def setNew (d : Dict K (Dict R V)) (k : K) (r : R) (v : V) : Dict K (Dict R V) :=
  let entries := (d.get? k).getD empty
  d.set k (match entries.get? r with
    | some _ => entries
    | none => entries.set r v)

theorem getIn?_setNew : (d.setNew k r v).getIn? k' r = if k' = k then some ((d.getIn? k r).getD v) else d.getIn? k' r := by
  have hknown : d.getIn? k r = ((d.get? k).getD empty).get? r := by
    rw [getIn?]
    cases d.get? k with
    | none => rfl
    | some entries => rfl
  rw [hknown, setNew, getIn?, get?_set]
  by_cases hk : k' = k
  · rw [if_pos hk, if_pos hk, Option.bind_some]
    cases hr : ((d.get? k).getD empty).get? r with
    | none => exact (get?_set).trans (if_pos rfl)
    | some w => exact hr
  · rw [if_neg hk, if_neg hk]
    rfl

end Nested

end Dict
