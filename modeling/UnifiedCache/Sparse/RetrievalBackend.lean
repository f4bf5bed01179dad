import UnifiedCache.Lib.Collections
import UnifiedCache.Lib.Selection
import UnifiedCache.Lib.StepSystem
import UnifiedCache.Sparse.HammingScore

/-! The two retrieval backends: a batch of queries is submitted, a worker scores the candidates of
each query and keeps the best, and the rows are copied into one matrix. -/

namespace UnifiedCache.Sparse.RetrievalWorkerBackend

open Selection StepSystem

/-- A numpy array with two dimensions. -/
structure PyArray (α : Type*) where
  shape : Nat × Nat
  ptr : Nat → α

def asInt (n : Nat) : Int := Int.bmod n (2 ^ 32)

structure Request (Q : Type*) where
  query : Nat → Q
  batch : Nat
  topk : Int
  indexes : List (List Int)

structure Result (S : Type*) where
  indices : List (List Int)
  scores : List (List S)

/-- What the two backends do not share: the score of a block and which of two scores comes first. -/
structure Backend (Q S : Type*) where
  dim : Nat
  score : (Nat → Q) → Int → S
  first : S → S → Prop

/-- `RetrievalWorkerBackend`. -/
def esa {F : Type*} [Zero F] [Add F] [Mul F] [LT F] (dim : Nat) (data : Int → F) : Backend F F where
  dim := dim
  score q idx := (List.range dim).foldl (fun score d => score + q d * data (idx * dim + d)) 0
  first a b := a > b

/-- `HashRetrievalWorkerBackend`. -/
def hash (target : HashRetrieval.Target) (blockSize dim : Nat) (data : Int → HashRetrieval.Byte) :
    Backend HashRetrieval.Byte Nat where
  dim := dim
  score q idx := HashRetrieval.blockScore target dim blockSize q fun j => data (idx * blockSize * dim + j)
  first a b := a < b

variable {Q S : Type*}

abbrev Backend.compare (backend : Backend Q S) (a b : S × Int) : Prop := backend.first a.1 b.1

def parse (indexes : PyArray Int) : List (List Int) :=
  (List.range indexes.shape.1).map fun i =>
    ((List.range indexes.shape.2).map fun j => indexes.ptr (i * indexes.shape.2 + j)).filter (· ≠ -1)

variable (backend : Backend Q S)

/-- `submit` before the request is queued. -/
def makeRequest (query : PyArray Q) (topk : Int) (indexes : PyArray Int) : Option (Request Q) :=
  if query.shape.2 ≠ backend.dim then none
  else if indexes.shape.1 ≠ query.shape.1 then none
  else some ⟨query.ptr, indexes.shape.1, topk, parse indexes⟩

def heap (query : Nat → Q) (allowed : List Int) : List (S × Int) :=
  allowed.map fun idx => (backend.score query idx, idx)

variable (sort : PartialSort backend.compare)

/-- The rows of a query. Sorting up to a place before the first is not defined. -/
def selectRow (topk : Int) (heap : List (S × Int)) : Option (List (S × Int)) :=
  let currTopk := min (asInt heap.length) topk
  if currTopk < 0 then none
  else some ((sort.split currTopk.toNat heap).take currTopk.toNat)

def workerRow (req : Request Q) (b : Nat) : Option (List (S × Int)) :=
  req.indexes[b]?.bind fun allowed =>
    selectRow backend sort req.topk (heap backend (fun d => req.query (b * backend.dim + d)) allowed)

/-- `worker_loop` for one request. -/
def work (req : Request Q) : Option (Result S) :=
  ((List.range req.batch).mapM (workerRow backend sort req)).map fun rows =>
    ⟨rows.map (·.map Prod.snd), rows.map (·.map Prod.fst)⟩

/-- `memcpy`, which may not read past the end of the row. -/
def memcpy {α : Type*} (topk : Nat) (row : List α) : Option (List α) :=
  if topk ≤ row.length then some (row.take topk) else none

/-- `get_result` of a request that is done. -/
def copyRows (result : Result S) : Option (Result S) :=
  let topk := (result.indices.head?.map List.length).getD 0
  (result.indices.mapM (memcpy topk)).bind fun indices =>
    (result.scores.mapM (memcpy topk)).map fun scores => ⟨indices, scores⟩

structure State (Q S : Type*) where
  nextReqId : Nat := 0
  requests : List (Nat × Request Q) := []
  running : List (Nat × Request Q) := []
  results : Dict Nat (Result S) := Dict.empty

inductive Event (Q : Type*) where
  | submit (query : PyArray Q) (topk : Int) (indexes : PyArray Int)
  /-- A worker takes the first request. -/
  | take
  /-- A worker stores what it found. -/
  | finish (worker : Nat)
  | getResult (reqId : Nat)

def step (s : State Q S) : Event Q → Option (State Q S)
  | .submit query topk indexes =>
    match makeRequest backend query topk indexes with
    | none => some s
    | some req => some { s with nextReqId := s.nextReqId + 1, requests := s.requests ++ [(s.nextReqId, req)] }
  | .take =>
    match s.requests with
    | [] => none
    | req :: rest => some { s with requests := rest, running := s.running ++ [req] }
  | .finish worker =>
    s.running[worker]?.bind fun req =>
      (work backend sort req.2).map fun res =>
        { s with running := s.running.eraseIdx worker, results := s.results.set req.1 res }
  | .getResult reqId =>
    match s.results.get? reqId with
    | none => some s
    | some res => (copyRows res).map fun _ => { s with results := s.results.pop reqId }

/-- Row by row, a query's best candidates with their scores. -/
def OwnTopK (req : Request Q) (out : Result S) : Prop :=
  out.indices.length = req.indexes.length ∧ out.scores.length = req.indexes.length ∧
  ∀ b allowed, req.indexes[b]? = some allowed → ∃ chosen,
    out.indices[b]? = some (chosen.map Prod.snd) ∧ out.scores[b]? = some (chosen.map Prod.fst) ∧
    Selects backend.compare req.topk.toNat (heap backend (fun d => req.query (b * backend.dim + d)) allowed) chosen

/-- Every query has as many candidates to keep as the first, and `int` holds their number. -/
def Uniform (topk : Int) (indexes : List (List Int)) : Prop :=
  ∀ first, indexes.head? = some first → ∀ allowed ∈ indexes,
    min (allowed.length : Int) topk = min (first.length : Int) topk ∧
    min (allowed.length : Int) topk ≤ asInt allowed.length

theorem bmod_natCast_le (n m : Nat) : Int.bmod n m ≤ n := by
  have hle : (n : Int) % m ≤ n := by exact_mod_cast Nat.mod_le n m
  rw [Int.bmod_eq_emod]
  split_ifs <;> omega

theorem asInt_le (n : Nat) : asInt n ≤ n := bmod_natCast_le n _

theorem mapM_memcpy {α : Type*} {topk : Nat} {rows out : List (List α)} :
    rows.mapM (memcpy topk) = some out ↔ (∀ row ∈ rows, topk ≤ row.length) ∧ out = rows.map (·.take topk) := by
  induction rows generalizing out with
  | nil => simp [eq_comm]
  | cons row rows ih =>
    simp only [List.mapM_cons, Option.bind_eq_bind, Option.bind_eq_some_iff, Option.pure_def, Option.some.injEq,
      ih, memcpy, List.forall_mem_cons, List.map_cons]
    constructor
    · rintro ⟨r, hr, rs, ⟨hle, rfl⟩, rfl⟩
      split_ifs at hr with h
      exact ⟨⟨h, hle⟩, by rw [Option.some.inj hr]⟩
    · rintro ⟨⟨h, hle⟩, rfl⟩
      exact ⟨_, if_pos h, _, ⟨hle, rfl⟩, rfl⟩

/-- The rows are what a worker has found. -/
structure Worked (req : Request Q) (rows : List (List (S × Int))) : Prop where
  length_eq : rows.length = req.indexes.length
  selected {b : Nat} {row : List (S × Int)} (h : rows[b]? = some row) : workerRow backend sort req b = some row

variable {backend sort} {req : Request Q} {res out : Result S}

theorem work_eq_some (hbatch : req.batch = req.indexes.length) (h : work backend sort req = some res) :
    ∃ rows, Worked backend sort req rows ∧ res = ⟨rows.map (·.map Prod.snd), rows.map (·.map Prod.fst)⟩ := by
  obtain ⟨rows, hrows, rfl⟩ := Option.map_eq_some_iff.mp h
  obtain ⟨hlength, hrow⟩ := getElem?_mapM_range hrows
  exact ⟨rows, ⟨hlength.trans hbatch, hrow _ _⟩, rfl⟩

theorem copyRows_eq_some {rows : List (List (S × Int))} :
    copyRows ⟨rows.map (·.map Prod.snd), rows.map (·.map Prod.fst)⟩ = some out ↔
      let topk := (rows.head?.map List.length).getD 0
      (∀ row ∈ rows, topk ≤ row.length) ∧
      out = ⟨(rows.map (·.take topk)).map (·.map Prod.snd), (rows.map (·.take topk)).map (·.map Prod.fst)⟩ := by
  have htopk : (((rows.map (·.map Prod.snd)).head?).map List.length).getD 0 = (rows.head?.map List.length).getD 0 := by
    cases rows <;> simp
  simp only [copyRows, htopk, Option.bind_eq_some_iff, Option.map_eq_some_iff, mapM_memcpy]
  constructor
  · rintro ⟨is, ⟨hle, rfl⟩, ss, ⟨-, rfl⟩, rfl⟩
    exact ⟨by simpa using hle, by simp [List.map_map, Function.comp_def, List.map_take]⟩
  · rintro ⟨hle, rfl⟩
    exact ⟨_, ⟨by simpa using hle, rfl⟩, _, ⟨by simpa using hle, rfl⟩,
      by simp [List.map_map, Function.comp_def, List.map_take]⟩

theorem selectRow_eq_some {topk : Int} {hp row : List (S × Int)} :
    selectRow backend sort topk hp = some row ↔ 0 ≤ min (asInt hp.length) topk ∧
      row = (sort.split (min (asInt hp.length) topk).toNat hp).take (min (asInt hp.length) topk).toNat := by
  simp only [selectRow]
  split_ifs with h
  · exact iff_of_false (by simp) fun hr => absurd hr.1 (Int.not_le.mpr h)
  · simp [Int.not_lt.mp h, eq_comm]

theorem length_selectRow {topk : Int} {hp row : List (S × Int)} (h : selectRow backend sort topk hp = some row) :
    (row.length : Int) = min (asInt hp.length) topk ∧ 0 ≤ topk := by
  obtain ⟨hnonneg, rfl⟩ := selectRow_eq_some.mp h
  have hle := asInt_le hp.length
  rw [List.length_take, (sort.perm _ hp).length_eq]
  omega

namespace Worked

variable {rows : List (List (S × Int))} (w : Worked backend sort req rows)
include w

theorem exists_row {b : Nat} {allowed : List Int} (hb : req.indexes[b]? = some allowed) : ∃ row,
    rows[b]? = some row ∧
    selectRow backend sort req.topk (heap backend (fun d => req.query (b * backend.dim + d)) allowed) = some row := by
  have hlt : b < rows.length := w.length_eq ▸ (List.getElem?_eq_some_iff.mp hb).1
  refine ⟨_, List.getElem?_eq_getElem hlt, ?_⟩
  have hrow := w.selected (List.getElem?_eq_getElem hlt)
  rwa [workerRow, hb, Option.bind_some] at hrow

theorem length_row {b : Nat} {allowed : List Int} {row : List (S × Int)} (hb : req.indexes[b]? = some allowed)
    (hrow : rows[b]? = some row) : (row.length : Int) = min (asInt allowed.length) req.topk ∧ 0 ≤ req.topk := by
  obtain ⟨row', hrow', hsel⟩ := w.exists_row hb
  obtain rfl := Option.some.inj (hrow'.symm.trans hrow)
  have := length_selectRow hsel
  rwa [heap, List.length_map] at this

theorem exists_allowed {b : Nat} {row : List (S × Int)} (hrow : rows[b]? = some row) :
    ∃ allowed, req.indexes[b]? = some allowed :=
  ⟨_, List.getElem?_eq_getElem (w.length_eq ▸ (List.getElem?_eq_some_iff.mp hrow).1)⟩

theorem uniform (hle : ∀ row ∈ rows, (rows.head?.map List.length).getD 0 ≤ row.length)
    (hout : OwnTopK backend req ⟨(rows.map (·.take ((rows.head?.map List.length).getD 0))).map (·.map Prod.snd),
      (rows.map (·.take ((rows.head?.map List.length).getD 0))).map (·.map Prod.fst)⟩) :
    Uniform req.topk req.indexes := by
  generalize (rows.head?.map List.length).getD 0 = t at hle hout
  have hkept : ∀ (b : Nat) (allowed : List Int), req.indexes[b]? = some allowed →
      (t : Int) = min (allowed.length : Int) req.topk ∧ (t : Int) ≤ asInt allowed.length := by
    intro b allowed hb
    obtain ⟨row, hrow, -⟩ := w.exists_row hb
    obtain ⟨hlen, htopk⟩ := w.length_row hb hrow
    obtain ⟨chosen, hchosen, -, hsel⟩ := hout.2.2 b allowed hb
    have htake : (row.take t).map Prod.snd = chosen.map Prod.snd := by simpa [hrow] using hchosen
    have ht := congrArg List.length htake
    have hk := hsel.length_eq
    have hrowle := hle row (List.mem_of_getElem? hrow)
    simp only [List.length_map, List.length_take] at ht
    simp only [heap, List.length_map] at hk
    omega
  intro first hfirst allowed hmem
  obtain ⟨b, hb⟩ := List.mem_iff_getElem?.mp hmem
  rw [List.head?_eq_getElem?] at hfirst
  have h0 := hkept 0 first hfirst
  have hb := hkept b allowed hb
  exact ⟨hb.1.symm.trans h0.1, hb.1 ▸ hb.2⟩

theorem length_eq_head (hu : Uniform req.topk req.indexes) {b : Nat} {row : List (S × Int)} (hrow : rows[b]? = some row) :
    row.length = (rows.head?.map List.length).getD 0 := by
  obtain ⟨allowed, hb⟩ := w.exists_allowed hrow
  cases hr : rows with
  | nil => rw [hr] at hrow; cases hrow
  | cons row₀ rest =>
    have h0 : rows[0]? = some row₀ := by rw [hr]; rfl
    obtain ⟨first, hfirst⟩ := w.exists_allowed h0
    have hlen := w.length_row hb hrow
    have hlen₀ := w.length_row hfirst h0
    have hfirst' := List.head?_eq_getElem?.trans hfirst
    have huni := hu first hfirst' allowed (List.mem_of_getElem? hb)
    have huni₀ := hu first hfirst' first (List.mem_of_getElem? hfirst)
    have hle := asInt_le allowed.length
    have hle₀ := asInt_le first.length
    simp only [List.head?_cons, Option.map_some, Option.getD_some]
    omega

theorem ownTopK_iff : (∃ out, copyRows ⟨rows.map (·.map Prod.snd), rows.map (·.map Prod.fst)⟩ = some out ∧
    OwnTopK backend req out) ↔ Uniform req.topk req.indexes := by
  constructor
  · rintro ⟨out, hout, hown⟩
    obtain ⟨hle, rfl⟩ := copyRows_eq_some.mp hout
    exact w.uniform hle hown
  · intro hu
    refine ⟨_, copyRows_eq_some.mpr ⟨?_, rfl⟩, by simp [w.length_eq], by simp [w.length_eq], ?_⟩
    · intro row hrow
      obtain ⟨b, hb⟩ := List.mem_iff_getElem?.mp hrow
      exact (w.length_eq_head hu hb).ge
    · intro b allowed hb
      obtain ⟨row, hrow, hsel⟩ := w.exists_row hb
      have hlen := w.length_eq_head hu hrow
      refine ⟨row, by simp [hrow, ← hlen], by simp [hrow, ← hlen], ?_⟩
      obtain ⟨-, rfl⟩ := selectRow_eq_some.mp hsel
      apply sort.selects_of_min_eq
      have hlt : 0 < req.indexes.length := Nat.zero_lt_of_lt (List.getElem?_eq_some_iff.mp hb).1
      have huni := hu _ (List.head?_eq_getElem?.trans (List.getElem?_eq_getElem hlt)) allowed (List.mem_of_getElem? hb)
      have hle := asInt_le allowed.length
      have htopk := (w.length_row hb hrow).2
      simp only [heap, List.length_map]
      omega

end Worked

/-- The request got its number in the run. -/
def Asked (backend : Backend Q S) (tr : List (State Q S × Event Q)) (reqId : Nat) (req : Request Q) : Prop :=
  ∃ s query topk indexes, (s, Event.submit query topk indexes) ∈ tr ∧ s.nextReqId = reqId ∧
    makeRequest backend query topk indexes = some req

variable (backend sort) in
structure Inv (tr : List (State Q S × Event Q)) (s : State Q S) : Prop where
  asked_lt {reqId : Nat} {req : Request Q} (h : Asked backend tr reqId req) : reqId < s.nextReqId
  asked_inj {reqId : Nat} {req req' : Request Q} (h : Asked backend tr reqId req) (h' : Asked backend tr reqId req') :
    req = req'
  pending {p : Nat × Request Q} (h : p ∈ s.requests ∨ p ∈ s.running) : Asked backend tr p.1 p.2
  done {reqId : Nat} {res : Result S} (h : s.results.get? reqId = some res) :
    ∃ req, Asked backend tr reqId req ∧ work backend sort req = some res

variable {tr : List (State Q S × Event Q)} {s s' t : State Q S} {e : Event Q}

theorem asked_cons {reqId : Nat} : Asked backend ((s, e) :: tr) reqId req ↔
    (∃ query topk indexes, e = .submit query topk indexes ∧ s.nextReqId = reqId ∧
      makeRequest backend query topk indexes = some req) ∨ Asked backend tr reqId req := by
  constructor
  · rintro ⟨t, query, topk, indexes, hmem, hid, hreq⟩
    rcases List.mem_cons.mp hmem with heq | hmem
    · obtain ⟨rfl, rfl⟩ := Prod.mk.inj heq
      exact .inl ⟨query, topk, indexes, rfl, hid, hreq⟩
    · exact .inr ⟨t, query, topk, indexes, hmem, hid, hreq⟩
  · rintro (⟨query, topk, indexes, rfl, hid, hreq⟩ | ⟨t, query, topk, indexes, hmem, hid, hreq⟩)
    · exact ⟨s, query, topk, indexes, List.mem_cons_self, hid, hreq⟩
    · exact ⟨t, query, topk, indexes, List.mem_cons_of_mem _ hmem, hid, hreq⟩

-- Only an accepted submission gives out a number.
theorem Inv.keep (h : Inv backend sort tr s) (hid : s'.nextReqId = s.nextReqId)
    (hnone : ∀ query topk indexes, e = .submit query topk indexes → makeRequest backend query topk indexes = none)
    (hpending : ∀ p, p ∈ s'.requests ∨ p ∈ s'.running → p ∈ s.requests ∨ p ∈ s.running)
    (hdone : ∀ reqId res, s'.results.get? reqId = some res → s.results.get? reqId = some res ∨
      ∃ p ∈ s.running, p.1 = reqId ∧ work backend sort p.2 = some res) :
    Inv backend sort ((s, e) :: tr) s' := by
  have hasked : ∀ {reqId req}, Asked backend ((s, e) :: tr) reqId req → Asked backend tr reqId req := by
    intro reqId req ha
    rcases asked_cons.mp ha with ⟨query, topk, indexes, he, -, hreq⟩ | ha
    · rw [hnone _ _ _ he] at hreq
      cases hreq
    · exact ha
  constructor
  case asked_lt => exact fun ha => hid ▸ h.asked_lt (hasked ha)
  case asked_inj => exact fun ha ha' => h.asked_inj (hasked ha) (hasked ha')
  case pending => exact fun hp => asked_cons.mpr (.inr (h.pending (hpending _ hp)))
  case done =>
    intro reqId res hres
    rcases hdone _ _ hres with hres | ⟨p, hp, rfl, hwork⟩
    · obtain ⟨req, ha, hwork⟩ := h.done hres
      exact ⟨req, asked_cons.mpr (.inr ha), hwork⟩
    · exact ⟨p.2, asked_cons.mpr (.inr (h.pending (.inr hp))), hwork⟩

theorem Inv.submit (h : Inv backend sort tr s) {query : PyArray Q} {topk : Int}
    {indexes : PyArray Int} (hreq : makeRequest backend query topk indexes = some req) :
    Inv backend sort ((s, .submit query topk indexes) :: tr)
      { s with nextReqId := s.nextReqId + 1, requests := s.requests ++ [(s.nextReqId, req)] } := by
  have hnew : ∀ reqId req', Asked backend ((s, .submit query topk indexes) :: tr) reqId req' →
      (reqId = s.nextReqId ∧ req' = req) ∨ (reqId < s.nextReqId ∧ Asked backend tr reqId req') := by
    intro reqId req' ha
    rcases asked_cons.mp ha with ⟨query', topk', indexes', heq, rfl, hreq'⟩ | ha
    · cases heq
      exact .inl ⟨rfl, Option.some.inj (hreq'.symm.trans hreq)⟩
    · exact .inr ⟨h.asked_lt ha, ha⟩
  have hnow : Asked backend ((s, .submit query topk indexes) :: tr) s.nextReqId req :=
    asked_cons.mpr (.inl ⟨query, topk, indexes, rfl, rfl, hreq⟩)
  constructor
  case asked_lt =>
    intro reqId req' ha
    rcases hnew _ _ ha with ⟨rfl, -⟩ | ⟨hlt, -⟩
    · exact Nat.lt_succ_self _
    · exact Nat.lt_succ_of_lt hlt
  case asked_inj =>
    intro reqId req₁ req₂ ha₁ ha₂
    rcases hnew _ _ ha₁ with ⟨rfl, rfl⟩ | ⟨hlt, ha₁⟩ <;> rcases hnew _ _ ha₂ with ⟨heq, rfl⟩ | ⟨hlt', ha₂⟩
    · rfl
    · exact absurd hlt' (Nat.lt_irrefl _)
    · exact absurd (heq ▸ hlt) (Nat.lt_irrefl _)
    · exact h.asked_inj ha₁ ha₂
  case pending =>
    intro p hp
    simp only [List.mem_append, List.mem_singleton] at hp
    rcases hp with (hp | rfl) | hp
    · exact asked_cons.mpr (.inr (h.pending (.inl hp)))
    · exact hnow
    · exact asked_cons.mpr (.inr (h.pending (.inr hp)))
  case done =>
    intro reqId res hres
    obtain ⟨req', ha, hwork⟩ := h.done hres
    exact ⟨req', asked_cons.mpr (.inr ha), hwork⟩

theorem Inv.step (h : Inv backend sort tr s)
    (hs : RetrievalWorkerBackend.step backend sort s e = some s') :
    Inv backend sort ((s, e) :: tr) s' := by
  cases e with
  | submit query topk indexes =>
    simp only [RetrievalWorkerBackend.step] at hs
    cases hreq : makeRequest backend query topk indexes with
    | none =>
      rw [hreq] at hs
      obtain rfl := Option.some.inj hs
      refine h.keep rfl ?_ (fun _ => id) (fun _ _ => .inl)
      intro _ _ _ he
      cases he
      exact hreq
    | some req =>
      rw [hreq] at hs
      obtain rfl := Option.some.inj hs
      exact h.submit hreq
  | take =>
    cases hq : s.requests with
    | nil => simp only [RetrievalWorkerBackend.step, hq] at hs; cases hs
    | cons req rest =>
      simp only [RetrievalWorkerBackend.step, hq] at hs
      obtain rfl := Option.some.inj hs
      refine h.keep rfl (fun _ _ _ he => by cases he) ?_ (fun _ _ => .inl)
      intro p hp
      simp only [List.mem_append, List.mem_singleton] at hp
      rw [hq, List.mem_cons]
      tauto
  | finish worker =>
    obtain ⟨req, hreq, hs⟩ := Option.bind_eq_some_iff.mp hs
    obtain ⟨res, hwork, rfl⟩ := Option.map_eq_some_iff.mp hs
    refine h.keep rfl (fun _ _ _ he => by cases he) (fun p hp => hp.imp_right List.mem_of_mem_eraseIdx) ?_
    intro reqId res' hres
    rw [Dict.get?_set] at hres
    split_ifs at hres with hid
    · exact .inr ⟨req, List.mem_of_getElem? hreq, hid.symm, hwork.trans hres⟩
    · exact .inl hres
  | getResult reqId =>
    simp only [RetrievalWorkerBackend.step] at hs
    split at hs
    · obtain rfl := Option.some.inj hs
      exact h.keep rfl (fun _ _ _ he => by cases he) (fun _ => id) (fun _ _ => .inl)
    · obtain ⟨out, -, rfl⟩ := Option.map_eq_some_iff.mp hs
      refine h.keep rfl (fun _ _ _ he => by cases he) (fun _ => id) ?_
      intro id res' hres
      rw [Dict.get?_pop] at hres
      split_ifs at hres
      exact .inl hres

theorem Inv.trace (h : Trace (RetrievalWorkerBackend.step backend sort) (fun _ _ => True) {} tr s) :
    Inv backend sort tr s := by
  apply h.invariant (Inv backend sort)
  · constructor
    case asked_lt => rintro reqId req ⟨_, _, _, _, hmem, -⟩; cases hmem
    case asked_inj => rintro reqId req req' ⟨_, _, _, _, hmem, -⟩; cases hmem
    case pending => rintro p (hp | hp) <;> cases hp
    case done => rintro reqId res hres; cases hres
  · exact fun _ _ _ _ hinv _ hs => hinv.step hs

theorem indexes_makeRequest {query : PyArray Q} {topk : Int} {indexes : PyArray Int}
    (h : makeRequest backend query topk indexes = some req) :
    req.topk = topk ∧ req.indexes = parse indexes ∧ req.batch = req.indexes.length := by
  simp only [makeRequest] at h
  split_ifs at h
  obtain rfl := Option.some.inj h
  exact ⟨rfl, rfl, by simp [parse]⟩

/-- In every run: what is copied for a request that is done holds each query's best candidates exactly
when all queries of the batch have the same number to keep. -/
theorem getResult_ownTopK_iff (h : Trace (step backend sort) (fun _ _ => True) {} tr s) {query : PyArray Q}
    {topk : Int} {indexes : PyArray Int} (hsub : (t, .submit query topk indexes) ∈ tr)
    (hreq : makeRequest backend query topk indexes = some req) (hres : s.results.get? t.nextReqId = some res) :
    (∃ out, copyRows res = some out ∧ OwnTopK backend req out) ↔ Uniform topk (parse indexes) := by
  have hinv := Inv.trace h
  obtain ⟨req', hasked, hwork⟩ := hinv.done hres
  obtain rfl := hinv.asked_inj hasked ⟨t, query, topk, indexes, hsub, rfl, hreq⟩
  obtain ⟨rfl, hindexes, hbatch⟩ := indexes_makeRequest hreq
  obtain ⟨rows, hrows, rfl⟩ := work_eq_some hbatch hwork
  rw [← hindexes]
  exact hrows.ownTopK_iff

section Runs

variable {F : Type*} [LinearOrder F] [Zero F] [Add F] [Mul F] (dim : Nat) (data : Int → F)

instance esa_total : Std.Total fun a b : F × Int => ¬ (esa dim data).compare b a where
  total a b := by simpa only [Backend.compare, esa, gt_iff_lt, not_lt] using le_total b.1 a.1

instance esa_trans : IsTrans (F × Int) fun a b => ¬ (esa dim data).compare b a where
  trans a b c := by simpa only [Backend.compare, esa, gt_iff_lt, not_lt] using fun hab hbc => le_trans hbc hab

instance : DecidableRel (esa dim data).compare := fun a b => inferInstanceAs (Decidable (b.1 < a.1))

/-- Sorting as `std::partial_sort` may. -/
def esaSort : PartialSort (esa dim data).compare := ofInsertionSort _

end Runs

/-- The second query has one candidate, the first two. -/
def raggedIndexes : PyArray Int := ⟨(2, 2), fun j => if j = 3 then -1 else j⟩

def raggedResult : Result Int := ⟨[[1, 0], [2]], [[1, 0], [2]]⟩

def evenIndexes : PyArray Int := ⟨(2, 2), fun j => j⟩

def twoQueries : PyArray Int := ⟨(2, 1), fun _ => 1⟩

theorem exists_trace {req : Request Int} {res : Result Int} (indexes : PyArray Int)
    (hreq : makeRequest (esa 1 id) twoQueries 2 indexes = some req)
    (hwork : work (esa 1 id) (esaSort 1 id) req = some res) :
    ∃ tr s, Trace (step (esa 1 id) (esaSort 1 id)) (fun _ _ => True) {} tr s ∧
      (({} : State Int Int), Event.submit twoQueries 2 indexes) ∈ tr ∧ s.results.get? 0 = some res := by
  have h₁ : Trace (step (esa 1 id) (esaSort 1 id)) (fun _ _ => True) {} [({}, Event.submit twoQueries 2 indexes)]
      { nextReqId := 1, requests := [(0, req)] } := by
    apply Trace.start.next trivial
    simp [step, hreq]
  have h₂ := h₁.next (e := .take) trivial rfl
  have h₃ := h₂.next (e := .finish 0) trivial (by simp [step, hwork]; rfl)
  exact ⟨_, _, h₃, by simp, by simp [Dict.get?_set]⟩

theorem not_ownTopK_ragged : ∃ tr s req res, Trace (step (esa 1 id) (esaSort 1 id)) (fun _ _ => True) {} tr s ∧
    (({} : State Int Int), Event.submit twoQueries 2 raggedIndexes) ∈ tr ∧
    makeRequest (esa 1 id) twoQueries 2 raggedIndexes = some req ∧ s.results.get? 0 = some res ∧
    req.indexes = [[0, 1], [2]] ∧ ¬ ∃ out, copyRows res = some out ∧ OwnTopK (esa 1 id) req out := by
  obtain ⟨tr, s, h, hsub, hres⟩ := exists_trace raggedIndexes rfl (show _ = some raggedResult from rfl)
  have hnone : copyRows raggedResult = none := rfl
  refine ⟨tr, s, _, _, h, hsub, rfl, hres, rfl, ?_⟩
  rintro ⟨out, hout, -⟩
  rw [hnone] at hout
  cases hout

theorem getResult_ownTopK_even : ∃ tr s req res, Trace (step (esa 1 id) (esaSort 1 id)) (fun _ _ => True) {} tr s ∧
    s.results.get? 0 = some res ∧ req.indexes = [[0, 1], [2, 3]] ∧
    ∃ out, copyRows res = some out ∧ OwnTopK (esa 1 id) req out := by
  obtain ⟨tr, s, h, hsub, hres⟩ := exists_trace evenIndexes rfl rfl
  refine ⟨tr, s, _, _, h, hres, rfl, (getResult_ownTopK_iff h hsub rfl hres).mpr ?_⟩
  have hrows : parse evenIndexes = [[0, 1], [2, 3]] := rfl
  rw [hrows]
  intro first hfirst allowed hmem
  obtain rfl := Option.some.inj hfirst
  simp only [List.mem_cons, List.not_mem_nil, or_false] at hmem
  rcases hmem with rfl | rfl <;> decide

end UnifiedCache.Sparse.RetrievalWorkerBackend
