import Mathlib.Data.List.Basic
import Mathlib.Data.List.Range
import Ustevent.Core.Buckets
import Ustevent.Reasoning.Runs

/-!
# The append-only array

Any number of threads call `emplace`, `at` and `size`.  An emplace takes its index first; the buckets
are allocated by whoever needs them, and a thread that loses the race for one deletes its own.  The
elements are published in the order of their indexes.  Every atomic access and every access to an
element is a step of its own.
-/

namespace Ustevent

open Reasoning

namespace AppendOnlyArray

/-- What `new T[length]` returns.  An element that has not been assigned to is `none`. -/
structure Bucket (T : Type*) where
  length : Nat
  elements : Nat → Option T

/-- Where a thread is in a call, with what it has read. -/
inductive Place (T : Type*)
  | outside
  /-- `emplace` has its index -/
  | reserves (index : Nat) (element : T)
  /-- and has found no bucket, for which it has allocated one -/
  | races (index : Nat) (element : T) (bucket : Nat)
  | writes (index : Nat) (element : T) (bucket : Nat)
  | awaits (index : Nat) (element : T)
  | stores (index : Nat) (element : T)
  /-- `at` has found the index below the size -/
  | finds (index : Nat)
  /-- an access out of bounds or through a null pointer -/
  | crashed

variable {T : Type*}

/-- The index that the thread has taken and has not published. -/
@[grind] def Place.taken : Place T → Option Nat
  | .reserves i _ | .races i _ _ | .writes i _ _ | .awaits i _ | .stores i _ => some i
  | _ => none

/-- The bucket that the thread has allocated and has not offered. -/
@[grind] def Place.offer : Place T → Option Nat
  | .races _ _ b => some b
  | _ => none

theorem Place.races_of_offer {p : Place T} {b : Nat} (h : p.offer = some b) :
    ∃ i x, p = .races i x b := by
  cases p <;> grind

/-- The index and the element that the thread has written. -/
@[grind] def Place.written : Place T → Option (Nat × T)
  | .awaits i x | .stores i x => some (i, x)
  | _ => none

/-- What a call has returned; a reference is the bucket and the place in it. -/
inductive Result (T : Type*)
  | emplaced (index : Nat) (element : T)
  | size (size : Nat)
  | found (index bucket i : Nat)
  /-- `out_of_range`, with the size in its text -/
  | outOfRange (index size : Nat)

/-- The index that an emplace has returned. -/
def Result.index : Result T → Option Nat
  | .emplaced i _ => some i
  | _ => none

/-- `heap` is the buckets that have been allocated and not deleted, `allocated` their number; `results`
is history. -/
structure Arraying (T : Type*) where
  index : Nat
  size : Nat
  array : Nat → Option Nat
  heap : Nat → Option (Bucket T)
  allocated : Nat
  place : Nat → Place T
  results : List (Result T)

inductive Action (T : Type*)
  /-- also `push` -/
  | emplace (thread : Nat) (element : T)
  | at_ (thread index : Nat)
  | size (thread : Nat)
  /-- the next step of the call that the thread is in -/
  | proceed (thread : Nat)

def Action.emplaces : Action T → Bool
  | .emplace _ _ => true
  | _ => false

namespace Arraying

def initial : Arraying T where
  index := 0
  size := 0
  array _ := none
  heap _ := none
  allocated := 0
  place _ := .outside
  results := []

abbrev goto (s : Arraying T) (t : Nat) (place : Place T) : Arraying T :=
  { s with place := fun u ↦ if u = t then place else s.place u }

abbrev setArray (s : Arraying T) (k b : Nat) : Arraying T :=
  { s with array := fun l ↦ if l = k then some b else s.array l }

abbrev setHeap (s : Arraying T) (b : Nat) (bucket : Option (Bucket T)) : Arraying T :=
  { s with heap := fun c ↦ if c = b then bucket else s.heap c }

abbrev returns (s : Arraying T) (result : Result T) : Arraying T :=
  { s with results := s.results ++ [result] }

/-- `bucket[index_in_bucket]`, if it is in bounds. -/
def element (s : Arraying T) (index b : Nat) : Option (Nat × Bucket T) :=
  match indexInBucket index, s.heap b with
  | some i, some bucket => if i < bucket.length then some (i, bucket) else none
  | _, _ => none

/-- `_array[array_index][index_in_bucket]` -/
def reference (s : Arraying T) (index : Nat) : Option (Nat × Nat) :=
  if arrayIndex index < bucketNumber then
    match s.array (arrayIndex index) with
    | none => none
    | some b => (s.element index b).map fun (i, _) ↦ (b, i)
  else none

/-- What stands at a reference now. -/
def read (s : Arraying T) (b i : Nat) : Option T :=
  match s.heap b with
  | none => none
  | some bucket => bucket.elements i

def step (s : Arraying T) : Action T → Option (Arraying T)
  | .emplace t x =>
    match s.place t with
    | .outside => some (({ s with index := s.index + 1 }).goto t (.reserves s.index x))
    | _ => none
  | .at_ t i =>
    match s.place t with
    | .outside =>
      if i ≥ s.size then some (s.returns (.outOfRange i s.size)) else some (s.goto t (.finds i))
    | _ => none
  | .size t =>
    match s.place t with
    | .outside => some (s.returns (.size s.size))
    | _ => none
  | .proceed t =>
    match s.place t with
    | .outside | .crashed => none
    | .reserves i x =>
      match bucketLengthData[arrayIndex i]? with
      | none => some (s.goto t .crashed)
      | some length =>
        match s.array (arrayIndex i) with
        | some b => some (s.goto t (.writes i x b))
        | none =>
          some ((({ s with allocated := s.allocated + 1 }).setHeap s.allocated
            (some ⟨length, fun _ ↦ none⟩)).goto t (.races i x s.allocated))
    | .races i x b =>
      match s.array (arrayIndex i) with
      | none => some ((s.setArray (arrayIndex i) b).goto t (.writes i x b))
      -- another thread has been faster
      | some expected => some ((s.setHeap b none).goto t (.writes i x expected))
    | .writes i x b =>
      match s.element i b with
      | none => some (s.goto t .crashed)
      | some (j, bucket) =>
        some ((s.setHeap b (some { bucket with
          elements := fun l ↦ if l = j then some x else bucket.elements l })).goto t (.awaits i x))
    | .awaits i x => some (if s.size = i then s.goto t (.stores i x) else s)
    | .stores i x => some ((({ s with size := i + 1 }).returns (.emplaced i x)).goto t .outside)
    | .finds i =>
      match s.reference i with
      | none => some (s.goto t .crashed)
      | some (b, j) => some ((s.returns (.found i b j)).goto t .outside)

/-- The indexes that the emplaces have returned, in the order of their publication. -/
def published (s : Arraying T) : List Nat := s.results.filterMap Result.index

/-- The reference to an index leads to the element of the emplace that has returned the index. -/
def Refers (s : Arraying T) (index b i : Nat) : Prop :=
  ∃ x, .emplaced index x ∈ s.results ∧ s.reference index = some (b, i) ∧ s.read b i = some x

/-- What each call of `size` has returned is the length of the prefix published by then. -/
def Measured (results : List (Result T)) : Prop :=
  ∀ before n after, results = before ++ .size n :: after →
    before.filterMap Result.index = List.range n

/-- What the array is for. -/
structure Sound (s : Arraying T) : Prop where
  distinct : s.published.Nodup
  size : s.published = List.range s.size
  measures : ∀ t, s.place t = .outside → s.step (.size t) = some (s.returns (.size s.size))
  measured : Measured s.results
  /-- a later call of `size` returns no less -/
  grows : ∀ before m between n after,
    s.results = before ++ .size m :: (between ++ .size n :: after) → m ≤ n
  at_ : ∀ i < s.size, ∃ b j, s.Refers i b j
  throws : ∀ t i, s.place t = .outside → s.size ≤ i →
    s.step (.at_ t i) = some (s.returns (.outOfRange i s.size))
  looks : ∀ t i, s.place t = .outside → i < s.size → s.step (.at_ t i) = some (s.goto t (.finds i))
  /-- a call of `at` that has found its index below the size returns the reference -/
  finds : ∀ t i, s.place t = .finds i → ∃ b j s', s.step (.proceed t) = some s' ∧
    s'.results = s.results ++ [.found i b j] ∧ s.Refers i b j
  /-- also those that `at` has returned long ago -/
  found : ∀ i b j, .found i b j ∈ s.results → s.Refers i b j
  outOfRange : ∀ i n, .outOfRange i n ∈ s.results → n ≤ i ∧ n ≤ s.size
  running : ∀ t, s.place t ≠ .crashed

/-! ## The invariant -/

/-- The element stands where a reference to the index leads. -/
def Holds (s : Arraying T) (index : Nat) (x : T) : Prop :=
  ∃ b i, s.reference index = some (b, i) ∧ s.read b i = some x

/-- The buckets of the array and those that threads are about to offer. -/
structure Buckets (s : Arraying T) : Prop where
  array : ∀ k b, s.array k = some b →
    ∃ bucket, s.heap b = some bucket ∧ bucketLengthData[k]? = some bucket.length
  apart : ∀ k l b, s.array k = some b → s.array l = some b → k = l
  fresh : ∀ b, s.allocated ≤ b → s.heap b = none
  offer : ∀ t i x b, s.place t = .races i x b →
    ∃ bucket, s.heap b = some bucket ∧ bucketLengthData[arrayIndex i]? = some bucket.length
  offered : ∀ t b k, (s.place t).offer = some b → s.array k ≠ some b
  offers : ∀ t u b, (s.place t).offer = some b → (s.place u).offer = some b → t = u
  writes : ∀ t i x b, s.place t = .writes i x b → s.array (arrayIndex i) = some b

/-- Each index is taken by one thread, and published in its turn. -/
structure Indexes (s : Arraying T) : Prop where
  le : s.size ≤ s.index
  taken : ∀ t i, (s.place t).taken = some i → s.size ≤ i ∧ i < s.index
  apart : ∀ t u i, (s.place t).taken = some i → (s.place u).taken = some i → t = u
  stores : ∀ t i x, s.place t = .stores i x → s.size = i
  published : s.published = List.range s.size

/-- Written elements stay where they are. -/
structure Elements (s : Arraying T) : Prop where
  written : ∀ t i x, (s.place t).written = some (i, x) → s.Holds i x
  emplaced : ∀ i x, .emplaced i x ∈ s.results → s.Holds i x

/-- The calls of `at` and of `size`. -/
structure Lookups (s : Arraying T) : Prop where
  finds : ∀ t i, s.place t = .finds i → i < s.size
  found : ∀ i b j, .found i b j ∈ s.results → i < s.size ∧ s.reference i = some (b, j)
  outOfRange : ∀ i n, .outOfRange i n ∈ s.results → n ≤ i ∧ n ≤ s.size
  measured : Measured s.results
  running : ∀ t, s.place t ≠ .crashed

structure Inv (s : Arraying T) : Prop where
  buckets : Buckets s
  indexes : Indexes s
  elements : Elements s
  lookups : Lookups s

variable {s s' : Arraying T} {t i j k b : Nat} {x : T} {result : Result T}

theorem inv_initial : Inv (initial : Arraying T) where
  buckets := by constructor <;> simp [initial, Place.offer]
  indexes := by constructor <;> simp [initial, Place.taken, published]
  elements := by constructor <;> simp [initial, Place.written]
  lookups := by constructor <;> simp [initial, Measured]

theorem Measured.concat {results : List (Result T)} (h : Measured results)
    (hresult : ∀ n, result = .size n → results.filterMap Result.index = List.range n) :
    Measured (results ++ [result]) := by
  intro before n after heq
  rcases List.eq_nil_or_concat after with rfl | ⟨after, last, rfl⟩
  · obtain ⟨rfl, hlast⟩ := List.append_inj' heq rfl
    exact hresult n (List.cons.inj hlast).1
  · rw [List.concat_eq_append, ← List.cons_append, ← List.append_assoc] at heq
    exact h before n after (List.append_inj' heq rfl).1

theorem Measured.le {results : List (Result T)} (h : Measured results)
    {before between after : List (Result T)} {m n : Nat}
    (heq : results = before ++ .size m :: (between ++ .size n :: after)) : m ≤ n := by
  have hfirst := h before m _ heq
  have hsecond := h (before ++ .size m :: between) n after (by rw [heq, List.append_assoc]; rfl)
  rw [List.filterMap_append, hfirst] at hsecond
  have hlength := congrArg List.length hsecond
  rw [List.length_append, List.length_range, List.length_range] at hlength
  omega

/-! ## References -/

theorem Buckets.element (h : Buckets s) (hi : i < 2 ^ 32 - 1)
    (harray : s.array (arrayIndex i) = some b) :
    ∃ j bucket, indexInBucket i = some j ∧ s.heap b = some bucket ∧
      s.element i b = some (j, bucket) := by
  obtain ⟨-, j, length, hindex, hlength, hlt⟩ := inBounds_of_lt hi
  obtain ⟨bucket, hheap, hlength'⟩ := h.array _ b harray
  have heq : length = bucket.length := Option.some.inj (hlength.symm.trans hlength')
  refine ⟨j, bucket, hindex, hheap, ?_⟩
  unfold Arraying.element
  rw [hindex, hheap]
  exact if_pos (heq ▸ hlt)

theorem Buckets.reference (h : Buckets s) (hi : i < 2 ^ 32 - 1)
    (harray : s.array (arrayIndex i) = some b) :
    ∃ j, indexInBucket i = some j ∧ s.reference i = some (b, j) := by
  obtain ⟨j, bucket, hindex, -, helement⟩ := h.element hi harray
  refine ⟨j, hindex, ?_⟩
  unfold Arraying.reference
  rw [if_pos (inBounds_of_lt hi).1, harray]
  simp only [helement, Option.map_some]

theorem array_of_reference (h : s.reference i = some (b, j)) :
    s.array (arrayIndex i) = some b ∧ indexInBucket i = some j ∧
      ∃ bucket, s.heap b = some bucket ∧ j < bucket.length := by
  unfold Arraying.reference Arraying.element at h
  grind

/-- References stay valid as long as the buckets of the array keep their places and lengths. -/
theorem reference_mono (harray : ∀ k b, s.array k = some b → s'.array k = some b)
    (hheap : ∀ k b bucket, s.array k = some b → s.heap b = some bucket →
      ∃ bucket', s'.heap b = some bucket' ∧ bucket'.length = bucket.length)
    (h : s.reference i = some (b, j)) : s'.reference i = some (b, j) := by
  have hbucket : arrayIndex i < bucketNumber := by
    unfold Arraying.reference at h
    grind
  obtain ⟨hb, hindex, bucket, hbucket', hlt⟩ := array_of_reference h
  obtain ⟨bucket', hheap', hlength⟩ := hheap _ b bucket hb hbucket'
  unfold Arraying.reference Arraying.element
  rw [if_pos hbucket, harray _ b hb]
  simp only [hindex, hheap', hlength, if_pos hlt, Option.map_some]

/-- The buckets of the array are as they were. -/
structure Keeps (s s' : Arraying T) : Prop where
  array : ∀ k b, s.array k = some b → s'.array k = some b
  heap : ∀ k b, s.array k = some b → s'.heap b = s.heap b

theorem Keeps.reference (h : Keeps s s') (href : s.reference i = some (b, j)) :
    s'.reference i = some (b, j) := by
  apply reference_mono h.array _ href
  intro k c bucket hc hbucket
  exact ⟨bucket, (h.heap k c hc).trans hbucket, rfl⟩

theorem Keeps.holds (h : Keeps s s') (hholds : s.Holds i x) : s'.Holds i x := by
  obtain ⟨b, j, href, hread⟩ := hholds
  have hb := (array_of_reference href).1
  refine ⟨b, j, h.reference href, ?_⟩
  unfold Arraying.read at hread ⊢
  rw [h.heap _ b hb]
  exact hread

/-! ## The steps that leave the buckets alone -/

theorem Buckets.congr (h : Buckets s) (harray : s'.array = s.array) (hheap : s'.heap = s.heap)
    (hallocated : s'.allocated = s.allocated) (hplace : s'.place = s.place) : Buckets s' := by
  obtain ⟨h₁, h₂, h₃, h₄, h₅, h₆, h₇⟩ := h
  constructor <;> simpa only [harray, hheap, hallocated, hplace]

theorem Buckets.goto (h : Buckets s) {place : Place T}
    (hto : place.offer = none ∧ ∀ i x b, place = .writes i x b → s.array (arrayIndex i) = some b) :
    Buckets (s.goto t place) := by
  have hoffers := h.offers
  refine ⟨h.array, h.apart, h.fresh, ?_, ?_, ?_, ?_⟩
  · have := h.offer
    grind
  · have := h.offered
    grind
  · grind
  · have := h.writes
    grind

theorem Indexes.goto (h : Indexes s) {place : Place T} (hto : place.taken = (s.place t).taken)
    (hstores : ∀ i x, place = .stores i x → s.size = i) : Indexes (s.goto t place) := by
  refine ⟨h.le, ?_, ?_, ?_, h.published⟩
  · have := h.taken
    grind
  · have := h.apart
    grind
  · have := h.stores
    grind

theorem Elements.goto (h : Elements s) {place : Place T}
    (hto : ∀ i x, place.written = some (i, x) → s.Holds i x) : Elements (s.goto t place) := by
  refine ⟨fun u i x hu ↦ ?_, h.emplaced⟩
  by_cases heq : u = t
  · exact hto i x ((congrArg Place.written (if_pos heq)).symm.trans hu)
  · exact h.written u i x ((congrArg Place.written (if_neg heq)).symm.trans hu)

theorem Lookups.goto (h : Lookups s) {place : Place T}
    (hto : place ≠ .crashed ∧ ∀ i, place = .finds i → i < s.size) : Lookups (s.goto t place) := by
  refine ⟨?_, h.found, h.outOfRange, h.measured, ?_⟩
  · have := h.finds
    grind
  · have := h.running
    grind

/-- A call that takes an index, which no thread has had before. -/
theorem Inv.emplace (h : Inv s) :
    Inv (({ s with index := s.index + 1 }).goto t (.reserves s.index x)) := by
  have hindexes := h.indexes
  refine ⟨?_, ⟨?_, ?_, ?_, ?_, hindexes.published⟩, ?_, ?_⟩
  · have hbuckets : Buckets { s with index := s.index + 1 } := h.buckets.congr rfl rfl rfl rfl
    exact hbuckets.goto (by grind)
  · exact Nat.le_succ_of_le hindexes.le
  · have := hindexes.taken
    have := hindexes.le
    grind
  · have := hindexes.apart
    have := hindexes.taken
    grind
  · have := hindexes.stores
    grind
  · have helements : Elements { s with index := s.index + 1 } :=
      ⟨h.elements.written, h.elements.emplaced⟩
    exact helements.goto (by grind)
  · have hlookups : Lookups { s with index := s.index + 1 } :=
      ⟨h.lookups.finds, h.lookups.found, h.lookups.outOfRange, h.lookups.measured,
        h.lookups.running⟩
    exact hlookups.goto (by grind)

theorem Inv.goto (h : Inv s) {place : Place T} (htaken : place.taken = (s.place t).taken)
    (hoffer : place.offer = none)
    (hwrites : ∀ i x b, place = .writes i x b → s.array (arrayIndex i) = some b)
    (hstores : ∀ i x, place = .stores i x → s.size = i)
    (hwritten : ∀ i x, place.written = some (i, x) → s.Holds i x)
    (hfinds : ∀ i, place = .finds i → i < s.size) (hrunning : place ≠ .crashed) :
    Inv (s.goto t place) where
  buckets := h.buckets.goto ⟨hoffer, hwrites⟩
  indexes := h.indexes.goto htaken hstores
  elements := h.elements.goto hwritten
  lookups := h.lookups.goto ⟨hrunning, hfinds⟩

theorem Inv.returns (h : Inv s) (hindex : result.index = none)
    (hfound : ∀ i b j, result = .found i b j → i < s.size ∧ s.reference i = some (b, j))
    (hrange : ∀ i n, result = .outOfRange i n → n ≤ i ∧ n ≤ s.size)
    (hsize : ∀ n, result = .size n → n = s.size) : Inv (s.returns result) where
  buckets := h.buckets.congr rfl rfl rfl rfl
  indexes := by
    obtain ⟨hle, htaken, hapart, hstores, hpublished⟩ := h.indexes
    refine ⟨hle, htaken, hapart, hstores, ?_⟩
    unfold published at hpublished ⊢
    rw [List.filterMap_append, hpublished, List.filterMap_cons, hindex]
    exact List.append_nil _
  elements := by
    refine ⟨h.elements.written, fun i x hmem ↦ ?_⟩
    rcases List.mem_append.mp hmem with hold | hnew
    · exact h.elements.emplaced i x hold
    · rw [← List.mem_singleton.mp hnew] at hindex
      cases hindex
  lookups := by
    refine ⟨h.lookups.finds, fun i b j hmem ↦ ?_, fun i n hmem ↦ ?_,
      h.lookups.measured.concat fun n hn ↦ hsize n hn ▸ h.indexes.published, h.lookups.running⟩
    · rcases List.mem_append.mp hmem with hold | hnew
      · exact h.lookups.found i b j hold
      · exact hfound i b j (List.mem_singleton.mp hnew).symm
    · rcases List.mem_append.mp hmem with hold | hnew
      · exact h.lookups.outOfRange i n hold
      · exact hrange i n (List.mem_singleton.mp hnew).symm

/-- The turn of the thread has come: its index is the next one to be published. -/
theorem Inv.publish (h : Inv s) (ht : s.place t = .stores i x) :
    Inv ((({ s with size := i + 1 }).returns (.emplaced i x)).goto t .outside) := by
  have hsize := h.indexes.stores t i x ht
  have htaken := h.indexes.taken t i (by rw [ht]; rfl)
  have hholds := h.elements.written t i x (by rw [ht]; rfl)
  have hmeasured : Measured (s.results ++ [.emplaced i x]) := h.lookups.measured.concat nofun
  refine ⟨?_, ⟨?_, ?_, ?_, ?_, ?_⟩, ⟨?_, ?_⟩, ⟨?_, ?_, ?_, hmeasured, ?_⟩⟩
  · have hbuckets : Buckets (({ s with size := i + 1 }).returns (.emplaced i x)) :=
      h.buckets.congr rfl rfl rfl rfl
    exact hbuckets.goto (by grind)
  · exact htaken.2
  -- the indexes that are still taken are greater than this one
  · have := h.indexes.taken
    have := h.indexes.apart
    grind
  · have := h.indexes.apart
    grind
  · have hturn : ∀ u j y, s.place u = .stores j y → u = t := by
      intro u j y hu
      have hj := h.indexes.stores u j y hu
      exact h.indexes.apart u t i (by rw [hu, ← hsize, hj]; rfl) (by rw [ht]; rfl)
    grind
  · have hpublished := h.indexes.published
    unfold published at hpublished ⊢
    rw [List.filterMap_append, hpublished, hsize, List.range_succ]
    rfl
  · intro u j y hu
    have hold : (s.place u).written = some (j, y) := by grind
    exact h.elements.written u j y hold
  · intro j y hmem
    rcases List.mem_append.mp hmem with hold | hnew
    · exact h.elements.emplaced j y hold
    · cases List.mem_singleton.mp hnew
      exact hholds
  · have := h.lookups.finds
    grind
  · intro j b l hmem
    rcases List.mem_append.mp hmem with hold | hnew
    · have ⟨hlt, href⟩ := h.lookups.found j b l hold
      exact ⟨by dsimp only; omega, href⟩
    · cases List.mem_singleton.mp hnew
  · intro j n hmem
    rcases List.mem_append.mp hmem with hold | hnew
    · have ⟨hle, hle'⟩ := h.lookups.outOfRange j n hold
      exact ⟨hle, by dsimp only; omega⟩
    · cases List.mem_singleton.mp hnew
  · have := h.lookups.running
    grind

/-! ## The steps on the buckets -/

theorem Inv.keeps (h : Inv s) (hbuckets : Buckets s') (hkeeps : Keeps s s')
    (hindex : s'.index = s.index) (hsize : s'.size = s.size) (hresults : s'.results = s.results)
    (hothers : ∀ u, u ≠ t → s'.place u = s.place u)
    (htaken : (s'.place t).taken = (s.place t).taken)
    (ht : ∃ i x b, s'.place t = .races i x b ∨ s'.place t = .writes i x b) : Inv s' := by
  have hold : ∀ u, (s'.place u).taken = (s.place u).taken := by grind
  refine ⟨hbuckets, ⟨?_, ?_, ?_, ?_, ?_⟩, ⟨?_, ?_⟩,
    ⟨?_, ?_, ?_, hresults ▸ h.lookups.measured, ?_⟩⟩
  · rw [hindex, hsize]
    exact h.indexes.le
  · intro u i hu
    rw [hindex, hsize]
    exact h.indexes.taken u i (hold u ▸ hu)
  · exact fun u v i hu hv ↦ h.indexes.apart u v i (hold u ▸ hu) (hold v ▸ hv)
  · have := h.indexes.stores
    grind
  · have hpublished := h.indexes.published
    unfold Arraying.published at hpublished ⊢
    rw [hresults, hsize]
    exact hpublished
  · intro u i x hu
    have hwritten : (s.place u).written = some (i, x) := by grind
    exact hkeeps.holds (h.elements.written u i x hwritten)
  · exact fun i x hmem ↦ hkeeps.holds (h.elements.emplaced i x (hresults ▸ hmem))
  · have := h.lookups.finds
    grind
  · intro i b j hmem
    have ⟨hlt, href⟩ := h.lookups.found i b j (hresults ▸ hmem)
    exact ⟨hsize ▸ hlt, hkeeps.reference href⟩
  · exact fun i n hmem ↦ hsize ▸ h.lookups.outOfRange i n (hresults ▸ hmem)
  · have := h.lookups.running
    grind

/-- The new bucket is not in the array. -/
theorem Inv.allocate (h : Inv s) {length : Nat} (ht : s.place t = .reserves i x)
    (hlength : bucketLengthData[arrayIndex i]? = some length) :
    Inv ((({ s with allocated := s.allocated + 1 }).setHeap s.allocated
      (some ⟨length, fun _ ↦ none⟩)).goto t (.races i x s.allocated)) := by
  have hfresh := h.buckets.fresh s.allocated (Nat.le_refl _)
  have hne : ∀ b, (∃ bucket, s.heap b = some bucket) → b ≠ s.allocated := by
    rintro b ⟨bucket, hbucket⟩ rfl
    exact absurd (hbucket.symm.trans hfresh) (by simp)
  have harray : ∀ k b, s.array k = some b → b ≠ s.allocated := by
    intro k b hb
    obtain ⟨bucket, hbucket, -⟩ := h.buckets.array k b hb
    exact hne b ⟨bucket, hbucket⟩
  have hoffer : ∀ u b, (s.place u).offer = some b → b ≠ s.allocated := by
    intro u b hu
    obtain ⟨i, x, hplace⟩ := Place.races_of_offer hu
    obtain ⟨bucket, hbucket, -⟩ := h.buckets.offer u i x b hplace
    exact hne b ⟨bucket, hbucket⟩
  have hkeeps : Keeps s ((({ s with allocated := s.allocated + 1 }).setHeap s.allocated
      (some ⟨length, fun _ ↦ none⟩)).goto t (.races i x s.allocated)) :=
    ⟨fun _ _ hb ↦ hb, fun k b hb ↦ if_neg (harray k b hb)⟩
  refine h.keeps (t := t) ⟨?_, h.buckets.apart, ?_, ?_, ?_, ?_, ?_⟩ hkeeps rfl rfl rfl ?_ ?_ ?_
  · have := h.buckets.array
    grind
  · have := h.buckets.fresh
    grind
  · intro u j y b hu
    by_cases heq : u = t
    · subst heq
      cases (if_pos rfl).symm.trans hu
      exact ⟨_, if_pos rfl, hlength⟩
    · have hold := (if_neg heq).symm.trans hu
      obtain ⟨bucket, hbucket, hlength'⟩ := h.buckets.offer u j y b hold
      exact ⟨bucket, (if_neg (hne b ⟨bucket, hbucket⟩)).trans hbucket, hlength'⟩
  · have := h.buckets.offered
    grind
  · have := h.buckets.offers
    grind
  · have := h.buckets.writes
    grind
  · exact fun u hu ↦ if_neg hu
  · grind
  · exact ⟨i, x, s.allocated, Or.inl (if_pos rfl)⟩

/-- The thread wins the race, and its bucket is the one of the array from now on. -/
theorem Inv.win (h : Inv s) (ht : s.place t = .races i x b)
    (hnull : s.array (arrayIndex i) = none) :
    Inv ((s.setArray (arrayIndex i) b).goto t (.writes i x b)) := by
  have hoffer := h.buckets.offer t i x b ht
  have hkeeps : Keeps s ((s.setArray (arrayIndex i) b).goto t (.writes i x b)) :=
    ⟨by grind, fun _ _ _ ↦ rfl⟩
  refine h.keeps (t := t) ⟨?_, ?_, h.buckets.fresh, ?_, ?_, ?_, ?_⟩ hkeeps rfl rfl rfl ?_ ?_ ?_
  · have := h.buckets.array
    grind
  · have := h.buckets.apart
    have := h.buckets.offered t b
    grind
  · have := h.buckets.offer
    grind
  · have := h.buckets.offered
    have := h.buckets.offers t
    grind
  · have := h.buckets.offers
    grind
  · have := h.buckets.writes
    grind
  · exact fun u hu ↦ if_neg hu
  · grind
  · exact ⟨i, x, b, Or.inr (if_pos rfl)⟩

/-- The thread deletes a bucket that nobody else knows. -/
theorem Inv.lose (h : Inv s) {expected : Nat} (ht : s.place t = .races i x b)
    (hexpected : s.array (arrayIndex i) = some expected) :
    Inv ((s.setHeap b none).goto t (.writes i x expected)) := by
  have hne : ∀ k c, s.array k = some c → c ≠ b := by
    have := h.buckets.offered t b
    grind
  have hkeeps : Keeps s ((s.setHeap b none).goto t (.writes i x expected)) :=
    ⟨fun _ _ hc ↦ hc, fun k c hc ↦ if_neg (hne k c hc)⟩
  refine h.keeps (t := t) ⟨?_, h.buckets.apart, ?_, ?_, ?_, ?_, ?_⟩ hkeeps rfl rfl rfl ?_ ?_ ?_
  · have := h.buckets.array
    grind
  · have := h.buckets.fresh
    grind
  · have := h.buckets.offer
    have := h.buckets.offers t
    grind
  · have := h.buckets.offered
    grind
  · have := h.buckets.offers
    grind
  · have := h.buckets.writes
    grind
  · exact fun u hu ↦ if_neg hu
  · grind
  · exact ⟨i, x, expected, Or.inr (if_pos rfl)⟩

theorem Indexes.mem_published (h : Indexes s) : i ∈ s.published ↔ i < s.size := by
  rw [h.published, List.mem_range]

theorem Indexes.emplaced_lt (h : Indexes s) (hmem : .emplaced i x ∈ s.results) : i < s.size :=
  h.mem_published.mp (List.mem_filterMap.mpr ⟨_, hmem, rfl⟩)

theorem Inv.published (h : Inv s) (hi : i < s.size) :
    ∃ x b j, .emplaced i x ∈ s.results ∧ s.reference i = some (b, j) ∧ s.read b j = some x := by
  obtain ⟨result, hmem, hindex⟩ := List.mem_filterMap.mp (h.indexes.mem_published.mpr hi)
  cases result with
  | emplaced k x =>
    cases hindex
    obtain ⟨b, j, href, hread⟩ := h.elements.emplaced i x hmem
    exact ⟨x, b, j, hmem, href, hread⟩
  | size | found | outOfRange => cases hindex

theorem taken_of_written {p : Place T} (h : p.written = some (i, x)) : p.taken = some i := by
  cases p <;> grind

/-- `bucket[j] = y` -/
abbrev store (s : Arraying T) (b j : Nat) (bucket : Bucket T) (y : T) : Arraying T :=
  s.setHeap b (some { bucket with elements := fun l ↦ if l = j then some y else bucket.elements l })

theorem reference_store {bucket : Bucket T} {c l : Nat} (hheap : s.heap b = some bucket) (y : T)
    (href : s.reference k = some (c, l)) : (s.store b j bucket y).reference k = some (c, l) := by
  refine reference_mono (s := s) (fun _ _ hb ↦ hb) ?_ href
  intro k' c' bucket' _ hbucket'
  by_cases heq : c' = b
  · cases (heq ▸ hbucket').symm.trans hheap
    exact ⟨_, if_pos heq, rfl⟩
  · exact ⟨bucket', (if_neg heq).trans hbucket', rfl⟩

theorem Holds.store {bucket : Bucket T} (h : s.Holds k x) (hbuckets : Buckets s)
    (hi : i < 2 ^ 32 - 1) (hk : k < 2 ^ 32 - 1) (hne : k ≠ i)
    (harray : s.array (arrayIndex i) = some b) (hindex : indexInBucket i = some j)
    (hheap : s.heap b = some bucket) (y : T) : (s.store b j bucket y).Holds k x := by
  obtain ⟨c, l, href, hread⟩ := h
  obtain ⟨hc, hindex', -⟩ := array_of_reference href
  refine ⟨c, l, reference_store hheap y href, ?_⟩
  unfold Arraying.read at hread ⊢
  by_cases heq : c = b
  -- in the same bucket the index has another place
  · have hbucket := hbuckets.apart _ _ b (heq ▸ hc) harray
    have hl : l ≠ j := by
      rintro rfl
      exact hne (indexInBucket_injective hk hi hbucket (hindex'.trans hindex.symm))
    rw [heq, hheap] at hread
    simp only [heq, if_true, if_neg hl]
    exact hread
  · simp only [if_neg heq]
    exact hread

theorem Inv.write (h : Inv s) (hbound : s.index ≤ 2 ^ 32 - 1) (ht : s.place t = .writes i x b)
    {bucket : Bucket T} (helement : s.element i b = some (j, bucket)) :
    Inv ((s.store b j bucket x).goto t (.awaits i x)) := by
  have htaken : (s.place t).taken = some i := by rw [ht]; rfl
  have ⟨hle, hlt⟩ := h.indexes.taken t i htaken
  have hi : i < 2 ^ 32 - 1 := by omega
  have harray := h.buckets.writes t i x b ht
  obtain ⟨j', bucket', hindex, hheap, helement'⟩ := h.buckets.element hi harray
  cases helement'.symm.trans helement
  have hholds := fun {k y} (hk : s.Holds k y) (hk' : k < 2 ^ 32 - 1) (hne : k ≠ i) ↦
    hk.store h.buckets hi hk' hne harray hindex hheap x
  have hinv : Inv (s.store b j bucket x) := by
    refine ⟨⟨?_, h.buckets.apart, ?_, ?_, h.buckets.offered, h.buckets.offers, h.buckets.writes⟩,
      ⟨h.indexes.le, h.indexes.taken, h.indexes.apart, h.indexes.stores, h.indexes.published⟩,
      ⟨?_, ?_⟩, ⟨h.lookups.finds, ?_, h.lookups.outOfRange, h.lookups.measured,
        h.lookups.running⟩⟩
    · have := h.buckets.array
      grind
    · have := h.buckets.fresh
      grind
    · have := h.buckets.offer
      grind
    · intro u k y hu
      have ⟨_, hlt⟩ := h.indexes.taken u k (taken_of_written hu)
      -- another thread has written the element of another index
      have hne : k ≠ i := by
        rintro rfl
        have heq := h.indexes.apart u t k (taken_of_written hu) htaken
        rw [heq, ht] at hu
        cases hu
      exact hholds (h.elements.written u k y hu) (by omega) hne
    · intro k y hmem
      have hlt' := h.indexes.emplaced_lt hmem
      exact hholds (h.elements.emplaced k y hmem) (by omega) (by omega)
    · intro k c l hmem
      have ⟨hlt', href⟩ := h.lookups.found k c l hmem
      exact ⟨hlt', reference_store hheap x href⟩
  apply hinv.goto
  · rw [htaken]; rfl
  · rfl
  · exact fun _ _ _ h ↦ nomatch h
  · exact fun _ _ h ↦ nomatch h
  · intro k y hk
    cases hk
    obtain ⟨l, hindex', href⟩ := hinv.buckets.reference hi harray
    cases hindex'.symm.trans hindex
    refine ⟨b, j, href, ?_⟩
    unfold Arraying.read
    simp only [if_true]
  · exact fun _ h ↦ nomatch h
  · exact fun h ↦ nomatch h

/-! ## Runs -/

theorem Inv.proceed (h : Inv s) (hbound : s.index ≤ 2 ^ 32 - 1)
    (hstep : s.step (.proceed t) = some s') : Inv s' := by
  rw [step] at hstep
  cases ht : s.place t with
  | outside | crashed =>
    rw [ht] at hstep
    contradiction
  | reserves i x =>
    have htaken := h.indexes.taken t i (by rw [ht]; rfl)
    obtain ⟨-, _, length, -, hlength, -⟩ := inBounds_of_lt (show i < 2 ^ 32 - 1 by omega)
    simp only [ht, hlength] at hstep
    split at hstep
    · rename_i b hb
      cases hstep
      apply h.goto <;> grind
    · cases hstep
      exact h.allocate ht hlength
  | races i x b =>
    simp only [ht] at hstep
    split at hstep
    · rename_i hnull
      cases hstep
      exact h.win ht hnull
    · rename_i expected hexpected
      cases hstep
      exact h.lose ht hexpected
  | writes i x b =>
    have htaken := h.indexes.taken t i (by rw [ht]; rfl)
    obtain ⟨j, bucket, -, -, helement⟩ :=
      h.buckets.element (show i < 2 ^ 32 - 1 by omega) (h.buckets.writes t i x b ht)
    simp only [ht, helement, Option.some.injEq] at hstep
    exact hstep ▸ h.write hbound ht helement
  | awaits i x =>
    have hwritten := h.elements.written t i x (by rw [ht]; rfl)
    simp only [ht, Option.some.injEq] at hstep
    split at hstep
    · subst hstep
      apply h.goto <;> grind
    · exact hstep ▸ h
  | stores i x =>
    simp only [ht, Option.some.injEq] at hstep
    exact hstep ▸ h.publish ht
  | finds i =>
    have hlt := h.lookups.finds t i ht
    obtain ⟨x, b, j, hmem, href, -⟩ := h.published hlt
    simp only [ht, href, Option.some.injEq] at hstep
    subst hstep
    have hfound : Inv (s.returns (.found i b j)) := by
      apply h.returns <;> grind [Result.index]
    apply hfound.goto <;> grind

theorem Inv.step {a : Action T} (h : Inv s) (hbound : s.index ≤ 2 ^ 32 - 1)
    (hstep : s.step a = some s') : Inv s' := by
  cases a with
  | emplace t x =>
    simp only [Arraying.step] at hstep
    split at hstep
    · cases hstep
      exact h.emplace
    · contradiction
  | at_ t i =>
    simp only [Arraying.step] at hstep
    split at hstep
    · rename_i ht
      split at hstep
      · cases hstep
        apply h.returns <;> grind [Result.index]
      · cases hstep
        apply h.goto <;> grind
    · contradiction
  | size t =>
    simp only [Arraying.step] at hstep
    split at hstep
    · cases hstep
      apply h.returns <;> grind [Result.index]
    · contradiction
  | proceed t => exact h.proceed hbound hstep

theorem Inv.sound (h : Inv s) : Sound s where
  distinct := h.indexes.published ▸ List.nodup_range
  size := h.indexes.published
  measures t ht := by simp only [Arraying.step, ht]
  measured := h.lookups.measured
  grows _ _ _ _ _ heq := h.lookups.measured.le heq
  at_ i hi := by
    obtain ⟨x, b, j, hmem, href, hread⟩ := h.published hi
    exact ⟨b, j, x, hmem, href, hread⟩
  throws t i ht hi := by
    simp only [Arraying.step, ht]
    rw [if_pos hi]
  looks t i ht hi := by
    simp only [Arraying.step, ht]
    rw [if_neg (Nat.not_le.mpr hi)]
  finds t i ht := by
    obtain ⟨x, b, j, hmem, href, hread⟩ := h.published (h.lookups.finds t i ht)
    refine ⟨b, j, (s.returns (.found i b j)).goto t .outside, ?_, rfl, x, hmem, href, hread⟩
    simp only [Arraying.step, ht, href]
  found i b j hmem := by
    obtain ⟨hlt, href⟩ := h.lookups.found i b j hmem
    obtain ⟨x, c, l, hmem', href', hread⟩ := h.published hlt
    cases href.symm.trans href'
    exact ⟨x, hmem', href, hread⟩
  outOfRange := h.lookups.outOfRange
  running := h.lookups.running

/-! ## Whole runs -/

/-- A step takes an index if it begins an emplace, and what has been published stays so. -/
theorem step_counts {a : Action T} (h : Inv s) (hstep : s.step a = some s') :
    s'.index = s.index + (if a.emplaces then 1 else 0) ∧ s.size ≤ s'.size ∧
      s.results <+: s'.results := by
  have hstores := h.indexes.stores
  cases a with
  | emplace t x | at_ t i | size t =>
    simp only [Arraying.step] at hstep
    grind [Action.emplaces]
  | proceed t =>
    simp only [Arraying.step] at hstep
    grind [Action.emplaces]

theorem inv_run {as : List (Action T)} (h : Inv s) (hrun : run step s as = some s')
    (hfew : s.index + as.countP Action.emplaces < 2 ^ 32) :
    Inv s' ∧ s'.index = s.index + as.countP Action.emplaces ∧ s.size ≤ s'.size ∧
      s.results <+: s'.results := by
  induction as generalizing s with
  | nil =>
    rw [run_nil, Option.some.injEq] at hrun
    exact hrun ▸ ⟨h, rfl, Nat.le_refl _, List.prefix_refl _⟩
  | cons a as ih =>
    rw [run_cons, Option.bind_eq_some_iff] at hrun
    obtain ⟨u, hu, hrest⟩ := hrun
    obtain ⟨hindex, hsize, hresults⟩ := step_counts h hu
    rw [List.countP_cons] at hfew ⊢
    have hinv := h.step (by omega) hu
    obtain ⟨hinv', hindex', hsize', hresults'⟩ := ih hinv hrest (by omega)
    exact ⟨hinv', by omega, Nat.le_trans hsize hsize', hresults.trans hresults'⟩

/-- As long as fewer than 2^32 elements are emplaced, the array is sound in every state of a run, and
what its calls have returned holds in all later ones. -/
theorem appends_of_run {as bs : List (Action T)} (hrun : run step initial as = some s)
    (hrest : run step s bs = some s')
    (hfew : (as ++ bs).countP Action.emplaces < 2 ^ 32) :
    Sound s ∧ Sound s' ∧ s.size ≤ s'.size ∧ s.results <+: s'.results := by
  rw [List.countP_append] at hfew
  have hzero : (initial : Arraying T).index = 0 := rfl
  obtain ⟨hinv, hindex, -, -⟩ := inv_run inv_initial hrun (by omega)
  obtain ⟨hinv', -, hsize, hresults⟩ := inv_run hinv hrest (by omega)
  exact ⟨hinv.sound, hinv'.sound, hsize, hresults⟩

/-- Two threads need the second bucket at the same time. -/
def raceForBucket : List (Action Nat) :=
  [.emplace 0 10, .emplace 1 11, .emplace 2 12, .proceed 1, .proceed 2, .proceed 1, .proceed 2,
    .proceed 2, .proceed 1]

/-- All three are published, between two calls of `size`, and a reference to the element of the one
that has lost is taken. -/
def publishAll : List (Action Nat) :=
  [.size 3, .proceed 0, .proceed 0, .proceed 0, .proceed 0, .proceed 0, .proceed 1, .proceed 1,
    .proceed 2, .proceed 2, .size 3, .at_ 3 2, .proceed 3]

theorem appends_of_run_raceForBucket :
    ∃ s s' : Arraying Nat, run step initial raceForBucket = some s ∧
      run step s publishAll = some s' ∧ s'.size = 3 ∧ Sound s ∧ Sound s' ∧
        s.size ≤ s'.size ∧ s.results <+: s'.results :=
  ⟨_, _, rfl, rfl, rfl, appends_of_run (rfl : run step initial raceForBucket = some _)
    (rfl : run step _ publishAll = some _) (by decide)⟩

end Arraying

end AppendOnlyArray

end Ustevent
