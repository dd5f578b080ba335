import Mathlib.Data.List.Basic
import Ustevent.Concurrency.ListNodeAllocator

/-!
# The list queues

`SpmcListQueue` and `SpscListQueue` on top of the node allocator: a chain of nodes from `_tail`, whose
node has been dequeued, to `_head`.  The nodes that are dequeued go back to the allocator, from which
the producer gets them again.  Every atomic access and every access to the data of a node is a step
of its own, those of the allocator included.
-/

namespace Ustevent

open Reasoning

namespace ListQueue

open ListNodeAllocator (Allocating)

inductive Kind
  | spmc
  | spsc
deriving DecidableEq

/-- Where a thread is in a call of the queue, with what it has read. -/
inductive Place (T : Type*)
  | outside
  /-- in `alloc` of the allocator -/
  | allocates (input : T)
  | writes (node : Nat) (input : T)
  | loads (node : Nat) (input : T)
  | links (node head : Nat) (input : T)
  | publishes (node : Nat)
  /-- `dequeueMc` exchanges `_tail` for null, until it gets a node -/
  | takes
  /-- `dequeueMcWeak` does so once -/
  | takesWeak
  /-- `dequeueSc` -/
  | loadsTail
  | reads (tail : Nat)
  /-- `_next` was null -/
  | restores (tail : Nat)
  | moves (tail next : Nat)
  | stores (tail next : Nat) (output : T)
  | frees (tail : Nat) (output : T)
  /-- in `free` of the allocator -/
  | freeing (output : T)
  | succeeds (output : T)
  /-- about to return false, as there was no node after the tail -/
  | fails
  /-- about to return false, as the tail was taken -/
  | contended

variable {T : Type*}

/-- The thread is in `enqueueSp`. -/
@[grind] def Place.enqueues : Place T → Bool
  | .allocates _ | .writes _ _ | .loads _ _ | .links _ _ _ | .publishes _ => true
  | _ => false

/-- The thread is in one of the calls that dequeue. -/
@[grind] def Place.dequeues : Place T → Bool
  | .outside => false
  | p => !p.enqueues

/-- The tail that the thread may replace. -/
@[grind] def Place.tail : Place T → Option Nat
  | .reads n | .restores n | .moves n _ | .stores n _ _ => some n
  | _ => none

theorem Place.dequeues_of_tail {p : Place T} {n : Nat} (h : p.tail = some n) :
    p.dequeues = true := by
  cases p <;> grind

/-- The thread has found no node after the tail. -/
@[grind] def Place.emptyHanded : Place T → Bool
  | .restores _ | .fails => true
  | _ => false

/-- The node that the thread is to link. -/
@[grind] def Place.fresh : Place T → Option Nat
  | .writes n _ | .loads n _ | .links n _ _ => some n
  | _ => none

/-- The thread has linked its node, which `_head` does not show yet. -/
@[grind] def Place.lags : Place T → Bool
  | .publishes _ => true
  | _ => false

/-- The node that the thread has from the allocator and not in the queue. -/
@[grind] def Place.own : Place T → Option Nat
  | .writes n _ | .loads n _ | .links n _ _ | .frees n _ => some n
  | _ => none

theorem Place.own_of_fresh {p : Place T} {n : Nat} (h : p.fresh = some n) : p.own = some n := by
  cases p <;> grind

/-- Where the thread is in the allocator meanwhile. -/
@[grind] def Place.Calls : Place T → ListNodeAllocator.Place → Prop
  | .allocates _, p => p.allocs = true
  | .freeing _, p => p.releases = true
  | _, p => p = .outside

/-- The queue, its allocator and the threads.  `enqueued` and `dequeued` are history: the values whose
node has been linked, and those whose node has become the tail. -/
structure Queueing (T : Type*) where
  alloc : Allocating
  head : Nat
  tail : Option Nat
  data : Nat → T
  place : Nat → Place T
  enqueued : List T
  dequeued : List T

inductive Action (T : Type*)
  | enqueue (input : T)
  | dequeue (thread : Nat)
  | dequeueWeak (thread : Nat)
  /-- the next step of the call that the thread is in -/
  | proceed (thread : Nat)

/-- The one thread that enqueues. -/
abbrev producer : Nat := 0

/-- The one thread that dequeues from a `SpscListQueue`. -/
abbrev consumer : Nat := 1

/-- The thread that begins a call. -/
def Action.caller : Action T → Option Nat
  | .enqueue _ => some producer
  | .dequeue t | .dequeueWeak t => some t
  | .proceed _ => none

namespace Queueing

/-- The allocator is constructed with its default size, the nodes with the data `blank`. -/
def initial (blank : T) : Queueing T where
  alloc := .initial 32
  head := 0
  tail := some 0
  data _ := blank
  place _ := .outside
  enqueued := []
  dequeued := []

abbrev setAlloc (s : Queueing T) (alloc : Allocating) : Queueing T := { s with alloc := alloc }

abbrev setHead (s : Queueing T) (n : Nat) : Queueing T := { s with head := n }

abbrev setTail (s : Queueing T) (n : Option Nat) : Queueing T := { s with tail := n }

abbrev setData (s : Queueing T) (n : Nat) (value : T) : Queueing T :=
  { s with data := fun u ↦ if u = n then value else s.data u }

abbrev goto (s : Queueing T) (t : Nat) (place : Place T) : Queueing T :=
  { s with place := fun u ↦ if u = t then place else s.place u }

abbrev linked (s : Queueing T) (value : T) : Queueing T :=
  { s with enqueued := s.enqueued ++ [value] }

abbrev taken (s : Queueing T) (value : T) : Queueing T :=
  { s with dequeued := s.dequeued ++ [value] }

/-- `moved` is what a value that has been moved from is left as. -/
def step (kind : Kind) (moved : T → T) (s : Queueing T) : Action T → Option (Queueing T)
  | .enqueue input =>
    match s.place producer with
    | .outside =>
      (s.alloc.step (.alloc producer)).map fun a ↦ (s.setAlloc a).goto producer (.allocates input)
    | _ => none
  | .dequeue t =>
    match s.place t, kind with
    | .outside, .spmc => some (s.goto t .takes)
    | .outside, .spsc => if t = consumer then some (s.goto t .loadsTail) else none
    | _, _ => none
  | .dequeueWeak t =>
    match s.place t, kind with
    | .outside, .spmc => some (s.goto t .takesWeak)
    | _, _ => none
  | .proceed t =>
    match s.place t with
    | .outside => none
    | .allocates input =>
      (s.alloc.step (.proceed t)).map fun a ↦
        (s.setAlloc a).goto t
          (match s.alloc.place t with
          | .returns n => .writes n input
          | _ => .allocates input)
    | .writes n input => some ((s.setData n input).goto t (.loads n input))
    | .loads n input => some (s.goto t (.links n s.head input))
    -- `_head` is stale from here until the next step
    | .links n head input =>
      some (((s.setAlloc (s.alloc.setNext head (some n))).linked input).goto t (.publishes n))
    | .publishes n => some ((s.setHead n).goto t .outside)
    | .takes =>
      match s.tail with
      -- `dequeueMc` tries again
      | none => some s
      | some n => some ((s.setTail none).goto t (.reads n))
    | .takesWeak =>
      match s.tail with
      | none => some (s.goto t .contended)
      | some n => some ((s.setTail none).goto t (.reads n))
    | .loadsTail =>
      match s.tail with
      | none => none
      | some n => some (s.goto t (.reads n))
    | .reads n =>
      match s.alloc.next n, kind with
      -- the tail goes back to where it was taken from
      | none, .spmc => some (s.goto t (.restores n))
      | none, .spsc => some (s.goto t .fails)
      | some next, _ => some (s.goto t (.moves n next))
    | .restores n => some ((s.setTail (some n)).goto t .fails)
    | .moves n next =>
      some ((s.setData next (moved (s.data next))).goto t (.stores n next (s.data next)))
    | .stores n next output =>
      some (((s.setTail (some next)).taken output).goto t (.frees n output))
    | .frees n output =>
      (s.alloc.step (.free t n)).map fun a ↦ (s.setAlloc a).goto t (.freeing output)
    | .freeing output =>
      (s.alloc.step (.proceed t)).map fun a ↦
        (s.setAlloc a).goto t (if a.place t = .outside then .succeeds output else .freeing output)
    | .succeeds _ | .fails | .contended => some (s.goto t .outside)

/-- Everything that has been enqueued has been dequeued. -/
def Empty (s : Queueing T) : Prop := s.dequeued = s.enqueued

/-- The queue was empty at a moment of the call that the thread is in. -/
def EmptyDuring (kind : Kind) (moved : T → T) (blank : T) (as : List (Action T)) (t : Nat) : Prop :=
  ∃ bs cs s, as = bs ++ cs ∧ run (step kind moved) (initial blank) bs = some s ∧ s.Empty ∧
    (s.place t).dequeues = true ∧ ∀ a ∈ cs, a.caller ≠ some t

/-! ## The invariant -/

/-- The nodes of the queue, from that of `_tail` to the one that has been linked last. -/
structure Live (s : Queueing T) (q : List Nat) (last : Nat) : Prop where
  chain : Chained s.alloc.next (fun _ : Unit ↦ none) q last
  handed : ∀ n ∈ q, s.alloc.handed n = true

/-- The nodes that the threads have for themselves. -/
structure Owners (s : Queueing T) (q : List Nat) : Prop where
  own : ∀ t n, (s.place t).own = some n → s.alloc.handed n = true ∧ n ∉ q
  apart : ∀ t u n, (s.place t).own = some n → (s.place u).own = some n → t = u
  fresh : ∀ t n, (s.place t).fresh = some n → s.alloc.next n = none
  calls : ∀ t, (s.place t).Calls (s.alloc.place t)

/-- Who may use `_head` and `_tail`, and what they are. -/
structure Ends (kind : Kind) (s : Queueing T) (q : List Nat) (last : Nat) : Prop where
  producer : ∀ t, (s.place t).enqueues = true → t = producer
  consumer : kind = .spsc → ∀ t, (s.place t).dequeues = true → t = consumer
  takes : ∀ t, s.place t = .takes ∨ s.place t = .takesWeak → kind = .spmc
  loads : ∀ t, s.place t = .loadsTail → kind = .spsc
  head : (s.place ListQueue.producer).lags = false → s.head = last
  published : ∀ t n, s.place t = .publishes n → last = n
  links : ∀ t n head input, s.place t = .links n head input → head = last
  tail : ∀ n, s.tail = some n → q.head? = some n
  taken : ∀ t n, (s.place t).tail = some n → q.head? = some n
  alone : ∀ t u m n, (s.place t).tail = some m → (s.place u).tail = some n → t = u
  locked : kind = .spmc → ∀ t n, (s.place t).tail = some n → s.tail = none
  next : ∀ t n x, s.place t = .moves n x ∨ (∃ output, s.place t = .stores n x output) →
    s.alloc.next n = some x

/-- The values that are still to be dequeued are in the nodes after the tail, but for one that a
thread has moved. -/
structure Values (s : Queueing T) (q : List Nat) : Prop where
  written : ∀ t n input, s.place t = .loads n input ∨ (∃ head, s.place t = .links n head input) →
    s.data n = input
  moved : ∀ t n x output, s.place t = .stores n x output →
    s.enqueued = s.dequeued ++ output :: q.tail.tail.map s.data
  rest : (∀ t n x output, s.place t ≠ .stores n x output) →
    s.enqueued = s.dequeued ++ q.tail.map s.data

structure Inv (kind : Kind) (s : Queueing T) (free q : List Nat) (last : Nat) : Prop where
  alloc : s.alloc.Inv free
  live : Live s q last
  owners : Owners s q
  ends : Ends kind s q last
  values : Values s q

/-- The state can go on, and no thread has been left without a node unless the queue was empty. -/
structure Next (kind : Kind) (s s' : Queueing T) : Prop where
  inv : ∃ free q last, Inv kind s' free q last
  empty : ∀ u, (s'.place u).emptyHanded = true →
    (s.place u).emptyHanded = true ∨ s.Empty ∧ (s.place u).dequeues = true

variable {kind : Kind} {moved : T → T} {blank : T} {s s' : Queueing T} {free q : List Nat}
  {last t n : Nat}

theorem inv_initial : Inv kind (initial blank) [1] [0] 0 where
  alloc := Allocating.inv_initial (by decide)
  live := by
    refine ⟨⟨by simp, by simp, rfl, ?_, ?_, ?_⟩, ?_⟩
    · simp
    · simp
    · simp
    · simp [initial, Allocating.initial]
  owners := by
    constructor <;> simp [initial, Allocating.initial, Place.own, Place.fresh, Place.Calls]
  ends := by constructor <;> simp [initial, Place.enqueues, Place.dequeues, Place.tail]
  values := by constructor <;> simp [initial]

theorem Owners.goto (h : Owners s q) {old place : Place T} (ht : s.place t = old)
    (halloc : s'.alloc = s.alloc) (hplace : s'.place = (s.goto t place).place)
    (hown : place.own = old.own) (hfresh : place.fresh = old.fresh)
    (hcalls : place.Calls = old.Calls) : Owners s' q := by
  have heach : ∀ u, (s'.place u).own = (s.place u).own ∧ (s'.place u).fresh = (s.place u).fresh ∧
      (s'.place u).Calls = (s.place u).Calls := by
    intro u
    rw [hplace]
    by_cases hu : u = t
    · subst hu
      simp only [if_true, ht]
      exact ⟨hown, hfresh, hcalls⟩
    · simp only [if_neg hu, and_self]
  exact {
    own := fun u n hn ↦ halloc ▸ h.own u n ((heach u).1 ▸ hn)
    apart := fun u v n hu hv ↦ h.apart u v n ((heach u).1 ▸ hu) ((heach v).1 ▸ hv)
    fresh := fun u n hn ↦ halloc ▸ h.fresh u n ((heach u).2.1 ▸ hn)
    calls := fun u ↦ by
      rw [(heach u).2.2, halloc]
      exact h.calls u }

/-- A step that moves no value. -/
theorem Values.goto (h : Values s q) {old place : Place T} (ht : s.place t = old)
    (hdata : s'.data = s.data) (henqueued : s'.enqueued = s.enqueued)
    (hdequeued : s'.dequeued = s.dequeued) (hplace : s'.place = (s.goto t place).place)
    (hwritten : ∀ n input, place = .loads n input ∨ (∃ head, place = .links n head input) →
      old = .loads n input ∨ ∃ head, old = .links n head input)
    (hold : ∀ n x output, old ≠ .stores n x output)
    (hnew : ∀ n x output, place ≠ .stores n x output) : Values s' q := by
  have hstores : ∀ u n x output,
      s'.place u = .stores n x output ↔ s.place u = .stores n x output := by
    intro u n x output
    rw [hplace]
    by_cases hu : u = t
    · subst hu
      simp only [if_true, ht]
      exact iff_of_false (hnew n x output) (hold n x output)
    · simp only [if_neg hu]
  refine ⟨fun u n input hu ↦ ?_, fun u n x output hu ↦ ?_, fun hnone ↦ ?_⟩
  · rw [hdata]
    apply h.written u
    rw [hplace] at hu
    by_cases hut : u = t
    · subst hut
      rw [ht]
      simp only [if_true] at hu
      exact hwritten n input hu
    · simpa only [if_neg hut] using hu
  · rw [hdata, henqueued, hdequeued]
    exact h.moved u n x output ((hstores u n x output).mp hu)
  · rw [hdata, henqueued, hdequeued]
    exact h.rest fun u n x output hu ↦ hnone u n x output ((hstores u n x output).mpr hu)

/-! ## The steps in the allocator -/

/-- A step of the allocator that changes none of the nodes that the queue and its threads have. -/
theorem Inv.delegate (h : Inv kind s free q last) {a : Allocating} {free' : List Nat}
    {place : Place T} (ha : a.Inv free') (hframe : Allocating.Frame s.alloc a t)
    (hcalls : place.Calls (a.place t))
    (hplace : (s.place t = .outside ∧ t = producer ∧ ∃ input, place = .allocates input) ∨
      (∃ input, s.place t = .allocates input ∧ place = .allocates input) ∨
      ∃ output, s.place t = .freeing output ∧ (place = .freeing output ∨ place = .succeeds output)) :
    Inv kind ((s.setAlloc a).goto t place) free' q last where
  alloc := ha
  live := by
    -- the nodes of the queue are handed out, and the allocator stores in no such node
    have hhanded := hframe.handed
    refine ⟨h.live.chain.congr (fun n hn ↦ hframe.next n (h.live.handed n hn)) (fun u ↦ rfl), ?_⟩
    exact fun n hn ↦ hhanded ▸ h.live.handed n hn
  owners := by
    have := hframe.handed
    have := hframe.next
    have := hframe.place
    have := fun u n ↦ Place.own_of_fresh (p := s.place u) (n := n)
    have := h.owners
    constructor <;> grind [Owners]
  ends := by
    have := hframe.next
    have := h.live.handed
    have := fun u n hu ↦ List.mem_of_head? (h.ends.taken u n hu)
    have := h.ends
    constructor <;> grind [Ends]
  values := by
    rcases hplace with ⟨ht, -, input, rfl⟩ | ⟨input, ht, rfl⟩ | ⟨output, ht, rfl | rfl⟩
    all_goals exact h.values.goto ht rfl rfl rfl rfl (by simp) (by simp) (by simp)

theorem Inv.obtain (h : Inv kind s free q last) {input : T} (ht : s.place t = .allocates input)
    (hreturns : s.alloc.place t = .returns n) :
    Inv kind ((s.setAlloc ((s.alloc.setHanded n true).goto t .outside)).goto t (.writes n input))
      free q last := by
  have hnone := h.alloc.views.cleared t n (Or.inl hreturns)
  have hnew : s.alloc.handed n = false := by
    have := h.alloc.parted.handed n
    grind
  -- all nodes of the queue are handed out, and this one is not yet
  have hnotin : n ∉ q := by
    have := h.live.handed n
    grind
  refine ⟨h.alloc.ret hreturns, ⟨h.live.chain.congr (fun n hn ↦ rfl) (fun u ↦ rfl), ?_⟩, ?_, ?_, ?_⟩
  · have := h.live.handed
    grind
  · have := h.owners
    constructor <;> grind [Owners]
  · have := h.ends
    constructor <;> grind [Ends]
  · exact h.values.goto ht rfl rfl rfl rfl (by simp) (by simp) (by simp)

theorem Inv.giveBack (h : Inv kind s free q last) {output : T} (ht : s.place t = .frees n output) :
    Inv kind ((s.setAlloc ((s.alloc.setHanded n false).goto t (.resets n))).goto t
      (.freeing output)) free q last := by
  -- the old tail has left the queue in the step before
  obtain ⟨hhanded, hnotin⟩ := h.owners.own t n (by grind)
  have houtside : s.alloc.place t = .outside := by
    have := h.owners.calls t
    grind
  refine ⟨h.alloc.free houtside hhanded,
    ⟨h.live.chain.congr (fun n hn ↦ rfl) (fun u ↦ rfl), ?_⟩, ?_, ?_, ?_⟩
  · have := h.live.handed
    grind
  · have := h.owners
    constructor <;> grind [Owners]
  · have := h.ends
    constructor <;> grind [Ends]
  · exact h.values.goto ht rfl rfl rfl rfl (by simp) (by simp) (by simp)

/-! ## The steps of enqueue -/

theorem Inv.write (h : Inv kind s free q last) {input : T} (ht : s.place t = .writes n input) :
    Inv kind ((s.setData n input).goto t (.loads n input)) free q last where
  alloc := h.alloc
  live := ⟨h.live.chain, h.live.handed⟩
  owners := h.owners.goto ht rfl rfl rfl rfl rfl
  ends := by
    have := h.ends
    constructor <;> grind [Ends]
  values := by
    have hnotin := (h.owners.own t n (by grind)).2
    -- the node is not in the queue yet, so that no value of the queue changes
    have hdata : ∀ m : List Nat, (∀ x ∈ m, x ∈ q) →
        m.map (fun u ↦ if u = n then input else s.data u) = m.map s.data := by
      intro m hm
      apply List.map_congr_left
      grind
    have htail := hdata q.tail fun x hx ↦ List.mem_of_mem_tail hx
    have htail' := hdata q.tail.tail fun x hx ↦ List.mem_of_mem_tail (List.mem_of_mem_tail hx)
    have hothers : ∀ u, u ≠ t → (s.place u).own ≠ some n := by
      have := h.owners.apart t
      grind
    have := h.values
    constructor <;> grind [Values]

theorem Inv.load (h : Inv kind s free q last) {input : T} (ht : s.place t = .loads n input) :
    Inv kind (s.goto t (.links n s.head input)) free q last where
  alloc := h.alloc
  live := ⟨h.live.chain, h.live.handed⟩
  owners := h.owners.goto ht rfl rfl rfl rfl rfl
  ends := by
    have := h.ends
    constructor <;> grind [Ends]
  values := h.values.goto ht rfl rfl rfl rfl (by simp) (by simp) (by simp)

theorem Inv.link (h : Inv kind s free q last) {head : Nat} {input : T}
    (ht : s.place t = .links n head input) :
    Inv kind (((s.setAlloc (s.alloc.setNext head (some n))).linked input).goto t (.publishes n))
      free (q ++ [n]) n := by
  have hhead := h.ends.links t n head input ht
  subst hhead
  obtain ⟨hhanded, hnotin⟩ := h.owners.own t n (by grind)
  -- the head that the producer has loaded is still the last node
  have hlast := List.mem_of_getLast? h.live.chain.getLast
  have hnone := h.owners.fresh t n (by grind)
  refine ⟨h.alloc.setNext (h.live.handed head hlast) _, ⟨?_, ?_⟩, ?_, ?_, ?_⟩
  · exact h.live.chain.snoc hnotin (by grind) (by grind) (by grind) hnone
  · have := h.live.handed
    grind
  · have := fun u n ↦ Place.own_of_fresh (p := s.place u) (n := n)
    have := h.owners
    constructor <;> grind [Owners]
  · have := h.live.chain.next_last
    have := h.ends
    constructor <;> grind [Ends]
  · obtain ⟨c, r, rfl⟩ := List.exists_cons_of_ne_nil (List.ne_nil_of_mem hlast)
    have hinput := h.values.written t n input (Or.inr ⟨head, ht⟩)
    refine ⟨?_, ?_, ?_⟩
    · have := h.values.written
      grind
    · intro u a b output hu
      have hu : s.place u = .stores a b output := by grind
      -- the value that has been moved is that of another node
      obtain ⟨r, rfl⟩ : ∃ r', r = b :: r' := by
        have hnext := h.ends.next u a b (Or.inr ⟨output, hu⟩)
        have hc := h.ends.taken u a (by grind)
        have := h.live.chain.head_next (b := b)
        cases r with
        | nil => grind
        | cons d r => exact ⟨r, by grind⟩
      have := h.values.moved u a b output hu
      simp [this, hinput]
    · intro hrest
      have := h.values.rest fun u a b output hu ↦ hrest u a b output (by grind)
      simp [this, hinput]

theorem Inv.publish (h : Inv kind s free q last) (ht : s.place t = .publishes n) :
    Inv kind ((s.setHead n).goto t .outside) free q last where
  alloc := h.alloc
  live := ⟨h.live.chain, h.live.handed⟩
  owners := h.owners.goto ht rfl rfl rfl rfl rfl
  ends := by
    have := h.ends
    constructor <;> grind [Ends]
  values := h.values.goto ht rfl rfl rfl rfl (by simp) (by simp) (by simp)

/-! ## The steps of dequeue -/

theorem Inv.goto (h : Inv kind s free q last) {place : Place T}
    (hplace : (s.place t = .outside ∧ (kind = .spmc ∧ (place = .takes ∨ place = .takesWeak) ∨
        kind = .spsc ∧ t = consumer ∧ place = .loadsTail)) ∨
      (s.place t = .takesWeak ∧ place = .contended) ∨
      (s.place t = .loadsTail ∧ kind = .spsc ∧ ∃ n, s.tail = some n ∧ place = .reads n) ∨
      (∃ n, s.place t = .reads n ∧ (place = .restores n ∨ place = .fails ∨
        ∃ x, s.alloc.next n = some x ∧ place = .moves n x)) ∨
      ((s.place t = .fails ∨ s.place t = .contended ∨ ∃ output, s.place t = .succeeds output) ∧
        place = .outside)) : Inv kind (s.goto t place) free q last := by
  -- the thread has no node of its own, and moves no value
  have hkept : Owners (s.goto t place) q ∧ Values (s.goto t place) q := by
    rcases hplace with ⟨ht, ⟨-, rfl | rfl⟩ | ⟨-, -, rfl⟩⟩ | ⟨ht, rfl⟩ | ⟨ht, -, n, -, rfl⟩ |
      ⟨n, ht, rfl | rfl | ⟨x, -, rfl⟩⟩ | ⟨ht | ht | ⟨output, ht⟩, rfl⟩
    all_goals
      exact ⟨h.owners.goto ht rfl rfl rfl rfl rfl,
        h.values.goto ht rfl rfl rfl rfl (by simp) (by simp) (by simp)⟩
  refine ⟨h.alloc, ⟨h.live.chain, h.live.handed⟩, hkept.1, ?_, hkept.2⟩
  have := fun u n ↦ Place.dequeues_of_tail (p := s.place u) (n := n)
  have := h.ends
  constructor <;> grind [Ends]

theorem Inv.take (h : Inv kind s free q last)
    (ht : s.place t = .takes ∨ s.place t = .takesWeak) (hn : s.tail = some n) :
    Inv kind ((s.setTail none).goto t (.reads n)) free q last where
  alloc := h.alloc
  live := ⟨h.live.chain, h.live.handed⟩
  owners := by
    rcases ht with ht | ht
    all_goals exact h.owners.goto ht rfl rfl rfl rfl rfl
  ends := by
    have := h.ends
    constructor <;> grind [Ends]
  values := by
    rcases ht with ht | ht
    all_goals exact h.values.goto ht rfl rfl rfl rfl (by simp) (by simp) (by simp)

theorem Inv.restore (h : Inv kind s free q last) (ht : s.place t = .restores n) :
    Inv kind ((s.setTail (some n)).goto t .fails) free q last where
  alloc := h.alloc
  live := ⟨h.live.chain, h.live.handed⟩
  owners := h.owners.goto ht rfl rfl rfl rfl rfl
  ends := by
    have := h.ends
    constructor <;> grind [Ends]
  values := h.values.goto ht rfl rfl rfl rfl (by simp) (by simp) (by simp)

theorem Inv.front (h : Inv kind s free q last) {x : Nat} (hn : (s.place t).tail = some n)
    (hnext : s.alloc.next n = some x) : ∃ r, q = n :: x :: r := by
  have hhead := h.ends.taken t n hn
  obtain ⟨r, rfl⟩ : ∃ r, q = n :: r := by
    cases q with
    | nil => contradiction
    | cons c r => exact ⟨r, by rw [Option.some.inj hhead]⟩
  have hx := h.live.chain.head_next hnext
  cases r with
  | nil => contradiction
  | cons d r => exact ⟨r, by rw [Option.some.inj hx]⟩

theorem Inv.move (h : Inv kind s free q last) {x : Nat} {left : T} (ht : s.place t = .moves n x) :
    Inv kind ((s.setData x left).goto t (.stores n x (s.data x))) free q last := by
  have hnext := h.ends.next t n x (Or.inl ht)
  obtain ⟨r, rfl⟩ := h.front (t := t) (by grind) hnext
  -- no other consumer has the tail, so that no other value has been moved
  have hothers : ∀ u a b output, s.place u ≠ .stores a b output := by
    have := h.ends.alone t
    grind
  refine ⟨h.alloc, ⟨h.live.chain, h.live.handed⟩, ?_, ?_, ?_⟩
  · exact h.owners.goto ht rfl rfl rfl rfl rfl
  · have := h.ends
    constructor <;> grind [Ends]
  · have hrest := h.values.rest hothers
    -- the moved value is that of the next node only
    have hr : r.map (fun u ↦ if u = x then left else s.data u) = r.map s.data := by
      have hnodup := h.live.chain.nodup
      apply List.map_congr_left
      grind
    have hown := h.owners.own
    have := fun u n ↦ Place.own_of_fresh (p := s.place u) (n := n)
    have := h.values.written
    constructor
    · grind
    · grind
    · exact fun hall ↦ absurd (if_pos rfl) (hall t n x (s.data x))

theorem Inv.store (h : Inv kind s free q last) {x : Nat} {output : T}
    (ht : s.place t = .stores n x output) :
    ∃ r, q = n :: r ∧
      Inv kind (((s.setTail (some x)).taken output).goto t (.frees n output)) free r last := by
  have hnext := h.ends.next t n x (Or.inr ⟨output, ht⟩)
  obtain ⟨r, rfl⟩ := h.front (t := t) (by grind) hnext
  have hnodup := h.live.chain.nodup
  have hothers : ∀ u m, u ≠ t → (s.place u).tail ≠ some m := by
    intro u m hu hm
    exact hu (h.ends.alone u t m n hm (by grind))
  -- the next node becomes the tail, and its value has been taken
  refine ⟨x :: r, rfl, h.alloc, ⟨h.live.chain.tail hnext, ?_⟩, ?_, ?_, ?_⟩
  · have := h.live.handed
    grind
  · have := h.live.handed
    have := fun u n ↦ Place.own_of_fresh (p := s.place u) (n := n)
    have := h.owners
    constructor <;> grind [Owners]
  · have := h.ends
    constructor <;> grind [Ends]
  · have hmoved := h.values.moved t n x output ht
    have := h.values.written
    constructor
    · grind
    · grind
    · intro hall
      rw [hmoved]
      simp

/-! ## Every run -/

/-- A thread that finds no node after the tail finds the queue empty. -/
theorem Inv.empty (h : Inv kind s free q last) (ht : s.place t = .reads n)
    (hnext : s.alloc.next n = none) : s.Empty := by
  have hhead := h.ends.taken t n (by grind)
  -- a node whose link is null is the last one
  have hq : q = [n] := by
    cases q with
    | nil => contradiction
    | cons c r =>
      obtain rfl := Option.some.inj hhead
      cases r with
      | nil => rfl
      | cons d r =>
        rcases h.live.chain.linked c d (Or.inl ⟨rfl, rfl⟩) with hd | ⟨_, hd⟩
        · rw [hnext] at hd
          contradiction
        · contradiction
  have hothers : ∀ u a b output, s.place u ≠ .stores a b output := by
    have := h.ends.alone t
    grind
  have hrest := h.values.rest hothers
  rw [hq] at hrest
  simpa [Empty] using hrest.symm

theorem Inv.enqueue (h : Inv kind s free q last) {input : T}
    (hstep : s.step kind moved (.enqueue input) = some s') : Next kind s s' := by
  simp only [Queueing.step] at hstep
  split at hstep
  · rename_i ht
    have houtside : s.alloc.place producer = .outside := by
      have := h.owners.calls producer
      grind
    rw [Allocating.step, if_pos houtside] at hstep
    cases hstep
    refine ⟨⟨free, q, last, ?_⟩, by grind⟩
    refine h.delegate (h.alloc.alloc houtside) ⟨rfl, fun n _ ↦ rfl, ?_⟩ ?_
      (Or.inl ⟨ht, rfl, input, rfl⟩)
    · grind
    · grind
  · contradiction

theorem Inv.dequeue (h : Inv kind s free q last)
    (hstep : s.step kind moved (.dequeue t) = some s') : Next kind s s' := by
  simp only [Queueing.step] at hstep
  split at hstep
  · cases hstep
    exact ⟨⟨free, q, last, h.goto (by grind)⟩, by grind⟩
  · split at hstep
    · cases hstep
      exact ⟨⟨free, q, last, h.goto (by grind)⟩, by grind⟩
    · contradiction
  · contradiction

theorem Inv.dequeueWeak (h : Inv kind s free q last)
    (hstep : s.step kind moved (.dequeueWeak t) = some s') : Next kind s s' := by
  simp only [Queueing.step] at hstep
  split at hstep
  · cases hstep
    exact ⟨⟨free, q, last, h.goto (by grind)⟩, by grind⟩
  · contradiction

theorem Inv.proceed_allocates (h : Inv kind s free q last) {input : T}
    (ht : s.place t = .allocates input) (hstep : s.step kind moved (.proceed t) = some s') :
    Next kind s s' := by
  have hcalls : (s.alloc.place t).allocs = true := by
    have := h.owners.calls t
    grind
  simp only [Queueing.step, ht, Option.map_eq_some_iff] at hstep
  obtain ⟨a, ha, rfl⟩ := hstep
  refine ⟨?_, by grind⟩
  -- the last step of `alloc` makes the node the producer's own
  by_cases hreturns : ∃ n, s.alloc.place t = .returns n
  · obtain ⟨n, hreturns⟩ := hreturns
    simp only [Allocating.step, hreturns, Option.some.injEq] at ha
    rw [hreturns, ← ha]
    exact ⟨free, q, last, h.obtain ht hreturns⟩
  · have hreturns : ∀ n, s.alloc.place t ≠ .returns n := fun n hn ↦ hreturns ⟨n, hn⟩
    obtain ⟨hframe, hafter⟩ := h.alloc.frame_alloc ha hcalls hreturns
    obtain ⟨free', hfree⟩ := h.alloc.step ha
    refine ⟨free', q, last, h.delegate hfree hframe ?_ (Or.inr (Or.inl ⟨input, ht, ?_⟩))⟩
    · split
      · exact absurd ‹_› (hreturns _)
      · exact hafter
    · split
      · exact absurd ‹_› (hreturns _)
      · rfl

theorem Inv.proceed_freeing (h : Inv kind s free q last) {output : T}
    (ht : s.place t = .freeing output) (hstep : s.step kind moved (.proceed t) = some s') :
    Next kind s s' := by
  have hcalls : (s.alloc.place t).releases = true := by
    have := h.owners.calls t
    grind
  simp only [Queueing.step, ht, Option.map_eq_some_iff] at hstep
  obtain ⟨a, ha, rfl⟩ := hstep
  refine ⟨?_, by grind⟩
  obtain ⟨hframe, hafter⟩ := h.alloc.frame_free ha hcalls
  obtain ⟨free', hfree⟩ := h.alloc.step ha
  refine ⟨free', q, last, h.delegate hfree hframe ?_ (Or.inr (Or.inr ⟨output, ht, ?_⟩))⟩
  · grind
  · grind

theorem Inv.proceed (h : Inv kind s free q last)
    (hstep : s.step kind moved (.proceed t) = some s') : Next kind s s' := by
  cases ht : s.place t with
  | outside =>
    simp only [Queueing.step, ht] at hstep
    contradiction
  | allocates input => exact h.proceed_allocates ht hstep
  | freeing output => exact h.proceed_freeing ht hstep
  | frees n output =>
    have houtside : s.alloc.place t = .outside := by
      have := h.owners.calls t
      grind
    obtain ⟨hhanded, -⟩ := h.owners.own t n (by grind)
    simp only [Queueing.step, ht, Allocating.step, houtside, hhanded] at hstep
    cases hstep
    exact ⟨⟨free, q, last, h.giveBack ht⟩, by grind⟩
  | writes n input =>
    simp only [Queueing.step, ht, Option.some.injEq] at hstep
    subst hstep
    exact ⟨⟨free, q, last, h.write ht⟩, by grind⟩
  | loads n input =>
    simp only [Queueing.step, ht, Option.some.injEq] at hstep
    subst hstep
    exact ⟨⟨free, q, last, h.load ht⟩, by grind⟩
  | links n head input =>
    simp only [Queueing.step, ht, Option.some.injEq] at hstep
    subst hstep
    exact ⟨⟨free, _, n, h.link ht⟩, by grind⟩
  | publishes n =>
    simp only [Queueing.step, ht, Option.some.injEq] at hstep
    subst hstep
    exact ⟨⟨free, q, last, h.publish ht⟩, by grind⟩
  | takes =>
    simp only [Queueing.step, ht] at hstep
    split at hstep
    · cases hstep
      exact ⟨⟨free, q, last, h⟩, fun u hu ↦ Or.inl hu⟩
    · rename_i n hn
      cases hstep
      exact ⟨⟨free, q, last, h.take (Or.inl ht) hn⟩, by grind⟩
  | takesWeak =>
    simp only [Queueing.step, ht] at hstep
    split at hstep
    · cases hstep
      exact ⟨⟨free, q, last, h.goto (by grind)⟩, by grind⟩
    · rename_i n hn
      cases hstep
      exact ⟨⟨free, q, last, h.take (Or.inr ht) hn⟩, by grind⟩
  | loadsTail =>
    have hkind : kind = .spsc := h.ends.loads t ht
    simp only [Queueing.step, ht] at hstep
    split at hstep
    · contradiction
    · rename_i n hn
      cases hstep
      exact ⟨⟨free, q, last, h.goto (by grind)⟩, by grind⟩
  | reads n =>
    have hempty := h.empty ht
    simp only [Queueing.step, ht] at hstep
    split at hstep
    · cases hstep
      exact ⟨⟨free, q, last, h.goto (by grind)⟩, by grind⟩
    · cases hstep
      exact ⟨⟨free, q, last, h.goto (by grind)⟩, by grind⟩
    · cases hstep
      exact ⟨⟨free, q, last, h.goto (by grind)⟩, by grind⟩
  | restores n =>
    simp only [Queueing.step, ht, Option.some.injEq] at hstep
    subst hstep
    exact ⟨⟨free, q, last, h.restore ht⟩, by grind⟩
  | moves n x =>
    simp only [Queueing.step, ht, Option.some.injEq] at hstep
    subst hstep
    exact ⟨⟨free, q, last, h.move ht⟩, by grind⟩
  | stores n x output =>
    simp only [Queueing.step, ht, Option.some.injEq] at hstep
    subst hstep
    obtain ⟨r, -, hr⟩ := h.store ht
    exact ⟨⟨free, r, last, hr⟩, by grind⟩
  | succeeds output | fails | contended =>
    simp only [Queueing.step, ht, Option.some.injEq] at hstep
    subst hstep
    exact ⟨⟨free, q, last, h.goto (by grind)⟩, by grind⟩

theorem Inv.step (h : Inv kind s free q last) {a : Action T}
    (hstep : s.step kind moved a = some s') : Next kind s s' := by
  cases a with
  | enqueue input => exact h.enqueue hstep
  | dequeue t => exact h.dequeue hstep
  | dequeueWeak t => exact h.dequeueWeak hstep
  | proceed t => exact h.proceed hstep

theorem EmptyDuring.append {as : List (Action T)} {a : Action T}
    (h : EmptyDuring kind moved blank as t) (ha : a.caller ≠ some t) :
    EmptyDuring kind moved blank (as ++ [a]) t := by
  obtain ⟨bs, cs, s, rfl, hrun, hempty, hdequeues, hcs⟩ := h
  refine ⟨bs, cs ++ [a], s, List.append_assoc .., hrun, hempty, hdequeues, ?_⟩
  intro b hb
  rcases List.mem_append.mp hb with hb | hb
  · exact hcs b hb
  · exact List.mem_singleton.mp hb ▸ ha

end Queueing

end ListQueue

end Ustevent
