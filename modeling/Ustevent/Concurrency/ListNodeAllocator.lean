import Mathlib.Data.List.Basic
import Ustevent.Reasoning.Chains
import Ustevent.Reasoning.Runs

/-!
# The node allocator of the list queues

`ListNodeAllocator` keeps its free nodes in a chain from `_free_list_tail` to `_free_list_head`.  A
thread takes the tail away to dequeue a node, and exchanges the head before it links the chain to
what it has appended.  Any number of threads call `alloc` and `free`, and every atomic access is a
step of its own.
-/

namespace Ustevent

open Reasoning

namespace ListNodeAllocator

/-- Where a thread is in `alloc` or `free`, with the pointers that it has read. -/
inductive Place
  | outside
  /-- exchanges `_free_list_tail` for null, until it gets a node -/
  | dequeues
  | reads (node : Nat)
  /-- `_next` was null -/
  | restores (node : Nat)
  | advances (node next : Nat)
  | clears (node : Nat)
  /-- there was no node to dequeue -/
  | grows
  /-- `new_nodes` begins at `base` and is linked -/
  | publishes (base : Nat)
  | connects (base prevHead : Nat)
  | returns (node : Nat)
  /-- the first step of `free` -/
  | resets (node : Nat)
  | frees (node : Nat)
  | links (node prevHead : Nat)
deriving DecidableEq

/-- The thread is in `alloc`. -/
@[grind] def Place.allocs : Place → Bool
  | .dequeues | .reads _ | .restores _ | .advances _ _ | .clears _ | .grows | .publishes _
  | .connects _ _ | .returns _ => true
  | .outside | .resets _ | .frees _ | .links _ _ => false

/-- The thread is in `free`. -/
@[grind] def Place.releases : Place → Bool
  | .resets _ | .frees _ | .links _ _ => true
  | _ => false

/-- The node that the thread has got from `_free_list_tail` and has to replace there. -/
@[grind] def Place.tail : Place → Option Nat
  | .reads n | .restores n | .advances n _ => some n
  | _ => none

/-- The nodes that the call has for itself. -/
@[grind] def Place.Holds (allocSize : Nat) : Place → Nat → Prop
  | .clears n, x | .returns n, x | .resets n, x | .frees n, x => x = n
  | .publishes base, x => base ≤ x ∧ x < base + allocSize
  | .connects base _, x => x = base
  | _, _ => False

/-- The link that the thread is about to store. -/
@[grind] def Place.link (allocSize : Nat) : Place → Option (Nat × Nat)
  | .connects base prevHead => some (prevHead, base + allocSize - 1)
  | .links n prevHead => some (prevHead, n)
  | _ => none

/-- The allocator and the threads.  Nodes are numbered in the order in which they are created, and
`handed` is history: the nodes that the callers have. -/
structure Allocating where
  allocSize : Nat
  next : Nat → Option Nat
  freeListTail : Option Nat
  freeListHead : Nat
  created : Nat
  place : Nat → Place
  handed : Nat → Bool

inductive Action
  | alloc (thread : Nat)
  | free (thread node : Nat)
  /-- the next step of the call that the thread is in -/
  | proceed (thread : Nat)
deriving DecidableEq

namespace Allocating

/-- Node 0 is the one that `_head` and `_tail` are given to the user with. -/
def initial (allocSize : Nat) : Allocating where
  allocSize := allocSize
  next _ := none
  freeListTail := some 1
  freeListHead := 1
  created := 2
  place _ := .outside
  handed n := n = 0

abbrev setNext (s : Allocating) (n : Nat) (next : Option Nat) : Allocating :=
  { s with next := fun u ↦ if u = n then next else s.next u }

abbrev setTail (s : Allocating) (node : Option Nat) : Allocating :=
  { s with freeListTail := node }

abbrev setHead (s : Allocating) (node : Nat) : Allocating :=
  { s with freeListHead := node }

abbrev goto (s : Allocating) (t : Nat) (place : Place) : Allocating :=
  { s with place := fun u ↦ if u = t then place else s.place u }

abbrev setHanded (s : Allocating) (n : Nat) (handed : Bool) : Allocating :=
  { s with handed := fun u ↦ if u = n then handed else s.handed u }

/-- `new_nodes`, with the links that are stored before anyone else sees them: the nodes 0 and 1 have
none. -/
abbrev grow (s : Allocating) : Allocating :=
  { s with
    created := s.created + s.allocSize
    next := fun u ↦
      if u < s.created ∨ s.created + s.allocSize ≤ u then s.next u
      else if u < s.created + 2 then none
      else some (u - 1) }

def step (s : Allocating) : Action → Option Allocating
  | .alloc t => if s.place t = .outside then some (s.goto t .dequeues) else none
  | .free t n =>
    if s.place t = .outside ∧ s.handed n then some ((s.setHanded n false).goto t (.resets n))
    else none
  | .proceed t =>
    match s.place t with
    | .outside => none
    | .dequeues =>
      match s.freeListTail with
      -- another thread has the tail
      | none => some s
      | some n => some ((s.setTail none).goto t (.reads n))
    | .reads n =>
      match s.next n with
      -- the last node stays, as the link of what is appended next is stored in it
      | none => some (s.goto t (.restores n))
      | some next => some (s.goto t (.advances n next))
    | .restores n => some ((s.setTail (some n)).goto t .grows)
    | .advances n next => some ((s.setTail (some next)).goto t (.clears n))
    | .clears n => some ((s.setNext n none).goto t (.returns n))
    | .grows => some (s.grow.goto t (.publishes s.created))
    -- `new_nodes[0]` is for the caller, and `new_nodes[1]` becomes the end of the free list
    | .publishes base => some ((s.setHead (base + 1)).goto t (.connects base s.freeListHead))
    | .connects base prevHead =>
      some ((s.setNext prevHead (some (base + s.allocSize - 1))).goto t (.returns base))
    | .returns n => some ((s.setHanded n true).goto t .outside)
    | .resets n => some ((s.setNext n none).goto t (.frees n))
    | .frees n => some ((s.setHead n).goto t (.links n s.freeListHead))
    | .links n prevHead => some ((s.setNext prevHead (some n)).goto t .outside)

abbrev Holds (s : Allocating) (t n : Nat) : Prop := (s.place t).Holds s.allocSize n

abbrev link (s : Allocating) (t : Nat) : Option (Nat × Nat) := (s.place t).link s.allocSize

/-- The free nodes in the order of the chain, some links of which are about to be stored.  The chain
begins at `_free_list_tail`, or at the node that a thread has taken from there. -/
structure FreeChain (s : Allocating) (l : List Nat) : Prop where
  chain : Chained s.next s.link l s.freeListHead
  tail : ∀ n, s.freeListTail = some n → l.head? = some n
  taken : ∀ t n, (s.place t).tail = some n → l.head? = some n

/-- Each node is in one place only. -/
structure Parted (s : Allocating) (l : List Nat) : Prop where
  handed : ∀ n, s.handed n = true → n ∉ l ∧ ∀ t, ¬ s.Holds t n
  free : ∀ n, n ∈ l → ∀ t, ¬ s.Holds t n
  held : ∀ n t u, s.Holds t n → s.Holds u n → t = u
  all : ∀ n, n < s.created ↔ s.handed n = true ∨ n ∈ l ∨ ∃ t, s.Holds t n

/-- What the allocator is for. -/
structure Sound (s : Allocating) : Prop where
  fresh : ∀ t n, s.place t = .returns n → s.handed n = false ∧ s.next n = none
  parted : ∃ l, FreeChain s l ∧ Parted s l ∧
    ((∀ t, s.place t = .outside) → s.freeListTail = l.head? ∧ l.getLast? = some s.freeListHead ∧
      (∀ a b, Adjacent l a b → s.next a = some b) ∧ s.next s.freeListHead = none)

/-! ## The invariant -/

/-- What the threads have read is still so. -/
structure Views (s : Allocating) : Prop where
  lock : s.freeListTail = none → ∃ t n, (s.place t).tail = some n
  locked : ∀ t n, (s.place t).tail = some n → s.freeListTail = none
  alone : ∀ t u m n, (s.place t).tail = some m → (s.place u).tail = some n → t = u
  advances : ∀ t n next, s.place t = .advances n next → s.next n = some next
  cleared : ∀ t n, s.place t = .returns n ∨ s.place t = .frees n ∨
    (∃ prev, s.place t = .connects n prev) → s.next n = none
  segment : ∀ t base x, s.place t = .publishes base → base ≤ x → x < base + s.allocSize →
    s.next x = if x < base + 2 then none else some (x - 1)

structure Inv (s : Allocating) (l : List Nat) : Prop where
  size : 2 ≤ s.allocSize
  chain : FreeChain s l
  parted : Parted s l
  views : Views s

variable {s s' : Allocating} {l : List Nat} {t n m : Nat}

theorem inv_initial {allocSize : Nat} (h : 2 ≤ allocSize) : Inv (initial allocSize) [1] where
  size := h
  chain := by
    refine ⟨⟨by simp, by simp [initial], rfl, ?_, ?_, ?_⟩, ?_, ?_⟩
    · simp
    · simp [initial, Place.link]
    · simp [initial, Place.link]
    · simp [initial]
    · simp [initial, Place.tail]
  parted := by
    refine ⟨?_, ?_, ?_, ?_⟩
    · simp [initial, Place.Holds]
    · simp [initial, Place.Holds]
    · simp [initial, Place.Holds]
    · intro n
      simp only [initial, Place.Holds, decide_eq_true_eq, List.mem_singleton, exists_false, or_false]
      omega
  views := by constructor <;> simp [initial, Place.tail]

theorem FreeChain.mem (h : FreeChain s l) (t n : Nat) (ht : (s.place t).tail = some n) : n ∈ l :=
  List.mem_of_head? (h.taken t n ht)

theorem FreeChain.congr (h : FreeChain s l) (hnext : ∀ a ∈ l, s'.next a = s.next a)
    (hlink : ∀ t, s'.link t = s.link t) (hhead : s'.freeListHead = s.freeListHead)
    (htail : s'.freeListTail = s.freeListTail)
    (htaken : ∀ t n, (s'.place t).tail = some n → (s.place t).tail = some n) : FreeChain s' l where
  chain := hhead ▸ h.chain.congr hnext hlink
  tail := htail ▸ h.tail
  taken t n hn := h.taken t n (htaken t n hn)

theorem FreeChain.store (h : FreeChain s l) {a b : Nat} (hlink : s.link t = some (a, b))
    {place : Place} (hdone : place.link s.allocSize = none) (htail : place.tail = none) :
    FreeChain ((s.setNext a (some b)).goto t place) l where
  chain := h.chain.link hlink (by grind) (by grind) (by grind) (by grind)
  tail := h.tail
  taken := by
    have := h.taken
    grind

theorem Inv.ne_linked (h : Inv s l) {a b : Nat} (hlink : s.link t = some (a, b)) (u x : Nat)
    (hx : s.Holds u x) : x ≠ a := by
  rintro rfl
  exact h.parted.free x (h.chain.chain.waiting t x b hlink).2.mem_left u hx

theorem Parted.congr (h : Parted s l) (hhanded : s'.handed = s.handed)
    (hcreated : s'.created = s.created) (hholds : ∀ t n, s'.Holds t n ↔ s.Holds t n) :
    Parted s' l where
  handed n hn := by
    rw [hhanded] at hn
    exact ⟨(h.handed n hn).1, fun t ht ↦ (h.handed n hn).2 t ((hholds t n).mp ht)⟩
  free n hn t ht := h.free n hn t ((hholds t n).mp ht)
  held n t u ht hu := h.held n t u ((hholds t n).mp ht) ((hholds u n).mp hu)
  all n := by
    rw [hcreated, hhanded, h.all n]
    simp only [hholds]

/-- A node that is outside of the chain is not the one that a thread has taken from there. -/
theorem Inv.ne_taken (h : Inv s l) (hn : n ∉ l) (u x : Nat) (hx : (s.place u).tail = some x) :
    x ≠ n := fun heq ↦ hn (heq ▸ h.chain.mem u x hx)

/-! ## The steps of alloc -/

theorem Inv.alloc (h : Inv s l) (ht : s.place t = .outside) : Inv (s.goto t .dequeues) l where
  size := h.size
  chain := h.chain.congr (fun _ _ ↦ rfl) (by grind) rfl rfl (by grind)
  parted := h.parted.congr rfl rfl (by grind)
  views := by
    have := h.views
    constructor <;> grind [Views]

/-- The thread has the tail of the free list to itself. -/
theorem Inv.take (h : Inv s l) (ht : s.place t = .dequeues) (hn : s.freeListTail = some n) :
    Inv ((s.setTail none).goto t (.reads n)) l where
  size := h.size
  chain := by
    refine ⟨h.chain.chain.congr (fun a _ ↦ rfl) ?_, ?_, ?_⟩
    · grind
    · grind
    · have := h.chain.taken
      have := h.chain.tail n hn
      grind
  parted := h.parted.congr rfl rfl (by grind)
  -- the thread is the one that has the tail from now on
  views := by
    have := h.views
    constructor <;> grind [Views]

theorem Inv.look (h : Inv s l) {place : Place} (ht : s.place t = .reads n)
    (hto : place = .restores n ∨ ∃ next, place = .advances n next ∧ s.next n = some next) :
    Inv (s.goto t place) l where
  size := h.size
  chain := h.chain.congr (fun _ _ ↦ rfl) (by grind) rfl rfl (by grind)
  parted := h.parted.congr rfl rfl (by grind)
  views := by
    have := h.views
    constructor <;> grind [Views]

theorem Inv.restore (h : Inv s l) (ht : s.place t = .restores n) :
    Inv ((s.setTail (some n)).goto t .grows) l where
  size := h.size
  chain := by
    have := h.chain.taken
    refine ⟨h.chain.chain.congr (fun a _ ↦ rfl) ?_, ?_, ?_⟩
    · grind
    · grind
    · grind
  parted := h.parted.congr rfl rfl (by grind)
  views := by
    have := h.views
    constructor <;> grind [Views]

/-- The first node of the free list becomes the thread's own; its link is there, and the chain begins
where it leads. -/
theorem Inv.advance (h : Inv s l) {next : Nat} (ht : s.place t = .advances n next) :
    ∃ rest, l = n :: rest ∧ Inv ((s.setTail (some next)).goto t (.clears n)) rest := by
  -- the node that has been taken is the first one of the list
  obtain ⟨rest, rfl⟩ : ∃ rest, l = n :: rest := by
    have hhead := h.chain.taken t n (by grind)
    cases l with
    | nil => contradiction
    | cons x rest => exact ⟨rest, by rw [Option.some.inj hhead]⟩
  have hnext := h.views.advances t n next ht
  have hnotin := (List.nodup_cons.mp h.chain.chain.nodup).1
  refine ⟨rest, rfl, h.size, ⟨?_, ?_, ?_⟩, ?_, ?_⟩
  · refine (h.chain.chain.tail hnext).congr (fun a _ ↦ rfl) ?_
    grind
  · have := h.chain.chain.head_next hnext
    grind
  · have := h.views.alone t
    grind
  · have := h.parted
    constructor <;> grind [Parted]
  · have := h.views
    constructor <;> grind [Views]

/-- The link of the node that has been dequeued is cleared before the call returns it. -/
theorem Inv.clear (h : Inv s l) (ht : s.place t = .clears n) :
    Inv ((s.setNext n none).goto t (.returns n)) l where
  size := h.size
  chain := by
    have hfree := h.parted.free n
    exact h.chain.congr (by grind) (by grind) rfl rfl (by grind)
  parted := h.parted.congr rfl rfl (by grind)
  views := by
    have hne := h.ne_taken fun hn ↦ h.parted.free n hn t (by grind)
    -- no other call has the node
    have hothers : ∀ u, u ≠ t → ¬ s.Holds u n := by
      have := h.parted.held n t
      grind
    have := h.views
    constructor <;> grind [Views]

/-- The nodes that are created are linked to each other and to no other node. -/
theorem Inv.grow (h : Inv s l) (ht : s.place t = .grows) :
    Inv (s.grow.goto t (.publishes s.created)) l where
  size := h.size
  chain := by
    -- all nodes that there have been have smaller numbers
    have := h.parted.all
    exact h.chain.congr (by grind) (by grind) rfl rfl (by grind)
  parted := by
    have := h.parted
    constructor <;> grind [Parted]
  views := by
    have := h.size
    have hne : ∀ u x, (s.place u).tail = some x → x < s.created := by
      have := h.chain.mem
      have := h.parted.all
      grind
    have hothers : ∀ u x, s.Holds u x → x < s.created := by
      have := h.parted.all
      grind
    have := h.views
    constructor <;> grind [Views]

/-- The nodes that follow the first one of `new_nodes`, in the order of their links. -/
def segment (base : Nat) : Nat → List Nat
  | 0 => []
  | k + 1 => (base + k + 1) :: segment base k

@[simp] theorem mem_segment {base k : Nat} : n ∈ segment base k ↔ base < n ∧ n ≤ base + k := by
  induction k with
  | zero =>
    simp only [segment, List.not_mem_nil, false_iff]
    omega
  | succ k ih =>
    rw [segment, List.mem_cons, ih]
    omega

theorem nodup_segment (base k : Nat) : (segment base k).Nodup := by
  induction k with
  | zero => exact List.nodup_nil
  | succ k ih =>
    rw [segment, List.nodup_cons, mem_segment]
    exact ⟨by omega, ih⟩

theorem head?_segment (base k : Nat) : (segment base (k + 1)).head? = some (base + k + 1) := rfl

theorem getLast?_segment (base k : Nat) : (segment base (k + 1)).getLast? = some (base + 1) := by
  induction k with
  | zero => rfl
  | succ k ih => rw [segment, segment, List.getLast?_cons_cons, ← segment, ih]

theorem adjacent_segment {base k a b : Nat} (h : Adjacent (segment base k) a b) :
    base + 2 ≤ a ∧ a ≤ base + k ∧ b = a - 1 := by
  induction k with
  | zero => exact absurd h adjacent_nil
  | succ k ih =>
    rw [segment, adjacent_cons] at h
    rcases h with ⟨rfl, hb⟩ | h
    · cases k with
      | zero => contradiction
      | succ k =>
        rw [head?_segment, Option.some.injEq] at hb
        omega
    · have := ih h
      omega

/-- The head of the free list moves to the end of the new nodes, but the first of these. -/
theorem Inv.publish (h : Inv s l) {base : Nat} (ht : s.place t = .publishes base) :
    Inv ((s.setHead (base + 1)).goto t (.connects base s.freeListHead))
      (l ++ segment base (s.allocSize - 1)) := by
  have hsize := h.size
  have hsegment := h.views.segment t base
  obtain ⟨k, hk⟩ : ∃ k, s.allocSize - 1 = k + 1 := ⟨s.allocSize - 2, by omega⟩
  -- the new nodes are the thread's own up to here
  have hapart : ∀ x ∈ l, x ∉ segment base (s.allocSize - 1) := by
    intro x hx
    have := h.parted.free x hx t
    rw [mem_segment]
    grind
  refine ⟨h.size, ⟨?_, ?_, ?_⟩, ?_, ?_⟩
  -- the link from the old head to the segment is missing
  · refine h.chain.chain.append (t := t) (b := base + s.allocSize - 1) ?_ ?_ ?_ ?_ ?_ ?_ ?_ ?_
    · grind
    · exact List.nodup_append'.mpr ⟨h.chain.chain.nodup, nodup_segment base _, hapart⟩
    · rw [hk, head?_segment, Option.some.injEq]
      omega
    · rw [hk, getLast?_segment]
    · intro a c hac
      have := adjacent_segment hac
      grind
    · grind
    · grind
    · grind
  · have := h.chain.tail
    grind
  · have := h.chain.taken
    grind
  · have := h.parted
    have := @mem_segment
    constructor <;> grind [Parted]
  · have := h.views
    constructor <;> grind [Views]

theorem Inv.connect (h : Inv s l) {base prev : Nat} (ht : s.place t = .connects base prev) :
    Inv ((s.setNext prev (some (base + s.allocSize - 1))).goto t (.returns base)) l := by
  have hlink : s.link t = some (prev, base + s.allocSize - 1) := by grind
  refine ⟨h.size, h.chain.store hlink rfl rfl, h.parted.congr rfl rfl (by grind), ?_⟩
  -- the link was null, so that no other thread has read it
  have hprev := (h.chain.chain.waiting t _ _ hlink).1
  have hne := h.ne_linked hlink
  have := h.views
  constructor <;> grind [Views]

theorem Inv.ret (h : Inv s l) (ht : s.place t = .returns n) :
    Inv ((s.setHanded n true).goto t .outside) l where
  size := h.size
  chain := h.chain.congr (fun _ _ ↦ rfl) (by grind) rfl rfl (by grind)
  parted := by
    have := h.parted
    constructor <;> grind [Parted]
  views := by
    have := h.views
    constructor <;> grind [Views]

/-! ## The steps of free -/

theorem Inv.free (h : Inv s l) (ht : s.place t = .outside) (hn : s.handed n = true) :
    Inv ((s.setHanded n false).goto t (.resets n)) l where
  size := h.size
  chain := h.chain.congr (fun _ _ ↦ rfl) (by grind) rfl rfl (by grind)
  parted := by
    have := h.parted
    constructor <;> grind [Parted]
  views := by
    have := h.views
    constructor <;> grind [Views]

/-- The node that is given back ends a chain, whatever its user has stored in it. -/
theorem Inv.reset (h : Inv s l) (ht : s.place t = .resets n) :
    Inv ((s.setNext n none).goto t (.frees n)) l where
  size := h.size
  chain := by
    have hfree := h.parted.free n
    exact h.chain.congr (by grind) (by grind) rfl rfl (by grind)
  parted := h.parted.congr rfl rfl (by grind)
  views := by
    have hne := h.ne_taken fun hn ↦ h.parted.free n hn t (by grind)
    have hothers : ∀ u, u ≠ t → ¬ s.Holds u n := by
      have := h.parted.held n t
      grind
    have := h.views
    constructor <;> grind [Views]

theorem Inv.append (h : Inv s l) (ht : s.place t = .frees n) :
    Inv ((s.setHead n).goto t (.links n s.freeListHead)) (l ++ [n]) := by
  have hcleared := h.views.cleared t n
  -- the thread has the node for itself, so that it is not free already
  have hnotin : n ∉ l := fun hn ↦ h.parted.free n hn t (by grind)
  refine ⟨h.size, ⟨?_, ?_, ?_⟩, ?_, ?_⟩
  -- the segment is the node alone
  · refine h.chain.chain.append (t := t) (b := n) ?_ ?_ rfl rfl ?_ ?_ ?_ ?_
    · grind
    · exact List.nodup_append'.mpr
        ⟨h.chain.chain.nodup, List.nodup_singleton n, by simpa using hnotin⟩
    · simp
    · grind
    · grind
    · grind
  · have := h.chain.tail
    grind
  · have := h.chain.taken
    grind
  · have := h.parted
    constructor <;> grind [Parted]
  · have := h.views
    constructor <;> grind [Views]

theorem Inv.link (h : Inv s l) {prev : Nat} (ht : s.place t = .links n prev) :
    Inv ((s.setNext prev (some n)).goto t .outside) l := by
  have hlink : s.link t = some (prev, n) := by grind
  refine ⟨h.size, h.chain.store hlink rfl rfl, h.parted.congr rfl rfl (by grind), ?_⟩
  -- the link was null, so that no other thread has read it
  have hprev := (h.chain.chain.waiting t _ _ hlink).1
  have hne := h.ne_linked hlink
  have := h.views
  constructor <;> grind [Views]

/-! ## Every run -/

theorem Inv.step (h : Inv s l) {a : Action} (hstep : s.step a = some s') : ∃ l', Inv s' l' := by
  cases a with
  | alloc t =>
    rw [Allocating.step, Option.ite_none_right_eq_some] at hstep
    obtain ⟨ht, hstep⟩ := hstep
    cases hstep
    exact ⟨l, h.alloc ht⟩
  | free t n =>
    rw [Allocating.step, Option.ite_none_right_eq_some] at hstep
    obtain ⟨⟨ht, hn⟩, hstep⟩ := hstep
    cases hstep
    exact ⟨l, h.free ht hn⟩
  | proceed t =>
    cases ht : s.place t with
    | outside =>
      simp only [Allocating.step, ht] at hstep
      contradiction
    | dequeues =>
      simp only [Allocating.step, ht] at hstep
      split at hstep
      · cases hstep
        exact ⟨l, h⟩
      · rename_i n hn
        cases hstep
        exact ⟨l, h.take ht hn⟩
    | reads n =>
      simp only [Allocating.step, ht] at hstep
      split at hstep
      · cases hstep
        exact ⟨l, h.look ht (Or.inl rfl)⟩
      · rename_i next hnext
        cases hstep
        exact ⟨l, h.look ht (Or.inr ⟨next, rfl, hnext⟩)⟩
    | restores n =>
      simp only [Allocating.step, ht, Option.some.injEq] at hstep
      exact ⟨l, hstep ▸ h.restore ht⟩
    | advances n next =>
      simp only [Allocating.step, ht, Option.some.injEq] at hstep
      obtain ⟨rest, -, hrest⟩ := h.advance ht
      exact ⟨rest, hstep ▸ hrest⟩
    | clears n =>
      simp only [Allocating.step, ht, Option.some.injEq] at hstep
      exact ⟨l, hstep ▸ h.clear ht⟩
    | grows =>
      simp only [Allocating.step, ht, Option.some.injEq] at hstep
      exact ⟨l, hstep ▸ h.grow ht⟩
    | publishes base =>
      simp only [Allocating.step, ht, Option.some.injEq] at hstep
      exact ⟨_, hstep ▸ h.publish ht⟩
    | connects base prev =>
      simp only [Allocating.step, ht, Option.some.injEq] at hstep
      exact ⟨l, hstep ▸ h.connect ht⟩
    | returns n =>
      simp only [Allocating.step, ht, Option.some.injEq] at hstep
      exact ⟨l, hstep ▸ h.ret ht⟩
    | resets n =>
      simp only [Allocating.step, ht, Option.some.injEq] at hstep
      exact ⟨l, hstep ▸ h.reset ht⟩
    | frees n =>
      simp only [Allocating.step, ht, Option.some.injEq] at hstep
      exact ⟨_, hstep ▸ h.append ht⟩
    | links n prev =>
      simp only [Allocating.step, ht, Option.some.injEq] at hstep
      exact ⟨l, hstep ▸ h.link ht⟩

theorem Inv.sound (h : Inv s l) : Sound s where
  fresh t n ht := by
    have := h.parted.handed n
    have := h.views.cleared t n
    grind
  parted := by
    refine ⟨l, h.chain, h.parted, fun hall ↦ ⟨?_, h.chain.chain.getLast, ?_, h.chain.chain.next_last⟩⟩
    -- outside of all calls, nobody has taken the tail and no link is missing
    · cases htail : s.freeListTail with
      | none =>
        obtain ⟨t, n, ht⟩ := h.views.lock htail
        rw [hall t] at ht
        contradiction
      | some n => exact (h.chain.tail n htail).symm
    · intro a b hab
      refine (h.chain.chain.linked a b hab).resolve_right ?_
      rintro ⟨t, ht⟩
      rw [Allocating.link, hall t] at ht
      contradiction

theorem inv_of_run {allocSize : Nat} (hsize : 2 ≤ allocSize) {as : List Action} {s : Allocating}
    (hrun : run step (initial allocSize) as = some s) : ∃ l, Inv s l :=
  invariant_of_run (fun s ↦ ∃ l, Inv s l) (fun _ _ _ ⟨_, h⟩ hstep ↦ h.step hstep)
    ⟨[1], inv_initial hsize⟩ hrun

/-! ## What a caller may rely on -/

theorem Inv.setNext (h : Inv s l) (hn : s.handed n = true) (next : Option Nat) :
    Inv (s.setNext n next) l := by
  obtain ⟨hnotin, hothers⟩ := h.parted.handed n hn
  have hparted := h.parted
  refine ⟨h.size, ⟨?_, h.chain.tail, h.chain.taken⟩, ⟨hparted.1, hparted.2, hparted.3, hparted.4⟩, ?_⟩
  · refine h.chain.chain.congr ?_ (fun t ↦ rfl)
    grind
  -- a node that has been taken from the tail is free
  · have hne : ∀ u x, (s.place u).tail = some x → x ≠ n := by
      have := h.chain.mem
      grind
    have := h.views
    constructor <;> grind [Views]

/-- The steps in between leave the nodes of the callers as they are. -/
structure Frame (s s' : Allocating) (t : Nat) : Prop where
  handed : s'.handed = s.handed
  next : ∀ n, s.handed n = true → s'.next n = s.next n
  place : ∀ u, u ≠ t → s'.place u = s.place u

theorem Inv.frame_alloc (h : Inv s l) (hstep : s.step (.proceed t) = some s')
    (ht : (s.place t).allocs = true) (hreturns : ∀ n, s.place t ≠ .returns n) :
    Frame s s' t ∧ (s'.place t).allocs = true := by
  have hin : ∀ a ∈ l, s.handed a = false := by
    have := h.parted.handed
    grind
  have hheld : ∀ n, s.Holds t n → s.handed n = false := by
    have := h.parted.handed
    grind
  have hall := h.parted.all
  have hlink : ∀ a b, s.link t = some (a, b) → s.handed a = false :=
    fun a b hab ↦ hin a (h.chain.chain.waiting t a b hab).2.mem_left
  cases hplace : s.place t with
  | outside | resets n | frees n | links n prev =>
    rw [hplace] at ht
    contradiction
  | returns n => exact absurd hplace (hreturns n)
  | dequeues | reads n =>
    simp only [Allocating.step, hplace] at hstep
    split at hstep
    · cases hstep
      refine ⟨⟨rfl, ?_, ?_⟩, ?_⟩ <;> grind
    · cases hstep
      refine ⟨⟨rfl, ?_, ?_⟩, ?_⟩ <;> grind
  | restores n | advances n next | clears n | grows | publishes base =>
    simp only [Allocating.step, hplace, Option.some.injEq] at hstep
    subst hstep
    refine ⟨⟨rfl, ?_, ?_⟩, ?_⟩ <;> grind
  | connects base prev =>
    simp only [Allocating.step, hplace, Option.some.injEq] at hstep
    subst hstep
    have := hlink prev (base + s.allocSize - 1) (by rw [Allocating.link, hplace]; rfl)
    refine ⟨⟨rfl, ?_, ?_⟩, ?_⟩ <;> grind

theorem Inv.frame_free (h : Inv s l) (hstep : s.step (.proceed t) = some s')
    (ht : (s.place t).releases = true) :
    Frame s s' t ∧ ((s'.place t).releases = true ∨ s'.place t = .outside) := by
  have hin : ∀ a ∈ l, s.handed a = false := by
    have := h.parted.handed
    grind
  have hheld : ∀ n, s.Holds t n → s.handed n = false := by
    have := h.parted.handed
    grind
  have hlink : ∀ a b, s.link t = some (a, b) → s.handed a = false :=
    fun a b hab ↦ hin a (h.chain.chain.waiting t a b hab).2.mem_left
  cases hplace : s.place t with
  | resets n | frees n =>
    simp only [Allocating.step, hplace, Option.some.injEq] at hstep
    subst hstep
    refine ⟨⟨rfl, ?_, ?_⟩, ?_⟩ <;> grind
  | links n prev =>
    simp only [Allocating.step, hplace, Option.some.injEq] at hstep
    subst hstep
    have := hlink prev n (by rw [Allocating.link, hplace]; rfl)
    refine ⟨⟨rfl, ?_, ?_⟩, ?_⟩ <;> grind
  | _ =>
    rw [hplace] at ht
    contradiction

/-! ## Object pools -/

/-- `ObjectPool` hands out the addresses of the data of the nodes, at `offset` in these. -/
def object (offset node : Nat) : Nat := node + offset

/-- The node of an object. -/
def node (offset object : Nat) : Nat := object - offset

theorem node_object (offset n : Nat) : node offset (object offset n) = n :=
  Nat.add_sub_cancel n offset

/-- The call of the allocator; `free` of a pool is called with an object. -/
def ofPool (offset : Nat) : Action → Action
  | .free t object => .free t (node offset object)
  | .alloc t => .alloc t
  | .proceed t => .proceed t

def poolStep (offset : Nat) (s : Allocating) (a : Action) : Option Allocating :=
  s.step (ofPool offset a)

/-- Each node is in one place in every state of a run, and fresh where `alloc` returns it, with an
allocator or with a pool. -/
theorem sound_of_run {allocSize : Nat} (hsize : 2 ≤ allocSize) :
    (∀ as s, run step (initial allocSize) as = some s → Sound s) ∧
      ∀ offset as s, run (poolStep offset) (initial allocSize) as = some s → Sound s := by
  constructor
  · intro as s hrun
    obtain ⟨l, h⟩ := inv_of_run hsize hrun
    exact h.sound
  · intro offset as s hrun
    obtain ⟨l, h⟩ : ∃ l, Inv s l :=
      invariant_of_run (fun s ↦ ∃ l, Inv s l) (fun _ _ _ ⟨_, h⟩ hstep ↦ h.step hstep)
        ⟨[1], inv_initial hsize⟩ hrun
    exact h.sound

/-- Thread 0 finds the list with one node, which it may not have, and has got the head when thread 1
frees node 0; it links its new nodes after thread 1 has linked the freed one to them. -/
def growAndFree : List Action :=
  [.alloc 0, .proceed 0, .proceed 0, .proceed 0, .proceed 0, .proceed 0, .free 1 0, .proceed 1,
    .proceed 1, .proceed 1, .proceed 0, .proceed 0]

theorem sound_of_run_growAndFree :
    ∃ s, run step (initial 2) growAndFree = some s ∧ s.handed 2 = true ∧ Sound s :=
  ⟨_, rfl, rfl, (sound_of_run (by decide : 2 ≤ 2)).1 growAndFree _ rfl⟩

end Allocating

end ListNodeAllocator

end Ustevent
