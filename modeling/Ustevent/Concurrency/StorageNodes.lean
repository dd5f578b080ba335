import Ustevent.Concurrency.ListNodeAllocator

/-!
# The storage of the node allocator

`ListNodeAllocator` keeps the vectors that its nodes lie in as the elements of another chain, from
`_storage_tail` to `_storage_head`, for its destructor.  A call of `alloc` that has grown the free
list appends a `StorageNode` in two steps before it returns.
-/

namespace Ustevent

open Reasoning

namespace ListNodeAllocator

def Action.thread : Action → Nat
  | .alloc t | .free t _ | .proceed t => t

/-- Where a thread is with the nodes that it has connected to the free list. -/
inductive StoragePlace
  | nothing
  /-- makes a storage node of them and exchanges `_storage_head` -/
  | stores
  | links (store prevHead : Nat)
deriving DecidableEq

/-- An allocator with its storage nodes, which are numbered in the order in which they are
created. -/
structure Storing where
  allocating : Allocating
  next : Nat → Option Nat
  storageHead : Nat
  storageTail : Nat
  created : Nat
  place : Nat → StoragePlace

namespace Storing

abbrev goto (s : Storing) (t : Nat) (place : StoragePlace) : Storing :=
  { s with place := fun u ↦ if u = t then place else s.place u }

/-- `_storage_head.exchange(new StorageNode(...))` -/
def exchange (s : Storing) (t : Nat) : Storing :=
  { s with
    next := fun n ↦ if n = s.created then none else s.next n
    storageHead := s.created
    created := s.created + 1
    place := fun u ↦ if u = t then .links s.created s.storageHead else s.place u }

/-- `prev_head->_next.store(...)` -/
def link (s : Storing) (t store prevHead : Nat) : Storing :=
  { s with
    next := fun n ↦ if n = prevHead then some store else s.next n
    place := fun u ↦ if u = t then .nothing else s.place u }

/-- The members before the body of the constructor: one storage node without nodes. -/
def members (allocSize : Nat) : Storing where
  allocating := Allocating.initial allocSize
  next _ := none
  storageHead := 0
  storageTail := 0
  created := 1
  place _ := .nothing

/-- The constructor stores the nodes 0 and 1. -/
def create (allocSize : Nat) : Storing := ((members allocSize).exchange 0).link 0 1 0

def step (s : Storing) : Action → Option Storing
  | .alloc t => (s.allocating.step (.alloc t)).map fun a ↦ { s with allocating := a }
  | .free t n => (s.allocating.step (.free t n)).map fun a ↦ { s with allocating := a }
  | .proceed t =>
    match s.place t with
    | .stores => some (s.exchange t)
    | .links store prevHead => some (s.link t store prevHead)
    | .nothing =>
      (s.allocating.step (.proceed t)).map fun a ↦
        match s.allocating.place t with
        | .connects _ _ => { s.goto t .stores with allocating := a }
        | _ => { s with allocating := a }

/-- The loop of the destructor, if it is left after `fuel` turns and reads no node that it has
deleted: the nodes that it deletes. -/
def deleteAll (next : Nat → Option Nat) : Nat → List Nat → Option Nat → Option (List Nat)
  | _, deleted, none => some deleted
  | 0, _, some _ => none
  | fuel + 1, deleted, some node =>
    if node ∈ deleted then none else deleteAll next fuel (deleted ++ [node]) (next node)

/-- The destructor begins behind `_storage_tail`. -/
def destroy (s : Storing) (fuel : Nat) : Option (List Nat) :=
  deleteAll s.next fuel [] (s.next s.storageTail)

/-- What the destructor is for. -/
def Freed (s : Storing) : Prop :=
  ∃ fuel deleted, s.destroy fuel = some deleted ∧ ∀ n, n < s.created → deleted.count n = 1

/-- No thread is in a call. -/
def Resting (s : Storing) : Prop := ∀ t, s.allocating.place t = .outside

/-! ## The chain of the storage nodes -/

/-- The link that the thread is about to store. -/
def pending (s : Storing) (t : Nat) : Option (Nat × Nat) :=
  match s.place t with
  | .links store prevHead => some (prevHead, store)
  | _ => none

/-- The storage nodes in the order of the chain, some links of which are about to be stored. -/
structure Stored (s : Storing) (l : List Nat) : Prop where
  chain : Chained s.next s.pending l s.storageHead
  head : l.head? = some s.storageTail
  mem : ∀ n, n ∈ l ↔ n < s.created

variable {s s' : Storing} {l : List Nat} {t : Nat}

theorem stored_members (allocSize : Nat) : Stored (members allocSize) [0] where
  chain :=
  { nodup := List.nodup_singleton 0
    getLast := rfl
    next_last := rfl
    linked := by simp
    waiting := fun _ _ _ ht ↦ nomatch ht
    own := fun _ _ _ _ _ ht ↦ nomatch ht }
  head := rfl
  mem n := by simp [members]

theorem Stored.exchange (h : Stored s l) (ht : s.pending t = none) :
    Stored (s.exchange t) (l ++ [s.created]) where
  chain := by
    have hnew : s.created ∉ l := by
      rw [h.mem]
      exact Nat.lt_irrefl _
    have hcongr : Chained (s.exchange t).next s.pending l s.storageHead := by
      refine h.chain.congr (fun a ha ↦ if_neg ?_) fun _ ↦ rfl
      rintro rfl
      exact hnew ha
    refine hcongr.append (t := t) (b := s.created) ht ?_ rfl rfl ?_ (if_pos rfl) ?_ ?_
    · exact List.nodup_append'.mpr ⟨h.chain.nodup, List.nodup_singleton _, by simpa using hnew⟩
    · simp
    · simp only [pending, Storing.exchange, if_true]
    · intro u hu
      simp only [pending, Storing.exchange, if_neg hu]
  head := by
    rw [List.head?_append, h.head]
    rfl
  mem n := by
    rw [List.mem_append, h.mem, List.mem_singleton]
    exact Nat.lt_succ_iff_lt_or_eq.symm

theorem Stored.link (h : Stored s l) {store prevHead : Nat}
    (ht : s.pending t = some (prevHead, store)) : Stored (s.link t store prevHead) l where
  chain := by
    refine h.chain.link (t := t) (a := prevHead) (b := store) ht (if_pos rfl)
      (fun x _ hx ↦ if_neg hx) ?_ ?_
    · simp only [pending, Storing.link, if_true]
    · intro u hu
      simp only [pending, Storing.link, if_neg hu]
  head := h.head
  mem := h.mem

theorem stored_create (allocSize : Nat) : Stored (create allocSize) [0, 1] :=
  ((stored_members allocSize).exchange rfl).link rfl

theorem Stored.congr (h : Stored s l) (hnext : s'.next = s.next)
    (hhead : s'.storageHead = s.storageHead) (htail : s'.storageTail = s.storageTail)
    (hcreated : s'.created = s.created)
    (hpending : ∀ t, s'.pending t = s.pending t) : Stored s' l where
  chain := by
    rw [hnext, hhead]
    exact h.chain.congr (fun _ _ ↦ rfl) hpending
  head := by rw [htail, h.head]
  mem n := by rw [hcreated, h.mem]

/-- A thread that stores nodes is at the end of `alloc`. -/
structure Inv (s : Storing) (l : List Nat) : Prop where
  stored : Stored s l
  returns : ∀ t, s.place t ≠ .nothing → ∃ n, s.allocating.place t = .returns n

theorem inv_create (allocSize : Nat) : Inv (create allocSize) [0, 1] where
  stored := stored_create allocSize
  returns t ht := by
    refine absurd ?_ ht
    simp only [create, members, Storing.exchange, Storing.link]
    split <;> rfl

/-! ## Steps -/

theorem place_of_ne {a b : Allocating} {action : Action} {u : Nat}
    (hstep : a.step action = some b) (hu : u ≠ action.thread) : b.place u = a.place u := by
  cases action with
  | alloc t =>
    rw [Allocating.step, Option.ite_none_right_eq_some] at hstep
    cases hstep.2
    exact if_neg hu
  | free t n =>
    rw [Allocating.step, Option.ite_none_right_eq_some] at hstep
    cases hstep.2
    exact if_neg hu
  | proceed t =>
    simp only [Allocating.step] at hstep
    split at hstep
    all_goals try split at hstep
    all_goals cases hstep
    all_goals first | rfl | exact if_neg hu

/-- A step of the allocator by a thread that has nothing to store. -/
theorem Inv.allocate (h : Inv s l) {action : Action} {a : Allocating}
    (hstep : s.allocating.step action = some a) (ht : s.place action.thread = .nothing) :
    Inv { s with allocating := a } l where
  stored := h.stored.congr rfl rfl rfl rfl fun _ ↦ rfl
  returns u hu := by
    have hne : u ≠ action.thread := by
      rintro rfl
      exact hu ht
    simp only [place_of_ne hstep hne]
    exact h.returns u hu

/-- The free list has been connected. -/
theorem Inv.connect (h : Inv s l) {a : Allocating} {base prevHead : Nat}
    (hstep : s.allocating.step (.proceed t) = some a) (ht : s.place t = .nothing)
    (hplace : s.allocating.place t = .connects base prevHead) :
    Inv { s.goto t .stores with allocating := a } l where
  stored := by
    refine h.stored.congr rfl rfl rfl rfl fun u ↦ ?_
    by_cases heq : u = t
    · simp only [pending, heq, if_true, ht]
    · simp only [pending, if_neg heq]
  returns u hu := by
    simp only [Allocating.step, hplace, Option.some.injEq] at hstep
    subst hstep
    by_cases heq : u = t
    · exact ⟨base, if_pos heq⟩
    · simp only [if_neg heq] at hu ⊢
      exact h.returns u hu

theorem Inv.step (h : Inv s l) {action : Action} (hstep : s.step action = some s') :
    ∃ l', Inv s' l' := by
  have hnothing : s.allocating.place action.thread = .outside →
      s.place action.thread = .nothing := by
    intro hout
    by_contra hne
    obtain ⟨n, hn⟩ := h.returns _ hne
    rw [hout] at hn
    contradiction
  cases action with
  | alloc t =>
    rw [Storing.step, Option.map_eq_some_iff] at hstep
    obtain ⟨a, ha, rfl⟩ := hstep
    refine ⟨l, h.allocate ha (hnothing ?_)⟩
    rw [Allocating.step, Option.ite_none_right_eq_some] at ha
    exact ha.1
  | free t n =>
    rw [Storing.step, Option.map_eq_some_iff] at hstep
    obtain ⟨a, ha, rfl⟩ := hstep
    refine ⟨l, h.allocate ha (hnothing ?_)⟩
    rw [Allocating.step, Option.ite_none_right_eq_some] at ha
    exact ha.1.1
  | proceed t =>
    cases ht : s.place t with
    | stores =>
      simp only [Storing.step, ht, Option.some.injEq] at hstep
      subst hstep
      refine ⟨_, h.stored.exchange (by simp only [pending, ht]), fun u hu ↦ h.returns u ?_⟩
      by_cases heq : u = t
      · simp [heq, ht]
      · simpa only [Storing.exchange, if_neg heq] using hu
    | links store prevHead =>
      simp only [Storing.step, ht, Option.some.injEq] at hstep
      subst hstep
      refine ⟨_, h.stored.link (by simp only [pending, ht]), fun u hu ↦ h.returns u ?_⟩
      by_cases heq : u = t
      · simp [heq, ht]
      · simpa only [Storing.link, if_neg heq] using hu
    | nothing =>
      simp only [Storing.step, ht, Option.map_eq_some_iff] at hstep
      obtain ⟨a, ha, rfl⟩ := hstep
      split
      case h_1 base prevHead hplace => exact ⟨l, h.connect ha ht hplace⟩
      case h_2 => exact ⟨l, h.allocate ha ht⟩

/-- The storage leaves the allocator as it is. -/
theorem step_allocating {action : Action} (hstep : s.step action = some s') :
    s'.allocating = s.allocating ∨ s.allocating.step action = some s'.allocating := by
  cases action with
  | alloc t | free t n =>
    rw [Storing.step, Option.map_eq_some_iff] at hstep
    obtain ⟨a, ha, rfl⟩ := hstep
    exact Or.inr ha
  | proceed t =>
    cases ht : s.place t with
    | stores | links store prevHead =>
      simp only [Storing.step, ht, Option.some.injEq] at hstep
      subst hstep
      exact Or.inl rfl
    | nothing =>
      simp only [Storing.step, ht, Option.map_eq_some_iff] at hstep
      obtain ⟨a, ha, rfl⟩ := hstep
      right
      split <;> exact ha

/-- A thread that takes no step stays where it is. -/
theorem place_of_run {as : List Action} (hrun : run step s as = some s') (u : Nat)
    (hu : ∀ action ∈ as, action.thread ≠ u) : s'.allocating.place u = s.allocating.place u := by
  induction as generalizing s with
  | nil =>
    rw [run_nil, Option.some.injEq] at hrun
    rw [hrun]
  | cons action as ih =>
    rw [run_cons, Option.bind_eq_some_iff] at hrun
    obtain ⟨v, hv, hrest⟩ := hrun
    obtain ⟨hne, hothers⟩ := List.forall_mem_cons.mp hu
    rw [ih hrest hothers]
    rcases step_allocating hv with heq | hstep
    · rw [heq]
    · exact place_of_ne hstep hne.symm

/-! ## The destructor -/

theorem deleteAll_eq_some_iff {next : Nat → Option Nat} {fuel : Nat} {start : Option Nat}
    {deleted result : List Nat} (h : Path next start l) (hnodup : (deleted ++ l).Nodup) :
    deleteAll next fuel deleted start = some result ↔
      l.length ≤ fuel ∧ result = deleted ++ l := by
  induction l generalizing fuel start deleted with
  | nil =>
    obtain rfl : start = none := h
    cases fuel <;> simp [deleteAll, eq_comm]
  | cons node l ih =>
    obtain ⟨rfl, hrest⟩ := h
    cases fuel with
    | zero => simp [deleteAll]
    | succ fuel =>
      have hnew : node ∉ deleted := by
        intro hmem
        exact (List.nodup_append.mp hnodup).2.2 node hmem node List.mem_cons_self rfl
      rw [List.append_cons] at hnodup
      rw [deleteAll, if_neg hnew, ih hrest hnodup, List.length_cons, Nat.succ_le_succ_iff,
        ← List.append_cons]

/-- Between calls, the destructor deletes all storage nodes but the first one. -/
theorem Inv.destroy (h : Inv s l) (hresting : s.Resting) : ∃ rest, l = s.storageTail :: rest ∧
    ∀ fuel deleted, s.destroy fuel = some deleted ↔ rest.length ≤ fuel ∧ deleted = rest := by
  have hpending : ∀ t, s.pending t = none := by
    intro t
    have hplace : s.place t = .nothing := by
      by_contra hne
      obtain ⟨n, hn⟩ := h.returns t hne
      rw [hresting t] at hn
      contradiction
    simp only [pending, hplace]
  obtain ⟨rest, rfl⟩ : ∃ rest, l = s.storageTail :: rest := by
    cases l with
    | nil => exact nomatch h.stored.head
    | cons a rest => exact ⟨rest, by rw [Option.some.inj h.stored.head]⟩
  refine ⟨rest, rfl, fun fuel deleted ↦ ?_⟩
  exact deleteAll_eq_some_iff (h.stored.chain.path hpending).2
    (List.nodup_cons.mp h.stored.chain.nodup).2

theorem inv_of_run {allocSize : Nat} {as : List Action}
    (hrun : run step (create allocSize) as = some s) : ∃ l, Inv s l :=
  invariant_of_run (fun s ↦ ∃ l, Inv s l) (fun _ _ _ ⟨_, h⟩ hstep ↦ h.step hstep)
    ⟨[0, 1], inv_create allocSize⟩ hrun

/-- After any run the destructor deletes each storage node once, but for the one that the members of
the allocator were initialised with. -/
theorem not_freed_of_run {allocSize : Nat} {as : List Action}
    (hrun : run step (create allocSize) as = some s) (hresting : s.Resting) :
    (∃ fuel deleted, s.destroy fuel = some deleted ∧ deleted.count s.storageTail = 0 ∧
      ∀ n, n < s.created → n ≠ s.storageTail → deleted.count n = 1) ∧ ¬ s.Freed := by
  obtain ⟨l, h⟩ := inv_of_run hrun
  obtain ⟨rest, rfl, hdestroy⟩ := h.destroy hresting
  obtain ⟨hnot, hnodup⟩ := List.nodup_cons.mp h.stored.chain.nodup
  have hcount : rest.count s.storageTail = 0 := List.count_eq_zero.mpr hnot
  constructor
  · refine ⟨rest.length, rest, (hdestroy _ _).mpr ⟨Nat.le_refl _, rfl⟩, hcount, fun n hn hne ↦ ?_⟩
    have hmem := (h.stored.mem n).mpr hn
    exact List.count_eq_one_of_mem hnodup (List.mem_of_ne_of_mem hne hmem)
  · rintro ⟨fuel, deleted, hdeleted, hall⟩
    obtain ⟨-, rfl⟩ := (hdestroy _ _).mp hdeleted
    have hone := hall s.storageTail ((h.stored.mem _).mp List.mem_cons_self)
    rw [hcount] at hone
    contradiction

/-- Thread 0 finds no node to dequeue. -/
def growOnce : List Action :=
  [.alloc 0, .proceed 0, .proceed 0, .proceed 0, .proceed 0, .proceed 0, .proceed 0, .proceed 0,
    .proceed 0, .proceed 0]

theorem not_freed_of_run_growOnce : ∃ s, run step (create 32) growOnce = some s ∧ s.created = 3 ∧
    s.destroy 2 = some [1, 2] ∧ ¬ s.Freed := by
  obtain ⟨s, hrun⟩ : ∃ s, run step (create 32) growOnce = some s := ⟨_, rfl⟩
  have hresting : s.Resting := by
    intro t
    by_cases ht : t = 0
    · subst ht
      obtain rfl := Option.some.inj hrun
      rfl
    · exact place_of_run hrun t (by simpa [growOnce, Action.thread, eq_comm] using ht)
  refine ⟨s, hrun, ?_, ?_, (not_freed_of_run hrun hresting).2⟩
  · obtain rfl := Option.some.inj hrun
    rfl
  · obtain rfl := Option.some.inj hrun
    rfl

/-- An allocator without any call. -/
theorem not_freed_create : (create 32).created = 2 ∧ (create 32).destroy 1 = some [1] ∧
    ¬ (create 32).Freed := by
  refine ⟨rfl, rfl, ?_⟩
  rintro ⟨fuel, deleted, hdeleted, hall⟩
  have hzero := hall 0 (by decide)
  cases fuel with
  | zero => cases hdeleted
  | succ fuel =>
    cases fuel <;> cases hdeleted <;> exact absurd hzero (by decide)

end Storing

end ListNodeAllocator

end Ustevent
