import Ustevent.Reasoning.Links

/-!
# The lists of the waiting fibers

With `DEBUG_ON` a strategy records each fiber that it switches away from, and erases it when the
fiber is awakened.  The links stand in the `FiberDebugInfo` of the fibers; the list begins at the
member `_waiting_fibers_head` of the strategy, and a script of the debugger follows it.  The debug
info of a fiber has links for one list only: a fiber is in the list of one strategy at most, and is
erased by the strategy that has recorded it.
-/

namespace Ustevent.ContextStrategy

open Reasoning

variable {ι : Type*}

/-- `_waiting_fibers_head` of a strategy, or the debug info of a fiber. -/
inductive Node (ι : Type*)
  | head (strategy : ι)
  | fiber (f : Nat)
deriving DecidableEq

structure FiberDebugInfo (ι : Type*) where
  prev : Option (Node ι)
  next : Option (Node ι)
  terminated : Bool
deriving DecidableEq

/-- The debug infos, and `_waiting_fibers_tail` of each strategy. -/
structure WaitingFibers (ι : Type*) where
  info : Node ι → FiberDebugInfo ι
  tail : ι → Node ι

namespace WaitingFibers

/-- New debug infos have null links. -/
def create : WaitingFibers ι where
  info _ := ⟨none, none, false⟩
  tail := .head

abbrev next (s : WaitingFibers ι) (m : Node ι) : Option (Node ι) := (s.info m).next

abbrev prev (s : WaitingFibers ι) (m : Node ι) : Option (Node ι) := (s.info m).prev

/-- `get_debug_infos_in_waiting_fibers` of the script, if its loop is left after `fuel` turns. -/
def debugInfos (s : WaitingFibers ι) (i : ι) (fuel : Nat) : Option (List (Node ι)) :=
  walk s.next fuel (s.next (.head i))

variable [DecidableEq ι]

def setNext (s : WaitingFibers ι) (m : Node ι) (next : Option (Node ι)) : WaitingFibers ι :=
  { s with info := fun k ↦ if k = m then { s.info k with next := next } else s.info k }

def setPrev (s : WaitingFibers ι) (m : Node ι) (prev : Option (Node ι)) : WaitingFibers ι :=
  { s with info := fun k ↦ if k = m then { s.info k with prev := prev } else s.info k }

def setTail (s : WaitingFibers ι) (i : ι) (tail : Node ι) : WaitingFibers ι :=
  { s with tail := fun j ↦ if j = i then tail else s.tail j }

def setTerminated (s : WaitingFibers ι) (m : Node ι) : WaitingFibers ι :=
  { s with info := fun k ↦ if k = m then { s.info k with terminated := true } else s.info k }

/-- `_recordBacktrace` of the strategy `i`, called by the fiber `f`. -/
def recordBacktrace (s : WaitingFibers ι) (i : ι) (f : Nat) : WaitingFibers ι :=
  if (s.info (.fiber f)).terminated then s
  else
    ((s.setNext (s.tail i) (some (.fiber f))).setPrev (.fiber f) (some (s.tail i))).setTail i
      (.fiber f)

/-- `_eraseBacktrace` of the strategy `i`; `none` if it goes through a null pointer. -/
def eraseBacktrace (s : WaitingFibers ι) (i : ι) (f : Nat) : Option (WaitingFibers ι) :=
  if (s.prev (.fiber f)).isSome || (s.next (.fiber f)).isSome then
    let unlinked :=
      match s.prev (.fiber f), s.next (.fiber f) with
      | none, _ => none
      | some p, none => some ((s.setTail i p).setNext p none)
      | some p, some m => some ((s.setNext p (some m)).setPrev m (some p))
    unlinked.map fun s ↦ (s.setPrev (.fiber f) none).setNext (.fiber f) none
  else some s

end WaitingFibers

open WaitingFibers

variable {s s' : WaitingFibers ι} {waiting : ι → List Nat} {i j : ι} {f g : Nat}

/-- The list of a strategy with its head. -/
def nodes (waiting : ι → List Nat) (i : ι) : List (Node ι) :=
  .head i :: (waiting i).map .fiber

/-- The links are those of the fibers that wait. -/
structure Linked (s : WaitingFibers ι) (waiting : ι → List Nat) : Prop where
  apart : Separate s.next s.prev (nodes waiting)
  tail : ∀ i, (nodes waiting i).getLast? = some (s.tail i)

section

variable [DecidableEq ι]

@[simp] theorem next_setNext (s : WaitingFibers ι) (m k : Node ι) (p : Option (Node ι)) :
    (s.setNext m p).next k = if k = m then p else s.next k := by
  simp only [WaitingFibers.next, setNext]
  split <;> rfl

@[simp] theorem prev_setNext (s : WaitingFibers ι) (m k : Node ι) (p : Option (Node ι)) :
    (s.setNext m p).prev k = s.prev k := by
  simp only [WaitingFibers.prev, setNext]
  split <;> rfl

@[simp] theorem next_setPrev (s : WaitingFibers ι) (m k : Node ι) (p : Option (Node ι)) :
    (s.setPrev m p).next k = s.next k := by
  simp only [WaitingFibers.next, setPrev]
  split <;> rfl

@[simp] theorem prev_setPrev (s : WaitingFibers ι) (m k : Node ι) (p : Option (Node ι)) :
    (s.setPrev m p).prev k = if k = m then p else s.prev k := by
  simp only [WaitingFibers.prev, setPrev]
  split <;> rfl

@[simp] theorem next_setTail (s : WaitingFibers ι) (i : ι) (m k : Node ι) :
    (s.setTail i m).next k = s.next k := rfl

@[simp] theorem prev_setTail (s : WaitingFibers ι) (i : ι) (m k : Node ι) :
    (s.setTail i m).prev k = s.prev k := rfl

@[simp] theorem next_setTerminated (s : WaitingFibers ι) (m k : Node ι) :
    (s.setTerminated m).next k = s.next k := by
  simp only [WaitingFibers.next, setTerminated]
  split <;> rfl

@[simp] theorem prev_setTerminated (s : WaitingFibers ι) (m k : Node ι) :
    (s.setTerminated m).prev k = s.prev k := by
  simp only [WaitingFibers.prev, setTerminated]
  split <;> rfl

@[simp] theorem terminated_setNext (s : WaitingFibers ι) (m k : Node ι) (p : Option (Node ι)) :
    ((s.setNext m p).info k).terminated = (s.info k).terminated := by
  simp only [setNext]
  split <;> rfl

@[simp] theorem terminated_setPrev (s : WaitingFibers ι) (m k : Node ι) (p : Option (Node ι)) :
    ((s.setPrev m p).info k).terminated = (s.info k).terminated := by
  simp only [setPrev]
  split <;> rfl

@[simp] theorem terminated_setTail (s : WaitingFibers ι) (i : ι) (m k : Node ι) :
    ((s.setTail i m).info k).terminated = (s.info k).terminated := rfl

theorem terminated_recordBacktrace (s : WaitingFibers ι) (i : ι) (f : Nat) (m : Node ι) :
    ((s.recordBacktrace i f).info m).terminated = (s.info m).terminated := by
  rw [recordBacktrace]
  split
  · rfl
  · rw [terminated_setTail, terminated_setPrev, terminated_setNext]

theorem terminated_eraseBacktrace (h : s.eraseBacktrace i f = some s') (m : Node ι) :
    (s'.info m).terminated = (s.info m).terminated := by
  unfold eraseBacktrace at h
  split at h
  · obtain ⟨u, hu, rfl⟩ := Option.map_eq_some_iff.mp h
    rw [terminated_setNext, terminated_setPrev]
    split at hu
    · contradiction
    · cases hu
      rw [terminated_setNext, terminated_setTail]
    · cases hu
      rw [terminated_setPrev, terminated_setNext]
  · cases h
    rfl

end

theorem mem_nodes : .fiber f ∈ nodes waiting i ↔ f ∈ waiting i := by
  simp [nodes]

theorem linked_create : Linked (create : WaitingFibers ι) fun _ ↦ [] where
  apart := by
    refine ⟨fun i ↦ ⟨List.nodup_singleton _, fun l₁ a l₂ heq ↦ ?_⟩, fun i j x hi hj ↦ ?_,
      fun _ _ ↦ ⟨rfl, rfl⟩⟩
    · obtain ⟨rfl, hrest⟩ | ⟨l, -, hrest⟩ := List.cons_eq_append_iff.mp heq
      · cases hrest
        exact ⟨rfl, rfl⟩
      · exact absurd hrest (by simp)
    · simp only [nodes, List.map_nil, List.mem_singleton] at hi hj
      exact Node.head.inj (hi.symm.trans hj)
  tail _ := rfl

/-- The script finds the fibers that wait, in their order. -/
theorem Linked.debugInfos (h : Linked s waiting) (i : ι) {fuel : Nat}
    (hfuel : (waiting i).length ≤ fuel) :
    s.debugInfos i fuel = some ((waiting i).map .fiber) := by
  have hpath : Path s.next (some (.head i)) (nodes waiting i) := (h.apart.doubly i).path
  exact walk_eq_some_iff.mpr ⟨hpath.2, by rwa [List.length_map]⟩

variable [DecidableEq ι]

theorem Linked.setTerminated (h : Linked s waiting) (m : Node ι) :
    Linked (s.setTerminated m) waiting :=
  ⟨h.apart.congr (next_setTerminated s m) (prev_setTerminated s m), h.tail⟩

/-- A fiber is recorded that is in no list. -/
theorem Linked.record (h : Linked s waiting) (i : ι) (hf : ∀ j, f ∉ waiting j)
    (hterminated : (s.info (.fiber f)).terminated = false) :
    Linked (s.recordBacktrace i f) fun j ↦ if j = i then waiting j ++ [f] else waiting j := by
  have hnew : ∀ j, Node.fiber f ∉ nodes waiting j := fun j hmem ↦ hf j (mem_nodes.mp hmem)
  have hnodes : nodes (fun j ↦ if j = i then waiting j ++ [f] else waiting j) =
      fun j ↦ if j = i then nodes waiting i ++ [.fiber f] else nodes waiting j := by
    funext j
    by_cases hj : j = i
    · simp [nodes, hj]
    · simp [nodes, hj]
  rw [recordBacktrace, hterminated]
  refine ⟨?_, fun j ↦ ?_⟩
  · rw [hnodes]
    refine (h.apart.concat (h.tail i) hnew).congr (fun x ↦ ?_) (fun x ↦ ?_)
    · exact (next_setPrev _ _ _ _).trans (next_setNext _ _ _ _)
    · rw [if_neg Bool.false_ne_true, prev_setTail, prev_setPrev, prev_setNext]
  · rw [hnodes]
    by_cases hj : j = i
    · simp [hj, setTail]
    · simp only [hj, if_false, Bool.false_eq_true, setTail]
      exact h.tail j

/-- A fiber that is in no list has null links. -/
theorem Linked.eraseBacktrace_of_not_mem (h : Linked s waiting) (i : ι)
    (hf : ∀ j, f ∉ waiting j) : s.eraseBacktrace i f = some s := by
  obtain ⟨hnext, hprev⟩ := h.apart.others (.fiber f) fun j hmem ↦ hf j (mem_nodes.mp hmem)
  rw [eraseBacktrace, hnext, hprev]
  rfl

/-- A fiber is erased by the strategy in whose list it is. -/
theorem Linked.erase (h : Linked s waiting) (hf : f ∈ waiting i) :
    ∃ s', s.eraseBacktrace i f = some s' ∧
      Linked s' fun j ↦ if j = i then (waiting j).erase f else waiting j := by
  obtain ⟨k₁, k₂, hsplit, hnot⟩ := List.eq_append_cons_of_mem hf
  have hnodes : nodes waiting i = (.head i :: k₁.map .fiber) ++ .fiber f :: k₂.map .fiber := by
    simp [nodes, hsplit]
  have hrest : nodes (fun j ↦ if j = i then (waiting j).erase f else waiting j) =
      fun j ↦ if j = i then (.head i :: k₁.map .fiber) ++ k₂.map .fiber else nodes waiting j := by
    funext j
    by_cases hj : j = i
    · simp [nodes, hj, hsplit, List.erase_append_right _ hnot]
    · simp [nodes, hj]
  obtain ⟨p, hp⟩ : ∃ p, (.head i :: k₁.map Node.fiber).getLast? = some p :=
    Option.isSome_iff_exists.mp (by simp)
  obtain ⟨hnext, hprev⟩ := (h.apart.doubly i).links _ _ _ hnodes
  have hremove := h.apart.remove hnodes hp
  have hpf : p ≠ .fiber f := by
    rintro rfl
    have hnodup := (h.apart.doubly i).nodup
    rw [hnodes, List.nodup_middle, List.nodup_cons, List.mem_append] at hnodup
    exact hnodup.1 (Or.inl (List.mem_of_getLast? hp))
  rw [eraseBacktrace, hprev.trans hp, hnext]
  cases k₂ with
  | nil =>
    refine ⟨_, rfl, ?_, fun j ↦ ?_⟩
    · rw [hrest]
      refine hremove.congr (fun x ↦ ?_) (fun x ↦ ?_)
      · rw [next_setNext, next_setPrev, next_setNext]
        rfl
      · rw [prev_setNext, prev_setPrev, prev_setNext]
        simp
    · rw [hrest]
      by_cases hj : j = i
      · simpa [hj, setTail, setNext, setPrev] using hp
      · simp only [hj, if_false, setTail, setNext, setPrev]
        exact h.tail j
  | cons g k₂ =>
    refine ⟨_, rfl, ?_, fun j ↦ ?_⟩
    · rw [hrest]
      refine hremove.congr (fun x ↦ ?_) (fun x ↦ ?_)
      · rw [next_setNext, next_setPrev, next_setPrev, next_setNext]
        rfl
      · rw [prev_setNext, prev_setPrev, prev_setPrev, prev_setNext]
        simp only [List.map_cons, List.head?_cons, Option.some.injEq, eq_comm]
    · have htail := h.tail i
      rw [hnodes, List.getLast?_append] at htail
      rw [hrest]
      by_cases hj : j = i
      · subst hj
        simp only [if_true, setNext, setPrev]
        rw [List.getLast?_append]
        simpa using htail
      · simp only [hj, if_false, setNext, setPrev]
        exact h.tail j

end Ustevent.ContextStrategy
