import Mathlib.Data.List.Basic
import Ustevent.Reasoning.Runs

/-!
# Spin mutexes

`SpinMutex` is a queue lock whose queue node is one `thread_local` object for all mutexes of a
thread, so that a node is named by its thread.  The system has any number of mutexes and threads and
takes the atomic accesses and the accesses to nodes one by one.
-/

namespace Ustevent

open Reasoning

namespace SpinMutex

/-- Where a thread is in `lock` or `unlock` of a mutex, with the pointers that it has read. -/
inductive Place
  | outside
  /-- its exchange has returned the node of `prev` -/
  | queued (mutex prev : Nat)
  /-- and `_locked` is set -/
  | links (mutex prev : Nat)
  | spins (mutex prev : Nat)
  /-- `unlock` has found `_next` null -/
  | clears (mutex : Nat)
  /-- the compare-exchange has failed -/
  | awaits (mutex : Nat)
  /-- `_next` is not null any more -/
  | grants (mutex : Nat)
  /-- and the node to hand over to is that of `next` -/
  | handsOver (mutex next : Nat)
  | resets (mutex : Nat)
deriving DecidableEq

/-- The thread is between the two tests of `_next` in `unlock` and its reset. -/
@[grind] def Place.releases : Place → Bool
  | .clears _ | .awaits _ | .grants _ | .handsOver _ _ | .resets _ => true
  | .outside | .queued _ _ | .links _ _ | .spins _ _ => false

/-- `_tail` of each mutex, `_locked` and `_next` of each node, and the threads.  `held` is history:
the mutexes that a thread has locked and has not given up in `unlock`. -/
structure Locking where
  tail : Nat → Option Nat
  locked : Nat → Bool
  next : Nat → Option Nat
  place : Nat → Place
  held : Nat → List Nat

inductive Action
  | lock (thread mutex : Nat)
  | tryLock (thread mutex : Nat)
  | unlock (thread mutex : Nat)
  /-- the next step of the call that the thread is in -/
  | proceed (thread : Nat)
deriving DecidableEq

namespace Locking

def initial : Locking where
  tail _ := none
  locked _ := true
  next _ := none
  place _ := .outside
  held _ := []

abbrev setTail (s : Locking) (m : Nat) (node : Option Nat) : Locking :=
  { s with tail := fun u ↦ if u = m then node else s.tail u }

abbrev setLocked (s : Locking) (t : Nat) (locked : Bool) : Locking :=
  { s with locked := fun u ↦ if u = t then locked else s.locked u }

abbrev setNext (s : Locking) (t : Nat) (node : Option Nat) : Locking :=
  { s with next := fun u ↦ if u = t then node else s.next u }

abbrev goto (s : Locking) (t : Nat) (place : Place) : Locking :=
  { s with place := fun u ↦ if u = t then place else s.place u }

abbrev obtain (s : Locking) (t m : Nat) : Locking :=
  { s with held := fun u ↦ if u = t then m :: s.held t else s.held u }

abbrev giveUp (s : Locking) (t m : Nat) : Locking :=
  { s with held := fun u ↦ if u = t then (s.held t).filter (· ≠ m) else s.held u }

def step (s : Locking) : Action → Option Locking
  | .lock t m =>
    if s.place t = .outside ∧ m ∉ s.held t then
      match s.tail m with
      | none => some ((s.setTail m (some t)).obtain t m)
      | some prev => some ((s.setTail m (some t)).goto t (.queued m prev))
    else none
  | .tryLock t m =>
    if s.place t = .outside then
      match s.tail m with
      | none => some ((s.setTail m (some t)).obtain t m)
      | some _ => some s
    else none
  | .unlock t m =>
    if s.place t = .outside ∧ m ∈ s.held t then
      match s.next t with
      | none => some (s.goto t (.clears m))
      -- there is no else branch
      | some _ => some (s.giveUp t m)
    else none
  | .proceed t =>
    match s.place t with
    | .outside => none
    | .queued m prev => some ((s.setLocked t true).goto t (.links m prev))
    | .links m prev => some ((s.setNext prev (some t)).goto t (.spins m prev))
    | .spins m _ => some (if s.locked t then s else (s.goto t .outside).obtain t m)
    | .clears m =>
      if s.tail m = some t then some (((s.setTail m none).goto t .outside).giveUp t m)
      else some (s.goto t (.awaits m))
    | .awaits m => some (if s.next t = none then s else s.goto t (.grants m))
    | .grants m =>
      match s.next t with
      | none => none
      | some next => some (s.goto t (.handsOver m next))
    | .handsOver m next =>
      some (((s.setLocked next false).goto t (.resets m)).giveUp t m)
    | .resets _ => some ((s.setNext t none).goto t .outside)

/-- The thread is in `lock` of the mutex, behind the node of `prev`. -/
abbrev Waits (s : Locking) (t m prev : Nat) : Prop :=
  s.place t = .queued m prev ∨ s.place t = .links m prev ∨ s.place t = .spins m prev

/-- The thread holds the mutex, or nothing keeps it from returning from `lock`. -/
abbrev Has (s : Locking) (t m : Nat) : Prop :=
  m ∈ s.held t ∨ ∃ prev, s.place t = .spins m prev ∧ s.locked t = false

/-- What a mutex is for. -/
def Exclusive (s : Locking) : Prop := ∀ m t u, s.Has t m → s.Has u m → t = u

/-- A hand-over goes to a thread that waits for the mutex being unlocked. -/
def OwnWaiter (s : Locking) : Action → Prop
  | .proceed t => ∀ m next, s.place t = .handsOver m next → ∃ prev, s.place next = .spins m prev
  | _ => True

/-! ## The invariant -/

/-- The thread waits and has not been let in. -/
abbrev Queued (s : Locking) (t m prev : Nat) : Prop :=
  s.place t = .queued m prev ∨ s.place t = .links m prev ∨
    (s.place t = .spins m prev ∧ s.locked t = true)

/-- The next unlock of the thread does nothing, and so will all the others: only `unlock` resets
`_next`, and not where it finds it set. -/
abbrev Stuck (s : Locking) (t : Nat) : Prop :=
  s.next t ≠ none ∧ (s.place t).releases = false

/-- The thread holds the mutex or waits for it. -/
abbrev InLine (s : Locking) (t m : Nat) : Prop := m ∈ s.held t ∨ ∃ prev, s.Waits t m prev

/-- But for stuck threads, a waiter comes directly after its `prev` in the line of its mutex. -/
structure Lines (s : Locking) : Prop where
  tail : ∀ m t, s.tail m = some t → s.InLine t m ∨ s.Stuck t
  prev : ∀ t m p, s.Queued t m p → s.InLine p m ∨ s.Stuck p
  last : ∀ t m p, s.Queued t m p → s.tail m = some p → s.Stuck p
  unique : ∀ t u m p, s.Queued t m p → s.Queued u m p → t = u ∨ s.Stuck p

/-- But for stuck threads, `_next` is a waiter that is to be let in by the thread itself. -/
structure Links (s : Locking) : Prop where
  next : ∀ p t, s.next p = some t → s.Stuck p ∨ (∃ m, s.place p = .resets m) ∨
    ∃ m, s.place t = .spins m p ∧ s.locked t = true
  handsOver : ∀ p m t, s.place p = .handsOver m t →
    ∃ m', s.place t = .spins m' p ∧ s.locked t = true
  locked : ∀ t m p, s.place t = .links m p → s.locked t = true

/-- The threads call `lock` and `unlock` as they should, and a free mutex has no owner. -/
structure Owners (s : Locking) : Prop where
  free : ∀ m t, s.tail m = none → ¬ s.Has t m
  apart : ∀ t m p, m ∈ s.held t → ¬ s.Waits t m p
  holds : ∀ t m, s.place t = .clears m ∨ s.place t = .awaits m ∨ s.place t = .grants m ∨
    (∃ u, s.place t = .handsOver m u) → m ∈ s.held t

structure Inv (s : Locking) : Prop where
  lines : Lines s
  links : Links s
  owners : Owners s

variable {s s' : Locking} {t u m p : Nat}

theorem inv_initial : Inv initial where
  lines := by constructor <;> simp [initial, Queued]
  links := by constructor <;> simp [initial]
  owners := by constructor <;> simp [initial, Has]

theorem exclusive_initial : Exclusive initial := by
  intro m t u ht
  simp [Has, initial] at ht

/-! ## What a step may do to the lines -/

/-- A step that adds no waiter may take a thread out of a line, if the thread is stuck or the line
ends with it. -/
theorem Lines.mono (h : Lines s) (htail : ∀ m t, s'.tail m = some t → s.tail m = some t)
    (hqueued : ∀ t m p, s'.Queued t m p → s.Queued t m p) (hstuck : ∀ t, s.Stuck t → s'.Stuck t)
    (hline : ∀ t m, s.InLine t m → s'.InLine t m ∨ s'.Stuck t ∨
      (s'.tail m ≠ some t ∧ ∀ u, ¬ s'.Queued u m t)) : Lines s' where
  tail m t ht := by
    cases h.tail m t (htail m t ht) with
    | inl hin => exact (hline t m hin).imp_right fun hout ↦ hout.resolve_right fun hend ↦ hend.1 ht
    | inr hs => exact Or.inr (hstuck t hs)
  prev t m p hq := by
    cases h.prev t m p (hqueued t m p hq) with
    | inl hin => exact (hline p m hin).imp_right fun hout ↦ hout.resolve_right fun hend ↦ hend.2 t hq
    | inr hs => exact Or.inr (hstuck p hs)
  last t m p hq ht := hstuck p (h.last t m p (hqueued t m p hq) (htail m p ht))
  unique t u m p ht hu :=
    (h.unique t u m p (hqueued t m p ht) (hqueued u m p hu)).imp_right (hstuck p)

theorem Links.mono (h : Links s) (hnext : ∀ p t, s'.next p = some t → s.next p = some t)
    (hstuck : ∀ t, s.Stuck t → s'.Stuck t)
    (hresets : ∀ p t m, s'.next p = some t → s.place p = .resets m → s'.place p = .resets m)
    (hspins : ∀ t m p, s.place t = .spins m p → s.locked t = true →
      s'.place t = .spins m p ∧ s'.locked t = true)
    (hhandsOver : ∀ p m t, s'.place p = .handsOver m t → s.place p = .handsOver m t)
    (hlocked : ∀ t m p, s'.place t = .links m p → s'.locked t = true) : Links s' where
  next p t ht := by
    rcases h.next p t (hnext p t ht) with hs | ⟨m, hm⟩ | ⟨m, hm, hl⟩
    · exact Or.inl (hstuck p hs)
    · exact Or.inr (Or.inl ⟨m, hresets p t m ht hm⟩)
    · exact Or.inr (Or.inr ⟨m, hspins t m p hm hl⟩)
  handsOver p m t ht := by
    obtain ⟨m', hm, hl⟩ := h.handsOver p m t (hhandsOver p m t ht)
    exact ⟨m', hspins t m' p hm hl⟩
  locked := hlocked

theorem Owners.mono (h : Owners s) (htail : ∀ m, s'.tail m = none → s.tail m = none)
    (hhas : ∀ t m, s'.Has t m → s.Has t m) (hheld : ∀ t m, m ∈ s'.held t → m ∈ s.held t)
    (hwaits : ∀ t m p, s'.Waits t m p → s.Waits t m p)
    (hholds : ∀ t m, s'.place t = .clears m ∨ s'.place t = .awaits m ∨ s'.place t = .grants m ∨
      (∃ u, s'.place t = .handsOver m u) → m ∈ s'.held t) : Owners s' where
  free m t hm ht := h.free m (t := t) (htail m hm) (hhas t m ht)
  apart t m p hm hp := h.apart t m p (hheld t m hm) (hwaits t m p hp)
  holds := hholds

theorem Exclusive.mono (h : Exclusive s) (hhas : ∀ t m, s'.Has t m → s.Has t m) : Exclusive s' :=
  fun m t u ht hu ↦ h m t u (hhas t m ht) (hhas u m hu)

/-! ## The steps of lock -/

/-- A free mutex gets an owner, who was in no line of it: whoever comes after his node in that line
has found him stuck. -/
theorem Inv.own (h : Inv s) (ht : s.place t = .outside) (hm : s.tail m = none) :
    Inv ((s.setTail m (some t)).obtain t m) := by
  have hfree := h.owners.free
  have hprev := h.lines.prev
  refine ⟨⟨?_, ?_, ?_, ?_⟩, ?_, ?_, ?_, ?_⟩
  · have := h.lines.tail
    grind
  · grind
  · have := h.lines.last
    grind
  · have := h.lines.unique
    grind
  · have := h.links.locked
    apply h.links.mono <;> grind
  · grind
  · have := h.owners.apart
    grind
  · have := h.owners.holds
    grind

theorem Exclusive.own (h : Exclusive s) (hinv : Inv s) (hm : s.tail m = none) :
    Exclusive ((s.setTail m (some t)).obtain t m) := by
  have hfree := hinv.owners.free m
  intro m' u v hu hv
  have := h m' u v
  grind

theorem Inv.enqueue (h : Inv s) (ht : s.place t = .outside) (hheld : m ∉ s.held t)
    (hm : s.tail m = some p) : Inv ((s.setTail m (some t)).goto t (.queued m p)) := by
  have htail := h.lines.tail m p hm
  have hprev := h.lines.prev
  have hlast := h.lines.last
  refine ⟨⟨?_, ?_, ?_, ?_⟩, ?_, ?_, ?_, ?_⟩
  · have := h.lines.tail
    grind
  · grind
  · grind
  · have := h.lines.unique
    grind
  · have := h.links.locked
    apply h.links.mono <;> grind
  · have := h.owners.free
    grind
  · have := h.owners.apart
    grind
  · have := h.owners.holds
    grind

theorem Inv.setLocked (h : Inv s) (ht : s.place t = .queued m p) :
    Inv ((s.setLocked t true).goto t (.links m p)) := by
  refine ⟨?_, ?_, ?_⟩
  · apply h.lines.mono <;> grind
  · have := h.links.locked
    apply h.links.mono <;> grind
  · have := h.owners.holds
    apply h.owners.mono <;> grind

/-- Where `prev` has not come as far as the first test in `unlock`, it is stuck from now on. -/
theorem Inv.link (h : Inv s) (ht : s.place t = .links m p) :
    Inv ((s.setNext p (some t)).goto t (.spins m p)) := by
  have hlocked := h.links.locked t m p ht
  refine ⟨?_, ⟨?_, ?_, ?_⟩, ?_⟩
  · apply h.lines.mono <;> grind
  · intro q u hu
    -- `_next` of the other threads is as before
    by_cases hq : q = p
    · have hut : u = t := by grind
      refine Or.inr (Or.inr ⟨m, ?_, ?_⟩)
      · rw [hq, hut]
        exact if_pos rfl
      · rw [hut]
        exact hlocked
    · have := h.links.next q u
      grind
  · have := h.links.handsOver
    grind
  · have := h.links.locked
    grind
  · have := h.owners.holds
    apply h.owners.mono <;> grind

theorem Inv.enter (h : Inv s) (ht : s.place t = .spins m p) (hlocked : s.locked t = false) :
    Inv ((s.goto t .outside).obtain t m) := by
  refine ⟨?_, ?_, ?_, ?_, ?_⟩
  · apply h.lines.mono <;> grind
  · have := h.links.locked
    apply h.links.mono <;> grind
  · have := h.owners.free
    grind
  · have := h.owners.apart
    grind
  · have := h.owners.holds
    grind

/-! ## The steps of unlock -/

/-- The missing branch of `unlock` is left to stuck threads. -/
theorem Inv.skip (h : Inv s) (ht : s.place t = .outside) (hnext : s.next t ≠ none) :
    Inv (s.giveUp t m) := by
  refine ⟨?_, ?_, ?_⟩
  · apply h.lines.mono <;> grind
  · have := h.links.locked
    apply h.links.mono <;> grind
  · have := h.owners.holds
    apply h.owners.mono <;> grind

/-- The steps up to the hand-over; what `_next` is then, it is by a waiter behind the thread. -/
theorem Inv.advance (h : Inv s) {place : Place} (hheld : m ∈ s.held t)
    (hfrom : s.place t = .outside ∧ s.next t = none ∨ s.place t = .clears m ∨
      s.place t = .awaits m ∨ s.place t = .grants m)
    (hto : place = .clears m ∨ place = .awaits m ∨ place = .grants m ∨
      ∃ u, place = .handsOver m u ∧ s.next t = some u) : Inv (s.goto t place) := by
  refine ⟨?_, ⟨?_, ?_, ?_⟩, ?_⟩
  · apply h.lines.mono <;> grind
  · have := h.links.next
    grind
  · have := h.links.handsOver
    have := h.links.next
    grind
  · have := h.links.locked
    grind
  · have := h.owners.holds
    apply h.owners.mono <;> grind

/-- The line ends with the thread, so that the mutex becomes free. -/
theorem Inv.clear (h : Inv s) (hexclusive : Exclusive s) (ht : s.place t = .clears m)
    (hm : s.tail m = some t) : Inv (((s.setTail m none).goto t .outside).giveUp t m) := by
  have hheld := h.owners.holds t m (Or.inl ht)
  refine ⟨?_, ?_, ?_, ?_, ?_⟩
  -- a thread that is not stuck has no waiter behind it while it is the last of a line
  · have := h.lines.last
    apply h.lines.mono <;> grind
  · have := h.links.locked
    apply h.links.mono <;> grind
  · have := h.owners.free
    have := hexclusive m t
    grind
  · have := h.owners.apart
    grind
  · have := h.owners.holds
    grind

/-- The waiter behind the thread in the line of the same mutex becomes its owner. -/
theorem Inv.handOver (h : Inv s) (ht : s.place t = .handsOver m u) (hu : s.place u = .spins m p) :
    Inv (((s.setLocked u false).goto t (.resets m)).giveUp t m) := by
  have hhandsOver := h.links.handsOver t m u ht
  refine ⟨?_, ⟨?_, ?_, ?_⟩, ?_, ?_, ?_⟩
  -- the waiter was the only one behind the thread, which leaves the line
  · have := h.lines.last u m t
    have := h.lines.unique u
    apply h.lines.mono <;> grind
  · have := h.links.next
    grind
  · have := h.links.handsOver
    grind
  · have := h.links.locked
    grind
  · have := h.owners.free
    have := h.owners.holds t m
    grind
  · have := h.owners.apart
    grind
  · have := h.owners.holds
    grind

/-- A waiter for another mutex is behind the thread because the thread holds that mutex too, and it
goes on holding it. -/
theorem exclusive_handOver_iff (h : Inv s) (hexclusive : Exclusive s)
    (ht : s.place t = .handsOver m u) :
    Exclusive (((s.setLocked u false).goto t (.resets m)).giveUp t m) ↔
      ∃ p, s.place u = .spins m p := by
  obtain ⟨m', hspins, hlocked⟩ := h.links.handsOver t m u ht
  have hheld := h.owners.holds t m (Or.inr (Or.inr (Or.inr ⟨u, ht⟩)))
  constructor
  -- a waiter for another mutex would own it together with the thread
  · intro hafter
    by_cases heq : m' = m
    · exact ⟨t, heq ▸ hspins⟩
    · have hheld' : m' ∈ s.held t := by
        have := h.lines.prev u m' t (Or.inr (Or.inr ⟨hspins, hlocked⟩))
        grind
      have := hafter m' t u
      grind
  · rintro ⟨p, hp⟩
    -- of the mutex itself, the waiter is the only owner now
    have hhas : ∀ v n, (((s.setLocked u false).goto t (.resets m)).giveUp t m).Has v n →
        v = u ∧ n = m ∨ s.Has v n ∧ n ≠ m := by
      intro v n hv
      have := hexclusive m t v
      grind
    intro n v w hv hw
    rcases hhas v n hv with ⟨rfl, hn⟩ | ⟨hv, hn⟩
    · rcases hhas w n hw with ⟨rfl, -⟩ | ⟨-, hne⟩
      · rfl
      · exact absurd hn hne
    · rcases hhas w n hw with ⟨-, heq⟩ | ⟨hw, -⟩
      · exact absurd heq hn
      · exact hexclusive n v w hv hw

theorem Inv.reset (h : Inv s) (ht : s.place t = .resets m) :
    Inv ((s.setNext t none).goto t .outside) := by
  refine ⟨?_, ?_, ?_⟩
  · apply h.lines.mono <;> grind
  · have := h.links.locked
    apply h.links.mono <;> grind
  · have := h.owners.holds
    apply h.owners.mono <;> grind

/-! ## Runs -/

theorem Inv.owned (h : Inv s) (hexclusive : Exclusive s) (ht : s.place t = .outside)
    (hm : s.tail m = none) : Exclusive ((s.setTail m (some t)).obtain t m) ∧
      Inv ((s.setTail m (some t)).obtain t m) :=
  ⟨hexclusive.own h hm, h.own ht hm⟩

theorem Inv.proceed (h : Inv s) (hexclusive : Exclusive s)
    (hplace : ∀ m u, s.place t ≠ .handsOver m u) (hstep : s.step (.proceed t) = some s') :
    Exclusive s' ∧ Inv s' := by
  rw [step] at hstep
  cases ht : s.place t with
  | outside =>
    rw [ht] at hstep
    contradiction
  | queued m p =>
    rw [ht] at hstep
    cases hstep
    exact ⟨hexclusive.mono (by grind), h.setLocked ht⟩
  | links m p =>
    have := h.links.locked t m p ht
    rw [ht] at hstep
    cases hstep
    exact ⟨hexclusive.mono (by grind), h.link ht⟩
  | spins m p =>
    rw [ht] at hstep
    cases hlocked : s.locked t with
    | true =>
      simp only [hlocked, if_true, Option.some.injEq] at hstep
      exact hstep ▸ ⟨hexclusive, h⟩
    | false =>
      simp only [hlocked, Bool.false_eq_true, if_false, Option.some.injEq] at hstep
      subst hstep
      exact ⟨hexclusive.mono (by grind), h.enter ht hlocked⟩
  | clears m =>
    have hheld := h.owners.holds t m (Or.inl ht)
    simp only [ht] at hstep
    split at hstep
    · rename_i htail
      cases hstep
      exact ⟨hexclusive.mono (by grind), h.clear hexclusive ht htail⟩
    · cases hstep
      exact ⟨hexclusive.mono (by grind), h.advance hheld (by simp [ht]) (by simp)⟩
  -- the thread reads `_next` until the link is there
  | awaits m =>
    have hheld := h.owners.holds t m (Or.inr (Or.inl ht))
    simp only [ht, Option.some.injEq] at hstep
    split at hstep
    · exact hstep ▸ ⟨hexclusive, h⟩
    · subst hstep
      exact ⟨hexclusive.mono (by grind), h.advance hheld (by simp [ht]) (by simp)⟩
  | grants m =>
    have hheld := h.owners.holds t m (Or.inr (Or.inr (Or.inl ht)))
    simp only [ht] at hstep
    split at hstep
    · contradiction
    · rename_i u hnext
      cases hstep
      exact ⟨hexclusive.mono (by grind), h.advance hheld (by simp [ht]) (by simp [hnext])⟩
  | handsOver m u => exact absurd ht (hplace m u)
  | resets m =>
    rw [ht] at hstep
    cases hstep
    exact ⟨hexclusive.mono (by grind), h.reset ht⟩

/-- A step keeps mutual exclusion, if and only if it is not a hand-over to a thread that waits for
another mutex. -/
theorem Inv.step (h : Inv s) (hexclusive : Exclusive s) {a : Action} (hstep : s.step a = some s') :
    (Exclusive s' ↔ s.OwnWaiter a) ∧ (Exclusive s' → Inv s') := by
  have hgood : ∀ {a}, s.OwnWaiter a → Exclusive s' ∧ Inv s' →
      (Exclusive s' ↔ s.OwnWaiter a) ∧ (Exclusive s' → Inv s') :=
    fun hok hs' ↦ ⟨iff_of_true hs'.1 hok, fun _ ↦ hs'.2⟩
  cases a with
  | lock t m =>
    apply hgood (a := .lock t m) trivial
    rw [Locking.step, Option.ite_none_right_eq_some] at hstep
    obtain ⟨⟨ht, hheld⟩, hstep⟩ := hstep
    split at hstep
    · rename_i hm
      cases hstep
      exact h.owned hexclusive ht hm
    · rename_i p hm
      cases hstep
      exact ⟨hexclusive.mono (by grind), h.enqueue ht hheld hm⟩
  | tryLock t m =>
    apply hgood (a := .tryLock t m) trivial
    rw [Locking.step, Option.ite_none_right_eq_some] at hstep
    obtain ⟨ht, hstep⟩ := hstep
    split at hstep
    · rename_i hm
      cases hstep
      exact h.owned hexclusive ht hm
    · cases hstep
      exact ⟨hexclusive, h⟩
  | unlock t m =>
    apply hgood (a := .unlock t m) trivial
    rw [Locking.step, Option.ite_none_right_eq_some] at hstep
    obtain ⟨⟨ht, hheld⟩, hstep⟩ := hstep
    split at hstep
    · rename_i hnext
      cases hstep
      exact ⟨hexclusive.mono (by grind), h.advance hheld (by simp [ht, hnext]) (by simp)⟩
    · rename_i hnext
      cases hstep
      exact ⟨hexclusive.mono (by grind), h.skip ht (by simp [hnext])⟩
  | proceed t =>
    by_cases hplace : ∃ m u, s.place t = .handsOver m u
    · obtain ⟨m, u, ht⟩ := hplace
      rw [Locking.step, ht] at hstep
      cases hstep
      have hown : s.OwnWaiter (.proceed t) ↔ ∃ p, s.place u = .spins m p := by
        constructor
        · exact fun hok ↦ hok m u ht
        · intro hp m' u' ht'
          rw [ht, Place.handsOver.injEq] at ht'
          obtain ⟨rfl, rfl⟩ := ht'
          exact hp
      have hiff := exclusive_handOver_iff h hexclusive ht
      refine ⟨hiff.trans hown.symm, fun hafter ↦ ?_⟩
      obtain ⟨p, hp⟩ := hiff.mp hafter
      exact h.handOver ht hp
    · have hplace : ∀ m u, s.place t ≠ .handsOver m u := fun m u ht ↦ hplace ⟨m, u, ht⟩
      exact hgood (fun m u ht ↦ absurd ht (hplace m u)) (h.proceed hexclusive hplace hstep)

/-- Mutual exclusion holds in every state of a run, if and only if each hand-over of the run goes to
a waiter for the mutex being unlocked. -/
theorem always_exclusive_iff_ownWaiter (as : List Action) :
    Always step Exclusive initial as ↔ Meets step OwnWaiter initial as := by
  apply always_iff_meets Inv Exclusive _ _ inv_initial exclusive_initial
  · exact fun s a s' hinv hexclusive hstep ↦ hinv.step hexclusive hstep
  · -- a step that is not possible hands nothing over
    intro s a hstuck
    cases a with
    | proceed t =>
      intro m u ht
      rw [step, ht] at hstuck
      contradiction
    | _ => trivial

/-- Thread 0 holds both mutexes and unlocks mutex 0 when thread 1 has been queued for it; before
thread 1 has linked its node, thread 2 links its own in the line of mutex 1. -/
def crossedLines : List Action :=
  [.lock 0 0, .lock 0 1, .unlock 0 0, .lock 1 0, .proceed 0, .lock 2 1, .proceed 2, .proceed 2,
    .proceed 0, .proceed 0, .proceed 0, .proceed 2]

/-- Threads 0 and 2 hold mutex 1, and both have returned from `lock`. -/
theorem not_exclusive_crossedLines :
    ∃ s, run step initial crossedLines = some s ∧ 1 ∈ s.held 0 ∧ 1 ∈ s.held 2 ∧
      s.place 2 = .outside ∧ ¬ Exclusive s := by
  refine ⟨_, rfl, by decide, by decide, rfl, fun hexclusive ↦ ?_⟩
  have heq := hexclusive 1 0 2 (Or.inl (by decide)) (Or.inl (by decide))
  exact absurd heq (by decide)

/-! ## One mutex at a time -/

/-- A thread that calls `lock` or `tryLock` holds no mutex. -/
def Alone (s : Locking) : Action → Prop
  | .lock t _ | .tryLock t _ => s.held t = []
  | .unlock _ _ | .proceed _ => True

/-- No thread is in the lines of two mutexes. -/
def Single (s : Locking) : Prop := ∀ t m n, s.InLine t m → s.InLine t n → m = n

/-- Only the calls of `lock` and `tryLock` bring a thread into a line. -/
theorem inLine_of_step {a : Action} (hstep : s.step a = some s') (hline : s'.InLine u m) :
    s.InLine u m ∨ (s.place u = .outside ∧ (a = .lock u m ∨ a = .tryLock u m)) := by
  cases a with
  | lock t n | tryLock t n | unlock t n =>
    rw [Locking.step, Option.ite_none_right_eq_some] at hstep
    obtain ⟨ht, hstep⟩ := hstep
    split at hstep <;> cases hstep <;> grind
  | proceed t =>
    cases ht : s.place t with
    | outside =>
      simp only [Locking.step, ht] at hstep
      contradiction
    | queued n p | links n p | handsOver n v | resets n =>
      simp only [Locking.step, ht, Option.some.injEq] at hstep
      subst hstep
      grind
    | spins n p | awaits n =>
      simp only [Locking.step, ht, Option.some.injEq] at hstep
      split at hstep <;> subst hstep <;> grind
    | clears n | grants n =>
      simp only [Locking.step, ht] at hstep
      split at hstep <;> cases hstep <;> grind

theorem Single.step (h : Single s) {a : Action} (hok : s.Alone a) (hstep : s.step a = some s') :
    Single s' := by
  have hnew : ∀ {t m}, s.place t = .outside → (a = .lock t m ∨ a = .tryLock t m) →
      ∀ n, ¬ s.InLine t n := by
    rintro t m ht (rfl | rfl) n
    · have hheld : s.held t = [] := hok
      grind
    · have hheld : s.held t = [] := hok
      grind
  intro t m n hm hn
  rcases inLine_of_step hstep hm with hm | ⟨ht, hm⟩
  · rcases inLine_of_step hstep hn with hn | ⟨ht, hn⟩
    · exact h t m n hm hn
    · exact absurd hm (hnew ht hn m)
  · rcases inLine_of_step hstep hn with hn | ⟨-, hn⟩
    · exact absurd hn (hnew ht hm n)
    · grind

/-- The waiter behind a thread that is in one line only waits for the mutex that the thread
unlocks. -/
theorem Single.ownWaiter (h : Single s) (hinv : Inv s) (a : Action) : s.OwnWaiter a := by
  cases a with
  | proceed t =>
    intro m u ht
    obtain ⟨m', hspins, hlocked⟩ := hinv.links.handsOver t m u ht
    have hheld := hinv.owners.holds t m (Or.inr (Or.inr (Or.inr ⟨u, ht⟩)))
    have hline : s.InLine t m' := by
      have := hinv.lines.prev u m' t (Or.inr (Or.inr ⟨hspins, hlocked⟩))
      grind
    exact ⟨t, h t m' m hline (Or.inl hheld) ▸ hspins⟩
  | lock | tryLock | unlock => trivial

/-- Threads that hold one mutex at a time never get into each other's way. -/
theorem always_exclusive_of_alone {as : List Action} (h : Meets step Alone initial as) :
    Always step Exclusive initial as := by
  have hinv : ∀ (s : Locking), Inv s → Exclusive s → Single s → Meets step Alone s as →
      Always step Exclusive s as := by
    clear h
    induction as with
    | nil => exact fun s _ hexclusive _ _ ↦ hexclusive
    | cons a as ih =>
      -- with one line for each thread, every hand-over is to a waiter of that line
      intro s hinv hexclusive hsingle hok
      refine ⟨hexclusive, fun s' hstep ↦ ?_⟩
      obtain ⟨hiff, hinv'⟩ := hinv.step hexclusive hstep
      have hexclusive' := hiff.mpr (hsingle.ownWaiter hinv a)
      exact ih s' (hinv' hexclusive') hexclusive' (hsingle.step hok.1 hstep) (hok.2 s' hstep)
  have hsingle : Single initial := by
    unfold Single initial
    grind
  exact hinv initial inv_initial exclusive_initial hsingle h

end Locking

end SpinMutex

end Ustevent
