import Mathlib.Data.List.Basic
import Ustevent.Concurrency.ThreadLocalStorage

/-!
# The writers of a task queue

A thread gets the writer of a `ContextTaskQueue` from the thread local storage of the queue, which
makes one for each thread with the next worker index.  The ring buffer has as many workers as
`hardware_concurrency` says.  The static tables of the storage are shared with the other queues,
which come and go.
-/

namespace Ustevent

open Reasoning

/-- `_worker`, by its index; it is null in a writer that has been moved from or destroyed. -/
structure MpscRingBufferWriter where
  worker : Option UInt32
deriving DecidableEq

namespace MpscRingBufferWriter

open ObjectScopedThreadLocalStorage (Storages)

instance : Inhabited MpscRingBufferWriter := ⟨⟨none⟩⟩

/-- A task queue from its construction on.  `producerNum` is the number of workers of its ring buffer
and `writers` the object of its `_writers`.  History: the threads that have called `push`, and the
indexes that `registerWorker` has been called with. -/
structure Pushing where
  storages : Storages MpscRingBufferWriter
  writers : Nat
  producerNum : UInt32
  writerSequence : UInt32
  pushers : List Nat
  indexes : List UInt32

inductive Action
  | push (thread : Nat)
  /-- of a thread, or of the storage of another queue -/
  | other (action : ObjectScopedThreadLocalStorage.Action MpscRingBufferWriter)

namespace Pushing

/-- The constructor of the queue; its return function destroys the writer. -/
def create (storages : Storages MpscRingBufferWriter) (hardwareConcurrency : UInt32) : Pushing where
  storages := storages.construct true (some fun _ ↦ ⟨none⟩)
  writers := storages.nextId
  producerNum := hardwareConcurrency
  writerSequence := 0
  -- nobody has called `push` yet
  pushers := []
  indexes := []

/-- The slot of the thread has no owner, so that `get` calls the default value function. -/
def makes (s : Pushing) (t : Nat) : Bool :=
  (s.storages.slot t (s.storages.objects s.writers).index).ownerId = 0

/-- `_writers.get()`, the first thing that `push` does. -/
def push (s : Pushing) (t : Nat) : Pushing :=
  { s with
    storages := s.storages.get s.writers t ⟨some s.writerSequence⟩
    writerSequence := if s.makes t then s.writerSequence + 1 else s.writerSequence
    pushers := if t ∈ s.pushers then s.pushers else s.pushers ++ [t]
    indexes := if s.makes t then s.indexes ++ [s.writerSequence] else s.indexes }

/-- The action concerns the storage of the queue. -/
def Concerns (s : Pushing) : ObjectScopedThreadLocalStorage.Action MpscRingBufferWriter → Bool
  | .destroy o | .get o _ _ => o = s.writers
  | .construct _ _ | .start _ | .exit _ => false

def step (s : Pushing) : Action → Option Pushing
  | .push t => if s.storages.thread t = .during then some (s.push t) else none
  | .other a =>
    if s.Concerns a then none else (s.storages.step a).map fun storages ↦ { s with storages := storages }

/-- `registerWorker` finds a worker at each index. -/
def Bounded (s : Pushing) : Prop := ∀ i ∈ s.indexes, i < s.producerNum

/-- A thread that pushes for the first time is not one too many. -/
def Fits (s : Pushing) : Action → Prop
  | .push t => s.storages.thread t = .during → t ∉ s.pushers →
    s.pushers.length < s.producerNum.toNat
  | .other _ => True

/-! ## The invariant -/

/-- The index that the next writer gets is the number of the threads that have pushed. -/
structure Inv (s : Pushing) : Prop where
  storages : s.storages.Inv
  live : s.storages.live s.writers = true
  pushed : ∀ t, t ∈ s.pushers ↔ s.storages.gotten s.writers t ≠ []
  sequence : s.writerSequence = UInt32.ofNat s.pushers.length
  indexes : s.indexes = (List.range s.pushers.length).map UInt32.ofNat

variable {s s' : Pushing} {t : Nat}

theorem inv_create {storages : Storages MpscRingBufferWriter} (h : storages.Inv)
    (hardwareConcurrency : UInt32) : Inv (create storages hardwareConcurrency) := by
  -- no value has been returned for an id that has not been given out
  have hpast : ∀ t, storages.gotten storages.nextId t = [] := by
    intro t
    by_contra hne
    exact absurd (h.history.past _ t hne).1 (Nat.lt_irrefl _)
  refine ⟨h.construct, ?_, ?_, rfl, rfl⟩
  · unfold create Storages.construct
    split <;> exact if_pos rfl
  · intro t
    unfold create Storages.construct
    split <;> simp [hpast]

/-- A writer is made for the threads that have not pushed. -/
theorem Inv.makes_iff (h : Inv s) (ht : s.storages.thread t = .during) :
    s.makes t = true ↔ t ∉ s.pushers := by
  have hid := h.storages.tables.ids _ h.live
  rw [h.pushed, not_not, makes, decide_eq_true_iff]
  constructor
  -- a thread that has pushed still owns its slot, as it has not exited
  · intro hzero
    by_contra hne
    rw [h.storages.filled.kept _ t h.live ht hne] at hzero
    omega
  · intro hnil
    refine (h.storages.slot_owner h.live (t := t)).resolve_right fun hown ↦ ?_
    obtain ⟨-, -, -, hne⟩ := h.storages.filled.owner t _ _ (by omega) hown
    exact hne hnil

theorem Inv.push (h : Inv s) (ht : s.storages.thread t = .during) : Inv (s.push t) := by
  have hget : ∀ u, (s.push t).storages.gotten s.writers u ≠ [] ↔
      u = t ∨ s.storages.gotten s.writers u ≠ [] := by
    intro u
    by_cases hu : u = t <;> simp [Pushing.push, hu]
  -- a writer is made exactly where a new thread is noted
  have hmakes := h.makes_iff ht
  refine ⟨h.storages.get h.live ht, h.live, ?_, ?_, ?_⟩
  · intro u
    refine Iff.trans ?_ (hget u).symm
    rw [← h.pushed]
    by_cases hmem : t ∈ s.pushers
    · simp only [Pushing.push, if_pos hmem]
      constructor
      · exact Or.inr
      · rintro (rfl | hu)
        · exact hmem
        · exact hu
    · simp only [Pushing.push, if_neg hmem, List.mem_append, List.mem_singleton]
      exact or_comm
  · by_cases hmem : t ∈ s.pushers
    · have hmade : s.makes t = false := by simpa [hmem] using hmakes
      simp [Pushing.push, hmem, hmade, h.sequence]
    · have hmade : s.makes t = true := hmakes.mpr hmem
      simp [Pushing.push, hmem, hmade, h.sequence]
  · by_cases hmem : t ∈ s.pushers
    · have hmade : s.makes t = false := by simpa [hmem] using hmakes
      simp [Pushing.push, hmem, hmade, h.indexes]
    · have hmade : s.makes t = true := hmakes.mpr hmem
      simp [Pushing.push, hmem, hmade, h.indexes, h.sequence, List.range_succ]

theorem Inv.other (h : Inv s) {a : ObjectScopedThreadLocalStorage.Action MpscRingBufferWriter}
    {storages : Storages MpscRingBufferWriter} (ha : s.Concerns a = false)
    (hstep : s.storages.step a = some storages) : Inv { s with storages := storages } := by
  have hid := h.storages.tables.ids _ h.live
  -- the storage of the queue stays live, and nothing is returned from it
  have hkeeps : storages.live s.writers = true ∧
      ∀ t, storages.gotten s.writers t = s.storages.gotten s.writers t := by
    cases a with
    | construct hasDefault returnFunction =>
      cases hstep
      unfold Storages.construct
      split
      · exact ⟨by simp [h.live], fun _ ↦ rfl⟩
      · exact ⟨by simp [h.live], fun _ ↦ rfl⟩
    | destroy o =>
      have hne : o ≠ s.writers := by simpa [Concerns] using ha
      rw [Storages.step, Option.ite_none_right_eq_some] at hstep
      obtain ⟨-, hstep⟩ := hstep
      cases hstep
      exact ⟨by simp [hne.symm, h.live], fun _ ↦ rfl⟩
    | start t | exit t =>
      rw [Storages.step, Option.ite_none_right_eq_some] at hstep
      obtain ⟨-, hstep⟩ := hstep
      cases hstep
      exact ⟨h.live, fun _ ↦ rfl⟩
    | get o t result =>
      have hne : o ≠ s.writers := by simpa [Concerns] using ha
      rw [Storages.step, Option.ite_none_right_eq_some] at hstep
      obtain ⟨-, hstep⟩ := hstep
      cases hstep
      exact ⟨h.live, fun u ↦ by simp [hne.symm]⟩
  refine ⟨h.storages.step hstep, hkeeps.1, fun t ↦ ?_, h.sequence, h.indexes⟩
  exact (h.pushed t).trans (by rw [hkeeps.2 t])

theorem Inv.bounded_iff (h : Inv s) : Bounded s ↔ s.pushers.length ≤ s.producerNum.toNat := by
  unfold Bounded
  rw [h.indexes]
  constructor
  · intro hbounded
    by_contra hlt
    -- the writer that is one too many gets the number of the workers as its index
    have hmem : s.producerNum ∈ (List.range s.pushers.length).map UInt32.ofNat :=
      List.mem_map.mpr ⟨s.producerNum.toNat, List.mem_range.mpr (by omega), UInt32.ofNat_toNat⟩
    exact absurd (hbounded _ hmem) (UInt32.lt_irrefl _)
  · intro hle i hi
    obtain ⟨j, hj, rfl⟩ := List.mem_map.mp hi
    have hj := List.mem_range.mp hj
    have hlt : j < UInt32.size := Nat.lt_of_lt_of_le (by omega) (Nat.le_of_lt s.producerNum.toNat_lt)
    rw [UInt32.lt_iff_toNat_lt, UInt32.toNat_ofNat_of_lt' hlt]
    omega

theorem Inv.step (h : Inv s) (hbounded : Bounded s) {a : Action} (hstep : s.step a = some s') :
    (Bounded s' ↔ Fits s a) ∧ Inv s' := by
  cases a with
  | push t =>
    rw [Pushing.step, Option.ite_none_right_eq_some] at hstep
    obtain ⟨ht, hstep⟩ := hstep
    cases hstep
    have hafter := h.push ht
    refine ⟨?_, hafter⟩
    rw [h.bounded_iff] at hbounded
    rw [hafter.bounded_iff]
    by_cases hmem : t ∈ s.pushers
    · simp [Fits, Pushing.push, hmem, hbounded]
    · have hfits : s.Fits (.push t) ↔ s.pushers.length < s.producerNum.toNat := by
        simp [Fits, hmem, ht]
      rw [hfits, Pushing.push, if_neg hmem, List.length_append]
      exact Iff.rfl
  | other a =>
    rw [Pushing.step] at hstep
    split at hstep
    · contradiction
    · rename_i ha
      rw [Option.map_eq_some_iff] at hstep
      obtain ⟨storages, hstorages, rfl⟩ := hstep
      exact ⟨iff_of_true hbounded trivial, h.other (by simpa using ha) hstorages⟩

/-- The indexes stay in the bounds all the time, if and only if no more threads push than there are
workers, those that have exited included. -/
theorem always_bounded_iff_fits {bs : List (ObjectScopedThreadLocalStorage.Action
    MpscRingBufferWriter)} {storages : Storages MpscRingBufferWriter}
    (hrun : run Storages.step Storages.initial bs = some storages) (hardwareConcurrency : UInt32)
    (as : List Action) :
    Always step Bounded (create storages hardwareConcurrency) as ↔
      Meets step Fits (create storages hardwareConcurrency) as := by
  apply always_iff_meets Inv Bounded
  · intro s a s' h hbounded hstep
    obtain ⟨hiff, hafter⟩ := h.step hbounded hstep
    exact ⟨hiff, fun _ ↦ hafter⟩
  · -- a push that is not possible is none of a running thread
    intro s a hstuck
    cases a with
    | push t =>
      intro ht
      rw [step, if_pos ht] at hstuck
      contradiction
    | other a => trivial
  · exact inv_create (Storages.inv_of_run hrun) hardwareConcurrency
  · simp [Bounded, create]

/-- On a machine of two threads, the queue of a program in which one thread after another pushes. -/
def oneAfterAnother : List Action :=
  [.other (.start 0), .push 0, .other (.exit 0), .other (.start 1), .push 1, .other (.exit 1),
    .other (.start 2), .push 2]

theorem always_bounded_iff_fits_oneAfterAnother :
    Always step Bounded (create Storages.initial 2) (oneAfterAnother.take 7) ↔
      Meets step Fits (create Storages.initial 2) (oneAfterAnother.take 7) :=
  always_bounded_iff_fits (rfl : run Storages.step Storages.initial [] = some _) 2 _

/-- The third one gets index 2 of two workers, when no other thread is left. -/
theorem not_bounded_oneAfterAnother :
    ∃ s, run step (create Storages.initial 2) oneAfterAnother = some s ∧ s.indexes = [0, 1, 2] ∧
      ¬ Bounded s := by
  refine ⟨_, rfl, rfl, fun hbounded ↦ ?_⟩
  exact absurd (hbounded 2 (by decide)) (by decide)

/-- Where `hardware_concurrency` is not known and says 0, the first writer has no worker. -/
example : ∃ s, run step (create Storages.initial 0) [.other (.start 0), .push 0] = some s ∧
    s.indexes = [0] :=
  ⟨_, rfl, rfl⟩

end Pushing

end MpscRingBufferWriter

end Ustevent
