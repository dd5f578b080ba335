import Ustevent.Queue.Record
import Ustevent.Ring.Refinement

/-!
# ContextTaskQueue and the worker threads of a Context

Threads push tasks, workers whose ready queue is empty pop them and launch a fiber for each, and
the fibers perform the operations later, possibly on a worker that has stolen them.  Each function
of the ring buffer, `pop` and `deallocate` are one step each; a push acquires its record, writes it
and produces it in three steps, and a fiber deallocates the record and invokes the handler in two.

Tasks are numbered by their acquire.  `task` and `record` of a fiber tell what its pop found at the
operation that it returned.
-/

namespace Ustevent

open Reasoning MpscRingBuffer

variable {n m : Nat}

/-- Pointers into the buffer are offsets; the null pointers of the constructor are equal, which is
all that `pop` looks at. -/
structure ContextTaskQueue (n : Nat) where
  ring : MpscRingBuffer n
  memory : ContextTaskQueue.Buffer
  poped : Nat
  consumed : Nat

namespace ContextTaskQueue

def create (n : Nat) : ContextTaskQueue n where
  ring := MpscRingBuffer.create n
  memory _ := .byte 0
  poped := 0
  consumed := 0

def pop (capacity : Nat) (q : ContextTaskQueue n) :
    Except Stop (Option Popped × ContextTaskQueue n) :=
  if q.poped < q.consumed then
    let (popped, length) := readRecord capacity q.memory q.poped
    return (some popped, { q with poped := q.poped + length })
  else do
    let ((address, length), ring) ← consume capacity q.ring
    if length = 0 then return (none, { q with ring := ring })
    let base := address.getD 0
    let (popped, contextTaskLength) := readRecord capacity q.memory base
    return (some popped,
      { q with ring := ring, consumed := base + length, poped := base + contextTaskLength })

/-- `TaskDeallocator::deallocate` -/
def deallocate (capacity : Nat) (q : ContextTaskQueue n) (operation : Nat) :
    Except Stop (ContextTaskQueue n) := do
  let ring ← release capacity q.ring (recordLength q.memory operation)
  return { q with ring := ring }

/-- The number of the task whose operation object is found at an address. -/
def taskAt (q : ContextTaskQueue n) (operation : Nat) : Option Nat :=
  (q.memory.readObject Operation.size operation).map Operation.task

end ContextTaskQueue

open ContextTaskQueue

/-- A thread that pushes, with its writer of the ring buffer. -/
inductive Writer
  | unregistered
  | idle
  | acquired (number : Nat) (task : Task) (base : Nat)
  | written
deriving DecidableEq

/-- The bytes that an acquire has handed to the thread and that it has yet to write. -/
def Writer.record : Writer → Option (Nat × Nat)
  | .acquired _ task base => some (base, task.acquiredSize)
  | _ => none

/-- A launched fiber: before doPerform, with the handler moved out and the record deallocated, and
after the handler has been invoked. -/
inductive Phase
  | ready (operation : Nat)
  | invoking (handler : Option Nat)
  | done (handler : Option Nat)
deriving DecidableEq

structure Fiber (m : Nat) where
  worker : Fin m
  phase : Phase
  task : Option Nat
  record : Nat × Nat
deriving DecidableEq

/-- The operation that a fiber in a ready queue has yet to perform. -/
def Fiber.operation (f : Fiber m) : Option Nat :=
  match f.phase with
  | .ready operation => some operation
  | _ => none

/-- The task whose handler the fiber has invoked. -/
def Fiber.handled (f : Fiber m) : Option (Option Nat) :=
  match f.phase with
  | .done handler => some handler
  | _ => none

/-- The part of a Context that remote tasks go through; `acquires` is history. -/
structure Context (n m : Nat) where
  queue : ContextTaskQueue n
  writers : Fin n → Writer
  fibers : List (Fiber m)
  acquires : Nat

namespace Context

inductive Action (n m : Nat)
  | registerWriter (w : Fin n)
  | acquire (w : Fin n) (task : Task)
  | write (w : Fin n)
  | produce (w : Fin n)
  | pop (v : Fin m)
  | steal (v : Fin m) (i : Nat)
  | perform (i : Nat)
  | invoke (i : Nat)
deriving DecidableEq

def initial (n m : Nat) : Context n m where
  queue := create n
  writers _ := .unregistered
  fibers := []
  acquires := 0

/-- The worker has no fiber to run, so that its scheduler calls suspend_until. -/
def suspends (s : Context n m) (v : Fin m) : Bool :=
  s.fibers.all fun f ↦ !(f.worker == v && f.operation.isSome)

def setWriter (s : Context n m) (w : Fin n) (writer : Writer) : Context n m :=
  { s with writers := Function.update s.writers w writer }

def setFiber (s : Context n m) (i : Nat) (f : Fiber m) : Context n m :=
  { s with fibers := s.fibers.set i f }

def setRing (s : Context n m) (ring : MpscRingBuffer n) : Context n m :=
  { s with queue := { s.queue with ring := ring } }

/-- `_launchPostedTask`: pop and start a fiber for the operation on the worker that popped it. -/
def launch (capacity : Nat) (s : Context n m) (v : Fin m) : Option (Context n m) :=
  match pop capacity s.queue with
  | .error _ => none
  | .ok (none, queue) => some { s with queue := queue }
  | .ok (some popped, queue) =>
    let fiber : Fiber m :=
      { worker := v
        phase := .ready popped.operation
        task := queue.taskAt popped.operation
        record := (popped.operation - operationOffset, recordLength queue.memory popped.operation) }
    some { s with queue := queue, fibers := s.fibers ++ [fiber] }

def step (capacity : Nat) (s : Context n m) : Action n m → Option (Context n m)
  | .registerWriter w =>
    if s.writers w = .unregistered then
      some ((s.setRing (s.queue.ring.registerWorker w)).setWriter w .idle)
    else none
  | .acquire w task =>
    if s.writers w = .idle then
      match MpscRingBuffer.acquire capacity s.queue.ring w task.acquiredSize with
      | .error _ => none
      | .ok (none, ring) => some (s.setRing ring)
      | .ok (some base, ring) =>
        some { (s.setRing ring).setWriter w (.acquired s.acquires task base) with
          acquires := s.acquires + 1 }
    else none
  | .write w =>
    match s.writers w with
    | .acquired number task base =>
      some { s.setWriter w .written with
        queue := { s.queue with memory := writeRecord s.queue.memory base number task } }
    | _ => none
  | .produce w =>
    if s.writers w = .written then
      match MpscRingBuffer.produce s.queue.ring w with
      | .error _ => none
      | .ok ring => some ((s.setRing ring).setWriter w .idle)
    else none
  | .pop v => if s.suspends v then s.launch capacity v else none
  | .steal v i =>
    match s.fibers[i]? with
    | some f => if f.operation.isSome then some (s.setFiber i { f with worker := v }) else none
    | none => none
  | .perform i =>
    match s.fibers[i]? with
    | some f =>
      match f.phase with
      | .ready operation =>
        match deallocate capacity s.queue operation with
        | .error _ => none
        | .ok queue =>
          some { s.setFiber i { f with phase := .invoking (s.queue.taskAt operation) } with
            queue := queue }
      | _ => none
    | none => none
  | .invoke i =>
    match s.fibers[i]? with
    | some f =>
      match f.phase with
      | .invoking handler => some (s.setFiber i { f with phase := .done handler })
      | _ => none
    | none => none

/-! ## What the users of a Context rely on -/

/-- The tasks that the pops returned, in order. -/
def popped (s : Context n m) : List (Option Nat) := s.fibers.map Fiber.task

/-- The tasks whose handlers have been invoked. -/
def handled (s : Context n m) : List (Option Nat) := s.fibers.filterMap Fiber.handled

/-- Each pop returned a task of its own, in the order of the acquires, and no handler has been
invoked twice. -/
structure Ordered (s : Context n m) : Prop where
  popped : ∃ numbers : List Nat, s.popped = numbers.map some ∧ numbers.Pairwise (· < ·)
  handled : s.handled.Nodup

/-- No thread has been handed a byte of a record that has been popped and not yet performed. -/
def Kept (s : Context n m) : Prop :=
  ∀ w, ∀ r ∈ (s.writers w).record, ∀ f ∈ s.fibers, f.operation.isSome →
    f.record.1 + f.record.2 ≤ r.1 ∨ r.1 + r.2 ≤ f.record.1

instance (s : Context n m) : Decidable s.Kept :=
  inferInstanceAs (Decidable (∀ w, ∀ r ∈ (s.writers w).record, ∀ f ∈ s.fibers,
    f.operation.isSome → f.record.1 + f.record.2 ≤ r.1 ∨ r.1 + r.2 ≤ f.record.1))

/-- A perform deallocates the oldest record in the ring buffer. -/
def OldestFirst (s : Context n m) : Action n m → Prop
  | .perform i => ∀ f ∈ s.fibers[i]?, ∀ operation ∈ f.operation,
      operation - operationOffset = s.queue.ring.current
  | _ => True

/-- A pop that has to consume finds all popped tasks performed. -/
def UsedUp (s : Context n m) : Action n m → Prop
  | .pop _ => s.queue.poped < s.queue.consumed ∨ ∀ f ∈ s.fibers, f.operation = none
  | _ => True

/-- Pops and performs take turns so that the cursor of pop and the consumer offset agree. -/
def InTurn (s : Context n m) (action : Action n m) : Prop :=
  s.UsedUp action ∧ s.OldestFirst action

instance (s : Context n m) : (action : Action n m) → Decidable (s.OldestFirst action)
  | .perform i => inferInstanceAs (Decidable (∀ f ∈ s.fibers[i]?, ∀ operation ∈ f.operation,
      operation - operationOffset = s.queue.ring.current))
  | .registerWriter _ | .acquire _ _ | .write _ | .produce _ | .pop _ | .steal _ _
  | .invoke _ => isTrue trivial

instance (s : Context n m) : (action : Action n m) → Decidable (s.UsedUp action)
  | .pop _ => inferInstanceAs (Decidable (s.queue.poped < s.queue.consumed ∨
      ∀ f ∈ s.fibers, f.operation = none))
  | .registerWriter _ | .acquire _ _ | .write _ | .produce _ | .steal _ _ | .perform _
  | .invoke _ => isTrue trivial

instance (s : Context n m) (action : Action n m) : Decidable (s.InTurn action) :=
  inferInstanceAs (Decidable (s.UsedUp action ∧ s.OldestFirst action))

end Context

end Ustevent
