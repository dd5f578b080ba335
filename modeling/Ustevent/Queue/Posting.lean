import Ustevent.Queue.Decode
import Ustevent.Ring.InterleavedSafe

/-!
# Posted tasks, one atomic access at a time

A context with one worker.  Any number of threads push records into the ring buffer, whose member
functions are cut at their atomic accesses, and write the fields of a record one by one.  The worker
pops the records, starts a fiber for each, and performs its operation before it pops again.
-/

namespace Ustevent

open Reasoning MpscRingBuffer ContextTaskQueue

/-- What push writes into the field with the given number, in its order. -/
def ContextTaskQueue.writeField (base number : Nat) (task : Task) (field : Nat) (m : Buffer) :
    Buffer :=
  match field with
  | 0 => m.write32 base task.acquiredSize
  | 1 => m.write32 (base + operationLengthOffset) task.operationLength
  | 2 => m.writeObject Operation.size (base + operationOffset) ⟨number, task.operationLength⟩
  | 3 => m.write32 (base + stackSizeOffset task.operationLength) task.stackSize
  | 4 => m.write32 (base + descriptionLengthOffset task.operationLength) task.description.length
  | 5 => m.writeBytes (base + descriptionOffset task.operationLength) task.description
  | 6 =>
    m.writeBytes (base + descriptionOffset task.operationLength + task.description.length) [0]
  | _ => m

def ContextTaskQueue.fieldCount : Nat := 7

namespace Posting

variable {n : Nat}

/-- Where a thread is in `push`. -/
inductive Pusher
  | idle
  /-- in the loop, without a record -/
  | acquires (number : Nat) (task : Task)
  | writes (number : Nat) (task : Task) (base fields : Nat)
deriving DecidableEq

/-- Where the worker is. -/
inductive Popper
  | idle
  /-- `pop` has called `consume` -/
  | consumes
  /-- a fiber has been started for the record -/
  | launched (popped : Popped)
  /-- `doPerform` has moved the handler out and has called `deallocate` -/
  | deallocates (popped : Popped) (handler : Option Operation)
deriving DecidableEq

/-- A handler that has been invoked, and what its fiber has been started with. -/
structure Performed where
  handler : Option Operation
  stackSize : Nat
  description : List UInt8
deriving DecidableEq

/-- `order` is the history of the tasks whose records have been acquired. -/
structure State (n : Nat) where
  ring : System n
  memory : Buffer
  pushers : Fin n → Pusher
  poped : Nat
  consumed : Nat
  popper : Popper
  order : List (Nat × Task)
  performed : List Performed

inductive Action (n : Nat)
  | registerWriter (w : Fin n)
  | push (w : Fin n) (number : Nat) (task : Task)
  /-- the loop of `push` calls `acquire` -/
  | acquire (w : Fin n)
  /-- the next access of the thread to the ring buffer -/
  | pusher (w : Fin n)
  | spurious (w : Fin n)
  | write (w : Fin n)
  | produce (w : Fin n)
  | pop
  /-- the next access of the worker to the ring buffer -/
  | popper
  /-- `consume` has returned to `pop` -/
  | consumed
  | perform
  | invoke
deriving DecidableEq

namespace State

def initial (n : Nat) : State n where
  ring := System.initial n
  memory _ := .byte 0
  pushers _ := .idle
  poped := 0
  consumed := 0
  popper := .idle
  order := []
  performed := []

def setPusher (s : State n) (w : Fin n) (pusher : Pusher) : State n :=
  { s with pushers := Function.update s.pushers w pusher }

def setRing (s : State n) (ring : System n) : State n := { s with ring := ring }

/-- The compare-exchange that the thread is about to make will succeed. -/
def wins (s : State n) (w : Fin n) : Option Nat :=
  match s.ring.producers w with
  | .exchange _ seen target _ =>
    if s.ring.ring.producerBarrier = seen then some (startOf (getBufferIndex seen) target) else none
  | _ => none

/-- `pop` reads the record at `base`, and its caller starts the fiber. -/
def launch (capacity : Nat) (s : State n) (base : Nat) : State n :=
  let (popped, length) := readRecord capacity s.memory base
  { s with poped := base + length, popper := .launched popped }

def step (capacity : Nat) (s : State n) : Action n → Option (State n)
  | .registerWriter w => (s.ring.step capacity (.registerWorker w)).map s.setRing
  | .push w number task =>
    if s.pushers w = .idle ∧ s.ring.producers w = .idle then
      some (s.setPusher w (.acquires number task))
    else none
  | .acquire w =>
    match s.pushers w with
    | .acquires _ task => (s.ring.step capacity (.acquire w task.acquiredSize)).map s.setRing
    | _ => none
  | .pusher w =>
    (s.ring.step capacity (.producer w)).map fun ring ↦
      match s.wins w, s.pushers w with
      | some base, .acquires number task =>
        { (s.setRing ring).setPusher w (.writes number task base 0) with
          order := s.order ++ [(number, task)] }
      | _, _ => s.setRing ring
  | .spurious w => (s.ring.step capacity (.spurious w)).map s.setRing
  | .write w =>
    match s.pushers w with
    | .writes number task base fields =>
      if s.ring.producers w = .holding ∧ fields < fieldCount then
        some { s.setPusher w (.writes number task base (fields + 1)) with
          memory := writeField base number task fields s.memory }
      else none
    | _ => none
  | .produce w =>
    match s.pushers w with
    | .writes _ _ _ fields =>
      if fields = fieldCount then
        (s.ring.step capacity (.produce w)).map fun ring ↦ (s.setRing ring).setPusher w .idle
      else none
    | _ => none
  | .pop =>
    if s.popper = .idle then
      if s.poped < s.consumed then some (s.launch capacity s.poped)
      else
        (s.ring.step capacity .consume).map fun ring ↦
          { s.setRing ring with popper := .consumes }
    else none
  | .popper => (s.ring.step capacity .consumer).map s.setRing
  | .consumed =>
    match s.popper, s.ring.consumer with
    | .consumes, .returned address length =>
      if length = 0 then some { s with popper := .idle }
      else
        let base := address.getD 0
        some { s.launch capacity base with consumed := base + length }
    | _, _ => none
  | .perform =>
    match s.popper with
    | .launched popped =>
      let bytes := recordLength s.memory popped.operation
      let handler := s.memory.readObject Operation.size popped.operation
      -- release of one reservation, if the record is one
      some { s with
        ring := { s.ring with consumer := .loadCurrent 1 bytes }
        popper := .deallocates popped handler }
    | _ => none
  | .invoke =>
    match s.popper with
    | .deallocates popped handler =>
      if s.ring.consumer = .idle then
        some { s with
          popper := .idle
          performed := s.performed ++ [⟨handler, popped.stackSize, popped.description⟩] }
      else none
    | _ => none

/-- A compare-exchange that succeeds is not stale. -/
def Fresh (s : State n) : Action n → Prop
  | .pusher w => s.ring.Fresh (.producer w)
  | _ => True

instance (s : State n) : (action : Action n) → Decidable (s.Fresh action)
  | .pusher w => inferInstanceAs (Decidable (s.ring.Fresh (.producer w)))
  | .registerWriter _ | .push _ _ _ | .acquire _ | .spurious _ | .write _ | .produce _ | .pop
  | .popper | .consumed | .perform | .invoke => isTrue trivial

end State

/-- What performing a task that has been pushed comes to.  The stack size goes through 32 bits, and
the description ends at its first zero byte. -/
def performs (record : Nat × Task) : Performed where
  handler := some ⟨record.1, record.2.operationLength⟩
  stackSize := record.2.stackSize % 2 ^ 32
  description := record.2.text

end Posting

end Ustevent
