import Ustevent.Ring.Offset
import Mathlib.Data.List.FinRange
import Mathlib.Logic.Function.Basic

/-!
# MpscRingBuffer, one call at a time

The member functions of `MpscRingBuffer.cpp` as functions of the shared state, each call taken as
one atomic step.  A call that would wait forever on a locked word ends in `Stop.spin`, a failed
`assert` in `Stop.assertion`.  `n` is `_producer_num`, `capacity` the `_capacity` of the
constructor; the bytes of `_buffer` are left to the task queue.
-/

namespace Ustevent

structure Worker where
  seen : Nat
  registered : Bool
deriving DecidableEq

structure MpscRingBuffer (n : Nat) where
  producerBarrier : Nat
  end_ : Nat
  consumerBarrier : Nat
  workers : Fin n → Worker

namespace MpscRingBuffer

inductive Stop
  | spin
  | assertion
deriving DecidableEq

/-- `assert(c)` -/
def check (c : Prop) [Decidable c] : Except Stop Unit := if c then .ok () else .error .assertion

variable {n : Nat}

/-- The members as the constructor leaves them. -/
def create (n : Nat) : MpscRingBuffer n where
  producerBarrier := 0
  end_ := maxOffset
  consumerBarrier := 0
  workers _ := { seen := 0, registered := false }

def setWorker (rb : MpscRingBuffer n) (w : Fin n) (worker : Worker) : MpscRingBuffer n :=
  { rb with workers := Function.update rb.workers w worker }

/-- `worker._seen.store(seen)` -/
def storeSeen (rb : MpscRingBuffer n) (w : Fin n) (seen : Nat) : MpscRingBuffer n :=
  rb.setWorker w { rb.workers w with seen := seen }

def current (rb : MpscRingBuffer n) : Nat := rb.consumerBarrier

def registerWorker (rb : MpscRingBuffer n) (w : Fin n) : MpscRingBuffer n :=
  rb.setWorker w { seen := maxOffset, registered := true }

def unregisterWorker (rb : MpscRingBuffer n) (w : Fin n) : MpscRingBuffer n :=
  rb.setWorker w { rb.workers w with registered := false }

def registered (rb : MpscRingBuffer n) (w : Fin n) : Bool := (rb.workers w).registered

def getStableSeen (worker : Worker) : Except Stop Nat :=
  if isLocked worker.seen then .error .spin else .ok worker.seen

def getStableNext (capacity : Nat) (rb : MpscRingBuffer n) : Except Stop Nat := do
  if isLocked rb.producerBarrier then throw .spin
  check (getBufferIndex rb.producerBarrier < capacity)
  return rb.producerBarrier

/-- The body of acquire's loop between the loads of the barrier and of the consumer offset and the
compare-exchange: the new value of the barrier, or `none` where acquire gives up. -/
def acquireTarget (capacity seen size written : Nat) : Option Nat :=
  let next := getBufferIndex seen
  let target := (next + size) % 2 ^ 64
  -- cannot go beyond the consumer offset or catch up with it
  if next < written ∧ target ≥ written then none
  else if target ≥ capacity then
    -- cut off the rest of the buffer and start at 0, or use it exactly to the end
    let target := if target > capacity then lockWrapBit size else 0
    if getBufferIndex target ≥ written then none
    else some (setWrapCounter target (increaseWrapCounter (getWrapCounter seen)))
  else some (setWrapCounter target (getWrapCounter seen))

/-- Returns the offset of `*address`, or `none` for `false`.  Taken as one step, the
compare-exchange can fail spuriously only, and the loop then meets the same state again. -/
def acquire (capacity : Nat) (rb : MpscRingBuffer n) (w : Fin n) (size : Nat) :
    Except Stop (Option Nat × MpscRingBuffer n) := do
  if size > capacity then return (none, rb)
  check ((rb.workers w).seen = maxOffset)
  let seen ← getStableNext capacity rb
  let next := getBufferIndex seen
  check (next < capacity)
  let rb := rb.storeSeen w (lockWrapBit next)
  match acquireTarget capacity seen size rb.current with
  | none => return (none, rb.storeSeen w maxOffset)
  | some target =>
    let rb := { rb with producerBarrier := target }
    let rb := rb.storeSeen w (unlockWrapBit (rb.workers w).seen)
    if isLocked target then
      check (rb.current ≤ next)
      check (rb.end_ = maxOffset)
      let rb := { rb with end_ := next, producerBarrier := unlockWrapBit target }
      check (getBufferIndex target ≤ capacity)
      return (some 0, rb)
    else
      check (getBufferIndex target ≤ capacity)
      return (some next, rb)

def produce (rb : MpscRingBuffer n) (w : Fin n) : Except Stop (MpscRingBuffer n) := do
  check ((rb.workers w).registered = true)
  check ((rb.workers w).seen ≠ maxOffset)
  return rb.storeSeen w maxOffset

/-- One turn of consume's loop over the workers. -/
def observe (written ready : Nat) (worker : Worker) : Except Stop Nat := do
  if !worker.registered then return ready
  let seen ← getStableSeen worker
  let ready := if seen ≥ written then min seen ready else ready
  check (ready ≥ written)
  return ready

/-- The smallest offset at or after `written` that a registered worker has published. -/
def observeWorkers (rb : MpscRingBuffer n) (written : Nat) : Except Stop Nat :=
  (List.finRange n).foldlM (fun ready w ↦ observe written ready (rb.workers w)) maxOffset

/-- One pass of consume's outer loop: the address and size to return, or `none` for `continue`. -/
def consumePass (capacity : Nat) (rb : MpscRingBuffer n) (written : Nat) :
    Except Stop (Option (Option Nat × Nat) × MpscRingBuffer n) := do
  let next := getBufferIndex (← getStableNext capacity rb)
  if written = next then return (some (none, 0), rb)
  let ready ← observeWorkers rb written
  if next < written then
    let stop := min capacity rb.end_
    if ready = maxOffset ∧ written = stop then
      let rb := if rb.end_ ≠ maxOffset then { rb with end_ := maxOffset } else rb
      return (none, { rb with consumerBarrier := 0 })
    check (ready > next)
    let ready := min ready stop
    check (ready ≥ written)
    check (ready - written ≤ capacity)
    return (some (some written, ready - written), rb)
  else
    let ready := min ready next
    check (ready ≥ written)
    check (ready - written ≤ capacity)
    return (some (some written, ready - written), rb)

def consumeLoop (capacity : Nat) :
    Nat → MpscRingBuffer n → Nat → Except Stop ((Option Nat × Nat) × MpscRingBuffer n)
  | 0, _, _ => .error .spin
  | fuel + 1, rb, written => do
    match ← consumePass capacity rb written with
    | (some result, rb) => return (result, rb)
    | (none, rb) => consumeLoop capacity fuel rb 0

/-- Returns the offset of `*address`, where it is set, and the number of bytes.  A second
`continue` cannot follow the first, since no index is below 0. -/
def consume (capacity : Nat) (rb : MpscRingBuffer n) :
    Except Stop ((Option Nat × Nat) × MpscRingBuffer n) :=
  consumeLoop capacity 2 rb rb.current

def release (capacity : Nat) (rb : MpscRingBuffer n) (bytes : Nat) :
    Except Stop (MpscRingBuffer n) := do
  let written := rb.current
  let releasedWritten := (written + bytes) % 2 ^ 64
  check (written ≤ capacity)
  check (written ≤ rb.end_)
  check (releasedWritten ≤ capacity)
  return { rb with consumerBarrier := if releasedWritten = capacity then 0 else releasedWritten }

/-! ## Field lemmas -/

@[simp] theorem storeSeen_producerBarrier (rb : MpscRingBuffer n) (w : Fin n) (v : Nat) :
    (rb.storeSeen w v).producerBarrier = rb.producerBarrier := rfl

@[simp] theorem storeSeen_end (rb : MpscRingBuffer n) (w : Fin n) (v : Nat) :
    (rb.storeSeen w v).end_ = rb.end_ := rfl

@[simp] theorem storeSeen_consumerBarrier (rb : MpscRingBuffer n) (w : Fin n) (v : Nat) :
    (rb.storeSeen w v).consumerBarrier = rb.consumerBarrier := rfl

@[simp] theorem storeSeen_workers (rb : MpscRingBuffer n) (w : Fin n) (v : Nat) :
    (rb.storeSeen w v).workers =
      Function.update rb.workers w { rb.workers w with seen := v } := rfl

@[simp] theorem ok_bind {α β : Type} (a : α) (f : α → Except Stop β) :
    (Except.ok a >>= f) = f a := rfl

theorem bind_eq_ok {α β : Type} {x : Except Stop α} {f : α → Except Stop β} {b : β}
    (h : (x >>= f) = .ok b) : ∃ a, x = .ok a ∧ f a = .ok b := by
  cases x with
  | error e => contradiction
  | ok a => exact ⟨a, rfl, h⟩

theorem check_of {c : Prop} {_ : Decidable c} (h : c) : check c = .ok () := if_pos h

end MpscRingBuffer

end Ustevent
