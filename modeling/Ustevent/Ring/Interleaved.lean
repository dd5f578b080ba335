import Ustevent.Reasoning.Runs
import Ustevent.Ring.Layout
import Mathlib.Data.Fintype.Basic

/-!
# MpscRingBuffer, one atomic access at a time

The same member functions, cut at their loads, stores and compare-exchange attempts: any number of
workers and one consumer take turns in any order.  The asserts only read, and are left out.  A load
that meets a locked word stays where it is.

A reservation enters `pending` with the compare-exchange that makes it and leaves with the store of
`release`.  `wraps` counts the wrap-arounds of the barrier and `lap` is its value when a producer
loaded the barrier; no step depends on them.
-/

namespace Ustevent.MpscRingBuffer

open Reasoning Reservation

/-- Where a worker stands in `registerWorker`, `acquire` or `produce`, with its local variables. -/
inductive Producer
  | unregistered
  | registering
  | idle
  | loadNext (size : Nat)
  | storeSeen (size seen lap : Nat)
  | loadWritten (size seen lap : Nat)
  | giveUp
  | exchange (size seen target lap : Nat)
  | loadSeen (seen target : Nat)
  | storeUnlocked (seen target own : Nat)
  | setEnd (seen target : Nat)
  | unlockBarrier (target : Nat)
  | holding
deriving DecidableEq

/-- A compare-exchange that finds the barrier as it was loaded does so in the same lap. -/
def Producer.Fresh (barrier wraps : Nat) : Producer → Prop
  | .exchange _ seen _ lap => barrier = seen → lap = wraps
  | _ => True

instance (barrier wraps : Nat) : (pc : Producer) → Decidable (pc.Fresh barrier wraps)
  | .exchange _ seen _ lap => inferInstanceAs (Decidable (barrier = seen → lap = wraps))
  | .unregistered | .registering | .idle | .loadNext _ | .storeSeen _ _ _ | .loadWritten _ _ _
  | .giveUp | .loadSeen _ _ | .storeUnlocked _ _ _ | .setEnd _ _ | .unlockBarrier _
  | .holding => isTrue trivial

/-- Where the consumer stands in `consume` or `release`.  `k` is the number of reservations that a
release frees. -/
inductive Consumer (n : Nat)
  | idle
  | loadWritten
  | loadNext (written : Nat)
  | scan (written next ready : Nat) (rest : List (Fin n))
  | loadSeen (written next ready : Nat) (w : Fin n) (rest : List (Fin n))
  | resetEnd
  | storeZero
  | returned (address : Option Nat) (size : Nat)
  | loadCurrent (k bytes : Nat)
  | storeReleased (k bytes written : Nat)
deriving DecidableEq

structure System (n : Nat) where
  ring : MpscRingBuffer n
  producers : Fin n → Producer
  consumer : Consumer n
  pending : List (Reservation n)
  granted : Nat
  wraps : Nat

/-- A worker calls a function, a worker or the consumer takes its next step, or the weak
compare-exchange of a worker fails for no reason. -/
inductive Action (n : Nat)
  | registerWorker (w : Fin n)
  | acquire (w : Fin n) (size : Nat)
  | produce (w : Fin n)
  | producer (w : Fin n)
  | spurious (w : Fin n)
  | consume
  | release (k : Nat)
  | consumer
deriving DecidableEq

/-- `a - b` of two 64-bit words. -/
def sub64 (a b : Nat) : Nat := (a + 2 ^ 64 - b) % 2 ^ 64

/-- The barrier moves back to the start of the buffer. -/
def wrapsAround (target : Nat) : Bool := isLocked target || target == 0

namespace System

variable {n : Nat}

def initial (n : Nat) : System n where
  ring := create n
  producers _ := .unregistered
  consumer := .idle
  pending := []
  granted := 0
  wraps := 0

def goto (s : System n) (w : Fin n) (pc : Producer) : System n :=
  { s with producers := Function.update s.producers w pc }

theorem producers_goto_self (s : System n) (w : Fin n) (pc : Producer) :
    (s.goto w pc).producers w = pc := Function.update_self _ _ _

theorem producers_goto_of_ne (s : System n) (pc : Producer) {v w : Fin n} (h : v ≠ w) :
    (s.goto w pc).producers v = s.producers v := Function.update_of_ne h _ _

def store (s : System n) (ring : MpscRingBuffer n) : System n := { s with ring := ring }

/-- consume returns. -/
def give (s : System n) (address : Option Nat) (size : Nat) : System n :=
  { s with consumer := .returned address size, granted := covered size s.pending }

/-- The compare-exchange of `acquire`, after which the reservation is made. -/
def exchange (s : System n) (w : Fin n) (size seen target : Nat) : System n :=
  { s with
    ring := { s.ring with producerBarrier := target }
    pending := s.pending ++ [⟨w, startOf (getBufferIndex seen) target, size, false⟩]
    wraps := if wrapsAround target then s.wraps + 1 else s.wraps }

def producerStep (capacity : Nat) (s : System n) (w : Fin n) : Option (System n) :=
  match s.producers w with
  | .unregistered | .idle | .holding => none
  | .registering =>
    some ((s.store (s.ring.setWorker w { s.ring.workers w with registered := true })).goto w .idle)
  | .loadNext size =>
    if isLocked s.ring.producerBarrier then some s
    else some (s.goto w (.storeSeen size s.ring.producerBarrier s.wraps))
  | .storeSeen size seen lap =>
    some ((s.store (s.ring.storeSeen w (lockWrapBit (getBufferIndex seen)))).goto w
      (.loadWritten size seen lap))
  | .loadWritten size seen lap =>
    match acquireTarget capacity seen size s.ring.current with
    | none => some (s.goto w .giveUp)
    | some target => some (s.goto w (.exchange size seen target lap))
  | .giveUp => some ((s.store (s.ring.storeSeen w maxOffset)).goto w .idle)
  | .exchange size seen target _ =>
    if s.ring.producerBarrier = seen then
      some ((s.exchange w size seen target).goto w (.loadSeen seen target))
    else some (s.goto w (.loadNext size))
  | .loadSeen seen target =>
    some (s.goto w (.storeUnlocked seen target (s.ring.workers w).seen))
  | .storeUnlocked seen target own =>
    some ((s.store (s.ring.storeSeen w (unlockWrapBit own))).goto w
      (if isLocked target then .setEnd seen target else .holding))
  | .setEnd seen target =>
    some ((s.store { s.ring with end_ := getBufferIndex seen }).goto w (.unlockBarrier target))
  | .unlockBarrier target =>
    some ((s.store { s.ring with producerBarrier := unlockWrapBit target }).goto w .holding)

def consumerStep (capacity : Nat) (s : System n) : Option (System n) :=
  match s.consumer with
  | .idle | .returned _ _ => none
  | .loadWritten => some { s with consumer := .loadNext s.ring.current }
  | .loadNext written =>
    if isLocked s.ring.producerBarrier then some s
    else if written = getBufferIndex s.ring.producerBarrier then some (s.give none 0)
    else some { s with
      consumer := .scan written (getBufferIndex s.ring.producerBarrier) maxOffset (List.finRange n) }
  | .scan written next ready (w :: rest) =>
    if s.ring.registered w then some { s with consumer := .loadSeen written next ready w rest }
    else some { s with consumer := .scan written next ready rest }
  | .loadSeen written next ready w rest =>
    if isLocked (s.ring.workers w).seen then some s
    else
      let seen := (s.ring.workers w).seen
      some { s with
        consumer := .scan written next (if seen ≥ written then min seen ready else ready) rest }
  | .scan written next ready [] =>
    if next < written then
      if ready = maxOffset ∧ written = min capacity s.ring.end_ then
        some { s with consumer := .resetEnd }
      else some (s.give (some written) (sub64 (min ready (min capacity s.ring.end_)) written))
    else some (s.give (some written) (sub64 (min ready next) written))
  | .resetEnd =>
    some { s with
      ring := if s.ring.end_ ≠ maxOffset then { s.ring with end_ := maxOffset } else s.ring
      consumer := .storeZero }
  | .storeZero =>
    some { s with ring := { s.ring with consumerBarrier := 0 }, consumer := .loadNext 0 }
  | .loadCurrent k bytes =>
    some { s with consumer := .storeReleased k bytes s.ring.current }
  | .storeReleased k bytes written =>
    let released := (written + bytes) % 2 ^ 64
    some { s with
      ring := { s.ring with consumerBarrier := if released = capacity then 0 else released }
      consumer := .idle
      pending := s.pending.drop k
      granted := s.granted - k }

/-- The consumer is between two calls. -/
def resting (s : System n) : Bool :=
  match s.consumer with
  | .idle | .returned _ _ => true
  | _ => false

def step (capacity : Nat) (s : System n) : Action n → Option (System n)
  | .registerWorker w =>
    if s.producers w = .unregistered then
      some ((s.store (s.ring.storeSeen w maxOffset)).goto w .registering)
    else none
  | .acquire w size =>
    if s.producers w = .idle ∧ 1 ≤ size then
      if size > capacity then some s else some (s.goto w (.loadNext size))
    else none
  | .produce w =>
    if s.producers w = .holding then
      some { (s.store (s.ring.storeSeen w maxOffset)).goto w .idle with
        pending := s.pending.map (markProduced w) }
    else none
  | .producer w => s.producerStep capacity w
  | .spurious w =>
    match s.producers w with
    | .exchange size _ _ _ => some (s.goto w (.loadNext size))
    | _ => none
  | .consume => if s.resting then some { s with consumer := .loadWritten } else none
  | .release k =>
    if s.resting ∧ k ≤ s.granted then
      some { s with consumer := .loadCurrent k (total size (s.pending.take k)) }
    else none
  | .consumer => s.consumerStep capacity

/-! ## What the clients rely on -/

/-- The unreleased reservations that an acquire has returned. -/
def handedOut (s : System n) : List (Reservation n) :=
  s.pending.filter fun r ↦ r.produced || s.producers r.owner == .holding

/-- The bytes from `a` on that a consume returned: whole reservations, the oldest ones, none of them
still written to. -/
def Shown (s : System n) (a bytes : Nat) : Prop :=
  (∃ k, k ≤ s.pending.length ∧ Chain start size a (s.pending.take k) (a + bytes)) ∧
  ∀ r ∈ s.pending, r.produced = false → r.start + r.size ≤ a ∨ a + bytes ≤ r.start

structure Safe (capacity : Nat) (s : System n) : Prop where
  inside : ∀ r ∈ s.handedOut, r.start + r.size ≤ capacity
  disjoint : s.handedOut.Pairwise (Disjoint start size)
  shown : ∀ a bytes, s.consumer = .returned (some a) bytes → s.Shown a bytes

/-- A compare-exchange that succeeds meets the barrier of the lap in which its producer loaded it:
the barrier has not wrapped around in between. -/
def Fresh (s : System n) : Action n → Prop
  | .producer w => (s.producers w).Fresh s.ring.producerBarrier s.wraps
  | _ => True

instance (s : System n) : (action : Action n) → Decidable (s.Fresh action)
  | .producer w =>
    inferInstanceAs (Decidable ((s.producers w).Fresh s.ring.producerBarrier s.wraps))
  | .registerWorker _ | .acquire _ _ | .produce _ | .spurious _ | .consume | .release _
  | .consumer => isTrue trivial

end System

/-! ## A stale compare-exchange -/

/-- Worker 0 loads the barrier at 0 and, once the consumer has looked at it, the consumer offset 0.
Worker 1 uses the whole buffer, which takes the barrier round to 0 again, while the consumer frees
the first half.  The counter bits of the barrier never change, so the compare-exchange of worker 0
still finds the value that it loaded. -/
def staleRun : List (Action 2) :=
  [.registerWorker 0, .producer 0, .registerWorker 1, .producer 1,
    .acquire 0 3, .producer 0,
    .acquire 1 2, .producer 1, .producer 1, .producer 1, .producer 1, .producer 1, .producer 1,
    .produce 1,
    .consume, .consumer, .consumer, .consumer, .consumer,
    .producer 0, .producer 0,
    .consumer, .consumer, .consumer,
    .release 1, .consumer, .consumer,
    .acquire 1 2, .producer 1, .producer 1, .producer 1, .producer 1, .producer 1, .producer 1,
    .producer 0, .producer 0, .producer 0]

end Ustevent.MpscRingBuffer
