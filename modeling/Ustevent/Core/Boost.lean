import Mathlib.Logic.Function.Basic

/-!
# What the strategies use of Boost.Fiber

Boost.Fiber is not among the sources, and stands here as a parameter: what can be seen of its
contexts and queues, the functions of it that `ContextStrategy` and `Fiber::start` call, and the
calls that it makes itself.  The laws say what the documentation promises of them.
-/

namespace Ustevent.Scheduling

variable {n : Nat}

/-- A thread has a main context and a dispatcher, and each fiber is a worker. -/
inductive FiberContext (n : Nat)
  | main (thread : Fin n)
  | dispatcher (thread : Fin n)
  | worker (fiber : Nat)
deriving DecidableEq

/-- `is_context(type::pinned_context)` -/
def FiberContext.isPinned : FiberContext n → Bool
  | .main _ | .dispatcher _ => true
  | .worker _ => false

/-- Why the active context has `pick_next` called. -/
inductive Reason
  /-- it waits to be awakened -/
  | suspend
  /-- a yield, or the loop of the dispatcher -/
  | yield
  /-- the function of the fiber is over -/
  | terminate
deriving DecidableEq

/-- What can be seen of the threads, the contexts and the queues. -/
structure Threads (n : Nat) where
  /-- `_ready_queue` of each strategy -/
  ready : Fin n → List (FiberContext n)
  /-- the context that a thread runs -/
  active : Fin n → FiberContext n
  /-- the context that the active one has been resumed from, until it schedules it -/
  leaving : Fin n → Option (FiberContext n)
  /-- the thread whose scheduler a context is attached to -/
  scheduler : FiberContext n → Option (Fin n)
  /-- suspended, and not awakened since -/
  parked : FiberContext n → Bool
  /-- the number of worker contexts that have been made -/
  fibers : Nat

namespace Threads

/-- The main contexts run, and the dispatchers are ready. -/
def create : Threads n where
  ready i := [.dispatcher i]
  active := .main
  leaving _ := none
  scheduler
    | .main i | .dispatcher i => some i
    | .worker _ => none
  parked _ := false
  fibers := 0

def setScheduler (t : Threads n) (c : FiberContext n) (scheduler : Option (Fin n)) : Threads n :=
  { t with scheduler := fun d ↦ if d = c then scheduler else t.scheduler d }

def push (t : Threads n) (i : Fin n) (c : FiberContext n) : Threads n :=
  { t with ready := fun j ↦ if j = i then t.ready j ++ [c] else t.ready j }

def take (t : Threads n) (i : Fin n) (c : FiberContext n) : Threads n :=
  { t with ready := fun j ↦ if j = i then (t.ready j).erase c else t.ready j }

def setLeaving (t : Threads n) (i : Fin n) (c : Option (FiberContext n)) : Threads n :=
  { t with leaving := fun j ↦ if j = i then c else t.leaving j }

def setParked (t : Threads n) (c : FiberContext n) (parked : Bool) : Threads n :=
  { t with parked := fun d ↦ if d = c then parked else t.parked d }

/-- The thread `i` runs `c`, which has still to schedule the context `old`, if there is one. -/
def switch (t : Threads n) (i : Fin n) (c : FiberContext n) (old : Option (FiberContext n)) :
    Threads n :=
  { t with
    active := fun j ↦ if j = i then c else t.active j
    leaving := fun j ↦ if j = i then old else t.leaving j }

/-- What becomes of the active context of the thread `i` when it is switched away from. -/
def resume (t : Threads n) (i : Fin n) (c : FiberContext n) : Reason → Threads n
  | .suspend => (t.setParked (t.active i) true).switch i c none
  | .yield => t.switch i c (some (t.active i))
  | .terminate => t.switch i c none

end Threads

/-- The state of boost, what can be seen of it, and its functions.  A function is `none` where an
assertion of it fails, or where what it is asked for cannot happen. -/
structure Boost (n : Nat) where
  T : Type
  view : T → Threads n
  /-- after the schedulers of the threads have been made -/
  create : T
  /-- `make_worker_context` -/
  makeContext : T → T
  /-- `attach`, called by the active context of the thread `i` -/
  attach : T → Fin n → FiberContext n → Option T
  /-- `detach`, called on the thread `i` -/
  detach : T → Fin n → FiberContext n → Option T
  /-- `context_spmc_queue::push` on the queue of the strategy `i` -/
  push : T → Fin n → FiberContext n → T
  /-- `context_spmc_queue::pop` returns this context, or null -/
  pop : T → Fin n → Option (FiberContext n) → Option T
  /-- `context_spmc_queue::steal` returns this context, or null -/
  steal : T → Fin n → Option (FiberContext n) → Option T
  /-- the active context of the thread is in its function -/
  runs : T → Fin n → Bool
  /-- the active context of the thread has `pick_next` called -/
  picks : T → Fin n → Reason → Bool
  /-- what follows once `pick_next` has returned the context -/
  resume : T → Fin n → FiberContext n → Reason → T
  /-- `resume` of a new context by the active one -/
  dispatch : T → Fin n → FiberContext n → T
  /-- the active context schedules the one that it has been resumed from, up to `awakened` -/
  schedule : T → Fin n → FiberContext n → Option T
  /-- a suspended context is scheduled on the thread, up to `awakened` -/
  wake : T → Fin n → FiberContext n → Option T

/-- What is documented of these functions. -/
structure Boost.Lawful (B : Boost n) : Prop where
  create : B.view B.create = .create
  /-- a new context is attached to no scheduler -/
  makeContext : ∀ t, B.view (B.makeContext t) = { B.view t with fibers := (B.view t).fibers + 1 }
  /-- only a context that is attached to no scheduler may be attached -/
  attach : ∀ t i c, (B.view t).scheduler c = none →
    (B.attach t i c).map B.view = some ((B.view t).setScheduler c (some i))
  /-- only a context of the scheduler of its own thread may be detached -/
  detach : ∀ t i c, (B.view t).scheduler c = some i →
    (B.detach t i c).map B.view = some ((B.view t).setScheduler c none)
  push : ∀ t i c, B.view (B.push t i c) = (B.view t).push i c
  pop : ∀ t i c t', B.pop t i (some c) = some t' →
    c ∈ (B.view t).ready i ∧ B.view t' = (B.view t).take i c
  /-- the owner of a queue gets null only where it is empty -/
  popNull : ∀ t i t', B.pop t i none = some t' → (B.view t).ready i = [] ∧ B.view t' = B.view t
  /-- pinned contexts are not stolen -/
  steal : ∀ t i c t', B.steal t i (some c) = some t' →
    c ∈ (B.view t).ready i ∧ c.isPinned = false ∧ B.view t' = (B.view t).take i c
  stealNull : ∀ t i t', B.steal t i none = some t' → B.view t' = B.view t
  /-- a context that has been resumed first schedules the one that it has been resumed from -/
  runs : ∀ t i, B.runs t i = true → (B.view t).leaving i = none
  /-- a dispatcher does not wait, and only fibers come to an end -/
  picks : ∀ t i reason, B.picks t i reason = true → (B.view t).leaving i = none ∧
    (reason = .suspend → (B.view t).active i ≠ .dispatcher i) ∧
    (reason = .terminate → ∃ f, (B.view t).active i = .worker f)
  resume : ∀ t i c reason, B.view (B.resume t i c reason) = (B.view t).resume i c reason
  dispatch : ∀ t i c, B.view (B.dispatch t i c) = (B.view t).resume i c .yield
  schedule : ∀ t i c t', B.schedule t i c = some t' →
    (B.view t).leaving i = some c ∧ B.view t' = (B.view t).setLeaving i none
  /-- a context is awakened on the thread that it is attached to -/
  wake : ∀ t i c t', B.wake t i c = some t' →
    (B.view t).parked c = true ∧ (B.view t).scheduler c = some i ∧
      B.view t' = (B.view t).setParked c false

namespace Boost

end Boost

end Ustevent.Scheduling
