import Ustevent.Core.Boost
import Ustevent.Core.WaitingLists
import Ustevent.Reasoning.Runs

/-!
# Scheduling

The strategies of a context whose threads have passed the barrier.  Each thread runs one context of
boost's at a time; the others are ready in the queue of a strategy, which the dispatcher of another
thread may steal from, or wait to be awakened.  With `DEBUG_ON` the strategies also keep the lists of
the waiting fibers.
-/

namespace Ustevent.Scheduling

open Reasoning ContextStrategy

variable {n : Nat} {B : Boost n}

/-! ## The lists of the waiting fibers -/

/-- The call of `_recordBacktrace` for the active context `c`, if that is a worker. -/
def recordActive (s : WaitingFibers (Fin n)) (i : Fin n) : FiberContext n → WaitingFibers (Fin n)
  | .worker f => s.recordBacktrace i f
  | .main _ | .dispatcher _ => s

/-- The call of `_eraseBacktrace` for the context `c`, if that is not pinned. -/
def eraseAwakened (s : WaitingFibers (Fin n)) (i : Fin n) :
    FiberContext n → Option (WaitingFibers (Fin n))
  | .worker f => s.eraseBacktrace i f
  | .main _ | .dispatcher _ => some s

/-! ## The strategies -/

structure State (B : Boost n) where
  boost : B.T
  /-- `i` of `pick_next`, while it looks for a victim -/
  tries : Fin n → Option Nat
  waiting : WaitingFibers (Fin n)

inductive Action (n : Nat)
  /-- `Fiber::start` on the thread `i`, with the policy `dispatch` or `post` -/
  | start (i : Fin n) (dispatch : Bool)
  /-- `pick_next` pops the victim from its own queue, and the thread switches to it -/
  | pop (i : Fin n) (victim : FiberContext n) (reason : Reason)
  /-- `pick_next` finds its own queue empty -/
  | popNull (i : Fin n) (reason : Reason)
  /-- `next_scheduler_id` is drawn, and the queue of that strategy gives a victim or nothing -/
  | steal (i : Fin n) (next_scheduler_id : Fin n) (victim : Option (FiberContext n))
  /-- the active context schedules the one that it has been resumed from -/
  | schedule (i : Fin n) (c : FiberContext n)
  /-- a suspended context is awakened on its thread -/
  | wake (i : Fin n) (c : FiberContext n)
  /-- the last statement of the function of a fiber -/
  | setTerminated (i : Fin n)
deriving DecidableEq

namespace State

def create : State B where
  boost := B.create
  tries _ := none
  waiting := .create

abbrev threads (s : State B) : Threads n := B.view s.boost

def setTries (s : State B) (i : Fin n) (tries : Option Nat) : State B :=
  { s with tries := fun j ↦ if j = i then tries else s.tries j }

/-- `awakened` of the strategy `i` -/
def awakened (debug : Bool) (s : State B) (i : Fin n) (c : FiberContext n) : Option (State B) :=
  (if c.isPinned then some s.boost else B.detach s.boost i c).bind fun boost ↦
    (if debug then eraseAwakened s.waiting i c else some s.waiting).map fun waiting ↦
      { s with boost := B.push boost i c, waiting }

/-- `pick_next` of the strategy `i`, once the victim has been taken from a queue. -/
def picked (debug : Bool) (s : State B) (i : Fin n) (victim : FiberContext n) :
    Option (State B) :=
  (if victim.isPinned then some s.boost else B.attach s.boost i victim).map fun boost ↦
    { s with
      boost
      waiting := if debug then recordActive s.waiting i ((B.view boost).active i) else s.waiting }

/-- The function of a fiber is over after its last statement. -/
def ended (s : State B) (i : Fin n) : Bool :=
  match s.threads.active i with
  | .worker f => (s.waiting.info (.fiber f)).terminated
  | .main _ | .dispatcher _ => false

/-- Boost has `pick_next` called on the thread, which is not in a call of it. -/
def picks (s : State B) (i : Fin n) (reason : Reason) : Bool :=
  s.tries i == none && B.picks s.boost i reason && (reason != .terminate || s.ended i)

/-- What the contexts, the queues and boost do of the action; `none` if it cannot happen now. -/
def begin (s : State B) : Action n → Option (State B)
  | .start i _ | .setTerminated i =>
    if s.tries i = none ∧ B.runs s.boost i = true then some s else none
  | .pop i victim reason =>
    if s.picks i reason then (B.pop s.boost i (some victim)).map fun boost ↦ { s with boost }
    else none
  | .popNull i reason =>
    if s.picks i reason then (B.pop s.boost i none).map fun boost ↦ { s with boost } else none
  | .steal i j victim =>
    if (s.tries i).isSome then
      -- the strategy draws again if it has drawn itself
      if i = j then if victim = none then some s else none
      else (B.steal s.boost j victim).map fun boost ↦ { s with boost }
    else none
  | .schedule i c => (B.schedule s.boost i c).map fun boost ↦ { s with boost }
  | .wake i c =>
    if s.tries i = none then (B.wake s.boost i c).map fun boost ↦ { s with boost } else none

/-- What the sources do then; `none` if an assertion fails or a null pointer is followed. -/
def perform (debug : Bool) (s : State B) : Action n → Option (State B)
  | .start i dispatch => do
    let c := FiberContext.worker s.threads.fibers
    let boost ← B.attach (B.makeContext s.boost) i c
    if dispatch then some { s with boost := B.dispatch boost i c }
    else ({ s with boost } : State B).awakened debug i c
  | .pop i victim reason => do
    let s ← s.picked debug i victim
    some { s with boost := B.resume s.boost i victim reason }
  | .popNull i _ =>
    -- boost resumes what `pick_next` returns, and only the dispatcher asks whether it is null
    if s.threads.active i = .dispatcher i then
      some (s.setTries i (if 1 < n then some 0 else none))
    else none
  | .steal i j none =>
    let tries := (s.tries i).getD 0 + 1
    let again := i = j ∨ tries < n
    some (s.setTries i (if again then some tries else none))
  | .steal i _ (some victim) =>
    if victim.isPinned then none
    else do
      let s ← (s.setTries i none).picked debug i victim
      some { s with boost := B.resume s.boost i victim .yield }
  | .schedule i c =>
    -- on its own thread; boost would hand it to the scheduler of another one
    if s.threads.scheduler c = some i then s.awakened debug i c else none
  | .wake i c => s.awakened debug i c
  | .setTerminated i =>
    match s.threads.active i with
    | .worker f => some { s with waiting := s.waiting.setTerminated (.fiber f) }
    | .main _ | .dispatcher _ => some s

def step (debug : Bool) (s : State B) (a : Action n) : Option (State B) :=
  (s.begin a).bind (perform debug · a)

end State

/-! ## What scheduling is for -/

inductive Place (n : Nat)
  | unborn
  /-- it may run next, on the thread `i` or on one that steals it -/
  | ready (i : Fin n)
  | active (i : Fin n)
  /-- it has given up the thread `i` and is not ready yet -/
  | leaving (i : Fin n) (picked : Bool)
  | blocked (i : Fin n)
  | finished
deriving DecidableEq

/-- Each context is in one place, and the fibers that wait on a thread stand in their order. -/
structure Schedule (n : Nat) where
  place : FiberContext n → Place n
  active : Fin n → FiberContext n
  waiting : Fin n → List Nat
  terminated : Nat → Bool
  fibers : Nat

def Reason.place (i : Fin n) : Reason → Place n
  | .suspend => .blocked i
  | .yield => .leaving i true
  | .terminate => .finished

namespace Schedule

def initial : Schedule n where
  place
    | .main i => .active i
    | .dispatcher i => .ready i
    | .worker _ => .unborn
  active := .main
  waiting _ := []
  terminated _ := false
  fibers := 0

def move (a : Schedule n) (c : FiberContext n) (src dst : Place n) : Option (Schedule n) :=
  if a.place c = src then
    some { a with place := fun d ↦ if d = c then dst else a.place d }
  else none

/-- A fiber that has not terminated waits behind the others. -/
def waits (a : Schedule n) (i : Fin n) : FiberContext n → Schedule n
  | .worker f =>
    if a.terminated f then a
    else { a with waiting := fun j ↦ if j = i then a.waiting j ++ [f] else a.waiting j }
  | _ => a

def awakes (a : Schedule n) (i : Fin n) : FiberContext n → Schedule n
  | .worker f => { a with waiting := fun j ↦ if j = i then (a.waiting j).erase f else a.waiting j }
  | _ => a

/-- The thread `i` passes from the context that it runs to `c`. -/
def switch (a : Schedule n) (i : Fin n) (c : FiberContext n) (src dst : Place n) :
    Option (Schedule n) := do
  let old := a.active i
  let a ← a.move old (.active i) dst
  let a ← a.move c src (.active i)
  some { a with active := fun j ↦ if j = i then c else a.active j }

def step (a : Schedule n) : Action n → Option (Schedule n)
  | .start i dispatch =>
    let c := FiberContext.worker a.fibers
    let a' := { a with fibers := a.fibers + 1 }
    if dispatch then a'.switch i c .unborn (.leaving i false) else a'.move c .unborn (.ready i)
  | .pop i victim reason =>
    (a.switch i victim (.ready i) (reason.place i)).map (·.waits i (a.active i))
  | .popNull _ _ | .steal _ _ none => some a
  | .steal i j (some victim) =>
    if victim.isPinned then none
    else (a.switch i victim (.ready j) (.leaving i true)).map (·.waits i (a.active i))
  | .schedule i c =>
    match a.place c with
    | .leaving j picked =>
      if j = i then (a.move c (.leaving i picked) (.ready i)).map (·.awakes i c) else none
    | _ => none
  | .wake i c => (a.move c (.blocked i) (.ready i)).map (·.awakes i c)
  | .setTerminated i =>
    match a.active i with
    | .worker f => some { a with terminated := fun g ↦ if g = f then true else a.terminated g }
    | _ => some a

end Schedule

end Ustevent.Scheduling
