import Mathlib.Data.List.Basic

/-!
# The events of a descriptor

The bits that `epoll_wait` reports for a descriptor, and the event type whose fibers `select`
notifies of them.
-/

namespace Ustevent.Net

inductive EventType
  | eventIn
  | eventOut
deriving DecidableEq

/-- The bits `EPOLLIN`, `EPOLLOUT`, `EPOLLERR` and `EPOLLHUP`. -/
structure Events where
  epollIn : Bool
  epollOut : Bool
  epollErr : Bool
  epollHup : Bool
deriving DecidableEq

namespace Events

def none : Events := ⟨false, false, false, false⟩

def or (a b : Events) : Events :=
  ⟨a.epollIn || b.epollIn, a.epollOut || b.epollOut, a.epollErr || b.epollErr,
    a.epollHup || b.epollHup⟩

/-- An edge with these bits makes it worth to try the operation of the event type again. -/
def concerns (e : Events) : EventType → Bool
  | .eventIn => e.epollIn || e.epollErr || e.epollHup
  | .eventOut => e.epollOut || e.epollErr || e.epollHup

/-- The event type whose semaphore `select` notifies. -/
def dispatch (e : Events) : Option EventType :=
  if e.epollIn || e.epollErr || e.epollHup then some .eventIn
  else if e.epollOut || e.epollErr || e.epollHup then some .eventOut
  else Option.none

@[simp] theorem concerns_none (event : EventType) : none.concerns event = false := by
  cases event <;> rfl

theorem concerns_or (a b : Events) (event : EventType) :
    (a.or b).concerns event = (a.concerns event || b.concerns event) := by
  cases event
  · simp only [concerns, or]
    ac_rfl
  · simp only [concerns, or]
    ac_rfl

theorem dispatch_in {e : Events} (h : e.concerns .eventIn = true) :
    e.dispatch = some .eventIn := if_pos h

/-- What is left for the second branch of `select`. -/
theorem dispatch_out {e : Events} (h : e.concerns .eventOut = true)
    (hin : e.concerns .eventIn = false) : e.dispatch = some .eventOut := by
  rw [dispatch, if_neg (by rw [concerns] at hin; rw [hin]; decide)]
  exact if_pos h

/-- The pending bits after the edges of a list. -/
def union (edges : List Events) : Events := edges.foldl or none

theorem concerns_foldl (edges : List Events) (e : Events) (event : EventType) :
    (edges.foldl or e).concerns event = (e.concerns event || edges.any (concerns · event)) := by
  induction edges generalizing e with
  | nil => simp
  | cons edge edges ih => rw [List.foldl_cons, ih, concerns_or, List.any_cons, Bool.or_assoc]

theorem concerns_union (edges : List Events) (event : EventType) :
    (union edges).concerns event = edges.any (concerns · event) := by
  rw [union, concerns_foldl, concerns_none, Bool.false_or]

end Events

end Ustevent.Net
