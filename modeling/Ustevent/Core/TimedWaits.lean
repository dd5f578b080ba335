import Ustevent.Core.Permits

/-!
# The permits of a semaphore with timed waits

`waitUntil` takes the same two steps as `wait`, but its locked step also ends a wait that has run out
of time.  Such a wait finds no permit, and takes one from `_count` all the same.
-/

namespace Ustevent.BasicSemaphore.Calling

open Reasoning

variable {count : Nat} {s t : Calling} {a : Action} {as : List Action}

/-- The waits that have returned and those that the permits in `_count` let pass are as many as the
waits that have not timed out and the permits allow. -/
def SparesPermits (count : Nat) (s : Calling) : Prop :=
  (s.numberAt .passed : Int) + min (max s.semaphore.count 0) s.blocked =
    min ((s.blocked : Int) + s.numberAt .passed) (count + s.notifies)

theorem Inv.sparesPermits (h : Inv count s) (hinTime : s.numberAt .timedOut = 0)
    (hquiet : s.numberAt .notifying = 0) : s.SparesPermits count := by
  have hlaw := (h.conserves hinTime hquiet).law
  have hnonneg := h.nonneg
  unfold waits at hlaw
  unfold SparesPermits
  omega

/-- In a run that keeps the counters within their range and in which no wait times out, the timed
waits do not use up a permit either. -/
theorem always_sparesPermits
    (hok : Meets step (fun s a ↦ a.InTime ∧ s.InRange a) (initial count) as) :
    Always step (fun s ↦ s.numberAt .notifying = 0 → s.SparesPermits count) (initial count) as := by
  refine always_of_meets (fun s ↦ Inv count s ∧ s.numberAt .timedOut = 0) ?_ ?_
    ⟨inv_initial count, rfl⟩ hok
  · intro s ⟨hinv, htimedOut⟩
    exact hinv.sparesPermits htimedOut
  · intro s a t ⟨hinv, htimedOut⟩ ⟨hinTime, hrange⟩ hstep
    exact ⟨hinv.step hrange hstep, (timedOut_step hinTime hstep).trans htimedOut⟩

/-- Two timed waits on one permit, of which the second one passes on a notify. -/
def inTimeRun : List Action :=
  [.wait true, .waitLocked 0, .wait true, .notify, .notifyLocked 2, .waitLocked 1]

theorem always_sparesPermits_inTimeRun :
    Always step (fun s ↦ s.numberAt .notifying = 0 → s.SparesPermits 1) (initial 1) inTimeRun :=
  always_sparesPermits (by decide)

/-- A wait times out, and the wait after it sleeps through its notify. -/
def lateRun : List Action := [.wait true, .timeOut 0, .notify, .notifyLocked 1, .wait false]

theorem not_sparesPermits_lateRun : ∃ s, run step (initial 0) lateRun = some s ∧
    s.numberAt .notifying = 0 ∧ ¬ s.SparesPermits 0 := by
  refine ⟨_, rfl, rfl, ?_⟩
  unfold SparesPermits
  decide

end Ustevent.BasicSemaphore.Calling
