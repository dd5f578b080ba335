import Mathlib.Data.List.Basic
import Ustevent.Reasoning.Runs

/-!
# The wake-ups of a blocking strategy

A context with one worker whose strategy blocks: where `suspend_until` finds no posted task, the
worker sleeps on a condition variable until a thread that posts a task notifies it.  What the task
queue is made of is left open; the steps of the worker and of the submitting threads, those on the
mutex and the condition variable included, are one step each.
-/

namespace Ustevent

open Reasoning

/-- The task queue of a context as the submitters and the worker use it: the steps of a push before
its produce, the produce, `pop` (true where it has returned a task, which is launched), and the steps
of the launched fibers. -/
structure RemoteQueue (σ ι α β : Type*) where
  prepare : σ → ι → α → Option σ
  produce : σ → ι → Option σ
  pop : σ → Option (Bool × σ)
  work : σ → β → Option σ
  /-- the worker has no fiber to run -/
  idle : σ → Bool

namespace RemoteQueue

variable {σ ι α β : Type*}

/-- A pop would return a task. -/
def Consumable (Q : RemoteQueue σ ι α β) (queue : σ) : Prop := ∃ queue', Q.pop queue = some (true, queue')

/-- What a push and a pop may do to the task that a pop would return. -/
structure Lawful (Q : RemoteQueue σ ι α β) (inv : σ → Prop) : Prop where
  prepare : ∀ q w a q', inv q → Q.prepare q w a = some q' → inv q' ∧
    (Q.idle q = true → Q.idle q' = true ∧ (Q.Consumable q' → Q.Consumable q))
  produce : ∀ q w q', inv q → Q.produce q w = some q' → inv q' ∧
    (Q.idle q = true → Q.idle q' = true)
  pop : ∀ q found q', inv q → Q.idle q = true → Q.pop q = some (found, q') → inv q' ∧
    (found = false → Q.idle q' = true ∧ ¬ Q.Consumable q')
  work : ∀ q b q', inv q → Q.work q b = some q' → inv q'

end RemoteQueue

namespace BlockingContextStrategy

/-- Where the worker is.  A wait is timed where there is a time point to wait for. -/
inductive WorkerPlace
  /-- the strategy is not registered yet -/
  | starts
  | runs
  /-- `pop` has returned false in `suspend_until` -/
  | locks (timed : Bool)
  | tests (timed : Bool)
  /-- in the wait of the condition variable, the mutex released -/
  | asleep (timed : Bool)
  /-- the wait is over, and the mutex has to be locked again -/
  | wakes (timed timedOut : Bool)
  | clears
  | unlocks
deriving DecidableEq

/-- Where a submitter is. -/
inductive SubmitterPlace
  /-- not in a push, or in the part of it before its produce -/
  | submits
  /-- in `_notify`, before the test of the slot -/
  | checks
  | locks
  | sets
  | unlocks
  | notifiesAll
deriving DecidableEq

/-- The submitter has produced and has not finished its notify. -/
@[grind] def SubmitterPlace.Notifies : SubmitterPlace → Bool
  | .submits => false
  | .checks | .locks | .sets | .unlocks | .notifiesAll => true

/-- It has not set `_notified` yet. -/
@[grind] def SubmitterPlace.Owes : SubmitterPlace → Bool
  | .checks | .locks | .sets => true
  | .submits | .unlocks | .notifiesAll => false

/-- The worker has found no task and has not been told of one since. -/
@[grind] def WorkerPlace.Suspended : WorkerPlace → Bool
  | .locks _ | .tests _ | .asleep _ | .wakes _ _ => true
  | .starts | .runs | .clears | .unlocks => false

/-- The worker is in the wait, or on its way out of it. -/
@[grind] def WorkerPlace.Blocked : WorkerPlace → Bool
  | .asleep _ | .wakes _ _ => true
  | _ => false

inductive Holder (ι : Type*)
  | nobody
  | worker
  | submitter (thread : ι)
deriving DecidableEq

/-- The context, `_strategies[0]` and the members of the strategy. -/
structure Suspending (σ ι : Type*) where
  queue : σ
  registered : Bool
  notified : Bool
  mutex : Holder ι
  worker : WorkerPlace
  submitter : ι → SubmitterPlace

inductive Action (ι α β : Type*)
  | prepare (thread : ι) (step : α)
  | produce (thread : ι)
  /-- the next step of the notify of a submitter -/
  | notify (thread : ι)
  | start
  | work (step : β)
  | suspend (timed : Bool)
  /-- a spurious wake-up -/
  | wake
  | timeOut
  /-- the next step of the worker in `onSuspended` -/
  | proceed

namespace Suspending

variable {σ ι α β : Type*}

def initial (queue : σ) : Suspending σ ι where
  queue := queue
  registered := false
  notified := false
  mutex := .nobody
  worker := .starts
  submitter _ := .submits

abbrev setQueue (s : Suspending σ ι) (queue : σ) : Suspending σ ι := { s with queue := queue }

abbrev setNotified (s : Suspending σ ι) (notified : Bool) : Suspending σ ι :=
  { s with notified := notified }

abbrev setMutex (s : Suspending σ ι) (mutex : Holder ι) : Suspending σ ι := { s with mutex := mutex }

abbrev setWorker (s : Suspending σ ι) (place : WorkerPlace) : Suspending σ ι :=
  { s with worker := place }

abbrev goto [DecidableEq ι] (s : Suspending σ ι) (w : ι) (place : SubmitterPlace) : Suspending σ ι :=
  { s with submitter := fun u ↦ if u = w then place else s.submitter u }

/-- `notify_all` ends the wait that the worker is in. -/
abbrev wakeUp (s : Suspending σ ι) : Suspending σ ι :=
  s.setWorker (match s.worker with
    | .asleep timed => .wakes timed false
    | place => place)

def step [DecidableEq ι] (Q : RemoteQueue σ ι α β) (s : Suspending σ ι) :
    Action ι α β → Option (Suspending σ ι)
  | .prepare w a =>
    if s.submitter w = .submits then (Q.prepare s.queue w a).map s.setQueue else none
  | .produce w =>
    if s.submitter w = .submits then
      (Q.produce s.queue w).map fun queue ↦ (s.setQueue queue).goto w .checks
    else none
  | .notify w =>
    match s.submitter w with
    | .submits => none
    -- a notify before the registration is dropped
    | .checks => some (s.goto w (if s.registered then .locks else .submits))
    | .locks =>
      if s.mutex = .nobody then some ((s.setMutex (.submitter w)).goto w .sets) else none
    | .sets => some ((s.setNotified true).goto w .unlocks)
    | .unlocks => some ((s.setMutex .nobody).goto w .notifiesAll)
    | .notifiesAll => some (s.wakeUp.goto w .submits)
  | .start =>
    if s.worker = .starts then some { s.setWorker .runs with registered := true } else none
  | .work b => if s.worker = .runs then (Q.work s.queue b).map s.setQueue else none
  | .suspend timed =>
    if s.worker = .runs ∧ Q.idle s.queue then
      (Q.pop s.queue).map fun (found, queue) ↦
        (s.setQueue queue).setWorker (if found then .runs else .locks timed)
    else none
  | .wake =>
    match s.worker with
    | .asleep timed => some (s.setWorker (.wakes timed false))
    | _ => none
  | .timeOut =>
    match s.worker with
    | .asleep true => some (s.setWorker (.wakes true true))
    | _ => none
  | .proceed =>
    match s.worker with
    | .locks timed =>
      if s.mutex = .nobody then some ((s.setMutex .worker).setWorker (.tests timed)) else none
    | .tests timed =>
      -- the wait is entered with the mutex, which it releases in the same step
      if s.notified then some (s.setWorker .clears)
      else some ((s.setMutex .nobody).setWorker (.asleep timed))
    | .wakes timed timedOut =>
      if s.mutex = .nobody then
        -- the predicate is of no consequence after a time-out
        some ((s.setMutex .worker).setWorker (if timedOut then .clears else .tests timed))
      else none
    | .clears => some ((s.setNotified false).setWorker .unlocks)
    | .unlocks => some ((s.setMutex .nobody).setWorker .runs)
    | .starts | .runs | .asleep _ => none

/-- What the notifies are for: a worker that is blocked and has not been notified, or that sleeps on
whether it has been notified or not, leaves no task behind.  `task` says that there is one. -/
structure Awake (task : Prop) (s : Suspending σ ι) : Prop where
  blocked : s.worker.Blocked = true → s.notified = false →
    ¬ task ∨ ∃ w, (s.submitter w).Notifies = true
  asleep : ∀ timed, s.worker = .asleep timed → ¬ task ∨ ∃ w, (s.submitter w).Notifies = true

theorem Awake.of_imp {s : Suspending σ ι} {task task' : Prop} (h : Awake task s)
    (himp : s.worker.Blocked = true → task' → task) : Awake task' s where
  blocked hblocked hnotified := (h.blocked hblocked hnotified).imp_left (mt (himp hblocked))
  asleep timed hasleep := (h.asleep timed hasleep).imp_left (mt (himp (by rw [hasleep]; rfl)))

/-! ## The invariant -/

/-- Whoever makes a task consumable while the worker is suspended is yet to set `_notified`, and
whoever has set it while the worker sleeps is yet to call `notify_all`. -/
structure Inv (Q : RemoteQueue σ ι α β) (inv : σ → Prop) (s : Suspending σ ι) : Prop where
  queue : inv s.queue
  registered : s.worker ≠ .starts → s.registered = true
  idle : s.worker.Suspended = true → Q.idle s.queue = true
  owed : s.worker.Suspended = true → s.notified = false → Q.Consumable s.queue →
    ∃ w, (s.submitter w).Owes = true
  told : ∀ timed, s.worker = .asleep timed → s.notified = true →
    ∃ w, s.submitter w = .unlocks ∨ s.submitter w = .notifiesAll

variable {Q : RemoteQueue σ ι α β} {inv : σ → Prop} {s s' : Suspending σ ι} {queue : σ}

theorem inv_initial (h : inv queue) : Inv Q inv (initial queue : Suspending σ ι) where
  queue := h
  registered hne := absurd rfl hne
  idle hsuspended := by contradiction
  owed hsuspended := by contradiction
  told timed hasleep := by contradiction

theorem suspended_of_blocked {place : WorkerPlace} (h : place.Blocked = true) :
    place.Suspended = true := by
  cases place with
  | asleep | wakes => rfl
  | starts | runs | locks | tests | clears | unlocks => contradiction

theorem Inv.awake (h : Inv Q inv s) : Awake (Q.Consumable s.queue) s := by
  have howes : ∀ w, (s.submitter w).Owes = true → (s.submitter w).Notifies = true := by
    intro w
    cases s.submitter w <;> simp [SubmitterPlace.Owes, SubmitterPlace.Notifies]
  constructor
  · intro hplace hnotified
    by_cases hconsumable : Q.Consumable s.queue
    · have hsuspended := suspended_of_blocked hplace
      obtain ⟨w, hw⟩ := h.owed hsuspended hnotified hconsumable
      exact Or.inr ⟨w, howes w hw⟩
    · exact Or.inl hconsumable
  · intro timed hasleep
    by_cases hconsumable : Q.Consumable s.queue
    · right
      -- a sleeper that has been notified is yet to be woken up
      cases hnotified : s.notified with
      | false =>
        obtain ⟨w, hw⟩ := h.owed (by rw [hasleep]; rfl) hnotified hconsumable
        exact ⟨w, howes w hw⟩
      | true =>
        obtain ⟨w, hw⟩ := h.told timed hasleep hnotified
        exact ⟨w, by rcases hw with hw | hw <;> rw [hw] <;> rfl⟩
    · exact Or.inl hconsumable

/-! ## The steps of the worker -/

theorem Inv.suspend (h : Inv Q inv s) (hQ : Q.Lawful inv) (hruns : s.worker = .runs)
    (hidle : Q.idle s.queue = true) {timed found : Bool}
    (hpop : Q.pop s.queue = some (found, queue)) :
    Inv Q inv ((s.setQueue queue).setWorker (if found then .runs else .locks timed)) := by
  obtain ⟨hinv, hnone⟩ := hQ.pop s.queue found queue h.queue hidle hpop
  have hregistered := h.registered (by rw [hruns]; exact fun hne ↦ nomatch hne)
  cases found with
  | true =>
    refine ⟨hinv, fun _ ↦ hregistered, ?_, ?_, ?_⟩
    · intro hsuspended
      contradiction
    · intro hsuspended
      contradiction
    · intro timed hasleep
      contradiction
  | false =>
    obtain ⟨hidle, hconsumable⟩ := hnone rfl
    refine ⟨hinv, fun _ ↦ hregistered, fun _ ↦ hidle, ?_, ?_⟩
    · exact fun _ _ hafter ↦ absurd hafter hconsumable
    · intro timed hasleep
      contradiction

theorem Inv.goOn (h : Inv Q inv s) {mutex : Holder ι} {place : WorkerPlace}
    (hfrom : s.worker.Suspended = true)
    (hasleep : ∀ timed, place = .asleep timed → s.notified = false) :
    Inv Q inv ((s.setMutex mutex).setWorker place) := by
  refine ⟨h.queue, fun _ ↦ h.registered (by grind), fun _ ↦ h.idle hfrom, fun _ ↦ h.owed hfrom, ?_⟩
  intro timed hplace hnotified
  rw [hasleep timed hplace] at hnotified
  contradiction

theorem Inv.leave (h : Inv Q inv s) {mutex : Holder ι} {notified : Bool} {place : WorkerPlace}
    (hfrom : s.worker ≠ .starts) (hto : place.Suspended = false) :
    Inv Q inv (((s.setNotified notified).setMutex mutex).setWorker place) := by
  refine ⟨h.queue, fun _ ↦ h.registered hfrom, ?_, ?_, ?_⟩
  · grind
  · grind
  · grind

/-! ## The steps of the submitters -/

theorem Inv.prepare (h : Inv Q inv s) (hQ : Q.Lawful inv) {w : ι} {a : α}
    (hstep : Q.prepare s.queue w a = some queue) : Inv Q inv (s.setQueue queue) := by
  obtain ⟨hinv, hquiet⟩ := hQ.prepare s.queue w a queue h.queue hstep
  refine ⟨hinv, h.registered, ?_, ?_, h.told⟩
  · exact fun hsuspended ↦ (hquiet (h.idle hsuspended)).1
  · intro hsuspended hnotified hconsumable
    exact h.owed hsuspended hnotified ((hquiet (h.idle hsuspended)).2 hconsumable)

variable [DecidableEq ι] {w : ι}

/-- The submitter whose produce makes a task consumable owes a notify. -/
theorem Inv.produce (h : Inv Q inv s) (hQ : Q.Lawful inv) (hw : s.submitter w = .submits)
    (hstep : Q.produce s.queue w = some queue) :
    Inv Q inv ((s.setQueue queue).goto w .checks) := by
  obtain ⟨hinv, hidle⟩ := hQ.produce s.queue w queue h.queue hstep
  refine ⟨hinv, h.registered, fun hsuspended ↦ hidle (h.idle hsuspended), ?_, ?_⟩
  · exact fun _ _ _ ↦ ⟨w, by simp [SubmitterPlace.Owes]⟩
  · intro timed hasleep hnotified
    obtain ⟨u, hu⟩ := h.told timed hasleep hnotified
    refine ⟨u, ?_⟩
    grind

/-- The slot is set before the worker looks for tasks. -/
theorem Inv.check (h : Inv Q inv s) (hw : s.submitter w = .checks) :
    Inv Q inv (s.goto w (if s.registered then .locks else .submits)) := by
  refine ⟨h.queue, h.registered, h.idle, ?_, ?_⟩
  · intro hsuspended hnotified hconsumable
    -- a submitter that gives up here has found no worker that could sleep
    have hregistered := h.registered (by grind)
    obtain ⟨u, hu⟩ := h.owed hsuspended hnotified hconsumable
    refine ⟨u, ?_⟩
    grind
  · intro timed hasleep hnotified
    obtain ⟨u, hu⟩ := h.told timed hasleep hnotified
    refine ⟨u, ?_⟩
    grind

theorem Inv.lock (h : Inv Q inv s) (hw : s.submitter w = .locks) {mutex : Holder ι} :
    Inv Q inv ((s.setMutex mutex).goto w .sets) := by
  refine ⟨h.queue, h.registered, h.idle, ?_, ?_⟩
  · intro hsuspended hnotified hconsumable
    obtain ⟨u, hu⟩ := h.owed hsuspended hnotified hconsumable
    refine ⟨u, ?_⟩
    grind
  · intro timed hasleep hnotified
    obtain ⟨u, hu⟩ := h.told timed hasleep hnotified
    refine ⟨u, ?_⟩
    grind

theorem Inv.set (h : Inv Q inv s) : Inv Q inv ((s.setNotified true).goto w .unlocks) := by
  refine ⟨h.queue, h.registered, h.idle, ?_, ?_⟩
  -- from now on nothing is owed
  · intro _ hnotified
    contradiction
  · exact fun _ _ _ ↦ ⟨w, by simp⟩

theorem Inv.unlock (h : Inv Q inv s) (hw : s.submitter w = .unlocks) {mutex : Holder ι} :
    Inv Q inv ((s.setMutex mutex).goto w .notifiesAll) := by
  refine ⟨h.queue, h.registered, h.idle, ?_, ?_⟩
  · intro hsuspended hnotified hconsumable
    obtain ⟨u, hu⟩ := h.owed hsuspended hnotified hconsumable
    refine ⟨u, ?_⟩
    grind
  · intro timed hasleep hnotified
    obtain ⟨u, hu⟩ := h.told timed hasleep hnotified
    refine ⟨u, ?_⟩
    grind

/-- After it, the worker does not sleep. -/
theorem Inv.notifyAll (h : Inv Q inv s) (hw : s.submitter w = .notifiesAll) :
    Inv Q inv (s.wakeUp.goto w .submits) := by
  -- a sleeper is on its way out of the wait now, and the others are where they were
  have hplace : (s.wakeUp.worker ≠ .starts → s.worker ≠ .starts) ∧
      (s.wakeUp.worker.Suspended = true → s.worker.Suspended = true) ∧
      ∀ timed, s.wakeUp.worker ≠ .asleep timed := by
    unfold wakeUp
    cases s.worker <;> simp [WorkerPlace.Suspended]
  refine ⟨h.queue, fun hne ↦ h.registered (hplace.1 hne), fun hs ↦ h.idle (hplace.2.1 hs), ?_, ?_⟩
  · intro hsuspended hnotified hconsumable
    obtain ⟨u, hu⟩ := h.owed (hplace.2.1 hsuspended) hnotified hconsumable
    refine ⟨u, ?_⟩
    grind
  · exact fun timed hasleep ↦ absurd hasleep (hplace.2.2 timed)

/-! ## Every run -/

theorem Inv.notify (h : Inv Q inv s) (hstep : s.step Q (.notify w) = some s') : Inv Q inv s' := by
  cases hw : s.submitter w with
  | submits =>
    simp only [Suspending.step, hw] at hstep
    contradiction
  | checks =>
    simp only [Suspending.step, hw, Option.some.injEq] at hstep
    exact hstep ▸ h.check hw
  | locks =>
    simp only [Suspending.step, hw, Option.ite_none_right_eq_some, Option.some.injEq] at hstep
    exact hstep.2 ▸ h.lock hw
  | sets =>
    simp only [Suspending.step, hw, Option.some.injEq] at hstep
    exact hstep ▸ h.set
  | unlocks =>
    simp only [Suspending.step, hw, Option.some.injEq] at hstep
    exact hstep ▸ h.unlock hw
  | notifiesAll =>
    simp only [Suspending.step, hw, Option.some.injEq] at hstep
    exact hstep ▸ h.notifyAll hw

theorem Inv.proceed (h : Inv Q inv s) (hstep : s.step Q .proceed = some s') : Inv Q inv s' := by
  cases hplace : s.worker with
  | starts | runs | asleep timed =>
    simp only [Suspending.step, hplace] at hstep
    contradiction
  | locks timed =>
    simp only [Suspending.step, hplace, Option.ite_none_right_eq_some, Option.some.injEq] at hstep
    exact hstep.2 ▸ h.goOn (by rw [hplace]; rfl) (fun _ hne ↦ nomatch hne)
  -- with the mutex held, the worker sleeps or sees what the submitter has set
  | tests timed =>
    simp only [Suspending.step, hplace] at hstep
    split at hstep
    · cases hstep
      exact h.leave (by simp [hplace]) rfl
    · rename_i hnotified
      cases hstep
      exact h.goOn (by rw [hplace]; rfl) (fun _ _ ↦ by simpa using hnotified)
  | wakes timed timedOut =>
    simp only [Suspending.step, hplace, Option.ite_none_right_eq_some, Option.some.injEq] at hstep
    obtain ⟨-, rfl⟩ := hstep
    cases timedOut with
    | true => exact h.leave (by simp [hplace]) rfl
    | false => exact h.goOn (by rw [hplace]; rfl) (fun _ hne ↦ nomatch hne)
  | clears =>
    simp only [Suspending.step, hplace, Option.some.injEq] at hstep
    have hleave : Inv Q inv (((s.setNotified false).setMutex s.mutex).setWorker .unlocks) :=
      h.leave (by simp [hplace]) rfl
    exact hstep ▸ hleave
  | unlocks =>
    simp only [Suspending.step, hplace, Option.some.injEq] at hstep
    have hleave : Inv Q inv (((s.setNotified s.notified).setMutex .nobody).setWorker .runs) :=
      h.leave (by simp [hplace]) rfl
    exact hstep ▸ hleave

theorem Inv.step (h : Inv Q inv s) (hQ : Q.Lawful inv) {a : Action ι α β}
    (hstep : s.step Q a = some s') : Inv Q inv s' := by
  cases a with
  | prepare w a =>
    simp only [Suspending.step, Option.ite_none_right_eq_some, Option.map_eq_some_iff] at hstep
    obtain ⟨-, queue, hprepare, rfl⟩ := hstep
    exact h.prepare hQ hprepare
  | produce w =>
    simp only [Suspending.step, Option.ite_none_right_eq_some, Option.map_eq_some_iff] at hstep
    obtain ⟨hw, queue, hproduce, rfl⟩ := hstep
    exact h.produce hQ hw hproduce
  | notify w => exact h.notify hstep
  | start =>
    simp only [Suspending.step, Option.ite_none_right_eq_some, Option.some.injEq] at hstep
    obtain ⟨hplace, rfl⟩ := hstep
    refine ⟨h.queue, fun _ ↦ rfl, ?_, ?_, ?_⟩ <;> grind
  | work b =>
    simp only [Suspending.step, Option.ite_none_right_eq_some, Option.map_eq_some_iff] at hstep
    obtain ⟨hplace, queue, hwork, rfl⟩ := hstep
    refine ⟨hQ.work s.queue b queue h.queue hwork, h.registered, ?_, ?_, ?_⟩ <;> grind
  | suspend timed =>
    simp only [Suspending.step, Option.ite_none_right_eq_some, Option.map_eq_some_iff] at hstep
    obtain ⟨⟨hplace, hidle⟩, ⟨found, queue⟩, hpop, rfl⟩ := hstep
    exact h.suspend hQ hplace hidle hpop
  | wake =>
    simp only [Suspending.step] at hstep
    split at hstep
    · rename_i timed hplace
      cases hstep
      exact h.goOn (by rw [hplace]; rfl) (fun _ hne ↦ nomatch hne)
    · contradiction
  | timeOut =>
    simp only [Suspending.step] at hstep
    split at hstep
    · rename_i hplace
      cases hstep
      exact h.goOn (by rw [hplace]; rfl) (fun _ hne ↦ nomatch hne)
    · contradiction
  | proceed => exact h.proceed hstep

theorem inv_of_run (hQ : Q.Lawful inv) (hqueue : inv queue) {actions : List (Action ι α β)}
    (hrun : run (Suspending.step Q) (initial queue) actions = some s) : Inv Q inv s :=
  invariant_of_run (Inv Q inv) (fun _ _ _ h hstep ↦ h.step hQ hstep) (inv_initial hqueue) hrun

end Suspending

end BlockingContextStrategy

end Ustevent
