import Ustevent.Net.EpollSelector
import Ustevent.Net.ReadStream
import Ustevent.Net.WriteStream
import Ustevent.Net.TcpListener

/-!
# Interrupting an operation

The `interrupt` functions of the streams, the listener and the dialer make an `EventOperation` of
their own over the shared event object.  The flag that they set is the one of that object, while the
notification goes to the semaphore on which the operation waits.  The system below has any number of
calls of `perform` and of `interrupt` on one device.
-/

namespace Ustevent.Net

open Reasoning

inductive Device
  | readStream
  | writeStream
  | listener
  | dialer
deriving DecidableEq

/-- The event type that both the operation and `interrupt` of the device are bound to. -/
def Device.bindedEvent : Device → EventType
  | .readStream | .listener => .eventIn
  | .writeStream | .dialer => .eventOut

/-- What comes of a non-blocking operation. -/
inductive Outcome
  | wouldBlock
  /-- the operation is over, with an `errno` or 0 -/
  | errno (e : Nat)
  /-- a stream has ended -/
  | remotelyClosed
  /-- a part of a block has been transferred -/
  | partly
deriving DecidableEq

/-- The operations of the devices, up to what they transfer. -/
def deviceOperation : Operation Outcome Outcome where
  nonBlockingOperation outcome _ _ :=
    match outcome with
    | .wouldBlock => some (false, outcome, Errno.eagain)
    | .errno e => some (true, outcome, e)
    | .remotelyClosed | .partly => some (true, outcome, 0)
  onOperated outcome error :=
    match outcome with
    | .partly => (false, outcome, error)
    | .remotelyClosed => (true, outcome, Error.remotelyClosed)
    | .wouldBlock | .errno _ => (true, outcome, error)
  onNotified outcome error := (false, outcome, error)

/-- As far as a wait goes, the operations of the devices are all the same. -/
theorem afterWait_deviceOperation {timeout error : Int} {notified interrupted : Bool} :
    (∀ stream nextBuffer nextSize s,
      Operation.FlowAgree (fun _ _ ↦ True)
        ((ReadStream.readOperation stream nextBuffer nextSize).afterWait timeout notified interrupted
          s error) (deviceOperation.afterWait timeout notified interrupted .wouldBlock error)) ∧
    (∀ data nextData nextSize s,
      Operation.FlowAgree (fun _ _ ↦ True)
        ((WriteStream.writeOperation data nextData nextSize).afterWait timeout notified interrupted
          s error) (deviceOperation.afterWait timeout notified interrupted .wouldBlock error)) ∧
    (∀ (l : TcpListener) fd, Operation.FlowAgree (fun _ _ ↦ True)
      (l.acceptOperation.afterWait timeout notified interrupted fd error)
      (deviceOperation.afterWait timeout notified interrupted .wouldBlock error)) ∧
    ∀ d, Operation.FlowAgree (fun _ _ ↦ True)
      (TcpDialer.connectOperation.afterWait timeout notified interrupted d error)
      (deviceOperation.afterWait timeout notified interrupted .wouldBlock error) := by
  have hsame : ∀ {σ ρ : Type} (op : Operation σ ρ) (s : σ),
      (∀ s error, op.onNotified s error = (false, s, error)) →
      Operation.FlowAgree (fun _ _ ↦ True) (op.afterWait timeout notified interrupted s error)
        (deviceOperation.afterWait timeout notified interrupted .wouldBlock error) := by
    intro σ ρ op s hnotified
    unfold Operation.afterWait
    rw [hnotified]
    split
    · exact ⟨trivial, rfl⟩
    · split
      · exact ⟨trivial, rfl⟩
      · exact ⟨trivial, rfl⟩
  exact ⟨fun _ _ _ s ↦ hsame _ s fun _ _ ↦ rfl, fun _ _ _ s ↦ hsame _ s fun _ _ ↦ rfl,
    fun _ fd ↦ hsame _ fd fun _ _ ↦ rfl, fun d ↦ hsame _ d fun _ _ ↦ rfl⟩

/-- How far an `EventOperation` has come. -/
inductive Stage
  | unused
  /-- at the head of the loop of `perform` -/
  | head
  | blocked
  | parked
  /-- the wait is over, and the flag has not been looked at -/
  | woken
  | returned (error : Int)
  /-- `interrupt` has set the flag of the operation and is about to notify -/
  | notifies
  | notified
deriving DecidableEq

/-- An `EventOperation` with the variables of its call. -/
structure EventOperation where
  interrupted : Bool
  timeout : Int
  outcome : Outcome
  error : Int
  stage : Stage
deriving DecidableEq

/-- What a pass leaves of the operation. -/
def EventOperation.flow (o : EventOperation) : Flow Outcome → EventOperation
  | .again outcome error => { o with outcome, error, stage := .head }
  | .done outcome error => { o with outcome, error, stage := .returned error }

def EventOperation.attempted (o : EventOperation) : Attempt Outcome → EventOperation
  | .ends flow => o.flow flow
  | .blocks outcome error => { o with outcome, error, stage := .blocked }

structure Interrupting where
  device : Device
  semaphores : EventType → BasicSemaphore
  notifying : EventType → Nat
  operations : Nat → EventOperation

namespace Interrupting

def initial (device : Device) : Interrupting where
  device := device
  semaphores _ := BasicSemaphore.create 0
  notifying _ := 0
  operations _ := ⟨false, -1, .wouldBlock, 0, .unused⟩

inductive Action
  /-- a new `EventOperation` enters `perform` -/
  | perform (i : Nat) (timeout : Int)
  | attempt (i : Nat) (isOpen : Bool) (outcome : Outcome)
  | wait (i : Nat)
  | wake (i : Nat)
  | timeOut (i : Nat)
  /-- the rest of the pass after a wait that was notified -/
  | check (i : Nat)
  /-- `interrupt` of the device makes a new `EventOperation` and sets its flag -/
  | interrupt (i : Nat)
  /-- its notification, up to the atomic step -/
  | notify (i : Nat)
  | notifyLocked (event : EventType)
  /-- another notification, by the selector -/
  | event (event : EventType)
deriving DecidableEq

def setOperation (s : Interrupting) (i : Nat) (operation : EventOperation) : Interrupting :=
  { s with operations := fun j ↦ if j = i then operation else s.operations j }

def setSemaphore (s : Interrupting) (event : EventType) (semaphore : BasicSemaphore) :
    Interrupting :=
  { s with semaphores := fun e ↦ if e = event then semaphore else s.semaphores e }

def notifyAtomic (s : Interrupting) (event : EventType) : Interrupting :=
  let (slow, semaphore) := (s.semaphores event).notifyAtomic
  let notifying := fun e ↦ if e = event ∧ slow = true then s.notifying e + 1 else s.notifying e
  { s.setSemaphore event semaphore with notifying }

def step (s : Interrupting) : Action → Option Interrupting
  | .perform i timeout =>
    if (s.operations i).stage = .unused then
      some (s.setOperation i ⟨false, timeout, .wouldBlock, 0, .head⟩)
    else none
  | .attempt i isOpen outcome =>
    let o := s.operations i
    if o.stage = .head then
      match deviceOperation.attempt isOpen outcome o.outcome o.error with
      | none => none
      | some attempt => some (s.setOperation i (o.attempted attempt))
    else none
  | .wait i =>
    let o := s.operations i
    if o.stage = .blocked then
      let (slow, semaphore) := (s.semaphores s.device.bindedEvent).waitAtomic
      some ((s.setSemaphore s.device.bindedEvent semaphore).setOperation i
        { o with stage := if slow then .parked else .woken })
    else none
  | .wake i =>
    let o := s.operations i
    let semaphore := s.semaphores s.device.bindedEvent
    if o.stage = .parked ∧ semaphore.admits = true then
      some ((s.setSemaphore s.device.bindedEvent semaphore.waitLocked).setOperation i
        { o with stage := .woken })
    else none
  | .timeOut i =>
    let o := s.operations i
    let semaphore := s.semaphores s.device.bindedEvent
    if o.stage = .parked ∧ o.timeout > 0 ∧ semaphore.admits = false then
      some ((s.setSemaphore s.device.bindedEvent semaphore.waitLocked).setOperation i
        (o.flow
          (deviceOperation.afterWait o.timeout false o.interrupted o.outcome o.error)))
    else none
  | .check i =>
    let o := s.operations i
    if o.stage = .woken then
      some (s.setOperation i (o.flow
        (deviceOperation.afterWait o.timeout true o.interrupted o.outcome o.error)))
    else none
  | .interrupt i =>
    if (s.operations i).stage = .unused then
      some (s.setOperation i ⟨true, -1, .wouldBlock, 0, .notifies⟩)
    else none
  | .notify i =>
    let o := s.operations i
    if o.stage = .notifies then
      some ((s.notifyAtomic s.device.bindedEvent).setOperation i { o with stage := .notified })
    else none
  | .notifyLocked event =>
    if s.notifying event = 0 then none
    else
      let notifying := fun e ↦ if e = event then s.notifying e - 1 else s.notifying e
      some { s.setSemaphore event (s.semaphores event).notifyLocked with notifying }
  | .event event => some (s.notifyAtomic event)

/-! ## The flags of the operations -/

/-- The call is in `perform`. -/
def Performs : Stage → Prop
  | .head | .blocked | .parked | .woken => True
  | .unused | .returned _ | .notifies | .notified => False

/-- No one has set the flag of an operation that is in `perform`, and no call has returned
`INTERRUPTED`. -/
structure Unheard (o : EventOperation) : Prop where
  flag : Performs o.stage → o.interrupted = false
  answer : ∀ error, o.stage = .returned error → error ≠ Error.interrupted

def Inv (s : Interrupting) : Prop := ∀ i, Unheard (s.operations i)

variable {s t : Interrupting} {device : Device} {i : Nat} {o : EventOperation}

theorem inv_initial (device : Device) : Inv (initial device) :=
  fun _ ↦ ⟨fun h ↦ absurd h id, fun _ h ↦ nomatch h⟩

@[simp] theorem setOperation_self (s : Interrupting) (i : Nat) (o : EventOperation) :
    (s.setOperation i o).operations i = o := if_pos rfl

theorem Inv.setOperation (h : Inv s) (ho : Unheard o) : Inv (s.setOperation i o) := by
  intro j
  by_cases heq : j = i
  · rw [show (s.setOperation i o).operations j = o from if_pos heq]
    exact ho
  · rw [show (s.setOperation i o).operations j = s.operations j from if_neg heq]
    exact h j

/-- A wait that was notified leads back to the head of the loop. -/
theorem afterWait_notified {timeout error : Int} {outcome : Outcome} :
    deviceOperation.afterWait timeout true false outcome error = .again outcome error := by
  unfold Operation.afterWait
  rw [if_neg (by simp), if_neg (by decide)]
  rfl

theorem unheard_attempted {isOpen : Bool} {outcome : Outcome} {attempt : Attempt Outcome}
    (hflag : o.interrupted = false)
    (hattempt : deviceOperation.attempt isOpen outcome o.outcome o.error = some attempt) :
    Unheard (o.attempted attempt) := by
  unfold Operation.attempt at hattempt
  split at hattempt
  · -- the errors of the operations are not negative, or REMOTELY_CLOSED
    cases outcome with
    | wouldBlock =>
      cases hattempt
      exact ⟨fun _ ↦ hflag, fun _ h ↦ nomatch h⟩
    | errno e =>
      cases hattempt
      refine ⟨fun _ ↦ hflag, fun error h ↦ ?_⟩
      cases h
      unfold Error.interrupted
      omega
    | remotelyClosed =>
      cases hattempt
      refine ⟨fun _ ↦ hflag, fun error h ↦ ?_⟩
      cases h
      decide
    | partly =>
      cases hattempt
      exact ⟨fun _ ↦ hflag, fun _ h ↦ nomatch h⟩
  · cases hattempt
    refine ⟨fun _ ↦ hflag, fun error h ↦ ?_⟩
    cases h
    decide

theorem Inv.step {a : Action} (h : Inv s) (hstep : s.step a = some t) : Inv t := by
  -- a stage of perform keeps the flag that its operation began with
  have hkeep : ∀ i stage, Performs (s.operations i).stage → Performs stage →
      Unheard { s.operations i with stage } := by
    intro i stage hbefore hafter
    refine ⟨fun _ ↦ (h i).flag hbefore, fun error heq ↦ ?_⟩
    rw [show stage = .returned error from heq] at hafter
    exact absurd hafter id
  cases a with
  | perform i timeout =>
    simp only [Interrupting.step] at hstep
    split at hstep
    · cases hstep
      exact h.setOperation ⟨fun _ ↦ rfl, fun _ h ↦ nomatch h⟩
    · exact absurd hstep (by simp)
  | attempt i isOpen outcome =>
    simp only [Interrupting.step] at hstep
    split at hstep
    · rename_i hhead
      split at hstep
      · exact absurd hstep (by simp)
      · rename_i hattempt
        cases hstep
        exact h.setOperation (unheard_attempted ((h i).flag (by rw [hhead]; trivial)) hattempt)
    · exact absurd hstep (by simp)
  | wait i =>
    simp only [Interrupting.step] at hstep
    split at hstep
    · rename_i hblocked
      cases hstep
      apply Inv.setOperation (s := s.setSemaphore _ _) h
      apply hkeep i _ (by rw [hblocked]; trivial)
      split <;> trivial
    · exact absurd hstep (by simp)
  | wake i =>
    simp only [Interrupting.step] at hstep
    split at hstep
    · rename_i hparked
      cases hstep
      apply Inv.setOperation (s := s.setSemaphore _ _) h
      exact hkeep i .woken (by rw [hparked.1]; trivial) trivial
    · exact absurd hstep (by simp)
  | timeOut i =>
    simp only [Interrupting.step] at hstep
    split at hstep
    · rename_i hparked
      cases hstep
      apply Inv.setOperation (s := s.setSemaphore _ _) h
      have htimeout : (s.operations i).timeout > 0 ∧ false = false := ⟨hparked.2.1, rfl⟩
      rw [Operation.afterWait, if_pos htimeout]
      refine ⟨fun hperforms ↦ absurd hperforms id, fun error heq ↦ ?_⟩
      cases heq
      decide
    · exact absurd hstep (by simp)
  | check i =>
    simp only [Interrupting.step] at hstep
    split at hstep
    · rename_i hwoken
      cases hstep
      rw [(h i).flag (by rw [hwoken]; trivial), afterWait_notified]
      exact h.setOperation (hkeep i .head (by rw [hwoken]; trivial) trivial)
    · exact absurd hstep (by simp)
  | interrupt i =>
    simp only [Interrupting.step] at hstep
    split at hstep
    · cases hstep
      exact h.setOperation ⟨fun hperforms ↦ absurd hperforms id, fun _ h ↦ nomatch h⟩
    · exact absurd hstep (by simp)
  | notify i =>
    simp only [Interrupting.step] at hstep
    split at hstep
    · cases hstep
      apply Inv.setOperation (s := s.notifyAtomic _) h
      exact ⟨fun hperforms ↦ absurd hperforms id, fun _ h ↦ nomatch h⟩
    · exact absurd hstep (by simp)
  | notifyLocked event =>
    simp only [Interrupting.step] at hstep
    split at hstep
    · exact absurd hstep (by simp)
    · cases hstep
      exact h
  | event event =>
    cases hstep
    exact h

/-! ## Interrupted operations -/

def Action.isEvent : Action → Bool
  | .event _ => true
  | _ => false

/-- The operation was parked when the device was interrupted, nothing else has been notified since,
and the operation has taken a permit. -/
def Interrupted (device : Device) (i : Nat) (t : Interrupting) : Prop :=
  ∃ as s j bs, run step (initial device) as = some s ∧ (s.operations i).stage = .parked ∧
    run step s (.interrupt j :: bs) = some t ∧ (∀ a ∈ bs, a.isEvent = false) ∧
    (t.operations i).stage = .woken

/-- The call returns `INTERRUPTED` as it goes on. -/
def Heeds (t : Interrupting) (i : Nat) : Prop :=
  ∃ u, t.step (.check i) = some u ∧ (u.operations i).stage = .returned Error.interrupted

/-- The operation is tried again, would block and waits again. -/
def Retries (t : Interrupting) (i : Nat) : Prop :=
  ∃ u, run step t [.check i, .attempt i true .wouldBlock, .wait i] = some u ∧
    ((u.operations i).stage = .parked ∨ (u.operations i).stage = .woken)

theorem step_check (hwoken : (s.operations i).stage = .woken)
    (hflag : (s.operations i).interrupted = false) :
    s.step (.check i) = some (s.setOperation i { s.operations i with stage := .head }) := by
  have hafter : deviceOperation.afterWait (s.operations i).timeout true
      (s.operations i).interrupted (s.operations i).outcome (s.operations i).error =
        .again (s.operations i).outcome (s.operations i).error := by
    rw [hflag]
    exact afterWait_notified
  simp only [Interrupting.step]
  rw [if_pos hwoken, hafter]
  rfl

theorem step_attempt (hhead : (s.operations i).stage = .head) :
    s.step (.attempt i true .wouldBlock) = some (s.setOperation i
      { s.operations i with outcome := .wouldBlock, error := Errno.eagain, stage := .blocked }) := by
  simp only [Interrupting.step]
  rw [if_pos hhead]
  rfl

theorem step_wait (hblocked : (s.operations i).stage = .blocked) :
    ∃ u, s.step (.wait i) = some u ∧
      ((u.operations i).stage = .parked ∨ (u.operations i).stage = .woken) := by
  simp only [Interrupting.step]
  rw [if_pos hblocked]
  refine ⟨_, rfl, ?_⟩
  rw [setOperation_self]
  split
  · exact Or.inl rfl
  · exact Or.inr rfl

/-- An operation that has taken the permit of an interrupt does not return `INTERRUPTED`, and may
wait again. -/
theorem not_heeds_of_interrupted (h : Interrupted device i t) : ¬ Heeds t i ∧ Retries t i := by
  have ⟨as, s, j, bs, has, _, hbs, _, hwoken⟩ := h
  have hinv : Inv t := by
    apply invariant_of_run Inv (fun _ _ _ h hstep ↦ h.step hstep) ?_ hbs
    exact invariant_of_run Inv (fun _ _ _ h hstep ↦ h.step hstep) (inv_initial device) has
  have hflag := (hinv i).flag (by rw [hwoken]; trivial)
  constructor
  · rintro ⟨u, hu, hreturned⟩
    exact ((Inv.step hinv hu) i).answer Error.interrupted hreturned rfl
  · have hcheck := step_check hwoken hflag
    have hattempt := step_attempt (i := i)
      (s := t.setOperation i { t.operations i with stage := .head }) (by rw [setOperation_self])
    have ⟨u, hwait, hstage⟩ := step_wait (i := i)
      (s := (t.setOperation i { t.operations i with stage := .head }).setOperation i
        { t.operations i with outcome := .wouldBlock, error := Errno.eagain, stage := .blocked })
      (by rw [setOperation_self])
    refine ⟨u, ?_, hstage⟩
    rw [setOperation_self] at hattempt
    rw [run_cons, hcheck, Option.bind_some, run_cons, hattempt, Option.bind_some, run_cons, hwait]
    rfl

/-- A read waits. -/
def waitingRead : List Action := [.perform 0 (-1), .attempt 0 true .wouldBlock, .wait 0]

/-- The notification of the interrupt, and the end of the wait. -/
def takesPermit : List Action := [.notify 1, .notifyLocked .eventIn, .wake 0]

def interruptedRead : Interrupting :=
  (run step (initial .readStream) (waitingRead ++ .interrupt 1 :: takesPermit)).getD
    (initial .readStream)

theorem not_heeds_of_interrupted_read :
    Interrupted .readStream 0 interruptedRead ∧
      ¬ Heeds interruptedRead 0 ∧ Retries interruptedRead 0 := by
  have hinput : Interrupted .readStream 0 interruptedRead :=
    ⟨waitingRead, _, 1, takesPermit, rfl, rfl, rfl, by decide, rfl⟩
  exact ⟨hinput, not_heeds_of_interrupted hinput⟩

/-- The read does not return, and its operation parks again. -/
theorem not_heeds_read :
    Interrupted .readStream 0 interruptedRead ∧ ¬ Heeds interruptedRead 0 ∧
      ∃ u, run step interruptedRead [.check 0, .attempt 0 true .wouldBlock, .wait 0] = some u ∧
        (u.operations 0).stage = .parked := by
  refine ⟨⟨waitingRead, _, 1, takesPermit, rfl, rfl, rfl, by decide, rfl⟩, ?_, _, rfl, rfl⟩
  rintro ⟨u, hu, hreturned⟩
  cases hu
  exact absurd hreturned (by decide)

end Interrupting

end Ustevent.Net
