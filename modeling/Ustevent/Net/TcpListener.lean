import Ustevent.Core.BasicSemaphore
import Ustevent.Net.TcpDialer
import Ustevent.Net.Transfer

/-!
# Accepting and closing

`TcpListener::accept` waits on the `EVENT_IN` semaphore of the listening socket's event object.  Any
number of fibers may be in it when `close` clears the flag, interrupts once and resets the members.
A fiber runs from one wait to the next without another one in between.
-/

namespace Ustevent.Net

open Reasoning

/-- The members of a listener: whether `_event_listen_socket` is set, and the protocol of
`_local_address`. -/
structure TcpListener where
  isListening : Bool
  eventListenSocket : Bool
  localAddress : Option Protocal
  acceptTimeoutMilliseconds : Int
deriving DecidableEq

/-- `accept4` until it answers with something else than `EINTR`; a count is the new descriptor. -/
def TcpSocket.nonBlockingAccept : List Answer → Option (Bool × Option Nat × Int)
  | [] => none
  | .count fd :: _ => some (true, some fd, 0)
  | .errno e :: answers =>
    if e = Errno.eagain then some (false, none, e)
    else if e = Errno.eintr then nonBlockingAccept answers
    else some (true, none, e)

/-- A call of `accept`. -/
inductive AcceptCall
  /-- at the head of the loop of `perform` -/
  | head (timeout error : Int)
  /-- in the slow path of the wait -/
  | parked (timeout error : Int)
  | returned (connection : Option Nat) (error : Int)
  /-- a member that has been reset was used -/
  | crashed
deriving DecidableEq

def AcceptCall.isParked : AcceptCall → Bool
  | .parked _ _ => true
  | .head _ _ | .returned _ _ | .crashed => false

namespace TcpListener

/-- The operation reaches the socket through the listener and not through its own event object.
Its variable is `accepted_socket_fd`. -/
def acceptOperation (l : TcpListener) : Operation (Option Nat) (List Answer) where
  nonBlockingOperation answers _ _ :=
    -- a call that gets here after the reset would use an empty pointer
    if l.eventListenSocket then TcpSocket.nonBlockingAccept answers else none
  onOperated fd error := (true, fd, error)
  onNotified fd error := (false, fd, error)

/-- `accept` up to the loop of `perform`. -/
def accept (l : TcpListener) : AcceptCall :=
  if l.isListening then
    -- `_local_address->getProtocol()` comes before the test of the socket
    match l.localAddress with
    | none => .crashed
    | some _ =>
      if l.eventListenSocket then .head l.acceptTimeoutMilliseconds 0
      else .returned none Error.closed
  else .returned none Error.closed

/-- After `perform` has returned; `initError` is the answer of the new event object's `init`. -/
def performed (fd : Option Nat) (error initError : Int) : AcceptCall :=
  if error ≠ 0 then .returned none error
  else if initError ≠ 0 then .returned none initError
  else .returned fd 0

/-- The rest of a pass that has waited.  The call's own operation is never interrupted. -/
def waited (l : TcpListener) (timeout : Int) (notified : Bool) (error : Int) : AcceptCall :=
  match l.acceptOperation.afterWait timeout notified false none error with
  | .again _ error => .head timeout error
  | .done fd error => performed fd error 0

/-! ## The calls on one listener -/

/-- The listener, the `EVENT_IN` semaphore of its event object, and the calls made so far. -/
structure Accepting where
  listener : TcpListener
  semaphore : BasicSemaphore
  calls : List AcceptCall
deriving DecidableEq

inductive AcceptAction
  | accept
  /-- a pass of the loop up to its wait -/
  | pass (i : Nat) (answers : List Answer) (initError : Int)
  | wake (i : Nat)
  | timeOut (i : Nat)
  /-- a notification by the selector -/
  | event
  | interrupt
  | close
  | setAcceptTimeout (milliseconds : Int)
deriving DecidableEq

namespace Accepting

def initial (protocal : Protocal) : Accepting :=
  ⟨⟨true, true, some protocal, -1⟩, BasicSemaphore.create 0, []⟩

def setCall (s : Accepting) (i : Nat) (call : AcceptCall) : Accepting :=
  { s with calls := s.calls.set i call }

/-- A new `EventOperation` over an empty pointer has nothing to notify. -/
def interrupt (s : Accepting) : Accepting :=
  if s.listener.eventListenSocket then { s with semaphore := s.semaphore.notify } else s

def close (s : Accepting) : Accepting :=
  let s := { s with listener := { s.listener with isListening := false } }.interrupt
  { s with listener := { s.listener with eventListenSocket := false, localAddress := none } }

def step (s : Accepting) : AcceptAction → Option Accepting
  | .accept => some { s with calls := s.calls ++ [s.listener.accept] }
  | .pass i answers initError =>
    match s.calls[i]? with
    | some (.head timeout error) =>
      match s.listener.acceptOperation.attempt s.listener.isListening answers none error with
      | none => if s.listener.eventListenSocket then none else some (s.setCall i .crashed)
      -- on_operated returns true, so that every pass without a wait is the last one
      | some (.ends (.done fd error)) | some (.ends (.again fd error)) =>
        some (s.setCall i (performed fd error initError))
      | some (.blocks _ error) =>
        let (slow, semaphore) := s.semaphore.waitAtomic
        let call := if slow then .parked timeout error else s.listener.waited timeout true error
        some { s.setCall i call with semaphore }
    | _ => none
  | .wake i =>
    match s.calls[i]? with
    | some (.parked timeout error) =>
      if s.semaphore.admits then
        some { s.setCall i (s.listener.waited timeout true error) with
          semaphore := s.semaphore.waitLocked }
      else none
    | _ => none
  | .timeOut i =>
    match s.calls[i]? with
    | some (.parked timeout error) =>
      if timeout > 0 ∧ s.semaphore.admits = false then
        some { s.setCall i (s.listener.waited timeout false error) with
          semaphore := s.semaphore.waitLocked }
      else none
    | _ => none
  | .event => some { s with semaphore := s.semaphore.notify }
  | .interrupt => some s.interrupt
  | .close => some s.close
  | .setAcceptTimeout milliseconds =>
    some { s with listener := { s.listener with acceptTimeoutMilliseconds := milliseconds } }

/-- The number of fibers in the wait. -/
def parked (s : Accepting) : Nat := s.calls.countP AcceptCall.isParked

/-- The call, which is parked, passes its wait and returns `CLOSED`. -/
def Returns (s : Accepting) (i : Nat) : Prop :=
  ∃ t u, s.step (.wake i) = some t ∧ t.step (.pass i [] 0) = some u ∧
    u.calls[i]? = some (.returned none Error.closed)

/-- What `close` is for. -/
structure Sound (s : Accepting) : Prop where
  permits : s.listener.isListening = false → (s.parked : Int) ≤ max s.semaphore.count 0
  returns : s.listener.isListening = false → ∀ i timeout error,
    s.calls[i]? = some (.parked timeout error) → s.Returns i
  untouched : AcceptCall.crashed ∉ s.calls
  again : s.listener.isListening = false → s.close = s

/-- The first `close` finds no waiting fiber, or at most one, counting the permits that earlier
timed-out waits have left the semaphore short of. -/
def Serves (s : Accepting) : AcceptAction → Prop
  | .close => s.listener.isListening = true → s.parked = 0 ∨ -1 ≤ s.semaphore.atomicCount
  | _ => True

instance decidableServes (s : Accepting) : (a : AcceptAction) → Decidable (s.Serves a)
  | .close => inferInstanceAs (Decidable (_ → _))
  | .accept | .pass _ _ _ | .wake _ | .timeOut _ | .event | .interrupt | .setAcceptTimeout _ =>
    isTrue trivial

/-- The counters that the step may change stay within the range of their type. -/
def InRange (s : Accepting) : AcceptAction → Prop
  | .pass _ _ _ => IsInt (s.semaphore.atomicCount - 1)
  | .wake _ | .timeOut _ => IsInt (s.semaphore.count - 1)
  | .event | .interrupt | .close => s.semaphore.NotifyInRange
  | .accept | .setAcceptTimeout _ => True

instance decidableInRange (s : Accepting) : (a : AcceptAction) → Decidable (s.InRange a)
  | .pass _ _ _ | .wake _ | .timeOut _ => inferInstanceAs (Decidable (IsInt _))
  | .event | .interrupt | .close => inferInstanceAs (Decidable s.semaphore.NotifyInRange)
  | .accept | .setAcceptTimeout _ => isTrue trivial

/-! ## One step -/

variable {l : TcpListener} {s t : Accepting} {i : Nat} {old call : AcceptCall} {timeout error : Int}

theorem accept_closed (h : l.isListening = false) : l.accept = .returned none Error.closed := by
  unfold TcpListener.accept
  rw [h]
  rfl

theorem accept_listening (h : l.isListening = true) (hsocket : l.eventListenSocket = true)
    (haddress : l.localAddress.isSome = true) :
    l.accept = .head l.acceptTimeoutMilliseconds 0 := by
  have ⟨protocal, hprotocal⟩ := Option.isSome_iff_exists.mp haddress
  unfold TcpListener.accept
  rw [if_pos h, hprotocal]
  exact if_pos hsocket

theorem performed_eq (fd : Option Nat) (error initError : Int) :
    ∃ connection error', performed fd error initError = .returned connection error' := by
  unfold performed
  split
  · exact ⟨_, _, rfl⟩
  · split <;> exact ⟨_, _, rfl⟩

theorem waited_notified (l : TcpListener) : l.waited timeout true error = .head timeout error := by
  unfold waited Operation.afterWait
  rw [if_neg (by simp), if_neg (by decide)]
  rfl

theorem waited_timedOut (l : TcpListener) (h : timeout > 0) :
    l.waited timeout false error = .returned none Error.timeout := by
  unfold waited Operation.afterWait
  rw [if_pos ⟨h, rfl⟩]
  rfl

/-- A pass on a closed listener is the last one and touches no member. -/
theorem attempt_closed {answers : List Answer} (h : l.isListening = false) :
    l.acceptOperation.attempt l.isListening answers none error =
      some (.ends (.done none Error.closed)) := by
  unfold Operation.attempt
  rw [h]
  rfl

theorem parked_setCall (hold : s.calls[i]? = some old) (call : AcceptCall) :
    (s.setCall i call).parked + old.isParked.toNat = s.parked + call.isParked.toNat :=
  countP_set_add hold

/-! ## The invariant -/

/-- The members are reset exactly when the flag is cleared, and the counters of the semaphore agree
with the parked calls. -/
structure Inv (s : Accepting) : Prop where
  balanced : BasicSemaphore.Balanced 0 0 s.parked s.semaphore
  socket : s.listener.eventListenSocket = s.listener.isListening
  address : s.listener.localAddress.isSome = s.listener.isListening
  running : AcceptCall.crashed ∉ s.calls

theorem inv_initial (protocal : Protocal) : Inv (initial protocal) where
  balanced := BasicSemaphore.create_balanced 0
  socket := rfl
  address := rfl
  running := List.not_mem_nil

theorem mem_setCall (h : Inv s) (hcall : call ≠ .crashed) :
    AcceptCall.crashed ∉ (s.setCall i call).calls := by
  intro hmem
  cases List.mem_or_eq_of_mem_set hmem with
  | inl hold => exact h.running hold
  | inr heq => exact hcall heq.symm

theorem Inv.setCall (h : Inv s) (hold : s.calls[i]? = some old) (hparked : old.isParked = false)
    (hcall : call.isParked = false) (hne : call ≠ .crashed) :
    Inv (s.setCall i call) ∧ (s.setCall i call).parked = s.parked := by
  -- the number of parked calls stays the same
  have hcount := parked_setCall hold call
  rw [hparked, hcall, Nat.add_right_cancel_iff] at hcount
  exact ⟨⟨hcount ▸ h.balanced, h.socket, h.address, mem_setCall h hne⟩, hcount⟩

theorem Inv.leave (h : Inv s) (hold : s.calls[i]? = some old) (hparked : old.isParked = true)
    (hcall : call.isParked = false) (hne : call ≠ .crashed)
    (hrange : IsInt (s.semaphore.count - 1)) :
    Inv { s.setCall i call with semaphore := s.semaphore.waitLocked } ∧
      (s.setCall i call).parked ≤ s.parked := by
  have hcount := parked_setCall hold call
  rw [hparked, hcall] at hcount
  refine ⟨⟨?_, h.socket, h.address, mem_setCall h hne⟩, Nat.le_of_lt (Nat.le_of_eq hcount)⟩
  refine BasicSemaphore.Balanced.waitLocked ?_ hrange
  exact hcount ▸ h.balanced

theorem Inv.wait (h : Inv s) (hold : s.calls[i]? = some old) (hparked : old.isParked = false)
    (hcall : call.isParked = s.semaphore.waitAtomic.1) (hne : call ≠ .crashed)
    (hrange : IsInt (s.semaphore.atomicCount - 1)) :
    Inv { s.setCall i call with semaphore := s.semaphore.waitAtomic.2 } := by
  have hcount := parked_setCall hold call
  have hbalanced := h.balanced.waitAtomic hrange
  rw [hparked, hcall] at hcount
  refine ⟨?_, h.socket, h.address, mem_setCall h hne⟩
  rw [show (if s.semaphore.waitAtomic.1 then s.parked + 1 else s.parked) =
    (s.setCall i call).parked by split <;> simp_all] at hbalanced
  exact hbalanced

theorem Inv.interrupt (h : Inv s) (hrange : s.semaphore.NotifyInRange) : Inv s.interrupt := by
  unfold Accepting.interrupt
  split
  · exact ⟨h.balanced.notify hrange, h.socket, h.address, h.running⟩
  · exact h

theorem Inv.close (h : Inv s) (hrange : s.semaphore.NotifyInRange) : Inv s.close := by
  unfold Accepting.close Accepting.interrupt
  dsimp only
  split
  · exact ⟨h.balanced.notify hrange, rfl, rfl, h.running⟩
  · exact ⟨h.balanced, rfl, rfl, h.running⟩

theorem Inv.accept (h : Inv s) :
    Inv { s with calls := s.calls ++ [s.listener.accept] } ∧
      Accepting.parked { s with calls := s.calls ++ [s.listener.accept] } = s.parked := by
  -- a new call returns at once or gets to the head of the loop
  have hcall : s.listener.accept.isParked = false ∧ s.listener.accept ≠ .crashed := by
    by_cases hlistening : s.listener.isListening = true
    · rw [accept_listening hlistening (h.socket.trans hlistening) (h.address.trans hlistening)]
      exact ⟨rfl, by simp⟩
    · rw [accept_closed (Bool.eq_false_iff.mpr hlistening)]
      exact ⟨rfl, by simp⟩
  have hcount : Accepting.parked { s with calls := s.calls ++ [s.listener.accept] } = s.parked := by
    rw [Accepting.parked, List.countP_append, List.countP_singleton, hcall.1]
    rfl
  refine ⟨⟨hcount ▸ h.balanced, h.socket, h.address, fun hmem ↦ ?_⟩, hcount⟩
  rw [List.mem_append, List.mem_singleton] at hmem
  exact hmem.elim h.running fun heq ↦ hcall.2 heq.symm

/-- A pass leaves the listener as it is; on a closed one it does not reach the semaphore either. -/
theorem Inv.pass (h : Inv s) {answers : List Answer} {initError : Int}
    (hrange : s.InRange (.pass i answers initError))
    (hstep : s.step (.pass i answers initError) = some t) :
    Inv t ∧ t.listener = s.listener ∧
      (s.listener.isListening = false → t.semaphore = s.semaphore ∧ t.parked = s.parked) := by
  rw [step] at hstep
  split at hstep
  · rename_i timeout error hhead
    obtain hlistening | hclosed : s.listener.isListening = true ∨ s.listener.isListening = false :=
      Bool.eq_false_or_eq_true _
    · split at hstep
      · rw [if_pos (h.socket.trans hlistening)] at hstep
        contradiction
      · cases hstep
        obtain ⟨connection, error', hreturned⟩ := performed_eq ‹Option Nat› ‹Int› initError
        rw [hreturned]
        have hset : Inv (s.setCall i (.returned connection error')) ∧ _ :=
          h.setCall hhead rfl rfl (by simp)
        exact ⟨hset.1, rfl, fun _ ↦ ⟨rfl, hset.2⟩⟩
      · cases hstep
        obtain ⟨connection, error', hreturned⟩ := performed_eq ‹Option Nat› ‹Int› initError
        rw [hreturned]
        have hset : Inv (s.setCall i (.returned connection error')) ∧ _ :=
          h.setCall hhead rfl rfl (by simp)
        exact ⟨hset.1, rfl, fun _ ↦ ⟨rfl, hset.2⟩⟩
      · cases hstep
        refine ⟨?_, rfl, fun hclosed ↦ absurd (hlistening.symm.trans hclosed) (by decide)⟩
        rw [waited_notified]
        refine h.wait hhead rfl ?_ ?_ hrange
        · show AcceptCall.isParked (if s.semaphore.waitAtomic.1 then _ else _) = _
          cases s.semaphore.waitAtomic.1 <;> rfl
        · split <;> simp
    -- the flag is tested before the operation is tried
    · rw [attempt_closed hclosed] at hstep
      cases hstep
      have hset : Inv (s.setCall i (performed none Error.closed initError)) ∧ _ :=
        h.setCall hhead rfl rfl (by simp [performed, Error.closed])
      exact ⟨hset.1, rfl, fun _ ↦ ⟨rfl, hset.2⟩⟩
  · contradiction

/-- The call that is let in or has run out of time leaves the wait. -/
theorem Inv.leaves (h : Inv s) (hold : s.calls[i]? = some (.parked timeout error))
    (hcall : call.isParked = false) (hne : call ≠ .crashed)
    (hrange : IsInt (s.semaphore.count - 1)) :
    let t := { s.setCall i call with semaphore := s.semaphore.waitLocked }
    Inv t ∧ t.listener.isListening = s.listener.isListening ∧
      (s.listener.isListening = false →
        t.parked ≤ s.parked ∧ s.semaphore.atomicCount ≤ t.semaphore.atomicCount) := by
  have hleave := h.leave hold rfl hcall hne hrange
  exact ⟨hleave.1, rfl, fun _ ↦ ⟨hleave.2, Int.le_refl _⟩⟩

/-- Every step but `close` keeps the flag, and on a closed listener lets no call into the wait and
takes no permit away. -/
theorem Inv.step {a : AcceptAction} (h : Inv s) (hrange : s.InRange a)
    (hstep : s.step a = some t) (hne : a ≠ .close) :
    Inv t ∧ t.listener.isListening = s.listener.isListening ∧
      (s.listener.isListening = false →
        t.parked ≤ s.parked ∧ s.semaphore.atomicCount ≤ t.semaphore.atomicCount) := by
  cases a with
  | accept =>
    cases hstep
    exact ⟨h.accept.1, rfl, fun _ ↦ ⟨Nat.le_of_eq h.accept.2, Int.le_refl _⟩⟩
  | pass i answers initError =>
    have ⟨hinv, hlistener, hpass⟩ := h.pass hrange hstep
    refine ⟨hinv, congrArg _ hlistener, fun hclosed ↦ ?_⟩
    obtain ⟨hsemaphore, hparked⟩ := hpass hclosed
    exact ⟨Nat.le_of_eq hparked, hsemaphore ▸ Int.le_refl _⟩
  | wake i =>
    rw [Accepting.step] at hstep
    split at hstep
    · rename_i timeout error hparked
      split at hstep
      · cases hstep
        -- the call that has been let in tests the flag in its next pass
        rw [waited_notified]
        exact h.leaves hparked rfl (by simp) hrange
      · contradiction
    · contradiction
  | timeOut i =>
    rw [Accepting.step] at hstep
    split at hstep
    · rename_i timeout error hparked
      split at hstep
      · rename_i htimeout
        cases hstep
        rw [waited_timedOut _ htimeout.1]
        exact h.leaves hparked rfl (by simp) hrange
      · contradiction
    · contradiction
  | event =>
    cases hstep
    refine ⟨⟨h.balanced.notify hrange, h.socket, h.address, h.running⟩, rfl,
      fun _ ↦ ⟨Nat.le_refl _, ?_⟩⟩
    rw [BasicSemaphore.notify_atomicCount hrange.1]
    omega
  | interrupt =>
    cases hstep
    refine ⟨h.interrupt hrange, ?_, fun hclosed ↦ ?_⟩
    · unfold Accepting.interrupt
      split <;> rfl
    · have hsame : s.interrupt = s := if_neg (by simp [h.socket, hclosed])
      rw [hsame]
      exact ⟨Nat.le_refl _, Int.le_refl _⟩
  | close => exact absurd rfl hne
  | setAcceptTimeout milliseconds =>
    cases hstep
    exact ⟨⟨h.balanced, h.socket, h.address, h.running⟩, rfl,
      fun _ ↦ ⟨Nat.le_refl _, Int.le_refl _⟩⟩

/-! ## Runs -/

theorem close_listening (h : Inv s) (hlistening : s.listener.isListening = true) :
    s.close.semaphore = s.semaphore.notify := by
  rw [Accepting.close, Accepting.interrupt, if_pos (h.socket.trans hlistening)]

theorem close_closed (h : Inv s) (hclosed : s.listener.isListening = false) : s.close = s := by
  have hsocket : s.listener.eventListenSocket = false := h.socket.trans hclosed
  have haddress : s.listener.localAddress = none := by
    rw [← Option.not_isSome_iff_eq_none, h.address, hclosed]
    decide
  obtain ⟨⟨isListening, eventListenSocket, localAddress, milliseconds⟩, semaphore, calls⟩ := s
  dsimp only at hclosed hsocket haddress
  subst hclosed hsocket haddress
  rfl

theorem returns_of_admits (hclosed : s.listener.isListening = false)
    (hparked : s.calls[i]? = some (.parked timeout error)) (hadmits : s.semaphore.admits = true) :
    s.Returns i := by
  have hlt := (List.getElem?_eq_some_iff.mp hparked).1
  refine ⟨{ s.setCall i (.head timeout error) with semaphore := s.semaphore.waitLocked },
    { s.setCall i (.returned none Error.closed) with semaphore := s.semaphore.waitLocked }, ?_, ?_, ?_⟩
  · simp only [Accepting.step]
    rw [hparked]
    dsimp only
    rw [if_pos hadmits, waited_notified]
  · have hhead : (s.calls.set i (.head timeout error))[i]? = some (.head timeout error) :=
      List.getElem?_set_self hlt
    simp only [Accepting.step, Accepting.setCall]
    rw [hhead]
    dsimp only
    rw [attempt_closed hclosed]
    dsimp only
    rw [List.set_set]
    rfl
  · exact List.getElem?_set_self hlt

/-- On a closed listener everything comes down to `_atomic_count`, unless nobody waits. -/
theorem sound_iff (h : Inv s) :
    Sound s ↔
      (s.listener.isListening = false → s.parked = 0 ∨ 0 ≤ s.semaphore.atomicCount) := by
  have hbalanced := h.balanced
  unfold BasicSemaphore.Balanced at hbalanced
  constructor
  · intro hsound hclosed
    have := hsound.permits hclosed
    omega
  · intro hcount
    have hpermits : s.listener.isListening = false → (s.parked : Int) ≤ max s.semaphore.count 0 := by
      intro hclosed
      -- `_atomic_count` is the permits less the parked calls
      have := hcount hclosed
      omega
    refine ⟨hpermits, ?_, h.running, close_closed h⟩
    intro hclosed i timeout error hparked
    apply returns_of_admits hclosed hparked
    have hpos : 0 < s.parked :=
      List.countP_pos_iff.mpr ⟨_, List.mem_of_getElem? hparked, rfl⟩
    have := hpermits hclosed
    exact decide_eq_true (by omega)

theorem isListening_close (s : Accepting) : s.close.listener.isListening = false := by
  unfold Accepting.close Accepting.interrupt
  dsimp only
  split <;> rfl

theorem parked_close (s : Accepting) : s.close.parked = s.parked := by
  unfold Accepting.close Accepting.interrupt
  dsimp only
  split <;> rfl

/-- The one notification of the first `close` serves one waiter. -/
theorem sound_close_iff (h : Inv s) (hsound : Sound s) (hrange : s.semaphore.NotifyInRange) :
    Sound s.close ↔ s.Serves .close := by
  rw [sound_iff (h.close hrange), parked_close]
  simp only [isListening_close, forall_const, Serves]
  obtain hlistening | hclosed : s.listener.isListening = true ∨ s.listener.isListening = false :=
    Bool.eq_false_or_eq_true _
  · rw [close_listening h hlistening, BasicSemaphore.notify_atomicCount hrange.1]
    simp only [hlistening, forall_const]
    omega
  · rw [close_closed h hclosed]
    refine iff_of_true ((sound_iff h).mp hsound hclosed) fun hlistening ↦ ?_
    exact absurd (hlistening.symm.trans hclosed) (by decide)

/-- As long as the counters stay within their range, what `close` is for holds in every state of a
run if and only if the first `close` finds at most one fiber to let in. -/
theorem always_sound_iff_serves (protocal : Protocal) {as : List AcceptAction}
    (hrange : Meets step InRange (initial protocal) as) :
    Always step Sound (initial protocal) as ↔ Meets step Serves (initial protocal) as := by
  refine always_iff_meets_of_meets Inv Sound ?_ ?_ (inv_initial protocal) ?_ hrange
  · intro s a t hinv hsound hrange hstep
    by_cases hclose : a = .close
    · subst hclose
      cases hstep
      exact ⟨sound_close_iff hinv hsound hrange, fun _ ↦ hinv.close hrange⟩
    -- on a closed listener the permits only become more, and the waiters fewer
    · have ⟨hinv', hflag, hcount⟩ := hinv.step hrange hstep hclose
      refine ⟨iff_of_true ?_ ?_, fun _ ↦ hinv'⟩
      · rw [sound_iff hinv', hflag]
        intro hclosed
        have hbefore := (sound_iff hinv).mp hsound hclosed
        have := hcount hclosed
        omega
      · cases a with
        | close => exact absurd rfl hclose
        | _ => trivial
  · intro s a hstuck
    cases a with
    | close => contradiction
    | _ => trivial
  · exact (sound_iff (inv_initial protocal)).mpr fun h ↦ nomatch h

/-- Two accepts time out, and `close` finds nobody to let in. -/
def lateAccepts : List AcceptAction :=
  [.setAcceptTimeout 10, .accept, .pass 0 [.errno Errno.eagain] 0, .accept,
    .pass 1 [.errno Errno.eagain] 0, .timeOut 0, .timeOut 1, .close, .accept]

theorem always_sound_iff_serves_lateAccepts :
    Always step Sound (initial .tcpIpv4) lateAccepts :=
  (always_sound_iff_serves .tcpIpv4 (by decide)).mpr (by decide)

/-- Two fibers wait, and `close` lets one of them in. -/
def twoAccepts : List AcceptAction :=
  [.accept, .pass 0 [.errno Errno.eagain] 0, .accept, .pass 1 [.errno Errno.eagain] 0, .close]

/-- After the first of them has returned, the second one has no permit. -/
theorem not_sound_twoAccepts :
    ∃ t, run step (initial .tcpIpv4) (twoAccepts ++ [.wake 0, .pass 0 [] 0]) = some t ∧
      t.calls = [.returned none Error.closed, .parked (-1) Errno.eagain] ∧
      t.semaphore.admits = false ∧ ¬ Sound t := by
  refine ⟨_, rfl, rfl, rfl, fun hsound ↦ ?_⟩
  exact absurd (hsound.permits rfl) (by decide)

end Accepting

end TcpListener

end Ustevent.Net
