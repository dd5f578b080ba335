import Ustevent.Net.EventOperation
import Ustevent.Reasoning.Runs

/-!
# Connecting through a dialer

`TcpDialer::connect` guards the one dial socket of a dialer with `_is_connecting`.  A call runs up
to the wait in `perform` or to its end without another call of the same dialer in between; the
system below interleaves any number of calls at these waits.
-/

namespace Ustevent.Net

open Reasoning

def Error.invalidArgument : Int := -5

def Errno.einprogress : Int := 115

inductive Protocal
  | tcpIpv4
  | tcpIpv6
deriving DecidableEq

/-- The event object that `_event_dial_socket` refers to: the call that made it and the protocol of
its socket. -/
structure DialSocket where
  call : Nat
  protocal : Protocal
deriving DecidableEq

structure TcpDialer where
  isConnecting : Bool
  eventDialSocket : Option DialSocket
  connectTimeout : Int
deriving DecidableEq

/-- The answer of `getsockopt(SO_ERROR)`. -/
inductive ConnectStatus
  | failed (errno : Int)
  | status (error : Int)
deriving DecidableEq

/-- The answers of the system to the calls of a stretch of `connect`; 0 is success. -/
structure ConnectAnswers where
  openError : Int
  initError : Int
  connectError : Int
  connectStatus : ConnectStatus
  addressError : Int
  connectionInitError : Int
deriving DecidableEq

/-- What has become of a call. -/
inductive ConnectCall
  | fresh
  | waiting (protocal : Protocal) (error : Int)
  | returned (connected : Bool) (error : Int)
  /-- an empty pointer was used or an assertion failed -/
  | crashed
deriving DecidableEq

namespace TcpDialer

def nonBlockingConnect : ConnectStatus → Bool × Int
  | .failed errno => (true, errno)
  | .status error => (decide (error ≠ Errno.einprogress), error)

/-- The operation reaches the socket through the dialer and not through its own event object. -/
def connectOperation : Operation TcpDialer ConnectStatus where
  nonBlockingOperation status d _ :=
    match d.eventDialSocket with
    | none => none
    | some _ => some ((nonBlockingConnect status).1, d, (nonBlockingConnect status).2)
  onOperated d error := (true, d, error)
  onNotified d error := (false, d, error)

/-- The label `finally`. -/
def finish (d : TcpDialer) (connected : Bool) (error : Int) : TcpDialer × ConnectCall :=
  ({ d with isConnecting := false, eventDialSocket := none },
    .returned (if error ≠ 0 then false else connected) error)

/-- From the release of the socket on. -/
def establish (d : TcpDialer) (protocal : Protocal) (answers : ConnectAnswers) :
    TcpDialer × ConnectCall :=
  match d.eventDialSocket with
  | none => (d, .crashed)
  | some socket =>
    if answers.addressError ≠ 0 then d.finish false answers.addressError
    -- assert(local_address->protocal() == TCP_IPV6), in the overload for IPv6 only
    else if protocal = .tcpIpv6 ∧ socket.protocal ≠ .tcpIpv6 then (d, .crashed)
    else if answers.connectionInitError ≠ 0 then d.finish false answers.connectionInitError
    else d.finish true 0

/-- After `perform` has returned. -/
def performed (d : TcpDialer) (protocal : Protocal) (answers : ConnectAnswers) (error : Int) :
    TcpDialer × ConnectCall :=
  if error ≠ 0 then d.finish false error else d.establish protocal answers

/-- A pass of the loop of `perform` up to its wait. -/
def pass (d : TcpDialer) (protocal : Protocal) (answers : ConnectAnswers) (error : Int) :
    TcpDialer × ConnectCall :=
  match connectOperation.attempt true answers.connectStatus d error with
  | none => (d, .crashed)
  | some (.blocks d error) => (d, .waiting protocal error)
  -- on_operated returns true, so that every pass without a wait is the last one
  | some (.ends (.done d error)) | some (.ends (.again d error)) =>
    d.performed protocal answers error

/-- A call of `connect` with or without an address, up to its first wait. -/
def connect (d : TcpDialer) (call : Nat) (protocal : Protocal) (address : Bool)
    (answers : ConnectAnswers) : TcpDialer × ConnectCall :=
  if address = false then (d, .returned false Error.invalidArgument)
  else if d.isConnecting then d.finish false 0
  else
    let d := { d with isConnecting := true }
    if answers.openError ≠ 0 then d.finish false answers.openError
    else
      let d := { d with eventDialSocket := some ⟨call, protocal⟩ }
      if answers.initError ≠ 0 then d.finish false answers.initError
      else if answers.connectError = Errno.einprogress then d.pass protocal answers 0
      else if answers.connectError ≠ 0 then d.finish false answers.connectError
      else d.establish protocal answers

/-- A call that has waited, up to its next wait. -/
def resume (d : TcpDialer) (protocal : Protocal) (notified interrupted : Bool)
    (answers : ConnectAnswers) (error : Int) : TcpDialer × ConnectCall :=
  match connectOperation.afterWait d.connectTimeout notified interrupted d error with
  | .done d error => d.performed protocal answers error
  | .again d error => d.pass protocal answers error

/-! ## Interleaved calls -/

structure Dialing where
  dialer : TcpDialer
  calls : Nat → ConnectCall
  /-- no call that lost the compare-exchange has changed the dialer -/
  kept : Bool

inductive DialAction
  | connect (call : Nat) (protocal : Protocal) (address : Bool) (answers : ConnectAnswers)
  | resume (call : Nat) (notified interrupted : Bool) (answers : ConnectAnswers)
deriving DecidableEq

namespace Dialing

def initial (connectTimeout : Int) : Dialing := ⟨⟨false, none, connectTimeout⟩, fun _ ↦ .fresh, true⟩

def update (s : Dialing) (call : Nat) (result : TcpDialer × ConnectCall) : Dialing :=
  { s with dialer := result.1, calls := fun i ↦ if i = call then result.2 else s.calls i }

def step (s : Dialing) : DialAction → Option Dialing
  | .connect call protocal address answers =>
    if s.calls call = .fresh then
      let result := s.dialer.connect call protocal address answers
      let loses := address && s.dialer.isConnecting
      some { s.update call result with kept := s.kept && (!loses || decide (result.1 = s.dialer)) }
    else none
  | .resume call notified interrupted answers =>
    match s.calls call with
    | .waiting protocal error =>
      some (s.update call (s.dialer.resume protocal notified interrupted answers error))
    | .fresh | .returned _ _ | .crashed => none

def Answered (connected : Bool) (error : Int) : Prop :=
  (connected = true ∧ error = 0) ∨ (connected = false ∧ error ≠ 0)

/-- What the guard and the label `finally` are for. -/
structure Sound (s : Dialing) : Prop where
  exclusive : ∀ i j protocal protocal' error error', s.calls i = .waiting protocal error →
    s.calls j = .waiting protocal' error' → i = j
  own : ∀ i protocal error, s.calls i = .waiting protocal error →
    s.dialer.isConnecting = true ∧ s.dialer.eventDialSocket = some ⟨i, protocal⟩
  kept : s.kept = true
  answered : ∀ i connected error, s.calls i = .returned connected error → Answered connected error
  running : ∀ i, s.calls i ≠ .crashed

/-- No call loses the compare-exchange. -/
def Wins (s : Dialing) : DialAction → Prop
  | .connect _ _ address _ => address = true → s.dialer.isConnecting = false
  | .resume _ _ _ _ => True

instance decidableWins (s : Dialing) : (a : DialAction) → Decidable (s.Wins a)
  | .connect _ _ _ _ => inferInstanceAs (Decidable (_ → _))
  | .resume _ _ _ _ => inferInstanceAs (Decidable True)

/-! ## One stretch of a call -/

variable {d : TcpDialer} {call : Nat} {protocal : Protocal} {answers : ConnectAnswers} {error : Int}

/-- How a stretch of the call ends that owns the dialer. -/
inductive Stretch (call : Nat) (protocal : Protocal) : TcpDialer × ConnectCall → Prop
  | waits {d : TcpDialer} {error : Int} (hflag : d.isConnecting = true)
      (hsocket : d.eventDialSocket = some ⟨call, protocal⟩) :
      Stretch call protocal (d, .waiting protocal error)
  | returns {d : TcpDialer} {connected : Bool} {error : Int} (hflag : d.isConnecting = false)
      (hanswer : Answered connected error) : Stretch call protocal (d, .returned connected error)

theorem stretch_fail (d : TcpDialer) (herror : error ≠ 0) :
    Stretch call protocal (d.finish false error) :=
  .returns rfl (Or.inr ⟨ite_self false, herror⟩)

theorem stretch_establish (hsocket : d.eventDialSocket = some ⟨call, protocal⟩) :
    Stretch call protocal (d.establish protocal answers) := by
  unfold establish
  rw [hsocket]
  dsimp only
  by_cases haddress : answers.addressError ≠ 0
  · rw [if_pos haddress]
    exact stretch_fail d haddress
  rw [if_neg haddress, if_neg (fun h ↦ h.2 h.1)]
  by_cases hinit : answers.connectionInitError ≠ 0
  · rw [if_pos hinit]
    exact stretch_fail d hinit
  · rw [if_neg hinit]
    exact .returns rfl (Or.inl ⟨rfl, rfl⟩)

theorem stretch_performed (hsocket : d.eventDialSocket = some ⟨call, protocal⟩) :
    Stretch call protocal (d.performed protocal answers error) := by
  unfold performed
  by_cases herror : error ≠ 0
  · rw [if_pos herror]
    exact stretch_fail d herror
  · rw [if_neg herror]
    exact stretch_establish hsocket

theorem stretch_pass (hflag : d.isConnecting = true)
    (hsocket : d.eventDialSocket = some ⟨call, protocal⟩) :
    Stretch call protocal (d.pass protocal answers error) := by
  unfold pass Operation.attempt
  rw [if_pos rfl]
  dsimp only [connectOperation]
  rw [hsocket]
  cases (nonBlockingConnect answers.connectStatus).1 with
  | true => exact stretch_performed hsocket
  | false => exact .waits hflag hsocket

/-- A call that finds `_is_connecting` false. -/
theorem stretch_connect (hflag : d.isConnecting = false) :
    Stretch call protocal (d.connect call protocal true answers) := by
  unfold TcpDialer.connect
  -- the compare-exchange succeeds
  rw [if_neg (by decide), if_neg (by rw [hflag]; decide)]
  dsimp only
  by_cases hopen : answers.openError ≠ 0
  · rw [if_pos hopen]
    exact stretch_fail _ hopen
  rw [if_neg hopen]
  by_cases hinit : answers.initError ≠ 0
  · rw [if_pos hinit]
    exact stretch_fail _ hinit
  rw [if_neg hinit]
  by_cases hprogress : answers.connectError = Errno.einprogress
  · rw [if_pos hprogress]
    exact stretch_pass rfl rfl
  rw [if_neg hprogress]
  by_cases hconnect : answers.connectError ≠ 0
  · rw [if_pos hconnect]
    exact stretch_fail _ hconnect
  · rw [if_neg hconnect]
    exact stretch_establish rfl

theorem stretch_resume {notified interrupted : Bool} (hflag : d.isConnecting = true)
    (hsocket : d.eventDialSocket = some ⟨call, protocal⟩) :
    Stretch call protocal (d.resume protocal notified interrupted answers error) := by
  unfold TcpDialer.resume Operation.afterWait
  by_cases htimeout : d.connectTimeout > 0 ∧ notified = false
  · rw [if_pos htimeout]
    exact stretch_performed hsocket
  rw [if_neg htimeout]
  by_cases hinterrupted : interrupted = true
  · rw [if_pos hinterrupted]
    exact stretch_performed hsocket
  · rw [if_neg hinterrupted]
    exact stretch_pass hflag hsocket

/-! ## Runs without a losing call -/

variable {s t : Dialing}

theorem sound_initial (connectTimeout : Int) : Sound (initial connectTimeout) where
  exclusive _ _ _ _ _ _ h := nomatch h
  own _ _ _ h := nomatch h
  kept := rfl
  answered _ _ _ h := nomatch h
  running _ h := nomatch h

/-- The calls other than the one that runs do not wait. -/
theorem Sound.update (h : Sound s) {result : TcpDialer × ConnectCall}
    (hresult : Stretch call protocal result)
    (hothers : ∀ i protocal error, i ≠ call → s.calls i ≠ .waiting protocal error) :
    Sound (s.update call result) := by
  -- the only call that may wait afterwards is the one that has run
  have hwaits : ∀ i protocal' error, (s.update call result).calls i = .waiting protocal' error →
      i = call ∧ result.2 = .waiting protocal' error := by
    intro i protocal' error hi
    by_cases heq : i = call
    · exact ⟨heq, (if_pos heq).symm.trans hi⟩
    · exact absurd ((if_neg heq).symm.trans hi) (hothers i protocal' error heq)
  refine ⟨?_, ?_, h.kept, ?_, ?_⟩
  · intro i j _ _ _ _ hi hj
    rw [(hwaits i _ _ hi).1, (hwaits j _ _ hj).1]
  · intro i protocal' error hi
    have ⟨heq, hresult'⟩ := hwaits i _ _ hi
    cases hresult with
    | waits hflag hsocket =>
      cases hresult'
      exact ⟨hflag, heq ▸ hsocket⟩
    | returns => cases hresult'
  · intro i connected error hi
    by_cases heq : i = call
    · have hresult' : result.2 = .returned connected error := (if_pos heq).symm.trans hi
      cases hresult with
      | waits => cases hresult'
      | returns _ hanswer =>
        cases hresult'
        exact hanswer
    · exact h.answered i connected error ((if_neg heq).symm.trans hi)
  · intro i hi
    by_cases heq : i = call
    · have hresult' : result.2 = .crashed := (if_pos heq).symm.trans hi
      cases hresult <;> cases hresult'
    · exact h.running i ((if_neg heq).symm.trans hi)

/-- A call without an address does not touch the dialer. -/
theorem Sound.refuse (h : Sound s) (call : Nat) :
    Sound (s.update call (s.dialer, .returned false Error.invalidArgument)) := by
  have hcalls : ∀ i c, (s.update call (s.dialer, .returned false Error.invalidArgument)).calls i = c →
      c ≠ .returned false Error.invalidArgument → s.calls i = c := by
    intro i c hi hne
    by_cases heq : i = call
    · exact absurd ((if_pos heq).symm.trans hi).symm hne
    · exact (if_neg heq).symm.trans hi
  refine ⟨?_, ?_, h.kept, ?_, ?_⟩
  · intro i j _ _ _ _ hi hj
    exact h.exclusive i j _ _ _ _ (hcalls i _ hi (by simp)) (hcalls j _ hj (by simp))
  · exact fun i protocal' error hi ↦ h.own i protocal' error (hcalls i _ hi (by simp))
  · intro i connected error hi
    by_cases heq : i = call
    · cases (if_pos heq).symm.trans hi
      exact Or.inr ⟨rfl, by decide⟩
    · exact h.answered i connected error ((if_neg heq).symm.trans hi)
  · exact fun i hi ↦ h.running i (hcalls i _ hi (by simp))

theorem Sound.step {a : DialAction} (h : Sound s) (hwins : s.Wins a) (hstep : s.step a = some t) :
    Sound t := by
  cases a with
  | connect call protocal address answers =>
    simp only [Dialing.step] at hstep
    split at hstep
    · cases hstep
      cases address with
      | false =>
        have hsound := h.refuse call
        exact ⟨hsound.exclusive, hsound.own, by simp [h.kept], hsound.answered, hsound.running⟩
      | true =>
        have hflag := hwins rfl
        have hstretch : Stretch call protocal (s.dialer.connect call protocal true answers) :=
          stretch_connect hflag
        -- a waiting call would have the flag set
        have hsound := h.update hstretch fun i _ _ _ hi ↦ by
          have := (h.own i _ _ hi).1
          rw [hflag] at this
          exact absurd this (by decide)
        exact ⟨hsound.exclusive, hsound.own, by simp [h.kept, hflag], hsound.answered,
          hsound.running⟩
    · exact absurd hstep (by simp)
  | resume call notified interrupted answers =>
    simp only [Dialing.step] at hstep
    split at hstep
    · rename_i protocal error hwaiting
      cases hstep
      have ⟨hflag, hsocket⟩ := h.own call protocal error hwaiting
      apply h.update (stretch_resume hflag hsocket)
      exact fun i _ _ hne hi ↦ hne (h.exclusive i call _ _ _ _ hi hwaiting)
    all_goals exact absurd hstep (by simp)

/-! ## The answer of a losing call -/

/-- No call has returned an empty pointer without an error. -/
def NoneEmpty (s : Dialing) : Prop := ∀ i, s.calls i ≠ .returned false 0

theorem Sound.noneEmpty (h : Sound s) : NoneEmpty s := by
  intro i hi
  cases h.answered i false 0 hi with
  | inl hconnected => exact absurd hconnected.1 (by decide)
  | inr herror => exact absurd rfl herror.2

theorem establish_ne_empty : (d.establish protocal answers).2 ≠ .returned false 0 := by
  unfold establish finish
  split
  · simp
  · split
    · simp_all
    · split
      · simp
      · split <;> simp_all

theorem performed_ne_empty : (d.performed protocal answers error).2 ≠ .returned false 0 := by
  unfold performed
  by_cases herror : error ≠ 0
  · rw [if_pos herror]
    simp [finish, herror]
  · rw [if_neg herror]
    exact establish_ne_empty

theorem pass_ne_empty : (d.pass protocal answers error).2 ≠ .returned false 0 := by
  unfold pass
  split
  · simp
  · simp
  · exact performed_ne_empty
  · exact performed_ne_empty

theorem resume_ne_empty {notified interrupted : Bool} :
    (d.resume protocal notified interrupted answers error).2 ≠ .returned false 0 := by
  unfold TcpDialer.resume
  split
  · exact performed_ne_empty
  · exact pass_ne_empty

/-- Exactly a call that loses the compare-exchange returns an empty pointer without an error. -/
theorem connect_empty_iff {address : Bool} :
    (d.connect call protocal address answers).2 = .returned false 0 ↔
      address = true ∧ d.isConnecting = true := by
  unfold TcpDialer.connect
  by_cases haddress : address = false
  · rw [if_pos haddress]
    simp [haddress, Error.invalidArgument]
  rw [if_neg haddress]
  by_cases hflag : d.isConnecting = true
  · rw [if_pos hflag]
    exact ⟨fun _ ↦ ⟨eq_true_of_ne_false haddress, hflag⟩, fun _ ↦ rfl⟩
  rw [if_neg hflag]
  -- a call that wins returns an error or a connection
  refine ⟨fun hempty ↦ ?_, fun h ↦ absurd h.2 hflag⟩
  dsimp only at hempty
  split at hempty
  · simp_all [finish]
  · split at hempty
    · simp_all [finish]
    · split at hempty
      · exact absurd hempty pass_ne_empty
      · split at hempty
        · simp_all [finish]
        · exact absurd hempty establish_ne_empty

theorem noneEmpty_update {result : TcpDialer × ConnectCall}
    (hcall : s.calls call ≠ .returned false 0) :
    NoneEmpty (s.update call result) ↔ NoneEmpty s ∧ result.2 ≠ .returned false 0 := by
  constructor
  · intro h
    refine ⟨fun i hi ↦ ?_, fun hresult ↦ h call ((if_pos rfl).trans hresult)⟩
    by_cases heq : i = call
    · exact hcall (heq ▸ hi)
    · exact h i ((if_neg heq).trans hi)
  · rintro ⟨h, hresult⟩ i hi
    by_cases heq : i = call
    · exact hresult ((if_pos heq).symm.trans hi)
    · exact h i ((if_neg heq).symm.trans hi)

theorem noneEmpty_step {a : DialAction} (hstep : s.step a = some t) :
    NoneEmpty t ↔ NoneEmpty s ∧ s.Wins a := by
  cases a with
  | connect call protocal address answers =>
    simp only [Dialing.step] at hstep
    split at hstep
    · rename_i hfresh
      cases hstep
      have hwins : s.Wins (.connect call protocal address answers) ↔
          (s.dialer.connect call protocal address answers).2 ≠ .returned false 0 := by
        rw [Ne, connect_empty_iff, Wins, not_and, Bool.not_eq_true]
      rw [hwins]
      exact noneEmpty_update (by rw [hfresh]; simp)
    · exact absurd hstep (by simp)
  | resume call notified interrupted answers =>
    simp only [Dialing.step] at hstep
    split at hstep
    · rename_i protocal error hwaiting
      cases hstep
      rw [noneEmpty_update (by rw [hwaiting]; simp)]
      exact and_congr_right fun _ ↦ iff_of_true resume_ne_empty trivial
    all_goals exact absurd hstep (by simp)

/-- The guard works in a run, if and only if no call of the run loses the compare-exchange. -/
theorem sound_iff_wins {connectTimeout : Int} {as : List DialAction}
    (hrun : run Dialing.step (initial connectTimeout) as = some t) :
    Sound t ↔ Meets Dialing.step Wins (initial connectTimeout) as := by
  constructor
  · intro hsound
    have hgood := good_iff_meets (fun _ ↦ True) NoneEmpty
      (fun _ _ _ _ hstep ↦ ⟨trivial, noneEmpty_step hstep⟩) trivial hrun
    exact (hgood.mp hsound.noneEmpty).2
  · intro hwins
    exact invariant_of_meets Sound (fun _ _ _ h hok hstep ↦ h.step hok hstep)
      (sound_initial connectTimeout) hwins hrun

/-- The connection is still being made, and all else goes well. -/
def inProgress : ConnectAnswers := ⟨0, 0, Errno.einprogress, .status Errno.einprogress, 0, 0⟩

def oneConnect : List DialAction :=
  [.connect 0 .tcpIpv4 true inProgress,
    .resume 0 true false { inProgress with connectStatus := .status 0 },
    .connect 1 .tcpIpv6 true inProgress]

theorem sound_iff_wins_oneConnect :
    ∃ t, run Dialing.step (initial 100) oneConnect = some t ∧ Sound t :=
  ⟨_, rfl, (sound_iff_wins rfl).mpr
    (show Meets Dialing.step Wins (initial 100) oneConnect by decide)⟩

/-- A second call comes while the first one waits. -/
theorem not_sound_twoConnects :
    ∃ t, run Dialing.step (initial (-1))
        [.connect 0 .tcpIpv4 true inProgress, .connect 1 .tcpIpv4 true inProgress] = some t ∧
      t.calls 0 = .waiting .tcpIpv4 Errno.einprogress ∧ t.calls 1 = .returned false 0 ∧
      t.dialer.isConnecting = false ∧ t.dialer.eventDialSocket = none ∧ ¬ Sound t := by
  refine ⟨_, rfl, rfl, rfl, rfl, rfl, fun hsound ↦ ?_⟩
  exact hsound.noneEmpty 1 rfl

end Dialing

end TcpDialer

end Ustevent.Net
