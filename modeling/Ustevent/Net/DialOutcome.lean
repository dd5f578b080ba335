import Ustevent.Net.TcpDialer

/-!
# What a dialer tells of a connection attempt

The attempt that `TcpDialer::connect` begins ends at any moment: before `perform` polls `SO_ERROR`,
later while the call goes on, or after it has returned.  The system answers the poll with the error
of an attempt that has failed, and with 0 both where the attempt has succeeded and where it goes on.
-/

namespace Ustevent.Net

/-- How an attempt ends.  The system refuses none with 0 or `EINPROGRESS`. -/
inductive DialOutcome
  | established
  | refused (errno : Int) (hne : errno ≠ 0 ∧ errno ≠ Errno.einprogress)
deriving DecidableEq

/-- When the attempt ends that a call of `connect` has begun. -/
inductive DialEnding
  | beforePoll (outcome : DialOutcome)
  | beforeReturn (outcome : DialOutcome)
  | later
deriving DecidableEq

namespace DialEnding

def atPoll : DialEnding → Option DialOutcome
  | .beforePoll outcome => some outcome
  | .beforeReturn _ | .later => none

def atReturn : DialEnding → Option DialOutcome
  | .beforePoll outcome | .beforeReturn outcome => some outcome
  | .later => none

end DialEnding

/-- What `getsockopt(SO_ERROR)` answers. -/
def soError : Option DialOutcome → Int
  | some (.refused errno _) => errno
  | some .established | none => 0

namespace TcpDialer

/-- The call of `connect` whose attempt ends so; the other answers of the system are given. -/
def connectUnder (d : TcpDialer) (call : Nat) (protocal : Protocal) (answers : ConnectAnswers)
    (ending : DialEnding) : TcpDialer × ConnectCall :=
  d.connect call protocal true { answers with connectStatus := .status (soError ending.atPoll) }

/-- What has become of the attempt when the call returns: `none` if it goes on, or if there has been
none. -/
def attemptAtReturn (d : TcpDialer) (answers : ConnectAnswers) (ending : DialEnding) : Option DialOutcome :=
  if d.isConnecting ∨ answers.openError ≠ 0 ∨ answers.initError ≠ 0 then none
  else if hprogress : answers.connectError = Errno.einprogress then ending.atReturn
  else if hne : answers.connectError = 0 then some .established
  else some (.refused answers.connectError ⟨hne, hprogress⟩)

/-- The call tells the truth about the attempt. -/
structure Truthful (attempt : Option DialOutcome) (call : ConnectCall) : Prop where
  returned : ∃ connected error, call = .returned connected error
  established : ∀ connected, call = .returned connected 0 → attempt = some .established
  refused : ∀ errno hne connected error, attempt = some (.refused errno hne) →
    call = .returned connected error → error = errno

/-- The error of the calls that follow on a poll that has found no error. -/
def laterError (answers : ConnectAnswers) : Int :=
  if answers.addressError ≠ 0 then answers.addressError else answers.connectionInitError

/-- An attempt that goes on at the poll comes right nevertheless: it is established before the call
returns, or the call fails for another reason, without a refusal or with the error of the
refusal. -/
def ComesRight (answers : ConnectAnswers) : DialEnding → Prop
  | .beforePoll _ | .beforeReturn .established => True
  | .beforeReturn (.refused errno _) => laterError answers = errno
  | .later => laterError answers ≠ 0

/-! ## The stretches of the call -/

variable {d : TcpDialer} {call : Nat} {protocal : Protocal} {answers : ConnectAnswers}
  {ending : DialEnding} {attempt : Option DialOutcome} {connected : Bool} {error : Int}

theorem truthful_returned_iff : Truthful attempt (.returned connected error) ↔
    (error = 0 → attempt = some .established) ∧
      ∀ errno hne, attempt = some (.refused errno hne) → error = errno := by
  constructor
  · intro h
    refine ⟨?_, fun errno hne hattempt ↦ h.refused errno hne connected error hattempt rfl⟩
    rintro rfl
    exact h.established connected rfl
  · rintro ⟨hestablished, hrefused⟩
    refine ⟨⟨connected, error, rfl⟩, ?_, ?_⟩
    · rintro _ heq
      cases heq
      exact hestablished rfl
    · rintro errno hne _ _ hattempt heq
      cases heq
      exact hrefused errno hne hattempt

/-- From the release of the socket on the call returns the error of the later calls. -/
theorem establish_call (hsocket : d.eventDialSocket = some ⟨call, protocal⟩) :
    ∃ connected, (d.establish protocal answers).2 = .returned connected (laterError answers) := by
  unfold establish laterError
  rw [hsocket]
  dsimp only
  by_cases haddress : answers.addressError ≠ 0
  · rw [if_pos haddress, if_pos haddress]
    exact ⟨_, rfl⟩
  rw [if_neg haddress, if_neg haddress, if_neg (fun h ↦ h.2 h.1)]
  by_cases hinit : answers.connectionInitError ≠ 0
  · rw [if_pos hinit]
    exact ⟨_, rfl⟩
  · rw [if_neg hinit, not_not.mp hinit]
    exact ⟨_, rfl⟩

/-- The poll never finds the attempt in progress, so that the call does not wait. -/
theorem pass_call (hsocket : d.eventDialSocket = some ⟨call, protocal⟩)
    (hstatus : answers.connectStatus = .status (soError attempt)) :
    ∃ connected, (d.pass protocal answers error).2 = .returned connected
      (if soError attempt ≠ 0 then soError attempt else laterError answers) := by
  have hdone : soError attempt ≠ Errno.einprogress := by
    cases attempt with
    | none => decide
    | some outcome =>
      cases outcome with
      | established => decide
      | refused errno hne => exact hne.2
  unfold pass Operation.attempt
  rw [if_pos rfl]
  dsimp only [connectOperation]
  rw [hsocket, hstatus]
  simp only [nonBlockingConnect, ne_eq, hdone, not_false_eq_true, decide_true]
  unfold Flow.of performed
  by_cases herror : soError attempt = 0
  · simp only [herror, ne_eq, not_true_eq_false, if_false]
    exact establish_call hsocket
  · simp only [ne_eq, herror, not_false_eq_true, if_true]
    exact ⟨_, rfl⟩

/-- The error with which a call that wins the compare-exchange returns. -/
def connectError (answers : ConnectAnswers) (ending : DialEnding) : Int :=
  if answers.openError ≠ 0 then answers.openError
  else if answers.initError ≠ 0 then answers.initError
  else if answers.connectError = Errno.einprogress then
    if soError ending.atPoll ≠ 0 then soError ending.atPoll else laterError answers
  else if answers.connectError ≠ 0 then answers.connectError
  else laterError answers

theorem connectUnder_call (hflag : d.isConnecting = false) :
    ∃ connected, (d.connectUnder call protocal answers ending).2 =
      .returned connected (connectError answers ending) := by
  unfold connectUnder TcpDialer.connect connectError
  rw [if_neg (by decide), if_neg (by rw [hflag]; decide)]
  dsimp only
  by_cases hopen : answers.openError ≠ 0
  · rw [if_pos hopen, if_pos hopen]
    exact ⟨_, rfl⟩
  rw [if_neg hopen, if_neg hopen]
  by_cases hinit : answers.initError ≠ 0
  · rw [if_pos hinit, if_pos hinit]
    exact ⟨_, rfl⟩
  rw [if_neg hinit, if_neg hinit]
  by_cases hprogress : answers.connectError = Errno.einprogress
  · rw [if_pos hprogress, if_pos hprogress]
    exact pass_call rfl rfl
  rw [if_neg hprogress, if_neg hprogress]
  by_cases hconnect : answers.connectError ≠ 0
  · rw [if_pos hconnect, if_pos hconnect]
    exact ⟨_, rfl⟩
  · rw [if_neg hconnect, if_neg hconnect]
    exact establish_call rfl

/-! ## The call -/

/-- An attempt that goes on when the system call returns. -/
theorem truthful_progress_iff : Truthful ending.atReturn (.returned connected
      (if soError ending.atPoll ≠ 0 then soError ending.atPoll else laterError answers)) ↔
    ComesRight answers ending := by
  rw [truthful_returned_iff]
  cases ending with
  | beforePoll outcome =>
    cases outcome with
    | established => simp [ComesRight, DialEnding.atReturn]
    | refused errno hne =>
      have herror := hne.1
      simp [ComesRight, DialEnding.atReturn, DialEnding.atPoll, soError, herror]
  | beforeReturn outcome =>
    cases outcome with
    | established => simp [ComesRight, DialEnding.atReturn]
    | refused errno hne =>
      simp only [ComesRight, DialEnding.atReturn, DialEnding.atPoll, soError, ne_eq,
        not_true_eq_false, if_false, Option.some.injEq, reduceCtorEq, imp_false]
      constructor
      · exact fun h ↦ h.2 errno hne rfl
      · intro herror
        refine ⟨fun hzero ↦ hne.1 (herror.symm.trans hzero), fun errno' _ heq ↦ ?_⟩
        cases heq
        exact herror
  | later => simp [ComesRight, DialEnding.atReturn, DialEnding.atPoll, soError]

/-- `connect` tells the truth about its attempt, if and only if no other call is in progress and the
attempt, if the system has not decided it at once, has ended when it is polled or comes right
nevertheless. -/
theorem truthful_iff_comesRight (d : TcpDialer) (call : Nat) (protocal : Protocal)
    (answers : ConnectAnswers) (ending : DialEnding) :
    Truthful (d.attemptAtReturn answers ending) (d.connectUnder call protocal answers ending).2 ↔
      d.isConnecting = false ∧ (answers.openError = 0 → answers.initError = 0 →
        answers.connectError = Errno.einprogress → ComesRight answers ending) := by
  unfold attemptAtReturn
  cases hflag : d.isConnecting with
  | true =>
    -- the losing call has no attempt and returns no error
    have hcall : (d.connectUnder call protocal answers ending).2 = .returned false 0 := by
      unfold connectUnder TcpDialer.connect
      rw [if_neg (by decide), if_pos hflag]
      rfl
    rw [hcall, truthful_returned_iff]
    simp
  | false =>
    have hreturned : ∃ connected, (d.connectUnder call protocal answers ending).2 =
        .returned connected (connectError answers ending) := connectUnder_call hflag
    obtain ⟨connected, hcall⟩ := hreturned
    rw [hcall]
    unfold connectError
    simp only [Bool.false_eq_true, false_or, true_and]
    -- there is no attempt unless the socket has been opened and registered
    by_cases hopen : answers.openError = 0
    case neg => simp [hopen, truthful_returned_iff]
    by_cases hinit : answers.initError = 0
    case neg => simp [hopen, hinit, truthful_returned_iff]
    by_cases hprogress : answers.connectError = Errno.einprogress
    · simp only [hopen, hinit, hprogress, ne_eq, not_true_eq_false, or_self, if_false, if_true,
        dif_pos, forall_const]
      exact truthful_progress_iff
    -- the system has decided the attempt at once
    by_cases hconnect : answers.connectError = 0
    · simp [hopen, hinit, hconnect, truthful_returned_iff, Errno.einprogress]
    · simp [hopen, hinit, hprogress, hconnect, truthful_returned_iff]

/-- The connection is being made, and all else goes well. -/
def goesWell : ConnectAnswers := ⟨0, 0, Errno.einprogress, .status 0, 0, 0⟩

/-- The call returns no error, with the attempt going on. -/
theorem not_truthful_goesWell : ¬ Truthful
    (attemptAtReturn ⟨false, none, 0⟩ goesWell .later)
    (connectUnder ⟨false, none, 0⟩ 0 .tcpIpv4 goesWell .later).2 := by
  intro h
  exact absurd (h.established true rfl) (by decide)

end TcpDialer

end Ustevent.Net
