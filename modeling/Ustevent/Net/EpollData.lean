import Ustevent.Net.Events

/-!
# What `select` takes for the signal

The data that a descriptor is registered with is a union: the signal descriptor is registered with
its number, all others with the address of their notifier.  `select` gets the data back and looks at
its 32 low bits to tell the two apart.
-/

namespace Ustevent.Net.EpollSelector

/-- `epoll_data`, of which the member `ptr` covers all bits and `fd` the low ones. -/
abbrev EpollData := BitVec 64

namespace EpollData

def fd (data : EpollData) : BitVec 32 := data.setWidth 32

/-- `data.fd = fd`, which leaves the other half of the union as it is. -/
def setFd (data : EpollData) (fd : BitVec 32) : EpollData := data.extractLsb' 32 32 ++ fd

end EpollData

structure EpollEvent where
  events : Events
  data : EpollData
deriving DecidableEq

/-- The address of an `EventNotifier`. -/
structure Notifier where
  address : BitVec 64
  aligned : address.toNat % 8 = 0
  nonnull : address ≠ 0
deriving DecidableEq

/-- A registration of `_initSignalFd`, whose event is not initialised before the number is stored,
or of `registerObject`. -/
inductive Registration
  | signal (uninitialised : EpollData)
  | object (notifier : Notifier)
deriving DecidableEq

def Registration.data (signalFd : BitVec 32) : Registration → EpollData
  | .signal uninitialised => uninitialised.setFd signalFd
  | .object notifier => notifier.address

/-- What a turn of the loop of `select` does. -/
inductive Turn
  | readSignal
  /-- the semaphore that is notified, if the event has one of the bits -/
  | notify (notifier : BitVec 64) (event : Option EventType)
  | skip
deriving DecidableEq

def turn (signalFd : BitVec 32) (event : EpollEvent) : Turn :=
  if event.data.fd = signalFd then .readSignal
  else if event.data ≠ 0 then .notify event.data event.events.dispatch
  else .skip

/-- The loop over the events that `epoll_wait` has returned. -/
def select (signalFd : BitVec 32) : List EpollEvent → List Turn
  | [] => []
  | event :: events => turn signalFd event :: select signalFd events

/-- An event that `epoll_wait` reports for a registration. -/
structure Report where
  registration : Registration
  events : Events
deriving DecidableEq

def Report.event (signalFd : BitVec 32) (report : Report) : EpollEvent :=
  ⟨report.events, report.registration.data signalFd⟩

/-- The turn that the report is meant for. -/
def Report.turn (report : Report) : Turn :=
  match report.registration with
  | .signal _ => .readSignal
  | .object notifier => .notify notifier.address report.events.dispatch

variable {signalFd : BitVec 32}

theorem fd_setFd (data : EpollData) (fd : BitVec 32) : (data.setFd fd).fd = fd :=
  BitVec.setWidth_append_eq_right

theorem select_eq_map (events : List EpollEvent) :
    select signalFd events = events.map (turn signalFd) := by
  induction events with
  | nil => rfl
  | cons event events ih => rw [select, ih, List.map_cons]

theorem turn_event_iff (report : Report) :
    turn signalFd (report.event signalFd) = report.turn ↔
      ∀ notifier, report.registration = .object notifier →
        EpollData.fd notifier.address ≠ signalFd := by
  obtain ⟨registration, events⟩ := report
  cases registration with
  | signal uninitialised =>
    refine iff_of_true ?_ (fun notifier h ↦ nomatch h)
    rw [turn]
    exact if_pos (fd_setFd uninitialised signalFd)
  | object notifier =>
    simp only [Registration.object.injEq, forall_eq']
    have hdata : (Report.event signalFd ⟨.object notifier, events⟩).data = notifier.address := rfl
    by_cases hfd : EpollData.fd notifier.address = signalFd
    · refine iff_of_false ?_ (fun hne ↦ hne hfd)
      rw [turn, hdata, if_pos hfd]
      exact fun h ↦ nomatch h
    · refine iff_of_true ?_ hfd
      rw [turn, hdata, if_neg hfd, if_pos notifier.nonnull]
      rfl

/-- Every event of a batch is taken for what it has been registered as, if and only if the low bits
of no notifier's address are the number of the signal descriptor. -/
theorem select_eq_iff (signalFd : BitVec 32) (reports : List Report) :
    select signalFd (reports.map (Report.event signalFd)) = reports.map Report.turn ↔
      ∀ report ∈ reports, ∀ notifier, report.registration = .object notifier →
        EpollData.fd notifier.address ≠ signalFd := by
  rw [select_eq_map, List.map_map, List.map_inj_left]
  simp only [Function.comp_apply, turn_event_iff]

/-- Notifiers are aligned, so that most numbers are not the low bits of any of them. -/
theorem select_eq_of_unaligned (h : signalFd.toNat % 8 ≠ 0) (reports : List Report) :
    select signalFd (reports.map (Report.event signalFd)) = reports.map Report.turn := by
  rw [select_eq_iff]
  rintro report - notifier - hfd
  have haligned := notifier.aligned
  rw [← hfd, EpollData.fd, BitVec.toNat_setWidth] at h
  omega

/-- The signal descriptor is number 8, and a notifier lies 8 bytes behind a multiple of 2^32. -/
def lowBits : List Report :=
  [⟨.object ⟨0x7f4500000008, by decide, by decide⟩, ⟨true, false, false, false⟩⟩]

/-- The event of the notifier is swallowed. -/
theorem select_ne_lowBits :
    select 8 (lowBits.map (Report.event 8)) = [.readSignal] ∧
      select 8 (lowBits.map (Report.event 8)) ≠ lowBits.map Report.turn := by
  decide

end Ustevent.Net.EpollSelector
