import Ustevent.Net.SocketOwners

/-!
# Event objects and the descriptors of the system

An `EventObject` registers the descriptor of its socket with the selector, by a notifier whose
address epoll keeps.  Any number of event objects are made, registered, closed, released, moved and
destroyed by any number of threads, one system call at a time.  The system gives out the numbers of
closed descriptors again, and the threads that select notify what `epoll_wait` has reported to them.
-/

namespace Ustevent.Net

open Reasoning

namespace Errno

def ebadf : Nat := 9

end Errno

/-! ## The system -/

/-- An entry of the interest list, with its `data.ptr`. -/
structure Interest where
  fd : Int
  file : Nat
  notifier : Nat
deriving DecidableEq

/-- The open file that each descriptor stands for, and the interest list of the selector. -/
structure Kernel where
  files : Int → Option Nat
  nextFile : Nat
  interests : List Interest

namespace Kernel

def initial : Kernel := ⟨fun _ ↦ none, 0, []⟩

/-- `::socket` or `::accept4`. -/
def open_ (k : Kernel) (fd : Int) : Kernel :=
  { k with
    files := fun n ↦ if n = fd then some k.nextFile else k.files n
    nextFile := k.nextFile + 1 }

/-- `::close`.  No other descriptor stands for the file, so that it leaves the interest list. -/
def close (k : Kernel) (fd : Int) : Kernel :=
  { k with
    files := fun n ↦ if n = fd then none else k.files n
    interests := k.interests.filter fun e ↦ k.files fd ≠ some e.file }

/-- An entry is found by the number and the file that the number stands for now. -/
def epollCtlDel (k : Kernel) (fd : Int) : Kernel :=
  { k with interests := k.interests.filter fun e ↦ ¬ (e.fd = fd ∧ k.files fd = some e.file) }

/-- `refused` is an error of `EPOLL_CTL_ADD` other than `EBADF` and `EEXIST`. -/
def epollCtlAdd (k : Kernel) (fd : Int) (notifier : Nat) (refused : Bool) : Option Kernel :=
  match k.files fd with
  | none => none
  | some file =>
    if refused ∨ ∃ e ∈ k.interests, e.fd = fd ∧ e.file = file then none
    else some { k with interests := k.interests ++ [⟨fd, file, notifier⟩] }

/-- The calls that a socket makes to close its descriptor. -/
def perform (k : Kernel) : SystemCall → Kernel
  | .close fd => k.close fd
  | .epollCtlDel fd => k.epollCtlDel fd
  | .epollCtlAdd _ | .recvmsg _ | .sendmsg _ | .shutdown _ _ => k

/-- Files have been closed, and entries have been removed. -/
structure Within (k k' : Kernel) : Prop where
  nextFile : k.nextFile = k'.nextFile
  files : ∀ n file, k.files n = some file → k'.files n = some file
  interests : ∀ e ∈ k.interests, e ∈ k'.interests ∧
    (k'.files e.fd = some e.file → k.files e.fd = some e.file)

variable {k k' k'' : Kernel} {fd : Int} {e : Interest}

theorem Within.rfl : k.Within k := ⟨Eq.refl _, fun _ _ h ↦ h, fun _ he ↦ ⟨he, id⟩⟩

theorem mem_interests_close :
    e ∈ (k.close fd).interests ↔ e ∈ k.interests ∧ k.files fd ≠ some e.file := by
  simp [close]

theorem mem_interests_epollCtlDel : e ∈ (k.epollCtlDel fd).interests ↔
    e ∈ k.interests ∧ ¬ (e.fd = fd ∧ k.files fd = some e.file) := by
  simp only [epollCtlDel, List.mem_filter, decide_eq_true_eq]

theorem within_close (k : Kernel) (fd : Int) : (k.close fd).Within k where
  nextFile := Eq.refl _
  files n file h := by
    simp only [close] at h
    split at h
    · contradiction
    · exact h
  interests e he := by
    obtain ⟨he, hne⟩ := mem_interests_close.mp he
    refine ⟨he, fun hfile ↦ ?_⟩
    -- an entry of the closed number would be one of its file
    have hfd : e.fd ≠ fd := fun hfd ↦ hne (hfd ▸ hfile)
    exact (if_neg hfd).trans hfile

theorem within_epollCtlDel (k : Kernel) (fd : Int) : (k.epollCtlDel fd).Within k where
  nextFile := Eq.refl _
  files _ _ h := h
  interests _ he := ⟨(mem_interests_epollCtlDel.mp he).1, id⟩

/-- A close or the destruction of a socket closes its number, if it has one. -/
theorem perform_close (k : Kernel) (socket : TcpSocket) (error : Nat) :
    (socket.close error).2.foldl perform k =
      if socket.socketFd = invalidFd then k else k.close socket.socketFd := by
  unfold TcpSocket.close
  by_cases hfd : socket.socketFd = invalidFd
  · rw [if_neg (not_not.mpr hfd), if_pos hfd]
    exact Eq.refl _
  · rw [if_pos hfd, if_neg hfd]
    exact Eq.refl _

end Kernel

/-! ## The event objects -/

inductive ObjectPhase
  | lives
  /-- in `deregisterObject` before `EPOLL_CTL_DEL`, called by the destructor or by `release` -/
  | deregisters (destroyed : Bool)
  /-- in `deregisterObject` before `_freeNotifier` -/
  | frees (destroyed : Bool)
  /-- at the destructor of the resource -/
  | destroysResource
deriving DecidableEq

/-- Epoll may have the notifier of the event object. -/
def ObjectPhase.Registered : ObjectPhase → Bool
  | .lives | .deregisters _ => true
  | .frees _ | .destroysResource => false

/-- `registered` and `closed` are history: the file that `init` has registered, and whether the
resource has been closed since. -/
structure EventObject where
  eventNotifier : Option Nat
  resource : TcpSocket
  phase : ObjectPhase
  registered : Option Nat
  closed : Bool
deriving DecidableEq

namespace EventObject

/-- The constructor. -/
def create (openedDevice : TcpSocket) : EventObject := ⟨none, openedDevice, .lives, none, false⟩

/-- The event object is registered, and waits for the events of its socket. -/
def Serves (object : EventObject) (p : Nat) : Prop :=
  object.eventNotifier = some p ∧ object.phase = .lives ∧ object.closed = false

/-- `notifiers` are those that are allocated, each with its `_descriptor`.  `reports` are those that
`epoll_wait` has returned and `select` has not notified yet. -/
structure Registering where
  kernel : Kernel
  notifiers : Nat → Option Int
  objects : Nat → Option EventObject
  reports : List Interest

inductive Action
  | construct (i : Nat) (fd : Int)
  /-- `p` is the notifier that the pool allocates -/
  | init (i p : Nat) (refused : Bool)
  /-- `get().close()` -/
  | close (i error : Nat)
  | release (i : Nat)
  /-- what `release` has returned becomes the resource of a new event object -/
  | move (i j : Nat)
  | destroy (i error : Nat)
  | proceed (i error : Nat)
  /-- `epoll_wait` reports these descriptors to a thread -/
  | select (fds : List Int)
  | notify (k : Nat)
deriving DecidableEq

namespace Registering

def initial : Registering := ⟨Kernel.initial, fun _ ↦ none, fun _ ↦ none, []⟩

abbrev set (s : Registering) (i : Nat) (object : Option EventObject) : Registering :=
  { s with objects := fun j ↦ if j = i then object else s.objects j }

abbrev allocateNotifier (s : Registering) (p : Nat) (descriptor : Int) : Registering :=
  { s with notifiers := fun q ↦ if q = p then some descriptor else s.notifiers q }

abbrev freeNotifier (s : Registering) (p : Nat) : Registering :=
  { s with notifiers := fun q ↦ if q = p then none else s.notifiers q }

/-- The notifier that is returned, or `nullptr`. -/
def registerObject (s : Registering) (descriptor : Int) (p : Nat) (refused : Bool) :
    Registering × Option Nat :=
  let s := s.allocateNotifier p descriptor
  match s.kernel.epollCtlAdd descriptor p refused with
  | none => (s.freeNotifier p, none)
  | some kernel => ({ s with kernel }, some p)

/-- What a `::close` of the number answers, where `error` is its answer for an open descriptor. -/
def closeError (s : Registering) (fd : Int) (error : Nat) : Nat :=
  if s.kernel.files fd = none then Errno.ebadf else error

/-- The system calls of the resource are made, and leave this of it. -/
def performed (s : Registering) (i : Nat) (object : EventObject)
    (result : TcpSocket × List SystemCall) : Registering :=
  { s with kernel := result.2.foldl Kernel.perform s.kernel }.set i
    (some { object with resource := result.1, closed := true })

/-- `_resource.close()`. -/
def closeResource (s : Registering) (i : Nat) (object : EventObject) (error : Nat) : Registering :=
  s.performed i object (object.resource.close (s.closeError object.resource.socketFd error))

/-- The destructor of the resource, after which there is no event object. -/
def destroyResource (s : Registering) (i : Nat) (object : EventObject) (error : Nat) :
    Registering :=
  let error := s.closeError object.resource.socketFd error
  (s.performed i object (object.resource.destroy error)).set i none

/-- The next system call of a destructor or of `release`.  A notifier that is not allocated could
not be read or freed. -/
def proceed (s : Registering) (i : Nat) (object : EventObject) (error : Nat) : Option Registering :=
  match object.phase with
  | .lives => none
  | .deregisters destroyed =>
    match object.eventNotifier.bind s.notifiers with
    | none => none
    | some descriptor =>
      some ({ s with kernel := s.kernel.epollCtlDel descriptor }.set i
        (some { object with phase := .frees destroyed }))
  | .frees destroyed =>
    match object.eventNotifier with
    | none => none
    | some p =>
      if s.notifiers p = none then none
      else
        let phase := if destroyed then .destroysResource else .lives
        some ((s.freeNotifier p).set i (some { object with eventNotifier := none, phase }))
  | .destroysResource => some (s.destroyResource i object error)

/-- The pool allocates no notifier that is in use, and the system gives out no number that is. -/
def step (s : Registering) : Action → Option Registering
  | .construct i fd =>
    if s.objects i = none ∧ s.kernel.files fd = none ∧ 0 ≤ fd then
      some ({ s with kernel := s.kernel.open_ fd }.set i (some (create (TcpSocket.construct fd))))
    else none
  | .init i p refused =>
    match s.objects i with
    | none => none
    | some object =>
      if object.phase = .lives ∧ object.eventNotifier = none ∧ s.notifiers p = none then
        let registered := s.kernel.files object.resource.socketFd
        let (s, eventNotifier) := s.registerObject object.resource.socketFd p refused
        some (s.set i (some { object with eventNotifier, registered, closed := false }))
      else none
  | .close i error =>
    match s.objects i with
    | none => none
    | some object =>
      if object.phase = .lives then some (s.closeResource i object error) else none
  | .release i =>
    match s.objects i with
    | none => none
    | some object =>
      if object.phase = .lives then
        if object.eventNotifier = none then some s
        else some (s.set i (some { object with phase := .deregisters false }))
      else none
  | .move i j =>
    match s.objects i, s.objects j with
    | some object, none =>
      if object.phase = .lives ∧ object.eventNotifier = none then
        let (resource, another) := object.resource.moveConstruct
        some ((s.set i (some { object with resource := another })).set j (some (create resource)))
      else none
    | _, _ => none
  | .destroy i error =>
    match s.objects i with
    | none => none
    | some object =>
      if object.phase = .lives then
        if object.eventNotifier = none then
          some (s.set i (some { object with phase := .destroysResource }))
        else some (s.closeResource i { object with phase := .deregisters true } error)
      else none
  | .proceed i error =>
    match s.objects i with
    | none => none
    | some object => s.proceed i object error
  | .select fds =>
    some { s with reports := s.reports ++ s.kernel.interests.filter fun e ↦ fds.contains e.fd }
  | .notify k =>
    if k < s.reports.length then some { s with reports := s.reports.eraseIdx k } else none

/-! ## What holds in every run -/

def Owns (s : Registering) (i p : Nat) : Prop :=
  ∃ object, s.objects i = some object ∧ object.eventNotifier = some p

structure Sound (s : Registering) : Prop where
  /-- a notifier is allocated as long as an event object has it and no longer -/
  owned : ∀ p, s.notifiers p ≠ none ↔ ∃ i, s.Owns i p
  alone : ∀ i j p, s.Owns i p → s.Owns j p → i = j
  /-- what epoll reports of a file is the notifier of the event object that has registered it -/
  registered : ∀ e ∈ s.kernel.interests, s.kernel.files e.fd = some e.file ∧
    s.notifiers e.notifier = some e.fd ∧ ∃ i object, s.objects i = some object ∧
      object.eventNotifier = some e.notifier ∧ object.registered = some e.file
  /-- `deregisterObject` reads and frees no notifier that is not allocated -/
  proceeds : ∀ i object error, s.objects i = some object → object.phase ≠ .lives →
    (s.proceed i object error).isSome = true

/-- The events of the sockets get to their event objects. -/
structure Served (s : Registering) : Prop where
  /-- epoll has the notifier of each event object that has not closed its socket -/
  reported : ∀ i object p, s.objects i = some object → object.Serves p →
    ∃ e ∈ s.kernel.interests, e.notifier = p ∧ object.registered = some e.file
  /-- who is notified is the event object that has registered the file -/
  notified : ∀ e ∈ s.reports, ∃ i object, s.objects i = some object ∧
    object.eventNotifier = some e.notifier ∧ object.registered = some e.file

/-- A call with the number is one for the descriptor of another event object. -/
def Hits (s : Registering) (i : Nat) (fd : Int) : Prop :=
  ∃ j object p, j ≠ i ∧ s.objects j = some object ∧ object.Serves p ∧ s.notifiers p = some fd

/-- No number is closed or deregistered that has been given out again to another event object, and
no notifier is freed that a thread is about to notify. -/
def Careful (s : Registering) : Action → Prop
  | .close i _ => ∀ object, s.objects i = some object → object.resource.socketFd ≠ invalidFd →
      ¬ s.Hits i object.resource.socketFd
  | .destroy i _ => ∀ object, s.objects i = some object → object.eventNotifier ≠ none →
      object.resource.socketFd ≠ invalidFd → ¬ s.Hits i object.resource.socketFd
  | .proceed i _ => ∀ object, s.objects i = some object →
      match object.phase with
      | .lives => True
      | .deregisters _ => ∀ fd, object.eventNotifier.bind s.notifiers = some fd → ¬ s.Hits i fd
      | .frees _ => ∀ e ∈ s.reports, object.eventNotifier ≠ some e.notifier
      | .destroysResource => object.resource.socketFd ≠ invalidFd →
          ¬ s.Hits i object.resource.socketFd
  | .construct _ _ | .init _ _ _ | .release _ | .move _ _ | .select _ | .notify _ => True

/-! ## The invariant -/

structure Inv (s : Registering) : Prop where
  files_lt : ∀ n file, s.kernel.files n = some file → file < s.kernel.nextFile
  files_inj : ∀ n m file, s.kernel.files n = some file → s.kernel.files m = some file → n = m
  allocated : ∀ i object p, s.objects i = some object → object.eventNotifier = some p →
    s.notifiers p ≠ none
  owner : ∀ p, s.notifiers p ≠ none →
    ∃ i object, s.objects i = some object ∧ object.eventNotifier = some p
  alone : ∀ i j object object' p, s.objects i = some object → s.objects j = some object' →
    object.eventNotifier = some p → object'.eventNotifier = some p → i = j
  listed : ∀ e ∈ s.kernel.interests, s.kernel.files e.fd = some e.file ∧
    s.notifiers e.notifier = some e.fd ∧ ∃ i object, s.objects i = some object ∧
      object.eventNotifier = some e.notifier ∧ object.registered = some e.file ∧
      object.phase.Registered = true
  phases : ∀ i object, s.objects i = some object → object.phase ≠ .lives →
    (object.eventNotifier = none ↔ object.phase = .destroysResource)

variable {s t : Registering} {i j p : Nat} {object object' : EventObject} {kernel : Kernel}
  {socket : TcpSocket}

theorem inv_initial : Inv initial where
  files_lt _ _ h := absurd h.symm (Option.some_ne_none _)
  files_inj _ _ _ h := absurd h.symm (Option.some_ne_none _)
  allocated _ _ _ h := absurd h.symm (Option.some_ne_none _)
  owner _ h := absurd rfl h
  alone _ _ _ _ _ h := absurd h.symm (Option.some_ne_none _)
  listed _ h := absurd h List.not_mem_nil
  phases _ _ h := absurd h.symm (Option.some_ne_none _)

/-- An event object goes on, while files are closed and entries are removed. -/
theorem Inv.update (h : Inv s) (hi : s.objects i = some object)
    (hkernel : kernel.Within s.kernel)
    (hnotifier : object'.eventNotifier = object.eventNotifier)
    (hregistered : object'.registered = object.registered)
    (hphase : object'.phase ≠ .lives →
      (object'.eventNotifier = none ↔ object'.phase = .destroysResource))
    (hlisted : ∀ e ∈ kernel.interests, object.eventNotifier = some e.notifier →
      object'.phase.Registered = true) :
    Inv ({ s with kernel }.set i (some object')) := by
  obtain ⟨hlt, hinj, hallocated, howner, halone, hold, hphases⟩ := h
  obtain ⟨hnext, hfiles, hinterests⟩ := hkernel
  refine ⟨?_, ?_, ?_, ?_, ?_, ?_, ?_⟩
  all_goals grind

theorem performed_kernel (error : Nat) :
    (s.performed i object (object.resource.close error)).kernel =
      if object.resource.socketFd = invalidFd then s.kernel
      else s.kernel.close object.resource.socketFd := Kernel.perform_close _ _ _

theorem within_performed (error : Nat) :
    (s.performed i object (object.resource.close error)).kernel.Within s.kernel := by
  rw [performed_kernel]
  split
  · exact Kernel.Within.rfl
  · exact s.kernel.within_close _

/-- The resource is closed by an event object that epoll may know. -/
theorem Inv.performed (h : Inv s) (hi : s.objects i = some object) (object' : EventObject)
    (hnotifier : object'.eventNotifier = object.eventNotifier)
    (hregistered : object'.registered = object.registered)
    (hphase : object'.phase ≠ .lives →
      (object'.eventNotifier = none ↔ object'.phase = .destroysResource))
    (hlisted : object.eventNotifier ≠ none → object'.phase.Registered = true) (error : Nat) :
    Inv (s.performed i object' (object'.resource.close error)) :=
  h.update hi (within_performed (i := i) error) hnotifier hregistered hphase fun e _ he ↦
    hlisted (by rw [he]; exact Option.some_ne_none _)

theorem destroyResource_eq (error : Nat) :
    s.destroyResource i object error = (s.closeResource i object error).set i none := by
  simp only [destroyResource, closeResource, TcpConnection.destroy_eq]

theorem Inv.construct (h : Inv s) (hi : s.objects i = none) {fd : Int}
    (hfd : s.kernel.files fd = none) :
    Inv ({ s with kernel := s.kernel.open_ fd }.set i (some (create socket))) := by
  obtain ⟨hlt, hinj, hallocated, howner, halone, hlisted, hphases⟩ := h
  unfold Kernel.open_ create
  refine ⟨?_, ?_, ?_, ?_, ?_, ?_, ?_⟩
  all_goals grind

/-- `registerObject` fails. -/
theorem Inv.refused (h : Inv s) (hi : s.objects i = some object) (hlives : object.phase = .lives)
    (hnone : object.eventNotifier = none) (hp : s.notifiers p = none) {fd : Int}
    {registered : Option Nat} :
    Inv (((s.allocateNotifier p fd).freeNotifier p).set i
      (some { object with eventNotifier := none, registered, closed := false })) := by
  obtain ⟨hlt, hinj, hallocated, howner, halone, hlisted, hphases⟩ := h
  refine ⟨?_, ?_, ?_, ?_, ?_, ?_, ?_⟩
  all_goals grind

/-- It succeeds. -/
theorem Inv.accepted (h : Inv s) (hi : s.objects i = some object) (hlives : object.phase = .lives)
    (hnone : object.eventNotifier = none) (hp : s.notifiers p = none) {fd : Int} {refused : Bool}
    (hadd : s.kernel.epollCtlAdd fd p refused = some kernel) :
    Inv ({ s.allocateNotifier p fd with kernel }.set i (some { object with
      eventNotifier := some p, registered := s.kernel.files fd, closed := false })) := by
  unfold Kernel.epollCtlAdd at hadd
  split at hadd
  · contradiction
  · rename_i file hfile
    rw [Option.ite_none_left_eq_some, Option.some.injEq] at hadd
    obtain ⟨-, rfl⟩ := hadd
    obtain ⟨hlt, hinj, hallocated, howner, halone, hlisted, hphases⟩ := h
    refine ⟨?_, ?_, ?_, ?_, ?_, ?_, ?_⟩
    · grind
    · grind
    · grind
    · grind
    · grind
    · grind [ObjectPhase.Registered]
    · grind

/-- A notifier that epoll does not know any more. -/
theorem Inv.free (h : Inv s) (hi : s.objects i = some object) {destroyed : Bool}
    (hfrees : object.phase = .frees destroyed) (hp : object.eventNotifier = some p)
    {phase : ObjectPhase} (hphase : phase = .lives ∨ phase = .destroysResource) :
    Inv ((s.freeNotifier p).set i (some { object with eventNotifier := none, phase })) := by
  obtain ⟨hlt, hinj, hallocated, howner, halone, hlisted, hphases⟩ := h
  refine ⟨?_, ?_, ?_, ?_, ?_, ?_, ?_⟩
  · grind
  · grind
  · grind
  · grind
  · grind
  · grind [ObjectPhase.Registered]
  · grind

theorem Inv.move (h : Inv s) (hi : s.objects i = some object) (hj : s.objects j = none)
    (hnone : object.eventNotifier = none) {resource another : TcpSocket} :
    Inv ((s.set i (some { object with resource := another })).set j (some (create resource))) := by
  obtain ⟨hlt, hinj, hallocated, howner, halone, hlisted, hphases⟩ := h
  unfold create
  refine ⟨?_, ?_, ?_, ?_, ?_, ?_, ?_⟩
  all_goals grind

/-- An event object that has no notifier any more goes. -/
theorem Inv.remove (h : Inv s) (hi : s.objects i = some object)
    (hnone : object.eventNotifier = none) : Inv (s.set i none) := by
  obtain ⟨hlt, hinj, hallocated, howner, halone, hlisted, hphases⟩ := h
  refine ⟨?_, ?_, ?_, ?_, ?_, ?_, ?_⟩
  all_goals grind

theorem Inv.proceed (h : Inv s) (hi : s.objects i = some object) {error : Nat}
    (hstep : s.proceed i object error = some t) : Inv t := by
  cases hphase : object.phase with
  | lives =>
    simp only [Registering.proceed, hphase] at hstep
    contradiction
  | deregisters destroyed =>
    simp only [Registering.proceed, hphase] at hstep
    split at hstep
    · contradiction
    · rename_i descriptor hdescriptor
      cases hstep
      obtain ⟨p, hp, hdescriptor⟩ := Option.bind_eq_some_iff.mp hdescriptor
      refine h.update hi (s.kernel.within_epollCtlDel descriptor) rfl rfl ?_ ?_
      · have := h.phases i object hi
        grind
      · -- the number stands for the registered file still if there is an entry
        intro e he hnotifier
        obtain ⟨he, hne⟩ := Kernel.mem_interests_epollCtlDel.mp he
        obtain ⟨hfile, hfd, -⟩ := h.listed e he
        have hp' : e.notifier = p := Option.some.inj (hnotifier.symm.trans hp)
        have hfd' : e.fd = descriptor :=
          Option.some.inj (hfd.symm.trans (by rw [hp']; exact hdescriptor))
        exact absurd ⟨hfd', hfd' ▸ hfile⟩ hne
  | frees destroyed =>
    simp only [Registering.proceed, hphase] at hstep
    split at hstep
    · contradiction
    · rename_i p hp
      rw [Option.ite_none_left_eq_some] at hstep
      cases hstep.2
      refine h.free hi hphase hp ?_
      cases destroyed with
      | true => exact Or.inr rfl
      | false => exact Or.inl rfl
  | destroysResource =>
    simp only [Registering.proceed, hphase] at hstep
    cases hstep
    have hnone : object.eventNotifier = none :=
      (h.phases i object hi (by rw [hphase]; decide)).mpr hphase
    rw [destroyResource_eq]
    have hclosed := h.performed hi object rfl rfl (h.phases i object hi)
      (fun hne ↦ absurd hnone hne) (s.closeError object.resource.socketFd error)
    exact hclosed.remove (if_pos rfl) hnone

theorem Inv.step {action : Action} (h : Inv s) (hstep : s.step action = some t) : Inv t := by
  cases action with
  | construct i fd =>
    rw [Registering.step, Option.ite_none_right_eq_some] at hstep
    obtain ⟨⟨hi, hfd, -⟩, hstep⟩ := hstep
    cases hstep
    exact h.construct hi hfd
  | init i p refused =>
    rw [Registering.step] at hstep
    split at hstep
    · contradiction
    · rename_i object hi
      rw [Option.ite_none_right_eq_some] at hstep
      obtain ⟨⟨hlives, hnone, hp⟩, hstep⟩ := hstep
      unfold registerObject at hstep
      cases hadd : s.kernel.epollCtlAdd object.resource.socketFd p refused with
      | none =>
        simp only [hadd, Option.some.injEq] at hstep
        subst hstep
        exact h.refused hi hlives hnone hp
      | some kernel =>
        simp only [hadd, Option.some.injEq] at hstep
        subst hstep
        exact h.accepted hi hlives hnone hp hadd
  | close i error =>
    rw [Registering.step] at hstep
    split at hstep
    · contradiction
    · rename_i object hi
      rw [Option.ite_none_right_eq_some] at hstep
      cases hstep.2
      exact h.performed hi object rfl rfl (h.phases i object hi) (fun _ ↦ by rw [hstep.1]; rfl) _
  | release i =>
    rw [Registering.step] at hstep
    split at hstep
    · contradiction
    · rename_i object hi
      rw [Option.ite_none_right_eq_some] at hstep
      obtain ⟨hlives, hstep⟩ := hstep
      split at hstep
      · cases hstep
        exact h
      · rename_i hne
        cases hstep
        exact h.update hi Kernel.Within.rfl rfl rfl (fun _ ↦ by simp [hne]) (fun _ _ _ ↦ rfl)
  | move i j =>
    rw [Registering.step] at hstep
    split at hstep
    · rename_i object hi hj
      rw [Option.ite_none_right_eq_some] at hstep
      obtain ⟨⟨hlives, hnone⟩, hstep⟩ := hstep
      cases hstep
      exact h.move hi hj hnone
    · contradiction
  | destroy i error =>
    rw [Registering.step] at hstep
    split at hstep
    · contradiction
    · rename_i object hi
      rw [Option.ite_none_right_eq_some] at hstep
      obtain ⟨hlives, hstep⟩ := hstep
      split at hstep
      · rename_i hnone
        cases hstep
        refine h.update hi Kernel.Within.rfl rfl rfl (fun _ ↦ by simp [hnone]) fun e _ he ↦ ?_
        rw [hnone] at he
        contradiction
      · rename_i hne
        cases hstep
        refine h.performed hi { object with phase := .deregisters true } rfl rfl ?_ ?_ _
        · exact fun _ ↦ by simp [hne]
        · exact fun _ ↦ rfl
  | proceed i error =>
    rw [Registering.step] at hstep
    split at hstep
    · contradiction
    · rename_i object hi
      exact h.proceed hi hstep
  | select fds =>
    cases hstep
    exact ⟨h.files_lt, h.files_inj, h.allocated, h.owner, h.alone, h.listed, h.phases⟩
  | notify k =>
    rw [Registering.step, Option.ite_none_right_eq_some] at hstep
    cases hstep.2
    exact ⟨h.files_lt, h.files_inj, h.allocated, h.owner, h.alone, h.listed, h.phases⟩

theorem Inv.sound (h : Inv s) : Sound s where
  owned p := by
    constructor
    · exact h.owner p
    · rintro ⟨i, object, hi, hp⟩
      exact h.allocated i object p hi hp
  alone := by
    rintro i j p ⟨object, hi, hp⟩ ⟨object', hj, hp'⟩
    exact h.alone i j object object' p hi hj hp hp'
  registered e he := by
    obtain ⟨hfile, hfd, i, object, hi, hnotifier, hregistered, -⟩ := h.listed e he
    exact ⟨hfile, hfd, i, object, hi, hnotifier, hregistered⟩
  proceeds i object error hi hne := by
    have hnotifier : object.phase ≠ .destroysResource → ∃ p, object.eventNotifier = some p :=
      fun hphase ↦ Option.ne_none_iff_exists'.mp (mt (h.phases i object hi hne).mp hphase)
    have hallocated := h.allocated i object
    unfold Registering.proceed
    cases hphase : object.phase with
    | lives => exact absurd hphase hne
    | deregisters destroyed =>
      obtain ⟨p, hp⟩ := hnotifier (by simp [hphase])
      obtain ⟨descriptor, hdescriptor⟩ := Option.ne_none_iff_exists'.mp (hallocated p hi hp)
      simp [hp, hdescriptor]
    | frees destroyed =>
      obtain ⟨p, hp⟩ := hnotifier (by simp [hphase])
      simp [hp, hallocated p hi hp]
    | destroysResource => rfl

/-- In every run, whatever numbers are closed twice and whatever numbers are given out again. -/
theorem registered_of_run {actions : List Action} (hrun : run step initial actions = some s) :
    Sound s :=
  (invariant_of_run Inv (fun _ _ _ h hstep ↦ h.step hstep) inv_initial hrun).sound

/-- The number of a closed socket is given out to another event object before the first one is
destroyed, which closes the number again. -/
def closeTwice : List Action :=
  [.construct 0 3, .init 0 100 false, .close 0 0, .construct 1 3, .init 1 101 false, .destroy 0 0,
    .proceed 0 0, .proceed 0 0, .proceed 0 0]

theorem registered_of_run_closeTwice : ∃ s, run step initial closeTwice = some s ∧
    s.notifiers 100 = none ∧ s.notifiers 101 = some 3 ∧ s.kernel.interests = [] ∧ Sound s :=
  ⟨_, rfl, rfl, rfl, rfl, registered_of_run (rfl : run step initial closeTwice = some _)⟩

/-! ## Runs without stray calls -/

/-- An event object that does not serve any more keeps its notifier, while the entries of a number
leave the interest list. -/
theorem served_update_iff (h : Inv s) (hserved : Served s) (hi : s.objects i = some object)
    {fd : Int}
    (hkernel : ∀ e, e ∈ kernel.interests ↔ e ∈ s.kernel.interests ∧ e.fd ≠ fd)
    (hnotifier : object'.eventNotifier = object.eventNotifier)
    (hregistered : object'.registered = object.registered)
    (hserves : ∀ p, ¬ object'.Serves p) :
    Served ({ s with kernel }.set i (some object')) ↔ ¬ s.Hits i fd := by
  obtain ⟨hreported, hnotified⟩ := hserved
  constructor
  · rintro ⟨hafter, -⟩ ⟨j, object, p, hne, hj, hp, hfd⟩
    obtain ⟨e, he, rfl, -⟩ := hafter j object p ((if_neg hne).trans hj) hp
    obtain ⟨he, hfd'⟩ := (hkernel e).mp he
    exact hfd' (Option.some.inj ((h.listed e he).2.1.symm.trans hfd))
  · intro hhits
    refine ⟨fun j other p hj hp ↦ ?_, by grind⟩
    have hne : j ≠ i := by
      rintro rfl
      exact hserves p (Option.some.inj ((if_pos rfl).symm.trans hj) ▸ hp)
    have hj' : s.objects j = some other := (if_neg hne).symm.trans hj
    obtain ⟨e, he, rfl, hfile⟩ := hreported j other p hj' hp
    refine ⟨e, (hkernel e).mpr ⟨he, fun hfd ↦ hhits ?_⟩, rfl, hfile⟩
    exact ⟨j, other, e.notifier, hne, hj', hp, hfd ▸ (h.listed e he).2.1⟩

/-- Without a call for a number. -/
theorem Served.update (h : Served s) (hi : s.objects i = some object)
    (hnotifier : object'.eventNotifier = object.eventNotifier)
    (hregistered : object'.registered = object.registered)
    (hserves : ∀ p, ¬ object'.Serves p) : Served (s.set i (some object')) := by
  obtain ⟨hreported, hnotified⟩ := h
  constructor
  all_goals grind

theorem Inv.mem_close_iff (h : Inv s) {fd : Int} {e : Interest} :
    e ∈ (s.kernel.close fd).interests ↔ e ∈ s.kernel.interests ∧ e.fd ≠ fd := by
  rw [Kernel.mem_interests_close]
  refine and_congr_right fun he ↦ not_congr ?_
  have hfile := (h.listed e he).1
  exact ⟨fun hfd ↦ h.files_inj _ _ _ hfile hfd, fun hfd ↦ hfd ▸ hfile⟩

theorem Inv.mem_epollCtlDel_iff (h : Inv s) {fd : Int} {e : Interest} :
    e ∈ (s.kernel.epollCtlDel fd).interests ↔ e ∈ s.kernel.interests ∧ e.fd ≠ fd := by
  rw [Kernel.mem_interests_epollCtlDel]
  refine and_congr_right fun he ↦ not_congr ?_
  have hfile := (h.listed e he).1
  exact ⟨And.left, fun hfd ↦ ⟨hfd, hfd ▸ hfile⟩⟩

theorem served_performed_iff (h : Inv s) (hserved : Served s) (hi : s.objects i = some object)
    (object' : EventObject) (hresource : object'.resource = object.resource)
    (hnotifier : object'.eventNotifier = object.eventNotifier)
    (hregistered : object'.registered = object.registered) (error : Nat) :
    Served (s.performed i object' (object'.resource.close error)) ↔
      (object.resource.socketFd ≠ invalidFd → ¬ s.Hits i object.resource.socketFd) := by
  unfold Registering.performed
  rw [Kernel.perform_close, hresource]
  by_cases hfd : object.resource.socketFd = invalidFd
  · rw [if_pos hfd]
    refine iff_of_true (hserved.update hi hnotifier hregistered ?_) (absurd hfd)
    exact fun p hp ↦ absurd hp.2.2 (by simp)
  · rw [if_neg hfd]
    refine (served_update_iff h hserved hi (fun _ ↦ h.mem_close_iff) ?_ ?_ ?_).trans
      ⟨fun hhits _ ↦ hhits, fun hhits ↦ hhits hfd⟩
    · exact hnotifier
    · exact hregistered
    · exact fun p hp ↦ absurd hp.2.2 (by simp)

theorem served_free_iff (h : Inv s) (hserved : Served s) (hi : s.objects i = some object)
    {phase : ObjectPhase} :
    Served ((s.freeNotifier p).set i (some { object with eventNotifier := none, phase })) ↔
      ∀ e ∈ s.reports, object.eventNotifier ≠ some e.notifier := by
  obtain ⟨hreported, hnotified⟩ := hserved
  constructor
  · rintro ⟨-, hafter⟩ e he hnotifier
    obtain ⟨j, other, hj, hother, -⟩ := hafter e he
    -- the notifier has no other owner
    have hne : j ≠ i := by
      rintro rfl
      rw [← Option.some.inj ((if_pos rfl).symm.trans hj)] at hother
      contradiction
    exact hne (h.alone j i other object e.notifier ((if_neg hne).symm.trans hj) hi hother hnotifier)
  · intro hfree
    constructor
    · have hne : ∀ q phase, ¬ Serves { object with eventNotifier := none, phase } q :=
        fun q phase hq ↦ by simp [Serves] at hq
      grind
    · grind

theorem Served.remove (h : Served s) (hnone : ∀ object, s.objects i = some object →
    object.eventNotifier = none) : Served (s.set i none) := by
  obtain ⟨hreported, hnotified⟩ := h
  constructor
  all_goals grind

theorem Served.of_remove (h : Served (s.set i none))
    (hnone : ∀ object, s.objects i = some object → object.eventNotifier = none) : Served s := by
  obtain ⟨hreported, hnotified⟩ := h
  unfold Serves at hreported
  constructor
  · unfold Serves
    grind
  · grind

theorem served_proceed_iff (h : Inv s) (hserved : Served s) (hi : s.objects i = some object)
    {error : Nat} (hstep : s.proceed i object error = some t) :
    Served t ↔ s.Careful (.proceed i error) := by
  have hcareful : s.Careful (.proceed i error) ↔ match object.phase with
      | .lives => True
      | .deregisters _ => ∀ fd, object.eventNotifier.bind s.notifiers = some fd → ¬ s.Hits i fd
      | .frees _ => ∀ e ∈ s.reports, object.eventNotifier ≠ some e.notifier
      | .destroysResource => object.resource.socketFd ≠ invalidFd →
          ¬ s.Hits i object.resource.socketFd := by
    refine ⟨fun hc ↦ hc object hi, fun hc other hother ↦ ?_⟩
    cases hother.symm.trans hi
    exact hc
  rw [hcareful]
  cases hphase : object.phase with
  | lives =>
    simp only [Registering.proceed, hphase] at hstep
    contradiction
  | deregisters destroyed =>
    simp only [Registering.proceed, hphase] at hstep
    split at hstep
    · contradiction
    · rename_i descriptor hdescriptor
      cases hstep
      refine (served_update_iff h hserved hi (fun _ ↦ h.mem_epollCtlDel_iff) ?_ ?_ ?_).trans ?_
      · rfl
      · rfl
      · exact fun p hp ↦ absurd hp.2.1 (by simp)
      · rw [hdescriptor]
        simp only [Option.some.injEq, forall_eq']
  | frees destroyed =>
    simp only [Registering.proceed, hphase] at hstep
    split at hstep
    · contradiction
    · rename_i p hp
      rw [Option.ite_none_left_eq_some] at hstep
      cases hstep.2
      exact served_free_iff h hserved hi
  | destroysResource =>
    simp only [Registering.proceed, hphase] at hstep
    cases hstep
    have hnone : object.eventNotifier = none :=
      (h.phases i object hi (by rw [hphase]; decide)).mpr hphase
    rw [destroyResource_eq]
    refine Iff.trans ?_ (served_performed_iff h hserved hi object rfl rfl rfl
      (s.closeError object.resource.socketFd error))
    have hleft : ∀ other, (s.closeResource i object error).objects i = some other →
        other.eventNotifier = none := by
      intro other hother
      rw [← Option.some.inj ((if_pos rfl).symm.trans hother)]
      exact hnone
    exact ⟨fun hafter ↦ hafter.of_remove hleft, fun hafter ↦ hafter.remove hleft⟩

theorem Inv.served_step_iff {action : Action} (h : Inv s) (hserved : Served s)
    (hstep : s.step action = some t) : Served t ↔ s.Careful action := by
  have hkeeps : Served t → s.Careful action → (Served t ↔ s.Careful action) := iff_of_true
  cases action with
  | construct i fd =>
    rw [Registering.step, Option.ite_none_right_eq_some] at hstep
    obtain ⟨⟨hi, hfd, -⟩, hstep⟩ := hstep
    cases hstep
    obtain ⟨hreported, hnotified⟩ := hserved
    refine hkeeps ⟨?_, ?_⟩ trivial
    · unfold Kernel.open_ create Serves at *
      grind
    · grind
  | init i p refused =>
    rw [Registering.step] at hstep
    split at hstep
    · contradiction
    · rename_i object hi
      rw [Option.ite_none_right_eq_some] at hstep
      obtain ⟨⟨hlives, hnone, hp⟩, hstep⟩ := hstep
      unfold registerObject at hstep
      obtain ⟨hreported, hnotified⟩ := hserved
      cases hadd : s.kernel.epollCtlAdd object.resource.socketFd p refused with
      | none =>
        simp only [hadd, Option.some.injEq] at hstep
        subst hstep
        refine hkeeps ⟨?_, ?_⟩ trivial
        · unfold Serves at *
          grind
        · grind
      | some kernel =>
        simp only [hadd, Option.some.injEq] at hstep
        subst hstep
        unfold Kernel.epollCtlAdd at hadd
        split at hadd
        · contradiction
        · rename_i file hfile
          rw [Option.ite_none_left_eq_some, Option.some.injEq] at hadd
          obtain ⟨-, rfl⟩ := hadd
          refine hkeeps ⟨fun j other q hj hq ↦ ?_, by grind⟩ trivial
          by_cases hne : j = i
          · cases (if_pos hne).symm.trans hj
            refine ⟨⟨object.resource.socketFd, file, p⟩, ?_, Option.some.inj hq.1, hfile⟩
            exact List.mem_append_right _ List.mem_cons_self
          · obtain ⟨e, he, hnotifier, hregistered⟩ :=
              hreported j other q ((if_neg hne).symm.trans hj) hq
            exact ⟨e, List.mem_append_left _ he, hnotifier, hregistered⟩
  | close i error =>
    rw [Registering.step] at hstep
    split at hstep
    · contradiction
    · rename_i object hi
      rw [Option.ite_none_right_eq_some] at hstep
      cases hstep.2
      refine (served_performed_iff h hserved hi object rfl rfl rfl _).trans ?_
      simp only [Careful, hi, Option.some.injEq, forall_eq']
  | release i =>
    rw [Registering.step] at hstep
    split at hstep
    · contradiction
    · rename_i object hi
      rw [Option.ite_none_right_eq_some] at hstep
      obtain ⟨hlives, hstep⟩ := hstep
      split at hstep
      · cases hstep
        exact hkeeps hserved trivial
      · cases hstep
        refine hkeeps (hserved.update hi rfl rfl ?_) trivial
        exact fun p hp ↦ absurd hp.2.1 (by simp)
  | move i j =>
    rw [Registering.step] at hstep
    split at hstep
    · rename_i object hi hj
      rw [Option.ite_none_right_eq_some] at hstep
      obtain ⟨⟨hlives, hnone⟩, hstep⟩ := hstep
      cases hstep
      obtain ⟨hreported, hnotified⟩ := hserved
      refine hkeeps ⟨?_, ?_⟩ trivial
      · unfold create Serves at *
        grind
      · grind
    · contradiction
  | destroy i error =>
    rw [Registering.step] at hstep
    split at hstep
    · contradiction
    · rename_i object hi
      rw [Option.ite_none_right_eq_some] at hstep
      obtain ⟨hlives, hstep⟩ := hstep
      split at hstep
      · rename_i hnone
        cases hstep
        refine hkeeps (hserved.update hi rfl rfl ?_) ?_
        · exact fun p hp ↦ absurd hp.2.1 (by simp)
        · intro other hother hne
          cases hother.symm.trans hi
          exact absurd hnone hne
      · rename_i hne
        cases hstep
        refine (served_performed_iff h hserved hi { object with phase := .deregisters true }
          rfl rfl rfl _).trans ?_
        simp only [Careful, hi, Option.some.injEq, forall_eq', ne_eq, hne, not_false_eq_true,
          true_implies]
  | proceed i error =>
    rw [Registering.step] at hstep
    split at hstep
    · contradiction
    · rename_i object hi
      exact served_proceed_iff h hserved hi hstep
  | select fds =>
    cases hstep
    refine hkeeps ⟨hserved.reported, fun e he ↦ ?_⟩ trivial
    rcases List.mem_append.mp he with he | he
    · exact hserved.notified e he
    · obtain ⟨-, -, i, object, hi, hnotifier, hregistered, -⟩ :=
        h.listed e (List.mem_filter.mp he).1
      exact ⟨i, object, hi, hnotifier, hregistered⟩
  | notify k =>
    rw [Registering.step, Option.ite_none_right_eq_some] at hstep
    cases hstep.2
    refine hkeeps ⟨hserved.reported, fun e he ↦ ?_⟩ trivial
    exact hserved.notified e (List.mem_of_mem_eraseIdx he)

/-- In all states of a run the events get to their event objects, if and only if all of its steps
are careful. -/
theorem always_served_iff_careful {actions : List Action}
    (hrun : run step initial actions = some s) :
    Always step Served initial actions ↔ Meets step Careful initial actions := by
  refine always_iff_meets_of_run Inv Served (fun _ _ _ h hserved hstep ↦ ?_) inv_initial ?_ hrun
  · exact ⟨h.served_step_iff hserved hstep, fun _ ↦ h.step hstep⟩
  · exact ⟨fun _ _ _ h ↦ absurd h.symm (Option.some_ne_none _),
      fun _ h ↦ absurd h List.not_mem_nil⟩

/-- A thread has been told of the socket when another one destroys the event object. -/
def destroyWhileReported : List Action :=
  [.construct 0 3, .init 0 100 false, .select [3], .destroy 0 0, .proceed 0 0, .proceed 0 0,
    .notify 0]

theorem always_served_iff_careful_destroyWhileReported :
    ∃ s, run step initial destroyWhileReported = some s ∧
      (Always step Served initial destroyWhileReported ↔
        Meets step Careful initial destroyWhileReported) :=
  ⟨_, rfl, always_served_iff_careful (rfl : run step initial destroyWhileReported = some _)⟩

end Registering

end EventObject

end Ustevent.Net
