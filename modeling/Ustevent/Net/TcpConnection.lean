import Ustevent.Net.Transfer
import Ustevent.Reasoning.Runs

/-!
# The descriptor of a connection

A connection reaches its descriptor through the `EventObject` that holds the `TcpSocket` and its
registration with the selector.  The system calls are recorded with the number that they are given,
since the kernel may use the number for something else once it has been closed.
-/

namespace Ustevent.Net

open Reasoning

def invalidFd : Int := -1

inductive HowToShutdown
  | shutdownRd
  | shutdownWr
deriving DecidableEq

inductive SystemCall
  | close (fd : Int)
  | epollCtlAdd (fd : Int)
  | epollCtlDel (fd : Int)
  | recvmsg (fd : Int)
  | sendmsg (fd : Int)
  | shutdown (fd : Int) (how : HowToShutdown)
deriving DecidableEq

def SystemCall.fd : SystemCall → Int
  | .close fd | .epollCtlAdd fd | .epollCtlDel fd | .recvmsg fd | .sendmsg fd | .shutdown fd _ => fd

/-- After a `close`, no call is given the number again. -/
def NoReuse (calls : List SystemCall) : Prop :=
  calls.Pairwise fun call later ↦ ∀ fd, call = .close fd → later.fd ≠ fd

instance decidableNoReuse (calls : List SystemCall) : Decidable (NoReuse calls) :=
  have (call later : SystemCall) : Decidable (∀ fd, call = .close fd → later.fd ≠ fd) :=
    match call with
    | .close fd => decidable_of_iff (later.fd ≠ fd) (by simp)
    | .epollCtlAdd _ | .epollCtlDel _ | .recvmsg _ | .sendmsg _ | .shutdown _ _ =>
      .isTrue fun _ h ↦ nomatch h
  inferInstanceAs (Decidable (calls.Pairwise _))

structure TcpSocket where
  socketFd : Int
deriving DecidableEq

namespace TcpSocket

/-- `error` is what `::close` sets `errno` to, or 0. -/
def close (socket : TcpSocket) (error : Nat) : TcpSocket × List SystemCall :=
  if socket.socketFd ≠ invalidFd then
    -- the number is given up only if ::close fails
    (if error ≠ 0 then ⟨invalidFd⟩ else socket, [.close socket.socketFd])
  else (socket, [])

/-- The destructor. -/
def destroy (socket : TcpSocket) (error : Nat) : TcpSocket × List SystemCall :=
  if socket.socketFd ≠ invalidFd then socket.close error else (socket, [])

/-- The calls of `nonBlockingReceive` or `nonBlockingSend` when the system answers so. -/
def systemCalls (call : Int → SystemCall) (socket : TcpSocket) : List Answer → List SystemCall
  | [] => []
  | .count _ :: _ => [call socket.socketFd]
  | .errno e :: answers =>
    call socket.socketFd :: if e = Errno.eintr then socket.systemCalls call answers else []

end TcpSocket

/-- A connection and its `EventObject<TcpSocket>`. -/
structure TcpConnection where
  resource : TcpSocket
  /-- the descriptor in the notifier of the event object, if it is registered -/
  notifier : Option Int
  readShutdown : Bool
  writeShutdown : Bool
  /-- the `TcpConnection` exists -/
  connected : Bool
  /-- the `EventObject` exists -/
  alive : Bool
  calls : List SystemCall
deriving DecidableEq

namespace TcpConnection

/-- The event object of a new descriptor, after `init`.  A connection is made of it unless the
selector refuses the descriptor. -/
def create (fd : Nat) (error : Nat) : TcpConnection where
  resource := ⟨fd⟩
  notifier := if error = 0 then some fd else none
  readShutdown := false
  writeShutdown := false
  connected := error = 0
  alive := true
  calls := [.epollCtlAdd fd]

inductive Action
  /-- a pass of the loop of `readSome` or `read` -/
  | read (answers : List Answer)
  /-- a pass of the loop of `writeSome` or `write` -/
  | write (answers : List Answer)
  | shutdown
  | close (error : Nat)
  /-- the destructor of the connection -/
  | destroyConnection
  /-- the destructor of the event object, with the answers to the closes that it and the destructor
  of its socket make -/
  | destroyObject (error error' : Nat)
deriving DecidableEq

/-- The destructor of the event object and then of its socket. -/
def destroyObject (c : TcpConnection) (error error' : Nat) : TcpConnection × List SystemCall :=
  let (resource, calls) :=
    match c.notifier with
    | none => (c.resource, [])
    | some fd =>
      let (resource, calls) := c.resource.close error
      (resource, calls ++ [SystemCall.epollCtlDel fd])
  let (resource, calls') := resource.destroy error'
  ({ c with resource, notifier := none, alive := false }, calls ++ calls')

/-- A transfer that returns makes a system call at least. -/
def transfer (c : TcpConnection) (call : Int → SystemCall) (answers : List Answer) :
    Option (TcpConnection × List SystemCall) :=
  if answers = [] then none else some (c, c.resource.systemCalls call answers)

/-- The state after an action and the system calls that it makes. -/
def act (c : TcpConnection) : Action → Option (TcpConnection × List SystemCall)
  | .read answers =>
    if c.connected = false then none
    else if c.readShutdown then some (c, [])
    else c.transfer .recvmsg answers
  | .write answers =>
    if c.connected = false then none
    else if c.writeShutdown then some (c, [])
    else c.transfer .sendmsg answers
  | .shutdown =>
    if c.connected = false then none
    else
      some ({ c with readShutdown := true, writeShutdown := true },
        [.shutdown c.resource.socketFd .shutdownRd, .shutdown c.resource.socketFd .shutdownWr])
  | .close error =>
    if c.connected = false then none
    else
      let (resource, calls) := c.resource.close error
      some ({ c with resource }, calls)
  | .destroyConnection =>
    if c.connected = false then none else some ({ c with connected := false }, [])
  | .destroyObject error error' =>
    if c.connected = true ∨ c.alive = false then none else some (c.destroyObject error error')

def step (c : TcpConnection) (a : Action) : Option TcpConnection :=
  match c.act a with
  | none => none
  | some (c, calls) => some { c with calls := c.calls ++ calls }

/-- The number in the socket has been closed. -/
def Stale (c : TcpConnection) : Prop := .close c.resource.socketFd ∈ c.calls

instance (c : TcpConnection) : Decidable c.Stale := inferInstanceAs (Decidable (_ ∈ _))

/-- The action does not come to use the number of a socket that has been closed successfully, and
does not destroy an event object that is registered. -/
def Careful (c : TcpConnection) : Action → Prop
  | .read _ => c.readShutdown = true ∨ ¬ c.Stale
  | .write _ => c.writeShutdown = true ∨ ¬ c.Stale
  | .shutdown | .close _ => ¬ c.Stale
  | .destroyConnection => True
  | .destroyObject _ _ => c.notifier = none ∧ ¬ c.Stale

instance decidableCareful (c : TcpConnection) : (a : Action) → Decidable (c.Careful a)
  | .read _ | .write _ => inferInstanceAs (Decidable (_ ∨ _))
  | .shutdown | .close _ => inferInstanceAs (Decidable (¬ _))
  | .destroyConnection => inferInstanceAs (Decidable True)
  | .destroyObject _ _ => inferInstanceAs (Decidable (_ ∧ _))

/-! ## One action -/

variable {fd : Nat} {c t : TcpConnection} {calls new : List SystemCall} {n : Int}

theorem noReuse_of_not_close (h : ∀ call ∈ calls, ∀ n, call ≠ .close n) : NoReuse calls :=
  List.Pairwise.imp_of_mem (fun hcall _ _ fd heq ↦ absurd heq (h _ hcall fd))
    (List.pairwise_of_forall fun _ _ ↦ trivial)

theorem noReuse_append :
    NoReuse (calls ++ new) ↔
      NoReuse calls ∧ NoReuse new ∧ ∀ n, .close n ∈ calls → ∀ call ∈ new, call.fd ≠ n := by
  rw [NoReuse, List.pairwise_append]
  constructor
  · rintro ⟨hcalls, hnew, hcross⟩
    exact ⟨hcalls, hnew, fun n hn call hcall ↦ hcross _ hn call hcall n rfl⟩
  · rintro ⟨hcalls, hnew, hcross⟩
    refine ⟨hcalls, hnew, fun call hcall later hlater n heq ↦ ?_⟩
    exact hcross n (heq ▸ hcall) later hlater

/-- Calls that use a number are right as long as the number has not been closed. -/
theorem noReuse_append_uses (hne : new ≠ []) (hnew : NoReuse new)
    (huses : ∀ call ∈ new, call.fd = n) :
    NoReuse (calls ++ new) ↔ NoReuse calls ∧ .close n ∉ calls := by
  rw [noReuse_append]
  constructor
  · rintro ⟨hcalls, -, hcross⟩
    -- one use is enough to go wrong
    have ⟨call, hcall⟩ := List.exists_mem_of_ne_nil new hne
    exact ⟨hcalls, fun hclose ↦ hcross n hclose call hcall (huses call hcall)⟩
  · rintro ⟨hcalls, hclose⟩
    refine ⟨hcalls, hnew, fun m hm call hcall heq ↦ hclose ?_⟩
    rw [← huses call hcall, heq]
    exact hm

theorem not_noReuse_append (hclose : .close n ∈ calls) {call : SystemCall} (hcall : call ∈ new)
    (huses : call.fd = n) : ¬ NoReuse (calls ++ new) :=
  fun h ↦ (noReuse_append.mp h).2.2 n hclose call hcall huses

theorem systemCalls_uses {call : Int → SystemCall} (hfd : ∀ n, (call n).fd = n)
    (hopen : ∀ n m, call n ≠ .close m) (socket : TcpSocket) (answers : List Answer) :
    ∀ made ∈ socket.systemCalls call answers,
      made.fd = socket.socketFd ∧ ∀ m, made ≠ .close m := by
  induction answers with
  | nil => exact fun _ h ↦ absurd h (List.not_mem_nil)
  | cons answer answers ih =>
    intro made hmade
    cases answer with
    | count k =>
      rw [TcpSocket.systemCalls, List.mem_singleton] at hmade
      exact hmade ▸ ⟨hfd _, hopen _⟩
    | errno e =>
      rw [TcpSocket.systemCalls, List.mem_cons] at hmade
      cases hmade with
      | inl heq => exact heq ▸ ⟨hfd _, hopen _⟩
      | inr hmem =>
        split at hmem
        · exact ih made hmem
        · exact absurd hmem List.not_mem_nil

theorem systemCalls_ne_nil {call : Int → SystemCall} {socket : TcpSocket} {answers : List Answer}
    (h : answers ≠ []) : socket.systemCalls call answers ≠ [] := by
  match answers with
  | [] => exact absurd rfl h
  | .count _ :: _ | .errno _ :: _ => exact List.cons_ne_nil _ _

/-- All closes are those of the connection's descriptor, whose number the socket loses by a close
only. -/
structure Inv (fd : Nat) (c : TcpConnection) : Prop where
  socket : c.resource.socketFd = fd ∨
    (c.resource.socketFd = invalidFd ∧ .close (fd : Int) ∈ c.calls)
  notifier : ∀ n : Int, c.notifier = some n → n = fd
  closes : ∀ n : Int, .close n ∈ c.calls → n = fd

theorem inv_create (fd error : Nat) : Inv fd (create fd error) where
  socket := Or.inl rfl
  notifier n h := by
    simp only [create] at h
    split at h
    · exact (Option.some.inj h).symm
    · exact absurd h (by simp)
  closes n h := by simp [create] at h

/-- An invalid number is never stale. -/
theorem Inv.not_stale_of_invalid (h : Inv fd c) (hinvalid : c.resource.socketFd = invalidFd) :
    ¬ c.Stale := by
  intro hstale
  have := h.closes _ hstale
  rw [hinvalid, invalidFd] at this
  omega

/-- The calls of an action that closes nothing. -/
theorem Inv.append (h : Inv fd c) (new : List SystemCall)
    (hnew : ∀ call ∈ new, ∀ n, call ≠ .close n) :
    Inv fd { c with calls := c.calls ++ new } where
  socket := h.socket.imp_right fun hinvalid ↦
    ⟨hinvalid.1, List.mem_append_left new hinvalid.2⟩
  notifier := h.notifier
  closes n hmem := by
    cases List.mem_append.mp hmem with
    | inl hold => exact h.closes n hold
    | inr hmade => exact absurd rfl (hnew _ hmade n)

/-- The calls of an action that changes nothing but closing the socket. -/
theorem Inv.closed (h : Inv fd c) (error : Nat) {resource : TcpSocket}
    (hclose : c.resource.close error = (resource, new)) :
    Inv fd { c with resource, calls := c.calls ++ new } ∧
      (NoReuse (c.calls ++ new) ↔ NoReuse c.calls ∧ ¬ c.Stale) := by
  unfold TcpSocket.close at hclose
  cases h.socket with
  | inl hfd =>
    -- the descriptor of a connection is no invalid one
    have hvalid : c.resource.socketFd ≠ invalidFd := by
      rw [hfd, invalidFd]
      omega
    rw [if_pos hvalid] at hclose
    cases hclose
    constructor
    · refine ⟨?_, h.notifier, fun n hmem ↦ ?_⟩
      · by_cases herror : error ≠ 0
        · rw [if_pos herror]
          exact Or.inr ⟨rfl, List.mem_append_right _ (by rw [hfd]; exact List.mem_cons_self)⟩
        · rw [if_neg herror]
          exact Or.inl hfd
      · cases List.mem_append.mp hmem with
        | inl hold => exact h.closes n hold
        | inr hmade => cases List.mem_singleton.mp hmade; exact hfd
    · apply noReuse_append_uses (List.cons_ne_nil _ _) (List.pairwise_singleton _ _)
      exact fun call hcall ↦ by rw [List.mem_singleton.mp hcall]; rfl
  | inr hinvalid =>
    -- a close that has failed has left the invalid number behind
    rw [if_neg (fun hne ↦ hne hinvalid.1)] at hclose
    cases hclose
    rw [List.append_nil]
    exact ⟨h, (and_iff_left (h.not_stale_of_invalid hinvalid.1)).symm⟩

theorem destroy_eq (socket : TcpSocket) (error : Nat) :
    socket.destroy error = socket.close error := by
  unfold TcpSocket.destroy TcpSocket.close
  split <;> rfl

/-- A pass of a transfer. -/
theorem Inv.transfer (h : Inv fd c) {call : Int → SystemCall} {answers : List Answer}
    {c' : TcpConnection} (hfd : ∀ n, (call n).fd = n) (hopen : ∀ n m, call n ≠ .close m)
    (htransfer : c.transfer call answers = some (c', new)) :
    Inv fd { c' with calls := c'.calls ++ new } ∧
      (NoReuse (c'.calls ++ new) ↔ NoReuse c.calls ∧ ¬ c.Stale) := by
  unfold TcpConnection.transfer at htransfer
  split at htransfer
  · exact absurd htransfer (by simp)
  · rename_i hne
    cases htransfer
    have huses := systemCalls_uses hfd hopen c.resource answers
    constructor
    · exact h.append _ fun made hmade ↦ (huses made hmade).2
    · apply noReuse_append_uses (systemCalls_ne_nil hne)
      · exact noReuse_of_not_close fun made hmade ↦ (huses made hmade).2
      · exact fun made hmade ↦ (huses made hmade).1

/-- After a close the number has been closed, now or before. -/
theorem Inv.close_mem (h : Inv fd c) (error : Nat) :
    .close (fd : Int) ∈ c.calls ++ (c.resource.close error).2 := by
  cases h.socket with
  | inl hfd =>
    apply List.mem_append_right
    rw [TcpSocket.close, hfd, if_pos (by rw [invalidFd]; omega)]
    exact List.mem_cons_self
  | inr hinvalid => exact List.mem_append_left _ hinvalid.2

/-- The destructor of a registered event object uses the number after it has closed it. -/
theorem Inv.destroyObject (h : Inv fd c) (error error' : Nat) {c' : TcpConnection}
    (hdestroy : c.destroyObject error error' = (c', new)) :
    Inv fd { c' with calls := c'.calls ++ new } ∧
      (NoReuse (c'.calls ++ new) ↔ NoReuse c.calls ∧ c.notifier = none ∧ ¬ c.Stale) := by
  unfold TcpConnection.destroyObject at hdestroy
  cases hnotifier : c.notifier with
  | none =>
    simp only [hnotifier, destroy_eq, List.nil_append] at hdestroy
    cases hdestroy
    have ⟨hinv, hgood⟩ := h.closed error' rfl
    exact ⟨⟨hinv.socket, fun n hn ↦ (nomatch hn), hinv.closes⟩, hgood.trans (by simp)⟩
  | some n =>
    simp only [hnotifier, destroy_eq] at hdestroy
    cases hdestroy
    have hn : n = fd := h.notifier n hnotifier
    -- the socket is closed, the number deregistered and the socket destroyed, in this order
    have hinv := (h.closed error rfl).1
    have hdel := hinv.append [.epollCtlDel n] (by simp)
    have hlast := (hdel.closed error' rfl).1
    rw [List.append_assoc c.calls] at hlast
    constructor
    · have hcalls := hlast.closes
      have hsocket := hlast.socket
      simp only [List.append_assoc] at hcalls hsocket ⊢
      exact ⟨hsocket, fun n hn ↦ (nomatch hn), hcalls⟩
    · rw [← List.append_assoc, ← List.append_assoc, List.append_assoc (c.calls ++ _)]
      have hnot := not_noReuse_append (h.close_mem error)
        (List.mem_append_left ((c.resource.close error).1.close error').2
          (List.mem_cons_self : SystemCall.epollCtlDel n ∈ [SystemCall.epollCtlDel n])) hn
      exact iff_of_false hnot (by simp)

theorem Inv.step {a : Action} (h : Inv fd c) (hstep : c.step a = some t) :
    Inv fd t ∧ (NoReuse t.calls ↔ NoReuse c.calls ∧ c.Careful a) := by
  unfold TcpConnection.step at hstep
  split at hstep
  · exact absurd hstep (by simp)
  rename_i c' new hact
  cases hstep
  have hidle : Inv fd { c with calls := c.calls ++ [] } ∧
      (NoReuse (c.calls ++ []) ↔ NoReuse c.calls ∧ True) := by
    rw [List.append_nil, and_true]
    exact ⟨h, Iff.rfl⟩
  cases a with
  | read answers =>
    simp only [TcpConnection.act] at hact
    split at hact
    · exact absurd hact (by simp)
    split at hact
    · rename_i hshutdown
      cases hact
      exact ⟨hidle.1, hidle.2.trans (by simp [Careful, hshutdown])⟩
    · rename_i hshutdown
      have hpass := h.transfer (fun _ ↦ rfl) (by simp) hact
      exact ⟨hpass.1, hpass.2.trans (by simp [Careful, hshutdown])⟩
  | write answers =>
    simp only [TcpConnection.act] at hact
    split at hact
    · exact absurd hact (by simp)
    split at hact
    · rename_i hshutdown
      cases hact
      exact ⟨hidle.1, hidle.2.trans (by simp [Careful, hshutdown])⟩
    · rename_i hshutdown
      have hpass := h.transfer (fun _ ↦ rfl) (by simp) hact
      exact ⟨hpass.1, hpass.2.trans (by simp [Careful, hshutdown])⟩
  | shutdown =>
    simp only [TcpConnection.act] at hact
    split at hact
    · exact absurd hact (by simp)
    cases hact
    have hinv := h.append [.shutdown c.resource.socketFd .shutdownRd,
      .shutdown c.resource.socketFd .shutdownWr] (by simp)
    refine ⟨⟨hinv.socket, hinv.notifier, hinv.closes⟩, ?_⟩
    apply noReuse_append_uses (List.cons_ne_nil _ _)
    · exact noReuse_of_not_close (by simp)
    · simp [SystemCall.fd]
  | close error =>
    simp only [TcpConnection.act] at hact
    split at hact
    · exact absurd hact (by simp)
    cases hact
    exact h.closed error rfl
  | destroyConnection =>
    simp only [TcpConnection.act] at hact
    split at hact
    · exact absurd hact (by simp)
    cases hact
    exact ⟨⟨hidle.1.socket, hidle.1.notifier, hidle.1.closes⟩, hidle.2⟩
  | destroyObject error error' =>
    simp only [TcpConnection.act] at hact
    split at hact
    · exact absurd hact (by simp)
    exact h.destroyObject error error' (Option.some.inj hact)

/-! ## Whole runs -/

/-- A run does not use a number after it has closed it, if and only if all of its actions are
careful. -/
theorem noReuse_iff_careful {error : Nat} {as : List Action}
    (hrun : run step (create fd error) as = some t) :
    NoReuse t.calls ↔ Meets step Careful (create fd error) as := by
  have hgood := good_iff_meets (Inv fd) (fun c ↦ NoReuse c.calls)
    (fun _ _ _ h hstep ↦ h.step hstep) (inv_create fd error) hrun
  exact hgood.trans (and_iff_right (List.pairwise_singleton _ _))

/-- A connection that is read from and then closed, and is never destroyed. -/
theorem noReuse_iff_careful_close :
    ∃ t, run step (create 5 0) [.read [.count 3], .close 0] = some t ∧ NoReuse t.calls :=
  ⟨_, rfl, (noReuse_iff_careful rfl).mpr
    (show Meets step Careful (create 5 0) [.read [.count 3], .close 0] by decide)⟩

/-- A connection that is closed and then destroyed. -/
theorem not_noReuse_close :
    ∃ t, run step (create 5 0) [.close 0, .destroyConnection, .destroyObject 0 0] = some t ∧
      t.calls = [.epollCtlAdd 5, .close 5, .close 5, .epollCtlDel 5, .close 5] ∧
      ¬ NoReuse t.calls :=
  ⟨_, rfl, by decide, by decide⟩

end TcpConnection

end Ustevent.Net
