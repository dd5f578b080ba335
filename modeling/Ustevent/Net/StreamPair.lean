import Ustevent.Net.ReadErrors
import Ustevent.Net.SelectionSteps
import Ustevent.Net.WriteStream

/-!
# Two connected streams

The two ends of a TCP connection, each registered with a selector, over which fibers call `readSome`
and `writeSome`.  The system has a buffer of bytes on the way in each direction.  An operation would
block if that buffer is empty or full, and an edge is reported when it is so no longer.  The fibers,
the passes of `select` and the semaphores of each end are those of `Selection`.
-/

namespace Ustevent.Net

open Reasoning

/-- As the operation of `write`, but each send is the last one of the call. -/
def WriteStream.writeSomeOperation (data : List UInt8) :
    Operation WriteStream.State (List Answer) where
  nonBlockingOperation := (writeOperation data 0 data.length).nonBlockingOperation
  onOperated s error := (true, s, if error = Errno.epipe then Error.remotelyClosed else error)
  onNotified s error := (false, s, error)

/-- The system answers so to a call for `length` bytes, of which it could pass `room`. -/
def Answers (room length : Nat) (answers : List Answer) : Bool :=
  match conclusive answers with
  | none => false
  | some (.count n) => decide (min n length ≤ room ∧ (n = 0 → length = 0))
  | some (.errno e) => decide (e = Errno.eagain → room = 0)

inductive Peer
  | near
  | far
deriving DecidableEq

def Peer.other : Peer → Peer
  | .near => .far
  | .far => .near

@[simp] theorem Peer.other_other (p : Peer) : p.other.other = p := by
  cases p <;> rfl

@[simp] theorem Peer.other_ne (p : Peer) : p.other ≠ p := by
  cases p <;> decide

theorem Peer.other_eq_iff {p q : Peer} : q.other = p ↔ q = p.other := by
  cases p <;> cases q <;> decide

/-- The ends, the variables and `*error` of their calls, and the bytes that are on the way from each
of them.  `sent` and `received` are history: what the calls have said that they have written, and
what they have left in the buffers of their callers. -/
structure StreamPair where
  selection : Peer → Selection
  data : Peer → List UInt8
  writer : Peer → WriteStream.State × Int
  size : Peer → Nat
  reader : Peer → ReadStream.State × Int
  pipe : Peer → List UInt8
  sent : Peer → List UInt8
  received : Peer → List UInt8

namespace StreamPair

inductive Action
  | writeSome (p : Peer) (data : List UInt8) (timed : Bool)
  | readSome (p : Peer) (size : Nat) (timed : Bool)
  /-- `nonBlockingWriteSome`, and the end of the call unless it would block -/
  | send (p : Peer) (answers : List Answer)
  /-- `nonBlockingReadSome`, and the end of the call unless it would block -/
  | receive (p : Peer) (answers : List Answer)
  /-- a step of the passes of `select` and of the semaphores, or another edge -/
  | select (p : Peer) (action : Selection.Action)
deriving DecidableEq

/-- The number of the signal descriptor and the notifier of each end. -/
def initial (signalFd : Peer → BitVec 32) (notifier : Peer → EpollSelector.Notifier) :
    StreamPair where
  selection p := Selection.initial (signalFd p) (notifier p)
  data _ := []
  writer _ := (WriteStream.State.initial 0, 0)
  size _ := 0
  reader _ := (ReadStream.State.initial (fun _ ↦ 0) 0, 0)
  pipe _ := []
  sent _ := []
  received _ := []

abbrev setSelection (s : StreamPair) (p : Peer) (selection : Selection) : StreamPair :=
  { s with selection := fun q ↦ if q = p then selection else s.selection q }

abbrev setWriter (s : StreamPair) (p : Peer) (writer : WriteStream.State × Int) : StreamPair :=
  { s with writer := fun q ↦ if q = p then writer else s.writer q }

abbrev setReader (s : StreamPair) (p : Peer) (reader : ReadStream.State × Int) : StreamPair :=
  { s with reader := fun q ↦ if q = p then reader else s.reader q }

/-- The system reports an edge at the end `p`. -/
abbrev edge (s : StreamPair) (p : Peer) (events : Events) : StreamPair :=
  s.setSelection p { s.selection p with edges := (s.selection p).edges ++ [events] }

def readable : Events := ⟨true, false, false, false⟩

def writable : Events := ⟨false, true, false, false⟩

/-- The system takes the bytes from the end `p`. -/
def transmit (s : StreamPair) (p : Peer) (bytes : List UInt8) : StreamPair :=
  let s' := { s with
    pipe := fun q ↦ if q = p then s.pipe p ++ bytes else s.pipe q
    sent := fun q ↦ if q = p then s.sent p ++ bytes else s.sent q }
  if s.pipe p = [] ∧ bytes ≠ [] then s'.edge p.other readable else s'

/-- The system has passed `n` bytes to the end `p`, into this buffer. -/
def deliver (capacity : Nat) (s : StreamPair) (p : Peer) (n : Nat) (buffer : Nat → UInt8) :
    StreamPair :=
  let s' := { s with
    pipe := fun q ↦ if q = p.other then (s.pipe p.other).drop n else s.pipe q
    received := fun q ↦
      if q = p then s.received p ++ (List.range n).map buffer else s.received q }
  if capacity ≤ (s.pipe p.other).length ∧ 0 < n then s'.edge p.other writable else s'

/-- The bytes on the way, as a stream. -/
def stream (bytes : List UInt8) (i : Nat) : UInt8 := bytes[i]?.getD 0

def step (capacity : Nat) (s : StreamPair) : Action → Option StreamPair
  | .writeSome p data timed =>
    ((s.selection p).step (.start .eventOut timed)).map fun selection ↦
      { (s.setSelection p selection).setWriter p (WriteStream.State.initial data.length, 0) with
        data := fun q ↦ if q = p then data else s.data q }
  | .readSome p size timed =>
    ((s.selection p).step (.start .eventIn timed)).map fun selection ↦
      { (s.setSelection p selection).setReader p
          (ReadStream.State.initial (s.reader p).1.buffer size, 0) with
        size := fun q ↦ if q = p then size else s.size q }
  | .send p answers =>
    if Answers (capacity - (s.pipe p).length) (s.data p).length answers then
      match (WriteStream.writeSomeOperation (s.data p)).attempt true answers (s.writer p).1
        (s.writer p).2 with
      | none => none
      | some (.blocks w error) =>
        ((s.selection p).step (.block .eventOut)).map fun selection ↦
          (s.setSelection p selection).setWriter p (w, error)
      -- on_operated returns true
      | some (.ends (.done w error)) | some (.ends (.again w error)) =>
        ((s.selection p).step (.finish .eventOut)).map fun selection ↦
          ((s.setSelection p selection).setWriter p (w, error)).transmit p
            ((s.data p).take w.bytesWritten)
    else none
  | .receive p answers =>
    if Answers (s.pipe p.other).length (s.size p) answers then
      -- the stream goes on with the first of the bytes on the way
      match (ReadStream.readSomeOperation (stream (s.pipe p.other)) (s.size p)).attempt true answers
        { (s.reader p).1 with taken := 0 } (s.reader p).2 with
      | none => none
      | some (.blocks r error) =>
        ((s.selection p).step (.block .eventIn)).map fun selection ↦
          (s.setSelection p selection).setReader p (r, error)
      | some (.ends (.done r error)) | some (.ends (.again r error)) =>
        ((s.selection p).step (.finish .eventIn)).map fun selection ↦
          ((s.setSelection p selection).setReader p (r, error)).deliver capacity p r.bytesRead
            r.buffer
    else none
  | .select p action =>
    if action.selects then ((s.selection p).step action).map (s.setSelection p) else none

/-! ## What the streams are for -/

def parked (s : StreamPair) (p : Peer) (event : EventType) : Prop :=
  ((s.selection p).side event).fiber = .parked

/-- The fibers and the passes of `select` have nothing to do but to wait. -/
def Settled (s : StreamPair) : Prop :=
  ∀ p action, (match action with
    | .take | .dispatch _ | .notifyLocked _ | .wait _ | .wake _ => True
    | .start _ _ | .finish _ | .block _ | .edge _ | .timeOut _ => False) →
    (s.selection p).step action = none

structure Sound (capacity : Nat) (s : StreamPair) : Prop where
  /-- the bytes arrive once each and in order -/
  inOrder : ∀ p, s.received p.other ++ s.pipe p = s.sent p
  bounded : ∀ p, (s.pipe p).length ≤ capacity
  /-- at rest, a reader waits only when it has got everything, and a writer only for room -/
  drained : s.Settled → ∀ p, s.parked p .eventIn → s.received p = s.sent p.other
  full : s.Settled → ∀ p, s.parked p .eventOut → (s.pipe p).length = capacity
  /-- the two ends of a direction do not wait for each other -/
  live : 1 ≤ capacity → s.Settled → ∀ p, ¬ (s.parked p .eventOut ∧ s.parked p.other .eventIn)

/-- The edges get to the fibers that wait for them. -/
def Reaches (s : StreamPair) : Action → Prop
  | .select p action => (s.selection p).Reaches action
  | .writeSome _ _ _ | .readSome _ _ _ | .send _ _ | .receive _ _ => True

instance decidableReaches (s : StreamPair) : (a : Action) → Decidable (s.Reaches a)
  | .select p action => inferInstanceAs (Decidable ((s.selection p).Reaches action))
  | .writeSome _ _ _ | .readSome _ _ _ | .send _ _ | .receive _ _ => isTrue trivial

/-- The counters of the semaphores stay within the range of their type. -/
def InRange (s : StreamPair) : Action → Prop
  | .select p action => (s.selection p).InRange action
  | .writeSome _ _ _ | .readSome _ _ _ | .send _ _ | .receive _ _ => True

instance decidableInRange (s : StreamPair) : (a : Action) → Decidable (s.InRange a)
  | .select p action => inferInstanceAs (Decidable ((s.selection p).InRange action))
  | .writeSome _ _ _ | .readSome _ _ _ | .send _ _ | .receive _ _ => isTrue trivial

/-! ## Both ends -/

variable {signalFd : Peer → BitVec 32} {notifier : Peer → EpollSelector.Notifier} {capacity : Nat}
  {s t : StreamPair} {p : Peer} {answers : List Answer}

structure Inv (capacity : Nat) (s : StreamPair) : Prop where
  blockedAt : ∀ p event, ((s.selection p).side event).blockedAt ≤ (s.selection p).edges.length
  inOrder : ∀ p, s.received p.other ++ s.pipe p = s.sent p
  bounded : ∀ p, (s.pipe p).length ≤ capacity
  readable : ∀ p, ((s.selection p).side .eventIn).fiber.waits = true → s.pipe p.other ≠ [] →
    (s.selection p).Told .eventIn
  writable : ∀ p, ((s.selection p).side .eventOut).fiber.waits = true →
    (s.pipe p).length < capacity → (s.selection p).Told .eventOut

theorem inv_initial (signalFd : Peer → BitVec 32) (notifier : Peer → EpollSelector.Notifier)
    (capacity : Nat) : Inv capacity (initial signalFd notifier) where
  blockedAt _ _ := Nat.le_refl 0
  inOrder _ := rfl
  bounded _ := Nat.zero_le capacity
  readable _ h := absurd h Bool.false_ne_true
  writable _ h := absurd h Bool.false_ne_true

@[simp] theorem setSelection_self (s : StreamPair) (p : Peer) (selection : Selection) :
    (s.setSelection p selection).selection p = selection := if_pos rfl

theorem setSelection_of_ne (s : StreamPair) (selection : Selection) {q : Peer} (h : q ≠ p) :
    (s.setSelection p selection).selection q = s.selection q := if_neg h

theorem follows_setSelection {selection : Selection}
    (h : Selection.Follows (s.selection p) selection) (q : Peer) :
    Selection.Follows (s.selection q) ((s.setSelection p selection).selection q) := by
  by_cases heq : q = p
  · rw [heq, setSelection_self]
    exact h
  · rw [setSelection_of_ne s selection heq]
    exact Selection.Follows.rfl

/-- A step that has an edge reported where it makes an operation possible. -/
theorem Inv.exchange (h : Inv capacity s)
    (hselection : ∀ q, Selection.Follows (s.selection q) (t.selection q))
    (hinOrder : ∀ q, t.received q.other ++ t.pipe q = t.sent q)
    (hbounded : ∀ q, (t.pipe q).length ≤ capacity)
    (hreadable : ∀ q, t.pipe q.other ≠ [] →
      s.pipe q.other ≠ [] ∨ (t.selection q).Told .eventIn)
    (hwritable : ∀ q, (t.pipe q).length < capacity →
      (s.pipe q).length < capacity ∨ (t.selection q).Told .eventOut) : Inv capacity t where
  blockedAt q event := by
    rw [(hselection q).blockedAt]
    exact Nat.le_trans (h.blockedAt q event) (hselection q).edges.length_le
  inOrder := hinOrder
  bounded := hbounded
  readable q hwaits hne := by
    rcases hreadable q hne with hne | htold
    · exact (h.readable q ((hselection q).waits _ hwaits) hne).follows (hselection q)
    · exact htold
  writable q hwaits hlt := by
    rcases hwritable q hlt with hlt | htold
    · exact (h.writable q ((hselection q).waits _ hwaits) hlt).follows (hselection q)
    · exact htold

/-- The bytes stay where they are. -/
theorem Inv.follows (h : Inv capacity s)
    (hselection : ∀ q, Selection.Follows (s.selection q) (t.selection q))
    (hpipe : t.pipe = s.pipe) (hsent : t.sent = s.sent) (hreceived : t.received = s.received) :
    Inv capacity t := by
  refine h.exchange hselection ?_ ?_ ?_ ?_
  · rw [hpipe, hsent, hreceived]
    exact h.inOrder
  · rw [hpipe]
    exact h.bounded
  · rw [hpipe]
    exact fun _ hne ↦ Or.inl hne
  · rw [hpipe]
    exact fun _ hlt ↦ Or.inl hlt

/-- The bytes of a write go on their way. -/
theorem Inv.transmit (h : Inv capacity s) {bytes : List UInt8}
    (hroom : (s.pipe p).length + bytes.length ≤ capacity) : Inv capacity (s.transmit p bytes) := by
  unfold StreamPair.transmit
  have hinOrder := h.inOrder
  have hbounded := h.bounded
  by_cases hempty : s.pipe p = [] ∧ bytes ≠ []
  · rw [if_pos hempty]
    refine h.exchange (follows_setSelection (Selection.follows_edge _ _)) ?_ ?_ ?_ ?_
    · grind
    · grind
    · intro q hne
      by_cases hq : q = p.other
      · right
        rw [hq, setSelection_self]
        exact Selection.told_edge (h.blockedAt _ _) rfl
      · have hq : q.other ≠ p := mt Peer.other_eq_iff.mp hq
        exact Or.inl ((if_neg hq : _ = s.pipe q.other) ▸ hne)
    · grind
  · rw [if_neg hempty]
    refine h.exchange (fun _ ↦ Selection.Follows.rfl) ?_ ?_ ?_ ?_
    · grind
    · grind
    · grind
    · grind

/-- The bytes of a read are taken from the front. -/
theorem Inv.deliver (h : Inv capacity s) {n : Nat} {buffer : Nat → UInt8}
    (hbytes : (List.range n).map buffer = (s.pipe p.other).take n) :
    Inv capacity (s.deliver capacity p n buffer) := by
  unfold StreamPair.deliver
  have hinOrder := h.inOrder
  have hbounded := h.bounded
  have htake := List.take_append_drop n (s.pipe p.other)
  have hlength : ((s.pipe p.other).drop n).length = (s.pipe p.other).length - n :=
    List.length_drop
  rw [hbytes]
  have hdelivered : ∀ q : Peer, (if q.other = p then s.received p ++ (s.pipe p.other).take n
      else s.received q.other) ++ (if q = p.other then (s.pipe p.other).drop n else s.pipe q) =
      s.sent q := by
    intro q
    by_cases hq : q = p.other
    · rw [if_pos (Peer.other_eq_iff.mpr hq), if_pos hq, List.append_assoc, htake, hq,
        ← hinOrder p.other, Peer.other_other]
    · rw [if_neg (mt Peer.other_eq_iff.mp hq), if_neg hq]
      exact hinOrder q
  by_cases hfull : capacity ≤ (s.pipe p.other).length ∧ 0 < n
  · rw [if_pos hfull]
    refine h.exchange (follows_setSelection (Selection.follows_edge _ _)) ?_ ?_ ?_ ?_
    · exact hdelivered
    · grind
    · grind [Peer.other]
    · intro q hlt
      by_cases hq : q = p.other
      · right
        rw [hq, setSelection_self]
        exact Selection.told_edge (h.blockedAt _ _) rfl
      · grind
  · rw [if_neg hfull]
    refine h.exchange (fun _ ↦ Selection.Follows.rfl) ?_ ?_ ?_ ?_
    · exact hdelivered
    · grind
    · grind [Peer.other]
    · grind

/-! ## One step -/

/-- A call of the system passes bytes that there is room for, or would block where there is none. -/
theorem transfer_cases {room length : Nat} (h : Answers room length answers = true)
    (zeroError : Int) :
    (∃ n error, n ≤ room ∧ n ≤ length ∧
      TcpSocket.nonBlockingTransfer length zeroError answers = some (true, n, error)) ∨
    (room = 0 ∧ ∃ error,
      TcpSocket.nonBlockingTransfer length zeroError answers = some (false, 0, error)) := by
  unfold Answers at h
  rw [TcpSocket.nonBlockingTransfer_eq]
  cases hanswer : conclusive answers with
  | none => simp [hanswer] at h
  | some answer =>
    cases answer with
    | count n =>
      simp only [hanswer, decide_eq_true_eq] at h
      exact Or.inl ⟨min n length, _, h.1, Nat.min_le_right n length, rfl⟩
    | errno e =>
      simp only [hanswer, decide_eq_true_eq] at h
      by_cases hagain : e = Errno.eagain
      · exact Or.inr ⟨h hagain, e, by simp [hagain]⟩
      · exact Or.inl ⟨0, e, Nat.zero_le _, Nat.zero_le _, by simp [hagain]⟩

theorem attempt_writeSome {room : Nat} {data : List UInt8}
    (h : Answers room data.length answers = true) (w : WriteStream.State) (error : Int) :
    (∃ n error', n ≤ room ∧ n ≤ data.length ∧
      (WriteStream.writeSomeOperation data).attempt true answers w error =
        some (.ends (.done (w.send data 0 n) error'))) ∨
    (room = 0 ∧ ∃ error',
      (WriteStream.writeSomeOperation data).attempt true answers w error =
        some (.blocks (w.send data 0 0) error')) := by
  rcases transfer_cases h 0 with ⟨n, error', hroom, hlength, hsend⟩ | ⟨hroom, error', hsend⟩
  · refine Or.inl ⟨n, if error' = Errno.epipe then Error.remotelyClosed else error', hroom, hlength,
      ?_⟩
    simp only [Operation.attempt, WriteStream.writeSomeOperation, WriteStream.writeOperation,
      TcpSocket.nonBlockingSend, hsend, if_true, Flow.of]
  · refine Or.inr ⟨hroom, error', ?_⟩
    simp only [Operation.attempt, WriteStream.writeSomeOperation, WriteStream.writeOperation,
      TcpSocket.nonBlockingSend, hsend, if_true]

theorem attempt_readSome {room size : Nat} (bytes : Nat → UInt8)
    (h : Answers room size answers = true) (r : ReadStream.State) (error : Int) :
    (∃ n error', n ≤ room ∧ n ≤ size ∧
      (ReadStream.readSomeOperation bytes size).attempt true answers r error =
        some (.ends (.done (r.receive bytes 0 n) error'))) ∨
    (room = 0 ∧ ∃ error',
      (ReadStream.readSomeOperation bytes size).attempt true answers r error =
        some (.blocks (r.receive bytes 0 0) error')) := by
  rcases transfer_cases h error with
    ⟨n, error', hroom, hlength, hreceive⟩ | ⟨hroom, error', hreceive⟩
  · refine Or.inl ⟨n, if n = 0 then Error.remotelyClosed else error', hroom, hlength, ?_⟩
    simp only [Operation.attempt, ReadStream.readSomeOperation, ReadStream.readOperation,
      TcpSocket.nonBlockingReceive, hreceive, if_true, Flow.of]
    rfl
  · refine Or.inr ⟨hroom, error', ?_⟩
    simp only [Operation.attempt, ReadStream.readSomeOperation, ReadStream.readOperation,
      TcpSocket.nonBlockingReceive, hreceive, if_true]

/-- The first bytes of the stream are in the buffer. -/
theorem map_buffer (r : ReadStream.State) (bytes : List UInt8) {n : Nat} (hr : r.taken = 0)
    (hn : n ≤ bytes.length) :
    (List.range n).map (r.receive (stream bytes) 0 n).buffer = bytes.take n := by
  apply List.ext_getElem
  · simp [hn]
  · intro i hi hi'
    simp at hi
    simp [ReadStream.State.receive, stream, hr, hi, show i < bytes.length by omega]

/-- An operation of the fiber has nothing to pass. -/
def Blocks (s : StreamPair) (capacity : Nat) (p : Peer) : EventType → Prop
  | .eventIn => s.pipe p.other = []
  | .eventOut => capacity ≤ (s.pipe p).length

theorem Inv.block (h : Inv capacity s) {event : EventType} {selection : Selection}
    (hstep : (s.selection p).step (.block event) = some selection)
    (hblocks : s.Blocks capacity p event) : Inv capacity (s.setSelection p selection) := by
  have hselection := Selection.block_cases hstep
  have hside : ∀ e, e ≠ event → selection.side e = (s.selection p).side e := by
    intro e he
    rw [hselection]
    exact Selection.setSide_side_of_ne _ _ he
  have hself : selection.side event = { (s.selection p).side event with
      fiber := .blocked, blockedAt := (s.selection p).edges.length } := by
    rw [hselection]
    exact Selection.setSide_side_self _ _ _
  have hedges : selection.edges = (s.selection p).edges := by
    rw [hselection]
    rfl
  have hold := h.blockedAt
  have hreadable := h.readable
  have hwritable := h.writable
  refine ⟨fun q e ↦ ?_, h.inOrder, h.bounded, fun q hwaits hne ↦ ?_, fun q hwaits hlt ↦ ?_⟩
  · by_cases hq : q = p
    · rw [hq, setSelection_self, hedges]
      by_cases he : e = event
      · exact Nat.le_of_eq (by rw [he, hself])
      · rw [hside e he]
        exact hold p e
    · rw [setSelection_of_ne s selection hq]
      exact hold q e
  · by_cases hq : q = p
    · subst hq
      rw [setSelection_self] at hwaits ⊢
      cases event with
      | eventIn => exact absurd hblocks hne
      | eventOut =>
        have htold := hreadable q (by rw [← hside _ (by decide)]; exact hwaits) hne
        unfold Selection.Told at *
        rw [hedges, hside _ (by decide)]
        exact htold
    · rw [setSelection_of_ne s selection hq] at hwaits ⊢
      exact hreadable q hwaits hne
  · by_cases hq : q = p
    · subst hq
      rw [setSelection_self] at hwaits ⊢
      cases event with
      | eventIn =>
        have htold := hwritable q (by rw [← hside _ (by decide)]; exact hwaits) hlt
        unfold Selection.Told at *
        rw [hedges, hside _ (by decide)]
        exact htold
      | eventOut => exact absurd hlt (Nat.not_lt.mpr hblocks)
    · rw [setSelection_of_ne s selection hq] at hwaits ⊢
      exact hwritable q hwaits hlt

theorem Inv.goOn (h : Inv capacity s) {action : Selection.Action} {selection : Selection}
    (hstep : (s.selection p).step action = some selection)
    (hblock : ∀ event, action ≠ .block event)
    (hselection : t.selection = (s.setSelection p selection).selection)
    (hpipe : t.pipe = s.pipe) (hsent : t.sent = s.sent) (hreceived : t.received = s.received) :
    Inv capacity t := by
  refine h.follows (fun q ↦ ?_) hpipe hsent hreceived
  rw [hselection]
  exact follows_setSelection (Selection.follows_step hstep hblock) q

theorem Inv.step {action : Action} (h : Inv capacity s)
    (hstep : s.step capacity action = some t) : Inv capacity t := by
  cases action with
  | writeSome p data timed =>
    rw [StreamPair.step, Option.map_eq_some_iff] at hstep
    obtain ⟨selection, hselection, rfl⟩ := hstep
    exact h.goOn hselection (by simp) rfl rfl rfl rfl
  | readSome p size timed =>
    rw [StreamPair.step, Option.map_eq_some_iff] at hstep
    obtain ⟨selection, hselection, rfl⟩ := hstep
    exact h.goOn hselection (by simp) rfl rfl rfl rfl
  | send p answers =>
    rw [StreamPair.step, Option.ite_none_right_eq_some] at hstep
    obtain ⟨hanswers, hstep⟩ := hstep
    have hbounded := h.bounded p
    rcases attempt_writeSome hanswers (s.writer p).1 (s.writer p).2 with
      ⟨n, error, hroom, hlength, hattempt⟩ | ⟨hroom, error, hattempt⟩
    · simp only [hattempt, Option.map_eq_some_iff] at hstep
      obtain ⟨selection, hselection, rfl⟩ := hstep
      apply Inv.transmit
      · exact h.goOn hselection (by simp) rfl rfl rfl rfl
      · show (s.pipe p).length + ((s.data p).take n).length ≤ capacity
        rw [List.length_take]
        omega
    · simp only [hattempt, Option.map_eq_some_iff] at hstep
      obtain ⟨selection, hselection, rfl⟩ := hstep
      have hblocks : s.Blocks capacity p .eventOut := Nat.sub_eq_zero_iff_le.mp hroom
      exact (h.block hselection hblocks).follows (fun _ ↦ Selection.Follows.rfl) rfl rfl rfl
  | receive p answers =>
    rw [StreamPair.step, Option.ite_none_right_eq_some] at hstep
    obtain ⟨hanswers, hstep⟩ := hstep
    rcases attempt_readSome (stream (s.pipe p.other)) hanswers
      { (s.reader p).1 with taken := 0 } (s.reader p).2 with
      ⟨n, error, hroom, hlength, hattempt⟩ | ⟨hroom, error, hattempt⟩
    · simp only [hattempt, Option.map_eq_some_iff] at hstep
      obtain ⟨selection, hselection, rfl⟩ := hstep
      apply Inv.deliver
      · exact h.goOn hselection (by simp) rfl rfl rfl rfl
      · exact map_buffer _ (s.pipe p.other) rfl hroom
    · simp only [hattempt, Option.map_eq_some_iff] at hstep
      obtain ⟨selection, hselection, rfl⟩ := hstep
      have hblocks : s.Blocks capacity p .eventIn := List.length_eq_zero_iff.mp hroom
      exact (h.block hselection hblocks).follows (fun _ ↦ Selection.Follows.rfl) rfl rfl rfl
  | select p action =>
    rw [StreamPair.step, Option.ite_none_right_eq_some, Option.map_eq_some_iff] at hstep
    obtain ⟨hselects, selection, hselection, rfl⟩ := hstep
    refine h.goOn hselection ?_ rfl rfl rfl rfl
    rintro event rfl
    contradiction

theorem Inv.sound (h : Inv capacity s) (hselection : ∀ p, (s.selection p).Inv) :
    Sound capacity s := by
  have htold : s.Settled → ∀ p event, s.parked p event → ¬ (s.selection p).Told event := by
    intro hsettled p event hparked
    exact (hselection p).not_told_of_settled hparked (hsettled p .take trivial)
      (fun i ↦ hsettled p (.dispatch i) trivial) (hsettled p (.notifyLocked event) trivial)
      (hsettled p (.wake event) trivial)
  have hdrained : s.Settled → ∀ p, s.parked p .eventIn → s.pipe p.other = [] := by
    intro hsettled p hparked
    by_contra hne
    exact htold hsettled p .eventIn hparked (h.readable p (by rw [hparked]; rfl) hne)
  have hfull : s.Settled → ∀ p, s.parked p .eventOut → (s.pipe p).length = capacity := by
    intro hsettled p hparked
    by_contra hne
    have hlt := Nat.lt_of_le_of_ne (h.bounded p) hne
    exact htold hsettled p .eventOut hparked (h.writable p (by rw [hparked]; rfl) hlt)
  refine ⟨h.inOrder, h.bounded, fun hsettled p hparked ↦ ?_, hfull, ?_⟩
  · have hinOrder := h.inOrder p.other
    rw [hdrained hsettled p hparked, List.append_nil, Peer.other_other] at hinOrder
    exact hinOrder
  · rintro hcapacity hsettled p ⟨hwriter, hreader⟩
    have hlength := hfull hsettled p hwriter
    have hempty := hdrained hsettled p.other hreader
    rw [Peer.other_other] at hempty
    rw [hempty, List.length_nil] at hlength
    omega

/-- A reader waits for bytes, and a writer for room, which the end of the read makes. -/
def readAndWrite : List Action :=
  [.readSome .far 4 false, .receive .far [.errno Errno.eagain], .select .far (.wait .eventIn),
    .writeSome .near [1, 2, 3] false, .send .near [.count 2], .writeSome .near [3] false,
    .send .near [.errno Errno.eagain], .select .near (.wait .eventOut), .select .far .take,
    .select .far (.dispatch 0), .select .far (.notifyLocked .eventIn),
    .select .far (.wake .eventIn), .receive .far [.count 2], .select .near .take,
    .select .near (.dispatch 0), .select .near (.notifyLocked .eventOut),
    .select .near (.wake .eventOut), .send .near [.errno Errno.eintr, .count 1]]

variable {ends : Peer → Selection}

/-- The step of an end is one of a connection over which the near end writes and the far end reads,
without timeouts, and the near end is not told of anything to read. -/
def Towards : Peer → Selection.Action → Bool
  | .near, .start event timed => event == .eventOut && !timed
  | .far, .start event timed => event == .eventIn && !timed
  | .near, .edge events => !events.concerns .eventIn
  | .near, _ | .far, _ => true

structure Directed (ends : Peer → Selection) : Prop where
  untimed : ∀ p, (ends p).Untimed
  near : ((ends .near).side .eventIn).fiber = .idle
  far : ((ends .far).side .eventOut).fiber = .idle
  edges : ∀ edge ∈ (ends .near).edges, edge.concerns .eventIn = false
  registered : ∀ p, EpollSelector.EpollData.fd (ends p).notifier.address ≠ (ends p).signalFd

theorem Directed.step (h : Directed ends) (hinv : (ends p).Inv) {action : Selection.Action}
    {selection : Selection} (hrange : (ends p).InRange action)
    (hstep : (ends p).step action = some selection) (haction : Towards p action = true) :
    Directed (fun q ↦ if q = p then selection else ends q) := by
  have huntimed : selection.Untimed := by
    refine (h.untimed p).step hinv.balanced hrange hstep ?_
    rintro event rfl
    cases p <;> simp [Towards] at haction
  have hregistered :
      EpollSelector.EpollData.fd selection.notifier.address ≠ selection.signalFd := by
    obtain ⟨hsignalFd, hnotifier⟩ := Selection.registration_step hstep
    rw [hsignalFd, hnotifier]
    exact h.registered p
  cases p with
  | near =>
    refine ⟨fun q ↦ ?_, ?_, h.far, fun edge hedge ↦ ?_, fun q ↦ ?_⟩
    · cases q with
      | near => exact huntimed
      | far => exact h.untimed .far
    · refine Selection.idle_step h.near hstep ?_
      rintro timed rfl
      contradiction
    · rcases Selection.edges_step hstep with hedges | ⟨events, rfl, hedges⟩
      · exact h.edges edge (hedges ▸ hedge)
      · rcases List.mem_append.mp (hedges ▸ hedge) with hedge | hedge
        · exact h.edges edge hedge
        · rw [List.mem_singleton.mp hedge]
          simpa [Towards] using haction
    · cases q with
      | near => exact hregistered
      | far => exact h.registered .far
  | far =>
    refine ⟨fun q ↦ ?_, h.near, ?_, h.edges, fun q ↦ ?_⟩
    · cases q with
      | near => exact h.untimed .near
      | far => exact huntimed
    · refine Selection.idle_step h.far hstep ?_
      rintro timed rfl
      contradiction
    · cases q with
      | near => exact h.registered .near
      | far => exact hregistered

theorem Directed.edge (h : Directed ends) (hinv : (ends p).Inv) {events : Events}
    (hevents : Towards p (.edge events) = true) :
    Directed (fun q ↦ if q = p then { ends p with edges := (ends p).edges ++ [events] }
      else ends q) :=
  h.step hinv (by trivial) rfl hevents

end StreamPair

end Ustevent.Net
