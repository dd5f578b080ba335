import Ustevent.Net.EventOperation

/-!
# Non-blocking transfers

`TcpSocket::nonBlockingReceive` and `TcpSocket::nonBlockingSend` call the system until it answers
with something else than `EINTR`.  The streams keep a cursor into the caller's block, which both of
them move on in the same way after a transfer.
-/

namespace Ustevent.Net

/-- What the system answers to `recvmsg` or `sendmsg`: it has a number of bytes to pass, of which it
passes as many as the call has room for, or the call fails. -/
inductive Answer
  | count (n : Nat)
  | errno (e : Nat)
deriving DecidableEq

namespace TcpSocket

/-- Returns whether the call is finished, `*transferred` and `*error`, which is `zeroError` if the
system passes no byte. -/
def nonBlockingTransfer (length : Nat) (zeroError : Int) :
    List Answer → Option (Bool × Nat × Int)
  | [] => none
  | .count n :: _ =>
    if 0 < min n length then some (true, min n length, 0) else some (true, 0, zeroError)
  | .errno e :: answers =>
    if e = Errno.eagain then some (false, 0, e)
    else if e = Errno.eintr then nonBlockingTransfer length zeroError answers
    else some (true, 0, e)

def nonBlockingReceive (length : Nat) (answers : List Answer) (error : Int) :
    Option (Bool × Nat × Int) :=
  -- at the end of the stream *error stays what it was
  nonBlockingTransfer length error answers

def nonBlockingSend (length : Nat) (answers : List Answer) : Option (Bool × Nat × Int) :=
  -- errno was set to 0 before a sendmsg that returns 0
  nonBlockingTransfer length 0 answers

end TcpSocket

/-- The bytes that pass when the system answers so to a call for `length` bytes. -/
def delivered (length : Nat) : List Answer → Nat
  | [] => 0
  | .count n :: _ => min n length
  | .errno e :: answers => if e = Errno.eintr then delivered length answers else 0

/-- The turn makes a call, and bytes pass in it. -/
def Turn.delivers (length : Nat) (t : Turn (List Answer)) : Bool :=
  t.isOpen && decide (0 < delivered length t.answers)

/-- A call that would block, a wait, and then a call in which `n` bytes pass. -/
def waitThenCount (n : Nat) : List (Turn (List Answer)) :=
  [⟨true, [.errno Errno.eagain], true, false⟩, ⟨true, [.errno Errno.eintr, .count n], true, false⟩]

/-- What a call that returns says about the bytes that passed. -/
structure Transferred (length : Nat) (answers : List Answer) (n : Nat) (finished : Bool)
    (error : Int) : Prop where
  eq : n = delivered length answers
  le : n ≤ length
  pending : finished = false → n = 0
  passed : 0 < n → finished = true ∧ error = 0

theorem TcpSocket.nonBlockingTransfer_spec {length n : Nat} {zeroError error : Int}
    {answers : List Answer} {finished : Bool}
    (h : nonBlockingTransfer length zeroError answers = some (finished, n, error)) :
    Transferred length answers n finished error := by
  induction answers with
  | nil => exact absurd h (by simp [nonBlockingTransfer])
  | cons answer answers ih =>
    cases answer with
    | count k =>
      rw [nonBlockingTransfer] at h
      by_cases hpos : 0 < min k length
      · rw [if_pos hpos] at h
        cases h
        exact ⟨rfl, Nat.min_le_right k length, by simp, fun _ ↦ ⟨rfl, rfl⟩⟩
      · rw [if_neg hpos] at h
        cases h
        exact ⟨by rw [delivered]; omega, Nat.zero_le length, by simp, by simp⟩
    | errno e =>
      rw [nonBlockingTransfer] at h
      by_cases hagain : e = Errno.eagain
      · rw [if_pos hagain] at h
        cases h
        exact ⟨by rw [hagain]; rfl, Nat.zero_le length, fun _ ↦ rfl, by simp⟩
      rw [if_neg hagain] at h
      by_cases hintr : e = Errno.eintr
      · rw [if_pos hintr] at h
        have ⟨heq, hle, hpending, hpassed⟩ := ih h
        exact ⟨by rw [delivered, if_pos hintr]; exact heq, hle, hpending, hpassed⟩
      · rw [if_neg hintr] at h
        cases h
        exact ⟨by rw [delivered, if_neg hintr], Nat.zero_le length, by simp, by simp⟩

theorem Transferred.eq_zero {length n : Nat} {t : Turn (List Answer)} {finished : Bool}
    {error : Int} (h : Transferred length t.answers n finished error) (hopen : t.isOpen = true)
    (hidle : t.delivers length = false) : n = 0 := by
  have heq := h.eq
  simp only [Turn.delivers, hopen, Bool.true_and, decide_eq_false_iff_not] at hidle
  omega

theorem Transferred.pos {length n : Nat} {t : Turn (List Answer)} {finished : Bool} {error : Int}
    (h : Transferred length t.answers n finished error) (hdelivers : t.delivers length = true) :
    0 < n := by
  have heq := h.eq
  simp only [Turn.delivers, Bool.and_eq_true, decide_eq_true_eq] at hdelivers
  omega

/-! ## The cursor -/

/-- `next_buffer` or `next_data` relative to the start of the block, `next_size`, and whether
`assert(false)` was reached. -/
structure Cursor where
  next : Nat
  nextSize : Nat
  asserted : Bool
deriving DecidableEq

namespace Cursor

def initial (size : Nat) : Cursor := ⟨0, size, false⟩

/-- The last branches of both `on_operated` functions. -/
def advance (c : Cursor) (bytes : Nat) : Bool × Cursor :=
  if bytes < c.nextSize then
    (false, { c with next := c.next + bytes, nextSize := c.nextSize - bytes })
  else if bytes = c.nextSize then (true, { c with next := c.next + bytes, nextSize := 0 })
  else (true, { c with asserted := true })

/-- The cursor is after the first `n` bytes of a block of `size` bytes. -/
structure At (c : Cursor) (n size : Nat) : Prop where
  next : c.next = n
  nextSize : c.nextSize = size - n
  le : n ≤ size
  asserted : c.asserted = false

theorem initial_at (size : Nat) : (initial size).At 0 size :=
  ⟨rfl, rfl, Nat.zero_le size, rfl⟩

theorem advance_at {c : Cursor} {n size bytes : Nat} (h : c.At n size) (hle : n + bytes ≤ size) :
    (c.advance bytes).2.At (n + bytes) size ∧
      ((c.advance bytes).1 = true ↔ n + bytes = size) := by
  have ⟨hnext, hsize, hn, hasserted⟩ := h
  unfold advance
  by_cases hlt : bytes < c.nextSize
  · rw [if_pos hlt]
    exact ⟨⟨by simp only [hnext], by simp only [hsize]; omega, hle, hasserted⟩,
      by simp only [Bool.false_eq_true, false_iff]; omega⟩
  · rw [if_neg hlt, if_pos (by omega)]
    exact ⟨⟨by simp only [hnext], by simp only; omega, hle, hasserted⟩,
      by simp only [true_iff]; omega⟩

theorem advance_zero (c : Cursor) : c.advance 0 = (decide (c.nextSize = 0), c) := by
  unfold advance
  by_cases hsize : c.nextSize = 0
  · rw [if_neg (by omega), if_pos hsize.symm, decide_eq_true hsize]
    cases c
    cases hsize
    rfl
  · rw [if_pos (by omega), decide_eq_false hsize]
    rfl

theorem next_le_advance (c : Cursor) (bytes : Nat) : c.next ≤ (c.advance bytes).2.next := by
  unfold advance
  split
  · exact Nat.le_add_right c.next bytes
  · split
    · exact Nat.le_add_right c.next bytes
    · exact Nat.le_refl c.next

end Cursor

end Ustevent.Net
