import Ustevent.Net.Transfer

/-!
# Reading a block from a stream

`ReactorSyncReadStream::read` over `TcpSocket::nonBlockingReceive`.  The operation captures
`next_buffer` and `next_size` by value, so that every receive of a call has the whole block as its
room, while the cursor moves on in `on_operated`.
-/

namespace Ustevent.Net.ReadStream

/-- The caller's block, the number of bytes taken from the stream and the captured variables. -/
structure State where
  buffer : Nat → UInt8
  taken : Nat
  bytesRead : Nat
  cursor : Cursor

def State.initial (buffer : Nat → UInt8) (size : Nat) : State := ⟨buffer, 0, 0, Cursor.initial size⟩

/-- The system copies the next `n` bytes of the stream to `nextBuffer`. -/
def State.receive (stream : Nat → UInt8) (nextBuffer n : Nat) (s : State) : State :=
  { s with
    buffer := fun i ↦
      if nextBuffer ≤ i ∧ i < nextBuffer + n then stream (s.taken + (i - nextBuffer))
      else s.buffer i
    taken := s.taken + n
    bytesRead := n }

def onOperated (s : State) (error : Int) : Bool × State × Int :=
  if error ≠ 0 then (true, s, error)
  else if s.bytesRead = 0 then (true, s, Error.remotelyClosed)
  else
    let (finished, cursor) := s.cursor.advance s.bytesRead
    (finished, { s with cursor }, error)

/-- `nextBuffer` and `nextSize` are the values that the operation has captured. -/
def readOperation (stream : Nat → UInt8) (nextBuffer nextSize : Nat) :
    Operation State (List Answer) where
  nonBlockingOperation answers s error :=
    match TcpSocket.nonBlockingReceive nextSize answers error with
    | none => none
    | some (finished, transferred, error) =>
      some (finished, s.receive stream nextBuffer transferred, error)
  onOperated := onOperated
  onNotified s error := (false, s, error)

/-- The state in which the call returns, `error`, and the turns that are left.  The call returns
`cursor.next` as the number of bytes. -/
def read (object : Bool) (stream buffer : Nat → UInt8) (size : Nat) (timeout : Int)
    (turns : List (Turn (List Answer))) : Option (State × Int × List (Turn (List Answer))) :=
  let s := State.initial buffer size
  (readOperation stream s.cursor.next s.cursor.nextSize).perform object timeout turns s

/-- What a caller of `read` relies on. -/
structure Right (stream : Nat → UInt8) (size : Nat) (s : State) (error : Int) : Prop where
  bytes : ∀ i, i < s.cursor.next → s.buffer i = stream i
  taken : s.cursor.next = s.taken
  le : s.cursor.next ≤ size
  full : error = 0 → s.cursor.next = size
  asserted : s.cursor.asserted = false

/-! ## One turn -/

variable {stream : Nat → UInt8} {size : Nat} {timeout : Int} {t : Turn (List Answer)} {s : State}
  {error : Int} {flow : Flow State}

/-- The states differ in `bytes_read` at most. -/
def Same (s s' : State) : Prop :=
  s'.buffer = s.buffer ∧ s'.taken = s.taken ∧ s'.cursor = s.cursor

theorem receive_zero (stream : Nat → UInt8) (nextBuffer : Nat) (s : State) :
    Same s (s.receive stream nextBuffer 0) := by
  refine ⟨funext fun i ↦ ?_, Nat.add_zero s.taken, rfl⟩
  rw [State.receive]
  exact if_neg (by omega)

theorem operation_spec {answers : List Answer} {finished : Bool} {s' : State} {error' : Int}
    (hcall : (readOperation stream 0 size).nonBlockingOperation answers s error =
      some (finished, s', error')) :
    ∃ n, s' = s.receive stream 0 n ∧ Transferred size answers n finished error' := by
  dsimp only [readOperation] at hcall
  split at hcall
  · exact absurd hcall (by simp)
  · rename_i hreceive
    cases hcall
    exact ⟨_, rfl, TcpSocket.nonBlockingTransfer_spec hreceive⟩

/-- A turn in which no byte passes leaves the state as it is, and ends the call with an error if it
ends it. -/
theorem turn_idle (hidle : t.delivers size = false)
    (hturn : (readOperation stream 0 size).turn timeout t s error = some flow) :
    flow.Leads (fun s' _ ↦ Same s s') (fun s' error' ↦ Same s s' ∧ error' ≠ 0) := by
  have hsame := receive_zero stream 0 s
  cases Operation.turn_passes hturn with
  | closed => exact ⟨⟨rfl, rfl, rfl⟩, by decide⟩
  | finished hopen hcall =>
    have ⟨n, hs, hspec⟩ := operation_spec hcall
    subst hs
    rw [hspec.eq_zero hopen hidle]
    -- with an error or without a byte the call is over
    dsimp only [readOperation, onOperated]
    split
    · rename_i herror
      exact ⟨hsame, herror⟩
    · rw [if_pos (show (s.receive stream 0 0).bytesRead = 0 from rfl)]
      exact ⟨hsame, by decide⟩
  | timedOut hopen hcall =>
    have ⟨n, hs, hspec⟩ := operation_spec hcall
    rw [hs, hspec.eq_zero hopen hidle]
    exact ⟨hsame, by decide⟩
  | interrupted hopen hcall =>
    have ⟨n, hs, hspec⟩ := operation_spec hcall
    rw [hs, hspec.eq_zero hopen hidle]
    exact ⟨hsame, by decide⟩
  | notified hopen hcall =>
    have ⟨n, hs, hspec⟩ := operation_spec hcall
    rw [hs, hspec.eq_zero hopen hidle]
    exact hsame

/-- A turn in which bytes pass writes them to the start of the block. -/
theorem turn_delivers (hdelivers : t.delivers size = true)
    (hturn : (readOperation stream 0 size).turn timeout t s error = some flow) :
    ∃ n, 0 < n ∧ n ≤ size ∧ flow = Flow.of ((s.cursor.advance n).1,
      { s.receive stream 0 n with cursor := (s.cursor.advance n).2 }, 0) := by
  cases Operation.turn_passes hturn with
  | closed hopen => exact absurd hdelivers (by simp [Turn.delivers, hopen])
  | finished hopen hcall =>
    obtain ⟨n, hs, hspec⟩ := operation_spec hcall
    have hpos := hspec.pos hdelivers
    have hne : (s.receive stream 0 n).bytesRead ≠ 0 := Nat.pos_iff_ne_zero.mp hpos
    refine ⟨n, hpos, hspec.le, congrArg Flow.of ?_⟩
    rw [hs, (hspec.passed hpos).2]
    dsimp only [readOperation, onOperated]
    rw [if_neg (by decide), if_neg hne]
    rfl
  | timedOut _ hcall | interrupted _ hcall | notified _ hcall =>
    -- the call would block, so that no byte passes
    obtain ⟨n, _, hspec⟩ := operation_spec hcall
    have hpos := hspec.pos hdelivers
    exact absurd (hspec.pending rfl) (by omega)

/-! ## A call in which bytes pass once -/

/-- The first `n` bytes of the stream are in the block, and the cursor is after them. -/
structure Holds (stream : Nat → UInt8) (size n : Nat) (s : State) : Prop where
  cursor : s.cursor.At n size
  taken : s.taken = n
  bytes : ∀ i, i < n → s.buffer i = stream i

theorem holds_initial (stream buffer : Nat → UInt8) (size : Nat) :
    Holds stream size 0 (State.initial buffer size) :=
  ⟨Cursor.initial_at size, rfl, fun i hi ↦ absurd hi (Nat.not_lt_zero i)⟩

theorem Holds.same {n : Nat} {s s' : State} (h : Holds stream size n s) (hsame : Same s s') :
    Holds stream size n s' := by
  have ⟨hbuffer, htaken, hcursor⟩ := hsame
  exact ⟨hcursor ▸ h.cursor, htaken.trans h.taken, fun i hi ↦ by rw [hbuffer]; exact h.bytes i hi⟩

theorem Holds.right {n : Nat} (h : Holds stream size n s) (hfull : error = 0 → n = size) :
    Right stream size s error := by
  have hnext := h.cursor.next
  exact ⟨fun i hi ↦ h.bytes i (hnext ▸ hi), hnext.trans h.taken.symm, hnext ▸ h.cursor.le,
    fun herror ↦ hnext.trans (hfull herror), h.cursor.asserted⟩

theorem Holds.receive {n : Nat} (h : Holds stream size 0 s) (hle : n ≤ size) :
    Holds stream size n { s.receive stream 0 n with cursor := (s.cursor.advance n).2 } ∧
      ((s.cursor.advance n).1 = true → n = size) := by
  have ⟨hat, hfull⟩ := Cursor.advance_at h.cursor (show 0 + n ≤ size by omega)
  rw [Nat.zero_add] at hat hfull
  refine ⟨⟨hat, by simp only [State.receive, h.taken, Nat.zero_add], ?_⟩, hfull.mp⟩
  intro i hi
  simp only [State.receive, h.taken, Nat.zero_add, Nat.sub_zero, Nat.zero_le, true_and]
  exact if_pos hi

theorem right_of_loop {turns rest : List (Turn (List Answer))} {s' : State} {error' : Int}
    (honce : turns.countP (Turn.delivers size) ≤ 1) (hs : Holds stream size 0 s)
    (hloop : (readOperation stream 0 size).loop timeout turns s error = some (s', error', rest)) :
    Right stream size s' error' := by
  apply Operation.loop_once (Holds stream size) (Right stream size) ?_ ?_ honce hs hloop
  · intro t n s error flow hidle hholds hturn
    apply (turn_idle hidle hturn).mono
    · exact fun _ _ hsame ↦ hholds.same hsame
    · exact fun _ _ h ↦ (hholds.same h.1).right fun hzero ↦ absurd hzero h.2
  · intro t s error flow hdelivers hholds hturn
    have ⟨n, _, hle, hflow⟩ := turn_delivers hdelivers hturn
    have ⟨hholds, hfull⟩ := hholds.receive hle
    rw [hflow]
    apply Flow.leads_of
    · exact fun _ ↦ ⟨n, hholds⟩
    · exact fun hfinished ↦ hholds.right fun _ ↦ hfull hfinished

/-! ## A call in which bytes pass twice -/

/-- A stream whose first byte does not come again. -/
def marked (i : Nat) : UInt8 := if i = 0 then 1 else 0

structure Begun (s : State) : Prop where
  taken : 0 < s.taken
  next : 0 < s.cursor.next

/-- A later byte of the stream is in the place of the first one. -/
structure Spoiled (s : State) : Prop extends Begun s where
  first : s.buffer 0 = 0

theorem Begun.same {s s' : State} (h : Begun s) (hsame : Same s s') : Begun s' :=
  ⟨by rw [hsame.2.1]; exact h.taken, by rw [hsame.2.2]; exact h.next⟩

theorem Spoiled.same {s s' : State} (h : Spoiled s) (hsame : Same s s') : Spoiled s' :=
  ⟨h.toBegun.same hsame, by rw [hsame.1]; exact h.first⟩

theorem Begun.receive {n : Nat} (h : Begun s) (hpos : 0 < n) :
    Spoiled { s.receive marked 0 n with cursor := (s.cursor.advance n).2 } := by
  have htaken := h.taken
  refine ⟨⟨Nat.add_pos_left h.taken n, Nat.lt_of_lt_of_le h.next (s.cursor.next_le_advance n)⟩, ?_⟩
  simp only [State.receive, Nat.sub_self, Nat.add_zero, Nat.zero_add, Nat.le_refl, true_and]
  rw [if_pos hpos]
  exact if_neg (by omega)

theorem Spoiled.not_right (h : Spoiled s) : ¬ Right marked size s error := by
  intro hright
  have hfirst := hright.bytes 0 h.next
  rw [h.first] at hfirst
  exact absurd hfirst (by decide)

theorem spoiled_of_loop {turns : List (Turn (List Answer))} {s' : State} {error' : Int}
    (htwice : 2 ≤ turns.countP (Turn.delivers size)) (hs : Holds marked size 0 s)
    (hloop : (readOperation marked 0 size).loop timeout turns s error = some (s', error', [])) :
    Spoiled s' := by
  apply Operation.loop_twice (Holds marked size 0) Begun Spoiled ?_ ?_ ?_ htwice hs hloop
  · intro t s error flow hidle hturn
    apply (turn_idle hidle hturn).mono
    · exact fun _ _ hsame ↦ ⟨fun h ↦ h.same hsame, fun h ↦ h.same hsame, fun h ↦ h.same hsame⟩
    · exact fun _ _ hsame h ↦ h.same hsame.1
  · intro t s error flow hdelivers hholds hturn
    have ⟨n, hpos, hle, hflow⟩ := turn_delivers hdelivers hturn
    have hholds := (hholds.receive hle).1
    have hbegun : Begun { s.receive marked 0 n with cursor := (s.cursor.advance n).2 } :=
      ⟨by rw [hholds.taken]; exact hpos, by rw [hholds.cursor.next]; exact hpos⟩
    rw [hflow]
    exact Flow.leads_of (fun _ ↦ hbegun) (fun _ ↦ trivial)
  · intro t s error flow hdelivers hbegun hturn
    have ⟨n, hpos, _, hflow⟩ := turn_delivers hdelivers hturn
    have hspoiled := (hbegun.elim id Spoiled.toBegun).receive hpos
    rw [hflow]
    exact Flow.leads_of (fun _ ↦ hspoiled) (fun _ ↦ hspoiled)

/-! ## read -/

/-- The states differ in bytes of the block at most. -/
def SameCounts (s s' : State) : Prop :=
  s'.taken = s.taken ∧ s'.bytesRead = s.bytesRead ∧ s'.cursor = s.cursor

theorem readOperation_follows (stream stream' : Nat → UInt8) (size : Nat) :
    (readOperation stream 0 size).Follows (readOperation stream' 0 size) SameCounts where
  nonBlockingOperation answers s s' error p hsame hcall := by
    dsimp only [readOperation] at hcall ⊢
    match TcpSocket.nonBlockingReceive size answers error, hcall with
    | some (finished, n, error'), rfl =>
      have ⟨htaken, _, hcursor⟩ := hsame
      exact ⟨_, rfl, rfl, ⟨congrArg (· + n) htaken, rfl, hcursor⟩, rfl⟩
  onOperated s s' error hsame := by
    have ⟨htaken, hread, hcursor⟩ := hsame
    dsimp only [readOperation, onOperated]
    rw [hread, hcursor]
    by_cases herror : error ≠ 0
    · rw [if_pos herror, if_pos herror]
      exact ⟨rfl, hsame, rfl⟩
    · rw [if_neg herror, if_neg herror]
      by_cases hzero : s.bytesRead = 0
      · rw [if_pos hzero, if_pos hzero]
        exact ⟨rfl, hsame, rfl⟩
      · rw [if_neg hzero, if_neg hzero]
        exact ⟨rfl, ⟨htaken, rfl, rfl⟩, rfl⟩
  onNotified _ _ _ hsame := ⟨rfl, hsame, rfl⟩

/-- A call that returns after the given turns reads the stream right, whatever bytes the stream and
the block hold, if and only if bytes pass in at most one of the turns. -/
theorem right_iff_delivers_once {object : Bool} {turns : List (Turn (List Answer))}
    (hreturns : ∃ stream buffer s error,
      read object stream buffer size timeout turns = some (s, error, [])) :
    (∀ stream buffer s error, read object stream buffer size timeout turns = some (s, error, []) →
      Right stream size s error) ↔ turns.countP (Turn.delivers size) ≤ 1 := by
  constructor
  · intro hright
    have ⟨stream, buffer, s, error, hread⟩ := hreturns
    have hsame : SameCounts (State.initial buffer size) (State.initial buffer size) :=
      ⟨rfl, rfl, rfl⟩
    have ⟨s', hread', _⟩ := (readOperation_follows stream marked size).perform hsame hread
    by_contra htwice
    unfold Operation.perform at hread'
    by_cases hobject : object = true
    · have hspoiled := spoiled_of_loop (by omega) (holds_initial marked buffer size)
        ((if_pos hobject).symm.trans hread')
      apply hspoiled.not_right
      apply hright marked buffer
      rw [read, Operation.perform, if_pos hobject]
      exact (if_pos hobject).symm.trans hread'
    · rw [if_neg hobject] at hread'
      cases hread'
      exact absurd htwice (by simp)
  · intro honce stream buffer s error hread
    rw [read, Operation.perform] at hread
    by_cases hobject : object = true
    · rw [if_pos hobject] at hread
      exact right_of_loop honce (holds_initial stream buffer size) hread
    · rw [if_neg hobject] at hread
      cases hread
      exact (holds_initial stream buffer size).right fun herror ↦ absurd herror (by decide)

theorem right_iff_delivers_once_whole :
    (waitThenCount 4).countP (Turn.delivers 4) ≤ 1 ∧
      ∀ stream buffer s error, read true stream buffer 4 (-1) (waitThenCount 4) = some (s, error, []) →
        Right stream 4 s error :=
  ⟨by decide, (right_iff_delivers_once ⟨marked, marked, _, _, rfl⟩).mpr (by decide)⟩

/-- Two halves of a block: the second one overwrites the first. -/
theorem not_right_halves :
    ¬ ∀ s error, read true marked (fun _ ↦ 0) 4 (-1) (waitThenCount 2 ++ waitThenCount 2) =
      some (s, error, []) → Right marked 4 s error := by
  intro h
  have hfirst := (h _ _ rfl).bytes 0 (by decide)
  exact absurd hfirst (by decide)

end Ustevent.Net.ReadStream
