import Ustevent.Net.Transfer

/-!
# Writing a block to a stream

`ReactorSyncWriteStream::write` over `TcpSocket::nonBlockingSend`.  As in a read, the operation has
`next_data` and `next_size` by value and offers the whole block to every send.
-/

namespace Ustevent.Net.WriteStream

/-- The bytes that the system has accepted and the captured variables. -/
structure State where
  accepted : List UInt8
  bytesWritten : Nat
  cursor : Cursor
deriving DecidableEq

def State.initial (size : Nat) : State := ⟨[], 0, Cursor.initial size⟩

/-- The system accepts `n` bytes of the block from `nextData` on. -/
def State.send (data : List UInt8) (nextData n : Nat) (s : State) : State :=
  { s with
    accepted := s.accepted ++ (data.drop nextData).take n
    bytesWritten := n }

def onOperated (s : State) (error : Int) : Bool × State × Int :=
  if error = Errno.epipe then (true, s, Error.remotelyClosed)
  else if error ≠ 0 then (true, s, error)
  else
    -- a send of no byte is not an error here, and is tried again
    let (finished, cursor) := s.cursor.advance s.bytesWritten
    (finished, { s with cursor }, error)

/-- `nextData` and `nextSize` are the values that the operation has captured. -/
def writeOperation (data : List UInt8) (nextData nextSize : Nat) :
    Operation State (List Answer) where
  nonBlockingOperation answers s _ :=
    match TcpSocket.nonBlockingSend nextSize answers with
    | none => none
    | some (finished, transferred, error) =>
      some (finished, s.send data nextData transferred, error)
  onOperated := onOperated
  onNotified s error := (false, s, error)

/-- As in `read`, the call returns `cursor.next` as the number of bytes. -/
def write (object : Bool) (data : List UInt8) (timeout : Int) (turns : List (Turn (List Answer))) :
    Option (State × Int × List (Turn (List Answer))) :=
  let s := State.initial data.length
  (writeOperation data s.cursor.next s.cursor.nextSize).perform object timeout turns s

/-- What a caller of `write` relies on. -/
structure Right (data : List UInt8) (s : State) (error : Int) : Prop where
  accepted : s.accepted = data.take s.cursor.next
  le : s.cursor.next ≤ data.length
  full : error = 0 → s.cursor.next = data.length
  asserted : s.cursor.asserted = false

/-! ## One turn -/

variable {data : List UInt8} {size : Nat} {timeout : Int} {t : Turn (List Answer)} {s : State}
  {error : Int} {flow : Flow State}

/-- The states differ in `bytes_written` at most. -/
def Same (s s' : State) : Prop := s'.accepted = s.accepted ∧ s'.cursor = s.cursor

theorem send_zero (data : List UInt8) (nextData : Nat) (s : State) :
    Same s (s.send data nextData 0) := by
  refine ⟨?_, rfl⟩
  rw [State.send, List.take_zero, List.append_nil]

theorem operation_spec {answers : List Answer} {finished : Bool} {s' : State} {error' : Int}
    (hcall : (writeOperation data 0 size).nonBlockingOperation answers s error =
      some (finished, s', error')) :
    ∃ n, s' = s.send data 0 n ∧ Transferred size answers n finished error' := by
  dsimp only [writeOperation] at hcall
  split at hcall
  · exact absurd hcall (by simp)
  · rename_i hsend
    cases hcall
    exact ⟨_, rfl, TcpSocket.nonBlockingTransfer_spec hsend⟩

/-- A turn in which no byte passes leaves the state as it is.  It ends the call without an error
only if there is nothing left to send. -/
theorem turn_idle (hidle : t.delivers size = false)
    (hturn : (writeOperation data 0 size).turn timeout t s error = some flow) :
    flow.Leads (fun s' _ ↦ Same s s')
      (fun s' error' ↦ Same s s' ∧ (error' = 0 → s.cursor.nextSize = 0)) := by
  have hsame := send_zero data 0 s
  cases Operation.turn_passes hturn with
  | closed => exact ⟨⟨rfl, rfl⟩, fun herror ↦ absurd herror (by decide)⟩
  | @finished s' error' hopen hcall =>
    have ⟨n, hs, hspec⟩ := operation_spec hcall
    rw [hs, hspec.eq_zero hopen hidle]
    dsimp only [writeOperation, onOperated]
    by_cases hpipe : error' = Errno.epipe
    · rw [if_pos hpipe]
      exact ⟨hsame, fun herror ↦ absurd herror (by decide)⟩
    rw [if_neg hpipe]
    by_cases herror : error' ≠ 0
    · rw [if_pos herror]
      exact ⟨hsame, fun hzero ↦ absurd hzero herror⟩
    rw [if_neg herror]
    have hadvance : s.cursor.advance (s.send data 0 0).bytesWritten =
      (decide (s.cursor.nextSize = 0), s.cursor) := s.cursor.advance_zero
    rw [show (s.send data 0 0).cursor = s.cursor from rfl, hadvance]
    exact Flow.leads_of (fun _ ↦ ⟨hsame.1, rfl⟩)
      (fun hfinished ↦ ⟨⟨hsame.1, rfl⟩, fun _ ↦ of_decide_eq_true hfinished⟩)
  | timedOut hopen hcall =>
    have ⟨n, hs, hspec⟩ := operation_spec hcall
    rw [hs, hspec.eq_zero hopen hidle]
    exact ⟨hsame, fun herror ↦ absurd herror (by decide)⟩
  | interrupted hopen hcall =>
    have ⟨n, hs, hspec⟩ := operation_spec hcall
    rw [hs, hspec.eq_zero hopen hidle]
    exact ⟨hsame, fun herror ↦ absurd herror (by decide)⟩
  | notified hopen hcall =>
    have ⟨n, hs, hspec⟩ := operation_spec hcall
    rw [hs, hspec.eq_zero hopen hidle]
    exact hsame

/-- In a turn in which bytes pass, the system accepts them from the start of the block. -/
theorem turn_delivers (hdelivers : t.delivers size = true)
    (hturn : (writeOperation data 0 size).turn timeout t s error = some flow) :
    ∃ n, 0 < n ∧ n ≤ size ∧ flow = Flow.of ((s.cursor.advance n).1,
      { s.send data 0 n with cursor := (s.cursor.advance n).2 }, 0) := by
  cases Operation.turn_passes hturn with
  | closed hopen => exact absurd hdelivers (by simp [Turn.delivers, hopen])
  | finished hopen hcall =>
    obtain ⟨n, hs, hspec⟩ := operation_spec hcall
    have hpos := hspec.pos hdelivers
    refine ⟨n, hpos, hspec.le, congrArg Flow.of ?_⟩
    rw [hs, (hspec.passed hpos).2]
    dsimp only [writeOperation, onOperated]
    rw [if_neg (by decide), if_neg (by decide)]
    rfl
  | timedOut _ hcall | interrupted _ hcall | notified _ hcall =>
    -- the call would block, so that no byte passes
    obtain ⟨n, _, hspec⟩ := operation_spec hcall
    have hpos := hspec.pos hdelivers
    exact absurd (hspec.pending rfl) (by omega)

/-! ## A call in which bytes pass once -/

/-- The system has accepted the first `n` bytes of the block, and the cursor is after them. -/
structure Holds (data : List UInt8) (n : Nat) (s : State) : Prop where
  cursor : s.cursor.At n data.length
  accepted : s.accepted = data.take n

theorem holds_initial (data : List UInt8) : Holds data 0 (State.initial data.length) :=
  ⟨Cursor.initial_at data.length, rfl⟩

theorem Holds.same {n : Nat} {s s' : State} (h : Holds data n s) (hsame : Same s s') :
    Holds data n s' :=
  ⟨hsame.2 ▸ h.cursor, hsame.1.trans h.accepted⟩

theorem Holds.right {n : Nat} (h : Holds data n s) (hfull : error = 0 → n = data.length) :
    Right data s error := by
  have hnext := h.cursor.next
  exact ⟨hnext ▸ h.accepted, hnext ▸ h.cursor.le, fun herror ↦ hnext.trans (hfull herror),
    h.cursor.asserted⟩

theorem Holds.send {n : Nat} (h : Holds data 0 s) (hle : n ≤ data.length) :
    Holds data n { s.send data 0 n with cursor := (s.cursor.advance n).2 } ∧
      ((s.cursor.advance n).1 = true → n = data.length) := by
  have ⟨hat, hfull⟩ := Cursor.advance_at h.cursor (show 0 + n ≤ data.length by omega)
  rw [Nat.zero_add] at hat hfull
  refine ⟨⟨hat, ?_⟩, hfull.mp⟩
  simp only [State.send, h.accepted, List.take_zero, List.nil_append, List.drop_zero]

theorem right_of_loop {turns rest : List (Turn (List Answer))} {s' : State} {error' : Int}
    (honce : turns.countP (Turn.delivers data.length) ≤ 1) (hs : Holds data 0 s)
    (hloop : (writeOperation data 0 data.length).loop timeout turns s error =
      some (s', error', rest)) : Right data s' error' := by
  apply Operation.loop_once (Holds data) (Right data) ?_ ?_ honce hs hloop
  · intro t n s error flow hidle hholds hturn
    apply (turn_idle hidle hturn).mono
    · exact fun _ _ hsame ↦ hholds.same hsame
    · intro s' error' ⟨hsame, hzero⟩
      apply (hholds.same hsame).right
      intro herror
      have hsize := hholds.cursor.nextSize
      have hle := hholds.cursor.le
      have := hzero herror
      omega
  · intro t s error flow hdelivers hholds hturn
    have ⟨n, _, hle, hflow⟩ := turn_delivers hdelivers hturn
    have ⟨hholds, hfull⟩ := hholds.send hle
    rw [hflow]
    apply Flow.leads_of
    · exact fun _ ↦ ⟨n, hholds⟩
    · exact fun hfinished ↦ hholds.right fun _ ↦ hfull hfinished

/-! ## A call in which bytes pass twice -/

/-- A block whose first byte does not come again. -/
def marked (size : Nat) : List UInt8 := (List.range size).map fun i ↦ if i = 0 then 1 else 0

theorem length_marked (size : Nat) : (marked size).length = size := by
  rw [marked, List.length_map, List.length_range]

theorem marked_ne_one {size k : Nat} (hpos : 0 < k) : (marked size)[k]? ≠ some 1 := by
  intro h
  simp only [marked, List.getElem?_map, Option.map_eq_some_iff] at h
  have ⟨i, hi, hone⟩ := h
  have hik : i = k := by
    rw [List.getElem?_range] at hi
    · exact (Option.some.inj hi).symm
    · by_contra hlt
      rw [List.getElem?_eq_none (by rw [List.length_range]; omega)] at hi
      exact absurd hi (by simp)
  rw [if_neg (by omega)] at hone
  exact absurd hone (by decide)

/-- The first byte of the block has been accepted again after other bytes. -/
def Spoiled (s : State) : Prop := ∃ k, 0 < k ∧ s.accepted[k]? = some 1

theorem Spoiled.same {s s' : State} (h : Spoiled s) (hsame : Same s s') : Spoiled s' := by
  have ⟨k, hpos, hone⟩ := h
  exact ⟨k, hpos, by rw [hsame.1]; exact hone⟩

theorem Spoiled.send {n : Nat} {c : Cursor} (h : Spoiled s) :
    Spoiled { s.send data 0 n with cursor := c } := by
  have ⟨k, hpos, hone⟩ := h
  refine ⟨k, hpos, ?_⟩
  have hlt := (List.getElem?_eq_some_iff.mp hone).1
  show (s.accepted ++ (data.drop 0).take n)[k]? = some 1
  rw [List.getElem?_append_left hlt]
  exact hone

theorem spoiled_of_nonempty {n : Nat} {c : Cursor} (h : s.accepted ≠ []) (hpos : 0 < n)
    (hle : n ≤ size) : Spoiled { s.send (marked size) 0 n with cursor := c } := by
  refine ⟨s.accepted.length, List.length_pos_iff.mpr h, ?_⟩
  show (s.accepted ++ ((marked size).drop 0).take n)[s.accepted.length]? = some 1
  rw [List.getElem?_append_right (Nat.le_refl _), Nat.sub_self, List.drop_zero,
    List.getElem?_take_of_lt hpos, marked, List.getElem?_map, List.getElem?_range (by omega)]
  rfl

theorem Spoiled.not_right (h : Spoiled s) : ¬ Right (marked size) s error := by
  intro hright
  have ⟨k, hpos, hone⟩ := h
  rw [hright.accepted, List.getElem?_take] at hone
  split at hone
  · exact marked_ne_one hpos hone
  · exact absurd hone (by simp)

theorem spoiled_of_loop {turns : List (Turn (List Answer))} {s' : State} {error' : Int}
    (htwice : 2 ≤ turns.countP (Turn.delivers size)) (hs : Holds (marked size) 0 s)
    (hloop : (writeOperation (marked size) 0 size).loop timeout turns s error =
      some (s', error', [])) : Spoiled s' := by
  apply Operation.loop_twice (Holds (marked size) 0) (·.accepted ≠ []) Spoiled ?_ ?_ ?_ htwice hs
    hloop
  · intro t s error flow hidle hturn
    apply (turn_idle hidle hturn).mono
    · exact fun _ _ hsame ↦ ⟨fun h ↦ h.same hsame, fun h ↦ hsame.1 ▸ h, fun h ↦ h.same hsame⟩
    · exact fun _ _ hsame h ↦ h.same hsame.1
  · intro t s error flow hdelivers hholds hturn
    have ⟨n, hpos, hle, hflow⟩ := turn_delivers hdelivers hturn
    have hlength := length_marked size
    have haccepted := (hholds.send (show n ≤ (marked size).length by omega)).1.accepted
    have hnonempty : (s.send (marked size) 0 n).accepted ≠ [] := by
      apply List.ne_nil_of_length_pos
      rw [haccepted, List.length_take]
      omega
    rw [hflow]
    exact Flow.leads_of (fun _ ↦ hnonempty) (fun _ ↦ trivial)
  · intro t s error flow hdelivers hbegun hturn
    have ⟨n, hpos, hle, hflow⟩ := turn_delivers hdelivers hturn
    have hspoiled : Spoiled
        { s.send (marked size) 0 n with cursor := (s.cursor.advance n).2 } :=
      hbegun.elim (fun hnonempty ↦ spoiled_of_nonempty hnonempty hpos hle) Spoiled.send
    rw [hflow]
    exact Flow.leads_of (fun _ ↦ hspoiled) (fun _ ↦ hspoiled)

/-! ## write -/

/-- The states differ in the accepted bytes at most. -/
def SameCounts (s s' : State) : Prop := s'.bytesWritten = s.bytesWritten ∧ s'.cursor = s.cursor

theorem writeOperation_follows (data data' : List UInt8) (size : Nat) :
    (writeOperation data 0 size).Follows (writeOperation data' 0 size) SameCounts where
  nonBlockingOperation answers s s' error p hsame hcall := by
    dsimp only [writeOperation] at hcall ⊢
    match TcpSocket.nonBlockingSend size answers, hcall with
    | some (finished, n, error'), rfl => exact ⟨_, rfl, rfl, ⟨rfl, hsame.2⟩, rfl⟩
  onOperated s s' error hsame := by
    have ⟨hwritten, hcursor⟩ := hsame
    dsimp only [writeOperation, onOperated]
    rw [hwritten, hcursor]
    by_cases hpipe : error = Errno.epipe
    · rw [if_pos hpipe, if_pos hpipe]
      exact ⟨rfl, hsame, rfl⟩
    rw [if_neg hpipe, if_neg hpipe]
    by_cases herror : error ≠ 0
    · rw [if_pos herror, if_pos herror]
      exact ⟨rfl, hsame, rfl⟩
    · rw [if_neg herror, if_neg herror]
      exact ⟨rfl, ⟨rfl, rfl⟩, rfl⟩
  onNotified _ _ _ hsame := ⟨rfl, hsame, rfl⟩

/-- A call that returns after the given turns passes on the start of the block, whatever bytes are in
it, if and only if bytes pass in at most one of the turns. -/
theorem right_iff_accepts_once {object : Bool} {turns : List (Turn (List Answer))}
    (hreturns : ∃ data s error, data.length = size ∧
      write object data timeout turns = some (s, error, [])) :
    (∀ data s error, data.length = size → write object data timeout turns = some (s, error, []) →
      Right data s error) ↔ turns.countP (Turn.delivers size) ≤ 1 := by
  constructor
  · intro hright
    have ⟨data, s, error, hlength, hwrite⟩ := hreturns
    rw [write, hlength] at hwrite
    have hsame : SameCounts (State.initial size) (State.initial size) := ⟨rfl, rfl⟩
    have ⟨s', hwrite', _⟩ := (writeOperation_follows data (marked size) size).perform hsame hwrite
    by_contra htwice
    by_cases hobject : object = true
    · have hholds := holds_initial (marked size)
      rw [length_marked] at hholds
      have hspoiled := spoiled_of_loop (by omega) hholds ((if_pos hobject).symm.trans hwrite')
      apply hspoiled.not_right
      apply hright (marked size) s' error (length_marked size)
      rw [write, length_marked]
      exact hwrite'
    · rw [Operation.perform, if_neg hobject] at hwrite'
      cases hwrite'
      exact absurd htwice (by simp)
  · intro honce data s error hlength hwrite
    subst hlength
    rw [write, Operation.perform] at hwrite
    by_cases hobject : object = true
    · rw [if_pos hobject] at hwrite
      exact right_of_loop honce (holds_initial data) hwrite
    · rw [if_neg hobject] at hwrite
      cases hwrite
      exact (holds_initial data).right fun herror ↦ absurd herror (by decide)

theorem right_iff_accepts_once_whole :
    (waitThenCount 4).countP (Turn.delivers 4) ≤ 1 ∧
      ∀ data s error, data.length = 4 → write true data (-1) (waitThenCount 4) = some (s, error, []) →
        Right data s error :=
  ⟨by decide, (right_iff_accepts_once ⟨[1, 2, 3, 4], _, _, rfl, rfl⟩).mpr (by decide)⟩

/-- Two halves of a block: the system accepts the first one twice. -/
theorem not_right_half_twice :
    ¬ ∀ s error, write true [1, 2, 3, 4] (-1) (waitThenCount 2 ++ waitThenCount 2) =
      some (s, error, []) → Right [1, 2, 3, 4] s error := by
  intro h
  have haccepted := (h _ _ rfl).accepted
  exact absurd haccepted (by decide)

end Ustevent.Net.WriteStream
