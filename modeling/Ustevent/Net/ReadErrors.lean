import Ustevent.Net.ReadStream

/-!
# The errors of a read

`readSome` and `read` report the end of the stream and the failures of `recvmsg` in one variable,
which the socket call, the loop of `perform` and `on_operated` share.
-/

namespace Ustevent.Net

/-- The answer after which a transfer does not ask the system again. -/
def conclusive : List Answer → Option Answer
  | [] => none
  | .count n :: _ => some (.count n)
  | .errno e :: answers => if e = Errno.eintr then conclusive answers else some (.errno e)

/-- The turn would block. -/
def Turn.blocks (t : Turn (List Answer)) : Bool :=
  decide (conclusive t.answers = some (.errno Errno.eagain))

/-- Neither a shutdown, a timeout nor an interrupt comes in, and the failures of the system have an
`errno`. -/
structure Turn.Plain (timeout : Int) (t : Turn (List Answer)) : Prop where
  isOpen : t.isOpen = true
  notified : timeout > 0 → t.notified = true
  interrupted : t.interrupted = false
  errno : ∀ e, conclusive t.answers = some (.errno e) → e ≠ 0

/-- The answer to the call that has ended the last of the turns. -/
def ending (turns : List (Turn (List Answer))) : Option Answer :=
  turns.getLast?.bind fun t ↦ conclusive t.answers

/-- The last of the turns comes directly after one that would block. -/
def resumed (turns : List (Turn (List Answer))) : Bool :=
  (turns.dropLast.getLast?.map Turn.blocks).getD false

theorem TcpSocket.nonBlockingTransfer_eq (length : Nat) (zeroError : Int) (answers : List Answer) :
    nonBlockingTransfer length zeroError answers =
      match conclusive answers with
      | none => none
      | some (.count n) => some (true, min n length, if 0 < min n length then 0 else zeroError)
      | some (.errno e) => some (decide (e ≠ Errno.eagain), 0, e) := by
  induction answers with
  | nil => rfl
  | cons answer answers ih =>
    cases answer with
    | count n =>
      rw [nonBlockingTransfer, conclusive]
      dsimp only
      split
      · rfl
      · rename_i hzero
        rw [show min n length = 0 by omega]
    | errno e =>
      rw [nonBlockingTransfer, conclusive]
      by_cases hagain : e = Errno.eagain
      · rw [if_pos hagain, if_neg (by rw [hagain]; decide), hagain]
        rfl
      · rw [if_neg hagain]
        by_cases hintr : e = Errno.eintr
        · rw [if_pos hintr, if_pos hintr, ih]
        · rw [if_neg hintr, if_neg hintr]
          simp only [ne_eq, hagain, not_false_eq_true, decide_true]

namespace ReadStream

/-- The operation of `readSome` makes the calls of `read`, and each of them is the last one. -/
def readSomeOperation (stream : Nat → UInt8) (size : Nat) : Operation State (List Answer) where
  nonBlockingOperation := (readOperation stream 0 size).nonBlockingOperation
  onOperated s error := (true, s, if s.bytesRead = 0 then Error.remotelyClosed else error)
  onNotified s error := (false, s, error)

/-- The call returns `bytesRead` as the number of bytes; the cursor is that of `read` only. -/
def readSome (object : Bool) (stream buffer : Nat → UInt8) (size : Nat) (timeout : Int)
    (turns : List (Turn (List Answer))) : Option (State × Int × List (Turn (List Answer))) :=
  (readSomeOperation stream size).perform object timeout turns (State.initial buffer size)

/-- What the error of a read tells about the call that has ended it. -/
structure Reports (answer : Option Answer) (error : Int) : Prop where
  remotelyClosed : error = Error.remotelyClosed ↔ answer = some (.count 0)
  failed : ∀ e : Nat, answer = some (.errno e) → error = e

/-! ## One turn -/

variable {op : Operation State (List Answer)} {stream : Nat → UInt8} {size : Nat} {timeout : Int}
  {t : Turn (List Answer)} {turns : List (Turn (List Answer))} {s s' : State} {error error' : Int}

theorem turn_plain (hcall : op.nonBlockingOperation =
      (readOperation stream 0 size).nonBlockingOperation)
    (hnotified : op.onNotified = fun s error ↦ (false, s, error)) (ht : t.Plain timeout) :
    op.turn timeout t s error =
      match conclusive t.answers with
      | none => none
      | some (.count n) => some (Flow.of (op.onOperated (s.receive stream 0 (min n size))
          (if 0 < min n size then 0 else error)))
      | some (.errno e) =>
        if e = Errno.eagain then some (.again (s.receive stream 0 0) e)
        else some (Flow.of (op.onOperated (s.receive stream 0 0) e)) := by
  have hwait : ¬ (timeout > 0 ∧ t.notified = false) := by
    rintro ⟨htimeout, hnotified⟩
    rw [ht.notified htimeout] at hnotified
    contradiction
  unfold Operation.turn Operation.attempt
  rw [if_pos ht.isOpen, hcall]
  dsimp only [readOperation, TcpSocket.nonBlockingReceive]
  rw [TcpSocket.nonBlockingTransfer_eq]
  cases conclusive t.answers with
  | none => rfl
  | some answer =>
    cases answer with
    | count n => rfl
    | errno e =>
      by_cases hagain : e = Errno.eagain
      · simp only [hagain, ne_eq, not_true_eq_false, decide_false, if_true]
        unfold Operation.afterWait
        rw [if_neg hwait, ht.interrupted, if_neg (by decide), hnotified]
        rfl
      · simp only [ne_eq, hagain, not_false_eq_true, decide_true, if_false]

theorem loop_cons (hloop : op.loop timeout (t :: turns) s error = some (s', error', [])) :
    (∃ s₁ error₁, op.turn timeout t s error = some (.again s₁ error₁) ∧ turns ≠ [] ∧
        op.loop timeout turns s₁ error₁ = some (s', error', [])) ∨
      (op.turn timeout t s error = some (.done s' error') ∧ turns = []) := by
  rw [Operation.loop] at hloop
  split at hloop
  · contradiction
  · rename_i s₁ error₁ hturn
    refine Or.inl ⟨s₁, error₁, hturn, ?_, hloop⟩
    rintro rfl
    contradiction
  · rename_i hturn
    cases hloop
    exact Or.inr ⟨hturn, rfl⟩

theorem ending_cons (hne : turns ≠ []) : ending (t :: turns) = ending turns := by
  unfold ending
  rw [List.getLast?_cons_of_ne_nil hne]

/-! ## readSome -/

theorem readSome_turn (ht : t.Plain timeout) :
    (readSomeOperation stream size).turn timeout t s error =
      match conclusive t.answers with
      | none => none
      | some (.count n) => some (.done (s.receive stream 0 (min n size))
          (if 0 < min n size then 0 else Error.remotelyClosed))
      | some (.errno e) =>
        if e = Errno.eagain then some (.again (s.receive stream 0 0) e)
        else some (.done (s.receive stream 0 0) Error.remotelyClosed) := by
  have hcall : (readSomeOperation stream size).nonBlockingOperation =
      (readOperation stream 0 size).nonBlockingOperation := rfl
  rw [turn_plain hcall rfl ht]
  cases conclusive t.answers with
  | none => rfl
  | some answer =>
    cases answer with
    | count n =>
      by_cases hpos : 0 < min n size
      · have hne : ¬ (s.receive stream 0 (min n size)).bytesRead = 0 := Nat.pos_iff_ne_zero.mp hpos
        simp only [readSomeOperation, if_pos hpos, if_neg hne, Flow.of]
      · have hzero : (s.receive stream 0 (min n size)).bytesRead = 0 := Nat.eq_zero_of_not_pos hpos
        simp only [readSomeOperation, if_neg hpos, if_pos hzero, Flow.of]
    | errno e => rfl

/-- A failure of the system leaves no bytes, which `on_operated` takes for the end of the stream. -/
theorem readSome_loop (hplain : ∀ t ∈ turns, t.Plain timeout)
    (hloop : (readSomeOperation stream size).loop timeout turns s error = some (s', error', [])) :
    (∃ n, ending turns = some (.count n) ∧
        error' = if 0 < min n size then 0 else Error.remotelyClosed) ∨
      ∃ e, ending turns = some (.errno e) ∧ error' = Error.remotelyClosed := by
  induction turns generalizing s error with
  | nil => contradiction
  | cons t turns ih =>
    have hturn : (readSomeOperation stream size).turn timeout t s error = _ :=
      readSome_turn (hplain t List.mem_cons_self)
    rcases loop_cons hloop with ⟨s₁, error₁, -, hne, hrest⟩ | ⟨hdone, hturns⟩
    · rw [ending_cons hne]
      exact ih (fun u hu ↦ hplain u (List.mem_cons_of_mem t hu)) hrest
    · subst hturns
      have hending : ending [t] = conclusive t.answers := rfl
      rw [hending]
      rw [hdone] at hturn
      cases hanswer : conclusive t.answers with
      | none => simp [hanswer] at hturn
      | some answer =>
        cases answer with
        | count n =>
          simp only [hanswer, Option.some.injEq, Flow.done.injEq] at hturn
          exact Or.inl ⟨n, rfl, hturn.2⟩
        | errno e =>
          simp only [hanswer] at hturn
          split at hturn
          · simp at hturn
          · simp only [Option.some.injEq, Flow.done.injEq] at hturn
            exact Or.inr ⟨e, rfl, hturn.2⟩

/-! ## read -/

/-- `*error` when the last of the turns begins. -/
def held (error : Int) : List (Turn (List Answer)) → Int
  | [] => error
  | [_] => error
  | t :: turns => held (if t.blocks then Errno.eagain else 0) turns

theorem held_cons (hne : turns ≠ []) :
    held error (t :: turns) = held (if t.blocks then Errno.eagain else 0) turns := by
  cases turns with
  | nil => contradiction
  | cons u turns => rfl

theorem resumed_cons (hne : turns.dropLast ≠ []) : resumed (t :: turns) = resumed turns := by
  have hturns : turns ≠ [] := by
    rintro rfl
    exact hne rfl
  unfold resumed
  rw [List.dropLast_cons_of_ne_nil hturns, List.getLast?_cons_of_ne_nil hne]

theorem held_zero (turns : List (Turn (List Answer))) :
    held 0 turns = if resumed turns then (Errno.eagain : Int) else 0 := by
  have hheld : ∀ (turns : List (Turn (List Answer))) t error, turns ≠ [] →
      held error (t :: turns) = if resumed (t :: turns) then (Errno.eagain : Int) else 0 := by
    intro turns
    induction turns with
    | nil => exact fun _ _ hne ↦ absurd rfl hne
    | cons u turns ih =>
      intro t error _
      rw [held_cons (List.cons_ne_nil u turns)]
      cases turns with
      | nil => rfl
      | cons v turns =>
        have hne : (u :: v :: turns).dropLast ≠ [] := by simp
        rw [resumed_cons hne]
        exact ih u _ (List.cons_ne_nil v turns)
  cases turns with
  | nil => rfl
  | cons t turns =>
    cases turns with
    | nil => rfl
    | cons u turns => exact hheld _ t 0 (List.cons_ne_nil u turns)

theorem read_turn (ht : t.Plain timeout) :
    (readOperation stream 0 size).turn timeout t s error =
      match conclusive t.answers with
      | none => none
      | some (.count n) =>
        if 0 < min n size then
          some (Flow.of ((s.cursor.advance (min n size)).1,
            { s.receive stream 0 (min n size) with cursor := (s.cursor.advance (min n size)).2 }, 0))
        else some (.done (s.receive stream 0 0) (if error ≠ 0 then error else Error.remotelyClosed))
      | some (.errno e) =>
        if e = Errno.eagain then some (.again (s.receive stream 0 0) e)
        else some (.done (s.receive stream 0 0) e) := by
  rw [turn_plain rfl rfl ht]
  cases hanswer : conclusive t.answers with
  | none => rfl
  | some answer =>
    cases answer with
    | count n =>
      by_cases hpos : 0 < min n size
      · have hne : ¬ (s.receive stream 0 (min n size)).bytesRead = 0 := Nat.pos_iff_ne_zero.mp hpos
        simp only [readOperation, onOperated, if_pos hpos, if_neg hne, ne_eq, not_true_eq_false,
          if_false]
        rfl
      · have hzero : min n size = 0 := Nat.eq_zero_of_not_pos hpos
        simp only [hzero, readOperation, onOperated, Nat.lt_irrefl, if_false]
        by_cases herror : error ≠ 0
        · rw [if_pos herror, if_pos herror]
          rfl
        · rw [if_neg herror, if_neg herror]
          rfl
    | errno e =>
      have hne : (e : Int) ≠ 0 := Int.natCast_ne_zero.mpr (ht.errno e hanswer)
      simp only [readOperation, onOperated, if_pos hne, Flow.of]

/-- After a turn that would block `*error` is EAGAIN until a turn in which bytes pass. -/
theorem read_again (ht : t.Plain timeout)
    (hturn : (readOperation stream 0 size).turn timeout t s error = some (.again s' error')) :
    error' = if t.blocks then (Errno.eagain : Int) else 0 := by
  rw [read_turn ht] at hturn
  unfold Turn.blocks
  cases hanswer : conclusive t.answers with
  | none => simp [hanswer] at hturn
  | some answer =>
    cases answer with
    | count n =>
      simp only [hanswer] at hturn
      split at hturn
      · cases hfinished : (s.cursor.advance (min n size)).1 with
        | true => simp [hfinished, Flow.of] at hturn
        | false =>
          simp only [hfinished, Flow.of, Option.some.injEq, Flow.again.injEq] at hturn
          simp [hturn.2]
      · simp at hturn
    | errno e =>
      simp only [hanswer] at hturn
      split at hturn
      · rename_i hagain
        simp only [Option.some.injEq, Flow.again.injEq] at hturn
        simp [hagain, ← hturn.2]
      · simp at hturn

theorem read_done (ht : t.Plain timeout)
    (hturn : (readOperation stream 0 size).turn timeout t s error = some (.done s' error')) :
    (∃ n, conclusive t.answers = some (.count n) ∧ error' = if 0 < min n size then 0
        else if error ≠ 0 then error else Error.remotelyClosed) ∨
      ∃ e : Nat, conclusive t.answers = some (.errno e) ∧ error' = e := by
  rw [read_turn ht] at hturn
  cases hanswer : conclusive t.answers with
  | none => simp [hanswer] at hturn
  | some answer =>
    cases answer with
    | count n =>
      refine Or.inl ⟨n, rfl, ?_⟩
      simp only [hanswer] at hturn
      by_cases hpos : 0 < min n size
      · rw [if_pos hpos] at hturn ⊢
        cases hfinished : (s.cursor.advance (min n size)).1 with
        | true =>
          simp only [hfinished, Flow.of, Option.some.injEq, Flow.done.injEq] at hturn
          exact hturn.2.symm
        | false => simp [hfinished, Flow.of] at hturn
      · rw [if_neg hpos] at hturn ⊢
        simp only [Option.some.injEq, Flow.done.injEq] at hturn
        exact hturn.2.symm
    | errno e =>
      simp only [hanswer] at hturn
      split at hturn
      · simp at hturn
      · simp only [Option.some.injEq, Flow.done.injEq] at hturn
        exact Or.inr ⟨e, rfl, hturn.2.symm⟩

theorem read_loop (hplain : ∀ t ∈ turns, t.Plain timeout)
    (hloop : (readOperation stream 0 size).loop timeout turns s error = some (s', error', [])) :
    (∃ n, ending turns = some (.count n) ∧ error' = if 0 < min n size then 0
        else if held error turns ≠ 0 then held error turns else Error.remotelyClosed) ∨
      ∃ e : Nat, ending turns = some (.errno e) ∧ error' = e := by
  induction turns generalizing s error with
  | nil => contradiction
  | cons t turns ih =>
    have hplain' := hplain t List.mem_cons_self
    rcases loop_cons hloop with ⟨s₁, error₁, hagain, hne, hrest⟩ | ⟨hdone, hturns⟩
    · rw [ending_cons hne, held_cons hne, ← read_again hplain' hagain]
      exact ih (fun u hu ↦ hplain u (List.mem_cons_of_mem t hu)) hrest
    · subst hturns
      exact read_done hplain' hdone

/-! ## Both calls -/

theorem reports_failed {e : Nat} {answer : Option Answer} (h : answer = some (.errno e)) :
    Reports answer e := by
  subst h
  refine ⟨?_, fun e' heq ↦ ?_⟩
  · simp only [Option.some.injEq, reduceCtorEq, iff_false]
    unfold Error.remotelyClosed
    omega
  · cases heq
    rfl

theorem reports_count {n : Nat} {answer : Option Answer} (h : answer = some (.count n)) :
    Reports answer error ↔ (error = Error.remotelyClosed ↔ n = 0) := by
  subst h
  constructor
  · intro hreports
    simpa using hreports.remotelyClosed
  · intro hclosed
    exact ⟨by simpa using hclosed, fun e heq ↦ by cases heq⟩

/-- On a stream that is left alone, `readSome` reports the call that has ended it unless that call has
failed, and `read` unless that call has found the end of the stream directly after a wait. -/
theorem reports_iff {buffer : Nat → UInt8} (hsize : 0 < size)
    (hplain : ∀ t ∈ turns, t.Plain timeout) :
    (∀ s error, readSome true stream buffer size timeout turns = some (s, error, []) →
      (Reports (ending turns) error ↔ ∀ e, ending turns ≠ some (.errno e))) ∧
    (∀ s error, read true stream buffer size timeout turns = some (s, error, []) →
      (Reports (ending turns) error ↔
        ¬ (ending turns = some (.count 0) ∧ resumed turns = true))) := by
  constructor
  · intro s error hread
    rcases readSome_loop hplain hread with ⟨n, hending, herror⟩ | ⟨e, hending, herror⟩
    · rw [reports_count hending, herror]
      refine iff_of_true ?_ (by simp [hending])
      by_cases hzero : n = 0
      · simp [hzero]
      · rw [if_pos (show 0 < min n size by omega)]
        exact iff_of_false (by decide) hzero
    · refine iff_of_false (fun hreports ↦ ?_) (fun hnone ↦ hnone e hending)
      have heq := hreports.remotelyClosed.mp herror
      exact absurd (heq.symm.trans hending) (by simp)
  · intro s error hread
    have hloop : (readOperation stream 0 size).loop timeout turns (State.initial buffer size) 0 =
      some (s, error, []) := hread
    rcases read_loop hplain hloop with ⟨n, hending, herror⟩ | ⟨e, hending, herror⟩
    · rw [reports_count hending, herror, held_zero, hending]
      by_cases hzero : n = 0
      -- *error is still EAGAIN after a wait
      · cases resumed turns <;> simp [hzero, Error.remotelyClosed, Errno.eagain]
      · rw [if_pos (show 0 < min n size by omega)]
        exact iff_of_true (iff_of_false (by decide) hzero) (by simp [hzero])
    · exact iff_of_true (herror ▸ reports_failed hending) (by simp [hending])

theorem reports_iff_waitThenCount :
    (∀ t ∈ waitThenCount 4, t.Plain (-1)) ∧
      (∀ s error, readSome true marked marked 4 (-1) (waitThenCount 4) = some (s, error, []) →
        (Reports (ending (waitThenCount 4)) error ↔
          ∀ e, ending (waitThenCount 4) ≠ some (.errno e))) ∧
      (∀ s error, read true marked marked 4 (-1) (waitThenCount 4) = some (s, error, []) →
        (Reports (ending (waitThenCount 4)) error ↔
          ¬ (ending (waitThenCount 4) = some (.count 0) ∧ resumed (waitThenCount 4) = true))) := by
  have hplain : ∀ t ∈ waitThenCount 4, t.Plain (-1) := by
    simp only [waitThenCount, List.forall_mem_cons, List.not_mem_nil, false_implies, implies_true,
      and_true]
    exact ⟨⟨rfl, by decide, rfl, fun e he ↦ by cases he; decide⟩,
      ⟨rfl, by decide, rfl, fun e he ↦ by cases he⟩⟩
  exact ⟨hplain, reports_iff (by decide) hplain⟩

/-- The other side closes the stream while a call waits for it. -/
def closedWhileWaiting : List (Turn (List Answer)) :=
  [⟨true, [.errno Errno.eagain], true, false⟩, ⟨true, [.errno Errno.eintr, .count 0], true, false⟩]

/-- The connection is reset by the other side. -/
def reset : List (Turn (List Answer)) := [⟨true, [.errno 104], true, false⟩]

/-- `read` reports EAGAIN where the stream has ended, and `readSome` reports the end of the stream
where the system has failed. -/
theorem not_reports_closedWhileWaiting :
    (∀ t ∈ closedWhileWaiting ++ reset, t.Plain (-1)) ∧
      (∃ s, read true marked marked 4 (-1) closedWhileWaiting =
        some (s, (Errno.eagain : Int), [])) ∧
      ¬ Reports (ending closedWhileWaiting) Errno.eagain ∧
      (∃ s, readSome true marked marked 4 (-1) reset = some (s, Error.remotelyClosed, [])) ∧
      ¬ Reports (ending reset) Error.remotelyClosed := by
  refine ⟨?_, ⟨_, rfl⟩, ?_, ⟨_, rfl⟩, ?_⟩
  · simp only [closedWhileWaiting, reset, List.cons_append, List.nil_append, List.forall_mem_cons,
      List.not_mem_nil, false_implies, implies_true, and_true]
    exact ⟨⟨rfl, by decide, rfl, fun e he ↦ by cases he; decide⟩,
      ⟨rfl, by decide, rfl, fun e he ↦ by cases he⟩,
      ⟨rfl, by decide, rfl, fun e he ↦ by cases he; decide⟩⟩
  · exact fun hreports ↦ absurd (hreports.remotelyClosed.mpr rfl) (by decide)
  · exact fun hreports ↦ absurd (hreports.failed 104 rfl) (by decide)

end ReadStream

end Ustevent.Net
