import Ustevent.Net.Interrupt
import Ustevent.Net.SelectionSteps

/-!
# Shutting a connection down

`TcpConnection::shutdown` sets `_shutdown` of the two streams and interrupts them.  A fiber of each
stream looks at the flag at the head of the loop of `perform` and may be anywhere in it meanwhile.
The selector, the semaphores and the waits are those of `Selection`; any number of fibers may shut
the connection down.
-/

namespace Ustevent.Net

open Reasoning

inductive ShutdownStep
  /-- `shutdown` of a stream stores `true` into its flag -/
  | store (event : EventType)
  /-- its `shutdownStream`; the edges that come of it are those of `Selection` -/
  | shutdownStream (event : EventType)
  /-- `interrupt` of a stream notifies its semaphore, up to the atomic step -/
  | interrupt (event : EventType)
deriving DecidableEq

/-- `TcpConnection::shutdown`. -/
def shutdownSteps : List ShutdownStep :=
  [.store .eventIn, .shutdownStream .eventIn, .store .eventOut, .shutdownStream .eventOut,
    .interrupt .eventIn, .interrupt .eventOut]

structure Shutting where
  selection : Selection
  /-- `_shutdown` of the stream that is bound to the event type -/
  shutdown : EventType → Bool
  /-- the fiber has found the flag unset in this pass, and has not operated yet -/
  opened : EventType → Bool
  /-- how many of the steps each call of `shutdown` has made -/
  calls : List Nat
  /-- history: the operations made since the flag was set -/
  late : EventType → Nat
  /-- history: the returns since then, apart from those with `TIMEOUT` -/
  returned : EventType → List Int

namespace Shutting

inductive Action
  /-- a fiber calls an operation of a stream -/
  | perform (event : EventType) (timed : Bool)
  /-- `is_open` at the head of a pass -/
  | isOpen (event : EventType)
  /-- the operation and `on_operated` -/
  | operate (event : EventType) (outcome : Outcome)
  /-- a step of the passes of `select`, of the semaphores or of a wait, or an edge -/
  | select (action : Selection.Action)
  /-- a fiber calls `shutdown` -/
  | shutdown
  /-- the next step of a call of `shutdown` -/
  | proceed (i : Nat)
deriving DecidableEq

def initial (signalFd : BitVec 32) (notifier : EpollSelector.Notifier) : Shutting where
  selection := Selection.initial signalFd notifier
  shutdown _ := false
  opened _ := false
  calls := []
  late _ := 0
  returned _ := []

abbrev setSelection (s : Shutting) (selection : Selection) : Shutting := { s with selection }

abbrev setOpened (s : Shutting) (event : EventType) (opened : Bool) : Shutting :=
  { s with opened := fun e ↦ if e = event then opened else s.opened e }

/-- The operation counts if the flag is set. -/
def operated (s : Shutting) (event : EventType) : Shutting :=
  { s.setOpened event false with
    late := fun e ↦ if e = event ∧ s.shutdown e = true then s.late e + 1 else s.late e }

/-- The call returns with `error`. -/
def returns (s : Shutting) (event : EventType) (error : Int) : Shutting :=
  { s with
    returned := fun e ↦
      if e = event ∧ s.shutdown e = true then s.returned e ++ [error] else s.returned e }

def act (s : Shutting) : ShutdownStep → Shutting
  | .store event => { s with shutdown := fun e ↦ if e = event then true else s.shutdown e }
  | .shutdownStream _ => s
  | .interrupt event => s.setSelection (s.selection.notifyAtomic event)

/-- The next step of a call of `shutdown`. -/
def next (s : Shutting) (i : Nat) : Option ShutdownStep := s.calls[i]?.bind (shutdownSteps[·]?)

def step (s : Shutting) : Action → Option Shutting
  | .perform event timed => (s.selection.step (.start event timed)).map s.setSelection
  | .isOpen event =>
    if (s.selection.side event).fiber = .operating ∧ s.opened event = false then
      if s.shutdown event then
        (s.selection.step (.finish event)).map fun selection ↦
          (s.setSelection selection).returns event Error.closed
      else some (s.setOpened event true)
    else none
  | .operate event outcome =>
    if s.opened event then
      match deviceOperation.attempt true outcome .wouldBlock 0 with
      | none => none
      | some (.blocks _ _) =>
        (s.selection.step (.block event)).map fun selection ↦
          (s.setSelection selection).operated event
      | some (.ends (.again _ _)) => some (s.operated event)
      | some (.ends (.done _ error)) =>
        (s.selection.step (.finish event)).map fun selection ↦
          ((s.setSelection selection).operated event).returns event error
    else none
  | .select action =>
    if action.selects then (s.selection.step action).map s.setSelection else none
  | .shutdown => some { s with calls := s.calls ++ [0] }
  | .proceed i =>
    (s.next i).map fun step ↦ { s.act step with calls := s.calls.modify i (· + 1) }

/-! ## What shutting down is for -/

/-- A call of `shutdown` is past the step. -/
def Past (s : Shutting) (step : ShutdownStep) : Prop :=
  ∃ n ∈ s.calls, step ∈ shutdownSteps.take n

/-- The fibers, the passes of `select` and the calls of `shutdown` have nothing to do. -/
def Settled (s : Shutting) : Prop :=
  ∀ action, (match action with
    | .isOpen _ | .operate _ _ | .proceed _ => True
    | .select action => match action with
      | .take | .dispatch _ | .notifyLocked _ | .wait _ | .wake _ => True
      | .start _ _ | .finish _ | .block _ | .edge _ | .timeOut _ => False
    | .perform _ _ | .shutdown => False) → s.step action = none

structure Sound (s : Shutting) : Prop where
  /-- the stream is used once more at most, by a pass that has found it open -/
  late : ∀ event, s.late event ≤ 1
  /-- so that the calls return with `CLOSED`, but for one at most -/
  returned : ∀ event, (s.returned event).countP (· ≠ Error.closed) ≤ 1
  /-- a fiber that has been interrupted is let in, or a notification is about to do so -/
  released : ∀ event, s.Past (.interrupt event) → (s.selection.side event).fiber = .parked →
    0 < (s.selection.side event).notifying ∨ (s.selection.side event).semaphore.admits = true
  /-- nobody is left in a call after a call of `shutdown` -/
  ended : s.Settled → s.calls ≠ [] → ∀ event, (s.selection.side event).fiber = .idle

/-- An interruption finds no debt of earlier timed waits in the semaphore. -/
def FindsNoDebt (s : Shutting) : Action → Prop
  | .proceed i =>
    match s.next i with
    | some (.interrupt event) => 0 ≤ s.selection.permits event
    | some (.store _) | some (.shutdownStream _) | none => True
  | .perform _ _ | .isOpen _ | .operate _ _ | .select _ | .shutdown => True

def interruptsInRange (s : Shutting) : ShutdownStep → Prop
  | .interrupt event => IsInt ((s.selection.side event).semaphore.atomicCount + 1)
  | .store _ | .shutdownStream _ => True

instance (s : Shutting) : DecidablePred s.interruptsInRange
  | .interrupt _ => inferInstanceAs (Decidable (IsInt _))
  | .store _ | .shutdownStream _ => isTrue trivial

/-- The counter that the step changes stays within the range of its type. -/
def InRange (s : Shutting) : Action → Prop
  | .select action => s.selection.InRange action
  | .proceed i => ∀ step ∈ s.next i, s.interruptsInRange step
  | .perform _ _ | .isOpen _ | .operate _ _ | .shutdown => True

instance decidableInRange (s : Shutting) : (a : Action) → Decidable (s.InRange a)
  | .select action => inferInstanceAs (Decidable (s.selection.InRange action))
  | .proceed i => inferInstanceAs (Decidable (∀ step ∈ s.next i, _))
  | .perform _ _ | .isOpen _ | .operate _ _ | .shutdown => isTrue trivial

/-! ## One step -/

variable {signalFd : BitVec 32} {notifier : EpollSelector.Notifier} {s t : Shutting}
  {event : EventType}

structure Inv (s : Shutting) : Prop where
  balanced : ∀ e, (s.selection.side e).Balanced
  opened : ∀ e, s.opened e = true → (s.selection.side e).fiber = .operating
  stored : ∀ e, s.Past (.store e) → s.shutdown e = true
  early : ∀ e, s.shutdown e = false → s.late e = 0
  late : ∀ e, s.late e + (s.opened e).toNat ≤ 1
  returned : ∀ e, (s.returned e).countP (· ≠ Error.closed) ≤ s.late e
  /-- a fiber that found the stream open before it was interrupted will find a permit -/
  permits : ∀ e, s.Past (.interrupt e) →
    s.opened e = true ∨ (s.selection.side e).fiber.waits = true → 1 ≤ s.selection.permits e

theorem inv_initial (signalFd : BitVec 32) (notifier : EpollSelector.Notifier) :
    Inv (initial signalFd notifier) where
  balanced _ := BasicSemaphore.create_balanced 0
  opened _ h := absurd h Bool.false_ne_true
  stored _ h := by
    obtain ⟨n, hn, -⟩ := h
    exact absurd hn List.not_mem_nil
  early _ _ := rfl
  late _ := Nat.zero_le 1
  returned _ := Nat.zero_le 0
  permits _ h _ := by
    obtain ⟨n, hn, -⟩ := h
    exact absurd hn List.not_mem_nil

/-- A call stores the flag of a stream before it interrupts the stream. -/
theorem Past.store (h : s.Past (.interrupt event)) : s.Past (.store event) := by
  obtain ⟨n, hn, hinterrupt⟩ := h
  refine ⟨n, hn, ?_⟩
  have hbefore : ∀ n < 6, .interrupt event ∈ shutdownSteps.take n →
      .store event ∈ shutdownSteps.take n := by
    cases event <;> decide
  by_cases hlt : n < 6
  · exact hbefore n hlt hinterrupt
  · rw [List.take_of_length_le (Nat.not_lt.mp hlt)]
    cases event <;> decide

/-- A fiber that has found the stream open keeps on with its operation until it says so. -/
theorem Inv.select {action : Selection.Action} {selection : Selection} (h : Inv s)
    (hrange : s.selection.InRange action) (hstep : s.selection.step action = some selection)
    (hopened : ∀ e, action = .finish e ∨ action = .block e → s.opened e = false)
    (hblock : ∀ e, action = .block e → s.Past (.interrupt e) → 1 ≤ s.selection.permits e) :
    Inv (s.setSelection selection) where
  balanced := Selection.balanced_step h.balanced hrange hstep
  opened e hopen := by
    have hends : ¬ (action = .finish e ∨ action = .block e) := by
      intro hends
      exact absurd (hopen.symm.trans (hopened e hends)) (by decide)
    exact Selection.operating_step (h.opened e hopen) hstep (fun heq ↦ hends (Or.inl heq))
      fun heq ↦ hends (Or.inr heq)
  stored := h.stored
  early := h.early
  late := h.late
  returned := h.returned
  permits e hpast hwaits := by
    have hbefore : 1 ≤ s.selection.permits e := by
      rcases hwaits with hopen | hwaits
      · exact h.permits e hpast (Or.inl hopen)
      · by_cases heq : action = .block e
        · exact hblock e heq hpast
        · have hfollows := (Selection.moves_of_step hstep e).follows heq
          exact h.permits e hpast (Or.inr (hfollows.2 hwaits))
    refine Int.le_trans hbefore (Selection.permits_le_of_step hrange hstep ?_)
    rcases hwaits with hopen | hwaits
    · exact Or.inr (by rw [h.opened e hopen]; rfl)
    · exact Or.inl hwaits

theorem setOpened_self (s : Shutting) (event : EventType) (opened : Bool) :
    (s.setOpened event opened).opened event = opened := if_pos rfl

theorem setOpened_of_ne (s : Shutting) (opened : Bool) {e : EventType} (h : e ≠ event) :
    (s.setOpened event opened).opened e = s.opened e := if_neg h

theorem Inv.load (h : Inv s) (hfiber : (s.selection.side event).fiber = .operating)
    (hopen : s.shutdown event = false) : Inv (s.setOpened event true) where
  balanced := h.balanced
  opened e hopened := by
    by_cases heq : e = event
    · rw [heq]
      exact hfiber
    · rw [setOpened_of_ne s true heq] at hopened
      exact h.opened e hopened
  stored := h.stored
  early := h.early
  late e := by
    by_cases heq : e = event
    · have hearly := h.early event hopen
      rw [heq, setOpened_self, hearly]
      exact Nat.le_refl 1
    · rw [setOpened_of_ne s true heq]
      exact h.late e
  returned := h.returned
  permits e hpast hwaits := by
    by_cases heq : e = event
    · have hstored := h.stored event (Past.store (heq ▸ hpast))
      rw [hopen] at hstored
      contradiction
    · rw [setOpened_of_ne s true heq] at hwaits
      exact h.permits e hpast hwaits

/-- The pass that has found the stream open has had its operation. -/
theorem Inv.operated (h : Inv s) (hopened : s.opened event = true) : Inv (s.operated event) := by
  have hself : (s.operated event).opened event = false := setOpened_self s event false
  have hother : ∀ e, e ≠ event → (s.operated event).opened e = s.opened e :=
    fun e ↦ setOpened_of_ne s false
  have hlate : ∀ e, (s.operated event).late e =
      if e = event ∧ s.shutdown e = true then s.late e + 1 else s.late e := fun _ ↦ rfl
  have hfirst := h.late event
  rw [hopened] at hfirst
  refine ⟨h.balanced, fun e hopen ↦ ?_, h.stored, fun e hearly ↦ ?_, fun e ↦ ?_, fun e ↦ ?_,
    fun e hpast hwaits ↦ ?_⟩
  · by_cases heq : e = event
    · rw [heq, hself] at hopen
      contradiction
    · exact h.opened e (hother e heq ▸ hopen)
  · have hunset : s.shutdown e = false := hearly
    rw [hlate, if_neg (by simp [hunset])]
    exact h.early e hunset
  · by_cases heq : e = event
    · subst heq
      rw [hlate, hself]
      simp only [Bool.toNat_true, Bool.toNat_false] at hfirst ⊢
      split <;> omega
    · rw [hlate, if_neg (fun hboth ↦ heq hboth.1), hother e heq]
      exact h.late e
  · have hreturned := h.returned e
    rw [hlate]
    split
    · exact Nat.le_succ_of_le hreturned
    · exact hreturned
  · refine h.permits e hpast (hwaits.imp_left fun hopen ↦ ?_)
    by_cases heq : e = event
    · rw [heq, hself] at hopen
      contradiction
    · exact hother e heq ▸ hopen

theorem Inv.returns {error : Int} (h : Inv s)
    (herror : s.shutdown event = true → error = Error.closed ∨
      (s.returned event).countP (· ≠ Error.closed) + 1 ≤ s.late event) :
    Inv (s.returns event error) where
  balanced := h.balanced
  opened := h.opened
  stored := h.stored
  early := h.early
  late := h.late
  returned e := by
    have hreturned := h.returned e
    unfold Shutting.returns
    dsimp only
    split
    · rename_i hboth
      obtain ⟨rfl, hset⟩ := hboth
      rw [List.countP_append]
      rcases herror hset with hclosed | hroom
      · rw [hclosed]
        exact hreturned
      · refine Nat.le_trans (Nat.add_le_add_left List.countP_le_length _) hroom
    · exact hreturned
  permits := h.permits

/-! ## A step of a call of `shutdown` -/

/-- What the calls are past after one more step of the call `i`. -/
theorem past_of_proceed {i : Nat} {step step' : ShutdownStep} (hnext : s.next i = some step)
    (h : ∃ n ∈ s.calls.modify i (· + 1), step' ∈ shutdownSteps.take n) :
    s.Past step' ∨ step' = step := by
  obtain ⟨m, hm, hstep⟩ := Option.bind_eq_some_iff.mp hnext
  obtain ⟨n, hn, hmem⟩ := h
  obtain ⟨j, hj⟩ := List.mem_iff_getElem?.mp hn
  rw [List.getElem?_modify] at hj
  by_cases hij : i = j
  · subst hij
    rw [hm] at hj
    have hsucc : m + 1 = n := by simpa using hj
    rw [← hsucc, List.take_add_one, hstep] at hmem
    rcases List.mem_append.mp hmem with hbefore | hnow
    · exact Or.inl ⟨m, List.mem_of_getElem? hm, hbefore⟩
    · exact Or.inr (List.mem_singleton.mp hnow)
  · have hsame : s.calls[j]? = some n := by simpa [hij] using hj
    exact Or.inl ⟨n, List.mem_of_getElem? hsame, hmem⟩

theorem notifyAtomic_permits {s : Selection}
    (hrange : IsInt ((s.side event).semaphore.atomicCount + 1)) (e : EventType) :
    (s.notifyAtomic event).permits e = s.permits e + if e = event then 1 else 0 := by
  rw [Selection.permits, Selection.notifyAtomic_atomicCount hrange,
    Selection.notifyAtomic_parkedCount, Selection.permits]
  omega

theorem Inv.proceed {i : Nat} {step : ShutdownStep} (h : Inv s) (hnext : s.next i = some step)
    (hrange : s.InRange (.proceed i)) (hdebt : s.FindsNoDebt (.proceed i)) :
    Inv { s.act step with calls := s.calls.modify i (· + 1) } := by
  have hpast : ∀ step', (∃ n ∈ s.calls.modify i (· + 1), step' ∈ shutdownSteps.take n) →
      s.Past step' ∨ step' = step :=
    fun _ ↦ past_of_proceed hnext
  cases step with
  | store event =>
    refine ⟨h.balanced, h.opened, fun e hstore ↦ ?_, fun e hearly ↦ ?_, h.late, h.returned,
      fun e hinterrupt ↦ ?_⟩
    · by_cases heq : e = event
      · exact if_pos heq
      · refine (if_neg heq).trans (h.stored e ?_)
        exact (hpast _ hstore).resolve_right (by simp [heq])
    · refine h.early e ?_
      by_cases heq : e = event
      · exact absurd ((if_pos heq).symm.trans hearly) (by decide)
      · exact (if_neg heq).symm.trans hearly
    · exact h.permits e ((hpast _ hinterrupt).resolve_right (by simp))
  | shutdownStream event =>
    exact ⟨h.balanced, h.opened,
      fun e hstore ↦ h.stored e ((hpast _ hstore).resolve_right (by simp)), h.early, h.late,
      h.returned,
      fun e hinterrupt ↦ h.permits e ((hpast _ hinterrupt).resolve_right (by simp))⟩
  | interrupt event =>
    have hdebt : 0 ≤ s.selection.permits event := by simpa [FindsNoDebt, hnext] using hdebt
    have hrange : IsInt ((s.selection.side event).semaphore.atomicCount + 1) := hrange _ hnext
    have hfiber : ∀ e, ((s.selection.notifyAtomic event).side e).fiber =
        (s.selection.side e).fiber :=
      fun e ↦ (Selection.notifyAtomic_side s.selection event e).1
    refine ⟨Selection.Side.Balanced.notifyAtomic h.balanced hrange, fun e hopen ↦ ?_,
      fun e hstore ↦ h.stored e ((hpast _ hstore).resolve_right (by simp)), h.early, h.late,
      h.returned, fun e hinterrupt hwaits ↦ ?_⟩
    · exact (hfiber e).trans (h.opened e hopen)
    · show 1 ≤ (s.selection.notifyAtomic event).permits e
      rw [notifyAtomic_permits hrange]
      by_cases heq : e = event
      · rw [if_pos heq, heq]
        omega
      · have hbefore : 1 ≤ s.selection.permits e := by
          refine h.permits e ((hpast _ hinterrupt).resolve_right (by simp [heq])) ?_
          exact hwaits.imp_right (hfiber e ▸ ·)
        rw [if_neg heq]
        omega

theorem Inv.call (h : Inv s) : Inv { s with calls := s.calls ++ [0] } := by
  have hpast : ∀ step, (∃ n ∈ s.calls ++ [0], step ∈ shutdownSteps.take n) → s.Past step := by
    rintro step ⟨n, hn, hmem⟩
    rcases List.mem_append.mp hn with hn | hn
    · exact ⟨n, hn, hmem⟩
    · rw [List.mem_singleton.mp hn] at hmem
      exact absurd hmem List.not_mem_nil
  exact ⟨h.balanced, h.opened, fun e hstore ↦ h.stored e (hpast _ hstore), h.early, h.late,
    h.returned, fun e hinterrupt ↦ h.permits e (hpast _ hinterrupt)⟩

theorem Inv.step {action : Action} (h : Inv s) (hrange : s.InRange action)
    (hdebt : s.FindsNoDebt action) (hstep : s.step action = some t) : Inv t := by
  cases action with
  | perform event timed =>
    rw [Shutting.step, Option.map_eq_some_iff] at hstep
    obtain ⟨selection, hselection, rfl⟩ := hstep
    exact h.select (by trivial) hselection (by simp) (by simp)
  | isOpen event =>
    rw [Shutting.step, Option.ite_none_right_eq_some] at hstep
    obtain ⟨⟨hfiber, hopened⟩, hstep⟩ := hstep
    by_cases hset : s.shutdown event = true
    · rw [if_pos hset, Option.map_eq_some_iff] at hstep
      obtain ⟨selection, hselection, rfl⟩ := hstep
      refine Inv.returns (h.select (by trivial) hselection ?_ (by simp)) fun _ ↦ Or.inl rfl
      simpa using hopened
    · rw [if_neg hset] at hstep
      cases hstep
      exact h.load hfiber (eq_false_of_ne_true hset)
  | operate event outcome =>
    rw [Shutting.step, Option.ite_none_right_eq_some] at hstep
    obtain ⟨hopened, hstep⟩ := hstep
    have hoperated := h.operated hopened
    have hself : (s.operated event).opened event = false := setOpened_self s event false
    split at hstep
    · contradiction
    · rw [Option.map_eq_some_iff] at hstep
      obtain ⟨selection, hselection, rfl⟩ := hstep
      refine hoperated.select (by trivial) hselection (by simpa using hself) fun e heq hpast ↦ ?_
      cases heq
      exact h.permits event hpast (Or.inl hopened)
    · cases hstep
      exact hoperated
    · rw [Option.map_eq_some_iff] at hstep
      obtain ⟨selection, hselection, rfl⟩ := hstep
      have hselected := hoperated.select (by trivial) hselection (by simpa using hself) (by simp)
      refine hselected.returns fun hset ↦ Or.inr ?_
      show (s.returned event).countP _ + 1 ≤
        if event = event ∧ s.shutdown event = true then s.late event + 1 else s.late event
      rw [if_pos ⟨rfl, hset⟩]
      exact Nat.succ_le_succ (h.returned event)
  | select action =>
    rw [Shutting.step, Option.ite_none_right_eq_some, Option.map_eq_some_iff] at hstep
    obtain ⟨hselects, selection, hselection, rfl⟩ := hstep
    refine h.select hrange hselection ?_ ?_
    · rintro e (rfl | rfl) <;> contradiction
    · rintro e rfl
      contradiction
  | shutdown =>
    cases hstep
    exact h.call
  | proceed i =>
    rw [Shutting.step, Option.map_eq_some_iff] at hstep
    obtain ⟨step, hnext, rfl⟩ := hstep
    exact h.proceed hnext hrange hdebt

/-! ## Whole runs -/

theorem Inv.released (h : Inv s) (hpast : s.Past (.interrupt event))
    (hparked : (s.selection.side event).fiber = .parked) :
    0 < (s.selection.side event).notifying ∨
      (s.selection.side event).semaphore.admits = true := by
  have hbalanced := h.balanced event
  have hpermits := h.permits event hpast (Or.inr (by rw [hparked]; rfl))
  rw [Selection.permits, Side.parkedCount, if_pos hparked] at hpermits
  rw [Side.Balanced, Side.parkedCount, if_pos hparked] at hbalanced
  exact BasicSemaphore.Balanced.serves hbalanced (Int.le_refl 0) (by omega)

theorem Settled.past (h : s.Settled) (hcalls : s.calls ≠ []) (step : ShutdownStep)
    (hmem : step ∈ shutdownSteps) : s.Past step := by
  obtain ⟨n, calls, hcons⟩ := List.exists_cons_of_ne_nil hcalls
  have hproceed := h (.proceed 0) trivial
  have hend : shutdownSteps[n]? = none := by
    simpa [Shutting.step, next, hcons] using hproceed
  refine ⟨n, hcons ▸ List.mem_cons_self, ?_⟩
  rw [List.take_of_length_le (List.getElem?_eq_none_iff.mp hend)]
  exact hmem

theorem Inv.idle (h : Inv s) (hsettled : s.Settled) (hpast : s.Past (.interrupt event)) :
    (s.selection.side event).fiber = .idle := by
  have hload := hsettled (.isOpen event) trivial
  have hoperate := hsettled (.operate event .wouldBlock) trivial
  have hwait := hsettled (.select (.wait event)) trivial
  have hwake := hsettled (.select (.wake event)) trivial
  have hnotify := hsettled (.select (.notifyLocked event)) trivial
  cases hfiber : (s.selection.side event).fiber with
  | idle => rfl
  | operating =>
    cases hopened : s.opened event with
    | true =>
      simp [Shutting.step, Selection.step, deviceOperation, Operation.attempt, hopened, hfiber]
        at hoperate
    | false =>
      by_cases hset : s.shutdown event = true
      · simp [Shutting.step, Selection.step, hopened, hfiber, hset] at hload
      · simp [Shutting.step, hopened, hfiber, hset] at hload
  | blocked => simp [Shutting.step, Selection.Action.selects, Selection.step, hfiber] at hwait
  | parked =>
    rcases h.released hpast hfiber with hnotifying | hadmits
    · have hne := Nat.pos_iff_ne_zero.mp hnotifying
      simp [Shutting.step, Selection.Action.selects, Selection.step, hne] at hnotify
    · simp [Shutting.step, Selection.Action.selects, Selection.step, hfiber, hadmits] at hwake

theorem Inv.sound (h : Inv s) : Sound s where
  late event := Nat.le_trans (Nat.le_add_right _ _) (h.late event)
  returned event :=
    Nat.le_trans (h.returned event) (Nat.le_trans (Nat.le_add_right _ _) (h.late event))
  released _ := h.released
  ended hsettled hcalls event :=
    h.idle hsettled (hsettled.past hcalls _ (by cases event <;> decide))

/-- The call has no timeout. -/
def Action.untimed : Action → Bool
  | .perform _ timed => !timed
  | .isOpen _ | .operate _ _ | .select _ | .shutdown | .proceed _ => true

theorem untimed_notifyAtomic {selection : Selection} (h : selection.Untimed)
    (hrange : IsInt ((selection.side event).semaphore.atomicCount + 1)) :
    (selection.notifyAtomic event).Untimed where
  timed e := by
    unfold Selection.notifyAtomic
    by_cases heq : e = event
    · rw [heq, Selection.setSide_side_self]
      exact h.timed event
    · rw [Selection.setSide_side_of_ne selection _ heq]
      exact h.timed e
  permits e := by
    have hpermits := h.permits e
    rw [notifyAtomic_permits hrange]
    split <;> omega

theorem untimed_step {action : Action} (h : Inv s) (huntimed : s.selection.Untimed)
    (hrange : s.InRange action) (haction : action.untimed = true) (hstep : s.step action = some t) :
    t.selection.Untimed := by
  have hselect : ∀ {action : Selection.Action} {selection : Selection},
      s.selection.InRange action → s.selection.step action = some selection →
      (∀ event, action ≠ .start event true) → selection.Untimed :=
    fun hrange hselection ↦ huntimed.step h.balanced hrange hselection
  cases action with
  | perform event timed =>
    rw [Shutting.step, Option.map_eq_some_iff] at hstep
    obtain ⟨selection, hselection, rfl⟩ := hstep
    refine hselect (by trivial) hselection ?_
    rintro e heq
    cases heq
    contradiction
  | isOpen event =>
    rw [Shutting.step, Option.ite_none_right_eq_some] at hstep
    obtain ⟨-, hstep⟩ := hstep
    by_cases hset : s.shutdown event = true
    · rw [if_pos hset, Option.map_eq_some_iff] at hstep
      obtain ⟨selection, hselection, rfl⟩ := hstep
      exact hselect (by trivial) hselection (by simp)
    · rw [if_neg hset] at hstep
      cases hstep
      exact huntimed
  | operate event outcome =>
    rw [Shutting.step, Option.ite_none_right_eq_some] at hstep
    obtain ⟨-, hstep⟩ := hstep
    split at hstep
    · contradiction
    · rw [Option.map_eq_some_iff] at hstep
      obtain ⟨selection, hselection, rfl⟩ := hstep
      exact hselect (by trivial) hselection (by simp)
    · cases hstep
      exact huntimed
    · rw [Option.map_eq_some_iff] at hstep
      obtain ⟨selection, hselection, rfl⟩ := hstep
      exact hselect (by trivial) hselection (by simp)
  | select action =>
    rw [Shutting.step, Option.ite_none_right_eq_some, Option.map_eq_some_iff] at hstep
    obtain ⟨hselects, selection, hselection, rfl⟩ := hstep
    refine hselect hrange hselection ?_
    rintro e rfl
    contradiction
  | shutdown =>
    cases hstep
    exact huntimed
  | proceed i =>
    rw [Shutting.step, Option.map_eq_some_iff] at hstep
    obtain ⟨step, hnext, rfl⟩ := hstep
    cases step with
    | store event | shutdownStream event => exact huntimed
    | interrupt event => exact untimed_notifyAtomic huntimed (hrange _ hnext)

theorem findsNoDebt_of_untimed (h : s.selection.Untimed) (action : Action) :
    s.FindsNoDebt action := by
  cases action with
  | proceed i =>
    rw [FindsNoDebt]
    cases hnext : s.next i with
    | none => trivial
    | some step =>
      cases step with
      | store event | shutdownStream event => trivial
      | interrupt event => exact h.permits event
  | perform | isOpen | operate | select | shutdown => trivial

/-- Shutting down ends all calls in every run in which the counters stay within their range, and in
which no call has a timeout or the interruptions find no debt. -/
theorem ended_of_run {actions : List Action}
    (hrange : Meets step InRange (initial signalFd notifier) actions)
    (hrun : run step (initial signalFd notifier) actions = some s)
    (hok : (∀ action ∈ actions, action.untimed = true) ∨
      Meets step FindsNoDebt (initial signalFd notifier) actions) : Sound s := by
  rcases hok with huntimed | hdebts
  · have hinv : Inv s ∧ s.selection.Untimed := by
      refine invariant_of_meets (fun s ↦ Inv s ∧ s.selection.Untimed) ?_
        ⟨inv_initial signalFd notifier, fun _ ↦ rfl, fun _ ↦ Int.le_refl 0⟩
        ((meets_of_forall step _ huntimed).and hrange) hrun
      rintro s action t ⟨hinv, hselection⟩ ⟨haction, hrange⟩ hstep
      exact ⟨hinv.step hrange (findsNoDebt_of_untimed hselection action) hstep,
        untimed_step hinv hselection hrange haction hstep⟩
    exact hinv.1.sound
  · exact (invariant_of_meets Inv (fun _ _ _ h hok hstep ↦ h.step hok.1 hok.2 hstep)
      (inv_initial signalFd notifier) (hrange.and hdebts) hrun).sound

/-- A read waits, a write has found its stream open, and the connection is shut down. -/
def readAndWrite : List Action :=
  [.perform .eventIn false, .isOpen .eventIn, .operate .eventIn .wouldBlock,
    .select (.wait .eventIn), .perform .eventOut false, .isOpen .eventOut, .shutdown, .proceed 0,
    .proceed 0, .proceed 0, .proceed 0, .proceed 0, .proceed 0, .operate .eventOut .wouldBlock,
    .select (.notifyLocked .eventIn), .select (.wake .eventIn), .select (.wait .eventOut),
    .isOpen .eventIn, .isOpen .eventOut]

theorem ended_of_run_readAndWrite : ∃ s,
    run step (initial 5 Selection.lowNotifier) readAndWrite = some s ∧
      s.returned .eventIn = [Error.closed] ∧ s.returned .eventOut = [Error.closed] ∧ Sound s :=
  ⟨_, rfl, rfl, rfl,
    ended_of_run (show Meets step InRange (initial 5 Selection.lowNotifier) readAndWrite by decide)
      (show run step (initial 5 Selection.lowNotifier) readAndWrite = some _ from rfl)
      (Or.inl (by decide))⟩

/-- After a read that has timed out, the interruption of the next one does not let it in. -/
example : ∃ s, run step (initial 5 Selection.lowNotifier)
    ([.perform .eventIn true, .isOpen .eventIn, .operate .eventIn .wouldBlock,
      .select (.wait .eventIn), .select (.timeOut .eventIn), .perform .eventIn false,
      .isOpen .eventIn, .operate .eventIn .wouldBlock, .select (.wait .eventIn), .shutdown] ++
      List.replicate 6 (.proceed 0) ++ [.select (.notifyLocked .eventIn)]) = some s ∧
    s.step (.select (.wake .eventIn)) = none ∧ s.step (.select (.notifyLocked .eventIn)) = none :=
  ⟨_, rfl, rfl, rfl⟩

end Shutting

end Ustevent.Net
