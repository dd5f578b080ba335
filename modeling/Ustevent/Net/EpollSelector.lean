import Ustevent.Core.BasicSemaphore
import Ustevent.Net.EpollData
import Ustevent.Reasoning.Runs

/-!
# The epoll selector and the fibers of one descriptor

An edge-triggered epoll set reports every readiness edge of a descriptor once.  `select` turns a
report into a notification of one of the two semaphores of the descriptor, on which the fibers wait
that run `EventOperation::perform`.  The system below has one fiber for each event type, any number
of passes of `select`, and the history of the edges.
-/

namespace Ustevent.Net

open Reasoning

/-! ## The fibers, the passes of select and the edges -/

/-- Where the fiber of an event type is in `perform`. -/
inductive Phase
  | idle
  | operating
  /-- the operation would block, and the fiber is about to wait -/
  | blocked
  /-- the fiber is in the slow path of a wait -/
  | parked
deriving DecidableEq

namespace Phase

def isParked : Phase → Bool
  | .parked => true
  | _ => false

def waits : Phase → Bool
  | .blocked | .parked => true
  | _ => false

end Phase

/-- One of `EventNotifier::_semaphores` with its fiber. -/
structure Side where
  semaphore : BasicSemaphore
  /-- the notifications between the two steps of `notify` -/
  notifying : Nat
  fiber : Phase
  /-- the current call of `perform` has a timeout -/
  timed : Bool
  /-- the number of edges before the last result of the operation that would block -/
  blockedAt : Nat
deriving DecidableEq

def Side.initial : Side := ⟨BasicSemaphore.create 0, 0, .idle, false, 0⟩

def Side.parkedCount (side : Side) : Nat := if side.fiber = .parked then 1 else 0

def Side.Balanced (side : Side) : Prop :=
  side.semaphore.Balanced 0 side.notifying side.parkedCount

/-- A pass of `select` that has got `events` for the edges from `first` up to `last`, and has not
looked at them yet. -/
structure Pass where
  first : Nat
  last : Nat
  events : Events
deriving DecidableEq

structure Selection where
  signalFd : BitVec 32
  /-- what the descriptor is registered with -/
  notifier : EpollSelector.Notifier
  /-- all edges so far -/
  edges : List Events
  /-- how many of them `epoll_wait` has reported -/
  taken : Nat
  passes : List Pass
  side : EventType → Side

namespace Selection

def initial (signalFd : BitVec 32) (notifier : EpollSelector.Notifier) : Selection :=
  ⟨signalFd, notifier, [], 0, [], fun _ ↦ Side.initial⟩

/-- The pending mask of the descriptor. -/
def pending (s : Selection) : Events := Events.union (s.edges.drop s.taken)

def setSide (s : Selection) (event : EventType) (side : Side) : Selection :=
  { s with side := fun e ↦ if e = event then side else s.side e }

inductive Action
  /-- the descriptor becomes ready -/
  | edge (events : Events)
  /-- `epoll_wait` reports the pending mask to a pass of `select` -/
  | take
  /-- the pass with the given index notifies the semaphore that it chooses -/
  | dispatch (i : Nat)
  /-- the locked step of a notification -/
  | notifyLocked (event : EventType)
  /-- a call of `perform` begins -/
  | start (event : EventType) (timed : Bool)
  /-- a call of `perform` returns after an operation that does not block -/
  | finish (event : EventType)
  /-- the operation would block -/
  | block (event : EventType)
  /-- the atomic step of the wait -/
  | wait (event : EventType)
  /-- the predicate of the wait holds -/
  | wake (event : EventType)
  /-- the time of a timed wait is over, and the call returns `TIMEOUT` -/
  | timeOut (event : EventType)
deriving DecidableEq

/-- The event type whose semaphore the pass is going to notify.  It notifies none if it takes the
data of the event for the signal descriptor. -/
def chooses (s : Selection) (pass : Pass) : Option EventType :=
  match EpollSelector.turn s.signalFd ⟨pass.events, s.notifier.address⟩ with
  | .notify _ event => event
  | .readSignal | .skip => none

/-- The atomic step of a notification. -/
def notifyAtomic (s : Selection) (event : EventType) : Selection :=
  let side := s.side event
  let (slow, semaphore) := side.semaphore.notifyAtomic
  s.setSide event
    { side with semaphore, notifying := if slow then side.notifying + 1 else side.notifying }

def waitAtomic (side : Side) : Side :=
  let (slow, semaphore) := side.semaphore.waitAtomic
  { side with semaphore, fiber := if slow then .parked else .operating }

def step (s : Selection) : Action → Option Selection
  | .edge events => some { s with edges := s.edges ++ [events] }
  | .take =>
    if s.pending = Events.none then none
    else
      some { s with
        passes := s.passes ++ [⟨s.taken, s.edges.length, s.pending⟩]
        taken := s.edges.length }
  | .dispatch i =>
    match s.passes[i]? with
    | none => none
    | some pass =>
      let t := { s with passes := s.passes.eraseIdx i }
      match s.chooses pass with
      | none => some t
      | some event => some (t.notifyAtomic event)
  | .notifyLocked event =>
    let side := s.side event
    if side.notifying = 0 then none
    else
      some (s.setSide event
        { side with semaphore := side.semaphore.notifyLocked, notifying := side.notifying - 1 })
  | .start event timed =>
    let side := s.side event
    if side.fiber = .idle then some (s.setSide event { side with fiber := .operating, timed })
    else none
  | .finish event =>
    let side := s.side event
    if side.fiber = .operating then some (s.setSide event { side with fiber := .idle }) else none
  | .block event =>
    let side := s.side event
    if side.fiber = .operating then
      some (s.setSide event { side with fiber := .blocked, blockedAt := s.edges.length })
    else none
  | .wait event =>
    let side := s.side event
    if side.fiber = .blocked then some (s.setSide event (waitAtomic side)) else none
  | .wake event =>
    let side := s.side event
    if side.fiber = .parked ∧ side.semaphore.admits = true then
      some (s.setSide event
        { side with semaphore := side.semaphore.waitLocked, fiber := .operating })
    else none
  | .timeOut event =>
    let side := s.side event
    if side.fiber = .parked ∧ side.timed = true ∧ side.semaphore.admits = false then
      some (s.setSide event { side with semaphore := side.semaphore.waitLocked, fiber := .idle })
    else none

/-! ## Lost wake-ups -/

/-- A notification of the semaphore is in flight: a pass of `select` is about to make it, or it is
between its two steps. -/
def Notifies (s : Selection) (event : EventType) : Prop :=
  0 < (s.side event).notifying ∨ ∃ pass ∈ s.passes, s.chooses pass = some event

/-- Every edge since its last would-block result that concerns a parked fiber is still pending, or
the fiber is notified of it. -/
def NotLost (s : Selection) : Prop :=
  ∀ event, (s.side event).fiber.isParked = true → ∀ i edge, s.edges[i]? = some edge →
    edge.concerns event = true → (s.side event).blockedAt ≤ i →
      s.taken ≤ i ∨ s.Notifies event ∨ 0 < (s.side event).semaphore.count

/-- The fiber waits, and one of the edges from `first` up to `last` since its would-block result
concerns it. -/
def Awaits (s : Selection) (event : EventType) (first last : Nat) : Prop :=
  (s.side event).fiber.waits = true ∧ ∃ i < last, first ≤ i ∧ (s.side event).blockedAt ≤ i ∧
    s.edges[i]?.any (·.concerns event) = true

instance (s : Selection) (event : EventType) (first last : Nat) :
    Decidable (s.Awaits event first last) :=
  inferInstanceAs (Decidable (_ ∧ _))

/-- A pass that reports an edge to a waiting fiber does not take it for the signal, and does not
report `EPOLLIN`, `EPOLLERR` or `EPOLLHUP` with it to a fiber on `EVENT_OUT`; and a notification of
an edge finds no debt of an earlier timed wait in the semaphore of the fiber that waits for it. -/
def Reaches (s : Selection) : Action → Prop
  | .take =>
    (s.Awaits .eventIn s.taken s.edges.length ∨ s.Awaits .eventOut s.taken s.edges.length →
      EpollSelector.EpollData.fd s.notifier.address ≠ s.signalFd) ∧
    (s.Awaits .eventOut s.taken s.edges.length → s.pending.concerns .eventIn = false)
  | .dispatch i => ∀ pass ∈ s.passes[i]?, ∀ event ∈ s.chooses pass,
    s.Awaits event pass.first pass.last →
      0 ≤ (s.side event).semaphore.atomicCount + (s.side event).parkedCount
  | _ => True

instance decidableReaches (s : Selection) : (a : Action) → Decidable (s.Reaches a)
  | .take => inferInstanceAs (Decidable (_ ∧ _))
  | .dispatch i => inferInstanceAs (Decidable (∀ pass ∈ s.passes[i]?, _))
  | .edge _ | .notifyLocked _ | .start _ _ | .finish _ | .block _ | .wait _ | .wake _
  | .timeOut _ => inferInstanceAs (Decidable True)

/-- The counter that the step changes stays within the range of its type. -/
def InRange (s : Selection) : Action → Prop
  | .dispatch i => ∀ pass ∈ s.passes[i]?, ∀ event ∈ s.chooses pass,
    IsInt ((s.side event).semaphore.atomicCount + 1)
  | .notifyLocked event => IsInt ((s.side event).semaphore.count + 1)
  | .wait event => IsInt ((s.side event).semaphore.atomicCount - 1)
  | .wake event | .timeOut event => IsInt ((s.side event).semaphore.count - 1)
  | .edge _ | .take | .start _ _ | .finish _ | .block _ => True

instance decidableInRange (s : Selection) : (a : Action) → Decidable (s.InRange a)
  | .dispatch i => inferInstanceAs (Decidable (∀ pass ∈ s.passes[i]?, _))
  | .notifyLocked _ | .wait _ | .wake _ | .timeOut _ => inferInstanceAs (Decidable (IsInt _))
  | .edge _ | .take | .start _ _ | .finish _ | .block _ => inferInstanceAs (Decidable True)

/-- The fiber finds a pass that is going to notify it of an edge since its would-block result, or a
permit. -/
def Ready (s : Selection) (event : EventType) : Prop :=
  (∃ pass ∈ s.passes, s.chooses pass = some event ∧ s.Awaits event pass.first pass.last) ∨
    1 ≤ (s.side event).semaphore.atomicCount + (s.side event).parkedCount

structure Inv (s : Selection) : Prop where
  taken_le : s.taken ≤ s.edges.length
  balanced : ∀ event, (s.side event).Balanced
  ready : ∀ event, s.Awaits event 0 s.taken → s.Ready event

theorem inv_initial (signalFd : BitVec 32) (notifier : EpollSelector.Notifier) :
    Inv (initial signalFd notifier) where
  taken_le := Nat.le_refl 0
  balanced _ := BasicSemaphore.create_balanced 0
  ready _ h := absurd h.1 Bool.false_ne_true

/-! ## One step -/

variable {s t : Selection} {event : EventType} {side : Side} {first last : Nat}

@[simp] theorem setSide_side_self (s : Selection) (event : EventType) (side : Side) :
    (s.setSide event side).side event = side := if_pos rfl

theorem setSide_side_of_ne (s : Selection) (side : Side) {event' : EventType}
    (h : event' ≠ event) : (s.setSide event side).side event' = s.side event' := if_neg h

theorem Awaits.of_side (h : t.Awaits event first last) (hedges : t.edges = s.edges)
    (hwaits : (s.side event).fiber.waits = (t.side event).fiber.waits)
    (hblocked : (s.side event).blockedAt = (t.side event).blockedAt) :
    s.Awaits event first last := by
  unfold Awaits at *
  rw [hwaits, hblocked, ← hedges]
  exact h

theorem Inv.setSide (h : Inv s)
    (hbalanced : side.Balanced)
    (hready : (s.setSide event side).Awaits event 0 s.taken → (s.setSide event side).Ready event) :
    Inv (s.setSide event side) where
  taken_le := h.taken_le
  balanced event' := by
    by_cases heq : event' = event
    · rw [heq, setSide_side_self]
      exact hbalanced
    · rw [setSide_side_of_ne s side heq]
      exact h.balanced event'
  ready event' hawaits := by
    by_cases heq : event' = event
    -- the other event type has its own fiber and semaphore
    · subst heq
      exact hready hawaits
    · have hside := setSide_side_of_ne s side heq
      have hback := h.ready event' (hawaits.of_side rfl (by rw [hside]) (by rw [hside]))
      unfold Ready at *
      rw [hside]
      cases hback with
      | inl hpass =>
        have ⟨pass, hmem, hdispatch, hin⟩ := hpass
        exact Or.inl ⟨pass, hmem, hdispatch, hin.of_side rfl (by rw [hside]) (by rw [hside])⟩
      | inr hpermit => exact Or.inr hpermit

/-- A fiber that does not wait has nothing to be notified of. -/
theorem Inv.setSide_running (h : Inv s)
    (hbalanced : side.Balanced)
    (hwaits : side.fiber.waits = false) : Inv (s.setSide event side) := by
  apply h.setSide hbalanced
  intro hawaits
  have := hawaits.1
  rw [setSide_side_self, hwaits] at this
  exact absurd this (by decide)

theorem Inv.edge (h : Inv s) (events : Events) : Inv { s with edges := s.edges ++ [events] } where
  taken_le := by
    have := h.taken_le
    simp only [List.length_append]
    omega
  balanced := h.balanced
  ready event hawaits := by
    have hle := h.taken_le
    have hgrow : ∀ first last, s.Awaits event first last →
        Awaits { s with edges := s.edges ++ [events] } event first last := by
      intro first last hawaits
      have ⟨hwaits, i, hi, hfirst, hblocked, hany⟩ := hawaits
      refine ⟨hwaits, i, hi, hfirst, hblocked, ?_⟩
      have ⟨edge, hedge, _⟩ := (Option.any_eq_true _ _).mp hany
      rw [List.getElem?_append_left (List.getElem?_eq_some_iff.mp hedge).1]
      exact hany
    -- the new edge is not taken yet
    have hback : s.Awaits event 0 s.taken := by
      have ⟨hwaits, i, hi, hfirst, hblocked, hany⟩ := hawaits
      rw [List.getElem?_append_left (Nat.lt_of_lt_of_le hi hle)] at hany
      exact ⟨hwaits, i, hi, hfirst, hblocked, hany⟩
    cases h.ready event hback with
    | inl hpass =>
      have ⟨pass, hmem, hdispatch, hin⟩ := hpass
      exact Or.inl ⟨pass, hmem, hdispatch, hgrow pass.first pass.last hin⟩
    | inr hpermit => exact Or.inr hpermit

/-- A pass that does not take its event for the signal. -/
theorem chooses_eq (hsignal : EpollSelector.EpollData.fd s.notifier.address ≠ s.signalFd)
    (pass : Pass) : s.chooses pass = pass.events.dispatch := by
  rw [chooses, EpollSelector.turn, if_neg hsignal, if_pos s.notifier.nonnull]

theorem concerns_pending (s : Selection) {i : Nat} (hi : s.taken ≤ i)
    (hany : s.edges[i]?.any (·.concerns event) = true) : s.pending.concerns event = true := by
  have ⟨edge, hedge, hconcerns⟩ := (Option.any_eq_true _ _).mp hany
  rw [pending, Events.concerns_union, List.any_eq_true]
  refine ⟨edge, List.mem_iff_getElem?.mpr ⟨i - s.taken, ?_⟩, hconcerns⟩
  rw [List.getElem?_drop, Nat.add_sub_cancel' hi]
  exact hedge

theorem Inv.take (h : Inv s) (hok : s.Reaches .take) :
    Inv { s with
      passes := s.passes ++ [⟨s.taken, s.edges.length, s.pending⟩], taken := s.edges.length } where
  taken_le := Nat.le_refl s.edges.length
  balanced := h.balanced
  ready event hawaits := by
    have ⟨hwaits, i, hi, _, hblocked, hany⟩ := hawaits
    by_cases htaken : i < s.taken
    · cases h.ready event ⟨hwaits, i, htaken, Nat.zero_le i, hblocked, hany⟩ with
      | inl hpass =>
        have ⟨pass, hmem, hdispatch, hin⟩ := hpass
        exact Or.inl ⟨pass, List.mem_append_left _ hmem, hdispatch, hin⟩
      | inr hpermit => exact Or.inr hpermit
    -- the edge is one of those that this pass takes
    · have hnew : s.Awaits event s.taken s.edges.length :=
        ⟨hwaits, i, hi, Nat.not_lt.mp htaken, hblocked, hany⟩
      have hconcerns := s.concerns_pending (Nat.not_lt.mp htaken) hany
      have hdispatch : s.chooses ⟨s.taken, s.edges.length, s.pending⟩ = some event := by
        cases event with
        | eventIn =>
          rw [chooses_eq (hok.1 (Or.inl hnew))]
          exact Events.dispatch_in hconcerns
        | eventOut =>
          rw [chooses_eq (hok.1 (Or.inr hnew))]
          exact Events.dispatch_out hconcerns (hok.2 hnew)
      exact Or.inl ⟨_, List.mem_append_right _ List.mem_cons_self, hdispatch, hnew⟩

theorem mem_eraseIdx_of_ne {i : Nat} {pass q : Pass} (hi : s.passes[i]? = some pass)
    (hq : q ∈ s.passes) (hne : q ≠ pass) : q ∈ s.passes.eraseIdx i := by
  have ⟨j, hj⟩ := List.mem_iff_getElem?.mp hq
  apply List.mem_eraseIdx_iff_getElem?.mpr
  refine ⟨j, fun heq ↦ hne ?_, hj⟩
  rw [heq, hi] at hj
  exact (Option.some.inj hj).symm

theorem Side.Balanced.notifyAtomic (h : ∀ e, (s.side e).Balanced)
    (hrange : IsInt ((s.side event).semaphore.atomicCount + 1)) (e : EventType) :
    ((s.notifyAtomic event).side e).Balanced := by
  by_cases heq : e = event
  · rw [heq, Selection.notifyAtomic, setSide_side_self]
    exact BasicSemaphore.Balanced.notifyAtomic (h event) hrange
  · rw [Selection.notifyAtomic, setSide_side_of_ne s _ heq]
    exact h e

theorem notifyAtomic_side (s : Selection) (event e : EventType) :
    ((s.notifyAtomic event).side e).fiber = (s.side e).fiber ∧
      ((s.notifyAtomic event).side e).blockedAt = (s.side e).blockedAt := by
  by_cases heq : e = event
  · rw [heq, notifyAtomic, setSide_side_self]
    exact ⟨rfl, rfl⟩
  · rw [notifyAtomic, setSide_side_of_ne s _ heq]
    exact ⟨rfl, rfl⟩

theorem notifyAtomic_atomicCount (hrange : IsInt ((s.side event).semaphore.atomicCount + 1))
    (e : EventType) : ((s.notifyAtomic event).side e).semaphore.atomicCount =
      (s.side e).semaphore.atomicCount + if e = event then 1 else 0 := by
  by_cases heq : e = event
  · rw [heq, notifyAtomic, setSide_side_self, if_pos rfl]
    exact int32_of_isInt hrange
  · rw [notifyAtomic, setSide_side_of_ne s _ heq, if_neg heq]
    exact (Int.add_zero _).symm

theorem notifyAtomic_parkedCount (s : Selection) (event e : EventType) :
    ((s.notifyAtomic event).side e).parkedCount = (s.side e).parkedCount := by
  rw [Side.parkedCount, (notifyAtomic_side s event e).1]
  rfl

theorem awaits_notifyAtomic {e : EventType} :
    (s.notifyAtomic event).Awaits e first last ↔ s.Awaits e first last := by
  have ⟨hfiber, hblocked⟩ := notifyAtomic_side s event e
  unfold Awaits
  rw [hfiber, hblocked]
  rfl

/-- A pass that notifies nobody was not going to wake a fiber. -/
theorem Inv.drop {i : Nat} {pass : Pass} (h : Inv s) (hi : s.passes[i]? = some pass)
    (hnone : s.chooses pass = none) : Inv { s with passes := s.passes.eraseIdx i } where
  taken_le := h.taken_le
  balanced := h.balanced
  ready event hawaits := by
    cases h.ready event hawaits with
    | inl hpass =>
      have ⟨q, hmem, hdispatch, hin⟩ := hpass
      have hne : q ≠ pass := by
        intro heq
        rw [heq, hnone] at hdispatch
        exact absurd hdispatch (by simp)
      exact Or.inl ⟨q, mem_eraseIdx_of_ne hi hmem hne, hdispatch, hin⟩
    | inr hpermit => exact Or.inr hpermit

theorem Inv.dispatch {i : Nat} {pass : Pass} (h : Inv s) (hi : s.passes[i]? = some pass)
    (hevent : s.chooses pass = some event) (hrange : s.InRange (.dispatch i))
    (hok : s.Reaches (.dispatch i)) :
    Inv (notifyAtomic { s with passes := s.passes.eraseIdx i } event) where
  taken_le := h.taken_le
  balanced := Side.Balanced.notifyAtomic h.balanced (hrange pass hi event hevent)
  ready e hawaits := by
    have hback : s.Awaits e 0 s.taken := awaits_notifyAtomic.mp hawaits
    unfold Ready
    have hcount := notifyAtomic_atomicCount (s := { s with passes := s.passes.eraseIdx i })
      (hrange pass hi event hevent) e
    rw [notifyAtomic_parkedCount, hcount]
    cases h.ready e hback with
    -- the permit is still there, or has become two
    | inr hpermit =>
      apply Or.inr
      show 1 ≤ (s.side e).semaphore.atomicCount + (if e = event then 1 else 0) +
        ((s.side e).parkedCount : Int)
      split <;> omega
    | inl hpass =>
      have ⟨q, hmem, hdispatch, hin⟩ := hpass
      by_cases heq : q = pass
      · -- the pass notifies the fiber now
        subst heq
        have he : e = event := Option.some.inj (hdispatch.symm.trans hevent)
        subst he
        have hdebt := hok q hi e hevent hin
        apply Or.inr
        rw [if_pos rfl]
        show 1 ≤ (s.side e).semaphore.atomicCount + 1 + ((s.side e).parkedCount : Int)
        omega
      · exact Or.inl ⟨q, mem_eraseIdx_of_ne hi hmem heq, hdispatch, awaits_notifyAtomic.mpr hin⟩

theorem Inv.block (h : Inv s) (hfiber : (s.side event).fiber = .operating) :
    Inv (s.setSide event
      { s.side event with fiber := .blocked, blockedAt := s.edges.length }) := by
  apply h.setSide
  · have hbalanced := h.balanced event
    rw [Side.Balanced, Side.parkedCount, hfiber] at hbalanced
    exact hbalanced
  · intro hawaits
    have ⟨_, i, hi, _, hblocked, _⟩ := hawaits
    rw [setSide_side_self] at hblocked
    -- all edges that have been taken are from before the would-block result
    exact absurd (Nat.lt_of_le_of_lt hblocked hi) (Nat.not_lt.mpr h.taken_le)

theorem Inv.wait (h : Inv s) (hfiber : (s.side event).fiber = .blocked)
    (hrange : s.InRange (.wait event)) :
    Inv (s.setSide event (waitAtomic (s.side event))) := by
  have hbalanced := BasicSemaphore.Balanced.waitAtomic (h.balanced event) hrange
  rw [Side.parkedCount, hfiber] at hbalanced
  unfold waitAtomic
  by_cases hone : (s.side event).semaphore.atomicCount < 1
  · -- the fiber takes its permit along into the slow path
    have hslow : (s.side event).semaphore.waitAtomic.1 = true := decide_eq_true hone
    simp only [hslow, if_true, reduceCtorEq, if_false] at hbalanced ⊢
    apply h.setSide
    · exact hbalanced
    intro hawaits
    have hback : s.Awaits event 0 s.taken := by
      refine hawaits.of_side rfl ?_ ?_
      · rw [setSide_side_self, hfiber]
        rfl
      · rw [setSide_side_self]
    cases h.ready event hback with
    | inl hpass =>
      have ⟨pass, hmem, hdispatch, hin⟩ := hpass
      refine Or.inl ⟨pass, hmem, hdispatch, hin.of_side rfl ?_ ?_⟩
      · rw [setSide_side_self, hfiber]
        rfl
      · rw [setSide_side_self]
    | inr hpermit =>
      apply Or.inr
      rw [Side.parkedCount, hfiber] at hpermit
      rw [setSide_side_self]
      show 1 ≤ int32 ((s.side event).semaphore.atomicCount - 1) + 1
      rw [int32_of_isInt hrange]
      simp only [reduceCtorEq, if_false] at hpermit
      omega
  -- the fiber has its permit and does not wait
  · have hfast : (s.side event).semaphore.waitAtomic.1 = false := decide_eq_false hone
    simp only [hfast, Bool.false_eq_true, reduceCtorEq, if_false] at hbalanced ⊢
    exact h.setSide_running hbalanced rfl

theorem Inv.leave (h : Inv s) {fiber : Phase} (hfiber : (s.side event).fiber = .parked)
    (hwaits : fiber.waits = false) (hrange : IsInt ((s.side event).semaphore.count - 1)) :
    Inv (s.setSide event
      { s.side event with semaphore := (s.side event).semaphore.waitLocked, fiber }) := by
  have hbalanced := h.balanced event
  rw [Side.Balanced, Side.parkedCount, hfiber] at hbalanced
  refine h.setSide_running ?_ hwaits
  have hcount : Side.parkedCount { s.side event with
      semaphore := (s.side event).semaphore.waitLocked, fiber } = 0 := by
    apply if_neg
    intro heq
    rw [show fiber = .parked from heq] at hwaits
    exact absurd hwaits (by decide)
  rw [Side.Balanced, hcount]
  exact BasicSemaphore.Balanced.waitLocked hbalanced hrange

theorem Inv.notifyLocked (h : Inv s) (hnotifying : (s.side event).notifying ≠ 0)
    (hrange : s.InRange (.notifyLocked event)) :
    Inv (s.setSide event { s.side event with
      semaphore := (s.side event).semaphore.notifyLocked
      notifying := (s.side event).notifying - 1 }) := by
  have hsucc : (s.side event).notifying - 1 + 1 = (s.side event).notifying := by omega
  apply h.setSide
  · refine BasicSemaphore.Balanced.notifyLocked ?_ hrange
    show BasicSemaphore.Balanced 0 ((s.side event).notifying - 1 + 1) _ _
    rw [hsucc]
    exact h.balanced event
  · intro hawaits
    have hback : s.Awaits event 0 s.taken :=
      hawaits.of_side rfl (by rw [setSide_side_self]) (by rw [setSide_side_self])
    have hready := h.ready event hback
    unfold Ready at *
    rw [setSide_side_self]
    cases hready with
    | inl hpass =>
      have ⟨pass, hmem, hdispatch, hin⟩ := hpass
      refine Or.inl ⟨pass, hmem, hdispatch, hin.of_side rfl ?_ ?_⟩
      · rw [setSide_side_self]
      · rw [setSide_side_self]
    | inr hpermit => exact Or.inr hpermit

theorem Inv.step {a : Action} (h : Inv s) (hrange : s.InRange a) (hok : s.Reaches a)
    (hstep : s.step a = some t) : Inv t := by
  have hrunning : ∀ event fiber, (s.side event).fiber = fiber → fiber ≠ .parked →
      (s.side event).semaphore.Balanced 0 (s.side event).notifying 0 := by
    intro event fiber hfiber hne
    have hbalanced := h.balanced event
    rw [Side.Balanced, Side.parkedCount, hfiber, if_neg hne] at hbalanced
    exact hbalanced
  cases a with
  | edge events =>
    cases hstep
    exact h.edge events
  | take =>
    simp only [Selection.step] at hstep
    split at hstep
    · exact absurd hstep (by simp)
    · cases hstep
      exact h.take hok
  | dispatch i =>
    simp only [Selection.step] at hstep
    split at hstep
    · exact absurd hstep (by simp)
    · rename_i pass hi
      split at hstep
      · rename_i hnone
        cases hstep
        exact h.drop hi hnone
      · rename_i event hevent
        cases hstep
        exact h.dispatch hi hevent hrange hok
  | notifyLocked event =>
    simp only [Selection.step] at hstep
    split at hstep
    · exact absurd hstep (by simp)
    · rename_i hnotifying
      cases hstep
      exact h.notifyLocked hnotifying hrange
  | start event timed =>
    simp only [Selection.step] at hstep
    split at hstep
    · rename_i hfiber
      cases hstep
      exact h.setSide_running (hrunning event .idle hfiber (by decide)) rfl
    · exact absurd hstep (by simp)
  | finish event =>
    simp only [Selection.step] at hstep
    split at hstep
    · rename_i hfiber
      cases hstep
      exact h.setSide_running (hrunning event .operating hfiber (by decide)) rfl
    · exact absurd hstep (by simp)
  | block event =>
    simp only [Selection.step] at hstep
    split at hstep
    · rename_i hfiber
      cases hstep
      exact h.block hfiber
    · exact absurd hstep (by simp)
  | wait event =>
    simp only [Selection.step] at hstep
    split at hstep
    · rename_i hfiber
      cases hstep
      exact h.wait hfiber hrange
    · exact absurd hstep (by simp)
  | wake event =>
    simp only [Selection.step] at hstep
    split at hstep
    · rename_i hfiber
      cases hstep
      exact h.leave hfiber.1 rfl hrange
    · exact absurd hstep (by simp)
  | timeOut event =>
    simp only [Selection.step] at hstep
    split at hstep
    · rename_i hfiber
      cases hstep
      exact h.leave hfiber.1 rfl hrange
    · exact absurd hstep (by simp)

/-! ## Whole runs -/

theorem Inv.notLost (h : Inv s) : s.NotLost := by
  intro event hparked i edge hedge hconcerns hblocked
  by_cases htaken : s.taken ≤ i
  · exact Or.inl htaken
  apply Or.inr
  -- a parked fiber is in the slow path
  have hfiber : (s.side event).fiber = .parked := by
    cases hphase : (s.side event).fiber <;> rw [hphase] at hparked <;> first | rfl | cases hparked
  have hawaits : s.Awaits event 0 s.taken := by
    refine ⟨by rw [hfiber]; rfl, i, Nat.not_le.mp htaken, Nat.zero_le i, hblocked, ?_⟩
    rw [hedge]
    exact hconcerns
  cases h.ready event hawaits with
  | inl hpass =>
    have ⟨pass, hmem, hdispatch, _⟩ := hpass
    exact Or.inl (Or.inr ⟨pass, hmem, hdispatch⟩)
  | inr hpermit =>
    -- the counters say that the permit is in `_count` or on its way there
    have hbalanced := h.balanced event
    rw [Side.parkedCount, hfiber, if_pos rfl] at hpermit
    rw [Side.Balanced, Side.parkedCount, hfiber, if_pos rfl] at hbalanced
    cases BasicSemaphore.Balanced.serves hbalanced (Int.le_refl 0) (by omega) with
    | inl hnotifying => exact Or.inl (Or.inl hnotifying)
    | inr hadmits => exact Or.inr (of_decide_eq_true hadmits)

/-- In a run in which every edge reaches the fiber that waits for it, and in which the counters stay
within their range, no wake-up is lost. -/
theorem notLost_of_reaches {signalFd : BitVec 32} {notifier : EpollSelector.Notifier}
    {as : List Action}
    (hok : Meets step (fun s a ↦ s.InRange a ∧ s.Reaches a) (initial signalFd notifier) as)
    (hrun : run step (initial signalFd notifier) as = some t) : t.NotLost :=
  (invariant_of_meets Inv (fun _ _ _ h hok hstep ↦ h.step hok.1 hok.2 hstep)
    (inv_initial signalFd notifier) hok hrun).notLost

/-- A notifier that lies 16 bytes behind a multiple of 2^32. -/
def lowNotifier : EpollSelector.Notifier := ⟨0x7f4500000010, by decide, by decide⟩

/-- A read that waits for data, and the edge that brings it. -/
def readRun : List Action :=
  [.start .eventIn true, .block .eventIn, .wait .eventIn, .edge ⟨true, false, false, false⟩, .take,
    .dispatch 0, .notifyLocked .eventIn]

theorem notLost_of_reaches_readRun :
    ∃ t, run step (initial 5 lowNotifier) readRun = some t ∧ t.NotLost :=
  ⟨_, rfl, notLost_of_reaches (show Meets step (fun s a ↦ s.InRange a ∧ s.Reaches a)
    (initial 5 lowNotifier) readRun by decide) rfl⟩

/-- A write that waits for room, which comes together with data to read. -/
def bothRun : List Action :=
  [.start .eventOut false, .block .eventOut, .wait .eventOut, .edge ⟨true, true, false, false⟩,
    .take, .dispatch 0]

/-- A read that waits for data after one that has timed out. -/
def debtRun : List Action :=
  [.start .eventIn true, .block .eventIn, .wait .eventIn, .timeOut .eventIn,
    .start .eventIn false, .block .eventIn, .wait .eventIn, .edge ⟨true, false, false, false⟩,
    .take, .dispatch 0, .notifyLocked .eventIn]

/-- A read whose edge is taken for the signal if the signal descriptor is number 16. -/
def swallowedRun : List Action :=
  [.start .eventIn false, .block .eventIn, .wait .eventIn, .edge ⟨true, false, false, false⟩,
    .take, .dispatch 0]

theorem not_notLost_bothRun :
    (∃ t, run step (initial 5 lowNotifier) bothRun = some t ∧ ¬ t.NotLost) ∧
      (∃ t, run step (initial 5 lowNotifier) debtRun = some t ∧ ¬ t.NotLost) ∧
      ∃ t, run step (initial 16 lowNotifier) swallowedRun = some t ∧ ¬ t.NotLost := by
  refine ⟨⟨_, rfl, fun h ↦ ?_⟩, ⟨_, rfl, fun h ↦ ?_⟩, ⟨_, rfl, fun h ↦ ?_⟩⟩
  · rcases h .eventOut rfl 0 _ rfl rfl (by decide) with htaken | (hnotifying | hpass) | hcount
    · exact absurd htaken (by decide)
    · exact absurd hnotifying (by decide)
    · exact absurd hpass (by decide)
    · exact absurd hcount (by decide)
  · rcases h .eventIn rfl 0 _ rfl rfl (by decide) with htaken | (hnotifying | hpass) | hcount
    · exact absurd htaken (by decide)
    · exact absurd hnotifying (by decide)
    · exact absurd hpass (by decide)
    · exact absurd hcount (by decide)
  · rcases h .eventIn rfl 0 _ rfl rfl (by decide) with htaken | (hnotifying | hpass) | hcount
    · exact absurd htaken (by decide)
    · exact absurd hnotifying (by decide)
    · exact absurd hpass (by decide)
    · exact absurd hcount (by decide)

end Selection

end Ustevent.Net
