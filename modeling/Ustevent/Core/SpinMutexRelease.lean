import Ustevent.Core.SpinMutex

/-!
# What an unlock leaves behind

The threads share one spin mutex.  An `unlock` that returns has freed it or has let in the waiter
behind its thread, unless the missing branch of `unlock` has lost the release.
-/

namespace Ustevent.SpinMutex

open Reasoning

/-- `granted` is history: the waiters whose `_locked` the current or the last `unlock` of a thread
has cleared. -/
structure Releasing where
  locking : Locking
  granted : Nat → List Nat

/-- The thread spins, and its `_locked` is set. -/
def Locking.spinning (s : Locking) (t : Nat) : Bool :=
  match s.place t with
  | .spins _ _ => s.locked t
  | _ => false

namespace Releasing

inductive Action
  | lock (thread : Nat)
  | unlock (thread : Nat)
  | proceed (thread : Nat)
deriving DecidableEq

/-- The action on mutex 0. -/
def Action.toLocking : Action → SpinMutex.Action
  | .lock t => .lock t 0
  | .unlock t => .unlock t 0
  | .proceed t => .proceed t

def initial : Releasing := ⟨.initial, fun _ ↦ []⟩

/-- What an `unlock` of the thread has granted so far. -/
def grants (s : Releasing) : Action → Nat → List Nat
  | .lock _, u => s.granted u
  | .unlock t, u => if u = t then [] else s.granted u
  | .proceed t, u =>
    match s.locking.place t with
    | .handsOver _ next =>
      if u = t ∧ s.locking.spinning next = true then next :: s.granted t else s.granted u
    | _ => s.granted u

def step (s : Releasing) (a : Action) : Option Releasing :=
  (s.locking.step a.toLocking).map fun locking ↦ ⟨locking, s.grants a⟩

/-- With the step, an `unlock` of the thread returns. -/
def EndsUnlock (s : Releasing) (t : Nat) (a : Action) (s' : Releasing) : Prop :=
  s'.locking.place t = .outside ∧
    (a = .unlock t ∨ a = .proceed t ∧ (s.locking.place t).releases = true)

/-- When an `unlock` returns, the mutex is free, or the call has let in exactly one waiter. -/
def ReleasesWell (s : Releasing) (a : Action) : Prop :=
  ∀ t s', s.step a = some s' → s.EndsUnlock t a s' →
    s'.locking.tail 0 = none ∨ ∃ u, s'.granted t = [u]

/-- An `unlock` that is called finds `_next` null. -/
def FindsNoNext (s : Releasing) (a : Action) : Prop :=
  ∀ t, a = .unlock t → s.locking.next t = none

/-! ## The invariant -/

variable {s s' : Releasing} {a : Action} {t u m : Nat} {as : List Action}

/-- What an `unlock` has granted when its thread is at a place: nothing before the hand-over. -/
@[grind] def Fits : Place → List Nat → Prop
  | .clears _, granted | .awaits _, granted | .grants _, granted | .handsOver _ _, granted =>
    granted = []
  | .resets _, granted => ∃ u, granted = [u]
  | .outside, _ | .queued _ _, _ | .links _ _, _ | .spins _ _, _ => True

structure Inv (s : Releasing) : Prop where
  locking : Locking.Inv s.locking
  exclusive : s.locking.Exclusive
  one : ∀ t m, s.locking.InLine t m → m = 0
  history : ∀ t, Fits (s.locking.place t) (s.granted t)

theorem inv_initial : Inv initial where
  locking := Locking.inv_initial
  exclusive := Locking.exclusive_initial
  one := by
    simp only [initial, Locking.initial]
    grind
  history _ := trivial

theorem Inv.locking_step (h : Inv s) {locking : Locking}
    (hstep : s.locking.step a.toLocking = some locking) :
    Locking.Inv locking ∧ locking.Exclusive ∧ ∀ t m, locking.InLine t m → m = 0 := by
  have hsingle : s.locking.Single := fun t m n hm hn ↦ (h.one t m hm).trans (h.one t n hn).symm
  obtain ⟨hiff, hinv⟩ := h.locking.step h.exclusive hstep
  have hexclusive := hiff.mpr (hsingle.ownWaiter h.locking a.toLocking)
  refine ⟨hinv hexclusive, hexclusive, fun t m hline ↦ ?_⟩
  rcases Locking.inLine_of_step hstep hline with hline | ⟨-, hlock | hlock⟩
  · exact h.one t m hline
  · cases a <;> simp_all [Action.toLocking]
  · cases a <;> simp_all [Action.toLocking]

theorem Inv.spinning (h : Inv s) (ht : s.locking.place t = .handsOver m u) :
    s.locking.spinning u = true := by
  obtain ⟨m', hspins, hlocked⟩ := h.locking.links.handsOver t m u ht
  rw [Locking.spinning, hspins]
  exact hlocked

theorem Inv.history_step (h : Inv s) {locking : Locking}
    (hstep : s.locking.step a.toLocking = some locking) :
    ∀ t, Fits (locking.place t) (s.grants a t) := by
  have hhistory := h.history
  cases a with
  | lock u | unlock u =>
    rw [Action.toLocking, Locking.step, Option.ite_none_right_eq_some] at hstep
    obtain ⟨hout, hstep⟩ := hstep
    split at hstep <;> cases hstep <;> grind [Releasing.grants]
  | proceed u =>
    rw [Action.toLocking] at hstep
    cases hu : s.locking.place u with
    | outside =>
      simp only [Locking.step, hu] at hstep
      contradiction
    | queued n p | links n p | resets n =>
      simp only [Locking.step, hu, Option.some.injEq] at hstep
      subst hstep
      grind [Releasing.grants]
    | spins n p | awaits n =>
      simp only [Locking.step, hu, Option.some.injEq] at hstep
      split at hstep <;> subst hstep <;> grind [Releasing.grants]
    | clears n | grants n =>
      simp only [Locking.step, hu] at hstep
      split at hstep <;> cases hstep <;> grind [Releasing.grants]
    | handsOver n v =>
      have hspinning := h.spinning hu
      simp only [Locking.step, hu, Option.some.injEq] at hstep
      subst hstep
      grind [Releasing.grants]

theorem Inv.step (h : Inv s) (hstep : s.step a = some s') : Inv s' := by
  rw [Releasing.step, Option.map_eq_some_iff] at hstep
  obtain ⟨locking, hlocking, rfl⟩ := hstep
  obtain ⟨hinv, hexclusive, hone⟩ := h.locking_step hlocking
  exact ⟨hinv, hexclusive, hone, h.history_step hlocking⟩

/-! ## The returns -/

/-- A call inside `unlock` returns from its compare-exchange or after the hand-over. -/
theorem Inv.returns (h : Inv s) {locking : Locking} (hreleases : (s.locking.place t).releases = true)
    (hstep : s.locking.step (.proceed t) = some locking) (hout : locking.place t = .outside) :
    locking.tail 0 = none ∨ ∃ u, s.grants (.proceed t) t = [u] := by
  have hhistory := h.history t
  cases ht : s.locking.place t with
  | outside | queued m p | links m p | spins m p =>
    rw [ht] at hreleases
    contradiction
  | clears m =>
    have hheld := h.locking.owners.holds t m (Or.inl ht)
    have hm : m = 0 := h.one t m (Or.inl hheld)
    simp only [Locking.step, ht] at hstep
    split at hstep <;> cases hstep
    · exact Or.inl (if_pos hm.symm)
    · simp at hout
  | awaits m =>
    simp only [Locking.step, ht, Option.some.injEq] at hstep
    split at hstep <;> subst hstep <;> simp [ht] at hout
  | grants m =>
    simp only [Locking.step, ht] at hstep
    split at hstep <;> cases hstep
    simp at hout
  | handsOver m u =>
    simp only [Locking.step, ht, Option.some.injEq] at hstep
    subst hstep
    simp at hout
  | resets m =>
    rw [ht] at hhistory
    right
    simp only [Releasing.grants, ht]
    exact hhistory

/-- Only the missing branch of `unlock` returns without a release: its thread holds the mutex, so
that the mutex has a tail, and it has granted nothing. -/
theorem Inv.releasesWell_iff (h : Inv s) (hstep : s.step a = some s') :
    s.ReleasesWell a ↔ s.FindsNoNext a := by
  have hstep' := hstep
  rw [Releasing.step, Option.map_eq_some_iff] at hstep'
  obtain ⟨locking, hlocking, rfl⟩ := hstep'
  have hwell : s.ReleasesWell a ↔ ∀ t, s.EndsUnlock t a ⟨locking, s.grants a⟩ →
      locking.tail 0 = none ∨ ∃ u, s.grants a t = [u] := by
    unfold ReleasesWell
    simp only [hstep, Option.some.injEq, forall_eq']
  rw [hwell]
  unfold EndsUnlock FindsNoNext
  cases a with
  | lock u => simp
  | proceed u =>
    refine iff_of_true ?_ (fun t heq ↦ Action.noConfusion heq)
    rintro t ⟨hout, heq | ⟨heq, hreleases⟩⟩
    · cases heq
    · cases heq
      exact h.returns hreleases hlocking hout
  | unlock u =>
    rw [Action.toLocking, Locking.step, Option.ite_none_right_eq_some] at hlocking
    obtain ⟨⟨hout, hheld⟩, hlocking⟩ := hlocking
    have htail : s.locking.tail 0 ≠ none := fun hnone ↦
      h.locking.owners.free 0 u hnone (Or.inl hheld)
    cases hnext : s.locking.next u with
    | none =>
      rw [hnext] at hlocking
      cases hlocking
      refine iff_of_true ?_ ?_
      · rintro t ⟨hout', heq | ⟨heq, -⟩⟩
        · cases heq
          simp at hout'
        · cases heq
      · intro t heq
        cases heq
        exact hnext
    | some next =>
      rw [hnext] at hlocking
      cases hlocking
      refine iff_of_false ?_ ?_
      · intro hall
        rcases hall u ⟨hout, Or.inl rfl⟩ with hnone | ⟨v, hv⟩
        · exact htail hnone
        · simp [Releasing.grants] at hv
      · intro hall
        rw [hall u rfl] at hnext
        contradiction

/-- Every `unlock` of a run that returns has freed the mutex or has let in exactly one waiter, if
and only if each of them has found `_next` null when it was called. -/
theorem releasesWell_iff_findsNoNext (hrun : run step initial as = some s) :
    Meets step ReleasesWell initial as ↔ Meets step FindsNoNext initial as :=
  meets_iff_meets_of_run Inv (fun _ _ _ h hstep ↦ ⟨h.step hstep, h.releasesWell_iff hstep⟩)
    inv_initial hrun

/-- The waiter is half linked when the thread that holds the mutex unlocks it. -/
def halfLinked : List Action :=
  [.lock 0, .lock 1, .proceed 1, .unlock 0, .proceed 0, .proceed 1, .proceed 0, .proceed 0,
    .proceed 0, .proceed 0]

theorem releasesWell_iff_findsNoNext_halfLinked : (run step initial halfLinked).isSome = true ∧
    (Meets step ReleasesWell initial halfLinked ↔ Meets step FindsNoNext initial halfLinked) :=
  ⟨rfl, releasesWell_iff_findsNoNext (rfl : run step initial halfLinked = some _)⟩

/-- The waiter is linked by then, and nobody lets it in. -/
def fullyLinked : List Action := [.lock 0, .lock 1, .proceed 1, .proceed 1, .unlock 0]

theorem not_releasesWell_fullyLinked : (run step initial fullyLinked).isSome = true ∧
    ¬ Meets step ReleasesWell initial fullyLinked := by
  refine ⟨rfl, fun h ↦ ?_⟩
  have hunlock := ((((h.2 _ rfl).2 _ rfl).2 _ rfl).2 _ rfl).1
  rcases hunlock 0 _ rfl ⟨rfl, Or.inl rfl⟩ with hfree | ⟨u, hgranted⟩
  · exact absurd hfree (by decide)
  · cases hgranted

end Releasing

end Ustevent.SpinMutex
