import Ustevent.Core.BasicSemaphore
import Ustevent.Reasoning.Runs

/-!
# The permits of a semaphore

Any number of threads call `notify`, `wait` and `waitUntil`; a call is made of its atomic step and,
where that step asks for it, a step under the mutex.  Wake-ups without a permit leave a waiter where
it is, unless it has run out of time: such a wait takes a permit from `_count` all the same.
-/

namespace Ustevent.BasicSemaphore

open Reasoning

/-- A call of `notify`, `wait` or `waitUntil` and how far it has come. -/
inductive Call
  | notifying
  | notified
  /-- in the slow path -/
  | waiting (timed : Bool)
  | passed
  /-- `waitUntil` has returned `false` -/
  | timedOut
deriving DecidableEq

structure Calling where
  semaphore : BasicSemaphore
  calls : List Call
deriving DecidableEq

namespace Calling

inductive Action
  | notify
  | notifyLocked (i : Nat)
  | wait (timed : Bool)
  | waitLocked (i : Nat)
  | timeOut (i : Nat)
deriving DecidableEq

def initial (count : Nat) : Calling := ⟨create count, []⟩

def step (s : Calling) : Action → Option Calling
  | .notify =>
    let (slow, semaphore) := s.semaphore.notifyAtomic
    some ⟨semaphore, s.calls ++ [if slow then .notifying else .notified]⟩
  -- only a notify that has found a waiter gets as far as this
  | .notifyLocked i =>
    if s.calls[i]? = some .notifying then
      some ⟨s.semaphore.notifyLocked, s.calls.set i .notified⟩
    else none
  | .wait timed =>
    let (slow, semaphore) := s.semaphore.waitAtomic
    some ⟨semaphore, s.calls ++ [if slow then .waiting timed else .passed]⟩
  | .waitLocked i =>
    if (s.calls[i]? = some (.waiting false) ∨ s.calls[i]? = some (.waiting true)) ∧
        s.semaphore.admits = true then
      some ⟨s.semaphore.waitLocked, s.calls.set i .passed⟩
    else none
  -- a wait that has run out of time looks at the predicate once more
  | .timeOut i =>
    if s.calls[i]? = some (.waiting true) ∧ s.semaphore.admits = false then
      some ⟨s.semaphore.waitLocked, s.calls.set i .timedOut⟩
    else none

/-- The counter that the step changes stays in the range of its type. -/
def InRange (s : Calling) : Action → Prop
  | .notify => IsInt (s.semaphore.atomicCount + 1)
  | .notifyLocked _ => IsInt (s.semaphore.count + 1)
  | .wait _ => IsInt (s.semaphore.atomicCount - 1)
  | .waitLocked _ | .timeOut _ => IsInt (s.semaphore.count - 1)

instance decidableInRange (s : Calling) : DecidablePred s.InRange := fun a ↦ by
  cases a <;> exact inferInstanceAs (Decidable (IsInt _))

/-- The calls at a place. -/
def numberAt (s : Calling) (place : Call) : Nat := s.calls.count place

def notifies (s : Calling) : Nat := s.numberAt .notifying + s.numberAt .notified

def blocked (s : Calling) : Nat := s.numberAt (.waiting false) + s.numberAt (.waiting true)

/-- The waits that have been started. -/
def waits (s : Calling) : Nat := s.blocked + s.numberAt .passed + s.numberAt .timedOut

/-- What the users of a semaphore with `count` initial permits rely on. -/
structure Conserves (count : Nat) (s : Calling) : Prop where
  law : (s.numberAt .passed : Int) + min s.semaphore.count s.blocked =
    min (s.waits : Int) (count + s.notifies)
  passed_le : s.numberAt .passed ≤ count + s.notifies
  none_stranded : 0 < s.blocked → s.semaphore.admits = false →
    s.numberAt .passed = count + s.notifies

/-! ## The invariant -/

variable {count : Nat} {s t : Calling} {i : Nat} {old new place : Call} {a : Action}
  {as : List Action}

/-- The counters are what the calls have made of them.  Each wait that has timed out may have left
`_count` one less than a number of permits. -/
structure Inv (count : Nat) (s : Calling) : Prop where
  balanced : Balanced count (s.numberAt .notifying) s.blocked s.semaphore
  atomicCount : s.semaphore.atomicCount = (s.notifies : Int) - s.waits
  nonneg : 0 ≤ s.semaphore.count + s.numberAt .timedOut

theorem inv_initial (count : Nat) : Inv count (initial count) where
  balanced := create_balanced count
  atomicCount := rfl
  nonneg := Int.natCast_nonneg count

theorem numberAt_append (s : Calling) (semaphore : BasicSemaphore) (new place : Call) :
    numberAt ⟨semaphore, s.calls ++ [new]⟩ place =
      s.numberAt place + if new = place then 1 else 0 := by
  rw [numberAt, List.count_append, List.count_singleton, numberAt]
  simp only [beq_iff_eq]

theorem numberAt_set (hold : s.calls[i]? = some old) (semaphore : BasicSemaphore)
    (new place : Call) :
    numberAt ⟨semaphore, s.calls.set i new⟩ place + (if old = place then 1 else 0) =
      s.numberAt place + if new = place then 1 else 0 :=
  count_set_add hold new place

theorem blocked_append (s : Calling) (semaphore : BasicSemaphore) (new : Call) :
    blocked ⟨semaphore, s.calls ++ [new]⟩ =
      s.blocked + (if new = .waiting false then 1 else 0) + if new = .waiting true then 1 else 0 := by
  unfold blocked
  rw [numberAt_append, numberAt_append]
  omega

theorem blocked_set (hold : s.calls[i]? = some old) (semaphore : BasicSemaphore) (new : Call) :
    blocked ⟨semaphore, s.calls.set i new⟩ + (if old = .waiting false then 1 else 0) +
        (if old = .waiting true then 1 else 0) =
      s.blocked + (if new = .waiting false then 1 else 0) + if new = .waiting true then 1 else 0 := by
  have hwaiting := numberAt_set hold semaphore new (.waiting false)
  have htimed := numberAt_set hold semaphore new (.waiting true)
  unfold blocked
  omega

/-- What a step makes of the semaphore and of the numbers of the calls. -/
inductive Moves (s t : Calling) : Action → Prop
  | notify (hsemaphore : t.semaphore = s.semaphore.notifyAtomic.2)
    (hnotifying : t.numberAt .notifying =
      if s.semaphore.notifyAtomic.1 then s.numberAt .notifying + 1 else s.numberAt .notifying)
    (hnotifies : t.notifies = s.notifies + 1) (hblocked : t.blocked = s.blocked)
    (hpassed : t.numberAt .passed = s.numberAt .passed)
    (htimedOut : t.numberAt .timedOut = s.numberAt .timedOut) : Moves s t .notify
  | notifyLocked {i : Nat} (hsemaphore : t.semaphore = s.semaphore.notifyLocked)
    (hnotifying : t.numberAt .notifying + 1 = s.numberAt .notifying)
    (hnotifies : t.notifies = s.notifies) (hblocked : t.blocked = s.blocked)
    (hpassed : t.numberAt .passed = s.numberAt .passed)
    (htimedOut : t.numberAt .timedOut = s.numberAt .timedOut) : Moves s t (.notifyLocked i)
  | wait {timed : Bool} (hsemaphore : t.semaphore = s.semaphore.waitAtomic.2)
    (hnotifying : t.numberAt .notifying = s.numberAt .notifying)
    (hnotifies : t.notifies = s.notifies)
    (hblocked : t.blocked = if s.semaphore.waitAtomic.1 then s.blocked + 1 else s.blocked)
    (hpassed : t.blocked + t.numberAt .passed = s.blocked + s.numberAt .passed + 1)
    (htimedOut : t.numberAt .timedOut = s.numberAt .timedOut) : Moves s t (.wait timed)
  | waitLocked {i : Nat} (hadmits : s.semaphore.admits = true)
    (hsemaphore : t.semaphore = s.semaphore.waitLocked)
    (hnotifying : t.numberAt .notifying = s.numberAt .notifying)
    (hnotifies : t.notifies = s.notifies) (hblocked : t.blocked + 1 = s.blocked)
    (hpassed : t.numberAt .passed = s.numberAt .passed + 1)
    (htimedOut : t.numberAt .timedOut = s.numberAt .timedOut) : Moves s t (.waitLocked i)
  | timeOut {i : Nat} (hadmits : s.semaphore.admits = false)
    (hsemaphore : t.semaphore = s.semaphore.waitLocked)
    (hnotifying : t.numberAt .notifying = s.numberAt .notifying)
    (hnotifies : t.notifies = s.notifies) (hblocked : t.blocked + 1 = s.blocked)
    (hpassed : t.numberAt .passed = s.numberAt .passed)
    (htimedOut : t.numberAt .timedOut = s.numberAt .timedOut + 1) : Moves s t (.timeOut i)

theorem moves_notify (s : Calling) (semaphore : BasicSemaphore) (slow : Bool) :
    let t : Calling := ⟨semaphore, s.calls ++ [if slow then .notifying else .notified]⟩
    t.numberAt .notifying = (if slow then s.numberAt .notifying + 1 else s.numberAt .notifying) ∧
      t.notifies = s.notifies + 1 ∧ t.blocked = s.blocked ∧
      t.numberAt .passed = s.numberAt .passed ∧ t.numberAt .timedOut = s.numberAt .timedOut := by
  cases slow <;> simp [notifies, numberAt_append, blocked_append] <;> omega

theorem moves_wait (s : Calling) (semaphore : BasicSemaphore) (timed slow : Bool) :
    let t : Calling := ⟨semaphore, s.calls ++ [if slow then .waiting timed else .passed]⟩
    t.numberAt .notifying = s.numberAt .notifying ∧ t.notifies = s.notifies ∧
      t.blocked = (if slow then s.blocked + 1 else s.blocked) ∧
      t.blocked + t.numberAt .passed = s.blocked + s.numberAt .passed + 1 ∧
      t.numberAt .timedOut = s.numberAt .timedOut := by
  cases slow <;> cases timed <;> simp [notifies, numberAt_append, blocked_append] <;> omega

theorem moves_notifyLocked (hplace : s.calls[i]? = some .notifying) :
    Moves s ⟨s.semaphore.notifyLocked, s.calls.set i .notified⟩ (.notifyLocked i) := by
  have hnumber := numberAt_set hplace s.semaphore.notifyLocked .notified
  have hnotifying := hnumber .notifying
  have hnotified := hnumber .notified
  have hpassed := hnumber .passed
  have htimedOut := hnumber .timedOut
  have hblocked := blocked_set hplace s.semaphore.notifyLocked .notified
  simp only [reduceCtorEq, if_true, if_false, Nat.add_zero] at *
  refine .notifyLocked rfl hnotifying ?_ hblocked hpassed htimedOut
  unfold notifies
  omega

/-- A wait comes to its end, with a permit or without one. -/
theorem moves_leave {timed : Bool} (hplace : s.calls[i]? = some (.waiting timed))
    (hnew : new = .passed ∨ new = .timedOut) :
    let t : Calling := ⟨s.semaphore.waitLocked, s.calls.set i new⟩
    t.numberAt .notifying = s.numberAt .notifying ∧ t.notifies = s.notifies ∧
      t.blocked + 1 = s.blocked ∧
      t.numberAt .passed = s.numberAt .passed + (if new = .passed then 1 else 0) ∧
      t.numberAt .timedOut = s.numberAt .timedOut + if new = .timedOut then 1 else 0 := by
  have hnumber := numberAt_set hplace s.semaphore.waitLocked new
  have hnotifying := hnumber .notifying
  have hnotified := hnumber .notified
  have hpassed := hnumber .passed
  have htimedOut := hnumber .timedOut
  have hblocked := blocked_set hplace s.semaphore.waitLocked new
  unfold notifies
  rcases hnew with rfl | rfl <;> cases timed <;> simp at * <;> omega

theorem moves_of_step (hstep : s.step a = some t) : Moves s t a := by
  cases a with
  | notify =>
    have hmoves := moves_notify s s.semaphore.notifyAtomic.2 s.semaphore.notifyAtomic.1
    cases hstep
    exact .notify rfl hmoves.1 hmoves.2.1 hmoves.2.2.1 hmoves.2.2.2.1 hmoves.2.2.2.2
  | notifyLocked i =>
    rw [step, Option.ite_none_right_eq_some] at hstep
    exact Option.some.inj hstep.2 ▸ moves_notifyLocked hstep.1
  | wait timed =>
    have hmoves := moves_wait s s.semaphore.waitAtomic.2 timed s.semaphore.waitAtomic.1
    cases hstep
    exact .wait rfl hmoves.1 hmoves.2.1 hmoves.2.2.1 hmoves.2.2.2.1 hmoves.2.2.2.2
  | waitLocked i =>
    rw [step, Option.ite_none_right_eq_some] at hstep
    obtain ⟨⟨hplace, hadmits⟩, heq⟩ := hstep
    have hmoves : ∃ timed, s.calls[i]? = some (.waiting timed) :=
      hplace.elim (⟨_, ·⟩) (⟨_, ·⟩)
    obtain ⟨timed, hplace⟩ := hmoves
    have hmoves := moves_leave hplace (Or.inl rfl : Call.passed = .passed ∨ _)
    cases heq
    exact .waitLocked hadmits rfl hmoves.1 hmoves.2.1 hmoves.2.2.1 hmoves.2.2.2.1 hmoves.2.2.2.2
  | timeOut i =>
    rw [step, Option.ite_none_right_eq_some] at hstep
    obtain ⟨⟨hplace, hadmits⟩, heq⟩ := hstep
    have hmoves := moves_leave hplace (Or.inr rfl : Call.timedOut = .passed ∨ _)
    cases heq
    exact .timeOut hadmits rfl hmoves.1 hmoves.2.1 hmoves.2.2.1 hmoves.2.2.2.1 hmoves.2.2.2.2

theorem Inv.step (h : Inv count s) (hrange : s.InRange a) (hstep : s.step a = some t) :
    Inv count t := by
  have hmoves := moves_of_step hstep
  have hbalanced := h.balanced
  have hcount := h.atomicCount
  have hnonneg := h.nonneg
  unfold waits at hcount
  cases hmoves with
  | notify hsemaphore hnotifying hnotifies hblocked hpassed htimedOut =>
    have hatomic : s.semaphore.notifyAtomic.2.atomicCount = s.semaphore.atomicCount + 1 :=
      int32_of_isInt hrange
    refine ⟨?_, ?_, ?_⟩
    · rw [hsemaphore, hnotifying, hblocked]
      exact hbalanced.notifyAtomic hrange
    · rw [hsemaphore, hatomic, waits]
      omega
    · rw [hsemaphore, notifyAtomic_count, htimedOut]
      exact hnonneg
  | notifyLocked hsemaphore hnotifying hnotifies hblocked hpassed htimedOut =>
    have hlocked : s.semaphore.notifyLocked.count = s.semaphore.count + 1 := int32_of_isInt hrange
    refine ⟨?_, ?_, ?_⟩
    -- the notify that is under way becomes one more permit in `_count`
    · rw [hsemaphore, hblocked]
      rw [← hnotifying] at hbalanced
      exact hbalanced.notifyLocked hrange
    · rw [hsemaphore, notifyLocked_atomicCount, waits]
      omega
    · rw [hsemaphore, hlocked]
      omega
  | wait hsemaphore hnotifying hnotifies hblocked hpassed htimedOut =>
    have hatomic : s.semaphore.waitAtomic.2.atomicCount = s.semaphore.atomicCount - 1 :=
      int32_of_isInt hrange
    refine ⟨?_, ?_, ?_⟩
    · rw [hsemaphore, hnotifying, hblocked]
      exact hbalanced.waitAtomic hrange
    · rw [hsemaphore, hatomic, waits]
      omega
    · rw [hsemaphore, waitAtomic_count, htimedOut]
      exact hnonneg
  | waitLocked hadmits hsemaphore hnotifying hnotifies hblocked hpassed htimedOut
  | timeOut hadmits hsemaphore hnotifying hnotifies hblocked hpassed htimedOut =>
    have hlocked : s.semaphore.waitLocked.count = s.semaphore.count - 1 := int32_of_isInt hrange
    refine ⟨?_, ?_, ?_⟩
    -- the waiter goes together with a permit, or with what would have become one
    · rw [hsemaphore, hnotifying]
      rw [← hblocked] at hbalanced
      exact hbalanced.waitLocked hrange
    · rw [hsemaphore, waitLocked_atomicCount, waits]
      omega
    · rw [hsemaphore, hlocked]
      simp only [admits, decide_eq_true_eq, decide_eq_false_iff_not] at hadmits
      omega

theorem inv_of_run (hrange : Meets step InRange (initial count) as)
    (hrun : run step (initial count) as = some s) : Inv count s :=
  invariant_of_meets (Inv count) (fun _ _ _ h hrange hstep ↦ h.step hrange hstep)
    (inv_initial count) hrange hrun

/-- No wait passes without a permit, whatever the timed waits do. -/
theorem Inv.passed_le (h : Inv count s) : s.numberAt .passed ≤ count + s.notifies := by
  have hbalanced := h.balanced
  have hcount := h.atomicCount
  have hnonneg := h.nonneg
  unfold Balanced at hbalanced
  have hnotifies : s.numberAt .notifying ≤ s.notifies := Nat.le_add_right _ _
  unfold waits at hcount
  omega

/-! ## Runs within the range of the counters -/

/-- A run stays within the range of the counters if it has fewer than `2 ^ 31` permits and no more
than `2 ^ 31` waits. -/
theorem Inv.inRange (h : Inv count s) (hstep : s.step a = some t)
    (hpermits : count + t.notifies < 0x80000000) (hwaits : t.waits ≤ 0x80000000) :
    s.InRange a := by
  have hbalanced := h.balanced
  have hcount := h.atomicCount
  have hnonneg := h.nonneg
  unfold Balanced at hbalanced
  have hnotifies : s.numberAt .notifying ≤ s.notifies := Nat.le_add_right _ _
  have hmoves := moves_of_step hstep
  unfold waits at hwaits hcount
  cases hmoves with
  | notify hsemaphore hnotifying hnotifies hblocked hpassed htimedOut
  | notifyLocked hsemaphore hnotifying hnotifies hblocked hpassed htimedOut
  | wait hsemaphore hnotifying hnotifies hblocked hpassed htimedOut
  | waitLocked hadmits hsemaphore hnotifying hnotifies hblocked hpassed htimedOut
  | timeOut hadmits hsemaphore hnotifying hnotifies hblocked hpassed htimedOut =>
    unfold InRange IsInt
    dsimp only
    omega

theorem notifies_le_of_step (hstep : s.step a = some t) : s.notifies ≤ t.notifies := by
  have hmoves := moves_of_step hstep
  cases hmoves <;> omega

theorem waits_le_of_step (hstep : s.step a = some t) : s.waits ≤ t.waits := by
  have hmoves := moves_of_step hstep
  unfold waits
  cases hmoves <;> omega

theorem le_of_run (hrun : run step s as = some t) : s.notifies ≤ t.notifies ∧ s.waits ≤ t.waits :=
  invariant_of_run (fun u ↦ s.notifies ≤ u.notifies ∧ s.waits ≤ u.waits)
    (fun _ _ _ h hstep ↦ ⟨Nat.le_trans h.1 (notifies_le_of_step hstep),
      Nat.le_trans h.2 (waits_le_of_step hstep)⟩)
    ⟨Nat.le_refl _, Nat.le_refl _⟩ hrun

theorem meets_inRange (h : Inv count s) (hrun : run step s as = some t)
    (hpermits : count + t.notifies < 0x80000000) (hwaits : t.waits ≤ 0x80000000) :
    Meets step InRange s as := by
  induction as generalizing s with
  | nil => trivial
  | cons a as ih =>
    rw [run_cons, Option.bind_eq_some_iff] at hrun
    obtain ⟨u, hu, hrest⟩ := hrun
    have hle := le_of_run hrest
    have hrange : s.InRange a := h.inRange hu (by omega) (by omega)
    refine ⟨hrange, fun v hv ↦ ?_⟩
    cases hu.symm.trans hv
    exact ih (h.step hrange hu) hrest

/-! ## Time-outs -/

/-- The action is not a time-out. -/
def Action.InTime : Action → Prop
  | .timeOut _ => False
  | .notify | .notifyLocked _ | .wait _ | .waitLocked _ => True

instance : DecidablePred Action.InTime := fun a ↦ by
  cases a <;> unfold Action.InTime <;> infer_instance

theorem timedOut_step (hinTime : a.InTime) (hstep : s.step a = some t) :
    t.numberAt .timedOut = s.numberAt .timedOut := by
  have hmoves := moves_of_step hstep
  cases hmoves with
  | notify hsemaphore hnotifying hnotifies hblocked hpassed htimedOut
  | notifyLocked hsemaphore hnotifying hnotifies hblocked hpassed htimedOut
  | wait hsemaphore hnotifying hnotifies hblocked hpassed htimedOut
  | waitLocked hadmits hsemaphore hnotifying hnotifies hblocked hpassed htimedOut => exact htimedOut
  | timeOut => exact hinTime.elim

/-- Without a wait that has timed out, `_count` is what the permits leave over. -/
theorem Inv.conserves (h : Inv count s) (hinTime : s.numberAt .timedOut = 0)
    (hquiet : s.numberAt .notifying = 0) : s.Conserves count := by
  have hbalanced := h.balanced
  have hcount := h.atomicCount
  have hnonneg := h.nonneg
  unfold Balanced at hbalanced
  have hwaits : s.waits = s.blocked + s.numberAt .passed + s.numberAt .timedOut := rfl
  refine ⟨?_, ?_, ?_⟩
  · omega
  · omega
  · intro hwaiting hadmits
    have hempty : ¬ 0 < s.semaphore.count := of_decide_eq_false hadmits
    omega

/-- A call of `notify` or of `wait`. -/
def Action.Untimed : Action → Prop
  | .wait timed => timed = false
  | .timeOut _ => False
  | .notify | .notifyLocked _ | .waitLocked _ => True

instance : DecidablePred Action.Untimed := fun a ↦ by
  cases a <;> unfold Action.Untimed <;> infer_instance

theorem Action.Untimed.inTime (h : a.Untimed) : a.InTime := by
  cases a with
  | timeOut i => exact h
  | notify | notifyLocked | wait | waitLocked => trivial

/-- In a run of notifies and waits that keeps the counters within their range, no wait passes
without a permit and no permit is stranded while a waiter is blocked. -/
theorem conserves_of_run (huntimed : ∀ a ∈ as, a.Untimed)
    (hrange : Meets step InRange (initial count) as) (hrun : run step (initial count) as = some s)
    (hquiet : s.numberAt .notifying = 0) : s.Conserves count := by
  have hinTime : s.numberAt .timedOut = 0 :=
    invariant_of_meets (numberAt · .timedOut = 0)
      (fun _ _ _ h hok hstep ↦ (timedOut_step hok hstep).trans h) rfl
      (meets_of_forall step _ fun a ha ↦ (huntimed a ha).inTime) hrun
  exact (inv_of_run hrange hrun).conserves hinTime hquiet

/-- Two waits on one permit, of which the second one passes on the notify of another thread. -/
def waitTwice : List Action :=
  [.wait false, .waitLocked 0, .wait false, .notify, .notifyLocked 2, .waitLocked 1]

theorem conserves_of_run_waitTwice :
    ∃ s, run step (initial 1) waitTwice = some s ∧ s.Conserves 1 :=
  ⟨_, rfl, conserves_of_run (by decide) (by decide)
    (rfl : run step (initial 1) waitTwice = some _) (by decide)⟩

/-- With all the permits that an `int` holds, a notify between the two steps of a wait. -/
def fullRun : List Action := [.wait false, .notify, .notifyLocked 1]

theorem not_conserves_fullRun : (∀ a ∈ fullRun, a.Untimed) ∧
    ∃ s, run step (initial 0x7fffffff) fullRun = some s ∧ s.numberAt .notifying = 0 ∧
      ¬ s.Conserves 0x7fffffff :=
  ⟨by decide, _, rfl, by decide, fun h ↦ absurd h.law (by decide)⟩

end Calling

end Ustevent.BasicSemaphore
