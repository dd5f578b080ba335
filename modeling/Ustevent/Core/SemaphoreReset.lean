import Ustevent.Core.Permits

/-!
# What `reset` leaves behind

The owner of a semaphore resets it before it is handed to the next user, at a time when no call is
under way.  `_count` is cleared only where `_atomic_count` says that waits are owed a permit.
-/

namespace Ustevent.BasicSemaphore

open Reasoning

/-- The call has returned. -/
def Call.Returned (call : Call) : Prop :=
  call = .notified ∨ call = .passed ∨ call = .timedOut

instance : DecidablePred Call.Returned := fun call ↦ by
  unfold Call.Returned; infer_instance

/-- No thread is inside a call. -/
def Calling.AtRest (s : Calling) : Prop := ∀ call ∈ s.calls, call.Returned

instance : DecidablePred Calling.AtRest := fun s ↦ by
  unfold Calling.AtRest; infer_instance

/-- The calls of the next user, who may reset the semaphore as well. -/
structure Reuse where
  calling : Calling
  /-- the resets, and whether each of them still has to take its locked step -/
  resets : List Bool
deriving DecidableEq

namespace Reuse

inductive Action
  | use (a : Calling.Action)
  | reset
  | resetLocked (i : Nat)
deriving DecidableEq

def initial (semaphore : BasicSemaphore) : Reuse := ⟨⟨semaphore, []⟩, []⟩

def step (s : Reuse) : Action → Option Reuse
  | .use a => (s.calling.step a).map fun calling ↦ { s with calling := calling }
  | .reset =>
    let (slow, semaphore) := s.calling.semaphore.resetAtomic
    some ⟨⟨semaphore, s.calling.calls⟩, s.resets ++ [slow]⟩
  | .resetLocked i =>
    if s.resets[i]? = some true then
      some ⟨⟨s.calling.semaphore.resetLocked, s.calling.calls⟩, s.resets.set i false⟩
    else none

/-- The step keeps the counters within the range of their type. -/
def InRange (s : Reuse) : Action → Prop
  | .use a => s.calling.InRange a
  | .reset | .resetLocked _ => True

/-- How far the calls of a sequence of steps come, unless one of the steps is not possible. -/
def outcome (semaphore : BasicSemaphore) (as : List Action) : Option (List Call × List Bool) :=
  (run step (initial semaphore) as).map fun s ↦ (s.calling.calls, s.resets)

end Reuse

/-- The semaphore is as good as a new one with count 0.  Not even that one would hold back all waits
once `_atomic_count` has wrapped around. -/
structure Renewed (semaphore : BasicSemaphore) : Prop where
  same : ∀ as, Reuse.outcome semaphore as = Reuse.outcome (create 0) as
  none_early : ∀ as s, run Reuse.step (Reuse.initial semaphore) as = some s →
    Meets Reuse.step Reuse.InRange (Reuse.initial semaphore) as → .use .notify ∉ as →
    s.calling.numberAt .passed = 0

/-! ## A new semaphore -/

variable {count : Nat} {s t : Calling} {a : Calling.Action} {as : List Calling.Action}
  {u v : Reuse} {b : Reuse.Action}

namespace Reuse

/-- As long as there has been no notify, there are no permits. -/
structure Closed (u : Reuse) : Prop where
  atomicCount : u.calling.semaphore.atomicCount ≤ 0
  count : u.calling.semaphore.count ≤ 0
  notifying : u.calling.numberAt .notifying = 0
  passed : u.calling.numberAt .passed = 0

theorem closed_initial : Closed (initial (create 0)) :=
  ⟨Int.le_refl 0, Int.le_refl 0, rfl, rfl⟩

theorem Closed.not_admits (h : Closed u) : ¬ u.calling.semaphore.admits = true := by
  have hcount := h.count
  intro hadmits
  have hpos : 0 < u.calling.semaphore.count := of_decide_eq_true hadmits
  omega

theorem Closed.step (h : Closed u) (hb : b ≠ .use .notify) (hrange : u.InRange b)
    (hstep : u.step b = some v) :
    Closed v := by
  have hatomic := h.atomicCount
  have hcount := h.count
  cases b with
  | use a =>
    rw [Reuse.step, Option.map_eq_some_iff] at hstep
    obtain ⟨t, ht, rfl⟩ := hstep
    cases a with
    | notify => exact absurd rfl hb
    | notifyLocked i =>
      rw [Calling.step, Option.ite_none_right_eq_some] at ht
      have hmem := List.count_eq_zero.mp h.notifying
      exact absurd (List.mem_of_getElem? ht.1) hmem
    | wait timed =>
      have hone : u.calling.semaphore.atomicCount < 1 := by omega
      have hwait : u.calling.semaphore.waitAtomic.2.atomicCount =
          u.calling.semaphore.atomicCount - 1 := int32_of_isInt hrange
      simp only [Calling.step, waitAtomic, hone, decide_true, if_true, Option.some.injEq] at ht hwait
      subst ht
      refine ⟨?_, hcount, ?_, ?_⟩
      · dsimp only
        omega
      · rw [Calling.numberAt_append, h.notifying, if_neg Call.noConfusion]
      · rw [Calling.numberAt_append, h.passed, if_neg Call.noConfusion]
    | waitLocked i =>
      rw [Calling.step, Option.ite_none_right_eq_some] at ht
      exact absurd ht.1.2 h.not_admits
    | timeOut i =>
      rw [Calling.step, Option.ite_none_right_eq_some] at ht
      obtain ⟨⟨hplace, -⟩, heq⟩ := ht
      cases heq
      have hnumber := Calling.numberAt_set hplace u.calling.semaphore.waitLocked .timedOut
      have hnotifying := hnumber .notifying
      have hpassed := hnumber .passed
      simp only [reduceCtorEq, if_false, Nat.add_zero] at hnotifying hpassed
      have hlocked : u.calling.semaphore.waitLocked.count = u.calling.semaphore.count - 1 :=
        int32_of_isInt hrange
      refine ⟨hatomic, ?_, hnotifying.trans h.notifying, hpassed.trans h.passed⟩
      dsimp only
      omega
  | reset =>
    cases hstep
    exact ⟨Int.le_refl 0, hcount, h.notifying, h.passed⟩
  | resetLocked i =>
    rw [Reuse.step, Option.ite_none_right_eq_some] at hstep
    obtain ⟨-, heq⟩ := hstep
    cases heq
    exact ⟨hatomic, Int.le_refl 0, h.notifying, h.passed⟩

end Reuse

theorem renewed_create : Renewed (create 0) where
  same _ := rfl
  none_early as s hrun hrange hnone := by
    have hok : Meets Reuse.step (fun _ b ↦ b ≠ .use .notify) (Reuse.initial (create 0)) as := by
      refine meets_of_forall Reuse.step _ ?_
      rintro b hmem rfl
      exact hnone hmem
    have hclosed : Reuse.Closed s :=
      invariant_of_meets Reuse.Closed (fun _ _ _ h hb hstep ↦ h.step hb.1 hb.2 hstep)
        Reuse.closed_initial (hok.and hrange) hrun
    exact hclosed.passed

/-! ## The semaphore at rest -/

/-- What has come of a step is an `int`. -/
theorem isInt_count_step (h : s.semaphore.count < 0 → IsInt s.semaphore.count)
    (hstep : s.step a = some t) : t.semaphore.count < 0 → IsInt t.semaphore.count := by
  have hmoves := Calling.moves_of_step hstep
  cases hmoves with
  | notify hsemaphore | wait hsemaphore =>
    rw [hsemaphore]
    exact h
  | notifyLocked hsemaphore =>
    rw [hsemaphore]
    exact fun _ ↦ isInt_int32 _
  | waitLocked hadmits hsemaphore | timeOut hadmits hsemaphore =>
    rw [hsemaphore]
    exact fun _ ↦ isInt_int32 _

/-- `_count` is cleared only where waits are owed more than there have been notifies. -/
theorem reset_eq (semaphore : BasicSemaphore) :
    semaphore.reset = ⟨0, if semaphore.atomicCount < 0 then 0 else semaphore.count⟩ := by
  unfold reset resetAtomic resetLocked
  by_cases hneg : semaphore.atomicCount < 0
  · rw [if_pos hneg, if_pos (decide_eq_true hneg)]
  · rw [if_neg hneg, if_neg (by simpa using hneg)]

/-- A semaphore with permits in `_count` lets a wait pass at once, and one that is short of permits
does not let it pass after a notify either. -/
theorem not_renewed {count : Int} (hcount : count ≠ 0) (hint : count < 0 → IsInt count) :
    ¬ Renewed ⟨0, count⟩ := by
  intro h
  obtain hneg | hpos := Int.lt_or_gt_of_ne hcount
  · have hlocked : int32 (count + 1) = count + 1 := by
      have hint := hint hneg
      unfold IsInt at hint
      apply int32_of_isInt
      unfold IsInt
      omega
    have hsame := h.same [.use (.wait false), .use .notify, .use (.notifyLocked 1),
      .use (.waitLocked 0)]
    have hnone : ¬ 0 < count + 1 := by omega
    simp [Reuse.outcome, Reuse.step, Reuse.initial, Calling.step, waitAtomic, notifyAtomic,
      notifyLocked, admits, create, hlocked, hnone, show int32 (-1) = -1 from rfl,
      show int32 1 = 1 from rfl] at hsame
  · have hsame := h.same [.use (.wait false), .use (.waitLocked 0)]
    simp [Reuse.outcome, Reuse.step, Reuse.initial, Calling.step, waitAtomic, admits, create,
      hpos] at hsame

theorem atRest_count (hinv : s.Inv count) (hrest : s.AtRest) :
    s.semaphore.count = count + min s.semaphore.atomicCount 0 := by
  have hnone : ∀ place : Call, ¬ place.Returned → s.numberAt place = 0 := fun place hplace ↦
    List.count_eq_zero.mpr fun hmem ↦ hplace (hrest place hmem)
  have hbalanced := hinv.balanced
  rw [Calling.blocked, hnone .notifying (by decide), hnone (.waiting false) (by decide),
    hnone (.waiting true) (by decide)] at hbalanced
  unfold Balanced at hbalanced
  omega

/-- `reset` makes the semaphore as good as new if and only if it clears `_count` or finds it cleared,
which is, as long as the counters stay within their range, if and only if there were no initial
permits or more waits than notifies have been started. -/
theorem renewed_reset_iff (hrun : run Calling.step (Calling.initial count) as = some s)
    (hrest : s.AtRest) :
    (Renewed s.semaphore.reset ↔ s.semaphore.count = 0 ∨ s.semaphore.atomicCount < 0) ∧
    (Meets Calling.step Calling.InRange (Calling.initial count) as →
      (Renewed s.semaphore.reset ↔ count = 0 ∨ s.semaphore.atomicCount < 0)) := by
  have hint : s.semaphore.count < 0 → IsInt s.semaphore.count :=
    invariant_of_run (fun s : Calling ↦ s.semaphore.count < 0 → IsInt s.semaphore.count)
      (fun _ _ _ h hstep ↦ isInt_count_step h hstep)
      (fun hneg ↦ absurd hneg (Int.not_lt.mpr (Int.natCast_nonneg count))) hrun
  have hiff : Renewed s.semaphore.reset ↔ s.semaphore.count = 0 ∨ s.semaphore.atomicCount < 0 := by
    rw [reset_eq]
    by_cases hneg : s.semaphore.atomicCount < 0
    · rw [if_pos hneg]
      exact iff_of_true renewed_create (Or.inr hneg)
    rw [if_neg hneg]
    by_cases hcount : s.semaphore.count = 0
    · rw [hcount]
      exact iff_of_true renewed_create (Or.inl rfl)
    · apply iff_of_false (not_renewed hcount hint)
      rintro (hzero | hlt)
      · exact hcount hzero
      · exact hneg hlt
  refine ⟨hiff, fun hrange ↦ hiff.trans ?_⟩
  have hcount := atRest_count (Calling.inv_of_run hrange hrun) hrest
  constructor
  · omega
  · omega

/-- A wait that has been served and one that has timed out. -/
def servedRun : List Calling.Action := [.wait true, .waitLocked 0, .wait true, .timeOut 1]

theorem renewed_reset_iff_servedRun :
    ∃ s, run Calling.step (Calling.initial 1) servedRun = some s ∧
      (Renewed s.semaphore.reset ↔ s.semaphore.count = 0 ∨ s.semaphore.atomicCount < 0) ∧
      (Renewed s.semaphore.reset ↔ 1 = 0 ∨ s.semaphore.atomicCount < 0) :=
  have h := renewed_reset_iff (rfl : run Calling.step (Calling.initial 1) servedRun = some _)
    (by decide)
  ⟨_, rfl, h.1, h.2 (by decide)⟩

/-- Without a call, the initial permit survives the reset. -/
theorem not_renewed_unused : ∃ s, run Calling.step (Calling.initial 1) [] = some s ∧ s.AtRest ∧
    ¬ Renewed s.semaphore.reset :=
  ⟨_, rfl, by decide, not_renewed (by decide) (by decide)⟩

end Ustevent.BasicSemaphore
