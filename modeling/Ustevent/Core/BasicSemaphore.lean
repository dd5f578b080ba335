import Mathlib.Tactic.Common

/-!
# The semaphore with two counters

`BasicSemaphore` changes `_atomic_count` in one atomic step and touches `_count`, under its mutex,
only where that step tells it to.  The calls are given by these two steps, so that the callers of a
model can interleave them.  Both counters are of type `int`.
-/

namespace Ustevent

/-- The `int` that is left of a result.  `_atomic_count` wraps around as every atomic integer does;
an overflow of `_count` is undefined in the source, and here wraps around as well. -/
def int32 (x : Int) : Int := x.bmod 0x100000000

/-- The result is an `int` as it is. -/
def IsInt (x : Int) : Prop := -0x80000000 ≤ x ∧ x < 0x80000000

instance : DecidablePred IsInt := fun _ ↦ inferInstanceAs (Decidable (_ ∧ _))

theorem int32_of_isInt {x : Int} (h : IsInt x) : int32 x = x := by
  unfold IsInt at h
  unfold int32
  rw [Int.bmod_eq_of_le]
  · omega
  · omega

theorem isInt_int32 (x : Int) : IsInt (int32 x) := by
  have hlow := Int.le_bmod (x := x) (m := 0x100000000) (by decide)
  have hhigh := Int.bmod_lt (x := x) (m := 0x100000000) (by decide)
  unfold IsInt int32
  omega

structure BasicSemaphore where
  atomicCount : Int
  count : Int
deriving DecidableEq

namespace BasicSemaphore

/-- The constructor leaves `_atomic_count` at 0 whatever the count is. -/
def create (count : Int) : BasicSemaphore := ⟨0, count⟩

/-- The atomic step of `notify`, and whether the locked step follows. -/
def notifyAtomic (s : BasicSemaphore) : Bool × BasicSemaphore :=
  (decide (s.atomicCount < 0), { s with atomicCount := int32 (s.atomicCount + 1) })

def notifyLocked (s : BasicSemaphore) : BasicSemaphore := { s with count := int32 (s.count + 1) }

/-- Both steps of `notify`. -/
def notify (s : BasicSemaphore) : BasicSemaphore :=
  if s.notifyAtomic.1 then s.notifyAtomic.2.notifyLocked else s.notifyAtomic.2

/-- The atomic step of `wait` and `waitUntil`, and whether the caller has to wait. -/
def waitAtomic (s : BasicSemaphore) : Bool × BasicSemaphore :=
  (decide (s.atomicCount < 1), { s with atomicCount := int32 (s.atomicCount - 1) })

/-- The predicate of the condition variable. -/
def admits (s : BasicSemaphore) : Bool := decide (0 < s.count)

/-- The end of a wait, also of one that has timed out. -/
def waitLocked (s : BasicSemaphore) : BasicSemaphore := { s with count := int32 (s.count - 1) }

/-- The atomic step of `reset`, and whether the locked step follows. -/
def resetAtomic (s : BasicSemaphore) : Bool × BasicSemaphore :=
  (decide (s.atomicCount < 0), { s with atomicCount := 0 })

def resetLocked (s : BasicSemaphore) : BasicSemaphore := { s with count := 0 }

/-- Both steps of `reset`. -/
def reset (s : BasicSemaphore) : BasicSemaphore :=
  if s.resetAtomic.1 then s.resetAtomic.2.resetLocked else s.resetAtomic.2

@[simp] theorem notifyAtomic_count (s : BasicSemaphore) : s.notifyAtomic.2.count = s.count := rfl

@[simp] theorem notifyLocked_atomicCount (s : BasicSemaphore) :
    s.notifyLocked.atomicCount = s.atomicCount := rfl

@[simp] theorem waitAtomic_count (s : BasicSemaphore) : s.waitAtomic.2.count = s.count := rfl

@[simp] theorem waitLocked_atomicCount (s : BasicSemaphore) :
    s.waitLocked.atomicCount = s.atomicCount := rfl

/-- With `notifying` calls between the two steps of a notify and `waiting` calls in the slow path of
a wait, `_count` makes up for the negative part of `_atomic_count`. -/
def Balanced (initial : Int) (notifying waiting : Nat) (s : BasicSemaphore) : Prop :=
  s.count + notifying = initial + min s.atomicCount 0 + waiting

variable {initial : Int} {notifying waiting : Nat} {s : BasicSemaphore}

theorem create_balanced (count : Int) : Balanced count 0 0 (create count) := by
  simp [Balanced, create]

theorem Balanced.notifyAtomic (h : Balanced initial notifying waiting s)
    (hrange : IsInt (s.atomicCount + 1)) :
    Balanced initial (if s.notifyAtomic.1 then notifying + 1 else notifying) waiting
      s.notifyAtomic.2 := by
  unfold Balanced BasicSemaphore.notifyAtomic at *
  rw [int32_of_isInt hrange]
  by_cases hneg : s.atomicCount < 0
  · simp only [hneg, decide_true, if_true]
    omega
  · simp only [hneg, decide_false, Bool.false_eq_true, if_false]
    omega

theorem Balanced.notifyLocked (h : Balanced initial (notifying + 1) waiting s)
    (hrange : IsInt (s.count + 1)) : Balanced initial notifying waiting s.notifyLocked := by
  unfold Balanced BasicSemaphore.notifyLocked at *
  rw [int32_of_isInt hrange]
  dsimp only
  omega

/-- Both steps of a notify give an `int`. -/
def NotifyInRange (s : BasicSemaphore) : Prop :=
  IsInt (s.atomicCount + 1) ∧ (s.atomicCount < 0 → IsInt (s.count + 1))

instance : DecidablePred NotifyInRange := fun _ ↦ inferInstanceAs (Decidable (_ ∧ _))

theorem Balanced.notify (h : Balanced initial notifying waiting s) (hrange : s.NotifyInRange) :
    Balanced initial notifying waiting s.notify := by
  have hatomic := h.notifyAtomic hrange.1
  unfold BasicSemaphore.notify
  by_cases hslow : s.notifyAtomic.1 = true
  · rw [if_pos hslow] at hatomic ⊢
    exact hatomic.notifyLocked (hrange.2 (of_decide_eq_true hslow))
  · rw [if_neg hslow] at hatomic ⊢
    exact hatomic

theorem notify_atomicCount (hrange : IsInt (s.atomicCount + 1)) :
    s.notify.atomicCount = s.atomicCount + 1 := by
  unfold BasicSemaphore.notify
  split <;> exact int32_of_isInt hrange

theorem Balanced.waitAtomic (h : Balanced initial notifying waiting s)
    (hrange : IsInt (s.atomicCount - 1)) :
    Balanced initial notifying (if s.waitAtomic.1 then waiting + 1 else waiting)
      s.waitAtomic.2 := by
  unfold Balanced BasicSemaphore.waitAtomic at *
  rw [int32_of_isInt hrange]
  by_cases hone : s.atomicCount < 1
  · simp only [hone, decide_true, if_true]
    omega
  · simp only [hone, decide_false, Bool.false_eq_true, if_false]
    omega

theorem Balanced.waitLocked (h : Balanced initial notifying (waiting + 1) s)
    (hrange : IsInt (s.count - 1)) : Balanced initial notifying waiting s.waitLocked := by
  unfold Balanced BasicSemaphore.waitLocked at *
  rw [int32_of_isInt hrange]
  dsimp only
  omega

/-- A waiter is let in, or a notify is on its way to let it in, unless the semaphore has no permit. -/
theorem Balanced.serves (h : Balanced initial notifying (waiting + 1) s) (hinitial : 0 ≤ initial)
    (hpermit : 0 ≤ s.atomicCount) : 0 < notifying ∨ s.admits = true := by
  unfold Balanced at h
  by_cases hnotifying : 0 < notifying
  · exact Or.inl hnotifying
  · apply Or.inr
    apply decide_eq_true
    omega

end BasicSemaphore

end Ustevent
