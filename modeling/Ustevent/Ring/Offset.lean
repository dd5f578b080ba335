import Mathlib.Data.Nat.Bitwise

/-!
# Offsets of the ring buffer

`RingBufferOffset` is a 64-bit word: one lock bit, 31 bits of wrap counter, 32 bits of buffer index.
A word is a `Nat` here; the helpers are the bit operations of `MpscRingBuffer.h`.
-/

namespace Ustevent.MpscRingBuffer

def indexMask : Nat := 0x00000000ffffffff

def wrapCounterMask : Nat := 0x7fffffff00000000

def wrapLockBit : Nat := 0x8000000000000000

/-- `MAX_OFFSET`, the largest word with the lock bit clear, marks an idle worker and an unset end. -/
def maxOffset : Nat := 0x7fffffffffffffff

def unlockWrapBit (offset : Nat) : Nat := offset &&& (wrapLockBit ^^^ 0xffffffffffffffff)

def lockWrapBit (offset : Nat) : Nat := offset ||| wrapLockBit

def isLocked (offset : Nat) : Bool := (offset &&& wrapLockBit) != 0

def getWrapCounter (offset : Nat) : Nat := offset &&& wrapCounterMask

/-- The caller's `offset` after `_setWrapCounter(offset, wrap_counter)`.  The source takes both
arguments by value, so its `offset |= wrap_counter` is lost on return. -/
def setWrapCounter (offset _wrapCounter : Nat) : Nat := offset

def increaseWrapCounter (wrapCounter : Nat) : Nat :=
  getWrapCounter ((wrapCounter + 0x100000000) % 2 ^ 64)

def getBufferIndex (offset : Nat) : Nat := offset &&& indexMask

/-! ## Words without a counter

Because the counter is never set, the words of a run are an index, possibly locked, or
`maxOffset`. -/

theorem getBufferIndex_eq_mod (x : Nat) : getBufferIndex x = x % 2 ^ 32 :=
  Nat.and_two_pow_sub_one_eq_mod x 32

theorem getBufferIndex_of_lt {x : Nat} (h : x < 2 ^ 32) : getBufferIndex x = x := by
  rw [getBufferIndex_eq_mod, Nat.mod_eq_of_lt h]

theorem unlockWrapBit_eq_mod (x : Nat) : unlockWrapBit x = x % 2 ^ 63 :=
  Nat.and_two_pow_sub_one_eq_mod x 63

theorem lockWrapBit_of_lt {x : Nat} (h : x < 2 ^ 63) :
    lockWrapBit x = 2 ^ 63 + x := by
  have hadd := Nat.two_pow_add_eq_or_of_lt h 1
  rw [Nat.mul_one] at hadd
  rw [hadd, Nat.or_comm]
  rfl

theorem isLocked_of_lt {x : Nat} (h : x < 2 ^ 63) : isLocked x = false := by
  have hand : x &&& 2 ^ 63 = 0 := by
    rw [Nat.and_two_pow, Nat.testBit_eq_false_of_lt h]
    rfl
  rw [isLocked, show wrapLockBit = 2 ^ 63 from rfl, hand]
  rfl

theorem isLocked_lockWrapBit {x : Nat} (h : x < 2 ^ 63) :
    isLocked (lockWrapBit x) = true := by
  have hand : (2 ^ 63 + x) &&& 2 ^ 63 = 2 ^ 63 := by
    rw [Nat.and_two_pow, Nat.testBit_two_pow_add_eq, Nat.testBit_eq_false_of_lt h]
    rfl
  rw [isLocked, lockWrapBit_of_lt h, show wrapLockBit = 2 ^ 63 from rfl, hand]
  rfl

theorem unlockWrapBit_lockWrapBit {x : Nat} (h : x < 2 ^ 63) :
    unlockWrapBit (lockWrapBit x) = x := by
  rw [lockWrapBit_of_lt h, unlockWrapBit_eq_mod, Nat.add_mod_left, Nat.mod_eq_of_lt h]

theorem getBufferIndex_lockWrapBit {x : Nat} (h : x < 2 ^ 32) :
    getBufferIndex (lockWrapBit x) = x := by
  rw [lockWrapBit_of_lt (by omega), getBufferIndex_eq_mod]
  omega

theorem getWrapCounter_eq (x : Nat) : getWrapCounter x = x / 2 ^ 32 % 2 ^ 31 * 2 ^ 32 := by
  rw [← Nat.shiftRight_eq_div_pow, ← Nat.and_two_pow_sub_one_eq_mod, ← Nat.shiftLeft_eq]
  apply Nat.eq_of_testBit_eq
  intro i
  rw [getWrapCounter, show wrapCounterMask = (2 ^ 31 - 1) <<< 32 by decide, Nat.testBit_and,
    Nat.testBit_shiftLeft, Nat.testBit_shiftLeft, Nat.testBit_and, Nat.testBit_shiftRight]
  by_cases hlow : 32 ≤ i
  · simp [hlow]
  · simp [hlow]

theorem getWrapCounter_eq_zero_iff {x : Nat} (h : x < 2 ^ 63) :
    getWrapCounter x = 0 ↔ x < 2 ^ 32 := by
  rw [getWrapCounter_eq]
  omega

theorem isLocked_maxOffset : isLocked maxOffset = false := by decide

end Ustevent.MpscRingBuffer
