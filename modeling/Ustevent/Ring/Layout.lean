import Ustevent.Ring.Fifo

/-!
# How the reservations lie in the ring buffer

The shared words of `MpscRingBuffer` describe a circular store of reservations: the consumer offset
is its read offset, the index of the producer barrier its write offset, and `_end` the place where a
reservation that did not fit cut the store.  Such a reservation lies at 0, but its worker has
published the offset from before the wrap-around.
-/

namespace Ustevent.MpscRingBuffer

open Reasoning Reservation

variable {n : Nat}

/-- `_end`, as the layout determines it. -/
def endOf (capacity : Nat) (c : Circular (Reservation n)) : Nat :=
  match c.cut with
  | some stop => if stop < capacity then stop else maxOffset
  | none => maxOffset

/-- The offset that the worker of an unproduced reservation of the back has published. -/
def publishedBack (capacity : Nat) (c : Circular (Reservation n)) (r : Reservation n) : Nat :=
  match c.cut with
  | some stop => if stop < capacity ∧ r.start = 0 then stop else r.start
  | none => r.start

/-- The barrier that an acquire of `size` bytes at index `next` may install while the consumer
stands at `written`. -/
def Admits (capacity next written size target : Nat) : Prop :=
  (next + size < capacity ∧ (next < written → next + size < written) ∧ target = next + size) ∨
  (next + size = capacity ∧ written ≤ next ∧ 0 < written ∧ target = 0) ∨
  (capacity < next + size ∧ written ≤ next ∧ size < written ∧ target = lockWrapBit size)

/-- The start of the reservation that the barrier `target` stands for. -/
def startOf (next target : Nat) : Nat := if isLocked target then 0 else next

/-- The layout after the barrier has moved from index `next` to `target` for the reservation `r`. -/
def reserveAt (capacity next target : Nat) (c : Circular (Reservation n)) (r : Reservation n) :
    Circular (Reservation n) :=
  match c.cut with
  | some _ => { c with back := c.back ++ [r] }
  | none =>
    if isLocked target then { c with cut := some next, back := [r] }
    else if target = 0 then { c with front := c.front ++ [r], cut := some capacity }
    else { c with front := c.front ++ [r] }

theorem acquireTarget_admits {capacity next size written target : Nat} (hcap : capacity < 2 ^ 32)
    (hnext : next < capacity) (hsize : size ≤ capacity) (hwritten : written < capacity)
    (h : acquireTarget capacity next size written = some target) :
    Admits capacity next written size target := by
  have hindex : getBufferIndex next = next := getBufferIndex_of_lt (by omega)
  have hsum : (next + size) % 2 ^ 64 = next + size := Nat.mod_eq_of_lt (by omega)
  simp only [acquireTarget, hindex, hsum, setWrapCounter] at h
  split at h
  · contradiction
  rename_i hbehind
  split at h
  -- the reservation is cut off, or ends where the buffer does
  · rename_i hover
    by_cases hcut : next + size > capacity
    · rw [if_pos hcut, getBufferIndex_lockWrapBit (by omega)] at h
      split at h
      · contradiction
      · rename_i hlt
        simp only [Option.some.injEq] at h
        exact Or.inr (Or.inr ⟨hcut, by omega, by omega, h.symm⟩)
    · rw [if_neg hcut, getBufferIndex_of_lt (by omega)] at h
      split at h
      · contradiction
      · rename_i hlt
        simp only [Option.some.injEq] at h
        exact Or.inr (Or.inl ⟨by omega, by omega, by omega, h.symm⟩)
  · simp only [Option.some.injEq] at h
    exact Or.inl ⟨by omega, by omega, h.symm⟩

theorem Admits.isLocked_iff {capacity next written size target : Nat} (hcap : capacity < 2 ^ 32)
    (hsize : size ≤ capacity) (h : Admits capacity next written size target) :
    isLocked target = true ↔ capacity < next + size := by
  rcases h with ⟨hfit, -, rfl⟩ | ⟨hfit, -, -, rfl⟩ | ⟨hfit, -, -, rfl⟩
  · rw [isLocked_of_lt (by omega)]
    simp only [Bool.false_eq_true, false_iff]
    omega
  · rw [isLocked_of_lt (by decide)]
    simp only [Bool.false_eq_true, false_iff]
    omega
  · simp only [isLocked_lockWrapBit (show size < 2 ^ 63 by omega), true_iff]
    exact hfit

/-- A barrier that acquire may install stands for one of the four ways to reserve room. -/
theorem Admits.reserves {capacity next written size target : Nat} {c : Circular (Reservation n)}
    {w : Fin n} (hcap : capacity < 2 ^ 32) (hsize : size ≤ capacity) (hpos : 1 ≤ size)
    (hfits : c.Fits start Reservation.size capacity written next)
    (h : Admits capacity next written size target) :
    Circular.Reserves start Reservation.size capacity written next c
      ⟨w, startOf next target, size, false⟩ (getBufferIndex target)
      (reserveAt capacity next target c ⟨w, startOf next target, size, false⟩) := by
  have hwrapped := hfits.cut_isSome_iff
  -- the buffer is cut exactly while the barrier is behind the consumer
  cases hcut : c.cut with
  | none =>
    rw [hcut] at hwrapped
    simp only [Option.isSome_none, Bool.false_eq_true, false_iff, Nat.not_lt] at hwrapped
    simp only [reserveAt, hcut, startOf]
    rcases h with ⟨hfit, -, rfl⟩ | ⟨hfit, -, hread, rfl⟩ | ⟨hfit, -, hread, rfl⟩
    · rw [isLocked_of_lt (by omega), getBufferIndex_of_lt (by omega)]
      simp only [Bool.false_eq_true, if_false, show next + size ≠ 0 by omega]
      exact .ahead hcut rfl hfit
    · rw [isLocked_of_lt (by decide), getBufferIndex_of_lt (by decide)]
      simp only [Bool.false_eq_true, if_false, if_true]
      exact .toEnd hcut rfl hfit hread
    · rw [isLocked_lockWrapBit (by omega), getBufferIndex_lockWrapBit (by omega)]
      simp only [if_true]
      exact .fromZero hcut rfl hfit hread
  | some stop =>
    rw [hcut] at hwrapped
    simp only [Option.isSome_some, true_iff] at hwrapped
    simp only [reserveAt, hcut, startOf]
    rcases h with ⟨hfit, hread, rfl⟩ | ⟨-, hle, -⟩ | ⟨-, hle, -⟩
    · rw [isLocked_of_lt (by omega), getBufferIndex_of_lt (by omega)]
      simp only [Bool.false_eq_true, if_false]
      exact .behind stop hcut rfl (hread hwrapped)
    · omega
    · omega

/-- A consumer that moves on inside its lap only makes more room. -/
theorem Admits.advance {capacity next written written' size target : Nat}
    (h : Admits capacity next written size target) (hle : written ≤ written')
    (hlap : written ≤ next → written' ≤ next) : Admits capacity next written' size target := by
  unfold Admits at h ⊢
  omega

/-- A consumer that follows the barrier into its lap makes more room. -/
theorem Admits.turn {capacity next written size target : Nat}
    (h : Admits capacity next written size target) (hlap : next < written) :
    Admits capacity next 0 size target := by
  unfold Admits at h ⊢
  omega

end Ustevent.MpscRingBuffer
