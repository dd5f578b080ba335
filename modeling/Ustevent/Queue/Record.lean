import Ustevent.Reasoning.ByteMemory
import Mathlib.Data.Nat.Bitwise

/-!
# Records of the context task queue

A record holds its length, the length of the operation, the operation itself, the stack size, the
length of the description and the description with a terminating zero.  `writeRecord` follows
`ContextTaskQueue::push` and `readRecord` the two branches of `pop`, which read the same.
-/

namespace Ustevent.ContextTaskQueue

open Reasoning

/-- An operation object: the task that it performs and its `sizeof`. -/
structure Operation where
  task : Nat
  size : Nat
deriving DecidableEq

abbrev Buffer := Memory Operation

/-- The arguments of a push.  The lengths are those of objects in an address space of 64 bits. -/
structure Task where
  operationLength : Nat
  stackSize : Nat
  description : List UInt8
  pos : 1 ≤ operationLength
  lt : operationLength + description.length < 2 ^ 62
deriving DecidableEq

/-- `(num + sizeof(size_t) - 1) & -sizeof(size_t)` -/
def roundUp (num : Nat) : Nat := ((num + 8 - 1) % 2 ^ 64) &&& (2 ^ 64 - 8)

def operationLengthOffset : Nat := 4

def operationOffset : Nat := operationLengthOffset + 4

def stackSizeOffset (operationLength : Nat) : Nat := operationOffset + roundUp operationLength

def descriptionLengthOffset (operationLength : Nat) : Nat := stackSizeOffset operationLength + 4

def descriptionOffset (operationLength : Nat) : Nat := descriptionLengthOffset operationLength + 4

def Task.acquiredSize (task : Task) : Nat :=
  descriptionOffset task.operationLength + roundUp (task.description.length + 1)

/-- What push writes at `base` for the task with the given number. -/
def writeRecord (m : Buffer) (base number : Nat) (task : Task) : Buffer :=
  let m := m.write32 base task.acquiredSize
  let m := m.write32 (base + operationLengthOffset) task.operationLength
  let m := m.writeObject Operation.size (base + operationOffset) ⟨number, task.operationLength⟩
  let m := m.write32 (base + stackSizeOffset task.operationLength) task.stackSize
  let m := m.write32 (base + descriptionLengthOffset task.operationLength) task.description.length
  let m := m.writeBytes (base + descriptionOffset task.operationLength) task.description
  m.writeBytes (base + descriptionOffset task.operationLength + task.description.length) [0]

/-- What pop stores through its three pointers. -/
structure Popped where
  operation : Nat
  stackSize : Nat
  description : List UInt8
deriving DecidableEq

/-- The record at `base` as pop reads it, and the length by which pop moves on. -/
def readRecord (capacity : Nat) (m : Buffer) (base : Nat) : Popped × Nat :=
  let contextTaskLength := m.read32 base
  let operationLength := m.read32 (base + operationLengthOffset)
  -- read from the place of the operation length, so it is that length again
  let descriptionLength := m.read32 (base + operationLengthOffset)
  let description := base + descriptionOffset operationLength
  ({ operation := base + operationOffset
     stackSize := m.read32 (base + stackSizeOffset operationLength)
     description :=
       if descriptionLength > 0 then m.readCString description (capacity - description) else [] },
    contextTaskLength)

/-- The length that `deallocate` finds in front of an operation. -/
def recordLength (m : Buffer) (operation : Nat) : Nat := m.read32 (operation - operationOffset)

/-! ## Rounding -/

theorem roundUp_eq {num : Nat} (h : num + 7 < 2 ^ 64) : roundUp num = (num + 7) / 8 * 8 := by
  have hshift : (num + 7) &&& (2 ^ 64 - 8) = (num + 7) >>> 3 <<< 3 := by
    apply Nat.eq_of_testBit_eq
    intro i
    rw [Nat.testBit_and, show 2 ^ 64 - 8 = (2 ^ 61 - 1) <<< 3 by decide, Nat.testBit_shiftLeft,
      Nat.testBit_shiftLeft, Nat.testBit_two_pow_sub_one, Nat.testBit_shiftRight]
    by_cases hlow : 3 ≤ i
    · rw [Nat.add_sub_cancel' hlow]
      by_cases hhigh : i < 64
      · simp [hlow, show i - 3 < 61 by omega]
      · have hbit : (num + 7).testBit i = false := by
          apply Nat.testBit_eq_false_of_lt
          exact Nat.lt_of_lt_of_le h (Nat.pow_le_pow_right (by decide) (by omega))
        simp [hbit]
    · simp [hlow]
  rw [roundUp, show num + 8 - 1 = num + 7 from rfl, Nat.mod_eq_of_lt h, hshift,
    Nat.shiftRight_eq_div_pow, Nat.shiftLeft_eq]

theorem le_roundUp {num : Nat} (h : num + 7 < 2 ^ 64) : num ≤ roundUp num := by
  rw [roundUp_eq h]
  omega

theorem Task.offsets (task : Task) :
    operationOffset + task.operationLength ≤ stackSizeOffset task.operationLength ∧
      stackSizeOffset task.operationLength + 8 = descriptionOffset task.operationLength ∧
      descriptionOffset task.operationLength + task.description.length + 1 ≤ task.acquiredSize := by
  have hlt := task.lt
  have hoperation := le_roundUp (show task.operationLength + 7 < 2 ^ 64 by omega)
  have hdescription := le_roundUp (show task.description.length + 1 + 7 < 2 ^ 64 by omega)
  unfold Task.acquiredSize descriptionOffset descriptionLengthOffset stackSizeOffset
  omega

/-! ## A record in memory -/

/-- The record at `base` has the given length and holds the operation of the task. -/
structure Stores (m : Buffer) (base number length : Nat) : Prop where
  header : m.read32 base = length
  operation : ∃ size, 0 < size ∧ operationOffset + size ≤ length ∧
    ∀ i, i < size → m (base + operationOffset + i) = .part ⟨number, size⟩ i

theorem Stores.agree {m m' : Buffer} {base number length : Nat} (h : Stores m base number length)
    (hagree : m.Agree m' base (base + length)) : Stores m' base number length := by
  have ⟨size, hpos, hle, hpart⟩ := h.operation
  have hoffset : operationOffset = 8 := rfl
  constructor
  · rw [(hagree.sub (Nat.le_refl _) (by omega) : m.Agree m' base (base + 4)).read32, h.header]
  · refine ⟨size, hpos, hle, fun i hi ↦ ?_⟩
    rw [hagree _ (by omega) (by omega), hpart i hi]

theorem Stores.readObject {m : Buffer} {base number length : Nat}
    (h : Stores m base number length) :
    (m.readObject Operation.size (base + operationOffset)).map Operation.task = some number := by
  have ⟨size, hpos, _, hpart⟩ := h.operation
  have hread : m.readObject Operation.size (base + operationOffset) = some ⟨number, size⟩ :=
    Memory.readObject_eq_some hpos hpart
  rw [hread]
  rfl

theorem writeRecord_agree (m : Buffer) (base number : Nat) (task : Task) {a b : Nat}
    (h : base + task.acquiredSize ≤ a ∨ b ≤ base) :
    m.Agree (writeRecord m base number task) a b := by
  have ⟨hoperation, hdescription, hend⟩ := task.offsets
  have hoffset : operationLengthOffset + 4 = operationOffset := rfl
  have hlength : descriptionLengthOffset task.operationLength =
    stackSizeOffset task.operationLength + 4 := rfl
  have hpos := task.pos
  apply Memory.Agree.trans _ (Memory.writeBytes_agree _ (by simp only [List.length_singleton]; omega))
  apply Memory.Agree.trans _ (Memory.writeBytes_agree _ (by omega))
  apply Memory.Agree.trans _ (Memory.write32_agree _ (by omega))
  apply Memory.Agree.trans _ (Memory.write32_agree _ (by omega))
  apply Memory.Agree.trans _ (Memory.writeObject_agree _ (by simp only; omega))
  apply Memory.Agree.trans _ (Memory.write32_agree _ (by omega))
  exact Memory.write32_agree _ (by omega)

/-- The record at `base` with all that pop reads of it.  Its length need not fit into the header. -/
structure Holds (m : Buffer) (base number : Nat) (task : Task) : Prop where
  header : m.read32 base = task.acquiredSize % 2 ^ 32
  operationLength : m.read32 (base + operationLengthOffset) = task.operationLength
  operation : ∀ i, i < task.operationLength →
    m (base + operationOffset + i) = .part ⟨number, task.operationLength⟩ i
  stackSize : m.read32 (base + stackSizeOffset task.operationLength) = task.stackSize % 2 ^ 32
  description : ∀ i (hi : i < task.description.length),
    m (base + descriptionOffset task.operationLength + i) = .byte task.description[i]
  terminator :
    m (base + descriptionOffset task.operationLength + task.description.length) = .byte 0

theorem Holds.agree {m m' : Buffer} {base number : Nat} {task : Task}
    (h : Holds m base number task) (hagree : m.Agree m' base (base + task.acquiredSize)) :
    Holds m' base number task := by
  have ⟨hoperation, hdescription, hend⟩ := task.offsets
  have hoffset : operationLengthOffset + 4 = operationOffset := rfl
  refine ⟨?_, ?_, fun i hi ↦ ?_, ?_, fun i hi ↦ ?_, ?_⟩
  · rw [(hagree.sub (by omega) (by omega)).read32, h.header]
  · rw [(hagree.sub (by omega) (by omega)).read32, h.operationLength]
  · rw [hagree _ (by omega) (by omega), h.operation i hi]
  · rw [(hagree.sub (by omega) (by omega)).read32, h.stackSize]
  · rw [hagree _ (by omega) (by omega), h.description i hi]
  · rw [hagree _ (by omega) (by omega), h.terminator]

theorem Holds.header_eq {m : Buffer} {base number : Nat} {task : Task}
    (h : Holds m base number task) (hlt : task.acquiredSize < 2 ^ 32) :
    m.read32 base = task.acquiredSize := by
  rw [h.header, Nat.mod_eq_of_lt hlt]

/-- push writes the fields in the order in which they lie, so that none of them is touched again. -/
theorem writeRecord_holds (m : Buffer) (base number : Nat) (task : Task)
    (hlt : task.operationLength < 2 ^ 32) :
    Holds (writeRecord m base number task) base number task := by
  have ⟨hoperation, hdescription, hend⟩ := task.offsets
  have hoffset : operationLengthOffset + 4 = operationOffset := rfl
  have hlength : descriptionLengthOffset task.operationLength =
    stackSizeOffset task.operationLength + 4 := rfl
  unfold writeRecord
  dsimp only
  generalize hheader : m.write32 base task.acquiredSize = m₁
  generalize hoperationLength :
    m₁.write32 (base + operationLengthOffset) task.operationLength = m₂
  generalize hobject : m₂.writeObject Operation.size (base + operationOffset)
    ⟨number, task.operationLength⟩ = m₃
  generalize hstack :
    m₃.write32 (base + stackSizeOffset task.operationLength) task.stackSize = m₄
  generalize hdescriptionLength : m₄.write32
    (base + descriptionLengthOffset task.operationLength) task.description.length = m₅
  generalize hbytes : m₅.writeBytes
    (base + descriptionOffset task.operationLength) task.description = m₆
  generalize hzero : m₆.writeBytes
    (base + descriptionOffset task.operationLength + task.description.length) [0] = m₇
  have h₆ : m₆.Agree m₇ base
      (base + descriptionOffset task.operationLength + task.description.length) := by
    rw [← hzero]
    exact Memory.writeBytes_agree _ (by omega)
  have h₄ : m₄.Agree m₇ base (base + descriptionLengthOffset task.operationLength) := by
    have h₅ : m₅.Agree m₇ base (base + descriptionOffset task.operationLength) := by
      rw [← hbytes] at h₆
      exact (Memory.writeBytes_agree _ (by omega)).trans (h₆.sub (by omega) (by omega))
    rw [← hdescriptionLength] at h₅
    exact (Memory.write32_agree _ (by omega)).trans (h₅.sub (by omega) (by omega))
  have h₃ : m₃.Agree m₇ base (base + stackSizeOffset task.operationLength) := by
    rw [← hstack] at h₄
    exact (Memory.write32_agree _ (by omega)).trans (h₄.sub (by omega) (by omega))
  have h₂ : m₂.Agree m₇ base (base + operationOffset) := by
    rw [← hobject] at h₃
    exact (Memory.writeObject_agree _ (by omega)).trans (h₃.sub (by omega) (by omega))
  have h₁ : m₁.Agree m₇ base (base + operationLengthOffset) := by
    rw [← hoperationLength] at h₂
    exact (Memory.write32_agree _ (by omega)).trans (h₂.sub (by omega) (by omega))
  refine ⟨?_, ?_, fun i hi ↦ ?_, ?_, fun i hi ↦ ?_, ?_⟩
  · rw [h₁.read32, ← hheader, Memory.read32_write32]
  · rw [(h₂.sub (by omega) (by omega)).read32, ← hoperationLength, Memory.read32_write32,
      Nat.mod_eq_of_lt hlt]
  · rw [h₃ _ (by omega) (by omega), ← hobject]
    exact Memory.writeObject_part m₂ _ _ hi
  · rw [(h₄.sub (by omega) (by omega)).read32, ← hstack, Memory.read32_write32]
  · rw [h₆ _ (by omega) (by omega), ← hbytes]
    exact Memory.writeBytes_byte m₅ _ _ hi
  · rw [← hzero]
    exact Memory.writeBytes_byte m₆ _ [0] Nat.zero_lt_one

theorem Holds.stores {m : Buffer} {base number : Nat} {task : Task}
    (h : Holds m base number task) (hlt : task.acquiredSize < 2 ^ 32) :
    Stores m base number task.acquiredSize := by
  have ⟨hoperation, hdescription, hend⟩ := task.offsets
  exact ⟨h.header_eq hlt, task.operationLength, task.pos, by omega, h.operation⟩

theorem writeRecord_stores (m : Buffer) (base number : Nat) (task : Task)
    (hlt : task.acquiredSize < 2 ^ 32) :
    Stores (writeRecord m base number task) base number task.acquiredSize := by
  have ⟨hoperation, hdescription, hend⟩ := task.offsets
  exact (writeRecord_holds m base number task (by omega)).stores hlt

end Ustevent.ContextTaskQueue
