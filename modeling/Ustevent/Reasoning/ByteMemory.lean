import Mathlib.Algebra.Group.Nat.Defs
import Mathlib.Logic.Function.Basic
import Mathlib.Tactic.Common

/-!
# Byte-addressed memory with objects in it

A cell of memory holds a byte or one byte of the representation of an object.  Words are little
endian.  An object can be read back as long as all of its cells are in place.  What a read returns
depends on the cells that it covers only.
-/

namespace Reasoning

variable {α : Type*}

inductive Cell (α : Type*)
  | byte (b : UInt8)
  | part (object : α) (i : Nat)
deriving DecidableEq

/-- The value of a cell that is read as a byte. -/
def Cell.value : Cell α → Nat
  | .byte b => b.toNat
  | .part _ _ => 0

abbrev Memory (α : Type*) := Nat → Cell α

namespace Memory

def write32 (m : Memory α) (a v : Nat) : Memory α := fun i ↦
  if a ≤ i ∧ i < a + 4 then .byte (UInt8.ofNat (v / 256 ^ (i - a))) else m i

def read32 (m : Memory α) (a : Nat) : Nat :=
  (m a).value + 256 * (m (a + 1)).value + 256 ^ 2 * (m (a + 2)).value +
    256 ^ 3 * (m (a + 3)).value

def writeBytes (m : Memory α) (a : Nat) (bytes : List UInt8) : Memory α := fun i ↦
  if a ≤ i then (bytes[i - a]?.map Cell.byte).getD (m i) else m i

/-- The bytes from `a` on up to the first zero byte, at most `limit` of them. -/
def readCString (m : Memory α) (a : Nat) : Nat → List UInt8
  | 0 => []
  | limit + 1 =>
    if (m a).value = 0 then [] else UInt8.ofNat (m a).value :: readCString m (a + 1) limit

def writeObject (size : α → Nat) (m : Memory α) (a : Nat) (object : α) : Memory α := fun i ↦
  if a ≤ i ∧ i < a + size object then .part object (i - a) else m i

/-- The object at `a`, if all of its cells are in place. -/
def readObject [DecidableEq α] (size : α → Nat) (m : Memory α) (a : Nat) : Option α :=
  match m a with
  | .part object 0 =>
    if (List.range (size object)).all fun i ↦ decide (m (a + i) = .part object i) then some object
    else none
  | _ => none

/-- The memories hold the same in the cells from `a` to `b`. -/
def Agree (m m' : Memory α) (a b : Nat) : Prop := ∀ i, a ≤ i → i < b → m' i = m i

theorem Agree.trans {m m' m'' : Memory α} {a b : Nat} (h : Agree m m' a b) (h' : Agree m' m'' a b) :
    Agree m m'' a b :=
  fun i ha hb ↦ (h' i ha hb).trans (h i ha hb)

theorem Agree.sub {m m' : Memory α} {a b a' b' : Nat} (h : Agree m m' a b) (ha : a ≤ a')
    (hb : b' ≤ b) : Agree m m' a' b' :=
  fun i hi hi' ↦ h i (Nat.le_trans ha hi) (Nat.lt_of_lt_of_le hi' hb)

theorem write32_agree (m : Memory α) {a b c v : Nat} (h : a + 4 ≤ b ∨ c ≤ a) :
    Agree m (m.write32 a v) b c := by
  intro i hb hc
  rw [write32, if_neg]
  omega

theorem writeBytes_agree (m : Memory α) {a b c : Nat} {bytes : List UInt8}
    (h : a + bytes.length ≤ b ∨ c ≤ a) : Agree m (m.writeBytes a bytes) b c := by
  intro i hb hc
  rw [writeBytes]
  by_cases ha : a ≤ i
  · rw [if_pos ha, List.getElem?_eq_none (by omega)]
    rfl
  · rw [if_neg ha]

theorem writeObject_agree {size : α → Nat} (m : Memory α) {a b c : Nat} {object : α}
    (h : a + size object ≤ b ∨ c ≤ a) : Agree m (m.writeObject size a object) b c := by
  intro i hb hc
  rw [writeObject, if_neg]
  omega

theorem Agree.write32 {m m' : Memory α} {b c : Nat} (h : Agree m m' b c) (a v : Nat) :
    Agree (m.write32 a v) (m'.write32 a v) b c := by
  intro i hb hc
  simp only [Memory.write32, h i hb hc]

theorem Agree.writeBytes {m m' : Memory α} {b c : Nat} (h : Agree m m' b c) (a : Nat)
    (bytes : List UInt8) : Agree (m.writeBytes a bytes) (m'.writeBytes a bytes) b c := by
  intro i hb hc
  simp only [Memory.writeBytes, h i hb hc]

theorem Agree.writeObject {size : α → Nat} {m m' : Memory α} {b c : Nat} (h : Agree m m' b c)
    (a : Nat) (object : α) :
    Agree (m.writeObject size a object) (m'.writeObject size a object) b c := by
  intro i hb hc
  simp only [Memory.writeObject, h i hb hc]

theorem Agree.read32 {m m' : Memory α} {a : Nat} (h : Agree m m' a (a + 4)) :
    m'.read32 a = m.read32 a := by
  simp only [Memory.read32]
  rw [h a (by omega) (by omega), h (a + 1) (by omega) (by omega), h (a + 2) (by omega) (by omega),
    h (a + 3) (by omega) (by omega)]

theorem read32_write32 (m : Memory α) (a v : Nat) :
    (m.write32 a v).read32 a = v % 2 ^ 32 := by
  have hbyte : ∀ k, k < 4 → ((m.write32 a v) (a + k)).value = v / 256 ^ k % 256 := by
    intro k hk
    rw [write32, if_pos (by omega), Nat.add_sub_cancel_left]
    exact UInt8.toNat_ofNat'
  have h₀ := hbyte 0 (by decide)
  rw [Nat.add_zero] at h₀
  rw [read32, h₀, hbyte 1 (by decide), hbyte 2 (by decide), hbyte 3 (by decide)]
  omega

theorem writeBytes_byte (m : Memory α) (a : Nat) (bytes : List UInt8) {i : Nat}
    (h : i < bytes.length) : (m.writeBytes a bytes) (a + i) = .byte bytes[i] := by
  rw [writeBytes, if_pos (by omega), Nat.add_sub_cancel_left, List.getElem?_eq_getElem h]
  rfl

theorem readCString_eq_takeWhile {m : Memory α} {a limit : Nat} {bytes : List UInt8}
    (hbytes : ∀ i (hi : i < bytes.length), m (a + i) = .byte bytes[i])
    (hzero : m (a + bytes.length) = .byte 0) (hlimit : bytes.length < limit) :
    m.readCString a limit = bytes.takeWhile (· ≠ 0) := by
  induction bytes generalizing a limit with
  | nil =>
    obtain ⟨limit, rfl⟩ : ∃ l, limit = l + 1 := ⟨limit - 1, by simp at hlimit; omega⟩
    have hzero : m a = .byte 0 := hzero
    rw [readCString, hzero]
    rfl
  | cons b bytes ih =>
    obtain ⟨limit, rfl⟩ : ∃ l, limit = l + 1 := ⟨limit - 1, by simp at hlimit; omega⟩
    have hfirst : m a = .byte b := hbytes 0 (Nat.zero_lt_succ _)
    rw [readCString, hfirst]
    by_cases hb : b = 0
    · subst hb
      rfl
    · have hvalue : ¬ (Cell.byte b : Cell α).value = 0 := fun h ↦ hb (UInt8.toNat_inj.mp h)
      rw [if_neg hvalue, List.takeWhile_cons_of_pos (by simpa using hb)]
      have hrest : m.readCString (a + 1) limit = bytes.takeWhile (· ≠ 0) := by
        apply ih
        · intro i hi
          have hnext := hbytes (i + 1) (Nat.succ_lt_succ hi)
          rw [List.getElem_cons_succ] at hnext
          rw [← hnext, Nat.add_assoc, Nat.add_comm 1]
        · rw [← hzero, List.length_cons]
          congr 1
          omega
        · simp at hlimit
          omega
      rw [hrest]
      congr 1
      exact UInt8.ofNat_toNat

theorem readObject_eq_some [DecidableEq α] {size : α → Nat} {m : Memory α} {a : Nat} {object : α}
    (hpos : 0 < size object) (h : ∀ i, i < size object → m (a + i) = .part object i) :
    m.readObject size a = some object := by
  have hfirst : m a = .part object 0 := h 0 hpos
  rw [readObject, hfirst]
  simp only [List.all_eq_true, List.mem_range, decide_eq_true_eq]
  exact if_pos h

theorem writeObject_part {size : α → Nat} (m : Memory α) (a : Nat) (object : α) {i : Nat}
    (h : i < size object) : (m.writeObject size a object) (a + i) = .part object i := by
  rw [writeObject, if_pos (by omega), Nat.add_sub_cancel_left]

end Memory

end Reasoning
