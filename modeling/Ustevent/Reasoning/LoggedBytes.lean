import Mathlib.Data.List.Basic
import Mathlib.Tactic.Common

/-!
# Byte memory with a log of the accesses

A memory maps addresses to bytes.  Blocks are read and written as vectors, so that their lengths are
part of their types.  `Logged` keeps with a memory which regions have been read and written on the
way to it; a region is its first address and its length.
-/

namespace Reasoning

abbrev Bytes := Nat → UInt8

/-- The regions have no byte in common. -/
def Apart (a n b k : Nat) : Prop := a + n ≤ b ∨ b + k ≤ a

instance (a n b k : Nat) : Decidable (Apart a n b k) := inferInstanceAs (Decidable (_ ∨ _))

namespace Bytes

variable {m m' : Bytes} {a b n k i : Nat}

def read (m : Bytes) (a n : Nat) : Vector UInt8 n := Vector.ofFn fun i ↦ m (a + i)

def write (m : Bytes) (a : Nat) (bytes : Vector UInt8 n) : Bytes := fun i ↦
  if h : a ≤ i ∧ i < a + n then bytes[i - a] else m i

theorem getElem_read (m : Bytes) (a : Nat) (h : i < n) : (m.read a n)[i] = m (a + i) :=
  Vector.getElem_ofFn h

theorem read_eq_read_iff : m.read a n = m'.read b n ↔ ∀ i, i < n → m (a + i) = m' (b + i) := by
  constructor
  · intro heq i hi
    rw [← getElem_read m a hi, ← getElem_read m' b hi, heq]
  · intro h
    refine Vector.ext fun i hi ↦ ?_
    rw [getElem_read, getElem_read]
    exact h i hi

theorem read_add_eq_iff : m.read a (n + k) = m'.read b (n + k) ↔
    m.read a n = m'.read b n ∧ m.read (a + n) k = m'.read (b + n) k := by
  simp only [read_eq_read_iff]
  constructor
  · refine fun h ↦ ⟨fun i hi ↦ h i (by omega), fun i hi ↦ ?_⟩
    rw [Nat.add_assoc, Nat.add_assoc]
    exact h (n + i) (by omega)
  · rintro ⟨hfirst, hsecond⟩ i hi
    by_cases hlt : i < n
    · exact hfirst i hlt
    · have hrest := hsecond (i - n) (by omega)
      rwa [Nat.add_assoc, Nat.add_assoc, Nat.add_sub_cancel' (by omega)] at hrest

theorem write_add (m : Bytes) (a : Nat) (bytes : Vector UInt8 n) (h : i < n) :
    m.write a bytes (a + i) = bytes[i] := by
  rw [write, dif_pos ⟨Nat.le_add_right a i, by omega⟩]
  simp only [Nat.add_sub_cancel_left]

theorem write_of_apart (m : Bytes) (bytes : Vector UInt8 n) (h : Apart a n i 1) :
    m.write a bytes i = m i := by
  rw [write, dif_neg]
  unfold Apart at h
  omega

theorem write_congr (bytes : Vector UInt8 n) (h : Apart a n i 1 → m i = m' i) :
    m.write a bytes i = m'.write a bytes i := by
  unfold write
  split
  case isTrue => rfl
  case isFalse hout =>
    apply h
    unfold Apart
    omega

theorem read_write_self (m : Bytes) (a : Nat) (bytes : Vector UInt8 n) :
    (m.write a bytes).read a n = bytes := by
  refine Vector.ext fun i hi ↦ ?_
  rw [getElem_read, write_add m a bytes hi]

theorem read_write_of_apart (m : Bytes) (bytes : Vector UInt8 n) (h : Apart a n b k) :
    (m.write a bytes).read b k = m.read b k := by
  rw [read_eq_read_iff]
  intro i hi
  apply write_of_apart
  unfold Apart at h ⊢
  omega

end Bytes

/-- A memory and the regions that have been read and written. -/
structure Logged where
  memory : Bytes
  reads : List (Nat × Nat)
  writes : List (Nat × Nat)

namespace Logged

variable {m : Bytes} {s : Logged} {src n dest k a b l : Nat}

def start (m : Bytes) : Logged := ⟨m, [], []⟩

/-- The bytes of a block that is compared with others, which are no part of the memory. -/
def compare (s : Logged) (a : Nat) (bytes : Vector UInt8 n) : Bool × Logged :=
  (decide (s.memory.read a n = bytes), { s with reads := s.reads ++ [(a, n)] })

def store (s : Logged) (a : Nat) (bytes : Vector UInt8 n) : Logged :=
  { s with memory := s.memory.write a bytes, writes := s.writes ++ [(a, n)] }

def copy (s : Logged) (dest src n : Nat) : Logged where
  memory := s.memory.write dest (s.memory.read src n)
  reads := s.reads ++ [(src, n)]
  writes := s.writes ++ [(dest, n)]

/-- Nothing but the region `src` has been read, and nothing but the region `dest` of the memory `m`
has been written. -/
structure Within (m : Bytes) (s : Logged) (src n dest k : Nat) : Prop where
  reads : ∀ region ∈ s.reads, src ≤ region.1 ∧ region.1 + region.2 ≤ src + n
  writes : ∀ region ∈ s.writes, dest ≤ region.1 ∧ region.1 + region.2 ≤ dest + k
  unchanged : ∀ i, Apart dest k i 1 → s.memory i = m i

theorem within_start (m : Bytes) (src n dest k : Nat) : Within m (start m) src n dest k :=
  ⟨fun _ h ↦ absurd h List.not_mem_nil, fun _ h ↦ absurd h List.not_mem_nil, fun _ _ ↦ rfl⟩

theorem Within.read (h : Within m s src n dest k) (hout : Apart dest k b l) :
    s.memory.read b l = m.read b l := by
  rw [Bytes.read_eq_read_iff]
  intro i hi
  apply h.unchanged
  unfold Apart at hout ⊢
  omega

theorem Within.compare (h : Within m s src n dest k) {bytes : Vector UInt8 l} (ha : src ≤ a)
    (hl : a + l ≤ src + n) : Within m (s.compare a bytes).2 src n dest k := by
  refine ⟨fun region hregion ↦ ?_, h.writes, h.unchanged⟩
  rcases List.mem_append.mp hregion with hregion | hregion
  · exact h.reads region hregion
  · rw [List.mem_singleton.mp hregion]
    exact ⟨ha, hl⟩

theorem Within.store (h : Within m s src n dest k) {bytes : Vector UInt8 l} (ha : dest ≤ a)
    (hl : a + l ≤ dest + k) : Within m (s.store a bytes) src n dest k := by
  refine ⟨h.reads, fun region hregion ↦ ?_, fun i hi ↦ ?_⟩
  · rcases List.mem_append.mp hregion with hregion | hregion
    · exact h.writes region hregion
    · rw [List.mem_singleton.mp hregion]
      exact ⟨ha, hl⟩
  · have hout : Apart a l i 1 := by
      unfold Apart at hi ⊢
      omega
    rw [← h.unchanged i hi]
    exact Bytes.write_of_apart s.memory bytes hout

theorem Within.copy (h : Within m s src n dest k) (ha : dest ≤ a) (hl : a + l ≤ dest + k)
    (hb : src ≤ b) (hbl : b + l ≤ src + n) : Within m (s.copy a b l) src n dest k := by
  have hstore : Within m (s.store a (s.memory.read b l)) src n dest k := h.store ha hl
  refine ⟨fun region hregion ↦ ?_, hstore.writes, hstore.unchanged⟩
  rcases List.mem_append.mp hregion with hregion | hregion
  · exact h.reads region hregion
  · rw [List.mem_singleton.mp hregion]
    exact ⟨hb, hbl⟩

end Logged

end Reasoning
