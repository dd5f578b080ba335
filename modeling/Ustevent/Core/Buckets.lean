import Mathlib.Algebra.Group.Nat.Defs
import Mathlib.Tactic.Common

/-!
# The buckets of an append-only array

`AppendOnlyArray` puts its elements into buckets of 1, 2, 4, 8 and so on.  `_arrayIndex` finds the
bucket of an index by counting leading zeros; the lengths of the buckets and the sums of these
lengths are two tables of 32 entries.
-/

namespace Ustevent.AppendOnlyArray

/-- `APPEND_ONLY_ARRAY_BUCKET_SIZE`, the number of buckets. -/
def bucketNumber : Nat := 32

def bucketLengthData : List Nat :=
  [0x1,        0x2,        0x4,        0x8,
   0x10,       0x20,       0x40,       0x80,
   0x100,      0x200,      0x400,      0x800,
   0x1000,     0x2000,     0x4000,     0x8000,
   0x10000,    0x20000,    0x40000,    0x80000,
   0x100000,   0x200000,   0x400000,   0x800000,
   0x1000000,  0x2000000,  0x4000000,  0x8000000,
   0x10000000, 0x20000000, 0x40000000, 0x80000000]

def bucketLengthSumData : List Nat :=
  [0x1,        0x3,        0x7,        0xF,
   0x1F,       0x3F,       0x7F,       0xFF,
   0x1FF,      0x3FF,      0x7FF,      0xFFF,
   0x1FFF,     0x3FFF,     0x7FFF,     0xFFFF,
   0x1FFFF,    0x3FFFF,    0x7FFFF,    0xFFFFF,
   0x1FFFFF,   0x3FFFFF,   0x7FFFFF,   0xFFFFFF,
   0x1FFFFFF,  0x3FFFFFF,  0x7FFFFFF,  0xFFFFFFF,
   0x1FFFFFFF, 0x3FFFFFFF, 0x7FFFFFFF, 0xFFFFFFFF]

/-- `_log2`, where `__builtin_clzll` is the leading zero count of a 64-bit word. -/
def log2 (x : BitVec 64) : Nat := 8 * 8 - x.clz.toNat - 1

/-- `_arrayIndex` -/
def arrayIndex (index : Nat) : Nat := log2 (BitVec.ofNat 64 (index + 1))

/-- `index_in_bucket`, or `none` where the table of the sums has no such entry. -/
def indexInBucket (index : Nat) : Option Nat :=
  if arrayIndex index > 0 then
    (bucketLengthSumData[arrayIndex index - 1]?).map (index - ·)
  else some index

/-- The bucket of the index exists, and the index has a place in it. -/
def InBounds (index : Nat) : Prop :=
  arrayIndex index < bucketNumber ∧
    ∃ i length, indexInBucket index = some i ∧
      bucketLengthData[arrayIndex index]? = some length ∧ i < length

/-! ## The tables -/

theorem bucketLengthData_eq : ∀ k < 32, bucketLengthData[k]? = some (2 ^ k) := by decide

theorem bucketLengthSumData_eq : ∀ k < 32, bucketLengthSumData[k]? = some (2 ^ (k + 1) - 1) := by
  decide

theorem log2_spec {x : BitVec 64} (h : x ≠ 0) :
    2 ^ log2 x ≤ x.toNat ∧ x.toNat < 2 ^ (log2 x + 1) := by
  have hle := BitVec.two_pow_sub_clz_le_toNat_of_ne_zero (by decide) h
  have hlt := x.toNat_lt_two_pow_sub_clz
  have hclz : x.clz.toNat < 64 := BitVec.clz_lt_iff_ne_zero.mpr h
  have hlog : log2 x = 64 - 1 - x.clz.toNat := by unfold log2; omega
  have hsucc : log2 x + 1 = 64 - x.clz.toNat := by omega
  exact ⟨hlog ▸ hle, hsucc ▸ hlt⟩

/-- The bucket of an index holds the indexes whose successors have the same highest bit. -/
theorem arrayIndex_spec {index : Nat} (h : index + 1 < 2 ^ 64) :
    2 ^ arrayIndex index ≤ index + 1 ∧ index + 1 < 2 ^ (arrayIndex index + 1) := by
  have hnat : (BitVec.ofNat 64 (index + 1)).toNat = index + 1 := Nat.mod_eq_of_lt h
  have hne : BitVec.ofNat 64 (index + 1) ≠ 0 := by
    intro heq
    rw [heq] at hnat
    exact absurd hnat (by simp)
  have hspec := log2_spec hne
  rw [hnat] at hspec
  exact hspec

theorem arrayIndex_lt_iff {index k : Nat} (h : index + 1 < 2 ^ 64) :
    arrayIndex index < k ↔ index + 1 < 2 ^ k := by
  have ⟨hle, hlt⟩ := arrayIndex_spec h
  constructor
  · intro hk
    exact Nat.lt_of_lt_of_le hlt (Nat.pow_le_pow_right (by decide) hk)
  · intro hk
    exact (Nat.pow_lt_pow_iff_right (by decide)).mp (Nat.lt_of_le_of_lt hle hk)

/-- The sum of the buckets before that of the index is one less than its length. -/
theorem indexInBucket_eq {index : Nat} (hbucket : arrayIndex index ≤ 32) :
    indexInBucket index = some (index + 1 - 2 ^ arrayIndex index) := by
  unfold indexInBucket
  by_cases hpos : arrayIndex index > 0
  · rw [if_pos hpos, bucketLengthSumData_eq _ (by omega), Option.map_some, Nat.sub_add_cancel hpos]
    have hone : 1 ≤ 2 ^ arrayIndex index := Nat.one_le_two_pow
    exact congrArg some (by omega)
  · have hzero : arrayIndex index = 0 := by omega
    rw [if_neg hpos, hzero]
    rfl

theorem inBounds_of_lt {index : Nat} (h : index < 2 ^ 32 - 1) : InBounds index := by
  have hsize : index + 1 < 2 ^ 64 := by omega
  have ⟨hle, hlt⟩ := arrayIndex_spec hsize
  have hbucket : arrayIndex index < 32 := (arrayIndex_lt_iff hsize).mpr (by omega)
  refine ⟨hbucket, _, _, indexInBucket_eq (by omega), bucketLengthData_eq _ hbucket, ?_⟩
  rw [Nat.pow_succ] at hlt
  omega

/-- The header's comment promises twice as many elements as the buckets have room for. -/
theorem inBounds_iff {index : Nat} (h : index < 2 ^ 33 - 1) :
    InBounds index ↔ index < 2 ^ 32 - 1 := by
  constructor
  · intro hin
    have hlt := (arrayIndex_lt_iff (by omega)).mp hin.1
    unfold bucketNumber at hlt
    omega
  · exact inBounds_of_lt

theorem inBounds_iff_last : 2 ^ 32 - 2 < 2 ^ 33 - 1 ∧ InBounds (2 ^ 32 - 2) :=
  ⟨by decide, (inBounds_iff (by decide)).mpr (by decide)⟩

/-- The first index without a bucket. -/
theorem not_inBounds_full : 2 ^ 32 - 1 < 2 ^ 33 - 1 ∧ ¬ InBounds (2 ^ 32 - 1) := by
  refine ⟨by decide, fun hin ↦ ?_⟩
  exact absurd hin.1 (by decide)

/-- Two indexes have different buckets or different places in their bucket. -/
theorem indexInBucket_injective {i j : Nat} (hi : i < 2 ^ 32 - 1) (hj : j < 2 ^ 32 - 1)
    (hbucket : arrayIndex i = arrayIndex j) (hindex : indexInBucket i = indexInBucket j) :
    i = j := by
  have hsize : i + 1 < 2 ^ 64 := by omega
  have hsize' : j + 1 < 2 ^ 64 := by omega
  have hle := (arrayIndex_spec hsize).1
  have hle' := (arrayIndex_spec hsize').1
  have hlt : arrayIndex i < 32 := (arrayIndex_lt_iff hsize).mpr (by omega)
  rw [indexInBucket_eq (by omega), indexInBucket_eq (by omega), Option.some.injEq,
    ← hbucket] at hindex
  rw [← hbucket] at hle'
  omega

end Ustevent.AppendOnlyArray
