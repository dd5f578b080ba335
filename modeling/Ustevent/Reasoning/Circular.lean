import Mathlib.Data.List.Basic
import Mathlib.Algebra.BigOperators.Group.List.Basic
import Mathlib.Algebra.GroupWithZero.Nat
import Mathlib.Algebra.Order.BigOperators.Group.List

/-!
# Segments in a circular store

A segment has a start and a size.  A chain is a list of segments laid end to end.  The segments in
use of a circular store of a given capacity are one chain from the read offset to the write offset,
or, once the write offset has wrapped around, a chain from the read offset to the place where the
store was cut and a second chain from 0 to the write offset, which stays below the read offset.
-/

namespace Reasoning

variable {ρ : Type*} (start size : ρ → Nat)

/-- The segments of the list lie end to end from `a` to `b`. -/
def Chain : Nat → List ρ → Nat → Prop
  | a, [], b => a = b
  | a, r :: rs, b => start r = a ∧ Chain (a + size r) rs b

/-- The number of bytes in a list of segments. -/
def total (l : List ρ) : Nat := (l.map size).sum

/-- Two segments without a common byte. -/
def Disjoint (r s : ρ) : Prop := start r + size r ≤ start s ∨ start s + size s ≤ start r

instance (r s : ρ) : Decidable (Disjoint start size r s) :=
  inferInstanceAs (Decidable (start r + size r ≤ start s ∨ start s + size s ≤ start r))

@[simp] theorem total_nil : total size [] = 0 := rfl

@[simp] theorem total_cons (r : ρ) (l : List ρ) : total size (r :: l) = size r + total size l := by
  simp only [total, List.map_cons, List.sum_cons]

@[simp] theorem total_append (l m : List ρ) :
    total size (l ++ m) = total size l + total size m := by
  simp only [total, List.map_append, List.sum_append]

theorem total_take_le (l : List ρ) (k : Nat) : total size (l.take k) ≤ total size l := by
  conv_rhs => rw [← List.take_append_drop k l, total_append]
  exact Nat.le_add_right _ _

theorem total_take_succ {l : List ρ} {j : Nat} {r : ρ} (h : l[j]? = some r) :
    total size (l.take (j + 1)) = total size (l.take j) + size r := by
  rw [List.take_add_one, h, total_append]
  rfl

theorem total_drop {l : List ρ} {j : Nat} {r : ρ} (h : l[j]? = some r) :
    total size (l.drop j) = size r + total size (l.drop (j + 1)) := by
  have ⟨hlt, heq⟩ := List.getElem?_eq_some_iff.mp h
  rw [List.drop_eq_getElem_cons hlt, heq, total_cons]

theorem total_map (f : ρ → ρ) (hf : ∀ r, size (f r) = size r) (l : List ρ) :
    total size (l.map f) = total size l := by
  induction l with
  | nil => rfl
  | cons r l ih => rw [List.map_cons, total_cons, total_cons, ih, hf]

variable {start size}

theorem Chain.total_eq {a b : Nat} {l : List ρ} (h : Chain start size a l b) :
    a + total size l = b := by
  induction l generalizing a with
  | nil => exact h
  | cons r l ih =>
    have hr := ih h.2
    rw [total_cons]
    omega

theorem Chain.le {a b : Nat} {l : List ρ} (h : Chain start size a l b) : a ≤ b := by
  have := h.total_eq
  omega

theorem Chain.append {a b c : Nat} {l m : List ρ} (hl : Chain start size a l b)
    (hm : Chain start size b m c) : Chain start size a (l ++ m) c := by
  induction l generalizing a with
  | nil => exact hl ▸ hm
  | cons r l ih => exact ⟨hl.1, ih hl.2⟩

theorem Chain.concat {a b : Nat} {l : List ρ} {r : ρ} (hl : Chain start size a l b)
    (hr : start r = b) : Chain start size a (l ++ [r]) (b + size r) :=
  hl.append ⟨hr, rfl⟩

theorem Chain.drop {a b : Nat} {l : List ρ} (h : Chain start size a l b) (k : Nat) :
    Chain start size (a + total size (l.take k)) (l.drop k) b := by
  induction l generalizing a k with
  | nil => simpa using h
  | cons r l ih =>
    cases k with
    | zero => exact h
    | succ k =>
      rw [List.take_succ_cons, List.drop_succ_cons, total_cons, ← Nat.add_assoc]
      exact ih h.2 k

theorem Chain.take {a b : Nat} {l : List ρ} (h : Chain start size a l b) (k : Nat) :
    Chain start size a (l.take k) (a + total size (l.take k)) := by
  induction l generalizing a k with
  | nil =>
    rw [List.take_nil]
    rfl
  | cons r l ih =>
    cases k with
    | zero => rfl
    | succ k =>
      rw [List.take_succ_cons, total_cons, ← Nat.add_assoc]
      exact ⟨h.1, ih h.2 k⟩

theorem Chain.start_eq {a b : Nat} {l : List ρ} (h : Chain start size a l b) {j : Nat} {r : ρ}
    (hr : l[j]? = some r) : start r = a + total size (l.take j) := by
  have ⟨hlt, heq⟩ := List.getElem?_eq_some_iff.mp hr
  have hdrop := h.drop j
  rw [List.drop_eq_getElem_cons hlt, heq] at hdrop
  exact hdrop.1

theorem Chain.mem_bounds {a b : Nat} {l : List ρ} (h : Chain start size a l b) {r : ρ}
    (hr : r ∈ l) : a ≤ start r ∧ start r + size r ≤ b := by
  induction l generalizing a with
  | nil => exact absurd hr List.not_mem_nil
  | cons s l ih =>
    rcases List.mem_cons.mp hr with rfl | hmem
    · have := h.2.le
      have := h.1
      omega
    · have := ih h.2 hmem
      omega

theorem Chain.pairwise_disjoint {a b : Nat} {l : List ρ} (h : Chain start size a l b) :
    l.Pairwise (Disjoint start size) := by
  induction l generalizing a with
  | nil => exact List.Pairwise.nil
  | cons r l ih =>
    refine List.Pairwise.cons (fun s hs ↦ Or.inl ?_) (ih h.2)
    have := (h.2.mem_bounds hs).1
    have := h.1
    omega

theorem Chain.map {a b : Nat} {l : List ρ} (h : Chain start size a l b) {f : ρ → ρ}
    (hstart : ∀ r, start (f r) = start r) (hsize : ∀ r, size (f r) = size r) :
    Chain start size a (l.map f) b := by
  induction l generalizing a with
  | nil => exact h
  | cons r l ih =>
    refine ⟨(hstart r).trans h.1, ?_⟩
    rw [hsize]
    exact ih h.2

/-- Segments of positive size leave a chain no room to be nonempty and stay in place. -/
theorem Chain.eq_nil {a : Nat} {l : List ρ} (h : Chain start size a l a)
    (hpos : ∀ r ∈ l, 0 < size r) : l = [] := by
  cases l with
  | nil => rfl
  | cons r l =>
    have := h.2.le
    have := hpos r List.mem_cons_self
    omega

/-- A segment of the chain starts at the boundary in front of it. -/
theorem Chain.start_boundary {a b : Nat} {l : List ρ} (h : Chain start size a l b) {r : ρ}
    (hr : r ∈ l) : ∃ k, k < l.length ∧ start r = a + total size (l.take k) := by
  induction l generalizing a with
  | nil => exact absurd hr List.not_mem_nil
  | cons s l ih =>
    rcases List.mem_cons.mp hr with rfl | hmem
    · exact ⟨0, by simp, by simpa using h.1⟩
    · obtain ⟨k, hk, heq⟩ := ih h.2 hmem
      refine ⟨k + 1, by simpa using hk, ?_⟩
      rw [List.take_succ_cons, total_cons, heq]
      omega

/-- Where the segments in use of a circular store lie: `front` from the read offset upward, and, if
the write offset has wrapped around, `cut` the offset where `front` has to stop and `back` the
segments from 0 upward. -/
structure Circular (ρ : Type*) where
  front : List ρ
  cut : Option Nat
  back : List ρ

namespace Circular

/-- All segments in use, oldest first. -/
def items (c : Circular ρ) : List ρ := c.front ++ c.back

def empty : Circular ρ := ⟨[], none, []⟩

/-- The read offset has wrapped around as well. -/
def turn (c : Circular ρ) : Circular ρ := ⟨c.back, none, []⟩

/-- Free the `k` oldest segments of the front. -/
def release (c : Circular ρ) (k : Nat) : Circular ρ := { c with front := c.front.drop k }

def map (f : ρ → ρ) (c : Circular ρ) : Circular ρ := ⟨c.front.map f, c.cut, c.back.map f⟩

variable (start size)

/-- The segments lie in a store of the given capacity as the read and write offsets say. -/
def Fits (capacity read write : Nat) (c : Circular ρ) : Prop :=
  match c.cut with
  | none => Chain start size read c.front write ∧ write < capacity ∧ c.back = []
  | some stop => Chain start size read c.front stop ∧ Chain start size 0 c.back write ∧
      write < read ∧ read < capacity ∧ stop ≤ capacity

/-- The four ways to reserve room for one more segment: ahead of the write offset, up to the very
end of the store, at 0 after cutting the store, or behind the read offset. -/
inductive Reserves (capacity read write : Nat) (c : Circular ρ) (r : ρ) :
    Nat → Circular ρ → Prop
  | ahead (hcut : c.cut = none) (hstart : start r = write) (hfit : write + size r < capacity) :
      Reserves capacity read write c r (write + size r) ⟨c.front ++ [r], none, c.back⟩
  | toEnd (hcut : c.cut = none) (hstart : start r = write) (hfit : write + size r = capacity)
      (hread : 0 < read) :
      Reserves capacity read write c r 0 ⟨c.front ++ [r], some capacity, c.back⟩
  | fromZero (hcut : c.cut = none) (hstart : start r = 0) (hfit : capacity < write + size r)
      (hread : size r < read) :
      Reserves capacity read write c r (size r) ⟨c.front, some write, [r]⟩
  | behind (stop : Nat) (hcut : c.cut = some stop) (hstart : start r = write)
      (hfit : write + size r < read) :
      Reserves capacity read write c r (write + size r) ⟨c.front, some stop, c.back ++ [r]⟩

variable {start size}

theorem fits_empty {capacity : Nat} (h : 0 < capacity) :
    Fits start size capacity 0 0 (empty : Circular ρ) :=
  ⟨rfl, h, rfl⟩

theorem Fits.reserves {capacity read write write' : Nat} {c c' : Circular ρ} {r : ρ}
    (h : Fits start size capacity read write c)
    (hr : Reserves start size capacity read write c r write' c') :
    Fits start size capacity read write' c' := by
  cases hr with
  | ahead hcut hstart hfit =>
    simp only [Fits, hcut] at h ⊢
    exact ⟨h.1.concat hstart, hfit, h.2.2⟩
  | toEnd hcut hstart hfit hread =>
    simp only [Fits, hcut] at h ⊢
    have hle := h.1.le
    refine ⟨hfit ▸ h.1.concat hstart, ?_, hread, by omega, Nat.le_refl _⟩
    rw [h.2.2]
    rfl
  | fromZero hcut hstart hfit hread =>
    simp only [Fits, hcut] at h ⊢
    have hle := h.1.le
    exact ⟨h.1, ⟨hstart, by rw [Nat.zero_add]; rfl⟩, hread, by omega, by omega⟩
  | behind stop hcut hstart hfit =>
    simp only [Fits, hcut] at h ⊢
    exact ⟨h.1, h.2.1.concat hstart, hfit, h.2.2.2⟩

theorem Fits.reserves_items {capacity read write write' : Nat} {c c' : Circular ρ} {r : ρ}
    (h : Fits start size capacity read write c)
    (hr : Reserves start size capacity read write c r write' c') : c'.items = c.items ++ [r] := by
  cases hr with
  | ahead hcut | toEnd hcut | fromZero hcut =>
    simp only [Fits, hcut] at h
    simp [items, h.2.2]
  | behind stop hcut => simp [items]

theorem Reserves.front_initial {capacity read write write' : Nat} {c c' : Circular ρ} {r : ρ}
    (h : Reserves start size capacity read write c r write' c') : c.front <+: c'.front := by
  cases h with
  | ahead | toEnd => exact List.prefix_append _ _
  | fromZero | behind => exact List.prefix_rfl

theorem Fits.read_lt {capacity read write : Nat} {c : Circular ρ}
    (h : Fits start size capacity read write c) : read < capacity := by
  unfold Fits at h
  split at h
  · have := h.1.le
    omega
  · exact h.2.2.2.1

theorem Fits.write_lt {capacity read write : Nat} {c : Circular ρ}
    (h : Fits start size capacity read write c) : write < capacity := by
  unfold Fits at h
  split at h <;> omega

/-- The write offset is below the read offset exactly when it has wrapped around. -/
theorem Fits.cut_isSome_iff {capacity read write : Nat} {c : Circular ρ}
    (h : Fits start size capacity read write c) : c.cut.isSome ↔ write < read := by
  unfold Fits at h
  split at h
  · rename_i hcut
    have := h.1.le
    simp [hcut]
    omega
  · rename_i stop hcut
    simp [hcut, h.2.2.1]

theorem Fits.front_chain {capacity read write : Nat} {c : Circular ρ}
    (h : Fits start size capacity read write c) :
    Chain start size read c.front (c.cut.getD write) := by
  unfold Fits at h
  split at h
  · rename_i hcut
    simpa [hcut] using h.1
  · rename_i stop hcut
    simpa [hcut] using h.1

theorem Fits.stop_le {capacity read write : Nat} {c : Circular ρ}
    (h : Fits start size capacity read write c) : c.cut.getD write ≤ capacity := by
  have hw := h.write_lt
  unfold Fits at h
  split at h
  · rename_i hcut
    simp [hcut]
    omega
  · rename_i stop hcut
    simpa [hcut] using h.2.2.2.2

theorem Fits.release {capacity read write : Nat} {c : Circular ρ}
    (h : Fits start size capacity read write c) (k : Nat)
    (hlt : read + total size (c.front.take k) < capacity) :
    Fits start size capacity (read + total size (c.front.take k)) write (c.release k) := by
  unfold Fits at h
  split at h
  · rename_i hcut
    simp only [Fits, Circular.release, hcut]
    exact ⟨h.1.drop k, h.2⟩
  · rename_i stop hcut
    simp only [Fits, Circular.release, hcut]
    exact ⟨h.1.drop k, h.2.1, by omega, hlt, h.2.2.2.2⟩

/-- Freeing the front up to the end of the store takes the read offset to 0. -/
theorem Fits.release_to_end {capacity read write : Nat} {c : Circular ρ}
    (h : Fits start size capacity read write c) (hpos : ∀ r ∈ c.front, 0 < size r) (k : Nat)
    (hend : read + total size (c.front.take k) = capacity) :
    Fits start size capacity 0 write c.turn ∧ c.front.drop k = [] := by
  have hdrop := h.front_chain.drop k
  rw [hend] at hdrop
  have hstop : c.cut.getD write = capacity := Nat.le_antisymm h.stop_le hdrop.le
  rw [hstop] at hdrop
  have hnil := hdrop.eq_nil fun r hr ↦ hpos r (List.mem_of_mem_drop hr)
  refine ⟨?_, hnil⟩
  unfold Fits at h
  split at h
  · rename_i hcut
    rw [hcut, Option.getD_none] at hstop
    omega
  · exact ⟨h.2.1, by omega, rfl⟩

/-- Once the front is used up, the read offset may follow the write offset to 0. -/
theorem Fits.turn {capacity read write stop : Nat} {c : Circular ρ}
    (h : Fits start size capacity read write c) (hcut : c.cut = some stop) :
    Fits start size capacity 0 write c.turn := by
  simp only [Fits, hcut] at h
  exact ⟨h.2.1, by omega, rfl⟩

theorem Fits.map {capacity read write : Nat} {c : Circular ρ}
    (h : Fits start size capacity read write c) {f : ρ → ρ}
    (hstart : ∀ r, start (f r) = start r) (hsize : ∀ r, size (f r) = size r) :
    Fits start size capacity read write (c.map f) := by
  unfold Fits at h
  split at h
  · rename_i hcut
    simp only [Fits, Circular.map, hcut]
    exact ⟨h.1.map hstart hsize, h.2.1, by rw [h.2.2]; rfl⟩
  · rename_i stop hcut
    simp only [Fits, Circular.map, hcut]
    exact ⟨h.1.map hstart hsize, h.2.1.map hstart hsize, h.2.2⟩

theorem Fits.back_bounds {capacity read write : Nat} {c : Circular ρ}
    (h : Fits start size capacity read write c) {r : ρ} (hr : r ∈ c.back) :
    start r + size r ≤ write ∧ write < read := by
  unfold Fits at h
  split at h
  · rw [h.2.2] at hr
    exact absurd hr List.not_mem_nil
  · exact ⟨(h.2.1.mem_bounds hr).2, h.2.2.1⟩

theorem Fits.end_le {capacity read write : Nat} {c : Circular ρ}
    (h : Fits start size capacity read write c) {r : ρ} (hr : r ∈ c.items) :
    start r + size r ≤ capacity := by
  rcases List.mem_append.mp hr with hf | hb
  · exact Nat.le_trans (h.front_chain.mem_bounds hf).2 h.stop_le
  · have := h.back_bounds hb
    have := h.read_lt
    omega

theorem Fits.pairwise_disjoint {capacity read write : Nat} {c : Circular ρ}
    (h : Fits start size capacity read write c) : c.items.Pairwise (Disjoint start size) := by
  have hback : c.back.Pairwise (Disjoint start size) := by
    unfold Fits at h
    split at h
    · rw [h.2.2]
      exact List.Pairwise.nil
    · exact h.2.1.pairwise_disjoint
  refine List.pairwise_append.mpr ⟨h.front_chain.pairwise_disjoint, hback, ?_⟩
  intro r hr s hs
  have := (h.front_chain.mem_bounds hr).1
  have := h.back_bounds hs
  exact Or.inr (by omega)

end Circular

end Reasoning
