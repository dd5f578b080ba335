import Mathlib.Algebra.Group.Nat.Defs
import Mathlib.Data.Nat.Basic
import Ustevent.Reasoning.Runs

/-!
# The barrier

`BasicBarrier::wait` runs under the mutex up to its sleep in the condition variable, and again each
time that it is woken.  The barrier is used over and over: the threads of the next generation may
arrive, and even complete it, before the sleepers of the last one have looked at `_generation`.
-/

namespace Ustevent

open Reasoning

structure BasicBarrier where
  threshold : UInt64
  count : UInt64
  generation : UInt64
deriving DecidableEq

namespace BasicBarrier

/-- A call of `wait`, which sleeps with the generation that it has captured or has returned. -/
inductive Call
  | sleeping (gen : UInt64)
  | returned (last : Bool)
deriving DecidableEq

def create (count : UInt64) : BasicBarrier := ⟨count, count, 0⟩

/-- `wait` up to its sleep or its return. -/
def arrive (b : BasicBarrier) : Call × BasicBarrier :=
  let gen := b.generation
  let b := { b with count := b.count - 1 }
  if b.count = 0 then
    (.returned true, { b with generation := b.generation + 1, count := b.threshold })
  else (.sleeping gen, b)

/-- A sleeper that wakes up, for whatever reason, looks at the predicate of its wait. -/
def wake (b : BasicBarrier) (gen : UInt64) : Call :=
  if gen ≠ b.generation then .returned false else .sleeping gen

/-- A barrier with the calls of `wait` made so far, in the order of their arrivals. -/
structure Waiting where
  barrier : BasicBarrier
  calls : List Call
deriving DecidableEq

inductive Action
  | arrive
  | wake (i : Nat)
deriving DecidableEq

namespace Waiting

def initial (count : UInt64) : Waiting := ⟨create count, []⟩

def step (s : Waiting) : Action → Option Waiting
  | .arrive =>
    let (call, barrier) := s.barrier.arrive
    some ⟨barrier, s.calls ++ [call]⟩
  | .wake i =>
    match s.calls[i]? with
    | some (.sleeping gen) => some { s with calls := s.calls.set i (s.barrier.wake gen) }
    | _ => none

/-- All arrivals of the generation have happened. -/
def Complete (s : Waiting) (k : Nat) : Prop :=
  (k + 1) * s.barrier.threshold.toNat ≤ s.calls.length

/-- What the threads rely on.  The arrivals are numbered from 0, and number `i` is in the group of
`threshold` arrivals number `i / threshold`. -/
structure Sound (s : Waiting) : Prop where
  count_pos : 1 ≤ s.barrier.count.toNat
  count_le : s.barrier.count.toNat ≤ s.barrier.threshold.toNat
  grouped : ∀ i gen, s.calls[i]? = some (.sleeping gen) →
    gen.toNat = i / s.barrier.threshold.toNat
  complete : ∀ i last, s.calls[i]? = some (.returned last) →
    s.Complete (i / s.barrier.threshold.toNat)
  one : ∀ k, s.Complete k →
    ∃! i, i / s.barrier.threshold.toNat = k ∧ s.calls[i]? = some (.returned true)
  /-- a sleeper of a complete generation returns false as soon as it wakes up -/
  leaves : ∀ i gen, s.calls[i]? = some (.sleeping gen) →
    s.Complete (i / s.barrier.threshold.toNat) →
      ∃ t, s.step (.wake i) = some t ∧ t.calls[i]? = some (.returned false)
  /-- a sleeper of an incomplete one goes on sleeping -/
  stays : ∀ i gen, s.calls[i]? = some (.sleeping gen) →
    ¬ s.Complete (i / s.barrier.threshold.toNat) → s.step (.wake i) = some s

/-! ## The invariant -/

/-- What the call with number `i` among `arrivals` has seen. -/
def CallOk (n arrivals i : Nat) : Call → Prop
  | .sleeping gen => gen = UInt64.ofNat (i / n) ∧ i % n + 1 < n
  | .returned true => i % n + 1 = n
  | .returned false => i % n + 1 < n ∧ i / n < arrivals / n

/-- The counters say how many arrivals there have been. -/
structure Inv (s : Waiting) : Prop where
  count : s.barrier.count.toNat = s.barrier.threshold.toNat -
    s.calls.length % s.barrier.threshold.toNat
  generation : s.barrier.generation = UInt64.ofNat (s.calls.length / s.barrier.threshold.toNat)
  calls : ∀ i call, s.calls[i]? = some call →
    CallOk s.barrier.threshold.toNat s.calls.length i call

variable {s t : Waiting} {n i arrivals : Nat} {call : Call}

theorem succ_of_last (hn : 0 < n) (hlast : i % n + 1 = n) :
    (i + 1) / n = i / n + 1 ∧ (i + 1) % n = 0 := by
  rw [Nat.div_mod_unique hn]
  have hdecomp := Nat.mod_add_div i n
  rw [Nat.mul_add]
  omega

theorem succ_of_not_last (hn : 0 < n) (hnot : i % n + 1 < n) :
    (i + 1) / n = i / n ∧ (i + 1) % n = i % n + 1 := by
  rw [Nat.div_mod_unique hn]
  have hdecomp := Nat.mod_add_div i n
  omega

theorem CallOk.succ (h : CallOk n arrivals i call) : CallOk n (arrivals + 1) i call := by
  cases call with
  | sleeping gen => exact h
  | returned last =>
    cases last with
    | true => exact h
    | false => exact ⟨h.1, Nat.lt_of_lt_of_le h.2 (Nat.div_le_div_right (Nat.le_succ arrivals))⟩

theorem inv_initial (count : UInt64) : Inv (initial count) where
  count := by simp [initial, create]
  generation := by simp [initial, create]
  calls i call h := by simp [initial] at h

theorem Inv.calls_append (h : Inv s)
    (hcall : CallOk s.barrier.threshold.toNat (s.calls.length + 1) s.calls.length call) (i : Nat)
    (call' : Call) (hi : (s.calls ++ [call])[i]? = some call') :
    CallOk s.barrier.threshold.toNat (s.calls ++ [call]).length i call' := by
  rw [List.length_append, List.length_singleton]
  -- either a call from before or the new one
  rw [List.getElem?_append] at hi
  split at hi
  · exact (h.calls i call' hi).succ
  · rw [List.getElem?_singleton] at hi
    split at hi
    · cases hi
      rw [show i = s.calls.length by omega]
      exact hcall
    · contradiction

theorem Inv.arrive (h : Inv s) (hn : 0 < s.barrier.threshold.toNat)
    (hstep : s.step .arrive = some t) :
    Inv t ∧ t.barrier.threshold = s.barrier.threshold := by
  have hmod := Nat.mod_lt s.calls.length hn
  have hone : (1 : UInt64).toNat = 1 := rfl
  -- `_count` is not 0, so that the decrement does not wrap
  have hcount : (s.barrier.count - 1).toNat =
      s.barrier.threshold.toNat - s.calls.length % s.barrier.threshold.toNat - 1 := by
    rw [UInt64.toNat_sub_of_le, h.count, hone]
    rw [UInt64.le_iff_toNat_le, h.count, hone]
    omega
  unfold step BasicBarrier.arrive at hstep
  by_cases hzero : s.barrier.count - 1 = 0
  · -- the generation is complete
    have hlast : s.calls.length % s.barrier.threshold.toNat + 1 = s.barrier.threshold.toNat := by
      rw [hzero, UInt64.toNat_zero] at hcount
      omega
    have ⟨hdiv, hmod'⟩ := succ_of_last hn hlast
    simp only [hzero, if_true, Option.some.injEq] at hstep
    subst hstep
    refine ⟨⟨?_, ?_, h.calls_append hlast⟩, rfl⟩
    · rw [List.length_append, List.length_singleton]
      dsimp only
      rw [hmod', Nat.sub_zero]
    · rw [List.length_append, List.length_singleton]
      dsimp only
      rw [hdiv, UInt64.ofNat_add, h.generation]
      rfl
  -- the thread captures the generation and sleeps
  · have hnot : s.calls.length % s.barrier.threshold.toNat + 1 < s.barrier.threshold.toNat := by
      rw [← UInt64.toNat_inj, UInt64.toNat_zero] at hzero
      omega
    have ⟨hdiv, hmod'⟩ := succ_of_not_last hn hnot
    simp only [hzero, if_false, Option.some.injEq] at hstep
    subst hstep
    refine ⟨⟨?_, ?_, h.calls_append ⟨h.generation, hnot⟩⟩, rfl⟩
    · rw [List.length_append, List.length_singleton]
      dsimp only
      rw [hmod', hcount]
      omega
    · rw [List.length_append, List.length_singleton]
      dsimp only
      rw [hdiv, h.generation]

theorem Inv.wake (h : Inv s) (hstep : s.step (.wake i) = some t) :
    Inv t ∧ t.barrier.threshold = s.barrier.threshold := by
  rw [step] at hstep
  split at hstep
  · rename_i gen hgen
    cases hstep
    refine ⟨⟨?_, ?_, ?_⟩, rfl⟩
    · rw [List.length_set]
      exact h.count
    · rw [List.length_set]
      exact h.generation
    · intro j call hj
      rw [List.length_set]
      rw [List.getElem?_set] at hj
      split at hj
      · rename_i heq
        subst heq
        have ⟨hcaptured, hnot⟩ := h.calls i _ hgen
        have hlt := (List.getElem?_eq_some_iff.mp hgen).1
        rw [if_pos hlt] at hj
        cases hj
        unfold BasicBarrier.wake
        -- the predicate of the wait
        by_cases hchanged : gen ≠ s.barrier.generation
        · rw [if_pos hchanged]
          refine ⟨hnot, Nat.lt_of_le_of_ne (Nat.div_le_div_right (Nat.le_of_lt hlt)) ?_⟩
          intro heq
          apply hchanged
          rw [hcaptured, h.generation]
          exact congrArg UInt64.ofNat heq
        · rw [if_neg hchanged]
          exact ⟨hcaptured, hnot⟩
      · exact h.calls j call hj
  · contradiction

theorem Inv.step {a : Action} (h : Inv s) (hn : 0 < s.barrier.threshold.toNat)
    (hstep : s.step a = some t) : Inv t ∧ t.barrier.threshold = s.barrier.threshold := by
  cases a with
  | arrive => exact h.arrive hn hstep
  | wake i => exact h.wake hstep

/-! ## Runs -/

theorem complete_iff (hn : 0 < s.barrier.threshold.toNat) {k : Nat} :
    s.Complete k ↔ k < s.calls.length / s.barrier.threshold.toNat := by
  rw [Complete, ← Nat.le_div_iff_mul_le hn, Nat.succ_le_iff]

theorem ofNat_inj_of_lt {a b : Nat} (ha : a < 2 ^ 64) (hb : b < 2 ^ 64)
    (h : UInt64.ofNat a = UInt64.ofNat b) : a = b := by
  have heq := congrArg UInt64.toNat h
  rw [UInt64.toNat_ofNat_of_lt' ha, UInt64.toNat_ofNat_of_lt' hb] at heq
  exact heq

/-- A sleeper sees another generation exactly if its own one is complete. -/
theorem Inv.sees_iff (h : Inv s) (hn : 0 < s.barrier.threshold.toNat)
    (hgenerations : s.calls.length / s.barrier.threshold.toNat < 2 ^ 64) {gen : UInt64}
    (hgen : s.calls[i]? = some (.sleeping gen)) :
    gen ≠ s.barrier.generation ↔ s.Complete (i / s.barrier.threshold.toNat) := by
  have hlt := (List.getElem?_eq_some_iff.mp hgen).1
  have hle : i / s.barrier.threshold.toNat ≤ s.calls.length / s.barrier.threshold.toNat :=
    Nat.div_le_div_right (Nat.le_of_lt hlt)
  have hcaptured : gen = UInt64.ofNat (i / s.barrier.threshold.toNat) := (h.calls i _ hgen).1
  rw [complete_iff hn, hcaptured, h.generation]
  constructor
  · intro hne
    exact Nat.lt_of_le_of_ne hle fun heq ↦ hne (congrArg UInt64.ofNat heq)
  · intro hlt heq
    exact Nat.ne_of_lt hlt (ofNat_inj_of_lt (by omega) hgenerations heq)

/-- The last arrival of a complete generation is the one that returns true. -/
theorem Inv.one (h : Inv s) (hn : 0 < s.barrier.threshold.toNat) {k : Nat} (hk : s.Complete k) :
    ∃! i, i / s.barrier.threshold.toNat = k ∧ s.calls[i]? = some (.returned true) := by
  generalize hthreshold : s.barrier.threshold.toNat = n at *
  -- the number of the last arrival
  have hlast : (k * n + (n - 1)) / n = k ∧ (k * n + (n - 1)) % n + 1 = n := by
    have hunique : (k * n + (n - 1)) / n = k ∧ (k * n + (n - 1)) % n = n - 1 := by
      rw [Nat.div_mod_unique hn, Nat.mul_comm]
      omega
    omega
  have hlt : k * n + (n - 1) < s.calls.length := by
    rw [Complete, hthreshold, Nat.succ_mul] at hk
    omega
  have hcalls := h.calls
  rw [hthreshold] at hcalls
  refine ⟨k * n + (n - 1), ⟨hlast.1, ?_⟩, ?_⟩
  · rw [List.getElem?_eq_getElem hlt]
    have hok := hcalls _ _ (List.getElem?_eq_getElem hlt)
    match hcall : s.calls[k * n + (n - 1)] with
    | .sleeping gen =>
      rw [hcall] at hok
      exact absurd hok.2 (by omega)
    | .returned false =>
      rw [hcall] at hok
      exact absurd hok.1 (by omega)
    | .returned true => rfl
  -- only the last arrival of a generation returns true, whatever the generation is
  · rintro j ⟨hj, htrue⟩
    have hmod : j % n + 1 = n := hcalls j _ htrue
    have hdecomp := Nat.mod_add_div j n
    rw [hj, Nat.mul_comm] at hdecomp
    omega

theorem Inv.sound (h : Inv s) (hn : 0 < s.barrier.threshold.toNat)
    (hgenerations : s.calls.length / s.barrier.threshold.toNat < 2 ^ 64) : Sound s where
  count_pos := by
    have := Nat.mod_lt s.calls.length hn
    rw [h.count]
    omega
  count_le := by
    rw [h.count]
    omega
  grouped i gen hgen := by
    have hlt := (List.getElem?_eq_some_iff.mp hgen).1
    have hle := Nat.div_le_div_right (c := s.barrier.threshold.toNat) (Nat.le_of_lt hlt)
    have hcaptured : gen = UInt64.ofNat (i / s.barrier.threshold.toNat) := (h.calls i _ hgen).1
    rw [hcaptured]
    exact UInt64.toNat_ofNat_of_lt' (Nat.lt_of_le_of_lt hle hgenerations)
  complete i last hreturned := by
    have hlt := (List.getElem?_eq_some_iff.mp hreturned).1
    rw [complete_iff hn]
    cases last with
    | true =>
      have hlast := (succ_of_last hn (h.calls i _ hreturned)).1
      have hle := Nat.div_le_div_right (c := s.barrier.threshold.toNat) hlt
      rw [Nat.succ_eq_add_one, hlast] at hle
      exact hle
    | false => exact (h.calls i _ hreturned).2
  one k hk := h.one hn hk
  leaves i gen hgen hcomplete := by
    have hlt := (List.getElem?_eq_some_iff.mp hgen).1
    have hchanged := (h.sees_iff hn hgenerations hgen).mpr hcomplete
    -- its next wake-up is the last one
    refine ⟨{ s with calls := s.calls.set i (.returned false) }, ?_, ?_⟩
    · simp only [Waiting.step]
      rw [hgen]
      dsimp only
      rw [BasicBarrier.wake, if_pos hchanged]
    · exact List.getElem?_set_self hlt
  stays i gen hgen hincomplete := by
    have hsame := mt (h.sees_iff hn hgenerations hgen).mp hincomplete
    simp only [Waiting.step]
    rw [hgen]
    dsimp only
    rw [BasicBarrier.wake, if_neg hsame]
    obtain ⟨hlt, hget⟩ := List.getElem?_eq_some_iff.mp hgen
    rw [← hget, List.set_getElem_self]

/-- In every run with fewer than 2^64 generations, the barrier lets the arrivals through in groups of
`count`. -/
theorem grouped_of_run {count : UInt64} (hcount : 1 ≤ count.toNat) {as : List Action}
    (hrun : run step (initial count) as = some s)
    (hgenerations : s.calls.length / count.toNat < 2 ^ 64) :
    s.barrier.threshold = count ∧ Sound s := by
  have hinv : Inv s ∧ s.barrier.threshold = count := by
    apply invariant_of_run (fun s ↦ Inv s ∧ s.barrier.threshold = count) _
      ⟨inv_initial count, rfl⟩ hrun
    intro s a t ⟨h, hthreshold⟩ hstep
    have hnext := h.step (by rw [hthreshold]; exact hcount) hstep
    exact ⟨hnext.1, hnext.2.trans hthreshold⟩
  refine ⟨hinv.2, hinv.1.sound ?_ ?_⟩
  · rw [hinv.2]
    exact hcount
  · rw [hinv.2]
    exact hgenerations

/-- The second generation of two threads is complete before the sleeper of the first one wakes up. -/
def overtaken : List Action := [.arrive, .wake 0, .arrive, .arrive, .arrive, .wake 0, .wake 2]

theorem grouped_of_run_overtaken :
    ∃ s, run step (initial 2) overtaken = some s ∧ s.barrier.threshold = 2 ∧ Sound s :=
  ⟨_, rfl, grouped_of_run (by decide) (rfl : run step (initial 2) overtaken = some _) (by decide)⟩

end Waiting

end BasicBarrier

end Ustevent
