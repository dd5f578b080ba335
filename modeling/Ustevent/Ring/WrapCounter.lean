import Ustevent.Ring.Interleaved

/-!
# The wrap counter

The bits 32 to 62 of the producer barrier are there for the number of wrap-arounds, so that a
compare-exchange fails on a barrier that has come round to the same index.  They are never set.
-/

namespace Ustevent.MpscRingBuffer

open Reasoning

variable {n : Nat}

/-- The step brings no wrap-around to an end: neither does it make a reservation that ends with the
buffer, nor does it make the barrier stable again after one that has been cut off.  (An index that
does not fit into its 32 bits is left out as well.) -/
def Producer.Stays (capacity barrier : Nat) : Producer → Prop
  | .exchange size seen _ _ => barrier = seen → capacity < getBufferIndex seen + size ∨
      getBufferIndex seen + size < capacity ∧ getBufferIndex seen + size < 2 ^ 32
  | .unlockBarrier _ => False
  | _ => True

instance (capacity barrier : Nat) : (pc : Producer) → Decidable (pc.Stays capacity barrier)
  | .exchange size seen _ _ => inferInstanceAs (Decidable (barrier = seen →
      capacity < getBufferIndex seen + size ∨
        getBufferIndex seen + size < capacity ∧ getBufferIndex seen + size < 2 ^ 32))
  | .unlockBarrier _ => isFalse id
  | .unregistered | .registering | .idle | .loadNext _ | .storeSeen _ _ _ | .loadWritten _ _ _
  | .giveUp | .loadSeen _ _ | .storeUnlocked _ _ _ | .setEnd _ _ | .holding => isTrue trivial

/-- `wrapArounds` counts the reservations that have been cut off or end with the buffer, and `next`
is the offset behind the last reservation. -/
structure Counting (n : Nat) where
  system : System n
  wrapArounds : Nat
  next : Nat

namespace Counting

def initial (n : Nat) : Counting n where
  system := System.initial n
  wrapArounds := 0
  next := 0

/-- The offset and the size of the reservation that the step makes. -/
def reservation (s : System n) : Action n → Option (Nat × Nat)
  | .producer w =>
    match s.producers w with
    | .exchange size seen _ _ =>
      if s.ring.producerBarrier = seen then some (getBufferIndex seen, size) else none
    | _ => none
  | _ => none

/-- A reservation that does not fit begins at 0. -/
def count (capacity : Nat) (s : Counting n) (next size : Nat) : Counting n :=
  if next + size < capacity then { s with next := next + size }
  else { s with
    wrapArounds := s.wrapArounds + 1
    next := if next + size = capacity then 0 else size }

def step (capacity : Nat) (s : Counting n) (action : Action n) : Option (Counting n) :=
  (s.system.step capacity action).map fun system ↦
    match reservation s.system action with
    | some (next, size) => { s.count capacity next size with system := system }
    | none => { s with system := system }

/-- What the fields of a stable barrier are for. -/
def Counted (s : Counting n) : Prop :=
  s.wrapArounds < 2 ^ 31 → isLocked s.system.ring.producerBarrier = false →
    getWrapCounter s.system.ring.producerBarrier = s.wrapArounds * 2 ^ 32 ∧
      getBufferIndex s.system.ring.producerBarrier = s.next

def Stays (capacity : Nat) (s : Counting n) : Action n → Prop
  | .producer w => (s.system.producers w).Stays capacity s.system.ring.producerBarrier
  | _ => True

instance (capacity : Nat) (s : Counting n) :
    (action : Action n) → Decidable (s.Stays capacity action)
  | .producer w => inferInstanceAs
      (Decidable ((s.system.producers w).Stays capacity s.system.ring.producerBarrier))
  | .registerWorker _ | .acquire _ _ | .produce _ | .spurious _ | .consume | .release _
  | .consumer => isTrue trivial

end Counting

/-- The barrier that a reservation at `next` stores. -/
def targetOf (capacity next size : Nat) : Nat :=
  if next + size < capacity then next + size
  else if next + size = capacity then 0 else lockWrapBit size

theorem acquireTarget_eq {capacity seen size written target : Nat} (hcap : capacity < 2 ^ 63)
    (hsize : size ≤ capacity) (h : acquireTarget capacity seen size written = some target) :
    target = targetOf capacity (getBufferIndex seen) size := by
  have hindex : getBufferIndex seen < 2 ^ 32 := by
    rw [getBufferIndex_eq_mod]
    exact Nat.mod_lt _ (by decide)
  have hsum : (getBufferIndex seen + size) % 2 ^ 64 = getBufferIndex seen + size :=
    Nat.mod_eq_of_lt (by omega)
  simp only [acquireTarget, hsum, setWrapCounter] at h
  unfold targetOf
  grind

/-- What a producer between the load of the barrier and the end of its acquire knows of it. -/
def Producer.Tracks (capacity barrier : Nat) : Producer → Prop
  | .loadNext size => size ≤ capacity
  | .storeSeen size seen _ | .loadWritten size seen _ => size ≤ capacity ∧ isLocked seen = false
  | .exchange size seen target _ => size ≤ capacity ∧ isLocked seen = false ∧
      target = targetOf capacity (getBufferIndex seen) size
  | .loadSeen _ target | .storeUnlocked _ target _ => isLocked target = true → barrier = target
  | .setEnd _ target | .unlockBarrier target => isLocked target = true ∧ barrier = target
  | _ => True

theorem Producer.Tracks.of_stable {capacity barrier barrier' : Nat} {pc : Producer}
    (h : pc.Tracks capacity barrier) (hstable : isLocked barrier = false) :
    pc.Tracks capacity barrier' := by
  have hne : ∀ target, isLocked target = true → barrier ≠ target := by
    rintro target hlocked rfl
    rw [hstable] at hlocked
    contradiction
  cases pc with
  | loadSeen seen target => exact fun hlocked ↦ absurd (h hlocked) (hne target hlocked)
  | storeUnlocked seen target own => exact fun hlocked ↦ absurd (h hlocked) (hne target hlocked)
  | setEnd seen target => exact absurd h.2 (hne target h.1)
  | unlockBarrier target => exact absurd h.2 (hne target h.1)
  | _ => exact h

namespace Counting

variable {capacity : Nat} {s t : Counting n} {w : Fin n} {pc : Producer} {system : System n}

/-- Before a wrap-around comes to an end: the barrier is the offset behind the last reservation, or
that of one that has been cut off and has yet to make it stable. -/
structure Inv (capacity : Nat) (s : Counting n) : Prop where
  barrier : (s.system.ring.producerBarrier < 2 ^ 32 ∧ s.wrapArounds = 0 ∧
      s.next = s.system.ring.producerBarrier) ∨
    ∃ size, size < 2 ^ 63 ∧ s.system.ring.producerBarrier = lockWrapBit size ∧
      s.wrapArounds = 1 ∧ s.next = size
  producers : ∀ w, (s.system.producers w).Tracks capacity s.system.ring.producerBarrier

theorem inv_initial : (initial n).Inv capacity where
  barrier := Or.inl ⟨Nat.two_pow_pos 32, rfl, rfl⟩
  producers _ := trivial

theorem Inv.counted (h : s.Inv capacity) : s.Counted := by
  rintro - hstable
  rcases h.barrier with ⟨hlt, hwraps, hnext⟩ | ⟨size, hsize, hbarrier, -⟩
  · rw [hwraps, hnext, getBufferIndex_of_lt hlt]
    exact ⟨(getWrapCounter_eq_zero_iff (by omega)).mpr hlt, rfl⟩
  · rw [hbarrier, isLocked_lockWrapBit hsize] at hstable
    contradiction

/-- A step that leaves the barrier as it is meets the condition. -/
theorem Inv.kept (h : s.Inv capacity) {stays : Prop} (hstays : stays) :
    (s.Counted ↔ stays) ∧ (s.Counted → s.Inv capacity) :=
  ⟨iff_of_true h.counted hstays, fun _ ↦ h⟩

theorem Inv.eq_of_stable (h : s.Inv capacity)
    (hstable : isLocked s.system.ring.producerBarrier = false) :
    s.system.ring.producerBarrier < 2 ^ 32 ∧ s.wrapArounds = 0 ∧
      s.next = s.system.ring.producerBarrier := by
  rcases h.barrier with hlt | ⟨size, hsize, hbarrier, -⟩
  · exact hlt
  · rw [hbarrier, isLocked_lockWrapBit hsize] at hstable
    contradiction

/-! ## Steps -/

theorem Inv.same (h : s.Inv capacity)
    (hbarrier : system.ring.producerBarrier = s.system.ring.producerBarrier)
    (hproducers : system.producers = s.system.producers) :
    Inv capacity { s with system := system } where
  barrier := by
    rw [hbarrier]
    exact h.barrier
  producers w := by
    rw [hbarrier, hproducers]
    exact h.producers w

theorem tracks_update {barrier : Nat} {producers : Fin n → Producer}
    (h : ∀ v, (producers v).Tracks capacity barrier) (hpc : pc.Tracks capacity barrier)
    (v : Fin n) : (Function.update producers w pc v).Tracks capacity barrier := by
  by_cases heq : v = w
  · subst heq
    rw [Function.update_self]
    exact hpc
  · rw [Function.update_of_ne heq]
    exact h v

theorem Inv.goto (h : s.Inv capacity)
    (hbarrier : system.ring.producerBarrier = s.system.ring.producerBarrier)
    (hproducers : system.producers = Function.update s.system.producers w pc)
    (hpc : pc.Tracks capacity s.system.ring.producerBarrier) :
    Inv capacity { s with system := system } where
  barrier := by
    rw [hbarrier]
    exact h.barrier
  producers v := by
    rw [hbarrier, hproducers]
    exact tracks_update h.producers hpc v

/-- The compare-exchange that makes a reservation. -/
theorem Inv.exchange (h : s.Inv capacity) (hcap : capacity < 2 ^ 63) {size seen target lap : Nat}
    (hpc : s.system.producers w = .exchange size seen target lap)
    (hseen : s.system.ring.producerBarrier = seen)
    (hbarrier : system.ring.producerBarrier = target)
    (hproducers : system.producers = Function.update s.system.producers w (.loadSeen seen target))
    (ht : t = { s.count capacity (getBufferIndex seen) size with system := system }) :
    (t.Counted ↔ (Producer.exchange size seen target lap).Stays capacity
      s.system.ring.producerBarrier) ∧ (t.Counted → t.Inv capacity) := by
  have hstays : (Producer.exchange size seen target lap).Stays capacity
      s.system.ring.producerBarrier ↔ capacity < getBufferIndex seen + size ∨
        getBufferIndex seen + size < capacity ∧ getBufferIndex seen + size < 2 ^ 32 :=
    forall_prop_of_true hseen
  rw [hstays]
  have hw := h.producers w
  rw [hpc] at hw
  obtain ⟨hsize, hstable, htarget⟩ := hw
  rw [← hseen] at hstable
  obtain ⟨hlt, hwraps, hnext⟩ := h.eq_of_stable hstable
  have htracks : ∀ v, (system.producers v).Tracks capacity system.ring.producerBarrier := by
    rw [hbarrier, hproducers]
    refine tracks_update (fun v ↦ (h.producers v).of_stable hstable) fun _ ↦ rfl
  rw [targetOf] at htarget
  rw [count] at ht
  by_cases hfits : getBufferIndex seen + size < capacity
  · rw [if_pos hfits] at htarget ht
    subst ht
    have hunlocked : isLocked target = false := isLocked_of_lt (by omega)
    have hcounted : Counted { s with system := system, next := getBufferIndex seen + size } ↔
        target < 2 ^ 32 := by
      simp only [Counted, hbarrier, hwraps, hunlocked, Nat.zero_mul, forall_const,
        getWrapCounter_eq_zero_iff (show target < 2 ^ 63 by omega), ← htarget]
      refine ⟨fun h ↦ (h (by decide)).1, fun h _ ↦ ⟨h, getBufferIndex_of_lt h⟩⟩
    rw [hcounted]
    refine ⟨by omega, fun hlt ↦ ⟨Or.inl ⟨?_, hwraps, ?_⟩, htracks⟩⟩
    · rw [hbarrier]
      exact hlt
    · rw [hbarrier, htarget]
  · rw [if_neg hfits] at htarget ht
    by_cases hend : getBufferIndex seen + size = capacity
    · rw [if_pos hend] at htarget ht
      subst ht htarget
      have hcounted : ¬ Counted { s with
          system := system, wrapArounds := s.wrapArounds + 1, next := 0 } := by
        intro hcounted
        have hone : s.wrapArounds + 1 < 2 ^ 31 := by
          rw [hwraps]
          decide
        have hcounter := (hcounted hone (by rw [hbarrier]; decide)).1
        rw [hbarrier] at hcounter
        exact absurd hcounter (Nat.ne_of_lt (Nat.mul_pos (Nat.succ_pos _) (Nat.two_pow_pos 32)))
      exact ⟨iff_of_false hcounted (by omega), fun h ↦ absurd h hcounted⟩
    · rw [if_neg hend] at htarget ht
      subst ht
      have hinv : Inv capacity { s with
          system := system, wrapArounds := s.wrapArounds + 1, next := size } :=
        ⟨Or.inr ⟨size, by omega, hbarrier.trans htarget, by rw [hwraps], rfl⟩, htracks⟩
      exact ⟨iff_of_true hinv.counted (by omega), fun _ ↦ hinv⟩

/-- The store of the barrier after a reservation has been cut off. -/
theorem Inv.not_counted_unlock (h : s.Inv capacity) {target : Nat}
    (hpc : s.system.producers w = .unlockBarrier target)
    (hbarrier : system.ring.producerBarrier = unlockWrapBit target) :
    ¬ Counted { s with system := system } := by
  have hw := h.producers w
  rw [hpc] at hw
  obtain ⟨hlocked, heq⟩ := hw
  rcases h.barrier with ⟨hlt, -⟩ | ⟨size, hsize, hlock, hwraps, hnext⟩
  · rw [← heq, isLocked_of_lt (by omega)] at hlocked
    contradiction
  · intro hcounted
    rw [← heq, hlock, unlockWrapBit_lockWrapBit hsize] at hbarrier
    obtain ⟨hcounter, hindex⟩ := hcounted (by rw [hwraps]; decide)
      (by rw [hbarrier]; exact isLocked_of_lt hsize)
    rw [hbarrier, hwraps] at hcounter
    rw [hbarrier, hnext, getBufferIndex_eq_mod] at hindex
    have hlt : size < 2 ^ 32 := by omega
    rw [(getWrapCounter_eq_zero_iff hsize).mpr hlt] at hcounter
    exact absurd hcounter (by decide)

theorem Inv.producerStep (h : s.Inv capacity) (hcap : capacity < 2 ^ 63)
    (hstep : s.step capacity (.producer w) = some t) :
    (t.Counted ↔ s.Stays capacity (.producer w)) ∧ (t.Counted → t.Inv capacity) := by
  have hw := h.producers w
  rw [step, System.step, Option.map_eq_some_iff] at hstep
  obtain ⟨system, hstep, rfl⟩ := hstep
  unfold System.producerStep at hstep
  cases hpc : s.system.producers w with
  | unregistered | idle | holding =>
    rw [hpc] at hstep
    contradiction
  | registering =>
    rw [hpc] at hstep
    rw [← Option.some.inj hstep]
    simp only [reservation, Stays, hpc]
    refine Inv.kept ?_ trivial
    exact h.goto rfl rfl trivial
  | loadNext size =>
    rw [hpc] at hw hstep
    simp only at hstep
    simp only [reservation, Stays, hpc]
    split at hstep
    case isTrue hlocked =>
      rw [← Option.some.inj hstep]
      exact h.kept trivial
    case isFalse hstable =>
      rw [← Option.some.inj hstep]
      refine Inv.kept ?_ trivial
      exact h.goto rfl rfl ⟨hw, by simpa using hstable⟩
  | storeSeen size seen lap =>
    rw [hpc] at hw hstep
    rw [← Option.some.inj hstep]
    simp only [reservation, Stays, hpc]
    refine Inv.kept ?_ trivial
    exact h.goto rfl rfl hw
  | loadWritten size seen lap =>
    rw [hpc] at hw hstep
    simp only at hstep
    simp only [reservation, Stays, hpc]
    cases htarget : acquireTarget capacity seen size s.system.ring.current with
    | none =>
      rw [htarget] at hstep
      rw [← Option.some.inj hstep]
      refine Inv.kept ?_ trivial
      exact h.goto rfl rfl trivial
    | some target =>
      rw [htarget] at hstep
      rw [← Option.some.inj hstep]
      refine Inv.kept ?_ trivial
      exact h.goto rfl rfl ⟨hw.1, hw.2, acquireTarget_eq hcap hw.1 htarget⟩
  | giveUp =>
    rw [hpc] at hstep
    rw [← Option.some.inj hstep]
    simp only [reservation, Stays, hpc]
    refine Inv.kept ?_ trivial
    exact h.goto rfl rfl trivial
  | exchange size seen target lap =>
    rw [hpc] at hw hstep
    simp only at hstep
    simp only [reservation, hpc, Stays]
    split at hstep
    case isTrue hseen =>
      rw [← Option.some.inj hstep, if_pos hseen]
      exact h.exchange hcap hpc hseen rfl rfl rfl
    case isFalse hseen =>
      rw [← Option.some.inj hstep, if_neg hseen]
      refine Inv.kept ?_ fun heq ↦ absurd heq hseen
      exact h.goto rfl rfl hw.1
  | loadSeen seen target =>
    rw [hpc] at hw hstep
    rw [← Option.some.inj hstep]
    simp only [reservation, Stays, hpc]
    refine Inv.kept ?_ trivial
    exact h.goto rfl rfl hw
  | storeUnlocked seen target own =>
    rw [hpc] at hw hstep
    rw [← Option.some.inj hstep]
    simp only [reservation, Stays, hpc]
    refine Inv.kept (h.goto (by rfl) (by rfl) ?_) trivial
    split
    case isTrue hlocked => exact ⟨hlocked, hw hlocked⟩
    case isFalse => trivial
  | setEnd seen target =>
    rw [hpc] at hw hstep
    rw [← Option.some.inj hstep]
    simp only [reservation, Stays, hpc]
    refine Inv.kept ?_ trivial
    exact h.goto rfl rfl hw
  | unlockBarrier target =>
    rw [hpc] at hstep
    rw [← Option.some.inj hstep]
    simp only [reservation, Stays, hpc]
    have hnot : ¬ Counted { s with
        system := (s.system.store { s.system.ring with
          producerBarrier := unlockWrapBit target }).goto w .holding } :=
      h.not_counted_unlock hpc rfl
    exact ⟨iff_of_false hnot not_false, fun h ↦ absurd h hnot⟩

/-- The consumer only reads the barrier. -/
theorem consumerStep_barrier {u v : System n} (hstep : u.consumerStep capacity = some v) :
    v.ring.producerBarrier = u.ring.producerBarrier ∧ v.producers = u.producers := by
  unfold System.consumerStep at hstep
  split at hstep
  all_goals repeat' split at hstep
  all_goals cases hstep
  all_goals exact ⟨rfl, rfl⟩

theorem Inv.step (h : s.Inv capacity) (hcap : capacity < 2 ^ 63) {action : Action n}
    (hstep : s.step capacity action = some t) :
    (t.Counted ↔ s.Stays capacity action) ∧ (t.Counted → t.Inv capacity) := by
  have hstep' := hstep
  rw [Counting.step, Option.map_eq_some_iff] at hstep
  obtain ⟨system, hstep, rfl⟩ := hstep
  cases action with
  | producer w => exact h.producerStep hcap hstep'
  | registerWorker w =>
    rw [System.step, Option.ite_none_right_eq_some] at hstep
    rw [← Option.some.inj hstep.2]
    refine Inv.kept ?_ trivial
    exact h.goto rfl rfl trivial
  | acquire w size =>
    rw [System.step, Option.ite_none_right_eq_some] at hstep
    refine Inv.kept ?_ trivial
    replace hstep := hstep.2
    split at hstep
    case isTrue => exact h.same (Option.some.inj hstep ▸ rfl) (Option.some.inj hstep ▸ rfl)
    case isFalse hle =>
      rw [← Option.some.inj hstep]
      exact h.goto rfl rfl (Nat.not_lt.mp hle)
  | produce w =>
    rw [System.step, Option.ite_none_right_eq_some] at hstep
    rw [← Option.some.inj hstep.2]
    refine Inv.kept ?_ trivial
    exact h.goto rfl rfl trivial
  | spurious w =>
    have hw := h.producers w
    rw [System.step] at hstep
    cases hpc : s.system.producers w with
    | exchange size seen target lap =>
      rw [hpc] at hw hstep
      rw [← Option.some.inj hstep]
      refine Inv.kept ?_ trivial
      exact h.goto rfl rfl hw.1
    | _ =>
      rw [hpc] at hstep
      contradiction
  | consume =>
    rw [System.step, Option.ite_none_right_eq_some] at hstep
    rw [← Option.some.inj hstep.2]
    refine Inv.kept ?_ trivial
    exact h.same rfl rfl
  | release k =>
    rw [System.step, Option.ite_none_right_eq_some] at hstep
    rw [← Option.some.inj hstep.2]
    refine Inv.kept ?_ trivial
    exact h.same rfl rfl
  | consumer =>
    obtain ⟨hbarrier, hproducers⟩ := consumerStep_barrier hstep
    refine Inv.kept ?_ trivial
    exact h.same hbarrier hproducers

/-! ## Runs -/

theorem run_system {actions : List (Action n)} : run (System.step capacity) s.system actions =
    (run (step capacity) s actions).map Counting.system := by
  induction actions generalizing s with
  | nil => rfl
  | cons action actions ih =>
    rw [run_cons, run_cons, step]
    cases hstep : s.system.step capacity action with
    | none => rfl
    | some system =>
      simp only [Option.map_some, Option.bind_some, ← ih]
      split <;> rfl

/-- The counters are what keeps the stable barriers of two laps apart. -/
theorem Counted.ne (hs : s.Counted) (ht : t.Counted) (hslt : s.wrapArounds < 2 ^ 31)
    (htlt : t.wrapArounds < 2 ^ 31) (hsfree : isLocked s.system.ring.producerBarrier = false)
    (htfree : isLocked t.system.ring.producerBarrier = false)
    (hne : s.wrapArounds ≠ t.wrapArounds) :
    s.system.ring.producerBarrier ≠ t.system.ring.producerBarrier := by
  intro heq
  have hcounter := (hs hslt hsfree).1
  rw [heq, (ht htlt htfree).1] at hcounter
  omega

/-- The fields of the barrier are right in every state of a run, if and only if no wrap-around comes
to an end in it. -/
theorem always_counted_iff_stays (hcap : capacity < 2 ^ 63) {actions : List (Action n)}
    (hrun : run (step capacity) (initial n) actions = some s) :
    Always (step capacity) Counted (initial n) actions ↔
      Meets (step capacity) (Stays capacity) (initial n) actions :=
  always_iff_meets_of_run (Inv capacity) Counted (fun _ _ _ hinv _ hstep ↦ hinv.step hcap hstep)
    inv_initial (inv_initial : (initial n).Inv capacity).counted hrun

/-- The first two bytes of four. -/
def firstHalf (w : Fin n) : List (Action n) :=
  [.registerWorker w, .producer w, .acquire w 2, .producer w, .producer w, .producer w, .producer w,
    .producer w, .producer w, .produce w]

theorem always_counted_iff_stays_firstHalf :
    Always (step 4) Counted (initial 1) (firstHalf 0) := by
  have hrun : (run (step 4) (initial 1) (firstHalf 0)).isSome = true := by decide +kernel
  obtain ⟨s, hs⟩ := Option.isSome_iff_exists.mp hrun
  exact (always_counted_iff_stays (by decide) hs).mpr (by decide +kernel)

/-- The whole buffer, in two reservations. -/
def oneLap (w : Fin n) : List (Action n) :=
  firstHalf w ++ [.consume, .consumer, .consumer, .consumer, .consumer, .consumer,
    .release 1, .consumer, .consumer,
    .acquire w 2, .producer w, .producer w, .producer w, .producer w, .producer w, .producer w]

/-- The barrier is stable, and 0 as it was at first. -/
theorem not_counted_oneLap : ∃ s : Counting 1, run (step 4) (initial 1) (oneLap 0) = some s ∧
    s.wrapArounds = 1 ∧
    s.system.ring.producerBarrier = (initial 1).system.ring.producerBarrier ∧ ¬ s.Counted := by
  refine ⟨_, rfl, rfl, rfl, fun h ↦ ?_⟩
  exact absurd (h (by decide) (by decide)).1 (by decide)

end Counting

end Ustevent.MpscRingBuffer
