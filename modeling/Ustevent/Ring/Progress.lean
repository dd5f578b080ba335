import Ustevent.Ring.Refinement

/-!
# What an empty ring buffer accepts

Once everything that was produced has been consumed and released, the offsets stand at one index,
which only a successful `acquire` moves.  A thread that pushes retries its `acquire` until then.
-/

namespace Ustevent.MpscRingBuffer

open Reasoning Reservation

/-- There is room for `size` bytes in an empty buffer whose offsets stand at index `x`: up to some
place in front of the end, exactly to the end, or from 0 to some place in front of `x`. -/
def Room (capacity x size : Nat) : Prop :=
  x + size < capacity ∨ (x + size = capacity ∧ 0 < x) ∨ (capacity < x + size ∧ size < x)

/-- The room in front of an offset and the room behind it add up to the buffer, so that one of the two
is at least half of it. -/
theorem forall_room_iff {capacity size : Nat} (hcap : 1 ≤ capacity) (hsize : 1 ≤ size) :
    (∀ x, x < capacity → Room capacity x size) ↔ 2 * size ≤ capacity := by
  unfold Room
  constructor
  · intro h
    -- at 0 the whole size has to fit, and one byte behind the last place where it does, at 0 again
    have hzero := h 0 (by omega)
    by_cases hone : size = 1
    · omega
    · have hlast := h (capacity - size + 1) (by omega)
      omega
  · intro h x hx
    omega

variable {n capacity size : Nat} {rb rb' : MpscRingBuffer n} {c : Circular (Reservation n)}
  {w : Fin n}

/-- Both offsets of an empty buffer stand at one index, and the buffer is not cut. -/
theorem RingInv.empty (h : RingInv capacity rb c) (hempty : c.items = []) :
    c.cut = none ∧ rb.consumerBarrier = rb.producerBarrier := by
  have hfits := h.fits
  have hread := hfits.read_lt
  obtain ⟨hfront, hback⟩ := List.append_eq_nil_iff.mp hempty
  unfold Circular.Fits at hfits
  split at hfits
  · rename_i hcut
    rw [hfront] at hfits
    exact ⟨hcut, hfits.1⟩
  · -- what cuts the buffer off stays at 0 until the consumer has turned
    rename_i stop hcut
    rw [hfront, hback] at hfits
    have heq : rb.consumerBarrier = stop := hfits.1
    have hzero : 0 = rb.producerBarrier := hfits.2.1
    have hpos := h.wrapped stop hcut (by omega)
    omega

theorem acquireTarget_self {x : Nat} (hcap : capacity < 2 ^ 32) (hx : x < capacity)
    (hsize : size ≤ capacity) :
    acquireTarget capacity x size x = none ↔ ¬ Room capacity x size := by
  have hindex : getBufferIndex x = x := getBufferIndex_of_lt (by omega)
  have hsum : (x + size) % 2 ^ 64 = x + size := Nat.mod_eq_of_lt (by omega)
  unfold acquireTarget Room
  simp only [hindex, hsum, setWrapCounter, Nat.lt_irrefl, false_and, if_false]
  by_cases hover : x + size ≥ capacity
  · rw [if_pos hover]
    by_cases hcut : x + size > capacity
    · rw [if_pos hcut, getBufferIndex_lockWrapBit (by omega)]
      by_cases hle : size ≥ x
      · rw [if_pos hle]
        simp only [true_iff]
        omega
      · rw [if_neg hle]
        simp only [reduceCtorEq, false_iff, not_not]
        omega
    · rw [if_neg hcut, getBufferIndex_of_lt (by decide)]
      by_cases hle : 0 ≥ x
      · rw [if_pos hle]
        simp only [true_iff]
        omega
      · rw [if_neg hle]
        simp only [reduceCtorEq, false_iff, not_not]
        omega
  · rw [if_neg hover]
    simp only [reduceCtorEq, false_iff, not_not]
    omega

/-- acquire returns true. -/
def Accepts (capacity : Nat) (rb : MpscRingBuffer n) (w : Fin n) (size : Nat) : Prop :=
  ∃ a rb', acquire capacity rb w size = .ok (some a, rb')

theorem of_check_bind {p : Prop} [Decidable p] {β : Type} {f : Unit → Except Stop β} {b : β}
    (h : (check p >>= f) = .ok b) : f () = .ok b := by
  unfold check at h
  split at h
  · exact h
  · cases h

theorem release_producerBarrier {bytes : Nat} (h : release capacity rb bytes = .ok rb') :
    rb'.producerBarrier = rb.producerBarrier := by
  unfold release at h
  cases of_check_bind (of_check_bind (of_check_bind h))
  rfl

/-- An acquire gives up where the body of its loop does. -/
theorem RingInv.acquire_eq_none_iff (h : RingInv capacity rb c) (hcap : capacity < 2 ^ 32)
    (hseen : (rb.workers w).seen = maxOffset) (hsize : size ≤ capacity) :
    (∃ rb', MpscRingBuffer.acquire capacity rb w size = .ok (none, rb')) ↔
      acquireTarget capacity rb.producerBarrier size rb.consumerBarrier = none := by
  have hwrite := h.fits.write_lt
  have hindex : getBufferIndex rb.producerBarrier = rb.producerBarrier :=
    getBufferIndex_of_lt (by omega)
  unfold MpscRingBuffer.acquire
  rw [if_neg (by omega), check_of hseen, ok_bind, h.getStableNext hcap, ok_bind, hindex]
  dsimp only
  rw [check_of hwrite, ok_bind]
  rw [show (rb.storeSeen w (lockWrapBit rb.producerBarrier)).current = rb.consumerBarrier from rfl]
  cases acquireTarget capacity rb.producerBarrier size rb.consumerBarrier with
  | none => exact iff_of_true ⟨_, rfl⟩ rfl
  | some target =>
    refine iff_of_false ?_ (by simp)
    rintro ⟨rb', heq⟩
    dsimp only at heq
    split at heq
    · cases of_check_bind (of_check_bind (of_check_bind heq))
    · cases of_check_bind heq

theorem RingInv.accepts_iff (h : RingInv capacity rb c) (hcap : capacity < 2 ^ 32)
    (hempty : c.items = []) (hreg : rb.registered w = true) (hsize : 1 ≤ size) :
    Accepts capacity rb w size ↔ Room capacity rb.producerBarrier size := by
  have hidle : ∀ r ∈ c.items, r.owner = w → r.produced = true := by
    rw [hempty]
    exact fun r hr ↦ absurd hr List.not_mem_nil
  have hwrite := h.fits.write_lt
  by_cases hbig : capacity < size
  · -- the size check
    apply iff_of_false
    · rintro ⟨a, rb', heq⟩
      rw [MpscRingBuffer.acquire, if_pos hbig] at heq
      cases heq
    · unfold Room
      omega
  have hnone := h.acquire_eq_none_iff hcap (h.idle w hreg hidle) (Nat.not_lt.mp hbig)
  rw [(h.empty hempty).2, acquireTarget_self hcap hwrite (Nat.not_lt.mp hbig)] at hnone
  rcases h.acquire hcap hreg hidle hsize with hfull | ⟨a, rb', -, heq, -⟩
  · refine iff_of_false ?_ (hnone.mp ⟨rb, hfull⟩)
    rintro ⟨a, rb', heq⟩
    rw [hfull] at heq
    cases heq
  · refine iff_of_true ⟨a, rb', heq⟩ ?_
    by_contra hroom
    obtain ⟨rb'', heq'⟩ := hnone.mpr hroom
    rw [heq] at heq'
    cases heq'

/-! ## The states of an empty buffer -/

/-- The words that decide about an acquire are the same. -/
structure SameOffsets (rb rb' : MpscRingBuffer n) : Prop where
  producerBarrier : rb'.producerBarrier = rb.producerBarrier
  end_ : rb'.end_ = rb.end_
  consumerBarrier : rb'.consumerBarrier = rb.consumerBarrier

namespace Session

variable {s t : Session n} {call : Call n} {calls : List (Call n)}

/-- No reservation is outstanding, and everything produced has been consumed and released. -/
def QuiescentEmpty (s : Session n) : Prop := s.fifo.pending = []

theorem inv_of_run (h : 1 ≤ capacity) (hcap : capacity < 2 ^ 32)
    (hrun : run (step capacity) (initial n) calls = some s) : s.Inv capacity :=
  invariant_of_run (Session.Inv capacity) (Session.Inv.step hcap) (inv_initial h) hrun

theorem step_of_apply {result : Result} {ring : MpscRingBuffer n} (hpermit : s.fifo.Permits call)
    (happly : MpscRingBuffer.apply capacity s.ring s.fifo call = .ok (result, ring)) :
    s.step capacity call =
      some ⟨ring, s.fifo.observe call result, s.history ++ [(call, result)]⟩ := by
  rw [step, if_pos hpermit, happly]

/-- What is permitted in an empty buffer leaves the offsets alone, but for an acquire that
succeeds. -/
theorem Inv.quiet (h : s.Inv capacity) (hcap : capacity < 2 ^ 32) (hempty : s.QuiescentEmpty)
    (hstep : s.step capacity call = some t)
    (hnone : Fifo.acquisitions t.history = Fifo.acquisitions s.history) :
    t.QuiescentEmpty ∧ SameOffsets s.ring t.ring := by
  obtain ⟨c, hc⟩ := h.refines
  have hitems : c.items = [] := hc.items.trans hempty
  obtain ⟨hcut, hindex⟩ := hc.ring.empty hitems
  by_cases hpermit : s.fifo.Permits call
  case neg =>
    rw [Session.step, if_neg hpermit] at hstep
    cases hstep
  cases call with
  | registerWorker w | unregisterWorker w =>
    rw [step_of_apply hpermit rfl] at hstep
    cases hstep
    exact ⟨hempty, rfl, rfl, rfl⟩
  | acquire w size =>
    have hreg : s.ring.registered w = true := (hc.registered w).trans hpermit.1
    rcases hc.ring.acquire hcap hreg (hc.idle hpermit.2.1) hpermit.2.2 with
      hfull | ⟨a, rb', -, heq, -⟩
    · have happly : MpscRingBuffer.apply capacity s.ring s.fifo (.acquire w size) =
          .ok (.acquired none, s.ring) := by rw [MpscRingBuffer.apply, hfull]; rfl
      rw [step_of_apply hpermit happly] at hstep
      cases hstep
      exact ⟨hempty, rfl, rfl, rfl⟩
    · have happly : MpscRingBuffer.apply capacity s.ring s.fifo (.acquire w size) =
          .ok (.acquired (some a), rb') := by rw [MpscRingBuffer.apply, heq]; rfl
      rw [step_of_apply hpermit happly] at hstep
      cases hstep
      simp [Fifo.acquisitions, Fifo.acquisition] at hnone
  | produce w =>
    obtain ⟨r, hr, -⟩ := hpermit
    rw [hempty] at hr
    cases hr
  | consume =>
    obtain ⟨address, hpass, -⟩ := hc.ring.consumePass_front hcap (Or.inr hcut)
    have happly : MpscRingBuffer.apply capacity s.ring s.fifo .consume =
        .ok (.consumed address (total size (readyRun c.items)), s.ring) := by
      rw [MpscRingBuffer.apply, MpscRingBuffer.consume, current, consumeLoop, hpass]
      rfl
    rw [step_of_apply hpermit happly] at hstep
    cases hstep
    exact ⟨hempty, rfl, rfl, rfl⟩
  | release k =>
    -- a release of no bytes
    have hread := hc.ring.fits.read_lt
    have hend := hc.ring.stop_le_end hcap
    have hmod : (s.ring.consumerBarrier + 0) % 2 ^ 64 = s.ring.consumerBarrier :=
      Nat.mod_eq_of_lt (by omega)
    have happly : MpscRingBuffer.apply capacity s.ring s.fifo (.release k) =
        .ok (.done, s.ring) := by
      rw [MpscRingBuffer.apply, hempty, List.take_nil, total_nil, MpscRingBuffer.release]
      unfold current
      rw [check_of (by omega), ok_bind, check_of hend, ok_bind, check_of (by omega), ok_bind,
        if_neg (by omega), hmod]
      rfl
    rw [step_of_apply hpermit happly] at hstep
    cases hstep
    refine ⟨?_, rfl, rfl, rfl⟩
    show s.fifo.pending.drop k = []
    rw [hempty, List.drop_nil]

theorem history_initial (hrun : run (step capacity) s calls = some t) : s.history <+: t.history := by
  refine invariant_of_run (fun t ↦ s.history <+: t.history) ?_ List.prefix_rfl hrun
  intro u call v hu hstep
  rw [step] at hstep
  split at hstep
  · split at hstep <;> cases hstep
    exact hu.trans (List.prefix_append _ _)
  · cases hstep

/-- Nothing changes until another acquire succeeds. -/
theorem Inv.quiet_run (h : s.Inv capacity) (hcap : capacity < 2 ^ 32) (hempty : s.QuiescentEmpty)
    (hrun : run (Session.step capacity) s calls = some t)
    (hnone : Fifo.acquisitions t.history = Fifo.acquisitions s.history) :
    t.QuiescentEmpty ∧ SameOffsets s.ring t.ring := by
  induction calls generalizing s with
  | nil =>
    rw [run_nil, Option.some.injEq] at hrun
    subst hrun
    exact ⟨hempty, rfl, rfl, rfl⟩
  | cons call calls ih =>
    rw [run_cons, Option.bind_eq_some_iff] at hrun
    obtain ⟨u, hu, hrest⟩ := hrun
    -- an acquisition on the way would still be in the history
    have hinitial : Fifo.acquisitions s.history <+: Fifo.acquisitions u.history :=
      (history_initial (show run (Session.step capacity) s [call] = some u by simpa using hu)).filterMap _
    have hinitial' : Fifo.acquisitions u.history <+: Fifo.acquisitions t.history :=
      (history_initial hrest).filterMap _
    have hsame : Fifo.acquisitions u.history = Fifo.acquisitions s.history := by
      have hle := hinitial.length_le
      have hle' := hinitial'.length_le
      rw [hnone] at hle'
      exact (hinitial.eq_of_length (by omega)).symm
    obtain ⟨hempty', hfirst⟩ := h.quiet hcap hempty hu hsame
    obtain ⟨hempty'', hrest⟩ := ih (h.step hcap s call u hu) hempty' hrest (hnone.trans hsame.symm)
    exact ⟨hempty'', hrest.producerBarrier.trans hfirst.producerBarrier,
      hrest.end_.trans hfirst.end_, hrest.consumerBarrier.trans hfirst.consumerBarrier⟩

theorem Inv.accepts_iff {w : Fin n} (h : s.Inv capacity) (hcap : capacity < 2 ^ 32)
    (hempty : s.QuiescentEmpty) (hreg : s.fifo.registered w = true) (hsize : 1 ≤ size) :
    Accepts capacity s.ring w size ↔ Room capacity s.ring.producerBarrier size := by
  obtain ⟨c, hc⟩ := h.refines
  exact hc.ring.accepts_iff hcap (hc.items.trans hempty) ((hc.registered w).trans hreg) hsize

/-! ## Every index is reached -/

theorem acquire_first (hcap : capacity < 2 ^ 32) {x : Nat} (hx : x < capacity) (w : Fin n) :
    ∃ rb', acquire capacity ((create n).registerWorker w) w x = .ok (some 0, rb') ∧
      rb'.producerBarrier = x ∧ rb'.consumerBarrier = 0 := by
  have hseen : (((create n).registerWorker w).workers w).seen = maxOffset := by
    simp [registerWorker, setWorker]
  have hinv : RingInv capacity ((create n).registerWorker w) Circular.empty :=
    (ringInv_create (Nat.zero_lt_of_lt hx)).setWorker_idle (fun r hr ↦ absurd hr List.not_mem_nil)
      fun _ ↦ rfl
  have hindex : getBufferIndex ((create n).registerWorker w).producerBarrier = 0 :=
    getBufferIndex_of_lt (show 0 < 2 ^ 32 by decide)
  have htarget : acquireTarget capacity ((create n).registerWorker w).producerBarrier x
      (((create n).registerWorker w).storeSeen w (lockWrapBit 0)).current = some x := by
    show acquireTarget capacity 0 x 0 = some x
    unfold acquireTarget
    simp only [getBufferIndex_of_lt (show 0 < 2 ^ 32 by decide), Nat.zero_add, setWrapCounter,
      Nat.mod_eq_of_lt (show x < 2 ^ 64 by omega)]
    rw [if_neg (by omega), if_neg (by omega)]
  unfold acquire
  rw [if_neg (by omega), check_of hseen, ok_bind, hinv.getStableNext hcap, ok_bind, hindex]
  dsimp only
  rw [check_of (Nat.zero_lt_of_lt hx), ok_bind, htarget]
  dsimp only
  rw [isLocked_of_lt (by omega), if_neg (by decide), getBufferIndex_of_lt (by omega),
    check_of (by omega), ok_bind]
  exact ⟨_, rfl, rfl, rfl⟩

/-- The first `x` bytes are reserved, and nothing else is. -/
structure Holding (s : Session n) (w : Fin n) (x : Nat) (produced : Bool) : Prop where
  producerBarrier : s.ring.producerBarrier = x
  consumerBarrier : s.ring.consumerBarrier = 0
  pending : s.fifo.pending = [⟨w, 0, x, produced⟩]
  registered : s.fifo.registered w = true

theorem exists_holding (hcap : capacity < 2 ^ 32) {x : Nat} (hx : x < capacity) (hpos : 0 < x)
    (w : Fin n) : ∃ s, run (step capacity) (initial n) [.registerWorker w, .acquire w x] = some s ∧
      s.Holding w x false := by
  obtain ⟨u, hu, hring, hpending, hreg⟩ : ∃ u,
      (initial n).step capacity (.registerWorker w) = some u ∧
      u.ring = (create n).registerWorker w ∧ u.fifo.pending = [] ∧ u.fifo.registered w = true :=
    ⟨_, step_of_apply rfl rfl, rfl, rfl, by simp [Fifo.observe]⟩
  obtain ⟨rb', hacquire, hproducer, hconsumer⟩ := acquire_first hcap hx w
  have hpermit : u.fifo.Permits (.acquire w x) := by
    refine ⟨hreg, ?_, hpos⟩
    rintro ⟨r, hr, -⟩
    rw [hpending] at hr
    cases hr
  have happly : MpscRingBuffer.apply capacity u.ring u.fifo (.acquire w x) =
      .ok (.acquired (some 0), rb') := by
    rw [MpscRingBuffer.apply, hring, hacquire]
    rfl
  have hrun : run (step capacity) (initial n) [.registerWorker w, .acquire w x] =
      u.step capacity (.acquire w x) := by simp [hu]
  refine ⟨_, hrun.trans (step_of_apply hpermit happly), hproducer, hconsumer, ?_, hreg⟩
  show u.fifo.pending ++ [⟨w, 0, x, false⟩] = _
  rw [hpending, List.nil_append]

theorem Holding.produce {w : Fin n} {x : Nat} (h : s.Holding w x false) (hinv : s.Inv capacity)
    (hcap : capacity < 2 ^ 32) : ∃ t, s.step capacity (.produce w) = some t ∧
      t.Holding w x true := by
  obtain ⟨c, hc⟩ := hinv.refines
  have hholds : s.fifo.Holds w := ⟨⟨w, 0, x, false⟩, by rw [h.pending]; simp, rfl, rfl⟩
  have hitems : ∃ r ∈ c.items, r.owner = w ∧ r.produced = false := by
    rw [hc.items]
    exact hholds
  have happly : MpscRingBuffer.apply capacity s.ring s.fifo (.produce w) =
      .ok (.done, s.ring.storeSeen w maxOffset) := by
    rw [MpscRingBuffer.apply, (hc.ring.produce hcap hitems).1]
    rfl
  refine ⟨_, step_of_apply hholds happly, h.producerBarrier, h.consumerBarrier, ?_, h.registered⟩
  show s.fifo.pending.map (markProduced w) = _
  simp [h.pending, markProduced]

/-- The offsets have not wrapped around, so that consume leaves them alone. -/
theorem Holding.consume {w : Fin n} {x : Nat} (h : s.Holding w x true) (hinv : s.Inv capacity)
    (hcap : capacity < 2 ^ 32) : ∃ t, s.step capacity .consume = some t ∧ t.Holding w x true ∧
      t.fifo.granted = 1 := by
  obtain ⟨c, hc⟩ := hinv.refines
  have hcut : c.cut = none := by
    rw [← Option.not_isSome_iff_eq_none, hc.ring.fits.cut_isSome_iff, h.consumerBarrier]
    exact Nat.not_lt_zero _
  obtain ⟨address, hpass, -⟩ := hc.ring.consumePass_front hcap (Or.inr hcut)
  have happly : MpscRingBuffer.apply capacity s.ring s.fifo .consume =
      .ok (.consumed address (total size (readyRun c.items)), s.ring) := by
    rw [MpscRingBuffer.apply, MpscRingBuffer.consume, current, consumeLoop, hpass]
    rfl
  refine ⟨_, step_of_apply trivial happly,
    ⟨h.producerBarrier, h.consumerBarrier, h.pending, h.registered⟩, ?_⟩
  show covered (total size (readyRun c.items)) s.fifo.pending = 1
  rw [hc.items, h.pending]
  simp [readyRun, readyFrom, covered]

theorem Holding.release {w : Fin n} {x : Nat} (h : s.Holding w x true) (hgranted : s.fifo.granted = 1)
    (hinv : s.Inv capacity) (hcap : capacity < 2 ^ 32) : ∃ t,
      s.step capacity (.release 1) = some t ∧ t.QuiescentEmpty ∧ t.fifo.registered w = true ∧
      t.ring.producerBarrier = x := by
  have hpermit : s.fifo.Permits (.release 1) := Nat.le_of_eq hgranted.symm
  obtain ⟨c, hc⟩ := hinv.refines
  have hgranted' := hc.granted
  have hproduced := hc.produced
  rw [hgranted] at hgranted' hproduced
  obtain ⟨rb', -, hrelease, -⟩ := hc.ring.release hcap hgranted' hproduced
  rw [hc.items] at hrelease
  have happly : MpscRingBuffer.apply capacity s.ring s.fifo (.release 1) = .ok (.done, rb') := by
    rw [MpscRingBuffer.apply, hrelease]
    rfl
  refine ⟨_, step_of_apply hpermit happly, ?_, h.registered, ?_⟩
  · show s.fifo.pending.drop 1 = []
    rw [h.pending]
    rfl
  · exact (release_producerBarrier hrelease).trans h.producerBarrier

theorem exists_quiescentEmpty (hcap : capacity < 2 ^ 32) {x : Nat} (hx : x < capacity)
    (w : Fin n) : ∃ calls s, run (step capacity) (initial n) calls = some s ∧ s.QuiescentEmpty ∧
      s.fifo.registered w = true ∧ s.ring.producerBarrier = x := by
  rcases Nat.eq_zero_or_pos x with hzero | hpos
  · refine ⟨[.registerWorker w], _, rfl, rfl, ?_, hzero.symm⟩
    simp [Fifo.observe]
  obtain ⟨s, hs, hholding⟩ := exists_holding hcap hx hpos w
  have hinv := inv_of_run (by omega) hcap hs
  obtain ⟨t, ht, hholding⟩ := hholding.produce hinv hcap
  have hinv := hinv.step hcap _ _ _ ht
  obtain ⟨u, hu, hholding, hgranted⟩ := hholding.consume hinv hcap
  have hinv := hinv.step hcap _ _ _ hu
  obtain ⟨v, hv, hempty⟩ := hholding.release hgranted hinv hcap
  refine ⟨[.registerWorker w, .acquire w x] ++ [.produce w, .consume, .release 1], v, ?_, hempty⟩
  rw [run_append, hs]
  simp [ht, hu, hv]

/-! ## The bound on the size -/

/-- An empty buffer accepts a size wherever its offsets stand, if and only if two of that size fit
into it; and what it has refused once it goes on refusing until an acquire succeeds. -/
theorem accepts_iff_two_mul_le (hpos : 1 ≤ capacity) (hcap : capacity < 2 ^ 32) (w : Fin n)
    (hsize : 1 ≤ size) :
    ((∀ calls s, run (step capacity) (initial n) calls = some s → s.QuiescentEmpty →
        s.fifo.registered w = true → Accepts capacity s.ring w size) ↔ 2 * size ≤ capacity) ∧
      ∀ calls s later t, run (step capacity) (initial n) calls = some s → s.QuiescentEmpty →
        run (step capacity) s later = some t →
        Fifo.acquisitions t.history = Fifo.acquisitions s.history →
        t.QuiescentEmpty ∧ SameOffsets s.ring t.ring ∧
          (s.fifo.registered w = true → t.fifo.registered w = true →
            (Accepts capacity t.ring w size ↔ Accepts capacity s.ring w size)) := by
  constructor
  · rw [← forall_room_iff hpos hsize]
    constructor
    · intro haccepts x hx
      obtain ⟨calls, s, hrun, hempty, hreg, rfl⟩ := exists_quiescentEmpty hcap hx w
      exact ((inv_of_run hpos hcap hrun).accepts_iff hcap hempty hreg hsize).mp
        (haccepts calls s hrun hempty hreg)
    · intro hroom calls s hrun hempty hreg
      have hinv := inv_of_run hpos hcap hrun
      obtain ⟨c, hc⟩ := hinv.refines
      exact (hinv.accepts_iff hcap hempty hreg hsize).mpr (hroom _ hc.ring.fits.write_lt)
  · intro calls s later t hrun hempty hlater hnone
    have hinv := inv_of_run hpos hcap hrun
    have hinv' := invariant_of_run (Session.Inv capacity) (Session.Inv.step hcap) hinv hlater
    obtain ⟨hempty', hsame⟩ := hinv.quiet_run hcap hempty hlater hnone
    refine ⟨hempty', hsame, fun hreg hreg' ↦ ?_⟩
    rw [hinv'.accepts_iff hcap hempty' hreg' hsize, hinv.accepts_iff hcap hempty hreg hsize,
      hsame.producerBarrier]

theorem accepts_iff_two_mul_le_eight :
    (∀ calls (s : Session 1), run (step 8) (initial 1) calls = some s → s.QuiescentEmpty →
      s.fifo.registered 0 = true → Accepts 8 s.ring 0 4) ↔ 2 * 4 ≤ 8 :=
  (accepts_iff_two_mul_le (by decide) (by decide) 0 (by decide)).1

end Session

end Ustevent.MpscRingBuffer
