import Ustevent.Ring.Refinement
import Ustevent.Ring.Transitions

/-!
# The ring buffer under interleaving

Every run in which no compare-exchange succeeds on a stale barrier keeps the invariant, and with it
the reservations apart; a run with a stale one does not.
-/

namespace Ustevent.MpscRingBuffer

open Reasoning Reservation View

variable {n : Nat} {capacity : Nat}

namespace System

def view (s : System n) (c : Circular (Reservation n)) (wrapper : Option (Fin n)) : View n :=
  ⟨s.ring, c, s.granted, s.wraps, wrapper⟩

structure Inv (capacity : Nat) (s : System n) (c : Circular (Reservation n))
    (wrapper : Option (Fin n)) : Prop where
  items : c.items = s.pending
  core : (s.view c wrapper).Core capacity
  producers : ∀ w, ProducerOk capacity (s.view c wrapper) w (s.producers w)
  consumer : ConsumerOk capacity (s.view c wrapper) s.consumer

variable {s t : System n} {c c' : Circular (Reservation n)} {wrapper wrapper' : Option (Fin n)}
  {w : Fin n} {pc : Producer}

theorem inv_initial (h : 1 ≤ capacity) : (initial n).Inv capacity Circular.empty none where
  items := rfl
  core :=
  { fits := by
      show Circular.Fits _ _ _ 0 (getBufferIndex 0) _
      rw [getBufferIndex_of_lt (by decide)]
      exact Circular.fits_empty h
    barrier := by
      show 0 = getBufferIndex 0 ∨ 0 = lockWrapBit (getBufferIndex 0)
      exact Or.inl (getBufferIndex_of_lt (by decide)).symm
    wrapped := nofun
    pos := fun _ hr ↦ absurd hr List.not_mem_nil
    granted := Nat.le_refl 0
    produced := fun _ hr ↦ absurd hr List.not_mem_nil }
  producers _ := ⟨rfl, fun _ hr ↦ absurd hr List.not_mem_nil⟩
  consumer _ := rfl

/-! ## Steps of the workers -/

theorem Inv.worker (h : s.Inv capacity c wrapper)
    (hproducers : t.producers = Function.update s.producers w pc)
    (hconsumer : t.consumer = s.consumer) (hitems : c'.items = t.pending)
    (hcore : (t.view c' wrapper').Core capacity)
    (hself : ProducerOk capacity (t.view c' wrapper') w pc)
    (hothers : ∀ v, v ≠ w → Rely capacity (s.view c wrapper) (t.view c' wrapper') v)
    (hadv : Advances capacity (s.view c wrapper) (t.view c' wrapper')) :
    t.Inv capacity c' wrapper' where
  items := hitems
  core := hcore
  producers v := by
    rw [hproducers]
    by_cases heq : v = w
    · subst heq
      rw [Function.update_self]
      exact hself
    · rw [Function.update_of_ne heq]
      exact (h.producers v).rely (hothers v heq)
  consumer := by
    rw [hconsumer]
    exact h.consumer.advances h.core hadv

theorem Inv.goto (h : s.Inv capacity c wrapper)
    (hself : ProducerOk capacity (s.view c wrapper) w pc) :
    (s.goto w pc).Inv capacity c wrapper := by
  have hquiet : Quiet (s.view c wrapper) w s.ring := ⟨rfl, rfl, rfl, fun _ _ ↦ rfl, id⟩
  exact h.worker rfl rfl h.items h.core hself (fun _ hne ↦ hquiet.rely hne) hquiet.advances

theorem Inv.store {ring : MpscRingBuffer n} (h : s.Inv capacity c wrapper)
    (hquiet : Quiet (s.view c wrapper) w ring)
    (hself : ProducerOk capacity ((s.store ring).view c wrapper) w pc) :
    ((s.store ring).goto w pc).Inv capacity c wrapper :=
  h.worker rfl rfl h.items (hquiet.core h.core) hself (fun _ hne ↦ hquiet.rely hne)
    hquiet.advances

theorem word_storeSeen (rb : MpscRingBuffer n) (w : Fin n) (v : Nat) :
    ((rb.storeSeen w v).workers w).seen = v := by
  rw [storeSeen_workers, Function.update_self]

theorem registered_storeSeen (rb : MpscRingBuffer n) (w : Fin n) (v : Nat) :
    (rb.storeSeen w v).registered w = rb.registered w :=
  storeSeen_registered_of_eq rfl w

theorem Inv.registerWorker (h : s.Inv capacity c wrapper) (hpc : s.producers w = .unregistered) :
    ((s.store (s.ring.storeSeen w maxOffset)).goto w .registering).Inv capacity c wrapper := by
  have hw := h.producers w
  rw [hpc] at hw
  exact h.store (quiet_storeSeen _ w maxOffset)
    ⟨(registered_storeSeen s.ring w maxOffset).trans hw.registered, hw.knows,
      word_storeSeen s.ring w maxOffset⟩

theorem Inv.acquire (h : s.Inv capacity c wrapper) (hpc : s.producers w = .idle) {size : Nat}
    (hpos : 1 ≤ size) (hle : size ≤ capacity) :
    (s.goto w (.loadNext size)).Inv capacity c wrapper := by
  have hw := h.producers w
  rw [hpc] at hw
  exact h.goto ⟨hw.registered, hw.knows.1, Or.inl hw.knows.2, hpos, hle⟩

theorem Inv.produce (h : s.Inv capacity c wrapper) (hpc : s.producers w = .holding) :
    Inv capacity { (s.store (s.ring.storeSeen w maxOffset)).goto w .idle with
      pending := s.pending.map (markProduced w) } (c.map (markProduced w)) wrapper := by
  have hw := h.producers w
  rw [hpc] at hw
  refine h.worker rfl rfl ?_ (core_produce h.core w) ?_ (fun _ hne ↦ rely_produce hne)
    advances_produce
  · show (c.map (markProduced w)).items = s.pending.map (markProduced w)
    rw [items_map, h.items]
  · refine ⟨(registered_storeSeen s.ring w maxOffset).trans hw.registered,
      ?_, word_storeSeen s.ring w maxOffset⟩
    intro r hr howner
    by_contra hprod
    rw [Bool.not_eq_true] at hprod
    have hr : r ∈ (c.map (markProduced w)).items := hr
    rw [items_map] at hr
    exact (mem_map_markProduced hr hprod).2 howner

theorem Inv.retry (h : s.Inv capacity c wrapper) (hcap : capacity < 2 ^ 32)
    {size seen target lap : Nat} (hpc : s.producers w = .exchange size seen target lap) :
    (s.goto w (.loadNext size)).Inv capacity c wrapper := by
  have hw := h.producers w
  rw [hpc] at hw
  have ⟨hclear, hword, hpos, hle, hsnap, _⟩ := hw.knows
  have hlt := hsnap.lt
  refine h.goto ⟨hw.registered, hclear, Or.inr ?_, hpos, hle⟩
  rw [hword, isLocked_lockWrapBit (by omega)]

theorem Inv.exchange (h : s.Inv capacity c wrapper) (hcap : capacity < 2 ^ 32)
    {size seen target lap : Nat} (hpc : s.producers w = .exchange size seen target lap)
    (hbarrier : s.ring.producerBarrier = seen) (hfresh : lap = s.wraps) :
    ∃ c' wrapper', ((s.exchange w size seen target).goto w (.loadSeen seen target)).Inv
      capacity c' wrapper' := by
  have hw := h.producers w
  rw [hpc] at hw
  have ⟨hclear, hword, hpos, hle, hsnap, htarget⟩ := hw.knows
  have hfree := (hsnap.same hfresh).1
  have hwrite := h.core.barrier_eq hcap hfree
  have hseen : seen = (s.view c wrapper).write := hbarrier.symm.trans hwrite
  have hlt := hsnap.lt
  have hadmits := htarget hfresh hbarrier
  have hindex : getBufferIndex seen = seen := getBufferIndex_of_lt (by omega)
  subst hseen
  have hx : Exchanges capacity (s.view c wrapper) size target :=
    ⟨h.core, hcap, hpos, hle, hfree, hadmits⟩
  have hr := hx.reserves w
  refine ⟨((s.view c wrapper).exchange capacity w size (s.view c wrapper).write target).layout,
    if isLocked target then some w else wrapper, ?_⟩
  refine h.worker rfl rfl ?_ (hx.core_exchange w) ?_ (fun _ hne ↦ hx.rely hne) (hx.advances w)
  · rw [h.core.fits.reserves_items hr]
    show c.items ++ _ = s.pending ++ _
    rw [h.items, hindex]
  · refine ⟨hw.registered, hword, hlt, ?_, fun hl ↦ hx.wraps w hl⟩
    exact shows_of_reserves ((s.view c wrapper).exchange capacity w size
      (s.view c wrapper).write target) h.core hclear rfl hr

theorem Inv.producerStep (h : s.Inv capacity c wrapper) (hcap : capacity < 2 ^ 32)
    (hfresh : s.Fresh (.producer w)) (hstep : s.producerStep capacity w = some t) :
    ∃ c' wrapper', t.Inv capacity c' wrapper' := by
  have hw := h.producers w
  unfold System.producerStep at hstep
  cases hpc : s.producers w with
  | unregistered | idle | holding =>
    rw [hpc] at hstep
    contradiction
  | registering =>
    rw [hpc] at hw hstep
    rw [← Option.some.inj hstep]
    have hself := congrArg Worker.registered
      (Function.update_self w { s.ring.workers w with registered := true } s.ring.workers)
    have hword := congrArg Worker.seen
      (Function.update_self w { s.ring.workers w with registered := true } s.ring.workers)
    refine ⟨c, wrapper, h.store ⟨rfl, rfl, rfl, fun v hne ↦ Function.update_of_ne hne _ _,
      fun _ ↦ hself⟩ ⟨hself, hw.knows.1, hword.trans hw.knows.2⟩⟩
  | loadNext size =>
    rw [hpc] at hw hstep
    simp only at hstep
    by_cases hl : isLocked s.ring.producerBarrier = true
    · rw [if_pos hl] at hstep
      rw [← Option.some.inj hstep]
      exact ⟨c, wrapper, h⟩
    · rw [if_neg hl] at hstep
      rw [← Option.some.inj hstep]
      have hfree : isLocked (s.view c wrapper).barrier = false := by
        rw [Bool.eq_false_iff]
        exact hl
      have hbarrier := h.core.barrier_eq hcap hfree
      have hlt : (s.view c wrapper).barrier < capacity := by
        rw [hbarrier]
        exact h.core.fits.write_lt
      have ⟨hclear, hword, hpos, hle⟩ := hw.knows
      refine ⟨c, wrapper, h.goto ⟨hw.registered, hclear, hword, hpos, hle, ?_⟩⟩
      exact ⟨hlt, Nat.le_refl _, fun _ ↦ ⟨hfree, Nat.le_of_eq hbarrier⟩⟩
  | storeSeen size seen lap =>
    rw [hpc] at hw hstep
    rw [← Option.some.inj hstep]
    have ⟨hclear, _, hpos, hle, hsnap⟩ := hw.knows
    have hlt := hsnap.lt
    rw [getBufferIndex_of_lt (by omega)]
    exact ⟨c, wrapper, h.store (quiet_storeSeen _ w _)
      ⟨(registered_storeSeen s.ring w _).trans hw.registered, hclear, word_storeSeen s.ring w _, hpos, hle,
        hsnap.lt, hsnap.le, hsnap.same⟩⟩
  | loadWritten size seen lap =>
    rw [hpc] at hw hstep
    have ⟨hclear, hword, hpos, hle, hsnap⟩ := hw.knows
    have hlt := hsnap.lt
    simp only at hstep
    cases htarget : acquireTarget capacity seen size s.ring.current with
    | none =>
      rw [htarget] at hstep
      rw [← Option.some.inj hstep]
      refine ⟨c, wrapper, h.goto ⟨hw.registered, hclear, ?_⟩⟩
      rw [hword, isLocked_lockWrapBit (by omega)]
    | some target =>
      rw [htarget] at hstep
      rw [← Option.some.inj hstep]
      exact ⟨c, wrapper, h.goto ⟨hw.registered, hclear, hword, hpos, hle, hsnap, fun _ _ ↦
        acquireTarget_admits hcap hlt hle h.core.fits.read_lt htarget⟩⟩
  | giveUp =>
    rw [hpc] at hw hstep
    rw [← Option.some.inj hstep]
    exact ⟨c, wrapper, h.store (quiet_storeSeen _ w _)
      ⟨(registered_storeSeen s.ring w _).trans hw.registered, hw.knows.1, word_storeSeen s.ring w _⟩⟩
  | exchange size seen target lap =>
    have hfresh : (s.producers w).Fresh s.ring.producerBarrier s.wraps := hfresh
    rw [hpc] at hfresh hstep
    have hlap : s.ring.producerBarrier = seen → lap = s.wraps := hfresh
    simp only at hstep
    by_cases hbarrier : s.ring.producerBarrier = seen
    · rw [if_pos hbarrier] at hstep
      rw [← Option.some.inj hstep]
      exact h.exchange hcap hpc hbarrier (hlap hbarrier)
    · rw [if_neg hbarrier] at hstep
      rw [← Option.some.inj hstep]
      exact ⟨c, wrapper, h.retry hcap hpc⟩
  | loadSeen seen target =>
    rw [hpc] at hw hstep
    rw [← Option.some.inj hstep]
    have ⟨hword, hrest⟩ := hw.knows
    exact ⟨c, wrapper, h.goto ⟨hw.registered, hword, hword, hrest⟩⟩
  | storeUnlocked seen target own =>
    rw [hpc] at hw hstep
    rw [← Option.some.inj hstep]
    have ⟨_, hown, hlt, hshows, hwraps⟩ := hw.knows
    have hregistered := fun v ↦ (registered_storeSeen s.ring w v).trans
      hw.registered
    rw [hown, unlockWrapBit_lockWrapBit (by omega)]
    have hshows' : ((s.store (s.ring.storeSeen w seen)).view c wrapper).Shows capacity w
        (((s.store (s.ring.storeSeen w seen)).view c wrapper).word w) := by
      rw [show ((s.store (s.ring.storeSeen w seen)).view c wrapper).word w = seen from
        word_storeSeen s.ring w seen]
      exact ⟨hshows.holds, hshows.front, hshows.back⟩
    refine ⟨c, wrapper, h.store (quiet_storeSeen _ w _) ?_⟩
    by_cases hl : isLocked target = true
    · rw [if_pos hl]
      have hw := hwraps hl
      exact ⟨hregistered seen, hshows', hw.wrapper, hw.barrier, hw.locked, hw.cut, hw.lt⟩
    · rw [if_neg hl]
      exact ⟨hregistered seen, hshows'⟩
  | setEnd seen target =>
    rw [hpc] at hw hstep
    rw [← Option.some.inj hstep]
    have ⟨hshows, hwraps⟩ := hw.knows
    have hlt := hwraps.lt
    rw [getBufferIndex_of_lt (by omega)]
    refine ⟨c, wrapper, h.worker rfl rfl h.items (core_setEnd h.core seen) ?_
      (fun _ hne ↦ hwraps.rely hne) (hwraps.advances seen)⟩
    exact ⟨hw.registered, ⟨hshows.holds, hshows.front, hshows.back⟩, hwraps.setEnd⟩
  | unlockBarrier target =>
    rw [hpc] at hw hstep
    rw [← Option.some.inj hstep]
    have ⟨hshows, hwrapped⟩ := hw.knows
    refine ⟨c, none, h.worker rfl rfl h.items (hwrapped.core_unlock h.core hcap) ?_
      (fun _ hne ↦ hwrapped.rely hne) hwrapped.advances⟩
    exact ⟨hw.registered, hshows.holds, hshows.front, hshows.back⟩

/-! ## Steps of the consumer -/

theorem sub64_add_left {a b : Nat} (h : a + b < 2 ^ 64) : sub64 (a + b) a = b := by
  unfold sub64
  omega

theorem Inv.consumes (h : s.Inv capacity c wrapper) (hproducers : t.producers = s.producers)
    (hitems : c'.items = t.pending) (hcore : (t.view c' wrapper).Core capacity)
    (hothers : ∀ w, Rely capacity (s.view c wrapper) (t.view c' wrapper) w)
    (hself : ConsumerOk capacity (t.view c' wrapper) t.consumer) : t.Inv capacity c' wrapper where
  items := hitems
  core := hcore
  producers w := by
    rw [hproducers]
    exact (h.producers w).rely (hothers w)
  consumer := hself

theorem Inv.consumerGoto (h : s.Inv capacity c wrapper) {pc : Consumer n}
    (hself : ConsumerOk capacity (s.view c wrapper) pc) :
    Inv capacity { s with consumer := pc } c wrapper :=
  h.consumes rfl h.items h.core (fun w ↦ rely_grant _ s.granted w) hself

/-- consume returns reservations at the head of the front. -/
theorem Inv.give (h : s.Inv capacity c wrapper) {address : Option Nat} {k bytes : Nat}
    (hend : (s.view c wrapper).EndOk capacity) (hk : k ≤ c.front.length)
    (hbytes : bytes = total size (c.front.take k))
    (hprod : ∀ r ∈ c.front.take k, r.produced = true)
    (haddress : ∀ a, address = some a → a = (s.view c wrapper).read ∧
      ∀ r ∈ c.front, r.produced = false → a + bytes ≤ r.start) :
    (s.give address bytes).Inv capacity c wrapper := by
  have hinit : c.front.take k <+: s.pending := by
    rw [← h.items]
    exact (List.take_prefix k c.front).trans (List.prefix_append _ _)
  have hgranted : covered bytes s.pending = k := by
    rw [hbytes, covered_total hinit fun r hr ↦ h.core.pos r (h.items ▸ hr), List.length_take]
    omega
  refine h.consumes rfl h.items ?_ (fun w ↦ rely_grant _ (covered bytes s.pending) w) ?_
  · refine ⟨h.core.fits, h.core.barrier, h.core.wrapped, h.core.pos, ?_, ?_⟩
    · show covered bytes s.pending ≤ c.front.length
      rw [hgranted]
      exact hk
    · show ∀ r ∈ c.front.take (covered bytes s.pending), r.produced = true
      rw [hgranted]
      exact hprod
  · refine ⟨hend, fun a ha ↦ ?_⟩
    have ⟨hread, hfront⟩ := haddress a ha
    refine ⟨hread, ?_, hfront⟩
    show bytes = total size (c.front.take (covered bytes s.pending))
    rw [hgranted]
    exact hbytes

/-- The end of the front, where the scan of a wrapped around barrier is cut off. -/
theorem Inv.stop_eq (h : s.Inv capacity c wrapper) (hcap : capacity < 2 ^ 32)
    (hend : (s.view c wrapper).EndOk capacity)
    (hfree : isLocked (s.view c wrapper).barrier = false) (hcut : c.cut ≠ none) :
    c.cut = some (min capacity s.ring.end_) := by
  have ⟨stop, hstop⟩ := Option.ne_none_iff_exists'.mp hcut
  have hle := h.core.fits.stop_le
  have hend : s.ring.end_ = endOf capacity c := hend hfree
  have hlayout : (s.view c wrapper).layout.cut = some stop := hstop
  rw [hlayout, Option.getD_some] at hle
  rw [hend, min_endOf hcap hstop hle]
  exact hstop

theorem Inv.boundary_end (h : s.Inv capacity c wrapper) :
    (s.view c wrapper).Boundary (c.cut.getD (s.view c wrapper).write) := by
  refine ⟨c.front.length, Nat.le_refl _, ?_⟩
  show _ = _ + total size (c.front.take c.front.length)
  rw [List.take_length]
  exact h.core.fits.front_chain.total_eq.symm

/-- What a scan returns: the offset that the workers hold back, cut off at a boundary `limit`. -/
theorem Inv.scanned (h : s.Inv capacity c wrapper) (hcap : capacity < 2 ^ 32)
    {written next ready limit : Nat} (hend : (s.view c wrapper).EndOk capacity)
    (hscans : (s.view c wrapper).Scans capacity written next ready [])
    (hlimit : (s.view c wrapper).Boundary limit)
    (hnext : written < next → limit = next) :
    (s.give (some written) (sub64 (min ready limit) written)).Inv capacity c wrapper := by
  have hread := hscans.current
  have hlt : limit ≤ capacity := by
    have ⟨k, _, heq⟩ := hlimit
    have hle := h.core.released_le k
    have hreleased : limit = (s.view c wrapper).released k := heq
    omega
  have hbound : (s.view c wrapper).Boundary (min ready limit) := by
    cases hscans.bound with
    | inl hmax =>
      rw [Nat.min_eq_right (by unfold maxOffset at hmax; omega)]
      exact hlimit
    | inr hready =>
      by_cases hle : ready ≤ limit
      · rw [Nat.min_eq_left hle]
        exact hready
      · rw [Nat.min_eq_right (by omega)]
        exact hlimit
  have hfront : ∀ r ∈ c.front, r.produced = false → min ready limit ≤ r.start := by
    intro r hr hprod
    by_cases hahead : written < next
    · by_cases hstart : r.start < next
      · have := hscans.front r hr hprod List.not_mem_nil fun _ ↦ hstart
        omega
      · have := hnext hahead
        omega
    · have := hscans.front r hr hprod List.not_mem_nil fun hlt ↦ absurd hlt hahead
      omega
  have ⟨k, hk, heq⟩ := hbound
  have heq : min ready limit = (s.view c wrapper).read + total size (c.front.take k) := heq
  have hsub : sub64 (min ready limit) written = total size (c.front.take k) := by
    rw [heq, hread]
    exact sub64_add_left (by omega)
  rw [hsub]
  apply h.give hend hk rfl
  · intro r hr
    by_contra hprod
    rw [Bool.not_eq_true] at hprod
    have hbounds := (h.core.fits.front_chain.take k).mem_bounds hr
    have hge := hfront r (List.mem_of_mem_take hr) hprod
    have hpos := h.core.pos r (List.mem_append_left _ (List.mem_of_mem_take hr))
    have hbounds : r.start + r.size ≤
      (s.view c wrapper).read + total size (c.front.take k) := hbounds.2
    omega
  · intro a ha
    rw [Option.some.injEq] at ha
    refine ⟨ha ▸ hread, fun r hr hprod ↦ ?_⟩
    have := hfront r hr hprod
    omega

/-- A scan that found no worker at work and nothing in front of the cut may turn. -/
theorem Inv.turns (h : s.Inv capacity c wrapper) {written next ready : Nat}
    (hscans : (s.view c wrapper).Scans capacity written next ready []) (hlt : next < written)
    (hready : ready = maxOffset) (hcut : c.cut = some written) (hcap : capacity < 2 ^ 32) :
    (s.view c wrapper).Turns capacity := by
  have hread := hscans.current
  have hwritten : written < capacity := hread ▸ h.core.fits.read_lt
  have hchain := h.core.fits.front_chain
  have hlayout : (s.view c wrapper).layout.cut = some written := hcut
  rw [hlayout, Option.getD_some, ← hread] at hchain
  refine ⟨hchain.eq_nil fun r hr ↦ h.core.pos r (List.mem_append_left _ hr),
    (hscans.behind hlt).2, ⟨written, hwritten, hcut⟩, ?_⟩
  intro r hr hprod hzero
  have := hscans.back hlt written hcut hwritten r hr hprod hzero List.not_mem_nil
  unfold maxOffset at hready
  omega

theorem Inv.startScan (h : s.Inv capacity c wrapper) {written : Nat}
    (hwritten : written = (s.view c wrapper).read)
    (hfree : isLocked (s.view c wrapper).barrier = false)
    (hne : written ≠ (s.view c wrapper).write) :
    (s.view c wrapper).Scans capacity written (s.view c wrapper).write maxOffset
      (List.finRange n) := by
  have hcut := h.core.fits.cut_isSome_iff
  refine ⟨hwritten, hne, ?_, ?_, Or.inl rfl, ?_, ?_⟩
  · intro hlt
    have hbound := h.boundary_end
    have hnone : c.cut = none := by
      rw [← Option.not_isSome_iff_eq_none]
      intro hsome
      have := hcut.mp hsome
      omega
    rw [hnone, Option.getD_none] at hbound
    exact hbound
  · intro hlt
    refine ⟨?_, hfree⟩
    exact Option.isSome_iff_ne_none.mp (hcut.mpr (by omega))
  · exact fun r _ _ hrest ↦ absurd (List.mem_finRange r.owner) hrest
  · exact fun _ _ _ _ r _ _ _ hrest ↦ absurd (List.mem_finRange r.owner) hrest

theorem Inv.skip (h : s.Inv capacity c wrapper) {written next ready : Nat} {rest : List (Fin n)}
    (hscans : (s.view c wrapper).Scans capacity written next ready (w :: rest))
    (hregistered : s.ring.registered w = false) :
    (s.view c wrapper).Scans capacity written next ready rest := by
  have hw := h.producers w
  have hclear : (s.view c wrapper).Clear w := by
    have hstarted := hw.registered.symm.trans hregistered
    have hknows := hw.knows
    cases hpc : s.producers w with
    | unregistered =>
      rw [hpc] at hknows
      exact hknows
    | registering =>
      rw [hpc] at hknows
      exact hknows.1
    | _ =>
      rw [hpc] at hstarted
      contradiction
  have hrest : ∀ r ∈ c.items, r.produced = false → r.owner ∉ rest → r.owner ∉ w :: rest := by
    intro r hr hprod hrest hmem
    cases List.mem_cons.mp hmem with
    | inl heq =>
      have := hclear r hr heq
      simp [hprod] at this
    | inr hmem => exact hrest hmem
  exact
  { hscans with
    front := fun r hr hprod hr' ↦
      hscans.front r hr hprod (hrest r (List.mem_append_left _ hr) hprod hr')
    back := fun hlt stop hcut hstop r hr hprod hzero hr' ↦
      hscans.back hlt stop hcut hstop r hr hprod hzero
        (hrest r (List.mem_append_right _ hr) hprod hr') }

theorem Inv.look (h : s.Inv capacity c wrapper) (hcap : capacity < 2 ^ 32)
    {written next ready : Nat} {rest : List (Fin n)}
    (hscans : (s.view c wrapper).Scans capacity written next ready (w :: rest))
    (hregistered : s.ring.registered w = true)
    (hfree : isLocked ((s.view c wrapper).word w) = false) :
    (s.view c wrapper).Scans capacity written next
      (if (s.view c wrapper).word w ≥ written then min ((s.view c wrapper).word w) ready
        else ready) rest := by
  have hread := hscans.current
  have hcases := (h.producers w).word_cases hcap hregistered hfree
  have hchain := h.core.fits.front_chain
  generalize hseen : (s.view c wrapper).word w = seen at hcases ⊢
  generalize hready : (if seen ≥ written then min seen ready else ready) = ready'
  have hle : ready' ≤ ready := by
    rw [← hready]
    split <;> omega
  have hle' : written ≤ seen → ready' ≤ seen := by
    intro hge
    rw [← hready, if_pos hge]
    exact Nat.min_le_left _ _
  refine ⟨hread, hscans.moved, hscans.ahead, hscans.behind, ?_, ?_, ?_⟩
  · -- an unlocked word at or after the consumer offset is a boundary of the front
    have hword : written ≤ seen → seen = maxOffset ∨ (s.view c wrapper).Boundary seen := by
      intro hge
      cases hcases with
      | inl hclear => exact Or.inl hclear.2
      | inr hshows =>
        right
        have ⟨r, hr, howner, hprod⟩ := hshows.holds
        cases List.mem_append.mp hr with
        | inl hf =>
          have ⟨k, hk, heq⟩ := hchain.start_boundary hf
          exact ⟨k, Nat.le_of_lt hk, (hshows.front r hf howner hprod).trans heq⟩
        | inr hb =>
          have heq := hshows.back r hb howner hprod
          have hbounds := h.core.fits.back_bounds hb
          have hbound := h.boundary_end
          unfold publishedBack at heq
          split at heq
          · rename_i stop hcut
            split at heq
            · have hcut : c.cut = some stop := hcut
              rw [hcut, Option.getD_some, ← heq] at hbound
              exact hbound
            · omega
          · omega
    by_cases hge : written ≤ seen
    · rw [if_pos hge] at hready
      by_cases hmin : seen ≤ ready
      · rw [Nat.min_eq_left hmin] at hready
        exact hready ▸ hword hge
      · rw [Nat.min_eq_right (by omega)] at hready
        exact hready ▸ hscans.bound
    · rw [if_neg hge] at hready
      exact hready ▸ hscans.bound
  · intro r hr hprod hrest hnext
    by_cases howner : r.owner = w
    · cases hcases with
      | inl hclear =>
        have := hclear.1 r (List.mem_append_left _ hr) howner
        simp [hprod] at this
      | inr hshows =>
        have hstart := hshows.front r hr howner hprod
        have hge := (hchain.mem_bounds hr).1
        have := hle' (by omega)
        omega
    · have := hscans.front r hr hprod (by simp [howner, hrest]) hnext
      omega
  · intro hlt stop hcut hstop r hr hprod hzero hrest
    by_cases howner : r.owner = w
    · cases hcases with
      | inl hclear =>
        have := hclear.1 r (List.mem_append_right _ hr) howner
        simp [hprod] at this
      | inr hshows =>
        have heq := hshows.back r hr howner hprod
        rw [publishedBack, hcut] at heq
        simp only [hzero, and_true] at heq
        rw [if_pos hstop] at heq
        have hend := hchain.le
        rw [hcut, Option.getD_some] at hend
        have := hle' (by omega)
        omega
    · have := hscans.back hlt stop hcut hstop r hr hprod hzero (by simp [howner, hrest])
      omega

theorem Inv.scanEnd (h : s.Inv capacity c wrapper) (hcap : capacity < 2 ^ 32)
    {written next ready : Nat} (hpc : s.consumer = .scan written next ready [])
    (hstep : s.consumerStep capacity = some t) : t.Inv capacity c wrapper := by
  have hself := h.consumer
  rw [hpc] at hself
  have ⟨hend, hscans⟩ := hself
  unfold System.consumerStep at hstep
  rw [hpc] at hstep
  simp only at hstep
  by_cases hlt : next < written
  · have ⟨hcut, hfree⟩ := hscans.behind hlt
    have hstop := h.stop_eq hcap hend hfree hcut
    rw [if_pos hlt] at hstep
    by_cases hturn : ready = maxOffset ∧ written = min capacity s.ring.end_
    · rw [if_pos hturn] at hstep
      rw [← Option.some.inj hstep]
      exact h.consumerGoto ⟨hend, h.turns hscans hlt hturn.1 (hturn.2 ▸ hstop) hcap⟩
    · rw [if_neg hturn] at hstep
      rw [← Option.some.inj hstep]
      have hbound := h.boundary_end
      rw [hstop, Option.getD_some] at hbound
      exact h.scanned hcap hend hscans hbound fun hahead ↦ by omega
  · rw [if_neg hlt] at hstep
    rw [← Option.some.inj hstep]
    have hmoved := hscans.moved
    exact h.scanned hcap hend hscans (hscans.ahead (by omega)) fun _ ↦ rfl

theorem Inv.consumerStep (h : s.Inv capacity c wrapper) (hcap : capacity < 2 ^ 32)
    (hstep : s.consumerStep capacity = some t) : ∃ c', t.Inv capacity c' wrapper := by
  have hself := h.consumer
  cases hpc : s.consumer with
  | idle | returned =>
    unfold System.consumerStep at hstep
    rw [hpc] at hstep
    contradiction
  | loadWritten =>
    unfold System.consumerStep at hstep
    rw [hpc] at hself hstep
    rw [← Option.some.inj hstep]
    exact ⟨c, h.consumerGoto ⟨hself, rfl⟩⟩
  | loadNext written =>
    unfold System.consumerStep at hstep
    rw [hpc] at hself hstep
    simp only at hstep
    by_cases hl : isLocked s.ring.producerBarrier = true
    · rw [if_pos hl] at hstep
      exact ⟨c, Option.some.inj hstep ▸ h⟩
    · rw [if_neg hl] at hstep
      by_cases hne : written = getBufferIndex s.ring.producerBarrier
      · rw [if_pos hne] at hstep
        rw [← Option.some.inj hstep]
        exact ⟨c, h.give hself.1 (Nat.zero_le _) rfl
          (fun r hr ↦ absurd (List.take_zero ▸ hr) List.not_mem_nil) nofun⟩
      · rw [if_neg hne] at hstep
        rw [← Option.some.inj hstep]
        have hfree : isLocked (s.view c wrapper).barrier = false := by
          rw [Bool.eq_false_iff]
          exact hl
        exact ⟨c, h.consumerGoto ⟨hself.1, h.startScan hself.2 hfree hne⟩⟩
  | scan written next ready rest =>
    cases rest with
    | nil => exact ⟨c, h.scanEnd hcap hpc hstep⟩
    | cons w rest =>
      unfold System.consumerStep at hstep
      rw [hpc] at hself hstep
      simp only at hstep
      by_cases hregistered : s.ring.registered w = true
      · rw [if_pos hregistered] at hstep
        rw [← Option.some.inj hstep]
        exact ⟨c, h.consumerGoto ⟨hself.1, hself.2, hregistered⟩⟩
      · rw [if_neg hregistered] at hstep
        rw [← Option.some.inj hstep]
        exact ⟨c, h.consumerGoto ⟨hself.1, h.skip hself.2 (by simpa using hregistered)⟩⟩
  | loadSeen written next ready w rest =>
    unfold System.consumerStep at hstep
    rw [hpc] at hself hstep
    simp only at hstep
    by_cases hl : isLocked (s.ring.workers w).seen = true
    · rw [if_pos hl] at hstep
      exact ⟨c, Option.some.inj hstep ▸ h⟩
    · rw [if_neg hl] at hstep
      rw [← Option.some.inj hstep]
      have hfree : isLocked ((s.view c wrapper).word w) = false := by
        rw [Bool.eq_false_iff]
        exact hl
      exact ⟨c, h.consumerGoto ⟨hself.1, h.look hcap hself.2.1 hself.2.2 hfree⟩⟩
  | resetEnd =>
    unfold System.consumerStep at hstep
    rw [hpc] at hself hstep
    rw [← Option.some.inj hstep]
    have hring : (if s.ring.end_ ≠ maxOffset then { s.ring with end_ := maxOffset } else s.ring) =
        { s.ring with end_ := maxOffset } := by
      by_cases hmax : s.ring.end_ = maxOffset
      · rw [if_neg (not_not.mpr hmax), ← hmax]
      · rw [if_pos hmax]
    rw [hring]
    have hturns := hself.2
    exact ⟨c, h.consumes rfl h.items
      ⟨h.core.fits, h.core.barrier, h.core.wrapped, h.core.pos, h.core.granted, h.core.produced⟩
      (fun w ↦ hturns.rely_resetEnd w)
      ⟨rfl, hturns.front, hturns.unlocked, hturns.cut, hturns.back⟩⟩
  | storeZero =>
    unfold System.consumerStep at hstep
    rw [hpc] at hself hstep
    rw [← Option.some.inj hstep]
    obtain ⟨hmax, hturns⟩ := hself
    refine ⟨c.turn, h.consumes rfl ?_ (hturns.core_turn h.core)
      (fun w ↦ hturns.rely_turn h.core w) ⟨fun _ ↦ hmax, rfl⟩⟩
    have hempty : c.front = [] := hturns.front
    show c.turn.items = s.pending
    rw [← h.items, Circular.items, Circular.items, hempty]
    simp only [Circular.turn, List.append_nil, List.nil_append]
  | loadCurrent k bytes =>
    unfold System.consumerStep at hstep
    rw [hpc] at hself hstep
    rw [← Option.some.inj hstep]
    exact ⟨c, h.consumerGoto ⟨hself.1, hself.2.1, hself.2.2, rfl⟩⟩
  | storeReleased k bytes written =>
    unfold System.consumerStep at hstep
    rw [hpc] at hself hstep
    rw [← Option.some.inj hstep]
    obtain ⟨hend, hk, hbytes, hwritten⟩ := hself
    have hle := h.core.released_le k
    have hreleased : (written + bytes) % 2 ^ 64 = (s.view c wrapper).released k := by
      rw [hwritten, hbytes]
      exact Nat.mod_eq_of_lt (show (s.view c wrapper).released k < 2 ^ 64 by omega)
    simp only [hreleased]
    refine ⟨((s.view c wrapper).release capacity k ((s.view c wrapper).released k)).layout,
      h.consumes rfl ?_ (h.core.core_release hk) (fun w ↦ h.core.rely_release hk w)
      (h.core.endOk_release hk hend)⟩
    rw [h.core.items_release (Nat.le_trans hk h.core.granted)]
    show c.items.drop k = s.pending.drop k
    rw [h.items]

theorem Inv.resting (h : s.Inv capacity c wrapper) (hrest : s.resting = true) :
    (s.view c wrapper).EndOk capacity := by
  have hself := h.consumer
  unfold System.resting at hrest
  cases hpc : s.consumer with
  | idle =>
    rw [hpc] at hself
    exact hself
  | returned =>
    rw [hpc] at hself
    exact hself.1
  | _ =>
    rw [hpc] at hrest
    contradiction

theorem Inv.release (h : s.Inv capacity c wrapper) {k : Nat} (hrest : s.resting = true)
    (hk : k ≤ s.granted) :
    Inv capacity { s with consumer := .loadCurrent k (total size (s.pending.take k)) } c
      wrapper := by
  refine h.consumerGoto ⟨h.resting hrest, hk, ?_⟩
  have hle : k ≤ c.front.length := Nat.le_trans hk h.core.granted
  rw [← h.items]
  show total size ((c.front ++ c.back).take k) = total size (c.front.take k)
  rw [List.take_append_of_le_length hle]

/-! ## Runs -/

theorem Inv.step (h : s.Inv capacity c wrapper) (hcap : capacity < 2 ^ 32) {action : Action n}
    (hfresh : s.Fresh action) (hstep : s.step capacity action = some t) :
    ∃ c' wrapper', t.Inv capacity c' wrapper' := by
  cases action with
  | registerWorker w =>
    rw [System.step, Option.ite_none_right_eq_some] at hstep
    exact ⟨c, wrapper, Option.some.inj hstep.2 ▸ h.registerWorker hstep.1⟩
  | acquire w size =>
    rw [System.step, Option.ite_none_right_eq_some] at hstep
    have ⟨⟨hpc, hpos⟩, hstep⟩ := hstep
    by_cases hbig : size > capacity
    · rw [if_pos hbig] at hstep
      exact ⟨c, wrapper, Option.some.inj hstep ▸ h⟩
    · rw [if_neg hbig] at hstep
      exact ⟨c, wrapper, Option.some.inj hstep ▸ h.acquire hpc hpos (by omega)⟩
  | produce w =>
    rw [System.step, Option.ite_none_right_eq_some] at hstep
    exact ⟨_, wrapper, Option.some.inj hstep.2 ▸ h.produce hstep.1⟩
  | producer w => exact h.producerStep hcap hfresh hstep
  | spurious w =>
    rw [System.step] at hstep
    cases hpc : s.producers w with
    | exchange size seen target lap =>
      rw [hpc] at hstep
      exact ⟨c, wrapper, Option.some.inj hstep ▸ h.retry hcap hpc⟩
    | _ =>
      rw [hpc] at hstep
      contradiction
  | consume =>
    rw [System.step, Option.ite_none_right_eq_some] at hstep
    exact ⟨c, wrapper, Option.some.inj hstep.2 ▸ h.consumerGoto (h.resting hstep.1)⟩
  | release k =>
    rw [System.step, Option.ite_none_right_eq_some] at hstep
    exact ⟨c, wrapper, Option.some.inj hstep.2 ▸ h.release hstep.1.1 hstep.1.2⟩
  | consumer =>
    have ⟨c', ht⟩ := h.consumerStep hcap hstep
    exact ⟨c', wrapper, ht⟩

theorem Inv.safe (h : s.Inv capacity c wrapper) : s.Safe capacity where
  inside r hr := by
    have hmem := List.mem_of_mem_filter hr
    rw [← h.items] at hmem
    exact h.core.fits.end_le hmem
  disjoint := by
    apply List.Pairwise.filter
    rw [← h.items]
    exact h.core.fits.pairwise_disjoint
  shown a bytes hpc := by
    have hself := h.consumer
    rw [hpc] at hself
    have ⟨hread, hbytes, hfront⟩ := hself.2 a rfl
    have hgranted : s.granted ≤ c.front.length := h.core.granted
    rw [Shown, ← h.items]
    constructor
    · refine ⟨s.granted, ?_, ?_⟩
      · show s.granted ≤ (c.front ++ c.back).length
        rw [List.length_append]
        exact Nat.le_trans hgranted (Nat.le_add_right _ _)
      · have hchain := h.core.fits.front_chain.take s.granted
        show Chain start size a ((c.front ++ c.back).take s.granted) (a + bytes)
        rw [List.take_append_of_le_length hgranted, hread, hbytes]
        exact hchain
    · intro r hr hprod
      cases List.mem_append.mp hr with
      | inl hf => exact Or.inr (hfront r hf hprod)
      | inr hb =>
        have hbounds := h.core.fits.back_bounds hb
        left
        omega

/-- In a run without a stale compare-exchange the reservations stay apart and inside the buffer, and
consume shows whole produced ones only. -/
theorem safe_of_fresh (h : 1 ≤ capacity) (hcap : capacity < 2 ^ 32) {actions : List (Action n)}
    (hfresh : Meets (System.step capacity) Fresh (initial n) actions)
    (hrun : run (System.step capacity) (initial n) actions = some s) : s.Safe capacity := by
  have hinv : ∃ c wrapper, s.Inv capacity c wrapper := by
    apply invariant_of_meets (fun s ↦ ∃ c wrapper, System.Inv capacity s c wrapper) _
      ⟨Circular.empty, none, inv_initial h⟩ hfresh hrun
    intro s action t ⟨c, wrapper, hs⟩ hok hstep
    exact hs.step hcap hok hstep
  have ⟨c, wrapper, hs⟩ := hinv
  exact hs.safe

/-- The stale run up to the compare-exchange of worker 0. -/
theorem safe_of_fresh_staleRun : ∃ s : System 2,
    run (System.step 4) (initial 2) (staleRun.take 34) = some s ∧ s.Safe 4 := by
  have hrun : (run (System.step 4) (initial 2) (staleRun.take 34)).isSome = true := by
    decide +kernel
  have ⟨s, hs⟩ := Option.isSome_iff_exists.mp hrun
  exact ⟨s, hs, safe_of_fresh (by decide) (by decide) (by decide +kernel) hs⟩

/-- The stale compare-exchange hands out bytes that worker 1 still holds. -/
theorem not_safe_staleRun : ∃ s : System 2,
    run (System.step 4) (initial 2) staleRun = some s ∧ ¬ s.Safe 4 := by
  have hrun : (run (System.step 4) (initial 2) staleRun).any
      (fun s ↦ !decide (s.handedOut.Pairwise (Disjoint start size))) = true := by
    decide +kernel
  rw [Option.any_eq_true] at hrun
  have ⟨s, hs, hoverlap⟩ := hrun
  refine ⟨s, hs, fun hsafe ↦ ?_⟩
  rw [Bool.not_eq_true', decide_eq_false_iff_not] at hoverlap
  exact hoverlap hsafe.disjoint

end System

end Ustevent.MpscRingBuffer
