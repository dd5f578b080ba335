import Ustevent.Ring.Calls

/-!
# What consume shows

`consume` looks at every registered worker and returns the bytes up to the smallest offset that an
unproduced reservation holds back.  Over a well laid out ring buffer that is the longest run of
produced reservations, also where the consumer has to follow the barrier to 0 first.
-/

namespace Ustevent.MpscRingBuffer

open Reasoning Reservation

variable {n : Nat} {capacity : Nat} {rb : MpscRingBuffer n} {c : Circular (Reservation n)}

/-! ## The loop over the workers -/

theorem observe_eq {written ready : Nat} {worker : Worker} (hle : written ≤ ready)
    (hfree : worker.registered = true → isLocked worker.seen = false) :
    observe written ready worker =
      .ok (if worker.registered = true ∧ written ≤ worker.seen then min worker.seen ready
        else ready) := by
  unfold observe getStableSeen
  cases hreg : worker.registered with
  | false => rfl
  | true =>
    rw [hfree hreg]
    by_cases hseen : written ≤ worker.seen
    · simp [pure, Except.pure, hseen, check_of hle]
    · simp [pure, Except.pure, hseen, check_of hle]

/-- What consume knows about the workers of `l` after it has looked at them. -/
theorem foldlM_observe (rb : MpscRingBuffer n) {written : Nat}
    (hfree : ∀ w, rb.registered w = true → isLocked (rb.workers w).seen = false)
    (l : List (Fin n)) {ready : Nat} (hle : written ≤ ready) :
    ∃ ready', l.foldlM (fun ready w ↦ observe written ready (rb.workers w)) ready = .ok ready' ∧
      written ≤ ready' ∧ ready' ≤ ready ∧
      (∀ w ∈ l, rb.registered w = true → written ≤ (rb.workers w).seen →
        ready' ≤ (rb.workers w).seen) ∧
      (ready' = ready ∨ ∃ w ∈ l, rb.registered w = true ∧ written ≤ (rb.workers w).seen ∧
        ready' = (rb.workers w).seen) := by
  induction l generalizing ready with
  | nil => exact ⟨ready, rfl, hle, Nat.le_refl _, by simp, Or.inl rfl⟩
  | cons w l ih =>
    rw [List.foldlM_cons, observe_eq hle (hfree w)]
    by_cases hw : (rb.workers w).registered = true ∧ written ≤ (rb.workers w).seen
    · rw [if_pos hw]
      obtain ⟨ready', hrun, hlo, hhi, hall, hsome⟩ :=
        ih (show written ≤ min (rb.workers w).seen ready by omega)
      refine ⟨ready', hrun, hlo, by omega, ?_, ?_⟩
      · intro v hv hreg hseen
        rcases List.mem_cons.mp hv with rfl | hmem
        · omega
        · exact hall v hmem hreg hseen
      · rcases hsome with heq | ⟨v, hv, hrest⟩
        · by_cases hmin : (rb.workers w).seen ≤ ready
          · exact Or.inr ⟨w, List.mem_cons_self, hw.1, hw.2, by omega⟩
          · exact Or.inl (by omega)
        · exact Or.inr ⟨v, List.mem_cons_of_mem w hv, hrest⟩
    · rw [if_neg hw]
      obtain ⟨ready', hrun, hlo, hhi, hall, hsome⟩ := ih hle
      refine ⟨ready', hrun, hlo, hhi, ?_, ?_⟩
      · intro v hv hreg hseen
        rcases List.mem_cons.mp hv with rfl | hmem
        · exact absurd ⟨hreg, hseen⟩ hw
        · exact hall v hmem hreg hseen
      · rcases hsome with heq | ⟨v, hv, hrest⟩
        · exact Or.inl heq
        · exact Or.inr ⟨v, List.mem_cons_of_mem w hv, hrest⟩

theorem RingInv.observeWorkers (h : RingInv capacity rb c) (hcap : capacity < 2 ^ 32) :
    ∃ ready, observeWorkers rb rb.consumerBarrier = .ok ready ∧ rb.consumerBarrier ≤ ready ∧
      (∀ r ∈ c.front, r.produced = false → ready ≤ r.start) ∧
      (∀ r ∈ c.back, r.produced = false → rb.consumerBarrier ≤ publishedBack capacity c r →
        ready ≤ publishedBack capacity c r) ∧
      (ready = maxOffset ∨ (∃ r ∈ c.front, r.produced = false ∧ ready = r.start) ∨
        (c.cut = some ready ∧ ∃ r ∈ c.back, r.produced = false ∧ r.start = 0)) := by
  have hread := h.fits.read_lt
  obtain ⟨ready, hrun, hlo, -, hall, hsome⟩ := foldlM_observe rb
    (fun w hw ↦ h.seen_unlocked hcap hw) (List.finRange n)
    (show rb.consumerBarrier ≤ maxOffset by unfold maxOffset; omega)
  refine ⟨ready, hrun, hlo, ?_, ?_, ?_⟩
  · intro r hr hprod
    have howner := h.owner r (List.mem_append_left c.back hr) hprod
    have hseen := h.front r hr hprod
    have hge := (h.fits.front_chain.mem_bounds hr).1
    have := hall r.owner (List.mem_finRange _) howner (by omega)
    omega
  · intro r hr hprod hge
    have howner := h.owner r (List.mem_append_right c.front hr) hprod
    have hseen := h.back r hr hprod
    have := hall r.owner (List.mem_finRange _) howner (by omega)
    omega
  · rcases hsome with heq | ⟨w, -, hreg, hge, heq⟩
    · exact Or.inl heq
    rcases h.seen_cases hreg with hmax | ⟨r, hr, hprod, -, hseen⟩ | ⟨r, hr, hprod, -, hseen⟩
    · exact Or.inl (heq.trans hmax)
    · exact Or.inr (Or.inl ⟨r, hr, hprod, by omega⟩)
    · refine Or.inr (Or.inr ?_)
      -- only the offset from before the wrap-around is not below the consumer
      have hbelow := h.fits.back_bounds hr
      unfold publishedBack at hseen
      split at hseen
      · rename_i stop hcut
        split at hseen
        · rename_i hstop
          exact ⟨by rw [hcut, heq, hseen], r, hr, hprod, hstop.2⟩
        · omega
      · omega

/-! ## consume -/

theorem min_endOf {stop : Nat} (hcap : capacity < 2 ^ 32) (hcut : c.cut = some stop)
    (hstop : stop ≤ capacity) : min capacity (endOf capacity c) = stop := by
  unfold endOf maxOffset
  rw [hcut]
  simp only
  split <;> omega

/-- The smallest offset that an unproduced reservation holds back, cut off at the end of the chain,
is the end of the run of produced ones. -/
theorem min_ready_eq {a stop ready : Nat} {l : List (Reservation n)}
    (hchain : Chain start size a l stop) (hstop : stop ≤ maxOffset)
    (hle : ∀ r ∈ l, r.produced = false → ready ≤ r.start)
    (hsome : ready = maxOffset ∨ (∃ r ∈ l, r.produced = false ∧ ready = r.start) ∨ ready = stop) :
    min ready stop = a + total size (readyFrom a l) := by
  induction l generalizing a with
  | nil =>
    have ha : a = stop := hchain
    simp only [readyFrom, total_nil, List.not_mem_nil, false_and, exists_false, false_or] at hsome ⊢
    omega
  | cons r l ih =>
    have hle' := hchain.le
    cases hprod : r.produced with
    | true =>
      rw [readyFrom, if_pos ⟨hprod, hchain.1⟩, total_cons, ← Nat.add_assoc]
      apply ih hchain.2 fun s hs ↦ hle s (List.mem_cons_of_mem r hs)
      rcases hsome with hmax | ⟨s, hs, hsprod, heq⟩ | hend
      · exact Or.inl hmax
      · rcases List.mem_cons.mp hs with rfl | hmem
        · simp [hprod] at hsprod
        · exact Or.inr (Or.inl ⟨s, hmem, hsprod, heq⟩)
      · exact Or.inr (Or.inr hend)
    -- the first unproduced reservation is where the workers hold the consumer back
    | false =>
      rw [readyFrom, if_neg (by simp [hprod]), total_nil]
      have hr := hle r List.mem_cons_self hprod
      have hstart := hchain.1
      rcases hsome with hmax | ⟨s, hs, -, heq⟩ | hend
      · omega
      · have := (hchain.mem_bounds hs).1
        omega
      · omega

/-- The run does not go on behind the end of a chain if the next reservation starts elsewhere. -/
theorem readyFrom_append_gap {a b : Nat} {l m : List (Reservation n)}
    (hchain : Chain start size a l b) (hgap : ∀ r ∈ m.head?, r.start ≠ b) :
    readyFrom a (l ++ m) = readyFrom a l := by
  induction l generalizing a with
  | nil =>
    cases m with
    | nil => rfl
    | cons r m =>
      have ha : a = b := hchain
      have hr : r.start ≠ b := hgap r (by simp)
      show readyFrom a (r :: m) = []
      exact if_neg fun h ↦ hr (h.2.trans ha)
  | cons r l ih =>
    rw [List.cons_append, readyFrom, readyFrom, ih hchain.2]

/-- With reservations in front of the consumer, the run to show lies in the front. -/
theorem RingInv.readyRun_eq (h : RingInv capacity rb c) (hfront : c.front ≠ []) :
    readyRun c.items = readyFrom rb.consumerBarrier c.front := by
  have hchain := h.fits.front_chain
  obtain ⟨r, l, hl⟩ := List.exists_cons_of_ne_nil hfront
  have hstart : r.start = rb.consumerBarrier := by
    rw [hl] at hchain
    exact hchain.1
  have hrun : readyRun c.items = readyFrom rb.consumerBarrier (c.front ++ c.back) := by
    rw [Circular.items, hl, List.cons_append, readyRun, hstart]
  rw [hrun]
  apply readyFrom_append_gap hchain
  intro s hs
  have hfits := h.fits
  have hle := hchain.le
  unfold Circular.Fits at hfits
  split at hfits
  · rw [hfits.2.2] at hs
    simp at hs
  · rename_i stop hcut
    rw [hcut, Option.getD_some] at hle ⊢
    -- the back begins at 0, where no reservation of the front can end
    have hzero : s.start = 0 := by
      obtain ⟨m, hm⟩ := List.head?_eq_some_iff.mp hs
      rw [hm] at hfits
      exact hfits.2.1.1
    omega

/-- Where the front holds a reservation, or nothing is outstanding, one pass returns the run. -/
theorem RingInv.consumePass_front (h : RingInv capacity rb c) (hcap : capacity < 2 ^ 32)
    (hfront : c.front ≠ [] ∨ c.cut = none) :
    ∃ address, consumePass capacity rb rb.consumerBarrier =
        .ok (some (address, total size (readyRun c.items)), rb) ∧
      (0 < total size (readyRun c.items) → address = c.items.head?.map start) := by
  have hread := h.fits.read_lt
  have hwrite := h.fits.write_lt
  have hindex : getBufferIndex rb.producerBarrier = rb.producerBarrier :=
    getBufferIndex_of_lt (by omega)
  unfold consumePass
  rw [h.getStableNext hcap, ok_bind, hindex]
  by_cases hempty : c.front = []
  · have hcut := hfront.resolve_left fun hne ↦ hne hempty
    have hfits := h.fits
    simp only [Circular.Fits, hcut, hempty] at hfits
    have hitems : c.items = [] := by rw [Circular.items, hempty, hfits.2.2]; rfl
    have heq : rb.consumerBarrier = rb.producerBarrier := hfits.1
    rw [if_pos heq, hitems]
    exact ⟨none, rfl, by simp [readyRun]⟩
  obtain ⟨ready, hobserve, hlo, hfrontle, hbackle, hsome⟩ := h.observeWorkers hcap
  have hchain := h.fits.front_chain
  have hstop := h.fits.stop_le
  have hpos : ∀ r ∈ c.front, 0 < r.size := fun r hr ↦ h.pos r (List.mem_append_left c.back hr)
  -- reservations in front have at least one byte
  have hgrow : rb.consumerBarrier < c.cut.getD rb.producerBarrier := by
    rcases Nat.lt_or_eq_of_le hchain.le with hlt | heq
    · exact hlt
    · exact absurd ((heq ▸ hchain).eq_nil hpos) hempty
  have hend : min ready (c.cut.getD rb.producerBarrier) =
      rb.consumerBarrier + total size (readyFrom rb.consumerBarrier c.front) := by
    apply min_ready_eq hchain (by unfold maxOffset; omega) hfrontle
    rcases hsome with hmax | hblocked | ⟨hcut, -⟩
    · exact Or.inl hmax
    · exact Or.inr (Or.inl hblocked)
    · exact Or.inr (Or.inr (by rw [hcut, Option.getD_some]))
  have hrun := h.readyRun_eq hempty
  have hhead : c.items.head?.map start = some rb.consumerBarrier := by
    obtain ⟨r, l, hl⟩ := List.exists_cons_of_ne_nil hempty
    rw [hl] at hchain
    rw [Circular.items, hl]
    exact congrArg some hchain.1
  have hwrapped := h.fits.cut_isSome_iff
  refine ⟨some rb.consumerBarrier, ?_, fun _ ↦ hhead.symm⟩
  cases hcut : c.cut with
  -- the barrier is ahead of the consumer and ends the run at the latest
  | none =>
    rw [hcut] at hend hgrow hwrapped
    simp only [Option.getD_none, Option.isSome_none, Bool.false_eq_true, false_iff] at *
    rw [if_neg (by omega), hobserve, ok_bind, if_neg hwrapped, check_of (by omega), ok_bind,
      check_of (by omega), ok_bind, hend, hrun, Nat.add_sub_cancel_left]
    rfl
  -- the barrier has wrapped around, so that `_end` or the capacity does
  | some stop =>
    have hmin := min_endOf hcap hcut (by simpa [hcut] using hstop)
    rw [hcut] at hend hgrow hwrapped
    simp only [Option.getD_some, Option.isSome_some, true_iff] at *
    rw [if_neg (by omega), hobserve, ok_bind, if_pos hwrapped, h.end_, hmin, if_neg (by omega),
      check_of (by omega), ok_bind, check_of (by omega), ok_bind, check_of (by omega), ok_bind,
      hend, hrun, Nat.add_sub_cancel_left]
    rfl

/-- The ring buffer after consume has followed the barrier to 0. -/
def turned (rb : MpscRingBuffer n) : MpscRingBuffer n :=
  { rb with end_ := maxOffset, consumerBarrier := 0 }

/-- The invariant survives the turn once the reservation that cut the buffer is produced. -/
theorem RingInv.turned (h : RingInv capacity rb c) {stop : Nat} (hcut : c.cut = some stop)
    (hempty : c.front = []) (hback : ∀ r ∈ c.back, r.produced = false → r.start ≠ 0) :
    RingInv capacity rb.turned c.turn where
  fits := h.fits.turn hcut
  end_ := rfl
  wrapped stop hcut := by simp [Circular.turn] at hcut
  pos r hr := h.pos r (by simpa [Circular.items, Circular.turn, hempty] using hr)
  owner r hr := h.owner r (by simpa [Circular.items, Circular.turn, hempty] using hr)
  idle w hw hall := h.idle w hw fun r hr ↦
    hall r (by simpa [Circular.items, Circular.turn, hempty] using hr)
  front r hr hprod := by
    have hseen := h.back r hr hprod
    rw [publishedBack, hcut] at hseen
    simp only [hback r hr hprod, and_false, if_false] at hseen
    exact hseen
  back r hr := absurd hr List.not_mem_nil

/-- With nothing in front of the consumer, a pass either waits for the reservation at 0 or turns. -/
theorem RingInv.consumePass_turn (h : RingInv capacity rb c) (hcap : capacity < 2 ^ 32)
    {stop : Nat} (hcut : c.cut = some stop) (hempty : c.front = []) :
    ((∃ address, consumePass capacity rb rb.consumerBarrier = .ok (some (address, 0), rb)) ∧
        readyRun c.items = []) ∨
      (consumePass capacity rb rb.consumerBarrier = .ok (none, rb.turned) ∧
        ∀ r ∈ c.back, r.produced = false → r.start ≠ 0) := by
  have hread := h.fits.read_lt
  have hwrite := h.fits.write_lt
  have hfits := h.fits
  simp only [Circular.Fits, hcut, hempty] at hfits
  obtain ⟨hfrontchain, hbackchain, hlt, -, hstop⟩ := hfits
  have heq : rb.consumerBarrier = stop := hfrontchain
  have hmin := min_endOf hcap hcut hstop
  have hindex : getBufferIndex rb.producerBarrier = rb.producerBarrier :=
    getBufferIndex_of_lt (by omega)
  have hpub : ∀ r ∈ c.back, r.start = 0 → publishedBack capacity c r = stop := by
    intro r _ hzero
    rw [publishedBack, hcut]
    simp only [hzero, and_true]
    rw [if_pos (by omega)]
  obtain ⟨ready, hobserve, hlo, -, hbackle, hsome⟩ := h.observeWorkers hcap
  unfold consumePass
  rw [h.getStableNext hcap, ok_bind, hindex, if_neg (by omega), hobserve, ok_bind, if_pos hlt,
    h.end_, hmin]
  by_cases hblocked : ∃ r ∈ c.back, r.produced = false ∧ r.start = 0
  · -- the worker of the reservation at 0 still shows the offset from before the wrap-around
    left
    obtain ⟨r, hr, hprod, hzero⟩ := hblocked
    have hready := hbackle r hr hprod (by rw [hpub r hr hzero]; omega)
    rw [hpub r hr hzero] at hready
    have hmaxOffset : ready ≠ maxOffset := by unfold maxOffset; omega
    refine ⟨⟨some rb.consumerBarrier, ?_⟩, ?_⟩
    · rw [if_neg (fun hc ↦ hmaxOffset hc.1), check_of (by omega), ok_bind]
      dsimp only
      rw [check_of (by omega), ok_bind, check_of (by omega), ok_bind,
        show min ready stop - rb.consumerBarrier = 0 by omega]
      rfl
    · rw [Circular.items, hempty, List.nil_append]
      obtain ⟨s, l, hl⟩ := List.exists_cons_of_ne_nil (List.ne_nil_of_mem hr)
      rw [hl] at hbackchain hr ⊢
      have hfirst : r = s := by
        rcases List.mem_cons.mp hr with rfl | hmem
        · rfl
        · have := (hbackchain.2.mem_bounds hmem).1
          have := h.pos s (List.mem_append_right _ (by rw [hl]; exact List.mem_cons_self))
          omega
      rw [readyRun, readyFrom, ← hfirst, if_neg (by simp [hprod])]
  -- no worker holds the consumer back, so that it follows the barrier
  · right
    have hmax : ready = maxOffset := by
      rcases hsome with hmax | ⟨r, hr, -⟩ | ⟨-, hr⟩
      · exact hmax
      · rw [hempty] at hr
        exact absurd hr List.not_mem_nil
      · exact absurd hr hblocked
    refine ⟨?_, fun r hr hprod hzero ↦ hblocked ⟨r, hr, hprod, hzero⟩⟩
    rw [if_pos ⟨hmax, heq⟩]
    by_cases hend : endOf capacity c = maxOffset
    · rw [if_neg (not_not.mpr hend), MpscRingBuffer.turned, ← hend, ← h.end_]
      rfl
    · rw [if_pos hend]
      rfl

/-- consume returns the longest run of produced reservations from the oldest one on.  It may move
the consumer to 0, but no reservation. -/
theorem RingInv.consume (h : RingInv capacity rb c) (hcap : capacity < 2 ^ 32) :
    ∃ address rb' c', consume capacity rb =
        .ok ((address, total size (readyRun c.items)), rb') ∧
      (0 < total size (readyRun c.items) → address = c.items.head?.map start) ∧
      RingInv capacity rb' c' ∧ c'.items = c.items ∧ rb'.workers = rb.workers ∧
      readyRun c.items <+: c'.front := by
  unfold MpscRingBuffer.consume consumeLoop current
  by_cases hfront : c.front ≠ [] ∨ c.cut = none
  · obtain ⟨address, hpass, haddress⟩ := h.consumePass_front hcap hfront
    rw [hpass]
    refine ⟨address, rb, c, rfl, haddress, h, rfl, rfl, ?_⟩
    by_cases hempty : c.front = []
    · have hfits := h.fits
      simp only [Circular.Fits, hfront.resolve_left fun hne ↦ hne hempty] at hfits
      rw [Circular.items, hfits.2.2, List.append_nil]
      exact readyRun_initial c.front
    · rw [h.readyRun_eq hempty]
      exact readyFrom_initial _ _
  · push Not at hfront
    obtain ⟨hempty, hcut⟩ := hfront
    obtain ⟨stop, hcut⟩ := Option.ne_none_iff_exists'.mp hcut
    rcases h.consumePass_turn hcap hcut hempty with ⟨⟨address, hpass⟩, hrun⟩ | ⟨hpass, hback⟩
    · rw [hpass, hrun]
      exact ⟨address, rb, c, rfl, by simp, h, rfl, rfl, List.nil_prefix⟩
    -- the second pass finds what was the back in front of it
    · have hturned := h.turned hcut hempty hback
      have hitems : c.turn.items = c.items := by
        simp [Circular.items, Circular.turn, hempty]
      obtain ⟨address, hpass', haddress⟩ := hturned.consumePass_front hcap (Or.inr rfl)
      rw [hitems] at hpass' haddress
      rw [hpass]
      refine ⟨address, rb.turned, c.turn, ?_, haddress, hturned, hitems, rfl, ?_⟩
      · show consumeLoop capacity 1 rb.turned 0 = _
        unfold consumeLoop
        rw [show (0 : Nat) = rb.turned.consumerBarrier from rfl, hpass']
        rfl
      · rw [← hitems, Circular.items, show c.turn.back = [] from rfl, List.append_nil]
        exact readyRun_initial _

end Ustevent.MpscRingBuffer
