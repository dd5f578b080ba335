import Ustevent.Ring.Layout

/-!
# What each call does to a well laid out ring buffer

`RingInv` ties the words of the ring buffer to a layout of the unreleased reservations.  Each call
has one lemma: under the contract of its clients it returns, no assert fails, and the invariant holds
of the layout afterwards.
-/

namespace Ustevent.MpscRingBuffer

open Reasoning Reservation

variable {n : Nat}

structure RingInv (capacity : Nat) (rb : MpscRingBuffer n) (c : Circular (Reservation n)) : Prop where
  fits : c.Fits start size capacity rb.consumerBarrier rb.producerBarrier
  end_ : rb.end_ = endOf capacity c
  wrapped : ∀ stop, c.cut = some stop → stop < capacity → 0 < rb.producerBarrier
  pos : ∀ r ∈ c.items, 0 < r.size
  owner : ∀ r ∈ c.items, r.produced = false → rb.registered r.owner = true
  idle : ∀ w, rb.registered w = true → (∀ r ∈ c.items, r.owner = w → r.produced = true) →
    (rb.workers w).seen = maxOffset
  front : ∀ r ∈ c.front, r.produced = false → (rb.workers r.owner).seen = r.start
  back : ∀ r ∈ c.back, r.produced = false →
    (rb.workers r.owner).seen = publishedBack capacity c r

variable {capacity : Nat} {rb : MpscRingBuffer n} {c : Circular (Reservation n)}

theorem ringInv_create (h : 0 < capacity) :
    RingInv capacity (create n) (Circular.empty : Circular (Reservation n)) where
  fits := Circular.fits_empty h
  end_ := rfl
  wrapped stop hcut := by simp [Circular.empty] at hcut
  pos r hr := absurd hr List.not_mem_nil
  owner r hr := absurd hr List.not_mem_nil
  idle w hw := by simp [registered, create] at hw
  front r hr := absurd hr List.not_mem_nil
  back r hr := absurd hr List.not_mem_nil

theorem RingInv.publishedBack_lt (h : RingInv capacity rb c) (hcap : capacity < 2 ^ 32)
    {r : Reservation n} (hr : r ∈ c.back) : publishedBack capacity c r < 2 ^ 32 := by
  have hend := h.fits.end_le (List.mem_append_right c.front hr)
  unfold publishedBack
  split
  · split <;> omega
  · omega

theorem RingInv.seen_cases (h : RingInv capacity rb c) {w : Fin n}
    (hw : rb.registered w = true) :
    (rb.workers w).seen = maxOffset ∨
      (∃ r ∈ c.front, r.produced = false ∧ r.owner = w ∧ (rb.workers w).seen = r.start) ∨
      (∃ r ∈ c.back, r.produced = false ∧ r.owner = w ∧
        (rb.workers w).seen = publishedBack capacity c r) := by
  -- a worker shows something while it holds a reservation only
  by_cases hidle : ∀ r ∈ c.items, r.owner = w → r.produced = true
  · exact Or.inl (h.idle w hw hidle)
  · push Not at hidle
    obtain ⟨r, hmem, rfl, hprod⟩ := hidle
    have hprod : r.produced = false := by simpa using hprod
    rcases List.mem_append.mp hmem with hf | hb
    · exact Or.inr (Or.inl ⟨r, hf, hprod, rfl, h.front r hf hprod⟩)
    · exact Or.inr (Or.inr ⟨r, hb, hprod, rfl, h.back r hb hprod⟩)

theorem RingInv.seen_unlocked (h : RingInv capacity rb c) (hcap : capacity < 2 ^ 32) {w : Fin n}
    (hw : rb.registered w = true) : isLocked (rb.workers w).seen = false := by
  rcases h.seen_cases hw with hmax | ⟨r, hr, -, -, heq⟩ | ⟨r, hr, -, -, heq⟩
  · rw [hmax, isLocked_maxOffset]
  · have := h.fits.end_le (List.mem_append_left c.back hr)
    rw [heq, isLocked_of_lt (by omega)]
  · have := h.publishedBack_lt hcap hr
    rw [heq, isLocked_of_lt (by omega)]

theorem RingInv.getStableNext (h : RingInv capacity rb c) (hcap : capacity < 2 ^ 32) :
    getStableNext capacity rb = .ok rb.producerBarrier := by
  have hlt := h.fits.write_lt
  rw [MpscRingBuffer.getStableNext, isLocked_of_lt (by omega),
    check_of (by rw [getBufferIndex_of_lt (by omega)]; exact hlt)]
  rfl

/-! ## registerWorker and unregisterWorker -/

theorem RingInv.setWorker_idle (h : RingInv capacity rb c) {w : Fin n} {worker : Worker}
    (hidle : ∀ r ∈ c.items, r.owner = w → r.produced = true)
    (hseen : worker.registered = true → worker.seen = maxOffset) :
    RingInv capacity (rb.setWorker w worker) c := by
  -- an idle worker owns no reservation whose progress its word shows
  have hne : ∀ r ∈ c.items, r.produced = false → r.owner ≠ w := by
    intro r hr hprod heq
    have := hidle r hr heq
    simp [hprod] at this
  have hsame : ∀ r ∈ c.items, r.produced = false →
      (rb.setWorker w worker).workers r.owner = rb.workers r.owner := fun r hr hprod ↦
    Function.update_of_ne (hne r hr hprod) _ _
  refine ⟨h.fits, h.end_, h.wrapped, h.pos, ?_, ?_, ?_, ?_⟩
  · intro r hr hprod
    rw [registered, hsame r hr hprod]
    exact h.owner r hr hprod
  · intro v hv hall
    by_cases heq : v = w
    · subst heq
      simp only [registered, setWorker, Function.update_self] at hv ⊢
      exact hseen hv
    · simp only [registered, setWorker, Function.update_of_ne heq] at hv ⊢
      exact h.idle v hv hall
  · intro r hr hprod
    rw [hsame r (List.mem_append_left c.back hr) hprod]
    exact h.front r hr hprod
  · intro r hr hprod
    rw [hsame r (List.mem_append_right c.front hr) hprod]
    exact h.back r hr hprod

/-! ## acquire -/

/-- A reservation made in one of the four ways, its worker showing the old index. -/
theorem RingInv.reserve (h : RingInv capacity rb c) {rb' : MpscRingBuffer n}
    {c' : Circular (Reservation n)} {r : Reservation n} {write : Nat}
    (hr : Circular.Reserves start size capacity rb.consumerBarrier rb.producerBarrier c r write c')
    (hpos : 0 < r.size) (hprod : r.produced = false) (hreg : rb.registered r.owner = true)
    (hidle : ∀ s ∈ c.items, s.owner = r.owner → s.produced = true)
    (hread : rb'.consumerBarrier = rb.consumerBarrier) (hwrite : rb'.producerBarrier = write)
    (hend : rb'.end_ = endOf capacity c')
    (hworkers : rb'.workers =
      Function.update rb.workers r.owner { rb.workers r.owner with seen := rb.producerBarrier }) :
    RingInv capacity rb' c' := by
  have hitems := h.fits.reserves_items hr
  have hregistered : ∀ w, rb'.registered w = rb.registered w := by
    intro w
    by_cases heq : w = r.owner
    · rw [registered, hworkers, heq, Function.update_self, registered]
    · rw [registered, hworkers, Function.update_of_ne heq, registered]
  have hself : (rb'.workers r.owner).seen = rb.producerBarrier := by
    rw [hworkers, Function.update_self]
  have hother : ∀ s ∈ c.items, s.produced = false → rb'.workers s.owner = rb.workers s.owner := by
    intro s hs hsprod
    rw [hworkers, Function.update_of_ne]
    intro heq
    have := hidle s hs heq
    simp [hsprod] at this
  refine ⟨?_, hend, ?_, ?_, ?_, ?_, ?_, ?_⟩
  · rw [hread, hwrite]
    exact h.fits.reserves hr
  · intro stop hcut hlt
    rw [hwrite]
    cases hr with
    | ahead hcut' | toEnd hcut' => simp_all
    | fromZero => exact hpos
    | behind => omega
  · intro s hs
    rw [hitems, List.mem_append, List.mem_singleton] at hs
    rcases hs with hs | rfl
    · exact h.pos s hs
    · exact hpos
  · intro s hs hsprod
    rw [hregistered]
    rw [hitems, List.mem_append, List.mem_singleton] at hs
    rcases hs with hs | rfl
    · exact h.owner s hs hsprod
    · exact hreg
  · intro w hw hall
    rw [hitems] at hall
    -- the owner of the new reservation is not idle any more
    have hne : w ≠ r.owner := by
      intro heq
      have := hall r (by simp) heq.symm
      simp [hprod] at this
    rw [hworkers, Function.update_of_ne hne]
    exact h.idle w (hregistered w ▸ hw) fun s hs ↦ hall s (List.mem_append_left _ hs)
  · have hold : ∀ s ∈ c.front, s.produced = false → (rb'.workers s.owner).seen = s.start :=
      fun s hs hsprod ↦ by
        rw [hother s (List.mem_append_left _ hs) hsprod]
        exact h.front s hs hsprod
    intro s hs hsprod
    cases hr with
    | ahead _ hstart | toEnd _ hstart =>
      rcases List.mem_append.mp hs with hs | hs
      · exact hold s hs hsprod
      · rw [List.mem_singleton.mp hs, hself, hstart]
    | fromZero | behind => exact hold s hs hsprod
  · intro s hs hsprod
    cases hr with
    | ahead hcut | toEnd hcut =>
      -- without a cut there is no back
      have hfits := h.fits
      simp only [Circular.Fits, hcut] at hfits
      simp [hfits.2.2] at hs
    | fromZero _ hstart hfit hlt =>
      have := h.fits.write_lt
      rw [List.mem_singleton.mp hs, hself, publishedBack]
      simp only [hstart, and_true]
      rw [if_pos this]
    | behind stop hcut hstart =>
      rcases List.mem_append.mp hs with hs | hs
      · rw [hother s (List.mem_append_right _ hs) hsprod, h.back s hs hsprod]
        simp only [publishedBack, hcut]
      · rw [List.mem_singleton.mp hs, hself, publishedBack]
        simp only [hstart]
        rw [if_neg]
        intro hc
        have := h.wrapped stop hcut hc.1
        omega

theorem storeSeen_storeSeen (rb : MpscRingBuffer n) (w : Fin n) (u v : Nat) :
    (rb.storeSeen w u).storeSeen w v = rb.storeSeen w v := by
  simp only [storeSeen, setWorker, Function.update_self, Function.update_idem]

theorem storeSeen_self (rb : MpscRingBuffer n) (w : Fin n) :
    rb.storeSeen w (rb.workers w).seen = rb := by
  simp only [storeSeen, setWorker, Function.update_eq_self]

theorem storeSeen_registered_of_eq {rb' : MpscRingBuffer n} {w : Fin n} {v : Nat}
    (hworkers : rb'.workers = Function.update rb.workers w { rb.workers w with seen := v })
    (u : Fin n) : rb'.registered u = rb.registered u := by
  by_cases heq : u = w
  · rw [registered, hworkers, heq, Function.update_self, registered]
  · rw [registered, hworkers, Function.update_of_ne heq, registered]

/-- The end that acquire writes, or leaves, is the one of the new layout. -/
theorem Admits.endOf_reserveAt {next written size target : Nat} {w : Fin n}
    (hcap : capacity < 2 ^ 32) (hsize : size ≤ capacity)
    (hfits : c.Fits start Reservation.size capacity written next)
    (h : Admits capacity next written size target) :
    endOf capacity (reserveAt capacity next target c ⟨w, startOf next target, size, false⟩) =
      if isLocked target then next else endOf capacity c := by
  have hlocked := h.isLocked_iff hcap hsize
  have hwrite := hfits.write_lt
  have hwrapped := hfits.cut_isSome_iff
  cases hcut : c.cut with
  | none =>
    by_cases hl : isLocked target = true
    · simp only [endOf, reserveAt, hcut, hl, if_true, hwrite]
    · simp only [endOf, reserveAt, hcut, hl, if_false, Bool.false_eq_true]
      by_cases hz : target = 0
      · simp only [if_pos hz, Nat.lt_irrefl, if_false]
      · simp only [if_neg hz]
  | some stop =>
    have hl : isLocked target = false := by
      rw [hcut] at hwrapped
      simp only [Option.isSome_some, true_iff] at hwrapped
      rw [Bool.eq_false_iff, ne_eq, hlocked]
      unfold Admits at h
      omega
    simp [endOf, reserveAt, hcut, hl]

/-- An acquire that returns false leaves everything as it was; one that succeeds adds the youngest
reservation. -/
theorem RingInv.acquire (h : RingInv capacity rb c) (hcap : capacity < 2 ^ 32) {w : Fin n}
    {size : Nat} (hreg : rb.registered w = true)
    (hidle : ∀ r ∈ c.items, r.owner = w → r.produced = true) (hsize : 1 ≤ size) :
    acquire capacity rb w size = .ok (none, rb) ∨
      ∃ a rb' c', acquire capacity rb w size = .ok (some a, rb') ∧ RingInv capacity rb' c' ∧
        c'.items = c.items ++ [⟨w, a, size, false⟩] ∧ c.front <+: c'.front ∧
        ∀ v, rb'.registered v = rb.registered v := by
  have hseen := h.idle w hreg hidle
  have hwrite := h.fits.write_lt
  have hread := h.fits.read_lt
  have hindex : getBufferIndex rb.producerBarrier = rb.producerBarrier :=
    getBufferIndex_of_lt (by omega)
  unfold MpscRingBuffer.acquire
  by_cases hbig : size > capacity
  · exact Or.inl (if_pos hbig)
  rw [if_neg hbig, check_of hseen, ok_bind, h.getStableNext hcap, ok_bind, hindex]
  dsimp only
  rw [check_of hwrite, ok_bind]
  rw [show (rb.storeSeen w (lockWrapBit rb.producerBarrier)).current = rb.consumerBarrier from rfl]
  cases htarget : acquireTarget capacity rb.producerBarrier size rb.consumerBarrier with
  | none =>
    -- the word of the worker is what it was before the call
    left
    rw [storeSeen_storeSeen, ← hseen, storeSeen_self]
    rfl
  | some target =>
    right
    have hadmits := acquireTarget_admits hcap hwrite (by omega) hread htarget
    have hlocked := hadmits.isLocked_iff hcap (by omega)
    have hwrapped := h.fits.cut_isSome_iff
    have hr := hadmits.reserves (w := w) hcap (by omega) hsize h.fits
    have hitems := h.fits.reserves_items hr
    have hend := hadmits.endOf_reserveAt (w := w) hcap (by omega) h.fits
    have hkeep := hr.front_initial
    have hworkers : ∀ rb₁ : MpscRingBuffer n, rb₁.workers = (rb.storeSeen w
        (lockWrapBit rb.producerBarrier)).workers → (rb₁.storeSeen w
          (unlockWrapBit (rb₁.workers w).seen)).workers =
        Function.update rb.workers w { rb.workers w with seen := rb.producerBarrier } := by
      intro rb₁ hrb₁
      rw [storeSeen_workers, hrb₁, storeSeen_workers, Function.update_self, Function.update_idem,
        unlockWrapBit_lockWrapBit (by omega)]
    dsimp only
    by_cases hl : isLocked target = true
    · -- the barrier wraps around and the buffer is cut off at the old index
      have hover := hlocked.mp hl
      have hlap : rb.consumerBarrier ≤ rb.producerBarrier ∧ size < rb.consumerBarrier ∧
          target = lockWrapBit size := by
        unfold Admits at hadmits
        omega
      have hcut : c.cut = none := by
        rw [← Option.not_isSome_iff_eq_none, hwrapped]
        omega
      have hendmax : rb.end_ = maxOffset := by
        rw [h.end_, endOf, hcut]
      have hindex' : getBufferIndex target = size := by
        rw [hlap.2.2, getBufferIndex_lockWrapBit (by omega)]
      simp only [startOf, if_pos hl] at hr hitems hend hkeep
      rw [if_pos hl, check_of, ok_bind, check_of, ok_bind, check_of, ok_bind]
      · refine ⟨0, _, _, rfl, h.reserve hr hsize rfl hreg hidle rfl ?_ hend.symm (hworkers _ rfl),
          hitems, hkeep, fun v ↦ ?_⟩
        · show unlockWrapBit target = getBufferIndex target
          rw [hindex', hlap.2.2]
          exact unlockWrapBit_lockWrapBit (by omega)
        · exact storeSeen_registered_of_eq (hworkers _ rfl) v
      · rw [hindex']
        omega
      · exact hendmax
      · exact hlap.1
    -- the reservation starts at the old index
    · have hnover : rb.producerBarrier + size ≤ capacity := by
        rw [hlocked] at hl
        omega
      have hindex' : getBufferIndex target = target := by
        apply getBufferIndex_of_lt
        unfold Admits at hadmits
        omega
      simp only [startOf, if_neg hl] at hr hitems hend hkeep
      rw [if_neg hl, check_of, ok_bind]
      · refine ⟨rb.producerBarrier, _, _, rfl, h.reserve hr hsize rfl hreg hidle rfl hindex'.symm
          (h.end_.trans hend.symm) (hworkers _ rfl), hitems, hkeep, fun v ↦ ?_⟩
        exact storeSeen_registered_of_eq (hworkers _ rfl) v
      · rw [hindex']
        unfold Admits at hadmits
        omega

/-! ## produce -/

theorem RingInv.produce (h : RingInv capacity rb c) (hcap : capacity < 2 ^ 32) {w : Fin n}
    (hholds : ∃ r ∈ c.items, r.owner = w ∧ r.produced = false) :
    produce rb w = .ok (rb.storeSeen w maxOffset) ∧
      RingInv capacity (rb.storeSeen w maxOffset) (c.map (markProduced w)) := by
  obtain ⟨r, hr, rfl, hprod⟩ := hholds
  have hreg : (rb.workers r.owner).registered = true := h.owner r hr hprod
  have hseen : (rb.workers r.owner).seen ≠ maxOffset := by
    have hend := h.fits.end_le hr
    unfold maxOffset
    rcases List.mem_append.mp hr with hf | hb
    · rw [h.front r hf hprod]
      omega
    · have := h.publishedBack_lt hcap hb
      rw [h.back r hb hprod]
      omega
  have hitems : (c.map (markProduced r.owner)).items = c.items.map (markProduced r.owner) := by
    simp only [Circular.items, Circular.map, List.map_append]
  refine ⟨?_, ?_⟩
  · rw [MpscRingBuffer.produce, check_of hreg, ok_bind, check_of hseen, ok_bind]
    rfl
  -- an unproduced reservation of the new layout was one before and has another owner
  have hback : ∀ l : List (Reservation n), ∀ s ∈ l.map (markProduced r.owner),
      s.produced = false → s ∈ l ∧ s.owner ≠ r.owner := by
    intro l s hs hsprod
    obtain ⟨t, ht, rfl⟩ := List.mem_map.mp hs
    have hne := (markProduced_produced_eq_false.mp hsprod).1
    rw [markProduced_owner]
    exact ⟨by rwa [markProduced, if_neg hne], hne⟩
  have hother : ∀ v, v ≠ r.owner → (rb.storeSeen r.owner maxOffset).workers v = rb.workers v :=
    fun v hv ↦ Function.update_of_ne hv _ _
  refine ⟨h.fits.map (markProduced_start _) (markProduced_size _), ?_, ?_, ?_, ?_, ?_, ?_, ?_⟩
  · exact h.end_
  · exact h.wrapped
  · intro s hs
    rw [hitems] at hs
    obtain ⟨t, ht, rfl⟩ := List.mem_map.mp hs
    rw [markProduced_size]
    exact h.pos t ht
  · intro s hs hsprod
    rw [hitems] at hs
    obtain ⟨hmem, hne⟩ := hback _ s hs hsprod
    rw [registered, hother _ hne]
    exact h.owner s hmem hsprod
  · intro v hv hall
    by_cases heq : v = r.owner
    · rw [heq, storeSeen_workers, Function.update_self]
    · rw [registered, hother v heq] at hv
      rw [hother v heq]
      refine h.idle v hv fun s hs howner ↦ ?_
      have := hall (markProduced r.owner s) (by rw [hitems]; exact List.mem_map_of_mem hs)
        ((markProduced_owner _ _).trans howner)
      rwa [markProduced, if_neg fun hc ↦ heq (howner ▸ hc)] at this
  · intro s hs hsprod
    obtain ⟨hmem, hne⟩ := hback _ s hs hsprod
    rw [hother _ hne]
    exact h.front s hmem hsprod
  · intro s hs hsprod
    obtain ⟨hmem, hne⟩ := hback _ s hs hsprod
    rw [hother _ hne]
    exact h.back s hmem hsprod

/-! ## release -/

theorem RingInv.stop_le_end (h : RingInv capacity rb c) (hcap : capacity < 2 ^ 32) :
    rb.consumerBarrier ≤ rb.end_ := by
  have hread := h.fits.read_lt
  have hchain := h.fits.front_chain.le
  rw [h.end_]
  unfold endOf maxOffset
  split
  · rename_i stop hcut
    rw [hcut, Option.getD_some] at hchain
    split <;> omega
  · omega

theorem RingInv.release (h : RingInv capacity rb c) (hcap : capacity < 2 ^ 32) {k : Nat}
    (hk : k ≤ c.front.length) (hprod : ∀ r ∈ c.front.take k, r.produced = true) :
    ∃ rb' c', release capacity rb (total size (c.items.take k)) = .ok rb' ∧
      RingInv capacity rb' c' ∧ c'.items = c.items.drop k ∧ rb'.workers = rb.workers ∧
      (c'.front = c.front.drop k ∨ c.front.drop k = []) := by
  have hread := h.fits.read_lt
  have htake : c.items.take k = c.front.take k := List.take_append_of_le_length hk
  have hle : rb.consumerBarrier + total size (c.front.take k) ≤ capacity :=
    Nat.le_trans (h.fits.front_chain.drop k).le h.fits.stop_le
  -- the reservations that are released are produced, so that no worker shows them
  have hidle : ∀ w, (∀ r ∈ c.items.drop k, r.owner = w → r.produced = true) →
      ∀ r ∈ c.items, r.owner = w → r.produced = true := by
    intro w hall r hr howner
    rw [← List.take_append_drop k c.items, htake] at hr
    rcases List.mem_append.mp hr with ht | hd
    · exact hprod r ht
    · exact hall r hd howner
  unfold MpscRingBuffer.release current
  rw [htake]
  dsimp only
  rw [Nat.mod_eq_of_lt (by omega), check_of (by omega), ok_bind,
    check_of (h.stop_le_end hcap), ok_bind, check_of hle, ok_bind]
  by_cases hend : rb.consumerBarrier + total size (c.front.take k) = capacity
  · -- the last byte of the buffer is free: the consumer goes on at 0
    obtain ⟨hfits, hnil⟩ :=
      h.fits.release_to_end (fun r hr ↦ h.pos r (List.mem_append_left _ hr)) k hend
    have hitems : c.turn.items = c.items.drop k := by
      rw [Circular.items, Circular.items, List.drop_append_of_le_length hk, hnil]
      simp only [Circular.turn, List.append_nil, List.nil_append]
    have hstop : ∀ stop, c.cut = some stop → stop = capacity := by
      intro stop hcut
      have hchain := (h.fits.front_chain.drop k).le
      have := h.fits.stop_le
      rw [hcut, Option.getD_some] at this hchain
      omega
    rw [if_pos hend]
    refine ⟨_, c.turn, rfl, ⟨hfits, ?_, ?_, ?_, ?_, ?_, ?_, ?_⟩, hitems, rfl, Or.inr hnil⟩
    · show rb.end_ = maxOffset
      rw [h.end_, endOf]
      split
      · rename_i stop hcut
        rw [hstop stop hcut, if_neg (Nat.lt_irrefl _)]
      · rfl
    · intro stop hcut
      simp [Circular.turn] at hcut
    · exact fun r hr ↦ h.pos r (List.mem_of_mem_drop (hitems ▸ hr))
    · exact fun r hr ↦ h.owner r (List.mem_of_mem_drop (hitems ▸ hr))
    · exact fun w hw hall ↦ h.idle w hw (hidle w (hitems ▸ hall))
    · intro r hr hrprod
      have hseen := h.back r hr hrprod
      rw [publishedBack] at hseen
      split at hseen
      · rename_i stop hcut
        rw [if_neg (by have := hstop stop hcut; omega)] at hseen
        exact hseen
      · exact hseen
    · exact fun r hr ↦ absurd hr List.not_mem_nil
  · have hitems : (c.release k).items = c.items.drop k :=
      (List.drop_append_of_le_length hk).symm
    rw [if_neg hend]
    refine ⟨_, c.release k, rfl, ⟨h.fits.release k (by omega), h.end_, h.wrapped, ?_, ?_, ?_, ?_, ?_⟩,
      hitems, rfl, Or.inl rfl⟩
    · exact fun r hr ↦ h.pos r (List.mem_of_mem_drop (hitems ▸ hr))
    · exact fun r hr ↦ h.owner r (List.mem_of_mem_drop (hitems ▸ hr))
    · exact fun w hw hall ↦ h.idle w hw (hidle w (hitems ▸ hall))
    · exact fun r hr ↦ h.front r (List.mem_of_mem_drop hr)
    · exact h.back

end Ustevent.MpscRingBuffer
