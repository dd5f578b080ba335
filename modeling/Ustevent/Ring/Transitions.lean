import Ustevent.Ring.Calls
import Ustevent.Ring.Interference

/-!
# The steps that change the shared words

For each kind of step: the words still agree with the layout, and the step keeps what the other
workers and the consumer rely on.
-/

namespace Ustevent.MpscRingBuffer

open Reasoning Reservation View

variable {n : Nat} {capacity : Nat} {g : View n} {w : Fin n}

/-! ## A store to the word of one worker -/

/-- `ring` differs from the ring of the view in the word of worker `w` only. -/
structure Quiet (g : View n) (w : Fin n) (ring : MpscRingBuffer n) : Prop where
  barrier : ring.producerBarrier = g.ring.producerBarrier
  end_ : ring.end_ = g.ring.end_
  read : ring.consumerBarrier = g.ring.consumerBarrier
  others : ∀ v, v ≠ w → ring.workers v = g.ring.workers v
  registered : g.ring.registered w = true → ring.registered w = true

theorem quiet_storeSeen (g : View n) (w : Fin n) (v : Nat) : Quiet g w (g.ring.storeSeen w v) where
  barrier := rfl
  end_ := rfl
  read := rfl
  others _ hne := Function.update_of_ne hne _ _
  registered h := (storeSeen_registered_of_eq rfl w).trans h

theorem Quiet.core {ring : MpscRingBuffer n} (h : Quiet g w ring) (hcore : g.Core capacity) :
    View.Core capacity { g with ring := ring } where
  fits := by
    show Circular.Fits _ _ _ ring.consumerBarrier (getBufferIndex ring.producerBarrier) _
    rw [h.read, h.barrier]
    exact hcore.fits
  barrier := by
    show ring.producerBarrier = getBufferIndex ring.producerBarrier ∨
      ring.producerBarrier = lockWrapBit (getBufferIndex ring.producerBarrier)
    rw [h.barrier]
    exact hcore.barrier
  wrapped stop hcut hlt := by
    show 0 < getBufferIndex ring.producerBarrier
    rw [h.barrier]
    exact hcore.wrapped stop hcut hlt
  pos := hcore.pos
  granted := hcore.granted
  produced := hcore.produced

theorem Quiet.rely {ring : MpscRingBuffer n} (h : Quiet g w ring) {v : Fin n} (hne : v ≠ w) :
    Rely capacity g { g with ring := ring } v where
  worker := h.others v hne
  follows := .refl _
  snapshot seen lap hs := by
    refine ⟨hs.lt, hs.le, fun heq ↦ ?_⟩
    show isLocked ring.producerBarrier = false ∧ seen ≤ getBufferIndex ring.producerBarrier
    rw [h.barrier]
    exact hs.same heq
  target size seen target lap _ _ ht hlap hbarrier := by
    show Admits capacity seen ring.consumerBarrier size target
    rw [h.read]
    exact ht hlap (h.barrier.symm.trans hbarrier)
  wraps seen target hw := ⟨hw.wrapper, h.barrier.trans hw.barrier, hw.locked, hw.cut, hw.lt⟩
  wrapped target hw := by
    have ⟨stop, hlt, hcut, hend⟩ := hw.cut
    exact ⟨hw.wrapper, h.barrier.trans hw.barrier, hw.locked, stop, hlt, hcut, h.end_.trans hend⟩

theorem Quiet.advances {ring : MpscRingBuffer n} (h : Quiet g w ring) :
    Advances capacity g { g with ring := ring } where
  read := h.read
  granted := rfl
  registered v hv := by
    by_cases heq : v = w
    · exact heq ▸ h.registered (heq ▸ hv)
    · show (ring.workers v).registered = true
      rw [h.others v heq]
      exact hv
  length := Nat.le_refl _
  sizes _ _ := rfl
  front _ hr _ := Or.inl hr
  cut _ hcut := hcut
  lock _ hfree := by
    show isLocked ring.producerBarrier = false ∧ _
    rw [h.barrier]
    exact ⟨hfree, h.end_⟩
  back _ _ _ _ hr _ := Or.inl hr
  empty _ hempty := hempty
  end_ hend hfree := by
    show ring.end_ = _
    rw [h.end_]
    apply hend
    show isLocked g.ring.producerBarrier = false
    rw [← h.barrier]
    exact hfree

/-! ## The compare-exchange of acquire -/

theorem Follows.reserves {read write write' : Nat} {c c' : Circular (Reservation n)}
    {r : Reservation n} (hfits : c.Fits start size capacity read write)
    (hr : Circular.Reserves start size capacity read write c r write' c') (hne : r.owner ≠ w) :
    Follows capacity w c c' where
  stays s hs _ _ := by
    rw [hfits.reserves_items hr]
    exact List.mem_append_left _ hs
  front s hs howner _ := by
    cases hr with
    | ahead | toEnd =>
      cases List.mem_append.mp hs with
      | inl hold => exact Or.inl hold
      | inr hnew => exact absurd (List.mem_singleton.mp hnew ▸ howner) hne
    | fromZero | behind => exact Or.inl hs
  back s hs howner _ := by
    cases hr with
    | ahead hcut | toEnd hcut =>
      refine ⟨hs, ?_⟩
      simp only [publishedBack, hcut, Nat.lt_irrefl, false_and, if_false]
    | fromZero => exact absurd (List.mem_singleton.mp hs ▸ howner) hne
    | behind stop hcut =>
      cases List.mem_append.mp hs with
      | inl hold =>
        refine ⟨hold, ?_⟩
        simp only [publishedBack, hcut]
      | inr hnew => exact absurd (List.mem_singleton.mp hnew ▸ howner) hne

theorem shows_of_reserves (g' : View n) {r : Reservation n} {write' : Nat}
    (hcore : g.Core capacity) (hclear : g.Clear r.owner) (hprod : r.produced = false)
    (hr : Circular.Reserves start size capacity g.read g.write g.layout r write' g'.layout) :
    g'.Shows capacity r.owner g.write where
  holds := by
    refine ⟨r, ?_, rfl, hprod⟩
    rw [hcore.fits.reserves_items hr]
    exact List.mem_append_right _ (List.mem_singleton.mpr rfl)
  front s hs howner hsprod := by
    have hold : s ∉ g.layout.front := by
      intro hmem
      have := hclear s (List.mem_append_left _ hmem) howner
      simp [hsprod] at this
    generalize g'.layout = c' at hr hs
    cases hr with
    | ahead hcut hstart | toEnd hcut hstart =>
      cases List.mem_append.mp hs with
      | inl hmem => exact absurd hmem hold
      | inr hnew => exact List.mem_singleton.mp hnew ▸ hstart.symm
    | fromZero | behind => exact absurd hs hold
  back s hs howner hsprod := by
    have hold : s ∉ g.layout.back := by
      intro hmem
      have := hclear s (List.mem_append_right _ hmem) howner
      simp [hsprod] at this
    generalize g'.layout = c' at hr hs
    cases hr with
    | ahead | toEnd => exact absurd hs hold
    | fromZero hcut hstart =>
      rw [List.mem_singleton.mp hs, publishedBack]
      simp only [hstart, and_true]
      rw [if_pos hcore.fits.write_lt]
    | behind stop hcut hstart =>
      cases List.mem_append.mp hs with
      | inl hmem => exact absurd hmem hold
      | inr hnew =>
        rw [List.mem_singleton.mp hnew, publishedBack]
        simp only [hstart]
        rw [if_neg]
        intro hzero
        have := hcore.wrapped stop hcut hzero.1
        omega

namespace View

/-- The view after worker `w` has moved the barrier from `seen` to `target`. -/
def exchange (capacity : Nat) (g : View n) (w : Fin n) (size seen target : Nat) : View n where
  ring := { g.ring with producerBarrier := target }
  layout := reserveAt capacity seen target g.layout ⟨w, startOf seen target, size, false⟩
  granted := g.granted
  wraps := if wrapsAround target then g.wraps + 1 else g.wraps
  wrapper := if isLocked target then some w else g.wrapper

end View

theorem Admits.wrapsAround_eq_false {next written size target : Nat} (hcap : capacity < 2 ^ 32)
    (hle : size ≤ capacity) (h : Admits capacity next written size target)
    (hw : wrapsAround target = false) : target = next + size ∧ next + size < capacity := by
  rw [wrapsAround, Bool.or_eq_false_iff, beq_eq_false_iff_ne] at hw
  have hlocked := h.isLocked_iff hcap hle
  rw [hw.1] at hlocked
  simp only [Bool.false_eq_true, false_iff] at hlocked
  unfold Admits at h
  omega

/-- What the step lemmas of the compare-exchange share: it found the barrier unlocked, and the
target is one that the consumer offset admits. -/
structure Exchanges (capacity : Nat) (g : View n) (size target : Nat) : Prop where
  core : g.Core capacity
  cap : capacity < 2 ^ 32
  pos : 1 ≤ size
  le : size ≤ capacity
  free : isLocked g.barrier = false
  admits : Admits capacity g.write g.read size target

section

variable {size target : Nat}

theorem Exchanges.reserves (h : Exchanges capacity g size target) (w : Fin n) :
    Circular.Reserves start Reservation.size capacity g.read g.write g.layout
      ⟨w, startOf g.write target, size, false⟩ (getBufferIndex target)
      (g.exchange capacity w size g.write target).layout :=
  h.admits.reserves h.cap h.le h.pos h.core.fits

theorem Exchanges.core_exchange (h : Exchanges capacity g size target) (w : Fin n) :
    (g.exchange capacity w size g.write target).Core capacity := by
  have hr := h.reserves w
  have hitems := h.core.fits.reserves_items hr
  have ⟨l, hfront⟩ := hr.front_initial
  exact
  { fits := h.core.fits.reserves hr
    barrier := by
      show target = getBufferIndex target ∨ target = lockWrapBit (getBufferIndex target)
      have hcap := h.cap
      have hle := h.le
      have hadmits := h.admits
      unfold Admits at hadmits
      by_cases hl : target = lockWrapBit size
      · right
        rw [hl, getBufferIndex_lockWrapBit (by omega)]
      · left
        rw [getBufferIndex_of_lt (by omega)]
    wrapped := by
      intro stop hcut hlt
      show 0 < getBufferIndex target
      have hpos := h.pos
      generalize (g.exchange capacity w size g.write target).layout = c' at hr hcut
      generalize getBufferIndex target = write' at hr
      cases hr with
      | ahead => contradiction
      | toEnd =>
        rw [Option.some.injEq] at hcut
        omega
      | fromZero => exact hpos
      | behind => exact Nat.add_pos_right _ hpos
    pos := by
      intro r hr
      rw [hitems] at hr
      cases List.mem_append.mp hr with
      | inl hold => exact h.core.pos r hold
      | inr hnew => exact List.mem_singleton.mp hnew ▸ h.pos
    granted := by
      rw [← hfront, List.length_append]
      exact Nat.le_trans h.core.granted (Nat.le_add_right _ _)
    produced := by
      rw [← hfront]
      show ∀ r ∈ (g.layout.front ++ l).take g.granted, r.produced = true
      rw [List.take_append_of_le_length h.core.granted]
      exact h.core.produced }

theorem Exchanges.rely (h : Exchanges capacity g size target) {v : Fin n} (hne : v ≠ w) :
    Rely capacity g (g.exchange capacity w size g.write target) v where
  worker := rfl
  follows := .reserves h.core.fits (h.reserves w) hne.symm
  snapshot seen lap hs := by
    have hle := hs.le
    by_cases hw : wrapsAround target = true
    · have hwraps : (g.exchange capacity w size g.write target).wraps = g.wraps + 1 := if_pos hw
      exact ⟨hs.lt, by omega, fun heq ↦ by omega⟩
    · have hwraps : (g.exchange capacity w size g.write target).wraps = g.wraps := if_neg hw
      have ⟨htarget, hlt⟩ := h.admits.wrapsAround_eq_false h.cap h.le (by simpa using hw)
      have hcap := h.cap
      refine ⟨hs.lt, by omega, fun heq ↦ ?_⟩
      have ⟨_, hseen⟩ := hs.same (heq.trans hwraps)
      show isLocked target = false ∧ seen ≤ getBufferIndex target
      rw [htarget, isLocked_of_lt (by omega), getBufferIndex_of_lt (by omega)]
      exact ⟨rfl, by omega⟩
  target size' seen target' lap hpos hs _ := by
    -- the barrier has left the place that the other worker saw
    intro hlap hbarrier
    have hle := hs.le
    by_cases hw : wrapsAround target = true
    · have hwraps : (g.exchange capacity w size g.write target).wraps = g.wraps + 1 := if_pos hw
      omega
    · have hwraps : (g.exchange capacity w size g.write target).wraps = g.wraps := if_neg hw
      have ⟨htarget, hlt⟩ := h.admits.wrapsAround_eq_false h.cap h.le (by simpa using hw)
      have ⟨_, hseen⟩ := hs.same (hlap.trans hwraps)
      have hpos := h.pos
      have hbarrier : target = seen := hbarrier
      omega
  wraps seen target' hw := by
    have hfree := h.free
    rw [hw.barrier, hw.locked] at hfree
    contradiction
  wrapped target' hw := by
    have hfree := h.free
    rw [hw.barrier, hw.locked] at hfree
    contradiction

/-- A second wrap-around has to wait for the consumer. -/
theorem Exchanges.isLocked_of_cut (h : Exchanges capacity g size target) {stop : Nat}
    (hcut : g.layout.cut = some stop) : isLocked target = false := by
  have hwrapped := h.core.fits.cut_isSome_iff
  rw [hcut] at hwrapped
  simp only [Option.isSome_some, true_iff] at hwrapped
  have hadmits := h.admits
  rw [Bool.eq_false_iff, ne_eq, hadmits.isLocked_iff h.cap h.le]
  unfold Admits at hadmits
  omega

theorem Exchanges.advances (h : Exchanges capacity g size target) (w : Fin n) :
    Advances capacity g (g.exchange capacity w size g.write target) := by
  have hr := h.reserves w
  have ⟨l, hfront⟩ := hr.front_initial
  exact
  { read := rfl
    granted := rfl
    registered := fun _ hv ↦ hv
    length := hr.front_initial.length_le
    sizes := by
      intro k hk
      rw [← hfront, List.take_append_of_le_length hk]
    front := by
      intro s hs _
      generalize (g.exchange capacity w size g.write target).layout = c' at hr hs
      generalize getBufferIndex target = write' at hr
      cases hr with
      | ahead hcut hstart | toEnd hcut hstart =>
        cases List.mem_append.mp hs with
        | inl hold => exact Or.inl hold
        | inr hnew => exact Or.inr ⟨hcut, List.mem_singleton.mp hnew ▸ hstart⟩
      | fromZero | behind => exact Or.inl hs
    cut := by
      intro stop hcut
      generalize (g.exchange capacity w size g.write target).layout = c' at hr
      generalize getBufferIndex target = write' at hr
      cases hr with
      | ahead hcut' | toEnd hcut' | fromZero hcut' =>
        rw [hcut'] at hcut
        contradiction
      | behind stop' hcut' => exact hcut'.symm.trans hcut
    lock := by
      intro hne _
      have ⟨stop, hstop⟩ := Option.ne_none_iff_exists'.mp hne
      exact ⟨h.isLocked_of_cut hstop, rfl⟩
    back := by
      intro stop hcut hlt s hs _
      have hwrite := h.core.wrapped stop hcut hlt
      generalize (g.exchange capacity w size g.write target).layout = c' at hr hs
      generalize getBufferIndex target = write' at hr
      cases hr with
      | ahead hcut' | toEnd hcut' | fromZero hcut' =>
        rw [hcut'] at hcut
        contradiction
      | behind stop' hcut' hstart =>
        cases List.mem_append.mp hs with
        | inl hold => exact Or.inl hold
        | inr hnew =>
          rw [List.mem_singleton.mp hnew]
          exact Or.inr (by omega)
    empty := by
      intro hne hempty
      generalize (g.exchange capacity w size g.write target).layout = c' at hr
      generalize getBufferIndex target = write' at hr
      cases hr with
      | ahead hcut' | toEnd hcut' => exact absurd hcut' hne
      | fromZero | behind => exact hempty
    end_ := by
      intro hend hfree
      have hfree : isLocked target = false := hfree
      show g.ring.end_ = endOf capacity (reserveAt capacity g.write target g.layout _)
      rw [h.admits.endOf_reserveAt h.cap h.le h.core.fits, hfree, if_neg (by decide)]
      exact hend h.free }

/-- Where the new barrier is locked, the buffer is cut off at the old index. -/
theorem Exchanges.wraps (h : Exchanges capacity g size target) (w : Fin n)
    (hl : isLocked target = true) :
    (g.exchange capacity w size g.write target).Wraps capacity w g.write target where
  wrapper := if_pos hl
  barrier := rfl
  locked := hl
  cut := by
    show (reserveAt capacity g.write target g.layout _).cut = some g.write
    cases hcut : g.layout.cut with
    | none => simp only [reserveAt, hcut, hl, if_true]
    | some stop =>
      rw [h.isLocked_of_cut hcut] at hl
      contradiction
  lt := h.core.fits.write_lt

end

/-! ## The stores of a worker that wraps around -/

namespace View

def setEnd (g : View n) (stop : Nat) : View n :=
  { g with ring := { g.ring with end_ := stop } }

def unlock (g : View n) (target : Nat) : View n :=
  { g with ring := { g.ring with producerBarrier := unlockWrapBit target }, wrapper := none }

end View

theorem core_setEnd (hcore : g.Core capacity) (stop : Nat) : (g.setEnd stop).Core capacity :=
  ⟨hcore.fits, hcore.barrier, hcore.wrapped, hcore.pos, hcore.granted, hcore.produced⟩

theorem View.Wraps.rely {seen target stop : Nat} (h : g.Wraps capacity w seen target) {v : Fin n}
    (hne : v ≠ w) : Rely capacity g (g.setEnd stop) v where
  worker := rfl
  follows := .refl _
  snapshot _ _ hs := ⟨hs.lt, hs.le, hs.same⟩
  target _ _ _ _ _ _ ht := ht
  wraps _ _ hw := ⟨hw.wrapper, hw.barrier, hw.locked, hw.cut, hw.lt⟩
  wrapped _ hw := by
    have heq := hw.wrapper.symm.trans h.wrapper
    exact absurd (Option.some.inj heq) hne

theorem View.Wraps.advances {seen target : Nat} (h : g.Wraps capacity w seen target) (stop : Nat) :
    Advances capacity g (g.setEnd stop) where
  read := rfl
  granted := rfl
  registered _ hv := hv
  length := Nat.le_refl _
  sizes _ _ := rfl
  front _ hr _ := Or.inl hr
  cut _ hcut := hcut
  lock _ hfree := by
    rw [h.barrier, h.locked] at hfree
    contradiction
  back _ _ _ _ hr _ := Or.inl hr
  empty _ hempty := hempty
  end_ _ hfree := by
    have hfree : isLocked g.barrier = false := hfree
    rw [h.barrier, h.locked] at hfree
    contradiction

theorem View.Wraps.setEnd {seen target : Nat} (h : g.Wraps capacity w seen target) :
    (g.setEnd seen).Wrapped capacity w target :=
  ⟨h.wrapper, h.barrier, h.locked, seen, h.lt, h.cut, rfl⟩

section

variable {target : Nat}

/-- Unlocking leaves the index of the barrier as it is. -/
theorem View.Wrapped.unlock_eq (h : g.Wrapped capacity w target) (hcore : g.Core capacity)
    (hcap : capacity < 2 ^ 32) : unlockWrapBit target = g.write := by
  have hlt : g.write < capacity := hcore.fits.write_lt
  cases hcore.barrier with
  | inl heq =>
    have hlocked := h.locked
    rw [← h.barrier, heq, isLocked_of_lt (by omega)] at hlocked
    contradiction
  | inr heq => rw [← h.barrier, heq, unlockWrapBit_lockWrapBit (by omega)]

theorem View.Wrapped.write_unlock (h : g.Wrapped capacity w target) (hcore : g.Core capacity)
    (hcap : capacity < 2 ^ 32) : (g.unlock target).write = g.write := by
  have hlt : g.write < capacity := hcore.fits.write_lt
  show getBufferIndex (unlockWrapBit target) = g.write
  rw [h.unlock_eq hcore hcap, getBufferIndex_of_lt (by omega)]

theorem View.Wrapped.core_unlock (h : g.Wrapped capacity w target) (hcore : g.Core capacity)
    (hcap : capacity < 2 ^ 32) : (g.unlock target).Core capacity where
  fits := by
    rw [h.write_unlock hcore hcap]
    exact hcore.fits
  barrier := by
    left
    rw [h.write_unlock hcore hcap]
    exact h.unlock_eq hcore hcap
  wrapped := by
    rw [h.write_unlock hcore hcap]
    exact hcore.wrapped
  pos := hcore.pos
  granted := hcore.granted
  produced := hcore.produced

theorem View.Wrapped.rely (h : g.Wrapped capacity w target) {v : Fin n} (hne : v ≠ w) :
    Rely capacity g (g.unlock target) v where
  worker := rfl
  follows := .refl _
  snapshot seen lap hs := by
    -- nobody has loaded the barrier since it was locked
    refine ⟨hs.lt, hs.le, fun hlap ↦ ?_⟩
    have hfree := (hs.same hlap).1
    rw [h.barrier, h.locked] at hfree
    contradiction
  target _ _ _ _ _ hs _ hlap := by
    have hfree := (hs.same hlap).1
    rw [h.barrier, h.locked] at hfree
    contradiction
  wraps _ _ hw := by
    have heq := hw.wrapper.symm.trans h.wrapper
    exact absurd (Option.some.inj heq) hne
  wrapped _ hw := by
    have heq := hw.wrapper.symm.trans h.wrapper
    exact absurd (Option.some.inj heq) hne

theorem View.Wrapped.advances (h : g.Wrapped capacity w target) :
    Advances capacity g (g.unlock target) where
  read := rfl
  granted := rfl
  registered _ hv := hv
  length := Nat.le_refl _
  sizes _ _ := rfl
  front _ hr _ := Or.inl hr
  cut _ hcut := hcut
  lock _ hfree := by
    rw [h.barrier, h.locked] at hfree
    contradiction
  back _ _ _ _ hr _ := Or.inl hr
  empty _ hempty := hempty
  end_ _ _ := by
    have ⟨stop, hlt, hcut, hend⟩ := h.cut
    show g.ring.end_ = endOf capacity g.layout
    rw [hend, endOf, hcut]
    exact (if_pos hlt).symm

end

/-! ## produce -/

namespace View

def produce (g : View n) (w : Fin n) : View n :=
  { g with ring := g.ring.storeSeen w maxOffset, layout := g.layout.map (markProduced w) }

end View

theorem mem_map_markProduced {l : List (Reservation n)} {r : Reservation n}
    (hr : r ∈ l.map (markProduced w)) (hprod : r.produced = false) : r ∈ l ∧ r.owner ≠ w := by
  have ⟨s, hs, heq⟩ := List.mem_map.mp hr
  rw [← heq, markProduced_produced_eq_false] at hprod
  rw [markProduced, if_neg hprod.1] at heq
  exact heq ▸ ⟨hs, hprod.1⟩

theorem mem_map_of_ne {l : List (Reservation n)} {r : Reservation n} (hr : r ∈ l)
    (hne : r.owner ≠ w) : r ∈ l.map (markProduced w) := by
  rw [List.mem_map]
  exact ⟨r, hr, if_neg hne⟩

theorem items_map (c : Circular (Reservation n)) :
    (c.map (markProduced w)).items = c.items.map (markProduced w) := by
  simp only [Circular.items, Circular.map, List.map_append]

theorem core_produce (hcore : g.Core capacity) (w : Fin n) : (g.produce w).Core capacity where
  fits := hcore.fits.map (markProduced_start w) (markProduced_size w)
  barrier := hcore.barrier
  wrapped := hcore.wrapped
  pos r hr := by
    have hr : r ∈ (g.layout.map (markProduced w)).items := hr
    rw [items_map] at hr
    have ⟨s, hs, heq⟩ := List.mem_map.mp hr
    rw [← heq, markProduced_size]
    exact hcore.pos s hs
  granted := by
    show g.granted ≤ (g.layout.front.map (markProduced w)).length
    rw [List.length_map]
    exact hcore.granted
  produced r hr := by
    have hr : r ∈ (g.layout.front.map (markProduced w)).take g.granted := hr
    rw [← List.map_take] at hr
    by_contra hprod
    rw [Bool.not_eq_true] at hprod
    have := hcore.produced r (mem_map_markProduced hr hprod).1
    simp [hprod] at this

theorem rely_produce {v : Fin n} (hne : v ≠ w) : Rely capacity g (g.produce w) v where
  worker := Function.update_of_ne hne _ _
  follows :=
  { stays := fun r hr howner _ ↦ by
      show r ∈ (g.layout.map (markProduced w)).items
      rw [items_map]
      exact mem_map_of_ne hr (howner ▸ hne)
    front := fun _ hr _ hprod ↦ Or.inl (mem_map_markProduced hr hprod).1
    back := fun _ hr _ hprod ↦ ⟨(mem_map_markProduced hr hprod).1, rfl⟩ }
  snapshot _ _ hs := ⟨hs.lt, hs.le, hs.same⟩
  target _ _ _ _ _ _ ht := ht
  wraps _ _ hw := ⟨hw.wrapper, hw.barrier, hw.locked, hw.cut, hw.lt⟩
  wrapped _ hw := ⟨hw.wrapper, hw.barrier, hw.locked, hw.cut⟩

theorem advances_produce : Advances capacity g (g.produce w) where
  read := rfl
  granted := rfl
  registered v hv := (storeSeen_registered_of_eq rfl v).trans hv
  length := by
    show _ ≤ (g.layout.front.map (markProduced w)).length
    rw [List.length_map]
  sizes k _ := by
    show total size ((g.layout.front.map (markProduced w)).take k) = _
    rw [← List.map_take]
    exact total_map _ _ (markProduced_size w) _
  front _ hr hprod := Or.inl (mem_map_markProduced hr hprod).1
  cut _ hcut := hcut
  lock _ hfree := ⟨hfree, rfl⟩
  back _ _ _ _ hr hprod := Or.inl (mem_map_markProduced hr hprod).1
  empty _ hempty := by
    show g.layout.front.map (markProduced w) = []
    rw [hempty]
    rfl
  end_ hend := hend

/-! ## The stores of the consumer -/

namespace View

/-- The view after a release of `k` reservations has moved the consumer to `written`. -/
def release (capacity : Nat) (g : View n) (k written : Nat) : View n :=
  { g with
    ring := { g.ring with consumerBarrier := if written = capacity then 0 else written }
    layout := if written = capacity then g.layout.turn else g.layout.release k
    granted := g.granted - k }

def resetEnd (g : View n) : View n := { g with ring := { g.ring with end_ := maxOffset } }

def turn (g : View n) : View n :=
  { g with ring := { g.ring with consumerBarrier := 0 }, layout := g.layout.turn }

end View

theorem rely_grant (g : View n) (granted : Nat) (v : Fin n) :
    Rely capacity g { g with granted := granted } v where
  worker := rfl
  follows := .refl _
  snapshot _ _ hs := ⟨hs.lt, hs.le, hs.same⟩
  target _ _ _ _ _ _ ht := ht
  wraps _ _ hw := ⟨hw.wrapper, hw.barrier, hw.locked, hw.cut, hw.lt⟩
  wrapped _ hw := ⟨hw.wrapper, hw.barrier, hw.locked, hw.cut⟩

theorem View.Turns.rely_resetEnd (h : g.Turns capacity) (v : Fin n) :
    Rely capacity g g.resetEnd v where
  worker := rfl
  follows := .refl _
  snapshot _ _ hs := ⟨hs.lt, hs.le, hs.same⟩
  target _ _ _ _ _ _ ht := ht
  wraps _ _ hw := ⟨hw.wrapper, hw.barrier, hw.locked, hw.cut, hw.lt⟩
  wrapped _ hw := by
    have hfree := h.unlocked
    rw [hw.barrier, hw.locked] at hfree
    contradiction

theorem View.Core.barrier_eq (hcore : g.Core capacity) (hcap : capacity < 2 ^ 32)
    (hfree : isLocked g.barrier = false) : g.barrier = g.write := by
  cases hcore.barrier with
  | inl heq => exact heq
  | inr heq =>
    have hlt : g.write < capacity := hcore.fits.write_lt
    rw [heq, isLocked_lockWrapBit (by omega)] at hfree
    contradiction

theorem View.Turns.core_turn (h : g.Turns capacity) (hcore : g.Core capacity) :
    g.turn.Core capacity where
  fits := by
    have ⟨stop, _, hcut⟩ := h.cut
    exact hcore.fits.turn hcut
  barrier := hcore.barrier
  wrapped stop hcut := by
    simp [View.turn, Circular.turn] at hcut
  pos r hr := by
    have hr : r ∈ g.layout.back ++ [] := hr
    rw [List.append_nil] at hr
    exact hcore.pos r (List.mem_append_right _ hr)
  granted := by
    have hgranted := hcore.granted
    rw [h.front] at hgranted
    show g.granted ≤ g.layout.back.length
    exact Nat.le_trans hgranted (Nat.zero_le _)
  produced r hr := by
    have hgranted := hcore.granted
    rw [h.front, List.length_nil, Nat.le_zero] at hgranted
    have hr : r ∈ g.layout.back.take g.granted := hr
    rw [hgranted, List.take_zero] at hr
    exact absurd hr List.not_mem_nil

/-- A consumer that follows the barrier to 0 only makes more room. -/
theorem targetOk_of_turn (hcore : g.Core capacity) {g' : View n} {seen lap : Nat}
    {size target : Nat} (hcut : g.layout.cut ≠ none) (hsame : g.Snapshot capacity seen lap)
    (hring : g'.barrier = g.barrier) (hwraps : g'.wraps = g.wraps) (hread : g'.read = 0)
    (h : g.TargetOk capacity size seen target lap) : g'.TargetOk capacity size seen target lap := by
  intro hlap hbarrier
  rw [hwraps] at hlap
  rw [hring] at hbarrier
  have hadmits := h hlap hbarrier
  have hbehind : g.write < g.read := by
    rw [← hcore.fits.cut_isSome_iff]
    exact Option.isSome_iff_ne_none.mpr hcut
  have hle := (hsame.same hlap).2
  rw [hread]
  exact hadmits.turn (by omega)

theorem View.Turns.rely_turn (h : g.Turns capacity) (hcore : g.Core capacity) (v : Fin n) :
    Rely capacity g g.turn v where
  worker := rfl
  follows :=
  { stays := fun r hr _ _ ↦ by
      show r ∈ g.layout.back ++ []
      rw [Circular.items, h.front, List.nil_append] at hr
      rwa [List.append_nil]
    front := fun r hr _ hprod ↦ by
      refine Or.inr ⟨hr, ?_⟩
      obtain ⟨stop, _, hcut⟩ := h.cut
      rw [publishedBack, hcut]
      exact if_neg fun hzero ↦ h.back r hr hprod hzero.2
    back := fun _ hr ↦ absurd hr List.not_mem_nil }
  snapshot _ _ hs := ⟨hs.lt, hs.le, hs.same⟩
  target _ _ _ _ _ hs ht := by
    obtain ⟨stop, _, hcut⟩ := h.cut
    exact targetOk_of_turn hcore (by rw [hcut]; exact Option.some_ne_none _) hs rfl rfl rfl ht
  wraps _ _ hw := by
    have hfree := h.unlocked
    rw [hw.barrier, hw.locked] at hfree
    contradiction
  wrapped _ hw := by
    have hfree := h.unlocked
    rw [hw.barrier, hw.locked] at hfree
    contradiction

/-! ## release -/

section

variable {k : Nat}

/-- The consumer offset that a release of `k` reservations computes. -/
def View.released (g : View n) (k : Nat) : Nat := g.read + total size (g.layout.front.take k)

theorem layout_release_of_eq (h : g.released k = capacity) :
    (g.release capacity k (g.released k)).layout = g.layout.turn := if_pos h

theorem layout_release_of_ne (h : g.released k ≠ capacity) :
    (g.release capacity k (g.released k)).layout = g.layout.release k := if_neg h

theorem View.Core.released_le (hcore : g.Core capacity) (k : Nat) :
    g.released k ≤ g.layout.cut.getD g.write ∧ g.layout.cut.getD g.write ≤ capacity :=
  ⟨(hcore.fits.front_chain.drop k).le, hcore.fits.stop_le⟩

theorem View.Core.released_end (hcore : g.Core capacity) (hk : k ≤ g.layout.front.length)
    (hend : g.released k = capacity) :
    g.layout.cut = some capacity ∧ g.layout.front.drop k = [] ∧
      g.layout.turn.items = g.layout.items.drop k ∧
      g.layout.turn.Fits start size capacity 0 g.write := by
  have hpos : ∀ r ∈ g.layout.front, 0 < r.size := fun r hr ↦
    hcore.pos r (List.mem_append_left _ hr)
  have ⟨hfits, hnil⟩ := hcore.fits.release_to_end hpos k hend
  have ⟨hle, hstop⟩ := hcore.released_le k
  have hwrite := hcore.fits.write_lt
  refine ⟨?_, hnil, ?_, hfits⟩
  · cases hcut : g.layout.cut with
    | none =>
      rw [hcut, Option.getD_none] at hle
      omega
    | some stop =>
      rw [hcut, Option.getD_some] at hle hstop
      rw [show stop = capacity by omega]
  · rw [Circular.items, Circular.items, List.drop_append_of_le_length hk, hnil]
    simp only [Circular.turn, List.append_nil, List.nil_append]

theorem View.Core.items_release (hcore : g.Core capacity) (hk : k ≤ g.layout.front.length) :
    (g.release capacity k (g.released k)).layout.items = g.layout.items.drop k := by
  by_cases hend : g.released k = capacity
  · rw [layout_release_of_eq hend]
    exact (hcore.released_end hk hend).2.2.1
  · rw [layout_release_of_ne hend]
    exact (List.drop_append_of_le_length hk).symm

theorem View.Core.core_release (hcore : g.Core capacity) (hk : k ≤ g.granted) :
    (g.release capacity k (g.released k)).Core capacity := by
  have hgranted := hcore.granted
  have hitems := hcore.items_release (Nat.le_trans hk hgranted)
  have hle := hcore.released_le k
  have hpos : ∀ r ∈ (g.release capacity k (g.released k)).layout.items, 0 < r.size := fun r hr ↦
    hcore.pos r (List.mem_of_mem_drop (hitems ▸ hr))
  by_cases hend : g.released k = capacity
  · have ⟨hcut, hnil, _, hfits⟩ := hcore.released_end (Nat.le_trans hk hgranted) hend
    have hlength := List.drop_eq_nil_iff.mp hnil
    have hzero : g.granted - k = 0 := by omega
    simp only [View.release, if_pos hend] at hpos ⊢
    rw [hzero]
    exact ⟨hfits, hcore.barrier, nofun, hpos, Nat.zero_le _,
      fun r hr ↦ absurd (List.take_zero ▸ hr) List.not_mem_nil⟩
  · simp only [View.release, if_neg hend] at hpos ⊢
    refine ⟨hcore.fits.release k ?_, hcore.barrier, hcore.wrapped, hpos, ?_, ?_⟩
    · show g.released k < capacity
      omega
    · show g.granted - k ≤ (g.layout.front.drop k).length
      rw [List.length_drop]
      omega
    · intro r hr
      have hr : r ∈ (g.layout.front.drop k).take (g.granted - k) := hr
      rw [← List.drop_take] at hr
      exact hcore.produced r (List.mem_of_mem_drop hr)

theorem View.Core.mem_release (hcore : g.Core capacity) (hk : k ≤ g.granted) {r : Reservation n}
    (hr : r ∈ g.layout.items) (hprod : r.produced = false) :
    r ∈ (g.release capacity k (g.released k)).layout.items := by
  rw [hcore.items_release (Nat.le_trans hk hcore.granted)]
  rw [← List.take_append_drop k g.layout.items] at hr
  cases List.mem_append.mp hr with
  | inl htake =>
    rw [Circular.items, List.take_append_of_le_length (Nat.le_trans hk hcore.granted)] at htake
    have := hcore.produced r (List.take_subset_take_left g.layout.front hk htake)
    simp [hprod] at this
  | inr hdrop => exact hdrop

theorem View.Core.follows_release (hcore : g.Core capacity) (hk : k ≤ g.granted) (v : Fin n) :
    Follows capacity v g.layout (g.release capacity k (g.released k)).layout := by
  refine ⟨fun r hr _ hprod ↦ hcore.mem_release hk hr hprod, ?_, ?_⟩
  · intro r hr _ _
    by_cases hend : g.released k = capacity
    · have hcut := (hcore.released_end (Nat.le_trans hk hcore.granted) hend).1
      rw [layout_release_of_eq hend] at hr
      refine Or.inr ⟨hr, ?_⟩
      rw [publishedBack, hcut]
      exact if_neg fun hlt ↦ Nat.lt_irrefl _ hlt.1
    · rw [layout_release_of_ne hend] at hr
      exact Or.inl (List.mem_of_mem_drop hr)
  · intro r hr _ _
    by_cases hend : g.released k = capacity
    · rw [layout_release_of_eq hend] at hr
      exact absurd hr List.not_mem_nil
    · rw [layout_release_of_ne hend] at hr ⊢
      exact ⟨hr, rfl⟩

theorem View.Core.rely_release (hcore : g.Core capacity) (hk : k ≤ g.granted) (v : Fin n) :
    Rely capacity g (g.release capacity k (g.released k)) v := by
  have hle := hcore.released_le k
  have hlength := Nat.le_trans hk hcore.granted
  have hkeep : ∀ stop, stop < capacity → g.layout.cut = some stop →
      (g.release capacity k (g.released k)).layout.cut = some stop := by
    intro stop hlt hcut
    by_cases hend : g.released k = capacity
    · have := (hcore.released_end hlength hend).1
      rw [hcut, Option.some.injEq] at this
      omega
    · rw [layout_release_of_ne hend]
      exact hcut
  refine ⟨rfl, hcore.follows_release hk v, fun _ _ hs ↦ ⟨hs.lt, hs.le, hs.same⟩, ?_, ?_, ?_⟩
  · intro size seen target lap _ hs ht
    by_cases hend : g.released k = capacity
    · have hcut := (hcore.released_end hlength hend).1
      have hne : g.layout.cut ≠ none := by
        rw [hcut]
        exact Option.some_ne_none _
      exact targetOk_of_turn hcore hne hs rfl rfl (if_pos hend) ht
    · intro hlap hbarrier
      have hread : (g.release capacity k (g.released k)).read = g.released k := if_neg hend
      rw [hread]
      apply (ht hlap hbarrier).advance (Nat.le_add_right _ _)
      intro hbehind
      -- the consumer stays behind a barrier of its own lap
      have hcut := hcore.fits.cut_isSome_iff
      have hsame := (hs.same hlap).2
      have hseen : g.barrier = seen := hbarrier
      have hindex : g.write ≤ g.barrier := Nat.and_le_left
      cases hc : g.layout.cut with
      | none =>
        rw [hc, Option.getD_none] at hle
        show g.released k ≤ seen
        omega
      | some stop =>
        rw [hc] at hcut
        have := hcut.mp rfl
        omega
  · intro seen target hw
    exact ⟨hw.wrapper, hw.barrier, hw.locked, hkeep seen hw.lt hw.cut, hw.lt⟩
  · intro target hw
    have ⟨stop, hlt, hcut, hend⟩ := hw.cut
    exact ⟨hw.wrapper, hw.barrier, hw.locked, stop, hlt, hkeep stop hlt hcut, hend⟩

theorem View.Core.endOk_release (hcore : g.Core capacity) (hk : k ≤ g.granted)
    (h : g.EndOk capacity) : (g.release capacity k (g.released k)).EndOk capacity := by
  intro hfree
  have hend : g.ring.end_ = endOf capacity g.layout := h hfree
  show g.ring.end_ = _
  rw [hend]
  by_cases heq : g.released k = capacity
  · have hcut := (hcore.released_end (Nat.le_trans hk hcore.granted) heq).1
    rw [layout_release_of_eq heq]
    rw [endOf, hcut]
    exact if_neg (Nat.lt_irrefl _)
  · rw [layout_release_of_ne heq]
    rfl

end

end Ustevent.MpscRingBuffer
