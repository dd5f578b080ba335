import Ustevent.Ring.Interleaved

/-!
# What workers and consumer rely on while others run

A view adds to the shared words the layout that they stand for.  `ProducerOk` and `ConsumerOk` say
what holds of a view while a worker or the consumer stands at one of its steps; `Rely` and `Advances`
say what the steps of the others leave alone.
-/

namespace Ustevent.MpscRingBuffer

open Reasoning Reservation

variable {n : Nat}

/-- `wrapper` is the worker that has locked the barrier. -/
structure View (n : Nat) where
  ring : MpscRingBuffer n
  layout : Circular (Reservation n)
  granted : Nat
  wraps : Nat
  wrapper : Option (Fin n)

namespace View

def barrier (g : View n) : Nat := g.ring.producerBarrier

def write (g : View n) : Nat := getBufferIndex g.ring.producerBarrier

def read (g : View n) : Nat := g.ring.consumerBarrier

def word (g : View n) (w : Fin n) : Nat := (g.ring.workers w).seen

/-- The words and the layout agree, and the consumer was given produced reservations only. -/
structure Core (capacity : Nat) (g : View n) : Prop where
  fits : g.layout.Fits start size capacity g.read g.write
  barrier : g.barrier = g.write ∨ g.barrier = lockWrapBit g.write
  wrapped : ∀ stop, g.layout.cut = some stop → stop < capacity → 0 < g.write
  pos : ∀ r ∈ g.layout.items, 0 < r.size
  granted : g.granted ≤ g.layout.front.length
  produced : ∀ r ∈ g.layout.front.take g.granted, r.produced = true

/-! ## Workers -/

/-- The worker has no reservation to write to. -/
def Clear (g : View n) (w : Fin n) : Prop := ∀ r ∈ g.layout.items, r.owner = w → r.produced = true

/-- The worker has a reservation to write to, which `seen` holds back. -/
structure Shows (capacity : Nat) (g : View n) (w : Fin n) (seen : Nat) : Prop where
  holds : ∃ r ∈ g.layout.items, r.owner = w ∧ r.produced = false
  front : ∀ r ∈ g.layout.front, r.owner = w → r.produced = false → seen = r.start
  back : ∀ r ∈ g.layout.back, r.owner = w → r.produced = false →
    seen = publishedBack capacity g.layout r

/-- The barrier was `seen` in the given lap and has only moved on since. -/
structure Snapshot (capacity : Nat) (g : View n) (seen lap : Nat) : Prop where
  lt : seen < capacity
  le : lap ≤ g.wraps
  same : lap = g.wraps → isLocked g.barrier = false ∧ seen ≤ g.write

/-- The target of a compare-exchange is still one that the consumer offset admits. -/
def TargetOk (capacity : Nat) (g : View n) (size seen target lap : Nat) : Prop :=
  lap = g.wraps → g.barrier = seen → Admits capacity seen g.read size target

/-- The worker has locked the barrier and has yet to store `_end`. -/
structure Wraps (capacity : Nat) (g : View n) (w : Fin n) (seen target : Nat) : Prop where
  wrapper : g.wrapper = some w
  barrier : g.barrier = target
  locked : isLocked target = true
  cut : g.layout.cut = some seen
  lt : seen < capacity

/-- The worker has stored `_end` and has yet to unlock the barrier. -/
structure Wrapped (capacity : Nat) (g : View n) (w : Fin n) (target : Nat) : Prop where
  wrapper : g.wrapper = some w
  barrier : g.barrier = target
  locked : isLocked target = true
  cut : ∃ stop, stop < capacity ∧ g.layout.cut = some stop ∧ g.ring.end_ = stop

end View

open View

def Producer.started : Producer → Bool
  | .unregistered | .registering => false
  | _ => true

/-- What a worker knows where it stands, its registration aside. -/
def Producer.Knows (capacity : Nat) (g : View n) (w : Fin n) : Producer → Prop
  | .unregistered => g.Clear w
  | .registering | .idle => g.Clear w ∧ g.word w = maxOffset
  | .loadNext size =>
    g.Clear w ∧ (g.word w = maxOffset ∨ isLocked (g.word w) = true) ∧ 1 ≤ size ∧ size ≤ capacity
  | .storeSeen size seen lap =>
    g.Clear w ∧ (g.word w = maxOffset ∨ isLocked (g.word w) = true) ∧ 1 ≤ size ∧ size ≤ capacity ∧
      g.Snapshot capacity seen lap
  | .loadWritten size seen lap =>
    g.Clear w ∧ g.word w = lockWrapBit seen ∧ 1 ≤ size ∧ size ≤ capacity ∧
      g.Snapshot capacity seen lap
  | .giveUp => g.Clear w ∧ isLocked (g.word w) = true
  | .exchange size seen target lap =>
    g.Clear w ∧ g.word w = lockWrapBit seen ∧ 1 ≤ size ∧ size ≤ capacity ∧
      g.Snapshot capacity seen lap ∧ g.TargetOk capacity size seen target lap
  | .loadSeen seen target =>
    g.word w = lockWrapBit seen ∧ seen < capacity ∧ g.Shows capacity w seen ∧
      (isLocked target = true → g.Wraps capacity w seen target)
  | .storeUnlocked seen target own =>
    g.word w = lockWrapBit seen ∧ own = lockWrapBit seen ∧ seen < capacity ∧
      g.Shows capacity w seen ∧ (isLocked target = true → g.Wraps capacity w seen target)
  | .setEnd seen target => g.Shows capacity w (g.word w) ∧ g.Wraps capacity w seen target
  | .unlockBarrier target => g.Shows capacity w (g.word w) ∧ g.Wrapped capacity w target
  | .holding => g.Shows capacity w (g.word w)

structure ProducerOk (capacity : Nat) (g : View n) (w : Fin n) (pc : Producer) : Prop where
  registered : g.ring.registered w = pc.started
  knows : pc.Knows capacity g w

/-- How the reservations of worker `w` that it still writes to may move in the layout. -/
structure Follows (capacity : Nat) (w : Fin n) (c c' : Circular (Reservation n)) : Prop where
  stays : ∀ r ∈ c.items, r.owner = w → r.produced = false → r ∈ c'.items
  front : ∀ r ∈ c'.front, r.owner = w → r.produced = false →
    r ∈ c.front ∨ (r ∈ c.back ∧ publishedBack capacity c r = r.start)
  back : ∀ r ∈ c'.back, r.owner = w → r.produced = false →
    r ∈ c.back ∧ publishedBack capacity c' r = publishedBack capacity c r

/-- What a step of the others keeps for worker `w`. -/
structure Rely (capacity : Nat) (g g' : View n) (w : Fin n) : Prop where
  worker : g'.ring.workers w = g.ring.workers w
  follows : Follows capacity w g.layout g'.layout
  snapshot : ∀ seen lap, g.Snapshot capacity seen lap → g'.Snapshot capacity seen lap
  target : ∀ size seen target lap, 1 ≤ size → g.Snapshot capacity seen lap →
    g.TargetOk capacity size seen target lap → g'.TargetOk capacity size seen target lap
  wraps : ∀ seen target, g.Wraps capacity w seen target → g'.Wraps capacity w seen target
  wrapped : ∀ target, g.Wrapped capacity w target → g'.Wrapped capacity w target

section

variable {capacity : Nat} {g g' : View n} {w : Fin n}

theorem Follows.refl (c : Circular (Reservation n)) : Follows capacity w c c where
  stays _ hr _ _ := hr
  front _ hr _ _ := Or.inl hr
  back _ hr _ _ := ⟨hr, rfl⟩

theorem Follows.clear (h : Follows capacity w g.layout g'.layout) (hclear : g.Clear w) :
    g'.Clear w := by
  intro r hr howner
  -- a reservation that the worker still writes to would have been there before
  by_contra hprod
  rw [Bool.not_eq_true] at hprod
  have hold : r ∈ g.layout.items := by
    cases List.mem_append.mp hr with
    | inl hf =>
      cases h.front r hf howner hprod with
      | inl hfront => exact List.mem_append_left _ hfront
      | inr hback => exact List.mem_append_right _ hback.1
    | inr hb => exact List.mem_append_right _ (h.back r hb howner hprod).1
  have := hclear r hold howner
  rw [hprod] at this
  contradiction

theorem Follows.shows (h : Follows capacity w g.layout g'.layout) {seen : Nat}
    (hshows : g.Shows capacity w seen) : g'.Shows capacity w seen where
  holds := by
    have ⟨r, hr, howner, hprod⟩ := hshows.holds
    exact ⟨r, h.stays r hr howner hprod, howner, hprod⟩
  front r hr howner hprod := by
    cases h.front r hr howner hprod with
    | inl hfront => exact hshows.front r hfront howner hprod
    | inr hback => exact (hshows.back r hback.1 howner hprod).trans hback.2
  back r hr howner hprod := by
    have ⟨hback, heq⟩ := h.back r hr howner hprod
    rw [heq]
    exact hshows.back r hback howner hprod

theorem ProducerOk.rely {pc : Producer} (h : ProducerOk capacity g w pc)
    (hrely : Rely capacity g g' w) : ProducerOk capacity g' w pc := by
  have hword : g'.word w = g.word w := congrArg Worker.seen hrely.worker
  have hclear := hrely.follows.clear
  have hshows : ∀ seen, g.Shows capacity w seen → g'.Shows capacity w seen := fun _ ↦
    hrely.follows.shows
  have hregistered : g'.ring.registered w = g.ring.registered w :=
    congrArg Worker.registered hrely.worker
  refine ⟨hregistered.trans h.registered, ?_⟩
  have hknows := h.knows
  cases pc with
  | unregistered => exact hclear hknows
  | registering | idle => exact ⟨hclear hknows.1, hword.trans hknows.2⟩
  | loadNext size =>
    have ⟨h₁, h₂, h₃⟩ := hknows
    exact ⟨hclear h₁, hword.symm ▸ h₂, h₃⟩
  | storeSeen size seen lap =>
    have ⟨h₁, h₂, h₃, h₄, h₅⟩ := hknows
    exact ⟨hclear h₁, hword.symm ▸ h₂, h₃, h₄, hrely.snapshot _ _ h₅⟩
  | loadWritten size seen lap =>
    have ⟨h₁, h₂, h₃, h₄, h₅⟩ := hknows
    exact ⟨hclear h₁, hword.trans h₂, h₃, h₄, hrely.snapshot _ _ h₅⟩
  | giveUp => exact ⟨hclear hknows.1, hword.symm ▸ hknows.2⟩
  | exchange size seen target lap =>
    have ⟨h₁, h₂, h₃, h₄, h₅, h₆⟩ := hknows
    exact ⟨hclear h₁, hword.trans h₂, h₃, h₄, hrely.snapshot _ _ h₅,
      hrely.target _ _ _ _ h₃ h₅ h₆⟩
  | loadSeen seen target =>
    have ⟨h₁, h₂, h₃, h₄⟩ := hknows
    exact ⟨hword.trans h₁, h₂, hshows _ h₃, fun hl ↦ hrely.wraps _ _ (h₄ hl)⟩
  | storeUnlocked seen target own =>
    have ⟨h₁, h₂, h₃, h₄, h₅⟩ := hknows
    exact ⟨hword.trans h₁, h₂, h₃, hshows _ h₄, fun hl ↦ hrely.wraps _ _ (h₅ hl)⟩
  | setEnd seen target =>
    exact ⟨hword.symm ▸ hshows _ hknows.1, hrely.wraps _ _ hknows.2⟩
  | unlockBarrier target =>
    exact ⟨hword.symm ▸ hshows _ hknows.1, hrely.wrapped _ hknows.2⟩
  | holding =>
    show g'.Shows capacity w (g'.word w)
    rw [hword]
    exact hshows _ hknows

/-- What the consumer finds in the word of a registered worker. -/
theorem ProducerOk.word_cases {pc : Producer} (hcap : capacity < 2 ^ 32)
    (h : ProducerOk capacity g w pc) (hregistered : g.ring.registered w = true)
    (hfree : isLocked (g.word w) = false) :
    (g.Clear w ∧ g.word w = maxOffset) ∨ g.Shows capacity w (g.word w) := by
  have hstarted := h.registered.symm.trans hregistered
  have hknows := h.knows
  -- a word that the consumer may read is none that is locked for a while
  have hlocked : ∀ seen, seen < capacity → g.word w ≠ lockWrapBit seen := by
    intro seen hlt heq
    rw [heq, isLocked_lockWrapBit (by omega)] at hfree
    contradiction
  cases pc with
  | unregistered | registering => contradiction
  | idle => exact Or.inl hknows
  | loadNext | storeSeen =>
    cases hknows.2.1 with
    | inl hmax => exact Or.inl ⟨hknows.1, hmax⟩
    | inr hl => simp [hfree] at hl
  | loadWritten size seen lap => exact absurd hknows.2.1 (hlocked seen hknows.2.2.2.2.lt)
  | giveUp =>
    have := hknows.2
    simp [hfree] at this
  | exchange size seen target lap => exact absurd hknows.2.1 (hlocked seen hknows.2.2.2.2.1.lt)
  | loadSeen seen target => exact absurd hknows.1 (hlocked seen hknows.2.1)
  | storeUnlocked seen target own => exact absurd hknows.1 (hlocked seen hknows.2.2.1)
  | setEnd | unlockBarrier => exact Or.inr hknows.1
  | holding => exact Or.inr hknows

end

/-! ## The consumer -/

namespace View

/-- Outside of a wrap-around `_end` is the one of the layout. -/
def EndOk (capacity : Nat) (g : View n) : Prop :=
  isLocked g.barrier = false → g.ring.end_ = endOf capacity g.layout

/-- An offset between two reservations of the front, or at one of its ends. -/
def Boundary (g : View n) (a : Nat) : Prop :=
  ∃ k, k ≤ g.layout.front.length ∧ a = g.read + total size (g.layout.front.take k)

/-- The consumer has loaded the offsets and looked at the workers outside `rest`. -/
structure Scans (capacity : Nat) (g : View n) (written next ready : Nat) (rest : List (Fin n)) :
    Prop where
  current : written = g.read
  moved : written ≠ next
  ahead : written < next → g.Boundary next
  behind : next < written → g.layout.cut ≠ none ∧ isLocked g.barrier = false
  bound : ready = maxOffset ∨ g.Boundary ready
  front : ∀ r ∈ g.layout.front, r.produced = false → r.owner ∉ rest →
    (written < next → r.start < next) → ready ≤ r.start
  back : next < written → ∀ stop, g.layout.cut = some stop → stop < capacity →
    ∀ r ∈ g.layout.back, r.produced = false → r.start = 0 → r.owner ∉ rest → ready ≤ stop

/-- The consumer may follow the barrier to 0. -/
structure Turns (capacity : Nat) (g : View n) : Prop where
  front : g.layout.front = []
  unlocked : isLocked g.barrier = false
  cut : ∃ stop, stop < capacity ∧ g.layout.cut = some stop
  back : ∀ r ∈ g.layout.back, r.produced = false → r.start ≠ 0

end View

def ConsumerOk (capacity : Nat) (g : View n) : Consumer n → Prop
  | .idle | .loadWritten => g.EndOk capacity
  | .loadNext written => g.EndOk capacity ∧ written = g.read
  | .scan written next ready rest => g.EndOk capacity ∧ g.Scans capacity written next ready rest
  | .loadSeen written next ready w rest =>
    g.EndOk capacity ∧ g.Scans capacity written next ready (w :: rest) ∧
      g.ring.registered w = true
  | .resetEnd => g.EndOk capacity ∧ g.Turns capacity
  | .storeZero => g.ring.end_ = maxOffset ∧ g.Turns capacity
  | .returned address bytes =>
    g.EndOk capacity ∧ ∀ a, address = some a →
      a = g.read ∧ bytes = total size (g.layout.front.take g.granted) ∧
        ∀ r ∈ g.layout.front, r.produced = false → a + bytes ≤ r.start
  | .loadCurrent k bytes =>
    g.EndOk capacity ∧ k ≤ g.granted ∧ bytes = total size (g.layout.front.take k)
  | .storeReleased k bytes written =>
    g.EndOk capacity ∧ k ≤ g.granted ∧ bytes = total size (g.layout.front.take k) ∧
      written = g.read

/-- What a step of a worker keeps for the consumer. -/
structure Advances (capacity : Nat) (g g' : View n) : Prop where
  read : g'.read = g.read
  granted : g'.granted = g.granted
  registered : ∀ w, g.ring.registered w = true → g'.ring.registered w = true
  length : g.layout.front.length ≤ g'.layout.front.length
  sizes : ∀ k, k ≤ g.layout.front.length →
    total size (g'.layout.front.take k) = total size (g.layout.front.take k)
  front : ∀ r ∈ g'.layout.front, r.produced = false →
    r ∈ g.layout.front ∨ (g.layout.cut = none ∧ r.start = g.write)
  cut : ∀ stop, g.layout.cut = some stop → g'.layout.cut = some stop
  lock : g.layout.cut ≠ none → isLocked g.barrier = false →
    isLocked g'.barrier = false ∧ g'.ring.end_ = g.ring.end_
  back : ∀ stop, g.layout.cut = some stop → stop < capacity → ∀ r ∈ g'.layout.back,
    r.produced = false → r ∈ g.layout.back ∨ r.start ≠ 0
  empty : g.layout.cut ≠ none → g.layout.front = [] → g'.layout.front = []
  end_ : g.EndOk capacity → g'.EndOk capacity

section

variable {capacity : Nat} {g g' : View n}

theorem Advances.boundary (h : Advances capacity g g') {a : Nat} (ha : g.Boundary a) :
    g'.Boundary a := by
  have ⟨k, hk, heq⟩ := ha
  refine ⟨k, Nat.le_trans hk h.length, ?_⟩
  rw [h.read, h.sizes k hk]
  exact heq

theorem View.Boundary.le_write {a : Nat} (hcore : g.Core capacity) (hcut : g.layout.cut = none)
    (ha : g.Boundary a) : a ≤ g.write := by
  have ⟨k, _, heq⟩ := ha
  have hchain := (hcore.fits.front_chain.drop k).le
  rw [hcut, Option.getD_none] at hchain
  rw [heq]
  exact hchain

theorem Advances.scans (h : Advances capacity g g') (hcore : g.Core capacity)
    {written next ready : Nat} {rest : List (Fin n)}
    (hscans : g.Scans capacity written next ready rest) :
    g'.Scans capacity written next ready rest where
  current := hscans.current.trans h.read.symm
  moved := hscans.moved
  ahead hlt := h.boundary (hscans.ahead hlt)
  behind hlt := by
    have ⟨hcut, hfree⟩ := hscans.behind hlt
    have ⟨stop, hstop⟩ := Option.ne_none_iff_exists'.mp hcut
    exact ⟨by rw [h.cut stop hstop]; exact Option.some_ne_none stop, (h.lock hcut hfree).1⟩
  bound := hscans.bound.imp_right h.boundary
  front r hr hprod hrest hnext := by
    cases h.front r hr hprod with
    | inl hold => exact hscans.front r hold hprod hrest hnext
    | inr hnew =>
      -- a reservation made during the scan lies behind the barrier that the consumer loaded
      have ⟨hcut, hstart⟩ := hnew
      have hahead : written < next := by
        by_contra hle
        have hmoved := hscans.moved
        exact (hscans.behind (by omega)).1 hcut
      have hle := (hscans.ahead hahead).le_write hcore hcut
      have hlt := hnext hahead
      omega
  back hlt stop hstop hcapacity r hr hprod hzero hrest := by
    -- the buffer has been cut before the scan, and only the consumer undoes that
    have ⟨hcut, _⟩ := hscans.behind hlt
    have ⟨stop', hstop'⟩ := Option.ne_none_iff_exists'.mp hcut
    have heq : stop' = stop := by
      have := h.cut stop' hstop'
      rw [hstop, Option.some.injEq] at this
      exact this.symm
    subst heq
    cases h.back stop' hstop' hcapacity r hr hprod with
    | inl hold => exact hscans.back hlt stop' hstop' hcapacity r hold hprod hzero hrest
    | inr hne => exact absurd hzero hne

theorem Advances.turns (h : Advances capacity g g') (hturns : g.Turns capacity) :
    g'.Turns capacity := by
  have ⟨stop, hlt, hcut⟩ := hturns.cut
  have hne : g.layout.cut ≠ none := by
    rw [hcut]
    exact Option.some_ne_none stop
  exact
  { front := h.empty hne hturns.front
    unlocked := (h.lock hne hturns.unlocked).1
    cut := ⟨stop, hlt, h.cut stop hcut⟩
    back := fun r hr hprod ↦ by
      cases h.back stop hcut hlt r hr hprod with
      | inl hold => exact hturns.back r hold hprod
      | inr hne => exact hne }

theorem ConsumerOk.advances {pc : Consumer n} (h : ConsumerOk capacity g pc)
    (hcore : g.Core capacity) (hadv : Advances capacity g g') : ConsumerOk capacity g' pc := by
  have hend := hadv.end_
  cases pc with
  | idle | loadWritten => exact hend h
  | loadNext written => exact ⟨hend h.1, h.2.trans hadv.read.symm⟩
  | scan written next ready rest => exact ⟨hend h.1, hadv.scans hcore h.2⟩
  | loadSeen written next ready w rest =>
    exact ⟨hend h.1, hadv.scans hcore h.2.1, hadv.registered w h.2.2⟩
  | resetEnd => exact ⟨hend h.1, hadv.turns h.2⟩
  | storeZero =>
    have ⟨stop, _, hcut⟩ := h.2.cut
    have hsame := (hadv.lock (by rw [hcut]; exact Option.some_ne_none stop) h.2.unlocked).2
    exact ⟨hsame.trans h.1, hadv.turns h.2⟩
  | returned address bytes =>
    refine ⟨hend h.1, fun a ha ↦ ?_⟩
    have ⟨hread, hbytes, hfront⟩ := h.2 a ha
    refine ⟨hread.trans hadv.read.symm, ?_, fun r hr hprod ↦ ?_⟩
    · rw [hadv.granted, hadv.sizes g.granted hcore.granted]
      exact hbytes
    -- a new reservation of the front lies behind what has been returned
    · cases hadv.front r hr hprod with
      | inl hold => exact hfront r hold hprod
      | inr hnew =>
        have hle := View.Boundary.le_write hcore hnew.1
          ⟨g.granted, hcore.granted, congrArg (g.read + ·) hbytes⟩
        omega
  | loadCurrent k bytes =>
    refine ⟨hend h.1, ?_, ?_⟩
    · rw [hadv.granted]
      exact h.2.1
    · rw [hadv.sizes k (Nat.le_trans h.2.1 hcore.granted)]
      exact h.2.2
  | storeReleased k bytes written =>
    refine ⟨hend h.1, ?_, ?_, h.2.2.2.trans hadv.read.symm⟩
    · rw [hadv.granted]
      exact h.2.1
    · rw [hadv.sizes k (Nat.le_trans h.2.1 hcore.granted)]
      exact h.2.2.1

end

end Ustevent.MpscRingBuffer
