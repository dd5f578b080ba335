import Ustevent.Queue.TaskQueue

/-!
# The order of the tasks of a Context

Behind a context stands the queue of reservations that its ring buffer refines.  As long as every
perform is of the oldest record and no pop consumes while popped tasks wait, the released and the
granted reservations are the performed and the popped tasks.
-/

namespace Ustevent

open Reasoning MpscRingBuffer ContextTaskQueue Reservation

variable {n m capacity : Nat}

namespace Context

/-! ## The invariant -/

/-- What a pushing thread has of the ring buffer. -/
def WriterOk (q : Fifo n) (w : Fin n) : Writer → Prop
  | .unregistered => q.registered w = false
  | .idle => q.registered w = true ∧ ¬ q.Holds w
  | .acquired number task base =>
    (∃ j, q.pending[j]? = some ⟨w, base, task.acquiredSize, false⟩ ∧
      number = q.released.length + j) ∧
    ∀ r ∈ q.pending, r.owner = w → r.produced = false → r.start = base
  | .written => q.Holds w

/-- The fiber of the pop with number `i` has performed task `i`, or task `i` is still in the ring
buffer and waits for the fiber. -/
structure FiberOk (q : Fifo n) (i : Nat) (f : Fiber m) : Prop where
  task : f.task = some i
  performed : i < q.released.length → f.phase = .invoking (some i) ∨ f.phase = .done (some i)
  waiting : q.released.length ≤ i → ∃ r, q.pending[i - q.released.length]? = some r ∧
    f.phase = .ready (r.start + operationOffset) ∧ f.record = (r.start, r.size)

/-- The cursor of pop stands in front of the first record that has been consumed and not popped. -/
structure CursorOk (q : Fifo n) (queue : ContextTaskQueue n) (pops : Nat) : Prop where
  lower : q.released.length ≤ pops
  upper : pops ≤ q.released.length + q.granted
  inside : pops < q.released.length + q.granted →
    ∃ r, q.pending[pops - q.released.length]? = some r ∧ queue.poped = r.start ∧
      queue.consumed =
        r.start + total size ((q.pending.take q.granted).drop (pops - q.released.length))
  outside : pops = q.released.length + q.granted → queue.consumed ≤ queue.poped

structure Inv (capacity : Nat) (s : Context n m) (q : Fifo n) (c : Circular (Reservation n)) :
    Prop where
  refines : Refines capacity s.queue.ring q c
  acquires : s.acquires = q.released.length + q.pending.length
  cursor : CursorOk q s.queue s.fibers.length
  stored : ∀ j r, q.pending[j]? = some r → r.produced = true ∨ s.writers r.owner = .written →
    Stores s.queue.memory r.start (q.released.length + j) r.size
  writers : ∀ w, WriterOk q w (s.writers w)
  fibers : ∀ i f, s.fibers[i]? = some f → FiberOk q i f

variable {s t : Context n m} {q : Fifo n} {c : Circular (Reservation n)} {w : Fin n} {v : Fin m}

theorem inv_initial (h : 1 ≤ capacity) :
    (initial n m).Inv capacity (Fifo.empty n) Circular.empty where
  refines := refines_create h
  acquires := rfl
  cursor :=
  { lower := Nat.le_refl 0
    upper := Nat.le_refl 0
    inside := fun hlt ↦ absurd hlt (Nat.lt_irrefl 0)
    outside := fun _ ↦ Nat.le_refl 0 }
  stored j r hr := by simp [Fifo.empty] at hr
  writers _ := rfl
  fibers i f hf := by simp [initial] at hf

/-- The granted reservations lie end to end from the consumer offset on and are produced. -/
theorem granted_reservation {rb : MpscRingBuffer n} (h : Refines capacity rb q c) {j : Nat}
    {r : Reservation n} (hr : q.pending[j]? = some r) (hj : j < q.granted) :
    r.start = rb.consumerBarrier + total size (q.pending.take j) ∧ r.produced = true := by
  have hgranted := h.granted
  have hfront : c.front[j]? = some r := by
    rw [← h.items, Circular.items, List.getElem?_append_left (by omega)] at hr
    exact hr
  have htake : q.pending.take j = c.front.take j := by
    rw [← h.items]
    exact List.take_append_of_le_length (by omega)
  constructor
  · rw [htake]
    exact h.ring.fits.front_chain.start_eq hfront
  · apply h.produced r
    rw [List.mem_iff_getElem?]
    exact ⟨j, by rw [List.getElem?_take_of_lt hj, hfront]⟩

theorem granted_le {rb : MpscRingBuffer n} (h : Refines capacity rb q c) :
    q.granted ≤ q.pending.length := by
  rw [← h.items, Circular.items, List.length_append]
  exact Nat.le_trans h.granted (Nat.le_add_right _ _)

theorem pos_of_getElem? {rb : MpscRingBuffer n} (h : Refines capacity rb q c) {j : Nat}
    {r : Reservation n} (hr : q.pending[j]? = some r) : 0 < r.size :=
  h.ring.pos r (h.items ▸ List.mem_of_getElem? hr)

theorem FiberOk.keep {q' : Fifo n} {i : Nat} {f : Fiber m} (h : FiberOk q i f)
    (hreleased : q'.released = q.released)
    (hpending : ∀ (j : Nat) (r : Reservation n), q.pending[j]? = some r →
      ∃ r' : Reservation n, q'.pending[j]? = some r' ∧ r'.start = r.start ∧ r'.size = r.size) :
    FiberOk q' i f where
  task := h.task
  performed := by
    rw [hreleased]
    exact h.performed
  waiting := by
    rw [hreleased]
    intro hle
    have ⟨r, hr, hphase, hrecord⟩ := h.waiting hle
    have ⟨r', hr', hstart, hsize⟩ := hpending _ r hr
    exact ⟨r', hr', hstart ▸ hphase, by rw [hstart, hsize]; exact hrecord⟩

/-! ## pop -/

theorem Inv.launch (h : s.Inv capacity q c) (hlt : s.queue.poped < s.queue.consumed)
    (hstep : s.launch capacity v = some t) : t.Inv capacity q c := by
  have ⟨hlower, hupper, hinside, houtside⟩ := h.cursor
  have hpops : s.fibers.length < q.released.length + q.granted := by
    by_contra hle
    have := houtside (by omega)
    omega
  have ⟨r, hr, hpoped, hconsumed⟩ := hinside hpops
  generalize hj : s.fibers.length - q.released.length = j at hr hconsumed
  -- the record at the cursor is granted, so that it has been written
  have ⟨hstart, hprod⟩ := granted_reservation h.refines hr (by omega)
  have hstores := h.stored j r hr (Or.inl hprod)
  have hlength : s.queue.memory.read32 s.queue.poped = r.size := hpoped ▸ hstores.header
  have hgranted := granted_le h.refines
  rw [Context.launch, pop, if_pos hlt] at hstep
  rw [← Option.some.inj hstep]
  refine ⟨h.refines, h.acquires, ?_, h.stored, h.writers, ?_⟩
  · -- the cursor moves on by the length that the record begins with
    have htotal := total_drop size (show (q.pending.take q.granted)[j]? = some r by
      rw [List.getElem?_take_of_lt (by omega), hr])
    have hnext : s.queue.poped + s.queue.memory.read32 s.queue.poped = r.start + r.size := by
      rw [hlength, hpoped]
    simp only [List.length_append, List.length_singleton]
    refine ⟨by omega, by omega, ?_, ?_⟩
    · intro hpops'
      have ⟨r', hr'⟩ : ∃ r', q.pending[j + 1]? = some r' :=
        ⟨_, List.getElem?_eq_getElem (by omega)⟩
      have ⟨hstart', _⟩ := granted_reservation h.refines hr' (by omega)
      rw [total_take_succ size hr] at hstart'
      refine ⟨r', ?_, ?_, ?_⟩
      · rw [show s.fibers.length + 1 - q.released.length = j + 1 by omega]
        exact hr'
      · show s.queue.poped + _ = _
        omega
      · rw [show s.fibers.length + 1 - q.released.length = j + 1 by omega]
        show s.queue.consumed = _
        omega
    · intro hpops'
      have hnil : (q.pending.take q.granted).drop (j + 1) = [] := by
        rw [List.drop_eq_nil_iff, List.length_take]
        omega
      rw [hnil, total_nil] at htotal
      show s.queue.consumed ≤ s.queue.poped + _
      omega
  · intro i f hf
    by_cases hi : i < s.fibers.length
    · rw [List.getElem?_append_left hi] at hf
      exact h.fibers i f hf
    · have hlast : i = s.fibers.length := by
        have := (List.getElem?_eq_some_iff.mp hf).1
        rw [List.length_append, List.length_singleton] at this
        omega
      rw [hlast, List.getElem?_concat_length, Option.some.injEq] at hf
      rw [← hf, hlast]
      have hbase : s.queue.poped + operationOffset - operationOffset = r.start := by omega
      refine ⟨?_, fun hlt ↦ by omega, fun _ ↦ ⟨r, by rw [hj]; exact hr, ?_, ?_⟩⟩
      · show s.queue.taskAt (s.queue.poped + operationOffset) = some s.fibers.length
        rw [hpoped, show s.fibers.length = q.released.length + j by omega]
        exact hstores.readObject
      · rw [← hpoped]
      · show (s.queue.poped + operationOffset - operationOffset, recordLength _ _) = _
        unfold recordLength
        rw [hbase, hstores.header]

/-- With nothing left of the consumed range and no fiber waiting, all popped tasks are released. -/
theorem Inv.used_up (h : s.Inv capacity q c) (hidle : ∀ f ∈ s.fibers, f.operation = none) :
    s.fibers.length = q.released.length := by
  have hlower := h.cursor.lower
  by_contra hne
  have ⟨f, hf⟩ : ∃ f, s.fibers[q.released.length]? = some f :=
    ⟨_, List.getElem?_eq_getElem (by omega)⟩
  have ⟨r, _, hphase, _⟩ := (h.fibers _ f hf).waiting (Nat.le_refl _)
  -- a fiber whose task is not released still waits
  have hnone := hidle f (List.mem_of_getElem? hf)
  rw [Fiber.operation, hphase] at hnone
  contradiction

theorem Inv.consumes (h : s.Inv capacity q c) (hcap : capacity < 2 ^ 32) :
    ∃ address length ring c',
      MpscRingBuffer.consume capacity s.queue.ring = .ok ((address, length), ring) ∧
      length = total size (readyRun q.pending) ∧
      (0 < length → address = q.pending.head?.map start) ∧
      Refines capacity ring (q.observe .consume (.consumed address length)) c' := by
  have ⟨result, ring, c', heq, hallow, hrefines, _⟩ := h.refines.consume hcap
  have ⟨⟨⟨address, length⟩, ring'⟩, hconsume, hreturn⟩ := bind_eq_ok heq
  have hreturn : Except.ok (Result.consumed address length, ring') = .ok (result, ring) := hreturn
  rw [Except.ok.injEq, Prod.mk.injEq] at hreturn
  rw [← hreturn.1] at hallow hrefines
  rw [← hreturn.2] at hrefines
  exact ⟨address, length, ring', c', hconsume, hallow.1, hallow.2, hrefines⟩

/-- What consume returns is the granted part of the queue, behind the released tasks. -/
theorem Inv.consume (h : s.Inv capacity q c) (hcap : capacity < 2 ^ 32)
    (hempty : ¬ s.queue.poped < s.queue.consumed)
    (hpops : s.fibers.length = q.released.length) :
    ∃ address length ring q' c',
      MpscRingBuffer.consume capacity s.queue.ring = .ok ((address, length), ring) ∧
      q'.pending = q.pending ∧
      (length = 0 → (s.setRing ring).Inv capacity q' c') ∧
      (length ≠ 0 → Inv capacity { s with queue := { s.queue with
        ring := ring, consumed := address.getD 0 + length, poped := address.getD 0 } } q' c') := by
  have ⟨address, length, ring', c', hconsume, hlength, haddress, hrefines⟩ := h.consumes hcap
  have hpos : ∀ r ∈ q.pending, 0 < r.size := fun r hr ↦ h.refines.ring.pos r (h.refines.items ▸ hr)
  have hcovered : covered length q.pending = (readyRun q.pending).length := by
    rw [hlength]
    exact covered_total (readyRun_initial q.pending) hpos
  refine ⟨address, length, ring', q.observe .consume (.consumed address length), c', hconsume, rfl,
    fun hzero ↦ ?_, fun hne ↦ ?_⟩
  -- nothing is granted, and the cursor stays where it is
  · refine ⟨hrefines, h.acquires, ⟨Nat.le_of_eq hpops.symm, ?_, ?_, ?_⟩, h.stored, h.writers,
      fun i f hf ↦ (h.fibers i f hf).keep rfl fun j r hr ↦ ⟨r, hr, rfl, rfl⟩⟩
    · show s.fibers.length ≤ q.released.length + _
      omega
    · intro hlt
      have hlt : s.fibers.length < q.released.length + covered length q.pending := hlt
      have hnone : covered length q.pending = 0 := by
        rw [hzero]
        exact covered_total List.nil_prefix hpos
      omega
    · intro _
      show s.queue.consumed ≤ s.queue.poped
      omega
  · refine ⟨hrefines, h.acquires, ⟨Nat.le_of_eq hpops.symm, ?_, ?_, ?_⟩, h.stored, h.writers,
      fun i f hf ↦ (h.fibers i f hf).keep rfl fun j r hr ↦ ⟨r, hr, rfl, rfl⟩⟩
    · show s.fibers.length ≤ q.released.length + _
      omega
    · intro _
      have hrun : readyRun q.pending ≠ [] := by
        intro hnil
        rw [hnil, total_nil] at hlength
        exact hne hlength
      have hfirst : 0 < (readyRun q.pending).length := List.length_pos_iff.mpr hrun
      have htake := List.prefix_iff_eq_take.mp (readyRun_initial q.pending)
      have hpending : q.pending ≠ [] := by
        intro hnil
        rw [hnil] at hrun
        exact hrun rfl
      have ⟨r, l, hl⟩ := List.exists_cons_of_ne_nil hpending
      have hr : q.pending[0]? = some r := by
        rw [hl]
        rfl
      have haddress := haddress (Nat.pos_of_ne_zero hne)
      rw [hl, List.head?_cons, Option.map_some] at haddress
      refine ⟨r, ?_, ?_, ?_⟩
      · show q.pending[s.fibers.length - q.released.length]? = _
        rw [hpops, Nat.sub_self, hr]
      · show address.getD 0 = r.start
        rw [haddress, Option.getD_some]
      · show address.getD 0 + length = r.start + total size
          ((q.pending.take (covered length q.pending)).drop (s.fibers.length - q.released.length))
        rw [hpops, Nat.sub_self, List.drop_zero, hcovered, ← htake, haddress, Option.getD_some,
          hlength]
    · intro heq
      have heq : s.fibers.length = q.released.length + covered length q.pending := heq
      have hnil : readyRun q.pending = [] := List.length_eq_zero_iff.mp (by omega)
      rw [hnil, total_nil] at hlength
      exact absurd hlength hne

theorem Inv.pop (h : s.Inv capacity q c) (hcap : capacity < 2 ^ 32)
    (hused : s.UsedUp (.pop v)) (hstep : s.launch capacity v = some t) :
    ∃ q' c', t.Inv capacity q' c' ∧ q'.pending = q.pending := by
  by_cases hlt : s.queue.poped < s.queue.consumed
  · exact ⟨q, c, h.launch hlt hstep, rfl⟩
  · have hpops := h.used_up (hused.resolve_left hlt)
    have ⟨address, length, ring, q', c', hconsume, hpending, hzero, hmore⟩ :=
      h.consume hcap hlt hpops
    rw [Context.launch, ContextTaskQueue.pop, if_neg hlt, hconsume] at hstep
    by_cases hlength : length = 0
    · rw [ok_bind] at hstep
      simp only [if_pos hlength] at hstep
      exact ⟨q', c', Option.some.inj hstep ▸ hzero hlength, hpending⟩
    · -- the second branch goes on like the first one with the new range
      refine ⟨q', c', (hmore hlength).launch (v := v) ?_ ?_, hpending⟩
      · show address.getD 0 < address.getD 0 + length
        omega
      · rw [ok_bind] at hstep
        simp only [if_neg hlength] at hstep
        rw [← hstep, Context.launch, ContextTaskQueue.pop, if_pos (by simp only; omega)]

/-! ## push -/

theorem WriterOk.of_ne {q' : Fifo n} {u : Fin n} {writer : Writer} (h : WriterOk q u writer)
    (hregistered : q'.registered u = q.registered u) (hreleased : q'.released = q.released)
    (hpending : ∀ (j : Nat) (r : Reservation n), q.pending[j]? = some r → r.owner = u →
      r.produced = false → q'.pending[j]? = some r)
    (hback : ∀ r ∈ q'.pending, r.owner = u → r.produced = false → r ∈ q.pending) :
    WriterOk q' u writer := by
  cases writer with
  | unregistered => exact hregistered.trans h
  | idle =>
    refine ⟨hregistered.trans h.1, fun hw ↦ h.2 ?_⟩
    have ⟨r, hr, howner, hprod⟩ := hw
    exact ⟨r, hback r hr howner hprod, howner, hprod⟩
  | acquired number task base =>
    have ⟨⟨j, hj, hnumber⟩, halone⟩ := h
    refine ⟨⟨j, hpending j _ hj rfl rfl, by rw [hreleased]; exact hnumber⟩, ?_⟩
    exact fun r hr howner hprod ↦ halone r (hback r hr howner hprod) howner hprod
  | written =>
    have ⟨r, hr, howner, hprod⟩ := h
    have ⟨j, hj⟩ := List.mem_iff_getElem?.mp hr
    exact ⟨r, List.mem_of_getElem? (hpending j r hj howner hprod), howner, hprod⟩

theorem WriterOk.release {q' : Fifo n} {u : Fin n} {writer : Writer} (h : WriterOk q u writer)
    (hregistered : q'.registered = q.registered) (hpending : q'.pending = q.pending.drop 1)
    (hcount : q'.released.length = q.released.length + 1)
    (hprod : ∀ r ∈ q.pending[0]?, r.produced ≠ false) : WriterOk q' u writer := by
  have hback : ∀ r ∈ q'.pending, r ∈ q.pending := by
    intro r hr
    rw [hpending] at hr
    exact List.mem_of_mem_drop hr
  -- a produced record leaves the queue, and the others move up
  have hshift : ∀ (j : Nat) (r : Reservation n), q.pending[j]? = some r → r.produced = false →
      0 < j ∧ q'.pending[j - 1]? = some r := by
    intro j r hr hrprod
    have hj : 0 < j := by
      by_contra hzero
      rw [show j = 0 by omega] at hr
      exact hprod r (Option.mem_def.mpr hr) hrprod
    refine ⟨hj, ?_⟩
    rw [hpending, List.getElem?_drop, show 1 + (j - 1) = j by omega]
    exact hr
  cases writer with
  | unregistered => exact (congrFun hregistered u).trans h
  | idle =>
    refine ⟨(congrFun hregistered u).trans h.1, fun hw ↦ h.2 ?_⟩
    have ⟨r, hr, howner, hrprod⟩ := hw
    exact ⟨r, hback r hr, howner, hrprod⟩
  | acquired number task base =>
    have ⟨⟨j, hj, hnumber⟩, halone⟩ := h
    have ⟨hpos, hj'⟩ := hshift j _ hj rfl
    exact ⟨⟨j - 1, hj', by omega⟩, fun r hr ↦ halone r (hback r hr)⟩
  | written =>
    have ⟨r, hr, howner, hrprod⟩ := h
    have ⟨j, hj⟩ := List.mem_iff_getElem?.mp hr
    exact ⟨r, List.mem_of_getElem? (hshift j r hj hrprod).2, howner, hrprod⟩

theorem setWriter_of_ne {writer : Writer} {u : Fin n} (hne : u ≠ w) :
    (s.setWriter w writer).writers u = s.writers u :=
  Function.update_of_ne hne _ _

theorem setWriter_self (s : Context n m) (w : Fin n) (writer : Writer) :
    (s.setWriter w writer).writers w = writer :=
  Function.update_self _ _ _

theorem Inv.registerWriter (h : s.Inv capacity q c) (hw : s.writers w = .unregistered) :
    ∃ q' c', Inv capacity ((s.setRing (s.queue.ring.registerWorker w)).setWriter w .idle) q' c' ∧
      q'.pending = q.pending := by
  have hok := h.writers w
  rw [hw] at hok
  -- only a registered writer can hold a record
  have hholds : ¬ q.Holds w := by
    intro ⟨r, hr, howner, hprod⟩
    have hreg := h.refines.ring.owner r (h.refines.items ▸ hr) hprod
    rw [howner, h.refines.registered, hok] at hreg
    contradiction
  refine ⟨q.observe (.registerWorker w) .done, c, ⟨h.refines.setWorker hholds fun _ ↦ rfl,
    h.acquires, ⟨h.cursor.lower, h.cursor.upper, h.cursor.inside, h.cursor.outside⟩, ?_, ?_,
    fun i f hf ↦ (h.fibers i f hf).keep rfl fun j r hr ↦ ⟨r, hr, rfl, rfl⟩⟩, rfl⟩
  · intro j r hr hready
    apply h.stored j r hr
    by_cases heq : r.owner = w
    · rw [heq, setWriter_self] at hready
      exact hready.imp_right fun hwritten ↦ by contradiction
    · rwa [setWriter_of_ne heq] at hready
  · intro u
    by_cases heq : u = w
    · subst heq
      rw [setWriter_self]
      exact ⟨Function.update_self _ _ _, hholds⟩
    · rw [setWriter_of_ne heq]
      exact (h.writers u).of_ne (Function.update_of_ne heq _ _) rfl (fun _ _ hr _ _ ↦ hr)
        fun _ hr _ _ ↦ hr

theorem Inv.acquire (h : s.Inv capacity q c) (hcap : capacity < 2 ^ 32) {task : Task}
    (hw : s.writers w = .idle) (hstep : s.step capacity (.acquire w task) = some t) :
    ∃ q' c', t.Inv capacity q' c' ∧ (q'.pending = q.pending ∨
      ∃ r : Reservation n, q'.pending = q.pending ++ [r] ∧ r.produced = false) := by
  have hok := h.writers w
  rw [hw] at hok
  have hsize : 1 ≤ task.acquiredSize := by
    have := task.offsets
    omega
  have ⟨result, ring, c', heq, hallow, hrefines, hsame⟩ :=
    h.refines.acquire hcap hok.1 hok.2 hsize
  have ⟨⟨address, ring'⟩, hacquire, hreturn⟩ := bind_eq_ok heq
  have hreturn : Except.ok (Result.acquired address, ring') = .ok (result, ring) := hreturn
  rw [Except.ok.injEq, Prod.mk.injEq] at hreturn
  rw [← hreturn.1] at hrefines hsame
  rw [← hreturn.2] at hrefines hsame
  rw [Context.step, if_pos hw, hacquire] at hstep
  cases address with
  | none =>
    rw [hsame w _ rfl rfl] at hstep
    exact ⟨q, c, Option.some.inj hstep ▸ h, Or.inl rfl⟩
  | some base =>
    rw [← Option.some.inj hstep]
    have hgranted := granted_le h.refines
    generalize hq : q.observe (.acquire w task.acquiredSize) (.acquired (some base)) = q'
      at hrefines
    have hpending : q'.pending = q.pending ++ [⟨w, base, task.acquiredSize, false⟩] := hq ▸ rfl
    have hlast : q'.pending[q.pending.length]? = some ⟨w, base, task.acquiredSize, false⟩ := by
      rw [hpending]
      exact List.getElem?_concat_length
    have hold : ∀ (j : Nat) (r : Reservation n), q.pending[j]? = some r →
        q'.pending[j]? = some r := by
      intro j r hr
      rw [hpending, List.getElem?_append_left (List.getElem?_eq_some_iff.mp hr).1]
      exact hr
    have hnew : ∀ (j : Nat) (r : Reservation n), q'.pending[j]? = some r →
        q.pending[j]? = some r ∨ r = ⟨w, base, task.acquiredSize, false⟩ := by
      intro j r hr
      rw [hpending] at hr
      by_cases hj : j < q.pending.length
      · rw [List.getElem?_append_left hj] at hr
        exact Or.inl hr
      · rw [List.getElem?_append_right (by omega), List.getElem?_singleton] at hr
        split at hr
        · exact Or.inr (Option.some.inj hr).symm
        · contradiction
    -- the new record is behind all others
    have hmem : ∀ r ∈ q'.pending, r ∈ q.pending ∨ r = ⟨w, base, task.acquiredSize, false⟩ := by
      intro r hr
      have ⟨j, hj⟩ := List.mem_iff_getElem?.mp hr
      exact (hnew j r hj).imp_left List.mem_of_getElem?
    have htake : q'.pending.take q.granted = q.pending.take q.granted := by
      rw [hpending]
      exact List.take_append_of_le_length hgranted
    have hreleased : q'.released = q.released := hq ▸ rfl
    have hgrants : q'.granted = q.granted := hq ▸ rfl
    have hregistered : q'.registered = q.registered := hq ▸ rfl
    refine ⟨q', c', ⟨hrefines, ?_, ⟨?_, ?_, ?_, ?_⟩, ?_, ?_,
      fun i f hf ↦ (h.fibers i f hf).keep hreleased fun j r hr ↦ ⟨r, hold j r hr, rfl, rfl⟩⟩,
      Or.inr ⟨_, hpending, rfl⟩⟩
    · show s.acquires + 1 = _
      rw [hpending, hreleased, List.length_append, List.length_singleton, h.acquires,
        Nat.add_assoc]
    · rw [hreleased]
      exact h.cursor.lower
    · rw [hreleased, hgrants]
      exact h.cursor.upper
    · rw [hreleased, hgrants, htake]
      intro hlt
      have ⟨r, hr, hpoped, hconsumed⟩ := h.cursor.inside hlt
      exact ⟨r, hold _ r hr, hpoped, hconsumed⟩
    · rw [hreleased, hgrants]
      exact h.cursor.outside
    · intro j r hr hready
      have hwriter := setWriter_self (s.setRing ring') w (.acquired s.acquires task base)
      rw [hreleased]
      cases hnew j r hr with
      | inl hr =>
        apply h.stored j r hr
        by_cases heq : r.owner = w
        · rw [heq] at hready
          exact hready.imp_right fun hwritten ↦ by
            rw [hwritten] at hwriter
            contradiction
        · have hother : ((s.setRing ring').setWriter w
            (.acquired s.acquires task base)).writers r.owner = _ := setWriter_of_ne heq
          exact hready.imp_right fun hwritten ↦ hother.symm.trans hwritten
      | inr hr =>
        rw [hr] at hready
        cases hready with
        | inl hprod => contradiction
        | inr hwritten =>
          rw [hwritten] at hwriter
          contradiction
    · intro u
      by_cases heq : u = w
      · subst heq
        show WriterOk q' u (((s.setRing ring').setWriter u _).writers u)
        rw [setWriter_self]
        refine ⟨⟨q.pending.length, hlast, by rw [hreleased]; exact h.acquires⟩, ?_⟩
        intro r hr howner hprod
        cases hmem r hr with
        | inl hr => exact absurd ⟨r, hr, howner, hprod⟩ hok.2
        | inr hr => rw [hr]
      · show WriterOk q' u (((s.setRing ring').setWriter w _).writers u)
        rw [setWriter_of_ne heq]
        apply (h.writers u).of_ne (congrFun hregistered u) hreleased
          (fun j r hr _ _ ↦ hold j r hr)
        intro r hr howner _
        cases hmem r hr with
        | inl hr => exact hr
        | inr hr =>
          rw [hr] at howner
          exact absurd howner.symm heq

theorem Inv.write (h : s.Inv capacity q c) (hcap : capacity < 2 ^ 32) {number base : Nat}
    {task : Task} (hw : s.writers w = .acquired number task base) :
    Inv capacity { s.setWriter w .written with
      queue := { s.queue with memory := writeRecord s.queue.memory base number task } } q c := by
  have hok := h.writers w
  rw [hw] at hok
  have ⟨⟨j, hj, hnumber⟩, halone⟩ := hok
  have hmem : (⟨w, base, task.acquiredSize, false⟩ : Reservation n) ∈ c.items :=
    h.refines.items ▸ List.mem_of_getElem? hj
  have hend := h.refines.ring.fits.end_le hmem
  have hpairs := h.refines.ring.fits.pairwise_disjoint
  rw [h.refines.items] at hpairs
  refine ⟨h.refines, h.acquires, ⟨h.cursor.lower, h.cursor.upper, h.cursor.inside,
    h.cursor.outside⟩, ?_, ?_, h.fibers⟩
  · intro i r hr hready
    by_cases heq : i = j
    · rw [heq, hj, Option.some.injEq] at hr
      rw [← hr, heq, ← hnumber]
      have hend : base + task.acquiredSize ≤ capacity := hend
      exact writeRecord_stores _ _ _ _ (by omega)
    · -- the records of two reservations share no byte
      have hdisjoint : r.start + r.size ≤ base ∨ base + task.acquiredSize ≤ r.start := by
        have ⟨hi, hi'⟩ := List.getElem?_eq_some_iff.mp hr
        have ⟨hj, hj'⟩ := List.getElem?_eq_some_iff.mp hj
        rw [List.pairwise_iff_getElem] at hpairs
        by_cases hlt : i < j
        · have := hpairs i j hi hj hlt
          rw [hi', hj'] at this
          exact this
        · have := hpairs j i hj hi (by omega)
          rw [hi', hj'] at this
          exact this.symm
      have hold : Stores s.queue.memory r.start (q.released.length + i) r.size := by
        apply h.stored i r hr
        by_cases howner : r.owner = w
        · -- a thread writes to one record at a time
          have hpos := pos_of_getElem? h.refines hr
          by_contra hnot
          have hprod : r.produced = false := by
            rw [← Bool.not_eq_true]
            exact fun hprod ↦ hnot (Or.inl hprod)
          have := halone r (List.mem_of_getElem? hr) howner hprod
          have := task.offsets
          omega
        · exact hready.imp_right fun hwritten ↦ (setWriter_of_ne howner).symm.trans hwritten
      exact hold.agree (writeRecord_agree _ _ _ _ hdisjoint.symm)
  · intro u
    by_cases heq : u = w
    · subst heq
      show WriterOk q u ((s.setWriter u .written).writers u)
      rw [setWriter_self]
      exact ⟨_, List.mem_of_getElem? hj, rfl, rfl⟩
    · show WriterOk q u ((s.setWriter w .written).writers u)
      rw [setWriter_of_ne heq]
      exact h.writers u

theorem Inv.produce (h : s.Inv capacity q c) (hcap : capacity < 2 ^ 32)
    (hw : s.writers w = .written) (hstep : s.step capacity (.produce w) = some t) :
    ∃ q' c', t.Inv capacity q' c' := by
  have hok := h.writers w
  rw [hw] at hok
  have hregistered : q.registered w = true := by
    obtain ⟨r, hr, howner, hprod⟩ := hok
    have hreg := h.refines.ring.owner r (h.refines.items ▸ hr) hprod
    rwa [howner, h.refines.registered] at hreg
  obtain ⟨result, ring, c', heq, _, hrefines, _⟩ := h.refines.produce hcap hok
  obtain ⟨ring', hproduce, hreturn⟩ := bind_eq_ok heq
  have hreturn : Except.ok (Result.done, ring') = .ok (result, ring) := hreturn
  rw [Except.ok.injEq, Prod.mk.injEq] at hreturn
  rw [← hreturn.2] at hrefines
  rw [Context.step, if_pos hw, hproduce] at hstep
  rw [← Option.some.inj hstep]
  generalize hq : q.observe (.produce w) result = q' at hrefines
  have hpending : q'.pending = q.pending.map (markProduced w) := hq ▸ rfl
  have hreleased : q'.released = q.released := hq ▸ rfl
  have hgrants : q'.granted = q.granted := hq ▸ rfl
  have hregisters : q'.registered = q.registered := hq ▸ rfl
  have hmap : ∀ (j : Nat) (r : Reservation n), q.pending[j]? = some r →
      q'.pending[j]? = some (markProduced w r) := by
    intro j r hr
    rw [hpending, List.getElem?_map, hr]
    rfl
  -- the marks change no place and no size
  have hback : ∀ (j : Nat) (r : Reservation n), q'.pending[j]? = some r →
      ∃ r', q.pending[j]? = some r' ∧ r = markProduced w r' := by
    intro j r hr
    rw [hpending, List.getElem?_map] at hr
    obtain ⟨r', hr', heq⟩ := Option.map_eq_some_iff.mp hr
    exact ⟨r', hr', heq.symm⟩
  have hwaiting : ∀ (j : Nat) (r : Reservation n), q.pending[j]? = some r →
      ∃ r' : Reservation n, q'.pending[j]? = some r' ∧ r'.start = r.start ∧ r'.size = r.size :=
    fun j r hr ↦ ⟨_, hmap j r hr, markProduced_start w r, markProduced_size w r⟩
  refine ⟨q', c', hrefines, ?_, ⟨?_, ?_, ?_, ?_⟩, ?_, ?_,
    fun i f hf ↦ (h.fibers i f hf).keep hreleased hwaiting⟩
  · rw [hpending, hreleased, List.length_map]
    exact h.acquires
  · rw [hreleased]
    exact h.cursor.lower
  · rw [hreleased, hgrants]
    exact h.cursor.upper
  · rw [hreleased, hgrants]
    intro hlt
    obtain ⟨r, hr, hpoped, hconsumed⟩ := h.cursor.inside hlt
    refine ⟨_, hmap _ r hr, ?_, ?_⟩
    · rw [markProduced_start]
      exact hpoped
    · rw [markProduced_start, hpending, ← List.map_take, ← List.map_drop,
        total_map _ _ (markProduced_size w)]
      exact hconsumed
  · rw [hreleased, hgrants]
    exact h.cursor.outside
  · intro j r hr hready
    obtain ⟨r', hr', heq⟩ := hback j r hr
    rw [heq, hreleased, markProduced_start, markProduced_size]
    apply h.stored j r' hr'
    by_cases howner : r'.owner = w
    · exact Or.inr (howner ▸ hw)
    · rw [heq, markProduced, if_neg howner] at hready
      have hother : ((s.setRing ring').setWriter w .idle).writers r'.owner = _ :=
        setWriter_of_ne howner
      exact hready.imp_right fun hwritten ↦ hother.symm.trans hwritten
  · intro u
    by_cases heq : u = w
    · subst heq
      rw [setWriter_self]
      refine ⟨(congrFun hregisters u).trans hregistered, ?_⟩
      rintro ⟨r, hr, howner, hprod⟩
      obtain ⟨j, hj⟩ := List.mem_iff_getElem?.mp hr
      obtain ⟨r', hr', heq⟩ := hback j r hj
      rw [heq, markProduced_produced_eq_false] at hprod
      rw [heq, markProduced_owner] at howner
      exact hprod.1 howner
    · rw [setWriter_of_ne heq]
      apply (h.writers u).of_ne (congrFun hregisters u) hreleased
      · intro j r hr howner _
        rw [hmap j r hr, markProduced, if_neg fun hc ↦ heq (howner.symm.trans hc)]
      · intro r hr howner _
        obtain ⟨j, hj⟩ := List.mem_iff_getElem?.mp hr
        obtain ⟨r', hr', heq'⟩ := hback j r hj
        rw [heq', markProduced_owner] at howner
        rw [heq', markProduced, if_neg fun hc ↦ heq (howner.symm.trans hc)]
        exact List.mem_of_getElem? hr'

/-! ## Fibers -/

theorem Inv.setFiber (h : s.Inv capacity q c) {i : Nat} {f : Fiber m} (hf : FiberOk q i f) :
    (s.setFiber i f).Inv capacity q c where
  refines := h.refines
  acquires := h.acquires
  cursor := by
    show CursorOk q s.queue (s.fibers.set i f).length
    rw [List.length_set]
    exact h.cursor
  stored := h.stored
  writers := h.writers
  fibers k g hg := by
    have hg : (s.fibers.set i f)[k]? = some g := hg
    by_cases heq : i = k
    · subst heq
      have hlt := (List.getElem?_eq_some_iff.mp hg).1
      rw [List.length_set] at hlt
      rw [List.getElem?_set_self hlt, Option.some.injEq] at hg
      exact hg ▸ hf
    · rw [List.getElem?_set_ne heq] at hg
      exact h.fibers k g hg

theorem Inv.steal (h : s.Inv capacity q c) {i : Nat} {f : Fiber m} (hf : s.fibers[i]? = some f) :
    (s.setFiber i { f with worker := v }).Inv capacity q c := by
  have hok := h.fibers i f hf
  exact h.setFiber ⟨hok.task, hok.performed, hok.waiting⟩

theorem Inv.invoke (h : s.Inv capacity q c) {i : Nat} {f : Fiber m} {handler : Option Nat}
    (hf : s.fibers[i]? = some f) (hphase : f.phase = .invoking handler) :
    (s.setFiber i { f with phase := .done handler }).Inv capacity q c := by
  have hok := h.fibers i f hf
  apply h.setFiber
  refine ⟨hok.task, fun hlt ↦ ?_, fun hle ↦ ?_⟩
  · cases hok.performed hlt with
    | inl hinvoking =>
      rw [hphase, Phase.invoking.injEq] at hinvoking
      exact Or.inr (congrArg Phase.done hinvoking)
    | inr hdone =>
      rw [hphase] at hdone
      contradiction
  · have ⟨r, _, hready, _⟩ := hok.waiting hle
    rw [hphase] at hready
    contradiction

/-- A fiber that performs the oldest record is the one of the first popped and unreleased task. -/
theorem Inv.oldest (h : s.Inv capacity q c) {i operation : Nat} {f : Fiber m}
    (hf : s.fibers[i]? = some f) (hphase : f.phase = .ready operation)
    (holdest : operation - operationOffset = s.queue.ring.current) :
    i = q.released.length ∧ ∃ r, q.pending[0]? = some r ∧ 0 < q.granted ∧ r.produced = true ∧
      operation = r.start + operationOffset := by
  have hok := h.fibers i f hf
  have hlt := (List.getElem?_eq_some_iff.mp hf).1
  have hle : q.released.length ≤ i := by
    by_contra hlt
    cases hok.performed (by omega) with
    | inl hinvoking =>
      rw [hphase] at hinvoking
      contradiction
    | inr hdone =>
      rw [hphase] at hdone
      contradiction
  have ⟨r, hr, hready, _⟩ := hok.waiting hle
  rw [hphase, Phase.ready.injEq] at hready
  have hupper := h.cursor.upper
  have ⟨hstart, hprod⟩ := granted_reservation h.refines hr (by omega)
  have hcurrent : s.queue.ring.consumerBarrier = r.start := by
    rw [show s.queue.ring.consumerBarrier = s.queue.ring.current from rfl, ← holdest, hready]
    omega
  -- a later record lies behind the bytes of the first one
  have hzero : i - q.released.length = 0 := by
    by_contra hne
    have ⟨r₀, hr₀⟩ : ∃ r₀, q.pending[0]? = some r₀ := by
      have := (List.getElem?_eq_some_iff.mp hr).1
      exact ⟨_, List.getElem?_eq_getElem (by omega)⟩
    have hpos := pos_of_getElem? h.refines hr₀
    have htake := total_take_succ size hr₀
    have hle := total_take_le size (q.pending.take (i - q.released.length)) 1
    rw [List.take_take, Nat.min_eq_left (by omega)] at hle
    rw [Nat.zero_add] at htake
    omega
  rw [hzero] at hr
  exact ⟨by omega, r, hr, by omega, hprod, hready⟩

theorem Inv.perform (h : s.Inv capacity q c) (hcap : capacity < 2 ^ 32) {i operation : Nat}
    {f : Fiber m} (hf : s.fibers[i]? = some f) (hphase : f.phase = .ready operation)
    (holdest : operation - operationOffset = s.queue.ring.current) {queue : ContextTaskQueue n}
    (hqueue : deallocate capacity s.queue operation = .ok queue) :
    ∃ q' c', Inv capacity { s.setFiber i { f with phase := .invoking (s.queue.taskAt operation) }
      with queue := queue } q' c' := by
  have ⟨hi, r, hr, hgranted, hprod, hoperation⟩ := h.oldest hf hphase holdest
  have hok := h.fibers i f hf
  have hstores := h.stored 0 r hr (Or.inl hprod)
  have hlength : recordLength s.queue.memory operation = total size (q.pending.take 1) := by
    rw [recordLength, hoperation, Nat.add_sub_cancel, hstores.header, ← Nat.zero_add 1,
      total_take_succ size hr, List.take_zero, total_nil, Nat.zero_add]
  have ⟨result, ring, c', heq, _, hrefines, _⟩ :=
    h.refines.release hcap (show 1 ≤ q.granted from hgranted)
  have ⟨ring', hrelease, hreturn⟩ := bind_eq_ok heq
  have hreturn : Except.ok (Result.done, ring') = .ok (result, ring) := hreturn
  rw [Except.ok.injEq, Prod.mk.injEq] at hreturn
  rw [← hreturn.2] at hrefines
  have hqueue : (Except.ok { s.queue with ring := ring' } : Except Stop _) = .ok queue := by
    rw [← hqueue, deallocate, hlength, hrelease]
    rfl
  rw [← Except.ok.inj hqueue]
  generalize hq : q.observe (.release 1) result = q' at hrefines
  have hpending : q'.pending = q.pending.drop 1 := hq ▸ rfl
  have hreleased : q'.released = q.released ++ q.pending.take 1 := hq ▸ rfl
  have hgrants : q'.granted = q.granted - 1 := hq ▸ rfl
  have hregisters : q'.registered = q.registered := hq ▸ rfl
  have hlt := (List.getElem?_eq_some_iff.mp hr).1
  -- the tasks keep their numbers: one more is released, and the others move up
  have hcount : q'.released.length = q.released.length + 1 := by
    rw [hreleased, List.length_append, List.length_take]
    omega
  have hshift : ∀ j, q'.pending[j]? = q.pending[j + 1]? := by
    intro j
    rw [hpending, List.getElem?_drop, Nat.add_comm]
  have hbound := (List.getElem?_eq_some_iff.mp hf).1
  have hupper := h.cursor.upper
  refine ⟨q', c', hrefines, ?_, ⟨?_, ?_, ?_, ?_⟩, ?_, ?_, ?_⟩
  · rw [hcount, hpending, List.length_drop]
    have := h.acquires
    show s.acquires = _
    omega
  · show _ ≤ (s.fibers.set i _).length
    rw [List.length_set]
    omega
  · show (s.fibers.set i _).length ≤ _
    rw [List.length_set]
    omega
  · show (s.fibers.set i _).length < _ → _
    intro hlt
    rw [List.length_set, hcount, hgrants] at hlt
    have ⟨r', hr', hpoped, hconsumed⟩ := h.cursor.inside (by omega)
    refine ⟨r', ?_, hpoped, ?_⟩
    · show q'.pending[(s.fibers.set i _).length - _]? = _
      rw [List.length_set, hcount, hshift, ← hr']
      congr 1
      omega
    · show s.queue.consumed = r'.start + total size ((_ : List _).drop ((s.fibers.set i _).length - _))
      rw [List.length_set, hcount, hpending, hgrants, List.take_drop, List.drop_drop, hconsumed]
      congr 3
      · omega
      · congr 1
        omega
  · show (s.fibers.set i _).length = _ → _
    rw [List.length_set, hcount, hgrants]
    intro heq
    exact h.cursor.outside (by omega)
  · intro j r' hr' hready
    rw [hshift] at hr'
    rw [hcount, show q.released.length + 1 + j = q.released.length + (j + 1) by omega]
    exact h.stored (j + 1) r' hr' hready
  · intro u
    apply (h.writers u).release hregisters hpending hcount
    intro r' hr' hrprod
    rw [hr, Option.mem_some_iff] at hr'
    rw [hr', hrprod] at hprod
    contradiction
  · intro k g hg
    have hg : (s.fibers.set i _)[k]? = some g := hg
    by_cases heq : i = k
    · subst heq
      rw [List.getElem?_set_self hbound, Option.some.injEq] at hg
      rw [← hg]
      refine ⟨hok.task, fun _ ↦ Or.inl ?_, fun hle ↦ by omega⟩
      show Phase.invoking (s.queue.taskAt operation) = .invoking (some i)
      rw [hoperation, hi]
      exact congrArg Phase.invoking hstores.readObject
    · rw [List.getElem?_set_ne heq] at hg
      have hother := h.fibers k g hg
      refine ⟨hother.task, fun hlt ↦ hother.performed (by omega), fun hle ↦ ?_⟩
      have ⟨r', hr', hready, hrecord⟩ := hother.waiting (by omega)
      refine ⟨r', ?_, hready, hrecord⟩
      rw [hcount, hshift, ← hr']
      congr 1
      omega

end Context

end Ustevent
