import Ustevent.Reasoning.Runs
import Ustevent.Ring.Consume

/-!
# MpscRingBuffer refines the queue of reservations

A session runs the calls of the clients against the code and lets the queue observe the results.
The invariant of a session says that the queue's pending reservations are the items of a layout of
the ring buffer, and that the consumer holds a produced part of its front.
-/

namespace Ustevent.MpscRingBuffer

open Reasoning Reservation

variable {n : Nat}

/-- One call, with the result that the client sees. -/
def apply (capacity : Nat) (rb : MpscRingBuffer n) (fifo : Fifo n) :
    Call n → Except Stop (Result × MpscRingBuffer n)
  | .registerWorker w => return (.done, rb.registerWorker w)
  | .unregisterWorker w => return (.done, rb.unregisterWorker w)
  | .acquire w size => do
    let (address, rb) ← acquire capacity rb w size
    return (.acquired address, rb)
  | .produce w => return (.done, ← produce rb w)
  | .consume => do
    let ((address, size), rb) ← consume capacity rb
    return (.consumed address size, rb)
  | .release k => return (.done, ← release capacity rb (total size (fifo.pending.take k)))

structure Session (n : Nat) where
  ring : MpscRingBuffer n
  fifo : Fifo n
  history : List (Call n × Result)

namespace Session

def initial (n : Nat) : Session n := ⟨create n, Fifo.empty n, []⟩

/-- A permitted call that returns. -/
def step (capacity : Nat) (s : Session n) (call : Call n) : Option (Session n) :=
  if s.fifo.Permits call then
    match MpscRingBuffer.apply capacity s.ring s.fifo call with
    | .ok (result, ring) => some ⟨ring, s.fifo.observe call result, s.history ++ [(call, result)]⟩
    | .error _ => none
  else none

end Session

/-- The queue's reservations are laid out in the ring buffer; what the consumer was given lies in
front of it. -/
structure Refines (capacity : Nat) (rb : MpscRingBuffer n) (q : Fifo n)
    (c : Circular (Reservation n)) : Prop where
  ring : RingInv capacity rb c
  items : c.items = q.pending
  registered : ∀ w, rb.registered w = q.registered w
  granted : q.granted ≤ c.front.length
  produced : ∀ r ∈ c.front.take q.granted, r.produced = true
  released : ∀ r ∈ q.released, r.produced = true

variable {capacity : Nat} {rb : MpscRingBuffer n} {q : Fifo n} {c : Circular (Reservation n)}

theorem refines_create (h : 1 ≤ capacity) :
    Refines capacity (create n) (Fifo.empty n) Circular.empty where
  ring := ringInv_create h
  items := rfl
  registered _ := rfl
  granted := Nat.le_refl 0
  produced _ hr := absurd hr List.not_mem_nil
  released _ hr := absurd hr List.not_mem_nil

/-- The bytes of a prefix cover exactly its reservations. -/
theorem covered_total {l m : List (Reservation n)} (hinit : m <+: l)
    (hpos : ∀ r ∈ l, 0 < r.size) : covered (total size m) l = m.length := by
  induction m generalizing l with
  | nil =>
    cases l with
    | nil => rfl
    | cons r l =>
      have hr := hpos r List.mem_cons_self
      rw [total_nil, covered, if_neg (by omega), List.length_nil]
  | cons r m ih =>
    cases l with
    | nil => exact absurd (List.prefix_nil.mp hinit) (List.cons_ne_nil r m)
    | cons s l =>
      -- each reservation of the prefix takes its bytes away from the total
      have ⟨heq, hrest⟩ := List.cons_prefix_cons.mp hinit
      subst heq
      rw [total_cons, covered, if_pos (by omega), Nat.add_sub_cancel_left, List.length_cons,
        ih hrest fun q hq ↦ hpos q (List.mem_cons_of_mem r hq)]

/-- A worker that holds no reservation owns produced ones only. -/
theorem Refines.idle (h : Refines capacity rb q c) {w : Fin n} (hw : ¬ q.Holds w) :
    ∀ r ∈ c.items, r.owner = w → r.produced = true := by
  intro r hr howner
  by_contra hprod
  apply hw
  rw [h.items] at hr
  exact ⟨r, hr, howner, by simpa using hprod⟩

theorem Refines.setWorker (h : Refines capacity rb q c) {w : Fin n} {worker : Worker}
    (hw : ¬ q.Holds w) (hseen : worker.registered = true → worker.seen = maxOffset) :
    Refines capacity (rb.setWorker w worker)
      { q with registered := Function.update q.registered w worker.registered } c where
  ring := h.ring.setWorker_idle (h.idle hw) hseen
  items := h.items
  registered v := by
    by_cases heq : v = w
    · subst heq
      simp only [MpscRingBuffer.registered, MpscRingBuffer.setWorker, Function.update_self]
    · have := h.registered v
      simp only [MpscRingBuffer.registered, MpscRingBuffer.setWorker, Function.update_of_ne heq]
      exact this
  granted := h.granted
  produced := h.produced
  released := h.released

/-- The last reservation of a layout shares no byte with the others and ends inside the buffer. -/
theorem RingInv.last_disjoint (h : RingInv capacity rb c) {l : List (Reservation n)}
    {r : Reservation n} (hitems : c.items = l ++ [r]) :
    r.start + r.size ≤ capacity ∧ ∀ s ∈ l, Disjoint start size s r := by
  have hpairs := h.fits.pairwise_disjoint
  rw [hitems, List.pairwise_append] at hpairs
  constructor
  · apply h.fits.end_le
    rw [hitems]
    exact List.mem_append_right l (List.mem_singleton.mpr rfl)
  · intro s hs
    exact hpairs.2.2 s hs r (List.mem_singleton.mpr rfl)

/-! ## The step lemma -/

/-- The call returns with a result that the queue allows, and the refinement goes on. -/
def Serves (capacity : Nat) (rb : MpscRingBuffer n) (q : Fifo n) (call : Call n) : Prop :=
  ∃ result rb' c', MpscRingBuffer.apply capacity rb q call = .ok (result, rb') ∧
    q.Allows capacity call result ∧ Refines capacity rb' (q.observe call result) c' ∧
    ∀ w size, call = .acquire w size → result = .acquired none → rb' = rb

theorem Refines.registerWorker (h : Refines capacity rb q c) {w : Fin n}
    (hw : q.registered w = false) : Serves capacity rb q (.registerWorker w) := by
  have hholds : ¬ q.Holds w := by
    intro ⟨r, hr, howner, hprod⟩
    have hreg := h.ring.owner r (h.items ▸ hr) hprod
    rw [howner, h.registered, hw] at hreg
    contradiction
  exact ⟨.done, _, c, rfl, rfl, h.setWorker hholds fun _ ↦ rfl, nofun⟩

theorem Refines.unregisterWorker (h : Refines capacity rb q c) {w : Fin n}
    (hw : ¬ q.Holds w) : Serves capacity rb q (.unregisterWorker w) :=
  ⟨.done, _, c, rfl, rfl, h.setWorker hw nofun, nofun⟩

theorem Refines.acquire (h : Refines capacity rb q c) (hcap : capacity < 2 ^ 32) {w : Fin n}
    {size : Nat} (hreg : q.registered w = true) (hw : ¬ q.Holds w) (hsize : 1 ≤ size) :
    Serves capacity rb q (.acquire w size) := by
  have hring := h.ring.acquire hcap (by rw [h.registered, hreg]) (h.idle hw) hsize
  cases hring with
  | inl hfull =>
    exact ⟨.acquired none, rb, c, by rw [apply, hfull]; rfl, nofun, h, fun _ _ _ _ ↦ rfl⟩
  | inr hroom =>
    have ⟨a, rb', c', heq, hinv, hitems, hfront, hsame⟩ := hroom
    have hlast := hinv.last_disjoint hitems
    -- what has been granted is in front, where an acquire appends at most
    have hgranted : c'.front.take q.granted = c.front.take q.granted := by
      have ⟨l, hl⟩ := hfront
      rw [← hl, List.take_append_of_le_length h.granted]
    refine ⟨.acquired (some a), rb', c', by rw [apply, heq]; rfl, ?_, ?_, ?_⟩
    · intro b hb
      rw [Option.some.injEq] at hb
      rw [← hb, ← h.items]
      exact hlast
    · exact
      { ring := hinv
        items := by rw [hitems, h.items]; rfl
        registered := fun v ↦ (hsame v).trans (h.registered v)
        granted := Nat.le_trans h.granted hfront.length_le
        produced := by
          show ∀ r ∈ c'.front.take q.granted, r.produced = true
          rw [hgranted]
          exact h.produced
        released := h.released }
    · intro _ _ _ hnone
      simp at hnone

theorem Refines.produce (h : Refines capacity rb q c) (hcap : capacity < 2 ^ 32) {w : Fin n}
    (hw : q.Holds w) : Serves capacity rb q (.produce w) := by
  have hholds : ∃ r ∈ c.items, r.owner = w ∧ r.produced = false := by
    rw [h.items]
    exact hw
  obtain ⟨heq, hinv⟩ := h.ring.produce hcap hholds
  refine ⟨.done, _, c.map (markProduced w), by rw [apply, heq]; rfl, rfl, ?_, nofun⟩
  exact
  { ring := hinv
    items := by
      show (c.map (markProduced w)).items = q.pending.map (markProduced w)
      rw [← h.items]
      simp only [Circular.items, Circular.map, List.map_append]
    registered := fun v ↦ (storeSeen_registered_of_eq rfl v).trans (h.registered v)
    granted := by
      show q.granted ≤ (c.front.map (markProduced w)).length
      rw [List.length_map]
      exact h.granted
    produced := by
      intro r hr
      have hr : r ∈ (c.front.map (markProduced w)).take q.granted := hr
      rw [← List.map_take] at hr
      obtain ⟨s, hs, heq⟩ := List.mem_map.mp hr
      have hsprod := h.produced s hs
      -- a reservation that was produced stays so
      by_contra hprod
      rw [← heq, Bool.not_eq_true, markProduced_produced_eq_false, hsprod] at hprod
      exact absurd hprod.2 (by decide)
    released := h.released }

theorem Refines.consume (h : Refines capacity rb q c) (hcap : capacity < 2 ^ 32) :
    Serves capacity rb q .consume := by
  have ⟨address, rb', c', heq, haddress, hinv, hitems, hworkers, hrun⟩ := h.ring.consume hcap
  rw [h.items] at heq haddress hrun hitems
  have hcovered : covered (total size (readyRun q.pending)) q.pending =
      (readyRun q.pending).length := by
    apply covered_total (readyRun_initial q.pending)
    intro r hr
    exact h.ring.pos r (h.items ▸ hr)
  -- the bytes that are returned are those of the ready run, which is granted
  refine ⟨.consumed address (total size (readyRun q.pending)), rb', c', by rw [apply, heq]; rfl,
    ⟨rfl, haddress⟩, ?_, nofun⟩
  exact
  { ring := hinv
    items := hitems
    registered := fun v ↦ by
      rw [MpscRingBuffer.registered, hworkers]
      exact h.registered v
    granted := by
      show covered (total size (readyRun q.pending)) q.pending ≤ c'.front.length
      rw [hcovered]
      exact hrun.length_le
    produced := by
      show ∀ r ∈ c'.front.take (covered (total size (readyRun q.pending)) q.pending),
        r.produced = true
      rw [hcovered, ← List.prefix_iff_eq_take.mp hrun]
      intro r hr
      exact readyRun_produced hr
    released := h.released }

theorem Refines.release (h : Refines capacity rb q c) (hcap : capacity < 2 ^ 32) {k : Nat}
    (hk : k ≤ q.granted) : Serves capacity rb q (.release k) := by
  have hprod : ∀ r ∈ c.front.take k, r.produced = true := by
    intro r hr
    exact h.produced r (List.take_subset_take_left c.front hk hr)
  have hlength := h.granted
  have ⟨rb', c', heq, hinv, hitems, hworkers, hfront⟩ :=
    h.ring.release hcap (Nat.le_trans hk h.granted) hprod
  have htake : q.pending.take k = c.front.take k := by
    rw [← h.items]
    exact List.take_append_of_le_length (by omega)
  rw [h.items] at heq hitems
  refine ⟨.done, rb', c', by rw [apply, heq]; rfl, rfl, ?_, nofun⟩
  -- a release to the end of the buffer uses up all that was granted
  have hgranted : q.granted - k ≤ c'.front.length ∧
      ∀ r ∈ c'.front.take (q.granted - k), r.produced = true := by
    cases hfront with
    | inl hdrop =>
      rw [hdrop]
      constructor
      · rw [List.length_drop]
        omega
      · intro r hr
        rw [← List.drop_take] at hr
        exact h.produced r (List.mem_of_mem_drop hr)
    | inr hnil =>
      have hle := List.drop_eq_nil_iff.mp hnil
      rw [show q.granted - k = 0 by omega, List.take_zero]
      exact ⟨Nat.zero_le _, fun r hr ↦ absurd hr List.not_mem_nil⟩
  exact
  { ring := hinv
    items := hitems
    registered := fun v ↦ by
      rw [MpscRingBuffer.registered, hworkers]
      exact h.registered v
    granted := hgranted.1
    produced := hgranted.2
    released := by
      intro r hr
      cases List.mem_append.mp hr with
      | inl hold => exact h.released r hold
      | inr hnew => exact hprod r (htake ▸ hnew) }

theorem Refines.serves (h : Refines capacity rb q c) (hcap : capacity < 2 ^ 32) (call : Call n)
    (hpermit : q.Permits call) : Serves capacity rb q call := by
  cases call with
  | registerWorker w => exact h.registerWorker hpermit
  | unregisterWorker w => exact h.unregisterWorker hpermit.2
  | acquire w size => exact h.acquire hcap hpermit.1 hpermit.2.1 hpermit.2.2
  | produce w => exact h.produce hcap hpermit
  | consume => exact h.consume hcap
  | release k => exact h.release hcap hpermit

/-! ## Runs of a session -/

/-- No call of the queue loses, repeats or reorders a reservation. -/
theorem observe_acquisitions (q : Fifo n) (call : Call n) (result : Result) :
    ((q.observe call result).released ++ (q.observe call result).pending).map range =
      (q.released ++ q.pending).map range ++ Fifo.acquisitions [(call, result)] := by
  cases call with
  | acquire w size =>
    cases result with
    | acquired address =>
      cases address with
      | none => exact (List.append_nil _).symm
      | some a =>
        simp only [Fifo.observe, Fifo.acquisitions, ← List.append_assoc, List.map_append]
        rfl
    | done | consumed => exact (List.append_nil _).symm
  | produce w =>
    have hmap : (q.pending.map (markProduced w)).map range = q.pending.map range := by
      rw [List.map_map]
      apply List.map_congr_left
      intro r _
      exact range_markProduced w r
    simp only [Fifo.observe, List.map_append, hmap]
    exact (List.append_nil _).symm
  | release k =>
    simp only [Fifo.observe, List.append_assoc, List.take_append_drop]
    exact (List.append_nil _).symm
  | consume =>
    cases result with
    | done | acquired | consumed => exact (List.append_nil _).symm
  | registerWorker w | unregisterWorker w => exact (List.append_nil _).symm

/-- The invariant of a session. -/
structure Session.Inv (capacity : Nat) (s : Session n) : Prop where
  refines : ∃ c, Refines capacity s.ring s.fifo c
  history : Fifo.Run capacity (Fifo.empty n) s.history s.fifo
  order : (s.fifo.released ++ s.fifo.pending).map range = Fifo.acquisitions s.history

theorem Session.inv_initial (h : 1 ≤ capacity) : (Session.initial n).Inv capacity where
  refines := ⟨_, refines_create h⟩
  history := .nil _
  order := rfl

theorem Session.Inv.step (hcap : capacity < 2 ^ 32) (s : Session n) (call : Call n)
    (t : Session n) (h : s.Inv capacity) (hstep : s.step capacity call = some t) :
    t.Inv capacity := by
  have ⟨c, hc⟩ := h.refines
  by_cases hpermit : s.fifo.Permits call
  · have ⟨result, rb', c', heq, hallow, hrefines, _⟩ := hc.serves hcap call hpermit
    rw [Session.step, if_pos hpermit, heq, Option.some.injEq] at hstep
    subst hstep
    exact
    { refines := ⟨c', hrefines⟩
      history := .concat h.history hpermit hallow
      order := by
        rw [observe_acquisitions, h.order]
        simp only [Fifo.acquisitions, List.filterMap_append] }
  · rw [Session.step, if_neg hpermit] at hstep
    contradiction

theorem Session.step_history {s t : Session n} {call : Call n}
    (h : s.step capacity call = some t) :
    t.history.map Prod.fst = s.history.map Prod.fst ++ [call] := by
  rw [Session.step] at h
  split at h
  · split at h
    · rw [Option.some.injEq] at h
      rw [← h, List.map_append, List.map_singleton]
    · contradiction
  · contradiction

theorem Session.run_history {s t : Session n} {calls : List (Call n)}
    (h : run (Session.step capacity) s calls = some t) :
    t.history.map Prod.fst = s.history.map Prod.fst ++ calls := by
  induction calls generalizing s with
  | nil =>
    rw [run_nil, Option.some.injEq] at h
    rw [h, List.append_nil]
  | cons call calls ih =>
    rw [run_cons, Option.bind_eq_some_iff] at h
    have ⟨u, hu, hrest⟩ := h
    rw [ih hrest, Session.step_history hu, List.append_assoc, List.singleton_append]

/-- Every run of the ring buffer is one of the queue: the results are those that the queue allows,
and each reservation is released at most once, in acquire order and produced.  No permitted call
fails, and an acquire that returns false leaves the offsets as they were. -/
theorem refines_fifo (h : 1 ≤ capacity) (hcap : capacity < 2 ^ 32) {calls : List (Call n)}
    {s : Session n} (hrun : run (Session.step capacity) (Session.initial n) calls = some s) :
    s.history.map Prod.fst = calls ∧
    Fifo.Run capacity (Fifo.empty n) s.history s.fifo ∧
    (s.fifo.released ++ s.fifo.pending).map range = Fifo.acquisitions s.history ∧
    (∀ r ∈ s.fifo.released, r.produced = true) ∧
    ∀ call, s.fifo.Permits call → ∃ result rb',
      MpscRingBuffer.apply capacity s.ring s.fifo call = .ok (result, rb') ∧
      s.fifo.Allows capacity call result ∧
      ∀ w size, call = .acquire w size → result = .acquired none →
        rb'.producerBarrier = s.ring.producerBarrier ∧ rb'.end_ = s.ring.end_ ∧
          rb'.consumerBarrier = s.ring.consumerBarrier := by
  have hinv := invariant_of_run (Session.Inv capacity) (Session.Inv.step hcap)
    (Session.inv_initial h) hrun
  have ⟨c, hc⟩ := hinv.refines
  refine ⟨Session.run_history hrun, hinv.history, hinv.order, hc.released, ?_⟩
  intro call hpermit
  have ⟨result, rb', c', heq, hallow, _, hfalse⟩ := hc.serves hcap call hpermit
  refine ⟨result, rb', heq, hallow, ?_⟩
  intro w size hcall hresult
  rw [hfalse w size hcall hresult]
  exact ⟨rfl, rfl, rfl⟩

/-- An acquire that finds no room and, after a release, one that cuts the buffer off. -/
theorem refines_fifo_wrapping : ∃ s : Session 2,
    run (Session.step 8) (Session.initial 2)
      [.registerWorker 0, .registerWorker 1, .acquire 0 3, .acquire 1 3, .produce 0, .consume,
        .release 1, .acquire 0 4, .produce 1, .consume, .release 1, .acquire 0 4, .produce 0,
        .consume] = some s ∧
    (s.fifo.released ++ s.fifo.pending).map range = Fifo.acquisitions s.history := by
  have hrun := Option.isSome_iff_exists.mp (show (run (Session.step 8) (Session.initial 2)
      [.registerWorker 0, .registerWorker 1, .acquire 0 3, .acquire 1 3, .produce 0, .consume,
        .release 1, .acquire 0 4, .produce 1, .consume, .release 1, .acquire 0 4, .produce 0,
        .consume]).isSome = true by decide +kernel)
  have ⟨s, hs⟩ := hrun
  exact ⟨s, hs, (refines_fifo (by decide) (by decide) hs).2.2.1⟩

end Ustevent.MpscRingBuffer
