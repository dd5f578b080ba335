import Mathlib.Data.List.Forall2
import Mathlib.Data.List.Pairwise
import Ustevent.Queue.Posting

/-!
# Posted tasks are performed once and in order

The records in the ring buffer are those of the tasks that have been pushed and not yet deallocated,
written as far as their threads have come.  A record that `consume` shows is whole, so that the worker
performs the tasks in the order of the compare-exchanges, each with what has been pushed for it.
-/

namespace Ustevent

open Reasoning MpscRingBuffer ContextTaskQueue Reservation

/-! ## A record that is being written -/

namespace ContextTaskQueue

variable {m m' : Buffer} {base number fields field : Nat} {task : Task} {a b : Nat}

def writeFields (base number : Nat) (task : Task) : Nat → Buffer → Buffer
  | 0, m => m
  | fields + 1, m => writeField base number task fields (writeFields base number task fields m)

theorem writeFields_fieldCount (m : Buffer) :
    writeFields base number task fieldCount m = writeRecord m base number task := rfl

theorem writeField_congr (h : m.Agree m' a b) :
    (writeField base number task field m).Agree (writeField base number task field m') a b := by
  unfold writeField
  split
  · exact h.write32 _ _
  · exact h.write32 _ _
  · exact h.writeObject _ _
  · exact h.write32 _ _
  · exact h.write32 _ _
  · exact h.writeBytes _ _
  · exact h.writeBytes _ _
  · exact h

/-- A field lies inside of its record. -/
theorem writeField_agree (h : base + task.acquiredSize ≤ a ∨ b ≤ base) :
    m.Agree (writeField base number task field m) a b := by
  have ⟨hoperation, hdescription, hend⟩ := task.offsets
  have hoffset : operationLengthOffset + 4 = operationOffset := rfl
  have hlength : descriptionLengthOffset task.operationLength =
    stackSizeOffset task.operationLength + 4 := rfl
  have hpos := task.pos
  unfold writeField
  split
  · exact Memory.write32_agree _ (by omega)
  · exact Memory.write32_agree _ (by omega)
  · exact Memory.writeObject_agree _ (by simp only; omega)
  · exact Memory.write32_agree _ (by omega)
  · exact Memory.write32_agree _ (by omega)
  · exact Memory.writeBytes_agree _ (by omega)
  · exact Memory.writeBytes_agree _ (by simp only [List.length_singleton]; omega)
  · exact fun _ _ _ ↦ rfl

/-- push has written the first fields of the record, and nobody has touched it since. -/
def PartWritten (m : Buffer) (base number : Nat) (task : Task) (fields : Nat) : Prop :=
  ∃ before, (writeFields base number task fields before).Agree m base (base + task.acquiredSize)

theorem partWritten_zero (m : Buffer) (base number : Nat) (task : Task) :
    PartWritten m base number task 0 :=
  ⟨m, fun _ _ _ ↦ rfl⟩

theorem PartWritten.written (h : PartWritten m base number task fieldCount) :
    Written m base number task := h

theorem PartWritten.writeField (h : PartWritten m base number task fields) :
    PartWritten (writeField base number task fields m) base number task (fields + 1) := by
  obtain ⟨before, hagree⟩ := h
  exact ⟨before, writeField_congr hagree⟩

theorem PartWritten.agree (h : PartWritten m base number task fields)
    (hagree : m.Agree m' base (base + task.acquiredSize)) :
    PartWritten m' base number task fields := by
  obtain ⟨before, hwritten⟩ := h
  exact ⟨before, hwritten.trans hagree⟩

theorem Written.agree (h : Written m base number task)
    (hagree : m.Agree m' base (base + task.acquiredSize)) : Written m' base number task := by
  obtain ⟨before, hwritten⟩ := h
  exact ⟨before, hwritten.trans hagree⟩

theorem Written.readRecord_eq {capacity : Nat} (h : Written m base number task)
    (hlt : task.acquiredSize < 2 ^ 32) (hfits : base + task.acquiredSize ≤ capacity) :
    readRecord capacity m base =
      (⟨base + operationOffset, task.stackSize % 2 ^ 32, task.text⟩, task.acquiredSize) := by
  have ⟨hoperation, hdescription, hend⟩ := task.offsets
  rw [(h.holds (by omega)).readRecord_eq hfits, Nat.mod_eq_of_lt hlt]

end ContextTaskQueue

/-! ## What a step of the ring buffer can do -/

namespace Posting

open State

variable {n capacity : Nat} {w v : Fin n}

/-- Where a thread is in the functions of the ring buffer. -/
def PusherOk (pusher : Pusher) : Producer → Prop
  | .unregistered | .registering => pusher = .idle
  | .idle => pusher = .idle ∨ ∃ number task, pusher = .acquires number task
  | .loadNext size | .storeSeen size _ _ | .loadWritten size _ _ | .exchange size _ _ _ =>
    ∃ number task, pusher = .acquires number task ∧ size = task.acquiredSize
  | .giveUp => ∃ number task, pusher = .acquires number task
  | .loadSeen _ _ | .storeUnlocked _ _ _ | .setEnd _ _ | .unlockBarrier _ =>
    ∃ number task base, pusher = .writes number task base 0
  | .holding => ∃ number task base fields, pusher = .writes number task base fields

/-- The consumer is between the call of consume and its return. -/
def Consuming : Consumer n → Prop
  | .loadWritten | .loadNext _ | .scan _ _ _ _ | .loadSeen _ _ _ _ _ | .resetEnd | .storeZero => True
  | .idle | .returned _ _ | .loadCurrent _ _ | .storeReleased _ _ _ => False

/-- The compare-exchange of `w` succeeds. -/
def Wins (ring : System n) (w : Fin n) (size base : Nat) : Prop :=
  ∃ seen target lap, ring.producers w = .exchange size seen target lap ∧
    ring.ring.producerBarrier = seen ∧ base = startOf (getBufferIndex seen) target

theorem wins_eq_some_iff {s : State n} {base : Nat} :
    s.wins w = some base ↔ ∃ size, Wins s.ring w size base := by
  unfold State.wins Wins
  cases hpc : s.ring.producers w with
  | exchange size seen target lap => grind
  | _ => simp

/-- What a step of the thread `w` leaves alone that makes no reservation. -/
structure Moves (pusher : Pusher) (r r' : System n) (w : Fin n) : Prop where
  granted : r'.granted = r.granted
  consumer : r'.consumer = r.consumer
  others : ∀ v, v ≠ w → r'.producers v = r.producers v
  pending : r'.pending = r.pending
  place : PusherOk pusher (r.producers w) → PusherOk pusher (r'.producers w)

/-- The step with which the thread `w` makes a reservation. -/
structure Reserves (r r' : System n) (w : Fin n) (size base : Nat) : Prop where
  granted : r'.granted = r.granted
  consumer : r'.consumer = r.consumer
  others : ∀ v, v ≠ w → r'.producers v = r.producers v
  pending : r'.pending = r.pending ++ [⟨w, base, size, false⟩]
  place : ∀ number task, PusherOk (.writes number task base 0) (r'.producers w)

theorem moves_goto {r u : System n} {pc : Producer} {pusher : Pusher} (hgranted : u.granted = r.granted)
    (hconsumer : u.consumer = r.consumer) (hproducers : u.producers = r.producers)
    (hpending : u.pending = r.pending)
    (hplace : PusherOk pusher (r.producers w) → PusherOk pusher pc) :
    Moves pusher r (u.goto w pc) w where
  granted := hgranted
  consumer := hconsumer
  others v hne := (System.producers_goto_of_ne u pc hne).trans (congrFun hproducers v)
  pending := hpending
  place h := by
    rw [System.producers_goto_self]
    exact hplace h

/-- A step of a thread makes a reservation if its compare-exchange succeeds. -/
theorem producerStep_cases {r r' : System n} (pusher : Pusher)
    (hstep : r.producerStep capacity w = some r') :
    (∃ size base, Wins r w size base ∧ Reserves r r' w size base) ∨
      ((∀ size base, ¬ Wins r w size base) ∧ Moves pusher r r' w) := by
  have hnot : (∀ size seen target lap, r.producers w ≠ .exchange size seen target lap) →
      ∀ size base, ¬ Wins r w size base := by
    rintro hpc size base ⟨seen, target, lap, hexchange, -⟩
    exact hpc _ _ _ _ hexchange
  unfold System.producerStep at hstep
  cases hpc : r.producers w with
  | unregistered | idle | holding =>
    rw [hpc] at hstep
    contradiction
  | exchange size seen target lap =>
    rw [hpc] at hstep
    simp only at hstep
    split at hstep
    · rename_i hbarrier
      cases hstep
      refine Or.inl ⟨size, _, ⟨seen, target, lap, hpc, hbarrier, rfl⟩, rfl, rfl, fun v hne ↦ ?_,
        rfl, fun number task ↦ ?_⟩
      · exact Function.update_of_ne hne _ _
      · rw [System.producers_goto_self]
        exact ⟨number, task, _, rfl⟩
    · rename_i hbarrier
      cases hstep
      refine Or.inr ⟨?_, moves_goto rfl rfl rfl rfl fun h ↦ ?_⟩
      · rintro size' base ⟨seen', target', lap', hpc', hbarrier', -⟩
        grind
      · rwa [hpc] at h
  | loadNext size =>
    rw [hpc] at hstep
    simp only at hstep
    refine Or.inr ⟨hnot (by simp [hpc]), ?_⟩
    split at hstep
    · cases hstep
      exact ⟨rfl, rfl, fun _ _ ↦ rfl, rfl, id⟩
    · cases hstep
      exact moves_goto rfl rfl rfl rfl fun h ↦ by rwa [hpc] at h
  | loadWritten size seen lap =>
    rw [hpc] at hstep
    simp only at hstep
    refine Or.inr ⟨hnot (by simp [hpc]), ?_⟩
    split at hstep
    · cases hstep
      refine moves_goto rfl rfl rfl rfl fun h ↦ ?_
      rw [hpc] at h
      obtain ⟨number, task, hpusher, -⟩ := h
      exact ⟨number, task, hpusher⟩
    · cases hstep
      exact moves_goto rfl rfl rfl rfl fun h ↦ by rwa [hpc] at h
  | registering | giveUp =>
    rw [hpc] at hstep
    cases hstep
    refine Or.inr ⟨hnot (by simp [hpc]), moves_goto rfl rfl rfl rfl fun h ↦ ?_⟩
    rw [hpc] at h
    first
    | exact Or.inl h
    | exact Or.inr h
  | storeSeen size seen lap | loadSeen seen target | setEnd seen target =>
    rw [hpc] at hstep
    cases hstep
    exact Or.inr ⟨hnot (by simp [hpc]), moves_goto rfl rfl rfl rfl fun h ↦ by rwa [hpc] at h⟩
  | storeUnlocked seen target own =>
    rw [hpc] at hstep
    cases hstep
    refine Or.inr ⟨hnot (by simp [hpc]), moves_goto rfl rfl rfl rfl fun h ↦ ?_⟩
    rw [hpc] at h
    split
    · exact h
    · obtain ⟨number, task, base, hpusher⟩ := h
      exact ⟨number, task, base, 0, hpusher⟩
  | unlockBarrier target =>
    rw [hpc] at hstep
    cases hstep
    refine Or.inr ⟨hnot (by simp [hpc]), moves_goto rfl rfl rfl rfl fun h ↦ ?_⟩
    rw [hpc] at h
    obtain ⟨number, task, base, hpusher⟩ := h
    exact ⟨number, task, base, 0, hpusher⟩

/-- consume has returned, with an address unless it shows nothing. -/
def Returned (r : System n) : Prop :=
  ∃ address length, r.consumer = .returned address length ∧ (address = none → length = 0)

/-- A step of the consumer inside of consume. -/
structure Scans (r r' : System n) : Prop where
  producers : r'.producers = r.producers
  pending : r'.pending = r.pending
  before : Consuming r.consumer
  after : Consuming r'.consumer ∨ Returned r'

theorem consumerStep_cases {r r' : System n} (hstep : r.consumerStep capacity = some r') :
    Scans r r' ∨
      (∃ k bytes, r.consumer = .loadCurrent k bytes ∧
        r' = { r with consumer := .storeReleased k bytes r.ring.current }) ∨
      ∃ k bytes written, r.consumer = .storeReleased k bytes written ∧ r'.consumer = .idle ∧
        r'.producers = r.producers ∧ r'.pending = r.pending.drop k ∧
        r'.granted = r.granted - k := by
  unfold System.consumerStep at hstep
  cases hpc : r.consumer with
  | idle | returned address length =>
    rw [hpc] at hstep
    contradiction
  | loadCurrent k bytes =>
    rw [hpc] at hstep
    cases hstep
    exact Or.inr (Or.inl ⟨k, bytes, rfl, rfl⟩)
  | storeReleased k bytes written =>
    rw [hpc] at hstep
    cases hstep
    exact Or.inr (Or.inr ⟨k, bytes, written, rfl, rfl, rfl, rfl, rfl⟩)
  | scan written next ready rest =>
    rw [hpc] at hstep
    refine Or.inl ?_
    cases rest with
    | nil =>
      simp only at hstep
      split at hstep
      · split at hstep
        · cases hstep
          exact ⟨rfl, rfl, by rw [hpc]; trivial, Or.inl trivial⟩
        · cases hstep
          exact ⟨rfl, rfl, by rw [hpc]; trivial, Or.inr ⟨_, _, rfl, by simp⟩⟩
      · cases hstep
        exact ⟨rfl, rfl, by rw [hpc]; trivial, Or.inr ⟨_, _, rfl, by simp⟩⟩
    | cons v rest =>
      simp only at hstep
      split at hstep <;> cases hstep <;>
        exact ⟨rfl, rfl, by rw [hpc]; trivial, Or.inl trivial⟩
  | loadNext written =>
    rw [hpc] at hstep
    simp only at hstep
    refine Or.inl ?_
    split at hstep
    · cases hstep
      exact ⟨rfl, rfl, by rw [hpc]; trivial, Or.inl (by rw [hpc]; trivial)⟩
    · split at hstep
      · cases hstep
        exact ⟨rfl, rfl, by rw [hpc]; trivial, Or.inr ⟨_, _, rfl, fun _ ↦ rfl⟩⟩
      · cases hstep
        exact ⟨rfl, rfl, by rw [hpc]; trivial, Or.inl trivial⟩
  | loadSeen written next ready v rest =>
    rw [hpc] at hstep
    simp only at hstep
    refine Or.inl ?_
    split at hstep
    · cases hstep
      exact ⟨rfl, rfl, by rw [hpc]; trivial, Or.inl (by rw [hpc]; trivial)⟩
    · cases hstep
      exact ⟨rfl, rfl, by rw [hpc]; trivial, Or.inl trivial⟩
  | loadWritten | resetEnd | storeZero =>
    rw [hpc] at hstep
    cases hstep
    exact Or.inl ⟨rfl, rfl, by rw [hpc]; trivial, Or.inl trivial⟩

/-! ## The invariant -/

/-- The record of a reservation, as far as its thread has come. -/
def RecordOk (memory : Buffer) (pushers : Fin n → Pusher) (r : Reservation n)
    (record : Nat × Task) : Prop :=
  r.size = record.2.acquiredSize ∧
    if r.produced then Written memory r.start record.1 record.2
    else ∃ fields, pushers r.owner = .writes record.1 record.2 r.start fields ∧
      PartWritten memory r.start record.1 record.2 fields

/-- The cursor of pop stands behind the first `k` of the reservations that consume has shown. -/
def Unread (s : State n) (k : Nat) : Prop :=
  Chain start size s.poped ((s.ring.pending.take s.ring.granted).drop k) s.consumed

/-- Where the worker is, after the given number of deallocations. -/
def PopperOk (s : State n) (released : Nat) : Popper → Prop
  | .idle =>
    s.ring.resting = true ∧ s.performed.length = released ∧ (s.poped < s.consumed → Unread s 0)
  | .consumes =>
    (Consuming s.ring.consumer ∨ Returned s.ring) ∧ s.performed.length = released ∧
      ¬ s.poped < s.consumed
  | .launched popped =>
    s.ring.resting = true ∧ s.performed.length = released ∧ 0 < s.ring.granted ∧ Unread s 1 ∧
      ∃ r record, s.ring.pending.head? = some r ∧ s.order[released]? = some record ∧
        popped = ⟨r.start + operationOffset, record.2.stackSize % 2 ^ 32, record.2.text⟩
  | .deallocates popped handler =>
    ∃ record, s.order[s.performed.length]? = some record ∧
      ⟨handler, popped.stackSize, popped.description⟩ = performs record ∧
      (s.performed.length = released ∧ Unread s 1 ∧
          (∃ bytes, s.ring.consumer = .loadCurrent 1 bytes ∨
            ∃ written, s.ring.consumer = .storeReleased 1 bytes written) ∨
        s.performed.length + 1 = released ∧ Unread s 0 ∧ s.ring.consumer = .idle)

structure Inv (capacity : Nat) (s : State n) (released : Nat) : Prop where
  ring : ∃ c wrapper, s.ring.Inv capacity c wrapper
  records : List.Forall₂ (RecordOk s.memory s.pushers) s.ring.pending (s.order.drop released)
  pushers : ∀ w, PusherOk (s.pushers w) (s.ring.producers w)
  popper : PopperOk s released s.popper
  performed : s.performed = (s.order.take s.performed.length).map performs
  le : released ≤ s.order.length

variable {s t : State n} {released : Nat}

/-! ### What the ring buffer promises -/

theorem ring_facts {r : System n} (h : ∃ c wrapper, r.Inv capacity c wrapper) :
    r.pending.Pairwise (Disjoint start size) ∧
      (∀ x ∈ r.pending, 0 < x.size ∧ x.start + x.size ≤ capacity) ∧
      r.granted ≤ r.pending.length ∧ ∀ x ∈ r.pending.take r.granted, x.produced = true := by
  obtain ⟨c, wrapper, h⟩ := h
  have hgranted : r.granted ≤ c.front.length := h.core.granted
  rw [← h.items]
  refine ⟨h.core.fits.pairwise_disjoint, fun x hx ↦ ⟨h.core.pos x hx, h.core.fits.end_le hx⟩, ?_,
    ?_⟩
  · rw [Circular.items, List.length_append]
    omega
  · rw [Circular.items, List.take_append_of_le_length hgranted]
    exact h.core.produced

/-- A thread between its compare-exchange and its produce has a reservation to write to. -/
theorem exists_of_holding {r : System n} (h : ∃ c wrapper, r.Inv capacity c wrapper)
    (hw : r.producers w = .holding) : ∃ x ∈ r.pending, x.owner = w ∧ x.produced = false := by
  obtain ⟨c, wrapper, h⟩ := h
  have hknows := (h.producers w).knows
  rw [hw] at hknows
  rw [← h.items]
  exact hknows.holds

/-- One before its compare-exchange has none. -/
theorem clear_of_wins {r : System n} (h : ∃ c wrapper, r.Inv capacity c wrapper) {size base : Nat}
    (hw : Wins r w size base) : ∀ x ∈ r.pending, x.owner = w → x.produced = true := by
  obtain ⟨c, wrapper, h⟩ := h
  obtain ⟨seen, target, lap, hpc, -⟩ := hw
  have hknows := (h.producers w).knows
  rw [hpc] at hknows
  rw [← h.items]
  exact hknows.1

/-- The range that consume has returned is made of the reservations that it has shown. -/
theorem chain_of_returned {r : System n} (h : ∃ c wrapper, r.Inv capacity c wrapper)
    {base length : Nat} (hr : r.consumer = .returned (some base) length) :
    Chain start size base (r.pending.take r.granted) (base + length) := by
  obtain ⟨c, wrapper, h⟩ := h
  have hself := h.consumer
  rw [hr] at hself
  obtain ⟨hread, hbytes, -⟩ := hself.2 base rfl
  have hgranted : r.granted ≤ c.front.length := h.core.granted
  have hchain := h.core.fits.front_chain.take r.granted
  rw [← h.items, Circular.items, List.take_append_of_le_length hgranted, hread, hbytes]
  exact hchain

/-! ### Steps that leave the worker alone -/

/-- The popper looks at the reservations that have been shown, and at the tasks behind them. -/
theorem PopperOk.congr (h : PopperOk s released s.popper) (hpopper : t.popper = s.popper)
    (hconsumer : t.ring.consumer = s.ring.consumer) (hgranted : t.ring.granted = s.ring.granted)
    (hperformed : t.performed = s.performed)
    (hunread : ∀ k, Unread s k → Unread t k) (hpoped : t.poped = s.poped)
    (hconsumed : t.consumed = s.consumed)
    (horder : ∀ (i : Nat) record, s.order[i]? = some record → t.order[i]? = some record)
    (hhead : ∀ r, s.ring.pending.head? = some r →
      ∃ r', t.ring.pending.head? = some r' ∧ r'.start = r.start) :
    PopperOk t released t.popper := by
  have hresting : t.ring.resting = s.ring.resting := by rw [System.resting, hconsumer]; rfl
  rw [hpopper]
  cases hs : s.popper with
  | idle =>
    rw [hs] at h
    rw [PopperOk, hresting, hperformed, hpoped, hconsumed]
    exact ⟨h.1, h.2.1, fun hlt ↦ hunread 0 (h.2.2 hlt)⟩
  | consumes =>
    rw [hs] at h
    rw [PopperOk, Returned, hconsumer, hperformed, hpoped, hconsumed]
    exact h
  | launched popped =>
    rw [hs] at h
    obtain ⟨hrest, hlength, hpos, hread, r, record, hr, hrecord, hpopped⟩ := h
    obtain ⟨r', hr', hstart⟩ := hhead r hr
    rw [PopperOk, hresting, hperformed, hgranted]
    exact ⟨hrest, hlength, hpos, hunread 1 hread, r', record, hr', horder _ _ hrecord,
      by rw [hstart, hpopped]⟩
  | deallocates popped handler =>
    rw [hs] at h
    obtain ⟨record, hrecord, hperforms, hplace⟩ := h
    rw [PopperOk, hperformed, hconsumer]
    refine ⟨record, horder _ _ hrecord, hperforms, ?_⟩
    exact hplace.imp (fun ⟨h₁, h₂, h₃⟩ ↦ ⟨h₁, hunread 1 h₂, h₃⟩)
      fun ⟨h₁, h₂, h₃⟩ ↦ ⟨h₁, hunread 0 h₂, h₃⟩

theorem forall₂_of_mem {α β : Type*} {R S : α → β → Prop} {l : List α} {m : List β}
    (h : List.Forall₂ R l m) (hmem : ∀ a ∈ l, ∀ b, R a b → S a b) : List.Forall₂ S l m := by
  have hboth := (List.forall₂_and_left l m).mpr ⟨hmem, h⟩
  exact hboth.imp fun a b hab ↦ hab.1 b hab.2

theorem Inv.moves (h : Inv capacity s released) {ring : System n}
    (hring : ∃ c wrapper, ring.Inv capacity c wrapper)
    (hmoves : Moves (s.pushers w) s.ring ring w) : Inv capacity (s.setRing ring) released where
  ring := hring
  records := by
    have hpending : (s.setRing ring).ring.pending = s.ring.pending := hmoves.pending
    rw [hpending]
    exact h.records
  pushers v := by
    by_cases hv : v = w
    · rw [hv]
      exact hmoves.place (h.pushers w)
    · have hproducers : (s.setRing ring).ring.producers v = s.ring.producers v := hmoves.others v hv
      rw [hproducers]
      exact h.pushers v
  popper := by
    refine h.popper.congr rfl hmoves.consumer hmoves.granted rfl (fun k hk ↦ ?_) rfl rfl
      (fun _ _ h ↦ h) (fun r hr ↦ ⟨r, ?_, rfl⟩)
    · rw [Unread] at hk ⊢
      rwa [setRing, hmoves.pending, hmoves.granted]
    · rwa [setRing, hmoves.pending]
  performed := h.performed
  le := h.le

/-- A thread that has none begins to push. -/
theorem Inv.push (h : Inv capacity s released) {number : Nat} {task : Task}
    (hw : s.pushers w = .idle) (hidle : s.ring.producers w = .idle) :
    Inv capacity (s.setPusher w (.acquires number task)) released where
  ring := h.ring
  records := by
    refine h.records.imp fun r record hr ↦ ⟨hr.1, ?_⟩
    have hrecord := hr.2
    split at hrecord
    · rename_i hprod
      rw [if_pos hprod]
      exact hrecord
    · rename_i hprod
      obtain ⟨fields, howner, hpart⟩ := hrecord
      have hne : r.owner ≠ w := by
        intro heq
        rw [heq, hw] at howner
        contradiction
      rw [if_neg hprod]
      exact ⟨fields, (Function.update_of_ne hne _ _).trans howner, hpart⟩
  pushers v := by
    by_cases hv : v = w
    · subst hv
      have hself : (s.setPusher v (.acquires number task)).pushers v = .acquires number task :=
        Function.update_self _ _ _
      have hproducer : (s.setPusher v (.acquires number task)).ring.producers v = .idle := hidle
      rw [hself, hproducer]
      exact Or.inr ⟨number, task, rfl⟩
    · have hsame : (s.setPusher w (.acquires number task)).pushers v = s.pushers v :=
        Function.update_of_ne hv _ _
      rw [hsame]
      exact h.pushers v
  popper := h.popper
  performed := h.performed
  le := h.le

/-- The task of a thread that wins the compare-exchange comes behind the others. -/
theorem Inv.reserves (h : Inv capacity s released) {ring : System n}
    (hring : ∃ c wrapper, ring.Inv capacity c wrapper) {size base number : Nat} {task : Task}
    (hwins : Wins s.ring w size base) (hreserves : Reserves s.ring ring w size base)
    (hw : s.pushers w = .acquires number task) :
    Inv capacity { (s.setRing ring).setPusher w (.writes number task base 0) with
      order := s.order ++ [(number, task)] } released where
  ring := hring
  records := by
    have hsize : size = task.acquiredSize := by
      obtain ⟨seen, target, lap, hpc, -⟩ := hwins
      have hplace := h.pushers w
      rw [hw, hpc] at hplace
      obtain ⟨number', task', hpusher, hsize⟩ := hplace
      cases hpusher
      exact hsize
    show List.Forall₂ _ ring.pending _
    rw [hreserves.pending, List.drop_append_of_le_length h.le]
    refine List.rel_append ?_ (.cons ?_ .nil)
    · refine forall₂_of_mem h.records fun r hr record hok ↦ ⟨hok.1, ?_⟩
      have hrecord := hok.2
      split at hrecord
      · rename_i hprod
        rw [if_pos hprod]
        exact hrecord
      · rename_i hprod
        obtain ⟨fields, howner, hpart⟩ := hrecord
        have hne : r.owner ≠ w := fun heq ↦ hprod (clear_of_wins h.ring hwins r hr heq)
        rw [if_neg hprod]
        exact ⟨fields, (Function.update_of_ne hne _ _).trans howner, hpart⟩
    · refine ⟨hsize, ?_⟩
      rw [if_neg Bool.false_ne_true]
      exact ⟨0, Function.update_self _ _ _, partWritten_zero _ _ _ _⟩
  pushers v := by
    by_cases hv : v = w
    · subst hv
      have hself : ((s.setRing ring).setPusher v (.writes number task base 0)).pushers v =
          .writes number task base 0 :=
        Function.update_self _ _ _
      show PusherOk (((s.setRing ring).setPusher v (.writes number task base 0)).pushers v)
        (ring.producers v)
      rw [hself]
      exact hreserves.place number task
    · have hsame : ((s.setRing ring).setPusher w (.writes number task base 0)).pushers v =
          s.pushers v :=
        Function.update_of_ne hv _ _
      show PusherOk (((s.setRing ring).setPusher w (.writes number task base 0)).pushers v)
        (ring.producers v)
      rw [hsame, hreserves.others v hv]
      exact h.pushers v
  popper := by
    obtain ⟨-, -, hgranted, -⟩ := ring_facts h.ring
    refine h.popper.congr rfl hreserves.consumer hreserves.granted rfl (fun k hk ↦ ?_) rfl rfl
      (fun i record hi ↦ ?_) (fun r hr ↦ ⟨r, ?_, rfl⟩)
    · rw [Unread] at hk ⊢
      show Chain start Reservation.size s.poped ((ring.pending.take ring.granted).drop k) s.consumed
      rwa [hreserves.pending, hreserves.granted, List.take_append_of_le_length hgranted]
    · exact (List.getElem?_append_left (List.getElem?_eq_some_iff.mp hi).1).trans hi
    · show ring.pending.head? = some r
      rw [hreserves.pending, List.head?_append, hr]
      rfl
  performed := by
    have hle : s.performed.length ≤ s.order.length := by
      have := congrArg List.length h.performed
      rw [List.length_map, List.length_take] at this
      omega
    show s.performed = ((s.order ++ [(number, task)]).take s.performed.length).map performs
    rw [List.take_append_of_le_length hle]
    exact h.performed
  le := by
    rw [List.length_append]
    exact Nat.le_trans h.le (Nat.le_add_right _ _)

theorem exists_of_forall₂ {α β : Type*} {R : α → β → Prop} {l : List α} {m : List β}
    (h : List.Forall₂ R l m) {a : α} (ha : a ∈ l) : ∃ b ∈ m, R a b := by
  induction h with
  | nil => exact absurd ha List.not_mem_nil
  | cons hr _ ih =>
    rcases List.mem_cons.mp ha with rfl | ha
    · exact ⟨_, List.mem_cons_self, hr⟩
    · obtain ⟨b, hb, hab⟩ := ih ha
      exact ⟨b, List.mem_cons_of_mem _ hb, hab⟩

/-- The reservation that a thread is writing to. -/
theorem Inv.writing (h : Inv capacity s released) {number base fields : Nat} {task : Task}
    (hw : s.pushers w = .writes number task base fields) (hholding : s.ring.producers w = .holding) :
    ∃ r ∈ s.ring.pending, r.owner = w ∧ r.produced = false ∧ r.start = base ∧
      r.size = task.acquiredSize := by
  obtain ⟨r, hr, howner, hprod⟩ := exists_of_holding h.ring hholding
  obtain ⟨record, -, hsize, hrecord⟩ := exists_of_forall₂ h.records hr
  rw [hprod, if_neg Bool.false_ne_true] at hrecord
  obtain ⟨fields', hpusher, -⟩ := hrecord
  rw [howner, hw] at hpusher
  cases hpusher
  exact ⟨r, hr, howner, hprod, rfl, hsize⟩

/-- A thread writes the next field, which lies outside of the records of the others. -/
theorem Inv.write (h : Inv capacity s released) {number base fields : Nat} {task : Task}
    (hw : s.pushers w = .writes number task base fields) (hholding : s.ring.producers w = .holding) :
    Inv capacity { s.setPusher w (.writes number task base (fields + 1)) with
      memory := writeField base number task fields s.memory } released where
  ring := h.ring
  records := by
    obtain ⟨r₀, hr₀, howner₀, hprod₀, hstart₀, hsize₀⟩ := h.writing hw hholding
    obtain ⟨hdisjoint, -, -, -⟩ := ring_facts h.ring
    have hsymm : Std.Symm (Reasoning.Disjoint (ρ := Reservation n) start size) :=
      ⟨fun _ _ ↦ Or.symm⟩
    refine forall₂_of_mem h.records fun r hr record hok ↦ ⟨hok.1, ?_⟩
    have hapart : r ≠ r₀ → s.memory.Agree (writeField base number task fields s.memory) r.start
        (r.start + record.2.acquiredSize) := by
      intro hne
      have hd : Reasoning.Disjoint start Reservation.size r₀ r := hdisjoint.forall hr₀ hr hne.symm
      apply writeField_agree
      rw [Reasoning.Disjoint, hstart₀, hsize₀, hok.1] at hd
      exact hd
    have hrecord := hok.2
    split at hrecord
    · rename_i hprod
      have hne : r ≠ r₀ := by
        rintro rfl
        rw [hprod₀] at hprod
        contradiction
      rw [if_pos hprod]
      exact hrecord.agree (hapart hne)
    · rename_i hprod
      obtain ⟨fields', howner, hpart⟩ := hrecord
      rw [if_neg hprod]
      by_cases hown : r.owner = w
      · -- its own record
        rw [hown, hw] at howner
        cases howner
        refine ⟨fields + 1, ?_, hpart.writeField⟩
        rw [hown]
        exact Function.update_self _ _ _
      · have hne : r ≠ r₀ := by
          rintro rfl
          exact hown howner₀
        exact ⟨fields', (Function.update_of_ne hown _ _).trans howner, hpart.agree (hapart hne)⟩
  pushers v := by
    by_cases hv : v = w
    · subst hv
      have hself : (s.setPusher v (.writes number task base (fields + 1))).pushers v =
          .writes number task base (fields + 1) :=
        Function.update_self _ _ _
      show PusherOk ((s.setPusher v (.writes number task base (fields + 1))).pushers v)
        (s.ring.producers v)
      rw [hself, hholding]
      exact ⟨number, task, base, fields + 1, rfl⟩
    · have hsame : (s.setPusher w (.writes number task base (fields + 1))).pushers v =
          s.pushers v :=
        Function.update_of_ne hv _ _
      show PusherOk ((s.setPusher w (.writes number task base (fields + 1))).pushers v)
        (s.ring.producers v)
      rw [hsame]
      exact h.pushers v
  popper := h.popper
  performed := h.performed
  le := h.le

/-- A thread that has written all fields produces its record. -/
theorem Inv.produce (h : Inv capacity s released) {ring : System n}
    (hring : ∃ c wrapper, ring.Inv capacity c wrapper) {number base : Nat} {task : Task}
    (hw : s.pushers w = .writes number task base fieldCount)
    (hpending : ring.pending = s.ring.pending.map (markProduced w))
    (hproducers : ring.producers = Function.update s.ring.producers w .idle)
    (hconsumer : ring.consumer = s.ring.consumer) (hgranted : ring.granted = s.ring.granted) :
    Inv capacity ((s.setRing ring).setPusher w .idle) released where
  ring := hring
  records := by
    show List.Forall₂ _ ring.pending _
    rw [hpending, List.forall₂_map_left_iff]
    refine h.records.imp fun r record hok ↦ ?_
    refine ⟨(markProduced_size w r).trans hok.1, ?_⟩
    have hrecord := hok.2
    rw [markProduced_start, markProduced_owner]
    by_cases hown : r.owner = w
    · have hprod : (markProduced w r).produced = true := by rw [markProduced, if_pos hown]
      rw [if_pos hprod]
      split at hrecord
      · exact hrecord
      · obtain ⟨fields, howner, hpart⟩ := hrecord
        rw [hown, hw] at howner
        cases howner
        exact hpart.written
    · have hsame : markProduced w r = r := by rw [markProduced, if_neg hown]
      rw [hsame]
      split at hrecord
      · rename_i hprod
        rw [if_pos hprod]
        exact hrecord
      · rename_i hprod
        obtain ⟨fields, howner, hpart⟩ := hrecord
        rw [if_neg hprod]
        exact ⟨fields, (Function.update_of_ne hown _ _).trans howner, hpart⟩
  pushers v := by
    show PusherOk (((s.setRing ring).setPusher w .idle).pushers v) (ring.producers v)
    rw [hproducers]
    by_cases hv : v = w
    · subst hv
      have hself : ((s.setRing ring).setPusher v .idle).pushers v = .idle :=
        Function.update_self _ _ _
      rw [hself, Function.update_self]
      exact Or.inl rfl
    · have hsame : ((s.setRing ring).setPusher w .idle).pushers v = s.pushers v :=
        Function.update_of_ne hv _ _
      rw [hsame, Function.update_of_ne hv]
      exact h.pushers v
  popper := by
    refine h.popper.congr rfl hconsumer hgranted rfl (fun k hk ↦ ?_) rfl rfl
      (fun _ _ h ↦ h) (fun r hr ↦ ⟨markProduced w r, ?_, markProduced_start w r⟩)
    · rw [Unread] at hk ⊢
      show Chain start Reservation.size s.poped ((ring.pending.take ring.granted).drop k) s.consumed
      rw [hpending, hgranted, ← List.map_take, ← List.map_drop]
      exact hk.map (markProduced_start w) (markProduced_size w)
    · show ring.pending.head? = _
      rw [hpending, List.head?_map, hr]
      rfl
  performed := h.performed
  le := h.le

/-! ### Steps of the worker -/

/-- The record that pop finds at the beginning of a range that is not empty. -/
theorem Inv.first (h : Inv capacity s released) {base stop : Nat}
    (hchain : Chain start size base (s.ring.pending.take s.ring.granted) stop) (hlt : base < stop) :
    ∃ r record, s.ring.pending.head? = some r ∧ 0 < s.ring.granted ∧
      s.order[released]? = some record ∧ r.start = base ∧ r.size = record.2.acquiredSize ∧
      Written s.memory base record.1 record.2 ∧ base + record.2.acquiredSize ≤ capacity ∧
      Chain start size (base + record.2.acquiredSize)
        ((s.ring.pending.take s.ring.granted).drop 1) stop := by
  obtain ⟨-, hinside, -, hproduced⟩ := ring_facts h.ring
  have hne : s.ring.granted ≠ 0 := by
    intro hzero
    rw [hzero] at hchain
    have : base = stop := hchain
    omega
  cases hpending : s.ring.pending with
  | nil =>
    rw [hpending, List.take_nil] at hchain
    have : base = stop := hchain
    omega
  | cons r rest =>
    have hrecords := h.records
    obtain ⟨g, hg⟩ : ∃ g, s.ring.granted = g + 1 := ⟨s.ring.granted - 1, by omega⟩
    rw [hpending, hg, List.take_succ_cons] at hchain hproduced
    obtain ⟨hstart, hrest⟩ := hchain
    have hprod := hproduced r List.mem_cons_self
    have hend := (hinside r (by rw [hpending]; exact List.mem_cons_self)).2
    rw [hpending] at hrecords
    obtain ⟨record, records, ⟨hsize, hrecord⟩, -, hdrop⟩ := List.forall₂_cons_left_iff.mp hrecords
    rw [if_pos hprod, hstart] at hrecord
    rw [hstart, hsize] at hend
    rw [hsize] at hrest
    have hget : s.order[released]? = some record := by
      have hhead := congrArg List.head? hdrop
      rwa [List.head?_drop] at hhead
    refine ⟨r, record, rfl, by omega, hget, hstart, hsize, hrecord, hend, ?_⟩
    rw [hg, List.take_succ_cons, List.drop_one]
    exact hrest

theorem Inv.launch (h : Inv capacity s released) (hcap : capacity < 2 ^ 32) {base stop : Nat}
    (hrest : s.ring.resting = true) (hlength : s.performed.length = released)
    (hchain : Chain start size base (s.ring.pending.take s.ring.granted) stop)
    (hlt : base < stop) :
    Inv capacity { s.launch capacity base with consumed := stop } released where
  ring := h.ring
  records := h.records
  pushers := h.pushers
  popper := by
    obtain ⟨r, record, hr, hpos, hget, hstart, hsize, hwritten, hend, hbehind⟩ := h.first hchain hlt
    have hread := hwritten.readRecord_eq (by omega) hend
    simp only [State.launch, hread]
    exact ⟨hrest, hlength, hpos, hbehind, r, record, hr, hget, by rw [hstart]⟩
  performed := h.performed
  le := h.le

/-- The consumer of the ring buffer goes on, and the rest stays as it is. -/
theorem Inv.worker (h : Inv capacity s released) {ring : System n} {popper : Popper}
    (hring : ∃ c wrapper, ring.Inv capacity c wrapper)
    (hproducers : ring.producers = s.ring.producers) (hpending : ring.pending = s.ring.pending)
    (hpopper : PopperOk { s.setRing ring with popper := popper } released popper) :
    Inv capacity { s.setRing ring with popper := popper } released where
  ring := hring
  records := by
    show List.Forall₂ _ ring.pending _
    rw [hpending]
    exact h.records
  pushers v := by
    show PusherOk (s.pushers v) (ring.producers v)
    rw [hproducers]
    exact h.pushers v
  popper := hpopper
  performed := h.performed
  le := h.le

theorem Inv.pop (h : Inv capacity s released) (hcap : capacity < 2 ^ 32)
    (hstep : s.step capacity .pop = some t) : Inv capacity t released := by
  rw [State.step, Option.ite_none_right_eq_some] at hstep
  obtain ⟨hidle, hstep⟩ := hstep
  have hpopper := h.popper
  rw [hidle] at hpopper
  obtain ⟨hrest, hlength, hunread⟩ := hpopper
  split at hstep
  · rename_i hlt
    cases hstep
    exact h.launch hcap hrest hlength (hunread hlt) hlt
  · rename_i hlt
    obtain ⟨ring, hring, rfl⟩ := Option.map_eq_some_iff.mp hstep
    rw [System.step, if_pos hrest] at hring
    cases hring
    obtain ⟨c, wrapper, hinv⟩ := h.ring
    refine h.worker ⟨c, wrapper, ?_⟩ rfl rfl ⟨Or.inl trivial, hlength, hlt⟩
    exact hinv.consumerGoto (hinv.resting hrest)

/-- pop has consumed and reads the first record, if there is one. -/
theorem Inv.consumed (h : Inv capacity s released) (hcap : capacity < 2 ^ 32)
    (hstep : s.step capacity .consumed = some t) : Inv capacity t released := by
  rw [State.step] at hstep
  split at hstep
  · rename_i address length hs hreturned
    have hpopper := h.popper
    rw [hs] at hpopper
    obtain ⟨hplace, hlength, hlt⟩ := hpopper
    have hrest : s.ring.resting = true := by rw [System.resting, hreturned]
    split at hstep
    · cases hstep
      exact h.worker h.ring rfl rfl ⟨hrest, hlength, fun hlt' ↦ absurd hlt' hlt⟩
    · rename_i hne
      cases hstep
      cases address with
      | none =>
        rw [Returned, hreturned] at hplace
        obtain hfalse | ⟨address', length', heq, hnone⟩ := hplace
        · exact hfalse.elim
        · cases heq
          exact absurd (hnone rfl) hne
      | some base =>
        have hchain := chain_of_returned h.ring hreturned
        exact h.launch hcap hrest hlength hchain (by omega)
  · contradiction

/-- The record that a fiber has been started for is the oldest one, and still whole. -/
theorem Inv.launched (h : Inv capacity s released) (hcap : capacity < 2 ^ 32) {popped : Popped}
    (hs : s.popper = .launched popped) :
    ∃ record, s.order[s.performed.length]? = some record ∧
      ⟨s.memory.readObject Operation.size popped.operation, popped.stackSize,
        popped.description⟩ = performs record ∧
      recordLength s.memory popped.operation = total size (s.ring.pending.take 1) := by
  have hpopper := h.popper
  rw [hs] at hpopper
  obtain ⟨-, hlength, hpos, -, r, record, hr, hget, hpopped⟩ := hpopper
  obtain ⟨-, hinside, -, hproduced⟩ := ring_facts h.ring
  obtain ⟨rest, hpending⟩ := List.head?_eq_some_iff.mp hr
  have hmem : r ∈ s.ring.pending.take s.ring.granted := by
    obtain ⟨g, hg⟩ : ∃ g, s.ring.granted = g + 1 := ⟨s.ring.granted - 1, by omega⟩
    rw [hpending, hg, List.take_succ_cons]
    exact List.mem_cons_self
  have hend := (hinside r (List.mem_of_mem_take hmem)).2
  have hrecords := h.records
  rw [hpending] at hrecords
  obtain ⟨record', records, ⟨hsize, hrecord⟩, -, hdrop⟩ := List.forall₂_cons_left_iff.mp hrecords
  have hsame : record' = record := by
    have hhead := congrArg List.head? hdrop
    rw [List.head?_drop, hget] at hhead
    exact (Option.some.inj hhead).symm
  subst hsame
  rw [if_pos (hproduced r hmem)] at hrecord
  have ⟨hoperation, hdescription, hoffsets⟩ := record'.2.offsets
  have hholds := hrecord.holds (by omega)
  refine ⟨record', ?_, ?_, ?_⟩
  · rw [hlength]
    exact hget
  · rw [hpopped, hholds.readObject]
    rfl
  · rw [recordLength, hpopped, Nat.add_sub_cancel, hholds.header_eq (by omega), hpending,
      List.take_succ_cons, List.take_zero, total_cons, total_nil, Nat.add_zero, hsize]

/-- The fiber moves the handler out of its record and deallocates it. -/
theorem Inv.perform (h : Inv capacity s released) (hcap : capacity < 2 ^ 32)
    (hstep : s.step capacity .perform = some t) : Inv capacity t released := by
  rw [State.step] at hstep
  split at hstep
  · rename_i popped hs
    cases hstep
    obtain ⟨record, hget, hperforms, hbytes⟩ := h.launched hcap hs
    have hpopper := h.popper
    rw [hs] at hpopper
    obtain ⟨hrest, hlength, hpos, hunread, -⟩ := hpopper
    obtain ⟨c, wrapper, hinv⟩ := h.ring
    have hrelease := hinv.release hrest (k := 1) (by omega)
    rw [hbytes]
    exact h.worker ⟨c, wrapper, hrelease⟩ rfl rfl
      ⟨record, hget, hperforms, Or.inl ⟨hlength, hunread, _, Or.inl rfl⟩⟩
  · contradiction

theorem Inv.invoke (h : Inv capacity s released)
    (hstep : s.step capacity .invoke = some t) : Inv capacity t released := by
  rw [State.step] at hstep
  split at hstep
  · rename_i popped handler hs
    rw [Option.ite_none_right_eq_some] at hstep
    obtain ⟨hidle, hstep⟩ := hstep
    cases hstep
    have hpopper := h.popper
    rw [hs] at hpopper
    obtain ⟨record, hrecord, hperforms, hplace⟩ := hpopper
    obtain ⟨-, -, bytes, hbusy⟩ | ⟨hlength, hunread, -⟩ := hplace
    · rw [hidle] at hbusy
      obtain heq | ⟨written, heq⟩ := hbusy <;> contradiction
    have hlt := (List.getElem?_eq_some_iff.mp hrecord).1
    refine ⟨h.ring, h.records, h.pushers, ⟨?_, ?_, fun _ ↦ hunread⟩, ?_, h.le⟩
    · show s.ring.resting = true
      rw [System.resting, hidle]
    · rw [List.length_append, List.length_singleton]
      exact hlength
    · show s.performed ++ _ = _
      rw [List.length_append, List.length_singleton, List.take_add_one, hrecord, List.map_append,
        ← h.performed, hperforms]
      rfl
  · contradiction

theorem not_resting_of_consuming {r : System n} (h : Consuming r.consumer) :
    r.resting = false := by
  unfold System.resting
  cases hr : r.consumer <;> rw [hr] at h <;> first | rfl | exact h.elim

/-- The worker goes on in consume. -/
theorem Inv.scans (h : Inv capacity s released) {ring : System n}
    (hring : ∃ c wrapper, ring.Inv capacity c wrapper) (hscans : Scans s.ring ring) :
    Inv capacity (s.setRing ring) released := by
  refine h.worker hring hscans.producers hscans.pending ?_
  have hpopper := h.popper
  have hbefore := hscans.before
  have hresting := not_resting_of_consuming hbefore
  cases hs : s.popper with
  | idle =>
    rw [hs] at hpopper
    exact absurd (hresting.symm.trans hpopper.1) Bool.false_ne_true
  | launched popped =>
    rw [hs] at hpopper
    exact absurd (hresting.symm.trans hpopper.1) Bool.false_ne_true
  | consumes =>
    rw [hs] at hpopper
    exact ⟨hscans.after, hpopper.2⟩
  | deallocates popped handler =>
    rw [hs] at hpopper
    obtain ⟨record, hrecord, hperforms, hplace⟩ := hpopper
    obtain ⟨-, -, bytes, hbusy | ⟨written, hbusy⟩⟩ | ⟨-, -, hbusy⟩ := hplace <;>
      (rw [hbusy] at hbefore; exact hbefore.elim)

/-- Inside of release the worker is in a deallocate, of one record. -/
theorem Inv.deallocating (h : Inv capacity s released) {k bytes : Nat}
    (hconsumer : s.ring.consumer = .loadCurrent k bytes ∨
      ∃ written, s.ring.consumer = .storeReleased k bytes written) :
    k = 1 ∧ ∃ popped handler record, s.popper = .deallocates popped handler ∧
      s.order[s.performed.length]? = some record ∧
      ⟨handler, popped.stackSize, popped.description⟩ = performs record ∧
      s.performed.length = released ∧ Unread s 1 := by
  have hpopper := h.popper
  have hresting : s.ring.resting = false := by
    rw [System.resting]
    obtain heq | ⟨written, heq⟩ := hconsumer <;> rw [heq]
  cases hs : s.popper with
  | idle =>
    rw [hs] at hpopper
    exact absurd (hresting.symm.trans hpopper.1) Bool.false_ne_true
  | launched popped =>
    rw [hs] at hpopper
    exact absurd (hresting.symm.trans hpopper.1) Bool.false_ne_true
  | consumes =>
    rw [hs] at hpopper
    obtain hconsuming | ⟨address, length, hreturned, -⟩ := hpopper.1
    · obtain heq | ⟨written, heq⟩ := hconsumer <;> (rw [heq] at hconsuming; exact hconsuming.elim)
    · obtain heq | ⟨written, heq⟩ := hconsumer <;> (rw [heq] at hreturned; contradiction)
  | deallocates popped handler =>
    rw [hs] at hpopper
    obtain ⟨record, hrecord, hperforms, hplace⟩ := hpopper
    obtain ⟨hlength, hunread, bytes', hbusy⟩ | ⟨-, -, hidle⟩ := hplace
    · refine ⟨?_, popped, handler, record, rfl, hrecord, hperforms, hlength, hunread⟩
      grind
    · grind

/-- The record is freed. -/
theorem Inv.freed (h : Inv capacity s released) {ring : System n} {k bytes written : Nat}
    (hring : ∃ c wrapper, ring.Inv capacity c wrapper)
    (hconsumer : s.ring.consumer = .storeReleased k bytes written)
    (hidle : ring.consumer = .idle) (hproducers : ring.producers = s.ring.producers)
    (hpending : ring.pending = s.ring.pending.drop k)
    (hgranted : ring.granted = s.ring.granted - k) :
    Inv capacity (s.setRing ring) (released + 1) := by
  obtain ⟨rfl, popped, handler, record, hs, hrecord, hperforms, hlength, hunread⟩ :=
    h.deallocating (Or.inr ⟨written, hconsumer⟩)
  have hlt := (List.getElem?_eq_some_iff.mp hrecord).1
  refine ⟨hring, ?_, fun v ↦ ?_, ?_, h.performed, by rw [← hlength]; exact hlt⟩
  · show List.Forall₂ _ ring.pending (s.order.drop (released + 1))
    rw [hpending, ← List.drop_drop]
    exact List.forall₂_drop 1 h.records
  · show PusherOk (s.pushers v) (ring.producers v)
    rw [hproducers]
    exact h.pushers v
  · show PopperOk (s.setRing ring) (released + 1) s.popper
    rw [hs]
    refine ⟨record, hrecord, hperforms, Or.inr ⟨by rw [← hlength]; rfl, ?_, hidle⟩⟩
    rw [Unread] at hunread ⊢
    show Chain start Reservation.size s.poped ((ring.pending.take ring.granted).drop 0) s.consumed
    rw [hpending, hgranted, List.drop_zero, ← List.drop_take]
    exact hunread

/-- A step of the worker in consume or in release. -/
theorem Inv.popperStep (h : Inv capacity s released) (hcap : capacity < 2 ^ 32)
    (hstep : s.step capacity .popper = some t) : ∃ released, Inv capacity t released := by
  rw [State.step] at hstep
  obtain ⟨ring, hring, rfl⟩ := Option.map_eq_some_iff.mp hstep
  have hinv : ∃ c wrapper, ring.Inv capacity c wrapper := by
    obtain ⟨c, wrapper, hinv⟩ := h.ring
    obtain ⟨c', hinv'⟩ := hinv.consumerStep hcap hring
    exact ⟨c', wrapper, hinv'⟩
  obtain hscans | ⟨k, bytes, hconsumer, heq⟩ |
    ⟨k, bytes, written, hconsumer, hidle, hproducers, hpending, hgranted⟩ :=
      consumerStep_cases hring
  · exact ⟨released, h.scans hinv hscans⟩
  · obtain ⟨rfl, popped, handler, record, hs, hrecord, hperforms, hlength, hunread⟩ :=
      h.deallocating (Or.inl hconsumer)
    refine ⟨released, h.worker hinv (by rw [heq]) (by rw [heq]) ?_⟩
    rw [hs, heq]
    exact ⟨record, hrecord, hperforms,
      Or.inl ⟨hlength, hunread, bytes, Or.inr ⟨s.ring.ring.current, rfl⟩⟩⟩
  · exact ⟨released + 1, h.freed hinv hconsumer hidle hproducers hpending hgranted⟩

/-! ## Runs -/

theorem inv_initial (hcap : 1 ≤ capacity) : Inv capacity (State.initial n) 0 where
  ring := ⟨Circular.empty, none, System.inv_initial hcap⟩
  records := .nil
  pushers _ := rfl
  popper := ⟨rfl, rfl, fun hlt ↦ absurd hlt (Nat.lt_irrefl 0)⟩
  performed := rfl
  le := Nat.le_refl 0

/-- A call of the ring buffer that a thread makes. -/
theorem Inv.call (h : Inv capacity s released) (hcap : capacity < 2 ^ 32)
    {action : MpscRingBuffer.Action n} {ring : System n}
    (hring : s.ring.step capacity action = some ring) (hfresh : s.ring.Fresh action)
    (hmoves : Moves (s.pushers w) s.ring ring w) : Inv capacity (s.setRing ring) released := by
  obtain ⟨c, wrapper, hinv⟩ := h.ring
  exact h.moves (hinv.step hcap hfresh hring) hmoves

theorem Inv.registerWriter (h : Inv capacity s released) (hcap : capacity < 2 ^ 32)
    (hstep : s.step capacity (.registerWriter w) = some t) : Inv capacity t released := by
  rw [State.step] at hstep
  obtain ⟨ring, hring, rfl⟩ := Option.map_eq_some_iff.mp hstep
  refine h.call (w := w) hcap hring trivial ?_
  rw [System.step, Option.ite_none_right_eq_some] at hring
  obtain ⟨hpc, hring⟩ := hring
  cases hring
  exact moves_goto rfl rfl rfl rfl fun hplace ↦ by rwa [hpc] at hplace

/-- The loop of push calls acquire for the size of its record. -/
theorem Inv.acquire (h : Inv capacity s released) (hcap : capacity < 2 ^ 32)
    (hstep : s.step capacity (.acquire w) = some t) : Inv capacity t released := by
  rw [State.step] at hstep
  split at hstep
  · rename_i number task hw
    obtain ⟨ring, hring, rfl⟩ := Option.map_eq_some_iff.mp hstep
    refine h.call (w := w) hcap hring trivial ?_
    rw [System.step, Option.ite_none_right_eq_some] at hring
    obtain ⟨-, hring⟩ := hring
    split at hring
    · cases hring
      exact ⟨rfl, rfl, fun _ _ ↦ rfl, rfl, id⟩
    · cases hring
      exact moves_goto rfl rfl rfl rfl fun _ ↦ ⟨number, task, hw, rfl⟩
  · contradiction

theorem Inv.spurious (h : Inv capacity s released) (hcap : capacity < 2 ^ 32)
    (hstep : s.step capacity (.spurious w) = some t) : Inv capacity t released := by
  rw [State.step] at hstep
  obtain ⟨ring, hring, rfl⟩ := Option.map_eq_some_iff.mp hstep
  refine h.call (w := w) hcap hring trivial ?_
  rw [System.step] at hring
  split at hring
  · rename_i size seen target lap hpc
    cases hring
    exact moves_goto rfl rfl rfl rfl fun hplace ↦ by rwa [hpc] at hplace
  · contradiction

/-- A step of a thread in the ring buffer. -/
theorem Inv.pusherStep (h : Inv capacity s released) (hcap : capacity < 2 ^ 32)
    (hfresh : s.ring.Fresh (.producer w)) (hstep : s.step capacity (.pusher w) = some t) :
    Inv capacity t released := by
  rw [State.step] at hstep
  obtain ⟨ring, hring, rfl⟩ := Option.map_eq_some_iff.mp hstep
  have hinv : ∃ c wrapper, ring.Inv capacity c wrapper := by
    obtain ⟨c, wrapper, hinv⟩ := h.ring
    exact hinv.step hcap hfresh hring
  obtain ⟨size, base, hwins, hreserves⟩ | ⟨hloses, hmoves⟩ :=
    producerStep_cases (s.pushers w) hring
  · have hplace := h.pushers w
    obtain ⟨seen, target, lap, hpc, hbarrier, hbase⟩ := hwins
    rw [hpc] at hplace
    obtain ⟨number, task, hw, -⟩ := hplace
    have hsome : s.wins w = some base :=
      wins_eq_some_iff.mpr ⟨size, seen, target, lap, hpc, hbarrier, hbase⟩
    rw [hsome, hw]
    exact h.reserves hinv ⟨seen, target, lap, hpc, hbarrier, hbase⟩ hreserves hw
  · have hnone : s.wins w = none := by
      rw [Option.eq_none_iff_forall_ne_some]
      intro base hsome
      obtain ⟨size, hwins⟩ := wins_eq_some_iff.mp hsome
      exact hloses size base hwins
    rw [hnone]
    exact h.moves hinv hmoves

theorem Inv.produceStep (h : Inv capacity s released) (hcap : capacity < 2 ^ 32)
    (hstep : s.step capacity (.produce w) = some t) : Inv capacity t released := by
  rw [State.step] at hstep
  split at hstep
  · rename_i number task base fields hw
    rw [Option.ite_none_right_eq_some] at hstep
    obtain ⟨rfl, hstep⟩ := hstep
    obtain ⟨ring, hring, rfl⟩ := Option.map_eq_some_iff.mp hstep
    have hinv : ∃ c wrapper, ring.Inv capacity c wrapper := by
      obtain ⟨c, wrapper, hinv⟩ := h.ring
      have hfresh : s.ring.Fresh (.produce w) := trivial
      exact hinv.step hcap hfresh hring
    rw [System.step, Option.ite_none_right_eq_some] at hring
    obtain ⟨-, hring⟩ := hring
    cases hring
    exact h.produce hinv hw rfl rfl rfl rfl
  · contradiction

theorem Inv.step (h : Inv capacity s released) (hcap : capacity < 2 ^ 32) {action : Action n}
    (hfresh : s.Fresh action) (hstep : s.step capacity action = some t) :
    ∃ released, Inv capacity t released := by
  cases action with
  | registerWriter w => exact ⟨released, h.registerWriter hcap hstep⟩
  | push w number task =>
    rw [State.step, Option.ite_none_right_eq_some] at hstep
    obtain ⟨⟨hw, hidle⟩, hstep⟩ := hstep
    cases hstep
    exact ⟨released, h.push hw hidle⟩
  | acquire w => exact ⟨released, h.acquire hcap hstep⟩
  | pusher w => exact ⟨released, h.pusherStep hcap hfresh hstep⟩
  | spurious w => exact ⟨released, h.spurious hcap hstep⟩
  | write w =>
    rw [State.step] at hstep
    split at hstep
    · rename_i number task base fields hw
      rw [Option.ite_none_right_eq_some] at hstep
      obtain ⟨⟨hholding, -⟩, hstep⟩ := hstep
      cases hstep
      exact ⟨released, h.write hw hholding⟩
    · contradiction
  | produce w => exact ⟨released, h.produceStep hcap hstep⟩
  | pop => exact ⟨released, h.pop hcap hstep⟩
  | popper => exact h.popperStep hcap hstep
  | consumed => exact ⟨released, h.consumed hcap hstep⟩
  | perform => exact ⟨released, h.perform hcap hstep⟩
  | invoke => exact ⟨released, h.invoke hstep⟩

/-- What the threads that push rely on. -/
structure InOrder (s : State n) : Prop where
  /-- the first tasks in the order of their acquires, each of them once -/
  performed : s.performed <+: s.order.map performs
  /-- the fiber that has been started finds the next one -/
  launched : ∀ popped, s.popper = .launched popped →
    ∃ record, s.order[s.performed.length]? = some record ∧
      ⟨s.memory.readObject Operation.size popped.operation, popped.stackSize,
        popped.description⟩ = performs record

/-- In every interleaving of the accesses of any number of threads and of the worker in which no
compare-exchange is stale, the tasks are performed once each, in the order in which their records
have been acquired, and with what has been pushed. -/
theorem inOrder_of_fresh (h : 1 ≤ capacity) (hcap : capacity < 2 ^ 32) {actions : List (Action n)}
    (hfresh : Meets (State.step capacity) Fresh (State.initial n) actions)
    (hrun : run (State.step capacity) (State.initial n) actions = some s) : InOrder s := by
  have hinv : ∃ released, Inv capacity s released := by
    apply invariant_of_meets (fun s ↦ ∃ released, Inv capacity s released) _ ⟨0, inv_initial h⟩
      hfresh hrun
    intro s action t ⟨released, hs⟩ hok hstep
    exact hs.step hcap hok hstep
  obtain ⟨released, hs⟩ := hinv
  refine ⟨?_, fun popped hpopped ↦ ?_⟩
  · rw [hs.performed]
    exact (List.take_prefix _ _).map performs
  · obtain ⟨record, hrecord, hperforms, -⟩ := hs.launched hcap hpopped
    exact ⟨record, hrecord, hperforms⟩

/-- Two threads post a task each.  The second one wins the race for the first record, but the first
one produces before it, so that the worker finds nothing to consume until both are produced. -/
def twoPosts (w v : Fin n) : List (Action n) :=
  [.registerWriter w, .pusher w, .registerWriter v, .pusher v, .push w 5 plain,
    .push v 6 zeroInside, .acquire w, .acquire v] ++
    List.replicate 3 (.pusher w) ++ List.replicate 6 (.pusher v) ++ List.replicate 7 (.pusher w) ++
    List.replicate 7 (.write w) ++ [.produce w, .pop] ++ List.replicate 7 .popper ++ [.consumed] ++
    List.replicate 7 (.write v) ++ [.produce v, .pop] ++ List.replicate 7 .popper ++
    [.consumed, .perform, .popper, .popper, .invoke, .pop, .perform, .popper, .popper, .invoke]

theorem inOrder_of_fresh_twoPosts : ∃ s : State 2,
    run (State.step 128) (State.initial 2) (twoPosts 0 1) = some s ∧
      s.order.map Prod.fst = [6, 5] ∧ s.performed.length = 2 ∧ InOrder s := by
  have hrun : (run (State.step 128) (State.initial 2) (twoPosts 0 1)).any
      (fun s ↦ s.order.map Prod.fst == [6, 5] && s.performed.length == 2) = true := by
    decide +kernel
  rw [Option.any_eq_true] at hrun
  obtain ⟨s, hs, hposts⟩ := hrun
  rw [Bool.and_eq_true, beq_iff_eq, beq_iff_eq] at hposts
  exact ⟨s, hs, hposts.1, hposts.2,
    inOrder_of_fresh (by decide) (by decide) (by decide +kernel) hs⟩

end Posting

end Ustevent
