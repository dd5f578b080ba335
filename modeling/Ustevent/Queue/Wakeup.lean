import Ustevent.Core.BlockingContextStrategy
import Ustevent.Queue.Runs

/-!
# The task queues that a blocking strategy waits for

A list of records in the order of their acquires, and the ring buffer of a context with the cursor
of `pop` and the fibers that release the records.  Both are lawful, so that a sleeping worker leaves
no posted task behind.
-/

namespace Ustevent

open Reasoning

namespace BlockingContextStrategy

/-- The first record is present and produced. -/
def FirstProduced {ρ : Type*} (produced : ρ → Bool) (records : List ρ) : Prop :=
  ∃ r ∈ records.head?, produced r = true

/-- A reservation that is not finished hides those behind it, and a new one is behind all others. -/
theorem firstProduced_of_append {ρ : Type*} {produced : ρ → Bool} {records : List ρ} {r : ρ}
    (hr : produced r = false) (h : FirstProduced produced (records ++ [r])) :
    FirstProduced produced records := by
  obtain ⟨first, hfirst, hproduced⟩ := h
  -- the new record is the first one only if there was none
  cases records with
  | nil =>
    rw [List.nil_append, List.head?_cons, Option.mem_some_iff] at hfirst
    rw [← hfirst, hr] at hproduced
    contradiction
  | cons head tail => exact ⟨first, hfirst, hproduced⟩

/-! ## A list of records -/

structure PostedRecord (ι : Type*) where
  owner : ι
  produced : Bool
deriving DecidableEq

section Records

variable {ι : Type*} [DecidableEq ι]

def PostedRecord.produce (w : ι) (r : PostedRecord ι) : PostedRecord ι :=
  if r.owner = w then { r with produced := true } else r

/-- The thread has acquired a record that it has yet to produce. -/
def Holds (records : List (PostedRecord ι)) (w : ι) : Prop :=
  ∃ r ∈ records, r.owner = w ∧ r.produced = false

instance (records : List (PostedRecord ι)) (w : ι) : Decidable (Holds records w) :=
  inferInstanceAs (Decidable (∃ r ∈ records, r.owner = w ∧ r.produced = false))

/-- The records in the order of their acquires; a thread acquires one at a time. -/
def recordQueue (ι : Type*) [DecidableEq ι] : RemoteQueue (List (PostedRecord ι)) ι Unit Empty where
  prepare records w _ := if Holds records w then none else some (records ++ [⟨w, false⟩])
  produce records w :=
    if Holds records w then some (records.map (PostedRecord.produce w)) else none
  pop
    | ⟨_, true⟩ :: records => some (true, records)
    | records => some (false, records)
  work _ step := step.elim
  idle _ := true

theorem consumable_recordQueue {records : List (PostedRecord ι)} :
    (recordQueue ι).Consumable records ↔ FirstProduced PostedRecord.produced records := by
  rcases records with _ | ⟨⟨owner, produced⟩, records⟩
  · simp [RemoteQueue.Consumable, recordQueue, FirstProduced]
  · cases produced <;> simp [RemoteQueue.Consumable, recordQueue, FirstProduced]

theorem lawful_recordQueue : (recordQueue ι).Lawful fun _ ↦ True where
  prepare records w _ records' _ hstep := by
    refine ⟨trivial, fun _ ↦ ⟨rfl, ?_⟩⟩
    rw [consumable_recordQueue, consumable_recordQueue]
    simp only [recordQueue, Option.ite_none_left_eq_some, Option.some.injEq] at hstep
    rw [← hstep.2]
    exact firstProduced_of_append rfl
  produce _ _ _ _ _ := ⟨trivial, fun _ ↦ rfl⟩
  pop records found records' _ _ hpop := by
    refine ⟨trivial, fun hfound ↦ ⟨rfl, ?_⟩⟩
    rintro ⟨records'', hagain⟩
    -- a pop that has found no record has left the queue as it was
    rcases records with _ | ⟨⟨owner, _ | _⟩, records⟩
    · cases hpop
      simp [recordQueue] at hagain
    · cases hpop
      simp [recordQueue] at hagain
    · cases hpop
      contradiction
  work _ step := step.elim

end Records

/-! ## The ring buffer of a context -/

section Ring

open MpscRingBuffer ContextTaskQueue

/-- The steps of a push before its produce. -/
inductive PushStep
  | registerWriter
  | acquire (task : Task)
  | write
deriving DecidableEq

/-- The steps of the fibers that pops have launched. -/
inductive FiberStep
  | perform (i : Nat)
  | invoke (i : Nat)
deriving DecidableEq

variable {n capacity : Nat}

def PushStep.action (w : Fin n) : PushStep → Context.Action n 1
  | .registerWriter => .registerWriter w
  | .acquire task => .acquire w task
  | .write => .write w

def FiberStep.action : FiberStep → Context.Action n 1
  | .perform i => .perform i
  | .invoke i => .invoke i

/-- `_context_task_queue` with the part of a context that remote tasks go through. -/
def contextQueue (n capacity : Nat) : RemoteQueue (Context n 1) (Fin n) PushStep FiberStep where
  prepare s w a := s.step capacity (a.action w)
  produce s w := s.step capacity (.produce w)
  pop s :=
    match ContextTaskQueue.pop capacity s.queue with
    | .error _ => none
    | .ok (popped, _) => (s.launch capacity (Fin.last 0)).map fun t ↦ (popped.isSome, t)
  work s b := s.step capacity b.action
  idle s := s.suspends (Fin.last 0)

/-- The worker does not pop before the fiber of its last pop has performed. -/
def LastWaits (s : Context n 1) : Prop :=
  ∀ (i : Nat) (f : Fiber 1), s.fibers[i]? = some f → f.operation ≠ none → i + 1 = s.fibers.length

variable {s t : Context n 1} {q : Fifo n} {c : Circular (Reservation n)}

theorem suspends_iff : s.suspends (Fin.last 0) = true ↔ ∀ f ∈ s.fibers, f.operation = none := by
  simp [Context.suspends, Fin.eq_zero]

/-- A pop returns a task if and only if the first record that is not released is produced. -/
theorem pop_isSome_iff (h : s.Inv capacity q c) (hcap : capacity < 2 ^ 32)
    (hidle : s.suspends (Fin.last 0) = true) : ∃ popped queue,
      ContextTaskQueue.pop capacity s.queue = .ok (popped, queue) ∧
      (popped.isSome = true ↔ FirstProduced Reservation.produced q.pending) := by
  have hpops := h.used_up (suspends_iff.mp hidle)
  by_cases hlt : s.queue.poped < s.queue.consumed
  · -- the rest of what the last consume returned begins with the first record
    have hgranted : 0 < q.granted := by
      by_contra hnone
      have := h.cursor.outside (by omega)
      omega
    have hlength := Context.granted_le h.refines
    obtain ⟨r, hr⟩ : ∃ r, q.pending[0]? = some r := ⟨_, List.getElem?_eq_getElem (by omega)⟩
    refine ⟨_, _, by rw [ContextTaskQueue.pop, if_pos hlt]; rfl, iff_of_true rfl ⟨r, ?_, ?_⟩⟩
    · rw [List.head?_eq_getElem?]
      exact hr
    · exact (Context.granted_reservation h.refines hr hgranted).2
  -- nothing is left of the last consume, so that pop consumes
  · obtain ⟨address, length, ring, c', hconsume, hlength, -⟩ := h.consumes hcap
    have hproduced : length ≠ 0 ↔ FirstProduced Reservation.produced q.pending := by
      rw [hlength]
      cases hpending : q.pending with
      | nil => simp [readyRun, FirstProduced]
      | cons r l =>
        have hr₀ : q.pending[0]? = some r := by
          rw [hpending]
          rfl
        have hpos := Context.pos_of_getElem? h.refines hr₀
        cases hr : r.produced with
        | true =>
          apply iff_of_true _ ⟨r, rfl, hr⟩
          -- a produced first record has at least one byte
          rw [readyRun, readyFrom, if_pos ⟨hr, rfl⟩, total_cons]
          omega
        | false =>
          rw [readyRun, readyFrom, if_neg (by simp [hr])]
          simp [FirstProduced, hr]
    rw [ContextTaskQueue.pop, if_neg hlt, hconsume, ok_bind]
    by_cases hzero : length = 0
    · simp only [if_pos hzero]
      exact ⟨none, _, rfl, iff_of_false (by simp) fun hfirst ↦ hproduced.mpr hfirst hzero⟩
    · simp only [if_neg hzero]
      exact ⟨_, _, rfl, iff_of_true rfl (hproduced.mp hzero)⟩

theorem consumable_iff (h : s.Inv capacity q c) (hcap : capacity < 2 ^ 32)
    (hidle : s.suspends (Fin.last 0) = true) :
    (contextQueue n capacity).Consumable s ↔ FirstProduced Reservation.produced q.pending := by
  obtain ⟨popped, queue, hpop, hfirst⟩ := pop_isSome_iff h hcap hidle
  rw [← hfirst, RemoteQueue.Consumable]
  cases popped with
  | none => simp [contextQueue, hpop]
  | some popped => simp [contextQueue, Context.launch, hpop]

theorem inTurn_perform (h : s.Inv capacity q c) (hlast : LastWaits s) (i : Nat) :
    s.InTurn (.perform i) := by
  refine ⟨trivial, ?_⟩
  intro f hf operation hoperation
  have hready : f.operation ≠ none := by
    rw [Option.mem_def] at hoperation
    rw [hoperation]
    exact Option.some_ne_none operation
  have hi := hlast i f hf hready
  have hok := h.fibers i f hf
  -- a fiber that has performed does not wait
  have hwaits : q.released.length ≤ i := by
    by_contra hlt
    apply hready
    rw [Fiber.operation]
    rcases hok.performed (by omega) with hinvoking | hdone
    · rw [hinvoking]
    · rw [hdone]
  -- the fiber of the first record that is not released waits as well, so it is this one
  have hfirst : q.released.length = i := by
    obtain ⟨g, hg⟩ : ∃ g, s.fibers[q.released.length]? = some g :=
      ⟨_, List.getElem?_eq_getElem (by omega)⟩
    obtain ⟨r, -, hphase, -⟩ := (h.fibers _ g hg).waiting (Nat.le_refl _)
    have := hlast _ g hg (by rw [Fiber.operation, hphase]; exact Option.some_ne_none _)
    omega
  obtain ⟨r, hr, hphase, -⟩ := hok.waiting hwaits
  rw [← hfirst, Nat.sub_self] at hr
  -- the record of the first fiber that waits begins at the consumer offset
  have hupper := h.cursor.upper
  obtain ⟨hstart, -⟩ := Context.granted_reservation h.refines hr (by omega)
  rw [List.take_zero, total_nil, Nat.add_zero] at hstart
  rw [Fiber.operation, hphase, Option.mem_some_iff] at hoperation
  rw [← hoperation, Nat.add_sub_cancel, hstart]
  rfl

/-! ## The invariant of the ring buffer -/

def ContextInv (capacity : Nat) (s : Context n 1) : Prop :=
  (∃ q c, s.Inv capacity q c) ∧ LastWaits s

/-- A push does not finish the record of another thread, and leaves the fibers alone. -/
theorem ContextInv.prepare (h : ContextInv capacity s) (hcap : capacity < 2 ^ 32) {w : Fin n}
    {a : PushStep} (hstep : s.step capacity (a.action w) = some t) :
    t.fibers = s.fibers ∧ ∃ q c q' c', s.Inv capacity q c ∧ t.Inv capacity q' c' ∧
      (FirstProduced Reservation.produced q'.pending →
        FirstProduced Reservation.produced q.pending) := by
  obtain ⟨⟨q, c, hs⟩, -⟩ := h
  cases a with
  | registerWriter =>
    simp only [PushStep.action, Context.step, Option.ite_none_right_eq_some,
      Option.some.injEq] at hstep
    obtain ⟨hw, rfl⟩ := hstep
    obtain ⟨q', c', hinv, hpending⟩ := hs.registerWriter hw
    exact ⟨rfl, q, c, q', c', hs, hinv, hpending ▸ id⟩
  | acquire task =>
    have hw : s.writers w = .idle := by
      by_contra hw
      simp [PushStep.action, Context.step, hw] at hstep
    obtain ⟨q', c', hinv, hpending⟩ := hs.acquire hcap hw hstep
    refine ⟨?_, q, c, q', c', hs, hinv, ?_⟩
    · simp only [PushStep.action, Context.step, if_pos hw] at hstep
      split at hstep
      · contradiction
      · cases hstep
        rfl
      · cases hstep
        rfl
    -- the acquire has failed, or its record is behind all others
    · rcases hpending with hpending | ⟨r, hpending, hr⟩
      · exact hpending ▸ id
      · rw [hpending]
        exact firstProduced_of_append hr
  | write =>
    simp only [PushStep.action, Context.step] at hstep
    split at hstep
    · rename_i number task base hw
      cases hstep
      exact ⟨rfl, q, c, q, c, hs, hs.write hcap hw, id⟩
    · contradiction

theorem lastWaits_of_fibers (h : LastWaits s) (hfibers : t.fibers = s.fibers) : LastWaits t := by
  unfold LastWaits
  rw [hfibers]
  exact h

theorem suspends_of_fibers (h : s.suspends (Fin.last 0) = true) (hfibers : t.fibers = s.fibers) :
    t.suspends (Fin.last 0) = true := by
  rw [suspends_iff, hfibers]
  exact suspends_iff.mp h

theorem ContextInv.produce (h : ContextInv capacity s) (hcap : capacity < 2 ^ 32) {w : Fin n}
    (hstep : s.step capacity (.produce w) = some t) :
    t.fibers = s.fibers ∧ ContextInv capacity t := by
  obtain ⟨⟨q, c, hs⟩, hlast⟩ := h
  have hfibers : t.fibers = s.fibers := by
    simp only [Context.step, Option.ite_none_right_eq_some] at hstep
    obtain ⟨-, hstep⟩ := hstep
    split at hstep
    · contradiction
    · cases hstep
      rfl
  have hturn : s.InTurn (.produce w) := ⟨trivial, trivial⟩
  exact ⟨hfibers, hs.step hcap hturn hstep, lastWaits_of_fibers hlast hfibers⟩

/-- A fiber that is launched while no other one waits is the last one. -/
theorem ContextInv.pop (h : ContextInv capacity s) (hcap : capacity < 2 ^ 32)
    (hidle : s.suspends (Fin.last 0) = true) {found : Bool}
    (hpop : (contextQueue n capacity).pop s = some (found, t)) :
    ContextInv capacity t ∧
      (found = false →
        t.suspends (Fin.last 0) = true ∧ ¬ (contextQueue n capacity).Consumable t) := by
  obtain ⟨⟨q, c, hs⟩, hlast⟩ := h
  obtain ⟨popped, queue, hqueue, hfirst⟩ := pop_isSome_iff hs hcap hidle
  simp only [contextQueue, hqueue, Option.map_eq_some_iff, Prod.mk.injEq] at hpop
  obtain ⟨t', hlaunch, hfound, rfl⟩ := hpop
  obtain ⟨q', c', ht, hpending⟩ := hs.pop hcap (Or.inr (suspends_iff.mp hidle)) hlaunch
  rw [Context.launch, hqueue] at hlaunch
  cases popped with
  | none =>
    cases hlaunch
    refine ⟨⟨⟨q', c', ht⟩, lastWaits_of_fibers hlast rfl⟩, fun _ ↦ ?_⟩
    -- pop again would find the same records
    have hidle' := suspends_of_fibers (t := { s with queue := queue }) hidle rfl
    refine ⟨hidle', ?_⟩
    rw [consumable_iff ht hcap hidle', hpending, ← hfirst]
    exact Bool.false_ne_true
  | some popped =>
    cases hlaunch
    refine ⟨⟨⟨q', c', ht⟩, ?_⟩, fun hnone ↦ absurd (hfound.trans hnone) (by simp)⟩
    -- the other fibers have all performed
    intro i f hf hready
    have hbound := (List.getElem?_eq_some_iff.mp hf).1
    simp only [List.length_append, List.length_singleton] at hbound ⊢
    by_contra hne
    rw [List.getElem?_append_left (by omega)] at hf
    exact hready (suspends_iff.mp hidle f (List.mem_of_getElem? hf))

theorem lastWaits_setFiber (h : LastWaits s) {i : Nat} {f : Fiber 1} (hf : f.operation = none)
    (hfibers : t.fibers = s.fibers.set i f) : LastWaits t := by
  intro k g hg hready
  rw [hfibers] at hg ⊢
  rw [List.length_set]
  by_cases heq : i = k
  · subst heq
    have hlt := (List.getElem?_eq_some_iff.mp hg).1
    rw [List.length_set] at hlt
    rw [List.getElem?_set_self hlt, Option.some.injEq] at hg
    exact absurd (hg ▸ hf) hready
  · rw [List.getElem?_set_ne heq] at hg
    exact h k g hg hready

theorem ContextInv.work (h : ContextInv capacity s) (hcap : capacity < 2 ^ 32) {b : FiberStep}
    (hstep : s.step capacity b.action = some t) : ContextInv capacity t := by
  obtain ⟨⟨q, c, hs⟩, hlast⟩ := h
  cases b with
  | perform i =>
    refine ⟨hs.step hcap (inTurn_perform hs hlast i) hstep, ?_⟩
    simp only [FiberStep.action, Context.step] at hstep
    split at hstep
    · split at hstep
      · split at hstep
        · contradiction
        · cases hstep
          exact lastWaits_setFiber hlast rfl rfl
      · contradiction
    · contradiction
  | invoke i =>
    have hturn : s.InTurn (.invoke i) := ⟨trivial, trivial⟩
    refine ⟨hs.step hcap hturn hstep, ?_⟩
    simp only [FiberStep.action, Context.step] at hstep
    split at hstep
    · split at hstep
      · cases hstep
        exact lastWaits_setFiber hlast rfl rfl
      · contradiction
    · contradiction

theorem lawful_contextQueue (hcap : capacity < 2 ^ 32) :
    (contextQueue n capacity).Lawful (ContextInv capacity) where
  prepare s w a t h hstep := by
    obtain ⟨hfibers, q, c, q', c', hs, ht, hfirst⟩ := h.prepare hcap hstep
    refine ⟨⟨⟨q', c', ht⟩, lastWaits_of_fibers h.2 hfibers⟩, fun hidle ↦ ?_⟩
    have hidle' := suspends_of_fibers hidle hfibers
    refine ⟨hidle', ?_⟩
    rw [consumable_iff hs hcap hidle, consumable_iff ht hcap hidle']
    exact hfirst
  produce s w t h hstep := by
    obtain ⟨hfibers, ht⟩ := h.produce hcap hstep
    exact ⟨ht, fun hidle ↦ suspends_of_fibers hidle hfibers⟩
  pop _ _ _ h hidle hpop := h.pop hcap hidle hpop
  work _ _ _ h hstep := h.work hcap hstep

theorem contextInv_initial (h : 1 ≤ capacity) : ContextInv capacity (Context.initial n 1) :=
  ⟨⟨_, _, Context.inv_initial h⟩, fun i f hf ↦ by simp [Context.initial] at hf⟩

end Ring

/-! ## Every run -/

open MpscRingBuffer in
/-- A blocked worker that has not been notified leaves no task behind: there is none, as the first
record is missing or not produced, or a submitter is about to notify the worker.  Of a list of
records in its acquire order, and of the ring buffer, where the tasks are what a pop returns. -/
theorem awake_of_run :
    (∀ (ι : Type) [DecidableEq ι] (actions : List (Action ι Unit Empty))
      (s : Suspending (List (PostedRecord ι)) ι),
      run (Suspending.step (recordQueue ι)) (Suspending.initial []) actions = some s →
      s.Awake (FirstProduced PostedRecord.produced s.queue)) ∧
    ∀ (n capacity : Nat) (actions : List (Action (Fin n) PushStep FiberStep))
      (s : Suspending (Context n 1) (Fin n)), 1 ≤ capacity → capacity < 2 ^ 32 →
      run (Suspending.step (contextQueue n capacity)) (Suspending.initial (Context.initial n 1))
        actions = some s →
      s.Awake ((contextQueue n capacity).Consumable s.queue) ∧
      ∃ q c, Refines capacity s.queue.queue.ring q c ∧
        s.Awake (FirstProduced Reservation.produced q.pending) := by
  constructor
  · intro ι _ actions s hrun
    have hinv := Suspending.inv_of_run lawful_recordQueue trivial hrun
    exact hinv.awake.of_imp fun _ ↦ consumable_recordQueue.mpr
  · intro n capacity actions s hpos hcap hrun
    have hinv := Suspending.inv_of_run (lawful_contextQueue hcap) (contextInv_initial hpos) hrun
    obtain ⟨⟨q, c, hs⟩, -⟩ := hinv.queue
    refine ⟨hinv.awake, q, c, hs.refines, hinv.awake.of_imp fun hblocked ↦ ?_⟩
    have hidle := hinv.idle (Suspending.suspended_of_blocked hblocked)
    exact (consumable_iff hs hcap hidle).mpr

/-- The worker is woken for a record behind one that is not finished, and sleeps again. -/
def sleepTwice : List (Action Nat Unit Empty) :=
  [.start, .prepare 0 (), .prepare 1 (), .produce 1, .suspend false, .proceed, .proceed, .notify 1,
    .notify 1, .notify 1, .notify 1, .notify 1, .proceed, .proceed, .proceed, .proceed,
    .suspend true, .proceed, .proceed, .produce 0]

/-- A thread posts a task to a worker that sleeps. -/
def postToSleeping : List (Action (Fin 1) PushStep FiberStep) :=
  [.start, .suspend false, .proceed, .proceed, .prepare (Fin.last 0) .registerWriter,
    .prepare (Fin.last 0) (.acquire Context.shortTask), .prepare (Fin.last 0) .write,
    .produce (Fin.last 0)]

/-- Both workers sleep with a task in the queue, and the submitters are about to notify them. -/
theorem awake_of_run_sleepTwice :
    (∃ s : Suspending (List (PostedRecord Nat)) Nat,
      run (Suspending.step (recordQueue Nat)) (Suspending.initial []) sleepTwice = some s ∧
      (s.worker = .asleep true ∧ s.notified = false ∧
        s.queue = [⟨0, true⟩, ⟨1, true⟩]) ∧
      s.Awake (FirstProduced PostedRecord.produced s.queue)) ∧
    ∃ s : Suspending (Context 1 1) (Fin 1),
      run (Suspending.step (contextQueue 1 80)) (Suspending.initial (Context.initial 1 1))
        postToSleeping = some s ∧
      (s.worker = .asleep false ∧ s.notified = false ∧
        ((contextQueue 1 80).pop s.queue).any Prod.fst = true) ∧
      s.Awake ((contextQueue 1 80).Consumable s.queue) := by
  constructor
  · have hrun : (run (Suspending.step (recordQueue Nat)) (Suspending.initial [])
        sleepTwice).any (fun s ↦ decide (s.worker = .asleep true ∧ s.notified = false ∧
          s.queue = [⟨0, true⟩, ⟨1, true⟩])) = true := by decide +kernel
    rw [Option.any_eq_true] at hrun
    obtain ⟨s, hs, hplace⟩ := hrun
    exact ⟨s, hs, of_decide_eq_true hplace, awake_of_run.1 Nat sleepTwice s hs⟩
  · have hrun : (run (Suspending.step (contextQueue 1 80))
        (Suspending.initial (Context.initial 1 1)) postToSleeping).any
        (fun s ↦ decide (s.worker = .asleep false ∧ s.notified = false ∧
          ((contextQueue 1 80).pop s.queue).any Prod.fst = true)) = true := by decide +kernel
    rw [Option.any_eq_true] at hrun
    obtain ⟨s, hs, hplace⟩ := hrun
    exact ⟨s, hs, of_decide_eq_true hplace,
      (awake_of_run.2 1 80 postToSleeping s (by decide) (by decide) hs).1⟩

end BlockingContextStrategy

end Ustevent
