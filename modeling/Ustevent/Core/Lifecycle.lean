import Ustevent.Core.BasicBarrier

/-!
# From `Context::run` to `Context::terminate`

Each call of `run` constructs a strategy, which takes the next index of the context and registers
itself there, waits at the barrier for the others and sleeps on `_done_cv` until `terminate` has set
`_done`.  The accesses of any number of calls of the two are interleaved; a sleep releases
`_done_mutex` in the same step, and may end at any time.
-/

namespace Ustevent.Lifecycle

open Reasoning

/-- Where a call of `run` is. -/
inductive RunPlace
  /-- the strategy is to take its index -/
  | constructs
  | registers (id : Nat)
  | arrives
  /-- in the barrier, with the number of its arrival -/
  | waits (call : Nat)
  | locks
  | tests
  | asleep
  | unlocks
  | returned
deriving DecidableEq

/-- Where a call of `terminate` is. -/
inductive TerminatePlace
  | locks
  | sets
  | unlocks
  | notifiesAll
  | returned
deriving DecidableEq

inductive Holder
  | run (i : Nat)
  | terminate (c : Nat)
deriving DecidableEq

/-- A slot of `_strategies` holds the number of the call of `run` whose strategy it points to. -/
structure Context where
  nextStrategyIndex : Nat
  strategies : List (Option Nat)
  barrier : BasicBarrier.Waiting
  doneMutex : Option Holder
  done : Bool
  runs : List RunPlace
  terminates : List TerminatePlace
deriving DecidableEq

inductive Action
  | run
  /-- the next step of a call of `run` -/
  | proceed (i : Nat)
  /-- a spurious wake-up -/
  | wake (i : Nat)
  | terminate
  /-- the next step of a call of `terminate` -/
  | finish (c : Nat)
deriving DecidableEq

namespace RunPlace

/-- The strategy has its index. -/
@[grind] def Constructed : RunPlace → Bool
  | .constructs => false
  | _ => true

/-- The strategy is in its slot. -/
@[grind] def Registered : RunPlace → Bool
  | .constructs | .registers _ => false
  | _ => true

@[grind] def Arrived : RunPlace → Bool
  | .constructs | .registers _ | .arrives => false
  | _ => true

/-- Past the barrier.  From here on the scheduler of the thread picks contexts, and may steal. -/
@[grind] def Passed : RunPlace → Bool
  | .constructs | .registers _ | .arrives | .waits _ => false
  | _ => true

/-- With `_done_mutex`. -/
@[grind] def Holds : RunPlace → Bool
  | .tests | .unlocks => true
  | _ => false

end RunPlace

namespace TerminatePlace

@[grind] def Holds : TerminatePlace → Bool
  | .sets | .unlocks => true
  | _ => false

/-- `_done` is set, and the sleepers are not woken up yet. -/
@[grind] def Notifies : TerminatePlace → Bool
  | .unlocks | .notifiesAll => true
  | _ => false

end TerminatePlace

namespace Context

def create (threadNum : UInt64) : Context where
  nextStrategyIndex := 0
  strategies := List.replicate threadNum.toNat none
  barrier := BasicBarrier.Waiting.initial threadNum
  doneMutex := none
  done := false
  runs := []
  terminates := []

abbrev goto (s : Context) (i : Nat) (place : RunPlace) : Context :=
  { s with runs := s.runs.set i place }

abbrev finishAt (s : Context) (c : Nat) (place : TerminatePlace) : Context :=
  { s with terminates := s.terminates.set c place }

/-- `notify_all` ends the waits on `_done_cv`. -/
def wakeUp : RunPlace → RunPlace
  | .asleep => .locks
  | place => place

def proceed (s : Context) (i : Nat) : RunPlace → Option Context
  | .constructs =>
    some ({ s with nextStrategyIndex := s.nextStrategyIndex + 1 }.goto i
      (.registers s.nextStrategyIndex))
  | .registers id =>
    -- behind the end of the vector, the assignment is undefined
    if id < s.strategies.length then
      some ({ s with strategies := s.strategies.set id (some i) }.goto i .arrives)
    else none
  | .arrives =>
    (s.barrier.step .arrive).map fun barrier ↦
      { s with barrier := barrier }.goto i (.waits s.barrier.calls.length)
  | .waits call =>
    match s.barrier.calls[call]? with
    | some (.returned _) => some (s.goto i .locks)
    | _ => (s.barrier.step (.wake call)).map fun barrier ↦ { s with barrier := barrier }
  | .locks =>
    if s.doneMutex = none then some ({ s with doneMutex := some (.run i) }.goto i .tests) else none
  | .tests =>
    if s.done then some (s.goto i .unlocks)
    else some ({ s with doneMutex := none }.goto i .asleep)
  | .unlocks => some ({ s with doneMutex := none }.goto i .returned)
  | .asleep | .returned => none

def finish (s : Context) (c : Nat) : TerminatePlace → Option Context
  | .locks =>
    if s.doneMutex = none then some ({ s with doneMutex := some (.terminate c) }.finishAt c .sets)
    else none
  | .sets => some ({ s with done := true }.finishAt c .unlocks)
  | .unlocks => some ({ s with doneMutex := none }.finishAt c .notifiesAll)
  | .notifiesAll => some ({ s with runs := s.runs.map wakeUp }.finishAt c .returned)
  | .returned => none

def step (s : Context) : Action → Option Context
  | .run => some { s with runs := s.runs ++ [.constructs] }
  | .proceed i => s.runs[i]?.bind (s.proceed i)
  | .wake i => if s.runs[i]? = some .asleep then some (s.goto i .locks) else none
  | .terminate => some { s with terminates := s.terminates ++ [.locks] }
  | .finish c => s.terminates[c]?.bind (s.finish c)

/-- No call can go on: what is left are sleeps, and wake-ups after which the call sleeps again. -/
def Settled (s : Context) : Prop :=
  (∀ i t, s.step (.proceed i) = some t → t = s) ∧ ∀ c t, s.step (.finish c) = some t → t = s

/-- What the threads of the context rely on. -/
structure Sound (s : Context) : Prop where
  /-- an index is in bounds if there is a slot for each call of `run` -/
  inBounds : ∀ i id : Nat, s.runs[i]? = some (.registers id) → id < s.runs.length
  /-- nobody else has the slot, or is going to have it -/
  alone : ∀ i id : Nat, s.runs[i]? = some (.registers id) →
    ∀ j : Nat, s.strategies[id]? ≠ some (some j) ∧ (s.runs[j]? = some (.registers id) → j = i)
  registered : ∀ (i : Nat) (place : RunPlace), s.runs[i]? = some place → place.Registered = true →
    ∃! id : Nat, s.strategies[id]? = some (some i)
  /-- whoever may steal finds a strategy in every slot -/
  ready : ∀ place ∈ s.runs, place.Passed = true → ∀ slot ∈ s.strategies, slot.isSome = true
  lasts : .returned ∈ s.runs → s.done = true
  /-- who sleeps although the context is done is woken up -/
  awake : .asleep ∈ s.runs → s.done = true → ∃ place ∈ s.terminates, place.Notifies = true
  /-- with a call of `run` for each slot, all of them end up asleep, or returned once the context is
  done -/
  ends : s.Settled → s.runs.length = s.strategies.length →
    ∀ place ∈ s.runs, place = if s.done then .returned else .asleep

/-! ## The slots -/

/-- The indexes are taken and the slots are filled one by one. -/
structure Slots (s : Context) : Prop where
  next : s.nextStrategyIndex = s.runs.countP RunPlace.Constructed
  count : s.strategies.countP Option.isSome = s.runs.countP RunPlace.Registered
  registers_lt : ∀ i id : Nat, s.runs[i]? = some (.registers id) → id < s.nextStrategyIndex
  registers_inj : ∀ i j id : Nat, s.runs[i]? = some (.registers id) →
    s.runs[j]? = some (.registers id) → i = j
  registers_slot : ∀ i id j : Nat, s.runs[i]? = some (.registers id) →
    s.strategies[id]? ≠ some (some j)
  slot_lt : ∀ id i : Nat, s.strategies[id]? = some (some i) → id < s.nextStrategyIndex
  slot_inj : ∀ id id' i : Nat, s.strategies[id]? = some (some i) →
    s.strategies[id']? = some (some i) → id = id'
  slot_run : ∀ id i : Nat, s.strategies[id]? = some (some i) →
    ∃ place, s.runs[i]? = some place ∧ place.Registered = true
  registered : ∀ (i : Nat) (place : RunPlace), s.runs[i]? = some place → place.Registered = true →
    ∃ id : Nat, s.strategies[id]? = some (some i)

/-- A call that moves is counted at its new place. -/
theorem countP_goto {α : Type*} {l : List α} {i : Nat} {old : α} (p : α → Bool)
    (hold : l[i]? = some old) (new : α) :
    (l.set i new).countP p + (p old).toNat = l.countP p + (p new).toNat := countP_set_add hold

variable {s t : Context} {i c id : Nat} {place place' : RunPlace}

theorem slots_create (threadNum : UInt64) : Slots (create threadNum) where
  next := rfl
  count := by simp [create]
  registers_lt i id h := by simp [create] at h
  registers_inj i j id h := by simp [create] at h
  registers_slot i id j h := by simp [create] at h
  slot_lt id i h := by simp [create, List.getElem?_replicate] at h
  slot_inj id id' i h := by simp [create, List.getElem?_replicate] at h
  slot_run id i h := by simp [create, List.getElem?_replicate] at h
  registered i place h := by simp [create] at h

/-- A call that has its slot goes on. -/
theorem Slots.goto (h : Slots s) (hplace : s.runs[i]? = some place)
    (hfrom : place.Registered = true) (hto : place'.Registered = true)
    (hnext : t.nextStrategyIndex = s.nextStrategyIndex) (hslots : t.strategies = s.strategies)
    (hruns : t.runs = s.runs.set i place') : Slots t := by
  have hconstructed := countP_goto RunPlace.Constructed hplace place'
  have hregistered := countP_goto RunPlace.Registered hplace place'
  obtain ⟨hnext', hcount, hlt, hinj, hslot, hslot_lt, hslot_inj, hrun, hreg⟩ := h
  refine ⟨?_, ?_, ?_, ?_, ?_, ?_, ?_, ?_, ?_⟩ <;> rw [hslots, hnext, hruns] at * <;> grind

theorem Slots.run (h : Slots s) : Slots { s with runs := s.runs ++ [.constructs] } := by
  obtain ⟨hnext, hcount, hlt, hinj, hslot, hslot_lt, hslot_inj, hrun, hreg⟩ := h
  refine ⟨?_, ?_, ?_, ?_, ?_, hslot_lt, hslot_inj, ?_, ?_⟩
  · simp [hnext, RunPlace.Constructed]
  · simp [hcount, RunPlace.Registered]
  all_goals grind

theorem Slots.construct (h : Slots s) (hplace : s.runs[i]? = some .constructs) :
    Slots ({ s with nextStrategyIndex := s.nextStrategyIndex + 1 }.goto i
      (.registers s.nextStrategyIndex)) := by
  have hconstructed := countP_goto RunPlace.Constructed hplace (.registers s.nextStrategyIndex)
  have hregistered := countP_goto RunPlace.Registered hplace (.registers s.nextStrategyIndex)
  obtain ⟨hnext, hcount, hlt, hinj, hslot, hslot_lt, hslot_inj, hrun, hreg⟩ := h
  refine ⟨?_, ?_, ?_, ?_, ?_, ?_, hslot_inj, ?_, ?_⟩
  all_goals grind

theorem Slots.register (h : Slots s) (hplace : s.runs[i]? = some (.registers id))
    (hid : id < s.strategies.length) :
    Slots ({ s with strategies := s.strategies.set id (some i) }.goto i .arrives) := by
  have hconstructed := countP_goto RunPlace.Constructed hplace .arrives
  have hregistered := countP_goto RunPlace.Registered hplace .arrives
  have hempty : s.strategies[id]? = some none := by
    cases hslot : s.strategies[id] with
    | none => rw [List.getElem?_eq_getElem hid, hslot]
    | some j =>
      refine absurd ?_ (h.registers_slot i id j hplace)
      rw [List.getElem?_eq_getElem hid, hslot]
  have hslots := countP_goto Option.isSome hempty (some i)
  obtain ⟨hnext, hcount, hlt, hinj, hslot, hslot_lt, hslot_inj, hrun, hreg⟩ := h
  refine ⟨?_, ?_, ?_, ?_, ?_, ?_, ?_, ?_, ?_⟩
  case refine_9 =>
    intro j place hj hplace'
    by_cases heq : j = i
    · exact ⟨id, by rw [List.getElem?_set_self hid, heq]⟩
    · rw [List.getElem?_set_ne (Ne.symm heq)] at hj
      obtain ⟨id', hid'⟩ := hreg j place hj hplace'
      exact ⟨id', by grind⟩
  all_goals grind

@[simp, grind =] theorem registered_wakeUp : (wakeUp place).Registered = place.Registered := by
  cases place <;> rfl

@[simp, grind =] theorem constructed_wakeUp : (wakeUp place).Constructed = place.Constructed := by
  cases place <;> rfl

@[simp, grind =] theorem arrived_wakeUp : (wakeUp place).Arrived = place.Arrived := by
  cases place <;> rfl

@[simp, grind =] theorem passed_wakeUp : (wakeUp place).Passed = place.Passed := by
  cases place <;> rfl

@[simp, grind =] theorem holds_wakeUp : (wakeUp place).Holds = place.Holds := by
  cases place <;> rfl

theorem getElem?_wakeUp (runs : List RunPlace) (hlocks : place ≠ .locks) :
    (runs.map wakeUp)[i]? = some place ↔ runs[i]? = some place ∧ place ≠ .asleep := by
  rw [List.getElem?_map, Option.map_eq_some_iff]
  constructor
  · rintro ⟨old, hold, rfl⟩
    cases old <;> simp_all [wakeUp]
  · rintro ⟨hplace, hasleep⟩
    refine ⟨place, hplace, ?_⟩
    cases place <;> first | rfl | contradiction

theorem exists_wakeUp {runs : List RunPlace} {p : RunPlace → Bool}
    (hp : ∀ place, p (wakeUp place) = p place) :
    (∃ place, (runs.map wakeUp)[i]? = some place ∧ p place = true) ↔
      ∃ place, runs[i]? = some place ∧ p place = true := by
  simp only [List.getElem?_map, Option.map_eq_some_iff]
  grind

theorem countP_wakeUp {p : RunPlace → Bool} (h : ∀ place, p (wakeUp place) = p place)
    (runs : List RunPlace) : (runs.map wakeUp).countP p = runs.countP p := by
  rw [List.countP_map]
  exact List.countP_congr fun place _ ↦ by rw [Function.comp_apply, h]

theorem Slots.wakeUp (h : Slots s) : Slots { s with runs := s.runs.map wakeUp } := by
  have hregisters : ∀ i id : Nat, (s.runs.map Context.wakeUp)[i]? = some (.registers id) →
      s.runs[i]? = some (.registers id) := by
    intro i id hplace
    exact ((getElem?_wakeUp s.runs (by simp)).mp hplace).1
  refine ⟨?_, ?_, ?_, ?_, ?_, h.slot_lt, h.slot_inj, ?_, ?_⟩
  · rw [countP_wakeUp fun _ ↦ constructed_wakeUp, h.next]
  · rw [countP_wakeUp fun _ ↦ registered_wakeUp, h.count]
  · exact fun i id hplace ↦ h.registers_lt i id (hregisters i id hplace)
  · exact fun i j id hi hj ↦ h.registers_inj i j id (hregisters i id hi) (hregisters j id hj)
  · exact fun i id j hplace ↦ h.registers_slot i id j (hregisters i id hplace)
  · exact fun id i hslot ↦ (exists_wakeUp fun _ ↦ registered_wakeUp).mpr (h.slot_run id i hslot)
  · intro i place hplace hregistered
    obtain ⟨old, hold, hregistered⟩ :=
      (exists_wakeUp fun _ ↦ registered_wakeUp).mp ⟨place, hplace, hregistered⟩
    exact h.registered i old hold hregistered

/-! ## The barrier -/

/-- The calls of the barrier are those of the calls of `run`, each of which has one. -/
structure Gathered (s : Context) : Prop where
  barrier : s.barrier.Inv
  threshold : s.barrier.barrier.threshold.toNat = s.strategies.length
  pos : 0 < s.strategies.length
  arrived : s.barrier.calls.length = s.runs.countP RunPlace.Arrived
  waits : ∀ i call : Nat, s.runs[i]? = some (.waits call) → call < s.barrier.calls.length
  passed : ∀ (i : Nat) (place : RunPlace), s.runs[i]? = some place → place.Passed = true →
    s.strategies.length ≤ s.barrier.calls.length

theorem gathered_create {threadNum : UInt64} (h : 1 ≤ threadNum.toNat) :
    Gathered (create threadNum) where
  barrier := BasicBarrier.Waiting.inv_initial threadNum
  threshold := by simp [create, BasicBarrier.Waiting.initial, BasicBarrier.create]
  pos := by
    rw [create, List.length_replicate]
    exact h
  arrived := by simp [create, BasicBarrier.Waiting.initial]
  waits i call h := by simp [create] at h
  passed i place h := by simp [create] at h

theorem Gathered.goto (h : Gathered s) (hplace : s.runs[i]? = some place)
    (hruns : t.runs = s.runs.set i place') (harrived : place'.Arrived = place.Arrived)
    (hwaits : ∀ call, place' ≠ .waits call)
    (hpassed : place'.Passed = true →
      place.Passed = true ∨ s.strategies.length ≤ s.barrier.calls.length)
    (hbarrier : t.barrier = s.barrier) (hslots : t.strategies.length = s.strategies.length) :
    Gathered t := by
  have hcount := countP_goto RunPlace.Arrived hplace place'
  obtain ⟨hinv, hthreshold, hpos, harr, hwait, hpass⟩ := h
  refine ⟨by rwa [hbarrier], by rw [hbarrier, hslots, hthreshold], by rwa [hslots], ?_, ?_, ?_⟩
  all_goals
    rw [hbarrier, hruns]
    grind

theorem Gathered.run (h : Gathered s) : Gathered { s with runs := s.runs ++ [.constructs] } := by
  refine ⟨h.barrier, h.threshold, h.pos, ?_, ?_, ?_⟩
  · simp [h.arrived, RunPlace.Arrived]
  · have := h.waits
    grind
  · have := h.passed
    grind

theorem Gathered.wakeUp (h : Gathered s) : Gathered { s with runs := s.runs.map wakeUp } := by
  refine ⟨h.barrier, h.threshold, h.pos, ?_, ?_, ?_⟩
  · rw [countP_wakeUp fun _ ↦ arrived_wakeUp, h.arrived]
  · intro i call hplace
    exact h.waits i call ((getElem?_wakeUp s.runs (by simp)).mp hplace).1
  · intro i place hplace hpassed
    obtain ⟨old, hold, hpassed⟩ :=
      (exists_wakeUp fun _ ↦ passed_wakeUp).mp ⟨place, hplace, hpassed⟩
    exact h.passed i old hold hpassed

theorem Gathered.arrive (h : Gathered s) (hplace : s.runs[i]? = some .arrives)
    {barrier : BasicBarrier.Waiting} (hstep : s.barrier.step .arrive = some barrier) :
    Gathered ({ s with barrier := barrier }.goto i (.waits s.barrier.calls.length)) := by
  have hcount := countP_goto RunPlace.Arrived hplace (.waits s.barrier.calls.length)
  obtain ⟨hinv, hthreshold⟩ := h.barrier.arrive (by rw [h.threshold]; exact h.pos) hstep
  have hlength : barrier.calls.length = s.barrier.calls.length + 1 := by
    rw [BasicBarrier.Waiting.step, Option.some.injEq] at hstep
    rw [← hstep, List.length_append, List.length_singleton]
  refine ⟨hinv, by rw [hthreshold]; exact h.threshold, h.pos, ?_, ?_, ?_⟩
  · rw [hlength, h.arrived]
    grind
  · intro j call hj
    have := h.waits j call
    grind
  · intro j place hj hpassed
    have := h.passed j place
    grind

theorem Gathered.wake (h : Gathered s) {call : Nat} {barrier : BasicBarrier.Waiting}
    (hstep : s.barrier.step (.wake call) = some barrier) :
    Gathered { s with barrier := barrier } := by
  obtain ⟨hinv, hthreshold⟩ := h.barrier.wake hstep
  have hlength : barrier.calls.length = s.barrier.calls.length := by
    rw [BasicBarrier.Waiting.step] at hstep
    split at hstep
    · cases hstep
      exact List.length_set
    · contradiction
  refine ⟨hinv, by rw [hthreshold]; exact h.threshold, h.pos, ?_, ?_, ?_⟩
  all_goals
    rw [hlength]
  · exact h.arrived
  · exact h.waits
  · exact h.passed

/-- A call that the barrier has let through was not the only one. -/
theorem Gathered.leaves (h : Gathered s) {call : Nat} {last : Bool}
    (hreturned : s.barrier.calls[call]? = some (.returned last)) :
    s.strategies.length ≤ s.barrier.calls.length := by
  have hlt := (List.getElem?_eq_some_iff.mp hreturned).1
  have hok := h.barrier.calls call _ hreturned
  rw [h.threshold] at hok
  cases last with
  | true =>
    have hlast : call % s.strategies.length + 1 = s.strategies.length := hok
    have := Nat.mod_le call s.strategies.length
    omega
  | false =>
    have hlt : call / s.strategies.length < s.barrier.calls.length / s.strategies.length := hok.2
    by_contra hlt'
    rw [Nat.div_eq_of_lt (Nat.lt_of_not_le hlt')] at hlt
    contradiction

/-! ## `_done_mutex` and `_done` -/

structure Guarded (s : Context) : Prop where
  runs : ∀ (i : Nat) (place : RunPlace), s.runs[i]? = some place →
    (place.Holds = true ↔ s.doneMutex = some (.run i))
  terminates : ∀ (c : Nat) (place : TerminatePlace), s.terminates[c]? = some place →
    (place.Holds = true ↔ s.doneMutex = some (.terminate c))
  run_lt : ∀ i, s.doneMutex = some (.run i) → i < s.runs.length
  terminate_lt : ∀ c, s.doneMutex = some (.terminate c) → c < s.terminates.length
  done : ∀ (i : Nat) (place : RunPlace), s.runs[i]? = some place →
    place = .unlocks ∨ place = .returned → s.done = true
  told : ∀ i : Nat, s.runs[i]? = some .asleep → s.done = true →
    ∃ (c : Nat) (place : TerminatePlace), s.terminates[c]? = some place ∧ place.Notifies = true

theorem guarded_create (threadNum : UInt64) : Guarded (create threadNum) where
  runs i place h := by simp [create] at h
  terminates c place h := by simp [create] at h
  run_lt i h := by simp [create] at h
  terminate_lt c h := by simp [create] at h
  done i place h := by simp [create] at h
  told i h := by simp [create] at h

/-- A call of `run` goes on, and may lock or unlock the mutex. -/
theorem Guarded.goto (h : Guarded s) (hplace : s.runs[i]? = some place)
    (hruns : t.runs = s.runs.set i place')
    (hmutex : place'.Holds = true ↔ t.doneMutex = some (.run i))
    (hothers : ∀ holder, holder ≠ .run i →
      (t.doneMutex = some holder ↔ s.doneMutex = some holder))
    (hdone : place' = .unlocks ∨ place' = .returned → s.done = true)
    (hasleep : place' = .asleep → s.done = false) (hsame : t.done = s.done)
    (hterminates : t.terminates = s.terminates) : Guarded t := by
  obtain ⟨hr, hc, hrlt, hclt, hd, htold⟩ := h
  refine ⟨?_, ?_, ?_, ?_, ?_, ?_⟩
  · intro j q hj
    have := hothers (.run j)
    have := hr j q
    rw [hruns] at hj
    grind
  · intro c q hq
    rw [hterminates] at hq
    rw [hothers (.terminate c) (by simp)]
    exact hc c q hq
  · intro j hj
    have := hothers (.run j)
    have := hrlt j
    rw [hruns]
    grind
  · intro c hc'
    rw [hterminates]
    exact hclt c ((hothers (.terminate c) (by simp)).mp hc')
  · intro j q hj hq
    have := hd j q
    rw [hruns] at hj
    rw [hsame]
    grind
  · intro j hj hdone'
    have := htold j
    rw [hruns] at hj
    rw [hterminates]
    grind

/-- A call of `terminate` goes on. -/
theorem Guarded.finishAt (h : Guarded s) {place place' : TerminatePlace}
    (hplace : s.terminates[c]? = some place)
    (hmutex : place'.Holds = true ↔ t.doneMutex = some (.terminate c))
    (hothers : ∀ holder, holder ≠ .terminate c →
      (t.doneMutex = some holder ↔ s.doneMutex = some holder))
    (hnotifies : place.Notifies = true → place'.Notifies = true)
    (hdone : t.done = s.done ∨ t.done = true ∧ place'.Notifies = true)
    (hruns : t.runs = s.runs) (hterminates : t.terminates = s.terminates.set c place') :
    Guarded t := by
  obtain ⟨hr, hc, hrlt, hclt, hd, htold⟩ := h
  have hlt := (List.getElem?_eq_some_iff.mp hplace).1
  refine ⟨?_, ?_, ?_, ?_, ?_, ?_⟩
  · intro i q hq
    rw [hruns] at hq
    rw [hothers (.run i) (by simp)]
    exact hr i q hq
  · intro d q hd'
    have := hothers (.terminate d)
    have := hc d q
    rw [hterminates] at hd'
    grind
  · intro i hi
    rw [hruns]
    exact hrlt i ((hothers (.run i) (by simp)).mp hi)
  · intro d hd'
    have := hothers (.terminate d)
    have := hclt d
    rw [hterminates]
    grind
  · intro i q hi hq
    have := hd i q
    rw [hruns] at hi
    grind
  · intro i hi hdone'
    rw [hruns] at hi
    rw [hterminates]
    rcases hdone with hsame | ⟨-, hplace'⟩
    · rw [hsame] at hdone'
      obtain ⟨d, q, hq, hnotifies'⟩ := htold i hi hdone'
      by_cases heq : d = c
      · exact ⟨c, place', List.getElem?_set_self hlt, by grind⟩
      · exact ⟨d, q, by rwa [List.getElem?_set_ne (Ne.symm heq)], hnotifies'⟩
    · exact ⟨c, place', List.getElem?_set_self hlt, hplace'⟩

/-- After `notify_all`, nobody sleeps. -/
theorem Guarded.notifyAll (h : Guarded s) (hplace : s.terminates[c]? = some .notifiesAll) :
    Guarded ({ s with runs := s.runs.map wakeUp }.finishAt c .returned) := by
  have hmutex := h.terminates c _ hplace
  refine ⟨?_, ?_, ?_, ?_, ?_, ?_⟩
  · intro i place hi
    rw [List.getElem?_map, Option.map_eq_some_iff] at hi
    obtain ⟨old, hold, rfl⟩ := hi
    rw [holds_wakeUp]
    exact h.runs i old hold
  · intro d place hd
    have := h.terminates d place
    grind
  · intro i hi
    have := h.run_lt i hi
    rwa [List.length_map]
  · intro d hd
    have := h.terminate_lt d hd
    rwa [List.length_set]
  · intro i place hi hplace'
    rw [getElem?_wakeUp s.runs (by grind)] at hi
    exact h.done i place hi.1 hplace'
  · intro i hi
    exact absurd rfl ((getElem?_wakeUp s.runs (by simp)).mp hi).2

theorem Guarded.run (h : Guarded s) : Guarded { s with runs := s.runs ++ [.constructs] } := by
  obtain ⟨hr, hc, hrlt, hclt, hd, htold⟩ := h
  refine ⟨?_, hc, ?_, hclt, ?_, ?_⟩
  · intro i place hi
    have := hr i place
    have := hrlt i
    grind
  all_goals grind

theorem Guarded.terminate (h : Guarded s) :
    Guarded { s with terminates := s.terminates ++ [.locks] } := by
  obtain ⟨hr, hc, hrlt, hclt, hd, htold⟩ := h
  refine ⟨hr, ?_, hrlt, ?_, hd, ?_⟩
  · intro d place hd'
    have := hc d place
    have := hclt d
    grind
  · grind
  · intro i hi hdone
    obtain ⟨d, place, hplace, hnotifies⟩ := htold i hi hdone
    have hlt := (List.getElem?_eq_some_iff.mp hplace).1
    exact ⟨d, place, by rwa [List.getElem?_append_left hlt], hnotifies⟩

/-! ## Steps -/

structure Inv (s : Context) : Prop where
  slots : Slots s
  gathered : Gathered s
  guarded : Guarded s

/-- A call that is registered and does not touch the barrier goes on. -/
theorem Inv.goto (h : Inv s) (place' : RunPlace) (mutex : Option Holder)
    (hplace : s.runs[i]? = some place) (hfrom : place.Registered = true) (hto : place'.Registered = true)
    (harrived : place'.Arrived = place.Arrived) (hwaits : ∀ call, place' ≠ .waits call)
    (hpassed : place'.Passed = true →
      place.Passed = true ∨ s.strategies.length ≤ s.barrier.calls.length)
    (hmutex : place'.Holds = true ↔ mutex = some (.run i))
    (hothers : ∀ holder, holder ≠ .run i → (mutex = some holder ↔ s.doneMutex = some holder))
    (hdone : place' = .unlocks ∨ place' = .returned → s.done = true)
    (hasleep : place' = .asleep → s.done = false) :
    Inv ({ s with doneMutex := mutex }.goto i place') where
  slots := h.slots.goto hplace hfrom hto rfl rfl rfl
  gathered := h.gathered.goto hplace rfl harrived hwaits hpassed rfl rfl
  guarded := h.guarded.goto hplace rfl hmutex hothers hdone hasleep rfl rfl

theorem Inv.proceed (h : Inv s) (hplace : s.runs[i]? = some place)
    (hstep : s.proceed i place = some t) : Inv t := by
  have hholds := h.guarded.runs i place hplace
  cases place with
  | constructs =>
    rw [Context.proceed, Option.some.injEq] at hstep
    subst hstep
    exact ⟨h.slots.construct hplace,
      h.gathered.goto hplace rfl rfl (by simp) (by simp [RunPlace.Passed]) rfl rfl,
      h.guarded.goto hplace rfl hholds (fun _ _ ↦ Iff.rfl) (by simp) (by simp) rfl rfl⟩
  | registers id =>
    rw [Context.proceed, Option.ite_none_right_eq_some, Option.some.injEq] at hstep
    obtain ⟨hid, rfl⟩ := hstep
    exact ⟨h.slots.register hplace hid,
      h.gathered.goto hplace rfl rfl (by simp) (by simp [RunPlace.Passed]) rfl (by simp),
      h.guarded.goto hplace rfl hholds (fun _ _ ↦ Iff.rfl) (by simp) (by simp) rfl rfl⟩
  | arrives =>
    rw [Context.proceed, Option.map_eq_some_iff] at hstep
    obtain ⟨barrier, hbarrier, rfl⟩ := hstep
    exact ⟨h.slots.goto hplace rfl rfl rfl rfl rfl, h.gathered.arrive hplace hbarrier,
      h.guarded.goto hplace rfl hholds (fun _ _ ↦ Iff.rfl) (by simp) (by simp) rfl rfl⟩
  | waits call =>
    rw [Context.proceed] at hstep
    split at hstep
    · rename_i last hreturned
      cases hstep
      exact h.goto .locks s.doneMutex hplace rfl rfl rfl (by simp)
        (fun _ ↦ Or.inr (h.gathered.leaves hreturned))
        hholds (fun _ _ ↦ Iff.rfl) (by simp) (by simp)
    · rw [Option.map_eq_some_iff] at hstep
      obtain ⟨barrier, hbarrier, rfl⟩ := hstep
      refine ⟨?_, h.gathered.wake hbarrier, ?_⟩
      · cases h.slots
        constructor <;> assumption
      · cases h.guarded
        constructor <;> assumption
  | locks =>
    rw [Context.proceed, Option.ite_none_right_eq_some, Option.some.injEq] at hstep
    obtain ⟨hfree, rfl⟩ := hstep
    refine h.goto .tests (some (.run i)) hplace rfl rfl rfl (by simp) (fun _ ↦ Or.inl rfl)
      (by simp [RunPlace.Holds]) (fun holder hne ↦ ?_) (by simp) (by simp)
    rw [hfree]
    simp [Ne.symm hne]
  | tests =>
    have hmine : s.doneMutex = some (.run i) := hholds.mp rfl
    rw [Context.proceed] at hstep
    split at hstep
    · rename_i hdone
      cases hstep
      exact h.goto .unlocks s.doneMutex hplace rfl rfl rfl (by simp) (fun _ ↦ Or.inl rfl)
        (by simp [RunPlace.Holds, hmine]) (fun _ _ ↦ Iff.rfl) (fun _ ↦ hdone) (by simp)
    · rename_i hdone
      cases hstep
      refine h.goto .asleep none hplace rfl rfl rfl (by simp) (fun _ ↦ Or.inl rfl)
        (by simp [RunPlace.Holds]) (fun holder hne ↦ ?_) (by simp) (fun _ ↦ by simpa using hdone)
      rw [hmine]
      simp [Ne.symm hne]
  | unlocks =>
    have hmine : s.doneMutex = some (.run i) := hholds.mp rfl
    rw [Context.proceed, Option.some.injEq] at hstep
    subst hstep
    refine h.goto .returned none hplace rfl rfl rfl (by simp) (fun _ ↦ Or.inl rfl)
      (by simp [RunPlace.Holds]) (fun holder hne ↦ ?_) (fun _ ↦ h.guarded.done i _ hplace (Or.inl rfl)) (by simp)
    rw [hmine]
    simp [Ne.symm hne]
  | asleep | returned => contradiction

theorem Inv.finish (h : Inv s) {place : TerminatePlace} (hplace : s.terminates[c]? = some place)
    (hstep : s.finish c place = some t) : Inv t := by
  have hholds := h.guarded.terminates c place hplace
  -- the calls of `run` are where they were, unless they are woken up
  have hkeep : ∀ {mutex done place'}, Guarded ({ s with doneMutex := mutex, done := done }.finishAt c
      place') → Inv ({ s with doneMutex := mutex, done := done }.finishAt c place') := by
    intro mutex done place' hguarded
    refine ⟨?_, ?_, hguarded⟩
    · cases h.slots
      constructor <;> assumption
    · cases h.gathered
      constructor <;> assumption
  cases place with
  | locks =>
    rw [Context.finish, Option.ite_none_right_eq_some, Option.some.injEq] at hstep
    obtain ⟨hfree, rfl⟩ := hstep
    refine hkeep (h.guarded.finishAt hplace (by simp [TerminatePlace.Holds]) (fun holder hne ↦ ?_)
      (by simp [TerminatePlace.Notifies]) (Or.inl rfl) rfl rfl)
    rw [hfree]
    simp [Ne.symm hne]
  | sets =>
    have hmine : s.doneMutex = some (.terminate c) := hholds.mp rfl
    rw [Context.finish, Option.some.injEq] at hstep
    subst hstep
    exact hkeep (h.guarded.finishAt hplace (by simp [TerminatePlace.Holds, hmine])
      (fun _ _ ↦ Iff.rfl) (by simp [TerminatePlace.Notifies]) (Or.inr ⟨rfl, rfl⟩) rfl rfl)
  | unlocks =>
    have hmine : s.doneMutex = some (.terminate c) := hholds.mp rfl
    rw [Context.finish, Option.some.injEq] at hstep
    subst hstep
    refine hkeep (h.guarded.finishAt hplace (by simp [TerminatePlace.Holds]) (fun holder hne ↦ ?_)
      (by simp [TerminatePlace.Notifies]) (Or.inl rfl) rfl rfl)
    rw [hmine]
    simp [Ne.symm hne]
  | notifiesAll =>
    rw [Context.finish, Option.some.injEq] at hstep
    subst hstep
    refine ⟨?_, ?_, h.guarded.notifyAll hplace⟩
    · cases h.slots.wakeUp
      constructor <;> assumption
    · cases h.gathered.wakeUp
      constructor <;> assumption
  | returned => contradiction

theorem Inv.step (h : Inv s) {action : Action} (hstep : s.step action = some t) : Inv t := by
  cases action with
  | run =>
    cases hstep
    exact ⟨h.slots.run, h.gathered.run, h.guarded.run⟩
  | proceed i =>
    obtain ⟨place, hplace, hstep⟩ := Option.bind_eq_some_iff.mp hstep
    exact h.proceed hplace hstep
  | wake i =>
    rw [Context.step, Option.ite_none_right_eq_some, Option.some.injEq] at hstep
    obtain ⟨hplace, rfl⟩ := hstep
    have hholds := h.guarded.runs i _ hplace
    exact h.goto .locks s.doneMutex hplace rfl rfl rfl (by simp) (fun _ ↦ Or.inl rfl) hholds
      (fun _ _ ↦ Iff.rfl) (by simp) (by simp)
  | terminate =>
    cases hstep
    refine ⟨?_, ?_, h.guarded.terminate⟩
    · cases h.slots
      constructor <;> assumption
    · cases h.gathered
      constructor <;> assumption
  | finish c =>
    obtain ⟨place, hplace, hstep⟩ := Option.bind_eq_some_iff.mp hstep
    exact h.finish hplace hstep

/-! ## Where the calls end up -/

theorem Settled.proceed_ne (h : s.Settled) (hplace : s.runs[i]? = some place) {u : Context}
    (hruns : u.runs = s.runs) (hne : place' ≠ place) :
    s.proceed i place ≠ some (u.goto i place') := by
  intro hstep
  have heq : u.goto i place' = s := h.1 i _ (by rw [step, hplace]; exact hstep)
  have hlt := (List.getElem?_eq_some_iff.mp hplace).1
  have hset : (u.goto i place').runs = s.runs.set i place' := congrArg (·.set i place') hruns
  rw [heq] at hset
  rw [hset, List.getElem?_set_self hlt, Option.some.injEq] at hplace
  exact hne hplace

theorem Settled.finish_ne (h : s.Settled) {place place' : TerminatePlace}
    (hplace : s.terminates[c]? = some place) {u : Context} (hterminates : u.terminates = s.terminates)
    (hne : place' ≠ place) : s.finish c place ≠ some (u.finishAt c place') := by
  intro hstep
  have heq : u.finishAt c place' = s := h.2 c _ (by rw [step, hplace]; exact hstep)
  have hlt := (List.getElem?_eq_some_iff.mp hplace).1
  have hset : (u.finishAt c place').terminates = s.terminates.set c place' :=
    congrArg (·.set c place') hterminates
  rw [heq] at hset
  rw [hset, List.getElem?_set_self hlt, Option.some.injEq] at hplace
  exact hne hplace

/-- Whoever holds the mutex can go on. -/
theorem Settled.free (h : s.Settled) (hinv : Guarded s) : s.doneMutex = none := by
  cases hmutex : s.doneMutex with
  | none => rfl
  | some holder =>
    cases holder with
    | run i =>
      obtain ⟨place, hplace⟩ : ∃ place, s.runs[i]? = some place :=
        ⟨_, List.getElem?_eq_getElem (hinv.run_lt i hmutex)⟩
      have hholds := (hinv.runs i place hplace).mpr hmutex
      cases place with
      | tests =>
        cases hdone : s.done with
        | true => exact absurd (if_pos hdone) (h.proceed_ne hplace rfl (by simp))
        | false =>
          have hunlocked : ({ s with doneMutex := none } : Context).runs = s.runs := rfl
          refine absurd (if_neg ?_) (h.proceed_ne hplace hunlocked (by simp))
          rw [hdone]
          exact Bool.false_ne_true
      | unlocks => exact absurd rfl (h.proceed_ne hplace rfl (by simp))
      | _ => contradiction
    | terminate c =>
      obtain ⟨place, hplace⟩ : ∃ place, s.terminates[c]? = some place :=
        ⟨_, List.getElem?_eq_getElem (hinv.terminate_lt c hmutex)⟩
      have hholds := (hinv.terminates c place hplace).mpr hmutex
      cases place with
      | sets => exact absurd rfl (h.finish_ne hplace rfl (by simp))
      | unlocks => exact absurd rfl (h.finish_ne hplace rfl (by simp))
      | _ => contradiction

theorem Settled.terminated (h : s.Settled) (hinv : Guarded s) {place : TerminatePlace}
    (hmem : place ∈ s.terminates) : place = .returned := by
  obtain ⟨c, hplace⟩ := List.mem_iff_getElem?.mp hmem
  cases place with
  | returned => rfl
  | locks => exact absurd (if_pos (h.free hinv)) (h.finish_ne hplace rfl (by simp))
  | sets => exact absurd rfl (h.finish_ne hplace rfl (by simp))
  | unlocks => exact absurd rfl (h.finish_ne hplace rfl (by simp))
  | notifiesAll =>
    have hwoken := h.2 c _ (by rw [step, hplace]; rfl)
    have hlt := (List.getElem?_eq_some_iff.mp hplace).1
    rw [← hwoken, List.getElem?_set_self hlt, Option.some.injEq] at hplace
    contradiction

theorem Slots.next_le (h : Slots s) : s.nextStrategyIndex ≤ s.runs.length := by
  rw [h.next]
  exact List.countP_le_length

/-- With a slot for each call, all of them get to the barrier. -/
theorem Settled.arrived (h : s.Settled) (hinv : Inv s)
    (hlength : s.runs.length = s.strategies.length) (hplace : s.runs[i]? = some place) :
    place.Arrived = true := by
  cases place with
  | constructs =>
    have hnext := h.1 i _ (by rw [step, hplace]; rfl)
    have := congrArg nextStrategyIndex hnext
    simp at this
  | registers id =>
    have hid : id < s.strategies.length := by
      rw [← hlength]
      exact Nat.lt_of_lt_of_le (hinv.slots.registers_lt i id hplace) hinv.slots.next_le
    have hruns : ({ s with strategies := s.strategies.set id (some i) } : Context).runs =
      s.runs := rfl
    exact absurd (if_pos hid) (h.proceed_ne hplace hruns (by simp))
  | arrives =>
    obtain ⟨barrier, hbarrier⟩ : ∃ barrier, s.barrier.step .arrive = some barrier := ⟨_, rfl⟩
    have hruns : ({ s with barrier := barrier } : Context).runs = s.runs := rfl
    refine absurd ?_ (h.proceed_ne hplace hruns
      (fun heq : RunPlace.waits s.barrier.calls.length = .arrives ↦ by contradiction))
    rw [proceed, hbarrier]
    rfl
  | _ => rfl

/-- All have arrived, and nobody stays in the barrier. -/
theorem Settled.passed (h : s.Settled) (hinv : Inv s)
    (hlength : s.runs.length = s.strategies.length) (hplace : s.runs[i]? = some place) :
    place.Passed = true := by
  have harrived := h.arrived hinv hlength hplace
  have hcalls : s.barrier.calls.length = s.strategies.length := by
    rw [hinv.gathered.arrived, ← hlength, List.countP_eq_length]
    intro q hq
    obtain ⟨j, hj⟩ := List.mem_iff_getElem?.mp hq
    exact h.arrived hinv hlength hj
  cases place with
  | waits call =>
    have hlt := hinv.gathered.waits i call hplace
    have hpos := hinv.gathered.pos
    obtain ⟨c, hc⟩ : ∃ c, s.barrier.calls[call]? = some c := ⟨_, List.getElem?_eq_getElem hlt⟩
    cases c with
    | returned last =>
      refine absurd ?_ (h.proceed_ne hplace rfl
        (fun heq : RunPlace.locks = .waits call ↦ by contradiction))
      rw [proceed, hc]
    | sleeping gen =>
      have hthreshold := hinv.gathered.threshold
      have hsound := hinv.gathered.barrier.sound (by rw [hthreshold]; exact hpos) (by
        rw [hthreshold, hcalls, Nat.div_self hpos]
        decide)
      obtain ⟨barrier, hbarrier, hreturned⟩ := hsound.leaves call gen hc (by
        rw [BasicBarrier.Waiting.Complete, hthreshold, Nat.div_eq_of_lt (hcalls ▸ hlt)]
        omega)
      have hwoken : s.step (.proceed i) = some { s with barrier := barrier } := by
        rw [step, hplace, Option.bind_some, proceed, hc]
        exact Option.map_eq_some_iff.mpr ⟨barrier, hbarrier, rfl⟩
      have hsame := congrArg Context.barrier (h.1 i _ hwoken)
      rw [show barrier = s.barrier from hsame, hc, Option.some.injEq] at hreturned
      contradiction
  | constructs | registers _ | arrives => contradiction
  | _ => rfl

theorem Settled.ends (h : s.Settled) (hinv : Inv s)
    (hlength : s.runs.length = s.strategies.length) (hmem : place ∈ s.runs) :
    place = if s.done then .returned else .asleep := by
  obtain ⟨i, hplace⟩ := List.mem_iff_getElem?.mp hmem
  have hpassed := h.passed hinv hlength hplace
  have hfree := h.free hinv.guarded
  have hholds := hinv.guarded.runs i place hplace
  rw [hfree] at hholds
  cases place with
  | locks => exact absurd (if_pos hfree) (h.proceed_ne hplace rfl (by simp))
  | asleep =>
    cases hdone : s.done with
    | true =>
      obtain ⟨c, q, hq, hnotifies⟩ := hinv.guarded.told i hplace hdone
      rw [h.terminated hinv.guarded (List.mem_of_getElem? hq)] at hnotifies
      contradiction
    | false => rfl
  | returned => rw [hinv.guarded.done i _ hplace (Or.inr rfl), if_pos rfl]
  | tests | unlocks => simp [RunPlace.Holds] at hholds
  | constructs | registers _ | arrives | waits _ => contradiction

theorem Inv.sound (h : Inv s) : Sound s where
  inBounds i id hplace := Nat.lt_of_lt_of_le (h.slots.registers_lt i id hplace) h.slots.next_le
  alone i id hplace j :=
    ⟨h.slots.registers_slot i id j hplace, fun hj ↦ h.slots.registers_inj j i id hj hplace⟩
  registered i place hplace hregistered := by
    obtain ⟨id, hid⟩ := h.slots.registered i place hplace hregistered
    exact ⟨id, hid, fun id' hid' ↦ h.slots.slot_inj id' id i hid' hid⟩
  ready place hmem hpassed := by
    obtain ⟨i, hplace⟩ := List.mem_iff_getElem?.mp hmem
    -- as many strategies are registered as have arrived
    have harrived := h.gathered.passed i place hplace hpassed
    have hmono : s.runs.countP RunPlace.Arrived ≤ s.runs.countP RunPlace.Registered :=
      List.countP_mono_left fun place _ _ ↦ by cases place <;> first | rfl | contradiction
    rw [h.gathered.arrived] at harrived
    rw [← List.countP_eq_length, h.slots.count]
    refine Nat.le_antisymm ?_ (Nat.le_trans harrived hmono)
    rw [← h.slots.count]
    exact List.countP_le_length
  lasts hmem := by
    obtain ⟨i, hplace⟩ := List.mem_iff_getElem?.mp hmem
    exact h.guarded.done i _ hplace (Or.inr rfl)
  awake hmem hdone := by
    obtain ⟨i, hplace⟩ := List.mem_iff_getElem?.mp hmem
    obtain ⟨c, place, hc, hnotifies⟩ := h.guarded.told i hplace hdone
    exact ⟨place, List.mem_of_getElem? hc, hnotifies⟩
  ends hsettled hlength place hmem := hsettled.ends h hlength hmem

theorem strategies_step {action : Action} (hstep : s.step action = some t) :
    t.strategies.length = s.strategies.length := by
  cases action with
  | run | terminate =>
    cases hstep
    rfl
  | proceed i =>
    obtain ⟨place, -, hstep⟩ := Option.bind_eq_some_iff.mp hstep
    cases place with
    | registers id =>
      rw [Context.proceed, Option.ite_none_right_eq_some, Option.some.injEq] at hstep
      rw [← hstep.2, List.length_set]
    | arrives =>
      rw [Context.proceed, Option.map_eq_some_iff] at hstep
      obtain ⟨barrier, -, rfl⟩ := hstep
      rfl
    | waits call =>
      rw [Context.proceed] at hstep
      split at hstep
      · cases hstep
        rfl
      · obtain ⟨barrier, -, rfl⟩ := Option.map_eq_some_iff.mp hstep
        rfl
    | _ => grind [Context.proceed]
  | wake i => grind [Context.step]
  | finish c =>
    obtain ⟨place, -, hstep⟩ := Option.bind_eq_some_iff.mp hstep
    cases place <;> grind [Context.finish]

/-- In every run of a context with at least one slot, whatever the order of the steps. -/
theorem orderly_of_run {threadNum : UInt64} (h : 1 ≤ threadNum.toNat) {actions : List Action}
    (hrun : run step (create threadNum) actions = some s) :
    s.strategies.length = threadNum.toNat ∧ Sound s := by
  have hinv : s.strategies.length = threadNum.toNat ∧ Inv s := by
    apply invariant_of_run (fun s ↦ s.strategies.length = threadNum.toNat ∧ Inv s) _ _ hrun
    · intro s action t ⟨hlength, hs⟩ hstep
      exact ⟨(strategies_step hstep).trans hlength, hs.step hstep⟩
    · exact ⟨by simp [create], slots_create threadNum, gathered_create h, guarded_create threadNum⟩
  exact ⟨hinv.1, hinv.2.sound⟩

/-- Two threads run the context: the first one waits for the second at the barrier and is asleep when
the context is terminated, the second one has not looked at `_done` yet. -/
def runTwice : List Action :=
  [.run, .proceed 0, .proceed 0, .proceed 0, .proceed 0, .run, .proceed 1, .proceed 1, .proceed 1,
    .proceed 0, .proceed 0, .proceed 0, .proceed 0, .terminate, .finish 0, .finish 0, .finish 0,
    .proceed 1, .finish 0, .proceed 0, .proceed 0, .proceed 0, .proceed 1, .proceed 1, .proceed 1]

theorem orderly_of_run_runTwice : ∃ s, run step (create 2) runTwice = some s ∧
    s.runs = [.returned, .returned] ∧ s.strategies = [some 0, some 1] ∧ Sound s :=
  ⟨_, rfl, rfl, rfl, (orderly_of_run (by decide) (rfl : run step (create 2) runTwice = some _)).2⟩

end Context

end Ustevent.Lifecycle
