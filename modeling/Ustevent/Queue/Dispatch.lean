import Ustevent.Queue.Decode

/-!
# Dispatch from inside and from outside of a Context

A thread of the Context starts the fiber itself.  Any other thread pushes a record, and a worker
that pops it starts the fiber.  Both set up the stack and the description of a `Fiber`.
-/

namespace Ustevent.Dispatch

open Reasoning ContextTaskQueue

/-- `boost::fibers::launch` -/
inductive Launch
  | post
  | dispatch
deriving DecidableEq

/-- The stack allocator that `Fiber::start` hands to Boost. -/
inductive Stack
  | protectedFixedsize (size : Nat)
  | default
deriving DecidableEq

/-- `defaultSize` is the size of the stacks of `default_stack`. -/
def Stack.size (defaultSize : Nat) : Stack → Nat
  | .protectedFixedsize size => size
  | .default => defaultSize

/-- A `Fiber` that has yet to be started. -/
structure Fiber where
  policy : Launch
  stackSize : Nat
  description : List UInt8

/-- What `start` makes the fiber with. -/
structure Started where
  policy : Launch
  stack : Stack
  description : List UInt8
deriving DecidableEq

namespace Fiber

def create : Fiber where
  policy := .post
  stackSize := 0
  description := []

def setPolicy (f : Fiber) (policy : Launch) : Fiber := { f with policy := policy }

def setStackSize (f : Fiber) (stackSize : Nat) : Fiber := { f with stackSize := stackSize }

def setDescription (f : Fiber) (description : List UInt8) : Fiber :=
  if description.isEmpty then f else { f with description := description }

def start (f : Fiber) : Started where
  policy := f.policy
  stack := if f.stackSize > 0 then .protectedFixedsize f.stackSize else .default
  description := f.description

end Fiber

inductive DebugFlag
  | on
  | off
deriving DecidableEq

/-- The members of a Context that `dispatch` reads. -/
structure Settings where
  stackSizeInContext : Nat
  debugFlag : DebugFlag
deriving DecidableEq

namespace Settings

def create (debugFlag : DebugFlag) : Settings where
  stackSizeInContext := 1024 * 1024
  debugFlag := debugFlag

def setStackSize (c : Settings) (stackSize : Nat) : Settings :=
  { c with stackSizeInContext := stackSize }

/-- The arguments of the push in `_postTaskFromRemote`. -/
def postTaskFromRemote (c : Settings) (task : Task) : Task :=
  match c.debugFlag with
  | .off => { task with
      description := []
      lt := Nat.lt_of_le_of_lt (Nat.add_le_add_left (Nat.zero_le _) _) task.lt }
  | .on => task

/-- The branch of `dispatch` for a thread of the Context. -/
def startTask (c : Settings) (task : Task) : Started :=
  let f := Fiber.create.setPolicy .dispatch
  let f := f.setStackSize (if task.stackSize ≠ 0 then task.stackSize else c.stackSizeInContext)
  let f := if c.debugFlag = .on then f.setDescription task.description else f
  f.start

/-- What a call of `dispatch` does at once: it starts a fiber or pushes a record. -/
def dispatch (c : Settings) (isRunningInThis : Bool) (task : Task) : Started ⊕ Task :=
  if isRunningInThis then .inl (c.startTask task) else .inr (c.postTaskFromRemote task)

end Settings

/-- `_launchPostedTask` for what pop has returned. -/
def launchPostedTask (popped : Popped) : Started :=
  ((Fiber.create.setStackSize popped.stackSize).setDescription popped.description).start

/-- The fibers have stacks of the same size, and the same descriptions. -/
structure Same (defaultSize : Nat) (a b : Started) : Prop where
  stack : a.stack.size defaultSize = b.stack.size defaultSize
  description : a.description = b.description

variable {n capacity base number defaultSize : Nat} {c : Settings} {task : Task}
  {records : List (Nat × Task)} {q : ContextTaskQueue n}

theorem Fiber.size_start (f : Fiber) : f.start.stack.size defaultSize =
    if f.stackSize > 0 then f.stackSize else defaultSize := by
  unfold start
  split <;> rfl

@[simp] theorem Fiber.stackSize_setDescription (f : Fiber) (description : List UInt8) :
    (f.setDescription description).stackSize = f.stackSize := by
  unfold setDescription
  split <;> rfl

/-- Of a fiber without a description. -/
theorem Fiber.description_setDescription {f : Fiber} (h : f.description = [])
    (description : List UInt8) : (f.setDescription description).description = description := by
  cases description with
  | nil => exact h
  | cons _ _ => rfl

/-! ## The two ways -/

theorem Settings.size_startTask : (c.startTask task).stack.size defaultSize =
    if task.stackSize > 0 then task.stackSize
    else if c.stackSizeInContext > 0 then c.stackSizeInContext else defaultSize := by
  rw [startTask, Fiber.size_start]
  have hstack : ∀ f : Fiber,
      (if c.debugFlag = .on then f.setDescription task.description else f).stackSize =
        f.stackSize := by
    intro f
    split
    · exact Fiber.stackSize_setDescription f task.description
    · rfl
  rw [hstack, Fiber.setStackSize]
  by_cases hzero : task.stackSize = 0
  · simp [hzero]
  · simp [hzero, Nat.pos_of_ne_zero hzero]

theorem Settings.description_startTask :
    (c.startTask task).description = (c.postTaskFromRemote task).description := by
  unfold startTask postTaskFromRemote
  cases c.debugFlag with
  | on => exact Fiber.description_setDescription rfl task.description
  | off => rfl

theorem Settings.stackSize_postTaskFromRemote :
    (c.postTaskFromRemote task).stackSize = task.stackSize := by
  unfold postTaskFromRemote
  cases c.debugFlag <;> rfl

theorem Settings.operationLength_postTaskFromRemote :
    (c.postTaskFromRemote task).operationLength = task.operationLength := by
  unfold postTaskFromRemote
  cases c.debugFlag <;> rfl

theorem size_launchPostedTask (popped : Popped) :
    (launchPostedTask popped).stack.size defaultSize =
      if popped.stackSize > 0 then popped.stackSize else defaultSize := by
  rw [launchPostedTask, Fiber.size_start, Fiber.stackSize_setDescription]
  rfl

theorem description_launchPostedTask (popped : Popped) :
    (launchPostedTask popped).description = popped.description :=
  Fiber.description_setDescription rfl popped.description

/-- A request for the default of the Context is one for the default of Boost to the thread that pops
the record. -/
theorem same_iff_of_popped {popped : Popped} (hstackSize : popped.stackSize = task.stackSize)
    (hdescription : popped.description = (c.postTaskFromRemote task).description) :
    Same defaultSize (launchPostedTask popped) (c.startTask task) ↔
      task.stackSize ≠ 0 ∨ c.stackSizeInContext = 0 ∨ c.stackSizeInContext = defaultSize := by
  have hsame : Same defaultSize (launchPostedTask popped) (c.startTask task) ↔
      (launchPostedTask popped).stack.size defaultSize =
        (c.startTask task).stack.size defaultSize := by
    refine ⟨Same.stack, fun h ↦ ⟨h, ?_⟩⟩
    rw [description_launchPostedTask, hdescription, Settings.description_startTask]
  rw [hsame, size_launchPostedTask, Settings.size_startTask, hstackSize]
  split
  case isTrue hpos => simp [Nat.ne_of_gt hpos]
  case isFalse hzero =>
    split
    case isTrue hpos => omega
    case isFalse hdefault => simp [Nat.eq_zero_of_not_pos hdefault]

/-- The record of a task without a zero byte in its description is popped, and the fiber started for
it is the same as that started by a thread of the Context, if and only if the task asks for a stack
size or the default of the Context is that of Boost. -/
theorem same_iff (hoperation : task.operationLength < 2 ^ 32) (hstack : task.stackSize < 2 ^ 32)
    (hzero : 0 ∉ task.description)
    (hreads : Reads capacity q base ((number, c.postTaskFromRemote task) :: records))
    (hfits : base + length ((number, c.postTaskFromRemote task) :: records) ≤ capacity) :
    c.dispatch true task = .inl (c.startTask task) ∧
    c.dispatch false task = .inr (c.postTaskFromRemote task) ∧
    ∃ popped q', pop capacity q = .ok (some popped, q') ∧
      (Same defaultSize (launchPostedTask popped) (c.startTask task) ↔
        task.stackSize ≠ 0 ∨ c.stackSizeInContext = 0 ∨ c.stackSizeInContext = defaultSize) := by
  have hposted : (c.postTaskFromRemote task).stackSize < 2 ^ 32 := by
    rwa [Settings.stackSize_postTaskFromRemote]
  have hnonzero : 0 ∉ (c.postTaskFromRemote task).description := by
    unfold Settings.postTaskFromRemote
    cases c.debugFlag with
    | on => exact hzero
    | off => exact List.not_mem_nil
  have hposted' : (c.postTaskFromRemote task).operationLength < 2 ^ 32 := by
    rwa [Settings.operationLength_postTaskFromRemote]
  obtain ⟨q', hpop, -⟩ := hreads.pop_eq hposted' hposted hfits
  refine ⟨rfl, rfl, _, q', hpop, same_iff_of_popped ?_ ?_⟩
  · exact Settings.stackSize_postTaskFromRemote
  · exact (Task.text_eq_iff _).mpr hnonzero

theorem same_iff_plain : ∃ (s : Context 1 1) (popped : Popped) (q' : ContextTaskQueue 1),
    run (Context.step 64) (Context.initial 1 1)
      (onePush 0 ((Settings.create .on).postTaskFromRemote plain)) = some s ∧
    pop 64 s.queue = .ok (some popped, q') ∧
    Same 131072 (launchPostedTask popped) ((Settings.create .on).startTask plain) := by
  obtain ⟨s, hrun, hreads⟩ := reads_onePush (Or.inl rfl)
  obtain ⟨-, -, popped, q', hpop, hiff⟩ := same_iff (c := Settings.create .on)
    (by decide) (by decide) (by decide) hreads (by decide)
  exact ⟨s, popped, q', hrun, hpop, hiff.mpr (Or.inl (by decide))⟩

/-- No stack size and the description "ab". -/
def defaulted : Task := ⟨3, 0, [97, 98], by decide, by decide⟩

/-- A stack of 1 MiB from inside of a new Context, and one of another size from outside. -/
theorem not_same_defaulted : ∃ (s : Context 1 1) (popped : Popped) (q' : ContextTaskQueue 1),
    run (Context.step 64) (Context.initial 1 1)
      (onePush 0 ((Settings.create .on).postTaskFromRemote defaulted)) = some s ∧
    pop 64 s.queue = .ok (some popped, q') ∧
    ((Settings.create .on).startTask defaulted).stack = .protectedFixedsize 1048576 ∧
    (launchPostedTask popped).stack = .default ∧
    ∀ defaultSize, defaultSize ≠ 1048576 →
      ¬ Same defaultSize (launchPostedTask popped) ((Settings.create .on).startTask defaulted) :=
  ⟨_, _, _, rfl, rfl, rfl, rfl, fun _ hne h ↦ hne h.stack⟩

end Ustevent.Dispatch
