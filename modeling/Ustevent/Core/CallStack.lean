import Ustevent.Reasoning.Links
import Ustevent.Reasoning.Runs

/-!
# The call stacks of threads and fibers

`CallStack<Key>::Context` is an object with automatic lifetime.  Its constructor makes it the top of
a list that `contain` walks through.  There is no destructor, so the top and the links go on
pointing to objects that are gone.
-/

namespace Ustevent.CallStack

open Reasoning

abbrev Address := Nat

/-- The members of a living `Context`. -/
structure Context (κ : Type*) where
  next : Option Address
  key : κ
  value : Address
deriving DecidableEq

/-- What `_s_top` is made of: how it is read and set. -/
structure Top (τ : Type*) where
  initial : τ
  get : τ → Option Address
  set : Address → τ
  get_initial : get initial = none
  get_set : ∀ a, get (set a) = some a

/-- `thread::CallStack` has a `thread_local` pointer. -/
def thread : Top (Option Address) where
  initial := none
  get top := top
  set a := some a
  get_initial := rfl
  get_set _ := rfl

/-- `fiber::CallStack` has a `FiberLocal`, a pointer to such a pointer, which is null at first. -/
def fiber : Top (Option (Option Address)) where
  initial := none
  get top :=
    match top with
    | some previousTop => previousTop
    | none => none
  set a := some (some a)
  get_initial := rfl
  get_set _ := rfl

variable {κ τ : Type*}

/-- The stack of one thread or fiber.  `memory` is the living objects, and `scopes` their addresses
from the innermost one on. -/
structure Scopes (κ τ : Type*) where
  top : τ
  memory : Address → Option (Context κ)
  scopes : List Address

/-- What a call of `contain` comes to. -/
inductive Outcome
  | returned (value : Option Address)
  /-- it reads a member of an object that is gone -/
  | dead
deriving DecidableEq

/-- The loop of `contain`, if it is left after `fuel` turns. -/
def search [DecidableEq κ] (memory : Address → Option (Context κ)) (key : κ) :
    Nat → Option Address → Option Outcome
  | 0, _ => none
  | _ + 1, none => some (.returned none)
  | fuel + 1, some a =>
    match memory a with
    | none => some .dead
    | some context =>
      if context.key = key then some (.returned (some context.value))
      else search memory key fuel context.next

/-- The constructor with one argument takes the object itself for the value. -/
inductive Action (κ : Type*)
  | construct (a : Address) (key : κ) (value : Option Address)
  /-- the innermost scope is left -/
  | destroy
deriving DecidableEq

namespace Scopes

def initial (top : Top τ) : Scopes κ τ where
  top := top.initial
  memory _ := none
  scopes := []

def contain [DecidableEq κ] (top : Top τ) (s : Scopes κ τ) (key : κ) (fuel : Nat) :
    Option Outcome :=
  search s.memory key fuel (top.get s.top)

/-- A new object does not lie where a living one does. -/
def step (top : Top τ) (s : Scopes κ τ) : Action κ → Option (Scopes κ τ)
  | .construct a key value =>
    match s.memory a with
    | some _ => none
    | none =>
      some {
        top := top.set a
        memory := fun b ↦ if b = a then some ⟨top.get s.top, key, value.getD a⟩ else s.memory b
        scopes := a :: s.scopes }
  | .destroy =>
    match s.scopes with
    | [] => none
    | a :: scopes =>
      some { s with
        memory := fun b ↦ if b = a then none else s.memory b
        scopes := scopes }

/-- The value of the innermost living context of the key. -/
def innermost [DecidableEq κ] (s : Scopes κ τ) (key : κ) : Option Address :=
  ((s.scopes.filterMap s.memory).find? (·.key = key)).map Context.value

/-- What `contain` is for. -/
def Sound [DecidableEq κ] (top : Top τ) (s : Scopes κ τ) : Prop :=
  ∀ key, ∃ fuel, s.contain top key fuel = some (.returned (s.innermost key))

/-- `Context::isRunningInThis`, if the loop of `contain` is left after `fuel` turns: `contain` is
asked for the context whose `run` has put it on the stack. -/
def isRunningInThis [DecidableEq κ] (s : Scopes κ (Option Address)) (context : κ) (fuel : Nat) :
    Option Bool :=
  match s.contain thread context fuel with
  | some (.returned value) => some value.isSome
  | _ => none

/-! ## The links of the living objects -/

/-- The link of a living object. -/
def link (s : Scopes κ τ) (a : Address) : Option Address := (s.memory a).bind Context.next

structure Inv (top : Top τ) (s : Scopes κ τ) : Prop where
  path : Path s.link (top.get s.top) s.scopes
  living : ∀ a ∈ s.scopes, ∃ context, s.memory a = some context

variable {top : Top τ} {s s' : Scopes κ τ}

theorem inv_initial (top : Top τ) : Inv top (initial top : Scopes κ τ) :=
  ⟨top.get_initial, fun _ h ↦ absurd h List.not_mem_nil⟩

theorem Inv.construct (h : Inv top s) {a : Address} (ha : s.memory a = none) (key : κ)
    (value : Address) : Inv top (⟨top.set a, fun b ↦ if b = a then
      some ⟨top.get s.top, key, value⟩ else s.memory b, a :: s.scopes⟩ : Scopes κ τ) := by
  have hne : ∀ b ∈ s.scopes, b ≠ a := by
    rintro b hb rfl
    obtain ⟨context, hcontext⟩ := h.living b hb
    rw [ha] at hcontext
    contradiction
  constructor
  · refine ⟨top.get_set a, ?_⟩
    rw [link]
    simp only [if_true, Option.bind_some]
    refine h.path.congr fun b hb ↦ ?_
    simp only [link, if_neg (hne b hb)]
  · intro b hb
    rcases List.mem_cons.mp hb with rfl | hb
    · exact ⟨_, if_pos rfl⟩
    · obtain ⟨context, hcontext⟩ := h.living b hb
      exact ⟨context, (if_neg (hne b hb)).trans hcontext⟩

variable [DecidableEq κ]

theorem search_of_path {start : Option Address} {l : List Address} (key : κ)
    (hpath : Path s.link start l) (hliving : ∀ a ∈ l, ∃ context, s.memory a = some context) :
    search s.memory key (l.length + 1) start =
      some (.returned (((l.filterMap s.memory).find? (·.key = key)).map Context.value)) := by
  induction l generalizing start with
  | nil =>
    rw [show start = none from hpath]
    rfl
  | cons a l ih =>
    obtain ⟨rfl, hpath⟩ := hpath
    obtain ⟨context, hcontext⟩ := hliving a List.mem_cons_self
    rw [link, hcontext, Option.bind_some] at hpath
    have hrest := ih hpath fun b hb ↦ hliving b (List.mem_cons_of_mem a hb)
    rw [List.length_cons, search, hcontext]
    simp only [List.filterMap_cons, hcontext, List.find?_cons]
    by_cases hkey : context.key = key
    · simp [hkey]
    · simpa [hkey] using hrest

theorem Inv.sound (h : Inv top s) : Sound top s := fun key ↦
  ⟨_, search_of_path key h.path h.living⟩

/-- A thread is running in a context as long as one of the context's objects lives on its stack. -/
theorem Sound.isRunningInThis {s : Scopes κ (Option Address)} (h : Sound thread s) (context : κ) :
    ∃ fuel, s.isRunningInThis context fuel =
      some ((s.scopes.filterMap s.memory).any (·.key = context)) := by
  obtain ⟨fuel, hfuel⟩ := h context
  refine ⟨fuel, ?_⟩
  have hvalue : (s.innermost context).isSome =
      (s.scopes.filterMap s.memory).any (·.key = context) := by
    rw [innermost, Option.isSome_map, Bool.eq_iff_iff, List.find?_isSome, List.any_eq_true]
  simp only [Scopes.isRunningInThis, hfuel, hvalue]

/-- The top still points to the object. -/
theorem Inv.not_sound_destroy (h : Inv top s) {a : Address} {scopes : List Address}
    (hscopes : s.scopes = a :: scopes) :
    ¬ Sound top { s with
      memory := fun b ↦ if b = a then none else s.memory b
      scopes := scopes } := by
  intro hsound
  obtain ⟨context, -⟩ := h.living a (by rw [hscopes]; exact List.mem_cons_self)
  obtain ⟨fuel, hfuel⟩ := hsound context.key
  have hpath := h.path
  rw [hscopes] at hpath
  rw [contain, hpath.1] at hfuel
  cases fuel with
  | zero => contradiction
  | succ fuel => simp [search] at hfuel

theorem Inv.step (h : Inv top s) {a : Action κ} (hstep : s.step top a = some s') :
    (Sound top s' ↔ a ≠ .destroy) ∧ (Sound top s' → Inv top s') := by
  cases a with
  | construct a key value =>
    rw [Scopes.step] at hstep
    split at hstep
    · contradiction
    · rename_i ha
      cases hstep
      have hinv := h.construct ha key (value.getD a)
      exact ⟨iff_of_true hinv.sound (by simp), fun _ ↦ hinv⟩
  | destroy =>
    rw [Scopes.step] at hstep
    split at hstep
    · contradiction
    · rename_i a scopes hscopes
      cases hstep
      have hnot := h.not_sound_destroy hscopes
      exact ⟨iff_of_false hnot (by simp), fun hsound ↦ absurd hsound hnot⟩

/-! ## Runs -/

/-- `contain` finds the innermost living context of each key in every state of a run, if and only if
no context is destroyed in it. -/
theorem always_sound_iff_keeps {as : List (Action κ)}
    (hrun : run (step top) (initial top) as = some s) :
    Always (step top) (Sound top) (initial top) as ↔ ∀ a ∈ as, a ≠ .destroy := by
  rw [always_iff_meets_of_run (Inv top) (Sound top) (fun _ _ _ hinv _ hstep ↦ hinv.step hstep)
    (inv_initial top) (inv_initial top).sound hrun]
  exact meets_iff_forall_of_run hrun

/-- Two keys, one of them twice. -/
def nested : List (Action Nat) :=
  [.construct 64 0 none, .construct 32 1 (some 8), .construct 16 0 none]

theorem always_sound_iff_keeps_nested : ∃ s t,
    run (step thread) (initial thread) nested = some s ∧
      run (step fiber) (initial fiber) nested = some t ∧
      (Always (step thread) (Sound thread) (initial thread) nested ↔ ∀ a ∈ nested, a ≠ .destroy) ∧
      (Always (step fiber) (Sound fiber) (initial fiber) nested ↔ ∀ a ∈ nested, a ≠ .destroy) :=
  ⟨_, _, rfl, rfl,
    always_sound_iff_keeps (rfl : run (step thread) (initial thread) nested = some _),
    always_sound_iff_keeps (rfl : run (step fiber) (initial fiber) nested = some _)⟩

/-- `Context::run` of the context 7 has returned. -/
def runReturned : List (Action Nat) := [.construct 64 7 none, .destroy]

/-- Whatever key is asked for, the object that `run` has left behind is read. -/
theorem not_sound_runReturned : ∃ s t,
    run (step thread) (initial thread) runReturned = some s ∧
      run (step fiber) (initial fiber) runReturned = some t ∧
      (∀ key, s.contain thread key 1 = some .dead ∧ t.contain fiber key 1 = some .dead) ∧
      (∀ fuel, s.isRunningInThis 7 fuel ≠ some false) ∧ ¬ Sound thread s ∧ ¬ Sound fiber t := by
  refine ⟨_, _, rfl, rfl, fun _ ↦ ⟨rfl, rfl⟩, fun fuel h ↦ ?_, fun h ↦ ?_, fun h ↦ ?_⟩
  · cases fuel <;> cases h
  · obtain ⟨fuel, hfuel⟩ := h 7
    cases fuel <;> cases hfuel
  · obtain ⟨fuel, hfuel⟩ := h 7
    cases fuel <;> cases hfuel

end Scopes

end Ustevent.CallStack
