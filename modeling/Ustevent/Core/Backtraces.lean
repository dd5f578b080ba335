import Ustevent.Core.WaitingLists
import Ustevent.Reasoning.Runs

/-!
# The waiting fibers of one strategy

Of the lists of the waiting fibers, the one of a single strategy, whatever its fibers do.
-/

namespace Ustevent.ContextStrategy

open Reasoning WaitingFibers

inductive Action
  | record (f : Nat)
  | erase (f : Nat)
  | terminate (f : Nat)
deriving DecidableEq

def WaitingFibers.step (s : WaitingFibers Unit) : Action → Option (WaitingFibers Unit)
  | .record f => some (s.recordBacktrace () f)
  | .erase f => s.eraseBacktrace () f
  | .terminate f => some (s.setTerminated (.fiber f))

/-- What the list is for: the fibers that have been recorded and not yet erased. -/
structure Recorded where
  fibers : List Nat
  terminated : Nat → Bool

namespace Recorded

def initial : Recorded where
  fibers := []
  terminated _ := false

/-- A fiber is recorded only while it is not in the list. -/
def step (r : Recorded) : Action → Option Recorded
  | .record f =>
    if f ∈ r.fibers then none
    else some { r with fibers := if r.terminated f then r.fibers else r.fibers ++ [f] }
  | .erase f => some { r with fibers := r.fibers.erase f }
  | .terminate f => some { r with terminated := fun g ↦ if g = f then true else r.terminated g }

/-- The list with its head. -/
def nodes (r : Recorded) : List (Node Unit) := .head () :: r.fibers.map .fiber

end Recorded

/-- The links are those of the recorded fibers, and no call goes through a null pointer. -/
structure Sound (s : WaitingFibers Unit) (r : Recorded) : Prop where
  /-- following the links visits the fibers and ends -/
  visits : ∀ fuel, r.fibers.length ≤ fuel → s.debugInfos () fuel = some (r.fibers.map .fiber)
  inverse : ∀ a ∈ r.nodes, ∀ b ∈ r.nodes, s.next a = some b ↔ s.prev b = some a
  tail : r.nodes.getLast? = some (s.tail ())
  others : ∀ f ∉ r.fibers, s.next (.fiber f) = none ∧ s.prev (.fiber f) = none
  erases : ∀ f, (s.eraseBacktrace () f).isSome = true

structure Represents (s : WaitingFibers Unit) (r : Recorded) : Prop where
  linked : Linked s fun _ ↦ r.fibers
  terminated : ∀ f, (s.info (.fiber f)).terminated = r.terminated f

variable {s s' : WaitingFibers Unit} {r r' : Recorded} {f : Nat}

theorem represents_create : Represents create Recorded.initial := ⟨linked_create, fun _ ↦ rfl⟩

theorem Represents.record (h : Represents s r) (hf : f ∉ r.fibers) :
    Represents (s.recordBacktrace () f)
      { r with fibers := if r.terminated f then r.fibers else r.fibers ++ [f] } := by
  refine ⟨?_, fun g ↦ (terminated_recordBacktrace s () f _).trans (h.terminated g)⟩
  have hterminated := h.terminated f
  cases hr : r.terminated f with
  | true =>
    rw [recordBacktrace, hterminated, hr]
    exact h.linked
  | false => exact h.linked.record () (fun _ ↦ hf) (hterminated.trans hr)

theorem Represents.erase (h : Represents s r) (f : Nat) :
    ∃ s', s.eraseBacktrace () f = some s' ∧
      Represents s' { r with fibers := r.fibers.erase f } := by
  by_cases hf : f ∈ r.fibers
  · obtain ⟨s', hs', hlinked⟩ := h.linked.erase (i := ()) hf
    exact ⟨s', hs', hlinked, fun g ↦ (terminated_eraseBacktrace hs' _).trans (h.terminated g)⟩
  · rw [List.erase_of_not_mem hf]
    exact ⟨s, h.linked.eraseBacktrace_of_not_mem () fun _ ↦ hf, h⟩

/-! ## Runs -/

theorem Represents.step {a : Action} (h : Represents s r) (hstep : r.step a = some r') :
    ∃ s', s.step a = some s' ∧ Represents s' r' := by
  cases a with
  | record f =>
    rw [Recorded.step] at hstep
    split at hstep
    · contradiction
    · rename_i hf
      cases hstep
      exact ⟨_, rfl, h.record hf⟩
  | erase f =>
    cases hstep
    exact h.erase f
  | terminate f =>
    cases hstep
    refine ⟨_, rfl, h.linked.setTerminated _, fun g ↦ ?_⟩
    simp only [setTerminated, Node.fiber.injEq]
    by_cases hgf : g = f
    · rw [if_pos hgf, if_pos hgf]
    · rw [if_neg hgf, if_neg hgf, h.terminated g]

theorem Represents.sound (h : Represents s r) : Sound s r where
  visits _ hle := h.linked.debugInfos () hle
  inverse _ ha _ hb := (h.linked.apart.doubly ()).next_iff_prev ha hb
  tail := h.linked.tail ()
  others f hf := by
    refine h.linked.apart.others (.fiber f) fun _ hmem ↦ hf ?_
    rwa [mem_nodes] at hmem
  erases f := by
    obtain ⟨s', hs', -⟩ := h.erase f
    rw [hs']
    rfl

/-- Whatever fibers are recorded while they are not in the list, erased or terminated, in any order:
the links are those of the fibers that have been recorded and not yet erased. -/
theorem lists_of_run {as : List Action} (hrun : run Recorded.step Recorded.initial as = some r) :
    ∃ s, run WaitingFibers.step create as = some s ∧ Sound s r := by
  have hstep : ∀ s r a r', Represents s r → Recorded.step r a = some r' →
      ∃ s', WaitingFibers.step s a = some s' ∧ Represents s' r' :=
    fun _ _ _ _ h hstep ↦ h.step hstep
  obtain ⟨s, hs, h⟩ := simulates_of_run Represents hstep represents_create hrun
  exact ⟨s, hs, h.sound⟩

/-- A middle fiber is erased twice, then the last and the first one; a terminated one is skipped. -/
def fourFibers : List Action :=
  [.record 0, .record 1, .record 2, .record 3, .terminate 4, .record 4, .erase 1, .erase 1,
    .erase 3, .erase 0]

theorem lists_of_run_fourFibers : ∃ r s,
    run Recorded.step Recorded.initial fourFibers = some r ∧ r.fibers = [2] ∧
      run WaitingFibers.step create fourFibers = some s ∧ Sound s r := by
  obtain ⟨s, hs, hsound⟩ :=
    lists_of_run (rfl : run Recorded.step Recorded.initial fourFibers = some _)
  exact ⟨_, s, rfl, rfl, hs, hsound⟩

end Ustevent.ContextStrategy
