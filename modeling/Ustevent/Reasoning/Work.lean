import Ustevent.Reasoning.Runs
import Mathlib.Algebra.GroupWithZero.Nat
import Mathlib.Algebra.Order.BigOperators.Group.Finset

/-!
# The work of a run

Each step of a run has a weight.  A potential that pays for the weights bounds their sum by what the
actions of the run cost, in whatever order they are taken.
-/

namespace Reasoning

open Finset

variable {σ α ι : Type*}

/-- The sum of the weights of the steps of a run. -/
def work (step : σ → α → Option σ) (weight : σ → α → Nat) : σ → List α → Nat
  | _, [] => 0
  | s, a :: as =>
    weight s a +
      match step s a with
      | none => 0
      | some t => work step weight t as

/-- Where every step is paid for by the potential and the cost of the action, so is the run. -/
theorem work_le_of_run {step : σ → α → Option σ} {weight : σ → α → Nat} {potential : σ → Nat}
    {cost : α → Nat}
    (hstep : ∀ s a t, step s a = some t → weight s a + potential t ≤ potential s + cost a)
    {s t : σ} {as : List α} (hrun : run step s as = some t) :
    work step weight s as + potential t ≤ potential s + (as.map cost).sum := by
  induction as generalizing s with
  | nil =>
    rw [run_nil, Option.some.injEq] at hrun
    rw [work, List.map_nil, List.sum_nil, hrun, Nat.zero_add, Nat.add_zero]
  | cons a as ih =>
    rw [run_cons, Option.bind_eq_some_iff] at hrun
    obtain ⟨u, hu, hrest⟩ := hrun
    have hpays := hstep s a u hu
    have hrest := ih hrest
    rw [work, hu, List.map_cons, List.sum_cons]
    dsimp only
    omega

/-- One of the summands is replaced. -/
theorem sum_update [Fintype ι] [DecidableEq ι] (f : α → Nat) (places : ι → α) (i : ι) (new : α) :
    ∑ j, f (Function.update places i new j) + f (places i) = ∑ j, f (places j) + f new := by
  have hothers : ∑ j ∈ univ.erase i, f (Function.update places i new j) =
      ∑ j ∈ univ.erase i, f (places j) := by
    refine sum_congr rfl fun j hj ↦ ?_
    rw [Function.update_of_ne (ne_of_mem_erase hj)]
  rw [← sum_erase_add univ _ (mem_univ i), hothers, Function.update_self,
    ← sum_erase_add univ (fun j ↦ f (places j)) (mem_univ i), Nat.add_right_comm]

end Reasoning
