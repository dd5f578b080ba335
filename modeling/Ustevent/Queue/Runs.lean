import Ustevent.Queue.Order

/-!
# Runs of a Context

Runs in which pops and performs take turns keep the tasks in order.  The other runs can do without:
a pop that consumes too early returns a task again, and a perform out of order frees the record of
another task.
-/

namespace Ustevent

open Reasoning MpscRingBuffer ContextTaskQueue Reservation

variable {n m capacity : Nat}

namespace Context

variable {s t : Context n m} {q : Fifo n} {c : Circular (Reservation n)}

/-! ## One step -/

theorem Fiber.operation_eq {f : Fiber m} {operation : Nat} (h : f.phase = .ready operation) :
    f.operation = some operation := by
  rw [Fiber.operation, h]

theorem Inv.step (h : s.Inv capacity q c) (hcap : capacity < 2 ^ 32) {action : Action n m}
    (hok : s.InTurn action) (hstep : s.step capacity action = some t) :
    ∃ q' c', t.Inv capacity q' c' := by
  cases action with
  | registerWriter w =>
    rw [Context.step, Option.ite_none_right_eq_some] at hstep
    obtain ⟨q', c', hinv, _⟩ := h.registerWriter hstep.1
    exact ⟨q', c', Option.some.inj hstep.2 ▸ hinv⟩
  | acquire w task =>
    by_cases hw : s.writers w = .idle
    · obtain ⟨q', c', hinv, _⟩ := h.acquire hcap hw hstep
      exact ⟨q', c', hinv⟩
    · rw [Context.step, if_neg hw] at hstep
      contradiction
  | write w =>
    rw [Context.step] at hstep
    cases hw : s.writers w with
    | acquired number task base =>
      rw [hw] at hstep
      exact ⟨q, c, Option.some.inj hstep ▸ h.write hcap hw⟩
    | _ =>
      rw [hw] at hstep
      contradiction
  | produce w =>
    by_cases hw : s.writers w = .written
    · exact h.produce hcap hw hstep
    · rw [Context.step, if_neg hw] at hstep
      contradiction
  | pop v =>
    rw [Context.step, Option.ite_none_right_eq_some] at hstep
    obtain ⟨q', c', hinv, _⟩ := h.pop hcap hok.1 hstep.2
    exact ⟨q', c', hinv⟩
  | steal v i =>
    rw [Context.step] at hstep
    split at hstep
    · rename_i f hf
      rw [Option.ite_none_right_eq_some] at hstep
      exact ⟨q, c, Option.some.inj hstep.2 ▸ h.steal hf⟩
    · contradiction
  | perform i =>
    rw [Context.step] at hstep
    split at hstep
    · rename_i f hf
      split at hstep
      · rename_i operation hphase
        split at hstep
        · contradiction
        · rename_i queue hqueue
          have holdest := hok.2 f hf operation (Fiber.operation_eq hphase)
          exact Option.some.inj hstep ▸ h.perform hcap hf hphase holdest hqueue
      · contradiction
    · contradiction
  | invoke i =>
    rw [Context.step] at hstep
    split at hstep
    · rename_i f hf
      split at hstep
      · rename_i handler hphase
        exact ⟨q, c, Option.some.inj hstep ▸ h.invoke hf hphase⟩
      · contradiction
    · contradiction

/-! ## The tasks in order -/

theorem Inv.popped_eq (h : s.Inv capacity q c) :
    s.popped = (List.range s.fibers.length).map some := by
  apply List.ext_getElem?
  intro i
  rw [popped, List.getElem?_map, List.getElem?_map]
  cases hf : s.fibers[i]? with
  | none =>
    rw [List.getElem?_eq_none (by simpa using hf)]
    rfl
  | some f =>
    rw [List.getElem?_range (List.getElem?_eq_some_iff.mp hf).1]
    exact congrArg some (h.fibers i f hf).task

theorem FiberOk.handled_eq {i : Nat} {f : Fiber m} (h : FiberOk q i f) {handler : Option Nat}
    (hhandled : f.handled = some handler) : handler = f.task := by
  cases hphase : f.phase with
  | done handler' =>
    rw [Fiber.handled, hphase, Option.some.injEq] at hhandled
    rw [h.task, ← hhandled]
    -- a fiber that has invoked its handler has released its record
    by_cases hlt : i < q.released.length
    · cases h.performed hlt with
      | inl hinvoking =>
        rw [hphase] at hinvoking
        contradiction
      | inr hdone =>
        rw [hphase, Phase.done.injEq] at hdone
        exact hdone
    · have ⟨r, _, hready, _⟩ := h.waiting (by omega)
      rw [hphase] at hready
      contradiction
  | _ =>
    rw [Fiber.handled, hphase] at hhandled
    contradiction

theorem handled_sublist {fibers : List (Fiber m)}
    (h : ∀ f ∈ fibers, ∀ handler, f.handled = some handler → handler = f.task) :
    (fibers.filterMap Fiber.handled).Sublist (fibers.map Fiber.task) := by
  induction fibers with
  | nil => exact List.Sublist.refl _
  | cons f fibers ih =>
    have hrest := ih fun g hg ↦ h g (List.mem_cons_of_mem f hg)
    rw [List.map_cons]
    cases hhandled : f.handled with
    | none =>
      rw [List.filterMap_cons_none hhandled]
      exact hrest.cons _
    | some handler =>
      rw [List.filterMap_cons_some hhandled, h f List.mem_cons_self handler hhandled]
      exact hrest.cons_cons _

theorem Inv.ordered (h : s.Inv capacity q c) : s.Ordered where
  popped := ⟨_, h.popped_eq, List.pairwise_lt_range⟩
  handled := by
    have hsublist : s.handled.Sublist s.popped := by
      apply handled_sublist
      intro f hf handler hhandled
      have ⟨i, hi⟩ := List.mem_iff_getElem?.mp hf
      exact (h.fibers i f hi).handled_eq hhandled
    apply hsublist.nodup
    rw [h.popped_eq]
    exact (List.nodup_range).map (Option.some_injective Nat)

/-- In a run where pops and performs take turns, no task is popped twice or out of order and no
handler is invoked twice. -/
theorem ordered_of_inTurn (h : 1 ≤ capacity) (hcap : capacity < 2 ^ 32)
    {actions : List (Action n m)}
    (hok : Meets (Context.step capacity) InTurn (initial n m) actions)
    (hrun : run (Context.step capacity) (initial n m) actions = some s) : s.Ordered := by
  have hinv : ∃ q c, s.Inv capacity q c := by
    apply invariant_of_meets (fun s ↦ ∃ q c, Context.Inv capacity s q c) _
      ⟨_, _, inv_initial h⟩ hok hrun
    intro s action t ⟨q, c, hs⟩ hok hstep
    exact hs.step hcap hok hstep
  have ⟨q, c, hs⟩ := hinv
  exact hs.ordered

/-- A task with an operation of 8 bytes and an empty description: a record of 32 bytes. -/
def shortTask : Task := ⟨8, 0, [], by decide, by decide⟩

/-- A record of 40 bytes. -/
def longTask : Task := ⟨8, 0, [97, 97, 97, 97, 97, 97, 97, 97], by decide, by decide⟩

/-- One thread pushes two tasks. -/
def pushTwo : List (Action 1 2) :=
  [.registerWriter 0, .acquire 0 shortTask, .write 0, .produce 0, .acquire 0 longTask, .write 0,
    .produce 0]

/-- Two workers pop and perform the tasks, the first of them before the next pop that consumes. -/
theorem ordered_of_inTurn_pushTwo : ∃ s : Context 1 2,
    run (Context.step 80) (initial 1 2)
      (pushTwo ++ [.pop 0, .pop 1, .perform 0, .perform 1, .invoke 1, .pop 0, .invoke 0]) =
      some s ∧ s.Ordered := by
  have hrun : (run (Context.step 80) (initial 1 2)
      (pushTwo ++ [.pop 0, .pop 1, .perform 0, .perform 1, .invoke 1, .pop 0, .invoke 0])).isSome =
      true := by decide +kernel
  have ⟨s, hs⟩ := Option.isSome_iff_exists.mp hrun
  exact ⟨s, hs, ordered_of_inTurn (by decide) (by decide) (by decide +kernel) hs⟩

/-- Worker 1 pops while the fiber on worker 0 has not run yet, and gets the same task. -/
theorem not_ordered_of_waiting : ∃ s : Context 1 2,
    run (Context.step 80) (initial 1 2)
      [.registerWriter 0, .acquire 0 shortTask, .write 0, .produce 0, .pop 0, .pop 1] = some s ∧
    ¬ s.Ordered := by
  have hrun : (run (Context.step 80) (initial 1 2)
      [.registerWriter 0, .acquire 0 shortTask, .write 0, .produce 0, .pop 0, .pop 1]).any
      (fun s ↦ decide (s.popped = [some 0, some 0])) = true := by decide +kernel
  rw [Option.any_eq_true] at hrun
  have ⟨s, hs, hpopped⟩ := hrun
  refine ⟨s, hs, fun hordered ↦ ?_⟩
  have ⟨numbers, heq, hlt⟩ := hordered.popped
  have hnodup : (numbers.map some).Nodup :=
    (hlt.imp Nat.ne_of_lt).map some fun _ _ hne heq ↦ hne (Option.some.inj heq)
  rw [← heq, of_decide_eq_true hpopped] at hnodup
  exact absurd hnodup (by decide)

/-! ## The records that are kept -/

theorem Inv.kept (h : s.Inv capacity q c) : s.Kept := by
  intro w record hrecord f hf hready
  have hpairs := h.refines.ring.fits.pairwise_disjoint
  rw [h.refines.items, List.pairwise_iff_getElem] at hpairs
  have hok := h.writers w
  cases hw : s.writers w with
  | acquired number task base =>
    rw [hw] at hok hrecord
    rw [Writer.record, Option.mem_some_iff] at hrecord
    obtain ⟨⟨j, hj, _⟩, _⟩ := hok
    obtain ⟨i, hi⟩ := List.mem_iff_getElem?.mp hf
    have hfiber := h.fibers i f hi
    have hle : q.released.length ≤ i := by
      by_contra hlt
      rw [Fiber.operation] at hready
      cases hfiber.performed (by omega) with
      | inl hinvoking =>
        rw [hinvoking] at hready
        contradiction
      | inr hdone =>
        rw [hdone] at hready
        contradiction
    obtain ⟨r, hr, _, hrange⟩ := hfiber.waiting hle
    have hupper := h.cursor.upper
    have hlt := (List.getElem?_eq_some_iff.mp hi).1
    obtain ⟨_, hprod⟩ := granted_reservation h.refines hr (by omega)
    rw [hrange, ← hrecord]
    have hne : i - q.released.length ≠ j := by
      intro heq
      rw [heq, hj, Option.some.injEq] at hr
      rw [← hr] at hprod
      contradiction
    -- the record of the fiber and the new one are two reservations
    obtain ⟨hi, hi'⟩ := List.getElem?_eq_some_iff.mp hr
    obtain ⟨hj, hj'⟩ := List.getElem?_eq_some_iff.mp hj
    by_cases hlt : i - q.released.length < j
    · have := hpairs _ j hi hj hlt
      rw [hi', hj'] at this
      exact this
    · have := hpairs j _ hj hi (by omega)
      rw [hi', hj'] at this
      exact this.symm
  | _ =>
    rw [hw] at hrecord
    simp [Writer.record] at hrecord

theorem map_task_set {fibers : List (Fiber m)} {i : Nat} {f g : Fiber m}
    (hf : fibers[i]? = some f) (hg : g.task = f.task) :
    (fibers.set i g).map Fiber.task = fibers.map Fiber.task := by
  apply List.ext_getElem?
  intro k
  rw [List.getElem?_map, List.getElem?_map]
  by_cases heq : i = k
  · subst heq
    rw [List.getElem?_set_self (List.getElem?_eq_some_iff.mp hf).1, hf]
    exact congrArg some hg
  · rw [List.getElem?_set_ne heq]

theorem popped_setFiber {i : Nat} {f g : Fiber m} (hf : s.fibers[i]? = some f)
    (hg : g.task = f.task) : s.popped <+: (s.setFiber i g).popped := by
  show s.popped <+: (s.fibers.set i g).map Fiber.task
  rw [map_task_set hf hg]
  exact List.prefix_rfl

/-- No step takes a pop back. -/
theorem popped_initial {action : Action n m} (hstep : s.step capacity action = some t) :
    s.popped <+: t.popped := by
  cases action with
  | registerWriter w =>
    rw [Context.step, Option.ite_none_right_eq_some] at hstep
    rw [← Option.some.inj hstep.2]
    exact List.prefix_rfl
  | acquire w task =>
    rw [Context.step, Option.ite_none_right_eq_some] at hstep
    have hstep := hstep.2
    split at hstep
    · contradiction
    · rw [← Option.some.inj hstep]
      exact List.prefix_rfl
    · rw [← Option.some.inj hstep]
      exact List.prefix_rfl
  | write w =>
    rw [Context.step] at hstep
    split at hstep
    · rw [← Option.some.inj hstep]
      exact List.prefix_rfl
    · contradiction
  | produce w =>
    rw [Context.step, Option.ite_none_right_eq_some] at hstep
    have hstep := hstep.2
    split at hstep
    · contradiction
    · rw [← Option.some.inj hstep]
      exact List.prefix_rfl
  | pop v =>
    rw [Context.step, Option.ite_none_right_eq_some, Context.launch] at hstep
    have hstep := hstep.2
    split at hstep
    · contradiction
    · rw [← Option.some.inj hstep]
      exact List.prefix_rfl
    · rw [← Option.some.inj hstep, popped, popped]
      dsimp only
      rw [List.map_append]
      exact List.prefix_append _ _
  | steal v i =>
    rw [Context.step] at hstep
    split at hstep
    · rename_i f hf
      rw [Option.ite_none_right_eq_some] at hstep
      rw [← Option.some.inj hstep.2]
      exact popped_setFiber hf rfl
    · contradiction
  | perform i =>
    rw [Context.step] at hstep
    split at hstep
    · rename_i f hf
      split at hstep
      · split at hstep
        · contradiction
        · rw [← Option.some.inj hstep]
          exact popped_setFiber hf rfl
      · contradiction
    · contradiction
  | invoke i =>
    rw [Context.step] at hstep
    split at hstep
    · rename_i f hf
      split at hstep
      · rw [← Option.some.inj hstep]
        exact popped_setFiber hf rfl
      · contradiction
    · contradiction

/-- A pop that consumes while a popped task waits returns the first waiting task again. -/
theorem Inv.popped_twice (h : s.Inv capacity q c) (hcap : capacity < 2 ^ 32) {v : Fin m}
    (hused : ¬ s.UsedUp (.pop v)) (hstep : s.launch capacity v = some t) : ¬ t.popped.Nodup := by
  have hused : ¬ (s.queue.poped < s.queue.consumed ∨ ∀ f ∈ s.fibers, f.operation = none) := hused
  rw [not_or] at hused
  obtain ⟨hlt, hwait⟩ := hused
  obtain ⟨i, f, hf, hready⟩ : ∃ (i : Nat) (f : Fiber m), s.fibers[i]? = some f ∧
      f.operation ≠ none := by
    push Not at hwait
    obtain ⟨f, hf, hready⟩ := hwait
    obtain ⟨i, hi⟩ := List.mem_iff_getElem?.mp hf
    exact ⟨i, f, hi, hready⟩
  have hbound := (List.getElem?_eq_some_iff.mp hf).1
  have hupper := h.cursor.upper
  have hle : q.released.length ≤ i := by
    by_contra hlt
    apply hready
    rw [Fiber.operation]
    cases (h.fibers i f hf).performed (by omega) with
    | inl hinvoking => rw [hinvoking]
    | inr hdone => rw [hdone]
  have hgranted := granted_le h.refines
  cases hpending : q.pending with
  | nil =>
    rw [hpending, List.length_nil] at hgranted
    omega
  | cons r l =>
    have hr : q.pending[0]? = some r := by
      rw [hpending]
      rfl
    obtain ⟨_, hprod⟩ := granted_reservation h.refines hr (by omega)
    have hpos := pos_of_getElem? h.refines hr
    obtain ⟨address, length, ring, c', hconsume, hlength, haddress, _⟩ := h.consumes hcap
    have hmore : r.size ≤ length := by
      rw [hlength, hpending, readyRun, readyFrom, if_pos ⟨hprod, rfl⟩, total_cons]
      exact Nat.le_add_right _ _
    have haddress := haddress (by omega)
    rw [hpending, List.head?_cons, Option.map_some] at haddress
    have htask : s.queue.taskAt (r.start + operationOffset) = some q.released.length :=
      (h.stored 0 r hr (Or.inl hprod)).readObject
    rw [Context.launch, ContextTaskQueue.pop, if_neg hlt, hconsume, ok_bind] at hstep
    simp only [if_neg (show ¬ length = 0 by omega)] at hstep
    rw [← Option.some.inj hstep, popped]
    dsimp only
    rw [List.map_append, List.nodup_append]
    intro hnodup
    apply hnodup.2.2 (some q.released.length) _ (some q.released.length) _ rfl
    · show some q.released.length ∈ s.popped
      rw [h.popped_eq]
      exact List.mem_map_of_mem (List.mem_range.mpr (by omega))
    · rw [List.map_singleton, List.mem_singleton, haddress, Option.getD_some]
      exact htask.symm

/-- In a run that performs the oldest record first and pops no task twice, the record of a waiting
task is not handed out. -/
theorem kept_of_oldestFirst (h : 1 ≤ capacity) (hcap : capacity < 2 ^ 32)
    {actions : List (Action n m)}
    (hok : Meets (Context.step capacity) OldestFirst (initial n m) actions)
    (hrun : run (Context.step capacity) (initial n m) actions = some s)
    (hdistinct : s.popped.Nodup) : s.Kept := by
  have hinv : (∃ q c, s.Inv capacity q c) ∨ ¬ s.popped.Nodup := by
    apply invariant_of_meets (fun s ↦ (∃ q c, Context.Inv capacity s q c) ∨ ¬ s.popped.Nodup) _
      (Or.inl ⟨_, _, inv_initial h⟩) hok hrun
    intro s action t hs hok hstep
    cases hs with
    | inl hs =>
      have ⟨q, c, hs⟩ := hs
      -- a pop that consumes too early returns a task again
      by_cases hused : s.UsedUp action
      · exact Or.inl (hs.step hcap ⟨hused, hok⟩ hstep)
      · cases action with
        | pop v =>
          rw [Context.step, Option.ite_none_right_eq_some] at hstep
          exact Or.inr (hs.popped_twice hcap hused hstep.2)
        | _ => exact absurd trivial hused
    | inr hs => exact Or.inr fun ht ↦ hs (ht.sublist (popped_initial hstep).sublist)
  have ⟨q, c, hs⟩ := hinv.resolve_right fun hnot ↦ hnot hdistinct
  exact hs.kept

/-- With the oldest record performed first, a third record does not fit. -/
theorem kept_of_oldestFirst_pushTwo : ∃ s : Context 1 2,
    run (Context.step 80) (initial 1 2)
      (pushTwo ++ [.pop 0, .pop 1, .perform 0, .acquire 0 shortTask]) = some s ∧ s.Kept := by
  have hrun : (run (Context.step 80) (initial 1 2)
      (pushTwo ++ [.pop 0, .pop 1, .perform 0, .acquire 0 shortTask])).any
      (fun s ↦ decide s.popped.Nodup) = true := by decide +kernel
  rw [Option.any_eq_true] at hrun
  have ⟨s, hs, hdistinct⟩ := hrun
  exact ⟨s, hs, kept_of_oldestFirst (by decide) (by decide) (by decide +kernel) hs
    (of_decide_eq_true hdistinct)⟩

/-- The fiber of the second task deallocates 40 bytes, which begin with the record of the first one,
and the next push is handed that record. -/
theorem not_kept_of_younger : ∃ s : Context 1 2,
    run (Context.step 80) (initial 1 2)
      (pushTwo ++ [.pop 0, .pop 1, .perform 1, .acquire 0 shortTask]) = some s ∧
    s.popped.Nodup ∧ ¬ s.Kept := by
  have hrun : (run (Context.step 80) (initial 1 2)
      (pushTwo ++ [.pop 0, .pop 1, .perform 1, .acquire 0 shortTask])).any
      (fun s ↦ decide (s.popped.Nodup ∧ ¬ s.Kept)) = true := by decide +kernel
  rw [Option.any_eq_true] at hrun
  have ⟨s, hs, hlost⟩ := hrun
  exact ⟨s, hs, of_decide_eq_true hlost⟩

end Context

end Ustevent
