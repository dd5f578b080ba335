import Ustevent.Net.EpollSelector

/-!
# The steps of a selection

What a step makes of the edges and of the two sides of a selection, and what follows for the waits
of the fibers and for the permits of their semaphores.
-/

namespace Ustevent.Net.Selection

variable {s t : Selection} {event : EventType} {action : Action} {side : Side}

/-- The steps of the passes, the semaphores and the waits, which are not left to the calls. -/
def Action.selects : Action → Bool
  | .start _ _ | .finish _ | .block _ => false
  | .edge _ | .take | .dispatch _ | .notifyLocked _ | .wait _ | .wake _ | .timeOut _ => true

/-- The permits of the atomic counter, with the one that a parked fiber has taken along. -/
def permits (s : Selection) (event : EventType) : Int :=
  (s.side event).semaphore.atomicCount + (s.side event).parkedCount

/-! ## What a step can do -/

/-- What a step makes of the side of an event type. -/
inductive Moves (s : Selection) (event : EventType) : Action → Side → Prop
  | stays {action : Action} : Moves s event action (s.side event)
  | notifies {i : Nat} {pass : Pass} (hpass : s.passes[i]? = some pass)
    (hevent : s.chooses pass = some event) :
    Moves s event (.dispatch i) ((s.notifyAtomic event).side event)
  | notifiesLocked (hnotifying : (s.side event).notifying ≠ 0) :
    Moves s event (.notifyLocked event)
      { s.side event with
        semaphore := (s.side event).semaphore.notifyLocked
        notifying := (s.side event).notifying - 1 }
  | starts {timed : Bool} (hfiber : (s.side event).fiber = .idle) :
    Moves s event (.start event timed) { s.side event with fiber := .operating, timed }
  | finishes (hfiber : (s.side event).fiber = .operating) :
    Moves s event (.finish event) { s.side event with fiber := .idle }
  | blocks (hfiber : (s.side event).fiber = .operating) :
    Moves s event (.block event)
      { s.side event with fiber := .blocked, blockedAt := s.edges.length }
  | waits (hfiber : (s.side event).fiber = .blocked) :
    Moves s event (.wait event) (waitAtomic (s.side event))
  | wakes (hfiber : (s.side event).fiber = .parked)
    (hadmits : (s.side event).semaphore.admits = true) :
    Moves s event (.wake event)
      { s.side event with semaphore := (s.side event).semaphore.waitLocked, fiber := .operating }
  | timesOut (hfiber : (s.side event).fiber = .parked) (htimed : (s.side event).timed = true) :
    Moves s event (.timeOut event)
      { s.side event with semaphore := (s.side event).semaphore.waitLocked, fiber := .idle }

theorem moves_setSide (h : Moves s event action side) (e : EventType) :
    Moves s e action ((s.setSide event side).side e) := by
  by_cases heq : e = event
  · rw [heq, setSide_side_self]
    exact h
  · rw [setSide_side_of_ne s side heq]
    exact .stays

theorem moves_of_step (hstep : s.step action = some t) (e : EventType) :
    Moves s e action (t.side e) := by
  cases action with
  | edge events =>
    cases hstep
    exact .stays
  | take =>
    rw [Selection.step, Option.ite_none_left_eq_some] at hstep
    cases hstep.2
    exact .stays
  | dispatch i =>
    rw [Selection.step] at hstep
    split at hstep
    · contradiction
    · rename_i pass hpass
      split at hstep
      · cases hstep
        exact .stays
      · rename_i event hevent
        cases hstep
        by_cases heq : e = event
        · rw [heq]
          exact .notifies hpass hevent
        · rw [Selection.notifyAtomic, setSide_side_of_ne _ _ heq]
          exact .stays
  | notifyLocked event =>
    rw [Selection.step, Option.ite_none_left_eq_some] at hstep
    cases hstep.2
    exact moves_setSide (.notifiesLocked hstep.1) e
  | start event timed =>
    rw [Selection.step, Option.ite_none_right_eq_some] at hstep
    cases hstep.2
    exact moves_setSide (.starts hstep.1) e
  | finish event =>
    rw [Selection.step, Option.ite_none_right_eq_some] at hstep
    cases hstep.2
    exact moves_setSide (.finishes hstep.1) e
  | block event =>
    rw [Selection.step, Option.ite_none_right_eq_some] at hstep
    cases hstep.2
    exact moves_setSide (.blocks hstep.1) e
  | wait event =>
    rw [Selection.step, Option.ite_none_right_eq_some] at hstep
    cases hstep.2
    exact moves_setSide (.waits hstep.1) e
  | wake event =>
    rw [Selection.step, Option.ite_none_right_eq_some] at hstep
    cases hstep.2
    exact moves_setSide (.wakes hstep.1.1 hstep.1.2) e
  | timeOut event =>
    rw [Selection.step, Option.ite_none_right_eq_some] at hstep
    cases hstep.2
    exact moves_setSide (.timesOut hstep.1.1 hstep.1.2.1) e

/-- Only the system adds to the edges. -/
theorem edges_step (hstep : s.step action = some t) :
    t.edges = s.edges ∨ ∃ events, action = .edge events ∧ t.edges = s.edges ++ [events] := by
  cases action with
  | edge events =>
    cases hstep
    exact Or.inr ⟨events, rfl, rfl⟩
  | dispatch i =>
    rw [Selection.step] at hstep
    split at hstep
    · contradiction
    · split at hstep <;> cases hstep <;> exact Or.inl rfl
  | take | notifyLocked e =>
    rw [Selection.step, Option.ite_none_left_eq_some] at hstep
    cases hstep.2
    exact Or.inl rfl
  | start e timed | finish e | block e | wait e | wake e | timeOut e =>
    rw [Selection.step, Option.ite_none_right_eq_some] at hstep
    cases hstep.2
    exact Or.inl rfl

/-- The registration of the descriptor stays as it is. -/
theorem registration_step (hstep : s.step action = some t) :
    t.signalFd = s.signalFd ∧ t.notifier = s.notifier := by
  cases action with
  | edge events =>
    cases hstep
    exact ⟨rfl, rfl⟩
  | dispatch i =>
    rw [Selection.step] at hstep
    split at hstep
    · contradiction
    · split at hstep <;> cases hstep <;> exact ⟨rfl, rfl⟩
  | take | notifyLocked e =>
    rw [Selection.step, Option.ite_none_left_eq_some] at hstep
    cases hstep.2
    exact ⟨rfl, rfl⟩
  | start e timed | finish e | block e | wait e | wake e | timeOut e =>
    rw [Selection.step, Option.ite_none_right_eq_some] at hstep
    cases hstep.2
    exact ⟨rfl, rfl⟩

/-- A wait that takes the slow path, and one that does not. -/
theorem waitAtomic_cases (side : Side) :
    (side.semaphore.atomicCount < 1 ∧ (waitAtomic side).fiber = .parked) ∨
      (1 ≤ side.semaphore.atomicCount ∧ (waitAtomic side).fiber = .operating) := by
  by_cases hone : side.semaphore.atomicCount < 1
  · exact Or.inl ⟨hone, if_pos (decide_eq_true hone)⟩
  · exact Or.inr ⟨Int.not_lt.mp hone, if_neg (by simp [hone])⟩

/-! ## Edges -/

/-- There has been an edge for the fiber since its operation would block. -/
def Told (s : Selection) (event : EventType) : Prop :=
  ∃ i edge, s.edges[i]? = some edge ∧ edge.concerns event = true ∧ (s.side event).blockedAt ≤ i

/-- What the steps leave of the calls, apart from an operation that would block. -/
structure Follows (s t : Selection) : Prop where
  edges : s.edges <+: t.edges
  blockedAt : ∀ event, (t.side event).blockedAt = (s.side event).blockedAt
  waits : ∀ event, (t.side event).fiber.waits = true → (s.side event).fiber.waits = true

theorem Follows.rfl : Follows s s := ⟨List.prefix_refl _, fun _ ↦ Eq.refl _, fun _ ↦ id⟩

theorem follows_edge (s : Selection) (events : Events) :
    Follows s { s with edges := s.edges ++ [events] } :=
  ⟨List.prefix_append _ _, fun _ ↦ rfl, fun _ ↦ id⟩

theorem Moves.follows (h : Moves s event action side) (hblock : action ≠ .block event) :
    side.blockedAt = (s.side event).blockedAt ∧
      (side.fiber.waits = true → (s.side event).fiber.waits = true) := by
  cases h with
  | stays | notifiesLocked | starts | finishes | wakes | timesOut => simp_all [Phase.waits]
  | notifies =>
    obtain ⟨hfiber, hblocked⟩ := notifyAtomic_side s event event
    rw [hfiber, hblocked]
    exact ⟨rfl, id⟩
  | blocks => exact absurd rfl hblock
  | waits hfiber =>
    rw [hfiber]
    exact ⟨rfl, fun _ ↦ rfl⟩

theorem follows_step (hstep : s.step action = some t) (hblock : ∀ event, action ≠ .block event) :
    Follows s t where
  edges := by
    rcases edges_step hstep with hedges | ⟨events, -, hedges⟩
    · exact hedges ▸ List.prefix_refl _
    · exact hedges ▸ List.prefix_append _ _
  blockedAt event := ((moves_of_step hstep event).follows (hblock event)).1
  waits event := ((moves_of_step hstep event).follows (hblock event)).2

theorem Told.follows (h : s.Told event) (hfollows : Follows s t) : t.Told event := by
  obtain ⟨i, edge, hedge, hconcerns, hblocked⟩ := h
  obtain ⟨rest, hrest⟩ := hfollows.edges
  refine ⟨i, edge, ?_, hconcerns, by rw [hfollows.blockedAt]; exact hblocked⟩
  rw [← hrest, List.getElem?_append_left (List.getElem?_eq_some_iff.mp hedge).1]
  exact hedge

theorem told_edge {events : Events} (hblocked : (s.side event).blockedAt ≤ s.edges.length)
    (hconcerns : events.concerns event = true) :
    Told { s with edges := s.edges ++ [events] } event :=
  ⟨s.edges.length, events, List.getElem?_concat_length, hconcerns, hblocked⟩

/-- The fiber that would block, and those that go on. -/
theorem block_cases (hstep : s.step (.block event) = some t) :
    t = s.setSide event { s.side event with fiber := .blocked, blockedAt := s.edges.length } := by
  rw [Selection.step, Option.ite_none_right_eq_some] at hstep
  exact (Option.some.inj hstep.2).symm

/-- A fiber that has been told, and for which nothing is on its way, does not wait. -/
theorem Inv.not_told_of_settled (h : s.Inv) (hparked : (s.side event).fiber = .parked)
    (htake : s.step .take = none) (hdispatch : ∀ i, s.step (.dispatch i) = none)
    (hnotify : s.step (.notifyLocked event) = none) (hwake : s.step (.wake event) = none) :
    ¬ s.Told event := by
  rintro ⟨i, edge, hedge, hconcerns, hblocked⟩
  rcases h.notLost event (by rw [hparked]; rfl) i edge hedge hconcerns hblocked with
    htaken | (hnotifying | ⟨pass, hpass, -⟩) | hcount
  · have hpending := s.concerns_pending htaken (by rw [hedge]; exact hconcerns)
    have hne : s.pending ≠ Events.none := by
      intro hnone
      rw [hnone, Events.concerns_none] at hpending
      contradiction
    simp [Selection.step, hne] at htake
  · have hne : (s.side event).notifying ≠ 0 := Nat.pos_iff_ne_zero.mp hnotifying
    simp [Selection.step, hne] at hnotify
  · obtain ⟨j, hj⟩ := List.mem_iff_getElem?.mp hpass
    have := hdispatch j
    rw [Selection.step, hj] at this
    dsimp only at this
    split at this <;> contradiction
  · have hadmits : (s.side event).semaphore.admits = true := decide_eq_true hcount
    simp [Selection.step, hparked, hadmits] at hwake

/-! ## Fibers -/

/-- A fiber leaves `idle` only where a call begins. -/
theorem idle_step (h : (s.side event).fiber = .idle) (hstep : s.step action = some t)
    (hstart : ∀ timed, action ≠ .start event timed) : (t.side event).fiber = .idle := by
  have hmoves := moves_of_step hstep event
  generalize t.side event = side at hmoves ⊢
  cases hmoves with
  | stays => exact h
  | notifies => exact (notifyAtomic_side s event event).1.trans h
  | notifiesLocked => exact h
  | starts => exact absurd rfl (hstart _)
  | finishes | timesOut => rfl
  | blocks hfiber | waits hfiber | wakes hfiber =>
    exact absurd (h.symm.trans hfiber) (by decide)

/-- A fiber leaves its operation only where the call says so. -/
theorem operating_step (h : (s.side event).fiber = .operating) (hstep : s.step action = some t)
    (hfinish : action ≠ .finish event) (hblock : action ≠ .block event) :
    (t.side event).fiber = .operating := by
  have hmoves := moves_of_step hstep event
  generalize t.side event = side at hmoves ⊢
  cases hmoves with
  | stays | notifiesLocked => exact h
  | notifies => exact (notifyAtomic_side s event event).1.trans h
  | finishes => exact absurd rfl hfinish
  | blocks => exact absurd rfl hblock
  | wakes => rfl
  | starts hfiber | waits hfiber | timesOut hfiber =>
    exact absurd (h.symm.trans hfiber) (by decide)

/-! ## Permits -/

theorem Moves.balanced (h : ∀ e, (s.side e).Balanced) (hrange : s.InRange action)
    (hmoves : Moves s event action side) : side.Balanced := by
  have hbalanced := h event
  cases hmoves with
  | stays => exact hbalanced
  | notifies hpass hevent =>
    exact Side.Balanced.notifyAtomic h (hrange _ hpass event hevent) event
  | notifiesLocked hnotifying =>
    refine BasicSemaphore.Balanced.notifyLocked ?_ hrange
    show BasicSemaphore.Balanced 0 ((s.side event).notifying - 1 + 1) _ _
    rw [Nat.sub_add_cancel (Nat.pos_of_ne_zero hnotifying)]
    exact hbalanced
  | starts hfiber | finishes hfiber | blocks hfiber =>
    simpa [Side.Balanced, Side.parkedCount, hfiber] using hbalanced
  | waits hfiber =>
    rw [Side.Balanced, Side.parkedCount, hfiber, if_neg (by decide)] at hbalanced
    have hwaiting := hbalanced.waitAtomic hrange
    rw [Side.Balanced, Side.parkedCount]
    rcases waitAtomic_cases (s.side event) with ⟨hone, hslow⟩ | ⟨hone, hfast⟩
    · rw [hslow, if_pos rfl]
      rwa [show (s.side event).semaphore.waitAtomic.1 = true from decide_eq_true hone,
        if_pos rfl] at hwaiting
    · rw [hfast, if_neg (by decide)]
      rwa [show (s.side event).semaphore.waitAtomic.1 = false from
        decide_eq_false (Int.not_lt.mpr hone), if_neg Bool.false_ne_true] at hwaiting
  | wakes hfiber | timesOut hfiber =>
    rw [Side.Balanced, Side.parkedCount, hfiber, if_pos rfl] at hbalanced
    exact hbalanced.waitLocked hrange

theorem balanced_step (h : ∀ e, (s.side e).Balanced) (hrange : s.InRange action)
    (hstep : s.step action = some t) (event : EventType) : (t.side event).Balanced :=
  (moves_of_step hstep event).balanced h hrange

theorem waitAtomic_atomicCount (hrange : s.InRange (.wait event)) :
    (waitAtomic (s.side event)).semaphore.atomicCount =
      (s.side event).semaphore.atomicCount - 1 := int32_of_isInt hrange

/-- A permit is used up only by a fiber whose wait ends. -/
theorem Moves.permits_le (h : Moves s event action side) (hrange : s.InRange action)
    (hwaits : side.fiber.waits = true ∨ (s.side event).fiber.waits = false) :
    s.permits event ≤ side.semaphore.atomicCount + side.parkedCount := by
  unfold permits
  cases h with
  | stays => exact Int.le_refl _
  | notifies hpass hevent =>
    rw [notifyAtomic_atomicCount (hrange _ hpass event hevent), if_pos rfl,
      notifyAtomic_parkedCount]
    omega
  | notifiesLocked => exact Int.le_refl _
  | starts hfiber | finishes hfiber | blocks hfiber => simp [Side.parkedCount, hfiber]
  | waits hfiber =>
    rcases waitAtomic_cases (s.side event) with ⟨-, hslow⟩ | ⟨-, hfast⟩
    · rw [Side.parkedCount, Side.parkedCount, hfiber, hslow, if_neg (by decide), if_pos rfl,
        waitAtomic_atomicCount hrange]
      omega
    · rw [hfast, hfiber] at hwaits
      rcases hwaits with hwaits | hwaits <;> contradiction
  | wakes hfiber | timesOut hfiber =>
    rw [hfiber] at hwaits
    rcases hwaits with hwaits | hwaits <;> contradiction

theorem permits_le_of_step (hrange : s.InRange action) (hstep : s.step action = some t)
    (hwaits : (t.side event).fiber.waits = true ∨ (s.side event).fiber.waits = false) :
    s.permits event ≤ t.permits event :=
  (moves_of_step hstep event).permits_le hrange hwaits

/-- No wait has a timeout, and none has left its semaphore short of a permit. -/
structure Untimed (s : Selection) : Prop where
  timed : ∀ event, (s.side event).timed = false
  permits : ∀ event, 0 ≤ s.permits event

theorem Moves.timed_eq (h : Moves s event action side) (htimed : (s.side event).timed = false)
    (hstart : action ≠ .start event true) : side.timed = false := by
  cases h with
  | starts =>
    rename_i timed hfiber
    cases timed with
    | true => exact absurd rfl hstart
    | false => rfl
  | notifies =>
    rw [notifyAtomic, setSide_side_self]
    exact htimed
  | stays | notifiesLocked | finishes | blocks | waits | wakes | timesOut => exact htimed

/-- A wait that has no timeout ends with a permit. -/
theorem Moves.permits_nonneg (h : Moves s event action side) (hrange : s.InRange action)
    (hbalanced : (s.side event).Balanced) (htimed : (s.side event).timed = false)
    (hpermits : 0 ≤ s.permits event) :
    0 ≤ side.semaphore.atomicCount + (side.parkedCount : Int) := by
  by_cases hwaits : side.fiber.waits = true ∨ (s.side event).fiber.waits = false
  · exact Int.le_trans hpermits (h.permits_le hrange hwaits)
  have hends := (not_or.mp hwaits).1
  have hwaited := eq_true_of_ne_false (not_or.mp hwaits).2
  cases h with
  | stays | notifiesLocked => exact absurd hwaited hends
  | notifies =>
    rw [(notifyAtomic_side s event event).1] at hends
    exact absurd hwaited hends
  | starts hfiber | finishes hfiber | blocks hfiber =>
    rw [hfiber] at hwaited
    contradiction
  | waits hfiber =>
    rcases waitAtomic_cases (s.side event) with ⟨-, hslow⟩ | ⟨hone, hfast⟩
    · rw [hslow] at hends
      exact absurd rfl hends
    · rw [waitAtomic_atomicCount hrange]
      omega
  | wakes hfiber hadmits =>
    -- the permit is in `_count`, which the atomic counter has not fallen short of
    have hcount : 0 < (s.side event).semaphore.count := of_decide_eq_true hadmits
    rw [Side.Balanced, Side.parkedCount, if_pos hfiber, BasicSemaphore.Balanced] at hbalanced
    rw [permits, Side.parkedCount, if_pos hfiber] at hpermits
    show 0 ≤ (s.side event).semaphore.atomicCount + 0
    omega
  | timesOut hfiber htimed' =>
    rw [htimed] at htimed'
    contradiction

theorem Untimed.step (h : Untimed s) (hbalanced : ∀ e, (s.side e).Balanced)
    (hrange : s.InRange action) (hstep : s.step action = some t)
    (hstart : ∀ event, action ≠ .start event true) : Untimed t where
  timed event := (moves_of_step hstep event).timed_eq (h.timed event) (hstart event)
  permits event := (moves_of_step hstep event).permits_nonneg hrange (hbalanced event)
    (h.timed event) (h.permits event)

end Ustevent.Net.Selection
