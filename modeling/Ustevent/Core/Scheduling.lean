import Ustevent.Core.Schedule

/-!
# Each context is in one place

The state of the threads follows the abstract schedule: no context is lost, run by two threads or
ready twice, and the calls that attach and detach the contexts are made where boost allows them.
-/

namespace Ustevent.Scheduling

open Reasoning

variable {n : Nat} {t t' : Threads n} {a a' : Schedule n} {i j : Fin n} {c d : FiberContext n}
  {p q : Place n}

/-- The thread that a pinned context belongs to. -/
def FiberContext.home : FiberContext n → Option (Fin n)
  | .main i | .dispatcher i => some i
  | .worker _ => none

@[grind] def Place.thread : Place n → Option (Fin n)
  | .ready i | .active i | .leaving i _ | .blocked i => some i
  | .unborn | .finished => none

/-- The thread whose scheduler knows a context in this place. -/
@[grind] def Place.attached : Place n → Option (Fin n)
  | .active i | .leaving i _ | .blocked i => some i
  | .unborn | .ready _ | .finished => none

/-- The members of the strategies and of boost are those of the schedule. -/
structure Holds (t : Threads n) (a : Schedule n) : Prop where
  fibers : t.fibers = a.fibers
  active : t.active = a.active
  active_iff : ∀ c i, a.place c = .active i ↔ t.active i = c
  leaving_iff : ∀ c i, (∃ picked, a.place c = .leaving i picked) ↔ t.leaving i = some c
  ready_iff : ∀ c i, a.place c = .ready i ↔ c ∈ t.ready i
  nodup : ∀ i, (t.ready i).Nodup
  parked_iff : ∀ c, t.parked c = true ↔ ∃ i, a.place c = .blocked i
  unborn_iff : ∀ c, a.place c = .unborn ↔ ∃ f, c = .worker f ∧ t.fibers ≤ f
  attached : ∀ c i, (a.place c).attached = some i → t.scheduler c = some i
  detached : ∀ c, c.home = none → (a.place c = .unborn ∨ ∃ i, a.place c = .ready i) →
    t.scheduler c = none
  /-- a pinned context stays on its thread -/
  pinned : ∀ c i, c.home = some i → (a.place c).thread = some i ∧ t.scheduler c = some i
  dispatcher : ∀ i, a.place (.dispatcher i) ≠ .blocked i

theorem home_of_isPinned (hc : c.isPinned = true) : ∃ i, c.home = some i := by
  cases c with
  | main i => exact ⟨i, rfl⟩
  | dispatcher i => exact ⟨i, rfl⟩
  | worker f => contradiction

theorem home_of_not_isPinned (hc : c.isPinned = false) : c.home = none := by
  cases c with
  | worker f => rfl
  | _ => contradiction

theorem holds_create : Holds (Threads.create : Threads n) Schedule.initial where
  fibers := rfl
  active := rfl
  active_iff c i := by
    cases c <;> simp [Schedule.initial, Threads.create, eq_comm]
  leaving_iff c i := by
    cases c <;> simp [Schedule.initial, Threads.create]
  ready_iff c i := by
    cases c <;> simp [Schedule.initial, Threads.create, eq_comm]
  nodup i := List.nodup_singleton _
  parked_iff c := by
    cases c <;> simp [Schedule.initial, Threads.create]
  unborn_iff c := by
    cases c <;> simp [Schedule.initial, Threads.create]
  attached c i hi := by
    cases c <;> simp_all [Schedule.initial, Threads.create, Place.attached]
  detached c hc _ := by
    cases c <;> simp_all [FiberContext.home, Threads.create]
  pinned c i hc := by
    cases c <;> simp_all [FiberContext.home, Schedule.initial, Threads.create, Place.thread]
  dispatcher i := by simp [Schedule.initial]

/-- The dispatcher of a thread that runs another context is ready to follow it. -/
theorem Holds.dispatcher_ready (h : Holds t a) (hleaving : t.leaving i = none)
    (hactive : t.active i ≠ .dispatcher i) : .dispatcher i ∈ t.ready i := by
  rw [← h.ready_iff]
  obtain ⟨hthread, -⟩ := h.pinned (.dispatcher i) i rfl
  cases hplace : a.place (.dispatcher i) with
  | ready j => grind
  | active j => grind [h.active_iff (.dispatcher i) j]
  | leaving j picked => grind [h.leaving_iff (.dispatcher i) j]
  | blocked j => grind [h.dispatcher i]
  | unborn => grind
  | finished => grind

/-- A thread passes from the context that it runs to one that is new or ready. -/
theorem Holds.switch (h : Holds t a) (hleaving : t.leaving i = none) (hsrc : a.place c = p)
    (hkind : p = .unborn ∨ ∃ j, p = .ready j)
    (hpinned : ∀ j, c.home = some j → j = i)
    (hdst : (∃ picked, q = .leaving i picked) ∨
      q = .blocked i ∧ t.active i ≠ .dispatcher i ∨ q = .finished ∧ (t.active i).home = none)
    (hready : ∀ j, t'.ready j = if p = .ready j then (t.ready j).erase c else t.ready j)
    (hactive : ∀ j, t'.active j = if j = i then c else t.active j)
    (hleaving' : ∀ j, t'.leaving j =
      if j = i then (if q = .blocked i ∨ q = .finished then none else some (t.active i))
      else t.leaving j)
    (hscheduler : ∀ d, t'.scheduler d = if d = c then some i else t.scheduler d)
    (hparked : ∀ d, t'.parked d = if q = .blocked i ∧ d = t.active i then true else t.parked d)
    (hfibers : ∀ f, t'.fibers ≤ f ↔ t.fibers ≤ f ∧ c ≠ .worker f)
    (ha : a'.fibers = t'.fibers) (ha' : a'.active = t'.active)
    (hplace : ∀ d, a'.place d =
      if d = c then .active i else if d = t.active i then q else a.place d) : Holds t' a' := by
  have hold : a.place (t.active i) = .active i := (h.active_iff _ _).mpr rfl
  have hne : t.active i ≠ c := by
    rintro rfl
    grind
  refine ⟨ha.symm, ha'.symm, fun d j ↦ ?_, fun d j ↦ ?_, fun d j ↦ ?_, fun j ↦ ?_, fun d ↦ ?_,
    fun d ↦ ?_, fun d j hd ↦ ?_, fun d hd hd' ↦ ?_, fun d j hd ↦ ?_, fun j ↦ ?_⟩
  · have := h.active_iff d j
    rw [hplace, hactive]
    grind
  · have := h.leaving_iff d j
    rw [hleaving']
    simp only [hplace]
    grind
  · have := h.ready_iff d j
    have := (h.nodup j).mem_erase_iff (a := d) (b := c)
    rw [hplace, hready]
    grind
  · rw [hready]
    split
    · exact (h.nodup j).erase c
    · exact h.nodup j
  · have := h.parked_iff d
    rw [hparked]
    simp only [hplace]
    grind
  · have := h.unborn_iff d
    rw [hplace]
    simp only [hfibers]
    grind
  · have := h.attached d j
    have := h.attached (t.active i) i (by rw [hold]; rfl)
    rw [hplace] at hd
    rw [hscheduler]
    grind
  · have := h.detached d hd
    simp only [hplace] at hd'
    rw [hscheduler]
    grind
  · obtain ⟨hthread, hd'⟩ := h.pinned d j hd
    rw [hplace, hscheduler]
    grind
  · have := h.dispatcher j
    rw [hplace]
    grind

/-- A context that is new, awakened or left behind is pushed. -/
theorem Holds.push (h : Holds t a) (hsrc : a.place c = p)
    (hkind : p = .unborn ∨ p = .blocked i ∨ ∃ picked, p = .leaving i picked)
    (hready : ∀ j, t'.ready j = if j = i then t.ready j ++ [c] else t.ready j)
    (hactive : t'.active = t.active)
    (hleaving : ∀ j, t'.leaving j = if t.leaving j = some c then none else t.leaving j)
    (hscheduler : ∀ d, t'.scheduler d = if d = c ∧ c.home = none then none else t.scheduler d)
    (hparked : ∀ d, t'.parked d = if d = c then false else t.parked d)
    (hfibers : ∀ f, t'.fibers ≤ f ↔ t.fibers ≤ f ∧ c ≠ .worker f)
    (ha : a'.fibers = t'.fibers) (ha' : a'.active = a.active)
    (hplace : ∀ d, a'.place d = if d = c then .ready i else a.place d) : Holds t' a' := by
  refine ⟨ha.symm, (hactive.trans h.active).trans ha'.symm, fun d j ↦ ?_, fun d j ↦ ?_,
    fun d j ↦ ?_, fun j ↦ ?_, fun d ↦ ?_, fun d ↦ ?_, fun d j hd ↦ ?_, fun d hd hd' ↦ ?_,
    fun d j hd ↦ ?_, fun j ↦ ?_⟩
  · have := h.active_iff d j
    rw [hplace, hactive]
    grind
  · have := h.leaving_iff d j
    rw [hleaving]
    simp only [hplace]
    grind
  · have := h.ready_iff d j
    rw [hplace, hready]
    grind
  · rw [hready]
    split
    · have hc : c ∉ t.ready j := by
        rw [← h.ready_iff]
        grind
      exact List.nodup_append'.mpr ⟨h.nodup j, List.nodup_singleton c, by simpa using hc⟩
    · exact h.nodup j
  · have := h.parked_iff d
    rw [hparked]
    simp only [hplace]
    grind
  · have := h.unborn_iff d
    rw [hplace]
    simp only [hfibers]
    grind
  · have := h.attached d j
    rw [hplace] at hd
    rw [hscheduler]
    grind
  · have := h.detached d hd
    simp only [hplace] at hd'
    rw [hscheduler]
    grind
  · obtain ⟨hthread, hd'⟩ := h.pinned d j hd
    have := h.unborn_iff d
    rw [hplace, hscheduler]
    grind [FiberContext.home]
  · have := h.dispatcher j
    rw [hplace]
    grind

end Ustevent.Scheduling
