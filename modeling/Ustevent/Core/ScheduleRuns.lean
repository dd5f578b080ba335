import Ustevent.Core.Scheduling

/-!
# Runs of the scheduling

Whatever the contexts, the threads that steal and the threads that awaken do, the state of the
strategies follows the schedule, over any boost that keeps to its laws.
-/

namespace Ustevent.Scheduling

open Reasoning ContextStrategy

variable {n : Nat} {B : Boost n} {debug : Bool} {s s' u : State B} {a a' : Schedule n}
  {i j : Fin n} {c old : FiberContext n} {p q : Place n} {f : Nat}

/-! ## The fibers that wait -/

/-- The fibers that wait on a thread are those that it has switched away from for another context,
and that have not terminated. -/
structure Orderly (a : Schedule n) : Prop where
  waiting_iff : ∀ f i, f ∈ a.waiting i ↔
    (a.place (.worker f) = .blocked i ∨ a.place (.worker f) = .leaving i true) ∧
      a.terminated f = false
  nodup : ∀ i, (a.waiting i).Nodup

theorem orderly_initial : Orderly (Schedule.initial : Schedule n) where
  waiting_iff f i := by simp [Schedule.initial]
  nodup _ := List.nodup_nil

@[simp] theorem place_waits (a : Schedule n) (i : Fin n) (c : FiberContext n) :
    (a.waits i c).place = a.place := by
  cases c <;> simp only [Schedule.waits]
  split <;> rfl

@[simp] theorem active_waits (a : Schedule n) (i : Fin n) (c : FiberContext n) :
    (a.waits i c).active = a.active := by
  cases c <;> simp only [Schedule.waits]
  split <;> rfl

@[simp] theorem fibers_waits (a : Schedule n) (i : Fin n) (c : FiberContext n) :
    (a.waits i c).fibers = a.fibers := by
  cases c <;> simp only [Schedule.waits]
  split <;> rfl

@[simp] theorem terminated_waits (a : Schedule n) (i : Fin n) (c : FiberContext n) :
    (a.waits i c).terminated = a.terminated := by
  cases c <;> simp only [Schedule.waits]
  split <;> rfl

@[simp] theorem place_awakes (a : Schedule n) (i : Fin n) (c : FiberContext n) :
    (a.awakes i c).place = a.place := by
  cases c <;> rfl

@[simp] theorem active_awakes (a : Schedule n) (i : Fin n) (c : FiberContext n) :
    (a.awakes i c).active = a.active := by
  cases c <;> rfl

@[simp] theorem fibers_awakes (a : Schedule n) (i : Fin n) (c : FiberContext n) :
    (a.awakes i c).fibers = a.fibers := by
  cases c <;> rfl

@[simp] theorem terminated_awakes (a : Schedule n) (i : Fin n) (c : FiberContext n) :
    (a.awakes i c).terminated = a.terminated := by
  cases c <;> rfl

/-- Which fibers wait does not depend on the places. -/
theorem waiting_waits (a : Schedule n) (place : FiberContext n → Place n)
    (active : Fin n → FiberContext n) (fibers : Nat) :
    (({ a with place, active, fibers } : Schedule n).waits i c).waiting =
      (a.waits i c).waiting := by
  cases c <;> simp only [Schedule.waits]
  split <;> rfl

theorem waiting_awakes (a : Schedule n) (place : FiberContext n → Place n) (fibers : Nat) :
    (({ a with place, fibers } : Schedule n).awakes i c).waiting = (a.awakes i c).waiting := by
  cases c <;> rfl

theorem mem_waits : f ∈ (a.waits i c).waiting j ↔
    f ∈ a.waiting j ∨ j = i ∧ c = .worker f ∧ a.terminated f = false := by
  cases c with
  | worker g =>
    simp only [Schedule.waits]
    split <;> grind
  | _ => simp [Schedule.waits]

theorem Orderly.mem_awakes (h : Orderly a) :
    f ∈ (a.awakes i c).waiting j ↔ f ∈ a.waiting j ∧ ¬ (j = i ∧ c = .worker f) := by
  cases c with
  | worker g =>
    have := (h.nodup j).mem_erase_iff (a := f) (b := g)
    simp only [Schedule.awakes]
    grind
  | _ => simp [Schedule.awakes]

theorem Orderly.nodup_waits (h : Orderly a) (hc : ∀ f, c = .worker f → f ∉ a.waiting i)
    (j : Fin n) : ((a.waits i c).waiting j).Nodup := by
  cases c with
  | worker f =>
    have hj := h.nodup j
    simp only [Schedule.waits]
    split
    · exact hj
    · by_cases hji : j = i
      · simp only [hji, if_true, List.nodup_append']
        refine ⟨h.nodup i, List.nodup_singleton f, ?_⟩
        rw [List.disjoint_singleton]
        exact hc f rfl
      · simpa only [hji, if_false] using hj
  | _ => exact h.nodup j

theorem Orderly.nodup_awakes (h : Orderly a) (j : Fin n) : ((a.awakes i c).waiting j).Nodup := by
  cases c with
  | worker f =>
    simp only [Schedule.awakes]
    split
    · exact (h.nodup j).erase f
    · exact h.nodup j
  | _ => exact h.nodup j

/-- A thread passes to a context that is not one of those that wait, and the other one waits. -/
theorem Orderly.switch (h : Orderly a) (hold : a.place old = .active i)
    (hc : a.place c = .unborn ∨ ∃ j, a.place c = .ready j)
    (hdst : q = .blocked i ∨ q = .leaving i true ∨
      q = .finished ∧ ∀ f, old = .worker f → a.terminated f = true)
    (hplace : ∀ d, a'.place d = if d = c then .active i else if d = old then q else a.place d)
    (hwaiting : a'.waiting = (a.waits i old).waiting) (hterminated : a'.terminated = a.terminated) :
    Orderly a' where
  waiting_iff f j := by
    have := h.waiting_iff f j
    rw [hwaiting, hterminated, mem_waits, hplace]
    grind
  nodup j := by
    rw [hwaiting]
    refine h.nodup_waits (fun f hf hmem ↦ ?_) j
    have := h.waiting_iff f i
    grind

/-- A context that starts on the thread leaves the other one behind. -/
theorem Orderly.start (h : Orderly a) (hold : a.place old = .active i) (hc : a.place c = .unborn)
    (hplace : ∀ d, a'.place d =
      if d = c then .active i else if d = old then .leaving i false else a.place d)
    (hwaiting : a'.waiting = a.waiting) (hterminated : a'.terminated = a.terminated) :
    Orderly a' where
  waiting_iff f j := by
    have := h.waiting_iff f j
    rw [hwaiting, hterminated, hplace]
    grind
  nodup j := by
    rw [hwaiting]
    exact h.nodup j

theorem Orderly.push (h : Orderly a)
    (hc : a.place c = .unborn ∨ a.place c = .blocked i ∨ ∃ picked, a.place c = .leaving i picked)
    (hplace : ∀ d, a'.place d = if d = c then .ready i else a.place d)
    (hwaiting : a'.waiting = (a.awakes i c).waiting) (hterminated : a'.terminated = a.terminated) :
    Orderly a' where
  waiting_iff f j := by
    have := h.waiting_iff f j
    rw [hwaiting, hterminated, h.mem_awakes, hplace]
    grind
  nodup j := by
    rw [hwaiting]
    exact h.nodup_awakes j

/-! ## The calls of the strategies -/

/-- The two levels of one state. -/
structure Represents (debug : Bool) (s : State B) (a : Schedule n) : Prop where
  holds : Holds s.threads a
  orderly : Orderly a
  terminated : ∀ f, (s.waiting.info (.fiber f)).terminated = a.terminated f
  linked : debug = true → Linked s.waiting a.waiting
  /-- only the dispatcher looks for a victim in the other queues -/
  tries : ∀ i, s.tries i ≠ none → s.threads.active i = .dispatcher i ∧ s.threads.leaving i = none

theorem represents_create (hB : B.Lawful) :
    Represents debug (State.create : State B) Schedule.initial where
  holds := by
    rw [State.threads, State.create, hB.create]
    exact holds_create
  orderly := orderly_initial
  terminated _ := rfl
  linked _ := linked_create
  tries _ h := absurd rfl h

theorem Boost.Lawful.exists_attach (hB : B.Lawful) {t : B.T}
    (hc : (B.view t).scheduler c = none) :
    ∃ t', B.attach t i c = some t' ∧ B.view t' = (B.view t).setScheduler c (some i) :=
  Option.map_eq_some_iff.mp (hB.attach t i c hc)

theorem Boost.Lawful.exists_detach (hB : B.Lawful) {t : B.T}
    (hc : (B.view t).scheduler c = some i) :
    ∃ t', B.detach t i c = some t' ∧ B.view t' = (B.view t).setScheduler c none :=
  Option.map_eq_some_iff.mp (hB.detach t i c hc)

theorem setScheduler_self {t : Threads n} (hc : t.scheduler c = some i) :
    t.setScheduler c (some i) = t := by
  have hsame : (fun d ↦ if d = c then some i else t.scheduler d) = t.scheduler := by
    funext d
    by_cases hd : d = c
    · rw [if_pos hd, hd, hc]
    · rw [if_neg hd]
  rw [Threads.setScheduler, hsame]

/-- What `pick_next` does with the victim, which is attached if it has been detached. -/
theorem picked_eq (hB : B.Lawful) (debug : Bool)
    (hpinned : c.isPinned = true → s.threads.scheduler c = some i)
    (hworker : c.isPinned = false → s.threads.scheduler c = none) :
    ∃ s', s.picked debug i c = some s' ∧
      s'.threads = s.threads.setScheduler c (some i) ∧ s'.tries = s.tries ∧
      s'.waiting =
        if debug then recordActive s.waiting i (s.threads.active i) else s.waiting := by
  rw [State.picked]
  cases hc : c.isPinned with
  | true =>
    rw [if_pos rfl, Option.map_some]
    exact ⟨_, rfl, (setScheduler_self (hpinned hc)).symm, rfl, rfl⟩
  | false =>
    obtain ⟨t', ht', hview⟩ := hB.exists_attach (i := i) (hworker hc)
    rw [if_neg Bool.false_ne_true, ht', Option.map_some]
    refine ⟨_, rfl, hview, rfl, ?_⟩
    rw [hview]
    rfl

/-- What `awakened` does with a context of its thread, which is detached if it is not pinned. -/
theorem awakened_eq (hB : B.Lawful) {w : WaitingFibers (Fin n)}
    (hc : s.threads.scheduler c = some i)
    (hw : (if debug then eraseAwakened s.waiting i c else some s.waiting) = some w) :
    ∃ s', s.awakened debug i c = some s' ∧
      s'.threads = { s.threads.push i c with
        scheduler := fun d ↦ if d = c ∧ c.home = none then none else s.threads.scheduler d } ∧
      s'.tries = s.tries ∧ s'.waiting = w := by
  rw [State.awakened, hw]
  cases hpinned : c.isPinned with
  | true =>
    rw [if_pos rfl]
    refine ⟨_, rfl, ?_, rfl, rfl⟩
    obtain ⟨j, hj⟩ := home_of_isPinned hpinned
    simp [State.threads, hB.push, Threads.push, hj]
  | false =>
    obtain ⟨t', ht', hview⟩ := hB.exists_detach hc
    rw [if_neg Bool.false_ne_true, ht']
    refine ⟨_, rfl, ?_, rfl, rfl⟩
    simp [State.threads, hB.push, hview, Threads.push, Threads.setScheduler,
      home_of_not_isPinned hpinned]

theorem terminated_recordActive (w : WaitingFibers (Fin n)) (i : Fin n) (c : FiberContext n)
    (f : Nat) : ((recordActive w i c).info (.fiber f)).terminated =
      (w.info (.fiber f)).terminated := by
  cases c with
  | worker g => exact terminated_recordBacktrace _ _ _ _
  | _ => rfl

/-- A fiber that has not been waiting is recorded. -/
theorem Represents.record (h : Represents debug s a) (hold : a.place old = .active i)
    (hdebug : debug = true) :
    Linked (recordActive s.waiting i old) (a.waits i old).waiting := by
  cases old with
  | worker f =>
    have hnot : ∀ j, f ∉ a.waiting j := by
      intro j hmem
      have := (h.orderly.waiting_iff f j).mp hmem
      grind
    have hlinked := h.linked hdebug
    have hterminated := h.terminated f
    cases hf : a.terminated f with
    | true =>
      rw [hf] at hterminated
      simpa [Schedule.waits, recordActive, WaitingFibers.recordBacktrace, hf,
        hterminated] using hlinked
    | false =>
      rw [hf] at hterminated
      simpa [Schedule.waits, recordActive, hf] using
        hlinked.record i hnot hterminated
  | _ => exact h.linked hdebug

/-- A fiber is erased by the strategy that has recorded it. -/
theorem Represents.erase (h : Represents debug s a) (hdebug : debug = true)
    (hc : ∀ j, (a.place c = .blocked j ∨ a.place c = .leaving j true) → j = i) :
    ∃ w, eraseAwakened s.waiting i c = some w ∧ Linked w (a.awakes i c).waiting := by
  have hlinked := h.linked hdebug
  cases c with
  | worker f =>
    by_cases hf : f ∈ a.waiting i
    · obtain ⟨w, hw, hw'⟩ := hlinked.erase hf
      exact ⟨w, hw, hw'⟩
    · have hnot : ∀ j, f ∉ a.waiting j := by
        intro j hmem
        have hj := hc j ((h.orderly.waiting_iff f j).mp hmem).1
        exact hf (hj ▸ hmem)
      have hsame : (a.awakes i (.worker f)).waiting = a.waiting := by
        funext j
        simp [Schedule.awakes, List.erase_of_not_mem (hnot j)]
      rw [hsame]
      exact ⟨s.waiting, hlinked.eraseBacktrace_of_not_mem i hnot, hlinked⟩
  | _ => exact ⟨s.waiting, rfl, hlinked⟩

/-! ## Steps -/

@[simp] theorem ready_resume (t : Threads n) (reason : Reason) :
    (t.resume i c reason).ready = t.ready := by
  cases reason <;> rfl

@[simp] theorem active_resume (t : Threads n) (reason : Reason) :
    (t.resume i c reason).active = fun j ↦ if j = i then c else t.active j := by
  cases reason <;> rfl

@[simp] theorem leaving_resume (t : Threads n) (reason : Reason) :
    (t.resume i c reason).leaving = fun j ↦
      if j = i then (if reason = .yield then some (t.active i) else none) else t.leaving j := by
  cases reason <;> rfl

@[simp] theorem scheduler_resume (t : Threads n) (reason : Reason) :
    (t.resume i c reason).scheduler = t.scheduler := by
  cases reason <;> rfl

@[simp] theorem parked_resume (t : Threads n) (reason : Reason) :
    (t.resume i c reason).parked = fun d ↦
      if reason = .suspend ∧ d = t.active i then true else t.parked d := by
  cases reason <;> simp [Threads.resume, Threads.switch, Threads.setParked]

@[simp] theorem fibers_resume (t : Threads n) (reason : Reason) :
    (t.resume i c reason).fibers = t.fibers := by
  cases reason <;> rfl

theorem switch_eq (hactive : a.place (a.active i) = .active i) (hc : a.place c = p)
    (hne : c ≠ a.active i) :
    a.switch i c p q = some
      { a with
        place := fun d ↦ if d = c then .active i else if d = a.active i then q else a.place d
        active := fun j ↦ if j = i then c else a.active j } := by
  simp [Schedule.switch, Schedule.move, hactive, hc, hne]

theorem Represents.place_active (h : Represents debug s a) (i : Fin n) :
    a.place (a.active i) = .active i := by
  rw [h.holds.active_iff, h.holds.active]

/-- What a thread that looks for a victim runs. -/
theorem Represents.isSome_tries (h : Represents debug s a) (htries : (s.tries i).isSome = true) :
    s.threads.active i = .dispatcher i ∧ s.threads.leaving i = none := by
  refine h.tries i fun hnone ↦ ?_
  rw [hnone] at htries
  contradiction

/-- Only `i` of `pick_next` differs, on a thread that runs its dispatcher. -/
theorem Represents.setTries (h : Represents debug s a) (hthreads : s'.threads = s.threads)
    (hwaiting : s'.waiting = s.waiting)
    (hactive : s.threads.active i = .dispatcher i) (hleaving : s.threads.leaving i = none)
    (htries : ∀ k, k ≠ i → s'.tries k = s.tries k) : Represents debug s' a where
  holds := hthreads ▸ h.holds
  orderly := h.orderly
  terminated f := by
    rw [hwaiting]
    exact h.terminated f
  linked hdebug := by
    rw [hwaiting]
    exact h.linked hdebug
  tries k hk := by
    rw [hthreads]
    by_cases hki : k = i
    · rw [hki]
      exact ⟨hactive, hleaving⟩
    · rw [htries k hki] at hk
      exact h.tries k hk

/-- The thread `i` passes to a context that it has taken from the queue of the strategy `j`. -/
theorem Represents.switch (h : Represents debug s a) (reason : Reason)
    (hleaving : s.threads.leaving i = none) (hc : c ∈ s.threads.ready j)
    (hpinned : c.isPinned = true → j = i)
    (hsuspend : reason = .suspend → a.active i ≠ .dispatcher i)
    (hterminate : reason = .terminate → ∃ f, a.active i = .worker f ∧ a.terminated f = true)
    (hthreads : s'.threads =
      ((s.threads.take j c).setScheduler c (some i)).resume i c reason)
    (htries : ∀ k, s'.tries k ≠ none → k ≠ i ∧ s.tries k ≠ none)
    (hwaiting : s'.waiting =
      if debug then recordActive s.waiting i (a.active i) else s.waiting) :
    ∃ a', (a.switch i c (.ready j) (reason.place i)).map (·.waits i (a.active i)) = some a' ∧
      Represents debug s' a' := by
  have hold := h.place_active i
  have hactive := h.holds.active
  have hplace : a.place c = .ready j := (h.holds.ready_iff c j).mpr hc
  have hne : c ≠ a.active i := by grind
  have hhome : ∀ k, c.home = some k → k = i := by
    intro k hk
    have hthread := (h.holds.pinned c k hk).1
    rw [hplace, Place.thread, Option.some.injEq] at hthread
    refine hthread.symm.trans (hpinned ?_)
    cases c with
    | worker f => contradiction
    | _ => rfl
  rw [switch_eq hold hplace hne, Option.map_some]
  refine ⟨_, rfl, ?_, ?_, fun f ↦ ?_, fun hdebug ↦ ?_, fun k hk ↦ ?_⟩
  · refine h.holds.switch (q := reason.place i) hleaving hplace (Or.inr ⟨j, rfl⟩) hhome ?_
      (fun k ↦ ?_) (fun k ↦ ?_) (fun k ↦ ?_) (fun d ↦ ?_) (fun d ↦ ?_) (fun f ↦ ?_) ?_ ?_ ?_
    · rw [hactive]
      cases reason with
      | suspend => exact Or.inr (Or.inl ⟨rfl, hsuspend rfl⟩)
      | yield => exact Or.inl ⟨true, rfl⟩
      | terminate =>
        obtain ⟨f, hf, -⟩ := hterminate rfl
        exact Or.inr (Or.inr ⟨rfl, by rw [hf]; rfl⟩)
    · have htake : (s.threads.take j c).ready k =
          if k = j then (s.threads.ready k).erase c else s.threads.ready k := rfl
      rw [hthreads, ready_resume]
      simp only [Threads.setScheduler, htake, Place.ready.injEq, eq_comm]
    · rw [hthreads, active_resume]
      rfl
    · rw [hthreads, leaving_resume, hactive]
      cases reason <;> simp [Reason.place, Threads.setScheduler, Threads.take, hactive]
    · rw [hthreads, scheduler_resume]
      rfl
    · rw [hthreads, parked_resume, hactive]
      cases reason <;> simp [Reason.place, Threads.setScheduler, Threads.take, hactive]
    · have := h.holds.unborn_iff c
      rw [hthreads, fibers_resume]
      simp only [Threads.setScheduler, Threads.take]
      grind
    · rw [hthreads, fibers_resume, fibers_waits, ← h.holds.fibers]
      rfl
    · rw [hthreads, active_resume, active_waits, ← hactive]
      rfl
    · intro d
      rw [place_waits, hactive]
  · refine h.orderly.switch (q := reason.place i) hold (Or.inr ⟨j, hplace⟩) ?_ ?_
      (waiting_waits a _ _ _) (by simp)
    · cases reason with
      | suspend => exact Or.inl rfl
      | yield => exact Or.inr (Or.inl rfl)
      | terminate =>
        obtain ⟨f, hf, hf'⟩ := hterminate rfl
        refine Or.inr (Or.inr ⟨rfl, fun g hg ↦ ?_⟩)
        rw [hf, FiberContext.worker.injEq] at hg
        rwa [← hg]
    · simp
  · rw [hwaiting, terminated_waits, ← h.terminated f]
    cases debug with
    | true => exact terminated_recordActive _ _ _ _
    | false => rfl
  · rw [hwaiting, if_pos hdebug, waiting_waits]
    exact h.record hold hdebug
  · obtain ⟨hki, hk⟩ := htries k hk
    obtain ⟨hk, hk'⟩ := h.tries k hk
    rw [hthreads, active_resume, leaving_resume]
    simp [Threads.setScheduler, Threads.take, hki, hk, hk']

/-- A context of the thread, or a new one, is awakened. -/
theorem Represents.push (h : Represents debug s a) (hB : B.Lawful) {b : Schedule n}
    (hkind : a.place c = .unborn ∨ a.place c = .blocked i ∨
      ∃ picked, a.place c = .leaving i picked)
    (hready : u.threads.ready = s.threads.ready) (hactive : u.threads.active = s.threads.active)
    (hleaving : ∀ j, u.threads.leaving j =
      if s.threads.leaving j = some c then none else s.threads.leaving j)
    (hscheduler : ∀ d, u.threads.scheduler d = if d = c then some i else s.threads.scheduler d)
    (hparked : ∀ d, u.threads.parked d = if d = c then false else s.threads.parked d)
    (hfibers : ∀ f, u.threads.fibers ≤ f ↔ s.threads.fibers ≤ f ∧ c ≠ .worker f)
    (htries : u.tries = s.tries) (hu : u.waiting = s.waiting)
    (hb : b.fibers = u.threads.fibers) (hb' : b.active = a.active)
    (hplace : ∀ d, b.place d = if d = c then .ready i else a.place d)
    (hwaiting : b.waiting = (a.awakes i c).waiting) (hterminated : b.terminated = a.terminated) :
    ∃ s', u.awakened debug i c = some s' ∧ Represents debug s' b := by
  have hown : ∀ j, a.place c = .blocked j ∨ a.place c = .leaving j true → j = i := by grind
  have herase : ∃ w, (if debug then eraseAwakened u.waiting i c else some u.waiting) = some w ∧
      (debug = true → Linked w (a.awakes i c).waiting) ∧
      ∀ f, (w.info (.fiber f)).terminated = (s.waiting.info (.fiber f)).terminated := by
    rw [hu]
    cases debug with
    | false => exact ⟨s.waiting, rfl, fun hdebug ↦ absurd hdebug Bool.false_ne_true, fun _ ↦ rfl⟩
    | true =>
      obtain ⟨w, hw, hlinked⟩ := h.erase rfl hown
      refine ⟨w, hw, fun _ ↦ hlinked, fun f ↦ ?_⟩
      cases c with
      | worker g => exact terminated_eraseBacktrace hw _
      | _ => exact congrArg _ (congrArg (WaitingFibers.info · _) (Option.some.inj hw)).symm
  obtain ⟨w, hw, hlinked, hkept⟩ := herase
  obtain ⟨s', hs', hthreads, htries', hwaiting'⟩ :=
    awakened_eq hB ((hscheduler c).trans (if_pos rfl)) hw
  refine ⟨s', hs', ?_, h.orderly.push hkind hplace hwaiting hterminated, fun f ↦ ?_,
    fun hdebug ↦ ?_, fun k hk ↦ ?_⟩
  · refine h.holds.push (i := i) rfl (by grind) (fun j ↦ ?_) ?_ (fun j ↦ ?_) (fun d ↦ ?_)
      (fun d ↦ ?_) (fun f ↦ ?_) ?_ hb' hplace
    · simp only [hthreads, Threads.push, hready]
    · rw [hthreads]
      exact hactive
    · rw [hthreads]
      exact hleaving j
    · have := h.holds.unborn_iff c
      simp only [hthreads, hscheduler]
      grind [FiberContext.home, h.holds.attached c i]
    · rw [hthreads]
      exact hparked d
    · rw [hthreads]
      exact hfibers f
    · rw [hthreads]
      exact hb
  · rw [hterminated, hwaiting', hkept, h.terminated]
  · rw [hwaiting, hwaiting']
    exact hlinked hdebug
  · rw [htries', htries] at hk
    obtain ⟨hk, hk'⟩ := h.tries k hk
    have hleaving' : s'.threads.leaving k = u.threads.leaving k := by rw [hthreads]; rfl
    have hactive' : s'.threads.active k = u.threads.active k := by rw [hthreads]; rfl
    rw [hactive', hactive, hleaving', hleaving, hk', if_neg (Option.some_ne_none c).symm]
    exact ⟨hk, rfl⟩

/-- What the sources do from the state `s`, once boost has begun, fails nowhere, and the schedule
follows. -/
def Agrees (debug : Bool) (s : State B) (a : Schedule n) (action : Action n) : Prop :=
  ∃ s' a', s.perform debug action = some s' ∧ a.step action = some a' ∧ Represents debug s' a'

theorem agrees_of {action : Action n} (hperform : s.perform debug action = some s')
    (hstep : ∃ a', a.step action = some a' ∧ Represents debug s' a') :
    Agrees debug s a action := by
  obtain ⟨a', hstep, h'⟩ := hstep
  exact ⟨s', a', hperform, hstep, h'⟩

theorem Represents.unborn (h : Represents debug s a) :
    a.place (.worker a.fibers) = .unborn ∧ s.threads.scheduler (.worker a.fibers) = none := by
  have hplace : a.place (.worker a.fibers) = .unborn :=
    (h.holds.unborn_iff _).mpr ⟨a.fibers, rfl, Nat.le_of_eq h.holds.fibers⟩
  exact ⟨hplace, h.holds.detached _ rfl (Or.inl hplace)⟩

/-- The new context is attached to the scheduler of the thread. -/
theorem Represents.attach (h : Represents debug s a) (hB : B.Lawful) (i : Fin n) :
    ∃ boost, B.attach (B.makeContext s.boost) i (.worker a.fibers) = some boost ∧
      B.view boost = { s.threads with
        fibers := a.fibers + 1
        scheduler := fun d ↦ if d = .worker a.fibers then some i else s.threads.scheduler d } := by
  obtain ⟨boost, hboost, hview⟩ := hB.exists_attach (t := B.makeContext s.boost)
    (i := i) (c := .worker a.fibers) (by rw [hB.makeContext]; exact h.unborn.2)
  refine ⟨boost, hboost, ?_⟩
  rw [hview, hB.makeContext, ← h.holds.fibers]
  rfl

theorem Represents.post (h : Represents debug s a) (hB : B.Lawful) :
    Agrees debug s a (.start i false) := by
  have hplace := h.unborn.1
  have hstep : a.step (.start i false) = some
      { a with
        place := fun d ↦ if d = .worker a.fibers then .ready i else a.place d
        fibers := a.fibers + 1 } := by
    simp [Schedule.step, Schedule.move, hplace]
  have hnot : ∀ j, a.fibers ∉ a.waiting j := by
    intro j hmem
    have := (h.orderly.waiting_iff _ j).mp hmem
    grind
  obtain ⟨boost, hboost, hview⟩ := h.attach hB i
  have hpush := h.push hB (i := i) (c := .worker a.fibers) (u := { s with boost }) (Or.inl hplace)
    (b := { a with
        place := fun d ↦ if d = .worker a.fibers then .ready i else a.place d
        fibers := a.fibers + 1 })
    (by rw [State.threads, hview]) (by rw [State.threads, hview]) (fun j ↦ ?_)
    (fun d ↦ by rw [State.threads, hview]) (fun d ↦ ?_) (fun f ↦ ?_) rfl rfl
    (by rw [State.threads, hview]) rfl (fun _ ↦ rfl) ?_ rfl
  · obtain ⟨s', hs', hrepresents⟩ := hpush
    refine ⟨s', _, ?_, hstep, hrepresents⟩
    simp [State.perform, h.holds.fibers, hboost, hs']
  · have := h.holds.leaving_iff (.worker a.fibers) j
    rw [State.threads, hview]
    grind
  · have := h.holds.parked_iff (.worker a.fibers)
    rw [State.threads, hview]
    grind
  · rw [State.threads, hview, h.holds.fibers]
    grind
  · funext j
    simp [Schedule.awakes, List.erase_of_not_mem (hnot j)]

theorem Represents.dispatch (h : Represents debug s a) (hB : B.Lawful) (htries : s.tries i = none)
    (hleaving : s.threads.leaving i = none) : Agrees debug s a (.start i true) := by
  have hplace := h.unborn.1
  have hactive := h.holds.active
  have hold := h.place_active i
  have hne : FiberContext.worker a.fibers ≠ a.active i := by grind
  obtain ⟨boost, hboost, hview⟩ := h.attach hB i
  have hperform : s.perform debug (.start i true) =
      some { s with boost := B.dispatch boost i (.worker a.fibers) } := by
    simp [State.perform, h.holds.fibers, hboost]
  have hthreads : B.view (B.dispatch boost i (.worker a.fibers)) = _ :=
    (hB.dispatch _ _ _).trans (congrArg (Threads.resume · i (.worker a.fibers) .yield) hview)
  have hstep : a.step (.start i true) = _ :=
    switch_eq (a := { a with fibers := a.fibers + 1 }) hold hplace hne
  refine ⟨_, _, hperform, hstep, ?_, h.orderly.start hold hplace ?_ rfl rfl, h.terminated, h.linked,
    fun k hk ↦ ?_⟩
  · rw [State.threads, hthreads]
    refine h.holds.switch (q := .leaving i false) hleaving hplace (Or.inl rfl)
      (fun _ hj ↦ absurd hj (Option.some_ne_none _).symm) (Or.inl ⟨false, rfl⟩) (fun j ↦ ?_)
      (fun j ↦ ?_) (fun j ↦ ?_) (fun d ↦ ?_) (fun d ↦ ?_) (fun f ↦ ?_) ?_ ?_ (fun d ↦ ?_)
    · rw [ready_resume, if_neg (by simp)]
    · rw [active_resume]
    · simp
    · rw [scheduler_resume]
    · simp
    · rw [fibers_resume, h.holds.fibers]
      grind
    · rw [fibers_resume]
    · rw [active_resume, hactive]
    · simp [hactive]
  · simp
  · have hki : k ≠ i := by
      rintro rfl
      exact hk htries
    obtain ⟨hk, hk'⟩ := h.tries k hk
    rw [State.threads, hthreads]
    simp [hki, hk, hk']

/-- `pick_next` has taken the victim from the queue of the strategy `j`, and the thread `i` passes
to it. -/
theorem Represents.resume (h : Represents debug s a) (hB : B.Lawful) (reason : Reason)
    (hleaving : s.threads.leaving i = none) (hc : c ∈ s.threads.ready j)
    (hpinned : c.isPinned = true → j = i)
    (hsuspend : reason = .suspend → a.active i ≠ .dispatcher i)
    (hterminate : reason = .terminate → ∃ f, a.active i = .worker f ∧ a.terminated f = true)
    (hu : u.threads = s.threads.take j c) (hu' : u.waiting = s.waiting)
    (htries : ∀ k, u.tries k ≠ none → k ≠ i ∧ s.tries k ≠ none) :
    ∃ v, u.picked debug i c = some v ∧ ∃ a',
      (a.switch i c (.ready j) (reason.place i)).map (·.waits i (a.active i)) = some a' ∧
      Represents debug { v with boost := B.resume v.boost i c reason } a' := by
  have hplace : a.place c = .ready j := (h.holds.ready_iff c j).mpr hc
  have hpinned' : c.isPinned = true → u.threads.scheduler c = some i := by
    intro hc
    obtain ⟨k, hk⟩ := home_of_isPinned hc
    obtain ⟨hthread, hk⟩ := h.holds.pinned c k hk
    rw [hplace, Place.thread, Option.some.injEq, hpinned hc] at hthread
    rw [hu, hthread]
    exact hk
  have hworker : c.isPinned = false → u.threads.scheduler c = none := by
    intro hc
    rw [hu]
    exact h.holds.detached c (home_of_not_isPinned hc) (Or.inr ⟨j, hplace⟩)
  obtain ⟨v, hv, hthreads, hvtries, hwaiting⟩ := picked_eq hB debug hpinned' hworker
  refine ⟨v, hv, h.switch reason hleaving hc hpinned hsuspend hterminate ?_ ?_ ?_⟩
  · rw [State.threads, hB.resume, ← hu]
    exact congrArg (Threads.resume · i c reason) hthreads
  · rw [hvtries]
    exact htries
  · rw [hwaiting, hu, hu', ← h.holds.active]
    rfl

theorem picks_iff {reason : Reason} : s.picks i reason = true ↔
    s.tries i = none ∧ B.picks s.boost i reason = true ∧
      (reason = .terminate → s.ended i = true) := by
  rw [State.picks, Bool.and_eq_true, Bool.and_eq_true, beq_iff_eq, and_assoc]
  cases reason <;> simp

theorem Represents.pop (h : Represents debug s a) (hB : B.Lawful) {reason : Reason} {boost : B.T}
    (hpicks : s.picks i reason = true) (hpop : B.pop s.boost i (some c) = some boost) :
    Agrees debug { s with boost } a (.pop i c reason) := by
  obtain ⟨htries, hpicks, hended⟩ := picks_iff.mp hpicks
  obtain ⟨hleaving, hsuspend, hterminate⟩ := hB.picks _ _ _ hpicks
  obtain ⟨hc, hview⟩ := hB.pop _ _ _ _ hpop
  have hactive := h.holds.active
  have hresume := h.resume hB reason (u := { s with boost }) hleaving hc (fun _ ↦ rfl)
    (fun hr ↦ ?_) (fun hr ↦ ?_) hview rfl (fun k hk ↦ ⟨?_, hk⟩)
  · obtain ⟨v, hv, a', ha', h'⟩ := hresume
    refine ⟨_, a', ?_, ha', h'⟩
    rw [State.perform, hv]
    rfl
  · rw [← hactive]
    exact hsuspend hr
  · obtain ⟨f, hf⟩ := hterminate hr
    have hf' := hended hr
    rw [State.ended, State.threads, hf] at hf'
    rw [← hactive]
    exact ⟨f, hf, (h.terminated f).symm.trans hf'⟩
  · rintro rfl
    exact hk htries

theorem Represents.steal (h : Represents debug s a) (hB : B.Lawful) {boost : B.T}
    (htries : (s.tries i).isSome = true) (hsteal : B.steal s.boost j (some c) = some boost) :
    Agrees debug { s with boost } a (.steal i j (some c)) := by
  obtain ⟨hdispatcher, hleaving⟩ := h.isSome_tries htries
  obtain ⟨hc, hpinned, hview⟩ := hB.steal _ _ _ _ hsteal
  have hresume := h.resume hB .yield
    (u := ({ s with boost } : State B).setTries i none) hleaving hc
    (fun hc ↦ absurd hc (by simp [hpinned])) nofun nofun hview rfl (fun k hk ↦ ?_)
  · obtain ⟨v, hv, a', ha', h'⟩ := hresume
    refine ⟨_, a', ?_, ?_, h'⟩
    · rw [State.perform, hpinned, if_neg Bool.false_ne_true, hv]
      rfl
    · rw [Schedule.step, hpinned, if_neg Bool.false_ne_true]
      exact ha'
  · by_cases hki : k = i
    · simp [State.setTries, hki] at hk
    · simp only [State.setTries, hki, if_false] at hk
      exact ⟨hki, hk⟩

/-- Only the dispatcher finds its queue empty, since it is ready while another context runs. -/
theorem Represents.popNull (h : Represents debug s a) (hB : B.Lawful) {reason : Reason}
    {boost : B.T} (hpicks : s.picks i reason = true)
    (hpop : B.pop s.boost i none = some boost) :
    Agrees debug { s with boost } a (.popNull i reason) := by
  obtain ⟨hleaving, -, -⟩ := hB.picks _ _ _ (picks_iff.mp hpicks).2.1
  obtain ⟨hempty, hview⟩ := hB.popNull _ _ _ hpop
  have hactive : s.threads.active i = .dispatcher i := by
    by_contra hne
    have hmem := h.holds.dispatcher_ready hleaving hne
    rw [State.threads, hempty] at hmem
    contradiction
  have hactive' : (B.view boost).active i = .dispatcher i := by
    rw [hview]
    exact hactive
  exact agrees_of (if_pos hactive')
    ⟨a, rfl, h.setTries hview rfl hactive hleaving fun k hk ↦ if_neg hk⟩

theorem Represents.draw (h : Represents debug s a) {boost : B.T}
    (htries : (s.tries i).isSome = true) (hview : B.view boost = s.threads) :
    Agrees debug { s with boost } a (.steal i j none) := by
  obtain ⟨hactive, hleaving⟩ := h.isSome_tries htries
  exact agrees_of rfl
    ⟨a, rfl, h.setTries hview rfl hactive hleaving fun k hk ↦ if_neg hk⟩

/-- A context that is blocked on the thread, or that has given it up, is ready again. -/
theorem Represents.awakes (h : Represents debug s a) (hB : B.Lawful)
    (hkind : a.place c = .blocked i ∨ ∃ picked, a.place c = .leaving i picked)
    (hthreads : u.threads = { s.threads with
      leaving := fun j ↦ if s.threads.leaving j = some c then none else s.threads.leaving j
      parked := fun d ↦ if d = c then false else s.threads.parked d })
    (htries : u.tries = s.tries) (hwaiting : u.waiting = s.waiting) :
    ∃ s', u.awakened debug i c = some s' ∧ Represents debug s'
      (({ a with place := fun d ↦ if d = c then .ready i else a.place d } : Schedule n).awakes i
        c) := by
  have hattached : s.threads.scheduler c = some i := by
    refine h.holds.attached c i ?_
    rcases hkind with hplace | ⟨picked, hplace⟩ <;> rw [hplace] <;> rfl
  have hborn := h.holds.unborn_iff c
  refine h.push hB (Or.inr hkind) (by rw [hthreads]) (by rw [hthreads]) (fun j ↦ by rw [hthreads])
    (fun d ↦ ?_) (fun d ↦ by rw [hthreads]) (fun f ↦ ?_) htries hwaiting ?_ (by simp) (by simp)
    (waiting_awakes a _ _) (by simp)
  · rw [hthreads]
    grind
  · rw [hthreads]
    grind
  · rw [hthreads, fibers_awakes, ← h.holds.fibers]

theorem Represents.schedule (h : Represents debug s a) (hB : B.Lawful) {boost : B.T}
    (hschedule : B.schedule s.boost i c = some boost) :
    Agrees debug { s with boost } a (.schedule i c) := by
  obtain ⟨hc, hview⟩ := hB.schedule _ _ _ _ hschedule
  obtain ⟨picked, hplace⟩ := (h.holds.leaving_iff c i).mpr hc
  have hscheduler : (B.view boost).scheduler c = some i := by
    rw [hview]
    exact h.holds.attached c i (by rw [hplace]; rfl)
  have hstep : a.step (.schedule i c) = some
      (({ a with place := fun d ↦ if d = c then .ready i else a.place d } : Schedule n).awakes i
        c) := by
    simp [Schedule.step, Schedule.move, hplace]
  have hleaving : (fun j ↦ if j = i then none else s.threads.leaving j) =
      fun j ↦ if s.threads.leaving j = some c then none else s.threads.leaving j := by
    funext j
    have := h.holds.leaving_iff c j
    grind
  have hparked : s.threads.parked =
      fun d ↦ if d = c then false else s.threads.parked d := by
    funext d
    have := h.holds.parked_iff c
    grind
  obtain ⟨s', hs', h'⟩ := h.awakes (u := { s with boost }) hB (Or.inr ⟨picked, hplace⟩) (by
    rw [State.threads, hview, ← hleaving, ← hparked]
    rfl) rfl rfl
  refine ⟨s', _, ?_, hstep, h'⟩
  rw [State.perform, State.threads, if_pos hscheduler]
  exact hs'

theorem Represents.wake (h : Represents debug s a) (hB : B.Lawful) {boost : B.T}
    (hwake : B.wake s.boost i c = some boost) : Agrees debug { s with boost } a (.wake i c) := by
  obtain ⟨hparked, hscheduler, hview⟩ := hB.wake _ _ _ _ hwake
  obtain ⟨j, hplace⟩ := (h.holds.parked_iff c).mp hparked
  have hj : s.threads.scheduler c = some j := h.holds.attached c j (by rw [hplace]; rfl)
  obtain rfl : j = i := Option.some.inj (hj.symm.trans hscheduler)
  have hstep : a.step (.wake j c) = some
      (({ a with place := fun d ↦ if d = c then .ready j else a.place d } : Schedule n).awakes j
        c) := by
    simp [Schedule.step, Schedule.move, hplace]
  have hleaving : s.threads.leaving =
      fun k ↦ if s.threads.leaving k = some c then none else s.threads.leaving k := by
    funext k
    have := h.holds.leaving_iff c k
    grind
  obtain ⟨s', hs', h'⟩ := h.awakes (u := { s with boost }) hB (Or.inl hplace) (by
    rw [State.threads, hview, ← hleaving]
    rfl) rfl rfl
  exact ⟨s', _, hs', hstep, h'⟩

theorem Represents.setTerminated (h : Represents debug s a) :
    Agrees debug s a (.setTerminated i) := by
  have hold := h.place_active i
  have hactive := h.holds.active
  cases hf : a.active i with
  | worker f =>
    have hperform : s.perform debug (.setTerminated i) = some
        { s with waiting := s.waiting.setTerminated (.fiber f) } := by
      simp [State.perform, hactive, hf]
    have hstep : a.step (.setTerminated i) = some
        { a with terminated := fun g ↦ if g = f then true else a.terminated g } := by
      simp [Schedule.step, hf]
    rw [hf] at hold
    refine ⟨_, _, hperform, hstep, ?_, ?_, fun g ↦ ?_, fun hdebug ↦ ?_, h.tries⟩
    · exact ⟨h.holds.fibers, h.holds.active, h.holds.active_iff, h.holds.leaving_iff,
        h.holds.ready_iff, h.holds.nodup, h.holds.parked_iff, h.holds.unborn_iff,
        h.holds.attached, h.holds.detached, h.holds.pinned, h.holds.dispatcher⟩
    · refine ⟨fun g j ↦ ?_, h.orderly.nodup⟩
      -- it runs, so it does not wait
      have := h.orderly.waiting_iff g j
      grind
    · simp only [WaitingFibers.setTerminated, Node.fiber.injEq]
      by_cases hgf : g = f
      · rw [if_pos hgf, if_pos hgf]
      · rw [if_neg hgf, if_neg hgf]
        exact h.terminated g
    · exact (h.linked hdebug).setTerminated _
  | _ =>
    refine ⟨s, a, ?_, ?_, h⟩
    · simp [State.perform, hactive, hf]
    · simp [Schedule.step, hf]

/-- Whatever happens next, no call of the sources fails, and the schedule follows. -/
theorem Represents.agrees (h : Represents debug s a) (hB : B.Lawful) {action : Action n}
    (hbegin : s.begin action = some u) : Agrees debug u a action := by
  cases action with
  | start i dispatch =>
    obtain ⟨⟨htries, hruns⟩, hu⟩ := Option.ite_none_right_eq_some.mp hbegin
    obtain rfl := Option.some.inj hu
    cases dispatch with
    | true => exact h.dispatch hB htries (hB.runs _ _ hruns)
    | false => exact h.post hB
  | pop i c reason =>
    obtain ⟨hpicks, hu⟩ := Option.ite_none_right_eq_some.mp hbegin
    obtain ⟨boost, hpop, rfl⟩ := Option.map_eq_some_iff.mp hu
    exact h.pop hB hpicks hpop
  | popNull i reason =>
    obtain ⟨hpicks, hu⟩ := Option.ite_none_right_eq_some.mp hbegin
    obtain ⟨boost, hpop, rfl⟩ := Option.map_eq_some_iff.mp hu
    exact h.popNull hB hpicks hpop
  | steal i j victim =>
    obtain ⟨htries, hu⟩ := Option.ite_none_right_eq_some.mp hbegin
    by_cases hij : i = j
    · rw [if_pos hij, Option.ite_none_right_eq_some] at hu
      obtain ⟨rfl, hu⟩ := hu
      obtain rfl := Option.some.inj hu
      exact h.draw htries rfl
    · rw [if_neg hij] at hu
      obtain ⟨boost, hsteal, rfl⟩ := Option.map_eq_some_iff.mp hu
      cases victim with
      | none => exact h.draw htries (hB.stealNull _ _ _ hsteal)
      | some c => exact h.steal hB htries hsteal
  | schedule i c =>
    obtain ⟨boost, hschedule, rfl⟩ := Option.map_eq_some_iff.mp hbegin
    exact h.schedule hB hschedule
  | wake i c =>
    obtain ⟨-, hu⟩ := Option.ite_none_right_eq_some.mp hbegin
    obtain ⟨boost, hwake, rfl⟩ := Option.map_eq_some_iff.mp hu
    exact h.wake hB hwake
  | setTerminated i =>
    obtain ⟨-, hu⟩ := Option.ite_none_right_eq_some.mp hbegin
    obtain rfl := Option.some.inj hu
    exact h.setTerminated

/-! ## Runs -/

theorem Represents.step (h : Represents debug s a) (hB : B.Lawful) {action : Action n}
    (hstep : s.step debug action = some s') :
    ∃ a', a.step action = some a' ∧ Represents debug s' a' := by
  obtain ⟨u, hu, hperform⟩ := Option.bind_eq_some_iff.mp hstep
  obtain ⟨t, a', ht, ha', h'⟩ := h.agrees hB hu
  obtain rfl := Option.some.inj (hperform.symm.trans ht)
  exact ⟨a', ha', h'⟩

/-- The list of a strategy, as the script reads it. -/
structure Listed (s : State B) (a : Schedule n) : Prop where
  /-- following the links visits the fibers that wait and ends -/
  visits : ∀ i fuel, (a.waiting i).length ≤ fuel →
    s.waiting.debugInfos i fuel = some ((a.waiting i).map .fiber)
  nodup : ∀ i, (a.waiting i).Nodup
  /-- a fiber is in the list of its thread from when it blocks until it is awakened -/
  mem_iff : ∀ f i, s.threads.leaving i ≠ some (.worker f) → (f ∈ a.waiting i ↔
    s.threads.parked (.worker f) = true ∧ s.threads.scheduler (.worker f) = some i ∧
      (s.waiting.info (.fiber f)).terminated = false)
  erases : ∀ f i, f ∈ a.waiting i → (s.waiting.eraseBacktrace i f).isSome = true

theorem Represents.listed (h : Represents true s a) : Listed s a where
  visits i _ hfuel := (h.linked rfl).debugInfos i hfuel
  nodup := h.orderly.nodup
  mem_iff f i hleaving := by
    have hnot : a.place (.worker f) ≠ .leaving i true :=
      fun hplace ↦ hleaving ((h.holds.leaving_iff _ i).mp ⟨true, hplace⟩)
    rw [h.orderly.waiting_iff, or_iff_left hnot, h.holds.parked_iff, h.terminated, ← and_assoc]
    refine and_congr_left fun _ ↦ ⟨fun hplace ↦ ?_, fun ⟨⟨j, hplace⟩, hi⟩ ↦ ?_⟩
    · exact ⟨⟨i, hplace⟩, h.holds.attached _ i (by rw [hplace]; rfl)⟩
    · have hj := h.holds.attached (.worker f) j (by rw [hplace]; rfl)
      rwa [← Option.some.inj (hj.symm.trans hi)]
  erases f i hf := by
    obtain ⟨w, hw, -⟩ := (h.linked rfl).erase hf
    rw [hw]
    rfl

end Ustevent.Scheduling
