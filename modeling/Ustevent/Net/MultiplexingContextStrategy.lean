import Mathlib.Data.Int.Init
import Ustevent.Queue.Wakeup

/-!
# The wake-ups of a multiplexing strategy

A context with one worker that sleeps in `epoll_wait`.  A thread that posts a task sends a signal to
the worker, which blocks the signal and has it reported by an edge of the signal descriptor.  A signal
is pending or not, however often it has been sent, and there is an edge only if it has not been
pending before.
-/

namespace Ustevent.Net.MultiplexingContextStrategy

open Reasoning BlockingContextStrategy

inductive BlockingFlag
  | blocking
  | polling
deriving DecidableEq

/-- The timeout in milliseconds for a wait until the time point, `none` for its maximum.  Times are in
nanoseconds; the count of the milliseconds is converted to an int. -/
def timeout (flag : BlockingFlag) (timePoint : Option Int) (now : Int) : Int :=
  match flag, timePoint with
  | .polling, _ => 0
  | .blocking, none => -1
  | .blocking, some timePoint =>
    let timeout := ((timePoint - now).tdiv 1000000).bmod (2 ^ 32)
    if timeout < 1 then 1 else timeout

/-- A wait has no end only if nothing is to happen at a time. -/
theorem timeout_neg_iff {flag : BlockingFlag} {timePoint : Option Int} {now : Int} :
    timeout flag timePoint now < 0 ↔ flag = .blocking ∧ timePoint = none := by
  cases flag <;> cases timePoint <;> grind [timeout]

/-- It ends at the time point at the latest, or a millisecond after it has begun. -/
theorem timeout_le {flag : BlockingFlag} {timePoint now : Int} (h : now ≤ timePoint) :
    now + timeout flag (some timePoint) now * 1000000 ≤ max timePoint (now + 1000000) := by
  cases flag with
  | polling => simp [timeout, h]
  | blocking =>
    have hcount : (timePoint - now).tdiv 1000000 = (timePoint - now) / 1000000 :=
      Int.tdiv_eq_ediv_of_nonneg (by omega)
    -- the conversion to an int does not make the count larger
    have hbmod : ((timePoint - now) / 1000000).bmod (2 ^ 32) ≤ (timePoint - now) / 1000000 := by
      rw [Int.bmod_def]
      split <;> omega
    rw [timeout, hcount]
    split <;> omega

/-- Where the worker is. -/
inductive WorkerPlace
  | starts
  /-- the strategy is in its slot, and the signal is not blocked yet -/
  | masks
  | runs
  /-- in `epoll_wait`, after `pop` has returned false -/
  | selects (timePoint : Option Int) (now : Int)
  /-- `epoll_wait` has reported the edge of the signal descriptor -/
  | reads
deriving DecidableEq

/-- Where a submitter is. -/
inductive SubmitterPlace
  /-- not in a push, or in the part of it before its produce -/
  | submits
  /-- in `_notify`, before the test of the slot -/
  | checks
  /-- before `pthread_kill` -/
  | kills
deriving DecidableEq

/-- The submitter has produced and has not sent its signal. -/
@[grind] def SubmitterPlace.Notifies : SubmitterPlace → Bool
  | .submits => false
  | .checks | .kills => true

/-- The worker has found no task and has not looked for one since. -/
@[grind] def WorkerPlace.Suspended : WorkerPlace → Bool
  | .selects _ _ | .reads => true
  | .starts | .masks | .runs => false

/-- The context, `_strategies[0]`, the signal of the worker and the edge of the signal descriptor that
`epoll_wait` has yet to report. -/
structure Selecting (σ ι : Type*) where
  queue : σ
  registered : Bool
  pending : Bool
  edge : Bool
  worker : WorkerPlace
  submitter : ι → SubmitterPlace

inductive Action (ι α β : Type*)
  | prepare (thread : ι) (step : α)
  | produce (thread : ι)
  /-- the next step of the notify of a submitter -/
  | notify (thread : ι)
  /-- the next step of the constructor of the strategy -/
  | start
  | work (step : β)
  | suspend (timePoint : Option Int) (now : Int)
  /-- `epoll_wait` returns with the edge of the signal descriptor, or without it: with other events, or
  as it has been interrupted -/
  | report (signal : Bool)
  | timeOut
  | readSignal

namespace Selecting

variable {σ ι α β : Type*}

def initial (queue : σ) : Selecting σ ι where
  queue := queue
  registered := false
  pending := false
  edge := false
  worker := .starts
  submitter _ := .submits

abbrev setQueue (s : Selecting σ ι) (queue : σ) : Selecting σ ι := { s with queue := queue }

abbrev setWorker (s : Selecting σ ι) (place : WorkerPlace) : Selecting σ ι :=
  { s with worker := place }

abbrev goto [DecidableEq ι] (s : Selecting σ ι) (w : ι) (place : SubmitterPlace) : Selecting σ ι :=
  { s with submitter := fun u ↦ if u = w then place else s.submitter u }

/-- A signal that is pending already is not sent again, and makes no edge. -/
def kill (s : Selecting σ ι) : Selecting σ ι :=
  if s.pending then s else { s with pending := true, edge := true }

def step [DecidableEq ι] (Q : RemoteQueue σ ι α β) (flag : BlockingFlag) (s : Selecting σ ι) :
    Action ι α β → Option (Selecting σ ι)
  | .prepare w a =>
    if s.submitter w = .submits then (Q.prepare s.queue w a).map s.setQueue else none
  | .produce w =>
    if s.submitter w = .submits then
      (Q.produce s.queue w).map fun queue ↦ (s.setQueue queue).goto w .checks
    else none
  | .notify w =>
    match s.submitter w with
    | .submits => none
    -- a notify before the registration is dropped
    | .checks => some (s.goto w (if s.registered then .kills else .submits))
    -- a notify of a strategy that is under construction is undefined
    | .kills => if s.worker = .masks then none else some (s.kill.goto w .submits)
  | .start =>
    match s.worker with
    | .starts => some { s.setWorker .masks with registered := true }
    | .masks => some (s.setWorker .runs)
    | .runs | .selects _ _ | .reads => none
  | .work b => if s.worker = .runs then (Q.work s.queue b).map s.setQueue else none
  | .suspend timePoint now =>
    if s.worker = .runs ∧ Q.idle s.queue then
      (Q.pop s.queue).map fun (found, queue) ↦
        (s.setQueue queue).setWorker (if found then .runs else .selects timePoint now)
    else none
  | .report signal =>
    match s.worker with
    | .selects _ _ =>
      if signal then
        if s.edge then some { s.setWorker .reads with edge := false } else none
      else some (s.setWorker .runs)
    | .starts | .masks | .runs | .reads => none
  | .timeOut =>
    match s.worker with
    | .selects timePoint now =>
      if timeout flag timePoint now < 0 then none else some (s.setWorker .runs)
    | .starts | .masks | .runs | .reads => none
  | .readSignal =>
    if s.worker = .reads then some { s.setWorker .runs with pending := false } else none

/-- What the signals are for. -/
structure Sound [DecidableEq ι] (Q : RemoteQueue σ ι α β) (flag : BlockingFlag)
    (s : Selecting σ ι) : Prop where
  /-- a worker that sleeps over a task is about to be told of it -/
  told : ∀ timePoint now, s.worker = .selects timePoint now → Q.Consumable s.queue →
    s.edge = true ∨ ∃ w, (s.submitter w).Notifies = true
  /-- with nobody left to tell it, `epoll_wait` returns, and the next `pop` launches a task -/
  serves : ∀ timePoint now, s.worker = .selects timePoint now → Q.Consumable s.queue →
    (∀ w, (s.submitter w).Notifies = false) → ∀ timePoint' now', ∃ s',
      run (step Q flag) s [.report true, .readSignal, .suspend timePoint' now'] = some s' ∧
        s'.worker = .runs
  /-- only a worker that blocks and has nothing to do at a time sleeps without an end -/
  endless : ∀ timePoint now, s.worker = .selects timePoint now →
    (s.step Q flag .timeOut = none ↔ flag = .blocking ∧ timePoint = none)

/-! ## The invariant -/

/-- A signal that is pending has its edge, or the worker is about to read it. -/
structure Inv (Q : RemoteQueue σ ι α β) (inv : σ → Prop) (s : Selecting σ ι) : Prop where
  queue : inv s.queue
  registered : s.worker ≠ .starts → s.registered = true
  idle : s.worker.Suspended = true → Q.idle s.queue = true
  told : ∀ timePoint now, s.worker = .selects timePoint now → Q.Consumable s.queue →
    s.edge = true ∨ ∃ w, (s.submitter w).Notifies = true
  joins : s.pending = true → s.edge = true ∨ s.worker = .reads
  edge : s.edge = true → s.pending = true
  reads : s.worker = .reads → s.pending = true ∧ s.edge = false

variable {Q : RemoteQueue σ ι α β} {inv : σ → Prop} {flag : BlockingFlag} {s t : Selecting σ ι}
  {queue : σ}

theorem inv_initial (h : inv queue) : Inv Q inv (initial queue : Selecting σ ι) where
  queue := h
  registered hne := absurd rfl hne
  idle hsuspended := by contradiction
  told timePoint now hplace := by contradiction
  joins hpending := by contradiction
  edge hedge := by contradiction
  reads hplace := by contradiction

/-! ## The steps of the worker -/

/-- The worker goes on, and is not in `epoll_wait` afterwards. -/
theorem Inv.setWorker (h : Inv Q inv s) {place : WorkerPlace}
    (hregistered : s.registered = true) (hsuspended : place.Suspended = false)
    (hreads : s.worker ≠ .reads) : Inv Q inv (s.setWorker place) := by
  refine ⟨h.queue, fun _ ↦ hregistered, ?_, ?_, ?_, h.edge, ?_⟩
  · intro hs
    exact absurd (hs.symm.trans hsuspended) (by decide)
  · intro timePoint now hplace
    rw [show place = .selects timePoint now from hplace] at hsuspended
    contradiction
  · intro hpending
    exact Or.inl ((h.joins hpending).resolve_right hreads)
  · intro hplace
    rw [show place = .reads from hplace] at hsuspended
    contradiction

theorem Inv.suspend (h : Inv Q inv s) (hQ : Q.Lawful inv) (hplace : s.worker = .runs)
    (hidle : Q.idle s.queue = true) {found : Bool} {timePoint : Option Int} {now : Int}
    (hpop : Q.pop s.queue = some (found, queue)) :
    Inv Q inv ((s.setQueue queue).setWorker (if found then .runs else .selects timePoint now)) := by
  obtain ⟨hinv, hnone⟩ := hQ.pop s.queue found queue h.queue hidle hpop
  have hregistered := h.registered (by simp [hplace])
  have hjoins : s.pending = true → s.edge = true := fun hpending ↦
    (h.joins hpending).resolve_right (by simp [hplace])
  cases found with
  | true =>
    refine ⟨hinv, fun _ ↦ hregistered, ?_, ?_, fun hp ↦ Or.inl (hjoins hp), h.edge, ?_⟩
    · intro hs
      contradiction
    · intro timePoint now hselects
      contradiction
    · intro hreads
      contradiction
  | false =>
    obtain ⟨hidle', hconsumable⟩ := hnone rfl
    refine ⟨hinv, fun _ ↦ hregistered, fun _ ↦ hidle', ?_, fun hp ↦ Or.inl (hjoins hp), h.edge, ?_⟩
    · exact fun _ _ _ hafter ↦ absurd hafter hconsumable
    · intro hreads
      contradiction

theorem Inv.report (h : Inv Q inv s) {timePoint : Option Int} {now : Int}
    (hplace : s.worker = .selects timePoint now) (hedge : s.edge = true) :
    Inv Q inv { s.setWorker .reads with edge := false } := by
  refine ⟨h.queue, fun _ ↦ h.registered (by simp [hplace]), fun _ ↦ h.idle (by rw [hplace]; rfl), ?_,
    fun _ ↦ Or.inr rfl, ?_, fun _ ↦ ⟨h.edge hedge, rfl⟩⟩
  · intro timePoint now hselects
    contradiction
  · intro hedge
    contradiction

theorem Inv.readSignal (h : Inv Q inv s) (hplace : s.worker = .reads) :
    Inv Q inv { s.setWorker .runs with pending := false } := by
  obtain ⟨-, hedge⟩ := h.reads hplace
  refine ⟨h.queue, fun _ ↦ h.registered (by simp [hplace]), ?_, ?_, ?_, ?_, ?_⟩
  · intro hs
    contradiction
  · intro timePoint now hselects
    contradiction
  · intro hpending
    contradiction
  · exact fun hedge' ↦ absurd (hedge.symm.trans hedge') (by decide)
  · intro hreads
    contradiction

/-! ## The steps of the submitters -/

theorem Inv.prepare (h : Inv Q inv s) (hQ : Q.Lawful inv) {w : ι} {a : α}
    (hstep : Q.prepare s.queue w a = some queue) : Inv Q inv (s.setQueue queue) := by
  obtain ⟨hinv, hquiet⟩ := hQ.prepare s.queue w a queue h.queue hstep
  refine ⟨hinv, h.registered, fun hs ↦ (hquiet (h.idle hs)).1, ?_, h.joins, h.edge, h.reads⟩
  intro timePoint now hplace hconsumable
  have hidle := h.idle (by rw [hplace]; rfl)
  exact h.told timePoint now hplace ((hquiet hidle).2 hconsumable)

variable [DecidableEq ι] {w : ι}

/-- Whoever has produced is going to notify. -/
theorem Inv.produce (h : Inv Q inv s) (hQ : Q.Lawful inv)
    (hstep : Q.produce s.queue w = some queue) :
    Inv Q inv ((s.setQueue queue).goto w .checks) := by
  obtain ⟨hinv, hidle⟩ := hQ.produce s.queue w queue h.queue hstep
  refine ⟨hinv, h.registered, fun hs ↦ hidle (h.idle hs), ?_, h.joins, h.edge, h.reads⟩
  exact fun _ _ _ _ ↦ Or.inr ⟨w, by simp [SubmitterPlace.Notifies]⟩

/-- A submitter that gives up has found no worker that could sleep. -/
theorem Inv.check (h : Inv Q inv s) :
    Inv Q inv (s.goto w (if s.registered then .kills else .submits)) := by
  refine ⟨h.queue, h.registered, h.idle, ?_, h.joins, h.edge, h.reads⟩
  intro timePoint now hplace hconsumable
  have hselects : s.worker = .selects timePoint now := hplace
  have hregistered := h.registered (by simp [hselects])
  rcases h.told timePoint now hplace hconsumable with hedge | ⟨u, hu⟩
  · exact Or.inl hedge
  · refine Or.inr ⟨u, ?_⟩
    grind

/-- A signal that is not sent, as one is pending, has the edge of that one. -/
theorem Inv.kill (h : Inv Q inv s) : Inv Q inv (s.kill.goto w .submits) := by
  unfold Selecting.kill
  split
  · rename_i hpending
    refine ⟨h.queue, h.registered, h.idle, ?_, h.joins, h.edge, h.reads⟩
    intro timePoint now hplace _
    rcases h.joins hpending with hedge | hreads
    · exact Or.inl hedge
    · have := hplace.symm.trans hreads
      contradiction
  · rename_i hpending
    refine ⟨h.queue, h.registered, h.idle, fun _ _ _ _ ↦ Or.inl rfl, fun _ ↦ Or.inl rfl,
      fun _ ↦ rfl, fun hreads ↦ ?_⟩
    exact absurd (h.reads hreads).1 hpending

/-! ## Every run -/

theorem Inv.notify (h : Inv Q inv s) (hstep : s.step Q flag (.notify w) = some t) : Inv Q inv t := by
  cases hw : s.submitter w with
  | submits =>
    simp only [Selecting.step, hw] at hstep
    contradiction
  | checks =>
    simp only [Selecting.step, hw, Option.some.injEq] at hstep
    exact hstep ▸ h.check
  | kills =>
    simp only [Selecting.step, hw, Option.ite_none_left_eq_some, Option.some.injEq] at hstep
    exact hstep.2 ▸ h.kill

theorem Inv.step (h : Inv Q inv s) (hQ : Q.Lawful inv) {a : Action ι α β}
    (hstep : s.step Q flag a = some t) : Inv Q inv t := by
  cases a with
  | prepare w a =>
    simp only [Selecting.step, Option.ite_none_right_eq_some, Option.map_eq_some_iff] at hstep
    obtain ⟨-, queue, hprepare, rfl⟩ := hstep
    exact h.prepare hQ hprepare
  | produce w =>
    simp only [Selecting.step, Option.ite_none_right_eq_some, Option.map_eq_some_iff] at hstep
    obtain ⟨-, queue, hproduce, rfl⟩ := hstep
    exact h.produce hQ hproduce
  | notify w => exact h.notify hstep
  | start =>
    simp only [Selecting.step] at hstep
    split at hstep
    · rename_i hplace
      cases hstep
      have hstart : Inv Q inv { s with registered := true } :=
        ⟨h.queue, fun _ ↦ rfl, h.idle, h.told, h.joins, h.edge, h.reads⟩
      exact hstart.setWorker rfl rfl (by simp [hplace])
    · rename_i hplace
      cases hstep
      exact h.setWorker (h.registered (by simp [hplace])) rfl (by simp [hplace])
    all_goals contradiction
  | work b =>
    simp only [Selecting.step, Option.ite_none_right_eq_some, Option.map_eq_some_iff] at hstep
    obtain ⟨hplace, queue, hwork, rfl⟩ := hstep
    refine ⟨hQ.work s.queue b queue h.queue hwork, h.registered, ?_, ?_, h.joins, h.edge, h.reads⟩
    · intro hs
      rw [hplace] at hs
      contradiction
    · intro timePoint now hselects
      have := hplace.symm.trans hselects
      contradiction
  | suspend timePoint now =>
    simp only [Selecting.step, Option.ite_none_right_eq_some, Option.map_eq_some_iff] at hstep
    obtain ⟨⟨hplace, hidle⟩, ⟨found, queue⟩, hpop, rfl⟩ := hstep
    exact h.suspend hQ hplace hidle hpop
  | report signal =>
    simp only [Selecting.step] at hstep
    split at hstep
    · rename_i timePoint now hplace
      cases signal with
      | true =>
        rw [if_pos rfl, Option.ite_none_right_eq_some, Option.some.injEq] at hstep
        exact hstep.2 ▸ h.report hplace hstep.1
      | false =>
        rw [if_neg Bool.false_ne_true, Option.some.injEq] at hstep
        exact hstep ▸ h.setWorker (h.registered (by simp [hplace])) rfl (by simp [hplace])
    all_goals contradiction
  | timeOut =>
    simp only [Selecting.step] at hstep
    split at hstep
    · rename_i timePoint now hplace
      rw [Option.ite_none_left_eq_some, Option.some.injEq] at hstep
      exact hstep.2 ▸ h.setWorker (h.registered (by simp [hplace])) rfl (by simp [hplace])
    all_goals contradiction
  | readSignal =>
    simp only [Selecting.step, Option.ite_none_right_eq_some, Option.some.injEq] at hstep
    exact hstep.2 ▸ h.readSignal hstep.1

theorem Inv.sound (h : Inv Q inv s) : Sound Q flag s where
  told := h.told
  serves timePoint now hplace hconsumable hnotifies timePoint' now' := by
    have hedge : s.edge = true := by
      rcases h.told timePoint now hplace hconsumable with hedge | ⟨w, hw⟩
      · exact hedge
      · rw [hnotifies w] at hw
        contradiction
    have hidle := h.idle (by rw [hplace]; rfl)
    obtain ⟨queue, hpop⟩ := hconsumable
    refine ⟨{ s with worker := .runs, edge := false, pending := false, queue := queue }, ?_, rfl⟩
    simp [run, Selecting.step, hplace, hedge, hidle, hpop]
  endless timePoint now hplace := by
    simp only [Selecting.step, hplace]
    rw [← @timeout_neg_iff flag timePoint now]
    split <;> simp_all

open MpscRingBuffer in
/-- In every run of a context whose tasks go through a ring buffer, no wake-up is lost. -/
theorem told_of_run {n capacity : Nat} (hpos : 1 ≤ capacity) (hcap : capacity < 2 ^ 32)
    {actions : List (Action (Fin n) PushStep FiberStep)} {s : Selecting (Context n 1) (Fin n)}
    (hrun : run (Selecting.step (contextQueue n capacity) flag) (initial (Context.initial n 1))
      actions = some s) :
    Sound (contextQueue n capacity) flag s ∧
      ∀ timePoint now, s.worker = .selects timePoint now →
        ∃ q c, Refines capacity s.queue.queue.ring q c ∧
          ((contextQueue n capacity).Consumable s.queue ↔
            FirstProduced Reservation.produced q.pending) := by
  have hinv : Inv (contextQueue n capacity) (ContextInv capacity) s :=
    invariant_of_run _ (fun _ _ _ h hstep ↦ h.step (lawful_contextQueue hcap) hstep)
      (inv_initial (contextInv_initial hpos)) hrun
  refine ⟨hinv.sound, fun timePoint now hplace ↦ ?_⟩
  obtain ⟨⟨q, c, hs⟩, -⟩ := hinv.queue
  exact ⟨q, c, hs.refines, consumable_iff hs hcap (hinv.idle (by rw [hplace]; rfl))⟩

/-- Two threads post while the worker is in `epoll_wait`, and the second one finds the signal of the
first one pending. -/
def signalTwice (w v : Fin 2) : List (Action (Fin 2) PushStep FiberStep) :=
  [.start, .start, .suspend none 0, .prepare w .registerWriter,
    .prepare w (.acquire Context.shortTask), .prepare w .write, .produce w,
    .prepare v .registerWriter, .prepare v (.acquire Context.shortTask), .prepare v .write,
    .produce v, .notify w, .notify v, .notify w, .notify v]

theorem told_of_run_signalTwice : ∃ s : Selecting (Context 2 1) (Fin 2),
    run (Selecting.step (contextQueue 2 128) .blocking) (initial (Context.initial 2 1))
      (signalTwice 0 1) = some s ∧
      (s.worker = .selects none 0 ∧ s.edge = true ∧
        ((contextQueue 2 128).pop s.queue).any Prod.fst = true) ∧
      Sound (contextQueue 2 128) .blocking s := by
  have hrun : (run (Selecting.step (contextQueue 2 128) .blocking)
      (initial (Context.initial 2 1)) (signalTwice 0 1)).any
      (fun s ↦ decide (s.worker = .selects none 0 ∧ s.edge = true ∧
        ((contextQueue 2 128).pop s.queue).any Prod.fst = true)) = true := by decide +kernel
  rw [Option.any_eq_true] at hrun
  obtain ⟨s, hs, hplace⟩ := hrun
  exact ⟨s, hs, of_decide_eq_true hplace, (told_of_run (by decide) (by decide) hs).1⟩

end Selecting

end Ustevent.Net.MultiplexingContextStrategy
