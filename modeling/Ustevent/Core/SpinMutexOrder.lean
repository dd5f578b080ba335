import Ustevent.Core.SpinMutex

/-!
# The order in which a spin mutex is obtained

The threads hold one mutex at a time.  A thread arrives at a mutex when it puts its node into `_tail`,
and obtains it at once or when it leaves the loop on `_locked`.  Whatever `unlock` does to the others,
nobody overtakes.
-/

namespace Ustevent.SpinMutex

open Reasoning

namespace Locking

/-- The mutex and the thread that puts its node into `_tail` in the step. -/
def arrives (s : Locking) : Action → Option (Nat × Nat)
  | .lock t m => some (m, t)
  | .tryLock t m => if s.tail m = none then some (m, t) else none
  | .unlock _ _ | .proceed _ => none

/-- The mutex and the thread that gets it in the step. -/
def obtains (s : Locking) : Action → Option (Nat × Nat)
  | .lock t m | .tryLock t m => if s.tail m = none then some (m, t) else none
  | .unlock _ _ => none
  | .proceed t =>
    match s.place t with
    | .spins m _ => if s.locked t then none else some (m, t)
    | _ => none

end Locking

/-- `arrived` and `obtained` are history: the threads of each mutex, in the order of the events. -/
structure Serving where
  locking : Locking
  arrived : Nat → List Nat
  obtained : Nat → List Nat

namespace Serving

def initial : Serving := ⟨.initial, fun _ ↦ [], fun _ ↦ []⟩

/-- What an event adds to the history of the mutex `m`. -/
def added (event : Option (Nat × Nat)) (m : Nat) : List Nat :=
  match event with
  | none => []
  | some (n, t) => if n = m then [t] else []

def step (s : Serving) (a : Action) : Option Serving :=
  (s.locking.step a).map fun locking ↦
    { locking
      arrived := fun m ↦ s.arrived m ++ added (s.locking.arrives a) m
      obtained := fun m ↦ s.obtained m ++ added (s.locking.obtains a) m }

/-- The thread holds no mutex when it asks for one. -/
def Alone (s : Serving) (a : Action) : Prop := s.locking.Alone a

instance (s : Serving) : (a : Action) → Decidable (s.Alone a)
  | .lock t _ | .tryLock t _ => inferInstanceAs (Decidable (s.locking.held t = []))
  | .unlock _ _ | .proceed _ => isTrue trivial

/-- What the threads rely on. -/
structure InTurn (s : Serving) : Prop where
  exclusive : s.locking.Exclusive
  /-- the first ones to arrive, in this order -/
  obtained : ∀ m, s.obtained m <+: s.arrived m
  /-- the others wait, each behind the one that has arrived before it -/
  waiting : ∀ m i t, (s.obtained m).length ≤ i → (s.arrived m)[i]? = some t →
    ∃ p, s.locking.Waits t m p ∧ 0 < i ∧ (s.arrived m)[i - 1]? = some p
  /-- who is let in is the first of those that wait -/
  next : ∀ m t p, s.locking.place t = .spins m p → s.locking.locked t = false →
    (s.arrived m)[(s.obtained m).length]? = some t

/-! ## The line of one mutex -/

/-- The threads of `row` from number `k` on are those that wait for the mutex. -/
structure Ordered (s : Locking) (m : Nat) (row : List Nat) (k : Nat) : Prop where
  le : k ≤ row.length
  mem : ∀ t p, s.Waits t m p → ∃ i, k ≤ i ∧ row[i]? = some t
  waits : ∀ i t, k ≤ i → row[i]? = some t →
    ∃ p, s.Waits t m p ∧ 0 < i ∧ row[i - 1]? = some p
  once : ∀ i j t, k ≤ i → k ≤ j → row[i]? = some t → row[j]? = some t → i = j
  last : ∀ t, s.tail m = some t → row.getLast? = some t
  free : s.tail m = none → row.length = k
  next : ∀ t p, s.place t = .spins m p → s.locked t = false → row[k]? = some t

variable {s s' : Locking} {m n t u p k : Nat} {row : List Nat}

theorem ordered_initial (m : Nat) : Ordered .initial m [] 0 where
  le := Nat.le_refl 0
  mem t p h := by simp [Locking.initial, Locking.Waits] at h
  waits i t _ h := by simp at h
  once i j t _ _ h := by simp at h
  last t h := by simp [Locking.initial] at h
  free _ := rfl
  next t p h := by simp [Locking.initial] at h

/-- A step that concerns other mutexes, or moves a waiter on without letting it in. -/
theorem Ordered.congr (h : Ordered s m row k) (hwaits : ∀ t p, s'.Waits t m p ↔ s.Waits t m p)
    (htail : s'.tail m = s.tail m)
    (hnext : ∀ t p, s'.place t = .spins m p → s'.locked t = false →
      s.place t = .spins m p ∧ s.locked t = false) : Ordered s' m row k where
  le := h.le
  mem t p ht := h.mem t p ((hwaits t p).mp ht)
  waits i t hi ht := by
    obtain ⟨p, hp, hbefore⟩ := h.waits i t hi ht
    exact ⟨p, (hwaits t p).mpr hp, hbefore⟩
  once := h.once
  last t ht := h.last t (htail ▸ ht)
  free ht := h.free (htail ▸ ht)
  next t p hp ht := by
    obtain ⟨hp, ht⟩ := hnext t p hp ht
    exact h.next t p hp ht

theorem Ordered.own (h : Ordered s m row k) (hm : s.tail m = none) :
    Ordered ((s.setTail m (some t)).obtain t m) m (row ++ [t]) (k + 1) := by
  have hlength := h.free hm
  have hmem := h.mem
  have hnext := h.next
  refine ⟨?_, ?_, ?_, ?_, ?_, ?_, ?_⟩
  · simp only [List.length_append, List.length_singleton, hlength, Nat.le_refl]
  · grind
  · grind
  · grind
  · grind
  · grind
  · grind

/-- The new waiter is not in the row, since it is outside. -/
theorem Ordered.enqueue (h : Ordered s m row k) (ht : s.place t = .outside)
    (hm : s.tail m = some p) :
    Ordered ((s.setTail m (some t)).goto t (.queued m p)) m (row ++ [t]) k := by
  have hout : ∀ i, k ≤ i → row[i]? ≠ some t := by
    intro i hi hline
    obtain ⟨q, hq, -⟩ := h.waits i t hi hline
    grind
  have hlast := h.last p hm
  rw [List.getLast?_eq_getElem?] at hlast
  have hle := h.le
  have hmem := h.mem
  have hwaits := h.waits
  have honce := h.once
  have hnext := h.next
  refine ⟨?_, ?_, ?_, ?_, ?_, ?_, ?_⟩
  · grind
  · intro u q hu
    by_cases heq : u = t
    · exact ⟨row.length, hle, by simp [heq]⟩
    · obtain ⟨i, hi, hline⟩ := hmem u q (by grind)
      exact ⟨i, hi, by grind⟩
  · intro i u hi hu
    by_cases hlt : i < row.length
    · rw [List.getElem?_append_left hlt] at hu
      obtain ⟨q, hq, hpos, hbefore⟩ := hwaits i u hi hu
      refine ⟨q, by grind, hpos, ?_⟩
      rwa [List.getElem?_append_left (by omega)]
    -- the last one of the line has been read from `_tail`
    · obtain ⟨hi, rfl⟩ : i = row.length ∧ u = t := by grind
      have hpos := (List.getElem?_eq_some_iff.mp hlast).1
      refine ⟨p, by grind, by omega, ?_⟩
      rw [hi, List.getElem?_append_left (by omega)]
      exact hlast
  · grind
  · grind
  · grind
  · grind

theorem Ordered.enter (h : Ordered s m row k) (ht : s.place t = .spins m p)
    (hlocked : s.locked t = false) :
    Ordered ((s.goto t .outside).obtain t m) m row (k + 1) := by
  have hk := h.next t p ht hlocked
  have hlt := (List.getElem?_eq_some_iff.mp hk).1
  have hmem := h.mem
  have hwaits := h.waits
  have honce := h.once
  have hnext := h.next
  refine ⟨hlt, ?_, ?_, ?_, ?_, ?_, ?_⟩
  · intro u q hu
    obtain ⟨i, hi, hline⟩ := hmem u q (by grind)
    exact ⟨i, by grind, hline⟩
  · intro i u hi hu
    obtain ⟨q, hq, hbefore⟩ := hwaits i u (by omega) hu
    have hne : u ≠ t := by
      rintro rfl
      have := honce i k u (by omega) (Nat.le_refl k) hu hk
      omega
    exact ⟨q, by grind, hbefore⟩
  · grind
  · exact h.last
  · intro hfree
    have := h.free hfree
    omega
  · grind

/-- Nobody is behind the thread in `_tail`, which does not wait itself. -/
theorem Ordered.clear (h : Ordered s m row k) (ht : s.place t = .clears m)
    (hm : s.tail m = some t) :
    Ordered (((s.setTail m none).goto t .outside).giveUp t m) m row k := by
  have hlast := h.last t hm
  rw [List.getLast?_eq_getElem?] at hlast
  have hlength : row.length = k := by
    by_contra hne
    obtain ⟨q, hq, -⟩ := h.waits (row.length - 1) t (by have := h.le; omega) hlast
    grind
  have hmem := h.mem
  have hwaits := h.waits
  have hnext := h.next
  refine ⟨h.le, ?_, ?_, h.once, ?_, fun _ ↦ hlength, ?_⟩
  · grind
  · grind
  · grind
  · grind

/-- The waiter that is let in comes after the thread, which has had its turn. -/
theorem Ordered.handOver (h : Ordered s m row k) (ht : s.place t = .handsOver m u)
    (hu : s.place u = .spins m t) :
    Ordered (((s.setLocked u false).goto t (.resets m)).giveUp t m) m row k := by
  have hk : row[k]? = some u := by
    obtain ⟨i, hi, hline⟩ := h.mem u t (Or.inr (Or.inr hu))
    obtain ⟨q, hq, hpos, hbefore⟩ := h.waits i u hi hline
    have hqt : q = t := by grind
    have hturn : i - 1 < k := by
      by_contra hlt
      obtain ⟨p, hp, -⟩ := h.waits (i - 1) q (by omega) hbefore
      grind
    rw [show k = i by omega]
    exact hline
  have hmem := h.mem
  have hnext := h.next
  refine ⟨h.le, ?_, ?_, h.once, h.last, h.free, ?_⟩
  · grind
  · intro i v hi hv
    obtain ⟨q, hq, hbefore⟩ := h.waits i v hi hv
    exact ⟨q, by grind, hbefore⟩
  · grind

/-! ## Steps -/

structure Inv (s : Serving) : Prop where
  locking : Locking.Inv s.locking
  exclusive : s.locking.Exclusive
  single : s.locking.Single
  ordered : ∀ m, Ordered s.locking m (s.arrived m) (s.obtained m).length
  obtained : ∀ m, s.obtained m <+: s.arrived m

theorem inv_initial : Inv initial where
  locking := Locking.inv_initial
  exclusive := Locking.exclusive_initial
  single := by
    simp only [Locking.Single, initial, Locking.initial]
    grind
  ordered := ordered_initial
  obtained _ := List.prefix_refl []

/-- What a step does to the lines of the mutexes, and whom it lets in. -/
structure Follows (s : Locking) (a : Action) (s' : Locking) : Prop where
  ordered : ∀ m row k, Ordered s m row k →
    Ordered s' m (row ++ added (s.arrives a) m) (k + (added (s.obtains a) m).length)
  next : ∀ m row k, Ordered s m row k → ∀ t ∈ added (s.obtains a) m,
    (row ++ added (s.arrives a) m)[k]? = some t

variable {a : Action}

theorem follows_keep (harrives : s.arrives a = none) (hobtains : s.obtains a = none)
    (hkeep : ∀ m row k, Ordered s m row k → Ordered s' m row k) : Follows s a s' := by
  refine ⟨fun m row k h ↦ ?_, fun m row k _ t ht ↦ ?_⟩
  · rw [harrives, hobtains, added, List.append_nil]
    exact hkeep m row k h
  · rw [hobtains, added] at ht
    contradiction

theorem follows_own (hm : s.tail m = none) (harrives : s.arrives a = some (m, t))
    (hobtains : s.obtains a = some (m, t)) :
    Follows s a ((s.setTail m (some t)).obtain t m) := by
  refine ⟨fun n row k h ↦ ?_, fun n row k h u hu ↦ ?_⟩
  · rw [harrives, hobtains, added]
    by_cases hn : m = n
    · subst hn
      rw [if_pos rfl]
      exact h.own hm
    · rw [if_neg hn, List.append_nil]
      exact h.congr (fun _ _ ↦ Iff.rfl) (if_neg (Ne.symm hn)) (fun _ _ hp ht ↦ ⟨hp, ht⟩)
  · rw [harrives, hobtains, added] at *
    by_cases hn : m = n
    · subst hn
      rw [if_pos rfl, List.mem_singleton] at *
      rw [hu, ← h.free hm]
      exact List.getElem?_concat_length
    · rw [if_neg hn] at hu
      contradiction

theorem follows_enqueue (ht : s.place t = .outside) (hm : s.tail m = some p)
    (harrives : s.arrives a = some (m, t)) (hobtains : s.obtains a = none) :
    Follows s a ((s.setTail m (some t)).goto t (.queued m p)) := by
  refine ⟨fun n row k h ↦ ?_, fun n row k h u hu ↦ ?_⟩
  · rw [harrives, hobtains, added, added]
    by_cases hn : m = n
    · subst hn
      rw [if_pos rfl]
      exact h.enqueue ht hm
    · rw [if_neg hn, List.append_nil]
      exact h.congr (by grind) (if_neg (Ne.symm hn)) (by grind)
  · rw [hobtains, added] at hu
    contradiction

theorem follows_enter (ht : s.place t = .spins m p) (hlocked : s.locked t = false)
    (harrives : s.arrives a = none) (hobtains : s.obtains a = some (m, t)) :
    Follows s a ((s.goto t .outside).obtain t m) := by
  refine ⟨fun n row k h ↦ ?_, fun n row k h u hu ↦ ?_⟩
  · rw [harrives, hobtains, added, added, List.append_nil]
    by_cases hn : m = n
    · subst hn
      rw [if_pos rfl]
      exact h.enter ht hlocked
    · rw [if_neg hn]
      exact h.congr (by grind) rfl (by grind)
  · rw [hobtains, added] at hu
    by_cases hn : m = n
    · subst hn
      rw [if_pos rfl, List.mem_singleton] at hu
      rw [harrives, added, List.append_nil, hu]
      exact h.next t p ht hlocked
    · rw [if_neg hn] at hu
      contradiction

/-- A step of `lock` or `unlock` after which the thread waits as before, or does not wait. -/
theorem follows_goto {place : Place} (ht : s.place t = .outside ∨ (s.place t).releases = true)
    (hto : place = .outside ∨ place.releases = true) (harrives : s.arrives a = none)
    (hobtains : s.obtains a = none) (hplace : ∀ u, s'.place u = if u = t then place else s.place u)
    (htail : s'.tail = s.tail) (hlocked : s'.locked = s.locked) : Follows s a s' := by
  refine follows_keep harrives hobtains fun m row k h ↦ h.congr (fun u q ↦ ?_) (by rw [htail]) ?_
  · grind
  · grind

theorem follows_clear (ht : s.place t = .clears m) (hm : s.tail m = some t) :
    Follows s (.proceed t) (((s.setTail m none).goto t .outside).giveUp t m) := by
  refine follows_keep rfl (by simp [Locking.obtains, ht]) fun n row k h ↦ ?_
  by_cases hn : m = n
  · subst hn
    exact h.clear ht hm
  · exact h.congr (by grind) (if_neg (Ne.symm hn)) (by grind)

theorem follows_handOver (hinv : Locking.Inv s) (hsingle : s.Single)
    (ht : s.place t = .handsOver m u) :
    Follows s (.proceed t) (((s.setLocked u false).goto t (.resets m)).giveUp t m) := by
  obtain ⟨m', hspins, hlocked⟩ := hinv.links.handsOver t m u ht
  obtain ⟨p, hp⟩ := hsingle.ownWaiter hinv (.proceed t) m u ht
  have hu : s.place u = .spins m t := by grind
  refine follows_keep rfl (by simp [Locking.obtains, ht]) fun n row k h ↦ ?_
  by_cases hn : m = n
  · subst hn
    exact h.handOver ht hu
  · exact h.congr (by grind) rfl (by grind)

theorem follows_proceed (hinv : Locking.Inv s) (hsingle : s.Single)
    (hstep : s.step (.proceed t) = some s') : Follows s (.proceed t) s' := by
  rw [Locking.step] at hstep
  cases ht : s.place t with
  | outside =>
    rw [ht] at hstep
    contradiction
  | queued m p =>
    rw [ht] at hstep
    cases hstep
    refine follows_keep rfl (by simp [Locking.obtains, ht]) fun n row k h ↦ ?_
    exact h.congr (by grind) rfl (by grind)
  | links m p =>
    have := hinv.links.locked t m p ht
    rw [ht] at hstep
    cases hstep
    refine follows_keep rfl (by simp [Locking.obtains, ht]) fun n row k h ↦ ?_
    exact h.congr (by grind) rfl (by grind)
  | spins m p =>
    rw [ht] at hstep
    cases hlocked : s.locked t with
    | true =>
      simp only [hlocked, if_true, Option.some.injEq] at hstep
      subst hstep
      exact follows_keep rfl (by simp [Locking.obtains, ht, hlocked]) fun _ _ _ h ↦ h
    | false =>
      simp only [hlocked, Bool.false_eq_true, if_false, Option.some.injEq] at hstep
      subst hstep
      exact follows_enter ht hlocked rfl (by simp [Locking.obtains, ht, hlocked])
  | clears m =>
    simp only [ht] at hstep
    split at hstep
    · rename_i htail
      cases hstep
      exact follows_clear ht htail
    · cases hstep
      exact follows_goto (Or.inr (by rw [ht]; rfl)) (Or.inr rfl) rfl (by simp [Locking.obtains, ht])
        (fun _ ↦ rfl) rfl rfl
  | awaits m =>
    simp only [ht, Option.some.injEq] at hstep
    have hobtains : s.obtains (.proceed t) = none := by simp [Locking.obtains, ht]
    split at hstep
    · subst hstep
      exact follows_keep rfl hobtains fun _ _ _ h ↦ h
    · subst hstep
      exact follows_goto (Or.inr (by rw [ht]; rfl)) (Or.inr rfl) rfl hobtains (fun _ ↦ rfl) rfl rfl
  | grants m =>
    simp only [ht] at hstep
    split at hstep
    · contradiction
    · cases hstep
      exact follows_goto (Or.inr (by rw [ht]; rfl)) (Or.inr rfl) rfl (by simp [Locking.obtains, ht])
        (fun _ ↦ rfl) rfl rfl
  | handsOver m u =>
    rw [ht] at hstep
    cases hstep
    exact follows_handOver hinv hsingle ht
  | resets m =>
    rw [ht] at hstep
    cases hstep
    exact follows_goto (Or.inr (by rw [ht]; rfl)) (Or.inl rfl) rfl (by simp [Locking.obtains, ht])
      (fun _ ↦ rfl) rfl rfl

theorem follows_of_step (hinv : Locking.Inv s) (hsingle : s.Single) (hstep : s.step a = some s') :
    Follows s a s' := by
  cases a with
  | lock t m =>
    rw [Locking.step, Option.ite_none_right_eq_some] at hstep
    obtain ⟨⟨ht, -⟩, hstep⟩ := hstep
    split at hstep
    · rename_i hm
      cases hstep
      exact follows_own hm rfl (if_pos hm)
    · rename_i p hm
      cases hstep
      exact follows_enqueue ht hm rfl (by simp [Locking.obtains, hm])
  | tryLock t m =>
    rw [Locking.step, Option.ite_none_right_eq_some] at hstep
    obtain ⟨-, hstep⟩ := hstep
    split at hstep
    · rename_i hm
      cases hstep
      exact follows_own hm (if_pos hm) (if_pos hm)
    · rename_i p hm
      cases hstep
      exact follows_keep (by simp [Locking.arrives, hm]) (by simp [Locking.obtains, hm])
        fun _ _ _ h ↦ h
  | unlock t m =>
    rw [Locking.step, Option.ite_none_right_eq_some] at hstep
    obtain ⟨⟨ht, -⟩, hstep⟩ := hstep
    split at hstep
    · cases hstep
      exact follows_goto (Or.inl ht) (Or.inr rfl) rfl rfl (fun _ ↦ rfl) rfl rfl
    · cases hstep
      refine follows_keep rfl rfl fun n row k h ↦ h.congr (fun _ _ ↦ Iff.rfl) rfl ?_
      exact fun _ _ hp hlocked ↦ ⟨hp, hlocked⟩
  | proceed t => exact follows_proceed hinv hsingle hstep

/-- Who is next in a line may be added to those before. -/
theorem concat_of_next {l l' : List Nat} (h : l <+: l') (hnext : l'[l.length]? = some t) :
    l ++ [t] <+: l' := by
  obtain ⟨rest, rfl⟩ := h
  rw [List.getElem?_append_right (Nat.le_refl _), Nat.sub_self] at hnext
  cases rest with
  | nil => contradiction
  | cons u rest =>
    rw [List.getElem?_cons_zero, Option.some.injEq] at hnext
    exact ⟨rest, by rw [hnext, List.append_assoc, List.singleton_append]⟩

theorem Inv.step {s s' : Serving} (h : Inv s) (hok : s.Alone a) (hstep : s.step a = some s') :
    Inv s' := by
  obtain ⟨locking, hlocking, rfl⟩ := Option.map_eq_some_iff.mp hstep
  obtain ⟨hiff, hinv⟩ := h.locking.step h.exclusive hlocking
  have hexclusive := hiff.mpr (h.single.ownWaiter h.locking a)
  have hfollows := follows_of_step h.locking h.single hlocking
  refine ⟨hinv hexclusive, hexclusive, h.single.step hok hlocking, fun m ↦ ?_, fun m ↦ ?_⟩
  · rw [List.length_append]
    exact hfollows.ordered m _ _ (h.ordered m)
  · have hnext := hfollows.next m _ _ (h.ordered m)
    have htook : s.obtained m <+: s.arrived m ++ added (s.locking.arrives a) m :=
      (h.obtained m).trans (List.prefix_append _ _)
    show s.obtained m ++ added (s.locking.obtains a) m <+:
      s.arrived m ++ added (s.locking.arrives a) m
    -- at most one thread is let in
    rcases hadded : added (s.locking.obtains a) m with _ | ⟨t, rest⟩
    · rw [List.append_nil]
      exact htook
    · have hone : rest = [] := by
        unfold added at hadded
        grind
      rw [hadded] at hnext
      rw [hone]
      exact concat_of_next htook (hnext t List.mem_cons_self)

theorem Inv.inTurn {s : Serving} (h : Inv s) : InTurn s where
  exclusive := h.exclusive
  obtained := h.obtained
  waiting m i t hi ht := (h.ordered m).waits i t hi ht
  next m t p hp ht := (h.ordered m).next t p hp ht

/-- Threads that hold one mutex at a time exclude each other and get the mutex in the order in which
they arrive at it. -/
theorem inTurn_of_alone {as : List Action} {s : Serving} (h : Meets step Alone initial as)
    (hrun : run step initial as = some s) : InTurn s :=
  (invariant_of_meets Inv (fun _ _ _ hs hok hstep ↦ hs.step hok hstep) inv_initial h hrun).inTurn

/-- Two threads wait for the mutex, the second one of which has linked its node first. -/
def lineOfThree : List Action :=
  [.lock 0 0, .unlock 0 0, .lock 1 0, .lock 2 0, .proceed 2, .proceed 2, .proceed 1, .proceed 1,
    .proceed 0, .proceed 0, .proceed 0, .proceed 0, .proceed 1]

theorem inTurn_of_alone_lineOfThree : ∃ s, run step initial lineOfThree = some s ∧
    s.arrived 0 = [0, 1, 2] ∧ s.obtained 0 = [0, 1] ∧ InTurn s :=
  ⟨_, rfl, by decide, by decide,
    inTurn_of_alone (show Meets step Alone initial lineOfThree by decide) rfl⟩

end Serving

end Ustevent.SpinMutex
