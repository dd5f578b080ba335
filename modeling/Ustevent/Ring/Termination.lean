import Ustevent.Reasoning.Work
import Ustevent.Ring.Interleaved

/-!
# The calls of the ring buffer come to an end

A producer that finds the barrier changed starts over, and both sides wait for words that are
locked.  The barrier changes at most twice in each acquire, and whoever has locked a word goes on by
itself.  So the calls of a run make a bounded number of steps apart from those that only wait, and
once no other step is left, nobody waits.
-/

namespace Ustevent.MpscRingBuffer

open Reasoning

variable {n : Nat}

/-- The worker is in no call, or has yet to produce. -/
def Producer.rests : Producer → Bool
  | .unregistered | .idle | .holding => true
  | .registering | .loadNext _ | .storeSeen _ _ _ | .loadWritten _ _ _ | .giveUp
  | .exchange _ _ _ _ | .loadSeen _ _ | .storeUnlocked _ _ _ | .setEnd _ _
  | .unlockBarrier _ => false

namespace System

/-- The action is a step of a call that does not wait for a locked word. -/
def moves (s : System n) : Action n → Bool
  | .producer w =>
    match s.producers w with
    | .loadNext _ => !isLocked s.ring.producerBarrier
    | pc => !pc.rests
  | .consumer =>
    match s.consumer with
    | .loadNext _ => !isLocked s.ring.producerBarrier
    | .loadSeen _ _ _ w _ => !isLocked (s.ring.workers w).seen
    | _ => !s.resting
  | .registerWorker _ | .acquire _ _ | .produce _ | .spurious _ | .consume | .release _ => false

/-- What an action may cost.  A step of a call costs nothing, since the call has been paid for. -/
def cost : Action n → Nat
  | .registerWorker _ => 1
  | .acquire _ _ => 8 * n + 8
  | .spurious _ => 3
  | .consume => 4 * n + 7
  | .release _ => 2
  | .produce _ | .producer _ | .consumer => 0

/-- All calls have ended. -/
structure AtRest (s : System n) : Prop where
  producers : ∀ w, (s.producers w).rests = true
  consumer : s.resting = true

/-- The steps that have been made, apart from those that wait. -/
def made (capacity : Nat) (s : System n) (actions : List (Action n)) : Nat :=
  work (step capacity) (fun s action ↦ (s.moves action).toNat) s actions

/-- A worker that waits leaves the system as it is. -/
theorem eq_of_not_moves {capacity : Nat} {s t : System n} {w : Fin n}
    (hstep : s.step capacity (.producer w) = some t) (hmoves : s.moves (.producer w) = false) :
    t = s := by
  rw [step, producerStep] at hstep
  rw [moves] at hmoves
  cases hpc : s.producers w <;> simp_all [Producer.rests]

/-- So does the consumer. -/
theorem eq_of_not_moves_consumer {capacity : Nat} {s t : System n}
    (hstep : s.step capacity .consumer = some t) (hmoves : s.moves .consumer = false) : t = s := by
  rw [step, consumerStep] at hstep
  rw [moves] at hmoves
  cases hpc : s.consumer <;> simp_all [resting]

end System

/-! ## What is left to do -/

/-- The steps that a worker has before it, with four for each worker and each change of the barrier
that its acquire is going to make. -/
def Producer.rank (n : Nat) : Producer → Nat
  | .unregistered | .idle | .holding => 0
  | .registering | .giveUp => 1
  | .loadNext _ => 8 * n + 8
  | .storeSeen _ _ _ => 8 * n + 7
  | .loadWritten _ _ _ => 8 * n + 6
  | .exchange _ _ _ _ => 8 * n + 5
  | .loadSeen _ _ => 4 * n + 4
  | .storeUnlocked _ _ _ => 4 * n + 3
  | .setEnd _ _ => 4 * n + 2
  | .unlockBarrier _ => 4 * n + 1

/-- The steps that a worker has to make once more, since the barrier is not as it was loaded. -/
def Producer.stale (barrier : Nat) : Producer → Nat
  | .storeSeen _ seen _ | .loadWritten _ seen _ | .exchange _ seen _ _ =>
    if seen = barrier then 0 else 4
  | .unregistered | .idle | .holding | .registering | .giveUp | .loadNext _ | .loadSeen _ _
  | .storeUnlocked _ _ _ | .setEnd _ _ | .unlockBarrier _ => 0

/-- What the worker has left to do. -/
def Producer.left (n barrier : Nat) (pc : Producer) : Nat := pc.rank n + pc.stale barrier

/-- The steps of the consumer after it has looked at the workers, who may send it round once. -/
def turnRank (n written : Nat) : Nat := if written = 0 then 1 else 2 * n + 5

def Consumer.rank : Consumer n → Nat
  | .idle | .returned _ _ => 0
  | .loadWritten => 4 * n + 7
  | .loadNext written => 2 * n + turnRank n written + 1
  | .scan written _ _ rest => 2 * rest.length + turnRank n written
  | .loadSeen written _ _ _ rest => 2 * rest.length + turnRank n written + 1
  | .resetEnd => 2 * n + 4
  | .storeZero => 2 * n + 3
  | .loadCurrent _ _ => 2
  | .storeReleased _ _ _ => 1

namespace System

variable {capacity : Nat} {s t : System n} {w : Fin n}

def potential (s : System n) : Nat :=
  ∑ w, (s.producers w).left n s.ring.producerBarrier + s.consumer.rank

theorem potential_goto (s : System n) (w : Fin n) (pc : Producer) :
    (s.goto w pc).potential + (s.producers w).left n s.ring.producerBarrier =
      s.potential + pc.left n s.ring.producerBarrier := by
  have hsum := sum_update (Producer.left n s.ring.producerBarrier) s.producers w pc
  unfold potential goto
  dsimp only
  omega

/-- A store that leaves the barrier alone. -/
theorem potential_store {ring : MpscRingBuffer n} (s : System n)
    (h : ring.producerBarrier = s.ring.producerBarrier) :
    (s.store ring).potential = s.potential := by
  unfold potential store
  rw [h]

/-- A change of the barrier sends every worker back at most once. -/
theorem potential_le_of_barrier (hproducers : t.producers = s.producers)
    (hconsumer : t.consumer = s.consumer) : t.potential ≤ s.potential + 4 * n := by
  have hleft : ∀ pc : Producer, pc.left n t.ring.producerBarrier ≤
      pc.left n s.ring.producerBarrier + 4 := by
    intro pc
    have hfour : pc.stale t.ring.producerBarrier ≤ 4 := by
      unfold Producer.stale
      split
      all_goals first | omega | (split <;> omega)
    unfold Producer.left
    omega
  have hsum : ∑ w, (s.producers w).left n t.ring.producerBarrier ≤
      ∑ w, ((s.producers w).left n s.ring.producerBarrier + 4) :=
    Finset.sum_le_sum fun w _ ↦ hleft (s.producers w)
  rw [Finset.sum_add_distrib, Finset.sum_const, Finset.card_univ, Fintype.card_fin,
    nsmul_eq_mul, Nat.cast_id] at hsum
  unfold potential
  rw [hproducers, hconsumer]
  omega

theorem potential_store_goto {ring : MpscRingBuffer n} (s : System n) (w : Fin n) (pc : Producer)
    (h : ring.producerBarrier = s.ring.producerBarrier) :
    ((s.store ring).goto w pc).potential + (s.producers w).left n s.ring.producerBarrier =
      s.potential + pc.left n s.ring.producerBarrier := by
  have hgoto := (s.store ring).potential_goto w pc
  have hbarrier : (s.store ring).ring.producerBarrier = s.ring.producerBarrier := h
  rw [hbarrier, s.potential_store h] at hgoto
  exact hgoto

/-- A step to a place from which there is less to do, while the barrier stays as it is. -/
theorem goto_pays {ring : MpscRingBuffer n} {pc : Producer}
    (h : ring.producerBarrier = s.ring.producerBarrier)
    (hless : pc.left n s.ring.producerBarrier < (s.producers w).left n s.ring.producerBarrier) :
    1 + ((s.store ring).goto w pc).potential ≤ s.potential := by
  have hgoto := s.potential_store_goto w pc h
  omega

/-- A step that changes the barrier. -/
theorem change_pays {u : System n} {pc : Producer} (hproducers : u.producers = s.producers)
    (hconsumer : u.consumer = s.consumer)
    (hless : pc.left n u.ring.producerBarrier + 4 * n + 1 ≤
      (s.producers w).left n u.ring.producerBarrier) :
    1 + (u.goto w pc).potential ≤ s.potential := by
  have hgoto := u.potential_goto w pc
  have hbarrier := potential_le_of_barrier hproducers hconsumer
  rw [hproducers] at hgoto
  omega

/-- A step of a worker is paid for by what it had left to do. -/
theorem producerStep_pays (hstep : s.producerStep capacity w = some t) :
    (s.moves (.producer w)).toNat + t.potential ≤ s.potential := by
  have hmoves : (s.moves (.producer w)).toNat ≤ 1 := Bool.toNat_le _
  have hpays : ∀ (ring : MpscRingBuffer n) {pc : Producer},
      ring.producerBarrier = s.ring.producerBarrier →
      pc.left n s.ring.producerBarrier < (s.producers w).left n s.ring.producerBarrier →
      (s.moves (.producer w)).toNat + ((s.store ring).goto w pc).potential ≤ s.potential := by
    intro ring pc hbarrier hless
    exact Nat.le_trans (Nat.add_le_add_right hmoves _) (goto_pays hbarrier hless)
  rw [producerStep] at hstep
  cases hpc : s.producers w with
  | unregistered | idle | holding => simp [hpc] at hstep
  | registering | giveUp | storeSeen | loadSeen | setEnd =>
    rw [hpc] at hstep
    cases hstep
    exact hpays _ rfl (by simp [hpc, Producer.left, Producer.rank, Producer.stale])
  | loadNext size =>
    rw [hpc] at hstep
    dsimp only at hstep
    split at hstep
    · rename_i hlocked
      cases hstep
      simp [moves, hpc, hlocked]
    · cases hstep
      exact hpays s.ring rfl (by simp [hpc, Producer.left, Producer.rank, Producer.stale])
  | loadWritten size seen lap =>
    rw [hpc] at hstep
    dsimp only at hstep
    split at hstep
    · cases hstep
      refine hpays s.ring rfl ?_
      simp only [hpc, Producer.left, Producer.rank, Producer.stale]
      omega
    · cases hstep
      refine hpays s.ring rfl ?_
      simp only [hpc, Producer.left, Producer.rank, Producer.stale]
      omega
  | exchange size seen target lap =>
    rw [hpc] at hstep
    dsimp only at hstep
    split at hstep
    · cases hstep
      refine Nat.le_trans (Nat.add_le_add_right hmoves _)
        (change_pays (s := s) (u := s.exchange w size seen target) rfl rfl ?_)
      simp only [hpc, Producer.left, Producer.rank, Producer.stale]
      omega
    -- the steps of the acquire come once more
    · rename_i hchanged
      cases hstep
      refine hpays s.ring rfl ?_
      simp only [hpc, Producer.left, Producer.rank, Producer.stale, if_neg (Ne.symm hchanged)]
      omega
  | storeUnlocked seen target own =>
    rw [hpc] at hstep
    cases hstep
    refine hpays _ rfl ?_
    split
    · simp [hpc, Producer.left, Producer.rank, Producer.stale]
    · simp [hpc, Producer.left, Producer.rank, Producer.stale]
  | unlockBarrier target =>
    rw [hpc] at hstep
    cases hstep
    refine Nat.le_trans (Nat.add_le_add_right hmoves _)
      (change_pays (s := s) (u := s.store _) rfl rfl ?_)
    simp [hpc, Producer.left, Producer.rank, Producer.stale]

/-- The consumer and what it may change do not matter to the workers. -/
theorem consumer_pays (hproducers : t.producers = s.producers)
    (hbarrier : t.ring.producerBarrier = s.ring.producerBarrier)
    (hless : t.consumer.rank < s.consumer.rank) : 1 + t.potential ≤ s.potential := by
  unfold potential
  rw [hproducers, hbarrier]
  omega

theorem consumerStep_pays (hstep : s.consumerStep capacity = some t) :
    (s.moves .consumer).toNat + t.potential ≤ s.potential := by
  have hmoves : (s.moves .consumer).toNat ≤ 1 := Bool.toNat_le _
  have hpays : t.producers = s.producers → t.ring.producerBarrier = s.ring.producerBarrier →
      t.consumer.rank < s.consumer.rank →
      (s.moves .consumer).toNat + t.potential ≤ s.potential :=
    fun hproducers hbarrier hless ↦
      Nat.le_trans (Nat.add_le_add_right hmoves _) (consumer_pays hproducers hbarrier hless)
  rw [consumerStep] at hstep
  cases hpc : s.consumer with
  | idle | returned => simp [hpc] at hstep
  | loadWritten =>
    rw [hpc] at hstep
    cases hstep
    refine hpays rfl rfl ?_
    simp only [hpc, Consumer.rank, turnRank]
    split <;> omega
  | loadNext written =>
    rw [hpc] at hstep
    dsimp only at hstep
    split at hstep
    · rename_i hlocked
      cases hstep
      simp [moves, hpc, hlocked]
    · split at hstep
      · cases hstep
        exact hpays rfl rfl (by simp [hpc, give, Consumer.rank])
      · cases hstep
        exact hpays rfl rfl (by simp [hpc, Consumer.rank])
  | scan written next ready rest =>
    rw [hpc] at hstep
    cases rest with
    | nil =>
      have hpos : 0 < turnRank n written := by
        unfold turnRank
        split <;> omega
      dsimp only at hstep
      split at hstep
      · rename_i hbehind
        split at hstep
        -- the consumer goes round, and will not be behind at 0
        · cases hstep
          refine hpays rfl rfl ?_
          simp only [hpc, Consumer.rank, turnRank, if_neg (Nat.ne_zero_of_lt hbehind)]
          omega
        · cases hstep
          exact hpays rfl rfl (by simpa [hpc, give, Consumer.rank] using hpos)
      · cases hstep
        exact hpays rfl rfl (by simpa [hpc, give, Consumer.rank] using hpos)
    | cons v rest =>
      dsimp only at hstep
      split at hstep
      · cases hstep
        refine hpays rfl rfl ?_
        simp only [hpc, Consumer.rank, List.length_cons]
        omega
      · cases hstep
        refine hpays rfl rfl ?_
        simp only [hpc, Consumer.rank, List.length_cons]
        omega
  | loadSeen written next ready v rest =>
    rw [hpc] at hstep
    dsimp only at hstep
    split at hstep
    · rename_i hlocked
      cases hstep
      simp [moves, hpc, hlocked]
    · cases hstep
      exact hpays rfl rfl (by simp [hpc, Consumer.rank])
  | resetEnd =>
    rw [hpc] at hstep
    cases hstep
    refine hpays rfl ?_ (by simp [hpc, Consumer.rank])
    dsimp only
    split <;> rfl
  | storeZero =>
    rw [hpc] at hstep
    cases hstep
    exact hpays rfl rfl (by simp [hpc, Consumer.rank, turnRank])
  | loadCurrent | storeReleased =>
    rw [hpc] at hstep
    cases hstep
    exact hpays rfl rfl (by simp [hpc, Consumer.rank])

/-- A call brings along what its steps need. -/
theorem call_pays (ring : MpscRingBuffer n) {pc : Producer} {k : Nat}
    (h : ring.producerBarrier = s.ring.producerBarrier)
    (hcost : pc.left n s.ring.producerBarrier ≤
      (s.producers w).left n s.ring.producerBarrier + k) :
    ((s.store ring).goto w pc).potential ≤ s.potential + k := by
  have hgoto := s.potential_store_goto w pc h
  omega

theorem step_pays {action : Action n} (hstep : s.step capacity action = some t) :
    (s.moves action).toNat + t.potential ≤ s.potential + cost action := by
  cases action with
  | registerWorker v =>
    rw [System.step, Option.ite_none_right_eq_some] at hstep
    obtain ⟨hpc, hstep⟩ := hstep
    cases hstep
    rw [moves, Bool.toNat_false, Nat.zero_add]
    exact call_pays _ rfl (by simp [hpc, cost, Producer.left, Producer.rank, Producer.stale])
  | acquire v size =>
    rw [System.step, Option.ite_none_right_eq_some] at hstep
    obtain ⟨⟨hpc, -⟩, hstep⟩ := hstep
    rw [moves, Bool.toNat_false, Nat.zero_add]
    split at hstep
    · cases hstep
      exact Nat.le_add_right _ _
    · cases hstep
      exact call_pays s.ring rfl
        (by simp [hpc, cost, Producer.left, Producer.rank, Producer.stale])
  | produce v =>
    rw [System.step, Option.ite_none_right_eq_some] at hstep
    obtain ⟨hpc, hstep⟩ := hstep
    cases hstep
    rw [moves, Bool.toNat_false, Nat.zero_add]
    exact call_pays (s := s) (s.ring.storeSeen v maxOffset) rfl
      (by simp [hpc, cost, Producer.left, Producer.rank, Producer.stale])
  | producer v => exact Nat.le_trans (producerStep_pays hstep) (Nat.le_add_right _ _)
  | spurious v =>
    rw [System.step] at hstep
    split at hstep
    · rename_i hpc
      cases hstep
      rw [moves, Bool.toNat_false, Nat.zero_add]
      refine call_pays s.ring rfl ?_
      simp only [hpc, cost, Producer.left, Producer.rank, Producer.stale]
      omega
    · contradiction
  | consume =>
    rw [System.step, Option.ite_none_right_eq_some] at hstep
    cases hstep.2
    simp only [moves, cost, potential, Consumer.rank, Bool.toNat_false]
    omega
  | release k =>
    rw [System.step, Option.ite_none_right_eq_some] at hstep
    cases hstep.2
    simp only [moves, cost, potential, Consumer.rank, Bool.toNat_false]
    omega
  | consumer => exact Nat.le_trans (consumerStep_pays hstep) (Nat.le_add_right _ _)

theorem potential_initial : (initial n).potential = 0 := by
  simp [potential, initial, Producer.left, Producer.rank, Producer.stale, Consumer.rank]

end System

/-! ## Who waits for whom -/

/-- The worker has locked the barrier, if it is locked, and is about to unlock it. -/
def Producer.wraps : Producer → Bool
  | .loadSeen _ target | .storeUnlocked _ target _ => isLocked target
  | .setEnd _ _ | .unlockBarrier _ => true
  | .unregistered | .registering | .idle | .loadNext _ | .storeSeen _ _ _ | .loadWritten _ _ _
  | .giveUp | .exchange _ _ _ _ | .holding => false

/-- The worker may have locked its own word, and is about to unlock it. -/
def Producer.publishes : Producer → Bool
  | .loadNext _ | .storeSeen _ _ _ | .loadWritten _ _ _ | .giveUp | .exchange _ _ _ _
  | .loadSeen _ _ | .storeUnlocked _ _ _ => true
  | .unregistered | .registering | .idle | .setEnd _ _ | .unlockBarrier _ | .holding => false

theorem isLocked_unlockWrapBit (x : Nat) : isLocked (unlockWrapBit x) = false := by
  rw [unlockWrapBit_eq_mod]
  exact isLocked_of_lt (Nat.mod_lt x (by decide))

namespace System

variable {capacity : Nat} {s t : System n} {w : Fin n}

/-- Whoever has locked a word is going to unlock it. -/
structure Locks (s : System n) : Prop where
  barrier : isLocked s.ring.producerBarrier = true → ∃ w, (s.producers w).wraps = true
  word : ∀ w, isLocked (s.ring.workers w).seen = true → (s.producers w).publishes = true

theorem locks_initial : Locks (initial n) where
  barrier h := absurd (show isLocked 0 = true from h) (by decide)
  word _ h := absurd (show isLocked 0 = true from h) (by decide)

/-- A worker goes on and stores at most into its own word and into the barrier. -/
theorem Locks.goto (h : Locks s) (ring : MpscRingBuffer n) {pc : Producer}
    (hbarrier : isLocked ring.producerBarrier = true →
      isLocked s.ring.producerBarrier = true ∧
        ((s.producers w).wraps = true → pc.wraps = true) ∨ pc.wraps = true)
    (hothers : ∀ v, v ≠ w → ring.workers v = s.ring.workers v)
    (hown : isLocked (ring.workers w).seen = true → pc.publishes = true) :
    Locks ((s.store ring).goto w pc) where
  barrier hlocked := by
    rcases hbarrier hlocked with ⟨hbefore, hwraps⟩ | hwraps
    · obtain ⟨v, hv⟩ := h.barrier hbefore
      by_cases heq : v = w
      · refine ⟨w, ?_⟩
        rw [producers_goto_self]
        exact hwraps (heq ▸ hv)
      · refine ⟨v, ?_⟩
        rw [producers_goto_of_ne _ pc heq]
        exact hv
    · refine ⟨w, ?_⟩
      rw [producers_goto_self]
      exact hwraps
  word v hlocked := by
    by_cases heq : v = w
    · rw [heq, producers_goto_self]
      exact hown (heq ▸ hlocked)
    · rw [producers_goto_of_ne _ pc heq]
      refine h.word v ?_
      rw [← hothers v heq]
      exact hlocked

theorem workers_storeSeen_of_ne (rb : MpscRingBuffer n) (seen : Nat) {v : Fin n} (h : v ≠ w) :
    (rb.storeSeen w seen).workers v = rb.workers v := Function.update_of_ne h _ _

theorem seen_storeSeen_self (rb : MpscRingBuffer n) (w : Fin n) (seen : Nat) :
    ((rb.storeSeen w seen).workers w).seen = seen := by
  unfold storeSeen setWorker
  dsimp only
  rw [Function.update_self]

/-- A worker goes on without a store. -/
theorem Locks.move (h : Locks s) {pc : Producer}
    (hwraps : (s.producers w).wraps = true → pc.wraps = true)
    (hpublishes : (s.producers w).publishes = true → pc.publishes = true) :
    Locks (s.goto w pc) :=
  h.goto s.ring (fun hlocked ↦ Or.inl ⟨hlocked, hwraps⟩) (fun _ _ ↦ rfl)
    fun hlocked ↦ hpublishes (h.word w hlocked)

/-- A worker stores into its own word. -/
theorem Locks.storeSeen (h : Locks s) {pc : Producer} {seen : Nat}
    (hwraps : (s.producers w).wraps = true → pc.wraps = true)
    (hown : isLocked seen = true → pc.publishes = true) :
    Locks ((s.store (s.ring.storeSeen w seen)).goto w pc) := by
  refine h.goto _ (fun hlocked ↦ Or.inl ⟨hlocked, hwraps⟩)
    (fun v hne ↦ workers_storeSeen_of_ne s.ring seen hne) ?_
  rw [seen_storeSeen_self]
  exact hown

theorem Locks.producerStep (h : Locks s) (hstep : s.producerStep capacity w = some t) :
    Locks t := by
  rw [System.producerStep] at hstep
  cases hpc : s.producers w with
  | unregistered | idle | holding => simp [hpc] at hstep
  | registering =>
    rw [hpc] at hstep
    cases hstep
    refine h.goto _ (fun hlocked ↦ Or.inl ⟨hlocked, by simp [hpc, Producer.wraps]⟩)
      (fun v hne ↦ Function.update_of_ne hne _ _) fun hlocked ↦ ?_
    refine absurd (h.word w ?_) (by simp [hpc, Producer.publishes])
    simpa [setWorker] using hlocked
  | loadNext size =>
    rw [hpc] at hstep
    dsimp only at hstep
    split at hstep
    · cases hstep
      exact h
    · cases hstep
      exact h.move (by simp [hpc, Producer.wraps]) (by simp [Producer.publishes])
  | storeSeen size seen lap =>
    rw [hpc] at hstep
    cases hstep
    exact h.storeSeen (by simp [hpc, Producer.wraps]) (by simp [Producer.publishes])
  | loadWritten size seen lap =>
    rw [hpc] at hstep
    dsimp only at hstep
    split at hstep
    · cases hstep
      exact h.move (by simp [hpc, Producer.wraps]) (by simp [Producer.publishes])
    · cases hstep
      exact h.move (by simp [hpc, Producer.wraps]) (by simp [Producer.publishes])
  | giveUp =>
    rw [hpc] at hstep
    cases hstep
    exact h.storeSeen (by simp [hpc, Producer.wraps]) (by simp [isLocked_maxOffset])
  | exchange size seen target lap =>
    rw [hpc] at hstep
    dsimp only at hstep
    split at hstep
    · cases hstep
      have hexchanged : Locks ((s.store { s.ring with producerBarrier := target }).goto w
          (.loadSeen seen target)) :=
        h.goto _ (fun hlocked ↦ Or.inr hlocked) (fun _ _ ↦ rfl) fun _ ↦ rfl
      exact ⟨hexchanged.barrier, hexchanged.word⟩
    · cases hstep
      exact h.move (by simp [hpc, Producer.wraps]) (by simp [Producer.publishes])
  | loadSeen seen target =>
    rw [hpc] at hstep
    cases hstep
    exact h.move (by simp [hpc, Producer.wraps]) (by simp [Producer.publishes])
  | storeUnlocked seen target own =>
    rw [hpc] at hstep
    cases hstep
    refine h.storeSeen ?_ (by simp [isLocked_unlockWrapBit])
    intro hwraps
    rw [hpc, Producer.wraps] at hwraps
    rw [if_pos hwraps]
    rfl
  | setEnd seen target =>
    rw [hpc] at hstep
    cases hstep
    exact h.goto _ (fun _ ↦ Or.inr rfl) (fun _ _ ↦ rfl)
      fun hlocked ↦ absurd (h.word w hlocked) (by simp [hpc, Producer.publishes])
  | unlockBarrier target =>
    rw [hpc] at hstep
    cases hstep
    refine h.goto _ (fun hlocked ↦ ?_) (fun _ _ ↦ rfl)
      fun hlocked ↦ absurd (h.word w hlocked) (by simp [hpc, Producer.publishes])
    exact absurd ((isLocked_unlockWrapBit target).symm.trans hlocked) Bool.false_ne_true

theorem Locks.congr (h : Locks s) (hproducers : t.producers = s.producers)
    (hbarrier : t.ring.producerBarrier = s.ring.producerBarrier)
    (hworkers : t.ring.workers = s.ring.workers) : Locks t where
  barrier := by
    rw [hproducers, hbarrier]
    exact h.barrier
  word := by
    rw [hproducers, hworkers]
    exact h.word

/-- The consumer leaves the words that it may have to wait for alone. -/
theorem consumerStep_keeps (hstep : s.consumerStep capacity = some t) :
    t.producers = s.producers ∧ t.ring.producerBarrier = s.ring.producerBarrier ∧
      t.ring.workers = s.ring.workers := by
  unfold System.consumerStep at hstep
  split at hstep
  all_goals repeat' split at hstep
  all_goals cases hstep
  all_goals exact ⟨rfl, rfl, rfl⟩

theorem Locks.step {action : Action n} (h : Locks s) (hstep : s.step capacity action = some t) :
    Locks t := by
  cases action with
  | registerWorker v =>
    rw [System.step, Option.ite_none_right_eq_some] at hstep
    obtain ⟨hpc, hstep⟩ := hstep
    cases hstep
    exact h.storeSeen (by simp [hpc, Producer.wraps]) (by simp [isLocked_maxOffset])
  | acquire v size =>
    rw [System.step, Option.ite_none_right_eq_some] at hstep
    obtain ⟨⟨hpc, -⟩, hstep⟩ := hstep
    split at hstep
    · cases hstep
      exact h
    · cases hstep
      exact h.move (by simp [hpc, Producer.wraps]) (by simp [Producer.publishes])
  | produce v =>
    rw [System.step, Option.ite_none_right_eq_some] at hstep
    obtain ⟨hpc, hstep⟩ := hstep
    cases hstep
    have hstored : Locks ((s.store (s.ring.storeSeen v maxOffset)).goto v .idle) :=
      h.storeSeen (by simp [hpc, Producer.wraps]) (by simp [isLocked_maxOffset])
    exact hstored.congr rfl rfl rfl
  | producer v => exact h.producerStep hstep
  | spurious v =>
    rw [System.step] at hstep
    split at hstep
    · rename_i hpc
      cases hstep
      exact h.move (by simp [hpc, Producer.wraps]) (by simp [Producer.publishes])
    · contradiction
  | consume | release k =>
    rw [System.step, Option.ite_none_right_eq_some] at hstep
    cases hstep.2
    exact h.congr rfl rfl rfl
  | consumer =>
    obtain ⟨hproducers, hbarrier, hworkers⟩ := consumerStep_keeps hstep
    exact h.congr hproducers hbarrier hworkers

/-- Where nobody can move, nobody is in a call. -/
theorem Locks.atRest (h : Locks s) (hproducers : ∀ w, s.moves (.producer w) = false)
    (hconsumer : s.moves .consumer = false) : AtRest s := by
  have hunlocked : isLocked s.ring.producerBarrier = false := by
    by_contra hlocked
    obtain ⟨w, hwraps⟩ := h.barrier (eq_true_of_ne_false hlocked)
    have hmoves := hproducers w
    rw [moves] at hmoves
    cases hpc : s.producers w <;> simp_all [Producer.wraps, Producer.rests]
  have hrests : ∀ w, (s.producers w).rests = true := by
    intro w
    have hmoves := hproducers w
    rw [moves] at hmoves
    cases hpc : s.producers w <;> simp_all [Producer.rests]
  refine ⟨hrests, ?_⟩
  rw [moves] at hconsumer
  split at hconsumer
  · simp [hunlocked] at hconsumer
  · rename_i v rest hpc
    have hpublishes := h.word v (by simpa using hconsumer)
    have hrest := hrests v
    cases hpc : s.producers v <;> simp_all [Producer.publishes, Producer.rests]
  · simpa using hconsumer

/-! ## Whole runs -/

/-- In every run, also one with a stale compare-exchange, the calls pay for the steps that do not
wait, and when no such step is left all calls have ended. -/
theorem ends_of_run {actions : List (Action n)}
    (hrun : run (step capacity) (initial n) actions = some s) :
    (initial n).made capacity actions ≤ (actions.map cost).sum ∧
      ((∀ w, s.moves (.producer w) = false) → s.moves .consumer = false → s.AtRest) := by
  have hlocks : Locks s :=
    invariant_of_run Locks (fun _ _ _ h hstep ↦ h.step hstep) locks_initial hrun
  have hpays := work_le_of_run (fun _ _ _ hstep ↦ step_pays hstep) hrun
  rw [potential_initial, Nat.zero_add] at hpays
  exact ⟨Nat.le_trans (Nat.le_add_right _ _) hpays, hlocks.atRest⟩

/-- The exchange of `v` comes before that of `w`, which starts over. -/
def contendedRun (w v : Fin 2) : List (Action 2) :=
  [.registerWorker w, .producer w, .registerWorker v, .producer v,
    .acquire w 3, .producer w, .producer w, .producer w,
    .acquire v 2, .producer v, .producer v, .producer v, .producer v, .producer v, .producer v,
    .producer w, .producer w, .producer w, .producer w, .producer w, .producer w, .producer w]

theorem ends_of_run_contendedRun : ∃ s : System 2,
    run (step 8) (initial 2) (contendedRun 0 1) = some s ∧
    (initial 2).made 8 (contendedRun 0 1) = 18 ∧ 18 ≤ ((contendedRun 0 1).map cost).sum ∧
    s.AtRest := by
  have hends := ends_of_run (show run (step 8) (initial 2) (contendedRun 0 1) = some _ from rfl)
  exact ⟨_, rfl, rfl, hends.1, hends.2 (by decide) rfl⟩

end System

end Ustevent.MpscRingBuffer
