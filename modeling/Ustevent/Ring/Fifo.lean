import Ustevent.Reasoning.Circular
import Ustevent.Ring.Buffer

/-!
# What the ring buffer is for: a FIFO queue of reservations

A reservation is a byte range that an acquire handed to a worker.  The queue keeps the reservations
in acquire order; a consume shows the longest run of produced ones that starts at the oldest and has
no gap in memory, and a release takes reservations from that run.
-/

namespace Ustevent

open Reasoning

structure Reservation (n : Nat) where
  owner : Fin n
  start : Nat
  size : Nat
  produced : Bool
deriving DecidableEq

namespace Reservation

variable {n : Nat}

/-- What `produce` does to the reservation of its worker. -/
def markProduced (w : Fin n) (r : Reservation n) : Reservation n :=
  if r.owner = w then { r with produced := true } else r

/-- The reservation without its progress. -/
def range (r : Reservation n) : Fin n × Nat × Nat := (r.owner, r.start, r.size)

@[simp] theorem markProduced_owner (w : Fin n) (r : Reservation n) :
    (markProduced w r).owner = r.owner := by
  unfold markProduced
  split <;> rfl

@[simp] theorem markProduced_start (w : Fin n) (r : Reservation n) :
    (markProduced w r).start = r.start := by
  unfold markProduced
  split <;> rfl

@[simp] theorem markProduced_size (w : Fin n) (r : Reservation n) :
    (markProduced w r).size = r.size := by
  unfold markProduced
  split <;> rfl

@[simp] theorem range_markProduced (w : Fin n) (r : Reservation n) :
    (markProduced w r).range = r.range := by
  simp only [range, markProduced_owner, markProduced_start, markProduced_size]

theorem markProduced_produced_eq_false {w : Fin n} {r : Reservation n} :
    (markProduced w r).produced = false ↔ r.owner ≠ w ∧ r.produced = false := by
  unfold markProduced
  split <;> simp_all

end Reservation

open Reservation

/-! ## The run that a consume shows -/

section ReadyRun

variable {n : Nat}

/-- The produced reservations at the head of the list that lie end to end from `a`. -/
def readyFrom (a : Nat) : List (Reservation n) → List (Reservation n)
  | [] => []
  | r :: rs => if r.produced = true ∧ r.start = a then r :: readyFrom (a + r.size) rs else []

/-- The longest run of produced reservations without a gap that starts at the first one. -/
def readyRun : List (Reservation n) → List (Reservation n)
  | [] => []
  | r :: rs => readyFrom r.start (r :: rs)

theorem readyFrom_initial (a : Nat) (l : List (Reservation n)) : readyFrom a l <+: l := by
  induction l generalizing a with
  | nil => exact List.prefix_rfl
  | cons r l ih =>
    rw [readyFrom]
    split
    · exact List.prefix_cons_inj r |>.mpr (ih _)
    · exact List.nil_prefix

theorem readyFrom_produced {a : Nat} {l : List (Reservation n)} {r : Reservation n}
    (h : r ∈ readyFrom a l) : r.produced = true := by
  induction l generalizing a with
  | nil => exact absurd h List.not_mem_nil
  | cons s l ih =>
    rw [readyFrom] at h
    split at h
    · rename_i hs
      rcases List.mem_cons.mp h with rfl | hmem
      · exact hs.1
      · exact ih hmem
    · exact absurd h List.not_mem_nil

theorem readyFrom_chain (a : Nat) (l : List (Reservation n)) :
    Chain start size a (readyFrom a l) (a + total size (readyFrom a l)) := by
  induction l generalizing a with
  | nil => rfl
  | cons r l ih =>
    rw [readyFrom]
    split
    · rename_i hr
      rw [total_cons, ← Nat.add_assoc]
      exact ⟨hr.2, ih _⟩
    · rfl

/-- No longer prefix is produced throughout and without a gap. -/
theorem readyFrom_longest {a b : Nat} {l m : List (Reservation n)} (hinit : m <+: l)
    (hchain : Chain start size a m b) (hprod : ∀ r ∈ m, r.produced = true) :
    m <+: readyFrom a l := by
  induction m generalizing a l with
  | nil => exact List.nil_prefix
  | cons r m ih =>
    cases l with
    | nil => exact absurd (List.prefix_nil.mp hinit) (List.cons_ne_nil r m)
    | cons s l =>
      obtain ⟨rfl, hrest⟩ := List.cons_prefix_cons.mp hinit
      rw [readyFrom, if_pos ⟨hprod r List.mem_cons_self, hchain.1⟩]
      exact List.prefix_cons_inj r |>.mpr
        (ih hrest hchain.2 fun q hq ↦ hprod q (List.mem_cons_of_mem r hq))

theorem readyRun_initial (l : List (Reservation n)) : readyRun l <+: l := by
  cases l with
  | nil => exact List.prefix_rfl
  | cons r l => exact readyFrom_initial _ _

theorem readyRun_produced {l : List (Reservation n)} {r : Reservation n} (h : r ∈ readyRun l) :
    r.produced = true := by
  cases l with
  | nil => exact absurd h List.not_mem_nil
  | cons s l => exact readyFrom_produced h

end ReadyRun

/-! ## The queue and its clients -/

/-- The calls of the producers and of the consumer.  `release k` stands for `release(bytes)` with
the bytes of the `k` oldest reservations. -/
inductive Call (n : Nat)
  | registerWorker (w : Fin n)
  | unregisterWorker (w : Fin n)
  | acquire (w : Fin n) (size : Nat)
  | produce (w : Fin n)
  | consume
  | release (k : Nat)
deriving DecidableEq

inductive Result
  | done
  | acquired (address : Option Nat)
  | consumed (address : Option Nat) (size : Nat)
deriving DecidableEq

/-- `granted` counts the reservations at the head of `pending` that the last consume returned and
that have not been released since; `released` is history. -/
structure Fifo (n : Nat) where
  registered : Fin n → Bool
  released : List (Reservation n)
  pending : List (Reservation n)
  granted : Nat

/-- The whole reservations at the head of the list that `bytes` bytes cover. -/
def covered {n : Nat} : Nat → List (Reservation n) → Nat
  | _, [] => 0
  | bytes, r :: rs => if r.size ≤ bytes then covered (bytes - r.size) rs + 1 else 0

namespace Fifo

variable {n : Nat}

def empty (n : Nat) : Fifo n := ⟨fun _ ↦ false, [], [], 0⟩

/-- Worker `w` is between a successful acquire and its produce. -/
def Holds (q : Fifo n) (w : Fin n) : Prop := ∃ r ∈ q.pending, r.owner = w ∧ r.produced = false

instance (q : Fifo n) (w : Fin n) : Decidable (q.Holds w) :=
  inferInstanceAs (Decidable (∃ r ∈ q.pending, r.owner = w ∧ r.produced = false))

/-- The contract of the clients. -/
def Permits (q : Fifo n) : Call n → Prop
  | .registerWorker w => q.registered w = false
  | .unregisterWorker w => q.registered w = true ∧ ¬ q.Holds w
  | .acquire w size => q.registered w = true ∧ ¬ q.Holds w ∧ 1 ≤ size
  | .produce w => q.Holds w
  | .consume => True
  | .release k => k ≤ q.granted

instance (q : Fifo n) : (c : Call n) → Decidable (q.Permits c)
  | .registerWorker w => inferInstanceAs (Decidable (q.registered w = false))
  | .unregisterWorker w => inferInstanceAs (Decidable (q.registered w = true ∧ ¬ q.Holds w))
  | .acquire w size =>
    inferInstanceAs (Decidable (q.registered w = true ∧ ¬ q.Holds w ∧ 1 ≤ size))
  | .produce w => inferInstanceAs (Decidable (q.Holds w))
  | .consume => inferInstanceAs (Decidable True)
  | .release k => inferInstanceAs (Decidable (k ≤ q.granted))

/-- What the queue promises about the result of a call. -/
def Allows (capacity : Nat) (q : Fifo n) : Call n → Result → Prop
  | .acquire w size, .acquired address =>
      ∀ a, address = some a → a + size ≤ capacity ∧
        ∀ r ∈ q.pending, Disjoint start Reservation.size r ⟨w, a, size, false⟩
  | .consume, .consumed address bytes =>
      bytes = total size (readyRun q.pending) ∧
        (0 < bytes → address = q.pending.head?.map start)
  | .acquire _ _, _ => False
  | .consume, _ => False
  | _, result => result = .done

/-- The queue after a call with the given result. -/
def observe (q : Fifo n) : Call n → Result → Fifo n
  | .registerWorker w, _ => { q with registered := Function.update q.registered w true }
  | .unregisterWorker w, _ => { q with registered := Function.update q.registered w false }
  | .acquire w size, .acquired (some a) =>
      { q with pending := q.pending ++ [⟨w, a, size, false⟩] }
  | .acquire _ _, _ => q
  | .produce w, _ => { q with pending := q.pending.map (markProduced w) }
  | .consume, .consumed _ bytes => { q with granted := covered bytes q.pending }
  | .consume, _ => q
  | .release k, _ =>
      { q with
        released := q.released ++ q.pending.take k
        pending := q.pending.drop k
        granted := q.granted - k }

/-- The calls and results of a history are ones that the queue permits and allows. -/
inductive Run (capacity : Nat) : Fifo n → List (Call n × Result) → Fifo n → Prop
  | nil (q : Fifo n) : Run capacity q [] q
  | concat {q q' : Fifo n} {h : List (Call n × Result)} {c : Call n} {r : Result}
      (hrun : Run capacity q h q') (hpermit : q'.Permits c) (hallow : q'.Allows capacity c r) :
      Run capacity q (h ++ [(c, r)]) (q'.observe c r)

/-- The reservation that a call made. -/
def acquisition : Call n × Result → Option (Fin n × Nat × Nat)
  | (.acquire w size, .acquired (some a)) => some (w, a, size)
  | _ => none

/-- The reservations that the acquires of a history made, in order. -/
def acquisitions (h : List (Call n × Result)) : List (Fin n × Nat × Nat) :=
  h.filterMap acquisition

end Fifo

end Ustevent
