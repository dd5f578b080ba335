import Ustevent.Queue.TaskQueue
import Mathlib.Data.List.TakeWhile

/-!
# What pop makes of the records

A range that `consume` has returned holds records end to end.  `pop` takes the length of the
description from the place of the operation length, so that a description ends for it at the first
zero byte.
-/

namespace Ustevent.ContextTaskQueue

open Reasoning MpscRingBuffer

/-- push has written the record, and nobody has touched it since. -/
def Written (m : Buffer) (base number : Nat) (task : Task) : Prop :=
  ∃ before, (writeRecord before base number task).Agree m base (base + task.acquiredSize)

/-- The records with their numbers lie end to end from `base` on. -/
def Lie (m : Buffer) : Nat → List (Nat × Task) → Prop
  | _, [] => True
  | base, (number, task) :: records =>
    Written m base number task ∧ Lie m (base + task.acquiredSize) records

def length (records : List (Nat × Task)) : Nat := (records.map fun r ↦ r.2.acquiredSize).sum

/-- The next pops read the records, from what is left of a range or from the range that consume
returns. -/
def Reads {n : Nat} (capacity : Nat) (q : ContextTaskQueue n) (base : Nat)
    (records : List (Nat × Task)) : Prop :=
  Lie q.memory base records ∧
    if q.poped < q.consumed then q.poped = base ∧ q.consumed = base + length records
    else ∃ ring, consume capacity q.ring = .ok ((some base, length records), ring)

/-- Other threads leave the cursor and what it has yet to pass as they are. -/
structure Others {n : Nat} (q r : ContextTaskQueue n) : Prop where
  poped : r.poped = q.poped
  consumed : r.consumed = q.consumed
  unread : q.memory.Agree r.memory q.poped q.consumed

/-- What pop has returned, and the object that lies at the address of the operation. -/
structure Decoded where
  popped : Popped
  operation : Option Operation
deriving DecidableEq

def decode (m : Buffer) (popped : Popped) : Decoded :=
  ⟨popped, m.readObject Operation.size popped.operation⟩

/-- Pops one after the other, with other threads in between. -/
inductive Pops {n : Nat} (capacity : Nat) :
    ContextTaskQueue n → List Decoded → ContextTaskQueue n → Prop
  | last {q q' : ContextTaskQueue n} {popped : Popped} (hpop : pop capacity q = .ok (some popped, q')) :
    Pops capacity q [decode q'.memory popped] q'
  | cons {q q' r r' : ContextTaskQueue n} {popped : Popped} {rest : List Decoded}
    (hpop : pop capacity q = .ok (some popped, q')) (hothers : Others q' r)
    (hrest : Pops capacity r rest r') : Pops capacity q (decode q'.memory popped :: rest) r'

/-- The records with the descriptions that are found in them. -/
def decoded (description : Task → List UInt8) : Nat → List (Nat × Task) → List Decoded
  | _, [] => []
  | base, (number, task) :: records =>
    ⟨⟨base + operationOffset, task.stackSize, description task⟩,
      some ⟨number, task.operationLength⟩⟩ ::
      decoded description (base + task.acquiredSize) records

/-! ## One record -/

variable {n capacity base number : Nat} {m m' : Buffer} {task : Task}
  {records : List (Nat × Task)} {q q' r : ContextTaskQueue n} {decodes : List Decoded}

theorem Written.holds (h : Written m base number task) (hlt : task.operationLength < 2 ^ 32) :
    Holds m base number task := by
  obtain ⟨before, hagree⟩ := h
  exact (writeRecord_holds before base number task hlt).agree hagree

/-- A description goes as far as its first zero byte. -/
def Task.text (task : Task) : List UInt8 := task.description.takeWhile (· ≠ 0)

theorem Holds.readRecord_eq (h : Holds m base number task)
    (hfits : base + task.acquiredSize ≤ capacity) :
    readRecord capacity m base = (⟨base + operationOffset, task.stackSize % 2 ^ 32, task.text⟩,
      task.acquiredSize % 2 ^ 32) := by
  have ⟨hoperation, hdescription, hend⟩ := task.offsets
  have hstring : m.readCString (base + descriptionOffset task.operationLength)
      (capacity - (base + descriptionOffset task.operationLength)) = task.text :=
    Memory.readCString_eq_takeWhile h.description h.terminator (by omega)
  unfold readRecord
  simp only [h.header, h.operationLength, h.stackSize, hstring,
    if_pos (show task.operationLength > 0 from task.pos)]

theorem Holds.readObject (h : Holds m base number task) :
    m.readObject Operation.size (base + operationOffset) = some ⟨number, task.operationLength⟩ :=
  Memory.readObject_eq_some task.pos h.operation

@[simp] theorem length_nil : length [] = 0 := rfl

@[simp] theorem length_cons (number : Nat) (task : Task) (records : List (Nat × Task)) :
    length ((number, task) :: records) = task.acquiredSize + length records := by
  simp only [length, List.map_cons, List.sum_cons]

theorem Task.acquiredSize_pos (task : Task) : 0 < task.acquiredSize := by
  have ⟨_, _, hend⟩ := task.offsets
  omega

/-! ## A range of records -/

theorem Lie.agree (h : Lie m base records) (hagree : m.Agree m' base (base + length records)) :
    Lie m' base records := by
  induction records generalizing base with
  | nil => trivial
  | cons record records ih =>
    obtain ⟨number, task⟩ := record
    obtain ⟨⟨before, hwritten⟩, hrest⟩ := h
    rw [length_cons] at hagree
    refine ⟨⟨before, hwritten.trans (hagree.sub (Nat.le_refl _) (by omega))⟩, ih hrest ?_⟩
    exact hagree.sub (by omega) (by omega)

/-- What is left of a range that pops have begun to read. -/
structure Left (q : ContextTaskQueue n) (base : Nat) (records : List (Nat × Task)) : Prop where
  lie : Lie q.memory base records
  poped : q.poped = base
  consumed : q.consumed = base + length records

theorem Left.others (h : Left q base records) (hothers : Others q r) : Left r base records where
  lie := by
    have hunread := hothers.unread
    rw [h.poped, h.consumed] at hunread
    exact h.lie.agree hunread
  poped := hothers.poped.trans h.poped
  consumed := hothers.consumed.trans h.consumed

theorem Left.reads (h : Left q base ((number, task) :: records)) :
    Reads capacity q base ((number, task) :: records) := by
  have hpos := task.acquiredSize_pos
  have hconsumed := h.consumed
  rw [length_cons] at hconsumed
  refine ⟨h.lie, ?_⟩
  rw [if_pos (by rw [h.poped]; omega)]
  exact ⟨h.poped, h.consumed⟩

/-- Both branches of pop read the first record and move the cursor by the length in its header. -/
theorem Reads.pop_eq (h : Reads capacity q base ((number, task) :: records))
    (hlt : task.operationLength < 2 ^ 32) (hstack : task.stackSize < 2 ^ 32)
    (hfits : base + length ((number, task) :: records) ≤ capacity) :
    ∃ q', pop capacity q = .ok (some ⟨base + operationOffset, task.stackSize, task.text⟩, q') ∧
      q'.memory = q.memory ∧ q'.poped = base + task.acquiredSize % 2 ^ 32 ∧
      q'.consumed = base + length ((number, task) :: records) := by
  obtain ⟨⟨hwritten, hrest⟩, hcursor⟩ := h
  rw [length_cons] at hfits hcursor ⊢
  have hread := (hwritten.holds hlt).readRecord_eq
    (show base + task.acquiredSize ≤ capacity by omega)
  rw [Nat.mod_eq_of_lt hstack] at hread
  have hpos := task.acquiredSize_pos
  unfold ContextTaskQueue.pop
  by_cases hleft : q.poped < q.consumed
  · rw [if_pos hleft] at hcursor ⊢
    obtain ⟨hpoped, hconsumed⟩ := hcursor
    rw [hpoped, hread]
    exact ⟨_, rfl, rfl, rfl, hconsumed⟩
  · rw [if_neg hleft] at hcursor ⊢
    obtain ⟨ring, hconsume⟩ := hcursor
    have hsome : ¬ task.acquiredSize + length records = 0 := by omega
    rw [hconsume]
    simp only [ok_bind, if_neg hsome, Option.getD_some, hread]
    exact ⟨_, rfl, rfl, rfl, rfl⟩

theorem Reads.pop (h : Reads capacity q base ((number, task) :: records))
    (hcap : capacity < 2 ^ 32) (hstack : task.stackSize < 2 ^ 32)
    (hfits : base + length ((number, task) :: records) ≤ capacity) :
    ∃ q', pop capacity q = .ok (some ⟨base + operationOffset, task.stackSize, task.text⟩, q') ∧
      q'.memory = q.memory ∧ Left q' (base + task.acquiredSize) records := by
  have ⟨hoperation, hdescription, hend⟩ := task.offsets
  have hlength := length_cons number task records
  obtain ⟨q', hpop, hmemory, hpoped, hconsumed⟩ := h.pop_eq (by omega) hstack hfits
  refine ⟨q', hpop, hmemory, ?_, ?_, ?_⟩
  · rw [hmemory]
    exact h.1.2
  · rw [hpoped, Nat.mod_eq_of_lt (by omega)]
  · rw [hconsumed, hlength, Nat.add_assoc]

theorem Pops.reads (hpops : Pops capacity q decodes q') (hcap : capacity < 2 ^ 32)
    (hstack : ∀ record ∈ records, record.2.stackSize < 2 ^ 32)
    (hreads : Reads capacity q base records) (hfits : base + length records ≤ capacity)
    (hle : decodes.length ≤ records.length) :
    decodes = (decoded Task.text base records).take decodes.length ∧
      Left q' (base + length (records.take decodes.length)) (records.drop decodes.length) := by
  -- the pop of the first record, which both constructors begin with
  have hfirst : ∀ {q q' : ContextTaskQueue n} {popped base records number task},
      (∀ record ∈ (number, task) :: records, record.2.stackSize < 2 ^ 32) →
      Reads capacity q base ((number, task) :: records) →
      base + length ((number, task) :: records) ≤ capacity →
      ContextTaskQueue.pop capacity q = .ok (some popped, q') →
      decode q'.memory popped = ⟨⟨base + operationOffset, task.stackSize, task.text⟩,
        some ⟨number, task.operationLength⟩⟩ ∧ Left q' (base + task.acquiredSize) records := by
    intro q q' popped base records number task hstack hreads hfits hpop
    obtain ⟨q'', hpop', hmemory, hleft⟩ := hreads.pop hcap (hstack _ List.mem_cons_self) hfits
    rw [hpop, Except.ok.injEq, Prod.mk.injEq, Option.some.injEq] at hpop'
    obtain ⟨rfl, rfl⟩ := hpop'
    refine ⟨?_, hleft⟩
    have ⟨hoperation, hdescription, hend⟩ := task.offsets
    rw [length_cons] at hfits
    have hholds : Holds q.memory base number task := hreads.1.1.holds (by omega)
    rw [decode, hmemory, hholds.readObject]
  induction hpops generalizing base records with
  | last hpop =>
    cases records with
    | nil => simp at hle
    | cons record records =>
      obtain ⟨number, task⟩ := record
      obtain ⟨hdecode, hleft⟩ := hfirst hstack hreads hfits hpop
      rw [hdecode]
      simpa [decoded] using hleft
  | cons hpop hothers hrest ih =>
    cases records with
    | nil => simp at hle
    | cons record records =>
      obtain ⟨number, task⟩ := record
      obtain ⟨hdecode, hleft⟩ := hfirst hstack hreads hfits hpop
      have hleft := hleft.others hothers
      cases records with
      | nil =>
        cases hrest <;> simp at hle
      | cons record records =>
        rw [length_cons] at hfits
        obtain ⟨hdecodes, hend⟩ := ih (fun r hr ↦ hstack r (List.mem_cons_of_mem _ hr))
          hleft.reads (by omega) (by simpa using hle)
        refine ⟨?_, ?_⟩
        · rw [hdecode, List.length_cons, decoded, List.take_succ_cons, ← hdecodes]
        · rw [List.length_cons, List.take_succ_cons, List.drop_succ_cons, length_cons,
            ← Nat.add_assoc]
          exact hend

/-- Descriptions without a zero byte are the ones that are found in the records. -/
theorem take_decoded_eq_iff {text description : Task → List UInt8} {k : Nat} :
    (decoded text base records).take k = (decoded description base records).take k ↔
      ∀ record ∈ records.take k, text record.2 = description record.2 := by
  induction records generalizing base k with
  | nil => simp [decoded]
  | cons record records ih =>
    cases k with
    | zero => simp
    | succ k =>
      simp only [decoded, List.take_succ_cons, List.cons.injEq, ih, List.forall_mem_cons,
        Decoded.mk.injEq, Popped.mk.injEq, true_and, and_true]

theorem Task.text_eq_iff (task : Task) : task.text = task.description ↔ 0 ∉ task.description := by
  rw [Task.text, List.takeWhile_eq_self_iff]
  simp only [decide_eq_true_eq]
  constructor
  · exact fun h hmem ↦ h 0 hmem rfl
  · rintro h b hmem rfl
    exact h hmem

/-- Any number of pops return the records that have been pushed, if and only if no description has
a zero byte; in any case the cursor passes from record to record up to the end of the range, and
the pops go on until then. -/
theorem pops_eq_iff (hcap : capacity < 2 ^ 32)
    (hstack : ∀ record ∈ records, record.2.stackSize < 2 ^ 32)
    (hreads : Reads capacity q base records) (hfits : base + length records ≤ capacity) :
    (records ≠ [] → ∃ popped r, pop capacity q = .ok (some popped, r)) ∧
      ∀ decodes q', Pops capacity q decodes q' → decodes.length ≤ records.length →
        (decodes = (decoded Task.description base records).take decodes.length ↔
          ∀ record ∈ records.take decodes.length, 0 ∉ record.2.description) ∧
        q'.poped = base + length (records.take decodes.length) ∧
        q'.consumed = base + length records ∧
        (decodes.length < records.length → ∀ r, Others q' r →
          ∃ popped r', pop capacity r = .ok (some popped, r')) := by
  refine ⟨fun hne ↦ ?_, fun decodes q' hpops hle ↦ ?_⟩
  · obtain ⟨⟨number, task⟩, rest, rfl⟩ := List.exists_cons_of_ne_nil hne
    obtain ⟨r, hpop, -⟩ := hreads.pop hcap (hstack _ List.mem_cons_self) hfits
    exact ⟨_, r, hpop⟩
  obtain ⟨hdecodes, hleft⟩ := hpops.reads hcap hstack hreads hfits hle
  have hlength : length (records.take decodes.length) + length (records.drop decodes.length) =
      length records := by
    rw [length, length, ← List.sum_append, ← List.map_append, List.take_append_drop, length]
  refine ⟨?_, hleft.poped, ?_, fun hlt r hothers ↦ ?_⟩
  · have hiff : (decoded Task.text base records).take decodes.length =
        (decoded Task.description base records).take decodes.length ↔
          ∀ record ∈ records.take decodes.length, 0 ∉ record.2.description := by
      simp only [take_decoded_eq_iff, Task.text_eq_iff]
    rwa [← hdecodes] at hiff
  · rw [hleft.consumed, Nat.add_assoc, hlength]
  · -- the next record is read by the first branch
    have hnext := hleft.others hothers
    obtain ⟨⟨number, task⟩, rest, hdrop⟩ := List.exists_cons_of_length_pos
      (show 0 < (records.drop decodes.length).length by rw [List.length_drop]; omega)
    have hmem : (number, task) ∈ records := by
      apply List.mem_of_mem_drop
      rw [hdrop]
      exact List.mem_cons_self
    rw [hdrop] at hnext hlength
    obtain ⟨r', hpop, -⟩ := hnext.reads.pop hcap (hstack _ hmem) (by omega)
    exact ⟨_, r', hpop⟩

/-- A thread pushes one task. -/
def onePush {m : Nat} (w : Fin n) (task : Task) : List (Context.Action n m) :=
  [.registerWriter w, .acquire w task, .write w, .produce w]

def plain : Task := ⟨1, 7, [97], by decide, by decide⟩

def zeroInside : Task := ⟨1, 7, [97, 0, 98], by decide, by decide⟩

/-- Two threads push a task each. -/
def twoPushes {m : Nat} (w v : Fin n) : List (Context.Action n m) :=
  onePush w plain ++ onePush v zeroInside

theorem reads_twoPushes : ∃ s : Context 2 1,
    run (Context.step 128) (Context.initial 2 1) (twoPushes 0 1) = some s ∧
      Reads 128 s.queue 0 [(0, plain), (1, zeroInside)] := by
  refine ⟨_, rfl, ⟨⟨(create 2).memory, ?_⟩, ⟨_, fun _ _ _ ↦ rfl⟩, trivial⟩, ?_⟩
  · -- the second record is written behind the first one
    exact writeRecord_agree _ 32 1 zeroInside (Or.inr (by decide))
  · rw [if_neg (by decide)]
    exact ⟨_, rfl⟩

theorem pops_eq_iff_twoPushes : ∃ s : Context 2 1,
    run (Context.step 128) (Context.initial 2 1) (twoPushes 0 1) = some s ∧
    (∃ decodes q', Pops 128 s.queue decodes q' ∧ decodes.length = 2) ∧
    ∀ decodes q', Pops 128 s.queue decodes q' → decodes.length ≤ 2 →
      (decodes = (decoded Task.description 0 [(0, plain), (1, zeroInside)]).take decodes.length ↔
        ∀ record ∈ [(0, plain), (1, zeroInside)].take decodes.length,
          0 ∉ record.2.description) ∧
      q'.poped = length ([(0, plain), (1, zeroInside)].take decodes.length) := by
  obtain ⟨s, hrun, hreads⟩ := reads_twoPushes
  have hpops := pops_eq_iff (by decide) (by decide) hreads (by decide)
  refine ⟨s, hrun, ?_, fun decodes q' h hle ↦ ?_⟩
  · -- the first pop consumes the range, and the second one goes on in it
    obtain ⟨popped, q, hpop⟩ := hpops.1 (by simp)
    have hfirst := Pops.last hpop
    have hothers : Others q q := ⟨rfl, rfl, fun _ _ _ ↦ rfl⟩
    obtain ⟨popped', r, hpop'⟩ := (hpops.2 _ _ hfirst (Nat.le_succ 1)).2.2.2 (Nat.lt_succ_self 1) q
      hothers
    exact ⟨_, r, .cons hpop hothers (.last hpop'), rfl⟩
  · obtain ⟨hiff, hpoped, -⟩ := hpops.2 decodes q' h hle
    exact ⟨hiff, hpoped.trans (Nat.zero_add _)⟩

theorem reads_onePush (htask : task = plain ∨ task = zeroInside) : ∃ s : Context 1 1,
    run (Context.step 64) (Context.initial 1 1) (onePush 0 task) = some s ∧
      Reads 64 s.queue 0 [(0, task)] := by
  rcases htask with rfl | rfl
  · refine ⟨_, rfl, ⟨⟨_, fun _ _ _ ↦ rfl⟩, trivial⟩, ?_⟩
    rw [if_neg (by decide)]
    exact ⟨_, rfl⟩
  · refine ⟨_, rfl, ⟨⟨_, fun _ _ _ ↦ rfl⟩, trivial⟩, ?_⟩
    rw [if_neg (by decide)]
    exact ⟨_, rfl⟩

/-- The description is cut off at its second byte. -/
theorem pops_ne_zeroInside : ∃ (s : Context 1 1) (q' : ContextTaskQueue 1),
    run (Context.step 64) (Context.initial 1 1) (onePush 0 zeroInside) = some s ∧
    Pops 64 s.queue [⟨⟨8, 7, [97]⟩, some ⟨0, 1⟩⟩] q' ∧
    [⟨⟨8, 7, [97]⟩, some ⟨0, 1⟩⟩] ≠ decoded Task.description 0 [(0, zeroInside)] := by
  obtain ⟨s, hrun, hreads⟩ := reads_onePush (Or.inr rfl)
  obtain ⟨q', hpop, -⟩ := hreads.pop (by decide) (by decide) (by decide)
  have hpops := Pops.last hpop
  obtain ⟨hdecodes, -⟩ := hpops.reads (by decide) (by decide) hreads (by decide) (Nat.le_refl 1)
  rw [hdecodes] at hpops
  exact ⟨s, q', hrun, hpops, by decide⟩

end Ustevent.ContextTaskQueue
