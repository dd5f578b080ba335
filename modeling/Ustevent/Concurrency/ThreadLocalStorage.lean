import Mathlib.Data.List.Basic
import Mathlib.Data.List.Perm.Subperm
import Ustevent.Reasoning.Runs

/-!
# Thread local storage of objects

`ObjectScopedThreadLocalStorage` keeps one value for each pair of an object and a thread.  An object
has an index into the vectors of all threads, which it gives back for another object when it is
destroyed; the slots of the vectors know the id of the object that they belong to.  Each construction,
destruction, thread start or exit and each `get` is one step.
-/

namespace Ustevent

open Reasoning

namespace ObjectScopedThreadLocalStorage

/-- The `Node` of the vectors.  A return function is what it leaves of its argument. -/
structure Slot (T : Type*) where
  ownerId : Nat
  value : T
  returnFunction : Option (T → T)

structure Object (T : Type*) where
  index : Nat
  /-- `_default_value_function` is set -/
  hasDefault : Bool
  returnFunction : Option (T → T)

inductive Life
  | before
  | during
  | after
deriving DecidableEq

variable {T : Type*} [Inhabited T]

instance : Inhabited (Slot T) := ⟨⟨0, default, none⟩⟩

/-! ## The vector of a thread -/

/-- `v.resize(n)` for a larger vector. -/
def resize (v : List (Slot T)) (n : Nat) : List (Slot T) :=
  v ++ List.replicate (n - v.length) default

/-- The slot at an index, up to which the vector may still have to grow. -/
def slotAt (v : List (Slot T)) (i : Nat) : Slot T := v[i]?.getD default

@[simp] theorem slotAt_nil (i : Nat) : slotAt ([] : List (Slot T)) i = default := rfl

@[simp] theorem slotAt_resize (v : List (Slot T)) (n i : Nat) :
    slotAt (resize v n) i = slotAt v i := by
  unfold slotAt resize
  by_cases hi : i < v.length
  · rw [List.getElem?_append_left hi]
  · rw [List.getElem?_append_right (Nat.le_of_not_lt hi), List.getElem?_eq_none (by omega : v.length ≤ i),
      List.getElem?_replicate]
    split <;> rfl

theorem slotAt_set {v : List (Slot T)} {i j : Nat} {slot : Slot T} (hi : i < v.length) :
    slotAt (v.set i slot) j = if j = i then slot else slotAt v j := by
  unfold slotAt
  by_cases hj : j = i
  · rw [if_pos hj, hj, List.getElem?_set_self hi, Option.getD_some]
  · rw [if_neg hj, List.getElem?_set_ne (Ne.symm hj)]

theorem length_resize (v : List (Slot T)) (i : Nat) : i < (resize v (i + 1)).length := by
  rw [resize, List.length_append, List.length_replicate]
  omega

/-- What the destructor of an object does to its slot. -/
def Slot.giveBack (slot : Slot T) (id : Nat) : Slot T :=
  if slot.ownerId = id then
    { slot with
      ownerId := 0
      value := match slot.returnFunction with
        | some f => f slot.value
        | none => slot.value }
  else slot

/-- The values on which the destructor calls the return function. -/
def Slot.handsBack (slot : Slot T) (id : Nat) : List T :=
  if slot.ownerId = id ∧ slot.returnFunction.isSome then [slot.value] else []

theorem slotAt_modify (v : List (Slot T)) (i j id : Nat) (hid : id ≠ 0) :
    slotAt (v.modify i (·.giveBack id)) j =
      if j = i then (slotAt v j).giveBack id else slotAt v j := by
  unfold slotAt
  rw [List.getElem?_modify]
  by_cases hj : j = i
  · subst hj
    cases v[j]? with
    | none => simp [Slot.giveBack, default, hid.symm]
    | some slot => simp
  · simp [hj, Ne.symm hj]

/-- The calls of the destructor of `ObjectStorage`: the owner's id and the value. -/
def exitCalls (v : List (Slot T)) (owners : List Nat) : List (Nat × T) :=
  (v.zip owners).filterMap fun (slot, owner) ↦
    if slot.returnFunction.isSome ∧ slot.ownerId ≠ 0 ∧ owner = slot.ownerId then
      some (slot.ownerId, slot.value)
    else none

/-! ## Runs -/

/-- The static members, the objects by their ids and the threads with their vectors.  History: the
value that an object has made for a thread, those that `get` has returned, and those on which the
return function of the object has been called. -/
structure Storages (T : Type*) where
  nextId : Nat
  available : List Nat
  owners : List Nat
  objects : Nat → Object T
  live : Nat → Bool
  thread : Nat → Life
  slots : Nat → Option (List (Slot T))
  made : Nat → Nat → Option T
  gotten : Nat → Nat → List T
  returned : Nat → Nat → List T

inductive Action (T : Type*)
  | construct (hasDefault : Bool) (returnFunction : Option (T → T))
  | destroy (object : Nat)
  | start (thread : Nat)
  | exit (thread : Nat)
  /-- `result` is what the default value function returns if it is called -/
  | get (object thread : Nat) (result : T)

namespace Storages

def initial : Storages T where
  nextId := 1
  available := []
  owners := []
  objects _ := ⟨0, false, none⟩
  live _ := false
  thread _ := .before
  slots _ := none
  made _ _ := none
  gotten _ _ := []
  returned _ _ := []

/-- The slot for an object with index `i` in the vector of a thread. -/
def slot (s : Storages T) (t i : Nat) : Slot T := slotAt ((s.slots t).getD []) i

/-- `_getIndex` has found an index. -/
abbrev constructAt (s : Storages T) (object : Object T) (available owners : List Nat) : Storages T :=
  { s with
    nextId := s.nextId + 1
    available := available
    owners := owners
    objects := fun o ↦ if o = s.nextId then object else s.objects o
    live := fun o ↦ if o = s.nextId then true else s.live o }

def construct (s : Storages T) (hasDefault : Bool) (returnFunction : Option (T → T)) : Storages T :=
  match s.available with
  | i :: available =>
    s.constructAt ⟨i, hasDefault, returnFunction⟩ available (s.owners.set i s.nextId)
  -- no index is left over from a destroyed object
  | [] => s.constructAt ⟨s.owners.length, hasDefault, returnFunction⟩ [] (s.owners ++ [s.nextId])

/-- The tables are cleared when no index is in use. -/
abbrev destroy (s : Storages T) (o : Nat) : Storages T :=
  { s with
    available := if s.available.length + 1 = s.owners.length then []
      else (s.objects o).index :: s.available
    owners := if s.available.length + 1 = s.owners.length then []
      else s.owners.set (s.objects o).index 0
    live := fun p ↦ if p = o then false else s.live p
    slots := fun t ↦ (s.slots t).map (·.modify (s.objects o).index (·.giveBack o))
    returned := fun p t ↦
      if p = o then s.returned p t ++ (s.slot t (s.objects o).index).handsBack o
      else s.returned p t }

abbrev start (s : Storages T) (t : Nat) : Storages T :=
  { s with thread := fun u ↦ if u = t then .during else s.thread u }

/-- The destructor of the `ObjectStorage` of the thread, if it has one. -/
abbrev exit (s : Storages T) (t : Nat) : Storages T :=
  { s with
    thread := fun u ↦ if u = t then .after else s.thread u
    slots := fun u ↦ if u = t then none else s.slots u
    returned := fun o u ↦
      if u = t then
        s.returned o u ++ (exitCalls ((s.slots t).getD []) s.owners).filterMap fun (id, value) ↦
          if id = o then some value else none
      else s.returned o u }

/-- The slot as `get` leaves it. -/
def filled (s : Storages T) (o t : Nat) (result : T) : Slot T :=
  let slot := s.slot t (s.objects o).index
  if slot.ownerId = 0 then
    { ownerId := o
      -- without a default value function, the value is the one that is in the slot
      value := if (s.objects o).hasDefault then result else slot.value
      returnFunction := (s.objects o).returnFunction }
  else slot

/-- What an object creates for a thread: `T()`, if it has no default value function. -/
abbrev created (s : Storages T) (o : Nat) (result : T) : T :=
  if (s.objects o).hasDefault then result else default

abbrev get (s : Storages T) (o t : Nat) (result : T) : Storages T :=
  { s with
    slots := fun u ↦
      if u = t then
        some ((resize ((s.slots t).getD []) ((s.objects o).index + 1)).set (s.objects o).index
          (s.filled o t result))
      else s.slots u
    made := fun p u ↦
      if p = o ∧ u = t then (s.made o t).or (some (s.created o result)) else s.made p u
    gotten := fun p u ↦
      if p = o ∧ u = t then s.gotten o t ++ [(s.filled o t result).value] else s.gotten p u }

def step (s : Storages T) : Action T → Option (Storages T)
  | .construct hasDefault returnFunction => some (s.construct hasDefault returnFunction)
  | .destroy o => if s.live o then some (s.destroy o) else none
  | .start t => if s.thread t = .before then some (s.start t) else none
  | .exit t => if s.thread t = .during then some (s.exit t) else none
  | .get o t result =>
    if s.live o ∧ s.thread t = .during then some (s.get o t result) else none

/-- What the storages are for. -/
structure Isolated (s : Storages T) : Prop where
  indexes : ∀ o p, s.live o = true → s.live p = true →
    (s.objects o).index = (s.objects p).index → o = p
  owners : ∀ t v i slot, s.slots t = some v → v[i]? = some slot → slot.ownerId = 0 ∨
    (s.live slot.ownerId = true ∧ (s.objects slot.ownerId).index = i ∧
      s.owners[i]? = some slot.ownerId)
  values : ∀ o t value, value ∈ s.gotten o t → s.made o t = some value

/-- A `get` that finds no owner is one of an object that has a default value function, or the slot
holds `T()`. -/
def Defaults (s : Storages T) : Action T → Prop
  | .get o t _ => s.live o = true → s.thread t = .during →
    (s.slot t (s.objects o).index).ownerId = 0 →
      (s.objects o).hasDefault = true ∨ (s.slot t (s.objects o).index).value = default
  | _ => True

/-- The return function has been called on the value of each pair that has one, if and only if the
object or the thread is gone. -/
def Settled (s : Storages T) : Prop :=
  ∀ o t, (s.objects o).returnFunction.isSome = true →
    (∀ v ∈ s.gotten o t, ∀ w ∈ s.gotten o t, v = w) ∧
      s.returned o t =
        if s.live o = true ∧ s.thread t = .during then [] else (s.gotten o t).take 1

/-! ## The invariant -/

structure Tables (s : Storages T) : Prop where
  nextId : 0 < s.nextId
  ids : ∀ o, s.live o = true → 0 < o ∧ o < s.nextId
  owned : ∀ o, s.live o = true → s.owners[(s.objects o).index]? = some o
  owner : ∀ i o, s.owners[i]? = some o → o ≠ 0 → s.live o = true ∧ (s.objects o).index = i
  available : ∀ i, i ∈ s.available ↔ s.owners[i]? = some 0
  nodup : s.available.Nodup

/-- The slots that have an owner hold what `get` has returned for it. -/
structure Filled (s : Storages T) : Prop where
  vectors : ∀ t, s.thread t ≠ .during → s.slots t = none
  owner : ∀ t i o, o ≠ 0 → (s.slot t i).ownerId = o → s.live o = true ∧
    (s.objects o).index = i ∧ (s.slot t i).returnFunction = (s.objects o).returnFunction ∧
    s.gotten o t ≠ []
  value : ∀ t i o, o ≠ 0 → (s.slot t i).ownerId = o →
    ∀ value ∈ s.gotten o t, value = (s.slot t i).value
  kept : ∀ o t, s.live o = true → s.thread t = .during → s.gotten o t ≠ [] →
    (s.slot t (s.objects o).index).ownerId = o

structure History (s : Storages T) : Prop where
  past : ∀ o t, s.gotten o t ≠ [] → o < s.nextId ∧ s.thread t ≠ .before
  made : ∀ o t, s.made o t = none ↔ s.gotten o t = []
  same : ∀ o t, ∀ v ∈ s.gotten o t, ∀ w ∈ s.gotten o t, v = w
  returned : ∀ o t, s.returned o t =
    if (s.live o = true ∧ s.thread t = .during) ∨ (s.objects o).returnFunction.isSome = false then []
    else (s.gotten o t).take 1

structure Inv (s : Storages T) : Prop where
  tables : Tables s
  filled : Filled s
  history : History s

variable {s s' : Storages T} {o t i : Nat} {hasDefault : Bool} {returnFunction : Option (T → T)}
  {result : T}

theorem inv_initial : Inv (initial : Storages T) where
  tables := by constructor <;> simp [initial]
  filled := by constructor <;> simp +contextual [initial, slot, default, eq_comm]
  history := by constructor <;> simp [initial]

theorem slot_destroy (ho : o ≠ 0) (u j : Nat) : (s.destroy o).slot u j =
    if j = (s.objects o).index then (s.slot u j).giveBack o else s.slot u j := by
  unfold slot destroy
  cases h : s.slots u with
  | none => simp [Slot.giveBack, default, ho.symm, h]
  | some v =>
    simp only [h, Option.map_some, Option.getD_some]
    exact slotAt_modify v _ j o ho

theorem slot_exit (u j : Nat) : (s.exit t).slot u j = if u = t then default else s.slot u j := by
  unfold slot exit
  by_cases hu : u = t <;> simp [hu]

theorem slot_get (u j : Nat) : (s.get o t result).slot u j =
    if u = t ∧ j = (s.objects o).index then s.filled o t result else s.slot u j := by
  unfold slot get
  by_cases hu : u = t
  · subst hu
    simp only [if_true, Option.getD_some, slotAt_set (length_resize _ _), slotAt_resize, true_and]
  · simp [hu]

/-! ## Objects -/

theorem Inv.constructAt (h : Inv s) {available owners : List Nat} {object : Object T}
    (htables : Tables (s.constructAt object available owners)) :
    Inv (s.constructAt object available owners) where
  tables := htables
  filled := by
    have hslot : ∀ u j, (s.constructAt object available owners).slot u j = s.slot u j :=
      fun _ _ ↦ rfl
    -- no slot and no value is of the new id
    have := h.history.past
    have := h.tables.ids
    have := h.filled
    constructor <;> grind [Filled]
  history := by
    have := h.history
    constructor <;> grind [History]

theorem Inv.construct (h : Inv s) : Inv (s.construct hasDefault returnFunction) := by
  have htables := h.tables
  unfold Storages.construct
  split
  · rename_i i available hs
    apply h.constructAt
    -- an index is available exactly if its owner has been reset
    have hi : s.owners[i]? = some 0 := (htables.available i).mp (hs ▸ List.mem_cons_self)
    obtain ⟨hlt, -⟩ := List.getElem?_eq_some_iff.mp hi
    constructor <;> grind [Tables]
  · rename_i hs
    apply h.constructAt
    constructor <;> grind [Tables]

/-- The destructors call the return function on the value that `get` has returned. -/
theorem Inv.handsBack (h : Inv s) (ho : s.live o = true) (t : Nat) :
    (s.slot t (s.objects o).index).handsBack o =
      if s.thread t = .during ∧ (s.objects o).returnFunction.isSome = true then
        (s.gotten o t).take 1
      else [] := by
  have hid := h.tables.ids o ho
  unfold Slot.handsBack
  by_cases howner : (s.slot t (s.objects o).index).ownerId = o
  · obtain ⟨-, -, hreturn, hne⟩ := h.filled.owner t _ o (by omega) howner
    -- a slot with an owner is one of a running thread
    have hduring : s.thread t = .during := by
      by_contra hnot
      rw [slot, h.filled.vectors t hnot] at howner
      exact absurd howner (Nat.ne_of_lt hid.1)
    obtain ⟨v, l, hgotten⟩ := List.exists_cons_of_ne_nil hne
    have hvalue := h.filled.value t _ o (by omega) howner v (hgotten ▸ List.mem_cons_self)
    simp [howner, hreturn, hduring, hgotten, hvalue]
  · rw [if_neg fun hand ↦ howner hand.1]
    split
    · rename_i hand
      have hnil : s.gotten o t = [] := by
        by_contra hne
        exact howner (h.filled.kept o t ho hand.1 hne)
      rw [hnil, List.take_nil]
    · rfl

omit [Inhabited T] in
theorem Tables.index_inj (h : Tables s) {p : Nat} (ho : s.live o = true) (hp : s.live p = true)
    (heq : (s.objects o).index = (s.objects p).index) : o = p := by
  have howned := h.owned o ho
  rw [heq, h.owned p hp] at howned
  exact (Option.some.inj howned).symm

omit [Inhabited T] in
theorem Tables.all_free (h : Tables s) (hlength : s.available.length = s.owners.length) (o : Nat) :
    s.live o = false := by
  by_contra hlive
  rw [Bool.not_eq_false] at hlive
  have howned := h.owned o hlive
  have hid := h.ids o hlive
  obtain ⟨hlt, -⟩ := List.getElem?_eq_some_iff.mp howned
  -- the available indexes are distinct and as many as there are
  have hsubset : s.available ⊆ List.range s.owners.length := by
    intro i hi
    obtain ⟨hlt, -⟩ := List.getElem?_eq_some_iff.mp ((h.available i).mp hi)
    exact List.mem_range.mpr hlt
  have hperm := (List.subperm_of_subset h.nodup hsubset).perm_of_length_le (by simp [hlength])
  have hmem := hperm.mem_iff.mpr (List.mem_range.mpr hlt)
  rw [h.available, howned] at hmem
  exact absurd (Option.some.inj hmem) (by omega)

theorem Tables.destroy (h : Tables s) (ho : s.live o = true) : Tables (s.destroy o) := by
  have howned := h.owned o ho
  obtain ⟨hlt, -⟩ := List.getElem?_eq_some_iff.mp howned
  have hid := h.ids o ho
  have hnotin : (s.objects o).index ∉ s.available := by
    rw [h.available, howned]
    exact fun hzero ↦ absurd (Option.some.inj hzero) (by omega)
  -- the tables as they are before they are cleared
  have hpushed : Tables { s.destroy o with
      available := (s.objects o).index :: s.available
      owners := s.owners.set (s.objects o).index 0 } := by
    constructor <;> grind [Tables]
  by_cases hall : s.available.length + 1 = s.owners.length
  · have hfree := hpushed.all_free (by simpa using hall)
    constructor <;> grind [Tables]
  · constructor <;> grind [Tables]

theorem Inv.destroy (h : Inv s) (ho : s.live o = true) : Inv (s.destroy o) := by
  obtain ⟨hpos, hlt⟩ := h.tables.ids o ho
  have hslot := fun u j ↦ slot_destroy (s := s) (o := o) (by omega) u j
  refine ⟨h.tables.destroy ho, ?_, ?_⟩
  · have := h.filled
    constructor <;> grind [Filled, Slot.giveBack]
  · have := h.handsBack ho
    have := h.history
    constructor <;> grind [History]

omit [Inhabited T] in
/-- The tables are about the objects only. -/
theorem Tables.congr (h : Tables s) (hnextId : s'.nextId = s.nextId)
    (havailable : s'.available = s.available) (howners : s'.owners = s.owners)
    (hobjects : s'.objects = s.objects) (hlive : s'.live = s.live) : Tables s' where
  nextId := hnextId ▸ h.nextId
  ids := by
    rw [hnextId, hlive]
    exact h.ids
  owned := by
    rw [howners, hobjects, hlive]
    exact h.owned
  owner := by
    rw [howners, hobjects, hlive]
    exact h.owner
  available := by
    rw [havailable, howners]
    exact h.available
  nodup := havailable ▸ h.nodup

omit [Inhabited T] in
theorem History.nil_of_before (h : History s) (ht : s.thread t = .before) (o : Nat) :
    s.gotten o t = [] := by
  by_contra hne
  exact (h.past o t hne).2 ht

theorem Inv.start (h : Inv s) (ht : s.thread t = .before) : Inv (s.start t) where
  tables := h.tables.congr rfl rfl rfl rfl rfl
  filled :=
  { vectors := by
      intro u hu
      by_cases hut : u = t
      · exact h.filled.vectors u (by rw [hut, ht]; decide)
      · exact h.filled.vectors u (by simpa only [if_neg hut] using hu)
    owner := h.filled.owner
    value := h.filled.value
    kept := by
      intro p u hp hu hne
      by_cases hut : u = t
      · exact absurd (h.history.nil_of_before (hut ▸ ht) p) hne
      · exact h.filled.kept p u hp (by simpa only [if_neg hut] using hu) hne }
  history :=
  { past := by
      intro p u hne
      refine ⟨(h.history.past p u hne).1, ?_⟩
      by_cases hut : u = t
      · exact absurd (h.history.nil_of_before (hut ▸ ht) p) hne
      · simpa only [if_neg hut] using (h.history.past p u hne).2
    made := h.history.made
    same := h.history.same
    returned := by
      intro p u
      by_cases hut : u = t
      · -- there is nothing to return in either state
        simp only [h.history.returned, hut, h.history.nil_of_before ht p, List.take_nil, ite_self]
      · simp only [if_neg hut, h.history.returned] }

/-! ## Threads -/

theorem filterMap_eq_toList {α β : Type*} {l : List α} {f : α → Option β} {k : Nat}
    (h : ∀ i a, l[i]? = some a → i ≠ k → f a = none) : l.filterMap f = (l[k]?.bind f).toList := by
  induction l generalizing k with
  | nil => rfl
  | cons a l ih =>
    cases k with
    | zero =>
      have hrest : l.filterMap f = [] := by
        rw [List.filterMap_eq_nil_iff]
        intro b hb
        obtain ⟨i, hi⟩ := List.getElem?_of_mem hb
        exact h (i + 1) b (by simpa using hi) (by omega)
      cases ha : f a with
      | none => simp [ha, hrest]
      | some b => simp [ha, hrest]
    | succ k =>
      have ha : f a = none := h 0 a rfl (by omega)
      rw [List.filterMap_cons_none ha, ih (k := k)]
      · rfl
      · intro i b hi hne
        exact h (i + 1) b (by simpa using hi) (by omega)

/-- The destructor of the vector calls the return functions of the objects that own a slot. -/
theorem Inv.exitCalls (h : Inv s) (o t : Nat) :
    ((exitCalls ((s.slots t).getD []) s.owners).filterMap fun (id, value) ↦
        if id = o then some value else none) =
      if s.live o = true then (s.slot t (s.objects o).index).handsBack o else [] := by
  have hid := h.tables.ids o
  unfold ObjectScopedThreadLocalStorage.exitCalls
  -- the object owns the slot at its index and no other one
  rw [List.filterMap_filterMap, filterMap_eq_toList (k := (s.objects o).index)]
  · cases hi : (((s.slots t).getD []).zip s.owners)[(s.objects o).index]? with
    | none =>
      split
      · -- the vector does not reach as far as the index
        rename_i ho
        have howned := h.tables.owned o ho
        have hslot : ((s.slots t).getD [])[(s.objects o).index]? = none := by
          cases hslot : ((s.slots t).getD [])[(s.objects o).index]? with
          | none => rfl
          | some slot =>
            have hsome := (List.getElem?_zip_eq_some (z := (slot, o))).mpr ⟨hslot, howned⟩
            rw [hi] at hsome
            contradiction
        simp [Storages.slot, slotAt, hslot, Slot.handsBack, default]
      · rfl
    | some p =>
      obtain ⟨slot, owner⟩ := p
      obtain ⟨hslot, howner⟩ := List.getElem?_zip_eq_some.mp hi
      have hslot : s.slot t (s.objects o).index = slot := by
        rw [Storages.slot, slotAt, hslot, Option.getD_some]
      have := h.tables.owned o
      have := h.filled.owner t (s.objects o).index o
      grind [Slot.handsBack]
  · rintro i ⟨slot, owner⟩ hi hne
    obtain ⟨hslot, -⟩ := List.getElem?_zip_eq_some.mp hi
    have hslot : s.slot t i = slot := by
      rw [Storages.slot, slotAt, hslot, Option.getD_some]
    have := h.filled.owner t i o
    grind

theorem Inv.exit (h : Inv s) (ht : s.thread t = .during) : Inv (s.exit t) where
  tables := h.tables.congr rfl rfl rfl rfl rfl
  filled :=
  { vectors := by
      intro u hu
      by_cases hut : u = t
      · exact if_pos hut
      · simp only [if_neg hut] at hu ⊢
        exact h.filled.vectors u hu
    owner := by
      intro u j p hp hown
      rw [slot_exit] at hown ⊢
      by_cases hut : u = t
      · rw [if_pos hut] at hown
        exact absurd hown.symm hp
      · rw [if_neg hut] at hown ⊢
        exact h.filled.owner u j p hp hown
    value := by
      intro u j p hp hown
      rw [slot_exit] at hown ⊢
      by_cases hut : u = t
      · rw [if_pos hut] at hown
        exact absurd hown.symm hp
      · rw [if_neg hut] at hown ⊢
        exact h.filled.value u j p hp hown
    kept := by
      intro p u hp hu hne
      by_cases hut : u = t
      · simp only [if_pos hut] at hu
        contradiction
      · simp only [if_neg hut] at hu
        rw [slot_exit, if_neg hut]
        exact h.filled.kept p u hp hu hne }
  history :=
  { past := by
      intro p u hne
      refine ⟨(h.history.past p u hne).1, ?_⟩
      by_cases hut : u = t
      · simp only [if_pos hut]
        decide
      · simp only [if_neg hut]
        exact (h.history.past p u hne).2
    made := h.history.made
    same := h.history.same
    returned := by
      intro p u
      by_cases hut : u = t
      · subst hut
        have hbefore := h.history.returned p u
        rw [ht] at hbefore
        simp only [if_true, hbefore, h.exitCalls]
        cases hlive : s.live p with
        | true =>
          -- the slot of a live object is handed back
          rw [if_pos rfl, h.handsBack hlive, ht]
          cases hreturn : (s.objects p).returnFunction.isSome <;> simp
        | false => simp
      · simp only [if_neg hut, h.history.returned] }

theorem Inv.slot_owner (h : Inv s) (ho : s.live o = true) :
    (s.slot t (s.objects o).index).ownerId = 0 ∨ (s.slot t (s.objects o).index).ownerId = o := by
  by_contra hne
  rw [not_or] at hne
  -- another owner would be live with the same index
  obtain ⟨hlive, hindex, -, -⟩ := h.filled.owner t _ _ hne.1 rfl
  have howned := h.tables.owned _ hlive
  rw [hindex, h.tables.owned o ho] at howned
  exact hne.2 (Option.some.inj howned).symm

theorem Inv.get (h : Inv s) (ho : s.live o = true) (ht : s.thread t = .during) :
    Inv (s.get o t result) := by
  have hid := h.tables.ids o ho
  have hindex : ∀ p, s.live p = true → (s.objects p).index = (s.objects o).index → p = o :=
    fun p hp heq ↦ h.tables.index_inj hp ho heq
  have howner : (s.filled o t result).ownerId = o := by
    have := h.slot_owner ho (t := t)
    grind [Storages.filled]
  have hreturn : (s.filled o t result).returnFunction = (s.objects o).returnFunction := by
    have := h.slot_owner ho (t := t)
    have := h.filled.owner t (s.objects o).index o
    grind [Storages.filled]
  -- a value that has been returned before is still in the slot
  have hvalue : ∀ w ∈ s.gotten o t, w = (s.filled o t result).value := by
    have := h.slot_owner ho (t := t)
    have := h.filled.value t (s.objects o).index o
    have := h.filled.kept o t ho ht
    grind [Storages.filled]
  refine ⟨h.tables.congr rfl rfl rfl rfl rfl, ?_, ?_⟩
  · have hne : ∀ value, s.gotten o t ++ [value] ≠ [] := fun value ↦ by simp
    have := h.filled
    refine ⟨?_, ?_, ?_, ?_⟩
    · grind [Filled]
    · simp only [slot_get]
      grind [Filled]
    · intro u j p hp hown value hvalue
      rw [slot_get] at hown ⊢
      by_cases huj : u = t ∧ j = (s.objects o).index
      · rw [if_pos huj] at hown ⊢
        grind
      · rw [if_neg huj] at hown ⊢
        -- no other slot of the thread belongs to the object
        have hpo : ¬ (p = o ∧ u = t) := by
          have := h.filled.owner u j p hp hown
          grind
        exact h.filled.value u j p hp hown value (by simpa [hpo] using hvalue)
    · simp only [slot_get]
      grind [Filled]
  · have := h.history
    refine ⟨?_, ?_, ?_, ?_⟩
    · grind [History]
    · intro p u
      by_cases hpu : p = o ∧ u = t
      · simp [hpu]
      · simpa [hpu] using h.history.made p u
    · grind [History]
    · grind [History]

theorem Inv.step (h : Inv s) {a : Action T} (hstep : s.step a = some s') : Inv s' := by
  cases a with
  | construct hasDefault returnFunction =>
    cases hstep
    exact h.construct
  | destroy o =>
    rw [Storages.step, Option.ite_none_right_eq_some] at hstep
    obtain ⟨ho, hstep⟩ := hstep
    cases hstep
    exact h.destroy ho
  | start t =>
    rw [Storages.step, Option.ite_none_right_eq_some] at hstep
    obtain ⟨ht, hstep⟩ := hstep
    cases hstep
    exact h.start ht
  | exit t =>
    rw [Storages.step, Option.ite_none_right_eq_some] at hstep
    obtain ⟨ht, hstep⟩ := hstep
    cases hstep
    exact h.exit ht
  | get o t result =>
    rw [Storages.step, Option.ite_none_right_eq_some] at hstep
    obtain ⟨⟨ho, ht⟩, hstep⟩ := hstep
    cases hstep
    exact h.get ho ht

theorem inv_of_run {as : List (Action T)} (hrun : run step initial as = some s) : Inv s :=
  invariant_of_run Inv (fun _ _ _ h hstep ↦ h.step hstep) inv_initial hrun

/-! ## What is returned to the objects -/

/-- What is said of the tables holds in any case. -/
theorem Inv.isolated (h : Inv s)
    (hvalues : ∀ o t value, value ∈ s.gotten o t → s.made o t = some value) : Isolated s where
  indexes _ _ ho hp heq := h.tables.index_inj ho hp heq
  owners t v i slot hv hslot := by
    by_cases hzero : slot.ownerId = 0
    · exact Or.inl hzero
    · have hi : s.slot t i = slot := by
        rw [Storages.slot, hv, Option.getD_some, slotAt, hslot, Option.getD_some]
      obtain ⟨hlive, hindex, -, -⟩ := h.filled.owner t i slot.ownerId hzero (by rw [hi])
      exact Or.inr ⟨hlive, hindex, hindex ▸ h.tables.owned _ hlive⟩
  values := hvalues

/-- A `get` keeps the values apart if and only if it does not find one that it should have made. -/
theorem Inv.isolated_get_iff (h : Inv s) (hisolated : Isolated s) (ho : s.live o = true)
    (ht : s.thread t = .during) :
    Isolated (s.get o t result) ↔ Defaults s (.get o t result) := by
  have hid := h.tables.ids o ho
  have hself : (s.get o t result).made o t = (s.made o t).or (some (s.created o result)) ∧
      (s.get o t result).gotten o t = s.gotten o t ++ [(s.filled o t result).value] :=
    ⟨if_pos ⟨rfl, rfl⟩, if_pos ⟨rfl, rfl⟩⟩
  have hother : ∀ p u, ¬ (p = o ∧ u = t) → (s.get o t result).made p u = s.made p u ∧
      (s.get o t result).gotten p u = s.gotten p u :=
    fun p u hne ↦ ⟨if_neg hne, if_neg hne⟩
  rcases h.slot_owner ho (t := t) with hzero | hown
  · -- the first call, for which the value has to be made
    have hnil : s.gotten o t = [] := by
      by_contra hne
      rw [h.filled.kept o t ho ht hne] at hzero
      omega
    have hfilled : (s.filled o t result).value = if (s.objects o).hasDefault then result
        else (s.slot t (s.objects o).index).value := by
      rw [Storages.filled, if_pos hzero]
    rw [(h.history.made o t).mpr hnil, hnil, List.nil_append, Option.none_or, hfilled] at hself
    constructor
    · intro hafter _ _ _
      have hvalue := hafter.values o t _ (hself.2 ▸ List.mem_singleton_self _)
      rw [hself.1] at hvalue
      grind
    · intro hok
      have hok := hok ho ht hzero
      refine (h.get ho ht).isolated fun p u value hvalue ↦ ?_
      by_cases hpu : p = o ∧ u = t
      · obtain ⟨rfl, rfl⟩ := hpu
        rw [hself.2, List.mem_singleton] at hvalue
        rw [hself.1, hvalue]
        grind
      · rw [(hother p u hpu).2] at hvalue
        rw [(hother p u hpu).1]
        exact hisolated.values p u value hvalue
  · -- the slot holds what has been returned before
    have hfilled : s.filled o t result = s.slot t (s.objects o).index := by
      rw [Storages.filled, if_neg (by omega)]
    obtain ⟨-, -, -, hne⟩ := h.filled.owner t _ o (by omega) hown
    obtain ⟨value, l, hgotten⟩ := List.exists_cons_of_ne_nil hne
    have hmem : value ∈ s.gotten o t := hgotten ▸ List.mem_cons_self
    have hvalue := h.filled.value t _ o (by omega) hown value hmem
    have hmade := hisolated.values o t value hmem
    refine iff_of_true ?_ fun _ _ hzero ↦ by omega
    refine (h.get ho ht).isolated fun p u w hw ↦ ?_
    by_cases hpu : p = o ∧ u = t
    · obtain ⟨rfl, rfl⟩ := hpu
      rw [hself.2, hfilled, ← hvalue, List.mem_append, List.mem_singleton] at hw
      rw [hself.1, hmade, Option.some_or]
      rcases hw with hw | rfl
      · rw [← hmade]
        exact hisolated.values p u w hw
      · rfl
    · rw [(hother p u hpu).2] at hw
      rw [(hother p u hpu).1]
      exact hisolated.values p u w hw

theorem Inv.isolated_step_iff (h : Inv s) (hisolated : Isolated s) {a : Action T}
    (hstep : s.step a = some s') : Isolated s' ↔ Defaults s a := by
  have h' := h.step hstep
  cases a with
  | get o t result =>
    rw [Storages.step, Option.ite_none_right_eq_some] at hstep
    obtain ⟨⟨ho, ht⟩, hstep⟩ := hstep
    cases hstep
    exact h.isolated_get_iff hisolated ho ht
  | construct hasDefault returnFunction =>
    refine iff_of_true (h'.isolated ?_) trivial
    cases hstep
    unfold Storages.construct
    split
    · exact hisolated.values
    · exact hisolated.values
  | destroy o | start t | exit t =>
    refine iff_of_true (h'.isolated ?_) trivial
    rw [Storages.step, Option.ite_none_right_eq_some] at hstep
    obtain ⟨-, hstep⟩ := hstep
    cases hstep
    exact hisolated.values

/-- The values are kept apart in every state of a run, if and only if no `get` of an object without
a default value function finds what another object has left. -/
theorem always_isolated_iff_defaults (as : List (Action T)) :
    Always step Isolated initial as ↔ Meets step Defaults initial as := by
  apply always_iff_meets Inv Isolated _ _ inv_initial (inv_initial.isolated (by simp [initial]))
  · exact fun s a s' h hisolated hstep ↦
      ⟨h.isolated_step_iff hisolated hstep, fun _ ↦ h.step hstep⟩
  · -- a `get` that is not possible finds nothing
    intro s a hstuck
    cases a with
    | get o t result =>
      intro ho ht
      rw [step, if_pos ⟨ho, ht⟩] at hstuck
      contradiction
    | _ => trivial

/-- Object 2 has no default value function and gets the index of object 1. -/
def recycledIndex : List (Action Nat) :=
  [.start 0, .construct true none, .get 1 0 7, .destroy 1, .construct false none, .get 2 0 0]

/-- It finds the value of object 1. -/
theorem not_isolated_recycledIndex : ∃ s, run step initial recycledIndex = some s ∧
    s.made 2 0 = some 0 ∧ s.gotten 2 0 = [7] ∧ ¬ Isolated s := by
  refine ⟨_, rfl, rfl, rfl, fun hisolated ↦ ?_⟩
  have hmade := hisolated.values 2 0 7 (List.mem_singleton_self 7)
  exact absurd hmade (by decide)

end Storages

end ObjectScopedThreadLocalStorage

end Ustevent
