import Mathlib.Data.List.Nodup
import Ustevent.Reasoning.Links

/-!
# Chains whose links are stored late

A queue is often a chain of nodes to which a thread appends in two steps: it makes its node the last
one, and only then stores the link from the one that was the last before.  The chain is then the
list of the nodes in the order of the first steps, in which some links may be missing, each of them
about to be stored by a thread of its own.
-/

namespace Reasoning

variable {ι τ : Type*} {l m : List ι} {a b c : ι}

/-! ## Neighbours in a list -/

/-- `b` comes directly after `a`. -/
def Adjacent : List ι → ι → ι → Prop
  | [], _, _ => False
  | x :: l, a, b => (x = a ∧ l.head? = some b) ∨ Adjacent l a b

@[simp] theorem adjacent_nil : ¬ Adjacent [] a b := id

@[simp] theorem adjacent_cons {x : ι} :
    Adjacent (x :: l) a b ↔ (x = a ∧ l.head? = some b) ∨ Adjacent l a b := Iff.rfl

theorem Adjacent.mem_left (h : Adjacent l a b) : a ∈ l := by
  induction l with
  | nil => exact absurd h id
  | cons x l ih =>
    cases h with
    | inl h => exact h.1 ▸ List.mem_cons_self
    | inr h => exact List.mem_cons_of_mem x (ih h)

theorem adjacent_append : Adjacent (l ++ m) a b ↔
    Adjacent l a b ∨ (l.getLast? = some a ∧ m.head? = some b) ∨ Adjacent m a b := by
  induction l with
  | nil => simp
  | cons x l ih =>
    rw [List.cons_append, adjacent_cons, adjacent_cons, ih]
    cases l with
    | nil => simp
    | cons y l =>
      rw [List.getLast?_cons_cons]
      simp only [List.cons_append, List.head?_cons]
      exact or_assoc.symm

theorem Adjacent.unique (h : Adjacent l a b) (h' : Adjacent l a c) (hnodup : l.Nodup) : b = c := by
  induction l with
  | nil => exact absurd h id
  | cons x l ih =>
    rw [List.nodup_cons] at hnodup
    rcases h with ⟨rfl, hb⟩ | h
    · rcases h' with ⟨-, hc⟩ | h'
      · exact Option.some.inj (hb.symm.trans hc)
      · exact absurd h'.mem_left hnodup.1
    · rcases h' with ⟨rfl, -⟩ | h'
      · exact absurd h.mem_left hnodup.1
      · exact ih h h' hnodup.2

theorem Adjacent.ne_last (h : Adjacent l a b) (hnodup : l.Nodup) : l.getLast? ≠ some a := by
  induction l with
  | nil => exact absurd h id
  | cons x l ih =>
    rw [List.nodup_cons] at hnodup
    intro hlast
    rcases h with ⟨rfl, hb⟩ | h
    · cases l with
      | nil => exact absurd hb (by simp)
      | cons y l =>
        rw [List.getLast?_cons_cons] at hlast
        exact hnodup.1 (List.mem_of_getLast? hlast)
    · cases l with
      | nil => exact absurd h id
      | cons y l =>
        rw [List.getLast?_cons_cons] at hlast
        exact ih h hnodup.2 hlast

/-! ## Chains -/

/-- The nodes `l`, of which `last` is the last one, are linked by `next`, but for the links that the
threads have yet to store. -/
structure Chained (next : ι → Option ι) (pending : τ → Option (ι × ι)) (l : List ι) (last : ι) :
    Prop where
  nodup : l.Nodup
  getLast : l.getLast? = some last
  next_last : next last = none
  linked : ∀ a b, Adjacent l a b → next a = some b ∨ ∃ t, pending t = some (a, b)
  waiting : ∀ t a b, pending t = some (a, b) → next a = none ∧ Adjacent l a b
  own : ∀ t u a b c, pending t = some (a, b) → pending u = some (a, c) → t = u

variable {next next' : ι → Option ι} {pending pending' : τ → Option (ι × ι)} {last last' : ι} {t : τ}

theorem Chained.congr (h : Chained next pending l last) (hnext : ∀ a ∈ l, next' a = next a)
    (hpending : ∀ t, pending' t = pending t) : Chained next' pending' l last where
  nodup := h.nodup
  getLast := h.getLast
  next_last := (hnext last (List.mem_of_getLast? h.getLast)).trans h.next_last
  linked a b hab := by
    rw [hnext a hab.mem_left]
    simp only [hpending]
    exact h.linked a b hab
  waiting t a b ht := by
    rw [hpending] at ht
    obtain ⟨hnone, hab⟩ := h.waiting t a b ht
    exact ⟨(hnext a hab.mem_left).trans hnone, hab⟩
  own t u a b c ht hu := by
    rw [hpending] at ht hu
    exact h.own t u a b c ht hu

/-- The last node, after which no link is missing, gets a successor. -/
theorem Chained.last_not_pending (h : Chained next pending l last) :
    pending t ≠ some (last, b) := fun ht ↦
  (h.waiting t last b ht).2.ne_last h.nodup h.getLast

theorem Chained.append (h : Chained next pending l last) (ht : pending t = none)
    (hm : (l ++ m).Nodup) (hhead : m.head? = some b) (hlast : m.getLast? = some last')
    (hlinked : ∀ a c, Adjacent m a c → next a = some c) (hnone : next last' = none)
    (hself : pending' t = some (last, b)) (hothers : ∀ u, u ≠ t → pending' u = pending u) :
    Chained next pending' (l ++ m) last' where
  nodup := hm
  getLast := by rw [List.getLast?_append, hlast, Option.some_or]
  next_last := hnone
  linked a c hac := by
    rw [adjacent_append] at hac
    -- a link of the old chain, the new link, or a link of the segment
    rcases hac with hac | ⟨ha, hc⟩ | hac
    · refine (h.linked a c hac).imp_right fun ⟨u, hu⟩ ↦ ⟨u, ?_⟩
      rw [hothers u, hu]
      rintro rfl
      rw [ht] at hu
      contradiction
    · refine Or.inr ⟨t, ?_⟩
      rw [hself, Option.some.inj (h.getLast.symm.trans ha), Option.some.inj (hhead.symm.trans hc)]
    · exact Or.inl (hlinked a c hac)
  waiting u a c hu := by
    by_cases heq : u = t
    · rw [heq, hself, Option.some.injEq, Prod.mk.injEq] at hu
      obtain ⟨rfl, rfl⟩ := hu
      exact ⟨h.next_last, adjacent_append.mpr (Or.inr (Or.inl ⟨h.getLast, hhead⟩))⟩
    · rw [hothers u heq] at hu
      obtain ⟨hnone, hac⟩ := h.waiting u a c hu
      exact ⟨hnone, adjacent_append.mpr (Or.inl hac)⟩
  own u v a c d hu hv := by
    -- two links that start at the old last node are both the thread's
    by_cases hut : u = t
    · by_cases hvt : v = t
      · exact hut.trans hvt.symm
      · rw [hut, hself, Option.some.injEq, Prod.mk.injEq] at hu
        rw [hothers v hvt, ← hu.1] at hv
        exact absurd hv h.last_not_pending
    · rw [hothers u hut] at hu
      by_cases hvt : v = t
      · rw [hvt, hself, Option.some.injEq, Prod.mk.injEq] at hv
        rw [← hv.1] at hu
        exact absurd hu h.last_not_pending
      · rw [hothers v hvt] at hv
        exact h.own u v a c d hu hv

theorem Chained.link (h : Chained next pending l last) (ht : pending t = some (a, b))
    (hself : next' a = some b) (hne : ∀ x ∈ l, x ≠ a → next' x = next x)
    (hdone : pending' t = none) (hothers : ∀ u, u ≠ t → pending' u = pending u) :
    Chained next' pending' l last where
  nodup := h.nodup
  getLast := h.getLast
  next_last := by
    rw [hne last (List.mem_of_getLast? h.getLast), h.next_last]
    rintro rfl
    exact h.last_not_pending ht
  linked x y hxy := by
    -- the link of `a` is there now, and leads to its only successor
    by_cases heq : x = a
    · subst heq
      exact Or.inl (hself.trans (congrArg some ((h.waiting t x b ht).2.unique hxy h.nodup)))
    · rw [hne x hxy.mem_left heq]
      refine (h.linked x y hxy).imp_right fun ⟨u, hu⟩ ↦ ⟨u, ?_⟩
      rw [hothers u, hu]
      rintro rfl
      rw [ht, Option.some.injEq, Prod.mk.injEq] at hu
      exact heq hu.1.symm
  waiting u x y hu := by
    -- the other threads wait at other nodes
    have hut : u ≠ t := by
      rintro rfl
      rw [hdone] at hu
      contradiction
    rw [hothers u hut] at hu
    obtain ⟨hnone, hxy⟩ := h.waiting u x y hu
    refine ⟨?_, hxy⟩
    rw [hne x hxy.mem_left, hnone]
    rintro rfl
    exact hut (h.own u t x y b hu ht)
  own u v x y z hu hv := by
    have hne : ∀ w p, pending' w = some p → w ≠ t := by
      rintro w p hw rfl
      rw [hdone] at hw
      contradiction
    rw [hothers u (hne u _ hu)] at hu
    rw [hothers v (hne v _ hv)] at hv
    exact h.own u v x y z hu hv

theorem Chained.snoc (h : Chained next (fun _ : Unit ↦ none) l last) (hb : b ∉ l)
    (hself : next' last = some b) (hne : ∀ x ∈ l, x ≠ last → next' x = next x)
    (hnone : next' b = none) (hbefore : next b = none) :
    Chained next' (fun _ : Unit ↦ none) (l ++ [b]) b := by
  have hlast := List.mem_of_getLast? h.getLast
  -- the link is as good as pending until it is stored
  have happend : Chained next (fun _ : Unit ↦ some (last, b)) (l ++ [b]) b := by
    refine h.append (t := ()) rfl ?_ rfl rfl ?_ hbefore rfl (fun u hu ↦ absurd rfl hu)
    · exact List.nodup_append'.mpr ⟨h.nodup, List.nodup_singleton b, by simpa using hb⟩
    · simp
  refine happend.link (t := ()) rfl hself ?_ rfl (fun u hu ↦ absurd rfl hu)
  intro x hx hxl
  rcases List.mem_append.mp hx with hx | hx
  · exact hne x hx hxl
  · rw [List.mem_singleton.mp hx, hnone, hbefore]

theorem Chained.head_next (h : Chained next pending (a :: l) last) (hnext : next a = some b) :
    l.head? = some b := by
  cases l with
  | nil =>
    -- the last node has no link
    have hlast : a = last := Option.some.inj h.getLast
    rw [hlast, h.next_last] at hnext
    contradiction
  | cons c l =>
    have hac : Adjacent (a :: c :: l) a c := Or.inl ⟨rfl, rfl⟩
    rcases h.linked a c hac with hc | ⟨t, ht⟩
    · rw [hnext] at hc
      exact hc.symm
    · rw [(h.waiting t a c ht).1] at hnext
      contradiction

theorem Chained.tail (h : Chained next pending (a :: l) last) (hnext : next a = some b) :
    Chained next pending l last := by
  have hhead := h.head_next hnext
  obtain ⟨c, m, rfl⟩ : ∃ c m, l = c :: m := by
    cases l with
    | nil => contradiction
    | cons c m => exact ⟨c, m, rfl⟩
  refine ⟨(List.nodup_cons.mp h.nodup).2, ?_, h.next_last, ?_, ?_, h.own⟩
  · rw [← h.getLast, List.getLast?_cons_cons]
  · exact fun x y hxy ↦ h.linked x y (Or.inr hxy)
  · intro t x y ht
    obtain ⟨hnone, hxy⟩ := h.waiting t x y ht
    refine ⟨hnone, hxy.resolve_left fun hx ↦ ?_⟩
    rw [← hx.1, hnext] at hnone
    contradiction

/-- A chain without missing links is a list that a walk visits from end to end. -/
theorem Chained.path (h : Chained next pending l last) (hpending : ∀ t, pending t = none) :
    Path next l.head? l := by
  induction l with
  | nil => rfl
  | cons a l ih =>
    refine ⟨rfl, ?_⟩
    cases l with
    | nil =>
      have hlast : a = last := Option.some.inj h.getLast
      rw [hlast]
      exact h.next_last
    | cons b l =>
      have hnext : next a = some b := by
        refine (h.linked a b (Or.inl ⟨rfl, rfl⟩)).resolve_right ?_
        rintro ⟨t, ht⟩
        rw [hpending] at ht
        contradiction
      rw [hnext]
      exact ih (h.tail hnext)

end Reasoning
