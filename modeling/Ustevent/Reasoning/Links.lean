import Mathlib.Data.List.Basic
import Mathlib.Data.List.Nodup

/-!
# Lists of nodes that are linked

The nodes of an intrusive list hold their own links.  `Path` says which nodes a walk along the links
visits before it comes to a null link, and `Doubly` which links the nodes of a list have that is
linked in both directions.
-/

namespace Reasoning

variable {ι : Type*}

/-! ## Walks -/

/-- A walk from `start` along `next` visits the nodes `l`, in this order, and ends. -/
def Path (next : ι → Option ι) : Option ι → List ι → Prop
  | start, [] => start = none
  | start, a :: l => start = some a ∧ Path next (next a) l

/-- The loop that takes a walk, with at most `fuel` nodes. -/
def walk (next : ι → Option ι) : Nat → Option ι → Option (List ι)
  | _, none => some []
  | 0, some _ => none
  | fuel + 1, some a => (walk next fuel (next a)).map (a :: ·)

variable {next next' prev prev' : ι → Option ι} {start : Option ι} {l l₁ l₂ m : List ι} {a b c : ι}

theorem Path.unique (h : Path next start l) (h' : Path next start m) : l = m := by
  induction l generalizing start m with
  | nil =>
    cases m with
    | nil => rfl
    | cons b m => exact absurd (h.symm.trans h'.1) (by simp)
  | cons a l ih =>
    cases m with
    | nil => exact absurd (h'.symm.trans h.1) (by simp)
    | cons b m =>
      obtain ⟨rfl, h⟩ := h
      obtain ⟨heq, h'⟩ := h'
      rw [← Option.some.inj heq] at h' ⊢
      rw [ih h h']

theorem Path.congr (h : Path next start l) (hnext : ∀ a ∈ l, next' a = next a) :
    Path next' start l := by
  induction l generalizing start with
  | nil => exact h
  | cons a l ih =>
    obtain ⟨hstart, h⟩ := h
    rw [← hnext a List.mem_cons_self] at h
    exact ⟨hstart, ih h fun b hb ↦ hnext b (List.mem_cons_of_mem a hb)⟩

/-- The loop needs one turn for each node. -/
theorem walk_eq_some_iff {fuel : Nat} :
    walk next fuel start = some l ↔ Path next start l ∧ l.length ≤ fuel := by
  induction fuel generalizing start l with
  | zero =>
    cases start with
    | none => cases l <;> simp [walk, Path]
    | some a => cases l <;> simp [walk, Path]
  | succ fuel ih =>
    cases start with
    | none => cases l <;> simp [walk, Path]
    | some a =>
      rw [walk, Option.map_eq_some_iff]
      constructor
      · rintro ⟨m, hm, rfl⟩
        obtain ⟨hpath, hle⟩ := ih.mp hm
        exact ⟨⟨rfl, hpath⟩, Nat.succ_le_succ hle⟩
      · rintro ⟨hpath, hle⟩
        cases l with
        | nil => exact absurd hpath (by simp [Path])
        | cons b m =>
          obtain ⟨heq, hpath⟩ := hpath
          rw [← Option.some.inj heq] at hpath ⊢
          exact ⟨m, ih.mpr ⟨hpath, Nat.le_of_succ_le_succ hle⟩, rfl⟩

/-! ## Lists that are linked in both directions -/

/-- Each node of `l` leads to its neighbours, and the ends of the list lead nowhere. -/
structure Doubly (next prev : ι → Option ι) (l : List ι) : Prop where
  nodup : l.Nodup
  links : ∀ l₁ a l₂, l = l₁ ++ a :: l₂ → next a = l₂.head? ∧ prev a = l₁.getLast?

theorem Doubly.path (h : Doubly next prev l) : Path next l.head? l := by
  have hsuffix : ∀ l₁ m, l = l₁ ++ m → Path next m.head? m := by
    intro l₁ m
    induction m generalizing l₁ with
    | nil => exact fun _ ↦ rfl
    | cons a m ih =>
      intro hl
      refine ⟨rfl, ?_⟩
      rw [(h.links l₁ a m hl).1]
      exact ih (l₁ ++ [a]) (by simp [hl])
  exact hsuffix [] l rfl

/-- The links in one direction are the inverse of those in the other. -/
theorem Doubly.next_iff_prev (h : Doubly next prev l) (ha : a ∈ l) (hb : b ∈ l) :
    next a = some b ↔ prev b = some a := by
  constructor
  · intro hnext
    obtain ⟨l₁, l₂, hl⟩ := List.append_of_mem ha
    rw [(h.links l₁ a l₂ hl).1, List.head?_eq_some_iff] at hnext
    obtain ⟨m, rfl⟩ := hnext
    rw [(h.links (l₁ ++ [a]) b m (by simp [hl])).2, List.getLast?_concat]
  · intro hprev
    obtain ⟨l₁, l₂, hl⟩ := List.append_of_mem hb
    rw [(h.links l₁ b l₂ hl).2, List.getLast?_eq_some_iff] at hprev
    obtain ⟨m, rfl⟩ := hprev
    rw [(h.links m a (b :: l₂) (by simp [hl])).1, List.head?_cons]

/-- A node that has a successor is not the last one. -/
theorem getLast?_ne_of_nodup (h : (l₁ ++ a :: b :: l₂).Nodup) :
    (l₁ ++ a :: b :: l₂).getLast? ≠ some a := by
  intro hlast
  rw [List.append_cons, List.getLast?_append_of_ne_nil _ (List.cons_ne_nil b l₂)] at hlast
  rw [List.nodup_append'] at h
  exact (List.nodup_cons.mp h.2.1).1 (List.mem_of_getLast? hlast)

/-- A node `b` comes behind the last node `a`. -/
theorem Doubly.concat (h : Doubly next prev l) (hlast : l.getLast? = some a) (hb : b ∉ l)
    (hnext : next' a = some b) (hprev : prev' b = some a) (hend : next' b = none)
    (hnexts : ∀ x ∈ l, x ≠ a → next' x = next x) (hprevs : ∀ x ∈ l, prev' x = prev x) :
    Doubly next' prev' (l ++ [b]) := by
  refine ⟨List.nodup_append'.mpr ⟨h.nodup, List.nodup_singleton b, by simpa using hb⟩, ?_⟩
  intro l₁ x l₂ heq
  rcases List.eq_nil_or_concat l₂ with rfl | ⟨l₂, y, rfl⟩
  · -- `b` itself
    obtain ⟨rfl, hx⟩ := List.append_inj' heq rfl
    cases hx
    exact ⟨hend, hprev.trans hlast.symm⟩
  · have hsplit : l ++ [b] = (l₁ ++ x :: l₂) ++ [y] := by simpa using heq
    obtain ⟨hl, hy⟩ := List.append_inj' hsplit rfl
    cases hy
    have hx : x ∈ l := by simp [hl]
    obtain ⟨hnext', hprev'⟩ := h.links l₁ x l₂ hl
    refine ⟨?_, (hprevs x hx).trans hprev'⟩
    cases l₂ with
    | nil =>
      -- the old last node
      rw [hl, List.getLast?_concat, Option.some.injEq] at hlast
      rw [hlast, hnext]
      rfl
    | cons z l₂ =>
      have hne : x ≠ a := by
        rintro rfl
        have hnodup := h.nodup
        rw [hl] at hlast hnodup
        exact getLast?_ne_of_nodup hnodup hlast
      rw [hnexts x hx hne, hnext']
      rfl

/-- The neighbours of a node are linked to each other. -/
theorem Doubly.remove (h : Doubly next prev (l₁ ++ b :: l₂)) (hlast : l₁.getLast? = some a)
    (hnext : next' a = l₂.head?) (hprev : ∀ c, l₂.head? = some c → prev' c = some a)
    (hnexts : ∀ x ∈ l₁ ++ l₂, x ≠ a → next' x = next x)
    (hprevs : ∀ x ∈ l₁ ++ l₂, l₂.head? ≠ some x → prev' x = prev x) :
    Doubly next' prev' (l₁ ++ l₂) := by
  have hnodup := h.nodup
  rw [List.nodup_append'] at hnodup
  obtain ⟨hnodup₁, hnodup₂, hdisjoint⟩ := hnodup
  have hnodup₂ := (List.nodup_cons.mp hnodup₂).2
  have hdisjoint : l₁.Disjoint l₂ := fun x hx hx' ↦ hdisjoint hx (List.mem_cons_of_mem b hx')
  refine ⟨List.nodup_append'.mpr ⟨hnodup₁, hnodup₂, hdisjoint⟩, ?_⟩
  intro k₁ x k₂ heq
  have hx : x ∈ l₁ ++ l₂ := by simp [heq]
  have hbehind : ∀ m, k₁ = l₁ ++ m → l₂ = m ++ x :: k₂ →
      next' x = k₂.head? ∧ prev' x = k₁.getLast? := by
    rintro m rfl rfl
    have hold := h.links (l₁ ++ b :: m) x k₂ (by simp)
    have hne : x ≠ a := by
      rintro rfl
      exact hdisjoint (List.mem_of_getLast? hlast) (by simp)
    refine ⟨(hnexts x hx hne).trans hold.1, ?_⟩
    cases m with
    | nil => rw [hprev x rfl, List.append_nil, hlast]
    | cons c m =>
      have hother : ((c :: m) ++ x :: k₂).head? ≠ some x := by
        intro heq'
        cases heq'
        exact (List.nodup_cons.mp hnodup₂).1 (by simp)
      rw [hprevs x hx hother, hold.2, List.append_cons,
        List.getLast?_append_of_ne_nil _ (List.cons_ne_nil c m),
        List.getLast?_append_of_ne_nil _ (List.cons_ne_nil c m)]
  rcases List.append_eq_append_iff.mp heq with ⟨m, hk, hm⟩ | ⟨m, hl, hm⟩
  · exact hbehind m hk hm
  cases m with
  | nil => exact hbehind [] (by simp [hl]) hm.symm
  | cons y m =>
    -- in front of the node that goes
    rw [List.cons_append, List.cons.injEq] at hm
    obtain ⟨rfl, rfl⟩ := hm
    have hold := h.links k₁ x (m ++ b :: l₂) (by simp [hl])
    have hother : l₂.head? ≠ some x := by
      intro hhead
      exact hdisjoint (by simp [hl]) (List.mem_of_head? hhead)
    refine ⟨?_, (hprevs x hx hother).trans hold.2⟩
    cases m with
    | nil =>
      rw [hl, List.getLast?_concat, Option.some.injEq] at hlast
      rw [hlast, hnext]
      rfl
    | cons z m =>
      have hne : x ≠ a := by
        rintro rfl
        rw [hl] at hlast hnodup₁
        exact getLast?_ne_of_nodup hnodup₁ hlast
      rw [hnexts x hx hne, hold.1]
      rfl

theorem Doubly.congr (h : Doubly next prev l) (hnext : ∀ x ∈ l, next' x = next x)
    (hprev : ∀ x ∈ l, prev' x = prev x) : Doubly next' prev' l := by
  refine ⟨h.nodup, fun l₁ x l₂ heq ↦ ?_⟩
  have hx : x ∈ l := by simp [heq]
  rw [hnext x hx, hprev x hx]
  exact h.links l₁ x l₂ heq

/-! ## Lists that share their links -/

/-- The lists have no node in common, and a node of none of them is not linked. -/
structure Separate {κ : Type*} (next prev : ι → Option ι) (lists : κ → List ι) : Prop where
  doubly : ∀ k, Doubly next prev (lists k)
  apart : ∀ j k x, x ∈ lists j → x ∈ lists k → j = k
  others : ∀ x, (∀ k, x ∉ lists k) → next x = none ∧ prev x = none

theorem Separate.congr {κ : Type*} {lists : κ → List ι} (h : Separate next prev lists)
    (hnext : ∀ x, next' x = next x) (hprev : ∀ x, prev' x = prev x) : Separate next' prev' lists := by
  rw [funext hnext, funext hprev]
  exact h

section

variable {κ : Type*} [DecidableEq ι] [DecidableEq κ] {lists : κ → List ι} {k : κ}

/-- A node that is in no list comes behind the last node of one. -/
theorem Separate.concat (h : Separate next prev lists) (hlast : (lists k).getLast? = some a)
    (hb : ∀ j, b ∉ lists j) :
    Separate (fun x ↦ if x = a then some b else next x) (fun x ↦ if x = b then some a else prev x)
      (fun j ↦ if j = k then lists k ++ [b] else lists j) where
  doubly j := by
    have ha := List.mem_of_getLast? hlast
    have hab : b ≠ a := fun heq ↦ hb k (heq ▸ ha)
    by_cases hj : j = k
    · rw [if_pos hj]
      refine (h.doubly k).concat hlast (hb k) (if_pos rfl) (if_pos rfl) ?_ ?_ ?_
      · exact (if_neg hab).trans (h.others b hb).1
      · exact fun x _ hne ↦ if_neg hne
      · exact fun x hx ↦ if_neg fun heq : x = b ↦ hb k (heq ▸ hx)
    · rw [if_neg hj]
      refine (h.doubly j).congr (fun x hx ↦ if_neg ?_) (fun x hx ↦ if_neg ?_)
      · rintro rfl
        exact hj (h.apart j k x hx ha)
      · rintro rfl
        exact hb j hx
  apart i j x hi hj := by
    have hmem : ∀ i, x ∈ (if i = k then lists k ++ [b] else lists i) →
        x ∈ lists i ∨ x = b ∧ i = k := by
      intro i hi
      by_cases hik : i = k
      · rw [if_pos hik, List.mem_append, List.mem_singleton] at hi
        exact hi.imp (fun hx ↦ hik ▸ hx) fun hx ↦ ⟨hx, hik⟩
      · rw [if_neg hik] at hi
        exact Or.inl hi
    rcases hmem i hi with hold | ⟨hx, hik⟩ <;> rcases hmem j hj with hold' | ⟨hx', hjk⟩
    · exact h.apart i j x hold hold'
    · exact absurd (hx' ▸ hold) (hb i)
    · exact absurd (hx ▸ hold') (hb j)
    · exact hik.trans hjk.symm
  others x hx := by
    have hout : ∀ j, x ∉ lists j := by
      intro j hj
      refine hx j ?_
      by_cases hjk : j = k
      · rw [if_pos hjk]
        exact List.mem_append_left _ (hjk ▸ hj)
      · rwa [if_neg hjk]
    have hxa : x ≠ a := fun heq ↦ hout k (heq ▸ List.mem_of_getLast? hlast)
    have hxb : x ≠ b := by
      rintro rfl
      exact hx k (by simp)
    rw [if_neg hxa, if_neg hxb]
    exact h.others x hout

/-- A node is taken out of its list, whose other nodes are linked to each other. -/
theorem Separate.remove (h : Separate next prev lists) (hsplit : lists k = l₁ ++ b :: l₂)
    (hlast : l₁.getLast? = some a) :
    Separate (fun x ↦ if x = b then none else if x = a then l₂.head? else next x)
      (fun x ↦ if x = b then none else if l₂.head? = some x then some a else prev x)
      (fun j ↦ if j = k then l₁ ++ l₂ else lists j) := by
  have hdoubly := h.doubly k
  rw [hsplit] at hdoubly
  have hnodup := hdoubly.nodup
  rw [List.nodup_middle, List.nodup_cons] at hnodup
  have hne : ∀ x ∈ l₁ ++ l₂, x ≠ b := fun x hx heq ↦ hnodup.1 (heq ▸ hx)
  have hin : ∀ x ∈ l₁ ++ l₂, x ∈ lists k := by
    intro x hx
    rw [hsplit]
    exact List.mem_append.mpr ((List.mem_append.mp hx).imp_right (List.mem_cons_of_mem b))
  have hbk : b ∈ lists k := by simp [hsplit]
  have hak : a ∈ l₁ ++ l₂ := List.mem_append_left _ (List.mem_of_getLast? hlast)
  have hhead : ∀ x, l₂.head? = some x → x ∈ l₁ ++ l₂ :=
    fun x hx ↦ List.mem_append_right _ (List.mem_of_head? hx)
  refine ⟨fun j ↦ ?_, fun i j x hi hj ↦ ?_, fun x hx ↦ ?_⟩
  · by_cases hj : j = k
    · rw [if_pos hj]
      refine hdoubly.remove hlast ?_ (fun c hc ↦ ?_) (fun x hx hxa ↦ ?_) (fun x hx hxc ↦ ?_)
      · exact (if_neg (hne a hak)).trans (if_pos rfl)
      · exact (if_neg (hne c (hhead c hc))).trans (if_pos hc)
      · exact (if_neg (hne x hx)).trans (if_neg hxa)
      · exact (if_neg (hne x hx)).trans (if_neg hxc)
    · -- the other lists have neither the node nor its neighbours
      rw [if_neg hj]
      have hout : ∀ x ∈ lists j, x ∉ lists k := fun x hx hxk ↦ hj (h.apart j k x hx hxk)
      refine (h.doubly j).congr (fun x hx ↦ ?_) (fun x hx ↦ ?_)
      · have hxb : x ≠ b := fun heq ↦ hout x hx (heq ▸ hbk)
        have hxa : x ≠ a := fun heq ↦ hout x hx (hin x (heq ▸ hak))
        exact (if_neg hxb).trans (if_neg hxa)
      · have hxb : x ≠ b := fun heq ↦ hout x hx (heq ▸ hbk)
        have hxc : l₂.head? ≠ some x := fun heq ↦ hout x hx (hin x (hhead x heq))
        exact (if_neg hxb).trans (if_neg hxc)
  · have hmem : ∀ i, x ∈ (if i = k then l₁ ++ l₂ else lists i) → x ∈ lists i := by
      intro i hi
      by_cases hik : i = k
      · rw [if_pos hik] at hi
        exact hik ▸ hin x hi
      · rwa [if_neg hik] at hi
    exact h.apart i j x (hmem i hi) (hmem j hj)
  · by_cases hxb : x = b
    · exact ⟨if_pos hxb, if_pos hxb⟩
    have hnot : x ∉ l₁ ++ l₂ := by
      have := hx k
      rwa [if_pos rfl] at this
    have hout : ∀ j, x ∉ lists j := by
      intro j hj
      by_cases hjk : j = k
      · rw [hjk, hsplit] at hj
        exact hnot (by simpa [hxb] using hj)
      · have := hx j
        rw [if_neg hjk] at this
        exact this hj
    have hxa : x ≠ a := fun heq ↦ hnot (heq ▸ hak)
    have hxc : l₂.head? ≠ some x := fun heq ↦ hnot (hhead x heq)
    rw [if_neg hxb, if_neg hxb, if_neg hxa, if_neg hxc]
    exact h.others x hout

end

end Reasoning
