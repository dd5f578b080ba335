import Mathlib.Data.List.Basic

/-!
# Runs of partial step functions

A system is a step function `σ → α → Option σ`: `none` means that the action is not enabled.  A run
folds the step over a list of actions.  The rules below turn a step lemma into a run lemma, also for
the runs all of whose steps meet a condition on the action and on the state before it.
-/

namespace Reasoning

variable {σ α : Type*}

/-- The state after the actions `as`, if each of them is enabled in turn. -/
def run (step : σ → α → Option σ) (s : σ) (as : List α) : Option σ :=
  as.foldlM step s

@[simp] theorem run_nil (step : σ → α → Option σ) (s : σ) : run step s [] = some s := rfl

@[simp] theorem run_cons (step : σ → α → Option σ) (s : σ) (a : α) (as : List α) :
    run step s (a :: as) = (step s a).bind (run step · as) := by
  simp only [run, List.foldlM_cons, Option.bind_eq_bind]

theorem run_append (step : σ → α → Option σ) (s : σ) (as bs : List α) :
    run step s (as ++ bs) = (run step s as).bind (run step · bs) := by
  simp only [run, List.foldlM_append, Option.bind_eq_bind]

/-- Every action of the run is taken in a state where `ok` holds of it. -/
def Meets (step : σ → α → Option σ) (ok : σ → α → Prop) : σ → List α → Prop
  | _, [] => True
  | s, a :: as => ok s a ∧ ∀ t, step s a = some t → Meets step ok t as

instance decidableMeets {step : σ → α → Option σ} {ok : σ → α → Prop}
    [∀ s a, Decidable (ok s a)] (s : σ) : (as : List α) → Decidable (Meets step ok s as)
  | [] => inferInstanceAs (Decidable True)
  | a :: as =>
    match h : step s a with
    | none => decidable_of_iff (ok s a) (by simp [Meets, h])
    | some t =>
      have : Decidable (Meets step ok t as) := decidableMeets t as
      decidable_of_iff (ok s a ∧ Meets step ok t as) (by simp [Meets, h])

/-- A property that holds at the start and that every step meeting `ok` preserves holds in every
state that a run of such steps reaches. -/
theorem invariant_of_meets {step : σ → α → Option σ} {ok : σ → α → Prop} (inv : σ → Prop)
    (hstep : ∀ s a t, inv s → ok s a → step s a = some t → inv t)
    {s t : σ} {as : List α} (hinv : inv s) (hok : Meets step ok s as)
    (hrun : run step s as = some t) : inv t := by
  induction as generalizing s with
  | nil =>
    rw [run_nil, Option.some.injEq] at hrun
    exact hrun ▸ hinv
  | cons a as ih =>
    rw [run_cons, Option.bind_eq_some_iff] at hrun
    obtain ⟨u, hu, hrest⟩ := hrun
    exact ih (hstep s a u hinv hok.1 hu) (hok.2 u hu) hrest

theorem meets_true (step : σ → α → Option σ) (s : σ) (as : List α) :
    Meets step (fun _ _ ↦ True) s as := by
  induction as generalizing s with
  | nil => trivial
  | cons a as ih => exact ⟨trivial, fun t _ ↦ ih t⟩

theorem Meets.and {step : σ → α → Option σ} {ok ok' : σ → α → Prop} {s : σ} {as : List α}
    (h : Meets step ok s as) (h' : Meets step ok' s as) :
    Meets step (fun s a ↦ ok s a ∧ ok' s a) s as := by
  induction as generalizing s with
  | nil => trivial
  | cons a as ih => exact ⟨⟨h.1, h'.1⟩, fun t ht ↦ ih (h.2 t ht) (h'.2 t ht)⟩

/-- A condition on the actions alone. -/
theorem meets_of_forall {ok : α → Prop} (step : σ → α → Option σ) (s : σ) {as : List α}
    (h : ∀ a ∈ as, ok a) : Meets step (fun _ a ↦ ok a) s as := by
  induction as generalizing s with
  | nil => trivial
  | cons a as ih =>
    obtain ⟨ha, has⟩ := List.forall_mem_cons.mp h
    exact ⟨ha, fun t _ ↦ ih t has⟩

/-- In a run all of whose actions are enabled, a condition on the actions alone is one on the list. -/
theorem meets_iff_forall_of_run {step : σ → α → Option σ} {ok : α → Prop} {s t : σ} {as : List α}
    (hrun : run step s as = some t) : Meets step (fun _ a ↦ ok a) s as ↔ ∀ a ∈ as, ok a := by
  refine ⟨fun h ↦ ?_, meets_of_forall step s⟩
  induction as generalizing s with
  | nil => exact fun a ha ↦ absurd ha List.not_mem_nil
  | cons a as ih =>
    rw [run_cons, Option.bind_eq_some_iff] at hrun
    obtain ⟨u, hu, hrest⟩ := hrun
    exact List.forall_mem_cons.mpr ⟨h.1, ih hrest (h.2 u hu)⟩

/-- Where each step keeps a property exactly if it meets `ok`, a run keeps it exactly if all of its
steps do. -/
theorem good_iff_meets {step : σ → α → Option σ} {ok : σ → α → Prop} (inv good : σ → Prop)
    (hstep : ∀ s a t, inv s → step s a = some t → inv t ∧ (good t ↔ good s ∧ ok s a))
    {s t : σ} {as : List α} (hinv : inv s) (hrun : run step s as = some t) :
    good t ↔ good s ∧ Meets step ok s as := by
  induction as generalizing s with
  | nil =>
    rw [run_nil, Option.some.injEq] at hrun
    subst hrun
    simp only [Meets, and_true]
  | cons a as ih =>
    rw [run_cons, Option.bind_eq_some_iff] at hrun
    have ⟨u, hu, hrest⟩ := hrun
    have ⟨hinv', hgood⟩ := hstep s a u hinv hu
    have hmeets : (∀ v, step s a = some v → Meets step ok v as) ↔ Meets step ok u as := by
      simp only [hu, Option.some.injEq, forall_eq']
    rw [ih hinv' hrest, hgood, Meets, hmeets, and_assoc]

/-- Two conditions that agree on the steps from the states of an invariant. -/
theorem meets_iff_meets_of_run {step : σ → α → Option σ} {ok ok' : σ → α → Prop} (inv : σ → Prop)
    (hstep : ∀ s a t, inv s → step s a = some t → inv t ∧ (ok s a ↔ ok' s a))
    {s t : σ} {as : List α} (hinv : inv s) (hrun : run step s as = some t) :
    Meets step ok s as ↔ Meets step ok' s as := by
  induction as generalizing s with
  | nil => exact Iff.rfl
  | cons a as ih =>
    rw [run_cons, Option.bind_eq_some_iff] at hrun
    obtain ⟨u, hu, hrest⟩ := hrun
    obtain ⟨hinv', hiff⟩ := hstep s a u hinv hu
    simp only [Meets, hu, Option.some.injEq, forall_eq', hiff, ih hinv' hrest]

/-- Every state of the run, the first one included, is good. -/
def Always (step : σ → α → Option σ) (good : σ → Prop) : σ → List α → Prop
  | s, [] => good s
  | s, a :: as => good s ∧ ∀ t, step s a = some t → Always step good t as

theorem Always.head {step : σ → α → Option σ} {good : σ → Prop} {s : σ} {as : List α}
    (h : Always step good s as) : good s := by
  cases as with
  | nil => exact h
  | cons a as => exact h.1

/-- The last state of the run is one of them. -/
theorem Always.last {step : σ → α → Option σ} {good : σ → Prop} {s t : σ} {as : List α}
    (h : Always step good s as) (hrun : run step s as = some t) : good t := by
  induction as generalizing s with
  | nil =>
    rw [run_nil, Option.some.injEq] at hrun
    exact hrun ▸ h
  | cons a as ih =>
    rw [run_cons, Option.bind_eq_some_iff] at hrun
    obtain ⟨u, hu, hrest⟩ := hrun
    exact ih (h.2 u hu) hrest

/-- An invariant of the steps that meet `ok` makes all states of a run of such steps good. -/
theorem always_of_meets {step : σ → α → Option σ} {ok : σ → α → Prop} {good : σ → Prop}
    (inv : σ → Prop) (hgood : ∀ s, inv s → good s)
    (hstep : ∀ s a t, inv s → ok s a → step s a = some t → inv t)
    {s : σ} {as : List α} (hinv : inv s) (hok : Meets step ok s as) : Always step good s as := by
  induction as generalizing s with
  | nil => exact hgood s hinv
  | cons a as ih =>
    refine ⟨hgood s hinv, fun t ht ↦ ?_⟩
    exact ih (hstep s a t hinv hok.1 ht) (hok.2 t ht)

/-- Where a step from a good state leads to a good state exactly if it meets `ok`, all states of a
run are good exactly if all of its steps meet it.  What is known of the steps may depend on a
condition that the run meets. -/
theorem always_iff_meets_of_meets {step : σ → α → Option σ} {cond ok : σ → α → Prop}
    (inv good : σ → Prop)
    (hstep : ∀ s a t, inv s → good s → cond s a → step s a = some t →
      (good t ↔ ok s a) ∧ (good t → inv t))
    (hstuck : ∀ s a, step s a = none → ok s a) {s : σ} (hinv : inv s) (hgood : good s)
    {as : List α} (hcond : Meets step cond s as) : Always step good s as ↔ Meets step ok s as := by
  induction as generalizing s with
  | nil => simp only [Always, Meets, hgood]
  | cons a as ih =>
    simp only [Always, Meets, hgood, true_and]
    cases h : step s a with
    | none => simp [hstuck s a h]
    | some t =>
      obtain ⟨hgood', hinv'⟩ := hstep s a t hinv hgood hcond.1 h
      have hrest := hcond.2 t h
      simp only [Option.some.injEq, forall_eq']
      constructor
      · intro halways
        have hgood := halways.head
        exact ⟨hgood'.mp hgood, (ih (hinv' hgood) hgood hrest).mp halways⟩
      · rintro ⟨hok, hmeets⟩
        have hgood := hgood'.mpr hok
        exact (ih (hinv' hgood) hgood hrest).mpr hmeets

theorem always_iff_meets {step : σ → α → Option σ} {ok : σ → α → Prop} (inv good : σ → Prop)
    (hstep : ∀ s a t, inv s → good s → step s a = some t →
      (good t ↔ ok s a) ∧ (good t → inv t))
    (hstuck : ∀ s a, step s a = none → ok s a) {s : σ} (hinv : inv s) (hgood : good s)
    (as : List α) : Always step good s as ↔ Meets step ok s as :=
  always_iff_meets_of_meets inv good (fun s a t hi hg _ ↦ hstep s a t hi hg) hstuck hinv hgood
    (meets_true step s as)

/-- The same of a run all of whose actions are enabled, where `ok` need not hold of the others. -/
theorem always_iff_meets_of_run {step : σ → α → Option σ} {ok : σ → α → Prop}
    (inv good : σ → Prop)
    (hstep : ∀ s a t, inv s → good s → step s a = some t →
      (good t ↔ ok s a) ∧ (good t → inv t))
    {s t : σ} {as : List α} (hinv : inv s) (hgood : good s) (hrun : run step s as = some t) :
    Always step good s as ↔ Meets step ok s as := by
  induction as generalizing s with
  | nil => simp only [Always, Meets, hgood]
  | cons a as ih =>
    rw [run_cons, Option.bind_eq_some_iff] at hrun
    obtain ⟨u, hu, hrest⟩ := hrun
    obtain ⟨hgood', hinv'⟩ := hstep s a u hinv hgood hu
    simp only [Always, Meets, hgood, true_and, hu, Option.some.injEq, forall_eq']
    constructor
    · intro halways
      have hgood := halways.head
      exact ⟨hgood'.mp hgood, (ih (hinv' hgood) hgood hrest).mp halways⟩
    · rintro ⟨hok, hmeets⟩
      have hgood := hgood'.mpr hok
      exact (ih (hinv' hgood) hgood hrest).mpr hmeets

/-- The unconditional rule. -/
theorem invariant_of_run {step : σ → α → Option σ} (inv : σ → Prop)
    (hstep : ∀ s a t, inv s → step s a = some t → inv t)
    {s t : σ} {as : List α} (hinv : inv s) (hrun : run step s as = some t) : inv t :=
  invariant_of_meets inv (fun s a t hi _ ↦ hstep s a t hi) hinv (meets_true step s as) hrun

/-- A system that can follow each step of another one can follow its runs. -/
theorem simulates_of_run {τ : Type*} {step : σ → α → Option σ} {step' : τ → α → Option τ}
    (rel : σ → τ → Prop)
    (hstep : ∀ s t a t', rel s t → step' t a = some t' → ∃ s', step s a = some s' ∧ rel s' t')
    {s : σ} {t t' : τ} {as : List α} (hrel : rel s t) (hrun : run step' t as = some t') :
    ∃ s', run step s as = some s' ∧ rel s' t' := by
  induction as generalizing s t with
  | nil =>
    rw [run_nil, Option.some.injEq] at hrun
    exact ⟨s, rfl, hrun ▸ hrel⟩
  | cons a as ih =>
    rw [run_cons, Option.bind_eq_some_iff] at hrun
    obtain ⟨u, hu, hrest⟩ := hrun
    obtain ⟨v, hv, hrel'⟩ := hstep s t a u hrel hu
    obtain ⟨s', hrun', hrel''⟩ := ih hrel' hrest
    exact ⟨s', by rw [run_cons, hv]; exact hrun', hrel''⟩

/-! ## Places -/

/-- Where a list holds the place of each call, a call that moves is counted at its new place instead
of its old one. -/
theorem countP_set_add {p : α → Bool} {l : List α} {i : Nat} {old new : α}
    (hold : l[i]? = some old) :
    (l.set i new).countP p + (p old).toNat = l.countP p + (p new).toNat := by
  obtain ⟨hlt, hget⟩ := List.getElem?_eq_some_iff.mp hold
  have hpos : p old = true → 0 < l.countP p := fun hp ↦
    List.countP_pos_iff.mpr ⟨old, List.mem_of_getElem? hold, hp⟩
  rw [List.countP_set hlt, hget]
  cases hp : p old with
  | false => cases p new <;> simp
  | true =>
    have := hpos hp
    cases p new <;> simp <;> omega

/-- The same where the places are told apart one by one. -/
theorem count_set_add [DecidableEq α] {l : List α} {i : Nat} {old : α} (hold : l[i]? = some old)
    (new place : α) :
    (l.set i new).count place + (if old = place then 1 else 0) =
      l.count place + if new = place then 1 else 0 := by
  have htoNat : ∀ a : α, (a == place).toNat = if a = place then 1 else 0 := by
    intro a
    by_cases heq : a = place <;> simp [heq]
  have hset : (l.set i new).countP (· == place) + (old == place).toNat =
      l.countP (· == place) + (new == place).toNat := countP_set_add hold
  rw [htoNat, htoNat] at hset
  exact hset

end Reasoning
