import Mathlib.Data.List.Basic

/-!
# Event operations

`EventOperation::perform` tries a non-blocking operation, waits for its event where the operation
would block, and tries again.  What a call meets outside of itself is a script with one turn for
each pass of the loop; the call returns the turns that it did not need.
-/

namespace Ustevent.Net

/-! ## Error codes -/

namespace Error

def closed : Int := -1
def remotelyClosed : Int := -2
def timeout : Int := -3
def interrupted : Int := -4

end Error

namespace Errno

def eintr : Nat := 4
def eagain : Nat := 11
def epipe : Nat := 32

end Errno

/-! ## perform -/

/-- What a pass of the loop meets: `is_open()`, the answers of the system to the operation, whether
`waitFor` is notified in time and what `_interrupted` is after the wait. -/
structure Turn (ρ : Type) where
  isOpen : Bool
  answers : ρ
  notified : Bool
  interrupted : Bool
deriving DecidableEq

/-- The functions that a caller hands to `perform`, over the variables that they capture.  Each
returns its value, the variables and `*error`; an operation without an answer does not return. -/
structure Operation (σ ρ : Type) where
  nonBlockingOperation : ρ → σ → Int → Option (Bool × σ × Int)
  onOperated : σ → Int → Bool × σ × Int
  onNotified : σ → Int → Bool × σ × Int

/-- How a pass of the loop ends. -/
inductive Flow (σ : Type)
  | again (s : σ) (error : Int)
  | done (s : σ) (error : Int)

/-- The end of a pass after `on_operated` or `on_notified`. -/
def Flow.of {σ : Type} : Bool × σ × Int → Flow σ
  | (true, s, error) => .done s error
  | (false, s, error) => .again s error

/-- How far a pass of the loop gets before it waits. -/
inductive Attempt (σ : Type)
  | ends (flow : Flow σ)
  | blocks (s : σ) (error : Int)

/-- The pass goes on with `again`, or ends the call with `done`. -/
def Flow.Leads {σ : Type} (again done : σ → Int → Prop) : Flow σ → Prop
  | .again s error => again s error
  | .done s error => done s error

theorem Flow.leads_of {σ : Type} {again done : σ → Int → Prop} {finished : Bool} {s : σ}
    {error : Int} (hagain : finished = false → again s error)
    (hdone : finished = true → done s error) : (Flow.of (finished, s, error)).Leads again done :=
  match finished with
  | true => hdone rfl
  | false => hagain rfl

theorem Flow.Leads.mono {σ : Type} {again done again' done' : σ → Int → Prop} {flow : Flow σ}
    (h : flow.Leads again done) (hagain : ∀ s error, again s error → again' s error)
    (hdone : ∀ s error, done s error → done' s error) : flow.Leads again' done' :=
  match flow with
  | .again s error => hagain s error h
  | .done s error => hdone s error h

namespace Operation

variable {σ τ ρ : Type}

/-- A pass up to the wait. -/
def attempt (op : Operation σ ρ) (isOpen : Bool) (answers : ρ) (s : σ) (error : Int) :
    Option (Attempt σ) :=
  if isOpen then
    match op.nonBlockingOperation answers s error with
    | none => none
    | some (true, s, error) => some (.ends (Flow.of (op.onOperated s error)))
    | some (false, s, error) => some (.blocks s error)
  else some (.ends (.done s Error.closed))

/-- The rest of a pass that has waited. -/
def afterWait (op : Operation σ ρ) (timeout : Int) (notified interrupted : Bool) (s : σ)
    (error : Int) : Flow σ :=
  if timeout > 0 ∧ notified = false then .done s Error.timeout
  else if interrupted then .done s Error.interrupted
  else Flow.of (op.onNotified s error)

def turn (op : Operation σ ρ) (timeout : Int) (t : Turn ρ) (s : σ) (error : Int) :
    Option (Flow σ) :=
  match op.attempt t.isOpen t.answers s error with
  | none => none
  | some (.ends flow) => some flow
  | some (.blocks s error) => some (op.afterWait timeout t.notified t.interrupted s error)

def loop (op : Operation σ ρ) (timeout : Int) :
    List (Turn ρ) → σ → Int → Option (σ × Int × List (Turn ρ))
  | [], _, _ => none
  | t :: turns, s, error =>
    match op.turn timeout t s error with
    | none => none
    | some (.again s error) => op.loop timeout turns s error
    | some (.done s error) => some (s, error, turns)

/-- `object` tells whether the operation has an event object. -/
def perform (op : Operation σ ρ) (object : Bool) (timeout : Int) (turns : List (Turn ρ)) (s : σ) :
    Option (σ × Int × List (Turn ρ)) :=
  if object then op.loop timeout turns s 0 else some (s, Error.closed, turns)

/-! ## Rules -/

/-- The ways through a pass of the loop. -/
inductive Passes (op : Operation σ ρ) (t : Turn ρ) (s : σ) (error : Int) : Flow σ → Prop
  | closed (hopen : t.isOpen = false) : Passes op t s error (.done s Error.closed)
  | finished {s' : σ} {error' : Int} (hopen : t.isOpen = true)
      (hcall : op.nonBlockingOperation t.answers s error = some (true, s', error')) :
      Passes op t s error (Flow.of (op.onOperated s' error'))
  | timedOut {s' : σ} {error' : Int} (hopen : t.isOpen = true)
      (hcall : op.nonBlockingOperation t.answers s error = some (false, s', error')) :
      Passes op t s error (.done s' Error.timeout)
  | interrupted {s' : σ} {error' : Int} (hopen : t.isOpen = true)
      (hcall : op.nonBlockingOperation t.answers s error = some (false, s', error')) :
      Passes op t s error (.done s' Error.interrupted)
  | notified {s' : σ} {error' : Int} (hopen : t.isOpen = true)
      (hcall : op.nonBlockingOperation t.answers s error = some (false, s', error')) :
      Passes op t s error (Flow.of (op.onNotified s' error'))

theorem turn_passes {op : Operation σ ρ} {timeout : Int} {t : Turn ρ} {s : σ} {error : Int}
    {flow : Flow σ} (hturn : op.turn timeout t s error = some flow) : op.Passes t s error flow := by
  unfold turn attempt at hturn
  by_cases hopen : t.isOpen = true
  · rw [if_pos hopen] at hturn
    match hcall : op.nonBlockingOperation t.answers s error with
    | none => exact absurd hturn (by simp [hcall])
    | some (true, s', error') =>
      rw [hcall] at hturn
      cases hturn
      exact .finished hopen hcall
    | some (false, s', error') =>
      rw [hcall] at hturn
      cases hturn
      unfold afterWait
      split
      · exact .timedOut hopen hcall
      · split
        · exact .interrupted hopen hcall
        · exact .notified hopen hcall
  · rw [if_neg hopen] at hturn
    cases hturn
    exact .closed (Bool.eq_false_iff.mpr hopen)

/-- What every pass preserves holds of the variables with which the call returns. -/
theorem loop_rule {op : Operation σ ρ} {timeout : Int} (inv post : List (Turn ρ) → σ → Int → Prop)
    (hturn : ∀ t turns s error flow, inv (t :: turns) s error →
      op.turn timeout t s error = some flow → flow.Leads (inv turns) (post turns))
    {turns rest : List (Turn ρ)} {s s' : σ} {error error' : Int} (hinv : inv turns s error)
    (hloop : op.loop timeout turns s error = some (s', error', rest)) : post rest s' error' := by
  induction turns generalizing s error with
  | nil => exact absurd hloop (by simp [loop])
  | cons t turns ih =>
    rw [loop] at hloop
    split at hloop
    · exact absurd hloop (by simp)
    · rename_i hflow
      exact ih (hturn t turns s error _ hinv hflow) hloop
    · rename_i hflow
      cases hloop
      exact hturn t rest s error _ hinv hflow

/-- A call in which a turn with `p` comes at most once, from variables that stand at `n` transferred
units, 0 before such a turn. -/
theorem loop_once {op : Operation σ ρ} {timeout : Int} {p : Turn ρ → Bool}
    (holds : Nat → σ → Prop) (right : σ → Int → Prop)
    (hidle : ∀ t n s error flow, p t = false → holds n s →
      op.turn timeout t s error = some flow → flow.Leads (fun s' _ ↦ holds n s') right)
    (hfirst : ∀ t s error flow, p t = true → holds 0 s →
      op.turn timeout t s error = some flow → flow.Leads (fun s' _ ↦ ∃ n, holds n s') right)
    {turns rest : List (Turn ρ)} {s s' : σ} {error error' : Int} (honce : turns.countP p ≤ 1)
    (hs : holds 0 s) (hloop : op.loop timeout turns s error = some (s', error', rest)) :
    right s' error' := by
  -- the turn has been and will not come again, or it has not been yet
  apply loop_rule
    (fun turns s _ ↦ ∃ n, holds n s ∧ (turns.countP p = 0 ∨ n = 0 ∧ turns.countP p ≤ 1))
    (fun _ s error ↦ right s error) ?_ ⟨0, hs, Or.inr ⟨rfl, honce⟩⟩ hloop
  intro t turns s error flow hinv hturn
  have ⟨n, hn, hcount⟩ := hinv
  rw [List.countP_cons] at hcount
  cases hp : p t with
  | true =>
    rw [if_pos hp] at hcount
    have hzero : n = 0 := by omega
    apply (hfirst t s error flow hp (hzero ▸ hn) hturn).mono
    · exact fun s' _ ⟨k, hk⟩ ↦ ⟨k, hk, Or.inl (by omega)⟩
    · exact fun _ _ h ↦ h
  | false =>
    rw [if_neg (by simp [hp])] at hcount
    apply (hidle t n s error flow hp hn hturn).mono
    · exact fun s' _ hn' ↦ ⟨n, hn', hcount⟩
    · exact fun _ _ h ↦ h

/-- A call that ends after a second turn with `p`, which spoils the variables for good. -/
theorem loop_twice {op : Operation σ ρ} {timeout : Int} {p : Turn ρ → Bool}
    (fresh begun spoiled : σ → Prop)
    (hidle : ∀ t s error flow, p t = false → op.turn timeout t s error = some flow →
      flow.Leads (fun s' _ ↦ (fresh s → fresh s') ∧ (begun s → begun s') ∧ (spoiled s → spoiled s'))
        (fun s' _ ↦ spoiled s → spoiled s'))
    (hfirst : ∀ t s error flow, p t = true → fresh s →
      op.turn timeout t s error = some flow → flow.Leads (fun s' _ ↦ begun s') (fun _ _ ↦ True))
    (hnext : ∀ t s error flow, p t = true → begun s ∨ spoiled s →
      op.turn timeout t s error = some flow →
        flow.Leads (fun s' _ ↦ spoiled s') (fun s' _ ↦ spoiled s'))
    {turns : List (Turn ρ)} {s s' : σ} {error error' : Int} (htwice : 2 ≤ turns.countP p)
    (hs : fresh s) (hloop : op.loop timeout turns s error = some (s', error', [])) :
    spoiled s' := by
  have hpost := loop_rule
    (fun turns s _ ↦ (fresh s ∧ 2 ≤ turns.countP p) ∨ (begun s ∧ 1 ≤ turns.countP p) ∨ spoiled s)
    (fun rest s _ ↦ 1 ≤ rest.countP p ∨ spoiled s) ?_ (Or.inl ⟨hs, htwice⟩) hloop
  · cases hpost with
    | inl h => exact absurd h (by simp)
    | inr h => exact h
  intro t turns s error flow hinv hturn
  rw [List.countP_cons] at hinv
  cases hp : p t with
  | true =>
    rw [if_pos hp] at hinv
    rcases hinv with ⟨hfresh, hcount⟩ | ⟨hbegun, -⟩ | hspoiled
    · -- a call that ends here leaves a turn that it should have needed
      apply (hfirst t s error flow hp hfresh hturn).mono
      · exact fun _ _ hbegun ↦ Or.inr (Or.inl ⟨hbegun, by omega⟩)
      · exact fun _ _ _ ↦ Or.inl (by omega)
    · apply (hnext t s error flow hp (Or.inl hbegun) hturn).mono
      · exact fun _ _ h ↦ Or.inr (Or.inr h)
      · exact fun _ _ h ↦ Or.inr h
    · apply (hnext t s error flow hp (Or.inr hspoiled) hturn).mono
      · exact fun _ _ h ↦ Or.inr (Or.inr h)
      · exact fun _ _ h ↦ Or.inr h
  | false =>
    rw [if_neg (by simp [hp]), Nat.add_zero] at hinv
    apply (hidle t s error flow hp hturn).mono
    · intro s' _ ⟨hfresh', hbegun', hspoiled'⟩
      rcases hinv with ⟨hfresh, hcount⟩ | ⟨hbegun, hcount⟩ | hspoiled
      · exact Or.inl ⟨hfresh' hfresh, hcount⟩
      · exact Or.inr (Or.inl ⟨hbegun' hbegun, hcount⟩)
      · exact Or.inr (Or.inr (hspoiled' hspoiled))
    · intro s' _ hspoiled'
      rcases hinv with ⟨-, hcount⟩ | ⟨-, hcount⟩ | hspoiled
      · exact Or.inl (by omega)
      · exact Or.inl hcount
      · exact Or.inr (hspoiled' hspoiled)

/-- Two values of a captured function with related variables. -/
def Agree (R : σ → τ → Prop) (p : Bool × σ × Int) (q : Bool × τ × Int) : Prop :=
  p.1 = q.1 ∧ R p.2.1 q.2.1 ∧ p.2.2 = q.2.2

/-- The second operation goes the way of the first one, on related variables. -/
structure Follows (op : Operation σ ρ) (op' : Operation τ ρ) (R : σ → τ → Prop) : Prop where
  nonBlockingOperation : ∀ answers s t error p, R s t →
    op.nonBlockingOperation answers s error = some p →
      ∃ q, op'.nonBlockingOperation answers t error = some q ∧ Agree R p q
  onOperated : ∀ s t error, R s t → Agree R (op.onOperated s error) (op'.onOperated t error)
  onNotified : ∀ s t error, R s t → Agree R (op.onNotified s error) (op'.onNotified t error)

def FlowAgree (R : σ → τ → Prop) : Flow σ → Flow τ → Prop
  | .again s error, .again t error' => R s t ∧ error = error'
  | .done s error, .done t error' => R s t ∧ error = error'
  | _, _ => False

theorem Agree.flow {R : σ → τ → Prop} {p : Bool × σ × Int} {q : Bool × τ × Int}
    (h : Agree R p q) : FlowAgree R (Flow.of p) (Flow.of q) := by
  have ⟨hvalue, hR, herror⟩ := h
  match p, q with
  | (true, s, error), (true, t, error') => exact ⟨hR, herror⟩
  | (false, s, error), (false, t, error') => exact ⟨hR, herror⟩

theorem Follows.afterWait {op : Operation σ ρ} {op' : Operation τ ρ} {R : σ → τ → Prop}
    (h : Follows op op' R) (timeout : Int) (notified interrupted : Bool) {s : σ} {s' : τ}
    (error : Int) (hR : R s s') : FlowAgree R (op.afterWait timeout notified interrupted s error)
      (op'.afterWait timeout notified interrupted s' error) := by
  unfold Operation.afterWait
  by_cases htimeout : timeout > 0 ∧ notified = false
  · rw [if_pos htimeout, if_pos htimeout]
    exact ⟨hR, rfl⟩
  rw [if_neg htimeout, if_neg htimeout]
  by_cases hinterrupted : interrupted = true
  · rw [if_pos hinterrupted, if_pos hinterrupted]
    exact ⟨hR, rfl⟩
  · rw [if_neg hinterrupted, if_neg hinterrupted]
    exact (h.onNotified s s' error hR).flow

theorem Follows.turn {op : Operation σ ρ} {op' : Operation τ ρ} {R : σ → τ → Prop}
    (h : Follows op op' R) {timeout : Int} {t : Turn ρ} {s : σ} {s' : τ} {error : Int}
    (hR : R s s') {flow : Flow σ} (hturn : op.turn timeout t s error = some flow) :
    ∃ flow', op'.turn timeout t s' error = some flow' ∧ FlowAgree R flow flow' := by
  unfold Operation.turn attempt at hturn ⊢
  by_cases hopen : t.isOpen = true
  · rw [if_pos hopen] at hturn ⊢
    match hcall : op.nonBlockingOperation t.answers s error with
    | none => exact absurd hturn (by simp [hcall])
    | some (finished, s₁, error₁) =>
      have ⟨(finished', s₂, error₂), hcall', hfinished, hR', herror⟩ :=
        h.nonBlockingOperation t.answers s s' error _ hR hcall
      dsimp only at hfinished hR' herror
      subst hfinished herror
      rw [hcall] at hturn
      rw [hcall']
      cases finished with
      | true =>
        cases hturn
        exact ⟨_, rfl, (h.onOperated s₁ s₂ error₁ hR').flow⟩
      | false =>
        cases hturn
        exact ⟨_, rfl, h.afterWait timeout t.notified t.interrupted error₁ hR'⟩
  · rw [if_neg hopen] at hturn ⊢
    cases hturn
    exact ⟨_, rfl, hR, rfl⟩

theorem Follows.loop {op : Operation σ ρ} {op' : Operation τ ρ} {R : σ → τ → Prop}
    (h : Follows op op' R) {timeout : Int} {turns rest : List (Turn ρ)} {s s₁ : σ} {s' : τ}
    {error error₁ : Int} (hR : R s s')
    (hloop : op.loop timeout turns s error = some (s₁, error₁, rest)) :
    ∃ s₁', op'.loop timeout turns s' error = some (s₁', error₁, rest) ∧ R s₁ s₁' := by
  induction turns generalizing s s' error with
  | nil => exact absurd hloop (by simp [Operation.loop])
  | cons t turns ih =>
    rw [Operation.loop] at hloop ⊢
    match hturn : op.turn timeout t s error with
    | none => exact absurd hloop (by simp [hturn])
    | some (.again s₂ error₂) =>
      have ⟨flow', hturn', hagree⟩ := h.turn hR hturn
      match flow', hagree with
      | .again s₂' _, ⟨hR', rfl⟩ =>
        rw [hturn] at hloop
        rw [hturn']
        exact ih hR' hloop
    | some (.done s₂ error₂) =>
      have ⟨flow', hturn', hagree⟩ := h.turn hR hturn
      match flow', hagree with
      | .done s₂' _, ⟨hR', rfl⟩ =>
        rw [hturn] at hloop
        rw [hturn']
        cases hloop
        exact ⟨s₂', rfl, hR'⟩

/-- Whether and how a call returns does not depend on what the relation leaves out. -/
theorem Follows.perform {op : Operation σ ρ} {op' : Operation τ ρ} {R : σ → τ → Prop}
    (h : Follows op op' R) {object : Bool} {timeout : Int} {turns rest : List (Turn ρ)} {s s₁ : σ}
    {s' : τ} {error : Int} (hR : R s s')
    (hperform : op.perform object timeout turns s = some (s₁, error, rest)) :
    ∃ s₁', op'.perform object timeout turns s' = some (s₁', error, rest) ∧ R s₁ s₁' := by
  unfold Operation.perform at hperform ⊢
  by_cases hobject : object = true
  · rw [if_pos hobject] at hperform ⊢
    exact h.loop hR hperform
  · rw [if_neg hobject] at hperform ⊢
    cases hperform
    exact ⟨s', rfl, hR⟩

end Operation

end Ustevent.Net
