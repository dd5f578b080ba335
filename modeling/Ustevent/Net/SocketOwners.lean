import Mathlib.Data.Int.Basic
import Ustevent.Net.TcpConnection

/-!
# The owners of descriptors

A `TcpSocket` owns the descriptor whose number it stores.  Any number of sockets are opened, made of
descriptors and of each other, assigned to each other, released, closed and destroyed, in any order.
A number that has been closed may be given out again by the system.
-/

namespace Ustevent.Net

open Reasoning

namespace Error

def invalidNetworkProtocal : Int := -6
def invalidTransportProtocal : Int := -7

end Error

namespace TcpSocket

/-! ## The operations on a socket -/

/-- The default constructor. -/
def create : TcpSocket := ⟨invalidFd⟩

def construct (socket : Int) : TcpSocket := ⟨socket⟩

/-- The move constructor: the new socket, and what it leaves of the other one. -/
def moveConstruct (another : TcpSocket) : TcpSocket × TcpSocket :=
  (⟨another.socketFd⟩, ⟨invalidFd⟩)

/-- `operator=` where `this != &another`.  The old number of the socket is overwritten. -/
def moveAssign (_socket another : TcpSocket) : TcpSocket × TcpSocket :=
  (⟨another.socketFd⟩, ⟨invalidFd⟩)

def release (socket : TcpSocket) : Int × TcpSocket := (socket.socketFd, ⟨invalidFd⟩)

/-- The protocols for which `open` calls `::socket`, `TCP_IPV4` and `TCP_IPV6`. -/
def supported (protocal : Nat) : Bool := protocal == 0x101 || protocal == 0x102

/-- `fd` and `errno` are the answer of `::socket`. -/
def open_ (socket : TcpSocket) (protocal : Nat) (fd : Int) (errno : Nat) : TcpSocket × Int :=
  if supported protocal then (⟨fd⟩, if fd = invalidFd then errno else 0)
  else if protocal &&& 0x1 = 0 ∧ protocal &&& 0x2 = 0 then (socket, Error.invalidNetworkProtocal)
  else (socket, Error.invalidTransportProtocal)

/-! ## Any number of sockets -/

/-- The live sockets.  `owned` is history: the descriptors that have been obtained and have not been
closed or released. -/
structure Owning where
  sockets : Nat → Option TcpSocket
  owned : Int → Bool

inductive Action
  | create (i : Nat)
  | construct (i : Nat) (fd : Int)
  | open_ (i : Nat) (protocal : Nat) (fd : Int) (errno : Nat)
  | moveConstruct (i another : Nat)
  | moveAssign (i another : Nat)
  | release (i : Nat)
  | close (i : Nat)
  | destroy (i : Nat)
deriving DecidableEq

namespace Owning

def initial : Owning := ⟨fun _ ↦ none, fun _ ↦ false⟩

abbrev set (s : Owning) (i : Nat) (socket : Option TcpSocket) : Owning :=
  { s with sockets := fun j ↦ if j = i then socket else s.sockets j }

/-- A descriptor is obtained, if `fd` is one. -/
abbrev obtain (s : Owning) (fd : Int) : Owning :=
  { s with owned := fun n ↦ if n = fd then decide (fd ≠ invalidFd) else s.owned n }

abbrev giveUp (s : Owning) (fd : Int) : Owning :=
  { s with owned := fun n ↦ if n = fd then false else s.owned n }

/-- The descriptors that the calls close are owned no more. -/
def closed (s : Owning) (calls : List SystemCall) : Owning :=
  { s with owned := fun n ↦ s.owned n && !calls.contains (.close n) }

/-- The system gives out no number that is in use, and a socket is not made of the descriptor of
another one.  Every `::close` succeeds. -/
def step (s : Owning) : Action → Option Owning
  | .create i => if s.sockets i = none then some (s.set i (some TcpSocket.create)) else none
  | .construct i fd =>
    if s.sockets i = none ∧ s.owned fd = false then
      some ((s.set i (some (TcpSocket.construct fd))).obtain fd)
    else none
  | .open_ i protocal fd errno =>
    match s.sockets i with
    | none => none
    | some socket =>
      if supported protocal = true ∧ s.owned fd = true then none
      else
        let s' := s.set i (some (socket.open_ protocal fd errno).1)
        some (if supported protocal then s'.obtain fd else s')
  | .moveConstruct i another =>
    match s.sockets i, s.sockets another with
    | none, some socket =>
      let (socket, another') := socket.moveConstruct
      some ((s.set another (some another')).set i (some socket))
    | _, _ => none
  | .moveAssign i another =>
    match s.sockets i, s.sockets another with
    | some socket, some socket' =>
      if i = another then some s
      else
        let (socket, another') := socket.moveAssign socket'
        some ((s.set another (some another')).set i (some socket))
    | _, _ => none
  | .release i =>
    match s.sockets i with
    | none => none
    | some socket =>
      let (fd, socket) := socket.release
      some ((s.set i (some socket)).giveUp fd)
  | .close i =>
    match s.sockets i with
    | none => none
    | some socket =>
      let (socket, calls) := socket.close 0
      some ((s.set i (some socket)).closed calls)
  | .destroy i =>
    match s.sockets i with
    | none => none
    | some socket =>
      let (_, calls) := socket.destroy 0
      some ((s.set i none).closed calls)

abbrev Stores (s : Owning) (i : Nat) (fd : Int) : Prop := s.sockets i = some ⟨fd⟩

/-- No descriptor is leaked, and none has two owners. -/
def Sound (s : Owning) : Prop :=
  ∀ fd, s.owned fd = true → ∃ i, s.Stores i fd ∧ ∀ j, s.Stores j fd → j = i

/-- The socket owns the descriptor whose number it stores. -/
def Owns (s : Owning) (i : Nat) : Prop := ∃ fd, s.Stores i fd ∧ s.owned fd = true

/-- `open` and `operator=` find a socket that owns nothing, and a number that the system gives out
is in no other socket any more. -/
def Clean (s : Owning) : Action → Prop
  | .construct _ fd => fd ≠ invalidFd → ∀ j, ¬ s.Stores j fd
  | .open_ i protocal fd _ => supported protocal = true →
      ¬ s.Owns i ∧ (fd ≠ invalidFd → ∀ j, j ≠ i → ¬ s.Stores j fd)
  | .moveAssign i another => i ≠ another → ¬ s.Owns i
  | _ => True

/-! ## The operations one by one -/

variable {s s' : Owning} {i j : Nat} {fd : Int} {socket : TcpSocket}

/-- `-1` is no descriptor. -/
def Inv (s : Owning) : Prop := s.owned invalidFd = false

/-- Each owned descriptor of the later state is owned before, and has moved to `owner` at most. -/
theorem Sound.mono (h : Sound s) (owner : Nat → Nat)
    (hstores : ∀ fd, s'.owned fd = true → s.owned fd = true ∧
      (∀ i, s.Stores i fd → s'.Stores (owner i) fd) ∧
        ∀ j, s'.Stores j fd → ∃ i, s.Stores i fd ∧ j = owner i) : Sound s' := by
  intro fd hfd
  obtain ⟨hold, hto, hfrom⟩ := hstores fd hfd
  obtain ⟨i, hi, hunique⟩ := h fd hold
  refine ⟨owner i, hto i hi, fun j hj ↦ ?_⟩
  obtain ⟨k, hk, rfl⟩ := hfrom j hj
  rw [hunique k hk]

theorem Sound.create (h : Sound s) (hinv : Inv s) (hi : s.sockets i = none) :
    Sound (s.set i (some TcpSocket.create)) := by
  apply h.mono id
  unfold TcpSocket.create
  grind [Inv]

/-- The descriptor of the other socket changes its owner. -/
theorem Sound.moveConstruct (h : Sound s) (hinv : Inv s) (hi : s.sockets i = none)
    (hj : s.Stores j fd) : Sound ((s.set j (some ⟨invalidFd⟩)).set i (some ⟨fd⟩)) := by
  apply h.mono fun k ↦ if k = j then i else k
  grind [Inv]

theorem Sound.release (h : Sound s) (hinv : Inv s) (hi : s.Stores i fd) :
    Sound ((s.set i (some ⟨invalidFd⟩)).giveUp fd) := by
  apply h.mono id
  grind [Inv]

/-- The calls of a successful `close`, after which the socket stores the number still. -/
theorem close_zero (socket : TcpSocket) : socket.close 0 =
    (socket, if socket.socketFd ≠ invalidFd then [.close socket.socketFd] else []) := by
  unfold TcpSocket.close
  split <;> rfl

theorem destroy_zero (socket : TcpSocket) : (socket.destroy 0).2 =
    if socket.socketFd ≠ invalidFd then [.close socket.socketFd] else [] := by
  unfold TcpSocket.destroy
  split
  · rename_i hfd
    rw [close_zero]
    exact if_pos hfd
  · rfl

theorem closed_owned (s : Owning) (fd n : Int) :
    (s.closed (if fd ≠ invalidFd then [.close fd] else [])).owned n = true ↔
      s.owned n = true ∧ (fd ≠ invalidFd → n ≠ fd) := by
  unfold Owning.closed
  by_cases hfd : fd = invalidFd
  · simp [hfd]
  · simp [hfd]

theorem Inv.closed (hinv : Inv s) (calls : List SystemCall) {kept : Option TcpSocket} :
    Inv ((s.set i kept).closed calls) := by
  unfold Inv Owning.closed at *
  rw [Bool.and_eq_false_iff]
  exact Or.inl hinv

/-- A socket whose descriptor has been closed may go or keep the number. -/
theorem Sound.close (h : Sound s) (hinv : Inv s) (hi : s.Stores i fd) {kept : Option TcpSocket}
    (hkept : kept = some ⟨fd⟩ ∨ kept = none) :
    Sound ((s.set i kept).closed (if fd ≠ invalidFd then [.close fd] else [])) := by
  have hsockets : ((s.set i kept).closed (if fd ≠ invalidFd then [.close fd] else [])).sockets =
      (s.set i kept).sockets := rfl
  apply h.mono id
  intro n hn
  rw [closed_owned] at hn
  obtain ⟨hn, hne⟩ := hn
  have hn : s.owned n = true := hn
  have hne : n ≠ fd := by grind [Inv]
  unfold Stores
  rw [hsockets]
  grind

/-- A socket that owns nothing gets a new number; no other socket may still store it. -/
theorem sound_obtain_iff (h : Sound s) (hi : ¬ s.Owns i) :
    Sound ((s.set i (some ⟨fd⟩)).obtain fd) ↔ (fd ≠ invalidFd → ∀ j, j ≠ i → ¬ s.Stores j fd) := by
  constructor
  · intro hafter hne j hj hstores
    obtain ⟨k, -, hunique⟩ := hafter fd (by grind)
    have := hunique i
    have := hunique j
    grind
  · intro hstale n hn
    by_cases heq : n = fd
    · exact ⟨i, by grind⟩
    · obtain ⟨k, hk, hunique⟩ := h n (by grind)
      exact ⟨k, by grind [Owns]⟩

/-- The number of the other socket replaces that of a socket that owns nothing. -/
theorem Sound.moveAssign (h : Sound s) (hinv : Inv s) (hne : i ≠ j) (hi : ¬ s.Owns i)
    (hj : s.Stores j fd) : Sound ((s.set j (some ⟨invalidFd⟩)).set i (some ⟨fd⟩)) := by
  apply h.mono fun k ↦ if k = j then i else k
  grind [Inv, Owns]

/-- What a socket owns is leaked when its number is overwritten. -/
theorem Sound.not_overwritten (h : Sound s) (hi : s.Stores i fd) (howned : s.owned fd = true)
    (howned' : s'.owned fd = true) (hstores : ∀ j, s'.Stores j fd → j ≠ i ∧ s.Stores j fd) :
    ¬ Sound s' := by
  intro hafter
  obtain ⟨j, hj, -⟩ := hafter fd howned'
  obtain ⟨k, -, hunique⟩ := h fd howned
  obtain ⟨hne, hj'⟩ := hstores j hj
  exact hne ((hunique j hj').trans (hunique i hi).symm)

/-! ## Runs -/

theorem sound_open_iff (h : Sound s) (hfd : s.owned fd = false) : Sound ((s.set i (some ⟨fd⟩)).obtain fd) ↔
      ¬ s.Owns i ∧ (fd ≠ invalidFd → ∀ j, j ≠ i → ¬ s.Stores j fd) := by
  by_cases howns : s.Owns i
  · obtain ⟨old, hold, howned⟩ := howns
    refine iff_of_false ?_ fun hclean ↦ hclean.1 ⟨old, hold, howned⟩
    apply h.not_overwritten hold howned
    · grind
    · grind
  · rw [sound_obtain_iff h howns]
    exact (and_iff_right howns).symm

theorem sound_moveAssign_iff (h : Sound s) (hinv : Inv s) (hne : i ≠ j) (hj : s.Stores j fd) :
    Sound ((s.set j (some ⟨invalidFd⟩)).set i (some ⟨fd⟩)) ↔ ¬ s.Owns i := by
  constructor
  · rintro hafter ⟨old, hold, howned⟩
    have hunique : old ≠ fd := by
      rintro rfl
      obtain ⟨k, -, hunique⟩ := h old howned
      exact hne ((hunique i hold).trans (hunique j hj).symm)
    refine h.not_overwritten hold howned ?_ ?_ hafter
    · exact howned
    · grind [Inv]
  · exact fun hi ↦ h.moveAssign hinv hne hi hj

theorem set_same (hi : s.sockets i = some socket) : s.set i (some socket) = s := by
  unfold Owning.set
  congr
  funext j
  split
  · rename_i heq
    rw [heq, hi]
  · rfl

/-- A step keeps the ownership right if and only if it is clean. -/
theorem Inv.step {a : Action} (hinv : Inv s) (h : Sound s) (hstep : s.step a = some s') :
    (Sound s' ↔ s.Clean a) ∧ (Sound s' → Inv s') := by
  have hgood : s.Clean a → Sound s' → Inv s' → (Sound s' ↔ s.Clean a) ∧ (Sound s' → Inv s') :=
    fun hclean hsound hinv' ↦ ⟨iff_of_true hsound hclean, fun _ ↦ hinv'⟩
  cases a with
  | create i =>
    rw [Owning.step, Option.ite_none_right_eq_some] at hstep
    cases hstep.2
    exact hgood trivial (h.create hinv hstep.1) hinv
  | construct i fd =>
    rw [Owning.step, Option.ite_none_right_eq_some] at hstep
    obtain ⟨⟨hi, hfd⟩, hstep⟩ := hstep
    cases hstep
    have hiff : Sound _ ↔ (fd ≠ invalidFd → ∀ j, j ≠ i → ¬ s.Stores j fd) :=
      sound_obtain_iff h (show ¬ s.Owns i by grind [Owns])
    -- the new socket is not among those that might store the number
    have hclean : s.Clean (.construct i fd) ↔ (fd ≠ invalidFd → ∀ j, j ≠ i → ¬ s.Stores j fd) :=
      ⟨fun h hne j _ ↦ h hne j, fun h hne j ↦ by grind⟩
    exact ⟨hiff.trans hclean.symm, fun _ ↦ by grind [Inv]⟩
  | open_ i protocal fd errno =>
    rw [Owning.step] at hstep
    split at hstep
    · contradiction
    · rename_i socket hi
      split at hstep
      · contradiction
      · rename_i hfd
        cases hstep
        unfold open_
        cases hsupported : supported protocal with
        | true =>
          rw [hsupported] at hfd
          simp only [if_true, true_and, Bool.not_eq_true] at hfd ⊢
          have hclean : s.Clean (.open_ i protocal fd errno) ↔
              ¬ s.Owns i ∧ (fd ≠ invalidFd → ∀ j, j ≠ i → ¬ s.Stores j fd) :=
            forall_prop_of_true hsupported
          exact ⟨(sound_open_iff h hfd).trans hclean.symm, fun _ ↦ by grind [Inv]⟩
        | false =>
          have hclean : s.Clean (.open_ i protocal fd errno) := by
            intro htrue
            exact absurd (htrue.symm.trans hsupported) (by decide)
          simp only [Bool.false_eq_true, if_false]
          split
          · rw [set_same hi]
            exact ⟨iff_of_true h hclean, fun _ ↦ hinv⟩
          · rw [set_same hi]
            exact ⟨iff_of_true h hclean, fun _ ↦ hinv⟩
  | moveConstruct i j =>
    rw [Owning.step] at hstep
    split at hstep
    · rename_i socket hi hj
      cases hstep
      exact hgood trivial (h.moveConstruct hinv hi hj) hinv
    · contradiction
  | moveAssign i j =>
    rw [Owning.step] at hstep
    split at hstep
    · rename_i socket socket' hi hj
      split at hstep
      · rename_i heq
        cases hstep
        exact ⟨iff_of_true h fun hne ↦ absurd heq hne, fun _ ↦ hinv⟩
      · rename_i hne
        cases hstep
        have hclean : s.Clean (.moveAssign i j) ↔ ¬ s.Owns i := forall_prop_of_true hne
        exact ⟨(sound_moveAssign_iff h hinv hne hj).trans hclean.symm, fun _ ↦ hinv⟩
    · contradiction
  | release i =>
    rw [Owning.step] at hstep
    split at hstep
    · contradiction
    · rename_i socket hi
      cases hstep
      exact hgood trivial (h.release hinv hi) (by grind [Inv])
  | close i =>
    rw [Owning.step] at hstep
    split at hstep
    · contradiction
    · rename_i socket hi
      simp only [close_zero, Option.some.injEq] at hstep
      subst hstep
      exact hgood trivial (h.close hinv hi (Or.inl rfl)) (hinv.closed _)
  | destroy i =>
    rw [Owning.step] at hstep
    split at hstep
    · contradiction
    · rename_i socket hi
      simp only [destroy_zero, Option.some.injEq] at hstep
      subst hstep
      exact hgood trivial (h.close hinv hi (Or.inr rfl)) (hinv.closed _)

/-- Every descriptor has exactly one owner in all states of a run, if and only if all steps of the
run are clean. -/
theorem always_sound_iff_clean {as : List Action} (hrun : run step initial as = some s) :
    Always step Sound initial as ↔ Meets step Clean initial as :=
  always_iff_meets_of_run Inv Sound (fun _ _ _ hinv hsound hstep ↦ hinv.step hsound hstep)
    (rfl : initial.owned invalidFd = false) (fun _ h ↦ nomatch h) hrun

/-- A socket that is opened, moved, closed and destroyed. -/
def openAndMove : List Action :=
  [.create 0, .open_ 0 0x101 3 0, .moveConstruct 1 0, .close 1, .destroy 1, .destroy 0]

theorem always_sound_iff_clean_openAndMove :
    ∃ s, run step initial openAndMove = some s ∧
      (Always step Sound initial openAndMove ↔ Meets step Clean initial openAndMove) :=
  ⟨_, rfl, always_sound_iff_clean (rfl : run step initial openAndMove = some _)⟩

/-- The number of a closed descriptor is given out again, to another socket. -/
def closeAndReopen : List Action :=
  [.create 0, .open_ 0 0x101 3 0, .close 0, .create 1, .open_ 1 0x101 3 0]

/-- Descriptor 3 is stored in both sockets. -/
theorem not_sound_closeAndReopen :
    ∃ s, run step initial closeAndReopen = some s ∧ s.owned 3 = true ∧ s.Stores 0 3 ∧
      s.Stores 1 3 ∧ ¬ Sound s := by
  refine ⟨_, rfl, by decide, rfl, rfl, fun hsound ↦ ?_⟩
  obtain ⟨i, -, hunique⟩ := hsound 3 (by decide)
  exact absurd ((hunique 0 rfl).trans (hunique 1 rfl).symm) (by decide)

/-- The socket that is assigned to has a descriptor already, which is leaked. -/
def assignOver : List Action :=
  [.create 0, .open_ 0 0x101 3 0, .create 1, .open_ 1 0x101 4 0, .moveAssign 0 1]

example : ((run step initial assignOver).map fun s ↦
    (s.owned 3, s.sockets 0, s.sockets 1)) = some (true, some ⟨4⟩, some ⟨-1⟩) := by decide

end Owning

end TcpSocket

end Ustevent.Net
