import Mathlib.Data.List.TakeWhile
import Ustevent.Reasoning.LoggedBytes

/-!
# IP addresses

An address object holds the 4 or 16 bytes of its address.  The conversions and comparisons are
copies and comparisons of blocks of bytes, of which the model keeps a log.  An object stands for the
place of its bytes; one that a function creates is given the place of its bytes as an argument.
-/

namespace Ustevent.Net

open Reasoning

/-- `AF_INET` and `AF_INET6` -/
inductive Family
  | inet
  | inet6
deriving DecidableEq

/-- `SIZE_OF_IPV4ADDRESS` and `SIZE_OF_IPV6ADDRESS` -/
def Family.size : Family → Nat
  | .inet => 4
  | .inet6 => 16

/-! ## Text -/

/-- A string up to its terminating zero. -/
structure Text where
  characters : List UInt8
  nonzero : 0 ∉ characters
deriving DecidableEq

/-- `inet_pton` and `inet_ntop` of the C library. -/
structure Inet where
  pton : (family : Family) → Text → Option (Vector UInt8 family.size)
  ntop : (family : Family) → Vector UInt8 family.size → Text

/-- A `string_view`, and what the memory holds from its end on. -/
structure Host where
  characters : List UInt8
  following : List UInt8
deriving DecidableEq

theorem zero_not_mem_takeWhile (bytes : List UInt8) : 0 ∉ bytes.takeWhile (· ≠ 0) := fun hmem ↦
  absurd (List.mem_takeWhile_imp hmem) (by decide)

/-- The string that a function of the C library finds at `host.data()`; `none` if it reads on to the
end of the memory. -/
def Host.text (host : Host) : Option Text :=
  if 0 ∈ host.characters ++ host.following then
    some ⟨(host.characters ++ host.following).takeWhile (· ≠ 0), zero_not_mem_takeWhile _⟩
  else none

/-- `inet_pton(family, host.data(), dst) == 1`, and the memory after it. -/
def inetPton (inet : Inet) (family : Family) (host : Host) (m : Bytes) (dst : Nat) :
    Option (Bool × Bytes) :=
  host.text.map fun text ↦
    match inet.pton family text with
    | some address => (true, m.write dst address)
    | none => (false, m)

/-- `parse` of a new object; whether it is returned. -/
def parseObject (inet : Inet) (family : Family) (host : Host) (m : Bytes) (address : Nat) :
    Option (Bool × Bytes) :=
  inetPton inet family host m address

def parseBuffer (inet : Inet) (family : Family) (host : Host) (m : Bytes)
    (address addressSize : Nat) : Option (Bool × Bytes) :=
  if addressSize < family.size then some (false, m) else inetPton inet family host m address

/-- `sin_addr` in a `sockaddr_in` and `sin6_addr` in a `sockaddr_in6` -/
def Family.addressOffset : Family → Nat
  | .inet => 4
  | .inet6 => 8

/-- The text that `string` has written to its local array `str`; the view of it that is returned
dangles.  The bytes of the address are taken for a socket address. -/
def string (inet : Inet) (family : Family) (m : Bytes) (data : Nat) : Text :=
  inet.ntop family (m.read (data + family.addressOffset) family.size)

/-- `s_v4mapped_prefix` as bytes -/
def v4mappedPrefix : Vector UInt8 12 := #v[0, 0, 0, 0, 0, 0, 0, 0, 0, 0, 0xff, 0xff]

namespace IpV4Address

def parse (inet : Inet) : Host → Bytes → Nat → Option (Bool × Bytes) := parseObject inet .inet

def parseBuffer (inet : Inet) : Host → Bytes → Nat → Nat → Option (Bool × Bytes) :=
  Net.parseBuffer inet .inet

def string (inet : Inet) : Bytes → Nat → Text := Net.string inet .inet

/-- Of the object at `data` a new object at `v6`. -/
def toV6 (m : Bytes) (data v6 : Nat) : Logged :=
  ((Logged.start m).store v6 v4mappedPrefix).copy (v6 + 12) data 4

def toV6Buffer (m : Bytes) (data address addressSize : Nat) : Bool × Logged :=
  if addressSize < 16 then (false, Logged.start m)
  else (true, ((Logged.start m).store address v4mappedPrefix).copy (address + 12) data 4)

/-- `operator==` of two IPv4 addresses -/
def eq (m : Bytes) (lhs rhs : Nat) : Bool := m.read lhs 4 = m.read rhs 4

/-- `operator==` of an IPv4 and an IPv6 address -/
def eqV6 (m : Bytes) (lhs rhs : Nat) : Bool :=
  m.read rhs 12 = v4mappedPrefix && m.read (rhs + 12) 4 = m.read lhs 4

end IpV4Address

namespace IpV6Address

def parse (inet : Inet) : Host → Bytes → Nat → Option (Bool × Bytes) := parseObject inet .inet6

def parseBuffer (inet : Inet) : Host → Bytes → Nat → Nat → Option (Bool × Bytes) :=
  Net.parseBuffer inet .inet6

def string (inet : Inet) : Bytes → Nat → Text := Net.string inet .inet6

/-- Whether a new object is returned, which is then at `v4`. -/
def toV4 (m : Bytes) (data v4 : Nat) : Bool × Logged :=
  let (isMapped, s) := (Logged.start m).compare data v4mappedPrefix
  if isMapped then
    -- `size()` is that of the IPv6 address
    (true, s.copy v4 (data + 12) 16)
  else (false, s)

def toV4Buffer (m : Bytes) (data address addressSize : Nat) : Bool × Logged :=
  if addressSize < 4 then (false, Logged.start m)
  else
    let (isMapped, s) := (Logged.start m).compare data v4mappedPrefix
    if isMapped then (true, s.copy address (data + 12) 16) else (false, s)

/-- `operator==` of two IPv6 addresses -/
def eq (m : Bytes) (lhs rhs : Nat) : Bool := m.read lhs 16 = m.read rhs 16

/-- `operator==` of an IPv6 and an IPv4 address -/
def eqV4 (m : Bytes) (lhs rhs : Nat) : Bool :=
  m.read lhs 12 = v4mappedPrefix && m.read (lhs + 12) 4 = m.read rhs 4

end IpV6Address

namespace IpAddress

/-- The family of the object that is returned; the one for an IPv4 address is at `address .inet`. -/
def parse (inet : Inet) (host : Host) (m : Bytes) (address : Family → Nat) :
    Option (Option Family × Bytes) := do
  let (isV4, m) ← IpV4Address.parse inet host m (address .inet)
  if isV4 then return (some .inet, m)
  let (isV6, m) ← IpV6Address.parse inet host m (address .inet6)
  return (if isV6 then some .inet6 else none, m)

def parseBuffer (inet : Inet) (host : Host) (m : Bytes) (address addressSize : Nat) :
    Option (Bool × Bytes) := do
  let (isV4, m) ← IpV4Address.parseBuffer inet host m address addressSize
  if isV4 then return (true, m)
  IpV6Address.parseBuffer inet host m address addressSize

end IpAddress

/-! ## Conversions -/

/-- An IPv4 and an IPv6 address, the objects that their conversions create and two buffers.  The
new objects and the buffers do not overlap with the two addresses. -/
structure Conversion where
  v4 : Nat
  v6 : Nat
  newV4 : Nat
  newV6 : Nat
  buffer4 : Nat
  size4 : Nat
  buffer6 : Nat
  size6 : Nat
  newV4_v4 : Apart newV4 4 v4 4
  newV4_v6 : Apart newV4 4 v6 16
  newV6_v4 : Apart newV6 16 v4 4
  newV6_v6 : Apart newV6 16 v6 16
  buffer4_v4 : Apart buffer4 size4 v4 4
  buffer4_v6 : Apart buffer4 size4 v6 16
  buffer6_v4 : Apart buffer6 size6 v4 4
  buffer6_v6 : Apart buffer6 size6 v6 16
deriving DecidableEq

open IpV4Address IpV6Address

/-- What the comparisons and the conversions are for: they agree with each other, and a conversion
reads the bytes of its address only and writes as many bytes as the other address has. -/
structure Conversion.Right (c : Conversion) (m : Bytes) : Prop where
  symmetric : IpV6Address.eqV4 m c.v6 c.v4 = IpV4Address.eqV6 m c.v4 c.v6
  toV6_eq : IpV6Address.eq (toV6 m c.v4 c.newV6).memory c.v6 c.newV6 = IpV4Address.eqV6 m c.v4 c.v6
  toV4_eq : ((toV4 m c.v6 c.newV4).1 &&
    IpV4Address.eq (toV4 m c.v6 c.newV4).2.memory c.newV4 c.v4) = IpV4Address.eqV6 m c.v4 c.v6
  toV6_bytes : 16 ≤ c.size6 → (toV6Buffer m c.v4 c.buffer6 c.size6).1 = true ∧
    (toV6Buffer m c.v4 c.buffer6 c.size6).2.memory.read c.buffer6 16 =
      (toV6 m c.v4 c.newV6).memory.read c.newV6 16
  toV4_bytes : 4 ≤ c.size4 →
    (toV4Buffer m c.v6 c.buffer4 c.size4).1 = (toV4 m c.v6 c.newV4).1 ∧
    ((toV4 m c.v6 c.newV4).1 = true →
      (toV4Buffer m c.v6 c.buffer4 c.size4).2.memory.read c.buffer4 4 =
        (toV4 m c.v6 c.newV4).2.memory.read c.newV4 4)
  toV6_within : (toV6 m c.v4 c.newV6).Within m c.v4 4 c.newV6 16
  toV6Buffer_within : (toV6Buffer m c.v4 c.buffer6 c.size6).2.Within m c.v4 4 c.buffer6 16
  toV4_within : (toV4 m c.v6 c.newV4).2.Within m c.v6 16 c.newV4 4
  toV4Buffer_within : (toV4Buffer m c.v6 c.buffer4 c.size4).2.Within m c.v6 16 c.buffer4 4

variable {m : Bytes} {data v4 v6 : Nat}

theorem toV6_within (m : Bytes) (data v6 : Nat) : (toV6 m data v6).Within m data 4 v6 16 :=
  ((Logged.within_start m data 4 v6 16).store (Nat.le_refl v6) (by omega)).copy (by omega)
    (by omega) (Nat.le_refl data) (Nat.le_refl _)

/-- The new object holds the prefix and the bytes of the IPv4 address. -/
theorem toV6_read (h : Apart v6 16 data 4) :
    (toV6 m data v6).memory.read v6 12 = v4mappedPrefix ∧
      (toV6 m data v6).memory.read (v6 + 12) 4 = m.read data 4 := by
  have hstart : Apart (v6 + 12) 4 v6 12 := Or.inr (Nat.le_refl _)
  have hdata : Apart v6 12 data 4 := by
    unfold Apart at h ⊢
    omega
  constructor
  · exact (Bytes.read_write_of_apart _ _ hstart).trans (Bytes.read_write_self _ _ _)
  · exact (Bytes.read_write_self _ _ _).trans (Bytes.read_write_of_apart _ _ hdata)

/-- Both overloads store the same, if there is room for it. -/
theorem toV6Buffer_eq {address addressSize : Nat} (h : 16 ≤ addressSize) :
    toV6Buffer m data address addressSize = (true, toV6 m data address) :=
  if_neg (Nat.not_lt.mpr h)

theorem eq_toV6 {b : Nat} (ha : Apart v6 16 data 4) (hb : Apart v6 16 b 16) :
    IpV6Address.eq (toV6 m data v6).memory b v6 = IpV4Address.eqV6 m data b := by
  obtain ⟨hstart, hbytes⟩ := toV6_read (m := m) ha
  have hread := (toV6_within m data v6).read hb
  rw [IpV6Address.eq, IpV4Address.eqV6, hread, ← Bool.decide_and, decide_eq_decide,
    Bytes.read_add_eq_iff (n := 12) (k := 4), hstart, hbytes]

theorem toV4_of_mapped (h : m.read data 12 = v4mappedPrefix) : toV4 m data v4 =
    (true, ((Logged.start m).compare data v4mappedPrefix).2.copy v4 (data + 12) 16) := by
  unfold toV4 Logged.compare
  exact if_pos (decide_eq_true h)

theorem toV4_of_not_mapped (h : m.read data 12 ≠ v4mappedPrefix) :
    toV4 m data v4 = (false, ((Logged.start m).compare data v4mappedPrefix).2) := by
  unfold toV4 Logged.compare
  exact if_neg fun heq ↦ h (of_decide_eq_true heq)

theorem toV4Buffer_eq {address addressSize : Nat} (h : 4 ≤ addressSize) :
    toV4Buffer m data address addressSize = toV4 m data address :=
  if_neg (Nat.not_lt.mpr h)

/-- Where 16 bytes of room are left for the new object, the comparison with it comes out right. -/
theorem eq_toV4 {a b : Nat} (h : Apart v4 16 a 4) :
    ((toV4 m b v4).1 && IpV4Address.eq (toV4 m b v4).2.memory v4 a) = IpV4Address.eqV6 m a b := by
  by_cases hmapped : m.read b 12 = v4mappedPrefix
  · have hread : (m.write v4 (m.read (b + 12) (4 + 12))).read v4 4 = m.read (b + 12) 4 :=
      (Bytes.read_add_eq_iff.mp (Bytes.read_write_self m v4 (m.read (b + 12) (4 + 12)))).1
    have hdata : (m.write v4 (m.read (b + 12) (4 + 12))).read a 4 = m.read a 4 :=
      Bytes.read_write_of_apart m _ h
    rw [toV4_of_mapped hmapped, IpV4Address.eqV6, IpV4Address.eq]
    simp only [Logged.copy, Logged.compare, Logged.start, hmapped, decide_true, Bool.true_and]
    rw [← hread, ← hdata]
  · rw [toV4_of_not_mapped hmapped, IpV4Address.eqV6]
    simp [hmapped]

/-- The comparisons and the conversions do what they are for, if and only if the IPv6 address is not
one that `toV4` converts. -/
theorem Conversion.right_iff (c : Conversion) (m : Bytes) :
    c.Right m ↔ m.read c.v6 12 ≠ v4mappedPrefix := by
  constructor
  · intro h hmapped
    have hreads := h.toV4_within.reads (c.v6 + 12, 16)
    rw [toV4_of_mapped hmapped] at hreads
    obtain ⟨-, hle⟩ := hreads (by simp [Logged.copy])
    simp only at hle
    omega
  · intro hmapped
    have hfalse : IpV4Address.eqV6 m c.v4 c.v6 = false := by simp [IpV4Address.eqV6, hmapped]
    have hbuffer6 : ¬ c.size6 < 16 → Apart c.buffer6 16 c.v4 4 := by
      intro hsize
      have := c.buffer6_v4
      unfold Apart at this ⊢
      omega
    have hcompare : ∀ dest k,
        ((Logged.start m).compare c.v6 v4mappedPrefix).2.Within m c.v6 16 dest k := fun dest k ↦
      (Logged.within_start m c.v6 16 dest k).compare (Nat.le_refl _) (by omega)
    refine ⟨rfl, eq_toV6 c.newV6_v4 c.newV6_v6, ?_, fun hsize ↦ ?_, fun hsize ↦ ?_,
      toV6_within m c.v4 c.newV6, ?_, ?_, ?_⟩
    · rw [toV4_of_not_mapped hmapped, hfalse, Bool.false_and]
    · rw [toV6Buffer_eq hsize]
      refine ⟨rfl, ?_⟩
      obtain ⟨hstart, hbytes⟩ := toV6_read (m := m) (hbuffer6 (by omega))
      obtain ⟨hstart', hbytes'⟩ := toV6_read (m := m) c.newV6_v4
      rw [Bytes.read_add_eq_iff (n := 12) (k := 4)]
      exact ⟨hstart.trans hstart'.symm, hbytes.trans hbytes'.symm⟩
    · rw [toV4Buffer_eq hsize, toV4_of_not_mapped hmapped, toV4_of_not_mapped hmapped]
      exact ⟨rfl, fun h ↦ nomatch h⟩
    · unfold toV6Buffer
      split
      · exact Logged.within_start m c.v4 4 c.buffer6 16
      · exact toV6_within m c.v4 c.buffer6
    · rw [toV4_of_not_mapped hmapped]
      exact hcompare _ _
    · unfold toV4Buffer
      split
      · exact Logged.within_start m c.v6 16 c.buffer4 4
      · change (toV4 m c.v6 c.buffer4).2.Within m c.v6 16 c.buffer4 4
        rw [toV4_of_not_mapped hmapped]
        exact hcompare _ _

/-- An address from ::ffff:0:0/96, with other bytes behind it. -/
def mapped : Bytes := fun i ↦
  if i = 110 ∨ i = 111 then 0xff else if 112 ≤ i ∧ i < 128 then UInt8.ofNat i else 0

def intoMapped : Conversion := ⟨0, 100, 200, 300, 400, 8, 500, 16, by decide, by decide, by decide,
  by decide, by decide, by decide, by decide, by decide⟩

/-- `toV4` writes 16 bytes into an object of 4 bytes, and into a buffer of 8 bytes. -/
theorem not_right_mapped : (toV4 mapped 100 200).2.writes = [(200, 16)] ∧
    (toV4Buffer mapped 100 400 8).2.writes = [(400, 16)] ∧
    (toV4Buffer mapped 100 400 8).2.memory 404 ≠ mapped 404 ∧ ¬ intoMapped.Right mapped := by
  refine ⟨by decide, by decide, by decide, fun h ↦ ?_⟩
  exact absurd (h.toV4_within.writes (200, 16) (by decide)) (by decide)

/-! ## Text and back -/

/-- A text in an array of its own, with its terminating zero. -/
def Host.ofText (text : Text) : Host := ⟨text.characters, [0]⟩

theorem takeWhile_append_of_nonzero {characters : List UInt8} (h : 0 ∉ characters)
    (following : List UInt8) : (characters ++ following).takeWhile (· ≠ 0) =
      characters ++ following.takeWhile (· ≠ 0) := by
  refine List.takeWhile_append_of_pos fun b hb ↦ decide_eq_true ?_
  rintro rfl
  exact h hb

theorem Host.text_eq {host : Host} (text : Text) (rest : List UInt8)
    (h : host.characters ++ host.following = text.characters ++ 0 :: rest) :
    host.text = some text := by
  have htake : (text.characters ++ 0 :: rest).takeWhile (· ≠ 0) = text.characters := by
    rw [takeWhile_append_of_nonzero text.nonzero]
    simp
  have hmem : (0 : UInt8) ∈ text.characters ++ 0 :: rest := by simp
  simp only [Host.text, h, hmem, if_true, htake]

@[simp] theorem Host.text_ofText (text : Text) : (Host.ofText text).text = some text :=
  Host.text_eq text [] rfl

/-- `parse` of the text of the address at `data` returns a new object with the same bytes. -/
def RoundTrips (inet : Inet) (family : Family) (m : Bytes) (data address : Nat) : Prop :=
  ∃ m', parseObject inet family (Host.ofText (string inet family m data)) m address =
      some (true, m') ∧
    m'.read address family.size = m'.read data family.size

/-- The text is determined by the bytes of the address. -/
def OwnText (inet : Inet) (family : Family) (data : Nat)
    (address : Vector UInt8 family.size) : Prop :=
  ∃ text, ∀ m : Bytes, m.read data family.size = address → string inet family m data = text

theorem roundTrips_iff {inet : Inet} {family : Family} {address : Nat}
    (hinverse : ∀ bytes, inet.pton family (inet.ntop family bytes) = some bytes)
    (hapart : Apart address family.size data family.size) :
    RoundTrips inet family m data address ↔
      m.read (data + family.addressOffset) family.size = m.read data family.size := by
  unfold RoundTrips parseObject inetPton
  rw [Host.text_ofText]
  simp only [Option.map_some, string, hinverse, Option.some.injEq, Prod.mk.injEq, true_and,
    exists_eq_left']
  rw [Bytes.read_write_self, Bytes.read_write_of_apart m _ hapart]

/-- The first byte behind an address is one of those that its text is made of. -/
theorem not_ownText {inet : Inet} {family : Family}
    (hinverse : ∀ bytes, inet.pton family (inet.ntop family bytes) = some bytes)
    (data : Nat) (address : Vector UInt8 family.size) : ¬ OwnText inet family data address := by
  rintro ⟨text, htext⟩
  have hbehind : ∀ x : UInt8, ∃ m : Bytes, string inet family m data = text ∧
      m (data + family.size) = x := by
    intro x
    refine ⟨Bytes.write (fun _ ↦ x) data address, htext _ (Bytes.read_write_self _ _ _), ?_⟩
    exact Bytes.write_of_apart _ _ (Or.inl (Nat.le_refl _))
  obtain ⟨m, hm, hzero⟩ := hbehind 0
  obtain ⟨m', hm', hone⟩ := hbehind 1
  have hread : m.read (data + family.addressOffset) family.size =
      m'.read (data + family.addressOffset) family.size := by
    have hpton := congrArg (inet.pton family) (hm.trans hm'.symm)
    rw [string, string, hinverse, hinverse] at hpton
    exact Option.some.inj hpton
  rw [Bytes.read_eq_read_iff] at hread
  have hbyte : m (data + family.size) = m' (data + family.size) := by
    have hat := hread (family.size - family.addressOffset) (by cases family <;> decide)
    rwa [Nat.add_assoc, Nat.add_sub_cancel' (by cases family <;> decide)] at hat
  rw [hzero, hone] at hbyte
  exact absurd hbyte (by decide)

/-- An address is read back from its text, if and only if the bytes in which the text looks for the
address are the same ones; in no case do the bytes of the address determine the text. -/
theorem string_iff {inet : Inet}
    (hinverse : ∀ family bytes, inet.pton family (inet.ntop family bytes) = some bytes) :
    (∀ m data address, Apart address 4 data 4 →
      (RoundTrips inet .inet m data address ↔ m.read (data + 4) 4 = m.read data 4)) ∧
    (∀ m data address, Apart address 16 data 16 →
      (RoundTrips inet .inet6 m data address ↔ m.read (data + 8) 16 = m.read data 16)) ∧
    ∀ family data address, ¬ OwnText inet family data address :=
  ⟨fun _ _ _ ↦ roundTrips_iff (hinverse .inet), fun _ _ _ ↦ roundTrips_iff (hinverse .inet6),
    fun family ↦ not_ownText (hinverse family)⟩

/-! ## A C library -/

namespace Inet

/-- 127.0.0.1 and ::1 -/
def localhost : (family : Family) → Vector UInt8 family.size
  | .inet => #v[127, 0, 0, 1]
  | .inet6 => #v[0, 0, 0, 0, 0, 0, 0, 0, 0, 0, 0, 0, 0, 0, 0, 1]

def localhostText : Family → Text
  | .inet => ⟨[49, 50, 55, 46, 48, 46, 48, 46, 49], by decide⟩
  | .inet6 => ⟨[58, 58, 49], by decide⟩

/-- Two characters for each byte. -/
def encode (bytes : List UInt8) : List UInt8 := bytes.flatMap fun b ↦ [48 + b / 16, 48 + b % 16]

def decode : List UInt8 → List UInt8
  | c :: d :: rest => ((c - 48) * 16 + (d - 48)) :: decode rest
  | _ => []

theorem length_encode (bytes : List UInt8) : (encode bytes).length = 2 * bytes.length := by
  induction bytes with
  | nil => rfl
  | cons b bytes ih =>
    rw [encode, List.flatMap_cons, List.length_append, ← encode, ih, List.length_cons]
    simp only [List.length_cons, List.length_nil]
    omega

theorem decode_encode (bytes : List UInt8) : decode (encode bytes) = bytes := by
  induction bytes with
  | nil => rfl
  | cons b bytes ih =>
    have hbyte : ∀ i : Fin 256,
        (48 + UInt8.ofFin i / 16 - 48) * 16 + (48 + UInt8.ofFin i % 16 - 48) = UInt8.ofFin i := by
      decide +kernel
    have hb : (48 + b / 16 - 48) * 16 + (48 + b % 16 - 48) = b := hbyte b.toFin
    rw [encode, List.flatMap_cons, ← encode]
    simp only [List.cons_append, List.nil_append, decode, ih, hb]

theorem zero_not_mem_encode (bytes : List UInt8) : 0 ∉ encode bytes := by
  have hbyte : ∀ i : Fin 256, 0 ∉ [48 + UInt8.ofFin i / 16, 48 + UInt8.ofFin i % 16] := by
    decide +kernel
  intro hmem
  obtain ⟨b, -, hb⟩ := List.mem_flatMap.mp hmem
  exact hbyte b.toFin hb

/-- It knows the usual texts of the loopback addresses, and has its own for all others. -/
def plain : Inet where
  pton family text :=
    if text = localhostText family then some (localhost family)
    else if h : (decode text.characters).length = family.size then
      if encode (decode text.characters) = text.characters then
        some ⟨(decode text.characters).toArray, h⟩
      else none
    else none
  ntop family address :=
    if address = localhost family then localhostText family
    else ⟨encode address.toList, zero_not_mem_encode _⟩

theorem pton_ntop_plain (family : Family) (address : Vector UInt8 family.size) :
    plain.pton family (plain.ntop family address) = some address := by
  unfold plain
  by_cases haddress : address = localhost family
  · simp [haddress]
  · have hlength := length_encode address.toList
    rw [Vector.length_toList] at hlength
    have htext :
        (⟨encode address.toList, zero_not_mem_encode _⟩ : Text) ≠ localhostText family := by
      intro heq
      have hcharacters := congrArg (List.length ∘ Text.characters) heq
      simp only [Function.comp_apply, hlength] at hcharacters
      cases family <;> exact absurd hcharacters (by decide)
    simp only [if_neg haddress, if_neg htext, decode_encode, Vector.length_toList, dif_pos, if_true]
    rfl

/-- No text is longer than those of the IPv4-mapped addresses with all their digits. -/
theorem pton_plain_of_long (family : Family) (text : Text) (h : 45 < text.characters.length) :
    plain.pton family text = none := by
  have hlocalhost : text ≠ localhostText family := by
    rintro rfl
    cases family <;> exact absurd h (by decide)
  simp only [plain, if_neg hlocalhost]
  split
  case isFalse => rfl
  case isTrue hsize =>
    rw [if_neg]
    intro hencode
    have hlength := length_encode (decode text.characters)
    rw [hencode, hsize] at hlength
    cases family <;> simp only [Family.size] at hlength <;> omega

end Inet

/-- 127.0.0.1 twice, one behind the other. -/
theorem string_iff_localhost :
    ∃ m : Bytes, m.read 0 4 = #v[127, 0, 0, 1] ∧ RoundTrips Inet.plain .inet m 0 100 ∧
      ¬ OwnText Inet.plain .inet 0 #v[127, 0, 0, 1] := by
  have h := string_iff Inet.pton_ntop_plain
  refine ⟨fun i ↦ if i % 4 = 0 then 127 else if i % 4 = 3 then 1 else 0, by decide, ?_,
    h.2.2 .inet 0 _⟩
  exact (h.1 _ 0 100 (by decide)).mpr (by decide)

/-- 10.0.0.2, and 127.0.0.1 behind it. -/
def localhostBehind : Bytes := fun i ↦
  if i = 0 then 10 else if i = 3 then 2 else if i = 4 then 127 else if i = 7 then 1 else 0

/-- The text is that of 127.0.0.1, and with other bytes behind the address another one. -/
theorem not_roundTrips_localhostBehind : localhostBehind.read 0 4 = #v[10, 0, 0, 2] ∧
    (IpV4Address.string Inet.plain localhostBehind 0).characters =
      [49, 50, 55, 46, 48, 46, 48, 46, 49] ∧
    ¬ RoundTrips Inet.plain .inet localhostBehind 0 100 ∧
    ¬ OwnText Inet.plain .inet 0 #v[10, 0, 0, 2] := by
  refine ⟨by decide, by decide, ?_, not_ownText (Inet.pton_ntop_plain _) _ _⟩
  rw [roundTrips_iff (Inet.pton_ntop_plain _) (by decide)]
  decide

end Ustevent.Net
