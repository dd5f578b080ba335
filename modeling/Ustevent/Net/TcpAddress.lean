import Ustevent.Net.IpAddress

/-!
# TCP addresses and the overloads of `parse`

A TCP address object holds a `sockaddr_in` or a `sockaddr_in6`, of which `parse` stores the family,
the port and the IP address.  The functions call those of the IP addresses, and all of them hand the
data of the `string_view` that they get on to `inet_pton`, without its length.
-/

namespace Ustevent.Net

open Reasoning

/-- `SIZE_OF_TCPIPV4_ADDRESS` and `SIZE_OF_TCPIPV6_ADDRESS` -/
def Family.socketSize : Family → Nat
  | .inet => 16
  | .inet6 => 28

/-- The values of `AF_INET` and `AF_INET6` -/
def Family.number : Family → UInt8
  | .inet => 2
  | .inet6 => 10

/-- `sin_family` in the order of the host and `sin_port` in that of the network. -/
def storePort (family : Family) (port : UInt16) (m : Bytes) (address : Nat) : Bytes :=
  (m.write address #v[family.number, 0]).write (address + 2) #v[(port >>> 8).toUInt8, port.toUInt8]

/-- `parse` of a new object; whether it is returned. -/
def parseTcpObject (inet : Inet) (family : Family) (host : Host) (port : UInt16) (m : Bytes)
    (address : Nat) : Option (Bool × Bytes) := do
  let (ok, m) ← parseBuffer inet family host m (address + family.addressOffset) family.size
  if ok then return (true, storePort family port m address)
  return (false, m)

def parseTcpBuffer (inet : Inet) (family : Family) (host : Host) (port : UInt16) (m : Bytes)
    (address addressSize : Nat) : Option (Bool × Bytes) := do
  if addressSize < family.socketSize then return (false, m)
  let (ok, m) ← parseBuffer inet family host m (address + family.addressOffset) family.size
  if ok then return (true, storePort family port m address)
  return (false, m)

namespace TcpIpV4Address

def parse (inet : Inet) : Host → UInt16 → Bytes → Nat → Option (Bool × Bytes) :=
  parseTcpObject inet .inet

def parseBuffer (inet : Inet) : Host → UInt16 → Bytes → Nat → Nat → Option (Bool × Bytes) :=
  parseTcpBuffer inet .inet

end TcpIpV4Address

namespace TcpIpV6Address

def parse (inet : Inet) : Host → UInt16 → Bytes → Nat → Option (Bool × Bytes) :=
  parseTcpObject inet .inet6

def parseBuffer (inet : Inet) : Host → UInt16 → Bytes → Nat → Nat → Option (Bool × Bytes) :=
  parseTcpBuffer inet .inet6

end TcpIpV6Address

namespace TcpAddress

def parse (inet : Inet) (host : Host) (port : UInt16) (m : Bytes) (address : Family → Nat) :
    Option (Option Family × Bytes) := do
  let (isV4, m) ← TcpIpV4Address.parse inet host port m (address .inet)
  if isV4 then return (some .inet, m)
  let (isV6, m) ← TcpIpV6Address.parse inet host port m (address .inet6)
  return (if isV6 then some .inet6 else none, m)

def parseBuffer (inet : Inet) (host : Host) (port : UInt16) (m : Bytes)
    (address addressSize : Nat) : Option (Bool × Bytes) := do
  let (isV4, m) ← TcpIpV4Address.parseBuffer inet host port m address addressSize
  if isV4 then return (true, m)
  TcpIpV6Address.parseBuffer inet host port m address addressSize

end TcpAddress

/-! ## The overloads -/

/-- Whether an IP address or a TCP address with a port is asked for. -/
inductive Protocol
  | ip
  | tcp (port : UInt16)
deriving DecidableEq

/-- New objects, the one of each family at its place, or the buffer of the caller. -/
inductive Storage
  | object (address : Family → Nat)
  | buffer (address size : Nat)

/-- An overload of `parse`, of `IpAddress` and `TcpAddress` where no family is given. -/
structure Overload where
  protocol : Protocol
  family : Option Family
  storage : Storage

inductive Result
  /-- the class of the object that is returned, if one is -/
  | object (family : Option Family)
  | buffer (ok : Bool)
deriving DecidableEq

def newObject (family : Family) : Bool × Bytes → Result × Bytes
  | (ok, m) => (.object (if ok then some family else none), m)

def ofObject : Option Family × Bytes → Result × Bytes
  | (family, m) => (.object family, m)

def ofBuffer : Bool × Bytes → Result × Bytes
  | (ok, m) => (.buffer ok, m)

namespace Overload

/-- The call of the overload; `none` if it reads on to the end of the memory. -/
def run (inet : Inet) (host : Host) (m : Bytes) : Overload → Option (Result × Bytes)
  | ⟨.ip, some .inet, .object a⟩ => (IpV4Address.parse inet host m (a .inet)).map (newObject .inet)
  | ⟨.ip, some .inet, .buffer a n⟩ => (IpV4Address.parseBuffer inet host m a n).map ofBuffer
  | ⟨.ip, some .inet6, .object a⟩ =>
    (IpV6Address.parse inet host m (a .inet6)).map (newObject .inet6)
  | ⟨.ip, some .inet6, .buffer a n⟩ => (IpV6Address.parseBuffer inet host m a n).map ofBuffer
  | ⟨.ip, none, .object a⟩ => (IpAddress.parse inet host m a).map ofObject
  | ⟨.ip, none, .buffer a n⟩ => (IpAddress.parseBuffer inet host m a n).map ofBuffer
  | ⟨.tcp port, some .inet, .object a⟩ =>
    (TcpIpV4Address.parse inet host port m (a .inet)).map (newObject .inet)
  | ⟨.tcp port, some .inet, .buffer a n⟩ =>
    (TcpIpV4Address.parseBuffer inet host port m a n).map ofBuffer
  | ⟨.tcp port, some .inet6, .object a⟩ =>
    (TcpIpV6Address.parse inet host port m (a .inet6)).map (newObject .inet6)
  | ⟨.tcp port, some .inet6, .buffer a n⟩ =>
    (TcpIpV6Address.parseBuffer inet host port m a n).map ofBuffer
  | ⟨.tcp port, none, .object a⟩ => (TcpAddress.parse inet host port m a).map ofObject
  | ⟨.tcp port, none, .buffer a n⟩ => (TcpAddress.parseBuffer inet host port m a n).map ofBuffer

end Overload

/-! ## What a call comes to -/

/-- The bytes that one address of the family takes up. -/
def Protocol.size : Protocol → Family → Nat
  | .ip => Family.size
  | .tcp _ => Family.socketSize

def Protocol.store (family : Family) (bytes : Vector UInt8 family.size) (m : Bytes) (place : Nat) :
    Protocol → Bytes
  | .ip => m.write place bytes
  | .tcp port => storePort family port (m.write (place + family.addressOffset) bytes) place

namespace Storage

def place (family : Family) : Storage → Nat
  | .object address => address family
  | .buffer address _ => address

def room (size : Nat) : Storage → Bool
  | .object _ => true
  | .buffer _ addressSize => size ≤ addressSize

def result (family : Option Family) : Storage → Result
  | .object _ => .object family
  | .buffer _ _ => .buffer family.isSome

end Storage

namespace Overload

variable {inet : Inet} {host : Host} {m : Bytes} {protocol : Protocol} {storage : Storage}

/-- The call of the overload of one family. -/
def attempt (inet : Inet) (host : Host) (protocol : Protocol) (storage : Storage) (family : Family)
    (m : Bytes) : Option (Bool × Bytes) :=
  if storage.room (protocol.size family) then
    host.text.map fun text ↦
      match inet.pton family text with
      | some bytes => (true, protocol.store family bytes m (storage.place family))
      | none => (false, m)
  else some (false, m)

def attempts (inet : Inet) (host : Host) (protocol : Protocol) (storage : Storage) :
    List Family → Bytes → Option (Option Family × Bytes)
  | [], m => some (none, m)
  | family :: families, m => do
    let (ok, m) ← attempt inet host protocol storage family m
    if ok then some (some family, m) else attempts inet host protocol storage families m

theorem attempt_of_room {family : Family} (h : storage.room (protocol.size family) = true) :
    attempt inet host protocol storage family m = host.text.map fun text ↦
      match inet.pton family text with
      | some bytes => (true, protocol.store family bytes m (storage.place family))
      | none => (false, m) :=
  if_pos h

theorem attempt_of_no_room {family : Family} (h : storage.room (protocol.size family) = false) :
    attempt inet host protocol storage family m = some (false, m) :=
  if_neg (by simp [h])

theorem parseObject_eq_attempt (family : Family) (address : Family → Nat) :
    parseObject inet family host m (address family) =
      attempt inet host .ip (.object address) family m :=
  rfl

theorem parseBuffer_eq_attempt (family : Family) (address addressSize : Nat) :
    parseBuffer inet family host m address addressSize =
      attempt inet host .ip (.buffer address addressSize) family m := by
  simp only [attempt, Storage.room, Protocol.size, decide_eq_true_eq, ← Nat.not_lt, ite_not]
  rfl

theorem parseTcpObject_eq_attempt (family : Family) (port : UInt16) (address : Family → Nat) :
    parseTcpObject inet family host port m (address family) =
      attempt inet host (.tcp port) (.object address) family m := by
  have hself : parseBuffer inet family host m (address family + family.addressOffset) family.size =
      inetPton inet family host m (address family + family.addressOffset) :=
    if_neg (Nat.lt_irrefl family.size)
  rw [parseTcpObject, hself, inetPton, attempt_of_room rfl]
  cases host.text with
  | none => rfl
  | some text =>
    cases hpton : inet.pton family text <;> simp [hpton, Protocol.store, Storage.place]

theorem parseTcpBuffer_eq_attempt (family : Family) (port : UInt16) (address addressSize : Nat) :
    parseTcpBuffer inet family host port m address addressSize =
      attempt inet host (.tcp port) (.buffer address addressSize) family m := by
  have hobject : parseTcpObject inet family host port m address =
      attempt inet host (.tcp port) (.object fun _ ↦ address) family m :=
    parseTcpObject_eq_attempt family port fun _ ↦ address
  rw [attempt_of_room rfl] at hobject
  simp only [attempt, Storage.room, Protocol.size, decide_eq_true_eq, ← Nat.not_lt, ite_not]
  exact if_congr Iff.rfl rfl hobject

/-- The families that are tried one after the other. -/
def tried (o : Overload) : List Family :=
  match o.family with
  | some family => [family]
  | none => [.inet, .inet6]

theorem run_eq_attempts (inet : Inet) (host : Host) (m : Bytes) (o : Overload) :
    o.run inet host m = (attempts inet host o.protocol o.storage o.tried m).map
      fun (family, m) ↦ (o.storage.result family, m) := by
  obtain ⟨protocol, family, storage⟩ := o
  cases protocol <;> cases storage <;> rcases family with _ | _ | _
  all_goals
    simp only [run, IpV4Address.parse, IpV6Address.parse, IpAddress.parse,
      IpV4Address.parseBuffer, IpV6Address.parseBuffer, IpAddress.parseBuffer,
      TcpIpV4Address.parse, TcpIpV6Address.parse, TcpAddress.parse, TcpIpV4Address.parseBuffer,
      TcpIpV6Address.parseBuffer, TcpAddress.parseBuffer, parseObject_eq_attempt,
      parseBuffer_eq_attempt, parseTcpObject_eq_attempt, parseTcpBuffer_eq_attempt, attempts,
      tried, Option.map_eq_bind, Option.bind_eq_bind, Option.bind_assoc, Option.pure_def]
    refine Option.bind_congr fun (ok, m) _ ↦ ?_
    cases ok
    all_goals try rfl
  -- the two overloads that try the second family
  all_goals
    simp only [Option.bind_assoc, Bool.false_eq_true, if_false]
    refine Option.bind_congr fun (ok, m) _ ↦ ?_
    cases ok <;> rfl

/-- The families for which there is room. -/
def fitting (protocol : Protocol) (storage : Storage) (families : List Family) : List Family :=
  families.filter fun family ↦ storage.room (protocol.size family)

/-- The first family to which the text is an address, and the address. -/
def firstOf (inet : Inet) (text : Text) (families : List Family) :
    Option (Σ family : Family, Vector UInt8 family.size) :=
  families.findSome? fun family ↦ (inet.pton family text).map (⟨family, ·⟩)

def stored (protocol : Protocol) (storage : Storage) (m : Bytes) :
    Option (Σ family : Family, Vector UInt8 family.size) → Option Family × Bytes
  | some ⟨family, bytes⟩ => (some family, protocol.store family bytes m (storage.place family))
  | none => (none, m)

/-- The memory is looked into for a text, if there is room for an address. -/
theorem attempts_eq (families : List Family) : attempts inet host protocol storage families m =
    if fitting protocol storage families = [] then some (none, m)
    else host.text.map fun text ↦
      stored protocol storage m (firstOf inet text (fitting protocol storage families)) := by
  induction families with
  | nil => rfl
  | cons family families ih =>
    cases hroom : storage.room (protocol.size family)
    · have hfitting : fitting protocol storage (family :: families) =
          fitting protocol storage families := List.filter_cons_of_neg (by simp [hroom])
      rw [hfitting, attempts, attempt_of_no_room hroom]
      exact ih
    · have hfitting : fitting protocol storage (family :: families) =
          family :: fitting protocol storage families := List.filter_cons_of_pos hroom
      rw [hfitting, attempts, attempt_of_room hroom, if_neg (List.cons_ne_nil _ _)]
      cases htext : host.text with
      | none => rfl
      | some text =>
        cases hpton : inet.pton family text with
        | some bytes => simp [hpton, firstOf, stored]
        | none =>
          rw [htext] at ih
          by_cases hrest : fitting protocol storage families = []
          · simp [hpton, firstOf, ih, hrest, stored]
          · simp [hpton, firstOf, ih, hrest]

/-- The families that are tried, of those for which there is room. -/
def families (o : Overload) : List Family := fitting o.protocol o.storage o.tried

def outcome (inet : Inet) (text : Text) (m : Bytes) (o : Overload) : Result × Bytes :=
  let (family, m) := stored o.protocol o.storage m (firstOf inet text o.families)
  (o.storage.result family, m)

theorem run_eq (inet : Inet) (host : Host) (m : Bytes) (o : Overload) : o.run inet host m =
    if o.families = [] then some (o.storage.result none, m)
    else host.text.map fun text ↦ o.outcome inet text m := by
  rw [run_eq_attempts, attempts_eq, apply_ite (Option.map _), Option.map_map]
  rfl

end Overload

/-! ## What the result depends on -/

theorem Host.text_eq_none_iff {host : Host} :
    host.text = none ↔ 0 ∉ host.characters ++ host.following := by
  rw [Host.text]
  split <;> simp_all

/-- If the view ends before the string does, the string goes on behind it. -/
theorem Host.prefix_text {host : Host} {text : Text} (h : 0 ∉ host.characters)
    (htext : host.text = some text) : host.characters <+: text.characters := by
  rw [Host.text] at htext
  split at htext
  case isFalse => contradiction
  case isTrue =>
    obtain rfl := Option.some.inj htext
    exact ⟨_, (takeWhile_append_of_nonzero h host.following).symm⟩

namespace Overload

variable {inet : Inet} {characters : List UInt8} {o : Overload}

/-- Whatever follows the view, as far as `Following` says, the result and the address are the
same. -/
def DependsOnView (inet : Inet) (characters : List UInt8) (Following : List UInt8 → Prop)
    (o : Overload) : Prop :=
  ∀ following following', Following following → Following following' → ∀ m,
    o.run inet ⟨characters, following⟩ m = o.run inet ⟨characters, following'⟩ m

theorem run_of_terminated (h : 0 ∈ characters) (following following' : List UInt8) (m : Bytes) :
    o.run inet ⟨characters, following⟩ m = o.run inet ⟨characters, following'⟩ m := by
  obtain ⟨before, after, rfl, hbefore⟩ := List.eq_append_cons_of_mem h
  have htext : ∀ f, (Host.mk (before ++ 0 :: after) f).text = some ⟨before, hbefore⟩ := fun f ↦
    Host.text_eq ⟨before, hbefore⟩ (after ++ f) (by simp)
  rw [run_eq, run_eq, htext, htext]

theorem outcome_of_rejected {text : Text} {m : Bytes}
    (h : ∀ family ∈ o.families, inet.pton family text = none) :
    o.outcome inet text m = (o.storage.result none, m) := by
  have hfirst : firstOf inet text o.families = none := by
    rw [firstOf, List.findSome?_eq_none_iff]
    intro family hfamily
    rw [h family hfamily]
    rfl
  rw [outcome, hfirst]
  rfl

theorem rejected_of_outcome {text : Text} {m : Bytes}
    (h : (o.outcome inet text m).1 = o.storage.result none) :
    ∀ family ∈ o.families, inet.pton family text = none := by
  have hfirst : firstOf inet text o.families = none := by
    rw [outcome] at h
    cases hfirst : firstOf inet text o.families with
    | none => rfl
    | some found =>
      rw [hfirst] at h
      cases hstorage : o.storage <;> simp [hstorage, stored, Storage.result] at h
  rw [firstOf, List.findSome?_eq_none_iff] at hfirst
  intro family hfamily
  exact Option.map_eq_none_iff.mp (hfirst family hfamily)

theorem dependsOnView_iff : o.DependsOnView inet characters (fun _ ↦ True) ↔
    0 ∈ characters ∨ o.families = [] := by
  constructor
  · intro h
    by_contra hnot
    obtain ⟨hzero, hfamilies⟩ := not_or.mp hnot
    have hrun := h [] [0] trivial trivial fun _ ↦ 0
    have htext : (Host.mk characters [0]).text = some ⟨characters, hzero⟩ :=
      Host.text_eq ⟨characters, hzero⟩ [] rfl
    have hnone : (Host.mk characters []).text = none := by
      rw [Host.text_eq_none_iff]
      simpa using hzero
    rw [run_eq, run_eq, htext, hnone, if_neg hfamilies, if_neg hfamilies] at hrun
    exact nomatch hrun
  · rintro (hzero | hfamilies) following following' - - m
    · exact run_of_terminated hzero following following' m
    · rw [run_eq, run_eq, if_pos hfamilies, if_pos hfamilies]

theorem dependsOnView_terminated_iff
    (hlong : ∀ family (text : Text), 45 < text.characters.length → inet.pton family text = none) :
    o.DependsOnView inet characters (0 ∈ ·) ↔ 0 ∈ characters ∨
      ∀ family ∈ o.families, ∀ text : Text, characters <+: text.characters →
        inet.pton family text = none := by
  constructor
  · intro h
    by_cases hzero : 0 ∈ characters
    · exact Or.inl hzero
    · refine Or.inr fun family hfamily text hstart ↦ ?_
      obtain ⟨rest, hrest⟩ := hstart
      have hfamilies : o.families ≠ [] := List.ne_nil_of_mem hfamily
      have hnonzero : 0 ∉ characters ++ List.replicate 46 1 := by simp [hzero]
      have hshort : (Host.mk characters (rest ++ [0])).text = some text :=
        Host.text_eq text [] (by simp [← hrest])
      have hmany : (Host.mk characters (List.replicate 46 1 ++ [0])).text = some ⟨_, hnonzero⟩ :=
        Host.text_eq ⟨_, hnonzero⟩ [] (by simp)
      have hrun := h (rest ++ [0]) (List.replicate 46 1 ++ [0]) (by simp) (by simp) fun _ ↦ 0
      rw [run_eq, run_eq, hshort, hmany, if_neg hfamilies, if_neg hfamilies] at hrun
      have hlast : o.outcome inet ⟨_, hnonzero⟩ (fun _ ↦ 0) = (o.storage.result none, fun _ ↦ 0) :=
        outcome_of_rejected fun family _ ↦ hlong family _ (by simp)
      rw [Option.map_some, Option.map_some, hlast] at hrun
      exact rejected_of_outcome (congrArg Prod.fst (Option.some.inj hrun)) family hfamily
  · rintro (hzero | hrejected) following following' hfollowing hfollowing' m
    · exact run_of_terminated hzero following following' m
    · by_cases hzero : 0 ∈ characters
      · exact run_of_terminated hzero following following' m
      · have hrun : ∀ f, 0 ∈ f →
            o.run inet ⟨characters, f⟩ m = some (o.storage.result none, m) := by
          intro f hf
          rw [run_eq]
          split
          · rfl
          · cases htext : (Host.mk characters f).text with
            | none =>
              exact absurd (List.mem_append_right characters hf) (Host.text_eq_none_iff.mp htext)
            | some text =>
              rw [Option.map_some, outcome_of_rejected]
              intro family hfamily
              exact hrejected family hfamily text (Host.prefix_text hzero htext)
        rw [hrun following hfollowing, hrun following' hfollowing']

/-- The result depends on the view alone, if and only if a zero in the view ends the string, or none
of the strings that begin with the view is an address.  A memory without any zero behind the view is
read on to its end, unless there is no room for an address. -/
theorem view_alone_iff
    (hlong : ∀ family (text : Text), 45 < text.characters.length → inet.pton family text = none)
    (characters : List UInt8) (o : Overload) :
    (o.DependsOnView inet characters (0 ∈ ·) ↔ 0 ∈ characters ∨
      ∀ family ∈ o.families, ∀ text : Text, characters <+: text.characters →
        inet.pton family text = none) ∧
    (o.DependsOnView inet characters (fun _ ↦ True) ↔ 0 ∈ characters ∨ o.families = []) :=
  ⟨dependsOnView_terminated_iff hlong, dependsOnView_iff⟩

theorem view_alone_iff_localhost :
    (Overload.mk .ip none (.buffer 0 16)).DependsOnView Inet.plain
      [49, 50, 55, 46, 48, 46, 48, 46, 49, 0] (0 ∈ ·) ∧
    ¬ (Overload.mk .ip none (.buffer 0 16)).DependsOnView Inet.plain
      [49, 50, 55, 46, 48, 46, 48, 46, 49] (0 ∈ ·) := by
  constructor
  · rw [(view_alone_iff Inet.pton_plain_of_long _ _).1]
    exact Or.inl (by decide)
  · rw [(view_alone_iff Inet.pton_plain_of_long _ _).1]
    rintro (hzero | hrejected)
    · exact absurd hzero (by decide)
    · have hnone := hrejected .inet (by decide) (Inet.localhostText .inet) List.prefix_rfl
      exact absurd hnone (by decide)

/-- The view 127.0.0.1 with a zero behind it, and with one more character before the zero. -/
theorem not_view_alone_localhost :
    (Overload.mk .ip none (.object fun _ ↦ 0)).run Inet.plain
      ⟨[49, 50, 55, 46, 48, 46, 48, 46, 49], [0]⟩ (fun _ ↦ 0) =
        some (.object (some .inet), Bytes.write (fun _ ↦ 0) 0 (Inet.localhost .inet)) ∧
    (Overload.mk .ip none (.object fun _ ↦ 0)).run Inet.plain
      ⟨[49, 50, 55, 46, 48, 46, 48, 46, 49], [120, 0]⟩ (fun _ ↦ 0) =
        some (.object none, fun _ ↦ 0) ∧
    ¬ (Overload.mk .ip none (.object fun _ ↦ 0)).DependsOnView Inet.plain
      [49, 50, 55, 46, 48, 46, 48, 46, 49] (0 ∈ ·) := by
  refine ⟨rfl, rfl, fun h ↦ ?_⟩
  have hresult := h [0] [120, 0] (by decide) (by decide) fun _ ↦ 0
  exact absurd (congrArg (Option.map Prod.fst) hresult) (by decide)

end Overload

/-! ## What the bytes depend on -/

/-- `sin_zero`, and `sin6_flowinfo` and `sin6_scope_id` -/
def Family.leftOver : Family → List Nat
  | .inet => [8, 9, 10, 11, 12, 13, 14, 15]
  | .inet6 => [4, 5, 6, 7, 24, 25, 26, 27]

/-- Family, port and address take up all other bytes of the socket address. -/
theorem Family.mem_leftOver_iff {family : Family} {i : Nat} (h : i < family.socketSize) :
    i ∈ family.leftOver ↔
      4 ≤ i ∧ ¬ (family.addressOffset ≤ i ∧ i < family.addressOffset + family.size) := by
  cases family <;> simp [leftOver, addressOffset, size, socketSize] at h ⊢ <;> omega

theorem Family.lt_of_mem_leftOver {family : Family} {i : Nat} (h : i ∈ family.leftOver) :
    i < family.socketSize := by
  have hall : ∀ i ∈ family.leftOver, i < family.socketSize := by cases family <;> decide
  exact hall i h

section Stored

variable {family : Family} {bytes : Vector UInt8 family.size} {port : UInt16} {m m' : Bytes}
  {place i : Nat}

theorem store_leftOver (hi : i ∈ family.leftOver) :
    Protocol.store family bytes m place (.tcp port) (place + i) = m (place + i) := by
  obtain ⟨hfour, haddress⟩ := (Family.mem_leftOver_iff (Family.lt_of_mem_leftOver hi)).mp hi
  have hnumber : Apart place 2 (place + i) 1 := by
    unfold Apart
    omega
  have hport : Apart (place + 2) 2 (place + i) 1 := by
    unfold Apart
    omega
  have hbytes : Apart (place + family.addressOffset) family.size (place + i) 1 := by
    unfold Apart
    omega
  rw [Protocol.store, storePort, Bytes.write_of_apart _ _ hport, Bytes.write_of_apart _ _ hnumber,
    Bytes.write_of_apart _ _ hbytes]

theorem store_congr (hi : i < family.socketSize) (hout : i ∉ family.leftOver) :
    Protocol.store family bytes m place (.tcp port) (place + i) =
      Protocol.store family bytes m' place (.tcp port) (place + i) := by
  have hbytes := mt (Family.mem_leftOver_iff hi).mpr hout
  refine Bytes.write_congr _ fun hport ↦ Bytes.write_congr _ fun hnumber ↦
    Bytes.write_congr _ fun haddress ↦ ?_
  unfold Apart at hport hnumber haddress
  omega

/-- The socket addresses that are stored are the same, if and only if the bytes left over were. -/
theorem store_eq_iff :
    Bytes.read (Protocol.store family bytes m place (.tcp port)) place family.socketSize =
      Bytes.read (Protocol.store family bytes m' place (.tcp port)) place family.socketSize ↔
    ∀ i ∈ family.leftOver, m (place + i) = m' (place + i) := by
  rw [Bytes.read_eq_read_iff]
  constructor
  · intro h i hi
    have hstored := h i (Family.lt_of_mem_leftOver hi)
    rwa [store_leftOver hi, store_leftOver hi] at hstored
  · intro h i hi
    by_cases hout : i ∈ family.leftOver
    · rw [store_leftOver hout, store_leftOver hout]
      exact h i hout
    · exact store_congr hi hout

end Stored

namespace Overload

variable {inet : Inet} {host : Host} {text : Text} {o : Overload}

theorem run_of_accepted {family : Family} {bytes : Vector UInt8 family.size}
    (htext : host.text = some text)
    (haccepted : firstOf inet text o.families = some ⟨family, bytes⟩) (m : Bytes) :
    o.run inet host m = some (o.storage.result (some family),
      o.protocol.store family bytes m (o.storage.place family)) := by
  have hfamilies : o.families ≠ [] := by
    rintro hnil
    rw [hnil] at haccepted
    exact nomatch haccepted
  rw [run_eq, if_neg hfamilies, htext, Option.map_some, outcome, haccepted]
  rfl

/-- Two calls that succeed leave the same socket address, if and only if the storage held the same
bytes before where none is stored. -/
theorem socketAddress_eq_iff {port : UInt16} (hprotocol : o.protocol = .tcp port)
    (htext : host.text = some text) {family : Family} {bytes : Vector UInt8 family.size}
    (haccepted : firstOf inet text o.families = some ⟨family, bytes⟩) (m₁ m₂ : Bytes) :
    ∃ m₁' m₂', o.run inet host m₁ = some (o.storage.result (some family), m₁') ∧
      o.run inet host m₂ = some (o.storage.result (some family), m₂') ∧
      (m₁'.read (o.storage.place family) family.socketSize =
          m₂'.read (o.storage.place family) family.socketSize ↔
        ∀ i ∈ family.leftOver,
          m₁ (o.storage.place family + i) = m₂ (o.storage.place family + i)) := by
  refine ⟨_, _, run_of_accepted htext haccepted m₁, run_of_accepted htext haccepted m₂, ?_⟩
  rw [hprotocol]
  exact store_eq_iff

/-- The socket address of ::1, at 0 in a buffer whose other bytes do not matter. -/
theorem socketAddress_eq_iff_loopback : ∃ m₁' m₂',
    (Overload.mk (.tcp 50000) none (.buffer 0 28)).run Inet.plain
      (Host.ofText (Inet.localhostText .inet6)) (fun _ ↦ 0) = some (.buffer true, m₁') ∧
    (Overload.mk (.tcp 50000) none (.buffer 0 28)).run Inet.plain
      (Host.ofText (Inet.localhostText .inet6)) (fun i ↦ if i = 8 ∨ 28 ≤ i then 1 else 0) =
        some (.buffer true, m₂') ∧
    m₁'.read 0 28 = m₂'.read 0 28 := by
  obtain ⟨m₁', m₂', h₁, h₂, heq⟩ := socketAddress_eq_iff
    (o := ⟨.tcp 50000, none, .buffer 0 28⟩) rfl (Host.text_ofText (Inet.localhostText .inet6))
    (show firstOf Inet.plain _ _ = some ⟨.inet6, Inet.localhost .inet6⟩ from rfl) (fun _ ↦ 0)
    fun i ↦ if i = 8 ∨ 28 ≤ i then 1 else 0
  exact ⟨m₁', m₂', h₁, h₂, heq.mpr (by decide)⟩

/-- A new object for 127.0.0.1 and a buffer for ::1, both with what the memory held before at
`sin_zero` and at `sin6_scope_id`. -/
theorem not_socketAddress_eq : ∃ m₁ m₂ m₁' m₂',
    (Overload.mk (.tcp 50000) (some .inet) (.object fun _ ↦ 0)).run Inet.plain
      (Host.ofText (Inet.localhostText .inet)) (fun _ ↦ 0) = some (.object (some .inet), m₁) ∧
    (Overload.mk (.tcp 50000) (some .inet) (.object fun _ ↦ 0)).run Inet.plain
      (Host.ofText (Inet.localhostText .inet)) (fun _ ↦ 1) = some (.object (some .inet), m₂) ∧
    m₁.read 8 8 ≠ m₂.read 8 8 ∧
    (Overload.mk (.tcp 50000) none (.buffer 0 28)).run Inet.plain
      (Host.ofText (Inet.localhostText .inet6)) (fun _ ↦ 0) = some (.buffer true, m₁') ∧
    (Overload.mk (.tcp 50000) none (.buffer 0 28)).run Inet.plain
      (Host.ofText (Inet.localhostText .inet6)) (fun _ ↦ 1) = some (.buffer true, m₂') ∧
    m₁'.read 24 4 ≠ m₂'.read 24 4 :=
  ⟨_, _, _, _, rfl, rfl, by decide, rfl, rfl, by decide⟩

end Overload

end Ustevent.Net
