import BofStd.SocketAddress

/-!
# What the binary forms and the increments of a socket address are for

`Set` and `Parse` are inverse on all the addresses. The form of `Bof_SocketAddressToBin` has the words in the order
of the CPU, and `Bof_BinToSocketAddress` copies it as it is. Increments are meant to add up.
-/

namespace BofStd

/-- An address as `Set` gets it: four bytes, or four words. -/
inductive IpWords where
  | v4 (ip1 ip2 ip3 ip4 : UInt8)
  | v6 (ip1 ip2 ip3 ip4 : UInt32)

namespace IpWords

def words : IpWords → List UInt32
  | v4 ip1 ip2 ip3 ip4 => [ip1.toUInt32, ip2.toUInt32, ip3.toUInt32, ip4.toUInt32]
  | v6 ip1 ip2 ip3 ip4 => [ip1, ip2, ip3, ip4]

/-- `Set` with this address. -/
def set (cpu : CpuEndianness) (a : SocketAddress) (ip : IpWords) (socketType : SockType) (port : UInt16) :
    SocketAddress :=
  match ip with
  | v4 ip1 ip2 ip3 ip4 =>
    a.set cpu false socketType ip1.toUInt32 ip2.toUInt32 ip3.toUInt32 ip4.toUInt32 port
  | v6 ip1 ip2 ip3 ip4 => a.set cpu true socketType ip1 ip2 ip3 ip4 port

end IpWords

namespace SocketAddress

/-- The bytes of the address. -/
def address (a : SocketAddress) : List UInt8 :=
  if a.IpV6_B then a.IpV6Address_X.sin6_addr.bytes else a.IpV4Address_X.sin_addr.bytes

/-- `Parse` after `Set` returns what `Set` got, and `Bof_BinToSocketAddress` into an object of the same family restores
the address that `Bof_SocketAddressToBin` got. -/
structure RoundTrips (cpu : CpuEndianness) (old : SocketAddress) (ip : IpWords) (socketType : SockType)
    (port : UInt16) (a : SocketAddress) : Prop where
  parse_set : (ip.set cpu old socketType port).parse cpu = (socketType, ip.words, port)
  bin : ∀ b : SocketAddress, b.IpV6_B = a.IpV6_B →
    ∃ b', b.binToSocketAddress cpu (a.socketAddressToBin cpu []).1 = some (b', .noError) ∧ b'.address = a.address

/-- The two bytes of every 16-bit word are the same. -/
def Palindromic (bytes : List UInt8) : Prop := ∀ i < 8, bytes[2 * i]? = bytes[2 * i + 1]?

instance (bytes : List UInt8) : Decidable (Palindromic bytes) := inferInstanceAs (Decidable (∀ i < 8, _))

/-! ## Increments -/

/-- The base of a group. -/
def base (a : SocketAddress) : Int := if a.IpV6_B then 0xFFFE else 0xFE

/-- The values of the groups, from the last one on. -/
def groups (cpu : CpuEndianness) (a : SocketAddress) : List Int :=
  if a.IpV6_B then
    ((List.range 8).map fun i => ((cpu.htons (a.IpV6Address_X.sin6_addr.u16 cpu i)).toNat : Int)).reverse
  else (a.IpV4Address_X.sin_addr.bytes.map fun g => (g.toNat : Int)).reverse

/-- The increments that `Inc` accepts. -/
def Accepts (base n : Int) : Prop := -base < n ∧ n < base

instance (base n : Int) : Decidable (Accepts base n) := inferInstanceAs (Decidable (_ ∧ _))

def SameSign (n m : Int) : Prop := (0 ≤ n ∧ 0 ≤ m) ∨ (n ≤ 0 ∧ m ≤ 0)

/-- Increments add up, and the opposite increment undoes one. -/
structure IncAdditive (cpu : CpuEndianness) (a : SocketAddress) (n m : Int) : Prop where
  add : (a.inc cpu n).inc cpu m = a.inc cpu (n + m)
  neg : (a.inc cpu n).inc cpu (-n) = a

/-- The value of a group that has not rolled over. -/
def Inner (base v : Int) : Prop := 1 ≤ v ∧ v < base

instance (base v : Int) : Decidable (Inner base v) := inferInstanceAs (Decidable (_ ∧ _))

/-- A group after one roll-over. -/
def wrap (base v : Int) : Int := if base ≤ v then v - base else if v ≤ 0 then v + base else v

/-- Every group that the increment reaches has a value that it gives back: it stays inside, or it rolls over forth and
back. -/
def Reverts (base n : Int) : List Int → Prop
  | [] => True
  | v :: groups => Inner base v ∧ Inner base (v + n) ∨ (base ≤ v + n ∧ v ≤ base ∨ v + n ≤ 0) ∧ Reverts base n groups

/-- The last group has to stay inside under both increments. An increment of 0 is no exception: it rolls over a last
group that is not inside. -/
def StaysInside (base n m : Int) : List Int → Prop
  | [] => True
  | v :: groups =>
    if n = 0 then Inner base v
    else if m = 0 then Inner base (wrap base (v + n)) ∧ Reverts base n (v :: groups)
    else Inner base v ∧ Inner base (v + n + m)

instance Reverts.decidable (base n : Int) : (groups : List Int) → Decidable (Reverts base n groups)
  | [] => inferInstanceAs (Decidable True)
  | _ :: groups =>
    have := Reverts.decidable base n groups
    inferInstanceAs (Decidable (_ ∨ _ ∧ Reverts base n groups))

instance (base n m : Int) : (groups : List Int) → Decidable (StaysInside base n m groups)
  | [] => inferInstanceAs (Decidable True)
  | v :: groups => inferInstanceAs (Decidable (if n = 0 then Inner base v
    else if m = 0 then Inner base (wrap base (v + n)) ∧ Reverts base n (v :: groups)
    else Inner base v ∧ Inner base (v + n + m)))

end SocketAddress

end BofStd
