import BofStd.BinSerializer

/-!
# `BOF_SOCKET_ADDRESS` (`bofsocketos.h`, `bofsocketos.cpp`)

The addresses are arrays of bytes. An access through a pointer cast to `uint16_t *` or `uint32_t *` reads or writes
the bytes of a word in the order of the CPU. Where `BOF_ASSERT` fails the result is `none`.
-/

namespace BofStd

open Bytes

/-- `htons` and `ntohs`. -/
def CpuEndianness.htons (cpu : CpuEndianness) (v : UInt16) : UInt16 := UInt16.ofNat (cpu.cpuToBe 2 v.toNat)

/-- `htonl` and `ntohl`. -/
def CpuEndianness.htonl (cpu : CpuEndianness) (v : UInt32) : UInt32 := UInt32.ofNat (cpu.cpuToBe 4 v.toNat)

/-- `AF_UNSPEC`, `AF_INET` and `AF_INET6`. -/
inductive AddressFamily where
  | unspec
  | inet
  | inet6
  deriving DecidableEq

/-- `BOF_SOCK_TYPE`. -/
inductive SockType where
  | unknown
  | tcp
  | udp
  deriving DecidableEq

/-- `in_addr` and `in6_addr`: an array of `n` bytes. -/
@[ext] structure InAddr (n : Nat) where
  bytes : List UInt8
  length_eq : bytes.length = n
  deriving DecidableEq

namespace InAddr

/-- Consecutive stores through a `uint16_t *` that fill the array. -/
def storeU16 (cpu : CpuEndianness) {n : Nat} (words : List UInt16) (h : words.length = n) : InAddr (n * 2) where
  bytes := words.flatMap fun v => cpu.store 2 v.toNat
  length_eq := by
    rw [List.length_flatMap, List.map_congr_left fun v _ => cpu.length_store 2 v.toNat, List.map_const',
      List.sum_replicate_nat, h]

/-- A load through a `uint16_t *`. -/
def u16 (cpu : CpuEndianness) {n : Nat} (a : InAddr n) (i : Nat) : UInt16 :=
  UInt16.ofNat (cpu.load ((a.bytes.drop (2 * i)).take 2))

/-- A load through a `uint32_t *`. -/
def u32 (cpu : CpuEndianness) {n : Nat} (a : InAddr n) (i : Nat) : UInt32 :=
  UInt32.ofNat (cpu.load ((a.bytes.drop (4 * i)).take 4))

end InAddr

/-- `sockaddr_in`. -/
structure SockaddrIn where
  sin_family : AddressFamily
  sin_port : UInt16
  sin_addr : InAddr 4

/-- `sockaddr_in6`. -/
structure SockaddrIn6 where
  sin6_family : AddressFamily
  sin6_port : UInt16
  sin6_flowinfo : UInt32
  sin6_scope_id : UInt32
  sin6_addr : InAddr 16

/-- `BOF_SOCKET_ADDRESS`. -/
structure SocketAddress where
  IpV6_B : Bool
  Protocol_S : String
  SocketType_E : SockType
  IpV4Address_X : SockaddrIn
  IpV6Address_X : SockaddrIn6

namespace SocketAddress

/-- `Set`. -/
def set (cpu : CpuEndianness) (a : SocketAddress) (ipV6 : Bool) (socketType : SockType) (ip1 ip2 ip3 ip4 : UInt32)
    (port : UInt16) : SocketAddress :=
  let a := { a with IpV6_B := ipV6 }
  let a :=
    if ipV6 then
      { a with
        IpV6Address_X := {
          sin6_family := .inet6
          sin6_port := cpu.htons port
          sin6_flowinfo := 0
          sin6_scope_id := 0
          sin6_addr := InAddr.storeU16 cpu
            [cpu.htons (ip1 >>> 16).toUInt16, cpu.htons ip1.toUInt16, cpu.htons (ip2 >>> 16).toUInt16,
              cpu.htons ip2.toUInt16, cpu.htons (ip3 >>> 16).toUInt16, cpu.htons ip3.toUInt16,
              cpu.htons (ip4 >>> 16).toUInt16, cpu.htons ip4.toUInt16] rfl } }
    else
      { a with
        IpV4Address_X := {
          sin_family := .inet
          sin_port := cpu.htons port
          sin_addr := ⟨[ip1.toUInt8, ip2.toUInt8, ip3.toUInt8, ip4.toUInt8], rfl⟩ } }
  let a := { a with SocketType_E := socketType }
  let a := if a.SocketType_E = .tcp then { a with Protocol_S := "tcp" } else a
  if a.SocketType_E = .udp then { a with Protocol_S := "udp" } else a

/-- `Parse`: the socket type, the four words and the port. -/
def parse (cpu : CpuEndianness) (a : SocketAddress) : SockType × List UInt32 × UInt16 :=
  if a.IpV6_B then
    (a.SocketType_E, (List.range 4).map fun i => cpu.htonl (a.IpV6Address_X.sin6_addr.u32 cpu i),
      cpu.htons a.IpV6Address_X.sin6_port)
  else
    (a.SocketType_E, a.IpV4Address_X.sin_addr.bytes.map UInt8.toUInt32, cpu.htons a.IpV4Address_X.sin_port)

/-- `Bof_SocketAddressToBin`. -/
def socketAddressToBin (cpu : CpuEndianness) (a : SocketAddress) (binFormat : List UInt16) : List UInt16 × BofErr :=
  if a.IpV6_B then
    (binFormat ++ (List.range 8).map fun i => cpu.htons (a.IpV6Address_X.sin6_addr.u16 cpu i), .noError)
  else (binFormat ++ a.IpV4Address_X.sin_addr.bytes.map UInt8.toUInt16, .noError)

/-- `Bof_BinToSocketAddress`. -/
def binToSocketAddress (cpu : CpuEndianness) (binFormat : List UInt16) (a : SocketAddress) :
    Option (SocketAddress × BofErr) :=
  if a.IpV6_B then
    if h : 8 ≤ binFormat.length then
      some ({ a with
        SocketType_E := .unknown
        IpV6Address_X := { a.IpV6Address_X with
          sin6_family := .inet6
          sin6_port := cpu.htons 0
          -- `memcpy` of 16 bytes
          sin6_addr := InAddr.storeU16 cpu (binFormat.take 8) (List.length_take_of_le h) } }, .noError)
    else none
  else
    if h : 4 ≤ binFormat.length then
      some ({ a with
        SocketType_E := .unknown
        IpV4Address_X := {
          sin_family := .inet
          sin_port := cpu.htons 0
          sin_addr := ⟨(binFormat.take 4).map UInt16.toUInt8,
            (List.length_map _).trans (List.length_take_of_le h)⟩ } }, .noError)
    else none

/-- The loop of `Inc` over the groups, from the last one on: a group that rolls over is followed by the next one. -/
def incLoop {γ : Type} (load : γ → Int) (store : Int → γ) (base inc : Int) : List γ → List γ
  | [] => []
  | group :: groups =>
    let val := load group + inc
    if base ≤ val then store (val - base) :: incLoop load store base inc groups
    else if val ≤ 0 then store (val + base) :: incLoop load store base inc groups
    else store val :: groups

theorem length_incLoop {γ : Type} (load : γ → Int) (store : Int → γ) (base inc : Int) (groups : List γ) :
    (incLoop load store base inc groups).length = groups.length := by
  fun_induction incLoop with
  | case1 => rfl
  | case2 group groups val hval ih | case3 group groups val hlow hval ih => simp [ih]
  | case4 => rfl

/-- `Inc`. The groups behind the last one that changes are stored as they are. -/
def inc (cpu : CpuEndianness) (a : SocketAddress) (inc : Int) : SocketAddress :=
  if a.IpV6_B then
    if -0xFFFE < inc ∧ inc < 0xFFFE then
      { a with
        IpV6Address_X := { a.IpV6Address_X with
          sin6_addr := InAddr.storeU16 cpu (incLoop (fun g => ((cpu.htons g).toNat : Int))
            (fun v => cpu.htons (UInt16.ofInt v)) 0xFFFE inc
            ((List.range 8).map fun i => a.IpV6Address_X.sin6_addr.u16 cpu i).reverse).reverse
            (by rw [List.length_reverse, length_incLoop, List.length_reverse, List.length_map, List.length_range]) } }
    else a
  else
    if -0xFE < inc ∧ inc < 0xFE then
      { a with
        IpV4Address_X := { a.IpV4Address_X with
          sin_addr := ⟨(incLoop (fun g => (g.toNat : Int)) UInt8.ofInt 0xFE inc
            a.IpV4Address_X.sin_addr.bytes.reverse).reverse, by
              rw [List.length_reverse, length_incLoop, List.length_reverse]
              exact a.IpV4Address_X.sin_addr.length_eq⟩ } }
    else a

end SocketAddress

end BofStd
