import BofStd.BofString
import BofStd.SocketAddress
import BofStd.UrlCode
import BofStd.Lib.Regex

/-!
# Addresses as texts: `Bof_SplitIpAddress` and `Bof_ResolveIpAddress` (`bofsocketos.cpp`)

`inet_pton` and `getaddrinfo` belong to the environment. `std::regex_match` is `Regex.fullMatch`. Positions in strings
are of type `size_t`, and an exception that is caught is `none`; an uncaught one, and an access to an element that is
not there, have no result.
-/

namespace BofStd

/-! ## The standard library -/

namespace StdString

/-- `find` of a character, from a position on. -/
def findChar (s : Text) (c : UInt8) (pos : Nat) : Option Nat := ((s.drop pos).findIdx? fun d => d = c).map (pos + ·)

/-- `rfind` of a character. -/
def rfindChar (s : Text) (c : UInt8) : Option Nat := (s.reverse.findIdx? fun d => d = c).map (s.length - 1 - ·)

/-- The difference of two positions. -/
def sizeSub (a b : Nat) : Nat := if b ≤ a then a - b else a + 2 ^ 64 - b

/-- `c_str`, up to the null byte. -/
def cStr (s : Text) : Text := s.takeWhile fun c => c ≠ 0

/-- A decimal digit. -/
def isDigit (c : UInt8) : Bool := '0'.toUInt8 ≤ c && c ≤ '9'.toUInt8

/-- The value of decimal digits. -/
def numeral (digits : Text) : Nat := digits.foldl (fun n c => 10 * n + (c.toNat - '0'.toNat)) 0

/-- `std::stoi`: blanks and a sign may stand before the digits. -/
def stoi (s : Text) : Option Int :=
  let s := s.dropWhile UrlCode.isSpace
  let (negative, s) :=
    match s with
    | c :: s => if c = '-'.toUInt8 then (true, s) else if c = '+'.toUInt8 then (false, s) else (false, c :: s)
    | [] => (false, [])
  let digits := s.takeWhile isDigit
  if digits = [] then none
  else
    let n : Int := if negative then -(numeral digits : Int) else numeral digits
    if -2 ^ 31 ≤ n ∧ n < 2 ^ 31 then some n else none

end StdString

open StdString

namespace SocketAddress

/-- `Reset`. -/
def reset : SocketAddress where
  IpV6_B := false
  Protocol_S := ""
  SocketType_E := .unknown
  IpV4Address_X := ⟨.unspec, 0, ⟨List.replicate 4 0, rfl⟩⟩
  IpV6Address_X := ⟨.unspec, 0, 0, 0, ⟨List.replicate 16 0, rfl⟩⟩

/-- `Port()`. -/
def port (cpu : CpuEndianness) (a : SocketAddress) : UInt16 :=
  cpu.htons (if a.IpV6_B then a.IpV6Address_X.sin6_port else a.IpV4Address_X.sin_port)

/-- `Port(uint16_t)`. -/
def setPort (cpu : CpuEndianness) (a : SocketAddress) (port : UInt16) : SocketAddress :=
  if a.IpV6_B then { a with IpV6Address_X := { a.IpV6Address_X with sin6_port := cpu.htons port } }
  else { a with IpV4Address_X := { a.IpV4Address_X with sin_port := cpu.htons port } }

/-- `operator==`. -/
def OperatorEq (a other : SocketAddress) : Prop :=
  a.IpV6_B = other.IpV6_B ∧ a.SocketType_E = other.SocketType_E ∧
    if a.IpV6_B then
      a.IpV6Address_X.sin6_family = other.IpV6Address_X.sin6_family ∧
        a.IpV6Address_X.sin6_port = other.IpV6Address_X.sin6_port ∧
        a.IpV6Address_X.sin6_addr = other.IpV6Address_X.sin6_addr
    else
      a.IpV4Address_X.sin_family = other.IpV4Address_X.sin_family ∧
        a.IpV4Address_X.sin_port = other.IpV4Address_X.sin_port ∧
        a.IpV4Address_X.sin_addr = other.IpV4Address_X.sin_addr

end SocketAddress

/-- `BOF_SOCKET_ADDRESS_COMPONENT`; network addresses are of type `ι`. -/
structure SocketAddressComponent (ι : Type*) where
  protocol : Text
  ipAddress : Text
  port : Nat
  user : Text
  password : Text
  ip : ι

namespace SocketAddressComponent

variable {ι : Type*}

/-- A number in decimal digits. -/
def decimal (n : Nat) : Text := (Nat.toDigits 10 n).map Char.toUInt8

/-- `ToString`. -/
def toString (showProtocol showUser showPassword showPortNumber : Bool) (c : SocketAddressComponent ι) : Text :=
  let separator : Text := [':'.toUInt8, '/'.toUInt8, '/'.toUInt8]
  let scheme :=
    if c.user ≠ [] then
      (if c.protocol ≠ [] ∧ showProtocol then c.protocol ++ separator else []) ++
        if c.password ≠ [] then
          (if showUser ∧ showPassword then c.user ++ [':'.toUInt8] ++ c.password ++ ['@'.toUInt8] else [])
        else if showUser then c.user ++ ['@'.toUInt8] else []
    else if c.protocol ≠ [] ∧ showProtocol then
      c.protocol ++ if c.ipAddress ≠ [] then separator else [':'.toUInt8]
    else []
  scheme ++
    if c.ipAddress ≠ [] then
      c.ipAddress ++ if c.port ≠ 0 ∧ showPortNumber then ':'.toUInt8 :: decimal c.port else []
    else []

/-- `operator==`. -/
def OperatorEq (c other : SocketAddressComponent SocketAddress) : Prop :=
  c.protocol = other.protocol ∧ c.ipAddress = other.ipAddress ∧ c.port = other.port ∧ c.user = other.user ∧
    c.password = other.password ∧ c.ip.OperatorEq other.ip

end SocketAddressComponent

namespace IpAddress

/-- `Reset` of `BOF_SOCKET_ADDRESS_COMPONENT`. -/
def resetComponent : SocketAddressComponent SocketAddress := ⟨[], [], 0, [], [], .reset⟩

/-- The functions of the system: `inet_pton` for `AF_INET` and for `AF_INET6`, and the list of `getaddrinfo` for
`AF_INET`. -/
structure Network where
  inetPton : Text → Option (InAddr 4)
  inetPton6 : Text → Option (InAddr 16)
  getaddrinfo : Text → Option (List SockaddrIn)

/-- `"://"`. -/
def endOfProtocol : Text := [':'.toUInt8, '/'.toUInt8, '/'.toUInt8]

/-- `"tcp"`. -/
def tcp : Text := ['t'.toUInt8, 'c'.toUInt8, 'p'.toUInt8]

/-- `"udp"`. -/
def udp : Text := ['u'.toUInt8, 'd'.toUInt8, 'p'.toUInt8]

/-- `"???"`. -/
def noProtocol : Text := ['?'.toUInt8, '?'.toUInt8, '?'.toUInt8]

/-- A text as a `Protocol_S`. -/
def protocolName (protocol : Text) : String := String.ofList (protocol.map fun c => Char.ofNat c.toNat)

/-- The type of the sockets for a protocol. -/
def sockType (protocol : Text) : SockType := if protocol = tcp then .tcp else if protocol = udp then .udp else .unknown

/-! ## Numeric addresses -/

/-- `[a-fA-F0-9:]`. -/
def isIpV6Char (c : UInt8) : Bool :=
  ('a'.toUInt8 ≤ c && c ≤ 'f'.toUInt8) || ('A'.toUInt8 ≤ c && c ≤ 'F'.toUInt8) || isDigit c || c = ':'.toUInt8

/-- `[0-9a-zA-Z]`. -/
def isZoneChar (c : UInt8) : Bool :=
  isDigit c || ('a'.toUInt8 ≤ c && c ≤ 'z'.toUInt8) || ('A'.toUInt8 ≤ c && c ≤ 'Z'.toUInt8)

/-- `RegExIpV6`: `\[?([a-fA-F0-9:]+(?:%[0-9a-zA-Z]+)?)\]?(?::(\d+))?`. -/
def regExIpV6 : Regex UInt8 :=
  let zone := (Regex.item fun c => c = '%'.toUInt8).seq (.many 1 isZoneChar)
  let port := (Regex.item fun c => c = ':'.toUInt8).seq (Regex.many 1 isDigit).group
  (Regex.item fun c => c = '['.toUInt8).opt.seq
    (((Regex.many 1 isIpV6Char).seq zone.opt).group.seq ((Regex.item fun c => c = ']'.toUInt8).opt.seq port.opt))

/-- `Bof_IsItAnIpV6Address`: the address and the port, which is left as it is if there is none. -/
def isItAnIpV6Address (ipAddress : Text) (port : UInt16) : Option (Text × UInt16) :=
  match (regExIpV6.fullMatch ipAddress).map Regex.Match.groups with
  | some [address, digits] =>
    if digits ≠ [] then
      match stoi digits with
      | some n => if 0 ≤ n ∧ n < 0x10000 then some (address, UInt16.ofInt n) else none
      | none => none
    else some (address, port)
  | _ => none

/-- `IpV6_B`, the address and the port in `Bof_IpAddressToSocketAddress`. -/
def addressAndPort (ipAddress trimmed : Text) : Bool × Text × UInt16 × BofErr :=
  match isItAnIpV6Address ipAddress 0 with
  | some (address, port) => (true, address, port, .noError)
  | none =>
    match rfindChar trimmed ':'.toUInt8 with
    | none => (false, trimmed, 0, .noError)
    | some pos =>
      if pos = trimmed.length - 1 then (false, trimmed, 0, .einval)
      else
        match stoi (trimmed.drop (pos + 1)) with
        | some n =>
          if 0 ≤ n ∧ n < 0x10000 then (false, trimmed.take pos, UInt16.ofInt n, .noError)
          else (false, trimmed, 0, .noError)
        | none => (false, trimmed, 0, .noError)

/-- The socket type, the protocol and the address behind it in `Bof_IpAddressToSocketAddress`. -/
def splitProtocol (address : Text) : SockType × Text × Text :=
  match find address endOfProtocol 0 with
  | none => (.unknown, [], address)
  | some pos =>
    if address.take 6 = tcp ++ endOfProtocol then (.tcp, tcp, address.drop 6)
    else if address.take 6 = udp ++ endOfProtocol then (.udp, udp, address.drop 6)
    else (.tcp, address.take pos, address.drop (pos + 3))

variable (net : Network) (cpu : CpuEndianness)

/-- `Bof_IpAddressToSocketAddress`, from the address before the call to the one after it. -/
def ipAddressToSocketAddress (ipAddress : Text) (old : SocketAddress) : SocketAddress × BofErr :=
  let trimmed := stringTrim ipAddress
  if trimmed ≠ [] then
    let (ipV6, address, port, err) := addressAndPort ipAddress trimmed
    if err = .noError ∧ address ≠ [] then
      let (socketType, protocol, address) := splitProtocol address
      let ip : SocketAddress :=
        { SocketAddress.reset with IpV6_B := ipV6, SocketType_E := socketType, Protocol_S := protocolName protocol }
      let ip := ip.setPort cpu port
      if ipV6 then
        match net.inetPton6 (cStr address) with
        | some addr =>
          ({ ip with IpV6Address_X := { ip.IpV6Address_X with sin6_family := .inet6, sin6_addr := addr } }, .noError)
        | none => (ip, .format)
      else
        match net.inetPton (cStr address) with
        | some addr =>
          ({ ip with IpV4Address_X := { ip.IpV4Address_X with sin_family := .inet, sin_addr := addr } }, .noError)
        | none => (ip, .format)
    else (old, err)
  else (old, .einval)

/-- `Bof_UrlAddressToSocketAddressCollection`: its `Ip_X` is an address of four bytes. -/
def urlAddressToSocketAddressCollection (ipAddress : Text) : List SocketAddress × BofErr :=
  let trimmed := stringTrim ipAddress
  if trimmed ≠ [] then
    match net.getaddrinfo (cStr trimmed) with
    | some infos =>
      (infos.map fun info =>
        { SocketAddress.reset with
          IpV4Address_X := { info with sin_port := cpu.htons (SocketAddress.reset.port cpu) } }, .noError)
    | none => ([], .einval)
  else ([], .einval)

/-! ## `Bof_SplitIpAddress` -/

/-- The user, the password, the address and `PosColonPort` in `ParseIpAddress`. -/
def splitAuthority (ipAddress : Text) : Option (Text × Text × Text × Option Nat) :=
  match findChar ipAddress '@'.toUInt8 0 with
  | some posAt => do
    let (posColonPass, posColonPort) :=
      match findChar ipAddress ':'.toUInt8 0 with
      | some pos => if pos < posAt then (some pos, findChar ipAddress ':'.toUInt8 (pos + 1)) else (none, some pos)
      | none =>
        match rfindChar ipAddress ']'.toUInt8, rfindChar ipAddress ':'.toUInt8 with
        | some posEndBracket, some posColonPort =>
          (none, if posColonPort < posEndBracket then none else some posColonPort)
        | none, posColonPort => (none, posColonPort)
        | some _, none => (none, none)
    let (user, password) ←
      match posColonPass with
      | some pos => do
        let user ← substr ipAddress 0 pos
        let password ← substr ipAddress (pos + 1) (sizeSub (sizeSub posAt pos) 1)
        pure (user, password)
      | none => (substr ipAddress 0 posAt).map fun user => (user, [])
    let address ←
      match posColonPort with
      | some pos => substr ipAddress (posAt + 1) (sizeSub (sizeSub pos posAt) 1)
      | none => substr ipAddress (posAt + 1) ipAddress.length
    return (user, password, address, posColonPort)
  | none =>
    match rfindChar ipAddress ']'.toUInt8, rfindChar ipAddress ':'.toUInt8 with
    | posEndBracket, some posColonPort =>
      if posEndBracket = none ∨ posEndBracket.any fun pos => pos < posColonPort then
        (substr ipAddress 0 posColonPort).map fun address => ([], [], address, some posColonPort)
      else some ([], [], ipAddress, some posColonPort)
    | _, none => some ([], [], ipAddress, none)

/-- `Ip_X` in `ParseIpAddress`: a text that is no numeric address is looked up. -/
def hostAddress (address : Text) (old : SocketAddress) : Option (SocketAddress × BofErr) :=
  let (ip, err) := ipAddressToSocketAddress net cpu address old
  if err ≠ .noError then
    match urlAddressToSocketAddressCollection net cpu address with
    | (ips, .noError) => ips.head?.map fun ip => (ip, .noError)
    | (_, err) => some (ip, err)
  else some (ip, err)

/-- `Port_U16` in `ParseIpAddress`, and `Ip_X` with it. -/
def readPort (ipAddress : Text) (posColonPort : Option Nat) (oldPort : Nat) (ip : SocketAddress) (err : BofErr) :
    Nat × SocketAddress × BofErr :=
  match posColonPort with
  | some pos =>
    match stoi (ipAddress.drop (pos + 1)) with
    | some n => ((UInt16.ofInt n).toNat, ip.setPort cpu (UInt16.ofInt n), err)
    | none => (oldPort, ip, .einval)
  | none => (0, ip, err)

/-- `ParseIpAddress`. -/
def parseIpAddress (ipAddress protocol : Text) (c : SocketAddressComponent SocketAddress) :
    Option (SocketAddressComponent SocketAddress × BofErr) :=
  if ipAddress ≠ [] then do
    let (user, password, address, posColonPort) ← splitAuthority ipAddress
    let (ip, err) ← hostAddress net cpu address c.ip
    let (port, ip, err) := readPort cpu ipAddress posColonPort c.port ip err
    let ip := if err = .noError then { ip with SocketType_E := sockType protocol } else ip
    return ({ protocol, ipAddress := address, port, user, password, ip }, err)
  else some (c, .tooSmall)

/-- A part of the address in `Bof_SplitIpAddress`, which may be empty. -/
def parsePart (part protocol : Text) (c : SocketAddressComponent SocketAddress) :
    Option (SocketAddressComponent SocketAddress × BofErr) :=
  if part ≠ [] then do
    let (c, err) ← parseIpAddress net cpu part protocol c
    return (if err = .noError then { c with protocol, ip := { c.ip with Protocol_S := protocolName protocol } } else c,
      err)
  else some (c, .noError)

/-- The interface and the address behind `"://"`. -/
def splitInterface (ipAddress : Text) (posAfter : Nat) : Option (Text × Text) :=
  match findChar ipAddress '>'.toUInt8 posAfter with
  | some posSeparator => do
    let interface ← substr ipAddress posAfter (sizeSub posSeparator posAfter)
    let address ← substr ipAddress (posSeparator + 1) ipAddress.length
    return (interface, address)
  | none => (substr ipAddress posAfter ipAddress.length).map fun address => ([], address)

/-- `Bof_SplitIpAddress`: the components of the interface and of the address. -/
def splitIpAddress (ipAddress : Text) :
    Option (SocketAddressComponent SocketAddress × SocketAddressComponent SocketAddress × BofErr) :=
  if 6 < ipAddress.length then
    let theAddress :=
      if find ipAddress endOfProtocol 0 = none then noProtocol ++ endOfProtocol ++ ipAddress else ipAddress
    match find theAddress endOfProtocol 0 with
    | none => some (resetComponent, resetComponent, .format)
    | some posEop => do
      let protocol ← substr theAddress 0 posEop
      let (interface, address) ← splitInterface theAddress (posEop + 3)
      if interface = [] ∧ address = [] then return (resetComponent, resetComponent, .address)
      else
        let (interfaceComponent, err) ← parsePart net cpu interface protocol resetComponent
        if err = .noError then
          let (addressComponent, err) ← parsePart net cpu address protocol resetComponent
          return (interfaceComponent, addressComponent, err)
        else return (interfaceComponent, resetComponent, err)
  else some (resetComponent, resetComponent, .tooSmall)

/-! ## `Bof_ResolveIpAddress` -/

/-- What `Bof_ResolveIpAddress` does first with an address. -/
def clearAddress (a : SocketAddress) : SocketAddress :=
  { a with
    IpV6_B := false
    SocketType_E := .unknown
    IpV4Address_X := ⟨.unspec, 0, ⟨List.replicate 4 0, rfl⟩⟩ }

/-- A part of the address in `Bof_ResolveIpAddress`, which may be empty. -/
def resolvePart (part protocol : Text) (socketType : SockType) (a : SocketAddress) : SocketAddress × BofErr :=
  if part ≠ [] then
    let (a, err) := ipAddressToSocketAddress net cpu part a
    ({ a with SocketType_E := socketType, Protocol_S := protocolName protocol }, err)
  else (a, .noError)

/-- `Bof_ResolveIpAddress`: the interface and the address. -/
def resolveIpAddress (ipAddress : Text) (interface address : SocketAddress) :
    Option (SocketAddress × SocketAddress × BofErr) :=
  if 6 < ipAddress.length then do
    let interface := clearAddress interface
    let address := clearAddress address
    let (protocol, socketType, address, interfaceText, addressText) ←
      match find ipAddress endOfProtocol 0 with
      | some posEop => do
        let protocol ← substr ipAddress 0 posEop
        let (interfaceText, addressText) ← splitInterface ipAddress (posEop + 3)
        pure (protocol, sockType protocol, { address with Protocol_S := protocolName protocol }, interfaceText,
          addressText)
      | none => pure (noProtocol, SockType.unknown, address, [], ipAddress)
    if interfaceText = [] ∧ addressText = [] then return (interface, address, .address)
    else
      let (interface, err) := resolvePart net cpu interfaceText protocol socketType interface
      if err = .noError then
        let (address, err) := resolvePart net cpu addressText protocol socketType address
        return (interface, address, err)
      else return (interface, address, err)
  else some (interface, address, .tooSmall)

end IpAddress

end BofStd
