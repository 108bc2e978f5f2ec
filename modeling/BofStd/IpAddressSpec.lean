import BofStd.IpAddress

/-!
# What addresses as texts are for

An address is put together from a protocol, an interface and a part with credentials, a numeric host and a port.
`Bof_SplitIpAddress` should give these components back, and agree with `Bof_ResolveIpAddress` (`SplitsBack`).
-/

namespace BofStd.IpAddress

open StdString

/-! ## Numeric addresses -/

/-- The texts that `inet_pton` accepts: four decimal numbers with dots between them, and groups of one to four
hexadecimal digits with colons between them, where the last groups may be such an address of four bytes. -/
structure Network.Standard (net : Network) : Prop where
  v4_chars : ∀ {t a}, net.inetPton t = some a → ∀ c ∈ t, isDigit c = true ∨ c = '.'.toUInt8
  v4_dot : ∀ {t a}, net.inetPton t = some a → '.'.toUInt8 ∈ t
  v6_chars : ∀ {t a}, net.inetPton6 t = some a → ∀ c ∈ t, isIpV6Char c = true ∨ c = '.'.toUInt8
  v6_colon : ∀ {t a}, net.inetPton6 t = some a → ':'.toUInt8 ∈ t
  v6_group : ∀ {t a}, net.inetPton6 t = some a → '.'.toUInt8 ∉ t →
    (t.rtakeWhile fun c => c ≠ ':'.toUInt8).length ≤ 4

/-- A host: the text that `inet_pton` accepts, and its bytes. -/
inductive Host (net : Network) where
  | v4 (digits : Text) (addr : InAddr 4) (numeric : net.inetPton digits = some addr)
  | v6 (digits : Text) (addr : InAddr 16) (numeric : net.inetPton6 digits = some addr)

/-- The text of a host: an IPv6 address is in brackets. -/
def Host.text {net : Network} : Host net → Text
  | .v4 digits _ _ => digits
  | .v6 digits _ _ => '['.toUInt8 :: (digits ++ [']'.toUInt8])

/-- The address of a host. -/
def Host.address {net : Network} (cpu : CpuEndianness) (protocol : Text) (port : UInt16) : Host net → SocketAddress
  | .v4 _ addr _ =>
    { SocketAddress.reset with
      SocketType_E := sockType protocol
      Protocol_S := protocolName protocol
      IpV4Address_X := ⟨.inet, cpu.htons port, addr⟩ }
  | .v6 _ addr _ =>
    { SocketAddress.reset with
      IpV6_B := true
      SocketType_E := sockType protocol
      Protocol_S := protocolName protocol
      IpV6Address_X := ⟨.inet6, cpu.htons port, 0, 0, addr⟩ }

/-! ## The parts of an address -/

/-- The characters that are not in a user and not in a password. -/
def delimiters : Text := [':'.toUInt8, '@'.toUInt8, '/'.toUInt8, '['.toUInt8, ']'.toUInt8, '>'.toUInt8]

/-- A user, with a password or without. -/
structure Credentials where
  user : Text
  password : Option Text
  free : ∀ c ∈ user ++ password.getD [], c ∉ delimiters

def Credentials.text (c : Credentials) : Text :=
  c.user ++ (match c.password with
    | some password => ':'.toUInt8 :: password
    | none => []) ++ ['@'.toUInt8]

/-- A port in decimal digits. -/
structure PortText where
  digits : Text
  ne_nil : digits ≠ []
  decimal : ∀ c ∈ digits, isDigit c = true
  lt : numeral digits < 2 ^ 16

/-- A port behind a colon, or nothing. -/
def portText (port : Option PortText) : Text := (port.map fun port => ':'.toUInt8 :: port.digits).getD []

def portNumber (port : Option PortText) : Nat := (port.map fun port => numeral port.digits).getD 0

/-- The interface or the address. -/
structure Part (net : Network) where
  credentials : Option Credentials
  host : Host net
  port : Option PortText

namespace Part

variable {net : Network} (p : Part net)

def credentialsText : Text := (p.credentials.map Credentials.text).getD []

def text : Text := p.credentialsText ++ p.host.text ++ portText p.port

/-- The components of the part. -/
def component (cpu : CpuEndianness) (protocol : Text) : SocketAddressComponent SocketAddress where
  protocol
  ipAddress := p.host.text
  port := portNumber p.port
  user := (p.credentials.map Credentials.user).getD []
  password := (p.credentials.bind Credentials.password).getD []
  ip := p.host.address cpu protocol (UInt16.ofNat (portNumber p.port))

end Part

/-- The whole text. -/
def addressText {net : Network} (protocol : Text) (interface : Option (Part net)) (address : Part net) : Text :=
  protocol ++ endOfProtocol ++
    (interface.map fun i => i.text ++ ['>'.toUInt8]).getD [] ++ address.text

/-- The text is split into its components. Without credentials and interface, `Bof_ResolveIpAddress` returns the same
address, with the port. -/
structure SplitsBack (net : Network) (cpu : CpuEndianness) (protocol : Text) (interface : Option (Part net))
    (address : Part net) : Prop where
  split : splitIpAddress net cpu (addressText protocol interface address) =
    some ((interface.map fun i => i.component cpu protocol).getD resetComponent, address.component cpu protocol,
      .noError)
  resolve : interface = none → address.credentials = none → ∀ oldInterface old, ∃ interface',
    resolveIpAddress net cpu (addressText protocol interface address) oldInterface old =
        some (interface', (address.component cpu protocol).ip, .noError) ∧
      ((address.component cpu protocol).ip.port cpu).toNat = (address.component cpu protocol).port

/-! ## When it does -/

/-- The digits behind the last colon are read as 0: the decimal ones at the front are zeros, and there is one. -/
def LastGroupIsZero (digits : Text) : Prop :=
  (digits.rtakeWhile fun c => c ≠ ':'.toUInt8).takeWhile isDigit ≠ [] ∧
    ∀ c ∈ (digits.rtakeWhile fun c => c ≠ ':'.toUInt8).takeWhile isDigit, c = '0'.toUInt8

instance : DecidablePred LastGroupIsZero := fun _ => inferInstanceAs (Decidable (_ ∧ _))

/-- The host is an IPv4 address, or it is an IPv6 address without a dot and without credentials, and with a port or with
a last group that is read as the port 0. -/
def Part.IsSplit {net : Network} (p : Part net) : Prop :=
  match p.host with
  | .v4 _ _ _ => True
  | .v6 digits _ _ => '.'.toUInt8 ∉ digits ∧ p.credentials = none ∧ (p.port = none → LastGroupIsZero digits)

end BofStd.IpAddress
