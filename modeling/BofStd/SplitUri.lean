import BofStd.IpAddress
import BofStd.Lib.Escapes

/-!
# Cutting a URI: `Bof_SplitUri` (`bofsocketos.cpp`)

No repetition of `S_RegExUri` is tried again with fewer characters: what `(?=(..*))` has looked at is matched by the back
reference behind it. An optional part that can be matched cannot be left out, as nothing behind it in the expression
matches there. So the parts are found one behind the other. The resolver of addresses belongs to the environment.
-/

namespace BofStd.SplitUri

open IpAddress StdString

/-! ## The classes of `S_RegExUri` -/

/-- `[a-z]`. -/
def isLower (c : UInt8) : Bool := 'a'.toUInt8 ≤ c && c ≤ 'z'.toUInt8

/-- `[0-9A-F]`. -/
def isHexDigit (c : UInt8) : Bool := isDigit c || ('A'.toUInt8 ≤ c && c ≤ 'F'.toUInt8)

/-- `[a-z0-9+.-]`. -/
def isSchemeChar (c : UInt8) : Bool :=
  isLower c || isDigit c || ['+'.toUInt8, '.'.toUInt8, '-'.toUInt8].contains c

/-- `[a-z0-9-._~!$&'()*+,;=]`. -/
def isHostChar (c : UInt8) : Bool :=
  isLower c || isDigit c || ['-'.toUInt8, '.'.toUInt8, '_'.toUInt8, '~'.toUInt8, '!'.toUInt8, '$'.toUInt8, '&'.toUInt8,
    '\''.toUInt8, '('.toUInt8, ')'.toUInt8, '*'.toUInt8, '+'.toUInt8, ','.toUInt8, ';'.toUInt8, '='.toUInt8].contains c

/-- `[a-z0-9-._~!$&'()*+,;=:]`. -/
def isUserChar (c : UInt8) : Bool := isHostChar c || c == ':'.toUInt8

/-- `[a-z0-9-._~!$&'()*+,;=:@\/]`. -/
def isPathChar (c : UInt8) : Bool := isUserChar c || c == '@'.toUInt8 || c == '/'.toUInt8

/-- `[a-z0-9-._~!$&'()*+,;=:@\/?]`. -/
def isQueryChar (c : UInt8) : Bool := isPathChar c || c == '?'.toUInt8

/-- `[0-9A-F:.]`. -/
def isAddressChar (c : UInt8) : Bool := isHexDigit c || c == ':'.toUInt8 || c == '.'.toUInt8

/-! ## The parts of `S_RegExUri` -/

/-- `(?:[class]|%[0-9A-F]{2})*`: what is matched, and what is behind it. -/
def run (p : UInt8 → Bool) : Text → Text × Text := Escapes.run p '%'.toUInt8 isHexDigit

/-- The user info with the `@` behind it, which is the group 4, or nothing. -/
def userPart (s : Text) : Text × Text :=
  match run isUserChar s with
  | (userInfo, c :: rest) => if c = '@'.toUInt8 then (userInfo ++ [c], rest) else ([], s)
  | (_, []) => ([], s)

/-- `\[[0-9A-F:.]{2,}\]`. -/
def bracketPart : Text → Option (Text × Text)
  | [] => none
  | c :: s =>
    let digits := s.takeWhile isAddressChar
    match s.dropWhile isAddressChar with
    | d :: rest =>
      if c = '['.toUInt8 ∧ 2 ≤ digits.length ∧ d = ']'.toUInt8 then some (c :: (digits ++ [d]), rest) else none
    | [] => none

/-- The group 5. -/
def hostPart (s : Text) : Text × Text := (bracketPart s).getD (run isHostChar s)

/-- The colon and the digits behind it, which are the group 6, or nothing. -/
def portPart : Text → Text × Text
  | [] => ([], [])
  | c :: s => if c = ':'.toUInt8 then (c :: s.takeWhile isDigit, s.dropWhile isDigit) else ([], c :: s)

/-- A part behind a mark, or nothing. -/
def markedPart (mark : UInt8) (p : UInt8 → Bool) : Text → Text × Text
  | [] => ([], [])
  | c :: s => if c = mark then (c :: (run p s).1, (run p s).2) else ([], c :: s)

/-- The groups 11 and 12 up to the end of the text. -/
def queryAndFragment (s : Text) : Option (Text × Text) :=
  let (query, s) := markedPart '?'.toUInt8 isQueryChar s
  let (fragment, s) := markedPart '#'.toUInt8 isQueryChar s
  if s = [] then some (query.drop 1, fragment.drop 1) else none

/-- The groups that are read: 1, 2, 4, 5, 6, 7, 9, 11 and 12. -/
structure UriMatch where
  scheme : Text
  authority : Text
  userInfo : Text
  host : Text
  port : Text
  rootedPath : Text
  path : Text
  query : Text
  fragment : Text

/-- The first alternative, behind the two slashes. -/
def withAuthority (scheme rest : Text) : Option UriMatch :=
  let (user, rest) := userPart rest
  let (host, rest) := hostPart rest
  let (port, rest) := portPart rest
  let (path, rest) := markedPart '/'.toUInt8 isPathChar rest
  (queryAndFragment rest).map fun (query, fragment) =>
    ⟨scheme, user ++ host ++ port, user.dropLast, host, port.drop 1, path, [], query, fragment⟩

/-- The second alternative, whose path does not begin with two slashes. -/
def withoutAuthority (scheme rest : Text) : Option UriMatch :=
  let (path, rest) := run isPathChar rest
  (queryAndFragment rest).map fun (query, fragment) => ⟨scheme, [], [], [], [], [], path, query, fragment⟩

/-- `regex_search` of `S_RegExUri`. -/
def searchUri (uri : Text) : Option UriMatch :=
  let scheme := uri.takeWhile isSchemeChar
  match scheme, uri.dropWhile isSchemeChar with
  | first :: _, colon :: rest =>
    if isLower first ∧ colon = ':'.toUInt8 then
      if ['/'.toUInt8, '/'.toUInt8] <+: rest then withAuthority scheme (rest.drop 2) else withoutAuthority scheme rest
    else none
  | _, _ => none

/-! ## `Bof_SplitUri` -/

/-- The scheme and the authority before the address is looked up. -/
def UriMatch.component (m : UriMatch) : SocketAddressComponent SocketAddress where
  protocol := m.scheme
  ipAddress := m.host
  port := 0
  user := m.userInfo.takeWhile fun c => c ≠ ':'.toUInt8
  password := (m.userInfo.dropWhile fun c => c ≠ ':'.toUInt8).drop 1
  ip := .reset

/-- `_rPath_S`. -/
def UriMatch.pathText (m : UriMatch) : Text := if m.authority = [] then m.path else m.rootedPath

/-- The port and the address, if both are given; the exception of `std::stoi` is caught. -/
def resolve (net : Network) (cpu : CpuEndianness) (port : Text) (c : SocketAddressComponent SocketAddress) :
    Option (Except BofErr (SocketAddressComponent SocketAddress)) :=
  if c.ipAddress ≠ [] ∧ port ≠ [] then
    match stoi port with
    | none => some (.error .einval)
    | some n =>
      (hostAddress net cpu c.ipAddress c.ip).map fun (ip, err) =>
        if err = .noError then
          .ok { c with port := (UInt16.ofInt n).toNat, ip := ip.setPort cpu (UInt16.ofInt n) }
        else .error err
  else some (.ok c)

/-- `Bof_SplitUri`: the scheme with the authority, the path, the query and the fragment. -/
def splitUri (net : Network) (cpu : CpuEndianness) (uri : Text) :
    Option (Except BofErr (SocketAddressComponent SocketAddress × Text × Text × Text)) :=
  match searchUri uri with
  | none => some (.error .format)
  | some m =>
    (resolve net cpu m.port m.component).map fun r => r.map fun c => (c, m.pathText, m.query, m.fragment)

end BofStd.SplitUri
