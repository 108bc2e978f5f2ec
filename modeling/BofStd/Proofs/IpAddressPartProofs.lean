import BofStd.Proofs.IpAddressProofs
import BofStd.Proofs.SocketAddressProofs

/-!
# Addresses as texts: the parts of an address

`ParseIpAddress` gives a part back (`parsePart_iff`) when the host that it cuts out is the whole one and the text behind
the colon that it takes for the one of the port is read as the port. From this, the same for the whole text
(`splitsBack_iff`).
-/

namespace BofStd.IpAddress

open StdString

variable {net : Network} {cpu : CpuEndianness} {s x user password address protocol : Text} {pos : Option Nat}
  {c c' : SocketAddressComponent SocketAddress} {err : BofErr}

/-! ## `ParseIpAddress` -/

theorem urlAddressToSocketAddressCollection_ipV6 (net : Network) (cpu : CpuEndianness) (address : Text) :
    ∀ ip ∈ (urlAddressToSocketAddressCollection net cpu address).1, ip.IpV6_B = false := by
  unfold urlAddressToSocketAddressCollection
  dsimp only
  split
  · split
    · intro ip hip
      obtain ⟨info, -, rfl⟩ := List.mem_map.mp hip
      rfl
    · exact nofun
  · exact nofun

/-- An address that is looked up is not an IPv6 address. -/
theorem hostAddress_ipV6 {old ip : SocketAddress} (h : hostAddress net cpu address old = some (ip, err)) :
    ip.IpV6_B = (ipAddressToSocketAddress net cpu address old).1.IpV6_B ∨ ip.IpV6_B = false := by
  unfold hostAddress at h
  dsimp only at h
  split at h
  · have hlookup := urlAddressToSocketAddressCollection_ipV6 net cpu address
    split at h
    next hips =>
      obtain ⟨first, hfirst, heq⟩ := Option.map_eq_some_iff.mp h
      obtain ⟨rfl, -⟩ := Prod.mk.inj heq
      rw [hips] at hlookup
      exact .inr (hlookup first (List.mem_of_mem_head? hfirst))
    next =>
      obtain ⟨rfl, -⟩ := Prod.mk.inj (Option.some.inj h)
      exact .inl rfl
  · obtain ⟨rfl, -⟩ := Prod.mk.inj (Option.some.inj h)
    exact .inl rfl

theorem readPort_ipV6 (cpu : CpuEndianness) (s : Text) (pos : Option Nat) (oldPort : Nat) (ip : SocketAddress)
    (err : BofErr) : (readPort cpu s pos oldPort ip err).2.1.IpV6_B = ip.IpV6_B := by
  unfold readPort
  split
  · split
    · exact setPort_ipV6 _ _
    · rfl
  · rfl

/-- What the address is, and its family. -/
theorem parseIpAddress_eq_some (hne : s ≠ []) (hsplit : splitAuthority s = some (user, password, address, pos))
    (h : parseIpAddress net cpu s protocol c = some (c', err)) :
    c'.ipAddress = address ∧
      (c'.ip.IpV6_B = (ipAddressToSocketAddress net cpu address c.ip).1.IpV6_B ∨ c'.ip.IpV6_B = false) := by
  rw [parseIpAddress, if_pos hne, hsplit] at h
  simp only [Option.bind_eq_bind, Option.bind_some, Option.pure_def] at h
  obtain ⟨⟨ip, err'⟩, hip, h⟩ := Option.bind_eq_some_iff.mp h
  obtain ⟨rfl, -⟩ := Prod.mk.inj (Option.some.inj h)
  refine ⟨rfl, ?_⟩
  have hread := readPort_ipV6 cpu s pos c.port ip err'
  have hfamily := hostAddress_ipV6 hip
  dsimp only
  split
  · exact hread ▸ hfamily
  · exact hread ▸ hfamily

/-- The numeric address of a host, with the port that is read. -/
theorem parsePart_host (hnet : net.Standard) (cpu : CpuEndianness) (protocol : Text)
    (c : SocketAddressComponent SocketAddress) (host : Host net)
    (hdot : ∀ digits addr numeric, host = .v6 digits addr numeric → '.'.toUInt8 ∉ digits) (hne : s ≠ [])
    (hsplit : splitAuthority s = some (user, password, host.text, pos)) :
    parsePart net cpu s protocol c = some (
      match pos.map fun pos => stoi (s.drop (pos + 1)) with
      | none => (⟨protocol, host.text, 0, user, password, host.address cpu protocol 0⟩, .noError)
      | some (some n) =>
        (⟨protocol, host.text, (UInt16.ofInt n).toNat, user, password, host.address cpu protocol (UInt16.ofInt n)⟩,
          .noError)
      | some none => (⟨protocol, host.text, c.port, user, password, host.bare cpu 0⟩, .einval)) := by
  have haddress : hostAddress net cpu host.text c.ip = some (host.bare cpu 0, .noError) := by
    have hhost : ipAddressToSocketAddress net cpu (host.text ++ portText none) c.ip = (host.bare cpu 0, .noError) :=
      ipAddressToSocketAddress_host hnet host none c.ip hdot
    rw [show portText none = [] from rfl, List.append_nil] at hhost
    rw [hostAddress, hhost]
    rfl
  rw [parsePart, if_pos hne, parseIpAddress, if_pos hne, hsplit]
  simp only [haddress, Option.bind_eq_bind, Option.bind_some, Option.pure_def]
  unfold readPort
  cases pos with
  | none =>
    simp only [Option.map_none, if_true]
    rw [host.address_eq]
  | some pos =>
    cases hread : stoi (s.drop (pos + 1)) with
    | none => simp only [Option.map_some, hread, reduceCtorEq, if_false]
    | some n =>
      simp only [Option.map_some, hread, if_true]
      rw [host.setPort_bare, host.address_eq]

/-! ## The port that is read -/

/-- The text between the last colon of an IPv6 address and the end of its text. -/
theorem stoi_lastGroup (hnet : net.Standard) {addr : InAddr 16} (numeric : net.inetPton6 x = some addr)
    (hdot : '.'.toUInt8 ∉ x) {digits : Text}
    (hdigits : (x.rtakeWhile fun c => c ≠ ':'.toUInt8).takeWhile isDigit = digits) :
    numeral digits < 2 ^ 16 ∧
      stoi ((x.rtakeWhile fun c => c ≠ ':'.toUInt8) ++ [']'.toUInt8]) =
        if digits = [] then none else some (numeral digits : Int) := by
  have hchars : ∀ c ∈ (x.rtakeWhile fun c => c ≠ ':'.toUInt8) ++ [']'.toUInt8], HostChar c := by
    intro c hc
    rcases List.mem_append.mp hc with hc | hc
    · have hmem : c ∈ x := (List.rtakeWhile_suffix _ _).subset hc
      exact .inl (isIpV6Char_of_numeric hnet numeric hdot c hmem)
    · obtain rfl := List.mem_singleton.mp hc
      exact by decide
  have htake : ((x.rtakeWhile fun c => c ≠ ':'.toUInt8) ++ [']'.toUInt8]).takeWhile isDigit = digits := by
    rw [List.takeWhile_append, hdigits]
    split
    next hlen =>
      have hclose : [']'.toUInt8].takeWhile isDigit = [] := by decide
      rw [hclose, List.append_nil, ← hdigits]
      exact ((List.takeWhile_prefix isDigit).eq_of_length (hdigits ▸ hlen)).symm
    next => rfl
  have hlt : numeral digits < 2 ^ 16 := by
    have hdecimal : ∀ c ∈ digits, isDigit c = true := fun c hc => List.mem_takeWhile_imp (hdigits ▸ hc)
    have hlen : digits.length ≤ 4 :=
      calc digits.length
        _ ≤ (x.rtakeWhile fun c => c ≠ ':'.toUInt8).length := hdigits ▸ (List.takeWhile_prefix isDigit).length_le
        _ ≤ 4 := hnet.v6_group numeric hdot
    calc numeral digits
      _ < 10 ^ digits.length := numeral_lt hdecimal
      _ ≤ 10 ^ 4 := Nat.pow_le_pow_right (by decide) hlen
      _ < 2 ^ 16 := by decide
  refine ⟨hlt, ?_⟩
  rw [stoi_eq, htake, if_pos (Nat.lt_trans hlt (by decide))]
  intro c hc
  exact number_head (hchars c (List.mem_of_mem_head? hc)).le

/-! ## The parts -/

theorem Host.text_ne_nil (hnet : net.Standard) (h : Host net) : h.text ≠ [] := by
  cases h with
  | v4 digits addr numeric => exact List.ne_nil_of_mem (hnet.v4_dot numeric)
  | v6 digits addr numeric => exact List.cons_ne_nil _ _

theorem Part.text_ne_nil (hnet : net.Standard) (p : Part net) : p.text ≠ [] := by
  refine List.append_ne_nil_of_left_ne_nil ?_ _
  exact List.append_ne_nil_of_right_ne_nil _ (p.host.text_ne_nil hnet)

/-- A part whose host is cut out, up to the colon in front of its port. -/
theorem parsePart_component (hnet : net.Standard) (p : Part net)
    (hdot : ∀ digits addr numeric, p.host = .v6 digits addr numeric → '.'.toUInt8 ∉ digits)
    (hsplit : splitAuthority p.text = some ((p.credentials.map Credentials.user).getD [],
      (p.credentials.bind Credentials.password).getD [], p.host.text,
      p.port.map fun _ => (p.credentialsText ++ p.host.text).length)) :
    parsePart net cpu p.text protocol c = some (p.component cpu protocol, .noError) := by
  rw [parsePart_host hnet cpu protocol c p.host hdot (p.text_ne_nil hnet) hsplit, Part.text, Part.component]
  cases p.port with
  | none => rfl
  | some port =>
    have hread : stoi ((p.credentialsText ++ p.host.text ++ portText (some port)).drop
        ((p.credentialsText ++ p.host.text).length + 1)) = some (numeral port.digits : Int) := by
      rw [← List.drop_drop, List.drop_left]
      exact port.stoi_eq
    dsimp only [Option.map_some]
    rw [hread]
    dsimp only
    rw [ofInt_natCast port.lt, UInt16.toNat_ofNat_of_lt' port.lt]
    rfl

theorem findChar_portText (h : ':'.toUInt8 ∉ s) (port : Option PortText) :
    findChar (s ++ portText port) ':'.toUInt8 0 = port.map fun _ => s.length := by
  cases port with
  | none =>
    have hnil : s ++ portText none = s := List.append_nil s
    rw [hnil]
    exact findChar_none h 0
  | some port => exact findChar_append h port.digits

/-- The first colon behind the credentials is the one in front of the port. -/
theorem splitAuthority_v4 (hnet : net.Standard) (credentials : Option Credentials) (port : Option PortText)
    (addr : InAddr 4) (numeric : net.inetPton x = some addr) :
    splitAuthority ((credentials.map Credentials.text).getD [] ++ x ++ portText port) =
      some ((credentials.map Credentials.user).getD [], (credentials.bind Credentials.password).getD [], x,
        port.map fun _ => ((credentials.map Credentials.text).getD [] ++ x).length) := by
  have hcolon : ':'.toUInt8 ∉ x := not_mem_v4 hnet numeric (by decide) (by decide)
  have hhost := Host.hostChar hnet (.v4 x addr numeric)
  have hclose : ']'.toUInt8 ∉ x := not_mem_v4 hnet numeric (by decide) (by decide)
  cases credentials with
  | none => exact splitAuthority_none (not_mem_of_hostChar hhost (by decide)) hclose hcolon port
  | some c =>
    have hsplit := splitAuthority_credentials c (x ++ portText port)
    rw [findChar_portText hcolon] at hsplit
    rw [Option.map_some, Option.getD_some, List.append_assoc, hsplit, List.length_append]
    cases port with
    | none => simp [portText]
    | some port => simp

/-- With credentials the first colon of an IPv6 address is taken for the one in front of the port. -/
theorem splitAuthority_v6_credentials (c : Credentials) (hcolon : ':'.toUInt8 ∈ x) (s : Text) :
    ∃ user password address pos, splitAuthority (c.text ++ ('['.toUInt8 :: (x ++ [']'.toUInt8]) ++ s)) =
      some (user, password, address, pos) ∧ address ≠ '['.toUInt8 :: (x ++ [']'.toUInt8]) := by
  obtain ⟨front, back, rfl, hfront⟩ := List.eq_append_cons_of_mem hcolon
  have hbracket : ':'.toUInt8 ∉ '['.toUInt8 :: front := by
    rw [List.mem_cons, not_or]
    exact ⟨by decide, hfront⟩
  have hsplit := splitAuthority_credentials c
    (('['.toUInt8 :: front) ++ ':'.toUInt8 :: (back ++ ([']'.toUInt8] ++ s)))
  rw [findChar_append hbracket] at hsplit
  dsimp only at hsplit
  rw [List.take_left] at hsplit
  have htext : '['.toUInt8 :: (front ++ ':'.toUInt8 :: back ++ [']'.toUInt8]) ++ s =
      ('['.toUInt8 :: front) ++ ':'.toUInt8 :: (back ++ ([']'.toUInt8] ++ s)) := by simp
  rw [htext]
  refine ⟨_, _, _, _, hsplit, fun heq => ?_⟩
  have hlen := congrArg List.length heq
  simp only [List.length_cons, List.length_append] at hlen
  omega

theorem parsePart_eq_some (hne : s ≠ []) (hsplit : splitAuthority s = some (user, password, address, pos))
    (h : parsePart net cpu s protocol c = some (c', err)) :
    c'.ipAddress = address ∧
      (c'.ip.IpV6_B = (ipAddressToSocketAddress net cpu address c.ip).1.IpV6_B ∨ c'.ip.IpV6_B = false) := by
  rw [parsePart, if_pos hne] at h
  obtain ⟨⟨c₁, err₁⟩, hparse, h⟩ := Option.bind_eq_some_iff.mp h
  have hfields := parseIpAddress_eq_some hne hsplit hparse
  obtain ⟨rfl, rfl⟩ := Prod.mk.inj (Option.some.inj h)
  split
  · exact hfields
  · exact hfields

/-- An IPv6 address without credentials and without a port: its last group is taken for the port. -/
theorem parsePart_lastGroup (hnet : net.Standard) (addr : InAddr 16) (numeric : net.inetPton6 x = some addr)
    (hdot : '.'.toUInt8 ∉ x) {p : Part net} (hp : p = ⟨none, .v6 x addr numeric, none⟩) :
    parsePart net cpu p.text protocol c = some (p.component cpu protocol, .noError) ↔ LastGroupIsZero x := by
  have htext : p.text = '['.toUInt8 :: (x ++ [']'.toUInt8]) := by
    rw [hp]
    exact List.append_nil _
  have hat : '@'.toUInt8 ∉ x := not_mem_v6 hnet numeric (by decide) (by decide)
  obtain ⟨pre, hpre, hsplit⟩ := splitAuthority_bracket hat (hnet.v6_colon numeric)
  obtain ⟨hlt, hread⟩ := stoi_lastGroup hnet numeric hdot rfl
  have hdrop : ('['.toUInt8 :: (x ++ [']'.toUInt8])).drop (pre.length + 1 + 1) =
      (x.rtakeWhile fun c => c ≠ ':'.toUInt8) ++ [']'.toUInt8] := by
    rw [List.drop_succ_cons, ← List.drop_drop]
    conv_lhs => rw [hpre]
    rw [List.append_assoc, List.drop_left]
    rfl
  have hhost : ∀ digits addr' numeric', Host.v6 x addr numeric = .v6 digits addr' numeric' → '.'.toUInt8 ∉ digits := by
    rintro _ _ _ ⟨⟩
    exact hdot
  have hparse := parsePart_host hnet cpu protocol c (.v6 x addr numeric) hhost
    (List.cons_ne_nil _ _) hsplit
  rw [Option.map_some, hdrop, hread] at hparse
  have hdecimal : ∀ c ∈ (x.rtakeWhile fun c => c ≠ ':'.toUInt8).takeWhile isDigit, isDigit c = true :=
    fun c hc => List.mem_takeWhile_imp hc
  rw [htext, hparse, hp]
  by_cases hnil : (x.rtakeWhile fun c => c ≠ ':'.toUInt8).takeWhile isDigit = []
  · rw [if_pos hnil]
    refine ⟨fun h => ?_, fun h => absurd hnil h.1⟩
    exact absurd (Prod.mk.inj (Option.some.inj h)).2 (by decide)
  · rw [if_neg hnil]
    dsimp only
    rw [ofInt_natCast hlt]
    constructor
    · intro h
      have hport := congrArg SocketAddressComponent.port (Prod.mk.inj (Option.some.inj h)).1
      change (UInt16.ofNat _).toNat = 0 at hport
      rw [UInt16.toNat_ofNat_of_lt' hlt] at hport
      exact ⟨hnil, (numeral_eq_zero_iff hdecimal).mp hport⟩
    · intro h
      rw [(numeral_eq_zero_iff hdecimal).mpr h.2]
      rfl

/-- An IPv6 address with a dot and without credentials is cut out, but it is not taken for an IPv6 address. -/
theorem parsePart_dot (hnet : net.Standard) (addr : InAddr 16) (numeric : net.inetPton6 x = some addr)
    (hdot : '.'.toUInt8 ∈ x) (port : Option PortText) {p : Part net} (hp : p = ⟨none, .v6 x addr numeric, port⟩) :
    parsePart net cpu p.text protocol resetComponent ≠ some (p.component cpu protocol, .noError) := by
  have hat : '@'.toUInt8 ∉ x := not_mem_v6 hnet numeric (by decide) (by decide)
  have hsplit : ∃ pos, splitAuthority p.text = some ([], [], '['.toUInt8 :: (x ++ [']'.toUInt8]), pos) := by
    cases port with
    | none =>
      have htext : p.text = '['.toUInt8 :: (x ++ [']'.toUInt8]) := by
        rw [hp]
        exact List.append_nil _
      obtain ⟨pre, -, hsplit⟩ := splitAuthority_bracket hat (hnet.v6_colon numeric)
      rw [htext]
      exact ⟨_, hsplit⟩
    | some port =>
      rw [hp]
      exact ⟨_, splitAuthority_bracket_port hat port⟩
  obtain ⟨pos, hsplit⟩ := hsplit
  have hmem : '.'.toUInt8 ∈ '['.toUInt8 :: (x ++ [']'.toUInt8]) :=
    List.mem_cons_of_mem _ (List.mem_append_left _ hdot)
  have hfamily : (ipAddressToSocketAddress net cpu ('['.toUInt8 :: (x ++ [']'.toUInt8])) resetComponent.ip).1.IpV6_B =
      false := ipAddressToSocketAddress_dot hmem rfl
  have hcomponent : (p.component cpu protocol).ip.IpV6_B = true := by
    rw [hp]
    rfl
  intro h
  rcases (parsePart_eq_some (p.text_ne_nil hnet) hsplit h).2 with hip | hip
  · exact Bool.noConfusion (hcomponent.symm.trans (hip.trans hfamily))
  · exact Bool.noConfusion (hcomponent.symm.trans hip)

/-- `ParseIpAddress` gives a part back exactly if the part is split. -/
theorem parsePart_iff (hnet : net.Standard) (p : Part net) :
    parsePart net cpu p.text protocol resetComponent = some (p.component cpu protocol, .noError) ↔ p.IsSplit := by
  have hne := p.text_ne_nil hnet
  obtain ⟨credentials, host, port⟩ := p
  cases host with
  | v4 digits addr numeric =>
    refine ⟨fun _ => trivial, fun _ => parsePart_component hnet _ (fun _ _ _ h => by cases h) ?_⟩
    exact splitAuthority_v4 hnet credentials port addr numeric
  | v6 digits addr numeric =>
    cases credentials with
    | some credentials =>
      refine ⟨fun h => ?_, fun h => by cases h.2.1⟩
      obtain ⟨user, password, address, pos, hsplit, haddress⟩ :=
        splitAuthority_v6_credentials credentials (hnet.v6_colon numeric) (portText port)
      rw [← List.append_assoc] at hsplit
      exact absurd (parsePart_eq_some hne hsplit h).1.symm haddress
    | none =>
      by_cases hdot : '.'.toUInt8 ∈ digits
      · exact ⟨fun h => absurd h (parsePart_dot hnet addr numeric hdot port rfl), fun h => absurd hdot h.1⟩
      · cases port with
        | none =>
          rw [parsePart_lastGroup hnet addr numeric hdot rfl]
          exact ⟨fun h => ⟨hdot, rfl, fun _ => h⟩, fun h => h.2.2 rfl⟩
        | some port =>
          have hat : '@'.toUInt8 ∉ digits := not_mem_v6 hnet numeric (by decide) (by decide)
          have hlen : (Part.credentialsText ⟨none, .v6 digits addr numeric, some port⟩ ++
              (Host.v6 digits addr numeric).text).length = digits.length + 2 := by
            simp [Part.credentialsText, Host.text]
          refine ⟨fun _ => ⟨hdot, rfl, by rintro ⟨⟩⟩, fun _ => parsePart_component hnet _ ?_ ?_⟩
          · rintro _ _ _ ⟨⟩
            exact hdot
          · rw [hlen]
            exact splitAuthority_bracket_port hat port

/-! ## The whole text -/

theorem Part.gt_not_mem (hnet : net.Standard) (p : Part net) : '>'.toUInt8 ∉ p.text := by
  have hcredentials : '>'.toUInt8 ∉ p.credentialsText := by
    unfold Part.credentialsText
    cases p.credentials with
    | none => exact List.not_mem_nil
    | some c =>
      obtain ⟨huser, hpassword⟩ := credentials_ne c (d := '>'.toUInt8) (by decide)
      obtain ⟨user, password, free⟩ := c
      cases password with
      | none => exact not_mem_join (b := []) (by simpa using huser) (by decide) List.not_mem_nil
      | some password =>
        exact not_mem_join (b := []) (not_mem_join huser (by decide) (hpassword password rfl)) (by decide)
          List.not_mem_nil
  have hhost : '>'.toUInt8 ∉ p.host.text := not_mem_of_hostChar (p.host.hostChar hnet) (by decide)
  have hport : '>'.toUInt8 ∉ portText p.port := not_mem_of_hostChar (hostChar_portText p.port) (by decide)
  rw [Part.text, List.mem_append, List.mem_append, not_or, not_or]
  exact ⟨⟨hcredentials, hhost⟩, hport⟩

theorem splitInterface_none (front : Text) (h : '>'.toUInt8 ∉ s) :
    splitInterface (front ++ s) front.length = some ([], s) := by
  have hright : substr (front ++ s) front.length (front ++ s).length = some s := substr_right front s (by simp)
  rw [splitInterface, findChar_behind, findChar_none h, Option.map_none]
  dsimp only
  rw [hright]
  rfl

theorem splitInterface_some (front : Text) {i : Text} (h : '>'.toUInt8 ∉ i) (s : Text) :
    splitInterface (front ++ (i ++ '>'.toUInt8 :: s)) front.length = some (i, s) := by
  have hlen : ((front ++ i) ++ ['>'.toUInt8]).length = front.length + i.length + 1 := by
    rw [List.length_append, List.length_append, List.length_singleton]
  have hright : substr (((front ++ i) ++ ['>'.toUInt8]) ++ s) (front.length + i.length + 1)
      (((front ++ i) ++ ['>'.toUInt8]) ++ s).length = some s := hlen ▸ substr_right _ s (by simp; omega)
  have hsplit : front ++ (i ++ '>'.toUInt8 :: s) = ((front ++ i) ++ ['>'.toUInt8]) ++ s := by simp
  rw [splitInterface, findChar_behind, findChar_append h, Option.map_some]
  dsimp only
  rw [sizeSub_add, substr_middle, hsplit, hright]
  rfl

variable {interface : Option (Part net)} {part : Part net}

theorem splitInterface_addressText (hnet : net.Standard) (interface : Option (Part net)) (part : Part net) :
    splitInterface (addressText protocol interface part) (protocol.length + 3) =
      some ((interface.map Part.text).getD [], part.text) := by
  have hlen : (protocol ++ endOfProtocol).length = protocol.length + 3 := List.length_append
  rw [← hlen, addressText]
  cases interface with
  | none =>
    rw [Option.map_none, Option.getD_none, List.append_nil]
    exact splitInterface_none _ (part.gt_not_mem hnet)
  | some i =>
    have hsplit : protocol ++ endOfProtocol ++ (i.text ++ ['>'.toUInt8]) ++ part.text =
        (protocol ++ endOfProtocol) ++ (i.text ++ '>'.toUInt8 :: part.text) := by simp
    rw [Option.map_some, Option.getD_some, hsplit]
    exact splitInterface_some _ (i.gt_not_mem hnet) part.text

/-- Neither protocol has a colon. -/
theorem find_endOfProtocol (hp : protocol = tcp ∨ protocol = udp) (s : Text) :
    find (protocol ++ endOfProtocol ++ s) endOfProtocol 0 = some protocol.length := by
  have hcolon : ':'.toUInt8 ∉ protocol := by
    rcases hp with rfl | rfl
    · decide
    · decide
  exact find_first hcolon _ s

theorem lt_length_addressText (hnet : net.Standard) (hp : protocol = tcp ∨ protocol = udp) :
    6 < (addressText protocol interface part).length := by
  have hpart := List.length_pos_of_ne_nil (part.text_ne_nil hnet)
  have hthree : endOfProtocol.length = 3 := rfl
  have hprotocol : protocol.length = 3 := by
    rcases hp with rfl | rfl
    · rfl
    · rfl
  simp only [addressText, List.length_append]
  omega

theorem find_addressText (hp : protocol = tcp ∨ protocol = udp) :
    find (addressText protocol interface part) endOfProtocol 0 = some protocol.length := by
  rw [addressText, List.append_assoc]
  exact find_endOfProtocol hp _

theorem substr_protocol : substr (addressText protocol interface part) 0 protocol.length = some protocol := by
  rw [addressText, List.append_assoc, List.append_assoc]
  exact substr_left protocol _

/-- `Bof_SplitIpAddress` is `ParseIpAddress` of the two parts. -/
theorem splitIpAddress_addressText (hnet : net.Standard) (hp : protocol = tcp ∨ protocol = udp) :
    splitIpAddress net cpu (addressText protocol interface part) =
      (parsePart net cpu ((interface.map Part.text).getD []) protocol resetComponent).bind fun r =>
        if r.2 = .noError then
          (parsePart net cpu part.text protocol resetComponent).bind fun r' => some (r.1, r'.1, r'.2)
        else some (r.1, resetComponent, r.2) := by
  have hfind : find (addressText protocol interface part) endOfProtocol 0 = some protocol.length := find_addressText hp
  have hfound : ¬find (addressText protocol interface part) endOfProtocol 0 = none := by
    rw [hfind]
    exact Option.some_ne_none _
  have hempty : ¬((interface.map Part.text).getD [] = [] ∧ part.text = []) := fun h => part.text_ne_nil hnet h.2
  rw [splitIpAddress, if_pos (lt_length_addressText hnet hp)]
  dsimp only
  rw [if_neg hfound, hfind]
  dsimp only
  rw [substr_protocol, splitInterface_addressText hnet]
  simp only [Option.bind_eq_bind, Option.bind_some, if_neg hempty, Option.pure_def]

/-- Both steps succeed. -/
theorem bind_noError_iff {α : Type*} {x y : Option (α × BofErr)} {a b d : α} :
    (x.bind fun r => if r.2 = .noError then y.bind fun r' => some (r.1, r'.1, r'.2) else some (r.1, d, r.2)) =
        some (a, b, .noError) ↔
      x = some (a, .noError) ∧ y = some (b, .noError) := by
  constructor
  · intro h
    obtain ⟨⟨a', err⟩, hx, h⟩ := Option.bind_eq_some_iff.mp h
    by_cases herr : err = .noError
    · subst herr
      rw [if_pos rfl] at h
      obtain ⟨⟨b', err'⟩, hy, h⟩ := Option.bind_eq_some_iff.mp h
      obtain ⟨rfl, rfl, rfl⟩ := by simpa only [Option.some.injEq, Prod.mk.injEq] using h
      exact ⟨hx, hy⟩
    · rw [if_neg herr] at h
      exact absurd (Prod.mk.inj (Prod.mk.inj (Option.some.inj h)).2).2 herr
  · rintro ⟨rfl, rfl⟩
    rfl

theorem splitIpAddress_iff (hnet : net.Standard) (hp : protocol = tcp ∨ protocol = udp) :
    splitIpAddress net cpu (addressText protocol interface part) =
        some ((interface.map fun i => i.component cpu protocol).getD resetComponent, part.component cpu protocol,
          .noError) ↔
      (∀ i ∈ interface, i.IsSplit) ∧ part.IsSplit := by
  rw [splitIpAddress_addressText hnet hp, bind_noError_iff, parsePart_iff hnet part]
  refine and_congr_left fun _ => ?_
  cases interface with
  | none => exact ⟨fun _ => nofun, fun _ => rfl⟩
  | some i =>
    refine (parsePart_iff hnet i).trans ⟨fun h j hj => ?_, fun h => h i rfl⟩
    obtain rfl := Option.some.inj hj
    exact h

/-- `Bof_IpAddressToSocketAddress` finds the port itself. -/
theorem resolvePart_component (hnet : net.Standard) (hcredentials : part.credentials = none) (hsplit : part.IsSplit)
    (old : SocketAddress) :
    resolvePart net cpu part.text protocol (sockType protocol) old = ((part.component cpu protocol).ip, .noError) := by
  have htext : part.text = part.host.text ++ portText part.port := by
    rw [Part.text, Part.credentialsText, hcredentials]
    rfl
  have hdot : ∀ digits addr numeric, part.host = .v6 digits addr numeric → '.'.toUInt8 ∉ digits := by
    intro digits addr numeric hhost
    rw [Part.IsSplit, hhost] at hsplit
    exact hsplit.1
  rw [resolvePart, if_pos (part.text_ne_nil hnet), htext,
    ipAddressToSocketAddress_host hnet part.host part.port old hdot]
  dsimp only
  rw [part.host.address_eq]
  rfl

theorem resolveIpAddress_addressText (hnet : net.Standard) (hp : protocol = tcp ∨ protocol = udp)
    (hcredentials : part.credentials = none) (hsplit : part.IsSplit) (oldInterface old : SocketAddress) :
    ∃ interface', resolveIpAddress net cpu (addressText protocol none part) oldInterface old =
      some (interface', (part.component cpu protocol).ip, .noError) := by
  have hempty : ¬(((none : Option (Part net)).map Part.text).getD [] = [] ∧ part.text = []) :=
    fun h => part.text_ne_nil hnet h.2
  refine ⟨clearAddress oldInterface, ?_⟩
  rw [resolveIpAddress, if_pos (lt_length_addressText hnet hp), find_addressText hp]
  dsimp only
  rw [substr_protocol, splitInterface_addressText hnet]
  simp only [Option.bind_eq_bind, Option.bind_some, if_neg hempty, Option.pure_def]
  rw [resolvePart_component hnet hcredentials hsplit]
  rfl

theorem portNumber_lt (port : Option PortText) : portNumber port < 2 ^ 16 := by
  cases port with
  | none => exact Nat.two_pow_pos 16
  | some port => exact port.lt

/-- The port of the address is the one of the component. -/
theorem port_component (part : Part net) :
    ((part.component cpu protocol).ip.port cpu).toNat = (part.component cpu protocol).port := by
  obtain ⟨credentials, host, port⟩ := part
  have hport : (UInt16.ofNat (portNumber port)).toNat = portNumber port :=
    UInt16.toNat_ofNat_of_lt' (portNumber_lt port)
  cases host with
  | v4 digits addr numeric => exact (congrArg UInt16.toNat (htons_htons cpu _)).trans hport
  | v6 digits addr numeric => exact (congrArg UInt16.toNat (htons_htons cpu _)).trans hport

/-- The text is split into its components exactly if both parts are. -/
theorem splitsBack_iff (hnet : net.Standard) (hp : protocol = tcp ∨ protocol = udp) (interface : Option (Part net))
    (part : Part net) :
    SplitsBack net cpu protocol interface part ↔ (∀ i ∈ interface, i.IsSplit) ∧ part.IsSplit := by
  constructor
  · intro h
    exact (splitIpAddress_iff hnet hp).mp h.split
  · intro h
    refine ⟨(splitIpAddress_iff hnet hp).mpr h, ?_⟩
    rintro rfl hcredentials oldInterface old
    obtain ⟨interface', hresolve⟩ := resolveIpAddress_addressText hnet hp hcredentials h.2 oldInterface old
    exact ⟨interface', hresolve, port_component part⟩

/-! ### On examples -/

/-- `"10.0.0.1"`. -/
def lanDigits : Text := ['1', '0', '.', '0', '.', '0', '.', '1'].map Char.toUInt8

/-- `"fe80::1"`. -/
def linkLocalDigits : Text := ['f', 'e', '8', '0', ':', ':', '1'].map Char.toUInt8

def lanAddr : InAddr 4 := ⟨[10, 0, 0, 1], rfl⟩

def linkLocalAddr : InAddr 16 := ⟨[0xfe, 0x80, 0, 0, 0, 0, 0, 0, 0, 0, 0, 0, 0, 0, 0, 1], rfl⟩

/-- The two hosts. -/
def lan : Network where
  inetPton t := if t = lanDigits then some lanAddr else none
  inetPton6 t := if t = linkLocalDigits then some linkLocalAddr else none
  getaddrinfo _ := none

theorem lan_standard : lan.Standard := by
  have hlan : ∀ {t a}, lan.inetPton t = some a → t = lanDigits :=
    fun h => (Option.ite_none_right_eq_some.mp h).1
  have hlinkLocal : ∀ {t a}, lan.inetPton6 t = some a → t = linkLocalDigits :=
    fun h => (Option.ite_none_right_eq_some.mp h).1
  constructor
  · intro t a h
    rw [hlan h]
    decide +kernel
  · intro t a h
    rw [hlan h]
    decide +kernel
  · intro t a h
    rw [hlinkLocal h]
    decide +kernel
  · intro t a h
    rw [hlinkLocal h]
    decide +kernel
  · intro t a h _
    rw [hlinkLocal h]
    decide +kernel

def lanHost : Host lan := .v4 lanDigits lanAddr (by decide)

def linkLocalHost : Host lan := .v6 linkLocalDigits linkLocalAddr (by decide)

/-- The port 80. -/
def webPort : PortText := ⟨['8'.toUInt8, '0'.toUInt8], by decide, by decide +kernel, by decide⟩

/-- `"u:p@"`. -/
def someCredentials : Credentials := ⟨['u'.toUInt8], some ['p'.toUInt8], by decide +kernel⟩

/-- `"tcp://[fe80::1]:80>u:p@10.0.0.1:80"`. -/
theorem splitsBack_lan : SplitsBack lan .little tcp (some ⟨none, linkLocalHost, some webPort⟩)
    ⟨some someCredentials, lanHost, some webPort⟩ := by
  refine (splitsBack_iff lan_standard (.inl rfl) _ _).mpr ⟨?_, trivial⟩
  rintro _ ⟨⟩
  exact ⟨by decide, rfl, nofun⟩

/-- `"tcp://[fe80::1]"`: the last group is taken for the port. -/
theorem not_splitsBack_linkLocal : lan.Standard ∧ ¬SplitsBack lan .little tcp none ⟨none, linkLocalHost, none⟩ ∧
    (splitIpAddress lan .little (tcp ++ endOfProtocol ++ ['['.toUInt8] ++ linkLocalDigits ++ [']'.toUInt8])).map
      (fun (_, address, err) => (address.port, err)) = some (1, .noError) := by
  refine ⟨lan_standard, fun h => ?_, by decide +kernel⟩
  obtain ⟨-, -, -, hzero⟩ := (splitIpAddress_iff lan_standard (.inl rfl)).mp h.split
  have hone : ¬LastGroupIsZero linkLocalDigits := by decide
  exact hone (hzero rfl)

end BofStd.IpAddress
