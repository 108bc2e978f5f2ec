import BofStd.IpAddressSpec
import BofStd.Proofs.BofStringProofs
import BofStd.Proofs.PathReduceProofs

/-!
# Addresses as texts: numeric addresses

What the functions on strings find in a text that is put together (`findChar_append`, `rfindChar_append`,
`stoi_digits`), and what `Bof_IpAddressToSocketAddress` makes of a numeric address with or without a port.
-/

namespace BofStd

open StdString Replace

/-! ## Strings -/

namespace StdString

variable {a b s t str : Text} {c d : UInt8} {n pos : Nat}

theorem findChar_append (h : c ∉ a) (b : Text) : findChar (a ++ c :: b) c 0 = some a.length := by
  have hnone : (a.findIdx? fun d => d = c) = none :=
    List.findIdx?_eq_none_iff.mpr fun d hd => decide_eq_false fun heq => h (heq ▸ hd)
  rw [findChar, List.drop_zero, List.findIdx?_append, hnone, Option.none_or, List.findIdx?_cons, decide_eq_true rfl,
    if_pos rfl, Option.map_some, Option.map_some, Nat.zero_add, Nat.zero_add]

theorem findChar_none (h : c ∉ s) (pos : Nat) : findChar s c pos = none := by
  rw [findChar, List.findIdx?_eq_none_iff.mpr, Option.map_none]
  exact fun d hd => decide_eq_false fun heq => h (heq ▸ List.mem_of_mem_drop hd)

/-- From a position on. -/
theorem findChar_behind (a b : Text) (c : UInt8) :
    findChar (a ++ b) c a.length = (findChar b c 0).map (a.length + ·) := by
  rw [findChar, findChar, List.drop_left, List.drop_zero, Option.map_map]
  congr 1
  funext i
  exact congrArg (a.length + ·) (Nat.zero_add i).symm

theorem rfindChar_append (a : Text) (h : c ∉ b) : rfindChar (a ++ c :: b) c = some a.length := by
  have hnone : (b.reverse.findIdx? fun d => d = c) = none :=
    List.findIdx?_eq_none_iff.mpr fun d hd => decide_eq_false fun heq => h (heq ▸ List.mem_reverse.mp hd)
  have hlast : (((b.reverse ++ [c]) ++ a.reverse).findIdx? fun d => d = c) = some b.length := by
    rw [List.findIdx?_append, List.findIdx?_append, hnone, Option.none_or, List.findIdx?_cons, decide_eq_true rfl,
      if_pos rfl, Option.map_some, Option.some_or, List.length_reverse, Nat.zero_add]
  rw [rfindChar, List.reverse_append, List.reverse_cons, hlast, Option.map_some, List.length_append, List.length_cons]
  congr 1
  omega

theorem rfindChar_none (h : c ∉ s) : rfindChar s c = none := by
  rw [rfindChar, List.findIdx?_eq_none_iff.mpr, Option.map_none]
  exact fun d hd => decide_eq_false fun heq => h (heq ▸ List.mem_reverse.mp hd)

theorem substr_left (a b : Text) : substr (a ++ b) 0 a.length = some a := by
  rw [substr, if_pos (Nat.zero_le _), List.drop_zero, List.take_left]

theorem substr_right (a b : Text) (h : b.length ≤ n) : substr (a ++ b) a.length n = some b := by
  rw [substr, if_pos (List.length_append ▸ Nat.le_add_right _ _), List.drop_left, List.take_of_length_le h]

theorem substr_middle (a b s : Text) : substr (a ++ (b ++ s)) a.length b.length = some b := by
  rw [substr, if_pos (List.length_append ▸ Nat.le_add_right _ _), List.drop_left, List.take_left]

/-- A string whose first character occurs nowhere before it. -/
theorem firstOccurrence_append (h : c ∉ a) (str b : Text) :
    firstOccurrence (c :: str) (a ++ (c :: str) ++ b) = some a.length := by
  induction a with
  | nil =>
    rw [List.nil_append, List.cons_append, firstOccurrence, if_pos]
    · rfl
    · exact List.prefix_append (c :: str) b
  | cons d a ih =>
    rw [List.mem_cons, not_or] at h
    rw [List.cons_append, List.cons_append, firstOccurrence, if_neg fun hp => h.1 (List.cons_prefix_cons.mp hp).1,
      ih h.2, Option.map_some, List.length_cons]

theorem find_first (h : c ∉ a) (str b : Text) : find (a ++ (c :: str) ++ b) (c :: str) 0 = some a.length := by
  rw [find, if_pos (Nat.zero_le _), List.drop_zero, firstOccurrence_append h, Option.map_some, Nat.zero_add]

/-- A string with a character that does not occur. -/
theorem find_none (hstr : c ∈ str) (h : c ∉ s) (pos : Nat) : find s str pos = none := by
  unfold find
  split
  · cases hfirst : firstOccurrence str (s.drop pos) with
    | none => rfl
    | some i =>
      obtain ⟨pre, rest, hsplit, -⟩ := firstOccurrence_eq_some hfirst
      refine absurd (List.mem_of_mem_drop (i := pos) ?_) h
      rw [hsplit]
      exact List.mem_append_left _ (List.mem_append_right _ hstr)
  · rfl

theorem cStr_eq (h : 0 ∉ s) : cStr s = s :=
  List.takeWhile_eq_self_iff.mpr fun _ hc => decide_eq_true fun heq => h (heq ▸ hc)

/-! ## Numbers -/

theorem numeral_append (a b : Text) :
    numeral (a ++ b) = b.foldl (fun n c => 10 * n + (c.toNat - '0'.toNat)) (numeral a) :=
  List.foldl_append

theorem numeral_concat (a : Text) (c : UInt8) : numeral (a ++ [c]) = 10 * numeral a + (c.toNat - '0'.toNat) :=
  numeral_append a [c]

theorem isDigit_iff : isDigit c = true ↔ 48 ≤ c.toNat ∧ c.toNat ≤ 57 := by
  unfold isDigit
  rw [Bool.and_eq_true, decide_eq_true_iff, decide_eq_true_iff]
  exact Iff.rfl

theorem numeral_lt (h : ∀ c ∈ s, isDigit c = true) : numeral s < 10 ^ s.length := by
  induction s using List.reverseRecOn with
  | nil => decide
  | append_singleton s c ih =>
    have hs := ih fun d hd => h d (List.mem_append_left _ hd)
    have hc := isDigit_iff.mp (h c (List.mem_append_right _ (List.mem_singleton_self c)))
    have hzero : '0'.toNat = 48 := rfl
    rw [numeral_concat, List.length_append, List.length_singleton, Nat.pow_succ, hzero]
    omega

theorem numeral_eq_zero_iff (h : ∀ c ∈ s, isDigit c = true) : numeral s = 0 ↔ ∀ c ∈ s, c = '0'.toUInt8 := by
  induction s using List.reverseRecOn with
  | nil => exact ⟨fun _ => nofun, fun _ => rfl⟩
  | append_singleton s c ih =>
    have hs := ih fun d hd => h d (List.mem_append_left _ hd)
    have hc := isDigit_iff.mp (h c (List.mem_append_right _ (List.mem_singleton_self c)))
    have hzero : '0'.toNat = 48 := rfl
    have hchar : c.toNat - 48 = 0 ↔ c = '0'.toUInt8 := by
      rw [← UInt8.toNat_inj]
      show c.toNat - 48 = 0 ↔ c.toNat = 48
      omega
    rw [numeral_concat, List.forall_mem_append, ← hs, List.forall_mem_singleton, ← hchar, hzero]
    omega

/-- A text that begins with neither a blank nor a sign. -/
theorem stoi_eq (h : ∀ c, s.head? = some c → UrlCode.isSpace c = false ∧ c ≠ '-'.toUInt8 ∧ c ≠ '+'.toUInt8) :
    stoi s = if s.takeWhile isDigit = [] then none
      else if numeral (s.takeWhile isDigit) < 2 ^ 31 then some (numeral (s.takeWhile isDigit) : Int) else none := by
  cases s with
  | nil => rfl
  | cons c s =>
    obtain ⟨hspace, hminus, hplus⟩ := h c rfl
    have hdrop : (c :: s).dropWhile UrlCode.isSpace = c :: s :=
      List.dropWhile_cons_of_neg (ne_true_of_eq_false hspace)
    unfold stoi
    simp only [hdrop, if_neg hminus, if_neg hplus, Bool.false_eq_true, if_false]
    by_cases hnil : (c :: s).takeWhile isDigit = []
    · rw [if_pos hnil, if_pos hnil]
    · rw [if_neg hnil, if_neg hnil]
      by_cases hlt : numeral ((c :: s).takeWhile isDigit) < 2 ^ 31
      · rw [if_pos hlt, if_pos ⟨by omega, by omega⟩]
      · rw [if_neg hlt, if_neg fun h => hlt (by omega)]

/-- Blanks and signs are in front of the dot and the digits. -/
theorem number_head (h : 46 ≤ c.toNat) : UrlCode.isSpace c = false ∧ c ≠ '-'.toUInt8 ∧ c ≠ '+'.toUInt8 := by
  refine ⟨Bool.eq_false_iff.mpr fun hspace => ?_, ?_, ?_⟩
  · simp only [UrlCode.isSpace, Bool.or_eq_true, Bool.and_eq_true, beq_iff_eq, decide_eq_true_eq,
      UInt8.le_iff_toNat_le] at hspace
    rcases hspace with rfl | ⟨-, hle⟩
    · exact absurd h (by decide)
    · have h13 : (13 : UInt8).toNat = 13 := rfl
      omega
  · rintro rfl
    exact absurd h (by decide)
  · rintro rfl
    exact absurd h (by decide)

/-- Digits, with something else behind them. -/
theorem stoi_digits (hne : s ≠ []) (hs : ∀ c ∈ s, isDigit c = true) (hlt : numeral s < 2 ^ 31)
    (ht : ∀ c, t.head? = some c → isDigit c = false) : stoi (s ++ t) = some (numeral s : Int) := by
  have htake : (s ++ t).takeWhile isDigit = s := by
    have hnil : t.takeWhile isDigit = [] := by
      cases t with
      | nil => rfl
      | cons c t => exact List.takeWhile_cons_of_neg (ne_true_of_eq_false (ht c rfl))
    rw [List.takeWhile_append_of_pos hs, hnil, List.append_nil]
  rw [stoi_eq, htake, if_neg hne, if_pos hlt]
  intro c hc
  cases s with
  | nil => exact absurd rfl hne
  | cons d s =>
    obtain rfl := Option.some.inj hc
    obtain ⟨h48, -⟩ := isDigit_iff.mp (hs d List.mem_cons_self)
    exact number_head (by omega)

end StdString

/-- There is nothing to trim. -/
theorem stringTrim_of_free {s : Text} (h : ∀ c ∈ s, c ∉ defaultTrimCharList) : stringTrim s = s := by
  have hend : s.rdropWhile (fun c => c ∈ defaultTrimCharList) = s := by
    rw [List.rdropWhile_eq_self_iff]
    intro hne hmem
    exact h _ (List.getLast_mem hne) (of_decide_eq_true hmem)
  rw [stringTrim, hend]
  cases s with
  | nil => rfl
  | cons c s =>
    refine List.dropWhile_cons_of_neg fun hc => ?_
    exact h c List.mem_cons_self (of_decide_eq_true hc)

namespace IpAddress

variable {net : Network} {cpu : CpuEndianness} {old : SocketAddress} {s x : Text} {port : UInt16}

/-! ## `Bof_IsItAnIpV6Address` -/

/-- The characters of the classes of `regExIpV6`. -/
theorem within_regExIpV6 : regExIpV6.Within fun c => c ≠ '.'.toUInt8 ∧ c ≠ '/'.toUInt8 := by
  refine ⟨?_, ⟨?_, ?_, ?_⟩, ?_, ?_, ?_⟩
  all_goals
    intro c hc
    constructor
    · rintro rfl
      exact absurd hc (by decide)
    · rintro rfl
      exact absurd hc (by decide)

/-- A text with a dot. -/
theorem isItAnIpV6Address_dot (h : '.'.toUInt8 ∈ s) (port : UInt16) : isItAnIpV6Address s port = none := by
  rw [isItAnIpV6Address, within_regExIpV6.fullMatch_eq_none h fun h => h.1 rfl]
  rfl

/-- A text with a slash. -/
theorem isItAnIpV6Address_slash (h : '/'.toUInt8 ∈ s) (port : UInt16) : isItAnIpV6Address s port = none := by
  rw [isItAnIpV6Address, within_regExIpV6.fullMatch_eq_none h fun h => h.2 rfl]
  rfl

/-- The text between the brackets is matched as a whole, because a bracket is in no class of the address. -/
theorem firstMatch_bracket {t p : Text} {digits : List Text} (hne : x ≠ []) (hx : ∀ c ∈ x, isIpV6Char c = true)
    (hport : ((Regex.item fun c => c = ':'.toUInt8).seq (Regex.many 1 isDigit).group).opt.firstMatch t =
      some ⟨p, digits, []⟩) :
    ∃ text, regExIpV6.firstMatch ('['.toUInt8 :: (x ++ ']'.toUInt8 :: t)) = some ⟨text, x :: digits, []⟩ := by
  have hmark : ∀ (c : UInt8) (s : Text), (Regex.item fun d => d = c).opt.firstMatch (c :: s) = some ⟨[c], [], s⟩ :=
    fun c s => Regex.firstMatch_opt (Regex.firstMatch_item (decide_eq_true rfl)) (List.cons_ne_nil _ _)
  have hclose : isIpV6Char ']'.toUInt8 = false := by decide
  have htake : (x ++ ']'.toUInt8 :: t).takeWhile isIpV6Char = x := by
    rw [List.takeWhile_append_of_pos hx, List.takeWhile_cons_of_neg (ne_true_of_eq_false hclose), List.append_nil]
  have hdrop : (x ++ ']'.toUInt8 :: t).dropWhile isIpV6Char = ']'.toUInt8 :: t := by
    rw [List.dropWhile_append_of_pos hx, List.dropWhile_cons_of_neg (ne_true_of_eq_false hclose)]
  have hmany : (Regex.many 1 isIpV6Char).firstMatch (x ++ ']'.toUInt8 :: t) = some ⟨x, [], ']'.toUInt8 :: t⟩ := by
    have hfirst := Regex.firstMatch_many (n := 1) (p := isIpV6Char) (s := x ++ ']'.toUInt8 :: t)
    rw [htake, hdrop] at hfirst
    exact hfirst (List.length_pos_of_ne_nil hne)
  have hzone : ((Regex.item fun c => c = '%'.toUInt8).seq (.many 1 isZoneChar)).opt.firstMatch (']'.toUInt8 :: t) =
      some ⟨[], [], ']'.toUInt8 :: t⟩ :=
    Regex.firstMatch_opt_none (Regex.allMatches_seq_eq_nil (if_neg (by decide)))
  have haddress := Regex.firstMatch_group (Regex.firstMatch_seq hmany hzone)
  have hrest := Regex.firstMatch_seq haddress (Regex.firstMatch_seq (hmark ']'.toUInt8 t) hport)
  have hall := Regex.firstMatch_seq (hmark '['.toUInt8 _) hrest
  simp only [Regex.Match.append, List.append_nil, List.nil_append, List.cons_append] at hall
  exact ⟨_, hall⟩

theorem isItAnIpV6Address_bracket (hne : x ≠ []) (hx : ∀ c ∈ x, isIpV6Char c = true) (port : UInt16) :
    isItAnIpV6Address ('['.toUInt8 :: (x ++ [']'.toUInt8])) port = some (x, port) := by
  have hport : ((Regex.item fun c => c = ':'.toUInt8).seq (Regex.many 1 isDigit).group).opt.firstMatch [] =
      some ⟨[], [[]], []⟩ := Regex.firstMatch_opt_none rfl
  obtain ⟨text, hmatch⟩ := firstMatch_bracket hne hx hport
  rw [isItAnIpV6Address, Regex.fullMatch_of_firstMatch hmatch rfl]
  rfl

theorem ofInt_natCast {n : Nat} (h : n < 2 ^ 16) : UInt16.ofInt n = UInt16.ofNat n := by
  rw [UInt16.ofInt]
  congr 1
  omega

theorem PortText.stoi_eq (p : PortText) : stoi p.digits = some (numeral p.digits : Int) := by
  have hlt := p.lt
  have hdigits := stoi_digits (t := []) p.ne_nil p.decimal (by omega) nofun
  rwa [List.append_nil] at hdigits

theorem isItAnIpV6Address_port (hne : x ≠ []) (hx : ∀ c ∈ x, isIpV6Char c = true) (p : PortText) (port : UInt16) :
    isItAnIpV6Address ('['.toUInt8 :: (x ++ ']'.toUInt8 :: ':'.toUInt8 :: p.digits)) port =
      some (x, UInt16.ofNat (numeral p.digits)) := by
  have htake : p.digits.takeWhile isDigit = p.digits := List.takeWhile_eq_self_iff.mpr p.decimal
  have hdrop : p.digits.dropWhile isDigit = [] := List.dropWhile_eq_nil_iff.mpr p.decimal
  have hmany : (Regex.many 1 isDigit).firstMatch p.digits = some ⟨p.digits, [], []⟩ := by
    have hfirst := Regex.firstMatch_many (n := 1) (p := isDigit) (s := p.digits)
    rw [htake, hdrop] at hfirst
    exact hfirst (List.length_pos_of_ne_nil p.ne_nil)
  have hitem : (Regex.item fun c => c = ':'.toUInt8).firstMatch (':'.toUInt8 :: p.digits) =
      some ⟨[':'.toUInt8], [], p.digits⟩ := Regex.firstMatch_item (decide_eq_true rfl)
  have hport := Regex.firstMatch_opt (Regex.firstMatch_seq hitem (Regex.firstMatch_group hmany)) (List.cons_ne_nil _ _)
  obtain ⟨text, hmatch⟩ := firstMatch_bracket hne hx hport
  have hlt := p.lt
  rw [isItAnIpV6Address, Regex.fullMatch_of_firstMatch hmatch rfl]
  show (if p.digits ≠ [] then _ else _) = _
  rw [if_pos p.ne_nil, p.stoi_eq]
  dsimp only
  rw [if_pos ⟨by omega, by omega⟩, ofInt_natCast hlt]

/-! ## The characters of an address -/

/-- The characters of a host. -/
def HostChar (c : UInt8) : Prop := isIpV6Char c = true ∨ c ∈ ['.'.toUInt8, '['.toUInt8, ']'.toUInt8]

instance : DecidablePred HostChar := fun _ => inferInstanceAs (Decidable (_ ∨ _))

/-- No blank, no null byte and no character that ends a part. -/
theorem HostChar.ne {c : UInt8} (h : HostChar c) :
    c ∉ defaultTrimCharList ∧ c ∉ [0, '/'.toUInt8, '@'.toUInt8, '>'.toUInt8] := by
  have hout : ∀ d ∈ defaultTrimCharList ++ [0, '/'.toUInt8, '@'.toUInt8, '>'.toUInt8], ¬HostChar d := by decide +kernel
  rw [List.forall_mem_append] at hout
  exact ⟨fun hc => hout.1 c hc h, fun hc => hout.2 c hc h⟩

theorem HostChar.le {c : UInt8} (h : HostChar c) : 46 ≤ c.toNat := by
  rcases h with h | h
  · simp only [isIpV6Char, isDigit, Bool.or_eq_true, Bool.and_eq_true, decide_eq_true_eq, UInt8.le_iff_toNat_le] at h
    rcases h with ((⟨h, -⟩ | ⟨h, -⟩) | ⟨h, -⟩) | rfl
    · exact Nat.le_trans (by decide) h
    · exact Nat.le_trans (by decide) h
    · exact Nat.le_trans (by decide) h
    · decide
  · rcases List.mem_cons.mp h with rfl | h
    · decide
    · rcases List.mem_cons.mp h with rfl | h
      · decide
      · obtain rfl := List.mem_singleton.mp h
        decide

theorem hostChar_of_isDigit {c : UInt8} (h : isDigit c = true) : HostChar c := by
  refine .inl ?_
  rw [isIpV6Char, h]
  simp

theorem Host.hostChar (hnet : net.Standard) (h : Host net) : ∀ c ∈ h.text, HostChar c := by
  cases h with
  | v4 digits addr numeric =>
    intro c hc
    rcases hnet.v4_chars numeric c hc with hdigit | rfl
    · exact hostChar_of_isDigit hdigit
    · exact .inr List.mem_cons_self
  | v6 digits addr numeric =>
    intro c hc
    rcases List.mem_cons.mp hc with rfl | hc
    · exact by decide
    · rcases List.mem_append.mp hc with hc | hc
      · rcases hnet.v6_chars numeric c hc with hchar | rfl
        · exact .inl hchar
        · exact by decide
      · obtain rfl := List.mem_singleton.mp hc
        exact by decide

theorem not_mem_v4 (hnet : net.Standard) {addr : InAddr 4} (numeric : net.inetPton x = some addr) {c : UInt8}
    (hdigit : isDigit c = false) (hdot : c ≠ '.'.toUInt8) : c ∉ x := by
  intro hmem
  rcases hnet.v4_chars numeric c hmem with h | h
  · exact absurd h (ne_true_of_eq_false hdigit)
  · exact hdot h

theorem not_mem_v6 (hnet : net.Standard) {addr : InAddr 16} (numeric : net.inetPton6 x = some addr) {c : UInt8}
    (hchar : isIpV6Char c = false) (hdot : c ≠ '.'.toUInt8) : c ∉ x := by
  intro hmem
  rcases hnet.v6_chars numeric c hmem with h | h
  · exact absurd h (ne_true_of_eq_false hchar)
  · exact hdot h

theorem isIpV6Char_of_numeric (hnet : net.Standard) {addr : InAddr 16} (numeric : net.inetPton6 x = some addr)
    (hdot : '.'.toUInt8 ∉ x) : ∀ c ∈ x, isIpV6Char c = true := by
  intro c hc
  rcases hnet.v6_chars numeric c hc with hchar | rfl
  · exact hchar
  · exact absurd hc hdot

theorem not_mem_of_hostChar (h : ∀ c ∈ s, HostChar c) {c : UInt8} (hc : ¬HostChar c) : c ∉ s :=
  fun hmem => hc (h c hmem)

/-! ## `Bof_IpAddressToSocketAddress` -/

/-- The address of a host before its protocol is set. -/
def Host.bare (cpu : CpuEndianness) (port : UInt16) : Host net → SocketAddress
  | .v4 _ addr _ =>
    { SocketAddress.reset with Protocol_S := protocolName [], IpV4Address_X := ⟨.inet, cpu.htons port, addr⟩ }
  | .v6 _ addr _ =>
    { SocketAddress.reset with
      IpV6_B := true
      Protocol_S := protocolName []
      IpV6Address_X := ⟨.inet6, cpu.htons port, 0, 0, addr⟩ }

theorem Host.setPort_bare (h : Host net) (port port' : UInt16) :
    (h.bare cpu port).setPort cpu port' = h.bare cpu port' := by
  cases h <;> rfl

theorem Host.address_eq (h : Host net) (protocol : Text) (port : UInt16) :
    { h.bare cpu port with SocketType_E := sockType protocol, Protocol_S := protocolName protocol } =
      h.address cpu protocol port := by
  cases h <;> rfl

theorem hostChar_portText (port : Option PortText) : ∀ c ∈ portText port, HostChar c := by
  cases port with
  | none => exact nofun
  | some p =>
    intro c hc
    rcases List.mem_cons.mp hc with rfl | hc
    · exact by decide
    · exact hostChar_of_isDigit (p.decimal c hc)

theorem PortText.not_mem (p : PortText) {c : UInt8} (hc : isDigit c = false) : c ∉ p.digits :=
  fun h => ne_true_of_eq_false hc (p.decimal c h)

/-- The address and the port of an IPv4 address. -/
theorem addressAndPort_v4 (port : Option PortText) (hdot : '.'.toUInt8 ∈ s) (hcolon : ':'.toUInt8 ∉ s) :
    addressAndPort (s ++ portText port) (s ++ portText port) =
      (false, s, UInt16.ofNat (portNumber port), .noError) := by
  unfold addressAndPort
  rw [isItAnIpV6Address_dot (List.mem_append_left _ hdot)]
  cases port with
  | none =>
    have hnone : rfindChar (s ++ portText none) ':'.toUInt8 = none := rfindChar_none (by simpa [portText] using hcolon)
    rw [hnone]
    simp [portText, portNumber]
  | some p =>
    have hlast : rfindChar (s ++ portText (some p)) ':'.toUInt8 = some s.length :=
      rfindChar_append s (p.not_mem (by decide))
    have hlen : (s ++ portText (some p)).length = s.length + (p.digits.length + 1) := by
      rw [List.length_append]
      rfl
    have hpos := List.length_pos_of_ne_nil p.ne_nil
    have hdrop : (s ++ portText (some p)).drop (s.length + 1) = p.digits := by
      rw [← List.drop_drop, List.drop_left]
      rfl
    have hlt := p.lt
    rw [hlast]
    dsimp only
    rw [if_neg (by omega), hdrop, p.stoi_eq]
    dsimp only
    rw [if_pos ⟨by omega, by omega⟩, List.take_left, ofInt_natCast hlt]
    rfl

/-- The address and the port of an IPv6 address in brackets. -/
theorem addressAndPort_v6 (port : Option PortText) (hne : x ≠ []) (hx : ∀ c ∈ x, isIpV6Char c = true) (t : Text) :
    addressAndPort ('['.toUInt8 :: (x ++ [']'.toUInt8]) ++ portText port) t =
      (true, x, UInt16.ofNat (portNumber port), .noError) := by
  unfold addressAndPort
  cases port with
  | none =>
    have hmatch := isItAnIpV6Address_bracket hne hx 0
    have hnil : '['.toUInt8 :: (x ++ [']'.toUInt8]) ++ portText none = '['.toUInt8 :: (x ++ [']'.toUInt8]) :=
      List.append_nil _
    rw [hnil, hmatch]
    rfl
  | some p =>
    have hmatch := isItAnIpV6Address_port hne hx p 0
    have hcons : '['.toUInt8 :: (x ++ [']'.toUInt8]) ++ portText (some p) =
        '['.toUInt8 :: (x ++ ']'.toUInt8 :: ':'.toUInt8 :: p.digits) := by
      simp [portText]
    rw [hcons, hmatch]
    rfl

theorem splitProtocol_of_free (h : '/'.toUInt8 ∉ s) : splitProtocol s = (.unknown, [], s) := by
  have hslash : '/'.toUInt8 ∈ endOfProtocol := by decide
  rw [splitProtocol, find_none hslash h]

/-- A host with or without a port, where an IPv6 address has no dot. -/
theorem ipAddressToSocketAddress_host (hnet : net.Standard) (h : Host net) (port : Option PortText)
    (old : SocketAddress)
    (hdot : ∀ digits addr numeric, h = .v6 digits addr numeric → '.'.toUInt8 ∉ digits) :
    ipAddressToSocketAddress net cpu (h.text ++ portText port) old =
      (h.bare cpu (UInt16.ofNat (portNumber port)), .noError) := by
  have hchars : ∀ c ∈ h.text ++ portText port, HostChar c := by
    intro c hc
    rcases List.mem_append.mp hc with hc | hc
    · exact h.hostChar hnet c hc
    · exact hostChar_portText port c hc
  have htrim : stringTrim (h.text ++ portText port) = h.text ++ portText port :=
    stringTrim_of_free fun c hc => (hchars c hc).ne.1
  rw [ipAddressToSocketAddress, htrim]
  dsimp only
  cases h with
  | v4 digits addr numeric =>
    have hmem := hnet.v4_dot numeric
    have hcolon : ':'.toUInt8 ∉ digits := not_mem_v4 hnet numeric (by decide) (by decide)
    have hhost := Host.hostChar hnet (.v4 digits addr numeric)
    have hne : digits ≠ [] := List.ne_nil_of_mem hmem
    have hzero : (0 : UInt8) ∉ digits := not_mem_of_hostChar hhost (by decide)
    have hslash : '/'.toUInt8 ∉ digits := not_mem_of_hostChar hhost (by decide)
    have htext : (Host.v4 digits addr numeric).text ++ portText port ≠ [] := List.append_ne_nil_of_left_ne_nil hne _
    rw [if_pos htext]
    rw [Host.text, addressAndPort_v4 port hmem hcolon]
    dsimp only
    rw [if_pos ⟨rfl, hne⟩, splitProtocol_of_free hslash]
    dsimp only
    rw [if_neg Bool.false_ne_true, cStr_eq hzero, numeric]
    rfl
  | v6 digits addr numeric =>
    have hfree := hdot digits addr numeric rfl
    have hx := isIpV6Char_of_numeric hnet numeric hfree
    have hne : digits ≠ [] := List.ne_nil_of_mem (hnet.v6_colon numeric)
    have hhost : ∀ c ∈ digits, HostChar c := fun c hc => .inl (hx c hc)
    have hzero : (0 : UInt8) ∉ digits := not_mem_of_hostChar hhost (by decide)
    have hslash : '/'.toUInt8 ∉ digits := not_mem_of_hostChar hhost (by decide)
    have htext : (Host.v6 digits addr numeric).text ++ portText port ≠ [] :=
      List.append_ne_nil_of_left_ne_nil (List.cons_ne_nil _ _) _
    rw [if_pos htext]
    rw [Host.text, addressAndPort_v6 port hne hx]
    dsimp only
    rw [if_pos ⟨rfl, hne⟩, splitProtocol_of_free hslash]
    dsimp only
    rw [if_pos rfl, cStr_eq hzero, numeric]
    rfl

theorem addressAndPort_dot (hdot : '.'.toUInt8 ∈ s) (t : Text) : (addressAndPort s t).1 = false := by
  unfold addressAndPort
  rw [isItAnIpV6Address_dot hdot]
  dsimp only
  split
  · rfl
  · split
    · rfl
    · split
      · split <;> rfl
      · rfl

@[simp] theorem setPort_ipV6 (a : SocketAddress) (port : UInt16) : (a.setPort cpu port).IpV6_B = a.IpV6_B := by
  unfold SocketAddress.setPort
  split <;> rfl

/-- A text with a dot is not taken for an IPv6 address. -/
theorem ipAddressToSocketAddress_dot (hdot : '.'.toUInt8 ∈ s) (hold : old.IpV6_B = false) :
    (ipAddressToSocketAddress net cpu s old).1.IpV6_B = false := by
  have hfamily := addressAndPort_dot hdot (stringTrim s)
  unfold ipAddressToSocketAddress
  dsimp only
  rw [hfamily]
  split
  · split
    · rw [if_neg Bool.false_ne_true]
      split <;> simp
    · exact hold
  · exact hold

end IpAddress

end BofStd

/-!
# Addresses as texts: what `Bof_SplitIpAddress` gives back

`ParseIpAddress` takes the first colon behind the credentials for the one in front of the port
(`splitAuthority_credentials`), and without credentials the last colon (`splitAuthority_none`,
`splitAuthority_bracket_port`, `splitAuthority_bracket`). For an IPv4 host both are the same.
-/

namespace BofStd

open StdString

namespace StdString

variable {a b s : Text} {c : UInt8} {n : Nat}

/-- Behind a text without the character. -/
theorem findChar_skip (h : c ∉ a) (b : Text) : findChar (a ++ b) c 0 = (findChar b c 0).map (a.length + ·) := by
  have hnone : (a.findIdx? fun d => d = c) = none :=
    List.findIdx?_eq_none_iff.mpr fun d hd => decide_eq_false fun heq => h (heq ▸ hd)
  rw [findChar, findChar, List.drop_zero, List.drop_zero, List.findIdx?_append, hnone, Option.none_or, Option.map_map,
    Option.map_map]
  congr 1
  funext i
  show 0 + (i + a.length) = a.length + (0 + i)
  omega

theorem findChar_eq_none (h : findChar s c 0 = none) : c ∉ s := by
  rw [findChar, List.drop_zero, Option.map_eq_none_iff, List.findIdx?_eq_none_iff] at h
  exact fun hmem => absurd rfl (of_decide_eq_false (h c hmem))

theorem sizeSub_add (i k : Nat) : sizeSub (i + k) i = k := by
  rw [sizeSub, if_pos (Nat.le_add_right i k), Nat.add_sub_cancel_left]

end StdString

namespace IpAddress

variable {net : Network} {cpu : CpuEndianness} {s x user password address protocol : Text} {port : Option PortText}
  {pos : Option Nat}

/-! ## The authority -/

theorem credentials_ne (c : Credentials) {d : UInt8} (hd : d ∈ delimiters) :
    d ∉ c.user ∧ ∀ password, c.password = some password → d ∉ password := by
  refine ⟨fun h => c.free d (List.mem_append_left _ h) hd, fun password hp h => ?_⟩
  refine c.free d (List.mem_append_right _ ?_) hd
  rw [hp]
  exact h

/-- What is behind the credentials: up to the first colon. -/
theorem substr_address (front s : Text) :
    (match (findChar s ':'.toUInt8 0).map (front.length + 1 + ·) with
      | some pos => substr (front ++ '@'.toUInt8 :: s) (front.length + 1) (sizeSub (sizeSub pos front.length) 1)
      | none => substr (front ++ '@'.toUInt8 :: s) (front.length + 1) (front ++ '@'.toUInt8 :: s).length) =
    some (match findChar s ':'.toUInt8 0 with
      | some k => s.take k
      | none => s) := by
  have hsplit : front ++ '@'.toUInt8 :: s = (front ++ ['@'.toUInt8]) ++ s := by simp
  have hlen : (front ++ ['@'.toUInt8]).length = front.length + 1 := List.length_append
  rw [hsplit, ← hlen]
  cases hfind : findChar s ':'.toUInt8 0 with
  | none => exact substr_right (front ++ ['@'.toUInt8]) s (by simp; omega)
  | some k =>
    have hk : sizeSub (sizeSub ((front ++ ['@'.toUInt8]).length + k) front.length) 1 = k := by
      rw [hlen, Nat.add_assoc, sizeSub_add, sizeSub_add]
    show substr _ _ (sizeSub (sizeSub _ _) 1) = _
    rw [hk, substr, if_pos (by simp), List.drop_left]

/-- A character that is in neither of two texts and is not the one between them. -/
theorem not_mem_join {a b : Text} {c d : UInt8} (ha : c ∉ a) (hd : c ≠ d) (hb : c ∉ b) : c ∉ a ++ d :: b := by
  intro h
  rcases List.mem_append.mp h with h | h
  · exact ha h
  · rcases List.mem_cons.mp h with h | h
    · exact hd h
    · exact hb h

/-- A user without a password. -/
theorem splitAuthority_user (hat : '@'.toUInt8 ∉ user) (hcolon : ':'.toUInt8 ∉ user) (s : Text) :
    splitAuthority (user ++ '@'.toUInt8 :: s) = some (user, [],
      (match findChar s ':'.toUInt8 0 with
        | some k => s.take k
        | none => s), (findChar s ':'.toUInt8 0).map (user.length + 1 + ·)) := by
  have haddress := substr_address user s
  have hfirst : findChar (user ++ '@'.toUInt8 :: s) ':'.toUInt8 0 =
      (findChar s ':'.toUInt8 0).map (user.length + 1 + ·) := by
    have hfind := findChar_skip (not_mem_join hcolon (d := '@'.toUInt8) (by decide) (List.not_mem_nil)) s
    rwa [List.append_assoc, List.length_append] at hfind
  have huser : substr (user ++ '@'.toUInt8 :: s) 0 user.length = some user := substr_left user _
  rw [splitAuthority, findChar_append hat, hfirst]
  cases hfind : findChar s ':'.toUInt8 0 with
  | none =>
    have hlast : ':'.toUInt8 ∉ user ++ '@'.toUInt8 :: s := not_mem_join hcolon (by decide) (findChar_eq_none hfind)
    rw [hfind] at haddress
    rw [rfindChar_none hlast]
    dsimp only [Option.map_none] at haddress ⊢
    cases rfindChar (user ++ '@'.toUInt8 :: s) ']'.toUInt8 with
    | none => simp only [huser, haddress, Option.map_some, Option.bind_eq_bind, Option.bind_some, Option.pure_def]
    | some posEndBracket =>
      simp only [huser, haddress, Option.map_some, Option.bind_eq_bind, Option.bind_some, Option.pure_def]
  | some k =>
    rw [hfind] at haddress
    dsimp only [Option.map_some] at haddress ⊢
    -- the colon is behind the at sign, and so it is not the one of a password
    rw [if_neg (by omega)]
    simp only [huser, haddress, Option.map_some, Option.bind_eq_bind, Option.bind_some, Option.pure_def]

/-- A user with a password. -/
theorem splitAuthority_password (hatUser : '@'.toUInt8 ∉ user) (hcolonUser : ':'.toUInt8 ∉ user)
    (hatPassword : '@'.toUInt8 ∉ password) (hcolonPassword : ':'.toUInt8 ∉ password) (s : Text) :
    splitAuthority ((user ++ ':'.toUInt8 :: password) ++ '@'.toUInt8 :: s) = some (user, password,
      (match findChar s ':'.toUInt8 0 with
        | some k => s.take k
        | none => s), (findChar s ':'.toUInt8 0).map ((user ++ ':'.toUInt8 :: password).length + 1 + ·)) := by
  have haddress := substr_address (user ++ ':'.toUInt8 :: password) s
  have hat : '@'.toUInt8 ∉ user ++ ':'.toUInt8 :: password := not_mem_join hatUser (by decide) hatPassword
  have hfirst : findChar ((user ++ ':'.toUInt8 :: password) ++ '@'.toUInt8 :: s) ':'.toUInt8 0 = some user.length := by
    rw [List.append_assoc]
    exact findChar_append hcolonUser _
  have hfront : (user ++ [':'.toUInt8]).length = user.length + 1 := List.length_append
  have hsecond : findChar ((user ++ ':'.toUInt8 :: password) ++ '@'.toUInt8 :: s) ':'.toUInt8 (user.length + 1) =
      (findChar s ':'.toUInt8 0).map ((user ++ ':'.toUInt8 :: password).length + 1 + ·) := by
    have hskip : ':'.toUInt8 ∉ password ++ ['@'.toUInt8] :=
      not_mem_join hcolonPassword (by decide) (List.not_mem_nil)
    have hsplit : (user ++ ':'.toUInt8 :: password) ++ '@'.toUInt8 :: s =
        (user ++ [':'.toUInt8]) ++ ((password ++ ['@'.toUInt8]) ++ s) := by simp
    rw [hsplit, ← hfront, findChar_behind, findChar_skip hskip, Option.map_map]
    congr 1
    funext k
    simp only [Function.comp_apply, List.length_append, List.length_cons, List.length_nil]
    omega
  have huser : substr ((user ++ ':'.toUInt8 :: password) ++ '@'.toUInt8 :: s) 0 user.length = some user := by
    rw [List.append_assoc]
    exact substr_left user _
  have hpassword : substr ((user ++ ':'.toUInt8 :: password) ++ '@'.toUInt8 :: s) (user.length + 1)
      (sizeSub (sizeSub (user ++ ':'.toUInt8 :: password).length user.length) 1) = some password := by
    have hsize : sizeSub (sizeSub (user ++ ':'.toUInt8 :: password).length user.length) 1 = password.length := by
      rw [List.length_append, List.length_cons, sizeSub_add, Nat.add_comm, sizeSub_add]
    have hsplit : (user ++ ':'.toUInt8 :: password) ++ '@'.toUInt8 :: s =
        (user ++ [':'.toUInt8]) ++ (password ++ '@'.toUInt8 :: s) := by simp
    rw [hsize, hsplit, ← hfront]
    exact substr_middle _ _ _
  rw [splitAuthority, findChar_append hat, hfirst]
  dsimp only
  rw [if_pos (by simp), hsecond]
  dsimp only
  rw [huser, hpassword]
  cases hfind : findChar s ':'.toUInt8 0 with
  | none =>
    rw [hfind] at haddress
    dsimp only [Option.map_none] at haddress ⊢
    simp only [haddress, Option.bind_eq_bind, Option.bind_some, Option.pure_def]
  | some k =>
    rw [hfind] at haddress
    dsimp only [Option.map_some] at haddress ⊢
    simp only [haddress, Option.bind_eq_bind, Option.bind_some, Option.pure_def]

/-- With credentials. -/
theorem splitAuthority_credentials (c : Credentials) (s : Text) :
    splitAuthority (c.text ++ s) = some (c.user, c.password.getD [],
      (match findChar s ':'.toUInt8 0 with
        | some k => s.take k
        | none => s), (findChar s ':'.toUInt8 0).map (c.text.length + ·)) := by
  obtain ⟨hatUser, hatPassword⟩ := credentials_ne c (d := '@'.toUInt8) (by decide)
  obtain ⟨hcolonUser, hcolonPassword⟩ := credentials_ne c (d := ':'.toUInt8) (by decide)
  obtain ⟨user, password, free⟩ := c
  cases password with
  | none =>
    have htext : Credentials.text ⟨user, none, free⟩ = user ++ ['@'.toUInt8] := by simp [Credentials.text]
    rw [htext, List.append_assoc, List.length_append]
    exact splitAuthority_user hatUser hcolonUser s
  | some password =>
    have htext : Credentials.text ⟨user, some password, free⟩ = (user ++ ':'.toUInt8 :: password) ++ ['@'.toUInt8] :=
      rfl
    rw [htext, List.append_assoc, List.length_append]
    exact splitAuthority_password hatUser hcolonUser (hatPassword password rfl) (hcolonPassword password rfl) s

/-- Without credentials the last colon counts, unless it is in front of the last closing bracket. -/
theorem splitAuthority_none (hat : '@'.toUInt8 ∉ s) (hbracket : ']'.toUInt8 ∉ s) (hcolon : ':'.toUInt8 ∉ s)
    (port : Option PortText) :
    splitAuthority (s ++ portText port) = some ([], [], s, port.map fun _ => s.length) := by
  have hchars := hostChar_portText port
  have hatPort : '@'.toUInt8 ∉ s ++ portText port := by
    rw [List.mem_append, not_or]
    exact ⟨hat, not_mem_of_hostChar hchars (by decide)⟩
  rw [splitAuthority, findChar_none hatPort]
  dsimp only
  cases port with
  | none =>
    have hnil : s ++ portText none = s := List.append_nil s
    rw [hnil, rfindChar_none hcolon]
    rfl
  | some p =>
    have hlast : rfindChar (s ++ portText (some p)) ':'.toUInt8 = some s.length :=
      rfindChar_append s (p.not_mem (by decide))
    have hnone : rfindChar (s ++ portText (some p)) ']'.toUInt8 = none :=
      rfindChar_none (not_mem_join hbracket (by decide) (p.not_mem (by decide)))
    rw [hlast, hnone]
    dsimp only
    rw [if_pos (.inl rfl), substr_left]
    rfl

/-- An address in brackets with a port. -/
theorem splitAuthority_bracket_port (hat : '@'.toUInt8 ∉ x) (p : PortText) :
    splitAuthority ('['.toUInt8 :: (x ++ [']'.toUInt8]) ++ portText (some p)) =
      some ([], [], '['.toUInt8 :: (x ++ [']'.toUInt8]), some (x.length + 2)) := by
  have hlen : ('['.toUInt8 :: (x ++ [']'.toUInt8])).length = x.length + 2 := by simp
  have hatText : '@'.toUInt8 ∉ '['.toUInt8 :: (x ++ [']'.toUInt8]) ++ portText (some p) := by
    refine not_mem_join ?_ (by decide) (p.not_mem (by decide))
    rw [List.mem_cons, not_or]
    exact ⟨by decide, not_mem_join hat (by decide) List.not_mem_nil⟩
  have hlast : rfindChar ('['.toUInt8 :: (x ++ [']'.toUInt8]) ++ portText (some p)) ':'.toUInt8 =
      some (x.length + 2) := by
    rw [← hlen]
    exact rfindChar_append _ (p.not_mem (by decide))
  have hbracket : rfindChar ('['.toUInt8 :: (x ++ [']'.toUInt8]) ++ portText (some p)) ']'.toUInt8 =
      some (x.length + 1) := by
    have hsplit : '['.toUInt8 :: (x ++ [']'.toUInt8]) ++ portText (some p) =
        ('['.toUInt8 :: x) ++ ']'.toUInt8 :: portText (some p) := by simp
    have hport : ']'.toUInt8 ∉ portText (some p) := not_mem_join List.not_mem_nil (by decide) (p.not_mem (by decide))
    rw [hsplit, rfindChar_append _ hport]
    rfl
  rw [splitAuthority, findChar_none hatText, hlast, hbracket]
  dsimp only
  rw [if_pos (.inr (by simp)), ← hlen, substr_left]
  rfl

/-- The text behind the last colon. -/
theorem exists_lastGroup (h : ':'.toUInt8 ∈ x) :
    ∃ pre, x = pre ++ ':'.toUInt8 :: x.rtakeWhile fun c => c ≠ ':'.toUInt8 := by
  induction x using List.reverseRecOn with
  | nil => exact absurd h List.not_mem_nil
  | append_singleton x c ih =>
    by_cases hc : c = ':'.toUInt8
    · refine ⟨x, ?_⟩
      rw [List.rtakeWhile_concat, if_neg (by simp [hc]), hc]
    · have hx : ':'.toUInt8 ∈ x := by
        rcases List.mem_append.mp h with h | h
        · exact h
        · exact absurd (List.mem_singleton.mp h).symm hc
      obtain ⟨pre, hpre⟩ := ih hx
      refine ⟨pre, ?_⟩
      rw [List.rtakeWhile_concat, if_pos (by simp [hc])]
      conv_lhs => rw [hpre]
      simp

/-- An address in brackets without a port: the last colon is one of the address, and it is taken for the one of the
port. -/
theorem splitAuthority_bracket (hat : '@'.toUInt8 ∉ x) (hcolon : ':'.toUInt8 ∈ x) :
    ∃ pre, x = pre ++ ':'.toUInt8 :: (x.rtakeWhile fun c => c ≠ ':'.toUInt8) ∧
      splitAuthority ('['.toUInt8 :: (x ++ [']'.toUInt8])) =
        some ([], [], '['.toUInt8 :: (x ++ [']'.toUInt8]), some (pre.length + 1)) := by
  obtain ⟨pre, hpre⟩ := exists_lastGroup hcolon
  have hgroup : ':'.toUInt8 ∉ x.rtakeWhile fun c => c ≠ ':'.toUInt8 := by
    intro h
    have hne := List.mem_rtakeWhile_imp h
    exact absurd rfl (of_decide_eq_true hne)
  have hatText : '@'.toUInt8 ∉ '['.toUInt8 :: (x ++ [']'.toUInt8]) := by
    rw [List.mem_cons, not_or]
    exact ⟨by decide, not_mem_join hat (by decide) List.not_mem_nil⟩
  have hlast : rfindChar ('['.toUInt8 :: (x ++ [']'.toUInt8])) ':'.toUInt8 = some (pre.length + 1) := by
    have hsplit : '['.toUInt8 :: (x ++ [']'.toUInt8]) =
        ('['.toUInt8 :: pre) ++ ':'.toUInt8 :: ((x.rtakeWhile fun c => c ≠ ':'.toUInt8) ++ [']'.toUInt8]) := by
      conv_lhs => rw [hpre]
      simp
    rw [hsplit, rfindChar_append _ (not_mem_join hgroup (by decide) List.not_mem_nil)]
    rfl
  have hbracket : rfindChar ('['.toUInt8 :: (x ++ [']'.toUInt8])) ']'.toUInt8 = some (x.length + 1) :=
    rfindChar_append ('['.toUInt8 :: x) List.not_mem_nil
  have hlt : pre.length < x.length := by
    have hlen := congrArg List.length hpre
    rw [List.length_append, List.length_cons] at hlen
    omega
  refine ⟨pre, hpre, ?_⟩
  rw [splitAuthority, findChar_none hatText, hlast, hbracket]
  dsimp only
  rw [if_neg]
  simp only [reduceCtorEq, Option.any_some, decide_eq_true_eq, false_or]
  omega

end IpAddress

end BofStd
