import BofStd.SplitUri
import BofStd.Proofs.IpAddressProofs
import BofStd.Proofs.BofUriPathProofs
import BofStd.Proofs.BofUriQueryProofs

/-!
# What `Bof_SplitUri` cuts

Each part of the expression takes a front of the text. What a component prints is cut again at the same places
(`splitUri_print`), but for a password without a user, which is not printed, and for an address with the port 0, which
is not looked up again.
-/

namespace BofStd.SplitUri

open IpAddress StdString Escapes
open BofUri (Marked)

variable {net : Network} {cpu : CpuEndianness} {p : UInt8 → Bool} {s t a b uri host port path query fragment : Text}
  {c x : UInt8} {r : Text × Text}

/-! ## Runs -/

/-- A text of characters of a class and of escapes. -/
abbrev IsRun (p : UInt8 → Bool) (s : Text) : Prop := Escaped p '%'.toUInt8 isHexDigit s

theorem run_spec (p : UInt8 → Bool) (s : Text) : (run p s).1 ++ (run p s).2 = s ∧ IsRun p (run p s).1 :=
  Escapes.run_spec p '%'.toUInt8 isHexDigit s

/-- The text ends, or one of the characters `stops` follows. -/
def Ends (stops : List UInt8) (t : Text) : Prop := ∀ c, t.head? = some c → c ∈ stops

theorem ends_nil (stops : List UInt8) : Ends stops [] := nofun

theorem ends_cons {stops : List UInt8} (h : c ∈ stops) (t : Text) : Ends stops (c :: t) := fun _ hd =>
  Option.some.inj hd ▸ h

theorem Ends.mono {stops stops' : List UInt8} (h : Ends stops t) (hsub : ∀ c ∈ stops, c ∈ stops') : Ends stops' t :=
  fun c hc => hsub c (h c hc)

theorem run_append {stops : List UInt8} (hs : IsRun p s) (ht : Ends stops t)
    (hstops : ∀ c ∈ stops, p c = false ∧ c ≠ '%'.toUInt8) (hmark : p '%'.toUInt8 = false) :
    run p (s ++ t) = (s, t) :=
  Escapes.run_append hmark hs fun c hc => hstops c (ht c hc)

theorem IsRun.notMem (hs : IsRun p s) (hp : p x = false) (hx : x ≠ '%'.toUInt8) (hhex : isHexDigit x = false) :
    x ∉ s := by
  intro hmem
  rcases hs.mem hmem with h | h | h
  · exact ne_true_of_eq_false hp h
  · exact hx h
  · exact ne_true_of_eq_false hhex h

theorem IsRun.mono {p' : UInt8 → Bool} (hs : IsRun p s) (hp : ∀ c, p c = true → p' c = true) : IsRun p' s := by
  induction hs with
  | nil => exact .nil
  | item hc _ ih => exact .item (hp _ hc) ih
  | escape hx hy _ ih => exact .escape hx hy ih

/-! ## A part behind a mark -/

theorem markedPart_mark (mark : UInt8) (p : UInt8 → Bool) (s : Text) :
    markedPart mark p (mark :: s) = (mark :: (run p s).1, (run p s).2) := if_pos rfl

theorem markedPart_of_ne {mark : UInt8} (h : c ≠ mark) (p : UInt8 → Bool) (s : Text) :
    markedPart mark p (c :: s) = ([], c :: s) := if_neg h

theorem markedPart_spec (mark : UInt8) (p : UInt8 → Bool) (s : Text) :
    ∃ part, Marked mark (markedPart mark p s).1 part ∧ (markedPart mark p s).1.drop 1 = part ∧ IsRun p part ∧
      (markedPart mark p s).1 ++ (markedPart mark p s).2 = s := by
  cases s with
  | nil => exact ⟨[], .inr ⟨rfl, rfl⟩, rfl, .nil, rfl⟩
  | cons c s =>
    obtain ⟨happend, hrun⟩ := run_spec p s
    by_cases hc : c = mark
    · subst hc
      rw [markedPart_mark]
      exact ⟨_, .inl rfl, rfl, hrun, congrArg (c :: ·) happend⟩
    · rw [markedPart_of_ne hc]
      exact ⟨[], .inr ⟨rfl, rfl⟩, rfl, .nil, rfl⟩

theorem markedPart_append {mark : UInt8} {printed part : Text} {stops : List UInt8} (h : Marked mark printed part)
    (hpart : IsRun p part) (ht : Ends stops t) (hstops : ∀ c ∈ stops, p c = false ∧ c ≠ '%'.toUInt8)
    (hmark : p '%'.toUInt8 = false) (hne : mark ∉ stops) : markedPart mark p (printed ++ t) = (printed, t) := by
  rcases h with rfl | ⟨rfl, rfl⟩
  · rw [List.cons_append, markedPart_mark, run_append hpart ht hstops hmark]
  · cases t with
    | nil => rfl
    | cons c t =>
      refine markedPart_of_ne ?_ p t
      rintro rfl
      exact hne (ht c rfl)

/-- A rooted path, or none. -/
theorem markedPart_slash (h : Ends ['/'.toUInt8, '?'.toUInt8, '#'.toUInt8] s) :
    markedPart '/'.toUInt8 isPathChar s = run isPathChar s := by
  cases s with
  | nil => rfl
  | cons c s =>
    have hc := h c rfl
    rw [List.mem_cons, List.mem_cons, List.mem_singleton] at hc
    rcases hc with rfl | rfl | rfl
    · exact (markedPart_mark _ _ s).trans (run_item (p := isPathChar) (by decide) s).symm
    · exact (markedPart_of_ne (by decide) _ s).trans (run_stop (p := isPathChar) (by decide) (by decide) s).symm
    · exact (markedPart_of_ne (by decide) _ s).trans (run_stop (p := isPathChar) (by decide) (by decide) s).symm

/-! ## What is behind the authority -/

theorem queryAndFragment_spec (h : queryAndFragment s = some (query, fragment)) :
    IsRun isQueryChar query ∧ IsRun isQueryChar fragment ∧ ∃ printedQuery printedFragment,
      s = printedQuery ++ printedFragment ∧ Marked '?'.toUInt8 printedQuery query ∧
        Marked '#'.toUInt8 printedFragment fragment := by
  obtain ⟨q, hmarked, hq, hquery, hrestQuery⟩ := markedPart_spec '?'.toUInt8 isQueryChar s
  obtain ⟨f, hmarked', hf, hfragment, hrestFragment⟩ :=
    markedPart_spec '#'.toUInt8 isQueryChar (markedPart '?'.toUInt8 isQueryChar s).2
  unfold queryAndFragment at h
  dsimp only at h
  split at h
  · rename_i hend
    obtain ⟨rfl, rfl⟩ := Prod.mk.inj (Option.some.inj h)
    rw [hend, List.append_nil] at hrestFragment
    refine ⟨hq ▸ hquery, hf ▸ hfragment, _, _, ?_, hq ▸ hmarked, hf ▸ hmarked'⟩
    rw [hrestFragment, hrestQuery]
  · exact nomatch h

/-- The path, the query and the fragment. -/
def behind (s : Text) : Option (Text × Text × Text) :=
  (queryAndFragment (run isPathChar s).2).map fun r => ((run isPathChar s).1, r)

theorem behind_spec (h : behind s = some (path, query, fragment)) : IsRun isPathChar path ∧ IsRun isQueryChar query ∧
    ∃ printedQuery printedFragment, s = path ++ (printedQuery ++ printedFragment) ∧
      Marked '?'.toUInt8 printedQuery query ∧ Marked '#'.toUInt8 printedFragment fragment := by
  obtain ⟨⟨q, f⟩, hrest, heq⟩ := Option.map_eq_some_iff.mp h
  obtain ⟨hp, heq⟩ := Prod.mk.inj heq
  obtain ⟨rfl, rfl⟩ := Prod.mk.inj heq
  obtain ⟨happend, hpath⟩ := run_spec isPathChar s
  obtain ⟨hquery, -, printedQuery, printedFragment, hsplit, hmarked, hmarked'⟩ := queryAndFragment_spec hrest
  rw [hp] at happend hpath
  exact ⟨hpath, hquery, printedQuery, printedFragment, hsplit ▸ happend.symm, hmarked, hmarked'⟩

theorem ends_marked {printedQuery printedFragment : Text} (hquery : Marked '?'.toUInt8 printedQuery query)
    (hfragment : Marked '#'.toUInt8 printedFragment fragment) :
    Ends ['?'.toUInt8, '#'.toUInt8] (printedQuery ++ printedFragment) := by
  rcases hquery with rfl | ⟨rfl, -⟩
  · exact ends_cons (by decide) _
  · rcases hfragment with rfl | ⟨rfl, -⟩
    · exact ends_cons (by decide) _
    · exact ends_nil _

theorem behind_append {printedQuery printedFragment : Text} (hpath : IsRun isPathChar path)
    (hquery : IsRun isQueryChar query) (hfragment : IsRun isQueryChar fragment)
    (hmarked : Marked '?'.toUInt8 printedQuery query) (hmarked' : Marked '#'.toUInt8 printedFragment fragment) :
    behind (path ++ (printedQuery ++ printedFragment)) = some (path, query, fragment) := by
  have hdrop : ∀ {mark : UInt8} {printed part : Text}, Marked mark printed part → printed.drop 1 = part := by
    rintro mark printed part (rfl | ⟨rfl, rfl⟩)
    · rfl
    · rfl
  have hends : Ends ['#'.toUInt8] printedFragment := by
    rcases hmarked' with rfl | ⟨rfl, -⟩
    · exact ends_cons (by decide) _
    · exact ends_nil _
  have hlast := markedPart_append hmarked' hfragment (ends_nil []) (fun c hc => nomatch hc) (by decide) List.not_mem_nil
  rw [List.append_nil] at hlast
  have hstopsPath : ∀ c ∈ ['?'.toUInt8, '#'.toUInt8], isPathChar c = false ∧ c ≠ '%'.toUInt8 :=
      List.all_iff_forall_prop.mp (by decide)
  have hstopsQuery : ∀ c ∈ ['#'.toUInt8], isQueryChar c = false ∧ c ≠ '%'.toUInt8 :=
      List.all_iff_forall_prop.mp (by decide)
  unfold behind queryAndFragment
  rw [run_append hpath (ends_marked hmarked hmarked') hstopsPath (by decide)]
  dsimp only
  rw [markedPart_append hmarked hquery hends hstopsQuery (by decide) (by decide)]
  dsimp only
  rw [hlast]
  dsimp only
  rw [if_pos rfl, hdrop hmarked, hdrop hmarked']
  rfl

/-! ## The host -/

/-- An address in brackets, or a name. -/
def IsHost (host : Text) : Prop :=
  (∃ digits, host = '['.toUInt8 :: (digits ++ [']'.toUInt8]) ∧ 2 ≤ digits.length ∧
    ∀ c ∈ digits, isAddressChar c = true) ∨ IsRun isHostChar host

theorem bracketPart_spec (h : bracketPart s = some r) : r.1 ++ r.2 = s ∧ IsHost r.1 := by
  cases s with
  | nil => exact nomatch h
  | cons c s =>
    unfold bracketPart at h
    dsimp only at h
    split at h
    · rename_i d rest hdrop
      split at h
      · rename_i hcond
        obtain ⟨rfl, hlen, rfl⟩ := hcond
        obtain rfl := Option.some.inj h
        constructor
        · rw [List.cons_append, List.append_assoc, List.singleton_append, ← hdrop, List.takeWhile_append_dropWhile]
        · exact .inl ⟨_, rfl, hlen, fun c hc => List.mem_takeWhile_imp hc⟩
      · exact nomatch h
    · exact nomatch h

theorem hostPart_spec (s : Text) : (hostPart s).1 ++ (hostPart s).2 = s ∧ IsHost (hostPart s).1 := by
  unfold hostPart
  cases h : bracketPart s with
  | some r => exact bracketPart_spec h
  | none =>
    obtain ⟨happend, hrun⟩ := run_spec isHostChar s
    exact ⟨happend, .inr hrun⟩

/-- What follows a host. -/
def afterHost : List UInt8 := [':'.toUInt8, '/'.toUInt8, '?'.toUInt8, '#'.toUInt8]

theorem hostPart_append (hhost : IsHost host) (ht : Ends afterHost t) : hostPart (host ++ t) = (host, t) := by
  rcases hhost with ⟨digits, rfl, hlen, hdigits⟩ | hrun
  · have hbracket : bracketPart ('['.toUInt8 :: (digits ++ [']'.toUInt8]) ++ t) =
        some ('['.toUInt8 :: (digits ++ [']'.toUInt8]), t) := by
      have hclose : ¬isAddressChar ']'.toUInt8 = true := by decide
      rw [List.cons_append, List.append_assoc, List.singleton_append, bracketPart,
        List.takeWhile_append_of_pos hdigits, List.dropWhile_append_of_pos hdigits,
        List.takeWhile_cons_of_neg hclose, List.dropWhile_cons_of_neg hclose, List.append_nil]
      exact if_pos ⟨rfl, hlen, rfl⟩
    rw [hostPart, hbracket]
    rfl
  · have hstops : ∀ c ∈ afterHost, isHostChar c = false ∧ c ≠ '%'.toUInt8 :=
      List.all_iff_forall_prop.mp (by decide)
    have hbracket : bracketPart (host ++ t) = none := by
      cases hs : host ++ t with
      | nil => rfl
      | cons c s =>
        have hc : c ≠ '['.toUInt8 := by
          rintro rfl
          cases host with
          | nil => exact absurd (ht '['.toUInt8 (congrArg List.head? hs)) (by decide)
          | cons d host =>
            obtain ⟨rfl, -⟩ := List.cons.inj hs
            exact hrun.notMem (by decide) (by decide) (by decide) List.mem_cons_self
        unfold bracketPart
        dsimp only
        split
        · exact if_neg fun h => hc h.1
        · rfl
    rw [hostPart, hbracket, run_append hrun ht hstops (by decide)]
    rfl

/-! ## The port and the user info -/

theorem portPart_digits (hs : ∀ c ∈ s, isDigit c = true) (ht : Ends ['/'.toUInt8, '?'.toUInt8, '#'.toUInt8] t) :
    portPart (':'.toUInt8 :: (s ++ t)) = (':'.toUInt8 :: s, t) := by
  have hstops : ∀ c ∈ ['/'.toUInt8, '?'.toUInt8, '#'.toUInt8], ¬isDigit c = true :=
      List.all_iff_forall_prop.mp (by decide)
  have hnil : t.takeWhile isDigit = [] ∧ t.dropWhile isDigit = t := by
    cases t with
    | nil => exact ⟨rfl, rfl⟩
    | cons c t =>
      have hc := hstops c (ht c rfl)
      exact ⟨List.takeWhile_cons_of_neg hc, List.dropWhile_cons_of_neg hc⟩
  rw [portPart, if_pos rfl, List.takeWhile_append_of_pos hs, List.dropWhile_append_of_pos hs, hnil.1, hnil.2,
    List.append_nil]

theorem portPart_none (ht : Ends ['/'.toUInt8, '?'.toUInt8, '#'.toUInt8] t) : portPart t = ([], t) := by
  cases t with
  | nil => rfl
  | cons c t => exact if_neg fun hc => absurd (hc ▸ ht c rfl) (by decide)

theorem userPart_spec (s : Text) : (userPart s).1 = [] ∨ IsRun isUserChar (userPart s).1.dropLast := by
  unfold userPart
  split
  · rename_i userInfo c rest hrun
    have huser := (run_spec isUserChar s).2
    rw [hrun] at huser
    split
    · rw [List.dropLast_concat]
      exact .inr huser
    · exact .inl rfl
  · exact .inl rfl

theorem userPart_info (hs : IsRun isUserChar s) (t : Text) :
    userPart (s ++ '@'.toUInt8 :: t) = (s ++ ['@'.toUInt8], t) := by
  have hstops : ∀ c ∈ ['@'.toUInt8], isUserChar c = false ∧ c ≠ '%'.toUInt8 :=
      List.all_iff_forall_prop.mp (by decide)
  rw [userPart, run_append hs (ends_cons List.mem_cons_self t) hstops (by decide)]
  exact if_pos rfl

/-- There is no user info if something other than `@` stops the run. -/
theorem userPart_of_run (hrun : run isUserChar s = (a, t)) (ht : t.head? ≠ some '@'.toUInt8) : userPart s = ([], s) := by
  unfold userPart
  rw [hrun]
  cases t with
  | nil => rfl
  | cons c t => exact if_neg fun hc => ht (congrArg some hc)

theorem userPart_none (hhost : IsHost host) (hport : ∀ c ∈ port, isDigit c = true ∨ c = ':'.toUInt8)
    (ht : Ends ['/'.toUInt8, '?'.toUInt8, '#'.toUInt8] t) :
    userPart (host ++ (port ++ t)) = ([], host ++ (port ++ t)) := by
  have hat : ∀ {stops : List UInt8} {s : Text}, Ends stops s → '@'.toUInt8 ∉ stops → s.head? ≠ some '@'.toUInt8 :=
    fun h hnot heq => hnot (h _ heq)
  rcases hhost with ⟨digits, rfl, -, -⟩ | hrun
  · refine userPart_of_run (run_stop (by decide) (by decide) _) ?_
    exact fun heq => absurd (Option.some.inj heq) (by decide)
  · have hhost : IsRun isUserChar host := IsRun.mono hrun fun c hc => Bool.or_eq_true_iff.mpr (.inl hc)
    have hportRun : IsRun isUserChar port := by
      refine .of_forall fun c hc => ?_
      rcases hport c hc with hdigit | rfl
      · unfold isUserChar isHostChar
        rw [hdigit, Bool.or_true, Bool.true_or, Bool.true_or]
      · decide
    have hstops : ∀ c ∈ ['/'.toUInt8, '?'.toUInt8, '#'.toUInt8], isUserChar c = false ∧ c ≠ '%'.toUInt8 :=
      List.all_iff_forall_prop.mp (by decide)
    have htake := run_append (hhost.append hportRun) ht hstops (by decide)
    rw [List.append_assoc] at htake
    exact userPart_of_run htake (hat ht (by decide))

/-! ## The component of a text -/

/-- What is known of a component that has been cut out of a text. -/
structure IsCut (net : Network) (cpu : CpuEndianness) (c : SocketAddressComponent SocketAddress) : Prop where
  scheme : c.protocol.head?.any isLower = true
  schemeChars : ∀ d ∈ c.protocol, isSchemeChar d = true
  user : IsRun isUserChar c.user
  colon : ':'.toUInt8 ∉ c.user
  password : IsRun isUserChar c.password
  host : IsHost c.ipAddress
  noPort : c.port = 0 → c.ipAddress = [] → c.ip = .reset
  port : c.port ≠ 0 → c.ipAddress ≠ [] ∧ c.port < 2 ^ 16 ∧
    ∃ ip, hostAddress net cpu c.ipAddress .reset = some (ip, .noError) ∧ c.ip = ip.setPort cpu (UInt16.ofNat c.port)

theorem IsCut.protocol_ne_nil {c : SocketAddressComponent SocketAddress} (hc : IsCut net cpu c) : c.protocol ≠ [] := by
  intro hnil
  have hscheme := hc.scheme
  rw [hnil] at hscheme
  exact nomatch hscheme

/-- There is a user or a host. -/
def HasAuthority (c : SocketAddressComponent SocketAddress) : Prop := c.user ≠ [] ∨ c.ipAddress ≠ []

instance : DecidablePred HasAuthority := fun _ => inferInstanceAs (Decidable (_ ∨ _))

/-- The scheme, and the user info, the host and the path behind it. -/
structure IsMatch (m : UriMatch) : Prop where
  scheme : m.scheme.head?.any isLower = true
  schemeChars : ∀ d ∈ m.scheme, isSchemeChar d = true
  userInfo : IsRun isUserChar m.userInfo
  host : IsHost m.host
  authority : m.authority = [] → m.userInfo = [] ∧ m.host = []
  rootedPath : m.rootedPath = [] ∨ m.rootedPath.head? = some '/'.toUInt8
  query : IsRun isQueryChar m.query
  fragment : IsRun isQueryChar m.fragment

theorem isMatch_withAuthority {scheme : Text} {m : UriMatch} (hscheme : scheme.head?.any isLower = true)
    (hchars : ∀ d ∈ scheme, isSchemeChar d = true) (h : withAuthority scheme s = some m) : IsMatch m := by
  obtain ⟨⟨query, fragment⟩, hrest, rfl⟩ := Option.map_eq_some_iff.mp h
  obtain ⟨hquery, hfragment, -⟩ := queryAndFragment_spec hrest
  have huser : IsRun isUserChar (userPart s).1.dropLast := by
    rcases userPart_spec s with hnil | huser
    · rw [hnil]
      exact .nil
    · exact huser
  have hpath : ∀ s, (markedPart '/'.toUInt8 isPathChar s).1 = [] ∨
      (markedPart '/'.toUInt8 isPathChar s).1.head? = some '/'.toUInt8 := by
    intro s
    obtain ⟨path, hmarked | hmarked, -⟩ := markedPart_spec '/'.toUInt8 isPathChar s
    · exact .inr (congrArg List.head? hmarked)
    · exact .inl hmarked.1
  refine ⟨hscheme, hchars, huser, (hostPart_spec _).2, ?_, hpath _, hquery, hfragment⟩
  intro hnil
  obtain ⟨hfront, -⟩ := List.append_eq_nil_iff.mp hnil
  obtain ⟨huser, hhost⟩ := List.append_eq_nil_iff.mp hfront
  exact ⟨congrArg List.dropLast huser, hhost⟩

theorem isMatch_searchUri {m : UriMatch} (h : searchUri uri = some m) : IsMatch m := by
  unfold searchUri at h
  dsimp only at h
  split at h
  · rename_i first others colon rest hscheme hrest
    split at h
    · rename_i hcond
      have hfirst : (first :: others).head?.any isLower = true := hcond.1
      have hchars : ∀ d ∈ first :: others, isSchemeChar d = true := fun d hd =>
        List.mem_takeWhile_imp (hscheme.symm ▸ hd)
      rw [hscheme] at h
      split at h
      · exact isMatch_withAuthority hfirst hchars h
      · obtain ⟨⟨query, fragment⟩, hbehind, rfl⟩ := Option.map_eq_some_iff.mp h
        obtain ⟨hquery, hfragment, -⟩ := queryAndFragment_spec hbehind
        exact ⟨hfirst, hchars, .nil, .inr .nil, fun _ => ⟨rfl, rfl⟩, .inl rfl, hquery, hfragment⟩
    · exact nomatch h
  · exact nomatch h

/-- The user info is cut at the first colon. -/
theorem IsMatch.credentials {m : UriMatch} (hm : IsMatch m) : IsRun isUserChar m.component.user ∧
    IsRun isUserChar m.component.password ∧ ':'.toUInt8 ∉ m.component.user := by
  refine ⟨?_, ?_, Tokens.notMem_takeWhile_ne⟩
  all_goals
    unfold UriMatch.component
    dsimp only
    rcases Tokens.dropWhile_ne_cases ':'.toUInt8 m.userInfo with ⟨hnot, hdrop⟩ | ⟨password, hdrop, hsplit⟩
  · rw [Tokens.takeWhile_ne_of_notMem hnot]
    exact hm.userInfo
  · exact (Escaped.split (hsplit ▸ hm.userInfo) (by decide) (by decide)).1
  · rw [hdrop]
    exact .nil
  · rw [hdrop]
    exact (Escaped.split (hsplit ▸ hm.userInfo) (by decide) (by decide)).2

theorem isCut_of_resolve {m : UriMatch} {c : SocketAddressComponent SocketAddress} {digits : Text} (hm : IsMatch m)
    (h : resolve net cpu digits m.component = some (.ok c)) : IsCut net cpu c ∧ c.user = m.component.user ∧
      c.ipAddress = m.host := by
  obtain ⟨huser, hpassword, hcolon⟩ := hm.credentials
  unfold resolve at h
  split at h
  · rename_i hgiven
    split at h
    · exact nomatch h
    · rename_i n hn
      obtain ⟨⟨ip, err⟩, hip, heq⟩ := Option.map_eq_some_iff.mp h
      dsimp only at heq
      split at heq
      · rename_i herr
        subst herr
        obtain rfl := Except.ok.inj heq
        refine ⟨⟨hm.scheme, hm.schemeChars, huser, hcolon, hpassword, hm.host, fun _ hnil => absurd hnil hgiven.1, ?_⟩,
          rfl, rfl⟩
        intro _
        refine ⟨hgiven.1, (UInt16.ofInt n).toNat_lt, ip, hip, ?_⟩
        rw [UInt16.ofNat_toNat]
      · exact nomatch heq
  · obtain rfl := Except.ok.inj (Option.some.inj h)
    refine ⟨⟨hm.scheme, hm.schemeChars, huser, hcolon, hpassword, hm.host, fun _ _ => rfl, ?_⟩, rfl, rfl⟩
    exact fun hport => absurd rfl hport

/-- What is known of the parts of a URI. -/
theorem isCut_of_splitUri {c : SocketAddressComponent SocketAddress}
    (h : splitUri net cpu uri = some (.ok (c, path, query, fragment))) : IsCut net cpu c ∧
      (HasAuthority c → path = [] ∨ path.head? = some '/'.toUInt8) ∧ IsRun isQueryChar fragment := by
  unfold splitUri at h
  split at h
  · exact nomatch h
  · rename_i m hsearch
    have hm := isMatch_searchUri hsearch
    obtain ⟨res, hres, heq⟩ := Option.map_eq_some_iff.mp h
    cases res with
    | error err => exact nomatch heq
    | ok c' =>
      have hall : (c', m.pathText, m.query, m.fragment) = (c, path, query, fragment) := Except.ok.inj heq
      obtain ⟨rfl, hparts⟩ := Prod.mk.inj hall
      obtain ⟨rfl, htail⟩ := Prod.mk.inj hparts
      obtain ⟨-, rfl⟩ := Prod.mk.inj htail
      obtain ⟨hcut, huser, hhost⟩ := isCut_of_resolve hm hres
      refine ⟨hcut, fun hauth => ?_, hm.fragment⟩
      have hne : m.authority ≠ [] := by
        intro hnil
        obtain ⟨hinfo, hnoHost⟩ := hm.authority hnil
        rcases hauth with hauth | hauth
        · exact hauth (huser.trans (congrArg (List.takeWhile _) hinfo))
        · exact hauth (hhost.trans hnoHost)
      rw [UriMatch.pathText, if_neg hne]
      exact hm.rootedPath

/-! ## Decimal digits -/

open SocketAddressComponent (decimal)

theorem isDigit_digitChar : ∀ n < 10, isDigit (Nat.digitChar n).toUInt8 = true ∧
    (Nat.digitChar n).toUInt8.toNat - '0'.toNat = n := by decide

/-- The digits of a number are read back. -/
theorem decimal_spec (n : Nat) : decimal n ≠ [] ∧ (∀ c ∈ decimal n, isDigit c = true) ∧ numeral (decimal n) = n := by
  induction n using Nat.strongRecOn with
  | ind n ih =>
    by_cases hn : n < 10
    · obtain ⟨hdigit, hvalue⟩ := isDigit_digitChar n hn
      have hone : decimal n = [(Nat.digitChar n).toUInt8] := by
        rw [decimal, Nat.toDigits_of_lt_base hn, List.map_singleton]
      rw [hone]
      refine ⟨List.cons_ne_nil _ _, fun c hc => List.mem_singleton.mp hc ▸ hdigit, ?_⟩
      rw [← List.nil_append [_], numeral_concat, hvalue]
      exact Nat.zero_add n
    · obtain ⟨hne, hdigits, hvalue⟩ := ih (n / 10) (Nat.div_lt_self (by omega) (by decide))
      obtain ⟨hdigit, hlast⟩ := isDigit_digitChar _ (Nat.mod_lt n (by decide : 0 < 10))
      have hmore : decimal n = decimal (n / 10) ++ [(Nat.digitChar (n % 10)).toUInt8] := by
        rw [decimal, Nat.toDigits_of_base_le (by decide) (by omega), List.map_append, List.map_singleton]
        rfl
      rw [hmore]
      refine ⟨List.concat_ne_nil _ _, List.forall_mem_append.mpr ⟨hdigits, List.forall_mem_singleton.mpr hdigit⟩, ?_⟩
      rw [numeral_concat, hvalue, hlast]
      omega

theorem stoi_decimal {n : Nat} (h : n < 2 ^ 31) : stoi (decimal n) = some (n : Int) := by
  obtain ⟨hne, hdigits, hvalue⟩ := decimal_spec n
  have hread := stoi_digits (t := []) hne hdigits (hvalue.symm ▸ h) nofun
  rwa [List.append_nil, hvalue] at hread

/-! ## Printing a component -/

/-- The user info with the `@` behind it. -/
def credentials (c : SocketAddressComponent SocketAddress) : Text :=
  if c.user = [] then []
  else c.user ++ (if c.password = [] then [] else ':'.toUInt8 :: c.password) ++ ['@'.toUInt8]

/-- The port behind a colon. -/
def portText (c : SocketAddressComponent SocketAddress) : Text :=
  if c.port = 0 then [] else ':'.toUInt8 :: decimal c.port

theorem toString_eq {c : SocketAddressComponent SocketAddress} (hc : IsCut net cpu c) :
    c.toString true true true true =
      c.protocol ++ ':'.toUInt8 :: if HasAuthority c then
        '/'.toUInt8 :: '/'.toUInt8 :: (credentials c ++ (c.ipAddress ++ portText c)) else [] := by
  have hprotocol := hc.protocol_ne_nil
  unfold SocketAddressComponent.toString credentials
  by_cases hhost : c.ipAddress = []
  · have hport : c.port = 0 := by_contra fun hport => (hc.port hport).1 hhost
    have hnone : portText c = [] := if_pos hport
    by_cases huser : c.user = []
    · have hauth : ¬HasAuthority c := fun h => h.elim (absurd huser) (absurd hhost)
      simp [hauth, hprotocol, hhost, huser]
    · have hauth : HasAuthority c := .inl huser
      by_cases hpassword : c.password = [] <;> simp [hauth, hprotocol, hhost, huser, hpassword, hnone]
  · have hauth : HasAuthority c := .inr hhost
    unfold portText
    by_cases huser : c.user = []
    · by_cases hport : c.port = 0 <;> simp [hauth, hprotocol, hhost, huser, hport]
    · by_cases hpassword : c.password = [] <;> by_cases hport : c.port = 0 <;>
        simp [hauth, hprotocol, hhost, huser, hpassword, hport]

/-! ## Cutting what is printed -/

/-- What is read again: a password without a user is not printed, and nothing is looked up for the port 0. -/
def reread (c : SocketAddressComponent SocketAddress) : SocketAddressComponent SocketAddress :=
  { c with
    password := if c.user = [] then [] else c.password
    ip := if c.port = 0 then .reset else c.ip }

theorem searchUri_eq {scheme rest : Text} (hscheme : scheme.head?.any isLower = true)
    (hchars : ∀ d ∈ scheme, isSchemeChar d = true) : searchUri (scheme ++ ':'.toUInt8 :: rest) =
      if ['/'.toUInt8, '/'.toUInt8] <+: rest then withAuthority scheme (rest.drop 2)
      else withoutAuthority scheme rest := by
  have hcolon : ¬isSchemeChar ':'.toUInt8 = true := by decide
  unfold searchUri
  dsimp only
  rw [List.takeWhile_append_of_pos hchars, List.dropWhile_append_of_pos hchars, List.takeWhile_cons_of_neg hcolon,
    List.dropWhile_cons_of_neg hcolon, List.append_nil]
  cases scheme with
  | nil => exact nomatch hscheme
  | cons first others => exact if_pos ⟨hscheme, rfl⟩

/-- The match of a text without authority. -/
theorem withoutAuthority_eq (scheme rest : Text) : withoutAuthority scheme rest =
    (behind rest).map fun r => ⟨scheme, [], [], [], [], [], r.1, r.2.1, r.2.2⟩ := by
  unfold withoutAuthority behind
  rw [Option.map_map]
  rfl

section Print

variable {c : SocketAddressComponent SocketAddress} {rest : Text} (hc : IsCut net cpu c)
include hc

theorem userPart_print (hrest : Ends ['/'.toUInt8, '?'.toUInt8, '#'.toUInt8] rest) :
    userPart (credentials c ++ (c.ipAddress ++ (portText c ++ rest))) =
      (credentials c, c.ipAddress ++ (portText c ++ rest)) := by
  unfold credentials
  by_cases huser : c.user = []
  · rw [if_pos huser, List.nil_append]
    refine userPart_none hc.host (fun d hd => ?_) hrest
    unfold portText at hd
    split at hd
    · exact nomatch hd
    · rcases List.mem_cons.mp hd with rfl | hd
      · exact .inr rfl
      · exact .inl ((decimal_spec c.port).2.1 d hd)
  · have hinfo : IsRun isUserChar (c.user ++ if c.password = [] then [] else ':'.toUInt8 :: c.password) := by
      refine hc.user.append ?_
      split
      · exact .nil
      · exact .item (by decide) hc.password
    rw [if_neg huser, List.append_assoc _ ['@'.toUInt8], List.singleton_append]
    exact userPart_info hinfo _

theorem hostPart_print (hrest : Ends ['/'.toUInt8, '?'.toUInt8, '#'.toUInt8] rest) :
    hostPart (c.ipAddress ++ (portText c ++ rest)) = (c.ipAddress, portText c ++ rest) := by
  refine hostPart_append hc.host ?_
  unfold portText
  split
  · exact hrest.mono (List.all_iff_forall_prop.mp (by decide))
  · exact ends_cons (by decide) _

omit hc in
theorem portPart_print (hrest : Ends ['/'.toUInt8, '?'.toUInt8, '#'.toUInt8] rest) :
    portPart (portText c ++ rest) = (portText c, rest) := by
  unfold portText
  split
  · exact portPart_none hrest
  · exact portPart_digits (decimal_spec c.port).2.1 hrest

/-- The match of what a component with an authority prints. -/
theorem withAuthority_print (hrest : Ends ['/'.toUInt8, '?'.toUInt8, '#'.toUInt8] rest) :
    withAuthority c.protocol (credentials c ++ (c.ipAddress ++ (portText c ++ rest))) =
      (behind rest).map fun r => ⟨c.protocol, credentials c ++ c.ipAddress ++ portText c, (credentials c).dropLast,
        c.ipAddress, (portText c).drop 1, r.1, [], r.2.1, r.2.2⟩ := by
  unfold withAuthority behind
  rw [userPart_print hc hrest]
  dsimp only
  rw [hostPart_print hc hrest]
  dsimp only
  rw [portPart_print hrest]
  dsimp only
  rw [markedPart_slash hrest, Option.map_map]
  rfl

/-- The component of such a match before the address is looked up. -/
theorem component_print {m : UriMatch} (hscheme : m.scheme = c.protocol) (hinfo : m.userInfo = (credentials c).dropLast)
    (hhost : m.host = c.ipAddress) : m.component = { reread c with port := 0, ip := .reset } := by
  have hcut : (m.userInfo.takeWhile fun d => d ≠ ':'.toUInt8) = c.user ∧
      (m.userInfo.dropWhile fun d => d ≠ ':'.toUInt8).drop 1 = if c.user = [] then [] else c.password := by
    rw [hinfo, credentials]
    by_cases huser : c.user = []
    · rw [if_pos huser, if_pos huser, huser]
      exact ⟨rfl, rfl⟩
    · rw [if_neg huser, if_neg huser, List.dropLast_concat]
      by_cases hpassword : c.password = []
      · rw [if_pos hpassword, List.append_nil, Tokens.takeWhile_ne_of_notMem hc.colon,
          Tokens.dropWhile_ne_of_notMem hc.colon, hpassword]
        exact ⟨rfl, rfl⟩
      · rw [if_neg hpassword, Tokens.takeWhile_ne_append hc.colon, Tokens.dropWhile_ne_append hc.colon]
        exact ⟨rfl, rfl⟩
  unfold UriMatch.component reread
  rw [hcut.1, hcut.2, hscheme, hhost]

theorem resolve_print :
    resolve net cpu ((portText c).drop 1) { reread c with port := 0, ip := .reset } = some (.ok (reread c)) := by
  unfold resolve portText reread
  by_cases hport : c.port = 0
  · simp only [if_pos hport]
    rw [if_neg fun h => h.2 rfl, hport]
  · obtain ⟨hhost, hlt, ip, hip, hset⟩ := hc.port hport
    have hread : stoi (decimal c.port) = some (c.port : Int) := stoi_decimal (hlt.trans (by decide))
    have hof : UInt16.ofInt c.port = UInt16.ofNat c.port := ofInt_natCast hlt
    have hto : (UInt16.ofNat c.port).toNat = c.port := UInt16.toNat_ofNat_of_lt' hlt
    rw [if_neg hport, if_neg hport, List.drop_one, List.tail_cons, if_pos ⟨hhost, (decimal_spec c.port).1⟩]
    dsimp only
    rw [hread]
    dsimp only
    rw [hip, hof, hto, hset]
    rfl

/-- What a component prints is cut again, in front of what can follow it. -/
theorem splitUri_print (hrest : HasAuthority c → Ends ['/'.toUInt8, '?'.toUInt8, '#'.toUInt8] rest)
    (hslash : ¬['/'.toUInt8, '/'.toUInt8] <+: rest) : splitUri net cpu (c.toString true true true true ++ rest) =
      some ((behind rest).elim (.error .format) fun r => .ok (reread c, r)) := by
  have hfound : ∀ {m : UriMatch} {r : Text × Text × Text}, m.scheme = c.protocol →
      m.userInfo = (credentials c).dropLast → m.host = c.ipAddress → m.port = (portText c).drop 1 →
      m.pathText = r.1 → m.query = r.2.1 → m.fragment = r.2.2 →
      ((resolve net cpu m.port m.component).map fun res => res.map fun c => (c, m.pathText, m.query, m.fragment)) =
        some (.ok (reread c, r)) := by
    intro m r hscheme hinfo hhost hport hpath hquery hfragment
    rw [component_print hc hscheme hinfo hhost, hport, resolve_print hc, hpath, hquery, hfragment]
    rfl
  rw [toString_eq hc, List.append_assoc, List.cons_append, splitUri, searchUri_eq hc.scheme hc.schemeChars]
  by_cases hauth : HasAuthority c
  · rw [if_pos hauth, if_pos ⟨credentials c ++ (c.ipAddress ++ portText c) ++ rest, rfl⟩]
    simp only [List.cons_append, List.append_assoc, List.drop_succ_cons, List.drop_zero]
    rw [withAuthority_print hc (hrest hauth)]
    cases hbehind : behind rest with
    | none => rfl
    | some r =>
      have hne : credentials c ++ c.ipAddress ++ portText c ≠ [] := by
        intro hnil
        obtain ⟨hfront, -⟩ := List.append_eq_nil_iff.mp hnil
        obtain ⟨huser, hhost⟩ := List.append_eq_nil_iff.mp hfront
        rcases hauth with hauth | hauth
        · rw [credentials, if_neg hauth] at huser
          exact List.concat_ne_nil _ _ huser
        · exact hauth hhost
      exact hfound rfl rfl rfl rfl (if_neg hne) rfl rfl
  · obtain ⟨huser, hhost⟩ := not_or.mp hauth
    rw [not_not] at huser hhost
    have hcredentials : credentials c = [] := if_pos huser
    have hport : portText c = [] := if_pos (by_contra fun hport => (hc.port hport).1 hhost)
    rw [if_neg hauth, List.nil_append, if_neg hslash, withoutAuthority_eq]
    cases hbehind : behind rest with
    | none => rfl
    | some r =>
      have hinfo : (credentials c).dropLast = [] := congrArg List.dropLast hcredentials
      have hdigits : (portText c).drop 1 = [] := congrArg (List.drop 1) hport
      exact hfound rfl hinfo.symm hhost.symm hdigits.symm (if_pos rfl) rfl rfl

end Print

/-! ## The address that is printed -/

theorem IsHost.notMem (h : IsHost host) (hhost : isHostChar x = false) (haddress : isAddressChar x = false)
    (hmark : x ≠ '%'.toUInt8) (hhex : isHexDigit x = false) (hopen : x ≠ '['.toUInt8) (hclose : x ≠ ']'.toUInt8) :
    x ∉ host := by
  rcases h with ⟨digits, rfl, -, hdigits⟩ | hrun
  · intro hmem
    rcases List.mem_cons.mp hmem with h | hmem
    · exact hopen h
    rcases List.mem_append.mp hmem with hmem | hmem
    · exact ne_true_of_eq_false haddress (hdigits x hmem)
    · exact hclose (List.mem_singleton.mp hmem)
  · exact hrun.notMem hhost hmark hhex

/-- A host does not end with a colon. -/
theorem IsHost.getLast?_ne (h : IsHost host) : host.getLast? ≠ some ':'.toUInt8 := by
  rcases h with ⟨digits, rfl, -, -⟩ | hrun
  · rw [← List.cons_append, List.getLast?_concat]
    exact fun h => absurd (Option.some.inj h) (by decide)
  · intro h
    exact IsRun.notMem hrun (by decide) (by decide) (by decide) (List.mem_of_getLast? h)

section Address

variable {c : SocketAddressComponent SocketAddress} (hc : IsCut net cpu c) (hhost : c.ipAddress ≠ [])
include hc hhost

/-- The scheme and the host are neither trimmed nor cut away. -/
theorem addressAndPort_print : ∃ address port, address ≠ [] ∧
    stringTrim (c.protocol ++ ':'.toUInt8 :: '/'.toUInt8 :: '/'.toUInt8 :: c.ipAddress) =
      c.protocol ++ ':'.toUInt8 :: '/'.toUInt8 :: '/'.toUInt8 :: c.ipAddress ∧
    addressAndPort (c.protocol ++ ':'.toUInt8 :: '/'.toUInt8 :: '/'.toUInt8 :: c.ipAddress)
      (c.protocol ++ ':'.toUInt8 :: '/'.toUInt8 :: '/'.toUInt8 :: c.ipAddress) = (false, address, port, .noError) := by
  have hlast : (c.protocol ++ ':'.toUInt8 :: '/'.toUInt8 :: '/'.toUInt8 :: c.ipAddress).getLast? ≠
      some ':'.toUInt8 := by
    obtain ⟨front, d, hd⟩ := List.eq_nil_or_concat c.ipAddress |>.resolve_left hhost
    have hne := hc.host.getLast?_ne
    rw [hd, List.concat_eq_append, List.getLast?_concat] at hne
    rwa [hd, List.concat_eq_append, ← List.cons_append, ← List.cons_append, ← List.cons_append, ← List.append_assoc,
      List.getLast?_concat]
  have htrim : ∀ d ∈ c.protocol ++ ':'.toUInt8 :: '/'.toUInt8 :: '/'.toUInt8 :: c.ipAddress,
      d ∉ defaultTrimCharList := by
    have hblank : ∀ x ∈ defaultTrimCharList, isSchemeChar x = false ∧ x ≠ ':'.toUInt8 ∧ x ≠ '/'.toUInt8 ∧
        isHostChar x = false ∧ isAddressChar x = false ∧ x ≠ '%'.toUInt8 ∧ isHexDigit x = false ∧ x ≠ '['.toUInt8 ∧
        x ≠ ']'.toUInt8 :=
      List.all_iff_forall_prop.mp (by decide)
    intro d hd hmem
    obtain ⟨hscheme, hcolon, hslash, hname, haddress, hmark, hhex, hopen, hclose⟩ := hblank d hmem
    rcases List.mem_append.mp hd with hd | hd
    · exact ne_true_of_eq_false hscheme (hc.schemeChars d hd)
    · simp only [List.mem_cons, hcolon, hslash, false_or] at hd
      exact hc.host.notMem hname haddress hmark hhex hopen hclose hd
  have hslash : '/'.toUInt8 ∈ c.protocol ++ ':'.toUInt8 :: '/'.toUInt8 :: '/'.toUInt8 :: c.ipAddress :=
    List.mem_append_right _ (List.mem_cons_of_mem _ List.mem_cons_self)
  have hcolon : ':'.toUInt8 ∈ c.protocol ++ ':'.toUInt8 :: '/'.toUInt8 :: '/'.toUInt8 :: c.ipAddress :=
    List.mem_append_right _ List.mem_cons_self
  have hhead : (c.protocol ++ ':'.toUInt8 :: '/'.toUInt8 :: '/'.toUInt8 :: c.ipAddress).head? ≠ some ':'.toUInt8 := by
    obtain ⟨d, ds, hprotocol⟩ := List.exists_cons_of_ne_nil hc.protocol_ne_nil
    have hscheme := hc.scheme
    rw [hprotocol] at hscheme
    intro heq
    rw [hprotocol, List.cons_append, List.head?_cons] at heq
    rw [List.head?_cons, heq] at hscheme
    exact absurd hscheme (by decide)
  generalize c.protocol ++ ':'.toUInt8 :: '/'.toUInt8 :: '/'.toUInt8 :: c.ipAddress = s at hlast htrim hslash hcolon hhead
  obtain ⟨a, b, rfl, hb⟩ := BofUri.exists_cutLast hcolon
  have ha : a ≠ [] := by
    rintro rfl
    exact hhead rfl
  have hbne : b ≠ [] := by
    rintro rfl
    exact hlast List.getLast?_concat
  have hpos : a.length ≠ (a ++ ':'.toUInt8 :: b).length - 1 := by
    have := List.length_pos_of_ne_nil hbne
    rw [List.length_append, List.length_cons]
    omega
  have htake : (a ++ ':'.toUInt8 :: b).take a.length ≠ [] := by
    rw [List.take_left]
    exact ha
  unfold addressAndPort
  rw [isItAnIpV6Address_slash hslash, rfindChar_append a hb]
  dsimp only
  rw [if_neg hpos]
  have hall : a ++ ':'.toUInt8 :: b ≠ [] := List.append_ne_nil_of_left_ne_nil ha _
  have htrim := stringTrim_of_free htrim
  split
  · split
    · exact ⟨_, _, htake, htrim, rfl⟩
    · exact ⟨_, _, hall, htrim, rfl⟩
  · exact ⟨_, _, hall, htrim, rfl⟩

/-- Without a port the address that is looked up does not depend on the one before. -/
theorem ipAddressToSocketAddress_print (hport : c.port = 0) (old old' : SocketAddress) :
    ipAddressToSocketAddress net cpu (c.toString true false false true) old =
      ipAddressToSocketAddress net cpu (c.toString true false false true) old' := by
  have hprotocol := hc.protocol_ne_nil
  have hprint : c.toString true false false true =
      c.protocol ++ ':'.toUInt8 :: '/'.toUInt8 :: '/'.toUInt8 :: c.ipAddress := by
    unfold SocketAddressComponent.toString
    by_cases huser : c.user = []
    · simp [hprotocol, hhost, huser, hport]
    · by_cases hpassword : c.password = [] <;> simp [hprotocol, hhost, huser, hpassword, hport]
  obtain ⟨address, port, hne, htrim, hread⟩ := addressAndPort_print hc hhost
  have hsome : stringTrim (c.toString true false false true) ≠ [] := by
    rw [hprint, htrim]
    exact List.append_ne_nil_of_left_ne_nil hprotocol _
  have hread' : addressAndPort (c.toString true false false true) (stringTrim (c.toString true false false true)) =
      (false, address, port, .noError) := by rw [hprint, htrim, hread]
  unfold ipAddressToSocketAddress
  dsimp only
  rw [if_pos hsome, if_pos hsome, hread']
  dsimp only
  have hcond : BofErr.noError = .noError ∧ address ≠ [] := ⟨rfl, hne⟩
  rw [if_pos hcond, if_pos hcond]

end Address

end BofStd.SplitUri
