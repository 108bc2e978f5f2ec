import BofStd.BofUriSpec
import BofStd.Proofs.SplitUriProofs

/-!
# Copies of a URI

A valid URI that can be reached holds the parts that `Bof_SplitUri` has cut out of some text (`Parsed`). Its own text is
cut at the same places if the path and the query are made of the characters that they may have, and then the path and
the query are compared with what is parsed again.
-/

namespace BofStd.BofUri

open BofPath SplitUri

variable {env : Environment} {u u' w : BofUri} {val : Nat} {uri p q f : Text} {err : BofErr}
  {c : SocketAddressComponent SocketAddress}

/-! ## Parsing a URI -/

theorem initUriField_spec (h : initUriField env val u uri = some (u', err)) :
    u'.queryParamDelimiter = u.queryParamDelimiter ∧ (u'.valid = true → ∃ c p q f,
      splitUri env.net env.cpu uri = some (.ok (c, p, q, f)) ∧ u'.schemeAuthority = withAddress env c ∧
        parsePath env.currentDirectory p = some u'.path ∧ u'.path.valid = true ∧ u'.fragment = f ∧
          (q = [] ∧ u'.queryParamCollection = .empty ∨
            q ≠ [] ∧ extractQueryParam val q = (u'.queryParamCollection, .noError))) := by
  unfold initUriField at h
  split at h
  · exact nomatch h
  · obtain ⟨rfl, -⟩ := Prod.mk.inj (Option.some.inj h)
    exact ⟨rfl, nofun⟩
  rename_i c p q f hsplit
  obtain ⟨path, hpath, h⟩ := Option.map_eq_some_iff.mp h
  dsimp only at h
  split at h
  · rename_i hvalid
    split at h
    · rename_i hq
      obtain ⟨rfl, -⟩ := Prod.mk.inj h
      refine ⟨rfl, fun herr => ⟨c, p, q, f, hsplit, rfl, hpath, hvalid, rfl, .inr ⟨hq, ?_⟩⟩⟩
      have herr : (extractQueryParam val q).2 = .noError := of_decide_eq_true herr
      rw [← herr]
    · rename_i hq
      obtain ⟨rfl, -⟩ := Prod.mk.inj h
      exact ⟨rfl, fun _ => ⟨c, p, q, f, hsplit, rfl, hpath, hvalid, rfl, .inl ⟨not_not.mp hq, rfl⟩⟩⟩
  · obtain ⟨rfl, -⟩ := Prod.mk.inj h
    exact ⟨rfl, nofun⟩

theorem initUriField_ok {path : BofPath} {query : OrderedMap Text Text}
    (hsplit : splitUri env.net env.cpu uri = some (.ok (c, p, q, f)))
    (hpath : parsePath env.currentDirectory p = some path) (hvalid : path.valid = true)
    (hquery : q = [] ∧ query = .empty ∨ q ≠ [] ∧ extractQueryParam val q = (query, .noError)) :
    (initUriField env val u uri).map Prod.fst =
      some ⟨withAddress env c, path, query, f, u.queryParamDelimiter, true⟩ := by
  unfold initUriField
  rw [hsplit]
  simp only [hpath, Option.map_some]
  rw [if_pos hvalid]
  rcases hquery with ⟨rfl, rfl⟩ | ⟨hq, hextract⟩
  · rfl
  · rw [if_pos hq, hextract]
    rfl

/-- What is known of a URI that can be reached. -/
structure Parsed (env : Environment) (u : BofUri) : Prop where
  delimiter : isSeparator u.queryParamDelimiter
  parsed : u.valid = true → ∃ uri c p q f, splitUri env.net env.cpu uri = some (.ok (c, p, q, f)) ∧
    u.schemeAuthority = withAddress env c ∧ parsePath env.currentDirectory p = some u.path ∧ u.path.valid = true ∧
      IsQuery u.queryParamCollection ∧ u.fragment = f

theorem parsed_of_initUriField (hd : isSeparator u.queryParamDelimiter)
    (h : initUriField env val u uri = some (u', err)) : Parsed env u' := by
  obtain ⟨hdelimiter, hparsed⟩ := initUriField_spec h
  refine ⟨hdelimiter ▸ hd, ?_⟩
  intro hvalid
  obtain ⟨c, p, q, f, hsplit, hc, hpath, hvalidPath, hfragment, hquery⟩ := hparsed hvalid
  refine ⟨uri, c, p, q, f, hsplit, hc, hpath, hvalidPath, ?_, hfragment⟩
  rcases hquery with ⟨-, hquery⟩ | ⟨-, hquery⟩
  · rw [hquery]
    exact isQuery_empty
  · exact isQuery_of_extract hquery

theorem parsed_of_reparse (hd : isSeparator u.queryParamDelimiter) (h : reparse env val u = some (u', err)) :
    Parsed env u' := by
  obtain ⟨⟨u₁, err₁⟩, hinit, heq⟩ := Option.map_eq_some_iff.mp h
  obtain ⟨rfl, -⟩ := Prod.mk.inj heq
  exact parsed_of_initUriField hd hinit

/-- A setter. -/
theorem Parsed.call {val' : Nat} {op : Op} (hu : Parsed env u) (h : u.call env val val' op = some (u', err)) :
    Parsed env u' := by
  have hsame : ∀ {err'}, some (u, err') = some (u', err) → Parsed env u' := by
    intro err' heq
    obtain ⟨rfl, -⟩ := Prod.mk.inj (Option.some.inj heq)
    exact hu
  cases op with
  | setQueryParamDelimiter delimiter =>
    rw [BofUri.call] at h
    split at h
    · rename_i hd
      obtain ⟨rfl, -⟩ := Prod.mk.inj (Option.some.inj h)
      exact ⟨hd, hu.parsed⟩
    · exact hsame h
  | setQueryParamCollection collection => exact parsed_of_reparse (by exact hu.delimiter) h
  | setQueryParamString queryParam =>
    rw [BofUri.call] at h
    split at h
    · exact parsed_of_reparse (by exact hu.delimiter) h
    · exact hsame h
  | addToQueryParamCollection key value =>
    rw [BofUri.call] at h
    split at h
    · exact parsed_of_reparse (by exact hu.delimiter) h
    · exact hsame h
  | removeFromQueryParamCollection key =>
    rw [BofUri.call] at h
    split at h
    · exact parsed_of_reparse (by exact hu.delimiter) h
    · exact hsame h
  | setFragment fragment => exact parsed_of_reparse (by exact hu.delimiter) h
  | setPath path =>
    obtain ⟨path₁, -, h⟩ := Option.bind_eq_some_iff.mp h
    split at h
    · obtain ⟨path₂, -, h⟩ := Option.bind_eq_some_iff.mp h
      exact parsed_of_reparse (by exact hu.delimiter) h
    · exact hsame h

theorem parsed_of_reachable (h : Reachable env u) : Parsed env u := by
  induction h with
  | construct h =>
    obtain ⟨⟨u₁, err⟩, hinit, rfl⟩ := Option.map_eq_some_iff.mp h
    exact parsed_of_initUriField (.inl rfl) hinit
  | call _ h ih => exact ih.call h

/-! ## Printing a URI -/

/-- The path of a URI: behind an authority it has no disk. -/
theorem path_cases {m : BofPath} {cwd : Option Text} (h : parsePath cwd p = some m) (hvalid : m.valid = true)
    (hrooted : HasAuthority c → p = [] ∨ p.head? = some '/'.toUInt8) :
    m = emptyPath defaultForbiddenChar ∨ (∃ w, cwd = some w) ∧ ∃ d a b, IsDisk d ∧ (HasAuthority c → d = []) ∧
      '/'.toUInt8 ∉ b ∧ Normal (a ++ '/'.toUInt8 :: b) ∧ Parts m d a b := by
  by_cases hnil : p = []
  · subst hnil
    exact .inl (Option.some.inj h).symm
  · rcases parsePath_cases h hvalid with h | ⟨hw, d, a, b, hd, hroot, hrest⟩
    · exact .inl h
    · exact .inr ⟨hw, d, a, b, hd, fun hauth => hroot ((hrooted hauth).resolve_left hnil), hrest⟩

/-- The path can stand behind the scheme and the authority: it is absolute or empty behind an authority, and does not
look like one. -/
def Follows (c : SocketAddressComponent SocketAddress) (path : Text) : Prop :=
  ¬ ['/'.toUInt8, '/'.toUInt8] <+: path ∧ (HasAuthority c → path = [] ∨ path.head? = some '/'.toUInt8)

section Path

variable {m : BofPath} {d a b : Text} (hd : IsDisk d) (hnormal : Normal (a ++ '/'.toUInt8 :: b)) (h : Parts m d a b)
include hd hnormal h

theorem follows_toString (hb : '/'.toUInt8 ∉ b) (hauth : HasAuthority c → d = []) : Follows c m.toString := by
  have hnormal' := normal_undot hnormal hb
  rw [h.toString_eq]
  constructor
  · intro hslash
    rcases hd with rfl | ⟨x, hx, rfl⟩
    · exact hnormal'.single hslash.isInfix
    · obtain ⟨rfl, -⟩ := List.cons_prefix_cons.mp hslash
      exact absurd hx (by decide)
  · intro hc
    rw [hauth hc]
    exact .inr hnormal'.root

theorem question_notMem_toString : '?'.toUInt8 ∉ m.toString := by
  rw [h.toString_eq, List.mem_append, not_or]
  constructor
  · exact fun hmem => hd.ne hmem (by decide) (by decide) rfl
  · intro hmem
    have hsub : (a ++ '/'.toUInt8 :: undot b).Sublist (a ++ '/'.toUInt8 :: b) :=
      (List.Sublist.refl a).append ((undot_sublist b).cons_cons _)
    exact (hnormal.allowed _ (hsub.subset hmem)).1 (by decide)

end Path

/-- The query behind its mark, if there is one. -/
def printedQuery (u : BofUri) : Text := if u.queryParamCollection.entries ≠ [] then '?'.toUInt8 :: u.queryString else []

/-- The fragment behind its mark, if there is one. -/
def printedFragment (u : BofUri) : Text := if u.fragment ≠ [] then '#'.toUInt8 :: u.fragment else []

theorem marked_printedQuery (u : BofUri) : Marked '?'.toUInt8 u.printedQuery u.queryString := by
  unfold printedQuery
  by_cases hq : u.queryParamCollection.entries = []
  · rw [if_neg fun h => h hq]
    refine .inr ⟨rfl, ?_⟩
    rw [queryString, hq]
    rfl
  · rw [if_pos hq]
    exact .inl rfl

theorem marked_printedFragment (u : BofUri) : Marked '#'.toUInt8 u.printedFragment u.fragment := by
  unfold printedFragment
  by_cases hf : u.fragment = []
  · rw [if_neg fun h => h hf]
    exact .inr ⟨rfl, hf⟩
  · rw [if_pos hf]
    exact .inl rfl

/-- The text of a URI is cut behind its authority. -/
theorem splitUri_toString (hcut : IsCut env.net env.cpu c) (hc : u.schemeAuthority = withAddress env c)
    (hfollows : Follows c u.path.toString) : splitUri env.net env.cpu u.toString =
      some ((behind (u.path.toString ++ (u.printedQuery ++ u.printedFragment))).elim (.error .format)
        fun r => .ok (reread c, r)) := by
  have hmarks := ends_marked (marked_printedQuery u) (marked_printedFragment u)
  have htext : u.toString =
      c.toString true true true true ++ (u.path.toString ++ (u.printedQuery ++ u.printedFragment)) := by
    rw [toString, hc, List.append_assoc, List.append_assoc]
    rfl
  rw [htext]
  refine splitUri_print hcut (fun hauth => ?_) fun hslash => ?_
  · rcases hfollows.2 hauth with hnil | hroot
    · rw [hnil, List.nil_append]
      exact hmarks.mono (List.all_iff_forall_prop.mp (by decide))
    · obtain ⟨s, hs⟩ := List.head?_eq_some_iff.mp hroot
      rw [hs]
      exact ends_cons (by decide) _
  · -- neither the path nor what follows it begins with two slashes
    generalize u.printedQuery ++ u.printedFragment = marks at hmarks hslash
    rcases hpath : u.path.toString with _ | ⟨x, _ | ⟨y, s⟩⟩
    · rw [hpath, List.nil_append] at hslash
      obtain ⟨s, rfl⟩ := hslash
      exact absurd (hmarks _ rfl) (by decide)
    · rw [hpath, List.singleton_append] at hslash
      obtain ⟨-, s, rfl⟩ := List.cons_prefix_cons.mp hslash
      exact absurd (hmarks _ rfl) (by decide)
    · have hpre : ['/'.toUInt8, '/'.toUInt8] <+: u.path.toString := by
        rw [hpath] at hslash ⊢
        obtain ⟨hx, hslash⟩ := List.cons_prefix_cons.mp hslash
        obtain ⟨hy, -⟩ := List.cons_prefix_cons.mp hslash
        rw [← hx, ← hy]
        exact ⟨s, rfl⟩
      exact hfollows.1 hpre

theorem mem_queryString {e : Text × Text} {x : UInt8} (he : e ∈ u.queryParamCollection.entries) (hx : x ∈ e.1 ++ e.2) :
    x ∈ u.queryString := Tokens.mem_intercalate_of_mem _ (List.mem_map_of_mem he) (mem_printEntry hx)

/-- A character of the printed query is one of an entry, an equals sign or the delimiter. -/
theorem of_mem_queryString {x : UInt8} (hx : x ∈ u.queryString) : x = u.queryParamDelimiter ∨ x = '='.toUInt8 ∨
    ∃ e ∈ u.queryParamCollection.entries, x ∈ e.1 ++ e.2 := by
  rcases Tokens.mem_intercalate hx with hx | ⟨t, ht, hx⟩
  · exact .inl hx
  · obtain ⟨e, he, rfl⟩ := List.mem_map.mp ht
    rcases of_mem_printEntry hx with hx | hx
    · exact .inr (.inl hx)
    · exact .inr (.inr ⟨e, he, hx⟩)

/-! ## Copies -/

/-- What is known of the path of a URI, whatever characters it has. -/
theorem path_spec (hsplit : splitUri env.net env.cpu uri = some (.ok (c, p, q, f)))
    (hpath : parsePath env.currentDirectory p = some u.path) (hvalid : u.path.valid = true) :
    Follows c u.path.toString ∧ '?'.toUInt8 ∉ u.path.toString := by
  rcases path_cases hpath hvalid (isCut_of_splitUri hsplit).2.1 with
    hempty | ⟨-, d, a, b, hd, hauth, hb, hnormal, hparts⟩
  · rw [hempty]
    exact ⟨⟨by decide, fun _ => .inl rfl⟩, List.not_mem_nil⟩
  · exact ⟨follows_toString hd hnormal hparts hb hauth, question_notMem_toString hd hnormal hparts⟩

/-- The address that is looked up again is the one of the URI. -/
theorem withAddress_reread (hcut : IsCut env.net env.cpu c) (hpassword : c.user = [] → c.password = []) :
    withAddress env (reread c) = withAddress env c := by
  have hsame : (if c.user = [] then [] else c.password) = c.password := by
    split
    · rename_i huser
      exact (hpassword huser).symm
    · rfl
  by_cases hport : c.port = 0
  · by_cases hhost : c.ipAddress = []
    · rw [reread, hsame, if_pos hport, ← hcut.noPort hport hhost]
    · have hip := ipAddressToSocketAddress_print hcut hhost hport .reset c.ip
      rw [reread, hsame, if_pos hport]
      unfold withAddress
      exact congrArg (fun r => { c with ip := r.1 }) hip
  · rw [reread, hsame, if_neg hport]

theorem operatorEq_refl (a : SocketAddressComponent SocketAddress) : a.OperatorEq a := by
  refine ⟨rfl, rfl, rfl, rfl, rfl, rfl, rfl, ?_⟩
  split
  · exact ⟨rfl, rfl, rfl⟩
  · exact ⟨rfl, rfl, rfl⟩

/-- The text of a printable URI is parsed to an equal one. -/
theorem exists_operatorEq (hu : Parsed env u) (hvalid : u.valid = true) (hp : Printable u)
    (hw : w.queryParamDelimiter = '&'.toUInt8) (val : Nat) :
    ∃ u', (initUriField env val w u.toString).map Prod.fst = some u' ∧ u'.OperatorEq u := by
  obtain ⟨uri, c, p, q, f, hsplit, hc, hpath, hvalidPath, hquery, hf⟩ := hu.parsed hvalid
  obtain ⟨hcut, hrooted, hfragment⟩ := isCut_of_splitUri hsplit
  obtain ⟨hfollows, -⟩ := path_spec hsplit hpath hvalidPath
  obtain ⟨m', hm', heq, hvalid'⟩ : ∃ m', parsePath env.currentDirectory u.path.toString = some m' ∧
      m'.OperatorEq u.path ∧ m'.valid = true := by
    rcases path_cases hpath hvalidPath hrooted with
      hempty | ⟨⟨cwd, hcwd⟩, d, a, b, hd, -, hb, hnormal, hparts⟩
    · rw [hempty]
      exact ⟨_, rfl, ⟨rfl, rfl, rfl⟩, rfl⟩
    · rw [hcwd]
      exact parsePath_toString hd hb hnormal hparts hp.fileName
  have hqueryRun : IsRun isQueryChar u.queryString := by
    refine .of_forall fun x hx => ?_
    rcases of_mem_queryString hx with hx | hx | ⟨e, he, hx⟩
    · rw [hx, hp.delimiter]
      decide
    · rw [hx]
      decide
    · exact (hp.query e he x hx).1
  have hextract : u.queryString = [] ∧ u.queryParamCollection = .empty ∨
      u.queryString ≠ [] ∧ extractQueryParam val u.queryString = (u.queryParamCollection, .noError) := by
    by_cases hnil : u.queryParamCollection.entries = []
    · left
      refine ⟨by rw [queryString, hnil]; rfl, OrderedMap.ext_mem fun e => ?_⟩
      rw [hnil]
      rfl
    · right
      refine ⟨fun hprinted => hp.entries (entries_of_print hnil hprinted), extract_print hquery hnil hu.delimiter ?_ val⟩
      intro e he x hx
      obtain ⟨hchar, hplus⟩ := hp.query e he x hx
      refine ⟨?_, hplus⟩
      rintro rfl
      exact absurd hchar (by decide)
  have hagain := splitUri_toString hcut hc hfollows
  rw [behind_append hp.path hqueryRun (hf ▸ hfragment) (marked_printedQuery u) (marked_printedFragment u)] at hagain
  have hpassword : c.user = [] → c.password = [] := by
    have hpassword := hp.password
    rw [hc] at hpassword
    exact hpassword
  refine ⟨_, initUriField_ok hagain hm' hvalid' hextract, ?_, heq, rfl, rfl, ?_, hvalid.symm⟩
  · rw [withAddress_reread hcut hpassword, ← hc]
    exact operatorEq_refl _
  · rw [hw, hp.delimiter]

/-- If the path that is read is equal to the one of the URI, then it has been read to its end. -/
theorem path_eq_of_operatorEq {p' marks marks' : Text} {m' : BofPath}
    (hsplit : splitUri env.net env.cpu uri = some (.ok (c, p, q, f)))
    (hpath : parsePath env.currentDirectory p = some u.path) (hvalid : u.path.valid = true)
    (hrun : IsRun isPathChar p') (hall : u.path.toString ++ marks = p' ++ marks')
    (hmarks : Ends ['?'.toUInt8, '#'.toUInt8] marks) (hmarks' : Ends ['?'.toUInt8, '#'.toUInt8] marks')
    (hpath' : parsePath env.currentDirectory p' = some m') (heq : m'.OperatorEq u.path) : u.path.toString = p' := by
  have hclass : ∀ x ∈ ['?'.toUInt8, '#'.toUInt8], isPathChar x = false ∧ x ≠ '%'.toUInt8 ∧ isHexDigit x = false ∧
      isAlpha x = false ∧ x ≠ ':'.toUInt8 ∧ x ≠ '/'.toUInt8 :=
    List.all_iff_forall_prop.mp (by decide)
  rcases List.append_eq_append_iff.mp hall with ⟨t, hp', hrest⟩ | ⟨t, hprint, hrest⟩
  · cases t with
    | nil => rw [hp', List.append_nil]
    | cons x t =>
      -- a mark would be a character of the path that is read
      obtain ⟨hpathChar, hmark, hhex, -⟩ := hclass x (hmarks x (congrArg List.head? hrest))
      exact absurd (hp' ▸ List.mem_append_right _ List.mem_cons_self) (IsRun.notMem hrun hpathChar hmark hhex)
  · cases t with
    | nil => rw [hprint, List.append_nil]
    | cons x t =>
      -- the path is cut at a mark, and what stands before it is another path
      exfalso
      obtain ⟨-, -, -, halpha, hcolon, hslash⟩ := hclass x (hmarks' x (congrArg List.head? hrest))
      rcases path_cases hpath hvalid (isCut_of_splitUri hsplit).2.1 with
        hempty | ⟨-, d, a, b, hd, -, -, hnormal, hparts⟩
      · rw [hempty] at hprint
        exact List.append_ne_nil_of_right_ne_nil _ (List.cons_ne_nil _ _) hprint.symm
      have hnot : x ∉ d := fun hmem => hd.ne hmem halpha hcolon rfl
      have hroot := head?_parts hnormal.root (undot b)
      rw [hparts.toString_eq] at hprint
      rcases List.append_eq_append_iff.mp hprint with ⟨r₁, rfl, hr⟩ | ⟨r₁, rfl, hr⟩
      · cases r₁ with
        | nil =>
          rw [hr] at hroot
          exact hslash (Option.some.inj hroot)
        | cons y r₁ =>
          rw [hr] at hroot
          exact not_operatorEq_of_parsePath hd hparts hr hroot hpath' heq
      · cases r₁ with
        | nil =>
          rw [List.nil_append] at hr
          rw [← hr] at hroot
          exact hslash (Option.some.inj hroot)
        | cons y r₁ =>
          obtain ⟨rfl, -⟩ := List.cons.inj hr
          exact hnot (List.mem_append_right _ List.mem_cons_self)

/-- If the query that is read is the one of the URI, then it has been read to its end. -/
theorem query_eq_of_extract {q' f' marks marks' : Text} (hne : u.queryParamCollection.entries ≠ [])
    (hrun : IsRun isQueryChar q') (hmarked : Marked '?'.toUInt8 marks q') (hmarked' : Marked '#'.toUInt8 marks' f')
    (hall : u.printedQuery ++ u.printedFragment = marks ++ marks')
    (hquery' : q' = [] ∧ u.queryParamCollection = .empty ∨
      q' ≠ [] ∧ extractQueryParam val q' = (u.queryParamCollection, .noError)) :
    u.queryString = q' ∧ q' ≠ [] ∧ extractQueryParam val q' = (u.queryParamCollection, .noError) := by
  have hsharp : ∀ {printed part : Text}, Marked '#'.toUInt8 printed part → Ends ['#'.toUInt8] printed := by
    rintro printed part (rfl | ⟨rfl, -⟩)
    · exact ends_cons (by decide) _
    · exact ends_nil _
  have hextract := hquery'.resolve_left fun h => hne (congrArg OrderedMap.entries h.2)
  refine ⟨?_, hextract⟩
  rw [printedQuery, if_pos hne] at hall
  rcases hmarked with rfl | ⟨rfl, -⟩
  · rcases List.append_eq_append_iff.mp (List.cons.inj hall).2 with ⟨t, hq', hrest⟩ | ⟨t, hprint, -⟩
    · cases t with
      | nil => rw [hq', List.append_nil]
      | cons x t =>
        -- the mark of the fragment would be a character of the query that is read
        have hx := List.mem_singleton.mp (hsharp (marked_printedFragment u) x (congrArg List.head? hrest))
        have hmem : '#'.toUInt8 ∈ q' := hq' ▸ hx ▸ List.mem_append_right _ List.mem_cons_self
        exact absurd hmem (IsRun.notMem hrun (by decide) (by decide) (by decide))
    · cases t with
      | nil => rw [hprint, List.append_nil]
      | cons x t => exact absurd hextract.2 (not_extract_part hprint)
  · have hx := hsharp hmarked' '?'.toUInt8 (congrArg List.head? hall).symm
    exact absurd hx (by decide)

/-- A URI that is equal to what its text is parsed to is printable. -/
theorem printable_of_operatorEq (hu : Parsed env u) (hvalid : u.valid = true)
    (hw : w.queryParamDelimiter = '&'.toUInt8) (h : (initUriField env 0 w u.toString).map Prod.fst = some u')
    (heq : u'.OperatorEq u) : Printable u := by
  obtain ⟨uri, c, p, q, f, hsplit, hc, hpath, hvalidPath, -⟩ := hu.parsed hvalid
  obtain ⟨hcut, hrooted, -⟩ := isCut_of_splitUri hsplit
  obtain ⟨⟨u₁, err⟩, hinit, rfl⟩ := Option.map_eq_some_iff.mp h
  obtain ⟨hdelimiter, hparsed⟩ := initUriField_spec hinit
  obtain ⟨heqAddress, heqPath, heqQuery, -, heqDelimiter, heqValid⟩ := heq
  obtain ⟨c', p', q', f', hsplit', hc', hpath', -, -, hquery'⟩ := hparsed (heqValid.trans hvalid)
  dsimp only at heqAddress heqPath heqQuery heqDelimiter
  rw [heqQuery] at hquery'
  obtain ⟨hfollows, -⟩ := path_spec hsplit hpath hvalidPath
  -- what stands behind the authority is cut into the parts of the copy
  rw [splitUri_toString hcut hc hfollows] at hsplit'
  obtain ⟨r, hbehind, hr⟩ : ∃ r, behind (u.path.toString ++ (u.printedQuery ++ u.printedFragment)) = some r ∧
      (reread c, r) = (c', p', q', f') := by
    cases hbehind : behind (u.path.toString ++ (u.printedQuery ++ u.printedFragment)) with
    | none =>
      rw [hbehind] at hsplit'
      exact nomatch hsplit'
    | some r =>
      rw [hbehind] at hsplit'
      exact ⟨r, rfl, Except.ok.inj (Option.some.inj hsplit')⟩
  obtain ⟨rfl, rfl⟩ := Prod.mk.inj hr
  obtain ⟨hpathRun, hqueryRun, marks, marks', hall, hmarked, hmarked'⟩ := behind_spec hbehind
  have hwhole := path_eq_of_operatorEq hsplit hpath hvalidPath hpathRun hall
    (ends_marked (marked_printedQuery u) (marked_printedFragment u)) (ends_marked hmarked hmarked') hpath' heqPath
  rw [hwhole] at hall
  have hread : u.queryParamCollection.entries ≠ [] →
      u.queryString = q' ∧ q' ≠ [] ∧ extractQueryParam 0 q' = (u.queryParamCollection, .noError) :=
    fun hne => query_eq_of_extract hne hqueryRun hmarked hmarked' (List.append_cancel_left hall) hquery'
  refine ⟨?_, ?_, ?_, hwhole ▸ hpathRun, ?_, ?_⟩
  · have hpassword : (reread c).password = c.password := by
      have heqPassword := heqAddress.2.2.2.2.1
      rw [hc, hc'] at heqPassword
      exact heqPassword
    rw [hc]
    intro huser
    exact hpassword.symm.trans (if_pos huser)
  · rw [← heqDelimiter, hdelimiter, hw]
  · rcases path_cases hpath hvalidPath hrooted with hempty | ⟨⟨cwd, hcwd⟩, d, a, b, hd, -, hb, hnormal, hparts⟩
    · rw [hempty]
      exact nofun
    · rw [hcwd, ← hwhole] at hpath'
      exact stable_of_parsePath hd hb hnormal hparts hpath' heqPath
  · intro e he x hx
    obtain ⟨hprint, -, hextract⟩ := hread (List.ne_nil_of_mem he)
    rw [← hprint] at hqueryRun hextract
    have hmark : '%'.toUInt8 ∉ u.queryString := by
      intro hmem
      rcases of_mem_queryString hmem with hy | hy | ⟨e, he, hy⟩
      · rcases hu.delimiter with hd | hd
        · exact absurd (hy.trans hd) (by decide)
        · exact absurd (hy.trans hd) (by decide)
      · exact absurd hy (by decide)
      · exact not_extract_print hu.delimiter he hy (.inl rfl) hextract
    refine ⟨Escapes.Escaped.forall hqueryRun hmark x (mem_queryString he hx), ?_⟩
    rintro rfl
    exact not_extract_print hu.delimiter he hx (.inr rfl) hextract
  · intro hentries
    obtain ⟨hprint, hne, -⟩ := hread (hentries ▸ List.cons_ne_nil _ _)
    rw [← hprint, queryString, hentries] at hne
    exact hne rfl

/-- The copies of a valid URI are equal to it exactly if it is printable and the one it is assigned to has the delimiter
of a new one. -/
theorem preserved_iff (hu : Reachable env u) (hvalid : u.valid = true) (w : BofUri) :
    Preserved env u w ↔ Printable u ∧ w.queryParamDelimiter = '&'.toUInt8 := by
  have hparsed := parsed_of_reachable hu
  constructor
  · intro h
    obtain ⟨⟨u₁, hcopy, heq₁⟩, u₂, hassign, heq₂⟩ := h 0
    have hp := printable_of_operatorEq (w := members) hparsed hvalid rfl hcopy heq₁
    refine ⟨hp, ?_⟩
    obtain ⟨⟨u₂, err⟩, hinit, rfl⟩ := Option.map_eq_some_iff.mp hassign
    obtain ⟨hdelimiter, -⟩ := initUriField_spec hinit
    obtain ⟨-, -, -, -, heqDelimiter, -⟩ := heq₂
    rw [← hdelimiter]
    exact heqDelimiter.trans hp.delimiter
  · rintro ⟨hp, hw⟩ val
    exact ⟨exists_operatorEq (w := members) hparsed hvalid hp rfl val, exists_operatorEq hparsed hvalid hp hw val⟩

/-! ## On examples -/

/-- `"1.2.3.4"`. -/
def hostDigits : Text := ['1', '.', '2', '.', '3', '.', '4'].map Char.toUInt8

/-- The environment in the directory `/`, with one host. -/
def oneHost : Environment where
  currentDirectory := some ['/'.toUInt8]
  net := {
    inetPton := fun t => if t = hostDigits then some ⟨[1, 2, 3, 4], rfl⟩ else none
    inetPton6 := fun _ => none
    getaddrinfo := fun _ => none }
  cpu := .little

/-- The URI `ftp://me:pw@1.2.3.4:21/a?k=v#f`. -/
def ftp : BofUri where
  schemeAuthority := {
    protocol := ['f', 't', 'p'].map Char.toUInt8
    ipAddress := hostDigits
    port := 21
    user := ['m', 'e'].map Char.toUInt8
    password := ['p', 'w'].map Char.toUInt8
    ip := {
      SocketAddress.reset with
      Protocol_S := "ftp"
      SocketType_E := .tcp
      IpV4Address_X := ⟨.inet, 5376, ⟨[1, 2, 3, 4], rfl⟩⟩ } }
  path := ⟨[], ['/'.toUInt8], ['a'.toUInt8], ['a'.toUInt8], [], BofPath.defaultForbiddenChar, true⟩
  queryParamCollection := OrderedMap.empty.assign ['k'.toUInt8] ['v'.toUInt8]
  fragment := ['f'.toUInt8]
  queryParamDelimiter := '&'.toUInt8
  valid := true

theorem printable_ftp : Printable ftp where
  password h := nomatch h
  delimiter := rfl
  fileName c hc := by
    obtain rfl := Option.some.inj hc
    decide
  path := .item (by decide) (.item (by decide) .nil)
  query e he := by
    rw [List.mem_singleton.mp he]
    exact List.all_iff_forall_prop.mp (by decide)
  entries := by decide

theorem preserved_iff_ftp : ∃ u, Reachable oneHost u ∧ Preserved oneHost u members := by
  have hu : ofString oneHost 0 (['f', 't', 'p', ':', '/', '/', 'm', 'e', ':', 'p', 'w', '@', '1', '.', '2', '.', '3',
      '.', '4', ':', '2', '1', '/', 'a', '?', 'k', '=', 'v', '#', 'f'].map Char.toUInt8) = some ftp := rfl
  exact ⟨_, .construct hu, (preserved_iff (.construct hu) rfl _).mpr ⟨printable_ftp, rfl⟩⟩

/-- The URI `urn:/a?k=` with a value. -/
def urn (value : Text) : BofUri where
  schemeAuthority := { IpAddress.resetComponent with protocol := ['u', 'r', 'n'].map Char.toUInt8 }
  path := ftp.path
  queryParamCollection := OrderedMap.empty.assign ['k'.toUInt8] value
  fragment := []
  queryParamDelimiter := '&'.toUInt8
  valid := true

/-- The value of `urn:/a?k=a%2Bb` holds a plus sign, which is a blank in the copy. -/
theorem not_preserved_urn : ∃ u, Reachable oneHost u ∧ u.valid = true ∧ ¬ Preserved oneHost u members := by
  have hu : ofString oneHost 0 (['u', 'r', 'n', ':', '/', 'a', '?', 'k', '=', 'a', '%', '2', 'B', 'b'].map
      Char.toUInt8) = some (urn ['a'.toUInt8, '+'.toUInt8, 'b'.toUInt8]) := rfl
  refine ⟨_, .construct hu, rfl, fun h => ?_⟩
  obtain ⟨⟨u', hcopy, heq⟩, -⟩ := h 0
  have hblank : copyConstructor oneHost 0 (urn ['a'.toUInt8, '+'.toUInt8, 'b'.toUInt8]) =
      some (urn ['a'.toUInt8, ' '.toUInt8, 'b'.toUInt8]) := rfl
  obtain rfl := Option.some.inj (hcopy.symm.trans hblank)
  obtain ⟨-, -, hquery, -⟩ := heq
  exact absurd (congrArg OrderedMap.entries hquery) (by decide)

end BofStd.BofUri
