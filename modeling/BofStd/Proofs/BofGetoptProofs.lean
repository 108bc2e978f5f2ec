import BofStd.BofGetoptSpec

/-!
# The calls of `getopt_long` read the command line once

`Scan.At` says which part of the command line a scan has left. A call takes the next option off that part
(`scanOption_next`), so the calls that follow each other give the options of `parse` (`calls_parse`). The options are
never exchanged with anything: the two bounds of the skipped non-options are always equal.
-/

namespace BofStd.Getopt

/-! ## Long names -/

theorem isPrefixOf_and_length {key name : Text} :
    key.isPrefixOf name = true ∧ key.length = name.length ↔ name = key := by
  rw [List.isPrefixOf_iff_prefix]
  constructor
  · rintro ⟨hfront, hlength⟩
    exact (hfront.eq_of_length hlength).symm
  · rintro rfl
    exact ⟨List.prefix_rfl, rfl⟩

/-- The loop gives the first exact match; without one, the first abbreviated option, and whether all are like it. -/
theorem findLong_eq (tolerant : Bool) (key : Text) (longopts : List LongOption) (index : Nat)
    (pfound : Option (Nat × LongOption)) (ambig : Bool) :
    findLong tolerant key longopts index pfound ambig =
      match (longopts.zipIdx index).find? fun e => e.1.name = key with
      | some (p, i) => (some (i, p), false)
      | none =>
        match pfound, (longopts.zipIdx index).filter fun e => key.isPrefixOf e.1.name with
        | some f, cs => (some f, ambig || !(cs.all fun e => tolerant && f.2.alike e.1))
        | none, (p, i) :: cs => (some (i, p), ambig || !(cs.all fun e => tolerant && p.alike e.1))
        | none, [] => (none, ambig) := by
  induction longopts generalizing index pfound ambig with
  | nil => cases pfound <;> simp [findLong]
  | cons p longopts ih =>
    unfold findLong
    rw [List.zipIdx_cons, List.find?_cons, List.filter_cons]
    by_cases hfront : key.isPrefixOf p.name = true
    · by_cases hlength : key.length = p.name.length
      · have hname : p.name = key := isPrefixOf_and_length.mp ⟨hfront, hlength⟩
        simp [hlength, hname]
      · have hname : p.name ≠ key := fun h => hlength (isPrefixOf_and_length.mpr h).2
        simp only [hfront, hlength, hname, if_true, if_false, decide_false]
        cases pfound with
        | none =>
          dsimp only
          rw [ih]
        | some f =>
          dsimp only
          rw [ih]
          cases (longopts.zipIdx (index + 1)).find? fun e => e.1.name = key with
          | some e => rfl
          | none => simp only [List.all_cons, Bool.not_and, Bool.or_assoc]
    · have hname : p.name ≠ key := fun h => hfront (isPrefixOf_and_length.mpr h).1
      simp only [hfront, hname, decide_false]
      exact ih ..

theorem findLong_lookup (key : Text) (longopts : List LongOption) :
    match lookup key longopts with
    | .found index p => findLong true key longopts 0 none false = (some (index, p), false)
    | .ambiguous => (findLong true key longopts 0 none false).2 = true
    | .unknown => findLong true key longopts 0 none false = (none, false) := by
  rw [findLong_eq, lookup, abbreviated]
  cases hexact : longopts.zipIdx.find? fun e => e.1.name = key with
  | some e => rfl
  | none =>
    dsimp only
    cases hcs : longopts.zipIdx.filter fun e => key.isPrefixOf e.1.name with
    | nil => rfl
    | cons e cs =>
      dsimp only
      cases hall : cs.all fun c => e.1.alike c.1 <;> simp [hall]

/-! ## What a scan has left -/

/-- What stays the same from call to call. -/
structure Scan.Sane (g : Reader) (s : Scan) : Prop where
  program : s.program = g.program
  initialized : s.initialized = true
  ordering : s.ordering = if g.inOrder then .returnInOrder else .requireOrder
  nonopts : s.firstNonopt = s.lastNonopt
  skipped : s.lastNonopt ≤ s.optind
  started : 1 ≤ s.optind
  bounded : s.optind ≤ s.argv.length

/-- Where the scan stands: between two elements or inside a short one. -/
inductive Scan.Place (g : Reader) (s : Scan) : Input → Prop where
  | between (h : s.nextchar.getD [] = []) : Place g s ⟨[], s.argv.drop s.optind⟩
  | inside {c : UInt8} {cluster word : Text} (h : s.nextchar = some (c :: cluster))
      (hword : s.argv[s.optind]? = some word) (hlong : g.longopts ≠ none → word[1]? ≠ some dash) :
      Place g s ⟨c :: cluster, s.argv.drop (s.optind + 1)⟩

/-- A scan with the input that is left to it. -/
structure Scan.At (g : Reader) (s : Scan) (x : Input) : Prop where
  sane : s.Sane g
  place : s.Place g x

/-- What a call does, beside what the command line says. -/
def Follows (g : Reader) (argv : List Text) (said : Except (List Text) (Reply × Input)) (done : Option (Scan × Reply)) :
    Prop :=
  match said with
  | .ok r => ∃ s, done = some (s, r.1) ∧ s.At g r.2 ∧ s.argv = argv
  | .error rest => ∃ s, done = some (s, { ret := -1 }) ∧ s.argv = argv ∧ s.optind ≤ argv.length ∧
      argv.drop s.optind = rest

variable {g : Reader} {o : Options} {s : Scan} {x : Input} {word : Text} {words : List Text} {c : UInt8}
  {cluster : Text}

theorem Scan.Sane.move (h : s.Sane g) {i : Nat} (hi : s.optind ≤ i) (hargc : i ≤ s.argv.length)
    (nextchar : Option Text) :
    Scan.Sane g { s with optind := i, nextchar := nextchar } where
  program := h.program
  initialized := h.initialized
  ordering := h.ordering
  nonopts := h.nonopts
  skipped := h.skipped.trans hi
  started := h.started.trans hi
  bounded := hargc

/-- Behind an element. -/
theorem Scan.Sane.between (h : s.Sane g) {i : Nat} (hi : s.optind ≤ i) (hargc : i ≤ s.argv.length)
    {nextchar : Option Text} (hnext : nextchar.getD [] = []) (hwords : words = s.argv.drop i) :
    Scan.At g { s with optind := i, nextchar := nextchar } ⟨[], words⟩ := by
  subst hwords
  exact ⟨h.move hi hargc nextchar, .between hnext⟩

/-! ## One option -/

theorem drop_succ_of_getElem? {argv : List Text} {i : Nat} (h : argv[i]? = some word) :
    i < argv.length ∧ argv.drop i = word :: argv.drop (i + 1) := by
  obtain ⟨hi, hget⟩ := List.getElem?_eq_some_iff.mp h
  exact ⟨hi, by rw [List.drop_eq_getElem_cons hi, hget]⟩

/-- A string without `-W foo` has no semicolon behind an option `W`. -/
theorem NoW.not_semicolon {optstring : Text} (h : NoW optstring) {temp : UInt8} {follows : Text}
    (hdrop : optstring.dropWhile (· ≠ c) = temp :: follows) :
    ¬(temp = 'W'.toUInt8 ∧ follows.head? = some semicolon) := by
  rintro ⟨rfl, hhead⟩
  obtain ⟨rest, rfl⟩ := List.head?_eq_some_iff.mp hhead
  refine h ⟨optstring.takeWhile (· ≠ c), rest, ?_⟩
  have hsplit := List.takeWhile_append_dropWhile (p := fun d => decide (d ≠ c)) (l := optstring)
  rw [hdrop] at hsplit
  simpa using hsplit

/-- A short option: the call has taken the first character of what was left of the element. -/
theorem shortOption_short (hs : s.Sane g) (hword : s.argv[s.optind]? = some word)
    (hlong : g.longopts ≠ none → word[1]? ≠ some dash) (hW : NoW g.current) (o : Options) (c : UInt8) (cluster : Text) :
    Follows g s.argv (.ok (g.short c cluster (s.argv.drop (s.optind + 1))))
      (shortOption o g.printErrors g.current s (c :: cluster)) := by
  obtain ⟨hlt, hdrop⟩ := drop_succ_of_getElem? hword
  have hpass : ∀ r : Reply, Follows g s.argv (.ok (r, ⟨cluster, s.argv.drop (s.optind + 1)⟩))
      (some ({ s with nextchar := some cluster, optind := if cluster = [] then s.optind + 1 else s.optind }, r)) := by
    intro r
    refine ⟨_, rfl, ?_, rfl⟩
    cases cluster with
    | nil => exact hs.between (Nat.le_succ _) hlt rfl rfl
    | cons d cluster => exact ⟨hs.move le_rfl hs.bounded _, .inside rfl hword hlong⟩
  have hprogram : ∀ i n, Scan.program { s with optind := i, nextchar := n } = g.program := fun _ _ => hs.program
  unfold Reader.short argKind shortOption
  simp only [hprogram]
  by_cases hcolon : c = colon
  · simp only [hcolon, if_true]
    split
    · exact hpass _
    · exact hpass _
  · simp only [hcolon, if_false]
    cases hfound : g.current.dropWhile (· ≠ c) with
    | nil => exact hpass _
    | cons temp follows =>
      simp only [hW.not_semicolon hfound, if_false]
      by_cases hone : follows.head? = some colon
      · by_cases htwo : follows.tail.head? = some colon
        · simp only [hone, htwo, if_true]
          by_cases hempty : cluster = []
          · simp only [hempty, if_true]
            exact ⟨_, rfl, hs.between (Nat.le_succ _) hlt rfl rfl, rfl⟩
          · simp only [hempty, if_false]
            exact ⟨_, rfl, hs.between (Nat.le_succ _) hlt rfl rfl, rfl⟩
        · simp only [hone, htwo, if_true, if_false]
          cases cluster with
          | cons d cluster => exact ⟨_, rfl, hs.between (Nat.le_succ _) hlt rfl rfl, rfl⟩
          | nil =>
            simp only [requiredArgument, if_true]
            cases hnext : s.argv[s.optind + 1]? with
            | none =>
              have hend : s.argv.drop (s.optind + 1) = [] := List.drop_eq_nil_of_le (List.getElem?_eq_none_iff.mp hnext)
              simp only [hend, Option.map_none]
              exact ⟨_, rfl, hs.between (Nat.le_succ _) hlt rfl hend.symm, rfl⟩
            | some optarg =>
              obtain ⟨hlt', hdrop'⟩ := drop_succ_of_getElem? hnext
              simp only [hdrop', Option.map_some]
              exact ⟨_, rfl, hs.between (Nat.le_add_right _ 2) hlt' rfl rfl, rfl⟩
      · simp only [hone, if_false]
        exact hpass _

/-- A long option: the call has taken the element, and its argument if that is the next one. -/
theorem longOption_long (hs : s.Sane g) (hword : s.argv[s.optind]? = some word) (longopts : List LongOption)
    (nextchar : Text) :
    Follows g s.argv (.ok (g.long longopts word nextchar (s.argv.drop (s.optind + 1))))
      (some (longOption g.printErrors g.current longopts s word nextchar)) := by
  obtain ⟨hlt, -⟩ := drop_succ_of_getElem? hword
  have hpass : ∀ r : Reply, Follows g s.argv (.ok (r, ⟨[], s.argv.drop (s.optind + 1)⟩))
      (some ({ s with nextchar := some [], optind := s.optind + 1 }, r)) := fun r =>
    ⟨_, rfl, hs.between (Nat.le_succ _) hlt rfl rfl, rfl⟩
  have hlookup := findLong_lookup (nextchar.takeWhile (· ≠ equals)) longopts
  unfold Reader.long longOption
  rw [hs.program]
  cases hkey : lookup (nextchar.takeWhile (· ≠ equals)) longopts with
  | ambiguous =>
    rw [hkey] at hlookup
    cases hfind : findLong true (nextchar.takeWhile (· ≠ equals)) longopts 0 none false with
    | mk pfound ambig =>
      rw [hfind] at hlookup
      cases hlookup
      exact hpass _
  | unknown =>
    rw [hkey] at hlookup
    simp only at hlookup
    simp only [hlookup]
    exact hpass _
  | found index p =>
    rw [hkey] at hlookup
    simp only at hlookup
    simp only [hlookup]
    cases nextchar.dropWhile (· ≠ equals) with
    | cons d optarg => exact hpass _
    | nil =>
      dsimp only
      by_cases harg : p.hasArg = 1
      · simp only [harg, if_true]
        cases hnext : s.argv[s.optind + 1]? with
        | none =>
          have hend : s.argv.drop (s.optind + 1) = [] := List.drop_eq_nil_of_le (List.getElem?_eq_none_iff.mp hnext)
          simp only [hend]
          exact ⟨_, rfl, hs.between (Nat.le_succ _) hlt rfl hend.symm, rfl⟩
        | some optarg =>
          obtain ⟨hlt', hdrop'⟩ := drop_succ_of_getElem? hnext
          simp only [hdrop']
          exact ⟨_, rfl, hs.between (Nat.le_add_right _ 2) hlt' rfl rfl, rfl⟩
      · simp only [harg, if_false]
        exact hpass _

/-! ## One call -/

theorem Scan.Sane.settle (h : s.Sane g) : s.settle = s := by
  have hlast : ¬s.lastNonopt > s.optind := not_lt.mpr h.skipped
  have hfirst : ¬s.firstNonopt > s.optind := by
    rw [h.nonopts]
    exact hlast
  have hordering : s.ordering ≠ .permute := by
    rw [h.ordering]
    split <;> simp
  simp only [Scan.settle, hlast, hfirst, hordering, if_false]

theorem Scan.Sane.finish (h : s.Sane g) : s.finish = s := by
  simp only [Scan.finish, h.nonopts, ne_eq, not_true, if_false]

/-- The element `--` ends the options, and the elements behind it are left. -/
theorem Scan.Sane.takeElement_endOfOptions (h : s.Sane g) (long : Bool) :
    ∃ s', s.endOfOptions.takeElement long = some (.inl (s', { ret := -1 })) ∧ s'.argv = s.argv ∧
      s'.optind = s.optind + 1 := by
  have hend : s.endOfOptions =
      { s with firstNonopt := s.optind + 1, lastNonopt := s.argv.length, optind := s.argv.length } := by
    simp only [Scan.endOfOptions, h.nonopts, ne_eq, not_true, false_and, if_false, if_true]
  refine ⟨s.endOfOptions.finish, ?_, ?_, ?_⟩
  · rw [Scan.takeElement, if_pos]
    rw [hend]
  · rw [hend, Scan.finish]
    split <;> rfl
  · rw [hend, Scan.finish]
    split
    · rfl
    · next heq =>
      simp only [ne_eq, not_not] at heq
      exact heq.symm

theorem next_nonOption (hword : nonOption word = true) :
    g.next ⟨[], word :: words⟩ =
      if g.inOrder then .ok ({ ret := 1, optarg := some word }, ⟨[], words⟩) else .error (word :: words) := by
  match word with
  | [] | [_] => rfl
  | d :: e :: rest =>
    have hd : d ≠ dash := by simpa [nonOption] using hword
    simp [Reader.next, hd]

theorem option_of_nonOption (hword : nonOption word = false) : ∃ d rest, word = dash :: d :: rest := by
  match word with
  | [] | [_] => simp [nonOption] at hword
  | e :: d :: rest =>
    have he : e = dash := by simpa [nonOption] using hword
    exact ⟨d, rest, by rw [he]⟩

/-- Between two elements, a call first goes on to the next one. -/
theorem scanOption_between (hnext : s.nextchar.getD [] = []) :
    scanOption g.toOptions g.current s =
      match s.advance g.longopts.isSome with
      | none => none
      | some (.inl reply) => some reply
      | some (.inr s) => decode g.toOptions g.printErrors g.current s (s.nextchar.getD []) := by
  unfold scanOption
  cases hs' : s.nextchar with
  | none => rfl
  | some nextchar =>
    rw [hs', Option.getD_some] at hnext
    subst hnext
    rfl

/-- A call of `getopt_long` takes the next option. -/
theorem scanOption_next (h : s.At g x) (hW : NoW g.current) :
    Follows g s.argv (g.next x) (scanOption g.toOptions g.current s) := by
  obtain ⟨hs, hplace⟩ := h
  cases hplace with
  | @inside c cluster word hnext hword hlong =>
    unfold scanOption
    rw [hnext]
    dsimp only [decode]
    have hshort := shortOption_short hs hword hlong hW g.toOptions c cluster
    cases hopts : g.longopts with
    | none => exact hshort
    | some longopts =>
      rw [hword]
      simp only [Option.bind_some]
      rw [if_neg (hlong (by simp [hopts]))]
      exact hshort
  | between hnext =>
    rw [scanOption_between hnext, Scan.advance, hs.settle]
    by_cases hend : s.optind = s.argv.length
    · have hdrop : s.argv.drop s.optind = [] := List.drop_eq_nil_of_le hend.ge
      simp only [hend, ne_eq, not_true, if_false, Scan.takeElement, if_true, hs.finish]
      rw [← hend, hdrop]
      exact ⟨s, rfl, rfl, hs.bounded, hdrop⟩
    · have hlt : s.optind < s.argv.length := lt_of_le_of_ne hs.bounded hend
      have hword : s.argv[s.optind]? = some s.argv[s.optind] := List.getElem?_eq_getElem hlt
      generalize s.argv[s.optind] = word at hword
      obtain ⟨-, hdrop⟩ := drop_succ_of_getElem? hword
      rw [hdrop]
      simp only [ne_eq, hend, not_false_eq_true, if_true, hword]
      by_cases hdashes : word = [dash, dash]
      · obtain ⟨s', hcall, hargv, hoptind⟩ := hs.takeElement_endOfOptions g.longopts.isSome
        simp only [hdashes, if_true, hcall]
        refine ⟨s', rfl, hargv, ?_, ?_⟩
        · rw [hoptind]
          exact hlt
        · rw [hoptind]
      · simp only [hdashes, if_false, Scan.takeElement, hend, hword]
        cases hnon : nonOption word with
        | true =>
          rw [next_nonOption hnon]
          cases hinOrder : g.inOrder with
          | true =>
            have hordering : s.ordering ≠ .requireOrder := by simp [hs.ordering, hinOrder]
            simp only [hordering, if_true, if_false]
            exact ⟨_, rfl, hs.between (Nat.le_succ _) hlt hnext rfl, rfl⟩
          | false =>
            have hordering : s.ordering = .requireOrder := by simp [hs.ordering, hinOrder]
            simp only [hordering, if_true]
            exact ⟨s, rfl, rfl, hs.bounded, hdrop⟩
        | false =>
          obtain ⟨c, cluster, rfl⟩ := option_of_nonOption hnon
          have hsecond : (dash :: c :: cluster)[1]? = some c := rfl
          have hmoved : ∀ nextchar, Scan.Sane g { s with nextchar := nextchar } := fun nextchar =>
            hs.move le_rfl hs.bounded nextchar
          simp only [Bool.false_eq_true, if_false]
          unfold Reader.next decode
          simp only [hdashes, if_false, ne_eq, not_true, hsecond, Option.some.injEq]
          cases hopts : g.longopts with
          | none =>
            exact shortOption_short (hmoved (some (c :: cluster))) hword (by simp [hopts]) hW g.toOptions c cluster
          | some longopts =>
            simp only [hword, Option.bind_some, hsecond, Option.some.injEq]
            by_cases hdash : c = dash
            · simp only [hdash, Option.isSome_some, and_self, if_true]
              subst hdash
              exact longOption_long (hmoved (some cluster)) hword longopts cluster
            · simp only [hdash, and_false, if_false]
              refine shortOption_short (hmoved (some (c :: cluster))) hword ?_ hW g.toOptions c cluster
              intro _
              simpa using hdash

/-! ## The calls of a program -/

theorem Reader.parse_error {rest : List Text} (h : g.next x = .error rest) : g.parse x = ([], rest) := by
  rw [Reader.parse]
  split
  · next h' =>
    rw [h] at h'
    cases h'
    rfl
  · next h' =>
    rw [h] at h'
    cases h'

theorem Reader.parse_ok {r : Reply × Input} (h : g.next x = .ok r) :
    g.parse x = (r :: (Reader.parse { g with current := g.optstring } r.2).1,
      (Reader.parse { g with current := g.optstring } r.2).2) := by
  rw [Reader.parse]
  split
  · next h' =>
    rw [h] at h'
    cases h'
  · next h' =>
    rw [h] at h'
    cases h'
    rfl

/-- What is left does not depend on the string of the call. -/
theorem Scan.At.recurrent (h : s.At g x) (current : Text) : s.At { g with current := current } x := by
  obtain ⟨hs, hplace⟩ := h
  refine ⟨⟨hs.program, hs.initialized, hs.ordering, hs.nonopts, hs.skipped, hs.started, hs.bounded⟩, ?_⟩
  cases hplace with
  | between hnext => exact .between hnext
  | inside hnext hword hlong => exact .inside hnext hword hlong

/-- Where the calls of a command line stand: the next one takes the next option. -/
structure Ready (g : Reader) (argv : List Text) (s : Scan) (x : Input) : Prop where
  call : Follows g argv (g.next x) (getoptInternal g.toOptions s)
  noW : NoW g.optstring

/-- After the first call the string is used as it is. -/
theorem Scan.At.ready (h : s.At g x) (hcurrent : g.current = g.optstring) (hW : NoW g.optstring) :
    Ready g s.argv s x := by
  refine ⟨?_, hW⟩
  have hargc : ¬s.argv.length < 1 := by
    have hstarted := h.sane.started
    have hbounded := h.sane.bounded
    omega
  have hinit : ¬(s.optind = 0 ∨ s.initialized = false) := by
    have hstarted := h.sane.started
    simp only [h.sane.initialized, not_or, Bool.true_eq_false, not_false_iff, and_true]
    omega
  rw [getoptInternal, if_neg hargc, if_neg hinit, ← hcurrent]
  exact scanOption_next h (by rwa [hcurrent])

variable {argv rest : List Text} {r : Reply × Input}

theorem Ready.ok (h : Ready g argv s x) (hnext : g.next x = .ok r) :
    ∃ s', getoptInternal g.toOptions s = some (s', r.1) ∧ s'.At g r.2 ∧ s'.argv = argv ∧
      Ready { g with current := g.optstring } argv s' r.2 := by
  have hcall := h.call
  rw [hnext] at hcall
  obtain ⟨s', hcall, hplace, hargv⟩ := hcall
  refine ⟨s', hcall, hplace, hargv, ?_⟩
  rw [← hargv]
  exact (hplace.recurrent g.optstring).ready rfl h.noW

theorem Ready.error (h : Ready g argv s x) (hnext : g.next x = .error rest) :
    ∃ s', getoptInternal g.toOptions s = some (s', { ret := -1 }) ∧ s'.argv = argv ∧ s'.optind ≤ argv.length ∧
      argv.drop s'.optind = rest := by
  have hcall := h.call
  rw [hnext] at hcall
  exact hcall

/-- The calls that follow each other give the options that are left. -/
theorem Ready.reads (h : Ready g argv s x) : Reads g.toOptions argv s (g.parse x) := by
  induction g, x using Reader.parse.induct generalizing s with
  | case1 g x rest hnext =>
    obtain ⟨s', hcall, hargv, hbounded, hrest⟩ := h.error hnext
    rw [Reader.parse_error hnext]
    refine ⟨s', ?_, hargv, hbounded, hrest⟩
    simp [calls, hcall]
  | case2 g x r hnext ih =>
    obtain ⟨s', hcall, -, -, hready⟩ := h.ok hnext
    obtain ⟨t, hcalls, hargv, hbounded, hrest⟩ := ih hready
    rw [Reader.parse_ok hnext]
    refine ⟨t, ?_, hargv, hbounded, hrest⟩
    rw [List.length_cons, calls, hcall]
    dsimp only
    rw [hcalls]
    rfl

theorem NoW.tail {optstring : Text} (h : NoW optstring) : NoW optstring.tail := fun hsub =>
  h (hsub.trans (List.tail_suffix optstring).isInfix)

theorem initialize_eq (o : Options) (program : Text) (s : Scan) :
    s.getoptInitialize o.optstring =
      ({ s with
          firstNonopt := s.optind
          lastNonopt := s.optind
          nextchar := none
          initialized := true
          ordering := if (o.reader program).inOrder then .returnInOrder else .requireOrder },
        (o.reader program).current) := by
  unfold Scan.getoptInitialize Options.reader Reader.inOrder
  by_cases hdash : o.optstring.head? = some dash
  · simp only [hdash, if_true, true_or, decide_true]
  · by_cases hplus : o.optstring.head? = some plus
    · have hne : plus ≠ dash := by decide
      simp [hplus, hne]
    · simp [hdash, hplus, posixlyCorrect]

/-- The first call after a reset starts behind the name of the program. -/
theorem getoptInternal_reset (o : Options) {program : Text} (hs : s.argv = program :: words) :
    ∃ s', getoptInternal o s.reset = scanOption o (o.reader program).current s' ∧
      s'.At (o.reader program) ⟨[], words⟩ ∧ s'.argv = s.argv := by
  have hargc : ¬s.reset.argv.length < 1 := by simp [Scan.reset, hs]
  rw [getoptInternal, if_neg hargc, if_pos (.inr rfl)]
  dsimp only
  rw [initialize_eq o program]
  refine ⟨_, rfl, ⟨⟨?_, rfl, rfl, rfl, le_rfl, le_rfl, ?_⟩, ?_⟩, rfl⟩
  · simp [Scan.program, Scan.reset, hs, Options.reader]
  · simp [Scan.reset, hs]
  · have hplace : words = s.argv.drop 1 := by rw [hs]; rfl
    rw [hplace]
    exact .between rfl

theorem ready_reset (o : Options) (hW : NoW o.optstring) {program : Text} (hs : s.argv = program :: words) :
    Ready (o.reader program) s.argv s.reset ⟨[], words⟩ := by
  obtain ⟨s', hcall, hplace, hargv⟩ := getoptInternal_reset o hs
  have hW' : NoW (o.reader program).current := by
    simp only [Options.reader]
    split
    · exact hW.tail
    · exact hW
  refine ⟨?_, hW⟩
  have hfirst := scanOption_next hplace hW'
  rw [hargv] at hfirst
  exact hcall.symm ▸ hfirst

end BofStd.Getopt
