import BofStd.BofCommandLineParserSpec
import BofStd.Proofs.BofGetoptProofs

/-!
# `BofCommandLineParser::ToByte` does what the command line says

`toByte_eq` says what `ToByte` does with any command line, `toByte_elements_iff` which ways to write options down it
understands, and `toByte_in_bounds_iff` when its arrays are large enough.
-/

namespace BofStd.BofCommandLineParser

open BofParameter Getopt Retry StdString

variable {options : List CommandLineOption} {g : Reader} {s : Scan} {x : Input} {argv words : List Text} {c : UInt8}
  {r : Reply × Input}

/-! ## The tables -/

theorem getOptTables_eq {short short' : Text} {long long' : List LongOption}
    (h : getOptTables options short long = some (.ok (short', long'))) :
    short' = short ++ shortString options ∧ long' = long ++ longTable options := by
  induction options generalizing short long with
  | nil =>
    simp only [getOptTables] at h
    split at h
    · simp only [Option.some.injEq, Except.ok.injEq, Prod.mk.injEq] at h
      simp [shortString, longTable, h.1, h.2]
    · simp at h
  | cons p options ih =>
    simp only [getOptTables] at h
    split at h
    · next hlength =>
      split at h
      · obtain ⟨hshort, hlong⟩ := ih h
        simp only [hshort, hlong, shortString, longTable, List.flatMap_cons, List.filter_cons, hlength, if_true]
        refine ⟨?_, by simp⟩
        split <;> simp
      · simp at h
    · next hlength =>
      split at h
      · split at h
        · obtain ⟨hshort, hlong⟩ := ih h
          simp [hshort, hlong, shortString, longTable, hlength]
        · simp at h
      · simp at h

/-- What an option that is not refused adds to the tables. -/
theorem getOptTables_cons {done rest : List CommandLineOption} {p : CommandLineOption}
    (hroom : (longTable done).length ≤ longSize) :
    getOptTables (p :: rest) (shortString done) (longTable done) =
      if Refused done p then some (.error .parser)
      else if (longTable (done ++ [p])).length ≤ longSize then
        getOptTables rest (shortString (done ++ [p])) (longTable (done ++ [p]))
      else none := by
  have hshort : shortString (done ++ [p]) = shortString done ++ shortString [p] := by simp [shortString]
  have hlong : longTable (done ++ [p]) = longTable done ++ longTable [p] := by simp [longTable]
  rw [getOptTables, hshort, hlong]
  by_cases hlength : p.Name_S.length = 1
  · have hone : longTable [p] = [] := by simp [longTable, hlength]
    rw [if_pos hlength, hone, List.append_nil, if_pos hroom]
    by_cases hrefused : Refused done p
    · rw [if_pos hrefused, if_neg]
      rintro ⟨hsize, hname⟩
      exact hrefused.2.elim (fun h => absurd hsize (not_lt.mpr h)) hname
    · have hneither : ¬(shortSize - 3 ≤ (shortString done).length ∨ p.Name_S = ['?'.toUInt8]) := fun h =>
        hrefused ⟨hlength, h⟩
      rw [not_or, not_le] at hneither
      rw [if_neg hrefused, if_pos hneither]
      simp only [shortString, List.flatMap_singleton, hlength, if_true]
      split <;> simp
  · have hone : shortString [p] = [] := by simp [shortString, hlength]
    have hrefused : ¬Refused done p := fun h => hlength h.1
    have hbytes : (longTable done).length < longBytes - 2 := by
      have hsizes : longSize < longBytes - 2 := by decide
      omega
    rw [if_neg hlength, if_pos hbytes, if_neg hrefused, hone, List.append_nil]
    simp only [longTable, List.length_append, List.length_map, ne_eq, hlength, not_false_eq_true, decide_true,
      List.filter_cons_of_pos, List.filter_nil, List.map_cons, List.map_nil, List.length_singleton,
      Nat.lt_iff_add_one_le]

theorem accepted_nil : Accepted [] := by
  intro before p after h
  simp at h

theorem accepted_append_iff {done : List CommandLineOption} {p : CommandLineOption} :
    Accepted (done ++ [p]) ↔ Accepted done ∧ ¬Refused done p := by
  constructor
  · intro h
    exact ⟨fun before q after hdone => h before q (after ++ [p]) (by simp [hdone]), h done p [] rfl⟩
  · rintro ⟨hdone, hp⟩ before q after h
    rcases List.eq_nil_or_concat after with rfl | ⟨after, r, rfl⟩
    · obtain ⟨rfl, hq⟩ := List.append_inj' h rfl
      obtain rfl := List.singleton_inj.mp hq
      exact hp
    · have hsplit : done ++ [p] = before ++ q :: after ++ [r] := by simpa using h
      exact hdone before q after (List.append_inj' hsplit rfl).1

theorem Accepted.of_append {done rest : List CommandLineOption} (h : Accepted (done ++ rest)) : Accepted done :=
  fun before p after hdone => h before p (after ++ rest) (by simp [hdone])

/-- The table has room for the rest of the options behind those that are in it. -/
def FitsBehind (done rest : List CommandLineOption) : Prop :=
  (∀ before after, rest = before ++ after → Accepted (done ++ before) →
      (longTable (done ++ before)).length ≤ longSize) ∧
    (Accepted (done ++ rest) → (longTable (done ++ rest)).length < longSize)

theorem fitsBehind_cons_iff {done rest : List CommandLineOption} {p : CommandLineOption}
    (hroom : (longTable done).length ≤ longSize) : FitsBehind done (p :: rest) ↔ FitsBehind (done ++ [p]) rest := by
  simp only [FitsBehind, List.append_assoc, List.singleton_append]
  refine and_congr_left fun _ => ⟨fun h before after hrest => h (p :: before) after (by simp [hrest]), ?_⟩
  intro h before after hrest haccepted
  cases before with
  | nil => simpa using hroom
  | cons q before =>
    obtain ⟨rfl, hrest'⟩ := List.cons.inj hrest
    exact h before after hrest' haccepted

/-- The rest of the options is put into the tables without a store outside exactly if there is room for it. -/
theorem getOptTables_ne_none_iff {done rest : List CommandLineOption} (haccepted : Accepted done)
    (hroom : (longTable done).length ≤ longSize) :
    getOptTables rest (shortString done) (longTable done) ≠ none ↔ FitsBehind done rest := by
  induction rest generalizing done with
  | nil => simp [getOptTables, FitsBehind, haccepted, hroom]
  | cons p rest ih =>
    rw [fitsBehind_cons_iff hroom, getOptTables_cons hroom]
    by_cases hrefused : Refused done p
    · have hnot : ∀ before, ¬Accepted (done ++ p :: before) := by
        intro before h
        rw [List.append_cons] at h
        exact (accepted_append_iff.mp h.of_append).2 hrefused
      simp [FitsBehind, hrefused, hnot]
    · have hnext : Accepted (done ++ [p]) := accepted_append_iff.mpr ⟨haccepted, hrefused⟩
      rw [if_neg hrefused]
      split
      · next hroom' => exact ih hnext hroom'
      · next hfull =>
        simp only [ne_eq, not_true_eq_false, false_iff]
        intro hfits
        have hroom' := hfits.1 [] rest rfl (by simpa using hnext)
        rw [List.append_nil] at hroom'
        exact hfull hroom'

theorem tables_ne_none_iff (options : List CommandLineOption) : getOptTables options [] [] ≠ none ↔ Fits options :=
  getOptTables_ne_none_iff accepted_nil (Nat.zero_le _)

/-! ## The replies -/

/-- A reply that is not the end, and whose index is that of a long option. -/
def Good (longopts : List LongOption) (r : Reply) : Prop := 0 ≤ r.ret ∧ ∀ i, r.longind = some i → i < longopts.length

theorem charInt_eq (h : c < 0x80) : charInt c = c.toNat := by
  have hlt : c.toNat < 128 := h
  have hbits : charInt c = c.toBitVec.toInt := rfl
  rw [hbits, BitVec.toInt_eq_toNat_of_lt]
  · rfl
  · show 2 * c.toNat < 2 ^ 8
    omega

theorem charInt_nonneg (h : c < 0x80) : 0 ≤ charInt c := by
  rw [charInt_eq h]
  exact Int.natCast_nonneg _

theorem mem_of_argKind {optstring : Text} (h : argKind optstring c ≠ .illegal) : c ∈ optstring := by
  by_contra hc
  apply h
  have hdrop : optstring.dropWhile (· ≠ c) = [] := by
    rw [List.dropWhile_eq_nil_iff]
    intro d hd
    simp only [decide_eq_true_eq]
    rintro rfl
    exact hc hd
  unfold argKind
  rw [hdrop]
  split <;> rfl

theorem missing_nonneg (optstring : Text) : 0 ≤ missing optstring := by
  unfold missing question
  split <;> simp

theorem short_good (hascii : Ascii g.current) (longopts : List LongOption) (c : UInt8) (cluster : Text)
    (words : List Text) : Good longopts (g.short c cluster words).1 := by
  have hc : argKind g.current c ≠ .illegal → 0 ≤ charInt c := fun h => charInt_nonneg (hascii c (mem_of_argKind h))
  unfold Reader.short
  split
  · exact ⟨by simp [illegalReply, question], by simp [illegalReply]⟩
  · next h => exact ⟨hc (by simp [h]), by simp⟩
  · next h => exact ⟨hc (by simp [h]), by simp⟩
  · next h =>
    split
    · exact ⟨hc (by simp [h]), by simp⟩
    · exact ⟨hc (by simp [h]), by simp⟩
    · exact ⟨missing_nonneg _, by simp [missingReply]⟩

theorem lookup_found {key : Text} {longopts : List LongOption} {index : Nat} {p : LongOption}
    (h : lookup key longopts = .found index p) : longopts[index]? = some p := by
  unfold lookup at h
  split at h
  · next hfind =>
    cases h
    exact List.mem_zipIdx_iff_getElem?.mp (List.mem_of_find?_eq_some hfind)
  · split at h
    · cases h
    · next hcs =>
      split at h
      · cases h
        have hmem : (p, index) ∈ abbreviated key longopts := by rw [hcs]; exact List.mem_cons_self ..
        exact List.mem_zipIdx_iff_getElem?.mp (List.mem_filter.mp hmem).1
      · cases h

theorem foundReply_good {longopts : List LongOption} {index : Nat} {p : LongOption} (hp : longopts[index]? = some p)
    (hval : 0 ≤ p.val) (optarg : Option Text) : Good longopts (foundReply index p optarg) := by
  obtain ⟨hlt, -⟩ := List.getElem?_eq_some_iff.mp hp
  unfold foundReply
  split
  · exact ⟨le_rfl, by rintro i ⟨⟩; exact hlt⟩
  · exact ⟨hval, by rintro i ⟨⟩; exact hlt⟩

theorem long_good {longopts : List LongOption} (hval : ∀ p ∈ longopts, 0 ≤ p.val) (word text : Text)
    (words : List Text) : Good longopts (g.long longopts word text words).1 := by
  unfold Reader.long
  split
  · exact ⟨by simp [ambiguousReply, question], by simp [ambiguousReply]⟩
  · exact ⟨by simp [unrecognizedReply, question], by simp [unrecognizedReply]⟩
  · next index p hkey =>
    have hp := lookup_found hkey
    have hgood := foundReply_good hp (hval p (List.mem_of_getElem? hp))
    split
    · dsimp only
      split
      · exact hgood _
      · exact ⟨by simp [notAllowedReply, question], by simp [notAllowedReply]⟩
    · split
      · split
        · exact hgood _
        · exact ⟨missing_nonneg _, by simp [requiresReply]⟩
      · exact hgood _

theorem next_good {longopts : List LongOption} (hopts : g.longopts = some longopts)
    (hval : ∀ p ∈ longopts, 0 ≤ p.val) (hascii : Ascii g.current) (h : g.next x = .ok r) : Good longopts r.1 := by
  unfold Reader.next at h
  split at h
  · cases h
    exact short_good hascii ..
  · cases h
  · split at h
    · split at h
      · cases h
      · split at h
        · split at h <;> cases h
          exact ⟨by simp, by simp⟩
        · rw [hopts] at h
          dsimp only at h
          split at h <;> cases h
          · exact long_good hval ..
          · exact short_good hascii ..
    · split at h <;> cases h
      exact ⟨by simp, by simp⟩

/-! ## The loop -/

/-- The index of a scan is where what is left of the command line begins. -/
theorem optind_add_left (h : s.At g x) : s.optind + left x = s.argv.length := by
  obtain ⟨hs, hplace⟩ := h
  have hbounded := hs.bounded
  cases hplace with
  | between => simp [left]; omega
  | inside _ hword _ =>
    obtain ⟨hlt, -⟩ := drop_succ_of_getElem? hword
    simp [left]
    omega

theorem findLongName_isSome {index : Nat} {p : LongOption} (hp : (longTable options)[index]? = some p) :
    (findLongName options p.name).isSome := by
  obtain ⟨q, hq, rfl⟩ := List.mem_map.mp (List.mem_of_getElem? hp)
  rw [findLongName, List.findIdx?_isSome, List.any_eq_true]
  obtain ⟨hmem, hlength⟩ := List.mem_filter.mp hq
  exact ⟨q, hmem, by simpa using hlength⟩

/-- Whether an event is an error. -/
def Event.isError : Event → Bool
  | .error _ => true
  | .parse _ _ => false

theorem result_eq (events : List Event) :
    result events = (if events.any Event.isError then .parser else .noError, events) := rfl

/-- A turn of the loop with a good reply. -/
theorem round_again (o : Options) (optopt : Int) (err : BofErr) (events : List Event) {s' : Scan}
    (hcall : getoptInternal o s = some (s', r.1)) (hplace : s'.At g r.2) (hargv : s'.argv = argv)
    (hgood : Good (longTable options) r.1) :
    ∃ optopt', round options o (longTable options) ⟨s, optopt, err, events⟩ =
      .again ⟨s', optopt', if (event options argv r).isError then .parser else err,
        events ++ [event options argv r]⟩ := by
  obtain ⟨hret, hindex⟩ := hgood
  have hend : r.1.ret ≠ -1 := by omega
  subst hargv
  unfold round
  rw [hcall]
  simp only [hend, if_false]
  cases hlong : r.1.longind with
  | some index =>
    obtain ⟨p, hp⟩ : ∃ p, (longTable options)[index]? = some p :=
      ⟨_, List.getElem?_eq_getElem (hindex index hlong)⟩
    obtain ⟨i, hi⟩ := Option.isSome_iff_exists.mp (findLongName_isSome hp)
    simp only [optionOf, hlong, hp, hi, Option.map_some, ge_iff_le, hret, if_true, event, Option.bind_some,
      Event.isError]
    exact ⟨_, rfl⟩
  | none =>
    cases hshort : findShort options (UInt8.ofInt r.1.ret) with
    | some i =>
      simp only [optionOf, hlong, hshort, ge_iff_le, hret, if_true, event, Option.map_some, Event.isError]
      exact ⟨_, rfl⟩
    | none =>
      have hoptind := optind_add_left hplace
      have hstarted := hplace.sane.started
      have hlt : s'.optind - 1 < s'.argv.length := by omega
      have hplace' : s'.argv.length - left r.2 - 1 = s'.optind - 1 := by omega
      simp only [optionOf, hlong, hshort, if_true, List.getElem?_eq_getElem hlt, ge_iff_le, hret, event,
        Option.map_none, hplace', List.getD_eq_getElem?_getD, Option.getD_some, Event.isError]
      exact ⟨_, rfl⟩

/-- The loop from any place on. -/
theorem loop_ready (h : Ready g argv s x) (hopts : g.toOptions = getoptOptions options) (hcurrent : Ascii g.current)
    (hascii : Ascii g.optstring) {fuel : Nat} (hfuel : (g.parse x).1.length < fuel) (optopt : Int) (err : BofErr)
    (events : List Event) :
    loop (round options (getoptOptions options) (longTable options)) fuel ⟨s, optopt, err, events⟩ =
      some (some (if ((g.parse x).1.map (event options argv)).any Event.isError then .parser else err,
        events ++ (g.parse x).1.map (event options argv))) := by
  induction g, x using Reader.parse.induct generalizing s fuel optopt err events with
  | case1 g x rest hnext =>
    obtain ⟨s', hcall, -⟩ := h.error hnext
    obtain ⟨fuel, rfl⟩ := Nat.exists_eq_succ_of_ne_zero (Nat.ne_of_gt (Nat.zero_lt_of_lt hfuel))
    rw [hopts] at hcall
    rw [loop_stop (r := some (err, events))]
    · simp [Reader.parse_error hnext]
    · unfold round
      rw [hcall]
      rfl
  | case2 g x r hnext ih =>
    obtain ⟨s', hcall, hplace, hargv, hready⟩ := h.ok hnext
    have hparse := Reader.parse_ok hnext
    rw [hparse, List.length_cons] at hfuel
    obtain ⟨fuel, rfl⟩ := Nat.exists_eq_succ_of_ne_zero (Nat.ne_of_gt (Nat.zero_lt_of_lt hfuel))
    have hlong : g.longopts = some (longTable options) := by rw [hopts]; rfl
    have hval : ∀ p ∈ longTable options, 0 ≤ p.val := by
      intro p hp
      obtain ⟨q, -, rfl⟩ := List.mem_map.mp hp
      exact le_rfl
    rw [hopts] at hcall
    have hgood := next_good hlong hval hcurrent hnext
    obtain ⟨optopt', hround⟩ := round_again (getoptOptions options) optopt err events hcall hplace hargv hgood
    rw [loop_again hround, ih hready hopts hascii hascii (Nat.lt_of_succ_lt_succ hfuel), hparse]
    simp only [List.map_cons, List.any_cons, List.append_assoc, List.singleton_append]
    cases (event options argv r).isError with
    | true => simp
    | false => rfl

theorem parse_length_le (g : Reader) (x : Input) : (g.parse x).1.length ≤ x.size := by
  induction g, x using Reader.parse.induct with
  | case1 g x rest hnext => simp [Reader.parse_error hnext]
  | case2 g x r hnext ih =>
    have hsize := Reader.next_size hnext
    rw [Reader.parse_ok hnext, List.length_cons]
    omega

/-- Every option of the command line comes to its event, in order, and `ToByte` fails exactly if one of them is an
error. -/
theorem toByte_eq {short : Text} {long : List LongOption}
    (htables : getOptTables options [] [] = some (.ok (short, long))) (hW : NoW short) (hascii : Ascii short)
    {program word : Text} (hargv : argv = program :: word :: words) (scan : Scan) (optopt : Int) {fuel : Nat}
    (hfuel : Input.size ⟨[], word :: words⟩ < fuel) :
    toByte fuel argv options scan optopt =
      some (result ((((getoptOptions options).reader program).parse ⟨[], word :: words⟩).1.map
        (event options argv))) := by
  obtain ⟨rfl, rfl⟩ := getOptTables_eq htables
  simp only [List.nil_append] at htables hW hascii
  have hready := ready_reset (s := { scan with argv := argv }) (getoptOptions options) hW hargv
  have hcurrent : Ascii ((getoptOptions options).reader program).current := by
    simp only [Options.reader]
    split
    · exact fun c hc => hascii c (List.mem_of_mem_tail hc)
    · exact hascii
  have hloop := loop_ready hready rfl hcurrent hascii ((parse_length_le _ _).trans_lt hfuel) optopt .noError []
  unfold toByte
  rw [if_neg (by simp [hargv]), if_neg (by simp [hargv]), htables]
  rw [List.nil_append] at hloop
  exact congrArg Option.join hloop

/-! ## Short and long names -/

theorem mem_shortString {d : UInt8} (h : d ∈ shortString options) : d = colon ∨ ∃ p ∈ options, p.Name_S = [d] := by
  obtain ⟨p, hp, hd⟩ := List.mem_flatMap.mp h
  split at hd
  · next hlength =>
    obtain ⟨e, he⟩ := List.length_eq_one_iff.mp hlength
    rw [he] at hd
    split at hd
    · rw [List.mem_append, List.mem_singleton, List.mem_singleton] at hd
      rcases hd with rfl | rfl
      · exact .inr ⟨p, hp, he⟩
      · exact .inl rfl
    · rw [List.mem_singleton] at hd
      exact .inr ⟨p, hp, by rw [he, hd]⟩
  · simp at hd

theorem head?_shortString {d : UInt8} (h : (shortString options).head? = some d) : ∃ p ∈ options, p.Name_S = [d] := by
  induction options with
  | nil => simp [shortString] at h
  | cons p options ih =>
    rw [shortString, List.flatMap_cons] at h
    by_cases hlength : p.Name_S.length = 1
    · obtain ⟨e, he⟩ := List.length_eq_one_iff.mp hlength
      refine ⟨p, List.mem_cons_self .., ?_⟩
      rw [if_pos hlength, he] at h
      rw [he]
      split at h <;> simpa using h
    · rw [if_neg hlength, List.nil_append] at h
      obtain ⟨q, hq, hname⟩ := ih h
      exact ⟨q, List.mem_cons_of_mem _ hq, hname⟩

theorem Distinct.not_mem (h : Distinct options) {d : UInt8} (hd : d ∈ [0, dash, plus, semicolon, '?'.toUInt8]) :
    d ∉ shortString options := by
  intro hmem
  have hcolon : d ≠ colon := by
    rintro rfl
    revert hd
    decide
  obtain ⟨p, hp, hname⟩ := (mem_shortString hmem).resolve_left hcolon
  refine (h.short p hp d hname).2 ?_
  simp only [List.mem_cons, List.not_mem_nil, or_false] at hd ⊢
  tauto

theorem Distinct.ascii (h : Distinct options) : Ascii (shortString options) := by
  intro d hd
  rcases mem_shortString hd with rfl | ⟨p, hp, hname⟩
  · decide
  · exact (h.short p hp d hname).1

theorem Distinct.noW (h : Distinct options) : NoW (shortString options) := fun hsub =>
  h.not_mem (by simp) (hsub.subset (by simp : semicolon ∈ ['W'.toUInt8, semicolon]))

/-- The first occurrence of a short option in the string, and what follows it. -/
theorem Distinct.shortString_dropWhile (h : Distinct options) {needArg : Bool} (hc : HasShort options c needArg) :
    ∃ post, (shortString options).dropWhile (· ≠ c) = c :: ((if needArg then [colon] else []) ++ post) ∧
      post.head? ≠ some colon := by
  obtain ⟨p, hp, hname, hneed⟩ := hc
  obtain ⟨before, after, rfl⟩ := List.append_of_mem hp
  have hcolon : c ≠ colon := by
    rintro rfl
    exact (h.short p hp _ hname).2 (by simp)
  refine ⟨shortString after, ?_, ?_⟩
  · have hbefore : c ∉ shortString before := by
      intro hmem
      obtain ⟨q, hq, hqname⟩ := (mem_shortString hmem).resolve_left hcolon
      have hnodup := h.nodup
      rw [List.map_append, List.map_cons] at hnodup
      have hdisjoint := (List.nodup_append.mp hnodup).2.2
      exact hdisjoint _ (List.mem_map_of_mem hq) _ (List.mem_cons_self ..) (by rw [hqname, hname])
    have hsplit : shortString (before ++ p :: after) =
        shortString before ++ c :: ((if needArg then [colon] else []) ++ shortString after) := by
      simp only [shortString, List.flatMap_append, List.flatMap_cons, hname, List.length_singleton, if_true, hneed]
      cases needArg <;> simp
    rw [hsplit, List.dropWhile_append_of_pos]
    · rw [List.dropWhile_cons_of_neg (by simp)]
    · intro d hd
      simp only [decide_eq_true_eq]
      rintro rfl
      exact hbefore hd
  · intro hhead
    obtain ⟨q, hq, hqname⟩ := head?_shortString hhead
    refine (h.short q ?_ _ hqname).2 (by simp)
    exact List.mem_append_right _ (List.mem_cons_of_mem _ hq)

theorem Distinct.argKind_eq (h : Distinct options) {needArg : Bool} (hc : HasShort options c needArg) :
    argKind (shortString options) c = if needArg then .required else .none := by
  obtain ⟨post, hdrop, hpost⟩ := h.shortString_dropWhile hc
  obtain ⟨p, hp, hname, -⟩ := hc
  have hcolon : c ≠ colon := by
    rintro rfl
    exact (h.short p hp _ hname).2 (by simp)
  rw [argKind, if_neg hcolon, hdrop]
  cases needArg with
  | true => simp [hpost]
  | false => simp [hpost]

theorem findShort_eq {needArg : Bool} (hc : HasShort options c needArg) :
    findShort options c = some (options.findIdx fun p => p.Name_S = [c]) := by
  obtain ⟨p, hp, hname, -⟩ := hc
  rw [findShort, List.findIdx?_eq_some_iff_findIdx_eq]
  exact ⟨List.findIdx_lt_length_of_exists ⟨p, hp, by simpa using hname⟩, rfl⟩

theorem cStr_of_not_mem {name : Text} (h : 0 ∉ name) : cStr name = name := by
  rw [cStr, List.takeWhile_eq_self_iff]
  intro d hd
  simp only [decide_eq_true_eq]
  rintro rfl
  exact h hd

/-- A long name is the name of one option. -/
theorem Distinct.lookup_eq (h : Distinct options) {p : CommandLineOption} (hp : p ∈ options)
    (hlength : p.Name_S.length ≠ 1) :
    ∃ index, lookup p.Name_S (longTable options) = .found index ⟨p.Name_S, p.ArgFlag_E.toInt32.toInt, none, 0⟩ := by
  have hname : ∀ q ∈ options, q.Name_S.length ≠ 1 → cStr q.Name_S = q.Name_S := fun q hq hqlength =>
    cStr_of_not_mem ((h.long q hq).2 hqlength).2
  have hmem : (⟨p.Name_S, p.ArgFlag_E.toInt32.toInt, none, 0⟩ : LongOption) ∈ longTable options := by
    refine List.mem_map.mpr ⟨p, List.mem_filter.mpr ⟨hp, by simpa using hlength⟩, ?_⟩
    rw [hname p hp hlength]
  cases hfind : (longTable options).zipIdx.find? fun e => e.1.name = p.Name_S with
  | none =>
    obtain ⟨index, hindex⟩ := List.getElem?_of_mem hmem
    have hnot := List.find?_eq_none.mp hfind (_, index) (List.mem_zipIdx_iff_getElem?.mpr hindex)
    simp at hnot
  | some e =>
    obtain ⟨q, index⟩ := e
    have hqname : q.name = p.Name_S := by simpa using List.find?_some hfind
    have hq := List.mem_of_getElem? (List.mem_zipIdx_iff_getElem?.mp (List.mem_of_find?_eq_some hfind))
    obtain ⟨q', hq', rfl⟩ := List.mem_map.mp hq
    obtain ⟨hmem', hlength'⟩ := List.mem_filter.mp hq'
    rw [hname q' hmem' (by simpa using hlength')] at hqname
    have hsame : q' = p := List.inj_on_of_nodup_map h.nodup hmem' hp hqname
    refine ⟨index, ?_⟩
    rw [lookup, hfind]
    dsimp only
    rw [hname q' hmem' (by simpa using hlength'), hsame]

theorem findIdx?_congr {α : Type*} {f f' : α → Bool} {l : List α} (h : ∀ a ∈ l, f a = f' a) :
    l.findIdx? f = l.findIdx? f' := by
  induction l with
  | nil => rfl
  | cons a l ih =>
    rw [List.forall_mem_cons] at h
    rw [List.findIdx?_cons, List.findIdx?_cons, h.1, ih h.2]

theorem Distinct.findLongName_eq (h : Distinct options) {p : CommandLineOption} (hp : p ∈ options)
    (hlength : p.Name_S.length ≠ 1) :
    findLongName options p.Name_S = some (options.findIdx fun q => q.Name_S = p.Name_S) := by
  have hiff : ∀ q ∈ options,
      decide (q.Name_S.length ≠ 1 ∧ cStr q.Name_S = p.Name_S) = decide (q.Name_S = p.Name_S) := by
    intro q hq
    rw [decide_eq_decide]
    constructor
    · rintro ⟨hqlength, hname⟩
      rwa [cStr_of_not_mem ((h.long q hq).2 hqlength).2] at hname
    · intro hname
      rw [hname]
      exact ⟨hlength, cStr_of_not_mem ((h.long p hp).2 hlength).2⟩
  rw [findLongName, findIdx?_congr hiff, List.findIdx?_eq_some_iff_findIdx_eq]
  exact ⟨List.findIdx_lt_length_of_exists ⟨p, hp, by simp⟩, rfl⟩

/-! ## The ways to write options down -/

/-- From `x` on the command line comes to these events, and then it goes on at `y`. -/
def Yields (options : List CommandLineOption) (argv : List Text) (g : Reader) (x : Input) (events : List Event)
    (y : Input) : Prop :=
  (g.parse x).1.map (event options argv) = events ++ (g.parse y).1.map (event options argv)

theorem Yields.refl (x : Input) : Yields options argv g x [] x := rfl

theorem Yields.trans {y z : Input} {events events' : List Event} (h : Yields options argv g x events y)
    (h' : Yields options argv g y events' z) : Yields options argv g x (events ++ events') z := by
  rw [Yields, h, h', List.append_assoc]

theorem Yields.of_next (options : List CommandLineOption) (argv : List Text) (hcurrent : g.current = g.optstring)
    (hnext : g.next x = .ok r) :
    Yields options argv g x [event options argv r] r.2 := by
  have hsame : ({ g with current := g.optstring } : Reader) = g := by rw [← hcurrent]
  rw [Yields, Reader.parse_ok hnext, hsame]
  rfl

/-- A short element is read like its options. -/
theorem Yields.of_dash (hc : c ≠ dash) {cluster : Text} {events : List Event}
    {y : Input} (h : Yields options argv g ⟨c :: cluster, words⟩ events y) :
    Yields options argv g ⟨[], (dash :: c :: cluster) :: words⟩ events y := by
  have hnext : g.next ⟨[], (dash :: c :: cluster) :: words⟩ = g.next ⟨c :: cluster, words⟩ := by
    simp only [Reader.next, hc, List.cons.injEq, true_and, false_and, if_false, ne_eq, not_true]
    split <;> rfl
  have hparse : g.parse ⟨[], (dash :: c :: cluster) :: words⟩ = g.parse ⟨c :: cluster, words⟩ := by
    cases hread : g.next ⟨c :: cluster, words⟩ with
    | error rest => rw [Reader.parse_error hread, Reader.parse_error (hnext.trans hread)]
    | ok r => rw [Reader.parse_ok hread, Reader.parse_ok (hnext.trans hread)]
  rw [Yields, hparse]
  exact h

/-- The reader of the options of a program. -/
theorem Distinct.reader_current (h : Distinct options) (program : Text) :
    ((getoptOptions options).reader program).current = shortString options := by
  have hdash : (shortString options).head? ≠ some dash := fun hhead =>
    h.not_mem (by simp) (List.mem_of_mem_head? hhead)
  have hplus : (shortString options).head? ≠ some plus := fun hhead =>
    h.not_mem (by simp) (List.mem_of_mem_head? hhead)
  simp only [Options.reader, getoptOptions, hdash, hplus, or_self, if_false]

section elements

variable (argv) (h : Distinct options) (hg : g.current = shortString options)
  (hopts : g.toOptions = getoptOptions options)

include hopts in
theorem optstring_eq : g.optstring = shortString options := by rw [hopts]; rfl

theorem Distinct.ofInt_charInt {needArg : Bool} (h : Distinct options) (hc : HasShort options c needArg) :
    UInt8.ofInt (charInt c) = c ∧ c ≠ dash := by
  obtain ⟨p, hp, hname, -⟩ := hc
  obtain ⟨hascii, hnot⟩ := h.short p hp c hname
  refine ⟨?_, ?_⟩
  · rw [charInt_eq hascii]
    apply UInt8.toNat_inj.mp
    rw [UInt8.ofInt, UInt8.toNat_ofNat']
    have hlt := c.toNat_lt
    omega
  · rintro rfl
    exact hnot (by simp)

/-- The event of a short option. -/
theorem event_short {needArg : Bool} (h : Distinct options) (hc : HasShort options c needArg) (optarg : Option Text)
    (y : Input) :
    event options argv ({ ret := charInt c, optarg := optarg }, y) =
      parseOf options [c] (optarg.map skipSeparator) := by
  simp only [event, (h.ofInt_charInt hc).1, findShort_eq hc, Option.map_some, parseOf]

include h hg hopts in
theorem Yields.flag (hc : HasShort options c false) (cluster : Text) (words : List Text) :
    Yields options argv g ⟨c :: cluster, words⟩ [parseOf options [c] none]
      ⟨cluster, words⟩ := by
  have hnext : g.next ⟨c :: cluster, words⟩ = .ok ({ ret := charInt c }, ⟨cluster, words⟩) := by
    simp only [Reader.next, Reader.short, hg, h.argKind_eq hc, Bool.false_eq_true, if_false]
  have hyields := Yields.of_next options argv (hg.trans (optstring_eq hopts).symm) hnext
  rwa [event_short argv h hc] at hyields

include h hg hopts in
theorem Yields.flags {cs : Text} (hcs : ∀ c ∈ cs, HasShort options c false) (cluster : Text) (words : List Text) :
    Yields options argv g ⟨cs ++ cluster, words⟩
      (cs.map fun c => parseOf options [c] none) ⟨cluster, words⟩ := by
  induction cs with
  | nil => exact .refl _
  | cons c cs ih =>
    rw [List.forall_mem_cons] at hcs
    exact (Yields.flag argv h hg hopts hcs.1 (cs ++ cluster) words).trans (ih hcs.2)

include h hg hopts in
theorem Yields.attached (hc : HasShort options c true) {optVal : Text} (hne : optVal ≠ []) (words : List Text) :
    Yields options argv g ⟨c :: optVal, words⟩
      [parseOf options [c] (some (skipSeparator optVal))] ⟨[], words⟩ := by
  obtain ⟨d, rest, rfl⟩ := List.exists_cons_of_ne_nil hne
  have hnext : g.next ⟨c :: d :: rest, words⟩ =
      .ok ({ ret := charInt c, optarg := some (d :: rest) }, ⟨[], words⟩) := by
    simp only [Reader.next, Reader.short, hg, h.argKind_eq hc, if_true]
  have hyields := Yields.of_next options argv (hg.trans (optstring_eq hopts).symm) hnext
  rwa [event_short argv h hc] at hyields

include h hg hopts in
theorem Yields.separate (hc : HasShort options c true) (optVal : Text) (words : List Text) :
    Yields options argv g ⟨[c], optVal :: words⟩
      [parseOf options [c] (some (skipSeparator optVal))] ⟨[], words⟩ := by
  have hnext : g.next ⟨[c], optVal :: words⟩ = .ok ({ ret := charInt c, optarg := some optVal }, ⟨[], words⟩) := by
    simp only [Reader.next, Reader.short, hg, h.argKind_eq hc, if_true]
  have hyields := Yields.of_next options argv (hg.trans (optstring_eq hopts).symm) hnext
  rwa [event_short argv h hc] at hyields

/-! ### Long options -/

theorem takeWhile_name {name : Text} (hname : equals ∉ name) (rest : Text) :
    (name ++ rest).takeWhile (· ≠ equals) = name ++ rest.takeWhile (· ≠ equals) ∧
      (name ++ rest).dropWhile (· ≠ equals) = rest.dropWhile (· ≠ equals) := by
  have hall : ∀ d ∈ name, decide (d ≠ equals) = true := by
    intro d hd
    simp only [decide_eq_true_eq]
    rintro rfl
    exact hname hd
  exact ⟨List.takeWhile_append_of_pos hall, List.dropWhile_append_of_pos hall⟩

/-- The event of a long option. -/
theorem event_long (h : Distinct options) {p : CommandLineOption} (hp : p ∈ options) (hlength : p.Name_S.length ≠ 1)
    {index : Nat} (hindex : lookup p.Name_S (longTable options) =
      .found index ⟨p.Name_S, p.ArgFlag_E.toInt32.toInt, none, 0⟩) (optarg : Option Text) (y : Input) :
    event options argv (foundReply index ⟨p.Name_S, p.ArgFlag_E.toInt32.toInt, none, 0⟩ optarg, y) =
      parseOf options p.Name_S optarg := by
  simp only [event, foundReply, lookup_found hindex, Option.bind_some, h.findLongName_eq hp hlength, Option.map_some,
    parseOf]

include hopts in
theorem next_long {text : Text} (htext : text ≠ []) (words : List Text) :
    g.next ⟨[], (dash :: dash :: text) :: words⟩ =
      .ok (g.long (longTable options) (dash :: dash :: text) text words) := by
  have hlong : g.longopts = some (longTable options) := by rw [hopts]; rfl
  simp [Reader.next, hlong, htext]

theorem needArg_iff (flags : UInt32) : flags.toInt32.toInt = 1 ↔ flags = CMDLINE_LONGOPT_NEED_ARG := by
  constructor
  · intro hflags
    have hone : flags.toInt32 = 1 := Int32.toInt_inj.mp (by simpa using hflags)
    exact congrArg Int32.toUInt32 hone
  · rintro rfl
    rfl

theorem noFlag_iff (flags : UInt32) : flags.toInt32.toInt = 0 ↔ flags = 0 := by
  constructor
  · intro hflags
    have hzero : flags.toInt32 = 0 := Int32.toInt_inj.mp (by simpa using hflags)
    exact congrArg Int32.toUInt32 hzero
  · rintro rfl
    rfl

include h hg hopts in
theorem Yields.long {p : CommandLineOption} (hp : p ∈ options) (hlength : p.Name_S.length ≠ 1)
    (hflags : p.ArgFlag_E ≠ CMDLINE_LONGOPT_NEED_ARG) (words : List Text) :
    Yields options argv g ⟨[], (dash :: dash :: p.Name_S) :: words⟩ [parseOf options p.Name_S none] ⟨[], words⟩ := by
  obtain ⟨hne, hsafe⟩ := h.long p hp
  obtain ⟨index, hindex⟩ := h.lookup_eq hp hlength
  obtain ⟨htake, hdrop⟩ := takeWhile_name (hsafe hlength).1 []
  simp only [List.append_nil, List.takeWhile_nil, List.dropWhile_nil] at htake hdrop
  have hnext := next_long hopts hne words
  have hlong : g.long (longTable options) (dash :: dash :: p.Name_S) p.Name_S words =
      (foundReply index ⟨p.Name_S, p.ArgFlag_E.toInt32.toInt, none, 0⟩ none, ⟨[], words⟩) := by
    have harg : p.ArgFlag_E.toInt32.toInt ≠ 1 := fun hone => hflags ((needArg_iff _).mp hone)
    simp only [Reader.long, htake, hdrop, hindex, harg, if_false]
  rw [hlong] at hnext
  have hyields := Yields.of_next options argv (hg.trans (optstring_eq hopts).symm) hnext
  rwa [event_long argv h hp hlength hindex] at hyields

include h hg hopts in
theorem Yields.longAttached {p : CommandLineOption} (hp : p ∈ options) (hlength : p.Name_S.length ≠ 1)
    (hflags : p.ArgFlag_E ≠ 0) (optVal : Text) (words : List Text) :
    Yields options argv g ⟨[], (dash :: dash :: (p.Name_S ++ equals :: optVal)) :: words⟩
      [parseOf options p.Name_S (some optVal)] ⟨[], words⟩ := by
  obtain ⟨-, hsafe⟩ := h.long p hp
  obtain ⟨index, hindex⟩ := h.lookup_eq hp hlength
  obtain ⟨htake, hdrop⟩ := takeWhile_name (hsafe hlength).1 (equals :: optVal)
  rw [List.takeWhile_cons_of_neg (by simp), List.append_nil] at htake
  rw [List.dropWhile_cons_of_neg (by simp)] at hdrop
  have htext : p.Name_S ++ equals :: optVal ≠ [] := by simp
  have hnext := next_long hopts htext words
  have hlong : g.long (longTable options) (dash :: dash :: (p.Name_S ++ equals :: optVal))
      (p.Name_S ++ equals :: optVal) words =
      (foundReply index ⟨p.Name_S, p.ArgFlag_E.toInt32.toInt, none, 0⟩ (some optVal), ⟨[], words⟩) := by
    have harg : p.ArgFlag_E.toInt32.toInt ≠ 0 := fun hzero => hflags ((noFlag_iff _).mp hzero)
    simp only [Reader.long, htake, hdrop, hindex, ne_eq, harg, not_false_eq_true, if_true]
  rw [hlong] at hnext
  have hyields := Yields.of_next options argv (hg.trans (optstring_eq hopts).symm) hnext
  rwa [event_long argv h hp hlength hindex] at hyields

include h hg hopts in
theorem Yields.longSeparate {p : CommandLineOption} (hp : p ∈ options) (hlength : p.Name_S.length ≠ 1)
    (hflags : p.ArgFlag_E = CMDLINE_LONGOPT_NEED_ARG) (optVal : Text) (words : List Text) :
    Yields options argv g ⟨[], (dash :: dash :: p.Name_S) :: optVal :: words⟩ [parseOf options p.Name_S (some optVal)]
      ⟨[], words⟩ := by
  obtain ⟨hne, hsafe⟩ := h.long p hp
  obtain ⟨index, hindex⟩ := h.lookup_eq hp hlength
  obtain ⟨htake, hdrop⟩ := takeWhile_name (hsafe hlength).1 []
  simp only [List.append_nil, List.takeWhile_nil, List.dropWhile_nil] at htake hdrop
  have hnext := next_long hopts hne (optVal :: words)
  have hlong : g.long (longTable options) (dash :: dash :: p.Name_S) p.Name_S (optVal :: words) =
      (foundReply index ⟨p.Name_S, p.ArgFlag_E.toInt32.toInt, none, 0⟩ (some optVal), ⟨[], words⟩) := by
    simp only [Reader.long, htake, hdrop, hindex, (needArg_iff _).mpr hflags, if_true]
  rw [hlong] at hnext
  have hyields := Yields.of_next options argv (hg.trans (optstring_eq hopts).symm) hnext
  rwa [event_long argv h hp hlength hindex] at hyields

/-! ### Whole command lines -/

theorem skipSeparator_eq_iff (optVal : Text) : skipSeparator optVal = optVal ↔ Bare optVal := by
  cases optVal with
  | nil => simp [skipSeparator, Bare]
  | cons c rest =>
    simp only [skipSeparator, Bare, List.head?_cons, Option.mem_some_iff, forall_eq', ← not_or]
    split
    · next hc => simp [hc]
    · next hc => simp [hc]

include h hg hopts in
/-- The options of a word, of which the last one has the value `optVal`. -/
theorem Yields.cluster {cs : Text} {events : List Event} {cluster : Text} {words' : List Text}
    (hcs : ∀ d ∈ cs, HasShort options d false) (hc : c ≠ dash)
    (hyields : Yields options argv g ⟨c :: cluster, words⟩ events ⟨[], words'⟩) :
    Yields options argv g ⟨[], (dash :: (cs ++ c :: cluster)) :: words⟩
      ((cs.map fun d => parseOf options [d] none) ++ events) ⟨[], words'⟩ := by
  have hboth := (Yields.flags argv h hg hopts hcs (c :: cluster) words).trans hyields
  cases cs with
  | nil => exact hboth.of_dash hc
  | cons d cs => exact hboth.of_dash (h.ofInt_charInt (hcs d (List.mem_cons_self ..))).2

include h hg hopts in
/-- An element comes to as many events as it is meant to, and to these exactly if it is understood. -/
theorem Yields.element {e : Element} (he : e.Valid options) (words : List Text) :
    ∃ events y, Yields options argv g ⟨[], e.words ++ words⟩ events y ∧
      events.length = (e.events options).length ∧ (events = e.events options ↔ e.Understood options) ∧
      (e.Understood options → y = ⟨[], words⟩) := by
  cases e with
  | flags cs =>
    obtain ⟨hne, hcs⟩ := he
    obtain ⟨c, cs, rfl⟩ := List.exists_cons_of_ne_nil hne
    have hdash := (h.ofInt_charInt (hcs c (List.mem_cons_self ..))).2
    have hyields := Yields.flags argv h hg hopts hcs [] words
    rw [List.append_nil] at hyields
    exact ⟨_, _, hyields.of_dash hdash, rfl, iff_of_true rfl trivial, fun _ => rfl⟩
  | attached cs c optVal =>
    obtain ⟨hcs, hc, hne⟩ := he
    refine ⟨_, _, Yields.cluster argv h hg hopts hcs (h.ofInt_charInt hc).2
      (Yields.attached argv h hg hopts hc hne words), by simp [Element.events], ?_, fun _ => rfl⟩
    simp [Element.events, Element.Understood, parseOf, skipSeparator_eq_iff]
  | assigned cs c optVal =>
    obtain ⟨hcs, hc⟩ := he
    refine ⟨_, _, Yields.cluster argv h hg hopts hcs (h.ofInt_charInt hc).2
      (Yields.attached argv h hg hopts hc (List.cons_ne_nil equals optVal) words), by simp [Element.events], ?_,
      fun _ => rfl⟩
    simp [Element.events, Element.Understood, skipSeparator]
  | separate cs c optVal =>
    obtain ⟨hcs, hc⟩ := he
    refine ⟨_, _, Yields.cluster argv h hg hopts hcs (h.ofInt_charInt hc).2
      (Yields.separate argv h hg hopts hc optVal words), by simp [Element.events], ?_, fun _ => rfl⟩
    simp [Element.events, Element.Understood, parseOf, skipSeparator_eq_iff]
  | long name =>
    obtain ⟨p, hp, rfl, hlength, hneed⟩ := he
    have hflags : p.ArgFlag_E ≠ CMDLINE_LONGOPT_NEED_ARG := by
      intro hflags
      rw [hflags] at hneed
      exact absurd hneed (by decide)
    exact ⟨_, _, Yields.long argv h hg hopts hp hlength hflags words, rfl, iff_of_true rfl trivial, fun _ => rfl⟩
  | longAttached name optVal =>
    obtain ⟨p, hp, rfl, hlength, hneed⟩ := he
    have hflags : p.ArgFlag_E ≠ 0 := by
      intro hflags
      rw [hflags] at hneed
      exact absurd hneed (by decide)
    exact ⟨_, _, Yields.longAttached argv h hg hopts hp hlength hflags optVal words, rfl, iff_of_true rfl trivial,
      fun _ => rfl⟩
  | longSeparate name optVal =>
    obtain ⟨p, hp, rfl, hlength, -⟩ := he
    have hunderstood : (Element.longSeparate p.Name_S optVal).Understood options ↔
        p.ArgFlag_E = CMDLINE_LONGOPT_NEED_ARG := by
      refine ⟨fun hall => hall p hp rfl, fun hflags q hq hname => ?_⟩
      rwa [List.inj_on_of_nodup_map h.nodup hq hp hname]
    by_cases hflags : p.ArgFlag_E = CMDLINE_LONGOPT_NEED_ARG
    · exact ⟨_, _, Yields.longSeparate argv h hg hopts hp hlength hflags optVal words, rfl,
        iff_of_true rfl (hunderstood.mpr hflags), fun _ => rfl⟩
    · refine ⟨_, _, Yields.long argv h hg hopts hp hlength hflags (optVal :: words), rfl, ?_,
        fun hu => absurd (hunderstood.mp hu) hflags⟩
      simp [Element.events, parseOf, hunderstood, hflags]

include h hg hopts in
/-- What is written comes to what is meant exactly if all of it is understood. -/
theorem parse_elements_iff {elements : List Element} (he : ∀ e ∈ elements, e.Valid options) {words : List Text}
    (hrest : (g.parse ⟨[], words⟩).1 = []) :
    (g.parse ⟨[], elements.flatMap Element.words ++ words⟩).1.map (event options argv) =
        elements.flatMap (Element.events options) ↔ ∀ e ∈ elements, e.Understood options := by
  induction elements with
  | nil => simp [hrest]
  | cons e elements ih =>
    rw [List.forall_mem_cons] at he
    obtain ⟨events, y, hyields, hlength, hevents, hy⟩ :=
      Yields.element argv h hg hopts he.1 (elements.flatMap Element.words ++ words)
    rw [List.flatMap_cons, List.flatMap_cons, List.append_assoc, hyields, List.forall_mem_cons, ← ih he.2, ← hevents]
    constructor
    · intro hsame
      obtain ⟨hfirst, hothers⟩ := List.append_inj hsame hlength
      rw [hy (hevents.mp hfirst)] at hothers
      exact ⟨hfirst, hothers⟩
    · rintro ⟨hfirst, hothers⟩
      rw [hy (hevents.mp hfirst), hfirst, hothers]

end elements

theorem Element.not_error (e : Element) : ∀ v ∈ e.events options, v.isError = false := by
  intro v hv
  cases e with
  | flags cs =>
    obtain ⟨c, -, rfl⟩ := List.mem_map.mp hv
    rfl
  | attached cs c optVal | assigned cs c optVal | separate cs c optVal =>
    rcases List.mem_append.mp hv with hv | hv
    · obtain ⟨d, -, rfl⟩ := List.mem_map.mp hv
      rfl
    · rw [List.mem_singleton.mp hv]
      rfl
  | long name | longAttached name optVal | longSeparate name optVal =>
    rw [List.mem_singleton.mp hv]
    rfl

/-- Where no option is left the command line ends. -/
theorem parse_rest (hopts : g.toOptions = getoptOptions options) (h : Distinct options)
    (hrest : ∀ word ∈ words.head?, nonOption word = true ∨ word = [dash, dash]) : (g.parse ⟨[], words⟩).1 = [] := by
  have hinOrder : g.inOrder = false := by
    have hhead : (shortString options).head? ≠ some dash := fun hhead =>
      h.not_mem (by simp) (List.mem_of_mem_head? hhead)
    simp only [Reader.inOrder, optstring_eq hopts, hhead, decide_false]
  cases words with
  | nil => rw [Reader.parse_error (show g.next ⟨[], []⟩ = .error [] from rfl)]
  | cons word words =>
    rcases hrest word rfl with hword | rfl
    · have hnext : g.next ⟨[], word :: words⟩ = _ := next_nonOption hword
      rw [hinOrder, if_neg Bool.false_ne_true] at hnext
      rw [Reader.parse_error hnext]
    · rw [Reader.parse_error (show g.next ⟨[], [dash, dash] :: words⟩ = .error words from rfl)]

/-- Options of the program are read as they are meant exactly if the way they are written is understood. What follows
the first element that is none, or `--`, is passed over in silence. -/
theorem toByte_elements_iff (h : Distinct options) {short : Text} {long : List LongOption}
    (htables : getOptTables options [] [] = some (.ok (short, long))) {elements : List Element}
    (he : ∀ e ∈ elements, e.Valid options) {rest : List Text}
    (hrest : ∀ word ∈ rest.head?, nonOption word = true ∨ word = [dash, dash]) {program : Text}
    (hargv : argv = program :: (elements.flatMap Element.words ++ rest)) (scan : Scan) (optopt : Int) {fuel : Nat}
    (hfuel : Input.size ⟨[], argv⟩ ≤ fuel) :
    toByte fuel argv options scan optopt = some (.noError, elements.flatMap (Element.events options)) ↔
      ∀ e ∈ elements, e.Understood options := by
  cases hwords : elements.flatMap Element.words ++ rest with
  | nil =>
    rw [hwords] at hargv
    have hnil : elements = [] := by
      rw [List.append_eq_nil_iff, List.flatMap_eq_nil_iff] at hwords
      rw [List.eq_nil_iff_forall_not_mem]
      intro e hmem
      have hnone := hwords.1 e hmem
      cases e <;> simp [Element.words] at hnone
    rw [hnil, toByte, if_neg (by simp [hargv]), if_pos (by simp [hargv])]
    simp
  | cons word words =>
    obtain ⟨rfl, rfl⟩ := getOptTables_eq htables
    have hargv' : argv = program :: word :: words := by rw [hargv, hwords]
    have hsize : Input.size ⟨[], word :: words⟩ < fuel := by
      refine lt_of_lt_of_le ?_ hfuel
      rw [hargv']
      simp [Input.size]
    have hiff := parse_elements_iff argv h (h.reader_current program) rfl he (parse_rest rfl h hrest)
    rw [hwords] at hiff
    rw [toByte_eq htables h.noW h.ascii hargv' scan optopt hsize, result_eq, Option.some.injEq, Prod.mk.injEq, ← hiff]
    refine and_iff_right_of_imp fun hevents => ?_
    rw [hevents, if_neg]
    rw [Bool.not_eq_true, List.any_eq_false]
    intro v hv
    obtain ⟨e, -, hv⟩ := List.mem_flatMap.mp hv
    simp [e.not_error v hv]

/-- `-ab x --po 8 z` with the options `a`, `b` and `po`, of which the last two need an argument. -/
theorem toByte_elements_iff_abpo :
    toByte 100 [[112], [45, 97, 98], [120], [45, 45, 112, 111], [56], [122]] [⟨[97], 0⟩, ⟨[98], 1⟩, ⟨[112, 111], 1⟩]
        ⟨[], 0, false, none, .requireOrder, 0, 0⟩ 0 =
      some (.noError, [.parse 0 none, .parse 1 (some [120]), .parse 2 (some [56])]) :=
  have hdistinct : Distinct [⟨[97], 0⟩, ⟨[98], 1⟩, ⟨[112, 111], 1⟩] := by
    refine ⟨by simp, ?_, by simp +decide⟩
    intro p hp c hc
    rcases List.mem_cons.mp hp with rfl | hp
    · obtain rfl : 97 = c := by simpa using hc
      decide
    · rcases List.mem_cons.mp hp with rfl | hp
      · obtain rfl : 98 = c := by simpa using hc
        decide
      · obtain rfl := List.mem_singleton.mp hp
        simp at hc
  have hvalid : ∀ e ∈ [Element.separate [97] 98 [120], .longSeparate [112, 111] [56]],
      e.Valid [⟨[97], 0⟩, ⟨[98], 1⟩, ⟨[112, 111], 1⟩] := by
    simp [Element.Valid, HasShort, HasLong, isAnyBitFlagSet]
  have hrest : ∀ word ∈ [[(122 : UInt8)]].head?, nonOption word = true ∨ word = [dash, dash] := by simp [nonOption]
  have hbare : Bare [120] := by
    rintro c ⟨⟩
    decide
  (toByte_elements_iff hdistinct rfl hvalid hrest rfl _ 0 (by simp [Input.size, Element.words])).mpr
    (by simpa [Element.Understood] using hbare)

-- With another flag `--po 8 -w 1` is `po` without its argument, and the rest is an operand.
example :
    toByte 100 [[112], [45, 45, 112, 111], [56], [45, 119], [49]] [⟨[112, 111], 0x41⟩, ⟨[119], 1⟩]
      ⟨[], 0, false, none, .requireOrder, 0, 0⟩ 0 = some (.noError, [.parse 0 none]) := by
  decide +kernel

/-- Whatever the command line says, the arrays of `ToByte` are large enough exactly if the options fit: the bound of
`pGetOptLong_X` in the source is a number of bytes. -/
theorem toByte_in_bounds_iff (hW : NoW (shortString options)) (hascii : Ascii (shortString options))
    {program word : Text} (hargv : argv = program :: word :: words) (scan : Scan) (optopt : Int) {fuel : Nat}
    (hfuel : Input.size ⟨[], argv⟩ ≤ fuel) : toByte fuel argv options scan optopt ≠ none ↔ Fits options := by
  rw [← tables_ne_none_iff]
  cases htables : getOptTables options [] [] with
  | none => simp [toByte, hargv, htables]
  | some tables =>
    obtain err | ⟨short, long⟩ := tables
    · simp [toByte, hargv, htables]
    · obtain ⟨rfl, rfl⟩ := getOptTables_eq htables
      have hsize : Input.size ⟨[], word :: words⟩ < fuel := by
        refine lt_of_lt_of_le ?_ hfuel
        rw [hargv]
        simp [Input.size]
      rw [toByte_eq htables hW hascii hargv scan optopt hsize]
      simp

/-- `--po` with the options `a`, `po` and `help`. -/
theorem toByte_in_bounds_po :
    toByte 9 [[112], [45, 45, 112, 111]] [⟨[97], 0⟩, ⟨[112, 111], 0⟩, ⟨[104, 101, 108, 112], 0⟩]
        ⟨[], 0, false, none, .requireOrder, 0, 0⟩ 0 ≠ none ↔
      Fits [⟨[97], 0⟩, ⟨[112, 111], 0⟩, ⟨[104, 101, 108, 112], 0⟩] :=
  toByte_in_bounds_iff (by decide) (by decide +kernel) rfl _ 0 (by simp [Input.size])

-- What follows a refused option does not count.
example (rest : List CommandLineOption) : Fits (⟨['?'.toUInt8], 0⟩ :: rest) :=
  (tables_ne_none_iff _).mp (by simp [getOptTables])

end BofStd.BofCommandLineParser
