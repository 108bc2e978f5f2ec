import BofStd.Proofs.BofPathStackProofs
import BofStd.Proofs.BofUriPathProofs

/-!
# Relative paths

A directory is the root and a slash behind each of its names. The stack machine has the names on its stack when it comes
to the components behind the directory, so that `./` skips and `../` pops there what the loop over the dots at the start
takes off the working directory.
-/

namespace BofStd

variable {s : Text} {c : UInt8}

/-! ## Blanks around a text -/

/-- Trimming the front first. -/
theorem stringTrim_eq (h : stringTrim s ≠ []) :
    stringTrim s = trimEnd (s.dropWhile fun c => c ∈ defaultTrimCharList) := by
  have hblank : ∀ c ∈ s.takeWhile fun c => c ∈ defaultTrimCharList, decide (c ∈ defaultTrimCharList) = true :=
    fun c hc => List.mem_takeWhile_imp (p := fun c => decide (c ∈ defaultTrimCharList)) hc
  have hsplit := List.takeWhile_append_dropWhile (p := fun c => decide (c ∈ defaultTrimCharList)) (l := s)
  cases hrest : s.dropWhile fun c => c ∈ defaultTrimCharList with
  | nil =>
    rw [hrest, List.append_nil] at hsplit
    have hnil : trimEnd s = [] := by
      rw [trimEnd, List.rdropWhile_eq_nil_iff]
      rwa [hsplit] at hblank
    exact absurd (congrArg (List.dropWhile fun c => decide (c ∈ defaultTrimCharList)) hnil) h
  | cons c rest =>
    have hc : c ∉ defaultTrimCharList := by
      have hhead := List.head?_dropWhile_not (fun c => decide (c ∈ defaultTrimCharList)) s
      rw [hrest] at hhead
      simpa using hhead
    have htrim : stringTrim s = (trimEnd s).dropWhile fun c => c ∈ defaultTrimCharList := rfl
    rw [hrest] at hsplit
    rw [htrim, ← hsplit, trimEnd_append_cons hc, List.dropWhile_append_of_pos hblank, trimEnd_cons hc]
    exact List.dropWhile_cons_of_neg fun h => hc (of_decide_eq_true h)

namespace BofPath

open StackMachine

variable {d p path path' raw forb a : Text} {names names' : List Text}

/-! ## Directories -/

/-- A component that is kept. -/
structure IsName (a : Text) : Prop where
  push : action a = .push
  slash : '/'.toUInt8 ∉ a

/-- The directory with these names. -/
def directory (names : List Text) : Text := '/'.toUInt8 :: names.flatMap fun a => a ++ ['/'.toUInt8]

theorem directory_concat (names : List Text) (a : Text) :
    directory (names ++ [a]) = directory names ++ a ++ ['/'.toUInt8] := by
  rw [directory, directory, List.flatMap_append, List.flatMap_singleton, List.cons_append, List.cons_append,
    List.append_assoc]

theorem getLast?_directory (names : List Text) : (directory names).getLast? = some '/'.toUInt8 := by
  rcases List.eq_nil_or_concat names with rfl | ⟨names, a, rfl⟩
  · rfl
  · rw [List.concat_eq_append, directory_concat, List.getLast?_concat]

theorem IsName.ne_nil (ha : IsName a) : a ≠ [] := by
  rintro rfl
  exact absurd ha.push (by decide)

theorem directory_subset (h : names' <+: names) : directory names' ⊆ directory names := by
  obtain ⟨more, rfl⟩ := h
  rw [directory, directory, List.flatMap_append, ← List.cons_append]
  exact List.subset_append_left _ _

/-- The components of a path in a directory. -/
theorem splitOn_directory (hnames : ∀ a ∈ names, IsName a) (s : Text) :
    (directory names ++ s).splitOn '/'.toUInt8 = [] :: (names ++ s.splitOn '/'.toUInt8) := by
  have hflat : (names.flatMap (fun a => a ++ ['/'.toUInt8]) ++ s).splitOn '/'.toUInt8 =
      names ++ s.splitOn '/'.toUInt8 := by
    induction names with
    | nil => rfl
    | cons a names ih =>
      have ha := hnames a List.mem_cons_self
      rw [List.flatMap_cons, List.append_assoc, List.append_assoc, List.singleton_append,
        List.splitOn_append_cons_self_of_not_mem ha.slash, ih fun a ha => hnames a (List.mem_cons_of_mem _ ha),
        List.cons_append]
  rw [directory, List.cons_append, splitOn_slash_cons, hflat]

/-- The names of a directory are pushed. -/
theorem run_names (hnames : ∀ a ∈ names, IsName a) (kept : List Text) :
    run action kept names = some (names.reverse ++ kept) := by
  induction names generalizing kept with
  | nil => rfl
  | cons a names ih =>
    rw [run_push (hnames a List.mem_cons_self).push, ih fun a ha => hnames a (List.mem_cons_of_mem _ ha),
      List.reverse_cons, List.append_assoc, List.singleton_append]

/-- Behind a directory, the stack machine begins with its names. -/
theorem keptComponents_directory (hnames : ∀ a ∈ names, IsName a) (s : Text) :
    keptComponents (directory names ++ s) = run action names.reverse (s.splitOn '/'.toUInt8) := by
  have hskip : action [] = .skip := by decide
  rw [keptComponents, splitOn_directory hnames, run_skip hskip, run_append, run_names hnames, Option.bind_some,
    List.append_nil]

/-- The path ends with a slash if nothing stands behind the directory, or what stands there does. -/
theorem getLast?_directory_append (hnames : ∀ a ∈ names, IsName a) (s : Text) :
    (directory names ++ s).getLast? = some '/'.toUInt8 ↔ (s.splitOn '/'.toUInt8).getLast? = some [] := by
  have hends := getLast?_splitOn (directory names ++ s)
  have hne : directory names ++ s ≠ [] := List.append_ne_nil_of_left_ne_nil (List.cons_ne_nil _ _) s
  rw [or_iff_right hne, splitOn_directory hnames] at hends
  rw [← hends, ← List.cons_append, List.getLast?_append_of_ne_nil _ (List.splitOn_ne_nil _ s)]

/-- What is reduced depends on the components and on the slash at the end. -/
theorem reduced_congr (hkept : keptComponents path = keptComponents path')
    (hlast : path.getLast? = some '/'.toUInt8 ↔ path'.getLast? = some '/'.toUInt8) : reduced path = reduced path' := by
  have hjoined : joined path = joined path' := by
    funext kept
    rw [joined, joined, if_congr (and_congr_left' hlast) rfl rfl]
  rw [reduced, reduced, hkept, hjoined]

/-- Two paths in directories, of which the stack machine makes the same. -/
theorem reduced_directory_congr {s s' : Text} (hnames : ∀ a ∈ names, IsName a) (hnames' : ∀ a ∈ names', IsName a)
    (hrun : run action names.reverse (s.splitOn '/'.toUInt8) = run action names'.reverse (s'.splitOn '/'.toUInt8))
    (hlast : (s.splitOn '/'.toUInt8).getLast? = (s'.splitOn '/'.toUInt8).getLast?) :
    reduced (directory names ++ s) = reduced (directory names' ++ s') := by
  apply reduced_congr
  · rw [keptComponents_directory hnames, keptComponents_directory hnames', hrun]
  · rw [getLast?_directory_append hnames, getLast?_directory_append hnames', hlast]

theorem stringJoin_append_slash (hne : names ≠ []) :
    stringJoin names '/'.toUInt8 ++ ['/'.toUInt8] = names.flatMap fun a => a ++ ['/'.toUInt8] := by
  induction names with
  | nil => exact absurd rfl hne
  | cons a names ih =>
    cases names with
    | nil => rw [stringJoin, List.intercalate_singleton, List.flatMap_singleton]
    | cons b names =>
      have ih := ih (List.cons_ne_nil b names)
      rw [stringJoin] at ih ⊢
      rw [List.intercalate_cons_cons, List.flatMap_cons, ← ih]
      simp only [List.append_assoc]

/-- A normalized path that ends with a slash is a directory. -/
theorem exists_directory (hnormal : Normal p) (hlast : p.getLast? = some '/'.toUInt8) :
    ∃ names, p = directory names ∧ ∀ a ∈ names, IsName a := by
  have hreduced : reduced p = some p := (reducePath_eq_ok_iff hnormal.root).mp (reducePath_of_normal hnormal)
  rw [reduced] at hreduced
  obtain ⟨kept, hkept, hjoined⟩ := Option.bind_eq_some_iff.mp hreduced
  split at hjoined
  · cases hjoined
  refine ⟨kept.reverse, ?_, ?_⟩
  · have hp := Option.some.inj hjoined
    by_cases hne : kept = []
    · subst hne
      rw [← hp, joined_nil]
      rfl
    · rw [joined, if_pos ⟨hlast, hne⟩, List.cons_append,
        stringJoin_append_slash fun h => hne (List.reverse_eq_nil_iff.mp h)] at hp
      exact hp.symm
  · intro a ha
    have ha := List.mem_reverse.mp ha
    refine ⟨?_, (mem_keptComponents hkept ha).2⟩
    exact (mem_run hkept ha).elim (fun h => absurd h List.not_mem_nil) And.right
/-! ## The dots at the start -/

theorem parentDirectory_concat (ha : IsName a) (d : Text) (names : List Text) :
    parentDirectory (d ++ directory (names ++ [a])) = .ok (d ++ directory names) := by
  have hlen : 2 < (d ++ directory (names ++ [a])).length := by
    have hpos := List.length_pos_of_ne_nil ha.ne_nil
    rw [directory_concat, directory]
    simp only [List.length_append, List.length_cons, List.length_nil]
    omega
  have htake : (d ++ directory (names ++ [a])).take ((d ++ directory (names ++ [a])).length - 1) =
      d ++ directory names ++ a := by
    rw [← List.dropLast_eq_take, directory_concat, ← List.append_assoc, List.dropLast_concat, List.append_assoc]
  have hdrop : (d ++ directory names ++ a).rdropWhile (fun c => decide (c ≠ '/'.toUInt8)) = d ++ directory names := by
    obtain ⟨q, hq⟩ := List.getLast?_eq_some_iff.mp (getLast?_directory names)
    have hcut := congrArg Prod.fst (BofUri.cutLast_append ha.slash (d ++ q))
    rw [hq, ← List.append_assoc, List.append_assoc _ _ a, List.singleton_append]
    exact hcut
  rw [parentDirectory, if_pos hlen, htake, hdrop]
  exact if_neg (List.append_ne_nil_of_right_ne_nil d (List.cons_ne_nil _ _))

theorem parentDirectory_root (hd : IsDisk d) : ∃ err, parentDirectory (d ++ directory []) = .error err := by
  rcases hd with rfl | ⟨x, hx, rfl⟩
  · exact ⟨.tooSmall, rfl⟩
  · refine ⟨.tooBig, ?_⟩
    have hslash : x ≠ '/'.toUInt8 := by
      rintro rfl
      exact absurd hx (by decide)
    have hdrop : [x, ':'.toUInt8].rdropWhile (fun c => decide (c ≠ '/'.toUInt8)) = [] := by
      rw [List.rdropWhile_eq_nil_iff]
      intro c hc
      rcases List.mem_pair.mp hc with rfl | rfl
      · exact decide_eq_true hslash
      · decide
    exact if_pos hdrop

theorem splitOn_dot (s : Text) :
    ('.'.toUInt8 :: '/'.toUInt8 :: s).splitOn '/'.toUInt8 = ['.'.toUInt8] :: s.splitOn '/'.toUInt8 :=
  List.splitOn_append_cons_self_of_not_mem (show '/'.toUInt8 ∉ ['.'.toUInt8] by decide) s

theorem splitOn_dotDot (s : Text) :
    ('.'.toUInt8 :: '.'.toUInt8 :: '/'.toUInt8 :: s).splitOn '/'.toUInt8 = dotDot :: s.splitOn '/'.toUInt8 :=
  List.splitOn_append_cons_self_of_not_mem (show '/'.toUInt8 ∉ dotDot by decide) s

theorem leadsToDots_dot (s : Text) : LeadsToDots ('.'.toUInt8 :: '/'.toUInt8 :: s) ↔ LeadsToDots s := by
  rw [LeadsToDots, LeadsToDots, splitOn_dot, List.find?_cons_of_neg (by decide)]

theorem leadsToDots_dotDot (s : Text) :
    LeadsToDots ('.'.toUInt8 :: '.'.toUInt8 :: '/'.toUInt8 :: s) ↔ LeadsToDots s := by
  rw [LeadsToDots, LeadsToDots, splitOn_dotDot, List.find?_cons_of_neg (by decide)]

/-- Two dots at the start are a component of their own. -/
theorem eq_slash_of_not_leadsToDots {s : Text} {c : UInt8}
    (h : ¬ LeadsToDots ('.'.toUInt8 :: '.'.toUInt8 :: c :: s)) : c = '/'.toUInt8 := by
  by_contra hc
  apply h
  obtain ⟨head, tail, hsplit⟩ := List.exists_cons_of_ne_nil (List.splitOn_ne_nil '/'.toUInt8 s)
  have hdot : '.'.toUInt8 ≠ '/'.toUInt8 := by decide
  have hname : ('.'.toUInt8 :: '.'.toUInt8 :: c :: s).splitOn '/'.toUInt8 =
      ('.'.toUInt8 :: '.'.toUInt8 :: c :: head) :: tail :=
    splitOn_cons_of_ne hdot (splitOn_cons_of_ne hdot (splitOn_cons_of_ne hc hsplit))
  refine ⟨'.'.toUInt8 :: '.'.toUInt8 :: c :: head, ?_, ⟨c :: head, rfl⟩⟩
  rw [hname, List.find?_cons_of_pos]
  · exact rfl
  · apply decide_eq_true
    constructor
    · intro heq
      cases (List.cons.inj heq).2
    · intro heq
      cases (List.cons.inj (List.cons.inj heq).2).2

/-- A part `./` is skipped. -/
theorem reduced_dot (hnames : ∀ a ∈ names, IsName a) (s : Text) :
    reduced (directory names ++ '.'.toUInt8 :: '/'.toUInt8 :: s) = reduced (directory names ++ s) := by
  have hskip : action ['.'.toUInt8] = .skip := by decide
  apply reduced_directory_congr hnames hnames
  · rw [splitOn_dot, run_skip hskip]
  · rw [splitOn_dot, List.getLast?_cons_of_ne_nil (List.splitOn_ne_nil _ s)]

/-- A part `../` takes a name off the directory. -/
theorem reduced_dotDot (hnames : ∀ a ∈ names, IsName a) (ha : IsName a) (s : Text) :
    reduced (directory (names ++ [a]) ++ '.'.toUInt8 :: '.'.toUInt8 :: '/'.toUInt8 :: s) =
      reduced (directory names ++ s) := by
  have hnames' : ∀ b ∈ names ++ [a], IsName b := by
    intro b hb
    rcases List.mem_append.mp hb with hb | hb
    · exact hnames b hb
    · rwa [List.mem_singleton.mp hb]
  apply reduced_directory_congr hnames' hnames
  · rw [splitOn_dotDot, List.reverse_append, List.reverse_singleton, List.singleton_append, run_pop action_dotDot]
  · rw [splitOn_dotDot, List.getLast?_cons_of_ne_nil (List.splitOn_ne_nil _ s)]

/-- Two dots leave the root. -/
theorem reduced_root_dotDot {s : Text} (h : ¬ LeadsToDots ('.'.toUInt8 :: '.'.toUInt8 :: s)) :
    reduced (directory [] ++ '.'.toUInt8 :: '.'.toUInt8 :: s) = none := by
  have hnone : ∀ comps : List Text, run action [] (dotDot :: comps) = none := fun comps => run_pop_nil action_dotDot
  have hnames : ∀ a ∈ ([] : List Text), IsName a := nofun
  rw [reduced, keptComponents_directory hnames, List.reverse_nil]
  cases s with
  | nil =>
    have hsplit : ['.'.toUInt8, '.'.toUInt8].splitOn '/'.toUInt8 = [dotDot] := by decide
    rw [hsplit, hnone, Option.bind_none]
  | cons c s =>
    obtain rfl := eq_slash_of_not_leadsToDots h
    rw [splitOn_dotDot, hnone, Option.bind_none]

/-- The loop over the dots at the start takes the names off the directory that the stack machine takes off its stack. -/
theorem dotLoop_directory {res : Except BofErr (Text × Text)} (hd : IsDisk d) (hnames : ∀ a ∈ names, IsName a)
    (hdots : ¬ LeadsToDots path) (h : dotLoop (d ++ directory names) path = some res) :
    (∃ err, res = .error err ∧ reduced (directory names ++ path) = none) ∨
      ∃ names' s, res = .ok (d ++ directory names', s) ∧ names' <+: names ∧
        reduced (directory names' ++ s) = reduced (directory names ++ path) := by
  generalize hpwd : d ++ directory names = pwd at h
  fun_induction dotLoop pwd path generalizing names with
  | case1 pwd =>
    subst hpwd
    exact .inr ⟨names, [], (Option.some.inj h).symm, List.prefix_refl names, rfl⟩
  | case2 pwd c s hdot =>
    subst hpwd
    exact .inr ⟨names, c :: s, (Option.some.inj h).symm, List.prefix_refl names, rfl⟩
  | case3 => cases h
  | case4 pwd c hdot s ih =>
    obtain rfl := not_not.mp hdot
    rw [leadsToDots_dot] at hdots
    rw [reduced_dot hnames]
    exact ih hnames hdots hpwd h
  | case5 pwd c hdot s err hparent hslash =>
    obtain rfl := not_not.mp hdot
    subst hpwd
    rcases List.eq_nil_or_concat names with rfl | ⟨names, a, rfl⟩
    · exact .inl ⟨err, (Option.some.inj h).symm, reduced_root_dotDot hdots⟩
    · rw [List.concat_eq_append, parentDirectory_concat (hnames a (by simp))] at hparent
      cases hparent
  | case6 => cases h
  | case7 pwd c hdot up x s hparent hslash ih =>
    obtain rfl := not_not.mp hdot
    obtain rfl := eq_slash_of_not_leadsToDots hdots
    subst hpwd
    rcases List.eq_nil_or_concat names with rfl | ⟨names, a, rfl⟩
    · obtain ⟨err, herr⟩ := parentDirectory_root hd
      rw [herr] at hparent
      cases hparent
    · have ha : IsName a := hnames a (by simp)
      have hnames' : ∀ b ∈ names, IsName b := fun b hb => hnames b (by simp [hb])
      rw [List.concat_eq_append, parentDirectory_concat ha] at hparent
      rw [leadsToDots_dotDot] at hdots
      rw [List.concat_eq_append, reduced_dotDot hnames' ha]
      rcases ih hnames' hdots (Except.ok.inj hparent) h with herr | ⟨names', s', hres, hprefix, hreduced⟩
      · exact .inl herr
      · exact .inr ⟨names', s', hres, hprefix.trans (List.prefix_append names [a]), hreduced⟩
  | case8 => cases h

/-! ## The path behind the working directory -/

theorem outcome_reducePath (hroot : path.head? = some '/'.toUInt8) (d : Text) :
    outcome (reducePath path, d) = (reduced path).map fun t => (t, d) := by
  cases hreduced : reduced path with
  | some t =>
    rw [(reducePath_eq_ok_iff hroot).mpr hreduced]
    rfl
  | none =>
    cases hreduce : reducePath path with
    | error err => rfl
    | ok t =>
      rw [(reducePath_eq_ok_iff hroot).mp hreduce] at hreduced
      cases hreduced

theorem IsDirectoryPath.head?_append (hp : IsDirectoryPath forb p) (s : Text) :
    (p ++ s).head? = some '/'.toUInt8 := by
  rw [List.head?_append, hp.normal.root, Option.some_or]

/-- An absolute path without forbidden characters in front of which no disk has been taken off. -/
theorem normalize_of_locate {cwd : Option Text} {w : Text} (hlocate : locate cwd false raw = some (.ok (w, path)))
    (habsolute : absolute false w path = (d, path')) (hroot : path'.head? = some '/'.toUInt8)
    (hforb : stringIsPresent path' forb = false) :
    (normalize cwd forb false raw).map outcome = some ((reduced path').map fun t => (t, d)) := by
  rw [normalize, hlocate, ← outcome_reducePath hroot]
  simp only [Option.map_some, habsolute]
  rw [if_neg fun h => h.1 hroot, if_neg (Bool.eq_false_iff.mp hforb), if_neg Bool.false_ne_true]

section Relative

variable (hd : IsDisk d) (hp : IsDirectoryPath forb p)
include hd hp

theorem stringReplace_directory : stringReplace (d ++ p) = d ++ p := by
  rw [stringReplace_absolute hd, stringReplace_of_normal hp.normal fun c hc => hc]

/-- The absolute form of a relative path. -/
theorem normalize_behind {t : Text} (hctl : stringIsPresent t controlChars = false)
    (hpath : stringReplace (trimEnd t) = path) (hforb : stringIsPresent path forb = false) :
    (normalize (some (d ++ p)) forb false (d ++ p ++ t)).map outcome =
      some ((reduced (p ++ path)).map fun t => (t, d)) := by
  have hroot := hp.head?_append path
  have hraw : stringReplace (stringTrim (d ++ p ++ t)) = d ++ (p ++ path) := by
    obtain ⟨q, hq⟩ := List.getLast?_eq_some_iff.mp hp.last
    have htrim : trimEnd (p ++ t) = p ++ trimEnd t := by
      rw [hq, List.append_assoc, List.append_assoc]
      exact trimEnd_append_cons (by decide) q t
    rw [List.append_assoc, stringTrim_absolute hd (hp.head?_append t), htrim, stringReplace_absolute hd, stringReplace_append,
      stringReplace_of_normal hp.normal fun c hc => hc, hpath]
  have hctl' : stringIsPresent (d ++ p ++ t) controlChars = false :=
    stringIsPresent_append (stringIsPresent_append hd.stringIsPresent_control
      (stringIsPresent_of_normal hp.normal (List.all_iff_forall_prop.mp (by decide)))) hctl
  rw [normalize_of_root hctl' hraw hd hroot, Option.elim_some, Option.map_some,
    if_neg (Bool.eq_false_iff.mp (stringIsPresent_append hp.allowed hforb)), outcome_reducePath hroot]

/-- The loop over the dots at the start is for paths that begin with one. -/
theorem locate_relative (hctl : stringIsPresent raw controlChars = false)
    (hpath : stringReplace (stringTrim raw) = path) (hslash : '/'.toUInt8 ∈ path) :
    locate (some (d ++ p)) false raw =
      if path.head? = some '.'.toUInt8 then
        (dotLoop (d ++ p) path).map fun r => r.map fun (pwd, path) => (pwd, pwd ++ path)
      else some (.ok (d ++ p, path)) := by
  have hne : stringTrim raw ≠ [] := stringTrim_ne_nil (by rwa [hpath])
  unfold locate
  rw [if_neg (Bool.not_eq_true _ ▸ hctl), if_neg hne, hpath]
  dsimp only [Option.map_some]
  rw [stringReplace_directory hd hp, if_neg (not_not_intro hslash)]

/-- A relative path is normalized as it is in the directory. -/
theorem normalize_relative (hctl : stringIsPresent raw controlChars = false)
    (hpath : stringReplace (stringTrim raw) = path) (hrel : IsRelative forb path) (hdots : ¬ LeadsToDots path)
    (hreturns : normalize (some (d ++ p)) forb false raw ≠ none) :
    (normalize (some (d ++ p)) forb false raw).map outcome = some ((reduced (p ++ path)).map fun t => (t, d)) := by
  have hlocate := locate_relative hd hp hctl hpath hrel.slash
  by_cases hdot : path.head? = some '.'.toUInt8
  · rw [if_pos hdot] at hlocate
    obtain ⟨names, hdirectory, hnames⟩ := exists_directory hp.normal hp.last
    cases hloop : dotLoop (d ++ p) path with
    | none =>
      rw [hloop] at hlocate
      rw [normalize, hlocate] at hreturns
      exact absurd rfl hreturns
    | some res =>
      rw [hloop] at hlocate
      have hcases := hloop
      rw [hdirectory] at hcases
      rcases dotLoop_directory hd hnames hdots hcases with ⟨err, rfl, hnone⟩ | ⟨names', s, rfl, hprefix, hreduced⟩
      · rw [normalize_error hlocate, hdirectory, hnone]
        rfl
      · have hallowed : stringIsPresent (directory names' ++ s) forb = false := by
          have hsub := directory_subset hprefix
          rw [← hdirectory] at hsub
          exact stringIsPresent_append (stringIsPresent_of_subset hsub hp.allowed)
            (stringIsPresent_of_subset (mem_dotLoop hloop).2 hrel.allowed)
        have habsolute : absolute false (d ++ directory names') (d ++ directory names' ++ s) =
            (d, directory names' ++ s) := by
          rw [List.append_assoc, absolute_absolute hd rfl]
        rw [normalize_of_locate hlocate habsolute rfl hallowed, hreduced, hdirectory]
  · rw [if_neg hdot] at hlocate
    have hroot := hp.head?_append path
    have habsolute : absolute false (d ++ p) path = (d, p ++ path) := by
      have hextract : extractDisk [] path = ([], path) := if_neg (Bool.eq_false_iff.mp hrel.disk)
      have hbehind := extractDisk_absolute hd hroot
      rw [← List.append_assoc] at hbehind
      unfold absolute
      rw [hextract]
      exact (if_pos ⟨hrel.root, Bool.false_ne_true⟩).trans hbehind
    exact normalize_of_locate hlocate habsolute hroot (stringIsPresent_append hp.allowed hrel.allowed)

end Relative

/-- A relative path without blanks in front means the same as its absolute form, unless the first component other than
`.` and `..` begins with two dots. -/
theorem meansTheSame_behind (d p forb raw : Text) (hd : IsDisk d) (hp : IsDirectoryPath forb p)
    (hctl : stringIsPresent raw controlChars = false) (hrel : IsRelative forb (stringReplace (stringTrim raw)))
    (hdots : ¬ LeadsToDots (stringReplace (stringTrim raw)))
    (hreturns : normalize (some (d ++ p)) forb false raw ≠ none) :
    MeansTheSame (some (d ++ p)) forb raw (d ++ p ++ raw.dropWhile fun c => c ∈ defaultTrimCharList) := by
  have hctl' : stringIsPresent (raw.dropWhile fun c => c ∈ defaultTrimCharList) controlChars = false :=
    stringIsPresent_of_subset (List.dropWhile_sublist _).subset hctl
  rw [MeansTheSame, normalize_relative hd hp hctl rfl hrel hdots hreturns,
    normalize_behind hd hp hctl' (congrArg stringReplace (stringTrim_eq (stringTrim_ne_nil hrel.slash))).symm hrel.allowed]

/-- The directory `/x/`. -/
theorem isDirectoryPath_x : IsDirectoryPath defaultForbiddenChar ['/'.toUInt8, 'x'.toUInt8, '/'.toUInt8] where
  normal := ⟨rfl, by decide, by decide, List.all_iff_forall_prop.mp (by decide)⟩
  last := rfl
  allowed := by decide

/-- The path ` ./../y/b` in the directory `/x/`. -/
theorem meansTheSame_behind_up : MeansTheSame (some ['/'.toUInt8, 'x'.toUInt8, '/'.toUInt8]) defaultForbiddenChar
    [' '.toUInt8, '.'.toUInt8, '/'.toUInt8, '.'.toUInt8, '.'.toUInt8, '/'.toUInt8, 'y'.toUInt8, '/'.toUInt8,
      'b'.toUInt8]
    ['/'.toUInt8, 'x'.toUInt8, '/'.toUInt8, '.'.toUInt8, '/'.toUInt8, '.'.toUInt8, '.'.toUInt8, '/'.toUInt8,
      'y'.toUInt8, '/'.toUInt8, 'b'.toUInt8] := by
  refine meansTheSame_behind [] _ _ _ (.inl rfl) isDirectoryPath_x (by decide)
    ⟨by decide, by decide, by decide, by decide⟩ ?_ (by decide)
  rintro ⟨name, hname, hprefix⟩
  obtain rfl := Option.some.inj hname
  exact absurd hprefix (by decide)

/-- The paths `..a/b` and ` a/b` in the directory `/x/`. -/
theorem not_meansTheSame_dots_or_blank :
    IsDirectoryPath defaultForbiddenChar ['/'.toUInt8, 'x'.toUInt8, '/'.toUInt8] ∧
    IsRelative defaultForbiddenChar ['.'.toUInt8, '.'.toUInt8, 'a'.toUInt8, '/'.toUInt8, 'b'.toUInt8] ∧
    normalize (some ['/'.toUInt8, 'x'.toUInt8, '/'.toUInt8]) defaultForbiddenChar false
      ['.'.toUInt8, '.'.toUInt8, 'a'.toUInt8, '/'.toUInt8, 'b'.toUInt8] ≠ none ∧
    ¬ MeansTheSame (some ['/'.toUInt8, 'x'.toUInt8, '/'.toUInt8]) defaultForbiddenChar
      ['.'.toUInt8, '.'.toUInt8, 'a'.toUInt8, '/'.toUInt8, 'b'.toUInt8]
      ['/'.toUInt8, 'x'.toUInt8, '/'.toUInt8, '.'.toUInt8, '.'.toUInt8, 'a'.toUInt8, '/'.toUInt8, 'b'.toUInt8] ∧
    IsRelative defaultForbiddenChar [' '.toUInt8, 'a'.toUInt8, '/'.toUInt8, 'b'.toUInt8] ∧
    normalize (some ['/'.toUInt8, 'x'.toUInt8, '/'.toUInt8]) defaultForbiddenChar false
      [' '.toUInt8, 'a'.toUInt8, '/'.toUInt8, 'b'.toUInt8] ≠ none ∧
    ¬ MeansTheSame (some ['/'.toUInt8, 'x'.toUInt8, '/'.toUInt8]) defaultForbiddenChar
      [' '.toUInt8, 'a'.toUInt8, '/'.toUInt8, 'b'.toUInt8]
      ['/'.toUInt8, 'x'.toUInt8, '/'.toUInt8, ' '.toUInt8, 'a'.toUInt8, '/'.toUInt8, 'b'.toUInt8] :=
  ⟨isDirectoryPath_x, ⟨by decide, by decide, by decide, by decide⟩, by decide, by unfold MeansTheSame; decide,
    ⟨by decide, by decide, by decide, by decide⟩, by decide, by unfold MeansTheSame; decide⟩

end BofPath

end BofStd
