import BofStd.BofUri
import BofStd.Proofs.BofPathProofs

/-!
# The path of a URI

The path that `InitUriField` stores has been parsed twice. It is empty, or it has the parts of a disk and a normal text
`a ++ '/' :: b`, with the name `b` but for a dot at its end (`parsePath_cases`). Parsing what it prints gives an equal
path if the name does not end with a dot or a blank (`parsePath_toString`), and only then (`stable_of_parsePath`):
otherwise the path gets shorter.
-/

namespace BofStd.BofUri

open BofPath

variable {s t a b d r raw path : Text} {x : UInt8} {cwd : Option Text} {w : Text} {m m' : BofPath}

/-! ## The parts of a path -/

theorem cutLast_append (hb : x ∉ b) (a : Text) : cutLast (a ++ x :: b) x = (a ++ [x], b) := by
  have hrev : (a ++ x :: b).reverse = b.reverse ++ x :: a.reverse := by
    rw [List.reverse_append, List.reverse_cons, List.append_assoc, List.singleton_append]
  have hb' : x ∉ b.reverse := fun h => hb (List.mem_reverse.mp h)
  unfold cutLast List.rdropWhile List.rtakeWhile
  rw [hrev, Tokens.takeWhile_ne_append hb', Tokens.dropWhile_ne_append hb', List.reverse_cons, List.reverse_reverse,
    List.reverse_reverse]

theorem exists_cutLast (hx : x ∈ s) : ∃ a b, s = a ++ x :: b ∧ x ∉ b := by
  obtain ⟨b, a, hs, hb⟩ := List.eq_append_cons_of_mem (List.mem_reverse.mpr hx)
  refine ⟨a.reverse, b.reverse, ?_, fun h => hb (List.mem_reverse.mp h)⟩
  rw [← List.reverse_reverse s, hs, List.reverse_append, List.reverse_cons, List.append_assoc, List.singleton_append]

/-- A name without a dot at its end. -/
def undot (b : Text) : Text := if b.getLast? = some '.'.toUInt8 then b.dropLast else b

theorem undot_sublist (b : Text) : (undot b).Sublist b := by
  unfold undot
  split
  · exact List.dropLast_sublist b
  · exact .refl b

theorem undot_prefix (b : Text) : undot b <+: b := by
  unfold undot
  split
  · exact List.dropLast_prefix b
  · exact List.prefix_refl b

theorem length_undot (hb : b.getLast? = some '.'.toUInt8) : (undot b).length + 1 = b.length := by
  obtain ⟨b, rfl⟩ := List.getLast?_eq_some_iff.mp hb
  rw [undot, if_pos hb, List.dropLast_concat, List.length_append, List.length_singleton]

theorem undot_of_ne (hb : b.getLast? ≠ some '.'.toUInt8) : undot b = b := if_neg hb

/-- The name of a file in a directory. -/
theorem undot_eq {dir : Text} (hdir : dir ≠ []) (b : Text) :
    undot b = if dir ≠ [] ∧ b.getLast? = some '.'.toUInt8 then b.dropLast else b := by
  rw [undot]
  exact if_congr (and_iff_right hdir).symm rfl rfl

/-- A name that is cut at its last dot. -/
theorem undot_append_cons (hb : '.'.toUInt8 ∉ b) (a : Text) :
    undot (a ++ '.'.toUInt8 :: b) = a ++ if b = [] then [] else '.'.toUInt8 :: b := by
  by_cases hnil : b = []
  · rw [hnil, undot, if_pos List.getLast?_concat, List.dropLast_concat, if_pos rfl, List.append_nil]
  · rw [if_neg hnil]
    apply undot_of_ne
    rw [List.getLast?_append, List.getLast?_cons, List.getLast?_eq_some_getLast hnil, Option.getD_some, Option.some_or]
    intro h
    exact hb (Option.some.inj h ▸ List.getLast_mem hnil)

/-- The members of a path on the disk `d`, in the directory `a ++ ['/']`, with the name `b`. -/
structure Parts (m : BofPath) (d a b : Text) : Prop where
  disk : m.diskName = d
  dir : m.directoryName = a ++ ['/'.toUInt8]
  name : m.fileNameWithExtension = undot b
  forbidden : m.forbiddenCharacter = defaultForbiddenChar
  valid : m.valid = true
  toString_eq : m.toString = d ++ (a ++ '/'.toUInt8 :: undot b)

/-- A path without a name prints none. -/
theorem print_name {dir name : Text} : (if decide (dir ≠ [] ∧ name = []) = true then [] else name) = name := by
  split
  · rename_i h
    exact (of_decide_eq_true h).2.symm
  · rfl

theorem parts_pathFields (hb : '/'.toUInt8 ∉ b) (d a : Text) :
    Parts (pathFields defaultForbiddenChar false d (a ++ '/'.toUInt8 :: b)).1 d a b := by
  have hdir : a ++ ['/'.toUInt8] ≠ [] := List.concat_ne_nil _ _
  by_cases hnil : b = []
  · -- a directory
    subst hnil
    have hlast : (a ++ ['/'.toUInt8]).getLast? = some '/'.toUInt8 := List.getLast?_concat
    rw [pathFields, if_pos hlast]
    refine ⟨rfl, rfl, rfl, rfl, rfl, ?_⟩
    rw [BofPath.toString, isDirectory, if_pos (decide_eq_true ⟨hdir, rfl⟩), List.append_nil]
    rfl
  · have hlast : (a ++ '/'.toUInt8 :: b).getLast? ≠ some '/'.toUInt8 := by
      rw [List.getLast?_append, List.getLast?_cons, List.getLast?_eq_some_getLast hnil, Option.getD_some, Option.some_or]
      intro h
      exact hb (Option.some.inj h ▸ List.getLast_mem hnil)
    unfold pathFields
    rw [if_neg hlast, cutLast_append hb]
    dsimp only
    rw [if_neg fun h => hdir h.1, ← undot_eq hdir, if_neg hdir]
    by_cases hdot : '.'.toUInt8 ∈ b
    · -- with an extension, which may be empty
      obtain ⟨e, f, rfl, hf⟩ := exists_cutLast hdot
      rw [if_pos hdot, if_neg Bool.false_ne_true, cutLast_append hf, List.dropLast_concat]
      refine ⟨rfl, rfl, rfl, rfl, rfl, ?_⟩
      unfold BofPath.toString isDirectory
      dsimp only
      rw [← undot_append_cons hf, print_name, List.append_assoc, List.append_assoc, List.singleton_append]
    · rw [if_neg hdot]
      refine ⟨rfl, rfl, rfl, rfl, rfl, ?_⟩
      unfold BofPath.toString isDirectory
      dsimp only
      rw [if_pos rfl, List.append_nil, print_name, List.append_assoc, List.append_assoc, List.singleton_append]

theorem Parts.operatorEq {b' : Text} (h : Parts m d a b) (h' : Parts m' d a b') (hb : undot b = undot b') :
    m.OperatorEq m' :=
  ⟨h.disk.trans h'.disk.symm, h.dir.trans h'.dir.symm, (h.name.trans hb).trans h'.name.symm⟩

/-! ## Paths and their lengths -/

/-- The length of the text that a path prints. -/
def size (m : BofPath) : Nat := m.diskName.length + m.directoryName.length + m.fileNameWithExtension.length

theorem size_eq_of_operatorEq (h : m.OperatorEq m') : size m = size m' := by
  rw [size, size, h.1, h.2.1, h.2.2]

theorem Parts.size_eq (h : Parts m d a b) : size m = d.length + (a ++ '/'.toUInt8 :: undot b).length := by
  rw [size, h.disk, h.dir, h.name]
  simp only [List.length_append, List.length_cons, List.length_nil]
  omega

theorem exists_parts (h : Normal t) : ∃ a b, t = a ++ '/'.toUInt8 :: b ∧ '/'.toUInt8 ∉ b :=
  exists_cutLast (List.mem_of_mem_head? h.root)

theorem head?_parts (h : (a ++ '/'.toUInt8 :: b).head? = some x) (s : Text) :
    (a ++ '/'.toUInt8 :: s).head? = some x := by
  cases a with
  | nil => exact h
  | cons c a => exact h

/-- A normal path without the dot at its end. -/
theorem normal_undot (h : Normal (a ++ '/'.toUInt8 :: b)) (hb : '/'.toUInt8 ∉ b) :
    Normal (a ++ '/'.toUInt8 :: undot b) := by
  have hpre : a ++ '/'.toUInt8 :: undot b <+: a ++ '/'.toUInt8 :: b := by
    obtain ⟨u, hu⟩ := undot_prefix b
    exact ⟨u, by rw [List.append_assoc, List.cons_append, hu]⟩
  have hundot : '/'.toUInt8 ∉ undot b := fun hmem => hb ((undot_sublist b).subset hmem)
  refine ⟨head?_parts h.root _, fun hslash => h.single (hslash.trans hpre.isInfix), ?_,
    fun c hc => h.allowed c (hpre.subset hc)⟩
  intro token htoken
  have hdots := h.dots
  rw [List.splitOn_append_cons_self, List.splitOn_eq_singleton hb] at hdots
  rw [List.splitOn_append_cons_self, List.splitOn_eq_singleton hundot] at htoken
  rcases List.mem_append.mp htoken with htoken | htoken
  · exact hdots token (List.mem_append_left _ htoken)
  · rw [List.mem_singleton.mp htoken]
    have hdot := hdots b (List.mem_append_right _ (List.mem_singleton.mpr rfl))
    by_cases hlast : b.getLast? = some '.'.toUInt8
    · -- what is left of the name would be dots only
      obtain ⟨e, rfl⟩ := List.getLast?_eq_some_iff.mp hlast
      rw [undot, if_pos hlast, List.dropLast_concat, ← Bool.not_eq_true, stringIsAllTheSameChar, Bool.and_eq_true]
      rintro ⟨-, hall⟩
      rw [stringIsAllTheSameChar, List.all_append, hall] at hdot
      rw [Bool.and_eq_false_iff, decide_eq_false_iff_not, not_not] at hdot
      rcases hdot with hdot | hdot
      · exact List.concat_ne_nil _ _ hdot
      · cases hdot
    · rwa [undot_of_ne hlast]

/-! ## Parsing -/

/-- A path that is refused. -/
def refused (d : Text) : BofPath := ⟨d, [], [], [], [], defaultForbiddenChar, false⟩

section Parse

variable {forbiddenChar : Option Text} {err : BofErr}

theorem initPathField_eq {pure : Bool} {forb : Text} (hforb : forbiddenChar.getD defaultForbiddenChar = forb)
    (h : normalize cwd forb pure raw = some (.ok t, d)) (ht : t ≠ []) :
    initPathField cwd forbiddenChar pure raw = some (pathFields forb pure d t) := by
  obtain ⟨c, s, rfl⟩ := List.exists_cons_of_ne_nil ht
  unfold initPathField
  rw [hforb]
  dsimp only
  rw [h]
  rfl

theorem initPathField_error {pure : Bool} (hforb : forbiddenChar.getD defaultForbiddenChar = defaultForbiddenChar)
    (h : normalize cwd defaultForbiddenChar pure raw = some (.error err, d)) :
    (initPathField cwd forbiddenChar pure raw).map Prod.fst =
      some (if err = .empty then emptyPath defaultForbiddenChar else refused d) := by
  unfold initPathField
  rw [hforb]
  dsimp only
  rw [h]
  cases err <;> rfl

/-- Parsing a text as a path that need not be a file name. -/
theorem initPathField_cases (hforb : forbiddenChar.getD defaultForbiddenChar = defaultForbiddenChar)
    (h : (initPathField cwd forbiddenChar false raw).map Prod.fst = some m) :
    m = emptyPath defaultForbiddenChar ∨
      ∃ d, IsDisk d ∧ (raw.head? = some '/'.toUInt8 → d = []) ∧
        (m = refused d ∨ ∃ a b, '/'.toUInt8 ∉ b ∧ Normal (a ++ '/'.toUInt8 :: b) ∧ Parts m d a b) := by
  obtain ⟨r, hr, rfl⟩ := Option.map_eq_some_iff.mp h
  obtain ⟨⟨res, d⟩, hres, -⟩ := Option.map_eq_some_iff.mp hr
  rw [hforb] at hres
  obtain ⟨hd, hnormal⟩ := normalize_spec hres
  have hroot : raw.head? = some '/'.toUInt8 → d = [] := by
    intro hhead
    rcases normalize_absolute_cases (.inl rfl) hhead hres with ⟨-, hd' | hd'⟩ | ⟨-, -, -, hd'⟩
    · exact hd'
    · exact hd'
    · exact hd'
  cases res with
  | error err =>
    have hm := (initPathField_error hforb hres).symm.trans h
    by_cases herr : err = .empty
    · rw [if_pos herr] at hm
      exact .inl (Option.some.inj hm).symm
    · rw [if_neg herr] at hm
      exact .inr ⟨d, hd, hroot, .inl (Option.some.inj hm).symm⟩
  | ok t =>
    have ht := hnormal t rfl
    obtain ⟨a, b, rfl, hb⟩ := exists_parts ht
    rw [initPathField_eq hforb hres (List.append_ne_nil_of_right_ne_nil _ (List.cons_ne_nil _ _))] at hr
    obtain rfl := Option.some.inj hr
    exact .inr ⟨d, hd, hroot, .inr ⟨a, b, hb, ht, parts_pathFields hb d a⟩⟩

/-- Parsing an absolute text: the path is no longer than the text without the blanks at its end. -/
theorem initPathField_absolute (hforb : forbiddenChar.getD defaultForbiddenChar = defaultForbiddenChar) (hd : IsDisk d)
    (hr : r.head? = some '/'.toUInt8) (h : (initPathField cwd forbiddenChar false (d ++ r)).map Prod.fst = some m) :
    (m = emptyPath defaultForbiddenChar ∨ ∃ d', (d' = [] ∨ d' = d) ∧ m = refused d') ∨
      (∃ w, cwd = some w) ∧ ∃ a b, '/'.toUInt8 ∉ b ∧ Normal (a ++ '/'.toUInt8 :: b) ∧ Parts m d a b ∧
        (a ++ '/'.toUInt8 :: b).length ≤ (trimEnd r).length := by
  obtain ⟨⟨m₁, err₁⟩, hr₁, rfl⟩ := Option.map_eq_some_iff.mp h
  obtain ⟨⟨res, d'⟩, hres, -⟩ := Option.map_eq_some_iff.mp hr₁
  rw [hforb] at hres
  have hcases := normalize_absolute_cases hd hr hres
  cases res with
  | error err =>
    have hd' : d' = [] ∨ d' = d := hcases.elim And.right fun h => .inr h.2.2.2
    have hm := (initPathField_error hforb hres).symm.trans h
    by_cases herr : err = .empty
    · rw [if_pos herr] at hm
      exact .inl (.inl (Option.some.inj hm).symm)
    · rw [if_neg herr] at hm
      exact .inl (.inr ⟨d', hd', (Option.some.inj hm).symm⟩)
  | ok t =>
    obtain ⟨hw, hallowed, hreduce, rfl⟩ := hcases.resolve_left fun h => nomatch h.1.choose_spec
    obtain ⟨hnormal, hlen⟩ := reducePath_spec (head?_stringReplace (head?_trimEnd hr))
      (fun c hc => ⟨stringIsPresent_eq_false_iff.mp hallowed c hc, ne_zero_of_mem_stringReplace hc⟩) hreduce.symm
    obtain ⟨a, b, rfl, hb⟩ := exists_parts hnormal
    rw [initPathField_eq hforb hres (List.append_ne_nil_of_right_ne_nil _ (List.cons_ne_nil _ _))] at hr₁
    obtain rfl := congrArg Prod.fst (Option.some.inj hr₁)
    rw [length_stringReplace] at hlen
    exact .inr ⟨hw, a, b, hb, hnormal, parts_pathFields hb d' a, hlen⟩

end Parse

/-! ## Parsing twice -/

theorem copy_emptyPath : (emptyPath defaultForbiddenChar).copy cwd = some (emptyPath defaultForbiddenChar) := rfl

/-- A disk alone is no relative file name that is allowed. -/
theorem normalize_disk (cwd : Option Text) (hx : isAlpha x) :
    ∃ err, err ≠ .empty ∧ normalize cwd defaultForbiddenChar true [x, ':'.toUInt8] = some (.error err, []) := by
  have hd : IsDisk [x, ':'.toUInt8] := .inr ⟨x, hx, rfl⟩
  have hblank : x ∉ defaultTrimCharList := fun hmem => nomatch (isAlpha_blank x hmem).symm.trans hx
  have htrim : stringTrim [x, ':'.toUInt8] = [x, ':'.toUInt8] := by
    have hend : trimEnd [x, ':'.toUInt8] = [x, ':'.toUInt8] := (trimEnd_cons hblank _).trans rfl
    have hdrop : stringTrim [x, ':'.toUInt8] =
        (trimEnd [x, ':'.toUInt8]).dropWhile fun c => c ∈ defaultTrimCharList := rfl
    rw [hdrop, hend]
    exact List.dropWhile_cons_of_neg fun h => hblank (of_decide_eq_true h)
  have hreplace : stringReplace [x, ':'.toUInt8] = [x, ':'.toUInt8] := by
    have happend := stringReplace_absolute hd []
    rwa [List.append_nil] at happend
  have hslash : '/'.toUInt8 ∉ [x, ':'.toUInt8] := fun hmem => hd.ne hmem (by decide) (by decide) rfl
  have hforb : stringIsPresent [x, ':'.toUInt8] defaultForbiddenChar = true :=
    List.any_eq_true.mpr ⟨':'.toUInt8, by simp, by decide⟩
  cases hctl : stringIsPresent [x, ':'.toUInt8] controlChars with
  | true => exact ⟨.einval, nofun, normalize_control hctl⟩
  | false =>
    have hlocate := locate_file cwd hctl (by rw [htrim]; exact List.cons_ne_nil _ _)
      (by rwa [htrim, hreplace])
    cases cwd with
    | none => exact ⟨.internal, nofun, normalize_error hlocate⟩
    | some w =>
      refine ⟨.einval, nofun, ?_⟩
      rw [htrim, hreplace] at hlocate
      have habsolute : absolute true (stringReplace w) [x, ':'.toUInt8] = ([], [x, ':'.toUInt8]) := by
        unfold absolute
        exact if_neg fun h => h.2 rfl
      rw [BofPath.normalize, hlocate]
      simp only [Option.map_some, Option.elim_some, habsolute]
      rw [if_neg fun h => h.2 trivial, if_pos hforb]

/-- A path that is refused is copied to the empty path, or it is refused again. -/
theorem copy_refused (cwd : Option Text) (hd : IsDisk d) : (refused d).copy cwd = some (emptyPath defaultForbiddenChar) ∨
    (refused d).copy cwd = some (refused []) := by
  have hprint : (refused d).toString = d := by
    show d ++ [] ++ [] = d
    rw [List.append_nil, List.append_nil]
  unfold BofPath.copy
  rw [hprint]
  rcases hd with rfl | ⟨x, hx, rfl⟩
  · exact .inl rfl
  · obtain ⟨err, herr, hnormalize⟩ := normalize_disk cwd hx
    exact .inr ((initPathField_error rfl hnormalize).trans (congrArg some (if_neg herr)))

theorem Parts.copy_eq (h : Parts m d a b) :
    m.copy cwd = (initPathField cwd (some defaultForbiddenChar) false (d ++ (a ++ '/'.toUInt8 :: undot b))).map
      Prod.fst := by
  have hdir : decide (m.directoryName = []) = false := by
    rw [h.dir]
    exact decide_eq_false (List.concat_ne_nil _ _)
  rw [BofPath.copy, h.forbidden, hdir, h.toString_eq]

/-- A copy is no longer than the path. -/
theorem size_copy_le (hd : IsDisk d) (hnormal : Normal (a ++ '/'.toUInt8 :: b)) (h : Parts m d a b)
    (hcopy : m.copy cwd = some m') : size m' ≤ d.length + (a ++ '/'.toUInt8 :: undot b).length := by
  rw [h.copy_eq] at hcopy
  rcases initPathField_absolute rfl hd (head?_parts hnormal.root _) hcopy with
    (rfl | ⟨d', hd', rfl⟩) | ⟨-, a', b', -, -, hparts, hlen⟩
  · exact Nat.zero_le _
  · have hlen : d'.length ≤ d.length := by
      rcases hd' with rfl | rfl
      · exact Nat.zero_le _
      · exact Nat.le_refl _
    exact hlen.trans (Nat.le_add_right _ _)
  · have htrim := length_trimEnd_le (a ++ '/'.toUInt8 :: undot b)
    have hundot : (a' ++ '/'.toUInt8 :: undot b').length ≤ (a' ++ '/'.toUInt8 :: b').length :=
      ((List.Sublist.refl a').append ((undot_sublist b').cons_cons _)).length_le
    rw [hparts.size_eq]
    omega

/-- Parsing an absolute text twice makes it no longer, without the blanks at its end. -/
theorem size_parsePath_le (hd : IsDisk d) (hr : r.head? = some '/'.toUInt8) (h : parsePath cwd (d ++ r) = some m) :
    size m ≤ d.length + (trimEnd r).length := by
  obtain ⟨m₁, hm₁, hcopy⟩ := Option.bind_eq_some_iff.mp h
  rcases initPathField_absolute rfl hd hr hm₁ with (rfl | ⟨d', hd', rfl⟩) | ⟨-, a, b, -, hnormal, hparts, hlen⟩
  · obtain rfl := Option.some.inj (copy_emptyPath.symm.trans hcopy)
    exact Nat.zero_le _
  · have hdisk : IsDisk d' := by
      rcases hd' with rfl | rfl
      · exact .inl rfl
      · exact hd
    rcases copy_refused cwd hdisk with h | h
    · obtain rfl := Option.some.inj (h.symm.trans hcopy)
      exact Nat.zero_le _
    · obtain rfl := Option.some.inj (h.symm.trans hcopy)
      exact Nat.zero_le _
  · have hsize := size_copy_le hd hnormal hparts hcopy
    have hundot : (a ++ '/'.toUInt8 :: undot b).length ≤ (a ++ '/'.toUInt8 :: b).length :=
      ((List.Sublist.refl a).append ((undot_sublist b).cons_cons _)).length_le
    omega

/-- The path of a valid URI. -/
theorem parsePath_cases (h : parsePath cwd raw = some m) (hvalid : m.valid = true) :
    m = emptyPath defaultForbiddenChar ∨ (∃ w, cwd = some w) ∧ ∃ d a b, IsDisk d ∧
      (raw.head? = some '/'.toUInt8 → d = []) ∧ '/'.toUInt8 ∉ b ∧ Normal (a ++ '/'.toUInt8 :: b) ∧ Parts m d a b := by
  obtain ⟨m₁, hm₁, hcopy⟩ := Option.bind_eq_some_iff.mp h
  rcases initPathField_cases rfl hm₁ with rfl | ⟨d, hd, hroot, rfl | ⟨a₁, b₁, hb₁, hnormal₁, hparts₁⟩⟩
  · exact .inl (Option.some.inj (copy_emptyPath.symm.trans hcopy)).symm
  · rcases copy_refused cwd hd with h | h
    · exact .inl (Option.some.inj (hcopy.symm.trans h))
    · obtain rfl := Option.some.inj (h.symm.trans hcopy)
      cases hvalid
  · rw [hparts₁.copy_eq] at hcopy
    rcases initPathField_absolute rfl hd (head?_parts hnormal₁.root _) hcopy with
      (rfl | ⟨d', -, rfl⟩) | ⟨hw, a, b, hb, hnormal, hparts, -⟩
    · exact .inl rfl
    · cases hvalid
    · exact .inr ⟨hw, d, a, b, hd, hroot, hb, hnormal, hparts⟩

/-! ## Parsing what is printed -/

theorem trimEnd_parts (h : ∀ c, b.getLast? = some c → c ∉ defaultTrimCharList) (a : Text) :
    trimEnd (a ++ '/'.toUInt8 :: b) = a ++ '/'.toUInt8 :: b := by
  rcases List.eq_nil_or_concat b with rfl | ⟨b, c, rfl⟩
  · rw [trimEnd_concat, if_neg]
    decide
  · rw [List.concat_eq_append] at h ⊢
    have hc : c ∉ defaultTrimCharList := h c List.getLast?_concat
    rw [← List.cons_append, ← List.append_assoc, trimEnd_concat, if_neg hc]

theorem length_trimEnd_parts (h : b.getLast? = some x) (hx : x ∈ defaultTrimCharList) (a : Text) :
    (trimEnd (a ++ '/'.toUInt8 :: b)).length < (a ++ '/'.toUInt8 :: b).length := by
  obtain ⟨b, rfl⟩ := List.getLast?_eq_some_iff.mp h
  rw [← List.cons_append, ← List.append_assoc, trimEnd_concat, if_pos hx, List.length_append]
  exact Nat.lt_succ_of_le (length_trimEnd_le _)

/-- A normal path that does not end with a blank is parsed to its parts. -/
theorem parsePath_of_normal (hd : IsDisk d) (hb : '/'.toUInt8 ∉ b) (hnormal : Normal (a ++ '/'.toUInt8 :: b))
    (hblank : trimEnd (a ++ '/'.toUInt8 :: b) = a ++ '/'.toUInt8 :: b) (fo : Option Text)
    (hforb : fo.getD defaultForbiddenChar = defaultForbiddenChar) :
    ∃ m, (initPathField (some w) fo false (d ++ (a ++ '/'.toUInt8 :: b))).map Prod.fst = some m ∧ Parts m d a b := by
  have hallowed := stringIsPresent_of_normal hnormal fun c hc => hc
  have hok := initPathField_eq hforb (normalize_of_normal (w := w) hd hnormal hblank hallowed)
    (List.append_ne_nil_of_right_ne_nil _ (List.cons_ne_nil _ _))
  exact ⟨_, congrArg (Option.map Prod.fst) hok, parts_pathFields hb d a⟩

section Print

variable (hd : IsDisk d) (hb : '/'.toUInt8 ∉ b) (hnormal : Normal (a ++ '/'.toUInt8 :: b)) (h : Parts m d a b)
include hd hb hnormal h

/-- The parts are read back if the name is stable. -/
theorem exists_parts_parsePath (hstable : Stable m.fileNameWithExtension) :
    ∃ m', parsePath (some w) m.toString = some m' ∧ Parts m' d a (undot b) ∧ undot (undot b) = undot b := by
  rw [h.name] at hstable
  have hb' : '/'.toUInt8 ∉ undot b := fun hmem => hb ((undot_sublist b).subset hmem)
  have hnormal' := normal_undot hnormal hb
  have htrim := trimEnd_parts (fun c hc => (hstable c hc).2) a
  have hdot : undot (undot b) = undot b := undot_of_ne fun hlast => (hstable _ hlast).1 rfl
  obtain ⟨m₁, hm₁, hparts₁⟩ := parsePath_of_normal (w := w) hd hb' hnormal' htrim none rfl
  obtain ⟨m', hm', hparts'⟩ := parsePath_of_normal (w := w) hd hb' hnormal' htrim (some defaultForbiddenChar) rfl
  refine ⟨m', ?_, hparts', hdot⟩
  rw [h.toString_eq]
  refine Option.bind_eq_some_iff.mpr ⟨m₁, hm₁, ?_⟩
  rw [hparts₁.copy_eq, hdot, hm']

theorem parsePath_toString (hstable : Stable m.fileNameWithExtension) :
    ∃ m', parsePath (some w) m.toString = some m' ∧ m'.OperatorEq m ∧ m'.valid = true := by
  obtain ⟨m', hm', hparts', hdot⟩ := exists_parts_parsePath (w := w) hd hb hnormal h hstable
  exact ⟨m', hm', hparts'.operatorEq h hdot, hparts'.valid⟩

theorem stable_of_parsePath (hparse : parsePath (some w) m.toString = some m') (heq : m'.OperatorEq m) :
    Stable m.fileNameWithExtension := by
  have hsize : size m' = d.length + (a ++ '/'.toUInt8 :: undot b).length := by
    rw [size_eq_of_operatorEq heq, h.size_eq]
  have hb' : '/'.toUInt8 ∉ undot b := fun hmem => hb ((undot_sublist b).subset hmem)
  have hnormal' := normal_undot hnormal hb
  rw [h.toString_eq] at hparse
  rw [h.name]
  have hblank : ∀ c, (undot b).getLast? = some c → c ∉ defaultTrimCharList := by
    intro c hlast hc
    have hle := size_parsePath_le hd (head?_parts hnormal.root _) hparse
    have hlt := length_trimEnd_parts hlast hc a
    omega
  intro c hc
  refine ⟨?_, hblank c hc⟩
  rintro rfl
  -- the path loses the dot
  obtain ⟨m₁, hm₁, hparts₁⟩ := parsePath_of_normal (w := w) hd hb' hnormal' (trimEnd_parts hblank a) none rfl
  obtain ⟨m₂, hm₂, hcopy⟩ := Option.bind_eq_some_iff.mp hparse
  obtain rfl := Option.some.inj (hm₁.symm.trans hm₂)
  have hle := size_copy_le hd hnormal' hparts₁ hcopy
  have hlen := length_undot hc
  simp only [List.length_append, List.length_cons] at hle hsize
  omega

end Print

/-- Parsing a part of what is printed, up to a character. -/
theorem not_operatorEq_of_parsePath {r₁ r₂ : Text} (hd : IsDisk d) (h : Parts m d a b)
    (hr : a ++ '/'.toUInt8 :: undot b = r₁ ++ x :: r₂) (hroot : r₁.head? = some '/'.toUInt8)
    (hparse : parsePath cwd (d ++ r₁) = some m') : ¬ m'.OperatorEq m := by
  intro heq
  have hle := size_parsePath_le hd hroot hparse
  have htrim := length_trimEnd_le r₁
  have hsize := size_eq_of_operatorEq heq
  rw [h.size_eq, hr, List.length_append, List.length_cons] at hsize
  omega

end BofStd.BofUri
