import BofStd.BofPathSpec
import BofStd.Lib.Run
import BofStd.Proofs.BofUriPathProofs

/-!
# The three fields of a file name

A constructor leaves fields that agree, unless the name ends with a dot or a pure file name holds a slash. Of the
setters only the one for the name with extension writes all three fields. The other two write the name without
extension, so that the fields still agree only if nothing changes.
-/

namespace BofStd.BofPath

open BofUri (cutLast_append exists_cutLast undot undot_eq undot_append_cons)

variable {m : BofPath} {op : NameOp} {forb d path name ext s : Text} {pure : Bool}

/-! ## Names and extensions -/

@[simp] theorem fullName_nil (name : Text) : fullName name [] = name := List.append_nil name

theorem fullName_of_ne_nil (name : Text) (hext : ext ≠ []) : fullName name ext = name ++ '.'.toUInt8 :: ext := by
  rw [fullName, if_neg hext]

/-- A name that does not end with a dot is cut at its last dot. -/
theorem fullName_cut (hlast : (name ++ '.'.toUInt8 :: ext).getLast? ≠ some '.'.toUInt8) :
    fullName name ext = name ++ '.'.toUInt8 :: ext := by
  apply fullName_of_ne_nil
  rintro rfl
  exact hlast List.getLast?_concat

/-- The printed path shows the name. -/
theorem NamesAgree.toString_eq (h : NamesAgree m) :
    m.toString = m.diskName ++ m.directoryName ++ m.fileNameWithExtension := by
  have hname : m.fileNameWithoutExtension ++ (if m.extension = [] then [] else '.'.toUInt8 :: m.extension) =
      m.fileNameWithExtension := h.symm
  rw [toString, hname, isDirectory, BofUri.print_name]

/-! ## The fields of a path that is constructed -/

theorem cutLast_of_notMem {c : UInt8} (hc : c ∉ s) : cutLast s c = ([], s) := by
  have hall : ∀ x ∈ s, decide (x ≠ c) = true := by
    intro x hx
    apply decide_eq_true
    rintro rfl
    exact hc hx
  rw [cutLast, List.rdropWhile_eq_nil_iff.mpr hall, List.rtakeWhile_eq_self_iff.mpr hall]

/-- The fields of a normalized path agree if the name does not end with a dot, unless a pure file name holds a slash:
then it is the name without extension that holds it. -/
theorem namesAgree_pathFields (forb : Text) (pure : Bool) (d path : Text)
    (hdot : (pathFields forb pure d path).1.fileNameWithExtension.getLast? ≠ some '.'.toUInt8) :
    NamesAgree (pathFields forb pure d path).1 ∨
      (pure = true ∧ (pathFields forb pure d path).1.directoryName ≠ []) ∧
        '/'.toUInt8 ∈ (pathFields forb pure d path).1.fileNameWithoutExtension := by
  by_cases hlast : path.getLast? = some '/'.toUInt8
  · rw [pathFields, if_pos hlast]
    exact .inl rfl
  unfold pathFields at hdot ⊢
  rw [if_neg hlast] at hdot ⊢
  by_cases hslash : '/'.toUInt8 ∈ path
  · obtain ⟨a, b, rfl, hb⟩ := exists_cutLast hslash
    have hdir : a ++ ['/'.toUInt8] ≠ [] := List.concat_ne_nil _ _
    rw [cutLast_append hb] at hdot ⊢
    dsimp only at hdot ⊢
    rw [if_neg fun h => hdir h.1, ← undot_eq hdir, if_neg hdir]
    by_cases hmem : '.'.toUInt8 ∈ b
    · obtain ⟨e, f, rfl, hf⟩ := exists_cutLast hmem
      rw [if_pos hmem, cutLast_append hf]
      cases pure with
      | false =>
        rw [if_neg Bool.false_ne_true, cutLast_append hf, List.dropLast_concat]
        exact .inl (undot_append_cons hf e)
      | true =>
        have hpath : a ++ '/'.toUInt8 :: (e ++ '.'.toUInt8 :: f) = (a ++ '/'.toUInt8 :: e) ++ '.'.toUInt8 :: f := by
          rw [List.append_assoc, List.cons_append]
        rw [if_pos rfl, hpath, cutLast_append hf, List.dropLast_concat]
        exact .inr ⟨⟨rfl, hdir⟩, by simp⟩
    · rw [if_neg hmem]
      exact .inl (fullName_nil _).symm
  · rw [cutLast_of_notMem hslash] at hdot ⊢
    dsimp only at hdot ⊢
    left
    cases pure with
    | false =>
      rw [if_pos ⟨rfl, Bool.false_ne_true⟩]
      exact (fullName_nil _).symm
    | true =>
      have hname : (if ([] : Text) ≠ [] ∧ path.getLast? = some '.'.toUInt8 then path.dropLast else path) = path :=
        if_neg fun h => h.1 rfl
      rw [if_neg fun h => h.2 rfl, hname, if_pos rfl] at hdot ⊢
      by_cases hmem : '.'.toUInt8 ∈ path.drop 1
      · rw [if_pos hmem] at hdot ⊢
        obtain ⟨e, f, rfl, hf⟩ := exists_cutLast (List.mem_of_mem_drop hmem)
        rw [if_pos rfl, cutLast_append hf, List.dropLast_concat]
        exact (fullName_cut hdot).symm
      · rw [if_neg hmem]
        exact (fullName_nil _).symm

/-- The fields of a path that a constructor has made. -/
theorem namesAgree_initPathField {cwd forbiddenChar : Option Text} {raw : Text} {err : BofErr}
    (h : initPathField cwd forbiddenChar pure raw = some (m, err))
    (hdot : m.fileNameWithExtension.getLast? ≠ some '.'.toUInt8) :
    NamesAgree m ∨ (pure = true ∧ m.directoryName ≠ []) ∧ '/'.toUInt8 ∈ m.fileNameWithoutExtension := by
  obtain ⟨res, -, hfields⟩ := Option.map_eq_some_iff.mp h
  split at hfields
  · obtain ⟨rfl, rfl⟩ := Prod.mk.inj hfields
    exact .inl rfl
  · obtain ⟨rfl, rfl⟩ := Prod.mk.inj hfields
    exact .inl rfl
  · obtain ⟨rfl, rfl⟩ := Prod.mk.inj hfields
    exact .inl rfl
  · obtain rfl := congrArg Prod.fst hfields
    exact namesAgree_pathFields _ _ _ _ hdot

/-! ## The setters -/

/-- The setter of the extension does what the one of the name without extension does. -/
theorem setName_extension (m : BofPath) (s : Text) :
    m.setName (.extension s) = m.setName (.fileNameWithoutExtension s) := rfl

theorem setName_fileNameWithoutExtension (h : (NameOp.fileNameWithoutExtension s).Accepts) :
    m.setName (.fileNameWithoutExtension s) = ({ m with fileNameWithoutExtension := s }, .noError) := by
  rw [setName, if_pos h.1, if_pos (Bool.eq_false_iff.mp h.2)]

theorem setName_of_not_accepts (h : ¬ op.Accepts) : m.setName op = (m, .einval) := by
  have hwithout : ∀ s, ¬ (NameOp.fileNameWithoutExtension s).Accepts →
      m.setName (.fileNameWithoutExtension s) = (m, .einval) := by
    intro s h
    rw [setName]
    split
    · rename_i hdot
      exact if_neg fun hdelimiter => h ⟨hdot, Bool.eq_false_iff.mpr hdelimiter⟩
    · rfl
  cases op with
  | fileNameWithoutExtension s => exact hwithout s h
  | fileNameWithExtension s => exact if_neg fun hdelimiter => h (Bool.eq_false_iff.mpr hdelimiter)
  | extension s => exact (setName_extension m s).trans (hwithout s h)

/-- The setter of the name with extension cuts it at its last dot. -/
theorem setName_fileNameWithExtension (h : (NameOp.fileNameWithExtension s).Accepts) : ∃ name ext,
    m.setName (.fileNameWithExtension s) =
      ({ m with fileNameWithExtension := s, extension := ext, fileNameWithoutExtension := name }, .noError) ∧
    (fullName name ext = s ↔ s.getLast? ≠ some '.'.toUInt8) := by
  have hdelimiter : ¬ isDirectoryDelimiterPresent s = true := Bool.eq_false_iff.mp h
  by_cases hdot : '.'.toUInt8 ∈ s
  · obtain ⟨name, ext, rfl, hext⟩ := exists_cutLast hdot
    refine ⟨name, ext, ?_, ?_⟩
    · rw [setName, if_pos hdelimiter, if_neg (not_not_intro hdot), cutLast_append hext]
      dsimp only
      rw [List.dropLast_concat]
    · constructor
      · rintro hfull hlast
        have hundot := undot_append_cons hext name
        rw [undot, if_pos hlast] at hundot
        have hlen := congrArg List.length (hundot.trans hfull)
        rw [List.length_dropLast, List.length_append, List.length_cons] at hlen
        omega
      · exact fullName_cut
  · refine ⟨s, [], ?_, iff_of_true (fullName_nil s) ?_⟩
    · rw [setName, if_pos hdelimiter, if_pos hdot]
    · intro hlast
      exact hdot (List.mem_of_getLast? hlast)

theorem setName_of_accepts (h : op.Accepts) : (m.setName op).2 = .noError := by
  cases op with
  | fileNameWithoutExtension s => rw [setName_fileNameWithoutExtension h]
  | fileNameWithExtension s =>
    obtain ⟨name, ext, hset, -⟩ := setName_fileNameWithExtension (m := m) h
    rw [hset]
  | extension s => rw [setName_extension, setName_fileNameWithoutExtension h]

/-- Where a text that a setter accepts is the name without extension, the fields agree. -/
theorem namesAgree_of_accepts (hinv : NamesAgree m ∨ '/'.toUInt8 ∈ m.fileNameWithoutExtension)
    (h : isDirectoryDelimiterPresent m.fileNameWithoutExtension = false) : NamesAgree m := by
  refine hinv.resolve_right ?_
  intro hslash
  rw [isDirectoryDelimiterPresent, decide_eq_true hslash] at h
  cases h

/-- A call that fits keeps the names. -/
theorem keepsNames_of_fits (hinv : NamesAgree m ∨ '/'.toUInt8 ∈ m.fileNameWithoutExtension)
    (hfits : op.Accepts → Fits m op) : KeepsNames m op ∧
      (NamesAgree (m.setName op).1 ∨ '/'.toUInt8 ∈ (m.setName op).1.fileNameWithoutExtension) := by
  by_cases hacc : op.Accepts
  · have hfits := hfits hacc
    cases op with
    | fileNameWithoutExtension s =>
      obtain rfl : s = m.fileNameWithoutExtension := hfits
      have hagree := namesAgree_of_accepts hinv hacc.2
      rw [KeepsNames, setName_fileNameWithoutExtension hacc]
      exact ⟨fun _ => ⟨⟨rfl, rfl⟩, hagree, hagree.toString_eq⟩, .inl hagree⟩
    | fileNameWithExtension s =>
      obtain ⟨name, ext, hset, hfull⟩ := setName_fileNameWithExtension (m := m) hacc
      have hagree : NamesAgree (m.setName (.fileNameWithExtension s)).1 := by
        rw [hset]
        exact (hfull.mpr hfits).symm
      have htext := hagree.toString_eq
      rw [KeepsNames]
      rw [hset] at hagree htext ⊢
      exact ⟨fun _ => ⟨rfl, hagree, htext⟩, .inl hagree⟩
    | extension s =>
      obtain ⟨hext, hname⟩ : s = m.extension ∧ s = m.fileNameWithoutExtension := hfits
      subst hname
      have hagree := namesAgree_of_accepts hinv hacc.2
      rw [KeepsNames, setName_extension, setName_fileNameWithoutExtension hacc]
      exact ⟨fun _ => ⟨⟨hext.symm, rfl⟩, hagree, hagree.toString_eq⟩, .inl hagree⟩
  · rw [KeepsNames, setName_of_not_accepts hacc]
    exact ⟨nofun, hinv⟩

/-- Where the fields agree, only a call that fits keeps the names. -/
theorem fits_of_keepsNames (hagree : NamesAgree m) (hkeeps : KeepsNames m op) (hacc : op.Accepts) : Fits m op := by
  cases op with
  | fileNameWithoutExtension s =>
    rw [KeepsNames, setName_fileNameWithoutExtension hacc] at hkeeps
    obtain ⟨-, hagree', -⟩ := hkeeps rfl
    -- the name with extension is as before
    exact List.append_cancel_right (hagree'.symm.trans hagree)
  | fileNameWithExtension s =>
    obtain ⟨name, ext, hset, hfull⟩ := setName_fileNameWithExtension (m := m) hacc
    rw [KeepsNames, hset] at hkeeps
    obtain ⟨-, hagree', -⟩ := hkeeps rfl
    exact hfull.mp hagree'.symm
  | extension s =>
    rw [KeepsNames, setName_extension, setName_fileNameWithoutExtension hacc] at hkeeps
    obtain ⟨⟨hext, hname⟩, -, -⟩ := hkeeps rfl
    exact ⟨hext.symm, hname⟩

/-! ## Runs -/

/-- In a run of setters every call keeps the names if every call that is accepted fits. For a path whose fields agree at
the start it is so only if every such call fits. -/
theorem meets_keepsNames (cwd forbiddenChar : Option Text) (pure : Bool) (raw : Text) (m : BofPath) (err : BofErr)
    (h : initPathField cwd forbiddenChar pure raw = some (m, err))
    (hdot : m.fileNameWithExtension.getLast? ≠ some '.'.toUInt8) (ops : List NameOp) :
    (Machine.Meets setName (fun m op => op.Accepts → Fits m op) m ops → Machine.Meets setName KeepsNames m ops) ∧
      ((pure = true → m.directoryName = []) → Machine.Meets setName KeepsNames m ops →
        Machine.Meets setName (fun m op => op.Accepts → Fits m op) m ops) := by
  have hfields := namesAgree_initPathField h hdot
  constructor
  · refine Machine.Meets.imp_of_inv
      (P := fun m => NamesAgree m ∨ '/'.toUInt8 ∈ m.fileNameWithoutExtension) ?_ ?_ (hfields.imp_right And.right)
    · intro m op hinv hfits
      exact (keepsNames_of_fits hinv hfits).1
    · intro m op hinv hfits
      exact (keepsNames_of_fits hinv hfits).2
  · intro hpure hkeeps
    have hagree : NamesAgree m := hfields.resolve_right fun h => h.1.2 (hpure h.1.1)
    refine Machine.Meets.imp_of_inv (P := NamesAgree) ?_ ?_ hagree hkeeps
    · intro m op hagree hkeeps hacc
      exact fits_of_keepsNames hagree hkeeps hacc
    · intro m op hagree hkeeps
      by_cases hacc : op.Accepts
      · exact (hkeeps (setName_of_accepts hacc)).2.1
      · rw [setName_of_not_accepts hacc]
        exact hagree

/-- The path `/a.b`, whose name becomes `x.y`; the setter of the name without extension is called for `x`. -/
theorem meets_keepsNames_both : ∃ m err,
    initPathField (some ['/'.toUInt8]) none false ['/'.toUInt8, 'a'.toUInt8, '.'.toUInt8, 'b'.toUInt8] =
        some (m, err) ∧
      Machine.Meets setName KeepsNames m
        [.fileNameWithExtension ['x'.toUInt8, '.'.toUInt8, 'y'.toUInt8], .fileNameWithoutExtension ['x'.toUInt8]] :=
  ⟨_, _, rfl, (meets_keepsNames (some ['/'.toUInt8]) none false
      ['/'.toUInt8, 'a'.toUInt8, '.'.toUInt8, 'b'.toUInt8] _ _ rfl (by decide) _).1
    ⟨fun _ => by unfold Fits; decide, fun _ => rfl, trivial⟩⟩

/-- The path `/a.b`, of which the extension is set to `c`, or the name without extension. -/
theorem not_meets_keepsNames_extension_or_name : ∃ m,
    ofString (some ['/'.toUInt8]) ['/'.toUInt8, 'a'.toUInt8, '.'.toUInt8, 'b'.toUInt8] false = some m ∧
      m.valid = true ∧ m.fileNameWithExtension ≠ [] ∧ m.fileNameWithExtension.getLast? ≠ some '.'.toUInt8 ∧
      ¬ Machine.Meets setName KeepsNames m [.extension ['c'.toUInt8]] ∧
      ¬ Machine.Meets setName KeepsNames m [.fileNameWithoutExtension ['c'.toUInt8]] := by
  refine ⟨_, rfl, by decide, by decide, by decide, ?_, ?_⟩
  · rintro ⟨hkeeps, -⟩
    obtain ⟨⟨hext, -⟩, -⟩ := hkeeps rfl
    exact absurd hext (by decide)
  · rintro ⟨hkeeps, -⟩
    obtain ⟨-, hagree, -⟩ := hkeeps rfl
    exact absurd hagree (by unfold NamesAgree; decide)

end BofStd.BofPath

/-!
# Paths that are printed and copied

Both ways read the printed text as an absolute path with the usual forbidden characters. A name that ends with a blank
is trimmed then, and a name that ends with a dot loses it.
-/

namespace BofStd.BofPath

open BofUri (Parts undot undot_of_ne undot_sublist)

variable {m m' : BofPath} {a b d raw t forb : Text} {cwd forbiddenChar : Option Text} {w : Text} {pure : Bool}

/-- Without a working directory nothing is normalized. -/
theorem exists_currentDirectory (h : normalize cwd forb pure raw = some (.ok t, d)) : ∃ w, cwd = some w := by
  cases cwd with
  | some w => exact ⟨w, rfl⟩
  | none =>
    have hlocate : ∃ err, locate none pure raw = some (.error err) := by
      unfold locate
      split
      · exact ⟨_, rfl⟩
      split
      · exact ⟨_, rfl⟩
      · exact ⟨_, rfl⟩
    obtain ⟨err, herr⟩ := hlocate
    rw [normalize_error herr] at h
    cases h

/-- The parts of a path that was parsed from a text, and is in a directory. -/
theorem exists_parts_ofString (h : ofString cwd raw false = some m) (hvalid : m.valid = true)
    (hdir : m.directoryName ≠ []) :
    (∃ w, cwd = some w) ∧ ∃ d a b, IsDisk d ∧ '/'.toUInt8 ∉ b ∧ Normal (a ++ '/'.toUInt8 :: b) ∧ Parts m d a b := by
  rcases BofUri.initPathField_cases rfl h with rfl | ⟨d, hd, -, rfl | ⟨a, b, hb, hnormal, hparts⟩⟩
  · exact absurd rfl hdir
  · cases hvalid
  refine ⟨?_, d, a, b, hd, hb, hnormal, hparts⟩
  obtain ⟨r, hr, rfl⟩ := Option.map_eq_some_iff.mp h
  obtain ⟨⟨res, d'⟩, hres, hfields⟩ := Option.map_eq_some_iff.mp hr
  cases res with
  | ok t => exact exists_currentDirectory hres
  | error err =>
    -- a path that is refused has no directory
    have hnil : r.1.directoryName = [] := by
      rw [← hfields]
      cases err <;> rfl
    exact absurd hnil hdir

section Read

variable (hd : IsDisk d) (hb : '/'.toUInt8 ∉ b) (hnormal : Normal (a ++ '/'.toUInt8 :: b)) (h : Parts m d a b)
  (hforb : forbiddenChar.getD defaultForbiddenChar = defaultForbiddenChar)
include hd hb hnormal h hforb

/-- A stable name is read back. -/
theorem reads_of_stable (hstable : Stable m.fileNameWithExtension) :
    ∃ m', (initPathField (some w) forbiddenChar false m.toString).map Prod.fst = some m' ∧ m'.valid = true ∧
      m'.OperatorEq m := by
  rw [h.name] at hstable
  have hb' : '/'.toUInt8 ∉ undot b := fun hmem => hb ((undot_sublist b).subset hmem)
  have hblank := BofUri.trimEnd_parts (fun c hc => (hstable c hc).2) a
  have hundot : undot (undot b) = undot b := undot_of_ne fun hlast => (hstable _ hlast).1 rfl
  obtain ⟨m', hm', hparts'⟩ :=
    BofUri.parsePath_of_normal (w := w) hd hb' (BofUri.normal_undot hnormal hb) hblank forbiddenChar hforb
  refine ⟨m', ?_, hparts'.valid, hparts'.operatorEq h hundot⟩
  rw [h.toString_eq, hm']

/-- Only a stable name is read back: otherwise the text gets shorter. -/
theorem stable_of_reads (hread : (initPathField cwd forbiddenChar false m.toString).map Prod.fst = some m')
    (hvalid : m'.valid = true) (heq : m'.OperatorEq m) : Stable m.fileNameWithExtension := by
  have hb' : '/'.toUInt8 ∉ undot b := fun hmem => hb ((undot_sublist b).subset hmem)
  have hroot : (a ++ '/'.toUInt8 :: undot b).head? = some '/'.toUInt8 := BofUri.head?_parts hnormal.root _
  rw [h.toString_eq] at hread
  have hsize : BofUri.size m' = d.length + (a ++ '/'.toUInt8 :: undot b).length := by
    rw [BofUri.size_eq_of_operatorEq heq, h.size_eq]
  rcases BofUri.initPathField_absolute hforb hd hroot hread with
    (rfl | ⟨d', -, rfl⟩) | ⟨⟨w, rfl⟩, a', b', -, -, hparts', hlen⟩
  · have hdir := heq.2.1
    rw [h.dir] at hdir
    exact absurd hdir.symm (List.concat_ne_nil _ _)
  · cases hvalid
  rw [h.name]
  have hblank : ∀ c, (undot b).getLast? = some c → c ∉ defaultTrimCharList := by
    intro c hlast hc
    have hlt := BofUri.length_trimEnd_parts hlast hc a
    have hundot : (a' ++ '/'.toUInt8 :: undot b').length ≤ (a' ++ '/'.toUInt8 :: b').length :=
      ((List.Sublist.refl a').append ((undot_sublist b').cons_cons _)).length_le
    rw [hparts'.size_eq] at hsize
    omega
  intro c hc
  refine ⟨?_, hblank c hc⟩
  rintro rfl
  -- the text is read as it is, and the name loses the dot
  obtain ⟨m₁, hm₁, hparts₁⟩ := BofUri.parsePath_of_normal (w := w) hd hb' (BofUri.normal_undot hnormal hb)
    (BofUri.trimEnd_parts hblank a) forbiddenChar hforb
  obtain rfl := Option.some.inj (hm₁.symm.trans hread)
  have hlen' := BofUri.length_undot hc
  have hname := congrArg List.length heq.2.2
  rw [hparts₁.name, h.name] at hname
  omega

theorem reads_iff : (∃ m', (initPathField (some w) forbiddenChar false m.toString).map Prod.fst = some m' ∧
    m'.valid = true ∧ m'.OperatorEq m) ↔ Stable m.fileNameWithExtension := by
  constructor
  · rintro ⟨m', hread, hvalid, heq⟩
    exact stable_of_reads hd hb hnormal h hforb hread hvalid heq
  · intro hstable
    exact reads_of_stable hd hb hnormal h hforb hstable

end Read

/-- A path in a directory is read back exactly if its file name ends with neither a dot nor a blank. -/
theorem readsBack_iff (cwd : Option Text) (raw : Text) (m : BofPath) (h : ofString cwd raw false = some m)
    (hvalid : m.valid = true) (hdir : m.directoryName ≠ []) :
    ReadsBack cwd m ↔ Stable m.fileNameWithExtension := by
  obtain ⟨⟨w, rfl⟩, d, a, b, hd, hb, hnormal, hparts⟩ := exists_parts_ofString h hvalid hdir
  have hcopy : m.copy (some w) =
      (initPathField (some w) (some defaultForbiddenChar) false m.toString).map Prod.fst := by
    rw [copy, decide_eq_false hdir, hparts.forbidden]
  rw [ReadsBack, hcopy]
  exact (and_congr (reads_iff hd hb hnormal hparts rfl) (reads_iff hd hb hnormal hparts rfl)).trans and_self_iff

/-- The path `/a.b`. -/
theorem readsBack_iff_extension : ∃ m,
    ofString (some ['/'.toUInt8]) ['/'.toUInt8, 'a'.toUInt8, '.'.toUInt8, 'b'.toUInt8] false = some m ∧
      (ReadsBack (some ['/'.toUInt8]) m ↔ Stable m.fileNameWithExtension) :=
  ⟨_, rfl, readsBack_iff (some ['/'.toUInt8]) ['/'.toUInt8, 'a'.toUInt8, '.'.toUInt8, 'b'.toUInt8] _ rfl (by decide)
    (by decide)⟩

/-- The path `/a..` has the name `a.`, and the text `/a.`. -/
theorem not_readsBack_dots : ∃ m,
    ofString (some ['/'.toUInt8]) ['/'.toUInt8, 'a'.toUInt8, '.'.toUInt8, '.'.toUInt8] false = some m ∧
      m.valid = true ∧ m.directoryName ≠ [] ∧ ¬ ReadsBack (some ['/'.toUInt8]) m := by
  refine ⟨_, rfl, by decide, by decide, ?_⟩
  rintro ⟨⟨m', hread, -, -, -, hname⟩, -⟩
  obtain rfl := Option.some.inj hread
  exact absurd hname (by decide)

end BofStd.BofPath
