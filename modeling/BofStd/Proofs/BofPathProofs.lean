import BofStd.Proofs.PathReduceProofs
import Mathlib.Data.Bool.AllAny

/-!
# Paths that are parsed again

An absolute text is a disk and a text that begins with a slash. `Normalize` only reduces it, so that what a `BofPath`
prints is parsed to a path that is no longer, and to the same path unless the name ends with a dot or a blank.
-/

namespace BofStd.BofPath

variable {s t a b d d' r raw path : Text} {c x : UInt8} {cwd : Option Text} {w forb : Text} {pure : Bool}

/-! ## Absolute texts -/

theorem IsDisk.mem (hd : IsDisk d) (hc : c ∈ d) : isAlpha c ∨ c = ':'.toUInt8 := by
  rcases hd with rfl | ⟨x, hx, rfl⟩
  · exact absurd hc List.not_mem_nil
  · rcases List.mem_cons.mp hc with rfl | hc
    · exact .inl hx
    · exact .inr (List.mem_singleton.mp hc)

theorem isAlpha_blank : ∀ c ∈ defaultTrimCharList, isAlpha c = false :=
  List.all_iff_forall_prop.mp (by decide)

theorem IsDisk.ne (hd : IsDisk d) (hc : c ∈ d) (hx : isAlpha x = false) (hcolon : x ≠ ':'.toUInt8) : c ≠ x := by
  rintro rfl
  rcases hd.mem hc with h | h
  · rw [hx] at h
    cases h
  · exact hcolon h

/-- The first character of an absolute text. -/
theorem head?_absolute (hd : IsDisk d) (hr : r.head? = some '/'.toUInt8) :
    ∃ c s, d ++ r = c :: s ∧ c ∉ defaultTrimCharList ∧ c ≠ '.'.toUInt8 := by
  rcases hd with rfl | ⟨x, hx, rfl⟩
  · obtain ⟨r, rfl⟩ := List.head?_eq_some_iff.mp hr
    exact ⟨_, r, rfl, by decide, by decide⟩
  · refine ⟨x, _, rfl, ?_, ?_⟩
    · intro hblank
      rw [isAlpha_blank x hblank] at hx
      cases hx
    · rintro rfl
      exact absurd hx (by decide)

theorem head?_trimEnd (hr : r.head? = some '/'.toUInt8) : (trimEnd r).head? = some '/'.toUInt8 := by
  obtain ⟨r, rfl⟩ := List.head?_eq_some_iff.mp hr
  rw [trimEnd_cons (by decide)]
  rfl

theorem stringTrim_absolute (hd : IsDisk d) (hr : r.head? = some '/'.toUInt8) :
    stringTrim (d ++ r) = d ++ trimEnd r := by
  have htrim : trimEnd (d ++ r) = d ++ trimEnd r := by
    rcases hd with rfl | ⟨x, hx, rfl⟩
    · rfl
    · have hblank : x ∉ defaultTrimCharList := by
        intro hblank
        rw [isAlpha_blank x hblank] at hx
        cases hx
      exact (trimEnd_cons hblank _).trans (congrArg _ (trimEnd_cons (by decide) r))
  obtain ⟨c, s, hcs, hc, -⟩ := head?_absolute hd (head?_trimEnd hr)
  have hdrop : stringTrim (d ++ r) = (trimEnd (d ++ r)).dropWhile fun c => c ∈ defaultTrimCharList := rfl
  rw [hdrop, htrim, hcs]
  exact List.dropWhile_cons_of_neg fun h => hc (of_decide_eq_true h)

theorem stringReplace_absolute (hd : IsDisk d) (s : Text) : stringReplace (d ++ s) = d ++ stringReplace s := by
  rw [stringReplace_append, stringReplace_eq_self]
  intro c hc
  exact ⟨hd.ne hc (by decide) (by decide), hd.ne hc (by decide) (by decide)⟩

theorem IsDisk.stringIsPresent_control (hd : IsDisk d) : stringIsPresent d controlChars = false := by
  rw [stringIsPresent_eq_false_iff]
  intro c hc hmem
  have hne : ∀ x ∈ controlChars, isAlpha x = false ∧ x ≠ ':'.toUInt8 := List.all_iff_forall_prop.mp (by decide)
  obtain ⟨halpha, hcolon⟩ := hne c hmem
  exact hd.ne hc halpha hcolon rfl

theorem locate_control (h : stringIsPresent raw controlChars) : locate cwd pure raw = some (.error .einval) := if_pos h

theorem stringTrim_ne_nil (hslash : '/'.toUInt8 ∈ stringReplace (stringTrim raw)) : stringTrim raw ≠ [] := by
  intro hnil
  rw [hnil] at hslash
  exact List.not_mem_nil hslash

/-- An absolute path is left as it is. -/
theorem locate_of_root (hctl : stringIsPresent raw controlChars = false)
    (hraw : stringReplace (stringTrim raw) = d ++ r) (hd : IsDisk d) (hr : r.head? = some '/'.toUInt8) :
    locate cwd pure raw = some ((cwd.map stringReplace).elim (.error .internal) fun w => .ok (w, d ++ r)) := by
  obtain ⟨c, s, hcs, -, hdot⟩ := head?_absolute hd hr
  have hslash : '/'.toUInt8 ∈ d ++ r := List.mem_append_right _ (List.mem_of_mem_head? hr)
  have hne : stringTrim raw ≠ [] := stringTrim_ne_nil (by rwa [hraw])
  have hhead : (d ++ r).head? ≠ some '.'.toUInt8 := by
    rw [hcs]
    exact fun h => hdot (Option.some.inj h)
  unfold locate
  rw [if_neg (Bool.not_eq_true _ ▸ hctl), if_neg hne, hraw]
  cases cwd with
  | none => rfl
  | some w =>
    dsimp only [Option.map_some, Option.elim_some]
    rw [if_neg fun h => h hslash, if_neg hhead]

theorem stringReplace_stringTrim_absolute (hd : IsDisk d) (hr : r.head? = some '/'.toUInt8) :
    stringReplace (stringTrim (d ++ r)) = d ++ stringReplace (trimEnd r) := by
  rw [stringTrim_absolute hd hr, stringReplace_absolute hd]

/-- A pure file name is not put behind the working directory. -/
theorem locate_file (cwd : Option Text) (hctl : stringIsPresent raw controlChars = false) (hne : stringTrim raw ≠ [])
    (hslash : '/'.toUInt8 ∉ stringReplace (stringTrim raw)) : locate cwd true raw =
      some ((cwd.map stringReplace).elim (.error .internal) fun w => .ok (w, stringReplace (stringTrim raw))) := by
  unfold locate
  rw [if_neg (Bool.not_eq_true _ ▸ hctl), if_neg hne]
  cases cwd with
  | none => rfl
  | some w => exact if_pos hslash

theorem isWindowsDiskPath_of_head? (hr : r.head? = some '/'.toUInt8) : isWindowsDiskPath r = false := by
  obtain ⟨r, rfl⟩ := List.head?_eq_some_iff.mp hr
  rcases r with _ | ⟨b, _ | ⟨c, r⟩⟩
  · rfl
  · rfl
  · rfl

theorem extractDisk_absolute (hd : IsDisk d) (hr : r.head? = some '/'.toUInt8) : extractDisk [] (d ++ r) = (d, r) := by
  unfold extractDisk
  rcases hd with rfl | ⟨x, hx, rfl⟩
  · rw [if_neg]
    · rfl
    · rw [List.nil_append, isWindowsDiskPath_of_head? hr]
      exact Bool.false_ne_true
  · obtain ⟨r, rfl⟩ := List.head?_eq_some_iff.mp hr
    rw [if_pos]
    · rfl
    · show (isAlpha x && _ && _) = true
      rw [hx]
      rfl

theorem absolute_absolute (hd : IsDisk d) (hr : r.head? = some '/'.toUInt8) : absolute pure w (d ++ r) = (d, r) := by
  unfold absolute
  rw [extractDisk_absolute hd hr]
  exact if_neg fun h => h.1 hr

/-- The paths that are not absolute, too, are a disk and a text in the end. -/
theorem isDisk_extractDisk (hd : IsDisk d) (path : Text) : IsDisk (extractDisk d path).1 := by
  unfold extractDisk
  split
  · rename_i h
    rcases path with _ | ⟨x, _ | ⟨y, _ | ⟨z, path⟩⟩⟩
    · cases h
    · cases h
    · cases h
    · have hxy : (isAlpha x && decide (y = ':'.toUInt8) && _) = true := h
      rw [Bool.and_eq_true, Bool.and_eq_true, decide_eq_true_iff] at hxy
      exact .inr ⟨x, hxy.1.1, by rw [← hxy.1.2]; rfl⟩
  · exact hd

theorem mem_extractDisk (hc : c ∈ (extractDisk d path).2) : c ∈ path := by
  unfold extractDisk at hc
  split at hc
  · exact List.mem_of_mem_drop hc
  · exact hc

theorem isDisk_absolute (pure : Bool) (w path : Text) : IsDisk (absolute pure w path).1 := by
  have hd := isDisk_extractDisk (.inl rfl) path
  unfold absolute
  dsimp only
  split
  · exact isDisk_extractDisk hd _
  · exact hd

theorem mem_absolute (hc : c ∈ (absolute pure w path).2) : c ∈ w ∨ c ∈ path := by
  unfold absolute at hc
  dsimp only at hc
  split at hc
  · rcases List.mem_append.mp (mem_extractDisk hc) with hc | hc
    · exact .inl hc
    · exact .inr (mem_extractDisk hc)
  · exact .inr (mem_extractDisk hc)

/-! ## `Normalize` -/

theorem normalize_error {err : BofErr} (h : locate cwd pure raw = some (.error err)) :
    normalize cwd forb pure raw = some (.error err, []) := by
  rw [normalize, h]
  rfl

theorem normalize_control (h : stringIsPresent raw controlChars) :
    normalize cwd forb pure raw = some (.error .einval, []) := normalize_error (locate_control h)

theorem normalize_of_root (hctl : stringIsPresent raw controlChars = false)
    (hraw : stringReplace (stringTrim raw) = d ++ r) (hd : IsDisk d) (hr : r.head? = some '/'.toUInt8) :
    normalize cwd forb false raw = some (cwd.elim (.error .internal, []) fun _ =>
      (if stringIsPresent r forb then .error .einval else reducePath r, d)) := by
  rw [normalize, locate_of_root hctl hraw hd hr]
  cases cwd with
  | none => rfl
  | some w =>
    simp only [Option.map_some, Option.elim_some, absolute_absolute hd hr]
    rw [if_neg fun h => h.1 hr, if_neg Bool.false_ne_true]
    split <;> rfl

theorem normalize_absolute (hd : IsDisk d) (hr : r.head? = some '/'.toUInt8)
    (hctl : stringIsPresent (d ++ r) controlChars = false) : normalize cwd forb false (d ++ r) =
      some (cwd.elim (.error .internal, []) fun _ =>
        (if stringIsPresent (stringReplace (trimEnd r)) forb then .error .einval
          else reducePath (stringReplace (trimEnd r)), d)) :=
  normalize_of_root hctl (stringReplace_stringTrim_absolute hd hr) hd (head?_stringReplace (head?_trimEnd hr))

/-- An absolute path that is refused has its disk or none, and one that is not is reduced. -/
theorem normalize_absolute_cases {res : Except BofErr Text} (hd : IsDisk d) (hr : r.head? = some '/'.toUInt8)
    (h : normalize cwd forb false (d ++ r) = some (res, d')) :
    (∃ err, res = .error err) ∧ (d' = [] ∨ d' = d) ∨
      (∃ w, cwd = some w) ∧ stringIsPresent (stringReplace (trimEnd r)) forb = false ∧
        res = reducePath (stringReplace (trimEnd r)) ∧ d' = d := by
  cases hctl : stringIsPresent (d ++ r) controlChars with
  | true =>
    rw [normalize_control hctl] at h
    obtain ⟨rfl, rfl⟩ := Prod.mk.inj (Option.some.inj h)
    exact .inl ⟨⟨_, rfl⟩, .inl rfl⟩
  | false =>
    rw [normalize_absolute hd hr hctl] at h
    cases cwd with
    | none =>
      obtain ⟨rfl, rfl⟩ := Prod.mk.inj (Option.some.inj h)
      exact .inl ⟨⟨_, rfl⟩, .inl rfl⟩
    | some w =>
      obtain ⟨rfl, rfl⟩ := Prod.mk.inj (Option.some.inj h)
      cases hforb : stringIsPresent (stringReplace (trimEnd r)) forb with
      | true => exact .inl ⟨⟨_, if_pos rfl⟩, .inr rfl⟩
      | false => exact .inr ⟨⟨w, rfl⟩, rfl, if_neg Bool.false_ne_true, rfl⟩

theorem mem_parentDirectory (h : parentDirectory w = .ok s) (hc : c ∈ s) : c ∈ w := by
  unfold parentDirectory at h
  split at h
  · dsimp only at h
    split at h
    · cases h
    · obtain rfl := Except.ok.inj h
      exact List.mem_of_mem_take ((List.rdropWhile_prefix _ _).subset hc)
  · cases h

theorem mem_dotLoop {w' path' : Text} (h : dotLoop w path = some (.ok (w', path'))) :
    (∀ c ∈ w', c ∈ w) ∧ ∀ c ∈ path', c ∈ path := by
  fun_induction dotLoop w path with
  | case1 w =>
    obtain ⟨rfl, rfl⟩ := Prod.mk.inj (Except.ok.inj (Option.some.inj h))
    exact ⟨fun c hc => hc, fun c hc => hc⟩
  | case2 w x s hdot =>
    obtain ⟨rfl, rfl⟩ := Prod.mk.inj (Except.ok.inj (Option.some.inj h))
    exact ⟨fun c hc => hc, fun c hc => hc⟩
  | case3 => cases h
  | case4 =>
    rename_i ih
    obtain ⟨hw, hpath⟩ := ih h
    exact ⟨hw, fun c hc => List.mem_cons_of_mem _ (List.mem_cons_of_mem _ (hpath c hc))⟩
  | case5 => cases h
  | case6 => cases h
  | case7 =>
    rename_i ih
    obtain ⟨hw, hpath⟩ := ih h
    exact ⟨fun c hc => mem_parentDirectory (by assumption) (hw c hc), fun c hc =>
      List.mem_cons_of_mem _ (List.mem_cons_of_mem _ (List.mem_cons_of_mem _ (hpath c hc)))⟩
  | case8 => cases h

theorem ne_zero_of_locate {w path : Text} (h : locate cwd pure raw = some (.ok (w, path))) :
    (∀ c ∈ w, c ≠ 0) ∧ ∀ c ∈ path, c ≠ 0 := by
  have hnull : ∀ s : Text, ∀ c ∈ stringReplace s, c ≠ 0 := fun s c hc => ne_zero_of_mem_stringReplace hc
  unfold locate at h
  split at h
  · cases h
  split at h
  · cases h
  dsimp only at h
  cases cwd with
  | none => cases h
  | some dir =>
    dsimp only [Option.map_some] at h
    split at h
    · obtain ⟨rfl, rfl⟩ := Prod.mk.inj (Except.ok.inj (Option.some.inj h))
      refine ⟨hnull dir, ?_⟩
      intro c hc
      split at hc
      · exact hnull _ c hc
      · exact (List.mem_append.mp hc).elim (hnull _ c) (hnull _ c)
    · split at h
      · obtain ⟨res, hres, hmap⟩ := Option.map_eq_some_iff.mp h
        cases res with
        | error err => cases hmap
        | ok r =>
          obtain ⟨rfl, rfl⟩ := Prod.mk.inj (Except.ok.inj hmap)
          obtain ⟨hw, hpath⟩ := mem_dotLoop hres
          refine ⟨fun c hc => hnull _ c (hw c hc), ?_⟩
          intro c hc
          exact (List.mem_append.mp hc).elim (fun hc => hnull _ c (hw c hc)) fun hc => hnull _ c (hpath c hc)
      · obtain ⟨rfl, rfl⟩ := Prod.mk.inj (Except.ok.inj (Option.some.inj h))
        exact ⟨hnull dir, hnull _⟩

/-- What `Normalize` returns. -/
theorem normalize_spec {res : Except BofErr Text} (h : normalize cwd defaultForbiddenChar false raw = some (res, d)) :
    IsDisk d ∧ ∀ t, res = .ok t → Normal t := by
  rw [normalize] at h
  obtain ⟨located, hlocated, hres⟩ := Option.map_eq_some_iff.mp h
  cases located with
  | error err =>
    obtain ⟨rfl, rfl⟩ := Prod.mk.inj hres
    exact ⟨.inl rfl, nofun⟩
  | ok located =>
    obtain ⟨w, path⟩ := located
    obtain ⟨hw, hpath⟩ := ne_zero_of_locate hlocated
    have hd := isDisk_absolute false w path
    have hnull : ∀ c ∈ (absolute false w path).2, c ≠ 0 := fun c hc => (mem_absolute hc).elim (hw c) (hpath c)
    dsimp only at hres
    split at hres
    · obtain ⟨rfl, rfl⟩ := Prod.mk.inj hres
      exact ⟨hd, nofun⟩
    rename_i hroot
    rw [and_iff_left Bool.false_ne_true, not_not] at hroot
    split at hres
    · obtain ⟨rfl, rfl⟩ := Prod.mk.inj hres
      exact ⟨hd, nofun⟩
    rename_i hforb
    rw [if_neg Bool.false_ne_true] at hres
    obtain ⟨rfl, rfl⟩ := Prod.mk.inj hres
    refine ⟨hd, ?_⟩
    intro t ht
    refine (reducePath_spec hroot ?_ ht).1
    intro c hc
    exact ⟨stringIsPresent_eq_false_iff.mp (Bool.eq_false_iff.mpr hforb) c hc, hnull c hc⟩

theorem stringIsPresent_of_normal (h : Normal r) {chars : Text} (hchars : ∀ c ∈ chars, c ∈ defaultForbiddenChar) :
    stringIsPresent r chars = false := by
  rw [stringIsPresent_eq_false_iff]
  exact fun c hc hmem => (h.allowed c hc).1 (hchars c hmem)

theorem stringReplace_of_normal (h : Normal r) (hs : ∀ c ∈ s, c ∈ r) : stringReplace s = s := by
  apply stringReplace_eq_self
  intro c hc
  obtain ⟨hforb, hnull⟩ := h.allowed c (hs c hc)
  refine ⟨?_, hnull⟩
  rintro rfl
  exact hforb (by decide)

/-- A normal path that does not end with a blank stays as it is, if it has no forbidden character. -/
theorem normalize_of_normal (hd : IsDisk d) (h : Normal r) (hblank : trimEnd r = r)
    (hforb : stringIsPresent r forb = false) : normalize (some w) forb false (d ++ r) = some (.ok r, d) := by
  have hctl : stringIsPresent (d ++ r) controlChars = false :=
    stringIsPresent_append hd.stringIsPresent_control
      (stringIsPresent_of_normal h (List.all_iff_forall_prop.mp (by decide)))
  rw [normalize_absolute hd h.root hctl, hblank, stringReplace_of_normal h fun c hc => hc, hforb, Option.elim_some,
    if_neg Bool.false_ne_true, reducePath_of_normal h]

end BofStd.BofPath
