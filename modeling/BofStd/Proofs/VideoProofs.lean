import BofStd.VideoSpec
import BofStd.Proofs.RationalProofs

/-!
# Video standards: which texts are read, and what is divided

The pattern takes the digits of the width and of the height and a line with at least one character
(`parse_eq_some_iff`), so that all numbers may be missing. The quantities are defined for the entries of the table
behind the first one, and for formats whose numbers are not zero (`neverDividesByZero_iff`).
-/

namespace BofStd

namespace BofVideoStandard

open StdString Regex

variable {conv : VideoConversions} {standard width height rate : Text} {type : UInt8}

/-! ## The pattern -/

/-- The items that are in front of one that is not. -/
theorem takeWhile_append_cons {p : UInt8 → Bool} {front rest : Text} {c : UInt8} (h : ∀ d ∈ front, p d = true)
    (hc : p c = false) : (front ++ c :: rest).takeWhile p = front ∧ (front ++ c :: rest).dropWhile p = c :: rest := by
  constructor
  · rw [List.takeWhile_append_of_pos h, List.takeWhile_cons_of_neg (by simp [hc]), List.append_nil]
  · rw [List.dropWhile_append_of_pos h, List.dropWhile_cons_of_neg (by simp [hc])]

/-- The items of a part of the pattern: those that fit, and one that ends them. -/
theorem firstMatch_digits {p : UInt8 → Bool} {front rest : Text} {c : UInt8} (h : ∀ d ∈ front, p d = true)
    (hc : p c = false) : (many 0 p).group.firstMatch (front ++ c :: rest) = some ⟨front, [front], c :: rest⟩ := by
  obtain ⟨htake, hdrop⟩ := @takeWhile_append_cons p front rest c h hc
  have hmany := firstMatch_many (p := p) (s := front ++ c :: rest) (Nat.zero_le _)
  rw [htake, hdrop] at hmany
  exact firstMatch_group hmany

/-- The groups of a text that has the parts. -/
theorem groups_of_isFormat (h : IsFormat standard width height rate type) :
    (regExVideoStandard.firstMatch standard).map Match.groups = some [width, height, rate, [type]] := by
  obtain ⟨hwidth, hheight, hline, rest, htext, hrest⟩ := h
  have htake : (rate ++ [type] ++ rest).takeWhile isDot = rate ++ [type] := by
    rw [List.takeWhile_append_of_pos hline]
    cases rest with
    | nil => rw [List.takeWhile_nil, List.append_nil]
    | cons c rest => rw [List.takeWhile_cons_of_neg (by simp [hrest c rfl]), List.append_nil]
  have hat : (many 0 isDigit).group.firstMatch (height ++ '@'.toUInt8 :: (rate ++ [type] ++ rest)) =
      some ⟨height, [height], '@'.toUInt8 :: (rate ++ [type] ++ rest)⟩ := firstMatch_digits hheight (by decide +kernel)
  have hx : (many 0 isDigit).group.firstMatch standard = some ⟨width, [width], _⟩ :=
    htext ▸ firstMatch_digits hwidth (by decide +kernel)
  have hmatch := firstMatch_seq hx (firstMatch_seq (firstMatch_item (p := fun c => c = 'x'.toUInt8) (by decide +kernel))
    (firstMatch_seq hat (firstMatch_seq (firstMatch_item (p := fun c => c = '@'.toUInt8) (by decide +kernel))
      (firstMatch_many_item htake))))
  rw [regExVideoStandard, hmatch]
  rfl

/-- A match of one item. -/
theorem mem_allMatches_item {p : UInt8 → Bool} {s : Text} {m : Match UInt8} (h : m ∈ (item p).allMatches s) :
    ∃ c, p c = true ∧ s = c :: m.rest := by
  cases s with
  | nil => exact absurd h List.not_mem_nil
  | cons c s =>
    rw [allMatches_item] at h
    split at h
    · next hc =>
      rw [List.mem_singleton] at h
      exact ⟨c, hc, by rw [h]⟩
    · exact absurd h List.not_mem_nil

/-- A text that the pattern matches has the parts. -/
theorem exists_isFormat {m : Match UInt8} (h : m ∈ regExVideoStandard.allMatches standard) :
    ∃ width height rate type, IsFormat standard width height rate type := by
  have within (p : UInt8 → Bool) : ((many 0 p).group).Within fun c => p c = true := fun _ hc => hc
  obtain ⟨mw, hmw, m₁, h, -⟩ := mem_allMatches_seq.mp h
  obtain ⟨mx, hmx, m₂, h, -⟩ := mem_allMatches_seq.mp h
  obtain ⟨mh, hmh, m₃, h, -⟩ := mem_allMatches_seq.mp h
  obtain ⟨ma, hma, m₄, h, -⟩ := mem_allMatches_seq.mp h
  obtain ⟨mr, hmr, mt, hmt, -⟩ := mem_allMatches_seq.mp h
  obtain ⟨hwtext, hwidth⟩ := (within isDigit).of_mem hmw
  obtain ⟨hhtext, hheight⟩ := (within isDigit).of_mem hmh
  obtain ⟨hrtext, hrate⟩ := (within isDot).of_mem hmr
  obtain ⟨x, hx, hxtext⟩ := mem_allMatches_item hmx
  obtain ⟨a, ha, hatext⟩ := mem_allMatches_item hma
  rw [allMatches_group, List.mem_map] at hmt
  obtain ⟨mt', hmt', -⟩ := hmt
  obtain ⟨t, ht, httext⟩ := mem_allMatches_item hmt'
  -- the line goes on as far as the pattern can
  have hne : ma.rest.takeWhile isDot ≠ [] := by
    rw [← hrtext, List.takeWhile_append_of_pos hrate, httext, List.takeWhile_cons_of_pos ht]
    exact List.append_ne_nil_of_right_ne_nil _ (List.cons_ne_nil _ _)
  obtain ⟨rate, type, hline⟩ : ∃ rate type, ma.rest.takeWhile isDot = rate ++ [type] :=
    ⟨_, _, (List.dropLast_append_getLast hne).symm⟩
  refine ⟨mw.text, mh.text, rate, type, hwidth, hheight, fun c hc => ?_, ma.rest.dropWhile isDot, ?_, fun c hc => ?_⟩
  · exact List.mem_takeWhile_imp (hline ▸ hc)
  · rw [← hline, List.takeWhile_append_dropWhile, ← of_decide_eq_true ha, ← hatext, hhtext, ← of_decide_eq_true hx,
      ← hxtext, hwtext]
  · have hnot := List.head?_dropWhile_not isDot ma.rest
    rw [hc] at hnot
    exact hnot

/-- The numbers of a format are those of its parts. -/
theorem parse_eq_some_iff {format : UInt32 × UInt32 × Rational × UInt8} : parse conv standard = some format ↔
    ∃ width height rate type, IsFormat standard width height rate type ∧
      (atol width, atol height, ⟨conv.rateNumerator (cStr rate), 1⟩, type) = format := by
  constructor
  · intro h
    cases hm : regExVideoStandard.firstMatch standard with
    | none =>
      rw [parse, hm] at h
      exact absurd h nofun
    | some m =>
      obtain ⟨width, height, rate, type, hformat⟩ := exists_isFormat (List.mem_of_head? hm)
      rw [parse, groups_of_isFormat hformat] at h
      exact ⟨width, height, rate, type, hformat, Option.some_inj.mp h⟩
  · rintro ⟨width, height, rate, type, hformat, rfl⟩
    rw [parse, groups_of_isFormat hformat]
    rfl

/-! ## The divisors -/

/-- The denominator that is set is positive, and of 32 bits if it is set to such a number. -/
theorem setDen_pos (den : UInt64) : 0 < (if den ≠ 0 then den else 1).toNat := by
  split
  · next h => exact Nat.pos_of_ne_zero fun h0 => h (UInt64.toNat_inj.mp h0)
  · decide

theorem setDen_lt (den : UInt32) : (if den.toUInt64 ≠ 0 then den.toUInt64 else 1).toNat < 2 ^ 32 := by
  split
  · simpa using den.toNat_lt
  · decide

theorem toInt64_eq_zero_iff (u : UInt64) : u.toInt64 = 0 ↔ u = 0 := by
  constructor
  · intro h
    exact congrArg Int64.toUInt64 h
  · rintro rfl
    rfl

theorem toUInt64_eq_zero_iff (u : UInt32) : u.toUInt64 = 0 ↔ u = 0 := by
  rw [← UInt64.toNat_inj, ← UInt32.toNat_inj, UInt32.toNat_toUInt64]
  rfl

/-- A product of words of 32 bits is zero if one of them is. -/
theorem mul_eq_zero_iff_of_lt {u v : UInt64} (hu : u.toNat < 2 ^ 32) (hv : v.toNat < 2 ^ 32) (hpos : 0 < v.toNat) :
    u * v = 0 ↔ u = 0 := by
  have hlt : u.toNat * v.toNat < 2 ^ 64 := (Nat.mul_lt_mul'' hu hv).trans_eq (by norm_num)
  rw [← UInt64.toNat_inj, ← UInt64.toNat_inj, UInt64.toNat_mul, Nat.mod_eq_of_lt hlt]
  exact Nat.mul_eq_zero.trans (or_iff_left hpos.ne')

/-- The divisors of the quantity are not zero if the numerator of the aspect ratio and the width are not. -/
theorem pixelAspectDivisors_iff (e : VideoStandardEntry) (w : UInt32) :
    (∀ d ∈ pixelAspectDivisors w (imageAspectRatioOf e), d.num ≠ 0) ↔ e.ImageAspectRatioNum_U32 ≠ 0 ∧ w ≠ 0 := by
  have hpos := setDen_pos e.ImageAspectRatioDen_U32.toUInt64
  have hnum : (imageAspectRatioOf e).num = 0 ↔ e.ImageAspectRatioNum_U32 = 0 :=
    (Rational.normalize_num_eq_zero_iff hpos).trans ((toInt64_eq_zero_iff _).trans (toUInt64_eq_zero_iff _))
  obtain ⟨hdpos, hdle⟩ := Rational.normalize_den (r := ⟨e.ImageAspectRatioNum_U32.toUInt64.toInt64, _⟩) hpos
  have hdiv : ((ofU32 w).div (imageAspectRatioOf e)).num = 0 ↔ w = 0 := by
    have hw : w.toUInt64.toNat < 2 ^ 32 := by simpa using w.toNat_lt
    have hdlt := Nat.lt_of_le_of_lt hdle (setDen_lt e.ImageAspectRatioDen_U32)
    calc ((ofU32 w).div (imageAspectRatioOf e)).num = 0
      _ ↔ (w.toUInt64 * (imageAspectRatioOf e).den).toInt64 = 0 := Rational.normalize_num_eq_zero_iff (setDen_pos _)
      _ ↔ w.toUInt64 * (imageAspectRatioOf e).den = 0 := toInt64_eq_zero_iff _
      _ ↔ w.toUInt64 = 0 := mul_eq_zero_iff_of_lt hw hdlt hdpos
      _ ↔ w = 0 := toUInt64_eq_zero_iff w
  simp [pixelAspectDivisors, hnum, hdiv]

/-! ## The entries -/

/-- The entry that a text names is the first one with its description. -/
theorem findIndex_cases (standard : Text) :
    (findIndex standard = -1 ∧ ∀ e ∈ videoStandardTable, e.pDescription_c ≠ cStr standard) ∨
      ∃ i, i < videoStandardTable.length ∧ findIndex standard = i ∧ (tableEntry i).pDescription_c = cStr standard := by
  rw [findIndex]
  cases h : videoStandardTable.findIdx? fun e => e.pDescription_c = cStr standard with
  | none =>
    refine .inl ⟨rfl, fun e he => ?_⟩
    simpa using List.findIdx?_eq_none_iff.mp h e he
  | some i =>
    obtain ⟨hi, hdesc, -⟩ := List.findIdx?_eq_some_iff_getElem.mp h
    refine .inr ⟨i, hi, rfl, ?_⟩
    rw [tableEntry, List.getD_eq_getElem?_getD, List.getElem?_eq_getElem hi]
    exact of_decide_eq_true hdesc

theorem tableEntry_mem {i : Nat} (hi : i < videoStandardTable.length) : tableEntry i ∈ videoStandardTable := by
  rw [tableEntry, List.getD_eq_getElem?_getD, List.getElem?_eq_getElem hi]
  exact List.getElem_mem hi

theorem get_of_valid {α : Type} {s : BofVideoStandard} (h : s.isValid = true) (invalid : α)
    (f : VideoStandardEntry → α) : s.get invalid f = f s.entry := if_pos (of_decide_eq_true h)

/-- The quantities of a valid object are defined if three numbers of its entry are not zero. -/
theorem divisions_iff {s : BofVideoStandard} (h : s.isValid = true) :
    (s.duration ≠ none ∧ s.fieldDuration ≠ none ∧ ∀ d ∈ s.pixelAspectRatioDivisors, d.num ≠ 0) ↔
      s.entry.FrameRateNum_U32 ≠ 0 ∧ s.entry.ImageAspectRatioNum_U32 ≠ 0 ∧ s.entry.NbActiveCol_U32 ≠ 0 := by
  have hduration : s.duration ≠ none ↔ s.entry.FrameRateNum_U32 ≠ 0 := by
    rw [duration, get_of_valid h]
    simp
  have hfield : s.fieldDuration ≠ none ↔ s.duration ≠ none := by
    rw [fieldDuration, Ne, Option.map_eq_none_iff]
  rw [pixelAspectRatioDivisors, get_of_valid h, pixelAspectDivisors_iff, hfield, hduration]
  exact ⟨fun ⟨hrate, _, haspect⟩ => ⟨hrate, haspect⟩, fun ⟨hrate, haspect⟩ => ⟨hrate, hrate, haspect⟩⟩

/-- The numbers of the entries behind the first one. -/
theorem numbers_tableEntry {i : Nat} (hi : i < videoStandardTable.length) :
    ((tableEntry i).FrameRateNum_U32 ≠ 0 ∧ (tableEntry i).ImageAspectRatioNum_U32 ≠ 0 ∧
      (tableEntry i).NbActiveCol_U32 ≠ 0) ↔ 0 < i := by
  have hall : ∀ i : Fin 28, ((tableEntry i).FrameRateNum_U32 ≠ 0 ∧ (tableEntry i).ImageAspectRatioNum_U32 ≠ 0 ∧
      (tableEntry i).NbActiveCol_U32 ≠ 0) ↔ 0 < i.val := by decide +kernel
  exact hall ⟨i, hi⟩

/-- The names of the entries 6 and 7 are also those of entries in front of them. -/
theorem findIndex_tableEntry {i : Nat} (hi : i < videoStandardTable.length) :
    findIndex (tableEntry i).pDescription_c = (if i = 6 ∨ i = 7 then i - 3 else i : Nat) := by
  have hall : ∀ i : Fin 28, findIndex (tableEntry i).pDescription_c =
      (if i.val = 6 ∨ i.val = 7 then i.val - 3 else i.val : Nat) := by decide +kernel
  exact hall ⟨i, hi⟩

theorem pDescription_ne_first {i : Nat} (hi : i < videoStandardTable.length) (hpos : 0 < i) :
    (tableEntry i).pDescription_c ≠ (tableEntry 0).pDescription_c := by
  intro heq
  have hindex := findIndex_tableEntry hi
  rw [heq, findIndex_tableEntry (hpos.trans hi)] at hindex
  split at hindex <;> split at hindex <;> omega

theorem entry_of_index (i : Nat) : (⟨tableEntry 0, pointTo i, i⟩ : BofVideoStandard).entry = tableEntry i := by
  cases i with
  | zero => rfl
  | succ i => rfl

/-! ## The texts -/

/-- A text that names an entry. -/
theorem ofString_of_name {i : Nat} (hindex : findIndex standard = i) :
    ofString conv standard = ⟨tableEntry 0, pointTo i, i⟩ ∧ aspectOperands conv standard = none := by
  have hne : findIndex standard ≠ -1 := by omega
  rw [ofString, if_neg hne, aspectOperands, if_neg hne, hindex]
  exact ⟨rfl, rfl⟩

/-- A text that is a format. -/
theorem ofString_of_format {format : UInt32 × UInt32 × Rational × UInt8} (hindex : findIndex standard = -1)
    (hparse : parse conv standard = some format) :
    ofString conv standard =
        ⟨customFormat conv standard format.1 format.2.1 format.2.2.1 format.2.2.2, .custom, 0⟩ ∧
      aspectOperands conv standard = some (format.1, format.2.1) := by
  rw [ofString, if_pos hindex, aspectOperands, if_pos hindex, hparse]
  exact ⟨rfl, rfl⟩

/-- The parts of the property. -/
theorem neverDividesByZero_iff_entry (h : (ofString conv standard).isValid = true) :
    NeverDividesByZero conv standard ↔
      (∀ operands, aspectOperands conv standard = some operands → operands.2 ≠ 0) ∧
        (ofString conv standard).entry.FrameRateNum_U32 ≠ 0 ∧
          (ofString conv standard).entry.ImageAspectRatioNum_U32 ≠ 0 ∧
            (ofString conv standard).entry.NbActiveCol_U32 ≠ 0 := by
  rw [← divisions_iff h]
  exact ⟨fun ⟨haspect, hduration, hfield, hpixel⟩ => ⟨haspect, hduration, hfield, hpixel⟩,
    fun ⟨haspect, hduration, hfield, hpixel⟩ => ⟨haspect, hduration, hfield, hpixel⟩⟩

/-- The four quantities are defined for the entries behind the first one, and for formats whose width, height, rate and
aspect ratio are not zero. -/
theorem neverDividesByZero_iff (conv : VideoConversions) (standard : Text)
    (h : (ofString conv standard).isValid = true) :
    NeverDividesByZero conv standard ↔ HasNumbers conv standard := by
  rw [neverDividesByZero_iff_entry h]
  rcases findIndex_cases standard with ⟨hindex, hname⟩ | ⟨i, hi, hindex, hname⟩
  · -- a valid object without an index is a format
    rcases hparse : parse conv standard with _ | format
    · rw [ofString, if_pos hindex, hparse, hindex] at h
      exact absurd h (by simp [isValid])
    · obtain ⟨hobject, hoperands⟩ := ofString_of_format hindex hparse
      obtain ⟨width, height, rate, type, hformat, rfl⟩ := parse_eq_some_iff.mp hparse
      rw [hobject, hoperands]
      constructor
      · intro ⟨haspect, hrate, hratio, hwidth⟩
        exact .inr ⟨hname, width, height, rate, type, hformat, hwidth, haspect _ rfl, hrate, hratio⟩
      · rintro (⟨i, -, hi, hi'⟩ | ⟨-, width', height', rate', type', hformat', hwidth, hheight, hrate, hratio⟩)
        · exact absurd hi' (hname _ (tableEntry_mem hi))
        · have hgroups := (groups_of_isFormat hformat).symm.trans (groups_of_isFormat hformat')
          simp only [Option.some_inj, List.cons.injEq] at hgroups
          obtain ⟨rfl, rfl, rfl, -⟩ := hgroups
          exact ⟨fun operands ho => Option.some_inj.mp ho ▸ hheight, hrate, hratio, hwidth⟩
  · obtain ⟨hobject, hoperands⟩ := @ofString_of_name conv _ _ hindex
    rw [hobject, hoperands, entry_of_index, numbers_tableEntry hi]
    constructor
    · intro ⟨_, hpos⟩
      exact .inl ⟨i, hpos, hi, hname⟩
    · rintro (⟨j, hj, hjlt, hj'⟩ | ⟨hne, -⟩)
      · refine ⟨nofun, Nat.pos_of_ne_zero fun hzero => ?_⟩
        subst hzero
        exact pDescription_ne_first hjlt hj (hj'.trans hname.symm)
      · exact absurd hname (hne _ (tableEntry_mem hi))

theorem neverDividesByZero_custom :
    (ofString wholeConversions ("256x128@50p".toList.map Char.toUInt8)).isValid = true ∧
      (NeverDividesByZero wholeConversions ("256x128@50p".toList.map Char.toUInt8) ↔
        HasNumbers wholeConversions ("256x128@50p".toList.map Char.toUInt8)) :=
  ⟨by decide +kernel, neverDividesByZero_iff _ _ (by decide +kernel)⟩

/-- A format without a rate is valid, and its duration is a division by zero. -/
theorem duration_without_rate :
    (ofString wholeConversions ("256x128@0p".toList.map Char.toUInt8)).isValid = true ∧
      ¬ NeverDividesByZero wholeConversions ("256x128@0p".toList.map Char.toUInt8) :=
  ⟨by decide +kernel, fun h => h.duration (by decide +kernel)⟩

end BofVideoStandard

end BofStd

/-!
# Video standards as values

A reachable object shows an entry of the table or a format (`Reachable.shape`), and what the getters answer is the
record that it shows, up to a type that they do not know (`answers_showing_iff`). Copies, `FromIndex` and `operator==`
follow from the record that is shown before and afterwards (`valueSemantics_iff`).
-/

namespace BofStd

namespace BofVideoStandard

open StdString

variable {conv : VideoConversions} {elide : Bool} {s a b : BofVideoStandard} {e e' : VideoStandardEntry} {i j : Nat}

/-! ## What an entry answers -/

/-- A valid object that shows an entry. -/
def showing (e : VideoStandardEntry) : BofVideoStandard := ⟨e, .custom, 0⟩

/-- A valid object answers as its entry. -/
theorem answers_of_valid (h : 0 ≤ s.mIndex_i) : s.answers = (showing s.entry).answers := by
  have hget {α : Type} (invalid : α) (f : VideoStandardEntry → α) : s.get invalid f = (showing s.entry).get invalid f :=
    if_pos h
  have hvalid : s.isValid = (showing s.entry).isValid := decide_eq_true h
  have hratio : s.pixelAspectRatioWith = (showing s.entry).pixelAspectRatioWith := funext fun ar => hget _ _
  have hduration : s.duration = (showing s.entry).duration := hget _ _
  have hinterlaced : s.isInterlaced = (showing s.entry).isInterlaced := hget _ _
  simp [answers, hget, hvalid, hratio, hduration, hinterlaced, nbActiveCol, nbActiveRow, nbCol, nbRow, audioClockRate,
    id, toString, frameRate, effectiveFrameRate, fieldsPerFrame, isHdtv, imageAspectRatio, pixelAspectRatio,
    isProgressive, isSdtv, segmentedFrame, switchLine1, switchLine2, nbTotalCol, nbTotalRow, fps, fieldDuration,
    smpte352PayloadID, pidAncillaryData]

/-- The getters do not tell more of the type than its kind. -/
theorem answers_typeKind (e : VideoStandardEntry) :
    (showing { e with Type_c := typeKind e }).answers = (showing e).answers := by
  unfold typeKind
  split
  · rfl
  · next h =>
    obtain ⟨hi, hp, hs⟩ := not_or.mp h |>.imp_right not_or.mp
    have hi0 : (0 : UInt8) ≠ 'i'.toUInt8 := by decide +kernel
    have hp0 : (0 : UInt8) ≠ 'p'.toUInt8 := by decide +kernel
    have hs0 : (0 : UInt8) ≠ 's'.toUInt8 := by decide +kernel
    simp only [answers, showing, get, entry, nbActiveCol, nbActiveRow, nbCol, nbRow, audioClockRate, id, toString,
      frameRate, effectiveFrameRate, fieldsPerFrame, isHdtv, imageAspectRatio, imageAspectRatioOf, isInterlaced,
      pixelAspectRatio, isProgressive, isSdtv, segmentedFrame, switchLine1, switchLine2, nbTotalCol, nbTotalRow, fps,
      fieldDuration, duration, smpte352PayloadID, pidAncillaryData, isValid, hi, hp, hs, hi0, hp0, hs0]
    rfl

/-- Records of the same format answer alike. -/
theorem SameFormat.answers_eq (h : SameFormat e e') : (showing e).answers = (showing e').answers := by
  rw [← answers_typeKind e, ← answers_typeKind e', h]

/-! ## The records that are shown -/

/-- The record of a format whose text names no entry. -/
def IsFormatRecord (conv : VideoConversions) (e : VideoStandardEntry) : Prop :=
  ∃ standard width height rate type, (∀ e' ∈ videoStandardTable, e'.pDescription_c ≠ cStr standard) ∧
    e = customFormat conv standard width height ⟨rate, 1⟩ type

/-- The description is cut behind 31 characters, and those of the table are shorter. -/
theorem IsFormatRecord.pDescription_ne (h : IsFormatRecord conv e) (hi : i < videoStandardTable.length) :
    e.pDescription_c ≠ (tableEntry i).pDescription_c := by
  obtain ⟨standard, width, height, rate, type, hname, rfl⟩ := h
  have hall : ∀ i : Fin 28, (tableEntry i).pDescription_c.length < 31 := by decide +kernel
  have hshort : (tableEntry i).pDescription_c.length < 31 := hall ⟨i, hi⟩
  intro heq
  by_cases hlen : (cStr standard).length ≤ 31
  · have htext : (cStr standard).take 31 = (tableEntry i).pDescription_c := heq
    rw [List.take_of_length_le hlen] at htext
    exact hname _ (tableEntry_mem hi) htext.symm
  · have hcut := congrArg List.length heq
    simp only [customFormat, List.length_take] at hcut
    omega

/-- The description and the payload identifier tell the entries apart. -/
theorem tableEntry_inj (hi : i < videoStandardTable.length) (hj : j < videoStandardTable.length)
    (htext : (tableEntry i).pDescription_c = (tableEntry j).pDescription_c)
    (hpayload : (tableEntry i).Smpte352PayloadId_U32 = (tableEntry j).Smpte352PayloadId_U32) : i = j := by
  by_contra hne
  have hindex := findIndex_tableEntry hi
  rw [htext, findIndex_tableEntry hj] at hindex
  have hsame : (i = 3 ∧ j = 6 ∨ i = 6 ∧ j = 3) ∨ i = 4 ∧ j = 7 ∨ i = 7 ∧ j = 4 := by
    split at hindex <;> split at hindex <;> omega
  rcases hsame with (⟨rfl, rfl⟩ | ⟨rfl, rfl⟩) | ⟨rfl, rfl⟩ | ⟨rfl, rfl⟩
  all_goals exact absurd hpayload (by decide +kernel)

/-- The rate of a whole number is the number. -/
theorem set_one_num (num : Int64) : (Rational.set num 1).num = num := by
  obtain ⟨-, hnum⟩ := Rational.normalize_eq (r := ⟨num, 1⟩) (g := 1) Nat.one_pos (Nat.gcd_one_left _)
  rw [if_pos rfl] at hnum
  exact Int64.toInt_inj.mp hnum

theorem toInt64_inj {u v : UInt32} (h : u.toUInt64.toInt64 = v.toUInt64.toInt64) : u = v := by
  have hword : u.toUInt64 = v.toUInt64 := congrArg Int64.toUInt64 h
  simpa using congrArg UInt64.toUInt32 hword

/-- The kind of the type from the three getters that know it. -/
theorem typeKind_eq (h : (showing e).answers = (showing e').answers) : typeKind e = typeKind e' := by
  have hi : decide (e.Type_c = 'i'.toUInt8) = decide (e'.Type_c = 'i'.toUInt8) := congrArg Answers.isInterlaced h
  have hp : decide (e.Type_c = 'p'.toUInt8) = decide (e'.Type_c = 'p'.toUInt8) := congrArg Answers.isProgressive h
  have hs : decide (e.Type_c = 's'.toUInt8) = decide (e'.Type_c = 's'.toUInt8) := congrArg Answers.segmentedFrame h
  rw [decide_eq_decide] at hi hp hs
  have hknown := or_congr hi (or_congr hp hs)
  unfold typeKind
  by_cases hkind : e'.Type_c = 'i'.toUInt8 ∨ e'.Type_c = 'p'.toUInt8 ∨ e'.Type_c = 's'.toUInt8
  · rw [if_pos hkind, if_pos (hknown.mpr hkind)]
    rcases hkind with hkind | hkind | hkind
    · rw [hkind, hi.mpr hkind]
    · rw [hkind, hp.mpr hkind]
    · rw [hkind, hs.mpr hkind]
  · rw [if_neg hkind, if_neg (mt hknown.mp hkind)]

/-- Formats that answer alike. -/
theorem sameFormat_of_isFormatRecord (he : IsFormatRecord conv e) (he' : IsFormatRecord conv e')
    (h : (showing e).answers = (showing e').answers) : SameFormat e e' := by
  have hkind := typeKind_eq h
  obtain ⟨standard, width, height, rate, type, -, rfl⟩ := he
  obtain ⟨standard', width', height', rate', type', -, rfl⟩ := he'
  have hwidth : width = width' := congrArg Answers.nbCol h
  have hheight : height = height' := congrArg Answers.nbRow h
  have htext : (cStr standard).take 31 = (cStr standard').take 31 := congrArg Answers.toString h
  have hfps : conv.fps rate 1 = conv.fps rate' 1 := congrArg Answers.fps h
  have hrate : rate.toUInt64.toUInt32 = rate'.toUInt64.toUInt32 := by
    have hframe := congrArg (fun answers : Answers => answers.frameRate.num) h
    exact toInt64_inj ((set_one_num _).symm.trans (hframe.trans (set_one_num _)))
  subst hwidth hheight
  unfold SameFormat
  rw [hkind]
  simp [customFormat, htext, hfps, hrate]

/-- An entry of the table or a format. -/
def Shown (conv : VideoConversions) (e : VideoStandardEntry) : Prop :=
  (∃ i, i < videoStandardTable.length ∧ e = tableEntry i) ∨ IsFormatRecord conv e

/-- The getters tell the records that are shown apart, up to the kinds of the types. -/
theorem answers_showing_iff (he : Shown conv e) (he' : Shown conv e') :
    (showing e).answers = (showing e').answers ↔ SameFormat e e' := by
  refine ⟨fun h => ?_, SameFormat.answers_eq⟩
  have htext : e.pDescription_c = e'.pDescription_c := congrArg Answers.toString h
  rcases he with ⟨i, hi, rfl⟩ | he
  · rcases he' with ⟨j, hj, rfl⟩ | he'
    · have hpayload : (tableEntry i).Smpte352PayloadId_U32 = (tableEntry j).Smpte352PayloadId_U32 :=
        congrArg Answers.smpte352PayloadID h
      rw [tableEntry_inj hi hj htext hpayload]
      exact rfl
    · exact absurd htext.symm (he'.pDescription_ne hi)
  · rcases he' with ⟨j, hj, rfl⟩ | he'
    · exact absurd htext (he.pDescription_ne hj)
    · exact sameFormat_of_isFormatRecord he he' h

/-! ## The objects -/

/-- The five kinds of objects. -/
inductive Kind (conv : VideoConversions) : BofVideoStandard → Prop where
  | invalid : Kind conv ⟨tableEntry 0, .custom, -1⟩
  | first : Kind conv ⟨tableEntry 0, .custom, 0⟩
  | format {e : VideoStandardEntry} (he : IsFormatRecord conv e) : Kind conv ⟨e, .custom, 0⟩
  | entry {i : Nat} (hpos : 0 < i) (hi : i < videoStandardTable.length) : Kind conv ⟨tableEntry 0, .table i, i⟩
  /-- The pointer is still that of an object without an index. -/
  | stale {i : Nat} (hpos : 0 < i) (hi : i < videoStandardTable.length) : Kind conv ⟨tableEntry 0, .custom, i⟩

/-- The objects whose pointer is set from the index. -/
theorem kind_of_index {index : Int} (h : index = -1 ∨ ∃ i < videoStandardTable.length, index = (i : Nat)) :
    Kind conv ⟨tableEntry 0, pointTo index, index⟩ := by
  rcases h with rfl | ⟨i, hi, rfl⟩
  · exact .invalid
  · cases i with
    | zero => exact .first
    | succ i => exact .entry (Nat.succ_pos i) hi

theorem kind_ofString (conv : VideoConversions) (standard : Text) : Kind conv (ofString conv standard) := by
  rcases findIndex_cases standard with ⟨hindex, hname⟩ | ⟨i, hi, hindex, -⟩
  · rcases hparse : parse conv standard with _ | format
    · rw [ofString, if_pos hindex, hparse, hindex]
      exact kind_of_index (.inl rfl)
    · rw [(ofString_of_format hindex hparse).1]
      obtain ⟨width, height, rate, type, -, rfl⟩ := parse_eq_some_iff.mp hparse
      exact .format ⟨standard, _, _, _, type, hname, rfl⟩
  · rw [ofString, if_neg (by omega), hindex]
    exact kind_of_index (.inr ⟨i, hi, rfl⟩)

theorem kind_ofFormat (nbCol nbRow fps : UInt32) (type : UInt8) : Kind conv (ofFormat nbCol nbRow fps type) := by
  refine kind_of_index ?_
  rw [findFormat]
  cases h : videoStandardTable.findIdx? fun e =>
    e.NbCol_U32 = nbCol ∧ e.NbRow_U32 = nbRow ∧ e.Fps_U32 = fps ∧ e.Type_c = type with
  | none => exact .inl rfl
  | some i =>
    obtain ⟨hi, -, -⟩ := List.findIdx?_eq_some_iff_getElem.mp h
    exact .inr ⟨i, hi, rfl⟩

/-- The index of an object is one of the table, or there is none. -/
theorem Kind.index (h : Kind conv s) : s.mIndex_i = -1 ∨ ∃ i < videoStandardTable.length, s.mIndex_i = (i : Nat) := by
  cases h with
  | invalid => exact .inl rfl
  | first => exact .inr ⟨0, by decide, rfl⟩
  | format => exact .inr ⟨0, by decide, rfl⟩
  | entry _ hi => exact .inr ⟨_, hi, rfl⟩
  | stale _ hi => exact .inr ⟨_, hi, rfl⟩

theorem Kind.copy (h : Kind conv s) : Kind conv s.copy := kind_of_index h.index

theorem Kind.assign (h : Kind conv a) (s : BofVideoStandard) : Kind conv (s.assign a) := by
  cases h with
  | invalid => exact .invalid
  | first => exact .first
  | format he => exact .format he
  | entry hpos hi => exact (kind_of_index (.inr ⟨_, hi, rfl⟩))
  | stale hpos hi => exact (kind_of_index (.inr ⟨_, hi, rfl⟩))

theorem kind_fromIndex (elide : Bool) (index : Int) : Kind conv (fromIndex elide index) := by
  have hlocal : Kind conv
      (if 0 ≤ index ∧ index < videoStandardTable.length then { default with mIndex_i := index } else default) := by
    split
    · next h =>
      obtain ⟨i, rfl⟩ := Int.eq_ofNat_of_zero_le h.1
      cases i with
      | zero => exact .first
      | succ i => exact .stale (Nat.succ_pos i) (by omega)
    · exact .invalid
  cases elide with
  | false => exact hlocal.copy
  | true => exact hlocal

/-- Every reachable object is of one of the kinds. -/
theorem Reachable.kind (h : Reachable conv elide s) : Kind conv s := by
  induction h with
  | ofString standard => exact kind_ofString conv standard
  | ofFormat nbCol nbRow fps type => exact kind_ofFormat nbCol nbRow fps type
  | fromIndex index => exact kind_fromIndex elide index
  | copy _ ih => exact ih.copy
  | assign _ _ _ ih => exact ih.assign _

/-! ## Equal answers -/

theorem table_pos : 0 < videoStandardTable.length := by decide

theorem sameFormat_tableEntry_iff (hi : i < videoStandardTable.length) (hj : j < videoStandardTable.length) :
    SameFormat (tableEntry i) (tableEntry j) ↔ i = j := by
  constructor
  · intro h
    exact tableEntry_inj hi hj (congrArg (fun e => e.pDescription_c) h) (congrArg (fun e => e.Smpte352PayloadId_U32) h)
  · rintro rfl
    exact rfl

theorem IsFormatRecord.not_sameFormat (he : IsFormatRecord conv e) (hi : i < videoStandardTable.length) :
    ¬ SameFormat e (tableEntry i) :=
  fun h => he.pDescription_ne hi (congrArg (fun e => e.pDescription_c) h)

theorem SameFormat.symm (h : SameFormat e e') : SameFormat e' e := Eq.symm h

theorem Kind.shown (h : Kind conv s) (hvalid : 0 ≤ s.mIndex_i) : Shown conv s.entry := by
  cases h with
  | invalid => exact absurd hvalid (by decide)
  | first => exact .inl ⟨0, table_pos, rfl⟩
  | format he => exact .inr he
  | entry _ hi => exact .inl ⟨_, hi, rfl⟩
  | stale => exact .inl ⟨0, table_pos, rfl⟩

/-- Valid objects answer alike if they show the same format. -/
theorem answers_eq_iff (ha : Kind conv a) (hb : Kind conv b) (hva : 0 ≤ a.mIndex_i) (hvb : 0 ≤ b.mIndex_i) :
    a.answers = b.answers ↔ SameFormat a.entry b.entry := by
  rw [answers_of_valid hva, answers_of_valid hvb]
  exact answers_showing_iff (ha.shown hva) (hb.shown hvb)

/-! ## Copies -/

theorem pointTo_pos (hpos : 0 < i) : pointTo i = .table i := if_neg (by omega)

/-- An object that has the record of the first entry, and an index that is not in step. -/
theorem not_inStep_of_stale (hpos : 0 < i) : ¬ InStep ⟨e, .custom, i⟩ := by
  intro h
  have hpointer : EntryPointer.custom = pointTo i := h
  rw [pointTo_pos hpos] at hpointer
  exact absurd hpointer nofun

/-- The object for an index and one whose pointer was not set answer differently. -/
theorem answers_stale_ne (hpos : 0 < i) (hi : i < videoStandardTable.length) :
    (⟨tableEntry 0, pointTo i, i⟩ : BofVideoStandard).answers ≠
      (⟨tableEntry 0, .custom, i⟩ : BofVideoStandard).answers := by
  have hkind : Kind wholeConversions ⟨tableEntry 0, pointTo i, i⟩ := kind_of_index (.inr ⟨i, hi, rfl⟩)
  intro h
  have hsame := (answers_eq_iff hkind (.stale hpos hi) (Int.natCast_nonneg i) (Int.natCast_nonneg i)).mp h
  rw [entry_of_index] at hsame
  exact hpos.ne' ((sameFormat_tableEntry_iff hi table_pos).mp hsame)

/-- The copy has lost a format, and a pointer that is not in step. -/
theorem copy_answers_iff (h : Kind conv s) : s.copy.answers = s.answers ↔ s.InStep ∧ ¬ s.IsCustom := by
  cases h with
  | invalid => exact iff_of_true rfl ⟨rfl, fun h => absurd h.1 (by decide)⟩
  | first => exact iff_of_true rfl ⟨rfl, fun h => h.2 rfl⟩
  | format he =>
    have hk : Kind conv ⟨_, .custom, 0⟩ := .format he
    refine iff_of_false (fun h => ?_) fun h => h.2 ⟨rfl, fun heq => he.pDescription_ne table_pos (heq ▸ rfl)⟩
    exact he.not_sameFormat table_pos ((answers_eq_iff hk.copy hk (le_refl 0) (le_refl 0)).mp h).symm
  | entry hpos hi =>
    have hstep := (pointTo_pos hpos).symm
    exact iff_of_true (by rw [BofVideoStandard.copy, hstep]) ⟨hstep, fun h => h.2 rfl⟩
  | stale hpos hi => exact iff_of_false (answers_stale_ne hpos hi) fun h => not_inStep_of_stale hpos h.1

/-- An assigned object has the record of the other one, and its own pointer. -/
theorem assign_answers_iff (h : Kind conv a) (s : BofVideoStandard) : (s.assign a).answers = a.answers ↔ a.InStep := by
  cases h with
  | invalid => exact iff_of_true rfl rfl
  | first => exact iff_of_true rfl rfl
  | format he => exact iff_of_true rfl rfl
  | entry hpos hi =>
    have hstep := (pointTo_pos hpos).symm
    exact iff_of_true (by rw [BofVideoStandard.assign, hstep]) hstep
  | stale hpos hi => exact iff_of_false (answers_stale_ne hpos hi) (not_inStep_of_stale hpos)

/-! ## `FromIndex` -/

/-- The name of an entry is that of an entry of the table. -/
theorem findIndex_pDescription (hi : i < videoStandardTable.length) :
    ∃ j < videoStandardTable.length, findIndex (tableEntry i).pDescription_c = (j : Nat) ∧
      (j = i ↔ i ≠ 6 ∧ i ≠ 7) ∧ (j = 0 ↔ i = 0) := by
  refine ⟨if i = 6 ∨ i = 7 then i - 3 else i, ?_, findIndex_tableEntry hi, ?_, ?_⟩
  all_goals split <;> omega

/-- The object for an index of the table, which is not in step if the local object is the result. -/
theorem fromIndex_eq (elide : Bool) (hi : i < videoStandardTable.length) :
    fromIndex elide i = ⟨tableEntry 0, if elide then .custom else pointTo i, i⟩ := by
  have hlocal : (0 : Int) ≤ i ∧ (i : Int) < videoStandardTable.length := ⟨Int.natCast_nonneg i, by exact_mod_cast hi⟩
  rw [fromIndex, if_pos hlocal]
  cases elide with
  | false => rfl
  | true => rfl

theorem fromIndex_answers_iff (conv : VideoConversions) (elide : Bool) (hi : i < videoStandardTable.length) :
    (fromIndex elide i).answers = (ofString conv (tableEntry i).pDescription_c).answers ↔ FoundByName elide i := by
  obtain ⟨j, hj, hindex, hsame, hzero⟩ := findIndex_pDescription hi
  have hkind : Kind conv (fromIndex elide i) := kind_fromIndex elide i
  have hkind' : Kind conv ⟨tableEntry 0, pointTo j, j⟩ := kind_of_index (.inr ⟨j, hj, rfl⟩)
  rw [fromIndex_eq elide hi] at hkind ⊢
  rw [(ofString_of_name hindex).1, answers_eq_iff hkind hkind' (Int.natCast_nonneg i) (Int.natCast_nonneg j),
    entry_of_index]
  cases elide with
  | false =>
    calc SameFormat (⟨tableEntry 0, pointTo i, i⟩ : BofVideoStandard).entry (tableEntry j)
      _ ↔ SameFormat (tableEntry i) (tableEntry j) := by rw [entry_of_index]
      _ ↔ i = j := sameFormat_tableEntry_iff hi hj
      _ ↔ i ≠ 6 ∧ i ≠ 7 := eq_comm.trans hsame
      _ ↔ FoundByName false i := by simp [FoundByName]; omega
  | true =>
    calc SameFormat (tableEntry 0) (tableEntry j)
      _ ↔ 0 = j := sameFormat_tableEntry_iff table_pos hj
      _ ↔ i = 0 := eq_comm.trans hzero
      _ ↔ FoundByName true i := by simp [FoundByName]

/-! ## Comparison -/

/-- An object that shows the first entry, or one whose description is another. -/
theorem Kind.entry_eq_first (h : Kind conv s) (hvalid : 0 ≤ s.mIndex_i)
    (hsame : SameFormat s.entry (tableEntry 0)) : s.entry = tableEntry 0 := by
  rcases h.shown hvalid with ⟨i, hi, heq⟩ | he
  · rw [heq] at hsame ⊢
    rw [(sameFormat_tableEntry_iff hi table_pos).mp hsame]
  · exact absurd hsame (he.not_sameFormat table_pos)

theorem Kind.of_index_neg (h : Kind conv s) (hindex : s.mIndex_i = -1) : s = ⟨tableEntry 0, .custom, -1⟩ := by
  cases h with
  | invalid => rfl
  | first => simp only at hindex; omega
  | format => simp only at hindex; omega
  | entry => simp only at hindex; omega
  | stale => simp only at hindex; omega

theorem Kind.of_index_zero (h : Kind conv s) (hindex : s.mIndex_i = 0) : ∃ e, s = ⟨e, .custom, 0⟩ := by
  cases h with
  | invalid => simp only at hindex; omega
  | first => exact ⟨_, rfl⟩
  | format => exact ⟨_, rfl⟩
  | entry hpos => simp only at hindex; omega
  | stale hpos => simp only at hindex; omega

theorem Kind.of_index_pos (h : Kind conv s) (hpos : 0 < i) (hindex : s.mIndex_i = i) :
    s = ⟨tableEntry 0, pointTo i, i⟩ ∨ s = ⟨tableEntry 0, .custom, i⟩ := by
  cases h with
  | invalid => simp only at hindex; omega
  | first => simp only at hindex; omega
  | format => simp only at hindex; omega
  | entry hpos =>
    obtain rfl := Int.natCast_inj.mp hindex
    exact .inl (by rw [pointTo_pos hpos])
  | stale =>
    obtain rfl := Int.natCast_inj.mp hindex
    exact .inr rfl

/-- Objects with the same index. -/
theorem answers_eq_iff_of_index_eq (ha : Kind conv a) (hb : Kind conv b) (h : a.mIndex_i = b.mIndex_i) :
    a.answers = b.answers ↔
      (a.InStep ↔ b.InStep) ∧ (a.mIndex_i = 0 → SameFormat a.mCustomFormat_X b.mCustomFormat_X) := by
  rcases ha.index with hindex | ⟨i, hi, hindex⟩
  · rw [ha.of_index_neg hindex, hb.of_index_neg (h ▸ hindex)]
    exact iff_of_true rfl ⟨Iff.rfl, fun h => absurd h (by decide)⟩
  · rcases Nat.eq_zero_or_pos i with rfl | hpos
    · obtain ⟨e, rfl⟩ := ha.of_index_zero hindex
      obtain ⟨e', rfl⟩ := hb.of_index_zero (h ▸ hindex)
      rw [answers_eq_iff ha hb (le_refl 0) (le_refl 0)]
      exact ⟨fun hsame => ⟨Iff.rfl, fun _ => hsame⟩, fun hsame => hsame.2 rfl⟩
    · have hstale := answers_stale_ne hpos hi
      have hnot := not_inStep_of_stale (e := tableEntry 0) hpos
      have hne : (i : Int) ≠ 0 := by omega
      rcases ha.of_index_pos hpos hindex with rfl | rfl
      · rcases hb.of_index_pos hpos (h ▸ hindex) with rfl | rfl
        · exact iff_of_true rfl ⟨Iff.rfl, fun h => absurd h hne⟩
        · exact iff_of_false hstale fun hstep => hnot (hstep.1.mp rfl)
      · rcases hb.of_index_pos hpos (h ▸ hindex) with rfl | rfl
        · exact iff_of_false hstale.symm fun hstep => hnot (hstep.1.mpr rfl)
        · exact iff_of_true rfl ⟨Iff.rfl, fun h => absurd h hne⟩

/-- What a valid object shows: the first entry, a format, or the entry for its index. -/
theorem Kind.entry_cases (h : Kind conv s) (hvalid : 0 ≤ s.mIndex_i) :
    s.entry = tableEntry 0 ∨ s.mIndex_i = 0 ∧ IsFormatRecord conv s.entry ∨
      ∃ i < videoStandardTable.length, s.mIndex_i = (i : Nat) ∧ s.entry = tableEntry i := by
  cases h with
  | invalid => exact absurd hvalid (by decide)
  | first => exact .inl rfl
  | format he => exact .inr (.inl ⟨rfl, he⟩)
  | entry _ hi => exact .inr (.inr ⟨_, hi, rfl, rfl⟩)
  | stale => exact .inl rfl

/-- With different indexes only the first entry can be shown by both. -/
theorem sameFormat_iff_of_index_ne (ha : Kind conv a) (hb : Kind conv b) (hva : 0 ≤ a.mIndex_i)
    (hvb : 0 ≤ b.mIndex_i) (h : a.mIndex_i ≠ b.mIndex_i) :
    SameFormat a.entry b.entry ↔ a.ShowsFirst ∧ b.ShowsFirst := by
  constructor
  · intro hsame
    have hfirst (hor : a.entry = tableEntry 0 ∨ b.entry = tableEntry 0) : a.ShowsFirst ∧ b.ShowsFirst := by
      rcases hor with heq | heq
      · exact ⟨⟨hva, heq⟩, hvb, hb.entry_eq_first hvb (heq ▸ hsame.symm)⟩
      · exact ⟨⟨hva, ha.entry_eq_first hva (heq ▸ hsame)⟩, hvb, heq⟩
    rcases ha.entry_cases hva with heq | ⟨hia, hea⟩ | ⟨i, hi, hia, hea⟩
    · exact hfirst (.inl heq)
    · rcases hb.entry_cases hvb with heq | ⟨hib, heb⟩ | ⟨j, hj, hib, heb⟩
      · exact hfirst (.inr heq)
      · exact absurd (hia.trans hib.symm) h
      · exact absurd (heb ▸ hsame) (hea.not_sameFormat hj)
    · rcases hb.entry_cases hvb with heq | ⟨hib, heb⟩ | ⟨j, hj, hib, heb⟩
      · exact hfirst (.inr heq)
      · exact absurd (hea ▸ hsame.symm) (heb.not_sameFormat hi)
      · rw [hea, heb, sameFormat_tableEntry_iff hi hj] at hsame
        exact absurd (by rw [hia, hib, hsame]) h
  · intro ⟨⟨_, hea⟩, _, heb⟩
    rw [hea, heb]
    exact rfl

/-- Objects with different indexes. -/
theorem answers_eq_iff_of_index_ne (ha : Kind conv a) (hb : Kind conv b) (h : a.mIndex_i ≠ b.mIndex_i) :
    a.answers = b.answers ↔ a.ShowsFirst ∧ b.ShowsFirst := by
  by_cases hvalid : (0 ≤ a.mIndex_i ↔ 0 ≤ b.mIndex_i)
  · by_cases hva : 0 ≤ a.mIndex_i
    · rw [answers_eq_iff ha hb hva (hvalid.mp hva)]
      exact sameFormat_iff_of_index_ne ha hb hva (hvalid.mp hva) h
    · -- both are invalid, and then the indexes are the same
      have hia := ha.index.resolve_right fun ⟨i, _, hi⟩ => hva (by omega)
      have hib := hb.index.resolve_right fun ⟨i, _, hi⟩ => hva (hvalid.mpr (by omega))
      exact absurd (hia.trans hib.symm) h
  · refine iff_of_false (fun heq => hvalid ?_) fun hfirst => hvalid (iff_of_true hfirst.1.1 hfirst.2.1)
    have hboth : decide (a.mIndex_i ≥ 0) = decide (b.mIndex_i ≥ 0) := congrArg Answers.isValid heq
    rwa [decide_eq_decide] at hboth

theorem operatorEq_iff (ha : Kind conv a) (hb : Kind conv b) :
    (a.operatorEq b = true ↔ a.answers = b.answers) ↔ Comparable a b := by
  have hindex : a.operatorEq b = true ↔ a.mIndex_i = b.mIndex_i := by simp [operatorEq]
  rw [hindex, Comparable]
  by_cases h : a.mIndex_i = b.mIndex_i
  · rw [if_pos h, ← answers_eq_iff_of_index_eq ha hb h]
    exact iff_true_left h
  · rw [if_neg h, ← answers_eq_iff_of_index_ne ha hb h]
    exact iff_false_left h

/-! ## Value semantics -/

/-- A copy and a comparison are right for objects that are in step and not formats, and for pairs that can be compared;
an index answers as its name if the entry is found under it. -/
theorem valueSemantics_iff (conv : VideoConversions) (elide : Bool) (a b : BofVideoStandard) (i : Nat)
    (ha : Reachable conv elide a) (hb : Reachable conv elide b) (hi : i < videoStandardTable.length) :
    ValueSemantics conv elide a b i ↔ (InStep a ∧ ¬ IsCustom a) ∧ FoundByName elide i ∧ Comparable a b := by
  rw [← copy_answers_iff ha.kind, ← fromIndex_answers_iff conv elide hi, ← operatorEq_iff ha.kind hb.kind]
  constructor
  · intro ⟨hcopy, _, hfrom, heq⟩
    exact ⟨hcopy, hfrom, heq⟩
  · intro ⟨hcopy, hfrom, heq⟩
    have hstep := ((copy_answers_iff ha.kind).mp hcopy).1
    exact ⟨hcopy, (assign_answers_iff ha.kind b).mpr hstep, hfrom, heq⟩

theorem valueSemantics_entries :
    ValueSemantics wholeConversions false (ofString wholeConversions ("1920x1080@50i".toList.map Char.toUInt8))
      (ofFormat 1920 1080 50 'p'.toUInt8) 19 := by
  refine (valueSemantics_iff _ _ _ _ _ (.ofString _) (.ofFormat _ _ _ _) (by decide)).mpr ⟨⟨?_, fun h => ?_⟩, ?_, ?_⟩
  · unfold InStep
    decide +kernel
  · exact absurd h.1 (by decide +kernel)
  · exact .inr ⟨rfl, by decide, by decide⟩
  · rw [Comparable, if_neg (by decide +kernel)]
    exact fun h => absurd h.1.2 (by decide +kernel)

/-- A copy of a format answers as the first entry of the table. -/
theorem copy_of_format :
    Reachable wholeConversions false (ofString wholeConversions ("256x128@50p".toList.map Char.toUInt8)) ∧
      ¬ ValueSemantics wholeConversions false (ofString wholeConversions ("256x128@50p".toList.map Char.toUInt8))
        (ofString wholeConversions ("256x128@50p".toList.map Char.toUInt8)) 0 := by
  refine ⟨.ofString _, fun h => ?_⟩
  have htext := congrArg Answers.toString h.copy
  exact absurd htext (by decide +kernel)

end BofVideoStandard

end BofStd
