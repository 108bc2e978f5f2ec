import BofStd.ParameterSpec

/-!
# Lists of parameters

The copy of the value is cut in place, and in every round the pointer, the length and the rest behind the next comma are
those of the next piece (`Remaining.nextPiece`). An element depends on its piece alone (`parseElement_eq`), so that the
loop is the sequence of the calls with the pieces (`loop_eq_parseEach`).
-/

namespace BofStd

namespace BofParameter

open StdString Retry

variable {D Tm : Type} {env : ParameterEnv D Tm} {p : BofParameter D} {parseCallback : Option ParseCallback}
  {s : ParseState Tm} {index start : UInt32} {value piece rest : Text} {ps : List Text}

/-! ## Pieces -/

/-- A piece: a text without commas and zeros. -/
def IsPiece (piece : Text) : Prop := ','.toUInt8 ∉ piece ∧ 0 ∉ piece

theorem cStr_eq_self (h : 0 ∉ piece) : cStr piece = piece := by
  refine List.takeWhile_eq_self_iff.mpr fun c hc => ?_
  exact decide_eq_true fun h0 => h (h0 ▸ hc)

theorem zero_not_mem_cStr (value : Text) : 0 ∉ cStr value := by
  intro h
  have := List.mem_takeWhile_imp h
  simp at this

theorem pieces_of_isPiece (h : IsPiece piece) : pieces piece = [piece] := by
  simp [pieces, cStr_eq_self h.2, List.splitOn_eq_singleton h.1]

theorem zero_not_mem_append (h : IsPiece piece) (hrest : 0 ∉ rest) : 0 ∉ piece ++ ','.toUInt8 :: rest := by
  simp only [List.mem_append, List.mem_cons, not_or]
  exact ⟨h.2, by decide, hrest⟩

/-- Only the empty text has one empty part. -/
theorem one_lt_length_splitOn (hne : rest ≠ []) (hlast : (rest.splitOn ','.toUInt8).getLast? = some []) :
    1 < (rest.splitOn ','.toUInt8).length := by
  by_contra hlen
  have hparts : [','.toUInt8].intercalate (rest.splitOn ','.toUInt8) = rest := List.intercalate_splitOn _
  rcases hsplit : rest.splitOn ','.toUInt8 with _ | ⟨part, parts⟩
  · exact List.splitOn_ne_nil _ _ hsplit
  · rw [hsplit] at hlast hlen hparts
    obtain rfl : parts = [] := by simpa using hlen
    obtain rfl : part = [] := by simpa using hlast
    exact hne (by simpa using hparts.symm)

/-- The pieces of a value with a comma. -/
theorem pieces_append (h : IsPiece piece) (hrest : 0 ∉ rest) :
    pieces (piece ++ ','.toUInt8 :: rest) = piece :: if rest = [] then [] else pieces rest := by
  rw [pieces, cStr_eq_self (zero_not_mem_append h hrest), List.splitOn_append_cons_self_of_not_mem h.1]
  by_cases hempty : rest = []
  · subst hempty
    simp
  · obtain ⟨init, last, hsplit⟩ : ∃ init last, rest.splitOn ','.toUInt8 = init ++ [last] :=
      ⟨_, _, (List.dropLast_append_getLast (List.splitOn_ne_nil _ _)).symm⟩
    rw [if_neg hempty, pieces, cStr_eq_self hrest]
    have hcons : piece :: rest.splitOn ','.toUInt8 = (piece :: init) ++ [last] := by rw [hsplit, List.cons_append]
    have hlong : 1 < ((piece :: init) ++ [last]).length := by simp
    rw [hcons, hsplit]
    simp only [List.getLast?_concat, List.dropLast_concat, hlong, true_and, Option.some_inj]
    by_cases hlast : last = []
    · have hone := one_lt_length_splitOn hempty (by simp [hsplit, hlast])
      rw [hsplit] at hone
      rw [if_pos hlast, if_pos ⟨hone, hlast⟩]
    · rw [if_neg hlast, if_neg fun h => hlast h.2, List.cons_append]

/-- The value up to its first comma, and behind it. -/
theorem exists_first_piece (h : 0 ∉ value) :
    IsPiece value ∨ ∃ piece rest, IsPiece piece ∧ 0 ∉ rest ∧ value = piece ++ ','.toUInt8 :: rest := by
  by_cases hcoma : ','.toUInt8 ∈ value
  · obtain ⟨piece, rest, hvalue, hpiece⟩ := List.eq_append_cons_of_mem hcoma
    subst hvalue
    simp only [List.mem_append, List.mem_cons, not_or] at h
    exact .inr ⟨piece, rest, ⟨hpiece, h.1⟩, h.2.2, rfl⟩
  · exact .inl ⟨hcoma, h⟩

/-- The pieces are pieces, and not longer than the value. -/
theorem isPiece_of_mem (h : 0 ∉ value) (hpiece : piece ∈ pieces value) :
    IsPiece piece ∧ piece.length ≤ value.length := by
  induction hn : value.length using Nat.strong_induction_on generalizing value with
  | _ n ih =>
    rcases exists_first_piece h with hvalue | ⟨first, rest, hfirst, hrest, rfl⟩
    · rw [pieces_of_isPiece hvalue, List.mem_singleton] at hpiece
      subst hpiece
      exact ⟨hvalue, hn.le⟩
    · rw [pieces_append hfirst hrest, List.mem_cons] at hpiece
      rw [List.length_append, List.length_cons] at hn
      rcases hpiece with rfl | hmem
      · exact ⟨hfirst, by omega⟩
      · split at hmem
        · exact absurd hmem List.not_mem_nil
        · obtain ⟨hpiece, hle⟩ := ih _ (by omega) hrest hmem rfl
          exact ⟨hpiece, by omega⟩

/-- There are not more pieces than places for commas. -/
theorem length_pieces_le (h : 0 ∉ value) : (pieces value).length ≤ value.length + 1 := by
  induction hn : value.length using Nat.strong_induction_on generalizing value with
  | _ n ih =>
    rcases exists_first_piece h with hvalue | ⟨first, rest, hfirst, hrest, rfl⟩
    · rw [pieces_of_isPiece hvalue]
      simp
    · rw [pieces_append hfirst hrest]
      rw [List.length_append, List.length_cons] at hn
      split
      · simp
      · have := ih _ (by omega) hrest rfl
        simp only [List.length_cons]
        omega

/-! ## One element -/

/-- The pointer and the length are those of a piece. -/
def AtPiece (s : ParseState Tm) (piece : Text) : Prop := s.optVal = piece ∧ s.Len_i = piece.length

/-- The text of the given length is the piece. -/
theorem AtPiece.take (h : AtPiece s piece) : (s.pAllTheOptVal_c.drop s.pTheOptVal_c).take piece.length = piece := by
  obtain ⟨rfl, -⟩ := h
  exact (List.prefix_iff_eq_take.mp (List.takeWhile_prefix _)).symm

/-- A number that is read does not depend on the one before. -/
theorem checkAndGetValueFromString_eq (env : ParameterEnv D Tm) (p : BofParameter D) (t : IntType) (optVal : Text)
    (val val' : Int) :
    (checkAndGetValueFromString env p t optVal val).1 = (checkAndGetValueFromString env p t optVal val').1 ∧
      ((checkAndGetValueFromString env p t optVal val).1 = .noError →
        (checkAndGetValueFromString env p t optVal val).2 = (checkAndGetValueFromString env p t optVal val').2) := by
  simp only [checkAndGetValueFromString]
  split
  · exact ⟨rfl, fun h => absurd h nofun⟩
  · exact ⟨rfl, fun _ => rfl⟩

/-- The types of numbers. -/
def IsNumber (type : BofParameterArgType) : Prop := type = .enum ∨ ∃ t, type = .integer t

variable {s' : ParseState Tm} {optVal optVal' : Text} {place : ElementPlace}

/-- The check of an element. -/
theorem checkElement_eq (hs : AtPiece s piece) (hs' : AtPiece s' piece) :
    (checkElement env p false s).1 = (checkElement env p false s').1 ∧
      ((checkElement env p false s).1 = .noError → IsNumber p.ArgType_E →
        (checkElement env p false s).2 = (checkElement env p false s').2) := by
  obtain ⟨htext, hlen⟩ := hs
  obtain ⟨htext', hlen'⟩ := hs'
  unfold checkElement
  cases htype : p.ArgType_E with
  | charString => exact ⟨by rw [hlen, hlen'], fun _ h => by simp [IsNumber] at h⟩
  | stdString => exact ⟨by rw [hlen, hlen'], fun _ h => by simp [IsNumber] at h⟩
  | date => exact ⟨rfl, fun _ h => by simp [IsNumber] at h⟩
  | time => exact ⟨rfl, fun _ h => by simp [IsNumber] at h⟩
  | dateTime => exact ⟨rfl, fun _ h => by simp [IsNumber] at h⟩
  | integer t =>
    obtain ⟨herr, hval⟩ := checkAndGetValueFromString_eq env p t piece s.Val s'.Val
    simp only [htext, htext', Bool.false_eq_true, if_false]
    exact ⟨herr, fun h _ => hval h⟩
  | enum =>
    simp only [htext, htext', Bool.false_eq_true, if_false]
    exact ⟨(checkAndGetValueFromString_eq ..).1, fun h _ => (checkAndGetValueFromString_eq ..).2 h⟩

/-- A text that passes the check has a length that does. -/
theorem not_wrongLen_of_checkElement (hs : AtPiece s piece) (h : (checkElement env p false s).1 = .noError)
    (htext : p.ArgType_E = .charString ∨ p.ArgType_E = .stdString) : wrongLen env p piece.length = false := by
  have hcheck : (if wrongLen env p s.Len_i = true then BofErr.wrongSize else .noError) = .noError := by
    rcases htext with htype | htype
    · simpa only [checkElement, htype] using h
    · simpa only [checkElement, htype] using h
  rw [hs.2] at hcheck
  by_contra hwrong
  rw [if_pos (by simpa using hwrong)] at hcheck
  exact absurd hcheck nofun

/-- What is stored for a text of a right length is the piece. -/
theorem storeText_eq (hregexp : isAnyBitFlagSet p.ArgFlag_E STR_FORMAT_ISREGEXP = false)
    (hwrong : wrongLen env p piece.length = false) (hs : AtPiece s piece) :
    storeText env p place s =
      if p.ArgType_E = .charString then
        if place = .vector then (.notAvailable, [], false)
        else (.noError, [(place, .chars (piece ++ [0]))], false)
      else (.noError, [(place, .string piece)], false) := by
  have hcopy : strncpy piece piece.length = piece := by simp [strncpy]
  unfold storeText
  simp only [hregexp, hs.1, hs.2, hwrong, hs.take, hcopy, Bool.false_eq_true, false_and, if_false, Int.toNat_natCast]

/-- What is stored depends on the piece, unless it is a date. -/
theorem storeElement_eq (hregexp : isAnyBitFlagSet p.ArgFlag_E STR_FORMAT_ISREGEXP = false)
    (htype : ¬ IsDateTime p.ArgType_E) (hs : AtPiece s piece) (hs' : AtPiece s' piece)
    (hwrong : p.ArgType_E = .charString ∨ p.ArgType_E = .stdString → wrongLen env p piece.length = false)
    (hval : IsNumber p.ArgType_E → s.Val = s'.Val) :
    storeElement env p false optVal place s = storeElement env p false optVal' place s' := by
  unfold storeElement
  cases h : p.ArgType_E with
  | charString => simp only [storeText_eq hregexp (hwrong (.inl h)) hs, storeText_eq hregexp (hwrong (.inl h)) hs']
  | stdString => simp only [storeText_eq hregexp (hwrong (.inr h)) hs, storeText_eq hregexp (hwrong (.inr h)) hs']
  | date => exact absurd (.inl h) htype
  | time => exact absurd (.inr (.inl h)) htype
  | dateTime => exact absurd (.inr (.inr h)) htype
  | integer t => simp only [hval (.inr ⟨t, h⟩)]
  | enum => simp only [hval (.inl h)]

/-- An element that is not stored has an error, which is not forgotten. -/
theorem storeElement_error (hregexp : isAnyBitFlagSet p.ArgFlag_E STR_FORMAT_ISREGEXP = false) :
    (storeElement env p false optVal place s).2.2 = false ∧
      ((storeElement env p false optVal place s).1 ≠ .noError →
        (storeElement env p false optVal place s).2.1 = []) := by
  have htext : (storeText env p place s).2.2 = false ∧
      ((storeText env p place s).1 ≠ .noError → (storeText env p place s).2.1 = []) := by
    unfold storeText
    simp only [hregexp, Bool.false_eq_true, false_and, if_false]
    split
    · split
      · exact ⟨rfl, fun _ => rfl⟩
      · exact ⟨rfl, fun h => absurd rfl h⟩
    · exact ⟨rfl, fun h => absurd rfl h⟩
  have hdate (format : String) : (storeDateTime env p optVal format place).2.2 = false ∧
      ((storeDateTime env p optVal format place).1 ≠ .noError →
        (storeDateTime env p optVal format place).2.1 = []) := by
    simp only [storeDateTime]
    generalize env.strptime optVal _ = read
    cases read with
    | none => exact ⟨rfl, fun _ => rfl⟩
    | some read => exact ⟨rfl, fun h => absurd rfl h⟩
  unfold storeElement
  split
  · exact ⟨rfl, fun _ => rfl⟩
  · split
    · exact htext
    · exact htext
    · exact hdate _
    · exact hdate _
    · exact hdate _
    · exact ⟨rfl, fun h => absurd rfl h⟩
    · exact ⟨rfl, fun h => absurd rfl h⟩

/-- The error behind the callback. -/
def checkedError (env : ParameterEnv D Tm) (p : BofParameter D) (parseCallback : Option ParseCallback) (optVal : Text)
    (s : ParseState Tm) : BofErr :=
  if (checkElement env p false s).1 ≠ .noError then
    parseCallback.elim (checkElement env p false s).1 fun callback =>
      callback s.Index_U32 (checkElement env p false s).1 optVal
  else (checkElement env p false s).1

theorem parseElement_of_noError (h : checkedError env p parseCallback optVal s = .noError) :
    parseElement env p parseCallback false optVal place s =
      ((storeElement env p false optVal place { s with Val := (checkElement env p false s).2 }).1,
        (checkElement env p false s).2,
        (storeElement env p false optVal place { s with Val := (checkElement env p false s).2 }).2) := if_pos h

theorem parseElement_of_error (h : checkedError env p parseCallback optVal s ≠ .noError) :
    parseElement env p parseCallback false optVal place s =
      (checkedError env p parseCallback optVal s, (checkElement env p false s).2, [], false) := if_neg h

/-- A callback that keeps errors does not change the first check. -/
theorem checkedError_eq_noError_iff (hcallback : KeepsErrors parseCallback) :
    checkedError env p parseCallback optVal s = .noError ↔ (checkElement env p false s).1 = .noError := by
  unfold checkedError
  by_cases h : (checkElement env p false s).1 = .noError
  · simp [h]
  · rw [if_pos h]
    cases hc : parseCallback with
    | none => rfl
    | some callback => exact iff_of_false (hcallback callback hc _ _ h optVal optVal).2 h

/-- The error behind the callback depends on the index and the piece. -/
theorem checkedError_eq (hcallback : KeepsErrors parseCallback) (hs : AtPiece s piece) (hs' : AtPiece s' piece)
    (hindex : s.Index_U32 = s'.Index_U32) :
    checkedError env p parseCallback optVal s = checkedError env p parseCallback optVal' s' := by
  unfold checkedError
  rw [(checkElement_eq hs hs').1, hindex]
  by_cases h : (checkElement env p false s').1 = .noError
  · simp [h]
  · rw [if_pos h, if_pos h]
    cases hc : parseCallback with
    | none => rfl
    | some callback => exact (hcallback callback hc _ _ h optVal optVal').1

/-- An element depends on the index and its piece, if the callback does. -/
theorem parseElement_eq (hregexp : isAnyBitFlagSet p.ArgFlag_E STR_FORMAT_ISREGEXP = false)
    (htype : ¬ IsDateTime p.ArgType_E) (hcallback : KeepsErrors parseCallback) (hs : AtPiece s piece)
    (hs' : AtPiece s' piece) (hindex : s.Index_U32 = s'.Index_U32) :
    (parseElement env p parseCallback false optVal place s).1 =
        (parseElement env p parseCallback false optVal' place s').1 ∧
      (parseElement env p parseCallback false optVal place s).2.2 =
        (parseElement env p parseCallback false optVal' place s').2.2 := by
  have herr : checkedError env p parseCallback optVal s = checkedError env p parseCallback optVal' s' :=
    checkedError_eq hcallback hs hs' hindex
  by_cases h : checkedError env p parseCallback optVal s = .noError
  · have hcheck := (checkedError_eq_noError_iff hcallback).mp h
    have hstore : storeElement env p false optVal place { s with Val := (checkElement env p false s).2 } =
        storeElement env p false optVal' place { s' with Val := (checkElement env p false s').2 } :=
      storeElement_eq hregexp htype hs hs' (not_wrongLen_of_checkElement hs hcheck) ((checkElement_eq hs hs').2 hcheck)
    rw [parseElement_of_noError h, parseElement_of_noError (herr ▸ h), hstore]
    exact ⟨rfl, rfl⟩
  · rw [parseElement_of_error h, parseElement_of_error (herr ▸ h), herr]
    exact ⟨rfl, rfl⟩

/-- An element with an error is not stored, and the error is not forgotten. -/
theorem parseElement_error (hregexp : isAnyBitFlagSet p.ArgFlag_E STR_FORMAT_ISREGEXP = false) :
    (parseElement env p parseCallback false optVal place s).2.2.2 = false ∧
      ((parseElement env p parseCallback false optVal place s).1 ≠ .noError →
        (parseElement env p parseCallback false optVal place s).2.2.1 = []) := by
  by_cases h : checkedError env p parseCallback optVal s = .noError
  · rw [parseElement_of_noError h]
    exact storeElement_error hregexp
  · rw [parseElement_of_error h]
    exact ⟨rfl, fun _ => rfl⟩

/-! ## The cut in place -/

variable {all : Text} {pos : Nat}

theorem findIdx?_isPiece (h : IsPiece piece) : (piece.findIdx? fun c => c = ','.toUInt8) = none := by
  rw [List.findIdx?_eq_none_iff]
  intro c hc
  exact decide_eq_false fun h0 => h.1 (h0 ▸ hc)

theorem strchrComma_eq_none (hdrop : all.drop pos = rest) (h : IsPiece rest) : strchrComma all pos = none := by
  rw [strchrComma, hdrop, cStr_eq_self h.2, findIdx?_isPiece h, Option.map_none]

theorem strchrComma_eq_some (hdrop : all.drop pos = piece ++ ','.toUInt8 :: rest) (h : IsPiece piece)
    (hrest : 0 ∉ rest) : strchrComma all pos = some (pos + piece.length) := by
  rw [strchrComma, hdrop, cStr_eq_self (zero_not_mem_append h hrest), List.findIdx?_append, findIdx?_isPiece h]
  simp [List.findIdx?_cons]

/-- The text up to the zero that is put in the place of a comma. -/
theorem cStr_cut (hdrop : all.drop pos = piece ++ ','.toUInt8 :: rest) (h : IsPiece piece) :
    cStr ((all.set (pos + piece.length) 0).drop pos) = piece ∧
      (all.set (pos + piece.length) 0).drop (pos + piece.length + 1) = rest := by
  constructor
  · rw [List.drop_set, if_neg (by omega), hdrop, Nat.add_sub_cancel_left, List.set_append_right _ _ (le_refl _),
      Nat.sub_self, List.set_cons_zero, cStr, List.takeWhile_append_of_pos fun c hc => ?_]
    · simp
    · exact decide_eq_true fun h0 => h.2 (h0 ▸ hc)
  · rw [List.drop_set, if_pos (by omega), Nat.add_assoc, ← List.drop_drop, hdrop]
    simp

/-- The state in front of a round, with the pieces that are left. -/
inductive Remaining (s : ParseState Tm) : List Text → Prop where
  | last {piece : Text} (hat : AtPiece s piece) (hlast : s.pComaSep_c = none ∨ s.LastArrayArg_B = true) :
    Remaining s [piece]
  | more {piece rest : Text} {coma : Nat} (hat : AtPiece s piece) (hcoma : s.pComaSep_c = some coma)
      (hlast : s.LastArrayArg_B = false) (hdrop : s.pAllTheOptVal_c.drop (coma + 1) = rest) (hrest : 0 ∉ rest) :
    Remaining s (piece :: if rest = [] then [] else pieces rest)

theorem nextPiece_stored (s : ParseState Tm) : (nextPiece s).1.stored = s.stored := by
  unfold nextPiece
  split
  · rfl
  · split
    · rfl
    · simp only
      split
      · rfl
      · split
        · rfl
        · rfl

/-- The character at a position. -/
theorem getD_drop (hdrop : all.drop pos = rest) : all.getD pos (0 : UInt8) = rest.head?.getD 0 := by
  rw [List.getD_eq_getElem?_getD, ← List.head?_drop, hdrop]

/-- The pointer, the length and the comma move on to the next piece, or the loop ends behind the last one. -/
theorem Remaining.next (h : Remaining s (piece :: ps)) :
    (ps = [] ∧ (nextPiece s).1.pComaSep_c = none) ∨
      ((nextPiece s).1.pComaSep_c.isSome ∧ Remaining (nextPiece s).1 ps ∧
        (nextPiece s).1.Index_U32 = s.Index_U32 + 1) := by
  cases h with
  | last hat hlast =>
    refine .inl ⟨rfl, ?_⟩
    cases hcoma : s.pComaSep_c with
    | none => simp [nextPiece, hcoma]
    | some coma => simp [nextPiece, hcoma, hlast.resolve_left (by simp [hcoma])]
  | @more _ rest coma hat hcoma hlast hdrop hrest =>
    rcases exists_first_piece hrest with hpiece | ⟨next, rest', hnext, hrest', rfl⟩
    · -- there is no other comma
      have hnone := strchrComma_eq_none hdrop hpiece
      have hchar := getD_drop hdrop
      rcases rest with _ | ⟨c, rest⟩
      · rw [List.head?_nil, Option.getD_none] at hchar
        exact .inl ⟨rfl, by simp only [nextPiece, hcoma, hlast, hnone, hchar, if_true, if_false, Bool.false_eq_true]⟩
      · have hc : c ≠ 0 := fun h0 => hrest (h0 ▸ List.mem_cons_self)
        rw [List.head?_cons, Option.getD_some] at hchar
        have htext : cStr (s.pAllTheOptVal_c.drop (coma + 1)) = c :: rest := by rw [hdrop, cStr_eq_self hrest]
        refine .inr ?_
        simp only [nextPiece, hcoma, hlast, hnone, hchar, hc, if_false, Bool.false_eq_true]
        rw [if_neg (List.cons_ne_nil c rest), pieces_of_isPiece hpiece]
        exact ⟨rfl, .last ⟨htext, by rw [htext]⟩ (.inr rfl), trivial⟩
    · -- the piece goes to the next comma
      have hsome := strchrComma_eq_some hdrop hnext hrest'
      obtain ⟨htext, hbehind⟩ := cStr_cut hdrop hnext
      refine .inr ?_
      simp only [nextPiece, hcoma, hlast, hsome, if_false, Bool.false_eq_true]
      rw [if_neg (by simp), pieces_append hnext hrest']
      refine ⟨rfl, .more ⟨htext, ?_⟩ rfl rfl hbehind hrest', trivial⟩
      simp only
      push_cast
      omega

/-! ## The loop -/

/-- The state for a piece alone. -/
def aloneState (index : UInt32) (piece : Text) : ParseState Tm := ⟨index, piece, 0, none, piece.length, false, 0, []⟩

theorem atPiece_aloneState (h : IsPiece piece) : AtPiece (@aloneState Tm index piece) piece :=
  ⟨cStr_eq_self h.2, rfl⟩

/-- The state behind an element. -/
def afterElement (result : BofErr × Int × List (ElementPlace × ParameterValue Tm) × Bool) (s : ParseState Tm) :
    ParseState Tm := (nextPiece { s with Val := result.2.1, stored := s.stored ++ result.2.2.1 }).1

/-- A round whose element does not forget its error. -/
theorem parseRound_eq {result : BofErr × Int × List (ElementPlace × ParameterValue Tm) × Bool}
    (hplace : elementPlace p s.Index_U32 = .ok place)
    (hresult : parseElement env p parseCallback false optVal place s = result) (hkeep : result.2.2.2 = false) :
    parseRound env p parseCallback false optVal s =
      if (afterElement result s).pComaSep_c.isSome ∧ result.1 = .noError then .again (afterElement result s)
      else .stop (result.1, s.stored ++ result.2.2.1) := by
  simp only [parseRound, hplace, hresult, hkeep, Bool.false_eq_true, and_false, if_false, nextPiece_stored,
    afterElement]
  rfl

theorem parseRound_error {err : BofErr} (hplace : elementPlace p s.Index_U32 = .error err) :
    parseRound env p parseCallback false optVal s = .stop (err, s.stored) := by simp only [parseRound, hplace]

/-- The call with a piece alone is one round. -/
theorem parseAlone_eq (hlist : IsList p) (h : IsPiece piece) (hlen : piece.length < 0x1000) (index : UInt32) :
    parseAlone env p parseCallback index piece =
      match elementPlace p index with
      | .error err => some (err, [])
      | .ok place =>
        some ((parseElement env p parseCallback false piece place (aloneState index piece)).1,
          (parseElement env p parseCallback false piece place (aloneState index piece)).2.2.1) := by
  have hstart : parseStart p false index piece = @aloneState Tm index piece := by
    unfold parseStart
    rw [strchrComma_eq_none (List.drop_zero) h]
    simp [aloneState]
  simp only [parseAlone, parse, Option.isNone_some, Option.getD_some, cStr_eq_self h.2, if_pos hlen, hstart]
  cases hplace : elementPlace p index with
  | error err => exact loop_stop (parseRound_error hplace) _
  | ok place =>
    refine loop_stop ?_ _
    rw [parseRound_eq hplace rfl (parseElement_error hlist.regexp).1]
    exact if_neg fun hnext => Bool.false_ne_true hnext.1

theorem elementPlace_ne_noError {err : BofErr} (h : elementPlace p index = .error err) : err ≠ .noError := by
  unfold elementPlace at h
  rintro rfl
  split at h
  · simp at h
  · split at h
    · split at h
      · split at h
        · simp at h
        · split at h
          · simp at h
          · simp at h
      · simp at h
    · simp at h

theorem Remaining.atPiece (h : Remaining s (piece :: ps)) : AtPiece s piece := by
  cases h with
  | last hat => exact hat
  | more hat => exact hat

theorem afterElement_stored (result : BofErr × Int × List (ElementPlace × ParameterValue Tm) × Bool)
    (s : ParseState Tm) : (afterElement result s).stored = s.stored ++ result.2.2.1 := nextPiece_stored _

/-- An element leaves the pieces behind it. -/
theorem Remaining.afterElement (h : Remaining s (piece :: ps))
    (result : BofErr × Int × List (ElementPlace × ParameterValue Tm) × Bool) :
    (ps = [] ∧ (afterElement result s).pComaSep_c = none) ∨
      ((afterElement result s).pComaSep_c.isSome ∧ Remaining (afterElement result s) ps ∧
        (afterElement result s).Index_U32 = s.Index_U32 + 1) := by
  have hsame : Remaining { s with Val := result.2.1, stored := s.stored ++ result.2.2.1 } (piece :: ps) := by
    cases h with
    | last hat hlast => exact .last hat hlast
    | more hat hcoma hlast hdrop hrest => exact .more hat hcoma hlast hdrop hrest
  exact hsame.next

/-- The loop is the sequence of the calls with the pieces that are left. -/
theorem loop_eq_parseEach (hlist : IsList p) (htype : ¬ IsDateTime p.ArgType_E) (hcallback : KeepsErrors parseCallback)
    (hs : Remaining s ps) (hpieces : ∀ piece ∈ ps, IsPiece piece ∧ piece.length < 0x1000) {rounds : Nat}
    (hrounds : ps.length ≤ rounds) :
    loop (parseRound env p parseCallback false optVal) rounds s =
      (parseEach (parseAlone env p parseCallback) s.Index_U32 ps).map fun result =>
        (result.1, s.stored ++ result.2) := by
  induction ps generalizing s rounds with
  | nil => nomatch hs
  | cons piece ps ih =>
    obtain ⟨⟨hpiece, hlen⟩, hrest⟩ := List.forall_mem_cons.mp hpieces
    obtain ⟨rounds, rfl⟩ := Nat.exists_eq_add_of_le' (Nat.succ_le_of_lt (Nat.lt_of_lt_of_le (Nat.succ_pos _) hrounds))
    rw [parseEach, parseAlone_eq hlist hpiece hlen]
    cases hplace : elementPlace p s.Index_U32 with
    | error err =>
      rw [loop_stop (parseRound_error hplace)]
      simp [elementPlace_ne_noError hplace]
    | ok place =>
      have hsame : AtPiece (@aloneState Tm s.Index_U32 piece) piece := atPiece_aloneState hpiece
      obtain ⟨herr, hstored⟩ := @parseElement_eq _ _ env p _ s piece _ optVal piece place hlist.regexp htype hcallback
        hs.atPiece hsame rfl
      have hkeep := (@parseElement_error _ _ env p parseCallback s optVal place hlist.regexp).1
      simp only [← herr, ← hstored, Option.bind_some]
      generalize hresult : parseElement env p parseCallback false optVal place s = result at hkeep
      have hround := parseRound_eq hplace hresult hkeep
      by_cases hok : result.1 = .noError
      · rcases hs.afterElement result with ⟨rfl, hend⟩ | ⟨hsome, hnext, hindex⟩
        · rw [hend, if_neg fun h => Bool.false_ne_true h.1] at hround
          rw [loop_stop hround]
          simp [hok, parseEach]
        · rw [if_pos ⟨hsome, hok⟩] at hround
          rw [loop_again hround, ih hnext hrest (Nat.le_of_succ_le_succ hrounds), if_pos hok, hindex,
            afterElement_stored]
          simp [Option.map_map, Function.comp_def, List.append_assoc]
      · rw [if_neg fun h => hok h.2] at hround
        rw [loop_stop hround, if_neg hok]
        rfl

/-- The first piece of a list, and the others behind its comma. -/
theorem remaining_parseStart (hlist : IsList p) (h : 0 ∉ value) (start : UInt32) :
    Remaining (@parseStart _ Tm p false start value) (pieces value) ∧
      (@parseStart _ Tm p false start value).Index_U32 = start ∧
        (@parseStart _ Tm p false start value).stored = [] := by
  unfold parseStart
  rw [if_pos ⟨rfl, hlist.array, hlist.coma⟩]
  rcases exists_first_piece h with hpiece | ⟨piece, rest, hpiece, hrest, rfl⟩
  · rw [strchrComma_eq_none List.drop_zero hpiece, pieces_of_isPiece hpiece]
    exact ⟨.last ⟨cStr_eq_self hpiece.2, rfl⟩ (.inl rfl), rfl, rfl⟩
  · have hdrop : (piece ++ ','.toUInt8 :: rest).drop 0 = piece ++ ','.toUInt8 :: rest := List.drop_zero
    have hcut := cStr_cut hdrop hpiece
    rw [strchrComma_eq_some hdrop hpiece hrest, pieces_append hpiece hrest]
    refine ⟨.more ⟨hcut.1, ?_⟩ rfl rfl hcut.2 hrest, rfl, rfl⟩
    simp

/-! ## Lists of calls -/

variable {f : UInt32 → Text → Option (ParseResult Tm)} {err : BofErr} {n : Nat}

theorem parseEach_isSome (h : ∀ index, ∀ piece ∈ ps, (f index piece).isSome) (start : UInt32) :
    (parseEach f start ps).isSome := by
  induction ps generalizing start with
  | nil => rfl
  | cons piece ps ih =>
    obtain ⟨result, hresult⟩ := Option.isSome_iff_exists.mp (h start piece List.mem_cons_self)
    rw [parseEach, hresult, Option.bind_some]
    split
    · simpa using ih (fun index other hother => h index other (List.mem_cons_of_mem _ hother)) (start + 1)
    · rfl

/-- The pieces in front of the `n`th one succeed, and it fails with an error. -/
def FailsAt (f : UInt32 → Text → Option (ParseResult Tm)) (start : UInt32) (ps : List Text) (n : Nat) (err : BofErr) :
    Prop :=
  (∀ i piece, i < n → ps[i]? = some piece → ∃ stored, f (start + UInt32.ofNat i) piece = some (.noError, stored)) ∧
    ∃ piece stored, ps[n]? = some piece ∧ f (start + UInt32.ofNat n) piece = some (err, stored)

theorem add_ofNat_succ (start : UInt32) (i : Nat) : start + UInt32.ofNat (i + 1) = start + 1 + UInt32.ofNat i := by
  rw [Nat.add_comm, UInt32.ofNat_add, ← UInt32.add_assoc]
  rfl

theorem add_ofNat_zero (start : UInt32) : start + UInt32.ofNat 0 = start := UInt32.add_zero start

/-- A failure behind a piece that succeeds. -/
theorem failsAt_succ_iff {stored : List (ElementPlace × ParameterValue Tm)}
    (h : f start piece = some (.noError, stored)) :
    FailsAt f start (piece :: ps) (n + 1) err ↔ FailsAt f (start + 1) ps n err := by
  constructor
  · intro ⟨hbefore, failed, stored', hget, hfailed⟩
    refine ⟨fun i other hi hother => ?_, failed, stored', by simpa using hget, by rwa [add_ofNat_succ] at hfailed⟩
    rw [← add_ofNat_succ]
    exact hbefore (i + 1) other (by omega) (by simpa using hother)
  · intro ⟨hbefore, failed, stored', hget, hfailed⟩
    refine ⟨fun i other hi hother => ?_, failed, stored', by simpa using hget, by rwa [add_ofNat_succ]⟩
    cases i with
    | zero =>
      obtain rfl : piece = other := by simpa using hother
      exact ⟨stored, by rw [add_ofNat_zero, h]⟩
    | succ i =>
      rw [add_ofNat_succ]
      exact hbefore i other (by omega) (by simpa using hother)

/-- A failure of the first piece. -/
theorem failsAt_zero_iff : FailsAt f start (piece :: ps) 0 err ↔ ∃ stored, f start piece = some (err, stored) := by
  constructor
  · rintro ⟨-, failed, stored, hget, hfailed⟩
    obtain rfl : piece = failed := by simpa using hget
    rw [add_ofNat_zero] at hfailed
    exact ⟨stored, hfailed⟩
  · rintro ⟨stored, h⟩
    exact ⟨fun i _ hi => absurd hi (Nat.not_lt_zero i), piece, stored, rfl, by rw [add_ofNat_zero, h]⟩

/-- If the first piece succeeds, a failure is one of the others. -/
theorem exists_failsAt_cons_iff {stored : List (ElementPlace × ParameterValue Tm)}
    (h : f start piece = some (.noError, stored)) (herr : err ≠ .noError) :
    (∃ n, FailsAt f start (piece :: ps) n err) ↔ ∃ n, FailsAt f (start + 1) ps n err := by
  constructor
  · rintro ⟨n, hfails⟩
    cases n with
    | zero =>
      obtain ⟨stored', hfailed⟩ := failsAt_zero_iff.mp hfails
      rw [h] at hfailed
      exact absurd (Prod.mk.inj (Option.some_inj.mp hfailed)).1.symm herr
    | succ n => exact ⟨n, (failsAt_succ_iff h).mp hfails⟩
  · rintro ⟨n, hfails⟩
    exact ⟨n + 1, (failsAt_succ_iff h).mpr hfails⟩

/-- The calls fail with the error of the first piece that fails. -/
theorem parseEach_error_iff (hf : ∀ index, ∀ piece ∈ ps, (f index piece).isSome) (herr : err ≠ .noError)
    (start : UInt32) :
    (∃ stored, parseEach f start ps = some (err, stored)) ↔ ∃ n, FailsAt f start ps n err := by
  induction ps generalizing start with
  | nil =>
    refine iff_of_false (fun ⟨_, h⟩ => herr ?_) fun ⟨n, _, piece, _, hget, _⟩ => ?_
    · simp only [parseEach, Option.some_inj, Prod.mk.injEq] at h
      exact h.1.symm
    · simp at hget
  | cons piece ps ih =>
    obtain ⟨hpiece, hrest⟩ : (∀ index, (f index piece).isSome) ∧ ∀ index, ∀ other ∈ ps, (f index other).isSome :=
      ⟨fun index => hf index piece List.mem_cons_self, fun index other h => hf index other (List.mem_cons_of_mem _ h)⟩
    obtain ⟨⟨first, stored⟩, hfirst⟩ := Option.isSome_iff_exists.mp (hpiece start)
    rw [parseEach, hfirst, Option.bind_some]
    by_cases hok : first = .noError
    · subst hok
      rw [if_pos rfl, exists_failsAt_cons_iff hfirst herr, ← ih hrest (start + 1)]
      simp
    · rw [if_neg hok]
      constructor
      · rintro ⟨stored', h⟩
        obtain ⟨rfl, -⟩ := Prod.mk.inj (Option.some_inj.mp h)
        exact ⟨0, failsAt_zero_iff.mpr ⟨stored, hfirst⟩⟩
      · rintro ⟨n, hfails⟩
        cases n with
        | zero =>
          obtain ⟨stored', hfailed⟩ := failsAt_zero_iff.mp hfails
          exact ⟨stored', hfirst.symm.trans hfailed⟩
        | succ n =>
          obtain ⟨stored', h⟩ := hfails.1 0 piece (Nat.succ_pos n) rfl
          rw [add_ofNat_zero, hfirst] at h
          exact absurd (Prod.mk.inj (Option.some_inj.mp h)).1 hok

/-! ## Lists of parameters -/

theorem pieces_cStr (value : Text) : pieces (cStr value) = pieces value := by
  rw [pieces, cStr_eq_self (zero_not_mem_cStr value)]
  rfl

/-- The pieces of a value that fits the work buffer. -/
theorem isPiece_of_mem_pieces (hlen : (cStr value).length < 0x1000) (h : piece ∈ pieces value) :
    IsPiece piece ∧ piece.length < 0x1000 := by
  rw [← pieces_cStr] at h
  obtain ⟨hpiece, hle⟩ := isPiece_of_mem (zero_not_mem_cStr value) h
  exact ⟨hpiece, Nat.lt_of_le_of_lt hle hlen⟩

theorem pieces_ne_nil (value : Text) : pieces value ≠ [] := by
  rw [← pieces_cStr]
  rcases exists_first_piece (zero_not_mem_cStr value) with hpiece | ⟨piece, rest, hpiece, hrest, heq⟩
  · rw [pieces_of_isPiece hpiece]
    exact List.cons_ne_nil _ _
  · rw [heq, pieces_append hpiece hrest]
    exact List.cons_ne_nil _ _

theorem elementPlace_of_le (hlist : IsList p) (h : p.ArrayCapacity_U32 ≤ index) :
    elementPlace p index = .error .outOfRange := by
  have hnot : ¬ index < p.ArrayCapacity_U32 := by simpa using h
  simp [elementPlace, hlist.value, hlist.array, hnot]

/-- The call with a piece alone returns, and stores nothing if it fails. -/
theorem parseAlone_cases (hlist : IsList p) (h : IsPiece piece) (hlen : piece.length < 0x1000) (index : UInt32) :
    ∃ result, parseAlone env p parseCallback index piece = some result ∧ (result.1 ≠ .noError → result.2 = []) := by
  rw [parseAlone_eq hlist h hlen]
  cases elementPlace p index with
  | error err => exact ⟨_, rfl, fun _ => rfl⟩
  | ok place => exact ⟨_, rfl, (parseElement_error hlist.regexp).2⟩

/-- The first index behind the array is out of range. -/
theorem failsAt_of_fillsCapacity (hlist : IsList p) (hlen : (cStr value).length < 0x1000)
    (h : FillsCapacity env p parseCallback start value) :
    FailsAt (parseAlone env p parseCallback) start (pieces value) (p.ArrayCapacity_U32.toNat - start.toNat)
      .outOfRange := by
  obtain ⟨hmore, hfit⟩ := h
  have hpos := List.length_pos_iff.mpr (pieces_ne_nil value)
  have hlt : p.ArrayCapacity_U32.toNat - start.toNat < (pieces value).length := by omega
  obtain ⟨hpiece, hshort⟩ := isPiece_of_mem_pieces hlen (List.getElem_mem hlt)
  have hindex : p.ArrayCapacity_U32 ≤ start + UInt32.ofNat (p.ArrayCapacity_U32.toNat - start.toNat) := by
    have hcap := p.ArrayCapacity_U32.toNat_lt
    have hstart := start.toNat_lt
    rw [UInt32.le_iff_toNat_le, UInt32.toNat_add, UInt32.toNat_ofNat']
    omega
  refine ⟨fun i piece hi hget => hfit i piece hget (by omega), _, [], List.getElem?_eq_getElem hlt, ?_⟩
  rw [parseAlone_eq hlist hpiece hshort, elementPlace_of_le hlist hindex]

/-- A call that is out of range fills the array, or a piece in it is out of range. -/
theorem failsAt_outOfRange_iff (hlist : IsList p) (hlen : (cStr value).length < 0x1000) :
    (∃ n, FailsAt (parseAlone env p parseCallback) start (pieces value) n .outOfRange) ↔
      FillsCapacity env p parseCallback start value ∨
        ∃ n, start.toNat + n < p.ArrayCapacity_U32.toNat ∧
          FirstFailure env p parseCallback start value n .outOfRange := by
  constructor
  · intro ⟨n, hfails⟩
    by_cases hn : start.toNat + n < p.ArrayCapacity_U32.toNat
    · exact .inr ⟨n, hn, nofun, hfails⟩
    · obtain ⟨hbefore, piece, stored, hget, -⟩ := hfails
      obtain ⟨hlt, -⟩ := List.getElem?_eq_some_iff.mp hget
      exact .inl ⟨by omega, fun i piece hi hfit => hbefore i piece (by omega) hi⟩
  · rintro (hfills | ⟨n, -, -, hfails⟩)
    · exact ⟨_, failsAt_of_fillsCapacity hlist hlen hfills⟩
    · exact ⟨n, hfails⟩

/-- A list is parsed element by element, unless it is one of dates or a callback accepts errors or looks at the text. -/
theorem parse_elementwise (env : ParameterEnv D Tm) (p : BofParameter D) (parseCallback : Option ParseCallback)
    (start : UInt32) (value : Text) (hlist : IsList p) (htype : ¬ IsDateTime p.ArgType_E)
    (hcallback : KeepsErrors parseCallback) (hlen : (cStr value).length < 0x1000) :
    ParsesElementwise env p parseCallback start value := by
  have hzero := zero_not_mem_cStr value
  have halone (index : UInt32) : ∀ piece ∈ pieces value, (parseAlone env p parseCallback index piece).isSome := by
    intro piece hmem
    obtain ⟨hpiece, hshort⟩ := isPiece_of_mem_pieces hlen hmem
    obtain ⟨result, hresult, -⟩ := @parseAlone_cases _ _ env p parseCallback _ hlist hpiece hshort index
    rw [hresult]
    rfl
  have heach : parse env p parseCallback start (some value) =
      parseEach (parseAlone env p parseCallback) start (pieces value) := by
    obtain ⟨hremaining, hindex, hstored⟩ := @remaining_parseStart _ Tm _ _ hlist hzero start
    have hcount := length_pieces_le hzero
    rw [pieces_cStr] at hremaining hcount
    simp only [parse, Option.isNone_some, Option.getD_some, if_pos hlen]
    rw [loop_eq_parseEach hlist htype hcallback hremaining (fun piece h => isPiece_of_mem_pieces hlen h) hcount, hindex,
      hstored]
    simp
  refine ⟨heach, ?_, fun index piece err stored hmem hfails herr => ?_, ?_⟩
  · rw [heach]
    exact parseEach_isSome halone start
  · obtain ⟨hpiece, hshort⟩ := isPiece_of_mem_pieces hlen hmem
    obtain ⟨result, hresult, hempty⟩ := @parseAlone_cases _ _ env p parseCallback _ hlist hpiece hshort index
    obtain rfl := Option.some_inj.mp (hresult.symm.trans hfails)
    exact hempty herr
  · rw [heach]
    have herr : BofErr.outOfRange ≠ .noError := nofun
    exact (parseEach_error_iff halone herr start).trans (failsAt_outOfRange_iff hlist hlen)

theorem parse_elementwise_uint8 :
    ParsesElementwise decimalEnv (arrayParameter (.integer .uint8) 1 10) none 0 ("1,2,30".toList.map Char.toUInt8) :=
  parse_elementwise _ _ _ _ _ ⟨rfl, by decide, by decide, by decide⟩ (by simp [IsDateTime, arrayParameter]) nofun
    (by decide +kernel)

/-- The third piece does not fit. -/
example : parse decimalEnv (arrayParameter (.integer .uint8) 1 10) none 2 (some ("3,4,5".toList.map Char.toUInt8)) =
    some (.outOfRange, [(.offset 32, .number .uint8 3), (.offset 48, .number .uint8 4)]) := by decide +kernel

/-- A number that is out of range is an error of the piece. Dates are read from the whole list, and a callback that
accepts an error leaves the number of the piece before. -/
theorem parse_not_elementwise :
    (∃ stored, parse decimalEnv (arrayParameter (.integer .uint8) 1 10) none 0 (some ("20".toList.map Char.toUInt8)) =
        some (.outOfRange, stored)) ∧
      ¬ FillsCapacity decimalEnv (arrayParameter (.integer .uint8) 1 10) none 0 ("20".toList.map Char.toUInt8) ∧
      parse decimalEnv (arrayParameter .date 0 0) none 0 (some ("2024-01-01,2024-02-02".toList.map Char.toUInt8)) ≠
        parseEach (parseAlone decimalEnv (arrayParameter .date 0 0) none) 0
          (pieces ("2024-01-01,2024-02-02".toList.map Char.toUInt8)) ∧
      parse decimalEnv (arrayParameter (.integer .uint8) 0 0) (some fun _ _ _ => .noError) 0
          (some ("1,x".toList.map Char.toUInt8)) ≠
        parseEach (parseAlone decimalEnv (arrayParameter (.integer .uint8) 0 0) (some fun _ _ _ => .noError)) 0
          (pieces ("1,x".toList.map Char.toUInt8)) := by
  refine ⟨⟨[], by decide +kernel⟩, fun h => ?_, by decide +kernel, by decide +kernel⟩
  exact absurd h.1 (by decide +kernel)

end BofParameter

end BofStd
