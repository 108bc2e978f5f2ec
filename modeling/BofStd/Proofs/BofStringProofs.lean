import Mathlib.Data.Bool.AllAny
import Mathlib.Order.Nat
import BofStd.BofStringSpec
import BofStd.Proofs.PathReduceProofs

/-!
# Functions on strings: replacement, split and join

A round of either loop looks for the next occurrence behind what is done, puts the new string in its place, and goes on
behind it, so that only the part that was not touched is ever searched. The empty string is found wherever the loop is,
so that it never comes to the end.

`Bof_StringSplit` keeps the start of the piece and the next delimiter; what it has pushed so far and the pieces of the
rest are the pieces of the whole string. So it is the cut of the library, and `Bof_StringJoin` its intercalation.
-/

/-! ## Replacement -/

namespace BofStd.BofString

open StdString Replace

variable {s str new done rest t : Text} {pos rounds : Nat} {edit : Text → Nat → Text}

theorem find_append (done rest str : Text) :
    find (done ++ rest) str done.length = (firstOccurrence str rest).map (done.length + ·) := by
  rw [find, if_pos (List.length_append ▸ Nat.le_add_right _ _), List.drop_left]

theorem replace_append (pre str rest new : Text) :
    replace (pre ++ str ++ rest) pre.length str.length new = pre ++ new ++ rest := by
  rw [replace, ← List.length_append, List.drop_left, List.append_assoc pre str rest, List.take_left]

theorem insert_erase_append (pre str rest new : Text) :
    StdString.insert (erase (pre ++ str ++ rest) pre.length str.length) pre.length new = pre ++ new ++ rest := by
  rw [StdString.insert, erase, ← List.length_append, List.drop_left, List.append_assoc pre str rest, List.take_left,
    List.take_left, List.drop_left]

/-- The loop replaces the leftmost occurrences in what is not done yet. -/
theorem replaceLoop_spec (hstr : str ≠ [])
    (hedit : ∀ pre rest, edit (pre ++ str ++ rest) pre.length = pre ++ new ++ rest) (rounds : Nat)
    (done rest : Text) (hrounds : rest.length < rounds) :
    ∃ t, replaceLoop edit str new.length rounds (done ++ rest) done.length = some (done ++ t) ∧
      Replaces str new rest t := by
  induction rounds generalizing done rest with
  | zero => exact absurd hrounds (Nat.not_lt_zero _)
  | succ rounds ih =>
    rw [replaceLoop, find_append]
    cases hfirst : firstOccurrence str rest with
    | none => exact ⟨rest, rfl, .absent rest (firstOccurrence_eq_none hfirst)⟩
    | some i =>
      obtain ⟨pre, behind, rfl, rfl, hleast⟩ := firstOccurrence_eq_some hfirst
      have hlen : 0 < str.length := List.length_pos_iff.mpr hstr
      have hrounds' : behind.length < rounds := by
        rw [List.length_append, List.length_append] at hrounds
        omega
      obtain ⟨t, ht, hreplaces⟩ := ih (done ++ pre ++ new) behind hrounds'
      refine ⟨pre ++ new ++ t, ?_, .first pre behind t hleast hreplaces⟩
      have hround : edit (done ++ (pre ++ str ++ behind)) (done.length + pre.length) =
          done ++ pre ++ new ++ behind := by
        rw [← List.length_append, ← List.append_assoc, ← List.append_assoc, hedit]
      rw [Option.map_some]
      simp only [hround]
      rw [← List.length_append, ← List.length_append, ht, List.append_assoc, List.append_assoc, ← List.append_assoc pre]

/-- The empty string is found at every position, and the position never comes closer to the end. -/
theorem replaceLoop_nil (hedit : ∀ s pos, pos ≤ s.length → pos + new.length ≤ (edit s pos).length) (rounds : Nat)
    (s : Text) (pos : Nat) (hpos : pos ≤ s.length) : replaceLoop edit [] new.length rounds s pos = none := by
  induction rounds generalizing s pos with
  | zero => rfl
  | succ rounds ih =>
    rw [replaceLoop, find, if_pos hpos, firstOccurrence_nil, Option.map_some]
    exact ih (edit s pos) (pos + new.length) (hedit s pos hpos)

theorem stringTokenReplace_spec (hstr : str ≠ []) (s new : Text) :
    ∃ t, stringTokenReplace (s.length + 1) s str new = some t ∧ Replaces str new s t := by
  refine replaceLoop_spec hstr ?_ (s.length + 1) [] s (Nat.lt_succ_self _)
  intro pre rest
  exact replace_append pre str rest new

theorem stringReplace_spec (hstr : str ≠ []) (s new : Text) :
    ∃ t, stringReplace (s.length + 1) s str new = some t ∧ Replaces str new s t := by
  unfold stringReplace
  by_cases hlen : str.length ≤ s.length
  · simp only [if_pos hlen]
    refine replaceLoop_spec hstr ?_ (s.length + 1) [] s (Nat.lt_succ_self _)
    intro pre rest
    by_cases hsize : str.length = new.length
    · simp only [if_pos hsize]
      exact replace_append pre str rest new
    · simp only [if_neg hsize]
      exact insert_erase_append pre str rest new
  · -- the string to replace is longer than the text
    simp only [if_neg hlen]
    exact ⟨s, rfl, .absent s fun hinfix => hlen hinfix.length_le⟩

theorem stringTokenReplace_nil (rounds : Nat) (s new : Text) : stringTokenReplace rounds s [] new = none := by
  refine replaceLoop_nil ?_ rounds s 0 (Nat.zero_le _)
  intro s pos hpos
  rw [replace, List.length_append, List.length_append, List.length_take_of_le hpos]
  omega

/-- Both replacements end, with the same string, exactly if the string to replace is not empty. -/
theorem replaceAlike_iff (s str new : Text) : ReplaceAlike s str new ↔ str ≠ [] := by
  constructor
  · rintro ⟨t, -, ⟨rounds, hrun⟩, -⟩ rfl
    rw [stringTokenReplace_nil] at hrun
    cases hrun
  · intro hstr
    obtain ⟨t, hrun, hreplaces⟩ := stringReplace_spec hstr s new
    obtain ⟨u, hrun', hreplaces'⟩ := stringTokenReplace_spec hstr s new
    obtain rfl := hreplaces.unique hreplaces'
    exact ⟨t, ⟨_, hrun⟩, ⟨_, hrun'⟩, fun _ => hreplaces⟩

/-- The empty string is replaced by itself for ever. -/
theorem not_replaceAlike_empty : ¬ ReplaceAlike ['a'.toUInt8] [] [] := by
  rintro ⟨t, -, ⟨rounds, hrun⟩, -⟩
  rw [stringTokenReplace_nil] at hrun
  cases hrun

end BofStd.BofString

/-! ## Split and join -/

namespace BofStd.BofString

open StdString

variable {s splitDelimiter : Text} {pos e startPos endPos : Nat}

theorem findFirstOf_eq_none (h : findFirstOf s splitDelimiter pos = none) : ∀ c ∈ s.drop pos, c ∉ splitDelimiter := by
  intro c hc
  exact of_decide_eq_false (List.findIdx?_eq_none_iff.mp (Option.map_eq_none_iff.mp h) c hc)

/-- The first delimiter from a position on. -/
theorem findFirstOf_eq_some (h : findFirstOf s splitDelimiter pos = some e) :
    ∃ pre d, s.drop pos = pre ++ d :: s.drop (e + 1) ∧ e = pos + pre.length ∧ d ∈ splitDelimiter ∧
      ∀ c ∈ pre, c ∉ splitDelimiter := by
  obtain ⟨i, hi, rfl⟩ := Option.map_eq_some_iff.mp h
  obtain ⟨hlt, hd, hbefore⟩ := List.findIdx?_eq_some_iff_getElem.mp hi
  have hlen : ((s.drop pos).take i).length = i := List.length_take_of_le hlt.le
  refine ⟨(s.drop pos).take i, (s.drop pos)[i], ?_, by rw [hlen], of_decide_eq_true hd, ?_⟩
  · rw [Nat.add_assoc, ← List.drop_drop, List.getElem_cons_drop, List.take_append_drop]
  · intro c hc
    obtain ⟨j, hj, rfl⟩ := List.mem_take_iff_getElem.mp hc
    exact fun hmem => hbefore j (lt_of_lt_of_le hj (Nat.min_le_left _ _)) (decide_eq_true hmem)

/-- The loop pushes the pieces of what begins at `startPos`. -/
theorem splitLoop_eq (rounds startPos : Nat) (rts : List Text)
    (hend : findFirstOf s splitDelimiter startPos = some endPos) (hrounds : s.length ≤ startPos + rounds) :
    splitLoop s splitDelimiter rounds startPos endPos rts =
      some (rts ++ (s.drop startPos).splitOnP fun c => c ∈ splitDelimiter) := by
  induction rounds generalizing startPos endPos rts with
  | zero =>
    obtain ⟨pre, d, hdrop, -⟩ := findFirstOf_eq_some hend
    rw [List.drop_of_length_le (Nat.add_zero startPos ▸ hrounds)] at hdrop
    exact absurd hdrop.symm (List.append_ne_nil_of_right_ne_nil _ (List.cons_ne_nil _ _))
  | succ rounds ih =>
    obtain ⟨pre, d, hdrop, rfl, hd, hpre⟩ := findFirstOf_eq_some hend
    have hlen := congrArg List.length hdrop
    rw [List.length_drop, List.length_append, List.length_cons, List.length_drop] at hlen
    have hpiece : substr s startPos (startPos + pre.length - startPos) = some pre := by
      rw [substr, if_pos (by omega), hdrop, Nat.add_sub_cancel_left, List.take_left]
    have hsplit : ((s.drop startPos).splitOnP fun c => c ∈ splitDelimiter) =
        pre :: (s.drop (startPos + pre.length + 1)).splitOnP fun c => c ∈ splitDelimiter := by
      rw [hdrop]
      refine List.splitOnP_append_cons_of_forall_mem ?_ d (decide_eq_true hd) _
      intro c hc
      exact decide_eq_false (hpre c hc)
    rw [splitLoop, hpiece, Option.bind_some, hsplit]
    cases hnext : findFirstOf s splitDelimiter (startPos + pre.length + 1) with
    | none =>
      have hlast : substr s (startPos + pre.length + 1) s.length = some (s.drop (startPos + pre.length + 1)) := by
        rw [substr, if_pos (by omega), List.take_of_length_le]
        rw [List.length_drop]
        omega
      rw [List.splitOnP_eq_singleton fun c hc => decide_eq_false (findFirstOf_eq_none hnext c hc)]
      simp only [hlast, Option.map_some, List.append_assoc, List.singleton_append]
    | some endPos' =>
      have hloop := ih (startPos + pre.length + 1) (rts ++ [pre]) hnext (by omega)
      rw [List.append_assoc, List.singleton_append] at hloop
      exact hloop

/-- `Bof_StringSplit` cuts at every delimiter. -/
theorem stringSplit_eq (s splitDelimiter : Text) :
    stringSplit s splitDelimiter = some (BofStd.stringSplit s splitDelimiter) := by
  rw [stringSplit, BofStd.stringSplit]
  cases hend : findFirstOf s splitDelimiter 0 with
  | none =>
    have hnone := findFirstOf_eq_none hend
    rw [List.drop_zero] at hnone
    rw [List.splitOnP_eq_singleton fun c hc => decide_eq_false (hnone c hc)]
  | some endPos => exact splitLoop_eq s.length 0 [] hend (Nat.le_add_left _ _)

theorem joinLoop_eq (joinDelimiter : Text) (ts : List Text) (rts : Text) :
    joinLoop joinDelimiter ts rts = rts ++ joinDelimiter.intercalate ts := by
  induction ts generalizing rts with
  | nil => rw [joinLoop, List.intercalate_nil, List.append_nil]
  | cons t ts ih =>
    cases ts with
    | nil => rw [joinLoop, List.intercalate_singleton]
    | cons u us =>
      rw [joinLoop, ih, List.intercalate_cons_cons, List.append_assoc, List.append_assoc, List.append_assoc]

theorem stringJoin_eq (ts : List Text) (d : UInt8) : stringJoin ts [d] = BofStd.stringJoin ts d := joinLoop_eq [d] ts []

/-- Splitting and joining undo each other, and a split cuts at every delimiter. -/
theorem stringSplit_stringJoin : SplitsAndJoins where
  join_split := by
    intro s d
    refine ⟨_, stringSplit_eq s [d], ?_⟩
    rw [stringJoin_eq, stringSplit_singleton, BofStd.stringJoin, List.intercalate_splitOn]
  split_join := by
    intro ts d hne hts
    rw [stringSplit_eq, stringJoin_eq, BofStd.stringSplit, BofStd.stringJoin, Tokens.splitOnP_intercalate _ _ hne]
    · exact decide_eq_true List.mem_cons_self
    · intro t ht c hc
      apply decide_eq_false
      intro hmem
      exact hts t ht (List.mem_singleton.mp hmem ▸ hc)
  split := by
    intro s splitDelimiter
    refine ⟨_, stringSplit_eq s splitDelimiter, Tokens.length_splitOnP _ s, ?_⟩
    intro t ht c hc
    exact of_decide_eq_false (Tokens.mem_of_mem_splitOnP ht hc).2

end BofStd.BofString

/-!
# Keys and values in one string

Once every delimiter is the first one and its repetitions are gone, each run is one delimiter. The pieces are then the
keys and the values in turn, but with an empty piece before them if the string begins with a run: in that case the keys
are where the values are looked for.
-/

namespace BofStd.BofString

open StdString

variable {delimiter lead : Text} {sep c d e : UInt8} {pairs : List KeyValue} {pair : KeyValue}
variable {s w rest key name : Text}

/-! ## The delimiters -/

/-- What `std::unique` compares for a character that is not null. -/
def bothAre (d : UInt8) (c₁ c₂ : UInt8) : Bool := c₁ = d && c₂ = d

theorem unique_cons_of_ne (hc : c ≠ d) (s : Text) : unique (bothAre d) (c :: s) = c :: unique (bothAre d) s := by
  cases s with
  | nil => rfl
  | cons e s =>
    have hrel : bothAre d c e = false := by
      rw [bothAre, decide_eq_false hc, Bool.false_and]
    rw [unique, uniqueBehind, hrel, if_neg Bool.false_ne_true, unique]

theorem unique_append_of_notMem (hw : d ∉ w) (s : Text) : unique (bothAre d) (w ++ s) = w ++ unique (bothAre d) s := by
  induction w with
  | nil => rfl
  | cons c w ih =>
    rw [List.mem_cons, not_or] at hw
    rw [List.cons_append, unique_cons_of_ne (Ne.symm hw.1), ih hw.2, List.cons_append]

/-- A run becomes one delimiter. -/
theorem unique_replicate_append (n : Nat) (hs : s.head? ≠ some d) :
    unique (bothAre d) (List.replicate (n + 1) d ++ s) = d :: unique (bothAre d) s := by
  induction n with
  | zero =>
    cases s with
    | nil => rfl
    | cons c s =>
      have hc : c ≠ d := fun heq => hs (heq ▸ rfl)
      have hrel : bothAre d d c = false := by
        rw [bothAre, decide_eq_false hc, Bool.and_false]
      rw [List.replicate_one, List.singleton_append, unique, uniqueBehind, hrel, if_neg Bool.false_ne_true, unique]
  | succ n ih =>
    have hrel : bothAre d d d = true := by
      rw [bothAre, decide_eq_true rfl, Bool.and_self]
    rw [← ih, List.replicate_succ, List.replicate_succ, List.cons_append, List.cons_append, unique, uniqueBehind, hrel,
      if_pos rfl, unique]

/-- What is left of a run. -/
def oneOf (d : UInt8) (run : Text) : Text := if run = [] then [] else [d]

/-- A text without delimiters is not changed. -/
theorem stringReplaceChar_eq_self (hw : ∀ c ∈ w, strchr delimiter c = false) (d : UInt8) :
    stringReplaceChar w delimiter d = w := by
  have hsame : ∀ c ∈ w, (if strchr delimiter c then d else c) = c := by
    intro c hc
    rw [hw c hc, if_neg Bool.false_ne_true]
  rw [stringReplaceChar, List.map_congr_left hsame, List.map_id']

/-- In a run every character becomes the first delimiter. -/
theorem stringReplaceChar_run (hw : ∀ c ∈ w, strchr delimiter c) (d : UInt8) :
    stringReplaceChar w delimiter d = List.replicate w.length d := by
  rw [List.eq_replicate_iff]
  refine ⟨List.length_map _, ?_⟩
  intro c hc
  obtain ⟨e, he, rfl⟩ := List.mem_map.mp hc
  rw [if_pos (hw e he)]

theorem stringReplaceChar_append (w s delimiter : Text) (d : UInt8) :
    stringReplaceChar (w ++ s) delimiter d = stringReplaceChar w delimiter d ++ stringReplaceChar s delimiter d :=
  List.map_append

/-- A run that is followed by no delimiter becomes one delimiter. -/
theorem unique_run_append (n : Text) (hs : s.head? ≠ some d) :
    unique (bothAre d) (List.replicate n.length d ++ s) = oneOf d n ++ unique (bothAre d) s := by
  cases n with
  | nil => rfl
  | cons c n => exact unique_replicate_append n.length hs

/-- All repetitions are removed for the null byte; here they are those of the null byte. -/
theorem unique_eq_of_isChain (hs : s.IsChain fun c₁ c₂ => c₁ = c₂ → c₁ = 0) :
    unique (fun c₁ c₂ => c₁ = c₂) s = unique (bothAre 0) s := by
  cases s with
  | nil => rfl
  | cons c s =>
    rw [unique, unique]
    induction s generalizing c with
    | nil => rfl
    | cons d s ih =>
      obtain ⟨hcd, hs⟩ := List.isChain_cons_cons.mp hs
      rw [uniqueBehind, uniqueBehind]
      by_cases heq : c = d
      · -- a null byte behind a null byte
        have hboth : bothAre 0 c d = true := by
          rw [bothAre, ← heq, hcd heq]
          rfl
        rw [if_pos (decide_eq_true heq), if_pos hboth, heq, ih d hs]
      · have hboth : ¬ bothAre 0 c d = true := by
          rw [bothAre, Bool.and_eq_true, decide_eq_true_eq, decide_eq_true_eq]
          exact fun h => heq (h.1.trans h.2.symm)
        rw [decide_eq_false heq, if_neg Bool.false_ne_true, if_neg hboth, ih d hs]

/-- Fold the delimiters into one and each run into one. -/
def fold (s delimiter : Text) (d : UInt8) : Text := unique (bothAre d) (stringReplaceChar s delimiter d)

/-- What the two calls do to a text that is seen as it is. -/
theorem SeenWhole.fold_eq {ds text : Text} (h : SeenWhole (d :: ds) text) :
    removeDuplicateSuccessiveCharacter (stringReplaceChar text (d :: ds) d) d = fold text (d :: ds) d := by
  rw [removeDuplicateSuccessiveCharacter, fold]
  by_cases hzero : d = 0
  · subst hzero
    -- nothing is found but the null byte, which is replaced by itself
    have hself : stringReplaceChar text (0 :: ds) 0 = text := by
      have hsame : ∀ c ∈ text, (if strchr (0 :: ds) c then 0 else c) = c := by
        intro c _
        by_cases hc : c = 0
        · rw [hc, ite_self]
        · rw [strchr, List.takeWhile_cons_of_neg (by simp), decide_eq_false hc]
          rfl
      rw [stringReplaceChar, List.map_congr_left hsame, List.map_id']
    rw [if_pos rfl, hself, unique_eq_of_isChain (h.repeated rfl)]
  · rw [if_neg hzero]
    rfl

/-! ## The pieces -/

/-- What is known of the pairs: the characters of keys and values, and that runs are missing at the end only. -/
structure Readable (delimiter : Text) (sep : UInt8) (pairs : List KeyValue) : Prop where
  key_ne : ∀ pair ∈ pairs, pair.key ≠ []
  seen : ∀ pair ∈ pairs, ∀ c ∈ pair.key ++ sep :: pair.value, strchr delimiter c = false ∧ c ∉ delimiter
  free : ∀ pair ∈ pairs, sep ∉ pair.key ∧ sep ∉ pair.value
  run : ∀ pair ∈ pairs, ∀ c ∈ pair.run, strchr delimiter c
  between : ∀ pair ∈ pairs.dropLast, pair.run ≠ []

/-- The parts of a pair are parts of the text. -/
theorem mem_format (lead : Text) (hpair : pair ∈ pairs) (hc : c ∈ pair.key ++ sep :: pair.value ++ pair.run) :
    c ∈ format sep lead pairs :=
  List.mem_append_right lead (List.mem_flatMap.mpr ⟨pair, hpair, hc⟩)

theorem IsFormat.readable (hformat : IsFormat delimiter sep lead pairs)
    (hseen : SeenWhole delimiter (format sep lead pairs)) : Readable delimiter sep pairs where
  key_ne := hformat.key_ne
  seen := by
    intro pair hpair c hc
    have hfree : c ∉ delimiter := by
      rcases List.mem_append.mp hc with hc | hc
      · exact (hformat.key pair hpair c hc).1
      · rcases List.mem_cons.mp hc with rfl | hc
        · exact hformat.separator
        · exact (hformat.value pair hpair c hc).1
    have hiff := hseen.seen c (mem_format lead hpair (List.mem_append_left _ hc))
    exact ⟨Bool.eq_false_iff.mpr fun htrue => hfree (hiff.mp htrue), hfree⟩
  free := fun pair hpair =>
    ⟨fun hmem => (hformat.key pair hpair sep hmem).2 rfl, fun hmem => (hformat.value pair hpair sep hmem).2 rfl⟩
  run := fun pair hpair c hc => (hseen.seen c (mem_format lead hpair (List.mem_append_right _ hc))).mpr
    (hformat.run pair.run (List.mem_cons_of_mem lead (List.mem_map_of_mem hpair)) c hc)
  between := hformat.between

theorem Readable.tail (h : Readable delimiter sep (pair :: pairs)) : Readable delimiter sep pairs where
  key_ne := fun p hp => h.key_ne p (List.mem_cons_of_mem pair hp)
  seen := fun p hp => h.seen p (List.mem_cons_of_mem pair hp)
  free := fun p hp => h.free p (List.mem_cons_of_mem pair hp)
  run := fun p hp => h.run p (List.mem_cons_of_mem pair hp)
  between := by
    intro p hp
    cases pairs with
    | nil => exact absurd hp List.not_mem_nil
    | cons q qs => exact h.between p (List.mem_cons_of_mem pair hp)

theorem Readable.eq_nil (h : Readable delimiter sep (pair :: pairs)) (hrun : pair.run = []) : pairs = [] := by
  cases pairs with
  | nil => rfl
  | cons q qs => exact absurd hrun (h.between pair List.mem_cons_self)

/-- The pairs with one delimiter for each run. -/
def folded (d sep : UInt8) (pairs : List KeyValue) : Text :=
  pairs.flatMap fun pair => pair.key ++ sep :: pair.value ++ oneOf d pair.run

/-- The keys and the values in turn. -/
def pieces : List KeyValue → List Text
  | [] => [[]]
  | pair :: pairs => pair.key :: pair.value :: if pair.run = [] then [] else pieces pairs

theorem Readable.head_ne (h : Readable delimiter sep pairs) (hd : d ∈ delimiter) :
    (stringReplaceChar (format sep [] pairs) delimiter d).head? ≠ some d := by
  cases pairs with
  | nil => nofun
  | cons pair pairs =>
    obtain ⟨c, key, hkey⟩ := List.exists_cons_of_ne_nil (h.key_ne pair List.mem_cons_self)
    obtain ⟨hseen, hfree⟩ := h.seen pair List.mem_cons_self c (List.mem_append_left _ (hkey ▸ List.mem_cons_self))
    have hne : c ≠ d := fun heq => hfree (heq ▸ hd)
    rw [format, List.nil_append, List.flatMap_cons, hkey, stringReplaceChar, List.cons_append, List.cons_append,
      List.cons_append, List.map_cons, List.head?_cons, hseen, if_neg Bool.false_ne_true]
    exact fun heq => hne (Option.some.inj heq)

theorem Readable.fold_eq (h : Readable delimiter sep pairs) (hd : d ∈ delimiter) :
    fold (format sep [] pairs) delimiter d = folded d sep pairs := by
  induction pairs with
  | nil => rfl
  | cons pair pairs ih =>
    have hseen := h.seen pair List.mem_cons_self
    have ih := ih h.tail
    have hhead := h.tail.head_ne hd
    rw [fold, format, List.nil_append] at ih
    rw [format, List.nil_append] at hhead
    -- the key, the separator and the value as one text without delimiters
    rw [fold, format, List.nil_append, List.flatMap_cons, stringReplaceChar_append, stringReplaceChar_append,
      stringReplaceChar_eq_self fun c hc => (hseen c hc).1, stringReplaceChar_run (h.run pair List.mem_cons_self),
      List.append_assoc, unique_append_of_notMem (fun hmem => (hseen d hmem).2 hd), unique_run_append _ hhead, ih,
      folded, folded, List.flatMap_cons, List.append_assoc (pair.key ++ sep :: pair.value)]

/-- The run before the first pair becomes one delimiter. -/
theorem Readable.fold_lead (h : Readable delimiter sep pairs) (hd : d ∈ delimiter)
    (hlead : ∀ c ∈ lead, strchr delimiter c) :
    fold (format sep lead pairs) delimiter d = oneOf d lead ++ folded d sep pairs := by
  have hhead := h.head_ne hd
  rw [format, List.nil_append] at hhead
  rw [← h.fold_eq hd, fold, fold, format, format, List.nil_append, stringReplaceChar_append,
    stringReplaceChar_run hlead, unique_run_append _ hhead]

theorem Readable.split_folded (h : Readable delimiter sep pairs) (hd : d ∈ delimiter) :
    BofStd.stringSplit (folded d sep pairs) [d, sep] = pieces pairs := by
  induction pairs with
  | nil => rfl
  | cons pair pairs ih =>
    have hseen := h.seen pair List.mem_cons_self
    obtain ⟨hkeyfree, hvaluefree⟩ := h.free pair List.mem_cons_self
    have hfree : ∀ w : Text, (∀ c ∈ w, c ∈ pair.key ++ sep :: pair.value) → sep ∉ w →
        ∀ c ∈ w, decide (c ∈ [d, sep]) = false := by
      intro w hw hsep c hc
      apply decide_eq_false
      intro hmem
      rcases List.mem_cons.mp hmem with rfl | hmem
      · exact (hseen c (hw c hc)).2 hd
      · exact hsep (List.mem_singleton.mp hmem ▸ hc)
    have hkey := hfree pair.key (fun c hc => List.mem_append_left _ hc) hkeyfree
    have hvalue := hfree pair.value (fun c hc => List.mem_append_right _ (List.mem_cons_of_mem sep hc)) hvaluefree
    have hsep : decide (sep ∈ [d, sep]) = true := decide_eq_true (List.mem_cons_of_mem d List.mem_cons_self)
    rw [BofStd.stringSplit, folded, List.flatMap_cons, List.append_assoc, List.append_assoc, List.cons_append,
      List.splitOnP_append_cons_of_forall_mem hkey sep hsep, pieces]
    congr 1
    by_cases hrun : pair.run = []
    · rw [h.eq_nil hrun, oneOf, if_pos hrun, if_pos hrun, List.flatMap_nil, List.append_nil, List.append_nil,
        List.splitOnP_eq_singleton hvalue]
    · rw [oneOf, if_neg hrun, if_neg hrun, List.singleton_append,
        List.splitOnP_append_cons_of_forall_mem hvalue d (decide_eq_true List.mem_cons_self)]
      exact congrArg (pair.value :: ·) (ih h.tail)

/-! ## The lookup -/

/-- The pieces two at a time. -/
def inPairs : List Text → List (Text × Text)
  | key :: value :: ts => (key, value) :: inPairs ts
  | _ => []

theorem lookup_cons (key v : Text) (l : List (Text × Text)) (name value : Text) :
    lookup ((key, v) :: l) name value = if stringTrim key = name then (.noError, v) else lookup l name value := by
  unfold lookup
  rw [List.find?_cons]
  by_cases hkey : stringTrim key = name
  · rw [decide_eq_true hkey, if_pos hkey]
  · rw [decide_eq_false hkey, if_neg hkey]

/-- The pieces that are taken for keys. -/
def names : List Text → List Text
  | [] => []
  | [key] => [key]
  | key :: _ :: ts => key :: names ts

theorem getElem?_names (ts : List Text) (k : Nat) : (names ts)[k]? = ts[2 * k]? := by
  induction ts using names.induct generalizing k with
  | case1 => rfl
  | case2 key =>
    cases k with
    | zero => rfl
    | succ k => rfl
  | case3 key v ts ih =>
    cases k with
    | zero => rfl
    | succ k => exact ih k

/-- The loop looks at the pieces from its index on, two at a time, if the index does not wrap before it stops. -/
theorem keyValueLoop_eq {ts : List Text} {n : Nat} (hn : n < 2 ^ 31)
    (hstop : ∀ t, ts[2 * n]? = some t → stringTrim t = name) (value : Text) (rounds k : Nat)
    (hrounds : n < k + rounds) (hk : k ≤ n) :
    keyValueLoop ts name rounds (2 * k) value = some (lookup (inPairs (ts.drop (2 * k))) name value) := by
  induction rounds generalizing k with
  | zero => exact absurd hrounds (Nat.not_lt.mpr hk)
  | succ rounds ih =>
    rw [keyValueLoop]
    cases hkey : ts[2 * k]? with
    | none =>
      rw [List.drop_of_length_le (List.getElem?_eq_none_iff.mp hkey)]
      rfl
    | some key =>
      obtain ⟨hlt, rfl⟩ := List.getElem?_eq_some_iff.mp hkey
      have hnext : u32 (2 * k + 1) = 2 * k + 1 := u32_of_lt (by omega)
      dsimp only
      rw [hnext, List.drop_eq_getElem_cons hlt]
      by_cases hname : stringTrim ts[2 * k] = name
      · rw [if_pos hname]
        cases hv : ts[2 * k + 1]? with
        | none =>
          -- a last piece without a value
          rw [List.drop_of_length_le (List.getElem?_eq_none_iff.mp hv)]
          rfl
        | some v =>
          obtain ⟨hlt', rfl⟩ := List.getElem?_eq_some_iff.mp hv
          rw [List.drop_eq_getElem_cons hlt', inPairs, lookup_cons, if_pos hname]
      · have hkn : k < n := lt_of_le_of_ne hk fun heq => hname (hstop _ (heq ▸ hkey))
        have hnext' : u32 (2 * k + 2) = 2 * (k + 1) := u32_of_lt (by omega)
        rw [if_neg hname, hnext', ih (k + 1) (by omega) hkn]
        cases hv : ts[2 * k + 1]? with
        | none =>
          have hlen := List.getElem?_eq_none_iff.mp hv
          rw [List.drop_of_length_le hlen, Nat.mul_succ, List.drop_of_length_le (Nat.le_succ_of_le hlen)]
          rfl
        | some v =>
          obtain ⟨hlt', rfl⟩ := List.getElem?_eq_some_iff.mp hv
          rw [List.drop_eq_getElem_cons hlt', inPairs, lookup_cons, if_neg hname]
          rfl

/-- Without the name among the first pieces the index wraps, and the loop begins again. -/
theorem keyValueLoop_eq_none {ts : List Text} (h : ∀ k < 2 ^ 31, ∃ t, ts[2 * k]? = some t ∧ stringTrim t ≠ name)
    (value : Text) (rounds k : Nat) (hk : k < 2 ^ 31) : keyValueLoop ts name rounds (2 * k) value = none := by
  induction rounds generalizing k with
  | zero => rfl
  | succ rounds ih =>
    obtain ⟨key, hkey, hname⟩ := h k hk
    rw [keyValueLoop, hkey]
    dsimp only
    rw [if_neg hname]
    by_cases hlast : k + 1 < 2 ^ 31
    · rw [u32_of_lt (by omega)]
      exact ih (k + 1) hlast
    · have hwrap : u32 (2 * k + 2) = 2 * 0 := by
        rw [u32_eq_mod]
        omega
      rw [hwrap]
      exact ih 0 (by decide)

/-- Where there is the name there is a first one. -/
theorem exists_isFirst {texts : List Text} {k : Nat} (ht : texts[k]? = some w) (hname : stringTrim w = name) :
    ∃ i ≤ k, IsFirst texts name i := by
  classical
  have hex : ∃ i t, texts[i]? = some t ∧ stringTrim t = name := ⟨k, w, ht, hname⟩
  refine ⟨Nat.find hex, Nat.find_min' hex ⟨w, ht, hname⟩, Nat.find_spec hex, ?_⟩
  intro j hj t hjt hjname
  exact Nat.find_min hex hj ⟨t, hjt, hjname⟩

theorem Readable.inPairs_pieces (h : Readable delimiter sep pairs) : inPairs (pieces pairs) = keyValues pairs := by
  induction pairs with
  | nil => rfl
  | cons pair pairs ih =>
    rw [pieces, keyValues, List.map_cons]
    by_cases hrun : pair.run = []
    · rw [if_pos hrun, h.eq_nil hrun]
      rfl
    · rw [if_neg hrun, inPairs, ih h.tail]
      rfl

theorem Readable.names_pieces (h : Readable delimiter sep pairs) : names (pieces pairs) = keyPlaces pairs := by
  induction pairs with
  | nil => rfl
  | cons pair pairs ih =>
    rw [pieces, keyPlaces, names]
    split
    · rfl
    · rw [ih h.tail]

/-- Behind an empty piece the values are taken for keys. -/
theorem Readable.names_cons_pieces (h : Readable delimiter sep pairs) (before : Text) :
    names (before :: pieces pairs) = before :: pairs.map KeyValue.value := by
  induction pairs generalizing before with
  | nil => rfl
  | cons pair pairs ih =>
    rw [pieces, names, List.map_cons]
    by_cases hrun : pair.run = []
    · rw [if_pos hrun, h.eq_nil hrun]
      rfl
    · rw [if_neg hrun, ih h.tail]

/-- And the keys for values. -/
theorem Readable.inPairs_cons_pieces (h : Readable delimiter sep pairs) (before : Text) :
    inPairs (before :: pieces pairs) = (before :: pairs.map KeyValue.value).zip (keyPlaces pairs) := by
  induction pairs generalizing before with
  | nil => rfl
  | cons pair pairs ih =>
    rw [pieces, inPairs, keyPlaces, List.zip_cons_cons, List.map_cons]
    by_cases hrun : pair.run = []
    · rw [if_pos hrun, if_pos hrun, List.zip_nil_right]
      rfl
    · rw [if_neg hrun, if_neg hrun, ih h.tail]

/-- A call is the loop over the keys and values, or, behind a run at the start, over an empty text and these. -/
theorem getString_eq (hformat : IsFormat delimiter sep lead pairs)
    (hseen : SeenWhole delimiter (format sep lead pairs)) (name value : Text) (rounds : Nat) :
    getStringFromMultipleKeyValueString rounds (format sep lead pairs) delimiter name sep value =
      keyValueLoop (if lead = [] then pieces pairs else [] :: pieces pairs) name rounds 0 value := by
  obtain ⟨d, ds, rfl⟩ := List.exists_cons_of_ne_nil hformat.delimiter_ne
  have hd : d ∈ d :: ds := List.mem_cons_self
  have hread := hformat.readable hseen
  have hne : d ≠ sep := fun heq => hformat.separator (heq ▸ hd)
  have hlead : ∀ c ∈ lead, strchr (d :: ds) c := fun c hc =>
    (hseen.seen c (List.mem_append_left _ hc)).mpr (hformat.run lead List.mem_cons_self c hc)
  have hsplit := hread.split_folded hd
  rw [getStringFromMultipleKeyValueString]
  simp only [if_pos hne, hseen.fold_eq, hread.fold_lead hd hlead, stringSplit_eq, Option.bind_some]
  by_cases hnil : lead = []
  · rw [oneOf, if_pos hnil, if_pos hnil, List.nil_append, hsplit]
  · -- the pieces begin with an empty one
    have hcut : BofStd.stringSplit (oneOf d lead ++ folded d sep pairs) [d, sep] = [] :: pieces pairs := by
      rw [oneOf, if_neg hnil, ← hsplit, BofStd.stringSplit, BofStd.stringSplit]
      exact List.splitOnP_append_cons_of_forall_mem (fun _ (hc : _ ∈ []) => absurd hc List.not_mem_nil) d
        (decide_eq_true List.mem_cons_self) _
    rw [if_neg hnil, hcut]

/-- More rounds change nothing. -/
theorem keyValueLoop_mono {ts : List Text} {value : Text} {rounds i : Nat} {r : BofErr × Text} (more : Nat)
    (h : keyValueLoop ts name rounds i value = some r) : keyValueLoop ts name (rounds + more) i value = some r := by
  induction rounds generalizing i with
  | zero => cases h
  | succ rounds ih =>
    rw [Nat.succ_add, keyValueLoop]
    rw [keyValueLoop] at h
    cases hkey : ts[i]? with
    | none =>
      rw [hkey] at h
      exact h
    | some key =>
      rw [hkey] at h
      dsimp only at h ⊢
      split
      · rename_i hname
        rwa [if_pos hname] at h
      · rename_i hname
        rw [if_neg hname] at h
        exact ih h

/-- What the loop returns, and when. -/
theorem keyValueLoop_iff (ts : List Text) (name value : Text) (r : BofErr × Text) :
    (∃ rounds, keyValueLoop ts name rounds 0 value = some r) ↔
      IndexSuffices (names ts) name ∧ lookup (inPairs ts) name value = r := by
  by_cases hsuffices : IndexSuffices (names ts) name
  · -- it stops at the end, or at the name
    obtain ⟨n, hn, hstop⟩ : ∃ n < 2 ^ 31, ∀ t, ts[2 * n]? = some t → stringTrim t = name := by
      rcases hsuffices with hlen | ⟨i, hi, hfirst⟩
      · refine ⟨(names ts).length, hlen, fun t ht => ?_⟩
        rw [← getElem?_names, List.getElem?_eq_none le_rfl] at ht
        cases ht
      · obtain ⟨t, ht, hname⟩ := hfirst.named
        refine ⟨i, hi, fun u hu => ?_⟩
        rw [← getElem?_names, ht] at hu
        rwa [← Option.some.inj hu]
    have hrun : keyValueLoop ts name (n + 1) 0 value = some (lookup (inPairs ts) name value) :=
      keyValueLoop_eq hn hstop value (n + 1) 0 (by omega) (Nat.zero_le n)
    rw [and_iff_right hsuffices]
    constructor
    · rintro ⟨rounds, h⟩
      have hmore := keyValueLoop_mono (n + 1) h
      rw [Nat.add_comm, keyValueLoop_mono rounds hrun] at hmore
      exact Option.some.inj hmore
    · rintro rfl
      exact ⟨n + 1, hrun⟩
  · -- the name is not among the first pieces, and these are not all
    have hnames : ∀ k < 2 ^ 31, ∃ t, ts[2 * k]? = some t ∧ stringTrim t ≠ name := by
      intro k hk
      have hlen : k < (names ts).length := lt_of_lt_of_le hk (Nat.not_lt.mp fun hlt => hsuffices (.inl hlt))
      have hget := List.getElem?_eq_getElem hlen
      refine ⟨(names ts)[k], by rw [← getElem?_names, hget], fun hname => ?_⟩
      obtain ⟨i, hi, hfirst⟩ := exists_isFirst hget hname
      exact hsuffices (.inr ⟨i, lt_of_le_of_lt hi hk, hfirst⟩)
    refine iff_of_false ?_ fun h => hsuffices h.1
    rintro ⟨rounds, h⟩
    rw [keyValueLoop_eq_none hnames value rounds 0 (by decide)] at h
    cases h

/-! ## The names and the texts behind them -/

theorem isFirst_cons_of_eq {texts : List Text} {i : Nat} (h : stringTrim w = name) :
    IsFirst (w :: texts) name i ↔ i = 0 := by
  constructor
  · intro hfirst
    by_contra hpos
    exact hfirst.first 0 (Nat.pos_of_ne_zero hpos) w rfl h
  · rintro rfl
    exact ⟨⟨w, rfl, h⟩, fun j hj => absurd hj (Nat.not_lt_zero j)⟩

theorem isFirst_cons_of_ne {texts : List Text} {i : Nat} (h : stringTrim w ≠ name) :
    IsFirst (w :: texts) name i ↔ ∃ j, i = j + 1 ∧ IsFirst texts name j := by
  constructor
  · rintro ⟨⟨t, ht, hname⟩, hfirst⟩
    cases i with
    | zero =>
      obtain rfl := Option.some.inj ht
      exact absurd hname h
    | succ j => exact ⟨j, rfl, ⟨t, ht, hname⟩, fun k hk u hu => hfirst (k + 1) (Nat.succ_lt_succ hk) u hu⟩
  · rintro ⟨j, rfl, ⟨t, ht, hname⟩, hfirst⟩
    refine ⟨⟨t, ht, hname⟩, fun k hk u hu => ?_⟩
    cases k with
    | zero =>
      obtain rfl := Option.some.inj hu
      exact h
    | succ k => exact hfirst k (Nat.lt_of_succ_lt_succ hk) u hu

/-- The text behind the first name is that of the first pair with the name. -/
theorem standsBehind_iff (names texts : List Text) (name text : Text) : StandsBehind names texts name text ↔
    ((names.zip texts).find? fun pair => stringTrim pair.1 = name).map Prod.snd = some text := by
  induction names generalizing texts with
  | nil =>
    refine iff_of_false ?_ nofun
    rintro ⟨i, ⟨⟨t, ht, -⟩, -⟩, -⟩
    cases ht
  | cons w names ih =>
    cases texts with
    | nil =>
      refine iff_of_false ?_ nofun
      rintro ⟨i, -, ht⟩
      cases ht
    | cons t texts =>
      rw [List.zip_cons_cons, List.find?_cons]
      by_cases hname : stringTrim w = name
      · simp only [StandsBehind, isFirst_cons_of_eq hname, exists_eq_left, decide_eq_true hname]
        rfl
      · simp only [StandsBehind, isFirst_cons_of_ne hname, decide_eq_false hname]
        rw [← ih texts]
        constructor
        · rintro ⟨i, ⟨j, rfl, hfirst⟩, ht⟩
          exact ⟨j, hfirst, ht⟩
        · rintro ⟨j, hfirst, ht⟩
          exact ⟨j + 1, ⟨j, rfl, hfirst⟩, ht⟩

/-- Two lookups give the same if the same texts stand behind the first name. -/
theorem lookup_zip_eq_iff (names texts names' texts' : List Text) (name value : Text) :
    lookup (names.zip texts) name value = lookup (names'.zip texts') name value ↔
      ∀ text, StandsBehind names texts name text ↔ StandsBehind names' texts' name text := by
  simp only [standsBehind_iff, lookup]
  generalize (names.zip texts).find? _ = found
  generalize (names'.zip texts').find? _ = found'
  cases found with
  | none =>
    cases found' with
    | none => simp
    | some pair => simp
  | some pair =>
    cases found' with
    | none => simp
    | some pair' => simp [eq_comm]

theorem keyValues_eq_zip (pairs : List KeyValue) :
    keyValues pairs = (pairs.map KeyValue.key).zip (pairs.map KeyValue.value) := by
  rw [keyValues, List.zip_map']

/-- The first pair with the key is found exactly if the index suffices, and the values behind a run at the start, which
are then taken for keys, tell the same. -/
theorem findsFirst_iff (hformat : IsFormat delimiter sep lead pairs)
    (hseen : SeenWhole delimiter (format sep lead pairs)) (name value : Text) :
    FindsFirst delimiter sep lead pairs name value ↔
      if lead = [] then IndexSuffices (keyPlaces pairs) name
      else IndexSuffices (valuePlaces pairs) name ∧ ValuesTellTheSame pairs name := by
  have hread := hformat.readable hseen
  simp only [FindsFirst, getString_eq hformat hseen]
  rw [keyValueLoop_iff]
  by_cases hlead : lead = []
  · rw [if_pos hlead, if_pos hlead, hread.names_pieces, hread.inPairs_pieces, and_iff_left rfl]
  · rw [if_neg hlead, if_neg hlead, hread.names_cons_pieces, hread.inPairs_cons_pieces, keyValues_eq_zip,
      lookup_zip_eq_iff]
    rfl

/-- The pairs of `A=1;;B=2;`. -/
def twoPairs : List KeyValue :=
  [⟨['A'.toUInt8], ['1'.toUInt8], [';'.toUInt8, ';'.toUInt8]⟩, ⟨['B'.toUInt8], ['2'.toUInt8], [';'.toUInt8]⟩]

theorem isFormat_twoPairs {lead : Text} (hlead : ∀ c ∈ lead, c = ';'.toUInt8) :
    IsFormat [';'.toUInt8] '='.toUInt8 lead twoPairs where
  delimiter_ne := by decide
  separator := by decide
  key_ne := by decide
  key := by
    have hne : 'A'.toUInt8 ≠ ';'.toUInt8 ∧ 'A'.toUInt8 ≠ '='.toUInt8 ∧ 'B'.toUInt8 ≠ ';'.toUInt8 ∧
        'B'.toUInt8 ≠ '='.toUInt8 := by decide
    simp [twoPairs, hne]
  value := by
    have hne : '1'.toUInt8 ≠ ';'.toUInt8 ∧ '1'.toUInt8 ≠ '='.toUInt8 ∧ '2'.toUInt8 ≠ ';'.toUInt8 ∧
        '2'.toUInt8 ≠ '='.toUInt8 := by decide
    simp [twoPairs, hne]
  run := by simpa [twoPairs] using hlead
  between := by decide

theorem seenWhole_twoPairs {lead : Text} (hlead : ∀ c ∈ lead, c = ';'.toUInt8) :
    SeenWhole [';'.toUInt8] (format '='.toUInt8 lead twoPairs) where
  seen := by
    have hpairs : ∀ c ∈ twoPairs.flatMap fun pair => pair.key ++ '='.toUInt8 :: pair.value ++ pair.run,
        strchr [';'.toUInt8] c ↔ c ∈ [';'.toUInt8] :=
      List.all_iff_forall_prop.mp (by decide)
    intro c hc
    rcases List.mem_append.mp hc with hc | hc
    · rw [hlead c hc]
      decide
    · exact hpairs c hc
  repeated := by
    intro hzero
    exact absurd hzero (by decide)

theorem findsFirst_iff_twoPairs : FindsFirst [';'.toUInt8] '='.toUInt8 [] twoPairs ['B'.toUInt8] [] ↔
    if ([] : Text) = [] then IndexSuffices (keyPlaces twoPairs) ['B'.toUInt8]
    else IndexSuffices (valuePlaces twoPairs) ['B'.toUInt8] ∧ ValuesTellTheSame twoPairs ['B'.toUInt8] :=
  findsFirst_iff (isFormat_twoPairs (List.forall_mem_nil _)) (seenWhole_twoPairs (List.forall_mem_nil _))
    ['B'.toUInt8] []

/-- Behind a delimiter, the key of the first pair is not found. -/
theorem not_findsFirst_lead : IsFormat [';'.toUInt8] '='.toUInt8 [';'.toUInt8] twoPairs ∧
    ¬ FindsFirst [';'.toUInt8] '='.toUInt8 [';'.toUInt8] twoPairs ['A'.toUInt8] [] := by
  have hlead : ∀ c ∈ [';'.toUInt8], c = ';'.toUInt8 := fun c hc => List.mem_singleton.mp hc
  refine ⟨isFormat_twoPairs hlead, ?_⟩
  simp only [FindsFirst, getString_eq (isFormat_twoPairs hlead) (seenWhole_twoPairs hlead)]
  rw [keyValueLoop_iff]
  exact fun h => absurd h.2 (by decide)

end BofStd.BofString
