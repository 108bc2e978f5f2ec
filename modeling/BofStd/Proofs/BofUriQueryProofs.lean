import BofStd.BofUri
import BofStd.Lib.Tokens
import BofStd.Proofs.UrlCodeProofs

/-!
# The query of a URI

A query that is parsed has the keys and values of the tokens of the decoded text. Printing it gives a text that is no
longer and has the same characters but for the separators, so that a text that decodes to less, or to other
characters, is not what it is parsed from.
-/

namespace BofStd.BofUri

variable {s t : Text} {ts tokens : List Text} {e : Text × Text} {es : List (Text × Text)} {c d x : UInt8} {val : Nat}
  {m q : OrderedMap Text Text}

/-- A query or a fragment is printed behind its mark; if it is empty, the mark can be missing. -/
def Marked (mark : UInt8) (printed part : Text) : Prop := printed = mark :: part ∨ printed = [] ∧ part = []

/-! ## Entries and tokens -/

/-- An entry whose key has no equals sign is read back. -/
theorem parseEntry_printEntry (hkey : '='.toUInt8 ∉ e.1) : parseEntry (printEntry e) = e := by
  unfold printEntry parseEntry
  by_cases hvalue : e.2 ≠ []
  · rw [if_pos hvalue, Tokens.takeWhile_ne_append hkey, Tokens.dropWhile_ne_append hkey]
    rfl
  · rw [if_neg hvalue, Tokens.takeWhile_ne_of_notMem hkey, Tokens.dropWhile_ne_of_notMem hkey]
    rw [not_not] at hvalue
    rw [List.drop_nil, ← hvalue]

/-- A token is its key, or its key, an equals sign and its value. -/
theorem token_cases (t : Text) : '='.toUInt8 ∉ (parseEntry t).1 ∧
    (t = (parseEntry t).1 ∧ (parseEntry t).2 = [] ∨ t = (parseEntry t).1 ++ '='.toUInt8 :: (parseEntry t).2) := by
  refine ⟨Tokens.notMem_takeWhile_ne, ?_⟩
  rcases Tokens.dropWhile_ne_cases '='.toUInt8 t with ⟨hnot, hdrop⟩ | ⟨b, hdrop, ht⟩
  · left
    rw [parseEntry, hdrop, Tokens.takeWhile_ne_of_notMem hnot]
    exact ⟨rfl, rfl⟩
  · right
    rw [parseEntry, hdrop]
    exact ht

/-- Printing what is read from a token can only leave an equals sign out. -/
theorem printEntry_parseEntry (t : Text) : (printEntry (parseEntry t)).length ≤ t.length ∧
    ∀ c, c ≠ '='.toUInt8 → (printEntry (parseEntry t)).count c = t.count c := by
  obtain ⟨-, ht⟩ := token_cases t
  unfold printEntry
  by_cases hvalue : (parseEntry t).2 ≠ []
  · rw [if_pos hvalue]
    have ht := ht.resolve_left fun h => hvalue h.2
    rw [← ht]
    exact ⟨Nat.le_refl _, fun _ _ => rfl⟩
  · rw [if_neg hvalue]
    rcases ht with ⟨ht, -⟩ | ht
    · rw [← ht]
      exact ⟨Nat.le_refl _, fun _ _ => rfl⟩
    · rw [not_not] at hvalue
      rw [hvalue] at ht
      constructor
      · have hlen := congrArg List.length ht
        rw [List.length_append] at hlen
        omega
      · intro c hc
        have hcount := congrArg (List.count c) ht
        rw [List.count_append, List.count_cons_of_ne hc.symm, List.count_nil, Nat.add_zero] at hcount
        exact hcount.symm

theorem mem_of_mem_parseEntry (hc : c ∈ (parseEntry t).1 ++ (parseEntry t).2) : c ∈ t := by
  obtain ⟨-, ⟨ht, hvalue⟩ | ht⟩ := token_cases t
  · rw [hvalue, List.append_nil] at hc
    exact ht ▸ hc
  · rw [ht]
    rcases List.mem_append.mp hc with hc | hc
    · exact List.mem_append_left _ hc
    · exact List.mem_append_right _ (List.mem_cons_of_mem _ hc)

theorem mem_printEntry (hc : c ∈ e.1 ++ e.2) : c ∈ printEntry e := by
  unfold printEntry
  by_cases hvalue : e.2 ≠ []
  · rw [if_pos hvalue]
    rcases List.mem_append.mp hc with hc | hc
    · exact List.mem_append_left _ hc
    · exact List.mem_append_right _ (List.mem_cons_of_mem _ hc)
  · rw [if_neg hvalue]
    rw [not_not] at hvalue
    rwa [hvalue, List.append_nil] at hc

theorem of_mem_printEntry (hc : c ∈ printEntry e) : c = '='.toUInt8 ∨ c ∈ e.1 ++ e.2 := by
  unfold printEntry at hc
  split at hc
  · rcases List.mem_append.mp hc with hc | hc
    · exact .inr (List.mem_append_left _ hc)
    · rcases List.mem_cons.mp hc with hc | hc
      · exact .inl hc
      · exact .inr (List.mem_append_right _ hc)
  · exact .inr (List.mem_append_left _ hc)

theorem printEntry_eq_nil (h : printEntry e = []) : e = ([], []) := by
  unfold printEntry at h
  split at h
  · exact absurd h (List.append_ne_nil_of_right_ne_nil _ (List.cons_ne_nil _ _))
  · rename_i hvalue
    rw [not_not] at hvalue
    exact Prod.ext h hvalue

/-! ## The loop -/

theorem collect_perm (h : collect tokens m = (q, .noError)) :
    q.entries.Perm (tokens.map parseEntry ++ m.entries) := by
  induction tokens generalizing m with
  | nil =>
    obtain rfl := (Prod.mk.inj h).1
    exact .refl _
  | cons token tokens ih =>
    rw [collect] at h
    dsimp only at h
    split at h
    · rename_i hfind
      have hperm := OrderedMap.perm_assign (x := (parseEntry token).2) (OrderedMap.find?_eq_none_iff.mp hfind)
      exact (ih h).trans ((hperm.append_left _).trans List.perm_middle)
    · cases (Prod.mk.inj h).2

/-- Tokens with distinct keys are all collected. -/
theorem collect_of_nodup (hnd : ((tokens.map parseEntry).map Prod.fst).Nodup)
    (hdisj : ∀ t ∈ tokens, (parseEntry t).1 ∉ m.keys) : ∃ q, collect tokens m = (q, .noError) := by
  induction tokens generalizing m with
  | nil => exact ⟨m, rfl⟩
  | cons token tokens ih =>
    rw [List.map_cons, List.map_cons, List.nodup_cons] at hnd
    obtain ⟨hnot, hnd⟩ := hnd
    obtain ⟨hkey, hdisj⟩ := List.forall_mem_cons.mp hdisj
    rw [collect]
    dsimp only
    rw [if_pos (OrderedMap.find?_eq_none_iff.mpr hkey)]
    refine ih hnd ?_
    intro t ht hmem
    obtain ⟨x, hx⟩ := OrderedMap.mem_keys.mp hmem
    rcases OrderedMap.mem_assign.mp hx with heq | ⟨hold, -⟩
    · apply hnot
      rw [← (Prod.mk.inj heq).1, List.map_map]
      exact List.mem_map_of_mem (f := Prod.fst ∘ parseEntry) ht
    · exact hdisj t ht (OrderedMap.mem_keys.mpr ⟨x, hold⟩)

/-! ## Queries -/

/-- The separators between the tokens. -/
def isSeparator (c : UInt8) : Prop := c = '&'.toUInt8 ∨ c = ';'.toUInt8

theorem separator_iff : c ∈ ['&'.toUInt8, ';'.toUInt8] ↔ isSeparator c := by
  rw [List.mem_cons, List.mem_singleton]
  rfl

/-- What a query that was parsed looks like. -/
structure IsQuery (q : OrderedMap Text Text) : Prop where
  key : ∀ e ∈ q.entries, '='.toUInt8 ∉ e.1
  separators : ∀ e ∈ q.entries, ∀ c ∈ e.1 ++ e.2, ¬ isSeparator c
  length_lt : ∀ d, (stringJoin (q.entries.map printEntry) d).length < 2147483648

theorem isQuery_empty : IsQuery .empty where
  key e he := absurd he List.not_mem_nil
  separators e he := absurd he List.not_mem_nil
  length_lt d := show ([] : Text).length < 2147483648 by decide

theorem flatten_map_printEntry (ts : List Text) :
    ((ts.map parseEntry).map printEntry).flatten.length ≤ ts.flatten.length ∧
      ∀ c, c ≠ '='.toUInt8 → ((ts.map parseEntry).map printEntry).flatten.count c = ts.flatten.count c := by
  induction ts with
  | nil => exact ⟨Nat.le_refl _, fun _ _ => rfl⟩
  | cons t ts ih =>
    obtain ⟨hlen, hcount⟩ := printEntry_parseEntry t
    rw [List.map_cons, List.map_cons, List.flatten_cons, List.flatten_cons]
    constructor
    · rw [List.length_append, List.length_append]
      exact Nat.add_le_add hlen ih.1
    · intro c hc
      rw [List.count_append, List.count_append, hcount c hc, ih.2 c hc]

/-- A query is printed no longer than the decoded text it was read from, and with the same characters but for the
equals signs and the separators. -/
theorem print_of_extract (h : extractQueryParam val s = (q, .noError)) (d : UInt8) :
    (stringJoin (q.entries.map printEntry) d).length ≤ (UrlCode.urlDecode val s).length ∧
      ∀ c, ¬ isSeparator c → c ≠ '='.toUInt8 → c ≠ d →
        (stringJoin (q.entries.map printEntry) d).count c = (UrlCode.urlDecode val s).count c := by
  have hperm := collect_perm h
  rw [show (OrderedMap.empty : OrderedMap Text Text).entries = [] from rfl, List.append_nil] at hperm
  obtain ⟨hflat, hcountFlat⟩ :=
    flatten_map_printEntry (stringSplit (UrlCode.urlDecode val s) ['&'.toUInt8, ';'.toUInt8])
  have hprinted := (hperm.map printEntry).flatten
  have hcount := (hperm.map printEntry).length_eq
  rw [List.length_map, List.length_map, List.length_map] at hcount
  have htokens := Tokens.length_flatten_splitOnP (fun c => decide (c ∈ ['&'.toUInt8, ';'.toUInt8]))
    (UrlCode.urlDecode val s)
  have hne : q.entries.map printEntry ≠ [] := by
    intro hnil
    have hzero : (stringSplit (UrlCode.urlDecode val s) ['&'.toUInt8, ';'.toUInt8]).length = 0 := by
      rw [← hcount, ← List.length_map printEntry, hnil]
      rfl
    exact List.splitOnP_ne_nil _ _ (List.eq_nil_of_length_eq_zero hzero)
  have hjoin := Tokens.length_intercalate d hne
  rw [List.length_map] at hjoin
  constructor
  · have hlen := hprinted.length_eq
    unfold stringSplit at hflat hlen hcount
    unfold stringJoin
    omega
  · intro c hsep heq hd
    rw [stringJoin, Tokens.count_intercalate hd, hprinted.count_eq, hcountFlat c heq, stringSplit,
      Tokens.flatten_splitOnP, List.count_filter]
    rw [Bool.not_eq_true', decide_eq_false_iff_not, separator_iff]
    exact hsep

theorem isQuery_of_extract (h : extractQueryParam val s = (q, .noError)) : IsQuery q := by
  have hperm := collect_perm h
  rw [show (OrderedMap.empty : OrderedMap Text Text).entries = [] from rfl, List.append_nil] at hperm
  refine ⟨?_, ?_, ?_⟩
  · intro e he
    obtain ⟨t, -, rfl⟩ := List.mem_map.mp (hperm.mem_iff.mp he)
    exact (token_cases t).1
  · intro e he c hc
    obtain ⟨t, ht, rfl⟩ := List.mem_map.mp (hperm.mem_iff.mp he)
    have hnot := (Tokens.mem_of_mem_splitOnP ht (mem_of_mem_parseEntry hc)).2
    rw [decide_eq_false_iff_not, separator_iff] at hnot
    exact hnot
  · intro d
    exact (print_of_extract h d).1.trans_lt (UrlCode.length_urlDecode_lt val s)

/-- The text of a query of which nothing is lost. -/
theorem extract_print (hq : IsQuery q) (hne : q.entries ≠ []) (hd : isSeparator d)
    (hchars : ∀ e ∈ q.entries, ∀ c ∈ e.1 ++ e.2, c ≠ '%'.toUInt8 ∧ c ≠ '+'.toUInt8) (val : Nat) :
    extractQueryParam val (stringJoin (q.entries.map printEntry) d) = (q, .noError) := by
  have hdecode : UrlCode.urlDecode val (stringJoin (q.entries.map printEntry) d) =
      stringJoin (q.entries.map printEntry) d := by
    refine UrlCode.urlDecode_eq_self ?_ (hq.length_lt d)
    intro c hc
    rcases Tokens.mem_intercalate hc with rfl | ⟨t, ht, hc⟩
    · rcases hd with rfl | rfl
      · decide
      · decide
    · obtain ⟨e, he, rfl⟩ := List.mem_map.mp ht
      rcases of_mem_printEntry hc with rfl | hc
      · decide
      · exact hchars e he c hc
  have hsplit : stringSplit (stringJoin (q.entries.map printEntry) d) ['&'.toUInt8, ';'.toUInt8] =
      q.entries.map printEntry := by
    refine Tokens.splitOnP_intercalate (decide_eq_true (separator_iff.mpr hd)) ?_ (by rwa [Ne, List.map_eq_nil_iff])
    intro t ht c hc
    obtain ⟨e, he, rfl⟩ := List.mem_map.mp ht
    rw [decide_eq_false_iff_not, separator_iff]
    rcases of_mem_printEntry hc with rfl | hc
    · unfold isSeparator
      decide
    · exact hq.separators e he c hc
  have hparse : (q.entries.map printEntry).map parseEntry = q.entries := by
    rw [List.map_map]
    refine (List.map_congr_left fun e he => ?_).trans (List.map_id _)
    exact parseEntry_printEntry (hq.key e he)
  obtain ⟨q', hq'⟩ : ∃ q', collect (q.entries.map printEntry) .empty = (q', .noError) := by
    refine collect_of_nodup ?_ fun t _ hmem => List.not_mem_nil hmem
    rw [hparse]
    exact q.nodup_keys
  have hperm := collect_perm hq'
  rw [hparse, show (OrderedMap.empty : OrderedMap Text Text).entries = [] from rfl, List.append_nil] at hperm
  have heq : q' = q := OrderedMap.ext_mem fun e => hperm.mem_iff
  rw [extractQueryParam, hdecode, hsplit, hq', heq]

/-- The text is empty only if the one entry is. -/
theorem entries_of_print (hne : q.entries ≠ []) (h : stringJoin (q.entries.map printEntry) d = []) :
    q.entries = [([], [])] := by
  have hne' : q.entries.map printEntry ≠ [] := by rwa [Ne, List.map_eq_nil_iff]
  have hlen := Tokens.length_intercalate d hne'
  rw [stringJoin] at h
  rw [h, List.length_map, List.length_nil] at hlen
  have hpos := List.length_pos_of_ne_nil hne
  obtain ⟨e, he⟩ := List.length_eq_one_iff.mp (show q.entries.length = 1 by omega)
  have hprinted : printEntry e = [] := by
    rw [he, List.map_singleton, List.intercalate_singleton] at h
    exact h
  rw [he, printEntry_eq_nil hprinted]

/-- A printed query with an escape or a plus sign is read as another one. -/
theorem not_extract_print {c : UInt8} (hd : isSeparator d) (he : e ∈ q.entries) (hc : c ∈ e.1 ++ e.2)
    (hescape : c = '%'.toUInt8 ∨ c = '+'.toUInt8) :
    extractQueryParam 0 (stringJoin (q.entries.map printEntry) d) ≠ (q, .noError) := by
  intro h
  obtain ⟨hlen, hcount⟩ := print_of_extract h d
  have hne : ∀ c, c = '%'.toUInt8 ∨ c = '+'.toUInt8 → ¬ isSeparator c ∧ c ≠ '='.toUInt8 ∧ c ≠ d := by
    rintro c (rfl | rfl)
    · unfold isSeparator
      rcases hd with rfl | rfl <;> decide
    · unfold isSeparator
      rcases hd with rfl | rfl <;> decide
  have hsame : ∀ c, c = '%'.toUInt8 ∨ c = '+'.toUInt8 →
      (c ∈ UrlCode.urlDecode 0 (stringJoin (q.entries.map printEntry) d) ↔
        c ∈ stringJoin (q.entries.map printEntry) d) := by
    intro c hc
    obtain ⟨hsep, heq, hcd⟩ := hne c hc
    rw [← List.count_pos_iff, ← List.count_pos_iff, hcount c hsep heq hcd]
  have hmem : c ∈ stringJoin (q.entries.map printEntry) d :=
    Tokens.mem_intercalate_of_mem d (List.mem_map_of_mem he) (mem_printEntry hc)
  by_cases hpercent : '%'.toUInt8 ∈ stringJoin (q.entries.map printEntry) d
  · rcases UrlCode.decodeLoop_percent hpercent with hlt | hnot
    · exact Nat.not_lt.mpr hlen hlt
    · exact hnot ((hsame _ (.inl rfl)).mpr hpercent)
  · have hplus : c = '+'.toUInt8 := by
      rcases hescape with rfl | hplus
      · exact absurd hmem hpercent
      · exact hplus
    subst hplus
    exact UrlCode.plus_notMem_decodeLoop hpercent ((hsame _ (.inr rfl)).mpr hmem)

/-- A part of a printed query is read as another one. -/
theorem not_extract_part {s₁ s₂ : Text} (hs : stringJoin (q.entries.map printEntry) d = s₁ ++ x :: s₂) :
    extractQueryParam val s₁ ≠ (q, .noError) := by
  intro h
  have hlen := (print_of_extract h d).1
  have hdecode := UrlCode.length_urlDecode_le val s₁
  rw [hs, List.length_append, List.length_cons] at hlen
  omega

end BofStd.BofUri
