import BofStd.BofPathSpec
import BofStd.Lib.Tokens

/-!
# Reducing a path

`Normal` describes the paths that the last part of `Normalize` returns (`reducePath_spec`) and leaves as they are
(`reducePath_of_normal`). The tokens of a path only get fewer, and the empty one in front stays.
-/

namespace BofStd

variable {s t a b d r path : Text} {c : UInt8} {cwd : Option Text}

/-! ## Texts -/

theorem stringSplit_singleton (s : Text) (d : UInt8) : stringSplit s [d] = s.splitOn d := by
  rw [stringSplit, List.splitOn_eq_splitOnP]
  congr 1
  funext c
  rw [Bool.eq_iff_iff, decide_eq_true_iff, List.mem_singleton, beq_iff_eq]

theorem stringReplace_append (s t : Text) : stringReplace (s ++ t) = stringReplace s ++ stringReplace t :=
  List.map_append

theorem length_stringReplace (s : Text) : (stringReplace s).length = s.length := List.length_map _

theorem stringReplace_eq_self (hs : ∀ c ∈ s, c ≠ '\\'.toUInt8 ∧ c ≠ 0) : stringReplace s = s := by
  refine (List.map_congr_left fun c hc => ?_).trans (List.map_id s)
  obtain ⟨hback, hnull⟩ := hs c hc
  exact if_neg fun h => h.elim hback hnull

theorem ne_zero_of_mem_stringReplace (hc : c ∈ stringReplace s) : c ≠ 0 := by
  obtain ⟨x, -, rfl⟩ := List.mem_map.mp hc
  split
  · decide
  · rename_i hx
    exact fun hzero => hx (.inr hzero)

theorem head?_stringReplace (hs : s.head? = some '/'.toUInt8) : (stringReplace s).head? = some '/'.toUInt8 := by
  rw [stringReplace, List.head?_map, hs]
  rfl

/-- What `Bof_StringRightTrim` leaves. -/
def trimEnd (s : Text) : Text := s.rdropWhile fun c => c ∈ defaultTrimCharList

theorem length_trimEnd_le (s : Text) : (trimEnd s).length ≤ s.length := by
  unfold trimEnd List.rdropWhile
  rw [List.length_reverse]
  exact (List.dropWhile_sublist _).length_le.trans_eq (List.length_reverse)

theorem trimEnd_concat (s : Text) (c : UInt8) :
    trimEnd (s ++ [c]) = if c ∈ defaultTrimCharList then trimEnd s else s ++ [c] := by
  unfold trimEnd
  rw [List.rdropWhile_concat]
  by_cases hc : c ∈ defaultTrimCharList
  · rw [if_pos hc, if_pos (decide_eq_true hc)]
  · rw [if_neg hc, if_neg fun h => hc (of_decide_eq_true h)]

/-- The blanks at the end of a text stand behind a character that is none. -/
theorem trimEnd_append_cons (hc : c ∉ defaultTrimCharList) (b s : Text) :
    trimEnd (b ++ c :: s) = b ++ c :: trimEnd s := by
  induction s using List.reverseRecOn with
  | nil =>
    rw [trimEnd_concat, if_neg hc]
    rfl
  | append_singleton s x ih =>
    rw [← List.cons_append, ← List.append_assoc, trimEnd_concat, trimEnd_concat, ih]
    split
    · rfl
    · rw [List.append_assoc, List.cons_append]

/-- A text whose first character is no blank keeps it. -/
theorem trimEnd_cons (hc : c ∉ defaultTrimCharList) (s : Text) : trimEnd (c :: s) = c :: trimEnd s :=
  trimEnd_append_cons hc [] s

/-! ## Characters that are looked for -/

theorem stringIsPresent_eq_false_iff {chars : Text} :
    stringIsPresent s chars = false ↔ ∀ c ∈ s, c ∉ chars := by
  simp only [stringIsPresent, List.any_eq_false, decide_eq_true_iff]

theorem stringIsPresent_append {chars : Text} (hs : stringIsPresent s chars = false)
    (ht : stringIsPresent t chars = false) : stringIsPresent (s ++ t) chars = false := by
  rw [stringIsPresent, List.any_append, Bool.or_eq_false_iff]
  exact ⟨hs, ht⟩

theorem stringIsPresent_of_subset {chars : Text} (hst : s ⊆ t) (ht : stringIsPresent t chars = false) :
    stringIsPresent s chars = false := by
  rw [stringIsPresent_eq_false_iff] at ht ⊢
  exact fun c hc => ht c (hst hc)

namespace BofPath

/-! ## Reducing a path -/

theorem head?_collapse (s : Text) : (collapse s).head? = s.head? := by
  induction s with
  | nil => rfl
  | cons c s ih =>
    rw [collapse]
    split
    · rename_i h
      rw [ih, h.2, h.1]
      rfl
    · rfl

theorem collapse_sublist (s : Text) : (collapse s).Sublist s := by
  induction s with
  | nil => exact .slnil
  | cons c s ih =>
    rw [collapse]
    split
    · exact ih.trans (List.sublist_cons_self c s)
    · exact ih.cons_cons c

theorem collapse_eq_self (hs : ¬ ['/'.toUInt8, '/'.toUInt8] <:+: s) : collapse s = s := by
  induction s with
  | nil => rfl
  | cons c s ih =>
    rw [collapse, if_neg, ih fun h => hs (h.trans (List.suffix_cons c s).isInfix)]
    rintro ⟨rfl, hhead⟩
    cases s with
    | nil => cases hhead
    | cons d s =>
      obtain rfl := Option.some.inj hhead
      exact hs (List.prefix_append ['/'.toUInt8, '/'.toUInt8] s).isInfix

section Resolve

variable {before rest out : List Text} {last token next : Text}

theorem resolve_first (h : token ≠ dotDot ∧ next = dotDot) : resolve [] token (next :: rest) = none := if_pos h

theorem resolve_pop (h : token ≠ dotDot ∧ next = dotDot) :
    resolve (last :: before) token (next :: rest) = resolve before last rest := if_pos h

theorem resolve_shift (h : ¬ (token ≠ dotDot ∧ next = dotDot)) :
    resolve before token (next :: rest) = resolve (token :: before) next rest := by
  cases before <;> exact if_neg h

theorem resolve_sublist (h : resolve before token rest = some out) : out.Sublist (before.reverse ++ token :: rest) := by
  induction rest generalizing before token with
  | nil =>
    obtain rfl := Option.some.inj h
    exact .refl _
  | cons next rest ih =>
    by_cases hpair : token ≠ dotDot ∧ next = dotDot
    · cases before with
      | nil =>
        rw [resolve_first hpair] at h
        cases h
      | cons last before =>
        rw [resolve_pop hpair] at h
        rw [List.reverse_cons, List.append_assoc, List.singleton_append]
        refine (ih h).trans ((List.Sublist.refl _).append (.cons_cons last ?_))
        exact (List.sublist_cons_self next rest).trans (List.sublist_cons_self token _)
    · rw [resolve_shift hpair] at h
      have hsub := ih h
      rwa [List.reverse_cons, List.append_assoc, List.singleton_append] at hsub

/-- The first token stays. -/
theorem resolve_head? (h : resolve before token rest = some out) : out.head? = (before.reverse ++ [token]).head? := by
  induction rest generalizing before token with
  | nil =>
    obtain rfl := Option.some.inj h
    rfl
  | cons next rest ih =>
    by_cases hpair : token ≠ dotDot ∧ next = dotDot
    · cases before with
      | nil =>
        rw [resolve_first hpair] at h
        cases h
      | cons last before =>
        rw [resolve_pop hpair] at h
        rw [ih h, List.reverse_cons, List.head?_append_of_ne_nil _ (List.concat_ne_nil _ _)]
    · rw [resolve_shift hpair] at h
      rw [ih h, List.reverse_cons, List.head?_append_of_ne_nil _ (List.concat_ne_nil _ _)]

theorem resolve_eq_self (h : dotDot ∉ rest) : resolve before token rest = some (before.reverse ++ token :: rest) := by
  induction rest generalizing before token with
  | nil => rfl
  | cons next rest ih =>
    rw [List.mem_cons, not_or] at h
    rw [resolve_shift fun hpair => h.1 hpair.2.symm, ih h.2, List.reverse_cons, List.append_assoc,
      List.singleton_append]

end Resolve

theorem normal_root : Normal ['/'.toUInt8] where
  root := rfl
  single := by decide
  dots := by decide
  allowed c hc := by
    rw [List.mem_singleton.mp hc]
    decide

theorem reducePath_of_normal (h : Normal path) : reducePath path = .ok path := by
  unfold reducePath
  split
  · rfl
  have htokens : reduceTokens path = some (path.splitOn '/'.toUInt8) := by
    have hfilter : (path.splitOn '/'.toUInt8).filter (fun token => token ≠ ['.'.toUInt8]) =
        path.splitOn '/'.toUInt8 := by
      rw [List.filter_eq_self]
      intro token htoken
      apply decide_eq_true
      rintro rfl
      exact absurd (h.dots _ htoken) (by decide)
    have hdotDot : dotDot ∉ path.splitOn '/'.toUInt8 := fun hmem => absurd (h.dots _ hmem) (by decide)
    rw [reduceTokens, collapse_eq_self h.single, stringSplit_singleton, hfilter]
    split
    · rename_i token next rest heq
      rw [heq] at hdotDot ⊢
      exact resolve_eq_self fun hmem => hdotDot (List.mem_cons_of_mem token hmem)
    · rfl
  have hdots : ¬ (path.splitOn '/'.toUInt8).any fun token => stringIsAllTheSameChar token '.'.toUInt8 := by
    rw [List.any_eq_true]
    rintro ⟨token, htoken, hdot⟩
    rw [h.dots token htoken] at hdot
    cases hdot
  have hjoin : stringJoin (path.splitOn '/'.toUInt8) '/'.toUInt8 = path := List.intercalate_splitOn _
  rw [htokens]
  dsimp only
  rw [if_neg hdots, hjoin, if_pos h.root, if_neg h.single]

/-- The tokens that are left begin with the empty one. -/
theorem reduceTokens_spec {tokens : List Text} (hroot : path.head? = some '/'.toUInt8)
    (h : reduceTokens path = some tokens) :
    tokens.head? = some [] ∧ tokens.Sublist ((collapse path).splitOn '/'.toUInt8) := by
  obtain ⟨rest, hrest⟩ : ∃ rest, (collapse path).splitOn '/'.toUInt8 = [] :: rest := by
    have hhead := head?_collapse path
    rw [hroot] at hhead
    obtain ⟨rest, hrest⟩ := List.head?_eq_some_iff.mp hhead
    refine ⟨rest.splitOn '/'.toUInt8, ?_⟩
    rw [hrest]
    exact List.splitOn_append_cons_self [] rest
  have hfilter : ([] :: rest).filter (fun token : Text => token ≠ ['.'.toUInt8]) =
      [] :: rest.filter fun token => token ≠ ['.'.toUInt8] := List.filter_cons_of_pos (by decide)
  rw [reduceTokens, stringSplit_singleton, hrest, hfilter] at h
  have hsub : ([] :: rest.filter fun token : Text => token ≠ ['.'.toUInt8]).Sublist ([] :: rest) :=
    List.filter_sublist.cons_cons []
  rw [hrest]
  cases hkept : rest.filter fun token : Text => token ≠ ['.'.toUInt8] with
  | nil =>
    rw [hkept] at h hsub
    obtain rfl := Option.some.inj h
    exact ⟨rfl, hsub⟩
  | cons next kept =>
    rw [hkept] at h hsub
    exact ⟨resolve_head? h, (resolve_sublist h).trans hsub⟩

/-- The path that is returned is normal, and no longer than the path. -/
theorem reducePath_spec (hroot : path.head? = some '/'.toUInt8)
    (hallowed : ∀ c ∈ path, c ∉ defaultForbiddenChar ∧ c ≠ 0) (h : reducePath path = .ok t) :
    Normal t ∧ t.length ≤ path.length := by
  unfold reducePath at h
  split at h
  · rename_i heq
    obtain rfl := Except.ok.inj h
    exact ⟨heq ▸ normal_root, Nat.le_refl _⟩
  split at h
  · cases h
  rename_i tokens htokens
  split at h
  · cases h
  rename_i hdots
  dsimp only at h
  generalize hresult : (if (stringJoin tokens '/'.toUInt8).head? = some '/'.toUInt8 then
    stringJoin tokens '/'.toUInt8 else '/'.toUInt8 :: stringJoin tokens '/'.toUInt8) = result at h
  split at h
  · cases h
  rename_i hsingle
  obtain rfl := Except.ok.inj h
  obtain ⟨hhead, hsub⟩ := reduceTokens_spec hroot htokens
  obtain ⟨rest, rfl⟩ := List.head?_eq_some_iff.mp hhead
  cases rest with
  | nil =>
    obtain rfl := hresult
    refine ⟨normal_root, ?_⟩
    cases path with
    | nil => cases hroot
    | cons c path => exact Nat.succ_le_succ (Nat.zero_le _)
  | cons token rest =>
    have hjoined : (stringJoin ([] :: token :: rest) '/'.toUInt8).head? = some '/'.toUInt8 := by
      rw [stringJoin, List.intercalate_cons_cons]
      rfl
    rw [if_pos hjoined] at hresult
    subst hresult
    have hslash : ∀ token' ∈ [] :: token :: rest, '/'.toUInt8 ∉ token' := by
      intro token' htoken' hmem
      have hsplit := hsub.subset htoken'
      rw [List.splitOn_eq_splitOnP] at hsplit
      have hne := (Tokens.mem_of_mem_splitOnP hsplit hmem).2
      rw [beq_self_eq_true] at hne
      cases hne
    refine ⟨⟨hjoined, hsingle, ?_, ?_⟩, ?_⟩
    · intro token' htoken'
      rw [stringJoin, List.splitOn_intercalate _ hslash (List.cons_ne_nil _ _)] at htoken'
      by_contra hdot
      rw [Bool.not_eq_false] at hdot
      exact hdots (List.any_eq_true.mpr ⟨token', htoken', hdot⟩)
    · intro c hc
      rcases Tokens.mem_intercalate hc with rfl | ⟨token', htoken', hc⟩
      · decide
      · have hsplit := hsub.subset htoken'
        rw [List.splitOn_eq_splitOnP] at hsplit
        exact hallowed c ((collapse_sublist path).subset (Tokens.mem_of_mem_splitOnP hsplit hc).1)
    · refine (Tokens.length_intercalate_le '/'.toUInt8 hsub).trans ?_
      rw [List.intercalate_splitOn]
      exact (collapse_sublist path).length_le

end BofPath

end BofStd
