import BofStd.BofPathSpec
import BofStd.Proofs.BofPathProofs

/-!
# The components of a path

Of the components of a path that begins with a slash, `Normalize` keeps an empty one in front, the ones that are not
empty, and an empty one at the end if the path ends with a slash. On those in the middle, taking out a name and the `..`
behind it is what the stack machine does.
-/

namespace BofStd.BofPath

open StackMachine

variable {s t path raw d : Text} {cwd : Option Text} {w forb : Text} {kept comps : List Text} {c : UInt8}

/-! ## Collapsed slashes -/

/-- The component behind the last slash, if there is one and it is empty. -/
def lastEmpty (tokens : List Text) : List Text := if tokens.getLast? = some [] then [[]] else []

theorem lastEmpty_cons_cons (a b : Text) (l : List Text) : lastEmpty (a :: b :: l) = lastEmpty (b :: l) := by
  rw [lastEmpty, lastEmpty, List.getLast?_cons_cons]

theorem lastEmpty_cons_of_ne {a : Text} (ha : a ≠ []) (l : List Text) : lastEmpty (a :: l) = lastEmpty l := by
  cases l with
  | nil =>
    rw [lastEmpty, lastEmpty, List.getLast?_singleton, if_neg fun h => ha (Option.some.inj h)]
    rfl
  | cons b l => exact lastEmpty_cons_cons a b l

theorem splitOn_slash_cons (s : Text) : ('/'.toUInt8 :: s).splitOn '/'.toUInt8 = [] :: s.splitOn '/'.toUInt8 :=
  List.splitOn_append_cons_self [] s

theorem splitOn_cons_of_ne {head : Text} {tail : List Text} (hc : c ≠ '/'.toUInt8)
    (h : s.splitOn '/'.toUInt8 = head :: tail) : (c :: s).splitOn '/'.toUInt8 = (c :: head) :: tail := by
  rw [List.splitOn_cons_eq_if_modifyHead, if_neg (by rwa [beq_iff_eq]), h]
  rfl

/-- Collapsing the slashes takes out the empty components in the middle. -/
theorem splitOn_collapse (s : Text) : ∃ head tail, s.splitOn '/'.toUInt8 = head :: tail ∧
    (head = [] ↔ s = [] ∨ s.head? = some '/'.toUInt8) ∧
    (collapse s).splitOn '/'.toUInt8 = head :: (tail.filter fun token => token ≠ []) ++ lastEmpty tail := by
  induction s with
  | nil => exact ⟨[], [], rfl, iff_of_true rfl (.inl rfl), rfl⟩
  | cons c s ih =>
    obtain ⟨head, tail, hsplit, hhead, hcollapse⟩ := ih
    by_cases hc : c = '/'.toUInt8
    · subst hc
      refine ⟨[], head :: tail, by rw [splitOn_slash_cons, hsplit], iff_of_true rfl (.inr rfl), ?_⟩
      by_cases hs : s.head? = some '/'.toUInt8
      · -- the slash goes, and so does the empty component behind it
        obtain ⟨s', rfl⟩ := List.head?_eq_some_iff.mp hs
        obtain ⟨b, l, hbl⟩ := List.exists_cons_of_ne_nil (List.splitOn_ne_nil '/'.toUInt8 s')
        obtain rfl := hhead.mpr (.inr hs)
        rw [splitOn_slash_cons, hbl] at hsplit
        obtain rfl := (List.cons.inj hsplit).2
        have hfilter : ([] :: b :: l).filter (fun token : Text => token ≠ []) =
            (b :: l).filter fun token => token ≠ [] := List.filter_cons_of_neg (by decide)
        rw [collapse, if_pos ⟨rfl, hs⟩, hcollapse, hfilter, lastEmpty_cons_cons]
      · rw [collapse, if_neg fun h => hs h.2, splitOn_slash_cons, hcollapse]
        by_cases hnil : s = []
        · subst hnil
          obtain ⟨rfl, rfl⟩ := List.cons.inj hsplit
          rfl
        · have hne : head ≠ [] := fun h => (hhead.mp h).elim hnil hs
          have hfilter : (head :: tail).filter (fun token => token ≠ []) =
              head :: tail.filter fun token => token ≠ [] := List.filter_cons_of_pos (decide_eq_true hne)
          rw [hfilter, lastEmpty_cons_of_ne hne]
          rfl
    · refine ⟨c :: head, tail, splitOn_cons_of_ne hc hsplit, iff_of_false (List.cons_ne_nil _ _) ?_, ?_⟩
      · rintro (h | h)
        · cases h
        · exact hc (Option.some.inj h)
      · rw [collapse, if_neg fun h => hc h.1, splitOn_cons_of_ne hc hcollapse]
        rfl

/-- The last component is empty exactly if the text is, or ends with a slash. -/
theorem getLast?_splitOn (s : Text) :
    (s.splitOn '/'.toUInt8).getLast? = some [] ↔ s = [] ∨ s.getLast? = some '/'.toUInt8 := by
  induction s with
  | nil => exact iff_of_true rfl (.inl rfl)
  | cons c s ih =>
    obtain ⟨head, tail, hsplit⟩ := List.exists_cons_of_ne_nil (List.splitOn_ne_nil '/'.toUInt8 s)
    rw [or_iff_right (List.cons_ne_nil c s)]
    by_cases hc : c = '/'.toUInt8
    · subst hc
      rw [splitOn_slash_cons, hsplit, List.getLast?_cons_cons, ← hsplit, ih]
      cases s with
      | nil => exact iff_of_true (.inl rfl) rfl
      | cons d s => rw [List.getLast?_cons_cons, or_iff_right (List.cons_ne_nil d s)]
    · rw [splitOn_cons_of_ne hc hsplit]
      rw [hsplit] at ih
      cases s with
      | nil =>
        obtain ⟨-, rfl⟩ := List.cons.inj hsplit
        exact iff_of_false (fun h => nomatch Option.some.inj h) fun h => hc (Option.some.inj h)
      | cons d s =>
        rw [List.getLast?_cons_cons, or_iff_right (List.cons_ne_nil d s)] at *
        cases tail with
        | nil =>
          -- one component only: there is no slash, or the component would be the whole text
          have hlast : ['/'.toUInt8].intercalate ((d :: s).splitOn '/'.toUInt8) = d :: s := List.intercalate_splitOn _
          rw [hsplit, List.intercalate_singleton] at hlast
          refine iff_of_false (fun h => nomatch Option.some.inj h) ?_
          rw [← ih, hlast]
          exact fun h => nomatch Option.some.inj h
        | cons b l =>
          rw [List.getLast?_cons_cons] at ih ⊢
          exact ih

/-! ## The tokens -/

theorem action_eq_skip_iff {a : Text} : action a = .skip ↔ a = [] ∨ a = ['.'.toUInt8] := by
  unfold action
  split
  · rename_i h
    exact iff_of_true rfl h
  · rename_i h
    refine iff_of_false ?_ h
    split <;> nofun

theorem action_dotDot : action dotDot = .pop := by decide

theorem action_eq_push {a : Text} (hskip : action a ≠ .skip) (ha : a ≠ dotDot) : action a = .push := by
  rw [action, if_neg fun h => hskip (action_eq_skip_iff.mpr h), if_neg ha]

/-- Behind the empty token of the root, taking out pairs is what the stack machine does. -/
theorem resolve_run (kept : List Text) {before last : List Text} {token : Text}
    (hstack : token :: before = kept ++ [[]]) (hkept : dotDot ∉ kept) (hcomps : ∀ a ∈ comps, action a ≠ .skip) (hlast : last = [] ∨ last = [[]]) :
    resolve before token (comps ++ last) = (run action kept comps).map fun kept => [] :: (kept.reverse ++ last) := by
  induction comps generalizing kept before token with
  | nil =>
    have hrev : before.reverse ++ [token] = [] :: kept.reverse := by
      rw [← List.reverse_cons, hstack, List.reverse_append]
      rfl
    rw [List.nil_append, run_nil, Option.map_some]
    rcases hlast with rfl | rfl
    · rw [resolve, hrev, List.append_nil]
    · have hnot : ¬ (token ≠ dotDot ∧ ([] : Text) = dotDot) := fun h => absurd h.2 (by decide)
      rw [resolve_shift hnot, resolve, List.reverse_cons, hrev]
      rfl
  | cons next comps ih =>
    have hcomps' : ∀ a ∈ comps, action a ≠ .skip := fun a ha => hcomps a (List.mem_cons_of_mem next ha)
    by_cases hnext : next = dotDot
    · subst hnext
      have htoken : token ≠ dotDot := by
        cases kept with
        | nil =>
          rw [(List.cons.inj hstack).1]
          decide
        | cons k kept =>
          rw [(List.cons.inj hstack).1]
          rintro rfl
          exact hkept List.mem_cons_self
      cases kept with
      | nil =>
        obtain rfl := (List.cons.inj hstack).2
        rw [List.cons_append, resolve_first ⟨htoken, rfl⟩, run_pop_nil action_dotDot, Option.map_none]
      | cons k kept =>
        -- the token before the name that is taken out
        obtain ⟨prev, before', hbefore⟩ := List.exists_cons_of_ne_nil
          (List.append_ne_nil_of_right_ne_nil kept (List.cons_ne_nil [] []))
        have hbefore' := (List.cons.inj hstack).2.trans hbefore
        subst hbefore'
        rw [List.cons_append, resolve_pop ⟨htoken, rfl⟩, run_pop action_dotDot]
        exact ih kept hbefore.symm (fun h => hkept (List.mem_cons_of_mem k h)) hcomps'
    · have hpush := action_eq_push (hcomps next List.mem_cons_self) hnext
      have hstack' : next :: token :: before = (next :: kept) ++ [[]] := by rw [hstack, List.cons_append]
      have hkept' : dotDot ∉ next :: kept := by
        rw [List.mem_cons, not_or]
        exact ⟨Ne.symm hnext, hkept⟩
      rw [List.cons_append, resolve_shift fun h => hnext h.2, run_push hpush]
      exact ih (next :: kept) hstack' hkept' hcomps'

theorem filter_proper (tail : List Text) :
    (tail.filter fun token => token ≠ []).filter (fun token => token ≠ ['.'.toUInt8]) =
      tail.filter fun token => action token ≠ .skip := by
  rw [List.filter_filter]
  apply List.filter_congr
  intro token _
  rw [Bool.eq_iff_iff, Bool.and_eq_true, decide_eq_true_iff, decide_eq_true_iff, decide_eq_true_iff, Ne, Ne, Ne,
    action_eq_skip_iff, not_or]
  exact and_comm

theorem lastEmpty_cases (tail : List Text) : lastEmpty tail = [] ∨ lastEmpty tail = [[]] := by
  unfold lastEmpty
  split
  · exact .inr rfl
  · exact .inl rfl

/-- The tokens of an absolute path are those that the stack machine keeps, between the root and an empty one at the end
if the path ends with a slash. -/
theorem reduceTokens_eq (s : Text) : reduceTokens ('/'.toUInt8 :: s) =
    (keptComponents ('/'.toUInt8 :: s)).map fun kept =>
      [] :: (kept.reverse ++ if ('/'.toUInt8 :: s).getLast? = some '/'.toUInt8 then [[]] else []) := by
  obtain ⟨head, tail, hsplit, -, hcollapse⟩ := splitOn_collapse ('/'.toUInt8 :: s)
  have hlast : lastEmpty tail = if ('/'.toUInt8 :: s).getLast? = some '/'.toUInt8 then [[]] else [] := by
    obtain ⟨b, l, hbl⟩ := List.exists_cons_of_ne_nil (List.splitOn_ne_nil '/'.toUInt8 s)
    have hends := getLast?_splitOn ('/'.toUInt8 :: s)
    rw [or_iff_right (List.cons_ne_nil _ _), splitOn_slash_cons, hbl, List.getLast?_cons_cons] at hends
    rw [splitOn_slash_cons, hbl] at hsplit
    rw [← (List.cons.inj hsplit).2, lastEmpty]
    exact if_congr hends rfl rfl
  rw [splitOn_slash_cons] at hsplit
  obtain rfl := (List.cons.inj hsplit).1
  have hskip : action [] = .skip := by decide
  have hkept : keptComponents ('/'.toUInt8 :: s) = run action [] (tail.filter fun token => action token ≠ .skip) := by
    rw [keptComponents, splitOn_slash_cons, hsplit, run_skip hskip, run_filter]
  have hdot : ∀ l : List Text, ([] :: l).filter (fun token : Text => token ≠ ['.'.toUInt8]) =
      [] :: l.filter fun token => token ≠ ['.'.toUInt8] := fun l => List.filter_cons_of_pos (by decide)
  have hlastDot : (lastEmpty tail).filter (fun token => token ≠ ['.'.toUInt8]) = lastEmpty tail := by
    rcases lastEmpty_cases tail with h | h
    · rw [h]
      rfl
    · rw [h]
      rfl
  have htokens : (stringSplit (collapse ('/'.toUInt8 :: s)) ['/'.toUInt8]).filter (fun token => token ≠ ['.'.toUInt8]) =
      [] :: ((tail.filter fun token => action token ≠ .skip) ++ lastEmpty tail) := by
    rw [stringSplit_singleton, hcollapse, List.cons_append, hdot, List.filter_append, filter_proper, hlastDot]
  have hresolve : reduceTokens ('/'.toUInt8 :: s) =
      resolve [] [] ((tail.filter fun token => action token ≠ .skip) ++ lastEmpty tail) := by
    rw [reduceTokens, htokens]
    cases (tail.filter fun token => action token ≠ .skip) ++ lastEmpty tail <;> rfl
  rw [hresolve, resolve_run [] rfl List.not_mem_nil ?_ (lastEmpty_cases tail), hkept, hlast]
  intro a ha
  exact of_decide_eq_true (List.mem_filter.mp ha).2

/-! ## The reduced path -/

/-- A component that is kept is not empty, and holds no slash. -/
theorem mem_keptComponents (h : keptComponents path = some kept) {a : Text} (ha : a ∈ kept) :
    a ≠ [] ∧ '/'.toUInt8 ∉ a := by
  rcases mem_run h ha with hmem | ⟨hmem, hpush⟩
  · exact absurd hmem List.not_mem_nil
  · constructor
    · rintro rfl
      exact absurd hpush (by decide)
    · intro hslash
      rw [List.splitOn_eq_splitOnP] at hmem
      have hne := (Tokens.mem_of_mem_splitOnP hmem hslash).2
      rw [beq_self_eq_true] at hne
      cases hne

/-- Two slashes together make an empty component that is neither the first nor the last. -/
theorem not_doubleSlash (h : [] ∉ (t.splitOn '/'.toUInt8).tail.dropLast) : ¬ ['/'.toUInt8, '/'.toUInt8] <:+: t := by
  rintro ⟨a, b, rfl⟩
  apply h
  obtain ⟨head, tail, hhead⟩ := List.exists_cons_of_ne_nil (List.splitOn_ne_nil '/'.toUInt8 a)
  obtain ⟨last, rest, hlast⟩ := List.exists_cons_of_ne_nil (List.splitOn_ne_nil '/'.toUInt8 b)
  have hsplit : (a ++ ['/'.toUInt8, '/'.toUInt8] ++ b).splitOn '/'.toUInt8 =
      head :: (tail ++ [] :: last :: rest) := by
    rw [List.append_assoc, List.cons_append, List.cons_append, List.nil_append, List.splitOn_append_cons_self,
      splitOn_slash_cons, hhead, hlast, List.cons_append]
  rw [hsplit, List.tail_cons, List.dropLast_append_of_ne_nil (List.cons_ne_nil _ _), List.dropLast_cons_cons]
  exact List.mem_append_right _ List.mem_cons_self

theorem stringJoin_concat_nil {ts : List Text} (hts : ts ≠ []) (d : UInt8) :
    stringJoin (ts ++ [[]]) d = stringJoin ts d ++ [d] := by
  induction ts with
  | nil => exact absurd rfl hts
  | cons a ts ih =>
    cases ts with
    | nil =>
      rw [stringJoin, List.singleton_append, List.intercalate_cons_cons, List.intercalate_singleton, List.append_nil,
        stringJoin, List.intercalate_singleton]
    | cons b ts =>
      have ih := ih (List.cons_ne_nil b ts)
      rw [stringJoin, stringJoin] at ih ⊢
      rw [List.cons_append, List.cons_append, List.intercalate_cons_cons, List.intercalate_cons_cons,
        ← List.cons_append, ih, ← List.append_assoc]

/-- The tokens of a path that keeps some component. -/
theorem joined_of_ne_nil (path : Text) (hne : kept ≠ []) : joined path kept =
    stringJoin ([] :: (kept.reverse ++ if path.getLast? = some '/'.toUInt8 then [[]] else [])) '/'.toUInt8 := by
  obtain ⟨a, ts, hts⟩ := List.exists_cons_of_ne_nil fun h => hne (List.reverse_eq_nil_iff.mp h)
  rw [joined, hts]
  by_cases hlast : path.getLast? = some '/'.toUInt8
  · rw [if_pos ⟨hlast, hne⟩, if_pos hlast, ← List.cons_append, stringJoin_concat_nil (List.cons_ne_nil _ _)]
    congr 1
  · rw [if_neg fun h => hlast h.1, if_neg hlast, List.append_nil, List.append_nil]
    rfl

theorem joined_nil (path : Text) : joined path [] = ['/'.toUInt8] := by
  rw [joined, if_neg fun h => h.2 rfl]
  rfl

/-- The path that is made of the tokens. -/
theorem joined_eq (path : Text) (kept : List Text) :
    (if (stringJoin ([] :: (kept.reverse ++ if path.getLast? = some '/'.toUInt8 then [[]] else [])) '/'.toUInt8).head? =
        some '/'.toUInt8 then
      stringJoin ([] :: (kept.reverse ++ if path.getLast? = some '/'.toUInt8 then [[]] else [])) '/'.toUInt8
    else
      '/'.toUInt8 :: stringJoin ([] :: (kept.reverse ++ if path.getLast? = some '/'.toUInt8 then [[]] else []))
        '/'.toUInt8) = joined path kept := by
  by_cases hne : kept = []
  · subst hne
    rw [joined_nil]
    split <;> rfl
  · rw [← joined_of_ne_nil path hne]
    exact if_pos rfl

theorem not_doubleSlash_joined (hkept : keptComponents path = some kept) :
    ¬ ['/'.toUInt8, '/'.toUInt8] <:+: joined path kept := by
  by_cases hne : kept = []
  · subst hne
    rw [joined_nil]
    decide
  · apply not_doubleSlash
    have hmem : ∀ a ∈ kept.reverse, a ≠ [] ∧ '/'.toUInt8 ∉ a := fun a ha =>
      mem_keptComponents hkept (List.mem_reverse.mp ha)
    rw [joined_of_ne_nil path hne, stringJoin, List.splitOn_intercalate _ ?_ (List.cons_ne_nil _ _), List.tail_cons]
    · intro hnil
      split at hnil
      · rw [List.dropLast_concat] at hnil
        exact (hmem [] hnil).1 rfl
      · rw [List.append_nil] at hnil
        exact (hmem [] (List.dropLast_subset _ hnil)).1 rfl
    · intro a ha
      rcases List.mem_cons.mp ha with rfl | ha
      · exact List.not_mem_nil
      rcases List.mem_append.mp ha with ha | ha
      · exact (hmem a ha).2
      · split at ha
        · rw [List.mem_singleton.mp ha]
          exact List.not_mem_nil
        · exact absurd ha List.not_mem_nil

/-- Reducing an absolute path is what the stack machine does. -/
theorem reducePath_eq_ok_iff (hroot : path.head? = some '/'.toUInt8) :
    reducePath path = .ok t ↔ reduced path = some t := by
  obtain ⟨s, rfl⟩ := List.head?_eq_some_iff.mp hroot
  by_cases hslash : s = []
  · subst hslash
    rw [reducePath, if_pos rfl, Except.ok.injEq]
    exact Option.some_inj.symm
  have hne : '/'.toUInt8 :: s ≠ ['/'.toUInt8] := fun h => hslash (List.cons.inj h).2
  rw [reducePath, if_neg hne, reduceTokens_eq, reduced]
  cases hkept : keptComponents ('/'.toUInt8 :: s) with
  | none => exact iff_of_false (by rintro ⟨⟩) (by rintro ⟨⟩)
  | some kept =>
    have hdots : ([] :: (kept.reverse ++ if ('/'.toUInt8 :: s).getLast? = some '/'.toUInt8 then [[]] else [])).any
        (fun token => stringIsAllTheSameChar token '.'.toUInt8) =
        kept.any fun token => stringIsAllTheSameChar token '.'.toUInt8 := by
      rw [List.any_cons, List.any_append, List.any_reverse]
      have hnil : stringIsAllTheSameChar [] '.'.toUInt8 = false := rfl
      split
      · rw [List.any_cons, hnil, List.any_nil, Bool.false_or, Bool.or_false, Bool.or_false]
      · rw [List.any_nil, hnil, Bool.false_or, Bool.or_false]
    dsimp only [Option.map_some, Option.bind_some]
    rw [hdots, joined_eq, if_neg (not_doubleSlash_joined hkept)]
    split
    · exact iff_of_false (by rintro ⟨⟩) (by rintro ⟨⟩)
    · rw [Except.ok.injEq, Option.some_inj]

/-- An absolute path without forbidden characters is reduced to its components. -/
theorem normalize_isReduced (w forb raw d path : Text) (hctl : stringIsPresent raw controlChars = false)
    (hraw : stringReplace (stringTrim raw) = d ++ path) (hd : IsDisk d) (hroot : path.head? = some '/'.toUInt8)
    (hforb : stringIsPresent path forb = false) :
    ∃ r, normalize (some w) forb false raw = some (r, d) ∧ ∀ t, r = .ok t ↔ reduced path = some t := by
  refine ⟨reducePath path, ?_, fun t => reducePath_eq_ok_iff hroot⟩
  rw [normalize_of_root hctl hraw hd hroot, Option.elim_some, if_neg (Bool.eq_false_iff.mp hforb)]

/-- The path ` C:/a\..\b/`. -/
theorem normalize_isReduced_disk : ∃ r, normalize (some ['/'.toUInt8]) defaultForbiddenChar false
      [' '.toUInt8, 'C'.toUInt8, ':'.toUInt8, '/'.toUInt8, 'a'.toUInt8, '\\'.toUInt8, '.'.toUInt8, '.'.toUInt8,
        '\\'.toUInt8, 'b'.toUInt8, '/'.toUInt8] = some (r, ['C'.toUInt8, ':'.toUInt8]) ∧
    ∀ t, r = .ok t ↔ reduced ['/'.toUInt8, 'a'.toUInt8, '/'.toUInt8, '.'.toUInt8, '.'.toUInt8, '/'.toUInt8,
      'b'.toUInt8, '/'.toUInt8] = some t :=
  normalize_isReduced _ _ _ ['C'.toUInt8, ':'.toUInt8] _ (by decide) (by decide) (.inr ⟨'C'.toUInt8, by decide, rfl⟩)
    (by decide) (by decide)

end BofStd.BofPath
